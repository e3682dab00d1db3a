import Mathlib.Logic.Basic

/-!
# Programs whose operations can fail

A `Program` runs on a state that outlives the process, and each of its operations has a
name.  The environment says for each of them whether it takes place, raises, or is the
point before which the process dies.

* `op` is an operation; it also raises where it is not defined on the state.
* `onError` is `try: .. except: .. raise`, and `quiet` swallows an exception.
* `Triple` says what holds where a program returns, raises, or is cut.  There is one rule
  for each construct.
-/

namespace Faulty

/-- What becomes of an operation. -/
inductive Outcome where
  | ok | fail | crash
  deriving DecidableEq, Repr

/-- How a program ends. -/
inductive Result (α : Type) where
  | returned (a : α)
  | raised
  | crashed
  deriving DecidableEq, Repr

/-- A program on a state, with operations that are named by `ι`. -/
def Program (σ ι α : Type) := (ι → Outcome) → σ → Result α × σ

namespace Program

variable {σ ι α β : Type}

/-- Return a value. -/
def ret (a : α) : Program σ ι α := fun _ s => (.returned a, s)

/-- Raise an exception. -/
def raise : Program σ ι α := fun _ s => (.raised, s)

/-- Read the state. -/
def read (f : σ → α) : Program σ ι α := fun _ s => (.returned (f s), s)

/-- One operation. -/
def op (i : ι) (f : σ → Option σ) : Program σ ι Unit := fun env s =>
  match env i with
  | .ok =>
    match f s with
    | some s' => (.returned (), s')
    | none => (.raised, s)
  | .fail => (.raised, s)
  | .crash => (.crashed, s)

/-- Run one program after the other. -/
def bind (p : Program σ ι α) (f : α → Program σ ι β) : Program σ ι β := fun env s =>
  match p env s with
  | (.returned a, s') => f a env s'
  | (.raised, s') => (.raised, s')
  | (.crashed, s') => (.crashed, s')

/-- Where the program raises, run the handler and raise again. -/
def onError (p : Program σ ι α) (handler : Program σ ι Unit) : Program σ ι α := fun env s =>
  match p env s with
  | (.raised, s') =>
    match handler env s' with
    | (.crashed, s'') => (.crashed, s'')
    | (_, s'') => (.raised, s'')
  | r => r

/-- An exception is swallowed. -/
def quiet (p : Program σ ι Unit) : Program σ ι Unit := fun env s =>
  match p env s with
  | (.raised, s') => (.returned (), s')
  | r => r

/-! ## What holds where a program ends -/

variable {env : ι → Outcome} {P : σ → Prop} {Q : α → σ → Prop} {R : β → σ → Prop} {E E' C C' : σ → Prop}

/-- From a state with `P` the program returns `a` in a state with `Q a`, raises in one with
`E`, or is cut in one with `C`. -/
def Triple (env : ι → Outcome) (P : σ → Prop) (p : Program σ ι α) (Q : α → σ → Prop) (E C : σ → Prop) : Prop :=
  ∀ s, P s → match p env s with
    | (.returned a, s') => Q a s'
    | (.raised, s') => E s'
    | (.crashed, s') => C s'

theorem Triple.returned {p : Program σ ι α} (h : Triple env P p Q E C) {s s' : σ} {a : α} (hs : P s)
    (hrun : p env s = (.returned a, s')) : Q a s' := by
  have hend := h s hs
  rwa [hrun] at hend

/-- A property that holds at each end holds of the state that is left. -/
theorem Triple.state {I : σ → Prop} {p : Program σ ι α} (h : Triple env P p Q E C) (hQ : ∀ a s, Q a s → I s)
    (hE : ∀ s, E s → I s) (hC : ∀ s, C s → I s) {s : σ} (hs : P s) : I (p env s).2 := by
  have hend := h s hs
  rcases hrun : p env s with ⟨r, s'⟩
  rw [hrun] at hend
  cases r with
  | returned a => exact hQ a s' hend
  | raised => exact hE s' hend
  | crashed => exact hC s' hend

theorem Triple.imp {P' : σ → Prop} {Q' : α → σ → Prop} {p : Program σ ι α} (h : Triple env P p Q E C)
    (hP : ∀ s, P' s → P s) (hQ : ∀ a s, Q a s → Q' a s) (hE : ∀ s, E s → E' s) (hC : ∀ s, C s → C' s) :
    Triple env P' p Q' E' C' := by
  intro s hs
  have hend := h s (hP s hs)
  rcases hrun : p env s with ⟨r, s'⟩
  rw [hrun] at hend
  cases r with
  | returned a => exact hQ a s' hend
  | raised => exact hE s' hend
  | crashed => exact hC s' hend

theorem Triple.ret {a : α} (h : ∀ s, P s → Q a s) : Triple env P (ret a) Q E C := h

/-- The rule of an operation: what it does where it takes place, and where it does not. -/
theorem Triple.op {i : ι} {f : σ → Option σ} {Q : Unit → σ → Prop}
    (hok : env i = .ok → ∀ s, P s → match f s with
      | some s' => Q () s'
      | none => E s)
    (hfail : env i = .fail → ∀ s, P s → E s) (hcrash : env i = .crash → ∀ s, P s → C s) :
    Triple env P (op i f) Q E C := by
  intro s hs
  unfold Program.op
  cases henv : env i with
  | ok =>
    have hend := hok henv s hs
    cases hf : f s with
    | some s' =>
      rw [hf] at hend
      exact hend
    | none =>
      rw [hf] at hend
      exact hend
  | fail => exact hfail henv s hs
  | crash => exact hcrash henv s hs

theorem Triple.bind {p : Program σ ι α} {f : α → Program σ ι β} (hp : Triple env P p Q E C)
    (hf : ∀ a, Triple env (Q a) (f a) R E C) : Triple env P (bind p f) R E C := by
  intro s hs
  have hend := hp s hs
  unfold Program.bind
  rcases hrun : p env s with ⟨r, s'⟩
  rw [hrun] at hend
  cases r with
  | returned a => exact hf a s' hend
  | raised => exact hend
  | crashed => exact hend

theorem Triple.bind_read {g : σ → α} {f : α → Program σ ι β}
    (h : ∀ a, Triple env (fun s => P s ∧ g s = a) (f a) R E C) : Triple env P (Program.bind (read g) f) R E C :=
  fun s hs => h (g s) s ⟨hs, rfl⟩

/-- A program that returns only where `A` is the case. -/
theorem Triple.bind_sure {A : Prop} {p : Program σ ι α} {f : α → Program σ ι β}
    (hp : Triple env P p (fun a s => Q a s ∧ A) E C) (hf : ∀ a, A → Triple env (Q a) (f a) R E C) :
    Triple env P (Program.bind p f) R E C :=
  hp.bind (fun a s hs => hf a hs.2 s hs.1)

theorem Triple.onError {H : σ → Prop} {p : Program σ ι α} {handler : Program σ ι Unit} (hp : Triple env P p Q H C)
    (hhandler : Triple env H handler (fun _ => E) E C) : Triple env P (onError p handler) Q E C := by
  intro s hs
  have hend := hp s hs
  unfold Program.onError
  rcases hrun : p env s with ⟨r, s'⟩
  rw [hrun] at hend
  cases r with
  | returned a => exact hend
  | raised =>
    have hhandled := hhandler s' hend
    dsimp only
    rcases hrun' : handler env s' with ⟨r', s''⟩
    rw [hrun'] at hhandled
    cases r' with
    | returned a => exact hhandled
    | raised => exact hhandled
    | crashed => exact hhandled
  | crashed => exact hend

theorem Triple.quiet {p : Program σ ι Unit} {Q : Unit → σ → Prop} (hp : Triple env P p Q (Q ()) C) :
    Triple env P (quiet p) Q E C := by
  intro s hs
  have hend := hp s hs
  unfold Program.quiet
  rcases hrun : p env s with ⟨r, s'⟩
  rw [hrun] at hend
  cases r with
  | returned a => exact hend
  | raised => exact hend
  | crashed => exact hend

end Program

end Faulty
