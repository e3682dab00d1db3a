import Mathlib.Logic.Basic

/-!
# Programs that can be interrupted

A `Program` runs on a state that outlives the process, such as files and a
database in autocommit mode.  Its only effects are `write`s, each of which is
atomic.  A run has a `Budget`, the number of writes after which the process
dies; `none` is a run that is not interrupted.  A dying process leaves the
state as the last write left it.

`Program.Keeps P` says that every write of a program keeps a property `P` of
the state, so `P` also holds where the program is cut.  `Program.Ends` adds
what holds when the program returns.
-/

namespace Durable

/-- How a program ends. -/
inductive Result (ε α : Type) where
  | returned (a : α)
  | raised (e : ε)
  | interrupted
  deriving DecidableEq, Repr

/-- The number of writes before the process dies, `none` when it does not. -/
abbrev Budget := Option Nat

/-- A program on a durable state. -/
def Program (σ ε α : Type) := Budget → σ → Result ε α × Budget × σ

namespace Program

variable {σ ε α β ι : Type}

/-- Return a value. -/
def ret (a : α) : Program σ ε α := fun n s => (.returned a, n, s)

/-- Raise an exception. -/
def raise (e : ε) : Program σ ε α := fun n s => (.raised e, n, s)

/-- Read the state. -/
def read (f : σ → α) : Program σ ε α := fun n s => (.returned (f s), n, s)

/-- One atomic write, or the death of the process before it. -/
def write (f : σ → σ) : Program σ ε Unit := fun n s =>
  match n with
  | none => (.returned (), none, f s)
  | some 0 => (.interrupted, some 0, s)
  | some (n + 1) => (.returned (), some n, f s)

/-- Run one program after the other. -/
def bind (p : Program σ ε α) (f : α → Program σ ε β) : Program σ ε β := fun n s =>
  match p n s with
  | (.returned a, n', s') => f a n' s'
  | (.raised e, n', s') => (.raised e, n', s')
  | (.interrupted, n', s') => (.interrupted, n', s')

instance : Monad (Program σ ε) where
  pure := ret
  bind := bind

/-- Run a program for each element of a list. -/
def forEach (xs : List ι) (f : ι → Program σ ε Unit) : Program σ ε Unit :=
  match xs with
  | [] => ret ()
  | x :: xs => bind (f x) (fun _ => forEach xs f)

/-- How the program ends. -/
def result (p : Program σ ε α) (n : Budget) (s : σ) : Result ε α := (p n s).1

/-- The state that the program leaves. -/
def state (p : Program σ ε α) (n : Budget) (s : σ) : σ := (p n s).2.2

/-! ## Runs without an interruption -/

@[simp] theorem pure_run (a : α) (n : Budget) (s : σ) :
    (pure a : Program σ ε α) n s = (.returned a, n, s) := rfl

@[simp] theorem ret_run (a : α) (n : Budget) (s : σ) :
    (ret a : Program σ ε α) n s = (.returned a, n, s) := rfl

@[simp] theorem raise_run (e : ε) (n : Budget) (s : σ) :
    (raise e : Program σ ε α) n s = (.raised e, n, s) := rfl

@[simp] theorem read_run (f : σ → α) (n : Budget) (s : σ) :
    (read f : Program σ ε α) n s = (.returned (f s), n, s) := rfl

@[simp] theorem write_none (f : σ → σ) (s : σ) :
    (write f : Program σ ε Unit) none s = (.returned (), none, f s) := rfl

@[simp] theorem bind_eq (p : Program σ ε α) (f : α → Program σ ε β) : p >>= f = bind p f := rfl

variable {c : Prop} {n n' : Budget}

theorem ite_run [Decidable c] (p q : Program σ ε α) (n : Budget) (s : σ) :
    (if c then p else q) n s = if c then p n s else q n s := by
  split <;> rfl

theorem bind_returned {p : Program σ ε α} {f : α → Program σ ε β} {s s' : σ} {a : α}
    (h : p n s = (.returned a, n', s')) : bind p f n s = f a n' s' := by
  simp [bind, h]

/-- A composed run that returns. -/
theorem bind_eq_returned {p : Program σ ε α} {f : α → Program σ ε β} {s s' : σ} {b : β} :
    bind p f n s = (.returned b, n', s') ↔
      ∃ a m t, p n s = (.returned a, m, t) ∧ f a m t = (.returned b, n', s') := by
  rcases hrun : p n s with ⟨r, m, t⟩
  cases r <;> simp [bind, hrun, and_assoc]

/-- A composed run whose first part does not return ends where that part does. -/
theorem bind_state_of_stopped {p : Program σ ε α} {f : α → Program σ ε β} {s : σ}
    (h : ∀ a m t, p n s ≠ (.returned a, m, t)) : (bind p f).state n s = p.state n s := by
  rcases hrun : p n s with ⟨r, m, t⟩
  cases r with
  | returned a => exact absurd hrun (h a m t)
  | raised e => simp [Program.state, bind, hrun]
  | interrupted => simp [Program.state, bind, hrun]

theorem ret_eq_returned {s s' : σ} {a b : α} :
    (ret a : Program σ ε α) n s = (.returned b, n', s') ↔ b = a ∧ n' = n ∧ s' = s := by
  simp [ret, Prod.ext_iff, eq_comm]

theorem raise_ne_returned {s s' : σ} {e : ε} {a : α} :
    ¬ (raise e : Program σ ε α) n s = (.returned a, n', s') := by
  simp [raise]

/-- A loop whose passes all return on the state that `g` leaves is a fold. -/
theorem forEach_none {f : ι → Program σ ε Unit} {g : ι → σ → σ} (xs : List ι)
    (h : ∀ x ∈ xs, ∀ s, f x none s = (.returned (), none, g x s)) (s : σ) :
    forEach xs f none s = (.returned (), none, xs.foldl (fun s x => g x s) s) := by
  induction xs generalizing s with
  | nil => rfl
  | cons x xs ih =>
    rw [forEach, bind_returned (h x List.mem_cons_self s)]
    exact ih (fun y hy => h y (List.mem_cons_of_mem x hy)) (g x s)

/-- A loop of single writes that may be cut: the writes up to the death of the process. -/
theorem forEach_write (g : ι → σ → σ) (xs : List ι) (k : Nat) (s : σ) :
    (forEach xs (fun x => write (g x)) : Program σ ε Unit) (some k) s =
      (if xs.length ≤ k then .returned () else .interrupted, some (k - xs.length),
        (xs.take k).foldl (fun s x => g x s) s) := by
  induction xs generalizing k s with
  | nil => simp [forEach]
  | cons x xs ih =>
    cases k with
    | zero => simp [forEach, bind, write]
    | succ k =>
      have hstep : (write (g x) : Program σ ε Unit) (some (k + 1)) s = (.returned (), some k, g x s) := rfl
      rw [forEach, bind_returned hstep, ih]
      simp

/-! ## What a program keeps -/

/-- Every state that a run of the program leaves, interrupted or not, has
`P` when the first one has. -/
def Keeps (P : σ → Prop) (p : Program σ ε α) : Prop :=
  ∀ n s, P s → P (p.state n s)

variable {P Q : σ → Prop}

theorem Keeps.ret (a : α) : Keeps P (ret a : Program σ ε α) := fun _ _ h => h

theorem Keeps.raise (e : ε) : Keeps P (raise e : Program σ ε α) := fun _ _ h => h

theorem Keeps.read (f : σ → α) : Keeps P (read f : Program σ ε α) := fun _ _ h => h

theorem Keeps.write {f : σ → σ} (h : ∀ s, P s → P (f s)) :
    Keeps P (write f : Program σ ε Unit) := by
  intro n s hs
  match n with
  | none => exact h s hs
  | some 0 => exact hs
  | some (n + 1) => exact h s hs

/-- What one run of the first part leaves is kept by the second part. -/
theorem Keeps.bind_state {p : Program σ ε α} {f : α → Program σ ε β} {s : σ}
    (hp : P (p.state n s)) (hf : ∀ a, Keeps P (f a)) : P ((Program.bind p f).state n s) := by
  unfold Program.state at hp ⊢
  unfold Program.bind
  split <;> rename_i heq <;> rw [heq] at hp
  · exact hf _ _ _ hp
  · exact hp
  · exact hp

theorem Keeps.bind {p : Program σ ε α} {f : α → Program σ ε β} (hp : Keeps P p)
    (hf : ∀ a, Keeps P (f a)) : Keeps P (bind p f) :=
  fun n s hs => Keeps.bind_state (hp n s hs) hf

theorem Keeps.bind_read {g : σ → α} {f : α → Program σ ε β}
    (h : ∀ s, P s → ∀ n, P ((f (g s)).state n s)) : Keeps P (Program.bind (Program.read g) f) :=
  fun n s hs => h s hs n

theorem Keeps.and {p : Program σ ε α} (hP : Keeps P p) (hQ : Keeps Q p) :
    Keeps (fun s => P s ∧ Q s) p :=
  fun n s h => ⟨hP n s h.1, hQ n s h.2⟩

theorem Keeps.ite [Decidable c] {p q : Program σ ε α} (hp : c → Keeps P p)
    (hq : ¬c → Keeps P q) : Keeps P (if c then p else q) := by
  split
  · exact hp ‹_›
  · exact hq ‹_›

theorem Keeps.forEach {xs : List ι} {f : ι → Program σ ε Unit}
    (h : ∀ x ∈ xs, Keeps P (f x)) : Keeps P (forEach xs f) := by
  induction xs with
  | nil => exact Keeps.ret ()
  | cons x xs ih =>
    exact Keeps.bind (h x List.mem_cons_self)
      (fun _ => ih (fun y hy => h y (List.mem_cons_of_mem x hy)))

/-! ## What holds where a program ends -/

/-- From a state with `P` the program returns `a` in a state with `Q a`, and
where it is cut or raises the state has `I`. -/
def Ends (P : σ → Prop) (p : Program σ ε α) (Q : α → σ → Prop) (I : σ → Prop) : Prop :=
  ∀ n s, P s → match p n s with
    | (.returned a, _, s') => Q a s'
    | (.raised _, _, s') => I s'
    | (.interrupted, _, s') => I s'

variable {R : α → σ → Prop} {S : β → σ → Prop} {I : σ → Prop}

theorem Ends.returned {p : Program σ ε α} (h : Ends P p R I) {s s' : σ} {a : α} (hs : P s)
    (hrun : p n s = (.returned a, n', s')) : R a s' := by
  have := h n s hs
  rwa [hrun] at this

theorem Ends.state {p : Program σ ε α} (h : Ends P p R I) (hle : ∀ a s, R a s → I s) {s : σ}
    (hs : P s) : I (p.state n s) := by
  have hend := h n s hs
  unfold Program.state
  split at hend <;> rename_i heq <;> rw [heq]
  · exact hle _ _ hend
  · exact hend
  · exact hend

theorem Ends.imp {P' : σ → Prop} {R' : α → σ → Prop} {p : Program σ ε α} (h : Ends P p R I)
    (hP : ∀ s, P' s → P s) (hR : ∀ a s, R a s → R' a s) : Ends P' p R' I := by
  intro n s hs
  have hend := h n s (hP s hs)
  split at hend
  · exact hR _ _ hend
  · exact hend
  · exact hend

theorem Ends.weaken {I' : σ → Prop} {p : Program σ ε α} (h : Ends P p R I)
    (hI : ∀ s, I s → I' s) : Ends P p R I' := by
  intro n s hs
  have hend := h n s hs
  split at hend
  · exact hend
  · exact hI _ hend
  · exact hI _ hend

theorem Ends.and {P' : σ → Prop} {R' : α → σ → Prop} {I' : σ → Prop} {p : Program σ ε α}
    (h : Ends P p R I) (h' : Ends P' p R' I') :
    Ends (fun s => P s ∧ P' s) p (fun a s => R a s ∧ R' a s) (fun s => I s ∧ I' s) := by
  intro n s hs
  have hend := h n s hs.1
  have hend' := h' n s hs.2
  rcases hrun : p n s with ⟨r, n', s'⟩
  rw [hrun] at hend hend'
  cases r with
  | returned a => exact ⟨hend, hend'⟩
  | raised e => exact ⟨hend, hend'⟩
  | interrupted => exact ⟨hend, hend'⟩

theorem Ends.ret {a : α} (h : ∀ s, P s → R a s) : Ends P (Program.ret a : Program σ ε α) R I :=
  fun _ s hs => h s hs

theorem Ends.raise {e : ε} (h : ∀ s, P s → I s) :
    Ends P (Program.raise e : Program σ ε α) R I := fun _ s hs => h s hs

theorem Ends.read {f : σ → α} (h : ∀ s, P s → R (f s) s) :
    Ends P (Program.read f : Program σ ε α) R I := fun _ s hs => h s hs

theorem Ends.write {f : σ → σ} {R : Unit → σ → Prop} (hI : ∀ s, P s → I s)
    (h : ∀ s, P s → R () (f s)) : Ends P (Program.write f : Program σ ε Unit) R I := by
  intro n s hs
  match n with
  | none => exact h s hs
  | some 0 => exact hI s hs
  | some (n + 1) => exact h s hs

theorem Keeps.ends {p : Program σ ε α} (h : Keeps P p) (hI : ∀ s, P s → I s) :
    Ends P p (fun _ => P) I := by
  intro n s hs
  have hend := h n s hs
  unfold Program.state at hend
  split <;> rename_i heq <;> rw [heq] at hend
  · exact hend
  · exact hI _ hend
  · exact hI _ hend

theorem Ends.bind {p : Program σ ε α} {f : α → Program σ ε β} (hp : Ends P p R I)
    (hf : ∀ a, Ends (R a) (f a) S I) : Ends P (Program.bind p f) S I := by
  intro n s hs
  have hmid := hp n s hs
  rcases hrun : p n s with ⟨r, n', s'⟩
  simp only [Program.bind, hrun]
  rw [hrun] at hmid
  cases r with
  | returned a => exact hf a n' s' hmid
  | raised e => exact hmid
  | interrupted => exact hmid

/-- The state that a composed run leaves.  Where the first part does not return
more may be known of its budget than `Ends` says, so `hstop` takes that fact
along. -/
theorem Ends.bind_state {p : Program σ ε α} {f : α → Program σ ε β} (hp : Ends P p R I) {s : σ}
    (hs : P s) (hf : ∀ a n' s', p n s = (.returned a, n', s') → R a s' → Q ((f a).state n' s'))
    (hstop : (∀ a, p.result n s ≠ .returned a) → ∀ t, I t → Q t) :
    Q ((Program.bind p f).state n s) := by
  have hend := hp n s hs
  rcases hrun : p n s with ⟨r, n', s'⟩
  rw [hrun] at hend
  cases r with
  | returned a =>
    have hstate : (Program.bind p f).state n s = (f a).state n' s' := by
      simp [Program.state, Program.bind, hrun]
    rw [hstate]
    exact hf a n' s' hrun hend
  | raised e =>
    have hstate : (Program.bind p f).state n s = s' := by simp [Program.state, Program.bind, hrun]
    rw [hstate]
    exact hstop (by simp [Program.result, hrun]) s' hend
  | interrupted =>
    have hstate : (Program.bind p f).state n s = s' := by simp [Program.state, Program.bind, hrun]
    rw [hstate]
    exact hstop (by simp [Program.result, hrun]) s' hend

theorem Ends.bind_read {g : σ → α} {f : α → Program σ ε β}
    (h : ∀ s, P s → Ends (fun t => t = s) (f (g s)) S I) :
    Ends P (Program.bind (Program.read g) f) S I :=
  fun n s hs => h s hs n s rfl

theorem Ends.ite [Decidable c] {p q : Program σ ε α} (hp : c → Ends P p R I)
    (hq : ¬c → Ends P q R I) : Ends P (if c then p else q) R I := by
  split
  · exact hp ‹_›
  · exact hq ‹_›

/-- A loop: each pass keeps the invariant, which may speak of the elements
that are still to come. -/
theorem Ends.forEach {f : ι → Program σ ε Unit} {J : List ι → σ → Prop}
    (h : ∀ x xs, Ends (J (x :: xs)) (f x) (fun _ => J xs) I) (xs : List ι) :
    Ends (J xs) (Program.forEach xs f) (fun _ => J []) I := by
  induction xs with
  | nil => exact Ends.ret (fun _ hs => hs)
  | cons x xs ih => exact Ends.bind (h x xs) (fun _ => ih)

end Program

end Durable
