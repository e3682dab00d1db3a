import MuseAgentSocial.Lib.Machine

/-!
# Processes on a shared state

A `Process` ends with a value or takes one atomic step on a state and goes on
with what it read.  `Process.run` runs it alone.  `interleaving` is the machine
in which any number of processes take their steps in any order, and in which
any of them may stop for good.

`Process.Every R` says that each atomic step of a process relates the states
before and after it by `R`, whatever other processes did in between.  So `R`
holds of each step of the machine (`interleaving_step`), and an invariant that
`R` keeps holds in every state that it reaches (`interleaving_invariant`).
-/

/-- A process that ends with a value or takes one atomic step. -/
inductive Process (σ α : Type) where
  | ret (a : α)
  /-- `next` reads the state as it was before `write`. -/
  | step (write : σ → σ) (next : σ → Process σ α)

namespace Process

variable {σ ι α β : Type}

/-- One atomic step with a result. -/
def atomic (f : σ → σ × β) (k : β → Process σ α) : Process σ α :=
  .step (fun s => (f s).1) (fun s => k (f s).2)

/-- Run a process alone. -/
def run : Process σ α → σ → σ × α
  | .ret a, s => (s, a)
  | .step write next, s => run (next s) (write s)

@[simp] theorem run_ret (a : α) (s : σ) : (Process.ret a).run s = (s, a) := rfl

@[simp] theorem run_atomic (f : σ → σ × β) (k : β → Process σ α) (s : σ) :
    (atomic f k).run s = (k (f s).2).run (f s).1 := rfl

/-- Every atomic step relates the state before it to the state after it. -/
def Every (R : σ → σ → Prop) : Process σ α → Prop
  | .ret _ => True
  | .step write next => ∀ s, R s (write s) ∧ Every R (next s)

theorem every_atomic {R : σ → σ → Prop} {f : σ → σ × β} {k : β → Process σ α}
    (hf : ∀ s, R s (f s).1) (hk : ∀ b, (k b).Every R) : (atomic f k).Every R :=
  fun s => ⟨hf s, hk (f s).2⟩

end Process

/-- A state with the processes that work on it. -/
structure Shared (σ ι α : Type) where
  state : σ
  threads : List (ι × Process σ α) := []

/-- What happens next to the processes. -/
inductive Schedule (ι : Type) where
  | call (op : ι)
  | resume (i : Nat)
  /-- A process dies. -/
  | kill (i : Nat)
  deriving DecidableEq, Repr

variable {σ ι α : Type}

/-- One step of one process. -/
def Shared.next (code : ι → Process σ α) (S : Shared σ ι α) : Schedule ι → Option (Shared σ ι α)
  | .call op => some { S with threads := S.threads ++ [(op, code op)] }
  | .resume i =>
    match S.threads[i]? with
    | some (op, .step write next) =>
      some { state := write S.state, threads := S.threads.set i (op, next S.state) }
    | _ => none
  | .kill i => some { S with threads := S.threads.eraseIdx i }

/-- Calls of the operations of `code` by any number of processes. -/
def interleaving (init : σ → Prop) (code : ι → Process σ α) : Machine (Shared σ ι α) (Schedule ι) where
  init S := init S.state ∧ S.threads = []
  step := Shared.next code

section rules

variable {init : σ → Prop} {code : ι → Process σ α} {R : ι → σ → σ → Prop}

/-- The processes under way have only steps of their operation left. -/
theorem interleaving_threads (hcode : ∀ op, (code op).Every (R op)) {S : Shared σ ι α}
    (h : (interleaving init code).Reachable S) : ∀ t ∈ S.threads, t.2.Every (R t.1) := by
  refine h.invariant (P := fun S => ∀ t ∈ S.threads, t.2.Every (R t.1)) ?_ ?_
  · rintro S ⟨-, hnone⟩ t ht
    rw [hnone] at ht
    exact absurd ht List.not_mem_nil
  · intro S a S' hS _ hstep
    cases a with
    | call op =>
      obtain rfl := Option.some.inj hstep
      intro t ht
      obtain ht | ht := List.mem_append.mp ht
      · exact hS t ht
      · rw [List.mem_singleton.mp ht]
        exact hcode op
    | resume i =>
      simp only [interleaving, Shared.next] at hstep
      split at hstep
      · rename_i op write next hthread
        obtain rfl := Option.some.inj hstep
        intro t ht
        obtain ht | rfl := List.mem_or_eq_of_mem_set ht
        · exact hS t ht
        · exact (hS _ (List.mem_of_getElem? hthread) S.state).2
      · exact absurd hstep (by simp)
    | kill i =>
      obtain rfl := Option.some.inj hstep
      exact fun t ht => hS t (List.mem_of_mem_eraseIdx ht)

theorem interleaving_step (hcode : ∀ op, (code op).Every (R op)) {S S' : Shared σ ι α} {a : Schedule ι}
    (h : (interleaving init code).Reachable S) (hstep : (interleaving init code).step S a = some S') :
    S'.state = S.state ∨
      ∃ i op, a = .resume i ∧ S.threads[i]?.map Prod.fst = some op ∧ R op S.state S'.state := by
  cases a with
  | call op =>
    obtain rfl := Option.some.inj hstep
    exact Or.inl rfl
  | resume i =>
    right
    simp only [interleaving, Shared.next] at hstep
    split at hstep
    · rename_i op write next hthread
      obtain rfl := Option.some.inj hstep
      refine ⟨i, op, rfl, by rw [hthread]; rfl, ?_⟩
      exact (interleaving_threads hcode h _ (List.mem_of_getElem? hthread) S.state).1
    · exact absurd hstep (by simp)
  | kill i =>
    obtain rfl := Option.some.inj hstep
    exact Or.inl rfl

/-- What every atomic step keeps holds in every reachable state. -/
theorem interleaving_invariant {I : σ → Prop} (hinit : ∀ s, init s → I s)
    (hcode : ∀ op, (code op).Every (R op)) (hkeeps : ∀ op s s', R op s s' → I s → I s') {S : Shared σ ι α}
    (h : (interleaving init code).Reachable S) : I S.state := by
  induction h with
  | start hS => exact hinit _ hS.1
  | next hS _ hstep ih =>
    obtain heq | ⟨_, op, _, _, hR⟩ := interleaving_step hcode hS hstep
    · exact heq ▸ ih
    · exact hkeeps op _ _ hR ih

end rules
