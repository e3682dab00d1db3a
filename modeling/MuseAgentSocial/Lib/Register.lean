import Mathlib.Data.List.Basic

/-!
# Registers that are rewritten from a copy

Writers share one value.  A writer copies it, and later it stores what its operation
makes of the copy, whatever the value is by then.

* `Register.next` is one step.  A writer may give up at any time.
* `Fresh` says of a commit that the copy is still the value.
* The operations count their commits in a version.  `Lagging` holds in every run: the
  versions of the value and of every copy are at most the number of the commits, and if the
  value has reached it, the value is what the operations make of the first one, in the order
  of their commits.
* `Lagging.next`: the version counts all commits as long as every commit is fresh, and never
  again after one that is not.
-/

/-- A shared value, its writers, each with its copy, and the operations that committed. -/
structure Register (σ ι : Type*) where
  value : σ
  writers : List (Option (ι × σ)) := []
  log : List ι := []

namespace Register

variable {σ ι : Type*}

/-- What happens next. -/
inductive Act (ι : Type*) where
  /-- A writer comes. -/
  | enter
  /-- A writer copies the value. -/
  | read (i : Nat) (op : ι)
  | commit (i : Nat)
  /-- A writer goes without a commit. -/
  | leave (i : Nat)

/-- One step.  `apply` is `none` when an operation fails on its copy. -/
def next (apply : ι → σ → Option σ) (r : Register σ ι) : Act ι → Option (Register σ ι)
  | .enter => some { r with writers := r.writers ++ [none] }
  | .read i op => some { r with writers := r.writers.set i (some (op, r.value)) }
  | .commit i =>
    match r.writers[i]? with
    | some (some (op, copy)) =>
      (apply op copy).map fun v => { value := v, writers := r.writers.set i none, log := r.log ++ [op] }
    | _ => none
  | .leave i => some { r with writers := r.writers.set i none }

/-- A commit replaces the value that its writer has copied. -/
def Fresh (r : Register σ ι) : Act ι → Prop
  | .commit i => ∀ op copy, r.writers[i]? = some (some (op, copy)) → copy = r.value
  | _ => True

/-- The value is what the operations make of `init` in the order of their commits. -/
def Serial (apply : ι → σ → Option σ) (init : σ) (r : Register σ ι) : Prop :=
  r.log.foldlM (fun v op => apply op v) init = some r.value

/-- The version counts all commits. -/
def Counted (version : σ → Int) (init : σ) (r : Register σ ι) : Prop :=
  version r.value = version init + r.log.length

/-- No version is ahead of the commits, and only copies of the value are level with them. -/
structure Lagging (apply : ι → σ → Option σ) (version : σ → Int) (init : σ) (r : Register σ ι) : Prop where
  value_le : version r.value ≤ version init + r.log.length
  serial : r.Counted version init → r.Serial apply init
  copy_le : ∀ op copy, some (op, copy) ∈ r.writers → version copy ≤ version init + r.log.length
  copy_eq : ∀ op copy, some (op, copy) ∈ r.writers → version copy = version init + r.log.length → copy = r.value

end Register

namespace Register

variable {σ ι : Type*} {apply : ι → σ → Option σ} {version : σ → Int} {init : σ} {r r' : Register σ ι} {a : Act ι}

theorem lagging_init : Lagging apply version init { value := init } where
  value_le := by simp
  serial _ := rfl
  copy_le _ _ h := absurd h (by simp)
  copy_eq _ _ h := absurd h (by simp)

/-- What one step does. -/
theorem next_cases (h : r.next apply a = some r') :
    (r'.value = r.value ∧ r'.log = r.log ∧ r.Fresh a ∧
      ∀ op copy, some (op, copy) ∈ r'.writers → some (op, copy) ∈ r.writers ∨ copy = r.value) ∨
    ∃ i op copy v, a = .commit i ∧ r.writers[i]? = some (some (op, copy)) ∧ apply op copy = some v ∧
      r' = { value := v, writers := r.writers.set i none, log := r.log ++ [op] } := by
  cases a with
  | enter =>
    obtain rfl := Option.some.inj h
    exact Or.inl ⟨rfl, rfl, trivial, fun op copy hmem => Or.inl (by simpa using hmem)⟩
  | read i op =>
    obtain rfl := Option.some.inj h
    refine Or.inl ⟨rfl, rfl, trivial, fun op' copy hmem => ?_⟩
    obtain hold | hnew := List.mem_or_eq_of_mem_set hmem
    · exact Or.inl hold
    · exact Or.inr (Prod.mk.inj (Option.some.inj hnew)).2
  | commit i =>
    simp only [next] at h
    split at h
    · rename_i op copy hwriter
      obtain ⟨v, hv, rfl⟩ := Option.map_eq_some_iff.mp h
      exact Or.inr ⟨i, op, copy, v, rfl, hwriter, hv, rfl⟩
    · exact absurd h (by simp)
  | leave i =>
    obtain rfl := Option.some.inj h
    refine Or.inl ⟨rfl, rfl, trivial, fun op copy hmem => Or.inl ?_⟩
    exact (List.mem_or_eq_of_mem_set hmem).resolve_right (by simp)

theorem fresh_commit {i : Nat} {op : ι} {copy : σ} (hwriter : r.writers[i]? = some (some (op, copy))) :
    r.Fresh (.commit i) ↔ copy = r.value := by
  constructor
  · intro h
    exact h op copy hwriter
  · intro h op' copy' hwriter'
    obtain ⟨-, rfl⟩ := Prod.mk.inj (Option.some.inj (Option.some.inj (hwriter.symm.trans hwriter')))
    exact h

/-- One step keeps the lag, and the version counts all commits after it exactly when it did
before and the step is fresh. -/
theorem Lagging.next (hversion : ∀ op v v', apply op v = some v' → version v' = version v + 1)
    (h : r.Lagging apply version init) (hstep : r.next apply a = some r') :
    r'.Lagging apply version init ∧ (r'.Counted version init ↔ r.Counted version init ∧ r.Fresh a) := by
  obtain ⟨hvalue, hlog, hfresh, hwriters⟩ | ⟨i, op, copy, v, rfl, hwriter, hv, rfl⟩ := next_cases hstep
  · have hcounted : r'.Counted version init ↔ r.Counted version init := by rw [Counted, Counted, hvalue, hlog]
    have hserial : r'.Serial apply init ↔ r.Serial apply init := by rw [Serial, Serial, hvalue, hlog]
    refine ⟨⟨by rw [hvalue, hlog]; exact h.value_le, fun hc => hserial.mpr (h.serial (hcounted.mp hc)),
      fun op copy hmem => ?_, fun op copy hmem heq => ?_⟩, by simp [hcounted, hfresh]⟩
    · rw [hlog]
      obtain hold | rfl := hwriters op copy hmem
      · exact h.copy_le op copy hold
      · exact h.value_le
    · rw [hlog] at heq
      rw [hvalue]
      obtain hold | hcopy := hwriters op copy hmem
      · exact h.copy_eq op copy hold heq
      · exact hcopy
  · have hmem : some (op, copy) ∈ r.writers := List.mem_of_getElem? hwriter
    have hle := h.copy_le op copy hmem
    have hnext := hversion op copy v hv
    have hiff : Counted version init ⟨v, r.writers.set i none, r.log ++ [op]⟩ ↔
        r.Counted version init ∧ r.Fresh (.commit i) := by
      rw [fresh_commit hwriter]
      simp only [Counted, List.length_append, List.length_singleton]
      constructor
      · intro hcount
        have hcopy := h.copy_eq op copy hmem (by omega)
        exact ⟨by rw [← hcopy]; omega, hcopy⟩
      · rintro ⟨hcount, rfl⟩
        omega
    refine ⟨⟨?_, fun hc => ?_, fun op' copy' hmem' => ?_, fun op' copy' hmem' heq => ?_⟩, hiff⟩
    · simp only [List.length_append, List.length_singleton]
      omega
    · obtain ⟨hcount, hfresh⟩ := hiff.mp hc
      obtain rfl := (fresh_commit hwriter).mp hfresh
      rw [Serial, List.foldlM_append, h.serial hcount]
      simp [hv]
    · have hold := h.copy_le op' copy' ((List.mem_or_eq_of_mem_set hmem').resolve_right (by simp))
      simp only [List.length_append, List.length_singleton]
      omega
    · have hold := h.copy_le op' copy' ((List.mem_or_eq_of_mem_set hmem').resolve_right (by simp))
      simp only [List.length_append, List.length_singleton] at heq
      omega

end Register
