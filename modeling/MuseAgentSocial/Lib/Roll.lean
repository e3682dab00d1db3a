import Mathlib.Data.List.Basic
import Mathlib.Data.List.Dedup
import Mathlib.Data.List.Perm.Lattice

/-!
# Numbering keys as they come

A `Roll` lists keys in the order in which they were first entered.  The number
of a key is its place, from 1 on, and a key that is entered again keeps it.

* `number_eq_iff`: two keys have one number only when they are one key.
* `number_enter_of_mem`: a number is never taken back.
* `exists_number_iff`: the numbers are those from 1 to the size.

`Roll.dict` is the roll as a dictionary, in which the largest number is the
size (`max_dict`).
-/

/-- Keys in the order in which they were first entered. -/
structure Roll (κ : Type) where
  keys : List κ
  nodup : keys.Nodup

namespace Roll

variable {κ : Type}

/-- A roll without keys. -/
def empty : Roll κ := ⟨[], List.nodup_nil⟩

/-- How many keys there are. -/
def size (r : Roll κ) : ℕ := r.keys.length

/-- The numbers by their keys. -/
def dict (r : Roll κ) : List (κ × ℕ) := r.keys.zipIdx 1

theorem dict_snd (r : Roll κ) : r.dict.map Prod.snd = List.range' 1 r.size := by
  rw [dict, List.zipIdx_map_snd, size]

variable [DecidableEq κ] (r : Roll κ) {k k' : κ} {n : ℕ}

/-- The number of a key, the next one for a key that is not there. -/
def number (k : κ) : ℕ := r.keys.idxOf k + 1

/-- The roll with a key, which keeps its place if it has one. -/
def enter (k : κ) : Roll κ :=
  if h : k ∈ r.keys then r
  else ⟨r.keys ++ [k], List.nodup_append.mpr ⟨r.nodup, List.nodup_singleton k, by grind⟩⟩

theorem enter_of_mem (h : k ∈ r.keys) : r.enter k = r := by
  rw [enter, dif_pos h]

theorem keys_enter (h : k ∉ r.keys) : (r.enter k).keys = r.keys ++ [k] := by
  rw [enter, dif_neg h]

theorem mem_enter : k' ∈ (r.enter k).keys ↔ k' ∈ r.keys ∨ k' = k := by
  by_cases h : k ∈ r.keys
  · rw [r.enter_of_mem h]
    constructor
    · exact Or.inl
    · intro hk'
      apply hk'.elim id
      intro heq
      rwa [heq]
  · rw [r.keys_enter h, List.mem_append, List.mem_singleton]

/-! ## Numbers -/

theorem number_of_not_mem (h : k ∉ r.keys) : r.number k = r.size + 1 := by
  rw [number, List.idxOf_of_notMem h, size]

theorem number_eq_iff (h : k ∈ r.keys) : r.number k = r.number k' ↔ k = k' := by
  rw [number, number, Nat.add_right_cancel_iff, List.idxOf_inj h]

/-- A number is never taken back. -/
theorem number_enter_of_mem (h : k ∈ r.keys) (k' : κ) : (r.enter k').number k = r.number k := by
  by_cases h' : k' ∈ r.keys
  · rw [r.enter_of_mem h']
  · rw [number, r.keys_enter h', List.idxOf_append_of_mem h, number]

theorem number_enter_self (k : κ) : (r.enter k).number k = r.number k := by
  by_cases h : k ∈ r.keys
  · rw [r.enter_of_mem h]
  · rw [r.number_of_not_mem h, number, r.keys_enter h, List.idxOf_append_of_notMem h, List.idxOf_cons_self, size]

theorem exists_number_iff : (∃ k ∈ r.keys, r.number k = n) ↔ 1 ≤ n ∧ n ≤ r.size := by
  constructor
  · rintro ⟨k, hk, rfl⟩
    have hlt := List.idxOf_lt_length_of_mem hk
    show 1 ≤ r.keys.idxOf k + 1 ∧ r.keys.idxOf k + 1 ≤ r.keys.length
    omega
  · intro ⟨hpos, hle⟩
    have hlt : n - 1 < r.keys.length := by
      show n - 1 < r.size
      omega
    refine ⟨r.keys[n - 1], List.getElem_mem hlt, ?_⟩
    rw [number, r.nodup.idxOf_getElem]
    omega

theorem size_eq_of_mem_iff {ks : List κ} (h : ∀ k, k ∈ r.keys ↔ k ∈ ks) : r.size = ks.dedup.length := by
  apply List.Perm.length_eq
  apply (List.perm_ext_iff_of_nodup r.nodup ks.nodup_dedup).mpr
  intro k
  rw [h, List.mem_dedup]

/-! ## The dictionary -/

omit [DecidableEq κ] in
/-- The largest number is the size. -/
theorem max_dict : (r.dict.map Prod.snd).max?.getD 0 = r.size := by
  rw [dict_snd]
  cases hsize : r.size with
  | zero => rfl
  | succ n =>
    have hmax : (List.range' 1 (n + 1)).max? = some (n + 1) := by
      rw [List.max?_eq_some_iff]
      constructor
      · rw [List.mem_range'_1]
        omega
      · intro m hm
        rw [List.mem_range'_1] at hm
        omega
    rw [hmax, Option.getD_some]

theorem lookup_zipIdx (ks : List κ) (k : κ) (n : ℕ) :
    (ks.zipIdx n).lookup k = if k ∈ ks then some (ks.idxOf k + n) else none := by
  induction ks generalizing n with
  | nil => simp
  | cons k' ks ih =>
    rw [List.zipIdx_cons, List.lookup_cons, ih]
    by_cases heq : k = k'
    · simp [heq]
    · have hbeq : (k == k') = false := by simpa using heq
      have hnext : ks.idxOf k + (n + 1) = ks.idxOf k + 1 + n := by omega
      rw [hbeq, List.idxOf_cons_ne ks (Ne.symm heq), Nat.succ_eq_add_one, ← hnext]
      simp only [List.mem_cons, heq, false_or]

theorem lookup_dict (k : κ) : r.dict.lookup k = if k ∈ r.keys then some (r.number k) else none :=
  lookup_zipIdx r.keys k 1

theorem dict_enter (h : k ∉ r.keys) : (r.enter k).dict = r.dict ++ [(k, r.size + 1)] := by
  rw [dict, r.keys_enter h, List.zipIdx_append, dict, size]
  simp [Nat.add_comm]

end Roll
