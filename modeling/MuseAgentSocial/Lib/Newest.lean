import Mathlib.Data.List.Sort
import Mathlib.Data.List.Count

/-!
# The newest elements of a list

`newest l` is `l` in decreasing order, and `(newest l).take k` is what
`ORDER BY ... DESC LIMIT k` selects.  `mem_newest_take` says which elements
that are without mentioning a sort: those with fewer than `k` greater
elements.
-/

namespace Newest

variable {α : Type*} [LinearOrder α]

/-- The elements from the greatest to the least. -/
def newest (l : List α) : List α := l.insertionSort (· ≥ ·)

theorem newest_perm (l : List α) : (newest l).Perm l := List.perm_insertionSort _ l

@[simp] theorem mem_newest {l : List α} {x : α} : x ∈ newest l ↔ x ∈ l :=
  (newest_perm l).mem_iff

theorem newest_sorted (l : List α) : (newest l).Pairwise (· ≥ ·) :=
  List.pairwise_insertionSort (· ≥ ·) l

/-- Without repetition the order is strict. -/
theorem newest_strict {l : List α} (hl : l.Nodup) : (newest l).Pairwise (· > ·) := by
  have hnodup : (newest l).Nodup := (newest_perm l).nodup_iff.mpr hl
  refine ((newest_sorted l).and hnodup).imp ?_
  rintro a b ⟨hge, hne⟩
  exact lt_of_le_of_ne hge (Ne.symm hne)

/-- In a decreasing list the first `k` elements are those with fewer than
`k` greater ones. -/
theorem mem_take_of_sorted {l : List α} (hl : l.Pairwise (· > ·)) (k : Nat) (x : α) :
    x ∈ l.take k ↔ x ∈ l ∧ l.countP (fun y => decide (x < y)) < k := by
  induction l generalizing k with
  | nil => simp
  | cons a l ih =>
    obtain ⟨ha, htail⟩ := List.pairwise_cons.mp hl
    cases k with
    | zero => simp
    | succ k =>
      rw [List.take_succ_cons, List.mem_cons, ih htail k, List.mem_cons, List.countP_cons]
      by_cases hxa : x = a
      · subst hxa
        have hnone : l.countP (fun y => decide (x < y)) = 0 := by
          rw [List.countP_eq_zero]
          intro y hy
          simpa using le_of_lt (ha y hy)
        simp [hnone]
      · constructor
        · rintro (h | ⟨hx, hlt⟩)
          · exact absurd h hxa
          · refine ⟨Or.inr hx, ?_⟩
            split_ifs <;> omega
        · rintro ⟨h | hx, hlt⟩
          · exact absurd h hxa
          · have hbelow : x < a := ha x hx
            simp only [hbelow, decide_true, if_true] at hlt
            exact Or.inr ⟨hx, by omega⟩

/-- The `k` newest elements are those with fewer than `k` newer ones. -/
theorem mem_newest_take {l : List α} (hl : l.Nodup) (k : Nat) (x : α) :
    x ∈ (newest l).take k ↔ x ∈ l ∧ l.countP (fun y => decide (x < y)) < k := by
  rw [mem_take_of_sorted (newest_strict hl), mem_newest, (newest_perm l).countP_eq]

/-- The newest element that meets `p` is the one with no newer element
meeting `p`. -/
theorem mem_newest_filter_head {l : List α} (hl : l.Nodup) (p : α → Bool) (x : α) :
    x ∈ ((newest l).filter p).take 1 ↔
      x ∈ l ∧ p x = true ∧ ∀ y ∈ l, p y = true → y ≤ x := by
  rw [mem_take_of_sorted ((newest_strict hl).filter p), List.mem_filter, mem_newest,
    Nat.lt_one_iff, List.countP_eq_zero, and_assoc]
  simp [List.mem_filter]

end Newest
