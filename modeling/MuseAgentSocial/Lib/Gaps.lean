import Mathlib.Data.Set.Insert

/-!
# A cursor and the gaps below it

Numbers arrive in any order.  A cursor holds the largest one so far, and a set
of gaps the numbers below it that did not arrive.  `Tracks S cursor gaps` says
that both are right for the set `S` of arrivals.

* `Tracks.advance` and `Tracks.late`: the two ways to record an arrival.
* `Tracks.not_missed`: an arrival that is not recorded shows.
-/

/-- The cursor and the gaps are those of the arrivals `S`. -/
structure Tracks (S : Set ℕ) (cursor : ℕ) (gaps : Set ℕ) : Prop where
  above : ∀ n ∈ S, n ≤ cursor
  attained : cursor = 0 ∨ cursor ∈ S
  missing : ∀ n, n ∈ gaps ↔ 0 < n ∧ n ≤ cursor ∧ n ∉ S

namespace Tracks

variable {S : Set ℕ} {cursor n : ℕ} {gaps gaps' : Set ℕ}

theorem empty : Tracks ∅ 0 ∅ where
  above n hn := absurd hn (Set.notMem_empty n)
  attained := Or.inl rfl
  missing n := by
    constructor
    · intro hn
      exact absurd hn (Set.notMem_empty n)
    · rintro ⟨hpos, hle, -⟩
      omega

/-- The largest number so far arrives: the numbers that it skips are gaps. -/
theorem advance (h : Tracks S cursor gaps) (hn : cursor < n)
    (hgaps : ∀ m, m ∈ gaps' ↔ m ∈ gaps ∨ (cursor < m ∧ m < n)) : Tracks (insert n S) n gaps' where
  above m hm := by
    rcases Set.mem_insert_iff.mp hm with rfl | hm
    · exact Nat.le_refl m
    · have := h.above m hm
      omega
  attained := Or.inr (Set.mem_insert n S)
  missing m := by
    rw [hgaps, h.missing, Set.mem_insert_iff, not_or]
    constructor
    · rintro (⟨hpos, hle, hm⟩ | ⟨hlt, hlt'⟩)
      · exact ⟨hpos, by omega, by omega, hm⟩
      · refine ⟨by omega, by omega, by omega, fun hm => ?_⟩
        have := h.above m hm
        omega
    · rintro ⟨hpos, hle, hne, hm⟩
      by_cases hold : m ≤ cursor
      · exact Or.inl ⟨hpos, hold, hm⟩
      · exact Or.inr ⟨by omega, by omega⟩

/-- A number below the cursor arrives: it is no gap any more. -/
theorem late (h : Tracks S cursor gaps) (hn : n ≤ cursor)
    (hgaps : ∀ m, m ∈ gaps' ↔ m ∈ gaps ∧ m ≠ n) : Tracks (insert n S) cursor gaps' where
  above m hm := by
    rcases Set.mem_insert_iff.mp hm with rfl | hm
    · exact hn
    · exact h.above m hm
  attained := h.attained.imp id (Set.mem_insert_of_mem n)
  missing m := by
    rw [hgaps, h.missing, Set.mem_insert_iff, not_or]
    constructor
    · rintro ⟨⟨hpos, hle, hm⟩, hne⟩
      exact ⟨hpos, hle, hne, hm⟩
    · rintro ⟨hpos, hle, hne, hm⟩
      exact ⟨⟨hpos, hle, hm⟩, hne⟩

/-- A new number that is not recorded is above the cursor or a false gap. -/
theorem not_missed (h : Tracks S cursor gaps) (hpos : 0 < n) (hn : n ∉ S) :
    ¬ Tracks (insert n S) cursor gaps := by
  intro h'
  have hle := h'.above n (Set.mem_insert n S)
  have hgap : n ∈ gaps := (h.missing n).mpr ⟨hpos, hle, hn⟩
  exact ((h'.missing n).mp hgap).2.2 (Set.mem_insert n S)

end Tracks
