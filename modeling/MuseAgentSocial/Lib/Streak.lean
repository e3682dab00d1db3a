import Mathlib.Data.List.TakeWhile
import Mathlib.Data.List.Count

/-!
# Streaks in a history

A history is a list of entries, the newest first.  Some entries end a chapter of it.

* `current` is the open chapter: what came after the last entry that ended one.
* `streak p` is how many entries that meet `p` the open chapter ends with, without another between them.
-/

namespace History

variable {α : Type*} (ended p : α → Bool) {a : α} (h : List α)

/-- The entries after the last one that ended a chapter. -/
def current : List α := h.takeWhile (fun a => !ended a)

/-- How many of the newest entries of the open chapter meet `p`. -/
def streak : ℕ := ((current ended h).takeWhile p).length

@[simp] theorem current_nil : current ended [] = [] := rfl

@[simp] theorem streak_nil : streak ended p [] = 0 := rfl

variable {ended p}

theorem current_cons_of_ended (ha : ended a = true) : current ended (a :: h) = [] := by
  simp [current, ha]

theorem current_cons (ha : ended a = false) : current ended (a :: h) = a :: current ended h := by
  simp [current, ha]

theorem streak_cons_of_ended (ha : ended a = true) : streak ended p (a :: h) = 0 := by
  rw [streak, current_cons_of_ended h ha]
  rfl

theorem streak_cons_of_not (ha : p a = false) : streak ended p (a :: h) = 0 := by
  cases hended : ended a with
  | true => exact streak_cons_of_ended h hended
  | false => simp [streak, current_cons h hended, ha]

theorem streak_cons (ha : ended a = false) (hp : p a = true) :
    streak ended p (a :: h) = streak ended p h + 1 := by
  simp [streak, current_cons h ha, hp]

end History
