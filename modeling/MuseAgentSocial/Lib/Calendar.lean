import Mathlib.Data.List.Lex
import Mathlib.Data.Nat.Find
import Mathlib.Tactic.Linarith

/-!
# The proleptic Gregorian calendar

Dates and times of day, without zones and leap seconds, for the years 1 to 9999.

* `DateTime` carries the proof that its fields name a moment.
* `DateTime.instant` counts its seconds; `instant_lt_iff` says that the order of the
  seconds is the lexicographic order of the fields.
* `ofInstant` goes back; `ofInstant_eq_some_iff`.
-/

namespace Calendar

/-- A leap year. -/
def IsLeap (y : Nat) : Prop := y % 4 = 0 ∧ (y % 100 ≠ 0 ∨ y % 400 = 0)

instance (y : Nat) : Decidable (IsLeap y) := inferInstanceAs (Decidable (_ ∧ _))

/-- The days of a month. -/
def daysInMonth (y m : Nat) : Nat :=
  if m = 2 then (if IsLeap y then 29 else 28)
  else if m = 4 ∨ m = 6 ∨ m = 9 ∨ m = 11 then 30
  else 31

/-- The days before the first day of a year. -/
def daysBeforeYear (y : Nat) : Nat := (y - 1) * 365 + (y - 1) / 4 + (y - 1) / 400 - (y - 1) / 100

/-- The days of a year before the first day of a month. -/
def daysBeforeMonth (y : Nat) : Nat → Nat
  | 0 => 0
  | 1 => 0
  | m + 2 => daysBeforeMonth y (m + 1) + daysInMonth y (m + 1)

/-- The fields name a moment. -/
def Valid (year month day hour minute second : Nat) : Prop :=
  (1 ≤ year ∧ year ≤ 9999) ∧ (1 ≤ month ∧ month ≤ 12) ∧ (1 ≤ day ∧ day ≤ daysInMonth year month) ∧
    hour < 24 ∧ minute < 60 ∧ second < 60

instance (year month day hour minute second : Nat) : Decidable (Valid year month day hour minute second) :=
  inferInstanceAs (Decidable (_ ∧ _))

/-- A moment by its fields. -/
@[ext]
structure DateTime where
  year : Nat
  month : Nat
  day : Nat
  hour : Nat
  minute : Nat
  second : Nat
  valid : Valid year month day hour minute second
  deriving DecidableEq

namespace DateTime

/-- The fields, the longest unit first. -/
def fields (d : DateTime) : List Nat := [d.year, d.month, d.day, d.hour, d.minute, d.second]

/-- The number of the day, from 1 for the first day of year 1. -/
def ordinal (d : DateTime) : Nat := daysBeforeYear d.year + daysBeforeMonth d.year d.month + d.day

/-- The second of the day. -/
def secondOfDay (d : DateTime) : Nat := d.hour * 3600 + d.minute * 60 + d.second

/-- The seconds up to the moment. -/
def instant (d : DateTime) : Nat := d.ordinal * 86400 + d.secondOfDay

end DateTime

/-! ## Days -/

/-- The days of a year. -/
def yearLength (y : Nat) : Nat := if IsLeap y then 366 else 365

theorem daysBeforeYear_succ {y : Nat} (hy : 1 ≤ y) : daysBeforeYear (y + 1) = daysBeforeYear y + yearLength y := by
  obtain ⟨k, rfl⟩ : ∃ k, y = k + 1 := ⟨y - 1, by omega⟩
  have hk : k / 100 ≤ k / 4 := by omega
  have hk' : (k + 1) / 100 ≤ (k + 1) / 4 := by omega
  unfold daysBeforeYear yearLength
  simp only [Nat.add_sub_cancel]
  by_cases hleap : IsLeap (k + 1)
  · rw [if_pos hleap]
    unfold IsLeap at hleap
    have h4 : (k + 1) / 4 = k / 4 + 1 := by omega
    have h400 : (k + 1) / 100 = k / 100 ∧ (k + 1) / 400 = k / 400 ∨
        (k + 1) / 100 = k / 100 + 1 ∧ (k + 1) / 400 = k / 400 + 1 := by omega
    omega
  · rw [if_neg hleap]
    unfold IsLeap at hleap
    have h400 : (k + 1) / 400 = k / 400 := by omega
    have h100 : (k + 1) / 4 = k / 4 ∧ (k + 1) / 100 = k / 100 ∨
        (k + 1) / 100 = k / 100 + 1 ∧ (k + 1) / 4 = k / 4 + 1 := by omega
    omega

theorem daysBeforeYear_mono {y z : Nat} (hy : 1 ≤ y) (h : y ≤ z) : daysBeforeYear y ≤ daysBeforeYear z := by
  induction z, h using Nat.le_induction with
  | base => exact le_rfl
  | succ z hz ih =>
    rw [daysBeforeYear_succ (by omega)]
    omega

theorem daysBeforeMonth_succ {y m : Nat} (hm : 1 ≤ m) :
    daysBeforeMonth y (m + 1) = daysBeforeMonth y m + daysInMonth y m := by
  obtain ⟨m, rfl⟩ : ∃ k, m = k + 1 := ⟨m - 1, by omega⟩
  rfl

theorem daysBeforeMonth_mono {y m k : Nat} (hm : 1 ≤ m) (h : m ≤ k) : daysBeforeMonth y m ≤ daysBeforeMonth y k := by
  induction k, h using Nat.le_induction with
  | base => exact le_rfl
  | succ k hk ih =>
    rw [daysBeforeMonth_succ (by omega)]
    omega

theorem daysBeforeMonth_thirteen (y : Nat) : daysBeforeMonth y 13 = yearLength y := by
  by_cases hleap : IsLeap y <;> simp [daysBeforeMonth, daysInMonth, yearLength, hleap]

theorem daysBeforeMonth_add_le {y m k day : Nat} (hm : 1 ≤ m) (hday : day ≤ daysInMonth y m) (h : m < k) :
    daysBeforeMonth y m + day ≤ daysBeforeMonth y k := by
  have hsucc := daysBeforeMonth_succ (y := y) hm
  have hmono := daysBeforeMonth_mono (y := y) (by omega : 1 ≤ m + 1) h
  omega

theorem daysBeforeYear_add_le {y z m day : Nat} (hy : 1 ≤ y) (hm : 1 ≤ m ∧ m ≤ 12) (hday : day ≤ daysInMonth y m)
    (h : y < z) : daysBeforeYear y + daysBeforeMonth y m + day ≤ daysBeforeYear z := by
  have hmonth := daysBeforeMonth_add_le (k := 13) hm.1 hday (by omega)
  have hsucc := daysBeforeYear_succ hy
  have hmono := daysBeforeYear_mono (by omega : 1 ≤ y + 1) h
  rw [daysBeforeMonth_thirteen] at hmonth
  omega

namespace DateTime

variable {d e : DateTime}

theorem secondOfDay_lt (d : DateTime) : d.secondOfDay < 86400 := by
  obtain ⟨-, -, -, hh, hm, hs⟩ := d.valid
  unfold secondOfDay
  omega

/-- The order of the days is the lexicographic order of the dates. -/
theorem ordinal_lt (h : d.year < e.year ∨ d.year = e.year ∧ (d.month < e.month ∨ d.month = e.month ∧ d.day < e.day)) :
    d.ordinal < e.ordinal := by
  obtain ⟨hy, hm, hday, -⟩ := d.valid
  obtain ⟨-, -, hday', -⟩ := e.valid
  unfold ordinal
  rcases h with h | ⟨heq, h | ⟨heq', h⟩⟩
  · have := daysBeforeYear_add_le hy.1 hm hday.2 h
    omega
  · have := daysBeforeMonth_add_le hm.1 hday.2 h
    rw [← heq]
    omega
  · rw [heq, heq']
    omega

theorem instant_lt_of_fields (h : d.fields < e.fields) : d.instant < e.instant := by
  have hd := d.secondOfDay_lt
  have he := e.secondOfDay_lt
  obtain ⟨-, -, -, -, hm, hs⟩ := d.valid
  obtain ⟨-, -, -, -, hm', hs'⟩ := e.valid
  simp only [fields, List.cons_lt_cons_iff, List.not_lt_nil, and_false, or_false] at h
  have hsplit : d.ordinal < e.ordinal ∨ d.ordinal = e.ordinal ∧ d.secondOfDay < e.secondOfDay := by
    rcases h with h | ⟨hy, h | ⟨hmo, h | ⟨hday, h⟩⟩⟩
    · exact Or.inl (ordinal_lt (Or.inl h))
    · exact Or.inl (ordinal_lt (Or.inr ⟨hy, Or.inl h⟩))
    · exact Or.inl (ordinal_lt (Or.inr ⟨hy, Or.inr ⟨hmo, h⟩⟩))
    · refine Or.inr ⟨by rw [ordinal, ordinal, hy, hmo, hday], ?_⟩
      unfold secondOfDay
      rcases h with h | ⟨hh, h | ⟨hmi, h⟩⟩ <;> omega
  unfold instant
  rcases hsplit with h | ⟨heq, h⟩ <;> omega

theorem eq_of_fields (h : d.fields = e.fields) : d = e := by
  simp only [fields, List.cons.injEq, and_true] at h
  exact DateTime.ext h.1 h.2.1 h.2.2.1 h.2.2.2.1 h.2.2.2.2.1 h.2.2.2.2.2

theorem instant_lt_iff : d.instant < e.instant ↔ d.fields < e.fields := by
  refine ⟨fun h => ?_, instant_lt_of_fields⟩
  rcases lt_trichotomy d.fields e.fields with hlt | heq | hgt
  · exact hlt
  · rw [eq_of_fields heq] at h
    exact absurd h (lt_irrefl _)
  · exact absurd (instant_lt_of_fields hgt) (lt_asymm h)

theorem instant_div (d : DateTime) : d.instant / 86400 = d.ordinal := by
  have hd := d.secondOfDay_lt
  unfold instant
  omega

theorem instant_mod (d : DateTime) : d.instant % 86400 = d.secondOfDay := by
  have hd := d.secondOfDay_lt
  unfold instant
  omega

end DateTime

/-! ## The moment of an instant -/

/-- The last year that begins before a day. -/
def yearOf (n : Nat) : Nat := Nat.findGreatest (fun y => 1 ≤ y ∧ daysBeforeYear y < n) 9999

/-- The last month of a year that begins before a day of it. -/
def monthOf (y r : Nat) : Nat := Nat.findGreatest (fun m => 1 ≤ m ∧ daysBeforeMonth y m < r) 12

/-- The moment of an instant; `none` beyond the years 1 to 9999. -/
def DateTime.ofInstant (t : Nat) : Option DateTime :=
  let n := t / 86400
  let year := yearOf n
  let month := monthOf year (n - daysBeforeYear year)
  let day := n - daysBeforeYear year - daysBeforeMonth year month
  let s := t % 86400
  if h : Valid year month day (s / 3600) (s / 60 % 60) (s % 60) then
    some ⟨year, month, day, s / 3600, s / 60 % 60, s % 60, h⟩
  else none

namespace DateTime

variable {d : DateTime}

theorem yearOf_ordinal (d : DateTime) : yearOf d.ordinal = d.year := by
  obtain ⟨hy, hm, hday, -⟩ := d.valid
  rw [yearOf, Nat.findGreatest_eq_iff]
  refine ⟨hy.2, fun _ => ⟨hy.1, by unfold ordinal; omega⟩, fun y hlt _ hbefore => ?_⟩
  have hle := daysBeforeYear_add_le hy.1 hm hday.2 hlt
  unfold ordinal at hbefore
  omega

theorem monthOf_ordinal (d : DateTime) : monthOf d.year (d.ordinal - daysBeforeYear d.year) = d.month := by
  obtain ⟨-, hm, hday, -⟩ := d.valid
  rw [monthOf, Nat.findGreatest_eq_iff]
  refine ⟨hm.2, fun _ => ⟨hm.1, by unfold ordinal; omega⟩, fun m hlt _ hbefore => ?_⟩
  have hle := daysBeforeMonth_add_le hm.1 hday.2 hlt
  unfold ordinal at hbefore
  omega

/-- A moment is the moment of its instant. -/
theorem ofInstant_instant (d : DateTime) : ofInstant d.instant = some d := by
  obtain ⟨-, -, hday, hh, hmi, hs⟩ := d.valid
  have hhour : d.secondOfDay / 3600 = d.hour := by unfold secondOfDay; omega
  have hminute : d.secondOfDay / 60 % 60 = d.minute := by unfold secondOfDay; omega
  have hsecond : d.secondOfDay % 60 = d.second := by unfold secondOfDay; omega
  have hordinal : d.ordinal - daysBeforeYear d.year - daysBeforeMonth d.year d.month = d.day := by
    unfold ordinal
    omega
  unfold ofInstant
  simp only [instant_div, instant_mod, yearOf_ordinal, monthOf_ordinal, hhour, hminute, hsecond, hordinal]
  rw [dif_pos d.valid]

/-- A moment belongs to one instant. -/
theorem ofInstant_eq_some_iff {t : Nat} : ofInstant t = some d ↔ d.instant = t := by
  constructor
  · intro h
    unfold ofInstant at h
    dsimp only at h
    split_ifs at h with hvalid
    obtain rfl := Option.some.inj h
    obtain ⟨-, -, hday, -⟩ := hvalid
    unfold instant ordinal secondOfDay
    dsimp only
    omega
  · rintro rfl
    exact ofInstant_instant d

end DateTime

theorem yearOf_spec {n : Nat} (hn : 1 ≤ n) (hlast : n ≤ daysBeforeYear 10000) :
    (1 ≤ yearOf n ∧ yearOf n ≤ 9999) ∧ daysBeforeYear (yearOf n) < n ∧ n ≤ daysBeforeYear (yearOf n + 1) := by
  have hzero : daysBeforeYear 1 < n := by rw [show daysBeforeYear 1 = 0 by rfl]; omega
  have hfirst : 1 ≤ yearOf n := Nat.le_findGreatest (by decide) ⟨le_rfl, hzero⟩
  have hspec := Nat.findGreatest_spec (P := fun y => 1 ≤ y ∧ daysBeforeYear y < n) (n := 9999) (m := 1) (by decide)
    ⟨le_rfl, hzero⟩
  have hle : yearOf n ≤ 9999 := Nat.findGreatest_le _
  refine ⟨⟨hfirst, hle⟩, hspec.2, ?_⟩
  by_contra hlt
  rcases hle.lt_or_eq with hlt' | heq
  · have hnext : yearOf n + 1 ≤ yearOf n := Nat.le_findGreatest (by omega) ⟨by omega, by omega⟩
    omega
  · rw [heq] at hlt
    exact hlt hlast

theorem monthOf_spec {y r : Nat} (hr : 1 ≤ r) (hlast : r ≤ yearLength y) :
    (1 ≤ monthOf y r ∧ monthOf y r ≤ 12) ∧ daysBeforeMonth y (monthOf y r) < r ∧
      r ≤ daysBeforeMonth y (monthOf y r + 1) := by
  have hzero : daysBeforeMonth y 1 < r := hr
  have hfirst : 1 ≤ monthOf y r := Nat.le_findGreatest (by decide) ⟨le_rfl, hzero⟩
  have hspec := Nat.findGreatest_spec (P := fun m => 1 ≤ m ∧ daysBeforeMonth y m < r) (n := 12) (m := 1) (by decide)
    ⟨le_rfl, hzero⟩
  have hle : monthOf y r ≤ 12 := Nat.findGreatest_le _
  refine ⟨⟨hfirst, hle⟩, hspec.2, ?_⟩
  by_contra hlt
  rcases hle.lt_or_eq with hlt' | heq
  · have hnext : monthOf y r + 1 ≤ monthOf y r := Nat.le_findGreatest (by omega) ⟨by omega, by omega⟩
    omega
  · rw [heq, daysBeforeMonth_thirteen] at hlt
    exact hlt hlast

/-- The days of the calendar: `none` is before or after them. -/
theorem isSome_ofInstant_iff {t : Nat} :
    (DateTime.ofInstant t).isSome = true ↔ 86400 ≤ t ∧ t < (daysBeforeYear 10000 + 1) * 86400 := by
  constructor
  · intro h
    obtain ⟨d, hd⟩ := Option.isSome_iff_exists.mp h
    rw [DateTime.ofInstant_eq_some_iff] at hd
    subst hd
    obtain ⟨hy, hm, hday, -⟩ := d.valid
    have hle := daysBeforeYear_add_le (z := 10000) hy.1 hm hday.2 (by omega)
    have hs := d.secondOfDay_lt
    unfold DateTime.instant DateTime.ordinal
    omega
  · rintro ⟨hfirst, hlast⟩
    have hn : 1 ≤ t / 86400 := by omega
    obtain ⟨hy, hbefore, hnext⟩ := yearOf_spec hn (by omega)
    rw [daysBeforeYear_succ hy.1] at hnext
    obtain ⟨hm, hbefore', hnext'⟩ := monthOf_spec (y := yearOf (t / 86400))
      (r := t / 86400 - daysBeforeYear (yearOf (t / 86400))) (by omega) (by omega)
    rw [daysBeforeMonth_succ hm.1] at hnext'
    unfold DateTime.ofInstant
    dsimp only
    rw [dif_pos ⟨hy, hm, ⟨by omega, by omega⟩, by omega, by omega, by omega⟩]
    rfl

end Calendar
