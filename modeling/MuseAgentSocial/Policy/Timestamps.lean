import MuseAgentSocial.Lib.Calendar
import MuseAgentSocial.Lib.Json

/-!
# Timestamps

A model of `parse_canonical_utc` of `policy/limits.py` and of `parse_timestamp` of
`model/cards.py`, with `re` and `strptime` as CPython has them, and of the comparison of
timestamps as strings.

* `decimal` is the value of a decimal digit of any script: both `\d` and `int()` take it.
* `parseUtc` is the body that both validators share: the regular expression, whose `$`
  also matches before a final newline, and then `strptime`.
* `formatUtc` is `strftime`, which pads the year to four digits or does not, as the
  platform's C library has it.
* `render` is the canonical text of a moment.
* `timestamps_ordered_iff` says when string order is time order.
-/

namespace MuseAgentSocial.Policy

open Json Calendar

/-! ## Digits -/

/-- The zeros of the scripts with decimal digits, in Unicode 15.0.  The other digits of
each follow its zero. -/
def decimalZeros : List Nat :=
  [0x30, 0x660, 0x6F0, 0x7C0, 0x966, 0x9E6, 0xA66, 0xAE6, 0xB66, 0xBE6, 0xC66, 0xCE6, 0xD66, 0xDE6, 0xE50, 0xED0,
    0xF20, 0x1040, 0x1090, 0x17E0, 0x1810, 0x1946, 0x19D0, 0x1A80, 0x1A90, 0x1B50, 0x1BB0, 0x1C40, 0x1C50, 0xA620,
    0xA8D0, 0xA900, 0xA9D0, 0xA9F0, 0xAA50, 0xABF0, 0xFF10, 0x104A0, 0x10D30, 0x11066, 0x110F0, 0x11136, 0x111D0,
    0x112F0, 0x11450, 0x114D0, 0x11650, 0x116C0, 0x11730, 0x118E0, 0x11950, 0x11C50, 0x11D50, 0x11DA0, 0x11F50,
    0x16A60, 0x16AC0, 0x16B50, 0x1D7CE, 0x1D7D8, 0x1D7E2, 0x1D7EC, 0x1D7F6, 0x1E140, 0x1E2F0, 0x1E4F0, 0x1E950,
    0x1FBF0]

/-- The value of a decimal digit, as `\d` and `int()` know it. -/
def decimal (c : CodePoint) : Option Nat :=
  (decimalZeros.find? (fun z => decide (z ≤ c.ord ∧ c.ord < z + 10))).map (fun z => c.ord - z)

/-- The value of an ASCII digit: what a range such as `[0-9]` matches. -/
def asciiDigit (c : CodePoint) : Option Nat :=
  if 0x30 ≤ c.ord ∧ c.ord < 0x3A then some (c.ord - 0x30) else none

/-- The ASCII digit of a value. -/
def digit (k : Nat) : CodePoint := .scalar (Char.ofNat (0x30 + k))

/-! ## The validators -/

/-- One character of `\d{4}-\d{2}-\d{2}T\d{2}:\d{2}:\d{2}Z`. -/
inductive Slot where
  | digit
  | literal (c : Char)

/-- The slots of the regular expression. -/
def canonicalSlots : List Slot :=
  [.digit, .digit, .digit, .digit, .literal '-', .digit, .digit, .literal '-', .digit, .digit, .literal 'T',
    .digit, .digit, .literal ':', .digit, .digit, .literal ':', .digit, .digit, .literal 'Z']

def Slot.accepts : Slot → CodePoint → Bool
  | .digit, c => (decimal c).isSome
  | .literal l, c => c == .scalar l

/-- The text fills the slots. -/
def fills : List Slot → Text → Bool
  | [], [] => true
  | s :: slots, c :: text => s.accepts c && fills slots text
  | _, _ => false

/-- `_CANONICAL_UTC_RE.match(text)`: `$` matches at the end and before a final newline. -/
def matchesRe (text : Text) : Bool :=
  fills canonicalSlots text || (text.getLast? == some (.scalar '\n') && fills canonicalSlots text.dropLast)

/-- `%Y`: `\d\d\d\d` -/
def scanYear (a b c d : CodePoint) : Option Nat :=
  match decimal a, decimal b, decimal c, decimal d with
  | some a, some b, some c, some d => some (a * 1000 + b * 100 + c * 10 + d)
  | _, _, _, _ => none

/-- A two-digit field: `any` says from which first digits on the second may be of any
script, and `few` bounds it after each other first digit. -/
def scanPair (any : Nat → Bool) (few : Nat → Nat → Bool) (a b : CodePoint) : Option Nat :=
  match asciiDigit a with
  | none => none
  | some x =>
    if any x then (decimal b).map (fun y => x * 10 + y)
    else
      match asciiDigit b with
      | none => none
      | some y => if few x y then some (x * 10 + y) else none

/-- `%m`: `1[0-2]|0[1-9]` -/
def scanMonth : CodePoint → CodePoint → Option Nat :=
  scanPair (fun _ => false) (fun x y => (x == 1 && decide (y ≤ 2)) || (x == 0 && decide (1 ≤ y)))

/-- `%d`: `3[0-1]|[1-2]\d|0[1-9]` -/
def scanDay : CodePoint → CodePoint → Option Nat :=
  scanPair (fun x => x == 1 || x == 2) (fun x y => (x == 3 && decide (y ≤ 1)) || (x == 0 && decide (1 ≤ y)))

/-- `%H`: `2[0-3]|[0-1]\d` -/
def scanHour : CodePoint → CodePoint → Option Nat :=
  scanPair (fun x => decide (x ≤ 1)) (fun x y => x == 2 && decide (y ≤ 3))

/-- `%M`: `[0-5]\d` -/
def scanMinute : CodePoint → CodePoint → Option Nat := scanPair (fun x => decide (x ≤ 5)) (fun _ _ => false)

/-- `%S`: `6[0-1]|[0-5]\d` -/
def scanSecond : CodePoint → CodePoint → Option Nat :=
  scanPair (fun x => decide (x ≤ 5)) (fun x y => x == 6 && decide (y ≤ 1))

/-- The `datetime` of six fields; `none` is its `ValueError`. -/
def mkDateTime (year month day hour minute second : Nat) : Option DateTime :=
  if h : Valid year month day hour minute second then some ⟨year, month, day, hour, minute, second, h⟩ else none

/-- `datetime.strptime(text, "%Y-%m-%dT%H:%M:%SZ")` on a text that the regular expression
matches.  Each field has its full width there, so the one-digit alternatives of `%m`,
`%d`, `%H`, `%M` and `%S` never match.  A final newline is data that remains. -/
def strptime (text : Text) : Option DateTime :=
  match text with
  | [y₁, y₂, y₃, y₄, _, m₁, m₂, _, d₁, d₂, _, h₁, h₂, _, n₁, n₂, _, s₁, s₂, _] => do
    let year ← scanYear y₁ y₂ y₃ y₄
    let month ← scanMonth m₁ m₂
    let day ← scanDay d₁ d₂
    let hour ← scanHour h₁ h₂
    let minute ← scanMinute n₁ n₂
    let second ← scanSecond s₁ s₂
    mkDateTime year month day hour minute second
  | _ => none

/-- The body of both validators; `none` is `ValueError`. -/
def parseUtc (text : Text) : Option DateTime := if matchesRe text then strptime text else none

/-- `parse_canonical_utc` -/
def parseCanonicalUtc : Text → Option DateTime := parseUtc

/-- `parse_timestamp` -/
def parseTimestamp : Text → Option DateTime := parseUtc

/-! ## Formatting -/

/-- `%m`, `%d`, `%H`, `%M` and `%S` of `strftime`. -/
def twoDigits (n : Nat) : Text := [digit (n / 10), digit (n % 10)]

def fourDigits (n : Nat) : Text := [digit (n / 1000), digit (n / 100 % 10), digit (n / 10 % 10), digit (n % 10)]

/-- `%Y` of `strftime`. -/
def yearText (pads : Bool) (n : Nat) : Text :=
  if pads then fourDigits n else (Nat.toDigits 10 n).map .scalar

/-- The text of a moment with a given text of the year. -/
def momentText (year : Text) (d : DateTime) : Text :=
  year ++ .scalar '-' :: (twoDigits d.month ++ .scalar '-' :: (twoDigits d.day ++ .scalar 'T' ::
    (twoDigits d.hour ++ .scalar ':' :: (twoDigits d.minute ++ .scalar ':' :: (twoDigits d.second ++ [.scalar 'Z'])))))

/-- `format_canonical_utc`, and `format_timestamp`. -/
def formatUtc (pads : Bool) (d : DateTime) : Text := momentText (yearText pads d.year) d

/-- The canonical text of a moment. -/
def render (d : DateTime) : Text := momentText (fourDigits d.year) d

/-- `s < t` on strings. -/
def strLt (s t : Text) : Prop := s.map CodePoint.ord < t.map CodePoint.ord

instance (s t : Text) : Decidable (strLt s t) := inferInstanceAs (Decidable (_ < _))

/-- `text.isascii()` -/
def IsAscii (text : Text) : Prop := ∀ c ∈ text, c.ord < 0x80

/-! ## Digits and their texts -/

variable {k n : Nat} {c : CodePoint}

theorem ord_digit (hk : k < 10) : (digit k).ord = 0x30 + k := by
  have hall : ∀ k < 10, (digit k).ord = 0x30 + k := by decide
  exact hall k hk

theorem decimal_digit (hk : k < 10) : decimal (digit k) = some k := by
  have hall : ∀ k < 10, decimal (digit k) = some k := by decide
  exact hall k hk

theorem asciiDigit_digit (hk : k < 10) : asciiDigit (digit k) = some k := by
  have hall : ∀ k < 10, asciiDigit (digit k) = some k := by decide
  exact hall k hk

theorem eq_digit_of_ord (hk : k < 10) (h : c.ord = 0x30 + k) : c = digit k :=
  CodePoint.ord_injective (by rw [h, ord_digit hk])

theorem eq_digit_of_asciiDigit (h : asciiDigit c = some k) : k < 10 ∧ c = digit k := by
  unfold asciiDigit at h
  split_ifs at h with hrange
  obtain rfl := Option.some.inj h
  exact ⟨by omega, eq_digit_of_ord (by omega) (by omega)⟩

/-- The only ASCII digits of any script are those of ASCII. -/
theorem eq_digit_of_decimal (h : decimal c = some k) (hc : c.ord < 0x80) :
    k < 10 ∧ c = digit k := by
  obtain ⟨z, hz, rfl⟩ := Option.map_eq_some_iff.mp h
  have hmem := List.mem_of_find?_eq_some hz
  have hrange := List.find?_some hz
  simp only [decide_eq_true_eq] at hrange
  have hall : ∀ z ∈ decimalZeros, z < 0x80 → z = 0x30 := by decide
  have hzero := hall z hmem (by omega)
  exact ⟨by omega, eq_digit_of_ord (by omega) (by omega)⟩

/-- An ASCII field of two digits is the text of its number. -/
theorem twoDigits_of_scanPair {any : Nat → Bool} {few : Nat → Nat → Bool} {a b : CodePoint}
    (h : scanPair any few a b = some n) (hb : b.ord < 0x80) : [a, b] = twoDigits n := by
  have hpair : ∃ x y, asciiDigit a = some x ∧ n = x * 10 + y ∧ y < 10 ∧ b = digit y := by
    unfold scanPair at h
    cases hx : asciiDigit a with
    | none => simp [hx] at h
    | some x =>
      simp only [hx] at h
      split_ifs at h with hany
      · obtain ⟨y, hy, rfl⟩ := Option.map_eq_some_iff.mp h
        obtain ⟨hlt, rfl⟩ := eq_digit_of_decimal hy hb
        exact ⟨x, y, rfl, rfl, hlt, rfl⟩
      · cases hy : asciiDigit b with
        | none => simp [hy] at h
        | some y =>
          simp only [hy] at h
          split_ifs at h
          obtain rfl := Option.some.inj h
          obtain ⟨hlt, rfl⟩ := eq_digit_of_asciiDigit hy
          exact ⟨x, y, rfl, rfl, hlt, rfl⟩
  obtain ⟨x, y, hx, rfl, hy, rfl⟩ := hpair
  obtain ⟨-, rfl⟩ := eq_digit_of_asciiDigit hx
  rw [twoDigits, show (x * 10 + y) / 10 = x by omega, show (x * 10 + y) % 10 = y by omega]

/-- The text of a number of two digits is read back when the expression admits it. -/
theorem scanPair_twoDigits {any : Nat → Bool} {few : Nat → Nat → Bool} (hn : n < 100)
    (h : any (n / 10) = true ∨ few (n / 10) (n % 10) = true) :
    scanPair any few (digit (n / 10)) (digit (n % 10)) = some n := by
  have hsum : n / 10 * 10 + n % 10 = n := by omega
  unfold scanPair
  rw [asciiDigit_digit (by omega), decimal_digit (by omega), asciiDigit_digit (by omega)]
  simp only [Option.map_some, hsum]
  by_cases hany : any (n / 10) = true
  · rw [if_pos hany]
  · rw [if_neg hany, if_pos (h.resolve_left hany)]

theorem fourDigits_of_scanYear {a b d : CodePoint} (h : scanYear a b c d = some n)
    (ha : a.ord < 0x80) (hb : b.ord < 0x80) (hc : c.ord < 0x80)
    (hd : d.ord < 0x80) : [a, b, c, d] = fourDigits n := by
  unfold scanYear at h
  cases hw : decimal a with
  | none => simp [hw] at h
  | some w =>
    cases hx : decimal b with
    | none => simp [hw, hx] at h
    | some x =>
      cases hy : decimal c with
      | none => simp [hw, hx, hy] at h
      | some y =>
        cases hz : decimal d with
        | none => simp [hw, hx, hy, hz] at h
        | some z =>
          simp only [hw, hx, hy, hz, Option.some.injEq] at h
          obtain ⟨hw', rfl⟩ := eq_digit_of_decimal hw ha
          obtain ⟨hx', rfl⟩ := eq_digit_of_decimal hx hb
          obtain ⟨hy', rfl⟩ := eq_digit_of_decimal hy hc
          obtain ⟨hz', rfl⟩ := eq_digit_of_decimal hz hd
          rw [fourDigits, show n / 1000 = w by omega, show n / 100 % 10 = x by omega, show n / 10 % 10 = y by omega,
            show n % 10 = z by omega]

theorem scanYear_fourDigits (hn : n < 10000) :
    scanYear (digit (n / 1000)) (digit (n / 100 % 10)) (digit (n / 10 % 10)) (digit (n % 10)) = some n := by
  unfold scanYear
  rw [decimal_digit (by omega), decimal_digit (by omega), decimal_digit (by omega), decimal_digit (by omega)]
  simp only [Option.some.injEq]
  omega

/-! ## The canonical text -/

/-- Each field of a moment has its expression. -/
theorem strptime_render (d : DateTime) : strptime (render d) = some d := by
  obtain ⟨hy, hm, hday, hh, hmi, hs⟩ := d.valid
  have hlong : daysInMonth d.year d.month ≤ 31 := by
    unfold daysInMonth
    split_ifs <;> omega
  have hmonth : scanMonth (digit (d.month / 10)) (digit (d.month % 10)) = some d.month :=
    scanPair_twoDigits (by omega) (by simp; omega)
  have hdays : scanDay (digit (d.day / 10)) (digit (d.day % 10)) = some d.day :=
    scanPair_twoDigits (by omega) (by simp; omega)
  have hhour : scanHour (digit (d.hour / 10)) (digit (d.hour % 10)) = some d.hour :=
    scanPair_twoDigits (by omega) (by simp; omega)
  have hminute : scanMinute (digit (d.minute / 10)) (digit (d.minute % 10)) = some d.minute :=
    scanPair_twoDigits (by omega) (by simp; omega)
  have hsecond : scanSecond (digit (d.second / 10)) (digit (d.second % 10)) = some d.second :=
    scanPair_twoDigits (by omega) (by simp; omega)
  show (scanYear _ _ _ _ >>= fun year => scanMonth _ _ >>= fun month => scanDay _ _ >>= fun day =>
    scanHour _ _ >>= fun hour => scanMinute _ _ >>= fun minute => scanSecond _ _ >>= fun second =>
    mkDateTime year month day hour minute second) = _
  rw [scanYear_fourDigits (by omega), hmonth, hdays, hhour, hminute, hsecond]
  exact dif_pos d.valid

theorem fills_render (d : DateTime) : fills canonicalSlots (render d) = true := by
  obtain ⟨hy, hm, hday, hh, hmi, hs⟩ := d.valid
  have hlong : daysInMonth d.year d.month ≤ 31 := by
    unfold daysInMonth
    split_ifs <;> omega
  have hdigit : ∀ k < 10, Slot.digit.accepts (digit k) = true := by decide
  simp only [canonicalSlots, render, momentText, fourDigits, twoDigits, List.cons_append, List.nil_append, fills,
    Slot.accepts, beq_self_eq_true, Bool.true_and, Bool.and_true, Bool.and_eq_true]
  refine ⟨?_, ?_, ?_, ?_, ?_, ?_, ?_, ?_, ?_, ?_, ?_, ?_, ?_, ?_⟩ <;> exact hdigit _ (by omega)

/-- The canonical text is accepted, for its moment. -/
theorem parseUtc_render (d : DateTime) : parseUtc (render d) = some d := by
  unfold parseUtc matchesRe
  rw [fills_render, Bool.true_or, if_pos rfl, strptime_render]

theorem length_of_fills {slots : List Slot} {text : Text} (h : fills slots text = true) :
    text.length = slots.length := by
  induction slots generalizing text with
  | nil => cases text with
    | nil => rfl
    | cons c text => simp [fills] at h
  | cons s slots ih =>
    cases text with
    | nil => simp [fills] at h
    | cons c text =>
      simp only [fills, Bool.and_eq_true] at h
      rw [List.length_cons, List.length_cons, ih h.2]

/-- A text that both expressions accept has no final newline. -/
theorem fills_of_parseUtc {text : Text} {d : DateTime} (h : parseUtc text = some d) :
    fills canonicalSlots text = true ∧ strptime text = some d := by
  unfold parseUtc at h
  split_ifs at h with hre
  refine ⟨?_, h⟩
  simp only [matchesRe, Bool.or_eq_true, Bool.and_eq_true] at hre
  rcases hre with hre | ⟨-, hre⟩
  · exact hre
  · have hlength := length_of_fills hre
    rw [List.length_dropLast] at hlength
    unfold strptime at h
    split at h
    · simp [canonicalSlots] at hlength
    · simp at h

theorem render_of_parseUtc {text : Text} {d : DateTime} (h : parseUtc text = some d) (hascii : IsAscii text) :
    text = render d := by
  obtain ⟨hfills, hscan⟩ := fills_of_parseUtc h
  unfold strptime at hscan
  split at hscan
  · rename_i y₁ y₂ y₃ y₄ l₁ m₁ m₂ l₂ d₁ d₂ l₃ h₁ h₂ l₄ n₁ n₂ l₅ s₁ s₂ l₆
    have hyear : y₁.ord < 0x80 ∧ y₂.ord < 0x80 ∧ y₃.ord < 0x80 ∧ y₄.ord < 0x80 :=
      ⟨hascii _ (by simp), hascii _ (by simp), hascii _ (by simp), hascii _ (by simp)⟩
    simp only [Option.bind_eq_bind, Option.bind_eq_some_iff] at hscan
    obtain ⟨year, hy, month, hm, day, hd, hour, hh, minute, hn, second, hs, hmk⟩ := hscan
    have hy' := fourDigits_of_scanYear hy hyear.1 hyear.2.1 hyear.2.2.1 hyear.2.2.2
    have hm' := twoDigits_of_scanPair hm (hascii m₂ (by simp))
    have hd' := twoDigits_of_scanPair hd (hascii d₂ (by simp))
    have hh' := twoDigits_of_scanPair hh (hascii h₂ (by simp))
    have hn' := twoDigits_of_scanPair hn (hascii n₂ (by simp))
    have hs' := twoDigits_of_scanPair hs (hascii s₂ (by simp))
    unfold mkDateTime at hmk
    split_ifs at hmk
    obtain rfl := Option.some.inj hmk
    simp only [canonicalSlots, fills, Slot.accepts, Bool.and_eq_true, beq_iff_eq] at hfills
    obtain ⟨-, -, -, -, rfl, -, -, rfl, -, -, rfl, -, -, rfl, -, -, rfl, -, -, rfl, -⟩ := hfills
    unfold render momentText
    dsimp only
    rw [← hy', ← hm', ← hd', ← hh', ← hn', ← hs']
    rfl
  · simp at hscan

/-! ## The order of the texts -/

theorem ord_twoDigits (hn : n < 100) :
    (twoDigits n).map CodePoint.ord = [0x30 + n / 10, 0x30 + n % 10] := by
  rw [twoDigits, List.map_cons, List.map_cons, List.map_nil, ord_digit (by omega), ord_digit (by omega)]

theorem ord_fourDigits (hn : n < 10000) :
    (fourDigits n).map CodePoint.ord =
      [0x30 + n / 1000, 0x30 + n / 100 % 10, 0x30 + n / 10 % 10, 0x30 + n % 10] := by
  simp only [fourDigits, List.map_cons, List.map_nil]
  rw [ord_digit (by omega), ord_digit (by omega), ord_digit (by omega), ord_digit (by omega)]

/-- Numbers of two digits are ordered as their texts, whatever follows. -/
theorem twoDigits_append_lt_iff {m : Nat} (hn : n < 100) (hm : m < 100) (b b' : List Nat) :
    (twoDigits n).map CodePoint.ord ++ b < (twoDigits m).map CodePoint.ord ++ b' ↔ n < m ∨ n = m ∧ b < b' := by
  rw [ord_twoDigits hn, ord_twoDigits hm]
  simp only [List.cons_append, List.nil_append, List.cons_lt_cons_iff]
  by_cases hb : b < b'
  · simp only [hb, and_true]
    omega
  · simp only [hb, and_false, or_false]
    omega

theorem fourDigits_append_lt_iff {m : Nat} (hn : n < 10000) (hm : m < 10000) (b b' : List Nat) :
    (fourDigits n).map CodePoint.ord ++ b < (fourDigits m).map CodePoint.ord ++ b' ↔ n < m ∨ n = m ∧ b < b' := by
  rw [ord_fourDigits hn, ord_fourDigits hm]
  simp only [List.cons_append, List.nil_append, List.cons_lt_cons_iff]
  by_cases hb : b < b'
  · simp only [hb, and_true]
    omega
  · simp only [hb, and_false, or_false]
    omega

/-- Canonical texts are ordered as their instants. -/
theorem render_lt_iff (d e : DateTime) : strLt (render d) (render e) ↔ d.instant < e.instant := by
  obtain ⟨hy, hm, hday, hh, hmi, hs⟩ := d.valid
  obtain ⟨hy', hm', hday', hh', hmi', hs'⟩ := e.valid
  have hlong : ∀ y m, daysInMonth y m ≤ 31 := by
    intro y m
    unfold daysInMonth
    split_ifs <;> omega
  have hd := hlong d.year d.month
  have he := hlong e.year e.month
  rw [DateTime.instant_lt_iff, strLt, render, render, momentText, momentText, DateTime.fields, DateTime.fields]
  simp only [List.map_append, List.map_cons]
  rw [fourDigits_append_lt_iff (by omega) (by omega), List.cons_lt_cons_iff,
    twoDigits_append_lt_iff (by omega) (by omega), List.cons_lt_cons_iff,
    twoDigits_append_lt_iff (by omega) (by omega), List.cons_lt_cons_iff,
    twoDigits_append_lt_iff (by omega) (by omega), List.cons_lt_cons_iff,
    twoDigits_append_lt_iff (by omega) (by omega), List.cons_lt_cons_iff,
    twoDigits_append_lt_iff (by omega) (by omega)]
  simp only [List.cons_lt_cons_iff, lt_irrefl, false_or, true_and, and_false, or_false]

/-! ## Formatting what was parsed -/

theorem toDigits_eq_fourDigits (hn : 1000 ≤ n) (hn' : n < 10000) :
    (Nat.toDigits 10 n).map CodePoint.scalar = fourDigits n := by
  have hchar : ∀ k < 10, CodePoint.scalar (Nat.digitChar k) = digit k := by decide
  rw [Nat.toDigits_of_base_le (by decide) (by omega), Nat.toDigits_of_base_le (by decide) (by omega),
    Nat.toDigits_of_base_le (by decide) (by omega), Nat.toDigits_of_lt_base (by omega), fourDigits]
  simp only [List.map_cons, List.map_nil, List.cons_append, List.nil_append]
  rw [hchar _ (by omega), hchar _ (by omega), hchar _ (by omega), hchar _ (by omega),
    show n / 10 / 10 / 10 = n / 1000 by omega, show n / 10 / 10 % 10 = n / 100 % 10 by omega]

theorem length_momentText (year : Text) (d : DateTime) : (momentText year d).length = year.length + 16 := by
  simp [momentText, twoDigits]

/-- A moment is formatted canonically where the year is padded, or needs no padding. -/
theorem formatUtc_eq_render_iff (pads : Bool) (d : DateTime) :
    formatUtc pads d = render d ↔ pads = true ∨ 1000 ≤ d.year := by
  obtain ⟨⟨-, hy⟩, -⟩ := d.valid
  constructor
  · intro h
    by_contra hno
    rw [not_or] at hno
    have hlength := congrArg List.length h
    rw [formatUtc, render, length_momentText, length_momentText, yearText, if_neg hno.1, List.length_map] at hlength
    have hshort := (Nat.length_toDigits_le_iff (b := 10) (n := d.year) (k := 3) (by decide) (by decide)).mpr (by omega)
    have hfour : (fourDigits d.year).length = 4 := rfl
    omega
  · intro h
    have hyear : yearText pads d.year = fourDigits d.year := by
      unfold yearText
      split_ifs with hpads
      · rfl
      · exact toDigits_eq_fourDigits (h.resolve_left hpads) (by omega)
    rw [formatUtc, render, hyear]

theorem isAscii_twoDigits (hn : n < 100) : IsAscii (twoDigits n) := by
  intro c hc
  simp only [twoDigits, List.mem_cons, List.not_mem_nil, or_false] at hc
  rcases hc with rfl | rfl
  · rw [ord_digit (by omega)]
    omega
  · rw [ord_digit (by omega)]
    omega

theorem isAscii_yearText (pads : Bool) (hn : n < 10000) : IsAscii (yearText pads n) := by
  intro c hc
  unfold yearText at hc
  split_ifs at hc
  · simp only [fourDigits, List.mem_cons, List.not_mem_nil, or_false] at hc
    rcases hc with rfl | rfl | rfl | rfl
    all_goals
      rw [ord_digit (by omega)]
      omega
  · obtain ⟨k, hk, rfl⟩ := List.mem_map.mp hc
    have hdigit : k.isDigit = true := Nat.isDigit_of_mem_toDigits (by decide) (by decide) hk
    simp only [Char.isDigit, Bool.and_eq_true, decide_eq_true_eq, ge_iff_le, UInt32.le_iff_toNat_le] at hdigit
    have hle : k.val.toNat ≤ 57 := hdigit.2
    show k.val.toNat < 128
    omega

theorem isAscii_formatUtc (pads : Bool) (d : DateTime) : IsAscii (formatUtc pads d) := by
  obtain ⟨hy, hm, hday, hh, hmi, hs⟩ := d.valid
  have hlong : daysInMonth d.year d.month ≤ 31 := by
    unfold daysInMonth
    split_ifs <;> omega
  have hliteral : ∀ l ∈ ['-', 'T', ':', 'Z'], (CodePoint.scalar l).ord < 0x80 := by
    intro l hl
    simp only [List.mem_cons, List.not_mem_nil, or_false] at hl
    rcases hl with rfl | rfl | rfl | rfl
    all_goals decide
  unfold formatUtc momentText IsAscii
  simp only [List.mem_append, List.mem_cons, List.not_mem_nil, or_false]
  rintro c (h | rfl | h | rfl | h | rfl | h | rfl | h | rfl | h | rfl)
  · exact isAscii_yearText pads (by omega) c h
  · exact hliteral '-' (by simp)
  · exact isAscii_twoDigits (by omega) c h
  · exact hliteral '-' (by simp)
  · exact isAscii_twoDigits (by omega) c h
  · exact hliteral 'T' (by simp)
  · exact isAscii_twoDigits (by omega) c h
  · exact hliteral ':' (by simp)
  · exact isAscii_twoDigits (by omega) c h
  · exact hliteral ':' (by simp)
  · exact isAscii_twoDigits (by omega) c h
  · exact hliteral 'Z' (by simp)

/-- The first character of a canonical text is a zero for the years before 1000. -/
theorem head_render (d : DateTime) : (render d).head? ≠ some (digit 0) ↔ 1000 ≤ d.year := by
  obtain ⟨⟨-, hy⟩, -⟩ := d.valid
  show some (digit (d.year / 1000)) ≠ some (digit 0) ↔ _
  rw [Ne, Option.some.injEq]
  constructor
  · intro hne
    by_contra hlt
    exact hne (by rw [show d.year / 1000 = 0 by omega])
  · intro hle heq
    have hord := congrArg CodePoint.ord heq
    rw [ord_digit (by omega), ord_digit (by decide)] at hord
    omega

/-- An accepted text that is formatted back is in ASCII, and its year is padded or needs
no padding; and the other way round. -/
theorem formatUtc_of_parseUtc_iff (pads : Bool) {text : Text} {d : DateTime} (h : parseUtc text = some d) :
    formatUtc pads d = text ↔ IsAscii text ∧ (pads = true ∨ text.head? ≠ some (digit 0)) := by
  constructor
  · rintro rfl
    have hascii := isAscii_formatUtc pads d
    have hrender := render_of_parseUtc h hascii
    refine ⟨hascii, ?_⟩
    rw [hrender, head_render]
    exact (formatUtc_eq_render_iff pads d).mp hrender
  · rintro ⟨hascii, hyear⟩
    obtain rfl := render_of_parseUtc h hascii
    rw [head_render] at hyear
    exact (formatUtc_eq_render_iff pads d).mpr hyear

/-- For texts that either validator accepts: string order is time order and formatting
gives the texts back, exactly when both are in ASCII and `strftime` pads the years that
need it. -/
theorem timestamps_ordered_iff (pads : Bool) {s t : Text} {d e : DateTime}
    (hs : parseCanonicalUtc s = some d ∨ parseTimestamp s = some d)
    (ht : parseCanonicalUtc t = some e ∨ parseTimestamp t = some e) :
    ((strLt s t ↔ d.instant < e.instant) ∧ formatUtc pads d = s ∧ formatUtc pads e = t) ↔
      (IsAscii s ∧ IsAscii t) ∧ (pads = true ∨ s.head? ≠ some (digit 0) ∧ t.head? ≠ some (digit 0)) := by
  have hs' : parseUtc s = some d := hs.elim id id
  have ht' : parseUtc t = some e := ht.elim id id
  rw [formatUtc_of_parseUtc_iff pads hs', formatUtc_of_parseUtc_iff pads ht']
  constructor
  · rintro ⟨-, ⟨hascii, hyear⟩, hascii', hyear'⟩
    exact ⟨⟨hascii, hascii'⟩, by tauto⟩
  · rintro ⟨⟨hascii, hascii'⟩, hyear⟩
    refine ⟨?_, ⟨hascii, by tauto⟩, hascii', by tauto⟩
    rw [render_of_parseUtc hs' hascii, render_of_parseUtc ht' hascii']
    exact render_lt_iff d e

/-- The text of characters. -/
def text (s : String) : Text := s.toList.map .scalar

/-- Two canonical texts of one day. -/
theorem timestamps_ordered_noon :
    ((strLt (text "2026-07-25T00:00:00Z") (text "2026-07-25T12:00:00Z") ↔
        (⟨2026, 7, 25, 0, 0, 0, by decide⟩ : DateTime).instant < (⟨2026, 7, 25, 12, 0, 0, by decide⟩ : DateTime).instant) ∧
      formatUtc false ⟨2026, 7, 25, 0, 0, 0, by decide⟩ = text "2026-07-25T00:00:00Z" ∧
      formatUtc false ⟨2026, 7, 25, 12, 0, 0, by decide⟩ = text "2026-07-25T12:00:00Z") ↔
    (IsAscii (text "2026-07-25T00:00:00Z") ∧ IsAscii (text "2026-07-25T12:00:00Z")) ∧
      (false = true ∨ (text "2026-07-25T00:00:00Z").head? ≠ some (digit 0) ∧
        (text "2026-07-25T12:00:00Z").head? ≠ some (digit 0)) :=
  timestamps_ordered_iff false (Or.inl (by decide)) (Or.inr (by decide))

/-- A year in Devanagari digits is accepted: it is formatted otherwise, and as a string it
is after a later instant. -/
theorem devanagari_year_out_of_order :
    ¬∀ (pads : Bool) (s t : Text) (d e : DateTime), parseCanonicalUtc s = some d → parseCanonicalUtc t = some e →
      (strLt s t ↔ d.instant < e.instant) ∧ formatUtc pads d = s ∧ formatUtc pads e = t := by
  intro h
  have hlt := (h true (text "२०२६-01-01T00:00:00Z") (text "2027-01-01T00:00:00Z") ⟨2026, 1, 1, 0, 0, 0, by decide⟩
    ⟨2027, 1, 1, 0, 0, 0, by decide⟩ (by decide) (by decide)).1
  revert hlt
  decide

end MuseAgentSocial.Policy
