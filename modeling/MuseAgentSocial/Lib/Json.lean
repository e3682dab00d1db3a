import Mathlib.Data.List.TakeWhile

/-!
# A decoder for JSON with hooks

The recursive descent of Python's `json.loads` over a decoded text, for the
grammar of RFC 8259 and the constants `NaN`, `Infinity` and `-Infinity`.  What
it builds is up to its `Hooks`, of which those for integers, objects and constants
may raise.

* `scanString`, `scanNumber` and `scanOnce` take one string, number or value from
  the front of the text and return what is left of it.
* `loads` reads a whole text.  Its nesting is bounded, and its fuel always suffices
  (`scan_takes`).
* The lemmas `scanString_*`, `scanNumber_int` and `scanOnce_*` say what is read back
  from each form of text.
-/

namespace Json

/-! ## Strings -/

/-- A code point of a decoded string.  An escape can name a surrogate. -/
inductive CodePoint where
  | scalar (c : Char)
  | surrogate (n : Fin 0x800)
  deriving DecidableEq, Repr

/-- A decoded string. -/
abbrev Text := List CodePoint

/-- The number of a code point. -/
def CodePoint.ord : CodePoint → Nat
  | .scalar c => c.toNat
  | .surrogate n => 0xD800 + n

/-- The code point of a number. -/
def CodePoint.ofNat (n : Nat) : CodePoint :=
  if h : 0xD800 ≤ n ∧ n < 0xE000 then .surrogate ⟨n - 0xD800, by omega⟩ else .scalar (Char.ofNat n)

/-- The value of a hexadecimal digit. -/
def hexDigit (c : Char) : Option Nat :=
  if '0' ≤ c ∧ c ≤ '9' then some (c.toNat - '0'.toNat)
  else if 'a' ≤ c ∧ c ≤ 'f' then some (c.toNat - 'a'.toNat + 10)
  else if 'A' ≤ c ∧ c ≤ 'F' then some (c.toNat - 'A'.toNat + 10)
  else none

/-- The number that four hexadecimal digits name. -/
def hex4 (a b c d : Char) : Option Nat :=
  match hexDigit a, hexDigit b, hexDigit c, hexDigit d with
  | some a, some b, some c, some d => some (((a * 16 + b) * 16 + c) * 16 + d)
  | _, _, _, _ => none

/-- The character that a short escape names. -/
def shortEscape (c : Char) : Option Char :=
  if c = '"' ∨ c = '\\' ∨ c = '/' then some c
  else if c = 'b' then some '\x08'
  else if c = 'f' then some '\x0c'
  else if c = 'n' then some '\n'
  else if c = 'r' then some '\r'
  else if c = 't' then some '\t'
  else none

/-- Put a code point in front of what a scan read. -/
def consTo (p : CodePoint) (scanned : Option (Text × List Char)) : Option (Text × List Char) :=
  scanned.map (fun r => (p :: r.1, r.2))

/-- The rest of a string after its opening quote, each escape on its own. -/
def scanEscapes : List Char → Option (Text × List Char)
  | [] => none
  | c :: rest =>
    if c = '"' then some ([], rest)
    else if c = '\\' then
      match rest with
      | [] => none
      | e :: rest =>
        if e = 'u' then
          match rest with
          | a :: b :: c :: d :: rest =>
            (hex4 a b c d).bind (fun n => consTo (.ofNat n) (scanEscapes rest))
          | _ => none
        else (shortEscape e).bind (fun p => consTo (.scalar p) (scanEscapes rest))
    -- A control character does not stand in a string.
    else if c.toNat < 0x20 then none
    else consTo (.scalar c) (scanEscapes rest)

/-- Two escapes that name a surrogate pair name one character. -/
def joinPairs : Text → Text
  | .surrogate h :: .surrogate l :: rest =>
    if h.val < 0x400 ∧ 0x400 ≤ l.val then
      .scalar (Char.ofNat (0x10000 + h.val * 0x400 + (l.val - 0x400))) :: joinPairs rest
    else .surrogate h :: joinPairs (.surrogate l :: rest)
  | p :: rest => p :: joinPairs rest
  | [] => []

/-- The rest of a string after its opening quote. -/
def scanString (s : List Char) : Option (Text × List Char) :=
  (scanEscapes s).map (fun r => (joinPairs r.1, r.2))

/-! ## Values -/

/-- What the decoder builds.  The hooks for integers, constants and objects may raise. -/
structure Hooks (ε V : Type) where
  null : V
  bool : Bool → V
  str : Text → V
  /-- `parse_int`, on the literal -/
  int : List Char → Except ε V
  float : List Char → V
  array : List V → V
  /-- `parse_constant` -/
  constant : List Char → Except ε V
  /-- `object_pairs_hook` -/
  object : List (Text × V) → Except ε V

/-- What the decoder raises. -/
inductive DecodeError (ε : Type) where
  /-- `JSONDecodeError` -/
  | invalid
  /-- `RecursionError` -/
  | recursion
  | hook (e : ε)
  /-- The fuel ran out. -/
  | fuel
  deriving DecidableEq, Repr

/-- The white space of JSON. -/
def isSpace (c : Char) : Bool := c = ' ' ∨ c = '\t' ∨ c = '\n' ∨ c = '\r'

/-- Skip white space. -/
def skipSpace (s : List Char) : List Char := s.dropWhile isSpace

/-- The fraction at the front of a text, with what follows it. -/
def scanFraction (s : List Char) : List Char × List Char :=
  match s with
  | c :: rest =>
    if c = '.' ∧ rest.takeWhile Char.isDigit ≠ [] then
      (c :: rest.takeWhile Char.isDigit, rest.dropWhile Char.isDigit)
    else ([], s)
  | [] => ([], s)

/-- The sign of an exponent. -/
def scanSign (s : List Char) : List Char × List Char :=
  match s with
  | c :: rest => if c = '+' ∨ c = '-' then ([c], rest) else ([], s)
  | [] => ([], s)

/-- The exponent at the front of a text, with what follows it. -/
def scanExponent (s : List Char) : List Char × List Char :=
  match s with
  | c :: rest =>
    let digits := (scanSign rest).2
    if (c = 'e' ∨ c = 'E') ∧ digits.takeWhile Char.isDigit ≠ [] then
      (c :: (scanSign rest).1 ++ digits.takeWhile Char.isDigit, digits.dropWhile Char.isDigit)
    else ([], s)
  | [] => ([], s)

/-- The integer part of a number: no digit follows a leading zero. -/
def scanInteger (s : List Char) : Option (List Char × List Char) :=
  match s with
  | c :: rest =>
    if c = '0' then some ([c], rest)
    else if c.isDigit then some (s.takeWhile Char.isDigit, s.dropWhile Char.isDigit)
    else none
  | [] => none

section decoder

variable {ε V : Type} (h : Hooks ε V)

/-- The number at the front of a text, after its sign. -/
def scanUnsigned (negative : Bool) (s : List Char) : Option (Except ε V × List Char) :=
  (scanInteger s).map fun (integer, rest) =>
    let fraction := scanFraction rest
    let exponent := scanExponent fraction.2
    let literal := (if negative then ['-'] else []) ++ integer
    if fraction.1 = [] ∧ exponent.1 = [] then (h.int literal, exponent.2)
    else (.ok (h.float (literal ++ fraction.1 ++ exponent.1)), exponent.2)

/-- The number at the front of a text. -/
def scanNumber (s : List Char) : Option (Except ε V × List Char) :=
  match s with
  | c :: rest => if c = '-' then scanUnsigned h true rest else scanUnsigned h false s
  | [] => none

/-- The constants that `parse_constant` is called with. -/
def constants : List (List Char) := [['N', 'a', 'N'], ['I', 'n', 'f', 'i', 'n', 'i', 't', 'y'], ['-', 'I', 'n', 'f', 'i', 'n', 'i', 't', 'y']]

/-- A literal, a number or a constant. -/
def scanAtom (s : List Char) : Except (DecodeError ε) (V × List Char) :=
  if ['n', 'u', 'l', 'l'] <+: s then .ok (h.null, s.drop 4)
  else if ['t', 'r', 'u', 'e'] <+: s then .ok (h.bool true, s.drop 4)
  else if ['f', 'a', 'l', 's', 'e'] <+: s then .ok (h.bool false, s.drop 5)
  else
    match scanNumber h s with
    | some (value, rest) => (value.mapError .hook).map (fun v => (v, rest))
    | none =>
      match constants.find? (fun name => decide (name <+: s)) with
      | some name => ((h.constant name).mapError .hook).map (fun v => (v, s.drop name.length))
      | none => .error .invalid

mutual

/-- The value at the front of a text.  `depth` bounds the nesting below it. -/
def scanOnce (fuel depth : Nat) (s : List Char) : Except (DecodeError ε) (V × List Char) :=
  match fuel with
  | 0 => .error .fuel
  | fuel + 1 =>
    match s with
    | [] => .error .invalid
    | c :: rest =>
      if c = '"' then
        match scanString rest with
        | some (t, rest) => .ok (h.str t, rest)
        | none => .error .invalid
      else if c = '[' then
        match depth with
        | 0 => .error .recursion
        | depth + 1 =>
          match skipSpace rest with
          | ']' :: rest => .ok (h.array [], rest)
          | rest => (scanElements fuel depth rest).map (fun r => (h.array r.1, r.2))
      else if c = '{' then
        match depth with
        | 0 => .error .recursion
        | depth + 1 =>
          let pairs : Except (DecodeError ε) (List (Text × V) × List Char) :=
            match skipSpace rest with
            | '}' :: rest => .ok ([], rest)
            | rest => scanMembers fuel depth rest
          pairs.bind (fun r => ((h.object r.1).mapError .hook).map (fun v => (v, r.2)))
      else scanAtom h (c :: rest)

/-- The elements of an array, up to its end. -/
def scanElements (fuel depth : Nat) (s : List Char) : Except (DecodeError ε) (List V × List Char) :=
  match fuel with
  | 0 => .error .fuel
  | fuel + 1 =>
    (scanOnce fuel depth s).bind fun (r : V × List Char) =>
    match skipSpace r.2 with
    | ']' :: rest => .ok ([r.1], rest)
    | ',' :: rest => (scanElements fuel depth (skipSpace rest)).map (fun t => (r.1 :: t.1, t.2))
    | _ => .error .invalid

/-- The members of an object, up to its end. -/
def scanMembers (fuel depth : Nat) (s : List Char) :
    Except (DecodeError ε) (List (Text × V) × List Char) :=
  match fuel with
  | 0 => .error .fuel
  | fuel + 1 =>
    match s with
    | [] => .error .invalid
    | c :: rest =>
      if c ≠ '"' then .error .invalid
      else
        match scanString rest with
        | none => .error .invalid
        | some (key, rest) =>
          match skipSpace rest with
          | ':' :: rest =>
            (scanOnce fuel depth (skipSpace rest)).bind fun (r : V × List Char) =>
            match skipSpace r.2 with
            | '}' :: rest => .ok ([(key, r.1)], rest)
            | ',' :: rest =>
              (scanMembers fuel depth (skipSpace rest)).map (fun t => ((key, r.1) :: t.1, t.2))
            | _ => .error .invalid
          | _ => .error .invalid

end

/-- `json.loads` of a text. -/
def loads (limit : Nat) (s : List Char) : Except (DecodeError ε) V :=
  -- A byte order mark is refused.
  if s.head? = some '\ufeff' then .error .invalid
  else
    (scanOnce h (2 * s.length + 2) limit (skipSpace s)).bind fun (r : V × List Char) =>
    if skipSpace r.2 = [] then .ok r.1 else .error .invalid

end decoder

/-! ## What is read back -/

theorem CodePoint.ofNat_toNat {c : Char} (h : c.toNat < 0xD800) : CodePoint.ofNat c.toNat = .scalar c := by
  unfold CodePoint.ofNat
  rw [dif_neg (by omega), Char.ofNat_toNat]

theorem CodePoint.ord_injective : Function.Injective CodePoint.ord := by
  intro p q h
  cases p with
  | scalar c =>
    cases q with
    | scalar d => exact congrArg _ (Char.toNat_inj.mp h)
    | surrogate n =>
      have hvalid := c.valid
      simp only [CodePoint.ord, Char.toNat] at h
      simp only [UInt32.isValidChar, Nat.isValidChar] at hvalid
      omega
  | surrogate m =>
    cases q with
    | scalar d =>
      have hvalid := d.valid
      simp only [CodePoint.ord, Char.toNat] at h
      simp only [UInt32.isValidChar, Nat.isValidChar] at hvalid
      omega
    | surrogate n =>
      simp only [CodePoint.ord] at h
      exact congrArg _ (Fin.ext (by omega))

theorem skipSpace_cons {c : Char} {s : List Char} (h : isSpace c = false) : skipSpace (c :: s) = c :: s :=
  List.dropWhile_cons_of_neg (by simp [h])

theorem joinPairs_scalars (cs : List Char) : joinPairs (cs.map .scalar) = cs.map .scalar := by
  induction cs with
  | nil => rfl
  | cons c cs ih =>
    show CodePoint.scalar c :: joinPairs (cs.map .scalar) = _
    rw [ih]
    rfl

/-! ### Strings -/

section strings

variable {rest : List Char}

theorem scanEscapes_cons (c : Char) :
    scanEscapes (c :: rest) =
      if c = '"' then some ([], rest)
      else if c = '\\' then
        match rest with
        | [] => none
        | e :: rest =>
          if e = 'u' then
            match rest with
            | a :: b :: c :: d :: rest => (hex4 a b c d).bind (fun n => consTo (.ofNat n) (scanEscapes rest))
            | _ => none
          else (shortEscape e).bind (fun p => consTo (.scalar p) (scanEscapes rest))
      else if c.toNat < 0x20 then none
      else consTo (.scalar c) (scanEscapes rest) :=
  scanEscapes.eq_def _

theorem scanEscapes_plain {c : Char} (hquote : c ≠ '"') (hback : c ≠ '\\') (hctrl : 0x20 ≤ c.toNat) :
    scanEscapes (c :: rest) = consTo (.scalar c) (scanEscapes rest) := by
  rw [scanEscapes_cons, if_neg hquote, if_neg hback, if_neg (by omega)]

theorem scanEscapes_short {e c : Char} (h : shortEscape e = some c) (hu : e ≠ 'u') :
    scanEscapes ('\\' :: e :: rest) = consTo (.scalar c) (scanEscapes rest) := by
  rw [scanEscapes_cons, if_neg (by decide), if_pos rfl]
  dsimp only
  rw [if_neg hu, h]
  rfl

theorem scanEscapes_unicode {a b c d : Char} {n : Nat} (h : hex4 a b c d = some n) :
    scanEscapes ('\\' :: 'u' :: a :: b :: c :: d :: rest) = consTo (.ofNat n) (scanEscapes rest) := by
  rw [scanEscapes_cons, if_neg (by decide), if_pos rfl]
  dsimp only
  rw [if_pos rfl, h]
  rfl

theorem scanEscapes_quote : scanEscapes ('"' :: rest) = some ([], rest) := by
  rw [scanEscapes_cons, if_pos rfl]

theorem scanString_escaped {escape : Char → List Char}
    (hescape : ∀ c rest, scanEscapes (escape c ++ rest) = consTo (.scalar c) (scanEscapes rest))
    (cs rest : List Char) :
    scanString (cs.flatMap escape ++ '"' :: rest) = some (cs.map .scalar, rest) := by
  have hscan : scanEscapes (cs.flatMap escape ++ '"' :: rest) = some (cs.map .scalar, rest) := by
    induction cs with
    | nil => exact scanEscapes_quote
    | cons c cs ih =>
      rw [List.flatMap_cons, List.append_assoc, hescape, ih]
      rfl
  unfold scanString
  rw [hscan, Option.map_some, joinPairs_scalars]

end strings

/-! ### Numbers -/

/-- No number goes on into the text: it is over, or a value ended here. -/
def Ends (rest : List Char) : Prop := ∀ c ∈ rest.head?, c = ',' ∨ c = ']' ∨ c = '}'

theorem ends_nil : Ends [] := by simp [Ends]

theorem ends_cons {c : Char} {s : List Char} (h : c = ',' ∨ c = ']' ∨ c = '}') : Ends (c :: s) := by
  simpa [Ends] using h

section numbers

variable {rest : List Char}

theorem Ends.not_digit (h : Ends rest) : ∀ c ∈ rest.head?, c.isDigit = false := by
  intro c hc
  obtain rfl | rfl | rfl := h c hc <;> rfl

theorem Ends.dropWhile_digits (h : Ends rest) : rest.dropWhile Char.isDigit = rest := by
  cases rest with
  | nil => rfl
  | cons c s => exact List.dropWhile_cons_of_neg (by simp [h.not_digit c rfl])

theorem Ends.takeWhile_digits (h : Ends rest) : rest.takeWhile Char.isDigit = [] := by
  cases rest with
  | nil => rfl
  | cons c s => exact List.takeWhile_cons_of_neg (by simp [h.not_digit c rfl])

theorem Ends.scanFraction (h : Ends rest) : scanFraction rest = ([], rest) := by
  cases rest with
  | nil => rfl
  | cons c s =>
    have hc : c ≠ '.' := by
      obtain rfl | rfl | rfl := h c rfl <;> decide
    unfold Json.scanFraction
    dsimp only
    rw [if_neg (fun hdot => hc hdot.1)]

theorem Ends.scanExponent (h : Ends rest) : scanExponent rest = ([], rest) := by
  cases rest with
  | nil => rfl
  | cons c s =>
    have hc : ¬ (c = 'e' ∨ c = 'E') := by
      obtain rfl | rfl | rfl := h c rfl <;> decide
    unfold Json.scanExponent
    dsimp only
    rw [if_neg (fun hexp => hc hexp.1)]

/-- The digits of a number have no leading zero but for the number zero. -/
theorem toDigits_head {n : Nat} (hn : 0 < n) : ∃ c cs, Nat.toDigits 10 n = c :: cs ∧ c ≠ '0' := by
  induction n using Nat.strongRecOn with
  | ind n ih =>
    by_cases hsmall : n < 10
    · refine ⟨_, [], Nat.toDigits_of_lt_base hsmall, ?_⟩
      have : ∀ m < 10, 0 < m → Nat.digitChar m ≠ '0' := by decide
      exact this n hsmall hn
    · obtain ⟨c, cs, hdigits, hc⟩ := ih (n / 10) (by omega) (by omega)
      rw [Nat.toDigits_of_base_le (by decide) (by omega), hdigits]
      exact ⟨c, cs ++ [(n % 10).digitChar], rfl, hc⟩

theorem scanInteger_toDigits (n : Nat) (h : Ends rest) :
    scanInteger (Nat.toDigits 10 n ++ rest) = some (Nat.toDigits 10 n, rest) := by
  obtain rfl | hn := Nat.eq_zero_or_pos n
  · rfl
  obtain ⟨c, cs, hdigits, hc⟩ := toDigits_head hn
  have hall : ∀ d ∈ Nat.toDigits 10 n, d.isDigit = true :=
    fun d hd => Nat.isDigit_of_mem_toDigits (by decide) (by decide) hd
  have hc' : c.isDigit = true := hall c (hdigits ▸ List.mem_cons_self)
  have hscan : scanInteger (Nat.toDigits 10 n ++ rest) =
      some ((Nat.toDigits 10 n ++ rest).takeWhile Char.isDigit,
        (Nat.toDigits 10 n ++ rest).dropWhile Char.isDigit) := by
    rw [hdigits, List.cons_append]
    unfold scanInteger
    dsimp only
    rw [if_neg hc, if_pos hc']
  rw [hscan, List.takeWhile_append_of_pos hall, List.dropWhile_append_of_pos hall, h.takeWhile_digits,
    h.dropWhile_digits, List.append_nil]

variable {ε V : Type} {h : Hooks ε V}

theorem scanUnsigned_toDigits (negative : Bool) (n : Nat) (hends : Ends rest) :
    scanUnsigned h negative (Nat.toDigits 10 n ++ rest) =
      some (h.int ((if negative then ['-'] else []) ++ Nat.toDigits 10 n), rest) := by
  unfold scanUnsigned
  rw [scanInteger_toDigits n hends]
  simp only [Option.map_some, hends.scanFraction, hends.scanExponent, and_self, if_true]

/-- The text of an integer: a minus sign, and digits. -/
def intText (i : Int) : List Char :=
  if i < 0 then '-' :: Nat.toDigits 10 i.natAbs else Nat.toDigits 10 i.natAbs

/-- The first character of an integer. -/
theorem intText_head (i : Int) : ∃ c cs, intText i = c :: cs ∧ (c = '-' ∨ c.isDigit = true) := by
  unfold intText
  split_ifs
  · exact ⟨_, _, rfl, Or.inl rfl⟩
  · obtain ⟨c, cs, hdigits⟩ := List.exists_cons_of_ne_nil (Nat.toDigits_ne_nil (n := i.natAbs) (b := 10))
    refine ⟨c, cs, hdigits, Or.inr (Nat.isDigit_of_mem_toDigits (b := 10) (n := i.natAbs) ?_ ?_ ?_)⟩
    · decide
    · decide
    · exact hdigits ▸ List.mem_cons_self

theorem scanNumber_intText (i : Int) (hends : Ends rest) :
    scanNumber h (intText i ++ rest) = some (h.int (intText i), rest) := by
  unfold intText
  split_ifs with hneg
  · rw [List.cons_append]
    unfold scanNumber
    dsimp only
    rw [if_pos rfl, scanUnsigned_toDigits true _ hends]
    rfl
  · obtain ⟨c, cs, hdigits, hc⟩ : ∃ c cs, Nat.toDigits 10 i.natAbs = c :: cs ∧ c.isDigit = true := by
      obtain ⟨c, cs, hdigits, hc⟩ := intText_head i
      unfold intText at hdigits
      rw [if_neg hneg] at hdigits
      refine ⟨c, cs, hdigits, ?_⟩
      exact Nat.isDigit_of_mem_toDigits (by decide) (by decide) (hdigits ▸ List.mem_cons_self)
    have hscan : scanNumber h (Nat.toDigits 10 i.natAbs ++ rest) =
        scanUnsigned h false (Nat.toDigits 10 i.natAbs ++ rest) := by
      rw [hdigits, List.cons_append]
      unfold scanNumber
      dsimp only
      rw [if_neg]
      rintro rfl
      exact absurd hc (by decide)
    rw [hscan, scanUnsigned_toDigits false _ hends]
    rfl

/-- An integer is no literal. -/
theorem scanAtom_intText (i : Int) (hends : Ends rest) {v : V} (hint : h.int (intText i) = .ok v) :
    scanAtom h (intText i ++ rest) = .ok (v, rest) := by
  obtain ⟨c, cs, htext, hc⟩ := intText_head i
  have hpre : ∀ a : Char, ∀ name, (a = 'n' ∨ a = 't' ∨ a = 'f') → ¬ a :: name <+: intText i ++ rest := by
    intro a name ha hname
    rw [htext, List.cons_append, List.cons_prefix_cons] at hname
    obtain ⟨rfl, -⟩ := hname
    obtain rfl | rfl | rfl := ha <;> exact absurd hc (by decide)
  unfold scanAtom
  rw [if_neg (hpre 'n' _ (by simp)), if_neg (hpre 't' _ (by simp)), if_neg (hpre 'f' _ (by simp)),
    scanNumber_intText i hends, hint]
  rfl

end numbers

/-! ### Values -/

/-- A value, or the name of a member, begins the text. -/
def Begins (s : List Char) : Prop :=
  ∃ c t, s = c :: t ∧ isSpace c = false ∧ c ≠ ']' ∧ c ≠ '}' ∧ c ≠ '\ufeff'

theorem Begins.skipSpace {s : List Char} (h : Begins s) : skipSpace s = s := by
  obtain ⟨c, t, rfl, hspace, -⟩ := h
  exact skipSpace_cons hspace

theorem Begins.append {s : List Char} (h : Begins s) (t : List Char) : Begins (s ++ t) := by
  obtain ⟨c, u, rfl, hc⟩ := h
  exact ⟨c, u ++ t, rfl, hc⟩

theorem begins_intText (i : Int) : Begins (intText i) := by
  obtain ⟨c, cs, htext, hc⟩ := intText_head i
  refine ⟨c, cs, htext, ?_, ?_, ?_, ?_⟩
  · obtain rfl | hc := hc
    · rfl
    · cases hspace : isSpace c with
      | false => rfl
      | true =>
        simp only [isSpace, decide_eq_true_eq] at hspace
        obtain rfl | rfl | rfl | rfl := hspace <;> exact absurd hc (by decide)
  · rintro rfl
    exact absurd hc (by decide)
  · rintro rfl
    exact absurd hc (by decide)
  · rintro rfl
    exact absurd hc (by decide)

section values

variable {ε V : Type} {h : Hooks ε V} {fuel depth : Nat} {s rest : List Char} {v : V}

theorem scanOnce_cons (c : Char) :
    scanOnce h (fuel + 1) depth (c :: rest) =
      if c = '"' then
        match scanString rest with
        | some (t, rest) => .ok (h.str t, rest)
        | none => .error .invalid
      else if c = '[' then
        match depth with
        | 0 => .error .recursion
        | depth + 1 =>
          match skipSpace rest with
          | ']' :: rest => .ok (h.array [], rest)
          | rest => (scanElements h fuel depth rest).map (fun r => (h.array r.1, r.2))
      else if c = '\x7b' then
        match depth with
        | 0 => .error .recursion
        | depth + 1 =>
          let pairs : Except (DecodeError ε) (List (Text × V) × List Char) :=
            match skipSpace rest with
            | '\x7d' :: rest => .ok ([], rest)
            | rest => scanMembers h fuel depth rest
          pairs.bind (fun r => ((h.object r.1).mapError .hook).map (fun v => (v, r.2)))
      else scanAtom h (c :: rest) :=
  scanOnce.eq_def _ _ _ _

theorem scanOnce_string {t : Text} (hscan : scanString s = some (t, rest)) :
    scanOnce h (fuel + 1) depth ('"' :: s) = .ok (h.str t, rest) := by
  rw [scanOnce_cons, if_pos rfl, hscan]

theorem scanOnce_atom {c : Char} (hquote : c ≠ '"') (harray : c ≠ '[') (hobject : c ≠ '\x7b') :
    scanOnce h (fuel + 1) depth (c :: s) = scanAtom h (c :: s) := by
  rw [scanOnce_cons, if_neg hquote, if_neg harray, if_neg hobject]

theorem scanOnce_intText (i : Int) (hends : Ends rest) (hint : h.int (intText i) = .ok v) :
    scanOnce h (fuel + 1) depth (intText i ++ rest) = .ok (v, rest) := by
  obtain ⟨c, cs, htext, hc⟩ := intText_head i
  have hne : ∀ a : Char, a.isDigit = false → a ≠ '-' → c ≠ a := by
    rintro a hdigit hminus rfl
    obtain rfl | hc := hc
    · exact hminus rfl
    · rw [hdigit] at hc
      exact absurd hc (by simp)
  rw [← scanAtom_intText i hends hint, htext, List.cons_append]
  exact scanOnce_atom (hne _ (by decide) (by decide)) (hne _ (by decide) (by decide))
    (hne _ (by decide) (by decide))

theorem scanOnce_emptyArray :
    scanOnce h (fuel + 1) (depth + 1) ('[' :: ']' :: rest) = .ok (h.array [], rest) := by
  rw [scanOnce_cons, if_neg (by decide), if_pos rfl, skipSpace_cons (by decide)]
  rfl

theorem scanOnce_array {vs : List V} (hb : Begins s) (helems : scanElements h fuel depth s = .ok (vs, rest)) :
    scanOnce h (fuel + 1) (depth + 1) ('[' :: s) = .ok (h.array vs, rest) := by
  rw [scanOnce_cons, if_neg (by decide), if_pos rfl, hb.skipSpace]
  dsimp only
  obtain ⟨c, t, rfl, -, hc, -⟩ := hb
  split
  · rename_i heq
    exact absurd (List.cons.inj heq).1 hc
  · rw [helems]
    rfl

theorem scanElements_last (hv : scanOnce h fuel depth s = .ok (v, ']' :: rest)) :
    scanElements h (fuel + 1) depth s = .ok ([v], rest) := by
  show (scanOnce h fuel depth s).bind _ = _
  rw [hv]
  rfl

theorem scanElements_more {vs : List V} {t : List Char} (hv : scanOnce h fuel depth s = .ok (v, ',' :: t))
    (hb : Begins t) (hrest : scanElements h fuel depth t = .ok (vs, rest)) :
    scanElements h (fuel + 1) depth s = .ok (v :: vs, rest) := by
  show (scanOnce h fuel depth s).bind _ = _
  rw [hv]
  show ((scanElements h fuel depth (skipSpace t)).map _) = _
  rw [hb.skipSpace, hrest]
  rfl

theorem scanOnce_emptyObject {o : V} (hobject : h.object [] = .ok o) :
    scanOnce h (fuel + 1) (depth + 1) ('\x7b' :: '\x7d' :: rest) = .ok (o, rest) := by
  rw [scanOnce_cons, if_neg (by decide), if_neg (by decide), if_pos rfl, skipSpace_cons (by decide)]
  show ((h.object []).mapError DecodeError.hook).map _ = _
  rw [hobject]
  rfl

theorem scanOnce_object {pairs : List (Text × V)} {o : V} (hb : Begins s)
    (hmembers : scanMembers h fuel depth s = .ok (pairs, rest)) (hobject : h.object pairs = .ok o) :
    scanOnce h (fuel + 1) (depth + 1) ('\x7b' :: s) = .ok (o, rest) := by
  rw [scanOnce_cons, if_neg (by decide), if_neg (by decide), if_pos rfl, hb.skipSpace]
  dsimp only
  obtain ⟨c, t, rfl, -, -, hc, -⟩ := hb
  split
  · rename_i heq
    exact absurd (List.cons.inj heq).1 hc
  · rw [hmembers]
    dsimp only [Except.bind]
    rw [hobject]
    rfl

theorem scanMembers_value {key : Text} {t u : List Char} (hkey : scanString s = some (key, ':' :: t))
    (hb : Begins t) (hv : scanOnce h fuel depth t = .ok (v, u)) :
    scanMembers h (fuel + 1) depth ('"' :: s) =
      (match skipSpace u with
      | '}' :: rest => .ok ([(key, v)], rest)
      | ',' :: rest =>
        (scanMembers h fuel depth (skipSpace rest)).map (fun t => ((key, v) :: t.1, t.2))
      | _ => .error .invalid) := by
  rw [scanMembers.eq_def]
  dsimp only
  rw [if_neg (by simp), hkey]
  show (scanOnce h fuel depth (skipSpace t)).bind _ = _
  rw [hb.skipSpace, hv]
  rfl

theorem scanMembers_last {key : Text} {t : List Char} (hkey : scanString s = some (key, ':' :: t))
    (hb : Begins t) (hv : scanOnce h fuel depth t = .ok (v, '\x7d' :: rest)) :
    scanMembers h (fuel + 1) depth ('"' :: s) = .ok ([(key, v)], rest) := by
  rw [scanMembers_value hkey hb hv]
  rfl

theorem scanMembers_more {key : Text} {t u : List Char} {pairs : List (Text × V)}
    (hkey : scanString s = some (key, ':' :: t)) (hb : Begins t)
    (hv : scanOnce h fuel depth t = .ok (v, ',' :: u)) (hu : Begins u)
    (hrest : scanMembers h fuel depth u = .ok (pairs, rest)) :
    scanMembers h (fuel + 1) depth ('"' :: s) = .ok ((key, v) :: pairs, rest) := by
  rw [scanMembers_value hkey hb hv]
  show ((scanMembers h fuel depth (skipSpace u)).map _) = _
  rw [hu.skipSpace, hrest]
  rfl

/-- A text that holds one value. -/
theorem loads_of_scanOnce {limit : Nat} (hb : Begins s)
    (hv : scanOnce h (2 * s.length + 2) limit s = .ok (v, [])) : loads h limit s = .ok v := by
  have hbom : s.head? ≠ some '\ufeff' := by
    obtain ⟨c, t, rfl, -, -, -, hc⟩ := hb
    exact fun heq => hc (Option.some.inj heq)
  unfold loads
  rw [if_neg hbom, hb.skipSpace, hv]
  rfl

end values

/-! ## The fuel suffices

Every scan takes something off the text, so its length bounds the calls. -/

section fuel

theorem length_skipSpace_le (s : List Char) : (skipSpace s).length ≤ s.length :=
  (List.dropWhile_sublist _).length_le

theorem consTo_eq_some {p : CodePoint} {scanned : Option (Text × List Char)} {t : Text} {rest : List Char}
    (h : consTo p scanned = some (t, rest)) : ∃ u, scanned = some (u, rest) := by
  obtain ⟨⟨u, rest'⟩, hscanned, heq⟩ := Option.map_eq_some_iff.mp h
  obtain ⟨-, rfl⟩ := Prod.mk.inj heq
  exact ⟨u, hscanned⟩

theorem length_lt_of_scanEscapes {s rest : List Char} {t : Text} (h : scanEscapes s = some (t, rest)) :
    rest.length < s.length := by
  induction hn : s.length using Nat.strongRecOn generalizing s t with
  | ind n ih =>
    subst hn
    have hstep : ∀ {s' : List Char} {p : CodePoint}, consTo p (scanEscapes s') = some (t, rest) →
        s'.length < s.length → rest.length < s.length := by
      intro s' p hcons hlt
      obtain ⟨u, hu⟩ := consTo_eq_some hcons
      exact (ih s'.length hlt hu rfl).trans hlt
    rw [scanEscapes.eq_def] at h
    split at h
    · exact absurd h (by simp)
    · split_ifs at h with hquote hback hctrl
      · obtain ⟨-, rfl⟩ := Prod.mk.inj (Option.some.inj h)
        simp
      · split at h
        · exact absurd h (by simp)
        · split_ifs at h
          · split at h
            · obtain ⟨n, -, hcons⟩ := Option.bind_eq_some_iff.mp h
              refine hstep hcons ?_
              simp only [List.length_cons]
              omega
            · exact absurd h (by simp)
          · obtain ⟨p, -, hcons⟩ := Option.bind_eq_some_iff.mp h
            refine hstep hcons ?_
            simp only [List.length_cons]
            omega
      · exact hstep h (by simp)

theorem length_lt_of_scanString {s rest : List Char} {t : Text} (h : scanString s = some (t, rest)) :
    rest.length < s.length := by
  obtain ⟨⟨u, rest'⟩, hscan, heq⟩ := Option.map_eq_some_iff.mp h
  obtain ⟨-, rfl⟩ := Prod.mk.inj heq
  exact length_lt_of_scanEscapes hscan

theorem length_scanFraction_le (s : List Char) : (scanFraction s).2.length ≤ s.length := by
  unfold scanFraction
  split
  · rename_i c rest
    split_ifs
    · have hle := (List.dropWhile_sublist Char.isDigit (l := rest)).length_le
      simp only [List.length_cons]
      omega
    · exact le_rfl
  · exact le_rfl

theorem length_scanSign_le (s : List Char) : (scanSign s).2.length ≤ s.length := by
  unfold scanSign
  split
  · split_ifs
    · simp
    · exact le_rfl
  · exact le_rfl

theorem length_scanExponent_le (s : List Char) : (scanExponent s).2.length ≤ s.length := by
  unfold scanExponent
  split
  · rename_i c rest
    dsimp only
    split_ifs
    · have hle := (List.dropWhile_sublist Char.isDigit (l := (scanSign rest).2)).length_le
      have hsign := length_scanSign_le rest
      simp only [List.length_cons]
      omega
    · exact le_rfl
  · exact le_rfl

theorem length_lt_of_scanInteger {s integer rest : List Char} (h : scanInteger s = some (integer, rest)) :
    rest.length < s.length := by
  unfold scanInteger at h
  split at h
  · rename_i c t
    split_ifs at h with hzero hdigit
    · obtain ⟨-, rfl⟩ := Prod.mk.inj (Option.some.inj h)
      simp
    · obtain ⟨-, rfl⟩ := Prod.mk.inj (Option.some.inj h)
      rw [List.dropWhile_cons_of_pos hdigit]
      exact Nat.lt_succ_of_le (List.dropWhile_sublist _).length_le
  · exact absurd h (by simp)

variable {ε V : Type} {h : Hooks ε V}

theorem length_lt_of_scanNumber {s rest : List Char} {v : Except ε V} (hscan : scanNumber h s = some (v, rest)) :
    rest.length < s.length := by
  have hunsigned : ∀ negative t, scanUnsigned h negative t = some (v, rest) → rest.length < t.length := by
    intro negative t hscan
    obtain ⟨⟨integer, u⟩, hinteger, heq⟩ := Option.map_eq_some_iff.mp hscan
    have hlt := length_lt_of_scanInteger hinteger
    have hfraction := length_scanFraction_le u
    have hexponent := length_scanExponent_le (scanFraction u).2
    have hrest : (scanExponent (scanFraction u).2).2 = rest := by
      dsimp only at heq
      split_ifs at heq <;> exact (Prod.mk.inj heq).2
    rw [hrest] at hexponent
    omega
  unfold scanNumber at hscan
  split at hscan
  · split_ifs at hscan
    · exact (hunsigned _ _ hscan).trans (by simp)
    · exact hunsigned _ _ hscan
  · exact absurd hscan (by simp)

theorem length_drop_lt {name s : List Char} (hname : name ≠ []) (hpre : name <+: s) :
    (s.drop name.length).length < s.length := by
  have hpos := List.length_pos_iff.mpr hname
  have hle := hpre.length_le
  rw [List.length_drop]
  omega

/-- What a scan with enough fuel does: it does not run out, and it takes something off the
text. -/
def Takes {α : Type} (s : List Char) (r : Except (DecodeError ε) (α × List Char)) : Prop :=
  r ≠ .error .fuel ∧ ∀ a rest, r = .ok (a, rest) → rest.length < s.length

theorem takes_error {α : Type} {s : List Char} {e : DecodeError ε} (he : e ≠ .fuel) :
    Takes s (.error e : Except (DecodeError ε) (α × List Char)) :=
  ⟨fun heq => he (Except.error.inj heq), fun _ _ heq => by simp at heq⟩

theorem takes_ok {α : Type} {s rest : List Char} {a : α} (hlt : rest.length < s.length) :
    Takes s (.ok (a, rest) : Except (DecodeError ε) (α × List Char)) := by
  refine ⟨by simp, fun a' rest' heq => ?_⟩
  obtain ⟨-, rfl⟩ := Prod.mk.inj (Except.ok.inj heq)
  exact hlt

theorem Takes.map {α β : Type} {s t : List Char} {r : Except (DecodeError ε) (α × List Char)} (f : α → β)
    (hr : Takes s r) (hle : s.length ≤ t.length) : Takes t (r.map (fun x => (f x.1, x.2))) := by
  cases r with
  | error e => exact takes_error (fun he => hr.1 (congrArg _ he))
  | ok x => exact takes_ok ((hr.2 x.1 x.2 rfl).trans_le hle)

theorem Takes.bind {α β : Type} {s t : List Char} {r : Except (DecodeError ε) (α × List Char)}
    {k : α × List Char → Except (DecodeError ε) (β × List Char)} (hr : Takes s r)
    (hk : ∀ a rest, rest.length < s.length → Takes t (k (a, rest))) : Takes t (r.bind k) := by
  cases r with
  | error e => exact takes_error (fun he => hr.1 (congrArg _ he))
  | ok x => exact hk x.1 x.2 (hr.2 x.1 x.2 rfl)

theorem scanAtom_takes (s : List Char) : Takes s (scanAtom h s) := by
  unfold scanAtom
  split_ifs with hnull htrue hfalse
  · exact takes_ok (length_drop_lt (by simp) hnull)
  · exact takes_ok (length_drop_lt (by simp) htrue)
  · exact takes_ok (length_drop_lt (by simp) hfalse)
  · split
    · rename_i value rest hnumber
      cases value with
      | error e => exact takes_error (by simp)
      | ok v => exact takes_ok (length_lt_of_scanNumber hnumber)
    · split
      · rename_i name hfind
        have hname : name ≠ [] := by
          have hmem := List.mem_of_find?_eq_some hfind
          rintro rfl
          simp [constants] at hmem
        have hpre : name <+: s := by simpa using List.find?_some hfind
        cases h.constant name with
        | error e => exact takes_error (by simp)
        | ok v => exact takes_ok (length_drop_lt hname hpre)
      · exact takes_error (by simp)

theorem scan_takes (fuel : Nat) :
    (∀ depth s, 2 * s.length + 1 ≤ fuel → Takes s (scanOnce h fuel depth s)) ∧
      (∀ depth s, 2 * s.length + 2 ≤ fuel → Takes s (scanElements h fuel depth s)) ∧
      ∀ depth s, 2 * s.length + 2 ≤ fuel → Takes s (scanMembers h fuel depth s) := by
  induction fuel with
  | zero => exact ⟨fun _ _ hf => by omega, fun _ _ hf => by omega, fun _ _ hf => by omega⟩
  | succ fuel ih =>
    obtain ⟨ihonce, ihelements, ihmembers⟩ := ih
    refine ⟨fun depth s hf => ?_, fun depth s hf => ?_, fun depth s hf => ?_⟩
    · rw [scanOnce.eq_def]
      dsimp only
      cases s with
      | nil => exact takes_error (by simp)
      | cons c rest =>
        have hspace := length_skipSpace_le rest
        rw [List.length_cons] at hf
        dsimp only
        split_ifs with hquote harray hobject
        · split
          · rename_i t u hscan
            have hlt := length_lt_of_scanString hscan
            exact takes_ok (by rw [List.length_cons]; omega)
          · exact takes_error (by simp)
        · split
          · exact takes_error (by simp)
          · split
            · rename_i u heq
              rw [heq, List.length_cons] at hspace
              exact takes_ok (by rw [List.length_cons]; omega)
            · exact (ihelements _ _ (by omega)).map _ (by rw [List.length_cons]; omega)
        · split
          · exact takes_error (by simp)
          · refine Takes.bind (s := c :: rest) ?_ (fun pairs u hlt => ?_)
            · split
              · rename_i u heq
                rw [heq, List.length_cons] at hspace
                exact takes_ok (by rw [List.length_cons]; omega)
              · obtain ⟨hfuel, hlt⟩ := ihmembers ‹Nat› (skipSpace rest) (by omega)
                exact ⟨hfuel, fun a u heq => (hlt a u heq).trans (by rw [List.length_cons]; omega)⟩
            · dsimp only
              cases h.object pairs with
              | error e => exact takes_error (by simp)
              | ok v => exact takes_ok hlt
        · exact scanAtom_takes _
    · rw [scanElements.eq_def]
      dsimp only
      refine (ihonce depth s (by omega)).bind (fun v rest hlt => ?_)
      have hspace := length_skipSpace_le rest
      dsimp only
      split
      · rename_i u heq
        rw [heq, List.length_cons] at hspace
        exact takes_ok (by omega)
      · rename_i u heq
        rw [heq, List.length_cons] at hspace
        have hskip := length_skipSpace_le u
        exact (ihelements _ _ (by omega)).map _ (by omega)
      · exact takes_error (by simp)
    · rw [scanMembers.eq_def]
      dsimp only
      cases s with
      | nil => exact takes_error (by simp)
      | cons c rest =>
        rw [List.length_cons] at hf
        dsimp only
        split_ifs with hquote
        · exact takes_error (by simp)
        · split
          · exact takes_error (by simp)
          · rename_i key t hscan
            have hlt := length_lt_of_scanString hscan
            have hspace := length_skipSpace_le t
            split
            · rename_i u heq
              rw [heq, List.length_cons] at hspace
              have hskip := length_skipSpace_le u
              refine (ihonce depth (skipSpace u) (by omega)).bind (fun v rest' hlt' => ?_)
              have hspace' := length_skipSpace_le rest'
              dsimp only
              split
              · rename_i w heq'
                rw [heq', List.length_cons] at hspace'
                exact takes_ok (by rw [List.length_cons]; omega)
              · rename_i w heq'
                rw [heq', List.length_cons] at hspace'
                have hskip' := length_skipSpace_le w
                exact (ihmembers _ _ (by omega)).map _ (by rw [List.length_cons]; omega)
              · exact takes_error (by simp)
            · exact takes_error (by simp)

end fuel

end Json
