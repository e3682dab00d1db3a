import Mathlib.Data.List.Lex
import Mathlib.Data.List.Sort
import MuseAgentSocial.Lib.Json

/-!
# Canonical JSON

A model of `canonical.py`.

* `Value` is a Python object that can reach the encoder.  `F` is the type of
  floats, and a string may hold lone surrogates.
* `encode` is `_encode`, with the text as characters, and `restrictedJcs` the
  bytes of `restricted_jcs`.  Each call of a Python function takes one of the `frames` that
  the recursion limit of the interpreter leaves to the caller.
* `strictParse` is `strict_parse` with the decoder of `Json`.  Its integers are made by
  `int`, which refuses a literal of more than `INT_MAX_STR_DIGITS` digits with a
  `ValueError`.
* `Value.InProfile` is the restricted profile.
-/

namespace MuseAgentSocial.Canonical

open Json

/-- A key of a dict: a string, or an object of another type. -/
inductive Key where
  | str (s : Text)
  | other (n : Nat)
  deriving DecidableEq, Repr

/-- A Python object. -/
inductive Value (F : Type) where
  | none
  | bool (b : Bool)
  | int (i : Int)
  | float (x : F)
  | str (s : Text)
  | list (xs : List (Value F))
  | tuple (xs : List (Value F))
  /-- A dict, in insertion order. -/
  | dict (entries : List (Key × Value F))
  /-- An object of any other type. -/
  | other (n : Nat)
  deriving Repr

/-- The reason codes. -/
inductive Code where
  | unpaired_surrogate | integer_out_of_range | nan_or_infinity | float_number | invalid_key_type
  | non_ascii_key | duplicate_key | unsupported_type | invalid_utf8 | too_deeply_nested | invalid_json
  deriving DecidableEq, Repr

/-- `CanonicalizationError` -/
structure CanonicalizationError where
  field_path : Text
  code : Code
  deriving DecidableEq, Repr

def SAFE_INT_MIN : Int := -9007199254740991

def SAFE_INT_MAX : Int := 9007199254740991

/-! ## The encoder -/

/-- What leaves `_encode`: its own error, or the `RecursionError` of the interpreter. -/
inductive EncodeRaised where
  | canonicalization (e : CanonicalizationError)
  | recursion_error
  deriving DecidableEq, Repr

/-- `raise CanonicalizationError(path, code)`: its `__init__` is one more call. -/
def raiseCanonicalization {α : Type} : Nat → Text → Code → Except EncodeRaised α
  | 0, _, _ => .error .recursion_error
  | _ + 1, path, code => .error (.canonicalization ⟨path, code⟩)

/-- A character in `_SHORT_ESCAPES`. -/
def shortEscapeOf (c : Char) : Option (List Char) :=
  if c = '"' then some ['\\', '"']
  else if c = '\\' then some ['\\', '\\']
  else if c = '\x08' then some ['\\', 'b']
  else if c = '\t' then some ['\\', 't']
  else if c = '\n' then some ['\\', 'n']
  else if c = '\x0c' then some ['\\', 'f']
  else if c = '\r' then some ['\\', 'r']
  else none

/-- `"\\u%04x" % cp` -/
def unicodeEscape (cp : Nat) : List Char :=
  '\\' :: 'u' :: List.leftpad 4 '0' (Nat.toDigits 16 cp)

/-- What one character becomes. -/
def escapeChar (c : Char) : List Char :=
  match shortEscapeOf c with
  | some esc => esc
  | none => if c.toNat < 0x20 ∨ c.toNat = 0x7F then unicodeEscape c.toNat else [c]

/-- The characters of a string without surrogates. -/
def scalars : Text → Option (List Char)
  | [] => some []
  | .scalar c :: s => (scalars s).map (c :: ·)
  | .surrogate _ :: _ => none

/-- `_encode_string` -/
def encodeString : Nat → Text → Text → Except EncodeRaised (List Char)
  | 0, _, _ => .error .recursion_error
  | frames + 1, value, path =>
    match scalars value with
    | none => raiseCanonicalization frames path .unpaired_surrogate
    | some cs => .ok ('"' :: cs.flatMap escapeChar ++ ['"'])

/-- `key.isascii()` -/
def isAscii (s : Text) : Bool := s.all (fun p => decide (p.ord < 0x80))

/-- The keys of a dict after the checks of each of them. -/
def checkKeys (frames : Nat) (path : Text) : List Key → Except EncodeRaised (List Text)
  | [] => .ok []
  | .other _ :: _ => raiseCanonicalization frames path .invalid_key_type
  | .str s :: keys =>
    if isAscii s then (checkKeys frames path keys).map (s :: ·)
    else raiseCanonicalization frames path .non_ascii_key

/-- The order of the keys by their bytes. -/
def keyLe (a b : Text) : Bool := decide (a.map CodePoint.ord ≤ b.map CodePoint.ord)

/-- `f"{path}.{key}" if path else key` -/
def childPath (path key : Text) : Text := if path = [] then key else path ++ .scalar '.' :: key

/-- `f"{path}[{i}]"` -/
def indexPath (path : Text) (i : Nat) : Text :=
  path ++ ('[' :: Nat.toDigits 10 i ++ [']']).map .scalar

/-- The parts with commas between them. -/
def joinCommas : List (List Char) → List Char
  | [] => []
  | [part] => part
  | part :: parts => part ++ ',' :: joinCommas parts

/-- The parts that are written, or the first error. -/
def collect {ε α : Type} : List (Except ε α) → Except ε (List α)
  | [] => .ok []
  | .error e :: _ => .error e
  | .ok a :: rest => (collect rest).map (a :: ·)

/-- The text of a key, for the dicts whose keys passed the checks. -/
def Key.text : Key → Text
  | .str s => s
  | .other _ => []

/-- One member of an object: its key, a colon and its value. -/
def member (frames : Nat) (path : Text) (entry : Text × Except EncodeRaised (List Char)) :
    Except EncodeRaised (List Char) :=
  (encodeString frames entry.1 (childPath path entry.1)).bind fun key => entry.2.map (fun value => key ++ ':' :: value)

section encoder

variable {F : Type} (nonFinite : F → Bool)

mutual

/-- `_encode`.  The recursion comes before the sort, which only orders what it gives; the
frame of the sort's `lambda` is free again when a key is encoded. -/
def encode : Nat → Value F → Text → Except EncodeRaised (List Char)
  | 0, _, _ => .error .recursion_error
  | _ + 1, .none, _ => .ok ['n', 'u', 'l', 'l']
  | _ + 1, .bool true, _ => .ok ['t', 'r', 'u', 'e']
  | _ + 1, .bool false, _ => .ok ['f', 'a', 'l', 's', 'e']
  | frames + 1, .int i, path =>
    -- `str(value)`
    if SAFE_INT_MIN ≤ i ∧ i ≤ SAFE_INT_MAX then .ok (intText i)
    else raiseCanonicalization frames path .integer_out_of_range
  | frames + 1, .float x, path =>
    raiseCanonicalization frames path (if nonFinite x then .nan_or_infinity else .float_number)
  | frames + 1, .str s, path => encodeString frames s path
  | frames + 1, .dict entries, path =>
    (checkKeys frames path (entries.map Prod.fst)).bind fun keys =>
    if ¬ keys.Nodup then raiseCanonicalization frames path .duplicate_key
    else
      (collect (((encodeEntries frames entries path).mergeSort (fun a b => keyLe a.1 b.1)).map
        (member frames path))).map fun parts => '\x7b' :: joinCommas parts ++ ['\x7d']
  | frames + 1, .list xs, path =>
    (collect (encodeItems frames xs path 0)).map (fun parts => '[' :: joinCommas parts ++ [']'])
  | frames + 1, .tuple xs, path =>
    (collect (encodeItems frames xs path 0)).map (fun parts => '[' :: joinCommas parts ++ [']'])
  | frames + 1, .other _, path => raiseCanonicalization frames path .unsupported_type

/-- The items of a list, from index `i` on. -/
def encodeItems : Nat → List (Value F) → Text → Nat → List (Except EncodeRaised (List Char))
  | _, [], _, _ => []
  | frames, x :: xs, path, i => encode frames x (indexPath path i) :: encodeItems frames xs path (i + 1)

/-- The values of a dict by their keys. -/
def encodeEntries : Nat → List (Key × Value F) → Text → List (Text × Except EncodeRaised (List Char))
  | _, [], _ => []
  | frames, (k, v) :: entries, path =>
    (k.text, encode frames v (childPath path k.text)) :: encodeEntries frames entries path

end

/-- `restricted_jcs` -/
def restrictedJcs : Nat → Value F → Except EncodeRaised ByteArray
  | 0, _ => .error .recursion_error
  | frames + 1, obj => (encode nonFinite frames obj []).map (fun out => (String.ofList out).toUTF8)

end encoder

/-! ## The decoder -/

/-- `_reject_duplicate_keys`: the dict in the order of the pairs. -/
def rejectDuplicateKeys {F : Type} (pairs : List (Text × Value F)) : Except CanonicalizationError (Value F) :=
  if (pairs.map Prod.fst).Nodup then .ok (.dict (pairs.map (fun p => (.str p.1, p.2))))
  else .error ⟨[], .duplicate_key⟩

/-- The default of `sys.get_int_max_str_digits()`. -/
def INT_MAX_STR_DIGITS : Nat := 4300

/-- What leaves `strict_parse`: its own error, or a `ValueError` that is no
`JSONDecodeError`. -/
inductive Raised where
  | canonicalization (e : CanonicalizationError)
  | value_error
  deriving DecidableEq, Repr

/-- The digits of an integer literal. -/
def literalDigits (literal : List Char) : List Char := literal.dropWhile (· = '-')

/-- `int(literal)` -/
def parseInt {F : Type} (literal : List Char) : Except Raised (Value F) :=
  if INT_MAX_STR_DIGITS < (literalDigits literal).length then .error .value_error
  else
    let n : Int := Nat.ofDigitChars 10 (literalDigits literal) 0
    .ok (.int (if literal.head? = some '-' then -n else n))

/-- What `strict_parse` passes to the decoder.  `parseFloat` makes a float of its text. -/
def hooks {F : Type} (parseFloat : List Char → F) : Hooks Raised (Value F) where
  null := .none
  bool := .bool
  str := .str
  int := parseInt
  float text := .float (parseFloat text)
  array := .list
  constant _ := .error (.canonicalization ⟨[], .nan_or_infinity⟩)
  object pairs := (rejectDuplicateKeys pairs).mapError .canonicalization

/-- `strict_parse`, with `limit` for the recursion limit. -/
def strictParse {F : Type} (parseFloat : List Char → F) (limit : Nat) (data : ByteArray) :
    Except Raised (Value F) :=
  match String.fromUTF8? data with
  | none => .error (.canonicalization ⟨[], .invalid_utf8⟩)
  | some text =>
    match loads (hooks parseFloat) limit text.toList with
    | .ok v => .ok v
    | .error (.hook e) => .error e
    | .error .recursion => .error (.canonicalization ⟨[], .too_deeply_nested⟩)
    | .error .invalid => .error (.canonicalization ⟨[], .invalid_json⟩)
    -- Not reached.
    | .error .fuel => .error (.canonicalization ⟨[], .invalid_json⟩)

/-! ## The profile -/

/-- A key that is an ASCII string. -/
def Key.IsAscii : Key → Prop
  | .str s => isAscii s = true
  | .other _ => False

section profile

variable {F : Type}

theorem Value.induct {P : Value F → Prop} (none : P .none) (bool : ∀ b, P (.bool b))
    (int : ∀ i, P (.int i)) (float : ∀ x, P (.float x)) (str : ∀ s, P (.str s))
    (list : ∀ xs, (∀ x ∈ xs, P x) → P (.list xs)) (tuple : ∀ xs, (∀ x ∈ xs, P x) → P (.tuple xs))
    (dict : ∀ entries, (∀ e ∈ entries, P e.2) → P (.dict entries)) (other : ∀ n, P (.other n))
    (v : Value F) : P v :=
  Value.rec (motive_1 := P) (motive_2 := fun xs => ∀ x ∈ xs, P x)
    (motive_3 := fun entries => ∀ e ∈ entries, P e.2) (motive_4 := fun e => P e.2)
    none bool int float str list tuple dict other
    (fun _ h => absurd h List.not_mem_nil)
    (fun _ _ hx hxs _ h => (List.mem_cons.mp h).elim (fun heq => heq ▸ hx) (hxs _))
    (fun _ h => absurd h List.not_mem_nil)
    (fun _ _ hx hxs _ h => (List.mem_cons.mp h).elim (fun heq => heq ▸ hx) (hxs _))
    (fun _ _ h => h) v

mutual

/-- The restricted profile. -/
def Value.InProfile : Value F → Prop
  | .none => True
  | .bool _ => True
  | .int i => SAFE_INT_MIN ≤ i ∧ i ≤ SAFE_INT_MAX
  | .float _ => False
  | .str s => (scalars s).isSome = true
  | .list xs => Value.AllInProfile xs
  | .tuple _ => False
  | .dict entries =>
    (∀ e ∈ entries, e.1.IsAscii) ∧ (entries.map Prod.fst).Nodup ∧ Value.EntriesInProfile entries
  | .other _ => False

def Value.AllInProfile : List (Value F) → Prop
  | [] => True
  | x :: xs => x.InProfile ∧ Value.AllInProfile xs

def Value.EntriesInProfile : List (Key × Value F) → Prop
  | [] => True
  | (_, v) :: entries => v.InProfile ∧ Value.EntriesInProfile entries

end

end profile

end MuseAgentSocial.Canonical
