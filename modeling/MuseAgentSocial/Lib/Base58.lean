import Mathlib

/-!
# Base58

The codec of the Bitcoin alphabet, on characters.

* `b58encode` writes a `1` for each leading zero byte and the rest as one number in base 58.
* `b58decode` drops the whitespace at the end, and is `none` on a character that is not of
  the alphabet.
* `b58decode_b58encode`: what is written is read back.
* `b58encode_b58decode`: what is read was written, but for the whitespace.
* `length_b58encode`: how many characters bytes of a fixed size take.
-/

namespace Base58

/-- The digits, by their values. -/
def alphabet : List Char := "123456789ABCDEFGHJKLMNPQRSTUVWXYZabcdefghijkmnopqrstuvwxyz".toList

/-- The digit of a value below 58. -/
def digit (n : Nat) : Char := alphabet.getD n '1'

/-- The value of a digit. -/
def value (c : Char) : Option Nat := alphabet.idxOf? c

/-- The number of the bytes, the first one the most significant. -/
def number (bytes : List UInt8) : Nat := Nat.ofDigits 256 (bytes.map UInt8.toNat).reverse

/-- `b58encode` -/
def b58encode (bytes : List UInt8) : List Char :=
  List.replicate (bytes.takeWhile (· == 0)).length '1' ++ ((Nat.digits 58 (number bytes)).map digit).reverse

/-- The characters that `str.rstrip` drops. -/
def spaces : List Nat :=
  [0x09, 0x0A, 0x0B, 0x0C, 0x0D, 0x1C, 0x1D, 0x1E, 0x1F, 0x20, 0x85, 0xA0, 0x1680, 0x2000, 0x2001, 0x2002, 0x2003,
    0x2004, 0x2005, 0x2006, 0x2007, 0x2008, 0x2009, 0x200A, 0x2028, 0x2029, 0x202F, 0x205F, 0x3000]

/-- `str.isspace` of one character. -/
def isSpace (c : Char) : Bool := spaces.contains c.toNat

/-- `b58decode` -/
def b58decode (text : List Char) : Option (List UInt8) :=
  let stripped := text.rdropWhile isSpace
  (stripped.mapM value).map fun values =>
    List.replicate (stripped.takeWhile (· == '1')).length 0 ++
      ((Nat.digits 256 (Nat.ofDigits 58 values.reverse)).map UInt8.ofNat).reverse

/-! ## Leading zeros and a number -/

section positional

variable {b : Nat} {ns : List Nat}

/-- The number of zeros at the front. -/
def zeros (ns : List Nat) : Nat := (ns.takeWhile (· == 0)).length

/-- A number of zeros, and the digits of a number. -/
def expand (b k n : Nat) : List Nat := List.replicate k 0 ++ (Nat.digits b n).reverse

theorem expand_zeros (hb : 1 < b) (h : ∀ n ∈ ns, n < b) : expand b (zeros ns) (Nat.ofDigits b ns.reverse) = ns := by
  induction ns with
  | nil => simp [expand, zeros]
  | cons n ns ih =>
    by_cases hn : n = 0
    · subst hn
      have hnumber : Nat.ofDigits b (0 :: ns).reverse = Nat.ofDigits b ns.reverse := by
        simp [Nat.ofDigits_append]
      have hzeros : zeros (0 :: ns) = zeros ns + 1 := by simp [zeros]
      have hrest := ih (fun m hm => h m (List.mem_cons_of_mem _ hm))
      rw [hnumber, hzeros, expand, List.replicate_succ, List.cons_append]
      exact congrArg (0 :: ·) hrest
    · have hzeros : zeros (n :: ns) = 0 := by simp [zeros, hn]
      have hdigits : Nat.digits b (Nat.ofDigits b (n :: ns).reverse) = (n :: ns).reverse := by
        refine Nat.digits_ofDigits b hb _ (fun m hm => h m (List.mem_reverse.mp hm)) (fun hne => ?_)
        rw [List.getLast_reverse]
        exact hn
      rw [hzeros, expand, hdigits, List.reverse_reverse]
      rfl

theorem zeros_digits (b n : Nat) : zeros (Nat.digits b n).reverse = 0 := by
  unfold zeros
  rw [List.length_eq_zero_iff, ← List.reverse_eq_nil_iff]
  show (Nat.digits b n).rtakeWhile (· == 0) = []
  rw [List.rtakeWhile_eq_nil_iff]
  intro hne
  rw [beq_iff_eq]
  exact Nat.getLast_digit_ne_zero b (Nat.digits_ne_nil_iff_ne_zero.mp hne)

theorem zeros_expand (b k n : Nat) : zeros (expand b k n) = k := by
  have hrest := zeros_digits b n
  unfold zeros expand at *
  rw [List.takeWhile_append_of_pos (fun m hm => by simp [List.eq_of_mem_replicate hm]), List.length_append,
    List.length_replicate, hrest]
  rfl

theorem ofDigits_expand (b k n : Nat) : Nat.ofDigits b (expand b k n).reverse = n := by
  rw [expand, List.reverse_append, List.reverse_reverse, List.reverse_replicate, Nat.ofDigits_append, Nat.ofDigits_digits,
    Nat.ofDigits_replicate_zero, Nat.mul_zero, Nat.add_zero]

theorem expand_lt {k n m : Nat} (hb : 1 < b) (h : m ∈ expand b k n) : m < b := by
  rcases List.mem_append.mp h with hzero | hdigit
  · rw [List.eq_of_mem_replicate hzero]
    omega
  · exact Nat.digits_lt_base hb (List.mem_reverse.mp hdigit)

end positional

/-! ## Characters and bytes -/

theorem value_digit {n : Nat} (h : n < 58) : value (digit n) = some n := by
  have hall : ∀ n < 58, value (digit n) = some n := by decide
  exact hall n h

theorem digit_value {c : Char} {n : Nat} (h : value c = some n) : n < 58 ∧ digit n = c := by
  obtain ⟨hlt, hget, -⟩ := List.idxOf?_eq_some_iff.mp h
  exact ⟨hlt, by rw [digit, List.getD_eq_getElem _ _ hlt, hget]⟩

theorem digit_eq_one_iff {n : Nat} (h : n < 58) : digit n = '1' ↔ n = 0 := by
  have hall : ∀ n < 58, digit n = '1' ↔ n = 0 := by decide
  exact hall n h

theorem digit_ascii {n : Nat} (h : n < 58) : isSpace (digit n) = false ∧ (digit n).toNat < 128 := by
  have hall : ∀ n < 58, isSpace (digit n) = false ∧ (digit n).toNat < 128 := by decide
  exact hall n h

/-- The ones at the front are the leading zeros. -/
theorem takeWhile_map_digit {ns : List Nat} (h : ∀ n ∈ ns, n < 58) :
    ((ns.map digit).takeWhile (· == '1')).length = zeros ns := by
  unfold zeros
  induction ns with
  | nil => rfl
  | cons n ns ih =>
    rw [List.forall_mem_cons] at h
    by_cases hn : n = 0
    · rw [List.map_cons, List.takeWhile_cons_of_pos (by simpa using (digit_eq_one_iff h.1).mpr hn),
        List.takeWhile_cons_of_pos (by simpa using hn), List.length_cons, List.length_cons, ih h.2]
    · rw [List.map_cons, List.takeWhile_cons_of_neg (by simpa using mt (digit_eq_one_iff h.1).mp hn),
        List.takeWhile_cons_of_neg (by simpa using hn)]
      rfl

theorem zeros_map_toNat (bytes : List UInt8) : zeros (bytes.map UInt8.toNat) = (bytes.takeWhile (· == 0)).length := by
  have hzero : (fun a : UInt8 => a.toNat == 0) = (· == 0) := by
    funext a
    rw [Bool.eq_iff_iff, beq_iff_eq, beq_iff_eq]
    exact UInt8.toNat_inj (b := 0)
  rw [zeros, List.takeWhile_map, List.length_map]
  show (bytes.takeWhile (fun a : UInt8 => a.toNat == 0)).length = _
  rw [hzero]

theorem map_toNat_ofNat {ns : List Nat} (h : ∀ n ∈ ns, n < 256) : (ns.map UInt8.ofNat).map UInt8.toNat = ns := by
  rw [List.map_map]
  conv_rhs => rw [← List.map_id ns]
  exact List.map_congr_left (fun n hn => UInt8.toNat_ofNat_of_lt' (h n hn))

theorem map_ofNat_toNat (bytes : List UInt8) : (bytes.map UInt8.toNat).map UInt8.ofNat = bytes := by
  simp [Function.comp_def]

theorem mapM_value {ns : List Nat} (h : ∀ n ∈ ns, n < 58) : (ns.map digit).mapM value = some ns := by
  induction ns with
  | nil => rfl
  | cons n ns ih =>
    rw [List.forall_mem_cons] at h
    simp [value_digit h.1, ih h.2]

theorem eq_map_digit {cs : List Char} {ns : List Nat} (h : cs.mapM value = some ns) :
    (∀ n ∈ ns, n < 58) ∧ ns.map digit = cs := by
  induction cs generalizing ns with
  | nil =>
    obtain rfl : [] = ns := Option.some.inj h
    simp
  | cons c cs ih =>
    rw [List.mapM_cons] at h
    obtain ⟨n, hn, hrest⟩ := Option.bind_eq_some_iff.mp h
    obtain ⟨ms, hms, heq⟩ := Option.bind_eq_some_iff.mp hrest
    obtain rfl := Option.some.inj heq
    obtain ⟨hlt, hdigit⟩ := digit_value hn
    obtain ⟨hall, hmap⟩ := ih hms
    exact ⟨List.forall_mem_cons.mpr ⟨hlt, hall⟩, by rw [List.map_cons, hdigit, hmap]⟩

/-! ## The codec as digits -/

theorem b58encode_eq_map (bytes : List UInt8) :
    b58encode bytes = (expand 58 (zeros (bytes.map UInt8.toNat)) (number bytes)).map digit := by
  have hzero : digit 0 = '1' := (digit_eq_one_iff (by omega)).mpr rfl
  rw [b58encode, expand, List.map_append, List.map_replicate, List.map_reverse, hzero, zeros_map_toNat]

theorem rdropWhile_map_digit {ns : List Nat} (h : ∀ n ∈ ns, n < 58) :
    (ns.map digit).rdropWhile isSpace = ns.map digit := by
  rw [List.rdropWhile_eq_self_iff]
  intro hne
  obtain ⟨n, hn, heq⟩ := List.mem_map.mp (List.getLast_mem hne)
  rw [← heq, (digit_ascii (h n hn)).1]
  decide

theorem b58decode_eq_some_iff {text : List Char} {bytes : List UInt8} :
    b58decode text = some bytes ↔
      ∃ ns : List Nat, (∀ n ∈ ns, n < 58) ∧ text.rdropWhile isSpace = ns.map digit ∧
        bytes = (expand 256 (zeros ns) (Nat.ofDigits 58 ns.reverse)).map UInt8.ofNat := by
  have hzeros (k : Nat) : List.replicate k (0 : UInt8) = (List.replicate k 0).map UInt8.ofNat := by
    rw [List.map_replicate]
    rfl
  unfold b58decode
  dsimp only
  rw [Option.map_eq_some_iff]
  constructor
  · rintro ⟨ns, hns, rfl⟩
    obtain ⟨hall, hmap⟩ := eq_map_digit hns
    refine ⟨ns, hall, hmap.symm, ?_⟩
    rw [← hmap, takeWhile_map_digit hall, expand, List.map_append, List.map_reverse, hzeros]
  · rintro ⟨ns, hall, htext, rfl⟩
    refine ⟨ns, by rw [htext, mapM_value hall], ?_⟩
    rw [htext, takeWhile_map_digit hall, expand, List.map_append, List.map_reverse, hzeros]

/-- What is written is read back. -/
theorem b58decode_b58encode (bytes : List UInt8) : b58decode (b58encode bytes) = some bytes := by
  have hall : ∀ n ∈ expand 58 (zeros (bytes.map UInt8.toNat)) (number bytes), n < 58 :=
    fun n hn => expand_lt (by omega) hn
  refine b58decode_eq_some_iff.mpr ⟨_, hall, by rw [b58encode_eq_map, rdropWhile_map_digit hall], ?_⟩
  rw [zeros_expand, ofDigits_expand, number, expand_zeros (by omega), map_ofNat_toNat]
  intro n hn
  obtain ⟨a, -, rfl⟩ := List.mem_map.mp hn
  exact a.toNat_lt

/-- What is read was written, but for the whitespace at the end. -/
theorem b58encode_b58decode {text : List Char} {bytes : List UInt8} (h : b58decode text = some bytes) :
    b58encode bytes = text.rdropWhile isSpace := by
  obtain ⟨ns, hall, htext, rfl⟩ := b58decode_eq_some_iff.mp h
  have hbytes := map_toNat_ofNat (fun n hn => expand_lt (b := 256) (k := zeros ns) (n := Nat.ofDigits 58 ns.reverse)
    (by omega) hn)
  rw [b58encode_eq_map, number, hbytes, zeros_expand, ofDigits_expand, expand_zeros (by omega) hall, htext]

/-! ## The length -/

theorem number_cons (a : UInt8) (bytes : List UInt8) : number (a :: bytes) = number bytes + 256 ^ bytes.length * a.toNat := by
  rw [number, List.map_cons, List.reverse_cons, Nat.ofDigits_append, Nat.ofDigits_singleton, List.length_reverse, List.length_map]
  rfl

theorem number_lt (bytes : List UInt8) : number bytes < 256 ^ bytes.length := by
  have hlength : (bytes.map UInt8.toNat).reverse.length = bytes.length := by simp
  rw [← hlength]
  apply Nat.ofDigits_lt_base_pow_length (by omega)
  intro n hn
  obtain ⟨a, _, ha⟩ := List.mem_map.mp (List.mem_reverse.mp hn)
  exact ha ▸ a.toNat_lt

/-- The number of characters of bytes without a leading zero, from the size of their number. -/
theorem length_b58encode {a : UInt8} {bytes : List UInt8} {n : Nat} (ha : a ≠ 0) (hlow : 58 ^ n ≤ number (a :: bytes))
    (hhigh : number (a :: bytes) < 58 ^ (n + 1)) : (b58encode (a :: bytes)).length = n + 1 := by
  have hnone : (a :: bytes).takeWhile (· == 0) = [] := List.takeWhile_cons_of_neg (by simpa using ha)
  have hne : number (a :: bytes) ≠ 0 := by
    have hpos := Nat.pow_pos (n := n) (show 0 < 58 by omega)
    omega
  have hlog : Nat.log 58 (number (a :: bytes)) = n := Nat.log_eq_of_pow_le_of_lt_pow hlow hhigh
  rw [b58encode, hnone, List.length_append, List.length_reverse, List.length_map, Nat.length_digits 58 _ (by omega) hne, hlog]
  exact Nat.zero_add _

end Base58
