import Mathlib.Data.List.Basic

/-!
# Base64

The codec of RFC 4648 as CPython's `binascii` has it, on characters.

* `b2a` encodes with padding.
* `a2b` is the reader of `a2b_base64`.  It keeps the position in a group of four and the bits
  that are left over.  Without `strict` it passes over what is not of the alphabet, and it
  stops at a full padding.
* `a2b_b2a`: what `b2a` writes is read back, in both modes.
-/

namespace Base64

/-- The digit of a value below 64. -/
def digit (n : Nat) : Char :=
  if n < 26 then Char.ofNat (n + 65)
  else if n < 52 then Char.ofNat (n + 71)
  else if n < 62 then Char.ofNat (n - 4)
  else if n = 62 then '+' else '/'

/-- The value of a digit. -/
def value (c : Char) : Option Nat :=
  if 65 ≤ c.toNat ∧ c.toNat ≤ 90 then some (c.toNat - 65)
  else if 97 ≤ c.toNat ∧ c.toNat ≤ 122 then some (c.toNat - 71)
  else if 48 ≤ c.toNat ∧ c.toNat ≤ 57 then some (c.toNat + 4)
  else if c = '+' then some 62
  else if c = '/' then some 63
  else none

/-- `b2a_base64`, without the newline. -/
def b2a : List UInt8 → List Char
  | [] => []
  | [a] => [digit (a.toNat / 4), digit (a.toNat % 4 * 16), '=', '=']
  | [a, b] =>
    [digit (a.toNat / 4), digit (a.toNat % 4 * 16 + b.toNat / 16), digit (b.toNat % 16 * 4), '=']
  | a :: b :: c :: rest =>
    digit (a.toNat / 4) :: digit (a.toNat % 4 * 16 + b.toNat / 16) ::
      digit (b.toNat % 16 * 4 + c.toNat / 64) :: digit (c.toNat % 64) :: b2a rest

/-- The state of the reader. -/
structure Reader where
  quad_pos : Nat := 0
  leftchar : Nat := 0
  pads : Nat := 0
  padding_started : Bool := false
  out : List UInt8 := []

/-- One digit is read. -/
def Reader.push (r : Reader) (v : Nat) : Reader :=
  match r.quad_pos with
  | 0 => { r with quad_pos := 1, leftchar := v, pads := 0 }
  | 1 => { r with quad_pos := 2, leftchar := v % 16, pads := 0, out := r.out ++ [UInt8.ofNat (r.leftchar * 4 + v / 16)] }
  | 2 => { r with quad_pos := 3, leftchar := v % 4, pads := 0, out := r.out ++ [UInt8.ofNat (r.leftchar * 16 + v / 4)] }
  | _ => { r with quad_pos := 0, leftchar := 0, pads := 0, out := r.out ++ [UInt8.ofNat (r.leftchar * 64 + v)] }

/-- The loop of `a2b_base64`. -/
def Reader.read (strict : Bool) (r : Reader) : List Char → Option (List UInt8)
  | [] => if r.quad_pos = 0 then some r.out else none
  | c :: cs =>
    if c = '=' then
      if 2 ≤ r.quad_pos ∧ 4 ≤ r.quad_pos + (r.pads + 1) then
        if strict && !cs.isEmpty then none else some r.out
      else
        Reader.read strict
          { r with padding_started := true, pads := if 2 ≤ r.quad_pos then r.pads + 1 else r.pads } cs
    else
      match value c with
      | none => if strict then none else Reader.read strict r cs
      | some v => if strict && r.padding_started then none else Reader.read strict (r.push v) cs

/-- `a2b_base64` -/
def a2b (strict : Bool) (text : List Char) : Option (List UInt8) :=
  if strict && text.head? == some '=' then none else Reader.read strict {} text

/-! ## What is written is read back -/

theorem value_digit {n : Nat} (h : n < 64) : value (digit n) = some n ∧ digit n ≠ '=' := by
  have hall : ∀ m : Fin 64, value (digit m) = some m.val ∧ digit m ≠ '=' := by decide
  exact hall ⟨n, h⟩

theorem read_digit (strict : Bool) {r : Reader} (hr : r.padding_started = false) {n : Nat} (h : n < 64)
    (cs : List Char) : Reader.read strict r (digit n :: cs) = Reader.read strict (r.push n) cs := by
  obtain ⟨hvalue, hpad⟩ := value_digit h
  rw [Reader.read, if_neg hpad, hvalue]
  simp [hr]

theorem ofNat_toNat_of_eq {a : UInt8} {n : Nat} (h : n = a.toNat) : UInt8.ofNat n = a := by
  rw [h, UInt8.ofNat_toNat]

/-- The reader at the beginning of a group reads back what is written. -/
theorem read_b2a (strict : Bool) (bytes : List UInt8) (out : List UInt8) :
    Reader.read strict { out := out } (b2a bytes) = some (out ++ bytes) := by
  induction bytes using b2a.induct generalizing out with
  | case1 => simp [b2a, Reader.read]
  | case2 a =>
    have ha := a.toNat_lt
    rw [b2a, read_digit strict rfl (by omega), read_digit strict rfl (by omega)]
    have hbyte : UInt8.ofNat (a.toNat / 4 * 4 + a.toNat % 4 * 16 / 16) = a := ofNat_toNat_of_eq (by omega)
    simp only [Reader.push, hbyte]
    simp [Reader.read]
  | case3 a b =>
    have ha := a.toNat_lt
    have hb := b.toNat_lt
    rw [b2a, read_digit strict rfl (by omega), read_digit strict rfl (by omega), read_digit strict rfl (by omega)]
    have hfirst : UInt8.ofNat (a.toNat / 4 * 4 + (a.toNat % 4 * 16 + b.toNat / 16) / 16) = a :=
      ofNat_toNat_of_eq (by omega)
    have hsecond : UInt8.ofNat ((a.toNat % 4 * 16 + b.toNat / 16) % 16 * 16 + b.toNat % 16 * 4 / 4) = b :=
      ofNat_toNat_of_eq (by omega)
    simp only [Reader.push, hfirst, hsecond]
    simp [Reader.read]
  | case4 a b c rest ih =>
    have ha := a.toNat_lt
    have hb := b.toNat_lt
    have hc := c.toNat_lt
    rw [b2a, read_digit strict rfl (by omega), read_digit strict rfl (by omega), read_digit strict rfl (by omega),
      read_digit strict rfl (by omega)]
    have hfirst : UInt8.ofNat (a.toNat / 4 * 4 + (a.toNat % 4 * 16 + b.toNat / 16) / 16) = a :=
      ofNat_toNat_of_eq (by omega)
    have hsecond : UInt8.ofNat ((a.toNat % 4 * 16 + b.toNat / 16) % 16 * 16 + (b.toNat % 16 * 4 + c.toNat / 64) / 4) = b :=
      ofNat_toNat_of_eq (by omega)
    have hthird : UInt8.ofNat ((b.toNat % 16 * 4 + c.toNat / 64) % 4 * 64 + c.toNat % 64) = c :=
      ofNat_toNat_of_eq (by omega)
    have hrest := ih (out ++ [a, b, c])
    simp only [Reader.push, hfirst, hsecond, hthird, List.append_assoc, List.cons_append, List.nil_append]
    rw [hrest]
    simp

theorem head_b2a (bytes : List UInt8) : (b2a bytes).head? ≠ some '=' := by
  have hne : ∀ a : UInt8, digit (a.toNat / 4) ≠ '=' := fun a => (value_digit (by have := a.toNat_lt; omega)).2
  cases bytes using b2a.fun_cases with
  | case1 => simp [b2a]
  | case2 a => simpa [b2a] using hne a
  | case3 a b => simpa [b2a] using hne a
  | case4 a b c rest => simpa [b2a] using hne a

/-- What is encoded is decoded, in both modes. -/
theorem a2b_b2a (strict : Bool) (bytes : List UInt8) : a2b strict (b2a bytes) = some bytes := by
  unfold a2b
  rw [if_neg (by simp [head_b2a bytes]), read_b2a, List.nil_append]

/-! ## What is written -/

/-- The bits that fill up the last digit are zero, and no digit stands alone. -/
def full : List Nat → Bool
  | [] => true
  | [_] => false
  | [_, b] => b % 16 == 0
  | [_, _, c] => c % 4 == 0
  | _ :: _ :: _ :: _ :: rest => full rest

/-- What is written is digits, and padding to a multiple of four. -/
theorem b2a_eq (bytes : List UInt8) :
    ∃ (ns : List Nat) (k : Nat), (∀ n ∈ ns, n < 64) ∧ full ns = true ∧ ns.length = (4 * bytes.length + 2) / 3 ∧ k < 3 ∧
      (ns.length + k) % 4 = 0 ∧ b2a bytes = ns.map digit ++ List.replicate k '=' := by
  induction bytes using b2a.induct with
  | case1 => exact ⟨[], 0, by simp, rfl, rfl, by omega, rfl, rfl⟩
  | case2 a =>
    have ha := a.toNat_lt
    refine ⟨[a.toNat / 4, a.toNat % 4 * 16], 2, ?_, ?_, by simp, by omega, by simp, rfl⟩
    · simp only [List.forall_mem_cons, List.not_mem_nil, false_imp_iff, implies_true, and_true]
      omega
    · rw [full, beq_iff_eq]
      omega
  | case3 a b =>
    have ha := a.toNat_lt
    have hb := b.toNat_lt
    refine ⟨[a.toNat / 4, a.toNat % 4 * 16 + b.toNat / 16, b.toNat % 16 * 4], 1, ?_, ?_, by simp, by omega, by simp, rfl⟩
    · simp only [List.forall_mem_cons, List.not_mem_nil, false_imp_iff, implies_true, and_true]
      omega
    · rw [full, beq_iff_eq]
      omega
  | case4 a b c rest ih =>
    have ha := a.toNat_lt
    have hb := b.toNat_lt
    have hc := c.toNat_lt
    obtain ⟨ns, k, hns, hfull, hcount, hk, hlen, hrest⟩ := ih
    refine ⟨a.toNat / 4 :: (a.toNat % 4 * 16 + b.toNat / 16) :: (b.toNat % 16 * 4 + c.toNat / 64) ::
      (c.toNat % 64) :: ns, k, ?_, hfull, ?_, hk, ?_, ?_⟩
    · simp only [List.forall_mem_cons]
      exact ⟨by omega, by omega, by omega, by omega, hns⟩
    · simp only [List.length_cons, hcount]
      omega
    · simp only [List.length_cons]
      omega
    · rw [b2a, hrest]
      rfl

theorem toNat_ofNat {n : Nat} (h : n < 256) : (UInt8.ofNat n).toNat = n := UInt8.toNat_ofNat_of_lt' h

/-- Digits with nothing left over are written of some bytes. -/
theorem exists_b2a {ns : List Nat} (hns : ∀ n ∈ ns, n < 64) (hfull : full ns = true) :
    ∃ bytes k, b2a bytes = ns.map digit ++ List.replicate k '=' := by
  induction ns using full.induct with
  | case1 => exact ⟨[], 0, rfl⟩
  | case2 a => simp [full] at hfull
  | case3 a b =>
    simp only [List.forall_mem_cons] at hns
    rw [full, beq_iff_eq] at hfull
    refine ⟨[UInt8.ofNat (a * 4 + b / 16)], 2, ?_⟩
    rw [b2a, toNat_ofNat (by omega), show (a * 4 + b / 16) / 4 = a by omega, show (a * 4 + b / 16) % 4 * 16 = b by omega]
    rfl
  | case4 a b c =>
    simp only [List.forall_mem_cons] at hns
    rw [full, beq_iff_eq] at hfull
    refine ⟨[UInt8.ofNat (a * 4 + b / 16), UInt8.ofNat (b % 16 * 16 + c / 4)], 1, ?_⟩
    rw [b2a, toNat_ofNat (by omega), toNat_ofNat (by omega), show (a * 4 + b / 16) / 4 = a by omega,
      show (a * 4 + b / 16) % 4 * 16 + (b % 16 * 16 + c / 4) / 16 = b by omega,
      show (b % 16 * 16 + c / 4) % 16 * 4 = c by omega]
    rfl
  | case5 a b c d rest ih =>
    simp only [List.forall_mem_cons] at hns
    obtain ⟨bytes, k, hbytes⟩ := ih hns.2.2.2.2 hfull
    refine ⟨UInt8.ofNat (a * 4 + b / 16) :: UInt8.ofNat (b % 16 * 16 + c / 4) :: UInt8.ofNat (c % 4 * 64 + d) :: bytes, k, ?_⟩
    rw [b2a, toNat_ofNat (by omega), toNat_ofNat (by omega), toNat_ofNat (by omega), hbytes,
      show (a * 4 + b / 16) / 4 = a by omega, show (a * 4 + b / 16) % 4 * 16 + (b % 16 * 16 + c / 4) / 16 = b by omega,
      show (b % 16 * 16 + c / 4) % 16 * 4 + (c % 4 * 64 + d) / 64 = c by omega, show (c % 4 * 64 + d) % 64 = d by omega]
    rfl

end Base64
