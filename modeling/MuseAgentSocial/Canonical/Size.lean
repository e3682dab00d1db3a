import Mathlib.Algebra.GroupWithZero.Nat
import MuseAgentSocial.Canonical.RoundTrip

/-!
# The size of canonical JSON

`Value.size` is the number of bytes that a value takes: the bytes of its parts, and what
stands between them.  The order of the keys does not matter.
-/

namespace MuseAgentSocial.Canonical

open Json

/-! ## Characters -/

/-- The number of bytes of a text in UTF-8. -/
def utf8Size (cs : List Char) : Nat := (cs.map Char.utf8Size).sum

@[simp] theorem utf8Size_nil : utf8Size [] = 0 := rfl

@[simp] theorem utf8Size_cons (c : Char) (cs : List Char) : utf8Size (c :: cs) = c.utf8Size + utf8Size cs := rfl

@[simp] theorem utf8Size_append (cs ds : List Char) : utf8Size (cs ++ ds) = utf8Size cs + utf8Size ds := by
  simp [utf8Size]

theorem size_toUTF8 (cs : List Char) : (String.ofList cs).toUTF8.size = utf8Size cs := by
  show (String.ofList cs).utf8ByteSize = utf8Size cs
  induction cs with
  | nil => rfl
  | cons c cs ih =>
    rw [← List.singleton_append, String.ofList_append, String.utf8ByteSize_append, ih, utf8Size_append]
    have hsingle : (String.ofList [c]).utf8ByteSize = c.utf8Size := String.utf8ByteSize_singleton
    rw [hsingle]
    rfl

/-- The bytes of a code point between quotes. -/
def pointSize : CodePoint → Nat
  | .scalar c => utf8Size (escapeChar c)
  | .surrogate _ => 0

/-- The bytes of a text between quotes. -/
def escapedSize (s : Text) : Nat := (s.map pointSize).sum

theorem escapedSize_append (s t : Text) : escapedSize (s ++ t) = escapedSize s + escapedSize t := by
  simp [escapedSize]

theorem utf8Size_escaped (cs : List Char) : utf8Size (cs.flatMap escapeChar) = escapedSize (cs.map .scalar) := by
  induction cs with
  | nil => rfl
  | cons c cs ih =>
    rw [List.flatMap_cons, utf8Size_append, ih]
    rfl

/-- A decimal number takes one byte for each digit. -/
theorem utf8Size_toDigits (n : Nat) : utf8Size (Nat.toDigits 10 n) = (Nat.toDigits 10 n).length := by
  have hone : ∀ c ∈ Nat.toDigits 10 n, Char.utf8Size c = 1 := by
    intro c hc
    have hdigit := Nat.isDigit_of_mem_toDigits (by omega) (by omega) hc
    rw [Char.isDigit, Bool.and_eq_true, decide_eq_true_eq, decide_eq_true_eq] at hdigit
    have hnine : ('9' : Char).val ≤ 127 := by decide
    exact Char.utf8Size_eq_one_iff.mpr (UInt32.le_trans hdigit.2 hnine)
  rw [utf8Size, List.map_congr_left hone, List.map_const', List.sum_replicate_nat, Nat.mul_one]

theorem utf8Size_joinCommas (parts : List (List Char)) :
    utf8Size (joinCommas parts) = (parts.map utf8Size).sum + (parts.length - 1) := by
  induction parts using joinCommas.induct with
  | case1 => rfl
  | case2 part => simp [joinCommas]
  | case3 part parts hne ih =>
    have hpos : 0 < parts.length := List.length_pos_iff.mpr hne
    have hcomma : ','.utf8Size = 1 := rfl
    rw [joinCommas, utf8Size_append, utf8Size_cons, ih, hcomma, List.map_cons, List.sum_cons, List.length_cons]
    · omega
    · exact hne

/-! ## Values -/

section values

variable {F : Type}

mutual

/-- The bytes of a value that is written. -/
def Value.size : Value F → Nat
  | .none => 4
  | .bool true => 4
  | .bool false => 5
  | .int i => utf8Size (intText i)
  | .float _ => 0
  | .str s => escapedSize s + 2
  | .list xs => Value.itemsSize xs + (xs.length - 1) + 2
  | .tuple xs => Value.itemsSize xs + (xs.length - 1) + 2
  | .dict entries => Value.entriesSize entries + (entries.length - 1) + 2
  | .other _ => 0

/-- The bytes of items without what stands between them. -/
def Value.itemsSize : List (Value F) → Nat
  | [] => 0
  | x :: xs => x.size + Value.itemsSize xs

/-- The bytes of members, with the quotes and the colon. -/
def Value.entriesSize : List (Key × Value F) → Nat
  | [] => 0
  | (k, v) :: entries => escapedSize k.text + 3 + v.size + Value.entriesSize entries

end

theorem itemsSize_eq (xs : List (Value F)) : Value.itemsSize xs = (xs.map Value.size).sum := by
  induction xs with
  | nil => rfl
  | cons x xs ih =>
    rw [List.map_cons, List.sum_cons, ← ih]
    rfl

theorem entriesSize_eq (es : List (Key × Value F)) :
    Value.entriesSize es = (es.map (fun e => escapedSize e.1.text + 3 + e.2.size)).sum := by
  induction es with
  | nil => rfl
  | cons e es ih =>
    rw [List.map_cons, List.sum_cons, ← ih]
    rfl

theorem size_str (s : Text) : (Value.str s : Value F).size = escapedSize s + 2 := rfl

theorem size_int (i : Int) : (Value.int i : Value F).size = utf8Size (intText i) := rfl

theorem size_dict (es : List (Key × Value F)) :
    (Value.dict es).size = (es.map (fun e => escapedSize e.1.text + 3 + e.2.size)).sum + (es.length - 1) + 2 := by
  rw [← entriesSize_eq]
  rfl

variable {nonFinite : F → Bool}

theorem itemsSize_of_encode {frames : Nat} {xs : List (Value F)}
    (ih : ∀ x ∈ xs, ∀ frames path out, encode nonFinite frames x path = .ok out → utf8Size out = x.size) {path : Text}
    {i : Nat} {parts : List (List Char)} (h : encodeItems nonFinite frames xs path i = parts.map .ok) :
    (parts.map utf8Size).sum = Value.itemsSize xs ∧ parts.length = xs.length := by
  induction xs generalizing i parts with
  | nil =>
    obtain rfl := List.map_eq_nil_iff.mp h.symm
    exact ⟨rfl, rfl⟩
  | cons x xs ihxs =>
    rw [List.forall_mem_cons] at ih
    cases parts with
    | nil => simp [encodeItems] at h
    | cons part parts =>
      rw [encodeItems, List.map_cons, List.cons.injEq] at h
      obtain ⟨hsum, hlength⟩ := ihxs ih.2 h.2
      rw [List.map_cons, List.sum_cons, ih.1 _ _ _ h.1, hsum, List.length_cons, hlength]
      exact ⟨rfl, rfl⟩

theorem entriesSize_of_encode {frames : Nat} {es : List (Key × Value F)}
    (ih : ∀ e ∈ es, ∀ frames path out, encode nonFinite frames e.2 path = .ok out → utf8Size out = e.2.size) {path : Text}
    {parts : List (List Char)}
    (h : es.map (fun e => member frames path (e.1.text, encode nonFinite frames e.2 (childPath path e.1.text))) =
      parts.map .ok) :
    (parts.map utf8Size).sum = (es.map (fun e => escapedSize e.1.text + 3 + e.2.size)).sum ∧ parts.length = es.length := by
  induction es generalizing parts with
  | nil =>
    obtain rfl := List.map_eq_nil_iff.mp h.symm
    exact ⟨rfl, rfl⟩
  | cons e es ihes =>
    rw [List.forall_mem_cons] at ih
    cases parts with
    | nil => simp at h
    | cons part parts =>
      rw [List.map_cons, List.map_cons, List.cons.injEq] at h
      obtain ⟨hsum, hlength⟩ := ihes ih.2 h.2
      obtain ⟨-, cs, out, hkey, hvalue, hpart⟩ := member_eq_ok_iff.mp h.1
      have hsize : utf8Size part = escapedSize e.1.text + 3 + e.2.size := by
        have hquote : '"'.utf8Size = 1 := rfl
        have hcolon : ':'.utf8Size = 1 := rfl
        rw [← hpart, utf8Size_cons, utf8Size_append, utf8Size_cons, utf8Size_cons, utf8Size_escaped, ← hkey,
          ih.1 _ _ _ hvalue, hquote, hcolon]
        omega
      rw [List.map_cons, List.sum_cons, hsize, hsum, List.length_cons, hlength]
      exact ⟨rfl, rfl⟩

theorem size_of_parts {parts : List (List Char)} {n k : Nat} (h : (parts.map utf8Size).sum = n ∧ parts.length = k)
    {first last : Char} (hfirst : first.utf8Size = 1) (hlast : last.utf8Size = 1) :
    utf8Size (first :: joinCommas parts ++ [last]) = n + (k - 1) + 2 := by
  rw [List.cons_append, utf8Size_cons, utf8Size_append, utf8Size_joinCommas, utf8Size_cons, utf8Size_nil, h.1, h.2, hfirst,
    hlast]
  omega

/-- The bytes of what is written. -/
theorem utf8Size_encode (v : Value F) :
    ∀ frames path out, encode nonFinite frames v path = .ok out → utf8Size out = v.size := by
  induction v using Value.induct with
  | none =>
    intro frames path out h
    obtain ⟨n, rfl⟩ := frames_of_encode h
    rw [← Except.ok.inj h]
    rfl
  | bool b =>
    intro frames path out h
    obtain ⟨n, rfl⟩ := frames_of_encode h
    cases b <;> (rw [← Except.ok.inj h]; rfl)
  | int i =>
    intro frames path out h
    obtain ⟨n, rfl⟩ := frames_of_encode h
    rw [encode] at h
    split at h
    · rw [← Except.ok.inj h]
      rfl
    · exact (raiseCanonicalization_ne_ok _ _ _ _ h).elim
  | float x =>
    intro frames path out h
    obtain ⟨n, rfl⟩ := frames_of_encode h
    exact (raiseCanonicalization_ne_ok _ _ _ _ h).elim
  | str s =>
    intro frames path out h
    obtain ⟨n, rfl⟩ := frames_of_encode h
    obtain ⟨-, cs, hcs, rfl⟩ := encodeString_eq_ok_iff.mp h
    have hquote : '"'.utf8Size = 1 := rfl
    rw [List.cons_append, utf8Size_cons, utf8Size_append, utf8Size_escaped, ← hcs, utf8Size_cons, hquote, utf8Size_nil]
    show 1 + (escapedSize s + 1) = escapedSize s + 2
    omega
  | list xs ih =>
    intro frames path out h
    obtain ⟨n, rfl⟩ := frames_of_encode h
    obtain ⟨parts, hparts, rfl⟩ := map_eq_ok_iff.mp h
    exact size_of_parts (itemsSize_of_encode ih (collect_eq_ok_iff.mp hparts)) rfl rfl
  | tuple xs ih =>
    intro frames path out h
    obtain ⟨n, rfl⟩ := frames_of_encode h
    obtain ⟨parts, hparts, rfl⟩ := map_eq_ok_iff.mp h
    exact size_of_parts (itemsSize_of_encode ih (collect_eq_ok_iff.mp hparts)) rfl rfl
  | dict es ih =>
    intro frames path out h
    obtain ⟨n, rfl⟩ := frames_of_encode h
    obtain ⟨-, -, parts, hparts, rfl⟩ := encode_dict_eq_ok_iff.mp h
    have hsorted := entriesSize_of_encode (fun e he => ih e (List.mem_mergeSort.mp he)) (collect_eq_ok_iff.mp hparts)
    have hperm := List.mergeSort_perm es entryLe
    rw [(hperm.map _).sum_nat, ← entriesSize_eq, hperm.length_eq] at hsorted
    exact size_of_parts hsorted rfl rfl
  | other m =>
    intro frames path out h
    obtain ⟨n, rfl⟩ := frames_of_encode h
    exact (raiseCanonicalization_ne_ok _ _ _ _ h).elim

theorem size_restrictedJcs {frames : Nat} {v : Value F} {data : ByteArray}
    (h : restrictedJcs nonFinite frames v = .ok data) : data.size = v.size := by
  obtain ⟨n, out, -, hout, rfl⟩ := restrictedJcs_eq_ok_iff.mp h
  rw [size_toUTF8, utf8Size_encode v n [] out hout]

end values

end MuseAgentSocial.Canonical
