import Mathlib
import MuseAgentSocial.Lib.JsonTree
import MuseAgentSocial.Canonical.RoundTrip

/-!
# What `strict_parse` raises

`strict_parse` turns what the library raises into its own error, but for the `ValueError`
of `int` on a literal of more than `INT_MAX_STR_DIGITS` digits.

* `Acceptable` is a text's tree without a duplicate key, a constant or such a literal.
* `build_ok_iff`: the hooks accept exactly these trees.
* `strict_parse_fails_closed`: `strict_parse` returns the value of an acceptable tree or
  raises its own error, exactly when the decoder does not come to a literal that is too
  long, after acceptable values only.
-/

namespace MuseAgentSocial.Canonical

open Json

/-- A literal that `int` refuses. -/
def TooLong (literal : List Char) : Prop := INT_MAX_STR_DIGITS < (literalDigits literal).length

mutual

/-- No object has a duplicate key, no constant occurs, and no integer is too long. -/
def Acceptable : Tree → Prop
  | .null => True
  | .bool _ => True
  | .str _ => True
  | .int literal => ¬TooLong literal
  | .float _ => True
  | .constant _ => False
  | .array xs => AllAcceptable xs
  | .object pairs => (pairs.map Prod.fst).Nodup ∧ MembersAcceptable pairs

def AllAcceptable : List Tree → Prop
  | [] => True
  | t :: ts => Acceptable t ∧ AllAcceptable ts

def MembersAcceptable : List (Text × Tree) → Prop
  | [] => True
  | (_, t) :: ps => Acceptable t ∧ MembersAcceptable ps

end

section hooks

variable {F : Type} {parseFloat : List Char → F}

theorem buildAll_ok_iff {xs : List Tree}
    (ih : ∀ t ∈ xs, (∃ v, t.build (hooks parseFloat) = .ok v) ↔ Acceptable t) :
    (∃ vs, Tree.buildAll (hooks parseFloat) xs = .ok vs) ↔ AllAcceptable xs := by
  induction xs with
  | nil => simp [Tree.buildAll, AllAcceptable]
  | cons t ts ihts =>
    rw [List.forall_mem_cons] at ih
    rw [AllAcceptable, ← ih.1, ← ihts ih.2, Tree.buildAll]
    simp only [bind_eq_ok_iff, map_eq_ok_iff]
    constructor
    · rintro ⟨_, v, hv, vs, hvs, -⟩
      exact ⟨⟨v, hv⟩, vs, hvs⟩
    · rintro ⟨⟨v, hv⟩, vs, hvs⟩
      exact ⟨_, v, hv, vs, hvs, rfl⟩

/-- The keys of what is built are the keys of the text. -/
theorem buildMembers_ok_iff {ps : List (Text × Tree)}
    (ih : ∀ p ∈ ps, (∃ v, p.2.build (hooks parseFloat) = .ok v) ↔ Acceptable p.2) :
    (∃ vs, Tree.buildMembers (hooks parseFloat) ps = .ok vs ∧ vs.map Prod.fst = ps.map Prod.fst) ↔
      MembersAcceptable ps := by
  induction ps with
  | nil => simp [Tree.buildMembers, MembersAcceptable]
  | cons p ps ihps =>
    obtain ⟨key, t⟩ := p
    rw [List.forall_mem_cons] at ih
    rw [MembersAcceptable, ← ih.1, ← ihps ih.2, Tree.buildMembers]
    simp only [bind_eq_ok_iff, map_eq_ok_iff]
    constructor
    · rintro ⟨_, ⟨v, hv, vs, hvs, rfl⟩, hkeys⟩
      exact ⟨⟨v, hv⟩, vs, hvs, (List.cons.inj hkeys).2⟩
    · rintro ⟨⟨v, hv⟩, vs, hvs, hkeys⟩
      exact ⟨_, ⟨v, hv, vs, hvs, rfl⟩, by simp [hkeys]⟩

theorem keys_of_buildMembers {ps : List (Text × Tree)} {vs : List (Text × Value F)}
    (h : Tree.buildMembers (hooks parseFloat) ps = .ok vs) : vs.map Prod.fst = ps.map Prod.fst := by
  induction ps generalizing vs with
  | nil =>
    obtain rfl := Except.ok.inj h
    rfl
  | cons p ps ih =>
    obtain ⟨key, t⟩ := p
    rw [Tree.buildMembers, bind_eq_ok_iff] at h
    obtain ⟨v, -, hrest⟩ := h
    obtain ⟨ws, hws, rfl⟩ := map_eq_ok_iff.mp hrest
    simp [ih hws]

theorem build_ok_iff (t : Tree) : (∃ v, t.build (hooks parseFloat) = .ok v) ↔ Acceptable t := by
  induction t using Tree.induct with
  | null => exact ⟨fun _ => trivial, fun _ => ⟨_, rfl⟩⟩
  | bool b => exact ⟨fun _ => trivial, fun _ => ⟨_, rfl⟩⟩
  | str s => exact ⟨fun _ => trivial, fun _ => ⟨_, rfl⟩⟩
  | float text => exact ⟨fun _ => trivial, fun _ => ⟨_, rfl⟩⟩
  | int text =>
    show (∃ v, parseInt text = .ok v) ↔ ¬TooLong text
    rw [parseInt, TooLong]
    split_ifs with hlong <;> simp [hlong]
  | constant name =>
    show (∃ v, Except.error _ = Except.ok v) ↔ False
    simp
  | array xs ih =>
    rw [Acceptable, ← buildAll_ok_iff ih, Tree.build]
    simp only [map_eq_ok_iff]
    constructor
    · rintro ⟨_, vs, hvs, _⟩
      exact ⟨vs, hvs⟩
    · rintro ⟨vs, hvs⟩
      exact ⟨_, vs, hvs, rfl⟩
  | object ps ih =>
    rw [Acceptable, ← buildMembers_ok_iff ih, Tree.build]
    simp only [bind_eq_ok_iff]
    constructor
    · rintro ⟨v, vs, hvs, hv⟩
      have hkeys := keys_of_buildMembers hvs
      refine ⟨?_, vs, hvs, hkeys⟩
      by_contra hdup
      have hreject : rejectDuplicateKeys vs = .error ⟨[], .duplicate_key⟩ := by
        rw [rejectDuplicateKeys, if_neg (by rw [hkeys]; exact hdup)]
      have hv' : (rejectDuplicateKeys vs).mapError Raised.canonicalization = .ok v := hv
      rw [hreject] at hv'
      simp [Except.mapError] at hv'
    · rintro ⟨hnodup, vs, hvs, hkeys⟩
      exact ⟨_, vs, hvs, hooks_object (if_pos (by rw [hkeys]; exact hnodup))⟩

variable (parseFloat) in
theorem strictParse_eq_value_error_iff (limit : Nat) (data : ByteArray) :
    strictParse parseFloat limit data = .error .value_error ↔
      ∃ text, String.fromUTF8? data = some text ∧ text.toList.head? ≠ some '\ufeff' ∧
        Comes Raised TooLong Acceptable .value limit (skipSpace text.toList) := by
  have hloads : ∀ s, loads (hooks parseFloat) limit s = .error (.hook .value_error) ↔
      s.head? ≠ some '\ufeff' ∧ Comes Raised TooLong Acceptable .value limit (skipSpace s) := by
    refine loads_eq_error_iff ?_ (fun t => (build_ok_iff t).symm) ?_ ?_ limit
    · intro text
      show parseInt text = .error .value_error ↔ TooLong text
      rw [parseInt, TooLong]
      split_ifs with hlong <;> simp [hlong]
    · intro name hname
      simp [hooks] at hname
    · intro pairs hpairs
      have hpairs' : (rejectDuplicateKeys pairs).mapError Raised.canonicalization = .error .value_error := hpairs
      cases hreject : rejectDuplicateKeys pairs <;> simp [hreject, Except.mapError] at hpairs'
  unfold strictParse
  cases String.fromUTF8? data with
  | none => simp
  | some text =>
    simp only [Option.some.injEq, exists_eq_left', ← hloads]
    cases loads (hooks parseFloat) limit text.toList with
    | ok v => simp
    | error e => cases e <;> simp

end hooks

section strict

variable {F : Type} (parseFloat : List Char → F) (limit : Nat) (data : ByteArray)

/-- `strict_parse` either returns a value that has been read from an acceptable text, or
raises its own error. -/
def FailsClosed : Prop :=
  (∀ v, strictParse parseFloat limit data = .ok v →
    ∃ text t, String.fromUTF8? data = some text ∧ loads (treeHooks Raised) limit text.toList = .ok t ∧
      Acceptable t ∧ t.build (hooks parseFloat) = .ok v) ∧
  ∀ r, strictParse parseFloat limit data = .error r → ∃ e, r = .canonicalization e

/-- `strict_parse` fails closed exactly when the decoder does not come to an integer
literal that is too long. -/
theorem strict_parse_fails_closed :
    FailsClosed parseFloat limit data ↔
      ¬∃ text, String.fromUTF8? data = some text ∧ text.toList.head? ≠ some '\ufeff' ∧
        Comes Raised TooLong Acceptable .value limit (skipSpace text.toList) := by
  rw [← strictParse_eq_value_error_iff parseFloat]
  constructor
  · rintro ⟨-, hraised⟩ hvalue
    obtain ⟨e, he⟩ := hraised _ hvalue
    exact absurd he (by simp)
  · intro hne
    refine ⟨fun v hv => ?_, fun r hr => ?_⟩
    · unfold strictParse at hv
      cases htext : String.fromUTF8? data with
      | none => simp [htext] at hv
      | some text =>
        simp only [htext] at hv
        cases hloads : loads (hooks parseFloat) limit text.toList with
        | error e => cases e <;> simp [hloads] at hv
        | ok w =>
          simp only [hloads, Except.ok.injEq] at hv
          subst hv
          obtain ⟨t, ht, hbuild⟩ := loads_ok hloads
          exact ⟨text, t, rfl, ht, (build_ok_iff t).mp ⟨w, hbuild⟩, hbuild⟩
    · cases r with
      | canonicalization e => exact ⟨e, rfl⟩
      | value_error => exact absurd hr hne

end strict

/-- The least integer with 4301 digits. -/
def longInteger : Int := 10 ^ INT_MAX_STR_DIGITS

theorem tooLong_pow {k : Nat} (hk : INT_MAX_STR_DIGITS ≤ k) (hpos : 0 < k) : TooLong (intText (10 ^ k)) := by
  have hlong : ¬(Nat.toDigits 10 (10 ^ k)).length ≤ k := by
    rw [Nat.length_toDigits_le_iff (by decide) hpos]
    exact lt_irrefl _
  have habs : ((10 : Int) ^ k).natAbs = 10 ^ k := by
    rw [Int.natAbs_pow]
    rfl
  rw [TooLong, literalDigits_intText, habs]
  omega

/-- An integer of 4301 digits is not refused with the error that the callers catch. -/
theorem long_integer_escapes :
    ¬FailsClosed (fun _ => ()) 1000 (String.ofList (intText longInteger)).toUTF8 := by
  rintro ⟨-, hraised⟩
  have hvalue : strictParse (fun _ => ()) 1000 (String.ofList (intText longInteger)).toUTF8 =
      .error .value_error := by
    rw [strictParse_eq_value_error_iff]
    refine ⟨_, fromUTF8?_toUTF8 _, ?_, ?_⟩
    · rw [String.toList_ofList]
      obtain ⟨c, t, htext, -, -, -, hbom⟩ := begins_intText longInteger
      rw [htext]
      exact fun heq => hbom (Option.some.inj heq)
    · rw [String.toList_ofList, (begins_intText _).skipSpace]
      have hnumber := scanNumber_intText (h := treeHooks Raised) longInteger ends_nil
      rw [List.append_nil] at hnumber
      exact .literal hnumber (tooLong_pow le_rfl (by decide))
  obtain ⟨e, he⟩ := hraised _ hvalue
  exact absurd he (by simp)

end MuseAgentSocial.Canonical
