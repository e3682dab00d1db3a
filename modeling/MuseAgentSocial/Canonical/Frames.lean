import MuseAgentSocial.Canonical.RoundTrip

/-!
# The stack of the encoder

`_encode` calls itself for each container in a container, and `restricted_jcs` has no
`except RecursionError` as `strict_parse` has one.

* `Value.extent` is what the encoder takes of the stack for a value: the frames up to the
  first thing that it refuses, and whether there is none.
* `encode_fits`: with fewer frames the encoder raises `RecursionError`, and otherwise it
  writes the value or raises its own error.
* `depth_le_needs` and `needs_le` bound the frames by the nesting.
* `canonical_round_trip`: for which values the round trip holds.
-/

namespace MuseAgentSocial.Canonical

open Json

section extent

variable {F : Type}

/-! ## What a value takes -/

instance : DecidablePred Key.IsAscii
  | .str s => inferInstanceAs (Decidable (isAscii s = true))
  | .other _ => inferInstanceAs (Decidable False)

/-- The frames for parts that are written one after the other, up to the first that is
refused. -/
def upTo : List (Nat × Bool) → Nat
  | [] => 0
  | (n, true) :: rest => max n (upTo rest)
  | (n, false) :: _ => n

/-- A container with these parts. -/
def around (parts : List (Nat × Bool)) : Nat × Bool := (upTo parts + 1, parts.all Prod.snd)

mutual

/-- The frames that `_encode` takes up to the first thing in the value that is not in the
profile, a tuple being a list, and whether there is none.  A string takes a second one, and
so does the exception. -/
def Value.extent : Value F → Nat × Bool
  | .none => (1, true)
  | .bool _ => (1, true)
  | .int i => if SAFE_INT_MIN ≤ i ∧ i ≤ SAFE_INT_MAX then (1, true) else (2, false)
  | .float _ => (2, false)
  | .str s => if (scalars s).isSome then (2, true) else (3, false)
  | .list xs => around (Value.itemsExtent xs)
  | .tuple xs => around (Value.itemsExtent xs)
  | .dict es =>
    if (∀ k ∈ es.map Prod.fst, k.IsAscii) ∧ (es.map Prod.fst).Nodup then
      around (((Value.entriesExtent es).mergeSort (fun a b => keyLe a.1 b.1)).map Prod.snd)
    else (2, false)
  | .other _ => (2, false)

def Value.itemsExtent : List (Value F) → List (Nat × Bool)
  | [] => []
  | x :: xs => x.extent :: Value.itemsExtent xs

def Value.entriesExtent : List (Key × Value F) → List (Text × Nat × Bool)
  | [] => []
  | (k, v) :: es => (k.text, v.extent) :: Value.entriesExtent es

end

/-- The frames that the encoder takes. -/
def Value.needs (v : Value F) : Nat := v.extent.1

theorem itemsExtent_eq (xs : List (Value F)) : Value.itemsExtent xs = xs.map Value.extent := by
  induction xs with
  | nil => rfl
  | cons x xs ih => exact congrArg _ ih

theorem entriesExtent_eq (es : List (Key × Value F)) :
    Value.entriesExtent es = es.map (fun e => (e.1.text, e.2.extent)) := by
  induction es with
  | nil => rfl
  | cons e es ih => exact congrArg _ ih

/-- The entries of a dict in the order in which they are written. -/
theorem sorted_extent (es : List (Key × Value F)) :
    ((Value.entriesExtent es).mergeSort (fun a b => keyLe a.1 b.1)).map Prod.snd =
      (es.mergeSort entryLe).map (fun e => e.2.extent) := by
  have hsort : (es.map (fun e => (e.1.text, e.2.extent))).mergeSort (fun a b => keyLe a.1 b.1) =
      (es.mergeSort entryLe).map (fun e => (e.1.text, e.2.extent)) :=
    (List.map_mergeSort (f := fun e : Key × Value F => (e.1.text, e.2.extent)) (fun _ _ _ _ => rfl)).symm
  rw [entriesExtent_eq, hsort, List.map_map]
  rfl

theorem extent_list (xs : List (Value F)) : (Value.list xs).extent = around (xs.map Value.extent) := by
  rw [Value.extent, itemsExtent_eq]

theorem extent_tuple (xs : List (Value F)) : (Value.tuple xs).extent = around (xs.map Value.extent) := by
  rw [Value.extent, itemsExtent_eq]

theorem extent_dict (es : List (Key × Value F)) : (Value.dict es).extent =
    if (∀ k ∈ es.map Prod.fst, k.IsAscii) ∧ (es.map Prod.fst).Nodup then
      around ((es.mergeSort entryLe).map (fun e => e.2.extent))
    else (2, false) := by
  rw [Value.extent, sorted_extent]

theorem needs_pos (v : Value F) : 0 < v.needs := by
  unfold Value.needs
  cases v with
  | int i =>
    rw [Value.extent]
    split_ifs <;> decide
  | str s =>
    rw [Value.extent]
    split_ifs <;> decide
  | dict es =>
    rw [extent_dict]
    split_ifs
    · exact Nat.succ_pos _
    · decide
  | list xs => exact Nat.succ_pos _
  | tuple xs => exact Nat.succ_pos _
  | _ => exact Nat.succ_pos _

theorem upTo_le {parts : List (Nat × Bool)} {n : Nat} (h : ∀ p ∈ parts, p.1 ≤ n) : upTo parts ≤ n := by
  induction parts with
  | nil => exact Nat.zero_le n
  | cons p parts ih =>
    rw [List.forall_mem_cons] at h
    obtain ⟨m, ok⟩ := p
    cases ok with
    | true => exact Nat.max_le.mpr ⟨h.1, ih h.2⟩
    | false => exact h.1

theorem le_upTo {parts : List (Nat × Bool)} (hall : ∀ p ∈ parts, p.2 = true) : ∀ p ∈ parts, p.1 ≤ upTo parts := by
  induction parts with
  | nil => simp
  | cons p parts ih =>
    rw [List.forall_mem_cons] at hall ⊢
    obtain ⟨m, ok⟩ := p
    obtain ⟨rfl, hall⟩ := hall
    exact ⟨le_max_left _ _, fun q hq => (ih hall q hq).trans (le_max_right _ _)⟩

/-! ## What the encoder does -/

/-- The result of something that takes this many frames, and is refused or not. -/
def Fits {α : Type} (frames : Nat) (extent : Nat × Bool) : Except EncodeRaised α → Prop
  | .ok _ => extent.1 ≤ frames ∧ extent.2 = true
  | .error (.canonicalization _) => extent.1 ≤ frames ∧ extent.2 = false
  | .error .recursion_error => frames < extent.1

theorem Fits.map {α β : Type} {frames : Nat} {extent : Nat × Bool} {r : Except EncodeRaised α} (f : α → β)
    (h : Fits frames extent r) : Fits frames extent (r.map f) := by
  rcases r with (_ | _) | _ <;> exact h

theorem Fits.call {α : Type} {frames n : Nat} {ok : Bool} {r : Except EncodeRaised α} (h : Fits frames (n, ok) r) :
    Fits (frames + 1) (n + 1, ok) r := by
  rcases r with (_ | _) | _
  · exact ⟨Nat.succ_le_succ h.1, h.2⟩
  · exact Nat.succ_lt_succ h
  · exact ⟨Nat.succ_le_succ h.1, h.2⟩

theorem fits_raise {α : Type} (frames : Nat) (path : Text) (code : Code) :
    Fits frames (1, false) (raiseCanonicalization frames path code : Except EncodeRaised α) := by
  cases frames with
  | zero => exact Nat.one_pos
  | succ n => exact ⟨Nat.succ_pos n, rfl⟩

theorem fits_encodeString (frames : Nat) (s path : Text) :
    Fits frames (if (scalars s).isSome then (1, true) else (2, false)) (encodeString frames s path) := by
  cases frames with
  | zero =>
    show (0 : Nat) < _
    split_ifs <;> decide
  | succ n =>
    rw [encodeString]
    cases scalars s with
    | none => exact (fits_raise n path _).call
    | some cs => exact ⟨Nat.succ_pos n, rfl⟩

/-- Parts that are written one after the other. -/
theorem fits_collect {α : Type} {frames : Nat} {parts : List (Nat × Bool)} {rs : List (Except EncodeRaised α)}
    (h : List.Forall₂ (Fits frames) parts rs) : Fits frames (upTo parts, parts.all Prod.snd) (collect rs) := by
  induction h with
  | nil => exact ⟨Nat.zero_le _, rfl⟩
  | @cons p r parts rs hr _ ih =>
    obtain ⟨n, ok⟩ := p
    rcases r with (e | _) | a
    · obtain ⟨hn, hok⟩ := hr
      obtain rfl : ok = false := hok
      exact ⟨hn, rfl⟩
    · have hn : frames < n := hr
      cases ok with
      | true => exact hn.trans_le (le_max_left n _)
      | false => exact hn
    · obtain ⟨hn, hok⟩ := hr
      obtain rfl : ok = true := hok
      show Fits frames (max n (upTo parts), parts.all Prod.snd) ((collect rs).map (a :: ·))
      apply Fits.map
      rcases hrs : collect rs with (e | _) | as
      · rw [hrs] at ih
        exact ⟨Nat.max_le.mpr ⟨hn, ih.1⟩, ih.2⟩
      · rw [hrs] at ih
        exact lt_of_lt_of_le ih (le_max_right n _)
      · rw [hrs] at ih
        exact ⟨Nat.max_le.mpr ⟨hn, ih.1⟩, ih.2⟩

theorem fits_checkKeys_error (frames : Nat) (path : Text) {keys : List Key} (h : ¬∀ k ∈ keys, k.IsAscii) :
    Fits frames (1, false) (checkKeys frames path keys) := by
  induction keys with
  | nil => exact absurd (by simp) h
  | cons k keys ih =>
    cases k with
    | other n => exact fits_raise frames path _
    | str s =>
      unfold checkKeys
      split_ifs with hs
      · exact (ih (fun hall => h (List.forall_mem_cons.mpr ⟨hs, hall⟩))).map _
      · exact fits_raise frames path _

theorem fits_member {frames : Nat} {path key : Text} {extent : Nat × Bool} {value : Except EncodeRaised (List Char)}
    (hkey : isAscii key = true) (hpos : 0 < extent.1) (h : Fits frames extent value) :
    Fits frames extent (member frames path (key, value)) := by
  obtain ⟨cs, hcs⟩ := scalars_of_isAscii hkey
  cases frames with
  | zero => exact hpos
  | succ n =>
    have hwritten : encodeString (n + 1) key (childPath path key) = .ok ('"' :: cs.flatMap escapeChar ++ ['"']) :=
      encodeString_eq_ok_iff.mpr ⟨n.succ_pos, cs, hcs, rfl⟩
    rw [member, hwritten]
    exact h.map _

variable {nonFinite : F → Bool}

theorem fits_items {frames : Nat} {xs : List (Value F)}
    (ih : ∀ x ∈ xs, ∀ path, Fits frames x.extent (encode nonFinite frames x path)) (path : Text) (i : Nat) :
    List.Forall₂ (Fits frames) (xs.map Value.extent) (encodeItems nonFinite frames xs path i) := by
  induction xs generalizing i with
  | nil => exact List.Forall₂.nil
  | cons x xs ihxs =>
    rw [List.forall_mem_cons] at ih
    exact List.Forall₂.cons (ih.1 _) (ihxs ih.2 _)

theorem encode_fits (nonFinite : F → Bool) (v : Value F) (frames : Nat) (path : Text) :
    Fits frames v.extent (encode nonFinite frames v path) := by
  induction v using Value.induct generalizing frames path with
  | none => cases frames <;> simp [Fits, encode, Value.extent]
  | bool b => cases b <;> cases frames <;> simp [Fits, encode, Value.extent]
  | int i =>
    cases frames with
    | zero => exact needs_pos (.int i : Value F)
    | succ n =>
      rw [Value.extent, encode]
      split_ifs
      · exact ⟨Nat.succ_pos n, rfl⟩
      · exact (fits_raise n path _).call
  | float x =>
    cases frames with
    | zero => exact needs_pos (.float x)
    | succ n => exact (fits_raise n path _).call
  | str s =>
    cases frames with
    | zero => exact needs_pos (.str s : Value F)
    | succ n =>
      have hstring := fits_encodeString n s path
      rw [Value.extent, encode]
      split_ifs at hstring ⊢ <;> exact hstring.call
  | list xs ih =>
    cases frames with
    | zero => exact needs_pos (.list xs)
    | succ n =>
      rw [extent_list, encode]
      exact ((fits_collect (fits_items (fun x hx path => ih x hx n path) path 0)).map _).call
  | tuple xs ih =>
    cases frames with
    | zero => exact needs_pos (.tuple xs)
    | succ n =>
      rw [extent_tuple, encode]
      exact ((fits_collect (fits_items (fun x hx path => ih x hx n path) path 0)).map _).call
  | dict es ih =>
    cases frames with
    | zero => exact needs_pos (.dict es)
    | succ n =>
      rw [extent_dict, encode]
      by_cases hkeys : ∀ k ∈ es.map Prod.fst, k.IsAscii
      · rw [checkKeys_eq_ok_iff.mpr ⟨hkeys, rfl⟩]
        show Fits _ _ (if _ then _ else _)
        by_cases hnodup : (es.map Prod.fst).Nodup
        · rw [if_pos ⟨hkeys, hnodup⟩, if_neg (not_not.mpr ((nodup_texts_iff hkeys).mpr hnodup)), sorted_members]
          refine ((fits_collect ?_).map _).call
          rw [List.forall₂_map_left_iff, List.forall₂_map_right_iff, List.forall₂_same]
          intro e he
          rw [List.mem_mergeSort] at he
          have hkey := hkeys e.1 (List.mem_map_of_mem he)
          rw [key_eq_of_isAscii hkey] at hkey
          exact fits_member hkey (needs_pos e.2) (ih e he n _)
        · rw [if_neg (fun h => hnodup h.2), if_pos (fun h => hnodup ((nodup_texts_iff hkeys).mp h))]
          exact (fits_raise n path _).call
      · rw [if_neg (fun h => hkeys h.1)]
        have hchecked := (fits_checkKeys_error n path hkeys).call
        cases hresult : checkKeys n path (es.map Prod.fst) with
        | ok keys => exact absurd (checkKeys_eq_ok_iff.mp hresult).1 hkeys
        | error e =>
          rw [hresult] at hchecked
          cases e <;> exact hchecked
  | other m =>
    cases frames with
    | zero => exact needs_pos (.other m : Value F)
    | succ n => exact (fits_raise n path _).call

/-- Nothing is refused of a value exactly in the profile, with tuples for lists. -/
theorem extent_accepts_iff (v : Value F) : v.extent.2 = true ↔ v.listed.InProfile := by
  have haround : ∀ xs : List (Value F), (∀ x ∈ xs, x.extent.2 = true ↔ x.listed.InProfile) →
      ((xs.map Value.extent).all Prod.snd = true ↔ Value.AllInProfile (Value.listedItems xs)) := by
    intro xs ih
    rw [allInProfile_iff, listedItems_eq, List.all_eq_true, List.forall_mem_map, List.forall_mem_map]
    exact forall₂_congr (fun x hx => ih x hx)
  induction v using Value.induct with
  | none => simp [Value.extent, Value.listed, Value.InProfile]
  | bool b => simp [Value.extent, Value.listed, Value.InProfile]
  | int i =>
    rw [Value.extent]
    split_ifs with hrange
    · exact iff_of_true rfl hrange
    · exact iff_of_false (by decide) hrange
  | float x => exact iff_of_false Bool.false_ne_true id
  | str s =>
    rw [Value.extent]
    split_ifs with hs
    · exact iff_of_true rfl hs
    · exact iff_of_false (by decide) hs
  | list xs ih =>
    rw [extent_list]
    exact haround xs ih
  | tuple xs ih =>
    rw [extent_tuple]
    exact haround xs ih
  | dict es ih =>
    rw [extent_dict, listed_dict_inProfile_iff]
    split_ifs with hkeys
    · have hvalues : (around ((es.mergeSort entryLe).map (fun e => e.2.extent))).2 = true ↔
          ∀ e ∈ es, e.2.listed.InProfile := by
        show ((es.mergeSort entryLe).map (fun e => e.2.extent)).all Prod.snd = true ↔ _
        rw [List.all_eq_true, List.forall_mem_map]
        refine forall_congr' (fun e => ?_)
        rw [List.mem_mergeSort]
        exact forall_congr' (fun he => ih e he)
      rw [hvalues]
      exact ⟨fun h => ⟨hkeys.1, hkeys.2, h⟩, fun h => h.2.2⟩
    · exact iff_of_false (by decide) (fun h => hkeys ⟨h.1, h.2.1⟩)
  | other n => exact iff_of_false Bool.false_ne_true id

theorem encode_ok_iff (nonFinite : F → Bool) {frames : Nat} {v : Value F} (path : Text) :
    (∃ out, encode nonFinite frames v path = .ok out) ↔ v.listed.InProfile ∧ v.needs ≤ frames := by
  have hfits := encode_fits nonFinite v frames path
  rw [← extent_accepts_iff]
  rcases hresult : encode nonFinite frames v path with (e | _) | out
  · rw [hresult] at hfits
    have hno : v.extent.2 ≠ true := by
      rw [hfits.2]
      decide
    exact iff_of_false (by simp) (fun h => hno h.1)
  · rw [hresult] at hfits
    exact iff_of_false (by simp) (fun h => absurd h.2 (not_le.mpr hfits))
  · rw [hresult] at hfits
    exact iff_of_true ⟨out, rfl⟩ ⟨hfits.2, hfits.1⟩

theorem encode_canonicalization_iff (nonFinite : F → Bool) {frames : Nat} {v : Value F} (path : Text) :
    (∃ e, encode nonFinite frames v path = .error (.canonicalization e)) ↔
      ¬v.listed.InProfile ∧ v.needs ≤ frames := by
  have hfits := encode_fits nonFinite v frames path
  rw [← extent_accepts_iff, Bool.not_eq_true]
  rcases hresult : encode nonFinite frames v path with (e | _) | out
  · rw [hresult] at hfits
    exact iff_of_true ⟨e, rfl⟩ ⟨hfits.2, hfits.1⟩
  · rw [hresult] at hfits
    exact iff_of_false (by simp) (fun h => absurd h.2 (not_le.mpr hfits))
  · rw [hresult] at hfits
    have hno : v.extent.2 ≠ false := by
      rw [hfits.2]
      decide
    exact iff_of_false (by simp) (fun h => hno h.1)

/-! ## Nesting -/

theorem depth_le_needs {v : Value F} (hv : v.listed.InProfile) : v.depth ≤ v.needs := by
  have hparts : ∀ xs : List (Value F), (∀ x ∈ xs, x.listed.InProfile) →
      ∀ x ∈ xs, x.needs ≤ upTo (xs.map Value.extent) := by
    intro xs hxs x hx
    exact le_upTo (List.forall_mem_map.mpr (fun y hy => (extent_accepts_iff y).mpr (hxs y hy))) _ (List.mem_map_of_mem hx)
  induction v using Value.induct with
  | list xs ih =>
    have hxs : ∀ x ∈ xs, x.listed.InProfile := by
      simpa only [Value.listed, Value.InProfile, allInProfile_iff, listedItems_eq, List.forall_mem_map] using hv
    rw [Value.needs, extent_list]
    exact Nat.succ_le_succ (itemsDepth_le_iff.mpr (fun x hx => (ih x hx (hxs x hx)).trans (hparts xs hxs x hx)))
  | tuple xs ih =>
    have hxs : ∀ x ∈ xs, x.listed.InProfile := by
      simpa only [Value.listed, Value.InProfile, allInProfile_iff, listedItems_eq, List.forall_mem_map] using hv
    rw [Value.needs, extent_tuple]
    exact Nat.succ_le_succ (itemsDepth_le_iff.mpr (fun x hx => (ih x hx (hxs x hx)).trans (hparts xs hxs x hx)))
  | dict es ih =>
    obtain ⟨hkeys, hnodup, hes⟩ := listed_dict_inProfile_iff.mp hv
    rw [Value.needs, extent_dict, if_pos ⟨hkeys, hnodup⟩]
    refine Nat.succ_le_succ (entriesDepth_le_iff.mpr (fun e he => (ih e he (hes e he)).trans ?_))
    have hsorted := hparts ((es.mergeSort entryLe).map Prod.snd) (List.forall_mem_map.mpr
      (fun f hf => hes f (List.mem_mergeSort.mp hf))) e.2 (List.mem_map_of_mem (List.mem_mergeSort.mpr he))
    rwa [List.map_map] at hsorted
  | _ => exact Nat.zero_le _

/-- What a value takes besides its containers: a frame for itself, one for a string, and one
for the exception when something is refused. -/
def inner (accepted : Bool) : Nat := if accepted then 2 else 3

theorem upTo_le_depth {xs : List (Value F)} {n : Nat} (ih : ∀ x ∈ xs, x.needs ≤ x.depth + inner x.extent.2)
    (hdepth : ∀ x ∈ xs, x.depth ≤ n) :
    upTo (xs.map Value.extent) ≤ n + inner ((xs.map Value.extent).all Prod.snd) := by
  refine upTo_le (List.forall_mem_map.mpr (fun x hx => ?_))
  have hinner : inner x.extent.2 ≤ inner ((xs.map Value.extent).all Prod.snd) := by
    cases hall : (xs.map Value.extent).all Prod.snd with
    | true =>
      have hx' : x.extent.2 = true := List.all_eq_true.mp hall _ (List.mem_map_of_mem hx)
      rw [hx']
    | false =>
      show inner _ ≤ 3
      unfold inner
      split_ifs <;> omega
  have hle : x.extent.1 ≤ x.depth + inner x.extent.2 := ih x hx
  have hle' := hdepth x hx
  omega

theorem needs_le (v : Value F) : v.needs ≤ v.depth + inner v.extent.2 := by
  induction v using Value.induct with
  | int i =>
    rw [Value.needs, Value.extent]
    split_ifs <;> simp [inner]
  | str s =>
    rw [Value.needs, Value.extent]
    split_ifs <;> simp [inner]
  | list xs ih =>
    rw [Value.needs, extent_list]
    have hle := upTo_le_depth ih (fun x hx => itemsDepth_le_iff.mp le_rfl x hx)
    simp only [around, Value.depth]
    omega
  | tuple xs ih =>
    rw [Value.needs, extent_tuple]
    have hle := upTo_le_depth ih (fun x hx => itemsDepth_le_iff.mp le_rfl x hx)
    simp only [around, Value.depth]
    omega
  | dict es ih =>
    rw [Value.needs, extent_dict]
    split_ifs with hkeys
    · have hvalues : ∀ x ∈ (es.mergeSort entryLe).map Prod.snd, x.needs ≤ x.depth + inner x.extent.2 :=
        List.forall_mem_map.mpr (fun e he => ih e (List.mem_mergeSort.mp he))
      have hle : _ ≤ Value.entriesDepth es + _ := upTo_le_depth hvalues
        (List.forall_mem_map.mpr (fun e he => depth_le_of_mem_entries (List.mem_mergeSort.mp he)))
      rw [List.map_map] at hle
      simp only [around, Value.depth]
      show upTo _ + 1 ≤ _ + 1 + _
      have hcomp : (es.mergeSort entryLe).map (fun e => e.2.extent) = (es.mergeSort entryLe).map (Value.extent ∘ Prod.snd) :=
        rfl
      rw [hcomp]
      omega
    · show 2 ≤ _ + 3
      omega
  | none => simp [Value.needs, Value.extent, inner]
  | bool b => simp [Value.needs, Value.extent, inner]
  | float x => simp [Value.needs, Value.extent, inner]
  | other n => simp [Value.needs, Value.extent, inner]

theorem needs_dict_le_iff {es : List (Key × Value F)} (h : (Value.dict es).listed.InProfile) {n : Nat} :
    (Value.dict es).needs ≤ n + 1 ↔ ∀ e ∈ es, e.2.needs ≤ n := by
  obtain ⟨hkeys, hnodup, hes⟩ := listed_dict_inProfile_iff.mp h
  have hall : ∀ p ∈ (es.mergeSort entryLe).map (fun e => e.2.extent), p.2 = true :=
    List.forall_mem_map.mpr (fun e he => (extent_accepts_iff e.2).mpr (hes e (List.mem_mergeSort.mp he)))
  rw [Value.needs, extent_dict, if_pos ⟨hkeys, hnodup⟩]
  constructor
  · intro hle e he
    exact (le_upTo hall _ (List.mem_map_of_mem (List.mem_mergeSort.mpr he))).trans (Nat.le_of_succ_le_succ hle)
  · intro hle
    exact Nat.succ_le_succ (upTo_le (List.forall_mem_map.mpr (fun e he => hle e (List.mem_mergeSort.mp he))))

theorem needs_le_of_inProfile {v : Value F} (hv : v.listed.InProfile) : v.needs ≤ v.depth + 2 := by
  have hle := needs_le v
  rwa [(extent_accepts_iff v).mpr hv] at hle

end extent

/-! ## The bytes -/

section bytes

variable {F : Type} {nonFinite : F → Bool}

theorem encodeItems_of_le {n m : Nat} {xs : List (Value F)}
    (ih : ∀ x ∈ xs, ∀ path out, encode nonFinite n x path = .ok out → encode nonFinite m x path = .ok out) {path : Text}
    {i : Nat} {parts : List (List Char)} (h : collect (encodeItems nonFinite n xs path i) = .ok parts) :
    collect (encodeItems nonFinite m xs path i) = .ok parts := by
  rw [collect_eq_ok_iff] at h ⊢
  induction xs generalizing i parts with
  | nil => exact h
  | cons x xs ihxs =>
    rw [List.forall_mem_cons] at ih
    rw [encodeItems] at h
    obtain ⟨out, parts, rfl, hout, hparts⟩ := List.map_eq_cons_iff.mp h.symm
    rw [encodeItems, ih.1 _ _ hout.symm, ihxs ih.2 hparts.symm]
    rfl

/-- With more frames the same is written. -/
theorem encode_of_le {n m : Nat} {v : Value F} {path : Text} {out : List Char} (h : encode nonFinite n v path = .ok out)
    (hle : n ≤ m) : encode nonFinite m v path = .ok out := by
  induction v using Value.induct generalizing n m path out with
  | dict es ih =>
    obtain ⟨n, rfl⟩ := frames_of_encode h
    obtain ⟨m, rfl⟩ : ∃ k, m = k + 1 := ⟨m - 1, by omega⟩
    obtain ⟨hkeys, hnodup, parts, hparts, rfl⟩ := encode_dict_eq_ok_iff.mp h
    refine encode_dict_eq_ok_iff.mpr ⟨hkeys, hnodup, parts, ?_, rfl⟩
    rw [collect_eq_ok_iff] at hparts ⊢
    rw [← hparts]
    refine List.map_congr_left (fun e he => ?_)
    -- Each of the members is written with fewer frames.
    have hmember : member n path (e.1.text, encode nonFinite n e.2 (childPath path e.1.text)) ∈ parts.map .ok :=
      hparts ▸ List.mem_map_of_mem he
    obtain ⟨part, -, hpart⟩ := List.mem_map.mp hmember
    obtain ⟨hpos, cs, value, hkey, hvalue, hwritten⟩ := member_eq_ok_iff.mp hpart.symm
    rw [← hpart, member_eq_ok_iff]
    exact ⟨by omega, cs, value, hkey, ih e (List.mem_mergeSort.mp he) hvalue (by omega), hwritten⟩
  | list xs ih =>
    obtain ⟨n, rfl⟩ := frames_of_encode h
    obtain ⟨m, rfl⟩ : ∃ k, m = k + 1 := ⟨m - 1, by omega⟩
    obtain ⟨parts, hparts, rfl⟩ := map_eq_ok_iff.mp h
    exact map_eq_ok_iff.mpr ⟨parts, encodeItems_of_le (fun x hx path out hout => ih x hx hout (by omega)) hparts, rfl⟩
  | tuple xs ih =>
    obtain ⟨n, rfl⟩ := frames_of_encode h
    obtain ⟨m, rfl⟩ : ∃ k, m = k + 1 := ⟨m - 1, by omega⟩
    obtain ⟨parts, hparts, rfl⟩ := map_eq_ok_iff.mp h
    exact map_eq_ok_iff.mpr ⟨parts, encodeItems_of_le (fun x hx path out hout => ih x hx hout (by omega)) hparts, rfl⟩
  | str s =>
    obtain ⟨n, rfl⟩ := frames_of_encode h
    obtain ⟨m, rfl⟩ : ∃ k, m = k + 1 := ⟨m - 1, by omega⟩
    obtain ⟨hpos, hwritten⟩ := encodeString_eq_ok_iff.mp h
    exact encodeString_eq_ok_iff.mpr ⟨by omega, hwritten⟩
  | int i =>
    obtain ⟨n, rfl⟩ := frames_of_encode h
    obtain ⟨m, rfl⟩ : ∃ k, m = k + 1 := ⟨m - 1, by omega⟩
    unfold encode at h ⊢
    split_ifs at h ⊢ with hrange
    · exact h
    · exact (raiseCanonicalization_ne_ok _ _ _ _ h).elim
  | none =>
    obtain ⟨n, rfl⟩ := frames_of_encode h
    obtain ⟨m, rfl⟩ : ∃ k, m = k + 1 := ⟨m - 1, by omega⟩
    exact h
  | bool b =>
    obtain ⟨n, rfl⟩ := frames_of_encode h
    obtain ⟨m, rfl⟩ : ∃ k, m = k + 1 := ⟨m - 1, by omega⟩
    cases b <;> exact h
  | float x =>
    obtain ⟨n, rfl⟩ := frames_of_encode h
    exact (raiseCanonicalization_ne_ok _ _ _ _ h).elim
  | other k =>
    obtain ⟨n, rfl⟩ := frames_of_encode h
    exact (raiseCanonicalization_ne_ok _ _ _ _ h).elim

theorem restrictedJcs_ok_iff (nonFinite : F → Bool) {frames : Nat} {v : Value F} :
    (∃ data, restrictedJcs nonFinite frames v = .ok data) ↔ v.listed.InProfile ∧ v.needs < frames := by
  cases frames with
  | zero => simp [restrictedJcs]
  | succ n =>
    rw [Nat.lt_succ_iff, ← encode_ok_iff nonFinite []]
    simp [restrictedJcs, map_eq_ok_iff]

theorem restrictedJcs_canonicalization_iff (nonFinite : F → Bool) {frames : Nat} {v : Value F} :
    (∃ e, restrictedJcs nonFinite frames v = .error (.canonicalization e)) ↔
      ¬v.listed.InProfile ∧ v.needs < frames := by
  cases frames with
  | zero => simp [restrictedJcs]
  | succ n =>
    rw [Nat.lt_succ_iff, ← encode_canonicalization_iff nonFinite [], restrictedJcs]
    rcases encode nonFinite n v [] with (e | _) | out <;> simp [Except.map]

/-- The bytes do not depend on the stack. -/
theorem restrictedJcs_of_frames {frames frames' : Nat} {v : Value F} {data : ByteArray}
    (h : restrictedJcs nonFinite frames v = .ok data) (hframes : v.needs < frames') :
    restrictedJcs nonFinite frames' v = .ok data := by
  obtain ⟨data', hdata'⟩ := (restrictedJcs_ok_iff nonFinite).mpr ⟨((restrictedJcs_ok_iff _).mp ⟨data, h⟩).1, hframes⟩
  obtain ⟨n, out, -, hout, rfl⟩ := restrictedJcs_eq_ok_iff.mp h
  obtain ⟨m, out', rfl, hout', rfl⟩ := restrictedJcs_eq_ok_iff.mp hdata'
  obtain rfl : out = out' :=
    Except.ok.inj ((encode_of_le hout (le_max_left n m)).symm.trans (encode_of_le hout' (le_max_right n m)))
  exact hdata'

end bytes

/-! ## The round trip -/

section roundTrip

variable {F : Type} (nonFinite : F → Bool) (parseFloat : List Char → F) (frames limit : Nat)

/-- The round trip of a value, when the encoder has this stack and the parser this recursion
limit. -/
structure RoundTrips (v : Value F) : Prop where
  inverse : v.InProfile → v.depth ≤ limit →
    ∃ data w, restrictedJcs nonFinite frames v = .ok data ∧ strictParse parseFloat limit data = .ok w ∧ w.Same v
  injective : v.InProfile → ∀ (w : Value F) (data : ByteArray), w.InProfile →
    restrictedJcs nonFinite frames v = .ok data → restrictedJcs nonFinite frames w = .ok data → v.Same w
  bool_ne_int : ∀ (b : Bool) (i : Int), v = .bool b → ¬v.Same (.int i)
  order_free : v.InProfile → ∀ w : Value F, w.InProfile → v.Same w →
    restrictedJcs nonFinite frames v = restrictedJcs nonFinite frames w
  refused : ¬v.InProfile → ∃ e, restrictedJcs nonFinite frames v = .error (.canonicalization e)

/-- The round trip holds of a value of the profile exactly when its frames, one or two more
than its containers, are there or the parser would not follow it either, and of any other value
exactly when it is outside the profile with its tuples as lists too and the frames up to what
is refused are there. -/
theorem canonical_round_trip (v : Value F) : RoundTrips nonFinite parseFloat frames limit v ↔
    (v.InProfile → v.depth ≤ limit → v.needs < frames) ∧
      (¬v.InProfile → ¬v.listed.InProfile ∧ v.needs < frames) := by
  constructor
  · intro h
    refine ⟨fun hv hd => ?_, fun hv => (restrictedJcs_canonicalization_iff _).mp (h.refused hv)⟩
    obtain ⟨data, -, hdata, -⟩ := h.inverse hv hd
    exact ((restrictedJcs_ok_iff _).mp ⟨data, hdata⟩).2
  · rintro ⟨hin, hout⟩
    refine ⟨fun hv hd => ?_, fun hv w data hw => same_of_restrictedJcs_eq parseFloat hv hw, ?_, fun hv w hw hsame => ?_,
      fun hv => (restrictedJcs_canonicalization_iff _).mpr (hout hv)⟩
    · obtain ⟨data, hdata⟩ := (restrictedJcs_ok_iff nonFinite).mpr ⟨(listed_of_inProfile hv).symm ▸ hv, hin hv hd⟩
      obtain ⟨n, out, -, hwritten, hbytes⟩ := restrictedJcs_eq_ok_iff.mp hdata
      exact ⟨data, v.sorted, hdata, hbytes ▸ strictParse_encode hv hd hwritten, sorted_same v⟩
    · rintro b i rfl
      exact id
    · cases frames with
      | zero => rfl
      | succ n => rw [restrictedJcs, restrictedJcs, encode_eq_of_same hv hw hsame]

end roundTrip

/-- The string of ASCII characters. -/
def ascii (cs : List Char) : Text := cs.map .scalar

/-- An object with a nested list, its keys not in order. -/
def sampleObject : Value Unit :=
  .dict [(.str (ascii ['b']), .list [.int 1, .bool true, .none]), (.str (ascii ['a']), .str (ascii ['x', '\n']))]

/-- The same object, its keys the other way round. -/
def sampleObjectReordered : Value Unit :=
  .dict [(.str (ascii ['a']), .str (ascii ['x', '\n'])), (.str (ascii ['b']), .list [.int 1, .bool true, .none])]

theorem sampleObject_inProfile : sampleObject.InProfile ∧ sampleObjectReordered.InProfile := by
  simp [sampleObject, sampleObjectReordered, Value.InProfile, Value.EntriesInProfile, Value.AllInProfile,
    Key.IsAscii, isAscii, ascii, scalars, CodePoint.ord, SAFE_INT_MIN, SAFE_INT_MAX]

theorem sampleObject_same : sampleObject.Same sampleObjectReordered := by
  refine ⟨fun k => ?_, ?_⟩
  · simp [or_comm]
  · refine ⟨⟨.list _, List.mem_cons_of_mem _ List.mem_cons_self, ?_⟩, ⟨.str _, List.mem_cons_self, rfl⟩, trivial⟩
    exact ⟨rfl, rfl, trivial, trivial⟩

/-- The round trip of an object with a nested list: five frames are enough. -/
theorem canonical_round_trip_object : RoundTrips (fun _ : Unit => false) (fun _ => ()) 5 2 sampleObject := by
  obtain ⟨hv, -⟩ := sampleObject_inProfile
  have hneeds := needs_le_of_inProfile (v := sampleObject) ((listed_of_inProfile hv).symm ▸ hv)
  refine (canonical_round_trip _ _ 5 2 sampleObject).mpr ⟨fun _ hd => ?_, fun hv' => absurd hv hv'⟩
  omega

/-- Lists nested in one another. -/
def nested : Nat → Value Unit
  | 0 => .list []
  | n + 1 => .list [nested n]

theorem nested_inProfile (n : Nat) : (nested n).InProfile := by
  induction n with
  | zero => trivial
  | succ n ih => exact ⟨ih, trivial⟩

theorem depth_nested (n : Nat) : (nested n).depth = n + 1 := by
  induction n with
  | zero => rfl
  | succ n ih => rw [nested, Value.depth, Value.itemsDepth, Value.itemsDepth, ih, Nat.max_zero]

/-- The parser reads a thousand nested lists, and the encoder does not come to their end within
the thousand frames of the interpreter. -/
theorem nested_lists_raise : ¬∀ v : Value Unit, RoundTrips (fun _ => false) (fun _ => ()) 1000 9000 v := by
  intro h
  have hv := nested_inProfile 999
  have hneeds := depth_le_needs ((listed_of_inProfile hv).symm ▸ hv)
  rw [depth_nested] at hneeds
  obtain ⟨data, -, hdata, -⟩ := (h (nested 999)).inverse hv (by rw [depth_nested]; decide)
  have hlt := ((restrictedJcs_ok_iff _).mp ⟨data, hdata⟩).2
  omega

end MuseAgentSocial.Canonical
