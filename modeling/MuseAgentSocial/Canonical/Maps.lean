import MuseAgentSocial.Canonical.RoundTrip
import MuseAgentSocial.Policy.Document

/-!
# Dicts as finite maps

What `Value.Same` means for the reader of a value.

* `same_str`, `same_list` and `same_dict` give the shape of a value that is the same as a
  text, a list or a dict, and `getItem_of_same` what is read of a dict.
* `inProfile_sorted`: the order of the keys does not matter to the profile.
* `restrictedJcs_getItem`: the canonical bytes of a dict determine those of each of its values,
  also when there are tuples in it.
-/

namespace MuseAgentSocial.Canonical

open Json
open Policy (getItem popItem setItem)

section values

variable {F : Type}

theorem same_refl (v : Value F) : v.Same v := by
  induction v using Value.induct with
  | none => trivial
  | bool b => rfl
  | int i => rfl
  | float x => rfl
  | str s => rfl
  | list xs ih => exact (sameItems_iff xs xs).mpr (List.forall₂_same.mpr ih)
  | tuple xs ih => exact (sameItems_iff xs xs).mpr (List.forall₂_same.mpr ih)
  | dict es ih => exact ⟨fun k => Iff.rfl, (sameEntries_iff es es).mpr (fun e he => ⟨e.2, he, ih e he⟩)⟩
  | other n => rfl

theorem same_str {v : Value F} {s : Text} (h : v.Same (.str s)) : v = .str s := by
  cases v with
  | str t => exact congrArg Value.str h
  | _ => exact absurd h id

theorem same_list {v : Value F} {ys : List (Value F)} (h : v.Same (.list ys)) :
    ∃ xs, v = .list xs ∧ List.Forall₂ Value.Same xs ys := by
  cases v with
  | list xs => exact ⟨xs, rfl, (sameItems_iff xs ys).mp h⟩
  | _ => exact absurd h id

theorem same_dict {v : Value F} {fs : List (Key × Value F)} (h : v.Same (.dict fs)) : ∃ es, v = .dict es := by
  cases v with
  | dict es => exact ⟨es, rfl⟩
  | _ => exact absurd h id

/-! ### Reading a dict -/

theorem mem_of_getItem {es : List (Key × Value F)} {k : Text} {v : Value F} (h : getItem es k = some v) :
    (Key.str k, v) ∈ es := by
  obtain ⟨e, hfind, hv⟩ := Option.map_eq_some_iff.mp h
  have hkey : e.1 = .str k := by simpa using List.find?_some hfind
  have hmem := List.mem_of_find?_eq_some hfind
  rw [← hkey, ← hv]
  exact hmem

theorem getItem_eq_some_of_mem {es : List (Key × Value F)} {k : Text} {v : Value F} (hes : (es.map Prod.fst).Nodup)
    (h : (Key.str k, v) ∈ es) : getItem es k = some v := by
  induction es with
  | nil => exact absurd h List.not_mem_nil
  | cons e es ih =>
    rw [List.map_cons, List.nodup_cons] at hes
    rw [Policy.getItem_cons]
    cases List.mem_cons.mp h with
    | inl he => rw [← he, if_pos rfl]
    | inr he =>
      have hne : e.1 ≠ .str k := fun hk => hes.1 (hk ▸ List.mem_map_of_mem he)
      rw [if_neg hne]
      exact ih hes.2 he

theorem getItem_eq_none_iff_notMem {es : List (Key × Value F)} {k : Text} :
    getItem es k = none ↔ Key.str k ∉ es.map Prod.fst := by
  rw [Policy.getItem_eq_none_iff, List.any_eq_false, List.mem_map]
  constructor
  · intro h hmem
    obtain ⟨e, he, hek⟩ := hmem
    exact h e he (decide_eq_true hek)
  · intro h e he hek
    exact h ⟨e, he, of_decide_eq_true hek⟩

theorem getItem_map_snd (f : Value F → Value F) (es : List (Key × Value F)) (k : Text) :
    getItem (es.map fun e => (e.1, f e.2)) k = (getItem es k).map f := by
  induction es with
  | nil => rfl
  | cons e es ih =>
    rw [List.map_cons, Policy.getItem_cons, Policy.getItem_cons, ih]
    show (if e.1 = .str k then some (f e.2) else _) = _
    split
    · rfl
    · rfl

theorem getItem_of_same {es fs : List (Key × Value F)} {k : Text} {v : Value F} (hfs : (fs.map Prod.fst).Nodup)
    (h : (Value.dict es).Same (.dict fs)) (hv : getItem fs k = some v) : ∃ w, getItem es k = some w ∧ w.Same v := by
  have hkey : Key.str k ∈ es.map Prod.fst := (h.1 _).mpr (List.mem_map_of_mem (mem_of_getItem hv))
  cases hw : getItem es k with
  | none => exact absurd hkey (getItem_eq_none_iff_notMem.mp hw)
  | some w =>
    obtain ⟨v', hv', hsame⟩ := (sameEntries_iff es fs).mp h.2 _ (mem_of_getItem hw)
    have heq : v' = v := Option.some.inj ((getItem_eq_some_of_mem hfs hv').symm.trans hv)
    exact ⟨w, rfl, heq ▸ hsame⟩

theorem mem_popItem {es : List (Key × Value F)} {k : Text} {e : Key × Value F} :
    e ∈ popItem es k ↔ e ∈ es ∧ e.1 ≠ .str k := by
  unfold popItem
  rw [List.mem_filter, decide_eq_true_iff]

theorem same_popItem {es fs : List (Key × Value F)} (k : Text) (h : (Value.dict es).Same (.dict fs)) :
    (Value.dict (popItem es k)).Same (.dict (popItem fs k)) := by
  have hkeys : ∀ (ds : List (Key × Value F)) (k' : Key), k' ∈ (popItem ds k).map Prod.fst ↔ k' ∈ ds.map Prod.fst ∧ k' ≠ .str k := by
    intro ds k'
    simp only [List.mem_map, mem_popItem]
    constructor
    · intro hk
      obtain ⟨e, ⟨he, hne⟩, heq⟩ := hk
      exact ⟨⟨e, he, heq⟩, heq ▸ hne⟩
    · intro hk
      obtain ⟨⟨e, he, heq⟩, hne⟩ := hk
      exact ⟨e, ⟨he, heq ▸ hne⟩, heq⟩
  refine ⟨fun k' => ?_, (sameEntries_iff _ _).mpr fun e he => ?_⟩
  · rw [hkeys, hkeys, h.1]
  · obtain ⟨hmem, hne⟩ := mem_popItem.mp he
    obtain ⟨w, hw, hsame⟩ := (sameEntries_iff es fs).mp h.2 e hmem
    exact ⟨w, mem_popItem.mpr ⟨hw, hne⟩, hsame⟩

/-! ### The profile -/

theorem inProfile_dict_iff {es : List (Key × Value F)} :
    (Value.dict es).InProfile ↔ (∀ e ∈ es, e.1.IsAscii) ∧ (es.map Prod.fst).Nodup ∧ ∀ e ∈ es, e.2.InProfile := by
  rw [← entriesInProfile_iff]
  rfl

theorem inProfile_popItem {es : List (Key × Value F)} (k : Text) (h : (Value.dict es).InProfile) :
    (Value.dict (popItem es k)).InProfile := by
  obtain ⟨hascii, hnodup, hvalues⟩ := inProfile_dict_iff.mp h
  refine inProfile_dict_iff.mpr ⟨fun e he => hascii e (mem_popItem.mp he).1, ?_, fun e he => hvalues e (mem_popItem.mp he).1⟩
  exact hnodup.sublist (List.filter_sublist.map Prod.fst)

theorem mem_setItem {es : List (Key × Value F)} {k : Text} {v : Value F} {e : Key × Value F} (h : e ∈ setItem es k v) :
    e ∈ es ∨ e = (.str k, v) := by
  unfold setItem at h
  split at h
  · obtain ⟨e', he', heq⟩ := List.mem_map.mp h
    split at heq
    · rename_i hk
      rw [hk] at heq
      exact .inr heq.symm
    · exact .inl (heq ▸ he')
  · cases List.mem_append.mp h with
    | inl he => exact .inl he
    | inr he => exact .inr (List.mem_singleton.mp he)

theorem listed_dict_eq_iff {es : List (Key × Value F)} :
    (Value.dict es).listed = .dict es ↔ ∀ e ∈ es, e.2.listed = e.2 := by
  have hself : es.map (fun e => (e.1, e.2.listed)) = es.map id ↔ ∀ e ∈ es, e.2.listed = e.2 := by
    rw [List.map_inj_left]
    exact forall₂_congr (fun e _ => Prod.ext_iff.trans (and_iff_right rfl))
  rw [← hself, List.map_id, Value.listed, listedEntries_eq, Value.dict.injEq]

theorem inProfile_sorted {v : Value F} (h : v.InProfile) : v.sorted.InProfile := by
  induction v using Value.induct with
  | list xs ih =>
    have hxs := (allInProfile_iff xs).mp h
    show Value.AllInProfile (Value.sortedItems xs)
    rw [allInProfile_iff, sortedItems_eq, List.forall_mem_map]
    exact fun x hx => ih x hx (hxs x hx)
  | dict es ih =>
    obtain ⟨hascii, hnodup, hvalues⟩ := inProfile_dict_iff.mp h
    have hperm : ((Value.sortedEntries es).mergeSort entryLe).Perm (es.map fun e => (e.1, e.2.sorted)) := by
      rw [← sortedEntries_eq]
      exact List.mergeSort_perm _ _
    refine inProfile_dict_iff.mpr ⟨fun e he => ?_, ?_, fun e he => ?_⟩
    · obtain ⟨e', he', heq⟩ := List.mem_map.mp (hperm.mem_iff.mp he)
      exact heq ▸ hascii e' he'
    · rw [(hperm.map Prod.fst).nodup_iff, List.map_map]
      exact hnodup
    · obtain ⟨e', he', heq⟩ := List.mem_map.mp (hperm.mem_iff.mp he)
      exact heq ▸ ih e' he' (hvalues e' he')
  | _ => exact h

end values

/-! ## Canonical bytes -/

section encoder

variable {F : Type} {nonFinite : F → Bool}

theorem encodeItems_listed {frames : Nat} {xs : List (Value F)}
    (ih : ∀ x ∈ xs, ∀ path, encode nonFinite frames x.listed path = encode nonFinite frames x path) (path : Text)
    (i : Nat) : encodeItems nonFinite frames (xs.map Value.listed) path i = encodeItems nonFinite frames xs path i := by
  induction xs generalizing i with
  | nil => rfl
  | cons x xs ihxs =>
    rw [List.forall_mem_cons] at ih
    rw [List.map_cons, encodeItems, encodeItems, ih.1, ihxs ih.2]

/-- Tuples are written as lists. -/
theorem encode_listed (frames : Nat) (v : Value F) (path : Text) :
    encode nonFinite frames v.listed path = encode nonFinite frames v path := by
  induction v using Value.induct generalizing frames path with
  | list xs ih =>
    cases frames with
    | zero => rfl
    | succ n => rw [Value.listed, listedItems_eq, encode, encode, encodeItems_listed (fun x hx path => ih x hx n path)]
  | tuple xs ih =>
    cases frames with
    | zero => rfl
    | succ n => rw [Value.listed, listedItems_eq, encode, encode, encodeItems_listed (fun x hx path => ih x hx n path)]
  | dict es ih =>
    cases frames with
    | zero => rfl
    | succ n =>
      have hentries : encodeEntries nonFinite n (es.map fun e => (e.1, e.2.listed)) path =
          encodeEntries nonFinite n es path := by
        rw [encodeEntries_eq, encodeEntries_eq, List.map_map]
        exact List.map_congr_left (fun e he => Prod.ext rfl (ih e he _ _))
      have hkeys : (es.map fun e => (e.1, e.2.listed)).map Prod.fst = es.map Prod.fst := by
        rw [List.map_map]
        rfl
      rw [Value.listed, listedEntries_eq, encode, encode, hentries, hkeys]
  | _ => rfl

theorem restrictedJcs_listed (frames : Nat) (v : Value F) :
    restrictedJcs nonFinite frames v.listed = restrictedJcs nonFinite frames v := by
  cases frames with
  | zero => rfl
  | succ n => rw [restrictedJcs, restrictedJcs, encode_listed]

theorem inProfile_of_restrictedJcs {frames : Nat} {v : Value F} {data : ByteArray}
    (h : restrictedJcs nonFinite frames v = .ok data) : v.listed.InProfile := by
  obtain ⟨n, out, -, hout, -⟩ := restrictedJcs_eq_ok_iff.mp h
  exact inProfile_of_encode hout

theorem restrictedJcs_eq_of_same {v w : Value F} (hv : v.InProfile) (hw : w.InProfile) (h : v.Same w) (frames : Nat) :
    restrictedJcs nonFinite frames v = restrictedJcs nonFinite frames w := by
  cases frames with
  | zero => rfl
  | succ n => rw [restrictedJcs, restrictedJcs, encode_eq_of_same hv hw h]

theorem restrictedJcs_getItem (parseFloat : List Char → F) {es fs : List (Key × Value F)} {data : ByteArray}
    {frames frames' : Nat} (hes : restrictedJcs nonFinite frames (.dict es) = .ok data)
    (hfs : restrictedJcs nonFinite frames' (.dict fs) = .ok data) (k : Text) (room : Nat) :
    (getItem es k).map (restrictedJcs nonFinite room) = (getItem fs k).map (restrictedJcs nonFinite room) := by
  have hprofile := inProfile_of_restrictedJcs hes
  have hprofile' := inProfile_of_restrictedJcs hfs
  rw [← restrictedJcs_listed] at hes hfs
  have hsame := same_of_restrictedJcs_eq parseFloat hprofile hprofile' hes hfs
  have hget : ∀ ds : List (Key × Value F), getItem (Value.listedEntries ds) k = (getItem ds k).map Value.listed := by
    intro ds
    rw [listedEntries_eq, getItem_map_snd]
  cases hv : getItem fs k with
  | none =>
    have hnone : getItem (Value.listedEntries fs) k = none := by
      rw [hget, hv]
      rfl
    have hnone' : getItem (Value.listedEntries es) k = none := by
      rw [getItem_eq_none_iff_notMem] at hnone ⊢
      exact fun hmem => hnone ((hsame.1 _).mp hmem)
    rw [hget, Option.map_eq_none_iff] at hnone'
    rw [hnone']
  | some v =>
    have hsome : getItem (Value.listedEntries fs) k = some v.listed := by
      rw [hget, hv]
      rfl
    obtain ⟨w', hw', hsame'⟩ := getItem_of_same (inProfile_dict_iff.mp hprofile').2.1 hsame hsome
    have hin := (inProfile_dict_iff.mp hprofile).2.2 _ (mem_of_getItem hw')
    have hin' := (inProfile_dict_iff.mp hprofile').2.2 _ (mem_of_getItem hsome)
    rw [hget] at hw'
    obtain ⟨w, hw, hlisted⟩ := Option.map_eq_some_iff.mp hw'
    have hencode : restrictedJcs nonFinite room w' = restrictedJcs nonFinite room v.listed :=
      restrictedJcs_eq_of_same hin hin' hsame' room
    rw [← hlisted, restrictedJcs_listed, restrictedJcs_listed] at hencode
    rw [hw, Option.map_some, Option.map_some, hencode]

end encoder

end MuseAgentSocial.Canonical
