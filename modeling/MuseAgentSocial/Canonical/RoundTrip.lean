import MuseAgentSocial.Canonical.Jcs

/-!
# The round trip of canonical JSON

* `Value.Same` is equality with dicts as finite maps, `Value.sorted` the value with its
  dicts in the order that the encoder writes them, and `Value.listed` the value with its
  tuples as lists.
* `inProfile_of_encode`: what the encoder writes is in the profile, where it takes a tuple
  for a list.
* `scanOnce_encode`: the decoder reads `Value.sorted` back.
* `same_of_restrictedJcs_eq`: so the bytes determine the value, whatever the order of the
  keys.
-/

namespace MuseAgentSocial.Canonical

open Json

/-! ## Values up to the order of their keys -/

section values

variable {F : Type}

/-- The order in which the encoder writes the entries. -/
def entryLe (a b : Key × Value F) : Bool := keyLe a.1.text b.1.text

mutual

/-- Equality, with dicts as finite maps. -/
def Value.Same : Value F → Value F → Prop
  | .none, .none => True
  | .bool a, .bool b => a = b
  | .int i, .int j => i = j
  | .float x, .float y => x = y
  | .str s, .str t => s = t
  | .list xs, .list ys => Value.SameItems xs ys
  | .tuple xs, .tuple ys => Value.SameItems xs ys
  | .dict es, .dict fs => (∀ k, k ∈ es.map Prod.fst ↔ k ∈ fs.map Prod.fst) ∧ Value.SameEntries es fs
  | .other m, .other n => m = n
  | _, _ => False

def Value.SameItems : List (Value F) → List (Value F) → Prop
  | [], [] => True
  | x :: xs, y :: ys => x.Same y ∧ Value.SameItems xs ys
  | _, _ => False

/-- Each entry has the same value in the other dict. -/
def Value.SameEntries : List (Key × Value F) → List (Key × Value F) → Prop
  | [], _ => True
  | (k, v) :: es, fs => (∃ w, (k, w) ∈ fs ∧ v.Same w) ∧ Value.SameEntries es fs

end

mutual

/-- The value with the entries of each dict in the order of their keys. -/
def Value.sorted : Value F → Value F
  | .list xs => .list (Value.sortedItems xs)
  | .tuple xs => .tuple (Value.sortedItems xs)
  | .dict es => .dict ((Value.sortedEntries es).mergeSort entryLe)
  | .none => .none
  | .bool b => .bool b
  | .int i => .int i
  | .float x => .float x
  | .str s => .str s
  | .other n => .other n

def Value.sortedItems : List (Value F) → List (Value F)
  | [] => []
  | x :: xs => x.sorted :: Value.sortedItems xs

def Value.sortedEntries : List (Key × Value F) → List (Key × Value F)
  | [] => []
  | (k, v) :: es => (k, v.sorted) :: Value.sortedEntries es

end

mutual

/-- The value with its tuples as lists. -/
def Value.listed : Value F → Value F
  | .list xs => .list (Value.listedItems xs)
  | .tuple xs => .list (Value.listedItems xs)
  | .dict es => .dict (Value.listedEntries es)
  | .none => .none
  | .bool b => .bool b
  | .int i => .int i
  | .float x => .float x
  | .str s => .str s
  | .other n => .other n

def Value.listedItems : List (Value F) → List (Value F)
  | [] => []
  | x :: xs => x.listed :: Value.listedItems xs

def Value.listedEntries : List (Key × Value F) → List (Key × Value F)
  | [] => []
  | (k, v) :: es => (k, v.listed) :: Value.listedEntries es

end

mutual

/-- How deep containers are nested. -/
def Value.depth : Value F → Nat
  | .list xs => Value.itemsDepth xs + 1
  | .tuple xs => Value.itemsDepth xs + 1
  | .dict es => Value.entriesDepth es + 1
  | _ => 0

def Value.itemsDepth : List (Value F) → Nat
  | [] => 0
  | x :: xs => max x.depth (Value.itemsDepth xs)

def Value.entriesDepth : List (Key × Value F) → Nat
  | [] => 0
  | (_, v) :: es => max v.depth (Value.entriesDepth es)

end

/-! ### Element by element -/

theorem allInProfile_iff (xs : List (Value F)) : Value.AllInProfile xs ↔ ∀ x ∈ xs, x.InProfile := by
  induction xs with
  | nil => simp [Value.AllInProfile]
  | cons x xs ih => simp [Value.AllInProfile, ih]

theorem entriesInProfile_iff (es : List (Key × Value F)) :
    Value.EntriesInProfile es ↔ ∀ e ∈ es, e.2.InProfile := by
  induction es with
  | nil => simp [Value.EntriesInProfile]
  | cons e es ih =>
    show e.2.InProfile ∧ Value.EntriesInProfile es ↔ _
    simp [ih]

theorem sameItems_iff (xs ys : List (Value F)) : Value.SameItems xs ys ↔ List.Forall₂ Value.Same xs ys := by
  induction xs generalizing ys with
  | nil => cases ys <;> simp [Value.SameItems]
  | cons x xs ih =>
    cases ys with
    | nil => simp [Value.SameItems]
    | cons y ys => simp [Value.SameItems, ih]

theorem sameEntries_iff (es fs : List (Key × Value F)) :
    Value.SameEntries es fs ↔ ∀ e ∈ es, ∃ w, (e.1, w) ∈ fs ∧ e.2.Same w := by
  induction es with
  | nil => simp [Value.SameEntries]
  | cons e es ih =>
    show (∃ w, (e.1, w) ∈ fs ∧ e.2.Same w) ∧ Value.SameEntries es fs ↔ _
    rw [ih, List.forall_mem_cons]

theorem sortedItems_eq (xs : List (Value F)) : Value.sortedItems xs = xs.map Value.sorted := by
  induction xs with
  | nil => rfl
  | cons x xs ih => exact congrArg _ ih

theorem sortedEntries_eq (es : List (Key × Value F)) :
    Value.sortedEntries es = es.map (fun e => (e.1, e.2.sorted)) := by
  induction es with
  | nil => rfl
  | cons e es ih => exact congrArg _ ih

theorem listedItems_eq (xs : List (Value F)) : Value.listedItems xs = xs.map Value.listed := by
  induction xs with
  | nil => rfl
  | cons x xs ih => exact congrArg _ ih

theorem listedEntries_eq (es : List (Key × Value F)) :
    Value.listedEntries es = es.map (fun e => (e.1, e.2.listed)) := by
  induction es with
  | nil => rfl
  | cons e es ih => exact congrArg _ ih

theorem depth_le_of_mem_entries {es : List (Key × Value F)} {e : Key × Value F} (h : e ∈ es) :
    e.2.depth ≤ Value.entriesDepth es := by
  induction es with
  | nil => exact absurd h List.not_mem_nil
  | cons y ys ih =>
    obtain rfl | h := List.mem_cons.mp h
    · exact le_max_left _ _
    · exact (ih h).trans (le_max_right _ _)

theorem itemsDepth_le_iff {xs : List (Value F)} {n : Nat} : Value.itemsDepth xs ≤ n ↔ ∀ x ∈ xs, x.depth ≤ n := by
  induction xs with
  | nil => simp [Value.itemsDepth]
  | cons x xs ih => rw [Value.itemsDepth, Nat.max_le, ih, List.forall_mem_cons]

theorem entriesDepth_le_iff {es : List (Key × Value F)} {n : Nat} :
    Value.entriesDepth es ≤ n ↔ ∀ e ∈ es, e.2.depth ≤ n := by
  induction es with
  | nil => simp [Value.entriesDepth]
  | cons e es ih =>
    rw [List.forall_mem_cons, ← ih, ← Nat.max_le]
    rfl

theorem mem_sorted_entries {es : List (Key × Value F)} {k : Key} {w : Value F} :
    (k, w) ∈ (Value.sortedEntries es).mergeSort entryLe ↔ ∃ v, (k, v) ∈ es ∧ v.sorted = w := by
  rw [List.mem_mergeSort, sortedEntries_eq, List.mem_map]
  constructor
  · rintro ⟨⟨k', v⟩, hmem, heq⟩
    obtain ⟨rfl, rfl⟩ := Prod.mk.inj heq
    exact ⟨v, hmem, rfl⟩
  · rintro ⟨v, hmem, rfl⟩
    exact ⟨(k, v), hmem, rfl⟩

theorem mem_sorted_keys {es : List (Key × Value F)} {k : Key} :
    k ∈ ((Value.sortedEntries es).mergeSort entryLe).map Prod.fst ↔ k ∈ es.map Prod.fst := by
  constructor
  · intro h
    obtain ⟨⟨k', w⟩, hmem, rfl⟩ := List.mem_map.mp h
    obtain ⟨v, hv, -⟩ := mem_sorted_entries.mp hmem
    exact List.mem_map.mpr ⟨_, hv, rfl⟩
  · intro h
    obtain ⟨⟨k', v⟩, hmem, rfl⟩ := List.mem_map.mp h
    exact List.mem_map.mpr ⟨_, mem_sorted_entries.mpr ⟨v, hmem, rfl⟩, rfl⟩

/-- The order of the keys does not change the finite map. -/
theorem sorted_same (v : Value F) : v.sorted.Same v := by
  induction v using Value.induct with
  | none => trivial
  | bool b => rfl
  | int i => rfl
  | float x => rfl
  | str s => rfl
  | list xs ih =>
    show Value.SameItems (Value.sortedItems xs) xs
    rw [sameItems_iff, sortedItems_eq, List.forall₂_map_left_iff]
    exact List.forall₂_same.mpr ih
  | tuple xs ih =>
    show Value.SameItems (Value.sortedItems xs) xs
    rw [sameItems_iff, sortedItems_eq, List.forall₂_map_left_iff]
    exact List.forall₂_same.mpr ih
  | dict es ih =>
    refine ⟨fun k => mem_sorted_keys, (sameEntries_iff _ _).mpr ?_⟩
    rintro ⟨k, w⟩ hmem
    obtain ⟨v, hv, rfl⟩ := mem_sorted_entries.mp hmem
    exact ⟨v, hv, ih _ hv⟩
  | other n => rfl

theorem forall₂_of_map_eq {xs ys : List (Value F)}
    (ih : ∀ x ∈ xs, ∀ {w : Value F}, x.sorted = w.sorted → x.Same w)
    (h : xs.map Value.sorted = ys.map Value.sorted) : List.Forall₂ Value.Same xs ys := by
  induction xs generalizing ys with
  | nil =>
    rw [List.map_eq_nil_iff.mp h.symm]
    exact List.Forall₂.nil
  | cons x xs ihxs =>
    obtain ⟨y, ys, rfl, hy, hys⟩ := List.map_eq_cons_iff.mp h.symm
    rw [List.forall_mem_cons] at ih
    exact List.Forall₂.cons (ih.1 hy.symm) (ihxs ih.2 hys.symm)

theorem same_of_sorted_eq {v w : Value F} (h : v.sorted = w.sorted) : v.Same w := by
  induction v using Value.induct generalizing w with
  | none => cases w <;> simp_all [Value.sorted, Value.Same]
  | bool b => cases w <;> simp_all [Value.sorted, Value.Same]
  | int i => cases w <;> simp_all [Value.sorted, Value.Same]
  | float x => cases w <;> simp_all [Value.sorted, Value.Same]
  | str s => cases w <;> simp_all [Value.sorted, Value.Same]
  | other n => cases w <;> simp_all [Value.sorted, Value.Same]
  | list xs ih =>
    cases w with
    | list ys =>
      have hitems : xs.map Value.sorted = ys.map Value.sorted := by
        rw [← sortedItems_eq, ← sortedItems_eq]
        exact Value.list.inj h
      exact (sameItems_iff xs ys).mpr (forall₂_of_map_eq ih hitems)
    | _ => simp [Value.sorted] at h
  | tuple xs ih =>
    cases w with
    | tuple ys =>
      have hitems : xs.map Value.sorted = ys.map Value.sorted := by
        rw [← sortedItems_eq, ← sortedItems_eq]
        exact Value.tuple.inj h
      exact (sameItems_iff xs ys).mpr (forall₂_of_map_eq ih hitems)
    | _ => simp [Value.sorted] at h
  | dict es ih =>
    cases w with
    | dict fs =>
      have hentries := Value.dict.inj h
      refine ⟨fun k => ?_, (sameEntries_iff es fs).mpr ?_⟩
      · rw [← mem_sorted_keys, hentries, mem_sorted_keys]
      · rintro ⟨k, v⟩ hmem
        have hsorted := mem_sorted_entries.mpr ⟨v, hmem, rfl⟩
        rw [hentries] at hsorted
        obtain ⟨w, hw, heq⟩ := mem_sorted_entries.mp hsorted
        exact ⟨w, hw, ih _ hmem heq.symm⟩
    | _ => simp [Value.sorted] at h

end values

/-! ## What is written -/

variable {ε α β : Type} {s path : Text} {frames : Nat} {out : List Char} {parts : List (List Char)}

section encoder

variable {F : Type} {nonFinite : F → Bool}

theorem collect_eq_ok_iff {l : List (Except ε α)} {as : List α} :
    collect l = .ok as ↔ l = as.map .ok := by
  induction l generalizing as with
  | nil => cases as <;> simp [collect]
  | cons r l ih =>
    cases r with
    | error e => cases as <;> simp [collect]
    | ok a =>
      cases as with
      | nil => cases hl : collect l <;> simp [collect, hl, Except.map]
      | cons b bs =>
        cases hl : collect l with
        | error e =>
          have hne : l ≠ bs.map .ok := mt ih.mpr (by simp [hl])
          simp [collect, hl, Except.map, hne]
        | ok cs =>
          have hcs : (cs = bs) ↔ l = bs.map .ok := by
            rw [← ih, hl, Except.ok.injEq]
          simp [collect, hl, Except.map, hcs]

theorem map_eq_ok_iff {r : Except ε α} {f : α → β} {b : β} :
    r.map f = .ok b ↔ ∃ a, r = .ok a ∧ f a = b := by
  cases r <;> simp [Except.map]

theorem bind_eq_ok_iff {r : Except ε α} {k : α → Except ε β} {b : β} :
    r.bind k = .ok b ↔ ∃ a, r = .ok a ∧ k a = .ok b := by
  cases r <;> simp [Except.bind]

theorem scalars_eq_some_iff {cs : List Char} : scalars s = some cs ↔ s = cs.map .scalar := by
  induction s generalizing cs with
  | nil => cases cs <;> simp [scalars]
  | cons p s ih =>
    cases p with
    | surrogate n => cases cs <;> simp [scalars]
    | scalar c => cases cs <;> simp [scalars, ih, and_comm]

@[simp] theorem raiseCanonicalization_ne_ok (frames : Nat) (path : Text) (code : Code) (a : α) :
    raiseCanonicalization frames path code ≠ .ok a := by
  cases frames <;> simp [raiseCanonicalization]

theorem encodeString_eq_ok_iff :
    encodeString frames s path = .ok out ↔
      0 < frames ∧ ∃ cs : List Char, s = cs.map .scalar ∧ '"' :: cs.flatMap escapeChar ++ ['"'] = out := by
  cases frames with
  | zero => simp [encodeString]
  | succ frames =>
    rw [encodeString]
    cases hs : scalars s with
    | none =>
      simp only [raiseCanonicalization_ne_ok, false_iff, not_and, not_exists]
      intro _ cs hcs
      rw [scalars_eq_some_iff.mpr hcs] at hs
      exact absurd hs (by simp)
    | some cs =>
      have hcs := scalars_eq_some_iff.mp hs
      constructor
      · intro h
        exact ⟨frames.succ_pos, cs, hcs, Except.ok.inj h⟩
      · rintro ⟨-, cs', hcs', rfl⟩
        rw [scalars_eq_some_iff.mpr hcs'] at hs
        rw [Option.some.inj hs]

/-- An ASCII string has no surrogates. -/
theorem scalars_of_isAscii (h : isAscii s = true) : ∃ cs : List Char, s = cs.map .scalar := by
  induction s with
  | nil => exact ⟨[], rfl⟩
  | cons p s ih =>
    simp only [isAscii, List.all_cons, Bool.and_eq_true, decide_eq_true_eq] at h
    obtain ⟨cs, rfl⟩ := ih h.2
    cases p with
    | scalar c => exact ⟨c :: cs, rfl⟩
    | surrogate n => exact absurd h.1 (by simp only [CodePoint.ord]; omega)

theorem checkKeys_eq_ok_iff {keys : List Key} {texts : List Text} :
    checkKeys frames path keys = .ok texts ↔ (∀ k ∈ keys, k.IsAscii) ∧ keys.map Key.text = texts := by
  induction keys generalizing texts with
  | nil => simp [checkKeys]
  | cons k keys ih =>
    cases k with
    | other n => simp [checkKeys, Key.IsAscii]
    | str s =>
      unfold checkKeys
      split_ifs with hs
      · rw [map_eq_ok_iff]
        simp only [ih, List.forall_mem_cons, Key.IsAscii, hs, true_and, List.map_cons, Key.text]
        constructor
        · rintro ⟨ts, ⟨hall, rfl⟩, rfl⟩
          exact ⟨hall, rfl⟩
        · rintro ⟨hall, rfl⟩
          exact ⟨_, ⟨hall, rfl⟩, rfl⟩
      · simp [Key.IsAscii, hs]

/-- Keys that are strings are told apart by their texts. -/
theorem key_eq_of_isAscii {k : Key} (h : k.IsAscii) : k = .str k.text := by
  cases k with
  | str s => rfl
  | other n => exact absurd h id

theorem nodup_texts_iff {keys : List Key} (h : ∀ k ∈ keys, k.IsAscii) :
    (keys.map Key.text).Nodup ↔ keys.Nodup := by
  constructor
  · exact List.Nodup.of_map _
  · intro hnodup
    refine hnodup.map_on (fun a ha b hb heq => ?_)
    rw [key_eq_of_isAscii (h a ha), key_eq_of_isAscii (h b hb), heq]

theorem encodeEntries_eq (frames : Nat) (es : List (Key × Value F)) (path : Text) :
    encodeEntries nonFinite frames es path =
      es.map (fun e => (e.1.text, encode nonFinite frames e.2 (childPath path e.1.text))) := by
  induction es with
  | nil => rfl
  | cons e es ih => exact congrArg _ ih

/-- The members that are written: those of the entries in their order. -/
theorem sorted_members (frames : Nat) (es : List (Key × Value F)) (path : Text) :
    ((encodeEntries nonFinite frames es path).mergeSort (fun a b => keyLe a.1 b.1)).map (member frames path) =
      (es.mergeSort entryLe).map
        (fun e => member frames path (e.1.text, encode nonFinite frames e.2 (childPath path e.1.text))) := by
  have hsort : ((es.map (fun e => (e.1.text, encode nonFinite frames e.2 (childPath path e.1.text)))).mergeSort
      (fun a b => keyLe a.1 b.1)) =
        (es.mergeSort entryLe).map (fun e => (e.1.text, encode nonFinite frames e.2 (childPath path e.1.text))) :=
    (List.map_mergeSort (f := fun e : Key × Value F =>
      (e.1.text, encode nonFinite frames e.2 (childPath path e.1.text))) (fun _ _ _ _ => rfl)).symm
  rw [encodeEntries_eq, hsort, List.map_map]
  rfl

/-- What is written took a frame. -/
theorem frames_of_encode {v : Value F}
    (h : encode nonFinite frames v path = .ok out) : ∃ n, frames = n + 1 := by
  cases frames with
  | zero => exact absurd h (by simp [encode])
  | succ n => exact ⟨n, rfl⟩

theorem encode_dict_eq_ok_iff {es : List (Key × Value F)} :
    encode nonFinite (frames + 1) (.dict es) path = .ok out ↔
      (∀ k ∈ es.map Prod.fst, k.IsAscii) ∧ (es.map Prod.fst).Nodup ∧
      ∃ parts, collect ((es.mergeSort entryLe).map
          (fun e => member frames path (e.1.text, encode nonFinite frames e.2 (childPath path e.1.text)))) = .ok parts ∧
        '\x7b' :: joinCommas parts ++ ['\x7d'] = out := by
  rw [encode, bind_eq_ok_iff]
  constructor
  · rintro ⟨texts, hkeys, hrest⟩
    obtain ⟨hascii, rfl⟩ := checkKeys_eq_ok_iff.mp hkeys
    split_ifs at hrest with hnodup
    · rw [nodup_texts_iff hascii] at hnodup
      rw [sorted_members, map_eq_ok_iff] at hrest
      exact ⟨hascii, hnodup, hrest⟩
    · exact (raiseCanonicalization_ne_ok _ _ _ _ hrest).elim
  · rintro ⟨hascii, hnodup, hrest⟩
    refine ⟨_, checkKeys_eq_ok_iff.mpr ⟨hascii, rfl⟩, ?_⟩
    rw [if_neg (not_not.mpr ((nodup_texts_iff hascii).mpr hnodup)), sorted_members, map_eq_ok_iff]
    exact hrest

theorem member_eq_ok_iff {key : Text} {value : Except EncodeRaised (List Char)} {part : List Char} :
    member frames path (key, value) = .ok part ↔ 0 < frames ∧ ∃ (cs : List Char) (out : List Char),
      key = cs.map .scalar ∧ value = .ok out ∧ '"' :: (cs.flatMap escapeChar ++ '"' :: ':' :: out) = part := by
  unfold member
  rw [bind_eq_ok_iff]
  constructor
  · rintro ⟨k, hk, hrest⟩
    obtain ⟨hpos, cs, hcs, rfl⟩ := encodeString_eq_ok_iff.mp hk
    obtain ⟨out, hout, rfl⟩ := map_eq_ok_iff.mp hrest
    exact ⟨hpos, cs, out, hcs, hout, by simp⟩
  · rintro ⟨hpos, cs, out, hcs, hout, rfl⟩
    exact ⟨_, encodeString_eq_ok_iff.mpr ⟨hpos, cs, hcs, rfl⟩, map_eq_ok_iff.mpr ⟨out, hout, by simp⟩⟩

theorem inProfile_of_encodeItems {xs : List (Value F)}
    (ih : ∀ x ∈ xs, ∀ path out, encode nonFinite frames x path = .ok out → x.listed.InProfile)
    {i : Nat} (h : collect (encodeItems nonFinite frames xs path i) = .ok parts) :
    Value.AllInProfile (Value.listedItems xs) := by
  induction xs generalizing i parts with
  | nil => trivial
  | cons x xs ihxs =>
    rw [List.forall_mem_cons] at ih
    rw [collect_eq_ok_iff, encodeItems] at h
    obtain ⟨out, parts, rfl, hout, hparts⟩ := List.map_eq_cons_iff.mp h.symm
    exact ⟨ih.1 _ out hout.symm, ihxs ih.2 (collect_eq_ok_iff.mpr hparts.symm)⟩

theorem listed_dict_inProfile_iff {es : List (Key × Value F)} : (Value.dict es).listed.InProfile ↔
    (∀ k ∈ es.map Prod.fst, k.IsAscii) ∧ (es.map Prod.fst).Nodup ∧ ∀ e ∈ es, e.2.listed.InProfile := by
  have hlisted : (Value.listedEntries es).map Prod.fst = es.map Prod.fst := by
    rw [listedEntries_eq, List.map_map]
    rfl
  have hascii : (∀ e ∈ Value.listedEntries es, e.1.IsAscii) ↔ ∀ k ∈ es.map Prod.fst, k.IsAscii := by
    rw [← hlisted]
    simp only [List.forall_mem_map]
  show ((∀ e ∈ Value.listedEntries es, e.1.IsAscii) ∧ ((Value.listedEntries es).map Prod.fst).Nodup ∧
    Value.EntriesInProfile (Value.listedEntries es)) ↔ _
  rw [hascii, hlisted, entriesInProfile_iff, listedEntries_eq]
  simp only [List.forall_mem_map]

theorem inProfile_of_encode {v : Value F}
    (h : encode nonFinite frames v path = .ok out) : v.listed.InProfile := by
  induction v using Value.induct generalizing frames path out with
  | none => trivial
  | bool b => trivial
  | int i =>
    obtain ⟨n, rfl⟩ := frames_of_encode h
    unfold encode at h
    split_ifs at h with hrange
    · exact hrange
    · exact (raiseCanonicalization_ne_ok _ _ _ _ h).elim
  | float x =>
    obtain ⟨n, rfl⟩ := frames_of_encode h
    exact (raiseCanonicalization_ne_ok _ _ _ _ h).elim
  | str s =>
    obtain ⟨n, rfl⟩ := frames_of_encode h
    obtain ⟨-, cs, hcs, -⟩ := encodeString_eq_ok_iff.mp h
    show (scalars s).isSome = true
    rw [scalars_eq_some_iff.mpr hcs]
    rfl
  | list xs ih =>
    obtain ⟨n, rfl⟩ := frames_of_encode h
    obtain ⟨parts, hparts, -⟩ := map_eq_ok_iff.mp h
    exact inProfile_of_encodeItems (fun x hx path out => ih x hx) hparts
  | tuple xs ih =>
    obtain ⟨n, rfl⟩ := frames_of_encode h
    obtain ⟨parts, hparts, -⟩ := map_eq_ok_iff.mp h
    exact inProfile_of_encodeItems (fun x hx path out => ih x hx) hparts
  | dict es ih =>
    obtain ⟨n, rfl⟩ := frames_of_encode h
    obtain ⟨hkeys, hnodup, parts, hparts, -⟩ := encode_dict_eq_ok_iff.mp h
    refine listed_dict_inProfile_iff.mpr ⟨hkeys, hnodup, fun e he => ?_⟩
    have hmember : member n path (e.1.text, encode nonFinite n e.2 (childPath path e.1.text)) ∈ parts.map .ok :=
      collect_eq_ok_iff.mp hparts ▸ List.mem_map_of_mem (List.mem_mergeSort.mpr he)
    obtain ⟨part, -, hpart⟩ := List.mem_map.mp hmember
    obtain ⟨-, -, out, -, hout, -⟩ := member_eq_ok_iff.mp hpart.symm
    exact ih e he hout
  | other n =>
    obtain ⟨m, rfl⟩ := frames_of_encode h
    exact (raiseCanonicalization_ne_ok _ _ _ _ h).elim

/-! ### The order of the keys -/

theorem keyLe_trans (a b c : Text) (hab : keyLe a b = true) (hbc : keyLe b c = true) : keyLe a c = true := by
  unfold keyLe at *
  rw [decide_eq_true_eq] at *
  exact le_trans hab hbc

theorem keyLe_total (a b : Text) : (keyLe a b || keyLe b a) = true := by
  unfold keyLe
  rw [Bool.or_eq_true, decide_eq_true_eq, decide_eq_true_eq]
  exact le_total _ _

theorem keyLe_antisymm {a b : Text} (hab : keyLe a b = true) (hba : keyLe b a = true) : a = b := by
  unfold keyLe at *
  rw [decide_eq_true_eq] at *
  exact CodePoint.ord_injective.list_map (le_antisymm hab hba)

theorem mergeSort_eq_of_mem {l l' : List (Text × β)} (hl : (l.map Prod.fst).Nodup)
    (hl' : (l'.map Prod.fst).Nodup) (hmem : ∀ x, x ∈ l ↔ x ∈ l') :
    l.mergeSort (fun a b => keyLe a.1 b.1) = l'.mergeSort (fun a b => keyLe a.1 b.1) := by
  have hperm : l.Perm l' := (List.perm_ext_iff_of_nodup hl.of_map hl'.of_map).mpr hmem
  refine @List.Perm.eq_of_pairwise _ (fun a b => keyLe a.1 b.1 = true) _ _ ?_ ?_ ?_ ?_
  · rintro ⟨a, x⟩ ⟨b, y⟩ ha hb hab hba
    rw [List.mem_mergeSort] at ha hb
    obtain rfl : a = b := keyLe_antisymm hab hba
    have hb' := (hmem _).mpr hb
    exact List.inj_on_of_nodup_map hl ha hb' rfl
  · exact List.pairwise_mergeSort (fun a b c => keyLe_trans a.1 b.1 c.1) (fun a b => keyLe_total a.1 b.1) l
  · exact List.pairwise_mergeSort (fun a b c => keyLe_trans a.1 b.1 c.1) (fun a b => keyLe_total a.1 b.1) l'
  · exact (List.mergeSort_perm _ _).trans (hperm.trans (List.mergeSort_perm _ _).symm)

theorem encodeEntries_eq_of_same {frames : Nat} {es fs : List (Key × Value F)} {path : Text}
    (hfs : (Value.dict fs).InProfile) (h : (Value.dict es).Same (.dict fs))
    (ih : ∀ e ∈ es, ∀ {w : Value F}, w.InProfile → e.2.Same w → ∀ path,
      encode nonFinite frames e.2 path = encode nonFinite frames w path) (x : Text × Except EncodeRaised (List Char)) :
    x ∈ encodeEntries nonFinite frames es path ↔ x ∈ encodeEntries nonFinite frames fs path := by
  obtain ⟨hkeys, hsame⟩ := h
  rw [sameEntries_iff] at hsame
  have hvalues := (entriesInProfile_iff fs).mp hfs.2.2
  rw [encodeEntries_eq, encodeEntries_eq, List.mem_map, List.mem_map]
  constructor
  · rintro ⟨e, he, rfl⟩
    obtain ⟨w, hwmem, hvw⟩ := hsame e he
    exact ⟨_, hwmem, by rw [ih e he (hvalues _ hwmem) hvw]⟩
  · rintro ⟨⟨k, w⟩, hf, rfl⟩
    obtain ⟨e, he, hek⟩ := List.mem_map.mp ((hkeys k).mpr (List.mem_map.mpr ⟨_, hf, rfl⟩))
    obtain ⟨w', hw', hvw⟩ := hsame e he
    -- The entry of the other dict is the one of this key.
    obtain rfl : w' = w := by
      have heq := List.inj_on_of_nodup_map hfs.2.1 hw' hf hek
      exact (Prod.mk.inj heq).2
    refine ⟨e, he, ?_⟩
    rw [ih e he (hvalues _ hf) hvw, hek]

/-- Equal finite maps of the profile are written alike. -/
theorem encode_eq_of_same {v w : Value F} (hv : v.InProfile) (hw : w.InProfile) (h : v.Same w) (frames : Nat)
    (path : Text) : encode nonFinite frames v path = encode nonFinite frames w path := by
  induction v using Value.induct generalizing w frames path with
  | none => cases w <;> simp_all [Value.Same]
  | bool b => cases w <;> simp_all [Value.Same]
  | int i => cases w <;> simp_all [Value.Same]
  | float x => exact absurd hv id
  | str s => cases w <;> simp_all [Value.Same]
  | other n => exact absurd hv id
  | tuple xs ih => exact absurd hv id
  | list xs ih =>
    cases w with
    | list ys =>
      have hxs := (allInProfile_iff xs).mp hv
      have hys := (allInProfile_iff ys).mp hw
      have hsame := (sameItems_iff xs ys).mp h
      have hitems : ∀ n i, encodeItems nonFinite n xs path i = encodeItems nonFinite n ys path i := by
        clear h hv hw
        induction hsame with
        | nil => exact fun n i => rfl
        | cons hxy hrest ihrest =>
          rw [List.forall_mem_cons] at hxs hys ih
          intro n i
          rw [encodeItems, encodeItems, ih.1 hxs.1 hys.1 hxy, ihrest ih.2 hxs.2 hys.2]
      cases frames with
      | zero => rw [encode, encode]
      | succ n => rw [encode, encode, hitems]
    | _ => exact absurd h (by simp [Value.Same])
  | dict es ih =>
    cases w with
    | dict fs =>
      cases frames with
      | zero => rw [encode, encode]
      | succ n =>
        have hes := (entriesInProfile_iff es).mp hv.2.2
        have hmem := @encodeEntries_eq_of_same _ nonFinite _ _ _ path hw h
          (fun e he w hw hsame path => ih e he (hes e he) hw hsame n path)
        have hkeysOf : ∀ gs : List (Key × Value F), (Value.dict gs).InProfile →
            ((encodeEntries nonFinite n gs path).map Prod.fst).Nodup := by
          intro gs hgs
          have hmap : (encodeEntries nonFinite n gs path).map Prod.fst = (gs.map Prod.fst).map Key.text := by
            rw [encodeEntries_eq, List.map_map, List.map_map]
            rfl
          rw [hmap, nodup_texts_iff (by simpa only [List.forall_mem_map] using hgs.1)]
          exact hgs.2.1
        have hsorted := mergeSort_eq_of_mem (hkeysOf es hv) (hkeysOf fs hw) hmem
        have hok : ∀ gs : List (Key × Value F), (Value.dict gs).InProfile →
            encode nonFinite (n + 1) (.dict gs) path =
              (collect (((encodeEntries nonFinite n gs path).mergeSort (fun a b => keyLe a.1 b.1)).map
                (member n path))).map (fun parts => '\x7b' :: joinCommas parts ++ ['\x7d']) := by
          intro gs hgs
          have hgs' : ∀ k ∈ gs.map Prod.fst, k.IsAscii := by simpa only [List.forall_mem_map] using hgs.1
          rw [encode, checkKeys_eq_ok_iff.mpr ⟨hgs', rfl⟩]
          show (if _ then _ else _) = _
          rw [if_neg (not_not.mpr ((nodup_texts_iff hgs').mpr hgs.2.1))]
        rw [hok es hv, hok fs hw, hsorted]
    | _ => exact absurd h (by simp [Value.Same])

end encoder

/-! ## What is read back -/

/-- The number that the digits of a Unicode escape name. -/
def escapeDigits : List Char → Option Nat
  | [a, b, c, d] => hex4 a b c d
  | _ => none

theorem scanEscapes_escapeChar (c : Char) (rest : List Char) :
    scanEscapes (escapeChar c ++ rest) = consTo (.scalar c) (scanEscapes rest) := by
  unfold escapeChar
  cases hshort : shortEscapeOf c with
  | some esc =>
    unfold shortEscapeOf at hshort
    split_ifs at hshort with h1 h2 h3 h4 h5 h6 h7 <;> obtain rfl := Option.some.inj hshort <;> subst_vars <;>
      exact scanEscapes_short rfl (by decide)
  | none =>
    dsimp only
    split_ifs with hctrl
    · -- A control character, or the delete character, has four digits.
      have hdigits : ∀ n < 128, escapeDigits (List.leftpad 4 '0' (Nat.toDigits 16 n)) = some n := by
        decide
      have hn := hdigits c.toNat (by omega)
      unfold unicodeEscape
      unfold escapeDigits at hn
      split at hn
      · rename_i heq
        rw [heq]
        show scanEscapes ('\\' :: 'u' :: _ :: _ :: _ :: _ :: rest) = _
        rw [scanEscapes_unicode hn, CodePoint.ofNat_toNat (by omega)]
      · exact absurd hn (by simp)
    · unfold shortEscapeOf at hshort
      split_ifs at hshort with hquote hback
      exact scanEscapes_plain hquote hback (by omega)

section decoder

variable {F : Type} {nonFinite : F → Bool} {parseFloat : List Char → F}

theorem literalDigits_intText (i : Int) : literalDigits (intText i) = Nat.toDigits 10 i.natAbs := by
  obtain ⟨c, cs, hcs⟩ := List.exists_cons_of_ne_nil (Nat.toDigits_ne_nil (n := i.natAbs) (b := 10))
  have hc : c.isDigit = true :=
    Nat.isDigit_of_mem_toDigits (by decide) (by decide) (hcs ▸ List.mem_cons_self)
  have hne : c ≠ '-' := by
    rintro rfl
    exact absurd hc (by decide)
  unfold literalDigits intText
  split_ifs
  · rw [List.dropWhile_cons_of_pos (by decide), hcs, List.dropWhile_cons_of_neg (by simpa using hne)]
  · rw [hcs, List.dropWhile_cons_of_neg (by simpa using hne)]

/-- The sign of an integer is the first character of its text. -/
theorem intText_head_eq_minus_iff (i : Int) : (intText i).head? = some '-' ↔ i < 0 := by
  unfold intText
  split_ifs with hneg
  · simp [hneg]
  · obtain ⟨c, cs, hcs⟩ := List.exists_cons_of_ne_nil (Nat.toDigits_ne_nil (n := i.natAbs) (b := 10))
    have hc : c.isDigit = true :=
      Nat.isDigit_of_mem_toDigits (by decide) (by decide) (hcs ▸ List.mem_cons_self)
    rw [hcs, List.head?_cons, Option.some.injEq, iff_false_right hneg]
    rintro rfl
    exact absurd hc (by decide)

/-- An integer of the profile has few digits. -/
theorem parseInt_intText {i : Int} (h : SAFE_INT_MIN ≤ i ∧ i ≤ SAFE_INT_MAX) :
    parseInt (intText i) = .ok (.int i : Value F) := by
  have hshort : (Nat.toDigits 10 i.natAbs).length ≤ 16 := by
    rw [Nat.length_toDigits_le_iff (by decide) (by decide)]
    simp only [SAFE_INT_MIN, SAFE_INT_MAX] at h
    omega
  have hlong : ¬INT_MAX_STR_DIGITS < (Nat.toDigits 10 i.natAbs).length := by
    rw [INT_MAX_STR_DIGITS]
    omega
  unfold parseInt
  rw [literalDigits_intText, if_neg hlong]
  dsimp only
  rw [Nat.ofDigitChars_ten_toDigits]
  congr 2
  by_cases hneg : i < 0
  · rw [if_pos ((intText_head_eq_minus_iff i).mpr hneg)]
    omega
  · rw [if_neg (fun hhead => hneg ((intText_head_eq_minus_iff i).mp hhead))]
    omega

theorem hooks_object {pairs : List (Text × Value F)} {v : Value F} (h : rejectDuplicateKeys pairs = .ok v) :
    (hooks parseFloat).object pairs = .ok v := by
  show (rejectDuplicateKeys pairs).mapError Raised.canonicalization = _
  rw [h]
  rfl

/-- What the encoder writes for the value is read back. -/
def ReadsBack (nonFinite : F → Bool) (parseFloat : List Char → F) (v : Value F) : Prop :=
  ∀ frames path out, encode nonFinite frames v path = .ok out → Begins out ∧ ∀ fuel depth rest, 2 * out.length ≤ fuel →
    v.depth ≤ depth → Ends rest →
    scanOnce (hooks parseFloat) fuel depth (out ++ rest) = .ok (v.sorted, rest)

theorem readsBack_string (h : encodeString frames s path = .ok out) (fuel depth : Nat)
    (rest : List Char) (hf : 2 * out.length ≤ fuel) :
    scanOnce (hooks parseFloat) fuel depth (out ++ rest) = .ok (.str s, rest) := by
  obtain ⟨-, cs, rfl, rfl⟩ := encodeString_eq_ok_iff.mp h
  obtain ⟨fuel, rfl⟩ : ∃ n, fuel = n + 1 := ⟨fuel - 1, by simp only [List.length_cons, List.cons_append] at hf; omega⟩
  have hscan : scanString (cs.flatMap escapeChar ++ ['"'] ++ rest) = some (cs.map .scalar, rest) := by
    rw [List.append_assoc]
    exact scanString_escaped scanEscapes_escapeChar cs rest
  exact scanOnce_string hscan

theorem readsBack_items {xs : List (Value F)} (ih : ∀ x ∈ xs, ReadsBack nonFinite parseFloat x)
    (hne : xs ≠ []) {i : Nat} (h : collect (encodeItems nonFinite frames xs path i) = .ok parts) :
    Begins (joinCommas parts) ∧ ∀ fuel depth rest, 2 * (joinCommas parts).length + 1 ≤ fuel →
      Value.itemsDepth xs ≤ depth →
      scanElements (hooks parseFloat) fuel depth (joinCommas parts ++ ']' :: rest) =
        .ok (xs.map Value.sorted, rest) := by
  induction xs generalizing i parts with
  | nil => exact absurd rfl hne
  | cons x xs ihxs =>
    rw [List.forall_mem_cons] at ih
    rw [collect_eq_ok_iff, encodeItems] at h
    obtain ⟨out, parts, rfl, hout, hparts⟩ := List.map_eq_cons_iff.mp h.symm
    obtain ⟨hbegins, hscan⟩ := ih.1 _ _ out hout.symm
    have hcollect := collect_eq_ok_iff.mpr hparts.symm
    cases xs with
    | nil =>
      obtain rfl : parts = [] := List.map_eq_nil_iff.mp hparts
      refine ⟨hbegins, fun fuel depth rest hf hd => ?_⟩
      obtain ⟨fuel, rfl⟩ : ∃ n, fuel = n + 1 := ⟨fuel - 1, by omega⟩
      have hx := hscan fuel depth (']' :: rest) (by simpa [joinCommas] using hf)
        ((le_max_left _ _).trans hd) (ends_cons (by simp))
      exact scanElements_last hx
    | cons y ys =>
      obtain ⟨hbegins', hrest⟩ := ihxs ih.2 (by simp) hcollect
      obtain ⟨part, parts, rfl, -, -⟩ := List.map_eq_cons_iff.mp hparts
      refine ⟨hbegins.append _, fun fuel depth rest hf hd => ?_⟩
      have hlength : (joinCommas (out :: part :: parts)).length =
          out.length + (joinCommas (part :: parts)).length + 1 := by
        simp [joinCommas, Nat.add_assoc]
      rw [hlength] at hf
      obtain ⟨fuel, rfl⟩ : ∃ n, fuel = n + 1 := ⟨fuel - 1, by omega⟩
      have hpos : 0 < out.length := by
        obtain ⟨c, t, rfl, -⟩ := hbegins
        simp
      have hx := hscan fuel depth (',' :: (joinCommas (part :: parts) ++ ']' :: rest)) (by omega)
        ((le_max_left _ _).trans hd) (ends_cons (by simp))
      have hxs := hrest fuel depth rest (by omega) ((le_max_right _ _).trans hd)
      have htext : joinCommas (out :: part :: parts) ++ ']' :: rest =
          out ++ ',' :: (joinCommas (part :: parts) ++ ']' :: rest) := by
        simp [joinCommas]
      rw [htext]
      exact scanElements_more hx (hbegins'.append _) hxs

theorem readsBack_members {es : List (Key × Value F)} (ih : ∀ e ∈ es, ReadsBack nonFinite parseFloat e.2)
    (hne : es ≠ []) {frames : Nat} {path : Text} {parts : List (List Char)}
    (h : collect (es.map (fun e =>
      member frames path (e.1.text, encode nonFinite frames e.2 (childPath path e.1.text)))) = .ok parts) :
    Begins (joinCommas parts) ∧ ∀ fuel depth rest, 2 * (joinCommas parts).length + 1 ≤ fuel →
      (∀ e ∈ es, e.2.depth ≤ depth) →
      scanMembers (hooks parseFloat) fuel depth (joinCommas parts ++ '\x7d' :: rest) =
        .ok (es.map (fun e => (e.1.text, e.2.sorted)), rest) := by
  induction es generalizing parts with
  | nil => exact absurd rfl hne
  | cons e es ihes =>
    rw [List.forall_mem_cons] at ih
    rw [collect_eq_ok_iff, List.map_cons] at h
    obtain ⟨part, parts, rfl, hpart, hparts⟩ := List.map_eq_cons_iff.mp h.symm
    obtain ⟨-, cs, out, hkey, hout, rfl⟩ := member_eq_ok_iff.mp hpart.symm
    obtain ⟨hbegins, hscan⟩ := ih.1 _ _ out hout
    have hcollect := collect_eq_ok_iff.mpr hparts.symm
    have hquote : ∀ t, Begins ('"' :: t) := fun t => ⟨'"', t, rfl, by decide, by decide, by decide, by decide⟩
    have hname : ∀ t, scanString (cs.flatMap escapeChar ++ '"' :: ':' :: t) = some (e.1.text, ':' :: t) := by
      intro t
      rw [hkey]
      exact scanString_escaped scanEscapes_escapeChar cs (':' :: t)
    cases es with
    | nil =>
      obtain rfl : parts = [] := List.map_eq_nil_iff.mp hparts
      refine ⟨hquote _, fun fuel depth rest hf hd => ?_⟩
      rw [List.forall_mem_cons] at hd
      simp only [joinCommas, List.length_cons, List.length_append] at hf
      obtain ⟨fuel, rfl⟩ : ∃ n, fuel = n + 1 := ⟨fuel - 1, by omega⟩
      have hv := hscan fuel depth ('\x7d' :: rest) (by omega) hd.1 (ends_cons (by simp))
      have htext : joinCommas ['"' :: (cs.flatMap escapeChar ++ '"' :: ':' :: out)] ++ '\x7d' :: rest =
          '"' :: (cs.flatMap escapeChar ++ '"' :: ':' :: (out ++ '\x7d' :: rest)) := by
        simp [joinCommas]
      rw [htext]
      exact scanMembers_last (hname _) (hbegins.append _) hv
    | cons f fs =>
      obtain ⟨hbegins', hrest⟩ := ihes ih.2 (by simp) hcollect
      obtain ⟨part, parts, rfl, -, -⟩ := List.map_eq_cons_iff.mp hparts
      refine ⟨hquote _, fun fuel depth rest hf hd => ?_⟩
      rw [List.forall_mem_cons] at hd
      have htext : joinCommas (('"' :: (cs.flatMap escapeChar ++ '"' :: ':' :: out)) :: part :: parts) ++ '\x7d' :: rest =
          '"' :: (cs.flatMap escapeChar ++ '"' :: ':' :: (out ++ ',' :: (joinCommas (part :: parts) ++ '\x7d' :: rest))) := by
        simp [joinCommas]
      have hlength : (joinCommas (('"' :: (cs.flatMap escapeChar ++ '"' :: ':' :: out)) :: part :: parts)).length =
          (cs.flatMap escapeChar).length + out.length + (joinCommas (part :: parts)).length + 4 := by
        simp only [joinCommas, List.length_append, List.length_cons]
        omega
      rw [hlength] at hf
      obtain ⟨fuel, rfl⟩ : ∃ n, fuel = n + 1 := ⟨fuel - 1, by omega⟩
      have hv := hscan fuel depth (',' :: (joinCommas (part :: parts) ++ '\x7d' :: rest)) (by omega) hd.1
        (ends_cons (by simp))
      have hes := hrest fuel depth rest (by omega) hd.2
      rw [htext]
      exact scanMembers_more (hname _) (hbegins.append _) hv (hbegins'.append _) hes

theorem scanOnce_encode (v : Value F) (hv : v.InProfile) : ReadsBack nonFinite parseFloat v := by
  induction v using Value.induct with
  | none =>
    intro frames path out h
    obtain ⟨n, rfl⟩ := frames_of_encode h
    obtain rfl := Except.ok.inj h
    refine ⟨⟨'n', _, rfl, by decide, by decide, by decide, by decide⟩, fun fuel depth rest hf hd hends => ?_⟩
    obtain ⟨fuel, rfl⟩ : ∃ n, fuel = n + 1 := ⟨fuel - 1, by simp only [List.length_cons] at hf; omega⟩
    exact scanOnce_atom (by decide) (by decide) (by decide)
  | bool b =>
    intro frames path out h
    obtain ⟨n, rfl⟩ := frames_of_encode h
    cases b with
    | true =>
      obtain rfl := Except.ok.inj h
      refine ⟨⟨'t', _, rfl, by decide, by decide, by decide, by decide⟩, fun fuel depth rest hf hd hends => ?_⟩
      obtain ⟨fuel, rfl⟩ : ∃ n, fuel = n + 1 := ⟨fuel - 1, by simp only [List.length_cons] at hf; omega⟩
      exact scanOnce_atom (by decide) (by decide) (by decide)
    | false =>
      obtain rfl := Except.ok.inj h
      refine ⟨⟨'f', _, rfl, by decide, by decide, by decide, by decide⟩, fun fuel depth rest hf hd hends => ?_⟩
      obtain ⟨fuel, rfl⟩ : ∃ n, fuel = n + 1 := ⟨fuel - 1, by simp only [List.length_cons] at hf; omega⟩
      exact scanOnce_atom (by decide) (by decide) (by decide)
  | int i =>
    intro frames path out h
    obtain ⟨n, rfl⟩ := frames_of_encode h
    have hrange : SAFE_INT_MIN ≤ i ∧ i ≤ SAFE_INT_MAX := hv
    rw [encode, if_pos hrange] at h
    obtain rfl := Except.ok.inj h
    refine ⟨begins_intText i, fun fuel depth rest hf hd hends => ?_⟩
    obtain ⟨c, cs, htext, -⟩ := intText_head i
    rw [htext, List.length_cons] at hf
    obtain ⟨fuel, rfl⟩ : ∃ n, fuel = n + 1 := ⟨fuel - 1, by omega⟩
    exact scanOnce_intText i hends (parseInt_intText hrange)
  | float x => exact absurd hv id
  | str s =>
    intro frames path out h
    obtain ⟨n, rfl⟩ := frames_of_encode h
    refine ⟨?_, fun fuel depth rest hf hd hends => readsBack_string h fuel depth rest hf⟩
    obtain ⟨-, cs, -, rfl⟩ := encodeString_eq_ok_iff.mp h
    exact ⟨'"', _, rfl, by decide, by decide, by decide, by decide⟩
  | list xs ih =>
    intro frames path out h
    obtain ⟨n, rfl⟩ := frames_of_encode h
    have hxs := (allInProfile_iff xs).mp hv
    obtain ⟨parts, hparts, rfl⟩ := map_eq_ok_iff.mp h
    refine ⟨⟨'[', _, rfl, by decide, by decide, by decide, by decide⟩, fun fuel depth rest hf hd hends => ?_⟩
    simp only [List.cons_append, List.length_cons, List.length_append] at hf
    obtain ⟨fuel, rfl⟩ : ∃ n, fuel = n + 1 := ⟨fuel - 1, by omega⟩
    obtain ⟨depth, rfl⟩ : ∃ n, depth = n + 1 := ⟨depth - 1, by simp only [Value.depth] at hd; omega⟩
    have hd' : Value.itemsDepth xs ≤ depth := by simpa [Value.depth] using hd
    have htext : '[' :: joinCommas parts ++ [']'] ++ rest = '[' :: (joinCommas parts ++ ']' :: rest) := by simp
    rw [htext, Value.sorted, sortedItems_eq]
    by_cases hne : xs = []
    · subst hne
      obtain rfl : parts = [] := (Except.ok.inj hparts).symm
      exact scanOnce_emptyArray
    · obtain ⟨hbegins, hscan⟩ := readsBack_items (fun x hx => ih x hx (hxs x hx)) hne hparts
      exact scanOnce_array (hbegins.append _) (hscan fuel depth rest (by omega) hd')
  | tuple xs ih => exact absurd hv id
  | dict es ih =>
    intro frames path out h
    obtain ⟨n, rfl⟩ := frames_of_encode h
    obtain ⟨hascii, hnodup, hes⟩ := hv
    rw [entriesInProfile_iff] at hes
    obtain ⟨-, -, parts, hparts, rfl⟩ := encode_dict_eq_ok_iff.mp h
    refine ⟨⟨'\x7b', _, rfl, by decide, by decide, by decide, by decide⟩, fun fuel depth rest hf hd hends => ?_⟩
    simp only [List.cons_append, List.length_cons, List.length_append] at hf
    obtain ⟨fuel, rfl⟩ : ∃ n, fuel = n + 1 := ⟨fuel - 1, by omega⟩
    obtain ⟨depth, rfl⟩ : ∃ n, depth = n + 1 := ⟨depth - 1, by simp only [Value.depth] at hd; omega⟩
    have hd' : Value.entriesDepth es ≤ depth := by simpa [Value.depth] using hd
    have htext : '\x7b' :: joinCommas parts ++ ['\x7d'] ++ rest = '\x7b' :: (joinCommas parts ++ '\x7d' :: rest) := by
      simp
    -- The pairs that the decoder hands to the hook, as the entries of a dict.
    have hsorted : (Value.sortedEntries es).mergeSort entryLe =
        (es.mergeSort entryLe).map (fun e => (e.1, e.2.sorted)) := by
      rw [sortedEntries_eq]
      exact (List.map_mergeSort (f := fun e : Key × Value F => (e.1, e.2.sorted)) (fun _ _ _ _ => rfl)).symm
    have hobject : rejectDuplicateKeys ((es.mergeSort entryLe).map (fun e => (e.1.text, e.2.sorted))) =
        .ok (Value.dict es).sorted := by
      have hkeys : ((es.mergeSort entryLe).map (fun e => (e.1.text, e.2.sorted))).map Prod.fst =
          ((es.mergeSort entryLe).map Prod.fst).map Key.text := by
        rw [List.map_map, List.map_map]
        rfl
      have hascii' : ∀ k ∈ (es.mergeSort entryLe).map Prod.fst, k.IsAscii := by
        intro k hk
        obtain ⟨e, he, rfl⟩ := List.mem_map.mp hk
        exact hascii e (List.mem_mergeSort.mp he)
      have hnodup' : ((es.mergeSort entryLe).map Prod.fst).Nodup :=
        ((List.mergeSort_perm es entryLe).map Prod.fst).nodup_iff.mpr hnodup
      unfold rejectDuplicateKeys
      rw [hkeys, if_pos ((nodup_texts_iff hascii').mpr hnodup'), Value.sorted, hsorted, List.map_map]
      congr 2
      refine List.map_congr_left (fun e he => ?_)
      exact Prod.ext (key_eq_of_isAscii (hascii e (List.mem_mergeSort.mp he))).symm rfl
    rw [htext]
    by_cases hne : es = []
    · subst hne
      obtain rfl : parts = [] := by
        simpa [collect, List.mergeSort] using hparts.symm
      have hempty : rejectDuplicateKeys [] = .ok (Value.dict ([] : List (Key × Value F))).sorted := by
        simpa [List.mergeSort] using hobject
      exact scanOnce_emptyObject (hooks_object hempty)
    · have hne' : es.mergeSort entryLe ≠ [] := by
        intro hnil
        exact hne (List.length_eq_zero_iff.mp (by rw [← List.length_mergeSort, hnil]; rfl))
      obtain ⟨hbegins, hscan⟩ := readsBack_members
        (fun e he => ih e (List.mem_mergeSort.mp he) (hes e (List.mem_mergeSort.mp he))) hne' hparts
      refine scanOnce_object (hbegins.append _) (hscan fuel depth rest (by omega) (fun e he => ?_))
        (hooks_object hobject)
      exact (depth_le_of_mem_entries (List.mem_mergeSort.mp he)).trans hd'
  | other n => exact absurd hv id

/-! ## The bytes -/

theorem restrictedJcs_eq_ok_iff {v : Value F} {data : ByteArray} :
    restrictedJcs nonFinite frames v = .ok data ↔
      ∃ n out, frames = n + 1 ∧ encode nonFinite n v [] = .ok out ∧ (String.ofList out).toUTF8 = data := by
  cases frames with
  | zero => simp [restrictedJcs]
  | succ n => simp [restrictedJcs, map_eq_ok_iff]

theorem fromUTF8?_toUTF8 (s : String) : String.fromUTF8? s.toUTF8 = some s := by
  have hvalid : s.toUTF8.IsValidUTF8 := s.isValidUTF8
  unfold String.fromUTF8?
  rw [dif_pos hvalid]
  rfl

theorem strictParse_encode {v : Value F} (hv : v.InProfile) {limit : Nat} (hd : v.depth ≤ limit)
    (h : encode nonFinite frames v [] = .ok out) :
    strictParse parseFloat limit (String.ofList out).toUTF8 = .ok v.sorted := by
  obtain ⟨hbegins, hscan⟩ := scanOnce_encode v hv frames [] out h
  have hread := hscan (2 * out.length + 2) limit [] (by omega) hd ends_nil
  rw [List.append_nil] at hread
  unfold strictParse
  rw [fromUTF8?_toUTF8]
  dsimp only
  rw [String.toList_ofList, loads_of_scanOnce hbegins hread]

/-- The canonical bytes determine the value. -/
theorem same_of_restrictedJcs_eq (parseFloat : List Char → F) {v w : Value F} {data : ByteArray}
    {frames' : Nat} (hv : v.InProfile) (hw : w.InProfile)
    (hdata : restrictedJcs nonFinite frames v = .ok data)
    (hdata' : restrictedJcs nonFinite frames' w = .ok data) : v.Same w := by
  obtain ⟨n, out, -, hout, rfl⟩ := restrictedJcs_eq_ok_iff.mp hdata
  obtain ⟨n', out', -, hout', heq⟩ := restrictedJcs_eq_ok_iff.mp hdata'
  -- Both are read back from the same bytes.
  have hread : strictParse parseFloat _ _ = _ := strictParse_encode hv (le_max_left v.depth w.depth) hout
  have hread' : strictParse parseFloat _ _ = _ := strictParse_encode hw (le_max_right v.depth w.depth) hout'
  rw [heq, hread] at hread'
  exact same_of_sorted_eq (Except.ok.inj hread')

/-- Values without tuples are as they are. -/
theorem listed_of_inProfile {v : Value F} (h : v.InProfile) : v.listed = v := by
  induction v using Value.induct with
  | list xs ih =>
    have hxs := (allInProfile_iff xs).mp h
    rw [Value.listed, listedItems_eq]
    congr 1
    conv_rhs => rw [← List.map_id xs]
    exact List.map_congr_left (fun x hx => ih x hx (hxs x hx))
  | dict es ih =>
    have hes := (entriesInProfile_iff es).mp h.2.2
    rw [Value.listed, listedEntries_eq]
    congr 1
    conv_rhs => rw [← List.map_id es]
    exact List.map_congr_left (fun e he => Prod.ext rfl (ih e he (hes e he)))
  | tuple xs ih => exact absurd h id
  | _ => rfl

end decoder

end MuseAgentSocial.Canonical
