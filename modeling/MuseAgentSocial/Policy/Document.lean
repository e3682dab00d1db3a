import MuseAgentSocial.Canonical.Jcs
import MuseAgentSocial.Policy.Timestamps

/-!
# The policy document

The column `relationships.policy`, which `policy/delivery.py` and `policy/retention.py` read
and rewrite as one JSON object.

* `Document` is what `json.loads` returns.  `json.dumps` and `json.loads` carry it over, but
  for the order of the keys.
* `getItem`, `setItem` and `popItem` are the operations of a `dict`.
* `loadPolicyDocument` is `_load_policy_document` of either module.
-/

namespace MuseAgentSocial.Policy

open Json Canonical

/-- A dict with string keys. -/
abbrev Document (F : Type) := List (Key × Value F)

/-- The column `policy`: the text of an object, or any other text. -/
inductive Column (F : Type) where
  | object (document : Document F)
  | other

/-- The rows of `relationships` under their ids. -/
abbrev Relationships (F : Type) := Text → Option (Column F)

/-! ## Errors -/

/-- The codes of `PolicyError` and `RetentionError`. -/
inductive Code where
  | unknown_relationship | policy_not_json
  | invalid_delivery_mode | invalid_expiry_handling | invalid_shorten_window | shorten_window_without_shorten
  | invalid_period | invalid_payload | payload_too_large | plaintext_cache_not_enabled
  deriving DecidableEq, Repr

/-- An exception, with the object whose text is the detail. -/
inductive Exn (F : Type) where
  | policy_error (code : Code) (detail : Value F)
  | retention_error (code : Code) (detail : Value F)
  /-- `int()` refuses its argument. -/
  | conversion
  /-- A moment outside the calendar. -/
  | overflow
  /-- Anything else: a failed statement, a signal. -/
  | other

section document

variable {F : Type}

/-- `document.get(key)` -/
def getItem (document : Document F) (key : Text) : Option (Value F) :=
  (document.find? (fun e => e.1 = .str key)).map Prod.snd

/-- `document[key] = value` -/
def setItem (document : Document F) (key : Text) (value : Value F) : Document F :=
  if document.any (fun e => e.1 = .str key) then
    document.map (fun e => if e.1 = .str key then (e.1, value) else e)
  else document ++ [(.str key, value)]

/-- `document.pop(key, None)` -/
def popItem (document : Document F) (key : Text) : Document F := document.filter (fun e => e.1 ≠ .str key)

/-- `_load_policy_document`.  The modules raise different errors on a text that is not an
object. -/
def loadPolicyDocument (error : Code → Value F → Exn F) (rows : Relationships F) (relationship_id : Text) :
    Except (Exn F) (Document F) :=
  match rows relationship_id with
  | none => .error (.policy_error .unknown_relationship (.str relationship_id))
  | some .other => .error (error .policy_not_json (.str relationship_id))
  | some (.object document) => .ok document

/-- `UPDATE relationships SET policy = ? WHERE relationship_id = ?` -/
def updatePolicy (rows : Relationships F) (relationship_id : Text) (document : Document F) : Relationships F :=
  fun rid => if rid = relationship_id then (rows rid).map (fun _ => .object document) else rows rid

/-! ## Dicts -/

@[simp] theorem getItem_nil (key : Text) : getItem ([] : Document F) key = none := rfl

theorem getItem_cons (e : Key × Value F) (document : Document F) (key : Text) :
    getItem (e :: document) key = if e.1 = .str key then some e.2 else getItem document key := by
  unfold getItem
  by_cases h : e.1 = .str key
  · simp [h]
  · simp [h]

theorem getItem_map (document : Document F) (key key' : Text) (value : Value F) :
    getItem (document.map (fun e => if e.1 = .str key then (e.1, value) else e)) key' =
      if key' = key then (getItem document key').map (fun _ => value) else getItem document key' := by
  induction document with
  | nil => simp
  | cons e document ih =>
    rw [List.map_cons, getItem_cons, getItem_cons, ih]
    by_cases he : e.1 = .str key
    · by_cases hk : key' = key
      · simp [he, hk]
      · simp [he, hk, Ne.symm hk]
    · by_cases hk : key' = key
      · simp [he, hk]
      · simp [he, hk]

theorem getItem_append (document : Document F) (e : Key × Value F) (key : Text) :
    getItem (document ++ [e]) key = (getItem document key).or (if e.1 = .str key then some e.2 else none) := by
  induction document with
  | nil => simp [getItem_cons]
  | cons d document ih =>
    rw [List.cons_append, getItem_cons, getItem_cons, ih]
    split_ifs <;> simp

theorem getItem_eq_none_iff {document : Document F} {key : Text} :
    getItem document key = none ↔ document.any (fun e => e.1 = .str key) = false := by
  simp [getItem]

theorem getItem_setItem (document : Document F) (key key' : Text) (value : Value F) :
    getItem (setItem document key value) key' = if key' = key then some value else getItem document key' := by
  unfold setItem
  split_ifs with hany hk hk
  · obtain ⟨old, hold⟩ : ∃ old, getItem document key = some old := by
      rw [← Option.ne_none_iff_exists', ne_eq, getItem_eq_none_iff, hany]
      simp
    rw [getItem_map, if_pos hk, hk, hold]
    rfl
  · rw [getItem_map, if_neg hk]
  · rw [getItem_append, hk, getItem_eq_none_iff.mpr (Bool.not_eq_true _ ▸ hany)]
    simp
  · rw [getItem_append, if_neg (by simpa using Ne.symm hk), Option.or_none]

theorem getItem_popItem (document : Document F) (key key' : Text) :
    getItem (popItem document key) key' = if key' = key then none else getItem document key' := by
  unfold popItem
  induction document with
  | nil => simp
  | cons e document ih =>
    rw [List.filter_cons, getItem_cons]
    by_cases he : e.1 = .str key
    · by_cases hk : key' = key
      · simpa [he, hk] using ih
      · simp [he, hk, Ne.symm hk] at ih ⊢
        exact ih
    · by_cases hk : key' = key
      · simp [he, hk, getItem_cons] at ih ⊢
        exact ih
      · simp [he, hk, getItem_cons] at ih ⊢
        rw [ih]

end document

end MuseAgentSocial.Policy
