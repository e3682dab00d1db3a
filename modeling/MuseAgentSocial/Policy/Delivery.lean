import MuseAgentSocial.Policy.Document

/-!
# The delivery policy

A model of the record and of the setters of `policy/delivery.py`.

* `Delivery` is the record, a dict with the keys of `_default_delivery_dict`.
* The four setters check their arguments, then read the record, bump its version and change
  their own fields: a `Setter` holds what they do not share.
* `Setter.change` is what a setter makes of the record that it has read.
* `change_field` says that it changes its own fields, `version` and `updated_at`.
-/

namespace MuseAgentSocial.Policy

open Json Canonical

/-- The keys of the record. -/
inductive Field where
  | mode | version | updated_at | seen_receipts_enabled | accepted_receipts_enabled | expiry_handling
  | expiry_shorten_after_seconds
  deriving DecidableEq, Repr

/-- The keys in the order of `_default_delivery_dict`. -/
def Field.all : List Field :=
  [.mode, .version, .updated_at, .seen_receipts_enabled, .accepted_receipts_enabled, .expiry_handling,
    .expiry_shorten_after_seconds]

/-- The text of a key. -/
def Field.name : Field → Text
  | .mode => text "mode"
  | .version => text "version"
  | .updated_at => text "updated_at"
  | .seen_receipts_enabled => text "seen_receipts_enabled"
  | .accepted_receipts_enabled => text "accepted_receipts_enabled"
  | .expiry_handling => text "expiry_handling"
  | .expiry_shorten_after_seconds => text "expiry_shorten_after_seconds"

/-- A dict with exactly these keys. -/
abbrev Delivery (F : Type) := Field → Value F

def DELIVERY_MODES : List Text := [text "silent", text "digest", text "alert", text "feed_eligible"]

def EXPIRY_HANDLINGS : List Text := [text "honor", text "ignore", text "shorten"]

/-- `_DELIVERY_KEY` -/
def DELIVERY_KEY : Text := text "delivery"

/-- What `int()` and `bool()` make of the objects that they parse or measure; `none` is a
`ValueError` or an `OverflowError`. -/
structure Builtins (F : Type) where
  int_of_str : Text → Option Int
  int_of_float : F → Option Int
  bool_of_float : F → Bool

section record

variable {F : Type} (B : Builtins F)

/-- `int(value)`; `none` is any exception. -/
def Builtins.int : Value F → Option Int
  | .int i => some i
  | .bool b => some (if b then 1 else 0)
  | .float x => B.int_of_float x
  | .str s => B.int_of_str s
  | _ => none

/-- `bool(value)` -/
def Builtins.bool : Value F → Bool
  | .none => false
  | .bool b => b
  | .int i => i ≠ 0
  | .float x => B.bool_of_float x
  | .str s => s ≠ []
  | .list xs => !xs.isEmpty
  | .tuple xs => !xs.isEmpty
  | .dict entries => !entries.isEmpty
  | .other _ => true

/-- `_default_delivery_dict` -/
def defaultDelivery : Delivery F
  | .mode => .str (text "silent")
  | .version => .int 0
  | .updated_at => .none
  | .seen_receipts_enabled => .bool false
  | .accepted_receipts_enabled => .bool true
  | .expiry_handling => .str (text "honor")
  | .expiry_shorten_after_seconds => .none

/-- `_coerce_delivery_dict` -/
def coerceDelivery : Option (Value F) → Delivery F
  | some (.dict entries) =>
    entries.foldl (fun merged e field => if e.1 = .str field.name then e.2 else merged field) defaultDelivery
  | _ => defaultDelivery

/-- The record as an object. -/
def Delivery.toValue (data : Delivery F) : Value F := .dict (Field.all.map (fun field => (.str field.name, data field)))

/-- `DeliveryPolicy` -/
structure DeliveryPolicy (F : Type) where
  mode : Value F
  version : Int
  updated_at : Value F
  seen_receipts_enabled : Bool
  accepted_receipts_enabled : Bool
  expiry_handling : Value F
  expiry_shorten_after_seconds : Value F

/-- `_to_policy` -/
def toPolicy (data : Delivery F) : Except (Exn F) (DeliveryPolicy F) :=
  match B.int (data .version) with
  | none => .error .conversion
  | some version => .ok
    { mode := data .mode
      version := version
      updated_at := data .updated_at
      seen_receipts_enabled := B.bool (data .seen_receipts_enabled)
      accepted_receipts_enabled := B.bool (data .accepted_receipts_enabled)
      expiry_handling := data .expiry_handling
      expiry_shorten_after_seconds := data .expiry_shorten_after_seconds }

/-- `get_policy` -/
def getPolicy (rows : Relationships F) (relationship_id : Text) : Except (Exn F) (DeliveryPolicy F) := do
  let document ← loadPolicyDocument .policy_error rows relationship_id
  toPolicy B (coerceDelivery (getItem document DELIVERY_KEY))

/-- `_bump`; `none` is an exception of `int`. -/
def bump (now : Text) (data : Delivery F) : Option (Delivery F) :=
  (B.int (data .version)).map fun version => fun
    | .version => .int (version + 1)
    | .updated_at => .str now
    | field => data field

/-! ## Setters -/

/-- What a setter checks before it reads the record, and what it assigns. -/
structure Setter (F : Type) where
  check : Except (Exn F) Unit := .ok ()
  assigns : Field → Option (Value F)

/-- `value in values`, of a fixed list of texts. -/
def isOneOf (value : Text) (values : List Text) : Bool := values.any (fun v => v = value)

/-- `set_policy` -/
def setPolicy (mode : Text) : Setter F where
  check := if isOneOf mode DELIVERY_MODES then .ok () else .error (.policy_error .invalid_delivery_mode (.str mode))
  assigns
    | .mode => some (.str mode)
    | _ => none

/-- `set_seen_receipts_enabled` -/
def setSeenReceiptsEnabled (enabled : Bool) : Setter F where
  assigns
    | .seen_receipts_enabled => some (.bool enabled)
    | _ => none

/-- `set_accepted_receipts_enabled` -/
def setAcceptedReceiptsEnabled (enabled : Bool) : Setter F where
  assigns
    | .accepted_receipts_enabled => some (.bool enabled)
    | _ => none

/-- `isinstance(x, int) and not isinstance(x, bool) and x > 0` -/
def isPositiveInt : Value F → Bool
  | .int i => 0 < i
  | _ => false

/-- `x is not None` -/
def isGiven : Value F → Bool
  | .none => false
  | _ => true

/-- `set_expiry_policy` -/
def setExpiryPolicy (handling : Text) (shorten_after_seconds : Value F) : Setter F where
  check :=
    if !isOneOf handling EXPIRY_HANDLINGS then .error (.policy_error .invalid_expiry_handling (.str handling))
    else if handling = text "shorten" then
      if isPositiveInt shorten_after_seconds then .ok ()
      else .error (.policy_error .invalid_shorten_window shorten_after_seconds)
    else if isGiven shorten_after_seconds then
      .error (.policy_error .shorten_window_without_shorten shorten_after_seconds)
    else .ok ()
  assigns
    | .expiry_handling => some (.str handling)
    | .expiry_shorten_after_seconds => some shorten_after_seconds
    | _ => none

/-- What a setter stores in place of the record that it has read. -/
def Setter.change (setter : Setter F) (now : Text) (data : Delivery F) : Option (Delivery F) :=
  (bump B now data).map fun bumped field => (setter.assigns field).getD (bumped field)

/-- `_store_delivery_dict`, up to the commit. -/
def storeDeliveryDict (rows : Relationships F) (relationship_id : Text) (data : Delivery F) :
    Except (Exn F) (Relationships F) := do
  let document ← loadPolicyDocument .policy_error rows relationship_id
  return updatePolicy rows relationship_id (setItem document DELIVERY_KEY data.toValue)

/-! ## The record that is read back -/

theorem name_injective : Function.Injective Field.name := by
  intro f g h
  cases f <;> cases g <;> first | rfl | exact absurd h (by decide)

/-- The record is read back as it was stored. -/
@[simp] theorem coerceDelivery_toValue (data : Delivery F) : coerceDelivery (some data.toValue) = data := by
  funext field
  simp only [coerceDelivery, Delivery.toValue, Field.all, List.map_cons, List.map_nil, List.foldl_cons, List.foldl_nil,
    Key.str.injEq, name_injective.eq_iff]
  cases field <;> simp

/-- The record that is stored, if there is a document. -/
def deliveryOf (rows : Relationships F) (relationship_id : Text) : Option (Delivery F) :=
  match rows relationship_id with
  | some (.object document) => some (coerceDelivery (getItem document DELIVERY_KEY))
  | _ => none

theorem deliveryOf_eq_some_of_load {error : Code → Value F → Exn F} {rows : Relationships F} {rid : Text}
    {document : Document F} (h : loadPolicyDocument error rows rid = .ok document) :
    deliveryOf rows rid = some (coerceDelivery (getItem document DELIVERY_KEY)) := by
  unfold loadPolicyDocument at h
  unfold deliveryOf
  split at h
  · exact absurd h (by simp)
  · exact absurd h (by simp)
  · rename_i hrow
    rw [hrow, Except.ok.inj h]

/-- What the policy says of the record. -/
theorem getPolicy_eq_ok_iff {rows : Relationships F} {rid : Text} {policy : DeliveryPolicy F} :
    getPolicy B rows rid = .ok policy ↔ ∃ data, deliveryOf rows rid = some data ∧ toPolicy B data = .ok policy := by
  unfold getPolicy loadPolicyDocument deliveryOf
  cases h : rows rid with
  | none => simp [bind, Except.bind]
  | some column =>
    cases column with
    | object document => simp [bind, Except.bind]
    | other => simp [bind, Except.bind]

theorem deliveryOf_updatePolicy {error : Code → Value F → Exn F} {rows : Relationships F} {rid : Text}
    {document : Document F} (h : loadPolicyDocument error rows rid = .ok document) (rid' : Text)
    (document' : Document F) :
    deliveryOf (updatePolicy rows rid document') rid' =
      if rid' = rid then some (coerceDelivery (getItem document' DELIVERY_KEY)) else deliveryOf rows rid' := by
  unfold loadPolicyDocument at h
  unfold deliveryOf updatePolicy
  split_ifs with hrid
  · subst hrid
    split at h
    · exact absurd h (by simp)
    · exact absurd h (by simp)
    · rename_i hrow
      rw [hrow]
      rfl
  · rfl

theorem deliveryOf_store {rows rows' : Relationships F} {rid : Text} {data : Delivery F}
    (h : storeDeliveryDict rows rid data = .ok rows') (rid' : Text) :
    deliveryOf rows' rid' = if rid' = rid then some data else deliveryOf rows rid' := by
  unfold storeDeliveryDict at h
  cases hload : loadPolicyDocument Exn.policy_error rows rid with
  | error e => simp [hload, bind, Except.bind] at h
  | ok document =>
    rw [hload] at h
    obtain rfl := Except.ok.inj h
    rw [deliveryOf_updatePolicy hload, getItem_setItem, if_pos rfl, coerceDelivery_toValue]

theorem change_field {setter : Setter F} {now : Text} {data data' : Delivery F}
    (h : setter.change B now data = some data') (field : Field) :
    data' field = (setter.assigns field).getD (match field with
      | .version => data' .version | .updated_at => .str now | field => data field) := by
  obtain ⟨bumped, hbumped, rfl⟩ := Option.map_eq_some_iff.mp h
  obtain ⟨version, -, rfl⟩ := Option.map_eq_some_iff.mp hbumped
  cases field <;> simp
  cases setter.assigns .version <;> simp

end record

end MuseAgentSocial.Policy
