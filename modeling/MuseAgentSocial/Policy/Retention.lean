import MuseAgentSocial.Cli.Clock
import MuseAgentSocial.Lib.Base58
import MuseAgentSocial.Policy.Document

/-!
# The opt-in of the plaintext cache

A model of the opt-in record of `policy/retention.py`, which stands under the key `retention`
of the policy document, and of the transactions of `set_plaintext_cache` and
`delete_plaintext_cache`.  The record is `PlaintextCache`, and `optinRecord` reads it back.
-/

namespace MuseAgentSocial.Policy

open Json Canonical Cli

/-! ## Periods -/

/-- The names of the periods. -/
inductive Period where
  | oneDay | sevenDays | thirtyDays | indefinite
  deriving DecidableEq, Repr

def Period.name : Period → Text
  | .oneDay => text "1d"
  | .sevenDays => text "7d"
  | .thirtyDays => text "30d"
  | .indefinite => text "indefinite"

/-- `PLAINTEXT_CACHE_PERIODS` -/
def Period.seconds : Period → Option Nat
  | .oneDay => some (24 * 3600)
  | .sevenDays => some (7 * 24 * 3600)
  | .thirtyDays => some (30 * 24 * 3600)
  | .indefinite => none

/-- `PLAINTEXT_PERIOD_ALIASES` -/
def PLAINTEXT_PERIOD_ALIASES : List (Text × Period) :=
  [(text "1d", .oneDay), (text "1day", .oneDay), (text "1-day", .oneDay), (text "day", .oneDay),
    (text "7d", .sevenDays), (text "7day", .sevenDays), (text "7days", .sevenDays), (text "7-day", .sevenDays),
    (text "week", .sevenDays), (text "30d", .thirtyDays), (text "30day", .thirtyDays), (text "30days", .thirtyDays),
    (text "30-day", .thirtyDays), (text "month", .thirtyDays), (text "indefinite", .indefinite),
    (text "forever", .indefinite)]

/-- `str.isspace` of one code point. -/
def isSpace (c : CodePoint) : Bool := Base58.spaces.contains c.ord

/-- `str.lower` where it gives an ASCII letter: of the capitals and of the Kelvin sign. -/
def lower (c : CodePoint) : CodePoint :=
  if 0x41 ≤ c.ord ∧ c.ord ≤ 0x5A then .scalar (Char.ofNat (c.ord + 0x20))
  else if c.ord = 0x212A then .scalar 'k'
  else c

/-- `_normalize_period` -/
def normalizePeriod {F : Type} (period : Text) : Except (Exn F) Period :=
  let key := ((period.dropWhile isSpace).rdropWhile isSpace).map lower
  match PLAINTEXT_PERIOD_ALIASES.find? (fun e => e.1 = key) with
  | some e => .ok e.2
  | none => .error (.retention_error .invalid_period (.str period))

/-! ## The record -/

/-- `_RETENTION_KEY` -/
def RETENTION_KEY : Text := text "retention"

def PLAINTEXT_CACHE : Text := text "plaintext_cache"

section record

variable {F : Type}

/-- The opt-in as an object. -/
def optin (relationship_id : Text) (period : Period) (set_at : Text) (expires_at : Option Text) : Document F :=
  [(.str (text "relationship_id"), .str relationship_id), (.str (text "period"), .str period.name),
    (.str (text "set_at"), .str set_at),
    (.str (text "expires_at"), match expires_at with
      | some t => .str t
      | none => .none)]

/-- `document.get(_RETENTION_KEY)`, if that is a dict. -/
def retentionOf (document : Document F) : Option (Document F) :=
  match getItem document RETENTION_KEY with
  | some (.dict retention) => some retention
  | _ => none

/-- `_optin_record` -/
def optinRecord (document : Document F) : Option (Document F) :=
  match (retentionOf document).bind (fun retention => getItem retention PLAINTEXT_CACHE) with
  | some (.dict record) => some record
  | _ => none

/-- The document with an opt-in. -/
def withOptin (document record : Document F) : Document F :=
  setItem document RETENTION_KEY (.dict (setItem ((retentionOf document).getD []) PLAINTEXT_CACHE (.dict record)))

/-- The document without an opt-in. -/
def withoutOptin (document : Document F) : Document F :=
  match retentionOf document with
  | some retention => setItem document RETENTION_KEY (.dict (popItem retention PLAINTEXT_CACHE))
  | none => document

/-- `expires_at` of an opt-in that is set now. -/
def expiry (pads : Bool) (period : Period) (now : Text) : Except (Exn F) (Option Text) :=
  match period.seconds with
  | none => .ok none
  | some seconds =>
    match addSeconds pads now seconds with
    | some t => .ok (some t)
    | none => .error .overflow

/-- `set_plaintext_cache` up to its commit, with the record; `pads` is the platform's `strftime`. -/
def setPlaintextCacheTxn (pads : Bool) (rows : Relationships F) (relationship_id period now : Text) :
    Except (Exn F) (Relationships F × Document F) := do
  let canonical ← normalizePeriod period
  let expires_at ← expiry pads canonical now
  let record := optin relationship_id canonical now expires_at
  let document ← loadPolicyDocument .retention_error rows relationship_id
  return (updatePolicy rows relationship_id (withOptin document record), record)

/-- The transaction of `delete_plaintext_cache`. -/
def deletePlaintextCacheTxn (rows : Relationships F) (relationship_id : Text) : Except (Exn F) (Relationships F) := do
  let document ← loadPolicyDocument .retention_error rows relationship_id
  return match retentionOf document with
    | some _ => updatePolicy rows relationship_id (withoutOptin document)
    | none => rows

theorem setPlaintextCacheTxn_spec {pads : Bool} {rows rows' : Relationships F} {rid period now : Text}
    {record : Document F} (h : setPlaintextCacheTxn pads rows rid period now = .ok (rows', record)) :
    ∃ canonical expires_at document, normalizePeriod (F := F) period = .ok canonical ∧
      expiry (F := F) pads canonical now = .ok expires_at ∧
      loadPolicyDocument .retention_error rows rid = .ok document ∧ record = optin rid canonical now expires_at ∧
      rows' = updatePolicy rows rid (withOptin document record) := by
  unfold setPlaintextCacheTxn at h
  cases hperiod : normalizePeriod (F := F) period with
  | error e => simp [hperiod, bind, Except.bind] at h
  | ok canonical =>
    cases hexpires : expiry (F := F) pads canonical now with
    | error e => simp [hperiod, hexpires, bind, Except.bind] at h
    | ok expires_at =>
      cases hload : loadPolicyDocument (F := F) .retention_error rows rid with
      | error e => simp [hperiod, hexpires, hload, bind, Except.bind] at h
      | ok document =>
        simp only [hperiod, hexpires, hload, bind, Except.bind, pure, Except.pure, Except.ok.injEq, Prod.mk.injEq] at h
        exact ⟨canonical, expires_at, document, rfl, hexpires, rfl, h.2.symm, by rw [← h.1, ← h.2]⟩

theorem updatePolicy_other (rows : Relationships F) {rid other : Text} (document : Document F) (h : other ≠ rid) :
    updatePolicy rows rid document other = rows other := if_neg h

theorem deletePlaintextCacheTxn_other {rows rows' : Relationships F} {rid other : Text}
    (h : deletePlaintextCacheTxn rows rid = .ok rows') (hother : other ≠ rid) : rows' other = rows other := by
  unfold deletePlaintextCacheTxn at h
  cases hload : loadPolicyDocument (F := F) .retention_error rows rid with
  | error e => simp [hload, bind, Except.bind] at h
  | ok document =>
    rw [hload] at h
    obtain rfl := Except.ok.inj h
    cases retentionOf document with
    | none => rfl
    | some retention => exact updatePolicy_other rows _ hother

@[simp] theorem optinRecord_withOptin (document record : Document F) :
    optinRecord (withOptin document record) = some record := by
  simp [optinRecord, retentionOf, withOptin, getItem_setItem]

theorem getItem_withOptin (document record : Document F) {key : Text} (h : key ≠ RETENTION_KEY) :
    getItem (withOptin document record) key = getItem document key := by
  rw [withOptin, getItem_setItem, if_neg h]

end record

end MuseAgentSocial.Policy
