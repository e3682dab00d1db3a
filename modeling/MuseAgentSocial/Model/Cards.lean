import MuseAgentSocial.Crypto.Identity

/-!
# Agent cards

A model of `model/cards.py`: `create_card`, and `verify_card` on any object.

* `Runtime` holds the third-party code and what the platform decides.
* `verifyCard` runs the checks in the order of the source.  A check goes on, returns a
  verdict, or raises.
* `SchemaValid`, `TimesValid` and `EncodingsValid` say when the checks before the signing
  bytes pass.
-/

namespace MuseAgentSocial.Cards

open Json Canonical Calendar Identity
open Policy (text)

/-! ## Constants -/

def CARD_VERSION : Int := 1

def MAX_CAPABILITIES : Nat := 64

def MAX_CAPABILITY_BYTES : Nat := 64

/-- 365 days, in seconds. -/
def MAX_CARD_LIFETIME : Nat := 365 * 86400

/-- Five minutes, in seconds. -/
def CLOCK_SKEW_TOLERANCE : Nat := 5 * 60

def CARD_NONCE_BYTES : Nat := 16

/-- `_CARD_FIELDS` -/
def CARD_FIELDS : List Text :=
  [text "card_version", text "identity_id", text "display_name", text "principal_label",
    text "bootstrap_agreement_key", text "capabilities", text "issued_at", text "expires_at", text "card_nonce",
    text "signature"]

/-! ## The runtime -/

/-- What the code runs on: the third-party code, the floats, the nesting that `repr` can
follow before the recursion limit, whether `strftime` pads the year, and the frames that the
recursion limit leaves for `restricted_jcs`, enough for what has the shape of a card. -/
structure Runtime (F PrivateKey : Type) where
  library : Library PrivateKey
  nonFinite : F → Bool
  limit : Nat
  pads : Bool
  frames : Nat
  room : 4 < frames

/-- A `datetime` in UTC, with its microsecond. -/
structure Moment where
  datetime : DateTime
  microsecond : Fin 1000000

/-- The microseconds up to the moment. -/
def Moment.micros (m : Moment) : Nat := m.datetime.instant * 1000000 + m.microsecond

/-- The moment some seconds later; `none` is an `OverflowError`. -/
def Moment.later (m : Moment) (seconds : Nat) : Option Moment :=
  (DateTime.ofInstant (m.datetime.instant + seconds)).map (fun d => ⟨d, m.microsecond⟩)

/-- The entries of a dict. -/
abbrev Entries (F : Type) := List (Key × Value F)

/-- `card[name]` -/
def field {F : Type} (card : Entries F) (name : Text) : Value F :=
  ((card.find? (fun e => e.1 = .str name)).map Prod.snd).getD .none

section functions

variable {F PrivateKey : Type} (R : Runtime F PrivateKey)

/-! ## Timestamps and capabilities -/

/-- `raise ValueError(f"{before}{v!r}")` -/
def raiseRepr {α : Type} (before : String) (v : Value F) : Except (Exn F) α :=
  if R.limit < v.depth then .error .recursion_error else .error (.value_error [.lit before, .repr v])

/-- `parse_timestamp` -/
def parseTimestamp (v : Value F) : Except (Exn F) DateTime :=
  match v with
  | .str s =>
    match Policy.parseTimestamp s with
    | some d => .ok d
    | none =>
      if Policy.matchesRe s then raiseRepr R "invalid timestamp " v
      else raiseRepr R "timestamp must match YYYY-MM-DDTHH:MM:SSZ, got " v
  | _ => raiseRepr R "timestamp must match YYYY-MM-DDTHH:MM:SSZ, got " v

/-- A time that `create_card` is given: a `datetime`, in UTC and in whole seconds, or another
object. -/
inductive TimeInput (F : Type) where
  | datetime (d : DateTime)
  | value (v : Value F)

/-- `_coerce_timestamp` -/
def coerceTimestamp (name : String) : TimeInput F → Except (Exn F) Text
  | .datetime d => .ok (Policy.formatUtc R.pads d)
  | .value (.str s) => (parseTimestamp R (.str s)).map (fun _ => s)
  | .value _ => .error (.value_error [.lit name, .lit " must be a datetime or a YYYY-MM-DDTHH:MM:SSZ string"])

/-- The loop of `normalize_capabilities`. -/
def normalizeEntries : List (Value F) → Except (Exn F) (List Text)
  | [] => .ok []
  | .str entry :: rest =>
    if ¬isAscii entry then
      .error (.value_error [.lit "capability ", .repr (.str entry), .lit " is not ASCII"])
    else if MAX_CAPABILITY_BYTES < entry.length then
      .error (.value_error [.lit "capability ", .repr (.str entry), .lit " exceeds ", .num MAX_CAPABILITY_BYTES,
        .lit " bytes"])
    else (normalizeEntries rest).map (entry :: ·)
  | entry :: _ => raiseRepr R "capability must be a string, got " entry

/-- What `normalize_capabilities` does after its loop. -/
def sortCapabilities (normalized : List Text) : Except (Exn F) (List Text) :=
  if MAX_CAPABILITIES < normalized.length then
    .error (.value_error [.lit "at most ", .num MAX_CAPABILITIES, .lit " capabilities, got ", .num normalized.length])
  else if ¬normalized.Nodup then .error (.value_error [.lit "capabilities must be unique"])
  else .ok (normalized.mergeSort keyLe)

/-- `normalize_capabilities` -/
def normalizeCapabilities : Value F → Except (Exn F) (List Text)
  | .list xs => (normalizeEntries R xs).bind sortCapabilities
  | .tuple xs => (normalizeEntries R xs).bind sortCapabilities
  | _ => .error (.value_error [.lit "capabilities must be a list of strings"])

/-! ## Creation -/

/-- `_check_display_label` -/
def checkDisplayLabel (name : String) : Value F → Except (Exn F) Text
  | .str (c :: s) => .ok (c :: s)
  | _ => .error (.value_error [.lit name, .lit " must be a non-empty string"])

/-- The arguments of `create_card` after the private key, and the bytes of `os.urandom`. -/
structure CardInput (F : Type) where
  display_name : Value F
  principal_label : Value F
  agreement_pub_multibase : Value F
  capabilities : Value F
  issued_at : TimeInput F
  expires_at : TimeInput F
  nonce : { bytes : List UInt8 // bytes.length = CARD_NONCE_BYTES }

/-- The card before it is signed. -/
def unsignedCard (input : CardInput F) (identity_id display_name principal_label : Text) (caps : List Text)
    (issued expires : Text) : Entries F :=
  [(.str (text "card_version"), .int CARD_VERSION),
    (.str (text "identity_id"), .str identity_id),
    (.str (text "display_name"), .str display_name),
    (.str (text "principal_label"), .str principal_label),
    (.str (text "bootstrap_agreement_key"), input.agreement_pub_multibase),
    (.str (text "capabilities"), .list (caps.map .str)),
    (.str (text "issued_at"), .str issued),
    (.str (text "expires_at"), .str expires),
    (.str (text "card_nonce"), .str (b64urlEncode input.nonce.val))]

/-- What `restricted_jcs` raises. -/
def unwritten : EncodeRaised → Exn F
  | .canonicalization e => .canonicalization e
  | .recursion_error => .recursion_error

/-- The end of `create_card`: the signature. -/
def signCard (identity_priv : PrivateKey) (card : Entries F) : Except (Exn F) (Entries F) :=
  ((restrictedJcs R.nonFinite R.frames (.dict card)).mapError unwritten).map fun signing_bytes =>
    card ++ [(.str (text "signature"), .str (b64urlEncode (R.library.sign identity_priv signing_bytes)))]

/-- `create_card` -/
def createCard (identity_priv : PrivateKey) (input : CardInput F) : Except (Exn F) (Entries F) :=
  (checkDisplayLabel "display_name" input.display_name).bind fun display_name =>
  (checkDisplayLabel "principal_label" input.principal_label).bind fun principal_label =>
  (parseAgreementKey R.library input.agreement_pub_multibase).bind fun _ =>
  (normalizeCapabilities R input.capabilities).bind fun caps =>
  (coerceTimestamp R "issued_at" input.issued_at).bind fun issued =>
  (coerceTimestamp R "expires_at" input.expires_at).bind fun expires =>
  (parseTimestamp R (.str issued)).bind fun issued_dt =>
  (parseTimestamp R (.str expires)).bind fun expires_dt =>
  if expires_dt.instant ≤ issued_dt.instant then .error (.value_error [.lit "expires_at must be after issued_at"])
  else if MAX_CARD_LIFETIME < expires_dt.instant - issued_dt.instant then
    .error (.value_error [.lit "card lifetime exceeds the 365-day maximum"])
  else
    (identityIdFromPubkey R.library (R.library.public_bytes_raw identity_priv)).bind fun identity_id =>
    signCard R identity_priv (unsignedCard input identity_id display_name principal_label caps issued expires)

/-! ## Verification -/

/-- The reason codes. -/
inductive ReasonCode where
  | VALID | MALFORMED | UNKNOWN_FIELD | BAD_VERSION | BAD_IDENTITY_ID | BAD_AGREEMENT_KEY | BAD_CAPABILITY
  | BAD_TIMESTAMP | EXPIRY_TOO_LONG | BAD_NONCE | BAD_SIGNATURE | ISSUED_IN_FUTURE | EXPIRED
  deriving DecidableEq, Repr

/-- `CardVerification` -/
structure CardVerification (F : Type) where
  ok : Bool
  reason_code : ReasonCode
  message : Message F
  expired : Bool := false

/-- How a check of `verify_card` ends it: with `_fail`, or with an exception. -/
inductive Exit (F : Type) where
  | fail (reason_code : ReasonCode) (message : Message F) (expired : Bool)
  | raised (e : Exn F)

/-- `_fail` -/
def failed (reason_code : ReasonCode) (message : Message F) (expired : Bool) : CardVerification F :=
  ⟨false, reason_code, message, expired⟩

/-- `if bad: return _fail(...)` -/
def refuseIf (bad : Bool) (reason_code : ReasonCode) (message : Message F) : Except (Exit F) Unit :=
  if bad then .error (.fail reason_code message false) else .ok ()

/-- `try`, with an `except ValueError` that returns `_fail`. -/
def orFail {α : Type} (reason_code : ReasonCode) (before : Message F) : Except (Exn F) α → Except (Exit F) α
  | .ok a => .ok a
  | .error (.value_error message) => .error (.fail reason_code (before ++ message) false)
  | .error e => .error (.raised e)

/-- A key as an object. -/
def keyValue : Key → Value F
  | .str s => .str s
  | .other n => .other n

/-- The keys that no card has. -/
def unknownFields (card : Entries F) : List Key := (card.map Prod.fst).filter (fun k => k ∉ CARD_FIELDS.map Key.str)

/-- The fields that the card has not. -/
def missingFields (card : Entries F) : List Text := CARD_FIELDS.filter (fun name => .str name ∉ card.map Prod.fst)

/-- `== CARD_VERSION`, of an `int`; `True` is one. -/
def isCardVersion : Value F → Bool
  | .int i => i == CARD_VERSION
  | .bool b => b
  | _ => false

/-- The check of a label. -/
def checkLabel (card : Entries F) (name : String) : Except (Exit F) Unit :=
  match field card (text name) with
  | .str (_ :: _) => .ok ()
  | _ => .error (.fail .MALFORMED [.lit name, .lit " must be a non-empty string"] false)

/-- The strings of a list of strings. -/
def strings : List (Value F) → Option (List Text)
  | [] => some []
  | .str s :: xs => (strings xs).map (s :: ·)
  | _ :: _ => none

/-- A list of strings. -/
def stringList : Value F → Option (List Text)
  | .list xs => strings xs
  | _ => none

/-- The check of the capabilities. -/
def checkCapabilities (caps : Value F) : Except (Exit F) Unit :=
  match stringList caps with
  | none => .error (.fail .BAD_CAPABILITY [.lit "capabilities must be a list of strings"] false)
  | some listed =>
    (orFail .BAD_CAPABILITY [] (normalizeCapabilities R caps)).bind fun expected_caps =>
    refuseIf (listed != expected_caps) .BAD_CAPABILITY [.lit "capabilities must be sorted ASCII strings, unique"]

/-- The checks up to the capabilities.  The public key goes on. -/
def checkSchema (card : Entries F) : Except (Exit F) (List UInt8) :=
  (refuseIf (unknownFields card != []) .UNKNOWN_FIELD
    [.lit "unknown card fields: ", .repr (.list ((unknownFields card).map keyValue))]).bind fun _ =>
  (refuseIf (missingFields card != []) .MALFORMED
    [.lit "missing card fields: ", .repr (.list ((missingFields card).map .str))]).bind fun _ =>
  (refuseIf (!isCardVersion (field card (text "card_version"))) .BAD_VERSION
    [.lit "card_version must be 1"]).bind fun _ =>
  (orFail .BAD_IDENTITY_ID [] (parseIdentityId R.library (field card (text "identity_id")))).bind fun identity_pub =>
  (orFail .BAD_AGREEMENT_KEY []
    (parseAgreementKey R.library (field card (text "bootstrap_agreement_key")))).bind fun _ =>
  (checkLabel card "display_name").bind fun _ =>
  (checkLabel card "principal_label").bind fun _ =>
  (checkCapabilities R (field card (text "capabilities"))).map fun _ => identity_pub

/-- The checks of the timestamps. -/
def checkTimes (card : Entries F) : Except (Exit F) (DateTime × DateTime) :=
  (orFail .BAD_TIMESTAMP [] ((parseTimestamp R (field card (text "issued_at"))).bind fun issued_dt =>
    (parseTimestamp R (field card (text "expires_at"))).map fun expires_dt => (issued_dt, expires_dt))).bind fun times =>
  (refuseIf (times.2.instant ≤ times.1.instant) .BAD_TIMESTAMP [.lit "expires_at must be after issued_at"]).bind fun _ =>
  (refuseIf (MAX_CARD_LIFETIME < times.2.instant - times.1.instant) .EXPIRY_TOO_LONG
    [.lit "card lifetime exceeds the 365-day maximum"]).map fun _ => times

/-- The checks of the nonce and of the form of the signature, which goes on. -/
def checkEncodings (card : Entries F) : Except (Exit F) (List UInt8) :=
  (orFail .BAD_NONCE [.lit "card_nonce: "] (b64urlDecode (field card (text "card_nonce")))).bind fun nonce =>
  (refuseIf (nonce.length != CARD_NONCE_BYTES) .BAD_NONCE [.lit "card_nonce must decode to 16 bytes"]).bind fun _ =>
  (orFail .BAD_SIGNATURE [.lit "signature: "] (b64urlDecode (field card (text "signature")))).bind fun signature =>
  (refuseIf (signature.length != 64) .BAD_SIGNATURE [.lit "signature must decode to 64 bytes"]).map fun _ => signature

/-- The card without its signature. -/
def unsigned (card : Entries F) : Entries F := card.filter (fun e => e.1 ≠ .str (text "signature"))

/-- The bytes that are signed.  The `except` names `TypeError` and `ValueError`, and a
`CanonicalizationError` is neither. -/
def signingBytes (card : Entries F) : Except (Exit F) ByteArray :=
  orFail .MALFORMED [.lit "card not restricted-JCS serializable: "]
    ((restrictedJcs R.nonFinite R.frames (.dict (unsigned card))).mapError unwritten)

/-- The text of a field that is a string. -/
def textOf : Value F → Text
  | .str s => s
  | _ => []

/-- The checks against the clock. -/
def checkLive (card : Entries F) (issued_dt expires_dt : DateTime) (current : Moment) :
    Except (Exit F) Unit :=
  match current.later CLOCK_SKEW_TOLERANCE with
  | none => .error (.raised .overflow_error)
  | some horizon =>
    if horizon.micros < issued_dt.instant * 1000000 then
      .error (.fail .ISSUED_IN_FUTURE [.lit "issued_at is in the future; the 365-day lifetime cap is ",
        .lit "meaningless without anchoring issuance to now"] false)
    else if expires_dt.instant * 1000000 ≤ current.micros then
      .error (.fail .EXPIRED [.lit "card expired at ", .str (textOf (field card (text "expires_at"))),
        .lit "; blocks new pairing, not receipt of already-valid signed history"] true)
    else .ok ()

/-- The checks of a dict. -/
def verifyEntries (card : Entries F) (now : Moment) : Except (Exit F) Unit :=
  (checkSchema R card).bind fun identity_pub =>
  (checkTimes R card).bind fun times =>
  (checkEncodings card).bind fun signature =>
  (signingBytes R card).bind fun signing_bytes =>
  (refuseIf (!R.library.verify identity_pub signature signing_bytes) .BAD_SIGNATURE
    [.lit "self-signature does not verify"]).bind fun _ =>
  checkLive card times.1 times.2 now

/-- `verify_card` -/
def verifyCard (card : Value F) (now : Moment) : Except (Exn F) (CardVerification F) :=
  match card with
  | .dict entries =>
    match verifyEntries R entries now with
    | .ok () => .ok ⟨true, .VALID, [.lit "card valid"], false⟩
    | .error (.fail reason_code message expired) => .ok (failed reason_code message expired)
    | .error (.raised e) => .error e
  | _ => .ok (failed .MALFORMED [.lit "card must be a JSON object"] false)

end functions

/-! ## When the checks pass and when they raise -/

section checks

variable {F PrivateKey α β : Type} {R : Runtime F PrivateKey}

/-- A check raises. -/
def Raises (r : Except (Exit F) α) : Prop := ∃ e, r = .error (.raised e)

/-- A function raises no other exception than a `ValueError`. -/
def OnlyValueErrors (r : Except (Exn F) α) : Prop := ∀ e, r = .error e → ∃ message, e = .value_error message

theorem raises_bind_iff {r : Except (Exit F) α} {k : α → Except (Exit F) β} :
    Raises (r.bind k) ↔ Raises r ∨ ∃ a, r = .ok a ∧ Raises (k a) := by
  cases r <;> simp [Raises, Except.bind]

theorem raises_map_iff {r : Except (Exit F) α} {f : α → β} : Raises (r.map f) ↔ Raises r := by
  cases r <;> simp [Raises, Except.map]

variable {bad : Bool} {reason_code : ReasonCode} {message before : Message F} {r : Except (Exn F) α}

theorem refuseIf_eq_ok_iff {u : Unit} : refuseIf bad reason_code message = .ok u ↔ bad = false := by
  cases bad <;> simp [refuseIf]

theorem not_raises_refuseIf : ¬Raises (refuseIf bad reason_code message) := by
  cases bad <;> simp [Raises, refuseIf]

theorem orFail_eq_ok_iff {a : α} : orFail reason_code before r = .ok a ↔ r = .ok a := by
  cases r with
  | ok a => simp [orFail]
  | error e => cases e <;> simp [orFail]

theorem not_raises_orFail (h : OnlyValueErrors r) : ¬Raises (orFail reason_code before r) := by
  cases r with
  | ok a => simp [Raises, orFail]
  | error e =>
    obtain ⟨m, rfl⟩ := h e rfl
    simp [Raises, orFail]

theorem decodeMulticodec_only {L : Library PrivateKey} {payload : Text} {expected : List UInt8} {what : String} :
    OnlyValueErrors (F := F) (decodeMulticodec L payload expected what) := by
  intro e he
  unfold decodeMulticodec at he
  cases hd : L.b58decode payload with
  | none => exact ⟨_, (Except.error.inj (hd ▸ he)).symm⟩
  | some decoded =>
    rw [hd] at he
    dsimp only at he
    split_ifs at he <;> exact ⟨_, (Except.error.inj he).symm⟩

theorem parseIdentityId_only {L : Library PrivateKey} (v : Value F) : OnlyValueErrors (parseIdentityId L v) := by
  intro e he
  cases v with
  | str s =>
    rw [parseIdentityId] at he
    split_ifs at he
    · exact decodeMulticodec_only e he
    · exact ⟨_, (Except.error.inj he).symm⟩
  | _ => exact ⟨_, (Except.error.inj he).symm⟩

theorem parseAgreementKey_only {L : Library PrivateKey} (v : Value F) : OnlyValueErrors (parseAgreementKey L v) := by
  intro e he
  cases v with
  | str s =>
    rw [parseAgreementKey] at he
    split_ifs at he
    · exact ⟨_, (Except.error.inj he).symm⟩
    · exact decodeMulticodec_only e he
  | _ => exact ⟨_, (Except.error.inj he).symm⟩

theorem b64urlDecode_only (v : Value F) : OnlyValueErrors (b64urlDecode v) := by
  intro e he
  cases v with
  | str s =>
    rw [b64urlDecode] at he
    split at he
    · cases he
    · exact ⟨_, (Except.error.inj he).symm⟩
  | _ => exact ⟨_, (Except.error.inj he).symm⟩

/-! ### Timestamps -/

/-- `parse_timestamp` returns a moment of a string, or quotes what it was given. -/
theorem parseTimestamp_cases (v : Value F) :
    (∃ s d, v = .str s ∧ Policy.parseTimestamp s = some d ∧ parseTimestamp R v = .ok d) ∨
    (R.limit < v.depth ∧ parseTimestamp R v = .error .recursion_error) ∨
    (v.depth ≤ R.limit ∧ ∃ message, parseTimestamp R v = .error (.value_error message)) := by
  have hquote (before : String) : (R.limit < v.depth ∧ raiseRepr (α := DateTime) R before v = .error .recursion_error) ∨
      (v.depth ≤ R.limit ∧ ∃ message, raiseRepr (α := DateTime) R before v = .error (.value_error message)) := by
    unfold raiseRepr
    split_ifs with h
    · exact Or.inl ⟨h, rfl⟩
    · exact Or.inr ⟨not_lt.mp h, _, rfl⟩
  cases v with
  | str s =>
    unfold parseTimestamp
    dsimp only
    cases hs : Policy.parseTimestamp s with
    | some d => exact Or.inl ⟨s, d, rfl, hs, rfl⟩
    | none =>
      dsimp only
      split_ifs
      · exact Or.inr (hquote _)
      · exact Or.inr (hquote _)
  | _ => exact Or.inr (hquote _)

theorem parseTimestamp_eq_ok {v : Value F} {d : DateTime} (h : parseTimestamp R v = .ok d) :
    ∃ s, v = .str s ∧ Policy.parseTimestamp s = some d := by
  rcases parseTimestamp_cases (R := R) v with ⟨s, d', rfl, hs, hok⟩ | ⟨-, herror⟩ | ⟨-, message, herror⟩
  · exact ⟨s, rfl, by rw [hs, Except.ok.inj (hok.symm.trans h)]⟩
  · rw [herror] at h
    cases h
  · rw [herror] at h
    cases h

theorem parseTimestamp_str {s : Text} {d : DateTime} (h : Policy.parseTimestamp s = some d) :
    parseTimestamp R (.str s : Value F) = .ok d := by
  unfold parseTimestamp
  simp [h]

/-- The timestamps make `repr` go deeper than the recursion limit. -/
def TooDeep (R : Runtime F PrivateKey) (card : Entries F) : Prop :=
  R.limit < (field card (text "issued_at")).depth ∨
    (∃ d, parseTimestamp R (field card (text "issued_at")) = .ok d) ∧ R.limit < (field card (text "expires_at")).depth

/-- The checks of the timestamps pass. -/
structure TimesValid (R : Runtime F PrivateKey) (card : Entries F) (issued_dt expires_dt : DateTime) : Prop where
  issued : parseTimestamp R (field card (text "issued_at")) = .ok issued_dt
  expires : parseTimestamp R (field card (text "expires_at")) = .ok expires_dt
  order : issued_dt.instant < expires_dt.instant
  lifetime : expires_dt.instant - issued_dt.instant ≤ MAX_CARD_LIFETIME

theorem checkTimes_eq_ok_iff {card : Entries F} {times : DateTime × DateTime} :
    checkTimes R card = .ok times ↔ TimesValid R card times.1 times.2 := by
  unfold checkTimes
  simp only [bind_eq_ok_iff, map_eq_ok_iff, orFail_eq_ok_iff, refuseIf_eq_ok_iff, decide_eq_false_iff_not, not_le, not_lt]
  constructor
  · rintro ⟨_, ⟨issued, hissued, expires, hexpires, rfl⟩, _, horder, _, hlifetime, rfl⟩
    exact ⟨hissued, hexpires, horder, hlifetime⟩
  · intro h
    exact ⟨times, ⟨_, h.issued, _, h.expires, rfl⟩, (), h.order, (), h.lifetime, rfl⟩

theorem not_raises_orFail_value {message' : Message F} (h : r = .error (.value_error message')) :
    ¬Raises (orFail reason_code before r) :=
  not_raises_orFail (fun _ he => ⟨message', Except.error.inj (he.symm.trans h)⟩)

theorem raises_orFail_recursion (h : r = .error .recursion_error) : Raises (orFail reason_code before r) := by
  rw [h]
  exact ⟨_, rfl⟩

theorem raises_checkTimes_iff {card : Entries F} : Raises (checkTimes R card) ↔ TooDeep R card := by
  unfold checkTimes TooDeep
  simp only [raises_bind_iff, raises_map_iff, not_raises_refuseIf, and_false, exists_false, or_false]
  rcases parseTimestamp_cases (R := R) (field card (text "issued_at")) with
    ⟨s, d, hs, -, hok⟩ | ⟨hdeep, herror⟩ | ⟨hle, message, herror⟩
  · have hdepth : (field card (text "issued_at")).depth = 0 := by simp [hs, Value.depth]
    rw [hok, hdepth]
    simp only [Nat.not_lt_zero, false_or, Except.ok.injEq, exists_eq', true_and]
    rcases parseTimestamp_cases (R := R) (field card (text "expires_at")) with
      ⟨s', d', hs', -, hok'⟩ | ⟨hdeep', herror'⟩ | ⟨hle', message', herror'⟩
    · have hdepth' : (field card (text "expires_at")).depth = 0 := by simp [hs', Value.depth]
      rw [hok', hdepth']
      simp [Except.bind, Except.map, orFail, Raises]
    · exact iff_of_true (raises_orFail_recursion (by rw [herror']; rfl)) hdeep'
    · exact iff_of_false (not_raises_orFail_value (by rw [herror']; rfl)) (not_lt.mpr hle')
  · exact iff_of_true (raises_orFail_recursion (by rw [herror]; rfl)) (Or.inl hdeep)
  · refine iff_of_false (not_raises_orFail_value (by rw [herror]; rfl)) ?_
    rintro (hdeep | ⟨⟨d, hd⟩, -⟩)
    · omega
    · rw [herror] at hd
      cases hd

/-! ### The nonce and the signature -/

/-- The checks of the nonce and of the form of the signature pass. -/
structure EncodingsValid (card : Entries F) (raw : List UInt8) : Prop where
  nonce : ∃ bytes, b64urlDecode (field card (text "card_nonce")) = .ok bytes ∧ bytes.length = CARD_NONCE_BYTES
  signature : b64urlDecode (field card (text "signature")) = .ok raw
  signature_length : raw.length = 64

theorem checkEncodings_eq_ok_iff {card : Entries F} {signature : List UInt8} :
    checkEncodings card = .ok signature ↔ EncodingsValid card signature := by
  unfold checkEncodings
  simp only [bind_eq_ok_iff, map_eq_ok_iff, orFail_eq_ok_iff, refuseIf_eq_ok_iff, bne_eq_false_iff_eq]
  constructor
  · rintro ⟨nonce, hnonce, _, hlen, _, hsignature, _, hlen', rfl⟩
    exact ⟨⟨nonce, hnonce, hlen⟩, hsignature, hlen'⟩
  · intro h
    obtain ⟨nonce, hnonce, hlen⟩ := h.nonce
    exact ⟨nonce, hnonce, (), hlen, signature, h.signature, (), h.signature_length, rfl⟩

theorem not_raises_checkEncodings {card : Entries F} : ¬Raises (checkEncodings card) := by
  unfold checkEncodings
  simp only [raises_bind_iff, raises_map_iff, not_raises_refuseIf, not_raises_orFail (b64urlDecode_only _), and_false,
    exists_false, or_false, not_false_eq_true]

/-! ### Capabilities -/

theorem strings_eq_some_iff {xs : List (Value F)} {ss : List Text} : strings xs = some ss ↔ xs = ss.map .str := by
  induction xs generalizing ss with
  | nil => cases ss <;> simp [strings]
  | cons x xs ih =>
    cases x with
    | str s => cases ss <;> simp [strings, ih, and_comm]
    | _ => cases ss <;> simp [strings]

theorem stringList_eq_some_iff {v : Value F} {ss : List Text} : stringList v = some ss ↔ v = .list (ss.map .str) := by
  cases v <;> simp [stringList, strings_eq_some_iff]

/-- What the loop lets through. -/
theorem normalizeEntries_eq_ok_iff {xs : List (Value F)} {ss : List Text} :
    normalizeEntries R xs = .ok ss ↔
      xs = ss.map .str ∧ ∀ s ∈ ss, isAscii s = true ∧ s.length ≤ MAX_CAPABILITY_BYTES := by
  induction xs generalizing ss with
  | nil => cases ss <;> simp [normalizeEntries]
  | cons x xs ih =>
    cases x with
    | str s =>
      unfold normalizeEntries
      by_cases hascii : isAscii s = true
      · rw [if_neg (not_not.mpr hascii)]
        by_cases hlen : MAX_CAPABILITY_BYTES < s.length
        · rw [if_pos hlen]
          simp only [reduceCtorEq, false_iff, not_and]
          intro heq hall
          cases ss with
          | nil => simp at heq
          | cons t ts =>
            obtain ⟨rfl, -⟩ : s = t ∧ xs = ts.map .str := by simpa using heq
            have hle := (hall s List.mem_cons_self).2
            omega
        · rw [if_neg hlen, map_eq_ok_iff]
          simp only [ih]
          constructor
          · rintro ⟨ts, ⟨rfl, hall⟩, rfl⟩
            exact ⟨rfl, List.forall_mem_cons.mpr ⟨⟨hascii, not_lt.mp hlen⟩, hall⟩⟩
          · rintro ⟨heq, hall⟩
            cases ss with
            | nil => simp at heq
            | cons t ts =>
              obtain ⟨rfl, rfl⟩ : s = t ∧ xs = ts.map .str := by simpa using heq
              exact ⟨ts, ⟨rfl, (List.forall_mem_cons.mp hall).2⟩, rfl⟩
      · rw [if_pos hascii]
        simp only [reduceCtorEq, false_iff, not_and]
        intro heq hall
        cases ss with
        | nil => simp at heq
        | cons t ts =>
          obtain ⟨rfl, -⟩ : s = t ∧ xs = ts.map .str := by simpa using heq
          exact hascii (hall s List.mem_cons_self).1
    | _ =>
      unfold normalizeEntries raiseRepr
      cases ss <;> split_ifs <;> simp

theorem sortCapabilities_eq_ok_iff {ss caps : List Text} :
    sortCapabilities (F := F) ss = .ok caps ↔ ss.length ≤ MAX_CAPABILITIES ∧ ss.Nodup ∧ ss.mergeSort keyLe = caps := by
  unfold sortCapabilities
  split_ifs with hlen hnodup
  · simp only [false_iff]
    omega
  · simp [not_lt.mp hlen, hnodup]
  · simp [hnodup]

theorem normalizeCapabilities_idem {v : Value F} {caps : List Text} (h : normalizeCapabilities R v = .ok caps) :
    normalizeCapabilities R (.list (caps.map .str)) = .ok caps := by
  have hentries : ∃ ss, sortCapabilities (F := F) ss = .ok caps ∧
      ∀ s ∈ ss, isAscii s = true ∧ s.length ≤ MAX_CAPABILITY_BYTES := by
    cases v with
    | list xs =>
      obtain ⟨ss, hss, hsort⟩ := bind_eq_ok_iff.mp h
      exact ⟨ss, hsort, (normalizeEntries_eq_ok_iff.mp hss).2⟩
    | tuple xs =>
      obtain ⟨ss, hss, hsort⟩ := bind_eq_ok_iff.mp h
      exact ⟨ss, hsort, (normalizeEntries_eq_ok_iff.mp hss).2⟩
    | _ => simp [normalizeCapabilities] at h
  obtain ⟨ss, hsort, hall⟩ := hentries
  obtain ⟨hlen, hnodup, rfl⟩ := sortCapabilities_eq_ok_iff.mp hsort
  have hperm := List.mergeSort_perm ss keyLe
  have hsorted := List.pairwise_mergeSort keyLe_trans keyLe_total ss
  refine bind_eq_ok_iff.mpr ⟨ss.mergeSort keyLe, normalizeEntries_eq_ok_iff.mpr ⟨rfl, fun s hs => hall s (hperm.mem_iff.mp hs)⟩,
    sortCapabilities_eq_ok_iff.mpr ⟨hperm.length_eq ▸ hlen, hperm.nodup_iff.mpr hnodup, ?_⟩⟩
  exact List.mergeSort_of_pairwise hsorted

theorem normalizeCapabilities_only (ss : List Text) :
    OnlyValueErrors (normalizeCapabilities R (.list (ss.map .str) : Value F)) := by
  have hloop : ∀ ss : List Text, OnlyValueErrors (normalizeEntries R (ss.map .str : List (Value F))) := by
    intro ss
    induction ss with
    | nil =>
      intro e he
      cases he
    | cons s ss ih =>
      intro e he
      rw [List.map_cons, normalizeEntries] at he
      split_ifs at he
      · exact ⟨_, (Except.error.inj he).symm⟩
      · cases hrest : normalizeEntries R (ss.map .str : List (Value F)) with
        | ok ts => simp [hrest, Except.map] at he
        | error e' =>
          rw [hrest] at he
          exact Except.error.inj he ▸ ih e' hrest
      · exact ⟨_, (Except.error.inj he).symm⟩
  intro e he
  rw [normalizeCapabilities] at he
  cases hss : normalizeEntries R (ss.map .str : List (Value F)) with
  | error e' =>
    rw [hss] at he
    exact Except.error.inj he ▸ hloop ss e' hss
  | ok ts =>
    rw [hss] at he
    replace he : sortCapabilities ts = .error e := he
    unfold sortCapabilities at he
    split_ifs at he
    · exact ⟨_, (Except.error.inj he).symm⟩
    · exact ⟨_, (Except.error.inj he).symm⟩

theorem checkCapabilities_eq_ok_iff {v : Value F} {u : Unit} :
    checkCapabilities R v = .ok u ↔
      ∃ caps : List Text, v = .list (caps.map .str) ∧ normalizeCapabilities R v = .ok caps := by
  unfold checkCapabilities
  cases hv : stringList v with
  | none =>
    simp only [reduceCtorEq, false_iff, not_exists, not_and]
    intro caps hcaps
    rw [stringList_eq_some_iff.mpr hcaps] at hv
    cases hv
  | some listed =>
    simp only [bind_eq_ok_iff, orFail_eq_ok_iff, refuseIf_eq_ok_iff, bne_eq_false_iff_eq]
    constructor
    · rintro ⟨caps, hcaps, rfl⟩
      exact ⟨_, stringList_eq_some_iff.mp hv, hcaps⟩
    · rintro ⟨caps, hcaps, hnormal⟩
      rw [stringList_eq_some_iff.mpr hcaps] at hv
      exact ⟨caps, hnormal, (Option.some.inj hv).symm⟩

theorem not_raises_checkCapabilities {v : Value F} : ¬Raises (checkCapabilities R v) := by
  unfold checkCapabilities
  cases hv : stringList v with
  | none => simp [Raises]
  | some listed =>
    obtain rfl := stringList_eq_some_iff.mp hv
    simp only [raises_bind_iff, not_raises_refuseIf, not_raises_orFail (normalizeCapabilities_only listed), and_false,
      exists_false, or_false, not_false_eq_true]

/-! ### The schema -/

/-- The checks up to the capabilities pass, with the public key. -/
structure SchemaValid (R : Runtime F PrivateKey) (card : Entries F) (identity_pub : List UInt8) : Prop where
  known : ∀ k ∈ card.map Prod.fst, k ∈ CARD_FIELDS.map Key.str
  present : ∀ name ∈ CARD_FIELDS, Key.str name ∈ card.map Prod.fst
  version : isCardVersion (field card (text "card_version")) = true
  identity : parseIdentityId R.library (field card (text "identity_id")) = .ok identity_pub
  agreement : ∃ key, parseAgreementKey R.library (field card (text "bootstrap_agreement_key")) = .ok key
  display_name : ∃ c s, field card (text "display_name") = .str (c :: s)
  principal_label : ∃ c s, field card (text "principal_label") = .str (c :: s)
  capabilities : ∃ caps : List Text, field card (text "capabilities") = .list (caps.map .str) ∧
    normalizeCapabilities R (field card (text "capabilities")) = .ok caps

theorem checkLabel_eq_ok_iff {card : Entries F} {name : String} {u : Unit} :
    checkLabel card name = .ok u ↔ ∃ c s, field card (text name) = .str (c :: s) := by
  unfold checkLabel
  split
  · next c s hs => simp [hs]
  · next hno =>
    simp only [reduceCtorEq, false_iff, not_exists]
    exact fun c s hs => hno c s hs

theorem not_raises_checkLabel {card : Entries F} {name : String} : ¬Raises (checkLabel card name) := by
  unfold checkLabel
  split <;> simp [Raises]

theorem checkSchema_eq_ok_iff {card : Entries F} {identity_pub : List UInt8} :
    checkSchema R card = .ok identity_pub ↔ SchemaValid R card identity_pub := by
  unfold checkSchema
  simp only [bind_eq_ok_iff, map_eq_ok_iff, orFail_eq_ok_iff, refuseIf_eq_ok_iff, bne_eq_false_iff_eq,
    checkLabel_eq_ok_iff, checkCapabilities_eq_ok_iff, Bool.not_eq_false', unknownFields, missingFields,
    List.filter_eq_nil_iff, decide_eq_true_eq, not_not]
  constructor
  · rintro ⟨_, hknown, _, hpresent, _, hversion, _, hidentity, _, hagreement, _, hdisplay, _, hprincipal, _, hcaps, rfl⟩
    exact ⟨hknown, hpresent, hversion, hidentity, ⟨_, hagreement⟩, hdisplay, hprincipal, hcaps⟩
  · intro h
    obtain ⟨key, hkey⟩ := h.agreement
    exact ⟨(), h.known, (), h.present, (), h.version, _, h.identity, key, hkey, (), h.display_name, (), h.principal_label,
      (), h.capabilities, rfl⟩

theorem not_raises_checkSchema {card : Entries F} : ¬Raises (checkSchema R card) := by
  unfold checkSchema
  simp only [raises_bind_iff, raises_map_iff, not_raises_refuseIf, not_raises_checkLabel, not_raises_checkCapabilities,
    not_raises_orFail (parseIdentityId_only _), not_raises_orFail (parseAgreementKey_only _), and_false, exists_false,
    or_false, not_false_eq_true]

end checks

end MuseAgentSocial.Cards
