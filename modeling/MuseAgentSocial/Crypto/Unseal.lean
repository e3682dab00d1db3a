import MuseAgentSocial.Canonical.Maps
import MuseAgentSocial.Crypto.Seal

/-!
# Opening sealed envelopes

A model of `unseal_envelope` of `crypto/sealing.py` on bytes, and what it makes of the
envelopes of `seal_envelope`.

* `authenticate`, `unwrapKey`, `openBody` and `readPayload` are the function in its four
  steps, and `unsealEnvelope` the whole of it.
* `Carries` says which values a receiver may read of an envelope, as a dict or from bytes.
* `wrapAad_injective`: the associated data of a wrap determines its three parts, since an
  agreement key that is accepted has a fixed length but for the whitespace at its end.
* `unseal_sealed` is the round trip, `unsealed_unchanged` and `wrap_not_moved` are the binding.
-/

namespace MuseAgentSocial.Seal

open Json Canonical Identity
open Policy (text getItem setItem popItem)

/-! ## The function -/

/-- The codes of `SealingError` in `unseal_envelope`, for keys of the types that it asks for. -/
inductive UnsealCode where
  | bad_envelope_type | envelope_too_large | invalid_envelope | not_canonical | schema_invalid | bad_sender
  | bad_ephemeral_key | bad_signature | unknown_recipient | low_order_key | bad_agreement_key | wrong_aad
  | tampered_wrap | tampered_body | invalid_payload | payload_invalid
  deriving DecidableEq, Repr

/-- The `detail` of an error of `unseal_envelope`. -/
inductive UnsealDetail where
  | empty
  | not_an_object
  | canonical (code : Canonical.Code)
  | schema (code : String)
  deriving DecidableEq, Repr

/-- What leaves `unseal_envelope`. -/
inductive Unopened where
  | sealing (code : UnsealCode) (field_path : Text) (detail : UnsealDetail)
  /-- Another exception: the `ValueError` of `strict_parse` or of `AESGCM`, the `RecursionError`
  of `restricted_jcs`, or that of a lookup which the schema of envelopes excludes. -/
  | other
  deriving DecidableEq, Repr

/-- The argument `envelope`. -/
inductive Input (F : Type) where
  | raw (data : ByteArray)
  | dict (envelope : List (Key × Value F))
  | other

/-- What `unseal_envelope` calls besides the primitives of `seal_envelope`. -/
structure Receiver (F : Type) where
  /-- `AESGCM(key).decrypt(nonce, data, associated_data)`; `none` is an `InvalidTag`. -/
  decrypt : (key nonce data associated_data : List UInt8) → Option (List UInt8)
  /-- The float of a literal. -/
  parseFloat : List Char → F
  /-- The recursion limit of the parser. -/
  limit : Nat
  /-- The frames of Python's stack that are left in the body of `unseal_envelope`. -/
  frames : Nat
  /-- `validate("event-envelope", ..)`, with the path and the code of its error. -/
  validate : Value F → Option (Text × String)
  /-- `validate_payload(event_type, payload)` -/
  validatePayload : Value F → Value F → Option (Text × String)

/-- A `SealingError` without a detail. -/
def Unopened.coded (code : UnsealCode) (field_path : String) : Unopened := .sealing code (text field_path) .empty

/-- The associated data of a wrap. -/
def wrapAad (digest : List UInt8) (recipient agreement_key : Text) : List UInt8 :=
  digest ++ utf8Bytes recipient ++ utf8Bytes agreement_key

section unsealing

variable {F PrivateKey X : Type} (L : Library PrivateKey) (S : Suite X) (nonFinite : F → Bool) (R : Receiver F)

/-- `obj[name]` -/
def item (obj : Value F) (name : String) : Except Unopened (Value F) :=
  match obj with
  | .dict entries =>
    match getItem entries (text name) with
    | some value => .ok value
    | none => .error .other
  | _ => .error .other

/-- `_parse_envelope_input` -/
def parseEnvelopeInput : Input F → Except Unopened (List (Key × Value F))
  | .raw data =>
    if MAX_ENVELOPE_BYTES < data.size then .error (.coded .envelope_too_large "")
    else
      match strictParse R.parseFloat R.limit data with
      | .ok (.dict parsed) => .ok parsed
      | .ok _ => .error (.sealing .invalid_envelope [] .not_an_object)
      | .error (.canonicalization e) => .error (.sealing .invalid_envelope [] (.canonical e.code))
      | .error .value_error => .error .other
  | .dict envelope =>
    -- `_canonical_or_raise` stands between this and `restricted_jcs`.
    match restrictedJcs nonFinite (R.frames - 2) (.dict envelope) with
    | .error (.canonicalization e) => .error (.sealing .not_canonical e.field_path (.canonical e.code))
    | .error .recursion_error => .error .other
    | .ok raw => if MAX_ENVELOPE_BYTES < raw.size then .error (.coded .envelope_too_large "") else .ok envelope
  | .other => .error (.coded .bad_envelope_type "")

/-- The header of the envelope with its ephemeral key and its digest, if the sender signed
it. -/
def authenticate (env : List (Key × Value F)) : Except Unopened (Value F × List UInt8 × List UInt8) :=
  (item (.dict env) "protected").bind fun header =>
  (item header "sender").bind fun sender =>
  match parseIdentityId L sender with
  | .error _ => .error (.coded .bad_sender "protected.sender")
  | .ok sender_pub =>
    (item header "ephemeral_key").bind fun ephemeral_key =>
    match parseAgreementKey L ephemeral_key with
    | .error _ => .error (.coded .bad_ephemeral_key "protected.ephemeral_key")
    | .ok ephemeral_pub_raw =>
      (item (.dict env) "signature").bind fun encoded =>
      match b64urlDecode encoded with
      | .error _ => .error (.coded .bad_signature "signature")
      | .ok signature =>
        if signature.length ≠ 64 then .error (.coded .bad_signature "signature")
        else
          match restrictedJcs nonFinite R.frames (.dict (popItem env (text "signature"))) with
          | .error (.canonicalization e) => .error (.sealing .not_canonical e.field_path (.canonical e.code))
          | .error .recursion_error => .error .other
          | .ok data =>
            if L.verify sender_pub signature data then
              match restrictedJcs nonFinite R.frames header with
              | .ok header_bytes => .ok (header, ephemeral_pub_raw, S.sha256 header_bytes)
              -- Not reached: the header was written with the envelope.
              | .error _ => .error .other
            else .error (.coded .bad_signature "")

/-- The body of the loop over the wraps for this recipient: the content key, or the code of
the failure. -/
def openWrap (kek digest own_pub_raw : List UInt8) (recipient : Text) (entry : Value F) :
    Except Unopened (Except UnsealCode (List UInt8)) :=
  (item entry "agreement_key").bind fun agreement_key =>
  match agreement_key, parseAgreementKey L agreement_key with
  | .str agreement_key, .ok entry_key_raw =>
    (item entry "wrap_nonce").bind fun encoded_nonce =>
    match b64urlDecode encoded_nonce with
    | .error _ => .ok (.error .tampered_wrap)
    | .ok wrap_nonce =>
      (item entry "wrapped_key").bind fun encoded_key =>
      match b64urlDecode encoded_key with
      | .error _ => .ok (.error .tampered_wrap)
      | .ok wrapped =>
        if wrap_nonce.length ≠ NONCE_BYTES then .ok (.error .tampered_wrap)
        else
          match R.decrypt kek wrap_nonce wrapped (wrapAad digest recipient agreement_key) with
          | some cek => .ok (.ok cek)
          | none => .ok (.error (if entry_key_raw ≠ own_pub_raw then .wrong_aad else .tampered_wrap))
  | _, _ => .ok (.error .bad_agreement_key)

/-- The loop over the candidates, with the code of the last failure. -/
def firstOpened (attempt : Value F → Except Unopened (Except UnsealCode (List UInt8))) :
    List (Value F) → UnsealCode → Except Unopened (List UInt8)
  | [], failure => .error (.coded failure "")
  | entry :: rest, _ =>
    (attempt entry).bind fun
    | .ok cek => .ok cek
    | .error failure => firstOpened attempt rest failure

/-- The wraps for a recipient. -/
def candidatesFor (expected_recipient_id : Text) (entries : List (Value F)) : Except Unopened (List (Value F)) :=
  (collect (entries.map fun entry => (item entry "recipient").map fun recipient => (entry, recipient))).map fun named =>
    (named.filter fun (_, recipient) =>
      match recipient with
      | .str recipient => recipient = expected_recipient_id
      | _ => false).map Prod.fst

/-- The content key. -/
def unwrapKey (env : List (Key × Value F)) (relationship_priv : X) (expected_recipient_id : Text)
    (ephemeral_pub_raw digest : List UInt8) : Except Unopened (List UInt8) :=
  (item (.dict env) "recipients").bind fun
  | .list entries =>
    (candidatesFor expected_recipient_id entries).bind fun candidates =>
    if candidates.isEmpty then .error (.coded .unknown_recipient "")
    else
      match S.exchange relationship_priv ephemeral_pub_raw with
      | none => .error (.coded .low_order_key "")
      | some shared =>
        if shared = List.replicate 32 0 then .error (.coded .low_order_key "")
        else
          let kek := S.derive digest MSG_WRAP_INFO shared
          firstOpened (openWrap L R kek digest (S.public_bytes_raw relationship_priv) expected_recipient_id) candidates
            .tampered_wrap
  | _ => .error .other

/-- The bytes of the payload. -/
def openBody (env : List (Key × Value F)) (cek digest : List UInt8) : Except Unopened (List UInt8) :=
  (item (.dict env) "content_nonce").bind fun encoded_nonce =>
  match b64urlDecode encoded_nonce with
  | .error _ => .error (.coded .tampered_body "ciphertext")
  | .ok content_nonce =>
    (item (.dict env) "ciphertext").bind fun encoded =>
    match b64urlDecode encoded with
    | .error _ => .error (.coded .tampered_body "ciphertext")
    | .ok ciphertext =>
      if content_nonce.length ≠ NONCE_BYTES then .error (.coded .tampered_body "content_nonce")
      -- A `ValueError` of `AESGCM`.
      else if cek.length ∉ [16, 24, 32] then .error .other
      else
        match R.decrypt cek content_nonce ciphertext digest with
        | some payload_bytes => .ok payload_bytes
        | none => .error (.coded .tampered_body "")

/-- The payload that the bytes hold. -/
def readPayload (header : Value F) (payload_bytes : List UInt8) : Except Unopened (Value F) :=
  match strictParse R.parseFloat R.limit ⟨payload_bytes.toArray⟩ with
  | .ok (.dict payload) =>
    (item header "event_type").bind fun event_type =>
    match R.validatePayload event_type (.dict payload) with
    | none => .ok (.dict payload)
    | some (field_path, code) => .error (.sealing .payload_invalid field_path (.schema code))
  | .ok _ => .error (.sealing .invalid_payload [] .not_an_object)
  | .error (.canonicalization e) => .error (.sealing .invalid_payload [] (.canonical e.code))
  | .error .value_error => .error .other

/-- `unseal_envelope` behind the checks of the envelope's size and shape. -/
def unsealParsed (env : List (Key × Value F)) (relationship_priv : X) (expected_recipient_id : Text) :
    Except Unopened (Value F × Value F) :=
  (authenticate L S nonFinite R env).bind fun (header, ephemeral_pub_raw, digest) =>
  (unwrapKey L S R env relationship_priv expected_recipient_id ephemeral_pub_raw digest).bind fun cek =>
  (openBody R env cek digest).bind fun payload_bytes =>
  (readPayload R header payload_bytes).map fun payload => (header, payload)

/-- `unseal_envelope` -/
def unsealEnvelope (envelope : Input F) (relationship_priv : X) (expected_recipient_id : Text) :
    Except Unopened (Value F × Value F) :=
  (parseEnvelopeInput nonFinite R envelope).bind fun env =>
  match R.validate (.dict env) with
  | some (field_path, code) => .error (.sealing .schema_invalid field_path (.schema code))
  | none => unsealParsed L S nonFinite R env relationship_priv expected_recipient_id

end unsealing

/-! ## The associated data of a wrap -/

theorem utf8Bytes_chars (cs : List Char) : utf8Bytes (chars cs) = (String.ofList cs).toUTF8.data.toList := by
  rw [utf8Bytes, chars, scalars_eq_some_iff.mpr rfl, Option.getD_some]

theorem utf8Bytes_append (cs ds : List Char) :
    utf8Bytes (chars cs) ++ utf8Bytes (chars ds) = utf8Bytes (chars (cs ++ ds)) := by
  simp only [utf8Bytes_chars, String.toUTF8_eq_toByteArray, String.ofList_append, String.toByteArray_append,
    ByteArray.data_append, Array.toList_append]

theorem utf8Bytes_injective {cs ds : List Char} (h : utf8Bytes (chars cs) = utf8Bytes (chars ds)) : cs = ds := by
  rw [utf8Bytes_chars, utf8Bytes_chars] at h
  have hbytes : (String.ofList cs).toUTF8 = (String.ofList ds).toUTF8 := ByteArray.ext (Array.toList_inj.mp h)
  have hread := fromUTF8?_toUTF8 (String.ofList cs)
  rw [hbytes, fromUTF8?_toUTF8] at hread
  exact (String.ofList_injective (Option.some.inj hread)).symm

variable {raw digest : List UInt8} {s : Text} {i : Nat}

section library

variable {F PrivateKey : Type} {L : Library PrivateKey}

theorem length_agreementKey (hraw : raw.length = RAW_PUBKEY_LEN) :
    (Base58.b58encode (MULTICODEC_X25519 ++ raw)).length = 47 := by
  have hlt := Base58.number_lt raw
  have hnumber : Base58.number (0xEC :: 0x01 :: raw) =
      Base58.number raw + 256 ^ raw.length * 1 + 256 ^ (raw.length + 1) * 236 := by
    rw [Base58.number_cons, Base58.number_cons]
    rfl
  have hlen : RAW_PUBKEY_LEN = 32 := rfl
  rw [hraw, hlen] at hnumber hlt
  show (Base58.b58encode (0xEC :: 0x01 :: raw)).length = 46 + 1
  apply Base58.length_b58encode (by decide)
  · rw [hnumber]
    omega
  · rw [hnumber]
    omega

/-- An agreement key that is accepted has a fixed length, but for whitespace at its end. -/
theorem agreementKey_form (hL : L.Documented)
    (h : parseAgreementKey (F := F) L (.str s) = .ok raw) :
    ∃ cs, s = chars ('z' :: cs) ∧ (cs.rdropWhile Base58.isSpace).length = 47 := by
  rw [parseAgreementKey] at h
  split at h
  · simp at h
  · rename_i hprefix
    rw [not_or, not_not] at hprefix
    obtain ⟨hlen, cs, hcs, hwritten⟩ := decodeMulticodec_eq_ok hL h
    refine ⟨cs, eq_append_drop hprefix.1 hcs, ?_⟩
    rw [← hwritten, hL.b58encode, length_agreementKey hlen]

/-- Whitespace at the end of a text is that of its last part, if anything else is in it. -/
theorem rdropWhile_append {p : Char → Bool} (cs : List Char) {ds : List Char} (h : ds.rdropWhile p ≠ []) :
    (cs ++ ds).rdropWhile p = cs ++ ds.rdropWhile p := by
  unfold List.rdropWhile at h ⊢
  have hne : ¬(ds.reverse.dropWhile p).isEmpty = true := by
    rw [List.isEmpty_iff]
    exact fun hnil => h (congrArg List.reverse hnil)
  rw [List.reverse_append, List.dropWhile_append, if_neg hne, List.reverse_append, List.reverse_reverse]

theorem wrapAad_injective (hL : L.Documented) {digest' raw' : List UInt8}
    {recipient recipient' key key' : Text} (hdigest : digest.length = digest'.length)
    (hrecipient : (scalars recipient).isSome = true)
    (hrecipient' : (scalars recipient').isSome = true)
    (hkey : parseAgreementKey (F := F) L (.str key) = .ok raw)
    (hkey' : parseAgreementKey (F := F) L (.str key') = .ok raw')
    (h : wrapAad digest recipient key = wrapAad digest' recipient' key') :
    digest = digest' ∧ recipient = recipient' ∧ key = key' := by
  obtain ⟨rs, hrs⟩ := Option.isSome_iff_exists.mp hrecipient
  obtain ⟨rs', hrs'⟩ := Option.isSome_iff_exists.mp hrecipient'
  obtain ⟨cs, hcs, hlen⟩ := agreementKey_form hL hkey
  obtain ⟨cs', hcs', hlen'⟩ := agreementKey_form hL hkey'
  have hchars : recipient = chars rs := scalars_eq_some_iff.mp hrs
  have hchars' : recipient' = chars rs' := scalars_eq_some_iff.mp hrs'
  rw [hchars, hchars', hcs, hcs'] at h ⊢
  rw [wrapAad, wrapAad, List.append_assoc, List.append_assoc, utf8Bytes_append, utf8Bytes_append] at h
  obtain ⟨hd, hbytes⟩ := List.append_inj h hdigest
  have htext : rs ++ 'z' :: cs = rs' ++ 'z' :: cs' := utf8Bytes_injective hbytes
  -- The key is what stands at the end of the text, but for the whitespace.
  have hdrop : ∀ (xs ys : List Char), (ys.rdropWhile Base58.isSpace).length = 47 →
      (xs ++ 'z' :: ys).rdropWhile Base58.isSpace = xs ++ 'z' :: ys.rdropWhile Base58.isSpace := by
    intro xs ys hys
    have hne : ys.rdropWhile Base58.isSpace ≠ [] := by
      intro hnil
      rw [hnil] at hys
      exact absurd hys (by decide)
    have hcons : ('z' :: ys).rdropWhile Base58.isSpace = 'z' :: ys.rdropWhile Base58.isSpace :=
      rdropWhile_append ['z'] hne
    rw [rdropWhile_append xs (by rw [hcons]; exact List.cons_ne_nil _ _), hcons]
  have hstripped := congrArg (List.rdropWhile Base58.isSpace) htext
  rw [hdrop rs cs hlen, hdrop rs' cs' hlen'] at hstripped
  have hparts := List.append_inj' hstripped (by rw [List.length_cons, List.length_cons, hlen, hlen'])
  have hkeys := htext
  rw [hparts.1, List.append_cancel_left_eq] at hkeys
  exact ⟨hd, congrArg chars hparts.1, congrArg chars hkeys⟩

end library

/-! ## What the primitives promise -/

/-- What a receiver relies on. -/
structure Receiver.Lawful {F X : Type} (R : Receiver F) (S : Suite X) : Prop where
  /-- What is encrypted is decrypted. -/
  decrypt_encrypt : ∀ key nonce data associated_data,
    R.decrypt key nonce (S.encrypt key nonce data associated_data) associated_data = some data
  /-- Both sides of a key agreement come to one secret. -/
  exchange_comm : ∀ a b, S.exchange a (S.public_bytes_raw b) = S.exchange b (S.public_bytes_raw a)
  /-- The schemas do not look at the order of keys. -/
  validate_same : ∀ v w : Value F, v.Same w → (R.validate v = none ↔ R.validate w = none)
  validatePayload_same : ∀ event_type v w : Value F, v.Same w →
    (R.validatePayload event_type v = none ↔ R.validatePayload event_type w = none)

/-- The signature of these data is none of other data, under any key. -/
def Unforged {PrivateKey : Type} (L : Library PrivateKey) (k : PrivateKey) (data : ByteArray) : Prop :=
  ∀ pub data', L.verify pub (L.sign k data) data' = true → data' = data

section opening

variable {F PrivateKey X : Type} {L : Library PrivateKey} {S : Suite X} {nonFinite : F → Bool} {frames : Nat} {R : Receiver F}

/-- The key under which the content key is wrapped for a recipient. -/
def wrapKey (S : Suite X) (header_bytes : ByteArray) (shared : List UInt8) : List UInt8 :=
  S.derive (S.sha256 header_bytes) MSG_WRAP_INFO shared

/-- The content key of a call, wrapped for this recipient. -/
def Call.wrapped (S : Suite X) (c : Call F PrivateKey X) (header_bytes : ByteArray) (shared : List UInt8)
    (i : Nat) (recipient : Recipient) : List UInt8 :=
  S.encrypt (wrapKey S header_bytes shared) (c.draws.wrap_nonce i) c.draws.cek
    (wrapAad (S.sha256 header_bytes) recipient.recipient recipient.agreement_key)

/-- No wrap for one of two keys of an identity opens under the wrapping key of the other: the
loop over the wraps tries both. -/
def Call.WrapsApart (L : Library PrivateKey) (S : Suite X) (R : Receiver F) (nonFinite : F → Bool) (frames : Nat)
    (c : Call F PrivateKey X) : Prop :=
  ∀ header_bytes, restrictedJcs nonFinite (frames - 1) (.dict (c.sealedHeader L S)) = .ok header_bytes →
    ∀ i j entry entry' own other shared shared', c.recipients[i]? = some entry → c.recipients[j]? = some entry' →
      checkRecipientEntry L entry i = .ok own → checkRecipientEntry L entry' j = .ok other →
      S.exchange c.draws.ephemeral_priv own.relationship_pub = some shared →
      S.exchange c.draws.ephemeral_priv other.relationship_pub = some shared' →
      own.recipient = other.recipient → wrapKey S header_bytes shared ≠ wrapKey S header_bytes shared' →
        R.decrypt (wrapKey S header_bytes shared) (c.draws.wrap_nonce j) (c.wrapped S header_bytes shared' j other)
          (wrapAad (S.sha256 header_bytes) other.recipient other.agreement_key) = none

/-! ## Reading an envelope that was made -/

theorem item_eq_ok_iff {es : List (Key × Value F)} {name : String} {v : Value F} :
    item (.dict es) name = .ok v ↔ getItem es (text name) = some v := by
  cases hv : getItem es (text name) with
  | none => simp [item, hv]
  | some w => simp [item, hv]

theorem item_of_same {v : Value F} {fs : List (Key × Value F)} {name : String} {w : Value F} (hfs : (fs.map Prod.fst).Nodup)
    (h : v.Same (.dict fs)) (hw : getItem fs (text name) = some w) : ∃ x, item v name = .ok x ∧ x.Same w := by
  obtain ⟨es, hes⟩ := same_dict h
  rw [hes] at h ⊢
  obtain ⟨x, hx, hsame⟩ := getItem_of_same hfs h hw
  exact ⟨x, item_eq_ok_iff.mpr hx, hsame⟩

theorem item_str_of_same {v : Value F} {fs : List (Key × Value F)} {name : String}
    (hfs : (fs.map Prod.fst).Nodup) (h : v.Same (.dict fs))
    (hs : getItem fs (text name) = some (.str s)) : item v name = .ok (.str s) := by
  obtain ⟨x, hx, hsame⟩ := item_of_same hfs h hs
  rw [same_str hsame] at hx
  exact hx

theorem item_wrap {v : Value F} {w : Wrap} (h : v.Same w.toValue) :
    item v "recipient" = .ok (.str w.recipient) ∧ item v "agreement_key" = .ok (.str w.agreement_key) ∧
      item v "wrap_nonce" = .ok (.str w.wrap_nonce) ∧ item v "wrapped_key" = .ok (.str w.wrapped_key) := by
  have hnodup : ([(key "recipient", .str w.recipient), (key "agreement_key", .str w.agreement_key),
      (key "wrap_nonce", .str w.wrap_nonce), (key "wrapped_key", .str w.wrapped_key)] : List (Key × Value F)).map
        Prod.fst |>.Nodup := by
    show [key "recipient", key "agreement_key", key "wrap_nonce", key "wrapped_key"].Nodup
    decide
  refine ⟨?_, ?_, ?_, ?_⟩
  · exact item_str_of_same hnodup h rfl
  · exact item_str_of_same hnodup h rfl
  · exact item_str_of_same hnodup h rfl
  · exact item_str_of_same hnodup h rfl

/-- The envelope of a call without its signature. -/
def Call.unsigned (L : Library PrivateKey) (S : Suite X) (c : Call F PrivateKey X) (wraps : List Wrap)
    (payload_bytes header_bytes : ByteArray) : List (Key × Value F) :=
  [(key "protected", .dict (c.sealedHeader L S)),
    (key "recipients", .list ((wraps.mergeSort wrapLe).map Wrap.toValue)),
    (key "content_nonce", .str (b64urlEncode c.draws.content_nonce)),
    (key "ciphertext", .str (b64urlEncode
      (S.encrypt c.draws.cek c.draws.content_nonce payload_bytes.data.toList (S.sha256 header_bytes))))]

/-- How an envelope was made. -/
structure Made (L : Library PrivateKey) (S : Suite X) (nonFinite : F → Bool) (frames : Nat) (c : Call F PrivateKey X) where
  checked : List Recipient
  payload_bytes : ByteArray
  header_bytes : ByteArray
  wraps : List Wrap
  data : ByteArray
  sender_eq : senderPub L c.header = .ok (L.public_bytes_raw c.identity_priv)
  checked_eq : collect (c.recipients.mapIdx fun i entry => checkRecipientEntry L entry i) = .ok checked
  payload_eq : restrictedJcs nonFinite (frames - 1) (.dict c.payload) = .ok payload_bytes
  header_eq : restrictedJcs nonFinite (frames - 1) (.dict (c.sealedHeader L S)) = .ok header_bytes
  wraps_eq : collect (checked.mapIdx fun i item => wrapEntry S c.draws (S.sha256 header_bytes) item i) = .ok wraps
  data_eq : restrictedJcs nonFinite (frames - 1) (.dict (c.unsigned L S wraps payload_bytes header_bytes)) = .ok data

/-- The envelope. -/
def Made.envelope {c : Call F PrivateKey X} (m : Made L S nonFinite frames c) : List (Key × Value F) :=
  c.unsigned L S m.wraps m.payload_bytes m.header_bytes ++
    [(key "signature", .str (b64urlEncode (L.sign c.identity_priv m.data)))]

theorem exists_made {c : Call F PrivateKey X} {envelope : List (Key × Value F)}
    (h : assemble L S nonFinite frames c = .ok envelope) : ∃ m : Made L S nonFinite frames c, envelope = m.envelope := by
  obtain ⟨checked, payload_bytes, header_bytes, wraps, data, hsender, hchecked, hpayload, _, hheader, hwraps, hdata,
    henvelope⟩ := assemble_parts h
  exact ⟨⟨checked, payload_bytes, header_bytes, wraps, data, hsender, hchecked, hpayload, hheader, hwraps, hdata⟩,
    henvelope⟩

theorem parseAgreementKey_fromPubkey (hL : L.Lawful) (hD : L.Documented)
    (h : agreementKeyMultibaseFromPubkey (F := F) L raw = .ok s) : parseAgreementKey (F := F) L (.str s) = .ok raw := by
  unfold agreementKeyMultibaseFromPubkey at h
  split at h
  · simp at h
  · rename_i hraw
    have hlength : (L.b58encode (MULTICODEC_X25519 ++ raw)).length = 47 := by
      rw [hD.b58encode, length_agreementKey (not_not.mp hraw)]
    have htwo : ¬(¬AGREEMENT_KEY_PREFIX <+: AGREEMENT_KEY_PREFIX ++ chars (L.b58encode (MULTICODEC_X25519 ++ raw)) ∨
        (AGREEMENT_KEY_PREFIX ++ chars (L.b58encode (MULTICODEC_X25519 ++ raw))).length < 2) := by
      rw [not_or, not_not, List.length_append, chars, List.length_map, hlength]
      exact ⟨List.prefix_append _ _, by decide⟩
    rw [← Except.ok.inj h, parseAgreementKey, if_neg htwo, List.drop_left]
    exact decodeMulticodec_b58encode hL (not_not.mp hraw) _

theorem sealedHeader_eq (hL : L.Lawful) (hD : L.Documented) (c : Call F PrivateKey X) :
    ∃ ephemeral_key, c.sealedHeader L S = setItem c.header (text "ephemeral_key") (.str ephemeral_key) ∧
      (scalars ephemeral_key).isSome = true ∧
      parseAgreementKey (F := F) L (.str ephemeral_key) = .ok (S.public_bytes_raw c.draws.ephemeral_priv) := by
  cases hkey : agreementKeyMultibaseFromPubkey (F := F) L (S.public_bytes_raw c.draws.ephemeral_priv) with
  | error e =>
    have hlength : ¬(S.public_bytes_raw c.draws.ephemeral_priv).length ≠ RAW_PUBKEY_LEN :=
      not_not.mpr (S.length_public_bytes_raw _)
    rw [agreementKeyMultibaseFromPubkey, if_neg hlength] at hkey
    simp at hkey
  | ok ephemeral_key =>
    have hread := parseAgreementKey_fromPubkey hL hD hkey
    refine ⟨ephemeral_key, by rw [Call.sealedHeader, hkey], ?_, hread⟩
    obtain ⟨cs, hcs⟩ := parseAgreementKey_scalars hL hread
    rw [Value.str.inj hcs]
    exact isSome_scalars_chars cs

theorem inProfile_sealedHeader (hL : L.Lawful) (hD : L.Documented) {c : Call F PrivateKey X}
    (m : Made L S nonFinite frames c) (hheader : (Value.dict c.header).listed = .dict c.header) :
    (Value.dict (c.sealedHeader L S)).InProfile := by
  obtain ⟨ephemeral_key, heq, _, _⟩ := sealedHeader_eq (S := S) hL hD c
  have hlisted : (Value.dict (c.sealedHeader L S)).listed = .dict (c.sealedHeader L S) := by
    rw [listed_dict_eq_iff, heq]
    intro e he
    cases mem_setItem he with
    | inl he => exact listed_dict_eq_iff.mp hheader e he
    | inr he => exact he ▸ rfl
  rw [← hlisted]
  exact inProfile_of_restrictedJcs m.header_eq

theorem inProfile_made (hL : L.Lawful) (hD : L.Documented) {c : Call F PrivateKey X}
    (m : Made L S nonFinite frames c) (hheader : (Value.dict c.header).listed = .dict c.header) :
    (Value.dict m.envelope).InProfile := by
  have hprotected := listed_of_inProfile (inProfile_sealedHeader hL hD m hheader)
  have hwraps : Value.listedItems ((m.wraps.mergeSort wrapLe).map (Wrap.toValue (F := F))) =
      (m.wraps.mergeSort wrapLe).map Wrap.toValue := by
    rw [listedItems_eq, List.map_map]
    rfl
  have hlisted : (Value.dict m.envelope).listed = .dict m.envelope := by
    show Value.dict [(key "protected", (Value.dict (c.sealedHeader L S)).listed),
      (key "recipients", .list (Value.listedItems ((m.wraps.mergeSort wrapLe).map Wrap.toValue))), _, _, _] = _
    rw [hprotected, hwraps]
    rfl
  rw [← hlisted]
  refine inProfile_append (inProfile_of_restrictedJcs m.data_eq) rfl ?_ (isSome_scalars_b64urlEncode _)
  show key "signature" ∉ [key "protected", key "recipients", key "content_nonce", key "ciphertext"]
  decide

theorem depth_sealedHeader (hL : L.Lawful) (hD : L.Documented) (c : Call F PrivateKey X) :
    (Value.dict (c.sealedHeader L S)).depth ≤ (Value.dict c.header).depth := by
  obtain ⟨ephemeral_key, heq, _, _⟩ := sealedHeader_eq (S := S) hL hD c
  rw [heq]
  refine Nat.succ_le_succ (entriesDepth_le_iff.mpr (fun e he => ?_))
  cases mem_setItem he with
  | inl he => exact depth_le_of_mem_entries he
  | inr he => exact he ▸ Nat.zero_le _

theorem depth_popItem (es : List (Key × Value F)) (k : Text) :
    (Value.dict (popItem es k)).depth ≤ (Value.dict es).depth :=
  Nat.succ_le_succ (entriesDepth_le_iff.mpr (fun _ he => depth_le_of_mem_entries (mem_popItem.mp he).1))

/-- How deep an envelope is nested. -/
theorem depth_made (hL : L.Lawful) (hD : L.Documented) {c : Call F PrivateKey X}
    (m : Made L S nonFinite frames c) : (Value.dict m.envelope).depth ≤ (Value.dict c.header).depth + 2 := by
  have hheader : Value.entriesDepth (c.sealedHeader L S) ≤ Value.entriesDepth c.header :=
    Nat.le_of_succ_le_succ (depth_sealedHeader hL hD c)
  have hwraps : Value.itemsDepth ((m.wraps.mergeSort wrapLe).map (Wrap.toValue (F := F))) ≤ 1 := by
    rw [itemsDepth_le_iff]
    intro x hx
    obtain ⟨w, _, hw⟩ := List.mem_map.mp hx
    exact hw ▸ Nat.le_refl 1
  show max (Value.entriesDepth (c.sealedHeader L S) + 1)
    (max (Value.itemsDepth ((m.wraps.mergeSort wrapLe).map (Wrap.toValue (F := F))) + 1) 0) + 1 ≤
      Value.entriesDepth c.header + 1 + 2
  omega

/-! ## The steps on an envelope that was made -/

section steps

variable {c : Call F PrivateKey X} {env : List (Key × Value F)}

theorem exists_sender (hL : L.Lawful) (hD : L.Documented) (m : Made L S nonFinite frames c) :
    ∃ sender, getItem (c.sealedHeader L S) (text "sender") = some (.str sender) ∧
      parseIdentityId (F := F) L (.str sender) = .ok (L.public_bytes_raw c.identity_priv) := by
  obtain ⟨ephemeral_key, heq, _, _⟩ := sealedHeader_eq (S := S) hL hD c
  have hsender := m.sender_eq
  unfold senderPub at hsender
  split at hsender
  · simp at hsender
  · rename_i sender hget
    split at hsender
    · rename_i pub hparse
      obtain ⟨cs, hcs⟩ := parseIdentityId_scalars hL hparse
      rw [Except.ok.inj hsender, hcs] at hparse
      refine ⟨chars cs, ?_, hparse⟩
      rw [heq, Policy.getItem_setItem, if_neg (by decide), hget, hcs]
    · simp at hsender

theorem authenticate_made (hL : L.Lawful) (hD : L.Documented) (m : Made L S nonFinite frames c)
    (hheader : (Value.dict c.header).listed = .dict c.header)
    (hframes : (Value.dict c.header).depth + 4 < R.frames) (henv : (Value.dict env).InProfile)
    (hsame : (Value.dict env).Same (.dict m.envelope)) :
    ∃ header, authenticate L S nonFinite R env =
        .ok (header, S.public_bytes_raw c.draws.ephemeral_priv, S.sha256 m.header_bytes) ∧
      header.Same (.dict (c.sealedHeader L S)) := by
  have hprofile := inProfile_made hL hD m hheader
  have hsealed := inProfile_sealedHeader hL hD m hheader
  have hkeys := (inProfile_dict_iff.mp hprofile).2.1
  have hkeys' := (inProfile_dict_iff.mp hsealed).2.1
  obtain ⟨ephemeral_key, heq, _, hephemeral⟩ := sealedHeader_eq (S := S) hL hD c
  obtain ⟨sender, hsender, hpub⟩ := exists_sender hL hD m
  have hkey : getItem (c.sealedHeader L S) (text "ephemeral_key") = some (.str ephemeral_key) := by
    rw [heq, Policy.getItem_setItem, if_pos rfl]
  obtain ⟨header, hprotected, hsameHeader⟩ := item_of_same hkeys hsame
    (show getItem m.envelope (text "protected") = some (.dict (c.sealedHeader L S)) from rfl)
  have hsignature := item_str_of_same hkeys hsame
    (show getItem m.envelope (text "signature") = some (.str (b64urlEncode (L.sign c.identity_priv m.data))) from rfl)
  have hpop : popItem m.envelope (text "signature") = c.unsigned L S m.wraps m.payload_bytes m.header_bytes := rfl
  have hdata : restrictedJcs nonFinite R.frames (.dict (popItem env (text "signature"))) = .ok m.data := by
    have hneeds := needs_le_of_inProfile (inProfile_of_restrictedJcs m.data_eq)
    have hdepth := (depth_popItem m.envelope (text "signature")).trans (depth_made hL hD m)
    rw [hpop] at hdepth
    rw [restrictedJcs_eq_of_same (inProfile_popItem _ henv) (inProfile_popItem _ hprofile) (same_popItem _ hsame), hpop]
    exact restrictedJcs_of_frames m.data_eq (by omega)
  have hbytes : restrictedJcs nonFinite R.frames header = .ok m.header_bytes := by
    have hneeds := needs_le_of_inProfile (inProfile_of_restrictedJcs m.header_eq)
    have hdepth := depth_sealedHeader (S := S) hL hD c
    have hin : header.InProfile :=
       (inProfile_dict_iff.mp henv).2.2 _ (mem_of_getItem (item_eq_ok_iff.mp hprotected))
    rw [restrictedJcs_eq_of_same hin hsealed hsameHeader]
    exact restrictedJcs_of_frames m.header_eq (by omega)
  refine ⟨header, ?_, hsameHeader⟩
  simp only [authenticate, hprotected, item_str_of_same hkeys' hsameHeader hsender, hpub,
    item_str_of_same hkeys' hsameHeader hkey, hephemeral, hsignature, b64urlDecode_b64urlEncode, hL.length_sign, hdata,
    hL.verify_sign, hbytes, Except.bind, ne_eq, not_true_eq_false, if_false, if_true]

/-- The loop gives the content key when some wrap opens as it and none as anything else. -/
theorem firstOpened_eq_ok {attempt : Value F → Except Unopened (Except UnsealCode (List UInt8))} {cek : List UInt8}
    {entries : List (Value F)}
    (hall : ∀ x ∈ entries, attempt x = .ok (.ok cek) ∨ ∃ failure, attempt x = .ok (.error failure))
    (hone : ∃ x ∈ entries, attempt x = .ok (.ok cek)) (failure : UnsealCode) :
    firstOpened attempt entries failure = .ok cek := by
  induction entries generalizing failure with
  | nil =>
    obtain ⟨x, hx, _⟩ := hone
    exact absurd hx List.not_mem_nil
  | cons x entries ih =>
    rw [List.forall_mem_cons] at hall
    rw [firstOpened]
    cases hall.1 with
    | inl hx =>
      rw [hx]
      rfl
    | inr hx =>
      obtain ⟨failure', hx⟩ := hx
      rw [hx]
      apply ih hall.2
      obtain ⟨y, hy, hopen⟩ := hone
      cases List.mem_cons.mp hy with
      | inl heq =>
        rw [heq, hx] at hopen
        simp at hopen
      | inr hmem => exact ⟨y, hmem, hopen⟩

theorem candidatesFor_eq_ok {entries : List (Value F)} {wraps : List Wrap}
    (h : List.Forall₂ Value.Same entries (wraps.map Wrap.toValue)) (recipient : Text) :
    ∃ candidates, candidatesFor recipient entries = .ok candidates ∧
      (∀ x ∈ candidates, ∃ w ∈ wraps, w.recipient = recipient ∧ x.Same w.toValue) ∧
      ∀ w ∈ wraps, w.recipient = recipient → ∃ x ∈ candidates, x.Same w.toValue := by
  have hnamed : ∃ named,
      collect (entries.map fun entry => (item entry "recipient").map fun r => (entry, r)) = .ok named ∧
      List.Forall₂ (fun (p : Value F × Value F) (w : Wrap) => p.1.Same w.toValue ∧ p.2 = .str w.recipient) named wraps := by
    induction wraps generalizing entries with
    | nil =>
      rw [List.map_nil, List.forall₂_nil_right_iff] at h
      rw [h]
      exact ⟨[], rfl, List.Forall₂.nil⟩
    | cons w wraps ih =>
      rw [List.map_cons, List.forall₂_cons_right_iff] at h
      obtain ⟨x, rest, hx, hrest, heq⟩ := h
      obtain ⟨named, hcollect, hforall⟩ := ih hrest
      refine ⟨(x, .str w.recipient) :: named, ?_, List.Forall₂.cons ⟨hx, rfl⟩ hforall⟩
      rw [collect_eq_ok_iff] at hcollect ⊢
      rw [heq, List.map_cons, hcollect, (item_wrap hx).1]
      rfl
  obtain ⟨named, hcollect, hforall⟩ := hnamed
  refine ⟨_, by rw [candidatesFor, hcollect]; rfl, fun x hx => ?_, fun w hw hrecipient => ?_⟩
  · obtain ⟨⟨x', r⟩, hmem, heq⟩ := List.mem_map.mp hx
    obtain ⟨hmem, hfor⟩ := List.mem_filter.mp hmem
    obtain ⟨i, hi, hget⟩ := List.getElem_of_mem hmem
    have hw := List.forall₂_iff_get.mp hforall
    have hi' : i < wraps.length := hw.1 ▸ hi
    have hpair := hw.2 i hi hi'
    rw [List.get_eq_getElem, hget] at hpair
    obtain ⟨hsame, hr⟩ := hpair
    refine ⟨wraps[i], List.getElem_mem hi', ?_, heq ▸ hsame⟩
    dsimp only at hr
    rw [hr] at hfor
    exact of_decide_eq_true hfor
  · obtain ⟨i, hi, hget⟩ := List.getElem_of_mem hw
    have hn := List.forall₂_iff_get.mp hforall
    have hi' : i < named.length := hn.1 ▸ hi
    have hpair := hn.2 i hi' hi
    rw [List.get_eq_getElem, List.get_eq_getElem, hget] at hpair
    refine ⟨named[i].1, List.mem_map_of_mem (List.mem_filter.mpr ⟨List.getElem_mem hi', ?_⟩), hpair.1⟩
    rw [show named[i] = (named[i].1, named[i].2) from rfl, hpair.2]
    exact decide_eq_true hrecipient

/-- What the check of an argument says. -/
theorem checkRecipientEntry_spec {entry : Entry F} {recipient : Recipient}
    (h : checkRecipientEntry L entry i = .ok recipient) :
    entry.relationship_pub = some recipient.relationship_pub ∧
      parseAgreementKey (F := F) L (.str recipient.agreement_key) = .ok recipient.relationship_pub ∧
      ∃ pub, parseIdentityId (F := F) L (.str recipient.recipient) = .ok pub := by
  obtain ⟨name, agreement_key, relationship_pub⟩ := entry
  unfold checkRecipientEntry at h
  split at h
  · simp at h
  · simp at h
  · simp at h
  · rename_i hpub
    split at h
    · simp at h
    · split at h
      · rename_i hidentity
        split at h
        · rename_i hdecoded
          split at h
          · simp at h
          · rename_i hmatch
            rw [← Except.ok.inj h]
            rw [not_not.mp hmatch] at hdecoded
            exact ⟨hpub, hdecoded, _, hidentity⟩
        · simp at h
      · simp at h

theorem wrapEntry_spec {draws : Draws X} {recipient : Recipient} {w : Wrap}
    (h : wrapEntry S draws digest recipient i = .ok w) :
    ∃ shared, S.exchange draws.ephemeral_priv recipient.relationship_pub = some shared ∧ shared ≠ List.replicate 32 0 ∧
      w = ⟨recipient.recipient, recipient.agreement_key, b64urlEncode (draws.wrap_nonce i),
        b64urlEncode (S.encrypt (S.derive digest MSG_WRAP_INFO shared) (draws.wrap_nonce i) draws.cek
          (wrapAad digest recipient.recipient recipient.agreement_key))⟩ := by
  unfold wrapEntry at h
  split at h
  · simp at h
  · rename_i shared hshared
    dsimp only at h
    split at h
    · simp at h
    · rename_i hne
      exact ⟨shared, hshared, hne, (Except.ok.inj h).symm⟩

theorem getElem?_checked (m : Made L S nonFinite frames c) (i : Nat) :
    (c.recipients[i]?).map (fun entry => checkRecipientEntry L entry i) = (m.checked[i]?).map .ok := by
  have h := congrArg (fun l => l[i]?) (collect_eq_ok_iff.mp m.checked_eq)
  rw [List.getElem?_mapIdx, List.getElem?_map] at h
  exact h

theorem getElem?_wraps (m : Made L S nonFinite frames c) (i : Nat) :
    (m.checked[i]?).map (fun recipient => wrapEntry S c.draws (S.sha256 m.header_bytes) recipient i) =
      (m.wraps[i]?).map .ok := by
  have h := congrArg (fun l => l[i]?) (collect_eq_ok_iff.mp m.wraps_eq)
  rw [List.getElem?_mapIdx, List.getElem?_map] at h
  exact h

/-- Each wrap of an envelope is that of an argument. -/
theorem entry_of_wrap (m : Made L S nonFinite frames c) {w : Wrap} (h : w ∈ m.wraps) :
    ∃ i entry recipient, c.recipients[i]? = some entry ∧ checkRecipientEntry L entry i = .ok recipient ∧
      wrapEntry S c.draws (S.sha256 m.header_bytes) recipient i = .ok w := by
  obtain ⟨i, hi⟩ := List.mem_iff_getElem?.mp h
  have hwrap := getElem?_wraps m i
  rw [hi] at hwrap
  obtain ⟨recipient, hrecipient, hw⟩ := Option.map_eq_some_iff.mp hwrap
  have hentry := getElem?_checked m i
  rw [hrecipient] at hentry
  obtain ⟨entry, hentry, hok⟩ := Option.map_eq_some_iff.mp hentry
  exact ⟨i, entry, recipient, hentry, hok, hw⟩

theorem wrap_of_entry (m : Made L S nonFinite frames c) {entry : Entry F}
    (h : c.recipients[i]? = some entry) :
    ∃ recipient w, checkRecipientEntry L entry i = .ok recipient ∧
      wrapEntry S c.draws (S.sha256 m.header_bytes) recipient i = .ok w ∧ w ∈ m.wraps := by
  have hentry := getElem?_checked m i
  rw [h] at hentry
  obtain ⟨recipient, hrecipient, hok⟩ := Option.map_eq_some_iff.mp hentry.symm
  have hwrap := getElem?_wraps m i
  rw [hrecipient] at hwrap
  obtain ⟨w, hw, hmade⟩ := Option.map_eq_some_iff.mp hwrap.symm
  exact ⟨recipient, w, hok.symm, hmade.symm, List.mem_of_getElem? hw⟩

theorem openWrap_made (kek own_pub_raw : List UInt8) {draws : Draws X} {recipient : Recipient}
    {w : Wrap} {x : Value F} (hx : x.Same w.toValue)
    (hw : wrapEntry S draws digest recipient i = .ok w)
    (hkey : parseAgreementKey (F := F) L (.str recipient.agreement_key) = .ok recipient.relationship_pub) :
    ∃ shared, S.exchange draws.ephemeral_priv recipient.relationship_pub = some shared ∧ shared ≠ List.replicate 32 0 ∧
      openWrap L R kek digest own_pub_raw recipient.recipient x =
        .ok (match R.decrypt kek (draws.wrap_nonce i)
            (S.encrypt (S.derive digest MSG_WRAP_INFO shared) (draws.wrap_nonce i) draws.cek
              (wrapAad digest recipient.recipient recipient.agreement_key))
            (wrapAad digest recipient.recipient recipient.agreement_key) with
          | some cek => .ok cek
          | none => .error (if recipient.relationship_pub ≠ own_pub_raw then .wrong_aad else .tampered_wrap)) := by
  obtain ⟨shared, hshared, hne, heq⟩ := wrapEntry_spec hw
  obtain ⟨_, hagreement, hnonce, hwrapped⟩ := item_wrap hx
  rw [heq] at hagreement hnonce hwrapped
  refine ⟨shared, hshared, hne, ?_⟩
  simp only [openWrap, hagreement, hkey, hnonce, hwrapped, b64urlDecode_b64urlEncode, draws.length_wrap_nonce, Except.bind,
    ne_eq, not_true_eq_false, if_false]
  cases R.decrypt kek (draws.wrap_nonce i) _ _ with
  | none => rfl
  | some cek => rfl

theorem unwrapKey_made (hL : L.Lawful) (hD : L.Documented) (hR : R.Lawful S) (hapart : c.WrapsApart L S R nonFinite frames)
    (m : Made L S nonFinite frames c) (hheader : (Value.dict c.header).listed = .dict c.header) (hsame : (Value.dict env).Same (.dict m.envelope))
    {entry : Entry F} (hentry : entry ∈ c.recipients) {name : Text} (hname : entry.recipient = some (.str name))
    {relationship_priv : X} (hpub : entry.relationship_pub = some (S.public_bytes_raw relationship_priv)) :
    unwrapKey L S R env relationship_priv name (S.public_bytes_raw c.draws.ephemeral_priv) (S.sha256 m.header_bytes) =
      .ok c.draws.cek := by
  have hkeys := (inProfile_dict_iff.mp (inProfile_made hL hD m hheader)).2.1
  obtain ⟨recipients, hrecipients, hlist⟩ := item_of_same hkeys hsame
    (show getItem m.envelope (text "recipients") = some (.list ((m.wraps.mergeSort wrapLe).map Wrap.toValue)) from rfl)
  obtain ⟨entries, hentries, hforall⟩ := same_list hlist
  rw [hentries] at hrecipients
  obtain ⟨candidates, hcandidates, hfrom, hto⟩ := candidatesFor_eq_ok hforall name
  -- The wrap of the recipient itself.
  obtain ⟨i, hi⟩ := List.mem_iff_getElem?.mp hentry
  obtain ⟨own, w, hown, hw, hmem⟩ := wrap_of_entry m hi
  obtain ⟨hrelationship, hagreement, _⟩ := checkRecipientEntry_spec hown
  have hownPub : own.relationship_pub = S.public_bytes_raw relationship_priv :=
    Option.some.inj (hrelationship.symm.trans hpub)
  have hownName : own.recipient = name := by
    have hargument := (checkRecipientEntry_eq_ok hown).1
    rw [hname] at hargument
    exact (Value.str.inj (Option.some.inj hargument)).symm
  obtain ⟨shared, hshared, hne, heq⟩ := wrapEntry_spec hw
  have hexchange : S.exchange relationship_priv (S.public_bytes_raw c.draws.ephemeral_priv) = some shared := by
    rw [hR.exchange_comm, ← hownPub, hshared]
  have hwName : w.recipient = name := by
    rw [heq]
    exact hownName
  obtain ⟨x, hx, hxw⟩ := hto w (List.mem_mergeSort.mpr hmem) hwName
  have hnonempty : ¬candidates.isEmpty = true := by
    rw [List.isEmpty_iff]
    exact List.ne_nil_of_mem hx
  simp only [unwrapKey, hrecipients, hcandidates, hexchange, Except.bind, hnonempty, hne, if_false]
  apply firstOpened_eq_ok
  · intro y hy
    obtain ⟨w', hw', hwName', hyw⟩ := hfrom y hy
    obtain ⟨j, entry', recipient, hj, hchecked, hwrap⟩ := entry_of_wrap m (List.mem_mergeSort.mp hw')
    obtain ⟨_, hkey, _⟩ := checkRecipientEntry_spec hchecked
    obtain ⟨shared', hshared', _, hopen⟩ := openWrap_made (R := R)
      (S.derive (S.sha256 m.header_bytes) MSG_WRAP_INFO shared) (S.public_bytes_raw relationship_priv) hyw hwrap hkey
    obtain ⟨_, _, _, heq'⟩ := wrapEntry_spec hwrap
    have hrecipient : recipient.recipient = name := by
      rw [heq'] at hwName'
      exact hwName'
    rw [hrecipient] at hopen
    rw [hopen]
    by_cases hsameKey : wrapKey S m.header_bytes shared = wrapKey S m.header_bytes shared'
    · -- It is wrapped under the same key.
      rw [wrapKey, wrapKey] at hsameKey
      rw [hsameKey, hR.decrypt_encrypt]
      exact .inl rfl
    · have hclosed := hapart _ m.header_eq i j entry entry' own recipient shared shared' hi hj hown hchecked hshared hshared'
        (hownName.trans hrecipient.symm) hsameKey
      rw [hrecipient] at hclosed
      rw [Call.wrapped, wrapKey, wrapKey, hrecipient] at hclosed
      rw [hclosed]
      exact .inr ⟨_, rfl⟩
  · obtain ⟨shared', hshared', _, hopen⟩ := openWrap_made (R := R)
      (S.derive (S.sha256 m.header_bytes) MSG_WRAP_INFO shared) (S.public_bytes_raw relationship_priv) hxw hw hagreement
    rw [hownName] at hopen
    refine ⟨x, hx, ?_⟩
    rw [hopen, Option.some.inj (hshared'.symm.trans hshared), hR.decrypt_encrypt]

theorem openBody_made (hL : L.Lawful) (hD : L.Documented) (hR : R.Lawful S) (m : Made L S nonFinite frames c)
    (hheader : (Value.dict c.header).listed = .dict c.header) (hsame : (Value.dict env).Same (.dict m.envelope)) :
    openBody R env c.draws.cek (S.sha256 m.header_bytes) = .ok m.payload_bytes.data.toList := by
  have hkeys := (inProfile_dict_iff.mp (inProfile_made hL hD m hheader)).2.1
  have hnonce := item_str_of_same hkeys hsame
    (show getItem m.envelope (text "content_nonce") = some (.str (b64urlEncode c.draws.content_nonce)) from rfl)
  have hciphertext := item_str_of_same hkeys hsame
    (show getItem m.envelope (text "ciphertext") = some (.str (b64urlEncode (S.encrypt c.draws.cek c.draws.content_nonce
      m.payload_bytes.data.toList (S.sha256 m.header_bytes)))) from rfl)
  have hcek : c.draws.cek.length ∈ [16, 24, 32] := by
    rw [c.draws.length_cek]
    decide
  simp only [openBody, hnonce, hciphertext, b64urlDecode_b64urlEncode, c.draws.length_content_nonce, hcek,
    hR.decrypt_encrypt, Except.bind, ne_eq, not_true_eq_false, if_false]

theorem readPayload_made (hR : R.Lawful S) (m : Made L S nonFinite frames c)
    (hlisted : (Value.dict c.payload).listed = .dict c.payload) (hlimit : (Value.dict c.payload).depth ≤ R.limit) {header : Value F} {event_type : Value F}
    (htype : item header "event_type" = .ok event_type) :
    (R.validatePayload event_type (.dict c.payload) = none →
      ∃ payload, readPayload R header m.payload_bytes.data.toList = .ok payload ∧ payload.Same (.dict c.payload)) ∧
    (R.validatePayload event_type (.dict c.payload) ≠ none →
      ∃ field_path code, readPayload R header m.payload_bytes.data.toList =
        .error (.sealing .payload_invalid field_path (.schema code))) := by
  have hpayload : (Value.dict c.payload).InProfile := hlisted ▸ inProfile_of_restrictedJcs m.payload_eq
  obtain ⟨_, out, -, hout, hbytes⟩ := restrictedJcs_eq_ok_iff.mp m.payload_eq
  have hparse : strictParse R.parseFloat R.limit m.payload_bytes = .ok (Value.dict c.payload).sorted := by
    rw [← hbytes]
    exact strictParse_encode hpayload hlimit hout
  have hsame := sorted_same (Value.dict c.payload)
  have hread : readPayload R header m.payload_bytes.data.toList =
      match R.validatePayload event_type (Value.dict c.payload).sorted with
      | none => .ok (Value.dict c.payload).sorted
      | some (field_path, code) => .error (.sealing .payload_invalid field_path (.schema code)) := by
    have hdata : (⟨m.payload_bytes.data.toList.toArray⟩ : ByteArray) = m.payload_bytes := rfl
    rw [readPayload, hdata, hparse]
    show (item header "event_type").bind _ = _
    rw [htype]
    rfl
  have hvalid := hR.validatePayload_same event_type _ _ hsame
  constructor
  · intro h
    refine ⟨_, ?_, hsame⟩
    rw [hread, hvalid.mpr h]
  · intro h
    cases hinvalid : R.validatePayload event_type (Value.dict c.payload).sorted with
    | none => exact absurd (hvalid.mp hinvalid) h
    | some e =>
      refine ⟨e.1, e.2, ?_⟩
      rw [hread, hinvalid]

end steps

/-! ## The round trip -/

theorem sealEnvelope_eq_ok {validate : Value F → Option (Text × String)} {c : Call F PrivateKey X} {v : Value F}
    (h : sealEnvelope L S nonFinite frames validate c = .ok v) :
    ∃ m : Made L S nonFinite frames c, v = .dict m.envelope ∧ validate (.dict m.envelope) = none ∧
      ∃ sealed_bytes, restrictedJcs nonFinite (frames - 1) (.dict m.envelope) = .ok sealed_bytes ∧ sealed_bytes.size ≤ MAX_ENVELOPE_BYTES := by
  obtain ⟨envelope, hassemble, hrest⟩ := bind_eq_ok_iff.mp h
  obtain ⟨m, hm⟩ := exists_made hassemble
  rw [hm] at hrest
  split at hrest
  · simp at hrest
  · rename_i hvalid
    obtain ⟨sealed_bytes, hbytes, hsize⟩ := bind_eq_ok_iff.mp hrest
    split at hsize
    · simp at hsize
    · rename_i hle
      exact ⟨m, (Except.ok.inj hsize).symm, hvalid, sealed_bytes, canonicalOrRaise_eq_ok_iff.mp hbytes, not_lt.mp hle⟩

/-- The forms in which a receiver gets an envelope: the dict, or its canonical bytes. -/
def Carries (nonFinite : F → Bool) (envelope : Value F) (input : Input F) : Prop :=
  (∃ es, envelope = .dict es ∧ input = .dict es) ∨
    ∃ room data, restrictedJcs nonFinite room envelope = .ok data ∧ input = .raw data

theorem parseEnvelopeInput_of_carries (hL : L.Lawful) (hD : L.Documented) {c : Call F PrivateKey X} (m : Made L S nonFinite frames c)
    (hheader : (Value.dict c.header).listed = .dict c.header) (hlimit : (Value.dict c.header).depth + 2 ≤ R.limit)
    (hframes : (Value.dict c.header).depth + 6 < R.frames)
    {sealed_bytes : ByteArray} (hbytes : restrictedJcs nonFinite (frames - 1) (.dict m.envelope) = .ok sealed_bytes)
    (hsize : sealed_bytes.size ≤ MAX_ENVELOPE_BYTES) {input : Input F} (hinput : Carries nonFinite (.dict m.envelope) input) :
    ∃ env, parseEnvelopeInput nonFinite R input = .ok env ∧ (Value.dict env).InProfile ∧
      (Value.dict env).Same (.dict m.envelope) := by
  have hprofile := inProfile_made hL hD m hheader
  cases hinput with
  | inl h =>
    obtain ⟨es, hes, hdict⟩ := h
    refine ⟨m.envelope, ?_, hprofile, same_refl _⟩
    have hneeds := needs_le_of_inProfile (inProfile_of_restrictedJcs hbytes)
    have hdepth := depth_made hL hD m
    rw [hdict, ← Value.dict.inj hes, parseEnvelopeInput, restrictedJcs_of_frames hbytes (by omega)]
    exact if_neg (not_lt.mpr hsize)
  | inr h =>
    obtain ⟨room, data, hdata, hraw⟩ := h
    have hroom := restrictedJcs_of_frames hbytes ((restrictedJcs_ok_iff _).mp ⟨data, hdata⟩).2
    rw [Except.ok.inj (hdata.symm.trans hroom)] at hraw
    obtain ⟨_, out, -, hout, hutf8⟩ := restrictedJcs_eq_ok_iff.mp hbytes
    have hparse : strictParse R.parseFloat R.limit sealed_bytes = .ok (Value.dict m.envelope).sorted := by
      rw [← hutf8]
      exact strictParse_encode hprofile ((depth_made hL hD m).trans hlimit) hout
    have hsame := sorted_same (Value.dict m.envelope)
    obtain ⟨env, henv⟩ := same_dict hsame
    rw [henv] at hparse hsame
    refine ⟨env, ?_, henv ▸ inProfile_sorted hprofile, hsame⟩
    rw [hraw, parseEnvelopeInput, if_neg (not_lt.mpr hsize), hparse]

theorem unsealEnvelope_made (hL : L.Lawful) (hD : L.Documented) (hR : R.Lawful S) {c : Call F PrivateKey X} (m : Made L S nonFinite frames c)
    (hvalid : R.validate (.dict m.envelope) = none) (hapart : c.WrapsApart L S R nonFinite frames)
    (hheader : (Value.dict c.header).listed = .dict c.header) (hheaderDepth : (Value.dict c.header).depth + 2 ≤ R.limit)
    (hframes : (Value.dict c.header).depth + 6 < R.frames)
    {sealed_bytes : ByteArray} (hbytes : restrictedJcs nonFinite (frames - 1) (.dict m.envelope) = .ok sealed_bytes)
    (hsize : sealed_bytes.size ≤ MAX_ENVELOPE_BYTES) {input : Input F} (hinput : Carries nonFinite (.dict m.envelope) input)
    (event_type : Text) (htype : getItem c.header (text "event_type") = some (.str event_type))
    {entry : Entry F} (hentry : entry ∈ c.recipients) (name : Text) (hname : entry.recipient = some (.str name))
    (relationship_priv : X) (hpub : entry.relationship_pub = some (S.public_bytes_raw relationship_priv)) :
    ∃ header, header.Same (.dict (c.sealedHeader L S)) ∧ item header "event_type" = .ok (.str event_type) ∧
      unsealEnvelope L S nonFinite R input relationship_priv name =
        (readPayload R header m.payload_bytes.data.toList).map fun payload => (header, payload) := by
  obtain ⟨env, hparse, henv, hsame⟩ := parseEnvelopeInput_of_carries hL hD m hheader hheaderDepth hframes hbytes hsize hinput
  have hvalid' := (hR.validate_same _ _ hsame).mpr hvalid
  obtain ⟨header, hauth, hsameHeader⟩ := authenticate_made (R := R) hL hD m hheader (by omega) henv hsame
  have hunwrap := unwrapKey_made hL hD hR hapart m hheader hsame hentry hname hpub
  have hbody := openBody_made hL hD hR m hheader hsame
  refine ⟨header, hsameHeader, ?_, ?_⟩
  · obtain ⟨ephemeral_key, heq, _, _⟩ := sealedHeader_eq (S := S) hL hD c
    have hkeys := (inProfile_dict_iff.mp (inProfile_sealedHeader hL hD m hheader)).2.1
    apply item_str_of_same hkeys hsameHeader
    rw [heq, Policy.getItem_setItem, if_neg (by decide), htype]
  · simp only [unsealEnvelope, hparse, hvalid', unsealParsed, hauth, hunwrap, hbody, Except.bind]

/-- Every recipient of a sealed envelope, whether it has the dict or the bytes, gets back the
header that was sealed and the payload with its private key, if the payload is valid for
the type of the event, and is refused for the payload otherwise. -/
theorem unseal_sealed (hL : L.Lawful) (hD : L.Documented) (hR : R.Lawful S) (c : Call F PrivateKey X) (envelope : Value F)
    (hseal : sealEnvelope L S nonFinite frames R.validate c = .ok envelope) (hapart : c.WrapsApart L S R nonFinite frames)
    (hheader : (Value.dict c.header).listed = .dict c.header) (hheaderDepth : (Value.dict c.header).depth + 2 ≤ R.limit)
    (hframes : (Value.dict c.header).depth + 6 < R.frames)
    (hpayload : (Value.dict c.payload).listed = .dict c.payload) (hpayloadDepth : (Value.dict c.payload).depth ≤ R.limit)
    (event_type : Text) (htype : getItem c.header (text "event_type") = some (.str event_type))
    (entry : Entry F) (hentry : entry ∈ c.recipients) (name : Text) (hname : entry.recipient = some (.str name))
    (relationship_priv : X) (hpub : entry.relationship_pub = some (S.public_bytes_raw relationship_priv))
    (input : Input F) (hinput : Carries nonFinite envelope input) :
    (R.validatePayload (.str event_type) (.dict c.payload) = none →
      ∃ header payload, unsealEnvelope L S nonFinite R input relationship_priv name = .ok (header, payload) ∧
        header.Same (.dict (c.sealedHeader L S)) ∧ payload.Same (.dict c.payload)) ∧
    (R.validatePayload (.str event_type) (.dict c.payload) ≠ none →
      ∃ field_path code, unsealEnvelope L S nonFinite R input relationship_priv name =
        .error (.sealing .payload_invalid field_path (.schema code))) := by
  obtain ⟨m, henvelope, hvalid, sealed_bytes, hbytes, hsize⟩ := sealEnvelope_eq_ok hseal
  rw [henvelope] at hinput
  obtain ⟨header, hsameHeader, hitem, hunseal⟩ := unsealEnvelope_made hL hD hR m hvalid hapart hheader hheaderDepth hframes
    hbytes hsize hinput event_type htype hentry name hname relationship_priv hpub
  obtain ⟨haccepted, hrefused⟩ := readPayload_made hR m hpayload hpayloadDepth hitem
  constructor
  · intro h
    obtain ⟨payload, hread, hsamePayload⟩ := haccepted h
    refine ⟨header, payload, ?_, hsameHeader, hsamePayload⟩
    rw [hunseal, hread]
    rfl
  · intro h
    obtain ⟨field_path, code, hread⟩ := hrefused h
    refine ⟨field_path, code, ?_⟩
    rw [hunseal, hread]
    rfl

/-! ## The binding -/

theorem verify_of_authenticate {env : List (Key × Value F)} {out : Value F × List UInt8 × List UInt8}
    (h : authenticate L S nonFinite R env = .ok out) :
    ∃ encoded signature sender_pub data, getItem env (text "signature") = some encoded ∧
      b64urlDecode (F := F) encoded = .ok signature ∧
      restrictedJcs nonFinite R.frames (.dict (popItem env (text "signature"))) = .ok data ∧
      L.verify sender_pub signature data = true := by
  obtain ⟨header, _, h⟩ := bind_eq_ok_iff.mp h
  obtain ⟨sender, _, h⟩ := bind_eq_ok_iff.mp h
  split at h
  · simp at h
  · rename_i sender_pub _
    obtain ⟨ephemeral_key, _, h⟩ := bind_eq_ok_iff.mp h
    split at h
    · simp at h
    · obtain ⟨encoded, hencoded, h⟩ := bind_eq_ok_iff.mp h
      split at h
      · simp at h
      · rename_i signature hsignature
        split at h
        · simp at h
        · split at h
          · simp at h
          · simp at h
          · rename_i data hdata
            split at h
            · rename_i hverify
              exact ⟨encoded, signature, sender_pub, data, item_eq_ok_iff.mp hencoded, hsignature, hdata, hverify⟩
            · simp at h

/-- What is unsealed under the signature of an envelope is that envelope: the header, the
recipients, the nonce and the ciphertext have the canonical bytes that were signed, and
there is no other key. -/
theorem unsealed_unchanged (c : Call F PrivateKey X) (envelope : List (Key × Value F))
    (hassemble : assemble L S nonFinite frames c = .ok envelope)
    (hunforged : ∀ data, restrictedJcs nonFinite (frames - 1) (.dict (popItem envelope (text "signature"))) = .ok data →
      Unforged L c.identity_priv data)
    (input : Input F) (env : List (Key × Value F)) (hparse : parseEnvelopeInput nonFinite R input = .ok env)
    (hsignature : getItem env (text "signature") = getItem envelope (text "signature"))
    (relationship_priv : X) (name : Text) (result : Value F × Value F)
    (hunseal : unsealEnvelope L S nonFinite R input relationship_priv name = .ok result) (k : Text) (room : Nat) :
    (getItem env k).map (restrictedJcs nonFinite room) = (getItem envelope k).map (restrictedJcs nonFinite room) := by
  obtain ⟨m, hm⟩ := exists_made hassemble
  have hpop : popItem m.envelope (text "signature") = c.unsigned L S m.wraps m.payload_bytes m.header_bytes := rfl
  obtain ⟨env', hparse', hrest⟩ := bind_eq_ok_iff.mp hunseal
  obtain rfl := Except.ok.inj (hparse'.symm.trans hparse)
  split at hrest
  · simp at hrest
  · obtain ⟨out, hauth, _⟩ := bind_eq_ok_iff.mp hrest
    obtain ⟨encoded, signature, sender_pub, data, hencoded, hdecode, hdata, hverify⟩ := verify_of_authenticate hauth
    have hsigned : getItem m.envelope (text "signature") = some (.str (b64urlEncode (L.sign c.identity_priv m.data))) := rfl
    rw [hencoded, hm, hsigned] at hsignature
    rw [Option.some.inj hsignature, b64urlDecode_b64urlEncode] at hdecode
    rw [← Except.ok.inj hdecode] at hverify
    have hmade : restrictedJcs nonFinite (frames - 1) (.dict (popItem envelope (text "signature"))) = .ok m.data := by
      rw [hm, hpop, m.data_eq]
    rw [hunforged m.data hmade sender_pub data hverify] at hdata
    by_cases hk : k = text "signature"
    · rw [hk, hencoded, hm, hsigned, Option.some.inj hsignature]
    · have hbytes := restrictedJcs_getItem R.parseFloat hdata hmade k room
      rw [Policy.getItem_popItem, Policy.getItem_popItem, if_neg hk, if_neg hk] at hbytes
      exact hbytes

/-- A wrap that is opened stands in its own place: it is read for the digest of its own header,
for its own recipient and agreement key, where `AESGCM` refuses it, under the key that is
tried, with other associated data.  Under the key of its recipient it gives the content key. -/
theorem wrap_not_moved (hL : L.Lawful) (hD : L.Documented) (hR : R.Lawful S) (hsha256 : ∀ data, (S.sha256 data).length = 32)
    (c : Call F PrivateKey X) (m : Made L S nonFinite frames c) (w : Wrap) (hw : w ∈ m.wraps)
    (entry : Value F) (hnonce : item entry "wrap_nonce" = .ok (.str w.wrap_nonce))
    (hwrapped : item entry "wrapped_key" = .ok (.str w.wrapped_key)) (recipient : Text)
    (hrecipient : (scalars recipient).isSome = true) (kek own_pub_raw cek : List UInt8) (header_bytes : ByteArray)
    (hrefused : ∀ nonce wrapped agreement_key, b64urlDecode (.str w.wrap_nonce : Value F) = .ok nonce →
      b64urlDecode (.str w.wrapped_key : Value F) = .ok wrapped → item entry "agreement_key" = .ok (.str agreement_key) →
      wrapAad (S.sha256 header_bytes) recipient agreement_key ≠
        wrapAad (S.sha256 m.header_bytes) w.recipient w.agreement_key →
        R.decrypt kek nonce wrapped (wrapAad (S.sha256 header_bytes) recipient agreement_key) = none)
    (hopen : openWrap L R kek (S.sha256 header_bytes) own_pub_raw recipient entry = .ok (.ok cek)) :
    S.sha256 header_bytes = S.sha256 m.header_bytes ∧ recipient = w.recipient ∧
      item entry "agreement_key" = .ok (.str w.agreement_key) ∧
      ∀ relationship_pub shared, parseAgreementKey L (.str w.agreement_key : Value F) = .ok relationship_pub →
        S.exchange c.draws.ephemeral_priv relationship_pub = some shared → kek = wrapKey S m.header_bytes shared →
          cek = c.draws.cek := by
  obtain ⟨i, argument, own, hi, hchecked, hwrap⟩ := entry_of_wrap m hw
  obtain ⟨_, hkey, pub, hidentity⟩ := checkRecipientEntry_spec hchecked
  obtain ⟨shared, hshared, _, heq⟩ := wrapEntry_spec hwrap
  have hown : (scalars own.recipient).isSome = true := by
    obtain ⟨cs, hcs⟩ := parseIdentityId_scalars hL hidentity
    rw [Value.str.inj hcs]
    exact isSome_scalars_chars cs
  obtain ⟨agreement_key, hagreement, h⟩ := bind_eq_ok_iff.mp hopen
  split at h
  · rename_i agreement_key' entry_key_raw hparse
    rw [heq] at hnonce hwrapped hrefused
    have hread := hrefused _ _ _ (b64urlDecode_b64urlEncode _) (b64urlDecode_b64urlEncode _) hagreement
    simp only [hnonce, hwrapped, b64urlDecode_b64urlEncode, c.draws.length_wrap_nonce, Except.bind, ne_eq,
      not_true_eq_false, if_false] at h
    split at h
    · rename_i opened hopened
      -- It is not refused, so the associated data are its own.
      have haad : wrapAad (S.sha256 header_bytes) recipient agreement_key' =
          wrapAad (S.sha256 m.header_bytes) own.recipient own.agreement_key := by
        by_contra hne
        rw [hread hne] at hopened
        simp at hopened
      obtain ⟨hdigest, hname, hsame⟩ := wrapAad_injective hD (by rw [hsha256, hsha256]) hrecipient hown hparse hkey haad
      refine ⟨hdigest, ?_, ?_, ?_⟩
      · rw [hname, heq]
      · rw [hagreement, hsame, heq]
      · intro relationship_pub shared' hpub hshared' hkek
        rw [heq, hkey] at hpub
        rw [← Except.ok.inj hpub, hshared] at hshared'
        rw [haad, hkek, ← Option.some.inj hshared', wrapKey, hR.decrypt_encrypt] at hopened
        exact (Except.ok.inj (Except.ok.inj h)).symm.trans (Option.some.inj hopened).symm
    · simp at h
  · simp at h

end opening

/-! ## A message that is opened -/

/-- Primitives with a tag that shows whether the associated data are these. -/
def markedSuite (aad : List UInt8) : Suite Unit :=
  sealingSuite (fun _ _ data aad' => data ++ List.replicate 16 (if aad' = aad then 1 else 0)) (by simp)

/-- The receiver that looks at the tag. -/
def markedReceiver (aad : List UInt8) : Receiver Unit where
  decrypt _ _ data aad' :=
    if data.drop (data.length - 16) = List.replicate 16 (if aad' = aad then 1 else 0) then some (data.take (data.length - 16))
    else none
  parseFloat _ := ()
  limit := 100
  frames := 1000
  validate _ := none
  validatePayload _ _ := none

theorem markedReceiver_lawful (aad : List UInt8) : (markedReceiver aad).Lawful (markedSuite aad) where
  decrypt_encrypt key nonce data aad' := by
    simp [markedReceiver, markedSuite, sealingSuite]
  exchange_comm _ _ := rfl
  validate_same _ _ _ := Iff.rfl
  validatePayload_same _ _ _ _ := Iff.rfl

/-- The associated data of the wrap of the sample. -/
def sampleAad : List UInt8 := wrapAad (List.replicate 32 0) zeroIdentity baseAgreementKey

/-- The sample message has one recipient. -/
theorem sampleCall_apart (L : Library Unit) (S : Suite Unit) (R : Receiver Unit) (frames : Nat) (body : Text) :
    (sampleCall body).WrapsApart L S R (fun _ => false) frames := by
  intro header_bytes _ i j entry entry' own other shared shared' hi hj hown hother hshared hshared' _ hne
  obtain ⟨rfl, rfl⟩ : i = 0 ∧ j = 0 := by
    cases i <;> cases j <;> simp_all [sampleCall]
  rw [Option.some.inj (hi.symm.trans hj)] at hown
  rw [Except.ok.inj (hown.symm.trans hother)] at hshared
  exact absurd (congrArg (wrapKey S header_bytes) (Option.some.inj (hshared.symm.trans hshared'))) hne

theorem sampleCall_fits : (sampleCall (text "hi")).sealedSize unsignedLibrary zeroSuite ≤ MAX_ENVELOPE_BYTES := by
  decide +kernel

/-- The sample message has no tuples. -/
theorem sampleCall_listed (body : Text) : (Value.dict (sampleCall body).header).listed = .dict (sampleCall body).header ∧
    (Value.dict (sampleCall body).payload).listed = .dict (sampleCall body).payload :=
  ⟨rfl, rfl⟩

theorem signingLibrary_documented (sign : Unit → ByteArray → List UInt8) (verify : List UInt8 → List UInt8 → ByteArray → Bool) :
    (signingLibrary sign verify).Documented := ⟨fun _ => rfl, fun _ => rfl⟩

theorem signingLibrary_lawful {sign : Unit → ByteArray → List UInt8} {verify : List UInt8 → List UInt8 → ByteArray → Bool}
    (hsign : ∀ k data, (sign k data).length = 64) (hverify : ∀ pub data, verify pub (sign () data) data = true) :
    (signingLibrary sign verify).Lawful where
  b58decode_b58encode := unsignedLibrary_lawful.b58decode_b58encode
  b58decode_scalars := unsignedLibrary_lawful.b58decode_scalars
  length_public_bytes_raw _ := rfl
  length_sign := hsign
  verify_sign _ data := hverify _ data

theorem exists_sample {sign : Unit → ByteArray → List UInt8} {verify : List UInt8 → List UInt8 → ByteArray → Bool}
    (hL : (signingLibrary sign verify).Lawful) :
    ∃ (m : Made (signingLibrary sign verify) (markedSuite sampleAad) (fun _ => false) 1000 (sampleCall (text "hi")))
      (sealed_bytes : ByteArray),
      assemble (signingLibrary sign verify) (markedSuite sampleAad) (fun _ => false) 1000 (sampleCall (text "hi")) =
        .ok m.envelope ∧
      restrictedJcs (fun _ => false) 999 (.dict m.envelope) = .ok sealed_bytes ∧ sealed_bytes.size ≤ MAX_ENVELOPE_BYTES := by
  obtain ⟨envelope, henvelope⟩ := sampleCall_assemble_with sign verify
    (fun _ _ data aad => data ++ List.replicate 16 (if aad = sampleAad then 1 else 0)) (by simp) (isSome_scalars_text "hi")
    (by decide)
  obtain ⟨m, hm⟩ := exists_made henvelope
  obtain ⟨sealed_bytes, hbytes, hsize⟩ := size_assemble hL henvelope
  rw [hm] at henvelope hbytes
  refine ⟨m, sealed_bytes, henvelope, hbytes, ?_⟩
  rw [hsize]
  exact sampleCall_fits

/-- The bytes of the sample message are unsealed. -/
theorem unseal_sealed_sample : ∃ envelope data header payload,
    sealEnvelope unsignedLibrary (markedSuite sampleAad) (fun _ => false) 1000 (fun _ => none) (sampleCall (text "hi")) =
      .ok envelope ∧
    restrictedJcs (fun _ => false) 999 envelope = .ok data ∧
    unsealEnvelope unsignedLibrary (markedSuite sampleAad) (fun _ => false) (markedReceiver sampleAad) (.raw data) ()
      zeroIdentity = .ok (header, payload) ∧
    header.Same (.dict ((sampleCall (text "hi")).sealedHeader unsignedLibrary (markedSuite sampleAad))) ∧
    payload.Same (.dict (sampleCall (text "hi")).payload) := by
  obtain ⟨m, sealed_bytes, hassemble, hbytes, hsize⟩ := exists_sample unsignedLibrary_lawful
  have hseal : sealEnvelope unsignedLibrary (markedSuite sampleAad) (fun _ => false) 1000 (fun _ => none)
      (sampleCall (text "hi")) = .ok (.dict m.envelope) := by
    refine bind_eq_ok_iff.mpr ⟨_, hassemble, bind_eq_ok_iff.mpr ⟨_, canonicalOrRaise_eq_ok_iff.mpr hbytes, ?_⟩⟩
    exact if_neg (not_lt.mpr hsize)
  obtain ⟨hheader, hpayload⟩ := sampleCall_listed (text "hi")
  obtain ⟨header, payload, hunseal, hsameHeader, hsamePayload⟩ := (unseal_sealed unsignedLibrary_lawful unsignedLibrary_documented
    (markedReceiver_lawful sampleAad) (sampleCall (text "hi")) (.dict m.envelope) hseal
    (sampleCall_apart unsignedLibrary (markedSuite sampleAad) (markedReceiver sampleAad) 1000 (text "hi")) hheader (by decide)
    (by decide) hpayload (by decide) (text "message.created") rfl _ List.mem_cons_self zeroIdentity rfl () rfl
    (.raw sealed_bytes) (.inr ⟨999, sealed_bytes, hbytes, rfl⟩)).1 rfl
  exact ⟨_, sealed_bytes, header, payload, hseal, hbytes, hunseal, hsameHeader, hsamePayload⟩

/-- The signature that shows whether the data are these. -/
def markedLibrary (data : ByteArray) : Library Unit :=
  signingLibrary (fun _ data' => List.replicate 64 (if data' = data then 1 else 0))
    (fun _ signature data' => signature = List.replicate 64 (if data' = data then 1 else 0))

theorem markedLibrary_lawful (data : ByteArray) : (markedLibrary data).Lawful :=
  signingLibrary_lawful (fun _ _ => List.length_replicate ..) (fun _ _ => decide_eq_true rfl)

theorem unforged_marked (data : ByteArray) : Unforged (markedLibrary data) () data := by
  intro pub data' h
  have htag : List.replicate 64 (if data = data then 1 else 0) = List.replicate 64 (if data' = data then (1 : UInt8) else 0) :=
    of_decide_eq_true h
  simpa using htag

/-- The sample message, when its signature is of no other data, is unsealed as it is. -/
theorem unsealed_unchanged_sample : ∃ data envelope sealed_bytes env result,
    assemble (markedLibrary data) (markedSuite sampleAad) (fun _ => false) 1000 (sampleCall (text "hi")) = .ok envelope ∧
    parseEnvelopeInput (fun _ => false) (markedReceiver sampleAad) (.raw sealed_bytes) = .ok env ∧
    unsealEnvelope (markedLibrary data) (markedSuite sampleAad) (fun _ => false) (markedReceiver sampleAad) (.raw sealed_bytes)
      () zeroIdentity = .ok result ∧
    ∀ k room, (getItem env k).map (restrictedJcs (fun _ => false) room) =
      (getItem envelope k).map (restrictedJcs (fun _ => false) room) := by
  -- The data that are signed do not depend on the signature.
  obtain ⟨m₀, _, _, _, _⟩ := exists_sample unsignedLibrary_lawful
  have hL := markedLibrary_lawful m₀.data
  obtain ⟨m, sealed_bytes, hassemble, hbytes, hsize⟩ := exists_sample hL
  have hchecked : m₀.checked = m.checked := Except.ok.inj (m₀.checked_eq.symm.trans m.checked_eq)
  have hpayloadBytes : m₀.payload_bytes = m.payload_bytes := Except.ok.inj (m₀.payload_eq.symm.trans m.payload_eq)
  have hheaderBytes : m₀.header_bytes = m.header_bytes := Except.ok.inj (m₀.header_eq.symm.trans m.header_eq)
  have hwraps : m₀.wraps = m.wraps := by
    have h := m₀.wraps_eq
    rw [hchecked, hheaderBytes, m.wraps_eq] at h
    exact (Except.ok.inj h).symm
  have hdata : m.data = m₀.data := by
    have h := m₀.data_eq
    rw [hwraps, hpayloadBytes, hheaderBytes] at h
    exact Except.ok.inj (m.data_eq.symm.trans h)
  obtain ⟨hheader, hpayload⟩ := sampleCall_listed (text "hi")
  have hdepth : (Value.dict (sampleCall (text "hi")).header).depth + 2 ≤ (markedReceiver sampleAad).limit := by decide
  have hframes : (Value.dict (sampleCall (text "hi")).header).depth + 6 < (markedReceiver sampleAad).frames := by decide
  have hinput : Carries (fun _ => false) (.dict m.envelope) (.raw sealed_bytes) := .inr ⟨999, sealed_bytes, hbytes, rfl⟩
  have hD := signingLibrary_documented (fun _ data' => List.replicate 64 (if data' = m₀.data then 1 else 0))
    (fun _ signature data' => signature = List.replicate 64 (if data' = m₀.data then 1 else 0))
  obtain ⟨env, hparse, _, hsame⟩ := parseEnvelopeInput_of_carries (R := markedReceiver sampleAad) hL hD m hheader hdepth hframes
    hbytes hsize hinput
  obtain ⟨header, _, hitem, hunseal⟩ := unsealEnvelope_made hL hD (markedReceiver_lawful sampleAad) m rfl
    (sampleCall_apart _ _ _ 1000 (text "hi")) hheader hdepth hframes hbytes hsize hinput (text "message.created") rfl
    List.mem_cons_self zeroIdentity rfl () rfl
  obtain ⟨payload, hread, _⟩ := (readPayload_made (markedReceiver_lawful sampleAad) m hpayload (by decide) hitem).1 rfl
  rw [hread] at hunseal
  have hsigned : getItem m.envelope (text "signature") =
      some (.str (b64urlEncode ((markedLibrary m₀.data).sign () m.data))) := rfl
  have hsignature : getItem env (text "signature") = getItem m.envelope (text "signature") := by
    obtain ⟨v, hv, hsameSignature⟩ := getItem_of_same (inProfile_dict_iff.mp (inProfile_made hL hD m hheader)).2.1 hsame hsigned
    rw [hv, hsigned, same_str hsameSignature]
  refine ⟨m₀.data, m.envelope, sealed_bytes, env, (header, payload), hassemble, hparse, hunseal, ?_⟩
  refine unsealed_unchanged (sampleCall (text "hi")) m.envelope hassemble ?_ (.raw sealed_bytes) env hparse hsignature ()
    zeroIdentity (header, payload) hunseal
  intro data hjcs
  have hmade : restrictedJcs (fun _ => false) 999 (.dict (popItem m.envelope (text "signature"))) = .ok m.data := m.data_eq
  rw [← Except.ok.inj (hmade.symm.trans hjcs), hdata]
  exact unforged_marked m₀.data

/-- The wrap of the sample message is opened for its own header and recipient. -/
theorem wrap_not_moved_sample : ∃ (m : Made unsignedLibrary (markedSuite sampleAad) (fun _ => false) 1000 (sampleCall (text "hi")))
    (w : Wrap), w ∈ m.wraps ∧
    openWrap (F := Unit) unsignedLibrary (markedReceiver sampleAad) (List.replicate 32 0)
      ((markedSuite sampleAad).sha256 m.header_bytes) basePoint zeroIdentity w.toValue =
        .ok (.ok (sampleCall (text "hi")).draws.cek) ∧
    w.recipient = zeroIdentity := by
  obtain ⟨m⟩ : Nonempty (Made unsignedLibrary (markedSuite sampleAad) (fun _ => false) 1000 (sampleCall (text "hi"))) :=
    ⟨(exists_sample unsignedLibrary_lawful).choose⟩
  obtain ⟨own, w, hchecked, hwrap, hw⟩ := wrap_of_entry m (i := 0) rfl
  obtain ⟨_, hkey, _⟩ := checkRecipientEntry_spec hchecked
  have hown : own.recipient = zeroIdentity :=
    (Value.str.inj (Option.some.inj (checkRecipientEntry_eq_ok hchecked).1)).symm
  obtain ⟨shared, _, _, hopen⟩ := openWrap_made (R := markedReceiver sampleAad) (List.replicate 32 0) basePoint
    (same_refl w.toValue) hwrap hkey
  have hopened : openWrap (F := Unit) unsignedLibrary (markedReceiver sampleAad) (List.replicate 32 0)
      ((markedSuite sampleAad).sha256 m.header_bytes) basePoint zeroIdentity w.toValue =
        .ok (.ok (sampleCall (text "hi")).draws.cek) := by
    have hread := (markedReceiver_lawful sampleAad).decrypt_encrypt (List.replicate 32 0)
      ((sampleCall (text "hi")).draws.wrap_nonce 0) (sampleCall (text "hi")).draws.cek
      (wrapAad ((markedSuite sampleAad).sha256 m.header_bytes) own.recipient own.agreement_key)
    have hderive : (markedSuite sampleAad).derive ((markedSuite sampleAad).sha256 m.header_bytes) MSG_WRAP_INFO shared =
        List.replicate 32 0 := rfl
    rw [← hown, hopen, hderive, hread]
  obtain ⟨_, hagreement, hnonce, hwrapped⟩ := item_wrap (same_refl (w.toValue (F := Unit)))
  have hwrapName : w.recipient = zeroIdentity := by
    obtain ⟨_, _, _, heq⟩ := wrapEntry_spec hwrap
    rw [heq]
    exact hown
  obtain ⟨_, hname, _, _⟩ := wrap_not_moved unsignedLibrary_lawful unsignedLibrary_documented (markedReceiver_lawful sampleAad)
    (fun _ => rfl) (sampleCall (text "hi")) m w hw w.toValue hnonce hwrapped zeroIdentity isSome_scalars_sample.1
    (List.replicate 32 0) basePoint _ m.header_bytes
    (fun _ _ agreement_key _ _ hread hne => by
      -- It is read in its own place.
      rw [hagreement] at hread
      rw [← Value.str.inj (Except.ok.inj hread), hwrapName] at hne
      exact absurd rfl hne) hopened
  exact ⟨m, w, hw, hopened, hname.symm⟩

end MuseAgentSocial.Seal
