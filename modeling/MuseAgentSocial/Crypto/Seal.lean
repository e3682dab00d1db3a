import MuseAgentSocial.Canonical.Frames
import MuseAgentSocial.Canonical.Size
import MuseAgentSocial.Crypto.Spelling
import MuseAgentSocial.Policy.Document

/-!
# The size of sealed envelopes

A model of `seal_envelope` of `crypto/sealing.py` on bytes, with the primitives of
`cryptography` and the schema validator as parameters.

* `assemble` is the function up to the signature, and `sealEnvelope` the whole of it.
* `Call.framing` is what an envelope takes besides its ciphertext.
* `size_assemble` is the size of an envelope, and `seal_fits_iff` says for which payloads
  the sealing does not fail for size.
-/

namespace MuseAgentSocial.Seal

open Json Canonical Identity
open Policy (text getItem setItem)

/-! ## The function -/

/-- `MAX_PAYLOAD_BYTES` -/
def MAX_PAYLOAD_BYTES : Nat := 240 * 1024

/-- `MAX_ENVELOPE_BYTES` -/
def MAX_ENVELOPE_BYTES : Nat := 262144

/-- `CEK_BYTES` -/
def CEK_BYTES : Nat := 32

/-- `NONCE_BYTES` -/
def NONCE_BYTES : Nat := 12

/-- `_MSG_WRAP_INFO` -/
def MSG_WRAP_INFO : List UInt8 := "muse-agent-social/v1/msg-wrap".toUTF8.data.toList

/-- The codes of `SealingError` in `seal_envelope`, for arguments of the types that it asks for. -/
inductive Code where
  | no_recipients | too_many_recipients | bad_sender | sender_key_mismatch | bad_recipient | key_mismatch
  | not_canonical | payload_too_large | low_order_key | schema_invalid | envelope_too_large
  deriving DecidableEq, Repr

/-- The `detail` of an error. -/
inductive Detail where
  | empty
  | missing (key : String)
  | canonical (code : Canonical.Code)
  | schema (code : String)
  deriving DecidableEq, Repr

/-- `SealingError` -/
structure SealingError where
  code : Code
  field_path : Text := []
  detail : Detail := .empty
  deriving DecidableEq, Repr

/-- What leaves `seal_envelope`: its own error, or the `RecursionError` of `restricted_jcs`. -/
inductive SealRaised where
  | sealing (e : SealingError)
  | recursion_error
  deriving DecidableEq, Repr

/-- The primitives of `cryptography`, for a type of X25519 keys. -/
structure Suite (X : Type) where
  /-- `public_key().public_bytes_raw()` -/
  public_bytes_raw : X → List UInt8
  /-- `exchange`; `none` is a `ValueError`. -/
  exchange : X → List UInt8 → Option (List UInt8)
  /-- `hashlib.sha256(data).digest()` -/
  sha256 : ByteArray → List UInt8
  /-- `HKDF(SHA256, 32, salt, info).derive(key_material)` -/
  derive : (salt info key_material : List UInt8) → List UInt8
  /-- `AESGCM(key).encrypt(nonce, data, associated_data)` -/
  encrypt : (key nonce data associated_data : List UInt8) → List UInt8
  length_public_bytes_raw : ∀ k, (public_bytes_raw k).length = RAW_PUBKEY_LEN
  /-- The tag of 16 bytes is appended. -/
  length_encrypt : ∀ key nonce data associated_data, (encrypt key nonce data associated_data).length = data.length + 16

/-- What is drawn for one message. -/
structure Draws (X : Type) where
  ephemeral_priv : X
  cek : List UInt8
  content_nonce : List UInt8
  /-- The nonce of the wrap for the recipient with this index. -/
  wrap_nonce : Nat → List UInt8
  length_cek : cek.length = CEK_BYTES
  length_content_nonce : content_nonce.length = NONCE_BYTES
  length_wrap_nonce : ∀ i, (wrap_nonce i).length = NONCE_BYTES

/-- An entry of the argument `recipients`; a key that it does not have is `none`. -/
structure Entry (F : Type) where
  recipient : Option (Value F)
  agreement_key : Option (Value F)
  relationship_pub : Option (List UInt8)

/-- What `_check_recipient_entry` returns. -/
structure Recipient where
  recipient : Text
  agreement_key : Text
  relationship_pub : List UInt8

/-- An entry of the envelope. -/
structure Wrap where
  recipient : Text
  agreement_key : Text
  wrap_nonce : Text
  wrapped_key : Text

/-- The arguments of a call, and what it draws. -/
structure Call (F PrivateKey X : Type) where
  header : List (Key × Value F)
  payload : List (Key × Value F)
  identity_priv : PrivateKey
  recipients : List (Entry F)
  draws : Draws X

/-- A key of a dict. -/
def key (s : String) : Key := .str (text s)

/-- `s.encode("utf-8")` of a text without surrogates. -/
def utf8Bytes (s : Text) : List UInt8 := (String.ofList ((scalars s).getD [])).toUTF8.data.toList

/-- The order of the sort of the entries. -/
def wrapLe (a b : Wrap) : Bool :=
  if a.recipient = b.recipient then keyLe a.agreement_key b.agreement_key else keyLe a.recipient b.recipient

section sealing

variable {F PrivateKey X : Type} (L : Library PrivateKey) (S : Suite X) (nonFinite : F → Bool) (frames : Nat)

/-- `_canonical_or_raise`, one call above `restricted_jcs` -/
def canonicalOrRaise (obj : Value F) : Except SealRaised ByteArray :=
  (restrictedJcs nonFinite (frames - 1) obj).mapError fun
    | .canonicalization e =>
      .sealing { code := .not_canonical, field_path := e.field_path, detail := .canonical e.code }
    | .recursion_error => .recursion_error

/-- `_check_recipient_entry` -/
def checkRecipientEntry (entry : Entry F) (index : Nat) : Except SealRaised Recipient :=
  let path := indexPath (text "recipients") index
  match entry.recipient, entry.agreement_key, entry.relationship_pub with
  | none, _, _ => .error (.sealing { code := .bad_recipient, field_path := path, detail := .missing "recipient" })
  | _, none, _ => .error (.sealing { code := .bad_recipient, field_path := path, detail := .missing "agreement_key" })
  | _, _, none => .error (.sealing { code := .bad_recipient, field_path := path, detail := .missing "relationship_pub" })
  | some recipient, some agreement_key, some relationship_pub =>
    if relationship_pub.length ≠ 32 then
      .error (.sealing { code := .bad_recipient, field_path := path ++ text ".relationship_pub" })
    else
      match recipient, parseIdentityId L recipient with
      | .str recipient, .ok _ =>
        match agreement_key, parseAgreementKey L agreement_key with
        | .str agreement_key, .ok decoded =>
          if decoded ≠ relationship_pub then .error (.sealing { code := .key_mismatch, field_path := path })
          else .ok ⟨recipient, agreement_key, relationship_pub⟩
        | _, _ => .error (.sealing { code := .bad_recipient, field_path := path ++ text ".agreement_key" })
      | _, _ => .error (.sealing { code := .bad_recipient, field_path := path ++ text ".recipient" })

/-- `parse_identity_id(protected["sender"])` -/
def senderPub (header : List (Key × Value F)) : Except SealRaised (List UInt8) :=
  match getItem header (text "sender") with
  | none => .error (.sealing { code := .bad_sender, field_path := text "protected.sender" })
  | some sender =>
    match parseIdentityId L sender with
    | .ok pub => .ok pub
    | .error _ => .error (.sealing { code := .bad_sender, field_path := text "protected.sender" })

/-- The header with the ephemeral key. -/
def Call.sealedHeader (c : Call F PrivateKey X) : List (Key × Value F) :=
  match agreementKeyMultibaseFromPubkey (F := F) L (S.public_bytes_raw c.draws.ephemeral_priv) with
  | .ok ephemeral_key => setItem c.header (text "ephemeral_key") (.str ephemeral_key)
  -- Not reached: the key has 32 bytes.
  | .error _ => c.header

/-- The wrap of the content key for one recipient. -/
def wrapEntry (draws : Draws X) (digest : List UInt8) (item : Recipient) (i : Nat) : Except SealRaised Wrap :=
  match S.exchange draws.ephemeral_priv item.relationship_pub with
  | none => .error (.sealing { code := .low_order_key })
  | some shared =>
    -- `_reject_low_order_shared`
    if shared = List.replicate 32 0 then .error (.sealing { code := .low_order_key })
    else
      let kek := S.derive digest MSG_WRAP_INFO shared
      let wrap_aad := digest ++ utf8Bytes item.recipient ++ utf8Bytes item.agreement_key
      .ok {
        recipient := item.recipient
        agreement_key := item.agreement_key
        wrap_nonce := b64urlEncode (draws.wrap_nonce i)
        wrapped_key := b64urlEncode (S.encrypt kek (draws.wrap_nonce i) draws.cek wrap_aad) }

/-- The dict of an entry. -/
def Wrap.toValue (w : Wrap) : Value F :=
  .dict [(key "recipient", .str w.recipient), (key "agreement_key", .str w.agreement_key),
    (key "wrap_nonce", .str w.wrap_nonce), (key "wrapped_key", .str w.wrapped_key)]

/-- `seal_envelope` up to the signature. -/
def assemble (c : Call F PrivateKey X) : Except SealRaised (List (Key × Value F)) :=
  if c.recipients.isEmpty then .error (.sealing { code := .no_recipients })
  else if 2 < c.recipients.length then .error (.sealing { code := .too_many_recipients })
  else
    (senderPub L c.header).bind fun sender_pub =>
    if sender_pub ≠ L.public_bytes_raw c.identity_priv then
      .error (.sealing { code := .sender_key_mismatch, field_path := text "protected.sender" })
    else
      (collect (c.recipients.mapIdx fun i entry => checkRecipientEntry L entry i)).bind fun checked =>
      (canonicalOrRaise nonFinite frames (.dict c.payload)).bind fun payload_bytes =>
      if MAX_PAYLOAD_BYTES < payload_bytes.size then .error (.sealing { code := .payload_too_large })
      else
        (canonicalOrRaise nonFinite frames (.dict (c.sealedHeader L S))).bind fun header_bytes =>
        let digest := S.sha256 header_bytes
        let ciphertext := S.encrypt c.draws.cek c.draws.content_nonce payload_bytes.data.toList digest
        (collect (checked.mapIdx fun i item => wrapEntry S c.draws digest item i)).bind fun entries =>
        let unsigned := [
          (key "protected", .dict (c.sealedHeader L S)),
          (key "recipients", .list ((entries.mergeSort wrapLe).map Wrap.toValue)),
          (key "content_nonce", .str (b64urlEncode c.draws.content_nonce)),
          (key "ciphertext", .str (b64urlEncode ciphertext))]
        (canonicalOrRaise nonFinite frames (.dict unsigned)).bind fun data =>
        .ok (unsigned ++ [(key "signature", .str (b64urlEncode (L.sign c.identity_priv data)))])

/-- `seal_envelope`.  `validate` is that of the schema of envelopes, with the path and the
code of its error. -/
def sealEnvelope (validate : Value F → Option (Text × String)) (c : Call F PrivateKey X) : Except SealRaised (Value F) :=
  (assemble L S nonFinite frames c).bind fun envelope =>
  match validate (.dict envelope) with
  | some (field_path, code) => .error (.sealing { code := .schema_invalid, field_path, detail := .schema code })
  | none =>
    (canonicalOrRaise nonFinite frames (.dict envelope)).bind fun sealed_bytes =>
    if MAX_ENVELOPE_BYTES < sealed_bytes.size then .error (.sealing { code := .envelope_too_large })
    else .ok (.dict envelope)

end sealing

/-! ## Sizes -/

/-- The length of base64 without padding. -/
def b64Length (n : Nat) : Nat := (4 * n + 2) / 3

theorem pointSize_toUrl {n : Nat} (h : n < 64) : pointSize (.scalar (toUrl (Base64.digit n))) = 1 := by
  have hall : ∀ m : Fin 64, pointSize (.scalar (toUrl (Base64.digit m))) = 1 := by decide
  exact hall ⟨n, h⟩

/-- Base64 stands in a string as it is. -/
theorem escapedSize_b64urlEncode (raw : List UInt8) : escapedSize (b64urlEncode raw) = b64Length raw.length := by
  obtain ⟨ns, k, hns, -, hcount, -, -, hraw⟩ := Base64.b2a_eq raw
  have hone : ∀ n ∈ ns, ((pointSize ∘ CodePoint.scalar) ∘ fun n => toUrl (Base64.digit n)) n = 1 :=
    fun n hn => pointSize_toUrl (hns n hn)
  rw [b64urlEncode_eq hns hraw, escapedSize, chars, List.map_map, List.map_map, List.map_congr_left hone, List.map_const',
    List.sum_replicate_nat, hcount, b64Length, Nat.mul_one]

section sizes

variable {F PrivateKey X : Type} {L : Library PrivateKey} {S : Suite X} {nonFinite : F → Bool} {frames : Nat}

theorem escapedSize_key : escapedSize (key "recipient").text = 9 ∧ escapedSize (key "agreement_key").text = 13 ∧
    escapedSize (key "wrap_nonce").text = 10 ∧ escapedSize (key "wrapped_key").text = 11 ∧
    escapedSize (key "protected").text = 9 ∧ escapedSize (key "recipients").text = 10 ∧
    escapedSize (key "content_nonce").text = 13 ∧ escapedSize (key "ciphertext").text = 10 ∧
    escapedSize (key "signature").text = 9 := by decide

/-- What a wrap takes besides its two keys. -/
def WRAP_BYTES : Nat := 148

/-- The bytes of an argument of an entry between its quotes. -/
def argumentSize (value : Option (Value F)) : Nat :=
  match value with
  | some (.str s) => escapedSize s
  | _ => 0

/-- The bytes of the entries in the envelope, with the commas. -/
def recipientsSize (recipients : List (Entry F)) : Nat :=
  (recipients.map (fun r => argumentSize r.recipient + argumentSize r.agreement_key + WRAP_BYTES)).sum +
    (recipients.length - 1)

/-- The bytes of an envelope besides those of its ciphertext. -/
def Call.framing (L : Library PrivateKey) (S : Suite X) (c : Call F PrivateKey X) : Nat :=
  (Value.dict (c.sealedHeader L S)).size + recipientsSize c.recipients + 182

/-- The bytes of the envelope of a call. -/
def Call.sealedSize (L : Library PrivateKey) (S : Suite X) (c : Call F PrivateKey X) : Nat :=
  c.framing L S + b64Length ((Value.dict c.payload).size + 16)

theorem size_wrap {draws : Draws X} {digest : List UInt8} {item : Recipient} {i : Nat} {w : Wrap}
    (h : wrapEntry S draws digest item i = .ok w) :
    (w.toValue : Value F).size = escapedSize item.recipient + escapedSize item.agreement_key + WRAP_BYTES := by
  obtain ⟨hrecipient, hagreement, hnonce, hwrapped, -⟩ := escapedSize_key
  unfold wrapEntry at h
  split at h
  · simp at h
  · dsimp only at h
    split at h
    · simp at h
    · rw [← Except.ok.inj h]
      simp only [Wrap.toValue, Value.size, Value.entriesSize, hrecipient, hagreement, hnonce, hwrapped,
        escapedSize_b64urlEncode, S.length_encrypt, draws.length_wrap_nonce, draws.length_cek, List.length_cons,
        List.length_nil]
      have hnonceLength : b64Length NONCE_BYTES = 16 := rfl
      have hwrappedLength : b64Length (CEK_BYTES + 16) = 64 := rfl
      have hbytes : WRAP_BYTES = 148 := rfl
      rw [hnonceLength, hwrappedLength, hbytes]
      omega

theorem checkRecipientEntry_eq_ok {entry : Entry F} {i : Nat} {item : Recipient} (h : checkRecipientEntry L entry i = .ok item) :
    entry.recipient = some (.str item.recipient) ∧ entry.agreement_key = some (.str item.agreement_key) := by
  obtain ⟨recipient, agreement_key, relationship_pub⟩ := entry
  unfold checkRecipientEntry at h
  split at h
  · simp at h
  · simp at h
  · simp at h
  · rename_i recipient' agreement_key' relationship_pub' hrecipient hagreement hpub
    split at h
    · simp at h
    · split at h
      · split at h
        · split at h
          · simp at h
          · obtain rfl := Except.ok.inj h
            exact ⟨hrecipient, hagreement⟩
        · simp at h
      · simp at h

/-- The wraps of the recipients, in the order of their sort, take what the arguments say. -/
theorem size_entries {recipients : List (Entry F)} {checked : List Recipient} {draws : Draws X} {digest : List UInt8}
    {wraps : List Wrap}
    (hchecked : collect (recipients.mapIdx fun i entry => checkRecipientEntry L entry i) = .ok checked)
    (hwraps : collect (checked.mapIdx fun i item => wrapEntry S draws digest item i) = .ok wraps) :
    (Value.list ((wraps.mergeSort wrapLe).map (Wrap.toValue (F := F)))).size = recipientsSize recipients + 2 := by
  have hlength : checked.length = recipients.length := by
    have h := congrArg List.length (collect_eq_ok_iff.mp hchecked)
    simpa using h.symm
  have hlength' : wraps.length = checked.length := by
    have h := congrArg List.length (collect_eq_ok_iff.mp hwraps)
    simpa using h.symm
  have hsizes : wraps.map (fun w => (w.toValue : Value F).size) =
      recipients.map (fun r => argumentSize r.recipient + argumentSize r.agreement_key + WRAP_BYTES) := by
    apply List.ext_getElem
    · simp [hlength, hlength']
    · intro i hi hi'
      rw [List.getElem_map, List.getElem_map]
      have hwrapsBound : i < wraps.length := by simpa using hi
      have hcheckedBound : i < checked.length := by omega
      have hrecipientsBound : i < recipients.length := by omega
      have hwrap : wrapEntry S draws digest checked[i] i = .ok wraps[i] := by
        have h := List.getElem_of_eq (collect_eq_ok_iff.mp hwraps) (by simpa using hcheckedBound)
        simpa using h
      have hentry : checkRecipientEntry L recipients[i] i = .ok checked[i] := by
        have h := List.getElem_of_eq (collect_eq_ok_iff.mp hchecked) (by simpa using hrecipientsBound)
        simpa using h
      obtain ⟨hrecipient, hagreement⟩ := checkRecipientEntry_eq_ok hentry
      rw [size_wrap hwrap, hrecipient, hagreement]
      rfl
  have hperm := List.mergeSort_perm wraps wrapLe
  show Value.itemsSize _ + (List.length _ - 1) + 2 = _
  rw [itemsSize_eq, List.map_map, (hperm.map _).sum_nat, List.length_map, hperm.length_eq, hlength', hlength, recipientsSize,
    ← hsizes]
  rfl

theorem canonicalOrRaise_eq_ok_iff {obj : Value F} {data : ByteArray} :
    canonicalOrRaise nonFinite frames obj = .ok data ↔ restrictedJcs nonFinite (frames - 1) obj = .ok data := by
  unfold canonicalOrRaise
  cases restrictedJcs nonFinite (frames - 1) obj <;> simp [Except.mapError]

theorem inProfile_append {es : List (Key × Value F)} {k : Key} {v : Value F} (hes : (Value.dict es).listed.InProfile)
    (hkey : k.IsAscii) (hfresh : k ∉ es.map Prod.fst) (hv : v.listed.InProfile) :
    (Value.dict (es ++ [(k, v)])).listed.InProfile := by
  have hlast : ∀ P : Key × Value F → Prop, (∀ e ∈ es, P e) → P (k, v) → ∀ e ∈ es ++ [(k, v)], P e := by
    intro P hall hone e he
    rcases List.mem_append.mp he with he | he
    · exact hall e he
    · rw [List.mem_singleton.mp he]
      exact hone
  simp only [Value.listed, Value.InProfile, listedEntries_eq, entriesInProfile_iff, List.map_map, List.forall_mem_map] at hes ⊢
  obtain ⟨hkeys, hnodup, hvalues⟩ := hes
  refine ⟨hlast _ hkeys hkey, ?_, hlast _ hvalues hv⟩
  rw [List.map_append]
  exact hnodup.append (List.nodup_singleton _) (List.disjoint_singleton.mpr hfresh)

theorem isSome_scalars_b64urlEncode (raw : List UInt8) : (scalars (b64urlEncode raw)).isSome = true := by
  rw [b64urlEncode, chars, scalars_eq_some_iff.mpr rfl]
  rfl

theorem needs_b64urlEncode (raw : List UInt8) : (Value.str (b64urlEncode raw) : Value F).needs = 2 := by
  rw [Value.needs, Value.extent, if_pos (isSome_scalars_b64urlEncode raw)]

theorem assemble_parts {c : Call F PrivateKey X} {envelope : List (Key × Value F)}
    (h : assemble L S nonFinite frames c = .ok envelope) :
    ∃ checked payload_bytes header_bytes wraps data,
      senderPub L c.header = .ok (L.public_bytes_raw c.identity_priv) ∧
      collect (c.recipients.mapIdx fun i entry => checkRecipientEntry L entry i) = .ok checked ∧
      restrictedJcs nonFinite (frames - 1) (.dict c.payload) = .ok payload_bytes ∧ payload_bytes.size ≤ MAX_PAYLOAD_BYTES ∧
      restrictedJcs nonFinite (frames - 1) (.dict (c.sealedHeader L S)) = .ok header_bytes ∧
      collect (checked.mapIdx fun i item => wrapEntry S c.draws (S.sha256 header_bytes) item i) = .ok wraps ∧
      let unsigned := [
        (key "protected", .dict (c.sealedHeader L S)),
        (key "recipients", .list ((wraps.mergeSort wrapLe).map Wrap.toValue)),
        (key "content_nonce", .str (b64urlEncode c.draws.content_nonce)),
        (key "ciphertext", .str (b64urlEncode
          (S.encrypt c.draws.cek c.draws.content_nonce payload_bytes.data.toList (S.sha256 header_bytes))))]
      restrictedJcs nonFinite (frames - 1) (.dict unsigned) = .ok data ∧
      envelope = unsigned ++ [(key "signature", .str (b64urlEncode (L.sign c.identity_priv data)))] := by
  unfold assemble at h
  split at h
  · simp at h
  · split at h
    · simp at h
    · obtain ⟨sender_pub, hsender, h⟩ := bind_eq_ok_iff.mp h
      split at h
      · simp at h
      · rename_i hpub
        rw [not_not.mp hpub] at hsender
        obtain ⟨checked, hchecked, h⟩ := bind_eq_ok_iff.mp h
        obtain ⟨payload_bytes, hpayload, h⟩ := bind_eq_ok_iff.mp h
        split at h
        · simp at h
        · rename_i hsize
          obtain ⟨header_bytes, hheader, h⟩ := bind_eq_ok_iff.mp h
          obtain ⟨wraps, hwraps, h⟩ := bind_eq_ok_iff.mp h
          obtain ⟨data, hdata, h⟩ := bind_eq_ok_iff.mp h
          exact ⟨checked, payload_bytes, header_bytes, wraps, data, hsender, hchecked,
            canonicalOrRaise_eq_ok_iff.mp hpayload, not_lt.mp hsize, canonicalOrRaise_eq_ok_iff.mp hheader, hwraps,
            canonicalOrRaise_eq_ok_iff.mp hdata, (Except.ok.inj h).symm⟩

theorem assemble_eq_ok {c : Call F PrivateKey X} {envelope : List (Key × Value F)}
    (h : assemble L S nonFinite frames c = .ok envelope) :
    ∃ checked payload_bytes digest wraps data,
      collect (c.recipients.mapIdx fun i entry => checkRecipientEntry L entry i) = .ok checked ∧
      restrictedJcs nonFinite (frames - 1) (.dict c.payload) = .ok payload_bytes ∧ payload_bytes.size ≤ MAX_PAYLOAD_BYTES ∧
      collect (checked.mapIdx fun i item => wrapEntry S c.draws digest item i) = .ok wraps ∧
      let unsigned := [
        (key "protected", .dict (c.sealedHeader L S)),
        (key "recipients", .list ((wraps.mergeSort wrapLe).map Wrap.toValue)),
        (key "content_nonce", .str (b64urlEncode c.draws.content_nonce)),
        (key "ciphertext", .str (b64urlEncode
          (S.encrypt c.draws.cek c.draws.content_nonce payload_bytes.data.toList digest)))]
      restrictedJcs nonFinite (frames - 1) (.dict unsigned) = .ok data ∧
      envelope = unsigned ++ [(key "signature", .str (b64urlEncode (L.sign c.identity_priv data)))] := by
  obtain ⟨checked, payload_bytes, header_bytes, wraps, data, _, hchecked, hpayload, hsize, _, hwraps, hdata, henvelope⟩ :=
    assemble_parts h
  exact ⟨checked, payload_bytes, S.sha256 header_bytes, wraps, data, hchecked, hpayload, hsize, hwraps, hdata, henvelope⟩

theorem size_assemble (hL : L.Lawful) {c : Call F PrivateKey X} {envelope : List (Key × Value F)}
    (h : assemble L S nonFinite frames c = .ok envelope) :
    ∃ data, restrictedJcs nonFinite (frames - 1) (.dict envelope) = .ok data ∧ data.size = c.sealedSize L S := by
  obtain ⟨checked, payload_bytes, digest, wraps, data, hchecked, hpayload, -, hwraps, hdata, henvelope⟩ := assemble_eq_ok h
  obtain ⟨hunsigned, hneeds⟩ := (restrictedJcs_ok_iff _).mp ⟨data, hdata⟩
  have hfresh : key "signature" ∉ [key "protected", key "recipients", key "content_nonce", key "ciphertext"] := by decide
  have hprofile : (Value.dict envelope).listed.InProfile := by
    rw [henvelope]
    exact inProfile_append hunsigned rfl hfresh (isSome_scalars_b64urlEncode _)
  have hroom : (Value.dict envelope).needs < frames - 1 := by
    have hpos := hneeds.trans_le' (needs_pos _)
    obtain ⟨n, hn⟩ : ∃ n, frames - 1 = n + 2 := ⟨frames - 3, by omega⟩
    rw [hn] at hneeds ⊢
    rw [Nat.lt_succ_iff, henvelope, needs_dict_le_iff (henvelope ▸ hprofile)]
    have hvalues := (needs_dict_le_iff hunsigned).mp (Nat.lt_succ_iff.mp hneeds)
    intro e he
    rcases List.mem_append.mp he with he | he
    · exact hvalues e he
    · rw [List.mem_singleton.mp he, needs_b64urlEncode, ← needs_b64urlEncode (F := F) c.draws.content_nonce]
      exact hvalues (key "content_nonce", .str (b64urlEncode c.draws.content_nonce)) (by simp)
  obtain ⟨sealed_bytes, hsealed⟩ := (restrictedJcs_ok_iff nonFinite).mpr ⟨hprofile, hroom⟩
  refine ⟨sealed_bytes, hsealed, ?_⟩
  obtain ⟨-, -, -, -, hprotected, hrecipients, hnonce, hciphertext, hsignature⟩ := escapedSize_key
  have hpayloadSize : payload_bytes.data.toList.length = (Value.dict c.payload).size := by
    rw [← size_restrictedJcs hpayload]
    exact Array.length_toList
  have hnonceLength : b64Length NONCE_BYTES = 16 := rfl
  have hsignatureLength : b64Length 64 = 86 := rfl
  rw [size_restrictedJcs hsealed, henvelope, size_dict]
  simp only [List.cons_append, List.nil_append, List.map_cons, List.map_nil, List.sum_cons, List.sum_nil, List.length_cons,
    List.length_nil, size_entries hchecked hwraps, size_str, escapedSize_b64urlEncode, S.length_encrypt, hpayloadSize,
    hL.length_sign, c.draws.length_content_nonce, hprotected, hrecipients, hnonce, hciphertext, hsignature, hnonceLength,
    hsignatureLength]
  unfold Call.sealedSize Call.framing
  omega

/-- For which calls, among those that are not refused before, the envelope stays within the
limit and the sealing does not fail for size. -/
theorem seal_fits_iff (hL : L.Lawful) (validate : Value F → Option (Text × String)) (c : Call F PrivateKey X)
    (envelope : List (Key × Value F)) (h : assemble L S nonFinite frames c = .ok envelope) :
    ((∀ room data, restrictedJcs nonFinite room (.dict envelope) = .ok data → data.size ≤ MAX_ENVELOPE_BYTES) ∧
      sealEnvelope L S nonFinite frames validate c ≠ .error (.sealing { code := .envelope_too_large })) ↔
    c.sealedSize L S ≤ MAX_ENVELOPE_BYTES := by
  obtain ⟨sealed_bytes, hsealed, hsize⟩ := size_assemble hL h
  constructor
  · intro hfits
    rw [← hsize]
    exact hfits.1 _ sealed_bytes hsealed
  · intro hle
    refine ⟨fun room data hdata => ?_, ?_⟩
    · rw [size_restrictedJcs hdata, ← size_restrictedJcs hsealed]
      rwa [hsize]
    · rw [sealEnvelope, h]
      show (match validate (.dict envelope) with
        | some (field_path, code) => _
        | none => _) ≠ _
      split
      · simp
      · rw [canonicalOrRaise_eq_ok_iff.mpr hsealed]
        show (if MAX_ENVELOPE_BYTES < sealed_bytes.size then _ else _) ≠ _
        rw [if_neg (by omega)]
        simp

end sizes

/-! ## Messages with an attachment -/

/-- The payload of a `message.created` with an attachment. -/
def attachmentPayload {F : Type} (body filename sha256 : Text) (raw : List UInt8) : List (Key × Value F) :=
  [(key "body", .str body), (key "format", .str (text "markdown-safe")),
    (key "attachment", .dict [(key "filename", .str filename), (key "size", .int raw.length),
      (key "data", .str (chars (Base64.b2a raw))), (key "sha256", .str sha256)])]

theorem escapedSize_b2a (raw : List UInt8) : escapedSize (chars (Base64.b2a raw)) = (raw.length + 2) / 3 * 4 := by
  obtain ⟨ns, k, hns, -, hcount, hk, hmod, hraw⟩ := Base64.b2a_eq raw
  have hdigit : ∀ n ∈ ns, ((pointSize ∘ CodePoint.scalar) ∘ Base64.digit) n = 1 := by
    have hall : ∀ m : Fin 64, pointSize (.scalar (Base64.digit m)) = 1 := by decide
    exact fun n hn => hall ⟨n, hns n hn⟩
  have hpad : (pointSize ∘ CodePoint.scalar) '=' = 1 := by decide
  rw [hraw, escapedSize, chars, List.map_map, List.map_append, List.sum_append, List.map_map, List.map_congr_left hdigit,
    List.map_const', List.map_replicate, hpad, List.sum_replicate_nat, List.sum_replicate_nat]
  omega

/-- A message with an attachment of 128 KiB fits while its texts have at most 18000 bytes
and what stands around the ciphertext at most 4096. -/
theorem attachment_fits {F PrivateKey X : Type} {L : Library PrivateKey} {S : Suite X} {c : Call F PrivateKey X}
    {body filename sha256 : Text} {raw : List UInt8} (hc : c.payload = attachmentPayload body filename sha256 raw)
    (hraw : raw.length ≤ 131072) (htexts : escapedSize body + escapedSize filename + escapedSize sha256 ≤ 18000)
    (hframing : c.framing L S ≤ 4096) : c.sealedSize L S ≤ MAX_ENVELOPE_BYTES := by
  have hdigits : utf8Size (intText raw.length) ≤ 6 := by
    rw [intText, if_neg (by omega), utf8Size_toDigits]
    exact (Nat.length_toDigits_le_iff (by omega) (by omega)).mpr (by simp; omega)
  have hkeys : escapedSize (key "body").text = 4 ∧ escapedSize (key "format").text = 6 ∧
      escapedSize (key "attachment").text = 10 ∧ escapedSize (key "filename").text = 8 ∧
      escapedSize (key "size").text = 4 ∧ escapedSize (key "data").text = 4 ∧ escapedSize (key "sha256").text = 6 ∧
      escapedSize (text "markdown-safe") = 13 := by decide
  obtain ⟨hbody, hformat, hattachment, hfilename, hsize, hdata, hsha, hsafe⟩ := hkeys
  have hpayload : (Value.dict c.payload).size ≤ 193200 := by
    rw [hc, attachmentPayload]
    simp only [size_dict, List.map_cons, List.map_nil, List.sum_cons, List.sum_nil, List.length_cons, List.length_nil,
      size_str, size_int, escapedSize_b2a, hbody, hformat, hattachment, hfilename, hsize, hdata, hsha, hsafe]
    omega
  rw [Call.sealedSize, b64Length, MAX_ENVELOPE_BYTES]
  omega

/-! ## A long message -/

theorem unsignedLibrary_lawful : unsignedLibrary.Lawful where
  b58decode_b58encode bytes := by
    show (scalars (chars (Base58.b58encode bytes))).bind Base58.b58decode = some bytes
    rw [chars, scalars_eq_some_iff.mpr rfl, Option.bind_some, Base58.b58decode_b58encode]
  b58decode_scalars s bytes h := by
    obtain ⟨cs, hcs, -⟩ := Option.bind_eq_some_iff.mp h
    exact ⟨cs, scalars_eq_some_iff.mp hcs⟩
  length_public_bytes_raw _ := rfl
  length_sign _ _ := rfl
  verify_sign _ _ := rfl

/-- The public key of the base point of X25519. -/
def basePoint : List UInt8 := 9 :: List.replicate 31 0

theorem length_basePoint : basePoint.length = 32 := rfl

/-- Primitives for one X25519 key, the base point, that give zeros and ones. -/
def zeroSuite : Suite Unit where
  public_bytes_raw _ := basePoint
  exchange _ _ := some (List.replicate 32 1)
  sha256 _ := List.replicate 32 0
  derive _ _ _ := List.replicate 32 0
  encrypt _ _ data _ := data ++ List.replicate 16 0
  length_public_bytes_raw _ := rfl
  length_encrypt _ _ _ _ := by simp

/-- The library with other signatures. -/
def signingLibrary (sign : Unit → ByteArray → List UInt8) (verify : List UInt8 → List UInt8 → ByteArray → Bool) : Library Unit :=
  { unsignedLibrary with
    sign := sign
    verify := verify }

/-- The primitives with another encryption. -/
def sealingSuite (encrypt : List UInt8 → List UInt8 → List UInt8 → List UInt8 → List UInt8)
    (length_encrypt : ∀ key nonce data aad, (encrypt key nonce data aad).length = data.length + 16) : Suite Unit :=
  { zeroSuite with
    encrypt := encrypt
    length_encrypt := length_encrypt }

/-- The agreement key of the base point. -/
def baseAgreementKey : Text := AGREEMENT_KEY_PREFIX ++ chars (Base58.b58encode (MULTICODEC_X25519 ++ basePoint))

/-- A message with this body to one recipient. -/
def sampleCall (body : Text) : Call Unit Unit Unit where
  header := [(key "ephemeral_key", .str []), (key "protocol", .str (text "muse-agent-social/0.2")),
    (key "event_id", .str (text "11111111-1111-4111-8111-111111111111")),
    (key "relationship_id", .str (text "22222222-2222-4222-8222-222222222222")),
    (key "conversation_id", .str (text "33333333-3333-4333-8333-333333333333")), (key "sender", .str zeroIdentity),
    (key "sender_seq", .int 1), (key "created_at", .str (text "2026-07-24T13:46:30Z")), (key "deliver_at", .none),
    (key "expires_at", .none), (key "event_type", .str (text "message.created")), (key "thread_id", .none),
    (key "reply_to", .none), (key "key_epoch", .int 1), (key "replay_nonce", .str (text "AAAAAAAAAAAAAAAAAAAAAA"))]
  payload := [(key "body", .str body), (key "format", .str (text "plain"))]
  identity_priv := ()
  recipients := [⟨some (.str zeroIdentity), some (.str baseAgreementKey), some basePoint⟩]
  draws := {
    ephemeral_priv := ()
    cek := List.replicate 32 0
    content_nonce := List.replicate 12 0
    wrap_nonce := fun _ => List.replicate 12 0
    length_cek := rfl
    length_content_nonce := rfl
    length_wrap_nonce := fun _ => rfl }

theorem isSome_scalars_chars (cs : List Char) : (scalars (chars cs)).isSome = true := by
  rw [chars, scalars_eq_some_iff.mpr rfl]
  rfl

theorem parseIdentityId_zero : parseIdentityId (F := Unit) unsignedLibrary (.str zeroIdentity) = .ok (List.replicate 32 0) :=
  parseIdentityId_fromPubkey unsignedLibrary_lawful identityIdFromPubkey_zero

theorem parseAgreementKey_base :
    parseAgreementKey (F := Unit) unsignedLibrary (.str baseAgreementKey) = .ok basePoint := by
  have hne : Base58.b58encode (MULTICODEC_X25519 ++ basePoint) ≠ [] := by
    intro hnil
    have hback := Base58.b58decode_b58encode (MULTICODEC_X25519 ++ basePoint)
    rw [hnil] at hback
    exact absurd hback (by decide)
  have hlength : ¬(¬AGREEMENT_KEY_PREFIX <+: baseAgreementKey ∨ baseAgreementKey.length < 2) := by
    have hpos := List.length_pos_iff.mpr hne
    rw [not_or, not_not, baseAgreementKey, List.length_append, chars, List.length_map]
    exact ⟨List.prefix_append _ _, by show ¬1 + _ < 2; omega⟩
  rw [parseAgreementKey, if_neg hlength, baseAgreementKey, List.drop_left]
  exact decodeMulticodec_b58encode unsignedLibrary_lawful length_basePoint _

theorem inProfile_dict {F : Type} (names : List String) {es : List (Key × Value F)} (hnames : es.map Prod.fst = names.map key)
    (hascii : ∀ s ∈ names, isAscii (text s) = true) (hnodup : (names.map key).Nodup)
    (hvalues : Value.EntriesInProfile (Value.listedEntries es)) : (Value.dict es).listed.InProfile := by
  have hkeys : (Value.listedEntries es).map Prod.fst = names.map key := by
    rw [listedEntries_eq, List.map_map, ← hnames]
    rfl
  refine ⟨fun e he => ?_, ?_, hvalues⟩
  · have hmem : e.1 ∈ names.map key := hkeys ▸ List.mem_map_of_mem he
    obtain ⟨s, hs, hkey⟩ := List.mem_map.mp hmem
    rw [← hkey]
    exact hascii s hs
  · rw [hkeys]
    exact hnodup

theorem isSome_scalars_text (s : String) : (scalars (text s)).isSome = true := isSome_scalars_chars s.toList

theorem isSome_scalars_sample : (scalars zeroIdentity).isSome = true ∧ (scalars baseAgreementKey).isSome = true := by
  have hprefix : IDENTITY_ID_PREFIX = chars "did:key:z".toList := rfl
  have hprefix' : AGREEMENT_KEY_PREFIX = chars "z".toList := rfl
  rw [zeroIdentity, baseAgreementKey, hprefix, hprefix', chars_append, chars_append]
  exact ⟨isSome_scalars_chars _, isSome_scalars_chars _⟩

theorem sampleCall_sealedHeader (body : Text) : (sampleCall body).sealedHeader unsignedLibrary zeroSuite =
    (key "ephemeral_key", .str baseAgreementKey) :: (sampleCall body).header.tail := by
  have hephemeral : agreementKeyMultibaseFromPubkey (F := Unit) unsignedLibrary
      (zeroSuite.public_bytes_raw (sampleCall body).draws.ephemeral_priv) = .ok baseAgreementKey := by
    show agreementKeyMultibaseFromPubkey (F := Unit) unsignedLibrary basePoint = _
    rw [agreementKeyMultibaseFromPubkey, if_neg (by simp [RAW_PUBKEY_LEN, length_basePoint])]
    rfl
  rw [Call.sealedHeader, hephemeral]
  rfl

theorem sampleCall_header (body : Text) :
    (Value.dict ((sampleCall body).sealedHeader unsignedLibrary zeroSuite)).listed.InProfile := by
  rw [sampleCall_sealedHeader]
  refine inProfile_dict ["ephemeral_key", "protocol", "event_id", "relationship_id", "conversation_id", "sender",
    "sender_seq", "created_at", "deliver_at", "expires_at", "event_type", "thread_id", "reply_to", "key_epoch",
    "replay_nonce"] rfl (by decide) (by decide) ?_
  simp only [sampleCall, List.tail_cons, Value.listedEntries, Value.EntriesInProfile, Value.listed, Value.InProfile,
    isSome_scalars_text, isSome_scalars_sample, SAFE_INT_MIN, SAFE_INT_MAX]
  decide

/-- What is nested a little is written. -/
theorem exists_restrictedJcs_sample {v : Value Unit} (hv : v.listed.InProfile) (hd : v.depth ≤ 3) :
    ∃ data, restrictedJcs (fun _ => false) 999 v = .ok data :=
  (restrictedJcs_ok_iff _).mpr ⟨hv, (needs_le_of_inProfile hv).trans_lt (by omega)⟩

/-- A call with any text that leaves the payload below its limit is not refused, whatever signs
and encrypts it. -/
theorem sampleCall_assemble_with (sign : Unit → ByteArray → List UInt8) (verify : List UInt8 → List UInt8 → ByteArray → Bool)
    (encrypt : List UInt8 → List UInt8 → List UInt8 → List UInt8 → List UInt8)
    (hlength : ∀ key nonce data aad, (encrypt key nonce data aad).length = data.length + 16) {body : Text}
    (hbody : (scalars body).isSome = true) (hsize : escapedSize body ≤ 240000) :
    ∃ envelope, assemble (signingLibrary sign verify) (sealingSuite encrypt hlength) (fun _ => false) 1000 (sampleCall body) =
      .ok envelope := by
  have hidentity : parseIdentityId (F := Unit) (signingLibrary sign verify) (.str zeroIdentity) = .ok (List.replicate 32 0) :=
    parseIdentityId_zero
  have hagreement : parseAgreementKey (F := Unit) (signingLibrary sign verify) (.str baseAgreementKey) =
      .ok basePoint := parseAgreementKey_base
  have hsender : senderPub (signingLibrary sign verify) (sampleCall body).header = .ok (List.replicate 32 0) := by
    have hfind : getItem (sampleCall body).header (text "sender") = some (.str zeroIdentity) := rfl
    rw [senderPub, hfind]
    simp only [hidentity]
  have hchecked : collect ((sampleCall body).recipients.mapIdx fun i entry => checkRecipientEntry (signingLibrary sign verify) entry i) =
      .ok [⟨zeroIdentity, baseAgreementKey, basePoint⟩] := by
    have hentry : checkRecipientEntry (F := Unit) (signingLibrary sign verify)
        ⟨some (.str zeroIdentity), some (.str baseAgreementKey), some basePoint⟩ 0 =
          .ok ⟨zeroIdentity, baseAgreementKey, basePoint⟩ := by
      simp only [checkRecipientEntry, hidentity, hagreement, length_basePoint, ne_eq,
        not_true_eq_false, if_false]
    exact collect_eq_ok_iff.mpr (congrArg (fun r => [r]) hentry)
  have hpayload : (Value.dict (sampleCall body).payload).listed.InProfile := by
    refine inProfile_dict ["body", "format"] rfl (by decide) (by decide) ?_
    simp only [sampleCall, Value.listedEntries, Value.EntriesInProfile, Value.listed, Value.InProfile, isSome_scalars_text,
      hbody, and_self]
  obtain ⟨header_bytes, hheader⟩ := exists_restrictedJcs_sample (sampleCall_header body)
    (by rw [sampleCall_sealedHeader]; exact Nat.le_of_ble_eq_true rfl)
  obtain ⟨payload_bytes, hpayload⟩ := exists_restrictedJcs_sample hpayload (Nat.le_of_ble_eq_true rfl)
  have hle : payload_bytes.size ≤ MAX_PAYLOAD_BYTES := by
    have hkeys : escapedSize (key "body").text = 4 ∧ escapedSize (key "format").text = 6 ∧
      escapedSize (text "plain") = 5 := by decide
    rw [size_restrictedJcs hpayload, MAX_PAYLOAD_BYTES]
    simp only [sampleCall, size_dict, List.map_cons, List.map_nil, List.sum_cons, List.sum_nil, List.length_cons,
      List.length_nil, size_str, hkeys]
    omega
  have hwraps : ∃ w, collect ([(⟨zeroIdentity, baseAgreementKey, basePoint⟩ : Recipient)].mapIdx fun i item =>
      wrapEntry (sealingSuite encrypt hlength) (sampleCall body).draws ((sealingSuite encrypt hlength).sha256 header_bytes) item i) = .ok [w] ∧
      (w.toValue : Value Unit).listed.InProfile := by
    refine ⟨_, rfl, inProfile_dict ["recipient", "agreement_key", "wrap_nonce", "wrapped_key"] rfl (by decide) (by decide) ?_⟩
    simp only [Value.listedEntries, Value.EntriesInProfile, Value.listed, Value.InProfile, isSome_scalars_sample,
      isSome_scalars_b64urlEncode, and_self]
  obtain ⟨w, hwraps, hw⟩ := hwraps
  let unsigned : List (Key × Value Unit) := [
    (key "protected", .dict ((sampleCall body).sealedHeader (signingLibrary sign verify) (sealingSuite encrypt hlength))),
    (key "recipients", .list (([w].mergeSort wrapLe).map Wrap.toValue)),
    (key "content_nonce", .str (b64urlEncode (sampleCall body).draws.content_nonce)),
    (key "ciphertext", .str (b64urlEncode ((sealingSuite encrypt hlength).encrypt (sampleCall body).draws.cek
      (sampleCall body).draws.content_nonce payload_bytes.data.toList ((sealingSuite encrypt hlength).sha256 header_bytes))))]
  have hunsigned : (Value.dict unsigned).listed.InProfile := by
    refine inProfile_dict ["protected", "recipients", "content_nonce", "ciphertext"] rfl (by decide) (by decide) ?_
    have hsort : [w].mergeSort wrapLe = [w] := List.mergeSort_singleton w
    simp only [unsigned, hsort]
    exact ⟨sampleCall_header body, ⟨hw, trivial⟩, isSome_scalars_b64urlEncode _, isSome_scalars_b64urlEncode _, trivial⟩
  have hprotected : (Value.dict ((sampleCall body).sealedHeader unsignedLibrary zeroSuite)).depth ≤ 1 := by
    rw [sampleCall_sealedHeader]
    exact Nat.le_of_ble_eq_true rfl
  have hentries : (Value.list (([w].mergeSort wrapLe).map (Wrap.toValue (F := Unit)))).depth ≤ 2 := by
    rw [List.mergeSort_singleton]
    exact Nat.le_of_ble_eq_true rfl
  have hdepth : (Value.dict unsigned).depth ≤ 3 := by
    refine Nat.succ_le_succ (entriesDepth_le_iff.mpr ?_)
    simp only [unsigned, List.forall_mem_cons]
    exact ⟨hprotected.trans (by decide), hentries, Nat.zero_le 2, Nat.zero_le 2, by simp⟩
  obtain ⟨data, hdata⟩ := exists_restrictedJcs_sample hunsigned hdepth
  refine ⟨unsigned ++ [(key "signature", .str (b64urlEncode ((signingLibrary sign verify).sign () data)))], ?_⟩
  have hsome : ¬(sampleCall body).recipients.isEmpty = true := Bool.false_ne_true
  have hone : ¬2 < (sampleCall body).recipients.length := by simp [sampleCall]
  have hmatch : ¬List.replicate 32 0 ≠ (signingLibrary sign verify).public_bytes_raw (sampleCall body).identity_priv := not_not.mpr rfl
  unfold assemble
  rw [if_neg hsome, if_neg hone]
  refine bind_eq_ok_iff.mpr ⟨_, hsender, ?_⟩
  rw [if_neg hmatch]
  refine bind_eq_ok_iff.mpr ⟨_, hchecked, bind_eq_ok_iff.mpr ⟨_, canonicalOrRaise_eq_ok_iff.mpr hpayload, ?_⟩⟩
  rw [if_neg (not_lt.mpr hle)]
  exact bind_eq_ok_iff.mpr ⟨_, canonicalOrRaise_eq_ok_iff.mpr hheader, bind_eq_ok_iff.mpr ⟨_, hwraps,
    bind_eq_ok_iff.mpr ⟨_, canonicalOrRaise_eq_ok_iff.mpr hdata, rfl⟩⟩⟩

/-- A call with any text that leaves the payload below its limit is not refused. -/
theorem sampleCall_assemble {body : Text} (hbody : (scalars body).isSome = true) (hsize : escapedSize body ≤ 240000) :
    ∃ envelope, assemble unsignedLibrary zeroSuite (fun _ => false) 1000 (sampleCall body) = .ok envelope :=
  sampleCall_assemble_with (fun _ _ => List.replicate 64 0) (fun _ _ _ => true) (fun _ _ data _ => data ++ List.replicate 16 0)
    zeroSuite.length_encrypt hbody hsize

theorem escapedSize_replicate (n : Nat) (p : CodePoint) : escapedSize (List.replicate n p) = n * pointSize p := by
  rw [escapedSize, List.map_replicate, List.sum_replicate_nat]

/-- A text of 200000 characters passes the check of the payload, and the envelope is too
large. -/
theorem long_message_too_large : ∃ envelope data sealed_bytes,
    assemble unsignedLibrary zeroSuite (fun _ => false) 1000 (sampleCall (List.replicate 200000 (.scalar 'x'))) = .ok envelope ∧
    restrictedJcs (fun _ => false) 999 (.dict (sampleCall (List.replicate 200000 (.scalar 'x'))).payload) = .ok data ∧
    data.size ≤ MAX_PAYLOAD_BYTES ∧
    restrictedJcs (fun _ => false) 999 (.dict envelope) = .ok sealed_bytes ∧ MAX_ENVELOPE_BYTES < sealed_bytes.size ∧
    sealEnvelope unsignedLibrary zeroSuite (fun _ => false) 1000 (fun _ => none)
      (sampleCall (List.replicate 200000 (.scalar 'x'))) = .error (.sealing { code := .envelope_too_large }) := by
  have hsize : escapedSize (List.replicate 200000 (.scalar 'x')) = 200000 := by
    have hpoint : pointSize (.scalar 'x') = 1 := by decide
    rw [escapedSize_replicate, hpoint]
  have hbody : (scalars (List.replicate 200000 (.scalar 'x'))).isSome = true := by
    rw [show List.replicate 200000 (CodePoint.scalar 'x') = chars (List.replicate 200000 'x') from List.map_replicate.symm]
    exact isSome_scalars_chars _
  generalize List.replicate 200000 (CodePoint.scalar 'x') = body at hsize hbody ⊢
  obtain ⟨envelope, henvelope⟩ := sampleCall_assemble hbody (by omega)
  obtain ⟨sealed_bytes, hsealed, hsealedSize⟩ := size_assemble unsignedLibrary_lawful henvelope
  obtain ⟨-, data, -, -, -, -, hdata, hle, -⟩ := assemble_eq_ok henvelope
  have hlarge : MAX_ENVELOPE_BYTES < sealed_bytes.size := by
    have hpayload : 200000 ≤ (Value.dict (sampleCall body).payload).size := by
      simp only [sampleCall, size_dict, List.map_cons, List.sum_cons, size_str]
      omega
    rw [hsealedSize, Call.sealedSize, MAX_ENVELOPE_BYTES, b64Length]
    omega
  refine ⟨envelope, data, sealed_bytes, henvelope, hdata, hle, hsealed, hlarge, ?_⟩
  rw [sealEnvelope]
  refine (congrArg (Except.bind · _) henvelope).trans ?_
  show (canonicalOrRaise (fun _ => false) 1000 (.dict envelope)).bind _ = _
  rw [canonicalOrRaise_eq_ok_iff.mpr hsealed]
  exact if_pos hlarge

/-- A short message fits. -/
theorem seal_fits_short : ∃ envelope,
    assemble unsignedLibrary zeroSuite (fun _ => false) 1000 (sampleCall (text "hi")) = .ok envelope ∧
    (((∀ room data, restrictedJcs (fun _ => false) room (.dict envelope) = .ok data → data.size ≤ MAX_ENVELOPE_BYTES) ∧
      sealEnvelope unsignedLibrary zeroSuite (fun _ => false) 1000 (fun _ => none) (sampleCall (text "hi")) ≠
        .error (.sealing { code := .envelope_too_large })) ↔
      (sampleCall (text "hi")).sealedSize unsignedLibrary zeroSuite ≤ MAX_ENVELOPE_BYTES) := by
  obtain ⟨envelope, henvelope⟩ := sampleCall_assemble (isSome_scalars_text "hi") (by decide)
  exact ⟨envelope, henvelope, seal_fits_iff unsignedLibrary_lawful (fun _ => none) (sampleCall (text "hi")) envelope henvelope⟩

end MuseAgentSocial.Seal
