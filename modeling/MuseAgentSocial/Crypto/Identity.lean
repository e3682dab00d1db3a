import MuseAgentSocial.Canonical.RoundTrip
import MuseAgentSocial.Lib.Base58
import MuseAgentSocial.Lib.Base64
import MuseAgentSocial.Policy.Timestamps

/-!
# Identity strings

A model of the string forms of `crypto/identity.py`.

* `Library` holds the third-party code: base58 and Ed25519.  `Library.Lawful` says what
  this code relies on.
* `parseIdentityId` and `parseAgreementKey` read a multibase key of any object.
* `b64urlEncode` and `b64urlDecode` are the base64 of cards and envelopes.
* `Exn` is an exception that leaves one of these functions, with its message.
-/

namespace MuseAgentSocial.Identity

open Json Canonical
open Policy (text)

/-! ## Exceptions -/

/-- A piece of the text of a message. -/
inductive Part (F : Type) where
  | lit (s : String)
  /-- `{value!r}` -/
  | repr (v : Value F)
  | str (s : Text)
  | num (n : Nat)

/-- The text of a message. -/
abbrev Message (F : Type) := List (Part F)

/-- An exception. -/
inductive Exn (F : Type) where
  | value_error (message : Message F)
  | recursion_error
  | overflow_error
  | canonicalization (e : CanonicalizationError)

/-! ## Third-party code -/

/-- The functions of `base58` and of the Ed25519 keys, for a type of private keys. -/
structure Library (PrivateKey : Type) where
  /-- `base58.b58encode(..).decode("ascii")` -/
  b58encode : List UInt8 → List Char
  /-- `base58.b58decode`; `none` is any exception. -/
  b58decode : Text → Option (List UInt8)
  /-- `public_key().public_bytes_raw()` -/
  public_bytes_raw : PrivateKey → List UInt8
  sign : PrivateKey → ByteArray → List UInt8
  /-- `from_public_bytes(key).verify(signature, data)` returns, for a key, a signature and
  data. -/
  verify : List UInt8 → List UInt8 → ByteArray → Bool

/-- The text of ASCII characters. -/
def chars (cs : List Char) : Text := cs.map .scalar

/-- What this code relies on. -/
structure Library.Lawful {PrivateKey : Type} (L : Library PrivateKey) : Prop where
  b58decode_b58encode : ∀ bytes, L.b58decode (chars (L.b58encode bytes)) = some bytes
  /-- A text that is decoded has no surrogates: it is ASCII, but for whitespace at its end. -/
  b58decode_scalars : ∀ s bytes, L.b58decode s = some bytes → ∃ cs : List Char, s = chars cs
  length_public_bytes_raw : ∀ k, (L.public_bytes_raw k).length = 32
  length_sign : ∀ k m, (L.sign k m).length = 64
  verify_sign : ∀ k m, L.verify (L.public_bytes_raw k) (L.sign k m) m = true

/-! ## Multibase keys -/

/-- `_MULTICODEC_ED25519` -/
def MULTICODEC_ED25519 : List UInt8 := [0xED, 0x01]

/-- `_MULTICODEC_X25519` -/
def MULTICODEC_X25519 : List UInt8 := [0xEC, 0x01]

/-- `_RAW_PUBKEY_LEN` -/
def RAW_PUBKEY_LEN : Nat := 32

/-- `_IDENTITY_ID_PREFIX` -/
def IDENTITY_ID_PREFIX : Text := text "did:key:z"

/-- `_AGREEMENT_KEY_PREFIX` -/
def AGREEMENT_KEY_PREFIX : Text := text "z"

section multibase

variable {F PrivateKey : Type} (L : Library PrivateKey)

/-- `_decode_multicodec` -/
def decodeMulticodec (payload : Text) (expected : List UInt8) (what : String) :
    Except (Exn F) (List UInt8) :=
  match L.b58decode payload with
  | none => .error (.value_error [.lit what, .lit ": invalid base58btc payload"])
  | some decoded =>
    if ¬expected <+: decoded then .error (.value_error [.lit what, .lit ": wrong multicodec prefix"])
    else
      let raw := decoded.drop expected.length
      if raw.length ≠ RAW_PUBKEY_LEN then
        .error (.value_error [.lit what, .lit ": public key must be ", .num RAW_PUBKEY_LEN, .lit " bytes, got ",
          .num raw.length])
      else .ok raw

/-- `parse_identity_id` -/
def parseIdentityId : Value F → Except (Exn F) (List UInt8)
  | .str identity_id =>
    if ¬IDENTITY_ID_PREFIX <+: identity_id then
      .error (.value_error [.lit "identity_id must start with ", .repr (.str IDENTITY_ID_PREFIX)])
    else decodeMulticodec L (identity_id.drop IDENTITY_ID_PREFIX.length) MULTICODEC_ED25519 "identity_id"
  | _ => .error (.value_error [.lit "identity_id must be a string"])

/-- `parse_agreement_key` -/
def parseAgreementKey : Value F → Except (Exn F) (List UInt8)
  | .str agreement_key =>
    if ¬AGREEMENT_KEY_PREFIX <+: agreement_key ∨ agreement_key.length < 2 then
      .error (.value_error [.lit "agreement key must start with 'z' (multibase base58btc)"])
    else decodeMulticodec L (agreement_key.drop AGREEMENT_KEY_PREFIX.length) MULTICODEC_X25519 "agreement key"
  | _ => .error (.value_error [.lit "agreement key must be a string"])

/-- `identity_id_from_pubkey` -/
def identityIdFromPubkey (ed25519_public_bytes : List UInt8) : Except (Exn F) Text :=
  if ed25519_public_bytes.length ≠ RAW_PUBKEY_LEN then
    .error (.value_error [.lit "Ed25519 public key must be ", .num RAW_PUBKEY_LEN, .lit " bytes, got ",
      .num ed25519_public_bytes.length])
  else .ok (IDENTITY_ID_PREFIX ++ chars (L.b58encode (MULTICODEC_ED25519 ++ ed25519_public_bytes)))

/-- `agreement_key_multibase_from_pubkey` -/
def agreementKeyMultibaseFromPubkey (x25519_public_bytes : List UInt8) : Except (Exn F) Text :=
  if x25519_public_bytes.length ≠ RAW_PUBKEY_LEN then
    .error (.value_error [.lit "X25519 public key must be ", .num RAW_PUBKEY_LEN, .lit " bytes, got ",
      .num x25519_public_bytes.length])
  else .ok (AGREEMENT_KEY_PREFIX ++ chars (L.b58encode (MULTICODEC_X25519 ++ x25519_public_bytes)))

end multibase

/-! ## Base64 -/

/-- `str.translate` of `urlsafe_b64encode`. -/
def toUrl (c : Char) : Char := if c = '+' then '-' else if c = '/' then '_' else c

/-- `str.translate` of `urlsafe_b64decode`. -/
def fromUrl (c : Char) : Char := if c = '-' then '+' else if c = '_' then '/' else c

/-- `b64url_encode` -/
def b64urlEncode (raw : List UInt8) : Text := chars (((Base64.b2a raw).map toUrl).rdropWhile (· == '='))

/-- `s.encode("ascii")`; `none` is a `UnicodeEncodeError`. -/
def encodeAscii (s : Text) : Option (List Char) := if isAscii s then scalars s else none

/-- `b64url_decode` -/
def b64urlDecode {F : Type} : Value F → Except (Exn F) (List UInt8)
  | .str s =>
    -- `-len(text) % 4`
    let padded := s ++ List.replicate ((4 - s.length % 4) % 4) (.scalar '=')
    match (encodeAscii padded).bind (fun cs => Base64.a2b false (cs.map fromUrl)) with
    | some raw => .ok raw
    | none => .error (.value_error [.lit "invalid base64url"])
  | _ => .error (.value_error [.lit "base64url input must be a string"])

/-! ## What is written is read back -/

section multibase

variable {F PrivateKey : Type} {L : Library PrivateKey}

theorem decodeMulticodec_b58encode (hL : L.Lawful) {expected raw : List UInt8}
    (hraw : raw.length = RAW_PUBKEY_LEN) (what : String) :
    decodeMulticodec (F := F) L (chars (L.b58encode (expected ++ raw))) expected what = .ok raw := by
  unfold decodeMulticodec
  rw [hL.b58decode_b58encode]
  simp [hraw]

/-- The identity of a key is read back. -/
theorem parseIdentityId_fromPubkey (hL : L.Lawful) {raw : List UInt8} {s : Text}
    (h : identityIdFromPubkey (F := F) L raw = .ok s) : parseIdentityId (F := F) L (.str s) = .ok raw := by
  unfold identityIdFromPubkey at h
  split_ifs at h with hraw
  obtain rfl := Except.ok.inj h
  rw [parseIdentityId, if_neg (by simp), List.drop_left]
  exact decodeMulticodec_b58encode hL (not_not.mp hraw) _

theorem decodeMulticodec_scalars (hL : L.Lawful) {payload : Text} {expected raw : List UInt8} {what : String}
    (h : decodeMulticodec (F := F) L payload expected what = .ok raw) : ∃ cs, payload = chars cs := by
  unfold decodeMulticodec at h
  cases hd : L.b58decode payload with
  | none => simp [hd] at h
  | some decoded => exact hL.b58decode_scalars payload decoded hd

theorem chars_append (cs ds : List Char) : chars cs ++ chars ds = chars (cs ++ ds) := List.map_append.symm

theorem text_eq_chars (s : String) : text s = chars s.toList := rfl

/-- A string behind a prefix without surrogates. -/
theorem scalars_of_prefix {p s : Text} (hp : ∃ cs, p = chars cs) (h : p <+: s) (hs : ∃ cs, s.drop p.length = chars cs) :
    ∃ cs, s = chars cs := by
  obtain ⟨t, rfl⟩ := h
  rw [List.drop_left] at hs
  obtain ⟨cs, rfl⟩ := hp
  obtain ⟨ds, rfl⟩ := hs
  exact ⟨cs ++ ds, chars_append cs ds⟩

theorem parseIdentityId_scalars (hL : L.Lawful) {v : Value F} {raw : List UInt8} (h : parseIdentityId L v = .ok raw) :
    ∃ cs, v = .str (chars cs) := by
  cases v with
  | str s =>
    rw [parseIdentityId, ite_not] at h
    split_ifs at h with hprefix
    obtain ⟨cs, hcs⟩ := scalars_of_prefix ⟨_, text_eq_chars _⟩ hprefix (decodeMulticodec_scalars hL h)
    exact ⟨cs, by rw [hcs]⟩
  | _ => simp [parseIdentityId] at h

theorem parseAgreementKey_scalars (hL : L.Lawful) {v : Value F} {raw : List UInt8}
    (h : parseAgreementKey L v = .ok raw) : ∃ cs, v = .str (chars cs) := by
  cases v with
  | str s =>
    rw [parseAgreementKey] at h
    split_ifs at h with hprefix
    rw [not_or, not_not] at hprefix
    obtain ⟨cs, hcs⟩ := scalars_of_prefix ⟨_, text_eq_chars _⟩ hprefix.1 (decodeMulticodec_scalars hL h)
    exact ⟨cs, by rw [hcs]⟩
  | _ => simp [parseAgreementKey] at h

end multibase

section base64

theorem isAscii_chars {cs : List Char} : isAscii (chars cs) = true ↔ ∀ c ∈ cs, c.toNat < 0x80 := by
  rw [isAscii, chars, List.all_map, List.all_eq_true]
  exact forall₂_congr (fun c _ => decide_eq_true_iff)

theorem encodeAscii_chars {cs : List Char} (h : ∀ c ∈ cs, c.toNat < 0x80) : encodeAscii (chars cs) = some cs := by
  rw [encodeAscii, if_pos (isAscii_chars.mpr h)]
  exact scalars_eq_some_iff.mpr rfl

theorem url_digit {n : Nat} (h : n < 64) :
    fromUrl (toUrl (Base64.digit n)) = Base64.digit n ∧ toUrl (Base64.digit n) ≠ '=' ∧
      (toUrl (Base64.digit n)).toNat < 0x80 := by
  have hall : ∀ n < 64, fromUrl (toUrl (Base64.digit n)) = Base64.digit n ∧ toUrl (Base64.digit n) ≠ '=' ∧
      (toUrl (Base64.digit n)).toNat < 0x80 := by decide
  exact hall n h

/-- The digits that stay when the padding is dropped. -/
theorem b64urlEncode_eq {raw : List UInt8} {ns : List Nat} {k : Nat} (hns : ∀ n ∈ ns, n < 64)
    (hraw : Base64.b2a raw = ns.map Base64.digit ++ List.replicate k '=') :
    b64urlEncode raw = chars (ns.map (fun n => toUrl (Base64.digit n))) := by
  have hpad : (List.replicate k '=').map toUrl = List.replicate k '=' := by
    rw [List.map_replicate]
    rfl
  have hdigits : (ns.map (fun n => toUrl (Base64.digit n))).rdropWhile (· == '=') =
      ns.map (fun n => toUrl (Base64.digit n)) := by
    rw [List.rdropWhile_eq_self_iff]
    intro hne
    obtain ⟨n, hn, heq⟩ := List.mem_map.mp (List.getLast_mem hne)
    rw [← heq, beq_iff_eq]
    exact (url_digit (hns n hn)).2.1
  rw [b64urlEncode, hraw, List.map_append, hpad, List.map_map]
  congr 1
  rw [← hdigits]
  unfold List.rdropWhile
  rw [List.reverse_append, List.reverse_replicate, List.dropWhile_append_of_pos]
  · rfl
  · intro c hc
    simp [List.eq_of_mem_replicate hc]

theorem b64urlDecode_b64urlEncode {F : Type} (raw : List UInt8) :
    b64urlDecode (F := F) (.str (b64urlEncode raw)) = .ok raw := by
  obtain ⟨ns, k, hns, -, -, hk, hlen, hraw⟩ := Base64.b2a_eq raw
  have hpad : (4 - ns.length % 4) % 4 = k := by omega
  have hpadded : b64urlEncode raw ++ List.replicate k (.scalar '=') =
      chars (ns.map (fun n => toUrl (Base64.digit n)) ++ List.replicate k '=') := by
    rw [b64urlEncode_eq hns hraw, chars, chars, List.map_append, List.map_replicate]
  have hascii : ∀ c ∈ ns.map (fun n => toUrl (Base64.digit n)) ++ List.replicate k '=', c.toNat < 0x80 := by
    intro c hc
    rcases List.mem_append.mp hc with hdigit | heq
    · obtain ⟨n, hn, rfl⟩ := List.mem_map.mp hdigit
      exact (url_digit (hns n hn)).2.2
    · rw [List.eq_of_mem_replicate heq]
      decide
  have hback : (ns.map (fun n => toUrl (Base64.digit n)) ++ List.replicate k '=').map fromUrl = Base64.b2a raw := by
    rw [hraw, List.map_append, List.map_map, List.map_replicate]
    congr 1
    exact List.map_congr_left (fun n hn => (url_digit (hns n hn)).1)
  rw [b64urlDecode, show (b64urlEncode raw).length = ns.length by simp [b64urlEncode_eq hns hraw, chars], hpad, hpadded,
    encodeAscii_chars hascii, Option.bind_some, hback, Base64.a2b_b2a]

theorem b64urlDecode_scalars {F : Type} {v : Value F} {raw : List UInt8} (h : b64urlDecode v = .ok raw) :
    ∃ cs, v = .str (chars cs) := by
  cases v with
  | str s =>
    rw [b64urlDecode] at h
    by_cases hascii : isAscii (s ++ List.replicate ((4 - s.length % 4) % 4) (.scalar '=')) = true
    · rw [isAscii, List.all_append, Bool.and_eq_true] at hascii
      obtain ⟨cs, hcs⟩ := scalars_of_isAscii hascii.1
      exact ⟨cs, by rw [hcs]; rfl⟩
    · simp [encodeAscii, hascii] at h
  | _ => simp [b64urlDecode] at h

end base64

end MuseAgentSocial.Identity
