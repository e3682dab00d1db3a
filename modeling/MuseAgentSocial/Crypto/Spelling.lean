import MuseAgentSocial.Crypto.Identity

/-!
# Spellings of keys

How many texts `crypto/identity.py` accepts for one key or one string of bytes, with base58
as its implementation has it.

* `parse_identity_id` and `parse_agreement_key` accept the written text with any whitespace
  behind it, since `b58decode` drops it, and nothing else.
* `b64url_decode` accepts every text whose digits can be read, whatever stands between them:
  `UrlCanonical` picks out the texts that are written.
* `spellings_iff` says for which texts a key has one spelling.
-/

namespace MuseAgentSocial.Identity

open Json Canonical
open Policy (text)

section library

variable {F PrivateKey : Type} {L : Library PrivateKey}

/-- The library's base58 is that of its implementation: `b58decode` of a `str` drops the
whitespace at the end and refuses what is not ASCII. -/
structure Library.Documented (L : Library PrivateKey) : Prop where
  b58encode : ∀ bytes, L.b58encode bytes = Base58.b58encode bytes
  b58decode : ∀ s, L.b58decode s = (scalars s).bind Base58.b58decode

/-- The text ends with whitespace. -/
def TrailingSpace (s : Text) : Prop := ∃ c, s.getLast? = some (.scalar c) ∧ Base58.isSpace c = true

theorem trailingSpace_chars_iff {cs : List Char} :
    TrailingSpace (chars cs) ↔ cs.rdropWhile Base58.isSpace ≠ cs := by
  rw [ne_eq, List.rdropWhile_eq_self_iff, not_forall]
  unfold TrailingSpace chars
  simp only [not_not, List.getLast?_map]
  constructor
  · intro h
    obtain ⟨c, hlast, hspace⟩ := h
    obtain ⟨d, hd, heq⟩ := Option.map_eq_some_iff.mp hlast
    obtain ⟨hne, hget⟩ := List.mem_getLast?_eq_getLast hd
    rw [← CodePoint.scalar.inj heq, hget] at hspace
    exact ⟨hne, hspace⟩
  · intro h
    obtain ⟨hne, hspace⟩ := h
    exact ⟨cs.getLast hne, by rw [List.getLast?_eq_some_getLast hne]; rfl, hspace⟩

/-- Whitespace at the end of a text behind a prefix that has none. -/
theorem trailingSpace_append_iff {p cs : List Char} (hp : p.rdropWhile Base58.isSpace = p) :
    TrailingSpace (chars p ++ chars cs) ↔ cs.rdropWhile Base58.isSpace ≠ cs := by
  cases cs with
  | nil =>
    rw [show chars p ++ chars [] = chars p from List.append_nil _, trailingSpace_chars_iff, hp]
    simp
  | cons c cs =>
    rw [← trailingSpace_chars_iff]
    unfold TrailingSpace
    rw [List.getLast?_append_of_ne_nil _ (by simp [chars])]

/-- The payload of a key that is decoded is the written one, with whitespace behind it. -/
theorem decodeMulticodec_eq_ok (hL : L.Documented) {payload : Text} {expected raw : List UInt8} {what : String}
    (h : decodeMulticodec (F := F) L payload expected what = .ok raw) :
    raw.length = RAW_PUBKEY_LEN ∧
      ∃ cs, payload = chars cs ∧ L.b58encode (expected ++ raw) = cs.rdropWhile Base58.isSpace := by
  unfold decodeMulticodec at h
  cases hd : L.b58decode payload with
  | none => simp [hd] at h
  | some decoded =>
    rw [hd] at h
    dsimp only at h
    rw [ite_not, ite_not] at h
    split_ifs at h with hprefix hlen
    obtain rfl := Except.ok.inj h
    obtain ⟨tail, rfl⟩ := hprefix
    rw [hL.b58decode] at hd
    obtain ⟨cs, hcs, hread⟩ := Option.bind_eq_some_iff.mp hd
    refine ⟨hlen, cs, scalars_eq_some_iff.mp hcs, ?_⟩
    rw [List.drop_left, hL.b58encode, Base58.b58encode_b58decode hread]

/-- What is written of a key that was read behind a prefix. -/
theorem written_eq_iff {p cs : List Char} {s : Text} (hp : p.rdropWhile Base58.isSpace = p)
    (hs : s = chars p ++ chars cs) :
    chars p ++ chars (cs.rdropWhile Base58.isSpace) = s ↔ ¬TrailingSpace s := by
  rw [hs, trailingSpace_append_iff hp, not_not, List.append_right_inj]
  exact (List.map_injective_iff.mpr (fun a b => CodePoint.scalar.inj)).eq_iff

/-- Whitespace at the end of a text is not read. -/
theorem b58decode_append_spaces (cs spaces : List Char) (hspaces : ∀ c ∈ spaces, Base58.isSpace c = true) :
    Base58.b58decode (cs ++ spaces) = Base58.b58decode cs := by
  have hdrop : (cs ++ spaces).rdropWhile Base58.isSpace = cs.rdropWhile Base58.isSpace := by
    unfold List.rdropWhile
    rw [List.reverse_append, List.dropWhile_append_of_pos]
    intro c hc
    exact hspaces c (List.mem_reverse.mp hc)
  unfold Base58.b58decode
  rw [hdrop]

theorem eq_append_drop {p s : Text} {cs : List Char} (h : p <+: s) (hcs : s.drop p.length = chars cs) :
    s = p ++ chars cs := by
  obtain ⟨t, rfl⟩ := h
  rw [← hcs, List.drop_left]

/-- An identity that is accepted is written back as it was read, unless it ends with
whitespace. -/
theorem identityId_written_iff (hL : L.Documented) {s : Text} {pub : List UInt8}
    (h : parseIdentityId (F := F) L (.str s) = .ok pub) :
    identityIdFromPubkey (F := F) L pub = .ok s ↔ ¬TrailingSpace s := by
  rw [parseIdentityId, ite_not] at h
  split_ifs at h with hprefix
  obtain ⟨hlen, cs, hcs, hwritten⟩ := decodeMulticodec_eq_ok hL h
  rw [identityIdFromPubkey, if_neg (not_not.mpr hlen), hwritten, Except.ok.injEq]
  exact written_eq_iff (p := "did:key:z".toList) (by decide) (eq_append_drop hprefix hcs)

/-- An agreement key that is accepted is written back as it was read, unless it ends with
whitespace. -/
theorem agreementKey_written_iff (hL : L.Documented) {s : Text} {pub : List UInt8}
    (h : parseAgreementKey (F := F) L (.str s) = .ok pub) :
    agreementKeyMultibaseFromPubkey (F := F) L pub = .ok s ↔ ¬TrailingSpace s := by
  rw [parseAgreementKey] at h
  split_ifs at h with hprefix
  rw [not_or, not_not] at hprefix
  obtain ⟨hlen, cs, hcs, hwritten⟩ := decodeMulticodec_eq_ok hL h
  rw [agreementKeyMultibaseFromPubkey, if_neg (not_not.mpr hlen), hwritten, Except.ok.injEq]
  exact written_eq_iff (p := ['z']) (by decide) (eq_append_drop hprefix.1 hcs)

/-- The identity of a key is accepted with any whitespace behind it. -/
theorem parseIdentityId_append_spaces (hL : L.Documented) {raw : List UInt8} {s : Text} (spaces : List Char)
    (hspaces : ∀ c ∈ spaces, Base58.isSpace c = true) (h : identityIdFromPubkey (F := F) L raw = .ok s) :
    parseIdentityId (F := F) L (.str (s ++ chars spaces)) = .ok raw := by
  unfold identityIdFromPubkey at h
  split_ifs at h with hraw
  obtain rfl := Except.ok.inj h
  have hread : L.b58decode (chars (L.b58encode (MULTICODEC_ED25519 ++ raw) ++ spaces)) =
      some (MULTICODEC_ED25519 ++ raw) := by
    rw [hL.b58decode, chars, scalars_eq_some_iff.mpr rfl, Option.bind_some, b58decode_append_spaces _ _ hspaces,
      hL.b58encode, Base58.b58decode_b58encode]
  rw [parseIdentityId, List.append_assoc, if_neg (by simp), List.drop_left, chars_append]
  unfold decodeMulticodec
  rw [hread]
  simp [not_not.mp hraw]

end library

/-! ## Base64 -/

/-- The texts that `b64url_encode` writes: digits of the URL alphabet, with zeros for the bits
that fill up the last one. -/
def UrlCanonical (s : Text) : Prop :=
  ∃ ns : List Nat, (∀ n ∈ ns, n < 64) ∧ Base64.full ns = true ∧ s = chars (ns.map (fun n => toUrl (Base64.digit n)))

theorem urlCanonical_iff {s : Text} : UrlCanonical s ↔ ∃ raw, b64urlEncode raw = s := by
  constructor
  · rintro ⟨ns, hns, hfull, rfl⟩
    obtain ⟨raw, k, hraw⟩ := Base64.exists_b2a hns hfull
    exact ⟨raw, b64urlEncode_eq hns hraw⟩
  · rintro ⟨raw, rfl⟩
    obtain ⟨ns, k, hns, hfull, -, -, -, hraw⟩ := Base64.b2a_eq raw
    exact ⟨ns, hns, hfull, b64urlEncode_eq hns hraw⟩

/-- A text that is decoded is written back as it was read exactly when it is canonical. -/
theorem b64url_written_iff {F : Type} {s : Text} {raw : List UInt8} (h : b64urlDecode (F := F) (.str s) = .ok raw) :
    b64urlEncode raw = s ↔ UrlCanonical s := by
  constructor
  · intro hs
    exact urlCanonical_iff.mpr ⟨raw, hs⟩
  · intro hs
    obtain ⟨raw', rfl⟩ := urlCanonical_iff.mp hs
    rw [Except.ok.inj ((b64urlDecode_b64urlEncode raw').symm.trans h)]

/-! ## One spelling -/

section spellings

variable {F PrivateKey : Type} (L : Library PrivateKey)

/-- For which texts what is read is written back: an identity or an agreement key, if it is
accepted, must not end with whitespace, and base64 must be canonical.  What is written is
accepted. -/
theorem spellings_iff (hL : L.Documented) (s : Text) :
    ((∀ pub, parseIdentityId (F := F) L (.str s) = .ok pub → identityIdFromPubkey (F := F) L pub = .ok s) ↔
      ((∃ pub, parseIdentityId (F := F) L (.str s) = .ok pub) → ¬TrailingSpace s)) ∧
    ((∀ pub, parseAgreementKey (F := F) L (.str s) = .ok pub →
        agreementKeyMultibaseFromPubkey (F := F) L pub = .ok s) ↔
      ((∃ pub, parseAgreementKey (F := F) L (.str s) = .ok pub) → ¬TrailingSpace s)) ∧
    ((∀ raw, b64urlDecode (F := F) (.str s) = .ok raw → b64urlEncode raw = s) ↔
      ((∃ raw, b64urlDecode (F := F) (.str s) = .ok raw) → UrlCanonical s)) ∧
    ∀ raw, b64urlDecode (F := F) (.str (b64urlEncode raw)) = .ok raw := by
  refine ⟨⟨fun h => ?_, fun h pub hpub => ?_⟩, ⟨fun h => ?_, fun h pub hpub => ?_⟩, ⟨fun h => ?_, fun h raw hraw => ?_⟩,
    b64urlDecode_b64urlEncode⟩
  · rintro ⟨pub, hpub⟩
    exact (identityId_written_iff hL hpub).mp (h pub hpub)
  · exact (identityId_written_iff hL hpub).mpr (h ⟨pub, hpub⟩)
  · rintro ⟨pub, hpub⟩
    exact (agreementKey_written_iff hL hpub).mp (h pub hpub)
  · exact (agreementKey_written_iff hL hpub).mpr (h ⟨pub, hpub⟩)
  · rintro ⟨raw, hraw⟩
    exact (b64url_written_iff hraw).mp (h raw hraw)
  · exact (b64url_written_iff hraw).mpr (h ⟨raw, hraw⟩)

end spellings

/-- The implementation of base58, with signatures that say nothing. -/
def unsignedLibrary : Library Unit where
  b58encode := Base58.b58encode
  b58decode s := (scalars s).bind Base58.b58decode
  public_bytes_raw _ := List.replicate 32 0
  sign _ _ := List.replicate 64 0
  verify _ _ _ := true

theorem unsignedLibrary_documented : unsignedLibrary.Documented := ⟨fun _ => rfl, fun _ => rfl⟩

/-- The identity of the zero key. -/
def zeroIdentity : Text :=
  IDENTITY_ID_PREFIX ++ chars (Base58.b58encode (MULTICODEC_ED25519 ++ List.replicate 32 0))

theorem identityIdFromPubkey_zero :
    identityIdFromPubkey (F := Unit) unsignedLibrary (List.replicate 32 0) = .ok zeroIdentity := by
  rw [identityIdFromPubkey, if_neg (by simp [RAW_PUBKEY_LEN])]
  rfl

/-- A newline behind an identity is accepted, and so is padding behind base64: both are second
spellings. -/
theorem second_spelling_accepted :
    ¬((∀ s pub, parseIdentityId (F := Unit) unsignedLibrary (.str s) = .ok pub →
        identityIdFromPubkey (F := Unit) unsignedLibrary pub = .ok s) ∧
      ∀ s raw, b64urlDecode (F := Unit) (.str s) = .ok raw → b64urlEncode raw = s) ∧
    parseIdentityId (F := Unit) unsignedLibrary (.str (zeroIdentity ++ text "\n")) = .ok (List.replicate 32 0) ∧
    parseIdentityId (F := Unit) unsignedLibrary (.str zeroIdentity) = .ok (List.replicate 32 0) ∧
    b64urlDecode (F := Unit) (.str (text "AA==")) = .ok [0] ∧
    b64urlDecode (F := Unit) (.str (text "AA")) = .ok [0] ∧
    b64urlDecode (F := Unit) (.str (text "AB")) = .ok [0] := by
  have hpadded : b64urlDecode (F := Unit) (.str (text "AA==")) = .ok [0] := rfl
  have hnewline : ∀ c ∈ ['\n'], Base58.isSpace c = true := by
    intro c hc
    rw [List.mem_singleton.mp hc]
    rfl
  refine ⟨fun h => ?_, ?_, ?_, hpadded, rfl, rfl⟩
  · have hsame := h.2 (text "AA==") [0] hpadded
    exact absurd hsame (by decide)
  · exact parseIdentityId_append_spaces unsignedLibrary_documented ['\n'] hnewline identityIdFromPubkey_zero
  · have hread := parseIdentityId_append_spaces unsignedLibrary_documented [] (by simp) identityIdFromPubkey_zero
    rwa [show chars [] = [] from rfl, List.append_nil] at hread

/-- The texts of the identity of the zero key. -/
theorem spellings_zeroIdentity :
    ((∀ pub, parseIdentityId (F := Unit) unsignedLibrary (.str zeroIdentity) = .ok pub →
        identityIdFromPubkey (F := Unit) unsignedLibrary pub = .ok zeroIdentity) ↔
      ((∃ pub, parseIdentityId (F := Unit) unsignedLibrary (.str zeroIdentity) = .ok pub) → ¬TrailingSpace zeroIdentity)) :=
  (spellings_iff unsignedLibrary unsignedLibrary_documented zeroIdentity).1

end MuseAgentSocial.Identity
