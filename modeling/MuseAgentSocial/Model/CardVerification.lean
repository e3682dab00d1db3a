import MuseAgentSocial.Canonical.FailsClosed
import MuseAgentSocial.Canonical.Frames
import MuseAgentSocial.Model.Cards

/-!
# Card verification

What `verify_card` does with any object.

* A label with a lone surrogate passes every check before the signing bytes, which then
  raise a `CanonicalizationError` that nothing catches.  `Escapes` is every card that makes
  `verify_card` raise.
* A card of `create_card` is accepted while it is live.
* A card is accepted only under a signature of the canonical bytes of its other fields.
-/

namespace MuseAgentSocial.Cards

open Json Canonical Calendar Identity
open Policy (text)

section fields

variable {F PrivateKey : Type} {R : Runtime F PrivateKey} {card : Entries F} {name : Text}

/-! ## Fields -/

theorem mem_field (h : Key.str name ∈ card.map Prod.fst) : (Key.str name, field card name) ∈ card := by
  obtain ⟨e, he, hkey⟩ := List.mem_map.mp h
  unfold field
  cases hfind : card.find? (fun e => e.1 = .str name) with
  | none => exact absurd hkey (by simpa using List.find?_eq_none.mp hfind e he)
  | some e' =>
    have hkey' : e'.1 = .str name := by simpa using List.find?_some hfind
    rw [← hkey']
    exact List.mem_of_find?_eq_some hfind

theorem field_of_mem (hkeys : (card.map Prod.fst).Nodup) {v : Value F} (h : (Key.str name, v) ∈ card) :
    field card name = v :=
  congrArg Prod.snd (List.inj_on_of_nodup_map hkeys (mem_field (List.mem_map_of_mem h)) h rfl)

theorem mem_unsigned {e : Key × Value F} : e ∈ unsigned card ↔ e ∈ card ∧ e.1 ≠ .str (text "signature") := by
  simp [unsigned]

/-! ## Which fields are canonical -/

theorem inProfile_chars (cs : List Char) : (Value.str (chars cs) : Value F).InProfile := by
  have hscalars : scalars (chars cs) = some cs := scalars_eq_some_iff.mpr rfl
  rw [Value.InProfile, hscalars]
  rfl

theorem decimal_surrogate (n : Fin 0x800) : Policy.decimal (.surrogate n) = none := by
  have hzeros : ∀ z ∈ Policy.decimalZeros, z + 10 ≤ 0xD800 ∨ 0xE000 ≤ z := by decide
  unfold Policy.decimal
  rw [Option.map_eq_none_iff, List.find?_eq_none]
  intro z hz
  have hz' := hzeros z hz
  rw [decide_eq_true_eq]
  show ¬(z ≤ 0xD800 + n.val ∧ 0xD800 + n.val < z + 10)
  omega

/-- What the pattern of a timestamp matches has no surrogates. -/
theorem scalars_of_fills {slots : List Policy.Slot} {s : Text} (h : Policy.fills slots s = true) :
    ∃ cs, s = chars cs := by
  induction slots generalizing s with
  | nil =>
    cases s with
    | nil => exact ⟨[], rfl⟩
    | cons c s => simp [Policy.fills] at h
  | cons slot slots ih =>
    cases s with
    | nil => simp [Policy.fills] at h
    | cons c s =>
      rw [Policy.fills, Bool.and_eq_true] at h
      obtain ⟨cs, rfl⟩ := ih h.2
      cases c with
      | scalar c => exact ⟨c :: cs, rfl⟩
      | surrogate n =>
        cases slot with
        | digit => simp [Policy.Slot.accepts, decimal_surrogate] at h
        | literal l => simp [Policy.Slot.accepts] at h

theorem inProfile_of_parseTimestamp {v : Value F} {d : DateTime} (h : parseTimestamp R v = .ok d) : v.InProfile := by
  obtain ⟨s, rfl, hs⟩ := parseTimestamp_eq_ok h
  obtain ⟨cs, rfl⟩ := scalars_of_fills (Policy.fills_of_parseUtc hs).1
  exact inProfile_chars cs

theorem inProfile_of_normalized {listed caps : List Text}
    (h : normalizeCapabilities R (.list (listed.map .str)) = .ok caps) :
    (Value.list (listed.map .str) : Value F).InProfile := by
  obtain ⟨ss, hss, -⟩ := bind_eq_ok_iff.mp h
  obtain ⟨heq, hall⟩ := normalizeEntries_eq_ok_iff.mp hss
  rw [heq, Value.InProfile, allInProfile_iff]
  intro x hx
  obtain ⟨s, hs, rfl⟩ := List.mem_map.mp hx
  obtain ⟨cs, rfl⟩ := scalars_of_isAscii (hall s hs).1
  exact inProfile_chars cs

/-- A string with a lone surrogate. -/
def HasSurrogate : Value F → Prop
  | .str s => scalars s = none
  | _ => False

/-- One of the labels of the card has a lone surrogate. -/
def SurrogateLabel (card : Entries F) : Prop :=
  HasSurrogate (field card (text "display_name")) ∨ HasSurrogate (field card (text "principal_label"))

theorem inProfile_of_label {v : Value F} (h : ∃ c s, v = .str (c :: s)) (hno : ¬HasSurrogate v) : v.InProfile := by
  obtain ⟨c, s, rfl⟩ := h
  exact Option.isSome_iff_ne_none.mpr hno

theorem not_hasSurrogate_of_inProfile {v : Value F} (h : v.listed.InProfile) : ¬HasSurrogate v := by
  cases v with
  | str s => exact Option.isSome_iff_ne_none.mp h
  | _ => exact id

variable {identity_pub raw : List UInt8} {issued_dt expires_dt : DateTime}

theorem inProfile_field (hL : R.library.Lawful) (hschema : SchemaValid R card identity_pub)
    (htimes : TimesValid R card issued_dt expires_dt) (hencodings : EncodingsValid card raw) (hno : ¬SurrogateLabel card)
    (hname : name ∈ CARD_FIELDS) (hne : name ≠ text "signature") : (field card name).InProfile := by
  rw [SurrogateLabel, not_or] at hno
  simp only [CARD_FIELDS, List.mem_cons, List.not_mem_nil, or_false] at hname
  rcases hname with rfl | rfl | rfl | rfl | rfl | rfl | rfl | rfl | rfl | rfl
  · have hversion := hschema.version
    cases hv : field card (text "card_version") with
    | int i =>
      rw [hv, isCardVersion, beq_iff_eq] at hversion
      subst hversion
      exact ⟨by decide, by decide⟩
    | bool b => trivial
    | _ => simp [hv, isCardVersion] at hversion
  · obtain ⟨cs, hcs⟩ := parseIdentityId_scalars hL hschema.identity
    exact hcs ▸ inProfile_chars cs
  · exact inProfile_of_label hschema.display_name hno.1
  · exact inProfile_of_label hschema.principal_label hno.2
  · obtain ⟨key, hkey⟩ := hschema.agreement
    obtain ⟨cs, hcs⟩ := parseAgreementKey_scalars hL hkey
    exact hcs ▸ inProfile_chars cs
  · obtain ⟨caps, heq, hcaps⟩ := hschema.capabilities
    rw [heq] at hcaps ⊢
    exact inProfile_of_normalized hcaps
  · exact inProfile_of_parseTimestamp htimes.issued
  · exact inProfile_of_parseTimestamp htimes.expires
  · obtain ⟨bytes, hbytes, -⟩ := hencodings.nonce
    obtain ⟨cs, hcs⟩ := b64urlDecode_scalars hbytes
    exact hcs ▸ inProfile_chars cs
  · exact absurd rfl hne

theorem isAscii_of_mem_fields (h : name ∈ CARD_FIELDS) : isAscii name = true := by
  have hall : ∀ name ∈ CARD_FIELDS, isAscii name = true := by decide
  exact hall name h

theorem name_of_mem (hschema : SchemaValid R card identity_pub) {e : Key × Value F} (he : e ∈ card) :
    ∃ name ∈ CARD_FIELDS, Key.str name = e.1 :=
  List.mem_map.mp (hschema.known _ (List.mem_map_of_mem he))

theorem inProfile_unsigned (hL : R.library.Lawful) (hkeys : (card.map Prod.fst).Nodup)
    (hschema : SchemaValid R card identity_pub) (htimes : TimesValid R card issued_dt expires_dt)
    (hencodings : EncodingsValid card raw) (hno : ¬SurrogateLabel card) : (Value.dict (unsigned card)).InProfile := by
  refine ⟨fun e he => ?_, hkeys.sublist (List.filter_sublist.map _), (entriesInProfile_iff _).mpr (fun e he => ?_)⟩
  · obtain ⟨name, hname, heq⟩ := name_of_mem hschema (mem_unsigned.mp he).1
    rw [← heq]
    exact isAscii_of_mem_fields hname
  · obtain ⟨hmem, hne⟩ := mem_unsigned.mp he
    obtain ⟨name, hname, heq⟩ := name_of_mem hschema hmem
    obtain ⟨k, v⟩ := e
    obtain rfl : Key.str name = k := heq
    rw [← field_of_mem hkeys hmem]
    exact inProfile_field hL hschema htimes hencodings hno hname (fun h => hne (h ▸ rfl))

theorem mem_unsigned_field (hschema : SchemaValid R card identity_pub) (hname : name ∈ CARD_FIELDS)
    (hne : name ≠ text "signature") : (Key.str name, field card name) ∈ unsigned card :=
  mem_unsigned.mpr ⟨mem_field (hschema.present name hname), fun h => hne (Key.str.inj h)⟩

theorem not_surrogateLabel_of_bytes (hschema : SchemaValid R card identity_pub) {bytes : ByteArray}
    (h : restrictedJcs R.nonFinite R.frames (.dict (unsigned card)) = .ok bytes) : ¬SurrogateLabel card := by
  have hlisted := ((restrictedJcs_ok_iff _).mp ⟨bytes, h⟩).1
  rw [Value.listed, listedEntries_eq] at hlisted
  have hall := (entriesInProfile_iff _).mp hlisted.2.2
  have hfield {name : Text} (hname : name ∈ CARD_FIELDS) (hne : name ≠ text "signature") :
      ¬HasSurrogate (field card name) :=
    not_hasSurrogate_of_inProfile (hall _ (List.mem_map_of_mem (mem_unsigned_field hschema hname hne)))
  rintro (hdisplay | hprincipal)
  · exact hfield (by decide) (by decide) hdisplay
  · exact hfield (by decide) (by decide) hprincipal

/-- The values of the fields of a card that passes the checks. -/
inductive Flat : Value F → Prop where
  | int (i : Int) : Flat (.int i)
  | bool (b : Bool) : Flat (.bool b)
  | str (s : Text) : Flat (.str s)
  | strings (ss : List Text) : Flat (.list (ss.map .str))

theorem flat_field (hL : R.library.Lawful) (hschema : SchemaValid R card identity_pub)
    (htimes : TimesValid R card issued_dt expires_dt) (hencodings : EncodingsValid card raw) (hname : name ∈ CARD_FIELDS) :
    Flat (field card name) := by
  simp only [CARD_FIELDS, List.mem_cons, List.not_mem_nil, or_false] at hname
  rcases hname with rfl | rfl | rfl | rfl | rfl | rfl | rfl | rfl | rfl | rfl
  · have hversion := hschema.version
    cases hv : field card (text "card_version") with
    | int i => exact .int i
    | bool b => exact .bool b
    | _ => simp [hv, isCardVersion] at hversion
  · obtain ⟨cs, hcs⟩ := parseIdentityId_scalars hL hschema.identity
    exact hcs ▸ .str _
  · obtain ⟨c, s, hs⟩ := hschema.display_name
    exact hs ▸ .str _
  · obtain ⟨c, s, hs⟩ := hschema.principal_label
    exact hs ▸ .str _
  · obtain ⟨key, hkey⟩ := hschema.agreement
    obtain ⟨cs, hcs⟩ := parseAgreementKey_scalars hL hkey
    exact hcs ▸ .str _
  · obtain ⟨caps, hcaps, -⟩ := hschema.capabilities
    exact hcaps ▸ .strings caps
  · obtain ⟨s, hs, -⟩ := parseTimestamp_eq_ok htimes.issued
    exact hs ▸ .str s
  · obtain ⟨s, hs, -⟩ := parseTimestamp_eq_ok htimes.expires
    exact hs ▸ .str s
  · obtain ⟨bytes, hbytes, -⟩ := hencodings.nonce
    obtain ⟨cs, hcs⟩ := b64urlDecode_scalars hbytes
    exact hcs ▸ .str _
  · obtain ⟨cs, hcs⟩ := b64urlDecode_scalars hencodings.signature
    exact hcs ▸ .str _

theorem Flat.depth_le {v : Value F} (h : Flat v) : v.depth ≤ 1 := by
  cases h with
  | int i => exact Nat.zero_le 1
  | bool b => exact Nat.zero_le 1
  | str s => exact Nat.zero_le 1
  | strings ss =>
    refine Nat.succ_le_succ (itemsDepth_le_iff.mpr (fun x hx => ?_))
    obtain ⟨s, -, rfl⟩ := List.mem_map.mp hx
    exact Nat.le_refl 0

theorem depth_unsigned (hL : R.library.Lawful) (hkeys : (card.map Prod.fst).Nodup)
    (hschema : SchemaValid R card identity_pub) (htimes : TimesValid R card issued_dt expires_dt)
    (hencodings : EncodingsValid card raw) : (Value.dict (unsigned card)).depth ≤ 2 := by
  refine Nat.succ_le_succ (entriesDepth_le_iff.mpr (fun e he => ?_))
  obtain ⟨hmem, -⟩ := mem_unsigned.mp he
  obtain ⟨name, hname, heq⟩ := name_of_mem hschema hmem
  obtain ⟨k, v⟩ := e
  obtain rfl : Key.str name = k := heq
  rw [← field_of_mem hkeys hmem]
  exact (flat_field hL hschema htimes hencodings hname).depth_le

end fields

/-! ## Which cards raise -/

section raising

variable {F PrivateKey : Type} {R : Runtime F PrivateKey} {card : Entries F} {now : Moment}
  {identity_pub raw : List UInt8} {issued_dt expires_dt : DateTime}

theorem signingBytes_eq_ok_iff {bytes : ByteArray} :
    signingBytes R card = .ok bytes ↔ restrictedJcs R.nonFinite R.frames (.dict (unsigned card)) = .ok bytes := by
  unfold signingBytes
  rw [orFail_eq_ok_iff]
  cases restrictedJcs R.nonFinite R.frames (.dict (unsigned card)) <;> simp [Except.mapError]

theorem raises_signingBytes_iff (hL : R.library.Lawful) (hkeys : (card.map Prod.fst).Nodup)
    (hschema : SchemaValid R card identity_pub) (htimes : TimesValid R card issued_dt expires_dt)
    (hencodings : EncodingsValid card raw) : Raises (signingBytes R card) ↔ SurrogateLabel card := by
  unfold signingBytes
  cases hbytes : restrictedJcs R.nonFinite R.frames (.dict (unsigned card)) with
  | ok bytes =>
    refine iff_of_false ?_ (not_surrogateLabel_of_bytes hschema hbytes)
    simp [Raises, Except.mapError, orFail]
  | error e =>
    refine iff_of_true (by cases e <;> exact ⟨_, rfl⟩) (Classical.by_contradiction fun hno => ?_)
    have hprofile := inProfile_unsigned hL hkeys hschema htimes hencodings hno
    have hlisted : (Value.dict (unsigned card)).listed.InProfile := (listed_of_inProfile hprofile).symm ▸ hprofile
    have hneeds := needs_le_of_inProfile hlisted
    have hdepth := depth_unsigned hL hkeys hschema htimes hencodings
    have hroom := R.room
    obtain ⟨bytes, hok⟩ := (restrictedJcs_ok_iff R.nonFinite).mpr
      ⟨hlisted, (by omega : (Value.dict (unsigned card)).needs < R.frames)⟩
    cases hbytes.symm.trans hok

theorem checkLive_eq_ok_iff {u : Unit} :
    checkLive card issued_dt expires_dt now = .ok u ↔
      ∃ horizon, now.later CLOCK_SKEW_TOLERANCE = some horizon ∧ issued_dt.instant * 1000000 ≤ horizon.micros ∧
        now.micros < expires_dt.instant * 1000000 := by
  unfold checkLive
  cases now.later CLOCK_SKEW_TOLERANCE with
  | none => simp
  | some horizon =>
    dsimp only
    split_ifs with hfuture hexpired
    · simp [hfuture]
    · simp [hexpired]
    · simp [not_lt.mp hfuture, not_le.mp hexpired]

theorem raises_checkLive_iff :
    Raises (checkLive card issued_dt expires_dt now) ↔ now.later CLOCK_SKEW_TOLERANCE = none := by
  unfold checkLive
  cases now.later CLOCK_SKEW_TOLERANCE with
  | none => simp [Raises]
  | some horizon =>
    dsimp only
    split_ifs <;> simp [Raises]

/-- The signature of the card verifies over its signing bytes. -/
def SignatureVerifies (R : Runtime F PrivateKey) (card : Entries F) (identity_pub raw : List UInt8) : Prop :=
  ∃ bytes, restrictedJcs R.nonFinite R.frames (.dict (unsigned card)) = .ok bytes ∧ R.library.verify identity_pub raw bytes = true

/-- The checks before the signing bytes pass, but for the nesting of a timestamp; or they all
pass, and then a label has a surrogate, or five minutes after `now` is no moment. -/
def EscapesWith (R : Runtime F PrivateKey) (card : Entries F) (now : Moment) : Prop :=
  ∃ identity_pub, SchemaValid R card identity_pub ∧
    (TooDeep R card ∨
      ∃ issued_dt expires_dt raw, TimesValid R card issued_dt expires_dt ∧ EncodingsValid card raw ∧
        (SurrogateLabel card ∨
          SignatureVerifies R card identity_pub raw ∧ now.later CLOCK_SKEW_TOLERANCE = none))

theorem raises_verifyEntries_iff (hL : R.library.Lawful) (hkeys : (card.map Prod.fst).Nodup) :
    Raises (verifyEntries R card now) ↔ EscapesWith R card now := by
  unfold verifyEntries
  simp only [raises_bind_iff, not_raises_checkSchema, not_raises_checkEncodings, not_raises_refuseIf, false_or,
    raises_checkTimes_iff, raises_checkLive_iff, checkSchema_eq_ok_iff, checkTimes_eq_ok_iff, checkEncodings_eq_ok_iff,
    signingBytes_eq_ok_iff, refuseIf_eq_ok_iff, Bool.not_eq_false']
  constructor
  · rintro ⟨pub, hschema, hdeep | ⟨times, htimes, raw, hencodings, hbytes | ⟨bytes, hbytes, _, hverify, hlater⟩⟩⟩
    · exact ⟨pub, hschema, Or.inl hdeep⟩
    · exact ⟨pub, hschema, Or.inr ⟨_, _, raw, htimes, hencodings,
        Or.inl ((raises_signingBytes_iff hL hkeys hschema htimes hencodings).mp hbytes)⟩⟩
    · exact ⟨pub, hschema, Or.inr ⟨_, _, raw, htimes, hencodings, Or.inr ⟨⟨bytes, hbytes, hverify⟩, hlater⟩⟩⟩
  · rintro ⟨pub, hschema, hdeep | ⟨issued, expires, raw, htimes, hencodings,
      hlabel | ⟨⟨bytes, hbytes, hverify⟩, hlater⟩⟩⟩
    · exact ⟨pub, hschema, Or.inl hdeep⟩
    · exact ⟨pub, hschema, Or.inr ⟨(issued, expires), htimes, raw, hencodings,
        Or.inl ((raises_signingBytes_iff hL hkeys hschema htimes hencodings).mpr hlabel)⟩⟩
    · exact ⟨pub, hschema, Or.inr ⟨(issued, expires), htimes, raw, hencodings,
        Or.inr ⟨bytes, hbytes, (), hverify, hlater⟩⟩⟩

theorem verifyCard_dict_error_iff : (∃ e, verifyCard R (.dict card) now = .error e) ↔ Raises (verifyEntries R card now) := by
  rw [verifyCard]
  cases verifyEntries R card now with
  | ok u => simp [Raises]
  | error exit => cases exit <;> simp [Raises]

/-- `verify_card` accepts the card. -/
def Accepted (R : Runtime F PrivateKey) (card : Value F) (now : Moment) : Prop :=
  ∃ v, verifyCard R card now = .ok v ∧ v.ok = true

theorem accepted_iff {card : Value F} :
    Accepted R card now ↔ ∃ entries, card = .dict entries ∧ verifyEntries R entries now = .ok () := by
  cases card with
  | dict entries =>
    unfold Accepted
    rw [verifyCard]
    cases hrun : verifyEntries R entries now with
    | ok u => simp [hrun]
    | error exit => cases exit <;> simp [failed, hrun]
  | _ => simp [Accepted, verifyCard, failed]

theorem verifyEntries_eq_ok_iff {u : Unit} :
    verifyEntries R card now = .ok u ↔
      ∃ identity_pub issued_dt expires_dt raw, SchemaValid R card identity_pub ∧ TimesValid R card issued_dt expires_dt ∧
        EncodingsValid card raw ∧ SignatureVerifies R card identity_pub raw ∧
        checkLive card issued_dt expires_dt now = .ok () := by
  unfold verifyEntries SignatureVerifies
  simp only [bind_eq_ok_iff, checkSchema_eq_ok_iff, checkTimes_eq_ok_iff, checkEncodings_eq_ok_iff,
    signingBytes_eq_ok_iff, refuseIf_eq_ok_iff, Bool.not_eq_false']
  constructor
  · rintro ⟨pub, hschema, times, htimes, raw, hencodings, bytes, hbytes, _, hverify, hlive⟩
    exact ⟨pub, _, _, raw, hschema, htimes, hencodings, ⟨bytes, hbytes, hverify⟩, hlive⟩
  · rintro ⟨pub, issued, expires, raw, hschema, htimes, hencodings, ⟨bytes, hbytes, hverify⟩, hlive⟩
    exact ⟨pub, hschema, (issued, expires), htimes, raw, hencodings, bytes, hbytes, (), hverify, hlive⟩

end raising

/-! ## Cards that are created -/

section created

variable {F PrivateKey : Type} {R : Runtime F PrivateKey} {card : Entries F} {now : Moment} {key : PrivateKey}
  {input : CardInput F}

/-- What went into a card that was created. -/
structure Created (R : Runtime F PrivateKey) (key : PrivateKey) (input : CardInput F) (card : Entries F)
    (display_name principal_label : CodePoint × Text) (identity_id issued expires : Text) (caps : List Text)
    (issued_dt expires_dt : DateTime) : Prop where
  agreement : ∃ raw, parseAgreementKey R.library input.agreement_pub_multibase = .ok raw
  capabilities : normalizeCapabilities R input.capabilities = .ok caps
  issued_time : parseTimestamp R (.str issued) = .ok issued_dt
  expires_time : parseTimestamp R (.str expires) = .ok expires_dt
  order : issued_dt.instant < expires_dt.instant
  lifetime : expires_dt.instant - issued_dt.instant ≤ MAX_CARD_LIFETIME
  identity : identityIdFromPubkey (F := F) R.library (R.library.public_bytes_raw key) = .ok identity_id
  signed : signCard R key (unsignedCard input identity_id (display_name.1 :: display_name.2)
    (principal_label.1 :: principal_label.2) caps issued expires) = .ok card

theorem checkDisplayLabel_eq_ok {name : String} {v : Value F} {s : Text} (h : checkDisplayLabel name v = .ok s) :
    ∃ c t, s = c :: t := by
  unfold checkDisplayLabel at h
  split at h
  · next c t => exact ⟨c, t, (Except.ok.inj h).symm⟩
  · cases h

theorem created_of_createCard (h : createCard R key input = .ok card) :
    ∃ display_name principal_label identity_id issued expires caps issued_dt expires_dt,
      Created R key input card display_name principal_label identity_id issued expires caps issued_dt expires_dt := by
  unfold createCard at h
  simp only [bind_eq_ok_iff] at h
  obtain ⟨display, hdisplay, principal, hprincipal, raw, hraw, caps, hcaps, issued, -, expires, -, issued_dt, hissued,
    expires_dt, hexpires, hrest⟩ := h
  split_ifs at hrest with horder hlifetime
  obtain ⟨identity_id, hidentity, hsigned⟩ := bind_eq_ok_iff.mp hrest
  obtain ⟨c, s, rfl⟩ := checkDisplayLabel_eq_ok hdisplay
  obtain ⟨c', s', rfl⟩ := checkDisplayLabel_eq_ok hprincipal
  exact ⟨(c, s), (c', s'), identity_id, issued, expires, caps, issued_dt, expires_dt, ⟨raw, hraw⟩, hcaps, hissued, hexpires,
    not_le.mp horder, not_lt.mp hlifetime, hidentity, hsigned⟩

theorem signCard_eq_ok {entries : Entries F} (h : signCard R key entries = .ok card) :
    ∃ bytes, restrictedJcs R.nonFinite R.frames (.dict entries) = .ok bytes ∧
      card = entries ++ [(.str (text "signature"), .str (b64urlEncode (R.library.sign key bytes)))] := by
  unfold signCard at h
  obtain ⟨bytes, hbytes, rfl⟩ := map_eq_ok_iff.mp h
  refine ⟨bytes, ?_, rfl⟩
  cases hjcs : restrictedJcs R.nonFinite R.frames (.dict entries) with
  | ok bytes' => rw [← Except.ok.inj ((congrArg (Except.mapError unwritten) hjcs).symm.trans hbytes)]
  | error e => simp [hjcs, Except.mapError] at hbytes

/-- The card is in its life at `now`, up to the tolerance of the clocks. -/
def Live (R : Runtime F PrivateKey) (card : Entries F) (now : Moment) : Prop :=
  ∃ issued_dt expires_dt horizon, parseTimestamp R (field card (text "issued_at")) = .ok issued_dt ∧
    parseTimestamp R (field card (text "expires_at")) = .ok expires_dt ∧
    now.later CLOCK_SKEW_TOLERANCE = some horizon ∧ issued_dt.instant * 1000000 ≤ horizon.micros ∧
    now.micros < expires_dt.instant * 1000000

theorem verifyEntries_of_createCard (hL : R.library.Lawful) (h : createCard R key input = .ok card)
    (hlive : Live R card now) : verifyEntries R card now = .ok () := by
  obtain ⟨display, principal, identity_id, issued, expires, caps, issued_dt, expires_dt, hc⟩ := created_of_createCard h
  obtain ⟨bytes, hbytes, rfl⟩ := signCard_eq_ok hc.signed
  obtain ⟨issued', expires', horizon, hissued, hexpires, hlater, hfuture, hexpired⟩ := hlive
  have hsign := b64urlDecode_b64urlEncode (F := F) (R.library.sign key bytes)
  obtain rfl : issued_dt = issued' := Except.ok.inj (hc.issued_time.symm.trans hissued)
  obtain rfl : expires_dt = expires' := Except.ok.inj (hc.expires_time.symm.trans hexpires)
  refine verifyEntries_eq_ok_iff.mpr ⟨R.library.public_bytes_raw key, issued_dt, expires_dt, R.library.sign key bytes,
    ⟨?_, ?_, rfl, ?_, hc.agreement, ⟨_, _, rfl⟩, ⟨_, _, rfl⟩, ?_⟩, ⟨hissued, hexpires, hc.order, hc.lifetime⟩, ⟨?_, ?_, ?_⟩,
    ?_, checkLive_eq_ok_iff.mpr ⟨horizon, hlater, hfuture, hexpired⟩⟩
  · show ∀ k ∈ CARD_FIELDS.map Key.str, k ∈ CARD_FIELDS.map Key.str
    exact fun k hk => hk
  · show ∀ name ∈ CARD_FIELDS, Key.str name ∈ CARD_FIELDS.map Key.str
    exact fun name hname => List.mem_map_of_mem hname
  · exact parseIdentityId_fromPubkey hL hc.identity
  · exact ⟨caps, rfl, normalizeCapabilities_idem hc.capabilities⟩
  · exact ⟨input.nonce.val, b64urlDecode_b64urlEncode _, input.nonce.property⟩
  · exact hsign
  · exact hL.length_sign _ _
  · refine ⟨bytes, ?_, hL.verify_sign key bytes⟩
    rw [← hbytes]
    rfl

end created

/-! ## What is signed -/

section signed

variable {F PrivateKey : Type} {R : Runtime F PrivateKey} {card card' : Entries F} {name : Text}
  {identity_pub raw : List UInt8} {issued_dt expires_dt : DateTime}

theorem eq_of_sameItems {ss : List Text} {xs : List (Value F)} (h : Value.SameItems (ss.map .str) xs) :
    xs = ss.map .str := by
  induction ss generalizing xs with
  | nil =>
    cases xs with
    | nil => rfl
    | cons x xs => exact absurd h id
  | cons s ss ih =>
    cases xs with
    | nil => exact absurd h id
    | cons x xs =>
      obtain ⟨hx, hxs⟩ := h
      cases x with
      | str t =>
        obtain rfl : s = t := hx
        rw [ih hxs]
        rfl
      | _ => exact absurd hx id

/-- Flat values are told apart by their canonical bytes. -/
theorem eq_of_same {v w : Value F} (hv : Flat v) (h : v.Same w) : w = v := by
  cases hv with
  | int i =>
    cases w with
    | int j => exact congrArg Value.int (Eq.symm h)
    | _ => exact absurd h id
  | bool b =>
    cases w with
    | bool c => exact congrArg Value.bool (Eq.symm h)
    | _ => exact absurd h id
  | str s =>
    cases w with
    | str t => exact congrArg Value.str (Eq.symm h)
    | _ => exact absurd h id
  | strings ss =>
    cases w with
    | list xs => exact congrArg Value.list (eq_of_sameItems h)
    | _ => exact absurd h id

theorem field_eq_of_bytes (hL : R.library.Lawful) (parseFloat : List Char → F) {now now' : Moment}
    (hkeys : (card.map Prod.fst).Nodup) (hkeys' : (card'.map Prod.fst).Nodup) (h : verifyEntries R card now = .ok ())
    (h' : verifyEntries R card' now' = .ok ()) {bytes : ByteArray}
    (hbytes : restrictedJcs R.nonFinite R.frames (.dict (unsigned card)) = .ok bytes)
    (hbytes' : restrictedJcs R.nonFinite R.frames (.dict (unsigned card')) = .ok bytes) (hname : name ∈ CARD_FIELDS)
    (hne : name ≠ text "signature") : field card' name = field card name := by
  obtain ⟨pub, issued, expires, raw, hschema, htimes, hencodings, -⟩ := verifyEntries_eq_ok_iff.mp h
  obtain ⟨pub', issued', expires', raw', hschema', htimes', hencodings', -⟩ := verifyEntries_eq_ok_iff.mp h'
  have hprofile := inProfile_unsigned hL hkeys hschema htimes hencodings (not_surrogateLabel_of_bytes hschema hbytes)
  have hprofile' := inProfile_unsigned hL hkeys' hschema' htimes' hencodings' (not_surrogateLabel_of_bytes hschema' hbytes')
  have hsame := same_of_restrictedJcs_eq parseFloat hprofile hprofile' hbytes hbytes'
  obtain ⟨w, hw, heq⟩ := (sameEntries_iff _ _).mp hsame.2 _ (mem_unsigned_field hschema hname hne)
  rw [field_of_mem hkeys' (mem_unsigned.mp hw).1]
  exact eq_of_same (flat_field hL hschema htimes hencodings hname) heq

/-- A dict has no key twice. -/
def KeysDistinct (card : Value F) : Prop := ∀ entries, card = .dict entries → (entries.map Prod.fst).Nodup

theorem keysDistinct_of_strictParse {parseFloat : List Char → F} {limit : Nat} {data : ByteArray} {v : Value F}
    (h : strictParse parseFloat limit data = .ok v) : KeysDistinct v := by
  rintro entries rfl
  unfold strictParse at h
  cases htext : String.fromUTF8? data with
  | none => simp [htext] at h
  | some s =>
    simp only [htext] at h
    cases hloads : loads (hooks parseFloat) limit s.toList with
    | error e => cases e <;> simp [hloads] at h
    | ok w =>
      simp only [hloads, Except.ok.injEq] at h
      subst h
      obtain ⟨t, -, hbuild⟩ := loads_ok hloads
      cases t with
      | object ps =>
        obtain ⟨vs, -, hobject⟩ := bind_eq_ok_iff.mp hbuild
        replace hobject : (rejectDuplicateKeys vs).mapError Raised.canonicalization = .ok (.dict entries) := hobject
        unfold rejectDuplicateKeys at hobject
        split_ifs at hobject with hnodup
        · obtain rfl := Value.dict.inj (Except.ok.inj hobject)
          have hmap : (vs.map (fun p => (Key.str p.1, p.2))).map Prod.fst = (vs.map Prod.fst).map Key.str := by simp
          rw [hmap]
          exact hnodup.map (fun a b => Key.str.inj)
        · simp [Except.mapError] at hobject
      | array xs =>
        obtain ⟨vs, -, harray⟩ := map_eq_ok_iff.mp hbuild
        cases harray
      | int literal =>
        replace hbuild : parseInt literal = .ok (.dict entries) := hbuild
        unfold parseInt at hbuild
        split_ifs at hbuild <;> cases hbuild
      | _ => cases hbuild

end signed

/-! ## The verifier -/

section verifier

variable {F PrivateKey : Type} (R : Runtime F PrivateKey)

/-- The cards, and the times, at which `verify_card` raises. -/
def Escapes (card : Value F) (now : Moment) : Prop := ∃ entries, card = .dict entries ∧ EscapesWith R entries now

/-- The verifier accepts what `create_card` makes, while it is live; it returns a verdict on
everything but what escapes; and what it accepts is signed, so that a change of a signed
field is accepted only where the holder of the key has signed something else as well. -/
theorem card_verification (parseFloat : List Char → F) (hL : R.library.Lawful) :
    (∀ key input card now, createCard R key input = .ok card → Live R card now → Accepted R (.dict card) now) ∧
    (∀ card now, KeysDistinct card → ((∃ v, verifyCard R card now = .ok v) ↔ ¬Escapes R card now)) ∧
    (∀ limit data card, strictParse parseFloat limit data = .ok card → KeysDistinct card) ∧
    (∀ card now, Accepted R card now → ∃ entries identity_pub signature, card = .dict entries ∧
      parseIdentityId R.library (field entries (text "identity_id")) = .ok identity_pub ∧
      b64urlDecode (field entries (text "signature")) = .ok signature ∧
      SignatureVerifies R entries identity_pub signature) ∧
    ∀ (signed : List UInt8 → ByteArray → Prop), (∀ pub raw m, R.library.verify pub raw m = true → signed pub m) →
      ∀ card card' now now', (card.map Prod.fst).Nodup → (card'.map Prod.fst).Nodup → Accepted R (.dict card) now →
        (∀ pub m, parseIdentityId R.library (field card' (text "identity_id")) = .ok pub → signed pub m →
          restrictedJcs R.nonFinite R.frames (.dict (unsigned card)) = .ok m) →
        (∃ name ∈ CARD_FIELDS, name ≠ text "signature" ∧ field card' name ≠ field card name) →
        ¬Accepted R (.dict card') now' := by
  refine ⟨fun key input card now h hlive => accepted_iff.mpr ⟨card, rfl, verifyEntries_of_createCard hL h hlive⟩,
    fun card now hkeys => ?_, fun limit data card => keysDistinct_of_strictParse, fun card now h => ?_, ?_⟩
  · cases card with
    | dict entries =>
      have herror : (∃ e, verifyCard R (.dict entries) now = .error e) ↔ EscapesWith R entries now :=
        verifyCard_dict_error_iff.trans (raises_verifyEntries_iff hL (hkeys entries rfl))
      have hescapes : Escapes R (.dict entries) now ↔ EscapesWith R entries now := by simp [Escapes]
      rw [hescapes, ← herror]
      cases verifyCard R (.dict entries) now <;> simp
    | _ => simp [verifyCard, Escapes]
  · obtain ⟨entries, rfl, hrun⟩ := accepted_iff.mp h
    obtain ⟨pub, -, -, raw, hschema, -, hencodings, hsigned, -⟩ := verifyEntries_eq_ok_iff.mp hrun
    exact ⟨entries, pub, raw, rfl, hschema.identity, hencodings.signature, hsigned⟩
  · rintro signed hunforgeable card card' now now' hkeys hkeys' h honly ⟨name, hname, hne, hdiffers⟩ h'
    obtain ⟨_, heq, hrun⟩ := accepted_iff.mp h
    obtain rfl := Value.dict.inj heq
    obtain ⟨_, heq', hrun'⟩ := accepted_iff.mp h'
    obtain rfl := Value.dict.inj heq'
    obtain ⟨pub, -, -, raw, hschema, -, -, ⟨bytes, hbytes, hverify⟩, -⟩ := verifyEntries_eq_ok_iff.mp hrun'
    have hsigned := honly pub bytes hschema.identity (hunforgeable pub raw bytes hverify)
    exact hdiffers (field_eq_of_bytes hL parseFloat hkeys hkeys' hrun hrun' hsigned hbytes hname hne)

end verifier

/-! ## A card with a lone surrogate -/

/-- A public Ed25519 key. -/
def samplePublicKey : List UInt8 :=
  [215, 90, 152, 1, 130, 177, 10, 183, 213, 75, 254, 211, 201, 100, 7, 58, 14, 225, 114, 243, 218, 166, 35, 37, 175, 2, 26,
    104, 247, 7, 81, 26]

/-- The signing bytes of a card of that key. -/
def sampleSigningBytes : ByteArray :=
  ("\x7b\"bootstrap_agreement_key\":\"z6LScHJqLmLd8zBAmcTY7BuyNvvYBEd44A6K8nVg2DSVCcis\"," ++
    "\"capabilities\":[\"events/0.2\"],\"card_nonce\":\"AAAAAAAAAAAAAAAAAAAAAA\",\"card_version\":1," ++
    "\"display_name\":\"agent\",\"expires_at\":\"2027-09-15T20:00:00Z\"," ++
    "\"identity_id\":\"did:key:z6MktwupdmLXVVqTzCw4i46r4uGyosGXRnR3XjN4Zq7oMMsw\"," ++
    "\"issued_at\":\"2026-09-15T20:00:00Z\",\"principal_label\":\"owner\"\x7d").toUTF8

/-- The Ed25519 signature of these bytes under the key. -/
def sampleSignature : List UInt8 :=
  [223, 168, 167, 207, 96, 178, 179, 175, 121, 125, 187, 219, 55, 213, 82, 235, 242, 202, 252, 134, 132, 68, 0, 188, 101,
    239, 121, 154, 215, 216, 176, 51, 82, 76, 121, 144, 144, 242, 215, 143, 198, 55, 204, 63, 214, 196, 95, 20, 177, 138,
    96, 87, 22, 93, 112, 161, 57, 0, 70, 221, 107, 55, 100, 1]

/-- What the one key signs: the sample bytes as Ed25519 does, other bytes with zeros. -/
def sampleSign (m : ByteArray) : List UInt8 := if m = sampleSigningBytes then sampleSignature else List.replicate 64 0

/-- Base58, and one key. -/
def sampleLibrary : Library Unit where
  b58encode := Base58.b58encode
  b58decode s := (scalars s).bind Base58.b58decode
  public_bytes_raw _ := samplePublicKey
  sign _ := sampleSign
  verify pub raw m := decide (pub = samplePublicKey ∧ raw = sampleSign m)

theorem sampleLibrary_lawful : sampleLibrary.Lawful where
  b58decode_b58encode bytes := by
    show (scalars (chars (Base58.b58encode bytes))).bind Base58.b58decode = some bytes
    rw [chars, scalars_eq_some_iff.mpr rfl, Option.bind_some, Base58.b58decode_b58encode]
  b58decode_scalars s bytes h := by
    obtain ⟨cs, hcs, -⟩ := Option.bind_eq_some_iff.mp h
    exact ⟨cs, scalars_eq_some_iff.mp hcs⟩
  length_public_bytes_raw _ := rfl
  length_sign _ m := by
    show (sampleSign m).length = 64
    unfold sampleSign
    split_ifs <;> rfl
  verify_sign _ m := decide_eq_true ⟨rfl, rfl⟩

def sampleRuntime : Runtime Unit Unit := ⟨sampleLibrary, fun _ => false, 1000, true, 1000, by decide⟩

/-- The evening of 15 September in a year. -/
def sampleEvening (year : Nat) (h : Valid year 9 15 20 0 0) : DateTime := ⟨year, 9, 15, 20, 0, 0, h⟩

def sampleIssued : DateTime := sampleEvening 2026 (by decide)

def sampleExpires : DateTime := sampleEvening 2027 (by decide)

def sampleNow : Moment := ⟨sampleIssued, 0⟩

/-- An agreement key. -/
def sampleAgreementKey : Text :=
  AGREEMENT_KEY_PREFIX ++ chars (Base58.b58encode (MULTICODEC_X25519 ++ 9 :: List.replicate 31 0))

/-- A card whose display name is the JSON string of the escape `ud800`. -/
def surrogateCard : Entries Unit :=
  [(.str (text "card_version"), .int 1),
    (.str (text "identity_id"),
      .str (IDENTITY_ID_PREFIX ++ chars (Base58.b58encode (MULTICODEC_ED25519 ++ samplePublicKey)))),
    (.str (text "display_name"), .str [.surrogate 0]),
    (.str (text "principal_label"), .str (text "owner")),
    (.str (text "bootstrap_agreement_key"), .str sampleAgreementKey),
    (.str (text "capabilities"), .list []),
    (.str (text "issued_at"), .str (Policy.render sampleIssued)),
    (.str (text "expires_at"), .str (Policy.render sampleExpires)),
    (.str (text "card_nonce"), .str (b64urlEncode (List.replicate 16 0))),
    (.str (text "signature"), .str (b64urlEncode (List.replicate 64 0)))]

theorem parseAgreementKey_sample : ∃ raw, parseAgreementKey (F := Unit) sampleLibrary (.str sampleAgreementKey) = .ok raw := by
  have hne : Base58.b58encode (MULTICODEC_X25519 ++ 9 :: List.replicate 31 0) ≠ [] := by
    intro hnil
    have hback := Base58.b58decode_b58encode (MULTICODEC_X25519 ++ 9 :: List.replicate 31 0)
    rw [hnil] at hback
    simp [Base58.b58decode, MULTICODEC_X25519] at hback
  have hlen : ¬sampleAgreementKey.length < 2 := by
    have hpos := List.length_pos_iff.mpr hne
    rw [sampleAgreementKey, List.length_append, chars, List.length_map]
    show ¬1 + _ < 2
    omega
  have hprefix : AGREEMENT_KEY_PREFIX <+: sampleAgreementKey := List.prefix_append _ _
  refine ⟨9 :: List.replicate 31 0, ?_⟩
  rw [parseAgreementKey, if_neg (not_or.mpr ⟨not_not.mpr hprefix, hlen⟩), sampleAgreementKey, List.drop_left]
  exact decodeMulticodec_b58encode sampleLibrary_lawful rfl _

theorem surrogateCard_escapes (now : Moment) : EscapesWith sampleRuntime surrogateCard now := by
  have hparse (d : DateTime) : parseTimestamp sampleRuntime (.str (Policy.render d)) = .ok d :=
    parseTimestamp_str (Policy.parseUtc_render d)
  have hcaps : normalizeCapabilities sampleRuntime (.list []) = .ok [] :=
    bind_eq_ok_iff.mpr ⟨[], rfl, sortCapabilities_eq_ok_iff.mpr ⟨by decide, List.nodup_nil, List.mergeSort_nil⟩⟩
  refine ⟨samplePublicKey, ⟨?_, ?_, rfl, ?_, parseAgreementKey_sample, ⟨_, _, rfl⟩, ⟨_, _, rfl⟩, ⟨[], rfl, hcaps⟩⟩,
    Or.inr ⟨sampleIssued, sampleExpires, List.replicate 64 0, ⟨hparse _, hparse _, ?_, ?_⟩,
      ⟨⟨List.replicate 16 0, b64urlDecode_b64urlEncode _, rfl⟩, b64urlDecode_b64urlEncode _, rfl⟩, Or.inl (Or.inl rfl)⟩⟩
  · show ∀ k ∈ CARD_FIELDS.map Key.str, k ∈ CARD_FIELDS.map Key.str
    exact fun k hk => hk
  · show ∀ name ∈ CARD_FIELDS, Key.str name ∈ CARD_FIELDS.map Key.str
    exact fun name hname => List.mem_map_of_mem hname
  · exact parseIdentityId_fromPubkey (F := Unit) sampleLibrary_lawful rfl
  · decide
  · decide

/-- A lone surrogate in a label leaves the verifier as an exception, at any time. -/
theorem surrogate_label_raises :
    ¬∀ now : Moment, ∃ v, verifyCard sampleRuntime (.dict surrogateCard) now = .ok v := by
  intro h
  obtain ⟨v, hv⟩ := h sampleNow
  have hkeys : (surrogateCard.map Prod.fst).Nodup := by
    show (CARD_FIELDS.map Key.str).Nodup
    decide
  obtain ⟨e, he⟩ := verifyCard_dict_error_iff.mpr
    ((raises_verifyEntries_iff sampleLibrary_lawful hkeys).mpr (surrogateCard_escapes sampleNow))
  cases hv.symm.trans he

/-- The arguments of the card of `sampleSigningBytes`. -/
def sampleInput : CardInput Unit where
  display_name := .str (text "agent")
  principal_label := .str (text "owner")
  agreement_pub_multibase := .str sampleAgreementKey
  capabilities := .list [.str (text "events/0.2")]
  issued_at := .datetime sampleIssued
  expires_at := .datetime sampleExpires
  nonce := ⟨List.replicate 16 0, rfl⟩

/-- The card before it is signed. -/
def sampleUnsigned : Entries Unit :=
  unsignedCard sampleInput (IDENTITY_ID_PREFIX ++ chars (Base58.b58encode (MULTICODEC_ED25519 ++ samplePublicKey)))
    (text "agent") (text "owner") [text "events/0.2"] (Policy.render sampleIssued) (Policy.render sampleExpires)

theorem sampleUnsigned_inProfile : (Value.dict sampleUnsigned).InProfile := by
  have hchars (cs : List Char) : (Value.str (chars cs) : Value Unit).InProfile := inProfile_chars cs
  have hrender (d : DateTime) : (Value.str (Policy.render d) : Value Unit).InProfile :=
    inProfile_of_parseTimestamp (R := sampleRuntime) (parseTimestamp_str (Policy.parseUtc_render d))
  have hkeys : ∀ e ∈ sampleUnsigned, e.1.IsAscii := by
    have hall : ∀ k ∈ (CARD_FIELDS.dropLast).map Key.str, k.IsAscii := by decide
    intro e he
    exact hall e.1 (show e.1 ∈ sampleUnsigned.map Prod.fst from List.mem_map_of_mem he)
  have hnodup : (sampleUnsigned.map Prod.fst).Nodup := by
    show ((CARD_FIELDS.dropLast).map Key.str).Nodup
    decide
  refine ⟨hkeys, hnodup, ⟨by decide, by decide⟩, ?_, hchars _, hchars _, ?_, ⟨hchars _, trivial⟩, hrender _, hrender _,
    hchars _, trivial⟩
  · show (Value.str (chars "did:key:z".toList ++ _) : Value Unit).InProfile
    rw [chars, chars, ← List.map_append]
    exact hchars _
  · show (Value.str (chars "z".toList ++ _) : Value Unit).InProfile
    rw [chars, chars, ← List.map_append]
    exact hchars _

theorem exists_sampleCard :
    ∃ card, createCard sampleRuntime () sampleInput = .ok card ∧ Live sampleRuntime card sampleNow := by
  have hparse (d : DateTime) : parseTimestamp sampleRuntime (.str (Policy.render d)) = .ok d :=
    parseTimestamp_str (Policy.parseUtc_render d)
  have hcaps : normalizeCapabilities sampleRuntime (.list [.str (text "events/0.2")]) = .ok [text "events/0.2"] :=
    bind_eq_ok_iff.mpr ⟨[text "events/0.2"], rfl,
      sortCapabilities_eq_ok_iff.mpr ⟨by decide, List.nodup_singleton _, List.mergeSort_singleton _⟩⟩
  have hprofile := sampleUnsigned_inProfile
  have hlisted : (Value.dict sampleUnsigned).listed.InProfile := (listed_of_inProfile hprofile).symm ▸ hprofile
  have hframes : (Value.dict sampleUnsigned).needs < sampleRuntime.frames :=
    (needs_le_of_inProfile hlisted).trans_lt (by decide)
  obtain ⟨raw, hraw⟩ := parseAgreementKey_sample
  obtain ⟨bytes, hbytes⟩ := (restrictedJcs_ok_iff sampleRuntime.nonFinite).mpr ⟨hlisted, hframes⟩
  have hsigned : signCard sampleRuntime () sampleUnsigned =
      .ok (sampleUnsigned ++ [(.str (text "signature"), .str (b64urlEncode (sampleSign bytes)))]) := by
    unfold signCard
    rw [hbytes]
    rfl
  have hlifetime : ¬MAX_CARD_LIFETIME < sampleExpires.instant - sampleIssued.instant := by decide
  have horder : ¬sampleExpires.instant ≤ sampleIssued.instant := by decide
  obtain ⟨horizon, hlater⟩ : ∃ d, DateTime.ofInstant (sampleIssued.instant + CLOCK_SKEW_TOLERANCE) = some d :=
    Option.isSome_iff_exists.mp (isSome_ofInstant_iff.mpr (by decide))
  have hinstant : horizon.instant = sampleIssued.instant + CLOCK_SKEW_TOLERANCE := DateTime.ofInstant_eq_some_iff.mp hlater
  let card : Entries Unit := sampleUnsigned ++ [(.str (text "signature"), .str (b64urlEncode (sampleSign bytes)))]
  have hissued : field card (text "issued_at") = .str (Policy.render sampleIssued) := rfl
  have hexpires : field card (text "expires_at") = .str (Policy.render sampleExpires) := rfl
  refine ⟨card, ?_, ⟨sampleIssued, sampleExpires, ⟨horizon, 0⟩, hissued ▸ hparse _, hexpires ▸ hparse _, ?_, ?_,
    by decide⟩⟩
  · unfold createCard
    refine bind_eq_ok_iff.mpr ⟨text "agent", rfl, bind_eq_ok_iff.mpr ⟨text "owner", rfl, bind_eq_ok_iff.mpr ⟨raw, hraw,
      bind_eq_ok_iff.mpr ⟨_, hcaps, bind_eq_ok_iff.mpr ⟨Policy.render sampleIssued, ?_, bind_eq_ok_iff.mpr
        ⟨Policy.render sampleExpires, ?_, bind_eq_ok_iff.mpr ⟨_, hparse _, bind_eq_ok_iff.mpr ⟨_, hparse _, ?_⟩⟩⟩⟩⟩⟩⟩⟩
    · rfl
    · rfl
    · rw [if_neg horder, if_neg hlifetime]
      exact bind_eq_ok_iff.mpr ⟨_, rfl, hsigned⟩
  · show (DateTime.ofInstant (sampleIssued.instant + CLOCK_SKEW_TOLERANCE)).map _ = _
    rw [hlater]
    rfl
  · show sampleIssued.instant * 1000000 ≤ horizon.instant * 1000000 + 0
    omega
/-- The sample card is accepted, and the card with the surrogate raises. -/
theorem card_verification_sample :
    (∃ card, createCard sampleRuntime () sampleInput = .ok card ∧ Accepted sampleRuntime (.dict card) sampleNow) ∧
    ¬∃ v, verifyCard sampleRuntime (.dict surrogateCard) sampleNow = .ok v := by
  obtain ⟨hcreated, htotal, -⟩ := card_verification sampleRuntime (fun _ => ()) sampleLibrary_lawful
  obtain ⟨card, hcard, hlive⟩ := exists_sampleCard
  refine ⟨⟨card, hcard, hcreated () sampleInput card sampleNow hcard hlive⟩, fun hverdict => ?_⟩
  have hkeys : KeysDistinct (.dict surrogateCard) := by
    rintro entries heq
    obtain rfl := Value.dict.inj heq
    show (CARD_FIELDS.map Key.str).Nodup
    decide
  exact (htotal _ sampleNow hkeys).mp hverdict ⟨surrogateCard, rfl, surrogateCard_escapes sampleNow⟩

end MuseAgentSocial.Cards
