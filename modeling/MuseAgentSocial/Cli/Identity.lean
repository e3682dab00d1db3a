import MuseAgentSocial.Store.Node

/-!
# The pinned identity of the peer

A relationship pins the identity of its peer.  The peer replaces it with an
announcement that is signed by the old key and by the new one, and events of the
old key are taken for a grace window after that.

* `verifyIdentityRotationAgainstPinned` and `applyIdentityRotation` are the check
  and the update, over any signature scheme `verify`.
* `receiveObject` is the receive path with the branches that concern the pin.
  The other checks are choices of the environment.
* `identity_pinning`: the pin moves only along cross-signed announcements, and an
  accepted event is signed by the pinned identity or by the one before it.
-/

namespace MuseAgentSocial.Cli.Pinning

open Model Crypto Policy Store

/-! ## Cards and announcements -/

/-- `MAX_CARD_LIFETIME`, in seconds. -/
def MAX_CARD_LIFETIME : Nat := 365 * 24 * 3600

/-- `_CLOCK_SKEW_TOLERANCE`, in seconds. -/
def CLOCK_SKEW_TOLERANCE : Nat := 5 * 60

def MAX_CAPABILITIES : Nat := 64

def MAX_CAPABILITY_BYTES : Nat := 64

/-- A card without its signature. -/
structure CardBody where
  card_version : Nat
  identity_id : IdentityId
  display_name : String
  principal_label : String
  bootstrap_agreement_key : AgreementKey
  capabilities : List String
  issued_at : Nat
  expires_at : Nat
  card_nonce : Nat
  deriving DecidableEq, Repr

/-- An agent card. -/
structure Card (Sig : Type) extends CardBody where
  signature : Sig
  deriving DecidableEq, Repr

/-- An entry of `cross_signatures`. -/
structure CrossSignature (Sig : Type) where
  key_id : Option IdentityId
  signature : Option Sig
  deriving DecidableEq, Repr

/-- The payload of `identity.rotated`. -/
structure Announcement (Sig : Type) where
  rotation_version : Nat
  new_card : Option (Card Sig)
  cross_signatures : List (CrossSignature Sig)
  deriving DecidableEq, Repr

/-- The payload of an event. -/
inductive Body (Sig : Type) where
  | identityRotated (announcement : Announcement Sig)
  | other (content : Nat)
  deriving DecidableEq, Repr

/-- The protected header of an envelope. -/
structure Header where
  event_id : EventId
  relationship_id : RelationshipId
  sender : IdentityId
  deriving DecidableEq, Repr

/-- An envelope on the relay. -/
structure SealedEnvelope (Sig : Type) where
  header : Header
  body : Body Sig
  signature : Sig
  deriving DecidableEq, Repr

/-- The canonical bytes that a key signs. -/
inductive Message (Sig : Type) where
  | cardBody (body : CardBody)
  | card (card : Card Sig)
  | envelope (header : Header) (body : Body Sig)
  deriving DecidableEq, Repr

/-- What the signature of the envelope covers. -/
def SealedEnvelope.message {Sig : Type} (e : SealedEnvelope Sig) : Message Sig :=
  .envelope e.header e.body

/-- The codes of `IdentityRotationError`. -/
inductive IdentityRotationCode where
  | bad_version
  | bad_card
  | bad_identity
  | bad_signatures
  | stale_announcement
  deriving DecidableEq, Repr

section verification

variable {Sig : Type} (verify : IdentityId → Message Sig → Sig → Bool)

/-- `normalize_capabilities` returns the list as it is. -/
def normalizedCapabilities (capabilities : List String) : Bool :=
  capabilities.all (fun c => c.toList.all (fun ch => ch.val < 128) ∧
      c.length ≤ MAX_CAPABILITY_BYTES) ∧
    capabilities.length ≤ MAX_CAPABILITIES ∧ capabilities.Pairwise (· < ·)

/-- `verify_card(card).ok`. -/
def verifyCard (card : Card Sig) (now : Nat) : Bool :=
  card.card_version = 1 ∧ card.display_name ≠ "" ∧ card.principal_label ≠ "" ∧
    normalizedCapabilities card.capabilities ∧ card.issued_at < card.expires_at ∧
    card.expires_at - card.issued_at ≤ MAX_CARD_LIFETIME ∧
    verify card.identity_id (.cardBody card.toCardBody) card.signature ∧
    card.issued_at ≤ now + CLOCK_SKEW_TOLERANCE ∧ now < card.expires_at

/-- `by_key[key]`: of two entries with one key the later one stays. -/
def Announcement.signatureOf (a : Announcement Sig) (key : IdentityId) : Option Sig :=
  (a.cross_signatures.filter (fun s => s.key_id = some key)).getLast?.bind (·.signature)

/-- `set(by_key) == {old, new}`. -/
def Announcement.covers (a : Announcement Sig) (old new : IdentityId) : Bool :=
  a.cross_signatures.all (fun s => s.key_id = some old ∨ s.key_id = some new) ∧
    a.cross_signatures.any (fun s => s.key_id = some old) ∧
    a.cross_signatures.any (fun s => s.key_id = some new)

/-- `_verify_identity_rotation_against_pinned`. -/
def verifyIdentityRotationAgainstPinned (announcement : Announcement Sig) (old_identity_id : IdentityId)
    (now : Nat) : Except IdentityRotationCode (Card Sig) :=
  if announcement.rotation_version ≠ 1 then .error .bad_version
  else
    match announcement.new_card with
    | none => .error .bad_card
    | some new_card =>
      if !verifyCard verify new_card now then .error .bad_card
      else if old_identity_id = new_card.identity_id then .error .bad_identity
      else if announcement.cross_signatures.length ≠ 2 then .error .bad_signatures
      else if !announcement.covers old_identity_id new_card.identity_id then .error .bad_signatures
      else if [old_identity_id, new_card.identity_id].all (fun key =>
          (announcement.signatureOf key).any (verify key (.card new_card))) then
        .ok new_card
      else .error .bad_signatures

theorem verifyIdentityRotation_ok {a : Announcement Sig} {old : IdentityId} {now : Nat} {card : Card Sig}
    (h : verifyIdentityRotationAgainstPinned verify a old now = .ok card) :
    a.new_card = some card ∧ old ≠ card.identity_id ∧
      (∃ sig, verify old (.card card) sig = true) ∧
      (∃ sig, verify card.identity_id (.card card) sig = true) := by
  unfold verifyIdentityRotationAgainstPinned at h
  split at h
  · exact absurd h (by simp)
  · split at h
    · exact absurd h (by simp)
    · rename_i new_card hcard
      split_ifs at h with hbad hsame hlen hcovers hall
      obtain rfl := Except.ok.inj h
      obtain ⟨hold, hnew, -⟩ : (a.signatureOf old).any (verify old (.card new_card)) = true ∧
          (a.signatureOf new_card.identity_id).any (verify new_card.identity_id (.card new_card)) = true ∧
            True := by
        simpa using hall
      obtain ⟨sig, -, hsig⟩ := (Option.any_eq_true _ _).mp hold
      obtain ⟨sig', -, hsig'⟩ := (Option.any_eq_true _ _).mp hnew
      exact ⟨hcard, hsame, ⟨sig, hsig⟩, ⟨sig', hsig'⟩⟩

end verification

/-! ## The receiver -/

/-- A row of `relationships`. -/
structure PeerRow extends Store.Relationship where
  /-- `consent_state` is `revoked`. -/
  revoked : Bool := false
  peer_display_name : String := ""
  deriving DecidableEq, Repr

/-- The id of a row of `relationships`. -/
def PeerRow.id (row : PeerRow) : RelationshipId := row.relationship_id

/-- The id of a stored envelope. -/
def SealedEnvelope.id {Sig : Type} (e : SealedEnvelope Sig) : EventId := e.header.event_id

/-- The store of a receiver, with the events it accepted in their sealed form. -/
structure Receiver (Sig : Type) where
  relationships : Table PeerRow.id := Table.empty
  events : Table (@SealedEnvelope.id Sig) := Table.empty
  /-- The objects of version 0.1 that were accepted. -/
  legacy : List Nat := []
  /-- Ghost: the identities that each relationship pinned and since when, the
  latest first. -/
  pinned : RelationshipId → List (IdentityId × Nat) := fun _ => []

/-- An object on the relay. -/
inductive Object (Sig : Type) where
  | malformed
  /-- An object of version 0.1, which no identity signs. -/
  | legacy (id : Nat)
  | envelope (e : SealedEnvelope Sig)
  deriving DecidableEq, Repr

/-- What the checks between `_try_unseal` and the commit decide: the epoch, the
nonce, the time window and the quota. -/
inductive Gate where
  | passes
  | rejects
  | retries
  /-- The nonce is bound to the same bytes. -/
  | replayed
  deriving DecidableEq, Repr

/-- Where the process stops. -/
inductive Stop where
  | afterCommit
  | afterProjection
  deriving DecidableEq, Repr

/-- The choices of the environment in one receive. -/
structure Env where
  now : Nat
  /-- The clock of the identity update. -/
  applied_at : Nat
  /-- The drain of version 0.1 is open and the object verifies under the pair key. -/
  drains : Bool
  /-- One of the own keys opens the envelope. -/
  opens : Bool
  gate : Gate
  /-- The commit meets no conflict. -/
  commits : Bool
  /-- The projection does not reject the event. -/
  projects : Bool
  stops : Option Stop
  deriving DecidableEq, Repr

/-- How a receive ends. -/
inductive ReceiveOutcome where
  | accepted
  | quarantined
  | retry_pending
  | stopped
  deriving DecidableEq, Repr

section receive

variable {Sig : Type} [DecidableEq Sig] (verify : IdentityId → Message Sig → Sig → Bool)

/-- `_apply_identity_rotation`. -/
def applyIdentityRotation (s : Receiver Sig) (rid : RelationshipId) (announcement : Announcement Sig)
    (old_peer_id : IdentityId) (now : Nat) : Except IdentityRotationCode (Receiver Sig) :=
  match verifyIdentityRotationAgainstPinned verify announcement old_peer_id now with
  | .error code => .error code
  | .ok new_card =>
    match s.relationships.find rid with
    | none => .error .stale_announcement
    | some rel =>
      if rel.peer_identity_id = new_card.identity_id then .ok s
      else
        match rel.toRelationship.pin old_peer_id new_card.identity_id now with
        | none => .error .stale_announcement
        | some pinned =>
          .ok { s with
            relationships := s.relationships.upsert
              { rel with toRelationship := pinned, peer_display_name := new_card.display_name }
            pinned := Function.update s.pinned rid ((new_card.identity_id, now) :: s.pinned rid) }

/-- The identity update after an event, when the event announces one. -/
def applyAnnounced (s : Receiver Sig) (rid : RelationshipId) (e : SealedEnvelope Sig) (now : Nat) :
    Receiver Sig × ReceiveOutcome :=
  match e.body with
  | .identityRotated announcement =>
    match applyIdentityRotation verify s rid announcement e.header.sender now with
    | .ok s' => (s', .accepted)
    | .error _ => (s, .quarantined)
  | .other _ => (s, .accepted)

/-- The announcement of the event, if it is one, verifies before the commit. -/
def announcementOk (e : SealedEnvelope Sig) (now : Nat) : Bool :=
  match e.body with
  | .identityRotated announcement =>
    (verifyIdentityRotationAgainstPinned verify announcement e.header.sender now).isOk
  | .other _ => true

/-- `_receive_object` from the commit on. -/
def commitEnvelope (s : Receiver Sig) (rid : RelationshipId) (e : SealedEnvelope Sig) (env : Env) :
    Receiver Sig × ReceiveOutcome :=
  match s.events.insert e with
  | none => (s, .quarantined)
  | some events =>
    let s := { s with events }
    if env.stops = some .afterCommit then (s, .stopped)
    else if !env.projects then (s, .quarantined)
    else if env.stops = some .afterProjection then (s, .stopped)
    else applyAnnounced verify s rid e env.applied_at

/-- `_receive_object`.  `Relationship.admits` is its sender check. -/
def receiveObject (s : Receiver Sig) (rid : RelationshipId) (object : Object Sig) (env : Env) :
    Receiver Sig × ReceiveOutcome :=
  match s.relationships.find rid with
  | none => (s, .quarantined)
  | some rel =>
    if rel.revoked then (s, .quarantined)
    else
      match object with
      | .malformed => (s, .quarantined)
      | .legacy id =>
        if env.drains then ({ s with legacy := id :: s.legacy }, .accepted) else (s, .quarantined)
      | .envelope e =>
        if e.header.relationship_id ≠ rid then (s, .quarantined)
        else if !rel.toRelationship.admits e.header.sender env.now then (s, .quarantined)
        else
          match s.events.find e.header.event_id with
          | some stored =>
            if stored = e then applyAnnounced verify s rid stored env.applied_at
            else (s, .quarantined)
          | none =>
            if !env.opens || !verify e.header.sender e.message e.signature then (s, .quarantined)
            else
              match env.gate with
              | .rejects => (s, .quarantined)
              | .retries => (s, .retry_pending)
              | .replayed => (s, .accepted)
              | .passes =>
                if !announcementOk verify e env.now then (s, .quarantined)
                else if !env.commits then (s, .quarantined)
                else commitEnvelope verify s rid e env

/-- What happens to a receiver. -/
inductive ReceiverAct (Sig : Type) where
  | pair (relationship_id : RelationshipId) (peer_identity_id : IdentityId) (now : Nat)
  | revoke (relationship_id : RelationshipId)
  /-- The own side stores an event that it signed. -/
  | send (e : SealedEnvelope Sig)
  | receive (relationship_id : RelationshipId) (object : Object Sig) (env : Env)

/-- One step of the receiver. -/
def Receiver.step (s : Receiver Sig) : ReceiverAct Sig → Option (Receiver Sig)
  | .pair rid peer now =>
    (s.relationships.insert { relationship_id := rid, peer_identity_id := peer }).map fun t =>
      { s with relationships := t, pinned := Function.update s.pinned rid [(peer, now)] }
  | .revoke rid =>
    some { s with
      relationships := s.relationships.modify rid (fun row => { row with revoked := true })
        (fun _ => rfl) }
  | .send e =>
    if verify e.header.sender e.message e.signature then
      (s.events.insert e).map fun events => { s with events }
    else none
  | .receive rid object env => some (receiveObject verify s rid object env).1

/-- A receiver starts with an empty store. -/
def receiver : Machine (Receiver Sig) (ReceiverAct Sig) where
  init s := s = {}
  step := Receiver.step verify

/-! ## What one step does -/

/-- The update of the pin that a cross-signed card makes. -/
def Receiver.repin (s : Receiver Sig) (rid : RelationshipId) (rel : PeerRow) (card : Card Sig) (now : Nat) :
    Receiver Sig :=
  { s with
    relationships := s.relationships.upsert
      { rel with
        peer_identity_id := card.identity_id
        prior_peer_identity_id := some rel.peer_identity_id
        prior_identity_grace_until := some (now + PRIOR_IDENTITY_GRACE_SECONDS)
        peer_display_name := card.display_name }
    pinned := Function.update s.pinned rid ((card.identity_id, now) :: s.pinned rid) }

/-- The card of the announcement that the event carries. -/
def SealedEnvelope.announces (e : SealedEnvelope Sig) (card : Card Sig) : Prop :=
  ∃ a, e.body = .identityRotated a ∧ a.new_card = some card

omit [DecidableEq Sig] in
/-- The update after an event keeps the receiver, or it pins the card that the
event announces in place of the sender, and both of them signed the card. -/
theorem applyAnnounced_cases (s : Receiver Sig) (rid : RelationshipId) (e : SealedEnvelope Sig) (now : Nat) :
    (applyAnnounced verify s rid e now).1 = s ∨
      ∃ rel card, s.relationships.find rid = some rel ∧ e.announces card ∧
        rel.peer_identity_id = e.header.sender ∧ rel.peer_identity_id ≠ card.identity_id ∧
        (∃ sig, verify rel.peer_identity_id (.card card) sig = true) ∧
        (∃ sig, verify card.identity_id (.card card) sig = true) ∧
        (applyAnnounced verify s rid e now).1 = s.repin rid rel card now := by
  unfold applyAnnounced
  split
  · rename_i announcement hbody
    unfold applyIdentityRotation
    split
    · rename_i s' happly
      split at happly
      · exact absurd happly (by simp)
      · rename_i card hcard
        obtain ⟨hannounced, -, hold, hnew⟩ := verifyIdentityRotation_ok verify hcard
        split at happly
        · exact absurd happly (by simp)
        · rename_i rel hrel
          by_cases hsame : rel.peer_identity_id = card.identity_id
          · rw [if_pos hsame] at happly
            exact Or.inl (Except.ok.inj happly).symm
          · rw [if_neg hsame] at happly
            by_cases hstale : rel.peer_identity_id = e.header.sender
            · refine Or.inr ⟨rel, card, hrel, ⟨announcement, hbody, hannounced⟩, hstale, hsame, ?_, hnew, ?_⟩
              · rw [hstale]
                exact hold
              · have hpin : rel.toRelationship.pin e.header.sender card.identity_id now =
                    some { rel.toRelationship with
                      peer_identity_id := card.identity_id
                      prior_peer_identity_id := some e.header.sender
                      prior_identity_grace_until := some (now + PRIOR_IDENTITY_GRACE_SECONDS) } := by
                  unfold Relationship.pin
                  rw [if_neg hsame, if_neg (not_not.mpr hstale)]
                rw [hpin] at happly
                rw [← Except.ok.inj happly, ← hstale]
                rfl
            · have hpin : rel.toRelationship.pin e.header.sender card.identity_id now = none := by
                unfold Relationship.pin
                rw [if_neg hsame, if_pos hstale]
              rw [hpin] at happly
              exact absurd happly (by simp)
    · exact Or.inl rfl
  · exact Or.inl rfl

/-- The sender check of the receive: the relationship exists and its row admits
the sender. -/
def Receiver.Admits (s : Receiver Sig) (rid : RelationshipId) (sender : IdentityId) (now : Nat) : Prop :=
  ∃ rel, s.relationships.find rid = some rel ∧ rel.toRelationship.admits sender now = true

/-- A receive changes nothing and does not accept, or it takes an object of
version 0.1, or it is about an envelope of an admitted sender.  The envelope is
stored then or its signature was checked, and the update after the event may
follow. -/
theorem receiveObject_cases (s : Receiver Sig) (rid : RelationshipId) (object : Object Sig) (env : Env) :
    ((receiveObject verify s rid object env).1 = s ∧
        (receiveObject verify s rid object env).2 ≠ .accepted) ∨
      (∃ id, object = .legacy id ∧
        (receiveObject verify s rid object env).1 = { s with legacy := id :: s.legacy }) ∨
      ∃ e events, object = .envelope e ∧ s.Admits rid e.header.sender env.now ∧
        (verify e.header.sender e.message e.signature = true ∨
          s.events.find e.header.event_id = some e) ∧
        (events = s.events ∨
          verify e.header.sender e.message e.signature = true ∧ s.events.insert e = some events) ∧
        ((receiveObject verify s rid object env).1 = { s with events } ∨
          receiveObject verify s rid object env =
            applyAnnounced verify { s with events } rid e env.applied_at) := by
  unfold receiveObject
  cases hrel : s.relationships.find rid with
  | none => exact Or.inl ⟨rfl, by simp⟩
  | some rel =>
    dsimp only
    cases hrevoked : rel.revoked with
    | true => exact Or.inl ⟨rfl, by simp⟩
    | false =>
      rw [if_neg Bool.false_ne_true]
      cases object with
      | malformed => exact Or.inl ⟨rfl, by simp⟩
      | legacy id =>
        dsimp only
        cases env.drains with
        | true => exact Or.inr (Or.inl ⟨id, rfl, rfl⟩)
        | false => exact Or.inl ⟨rfl, by simp⟩
      | envelope e =>
        dsimp only
        by_cases hrid : e.header.relationship_id ≠ rid
        · rw [if_pos hrid]
          exact Or.inl ⟨rfl, by simp⟩
        rw [if_neg hrid]
        cases hadmits : rel.toRelationship.admits e.header.sender env.now with
        | false => exact Or.inl ⟨rfl, by simp⟩
        | true =>
          have hadm : s.Admits rid e.header.sender env.now := ⟨rel, hrel, hadmits⟩
          rw [if_neg (by simp)]
          cases hfind : s.events.find e.header.event_id with
          | some stored =>
            dsimp only
            split_ifs with heq
            · subst heq
              exact Or.inr (Or.inr ⟨stored, s.events, rfl, hadm, Or.inr hfind, Or.inl rfl, Or.inr rfl⟩)
            · exact Or.inl ⟨rfl, by simp⟩
          | none =>
            dsimp only
            cases hverify : verify e.header.sender e.message e.signature with
            | false =>
              rw [if_pos (by simp)]
              exact Or.inl ⟨rfl, by simp⟩
            | true =>
              by_cases hopens : (!env.opens || !true) = true
              · rw [if_pos hopens]
                exact Or.inl ⟨rfl, by simp⟩
              rw [if_neg hopens]
              cases env.gate with
              | rejects => exact Or.inl ⟨rfl, by simp⟩
              | retries => exact Or.inl ⟨rfl, by simp⟩
              | replayed =>
                exact Or.inr (Or.inr ⟨e, s.events, rfl, hadm, Or.inl hverify, Or.inl rfl, Or.inl rfl⟩)
              | passes =>
                dsimp only
                by_cases hannounce : (!announcementOk verify e env.now) = true
                · rw [if_pos hannounce]
                  exact Or.inl ⟨rfl, by simp⟩
                by_cases hcommits : (!env.commits) = true
                · rw [if_neg hannounce, if_pos hcommits]
                  exact Or.inl ⟨rfl, by simp⟩
                rw [if_neg hannounce, if_neg hcommits]
                unfold commitEnvelope
                cases hinsert : s.events.insert e with
                | none => exact Or.inl ⟨rfl, by simp⟩
                | some events =>
                  refine Or.inr (Or.inr ⟨e, events, rfl, hadm, Or.inl hverify, Or.inr ⟨hverify, hinsert⟩, ?_⟩)
                  dsimp only
                  split_ifs with hstop hprojects hlater
                  · exact Or.inl rfl
                  · exact Or.inl rfl
                  · exact Or.inl rfl
                  · exact Or.inr rfl

/-! ## The invariant -/

/-- The row of a relationship repeats the latest part of its history: the pin,
the identity before it and the end of the grace window. -/
structure PeerRow.Follows (row : PeerRow) (history : List (IdentityId × Nat)) : Prop where
  peer : row.peer_identity_id ∈ history.head?.map Prod.fst
  prior : row.prior_peer_identity_id = history.tail.head?.map Prod.fst
  grace : row.prior_identity_grace_until =
    if history.tail = [] then none else history.head?.map (·.2 + PRIOR_IDENTITY_GRACE_SECONDS)

/-- The stored events carry their signatures and the rows follow the history. -/
structure Receiver.Attributed (s : Receiver Sig) : Prop where
  signed : ∀ id e, s.events.find id = some e → verify e.header.sender e.message e.signature = true
  follows : ∀ rid row, s.relationships.find rid = some row → row.Follows (s.pinned rid)

variable {verify}

omit [DecidableEq Sig] in
theorem Receiver.Attributed.repin {s : Receiver Sig} (h : s.Attributed verify) {rid : RelationshipId}
    {rel : PeerRow} (hrel : s.relationships.find rid = some rel) (card : Card Sig) (now : Nat) :
    (s.repin rid rel card now).Attributed verify := by
  have hid : rel.id = rid := Table.key_of_find hrel
  refine ⟨h.signed, fun rid' row hrow => ?_⟩
  have hfind := hrow
  unfold Receiver.repin at hfind ⊢
  dsimp only at hfind ⊢
  rw [Table.find_upsert] at hfind
  by_cases hkey : rid' = rid
  · subst hkey
    rw [if_pos (by exact hid.symm)] at hfind
    obtain rfl := Option.some.inj hfind
    rw [Function.update_self]
    have hpeer := (h.follows _ _ hrel).peer
    cases hhist : s.pinned rid' with
    | nil =>
      rw [hhist] at hpeer
      exact absurd hpeer (by simp)
    | cons first rest =>
      rw [hhist] at hpeer
      have hfirst : first.1 = rel.peer_identity_id := by simpa using hpeer
      exact ⟨by simp, by simp [hfirst], by simp⟩
  · rw [if_neg (by exact fun heq => hkey (Eq.trans heq hid))] at hfind
    rw [Function.update_of_ne hkey]
    exact h.follows rid' row hfind

theorem Receiver.Attributed.receive {s : Receiver Sig} (h : s.Attributed verify) (rid : RelationshipId)
    (object : Object Sig) (env : Env) : (receiveObject verify s rid object env).1.Attributed verify := by
  have hstored : ∀ (e : SealedEnvelope Sig) events, (events = s.events ∨
      verify e.header.sender e.message e.signature = true ∧ s.events.insert e = some events) →
        Receiver.Attributed verify { s with events } := by
    rintro e events (rfl | ⟨hverify, hinsert⟩)
    · exact h
    · refine ⟨fun id e' hfind => ?_, h.follows⟩
      rw [Table.find_of_insert hinsert] at hfind
      split_ifs at hfind with hid
      · exact Option.some.inj hfind ▸ hverify
      · exact h.signed id e' hfind
  obtain ⟨hsame, -⟩ | ⟨id, -, hlegacy⟩ | ⟨e, events, -, -, -, hevents, hend⟩ :=
    receiveObject_cases verify s rid object env
  · rw [hsame]
    exact h
  · rw [hlegacy]
    exact ⟨h.signed, h.follows⟩
  · have hs := hstored e events hevents
    obtain hend | hend := hend
    · rw [hend]
      exact hs
    · rw [hend]
      obtain happly | ⟨rel, card, hrel, -, -, -, -, -, happly⟩ :=
        applyAnnounced_cases verify { s with events } rid e env.applied_at
      · rw [happly]
        exact hs
      · rw [happly]
        exact hs.repin hrel card env.applied_at

theorem Receiver.Attributed.step {s t : Receiver Sig} (h : s.Attributed verify) (act : ReceiverAct Sig)
    (hst : s.step verify act = some t) : t.Attributed verify := by
  cases act with
  | pair rid peer now =>
    obtain ⟨relationships, hinsert, rfl⟩ := Option.map_eq_some_iff.mp hst
    refine ⟨h.signed, fun rid' row hrow => ?_⟩
    dsimp only at hrow ⊢
    rw [Table.find_of_insert hinsert] at hrow
    by_cases hkey : rid' = rid
    · subst hkey
      rw [if_pos (by exact rfl)] at hrow
      obtain rfl := Option.some.inj hrow
      rw [Function.update_self]
      exact ⟨by simp, rfl, rfl⟩
    · rw [if_neg (by exact hkey)] at hrow
      rw [Function.update_of_ne hkey]
      exact h.follows rid' row hrow
  | revoke rid =>
    obtain rfl := Option.some.inj hst
    refine ⟨h.signed, fun rid' row hrow => ?_⟩
    have hfind := (Table.find_modify s.relationships rid rid' (fun row => { row with revoked := true })
      (fun _ => rfl)).symm.trans hrow
    split_ifs at hfind with hkey
    · obtain ⟨old, hold, rfl⟩ := Option.map_eq_some_iff.mp hfind
      obtain ⟨hpeer, hprior, hgrace⟩ := h.follows rid' old (hkey ▸ hold)
      exact ⟨hpeer, hprior, hgrace⟩
    · exact h.follows rid' row hfind
  | send e =>
    simp only [Receiver.step] at hst
    split_ifs at hst with hverify
    obtain ⟨events, hinsert, rfl⟩ := Option.map_eq_some_iff.mp hst
    refine ⟨fun id e' hfind => ?_, h.follows⟩
    dsimp only at hfind
    rw [Table.find_of_insert hinsert] at hfind
    split_ifs at hfind with hid
    · exact Option.some.inj hfind ▸ hverify
    · exact h.signed id e' hfind
  | receive rid object env =>
    obtain rfl := Option.some.inj hst
    exact h.receive rid object env

theorem Receiver.Attributed.of_reachable {s : Receiver Sig} (h : (receiver verify).Reachable s) :
    s.Attributed verify := by
  refine h.invariant ?_ (fun s act t hs _ hst => hs.step act hst)
  rintro s rfl
  exact ⟨fun id e hfind => by simp at hfind, fun rid row hrow => by simp at hrow⟩

/-! ## The pinning chain -/

/-- `sender` is the identity that the history of the relationship ends with, or
the one before it within the grace window of the change. -/
def Receiver.Trusts (s : Receiver Sig) (rid : RelationshipId) (sender : IdentityId) (now : Nat) : Prop :=
  (∃ since earlier, s.pinned rid = (sender, since) :: earlier) ∨
    ∃ peer since was earlier, s.pinned rid = (peer, since) :: (sender, was) :: earlier ∧
      now ≤ since + PRIOR_IDENTITY_GRACE_SECONDS

omit [DecidableEq Sig] in
theorem Receiver.Attributed.trusts {s : Receiver Sig} (h : s.Attributed verify) {rid : RelationshipId}
    {sender : IdentityId} {now : Nat} (hadmits : s.Admits rid sender now) : s.Trusts rid sender now := by
  obtain ⟨rel, hrel, hsender⟩ := hadmits
  obtain ⟨hpeer, hprior, hgrace⟩ := h.follows rid rel hrel
  unfold Receiver.Trusts
  cases hhist : s.pinned rid with
  | nil =>
    rw [hhist] at hpeer
    exact absurd hpeer (by simp)
  | cons first rest =>
    obtain ⟨peer, since⟩ := first
    rw [hhist] at hpeer hprior hgrace
    have hfirst : peer = rel.peer_identity_id := by simpa using hpeer
    have hor : sender = rel.peer_identity_id ∨ (rel.prior_peer_identity_id = some sender ∧
        rel.prior_identity_grace_until.any (now ≤ ·) = true) := by
      simpa [Store.Relationship.admits] using hsender
    obtain rfl | ⟨hprior', hwithin⟩ := hor
    · exact Or.inl ⟨since, rest, by rw [hfirst]⟩
    · cases rest with
      | nil =>
        rw [hprior'] at hprior
        exact absurd hprior (by simp)
      | cons second earlier =>
        obtain ⟨prior, was⟩ := second
        have hsecond : sender = prior := by simpa [hprior'] using hprior
        refine Or.inr ⟨peer, since, was, earlier, by rw [hsecond], ?_⟩
        simpa [hgrace] using hwithin

/-- One step keeps the pin of a relationship, or it receives an event that
announces the new identity, and the identity that was pinned and the new one have
both signed the card. -/
def PinStep (signed : IdentityId → Message Sig → Prop) (s t : Receiver Sig) (act : ReceiverAct Sig) : Prop :=
  ∀ rid rel, s.relationships.find rid = some rel →
    ∃ rel', t.relationships.find rid = some rel' ∧
      ((rel'.peer_identity_id = rel.peer_identity_id ∧
          rel'.prior_peer_identity_id = rel.prior_peer_identity_id ∧
          rel'.prior_identity_grace_until = rel.prior_identity_grace_until ∧
          t.pinned rid = s.pinned rid) ∨
        ∃ e env card, act = .receive rid (.envelope e) env ∧ e.announces card ∧
          rel.peer_identity_id ≠ card.identity_id ∧ rel'.peer_identity_id = card.identity_id ∧
          rel'.prior_peer_identity_id = some rel.peer_identity_id ∧
          rel'.prior_identity_grace_until = some (env.applied_at + PRIOR_IDENTITY_GRACE_SECONDS) ∧
          t.pinned rid = (card.identity_id, env.applied_at) :: s.pinned rid ∧
          signed rel.peer_identity_id (.card card) ∧ signed card.identity_id (.card card))

omit [DecidableEq Sig] in
theorem pinStep_applyAnnounced {signed : IdentityId → Message Sig → Prop}
    (unforgeable : ∀ key message sig, verify key message sig = true → signed key message)
    (s : Receiver Sig) (events : Table (@SealedEnvelope.id Sig)) (rid : RelationshipId)
    (e : SealedEnvelope Sig) (env : Env) :
    PinStep signed s (applyAnnounced verify { s with events } rid e env.applied_at).1
      (.receive rid (.envelope e) env) := by
  intro rid' rel hrel
  obtain happly | ⟨row, card, hrow, hannounces, -, hne, ⟨sig, hold⟩, ⟨sig', hnew⟩, happly⟩ :=
    applyAnnounced_cases verify { s with events } rid e env.applied_at
  · rw [happly]
    exact ⟨rel, hrel, Or.inl ⟨rfl, rfl, rfl, rfl⟩⟩
  · have hid : row.id = rid := Table.key_of_find hrow
    rw [happly]
    unfold Receiver.repin
    dsimp only
    rw [Table.find_upsert]
    by_cases hkey : rid' = rid
    · subst hkey
      obtain rfl := Option.some.inj (hrow.symm.trans hrel)
      rw [if_pos (by exact hid.symm), Function.update_self]
      refine ⟨_, rfl, Or.inr ⟨e, env, card, rfl, hannounces, hne, rfl, rfl, rfl, rfl, ?_, ?_⟩⟩
      · exact unforgeable _ _ _ hold
      · exact unforgeable _ _ _ hnew
    · rw [if_neg (by exact fun heq => hkey (Eq.trans heq hid)), Function.update_of_ne hkey]
      exact ⟨rel, hrel, Or.inl ⟨rfl, rfl, rfl, rfl⟩⟩

theorem pinStep_step {signed : IdentityId → Message Sig → Prop}
    (unforgeable : ∀ key message sig, verify key message sig = true → signed key message)
    {s t : Receiver Sig} {act : ReceiverAct Sig} (hst : s.step verify act = some t) :
    PinStep signed s t act := by
  cases act with
  | pair rid peer now =>
    intro rid' rel hrel
    obtain ⟨relationships, hinsert, rfl⟩ := Option.map_eq_some_iff.mp hst
    have hnew : s.relationships.find rid = none := (Table.insert_eq_some hinsert).1
    have hkey : rid' ≠ rid := by
      rintro rfl
      exact absurd (hnew.symm.trans hrel) (by simp)
    dsimp only
    rw [Table.find_of_insert hinsert, if_neg (by exact hkey), Function.update_of_ne hkey]
    exact ⟨rel, hrel, Or.inl ⟨rfl, rfl, rfl, rfl⟩⟩
  | revoke rid =>
    intro rid' rel hrel
    obtain rfl := Option.some.inj hst
    have hfind := Table.find_modify s.relationships rid rid' (fun row => { row with revoked := true })
      (fun _ => rfl)
    by_cases hkey : rid' = rid
    · subst hkey
      rw [if_pos rfl, hrel] at hfind
      exact ⟨_, hfind, Or.inl ⟨rfl, rfl, rfl, rfl⟩⟩
    · rw [if_neg hkey, hrel] at hfind
      exact ⟨_, hfind, Or.inl ⟨rfl, rfl, rfl, rfl⟩⟩
  | send e =>
    intro rid' rel hrel
    simp only [Receiver.step] at hst
    split_ifs at hst with hverify
    obtain ⟨events, -, rfl⟩ := Option.map_eq_some_iff.mp hst
    exact ⟨rel, hrel, Or.inl ⟨rfl, rfl, rfl, rfl⟩⟩
  | receive rid object env =>
    obtain rfl := Option.some.inj hst
    obtain ⟨hsame, -⟩ | ⟨id, -, hlegacy⟩ | ⟨e, events, rfl, -, -, -, hend⟩ :=
      receiveObject_cases verify s rid object env
    · rw [hsame]
      exact fun rid' rel hrel => ⟨rel, hrel, Or.inl ⟨rfl, rfl, rfl, rfl⟩⟩
    · rw [hlegacy]
      exact fun rid' rel hrel => ⟨rel, hrel, Or.inl ⟨rfl, rfl, rfl, rfl⟩⟩
    · obtain hend | hend := hend
      · rw [hend]
        exact fun rid' rel hrel => ⟨rel, hrel, Or.inl ⟨rfl, rfl, rfl, rfl⟩⟩
      · rw [hend]
        exact pinStep_applyAnnounced unforgeable s events rid e env

theorem receive_trusted {signed : IdentityId → Message Sig → Prop}
    (unforgeable : ∀ key message sig, verify key message sig = true → signed key message)
    {s : Receiver Sig} (h : s.Attributed verify) {rid : RelationshipId} {e : SealedEnvelope Sig} {env : Env}
    (htaken : (receiveObject verify s rid (.envelope e) env).2 = .accepted ∨
      (receiveObject verify s rid (.envelope e) env).1 ≠ s) :
    signed e.header.sender e.message ∧ s.Trusts rid e.header.sender env.now := by
  obtain ⟨hsame, hnot⟩ | ⟨id, hlegacy, -⟩ | ⟨e', events, he, hadmits, hsigned, -, -⟩ :=
    receiveObject_cases verify s rid (.envelope e) env
  · obtain haccepted | hchanged := htaken
    · exact absurd haccepted hnot
    · exact absurd hsame hchanged
  · exact absurd hlegacy (by simp)
  · obtain rfl := Object.envelope.inj he
    refine ⟨?_, h.trusts hadmits⟩
    obtain hverify | hstored := hsigned
    · exact unforgeable _ _ _ hverify
    · exact unforgeable _ _ _ (h.signed _ _ hstored)

theorem receive_pinned_again {s : Receiver Sig} {rid : RelationshipId} {rel : PeerRow} {e : SealedEnvelope Sig}
    {card : Card Sig} (hrel : s.relationships.find rid = some rel) (he : e.announces card)
    (hpinned : card.identity_id = rel.peer_identity_id) (env : Env) :
    (receiveObject verify s rid (.envelope e) env).1.relationships = s.relationships ∧
      (receiveObject verify s rid (.envelope e) env).1.pinned = s.pinned := by
  obtain ⟨hsame, -⟩ | ⟨id, hlegacy, -⟩ | ⟨e', events, he', -, -, -, hend⟩ :=
    receiveObject_cases verify s rid (.envelope e) env
  · rw [hsame]
    exact ⟨rfl, rfl⟩
  · exact absurd hlegacy (by simp)
  · obtain rfl := Object.envelope.inj he'
    obtain hend | hend := hend
    · rw [hend]
      exact ⟨rfl, rfl⟩
    · rw [hend]
      obtain happly | ⟨row, card', hrow, hannounces, -, hne, -, -, -⟩ :=
        applyAnnounced_cases verify { s with events } rid e env.applied_at
      · rw [happly]
        exact ⟨rfl, rfl⟩
      · obtain ⟨a, ha, hcard⟩ := he
        obtain ⟨a', ha', hcard'⟩ := hannounces
        obtain rfl := Body.identityRotated.inj (ha.symm.trans ha')
        obtain rfl := Option.some.inj (hcard.symm.trans hcard')
        obtain rfl := Option.some.inj (hrow.symm.trans hrel)
        exact absurd hpinned.symm hne

/-- **The pinning chain.**  When a signature verifies only if the holder of the key
made it, then in every run

* a step keeps the pin, the retired identity and the deadline of every
  relationship, or it receives an announcement that the pinned identity and the
  new one both signed;
* an envelope that is accepted or that changes the store is signed by its sender,
  and the sender is the pinned identity or the one before it, in its grace window;
* an announcement of the identity that is pinned changes no relationship. -/
theorem identity_pinning {signed : IdentityId → Message Sig → Prop}
    (unforgeable : ∀ key message sig, verify key message sig = true → signed key message)
    {s : Receiver Sig} (hs : (receiver verify).Reachable s) :
    (∀ act t, (receiver verify).step s act = some t → PinStep signed s t act) ∧
    (∀ rid e env, ((receiveObject verify s rid (.envelope e) env).2 = .accepted ∨
        (receiveObject verify s rid (.envelope e) env).1 ≠ s) →
      signed e.header.sender e.message ∧ s.Trusts rid e.header.sender env.now) ∧
    (∀ rid rel e card env, s.relationships.find rid = some rel → e.announces card →
        card.identity_id = rel.peer_identity_id →
      (receiveObject verify s rid (.envelope e) env).1.relationships = s.relationships ∧
        (receiveObject verify s rid (.envelope e) env).1.pinned = s.pinned) := by
  have hattributed := Receiver.Attributed.of_reachable hs
  refine ⟨fun act t hst => pinStep_step unforgeable hst, fun rid e env htaken => ?_,
    fun rid rel e card env hrel he hpinned => ?_⟩
  · exact receive_trusted unforgeable hattributed htaken
  · exact receive_pinned_again hrel he hpinned env

end receive

/-- A scheme in which a key signs with its own name and the key 0 is not held by
anybody. -/
def verifyNamed (key : IdentityId) (_ : Message IdentityId) (sig : IdentityId) : Bool :=
  sig = key ∧ key ≠ 0

/-- The card of the identity 8. -/
def movedCard : Card IdentityId :=
  { card_version := 1, identity_id := 8, display_name := "peer", principal_label := "principal",
    bootstrap_agreement_key := ⟨⟨80⟩⟩, capabilities := [], issued_at := 0, expires_at := 1000,
    card_nonce := 1, signature := 8 }

/-- The identity 7 announces the identity 8. -/
def moved : SealedEnvelope IdentityId :=
  { header := { event_id := 1, relationship_id := 1, sender := 7 }
    body := .identityRotated
      { rotation_version := 1, new_card := some movedCard,
        cross_signatures :=
          [{ key_id := some 7, signature := some 7 }, { key_id := some 8, signature := some 8 }] }
    signature := 7 }

/-- A receive in which no check of the environment fails. -/
def clear (now : Nat) : Env :=
  { now, applied_at := now, drains := false, opens := true, gate := .passes, commits := true,
    projects := true, stops := none }

/-- The receiver takes the announcement twice. -/
def movedTwice : List (ReceiverAct IdentityId) :=
  [.pair 1 7 0, .receive 1 (.envelope moved) (clear 10), .receive 1 (.envelope moved) (clear 20)]

theorem identity_pinning_moved : ∃ s, (receiver verifyNamed).run {} movedTwice = some s ∧
    s.pinned 1 = [(8, 10), (7, 0)] ∧
    ∀ rid e env, ((receiveObject verifyNamed s rid (.envelope e) env).2 = .accepted ∨
        (receiveObject verifyNamed s rid (.envelope e) env).1 ≠ s) →
      e.header.sender ≠ 0 ∧ s.Trusts rid e.header.sender env.now := by
  obtain ⟨s, hrun⟩ : ∃ s, (receiver verifyNamed).run {} movedTwice = some s := ⟨_, rfl⟩
  have hpinned : ((receiver verifyNamed).run {} movedTwice).map (·.pinned 1) = some [(8, 10), (7, 0)] := by
    decide +kernel
  rw [hrun] at hpinned
  refine ⟨s, hrun, Option.some.inj hpinned, ?_⟩
  have unforgeable : ∀ key (message : Message IdentityId) sig, verifyNamed key message sig = true →
      (fun key (_ : Message IdentityId) => key ≠ 0) key message := by
    intro key message sig h
    exact (of_decide_eq_true h).2
  exact (identity_pinning unforgeable (Machine.reachable_of_run rfl hrun)).2.1

end MuseAgentSocial.Cli.Pinning
