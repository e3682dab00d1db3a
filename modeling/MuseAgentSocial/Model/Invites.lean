import Mathlib.Data.List.Infix
import MuseAgentSocial.Cli.Identity
import MuseAgentSocial.Lib.Process

/-!
# Invites

The pairing ceremony of `model/invites.py`, over any signature scheme.

* The documents: invites, acceptances and commits, and what a key signs of them.
* The checks that need no database.
* The transactions, each an atomic step on a `PairingStore`.
* The methods, each a `Process` of its transactions.

Identifiers are lowercase canonical UUIDs, and keys in multibase form parse.
Digests are terms, so two of them are equal only for the same document.
-/

namespace MuseAgentSocial.Invites

open Model Crypto
open Cli.Pinning (Card)

/-! ## Documents -/

/-- `invite_id`. -/
abbrev InviteId := Nat

/-- `requested_policy`, which carries only `accepted_receipts`. -/
structure RequestedPolicy where
  accepted_receipts : Option Bool
  deriving DecidableEq, Repr

/-- An invite without its signature. -/
structure InviteBody (Sig : Type) where
  invite_version : Nat
  invite_id : InviteId
  inviter_card : Card Sig
  ephemeral_agreement_key : AgreementKey
  requested_capabilities : List String
  requested_policy : RequestedPolicy
  issued_at : Nat
  expires_at : Nat
  deriving DecidableEq, Repr

/-- A signed invite. -/
structure Invite (Sig : Type) extends InviteBody Sig where
  signature : Sig
  deriving DecidableEq, Repr

/-- The SHA-256 digest of an invite. -/
structure InviteHash (Sig : Type) where
  digest : Invite Sig
  deriving DecidableEq, Repr

/-- `_invite_hash`. -/
def inviteHash {Sig : Type} (invite : Invite Sig) : InviteHash Sig := ⟨invite⟩

/-- The SHA-256 digest of a card. -/
structure CardFingerprint (Sig : Type) where
  digest : Card Sig
  deriving DecidableEq, Repr

/-- `card_fingerprint`. -/
def cardFingerprint {Sig : Type} (card : Card Sig) : CardFingerprint Sig := ⟨card⟩

/-- An acceptance without its signature. -/
structure AcceptanceBody (Sig : Type) where
  acceptance_version : Nat
  invite_id : InviteId
  invite_hash : InviteHash Sig
  acceptor_card : Card Sig
  relationship_agreement_key : AgreementKey
  deploy_public_key : String
  accepted_at : Nat
  deriving DecidableEq, Repr

/-- A signed acceptance. -/
structure Acceptance (Sig : Type) extends AcceptanceBody Sig where
  signature : Sig
  deriving DecidableEq, Repr

/-- The slots of the relay. -/
structure Slots where
  inviter_send_slot : String
  inviter_receive_slot : String
  deriving DecidableEq, Repr

/-- A commit without its signature. -/
structure CommitBody where
  commit_version : Nat
  relationship_id : RelationshipId
  invite_id : InviteId
  repository_url : String
  slots : Slots
  negotiated_capabilities : List String
  initial_key_epochs : List (Nat × AgreementKey)
  committed_at : Nat
  deriving DecidableEq, Repr

/-- A signed commit. -/
structure Commit (Sig : Type) extends CommitBody where
  signature : Sig
  deriving DecidableEq, Repr

/-- The canonical bytes that an identity key signs. -/
inductive Document (Sig : Type) where
  | identity (message : Cli.Pinning.Message Sig)
  | invite (body : InviteBody Sig)
  | acceptance (body : AcceptanceBody Sig)
  | commit (body : CommitBody)
  deriving DecidableEq, Repr

/-- The Ed25519 signatures of the ceremony. -/
structure Scheme (Key Sig : Type) where
  /-- `identity_id_from_pubkey` of the public half. -/
  identity : Key → IdentityId
  sign : Key → Document Sig → Sig
  verify : IdentityId → Document Sig → Sig → Bool

/-! ## Constants and errors -/

def INVITE_VERSION : Nat := 1

def ACCEPTANCE_VERSION : Nat := 1

def COMMIT_VERSION : Nat := 1

/-- `INVITE_LIFETIME`, in seconds. -/
def INVITE_LIFETIME : Nat := 15 * 60

/-- `MAX_CLOCK_SKEW`, in seconds. -/
def MAX_CLOCK_SKEW : Nat := 5 * 60

/-- The codes of `PairingError`. -/
inductive PairingCode where
  | card_invalid
  | card_key_mismatch
  | bad_capability
  | bad_signature
  | lifetime_exceeded
  | clock_skew
  | expired
  | unknown_invite
  | already_used
  | already_committed
  | private_key_material
  | bad_deploy_key
  | altered_card
  | phrase_mismatch
  | no_phrase_displayed
  | phrase_record_mismatch
  | key_destruction_failed
  | bad_slots
  | bad_relay_url
  | invite_not_issued
  | invite_not_accepted
  | invite_hash_mismatch
  | unverified
  | acceptor_card_changed
  | inviter_card_changed
  | accepted_before_issued
  | deploy_key_reused
  | unsupported_capability
  | malformed_commit
  | invite_mismatch
  | duplicate_relationship
  deriving DecidableEq, Repr

/-- What a method raises. -/
inductive Raised where
  | pairing (code : PairingCode)
  /-- `_BurnAndAbort`. -/
  | burn_and_abort (code : PairingCode)
  /-- The `ValidationError` of a schema. -/
  | validation_error
  | file_exists
  | integrity_error
  /-- An error of the file system or of the database. -/
  | storage_error
  deriving DecidableEq, Repr

/-- The first check that fails raises. -/
def demand (checks : List (Bool × Raised)) : Except Raised Unit :=
  match checks.find? (fun c => !c.1) with
  | none => .ok ()
  | some c => .error c.2

theorem demand_ok {checks : List (Bool × Raised)} :
    demand checks = .ok () ↔ ∀ c ∈ checks, c.1 = true := by
  unfold demand
  cases hfind : checks.find? (fun c => !c.1) with
  | none =>
    have hall := List.find?_eq_none.mp hfind
    simpa using hall
  | some c =>
    have hmem := List.mem_of_find?_eq_some hfind
    have hfail : c.1 = false := by simpa using List.find?_some hfind
    simp only [reduceCtorEq, false_iff, not_forall]
    exact ⟨c, hmem, by simp [hfail]⟩

/-! ## Checks without a database -/

/-- `normalize_capabilities`: the sorted list, `none` for a `ValueError`. -/
def normalizeCapabilities (capabilities : List String) : Option (List String) :=
  if capabilities.all (fun c => c.toList.all (fun ch => ch.val < 128) ∧
        c.length ≤ Cli.Pinning.MAX_CAPABILITY_BYTES) ∧
      capabilities.length ≤ Cli.Pinning.MAX_CAPABILITIES ∧ capabilities.Nodup then
    some (capabilities.insertionSort (· ≤ ·))
  else none

/-- The schema of a list of capabilities. -/
def capabilitiesSchema (capabilities : List String) : Bool :=
  capabilities.length ≤ 64 ∧ capabilities.Nodup ∧
    capabilities.all (fun c => c ≠ "" ∧ c.length ≤ 64 ∧
      c.toList.all (fun ch => 0x20 ≤ ch.val ∧ ch.val ≤ 0x7e))

section documents

variable {Key Sig : Type}

/-- `agent-card.schema.json`. -/
def cardSchema (card : Card Sig) : Bool :=
  card.card_version = 1 ∧ capabilitiesSchema card.capabilities ∧ card.capabilities ≠ [] ∧
    card.display_name ≠ "" ∧ card.display_name.length ≤ 64 ∧
    card.principal_label ≠ "" ∧ card.principal_label.length ≤ 64

/-- `invite.schema.json`. -/
def inviteSchema (invite : Invite Sig) : Bool :=
  invite.invite_version = INVITE_VERSION ∧ cardSchema invite.inviter_card ∧
    capabilitiesSchema invite.requested_capabilities

/-- The key types of `_SSH_PUBKEY_RE`. -/
def sshKeyTypes : List String :=
  ["ssh-ed25519", "ssh-rsa", "ssh-dss", "ecdsa-sha2-nistp256", "ecdsa-sha2-nistp384",
    "ecdsa-sha2-nistp521", "sk-ssh-ed25519@openssh.com", "sk-ecdsa-sha2-nistp256@openssh.com"]

/-- `[A-Za-z0-9+/=]`. -/
def isBase64 (ch : Char) : Bool := ch.isAlphanum || ch = '+' || ch = '/' || ch = '='

/-- `( .*)?$`: nothing or a comment, and then the end or a newline at the end. -/
def isKeyComment : List Char → Bool
  | [] => true
  | ['\n'] => true
  | ' ' :: comment => comment.dropLast.all (· ≠ '\n')
  | _ => false

/-- `_SSH_PUBKEY_RE.match`. -/
def isSshPublicKey (key : String) : Bool :=
  let (type, rest) := key.toList.span (· ≠ ' ')
  let (base64, comment) := (rest.drop 1).span isBase64
  String.ofList type ∈ sshKeyTypes ∧ rest ≠ [] ∧ base64 ≠ [] ∧ isKeyComment comment

/-- `_reject_private_material` lets the text pass. -/
def isPublicMaterial (text : String) : Bool :=
  ¬ "PRIVATE KEY".toList <:+: text.toList ∧ ¬ "openssh-key-v1".toList <:+: text.toList ∧
    ¬ "-----BEGIN".toList <+: text.toList.dropWhile Char.isWhitespace

/-- `invite-acceptance.schema.json`. -/
def acceptanceSchema (acceptance : Acceptance Sig) : Bool :=
  acceptance.acceptance_version = ACCEPTANCE_VERSION ∧ cardSchema acceptance.acceptor_card ∧
    isSshPublicKey acceptance.deploy_public_key

/-- `_check_slots`. -/
def slotsOk (slots : Slots) : Bool :=
  [slots.inviter_send_slot, slots.inviter_receive_slot].all (fun slot =>
      slot ≠ "" ∧ slot.toList.all (fun ch => ch.val < 128) ∧ slot.length ≤ 128) ∧
    slots.inviter_send_slot ≠ slots.inviter_receive_slot

/-- `_check_relay_url`. -/
def relayUrlOk (relay_url : String) : Bool :=
  "https://".toList <+: relay_url.toList ∨ "git@".toList <+: relay_url.toList

variable (C : Scheme Key Sig)

/-- `verify_card(card, now).ok`. -/
def Scheme.liveCard (card : Card Sig) (now : Nat) : Bool :=
  Cli.Pinning.verifyCard (fun id message => C.verify id (.identity message)) card now

/-- `_check_invite_pure`. -/
def Scheme.checkInvitePure (invite : Invite Sig) (now : Nat) : Except Raised Unit :=
  demand
    [(inviteSchema invite, .validation_error),
      (C.liveCard invite.inviter_card now, .pairing .card_invalid),
      (C.verify invite.inviter_card.identity_id (.invite invite.toInviteBody) invite.signature,
        .pairing .bad_signature),
      (invite.expires_at - invite.issued_at ≤ INVITE_LIFETIME, .pairing .lifetime_exceeded),
      (invite.issued_at ≤ now + MAX_CLOCK_SKEW, .pairing .clock_skew),
      (now < invite.expires_at, .pairing .expired)]

end documents

/-! ## The store -/

/-- `invites.state`. -/
inductive InviteState where
  | issued
  | accepted
  | committed
  | expired
  | canceled
  deriving DecidableEq, Repr

/-- A row of `invites`. -/
structure InviteRow where
  invite_id : InviteId
  state : InviteState
  issued_at : Nat
  expires_at : Nat
  deriving DecidableEq, Repr

/-- A row of `pairing_acceptances`. -/
structure AcceptanceRow (Sig : Type) where
  invite_id : InviteId
  invite : Invite Sig
  acceptance : Acceptance Sig
  accepted_at : Nat
  deriving DecidableEq, Repr

/-- A row of `pairing_verifications`. -/
structure Verification (Sig : Type) where
  invite_id : InviteId
  inviter_card_fingerprint : CardFingerprint Sig
  acceptor_card_fingerprint : CardFingerprint Sig
  verified_at : Nat
  human_approved : Bool
  deriving DecidableEq, Repr

/-- A write of a row of `pairing_verifications`, with the fingerprints it was called
with. -/
inductive VerificationWrite (Sig : Type) where
  /-- `record_displayed_phrase` stores them unapproved. -/
  | displayed (fingerprints : CardFingerprint Sig × CardFingerprint Sig)
  /-- `confirm_verification` sets `human_approved`. -/
  | confirmed (fingerprints : CardFingerprint Sig × CardFingerprint Sig)
  /-- `record_verification` stores them approved. -/
  | recorded (fingerprints : CardFingerprint Sig × CardFingerprint Sig)
  deriving DecidableEq, Repr

/-- A row of `deploy_key_registry`. -/
structure RegistryRow where
  deploy_public_key : String
  relationship_id : RelationshipId
  registered_at : Nat
  deriving DecidableEq, Repr

/-- A row of `relationships`, as the ceremony writes it: `pending` and with
`key_epoch` 1. -/
structure Relationship where
  relationship_id : RelationshipId
  peer_identity_id : IdentityId
  peer_display_name : String
  peer_agreement_key : AgreementKey
  policy : RequestedPolicy
  created_at : Nat
  deriving DecidableEq, Repr

/-- The path of a relationship key. -/
inductive KeyPath where
  /-- `<relationship_id>/epoch1.key`. -/
  | epoch1 (relationship_id : RelationshipId)
  /-- `pairing/<invite_id>/relationship.key`. -/
  | pairing (invite_id : InviteId)
  deriving DecidableEq, Repr

/-- A row of `key_epochs`; the ceremony writes those of epoch 1. -/
structure KeyEpoch where
  relationship_id : RelationshipId
  public_key : AgreementKey
  private_key_ref : KeyPath
  deriving DecidableEq, Repr

/-- A private key file of a relationship. -/
structure KeyFile where
  path : KeyPath
  key : PrivateKey
  deriving DecidableEq, Repr

/-- The tables of the ceremony, and the key files. -/
structure PairingStore (Sig : Type) where
  invites : Table InviteRow.invite_id := Table.empty
  invite_bodies : Table (fun invite : Invite Sig => invite.invite_id) := Table.empty
  pairing_acceptances : Table (@AcceptanceRow.invite_id Sig) := Table.empty
  pairing_verifications : Table (@Verification.invite_id Sig) := Table.empty
  deploy_key_registry : Table RegistryRow.deploy_public_key := Table.empty
  relationships : Table Relationship.relationship_id := Table.empty
  key_epochs : Table KeyEpoch.relationship_id := Table.empty
  key_files : Table KeyFile.path := Table.empty
  /-- Ghost: the writes of `pairing_verifications`, the newest first. -/
  writes : List (InviteId × VerificationWrite Sig) := []
  /-- Ghost: the relationship rows that each invite yielded. -/
  created : List (InviteId × RelationshipId) := []

/-- What a method returns. -/
inductive Returned (Sig : Type) where
  | invite (invite : Invite Sig)
  | acceptance (acceptance : Acceptance Sig)
  | previous (state : InviteState)
  | verification (human_approved : Bool)
  | commit (commit : Commit Sig)
  deriving DecidableEq, Repr

/-- A method of the ceremony on one store. -/
abbrev Method (Sig : Type) := Process (PairingStore Sig) (Except Raised (Returned Sig))

section transactions

variable {Key Sig : Type} [DecidableEq Sig] (C : Scheme Key Sig)

/-- `UPDATE invites SET state = ? WHERE invite_id = ?`. -/
def setState (invite_id : InviteId) (state : InviteState) (s : PairingStore Sig) : PairingStore Sig :=
  { s with invites := s.invites.modify invite_id (fun r => { r with state := state }) (fun _ => rfl) }

/-- `invites.state` of an invite. -/
def PairingStore.stateOf (s : PairingStore Sig) (invite_id : InviteId) : Option InviteState :=
  (s.invites.find invite_id).map (·.state)

/-- The transaction of `create_invite`. -/
def insertInvite (invite : Invite Sig) (s : PairingStore Sig) : PairingStore Sig × Except Raised Unit :=
  match s.invites.insert ⟨invite.invite_id, .issued, invite.issued_at, invite.expires_at⟩,
      s.invite_bodies.insert invite with
  | some invites, some invite_bodies => ({ s with invites := invites, invite_bodies := invite_bodies }, .ok ())
  | _, _ => (s, .error .integrity_error)

/-- The update of `preview_invite` for an expired invite. -/
def expireIssued (invite_id : InviteId) (s : PairingStore Sig) : PairingStore Sig :=
  if s.stateOf invite_id = some .issued then setState invite_id .expired s else s

/-- The transaction of `preview_invite`. -/
def requireIssued (invite_id : InviteId) (s : PairingStore Sig) : PairingStore Sig × Except Raised Unit :=
  match s.stateOf invite_id with
  | none => (s, .error (.pairing .unknown_invite))
  | some .issued => (s, .ok ())
  | some _ => (s, .error (.pairing .already_used))

/-- The transaction of `validate_invite`. -/
def claimInvite (invite_id : InviteId) (s : PairingStore Sig) : PairingStore Sig × Except Raised Unit :=
  if s.stateOf invite_id = some .issued then (setState invite_id .accepted s, .ok ())
  else (s, .error (.pairing .already_used))

/-- `burn_invite`. -/
def burnInvite (invite_id : InviteId) (s : PairingStore Sig) : PairingStore Sig × Except Raised InviteState :=
  match s.stateOf invite_id with
  | none => (s, .error (.pairing .unknown_invite))
  | some previous =>
    (if previous = .issued ∨ previous = .accepted then setState invite_id .canceled s else s, .ok previous)

/-- The transaction of `create_acceptance`. -/
def storeAcceptance (invite : Invite Sig) (acceptance : Acceptance Sig) (s : PairingStore Sig) :
    PairingStore Sig :=
  { s with
    pairing_acceptances := s.pairing_acceptances.upsert
      ⟨invite.invite_id, invite, acceptance, acceptance.accepted_at⟩ }

/-- The abort that `record_verification` finds. -/
def verificationBurn (invite_id : InviteId) (fingerprints : CardFingerprint Sig × CardFingerprint Sig)
    (human_approved : Bool) (s : PairingStore Sig) : Option PairingCode :=
  if (s.invite_bodies.find invite_id).any (fun invite => cardFingerprint invite.inviter_card ≠ fingerprints.1) then
    some .altered_card
  else if (s.pairing_acceptances.find invite_id).any
      (fun row => cardFingerprint row.acceptance.acceptor_card ≠ fingerprints.2) then
    some .altered_card
  else if !human_approved then some .phrase_mismatch
  else none

/-- The first transaction of `record_verification`: `some` code when the invite is to
be burned. -/
def insertVerification (invite_id : InviteId) (fingerprints : CardFingerprint Sig × CardFingerprint Sig)
    (human_approved : Bool) (now : Nat) (s : PairingStore Sig) :
    PairingStore Sig × Except Raised (Option PairingCode) :=
  match s.stateOf invite_id with
  | none => (s, .error (.pairing .unknown_invite))
  | some state =>
    match verificationBurn invite_id fingerprints human_approved s with
    | some code => (s, .ok (some code))
    | none =>
      if state = .committed then (s, .error (.pairing .already_committed))
      else
        ({ s with
            pairing_verifications := s.pairing_verifications.upsert
              ⟨invite_id, fingerprints.1, fingerprints.2, now, true⟩
            writes := (invite_id, .recorded fingerprints) :: s.writes }, .ok none)

/-- `record_displayed_phrase`. -/
def displayPhrase (invite_id : InviteId) (fingerprints : CardFingerprint Sig × CardFingerprint Sig) (now : Nat)
    (s : PairingStore Sig) : PairingStore Sig × Except Raised Unit :=
  match s.stateOf invite_id with
  | none => (s, .error (.pairing .unknown_invite))
  | some state =>
    if state = .committed then (s, .error (.pairing .already_committed))
    else
      ({ s with
          pairing_verifications := s.pairing_verifications.upsert
            ⟨invite_id, fingerprints.1, fingerprints.2, now, false⟩
          writes := (invite_id, .displayed fingerprints) :: s.writes }, .ok ())

/-- `confirm_verification`. -/
def approvePhrase (invite_id : InviteId) (fingerprints : CardFingerprint Sig × CardFingerprint Sig) (now : Nat)
    (s : PairingStore Sig) : PairingStore Sig × Except Raised Unit :=
  match s.pairing_verifications.find invite_id with
  | none => (s, .error (.pairing .no_phrase_displayed))
  | some row =>
    if row.inviter_card_fingerprint ≠ fingerprints.1 ∨ row.acceptor_card_fingerprint ≠ fingerprints.2 then
      (s, .error (.pairing .phrase_record_mismatch))
    else if row.human_approved then (s, .ok ())
    else
      ({ s with
          pairing_verifications := s.pairing_verifications.modify invite_id
            (fun r => { r with human_approved := true, verified_at := now }) (fun _ => rfl)
          writes := (invite_id, .confirmed fingerprints) :: s.writes }, .ok ())

/-! ### The commit -/

/-- The arguments of `commit_pairing`, the key it generates and what its surroundings do. -/
structure CommitCall (Key Sig : Type) where
  acceptance : Acceptance Sig
  inviter_priv : Key
  relay_url : String
  slots : Slots
  negotiated_capabilities : List String
  now : Nat
  relationship_id : RelationshipId
  claim_invite : Bool
  rel_priv : PrivateKey
  /-- `delete_private_key` wipes the file. -/
  wipes : Bool := true
  /-- The transaction meets a storage error. -/
  fails : Bool := false
  deriving DecidableEq, Repr

/-- The checks of `_commit_txn` on the state of the invite. -/
def commitState (call : CommitCall Key Sig) (invite : Invite Sig) (state : InviteState) : Except Raised Unit :=
  if call.claim_invite then
    match C.checkInvitePure invite call.now with
    | .error raised => .error raised
    | .ok () => demand [(state = .issued, .pairing .invite_not_issued)]
  else
    demand
      [(state = .accepted, .pairing .invite_not_accepted),
        (call.now < invite.expires_at, .pairing .expired)]

/-- The checks of `_commit_txn` on the acceptance, with the verification record `row`. -/
def commitChecks (call : CommitCall Key Sig) (negotiated : List String) (invite : Invite Sig)
    (row : Option (Verification Sig)) (registered : Bool) : List (Bool × Raised) :=
  [(call.acceptance.invite_hash = inviteHash invite, .burn_and_abort .invite_hash_mismatch),
    (row.any (·.human_approved), .pairing .unverified),
    (row.any (·.acceptor_card_fingerprint = cardFingerprint call.acceptance.acceptor_card),
      .burn_and_abort .acceptor_card_changed),
    (row.any (·.inviter_card_fingerprint = cardFingerprint invite.inviter_card),
      .burn_and_abort .inviter_card_changed),
    (C.liveCard call.acceptance.acceptor_card call.now, .pairing .card_invalid),
    (C.verify call.acceptance.acceptor_card.identity_id (.acceptance call.acceptance.toAcceptanceBody)
      call.acceptance.signature, .pairing .bad_signature),
    (call.acceptance.accepted_at ≤ call.now + MAX_CLOCK_SKEW, .burn_and_abort .clock_skew),
    (invite.issued_at ≤ call.acceptance.accepted_at, .burn_and_abort .accepted_before_issued),
    (invite.inviter_card.identity_id = C.identity call.inviter_priv, .pairing .card_key_mismatch),
    (isPublicMaterial call.acceptance.deploy_public_key, .pairing .private_key_material),
    (isSshPublicKey call.acceptance.deploy_public_key, .burn_and_abort .bad_deploy_key),
    (!registered, .burn_and_abort .deploy_key_reused),
    (invite.requested_capabilities.all (· ∈ negotiated), .burn_and_abort .unsupported_capability),
    (negotiated.all (fun c => c ∈ call.acceptance.acceptor_card.capabilities ∧
      c ∈ invite.inviter_card.capabilities), .burn_and_abort .unsupported_capability)]

/-- The commit that `_commit_txn` signs. -/
def signedCommit (call : CommitCall Key Sig) (negotiated : List String) : Commit Sig :=
  let body : CommitBody :=
    { commit_version := COMMIT_VERSION
      relationship_id := call.relationship_id
      invite_id := call.acceptance.invite_id
      repository_url := call.relay_url
      slots := call.slots
      negotiated_capabilities := negotiated
      initial_key_epochs := [(1, call.rel_priv.publicKey)]
      committed_at := call.now }
  { toCommitBody := body, signature := C.sign call.inviter_priv (.commit body) }

/-- The rows that `_commit_txn` writes. -/
def insertPairing (call : CommitCall Key Sig) (invite : Invite Sig) (s : PairingStore Sig) :
    Option (PairingStore Sig) :=
  match s.relationships.insert
      { relationship_id := call.relationship_id
        peer_identity_id := call.acceptance.acceptor_card.identity_id
        peer_display_name := call.acceptance.acceptor_card.display_name
        peer_agreement_key := call.acceptance.relationship_agreement_key
        policy := invite.requested_policy
        created_at := call.now },
    s.key_epochs.insert ⟨call.relationship_id, call.rel_priv.publicKey, .epoch1 call.relationship_id⟩,
    s.deploy_key_registry.insert ⟨call.acceptance.deploy_public_key, call.relationship_id, call.now⟩ with
  | some relationships, some key_epochs, some deploy_key_registry =>
    some (setState call.acceptance.invite_id .committed
      { s with
        relationships := relationships
        key_epochs := key_epochs
        deploy_key_registry := deploy_key_registry
        created := (call.acceptance.invite_id, call.relationship_id) :: s.created })
  | _, _, _ => none

/-- `_commit_txn`, rolled back when it raises. -/
def commitTxn (call : CommitCall Key Sig) (negotiated : List String) (s : PairingStore Sig) :
    PairingStore Sig × Except Raised (Commit Sig) :=
  if call.fails then (s, .error .storage_error)
  else
    match s.invite_bodies.find call.acceptance.invite_id, s.stateOf call.acceptance.invite_id with
    | some invite, some state =>
      match commitState C call invite state with
      | .error raised => (s, .error raised)
      | .ok () =>
        match demand (commitChecks C call negotiated invite
            (s.pairing_verifications.find call.acceptance.invite_id)
            (s.deploy_key_registry.find call.acceptance.deploy_public_key).isSome) with
        | .error raised => (s, .error raised)
        | .ok () =>
          match insertPairing call invite s with
          | some s' => (s', .ok (signedCommit C call negotiated))
          | none => (s, .error .integrity_error)
    | _, _ => (s, .error (.pairing .unknown_invite))

/-- `store_private_key` for the key of a new relationship. -/
def storePairingKey (call : CommitCall Key Sig) (s : PairingStore Sig) : PairingStore Sig × Except Raised Unit :=
  match s.key_files.insert ⟨.epoch1 call.relationship_id, call.rel_priv⟩ with
  | some key_files => ({ s with key_files := key_files }, .ok ())
  | none => (s, .error .file_exists)

/-- `delete_private_key` of the key of a new relationship. -/
def deletePairingKey (call : CommitCall Key Sig) (s : PairingStore Sig) : PairingStore Sig × Bool :=
  if call.wipes then
    ({ s with key_files := s.key_files.delete (·.path = .epoch1 call.relationship_id) }, true)
  else (s, (s.key_files.find (.epoch1 call.relationship_id)).isNone)

/-- The queries of `_reconcile_orphan_pairing_key`: live state owns the file. -/
def ownsKeyFile (call : CommitCall Key Sig) (s : PairingStore Sig) : Bool :=
  (s.relationships.find call.relationship_id).isSome || (s.key_epochs.find call.relationship_id).isSome

/-! ## The methods -/

/-- The arguments of `create_invite`, and the id it draws. -/
structure InviteCall (Key Sig : Type) where
  inviter_card : Card Sig
  inviter_priv : Key
  ephemeral_priv : PrivateKey
  requested_capabilities : List String
  requested_policy : RequestedPolicy
  now : Nat
  invite_id : InviteId
  deriving DecidableEq, Repr

/-- The invite that `create_invite` signs. -/
def newInvite (call : InviteCall Key Sig) : Except Raised (Invite Sig) :=
  match demand
      [(C.liveCard call.inviter_card call.now, .pairing .card_invalid),
        (call.inviter_card.identity_id = C.identity call.inviter_priv, .pairing .card_key_mismatch)],
    normalizeCapabilities call.requested_capabilities with
  | .error raised, _ => .error raised
  | .ok (), none => .error (.pairing .bad_capability)
  | .ok (), some capabilities =>
    let body : InviteBody Sig :=
      { invite_version := INVITE_VERSION
        invite_id := call.invite_id
        inviter_card := call.inviter_card
        ephemeral_agreement_key := call.ephemeral_priv.publicKey
        requested_capabilities := capabilities
        requested_policy := call.requested_policy
        issued_at := call.now
        expires_at := call.now + INVITE_LIFETIME }
    let invite : Invite Sig := { toInviteBody := body, signature := C.sign call.inviter_priv (.invite body) }
    if inviteSchema invite then .ok invite else .error .validation_error

/-- `create_invite`. -/
def createInvite (call : InviteCall Key Sig) : Method Sig :=
  match newInvite C call with
  | .error raised => .ret (.error raised)
  | .ok invite => .atomic (insertInvite invite) (fun result => .ret (result.map (fun _ => .invite invite)))

/-- `preview_invite`, then `rest`. -/
def previewThen (invite : Invite Sig) (now : Nat) (rest : Method Sig) : Method Sig :=
  match C.checkInvitePure invite now with
  | .error (.pairing .expired) =>
    .step (expireIssued invite.invite_id) (fun _ => .ret (.error (.pairing .expired)))
  | .error raised => .ret (.error raised)
  | .ok () =>
    .atomic (requireIssued invite.invite_id) fun
      | .error raised => .ret (.error raised)
      | .ok () => rest

/-- `preview_invite`. -/
def previewInvite (invite : Invite Sig) (now : Nat) : Method Sig :=
  previewThen C invite now (.ret (.ok (.invite invite)))

/-- `validate_invite`. -/
def validateInvite (invite : Invite Sig) (now : Nat) : Method Sig :=
  previewThen C invite now
    (.atomic (claimInvite invite.invite_id) (fun result => .ret (result.map (fun _ => .invite invite))))

/-- The arguments of `create_acceptance`. -/
structure AcceptCall (Key Sig : Type) where
  invite : Invite Sig
  acceptor_card : Card Sig
  acceptor_priv : Key
  relationship_pubkey : AgreementKey
  ssh_deploy_pubkey : String
  now : Nat
  deriving DecidableEq, Repr

/-- The acceptance that `create_acceptance` signs. -/
def newAcceptance (call : AcceptCall Key Sig) : Except Raised (Acceptance Sig) :=
  match C.checkInvitePure call.invite call.now with
  | .error raised => .error raised
  | .ok () =>
    match demand
        [(C.liveCard call.acceptor_card call.now, .pairing .card_invalid),
          (call.acceptor_card.identity_id = C.identity call.acceptor_priv, .pairing .card_key_mismatch),
          (isPublicMaterial call.ssh_deploy_pubkey, .pairing .private_key_material),
          (isSshPublicKey call.ssh_deploy_pubkey, .pairing .bad_deploy_key)] with
    | .error raised => .error raised
    | .ok () =>
      let body : AcceptanceBody Sig :=
        { acceptance_version := ACCEPTANCE_VERSION
          invite_id := call.invite.invite_id
          invite_hash := inviteHash call.invite
          acceptor_card := call.acceptor_card
          relationship_agreement_key := call.relationship_pubkey
          deploy_public_key := call.ssh_deploy_pubkey
          accepted_at := call.now }
      let acceptance : Acceptance Sig :=
        { toAcceptanceBody := body, signature := C.sign call.acceptor_priv (.acceptance body) }
      if acceptanceSchema acceptance then .ok acceptance else .error .validation_error

/-- `create_acceptance`. -/
def createAcceptance (call : AcceptCall Key Sig) : Method Sig :=
  match newAcceptance C call with
  | .error raised => .ret (.error raised)
  | .ok acceptance =>
    .step (storeAcceptance call.invite acceptance) (fun _ => .ret (.ok (.acceptance acceptance)))

/-- `record_verification`. -/
def recordVerification (invite_id : InviteId) (fingerprints : CardFingerprint Sig × CardFingerprint Sig)
    (human_approved : Bool) (now : Nat) : Method Sig :=
  .atomic (insertVerification invite_id fingerprints human_approved now) fun
    | .error raised => .ret (.error raised)
    | .ok none => .ret (.ok (.verification true))
    | .ok (some code) =>
      .atomic (burnInvite invite_id) fun
        | .error raised => .ret (.error raised)
        | .ok _ => .ret (.error (.pairing code))

/-- `record_displayed_phrase`. -/
def recordDisplayedPhrase (invite_id : InviteId) (fingerprints : CardFingerprint Sig × CardFingerprint Sig)
    (now : Nat) : Method Sig :=
  .atomic (displayPhrase invite_id fingerprints now) (fun result => .ret (result.map (fun _ => .verification false)))

/-- `confirm_verification`. -/
def confirmVerification (invite_id : InviteId) (fingerprints : CardFingerprint Sig × CardFingerprint Sig)
    (now : Nat) : Method Sig :=
  .atomic (approvePhrase invite_id fingerprints now) (fun result => .ret (result.map (fun _ => .verification true)))

/-- `_destroy_pairing_key`, then the raise. -/
def destroyPairingKey (call : CommitCall Key Sig) (raised : Raised) : Method Sig :=
  .atomic (deletePairingKey call)
    (fun gone => .ret (.error (if gone then raised else .pairing .key_destruction_failed)))

/-- `commit_pairing` once the key file is stored. -/
def commitStored (call : CommitCall Key Sig) (negotiated : List String) : Method Sig :=
  .atomic (commitTxn C call negotiated) fun
    | .ok commit => .ret (.ok (.commit commit))
    | .error (.burn_and_abort code) =>
      -- The transaction rolled back, so the burn is a transaction of its own.
      .atomic (burnInvite call.acceptance.invite_id) fun
        | .ok _ => destroyPairingKey call (.burn_and_abort code)
        | .error raised => destroyPairingKey call raised
    | .error (.pairing .expired) =>
      .step (setState call.acceptance.invite_id .expired)
        (fun _ => destroyPairingKey call (.pairing .expired))
    | .error raised => destroyPairingKey call raised

/-- `commit_pairing`. -/
def commitPairing (call : CommitCall Key Sig) : Method Sig :=
  match demand
      [(acceptanceSchema call.acceptance, .validation_error), (slotsOk call.slots, .pairing .bad_slots),
        (relayUrlOk call.relay_url, .pairing .bad_relay_url)],
    normalizeCapabilities call.negotiated_capabilities with
  | .error raised, _ => .ret (.error raised)
  | .ok (), none => .ret (.error (.pairing .bad_capability))
  | .ok (), some negotiated =>
    .atomic (storePairingKey call) fun
      | .ok () => commitStored C call negotiated
      | .error _ =>
        .atomic (fun s => (s, ownsKeyFile call s)) fun
          | true => .ret (.error .file_exists)
          | false =>
            .atomic (deletePairingKey call) fun
              | false => .ret (.error (.pairing .key_destruction_failed))
              | true =>
                .atomic (storePairingKey call) fun
                  | .ok () => commitStored C call negotiated
                  | .error raised => .ret (.error raised)

end transactions

end MuseAgentSocial.Invites
