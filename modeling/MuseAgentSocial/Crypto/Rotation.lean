import MuseAgentSocial.Crypto.Sealing
import MuseAgentSocial.Lib.Newest
import MuseAgentSocial.Model.Approvals

/-!
# The rotation state machine of one side

A model of `RotationManager` in `crypto/rotation.py`, for the store of one
side of one relationship.

* The tables: `key_epochs` with the own and the peer keys, `key_rotations`
  with one row for each epoch and role, the quarantine and the parked
  signals.  The key files and the event log are part of the state, the
  first because a key row only names its file and the second because its
  foreign key into `key_epochs` makes a delete fail.
* The methods of the rotating side: `beginRotation`, `onAck`,
  `noteDecryptedNewWrap`, `buildConfirmPayload`, `markConfirmed`, `onCommit`,
  `noteAcceptedEvent`.
* The methods of the acking side: `onPrepare`, `dualWrapKeys`, `maySend`,
  `onConfirm`, `buildCommitPayload`, `markCommitted`.
* The epoch gate `onDataEventEpoch` and the transactions of `sweep`.

A method returns the state it leaves and either its value or what it raised.
A raise inside a transaction leaves the state of before the transaction.
Instants are seconds.
-/

namespace MuseAgentSocial.Crypto

open Model

/-! ## Payloads -/

/-- The payload of `security.key.prepare`. -/
structure Prepare where
  new_agreement_key : AgreementKey
  prior_fingerprint : Fingerprint
  deadline : Nat
  deriving DecidableEq, Repr

/-- The payload of `security.key.ack`. -/
structure Ack where
  epoch : Nat
  prepare_event_id : EventId
  deriving DecidableEq, Repr

/-- What an event carries: a rotation message, or data of any other type. -/
inductive Body where
  | prepare (prepare : Prepare)
  | ack (ack : Ack)
  | confirm (epoch : Nat)
  | commit (epoch : Nat)
  | data (content : Nat)
  deriving DecidableEq, Repr

/-- An event of one of `_ROTATION_EVENT_TYPES`. -/
def Body.isRotation : Body → Bool
  | .data _ => false
  | _ => true

/-- An ack of one prepare event. -/
def Body.acks (prepare_event_id : EventId) : Body → Bool
  | .ack a => a.prepare_event_id = prepare_event_id
  | _ => false

/-! ## Tables -/

/-- `private_key_ref`: a key file, or the marker of a peer key. -/
inductive KeyRef where
  | file (path : Nat)
  | peer
  deriving DecidableEq, Repr

/-- A row of `key_epochs`.  Its `state` is written and never read, so it is
left out. -/
structure KeyRow where
  epoch : Nat
  public_key : AgreementKey
  private_key_ref : KeyRef
  deriving DecidableEq, Repr

/-- `private_key_ref != 'peer'`. -/
def KeyRow.isOwn (r : KeyRow) : Bool := r.private_key_ref ≠ .peer

/-- A private key file.  The path of an epoch is `<rid>-e<epoch>.key`. -/
structure KeyFile where
  path : Nat
  key : PrivateKey
  deriving DecidableEq, Repr

/-- `key_rotations.role`. -/
inductive Role where
  | rotating
  | acking
  deriving DecidableEq, Repr

/-- `key_rotations.phase`. -/
inductive Phase where
  | candidate
  | acknowledged
  | confirmed
  | committed
  | discarded
  deriving DecidableEq, Repr

/-- A row of `key_rotations`. -/
structure Rotation where
  epoch : Nat
  role : Role
  phase : Phase
  prior_epoch : Nat
  prior_fingerprint : Fingerprint
  new_public_key : AgreementKey
  prepare_event_id : Option EventId
  prepared_at : Nat
  acknowledged_at : Option Nat := none
  confirmed_at : Option Nat := none
  committed_at : Option Nat := none
  deadline : Nat
  new_wrap_seen : Bool := false
  accepted_events_since_commit : Nat := 0
  deriving DecidableEq, Repr

/-- The primary key of `key_rotations`. -/
def Rotation.key (r : Rotation) : Nat × Role := (r.epoch, r.role)

/-- `phase NOT IN ('committed', 'discarded')`. -/
def Rotation.live (r : Rotation) : Bool := r.phase ≠ .committed ∧ r.phase ≠ .discarded

/-- `rotation_quarantine.reason`, with the payload kept for a conflict. -/
inductive QuarantineReason where
  | conflicting_prepare (prepare : Prepare) (prepare_event_id : EventId)
  | unknown_future_epoch
  | unknown_future_epoch_rejected
  deriving DecidableEq, Repr

/-- A row of `rotation_quarantine`; the rows stand in the order of their ids. -/
structure QuarantineRow where
  epoch : Nat
  reason : QuarantineReason
  received_at : Nat
  deriving DecidableEq, Repr

/-- A row of `unknown_epoch_first_seen`. -/
structure FirstSeen where
  epoch : Nat
  first_seen_at : Nat
  rejected : Bool := false
  deriving DecidableEq, Repr

/-- A row of `rotation_wrap_seen_pending`. -/
structure WrapSeen where
  epoch : Nat
  seen_at : Nat
  deriving DecidableEq, Repr

/-- A row of `events` with its staged payload. -/
structure StoredEvent where
  event_id : EventId
  sender : IdentityId
  created_at : Nat
  key_epoch : Nat
  body : Body
  deriving DecidableEq, Repr

/-- The keys of one side and its rotations. -/
structure Keys where
  /-- `relationships.key_epoch`. -/
  key_epoch : Nat
  peer_agreement_key : Option AgreementKey
  key_epochs : Table KeyRow.epoch
  key_files : Table KeyFile.path
  key_rotations : Table Rotation.key := Table.empty

/-- The store of one side of one relationship. -/
structure Side extends Keys where
  rotation_quarantine : List QuarantineRow := []
  unknown_epoch_first_seen : Table FirstSeen.epoch := Table.empty
  rotation_wrap_seen_pending : Table WrapSeen.epoch := Table.empty
  rotation_processed_events : List EventId := []
  events : Table StoredEvent.event_id := Table.empty
  /-- `receive_retry_state`, one entry for each sighting of an object. -/
  retry_sightings : List EventId := []

/-! ## Constants and errors -/

/-- `ROTATION_WINDOW`. -/
def ROTATION_WINDOW : Nat := 24 * 3600

/-- `OLD_KEY_RETENTION`. -/
def OLD_KEY_RETENTION : Nat := 24 * 3600

/-- `OLD_KEY_EVENT_LIMIT`. -/
def OLD_KEY_EVENT_LIMIT : Nat := 100

/-- `ROTATION_QUARANTINE_CAP`. -/
def ROTATION_QUARANTINE_CAP : Nat := 50

/-- `ROTATION_QUARANTINE_REJECTED_RETENTION`. -/
def ROTATION_QUARANTINE_REJECTED_RETENTION : Nat := 30 * 24 * 3600

/-- `KEY_ROTATION_COMMITTED_RETENTION`. -/
def KEY_ROTATION_COMMITTED_RETENTION : Nat := 30 * 24 * 3600

/-- `PEER_KEY_EPOCH_RETAIN_NEWEST`. -/
def PEER_KEY_EPOCH_RETAIN_NEWEST : Nat := 2

/-- The bound of `_cap_first_seen` on the rows that are not rejected. -/
def FIRST_SEEN_CAP : Nat := 1000

/-- The codes of `RotationError`; `confirm_rejected` is `ConfirmRejected` and
`no_ack_timeout` is `NoAckTimeout`. -/
inductive RotationError where
  | rotation_in_flight
  | no_own_key
  | stale_prior
  | unknown_prior_fingerprint
  | conflicting_prepare
  | stale_prior_fingerprint
  | stale_epoch
  | prepare_expired
  | no_acknowledged_rotation
  | peer_key_missing
  | send_paused_acknowledged
  | nothing_to_confirm
  | no_new_wrap_seen
  | nothing_to_commit
  | unknown_future_epoch
  | unknown_future_epoch_rejected
  | confirm_rejected
  | no_ack_timeout
  deriving DecidableEq, Repr

/-- What a method raises. -/
inductive Raised where
  | rotation (code : RotationError)
  | integrity_error
  | file_exists
  | bad_timestamp
  /-- The `CliError` of `_send_event`. -/
  | send_error
  deriving DecidableEq, Repr

/-! ## Key inventory -/

namespace Keys

variable (s : Keys)

/-- `_own_epochs`: the rows of the keys this side holds. -/
def ownRows : List KeyRow := s.key_epochs.rows.filter (·.isOwn)

/-- The keys of `_own_epochs`. -/
def ownEpochs : List Nat := s.ownRows.map (·.epoch)

/-- The rows with `private_key_ref = 'peer'`. -/
def peerRows : List KeyRow := s.key_epochs.rows.filter (fun r => !r.isOwn)

/-- The own row of an epoch. -/
def ownRow (epoch : Nat) : Option KeyRow := (s.key_epochs.find epoch).filter (·.isOwn)

/-- The peer row of an epoch. -/
def peerRow (epoch : Nat) : Option KeyRow := (s.key_epochs.find epoch).filter (fun r => !r.isOwn)

/-- `_peer_key_epochs`, in the order of the dictionary: the entry of
`peer_agreement_key` comes first, under the current `key_epoch`, and a peer
row of that epoch replaces its value. -/
def peerKeyEpochs : List (Nat × AgreementKey) :=
  let rows := s.peerRows.map (fun r => (r.epoch, r.public_key))
  match s.peer_agreement_key with
  | none => rows
  | some key =>
    (s.key_epoch, ((s.peerRow s.key_epoch).map (·.public_key)).getD key) ::
      rows.filter (fun e => e.1 ≠ s.key_epoch)

/-- `peer_epochs[epoch]`. -/
def peerKey (epoch : Nat) : Option AgreementKey :=
  (s.peerKeyEpochs.find? (fun e => e.1 = epoch)).map (·.2)

/-- `_current_epoch`. -/
def currentEpoch : Nat :=
  (s.ownEpochs ++ s.peerKeyEpochs.map (·.1)).foldr max 0

/-- `_rotation` with a role. -/
def rotation (epoch : Nat) (role : Role) : Option Rotation := s.key_rotations.find (epoch, role)

/-- `_in_flight` without a role. -/
def inFlight : Option Rotation := s.key_rotations.rows.find? (·.live)

/-- `_in_flight` with a role. -/
def inFlightAs (role : Role) : Option Rotation :=
  s.key_rotations.rows.find? (fun r => r.role = role ∧ r.live = true)

/-- The private key behind the own row of an epoch, read from its file. -/
def privateKey (epoch : Nat) : Option PrivateKey :=
  match s.ownRow epoch with
  | some ⟨_, _, .file path⟩ => (s.key_files.find path).map (·.key)
  | _ => none

end Keys

namespace Side

variable (s : Side)

/-- Some event still references an epoch, so its `key_epochs` row cannot be
deleted. -/
def referenced (epoch : Nat) : Bool := s.events.rows.any (·.key_epoch = epoch)

/-- `store_private_key`: `none` for `FileExistsError`. -/
def storePrivateKey (path : Nat) (key : PrivateKey) : Option Side :=
  (s.key_files.insert ⟨path, key⟩).map (fun files => { s with key_files := files })

/-- `delete_private_key`. -/
def deletePrivateKey (ref : KeyRef) : Side :=
  match ref with
  | .file path => { s with key_files := s.key_files.delete (·.path = path) }
  | .peer => s

/-- `UPDATE key_rotations ... WHERE epoch = ? AND role = ?`. -/
def updateRotation (epoch : Nat) (role : Role) (f : Rotation → Rotation)
    (hf : ∀ r, (f r).key = r.key) : Side :=
  { s with key_rotations := s.key_rotations.modify (epoch, role) f hf }

end Side

/-- The row of the greatest epoch. -/
def newestRow : List KeyRow → Option KeyRow
  | [] => none
  | r :: rs =>
    match newestRow rs with
    | none => some r
    | some r' => if r'.epoch < r.epoch then some r else some r'

namespace RotationManager

/-! ## Rotating side -/

/-- `_reconcile_orphan_key_file`. -/
def reconcileOrphanKeyFile (s : Side) (epoch path : Nat) : Except Raised Side :=
  if (s.ownRow epoch).isSome ∨
      (s.rotation epoch .rotating).any (·.phase ≠ .discarded) = true then
    .error .file_exists
  else
    .ok (s.deletePrivateKey (.file path))

/-- The key file of a fresh candidate, after wiping an orphan of a crashed
attempt. -/
def storeCandidateKey (s : Side) (epoch path : Nat) (key : PrivateKey) : Except Raised Side :=
  match s.storePrivateKey path key with
  | some s' => .ok s'
  | none =>
    match reconcileOrphanKeyFile s epoch path with
    | .error raised => .error raised
    | .ok wiped =>
      match wiped.storePrivateKey path key with
      | some s' => .ok s'
      | none => .error .file_exists

/-- The transaction of `begin_rotation`: the key row and the rotation row,
in place of a discarded earlier attempt.  `none` is an `IntegrityError`. -/
def recordCandidate (s : Side) (keyRow : KeyRow) (row : Rotation) : Option Side :=
  match s.key_epochs.insert keyRow with
  | none => none
  | some keys =>
    let kept := s.key_rotations.delete
      (fun r => r.key = row.key ∧ r.phase = .discarded)
    match kept.insert row with
    | none => none
    | some rotations => some { s with key_epochs := keys, key_rotations := rotations }

/-- The row that `begin_rotation` inserts. -/
def candidateRow (epoch : Nat) (prior : KeyRow) (now : Nat) (priv : PrivateKey)
    (prepare_event_id : Option EventId) : Rotation :=
  { epoch := epoch, role := .rotating, phase := .candidate, prior_epoch := prior.epoch,
    prior_fingerprint := agreementFingerprint prior.public_key,
    new_public_key := priv.publicKey, prepare_event_id := prepare_event_id,
    prepared_at := now, deadline := now + ROTATION_WINDOW }

/-- `begin_rotation`, with the generated key pair as an argument. -/
def beginRotation (s : Side) (now : Nat) (new_priv : PrivateKey)
    (prepare_event_id : Option EventId) : Side × Except Raised (Nat × Prepare) :=
  if s.inFlight.isSome then
    (s, .error (.rotation .rotation_in_flight))
  else
    match newestRow s.ownRows with
    | none => (s, .error (.rotation .no_own_key))
    | some prior =>
      let new_epoch := s.currentEpoch + 1
      if new_epoch ≤ prior.epoch then
        (s, .error (.rotation .stale_prior))
      else
        let new_pub := new_priv.publicKey
        let deadline := now + ROTATION_WINDOW
        let prepare : Prepare := ⟨new_pub, agreementFingerprint prior.public_key, deadline⟩
        match storeCandidateKey s new_epoch new_epoch new_priv with
        | .error raised => (s, .error raised)
        | .ok stored =>
          match recordCandidate stored ⟨new_epoch, new_pub, .file new_epoch⟩
              (candidateRow new_epoch prior now new_priv prepare_event_id) with
          | none => (stored.deletePrivateKey (.file new_epoch), .error .integrity_error)
          | some begun => (begun, .ok (new_epoch, prepare))

/-- `_consume_pending_wrap_seen`. -/
def consumePendingWrapSeen (s : Side) (epoch : Nat) : Side :=
  if (s.rotation_wrap_seen_pending.find epoch).isSome then
    { s with
        rotation_wrap_seen_pending := s.rotation_wrap_seen_pending.delete (·.epoch = epoch)
        key_rotations := s.key_rotations.modify (epoch, .rotating)
          (fun r => if r.live then { r with new_wrap_seen := true } else r)
          (fun r => by split_ifs <;> rfl) }
  else s

/-- `on_ack`. -/
def onAck (s : Side) (ack : Ack) (now : Nat) : Side × Except Raised Unit :=
  match s.rotation ack.epoch .rotating with
  | none => (s, .error (.rotation .confirm_rejected))
  | some r =>
    if r.prepare_event_id.any (· ≠ ack.prepare_event_id) = true then
      (s, .error (.rotation .confirm_rejected))
    else if r.phase = .acknowledged then
      -- A re-drive still consumes a decrypt signal parked before the ack.
      (consumePendingWrapSeen s ack.epoch, .ok ())
    else if r.phase ≠ .candidate then
      (s, .error (.rotation .confirm_rejected))
    else if r.deadline < now then
      (s, .error (.rotation .confirm_rejected))
    else
      let acked := s.updateRotation ack.epoch .rotating
        (fun r => { r with phase := .acknowledged, acknowledged_at := some now }) (fun _ => rfl)
      (consumePendingWrapSeen acked ack.epoch, .ok ())

/-- `note_decrypted_new_wrap`. -/
def noteDecryptedNewWrap (s : Side) (epoch now : Nat) : Side :=
  if (s.rotation epoch .rotating).any (·.live) then
    s.updateRotation epoch .rotating (fun r => { r with new_wrap_seen := true }) (fun _ => rfl)
  else
    { s with
        rotation_wrap_seen_pending :=
          (s.rotation_wrap_seen_pending.delete (·.epoch = epoch)).insertOrIgnore ⟨epoch, now⟩ }

/-- `build_confirm_payload`. -/
def buildConfirmPayload (s : Side) : Except Raised Nat :=
  match s.inFlightAs .rotating with
  | none => .error (.rotation .nothing_to_confirm)
  | some r =>
    if r.phase ≠ .acknowledged ∧ r.phase ≠ .confirmed then
      .error (.rotation .nothing_to_confirm)
    else if r.new_wrap_seen then
      .ok r.epoch
    else
      .error (.rotation .no_new_wrap_seen)

/-- `mark_confirmed`. -/
def markConfirmed (s : Side) (now : Nat) : Side × Except Raised Unit :=
  match s.inFlightAs .rotating with
  | none => (s, .error (.rotation .nothing_to_confirm))
  | some r =>
    if r.phase = .confirmed then
      (s, .ok ())
    else if r.phase ≠ .acknowledged then
      (s, .error (.rotation .nothing_to_confirm))
    else
      (s.updateRotation r.epoch .rotating
        (fun r => { r with phase := .confirmed, confirmed_at := some now }) (fun _ => rfl), .ok ())

/-- `on_commit`. -/
def onCommit (s : Side) (epoch now : Nat) : Side × Except Raised Unit :=
  match s.rotation epoch .rotating with
  | none =>
    -- The row of a retired rotation is gone; the active epoch tells.
    if s.key_epoch = epoch then (s, .ok ()) else (s, .error (.rotation .confirm_rejected))
  | some r =>
    if r.phase = .committed then
      (s, .ok ())
    else if r.phase ≠ .confirmed then
      (s, .error (.rotation .confirm_rejected))
    else
      let committed := s.updateRotation epoch .rotating
        (fun r => { r with
          phase := .committed, committed_at := some now, accepted_events_since_commit := 0 })
        (fun _ => rfl)
      ({ committed with key_epoch := epoch }, .ok ())

/-- `note_accepted_event`. -/
def noteAcceptedEvent (s : Side) : Side :=
  s.updateRotation s.key_epoch .rotating
    (fun r =>
      if r.phase = .committed then
        { r with accepted_events_since_commit := r.accepted_events_since_commit + 1 }
      else r)
    (fun r => by split_ifs <;> rfl)

/-! ## Acking side -/

/-- `_quarantine_in_txn`, with the cap on the rows. -/
def quarantine (s : Side) (epoch : Nat) (reason : QuarantineReason) (now : Nat) : Side :=
  let rows := s.rotation_quarantine ++ [⟨epoch, reason, now⟩]
  { s with rotation_quarantine := rows.drop (rows.length - ROTATION_QUARANTINE_CAP) }

/-- The row that `_record_acking_rotation` inserts. -/
def ackingRow (new_epoch prior_epoch : Nat) (prepare : Prepare) (prepare_event_id : EventId)
    (now : Nat) : Rotation :=
  { epoch := new_epoch, role := .acking, phase := .acknowledged, prior_epoch := prior_epoch,
    prior_fingerprint := prepare.prior_fingerprint,
    new_public_key := prepare.new_agreement_key,
    prepare_event_id := some prepare_event_id, prepared_at := now,
    acknowledged_at := some now, deadline := prepare.deadline }

/-- `_record_acking_rotation`. -/
def recordAckingRotation (s : Side) (new_epoch prior_epoch : Nat) (prepare : Prepare)
    (prepare_event_id : EventId) (now : Nat) : Side :=
  let kept := s.key_rotations.delete
    (fun r => r.key = (new_epoch, Role.acking) ∧ r.phase = .discarded)
  if (kept.find (new_epoch, .acking)).isSome then
    { s with key_rotations := kept }
  else
    { s with
        key_rotations := kept.insertOrIgnore
          (ackingRow new_epoch prior_epoch prepare prepare_event_id now)
        rotation_quarantine := s.rotation_quarantine.filter
          (fun q => ¬ (q.reason = .unknown_future_epoch ∧ q.epoch ≤ new_epoch))
        unknown_epoch_first_seen :=
          s.unknown_epoch_first_seen.delete (fun f => decide (f.epoch ≤ new_epoch)) }

/-- The part of `on_prepare` after the prior key was found: the checks and
the transaction for an epoch that has no peer key yet. -/
def acceptPrepare (s : Side) (prior_epoch : Nat) (prepare : Prepare)
    (prepare_event_id : EventId) (now : Nat) : Side × Except Raised Ack :=
  let new_epoch := prior_epoch + 1
  if prior_epoch ≠ (s.peerKeyEpochs.map (·.1)).foldr max 0 then
    (s, .error (.rotation .stale_prior_fingerprint))
  else if (s.ownRow new_epoch).isSome then
    if (s.rotation new_epoch .rotating).all (·.live) then
      -- This side rotates into the epoch too, or crashed while it began to.
      (quarantine s new_epoch (.conflicting_prepare prepare prepare_event_id) now,
        .error (.rotation .conflicting_prepare))
    else
      (s, .error (.rotation .stale_epoch))
  else if new_epoch ≤ s.currentEpoch then
    (s, .error (.rotation .stale_epoch))
  else if s.inFlight.isSome then
    (s, .error (.rotation .rotation_in_flight))
  else if prepare.deadline < now then
    (s, .error (.rotation .prepare_expired))
  else
    match s.key_epochs.insert ⟨new_epoch, prepare.new_agreement_key, .peer⟩ with
    | none => (s, .error .integrity_error)
    | some keys =>
      (recordAckingRotation { s with key_epochs := keys } new_epoch prior_epoch prepare
          prepare_event_id now,
        .ok ⟨new_epoch, prepare_event_id⟩)

/-- `on_prepare`. -/
def onPrepare (s : Side) (prepare : Prepare) (prepare_event_id : EventId) (now : Nat) :
    Side × Except Raised Ack :=
  match s.peerKeyEpochs.find? (fun e => agreementFingerprint e.2 = prepare.prior_fingerprint) with
  | none => (s, .error (.rotation .unknown_prior_fingerprint))
  | some (prior_epoch, _) =>
    let new_epoch := prior_epoch + 1
    match s.peerRow new_epoch with
    | some existing =>
      if existing.public_key ≠ prepare.new_agreement_key then
        (quarantine s new_epoch (.conflicting_prepare prepare prepare_event_id) now,
          .error (.rotation .conflicting_prepare))
      else
        -- A redelivery repairs a missing rotation row and acks again.
        (recordAckingRotation s new_epoch prior_epoch prepare prepare_event_id now,
          .ok ⟨new_epoch, prepare_event_id⟩)
    | none => acceptPrepare s prior_epoch prepare prepare_event_id now

/-- `dual_wrap_keys`: the peer keys of the prior and of the new epoch. -/
def dualWrapKeys (s : Side) : Except Raised ((Nat × AgreementKey) × (Nat × AgreementKey)) :=
  match s.inFlightAs .acking with
  | none => .error (.rotation .no_acknowledged_rotation)
  | some r =>
    if r.phase ≠ .acknowledged ∧ r.phase ≠ .confirmed then
      .error (.rotation .no_acknowledged_rotation)
    else
      match s.peerKey r.prior_epoch, s.peerKey r.epoch with
      | some prior, some new => .ok ((r.prior_epoch, prior), (r.epoch, new))
      | _, _ => .error (.rotation .peer_key_missing)

/-- `may_send`. -/
def maySend (s : Side) (now : Nat) : Except Raised Unit :=
  match s.key_rotations.rows.find? (fun r => r.role = .acking ∧ r.phase = .acknowledged) with
  | none => .ok ()
  | some r =>
    if r.deadline < now then .error (.rotation .send_paused_acknowledged) else .ok ()

/-- `on_confirm`. -/
def onConfirm (s : Side) (epoch now : Nat) : Side × Except Raised Unit :=
  match s.rotation epoch .acking with
  | none => (s, .error (.rotation .confirm_rejected))
  | some r =>
    if r.phase = .confirmed then
      (s, .ok ())
    else if r.phase ≠ .acknowledged then
      (s, .error (.rotation .confirm_rejected))
    else
      (s.updateRotation epoch .acking
        (fun r => { r with phase := .confirmed, confirmed_at := some now }) (fun _ => rfl), .ok ())

/-- The epochs of the committed rows of a role. -/
def committedEpochs (s : Side) (role : Role) : List Nat :=
  (s.key_rotations.rows.filter (fun r => r.role = role ∧ r.phase = .committed)).map (·.epoch)

/-- `build_commit_payload`: the confirmed epoch, else the latest committed
one. -/
def buildCommitPayload (s : Side) : Except Raised Nat :=
  match (s.inFlightAs .acking).filter (·.phase = .confirmed) with
  | some r => .ok r.epoch
  | none =>
    match Newest.newest (committedEpochs s .acking) with
    | epoch :: _ => .ok epoch
    | [] => .error (.rotation .nothing_to_commit)

/-- `mark_committed`. -/
def markCommitted (s : Side) (now : Nat) : Side × Except Raised Unit :=
  match s.inFlightAs .acking with
  | none =>
    if (committedEpochs s .acking).isEmpty then
      (s, .error (.rotation .nothing_to_commit))
    else
      (s, .ok ())
  | some r =>
    if r.phase ≠ .confirmed then
      (s, .error (.rotation .nothing_to_commit))
    else
      let committed := s.updateRotation r.epoch .acking
        (fun r => { r with phase := .committed, committed_at := some now }) (fun _ => rfl)
      ({ committed with
          key_epoch := r.epoch, peer_agreement_key := some r.new_public_key }, .ok ())

/-! ## The epoch gate -/

/-- `_cap_first_seen`. -/
def capFirstSeen (s : Side) : Side :=
  let later (a b : FirstSeen) : Bool :=
    b.first_seen_at < a.first_seen_at ∨ (b.first_seen_at = a.first_seen_at ∧ b.epoch ≤ a.epoch)
  let kept := ((s.unknown_epoch_first_seen.rows.filter (fun f => !f.rejected)).insertionSort
    (fun a b => later a b)).take FIRST_SEEN_CAP
  { s with
      unknown_epoch_first_seen :=
        s.unknown_epoch_first_seen.delete (fun f => !f.rejected && !kept.contains f) }

/-- `on_data_event_epoch`. -/
def onDataEventEpoch (s : Side) (key_epoch now : Nat) : Side × Except Raised Unit :=
  if key_epoch ≤ s.currentEpoch then
    (s, .ok ())
  else
    let seen := capFirstSeen
      { s with
          unknown_epoch_first_seen := s.unknown_epoch_first_seen.insertOrIgnore ⟨key_epoch, now, false⟩ }
    let rejected := (seen.unknown_epoch_first_seen.find key_epoch).any
      (fun f => f.rejected || decide (f.first_seen_at + ROTATION_WINDOW < now))
    if rejected then
      let buried := { seen with
          unknown_epoch_first_seen := seen.unknown_epoch_first_seen.modify key_epoch
            (fun f => { f with rejected := true }) (fun _ => rfl) }
      (quarantine buried key_epoch .unknown_future_epoch_rejected now,
        .error (.rotation .unknown_future_epoch_rejected))
    else
      (quarantine seen key_epoch .unknown_future_epoch now,
        .error (.rotation .unknown_future_epoch))

/-! ## Sweep -/

/-- `_discard_candidate` with an expected phase, inside the transaction of
the caller.  The answer is whether the guarded update matched a row, and the
key file to delete after the commit. -/
def discardCandidate (s : Side) (epoch : Nat) (expected_phase : Phase) :
    Except Raised (Side × Bool × Option KeyRef) :=
  if (s.rotation epoch .rotating).any (·.phase = expected_phase) then
    if (s.ownRow epoch).isSome ∧ s.referenced epoch = true then
      .error .integrity_error
    else
      let discarded := s.updateRotation epoch .rotating
        (fun r => { r with phase := .discarded }) (fun _ => rfl)
      .ok ({ discarded with
              key_epochs := discarded.key_epochs.delete (fun r => r.epoch = epoch ∧ r.isOwn = true) },
        true, (s.ownRow epoch).map (·.private_key_ref))
  else
    .ok (s, false, none)

/-- The rows that `_compact_committed_rotations` deletes. -/
def staleCommitted (s : Side) (now : Nat) (r : Rotation) : Bool :=
  r.phase = .committed ∧
    r.committed_at.any (fun t => t + KEY_ROTATION_COMMITTED_RETENTION ≤ now) = true ∧
    ∃ e ∈ committedEpochs s r.role, r.epoch < e

/-- The peer rows that `_compact_peer_key_epochs` deletes. -/
def stalePeer (s : Side) (r : KeyRow) : Bool :=
  !r.isOwn &&
    !((Newest.newest (s.peerRows.map (·.epoch))).take PEER_KEY_EPOCH_RETAIN_NEWEST).contains r.epoch

/-- The first transaction of `sweep`. -/
def sweepCompact (s : Side) (now : Nat) : Side × Except Raised Unit :=
  if s.peerRows.any (fun r => stalePeer s r && s.referenced r.epoch) then
    (s, .error .integrity_error)
  else
    ({ s with
        rotation_quarantine := s.rotation_quarantine.filter (fun q =>
          ¬ (q.reason = .unknown_future_epoch_rejected ∧
            q.received_at + ROTATION_QUARANTINE_REJECTED_RETENTION ≤ now))
        rotation_wrap_seen_pending :=
          s.rotation_wrap_seen_pending.delete (fun w => decide (w.seen_at + ROTATION_WINDOW ≤ now))
        key_rotations := s.key_rotations.delete (staleCommitted s now)
        key_epochs := s.key_epochs.delete (stalePeer s) }, .ok ())

/-- The candidate that timed out first. -/
def timedOutCandidate (s : Side) (now : Nat) : Option Rotation :=
  ((s.key_rotations.rows.filter
      (fun r => r.role = .rotating ∧ r.phase = .candidate ∧ r.deadline ≤ now)).insertionSort
    (fun a b => a.deadline ≤ b.deadline)).head?

/-- The second transaction of `sweep` and the file deletion that follows it. -/
def sweepTimeout (s : Side) (now : Nat) : Side × Except Raised Unit :=
  match timedOutCandidate s now with
  | none => (s, .ok ())
  | some r =>
    match discardCandidate s r.epoch .candidate with
    | .error raised => (s, .error raised)
    | .ok (_, false, _) => (s, .ok ())
    | .ok (discarded, true, path) =>
      (path.elim discarded discarded.deletePrivateKey, .error (.rotation .no_ack_timeout))

/-- The body of the retirement loop of `sweep` for one fetched row: its
transaction and the file deletion that follows it. -/
def sweepRetire (s : Side) (row : Rotation) (now : Nat) : Side × Except Raised Unit :=
  match row.committed_at with
  | none => (s, .error .bad_timestamp)
  | some committed_at =>
    if committed_at + OLD_KEY_RETENTION ≤ now ∨
        OLD_KEY_EVENT_LIMIT ≤ row.accepted_events_since_commit then
      if (s.ownRow row.epoch).isNone then
        -- The new key is gone, so the old one is still current for the peer.
        (s, .ok ())
      else
        let retired := { s with
          key_rotations := s.key_rotations.delete
            (fun r => r.key = (row.epoch, Role.rotating) ∧ r.phase = .committed) }
        match s.ownRow row.prior_epoch with
        | none => (retired, .ok ())
        | some old =>
          if s.referenced row.prior_epoch then
            (s, .error .integrity_error)
          else
            ({ retired with
                key_epochs := retired.key_epochs.delete
                  (fun r => r.epoch = row.prior_epoch ∧ r.isOwn = true) }.deletePrivateKey
              old.private_key_ref, .ok ())
    else
      (s, .ok ())

/-- The rows that the retirement loop of `sweep` fetches. -/
def committedRotating (s : Side) : List Rotation :=
  s.key_rotations.rows.filter (fun r => r.role = .rotating ∧ r.phase = .committed)

/-- The retirement loop of `sweep`. -/
def sweepRetireAll (s : Side) (now : Nat) : List Rotation → Side × Except Raised Unit
  | [] => (s, .ok ())
  | row :: rows =>
    match sweepRetire s row now with
    | (s', .ok ()) => sweepRetireAll s' now rows
    | (s', .error raised) => (s', .error raised)

/-- `sweep`. -/
def sweep (s : Side) (now : Nat) : Side × Except Raised Unit :=
  match sweepCompact s now with
  | (s₁, .error raised) => (s₁, .error raised)
  | (s₁, .ok ()) =>
    match sweepTimeout s₁ now with
    | (s₂, .error raised) => (s₂, .error raised)
    | (s₂, .ok ()) => sweepRetireAll s₂ now (committedRotating s₂)

end RotationManager

end MuseAgentSocial.Crypto
