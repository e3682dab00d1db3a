import Mathlib.Data.Finset.Erase
import Mathlib.Data.Finset.Insert
import MuseAgentSocial.Canonical.Jcs
import MuseAgentSocial.Crypto.Sealing
import MuseAgentSocial.Lib.Serial
import MuseAgentSocial.Scheduler.Queue

/-!
# The transactional outbox

A model of the send path of `model/events.py` and its callers in `cli.py`, statement by
statement.

* `persistOutgoing` is `persist_outgoing_in_txn`: one body claims the approval, assigns
  the number, seals the event and inserts its rows.
* `receiveCommit` is the transaction of `_receive_object_inner`, with the accepted
  receipt that it sends.
* `runDue` is the loop of `run_due`, which ends every send and every receive.  It gives the
  approval of an event that was not delivered back.
* `outbox` is the machine of one local identity whose processes send, receive, cancel and
  record approvals at once, where any statement may fail.
-/

namespace MuseAgentSocial.Outbox

open Model Crypto Canonical Json
open Policy (LATE_WINDOW_SECONDS)
open Scheduler (SchedState Status UndeliveredNote MAX_RELEASE_ATTEMPTS)

abbrev ConversationId := Nat

abbrev ThreadId := EventId

/-! ## Events -/

/-- The payloads that the send path tells apart.  A missing `approval_record_id` is `none`. -/
inductive Payload where
  | humanResponded (request_id : Nat) (answer : Text) (approved : Bool) (approval_record_id : Option ApprovalId)
  | pollResponded (poll_id : Nat) (choice_ids : List Text) (human_confirmed : Bool)
      (approval_record_id : Option ApprovalId)
  | receiptAccepted (target_event_id : EventId) (accepted_at : Nat)
  | receiptSeen (target_event_id : EventId)
  | other (event_type content : Nat)
  deriving DecidableEq, Repr

/-- `approval_id` of `_send_event`. -/
def Payload.approvalId : Payload → Option ApprovalId
  | .humanResponded _ _ _ a => a
  | .pollResponded _ _ _ a => a
  | _ => none

/-- `validate_payload` -/
def Payload.valid : Payload → Bool
  | .humanResponded _ _ _ a => a.isSome
  | .pollResponded _ choice_ids human_confirmed a =>
    choice_ids ≠ [] ∧ (∀ c ∈ choice_ids, c ≠ []) ∧ choice_ids.Nodup ∧ (human_confirmed = true → a.isSome)
  | _ => true

/-- The protected header. -/
structure Protected where
  event_id : EventId
  relationship_id : RelationshipId
  conversation_id : ConversationId
  sender : IdentityId
  sender_seq : Nat
  created_at : Nat
  deliver_at : Option Nat
  expires_at : Option Nat
  thread_id : Option ThreadId
  reply_to : Option EventId
  key_epoch : Nat
  replay_nonce : Nat
  deriving DecidableEq, Repr

/-- A sealed envelope. -/
structure SealedEnvelope where
  header : Protected
  recipients : List Wrap
  /-- What the ciphertext holds. -/
  payload : Payload
  signer : IdentityId
  deriving DecidableEq, Repr

/-- What a transaction raises. -/
inductive SendError where
  | approval_consumed | canonicalization
  | no_recipients | too_many_recipients | sender_key_mismatch | schema_invalid
  | thread_conversation_mismatch | duplicate_event | duplicate_nonce | sequence_conflict | missing_reference
  | integrity_error | sequence_fork
  /-- `InvalidSchedulerTransition`. -/
  | invalid_transition
  /-- `_ReleaseGated`. -/
  | release_gated
  /-- Any other exception. -/
  | failed
  deriving DecidableEq, Repr

/-- `seal_envelope`.  The header is copied into the envelope. -/
def sealEnvelope (header : Protected) (payload : Payload) (identity : IdentityId) (recipients : List Wrap) :
    Except SendError SealedEnvelope :=
  if recipients = [] then .error .no_recipients
  else if 2 < recipients.length then .error .too_many_recipients
  else if header.sender ≠ identity then .error .sender_key_mismatch
  else if header.sender_seq = 0 ∨ 9007199254740991 < header.sender_seq then .error .schema_invalid
  else .ok ⟨header, recipients, payload, identity⟩

/-! ## The database -/

/-- A row of `threads`. -/
structure ThreadRow where
  thread_id : ThreadId
  conversation_id : ConversationId
  deriving DecidableEq, Repr

/-- A row of `events`. -/
structure EventRow where
  event_id : EventId
  relationship_id : RelationshipId
  conversation_id : ConversationId
  thread_id : Option ThreadId
  sender : IdentityId
  sender_seq : Nat
  created_at : Nat
  key_epoch : Nat
  replay_nonce : Nat
  sealed_envelope : SealedEnvelope
  deriving DecidableEq, Repr

/-- A row of `sender_sequence`. -/
structure SequenceRow where
  relationship_id : RelationshipId
  sender : IdentityId
  last_seq : Nat
  deriving DecidableEq, Repr

/-- The primary key of `sender_sequence`. -/
def SequenceRow.key (r : SequenceRow) : RelationshipId × IdentityId := (r.relationship_id, r.sender)

/-- A row of `event_payloads`. -/
structure PayloadRow where
  event_id : EventId
  payload : Payload
  reply_to : Option EventId
  received_at : Nat
  deriving DecidableEq, Repr

/-- A row of `scheduler_queue`. -/
structure QueueRow where
  scheduled_id : EventId
  inner_event : SealedEnvelope
  deliver_at : Nat
  expires_at : Option Nat
  state : SchedState := .scheduled
  release_failures : Nat := 0
  approval_id : Option ApprovalId := none
  deriving DecidableEq, Repr

/-- `_effective_expires_at` -/
def QueueRow.effectiveExpiresAt (row : QueueRow) : Nat :=
  row.expires_at.getD (row.deliver_at + LATE_WINDOW_SECONDS)

/-- The tables of the send path. -/
structure Tables where
  conversations : Finset ConversationId := ∅
  threads : Table ThreadRow.thread_id := Table.empty
  events : Table EventRow.event_id := Table.empty
  sender_sequence : Table SequenceRow.key := Table.empty
  projection_queue : Finset EventId := ∅
  event_payloads : Table PayloadRow.event_id := Table.empty
  scheduler_queue : Table QueueRow.scheduled_id := Table.empty
  human_approvals : Approvals := Table.empty
  /-- The notes of `surface_queue` about events that were not delivered. -/
  surface_queue : Table UndeliveredNote.event_id := Table.empty
  /-- The relationship exists with the key epoch. -/
  referenced : RelationshipId → Nat → Bool
  accepted_receipts_enabled : RelationshipId → Bool

namespace Tables

variable (s : Tables)

/-- The events of a sender in a relationship. -/
def sentBy (rid : RelationshipId) (sender : IdentityId) : List EventRow :=
  s.events.rows.filter (fun e => e.relationship_id = rid ∧ e.sender = sender)

/-- `COALESCE(MAX(sender_seq), 0)` -/
def maxSeq (rid : RelationshipId) (sender : IdentityId) : Nat :=
  ((s.sentBy rid sender).map (·.sender_seq)).max?.getD 0

/-- `last_seq`, 0 without a row. -/
def lastSeq (rid : RelationshipId) (sender : IdentityId) : Nat :=
  (s.sender_sequence.find (rid, sender)).elim 0 (·.last_seq)

/-- The insert into `events`, with the errors of `_classify_integrity`. -/
def insertEvent (row : EventRow) : Except SendError Tables :=
  match s.events.insert row with
  | none => .error .duplicate_event
  | some events =>
    if s.events.rows.any (fun e => e.replay_nonce = row.replay_nonce) then .error .duplicate_nonce
    else if s.events.rows.any (fun e =>
        e.relationship_id = row.relationship_id ∧ e.sender = row.sender ∧ e.sender_seq = row.sender_seq) then
      .error .sequence_conflict
    else if ¬ s.referenced row.relationship_id row.key_epoch then .error .missing_reference
    else .ok { s with events }

/-- The upsert of `sender_sequence`. -/
def advanceSequence (rid : RelationshipId) (sender : IdentityId) (seq : Nat) : Tables :=
  { s with sender_sequence := s.sender_sequence.upsert ⟨rid, sender, max (s.lastSeq rid sender) seq⟩ }

/-- The insert into `scheduler_queue`. -/
def enqueue (row : QueueRow) : Except SendError Tables :=
  match s.scheduler_queue.insert row with
  | none => .error .integrity_error
  | some scheduler_queue => .ok { s with scheduler_queue }

/-- `scheduler_queue.state` of an event. -/
def stateOf (scheduled_id : EventId) : Option SchedState :=
  (s.scheduler_queue.find scheduled_id).map (·.state)

/-- `approval_id` of the row of `scheduler_queue`. -/
def approvalOf (event_id : EventId) : Option ApprovalId :=
  (s.scheduler_queue.find event_id).bind (·.approval_id)

/-- `UPDATE scheduler_queue SET state = ? WHERE scheduled_id = ? AND state = 'scheduled'` -/
def leaveScheduled (scheduled_id : EventId) (state : SchedState) : Tables :=
  { s with
    scheduler_queue := s.scheduler_queue.modify scheduled_id
      (fun r => if r.state = .scheduled then { r with state } else r) (fun r => by split_ifs <;> rfl) }

/-- `UPDATE scheduler_queue SET release_failures = release_failures + 1 WHERE scheduled_id = ?` -/
def countFailure (scheduled_id : EventId) : Tables :=
  { s with
    scheduler_queue := s.scheduler_queue.modify scheduled_id
      (fun r => { r with release_failures := r.release_failures + 1 }) (fun _ => rfl) }

theorem find_leaveScheduled (sid : EventId) (state : SchedState) (id : EventId) :
    (s.leaveScheduled sid state).scheduler_queue.find id =
      if id = sid then
        (s.scheduler_queue.find sid).map (fun r => if r.state = .scheduled then { r with state } else r)
      else s.scheduler_queue.find id := by
  rw [leaveScheduled, Table.find_modify]

theorem find_countFailure (sid id : EventId) :
    (s.countFailure sid).scheduler_queue.find id =
      if id = sid then
        (s.scheduler_queue.find sid).map (fun r => { r with release_failures := r.release_failures + 1 })
      else s.scheduler_queue.find id := by
  rw [countFailure, Table.find_modify]

/-- The rows that `run_due` visits, ordered by `deliver_at` and then by id. -/
def dueRows : List QueueRow :=
  (s.scheduler_queue.rows.filter
    (fun r => r.state = .scheduled ∧ r.release_failures < MAX_RELEASE_ATTEMPTS)).insertionSort
    (fun r r' => r.deliver_at < r'.deliver_at ∨ (r.deliver_at = r'.deliver_at ∧ r.scheduled_id ≤ r'.scheduled_id))

end Tables

/-- The row of `events` of a sealed event. -/
def Protected.row (header : Protected) (sealed_envelope : SealedEnvelope) : EventRow where
  event_id := header.event_id
  relationship_id := header.relationship_id
  conversation_id := header.conversation_id
  thread_id := header.thread_id
  sender := header.sender
  sender_seq := header.sender_seq
  created_at := header.created_at
  key_epoch := header.key_epoch
  replay_nonce := header.replay_nonce
  sealed_envelope := sealed_envelope

/-! ## The send transaction -/

/-- `_poll_answer`: the canonical JSON of the choice list, as text.  A list of strings takes at
most four frames of the stack, which a send has. -/
def pollAnswer (choice_ids : List Text) : Except EncodeRaised Text :=
  (encode (fun _ : Unit => false) 4 (.list (choice_ids.map .str)) []).map (·.map .scalar)

/-- The bindings that `persist_outgoing_in_txn` derives from the event: none without
`human_confirmed`. -/
def Payload.bindings (rid : RelationshipId) : Payload → Except SendError (Option Binding)
  | .humanResponded request_id answer approved _ =>
    .ok (some ⟨rid, .human_request, request_id, answer.map CodePoint.ord, approved⟩)
  | .pollResponded poll_id choice_ids true _ =>
    match pollAnswer choice_ids with
    | .ok answer => .ok (some ⟨rid, .poll, poll_id, answer.map CodePoint.ord, true⟩)
    | .error _ => .error .canonicalization
  | _ => .ok none

/-- A statement of a body. -/
abbrev Body := Txn Tables SendError

/-- The claim of the approval. -/
def claimApproval {α : Type} (payload : Payload) (rid : RelationshipId) (now : Nat) (k : Body α) : Body α :=
  match payload.approvalId with
  | none => k
  | some a =>
    match payload.bindings rid with
    | .error e => .raise e
    | .ok binding =>
      .execute (fun s =>
        match s.human_approvals.consume a now binding with
        | none => .error .approval_consumed
        | some human_approvals => .ok { s with human_approvals }) k

/-- The thread of the event, which may not belong to another conversation. -/
def registerThread {α : Type} (header : Protected) (k : Body α) : Body α :=
  match header.thread_id with
  | none => k
  | some thread_id =>
    .query fun s =>
    match s.threads.find thread_id with
    | none =>
      .execute (fun s => .ok { s with threads := s.threads.insertOrIgnore ⟨thread_id, header.conversation_id⟩ }) k
    | some row => if row.conversation_id ≠ header.conversation_id then .raise .thread_conversation_mismatch else k

/-- The rows of a sealed event, from the conversation to the scheduler queue. -/
def insertSealed {α : Type} (header : Protected) (payload : Payload) (envelope : SealedEnvelope) (now : Nat)
    (k : Body α) : Body α :=
  .execute (fun s => .ok { s with conversations := insert header.conversation_id s.conversations }) <|
  registerThread header <|
  .execute (fun s => s.insertEvent (header.row envelope)) <|
  .execute (fun s => .ok (s.advanceSequence header.relationship_id header.sender header.sender_seq)) <|
  .execute (fun s => .ok { s with projection_queue := insert header.event_id s.projection_queue }) <|
  -- `record_projection_input`
  if ¬ payload.valid then .raise .schema_invalid
  else
    .execute (fun s => .ok { s with
      event_payloads := s.event_payloads.insertOrIgnore ⟨header.event_id, payload, header.reply_to, now⟩ }) <|
    .execute (fun s => s.enqueue
      { scheduled_id := header.event_id
        inner_event := envelope
        deliver_at := header.deliver_at.getD now
        expires_at := header.expires_at }) k

/-- `persist_outgoing_in_txn` -/
def persistOutgoing (header : Protected) (payload : Payload) (identity : IdentityId) (recipients : List Wrap)
    (now : Nat) : Body Protected :=
  claimApproval payload header.relationship_id now <|
  .query fun s =>
  let numbered := { header with sender_seq := s.maxSeq header.relationship_id header.sender + 1 }
  match sealEnvelope numbered payload identity recipients with
  | .error e => .raise e
  | .ok envelope =>
    insertSealed numbered payload envelope now <|
    match payload.approvalId with
    | none => .ret numbered
    | some a =>
      .execute (fun s => .ok { s with
        scheduler_queue := s.scheduler_queue.modify numbered.event_id (fun r => { r with approval_id := some a })
          (fun _ => rfl) }) (.ret numbered)

/-! ## The release of the queue -/

/-- What a transaction returns: a status from `_release_one_row`, nothing from the others. -/
abbrev Result := Option Status

/-- What a call of `release_fn` comes to.  It reads and writes other tables and the relay. -/
inductive Reply where
  | returned
  /-- `RevokedRelationshipError` or `SendPausedError`. -/
  | refused
  | raised
  /-- The `executescript` of its `RotationManager` commits the claim, so the `COMMIT` or
  `ROLLBACK` of the transaction raises. -/
  | committed
  deriving DecidableEq, Repr

/-- The guarded update that takes a row out of `scheduled`, where the row count must be 1. -/
def takeScheduled {α : Type} (scheduled_id : EventId) (state : SchedState) (k : Body α) : Body α :=
  .query fun s =>
  if s.stateOf scheduled_id = some .scheduled then
    .execute (fun s => .ok (s.leaveScheduled scheduled_id state)) k
  else .raise .invalid_transition

/-- `_restore_approval_for_undelivered` -/
def restoreApprovalForUndelivered {α : Type} (scheduled_id : EventId) (approval_id : Option ApprovalId) (now : Nat)
    (terminal_state : SchedState) (k : Body α) : Body α :=
  match approval_id with
  | none => k
  | some a =>
    .query fun s =>
    let restored := (s.human_approvals.find a).any (fun r => r.consumed_at.isSome ∧ now < r.expires_at)
    .execute (fun s => .ok { s with human_approvals := s.human_approvals.restore a now }) <|
    .execute (fun s => .ok { s with
      surface_queue := s.surface_queue.insertOrIgnore ⟨scheduled_id, terminal_state, a, restored, now⟩ }) k

/-- The transaction of `_release_one_row`, for a row that `run_due` has read. -/
def releaseOneRow (now : Nat) (reply : Reply) (row : QueueRow) : Body Result :=
  .query fun s =>
  match s.stateOf row.scheduled_id with
  | some .canceled => .ret (some .skipped_canceled)
  | some .scheduled =>
    if row.effectiveExpiresAt ≤ now then
      .execute (fun s => .ok (s.leaveScheduled row.scheduled_id .expired)) <|
      restoreApprovalForUndelivered row.scheduled_id row.approval_id now .expired (.ret (some .expired))
    else if now < row.deliver_at then .ret (some .not_due)
    else
      takeScheduled row.scheduled_id .released <|
      match reply with
      | .returned | .committed => .ret (some .released)
      | .refused => .raise .release_gated
      | .raised => .raise .failed
  | _ => .ret (some .skipped)

/-- `_record_release_failure` -/
def recordReleaseFailure (scheduled_id : EventId) (utcnow : Nat) : Body Result :=
  .execute (fun s => .ok (s.countFailure scheduled_id)) <|
  .query fun s =>
  match s.scheduler_queue.find scheduled_id with
  | none => .raise .failed
  | some row =>
    if MAX_RELEASE_ATTEMPTS ≤ row.release_failures then
      .execute (fun s => .ok (s.leaveScheduled scheduled_id .dead)) <|
      .query fun s =>
      restoreApprovalForUndelivered scheduled_id (s.approvalOf scheduled_id) utcnow .dead (.ret none)
    else .ret none

/-! ## The processes -/

/-- What `_send_event` is asked to send, with what `build_protected` draws. -/
structure Draft where
  event_id : EventId
  relationship_id : RelationshipId
  conversation_id : ConversationId
  created_at : Nat
  deliver_at : Option Nat
  expires_at : Option Nat
  thread_id : Option ThreadId
  reply_to : Option EventId
  key_epoch : Nat
  replay_nonce : Nat
  payload : Payload
  recipients : List Wrap
  /-- The time of the transaction. -/
  now : Nat
  deriving DecidableEq, Repr

/-- `build_protected`: the number is a placeholder. -/
def Draft.header (d : Draft) (sender : IdentityId) : Protected where
  event_id := d.event_id
  relationship_id := d.relationship_id
  conversation_id := d.conversation_id
  sender := sender
  sender_seq := 0
  created_at := d.created_at
  deliver_at := d.deliver_at
  expires_at := d.expires_at
  thread_id := d.thread_id
  reply_to := d.reply_to
  key_epoch := d.key_epoch
  replay_nonce := d.replay_nonce

/-- An object of the relay that passed the checks before the receive transaction, and the
draft of its receipt. -/
structure Received where
  envelope : SealedEnvelope
  now : Nat
  receipt : Draft
  deriving DecidableEq, Repr

/-- The draft of the accepted receipt: in the relationship of the event, about it. -/
def Received.receiptDraft (o : Received) : Draft :=
  { o.receipt with
    relationship_id := o.envelope.header.relationship_id
    conversation_id := o.envelope.header.relationship_id
    deliver_at := none
    expires_at := none
    reply_to := none
    payload := .receiptAccepted o.envelope.header.event_id o.now }

/-- An event for which no receipt goes out. -/
def Payload.isReceipt : Payload → Bool
  | .receiptAccepted _ _ | .receiptSeen _ => true
  | _ => false

/-- `assign_and_persist_outgoing` of a draft. -/
def Draft.persist (d : Draft) (me : IdentityId) : Body Result :=
  (persistOutgoing (d.header me) d.payload me d.recipients d.now).bind (fun _ => .ret none)

/-- The receive transaction of `_receive_object_inner`. -/
def receiveCommit (me : IdentityId) (o : Received) : Body Result :=
  let header := o.envelope.header
  .execute (fun s => .ok { s with conversations := insert header.conversation_id s.conversations }) <|
  .execute (fun s => .ok { s with
    threads := header.thread_id.elim s.threads
      (fun t => s.threads.insertOrIgnore ⟨t, header.conversation_id⟩) }) <|
  .query fun s =>
  if s.events.rows.any (fun e => e.relationship_id = header.relationship_id ∧ e.sender = header.sender ∧
      e.sender_seq = header.sender_seq ∧ e.event_id ≠ header.event_id) then .raise .sequence_fork
  else
    .execute (fun s => .ok (s.advanceSequence header.relationship_id header.sender header.sender_seq)) <|
    .execute (fun s => s.insertEvent (header.row o.envelope)) <|
    .execute (fun s => .ok { s with
      event_payloads := s.event_payloads.insertOrIgnore
        ⟨header.event_id, o.envelope.payload, header.reply_to, o.now⟩ }) <|
    .execute (fun s => .ok { s with projection_queue := insert header.event_id s.projection_queue }) <|
    .query fun s =>
    if s.accepted_receipts_enabled header.relationship_id ∧ ¬ o.envelope.payload.isReceipt then
      o.receiptDraft.persist me
    else .ret none

/-- The projection transaction: `apply_event` writes tables that the send path does not
read, and the queue row goes. -/
def acknowledgeProjection (event_id : EventId) : Body Result :=
  .execute (fun s => .ok { s with projection_queue := s.projection_queue.erase event_id }) (.ret none)

/-- `create_approval` -/
def createApproval (record : Approval) : Body Result :=
  .execute (fun s =>
    match s.human_approvals.insert { record with consumed_at := none } with
    | none => .error .integrity_error
    | some human_approvals => .ok { s with human_approvals }) (.ret none)

/-- A call of `run_due`: its `now`, and for each row what `release_fn` comes to and the clock
of `_record_release_failure`. -/
structure DueRun where
  now : Nat := 0
  reply : EventId → Reply := fun _ => .returned
  utcnow : EventId → Nat := fun _ => 0

/-- What a process is called for. -/
inductive Op where
  /-- The human records an answer. -/
  | approve (record : Approval)
  | send (d : Draft) (due : DueRun)
  | receive (o : Received)
  /-- The `scheduler.cancel` of a `delivery.canceled`, after its projection. -/
  | cancel (scheduled_id : EventId)
  /-- The `run_due` of `_receive_relationship`, after its objects. -/
  | runDue (due : DueRun)

/-- A process. -/
abbrev Process := Script Tables SendError Result

/-- `next` when the transaction committed. -/
def onCommit (next : Process) : Except SendError Result → Process
  | .ok _ => next
  | .error _ => .done

/-- Project an event, then go on. -/
def project (event_id : EventId) (next : Process) : Process :=
  .transaction (acknowledgeProjection event_id) (onCommit next)

/-- `scheduler.cancel` -/
def cancel (scheduled_id : EventId) : Process :=
  .query fun s =>
  if s.stateOf scheduled_id = some .scheduled then
    .transaction (takeScheduled scheduled_id .canceled (.ret none)) (fun _ => .done)
  else .done

/-- The loop of `run_due`: a row whose release raises has a failure counted. -/
def processRows (due : DueRun) : List QueueRow → Process
  | [] => .done
  | row :: rows =>
    let count : Process :=
      .transaction (recordReleaseFailure row.scheduled_id (due.utcnow row.scheduled_id))
        (onCommit (processRows due rows))
    .transaction (releaseOneRow due.now (due.reply row.scheduled_id) row) fun
      | .ok (some .released) => if due.reply row.scheduled_id = .committed then count else processRows due rows
      | .ok _ | .error .release_gated => processRows due rows
      | .error _ => count

/-- `run_due` -/
def runDue (due : DueRun) : Process :=
  .query fun s => processRows due s.dueRows

/-- The sender check of `_receive_object_inner`, which lets the identities of the peer of a
relationship pass.  The own identity is none of them. -/
structure Peers (me : IdentityId) where
  admits : RelationshipId → IdentityId → Bool
  not_me : ∀ rid, admits rid me = false

/-- The code of the processes of the identity `me`.  The cancellation of `_send_event`, and the
retraction that it sends when this comes too late, are operations of their own, which may be
called between any two turns of the send. -/
def code {me : IdentityId} (peers : Peers me) : Op → Process
  | .approve record => .transaction (createApproval record) (onCommit .done)
  | .send d due => .transaction (d.persist me) (onCommit (project d.event_id (runDue due)))
  | .receive o =>
    if peers.admits o.envelope.header.relationship_id o.envelope.header.sender then
      .transaction (receiveCommit me o) (onCommit (project o.envelope.header.event_id .done))
    else .done
  | .cancel scheduled_id => cancel scheduled_id
  | .runDue due => runDue due

/-- The processes of one local identity, on the tables of new relationships. -/
def outbox {me : IdentityId} (peers : Peers me) : Machine (Served Tables SendError Result Op) (Turn SendError Op) :=
  serving (fun s => ∃ referenced enabled, s = { referenced, accepted_receipts_enabled := enabled }) (code peers)

end MuseAgentSocial.Outbox
