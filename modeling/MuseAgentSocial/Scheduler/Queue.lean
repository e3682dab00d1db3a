import Mathlib.Data.List.Sort
import MuseAgentSocial.Lib.Connection
import MuseAgentSocial.Model.Approvals
import MuseAgentSocial.Transports.Git

/-!
# The scheduler queue

The rows and the statements of `scheduler.py`, and the send transaction of
`model/events.py` that fills the queue.

* `Store` is the part of the database the scheduler and its release function
  read and write.
* `persistOutgoing` is `persist_outgoing_in_txn`: the approval claim, the
  event row and the queue row commit together.
* `releaseOneRow` and `recordReleaseFailure` are programs on a connection,
  so the release function runs inside the transaction of the claim, as in
  the source, and may end that transaction.
-/

namespace MuseAgentSocial.Scheduler

open Policy Model Transports Sqlite

/-! ## The tables -/

/-- `SCHEDULER_STATES`. -/
inductive SchedState where
  | scheduled
  | released
  | canceled
  | expired
  | dead
  deriving DecidableEq, Repr

/-- A row of `scheduler_queue`. -/
structure ScheduledRow where
  scheduled_id : EventId
  inner_event : Blob
  deliver_at : Nat
  expires_at : Option Nat := none
  state : SchedState := .scheduled
  release_failures : Nat := 0
  approval_id : Option ApprovalId := none
  deriving DecidableEq, Repr

/-- The snapshot of an undelivered event, for the operator. -/
structure UndeliveredNote where
  event_id : EventId
  terminal_state : SchedState
  approval_id : ApprovalId
  approval_restored : Bool
  queued_at : Nat
  deriving DecidableEq, Repr

/-- The payload of an event: what `persist_outgoing_in_txn` derives the bindings from, and
the ids that a cancel reads. -/
inductive OutgoingPayload where
  | human_responded (request_id : Nat) (answer : List Nat) (approved : Bool)
  | poll_responded (poll_id : Nat) (choice_ids : List Nat) (human_confirmed : Bool)
  | delivery_scheduled (inner_event_id : EventId)
  | delivery_canceled (scheduled_event_id : EventId)
  | message_retracted (target_event_id : EventId)
  | other
  deriving DecidableEq, Repr

/-- A row of `events` with its payload in `event_payloads`, as far as the release path and
a cancel read them. -/
structure EventRow where
  event_id : EventId
  relationship_id : RelationshipId
  payload : OutgoingPayload
  deriving DecidableEq, Repr

/-- `relationships.consent_state`. -/
inductive ConsentState where
  | active
  | revoked
  deriving DecidableEq, Repr

/-- A row of `relationships`. -/
structure RelationshipRow where
  relationship_id : RelationshipId
  consent_state : ConsentState
  deriving DecidableEq, Repr

/-- A row of `key_rotations` in role `acking` and phase `acknowledged`. -/
structure AckedRotation where
  relationship_id : RelationshipId
  deadline : Nat
  deriving DecidableEq, Repr

/-- A row of `sent_objects`. -/
structure SentObject where
  scheduled_id : EventId
  object_name : ObjectName
  deriving DecidableEq, Repr

/-- A row of `transport_mutations`. -/
structure MutationRow where
  relationship_id : RelationshipId
  mutation : Mutation
  deriving DecidableEq

/-- What the scheduler and the release function read and write. -/
structure Store where
  scheduler_queue : Table ScheduledRow.scheduled_id := Table.empty
  human_approvals : Approvals := Table.empty
  surface_queue : Table UndeliveredNote.event_id := Table.empty
  events : Table EventRow.event_id := Table.empty
  relationships : Table RelationshipRow.relationship_id := Table.empty
  acked_rotations : List AckedRotation := []
  /-- The relationships whose relay configuration is complete. -/
  relay_config : List RelationshipId := []
  sent_objects : Table SentObject.scheduled_id := Table.empty
  transport_mutations : List MutationRow := []
  /-- `unknown_epoch_first_seen` has its `rejected` column. -/
  has_rejected_column : Bool := true

/-- `MAX_RELEASE_ATTEMPTS`. -/
def MAX_RELEASE_ATTEMPTS : Nat := 3

/-- `_effective_expires_at`. -/
def ScheduledRow.effectiveExpiresAt (row : ScheduledRow) : Nat :=
  row.expires_at.getD (row.deliver_at + LATE_WINDOW_SECONDS)

/-! ## Statements -/

/-- `UPDATE scheduler_queue SET state = ? WHERE scheduled_id = ? AND
state = 'scheduled'`. -/
def Store.leaveScheduled (s : Store) (sid : EventId) (next : SchedState) : Store :=
  { s with
    scheduler_queue := s.scheduler_queue.modify sid
      (fun r => if r.state = .scheduled then { r with state := next } else r)
      (fun r => by split_ifs <;> rfl) }

/-- The statement above with its row count. -/
def leaveScheduledStmt (sid : EventId) (next : SchedState) :
    Store → Except DbError (Store × Nat) := fun s =>
  .ok (s.leaveScheduled sid next,
    if (s.scheduler_queue.find sid).any (·.state = .scheduled) then 1 else 0)

/-- `UPDATE human_approvals SET consumed_at = NULL` on a consumed record
within its time. -/
def Store.restoreApproval (s : Store) (a : ApprovalId) (now : Nat) : Store :=
  { s with human_approvals := s.human_approvals.restore a now }

/-- The statement above with its answer whether a row was updated. -/
def restoreApprovalStmt (a : ApprovalId) (now : Nat) : Store → Except DbError (Store × Bool) :=
  fun s => .ok (s.restoreApproval a now,
    (s.human_approvals.find a).any (fun r => r.consumed_at.isSome && decide (now < r.expires_at)))

/-- The operator notification in `surface_queue`. -/
def Store.noteUndelivered (s : Store) (note : UndeliveredNote) : Store :=
  { s with surface_queue := s.surface_queue.insertOrIgnore note }

/-- `UPDATE scheduler_queue SET release_failures = release_failures + 1`. -/
def Store.countFailure (s : Store) (sid : EventId) : Store :=
  { s with
    scheduler_queue := s.scheduler_queue.modify sid
      (fun r => { r with release_failures := r.release_failures + 1 }) (fun _ => rfl) }

/-! ## The send transaction -/

/-- The binding of the approval claim.  The answer of a poll is the list of
the chosen ids. -/
def OutgoingPayload.binding (rid : RelationshipId) : OutgoingPayload → Option Binding
  | .human_responded request_id answer approved =>
    some ⟨rid, .human_request, request_id, answer, approved⟩
  | .poll_responded poll_id choice_ids true => some ⟨rid, .poll, poll_id, choice_ids, true⟩
  | .poll_responded _ _ false | .delivery_scheduled _ | .delivery_canceled _ | .message_retracted _ | .other => none

/-- An event that is sent. -/
structure Outgoing where
  event_id : EventId
  relationship_id : RelationshipId
  payload : OutgoingPayload
  sealed_bytes : Blob
  deliver_at : Option Nat := none
  expires_at : Option Nat := none
  /-- `approval_record_id` of an approval-gated payload. -/
  approval_id : Option ApprovalId := none
  deriving DecidableEq, Repr

/-- The claim of the approval, if the event carries one. -/
def claimApproval (s : Store) (o : Outgoing) (now : Nat) : Option Approvals :=
  match o.approval_id with
  | none => some s.human_approvals
  | some a => s.human_approvals.consume a now (o.payload.binding o.relationship_id)

/-- `persist_outgoing_in_txn`.  `none` is an exception, which rolls the
transaction back. -/
def persistOutgoing (s : Store) (o : Outgoing) (now : Nat) : Option Store := do
  let approvals ← claimApproval s o now
  let events ← s.events.insert ⟨o.event_id, o.relationship_id, o.payload⟩
  let queue ← s.scheduler_queue.insert
    { scheduled_id := o.event_id
      inner_event := o.sealed_bytes
      deliver_at := o.deliver_at.getD now
      expires_at := o.expires_at
      approval_id := o.approval_id }
  some { s with human_approvals := approvals, events := events, scheduler_queue := queue }

/-- `cancel`, of a row that is still scheduled. -/
def cancel (s : Store) (sid : EventId) : Store := s.leaveScheduled sid .canceled

/-! ## Releasing one row -/

/-- The statuses of `_release_one_row`. -/
inductive Status where
  | released
  | expired
  | not_due
  | skipped
  | skipped_canceled
  | skipped_revoked
  | skipped_paused
  deriving DecidableEq, Repr

/-- The exceptions of the release path. -/
inductive SchedExc where
  /-- `RevokedRelationshipError`. -/
  | revoked
  /-- `SendPausedError`. -/
  | paused
  /-- `_ReleaseGated`. -/
  | gated (status : Status)
  /-- `InvalidSchedulerTransition`. -/
  | invalid_transition
  /-- Any other exception of Python. -/
  | other
  deriving DecidableEq, Repr

/-- A program on the scheduler's connection. -/
abbrev SchedProg := Prog Store SchedExc

/-- `release_fn(conn, scheduled_id, sealed_event_envelope, late_by_seconds)`. -/
abbrev ReleaseFn := EventId → Blob → Nat → SchedProg Unit

/-- `_restore_approval_for_undelivered`: the lookup of the bookkeeping
tables and the two writes. -/
def restoreApprovalForUndelivered (sid : EventId) (approval_id : Option ApprovalId) (now : Nat)
    (terminal : SchedState) : SchedProg Unit :=
  match approval_id with
  | none => pure ()
  | some a => do
    let _ ← Prog.query (fun _ => ())
    let restored ← Prog.execute (restoreApprovalStmt a now)
    Prog.execute (fun s => .ok (s.noteUndelivered ⟨sid, terminal, a, restored, now⟩, ()))

/-- The expiry of a row: it is never released, and its approval is given
back in the same transaction. -/
def expireRow (now : Nat) (row : ScheduledRow) : SchedProg (Status × Nat) := do
  let _ ← Prog.execute (leaveScheduledStmt row.scheduled_id .expired)
  restoreApprovalForUndelivered row.scheduled_id row.approval_id now .expired
  pure (.expired, 0)

/-- The skip status of a gate exception; anything else is raised again. -/
def gateHandler : Exc SchedExc → SchedProg (Status × Nat)
  | .app .revoked => Prog.raise (.gated .skipped_revoked)
  | .app .paused => Prog.raise (.gated .skipped_paused)
  | e => Prog.reraise e

/-- The claim and the call of `release_fn`. -/
def claimAndRelease (now : Nat) (releaseFn : ReleaseFn) (row : ScheduledRow) :
    SchedProg (Status × Nat) := do
  let rowcount ← Prog.execute (leaveScheduledStmt row.scheduled_id .released)
  if rowcount ≠ 1 then
    Prog.raise .invalid_transition
  else
    let late_by := now - row.deliver_at
    Prog.tryElse (releaseFn row.scheduled_id row.inner_event late_by)
      (fun _ => pure (.released, late_by)) gateHandler

/-- The body of the transaction of `_release_one_row`. -/
def releaseBody (now : Nat) (releaseFn : ReleaseFn) (row : ScheduledRow) :
    SchedProg (Status × Nat) := do
  let current : Option SchedState ←
    Prog.query (fun s => (s.scheduler_queue.find row.scheduled_id).map (·.state))
  match current with
  | none => pure (.skipped, 0)
  | some .canceled => pure (.skipped_canceled, 0)
  | some .released | some .expired | some .dead => pure (.skipped, 0)
  | some .scheduled =>
    if row.effectiveExpiresAt ≤ now then
      expireRow now row
    else if now < row.deliver_at then
      pure (.not_due, 0)
    else
      claimAndRelease now releaseFn row

/-- `_release_one_row`. -/
def releaseOneRow (now : Nat) (releaseFn : ReleaseFn) (row : ScheduledRow) :
    SchedProg (Status × Nat) :=
  Prog.tryElse (Prog.transaction (releaseBody now releaseFn row)) Prog.ret
    (fun e =>
      match e with
      | .app (.gated status) => pure (status, 0)
      | e => Prog.reraise e)

/-- The body of the transaction of `_record_release_failure`. -/
def recordBody (sid : EventId) (now : Nat) : SchedProg Nat := do
  Prog.execute (fun s => .ok (s.countFailure sid, ()))
  let found : Option Nat ← Prog.query (fun s => (s.scheduler_queue.find sid).map (·.release_failures))
  match found with
  | none => Prog.raise .other
  | some failures =>
    if MAX_RELEASE_ATTEMPTS ≤ failures then do
      let _ ← Prog.execute (leaveScheduledStmt sid .dead)
      let approval_id ← Prog.query (fun s => (s.scheduler_queue.find sid).bind (·.approval_id))
      restoreApprovalForUndelivered sid approval_id now .dead
      pure failures
    else
      pure failures

/-- `_record_release_failure`. -/
def recordReleaseFailure (sid : EventId) (now : Nat) : SchedProg Nat :=
  Prog.transaction (recordBody sid now)

/-! ## `run_due` -/

/-- The buckets of the summary. -/
inductive Bucket where
  | released
  | expired
  | failed
  | dead
  | skipped_canceled
  | skipped_revoked
  | skipped_paused
  deriving DecidableEq, Repr

/-- The bucket of a status; a row that is not due, or no longer scheduled, is
in none. -/
def Status.bucket : Status → Option Bucket
  | .released => some .released
  | .expired => some .expired
  | .skipped_canceled => some .skipped_canceled
  | .skipped_revoked => some .skipped_revoked
  | .skipped_paused => some .skipped_paused
  | .not_due | .skipped => none

/-- The rows `run_due` visits: scheduled, below the failure limit, ordered by
`deliver_at` and then by id. -/
def dueRows (s : Store) : List ScheduledRow :=
  (s.scheduler_queue.rows.filter
    (fun r => r.state = .scheduled && r.release_failures < MAX_RELEASE_ATTEMPTS)).insertionSort
    (fun r r' => r.deliver_at < r'.deliver_at ∨
      (r.deliver_at = r'.deliver_at ∧ r.scheduled_id ≤ r'.scheduled_id))

/-- The loop body of `run_due`: the row is released in its own transaction,
and any exception is counted against it.  `utcnow` is the clock of
`_record_release_failure`. -/
def processRow (now utcnow : Nat) (releaseFn : ReleaseFn) (row : ScheduledRow) :
    SchedProg (Option Bucket) :=
  Prog.tryElse (releaseOneRow now releaseFn row) (fun r => pure r.1.bucket)
    (fun _ => do
      let failures ← recordReleaseFailure row.scheduled_id utcnow
      pure (some (if MAX_RELEASE_ATTEMPTS ≤ failures then .dead else .failed)))

/-- The loop of `run_due` over the visited rows. -/
def processRows (now utcnow : Nat) (releaseFn : ReleaseFn) :
    List ScheduledRow → SchedProg (List (EventId × Bucket))
  | [] => pure []
  | row :: rows => do
    let bucket ← processRow now utcnow releaseFn row
    let summary ← processRows now utcnow releaseFn rows
    pure ((bucket.map (row.scheduled_id, ·)).toList ++ summary)

/-- `run_due`. -/
def runDue (now utcnow : Nat) (releaseFn : ReleaseFn) : SchedProg (List (EventId × Bucket)) := do
  let rows ← Prog.query dueRows
  processRows now utcnow releaseFn rows

end MuseAgentSocial.Scheduler
