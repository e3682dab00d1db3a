import MuseAgentSocial.Crypto.Sealing
import MuseAgentSocial.Model.Approvals

/-!
# The event log and the projection tables

The rows of `store/projections.py`.

* An `Event` is a row of `events` joined with its staged payload.
* `Projections` holds the tables that are derived from the log, and
  `Database` the log and the other tables that a projection reads.

Identifiers are numbers, since the code only compares them.  So are timestamps:
the code compares their texts, and a number stands for the place of a text in
that order.  Where it adds seconds to one or reads the clock, the number is that
of the seconds.
-/

namespace MuseAgentSocial.Store

open Model Crypto

/-- `conversation_id`. -/
abbrev ConversationId := Nat

/-- `thread_id`, the id of the first message of the thread. -/
abbrev ThreadId := EventId

/-! ## Events -/

/-- `format` of a message body. -/
inductive Format where
  | plain
  | markdown_safe
  deriving DecidableEq, Repr

/-- The metadata of an attachment.  Its bytes are not projected. -/
structure Attachment where
  filename : String
  size : Nat
  content_type : Option String
  sha256 : String
  deriving DecidableEq, Repr

/-- `kind` of a receipt. -/
inductive ReceiptKind where
  | accepted
  | seen
  deriving DecidableEq, Repr

/-- `status` of a task. -/
inductive TaskStatus where
  | open
  | in_progress
  | blocked
  | done
  | canceled
  deriving DecidableEq, Repr

/-- `_TASK_TERMINAL`. -/
def TaskStatus.terminal : TaskStatus → Bool
  | .done => true
  | .canceled => true
  | _ => false

/-- The last part of a `security.key` event type. -/
inductive KeyAction where
  | prepare
  | ack
  | confirm
  | commit
  deriving DecidableEq, Repr

/-- The event types. -/
inductive EventType where
  | messageCreated
  | messageEdited
  | messageRetracted
  | reactionAdded
  | reactionRemoved
  | receipt (kind : ReceiptKind)
  | pollCreated
  | pollResponded
  | taskCreated
  | taskUpdated
  | humanRequested
  | humanResponded
  | deliveryScheduled
  | deliveryCanceled
  | securityKey (action : KeyAction)
  | relationshipReady
  | migrationReady
  | migrationCommit
  | identityRotated
  deriving DecidableEq, Repr

/-- A validated payload, with the fields that a handler reads. -/
inductive Payload where
  | messageCreated (body : String) (format : Format) (attachment : Option Attachment)
  | messageEdited (target_event_id : EventId) (body : String) (reason : Option String)
  | messageRetracted (target_event_id : EventId) (reason : Option String)
  | reactionAdded (target_event_id : EventId) (emoji : String)
  | reactionRemoved (target_event_id : EventId) (emoji : String)
  /-- `receipt.accepted` with `accepted_at` or `receipt.seen` with `seen_at`. -/
  | receipt (kind : ReceiptKind) (target_event_id : EventId) (time : Nat)
  | pollCreated (question : String) (choices : List String) (closes_at : Nat) (multi_select : Bool)
  | pollResponded (poll_id : EventId) (choice_ids : List String) (human_confirmed : Bool)
      (approval_record_id : Option ApprovalId)
  | taskCreated (title : String) (owner_identity : IdentityId) (due_at : Option Nat)
  | taskUpdated (task_id : EventId) (status : TaskStatus) (note : Option String)
  | humanRequested (prompt response_shape : String) (expires_at : Nat)
  | humanResponded (request_id : EventId) (answer : String) (approved : Bool)
      (approval_record_id : ApprovalId)
  | deliveryScheduled (inner_event_id : EventId) (deliver_at : Nat) (late_by_seconds : Option Nat)
  | deliveryCanceled (scheduled_event_id : EventId)
  | securityKey (action : KeyAction)
  /-- The types of `_NO_PROJECTION_TYPES`. -/
  | relationshipReady
  | migrationReady
  | migrationCommit
  | identityRotated (new_identity_id : IdentityId)
  deriving DecidableEq, Repr

/-- `event_type`. -/
def Payload.eventType : Payload → EventType
  | .messageCreated _ _ _ => .messageCreated
  | .messageEdited _ _ _ => .messageEdited
  | .messageRetracted _ _ => .messageRetracted
  | .reactionAdded _ _ => .reactionAdded
  | .reactionRemoved _ _ => .reactionRemoved
  | .receipt kind _ _ => .receipt kind
  | .pollCreated _ _ _ _ => .pollCreated
  | .pollResponded _ _ _ _ => .pollResponded
  | .taskCreated _ _ _ => .taskCreated
  | .taskUpdated _ _ _ => .taskUpdated
  | .humanRequested _ _ _ => .humanRequested
  | .humanResponded _ _ _ _ => .humanResponded
  | .deliveryScheduled _ _ _ => .deliveryScheduled
  | .deliveryCanceled _ => .deliveryCanceled
  | .securityKey action => .securityKey action
  | .relationshipReady => .relationshipReady
  | .migrationReady => .migrationReady
  | .migrationCommit => .migrationCommit
  | .identityRotated _ => .identityRotated

/-- A row of `events` with its row of `event_payloads`. -/
structure Event where
  event_id : EventId
  relationship_id : RelationshipId
  conversation_id : ConversationId
  thread_id : Option ThreadId
  sender : IdentityId
  sender_seq : Nat
  created_at : Nat
  key_epoch : Nat
  payload : Payload
  reply_to : Option EventId
  /-- The acceptance time, absent in rows that were staged before it was kept. -/
  received_at : Option Nat
  deriving DecidableEq, Repr

/-! ## Tables -/

/-- `reply_state` of a message. -/
inductive ReplyState where
  | ok
  | pending
  | unavailable
  deriving DecidableEq, Repr

/-- A row of `messages`. -/
structure Message where
  event_id : EventId
  relationship_id : RelationshipId
  conversation_id : ConversationId
  thread_id : Option ThreadId
  sender : IdentityId
  sender_seq : Nat
  created_at : Nat
  body : String
  format : Format
  reply_to : Option EventId
  reply_state : ReplyState
  edited : Bool := false
  current_body : String
  retracted : Bool := false
  retraction_event_id : Option EventId := none
  retracted_at : Option Nat := none
  retraction_reason : Option String := none
  deriving DecidableEq, Repr

/-- A row of `message_revisions`. -/
structure Revision where
  event_id : EventId
  revision_no : Nat
  body : String
  edited_at : Nat
  edit_event_id : Option EventId := none
  reason : Option String := none
  deriving DecidableEq, Repr

/-- The primary key of `message_revisions`. -/
def Revision.key (r : Revision) : EventId × Nat := (r.event_id, r.revision_no)

/-- A row of `reactions`. -/
structure Reaction where
  target_event_id : EventId
  sender : IdentityId
  emoji : String
  active : Bool
  added_event_id : EventId
  added_at : Nat
  removed_event_id : Option EventId := none
  removed_at : Option Nat := none
  deriving DecidableEq, Repr

/-- The primary key of `reactions`. -/
def Reaction.key (r : Reaction) : EventId × IdentityId × String :=
  (r.target_event_id, r.sender, r.emoji)

/-- A row of `receipts`. -/
structure Receipt where
  target_event_id : EventId
  kind : ReceiptKind
  sender : IdentityId
  time : Nat
  receipt_event_id : EventId
  deriving DecidableEq, Repr

/-- The primary key of `receipts`. -/
def Receipt.key (r : Receipt) : EventId × ReceiptKind × IdentityId :=
  (r.target_event_id, r.kind, r.sender)

/-- A row of `polls`. -/
structure Poll where
  poll_id : EventId
  relationship_id : RelationshipId
  conversation_id : ConversationId
  thread_id : Option ThreadId
  sender : IdentityId
  created_at : Nat
  question : String
  choices : List String
  closes_at : Nat
  multi_select : Bool
  response_count : Nat := 0
  deriving DecidableEq, Repr

/-- A row of `poll_responses`. -/
structure PollResponse where
  poll_id : EventId
  sender : IdentityId
  choice_ids : List String
  human_confirmed : Bool
  approval_record_id : Option ApprovalId
  response_event_id : EventId
  responded_at : Nat
  deriving DecidableEq, Repr

/-- The primary key of `poll_responses`. -/
def PollResponse.key (r : PollResponse) : EventId × IdentityId := (r.poll_id, r.sender)

/-- A row of `tasks`. -/
structure TaskRow where
  task_id : EventId
  relationship_id : RelationshipId
  conversation_id : ConversationId
  thread_id : Option ThreadId
  sender : IdentityId
  created_at : Nat
  title : String
  owner_identity : IdentityId
  due_at : Option Nat
  status : TaskStatus := .open
  status_event_id : Option EventId := none
  status_updated_at : Option Nat := none
  note : Option String := none
  deriving DecidableEq, Repr

/-- `state` of a human request; no modelled statement expires one. -/
inductive RequestState where
  | open
  | responded
  deriving DecidableEq, Repr

/-- `attestation` of a human request. -/
inductive Attestation where
  | local
  | peer
  deriving DecidableEq, Repr

/-- A row of `human_requests`. -/
structure HumanRequest where
  request_id : EventId
  relationship_id : RelationshipId
  conversation_id : ConversationId
  thread_id : Option ThreadId
  sender : IdentityId
  created_at : Nat
  prompt : String
  response_shape : String
  expires_at : Nat
  state : RequestState := .open
  answer : Option String := none
  approved : Option Bool := none
  responded_at : Option Nat := none
  response_event_id : Option EventId := none
  approval_record_id : Option ApprovalId := none
  attestation : Attestation := .peer
  deriving DecidableEq, Repr

/-- `state` of a delivery. -/
inductive DeliveryState where
  | scheduled
  | canceled
  deriving DecidableEq, Repr

/-- A row of `deliveries`. -/
structure Delivery where
  scheduled_event_id : EventId
  relationship_id : RelationshipId
  sender : IdentityId
  created_at : Nat
  inner_event_id : EventId
  deliver_at : Nat
  late_by_seconds : Option Nat
  state : DeliveryState := .scheduled
  canceled_at : Option Nat := none
  cancel_event_id : Option EventId := none
  deriving DecidableEq, Repr

/-- A row of `security_key_events`. -/
structure SecurityKeyEvent where
  event_id : EventId
  relationship_id : RelationshipId
  sender : IdentityId
  created_at : Nat
  key_epoch : Nat
  action : KeyAction
  deriving DecidableEq, Repr

/-- A row of `threads`. -/
structure ThreadRow where
  thread_id : ThreadId
  conversation_id : ConversationId
  deriving DecidableEq, Repr

/-- A row of `thread_state`. -/
structure ThreadState where
  thread_id : ThreadId
  conversation_id : ConversationId
  root_event_id : Option EventId := none
  message_count : Nat := 0
  last_event_at : Option Nat := none
  deriving DecidableEq, Repr

/-- `kind` of a pending reference. -/
inductive RefKind where
  | reply
  | edit
  | retract
  | reaction_add
  | reaction_remove
  | receipt
  | poll_response
  | task_update
  | human_response
  | delivery_cancel
  deriving DecidableEq, Repr

/-- `state` of a pending reference. -/
inductive RefState where
  | pending
  | expired
  | resolved
  deriving DecidableEq, Repr

/-- A row of `pending_refs`. -/
structure PendingRef where
  event_id : EventId
  relationship_id : RelationshipId
  target_event_id : EventId
  kind : RefKind
  created_at : Nat
  state : RefState := .pending
  deriving DecidableEq, Repr

/-- A row of `attachments`, before the bytes are written. -/
structure AttachmentRow where
  event_id : EventId
  relationship_id : RelationshipId
  attachment : Attachment
  received_at : Nat
  deriving DecidableEq, Repr

/-- The codes of `ProjectionError` that a validated event can raise. -/
inductive ProjectionCode where
  | thread_scope_mismatch
  | reply_target_scope
  | edit_target_not_message
  | edit_not_sender
  | edit_after_retract
  | retract_target_not_message
  | retract_not_sender
  | reaction_cap_exceeded
  | poll_bad_closes_at
  | poll_response_target_not_poll
  | poll_no_choice
  | poll_duplicate_choice
  | poll_unknown_choice
  | poll_multi_choice_single_select
  | poll_closed
  | task_update_target_not_task
  | task_not_authorized
  | task_transition_terminal
  | human_response_target_not_request
  | delivery_cancel_target_not_scheduled
  | delivery_cancel_not_sender
  deriving DecidableEq, Repr

/-- `reason` of a quarantine row: a fork, the code of a rejection, or that
code after `projection_`, which the receive path puts before it. -/
inductive QuarantineReason where
  | sequence_fork
  | rejected (code : ProjectionCode)
  | projection (code : ProjectionCode)
  deriving DecidableEq, Repr

/-- A row of `quarantine`. -/
structure Quarantined where
  relationship_id : RelationshipId
  sender : IdentityId
  sender_seq : Nat
  event_id : EventId
  reason : QuarantineReason
  quarantined_at : Nat
  deriving DecidableEq, Repr

/-- The primary key of `quarantine`. -/
def Quarantined.key (r : Quarantined) : RelationshipId × IdentityId × Nat × EventId :=
  (r.relationship_id, r.sender, r.sender_seq, r.event_id)

/-- A row of `projection_cursors`. -/
structure Cursor where
  relationship_id : RelationshipId
  sender : IdentityId
  max_seq : Nat
  deriving DecidableEq, Repr

/-- The primary key of `projection_cursors`. -/
def Cursor.key (r : Cursor) : RelationshipId × IdentityId := (r.relationship_id, r.sender)

/-- A row of `sequence_gaps`. -/
structure SequenceGap where
  relationship_id : RelationshipId
  sender : IdentityId
  missing_seq : Nat
  first_observed_at : Nat
  deriving DecidableEq, Repr

/-- The primary key of `sequence_gaps`. -/
def SequenceGap.key (r : SequenceGap) : RelationshipId × IdentityId × Nat :=
  (r.relationship_id, r.sender, r.missing_seq)

/-- The columns of `relationships` that name the identities of the peer. -/
structure Relationship where
  relationship_id : RelationshipId
  peer_identity_id : IdentityId
  prior_peer_identity_id : Option IdentityId := none
  prior_identity_grace_until : Option Nat := none
  deriving DecidableEq, Repr

/-- The projection tables. -/
structure Projections where
  threads : Table ThreadRow.thread_id := Table.empty
  messages : Table Message.event_id := Table.empty
  message_revisions : Table Revision.key := Table.empty
  attachments : Table AttachmentRow.event_id := Table.empty
  reactions : Table Reaction.key := Table.empty
  receipts : Table Receipt.key := Table.empty
  polls : Table Poll.poll_id := Table.empty
  poll_responses : Table PollResponse.key := Table.empty
  tasks : Table TaskRow.task_id := Table.empty
  human_requests : Table HumanRequest.request_id := Table.empty
  deliveries : Table Delivery.scheduled_event_id := Table.empty
  security_key_events : Table SecurityKeyEvent.event_id := Table.empty
  thread_state : Table ThreadState.thread_id := Table.empty
  pending_refs : Table PendingRef.event_id := Table.empty
  quarantine : Table Quarantined.key := Table.empty
  projection_cursors : Table Cursor.key := Table.empty
  sequence_gaps : Table SequenceGap.key := Table.empty

/-- The tables that the projections read, and the projections. -/
structure Database extends Projections where
  events : Table Event.event_id := Table.empty
  relationships : Table Relationship.relationship_id := Table.empty
  human_approvals : Approvals := Table.empty

end MuseAgentSocial.Store
