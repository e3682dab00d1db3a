import Mathlib.Data.List.Sort
import Mathlib.Data.Prod.Lex
import MuseAgentSocial.Policy.Limits
import MuseAgentSocial.Store.Tables

/-!
# Projections of the event log

A model of `store/projections.py`: the handler of each event type, and
`apply_event`, `rebuild_projections` and `expire_pending_refs` over them.

* A handler returns the database it leaves and what it raised.  The writes of
  a handler that raises are in that database: the receive path rolls them
  back and `rebuild_projections` does not.
* The lists of mutations that the handlers return for reporting are left
  out; no caller reads them.
-/

namespace MuseAgentSocial.Store

open Model Crypto Policy

/-- What a projection raises: a `ProjectionError`, an `IntegrityError` of an
insert, or the `TypeError` of `int(None)`. -/
inductive Failure where
  | projection (code : ProjectionCode)
  | integrity_error
  | type_error
  deriving DecidableEq, Repr

/-- The database a handler leaves, and what it raised. -/
abbrev Outcome := Database × Except Failure Unit

/-- The handler is done. -/
def Outcome.done (db : Database) : Outcome := (db, .ok ())

/-- The handler raises a `ProjectionError`. -/
def Outcome.reject (db : Database) (code : ProjectionCode) : Outcome := (db, .error (.projection code))

/-- Go on unless the first part raised. -/
def Outcome.andThen (r : Outcome) (f : Database → Outcome) : Outcome :=
  match r with
  | (db, .ok ()) => f db
  | (db, .error failure) => (db, .error failure)

/-- A plain `INSERT` into the table that `put` replaces. -/
def Outcome.insert {κ ρ : Type} {key : ρ → κ} [DecidableEq κ] (db : Database) (t : Table key)
    (row : ρ) (put : Table key → Database) : Outcome :=
  match t.insert row with
  | some t' => (put t', .ok ())
  | none => (db, .error .integrity_error)

/-- `PENDING_TARGET_TTL_SECONDS`. -/
def PENDING_TARGET_TTL_SECONDS : Nat := 7 * 24 * 60 * 60

/-! ## Helpers -/

section helpers

variable (db : Database) (ev : Event)

/-- `_target_event`. -/
def targetEvent (relationship_id : RelationshipId) (target_event_id : EventId) : Option Event :=
  (db.events.find target_event_id).filter (·.relationship_id = relationship_id)

/-- `_target_status`: the rejection of an accepted target of another type. -/
def targetRejected (target_event_id : EventId) (expected_type : EventType) : Bool :=
  (targetEvent db ev.relationship_id target_event_id).any (·.payload.eventType ≠ expected_type)

/-- `_check_reply_scope`. -/
def inReplyScope (target : Event) : Bool :=
  target.conversation_id = ev.conversation_id ∧ target.thread_id = ev.thread_id

/-- `_pending_state`. -/
def pendingState (created_at now : Nat) : ReplyState :=
  if created_at + PENDING_TARGET_TTL_SECONDS ≤ now then .unavailable else .pending

/-- `_add_pending`. -/
def addPending (target_event_id : EventId) (kind : RefKind) : Database :=
  { db with
      pending_refs := db.pending_refs.insertOrIgnore
        ⟨ev.event_id, ev.relationship_id, target_event_id, kind, ev.created_at, .pending⟩ }

/-- An event whose target has no row yet: rejected for a target of the wrong
type, else set aside. -/
def awaitTarget (target_event_id : EventId) (expected_type : EventType) (code : ProjectionCode)
    (kind : RefKind) : Outcome :=
  if targetRejected db ev target_event_id expected_type then .reject db code
  else .done (addPending db ev target_event_id kind)

/-- The writes of `_ensure_thread`: the thread and its state row, and the event
as the root of the thread that has its name. -/
def registerThread (thread_id : ThreadId) : Database :=
  let registered := { db with
    threads := db.threads.insertOrIgnore ⟨thread_id, ev.conversation_id⟩
    thread_state := db.thread_state.insertOrIgnore { thread_id, conversation_id := ev.conversation_id } }
  if thread_id = ev.event_id then
    { registered with
        thread_state := registered.thread_state.modify thread_id
          (fun r => if r.root_event_id.isNone then { r with root_event_id := some ev.event_id } else r)
          (fun r => by split_ifs <;> rfl) }
  else
    registered

/-- `_ensure_thread`. -/
def ensureThread : Outcome :=
  match ev.thread_id with
  | none => .done db
  | some thread_id =>
    if (db.threads.find thread_id).any (·.conversation_id ≠ ev.conversation_id) then
      .reject db .thread_scope_mismatch
    else
      .done (registerThread db ev thread_id)

/-- `_bump_thread_message`. -/
def bumpThreadMessage (thread_id : Option ThreadId) (created_at : Nat) : Database :=
  match thread_id with
  | none => db
  | some thread_id =>
    { db with
        thread_state := db.thread_state.modify thread_id
          (fun r => { r with
            message_count := r.message_count + 1
            last_event_at :=
              if r.last_event_at.all (· < created_at) then some created_at else r.last_event_at })
          (fun _ => rfl) }

/-- `quarantine_event`. -/
def quarantineEvent (reason : QuarantineReason) (clock : Nat) : Database :=
  { db with
      quarantine := db.quarantine.insertOrIgnore
        ⟨ev.relationship_id, ev.sender, ev.sender_seq, ev.event_id, reason, clock⟩ }

/-- `_check_fork`: another event holds the sequence number. -/
def forked : Bool :=
  db.events.rows.any (fun e => e.relationship_id = ev.relationship_id ∧ e.sender = ev.sender ∧
    e.sender_seq = ev.sender_seq ∧ e.event_id ≠ ev.event_id)

/-- `_update_seq_state`: the high-water mark of the sender, and the numbers
below it that never arrived. -/
def updateSeqState (observed_at : Nat) : Database :=
  let cursor := db.projection_cursors.find (ev.relationship_id, ev.sender)
  let prev_max := cursor.elim 0 (·.max_seq)
  let advanced :=
    if cursor.isNone ∨ prev_max < ev.sender_seq then
      { db with
          projection_cursors :=
            db.projection_cursors.upsert ⟨ev.relationship_id, ev.sender, ev.sender_seq⟩ }
    else db
  if prev_max < ev.sender_seq then
    -- At most `MAX_SEQ_GAP` gaps are recorded for one event.
    let missing := List.range' (prev_max + 1) (min (ev.sender_seq - prev_max - 1) MAX_SEQ_GAP)
    { advanced with
        sequence_gaps := missing.foldl (fun t seq =>
          t.insertOrIgnore ⟨ev.relationship_id, ev.sender, seq, observed_at⟩) advanced.sequence_gaps }
  else
    { advanced with
        sequence_gaps := advanced.sequence_gaps.delete
          (fun g => g.key = (ev.relationship_id, ev.sender, ev.sender_seq)) }

end helpers

/-! ## Handlers -/

section handlers

variable (db : Database) (ev : Event)

/-- The row of a new message. -/
def newMessage (body : String) (format : Format) (reply_state : ReplyState) : Message where
  event_id := ev.event_id
  relationship_id := ev.relationship_id
  conversation_id := ev.conversation_id
  thread_id := ev.thread_id
  sender := ev.sender
  sender_seq := ev.sender_seq
  created_at := ev.created_at
  body := body
  format := format
  reply_to := ev.reply_to
  reply_state := reply_state
  current_body := body

/-- The inserts of `_handle_message_created` once the reply is resolved. -/
def storeMessage (body : String) (format : Format) (attachment : Option Attachment)
    (reply_state : ReplyState) (now : Nat) : Outcome :=
  (Outcome.insert db db.messages (newMessage ev body format reply_state)
    (fun t => { db with messages := t })).andThen fun db =>
  (Outcome.insert db db.message_revisions
    { event_id := ev.event_id, revision_no := 0, body, edited_at := ev.created_at }
    (fun t => { db with message_revisions := t })).andThen fun db =>
  let attached := match attachment with
    | none => db
    | some attachment => { db with
        attachments := db.attachments.insertOrIgnore
          ⟨ev.event_id, ev.relationship_id, attachment, now⟩ }
  .done (bumpThreadMessage attached ev.thread_id ev.created_at)

/-- `_handle_message_created`. -/
def handleMessageCreated (body : String) (format : Format) (attachment : Option Attachment)
    (now : Nat) : Outcome :=
  (ensureThread db ev).andThen fun db =>
  if (db.messages.find ev.event_id).isSome then .done db
  else
    match ev.reply_to with
    | none => storeMessage db ev body format attachment .ok now
    | some reply_to =>
      match targetEvent db ev.relationship_id reply_to with
      | none =>
        storeMessage (addPending db ev reply_to .reply) ev body format attachment
          (pendingState ev.created_at now) now
      | some target =>
        if inReplyScope ev target then storeMessage db ev body format attachment .ok now
        else .reject db .reply_target_scope

/-- The revision numbers of a message. -/
def revisionNumbers (target_event_id : EventId) : List Nat :=
  (db.message_revisions.rows.filter (·.event_id = target_event_id)).map (·.revision_no)

/-- `_handle_message_edited`.  `_original_message` looks the target up by its
bare id. -/
def handleMessageEdited (target_event_id : EventId) (body : String) (reason : Option String) :
    Outcome :=
  if db.message_revisions.rows.any (fun r => r.event_id = target_event_id ∧
      r.edit_event_id = some ev.event_id) then .done db
  else
    match db.messages.find target_event_id with
    | none => awaitTarget db ev target_event_id .messageCreated .edit_target_not_message .edit
    | some original =>
      if original.sender ≠ ev.sender then .reject db .edit_not_sender
      else if original.retracted then .reject db .edit_after_retract
      else
        match (revisionNumbers db target_event_id).max? with
        | none => (db, .error .type_error)
        | some newest =>
          (Outcome.insert db db.message_revisions
            ⟨target_event_id, newest + 1, body, ev.created_at, some ev.event_id, reason⟩
            (fun t => { db with message_revisions := t })).andThen fun db =>
          .done { db with
            messages := db.messages.modify target_event_id
              (fun m => { m with edited := true, current_body := body }) (fun _ => rfl) }

/-- `_handle_message_retracted`. -/
def handleMessageRetracted (target_event_id : EventId) (reason : Option String) : Outcome :=
  match db.messages.find target_event_id with
  | none => awaitTarget db ev target_event_id .messageCreated .retract_target_not_message .retract
  | some original =>
    if original.sender ≠ ev.sender then .reject db .retract_not_sender
    else if original.retracted then .done db
    else
      .done { db with
        messages := db.messages.modify target_event_id
          (fun m => { m with
            retracted := true, retraction_event_id := some ev.event_id
            retracted_at := some ev.created_at, retraction_reason := reason }) (fun _ => rfl) }

/-- The active reactions of a sender on a target. -/
def activeReactions (target_event_id : EventId) (sender : IdentityId) : Nat :=
  db.reactions.rows.countP
    (fun r => r.target_event_id = target_event_id ∧ r.sender = sender ∧ r.active = true)

/-- `_handle_reaction_added`. -/
def handleReactionAdded (target_event_id : EventId) (emoji : String) : Outcome :=
  if (targetEvent db ev.relationship_id target_event_id).isNone then
    .done (addPending db ev target_event_id .reaction_add)
  else
    let row := db.reactions.find (target_event_id, ev.sender, emoji)
    if row.any (fun r => r.active = true ∧ r.added_event_id = ev.event_id) then .done db
    else if row.all (fun r => !r.active) ∧
        MAX_ACTIVE_REACTIONS_PER_SENDER_TARGET ≤ activeReactions db target_event_id ev.sender then
      .reject db .reaction_cap_exceeded
    else
      .done { db with
        reactions := db.reactions.upsert
          ⟨target_event_id, ev.sender, emoji, true, ev.event_id, ev.created_at, none, none⟩ }

/-- `_handle_reaction_removed`. -/
def handleReactionRemoved (target_event_id : EventId) (emoji : String) : Outcome :=
  if (targetEvent db ev.relationship_id target_event_id).isNone then
    .done (addPending db ev target_event_id .reaction_remove)
  else
    match db.reactions.find (target_event_id, ev.sender, emoji) with
    | none => .done db
    | some r =>
      if !r.active ∨ r.removed_event_id = some ev.event_id then .done db
      else
        .done { db with
          reactions := db.reactions.modify (target_event_id, ev.sender, emoji)
            (fun r => { r with
              active := false, removed_event_id := some ev.event_id
              removed_at := some ev.created_at }) (fun _ => rfl) }

/-- `_handle_receipt`. -/
def handleReceipt (kind : ReceiptKind) (target_event_id : EventId) (time : Nat) : Outcome :=
  if (targetEvent db ev.relationship_id target_event_id).isNone then
    .done (addPending db ev target_event_id .receipt)
  else if (db.receipts.find (target_event_id, kind, ev.sender)).any
      (·.receipt_event_id = ev.event_id) then .done db
  else
    .done { db with
      receipts := db.receipts.upsert ⟨target_event_id, kind, ev.sender, time, ev.event_id⟩ }

/-- `_handle_poll_created`. -/
def handlePollCreated (question : String) (choices : List String) (closes_at : Nat)
    (multi_select : Bool) : Outcome :=
  (ensureThread db ev).andThen fun db =>
  if (db.polls.find ev.event_id).isSome then .done db
  else if closes_at ≤ ev.created_at then .reject db .poll_bad_closes_at
  else
    Outcome.insert db db.polls
      { poll_id := ev.event_id, relationship_id := ev.relationship_id
        conversation_id := ev.conversation_id, thread_id := ev.thread_id, sender := ev.sender
        created_at := ev.created_at, question, choices, closes_at, multi_select }
      (fun t => { db with polls := t })

/-- What a response must satisfy: the first check that fails. -/
def pollResponseRejected (poll : Poll) (choice_ids : List String) (now : Nat) :
    Option ProjectionCode :=
  if choice_ids = [] then some .poll_no_choice
  else if ¬ choice_ids.Nodup then some .poll_duplicate_choice
  else if choice_ids.any (fun c => !poll.choices.contains c) then some .poll_unknown_choice
  else if !poll.multi_select ∧ choice_ids.length ≠ 1 then some .poll_multi_choice_single_select
  else if poll.closes_at ≤ now then some .poll_closed
  else none

/-- `_handle_poll_responded`. -/
def handlePollResponded (poll_id : EventId) (choice_ids : List String) (human_confirmed : Bool)
    (approval_record_id : Option ApprovalId) (now : Nat) : Outcome :=
  match db.polls.find poll_id with
  | none => awaitTarget db ev poll_id .pollCreated .poll_response_target_not_poll .poll_response
  | some poll =>
    match pollResponseRejected poll choice_ids now with
    | some code => .reject db code
    | none =>
      let responses := db.poll_responses.upsert
        ⟨poll_id, ev.sender, choice_ids, human_confirmed, approval_record_id, ev.event_id, now⟩
      let count := responses.rows.countP (·.poll_id = poll_id)
      .done { db with
        poll_responses := responses
        polls := db.polls.modify poll_id (fun p => { p with response_count := count }) (fun _ => rfl) }

/-- `_handle_task_created`. -/
def handleTaskCreated (title : String) (owner_identity : IdentityId) (due_at : Option Nat) :
    Outcome :=
  (ensureThread db ev).andThen fun db =>
  if (db.tasks.find ev.event_id).isSome then .done db
  else
    Outcome.insert db db.tasks
      { task_id := ev.event_id, relationship_id := ev.relationship_id
        conversation_id := ev.conversation_id, thread_id := ev.thread_id, sender := ev.sender
        created_at := ev.created_at, title, owner_identity, due_at }
      (fun t => { db with tasks := t })

/-- `_handle_task_updated`. -/
def handleTaskUpdated (task_id : EventId) (status : TaskStatus) (note : Option String) : Outcome :=
  match db.tasks.find task_id with
  | none => awaitTarget db ev task_id .taskCreated .task_update_target_not_task .task_update
  | some task =>
    if ev.sender ≠ task.owner_identity ∧ ev.sender ≠ task.sender then .reject db .task_not_authorized
    else if task.status.terminal then .reject db .task_transition_terminal
    else
      .done { db with
        tasks := db.tasks.modify task_id
          (fun t => { t with
            status := status, status_event_id := some ev.event_id
            status_updated_at := some ev.created_at, note := note }) (fun _ => rfl) }

/-- `_handle_human_requested`. -/
def handleHumanRequested (prompt response_shape : String) (expires_at : Nat) : Outcome :=
  (ensureThread db ev).andThen fun db =>
  if (db.human_requests.find ev.event_id).isSome then .done db
  else
    Outcome.insert db db.human_requests
      { request_id := ev.event_id, relationship_id := ev.relationship_id
        conversation_id := ev.conversation_id, thread_id := ev.thread_id, sender := ev.sender
        created_at := ev.created_at, prompt, response_shape, expires_at }
      (fun t => { db with human_requests := t })

/-- `_human_response_attestation`. -/
def humanResponseAttestation (approval_record_id : ApprovalId) : Attestation :=
  if (db.relationships.find ev.relationship_id).any (·.peer_identity_id = ev.sender) then .peer
  else if (db.human_approvals.find approval_record_id).isSome then .local
  else .peer

/-- `_handle_human_responded`. -/
def handleHumanResponded (request_id : EventId) (answer : String) (approved : Bool)
    (approval_record_id : ApprovalId) : Outcome :=
  if (db.human_requests.find request_id).isNone then
    awaitTarget db ev request_id .humanRequested .human_response_target_not_request .human_response
  else
    .done { db with
      human_requests := db.human_requests.modify request_id
        (fun r => { r with
          state := .responded, answer := some answer, approved := some approved
          responded_at := some ev.created_at, response_event_id := some ev.event_id
          approval_record_id := some approval_record_id
          attestation := humanResponseAttestation db ev approval_record_id }) (fun _ => rfl) }

/-- `_handle_delivery_scheduled`. -/
def handleDeliveryScheduled (inner_event_id : EventId) (deliver_at : Nat)
    (late_by_seconds : Option Nat) : Outcome :=
  if (db.deliveries.find ev.event_id).isSome then .done db
  else if db.deliveries.rows.any (fun d => d.relationship_id = ev.relationship_id ∧
      d.sender = ev.sender ∧ d.inner_event_id = inner_event_id) then .done db
  else
    Outcome.insert db db.deliveries
      { scheduled_event_id := ev.event_id, relationship_id := ev.relationship_id
        sender := ev.sender, created_at := ev.created_at, inner_event_id, deliver_at
        late_by_seconds }
      (fun t => { db with deliveries := t })

/-- `_handle_delivery_canceled`. -/
def handleDeliveryCanceled (scheduled_event_id : EventId) : Outcome :=
  match db.deliveries.find scheduled_event_id with
  | none =>
    awaitTarget db ev scheduled_event_id .deliveryScheduled .delivery_cancel_target_not_scheduled
      .delivery_cancel
  | some delivery =>
    if ev.sender ≠ delivery.sender then .reject db .delivery_cancel_not_sender
    else if delivery.state = .canceled then .done db
    else
      .done { db with
        deliveries := db.deliveries.modify scheduled_event_id
          (fun d => { d with
            state := .canceled, canceled_at := some ev.created_at
            cancel_event_id := some ev.event_id }) (fun _ => rfl) }

/-- `_handle_security_key`. -/
def handleSecurityKey (action : KeyAction) : Outcome :=
  if (db.security_key_events.find ev.event_id).isSome then .done db
  else
    Outcome.insert db db.security_key_events
      ⟨ev.event_id, ev.relationship_id, ev.sender, ev.created_at, ev.key_epoch, action⟩
      (fun t => { db with security_key_events := t })

/-- `_dispatch`. -/
def dispatch (now : Nat) : Outcome :=
  match ev.payload with
  | .messageCreated body format attachment => handleMessageCreated db ev body format attachment now
  | .messageEdited target body reason => handleMessageEdited db ev target body reason
  | .messageRetracted target reason => handleMessageRetracted db ev target reason
  | .reactionAdded target emoji => handleReactionAdded db ev target emoji
  | .reactionRemoved target emoji => handleReactionRemoved db ev target emoji
  | .receipt kind target time => handleReceipt db ev kind target time
  | .pollCreated question choices closes_at multi_select =>
    handlePollCreated db ev question choices closes_at multi_select
  | .pollResponded poll_id choice_ids human_confirmed approval_record_id =>
    handlePollResponded db ev poll_id choice_ids human_confirmed approval_record_id now
  | .taskCreated title owner_identity due_at => handleTaskCreated db ev title owner_identity due_at
  | .taskUpdated task_id status note => handleTaskUpdated db ev task_id status note
  | .humanRequested prompt response_shape expires_at =>
    handleHumanRequested db ev prompt response_shape expires_at
  | .humanResponded request_id answer approved approval_record_id =>
    handleHumanResponded db ev request_id answer approved approval_record_id
  | .deliveryScheduled inner deliver_at late => handleDeliveryScheduled db ev inner deliver_at late
  | .deliveryCanceled scheduled => handleDeliveryCanceled db ev scheduled
  | .securityKey action => handleSecurityKey db ev action
  | .relationshipReady => .done db
  | .migrationReady => .done db
  | .migrationCommit => .done db
  | .identityRotated _ => .done db

end handlers

/-! ## Applying events -/

/-- One round of the loop of `_resolve_pending`: the reference is resolved,
and its event is dispatched unless it is a reply. -/
def resolveRef (db : Database) (relationship_id : RelationshipId) (target_event_id : EventId)
    (ref : PendingRef) (now clock : Nat) : Outcome :=
  let db := { db with
    pending_refs := db.pending_refs.modify ref.event_id
      (fun r => { r with state := .resolved }) (fun _ => rfl) }
  if ref.kind = .reply then
    let reply_state : ReplyState :=
      match targetEvent db relationship_id target_event_id, db.messages.find ref.event_id with
      | some target, some msg =>
        if target.conversation_id = msg.conversation_id ∧ target.thread_id = msg.thread_id then .ok
        else .unavailable
      | _, _ => .unavailable
    .done { db with
      messages := db.messages.modify ref.event_id
        (fun m => { m with reply_state := reply_state }) (fun _ => rfl) }
  else
    match db.events.find ref.event_id with
    | none => .done db
    | some ref_ev =>
      match dispatch db ref_ev now with
      | (db', .error (.projection code)) =>
        .done (quarantineEvent db' ref_ev (.rejected code) clock)
      | out => out

/-- The references that wait for a target. -/
def pendingRefs (db : Database) (relationship_id : RelationshipId) (target_event_id : EventId) :
    List PendingRef :=
  db.pending_refs.rows.filter (fun r => r.relationship_id = relationship_id ∧
    r.target_event_id = target_event_id ∧ r.state = .pending)

/-- The loop of `_resolve_pending` over the references it fetched. -/
def resolveRefs (relationship_id : RelationshipId) (target_event_id : EventId) (now clock : Nat) :
    List PendingRef → Database → Outcome
  | [], db => .done db
  | ref :: refs, db =>
    (resolveRef db relationship_id target_event_id ref now clock).andThen
      (resolveRefs relationship_id target_event_id now clock refs)

/-- `_resolve_pending`. -/
def resolvePending (db : Database) (relationship_id : RelationshipId) (target_event_id : EventId)
    (now clock : Nat) : Outcome :=
  resolveRefs relationship_id target_event_id now clock
    (pendingRefs db relationship_id target_event_id) db

/-- `_apply_inner`. -/
def applyInner (db : Database) (ev : Event) (now clock : Nat) : Outcome :=
  if forked db ev then .done (quarantineEvent db ev .sequence_fork clock)
  else
    (dispatch db ev now).andThen fun db =>
    (resolvePending db ev.relationship_id ev.event_id now clock).andThen fun db =>
    .done (updateSeqState db ev now)

/-- `apply_event` at the wall clock `clock`. -/
def applyEvent (db : Database) (ev : Event) (clock : Nat) : Outcome :=
  applyInner db ev (ev.received_at.getD clock) clock

/-- The projection transaction of the receive path: a rejected event is rolled
back and quarantined, any other failure is rolled back. -/
def projectEvent (db : Database) (ev : Event) (clock : Nat) : Database :=
  match applyEvent db ev clock with
  | (db', .ok ()) => db'
  | (_, .error (.projection code)) => quarantineEvent db ev (.projection code) clock
  | (_, .error _) => db

/-! ## Rebuilding -/

/-- The event is one of the relationship. -/
def Database.eventOf (db : Database) (relationship_id : RelationshipId) (event_id : EventId) : Bool :=
  (db.events.find event_id).any (·.relationship_id = relationship_id)

/-- Some event of the relationship is in the thread. -/
def Database.threadOf (db : Database) (relationship_id : RelationshipId) (thread_id : ThreadId) :
    Bool :=
  db.events.rows.any (fun e => e.relationship_id = relationship_id ∧ e.thread_id = some thread_id)

/-- `_WIPES` and the deletion of the quarantine rows of logged events. -/
def wipe (db : Database) (rid : RelationshipId) : Database :=
  { db with
      messages := db.messages.delete (·.relationship_id = rid)
      message_revisions := db.message_revisions.delete (fun r => db.eventOf rid r.event_id)
      reactions := db.reactions.delete (fun r => db.eventOf rid r.added_event_id)
      receipts := db.receipts.delete (fun r => db.eventOf rid r.receipt_event_id)
      polls := db.polls.delete (·.relationship_id = rid)
      poll_responses := db.poll_responses.delete (fun r => db.eventOf rid r.response_event_id)
      tasks := db.tasks.delete (·.relationship_id = rid)
      human_requests := db.human_requests.delete (·.relationship_id = rid)
      deliveries := db.deliveries.delete (·.relationship_id = rid)
      security_key_events := db.security_key_events.delete (·.relationship_id = rid)
      thread_state := db.thread_state.delete (fun r =>
        (db.threads.find r.thread_id).isSome && db.threadOf rid r.thread_id)
      pending_refs := db.pending_refs.delete (·.relationship_id = rid)
      projection_cursors := db.projection_cursors.delete (·.relationship_id = rid)
      sequence_gaps := db.sequence_gaps.delete (·.relationship_id = rid)
      quarantine := db.quarantine.delete (fun r =>
        decide (r.relationship_id = rid) && db.eventOf rid r.event_id) }

/-- The display order: `created_at`, then `sender`, `sender_seq` and
`event_id`. -/
def displayOrder (a b : Event) : Prop :=
  toLex (a.created_at, toLex (a.sender, toLex (a.sender_seq, a.event_id))) ≤
    toLex (b.created_at, toLex (b.sender, toLex (b.sender_seq, b.event_id)))

instance : DecidableRel displayOrder := fun _ _ => inferInstanceAs (Decidable (_ ≤ _))

/-- `_iter_relationship_events`. -/
def relationshipEvents (db : Database) (rid : RelationshipId) : List Event :=
  (db.events.rows.filter (·.relationship_id = rid)).insertionSort displayOrder

/-- The loop of `rebuild_projections`: a rejected event is quarantined and its
writes stay. -/
def replay (clock : Nat) : List Event → Database → Outcome
  | [], db => .done db
  | ev :: evs, db =>
    match applyInner db ev (ev.received_at.getD clock) clock with
    | (db', .ok ()) => replay clock evs db'
    | (db', .error (.projection code)) =>
      replay clock evs (quarantineEvent db' ev (.rejected code) clock)
    | (db', .error failure) => (db', .error failure)

/-- `rebuild_projections`, in one transaction.  Every event has its staged
payload here, so `payload_missing` does not arise. -/
def rebuildProjections (db : Database) (rid : RelationshipId) (clock : Nat) : Database :=
  match replay clock (relationshipEvents db rid) (wipe db rid) with
  | (db', .ok ()) => db'
  | (_, .error _) => db

/-- The reference is pending for more than seven days. -/
def PendingRef.overdue (r : PendingRef) (rid : RelationshipId) (now : Nat) : Bool :=
  r.relationship_id = rid ∧ r.state = .pending ∧ r.created_at + PENDING_TARGET_TTL_SECONDS < now

/-- `expire_pending_refs`. -/
def expirePendingRefs (db : Database) (rid : RelationshipId) (now : Nat) : Database :=
  let expired := db.pending_refs.rows.filter (·.overdue rid now)
  { db with
      pending_refs := db.pending_refs.map
        (fun r => if r.overdue rid now then { r with state := .expired } else r)
        (fun r => by split_ifs <;> rfl)
      messages := db.messages.map
        (fun m =>
          if expired.any (fun r => r.event_id = m.event_id ∧ r.kind = .reply) then
            { m with reply_state := .unavailable }
          else m)
        (fun m => by split_ifs <;> rfl) }

end MuseAgentSocial.Store
