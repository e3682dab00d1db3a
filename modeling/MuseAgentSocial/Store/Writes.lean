import Mathlib.Logic.Relation
import MuseAgentSocial.Store.Projections

/-!
# What a projection writes

* `Outcome.Ends Q E` is the postcondition of a handler: `Q` of the database it
  leaves when it is done, and `E` of what it raised and of the database that it
  left then.
* `Write ev now db db'` lists the writes of the handlers, each with what the
  handler has checked before it.
* `Scoped` is the invariant of the store: a projected row and the event that it
  is named after belong to the same relationship, and a message has revisions.

`dispatch_ends` connects the three: from a scoped database a handler makes
writes only, and it raises nothing but a `ProjectionError`.
-/

namespace MuseAgentSocial.Store

open Model Crypto Policy

/-! ## Postconditions -/

namespace Outcome

/-- The handler is done and `Q` holds, or it raised and `E` holds. -/
def Ends (Q : Database → Prop) (E : Failure → Database → Prop) : Outcome → Prop
  | (db, .ok ()) => Q db
  | (db, .error failure) => E failure db

variable {P Q : Database → Prop} {E F : Failure → Database → Prop} {db : Database}

@[simp] theorem ends_done : (Outcome.done db).Ends Q E ↔ Q db := Iff.rfl

@[simp] theorem ends_reject {code : ProjectionCode} :
    (Outcome.reject db code).Ends Q E ↔ E (.projection code) db := Iff.rfl

theorem Ends.imp {out : Outcome} (h : out.Ends P E) (hQ : ∀ db, P db → Q db)
    (hE : ∀ failure db, E failure db → F failure db) : out.Ends Q F := by
  match out, h with
  | (db, .ok ()), h => exact hQ db h
  | (db, .error failure), h => exact hE failure db h

theorem Ends.andThen {out : Outcome} {f : Database → Outcome} (h : out.Ends P E)
    (hf : ∀ db, P db → (f db).Ends Q E) : (out.andThen f).Ends Q E := by
  match out, h with
  | (db, .ok ()), h => exact hf db h
  | (db, .error failure), h => exact h

theorem ends_insert {κ ρ : Type} {key : ρ → κ} [DecidableEq κ] {t : Table key} {row : ρ}
    {put : Table key → Database} (hfree : t.find (key row) = none)
    (hput : ∀ t', t.insert row = some t' → Q (put t')) :
    (Outcome.insert db t row put).Ends Q E := by
  obtain ⟨t', hins⟩ := Table.insert_isSome hfree
  unfold Outcome.insert
  rw [hins]
  exact hput t' hins

end Outcome

/-! ## Writes -/

/-- The target that a payload names, and the kind of the reference that waits
for it. -/
def Payload.target : Payload → Option (RefKind × EventId)
  | .messageEdited target _ _ => some (.edit, target)
  | .messageRetracted target _ => some (.retract, target)
  | .reactionAdded target _ => some (.reaction_add, target)
  | .reactionRemoved target _ => some (.reaction_remove, target)
  | .receipt _ target _ => some (.receipt, target)
  | .pollResponded poll_id _ _ _ => some (.poll_response, poll_id)
  | .taskUpdated task_id _ _ => some (.task_update, task_id)
  | .humanResponded request_id _ _ _ => some (.human_response, request_id)
  | .deliveryCanceled scheduled_event_id => some (.delivery_cancel, scheduled_event_id)
  | _ => none

/-- The types whose handler starts with `_ensure_thread`. -/
def Payload.opensThread : Payload → Bool
  | .messageCreated _ _ _ => true
  | .pollCreated _ _ _ _ => true
  | .taskCreated _ _ _ => true
  | .humanRequested _ _ _ => true
  | _ => false

/-- The thread is not one of another conversation, the check of
`_ensure_thread`. -/
def Joins (db : Database) (ev : Event) (thread_id : ThreadId) : Prop :=
  ev.thread_id = some thread_id ∧
    ∀ r, db.threads.find thread_id = some r → r.conversation_id = ev.conversation_id

/-- The writes of the handlers on the event `ev`. -/
inductive Write (ev : Event) (now : Nat) (db : Database) : Database → Prop where
  | pending {kind : RefKind} {target : EventId} (htarget : ev.payload.target = some (kind, target)) :
      Write ev now db (addPending db ev target kind)
  | reply {target : EventId} (hopens : ev.payload.opensThread = true) :
      Write ev now db (addPending db ev target .reply)
  | thread {thread_id : ThreadId} (hopens : ev.payload.opensThread = true)
      (hjoins : Joins db ev thread_id) : Write ev now db (registerThread db ev thread_id)
  | message {body : String} {format : Format} {attachment : Option Attachment}
      {reply_state : ReplyState} {messages : Table Message.event_id}
      {message_revisions : Table Revision.key} {attachments : Table AttachmentRow.event_id}
      (hpayload : ev.payload = .messageCreated body format attachment)
      (hmessages : db.messages.insert (newMessage ev body format reply_state) = some messages)
      (hrevisions : db.message_revisions.insert
        { event_id := ev.event_id, revision_no := 0, body, edited_at := ev.created_at } =
          some message_revisions)
      (hopened : ∀ t, ev.thread_id = some t → (db.thread_state.find t).isSome) :
      Write ev now db
        (bumpThreadMessage { db with messages, message_revisions, attachments } ev.thread_id
          ev.created_at)
  | edit {target : EventId} {body : String} {reason : Option String} {m : Message} {newest : Nat}
      {message_revisions : Table Revision.key}
      (hpayload : ev.payload = .messageEdited target body reason)
      (hm : db.messages.find target = some m) (hsender : m.sender = ev.sender)
      (hretracted : m.retracted = false)
      (hrevisions : db.message_revisions.insert
        ⟨target, newest + 1, body, ev.created_at, some ev.event_id, reason⟩ =
          some message_revisions)
      (hnewest : (revisionNumbers db target).max? = some newest)
      (hunseen : db.message_revisions.rows.any (fun r => r.event_id = target ∧
        r.edit_event_id = some ev.event_id) = false) :
      Write ev now db
        { db with
            message_revisions
            messages := db.messages.modify target
              (fun m => { m with edited := true, current_body := body }) (fun _ => rfl) }
  | retract {target : EventId} {reason : Option String} {m : Message}
      (hpayload : ev.payload = .messageRetracted target reason)
      (hm : db.messages.find target = some m) (hsender : m.sender = ev.sender)
      (hretracted : m.retracted = false) :
      Write ev now db
        { db with
            messages := db.messages.modify target
              (fun m => { m with
                retracted := true, retraction_event_id := some ev.event_id
                retracted_at := some ev.created_at, retraction_reason := reason }) (fun _ => rfl) }
  | reactionAdded {target : EventId} {emoji : String}
      (hpayload : ev.payload = .reactionAdded target emoji)
      (htarget : (targetEvent db ev.relationship_id target).isSome)
      (hcap : (db.reactions.find (target, ev.sender, emoji)).any (·.active) = true ∨
        activeReactions db target ev.sender < MAX_ACTIVE_REACTIONS_PER_SENDER_TARGET) :
      Write ev now db
        { db with
            reactions := db.reactions.upsert
              ⟨target, ev.sender, emoji, true, ev.event_id, ev.created_at, none, none⟩ }
  | reactionRemoved {target : EventId} {emoji : String}
      (hpayload : ev.payload = .reactionRemoved target emoji)
      (htarget : (targetEvent db ev.relationship_id target).isSome) :
      Write ev now db
        { db with
            reactions := db.reactions.modify (target, ev.sender, emoji)
              (fun r => { r with
                active := false, removed_event_id := some ev.event_id
                removed_at := some ev.created_at }) (fun _ => rfl) }
  | receipt {kind : ReceiptKind} {target : EventId} {time : Nat}
      (hpayload : ev.payload = .receipt kind target time)
      (htarget : (targetEvent db ev.relationship_id target).isSome) :
      Write ev now db
        { db with receipts := db.receipts.upsert ⟨target, kind, ev.sender, time, ev.event_id⟩ }
  | poll {row : Poll} {polls : Table Poll.poll_id} (hid : row.poll_id = ev.event_id)
      (hrel : row.relationship_id = ev.relationship_id)
      (hpolls : db.polls.insert row = some polls) : Write ev now db { db with polls }
  | pollResponse {poll_id : EventId} {choice_ids : List String} {human_confirmed : Bool}
      {approval_record_id : Option ApprovalId} {poll : Poll} {count : Nat}
      (hpayload : ev.payload = .pollResponded poll_id choice_ids human_confirmed approval_record_id)
      (hpoll : db.polls.find poll_id = some poll)
      (haccepted : pollResponseRejected poll choice_ids now = none) :
      Write ev now db
        { db with
            poll_responses := db.poll_responses.upsert
              ⟨poll_id, ev.sender, choice_ids, human_confirmed, approval_record_id, ev.event_id, now⟩
            polls := db.polls.modify poll_id (fun p => { p with response_count := count })
              (fun _ => rfl) }
  | task {row : TaskRow} {tasks : Table TaskRow.task_id} (hid : row.task_id = ev.event_id)
      (hrel : row.relationship_id = ev.relationship_id)
      (htasks : db.tasks.insert row = some tasks) (hsender : row.sender = ev.sender)
      (hstatus : row.status = .open)
      (hpayload : ev.payload = .taskCreated row.title row.owner_identity row.due_at) :
      Write ev now db { db with tasks }
  | taskUpdate {task_id : EventId} {status : TaskStatus} {note : Option String} {task : TaskRow}
      (hpayload : ev.payload = .taskUpdated task_id status note)
      (htask : db.tasks.find task_id = some task)
      (hauthorized : ev.sender = task.owner_identity ∨ ev.sender = task.sender)
      (hopen : task.status.terminal = false) :
      Write ev now db
        { db with
            tasks := db.tasks.modify task_id
              (fun t => { t with
                status := status, status_event_id := some ev.event_id
                status_updated_at := some ev.created_at, note := note }) (fun _ => rfl) }
  | humanRequest {row : HumanRequest} {human_requests : Table HumanRequest.request_id}
      (hid : row.request_id = ev.event_id) (hrel : row.relationship_id = ev.relationship_id)
      (hattestation : row.attestation = .peer)
      (hpayload : ev.payload.eventType = .humanRequested)
      (hrequests : db.human_requests.insert row = some human_requests)
      (hjoins : ∀ t, ev.thread_id = some t → Joins db ev t) :
      Write ev now db { db with human_requests }
  | humanResponse {request_id : EventId} {answer : String} {approved : Bool}
      {approval_record_id : ApprovalId} {request : HumanRequest}
      (hpayload : ev.payload = .humanResponded request_id answer approved approval_record_id)
      (hrequest : db.human_requests.find request_id = some request) :
      Write ev now db
        { db with
            human_requests := db.human_requests.modify request_id
              (fun r => { r with
                state := .responded, answer := some answer, approved := some approved
                responded_at := some ev.created_at, response_event_id := some ev.event_id
                approval_record_id := some approval_record_id
                attestation := humanResponseAttestation db ev approval_record_id }) (fun _ => rfl) }
  | delivery {row : Delivery} {deliveries : Table Delivery.scheduled_event_id}
      (hid : row.scheduled_event_id = ev.event_id)
      (hrel : row.relationship_id = ev.relationship_id)
      (hdeliveries : db.deliveries.insert row = some deliveries) (hsender : row.sender = ev.sender)
      (hstate : row.state = .scheduled)
      (hnew : ∀ d ∈ db.deliveries.rows, ¬ (d.relationship_id = ev.relationship_id ∧ d.sender = ev.sender ∧
        d.inner_event_id = row.inner_event_id))
      (hpayload : ev.payload = .deliveryScheduled row.inner_event_id row.deliver_at row.late_by_seconds) :
      Write ev now db { db with deliveries }
  | deliveryCancel {scheduled_event_id : EventId} {delivery : Delivery}
      (hpayload : ev.payload = .deliveryCanceled scheduled_event_id)
      (hdelivery : db.deliveries.find scheduled_event_id = some delivery)
      (hsender : ev.sender = delivery.sender) (hstate : delivery.state = .scheduled) :
      Write ev now db
        { db with
            deliveries := db.deliveries.modify scheduled_event_id
              (fun d => { d with
                state := .canceled, canceled_at := some ev.created_at
                cancel_event_id := some ev.event_id }) (fun _ => rfl) }
  | securityKey {row : SecurityKeyEvent} {security_key_events : Table SecurityKeyEvent.event_id}
      (hid : row.event_id = ev.event_id) (hrel : row.relationship_id = ev.relationship_id)
      (hsecurity : db.security_key_events.insert row = some security_key_events) :
      Write ev now db { db with security_key_events }

/-- The writes of one handler, one after the other. -/
def Writes (ev : Event) (now : Nat) : Database → Database → Prop :=
  Relation.ReflTransGen (Write ev now)

/-! ## The invariant -/

/-- The rows and the events that they are named after. -/
structure Scoped (db : Database) : Prop where
  messages : db.messages.All (fun m => db.eventOf m.relationship_id m.event_id)
  polls : db.polls.All (fun p => db.eventOf p.relationship_id p.poll_id)
  tasks : db.tasks.All (fun t => db.eventOf t.relationship_id t.task_id)
  human_requests : db.human_requests.All (fun r => db.eventOf r.relationship_id r.request_id)
  deliveries : db.deliveries.All (fun d => db.eventOf d.relationship_id d.scheduled_event_id)
  /-- A reference that is not one of a reply waits for the target of its event. -/
  pending_refs : db.pending_refs.All (fun p => ∃ e, db.events.find p.event_id = some e ∧
    e.relationship_id = p.relationship_id ∧
    (p.kind ≠ .reply → e.payload.target = some (p.kind, p.target_event_id)))
  /-- A message has revisions, and a revision has a message. -/
  revised : ∀ i, (db.messages.find i).isSome ↔ ∃ r ∈ db.message_revisions.rows, r.event_id = i

theorem eventOf_iff {db : Database} {rid : RelationshipId} {i : EventId} :
    db.eventOf rid i = true ↔ ∃ e, db.events.find i = some e ∧ e.relationship_id = rid := by
  simp [Database.eventOf, Option.any_eq_true]

theorem eventOf_self {db : Database} {ev : Event} (hlog : db.events.find ev.event_id = some ev) :
    db.eventOf ev.relationship_id ev.event_id = true :=
  eventOf_iff.mpr ⟨ev, hlog, rfl⟩

theorem eventOf_unique {db : Database} {A B : RelationshipId} {i : EventId}
    (hA : db.eventOf A i = true) (hB : db.eventOf B i = true) : A = B := by
  obtain ⟨e, he, rfl⟩ := eventOf_iff.mp hA
  obtain ⟨e', he', rfl⟩ := eventOf_iff.mp hB
  rw [he] at he'
  rw [Option.some.inj he']

variable {target : EventId} {m : Message} {r : Revision} {format : Format}
  {attachment : Option Attachment}

theorem eventOf_of_target {db : Database} {rid : RelationshipId}
    (h : (targetEvent db rid target).isSome) : db.eventOf rid target = true := by
  obtain ⟨e, he⟩ := Option.isSome_iff_exists.mp h
  obtain ⟨he, hrel⟩ := Option.filter_eq_some_iff.mp he
  exact eventOf_iff.mpr ⟨e, he, by simpa using hrel⟩

/-- The handlers read the log, the relationships and the approvals, and write
none of them. -/
structure SameInputs (db db' : Database) : Prop where
  events : db'.events = db.events
  relationships : db'.relationships = db.relationships
  human_approvals : db'.human_approvals = db.human_approvals

theorem SameInputs.refl (db : Database) : SameInputs db db := ⟨rfl, rfl, rfl⟩

theorem SameInputs.trans {db db' db'' : Database} (h : SameInputs db db') (h' : SameInputs db' db'') :
    SameInputs db db'' :=
  ⟨h'.events.trans h.events, h'.relationships.trans h.relationships,
    h'.human_approvals.trans h.human_approvals⟩

section writes

variable {ev : Event} {now : Nat} {db db' : Database}

theorem registerThread_eq (db : Database) (ev : Event) (thread_id : ThreadId) :
    ∃ threads thread_state, registerThread db ev thread_id = { db with threads, thread_state } := by
  unfold registerThread
  dsimp only
  split_ifs
  · exact ⟨_, _, rfl⟩
  · exact ⟨_, _, rfl⟩

theorem registerThread_threads (db : Database) (ev : Event) (t : ThreadId) :
    (registerThread db ev t).threads = db.threads.insertOrIgnore ⟨t, ev.conversation_id⟩ := by
  unfold registerThread
  dsimp only
  split_ifs
  · rfl
  · rfl

theorem bumpThreadMessage_eq (db : Database) (thread_id : Option ThreadId) (created_at : Nat) :
    ∃ thread_state, bumpThreadMessage db thread_id created_at = { db with thread_state } := by
  unfold bumpThreadMessage
  cases thread_id with
  | none => exact ⟨_, rfl⟩
  | some thread_id => exact ⟨_, rfl⟩

theorem Write.sameInputs (h : Write ev now db db') : SameInputs db db' := by
  cases h with
  | thread hopens hjoins =>
    obtain ⟨_, _, heq⟩ := registerThread_eq db ev ‹_›
    rw [heq]
    exact ⟨rfl, rfl, rfl⟩
  | message =>
    obtain ⟨_, heq⟩ := bumpThreadMessage_eq _ ev.thread_id ev.created_at
    rw [heq]
    exact ⟨rfl, rfl, rfl⟩
  | _ => exact ⟨rfl, rfl, rfl⟩

theorem Writes.sameInputs (h : Writes ev now db db') : SameInputs db db' := by
  induction h with
  | refl => exact .refl db
  | tail _ hwrite ih => exact ih.trans hwrite.sameInputs

theorem Scoped.addPending (hs : Scoped db) (hlog : db.events.find ev.event_id = some ev)
    {kind : RefKind} (htarget : kind ≠ .reply → ev.payload.target = some (kind, target)) :
    Scoped (addPending db ev target kind) :=
  { hs with pending_refs := hs.pending_refs.insertOrIgnore ⟨ev, hlog, rfl, htarget⟩ }

/-- The tables that no field of the invariant reads. -/
theorem Scoped.threads (hs : Scoped db) {threads : Table ThreadRow.thread_id}
    {thread_state : Table ThreadState.thread_id} : Scoped { db with threads, thread_state } :=
  { hs with }

theorem Scoped.message (hs : Scoped db) (hlog : db.events.find ev.event_id = some ev)
    (hm : m.event_id = ev.event_id) (hrel : m.relationship_id = ev.relationship_id)
    (hr : r.event_id = ev.event_id) {messages : Table Message.event_id}
    {message_revisions : Table Revision.key} {attachments : Table AttachmentRow.event_id}
    (hmessages : db.messages.insert m = some messages)
    (hrevisions : db.message_revisions.insert r = some message_revisions) :
    Scoped { db with messages, message_revisions, attachments } := by
  have hown : db.eventOf m.relationship_id m.event_id = true := by
    rw [hrel, hm]
    exact eventOf_self hlog
  refine { hs with messages := hs.messages.insert hown hmessages, revised := fun i => ?_ }
  simp only [Table.find_of_insert hmessages, Table.mem_of_insert hrevisions]
  by_cases hi : i = ev.event_id
  · subst hi
    simp only [hm, if_true, Option.isSome_some, true_iff]
    exact ⟨r, Or.inr rfl, hr⟩
  · rw [if_neg (hm ▸ hi), hs.revised]
    constructor
    · rintro ⟨r', hr', hid⟩
      exact ⟨r', Or.inl hr', hid⟩
    · rintro ⟨r', hr' | rfl, hid⟩
      · exact ⟨r', hr', hid⟩
      · exact absurd (hid.symm.trans hr) hi

theorem Scoped.edit (hs : Scoped db) {f : Message → Message}
    (hf : ∀ m, (f m).event_id = m.event_id) (hm : db.messages.find target = some m)
    (hrel : ∀ m, (f m).relationship_id = m.relationship_id) (hr : r.event_id = target)
    {message_revisions : Table Revision.key}
    (hrevisions : db.message_revisions.insert r = some message_revisions) :
    Scoped { db with message_revisions, messages := db.messages.modify target f hf } := by
  refine { hs with messages := ?_, revised := fun i => ?_ }
  · refine hs.messages.modify (fun m _ hown => ?_) hf
    rw [hf, hrel]
    exact hown
  · simp only [Table.isSome_find_modify, Table.mem_of_insert hrevisions]
    rw [hs.revised]
    constructor
    · rintro ⟨r', hr', hid⟩
      exact ⟨r', Or.inl hr', hid⟩
    · rintro ⟨r', hr' | rfl, hid⟩
      · exact ⟨r', hr', hid⟩
      · refine (hs.revised i).mp ?_
        rw [← hid, hr, hm]
        rfl

theorem Scoped.modifyMessage (hs : Scoped db) {f : Message → Message}
    (hf : ∀ m, (f m).event_id = m.event_id)
    (hrel : ∀ m, (f m).relationship_id = m.relationship_id) :
    Scoped { db with messages := db.messages.modify target f hf } := by
  refine { hs with messages := ?_, revised := fun i => ?_ }
  · refine hs.messages.modify (fun m _ hown => ?_) hf
    rw [hf, hrel]
    exact hown
  · simp only [Table.isSome_find_modify]
    exact hs.revised i

/-- The step of the invariant: one case per write. -/
theorem Write.scoped (h : Write ev now db db') (hs : Scoped db)
    (hlog : db.events.find ev.event_id = some ev) : Scoped db' := by
  cases h with
  | pending htarget => exact hs.addPending hlog (fun _ => htarget)
  | reply => exact hs.addPending hlog (fun h => absurd rfl h)
  | thread hopens hjoins =>
    obtain ⟨threads, thread_state, heq⟩ := registerThread_eq db ev ‹_›
    rw [heq]
    exact hs.threads
  | message hpayload hmessages hrevisions =>
    obtain ⟨thread_state, heq⟩ := bumpThreadMessage_eq _ ev.thread_id ev.created_at
    rw [heq]
    exact (hs.message hlog rfl rfl rfl hmessages hrevisions).threads
  | edit hpayload hm hsender hretracted hrevisions =>
    refine hs.edit ?_ hm ?_ rfl hrevisions
    exact fun _ => rfl
  | retract hpayload hm hsender hretracted =>
    refine hs.modifyMessage ?_ ?_
    exact fun _ => rfl
  | reactionAdded hpayload htarget => exact { hs with }
  | reactionRemoved hpayload htarget => exact { hs with }
  | receipt hpayload htarget => exact { hs with }
  | poll hid hrel hpolls =>
    refine { hs with polls := hs.polls.insert ?_ hpolls }
    rw [hid, hrel]
    exact eventOf_self hlog
  | pollResponse hpayload hpoll haccepted =>
    refine { hs with polls := hs.polls.modify ?_ (fun _ => by rfl) }
    exact fun _ _ hown => hown
  | task hid hrel htasks =>
    refine { hs with tasks := hs.tasks.insert ?_ htasks }
    rw [hid, hrel]
    exact eventOf_self hlog
  | taskUpdate hpayload htask hauthorized hopen =>
    refine { hs with tasks := hs.tasks.modify ?_ (fun _ => by rfl) }
    exact fun _ _ hown => hown
  | humanRequest hid hrel hattestation hpayload hrequests =>
    refine { hs with human_requests := hs.human_requests.insert ?_ hrequests }
    rw [hid, hrel]
    exact eventOf_self hlog
  | humanResponse hpayload hrequest =>
    refine { hs with human_requests := hs.human_requests.modify ?_ (fun _ => by rfl) }
    exact fun _ _ hown => hown
  | delivery hid hrel hdeliveries =>
    refine { hs with deliveries := hs.deliveries.insert ?_ hdeliveries }
    rw [hid, hrel]
    exact eventOf_self hlog
  | deliveryCancel hpayload hdelivery hsender hstate =>
    refine { hs with deliveries := hs.deliveries.modify ?_ (fun _ => by rfl) }
    exact fun _ _ hown => hown
  | securityKey => exact { hs with }

theorem Writes.scoped (h : Writes ev now db db') (hs : Scoped db)
    (hlog : db.events.find ev.event_id = some ev) : Scoped db' := by
  induction h with
  | refl => exact hs
  | tail hwrites hwrite ih =>
    refine hwrite.scoped ih ?_
    rw [(Writes.sameInputs hwrites).events]
    exact hlog

end writes

/-! ## The handlers -/

/-- The handler made writes and raised a `ProjectionError`. -/
def Rejected (ev : Event) (now : Nat) (db : Database) (failure : Failure) (db' : Database) : Prop :=
  (∃ code, failure = .projection code) ∧ Writes ev now db db'

section handlers

variable {ev : Event} {now : Nat} {db db₀ : Database}

theorem Writes.refl : Writes ev now db db := Relation.ReflTransGen.refl

theorem Writes.one {db' : Database} (h : Write ev now db db') : Writes ev now db db' :=
  Relation.ReflTransGen.single h

theorem Writes.reject (h : Writes ev now db₀ db) (code : ProjectionCode) :
    (Outcome.reject db code).Ends (Writes ev now db₀) (Rejected ev now db₀) :=
  ⟨⟨code, rfl⟩, h⟩

theorem awaitTarget_ends {expected : EventType} {code : ProjectionCode} {kind : RefKind}
    (htarget : ev.payload.target = some (kind, target)) :
    (awaitTarget db ev target expected code kind).Ends (Writes ev now db) (Rejected ev now db) := by
  unfold awaitTarget
  split_ifs
  · exact Writes.refl.reject code
  · exact .one (.pending htarget)

theorem joins_of {thread_id : ThreadId} (ht : ev.thread_id = some thread_id)
    (hany : ¬ (db.threads.find thread_id).any (·.conversation_id ≠ ev.conversation_id) = true) :
    Joins db ev thread_id := by
  refine ⟨ht, fun r hr => ?_⟩
  rw [hr] at hany
  simpa using hany

/-- The thread of the event is one of its conversation and has a state row. -/
def Opened (ev : Event) (db : Database) : Prop :=
  ∀ t, ev.thread_id = some t → Joins db ev t ∧ (db.thread_state.find t).isSome

theorem Joins.registerThread {t : ThreadId} (h : Joins db ev t) :
    Joins (registerThread db ev t) ev t := by
  refine ⟨h.1, fun r hr => ?_⟩
  rw [registerThread_threads, Table.find_insertOrIgnore, if_pos rfl] at hr
  obtain rfl := Option.some.inj hr
  cases hrow : db.threads.find t with
  | none => rfl
  | some row => exact h.2 row hrow

theorem registerThread_isSome (db : Database) (ev : Event) (t : ThreadId) :
    ((registerThread db ev t).thread_state.find t).isSome := by
  have hregistered : ((db.thread_state.insertOrIgnore
      { thread_id := t, conversation_id := ev.conversation_id }).find t).isSome := by
    rw [Table.find_insertOrIgnore, if_pos rfl]
    rfl
  unfold registerThread
  dsimp only
  split_ifs
  · rw [Table.find_modify, if_pos rfl, Option.isSome_map]
    exact hregistered
  · exact hregistered

theorem ensureThread_ends (hopens : ev.payload.opensThread = true) :
    (ensureThread db ev).Ends (fun db' => Writes ev now db db' ∧ Opened ev db') (Rejected ev now db) := by
  unfold ensureThread
  split
  · rename_i hnone
    refine ⟨Writes.refl, fun t ht => ?_⟩
    rw [hnone] at ht
    cases ht
  · rename_i thread_id ht
    split_ifs with hany
    · exact Writes.refl.reject _
    · have hjoins := joins_of ht hany
      refine ⟨.one (.thread hopens hjoins), fun t ht' => ?_⟩
      obtain rfl := Option.some.inj (ht.symm.trans ht')
      exact ⟨hjoins.registerThread, registerThread_isSome db ev thread_id⟩

/-- The handlers of a new poll, task or request: the thread, then one insert
under the event's own id. -/
theorem opens_ends {body : Database → Outcome} (hopens : ev.payload.opensThread = true)
    (hbody : ∀ db', Writes ev now db db' → Opened ev db' →
      (body db').Ends (Writes ev now db) (Rejected ev now db)) :
    ((ensureThread db ev).andThen body).Ends (Writes ev now db) (Rejected ev now db) :=
  (ensureThread_ends hopens).andThen (fun db' h => hbody db' h.1 h.2)

theorem storeMessage_eq {body : String} {reply_state : ReplyState} (hs : Scoped db)
    (hnew : db.messages.find ev.event_id = none) :
    ∃ messages message_revisions attachments,
      db.messages.insert (newMessage ev body format reply_state) = some messages ∧
      db.message_revisions.insert ⟨ev.event_id, 0, body, ev.created_at, none, none⟩ =
        some message_revisions ∧
      storeMessage db ev body format attachment reply_state now =
        .done (bumpThreadMessage { db with messages, message_revisions, attachments } ev.thread_id
          ev.created_at) := by
  have hrevision : db.message_revisions.find
      (Revision.key ⟨ev.event_id, 0, body, ev.created_at, none, none⟩) = none := by
    rw [Table.find_eq_none]
    intro r hr hkey
    have hfound := (hs.revised ev.event_id).mpr ⟨r, hr, congrArg Prod.fst hkey⟩
    rw [hnew] at hfound
    exact absurd hfound Bool.false_ne_true
  obtain ⟨messages, hmessages⟩ :=
    Table.insert_isSome (r := newMessage ev body format reply_state) hnew
  obtain ⟨revisions, hrevisions⟩ := Table.insert_isSome hrevision
  unfold storeMessage
  simp only [Outcome.insert, hmessages, Outcome.andThen, hrevisions]
  cases attachment with
  | none => exact ⟨messages, revisions, _, rfl, rfl, rfl⟩
  | some attachment => exact ⟨messages, revisions, _, rfl, rfl, rfl⟩

theorem storeMessage_ends {body : String} {reply_state : ReplyState}
    (hpayload : ev.payload = .messageCreated body format attachment) (hs : Scoped db)
    (hw : Writes ev now db₀ db) (hopened : Opened ev db)
    (hnew : db.messages.find ev.event_id = none) :
    (storeMessage db ev body format attachment reply_state now).Ends (Writes ev now db₀)
      (Rejected ev now db₀) := by
  obtain ⟨_, _, _, hmessages, hrevisions, heq⟩ := storeMessage_eq hs hnew
  rw [heq]
  exact hw.tail (.message hpayload hmessages hrevisions (fun t ht => (hopened t ht).2))

theorem handleMessageCreated_ends {body : String}
    (hpayload : ev.payload = .messageCreated body format attachment) (hs : Scoped db)
    (hlog : db.events.find ev.event_id = some ev) :
    (handleMessageCreated db ev body format attachment now).Ends (Writes ev now db)
      (Rejected ev now db) := by
  have hopens : ev.payload.opensThread = true := by rw [hpayload]; rfl
  refine opens_ends hopens (fun db' hw hopened => ?_)
  have hs' := hw.scoped hs hlog
  have hlog' : db'.events.find ev.event_id = some ev := by rw [hw.sameInputs.events]; exact hlog
  split_ifs with hstored
  · exact hw
  · have hnew : db'.messages.find ev.event_id = none := by simpa using hstored
    split
    · exact storeMessage_ends hpayload hs' hw hopened hnew
    · rename_i reply_to _
      split
      · refine storeMessage_ends hpayload ?_ (hw.tail (.reply hopens)) hopened hnew
        exact hs'.addPending hlog' (fun h => absurd rfl h)
      · split_ifs
        · exact storeMessage_ends hpayload hs' hw hopened hnew
        · exact hw.reject _

theorem max_revision {newest : Nat} (hmax : (revisionNumbers db target).max? = some newest)
    (hr : r ∈ db.message_revisions.rows)
    (htarget : r.event_id = target) : r.revision_no ≤ newest := by
  rw [List.max?_eq_some_iff] at hmax
  refine hmax.2 r.revision_no (List.mem_map.mpr ⟨r, List.mem_filter.mpr ⟨hr, ?_⟩, rfl⟩)
  simpa using htarget

theorem newest_revision (hs : Scoped db) (hm : db.messages.find target = some m) :
    ∃ newest, (revisionNumbers db target).max? = some newest ∧
      db.message_revisions.find (target, newest + 1) = none := by
  cases hmax : (revisionNumbers db target).max? with
  | none =>
    obtain ⟨r, hr, hid⟩ := (hs.revised target).mp (by rw [hm]; rfl)
    have hempty : revisionNumbers db target = [] := List.max?_eq_none_iff.mp hmax
    have hmem : r.revision_no ∈ revisionNumbers db target :=
      List.mem_map.mpr ⟨r, List.mem_filter.mpr ⟨hr, by simpa using hid⟩, rfl⟩
    rw [hempty] at hmem
    exact absurd hmem List.not_mem_nil
  | some newest =>
    refine ⟨newest, rfl, Table.find_eq_none.mpr (fun r hr hkey => ?_)⟩
    have hle := max_revision hmax hr (congrArg Prod.fst hkey)
    have hno : r.revision_no = newest + 1 := congrArg Prod.snd hkey
    omega

theorem handleMessageEdited_ends {body : String} {reason : Option String}
    (hpayload : ev.payload = .messageEdited target body reason) (hs : Scoped db) :
    (handleMessageEdited db ev target body reason).Ends (Writes ev now db) (Rejected ev now db) := by
  unfold handleMessageEdited
  split_ifs with hdone
  · exact Writes.refl
  · cases hm : db.messages.find target with
    | none =>
      refine awaitTarget_ends ?_
      rw [hpayload]
      rfl
    | some m =>
      dsimp only
      split_ifs with hsender hretracted
      · exact Writes.refl.reject _
      · exact Writes.refl.reject _
      · obtain ⟨newest, hmax, hfree⟩ := newest_revision hs hm
        rw [hmax]
        dsimp only
        refine (Outcome.ends_insert (E := Rejected ev now db) hfree
          (fun revisions hrevisions => ?_)).andThen (P := fun db' =>
            ∃ revisions, db.message_revisions.insert
              ⟨target, newest + 1, body, ev.created_at, some ev.event_id, reason⟩ = some revisions ∧
              db' = { db with message_revisions := revisions }) (fun db' hdb' => ?_)
        · exact ⟨revisions, hrevisions, rfl⟩
        · obtain ⟨revisions, hrevisions, rfl⟩ := hdb'
          refine .one (.edit hpayload hm ?_ ?_ hrevisions hmax (Bool.eq_false_of_not_eq_true hdone))
          · simpa using hsender
          · simpa using hretracted

theorem handleMessageRetracted_ends {reason : Option String}
    (hpayload : ev.payload = .messageRetracted target reason) :
    (handleMessageRetracted db ev target reason).Ends (Writes ev now db) (Rejected ev now db) := by
  unfold handleMessageRetracted
  cases hm : db.messages.find target with
  | none =>
    refine awaitTarget_ends ?_
    rw [hpayload]
    rfl
  | some m =>
    dsimp only
    split_ifs with hsender hretracted
    · exact Writes.refl.reject _
    · exact Writes.refl
    · refine .one (.retract hpayload hm ?_ ?_)
      · simpa using hsender
      · simpa using hretracted

theorem handleReactionAdded_ends {emoji : String}
    (hpayload : ev.payload = .reactionAdded target emoji) :
    (handleReactionAdded db ev target emoji).Ends (Writes ev now db) (Rejected ev now db) := by
  unfold handleReactionAdded
  dsimp only
  split_ifs with hnone hdone hcap
  · refine .one (.pending ?_)
    rw [hpayload]
    rfl
  · exact Writes.refl
  · exact Writes.refl.reject _
  · refine .one (.reactionAdded hpayload ?_ ?_)
    · simpa [Option.isSome_iff_ne_none] using hnone
    · rw [not_and_or, not_le] at hcap
      refine hcap.imp_left (fun hinactive => ?_)
      cases hrow : db.reactions.find (target, ev.sender, emoji) with
      | none => exact absurd (by rw [hrow]; rfl) hinactive
      | some r =>
        rw [hrow] at hinactive
        simpa using hinactive

theorem handleReactionRemoved_ends {emoji : String}
    (hpayload : ev.payload = .reactionRemoved target emoji) :
    (handleReactionRemoved db ev target emoji).Ends (Writes ev now db) (Rejected ev now db) := by
  unfold handleReactionRemoved
  split_ifs with hnone
  · refine .one (.pending ?_)
    rw [hpayload]
    rfl
  · split
    · exact Writes.refl
    · split_ifs
      · exact Writes.refl
      · refine .one (.reactionRemoved hpayload ?_)
        simpa [Option.isSome_iff_ne_none] using hnone

theorem handleReceipt_ends {kind : ReceiptKind} {time : Nat}
    (hpayload : ev.payload = .receipt kind target time) :
    (handleReceipt db ev kind target time).Ends (Writes ev now db) (Rejected ev now db) := by
  unfold handleReceipt
  split_ifs with hnone hdone
  · refine .one (.pending ?_)
    rw [hpayload]
    rfl
  · exact Writes.refl
  · refine .one (.receipt hpayload ?_)
    simpa [Option.isSome_iff_ne_none] using hnone

theorem handlePollCreated_ends {question : String} {choices : List String} {closes_at : Nat}
    {multi_select : Bool}
    (hpayload : ev.payload = .pollCreated question choices closes_at multi_select) :
    (handlePollCreated db ev question choices closes_at multi_select).Ends (Writes ev now db)
      (Rejected ev now db) := by
  refine opens_ends (by rw [hpayload]; rfl) (fun db' hw _ => ?_)
  split_ifs with hstored hcloses
  · exact hw
  · exact hw.reject _
  · refine Outcome.ends_insert (by simpa using hstored) (fun polls hpolls => ?_)
    exact hw.tail (.poll rfl rfl hpolls)

theorem handlePollResponded_ends {poll_id : EventId} {choice_ids : List String}
    {human_confirmed : Bool} {approval_record_id : Option ApprovalId}
    (hpayload : ev.payload = .pollResponded poll_id choice_ids human_confirmed approval_record_id) :
    (handlePollResponded db ev poll_id choice_ids human_confirmed approval_record_id now).Ends
      (Writes ev now db) (Rejected ev now db) := by
  unfold handlePollResponded
  cases hpoll : db.polls.find poll_id with
  | none =>
    refine awaitTarget_ends ?_
    rw [hpayload]
    rfl
  | some poll =>
    dsimp only
    split
    · exact Writes.refl.reject _
    · rename_i haccepted
      exact .one (.pollResponse hpayload hpoll haccepted)

theorem handleTaskCreated_ends {title : String} {owner_identity : IdentityId} {due_at : Option Nat}
    (hpayload : ev.payload = .taskCreated title owner_identity due_at) :
    (handleTaskCreated db ev title owner_identity due_at).Ends (Writes ev now db)
      (Rejected ev now db) := by
  refine opens_ends (by rw [hpayload]; rfl) (fun db' hw _ => ?_)
  split_ifs with hstored
  · exact hw
  · refine Outcome.ends_insert (by simpa using hstored) (fun tasks htasks => ?_)
    exact hw.tail (.task rfl rfl htasks rfl rfl hpayload)

theorem handleTaskUpdated_ends {task_id : EventId} {status : TaskStatus} {note : Option String}
    (hpayload : ev.payload = .taskUpdated task_id status note) :
    (handleTaskUpdated db ev task_id status note).Ends (Writes ev now db) (Rejected ev now db) := by
  unfold handleTaskUpdated
  cases htask : db.tasks.find task_id with
  | none =>
    refine awaitTarget_ends ?_
    rw [hpayload]
    rfl
  | some task =>
    dsimp only
    split_ifs with hauthorized hterminal
    · exact Writes.refl.reject _
    · exact Writes.refl.reject _
    · refine .one (.taskUpdate hpayload htask ?_ ?_)
      · by_contra h
        exact hauthorized (not_or.mp h)
      · simpa using hterminal

theorem handleHumanRequested_ends {prompt response_shape : String} {expires_at : Nat}
    (hpayload : ev.payload = .humanRequested prompt response_shape expires_at) :
    (handleHumanRequested db ev prompt response_shape expires_at).Ends (Writes ev now db)
      (Rejected ev now db) := by
  refine opens_ends (by rw [hpayload]; rfl) (fun db' hw hopened => ?_)
  split_ifs with hstored
  · exact hw
  · refine Outcome.ends_insert (by simpa using hstored) (fun requests hrequests => ?_)
    exact hw.tail (.humanRequest rfl rfl rfl (by rw [hpayload]; rfl) hrequests
      (fun t ht => (hopened t ht).1))

theorem handleHumanResponded_ends {request_id : EventId} {answer : String} {approved : Bool}
    {approval_record_id : ApprovalId}
    (hpayload : ev.payload = .humanResponded request_id answer approved approval_record_id) :
    (handleHumanResponded db ev request_id answer approved approval_record_id).Ends
      (Writes ev now db) (Rejected ev now db) := by
  unfold handleHumanResponded
  cases hrequest : db.human_requests.find request_id with
  | none =>
    refine awaitTarget_ends ?_
    rw [hpayload]
    rfl
  | some request => exact .one (.humanResponse hpayload hrequest)

theorem handleDeliveryScheduled_ends {inner_event_id : EventId} {deliver_at : Nat}
    {late_by_seconds : Option Nat}
    (hpayload : ev.payload = .deliveryScheduled inner_event_id deliver_at late_by_seconds) :
    (handleDeliveryScheduled db ev inner_event_id deliver_at late_by_seconds).Ends
      (Writes ev now db) (Rejected ev now db) := by
  unfold handleDeliveryScheduled
  split_ifs with hstored hdone
  · exact Writes.refl
  · exact Writes.refl
  · refine Outcome.ends_insert (by simpa using hstored) (fun deliveries hdeliveries => ?_)
    refine .one (.delivery rfl rfl hdeliveries rfl rfl (fun d hd hsame => ?_) hpayload)
    exact hdone (List.any_eq_true.mpr ⟨d, hd, decide_eq_true hsame⟩)

theorem handleDeliveryCanceled_ends {scheduled_event_id : EventId}
    (hpayload : ev.payload = .deliveryCanceled scheduled_event_id) :
    (handleDeliveryCanceled db ev scheduled_event_id).Ends (Writes ev now db)
      (Rejected ev now db) := by
  unfold handleDeliveryCanceled
  cases hdelivery : db.deliveries.find scheduled_event_id with
  | none =>
    refine awaitTarget_ends ?_
    rw [hpayload]
    rfl
  | some delivery =>
    dsimp only
    split_ifs with hsender hcanceled
    · exact Writes.refl.reject _
    · exact Writes.refl
    · refine .one (.deliveryCancel hpayload hdelivery (not_not.mp hsender) ?_)
      cases hstate : delivery.state with
      | scheduled => rfl
      | canceled => exact absurd hstate hcanceled

theorem handleSecurityKey_ends {action : KeyAction} :
    (handleSecurityKey db ev action).Ends (Writes ev now db) (Rejected ev now db) := by
  unfold handleSecurityKey
  split_ifs with hstored
  · exact Writes.refl
  · refine Outcome.ends_insert (by simpa using hstored) (fun _ hsecurity => ?_)
    exact .one (.securityKey rfl rfl hsecurity)

/-- From a scoped database a handler makes writes, and it raises nothing but a
`ProjectionError`. -/
theorem dispatch_ends (hs : Scoped db) (hlog : db.events.find ev.event_id = some ev) :
    (dispatch db ev now).Ends (Writes ev now db) (Rejected ev now db) := by
  unfold dispatch
  split
  · exact handleMessageCreated_ends ‹_› hs hlog
  · exact handleMessageEdited_ends ‹_› hs
  · exact handleMessageRetracted_ends ‹_›
  · exact handleReactionAdded_ends ‹_›
  · exact handleReactionRemoved_ends ‹_›
  · exact handleReceipt_ends ‹_›
  · exact handlePollCreated_ends ‹_›
  · exact handlePollResponded_ends ‹_›
  · exact handleTaskCreated_ends ‹_›
  · exact handleTaskUpdated_ends ‹_›
  · exact handleHumanRequested_ends ‹_›
  · exact handleHumanResponded_ends ‹_›
  · exact handleDeliveryScheduled_ends ‹_›
  · exact handleDeliveryCanceled_ends ‹_›
  · exact handleSecurityKey_ends
  · exact Writes.refl
  · exact Writes.refl
  · exact Writes.refl
  · exact Writes.refl

end handlers

end MuseAgentSocial.Store
