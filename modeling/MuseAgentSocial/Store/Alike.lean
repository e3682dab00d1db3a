import MuseAgentSocial.Store.Rejection

/-!
# What a projection reads

A handler reads and writes the rows that are named after its event, after the
event's target and after the event's thread.  `Window` is a choice of names, and
`Alike w db db'` says that the two databases have the same rows under these names
and decide in the same way which of their events are out of thread.

* `dispatch_alike`: an event inside the window has the same outcome in both
  databases, and leaves them alike.
* `applyInner_alike`: so has `apply_event`, with the events that waited.

The quarantine and the attachments are in no window: no handler reads them.
-/

namespace MuseAgentSocial.Store

open Model Crypto Policy

/-- The names of the rows that are compared. -/
structure Window where
  event : EventId → Bool
  thread : ThreadId → Bool
  relationship : RelationshipId → Bool
  /-- The requests whose answers are compared. -/
  request : EventId → Bool

/-- The databases have the same log, and the same rows under the names of the
window.  Of the threads only the decision of `_ensure_thread` is the same. -/
structure Alike (w : Window) (db db' : Database) : Prop where
  events : ∀ i, db'.events.find i = db.events.find i
  threads : ∀ ev, w.event ev.event_id = true → db.events.find ev.event_id = some ev →
    ev.payload.opensThread = true → outOfThread db ev = outOfThread db' ev
  messages : Table.Agree w.event db.messages db'.messages
  message_revisions :
    Table.Agree (fun k => w.event k.1) db.message_revisions db'.message_revisions
  reactions : Table.Agree (fun k => w.event k.1) db.reactions db'.reactions
  receipts : Table.Agree (fun k => w.event k.1) db.receipts db'.receipts
  polls : Table.Agree w.event db.polls db'.polls
  poll_responses : Table.Agree (fun k => w.event k.1) db.poll_responses db'.poll_responses
  tasks : Table.Agree w.event db.tasks db'.tasks
  human_requests : Table.Agree w.event db.human_requests db'.human_requests
  deliveries : Table.Agree w.event db.deliveries db'.deliveries
  security_key_events : Table.Agree w.event db.security_key_events db'.security_key_events
  thread_state : Table.Agree w.thread db.thread_state db'.thread_state
  pending_refs : Table.Agree w.event db.pending_refs db'.pending_refs
  projection_cursors :
    Table.Agree (fun k => w.relationship k.1) db.projection_cursors db'.projection_cursors
  sequence_gaps : Table.Agree (fun k => w.relationship k.1) db.sequence_gaps db'.sequence_gaps
  /-- An answer to a request of the window is attested in the same way. -/
  attested : ∀ ev request answer approved approval, w.event ev.event_id = true →
    w.request request = true → ev.payload = .humanResponded request answer approved approval →
    db.events.find ev.event_id = some ev →
    humanResponseAttestation db ev approval = humanResponseAttestation db' ev approval

/-- The same failure, or none, and databases that are alike. -/
def Outcome.Alike (w : Window) (out out' : Outcome) : Prop :=
  out.2 = out'.2 ∧ Store.Alike w out.1 out'.1

/-- The names of an event are in the window. -/
structure Window.Holds (w : Window) (ev : Event) : Prop where
  own : w.event ev.event_id = true
  thread : ∀ t, ev.thread_id = some t → w.thread t = true
  relationship : w.relationship ev.relationship_id = true

/-- The row that the handler looks up by the bare id of the target is one of the
window, or there is none. -/
def Window.Reads (w : Window) (db : Database) (ev : Event) : Prop :=
  match ev.payload with
  | .messageEdited target _ _ | .messageRetracted target _ =>
    w.event target = true ∨ db.messages.find target = none
  | .pollResponded poll_id _ _ _ => w.event poll_id = true ∨ db.polls.find poll_id = none
  | .taskUpdated task_id _ _ => w.event task_id = true ∨ db.tasks.find task_id = none
  | .humanResponded request_id _ _ _ =>
    w.event request_id = true ∨ db.human_requests.find request_id = none
  | .deliveryCanceled scheduled_event_id =>
    w.event scheduled_event_id = true ∨ db.deliveries.find scheduled_event_id = none
  | _ => True

/-- The window has the name of every event of the relationship. -/
def Window.Covers (w : Window) (db : Database) (rid : RelationshipId) : Prop :=
  ∀ i, db.eventOf rid i = true → w.event i = true

/-! ## Outcomes -/

section outcomes

variable {w : Window} {db db' : Database} {out out' : Outcome}

theorem Alike.refl (w : Window) (db : Database) : Alike w db db :=
  ⟨fun _ => rfl, fun _ _ _ _ => rfl, .refl _, .refl _, .refl _, .refl _, .refl _, .refl _, .refl _, .refl _,
    .refl _, .refl _, .refl _, .refl _, .refl _, .refl _, fun _ _ _ _ _ _ _ _ _ => rfl⟩

theorem Alike.eventOf (h : Alike w db db') : db'.eventOf = db.eventOf := by
  funext rid i
  unfold Database.eventOf
  rw [h.events]

theorem Alike.mem_events (h : Alike w db db') {e : Event} : e ∈ db'.events.rows ↔ e ∈ db.events.rows := by
  rw [Table.mem_iff_find, Table.mem_iff_find, h.events]

theorem Alike.forked (h : Alike w db db') (ev : Event) : Store.forked db' ev = Store.forked db ev := by
  unfold Store.forked
  rw [Bool.eq_iff_iff, List.any_eq_true, List.any_eq_true]
  simp only [h.mem_events]

theorem Alike.targetEvent (h : Alike w db db') : Store.targetEvent db' = Store.targetEvent db := by
  funext rid i
  unfold Store.targetEvent
  rw [h.events]

theorem Outcome.Alike.done (h : Store.Alike w db db') :
    Outcome.Alike w (.done db) (.done db') :=
  ⟨rfl, h⟩

theorem Outcome.Alike.reject (h : Store.Alike w db db') (code : ProjectionCode) :
    Outcome.Alike w (.reject db code) (.reject db' code) :=
  ⟨rfl, h⟩

theorem Outcome.Alike.andThen {f f' : Database → Outcome} (h : Outcome.Alike w out out')
    (hf : ∀ db db', Store.Alike w db db' → Outcome.Alike w (f db) (f' db')) :
    Outcome.Alike w (out.andThen f) (out'.andThen f') := by
  match out, out', h with
  | (db, .ok ()), (db', _), ⟨rfl, h⟩ => exact hf db db' h
  | (db, .error failure), (db', _), ⟨rfl, h⟩ => exact ⟨rfl, h⟩

/-- The same with what is known of the first parts. -/
theorem Outcome.Alike.andThen_ends {f f' : Database → Outcome} {P P' : Database → Prop}
    {E E' : Failure → Database → Prop} (h : Outcome.Alike w out out') (hP : out.Ends P E)
    (hP' : out'.Ends P' E')
    (hf : ∀ db db', P db → P' db' → Store.Alike w db db' → Outcome.Alike w (f db) (f' db')) :
    Outcome.Alike w (out.andThen f) (out'.andThen f') := by
  match out, out', h with
  | (db, .ok ()), (db', _), ⟨rfl, h⟩ => exact hf db db' hP hP' h
  | (db, .error failure), (db', _), ⟨rfl, h⟩ => exact ⟨rfl, h⟩

/-- An insert under a name of the window. -/
theorem Outcome.Alike.insert {κ ρ : Type} {key : ρ → κ} [DecidableEq κ] {p : κ → Bool}
    {t t' : Table key} {row : ρ} {put put' : Table key → Database} (h : Store.Alike w db db')
    (ht : Table.Agree p t t') (hp : p (key row) = true)
    (hput : ∀ u u', Table.Agree p u u' → Store.Alike w (put u) (put' u')) :
    Outcome.Alike w (Outcome.insert db t row put) (Outcome.insert db' t' row put') := by
  unfold Outcome.insert
  rcases ht.insert hp with ⟨hnone, hnone'⟩ | ⟨u, u', hu, hu', hagree⟩
  · rw [hnone, hnone']
    exact ⟨rfl, h⟩
  · rw [hu, hu']
    exact ⟨rfl, hput u u' hagree⟩

end outcomes

/-! ## Handlers -/

section handlers

variable {w : Window} {db db' : Database} {ev : Event} {now : Nat}

theorem addPending_alike (h : Alike w db db') (target : EventId) (kind : RefKind) :
    Alike w (addPending db ev target kind) (addPending db' ev target kind) :=
  { h with pending_refs := h.pending_refs.insertOrIgnore }

theorem awaitTarget_alike (h : Alike w db db') (target : EventId) (expected : EventType)
    (code : ProjectionCode) (kind : RefKind) :
    Outcome.Alike w (awaitTarget db ev target expected code kind)
      (awaitTarget db' ev target expected code kind) := by
  unfold awaitTarget targetRejected
  rw [h.targetEvent]
  split_ifs
  · exact .reject h code
  · exact .done (addPending_alike h target kind)

theorem outOfThread_registerThread {thread_id : ThreadId} (hjoins : Joins db ev thread_id) (e : Event) :
    outOfThread (registerThread db ev thread_id) e =
      if e.thread_id = some thread_id then decide (ev.conversation_id ≠ e.conversation_id)
      else outOfThread db e := by
  unfold outOfThread
  rw [registerThread_threads]
  cases ht : e.thread_id with
  | none => rfl
  | some t =>
    rw [Option.any_some, Option.any_some, Table.find_insertOrIgnore]
    by_cases hkey : t = thread_id
    · subst hkey
      rw [if_pos rfl, if_pos rfl, Option.any_some]
      cases hrow : db.threads.find t with
      | none => rfl
      | some row =>
        rw [Option.getD_some, hjoins.2 row hrow]
    · rw [if_neg hkey, if_neg (fun heq => hkey (Option.some.inj heq))]

theorem registerThread_alike {thread_id : ThreadId} (h : Alike w db db')
    (hjoins : Joins db ev thread_id) (hjoins' : Joins db' ev thread_id) :
    Alike w (registerThread db ev thread_id) (registerThread db' ev thread_id) := by
  have hthreads : ∀ e, w.event e.event_id = true → db.events.find e.event_id = some e →
      e.payload.opensThread = true →
      outOfThread (registerThread db ev thread_id) e = outOfThread (registerThread db' ev thread_id) e := by
    intro e he hlog hopens
    rw [outOfThread_registerThread hjoins, outOfThread_registerThread hjoins', h.threads e he hlog hopens]
  unfold registerThread at hthreads ⊢
  dsimp only at hthreads ⊢
  split_ifs at hthreads ⊢
  · exact { h with threads := hthreads, thread_state := h.thread_state.insertOrIgnore.modify (fun _ => by split_ifs <;> rfl) }
  · exact { h with threads := hthreads, thread_state := h.thread_state.insertOrIgnore }

theorem ensureThread_alike (h : Alike w db db') (hin : w.Holds ev)
    (hlog : db.events.find ev.event_id = some ev) (hopens : ev.payload.opensThread = true) :
    Outcome.Alike w (ensureThread db ev) (ensureThread db' ev) := by
  have hsame := h.threads ev hin.own hlog hopens
  cases ht : ev.thread_id with
  | none =>
    unfold ensureThread
    rw [ht]
    exact .done h
  | some t =>
    by_cases hjoins : Joins db ev t
    · have hjoins' : Joins db' ev t := by
        by_contra hnot
        rw [(outOfThread_iff ht).mpr hnot] at hsame
        exact (outOfThread_iff ht).mp hsame hjoins
      rw [ensureThread_of_joins hjoins, ensureThread_of_joins hjoins']
      exact .done (registerThread_alike h hjoins hjoins')
    · have hjoins' : ¬ Joins db' ev t := by
        rw [(outOfThread_iff ht).mpr hjoins] at hsame
        exact (outOfThread_iff ht).mp hsame.symm
      rw [ensureThread_of_not_joins ht hjoins, ensureThread_of_not_joins ht hjoins']
      exact .reject h _

theorem bumpThreadMessage_alike (h : Alike w db db') (thread_id : Option ThreadId)
    (created_at : Nat) :
    Alike w (bumpThreadMessage db thread_id created_at) (bumpThreadMessage db' thread_id created_at) := by
  unfold bumpThreadMessage
  cases thread_id with
  | none => exact h
  | some thread_id => exact { h with thread_state := h.thread_state.modify (fun _ => by rfl) }

theorem storeMessage_alike (h : Alike w db db') (hin : w.Holds ev) (body : String)
    (format : Format) (attachment : Option Attachment) (reply_state : ReplyState) :
    Outcome.Alike w (storeMessage db ev body format attachment reply_state now)
      (storeMessage db' ev body format attachment reply_state now) := by
  unfold storeMessage
  refine Outcome.Alike.andThen (.insert h h.messages hin.own (fun u u' hu => ?_))
    (fun db db' h => ?_)
  · exact { h with messages := hu }
  · refine Outcome.Alike.andThen (.insert h h.message_revisions hin.own (fun u u' hu => ?_))
      (fun db db' h => ?_)
    · exact { h with message_revisions := hu }
    · refine .done (bumpThreadMessage_alike ?_ ev.thread_id ev.created_at)
      cases attachment with
      | none => exact h
      | some attachment => exact { h with }

theorem handleMessageCreated_alike (h : Alike w db db') (hin : w.Holds ev)
    (hlog : db.events.find ev.event_id = some ev) (hopens : ev.payload.opensThread = true)
    (body : String) (format : Format) (attachment : Option Attachment) :
    Outcome.Alike w (handleMessageCreated db ev body format attachment now)
      (handleMessageCreated db' ev body format attachment now) := by
  unfold handleMessageCreated
  refine (ensureThread_alike h hin hlog hopens).andThen (fun db db' h => ?_)
  rw [h.messages.find hin.own, h.targetEvent]
  split_ifs
  · exact .done h
  · cases ev.reply_to with
    | none => exact storeMessage_alike h hin body format attachment _
    | some reply_to =>
      dsimp only
      cases Store.targetEvent db ev.relationship_id reply_to with
      | none => exact storeMessage_alike (addPending_alike h _ _) hin body format attachment _
      | some target =>
        dsimp only
        split_ifs
        · exact storeMessage_alike h hin body format attachment _
        · exact .reject h _

theorem revisionNumbers_alike (h : Alike w db db') {target : EventId} (htarget : w.event target = true) :
    revisionNumbers db target = revisionNumbers db' target := by
  have hrow : ∀ r : Revision, decide (r.event_id = target) = true → w.event r.event_id = true := by
    intro r hr
    rw [of_decide_eq_true hr]
    exact htarget
  unfold revisionNumbers
  rw [h.message_revisions.filter (fun r _ => hrow r) (fun r _ => hrow r)]

theorem no_revision (hs : Scoped db) {target : EventId} (hnone : db.messages.find target = none)
    (edit_event_id : EventId) :
    ¬ db.message_revisions.rows.any (fun r => r.event_id = target ∧
      r.edit_event_id = some edit_event_id) = true := by
  intro h
  obtain ⟨r, hr, hsel⟩ := List.any_eq_true.mp h
  have hfound := (hs.revised target).mpr ⟨r, hr, (of_decide_eq_true hsel).1⟩
  rw [hnone] at hfound
  exact Bool.noConfusion hfound

theorem handleMessageEdited_alike (h : Alike w db db') (hs : Scoped db) (hs' : Scoped db')
    {target : EventId} (hreads : w.event target = true ∨ db.messages.find target = none)
    (hreads' : w.event target = true ∨ db'.messages.find target = none) (body : String)
    (reason : Option String) :
    Outcome.Alike w (handleMessageEdited db ev target body reason)
      (handleMessageEdited db' ev target body reason) := by
  by_cases htarget : w.event target = true
  · have hrow : ∀ r : Revision,
        decide (r.event_id = target ∧ r.edit_event_id = some ev.event_id) = true →
        w.event r.event_id = true := by
      intro r hr
      rw [(of_decide_eq_true hr).1]
      exact htarget
    unfold handleMessageEdited
    rw [h.message_revisions.any (fun r _ => hrow r) (fun r _ => hrow r), h.messages.find htarget,
      revisionNumbers_alike h htarget]
    split_ifs
    · exact .done h
    · cases db'.messages.find target with
      | none => exact awaitTarget_alike h _ _ _ _
      | some original =>
        dsimp only
        split_ifs
        · exact .reject h _
        · exact .reject h _
        · cases (revisionNumbers db' target).max? with
          | none => exact ⟨rfl, h⟩
          | some newest =>
            refine Outcome.Alike.andThen
              (.insert h h.message_revisions htarget (fun u u' hu => ?_)) (fun db db' h => ?_)
            · exact { h with message_revisions := hu }
            · exact .done { h with messages := h.messages.modify (fun _ => by rfl) }
  · have hnone := hreads.resolve_left htarget
    have hnone' := hreads'.resolve_left htarget
    unfold handleMessageEdited
    rw [if_neg (no_revision hs hnone _), if_neg (no_revision hs' hnone' _), hnone, hnone']
    exact awaitTarget_alike h _ _ _ _

theorem handleMessageRetracted_alike (h : Alike w db db') {target : EventId}
    (hreads : w.event target = true ∨ db.messages.find target = none)
    (hreads' : w.event target = true ∨ db'.messages.find target = none) (reason : Option String) :
    Outcome.Alike w (handleMessageRetracted db ev target reason)
      (handleMessageRetracted db' ev target reason) := by
  unfold handleMessageRetracted
  rw [h.messages.find_of_or hreads hreads']
  cases db'.messages.find target with
  | none => exact awaitTarget_alike h _ _ _ _
  | some original =>
    dsimp only
    split_ifs
    · exact .reject h _
    · exact .done h
    · exact .done { h with messages := h.messages.modify (fun _ => by rfl) }

/-- The handlers of reactions and receipts look their target up in the
relationship. -/
theorem covers_target (hcovers : w.Covers db ev.relationship_id) {target : EventId}
    (hsome : ¬ (Store.targetEvent db ev.relationship_id target).isNone = true) :
    w.event target = true := by
  refine hcovers target (eventOf_of_target ?_)
  simpa [Option.isSome_iff_ne_none] using hsome

theorem handleReactionAdded_alike (h : Alike w db db') (hcovers : w.Covers db ev.relationship_id)
    (target : EventId) (emoji : String) :
    Outcome.Alike w (handleReactionAdded db ev target emoji)
      (handleReactionAdded db' ev target emoji) := by
  unfold handleReactionAdded
  rw [h.targetEvent]
  by_cases hnone : (Store.targetEvent db ev.relationship_id target).isNone = true
  · rw [if_pos hnone, if_pos hnone]
    exact .done (addPending_alike h _ _)
  · have htarget := covers_target hcovers hnone
    have hrow : ∀ r : Reaction,
        decide (r.target_event_id = target ∧ r.sender = ev.sender ∧ r.active = true) = true →
        w.event r.target_event_id = true := by
      intro r hr
      rw [(of_decide_eq_true hr).1]
      exact htarget
    have hcount : activeReactions db target ev.sender = activeReactions db' target ev.sender :=
      h.reactions.countP (fun r _ => hrow r) (fun r _ => hrow r)
    rw [if_neg hnone, if_neg hnone, h.reactions.find htarget, hcount]
    dsimp only
    split_ifs
    · exact .done h
    · exact .reject h _
    · exact .done { h with reactions := h.reactions.upsert }

theorem handleReactionRemoved_alike (h : Alike w db db') (hcovers : w.Covers db ev.relationship_id)
    (target : EventId) (emoji : String) :
    Outcome.Alike w (handleReactionRemoved db ev target emoji)
      (handleReactionRemoved db' ev target emoji) := by
  unfold handleReactionRemoved
  rw [h.targetEvent]
  by_cases hnone : (Store.targetEvent db ev.relationship_id target).isNone = true
  · rw [if_pos hnone, if_pos hnone]
    exact .done (addPending_alike h _ _)
  · rw [if_neg hnone, if_neg hnone, h.reactions.find (covers_target hcovers hnone)]
    cases db'.reactions.find (target, ev.sender, emoji) with
    | none => exact .done h
    | some r =>
      dsimp only
      split_ifs
      · exact .done h
      · exact .done { h with reactions := h.reactions.modify (fun _ => by rfl) }

theorem handleReceipt_alike (h : Alike w db db') (hcovers : w.Covers db ev.relationship_id)
    (kind : ReceiptKind) (target : EventId) (time : Nat) :
    Outcome.Alike w (handleReceipt db ev kind target time) (handleReceipt db' ev kind target time) := by
  unfold handleReceipt
  rw [h.targetEvent]
  by_cases hnone : (Store.targetEvent db ev.relationship_id target).isNone = true
  · rw [if_pos hnone, if_pos hnone]
    exact .done (addPending_alike h _ _)
  · rw [if_neg hnone, if_neg hnone, h.receipts.find (covers_target hcovers hnone)]
    split_ifs
    · exact .done h
    · exact .done { h with receipts := h.receipts.upsert }

theorem handlePollCreated_alike (h : Alike w db db') (hin : w.Holds ev)
    (hlog : db.events.find ev.event_id = some ev) (hopens : ev.payload.opensThread = true)
    (question : String) (choices : List String) (closes_at : Nat) (multi_select : Bool) :
    Outcome.Alike w (handlePollCreated db ev question choices closes_at multi_select)
      (handlePollCreated db' ev question choices closes_at multi_select) := by
  unfold handlePollCreated
  refine (ensureThread_alike h hin hlog hopens).andThen (fun db db' h => ?_)
  rw [h.polls.find hin.own]
  split_ifs
  · exact .done h
  · exact .reject h _
  · refine .insert h h.polls hin.own (fun u u' hu => ?_)
    exact { h with polls := hu }

theorem handlePollResponded_alike (h : Alike w db db') {poll_id : EventId}
    (hreads : w.event poll_id = true ∨ db.polls.find poll_id = none)
    (hreads' : w.event poll_id = true ∨ db'.polls.find poll_id = none) (choice_ids : List String) (human_confirmed : Bool)
    (approval_record_id : Option ApprovalId) :
    Outcome.Alike w
      (handlePollResponded db ev poll_id choice_ids human_confirmed approval_record_id now)
      (handlePollResponded db' ev poll_id choice_ids human_confirmed approval_record_id now) := by
  unfold handlePollResponded
  rw [h.polls.find_of_or hreads hreads']
  cases hpoll : db'.polls.find poll_id with
  | none => exact awaitTarget_alike h _ _ _ _
  | some poll =>
    have htarget : w.event poll_id = true := by
      refine hreads'.resolve_right ?_
      rw [hpoll]
      exact Option.some_ne_none poll
    dsimp only
    cases pollResponseRejected poll choice_ids now with
    | some code => exact .reject h code
    | none =>
      have hresponses := h.poll_responses.upsert
        (r := ⟨poll_id, ev.sender, choice_ids, human_confirmed, approval_record_id, ev.event_id, now⟩)
      have hrow : ∀ r : PollResponse, decide (r.poll_id = poll_id) = true →
          w.event r.poll_id = true := by
        intro r hr
        rw [of_decide_eq_true hr]
        exact htarget
      dsimp only
      rw [hresponses.countP (fun r _ => hrow r) (fun r _ => hrow r)]
      exact .done { h with poll_responses := hresponses, polls := h.polls.modify (fun _ => by rfl) }

theorem handleTaskCreated_alike (h : Alike w db db') (hin : w.Holds ev)
    (hlog : db.events.find ev.event_id = some ev) (hopens : ev.payload.opensThread = true)
    (title : String) (owner_identity : IdentityId) (due_at : Option Nat) :
    Outcome.Alike w (handleTaskCreated db ev title owner_identity due_at)
      (handleTaskCreated db' ev title owner_identity due_at) := by
  unfold handleTaskCreated
  refine (ensureThread_alike h hin hlog hopens).andThen (fun db db' h => ?_)
  rw [h.tasks.find hin.own]
  split_ifs
  · exact .done h
  · refine .insert h h.tasks hin.own (fun u u' hu => ?_)
    exact { h with tasks := hu }

theorem handleTaskUpdated_alike (h : Alike w db db') {task_id : EventId}
    (hreads : w.event task_id = true ∨ db.tasks.find task_id = none)
    (hreads' : w.event task_id = true ∨ db'.tasks.find task_id = none) (status : TaskStatus) (note : Option String) :
    Outcome.Alike w (handleTaskUpdated db ev task_id status note)
      (handleTaskUpdated db' ev task_id status note) := by
  unfold handleTaskUpdated
  rw [h.tasks.find_of_or hreads hreads']
  cases db'.tasks.find task_id with
  | none => exact awaitTarget_alike h _ _ _ _
  | some task =>
    dsimp only
    split_ifs
    · exact .reject h _
    · exact .reject h _
    · exact .done { h with tasks := h.tasks.modify (fun _ => by rfl) }

theorem handleHumanRequested_alike (h : Alike w db db') (hin : w.Holds ev)
    (hlog : db.events.find ev.event_id = some ev) (hopens : ev.payload.opensThread = true)
    (prompt response_shape : String) (expires_at : Nat) :
    Outcome.Alike w (handleHumanRequested db ev prompt response_shape expires_at)
      (handleHumanRequested db' ev prompt response_shape expires_at) := by
  unfold handleHumanRequested
  refine (ensureThread_alike h hin hlog hopens).andThen (fun db db' h => ?_)
  rw [h.human_requests.find hin.own]
  split_ifs
  · exact .done h
  · refine .insert h h.human_requests hin.own (fun u u' hu => ?_)
    exact { h with human_requests := hu }

theorem handleHumanResponded_alike (h : Alike w db db') (hin : w.Holds ev)
    (hlog : db.events.find ev.event_id = some ev) {request_id : EventId} {answer : String}
    {approved : Bool} {approval_record_id : ApprovalId}
    (hpayload : ev.payload = .humanResponded request_id answer approved approval_record_id)
    (hreads : w.event request_id = true ∨ db.human_requests.find request_id = none)
    (hreads' : w.event request_id = true ∨ db'.human_requests.find request_id = none)
    (hrequests : ∀ i, w.event i = true → (db.human_requests.find i).isSome = true → w.request i = true) :
    Outcome.Alike w (handleHumanResponded db ev request_id answer approved approval_record_id)
      (handleHumanResponded db' ev request_id answer approved approval_record_id) := by
  have hfind := h.human_requests.find_of_or hreads hreads'
  unfold handleHumanResponded
  rw [← hfind]
  by_cases hnone : (db.human_requests.find request_id).isNone = true
  · rw [if_pos hnone, if_pos hnone]
    exact awaitTarget_alike h _ _ _ _
  · have hname : w.event request_id = true :=
      hreads.resolve_right (fun heq => hnone (Option.isNone_iff_eq_none.mpr heq))
    have hrequest : w.request request_id = true :=
      hrequests request_id hname (Option.isNone_eq_false_iff.mp (Bool.eq_false_iff.mpr hnone))
    rw [if_neg hnone, if_neg hnone, h.attested ev _ _ _ _ hin.own hrequest hpayload hlog]
    exact .done { h with human_requests := h.human_requests.modify (fun _ => by rfl) }

/-- The only lookup by the relationship: the rows of a scoped database are named
after its events. -/
theorem handleDeliveryScheduled_alike (h : Alike w db db') (hin : w.Holds ev) (hs : Scoped db)
    (hs' : Scoped db') (hcovers : w.Covers db ev.relationship_id) (inner_event_id : EventId)
    (deliver_at : Nat) (late_by_seconds : Option Nat) :
    Outcome.Alike w (handleDeliveryScheduled db ev inner_event_id deliver_at late_by_seconds)
      (handleDeliveryScheduled db' ev inner_event_id deliver_at late_by_seconds) := by
  have hany : db.deliveries.rows.any (fun d => d.relationship_id = ev.relationship_id ∧
        d.sender = ev.sender ∧ d.inner_event_id = inner_event_id) =
      db'.deliveries.rows.any (fun d => d.relationship_id = ev.relationship_id ∧
        d.sender = ev.sender ∧ d.inner_event_id = inner_event_id) := by
    refine h.deliveries.any (fun d hd hsel => ?_) (fun d hd hsel => ?_)
    · have hrel := (of_decide_eq_true hsel).1
      exact hcovers _ (hrel ▸ hs.deliveries d hd)
    · have hrel := (of_decide_eq_true hsel).1
      have hown := hs'.deliveries d hd
      rw [h.eventOf] at hown
      exact hcovers _ (hrel ▸ hown)
  unfold handleDeliveryScheduled
  rw [h.deliveries.find hin.own, hany]
  split_ifs
  · exact .done h
  · exact .done h
  · refine .insert h h.deliveries hin.own (fun u u' hu => ?_)
    exact { h with deliveries := hu }

theorem handleDeliveryCanceled_alike (h : Alike w db db') {scheduled_event_id : EventId}
    (hreads : w.event scheduled_event_id = true ∨ db.deliveries.find scheduled_event_id = none)
    (hreads' : w.event scheduled_event_id = true ∨ db'.deliveries.find scheduled_event_id = none) :
    Outcome.Alike w (handleDeliveryCanceled db ev scheduled_event_id)
      (handleDeliveryCanceled db' ev scheduled_event_id) := by
  unfold handleDeliveryCanceled
  rw [h.deliveries.find_of_or hreads hreads']
  cases db'.deliveries.find scheduled_event_id with
  | none => exact awaitTarget_alike h _ _ _ _
  | some delivery =>
    dsimp only
    split_ifs
    · exact .reject h _
    · exact .done h
    · exact .done { h with deliveries := h.deliveries.modify (fun _ => by rfl) }

theorem handleSecurityKey_alike (h : Alike w db db') (hin : w.Holds ev) (action : KeyAction) :
    Outcome.Alike w (handleSecurityKey db ev action) (handleSecurityKey db' ev action) := by
  unfold handleSecurityKey
  rw [h.security_key_events.find hin.own]
  split_ifs
  · exact .done h
  · refine .insert h h.security_key_events hin.own (fun u u' hu => ?_)
    exact { h with security_key_events := hu }

theorem dispatch_alike (h : Alike w db db') (hin : w.Holds ev) (hreads : w.Reads db ev)
    (hreads' : w.Reads db' ev) (hs : Scoped db) (hs' : Scoped db')
    (hlog : db.events.find ev.event_id = some ev) (hcovers : w.Covers db ev.relationship_id)
    (hrequests : ∀ i, w.event i = true → (db.human_requests.find i).isSome = true → w.request i = true) :
    Outcome.Alike w (dispatch db ev now) (dispatch db' ev now) := by
  unfold Window.Reads at hreads hreads'
  unfold dispatch
  split
  all_goals rename_i hpayload; rw [hpayload] at hreads hreads'
  · exact handleMessageCreated_alike h hin hlog (by rw [hpayload]; rfl) _ _ _
  · exact handleMessageEdited_alike h hs hs' hreads hreads' _ _
  · exact handleMessageRetracted_alike h hreads hreads' _
  · exact handleReactionAdded_alike h hcovers _ _
  · exact handleReactionRemoved_alike h hcovers _ _
  · exact handleReceipt_alike h hcovers _ _ _
  · exact handlePollCreated_alike h hin hlog (by rw [hpayload]; rfl) _ _ _ _
  · exact handlePollResponded_alike h hreads hreads' _ _ _
  · exact handleTaskCreated_alike h hin hlog (by rw [hpayload]; rfl) _ _ _
  · exact handleTaskUpdated_alike h hreads hreads' _ _
  · exact handleHumanRequested_alike h hin hlog (by rw [hpayload]; rfl) _ _ _
  · exact handleHumanResponded_alike h hin hlog hpayload hreads hreads' hrequests
  · exact handleDeliveryScheduled_alike h hin hs hs' hcovers _ _ _
  · exact handleDeliveryCanceled_alike h hreads hreads'
  · exact handleSecurityKey_alike h hin _
  · exact .done h
  · exact .done h
  · exact .done h
  · exact .done h

end handlers

/-! ## Applying events -/

section apply

variable {w : Window} {db db' : Database} {ev : Event} {rid : RelationshipId} {target : EventId}
  {now clock clock' : Nat}

theorem updateSeqState_alike (h : Alike w db db') (hin : w.relationship ev.relationship_id = true) :
    Alike w (updateSeqState db ev now) (updateSeqState db' ev now) := by
  have hcursor := h.projection_cursors.find (k := (ev.relationship_id, ev.sender)) hin
  unfold updateSeqState
  rw [hcursor]
  dsimp only
  split_ifs
  · exact { h with
      projection_cursors := h.projection_cursors.upsert
      sequence_gaps := Table.Agree.foldl_insertOrIgnore _ h.sequence_gaps }
  · exact { h with sequence_gaps := Table.Agree.foldl_insertOrIgnore _ h.sequence_gaps }
  · exact { h with
      projection_cursors := h.projection_cursors.upsert
      sequence_gaps := h.sequence_gaps.delete _ }
  · exact { h with sequence_gaps := h.sequence_gaps.delete _ }

/-- No name of the window is one of a quarantine row. -/
theorem quarantineEvent_alike (h : Alike w db db') {e e' : Event} {reason reason' : QuarantineReason} :
    Alike w (quarantineEvent db e reason clock) (quarantineEvent db' e' reason' clock') :=
  { h with }

/-- The rows that are looked up by a bare id are not there under the name `i`. -/
structure Absent (db db' : Database) (i : EventId) : Prop where
  messages : db.messages.find i = none → db'.messages.find i = none
  polls : db.polls.find i = none → db'.polls.find i = none
  tasks : db.tasks.find i = none → db'.tasks.find i = none
  human_requests : db.human_requests.find i = none → db'.human_requests.find i = none
  deliveries : db.deliveries.find i = none → db'.deliveries.find i = none

theorem Absent.refl (db : Database) (i : EventId) : Absent db db i := ⟨id, id, id, id, id⟩

/-- A handler inserts rows under the name of its own event. -/
theorem Write.absent (h : Write ev now db db') {i : EventId} (hi : i ≠ ev.event_id) : Absent db db' i := by
  cases h with
  | thread hopens hjoins =>
    obtain ⟨_, _, heq⟩ := registerThread_eq db ev ‹_›
    rw [heq]
    exact { Absent.refl db i with }
  | message hpayload hmessages hrevisions =>
    obtain ⟨_, heq⟩ := bumpThreadMessage_eq _ ev.thread_id ev.created_at
    rw [heq]
    refine { Absent.refl db i with messages := fun hnone => ?_ }
    show Table.find _ i = none
    rw [Table.find_of_insert hmessages]
    exact (if_neg hi).trans hnone
  | edit hpayload hm hsender hretracted hrevisions =>
    exact { Absent.refl db i with messages := fun hnone => Table.find_modify_of_none hnone (fun _ => by rfl) }
  | retract hpayload hm hsender hretracted =>
    exact { Absent.refl db i with messages := fun hnone => Table.find_modify_of_none hnone (fun _ => by rfl) }
  | poll hid hrel hpolls =>
    refine { Absent.refl db i with polls := fun hnone => ?_ }
    rw [Table.find_of_insert hpolls, if_neg (hid ▸ hi)]
    exact hnone
  | pollResponse hpayload hpoll haccepted =>
    exact { Absent.refl db i with polls := fun hnone => Table.find_modify_of_none hnone (fun _ => by rfl) }
  | task hid hrel htasks =>
    refine { Absent.refl db i with tasks := fun hnone => ?_ }
    rw [Table.find_of_insert htasks, if_neg (hid ▸ hi)]
    exact hnone
  | taskUpdate hpayload htask hauthorized hopen =>
    exact { Absent.refl db i with tasks := fun hnone => Table.find_modify_of_none hnone (fun _ => by rfl) }
  | humanRequest hid hrel hattestation hpayload hrequests =>
    refine { Absent.refl db i with human_requests := fun hnone => ?_ }
    rw [Table.find_of_insert hrequests, if_neg (hid ▸ hi)]
    exact hnone
  | humanResponse hpayload hrequest =>
    exact { Absent.refl db i with human_requests := fun hnone => Table.find_modify_of_none hnone (fun _ => by rfl) }
  | delivery hid hrel hdeliveries =>
    refine { Absent.refl db i with deliveries := fun hnone => ?_ }
    rw [Table.find_of_insert hdeliveries, if_neg (hid ▸ hi)]
    exact hnone
  | deliveryCancel hpayload hdelivery hsender hstate =>
    exact { Absent.refl db i with deliveries := fun hnone => Table.find_modify_of_none hnone (fun _ => by rfl) }
  | _ => exact { Absent.refl db i with }

theorem Effect.absent (h : Effect rid (fun e => e.relationship_id = rid) now db db') {i : EventId}
    (hi : db.eventOf rid i = false) : Absent db db' i := by
  cases h with
  | write hlog hP hwrite =>
    refine hwrite.absent (fun hid => ?_)
    have hown := eventOf_self hlog
    rw [hP, ← hid, hi] at hown
    exact Bool.noConfusion hown
  | replyState hown => exact { Absent.refl db i with messages := fun hnone => Table.find_modify_of_none hnone (fun _ => by rfl) }
  | sequence =>
    obtain ⟨_, _, heq⟩ := updateSeqState_eq db ‹_› now
    rw [heq]
    exact { Absent.refl db i with }
  | _ => exact { Absent.refl db i with }

theorem Effects.absent (h : Effects rid (fun e => e.relationship_id = rid) now db db') {i : EventId}
    (hi : db.eventOf rid i = false) : Absent db db' i := by
  refine h.invariant (I := fun db' => Absent db db' i) (fun db₁ db₂ hinputs hI heffect => ?_) (.refl db i)
  have hi₁ : db₁.eventOf rid i = false := by
    unfold Database.eventOf at hi ⊢
    rw [hinputs.events]
    exact hi
  have hstep := heffect.absent hi₁
  exact ⟨hstep.messages ∘ hI.messages, hstep.polls ∘ hI.polls, hstep.tasks ∘ hI.tasks,
    hstep.human_requests ∘ hI.human_requests, hstep.deliveries ∘ hI.deliveries⟩

/-- A thread stays one of its conversation. -/
theorem Effect.threads {P : Event → Prop} (h : Effect rid P now db db') {t : ThreadId} {r : ThreadRow}
    (hr : db.threads.find t = some r) : db'.threads.find t = some r := by
  cases h with
  | write hlog hP hwrite =>
    cases hwrite with
    | thread hopens hjoins =>
      rw [registerThread_threads, Table.find_insertOrIgnore]
      split_ifs with hkey
      · rw [← hkey, hr]
        rfl
      · exact hr
    | message hpayload hmessages hrevisions =>
      obtain ⟨_, heq⟩ := bumpThreadMessage_eq _ _ _
      rw [heq]
      exact hr
    | _ => exact hr
  | sequence =>
    obtain ⟨_, _, heq⟩ := updateSeqState_eq db ‹_› now
    rw [heq]
    exact hr
  | _ => exact hr

theorem Effect.outOfThread {P : Event → Prop} (h : Effect rid P now db db') {e : Event}
    (hout : outOfThread db e = true) : outOfThread db' e = true := by
  obtain ⟨t, ht, hany⟩ := (Option.any_eq_true _ _).mp hout
  obtain ⟨r, hr, hconv⟩ := (Option.any_eq_true _ _).mp hany
  refine (Option.any_eq_true _ _).mpr ⟨t, ht, (Option.any_eq_true _ _).mpr ⟨r, h.threads hr, hconv⟩⟩

/-- The window has the requests of the relationship that have a row, and those
that can get one. -/
structure Window.Asks (w : Window) (db : Database) (rid : RelationshipId) : Prop where
  requests : ∀ i, w.event i = true → (db.human_requests.find i).isSome = true → w.request i = true
  opens : ∀ e, db.events.find e.event_id = some e → e.relationship_id = rid →
    e.payload.eventType = .humanRequested → w.request e.event_id = true ∨ outOfThread db e = true

theorem Window.Asks.effect (h : w.Asks db rid)
    (heffect : Effect rid (fun e => e.relationship_id = rid) now db db') : w.Asks db' rid := by
  refine ⟨fun i hi hrow => ?_, fun e he hrel hrequest => ?_⟩
  · cases heffect with
    | @write e _ hlog hP hwrite =>
      cases hwrite with
      | thread hopens hjoins =>
        obtain ⟨_, _, heq⟩ := registerThread_eq db e ‹_›
        rw [heq] at hrow
        exact h.requests i hi hrow
      | message hpayload hmessages hrevisions =>
        obtain ⟨_, heq⟩ := bumpThreadMessage_eq _ e.thread_id e.created_at
        rw [heq] at hrow
        exact h.requests i hi hrow
      | humanRequest hid hrel hattestation hpayload hrequests hjoins =>
        rw [Table.find_of_insert hrequests, hid] at hrow
        split_ifs at hrow with hkey
        · subst hkey
          refine (h.opens e hlog hP hpayload).resolve_right (fun hout => ?_)
          obtain ⟨t, ht, -⟩ := (Option.any_eq_true _ _).mp hout
          exact (outOfThread_iff ht).mp hout (hjoins t ht)
        · exact h.requests i hi hrow
      | humanResponse hpayload hrequest =>
        rw [Table.isSome_find_modify] at hrow
        exact h.requests i hi hrow
      | _ => exact h.requests i hi hrow
    | sequence =>
      obtain ⟨_, _, heq⟩ := updateSeqState_eq db ‹_› now
      rw [heq] at hrow
      exact h.requests i hi hrow
    | _ => exact h.requests i hi hrow
  · rw [heffect.sameInputs.events] at he
    exact (h.opens e he hrel hrequest).imp_right heffect.outOfThread

/-- The window has the names that the events of the relationship use. -/
structure Window.Sees (w : Window) (db : Database) (rid : RelationshipId) : Prop where
  holds : ∀ e, db.events.find e.event_id = some e → e.relationship_id = rid → w.Holds e
  reads : ∀ e, db.events.find e.event_id = some e → e.relationship_id = rid → w.Reads db e
  asks : w.Asks db rid

theorem Window.Sees.covers (h : w.Sees db rid) : w.Covers db rid := by
  intro i hi
  obtain ⟨e, he, hrel⟩ := eventOf_iff.mp hi
  have hkey := Table.key_of_find he
  rw [← hkey] at he ⊢
  exact (h.holds e he hrel).own

theorem Window.Reads.effects {e : Event} (h : w.Reads db e) (hcovers : w.Covers db rid)
    (heffects : Effects rid (fun e => e.relationship_id = rid) now db db') : w.Reads db' e := by
  have habsent : ∀ i, ¬ w.event i = true → Absent db db' i := by
    intro i hi
    refine heffects.absent ?_
    rw [← Bool.not_eq_true]
    exact fun hown => hi (hcovers i hown)
  unfold Window.Reads at h ⊢
  cases hpayload : e.payload with
  | messageEdited target body reason =>
    rw [hpayload] at h
    exact or_iff_not_imp_left.mpr fun hi => (habsent target hi).messages (h.resolve_left hi)
  | messageRetracted target reason =>
    rw [hpayload] at h
    exact or_iff_not_imp_left.mpr fun hi => (habsent target hi).messages (h.resolve_left hi)
  | pollResponded poll_id choice_ids human_confirmed approval_record_id =>
    rw [hpayload] at h
    exact or_iff_not_imp_left.mpr fun hi => (habsent poll_id hi).polls (h.resolve_left hi)
  | taskUpdated task_id status note =>
    rw [hpayload] at h
    exact or_iff_not_imp_left.mpr fun hi => (habsent task_id hi).tasks (h.resolve_left hi)
  | humanResponded request_id answer approved approval_record_id =>
    rw [hpayload] at h
    exact or_iff_not_imp_left.mpr fun hi => (habsent request_id hi).human_requests (h.resolve_left hi)
  | deliveryCanceled scheduled_event_id =>
    rw [hpayload] at h
    exact or_iff_not_imp_left.mpr fun hi =>
      (habsent scheduled_event_id hi).deliveries (h.resolve_left hi)
  | _ => trivial

theorem Window.Sees.effects (h : w.Sees db rid)
    (heffects : Effects rid (fun e => e.relationship_id = rid) now db db') : w.Sees db' rid := by
  have hevents := heffects.sameInputs.events
  refine ⟨fun e he => ?_, fun e he hrel => ?_, ?_⟩
  · rw [hevents] at he
    exact h.holds e he
  · rw [hevents] at he
    exact (h.reads e he hrel).effects h.covers heffects
  · exact heffects.invariant (I := fun db => w.Asks db rid) (fun _ _ _ h₁ heffect => h₁.effect heffect) h.asks

theorem resolveRef_alike {ref : PendingRef} (h : Alike w db db') (hs : Scoped db) (hs' : Scoped db')
    (hsees : w.Sees db rid) (hsees' : w.Sees db' rid) (hown : db.eventOf rid ref.event_id = true) :
    Outcome.Alike w (resolveRef db rid target ref now clock)
      (resolveRef db' rid target ref now clock') := by
  have hname : w.event ref.event_id = true := hsees.covers _ hown
  have hresolved : Alike w
      { db with
          pending_refs := db.pending_refs.modify ref.event_id (fun r => { r with state := .resolved })
            (fun _ => rfl) }
      { db' with
          pending_refs := db'.pending_refs.modify ref.event_id (fun r => { r with state := .resolved })
            (fun _ => rfl) } :=
    { h with pending_refs := h.pending_refs.modify (fun _ => by rfl) }
  unfold resolveRef
  dsimp only
  split_ifs with hreply
  · rw [hresolved.targetEvent, h.messages.find hname]
    exact .done { hresolved with messages := h.messages.modify (fun _ => by rfl) }
  · rw [h.events]
    cases he : db.events.find ref.event_id with
    | none => exact .done hresolved
    | some e =>
      have hkey := Table.key_of_find he
      have hlog : db.events.find e.event_id = some e := by rw [hkey]; exact he
      have hlog' : db'.events.find e.event_id = some e := by rw [h.events]; exact hlog
      obtain ⟨e', he', hrel⟩ := eventOf_iff.mp hown
      rw [he] at he'
      obtain rfl := Option.some.inj he'
      have hown' : db'.eventOf rid ref.event_id = true := by rw [h.eventOf]; exact hown
      have hstep : Effect rid (fun _ => True) now db _ := .resolve hown
      have hstep' : Effect rid (fun _ => True) now db' _ := .resolve hown'
      have hcovers : w.Covers db e.relationship_id := hrel ▸ hsees.covers
      have hout : Outcome.Alike w (dispatch _ e now) (dispatch _ e now) :=
        dispatch_alike hresolved (hsees.holds e hlog hrel) (hsees.reads e hlog hrel)
          (hsees'.reads e hlog' hrel) (hstep.scoped hs) (hstep'.scoped hs') hlog hcovers
          hsees.asks.requests
      dsimp only
      generalize dispatch _ e now = out at hout ⊢
      generalize dispatch _ e now = out' at hout ⊢
      obtain ⟨db₁, failure | _⟩ := out
      · obtain ⟨db₂, _⟩ := out'
        obtain ⟨rfl, halike⟩ := hout
        cases failure with
        | projection code => exact .done (quarantineEvent_alike halike)
        | integrity_error => exact ⟨rfl, halike⟩
        | type_error => exact ⟨rfl, halike⟩
      · obtain ⟨db₂, _⟩ := out'
        obtain ⟨rfl, halike⟩ := hout
        exact ⟨rfl, halike⟩

theorem eventOf_of_events (hevents : ∀ i, db'.events.find i = db.events.find i) {i : EventId}
    (hown : db.eventOf rid i = true) : db'.eventOf rid i = true := by
  unfold Database.eventOf at hown ⊢
  rw [hevents]
  exact hown

theorem resolveRef_own {ref : PendingRef} (hs : Scoped db) (hown : db.eventOf rid ref.event_id = true) :
    (resolveRef db rid target ref now clock).Ends
      (Effects rid (fun e => e.relationship_id = rid) now db) (fun _ _ => False) := by
  refine resolveRef_ends hs hown (fun _ e he => ?_)
  obtain ⟨e', he', hrel⟩ := eventOf_iff.mp hown
  rw [he] at he'
  rw [Option.some.inj he']
  exact hrel

theorem resolveRefs_alike {refs : List PendingRef} (h : Alike w db db') (hs : Scoped db)
    (hs' : Scoped db') (hsees : w.Sees db rid) (hsees' : w.Sees db' rid)
    (hown : ∀ ref ∈ refs, db.eventOf rid ref.event_id = true) :
    Outcome.Alike w (resolveRefs rid target now clock refs db)
      (resolveRefs rid target now clock' refs db') := by
  induction refs generalizing db db' with
  | nil => exact .done h
  | cons ref refs ih =>
    have href := hown ref List.mem_cons_self
    refine (resolveRef_alike h hs hs' hsees hsees' href).andThen_ends (resolveRef_own hs href)
      (resolveRef_own hs' (eventOf_of_events h.events href))
      (fun db₁ db₂ heffects heffects' h₁ => ?_)
    have hevents := heffects.sameInputs.events
    refine ih h₁ (heffects.scoped hs) (heffects'.scoped hs') (hsees.effects heffects)
      (hsees'.effects heffects') (fun r hr => ?_)
    exact eventOf_of_events (fun i => by rw [hevents]) (hown r (List.mem_cons_of_mem ref hr))

/-- The references that wait for a target are rows of the relationship. -/
theorem pendingRefs_own (hs : Scoped db) {ref : PendingRef} (href : ref ∈ pendingRefs db rid target) :
    db.eventOf rid ref.event_id = true := by
  obtain ⟨hmem, hsel⟩ := List.mem_filter.mp href
  obtain ⟨e, he, hrel, -⟩ := hs.pending_refs ref hmem
  exact eventOf_iff.mpr ⟨e, he, hrel.trans (of_decide_eq_true hsel).1⟩

theorem resolvePending_alike (h : Alike w db db') (hs : Scoped db) (hs' : Scoped db')
    (hsees : w.Sees db rid) (hsees' : w.Sees db' rid) :
    Outcome.Alike w (resolvePending db rid target now clock)
      (resolvePending db' rid target now clock') := by
  have hrefs : pendingRefs db rid target = pendingRefs db' rid target := by
    refine h.pending_refs.filter (fun r hr hsel => ?_) (fun r hr hsel => ?_)
    · exact hsees.covers _ (pendingRefs_own hs (List.mem_filter.mpr ⟨hr, hsel⟩))
    · have hown := pendingRefs_own hs' (List.mem_filter.mpr ⟨hr, hsel⟩)
      rw [h.eventOf] at hown
      exact hsees.covers _ hown
  unfold resolvePending
  rw [← hrefs]
  exact resolveRefs_alike h hs hs' hsees hsees' (fun ref href => pendingRefs_own hs href)

theorem applyInner_alike (h : Alike w db db') (hs : Scoped db) (hs' : Scoped db')
    (hsees : w.Sees db ev.relationship_id) (hsees' : w.Sees db' ev.relationship_id)
    (hlog : db.events.find ev.event_id = some ev) :
    Outcome.Alike w (applyInner db ev now clock) (applyInner db' ev now clock') := by
  have hin := hsees.holds ev hlog rfl
  have hlog' : db'.events.find ev.event_id = some ev := by rw [h.events]; exact hlog
  unfold applyInner
  rw [h.forked]
  split_ifs
  · exact .done (quarantineEvent_alike h)
  · refine (dispatch_alike h hin (hsees.reads ev hlog rfl) (hsees'.reads ev hlog' rfl) hs hs' hlog
      hsees.covers hsees.asks.requests).andThen_ends (dispatch_ends hs hlog) (dispatch_ends hs' hlog')
      (fun db₁ db₂ hw hw' h₁ => ?_)
    have hseen := hsees.effects (Writes.effects hw hlog rfl)
    have hseen' := hsees'.effects (Writes.effects hw' hlog' rfl)
    refine (resolvePending_alike h₁ (hw.scoped hs hlog) (hw'.scoped hs' hlog') hseen hseen').andThen
      (fun db₃ db₄ h₃ => ?_)
    exact .done (updateSeqState_alike h₃ hin.relationship)

end apply

end MuseAgentSocial.Store
