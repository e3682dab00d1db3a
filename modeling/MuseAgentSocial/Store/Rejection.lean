import MuseAgentSocial.Store.Isolation

/-!
# Rejected events

Which events a handler rejects, and what it has written by then.

* `rejection db ev now` is the `ProjectionError` of the handler as a function of
  the database before it; `dispatch_raises` says that it is the one that is raised.
* A rejected event leaves the database as it was, unless it is `rejectedMidway`,
  after `_ensure_thread` has registered its thread (`dispatch_midway`).
-/

namespace MuseAgentSocial.Store

open Model Crypto Policy

/-- The thread of the event is one of another conversation. -/
def outOfThread (db : Database) (ev : Event) : Bool :=
  ev.thread_id.any fun t => (db.threads.find t).any (·.conversation_id ≠ ev.conversation_id)

/-- The event replies to an accepted event of another conversation or thread. -/
def repliesAstray (db : Database) (ev : Event) : Bool :=
  ev.reply_to.any fun reply_to =>
    (targetEvent db ev.relationship_id reply_to).any fun target => !inReplyScope ev target

/-- The `ProjectionError` of the handler of the event. -/
def rejection (db : Database) (ev : Event) (now : Nat) : Option ProjectionCode :=
  if ev.payload.opensThread && outOfThread db ev then some .thread_scope_mismatch
  else
    match ev.payload with
    | .messageCreated _ _ _ =>
      if (db.messages.find ev.event_id).isNone && repliesAstray db ev then some .reply_target_scope
      else none
    | .messageEdited target _ _ =>
      if db.message_revisions.rows.any (fun r => r.event_id = target ∧
          r.edit_event_id = some ev.event_id) then none
      else
        match db.messages.find target with
        | none => if targetRejected db ev target .messageCreated then some .edit_target_not_message else none
        | some m =>
          if m.sender ≠ ev.sender then some .edit_not_sender
          else if m.retracted then some .edit_after_retract
          else none
    | .messageRetracted target _ =>
      match db.messages.find target with
      | none => if targetRejected db ev target .messageCreated then some .retract_target_not_message else none
      | some m => if m.sender ≠ ev.sender then some .retract_not_sender else none
    | .reactionAdded target emoji =>
      let row := db.reactions.find (target, ev.sender, emoji)
      if (targetEvent db ev.relationship_id target).isNone then none
      else if row.any (fun r => r.active = true ∧ r.added_event_id = ev.event_id) then none
      else if row.all (fun r => !r.active) ∧
          MAX_ACTIVE_REACTIONS_PER_SENDER_TARGET ≤ activeReactions db target ev.sender then
        some .reaction_cap_exceeded
      else none
    | .pollCreated _ _ closes_at _ =>
      if (db.polls.find ev.event_id).isNone && decide (closes_at ≤ ev.created_at) then
        some .poll_bad_closes_at
      else none
    | .pollResponded poll_id choice_ids _ _ =>
      match db.polls.find poll_id with
      | none => if targetRejected db ev poll_id .pollCreated then some .poll_response_target_not_poll else none
      | some poll => pollResponseRejected poll choice_ids now
    | .taskUpdated task_id _ _ =>
      match db.tasks.find task_id with
      | none => if targetRejected db ev task_id .taskCreated then some .task_update_target_not_task else none
      | some task =>
        if ev.sender ≠ task.owner_identity ∧ ev.sender ≠ task.sender then some .task_not_authorized
        else if task.status.terminal then some .task_transition_terminal
        else none
    | .humanResponded request_id _ _ _ =>
      if (db.human_requests.find request_id).isNone && targetRejected db ev request_id .humanRequested then
        some .human_response_target_not_request
      else none
    | .deliveryCanceled scheduled_event_id =>
      match db.deliveries.find scheduled_event_id with
      | none =>
        if targetRejected db ev scheduled_event_id .deliveryScheduled then
          some .delivery_cancel_target_not_scheduled
        else none
      | some delivery => if ev.sender ≠ delivery.sender then some .delivery_cancel_not_sender else none
    | _ => none

/-- The handler raises after `_ensure_thread`. -/
def rejectedMidway (db : Database) (ev : Event) : Bool :=
  match ev.payload with
  | .messageCreated _ _ _ => repliesAstray db ev
  | .pollCreated _ _ closes_at _ => closes_at ≤ ev.created_at
  | _ => false

section rejection

variable {db db' : Database} {ev : Event} {now : Nat}

theorem outOfThread_iff {thread_id : ThreadId} (ht : ev.thread_id = some thread_id) :
    outOfThread db ev = true ↔ ¬ Joins db ev thread_id := by
  unfold outOfThread
  rw [ht, Option.any_some]
  constructor
  · intro h hjoins
    obtain ⟨r, hr, hconv⟩ := (Option.any_eq_true _ _).mp h
    exact of_decide_eq_true hconv (hjoins.2 r hr)
  · intro h
    by_contra hany
    exact h (joins_of ht hany)

theorem ensureThread_cases (db : Database) (ev : Event) :
    (outOfThread db ev = true ∧ ensureThread db ev = .reject db .thread_scope_mismatch) ∨
      (outOfThread db ev = false ∧ ev.thread_id = none ∧ ensureThread db ev = .done db) ∨
      ∃ t, outOfThread db ev = false ∧ Joins db ev t ∧
        ensureThread db ev = .done (registerThread db ev t) := by
  cases ht : ev.thread_id with
  | none =>
    right; left
    refine ⟨?_, rfl, ?_⟩
    · unfold outOfThread
      rw [ht]
      rfl
    · unfold ensureThread
      rw [ht]
  | some t =>
    by_cases hjoins : Joins db ev t
    · right; right
      refine ⟨t, ?_, hjoins, ensureThread_of_joins hjoins⟩
      rw [← Bool.not_eq_true, outOfThread_iff ht]
      exact not_not.mpr hjoins
    · left
      exact ⟨(outOfThread_iff ht).mpr hjoins, ensureThread_of_not_joins ht hjoins⟩

/-- What a rejected handler leaves: the database before it, or the registered
thread. -/
def Left (db : Database) (ev : Event) (db' : Database) : Prop :=
  db' = db ∨ ∃ t, ev.payload.opensThread = true ∧ rejectedMidway db ev = true ∧ Joins db ev t ∧
    db' = registerThread db ev t

/-- The outcome of a handler that raises what `code` says. -/
def Raises (db : Database) (ev : Event) (code : Option ProjectionCode) (out : Outcome) : Prop :=
  match code with
  | none => ∃ db', out = .done db'
  | some code => ∃ db', out = .reject db' code ∧ Left db ev db'

theorem Raises.done : Raises db ev none (.done db') := ⟨db', rfl⟩

theorem Raises.reject (code : ProjectionCode) : Raises db ev (some code) (.reject db code) :=
  ⟨db, rfl, Or.inl rfl⟩

theorem insert_done {κ ρ : Type} {key : ρ → κ} [DecidableEq κ] {t : Table key} {row : ρ}
    {put : Table key → Database} (hfree : t.find (key row) = none) :
    ∃ db', Outcome.insert db t row put = .done db' := by
  obtain ⟨t', hins⟩ := Table.insert_isSome hfree
  refine ⟨put t', ?_⟩
  unfold Outcome.insert
  rw [hins]
  rfl

theorem awaitTarget_raises (target : EventId) (expected : EventType) (code : ProjectionCode)
    (kind : RefKind) :
    Raises db ev (if targetRejected db ev target expected then some code else none)
      (awaitTarget db ev target expected code kind) := by
  unfold awaitTarget
  split_ifs
  · exact .reject code
  · exact .done

/-- The rest of a handler that starts with `_ensure_thread`, on the database `db'`
that this left. -/
def RaisesAfter (db : Database) (ev : Event) (db' : Database) (code : Option ProjectionCode)
    (out : Outcome) : Prop :=
  match code with
  | none => ∃ db'', out = .done db''
  | some code => out = .reject db' code ∧ rejectedMidway db ev = true

theorem opens_raises {code : Option ProjectionCode} {body : Database → Outcome}
    (hopens : ev.payload.opensThread = true)
    (hbody : ∀ threads thread_state, RaisesAfter db ev { db with threads, thread_state } code
      (body { db with threads, thread_state })) :
    Raises db ev (if outOfThread db ev then some .thread_scope_mismatch else code)
      ((ensureThread db ev).andThen body) := by
  rcases ensureThread_cases db ev with ⟨hout, hensure⟩ | ⟨hout, _, hensure⟩ | ⟨t, hout, hjoins, hensure⟩
  · rw [hensure, hout]
    exact .reject _
  · rw [hensure, hout]
    show Raises db ev code (body db)
    have hrest := hbody db.threads db.thread_state
    cases code with
    | none => exact hrest
    | some code => exact ⟨db, hrest.1, Or.inl rfl⟩
  · obtain ⟨threads, thread_state, heq⟩ := registerThread_eq db ev t
    have hrest := hbody threads thread_state
    rw [← heq] at hrest
    rw [hensure, hout]
    show Raises db ev code (body (registerThread db ev t))
    cases code with
    | none => exact hrest
    | some code => exact ⟨_, hrest.1, Or.inr ⟨t, hopens, hrest.2, hjoins, rfl⟩⟩

theorem repliesAstray_iff :
    repliesAstray db ev = true ↔ ∃ reply_to target, ev.reply_to = some reply_to ∧
      targetEvent db ev.relationship_id reply_to = some target ∧ inReplyScope ev target = false := by
  unfold repliesAstray
  rw [Option.any_eq_true]
  constructor
  · rintro ⟨reply_to, hreply, h⟩
    obtain ⟨target, htarget, hscope⟩ := (Option.any_eq_true _ _).mp h
    exact ⟨reply_to, target, hreply, htarget, by simpa using hscope⟩
  · rintro ⟨reply_to, target, hreply, htarget, hscope⟩
    refine ⟨reply_to, hreply, (Option.any_eq_true _ _).mpr ⟨target, htarget, ?_⟩⟩
    rw [hscope]
    rfl

theorem handleMessageCreated_raises {body : String} {format : Format}
    {attachment : Option Attachment} (hs : Scoped db) (hlog : db.events.find ev.event_id = some ev)
    (hpayload : ev.payload = .messageCreated body format attachment) :
    Raises db ev
      (if outOfThread db ev then some .thread_scope_mismatch
        else if (db.messages.find ev.event_id).isNone && repliesAstray db ev then
          some .reply_target_scope
        else none)
      (handleMessageCreated db ev body format attachment now) := by
  refine opens_raises (by rw [hpayload]; rfl) (fun threads thread_state => ?_)
  have htarget : ∀ i, targetEvent { db with threads, thread_state } ev.relationship_id i =
    targetEvent db ev.relationship_id i := fun _ => rfl
  have hstore : ∀ db₁ : Database, Scoped db₁ → ∀ reply_state,
      db₁.messages.find ev.event_id = none →
      ∃ db₂, storeMessage db₁ ev body format attachment reply_state now = .done db₂ := by
    intro db₁ hs₁ reply_state hnew
    obtain ⟨_, _, _, -, -, heq⟩ := storeMessage_eq hs₁ hnew
    exact ⟨_, heq⟩
  dsimp only
  cases hrow : db.messages.find ev.event_id with
  | some m => exact ⟨_, rfl⟩
  | none =>
    rw [Option.isNone_none, Bool.true_and, Option.isSome_none, if_neg Bool.false_ne_true]
    cases hastray : repliesAstray db ev with
    | true =>
      obtain ⟨reply_to, target, hreply, hfound, hscope⟩ := repliesAstray_iff.mp hastray
      rw [if_pos rfl, hreply]
      dsimp only
      rw [htarget, hfound]
      dsimp only
      rw [hscope, if_neg Bool.false_ne_true]
      refine ⟨rfl, ?_⟩
      unfold rejectedMidway
      rw [hpayload]
      exact hastray
    | false =>
      rw [if_neg Bool.false_ne_true]
      cases hreply : ev.reply_to with
      | none => exact hstore _ hs.threads _ hrow
      | some reply_to =>
        dsimp only
        rw [htarget]
        cases hfound : targetEvent db ev.relationship_id reply_to with
        | none =>
          have hs' : Scoped { db with threads, thread_state } := hs.threads
          exact hstore _ (hs'.addPending hlog (fun h => absurd rfl h)) _ hrow
        | some target =>
          dsimp only
          cases hscope : inReplyScope ev target with
          | true => exact hstore _ hs.threads _ hrow
          | false =>
            rw [repliesAstray_iff.mpr ⟨reply_to, target, hreply, hfound, hscope⟩] at hastray
            exact absurd hastray.symm Bool.false_ne_true

theorem handlePollCreated_raises {question : String} {choices : List String} {closes_at : Nat}
    {multi_select : Bool}
    (hpayload : ev.payload = .pollCreated question choices closes_at multi_select) :
    Raises db ev
      (if outOfThread db ev then some .thread_scope_mismatch
        else if (db.polls.find ev.event_id).isNone && decide (closes_at ≤ ev.created_at) then
          some .poll_bad_closes_at
        else none)
      (handlePollCreated db ev question choices closes_at multi_select) := by
  refine opens_raises (by rw [hpayload]; rfl) (fun threads thread_state => ?_)
  dsimp only
  cases hrow : db.polls.find ev.event_id with
  | some m => exact ⟨_, rfl⟩
  | none =>
    rw [Option.isNone_none, Bool.true_and, Option.isSome_none, if_neg Bool.false_ne_true]
    by_cases hcloses : closes_at ≤ ev.created_at
    · rw [if_pos hcloses, if_pos (decide_eq_true hcloses)]
      refine ⟨rfl, ?_⟩
      unfold rejectedMidway
      rw [hpayload]
      exact decide_eq_true hcloses
    · rw [if_neg hcloses, decide_eq_false hcloses, if_neg Bool.false_ne_true]
      exact insert_done hrow

theorem handleTaskCreated_raises {title : String} {owner_identity : IdentityId} {due_at : Option Nat}
    (hpayload : ev.payload = .taskCreated title owner_identity due_at) :
    Raises db ev (if outOfThread db ev then some .thread_scope_mismatch else none)
      (handleTaskCreated db ev title owner_identity due_at) := by
  refine opens_raises (by rw [hpayload]; rfl) (fun threads thread_state => ?_)
  dsimp only
  cases hrow : db.tasks.find ev.event_id with
  | some t => exact ⟨_, rfl⟩
  | none => exact insert_done hrow

theorem handleHumanRequested_raises {prompt response_shape : String} {expires_at : Nat}
    (hpayload : ev.payload = .humanRequested prompt response_shape expires_at) :
    Raises db ev (if outOfThread db ev then some .thread_scope_mismatch else none)
      (handleHumanRequested db ev prompt response_shape expires_at) := by
  refine opens_raises (by rw [hpayload]; rfl) (fun threads thread_state => ?_)
  dsimp only
  cases hrow : db.human_requests.find ev.event_id with
  | some r => exact ⟨_, rfl⟩
  | none => exact insert_done hrow

theorem dispatch_raises (hs : Scoped db) (hlog : db.events.find ev.event_id = some ev) :
    Raises db ev (rejection db ev now) (dispatch db ev now) := by
  unfold rejection dispatch
  cases hpayload : ev.payload with
  | messageCreated body format attachment => exact handleMessageCreated_raises hs hlog hpayload
  | pollCreated question choices closes_at multi_select => exact handlePollCreated_raises hpayload
  | taskCreated title owner_identity due_at => exact handleTaskCreated_raises hpayload
  | humanRequested prompt response_shape expires_at => exact handleHumanRequested_raises hpayload
  | messageEdited target body reason =>
    show Raises db ev (if _ then none else _) (handleMessageEdited db ev target body reason)
    unfold handleMessageEdited
    by_cases hdone : db.message_revisions.rows.any (fun r => r.event_id = target ∧
        r.edit_event_id = some ev.event_id) = true
    · rw [if_pos hdone, if_pos hdone]
      exact .done
    · rw [if_neg hdone, if_neg hdone]
      cases hm : db.messages.find target with
      | none => exact awaitTarget_raises _ _ _ _
      | some m =>
        dsimp only
        split_ifs with hsender hretracted
        · exact .reject _
        · exact .reject _
        · obtain ⟨newest, hmax, hfree⟩ := newest_revision hs hm
          rw [hmax]
          obtain ⟨revisions, hrevisions⟩ : ∃ t, db.message_revisions.insert
              ⟨target, newest + 1, body, ev.created_at, some ev.event_id, reason⟩ = some t :=
            Table.insert_isSome hfree
          dsimp only
          unfold Outcome.insert
          rw [hrevisions]
          exact .done
  | messageRetracted target reason =>
    show Raises db ev (match db.messages.find target with | none => _ | some m => _)
      (handleMessageRetracted db ev target reason)
    unfold handleMessageRetracted
    cases hm : db.messages.find target with
    | none => exact awaitTarget_raises _ _ _ _
    | some m =>
      dsimp only
      split_ifs
      · exact .reject _
      · exact .done
      · exact .done
  | reactionAdded target emoji =>
    show Raises db ev (if _ then none else _) (handleReactionAdded db ev target emoji)
    unfold handleReactionAdded
    dsimp only
    split_ifs
    · exact .done
    · exact .done
    · exact .reject _
    · exact .done
  | reactionRemoved target emoji =>
    show Raises db ev none (handleReactionRemoved db ev target emoji)
    unfold handleReactionRemoved
    split_ifs
    · exact .done
    · cases db.reactions.find (target, ev.sender, emoji) with
      | none => exact .done
      | some r =>
        dsimp only
        split_ifs
        · exact .done
        · exact .done
  | receipt kind target time =>
    show Raises db ev none (handleReceipt db ev kind target time)
    unfold handleReceipt
    split_ifs
    · exact .done
    · exact .done
    · exact .done
  | pollResponded poll_id choice_ids human_confirmed approval_record_id =>
    show Raises db ev (match db.polls.find poll_id with | none => _ | some poll => _)
      (handlePollResponded db ev poll_id choice_ids human_confirmed approval_record_id now)
    unfold handlePollResponded
    cases hpoll : db.polls.find poll_id with
    | none => exact awaitTarget_raises _ _ _ _
    | some poll =>
      dsimp only
      cases hrejected : pollResponseRejected poll choice_ids now with
      | some code => exact .reject code
      | none => exact .done
  | taskUpdated task_id status note =>
    show Raises db ev (match db.tasks.find task_id with | none => _ | some task => _)
      (handleTaskUpdated db ev task_id status note)
    unfold handleTaskUpdated
    cases htask : db.tasks.find task_id with
    | none => exact awaitTarget_raises _ _ _ _
    | some task =>
      dsimp only
      split_ifs
      · exact .reject _
      · exact .reject _
      · exact .done
  | humanResponded request_id answer approved approval_record_id =>
    show Raises db ev (if _ && _ then _ else none)
      (handleHumanResponded db ev request_id answer approved approval_record_id)
    unfold handleHumanResponded
    cases hrequest : db.human_requests.find request_id with
    | none => exact awaitTarget_raises _ _ _ _
    | some request => exact .done
  | deliveryScheduled inner_event_id deliver_at late_by_seconds =>
    show Raises db ev none (handleDeliveryScheduled db ev inner_event_id deliver_at late_by_seconds)
    unfold handleDeliveryScheduled
    split_ifs with hstored
    · exact .done
    · exact .done
    · exact insert_done (by simpa using hstored)
  | deliveryCanceled scheduled_event_id =>
    show Raises db ev (match db.deliveries.find scheduled_event_id with | none => _ | some d => _)
      (handleDeliveryCanceled db ev scheduled_event_id)
    unfold handleDeliveryCanceled
    cases hdelivery : db.deliveries.find scheduled_event_id with
    | none => exact awaitTarget_raises _ _ _ _
    | some delivery =>
      dsimp only
      split_ifs
      · exact .reject _
      · exact .done
      · exact .done
  | securityKey action =>
    show Raises db ev none (handleSecurityKey db ev action)
    unfold handleSecurityKey
    split_ifs with hstored
    · exact .done
    · exact insert_done (by simpa using hstored)
  | relationshipReady => exact .done
  | migrationReady => exact .done
  | migrationCommit => exact .done
  | identityRotated new => exact .done

/-! ## The registered thread -/

/-- `_ensure_thread` on a thread that is there and whose state row stays. -/
theorem registerThread_self {t : ThreadId} (hthread : (db.threads.find t).isSome)
    (h : ¬ Registers db ev t) : registerThread db ev t = db := by
  obtain ⟨r, hr, hroot⟩ := not_registers h
  have hthreads : db.threads.insertOrIgnore ⟨t, ev.conversation_id⟩ = db.threads :=
    Table.insertOrIgnore_of_isSome hthread
  have hstate : db.thread_state.insertOrIgnore ⟨t, ev.conversation_id, none, 0, none⟩ =
      db.thread_state := Table.insertOrIgnore_of_isSome (by rw [hr]; rfl)
  unfold registerThread
  dsimp only
  rw [hthreads, hstate]
  split_ifs with hid
  · rw [Table.modify_of_fixed]
    intro r' hr'
    rw [hr] at hr'
    obtain rfl := Option.some.inj hr'
    rw [if_neg]
    intro hnone
    exact hroot ⟨hid, Option.isNone_iff_eq_none.mp hnone⟩
  · rfl

theorem registerThread_registered (db : Database) (ev : Event) (t : ThreadId) :
    ((registerThread db ev t).threads.find t).isSome ∧ ¬ Registers (registerThread db ev t) ev t := by
  constructor
  · rw [registerThread_threads, Table.find_insertOrIgnore, if_pos rfl]
    rfl
  · obtain ⟨r, hr, -, hroot⟩ := registerThread_find db ev t
    unfold Registers
    rw [hr]
    exact fun h => hroot h.1 h.2

theorem dispatch_registered {t : ThreadId} (hopens : ev.payload.opensThread = true)
    (hjoins : Joins db ev t) : dispatch db ev now = dispatch (registerThread db ev t) ev now := by
  have hensure := ensureThread_of_joins hjoins
  have hagain : ensureThread (registerThread db ev t) ev = .done (registerThread db ev t) := by
    obtain ⟨hthread, hstays⟩ := registerThread_registered db ev t
    have hself := registerThread_self hthread hstays
    rw [ensureThread_of_joins hjoins.registerThread, hself]
  unfold dispatch
  cases hpayload : ev.payload with
  | messageCreated => simp only [handleMessageCreated, hensure, hagain]
  | pollCreated => simp only [handlePollCreated, hensure, hagain]
  | taskCreated => simp only [handleTaskCreated, hensure, hagain]
  | humanRequested => simp only [handleHumanRequested, hensure, hagain]
  | _ => rw [hpayload] at hopens; exact Bool.noConfusion hopens

theorem dispatch_midway {t : ThreadId} (hs : Scoped db) (hlog : db.events.find ev.event_id = some ev)
    (hjoins : Joins db ev t) (hmidway : rejectedMidway db ev = true)
    (hmessage : db.messages.find ev.event_id = none) (hpoll : db.polls.find ev.event_id = none) :
    ∃ code, dispatch db ev now = .reject (registerThread db ev t) code := by
  obtain ⟨threads, thread_state, heq⟩ := registerThread_eq db ev t
  have hopens : ev.payload.opensThread = true := by
    unfold rejectedMidway at hmidway
    cases hpayload : ev.payload with
    | messageCreated => rfl
    | pollCreated => rfl
    | _ => rw [hpayload] at hmidway; exact absurd hmidway Bool.false_ne_true
  have hcode : ∃ code, rejection (registerThread db ev t) ev now = some code := by
    have hout : outOfThread (registerThread db ev t) ev = false := by
      rw [← Bool.not_eq_true, outOfThread_iff hjoins.1]
      exact not_not.mpr hjoins.registerThread
    rw [heq] at hout ⊢
    unfold rejectedMidway at hmidway
    unfold rejection
    rw [hout, Bool.and_false, if_neg Bool.false_ne_true]
    cases hpayload : ev.payload with
    | messageCreated =>
      rw [hpayload] at hmidway
      have hastray : repliesAstray { db with threads, thread_state } ev = true := hmidway
      dsimp only
      rw [hmessage, hastray]
      exact ⟨_, rfl⟩
    | pollCreated =>
      rw [hpayload] at hmidway
      dsimp only at hmidway ⊢
      rw [hpoll, hmidway]
      exact ⟨_, rfl⟩
    | _ => rw [hpayload] at hmidway; exact absurd hmidway Bool.false_ne_true
  obtain ⟨code, hcode⟩ := hcode
  have hs' : Scoped (registerThread db ev t) := by rw [heq]; exact hs.threads
  have hlog' : (registerThread db ev t).events.find ev.event_id = some ev := by rw [heq]; exact hlog
  have hraises : Raises _ ev (rejection _ ev now) (dispatch _ ev now) := dispatch_raises hs' hlog'
  rw [hcode] at hraises
  obtain ⟨db', hdispatch, hleft⟩ := hraises
  refine ⟨code, ?_⟩
  rw [dispatch_registered hopens hjoins, hdispatch]
  rcases hleft with rfl | ⟨t', -, -, hjoins', rfl⟩
  · rfl
  · obtain rfl : t = t' := Option.some.inj (hjoins.1.symm.trans hjoins'.1)
    obtain ⟨hthread, hstays⟩ := registerThread_registered db ev t
    have hself := registerThread_self hthread hstays
    rw [hself]

end rejection

/-! ## Applying an event -/

section apply

variable {db : Database} {ev : Event} {now clock : Nat}

theorem applyInner_accepted (hs : Scoped db) (hlog : db.events.find ev.event_id = some ev)
    (haccepted : rejection db ev now = none) :
    ∃ db', applyInner db ev now clock = .done db' := by
  have hraises : Raises db ev (rejection db ev now) (dispatch db ev now) := dispatch_raises hs hlog
  rw [haccepted] at hraises
  obtain ⟨db₁, hdispatch⟩ := hraises
  have hw : Writes ev now db db₁ := by
    have hends : (dispatch db ev now).Ends (Writes ev now db) _ := dispatch_ends hs hlog
    rw [hdispatch] at hends
    exact hends
  have hends : (resolvePending db₁ ev.relationship_id ev.event_id now clock).Ends _ _ :=
    resolvePending_ends (hw.scoped hs hlog)
  unfold applyInner
  rw [hdispatch]
  split_ifs
  · exact ⟨_, rfl⟩
  · show ∃ db', (resolvePending db₁ ev.relationship_id ev.event_id now clock).andThen _ = _
    generalize resolvePending db₁ ev.relationship_id ev.event_id now clock = out at hends ⊢
    match out, hends with
    | (db₂, .ok ()), _ => exact ⟨_, rfl⟩

theorem applyInner_rejected {code : ProjectionCode} (hs : Scoped db)
    (hlog : db.events.find ev.event_id = some ev) (hfork : forked db ev = false)
    (hrejected : rejection db ev now = some code) :
    ∃ db', applyInner db ev now clock = .reject db' code ∧ Left db ev db' := by
  have hraises : Raises db ev (rejection db ev now) (dispatch db ev now) := dispatch_raises hs hlog
  rw [hrejected] at hraises
  obtain ⟨db₁, hdispatch, hleft⟩ := hraises
  refine ⟨db₁, ?_, hleft⟩
  unfold applyInner
  rw [hfork, if_neg Bool.false_ne_true, hdispatch]
  rfl

end apply

end MuseAgentSocial.Store
