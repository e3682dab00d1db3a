import MuseAgentSocial.Store.Node

/-!
# Isolation of relationships

When does projecting an event of one relationship leave the rows of another
one as they are?

* `SameFor A db db'`: the rows of the relationship `A` are the same.
* `Reaches db ev now A`: the event names a row of `A` that its handler looks up
  by the bare id and then writes, or it joins a thread of `A`.
* `projection_isolated`: an event of another relationship leaves the rows of `A`
  as they are exactly when it does not reach them.

The handlers of reactions and receipts look their target up in the
relationship of the event (`_target_event`), so they never reach another one,
and neither do the events that waited for the event.
-/

namespace MuseAgentSocial.Store

open Model Crypto Policy

/-! ## The rows of a relationship -/

/-- The rows of the relationship `A` are the same in both databases.  A revision,
reaction, receipt or response belongs to the relationship of the event it is
about, and the state of a thread to every relationship with an event in it. -/
structure SameFor (A : RelationshipId) (db db' : Database) : Prop where
  events : db'.events = db.events
  messages : Table.Same (fun m => m.relationship_id = A) db.messages db'.messages
  message_revisions :
    Table.Same (fun r => db.eventOf A r.event_id) db.message_revisions db'.message_revisions
  reactions : Table.Same (fun r => db.eventOf A r.target_event_id) db.reactions db'.reactions
  receipts : Table.Same (fun r => db.eventOf A r.target_event_id) db.receipts db'.receipts
  polls : Table.Same (fun p => p.relationship_id = A) db.polls db'.polls
  poll_responses : Table.Same (fun r => db.eventOf A r.poll_id) db.poll_responses db'.poll_responses
  tasks : Table.Same (fun t => t.relationship_id = A) db.tasks db'.tasks
  human_requests : Table.Same (fun r => r.relationship_id = A) db.human_requests db'.human_requests
  deliveries : Table.Same (fun d => d.relationship_id = A) db.deliveries db'.deliveries
  thread_state : Table.Same (fun r => db.threadOf A r.thread_id) db.thread_state db'.thread_state
  pending_refs : Table.Same (fun r => r.relationship_id = A) db.pending_refs db'.pending_refs

section sameFor

variable {A : RelationshipId} {db db' db'' : Database}

theorem SameFor.refl (A : RelationshipId) (db : Database) : SameFor A db db :=
  ⟨rfl, .refl _, .refl _, .refl _, .refl _, .refl _, .refl _, .refl _, .refl _, .refl _, .refl _,
    .refl _⟩

/-- The relationship of a row is read off the log, which stays the same. -/
theorem SameFor.eventOf (h : SameFor A db db') : db'.eventOf A = db.eventOf A := by
  funext i
  unfold Database.eventOf
  rw [h.events]

theorem SameFor.threadOf (h : SameFor A db db') : db'.threadOf A = db.threadOf A := by
  funext i
  unfold Database.threadOf
  rw [h.events]

theorem SameFor.trans (h : SameFor A db db') (h' : SameFor A db' db'') : SameFor A db db'' where
  events := h'.events.trans h.events
  messages := h.messages.trans h'.messages
  message_revisions := h.message_revisions.trans (h.eventOf ▸ h'.message_revisions)
  reactions := h.reactions.trans (h.eventOf ▸ h'.reactions)
  receipts := h.receipts.trans (h.eventOf ▸ h'.receipts)
  polls := h.polls.trans h'.polls
  poll_responses := h.poll_responses.trans (h.eventOf ▸ h'.poll_responses)
  tasks := h.tasks.trans h'.tasks
  human_requests := h.human_requests.trans h'.human_requests
  deliveries := h.deliveries.trans h'.deliveries
  thread_state := h.thread_state.trans (h.threadOf ▸ h'.thread_state)
  pending_refs := h.pending_refs.trans h'.pending_refs

theorem SameFor.symm (h : SameFor A db db') : SameFor A db' db where
  events := h.events.symm
  messages := h.messages.symm
  message_revisions := h.eventOf ▸ h.message_revisions.symm
  reactions := h.eventOf ▸ h.reactions.symm
  receipts := h.eventOf ▸ h.receipts.symm
  polls := h.polls.symm
  poll_responses := h.eventOf ▸ h.poll_responses.symm
  tasks := h.tasks.symm
  human_requests := h.human_requests.symm
  deliveries := h.deliveries.symm
  thread_state := h.threadOf ▸ h.thread_state.symm
  pending_refs := h.pending_refs.symm

end sameFor

/-! ## What an event reaches -/

/-- The row that the payload names is one of `A`, and the handler writes it. -/
def Aims (db : Database) (ev : Event) (now : Nat) (A : RelationshipId) : Prop :=
  match ev.payload with
  | .messageEdited target _ _ | .messageRetracted target _ =>
    ∃ m, db.messages.find target = some m ∧ m.relationship_id = A ∧ m.sender = ev.sender ∧
      m.retracted = false
  | .pollResponded poll_id choice_ids _ _ =>
    ∃ p, db.polls.find poll_id = some p ∧ p.relationship_id = A ∧
      pollResponseRejected p choice_ids now = none
  | .taskUpdated task_id _ _ =>
    ∃ t, db.tasks.find task_id = some t ∧ t.relationship_id = A ∧
      (ev.sender = t.owner_identity ∨ ev.sender = t.sender) ∧ t.status.terminal = false
  | .humanResponded request_id _ _ _ =>
    ∃ r, db.human_requests.find request_id = some r ∧ r.relationship_id = A
  | .deliveryCanceled scheduled_event_id =>
    ∃ d, db.deliveries.find scheduled_event_id = some d ∧ d.relationship_id = A ∧
      ev.sender = d.sender ∧ d.state = .scheduled
  | _ => False

/-- `_ensure_thread` writes the state row of the thread: there is none, or the
event becomes its root. -/
def Registers (db : Database) (ev : Event) (thread_id : ThreadId) : Prop :=
  match db.thread_state.find thread_id with
  | none => True
  | some r => thread_id = ev.event_id ∧ r.root_event_id = none

/-- The reply is not to an accepted event of another conversation or thread. -/
def ReplyAccepted (db : Database) (ev : Event) : Prop :=
  ∀ reply_to target, ev.reply_to = some reply_to →
    targetEvent db ev.relationship_id reply_to = some target → inReplyScope ev target = true

/-- The handler is done, and has written the state row of the thread that the
event joins. -/
def Moves (db : Database) (ev : Event) (thread_id : ThreadId) : Prop :=
  match ev.payload with
  | .messageCreated _ _ _ =>
    if (db.messages.find ev.event_id).isSome then Registers db ev thread_id
    else ReplyAccepted db ev
  | .pollCreated _ _ closes_at _ =>
    Registers db ev thread_id ∧
      ((db.polls.find ev.event_id).isSome ∨ ev.created_at < closes_at)
  | .taskCreated _ _ _ => Registers db ev thread_id
  | .humanRequested _ _ _ => Registers db ev thread_id
  | _ => False

/-- The event writes a row of the relationship `A`. -/
def Reaches (db : Database) (ev : Event) (now : Nat) (A : RelationshipId) : Prop :=
  forked db ev = false ∧
    (Aims db ev now A ∨
      ∃ thread_id, Joins db ev thread_id ∧ db.threadOf A thread_id = true ∧ Moves db ev thread_id)

/-! ## Writes that do not reach -/

section frames

variable {A rid : RelationshipId} {ev : Event} {now : Nat} {db db' : Database}

/-- An event of another relationship is not one of `A`. -/
theorem eventOf_other {i : EventId} (hne : rid ≠ A) (hown : db.eventOf rid i = true) :
    db.eventOf A i = false := by
  by_contra h
  exact hne (eventOf_unique hown (Bool.of_not_eq_false h))

/-- Aiming is about rows of `A` only. -/
theorem Aims.of_same (hsame : SameFor A db db') (h : Aims db' ev now A) : Aims db ev now A := by
  unfold Aims at h ⊢
  split
  all_goals rename_i heq; simp only [heq] at h
  · obtain ⟨m, hm, hrel, hrest⟩ := h
    exact ⟨m, hsame.messages.symm.find hm (by simpa using hrel), hrel, hrest⟩
  · obtain ⟨m, hm, hrel, hrest⟩ := h
    exact ⟨m, hsame.messages.symm.find hm (by simpa using hrel), hrel, hrest⟩
  · obtain ⟨p, hp, hrel, hrest⟩ := h
    exact ⟨p, hsame.polls.symm.find hp (by simpa using hrel), hrel, hrest⟩
  · obtain ⟨t, ht, hrel, hrest⟩ := h
    exact ⟨t, hsame.tasks.symm.find ht (by simpa using hrel), hrel, hrest⟩
  · obtain ⟨r, hr, hrel⟩ := h
    exact ⟨r, hsame.human_requests.symm.find hr (by simpa using hrel), hrel⟩
  · obtain ⟨d, hd, hrel, hrest⟩ := h
    exact ⟨d, hsame.deliveries.symm.find hd (by simpa using hrel), hrel, hrest⟩

theorem addPending_sameFor {target : EventId} {kind : RefKind} (hne : ev.relationship_id ≠ A) :
    SameFor A db (addPending db ev target kind) :=
  { SameFor.refl A db with pending_refs := .insertOrIgnore (by simpa using hne) }

theorem not_registers {thread_id : ThreadId} (h : ¬ Registers db ev thread_id) :
    ∃ r, db.thread_state.find thread_id = some r ∧
      ¬ (thread_id = ev.event_id ∧ r.root_event_id = none) := by
  unfold Registers at h
  cases hrow : db.thread_state.find thread_id with
  | none => simp [hrow] at h
  | some r => exact ⟨r, rfl, by simpa only [hrow] using h⟩

/-- A thread without an event of `A`, or one whose state row stays. -/
theorem registerThread_sameFor {thread_id : ThreadId}
    (h : db.threadOf A thread_id = false ∨ ¬ Registers db ev thread_id) :
    SameFor A db (registerThread db ev thread_id) := by
  have hstate : Table.Same (fun r => db.threadOf A r.thread_id) db.thread_state
      (registerThread db ev thread_id).thread_state := by
    have hins : Table.Same (fun r => db.threadOf A r.thread_id) db.thread_state
        (db.thread_state.insertOrIgnore ⟨thread_id, ev.conversation_id, none, 0, none⟩) := by
      rcases h with hother | hstays
      · exact .insertOrIgnore hother
      · obtain ⟨r, hrow, -⟩ := not_registers hstays
        intro k
        rw [Table.find_insertOrIgnore]
        split_ifs with hk
        · rw [hk, hrow]
          rfl
        · rfl
    unfold registerThread
    dsimp only
    split_ifs with hroot
    · refine hins.trans (.modify (fun r hr => ?_) (fun _ => by split_ifs <;> rfl))
      rcases h with hother | hstays
      · have hkey : r.thread_id = thread_id := Table.key_of_find hr
        refine Or.inl ⟨by rw [hkey]; exact hother, ?_⟩
        split_ifs
        · exact hkey ▸ hother
        · exact hkey ▸ hother
      · right
        obtain ⟨r', hrow, hrooted⟩ := not_registers hstays
        rw [Table.find_insertOrIgnore, if_pos rfl, hrow] at hr
        obtain rfl : r' = r := Option.some.inj hr
        rw [if_neg]
        intro hnone
        exact hrooted ⟨hroot, Option.isNone_iff_eq_none.mp hnone⟩
    · exact hins
  obtain ⟨threads, thread_state, heq⟩ := registerThread_eq db ev thread_id
  rw [heq] at hstate ⊢
  exact { SameFor.refl A db with thread_state := hstate }

theorem bumpThreadMessage_sameFor {thread_id : Option ThreadId} {created_at : Nat}
    (h : ∀ t, thread_id = some t → db.threadOf A t = false) :
    SameFor A db (bumpThreadMessage db thread_id created_at) := by
  cases thread_id with
  | none => exact .refl A db
  | some t =>
    refine { SameFor.refl A db with thread_state := .modify (fun r hr => Or.inl ?_) (fun _ => by rfl) }
    have hkey : r.thread_id = t := Table.key_of_find hr
    exact ⟨hkey ▸ h t rfl, hkey ▸ h t rfl⟩

theorem Write.sameFor (h : Write ev now db db') (hs : Scoped db)
    (hlog : db.events.find ev.event_id = some ev) (hne : ev.relationship_id ≠ A)
    (haims : ¬ Aims db ev now A)
    (hthread : ev.payload.opensThread = true → ∀ t, ev.thread_id = some t → db.threadOf A t = false) :
    SameFor A db db' := by
  have hself : db.eventOf A ev.event_id = false := eventOf_other hne (eventOf_self hlog)
  cases h with
  | pending htarget => exact addPending_sameFor hne
  | reply hopens => exact addPending_sameFor hne
  | thread hopens hjoins => exact registerThread_sameFor (Or.inl (hthread hopens _ hjoins.1))
  | message hpayload hmessages hrevisions hopened =>
    rename_i attachments
    have hstored : SameFor A db { db with
        messages := _, message_revisions := _, attachments := attachments } :=
      { SameFor.refl A db with
        messages := .insert (decide_eq_false hne) hmessages
        message_revisions := .insert hself hrevisions }
    refine hstored.trans (bumpThreadMessage_sameFor (hthread ?_))
    rw [hpayload]
    rfl
  | edit hpayload hm hsender hretracted hrevisions hnewest hunseen =>
    rename_i target _ _ m _ _
    simp only [Aims, hpayload] at haims
    have hother : m.relationship_id ≠ A := fun hrel => haims ⟨m, hm, hrel, hsender, hretracted⟩
    have htarget : db.eventOf A target = false := by
      refine eventOf_other hother ?_
      have hown := hs.messages.find hm
      rw [Table.key_of_find hm] at hown
      exact hown
    exact { SameFor.refl A db with
      message_revisions := .insert htarget hrevisions
      messages := .modify_of_find hm (decide_eq_false hother) (decide_eq_false hother) (fun _ => by rfl) }
  | retract hpayload hm hsender hretracted =>
    rename_i m
    simp only [Aims, hpayload] at haims
    have hother : m.relationship_id ≠ A := fun hrel => haims ⟨m, hm, hrel, hsender, hretracted⟩
    exact { SameFor.refl A db with
      messages := .modify_of_find hm (decide_eq_false hother) (decide_eq_false hother) (fun _ => by rfl) }
  | reactionAdded hpayload htarget =>
    have hother := eventOf_other hne (eventOf_of_target htarget)
    refine { SameFor.refl A db with reactions := .upsert hother (fun r hr => ?_) }
    have hkey : r.target_event_id = _ := congrArg Prod.fst (Table.key_of_find hr)
    exact hkey ▸ hother
  | reactionRemoved hpayload htarget =>
    have hother := eventOf_other hne (eventOf_of_target htarget)
    refine { SameFor.refl A db with reactions := .modify (fun r hr => Or.inl ?_) (fun _ => by rfl) }
    have hkey : r.target_event_id = _ := congrArg Prod.fst (Table.key_of_find hr)
    exact ⟨hkey ▸ hother, hkey ▸ hother⟩
  | receipt hpayload htarget =>
    have hother := eventOf_other hne (eventOf_of_target htarget)
    refine { SameFor.refl A db with receipts := .upsert hother (fun r hr => ?_) }
    have hkey : r.target_event_id = _ := congrArg Prod.fst (Table.key_of_find hr)
    exact hkey ▸ hother
  | poll hid hrel hpolls =>
    exact { SameFor.refl A db with polls := .insert (by simpa [hrel] using hne) hpolls }
  | pollResponse hpayload hpoll haccepted =>
    rename_i poll_id _ _ _ poll _
    simp only [Aims, hpayload] at haims
    have hother : poll.relationship_id ≠ A := fun hrel => haims ⟨poll, hpoll, hrel, haccepted⟩
    have htarget : db.eventOf A poll_id = false := by
      refine eventOf_other hother ?_
      have hown := hs.polls.find hpoll
      rw [Table.key_of_find hpoll] at hown
      exact hown
    refine { SameFor.refl A db with
      poll_responses := .upsert htarget (fun r hr => ?_)
      polls := .modify_of_find hpoll (decide_eq_false hother) (decide_eq_false hother) (fun _ => by rfl) }
    have hkey : r.poll_id = poll_id := congrArg Prod.fst (Table.key_of_find hr)
    exact hkey ▸ htarget
  | task hid hrel htasks =>
    exact { SameFor.refl A db with tasks := .insert (by simpa [hrel] using hne) htasks }
  | taskUpdate hpayload htask hauthorized hopen =>
    rename_i task
    simp only [Aims, hpayload] at haims
    have hother : task.relationship_id ≠ A := fun hrel => haims ⟨task, htask, hrel, hauthorized, hopen⟩
    exact { SameFor.refl A db with
      tasks := .modify_of_find htask (decide_eq_false hother) (decide_eq_false hother) (fun _ => by rfl) }
  | humanRequest hid hrel hattestation hpayload hrequests =>
    exact { SameFor.refl A db with
      human_requests := .insert (by simpa [hrel] using hne) hrequests }
  | humanResponse hpayload hrequest =>
    rename_i request
    simp only [Aims, hpayload] at haims
    have hother : request.relationship_id ≠ A := fun hrel => haims ⟨request, hrequest, hrel⟩
    exact { SameFor.refl A db with
      human_requests := .modify_of_find hrequest (decide_eq_false hother) (decide_eq_false hother) (fun _ => by rfl) }
  | delivery hid hrel hdeliveries =>
    exact { SameFor.refl A db with deliveries := .insert (by simpa [hrel] using hne) hdeliveries }
  | deliveryCancel hpayload hdelivery hsender hstate =>
    rename_i delivery
    simp only [Aims, hpayload] at haims
    have hother : delivery.relationship_id ≠ A := fun hrel => haims ⟨delivery, hdelivery, hrel, hsender, hstate⟩
    exact { SameFor.refl A db with
      deliveries := .modify_of_find hdelivery (decide_eq_false hother) (decide_eq_false hother) (fun _ => by rfl) }
  | securityKey => exact { SameFor.refl A db with }

/-- The writes of a handler, under the same condition on the database before
them. -/
theorem Writes.sameFor (h : Writes ev now db db') (hs : Scoped db)
    (hlog : db.events.find ev.event_id = some ev) (hne : ev.relationship_id ≠ A)
    (haims : ¬ Aims db ev now A)
    (hthread : ev.payload.opensThread = true → ∀ t, ev.thread_id = some t → db.threadOf A t = false) :
    SameFor A db db' := by
  induction h with
  | refl => exact .refl A db
  | tail hwrites hwrite ih =>
    refine ih.trans (hwrite.sameFor (Writes.scoped hwrites hs hlog) ?_ hne ?_ ?_)
    · rw [ih.events]
      exact hlog
    · exact fun h => haims (h.of_same ih)
    · rw [ih.threadOf]
      exact hthread

theorem Aims.target (hs : Scoped db) (h : Aims db ev now A) :
    ∃ kind target, ev.payload.target = some (kind, target) ∧ db.eventOf A target = true := by
  unfold Aims at h
  split at h
  · obtain ⟨m, hm, rfl, -⟩ := h
    exact ⟨_, _, by rw [‹ev.payload = _›]; rfl, Table.key_of_find hm ▸ hs.messages.find hm⟩
  · obtain ⟨m, hm, rfl, -⟩ := h
    exact ⟨_, _, by rw [‹ev.payload = _›]; rfl, Table.key_of_find hm ▸ hs.messages.find hm⟩
  · obtain ⟨p, hp, rfl, -⟩ := h
    exact ⟨_, _, by rw [‹ev.payload = _›]; rfl, Table.key_of_find hp ▸ hs.polls.find hp⟩
  · obtain ⟨t, ht, rfl, -⟩ := h
    exact ⟨_, _, by rw [‹ev.payload = _›]; rfl, Table.key_of_find ht ▸ hs.tasks.find ht⟩
  · obtain ⟨r, hr, rfl⟩ := h
    exact ⟨_, _, by rw [‹ev.payload = _›]; rfl, Table.key_of_find hr ▸ hs.human_requests.find hr⟩
  · obtain ⟨d, hd, rfl, -⟩ := h
    exact ⟨_, _, by rw [‹ev.payload = _›]; rfl, Table.key_of_find hd ▸ hs.deliveries.find hd⟩
  · exact h.elim

/-- An event that names an event of its own relationship aims at no other
relationship. -/
theorem not_aims_of_target {kind : RefKind} {target : EventId} (hs : Scoped db)
    (htarget : ev.payload.target = some (kind, target)) (hne : rid ≠ A)
    (hown : db.eventOf rid target = true) : ¬ Aims db ev now A := by
  intro h
  obtain ⟨_, _, hnamed, hA⟩ := h.target hs
  obtain ⟨-, rfl⟩ := Prod.mk.inj (Option.some.inj (htarget.symm.trans hnamed))
  exact hne (eventOf_unique hown hA)

theorem opensThread_of_target {payload : Payload} {kind : RefKind} {target : EventId}
    (h : payload.target = some (kind, target)) : payload.opensThread = false := by
  cases payload with
  | messageCreated => exact absurd h (by simp [Payload.target])
  | pollCreated => exact absurd h (by simp [Payload.target])
  | taskCreated => exact absurd h (by simp [Payload.target])
  | humanRequested => exact absurd h (by simp [Payload.target])
  | _ => rfl

theorem Effect.sameFor {target : EventId} (hs : Scoped db) (hne : rid ≠ A)
    (hown : db.eventOf rid target = true)
    (h : Effect rid (fun e => e.relationship_id = rid ∧
      ∃ kind, e.payload.target = some (kind, target)) now db db') : SameFor A db db' := by
  cases h with
  | write hlog hP hwrite =>
    obtain ⟨hrel, kind, htarget⟩ := hP
    refine hwrite.sameFor hs hlog (hrel ▸ hne) (not_aims_of_target hs htarget hne hown) ?_
    intro hopens
    rw [opensThread_of_target htarget] at hopens
    exact Bool.noConfusion hopens
  | resolve hi =>
    refine { SameFor.refl A db with pending_refs := .modify (fun r hr => Or.inl ?_) (fun _ => by rfl) }
    obtain ⟨e, he, hrel, -⟩ := hs.pending_refs.find hr
    rw [Table.key_of_find hr] at he
    have hr : r.relationship_id ≠ A := by
      rw [← eventOf_unique hi (eventOf_iff.mpr ⟨e, he, hrel⟩)]
      exact hne
    exact ⟨by simpa using hr, by simpa using hr⟩
  | replyState hi =>
    refine { SameFor.refl A db with messages := .modify (fun m hm => Or.inl ?_) (fun _ => by rfl) }
    have hown := hs.messages.find hm
    rw [Table.key_of_find hm] at hown
    have hm : m.relationship_id ≠ A := by
      rw [← eventOf_unique hi hown]
      exact hne
    exact ⟨by simpa using hm, by simpa using hm⟩
  | quarantine => exact { SameFor.refl A db with }
  | sequence =>
    obtain ⟨_, _, heq⟩ := updateSeqState_eq db ‹_› now
    rw [heq]
    exact { SameFor.refl A db with }

/-- What follows the dispatch of the event: the events that waited name the
event, so no row of another relationship changes. -/
theorem applyInner_of_dispatch {db₁ : Database} {clock : Nat} (hs : Scoped db)
    (hlog : db.events.find ev.event_id = some ev) (hne : ev.relationship_id ≠ A)
    (hfork : forked db ev = false) (hdispatch : dispatch db ev now = .done db₁) :
    ∃ db₂, applyInner db ev now clock = .done db₂ ∧ SameFor A db₁ db₂ := by
  have hwrites : Writes ev now db db₁ := by
    have hends : (dispatch db ev now).Ends (Writes ev now db) _ := dispatch_ends hs hlog
    rw [hdispatch] at hends
    exact hends
  have hs₁ := hwrites.scoped hs hlog
  have hown : db₁.eventOf ev.relationship_id ev.event_id = true := by
    refine eventOf_self ?_
    rw [hwrites.sameInputs.events]
    exact hlog
  have hends : (resolvePending db₁ ev.relationship_id ev.event_id now clock).Ends _ _ :=
    resolvePending_ends hs₁
  unfold applyInner
  rw [hfork, if_neg Bool.false_ne_true, hdispatch]
  show ∃ db₂, (resolvePending db₁ ev.relationship_id ev.event_id now clock).andThen _ = _ ∧ _
  generalize resolvePending db₁ ev.relationship_id ev.event_id now clock = out at hends ⊢
  match out, hends with
  | (db₂, .ok ()), heffects =>
    refine ⟨_, rfl, ?_⟩
    have hnamed := heffects.mono (fun e he => he.names hs₁)
    have hsame : SameFor A db₁ db₂ ∧ Scoped db₂ := by
      refine hnamed.invariant (I := fun db => SameFor A db₁ db ∧ Scoped db)
        (fun db₃ db₄ hinputs hI heffect => ?_) ⟨.refl A db₁, hs₁⟩
      refine ⟨hI.1.trans (heffect.sameFor hI.2 hne ?_), heffect.scoped hI.2⟩
      unfold Database.eventOf at hown ⊢
      rw [hinputs.events]
      exact hown
    refine hsame.1.trans ?_
    obtain ⟨_, _, heq⟩ := updateSeqState_eq db₂ ev now
    rw [heq]
    exact { SameFor.refl A db₂ with }

/-! ## Events that do not reach -/

theorem ensureThread_of_joins {thread_id : ThreadId} (h : Joins db ev thread_id) :
    ensureThread db ev = .done (registerThread db ev thread_id) := by
  unfold ensureThread
  rw [h.1]
  dsimp only
  rw [if_neg]
  cases hrow : db.threads.find thread_id with
  | none => simp
  | some r => simpa using h.2 r hrow

theorem ensureThread_of_not_joins {thread_id : ThreadId} (ht : ev.thread_id = some thread_id)
    (h : ¬ Joins db ev thread_id) : ensureThread db ev = .reject db .thread_scope_mismatch := by
  unfold ensureThread
  rw [ht]
  dsimp only
  rw [if_pos]
  by_contra hany
  exact h (joins_of ht hany)

theorem dispatch_of_not_joins {thread_id : ThreadId} (hopens : ev.payload.opensThread = true)
    (ht : ev.thread_id = some thread_id) (h : ¬ Joins db ev thread_id) :
    dispatch db ev now = .reject db .thread_scope_mismatch := by
  have hreject := ensureThread_of_not_joins ht h
  unfold dispatch
  cases hpayload : ev.payload with
  | messageCreated => simp only [handleMessageCreated, hreject, Outcome.andThen, Outcome.reject]
  | pollCreated => simp only [handlePollCreated, hreject, Outcome.andThen, Outcome.reject]
  | taskCreated => simp only [handleTaskCreated, hreject, Outcome.andThen, Outcome.reject]
  | humanRequested => simp only [handleHumanRequested, hreject, Outcome.andThen, Outcome.reject]
  | _ => rw [hpayload] at hopens; exact Bool.noConfusion hopens

theorem insert_sameFor {κ ρ : Type} {key : ρ → κ} [DecidableEq κ] {t : Table key} {row : ρ}
    {put : Table key → Database} {P : Prop} (hnew : t.find (key row) = none)
    (hput : ∀ t', t.insert row = some t' → SameFor A db (put t')) (hP : P) :
    ∃ db₁, Outcome.insert db t row put = .done db₁ ∧ SameFor A db db₁ ∧ P := by
  obtain ⟨t', hins⟩ := Table.insert_isSome hnew
  refine ⟨put t', ?_, hput t' hins, hP⟩
  simp only [Outcome.insert, hins]
  rfl

theorem Moves.opens {thread_id : ThreadId} (h : Moves db ev thread_id) : ev.payload.opensThread = true := by
  unfold Moves at h
  split at h
  all_goals first
    | exact h.elim
    | rw [‹ev.payload = _›]; rfl

/-- A handler that opens a thread with a poll, a task or a request registers the
thread and stores a row of the relationship of the event, or refuses the poll. -/
theorem dispatch_opens (now : Nat) {thread_id : ThreadId} (hne : ev.relationship_id ≠ A)
    (hjoins : Joins db ev thread_id) (hopens : ev.payload.opensThread = true)
    (hmessage : ∀ body format attachment, ev.payload ≠ .messageCreated body format attachment) :
    (∃ db₁, dispatch db ev now = .done db₁ ∧ SameFor A (registerThread db ev thread_id) db₁ ∧
      (Moves db ev thread_id ↔ Registers db ev thread_id)) ∨
    ((dispatch db ev now).Ends (fun _ => False) (fun _ _ => True) ∧ ¬Moves db ev thread_id) := by
  have hensure := ensureThread_of_joins hjoins
  obtain ⟨threads, thread_state, heq⟩ := registerThread_eq db ev thread_id
  rw [heq] at hensure ⊢
  unfold dispatch Moves
  cases hpayload : ev.payload with
  | messageCreated body format attachment => exact absurd hpayload (hmessage _ _ _)
  | pollCreated question choices closes_at multi_select =>
    simp only [handlePollCreated, hensure, Outcome.andThen, Outcome.done]
    by_cases hstored : (db.polls.find ev.event_id).isSome
    · rw [if_pos hstored]
      exact Or.inl ⟨_, rfl, .refl A _, by simp [hstored]⟩
    · rw [if_neg hstored]
      by_cases hcloses : closes_at ≤ ev.created_at
      · rw [if_pos hcloses]
        exact Or.inr ⟨trivial, fun h => h.2.elim hstored (by omega)⟩
      · rw [if_neg hcloses]
        exact Or.inl (insert_sameFor (by simpa using hstored) (fun polls hpolls =>
          { SameFor.refl A _ with polls := .insert (decide_eq_false hne) hpolls })
          (and_iff_left (Or.inr (by omega))))
  | taskCreated title owner_identity due_at =>
    simp only [handleTaskCreated, hensure, Outcome.andThen, Outcome.done]
    by_cases hstored : (db.tasks.find ev.event_id).isSome
    · rw [if_pos hstored]
      exact Or.inl ⟨_, rfl, .refl A _, trivial⟩
    · rw [if_neg hstored]
      exact Or.inl (insert_sameFor (by simpa using hstored) (fun tasks htasks =>
        { SameFor.refl A _ with tasks := .insert (decide_eq_false hne) htasks }) trivial)
  | humanRequested prompt response_shape expires_at =>
    simp only [handleHumanRequested, hensure, Outcome.andThen, Outcome.done]
    by_cases hstored : (db.human_requests.find ev.event_id).isSome
    · rw [if_pos hstored]
      exact Or.inl ⟨_, rfl, .refl A _, trivial⟩
    · rw [if_neg hstored]
      exact Or.inl (insert_sameFor (by simpa using hstored) (fun requests hrequests =>
        { SameFor.refl A _ with human_requests := .insert (decide_eq_false hne) hrequests }) trivial)
  | _ => rw [hpayload] at hopens; exact Bool.noConfusion hopens

/-- A handler that joins the thread and does not move its state row. -/
theorem dispatch_of_not_moves {thread_id : ThreadId} (hopens : ev.payload.opensThread = true)
    (hne : ev.relationship_id ≠ A) (hjoins : Joins db ev thread_id) (h : ¬ Moves db ev thread_id) :
    (dispatch db ev now).Ends (SameFor A db) (fun _ _ => True) := by
  by_cases hmessage : ∃ body format attachment, ev.payload = .messageCreated body format attachment
  · obtain ⟨body, format, attachment, hpayload⟩ := hmessage
    have hensure := ensureThread_of_joins hjoins
    obtain ⟨threads, thread_state, heq⟩ := registerThread_eq db ev thread_id
    rw [heq] at hensure
    unfold dispatch
    simp only [hpayload, handleMessageCreated, hensure, Outcome.andThen, Outcome.done]
    simp only [Moves, hpayload] at h
    by_cases hstored : (db.messages.find ev.event_id).isSome
    · rw [if_pos hstored] at h ⊢
      exact heq ▸ registerThread_sameFor (Or.inr h)
    · rw [if_neg hstored] at h ⊢
      unfold ReplyAccepted at h
      push Not at h
      obtain ⟨reply_to, target, hreply, htarget, hscope⟩ := h
      rw [hreply]
      dsimp only
      have htarget' : targetEvent { db with threads, thread_state } ev.relationship_id reply_to =
        some target := htarget
      rw [htarget']
      dsimp only
      rw [if_neg hscope]
      trivial
  · push Not at hmessage
    rcases dispatch_opens now hne hjoins hopens hmessage with ⟨db₁, hdone, hsame, hiff⟩ | ⟨hends, -⟩
    · rw [hdone]
      exact (registerThread_sameFor (Or.inr (mt hiff.mpr h))).trans hsame
    · exact hends.imp (fun _ h => h.elim) (fun _ _ h => h)

/-- The handler of an event that reaches no row of `A`. -/
theorem dispatch_sameFor (hs : Scoped db) (hlog : db.events.find ev.event_id = some ev)
    (hne : ev.relationship_id ≠ A) (haims : ¬ Aims db ev now A)
    (hmoves : ∀ t, Joins db ev t → db.threadOf A t = true → ¬ Moves db ev t) :
    (dispatch db ev now).Ends (SameFor A db) (fun _ _ => True) := by
  by_cases hclear : ev.payload.opensThread = true → ∀ t, ev.thread_id = some t → db.threadOf A t = false
  · refine (dispatch_ends hs hlog).imp (fun db' hw => ?_) (fun _ _ _ => trivial)
    exact hw.sameFor hs hlog hne haims hclear
  · push Not at hclear
    obtain ⟨hopens, t, ht, hthread⟩ := hclear
    by_cases hjoins : Joins db ev t
    · exact dispatch_of_not_moves hopens hne hjoins (hmoves t hjoins (Bool.of_not_eq_false hthread))
    · rw [dispatch_of_not_joins hopens ht hjoins]
      trivial

/-! ## Events that reach -/

/-- No row says that the event wrote it: it has not been projected yet. -/
structure Unprojected (db : Database) (ev : Event) : Prop where
  message_revisions : db.message_revisions.All (fun r => r.edit_event_id ≠ some ev.event_id)
  poll_responses : db.poll_responses.All (fun r => r.response_event_id ≠ ev.event_id)
  tasks : db.tasks.All (fun t => t.status_event_id ≠ some ev.event_id)
  human_requests : db.human_requests.All (fun r => r.response_event_id ≠ some ev.event_id)

/-- The handler of an event that aims at a row of `A` writes it. -/
theorem dispatch_of_aims (hs : Scoped db) (hnew : Unprojected db ev) (h : Aims db ev now A) :
    ∃ db₁, dispatch db ev now = .done db₁ ∧ ¬ SameFor A db db₁ := by
  unfold Aims at h
  unfold dispatch
  cases hpayload : ev.payload with
  | messageEdited target body reason =>
    rw [hpayload] at h
    obtain ⟨m, hm, hrel, hsender, hretracted⟩ := h
    obtain ⟨r, hr, hid⟩ := (hs.revised target).mp (by rw [hm]; rfl)
    have hmem : r.revision_no ∈ revisionNumbers db target :=
      List.mem_map.mpr ⟨r, List.mem_filter.mpr ⟨hr, by simpa using hid⟩, rfl⟩
    obtain ⟨newest, hmax⟩ : ∃ n, (revisionNumbers db target).max? = some n :=
      Option.ne_none_iff_exists'.mp (fun hnone => by
        rw [List.max?_eq_none_iff.mp hnone] at hmem
        exact absurd hmem List.not_mem_nil)
    have hfree : db.message_revisions.find
        (Revision.key ⟨target, newest + 1, body, ev.created_at, some ev.event_id, reason⟩) = none := by
      rw [Table.find_eq_none]
      intro r hr hkey
      have hle := max_revision hmax hr (congrArg Prod.fst hkey)
      have hno : r.revision_no = newest + 1 := congrArg Prod.snd hkey
      omega
    obtain ⟨revisions, hins⟩ := Table.insert_isSome hfree
    have hdone : (db.message_revisions.rows.any (fun r => r.event_id = target ∧
        r.edit_event_id = some ev.event_id)) = false := by
      rw [List.any_eq_false]
      intro r hr
      simpa using fun _ => hnew.message_revisions r hr
    simp only [handleMessageEdited, hdone, Bool.false_eq_true, if_false, hm, hsender, ne_eq,
      not_true_eq_false, hretracted, hmax, Outcome.insert, hins, Outcome.andThen]
    refine ⟨_, rfl, fun hsame => ?_⟩
    -- The new revision is a row of `A` that was not there.
    have hfound : revisions.find (target, newest + 1) =
        some ⟨target, newest + 1, body, ev.created_at, some ev.event_id, reason⟩ := by
      rw [Table.find_of_insert hins]
      exact if_pos rfl
    have htarget : db.eventOf A target = true := by
      have hown := hs.messages.find hm
      rw [Table.key_of_find hm, hrel] at hown
      exact hown
    exact Table.not_same hfound htarget hfree (Option.some_ne_none _).symm hsame.message_revisions.symm
  | messageRetracted target reason =>
    rw [hpayload] at h
    obtain ⟨m, hm, hrel, hsender, hretracted⟩ := h
    simp only [handleMessageRetracted, hm, hsender, ne_eq, not_true_eq_false, if_false, hretracted,
      Bool.false_eq_true]
    refine ⟨_, rfl, fun hsame => ?_⟩
    refine absurd hsame.messages (Table.not_same_modify hm (by simpa using hrel) (fun heq => ?_)  (fun _ => by rfl))
    have hflag := congrArg Message.retracted heq
    rw [hretracted] at hflag
    exact Bool.noConfusion hflag
  | pollResponded poll_id choice_ids human_confirmed approval_record_id =>
    rw [hpayload] at h
    obtain ⟨poll, hpoll, hrel, haccepted⟩ := h
    simp only [handlePollResponded, hpoll, haccepted]
    refine ⟨_, rfl, fun hsame => ?_⟩
    have htarget : db.eventOf A poll_id = true := by
      have hown := hs.polls.find hpoll
      rw [Table.key_of_find hpoll, hrel] at hown
      exact hown
    -- The response is a row of `A` that was not there.
    have hfound : (db.poll_responses.upsert ⟨poll_id, ev.sender, choice_ids, human_confirmed,
        approval_record_id, ev.event_id, now⟩).find (poll_id, ev.sender) =
        some ⟨poll_id, ev.sender, choice_ids, human_confirmed, approval_record_id, ev.event_id, now⟩ :=
      (Table.find_upsert ..).trans (if_pos rfl)
    refine Table.not_same hfound htarget rfl ?_ hsame.poll_responses.symm
    intro hold
    exact hnew.poll_responses.find hold rfl
  | taskUpdated task_id status note =>
    rw [hpayload] at h
    obtain ⟨task, htask, hrel, hauthorized, hopen⟩ := h
    have hallowed : ¬ (ev.sender ≠ task.owner_identity ∧ ev.sender ≠ task.sender) :=
      fun hboth => hauthorized.elim hboth.1 hboth.2
    simp only [handleTaskUpdated, htask, if_neg hallowed, hopen, Bool.false_eq_true, if_false]
    refine ⟨_, rfl, fun hsame => ?_⟩
    refine absurd hsame.tasks (Table.not_same_modify htask (by simpa using hrel) (fun heq => ?_)  (fun _ => by rfl))
    have hwriter := congrArg TaskRow.status_event_id heq
    exact hnew.tasks.find htask hwriter.symm
  | humanResponded request_id answer approved approval_record_id =>
    rw [hpayload] at h
    obtain ⟨request, hrequest, hrel⟩ := h
    simp only [handleHumanResponded, hrequest, Option.isNone_some, Bool.false_eq_true, if_false]
    refine ⟨_, rfl, fun hsame => ?_⟩
    refine absurd hsame.human_requests (Table.not_same_modify hrequest (by simpa using hrel) (fun heq => ?_)  (fun _ => by rfl))
    have hwriter := congrArg HumanRequest.response_event_id heq
    exact hnew.human_requests.find hrequest hwriter.symm
  | deliveryCanceled scheduled_event_id =>
    rw [hpayload] at h
    obtain ⟨delivery, hdelivery, hrel, hsender, hstate⟩ := h
    simp only [handleDeliveryCanceled, hdelivery, hsender, ne_eq, not_true_eq_false, if_false,
      hstate, reduceCtorEq]
    refine ⟨_, rfl, fun hsame => ?_⟩
    refine absurd hsame.deliveries (Table.not_same_modify hdelivery (by simpa using hrel) (fun heq => ?_)  (fun _ => by rfl))
    have hcanceled := congrArg Delivery.state heq
    rw [hstate] at hcanceled
    exact DeliveryState.noConfusion hcanceled
  | _ => rw [hpayload] at h; exact h.elim

theorem registerThread_find (db : Database) (ev : Event) (thread_id : ThreadId) :
    ∃ r, (registerThread db ev thread_id).thread_state.find thread_id = some r ∧
      (∀ r₀, db.thread_state.find thread_id = some r₀ → r.message_count = r₀.message_count) ∧
      (thread_id = ev.event_id → r.root_event_id ≠ none) := by
  have hins := Table.find_insertOrIgnore db.thread_state
    ⟨thread_id, ev.conversation_id, none, 0, none⟩ thread_id
  rw [if_pos rfl] at hins
  have hcount : ∀ r₀, db.thread_state.find thread_id = some r₀ →
      ((db.thread_state.find thread_id).getD
        ⟨thread_id, ev.conversation_id, none, 0, none⟩).message_count = r₀.message_count := by
    intro r₀ hr₀
    rw [hr₀]
    rfl
  unfold registerThread
  dsimp only
  split_ifs with hroot
  · rw [Table.find_modify, if_pos rfl, hins]
    refine ⟨_, rfl, ?_, ?_⟩
    · intro r₀ hr₀
      rw [← hcount r₀ hr₀]
      dsimp only
      split_ifs
      · rfl
      · rfl
    · intro _
      dsimp only
      split_ifs with hnone
      · exact Option.some_ne_none _
      · exact fun h => hnone (by rw [h]; rfl)
  · exact ⟨_, hins, hcount, fun h => absurd h hroot⟩

/-- The state row that `_ensure_thread` writes is a row of `A` that was not
there, or that had no root. -/
theorem registerThread_differs {thread_id : ThreadId} (h : Registers db ev thread_id)
    (hthread : db.threadOf A thread_id = true) :
    ¬ SameFor A db (registerThread db ev thread_id) := by
  obtain ⟨r, hr, -, hroot⟩ := registerThread_find db ev thread_id
  have hkey : r.thread_id = thread_id := Table.key_of_find hr
  intro hsame
  refine Table.not_same hr (by rw [hkey]; exact hthread) rfl ?_ hsame.thread_state.symm
  intro hold
  unfold Registers at h
  rw [hold] at h
  exact hroot h.1 h.2

theorem bumpThreadMessage_differs {thread_id : ThreadId} {created_at : Nat} {db₁ : Database}
    (hstate : db₁.thread_state = (registerThread db ev thread_id).thread_state)
    (hthread : db.threadOf A thread_id = true) :
    ¬ SameFor A db (bumpThreadMessage db₁ (some thread_id) created_at) := by
  obtain ⟨r, hr, hcount, -⟩ := registerThread_find db ev thread_id
  have hkey : r.thread_id = thread_id := Table.key_of_find hr
  have hbump : (bumpThreadMessage db₁ (some thread_id) created_at).thread_state.find thread_id =
      some { r with
        message_count := r.message_count + 1
        last_event_at := if r.last_event_at.all (· < created_at) then some created_at
          else r.last_event_at } := by
    unfold bumpThreadMessage
    rw [hstate, Table.find_modify, if_pos rfl, hr]
    rfl
  intro hsame
  refine Table.not_same hbump (by rw [hkey]; exact hthread) rfl ?_ hsame.thread_state.symm
  intro hold
  have hmore := hcount _ hold
  dsimp only at hmore
  omega

theorem dispatch_of_moves {thread_id : ThreadId} (hs : Scoped db)
    (hlog : db.events.find ev.event_id = some ev) (hne : ev.relationship_id ≠ A)
    (hjoins : Joins db ev thread_id) (hthread : db.threadOf A thread_id = true)
    (h : Moves db ev thread_id) : ∃ db₁, dispatch db ev now = .done db₁ ∧ ¬ SameFor A db db₁ := by
  by_cases hmessage : ∃ body format attachment, ev.payload = .messageCreated body format attachment
  · obtain ⟨body, format, attachment, hpayload⟩ := hmessage
    have hs' : Scoped (registerThread db ev thread_id) := by
      obtain ⟨threads, thread_state, heq⟩ := registerThread_eq db ev thread_id
      rw [heq]
      exact hs.threads
    have hsame : ∀ {ρ : Type} (f : Database → ρ), (∀ threads thread_state,
        f { db with threads, thread_state } = f db) → f (registerThread db ev thread_id) = f db := by
      intro ρ f hf
      obtain ⟨threads, thread_state, heq⟩ := registerThread_eq db ev thread_id
      rw [heq]
      exact hf threads thread_state
    unfold dispatch
    simp only [hpayload, handleMessageCreated, ensureThread_of_joins hjoins, Outcome.andThen, Outcome.done]
    simp only [Moves, hpayload] at h
    have hmessages := hsame (·.messages) (fun _ _ => rfl)
    by_cases hstored : (db.messages.find ev.event_id).isSome
    · rw [if_pos hstored] at h
      rw [if_pos (hmessages ▸ hstored)]
      exact ⟨_, rfl, registerThread_differs h hthread⟩
    · rw [if_neg hstored] at h
      rw [if_neg (hmessages ▸ hstored)]
      have hnew : (registerThread db ev thread_id).messages.find ev.event_id = none := by
        rw [hmessages]
        simpa using hstored
      -- Every branch that stores the message bumps the thread.
      have hstore : ∀ {db₁ : Database} {reply_state : ReplyState}, Scoped db₁ →
          db₁.messages.find ev.event_id = none →
          db₁.thread_state = (registerThread db ev thread_id).thread_state →
          ∃ db₂, storeMessage db₁ ev body format attachment reply_state now = (db₂, .ok ()) ∧
            ¬ SameFor A db db₂ := by
        intro db₁ reply_state hs₁ hnew₁ hstate
        obtain ⟨_, _, _, -, -, heq⟩ := storeMessage_eq hs₁ hnew₁
        rw [heq, hjoins.1]
        exact ⟨_, rfl, bumpThreadMessage_differs hstate hthread⟩
      split
      · exact hstore hs' hnew rfl
      · rename_i reply_to hreply
        have htarget := hsame (fun db => targetEvent db ev.relationship_id reply_to)
          (fun _ _ => rfl)
        have hlog' : (registerThread db ev thread_id).events.find ev.event_id = some ev :=
          (hsame (·.events.find ev.event_id) (fun _ _ => rfl)).trans hlog
        split
        · exact hstore (hs'.addPending hlog' (fun h => absurd rfl h)) hnew rfl
        · rename_i target hfound
          rw [if_pos (h reply_to target hreply (htarget ▸ hfound))]
          exact hstore hs' hnew rfl
  · push Not at hmessage
    rcases dispatch_opens now hne hjoins h.opens hmessage with
      ⟨db₁, hdone, hsame, hiff⟩ | ⟨-, hstays⟩
    · exact ⟨db₁, hdone, fun h' => registerThread_differs (hiff.mp h) hthread (h'.trans hsame.symm)⟩
    · exact absurd h hstays

end frames

/-! ## Isolation -/

/-- Projecting an event that is in the log of another relationship leaves the
rows of `A` as they are when the event does not reach them.  For an event that
has not been projected yet, this is the only case. -/
theorem projection_isolated {s : Node} {ev : Event} {clock : Nat} {A : RelationshipId}
    (hreach : machine.Reachable s) (hlog : s.db.events.find ev.event_id = some ev)
    (hother : ev.relationship_id ≠ A) :
    (¬ Reaches s.db ev (ev.received_at.getD clock) A →
      SameFor A s.db (projectEvent s.db ev clock)) ∧
    (Unprojected s.db ev → (SameFor A s.db (projectEvent s.db ev clock) ↔
      ¬ Reaches s.db ev (ev.received_at.getD clock) A)) := by
  have hs := reachable_scoped hreach
  have hquarantine : ∀ reason, SameFor A s.db (quarantineEvent s.db ev reason clock) :=
    fun _ => { SameFor.refl A s.db with }
  have hisolated : ¬ Reaches s.db ev (ev.received_at.getD clock) A →
      SameFor A s.db (projectEvent s.db ev clock) := by
    intro hclear
    unfold projectEvent applyEvent
    cases hfork : forked s.db ev with
    | true =>
      simp only [applyInner, hfork, if_true, Outcome.done]
      exact hquarantine _
    | false =>
      have hdispatch := dispatch_sameFor (A := A) hs hlog hother
        (fun haims => hclear ⟨hfork, Or.inl haims⟩)
        (fun t hjoins hthread hmoves => hclear ⟨hfork, Or.inr ⟨t, hjoins, hthread, hmoves⟩⟩)
      have hends : (applyInner s.db ev (ev.received_at.getD clock) clock).Ends _ _ :=
        applyInner_ends hs hlog
      generalize hout : dispatch s.db ev (ev.received_at.getD clock) = out at hdispatch
      match out, hdispatch with
      | (db₁, .ok ()), hsame =>
        obtain ⟨db₂, happly, hafter⟩ : ∃ db₂, applyInner s.db ev _ clock = .done db₂ ∧
            SameFor A db₁ db₂ := applyInner_of_dispatch hs hlog hother hfork hout
        rw [happly]
        exact hsame.trans hafter
      | (db₁, .error failure), _ =>
        simp only [applyInner, hfork, Bool.false_eq_true, if_false, hout, Outcome.andThen] at hends ⊢
        obtain ⟨⟨code, rfl⟩, -⟩ := hends
        exact hquarantine _
  refine ⟨hisolated, fun hnew => ⟨fun hsame hreaches => ?_, hisolated⟩⟩
  obtain ⟨hfork, hwrites⟩ := hreaches
  have hdispatch : ∃ db₁, dispatch s.db ev (ev.received_at.getD clock) = .done db₁ ∧
      ¬ SameFor A s.db db₁ := by
    rcases hwrites with haims | ⟨t, hjoins, hthread, hmoves⟩
    · exact dispatch_of_aims hs hnew haims
    · exact dispatch_of_moves hs hlog hother hjoins hthread hmoves
  obtain ⟨db₁, hdone, hdiffers⟩ := hdispatch
  obtain ⟨db₂, happly, hafter⟩ : ∃ db₂, applyInner s.db ev _ clock = .done db₂ ∧
      SameFor A db₁ db₂ := applyInner_of_dispatch hs hlog hother hfork hdone
  unfold projectEvent applyEvent at hsame
  rw [happly] at hsame
  exact hdiffers (hsame.trans hafter.symm)

/-! ### A request of one relationship, answered under another -/

/-- A request of the peer `11` in the relationship `1`. -/
def requestInOne : Event :=
  ⟨100, 1, 1, some 100, 11, 1, 0, 1, .humanRequested "pay?" "yes/no" 900, none, some 0⟩

/-- An answer to it by the peer `22` in the relationship `2`. -/
def answerInTwo : Event :=
  ⟨200, 2, 2, some 200, 22, 1, 0, 1, .humanResponded 100 "yes" true 7, none, some 0⟩

/-- An answer in the relationship `2` to a request that nobody made. -/
def answerToNone : Event :=
  ⟨201, 2, 2, some 201, 22, 2, 0, 1, .humanResponded 101 "yes" true 7, none, some 0⟩

/-- Two relationships, with the request projected and the two answers accepted. -/
def twoPeers : List Act :=
  [.pair 1 11, .pair 2 22, .receive requestInOne 0, .project 100 0, .receive answerInTwo 0,
    .receive answerToNone 0]

theorem twoPeers_run : ∃ s, machine.Reachable s ∧
    s.db.events.rows = [requestInOne, answerInTwo, answerToNone] ∧
    s.db.human_requests.rows =
      [⟨100, 1, 1, some 100, 11, 0, "pay?", "yes/no", 900, .open, none, none, none, none, none, .peer⟩] ∧
    ((projectEvent s.db answerInTwo 0).human_requests.find 100).map (·.state) = some .responded := by
  have hrun : (machine.run ⟨{}, [1]⟩ twoPeers).map
      (fun s => (s.db.events.rows, s.db.human_requests.rows,
        ((projectEvent s.db answerInTwo 0).human_requests.find 100).map (·.state))) =
      some ([requestInOne, answerInTwo, answerToNone],
        [⟨100, 1, 1, some 100, 11, 0, "pay?", "yes/no", 900, .open, none, none, none, none, none,
          .peer⟩], some .responded) := by
    decide +kernel
  obtain ⟨s, hs, heq⟩ := Option.map_eq_some_iff.mp hrun
  obtain ⟨hevents, hrest⟩ := Prod.mk.inj heq
  obtain ⟨hrequests, hanswered⟩ := Prod.mk.inj hrest
  exact ⟨s, Machine.reachable_of_run ⟨rfl, List.cons_ne_nil _ _⟩ hs, hevents, hrequests, hanswered⟩

/-- The answer to no request leaves the relationship `1` as it is. -/
theorem projection_isolated_two_peers : ∃ s, machine.Reachable s ∧
    s.db.events.find 201 = some answerToNone ∧ answerToNone.relationship_id ≠ 1 ∧
    SameFor 1 s.db (projectEvent s.db answerToNone 0) := by
  obtain ⟨s, hreach, hevents, hrequests, -⟩ := twoPeers_run
  have hlog : s.db.events.find 201 = some answerToNone := by
    unfold Table.find
    rw [hevents]
    rfl
  have hnone : s.db.human_requests.find 101 = none := by
    unfold Table.find
    rw [hrequests]
    rfl
  refine ⟨s, hreach, hlog, by decide, ?_⟩
  refine (projection_isolated hreach hlog (by decide)).1 ?_
  rintro ⟨-, ⟨r, hr, -⟩ | ⟨t, -, -, hmoves⟩⟩
  · exact absurd (hnone.symm.trans hr) (Option.some_ne_none r).symm
  · exact hmoves

/-- The answer of the peer of the relationship `2` is written to the request of
the relationship `1`. -/
theorem answer_crosses_relationships : ∃ s ev, machine.Reachable s ∧
    s.db.events.find ev.event_id = some ev ∧ ev.relationship_id ≠ 1 ∧
    ¬ SameFor 1 s.db (projectEvent s.db ev 0) := by
  obtain ⟨s, hreach, hevents, hrequests, hanswered⟩ := twoPeers_run
  have hlog : s.db.events.find 200 = some answerInTwo := by
    unfold Table.find
    rw [hevents]
    rfl
  have hopen : s.db.human_requests.find 100 = some ⟨100, 1, 1, some 100, 11, 0, "pay?", "yes/no",
      900, .open, none, none, none, none, none, .peer⟩ := by
    unfold Table.find
    rw [hrequests]
    rfl
  refine ⟨s, answerInTwo, hreach, hlog, by decide, fun hsame => ?_⟩
  rw [hsame.human_requests.find hopen (by decide)] at hanswered
  exact absurd hanswered (by decide)

end MuseAgentSocial.Store
