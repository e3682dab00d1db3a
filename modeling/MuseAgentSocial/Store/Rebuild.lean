import MuseAgentSocial.Store.Alike

/-!
# Incremental projection and rebuild

The receive path projects one event at a time and rolls a rejected event back.
`rebuild_projections` replays the whole log and keeps what a rejected handler
had written.

* `projectAll` is the receive path over a list of events, `replay` the loop of
  the rebuild, and `unproject` the store without its projections.
* `Traceless`: every event that is rejected midway comes after one that has
  registered its thread.
* `incremental_eq_rebuild_iff`: both paths leave the same projections, and a
  rejected event leaves none in either, exactly when the log is traceless.
-/

namespace MuseAgentSocial.Store

open Model Crypto Policy

/-- The events one at a time as the receive path projects them, each at its own
wall clock. -/
def projectAll (clock : Event → Nat) (evs : List Event) (db : Database) : Database :=
  evs.foldl (fun db ev => projectEvent db ev (clock ev)) db

/-- The store with empty projection tables. -/
def unproject (db : Database) : Database where
  events := db.events
  relationships := db.relationships
  human_approvals := db.human_approvals
  threads := db.threads
  attachments := db.attachments
  quarantine := db.quarantine

/-- The constraints of `events`: the thread is a foreign key, and the sequence
numbers of a sender are unique. -/
structure Constrained (db : Database) : Prop where
  threads : ∀ ev ∈ db.events.rows, ∀ t, ev.thread_id = some t → (db.threads.find t).isSome
  unforked : ∀ ev ∈ db.events.rows, forked db ev = false

/-- The tables that a rebuild wipes are the same. -/
structure SameProjections (db db' : Database) : Prop where
  messages : db.messages = db'.messages
  message_revisions : db.message_revisions = db'.message_revisions
  reactions : db.reactions = db'.reactions
  receipts : db.receipts = db'.receipts
  polls : db.polls = db'.polls
  poll_responses : db.poll_responses = db'.poll_responses
  tasks : db.tasks = db'.tasks
  human_requests : db.human_requests = db'.human_requests
  deliveries : db.deliveries = db'.deliveries
  security_key_events : db.security_key_events = db'.security_key_events
  thread_state : db.thread_state = db'.thread_state
  pending_refs : db.pending_refs = db'.pending_refs
  projection_cursors : db.projection_cursors = db'.projection_cursors
  sequence_gaps : db.sequence_gaps = db'.sequence_gaps

/-- The window with all names. -/
def everything : Window := ⟨fun _ => true, fun _ => true, fun _ => true, fun _ => true⟩

/-- Every event that is rejected midway comes after one that has registered its
thread, and is not the root of the thread. -/
def Traceless (db : Database) (rid : RelationshipId) : Prop :=
  ∀ before ev after t, relationshipEvents db rid = before ++ ev :: after → Joins db ev t →
    rejectedMidway db ev = true →
    t ≠ ev.event_id ∧ ∃ e ∈ before, e.payload.opensThread = true ∧ Joins db e t

section windows

variable {db db' : Database} {rid : RelationshipId}

theorem everything_sees (db : Database) (rid : RelationshipId) : everything.Sees db rid :=
  ⟨fun _ _ _ => ⟨rfl, fun _ _ => rfl, rfl⟩, fun e _ _ => by
    unfold Window.Reads
    split
    all_goals first | exact trivial | exact Or.inl rfl,
    ⟨fun _ _ _ => rfl, fun _ _ _ _ => Or.inl rfl⟩⟩

theorem SameProjections.of_alike (h : Alike everything db db') : SameProjections db db' where
  messages := h.messages.eq
  message_revisions := h.message_revisions.eq
  reactions := h.reactions.eq
  receipts := h.receipts.eq
  polls := h.polls.eq
  poll_responses := h.poll_responses.eq
  tasks := h.tasks.eq
  human_requests := h.human_requests.eq
  deliveries := h.deliveries.eq
  security_key_events := h.security_key_events.eq
  thread_state := h.thread_state.eq
  pending_refs := h.pending_refs.eq
  projection_cursors := h.projection_cursors.eq
  sequence_gaps := h.sequence_gaps.eq

theorem Scoped.unproject (db : Database) : Scoped (unproject db) where
  messages := .empty
  polls := .empty
  tasks := .empty
  human_requests := .empty
  deliveries := .empty
  pending_refs := .empty
  revised i := by
    show (none : Option Message).isSome ↔ ∃ r ∈ ([] : List Revision), r.event_id = i
    simp

end windows

/-! ## A prefix of the replay -/

/-- The database `db` holds projections of the events of `before` only. -/
structure Replayed (base : Database) (before : List Event) (db : Database) : Prop where
  inputs : SameInputs base db
  scope : Scoped db
  threads : db.threads = base.threads
  state : ∀ t, (db.thread_state.find t).isSome →
    ∃ e ∈ before, e.payload.opensThread = true ∧ Joins base e t
  root : db.thread_state.All (fun r => ∀ i, r.root_event_id = some i →
    i = r.thread_id ∧ ∃ e ∈ before, e.event_id = i)
  messages : db.messages.All (fun m => ∃ e ∈ before, e.event_id = m.event_id)
  polls : db.polls.All (fun p => ∃ e ∈ before, e.event_id = p.poll_id)
  pending_refs : db.pending_refs.All (fun r => ∃ e ∈ before, e.event_id = r.event_id)

section replayed

variable {base db db' : Database} {before : List Event} {rid : RelationshipId} {now clock : Nat}
  {ev : Event}

theorem Replayed.mono (h : Replayed base before db) {before' : List Event}
    (hsub : ∀ e ∈ before, e ∈ before') : Replayed base before' db where
  inputs := h.inputs
  scope := h.scope
  threads := h.threads
  state t ht := (h.state t ht).imp fun e he => ⟨hsub e he.1, he.2⟩
  root := h.root.imp fun _ hr i hi => ⟨(hr i hi).1, (hr i hi).2.imp fun e he => ⟨hsub e he.1, he.2⟩⟩
  messages := h.messages.imp fun _ hm => hm.imp fun e he => ⟨hsub e he.1, he.2⟩
  polls := h.polls.imp fun _ hp => hp.imp fun e he => ⟨hsub e he.1, he.2⟩
  pending_refs := h.pending_refs.imp fun _ hr => hr.imp fun e he => ⟨hsub e he.1, he.2⟩

theorem Joins.of_threads {e : Event} {t : ThreadId} (h : Joins db e t)
    (hthreads : db.threads = db'.threads) : Joins db' e t :=
  ⟨h.1, fun r hr => h.2 r (by rw [hthreads]; exact hr)⟩

theorem Replayed.registerThread {e : Event} {t : ThreadId} (h : Replayed base before db)
    (he : e ∈ before) (hopens : e.payload.opensThread = true) (hjoins : Joins db e t)
    (hthread : (db.threads.find t).isSome) : Replayed base before (registerThread db e t) := by
  have hjoins' : Joins base e t := hjoins.of_threads h.threads
  have hthreads : (Store.registerThread db e t).threads = base.threads := by
    rw [registerThread_threads, Table.insertOrIgnore_of_isSome hthread]
    exact h.threads
  have hins : (db.thread_state.insertOrIgnore ⟨t, e.conversation_id, none, 0, none⟩).All
      (fun r => ∀ i, r.root_event_id = some i → i = r.thread_id ∧ ∃ e ∈ before, e.event_id = i) :=
    h.root.insertOrIgnore (fun i hi => absurd hi (Option.some_ne_none i).symm)
  have hkeys : ∀ t', ((db.thread_state.insertOrIgnore ⟨t, e.conversation_id, none, 0, none⟩).find
      t').isSome → ∃ e ∈ before, e.payload.opensThread = true ∧ Joins base e t' := by
    intro t' ht'
    rw [Table.find_insertOrIgnore] at ht'
    split_ifs at ht' with hkey
    · exact ⟨e, he, hopens, hkey ▸ hjoins'⟩
    · exact h.state t' ht'
  have hrest : ∃ threads thread_state, Store.registerThread db e t = { db with threads, thread_state } :=
    registerThread_eq db e t
  have hroot : (Store.registerThread db e t).thread_state.All (fun r => ∀ i,
      r.root_event_id = some i → i = r.thread_id ∧ ∃ e ∈ before, e.event_id = i) ∧
      ∀ t', ((Store.registerThread db e t).thread_state.find t').isSome →
        ∃ e ∈ before, e.payload.opensThread = true ∧ Joins base e t' := by
    unfold Store.registerThread
    dsimp only
    split_ifs with hid
    · refine ⟨hins.modify (fun r hr hold => ?_) (fun _ => by split_ifs <;> rfl), fun t' ht' => ?_⟩
      · split_ifs with hnone
        · intro i hi
          obtain rfl := Option.some.inj hi
          refine ⟨?_, e, he, rfl⟩
          rw [← hid]
          exact (Table.key_of_find hr).symm
        · exact hold
      · rw [Table.isSome_find_modify] at ht'
        exact hkeys t' ht'
    · exact ⟨hins, hkeys⟩
  obtain ⟨threads, thread_state, heq⟩ := hrest
  rw [heq] at hthreads hroot ⊢
  exact { h with
    inputs := ⟨h.inputs.events, h.inputs.relationships, h.inputs.human_approvals⟩
    scope := h.scope.threads
    threads := hthreads
    state := hroot.2
    root := hroot.1 }

theorem Replayed.bumpThreadMessage (h : Replayed base before db) (thread_id : Option ThreadId)
    (created_at : Nat) : Replayed base before (bumpThreadMessage db thread_id created_at) := by
  unfold Store.bumpThreadMessage
  cases thread_id with
  | none => exact h
  | some thread_id =>
    dsimp only
    refine { h with
      inputs := ⟨h.inputs.events, h.inputs.relationships, h.inputs.human_approvals⟩
      scope := h.scope.threads
      state := fun t ht => ?_
      root := ?_ }
    · rw [Table.isSome_find_modify] at ht
      exact h.state t ht
    · refine h.root.modify ?_ (fun _ => by rfl)
      exact fun _ _ hold => hold

/-- One case per write of a handler. -/
theorem Replayed.write {e : Event} (h : Replayed base before db) (he : e ∈ before)
    (hlog : db.events.find e.event_id = some e)
    (hthread : ∀ t, e.thread_id = some t → (db.threads.find t).isSome)
    (hwrite : Write e now db db') : Replayed base before db' := by
  have hscope := hwrite.scoped h.scope hlog
  have hinputs := h.inputs.trans hwrite.sameInputs
  have hadd : ∀ target kind, (addPending db e target kind).pending_refs.All
      (fun r => ∃ e ∈ before, e.event_id = r.event_id) := by
    intro target kind
    exact h.pending_refs.insertOrIgnore ⟨e, he, rfl⟩
  cases hwrite with
  | pending htarget => exact { h with inputs := hinputs, scope := hscope, pending_refs := hadd _ _ }
  | reply hopens => exact { h with inputs := hinputs, scope := hscope, pending_refs := hadd _ _ }
  | thread hopens hjoins => exact h.registerThread he hopens hjoins (hthread _ hjoins.1)
  | message hpayload hmessages hrevisions =>
    refine Replayed.bumpThreadMessage ?_ _ _
    exact { h with
      inputs := ⟨h.inputs.events, h.inputs.relationships, h.inputs.human_approvals⟩
      scope := h.scope.message hlog rfl rfl rfl hmessages hrevisions
      messages := h.messages.insert ⟨e, he, rfl⟩ hmessages }
  | edit hpayload hm hsender hretracted hrevisions =>
    refine { h with inputs := hinputs, scope := hscope, messages := h.messages.modify ?_ (fun _ => by rfl) }
    exact fun _ _ hold => hold
  | retract hpayload hm hsender hretracted =>
    refine { h with inputs := hinputs, scope := hscope, messages := h.messages.modify ?_ (fun _ => by rfl) }
    exact fun _ _ hold => hold
  | poll hid hrel hpolls =>
    exact { h with
      inputs := hinputs, scope := hscope, polls := h.polls.insert ⟨e, he, hid.symm⟩ hpolls }
  | pollResponse hpayload hpoll haccepted =>
    refine { h with inputs := hinputs, scope := hscope, polls := h.polls.modify ?_ (fun _ => by rfl) }
    exact fun _ _ hold => hold
  | _ => exact { h with inputs := hinputs, scope := hscope }

/-- One step of `apply_event`. -/
theorem Replayed.effect (h : Replayed base before db)
    (hthread : ∀ e ∈ before, ∀ t, e.thread_id = some t → (base.threads.find t).isSome)
    (heffect : Effect rid (· ∈ before) now db db') : Replayed base before db' := by
  have hscope := heffect.scoped h.scope
  have hinputs := h.inputs.trans heffect.sameInputs
  cases heffect with
  | write hlog hP hwrite =>
    refine h.write hP hlog (fun t ht => ?_) hwrite
    rw [h.threads]
    exact hthread _ hP t ht
  | resolve hown =>
    refine { h with inputs := hinputs, scope := hscope, pending_refs := h.pending_refs.modify ?_ (fun _ => by rfl) }
    exact fun _ _ hold => hold
  | replyState hown =>
    refine { h with inputs := hinputs, scope := hscope, messages := h.messages.modify ?_ (fun _ => by rfl) }
    exact fun _ _ hold => hold
  | quarantine => exact { h with inputs := hinputs, scope := hscope }
  | sequence =>
    obtain ⟨_, _, heq⟩ := updateSeqState_eq db ‹_› now
    rw [heq] at hscope hinputs ⊢
    exact { h with inputs := hinputs, scope := hscope }

theorem Replayed.effects (h : Replayed base before db)
    (hthread : ∀ e ∈ before, ∀ t, e.thread_id = some t → (base.threads.find t).isSome)
    (heffects : Effects rid (· ∈ before) now db db') : Replayed base before db' :=
  heffects.invariant (fun _ _ _ h₁ heffect => h₁.effect hthread heffect) h

theorem Replayed.dispatches (h : Replayed base before db)
    (hlog : ∀ e ∈ before, base.events.find e.event_id = some e) {e : Event}
    (he : Dispatches db ev e) : e = ev ∨ e ∈ before := by
  rcases he with rfl | ⟨ref, href, -, hfind⟩
  · exact Or.inl rfl
  · obtain ⟨hmem, -⟩ := List.mem_filter.mp href
    obtain ⟨e', he', hid⟩ := h.pending_refs ref hmem
    rw [← hid, h.inputs.events, hlog e' he'] at hfind
    exact Or.inr (Option.some.inj hfind ▸ he')

theorem Effect.thread_state (h : Effect rid (fun _ => True) now db db') {t : ThreadId}
    (ht : (db.thread_state.find t).isSome) : (db'.thread_state.find t).isSome := by
  have hinsert : ∀ (db : Database) (row : ThreadState), (db.thread_state.find t).isSome →
      ((db.thread_state.insertOrIgnore row).find t).isSome := by
    intro db row ht
    rw [Table.find_insertOrIgnore]
    split_ifs
    · rfl
    · exact ht
  cases h with
  | write hlog hP hwrite =>
    cases hwrite with
    | thread hopens hjoins =>
      unfold registerThread
      dsimp only
      split_ifs
      · rw [Table.isSome_find_modify]
        exact hinsert db _ ht
      · exact hinsert db _ ht
    | message hpayload hmessages hrevisions =>
      unfold bumpThreadMessage
      split
      · exact ht
      · rw [Table.isSome_find_modify]
        exact ht
    | _ => exact ht
  | sequence =>
    obtain ⟨_, _, heq⟩ := updateSeqState_eq db ‹_› now
    rw [heq]
    exact ht
  | _ => exact ht

theorem Effects.thread_state {P : Event → Prop} (h : Effects rid P now db db') {t : ThreadId}
    (ht : (db.thread_state.find t).isSome) : (db'.thread_state.find t).isSome :=
  (h.mono (fun _ _ => trivial)).invariant (I := fun db => (db.thread_state.find t).isSome)
    (fun _ _ _ ht heffect => heffect.thread_state ht) ht

end replayed

/-! ## The loop of the rebuild -/

/-- One round of the loop: a rejected event is quarantined and its writes stay. -/
def replayOne (clock : Nat) (db : Database) (ev : Event) : Database :=
  match applyInner db ev (ev.received_at.getD clock) clock with
  | (db', .error (.projection code)) => quarantineEvent db' ev (.rejected code) clock
  | (db', _) => db'

section loop

variable {base db db' : Database} {before : List Event} {rid : RelationshipId} {clock : Nat}
  {ev : Event}

/-- A round makes the steps of `apply_event`, and raises nothing. -/
theorem replayOne_effects (hs : Scoped db) (hlog : db.events.find ev.event_id = some ev) :
    Effects ev.relationship_id (Dispatches db ev) (ev.received_at.getD clock) db
        (replayOne clock db ev) ∧
      ∀ evs, replay clock (ev :: evs) db = replay clock evs (replayOne clock db ev) := by
  have hends : (applyInner db ev (ev.received_at.getD clock) clock).Ends _ _ :=
    applyInner_ends hs hlog
  unfold replayOne
  simp only [replay]
  generalize applyInner db ev (ev.received_at.getD clock) clock = out at hends ⊢
  obtain ⟨db', failure | _⟩ := out
  · obtain ⟨⟨code, rfl⟩, heffects⟩ := hends
    exact ⟨heffects.tail .quarantine, fun _ => rfl⟩
  · exact ⟨hends, fun _ => rfl⟩

/-- A round on the next event of the log: the prefix grows by the event, and the
thread that it opens is registered. -/
theorem Replayed.step (h : Replayed base before db)
    (hlog : ∀ e ∈ before ++ [ev], base.events.find e.event_id = some e)
    (hthread : ∀ e ∈ before ++ [ev], ∀ t, e.thread_id = some t → (base.threads.find t).isSome) :
    Replayed base (before ++ [ev]) (replayOne clock db ev) := by
  have hev : ev ∈ before ++ [ev] := List.mem_append_right _ (List.mem_singleton.mpr rfl)
  have hlogged : db.events.find ev.event_id = some ev := by
    rw [h.inputs.events]
    exact hlog ev hev
  have hsub : ∀ e ∈ before, e ∈ before ++ [ev] := fun e he => List.mem_append_left _ he
  refine (h.mono hsub).effects hthread ((replayOne_effects h.scope hlogged).1.mono (fun e he => ?_))
  rcases h.dispatches (fun e he => hlog e (hsub e he)) he with rfl | hmem
  · exact hev
  · exact hsub e hmem

/-- The prefix has registered the threads that its events open. -/
def Registered (base : Database) (before : List Event) (db : Database) : Prop :=
  ∀ e ∈ before, e.payload.opensThread = true → ∀ t, Joins base e t → (db.thread_state.find t).isSome

theorem dispatch_registers {now : Nat} {t : ThreadId} (hs : Scoped db)
    (hlog : db.events.find ev.event_id = some ev) (hopens : ev.payload.opensThread = true)
    (hjoins : Joins db ev t) :
    (dispatch db ev now).Ends (fun db' => (db'.thread_state.find t).isSome)
      (fun _ db' => (db'.thread_state.find t).isSome) := by
  obtain ⟨threads, thread_state, heq⟩ := registerThread_eq db ev t
  have hs' : Scoped (registerThread db ev t) := by rw [heq]; exact hs.threads
  have hlog' : (registerThread db ev t).events.find ev.event_id = some ev := by rw [heq]; exact hlog
  have hstate : ((registerThread db ev t).thread_state.find t).isSome := by
    obtain ⟨r, hr, -⟩ := registerThread_find db ev t
    rw [hr]
    rfl
  have hkeep : ∀ db', Writes ev now (registerThread db ev t) db' →
      (db'.thread_state.find t).isSome := by
    intro db' hw
    have heffects : Effects ev.relationship_id (fun _ => True) now (registerThread db ev t) db' :=
      Writes.effects hw hlog' trivial
    exact heffects.thread_state hstate
  rw [dispatch_registered hopens hjoins]
  exact (dispatch_ends hs' hlog').imp hkeep (fun _ db' hrej => hkeep db' hrej.2)

theorem replayOne_registers {t : ThreadId} (hs : Scoped db)
    (hlog : db.events.find ev.event_id = some ev) (hfork : forked db ev = false)
    (hopens : ev.payload.opensThread = true) (hjoins : Joins db ev t) :
    ((replayOne clock db ev).thread_state.find t).isSome := by
  have hends : (dispatch db ev (ev.received_at.getD clock)).Ends
      (fun db' => (db'.thread_state.find t).isSome)
      (fun _ db' => (db'.thread_state.find t).isSome) := dispatch_registers hs hlog hopens hjoins
  have hwrites : (dispatch db ev (ev.received_at.getD clock)).Ends
      (Writes ev (ev.received_at.getD clock) db) (Rejected ev (ev.received_at.getD clock) db) :=
    dispatch_ends hs hlog
  unfold replayOne applyInner
  rw [hfork, if_neg Bool.false_ne_true]
  generalize dispatch db ev (ev.received_at.getD clock) = out at hends hwrites ⊢
  match out, hwrites, hends with
  | (db₁, .error _), ⟨⟨code, rfl⟩, _⟩, hstate => exact hstate
  | (db₁, .ok ()), hw, hstate =>
    have hrest : (resolvePending db₁ ev.relationship_id ev.event_id
        (ev.received_at.getD clock) clock).Ends _ _ := resolvePending_ends (hw.scoped hs hlog)
    dsimp only [Outcome.andThen]
    generalize resolvePending db₁ ev.relationship_id ev.event_id _ clock = out at hrest ⊢
    match out, hrest with
    | (db₂, .ok ()), heffects =>
      obtain ⟨_, _, heq⟩ := updateSeqState_eq db₂ ev (ev.received_at.getD clock)
      have hstate₂ := heffects.thread_state hstate
      dsimp only [Outcome.done]
      rw [heq]
      exact hstate₂

theorem Constrained.unproject (h : Constrained db) : Constrained (unproject db) :=
  ⟨h.threads, h.unforked⟩

/-- The whole loop: it raises nothing, and the prefix grows by the events. -/
theorem replay_run (hc : Constrained base) {evs : List Event} (h : Replayed base before db)
    (hr : Registered base before db)
    (hlog : ∀ e ∈ before ++ evs, base.events.find e.event_id = some e) :
    replay clock evs db = .done (evs.foldl (replayOne clock) db) ∧
      Replayed base (before ++ evs) (evs.foldl (replayOne clock) db) ∧
      Registered base (before ++ evs) (evs.foldl (replayOne clock) db) := by
  induction evs generalizing before db with
  | nil =>
    rw [List.append_nil]
    exact ⟨rfl, h, hr⟩
  | cons ev evs ih =>
    have hassoc : before ++ ev :: evs = (before ++ [ev]) ++ evs := by simp
    rw [hassoc] at hlog ⊢
    have hlog' : ∀ e ∈ before ++ [ev], base.events.find e.event_id = some e :=
      fun e he => hlog e (List.mem_append_left _ he)
    have hthread : ∀ e ∈ before ++ [ev], ∀ t, e.thread_id = some t → (base.threads.find t).isSome :=
      fun e he => hc.threads e (Table.mem_iff_find.mpr (hlog' e he))
    have hbase := hlog' ev (List.mem_append_right _ (List.mem_singleton.mpr rfl))
    have hev : db.events.find ev.event_id = some ev := by
      rw [h.inputs.events]
      exact hbase
    have hfork : forked db ev = false := by
      unfold forked
      rw [h.inputs.events]
      exact hc.unforked ev (Table.mem_iff_find.mpr hbase)
    obtain ⟨heffects, hloop⟩ : Effects ev.relationship_id (Dispatches db ev)
        (ev.received_at.getD clock) db (replayOne clock db ev) ∧ _ := replayOne_effects h.scope hev
    rw [hloop, List.foldl_cons]
    refine ih (h.step hlog' hthread) (fun e he hopens t hjoins => ?_) hlog
    rcases List.mem_append.mp he with hold | hnew
    · exact heffects.thread_state (hr e hold hopens t hjoins)
    · obtain rfl := List.mem_singleton.mp hnew
      exact replayOne_registers h.scope hev hfork hopens (hjoins.of_threads h.threads.symm)

end loop

/-! ## The two paths -/

/-- The two paths agree on one log: the same projections, and none of a rejected event. -/
structure Agrees (db : Database) (rid : RelationshipId) (clocks : Event → Nat) (clock : Nat) : Prop where
  /-- Both paths leave the same projections. -/
  same : SameProjections (projectAll clocks (relationshipEvents db rid) (unproject db))
    (rebuildProjections (unproject db) rid clock)
  /-- A rejected event leaves no projection in the receive path. -/
  incremental : ∀ before ev after, relationshipEvents db rid = before ++ ev :: after → ∀ code,
    (applyEvent (projectAll clocks before (unproject db)) ev (clocks ev)).2 =
      .error (.projection code) →
    SameProjections (projectAll clocks before (unproject db))
      (projectEvent (projectAll clocks before (unproject db)) ev (clocks ev))
  /-- A rejected event leaves no projection in the rebuild. -/
  rebuild : ∀ before ev after, relationshipEvents db rid = before ++ ev :: after → ∀ code db',
    applyInner (replay clock before (wipe (unproject db) rid)).1 ev (ev.received_at.getD clock)
      clock = .reject db' code →
    SameProjections (replay clock before (wipe (unproject db) rid)).1 db'

section paths

variable {db : Database} {rid : RelationshipId} {clocks : Event → Nat} {clock : Nat}

theorem SameProjections.refl (db : Database) : SameProjections db db :=
  .of_alike (.refl everything db)

theorem Replayed.start (db : Database) (rid : RelationshipId) :
    Replayed (unproject db) [] (wipe (unproject db) rid) where
  inputs := ⟨rfl, rfl, rfl⟩
  scope := (Scoped.unproject db).wipe
  threads := rfl
  state _ ht := absurd ht Bool.false_ne_true
  root := .empty
  messages := .empty
  polls := .empty
  pending_refs := .empty

theorem wipe_alike (db : Database) (rid : RelationshipId) :
    Alike everything (unproject db) (wipe (unproject db) rid) :=
  { Alike.refl everything (unproject db) with }

/-- The state of the rebuild after a prefix of the log. -/
theorem replay_prefix (hc : Constrained db) {before after : List Event}
    (hlist : relationshipEvents db rid = before ++ after) :
    replay clock before (wipe (unproject db) rid) =
        .done (before.foldl (replayOne clock) (wipe (unproject db) rid)) ∧
      Replayed (unproject db) before (before.foldl (replayOne clock) (wipe (unproject db) rid)) ∧
      Registered (unproject db) before (before.foldl (replayOne clock) (wipe (unproject db) rid)) := by
  have hlog : ∀ e ∈ [] ++ before, (unproject db).events.find e.event_id = some e := by
    intro e he
    have hmem : e ∈ relationshipEvents db rid := by
      rw [hlist]
      exact List.mem_append_left _ he
    exact (mem_relationshipEvents hmem).1
  have hempty : Registered (unproject db) [] (wipe (unproject db) rid) :=
    fun e he => absurd he List.not_mem_nil
  rw [← List.nil_append before] at hlog
  exact replay_run hc.unproject (Replayed.start db rid) hempty hlog

theorem rejectedMidway_of_events {db' : Database} (h : db'.events = db.events) (ev : Event) :
    rejectedMidway db' ev = rejectedMidway db ev := by
  unfold rejectedMidway repliesAstray targetEvent
  rw [h]

section step

variable {before after : List Event} {ev : Event} {r : Database}

/-- In a traceless log a rejected event leaves nothing in the rebuild: its thread
is registered. -/
theorem reject_traceless (hc : Constrained db) (htraceless : Traceless db rid)
    (hlist : relationshipEvents db rid = before ++ ev :: after)
    (hreplayed : Replayed (unproject db) before r) (hregistered : Registered (unproject db) before r)
    {code : ProjectionCode} {r' : Database}
    (hreject : applyInner r ev (ev.received_at.getD clock) clock = .reject r' code) : r' = r := by
  have hmem : ev ∈ relationshipEvents db rid := by
    rw [hlist]
    exact List.mem_append_right _ List.mem_cons_self
  have hrow := Table.mem_iff_find.mpr (mem_relationshipEvents hmem).1
  have hlog : r.events.find ev.event_id = some ev := by
    rw [hreplayed.inputs.events]
    exact (mem_relationshipEvents hmem).1
  have hfork : forked r ev = false := by
    unfold forked
    rw [hreplayed.inputs.events]
    exact hc.unforked ev hrow
  cases hcode : rejection r ev (ev.received_at.getD clock) with
  | none =>
    obtain ⟨r'', hdone⟩ : ∃ r'', applyInner r ev (ev.received_at.getD clock) clock = .done r'' :=
      applyInner_accepted hreplayed.scope hlog hcode
    rw [hdone] at hreject
    simp [Outcome.done, Outcome.reject] at hreject
  | some code' =>
    obtain ⟨r'', hreject', hleft⟩ :
        ∃ r'', applyInner r ev (ev.received_at.getD clock) clock = .reject r'' code' ∧ Left r ev r'' :=
      applyInner_rejected hreplayed.scope hlog hfork hcode
    rw [hreject'] at hreject
    obtain rfl : r'' = r' := congrArg Prod.fst hreject
    rcases hleft with rfl | ⟨t, -, hmidway, hjoins, rfl⟩
    · rfl
    · have hbase : Joins db ev t := hjoins.of_threads hreplayed.threads
      rw [rejectedMidway_of_events hreplayed.inputs.events] at hmidway
      obtain ⟨hroot, e, he, hopens, hjoins'⟩ := htraceless before ev after t hlist hbase hmidway
      have hstate := hregistered e he hopens t hjoins'
      refine registerThread_self ?_ (fun hregisters => ?_)
      · rw [hreplayed.threads]
        exact hc.threads ev hrow t hjoins.1
      · obtain ⟨row, hrow⟩ := Option.isSome_iff_exists.mp hstate
        unfold Registers at hregisters
        rw [hrow] at hregisters
        exact hroot hregisters.1

theorem projectEvent_alike {d : Database} (hc : Constrained db) (htraceless : Traceless db rid)
    (hlist : relationshipEvents db rid = before ++ ev :: after)
    (hclock : ev.received_at = none → clocks ev = clock)
    (hreplayed : Replayed (unproject db) before r) (hregistered : Registered (unproject db) before r)
    (halike : Alike everything d r) (hs : Scoped d) :
    Alike everything (projectEvent d ev (clocks ev)) (replayOne clock r ev) := by
  have hmem : ev ∈ relationshipEvents db rid := by
    rw [hlist]
    exact List.mem_append_right _ List.mem_cons_self
  have hlog : d.events.find ev.event_id = some ev := by
    rw [← halike.events, hreplayed.inputs.events]
    exact (mem_relationshipEvents hmem).1
  have hnow : ev.received_at.getD (clocks ev) = ev.received_at.getD clock := by
    cases hreceived : ev.received_at with
    | none => exact hclock hreceived
    | some time => rfl
  have hout : Outcome.Alike everything
      (applyInner d ev (ev.received_at.getD (clocks ev)) (clocks ev))
      (applyInner r ev (ev.received_at.getD clock) clock) := by
    rw [hnow]
    exact applyInner_alike halike hs hreplayed.scope (everything_sees d _) (everything_sees r _) hlog
  have hstays : ∀ code r', applyInner r ev (ev.received_at.getD clock) clock = .reject r' code →
      r' = r := fun _ _ => reject_traceless hc htraceless hlist hreplayed hregistered
  have hends : (applyInner d ev (ev.received_at.getD (clocks ev)) (clocks ev)).Ends _ _ :=
    applyInner_ends hs hlog
  unfold projectEvent applyEvent replayOne
  generalize applyInner d ev (ev.received_at.getD (clocks ev)) (clocks ev) = out at hends hout ⊢
  generalize applyInner r ev (ev.received_at.getD clock) clock = out' at hout hstays ⊢
  match out, out', hends, hout with
  | (d', .ok ()), (r', _), _, ⟨rfl, h⟩ => exact h
  | (d', .error _), (r', _), ⟨⟨code, rfl⟩, _⟩, ⟨rfl, _⟩ =>
    obtain rfl := hstays code r' rfl
    exact quarantineEvent_alike halike

end step

/-- A traceless log in the two paths, from a prefix on. -/
theorem projectAll_alike (hc : Constrained db) (htraceless : Traceless db rid)
    (hclock : ∀ ev ∈ relationshipEvents db rid, ev.received_at = none → clocks ev = clock)
    {evs before : List Event} {d r : Database}
    (hlist : relationshipEvents db rid = before ++ evs)
    (hreplayed : Replayed (unproject db) before r) (hregistered : Registered (unproject db) before r)
    (halike : Alike everything d r) (hs : Scoped d) :
    Alike everything (projectAll clocks evs d) (evs.foldl (replayOne clock) r) := by
  induction evs generalizing before d r with
  | nil => exact halike
  | cons ev evs ih =>
    have hassoc : before ++ ev :: evs = (before ++ [ev]) ++ evs := by simp
    have hmem : ev ∈ relationshipEvents db rid := by
      rw [hlist]
      exact List.mem_append_right _ List.mem_cons_self
    have hfirst := projectEvent_alike hc htraceless hlist (hclock ev hmem) hreplayed hregistered
      halike hs
    have hlog : d.events.find ev.event_id = some ev := by
      rw [← halike.events, hreplayed.inputs.events]
      exact (mem_relationshipEvents hmem).1
    have hlogged : ∀ e ∈ before ++ [ev], (unproject db).events.find e.event_id = some e := by
      intro e he
      have hlisted : e ∈ relationshipEvents db rid := by
        rw [hlist, hassoc]
        exact List.mem_append_left _ he
      exact (mem_relationshipEvents hlisted).1
    obtain ⟨-, hreplayed', hregistered'⟩ : replay clock [ev] r = _ ∧ _ :=
      replay_run hc.unproject hreplayed hregistered hlogged
    rw [hassoc] at hlist
    exact ih hlist hreplayed' hregistered' hfirst ((projectEvent_effects hs hlog).scoped hs)

theorem nodup_relationshipEvents (db : Database) (rid : RelationshipId) :
    (relationshipEvents db rid).Nodup := by
  refine (List.perm_insertionSort displayOrder _).nodup_iff.mpr ?_
  exact (List.Nodup.of_map Event.event_id db.events.nodup).filter _

/-- The log has every event once. -/
theorem not_before {before after : List Event} {ev : Event}
    (hlist : relationshipEvents db rid = before ++ ev :: after) :
    ¬ ∃ e ∈ before, e.event_id = ev.event_id := by
  rintro ⟨e, he, hid⟩
  have hnodup := nodup_relationshipEvents db rid
  have hmem : e ∈ relationshipEvents db rid := by
    rw [hlist]
    exact List.mem_append_left _ he
  have hmem' : ev ∈ relationshipEvents db rid := by
    rw [hlist]
    exact List.mem_append_right _ List.mem_cons_self
  have hfind := (mem_relationshipEvents hmem).1
  rw [hid, (mem_relationshipEvents hmem').1] at hfind
  rw [hlist] at hnodup
  exact (List.nodup_append.mp hnodup).2.2 e he ev List.mem_cons_self (Option.some.inj hfind).symm

/-- The receive path and the rebuild leave the same projections, and a rejected
event leaves none in either, exactly when the log is traceless. -/
theorem incremental_eq_rebuild_iff (hc : Constrained db)
    (hclock : ∀ ev ∈ relationshipEvents db rid, ev.received_at = none → clocks ev = clock) :
    Agrees db rid clocks clock ↔ Traceless db rid := by
  constructor
  · intro hagrees before ev after t hlist hjoins hmidway
    obtain ⟨hreplay, hreplayed, -⟩ :
        replay clock before (wipe (unproject db) rid) = _ ∧ _ := replay_prefix hc hlist
    have hrebuild := hagrees.rebuild before ev after hlist
    rw [hreplay] at hrebuild
    dsimp only [Outcome.done] at hrebuild
    generalize before.foldl (replayOne clock) (wipe (unproject db) rid) = r at hreplayed hrebuild
    have hmem : ev ∈ relationshipEvents db rid := by
      rw [hlist]
      exact List.mem_append_right _ List.mem_cons_self
    have hlog : r.events.find ev.event_id = some ev := by
      rw [hreplayed.inputs.events]
      exact (mem_relationshipEvents hmem).1
    have hfresh := not_before hlist
    have hmessage : r.messages.find ev.event_id = none := by
      refine Table.find_eq_none.mpr (fun m hm hid => hfresh ?_)
      rw [← hid]
      exact hreplayed.messages m hm
    have hpoll : r.polls.find ev.event_id = none := by
      refine Table.find_eq_none.mpr (fun p hp hid => hfresh ?_)
      rw [← hid]
      exact hreplayed.polls p hp
    have hjoins' : Joins r ev t := hjoins.of_threads hreplayed.threads.symm
    have hevents : r.events = db.events := hreplayed.inputs.events
    rw [← rejectedMidway_of_events hevents] at hmidway
    obtain ⟨code, hdispatch⟩ : ∃ code, dispatch r ev (ev.received_at.getD clock) =
        .reject (registerThread r ev t) code :=
      dispatch_midway hreplayed.scope hlog hjoins' hmidway hmessage hpoll
    have hreject : applyInner r ev (ev.received_at.getD clock) clock =
        .reject (registerThread r ev t) code := by
      have hfork : forked r ev = false := by
        unfold forked
        rw [hreplayed.inputs.events]
        exact hc.unforked ev (Table.mem_iff_find.mpr (mem_relationshipEvents hmem).1)
      unfold applyInner
      rw [hfork, if_neg Bool.false_ne_true, hdispatch]
      rfl
    have hstate := (hrebuild code _ hreject).thread_state
    obtain ⟨row, hrow, -, hroot⟩ := registerThread_find r ev t
    rw [← hstate] at hrow
    refine ⟨fun hid => ?_, hreplayed.state t (by rw [hrow]; rfl)⟩
    -- The root of a thread is the event of its name, and that one comes only now.
    obtain ⟨i, hi⟩ := Option.ne_none_iff_exists'.mp (hroot hid)
    obtain ⟨hthread, e, he, heid⟩ := hreplayed.root.find hrow i hi
    have hkey : row.thread_id = t := Table.key_of_find hrow
    exact hfresh ⟨e, he, by rw [heid, hthread, hkey, hid]⟩
  · intro htraceless
    obtain ⟨hreplay, -, -⟩ :
        replay clock (relationshipEvents db rid) (wipe (unproject db) rid) = _ ∧ _ :=
      replay_prefix hc (List.append_nil _).symm
    refine ⟨?_, ?_, ?_⟩
    · have halike : Alike everything (projectAll clocks (relationshipEvents db rid) (unproject db))
          ((relationshipEvents db rid).foldl (replayOne clock) (wipe (unproject db) rid)) :=
        projectAll_alike hc htraceless hclock (List.nil_append _).symm (Replayed.start db rid)
          (fun e he => absurd he List.not_mem_nil) (wipe_alike db rid) (Scoped.unproject db)
      have hrebuilt : rebuildProjections (unproject db) rid clock =
          (relationshipEvents db rid).foldl (replayOne clock) (wipe (unproject db) rid) := by
        unfold rebuildProjections
        have hevents : relationshipEvents (unproject db) rid = relationshipEvents db rid := rfl
        rw [hevents, hreplay]
        rfl
      rw [hrebuilt]
      exact .of_alike halike
    · intro before ev after hlist code hrejected
      unfold projectEvent
      generalize applyEvent (projectAll clocks before (unproject db)) ev (clocks ev) = out at hrejected ⊢
      match out, hrejected with
      | (d', _), rfl => exact .of_alike { Alike.refl everything _ with }
    · intro before ev after hlist code db' hreject
      obtain ⟨hreplay, hreplayed, hregistered⟩ :
          replay clock before (wipe (unproject db) rid) = _ ∧ _ := replay_prefix hc hlist
      rw [hreplay] at hreject ⊢
      rw [reject_traceless hc htraceless hlist hreplayed hregistered hreject]
      exact .refl _

end paths

/-! ## Reachable stores meet the constraints -/

section constraints

variable {db db' : Database} {rid : RelationshipId} {now clock : Nat}

theorem Constrained.of_same (h : Constrained db) (hevents : db'.events = db.events)
    (hthreads : ∀ t r, db.threads.find t = some r → db'.threads.find t = some r) : Constrained db' := by
  refine ⟨fun ev hev t ht => ?_, fun ev hev => ?_⟩
  · rw [hevents] at hev
    obtain ⟨r, hr⟩ := Option.isSome_iff_exists.mp (h.threads ev hev t ht)
    exact Option.isSome_iff_exists.mpr ⟨r, hthreads t r hr⟩
  · rw [hevents] at hev
    unfold forked
    rw [hevents]
    exact h.unforked ev hev

/-- The insert checks the constraints, and registers the thread before it. -/
theorem Constrained.append {ev : Event} (h : Constrained db) (happend : db.append ev = some db') :
    Constrained db' := by
  unfold Database.append at happend
  split_ifs at happend with hclash
  obtain ⟨events, hevents, rfl⟩ := Option.map_eq_some_iff.mp happend
  have hnew : ∀ e ∈ db.events.rows, ¬ (e.relationship_id = ev.relationship_id ∧
      e.sender = ev.sender ∧ e.sender_seq = ev.sender_seq) := by
    intro e he hsame
    refine hclash (Bool.or_eq_true_iff.mpr (Or.inr (List.any_eq_true.mpr ⟨e, he, ?_⟩)))
    exact decide_eq_true hsame
  have hold : ∀ t, (db.threads.find t).isSome → ((ev.thread_id.elim db.threads
      (fun thread_id => db.threads.insertOrIgnore ⟨thread_id, ev.conversation_id⟩)).find t).isSome := by
    intro t ht
    cases ev.thread_id with
    | none => exact ht
    | some thread_id =>
      show ((db.threads.insertOrIgnore _).find t).isSome
      rw [Table.find_insertOrIgnore]
      split_ifs
      · rfl
      · exact ht
  refine ⟨fun e he t ht => ?_, fun e he => ?_⟩
  · rcases (Table.mem_of_insert hevents).mp he with hmem | rfl
    · exact hold t (h.threads e hmem t ht)
    · rw [ht]
      show ((db.threads.insertOrIgnore _).find t).isSome
      rw [Table.find_insertOrIgnore, if_pos rfl]
      rfl
  · refine Bool.not_eq_true _ ▸ fun hfork => ?_
    obtain ⟨e', he', hclash'⟩ := List.any_eq_true.mp hfork
    obtain ⟨hrel, hsender, hseq, hid⟩ := of_decide_eq_true hclash'
    rcases (Table.mem_of_insert hevents).mp he with hmem | rfl
    · rcases (Table.mem_of_insert hevents).mp he' with hmem' | rfl
      · have hunforked := h.unforked e hmem
        rw [← Bool.not_eq_true] at hunforked
        exact hunforked (List.any_eq_true.mpr ⟨e', hmem', hclash'⟩)
      · exact hnew e hmem ⟨hrel.symm, hsender.symm, hseq.symm⟩
    · rcases (Table.mem_of_insert hevents).mp he' with hmem' | rfl
      · exact hnew e' hmem' ⟨hrel, hsender, hseq⟩
      · exact hid rfl

theorem Constrained.kept : Kept Constrained where
  initial := ⟨fun _ hev => absurd hev List.not_mem_nil, fun _ hev => absurd hev List.not_mem_nil⟩
  inputs _ _ h := h.of_same rfl (fun _ _ hr => hr)
  append _ h happend := h.append happend
  effect _ h heffect := h.of_same heffect.sameInputs.events (fun _ _ hr => heffect.threads hr)
  wipe _ _ h := h.of_same rfl (fun _ _ hr => hr)
  expire _ _ _ h := h.of_same rfl (fun _ _ hr => hr)

theorem reachable_constrained {s : Node} (h : machine.Reachable s) : Constrained s.db :=
  Constrained.kept.reachable h

end constraints

/-! ### A poll that closes before it opens -/

/-- A poll of the peer `2` that is closed when it is created, the first event of
its thread. -/
def closedPoll : Event :=
  ⟨1, 1, 1, some 7, 2, 1, 10, 1, .pollCreated "?" ["a", "b"] 10 false, none, some 11⟩

/-- The relationship with the peer, and the poll received. -/
def closedPollRun : List Act := [.pair 1 2, .receive closedPoll 11]

theorem closedPoll_run : ∃ s, machine.Reachable s ∧ s.db.events.rows = [closedPoll] ∧
    ((rebuildProjections (unproject s.db) 1 0).thread_state.find 7).isSome = true ∧
    ((projectAll (fun _ => 0) (relationshipEvents s.db 1) (unproject s.db)).thread_state.find 7).isSome =
      false := by
  have hrun : (machine.run ⟨{}, [1]⟩ closedPollRun).map (fun s => (s.db.events.rows,
      ((rebuildProjections (unproject s.db) 1 0).thread_state.find 7).isSome,
      ((projectAll (fun _ => 0) (relationshipEvents s.db 1)
        (unproject s.db)).thread_state.find 7).isSome)) = some ([closedPoll], true, false) := by
    decide +kernel
  obtain ⟨s, hs, heq⟩ := Option.map_eq_some_iff.mp hrun
  obtain ⟨hevents, hrest⟩ := Prod.mk.inj heq
  obtain ⟨hrebuilt, hprojected⟩ := Prod.mk.inj hrest
  exact ⟨s, Machine.reachable_of_run ⟨rfl, List.cons_ne_nil _ _⟩ hs, hevents, hrebuilt, hprojected⟩

/-- The theorem on the log of the poll. -/
theorem incremental_eq_rebuild_closed_poll : ∃ s, machine.Reachable s ∧ Constrained s.db ∧
    (∀ ev ∈ relationshipEvents s.db 1, ev.received_at = none → (fun _ => 0) ev = 0) ∧
    (Agrees s.db 1 (fun _ => 0) 0 ↔ Traceless s.db 1) := by
  obtain ⟨s, hreach, -⟩ := closedPoll_run
  exact ⟨s, hreach, reachable_constrained hreach, fun _ _ _ => rfl,
    incremental_eq_rebuild_iff (reachable_constrained hreach) (fun _ _ _ => rfl)⟩

/-- The rebuild keeps the thread of the poll, which the receive path rolled back. -/
theorem closed_poll_leaves_thread : ∃ s, machine.Reachable s ∧ ¬ Agrees s.db 1 (fun _ => 0) 0 := by
  obtain ⟨s, hreach, -, hrebuilt, hprojected⟩ := closedPoll_run
  refine ⟨s, hreach, fun hagrees => ?_⟩
  rw [hagrees.same.thread_state, hrebuilt] at hprojected
  exact absurd hprojected (by decide)

end MuseAgentSocial.Store
