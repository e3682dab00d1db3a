import MuseAgentSocial.Scheduler.Lifecycle

/-!
# A cancel against `run_due`

`cancel` reads the state of the row before its own transaction, and its update
is guarded by that state.  Any number of processes execute `run_due`, send and
cancel in between.

* `cancelRead` and `cancelUpdate` are the two halves of `cancel`.
* `Canceler` is a process that sends a `delivery.canceled`: the event is
  persisted first, then the row is canceled, and after a release a
  `message.retracted` of the inner event is sent.
* `CleanLoss` is the property: each command that got through reports what
  happened to the row, and its signed events are in the queue.
* A release between the two halves makes `cancel` raise
  `InvalidSchedulerTransition`, which is not the error of a released row.
  `cancel_loses_cleanly_iff` shows that this is the only way to lose uncleanly.
-/

namespace MuseAgentSocial.Scheduler

open Policy Model Transports Sqlite

/-! ## `cancel` -/

/-- The codes of the errors that `cancel` raises. -/
inductive CancelError where
  | unknown_scheduled_id
  | already_released
  | invalid_transition
  deriving DecidableEq, Repr

/-- `cancel` after its read: `none` goes on to the update. -/
def cancelRead (state : Option SchedState) : Option (Except CancelError Unit) :=
  match state with
  | none => some (.error .unknown_scheduled_id)
  | some .scheduled => none
  | some .canceled => some (.ok ())
  | some .released => some (.error .already_released)
  | some .expired | some .dead => some (.error .invalid_transition)

/-- The transaction of `cancel`. -/
def cancelUpdate (s : Store) (sid : EventId) : Store × Except CancelError Unit :=
  match leaveScheduledStmt sid .canceled s with
  | .ok (s', 1) => (s', .ok ())
  | _ => (s, .error .invalid_transition)

/-! ## The command -/

/-- `cancel_outcome`. -/
inductive CancelOutcome where
  | canceled
  | already_released_retracted (retraction : EventId)
  | already_released_retraction_failed
  /-- The code of another `SchedulerError`. -/
  | code (error : CancelError)
  deriving DecidableEq, Repr

/-- A `delivery.canceled` that is sent. -/
structure Cancellation where
  event_id : EventId
  relationship_id : RelationshipId
  scheduled_event_id : EventId
  deriving DecidableEq, Repr

/-- The event as a cancellation, if it is one. -/
def Outgoing.cancellation (o : Outgoing) : Option Cancellation :=
  match o.payload with
  | .delivery_canceled sid => some ⟨o.event_id, o.relationship_id, sid⟩
  | _ => none

variable {o : Outgoing} {own : Cancellation} {s s' : Store} {sid : EventId} {now : Nat}

theorem event_id_of_cancellation (h : o.cancellation = some own) : o.event_id = own.event_id := by
  unfold Outgoing.cancellation at h
  split at h <;> simp_all
  subst h
  rfl

/-- A process that sends a `delivery.canceled` for a row. -/
inductive Canceler where
  | idle
  /-- The event is persisted. -/
  | announced (own : Cancellation)
  /-- `cancel` found the row scheduled. -/
  | holding (own : Cancellation)
  /-- `cancel` raised `AlreadyReleasedError`. -/
  | late (own : Cancellation)
  | done (own : Cancellation) (outcome : CancelOutcome)
  deriving DecidableEq, Repr

/-- The branches of the command on the result of `cancel`. -/
def afterCancel (own : Cancellation) : Except CancelError Unit → Canceler
  | .ok () => .done own .canceled
  | .error .already_released => .late own
  | .error error => .done own (.code error)

/-- `inner_event_id` of a staged payload. -/
def OutgoingPayload.inner_event_id : OutgoingPayload → Option EventId
  | .delivery_scheduled inner_event_id => some inner_event_id
  | _ => none

/-- The event that the announcement of a row is about; without one it is the row's own. -/
def Store.innerEvent (s : Store) (sid : EventId) : EventId :=
  ((s.events.find sid).bind (·.payload.inner_event_id)).getD sid

/-- The `message.retracted` that the command sends after a release. -/
def retraction (s : Store) (own : Cancellation) (event_id : EventId) (sealed_bytes : Blob) : Outgoing where
  event_id
  relationship_id := own.relationship_id
  payload := .message_retracted (s.innerEvent own.scheduled_event_id)
  sealed_bytes

/-- The processes that execute `run_due` with the store, and those that cancel. -/
structure Race where
  world : World := {}
  cancelers : Nat → Canceler := fun _ => .idle

/-- One transaction, or one read outside of it. -/
inductive RaceAct where
  /-- A step of `run_due`, a send or another cancel. -/
  | other (act : Action)
  /-- `_send_event` persists the `delivery.canceled`. -/
  | announce (c : Nat) (event : Outgoing) (now : Nat)
  | read (c : Nat)
  | update (c : Nat)
  /-- `_send_event` of the retraction, with the id and the bytes it gets; without them it
  raised before it persisted an event. -/
  | retract (c : Nat) (sent : Option (EventId × Blob)) (now : Nat)
  /-- The process dies, or ends with an exception of the database. -/
  | stop (c : Nat)

/-- The row of an id. -/
def Race.row (r : Race) (sid : EventId) : Option ScheduledRow := r.world.store.scheduler_queue.find sid

/-- A store and the stage of one process. -/
def Race.put (r : Race) (c : Nat) (store : Store) (stage : Canceler) : Race where
  world := { r.world with store }
  cancelers := Function.update r.cancelers c stage

/-- The retraction is persisted, or the command reports that it is not. -/
def Race.retract (r : Race) (c : Nat) (own : Cancellation) (sent : Option (EventId × Blob)) (now : Nat) : Race :=
  match sent.bind (fun (id, bytes) =>
    (persistOutgoing r.world.store (retraction r.world.store own id bytes) now).map (fun s => (id, s))) with
  | none => r.put c r.world.store (.done own .already_released_retraction_failed)
  | some (id, s) => r.put c s (.done own (.already_released_retracted id))

/-- One step. -/
def Race.step (r : Race) : RaceAct → Option Race
  | .other act => (Scheduler.step r.world act).map (fun w => { r with world := w })
  | .announce c event now =>
    match r.cancelers c, event.cancellation with
    | .idle, some own => (persistOutgoing r.world.store event now).map (fun s => r.put c s (.announced own))
    | _, _ => none
  | .read c =>
    match r.cancelers c with
    | .announced own =>
      match cancelRead ((r.row own.scheduled_event_id).map (·.state)) with
      | none => some (r.put c r.world.store (.holding own))
      | some result => some (r.put c r.world.store (afterCancel own result))
    | _ => none
  | .update c =>
    match r.cancelers c with
    | .holding own =>
      let out := cancelUpdate r.world.store own.scheduled_event_id
      some (r.put c out.1 (afterCancel own out.2))
    | _ => none
  | .retract c sent now =>
    match r.cancelers c with
    | .late own => some (r.retract c own sent now)
    | _ => none
  | .stop c => some (r.put c r.world.store .idle)

/-- The processes over any store, before the first cancel. -/
def race : Machine Race RaceAct where
  init r := ∀ c, r.cancelers c = .idle
  step := Race.step

/-! ## The property -/

/-- The signed event is persisted and in the queue. -/
def Queued (s : Store) (event_id : EventId) : Prop :=
  (s.events.find event_id).isSome = true ∧ (s.scheduler_queue.find event_id).isSome = true

/-- The event retracts what the row has delivered. -/
def Retracts (s : Store) (event_id sid : EventId) : Prop :=
  (s.events.find event_id).map (·.payload) = some (.message_retracted (s.innerEvent sid))

/-- The state of a row. -/
def Store.stateOf (s : Store) (sid : EventId) : Option SchedState := (s.scheduler_queue.find sid).map (·.state)

/-- What the report says of the row. -/
def agrees (s : Store) (sid : EventId) : CancelOutcome → Prop
  | .canceled => s.stateOf sid = some .canceled
  | .already_released_retracted retraction =>
    s.stateOf sid = some .released ∧ Queued s retraction ∧ Retracts s retraction sid
  | .already_released_retraction_failed => s.stateOf sid = some .released
  -- An unknown id says nothing of a row that is stored later.
  | .code error => error = .unknown_scheduled_id ∨ s.stateOf sid ≠ some .released

/-- What holds at a stage of a command. -/
def Canceler.Clean (s : Store) : Canceler → Prop
  | .idle => True
  | .announced own | .holding own => Queued s own.event_id
  | .late own => Queued s own.event_id ∧ s.stateOf own.scheduled_event_id = some .released
  | .done own outcome => Queued s own.event_id ∧ agrees s own.scheduled_event_id outcome

/-- Every command reports the one of the two that took effect, `released` as the
already-released outcome, and its signed events are in the queue. -/
def CleanLoss (r : Race) : Prop := ∀ c, (r.cancelers c).Clean r.world.store

/-- The condition on a step: no update of a cancel comes after a release that came
after the read. -/
def inTime (r : Race) : RaceAct → Bool
  | .update c =>
    match r.cancelers c with
    | .holding own => (r.row own.scheduled_event_id).map (·.state) ≠ some .released
    | _ => true
  | _ => true

/-- The condition as a proposition. -/
def InTime (r : Race) (act : RaceAct) : Prop := inTime r act = true

instance (r : Race) (act : RaceAct) : Decidable (InTime r act) :=
  inferInstanceAs (Decidable (_ = true))

/-! ## What the other steps keep -/

/-- Rows stay, and a row that has left `scheduled` keeps its state. -/
def Settles (s s' : Store) : Prop :=
  ∀ sid row, s.scheduler_queue.find sid = some row →
    ∃ row', s'.scheduler_queue.find sid = some row' ∧ (row.state ≠ .scheduled → row'.state = row.state)

theorem Settles.refl (s : Store) : Settles s s := fun _ row h => ⟨row, h, fun _ => rfl⟩

theorem Settles.trans {s₁ s₂ s₃ : Store} (h : Settles s₁ s₂) (h' : Settles s₂ s₃) : Settles s₁ s₃ := by
  intro sid row hrow
  obtain ⟨row', hrow', hstate⟩ := h sid row hrow
  obtain ⟨row'', hrow'', hstate'⟩ := h' sid row' hrow'
  refine ⟨row'', hrow'', fun hne => ?_⟩
  have heq := hstate hne
  rw [hstate' (by rw [heq]; exact hne), heq]

/-- Tables other than the queue do not count. -/
theorem Settles.of_queue (hqueue : s'.scheduler_queue = s.scheduler_queue) : Settles s s' :=
  fun _ row hrow => ⟨row, hqueue ▸ hrow, fun _ => rfl⟩

theorem Settles.isSome (h : Settles s s')
    (hsid : (s.scheduler_queue.find sid).isSome = true) : (s'.scheduler_queue.find sid).isSome = true := by
  obtain ⟨row, hrow⟩ := Option.isSome_iff_exists.mp hsid
  obtain ⟨row', hrow', -⟩ := h sid row hrow
  rw [hrow']
  rfl

theorem Settles.state (h : Settles s s') {state : SchedState}
    (hstate : s.stateOf sid = some state)
    (hne : state ≠ .scheduled) : s'.stateOf sid = some state := by
  obtain ⟨row, hrow, rfl⟩ := Option.map_eq_some_iff.mp hstate
  obtain ⟨row', hrow', hkept⟩ := h sid row hrow
  rw [Store.stateOf, hrow', Option.map_some, hkept hne]

theorem settles_leaveScheduled (s : Store) (sid : EventId) (next : SchedState) :
    Settles s (s.leaveScheduled sid next) := by
  intro k row hrow
  rw [find_leaveScheduled]
  split_ifs with hk
  · subst hk
    rw [hrow]
    refine ⟨_, rfl, fun hne => ?_⟩
    show (if row.state = .scheduled then { row with state := next } else row).state = row.state
    rw [if_neg hne]
  · exact ⟨row, hrow, fun _ => rfl⟩

theorem settles_countFailure (s : Store) (sid : EventId) : Settles s (s.countFailure sid) := by
  intro k row hrow
  rw [find_countFailure]
  split_ifs with hk
  · subst hk
    rw [hrow]
    exact ⟨_, rfl, fun _ => rfl⟩
  · exact ⟨row, hrow, fun _ => rfl⟩

/-- What a step does: the event of a row stays as it is, too. -/
structure Moves (s s' : Store) : Prop where
  settles : Settles s s'
  events : ∀ e, (s.scheduler_queue.find e).isSome = true → s'.events.find e = s.events.find e

theorem Moves.refl (s : Store) : Moves s s := ⟨.refl s, fun _ _ => rfl⟩

theorem Moves.trans {s₁ s₂ s₃ : Store} (h : Moves s₁ s₂) (h' : Moves s₂ s₃) : Moves s₁ s₃ :=
  ⟨h.settles.trans h'.settles, fun e he => by rw [h'.events e (h.settles.isSome he), h.events e he]⟩

theorem Settles.moves (h : Settles s s') (hevents : s'.events = s.events) : Moves s s' :=
  ⟨h, fun _ _ => by rw [hevents]⟩

theorem Moves.of_tables (hqueue : s'.scheduler_queue = s.scheduler_queue)
    (hevents : s'.events = s.events) : Moves s s' := (Settles.of_queue hqueue).moves hevents

theorem moves_leaveScheduled (s : Store) (sid : EventId) (next : SchedState) :
    Moves s (s.leaveScheduled sid next) := (settles_leaveScheduled s sid next).moves rfl

theorem moves_countFailure (s : Store) (sid : EventId) : Moves s (s.countFailure sid) :=
  (settles_countFailure s sid).moves rfl

theorem ReleaseEffect.moves {row : ScheduledRow} (h : ReleaseEffect s row now s') : Moves s s' := by
  cases h with
  | unchanged => exact .refl s
  | released => exact moves_leaveScheduled _ _ _
  | expired => exact moves_leaveScheduled _ _ _
  | restored => exact (moves_leaveScheduled _ _ _).trans (Moves.of_tables rfl rfl)

theorem RecordEffect.moves (h : RecordEffect s sid now s') : Moves s s' := by
  cases h with
  | unchanged => exact .refl s
  | counted => exact moves_countFailure _ _
  | dead => exact (moves_countFailure _ _).trans (moves_leaveScheduled _ _ _)
  | restored => exact ((moves_countFailure _ _).trans (moves_leaveScheduled _ _ _)).trans (Moves.of_tables rfl rfl)

theorem persistOutgoing_tables (h : persistOutgoing s o now = some s') :
    s.scheduler_queue.find o.event_id = none ∧
      (∀ e, s'.events.find e =
        if e = o.event_id then some ⟨o.event_id, o.relationship_id, o.payload⟩ else s.events.find e) ∧
      ∃ row, ∀ sid, s'.scheduler_queue.find sid = if sid = o.event_id then some row else s.scheduler_queue.find sid := by
  simp only [persistOutgoing, Option.bind_eq_bind, Option.bind_eq_some_iff, Option.some.injEq] at h
  obtain ⟨approvals, -, events, hevents, queue, hqueue, rfl⟩ := h
  exact ⟨(Table.insert_eq_some hqueue).1, Table.find_of_insert hevents, _, Table.find_of_insert hqueue⟩

/-- A send keeps what is there. -/
theorem persistOutgoing_moves (h : persistOutgoing s o now = some s') : Moves s s' := by
  obtain ⟨hnone, hevents, row, hqueue⟩ := persistOutgoing_tables h
  have hother : ∀ sid, (s.scheduler_queue.find sid).isSome = true → sid ≠ o.event_id := by
    rintro sid hsid rfl
    rw [hnone] at hsid
    cases hsid
  refine ⟨fun sid row' hrow => ⟨row', ?_, fun _ => rfl⟩, fun e he => ?_⟩
  · rw [hqueue, if_neg (hother sid (by rw [hrow]; rfl))]
    exact hrow
  · rw [hevents, if_neg (hother e he)]

theorem persistOutgoing_queued (h : persistOutgoing s o now = some s') : Queued s' o.event_id := by
  obtain ⟨-, hevents, row, hqueue⟩ := persistOutgoing_tables h
  constructor
  · rw [hevents, if_pos rfl]
    rfl
  · rw [hqueue, if_pos rfl]
    rfl

/-- Every step of the other processes keeps the events and the final states. -/
theorem step_moves {w w' : World} {act : Action} (h : Scheduler.step w act = some w') :
    Moves w.store w'.store := by
  cases act with
  | createApproval record =>
    simp only [Scheduler.step] at h
    split_ifs at h
    obtain ⟨t, -, rfl⟩ := Option.map_eq_some_iff.mp h
    exact Moves.of_tables rfl rfl
  | send event now =>
    obtain ⟨s', hs', rfl⟩ := Option.map_eq_some_iff.mp h
    exact persistOutgoing_moves hs'
  | cancel sid =>
    obtain rfl := Option.some.inj h
    exact moves_leaveScheduled _ _ _
  | startRun p now =>
    cases hp : w.procs p <;> simp only [Scheduler.step, hp, reduceCtorEq] at h
    obtain rfl := Option.some.inj h
    exact .refl _
  | release p commits reply =>
    cases hp : w.procs p with
    | releasing now rows =>
      cases rows with
      | nil => simp [Scheduler.step, hp] at h
      | cons row rest =>
        simp only [Scheduler.step, hp, Option.some.injEq] at h
        have heffect := (releaseOneRow_effect w.store now commits reply row).moves
        subst h
        unfold World.release
        dsimp only
        split <;> exact heffect
    | _ => simp [Scheduler.step, hp] at h
  | record p utcnow =>
    cases hp : w.procs p <;> simp only [Scheduler.step, hp, reduceCtorEq] at h
    obtain rfl := Option.some.inj h
    rename_i now sid rest
    have heffect := (recordReleaseFailure_effect w.store sid utcnow).moves
    unfold World.record
    dsimp only
    split <;> exact heffect
  | finish p =>
    cases hp : w.procs p with
    | releasing now rows =>
      cases rows with
      | nil =>
        simp only [Scheduler.step, hp, Option.some.injEq] at h
        subst h
        exact .refl _
      | cons row rest => simp [Scheduler.step, hp] at h
    | _ => simp [Scheduler.step, hp] at h
  | crash p =>
    obtain rfl := Option.some.inj h
    exact .refl _

theorem Moves.queued (h : Moves s s') {e : EventId} (hq : Queued s e) : Queued s' e := by
  refine ⟨?_, h.settles.isSome hq.2⟩
  rw [h.events e hq.2]
  exact hq.1

/-- The announcement of a row stays, so what the row is about stays. -/
theorem Moves.innerEvent (h : Moves s s')
    (hsid : (s.scheduler_queue.find sid).isSome = true) : s'.innerEvent sid = s.innerEvent sid := by
  rw [Store.innerEvent, Store.innerEvent, h.events sid hsid]

theorem Moves.retracts (h : Moves s s') {e : EventId} (hq : Queued s e)
    (hsid : (s.scheduler_queue.find sid).isSome = true)
    (hr : Retracts s e sid) : Retracts s' e sid := by
  rw [Retracts, h.events e hq.2, h.innerEvent hsid]
  exact hr

theorem isSome_of_stateOf {state : SchedState} (h : s.stateOf sid = some state) :
    (s.scheduler_queue.find sid).isSome = true := by
  obtain ⟨row, hrow, -⟩ := Option.map_eq_some_iff.mp h
  rw [hrow]
  rfl

/-- The retraction of a row that is there, once it is sent. -/
theorem retracts_persistOutgoing {id : EventId} {bytes : Blob}
    (h : persistOutgoing s (retraction s own id bytes) now = some s')
    (hsid : (s.scheduler_queue.find own.scheduled_event_id).isSome = true) :
    Retracts s' id own.scheduled_event_id := by
  have hinner := (persistOutgoing_moves h).innerEvent hsid
  obtain ⟨-, hevents, -⟩ := persistOutgoing_tables h
  have hevent : s'.events.find id = some ⟨id, own.relationship_id, (retraction s own id bytes).payload⟩ :=
    (hevents id).trans (if_pos rfl)
  rw [Retracts, hinner, hevent]
  rfl

/-! ## The invariant -/

/-- A stage that reports what happened, and whose row is still there. -/
structure Canceler.Sound (s : Store) (stage : Canceler) : Prop where
  clean : stage.Clean s
  held : ∀ own, stage = .holding own → (s.scheduler_queue.find own.scheduled_event_id).isSome = true
  ended : ∀ own error, stage = .done own (.code error) → error ≠ .unknown_scheduled_id →
    ∃ state, s.stateOf own.scheduled_event_id = some state ∧ state ≠ .scheduled

variable {stage : Canceler} {r : Race}

theorem Moves.sound (h : Moves s s') (hs : stage.Sound s) :
    stage.Sound s' where
  clean := by
    have hclean := hs.clean
    cases stage with
    | idle => trivial
    | announced own => exact h.queued hclean
    | holding own => exact h.queued hclean
    | late own => exact ⟨h.queued hclean.1, h.settles.state hclean.2 (by decide)⟩
    | done own outcome =>
      refine ⟨h.queued hclean.1, ?_⟩
      have hagrees := hclean.2
      cases outcome with
      | canceled => exact h.settles.state hagrees (by decide)
      | already_released_retracted id =>
        obtain ⟨hstate, hqueued, hretracts⟩ := hagrees
        exact ⟨h.settles.state hstate (by decide), h.queued hqueued,
          h.retracts hqueued (isSome_of_stateOf hstate) hretracts⟩
      | already_released_retraction_failed => exact h.settles.state hagrees (by decide)
      | code error =>
        rcases hagrees with hunknown | -
        · exact Or.inl hunknown
        · by_cases herror : error = .unknown_scheduled_id
          · exact Or.inl herror
          · obtain ⟨state, hstate, hne⟩ := hs.ended own error rfl herror
            have hnot := hclean.2.resolve_left herror
            rw [hstate] at hnot
            exact Or.inr (by rw [h.settles.state hstate hne]; exact hnot)
  held own hstage := h.settles.isSome (hs.held own hstage)
  ended own error hstage hne := by
    obtain ⟨state, hstate, hfinal⟩ := hs.ended own error hstage hne
    exact ⟨state, h.settles.state hstate hfinal, hfinal⟩

/-- Every command is at a sound stage. -/
def Race.Sound (r : Race) : Prop := ∀ c, (r.cancelers c).Sound r.world.store

theorem Race.Sound.put (h : r.Sound) {c : Nat} {store : Store}
    (hstore : Moves r.world.store store)
    (hstage : stage.Sound store) : (r.put c store stage).Sound := by
  intro c'
  show (Function.update r.cancelers c stage c').Sound store
  by_cases hc : c' = c
  · subst hc
    rw [Function.update_self]
    exact hstage
  · rw [Function.update_of_ne hc]
    exact hstore.sound (h c')

theorem sound_of_clean (hclean : stage.Clean s) (hheld : ∀ own, stage ≠ .holding own)
    (hcode : ∀ own error, stage ≠ .done own (.code error)) : stage.Sound s :=
  ⟨hclean, fun own h => absurd h (hheld own), fun own error h => absurd h (hcode own error)⟩

theorem sound_idle (s : Store) : Canceler.idle.Sound s := sound_of_clean trivial (by simp) (by simp)

theorem sound_invalid {state : SchedState} (hqueued : Queued s own.event_id)
    (hstate : s.stateOf own.scheduled_event_id = some state) (hfinal : state ≠ .scheduled)
    (hreleased : state ≠ .released) : (Canceler.done own (.code .invalid_transition)).Sound s where
  clean := ⟨hqueued, Or.inr (by rw [hstate]; simpa using hreleased)⟩
  held _ h := by cases h
  ended own' error h _ := by
    cases h
    exact ⟨state, hstate, hfinal⟩

theorem sound_read (hqueued : Queued s own.event_id) :
    match cancelRead (s.stateOf own.scheduled_event_id) with
    | none => (Canceler.holding own).Sound s
    | some result => (afterCancel own result).Sound s := by
  cases hstate : s.stateOf own.scheduled_event_id with
  | none =>
    refine ⟨⟨hqueued, Or.inl rfl⟩, by simp [afterCancel], fun own' error h hne => ?_⟩
    cases h
    exact absurd rfl hne
  | some state =>
    cases state with
    | scheduled =>
      refine ⟨hqueued, fun own' h => ?_, by simp⟩
      cases h
      exact isSome_of_stateOf hstate
    | released => exact sound_of_clean ⟨hqueued, hstate⟩ (by simp [afterCancel]) (by simp [afterCancel])
    | canceled => exact sound_of_clean ⟨hqueued, hstate⟩ (by simp [afterCancel]) (by simp [afterCancel])
    | expired => exact sound_invalid hqueued hstate (by decide) (by decide)
    | dead => exact sound_invalid hqueued hstate (by decide) (by decide)

theorem cancelUpdate_cases {row : ScheduledRow} (hrow : s.scheduler_queue.find sid = some row) :
    (row.state = .scheduled ∧ cancelUpdate s sid = (s.leaveScheduled sid .canceled, .ok ())) ∨
      (row.state ≠ .scheduled ∧ cancelUpdate s sid = (s, .error .invalid_transition)) := by
  by_cases hstate : row.state = .scheduled
  · simp [cancelUpdate, leaveScheduledStmt, hrow, hstate]
  · simp [cancelUpdate, leaveScheduledStmt, hrow, hstate]

theorem state_canceled {row : ScheduledRow} (hrow : s.scheduler_queue.find sid = some row)
    (hstate : row.state = .scheduled) :
    (s.leaveScheduled sid .canceled).stateOf sid = some .canceled := by
  rw [Store.stateOf, find_leaveScheduled, if_pos rfl, hrow]
  simp [hstate]

theorem Race.Sound.step {r' : Race} (h : r.Sound) {act : RaceAct} (hok : InTime r act)
    (hst : r.step act = some r') : r'.Sound := by
  cases act with
  | other act =>
    obtain ⟨w, hw, rfl⟩ := Option.map_eq_some_iff.mp hst
    exact fun c => (step_moves hw).sound (h c)
  | announce c event now =>
    cases hc : r.cancelers c <;> simp only [Race.step, hc, reduceCtorEq] at hst
    cases hown : event.cancellation <;> simp only [hown, reduceCtorEq] at hst
    rename_i own
    obtain ⟨s, hs, rfl⟩ := Option.map_eq_some_iff.mp hst
    have hqueued : Queued s own.event_id := event_id_of_cancellation hown ▸ persistOutgoing_queued hs
    exact h.put (persistOutgoing_moves hs) (sound_of_clean hqueued (by simp) (by simp))
  | read c =>
    cases hc : r.cancelers c <;> simp only [Race.step, hc, reduceCtorEq] at hst
    rename_i own
    have hclean := (h c).clean
    rw [hc] at hclean
    have hread := sound_read hclean
    unfold Race.row at hst
    cases hresult : cancelRead (r.world.store.stateOf own.scheduled_event_id) with
    | none =>
      rw [hresult] at hread
      rw [Store.stateOf] at hresult
      rw [hresult] at hst
      obtain rfl := Option.some.inj hst
      exact h.put (.refl _) hread
    | some result =>
      rw [hresult] at hread
      rw [Store.stateOf] at hresult
      rw [hresult] at hst
      obtain rfl := Option.some.inj hst
      exact h.put (.refl _) hread
  | update c =>
    cases hc : r.cancelers c <;> simp only [Race.step, hc, reduceCtorEq] at hst
    rename_i own
    obtain rfl := Option.some.inj hst
    have hsound := h c
    rw [hc] at hsound
    obtain ⟨row, hrow⟩ := Option.isSome_iff_exists.mp (hsound.held own rfl)
    have hclean : Queued r.world.store own.event_id := hsound.clean
    rcases cancelUpdate_cases hrow with ⟨hstate, hupdate⟩ | ⟨hstate, hupdate⟩
    · rw [hupdate]
      have hmoves := moves_leaveScheduled r.world.store own.scheduled_event_id .canceled
      refine h.put hmoves (sound_of_clean ⟨hmoves.queued hclean, ?_⟩ (by simp [afterCancel]) (by simp [afterCancel]))
      exact state_canceled hrow hstate
    · rw [hupdate]
      have hnot : row.state ≠ .released := by
        simpa [InTime, inTime, hc, Race.row, hrow] using hok
      exact h.put (.refl _) (sound_invalid hclean (by rw [Store.stateOf, hrow]; rfl) hstate hnot)
  | retract c sent now =>
    cases hc : r.cancelers c <;> simp only [Race.step, hc, reduceCtorEq] at hst
    rename_i own
    obtain rfl := Option.some.inj hst
    have hclean := (h c).clean
    rw [hc] at hclean
    unfold Race.retract
    split
    · exact h.put (.refl _) (sound_of_clean ⟨hclean.1, hclean.2⟩ (by simp) (by simp))
    · rename_i id s hsent
      obtain ⟨o, -, hpersist⟩ := Option.bind_eq_some_iff.mp hsent
      obtain ⟨s', hs, heq⟩ := Option.map_eq_some_iff.mp hpersist
      obtain ⟨rfl, rfl⟩ := Prod.mk.inj heq
      have hmoves := persistOutgoing_moves hs
      have hretracts := retracts_persistOutgoing hs (isSome_of_stateOf hclean.2)
      refine h.put hmoves (sound_of_clean ⟨hmoves.queued hclean.1, ?_, persistOutgoing_queued hs, hretracts⟩
        (by simp) (by simp))
      exact hmoves.settles.state hclean.2 (by decide)
  | stop c =>
    obtain rfl := Option.some.inj hst
    exact h.put (.refl _) (sound_idle _)

/-- An update that comes too late reports another outcome than the release. -/
theorem inTime_of_cleanLoss {r' : Race} (h : r.Sound) {act : RaceAct} (hst : r.step act = some r')
    (hclean : CleanLoss r') : InTime r act := by
  cases act with
  | update c =>
    cases hc : r.cancelers c <;> simp only [Race.step, hc, reduceCtorEq] at hst
    rename_i own
    obtain rfl := Option.some.inj hst
    have hsound := h c
    rw [hc] at hsound
    obtain ⟨row, hrow⟩ := Option.isSome_iff_exists.mp (hsound.held own rfl)
    have hafter := hclean c
    by_cases hreleased : row.state = .released
    · rcases cancelUpdate_cases hrow with ⟨hstate, -⟩ | ⟨-, hupdate⟩
      · rw [hstate] at hreleased
        cases hreleased
      · rw [hupdate] at hafter
        simp only [Race.put, Function.update_self, afterCancel, Canceler.Clean, agrees, Store.stateOf, hrow,
          Option.map_some, hreleased] at hafter
        simp at hafter
    · simpa [InTime, inTime, hc, Race.row, hrow] using hreleased
  | _ => rfl

/-- Along a run every cancel loses cleanly exactly when no update of a cancel comes after a
release that came after its read. -/
theorem cancel_loses_cleanly_iff {r₀ r : Race} (hinit : race.init r₀) {acts : List RaceAct}
    (hrun : race.run r₀ acts = some r) :
    (∀ k u, race.run r₀ (acts.take k) = some u → CleanLoss u) ↔ race.okRun InTime r₀ acts := by
  have hsound : r₀.Sound := by
    intro c
    rw [hinit c]
    exact sound_idle _
  exact Machine.always_iff_okRun (I := Race.Sound) (fun u hu c => (hu c).clean)
    (fun u act v hu hok hst => hu.step hok hst) (fun u act v hu hst hclean => inTime_of_cleanLoss hu hst hclean)
    hsound hrun

/-- An event that is due at once. -/
def dueNow (event_id : EventId) (payload : OutgoingPayload) : Outgoing :=
  { event_id, relationship_id := 0, payload, sealed_bytes := [1] }

/-- Event 1 is sent, and the cancel of it, event 2, has read its row. -/
def heldByCancel : List RaceAct :=
  [.other (.send (dueNow 1 (.delivery_scheduled 7)) 0), .announce 0 (dueNow 2 (.delivery_canceled 1)) 0, .read 0]

/-- The cancel comes first, and `run_due` skips the row. -/
def canceledFirst : List RaceAct :=
  heldByCancel ++ [.other (.startRun 0 0), .update 0, .other (.release 0 true .returned)]

theorem cancel_loses_cleanly_canceledFirst :
    ∃ r, race.run {} canceledFirst = some r ∧ (r.row 1).map (·.state) = some .canceled ∧
      ∀ k u, race.run {} (canceledFirst.take k) = some u → CleanLoss u := by
  have hrun : race.run {} canceledFirst = some _ := rfl
  exact ⟨_, hrun, rfl, (cancel_loses_cleanly_iff (fun _ => rfl) hrun).mpr (by decide +kernel)⟩

/-- The release comes between the read and the update. -/
def releasedBetween : List RaceAct :=
  heldByCancel ++ [.other (.startRun 0 0), .other (.release 0 true .returned), .update 0]

/-- The row is released, and the cancel reports an invalid transition: no retraction
follows. -/
theorem release_between_not_reported :
    ¬∀ acts r, race.run {} acts = some r → CleanLoss r := by
  intro h
  have hrun : race.run {} releasedBetween = some _ := rfl
  have hclean := (h _ _ hrun 0).2
  exact absurd (hclean.resolve_left (by decide)) (by decide +kernel)

end MuseAgentSocial.Scheduler
