import MuseAgentSocial.Cli.TwoParty

/-!
# What a step of a party does

Two inversions of `Node.act`.

* `SideStep` says which method of the rotation manager the step has run on
  the side, and why.
* `LogStep` says what every step but `begin_rotation` can do to the stored
  events, the markers, the consumed objects, the pending tasks and the relay:
  where each new entry comes from, and that nothing is taken away.
-/

namespace MuseAgentSocial.Cli

open Model Crypto Policy RotationManager Keys

/-! ## The side -/

/-- The side after a step, by the method that the step runs. -/
inductive SideStep (w : World) (x : Node) : Kind → Side → Prop where
  | begun : SideStep w x .beginRotation (beginRotation x.side w.now ⟨w.nextKey⟩ none).1
  | logged {kind : Kind} {s' : Side} :
      s' = { x.side with
        events := s'.events, rotation_processed_events := s'.rotation_processed_events } →
      SideStep w x kind s'
  | received {n jump : Nat} {env : Envelope Body} : SideStep w x (.deliver n jump)
      (receiveObject x.side w.me.identity w.me.other.identity env jump w.now).1
  | markConfirmed {kind : Kind} : SideStep w x kind (markConfirmed x.side w.now).1
  | markCommitted {i epoch : Nat} : x.tasks[i]? = some (.markCommitted epoch) →
      SideStep w x (.exec i) (markCommitted x.side w.now).1
  | dataHooks {kind : Kind} {ev : StoredEvent} : Task.dataHooks ev ∈ x.tasks →
      SideStep w x kind (postReceiveHooks x.side ev w.now).1
  | prepare {id : EventId} {ev : StoredEvent} {prepare : Prepare} :
      Node.rotationEvent w x id = some ev → ev.body = .prepare prepare →
      SideStep w x (.rotateAck id) (onPrepare x.side prepare ev.event_id w.now).1
  | hooks {id : EventId} {ev : StoredEvent} : id ∉ x.side.rotation_processed_events →
      Node.rotationEvent w x id = some ev →
      SideStep w x (.redrive id) (postReceiveHooks x.side ev w.now).1
  | sweepCompact {kind : Kind} : SideStep w x kind (sweepCompact x.side w.now).1
  | sweepTimeout {kind : Kind} : SideStep w x kind (sweepTimeout x.side w.now).1
  | sweepRetire {kind : Kind} {row : Rotation} : x.side.rotation row.epoch .rotating = some row →
      row.phase = .committed → SideStep w x kind (sweepRetire x.side row w.now).1

theorem receive_side (w : World) (x : Node) (env : Envelope Body) (jump : Nat) :
    (Node.receive w x env jump).node.side =
      (receiveObject x.side w.me.identity w.me.other.identity env jump w.now).1 := by
  unfold Node.receive
  split
  all_goals
    rename_i hout
    rw [hout]

theorem latestPrepare_eq_some {w : World} {x : Node} {id : EventId} {ev : StoredEvent}
    {prepare : Prepare} (h : Node.latestPrepare w x id = some (ev, prepare)) :
    Node.rotationEvent w x id = some ev ∧ ev.event_id = id ∧ ev.body = .prepare prepare := by
  unfold Node.latestPrepare at h
  split at h
  · rename_i id' sender created_at key_epoch prepare' hev
    split_ifs at h
    cases h
    exact ⟨hev, Table.key_of_find (Option.filter_eq_some_iff.mp hev).1, rfl⟩
  · cases h

/-- A send writes the log alone. -/
theorem SideStep.of_send {w : World} {x : Node} {kind : Kind} (tasks : List Task) (body : Body)
    (rest : List Task) (failed : Raised → List Task) :
    SideStep w x kind (Node.send w { x with tasks := tasks } body rest failed).node.side := by
  unfold Node.send
  split
  · rename_i side env hsend
    obtain ⟨-, -, -, -, hs', -, -⟩ := sendEvent_ok hsend
    refine .logged ?_
    show side = _
    rw [hs']
  · exact .logged rfl

theorem SideStep.of_exec {w : World} {x : Node} {i : Nat} {task : Task}
    (htask : x.tasks[i]? = some task) :
    SideStep w x (.exec i) (Node.exec w { x with tasks := x.tasks.eraseIdx i } task).node.side := by
  cases task with
  | sendPrepare prepare => exact .of_send _ _ _ _
  | sendAck ack mark =>
    simp only [Node.exec]
    split_ifs
    · exact .logged rfl
    · exact .of_send _ _ _ _
  | markConfirmed => exact .markConfirmed
  | markCommitted epoch => exact .markCommitted htask
  | markProcessed id =>
    simp only [Node.exec, markRotationProcessed]
    split_ifs <;> exact .logged rfl
  | dataHooks ev => exact .dataHooks (List.mem_of_getElem? htask)

theorem SideStep.of_act {w : World} {x : Node} {kind : Kind} {eff : Effect}
    (h : Node.act w x kind = some eff) : SideStep w x kind eff.node.side := by
  cases kind with
  | beginRotation =>
    have hstep : SideStep w x .beginRotation _ := .begun
    simp only [Node.act] at h
    split at h
    all_goals
      rename_i hout
      cases h
      rw [hout] at hstep
      exact hstep
  | exec i =>
    obtain ⟨task, htask, rfl⟩ := Option.map_eq_some_iff.mp h
    exact .of_exec htask
  | drop i =>
    simp only [Node.act] at h
    split_ifs at h
    cases h
    exact .logged rfl
  | sendData =>
    cases h
    exact .of_send x.tasks _ _ _
  | rotateConfirm =>
    simp only [Node.act] at h
    split at h
    · cases h
      exact .of_send x.tasks _ _ _
    · cases h
  | rotateCommit =>
    simp only [Node.act] at h
    split at h
    · cases h
      exact .of_send x.tasks _ _ _
    · cases h
  | rotateAck id =>
    obtain ⟨⟨ev, prepare⟩, hlatest, rfl⟩ := Option.map_eq_some_iff.mp h
    obtain ⟨hev, hid, hbody⟩ := latestPrepare_eq_some hlatest
    have hstep : SideStep w x (.rotateAck id) _ := .prepare hev hbody
    dsimp only
    split
    all_goals
      rename_i hout
      rw [hout] at hstep
      exact hstep
  | deliver n jump =>
    simp only [Node.act] at h
    split at h
    · split_ifs at h
      cases h
      rw [receive_side]
      exact .received
    · cases h
  | redrive id =>
    simp only [Node.act] at h
    split_ifs at h with hdone
    obtain ⟨ev, hev, rfl⟩ := Option.map_eq_some_iff.mp h
    exact .hooks hdone hev
  | sweepCompact =>
    cases h
    exact .sweepCompact
  | sweepTimeout =>
    cases h
    exact .sweepTimeout
  | sweepRetire epoch =>
    obtain ⟨row, hrow, rfl⟩ := Option.map_eq_some_iff.mp h
    obtain ⟨hmem, hcond⟩ := List.mem_filter.mp (List.mem_of_find?_eq_some hrow)
    simp only [decide_eq_true_eq] at hcond
    exact .sweepRetire (rotation_eq_some.mpr ⟨hmem, rfl, hcond.1⟩) hcond.2

/-! ## The log -/

/-- Why a step sends an event. -/
def SentFor (x : Node) (kind : Kind) : Body → Prop
  | .prepare prepare => Task.sendPrepare prepare ∈ x.tasks
  | .ack ack => ∃ mark, Task.sendAck ack mark ∈ x.tasks
  | .confirm epoch => buildConfirmPayload x.side = .ok epoch
  | .commit epoch => buildCommitPayload x.side = .ok epoch
  | .data _ => kind = .sendData

/-- Why a step leaves a task. -/
def LeftFor (w : World) (x : Node) (kind : Kind) (sent : List (Envelope Body)) : Task → Prop
  | .sendPrepare _ => False
  | .sendAck ack _ => ∃ ev prepare, Node.rotationEvent w x ack.prepare_event_id = some ev ∧
      ev.body = .prepare prepare ∧
      (kind = .rotateAck ack.prepare_event_id ∨
        ack.prepare_event_id ∉ x.side.rotation_processed_events)
  | .markConfirmed => True
  | .markCommitted epoch => buildCommitPayload x.side = .ok epoch ∧
      ∃ env ∈ sent, env.payload = .commit epoch
  | .markProcessed id =>
      (kind = .redrive id ∧ id ∉ x.side.rotation_processed_events ∧
        ∃ ev, Node.rotationEvent w x id = some ev) ∨
      ∃ ack mark, Task.sendAck ack mark ∈ x.tasks ∧ ack.prepare_event_id = id
  | .dataHooks ev => ev.body.isRotation = false ∧ ∃ n jump env, kind = .deliver n jump ∧ w.net[n]? = some env ∧
      env.payload = ev.body ∧ env.key_epoch = ev.key_epoch ∧ x.side.events.find env.event_id = none ∧
      (receiveObject x.side w.me.identity w.me.other.identity env jump w.now).2 = .accepted

/-- What a step does to the log. -/
structure LogStep (w : World) (x : Node) (kind : Kind) (eff : Effect) : Prop where
  events_kept : ∀ i ev, x.side.events.find i = some ev → eff.node.side.events.find i = some ev
  events : ∀ i ev, eff.node.side.events.find i = some ev → x.side.events.find i = some ev ∨
    (∃ env ∈ eff.sent, env.event_id = i ∧ env.sender = ev.sender ∧ env.payload = ev.body) ∨
    ∃ env ∈ w.net, env.event_id = i ∧ env.sender = ev.sender ∧ env.payload = ev.body ∧
      env.sender = w.me.other.identity ∧ x.side.events.find i = none ∧ i ∉ x.rejected
  processed_kept : ∀ i, i ∈ x.side.rotation_processed_events →
    i ∈ eff.node.side.rotation_processed_events
  processed : ∀ i, i ∈ eff.node.side.rotation_processed_events →
    i ∈ x.side.rotation_processed_events ∨ Task.markProcessed i ∈ x.tasks
  rejected_kept : ∀ i, i ∈ x.rejected → i ∈ eff.node.rejected
  rejected : ∀ i, i ∈ eff.node.rejected → i ∈ x.rejected ∨
    ∃ n jump env code, kind = .deliver n jump ∧ w.net[n]? = some env ∧ env.event_id = i ∧
      (receiveObject x.side w.me.identity w.me.other.identity env jump w.now).2 = .rejected code
  tasks : ∀ task ∈ eff.node.tasks, task ∈ x.tasks ∨ LeftFor w x kind eff.sent task
  sent : ∀ env ∈ eff.sent, env.event_id = w.nextEvent ∧ env.sender = w.me.identity ∧
    env.signer = w.me.identity ∧ SentFor x kind env.payload ∧
    recipientsFor x.side w.me.other.identity = .ok (env.recipients, env.key_epoch)
  sent_one : eff.sent.length ≤ 1
  newKey : eff.newKey = false

theorem postReceiveHooks_sameLog (s : Side) (ev : StoredEvent) (now : Nat) :
    SameLog s (postReceiveHooks s ev now).1 := by
  obtain ⟨id, sender, created_at, key_epoch, body⟩ := ev
  cases body with
  | prepare prepare => exact onPrepare_sameLog s _ _ _
  | ack ack => exact onAck_sameLog s _ _
  | confirm epoch => exact onConfirm_sameLog s _ _
  | commit epoch => exact onCommit_sameLog s _ _
  | data content =>
    refine (noteDecryptedNewWrap_sameLog s key_epoch now).trans ?_
    exact ⟨rfl, rfl⟩

theorem postReceiveHooks_reply {s : Side} {ev : StoredEvent} {now : Nat} {ack : Ack}
    (h : (postReceiveHooks s ev now).2 = .ok (.reply ack)) :
    ∃ prepare, ev.body = .prepare prepare ∧ ack.prepare_event_id = ev.event_id := by
  obtain ⟨id, sender, created_at, key_epoch, body⟩ := ev
  cases body with
  | prepare prepare =>
    refine ⟨prepare, rfl, ?_⟩
    rcases onPrepare_cases s prepare id now with ⟨-, raised, hraised⟩ | ⟨prior, hack, -⟩
    · simp [postReceiveHooks, hraised, Except.map] at h
    · simp only [postReceiveHooks, hack, Except.map, Except.ok.injEq, HookResult.reply.injEq] at h
      rw [← h]
  | ack ack' =>
    simp only [postReceiveHooks] at h
    cases hres : (onAck s ack' now).2 <;> simp [hres, Except.map] at h
  | confirm epoch =>
    simp only [postReceiveHooks] at h
    cases hres : (onConfirm s epoch now).2 <;> simp [hres, Except.map] at h
  | commit epoch =>
    simp only [postReceiveHooks] at h
    cases hres : (onCommit s epoch now).2 <;> simp [hres, Except.map] at h
  | data content => simp [postReceiveHooks] at h

theorem markAfter_cases {id : EventId} {result : Except Raised HookResult} {task : Task}
    (h : task ∈ Node.markAfter id result) :
    task = .markProcessed id ∨ ∃ ack, task = .sendAck ack true ∧ result = .ok (.reply ack) := by
  unfold Node.markAfter at h
  split at h
  · exact Or.inl (List.mem_singleton.mp h)
  · rename_i ack
    exact Or.inr ⟨ack, List.mem_singleton.mp h, rfl⟩
  · exact Or.inl (List.mem_singleton.mp h)
  · simp at h

namespace LogStep

variable {w : World} {x y : Node} {kind : Kind}

/-- A step that writes neither the log nor the relay. -/
theorem of_sameLog {s' : Side} {tasks : List Task} (hlog : SameLog x.side s')
    (htasks : ∀ task ∈ tasks, task ∈ x.tasks ∨ LeftFor w x kind [] task) :
    LogStep w x kind { node := { x with side := s', tasks := tasks } } where
  events_kept := fun i ev hev => by
    show s'.events.find i = some ev
    rw [hlog.events]
    exact hev
  events := fun i ev hev => Or.inl (by rw [← hlog.events]; exact hev)
  processed_kept := fun i hi => by
    show i ∈ s'.rotation_processed_events
    rw [hlog.processed]
    exact hi
  processed := fun i hi => Or.inl (by rw [← hlog.processed]; exact hi)
  rejected_kept := fun _ hi => hi
  rejected := fun _ hi => Or.inl hi
  tasks := htasks
  sent := by simp
  sent_one := Nat.zero_le 1
  newKey := rfl

/-- A send stores and uploads one event of the party itself. -/
theorem of_send {body : Body} {tasks rest : List Task} {failed : Raised → List Task}
    (hbody : SentFor x kind body) (htasks : ∀ task ∈ tasks, task ∈ x.tasks)
    (hrest : ∀ env : Envelope Body, env.payload = body →
      ∀ task ∈ rest, LeftFor w x kind [env] task)
    (hfailed : ∀ raised, ∀ task ∈ failed raised, LeftFor w x kind [] task) :
    LogStep w x kind (Node.send w { x with tasks := tasks } body rest failed) := by
  unfold Node.send
  split
  · rename_i side env hsend
    obtain ⟨recipients, key_epoch, hrec, rfl, hs', hnone, hevents⟩ := sendEvent_ok hsend
    refine ⟨?_, ?_, ?_, ?_, fun _ hi => hi, fun _ hi => Or.inl hi, ?_, ?_, le_rfl, rfl⟩
    · intro i ev hev
      show side.events.find i = some ev
      rw [hevents, if_neg]
      · exact hev
      · rintro rfl
        rw [show x.side.events.find w.nextEvent = none from hnone] at hev
        cases hev
    · intro i ev hev
      rw [show side.events.find i = _ from hevents i] at hev
      split_ifs at hev with hi
      · cases hev
        exact Or.inr (Or.inl ⟨_, List.mem_singleton_self _, hi.symm, rfl, rfl⟩)
      · exact Or.inl hev
    · intro i hi
      show i ∈ side.rotation_processed_events
      rw [hs']
      exact hi
    · intro i hi
      rw [show side.rotation_processed_events = x.side.rotation_processed_events by rw [hs']] at hi
      exact Or.inl hi
    · intro task htask
      rcases List.mem_append.mp htask with htask | htask
      · exact Or.inl (htasks task htask)
      · exact Or.inr (hrest _ rfl task htask)
    · intro env henv
      obtain rfl := List.mem_singleton.mp henv
      exact ⟨rfl, rfl, rfl, hbody, hrec⟩
  · rename_i raised _
    refine of_sameLog (.refl x.side) ?_
    intro task htask
    rcases List.mem_append.mp htask with htask | htask
    · exact Or.inl (htasks task htask)
    · exact Or.inr (hfailed raised task htask)

/-- A receive stores the object, consumes it or leaves it. -/
theorem of_receive {n jump : Nat} {env : Envelope Body} (hnet : w.net[n]? = some env)
    (hsender : env.sender = w.me.other.identity) (hfresh : env.event_id ∉ x.rejected) :
    LogStep w x (.deliver n jump) (Node.receive w x env jump) := by
  obtain ⟨-, hprocessed, hevents⟩ :=
    receiveObject_cases x.side w.me.identity w.me.other.identity env jump w.now
  have hkept : ∀ i ev, x.side.events.find i = some ev →
      (receiveObject x.side w.me.identity w.me.other.identity env jump w.now).1.events.find i =
        some ev := by
    intro i ev hev
    rcases hevents with hsame | ⟨-, -, hnone, hfind⟩
    · rw [hsame]
      exact hev
    · rw [hfind, if_neg]
      · exact hev
      · rintro rfl
        rw [hnone] at hev
        cases hev
  have hback : ∀ i ev, (receiveObject x.side w.me.identity w.me.other.identity env jump
      w.now).1.events.find i = some ev → x.side.events.find i = some ev ∨
      (∃ env ∈ ([] : List (Envelope Body)), env.event_id = i ∧ env.sender = ev.sender ∧
        env.payload = ev.body) ∨
      ∃ env ∈ w.net, env.event_id = i ∧ env.sender = ev.sender ∧ env.payload = ev.body ∧
        env.sender = w.me.other.identity ∧ x.side.events.find i = none ∧ i ∉ x.rejected := by
    intro i ev hev
    rcases hevents with hsame | ⟨-, -, hnone, hfind⟩
    · rw [hsame] at hev
      exact Or.inl hev
    · rw [hfind] at hev
      split_ifs at hev with hi
      · cases hev
        subst hi
        exact Or.inr (Or.inr ⟨env, List.mem_of_getElem? hnet, rfl, rfl, rfl, hsender, hnone, hfresh⟩)
      · exact Or.inl hev
  unfold Node.receive
  split
  · rename_i side code hout
    rw [hout] at hprocessed hkept hback
    refine ⟨hkept, hback, fun i hi => hprocessed.symm ▸ hi, fun i hi => Or.inl (hprocessed ▸ hi),
      fun i hi => List.mem_append_left _ hi, ?_, fun task htask => Or.inl htask, by simp, by simp, rfl⟩
    intro i hi
    rcases List.mem_append.mp hi with hi | hi
    · exact Or.inl hi
    · obtain rfl := List.mem_singleton.mp hi
      exact Or.inr ⟨n, jump, env, code, rfl, hnet, rfl, by rw [hout]⟩
  · rename_i side hout
    rw [hout] at hprocessed hkept hback
    exact ⟨hkept, hback, fun i hi => hprocessed.symm ▸ hi, fun i hi => Or.inl (hprocessed ▸ hi),
      fun i hi => hi, fun i hi => Or.inl hi, fun task htask => Or.inl htask, by simp, by simp, rfl⟩
  · rename_i side hout
    rw [hout] at hprocessed hkept hback hevents
    refine ⟨hkept, hback, fun i hi => hprocessed.symm ▸ hi, fun i hi => Or.inl (hprocessed ▸ hi),
      fun i hi => hi, fun i hi => Or.inl hi, ?_, by simp, by simp, rfl⟩
    intro task htask
    rcases List.mem_append.mp htask with htask | htask
    · exact Or.inl htask
    · split_ifs at htask with hnew
      · -- The event was just stored, so its body is the payload.
        rw [Option.mem_toList, Option.map_eq_some_iff] at htask
        obtain ⟨ev, hev, rfl⟩ := htask
        have hnone := Option.isNone_iff_eq_none.mp hnew.1
        refine Or.inr ?_
        rcases hevents with hsame | ⟨-, -, -, hfind⟩
        · rw [show side.events = x.side.events from hsame, hnone] at hev
          cases hev
        · rw [hfind, if_pos rfl] at hev
          cases hev
          exact ⟨hnew.2, n, jump, env, rfl, hnet, rfl, rfl, hnone, by rw [hout]⟩
      · simp at htask

theorem ackMarker_left {ack : Ack} {mark : Bool} {sent : List (Envelope Body)}
    (hmem : Task.sendAck ack mark ∈ x.tasks) :
    ∀ task ∈ Node.ackMarker mark ack.prepare_event_id, LeftFor w x kind sent task := by
  intro task htask
  cases mark with
  | false => simp [Node.ackMarker] at htask
  | true =>
    obtain rfl := List.mem_singleton.mp htask
    exact Or.inr ⟨ack, true, hmem, rfl⟩

theorem of_exec {i : Nat} {task : Task} (htask : x.tasks[i]? = some task) :
    LogStep w x (.exec i) (Node.exec w { x with tasks := x.tasks.eraseIdx i } task) := by
  have hmem : task ∈ x.tasks := List.mem_of_getElem? htask
  have herase : ∀ task ∈ x.tasks.eraseIdx i, task ∈ x.tasks :=
    fun _ h => List.mem_of_mem_eraseIdx h
  have hsame : ∀ {s' : Side}, SameLog x.side s' →
      LogStep w x (.exec i) { node := { x with side := s', tasks := x.tasks.eraseIdx i } } :=
    fun hlog => of_sameLog hlog (fun task h => Or.inl (herase task h))
  cases task with
  | sendPrepare prepare => exact of_send hmem herase (by simp) (by simp)
  | sendAck ack mark =>
    simp only [Node.exec]
    split_ifs
    · refine of_sameLog (.refl x.side) ?_
      intro task h
      rcases List.mem_append.mp h with h | h
      · exact Or.inl (herase task h)
      · exact Or.inr (ackMarker_left hmem task h)
    · refine of_send ⟨mark, hmem⟩ herase (fun _ _ => ackMarker_left hmem) ?_
      intro raised task h
      cases raised with
      | rotation code => exact ackMarker_left hmem task h
      | _ => simp at h
  | markConfirmed => exact hsame (markConfirmed_sameLog x.side w.now)
  | markCommitted epoch => exact hsame (markCommitted_sameLog x.side w.now)
  | markProcessed id =>
    have hstep : LogStep w x (.exec i)
        { node := { x with tasks := x.tasks.eraseIdx i } } := hsame (.refl x.side)
    simp only [Node.exec, markRotationProcessed]
    split_ifs with hdone
    · exact hstep
    · refine ⟨hstep.events_kept, hstep.events, ?_, ?_, hstep.rejected_kept, hstep.rejected,
        hstep.tasks, hstep.sent, hstep.sent_one, rfl⟩
      · exact fun i hi => List.mem_append_left _ hi
      · intro i hi
        rcases List.mem_append.mp hi with hi | hi
        · exact Or.inl hi
        · obtain rfl := List.mem_singleton.mp hi
          exact Or.inr hmem
  | dataHooks ev => exact hsame (postReceiveHooks_sameLog x.side ev w.now)

theorem of_act {eff : Effect} (hkind : kind ≠ .beginRotation)
    (h : Node.act w x kind = some eff) : LogStep w x kind eff := by
  have hself : ∀ task ∈ x.tasks, task ∈ x.tasks := fun _ h => h
  have hsame : ∀ {s' : Side}, SameLog x.side s' →
      LogStep w x kind { node := { x with side := s' } } :=
    fun hlog => of_sameLog hlog (fun task h => Or.inl h)
  cases kind with
  | beginRotation => exact absurd rfl hkind
  | exec i =>
    obtain ⟨task, htask, rfl⟩ := Option.map_eq_some_iff.mp h
    exact of_exec htask
  | drop i =>
    simp only [Node.act] at h
    split_ifs at h
    cases h
    exact of_sameLog (.refl x.side) (fun task h => Or.inl (List.mem_of_mem_eraseIdx h))
  | sendData =>
    cases h
    exact of_send rfl hself (by simp) (by simp)
  | rotateConfirm =>
    simp only [Node.act] at h
    split at h
    · rename_i epoch hbuild
      cases h
      exact of_send hbuild hself (by simp [LeftFor]) (by simp)
    · cases h
  | rotateCommit =>
    simp only [Node.act] at h
    split at h
    · rename_i epoch hbuild
      cases h
      refine of_send hbuild hself ?_ (by simp)
      intro env henv task htask
      obtain rfl := List.mem_singleton.mp htask
      exact ⟨hbuild, env, List.mem_singleton_self env, henv⟩
    · cases h
  | rotateAck id =>
    obtain ⟨⟨ev, prepare⟩, hlatest, rfl⟩ := Option.map_eq_some_iff.mp h
    obtain ⟨hev, hid, hbody⟩ := latestPrepare_eq_some hlatest
    have hlog := onPrepare_sameLog x.side prepare ev.event_id w.now
    have hcases := onPrepare_cases x.side prepare ev.event_id w.now
    dsimp only
    split
    · rename_i side ack hout
      rw [hout] at hlog hcases
      refine of_sameLog hlog ?_
      intro task htask
      rcases List.mem_append.mp htask with htask | htask
      · exact Or.inl htask
      · obtain rfl := List.mem_singleton.mp htask
        rcases hcases with ⟨-, raised, hraised⟩ | ⟨prior, hack, -⟩
        · cases hraised
        · cases hack
          exact Or.inr ⟨ev, prepare, by rw [hid]; exact hev, hbody, Or.inl (by rw [hid])⟩
    · rename_i side raised hout
      rw [hout] at hlog
      exact hsame hlog
  | deliver n jump =>
    simp only [Node.act] at h
    split at h
    · rename_i env henv
      split_ifs at h with hok
      cases h
      exact of_receive henv hok.1 hok.2
    · cases h
  | redrive id =>
    simp only [Node.act] at h
    split_ifs at h with hdone
    obtain ⟨ev, hev, rfl⟩ := Option.map_eq_some_iff.mp h
    refine of_sameLog (postReceiveHooks_sameLog x.side ev w.now) ?_
    intro task htask
    rcases List.mem_append.mp htask with htask | htask
    · exact Or.inl htask
    · refine Or.inr ?_
      rcases markAfter_cases htask with rfl | ⟨ack, rfl, hreply⟩
      · exact Or.inl ⟨rfl, hdone, ev, hev⟩
      · obtain ⟨prepare, hbody, hid⟩ := postReceiveHooks_reply hreply
        have hevid : ev.event_id = id :=
          Table.key_of_find (Option.filter_eq_some_iff.mp hev).1
        rw [hevid] at hid
        exact ⟨ev, prepare, by rw [hid]; exact hev, hbody, Or.inr (by rw [hid]; exact hdone)⟩
  | sweepCompact =>
    cases h
    exact hsame (sweepCompact_sameLog x.side w.now)
  | sweepTimeout =>
    cases h
    exact hsame (sweepTimeout_sameLog x.side w.now)
  | sweepRetire epoch =>
    obtain ⟨row, -, rfl⟩ := Option.map_eq_some_iff.mp h
    exact hsame (sweepRetire_sameLog x.side row w.now)

end LogStep

end MuseAgentSocial.Cli
