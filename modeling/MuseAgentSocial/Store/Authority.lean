import MuseAgentSocial.Store.Node

/-!
# Who changes a task or a delivery

* `TaskRun`: the changes of a task, each by a logged event of its creator or its owner.
* `Authorised`: the rows of the tasks and the deliveries, and the events behind them.
* `Advances`: what `apply_event` does to the rows that are there.
* `changes_authorised`: both, in every reachable store and for every event.
-/

namespace MuseAgentSocial.Store

open Model Crypto Policy

/-! ## Tasks -/

/-- One change of a task by an event of the log. -/
def TaskMove (events : Table Event.event_id) (t t' : TaskRow) : Prop :=
  ∃ e status note, events.find e.event_id = some e ∧ e.payload = .taskUpdated t.task_id status note ∧
    (e.sender = t.owner_identity ∨ e.sender = t.sender) ∧ t.status.terminal = false ∧
    t' = { t with
      status, status_event_id := some e.event_id, status_updated_at := some e.created_at, note }

/-- The changes of a task, one after the other. -/
def TaskRun (events : Table Event.event_id) : TaskRow → TaskRow → Prop := Relation.ReflTransGen (TaskMove events)

/-- A task starts open, as its event creates it. -/
def TaskAuthorised (events : Table Event.event_id) (t : TaskRow) : Prop :=
  ∃ e t₀, events.find t.task_id = some e ∧ e.payload = .taskCreated t.title t.owner_identity t.due_at ∧
    e.sender = t.sender ∧ t₀.status = .open ∧ TaskRun events t₀ t

section tasks

variable {events events' : Table Event.event_id} {t t' : TaskRow}

theorem TaskRun.of_terminal (h : TaskRun events t t') (hterminal : t.status.terminal = true) : t' = t := by
  rcases Relation.ReflTransGen.cases_head h with heq | ⟨_, ⟨_, _, _, _, _, _, hopen, _⟩, _⟩
  · exact heq.symm
  · rw [hterminal] at hopen
    exact absurd hopen (by decide)

theorem TaskRun.mono (hlog : ∀ i e, events.find i = some e → events'.find i = some e) (h : TaskRun events t t') :
    TaskRun events' t t' := by
  induction h with
  | refl => exact Relation.ReflTransGen.refl
  | tail _ hmove ih =>
    obtain ⟨e, status, note, he, hrest⟩ := hmove
    exact ih.tail ⟨e, status, note, hlog _ _ he, hrest⟩

theorem TaskAuthorised.mono (hlog : ∀ i e, events.find i = some e → events'.find i = some e)
    (h : TaskAuthorised events t) : TaskAuthorised events' t := by
  obtain ⟨e, t₀, he, hpayload, hsender, hopen, hrun⟩ := h
  exact ⟨e, t₀, hlog _ _ he, hpayload, hsender, hopen, hrun.mono hlog⟩

theorem TaskAuthorised.move (h : TaskAuthorised events t) (hmove : TaskMove events t t') :
    TaskAuthorised events t' := by
  obtain ⟨e, t₀, he, hpayload, hsender, hopen, hrun⟩ := h
  have hrun' : TaskRun events t₀ t' := hrun.tail hmove
  obtain ⟨_, _, _, _, _, _, _, rfl⟩ := hmove
  exact ⟨e, t₀, he, hpayload, hsender, hopen, hrun'⟩

end tasks

/-! ## Deliveries -/

/-- A delivery has the sender of its announcement, and so has its cancellation. -/
structure DeliveryAuthorised (events : Table Event.event_id) (d : Delivery) : Prop where
  announced : ∃ e, events.find d.scheduled_event_id = some e ∧ e.sender = d.sender ∧
    e.payload = .deliveryScheduled d.inner_event_id d.deliver_at d.late_by_seconds
  canceled : d.state = .canceled → ∃ e, events.find e.event_id = some e ∧ e.sender = d.sender ∧
    e.payload = .deliveryCanceled d.scheduled_event_id ∧ d.cancel_event_id = some e.event_id

theorem DeliveryAuthorised.mono {events events' : Table Event.event_id} {d : Delivery}
    (hlog : ∀ i e, events.find i = some e → events'.find i = some e) (h : DeliveryAuthorised events d) :
    DeliveryAuthorised events' d where
  announced := by
    obtain ⟨e, he, hrest⟩ := h.announced
    exact ⟨e, hlog _ _ he, hrest⟩
  canceled hcanceled := by
    obtain ⟨e, he, hrest⟩ := h.canceled hcanceled
    exact ⟨e, hlog _ _ he, hrest⟩

/-- No two deliveries are of one sender and one inner event in a relationship. -/
def SingleDelivery (db : Database) : Prop :=
  ∀ d ∈ db.deliveries.rows, ∀ d' ∈ db.deliveries.rows, d.relationship_id = d'.relationship_id →
    d.sender = d'.sender → d.inner_event_id = d'.inner_event_id → d = d'

/-! ## The rows of a store -/

/-- The tasks and the deliveries come from events that may write them. -/
structure Authorised (db : Database) : Prop where
  tasks : db.tasks.All (TaskAuthorised db.events)
  deliveries : db.deliveries.All (DeliveryAuthorised db.events)
  single : SingleDelivery db

section authorised

variable {db db' : Database} {ev : Event} {rid : RelationshipId} {P : Event → Prop} {now : Nat}

theorem Authorised.of_same (h : Authorised db)
    (hlog : ∀ i e, db.events.find i = some e → db'.events.find i = some e)
    (htasks : db'.tasks = db.tasks) (hdeliveries : db'.deliveries = db.deliveries) : Authorised db' where
  tasks := by
    rw [htasks]
    exact h.tasks.imp (fun _ ht => ht.mono hlog)
  deliveries := by
    rw [hdeliveries]
    exact h.deliveries.imp (fun _ hd => hd.mono hlog)
  single := by
    unfold SingleDelivery
    rw [hdeliveries]
    exact h.single

/-- Canceling keeps the columns that tell deliveries apart. -/
theorem SingleDelivery.modify (h : SingleDelivery db) {i : EventId} {f : Delivery → Delivery}
    {hf : ∀ d, (f d).scheduled_event_id = d.scheduled_event_id}
    (hsame : ∀ d, (f d).relationship_id = d.relationship_id ∧ (f d).sender = d.sender ∧
      (f d).inner_event_id = d.inner_event_id) :
    SingleDelivery { db with deliveries := db.deliveries.modify i f hf } := by
  -- A row of the table comes from an old row with the same columns.
  have hold : ∀ d ∈ (db.deliveries.modify i f hf).rows, ∃ d₀ ∈ db.deliveries.rows,
      d = (if d₀.scheduled_event_id = i then f d₀ else d₀) ∧ d.relationship_id = d₀.relationship_id ∧
      d.sender = d₀.sender ∧ d.inner_event_id = d₀.inner_event_id := by
    intro d hd
    obtain ⟨d₀, hd₀, rfl⟩ := Table.mem_map.mp hd
    refine ⟨d₀, hd₀, rfl, ?_⟩
    split_ifs
    · exact hsame d₀
    · exact ⟨rfl, rfl, rfl⟩
  intro d hd d' hd' hrel hsender hinner
  obtain ⟨d₀, hd₀, hd, hcolumns⟩ := hold d hd
  obtain ⟨d₀', hd₀', hd', hcolumns'⟩ := hold d' hd'
  have heq := h d₀ hd₀ d₀' hd₀' (hcolumns.1 ▸ hcolumns'.1 ▸ hrel) (hcolumns.2.1 ▸ hcolumns'.2.1 ▸ hsender)
    (hcolumns.2.2 ▸ hcolumns'.2.2 ▸ hinner)
  rw [hd, hd', heq]

theorem Authorised.write (h : Authorised db) (hlog : db.events.find ev.event_id = some ev)
    (hwrite : Write ev now db db') : Authorised db' := by
  cases hwrite with
  | thread hopens hjoins =>
    obtain ⟨_, _, heq⟩ := registerThread_eq db ev ‹_›
    rw [heq]
    exact h.of_same (fun _ _ => id) rfl rfl
  | message hpayload hmessages hrevisions hopened =>
    obtain ⟨_, heq⟩ := bumpThreadMessage_eq _ ev.thread_id ev.created_at
    rw [heq]
    exact h.of_same (fun _ _ => id) rfl rfl
  | task hid hrel htasks hsender hstatus hpayload =>
    refine { h with tasks := h.tasks.insert ?_ htasks }
    exact ⟨ev, _, by rw [hid]; exact hlog, hpayload, hsender.symm, hstatus, Relation.ReflTransGen.refl⟩
  | taskUpdate hpayload htask hauthorized hopen =>
    refine { h with tasks := h.tasks.modify (fun t ht htask' => ?_) (fun _ => by rfl) }
    obtain rfl := Option.some.inj (ht.symm.trans htask)
    exact htask'.move ⟨ev, _, _, hlog, hpayload.trans (by rw [Table.key_of_find ht]), hauthorized, hopen, rfl⟩
  | delivery hid hrel hdeliveries hsender hstate hnew hpayload =>
    rename_i row deliveries
    refine { h with deliveries := h.deliveries.insert ?_ hdeliveries, single := ?_ }
    · refine ⟨⟨ev, by rw [hid]; exact hlog, hsender.symm, hpayload⟩, fun hcanceled => ?_⟩
      rw [hstate] at hcanceled
      exact DeliveryState.noConfusion hcanceled
    · intro d hd d' hd' hsame hsender' hinner
      rcases (Table.mem_of_insert hdeliveries).mp hd with hd | rfl
      · rcases (Table.mem_of_insert hdeliveries).mp hd' with hd' | rfl
        · exact h.single d hd d' hd' hsame hsender' hinner
        · exact absurd ⟨hsame.trans hrel, hsender'.trans hsender, hinner⟩ (hnew d hd)
      · rcases (Table.mem_of_insert hdeliveries).mp hd' with hd' | rfl
        · exact absurd ⟨hsame.symm.trans hrel, hsender'.symm.trans hsender, hinner.symm⟩ (hnew d' hd')
        · rfl
  | deliveryCancel hpayload hdelivery hsender hstate =>
    refine { h with deliveries := h.deliveries.modify (fun d hd hd' => ?_) (fun _ => by rfl), single := ?_ }
    · obtain rfl := Option.some.inj (hd.symm.trans hdelivery)
      exact ⟨hd'.announced, fun _ => ⟨ev, hlog, hsender, hpayload.trans (by rw [Table.key_of_find hd]), rfl⟩⟩
    · exact h.single.modify (fun _ => ⟨rfl, rfl, rfl⟩)
  | _ => exact h.of_same (fun _ _ => id) rfl rfl

theorem Authorised.kept : Kept Authorised where
  initial := ⟨.empty, .empty, fun _ hd => absurd hd List.not_mem_nil⟩
  inputs _ _ h := h.of_same (fun _ _ => id) rfl rfl
  append _ h happend := by
    obtain ⟨_, threads, heq⟩ := append_events happend
    refine h.of_same (fun i e he => find_of_append happend he) ?_ ?_
    · rw [heq]
    · rw [heq]
  effect _ h heffect := by
    cases heffect with
    | write hlog hP hwrite => exact h.write hlog hwrite
    | resolve hown => exact h.of_same (fun _ _ => id) rfl rfl
    | replyState hown => exact h.of_same (fun _ _ => id) rfl rfl
    | quarantine => exact h.of_same (fun _ _ => id) rfl rfl
    | sequence =>
      obtain ⟨_, _, heq⟩ := updateSeqState_eq _ ‹_› ‹_›
      rw [heq]
      exact h.of_same (fun _ _ => id) rfl rfl
  wipe _ _ h := ⟨h.tasks.delete _, h.deliveries.delete _, fun d hd d' hd' =>
    h.single d (Table.mem_delete.mp hd).1 d' (Table.mem_delete.mp hd').1⟩
  expire _ _ _ h := h.of_same (fun _ _ => id) rfl rfl

end authorised

/-! ## What an event changes -/

/-- One change of a delivery: its announcer cancels it. -/
def DeliveryMove (events : Table Event.event_id) (d d' : Delivery) : Prop :=
  ∃ e, events.find e.event_id = some e ∧ e.payload = .deliveryCanceled d.scheduled_event_id ∧
    e.sender = d.sender ∧ d.state = .scheduled ∧
    d' = { d with
      state := .canceled, canceled_at := some e.created_at, cancel_event_id := some e.event_id }

/-- The changes of a delivery, one after the other. -/
def DeliveryRun (events : Table Event.event_id) : Delivery → Delivery → Prop :=
  Relation.ReflTransGen (DeliveryMove events)

theorem DeliveryRun.of_canceled {events : Table Event.event_id} {d d' : Delivery} (h : DeliveryRun events d d')
    (hcanceled : d.state = .canceled) : d' = d := by
  rcases Relation.ReflTransGen.cases_head h with heq | ⟨_, ⟨_, _, _, _, hscheduled, _⟩, _⟩
  · exact heq.symm
  · rw [hcanceled] at hscheduled
    exact DeliveryState.noConfusion hscheduled

/-- The rows stay, and change as their events may change them. -/
structure Advances (events : Table Event.event_id) (db db' : Database) : Prop where
  tasks : ∀ i t, db.tasks.find i = some t → ∃ t', db'.tasks.find i = some t' ∧ TaskRun events t t'
  deliveries : ∀ i d, db.deliveries.find i = some d →
    ∃ d', db'.deliveries.find i = some d' ∧ DeliveryRun events d d'

section advances

variable {events : Table Event.event_id} {db db' db'' : Database} {ev : Event} {rid : RelationshipId}
  {P : Event → Prop} {now clock : Nat}

theorem Advances.of_same (htasks : db'.tasks = db.tasks) (hdeliveries : db'.deliveries = db.deliveries) :
    Advances events db db' where
  tasks _ t ht := ⟨t, htasks ▸ ht, Relation.ReflTransGen.refl⟩
  deliveries _ d hd := ⟨d, hdeliveries ▸ hd, Relation.ReflTransGen.refl⟩

theorem Advances.trans (h : Advances events db db') (h' : Advances events db' db'') : Advances events db db'' where
  tasks i t ht := by
    obtain ⟨t', ht', hrun⟩ := h.tasks i t ht
    obtain ⟨t'', ht'', hrun'⟩ := h'.tasks i t' ht'
    exact ⟨t'', ht'', Relation.ReflTransGen.trans hrun hrun'⟩
  deliveries i d hd := by
    obtain ⟨d', hd', hrun⟩ := h.deliveries i d hd
    obtain ⟨d'', hd'', hrun'⟩ := h'.deliveries i d' hd'
    exact ⟨d'', hd'', Relation.ReflTransGen.trans hrun hrun'⟩

theorem Write.advances (hlog : db.events.find ev.event_id = some ev) (hwrite : Write ev now db db') :
    Advances db.events db db' := by
  cases hwrite with
  | thread hopens hjoins =>
    obtain ⟨_, _, heq⟩ := registerThread_eq db ev ‹_›
    rw [heq]
    exact .of_same rfl rfl
  | message hpayload hmessages hrevisions hopened =>
    obtain ⟨_, heq⟩ := bumpThreadMessage_eq _ ev.thread_id ev.created_at
    rw [heq]
    exact .of_same rfl rfl
  | task hid hrel htasks hsender hstatus hpayload =>
    refine ⟨fun i t ht => ⟨t, ?_, Relation.ReflTransGen.refl⟩, fun i d hd => ⟨d, hd, Relation.ReflTransGen.refl⟩⟩
    refine (Table.find_of_insert htasks i).trans ?_
    rw [if_neg, ht]
    rintro rfl
    exact absurd (ht.symm.trans (Table.insert_eq_some htasks).1) (Option.some_ne_none t)
  | taskUpdate hpayload htask hauthorized hopen =>
    refine ⟨fun i t ht => ?_, fun i d hd => ⟨d, hd, Relation.ReflTransGen.refl⟩⟩
    dsimp only
    rw [Table.find_modify]
    split_ifs with hi
    · subst hi
      obtain rfl := Option.some.inj (ht.symm.trans htask)
      rw [ht]
      refine ⟨_, rfl, Relation.ReflTransGen.single ?_⟩
      exact ⟨ev, _, _, hlog, hpayload.trans (by rw [Table.key_of_find ht]), hauthorized, hopen, rfl⟩
    · exact ⟨t, ht, Relation.ReflTransGen.refl⟩
  | delivery hid hrel hdeliveries hsender hstate hnew hpayload =>
    refine ⟨fun i t ht => ⟨t, ht, Relation.ReflTransGen.refl⟩, fun i d hd => ⟨d, ?_, Relation.ReflTransGen.refl⟩⟩
    refine (Table.find_of_insert hdeliveries i).trans ?_
    rw [if_neg, hd]
    rintro rfl
    exact absurd (hd.symm.trans (Table.insert_eq_some hdeliveries).1) (Option.some_ne_none d)
  | deliveryCancel hpayload hdelivery hsender hstate =>
    refine ⟨fun i t ht => ⟨t, ht, Relation.ReflTransGen.refl⟩, fun i d hd => ?_⟩
    dsimp only
    rw [Table.find_modify]
    split_ifs with hi
    · subst hi
      obtain rfl := Option.some.inj (hd.symm.trans hdelivery)
      rw [hd]
      refine ⟨_, rfl, Relation.ReflTransGen.single ?_⟩
      exact ⟨ev, hlog, hpayload.trans (by rw [Table.key_of_find hd]), hsender, hstate, rfl⟩
    · exact ⟨d, hd, Relation.ReflTransGen.refl⟩
  | _ => exact .of_same rfl rfl

theorem Effects.advances (h : Effects rid P now db db') : Advances db.events db db' := by
  refine h.invariant (I := fun db₁ => Advances db.events db db₁) (fun db₁ db₂ hsame hadvances heffect => ?_)
    (.of_same rfl rfl)
  refine hadvances.trans ?_
  cases heffect with
  | write hlog hP hwrite =>
    rw [← hsame.events]
    exact hwrite.advances hlog
  | resolve hown => exact .of_same rfl rfl
  | replyState hown => exact .of_same rfl rfl
  | quarantine => exact .of_same rfl rfl
  | sequence =>
    obtain ⟨_, _, heq⟩ := updateSeqState_eq db₁ ‹_› now
    rw [heq]
    exact .of_same rfl rfl

theorem applyEvent_advances (hs : Scoped db) (hlog : db.events.find ev.event_id = some ev) :
    Advances db.events db (applyEvent db ev clock).1 := by
  have hends : (applyEvent db ev clock).Ends _ _ := applyInner_ends hs hlog
  generalize applyEvent db ev clock = out at hends ⊢
  match out, hends with
  | (db', .ok ()), heffects => exact Effects.advances heffects
  | (db', .error _), ⟨_, heffects⟩ => exact Effects.advances heffects

end advances

/-! ## Every store and every event -/

/-- In every reachable store the rows of tasks and deliveries come from events that may
write them, and an event changes them only so.  A terminal task and a canceled delivery
do not change. -/
theorem changes_authorised {s : Node} (h : machine.Reachable s) :
    Authorised s.db ∧ ∀ ev clock, s.db.events.find ev.event_id = some ev →
      (∀ i t, s.db.tasks.find i = some t → ∃ t', (applyEvent s.db ev clock).1.tasks.find i = some t' ∧
        TaskRun s.db.events t t' ∧ (t.status.terminal = true → t' = t)) ∧
      ∀ i d, s.db.deliveries.find i = some d → ∃ d', (applyEvent s.db ev clock).1.deliveries.find i = some d' ∧
        DeliveryRun s.db.events d d' ∧ (d.state = .canceled → d' = d) := by
  refine ⟨Authorised.kept.reachable h, fun ev clock hlog => ?_⟩
  obtain ⟨htasks, hdeliveries⟩ := @applyEvent_advances s.db ev clock (reachable_scoped h) hlog
  constructor
  · intro i t ht
    obtain ⟨t', ht', hrun⟩ := htasks i t ht
    exact ⟨t', ht', hrun, hrun.of_terminal⟩
  · intro i d hd
    obtain ⟨d', hd', hrun⟩ := hdeliveries i d hd
    exact ⟨d', hd', hrun, hrun.of_canceled⟩

/-- A cancellation arrives before the announcement, and a second announcement of the same
inner event after it. -/
def canceledLog : List (Nat × Event) :=
  [(20, ⟨6, 1, 1, none, 2, 2, 11, 1, .deliveryCanceled 5, none, some 20⟩),
    (21, ⟨5, 1, 1, none, 2, 1, 10, 1, .deliveryScheduled 9 30 none, none, some 21⟩),
    (22, ⟨7, 1, 1, none, 2, 3, 12, 1, .deliveryScheduled 9 30 none, none, some 22⟩)]

/-- The events arrive and are projected one by one. -/
def canceledRun : List Act :=
  .pair 1 2 :: canceledLog.flatMap (fun x => [.receive x.2 x.1, .project x.2.event_id x.1])

/-- The canceled delivery is the only one, and the events leave it as it is. -/
theorem changes_authorised_canceledRun : ∃ s, machine.run ⟨{}, [1]⟩ canceledRun = some s ∧
    s.db.deliveries.rows.map (fun d => (d.scheduled_event_id, d.state)) = [(5, .canceled)] ∧ Authorised s.db ∧
    ∀ ev clock, s.db.events.find ev.event_id = some ev → ∀ d, s.db.deliveries.find 5 = some d →
      d.state = .canceled → (applyEvent s.db ev clock).1.deliveries.find 5 = some d := by
  have hrun : (machine.run ⟨{}, [1]⟩ canceledRun).map (fun s =>
      s.db.deliveries.rows.map (fun d => (d.scheduled_event_id, d.state))) = some [(5, .canceled)] := by
    decide +kernel
  obtain ⟨s, hs, hrows⟩ := Option.map_eq_some_iff.mp hrun
  obtain ⟨hauthorised, hchanges⟩ := changes_authorised (Machine.reachable_of_run ⟨rfl, List.cons_ne_nil _ _⟩ hs)
  refine ⟨s, hs, hrows, hauthorised, fun ev clock hlog d hd hcanceled => ?_⟩
  obtain ⟨d', hd', -, hsame⟩ := (hchanges ev clock hlog).2 5 d hd
  rw [hd', hsame hcanceled]

end MuseAgentSocial.Store
