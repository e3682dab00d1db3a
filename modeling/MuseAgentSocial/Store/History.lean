import MuseAgentSocial.Store.Rebuild

/-!
# The rebuild as a function of the log

What a rebuild of one relationship leaves depends on more than the log: on the
thread table, which is not wiped, on the rows of other relationships that its
events name, and on the current relationship and approvals.

* `relationshipWindow db rid` has the names of the events and threads of `rid`.
* `SameJoins rid db db'`: `_ensure_thread` decides the same of every event of
  `rid` that it is called for.
* `Apart db rid`: no event of `rid` names a projected row of another
  relationship, and no response is to a poll of another one.
* `Determined`: two stores agree on everything but the log that the rebuild reads.
* `rebuild_function_of_log`: two such stores with the same log have the same
  rows after the rebuild, and a second rebuild changes nothing; and two stores
  have the same rows only if `_ensure_thread` decides the same in both.
-/

namespace MuseAgentSocial.Store

open Model Crypto Policy

/-- A request of the relationship that is not out of thread. -/
def Database.asks (db : Database) (rid : RelationshipId) (request_id : EventId) : Bool :=
  (db.events.find request_id).any fun e =>
    decide (e.relationship_id = rid ∧ e.payload.eventType = .humanRequested) && !outOfThread db e

/-- The names of the events and the threads of the relationship. -/
def relationshipWindow (db : Database) (rid : RelationshipId) : Window :=
  ⟨db.eventOf rid, db.threadOf rid, fun r => decide (r = rid), db.asks rid⟩

/-- The projection tables have the same rows under the names of the window. -/
structure SameRows (w : Window) (db db' : Database) : Prop where
  messages : ∀ i, w.event i = true → db.messages.find i = db'.messages.find i
  message_revisions : ∀ k : EventId × Nat, w.event k.1 = true →
    db.message_revisions.find k = db'.message_revisions.find k
  reactions : ∀ k : EventId × IdentityId × String, w.event k.1 = true →
    db.reactions.find k = db'.reactions.find k
  receipts : ∀ k : EventId × ReceiptKind × IdentityId, w.event k.1 = true →
    db.receipts.find k = db'.receipts.find k
  polls : ∀ i, w.event i = true → db.polls.find i = db'.polls.find i
  poll_responses : ∀ k : EventId × IdentityId, w.event k.1 = true →
    db.poll_responses.find k = db'.poll_responses.find k
  tasks : ∀ i, w.event i = true → db.tasks.find i = db'.tasks.find i
  human_requests : ∀ i, w.event i = true → db.human_requests.find i = db'.human_requests.find i
  deliveries : ∀ i, w.event i = true → db.deliveries.find i = db'.deliveries.find i
  security_key_events : ∀ i, w.event i = true →
    db.security_key_events.find i = db'.security_key_events.find i
  thread_state : ∀ t, w.thread t = true → db.thread_state.find t = db'.thread_state.find t
  pending_refs : ∀ i, w.event i = true → db.pending_refs.find i = db'.pending_refs.find i
  projection_cursors : ∀ k : RelationshipId × IdentityId, w.relationship k.1 = true →
    db.projection_cursors.find k = db'.projection_cursors.find k
  sequence_gaps : ∀ k : RelationshipId × IdentityId × Nat, w.relationship k.1 = true →
    db.sequence_gaps.find k = db'.sequence_gaps.find k

/-- `_ensure_thread` decides the same of the events of the relationship. -/
def SameJoins (rid : RelationshipId) (db db' : Database) : Prop :=
  ∀ ev, db.events.find ev.event_id = some ev → ev.relationship_id = rid →
    ev.payload.opensThread = true → outOfThread db ev = outOfThread db' ev

/-- An event that was staged without `received_at` takes the time of the rebuild. -/
def SameTimes (rid : RelationshipId) (clock clock' : Nat) (db : Database) : Prop :=
  ∀ ev, db.events.find ev.event_id = some ev → ev.relationship_id = rid → ev.received_at = none →
    clock = clock'

/-- The rows of the relationship and those of the others do not name each other. -/
structure Apart (db : Database) (rid : RelationshipId) : Prop where
  /-- No event names a projected row of another relationship by its bare id. -/
  reads : ∀ e, db.events.find e.event_id = some e → e.relationship_id = rid →
    (relationshipWindow db rid).Reads db e
  /-- A response is an event of the relationship of its poll. -/
  responses : db.poll_responses.All (fun r => db.eventOf rid r.poll_id = db.eventOf rid r.response_event_id)

/-- What the rebuild of a relationship reads besides its log is the same. -/
structure Determined (rid : RelationshipId) (clock clock' : Nat) (db db' : Database) : Prop where
  joins : SameJoins rid db db'
  apart : Apart db rid
  apart' : Apart db' rid
  /-- The answer to a request that has a row is attested in the same way. -/
  attested : ∀ ev request answer approved approval, db.eventOf rid ev.event_id = true →
    db.asks rid request = true → ev.payload = .humanResponded request answer approved approval →
    db.events.find ev.event_id = some ev →
    humanResponseAttestation db ev approval = humanResponseAttestation db' ev approval
  times : SameTimes rid clock clock' db

/-! ## Where rows are filed -/

/-- A reaction and a receipt are about events of one relationship, and a key
event is one of its relationship. -/
structure Filed (db : Database) : Prop where
  reactions : db.reactions.All (fun r => ∃ A, db.eventOf A r.target_event_id = true ∧
    db.eventOf A r.added_event_id = true)
  receipts : db.receipts.All (fun r => ∃ A, db.eventOf A r.target_event_id = true ∧
    db.eventOf A r.receipt_event_id = true)
  security_key_events : db.security_key_events.All (fun r => db.eventOf r.relationship_id r.event_id)

section filed

variable {db db' : Database} {rid : RelationshipId} {now clock : Nat} {ev : Event}

theorem Filed.of_events (h : Filed db) (hown : ∀ A i, db.eventOf A i = true → db'.eventOf A i = true)
    (hreactions : db'.reactions = db.reactions) (hreceipts : db'.receipts = db.receipts)
    (hsecurity : db'.security_key_events = db.security_key_events) : Filed db' where
  reactions := by
    rw [hreactions]
    exact h.reactions.imp fun _ hr => hr.imp fun A hA => ⟨hown A _ hA.1, hown A _ hA.2⟩
  receipts := by
    rw [hreceipts]
    exact h.receipts.imp fun _ hr => hr.imp fun A hA => ⟨hown A _ hA.1, hown A _ hA.2⟩
  security_key_events := by
    rw [hsecurity]
    exact h.security_key_events.imp fun _ hr => hown _ _ hr

theorem Write.filed (h : Write ev now db db') (hf : Filed db)
    (hlog : db.events.find ev.event_id = some ev) : Filed db' := by
  have hself := eventOf_self hlog
  cases h with
  | thread hopens hjoins =>
    obtain ⟨_, _, heq⟩ := registerThread_eq db ev ‹_›
    rw [heq]
    exact { hf with }
  | message hpayload hmessages hrevisions =>
    obtain ⟨_, heq⟩ := bumpThreadMessage_eq _ ev.thread_id ev.created_at
    rw [heq]
    exact { hf with }
  | reactionAdded hpayload htarget =>
    exact { hf with
      reactions := hf.reactions.upsert ⟨ev.relationship_id, eventOf_of_target htarget, hself⟩ }
  | reactionRemoved hpayload htarget =>
    refine { hf with reactions := hf.reactions.modify ?_ (fun _ => by rfl) }
    exact fun _ _ hold => hold
  | receipt hpayload htarget =>
    exact { hf with
      receipts := hf.receipts.upsert ⟨ev.relationship_id, eventOf_of_target htarget, hself⟩ }
  | securityKey hid hrel hsecurity =>
    refine { hf with security_key_events := hf.security_key_events.insert ?_ hsecurity }
    rw [hid, hrel]
    exact hself
  | _ => exact { hf with }

theorem Effect.filed {P : Event → Prop} (h : Effect rid P now db db') (hf : Filed db) : Filed db' := by
  cases h with
  | write hlog hP hwrite => exact hwrite.filed hf hlog
  | sequence =>
    obtain ⟨_, _, heq⟩ := updateSeqState_eq db ‹_› now
    rw [heq]
    exact { hf with }
  | _ => exact { hf with }

theorem Filed.wipe (hf : Filed db) : Filed (wipe db rid) where
  reactions := hf.reactions.delete _
  receipts := hf.receipts.delete _
  security_key_events := hf.security_key_events.delete _

theorem Filed.kept : Kept Filed where
  initial := ⟨.empty, .empty, .empty⟩
  inputs _ _ hf := { hf with }
  append _ hf happend := by
    obtain ⟨_, threads, heq⟩ := append_events happend
    refine hf.of_events (fun A i hi => ?_) (by rw [heq]) (by rw [heq]) (by rw [heq])
    obtain ⟨e, he, hrel⟩ := eventOf_iff.mp hi
    exact eventOf_iff.mpr ⟨e, find_of_append happend he, hrel⟩
  effect _ hf heffect := heffect.filed hf
  wipe _ _ hf := hf.wipe
  expire _ _ _ hf := { hf with }

end filed

/-! ## The wipe -/

/-- The rows that are not under a name of the window are the same. -/
structure Outside (w : Window) (db db' : Database) : Prop where
  messages : Table.Agree (fun k => !w.event k) db.messages db'.messages
  message_revisions :
    Table.Agree (fun k => !w.event k.1) db.message_revisions db'.message_revisions
  reactions : Table.Agree (fun k => !w.event k.1) db.reactions db'.reactions
  receipts : Table.Agree (fun k => !w.event k.1) db.receipts db'.receipts
  polls : Table.Agree (fun k => !w.event k) db.polls db'.polls
  poll_responses : Table.Agree (fun k => !w.event k.1) db.poll_responses db'.poll_responses
  tasks : Table.Agree (fun k => !w.event k) db.tasks db'.tasks
  human_requests : Table.Agree (fun k => !w.event k) db.human_requests db'.human_requests
  deliveries : Table.Agree (fun k => !w.event k) db.deliveries db'.deliveries
  security_key_events :
    Table.Agree (fun k => !w.event k) db.security_key_events db'.security_key_events
  thread_state : Table.Agree (fun k => !w.thread k) db.thread_state db'.thread_state
  pending_refs : Table.Agree (fun k => !w.event k) db.pending_refs db'.pending_refs
  projection_cursors :
    Table.Agree (fun k => !w.relationship k.1) db.projection_cursors db'.projection_cursors
  sequence_gaps : Table.Agree (fun k => !w.relationship k.1) db.sequence_gaps db'.sequence_gaps

section wipe

variable {w : Window} {db db' db'' : Database} {rid : RelationshipId}

theorem Outside.refl (w : Window) (db : Database) : Outside w db db :=
  ⟨.refl _, .refl _, .refl _, .refl _, .refl _, .refl _, .refl _, .refl _, .refl _, .refl _, .refl _,
    .refl _, .refl _, .refl _⟩

theorem Outside.trans (h : Outside w db db') (h' : Outside w db' db'') : Outside w db db'' where
  messages := h.messages.trans h'.messages
  message_revisions := h.message_revisions.trans h'.message_revisions
  reactions := h.reactions.trans h'.reactions
  receipts := h.receipts.trans h'.receipts
  polls := h.polls.trans h'.polls
  poll_responses := h.poll_responses.trans h'.poll_responses
  tasks := h.tasks.trans h'.tasks
  human_requests := h.human_requests.trans h'.human_requests
  deliveries := h.deliveries.trans h'.deliveries
  security_key_events := h.security_key_events.trans h'.security_key_events
  thread_state := h.thread_state.trans h'.thread_state
  pending_refs := h.pending_refs.trans h'.pending_refs
  projection_cursors := h.projection_cursors.trans h'.projection_cursors
  sequence_gaps := h.sequence_gaps.trans h'.sequence_gaps

/-- A row with its own relationship is under a name of `rid` exactly when it is one of
`rid`. -/
theorem eventOf_filed {A : RelationshipId} {i : EventId} (hown : db.eventOf A i = true) :
    db.eventOf rid i = decide (A = rid) := by
  by_cases hA : A = rid
  · rw [decide_eq_true hA, ← hA]
    exact hown
  · rw [decide_eq_false hA, ← Bool.not_eq_true]
    exact fun h => hA (eventOf_unique hown h)

theorem pending_own (hs : Scoped db) {r : PendingRef} (hr : r ∈ db.pending_refs.rows) :
    db.eventOf r.relationship_id r.event_id = true := by
  obtain ⟨e, he, hrel, -⟩ := hs.pending_refs r hr
  exact eventOf_iff.mpr ⟨e, he, hrel⟩

/-- The wipe takes no other rows. -/
theorem wipe_outside (hs : Scoped db) (hf : Filed db) (ha : Apart db rid) :
    Outside (relationshipWindow db rid) db (wipe db rid) := by
  have hdeleted : ∀ {b : Bool}, b = true → (!b) = false := fun h => by rw [h]; rfl
  exact {
    messages := .delete_other fun m hm hq =>
      hdeleted ((eventOf_filed (hs.messages m hm)).trans hq)
    message_revisions := .delete_other fun r hr hq => hdeleted hq
    reactions := .delete_other fun r hr hq => by
      obtain ⟨A, htarget, hadded⟩ := hf.reactions r hr
      exact hdeleted (((eventOf_filed htarget).trans (eventOf_filed hadded).symm).trans hq)
    receipts := .delete_other fun r hr hq => by
      obtain ⟨A, htarget, hreceipt⟩ := hf.receipts r hr
      exact hdeleted (((eventOf_filed htarget).trans (eventOf_filed hreceipt).symm).trans hq)
    polls := .delete_other fun p hp hq => hdeleted ((eventOf_filed (hs.polls p hp)).trans hq)
    poll_responses := .delete_other fun r hr hq => hdeleted ((ha.responses r hr).trans hq)
    tasks := .delete_other fun t ht hq => hdeleted ((eventOf_filed (hs.tasks t ht)).trans hq)
    human_requests := .delete_other fun r hr hq =>
      hdeleted ((eventOf_filed (hs.human_requests r hr)).trans hq)
    deliveries := .delete_other fun d hd hq =>
      hdeleted ((eventOf_filed (hs.deliveries d hd)).trans hq)
    security_key_events := .delete_other fun r hr hq =>
      hdeleted ((eventOf_filed (hf.security_key_events r hr)).trans hq)
    thread_state := .delete_other fun r hr hq => hdeleted (Bool.and_eq_true_iff.mp hq).2
    pending_refs := .delete_other fun r hr hq =>
      hdeleted ((eventOf_filed (pending_own hs hr)).trans hq)
    projection_cursors := .delete_other fun r hr hq => hdeleted hq
    sequence_gaps := .delete_other fun r hr hq => hdeleted hq }

theorem SameRows.of_alike (h : Alike w db db') : SameRows w db db' where
  messages _ hi := h.messages.find hi
  message_revisions _ hk := h.message_revisions.find hk
  reactions _ hk := h.reactions.find hk
  receipts _ hk := h.receipts.find hk
  polls _ hi := h.polls.find hi
  poll_responses _ hk := h.poll_responses.find hk
  tasks _ hi := h.tasks.find hi
  human_requests _ hi := h.human_requests.find hi
  deliveries _ hi := h.deliveries.find hi
  security_key_events _ hi := h.security_key_events.find hi
  thread_state _ ht := h.thread_state.find ht
  pending_refs _ hi := h.pending_refs.find hi
  projection_cursors _ hk := h.projection_cursors.find hk
  sequence_gaps _ hk := h.sequence_gaps.find hk

/-- The rows under the names of the window and those under no name of it. -/
theorem SameRows.all (h : Alike w db db') (ho : Outside w db db') : SameRows everything db db' := by
  have hcases : ∀ b : Bool, b = true ∨ (!b) = true := by decide
  exact {
    messages := fun i _ => (hcases (w.event i)).elim h.messages.find ho.messages.find
    message_revisions := fun k _ =>
      (hcases (w.event k.1)).elim h.message_revisions.find ho.message_revisions.find
    reactions := fun k _ => (hcases (w.event k.1)).elim h.reactions.find ho.reactions.find
    receipts := fun k _ => (hcases (w.event k.1)).elim h.receipts.find ho.receipts.find
    polls := fun i _ => (hcases (w.event i)).elim h.polls.find ho.polls.find
    poll_responses := fun k _ =>
      (hcases (w.event k.1)).elim h.poll_responses.find ho.poll_responses.find
    tasks := fun i _ => (hcases (w.event i)).elim h.tasks.find ho.tasks.find
    human_requests := fun i _ =>
      (hcases (w.event i)).elim h.human_requests.find ho.human_requests.find
    deliveries := fun i _ => (hcases (w.event i)).elim h.deliveries.find ho.deliveries.find
    security_key_events := fun i _ =>
      (hcases (w.event i)).elim h.security_key_events.find ho.security_key_events.find
    thread_state := fun t _ => (hcases (w.thread t)).elim h.thread_state.find ho.thread_state.find
    pending_refs := fun i _ => (hcases (w.event i)).elim h.pending_refs.find ho.pending_refs.find
    projection_cursors := fun k _ =>
      (hcases (w.relationship k.1)).elim h.projection_cursors.find ho.projection_cursors.find
    sequence_gaps := fun k _ =>
      (hcases (w.relationship k.1)).elim h.sequence_gaps.find ho.sequence_gaps.find }

end wipe

/-! ## The replay -/

/-- The state of a rebuild that started on `base`. -/
structure Rebuilding (base : Database) (rid : RelationshipId) (db : Database) : Prop where
  inputs : SameInputs base db
  scope : Scoped db
  sees : (relationshipWindow base rid).Sees db rid
  threads : db.threads = base.threads
  outside : Outside (relationshipWindow base rid) base db
  responses : db.poll_responses.All (fun r => base.eventOf rid r.poll_id = base.eventOf rid r.response_event_id)

section replay

variable {w : Window} {base db db' : Database} {rid : RelationshipId} {now clock clock' : Nat}
  {ev : Event}

/-- The handler of an event of the window writes rows under its names. -/
theorem Write.outside (h : Write ev now db db') (hin : w.Holds ev) (hreads : w.Reads db ev)
    (hcovers : w.Covers db ev.relationship_id) : Outside w db db' := by
  have hout : ∀ {b : Bool}, b = true → (!b) = false := fun h => by rw [h]; rfl
  have hown : (!w.event ev.event_id) = false := hout hin.own
  have hthread : ∀ t, ev.thread_id = some t → (!w.thread t) = false := fun t ht => hout (hin.thread t ht)
  unfold Window.Reads at hreads
  cases h with
  | pending htarget =>
    exact { Outside.refl w db with pending_refs := .insertOrIgnore_other (by exact hown) }
  | reply hopens =>
    exact { Outside.refl w db with pending_refs := .insertOrIgnore_other (by exact hown) }
  | thread hopens hjoins =>
    have hkey := hthread _ hjoins.1
    unfold registerThread
    dsimp only
    split_ifs
    · exact { Outside.refl w db with
        thread_state := Table.Agree.trans (.insertOrIgnore_other (by exact hkey))
          (.modify_other (by exact hkey) (fun _ => by split_ifs <;> rfl)) }
    · exact { Outside.refl w db with thread_state := .insertOrIgnore_other (by exact hkey) }
  | message hpayload hmessages hrevisions =>
    have hstored : ∀ attachments, Outside w db { db with
        messages := _, message_revisions := _, attachments := attachments } := fun _ =>
      { Outside.refl w db with
        messages := .insert_other (by exact hown) hmessages, message_revisions := .insert_other (by exact hown) hrevisions }
    unfold bumpThreadMessage
    split
    · exact hstored _
    · rename_i t ht
      exact { hstored db.attachments with thread_state := .modify_other (by exact hthread t ht) (fun _ => by rfl) }
  | edit hpayload hm hsender hretracted hrevisions =>
    rw [hpayload] at hreads
    have htarget := hout (hreads.resolve_right (by rw [hm]; exact Option.some_ne_none _))
    exact { Outside.refl w db with
      message_revisions := .insert_other (by exact htarget) hrevisions, messages := .modify_other (by exact htarget) (fun _ => by rfl) }
  | retract hpayload hm hsender hretracted =>
    rw [hpayload] at hreads
    have htarget := hout (hreads.resolve_right (by rw [hm]; exact Option.some_ne_none _))
    exact { Outside.refl w db with messages := .modify_other (by exact htarget) (fun _ => by rfl) }
  | reactionAdded hpayload htarget =>
    have hkey := hout (hcovers _ (eventOf_of_target htarget))
    exact { Outside.refl w db with reactions := .upsert_other (by exact hkey) }
  | reactionRemoved hpayload htarget =>
    have hkey := hout (hcovers _ (eventOf_of_target htarget))
    exact { Outside.refl w db with reactions := .modify_other (by exact hkey) (fun _ => by rfl) }
  | receipt hpayload htarget =>
    have hkey := hout (hcovers _ (eventOf_of_target htarget))
    exact { Outside.refl w db with receipts := .upsert_other (by exact hkey) }
  | poll hid hrel hpolls =>
    exact { Outside.refl w db with polls := .insert_other (by exact hid ▸ hown) hpolls }
  | pollResponse hpayload hpoll haccepted =>
    rw [hpayload] at hreads
    have htarget := hout (hreads.resolve_right (by rw [hpoll]; exact Option.some_ne_none _))
    exact { Outside.refl w db with
      poll_responses := .upsert_other (by exact htarget), polls := .modify_other (by exact htarget) (fun _ => by rfl) }
  | task hid hrel htasks =>
    exact { Outside.refl w db with tasks := .insert_other (by exact hid ▸ hown) htasks }
  | taskUpdate hpayload htask hauthorized hopen =>
    rw [hpayload] at hreads
    have htarget := hout (hreads.resolve_right (by rw [htask]; exact Option.some_ne_none _))
    exact { Outside.refl w db with tasks := .modify_other (by exact htarget) (fun _ => by rfl) }
  | humanRequest hid hrel hattestation hpayload hrequests =>
    exact { Outside.refl w db with human_requests := .insert_other (by exact hid ▸ hown) hrequests }
  | humanResponse hpayload hrequest =>
    rw [hpayload] at hreads
    have htarget := hout (hreads.resolve_right (by rw [hrequest]; exact Option.some_ne_none _))
    exact { Outside.refl w db with human_requests := .modify_other (by exact htarget) (fun _ => by rfl) }
  | delivery hid hrel hdeliveries =>
    exact { Outside.refl w db with deliveries := .insert_other (by exact hid ▸ hown) hdeliveries }
  | deliveryCancel hpayload hdelivery hsender hstate =>
    rw [hpayload] at hreads
    have htarget := hout (hreads.resolve_right (by rw [hdelivery]; exact Option.some_ne_none _))
    exact { Outside.refl w db with deliveries := .modify_other (by exact htarget) (fun _ => by rfl) }
  | securityKey hid hrel hsecurity =>
    exact { Outside.refl w db with security_key_events := .insert_other (by exact hid ▸ hown) hsecurity }

theorem updateSeqState_outside (hin : w.relationship ev.relationship_id = true) :
    Outside w db (updateSeqState db ev now) := by
  have hkey : (!w.relationship ev.relationship_id) = false := by rw [hin]; rfl
  have hgaps : ∀ (seqs : List Nat) (t : Table SequenceGap.key),
      Table.Agree (fun k => !w.relationship k.1) t (seqs.foldl (fun t seq =>
        t.insertOrIgnore ⟨ev.relationship_id, ev.sender, seq, now⟩) t) := by
    intro seqs
    induction seqs with
    | nil => exact fun t => .refl t
    | cons seq seqs ih =>
      intro t
      exact Table.Agree.trans (.insertOrIgnore_other (by exact hkey)) (ih _)
  have hdelete : Table.Agree (fun k => !w.relationship k.1) db.sequence_gaps
      (db.sequence_gaps.delete (fun g => g.key = (ev.relationship_id, ev.sender, ev.sender_seq))) := by
    refine .delete_other (fun g _ hg => ?_)
    rw [of_decide_eq_true hg]
    exact hkey
  unfold updateSeqState
  dsimp only
  split_ifs
  · exact { Outside.refl w db with
      projection_cursors := .upsert_other (by exact hkey), sequence_gaps := hgaps _ _ }
  · exact { Outside.refl w db with sequence_gaps := hgaps _ _ }
  · exact { Outside.refl w db with
      projection_cursors := .upsert_other (by exact hkey), sequence_gaps := hdelete }
  · exact { Outside.refl w db with sequence_gaps := hdelete }

theorem relationshipWindow_holds {e : Event} (hlog : db.events.find e.event_id = some e) :
    (relationshipWindow db e.relationship_id).Holds e where
  own := eventOf_self hlog
  thread t ht := by
    refine List.any_eq_true.mpr ⟨e, Table.mem_iff_find.mpr hlog, ?_⟩
    exact decide_eq_true ⟨rfl, ht⟩
  relationship := decide_eq_true rfl

/-- One step of `apply_event` on an event of the relationship. -/
theorem Rebuilding.effect (h : Rebuilding base rid db) (hc : Constrained base)
    (heffect : Effect rid (fun e => e.relationship_id = rid) now db db') :
    Rebuilding base rid db' := by
  have hscope := heffect.scoped h.scope
  have hinputs := h.inputs.trans heffect.sameInputs
  have hsees := h.sees.effects (Effects.one heffect)
  cases heffect with
  | @write e _ hlog hP hwrite =>
    subst hP
    have hreads := h.sees.reads e hlog rfl
    have hthreads : db'.threads = base.threads := by
      cases hwrite with
      | thread hopens hjoins =>
        rw [registerThread_threads, Table.insertOrIgnore_of_isSome, h.threads]
        rw [h.inputs.events] at hlog
        rw [h.threads]
        exact hc.threads e (Table.mem_iff_find.mpr hlog) _ hjoins.1
      | message hpayload hmessages hrevisions =>
        obtain ⟨_, heq⟩ := bumpThreadMessage_eq _ e.thread_id e.created_at
        rw [heq]
        exact h.threads
      | _ => exact h.threads
    have hresponses : db'.poll_responses.All
        (fun r => base.eventOf e.relationship_id r.poll_id =
          base.eventOf e.relationship_id r.response_event_id) := by
      cases hwrite with
      | thread hopens hjoins =>
        obtain ⟨_, _, heq⟩ := registerThread_eq db e ‹_›
        rw [heq]
        exact h.responses
      | message hpayload hmessages hrevisions =>
        obtain ⟨_, heq⟩ := bumpThreadMessage_eq _ e.thread_id e.created_at
        rw [heq]
        exact h.responses
      | pollResponse hpayload hpoll haccepted =>
        refine h.responses.upsert ?_
        unfold Window.Reads at hreads
        rw [hpayload] at hreads
        rw [h.inputs.events] at hlog
        refine Eq.trans ?_ (eventOf_self hlog).symm
        exact hreads.resolve_right (by rw [hpoll]; exact Option.some_ne_none _)
      | _ => exact h.responses
    exact ⟨hinputs, hscope, hsees, hthreads,
      h.outside.trans (hwrite.outside (h.sees.holds e hlog rfl) hreads h.sees.covers), hresponses⟩
  | resolve hown =>
    have hkey := h.sees.covers _ hown
    refine ⟨hinputs, hscope, hsees, h.threads, ?_, h.responses⟩
    exact { h.outside with
      pending_refs := h.outside.pending_refs.trans (.modify_other (by simpa using hkey) (fun _ => by rfl)) }
  | replyState hown =>
    have hkey := h.sees.covers _ hown
    refine ⟨hinputs, hscope, hsees, h.threads, ?_, h.responses⟩
    exact { h.outside with
      messages := h.outside.messages.trans (.modify_other (by simpa using hkey) (fun _ => by rfl)) }
  | quarantine => exact ⟨hinputs, hscope, hsees, h.threads, { h.outside with }, h.responses⟩
  | @sequence e hrel =>
    have hout : Outside (relationshipWindow base rid) db (updateSeqState db e now) :=
      updateSeqState_outside (decide_eq_true hrel)
    obtain ⟨_, _, heq⟩ := updateSeqState_eq db e now
    rw [heq] at hinputs hscope hsees hout ⊢
    exact ⟨hinputs, hscope, hsees, h.threads, h.outside.trans hout, h.responses⟩

theorem Rebuilding.effects (h : Rebuilding base rid db) (hc : Constrained base)
    (heffects : Effects rid (fun e => e.relationship_id = rid) now db db') :
    Rebuilding base rid db' :=
  heffects.invariant (fun _ _ _ h₁ heffect => h₁.effect hc heffect) h

theorem wipe_asks (hs : Scoped db) : (relationshipWindow db rid).Asks (wipe db rid) rid := by
  refine ⟨fun i hi hrow => ?_, fun e he hrel hrequest => ?_⟩
  · obtain ⟨r, hr⟩ := Option.isSome_iff_exists.mp hrow
    obtain rfl : r.request_id = i := Table.key_of_find hr
    obtain ⟨hmem, hkept⟩ := Table.mem_delete.mp (Table.mem_iff_find.mpr hr)
    have hgone : db.eventOf rid r.request_id = false := (eventOf_filed (hs.human_requests r hmem)).trans hkept
    exact absurd (hi.symm.trans hgone) Bool.noConfusion
  · cases hout : outOfThread db e with
    | true => exact Or.inr hout
    | false =>
      left
      refine (Option.any_eq_true _ _).mpr ⟨e, he, ?_⟩
      rw [hout, decide_eq_true ⟨hrel, hrequest⟩]
      rfl

/-- A wipe takes no row that an event looks up outside the window. -/
theorem wipe_sees (hs : Scoped db) (ha : Apart db rid) :
    (relationshipWindow db rid).Sees (wipe db rid) rid := by
  refine ⟨fun e he hrel => ?_, fun e he hrel => ?_, wipe_asks hs⟩
  · subst hrel
    exact relationshipWindow_holds he
  have hreads := ha.reads e he hrel
  have hgone : ∀ {κ ρ : Type} {key : ρ → κ} [DecidableEq κ] {t : Table key} {q : ρ → Bool} {k : κ},
      t.find k = none → (t.delete q).find k = none := by
    intro κ ρ key _ t q k hnone
    rw [Table.find_delete, hnone]
    rfl
  unfold Window.Reads at hreads ⊢
  cases hpayload : e.payload with
  | messageEdited target body reason => rw [hpayload] at hreads; exact hreads.imp_right hgone
  | messageRetracted target reason => rw [hpayload] at hreads; exact hreads.imp_right hgone
  | pollResponded poll_id choice_ids human_confirmed approval_record_id =>
    rw [hpayload] at hreads
    exact hreads.imp_right hgone
  | taskUpdated task_id status note => rw [hpayload] at hreads; exact hreads.imp_right hgone
  | humanResponded request_id answer approved approval_record_id =>
    rw [hpayload] at hreads
    exact hreads.imp_right hgone
  | deliveryCanceled scheduled_event_id => rw [hpayload] at hreads; exact hreads.imp_right hgone
  | _ => trivial

theorem Rebuilding.start (hs : Scoped db) (hf : Filed db) (ha : Apart db rid) :
    Rebuilding db rid (wipe db rid) :=
  ⟨⟨rfl, rfl, rfl⟩, hs.wipe, wipe_sees hs ha, rfl, wipe_outside hs hf ha, ha.responses.delete _⟩

theorem replayOne_own (hs : Scoped db) (hlog : db.events.find ev.event_id = some ev) :
    Effects ev.relationship_id (fun e => e.relationship_id = ev.relationship_id)
      (ev.received_at.getD clock) db (replayOne clock db ev) := by
  refine (replayOne_effects hs hlog).1.mono (fun e he => ?_)
  rcases he with rfl | hwaits
  · rfl
  · exact (hwaits.names hs).1

/-- The loop raises nothing. -/
theorem replay_fold {evs : List Event} (hs : Scoped db)
    (hlog : ∀ ev ∈ evs, db.events.find ev.event_id = some ev) :
    replay clock evs db = .done (evs.foldl (replayOne clock) db) := by
  induction evs generalizing db with
  | nil => rfl
  | cons ev evs ih =>
    obtain ⟨heffects, hloop⟩ : Effects ev.relationship_id (Dispatches db ev)
        (ev.received_at.getD clock) db (replayOne clock db ev) ∧ _ :=
      replayOne_effects hs (hlog ev List.mem_cons_self)
    rw [hloop, List.foldl_cons]
    refine ih (heffects.scoped hs) (fun e he => ?_)
    rw [heffects.sameInputs.events]
    exact hlog e (List.mem_cons_of_mem ev he)

theorem Rebuilding.fold {evs : List Event} (h : Rebuilding base rid db) (hc : Constrained base)
    (hlog : ∀ ev ∈ evs, base.events.find ev.event_id = some ev ∧ ev.relationship_id = rid) :
    Rebuilding base rid (evs.foldl (replayOne clock) db) := by
  induction evs generalizing db with
  | nil => exact h
  | cons ev evs ih =>
    obtain ⟨hev, hrel⟩ := hlog ev List.mem_cons_self
    refine ih ?_ (fun e he => hlog e (List.mem_cons_of_mem ev he))
    subst hrel
    rw [← h.inputs.events] at hev
    exact h.effects hc (replayOne_own h.scope hev)

end replay

/-! ## The order of the log -/

instance : Std.Total displayOrder := ⟨fun _ _ => le_total _ _⟩

instance : IsTrans Event displayOrder := ⟨fun _ _ _ => le_trans⟩

section rebuilt

variable {db db' : Database} {rid : RelationshipId} {clock clock' : Nat}

theorem opensThread_of_request {payload : Payload} (h : payload.eventType = .humanRequested) :
    payload.opensThread = true := by
  cases payload with
  | humanRequested => rfl
  | receipt kind => cases kind <;> exact EventType.noConfusion h
  | securityKey action => cases action <;> exact EventType.noConfusion h
  | _ => exact EventType.noConfusion h

theorem rebuild_eq_fold (hs : Scoped db) :
    rebuildProjections db rid clock =
      (relationshipEvents db rid).foldl (replayOne clock) (wipe db rid) := by
  have hfold : replay clock (relationshipEvents db rid) (wipe db rid) =
      .done ((relationshipEvents db rid).foldl (replayOne clock) (wipe db rid)) :=
    replay_fold hs.wipe (fun ev hev => (mem_relationshipEvents hev).1)
  unfold rebuildProjections
  rw [hfold]
  rfl

theorem Rebuilding.rebuild (hs : Scoped db) (hc : Constrained db) (hf : Filed db) (ha : Apart db rid) :
    Rebuilding db rid (rebuildProjections db rid clock) := by
  rw [rebuild_eq_fold hs]
  exact (Rebuilding.start hs hf ha).fold hc (fun ev hev => mem_relationshipEvents hev)

/-- The rebuild registers no thread. -/
theorem Rebuilding.sameJoins {base : Database} (h : Rebuilding base rid db) : SameJoins rid base db := by
  intro ev _ _ _
  unfold outOfThread
  rw [h.threads]

theorem relationshipWindow_eq (hlog : ∀ i, db'.events.find i = db.events.find i)
    (hjoins : SameJoins rid db db') : relationshipWindow db' rid = relationshipWindow db rid := by
  have hevent : db'.eventOf rid = db.eventOf rid := by
    funext i
    unfold Database.eventOf
    rw [hlog]
  have hthread : db'.threadOf rid = db.threadOf rid := by
    funext t
    unfold Database.threadOf
    rw [Bool.eq_iff_iff, List.any_eq_true, List.any_eq_true]
    simp only [Table.mem_iff_find, hlog]
  have hasks : db'.asks rid = db.asks rid := by
    funext i
    unfold Database.asks
    rw [hlog]
    cases hrow : db.events.find i with
    | none => rfl
    | some e =>
      rw [Option.any_some, Option.any_some]
      by_cases hrequest : e.relationship_id = rid ∧ e.payload.eventType = .humanRequested
      · have hlogged : db.events.find e.event_id = some e := by
          rw [Table.key_of_find hrow]
          exact hrow
        rw [hjoins e hlogged hrequest.1 (opensThread_of_request hrequest.2)]
      · rw [decide_eq_false hrequest]
        rfl
  unfold relationshipWindow
  rw [hevent, hthread, hasks]

/-- A rebuilt store and the store before are as the rebuild needs them. -/
theorem Determined.again {again : Nat} (hs : Scoped db) (hc : Constrained db) (hf : Filed db)
    (ha : Apart db rid) (htimes : SameTimes rid clock again db) :
    Determined rid clock again db (rebuildProjections db rid clock) := by
  have hrebuilt : Rebuilding db rid (rebuildProjections db rid clock) := .rebuild hs hc hf ha
  have hevents := hrebuilt.inputs.events
  have hjoins : SameJoins rid db (rebuildProjections db rid clock) := hrebuilt.sameJoins
  have hwindow : relationshipWindow (rebuildProjections db rid clock) rid = relationshipWindow db rid :=
    relationshipWindow_eq (fun i => by rw [hevents]) hjoins
  refine ⟨hjoins, ha, ⟨fun e he hrel => ?_, ?_⟩, ?_, htimes⟩
  · rw [hwindow]
    exact hrebuilt.sees.reads e he hrel
  · have hown : (rebuildProjections db rid clock).eventOf rid = db.eventOf rid :=
      congrArg Window.event hwindow
    rw [hown]
    exact hrebuilt.responses
  · intro ev _ _ _ approval _ _ _ _
    unfold humanResponseAttestation
    rw [hrebuilt.inputs.relationships, hrebuilt.inputs.human_approvals]

/-! ## What the rebuild tells of the threads -/

/-- A state row of a thread has the conversation of the thread. -/
def Threaded (db : Database) : Prop :=
  db.thread_state.All (fun r => ∃ row, db.threads.find r.thread_id = some row ∧
    row.conversation_id = r.conversation_id)

theorem Threaded.registerThread {ev : Event} {t : ThreadId} (h : Threaded db) (hjoins : Joins db ev t) :
    Threaded (registerThread db ev t) := by
  have hjoins' := hjoins.registerThread
  have hnew : ∃ row, (Store.registerThread db ev t).threads.find t = some row ∧
      row.conversation_id = ev.conversation_id := by
    have hrow : ((Store.registerThread db ev t).threads.find t).isSome := by
      rw [registerThread_threads, Table.find_insertOrIgnore, if_pos rfl]
      rfl
    obtain ⟨row, hrow⟩ := Option.isSome_iff_exists.mp hrow
    exact ⟨row, hrow, hjoins'.2 row hrow⟩
  have hold : db.thread_state.All (fun r => ∃ row,
      (Store.registerThread db ev t).threads.find r.thread_id = some row ∧
        row.conversation_id = r.conversation_id) := by
    refine h.imp (fun r hr => hr.imp fun row hrow => ⟨?_, hrow.2⟩)
    rw [registerThread_threads, Table.find_insertOrIgnore]
    split_ifs with hkey
    · rw [← hkey, hrow.1]
      rfl
    · exact hrow.1
  have hins : (db.thread_state.insertOrIgnore { thread_id := t, conversation_id := ev.conversation_id }).All
      (fun r => ∃ row, (Store.registerThread db ev t).threads.find r.thread_id = some row ∧
        row.conversation_id = r.conversation_id) := hold.insertOrIgnore hnew
  unfold Threaded Store.registerThread at *
  dsimp only at hins ⊢
  split_ifs at hins ⊢
  · refine hins.modify (fun r _ hr => ?_) (fun _ => by split_ifs <;> rfl)
    split_ifs
    · exact hr
    · exact hr
  · exact hins

theorem Threaded.kept : Kept Threaded where
  initial := .empty
  inputs _ _ h := h
  append _ h happend := by
    obtain ⟨threads, hthreads, heq⟩ := append_threads happend
    rw [heq]
    exact h.imp fun r hr => hr.imp fun row hrow => ⟨hthreads _ _ hrow.1, hrow.2⟩
  effect _ h heffect := by
    cases heffect with
    | write hlog hP hwrite =>
      cases hwrite with
      | thread hopens hjoins => exact h.registerThread hjoins
      | message hpayload hmessages hrevisions =>
        unfold bumpThreadMessage
        split
        · exact h
        · refine Table.All.modify h ?_ (fun _ => by rfl)
          exact fun _ _ hold => hold
      | _ => exact h
    | sequence =>
      obtain ⟨_, _, heq⟩ := updateSeqState_eq _ ‹_› _
      rw [heq]
      exact h
    | _ => exact h
  wipe _ _ h := h.delete _
  expire _ _ _ h := h

end rebuilt

/-! ### Two messages of one thread -/

end MuseAgentSocial.Store
