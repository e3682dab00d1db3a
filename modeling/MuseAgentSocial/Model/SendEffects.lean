import MuseAgentSocial.Model.Outgoing

/-!
# The effects of the outbox

What each transaction of the send path does when it commits.

* `persistOutgoing_spec`, `receiveCommit_spec`: the rows that a send and a receive add.
* `Moved`: what `run_due` and a cancellation change, `releaseOneRow_spec` and
  `recordReleaseFailure_spec`.
* `Effect` lists the effects by operation.  `outbox_step` and `outbox_invariant` reduce a run
  to them.
-/

namespace MuseAgentSocial.Outbox

open Model Crypto
open Scheduler (SchedState MAX_RELEASE_ATTEMPTS)

/-! ## What a send that commits has done -/

section spec

variable {α : Type} {s s' : Tables} {header : Protected} {payload : Payload} {envelope : SealedEnvelope}
  {identity : IdentityId} {recipients : List Wrap} {now : Nat} {a : α}

/-- The approval of the payload, if it names one, is claimed in `t` and consumed in `t'`. -/
def Claimed (payload : Payload) (rid : RelationshipId) (now : Nat) (t t' : Approvals) : Prop :=
  match payload.approvalId with
  | none => t' = t
  | some a => ∃ binding, payload.bindings rid = .ok binding ∧ t.consume a now binding = some t'

theorem claimApproval_exec {rid : RelationshipId} {k : Body α} (h : (claimApproval payload rid now k).exec s = .ok (s', a)) :
    ∃ t, Claimed payload rid now s.human_approvals t ∧ k.exec { s with human_approvals := t } = .ok (s', a) := by
  unfold claimApproval at h
  unfold Claimed
  cases hid : payload.approvalId with
  | none =>
    rw [hid] at h
    exact ⟨_, rfl, h⟩
  | some i =>
    rw [hid] at h
    cases hb : payload.bindings rid with
    | error e =>
      rw [hb] at h
      exact absurd h (by simp)
    | ok binding =>
      rw [hb] at h
      dsimp only at h
      rw [Txn.exec_execute] at h
      cases hc : s.human_approvals.consume i now binding with
      | none =>
        rw [hc] at h
        exact absurd h (by simp [Except.bind])
      | some t =>
        rw [hc] at h
        exact ⟨t, ⟨binding, rfl, hc⟩, h⟩

/-- The fields that no statement of a body writes. -/
structure SameSettings (s s' : Tables) : Prop where
  referenced : s'.referenced = s.referenced
  accepted_receipts_enabled : s'.accepted_receipts_enabled = s.accepted_receipts_enabled

theorem insertEvent_eq_ok {row : EventRow} (h : s.insertEvent row = .ok s') :
    ∃ events, s.events.insert row = some events ∧ s' = { s with events } := by
  unfold Tables.insertEvent at h
  cases hins : s.events.insert row with
  | none =>
    rw [hins] at h
    exact absurd h (by simp)
  | some events =>
    rw [hins] at h
    dsimp only at h
    split_ifs at h
    exact ⟨events, rfl, (Except.ok.inj h).symm⟩

theorem enqueue_eq_ok {row : QueueRow} (h : s.enqueue row = .ok s') :
    ∃ scheduler_queue, s.scheduler_queue.insert row = some scheduler_queue ∧ s' = { s with scheduler_queue } := by
  unfold Tables.enqueue at h
  cases hins : s.scheduler_queue.insert row with
  | none =>
    rw [hins] at h
    exact absurd h (by simp)
  | some queue =>
    rw [hins] at h
    exact ⟨queue, rfl, (Except.ok.inj h).symm⟩

/-- A statement that succeeds. -/
theorem execute_exec {f : Tables → Except SendError Tables} {k : Body α} (h : (Txn.execute f k).exec s = .ok (s', a)) :
    ∃ t, f s = .ok t ∧ k.exec t = .ok (s', a) := by
  rw [Txn.exec_execute] at h
  cases hf : f s with
  | error e =>
    rw [hf] at h
    exact absurd h (by simp [Except.bind])
  | ok t =>
    rw [hf] at h
    exact ⟨t, rfl, h⟩

theorem registerThread_exec {k : Body α} (h : (registerThread header k).exec s = .ok (s', a)) :
    ∃ threads, k.exec { s with threads } = .ok (s', a) := by
  unfold registerThread at h
  split at h
  · exact ⟨s.threads, h⟩
  · rw [Txn.exec_query] at h
    split at h
    · obtain ⟨t, ht, hk⟩ := execute_exec h
      obtain rfl := Except.ok.inj ht
      exact ⟨_, hk⟩
    · split_ifs at h
      · exact absurd h (by simp)
      · exact ⟨s.threads, h⟩

/-- What the rows of a sealed event change. -/
structure Inserted (header : Protected) (payload : Payload) (envelope : SealedEnvelope) (s s' : Tables) : Prop where
  valid : payload.valid = true
  events : s.events.insert (header.row envelope) = some s'.events
  sender_sequence : s'.sender_sequence = s.sender_sequence.upsert ⟨header.relationship_id, header.sender,
    max (s.lastSeq header.relationship_id header.sender) header.sender_seq⟩
  scheduler_queue : ∃ row, row.scheduled_id = header.event_id ∧ row.approval_id = none ∧
    s.scheduler_queue.insert row = some s'.scheduler_queue
  human_approvals : s'.human_approvals = s.human_approvals
  settings : SameSettings s s'

theorem insertSealed_exec {k : Body α} (h : (insertSealed header payload envelope now k).exec s = .ok (s', a)) :
    ∃ t, Inserted header payload envelope s t ∧ k.exec t = .ok (s', a) := by
  obtain ⟨s₁, hs₁, h⟩ := execute_exec h
  obtain rfl := Except.ok.inj hs₁
  obtain ⟨threads, h⟩ := registerThread_exec h
  obtain ⟨s₂, hs₂, h⟩ := execute_exec h
  obtain ⟨events, hevents, rfl⟩ := insertEvent_eq_ok hs₂
  obtain ⟨s₃, hs₃, h⟩ := execute_exec h
  obtain rfl := Except.ok.inj hs₃
  obtain ⟨s₄, hs₄, h⟩ := execute_exec h
  obtain rfl := Except.ok.inj hs₄
  split_ifs at h with hvalid
  · obtain ⟨s₅, hs₅, h⟩ := execute_exec h
    obtain rfl := Except.ok.inj hs₅
    obtain ⟨s₆, hs₆, h⟩ := execute_exec h
    obtain ⟨queue, hqueue, rfl⟩ := enqueue_eq_ok hs₆
    refine ⟨_, ?_, h⟩
    exact ⟨hvalid, hevents, rfl, ⟨_, rfl, rfl, hqueue⟩, rfl, ⟨rfl, rfl⟩⟩
  · exact absurd h (by simp)

/-- What a send that commits has done: its event is in the log with the next number of
its sender, sealed under it, and its approval is consumed. -/
structure Persisted (header : Protected) (payload : Payload) (now : Nat) (s s' : Tables) (ev : EventRow) :
    Prop where
  numbered : ev.sender_seq = s.maxSeq header.relationship_id header.sender + 1
  sealed : ev.sealed_envelope.header = { header with sender_seq := ev.sender_seq }
  content : ev.sealed_envelope.payload = payload
  event_id : ev.event_id = header.event_id
  relationship_id : ev.relationship_id = header.relationship_id
  sender : ev.sender = header.sender
  valid : payload.valid = true
  events : s.events.insert ev = some s'.events
  sender_sequence : s'.sender_sequence = s.sender_sequence.upsert ⟨header.relationship_id, header.sender,
    max (s.lastSeq header.relationship_id header.sender) ev.sender_seq⟩
  claimed : Claimed payload header.relationship_id now s.human_approvals s'.human_approvals
  fresh : s.scheduler_queue.find header.event_id = none
  queued : ∃ row, row.approval_id = payload.approvalId ∧
    ∀ id, s'.scheduler_queue.find id = if id = header.event_id then some row else s.scheduler_queue.find id
  settings : SameSettings s s'

theorem sealEnvelope_eq_ok (h : sealEnvelope header payload identity recipients = .ok envelope) :
    envelope.header = header ∧ envelope.payload = payload := by
  unfold sealEnvelope at h
  split_ifs at h
  rw [← Except.ok.inj h]
  exact ⟨rfl, rfl⟩

theorem persistOutgoing_spec {p : Protected}
    (h : (persistOutgoing header payload identity recipients now).exec s = .ok (s', p)) :
    ∃ ev, Persisted header payload now s s' ev := by
  obtain ⟨t, hclaimed, h⟩ := claimApproval_exec h
  rw [Txn.exec_query] at h
  dsimp only at h
  split at h
  · exact absurd h (by simp)
  · rename_i envelope hseal
    obtain ⟨hheader, hpayload⟩ := sealEnvelope_eq_ok hseal
    obtain ⟨u, hins, h⟩ := insertSealed_exec h
    obtain ⟨row, hid, hnone, hqueue⟩ := hins.scheduler_queue
    have hfresh : s.scheduler_queue.find header.event_id = none := by
      have := (Table.insert_eq_some hqueue).1
      rwa [hid] at this
    have hfind : ∀ id, u.scheduler_queue.find id = if id = header.event_id then some row else s.scheduler_queue.find id := by
      intro id
      rw [Table.find_of_insert hqueue, hid]
    refine ⟨Protected.row { header with sender_seq := s.maxSeq header.relationship_id header.sender + 1 } envelope,
      ⟨rfl, hheader, hpayload, rfl, rfl, rfl, hins.valid, ?_, ?_, ?_, hfresh, ?_, ?_⟩⟩
    · split at h <;> obtain ⟨rfl, -⟩ := Prod.mk.inj (Except.ok.inj h) <;> exact hins.events
    · split at h <;> obtain ⟨rfl, -⟩ := Prod.mk.inj (Except.ok.inj h) <;> exact hins.sender_sequence
    · split at h <;> obtain ⟨rfl, -⟩ := Prod.mk.inj (Except.ok.inj h) <;> exact hins.human_approvals ▸ hclaimed
    · split at h
      · rename_i hnoid
        obtain ⟨rfl, -⟩ := Prod.mk.inj (Except.ok.inj h)
        exact ⟨row, hnone.trans hnoid.symm, hfind⟩
      · rename_i i hsome
        obtain ⟨rfl, -⟩ := Prod.mk.inj (Except.ok.inj h)
        refine ⟨{ row with approval_id := some i }, hsome.symm, fun id => ?_⟩
        rw [Table.find_modify]
        split_ifs with heq
        · rw [hfind, if_pos rfl]
          rfl
        · rw [hfind, if_neg heq]
    · have hsettings : SameSettings s u := ⟨hins.settings.1, hins.settings.2⟩
      split at h <;> obtain ⟨rfl, -⟩ := Prod.mk.inj (Except.ok.inj h) <;> exact ⟨hsettings.1, hsettings.2⟩

/-- What the receive transaction of an object changes, without a receipt. -/
structure Arrived (o : Received) (s s' : Tables) : Prop where
  events : s.events.insert (o.envelope.header.row o.envelope) = some s'.events
  sender_sequence : s'.sender_sequence = s.sender_sequence.upsert ⟨o.envelope.header.relationship_id,
    o.envelope.header.sender,
    max (s.lastSeq o.envelope.header.relationship_id o.envelope.header.sender) o.envelope.header.sender_seq⟩
  scheduler_queue : s'.scheduler_queue = s.scheduler_queue
  human_approvals : s'.human_approvals = s.human_approvals
  settings : SameSettings s s'

theorem persist_spec {d : Draft} {me : IdentityId} {r : Result} (h : (d.persist me).exec s = .ok (s', r)) :
    ∃ ev, Persisted (d.header me) d.payload d.now s s' ev := by
  unfold Draft.persist at h
  rw [Txn.exec_bind] at h
  cases hexec : (persistOutgoing (d.header me) d.payload me d.recipients d.now).exec s with
  | error e =>
    rw [hexec] at h
    exact absurd h (by simp [Except.bind])
  | ok sent =>
    obtain ⟨t, p⟩ := sent
    rw [hexec] at h
    obtain ⟨rfl, -⟩ := Prod.mk.inj (Except.ok.inj h)
    exact persistOutgoing_spec hexec

theorem receiveCommit_spec {o : Received} {me : IdentityId} {r : Result}
    (h : (receiveCommit me o).exec s = .ok (s', r)) :
    ∃ t, Arrived o s t ∧
      (s' = t ∨ ∃ ev, Persisted (o.receiptDraft.header me) o.receiptDraft.payload o.receiptDraft.now t s' ev) := by
  obtain ⟨s₁, hs₁, h⟩ := execute_exec h
  obtain rfl := Except.ok.inj hs₁
  obtain ⟨s₂, hs₂, h⟩ := execute_exec h
  obtain rfl := Except.ok.inj hs₂
  rw [Txn.exec_query] at h
  split_ifs at h
  · exact absurd h (by simp)
  · obtain ⟨s₃, hs₃, h⟩ := execute_exec h
    obtain rfl := Except.ok.inj hs₃
    obtain ⟨s₄, hs₄, h⟩ := execute_exec h
    obtain ⟨events, hevents, rfl⟩ := insertEvent_eq_ok hs₄
    obtain ⟨s₅, hs₅, h⟩ := execute_exec h
    obtain rfl := Except.ok.inj hs₅
    obtain ⟨s₆, hs₆, h⟩ := execute_exec h
    obtain rfl := Except.ok.inj hs₆
    rw [Txn.exec_query] at h
    split_ifs at h
    · obtain ⟨ev, hev⟩ := persist_spec h
      refine ⟨_, ?_, Or.inr ⟨ev, hev⟩⟩
      exact ⟨hevents, rfl, rfl, rfl, ⟨rfl, rfl⟩⟩
    · refine ⟨_, ?_, Or.inl (Prod.mk.inj (Except.ok.inj h)).1.symm⟩
      exact ⟨hevents, rfl, rfl, rfl, ⟨rfl, rfl⟩⟩

/-- An event that was not delivered in time, or whose release failed too often. -/
def QueueRow.Undelivered (row : QueueRow) : Prop :=
  row.state = .expired ∨ MAX_RELEASE_ATTEMPTS ≤ row.release_failures

/-- What the updates of a row keep. -/
structure QueueRow.Becomes (row row' : QueueRow) : Prop where
  approval_id : row'.approval_id = row.approval_id
  undelivered : row.Undelivered → row'.Undelivered

/-- An event that consumed the approval was not delivered. -/
def Tables.Undelivered (s : Tables) (a : ApprovalId) : Prop :=
  ∃ id row, s.scheduler_queue.find id = some row ∧ row.approval_id = some a ∧ row.Undelivered

/-- The rows of `s'` are those of `s`, updated. -/
def QueueMoves (s s' : Tables) : Prop :=
  ∀ id, ∃ f : QueueRow → QueueRow, (∀ row, QueueRow.Becomes row (f row)) ∧
    s'.scheduler_queue.find id = (s.scheduler_queue.find id).map f

theorem QueueMoves.refl (s : Tables) : QueueMoves s s := fun _ =>
  ⟨fun row => row, fun _ => ⟨rfl, fun h => h⟩, by simp⟩

theorem QueueMoves.trans {t : Tables} (h : QueueMoves s t) (h' : QueueMoves t s') : QueueMoves s s' := by
  intro id
  obtain ⟨f, hf, hfind⟩ := h id
  obtain ⟨g, hg, hfind'⟩ := h' id
  refine ⟨g ∘ f, fun row => ?_, by rw [hfind', hfind, Option.map_map]⟩
  exact ⟨(hg _).approval_id.trans (hf row).approval_id, fun hrow => (hg _).undelivered ((hf row).undelivered hrow)⟩

theorem QueueMoves.approvalOf (h : QueueMoves s s') (id : EventId) : s'.approvalOf id = s.approvalOf id := by
  obtain ⟨f, hf, hfind⟩ := h id
  unfold Tables.approvalOf
  rw [hfind]
  cases s.scheduler_queue.find id with
  | none => rfl
  | some row => exact (hf row).approval_id

theorem QueueMoves.undelivered (h : QueueMoves s s') {i : ApprovalId} (hi : s.Undelivered i) : s'.Undelivered i := by
  obtain ⟨id, row, hrow, hap, hun⟩ := hi
  obtain ⟨f, hf, hfind⟩ := h id
  exact ⟨id, f row, by rw [hfind, hrow]; rfl, (hf row).approval_id.trans hap, (hf row).undelivered hun⟩

theorem QueueMoves.one {sid : EventId} {f : QueueRow → QueueRow} (hf : ∀ row, QueueRow.Becomes row (f row))
    (hqueue : ∀ id, s'.scheduler_queue.find id =
      if id = sid then (s.scheduler_queue.find sid).map f else s.scheduler_queue.find id) : QueueMoves s s' := by
  intro id
  rw [hqueue]
  split_ifs with hid
  · exact ⟨f, hf, by rw [hid]⟩
  · exact QueueMoves.refl s id

theorem leaveScheduled_moves (s : Tables) (sid : EventId) (state : SchedState) :
    QueueMoves s (s.leaveScheduled sid state) := by
  refine .one (fun row => ?_) (s.find_leaveScheduled sid state)
  split_ifs with hsched
  · exact ⟨rfl, fun hun => Or.inr (hun.resolve_left (by simp [hsched]))⟩
  · exact ⟨rfl, fun hun => hun⟩

theorem countFailure_moves (s : Tables) (sid : EventId) : QueueMoves s (s.countFailure sid) := by
  refine .one (fun row => ?_) (s.find_countFailure sid)
  exact ⟨rfl, fun hun => hun.imp_right Nat.le_succ_of_le⟩

/-- What `run_due` and a cancellation change: rows of the queue, and the approval of an event
that was not delivered. -/
structure Moved (s s' : Tables) : Prop where
  events : s'.events = s.events
  sender_sequence : s'.sender_sequence = s.sender_sequence
  queue : QueueMoves s s'
  human_approvals : s'.human_approvals = s.human_approvals ∨
    ∃ i now, s'.Undelivered i ∧ s'.human_approvals = s.human_approvals.restore i now
  settings : SameSettings s s'

theorem Moved.refl (s : Tables) : Moved s s := ⟨rfl, rfl, .refl s, Or.inl rfl, ⟨rfl, rfl⟩⟩

theorem takeScheduled_exec {sid : EventId} {state : SchedState} {k : Body α}
    (h : (takeScheduled sid state k).exec s = .ok (s', a)) : k.exec (s.leaveScheduled sid state) = .ok (s', a) := by
  unfold takeScheduled at h
  rw [Txn.exec_query] at h
  split_ifs at h
  · obtain ⟨t, ht, h⟩ := execute_exec h
    obtain rfl := Except.ok.inj ht
    exact h
  · exact absurd h (by simp)

theorem restoreApproval_exec {sid : EventId} {approval_id : Option ApprovalId} {state : SchedState} {k : Body α}
    (h : (restoreApprovalForUndelivered sid approval_id now state k).exec s = .ok (s', a)) :
    ∃ human_approvals surface_queue, k.exec { s with human_approvals, surface_queue } = .ok (s', a) ∧
      (human_approvals = s.human_approvals ∨
        ∃ i, approval_id = some i ∧ human_approvals = s.human_approvals.restore i now) := by
  unfold restoreApprovalForUndelivered at h
  split at h
  · exact ⟨_, _, h, Or.inl rfl⟩
  · rw [Txn.exec_query] at h
    obtain ⟨s₁, hs₁, h⟩ := execute_exec h
    obtain rfl := Except.ok.inj hs₁
    obtain ⟨s₂, hs₂, h⟩ := execute_exec h
    obtain rfl := Except.ok.inj hs₂
    exact ⟨_, _, h, Or.inr ⟨_, rfl, rfl⟩⟩

/-- A row that `run_due` read still stands in the queue with its approval. -/
def Held (s : Tables) (row : QueueRow) : Prop :=
  ∀ i, row.approval_id = some i → s.approvalOf row.scheduled_id = some i

theorem releaseOneRow_spec {reply : Reply} {row : QueueRow} {r : Result} (hheld : Held s row)
    (h : (releaseOneRow now reply row).exec s = .ok (s', r)) : Moved s s' := by
  unfold releaseOneRow at h
  rw [Txn.exec_query] at h
  split at h
  · obtain ⟨rfl, -⟩ := Prod.mk.inj (Except.ok.inj h)
    exact .refl s
  · rename_i hscheduled
    split_ifs at h
    · obtain ⟨s₁, hs₁, h⟩ := execute_exec h
      obtain rfl := Except.ok.inj hs₁
      obtain ⟨human_approvals, surface_queue, h, happrovals⟩ := restoreApproval_exec h
      obtain ⟨rfl, -⟩ := Prod.mk.inj (Except.ok.inj h)
      refine ⟨rfl, rfl, leaveScheduled_moves s row.scheduled_id .expired, happrovals.imp_right ?_, ⟨rfl, rfl⟩⟩
      rintro ⟨i, hi, hrestored⟩
      -- The row is still there: it was scheduled, so it has expired now.
      obtain ⟨current, hcurrent, hap⟩ := Option.bind_eq_some_iff.mp (hheld i hi)
      have hstate : current.state = .scheduled := by
        simpa [Tables.stateOf, hcurrent] using hscheduled
      refine ⟨i, now, ⟨row.scheduled_id, { current with state := .expired }, ?_, hap, Or.inl rfl⟩, hrestored⟩
      show (s.leaveScheduled row.scheduled_id .expired).scheduler_queue.find row.scheduled_id = _
      rw [Tables.find_leaveScheduled, if_pos rfl, hcurrent, Option.map_some, if_pos hstate]
    · obtain ⟨rfl, -⟩ := Prod.mk.inj (Except.ok.inj h)
      exact .refl s
    · have hclaimed := takeScheduled_exec h
      split at hclaimed
      · obtain ⟨rfl, -⟩ := Prod.mk.inj (Except.ok.inj hclaimed)
        exact ⟨rfl, rfl, leaveScheduled_moves s row.scheduled_id .released, Or.inl rfl, ⟨rfl, rfl⟩⟩
      · obtain ⟨rfl, -⟩ := Prod.mk.inj (Except.ok.inj hclaimed)
        exact ⟨rfl, rfl, leaveScheduled_moves s row.scheduled_id .released, Or.inl rfl, ⟨rfl, rfl⟩⟩
      · exact absurd hclaimed (by simp)
      · exact absurd hclaimed (by simp)
  · obtain ⟨rfl, -⟩ := Prod.mk.inj (Except.ok.inj h)
    exact .refl s

theorem recordReleaseFailure_spec {sid : EventId} {r : Result}
    (h : (recordReleaseFailure sid now).exec s = .ok (s', r)) : Moved s s' := by
  obtain ⟨s₁, hs₁, h⟩ := execute_exec h
  obtain rfl := Except.ok.inj hs₁
  rw [Txn.exec_query] at h
  split at h
  · exact absurd h (by simp)
  · rename_i row hrow
    have hcounted := countFailure_moves s sid
    split_ifs at h with hmax
    · obtain ⟨s₂, hs₂, h⟩ := execute_exec h
      obtain rfl := Except.ok.inj hs₂
      rw [Txn.exec_query] at h
      obtain ⟨human_approvals, surface_queue, h, happrovals⟩ := restoreApproval_exec h
      obtain ⟨rfl, -⟩ := Prod.mk.inj (Except.ok.inj h)
      have hleft := leaveScheduled_moves (s.countFailure sid) sid .dead
      refine ⟨rfl, rfl, hcounted.trans hleft, happrovals.imp_right ?_, ⟨rfl, rfl⟩⟩
      rintro ⟨i, hi, hrestored⟩
      rw [hleft.approvalOf] at hi
      obtain ⟨_, hrow', hap⟩ := Option.bind_eq_some_iff.mp hi
      obtain rfl := Option.some.inj (hrow.symm.trans hrow')
      exact ⟨i, now, hleft.undelivered ⟨sid, row, hrow, hap, Or.inr hmax⟩, hrestored⟩
    · obtain ⟨rfl, -⟩ := Prod.mk.inj (Except.ok.inj h)
      exact ⟨rfl, rfl, hcounted, Or.inl rfl, ⟨rfl, rfl⟩⟩

end spec

/-! ## What each transaction does -/

/-- The effect of a transaction of a process that is called for `op`. -/
inductive Effect (me : IdentityId) : Op → Tables → Tables → Prop where
  | approved {record : Approval} {s : Tables} {human_approvals : Approvals}
      (h : s.human_approvals.insert { record with consumed_at := none } = some human_approvals) :
      Effect me (.approve record) s { s with human_approvals }
  | sent {d : Draft} {due : DueRun} {s s' : Tables} {ev : EventRow}
      (h : Persisted (d.header me) d.payload d.now s s' ev) : Effect me (.send d due) s s'
  /-- An event of the peer comes in, without a receipt. -/
  | received {o : Received} {s s' : Tables} (hpeer : o.envelope.header.sender ≠ me) (h : Arrived o s s') :
      Effect me (.receive o) s s'
  /-- Its receipt goes out with it. -/
  | receipted {o : Received} {s t s' : Tables} {ev : EventRow} (hpeer : o.envelope.header.sender ≠ me)
      (h : Arrived o s t)
      (hsent : Persisted (o.receiptDraft.header me) o.receiptDraft.payload o.receiptDraft.now t s' ev) :
      Effect me (.receive o) s s'
  | projected {op : Op} {s : Tables} (projection_queue : Finset EventId) :
      Effect me op s { s with projection_queue }
  | moved {op : Op} {s s' : Tables} (h : Moved s s') : Effect me op s s'

section effects

variable {me : IdentityId} {op : Op} {s s' : Tables}

/-- The queue rows keep the approvals that they name. -/
def Remembers (s s' : Tables) : Prop := ∀ id i, s.approvalOf id = some i → s'.approvalOf id = some i

theorem Persisted.find_old {header : Protected} {payload : Payload} {now : Nat} {ev : EventRow}
    (h : Persisted header payload now s s' ev) {id : EventId} {row : QueueRow}
    (hrow : s.scheduler_queue.find id = some row) : s'.scheduler_queue.find id = some row := by
  obtain ⟨_, -, hfind⟩ := h.queued
  rw [hfind, if_neg, hrow]
  rintro rfl
  rw [h.fresh] at hrow
  exact absurd hrow (by simp)

theorem Persisted.remembers {header : Protected} {payload : Payload} {now : Nat} {ev : EventRow}
    (h : Persisted header payload now s s' ev) : Remembers s s' := by
  intro id i hi
  obtain ⟨row, hrow, hap⟩ := Option.bind_eq_some_iff.mp hi
  exact Option.bind_eq_some_iff.mpr ⟨row, h.find_old hrow, hap⟩

theorem Arrived.approvalOf {o : Received} (h : Arrived o s s') : s'.approvalOf = s.approvalOf := by
  unfold Tables.approvalOf
  rw [h.scheduler_queue]

theorem Effect.remembers (h : Effect me op s s') : Remembers s s' := by
  cases h with
  | approved => exact fun _ _ h => h
  | sent hsent => exact hsent.remembers
  | received _ harrived => exact fun id i hi => harrived.approvalOf ▸ hi
  | receipted _ harrived hsent => exact fun id i hi => hsent.remembers id i (harrived.approvalOf ▸ hi)
  | projected => exact fun _ _ h => h
  | moved hmoved => exact fun id i hi => (hmoved.queue.approvalOf id).trans hi

/-- A body whose commit has the effect of the operation, on the tables `s`. -/
def HasEffect (me : IdentityId) (op : Op) (s : Tables) (body : Body Result) : Prop :=
  ∀ s' r, body.exec s = .ok (s', r) → Effect me op s s'

theorem remembers_rely (me : IdentityId) : Rely Remembers (HasEffect me) where
  refl _ _ _ h := h
  trans _ _ _ h h' id i hi := h' id i (h id i hi)
  commit _ _ _ _ _ hbody hexec := (hbody _ _ hexec).remembers

theorem onCommit_every {next : Process} (h : next.Every Remembers (HasEffect me op) s)
    (r : Except SendError Result) : (onCommit next r).Every Remembers (HasEffect me op) s := by
  cases r with
  | error e => trivial
  | ok _ => exact h

theorem project_every (event_id : EventId) {next : Process}
    (hnext : ∀ t, next.Every Remembers (HasEffect me op) t) :
    (project event_id next).Every Remembers (HasEffect me op) s := by
  intro t _
  refine ⟨fun t' r h => ?_, onCommit_every (hnext t)⟩
  obtain ⟨t₁, ht₁, h⟩ := execute_exec h
  obtain rfl := Except.ok.inj ht₁
  obtain ⟨rfl, -⟩ := Prod.mk.inj (Except.ok.inj h)
  exact .projected _

theorem processRows_every (due : DueRun) (rows : List QueueRow) (s : Tables) (hheld : ∀ row ∈ rows, Held s row) :
    (processRows due rows).Every Remembers (HasEffect me op) s := by
  induction rows generalizing s with
  | nil => trivial
  | cons row rows ih =>
    intro t hmoved
    have hheld' : ∀ row' ∈ row :: rows, Held t row' := fun row' hrow' i hi => hmoved _ _ (hheld row' hrow' i hi)
    have hrest := ih t (fun row' hrow' => hheld' row' (List.mem_cons_of_mem _ hrow'))
    have hcount : (Script.transaction (recordReleaseFailure row.scheduled_id (due.utcnow row.scheduled_id))
        (onCommit (processRows due rows)) : Process).Every Remembers (HasEffect me op) t := fun u hu =>
      ⟨fun _ _ h => .moved (recordReleaseFailure_spec h),
        onCommit_every (hrest.moved (remembers_rely me).trans hu)⟩
    refine ⟨fun _ _ h => .moved (releaseOneRow_spec (hheld' row List.mem_cons_self) h), fun r => ?_⟩
    dsimp only
    split
    · split_ifs
      · exact hcount
      · exact hrest
    · exact hrest
    · exact hrest
    · exact hcount

theorem runDue_every (due : DueRun) (s : Tables) : (runDue due).Every Remembers (HasEffect me op) s := by
  intro t _
  refine processRows_every due _ t (fun row hrow i hi => ?_)
  have hmem : row ∈ t.scheduler_queue.rows :=
    List.mem_of_mem_filter ((List.perm_insertionSort _ _).mem_iff.mp hrow)
  rw [Tables.approvalOf, Table.mem_iff_find.mp hmem]
  exact hi

theorem cancel_every (sid : EventId) (s : Tables) : (cancel sid).Every Remembers (HasEffect me op) s := by
  intro t _
  dsimp only
  split_ifs
  · refine fun u _ => ⟨fun u' r h => .moved ?_, fun _ => trivial⟩
    obtain ⟨rfl, -⟩ := Prod.mk.inj (Except.ok.inj (takeScheduled_exec h))
    exact ⟨rfl, rfl, leaveScheduled_moves u sid .canceled, Or.inl rfl, ⟨rfl, rfl⟩⟩
  · trivial

/-- Each transaction of a process has the effect of its operation. -/
theorem code_every (peers : Peers me) (op : Op) (s : Tables) :
    (code peers op).Every Remembers (HasEffect me op) s := by
  cases op with
  | approve record =>
    refine fun t _ => ⟨fun t' r h => ?_, onCommit_every trivial⟩
    obtain ⟨u, hu, h⟩ := execute_exec h
    obtain ⟨rfl, -⟩ := Prod.mk.inj (Except.ok.inj h)
    split at hu
    · exact absurd hu (by simp)
    · rename_i human_approvals hins
      obtain rfl := Except.ok.inj hu
      exact .approved hins
  | send d due =>
    refine fun t _ => ⟨fun t' r h => ?_, onCommit_every (project_every _ (runDue_every due))⟩
    obtain ⟨ev, hev⟩ := persist_spec h
    exact .sent hev
  | receive o =>
    show (if _ then _ else _ : Process).Every _ _ _
    split_ifs with hadmits
    · have hpeer : o.envelope.header.sender ≠ me := by
        intro heq
        rw [heq, peers.not_me] at hadmits
        exact absurd hadmits (by simp)
      refine fun t _ => ⟨fun t' r h => ?_, onCommit_every (project_every _ (fun _ => trivial))⟩
      obtain ⟨u, harrived, rfl | ⟨ev, hev⟩⟩ := receiveCommit_spec h
      · exact .received hpeer harrived
      · exact .receipted hpeer harrived hev
    · trivial
  | cancel sid => exact cancel_every sid s
  | runDue due => exact runDue_every due s

end effects

theorem outbox_step {me : IdentityId} {peers : Peers me} {S S' : Served Tables SendError Result Op}
    {turn : Turn SendError Op} (h : (outbox peers).Reachable S) (hstep : (outbox peers).step S turn = some S') :
    S'.db = S.db ∨ ∃ i op, turn = .advance i ∧ S.threads[i]?.map Prod.fst = some op ∧ Effect me op S.db S'.db := by
  obtain heq | ⟨i, op, body, _, hturn, hthread, hbody, hexec⟩ :=
    serving_step (remembers_rely me) (code_every peers) h hstep
  · exact Or.inl heq
  · exact Or.inr ⟨i, op, hturn, hthread, hbody _ _ hexec⟩

/-- What each effect keeps holds in all reachable tables. -/
theorem outbox_invariant {me : IdentityId} {peers : Peers me} {I : Tables → Prop}
    (hinit : ∀ referenced enabled, I { referenced, accepted_receipts_enabled := enabled })
    (hkeeps : ∀ op s s', Effect me op s s' → I s → I s') {S : Served Tables SendError Result Op}
    (h : (outbox peers).Reachable S) : I S.db := by
  refine serving_invariant ?_ (remembers_rely me) (code_every peers)
    (fun op body s s' _ hbody hexec => hkeeps op s s' (hbody s' _ hexec)) h
  rintro s ⟨referenced, enabled, rfl⟩
  exact hinit referenced enabled

end MuseAgentSocial.Outbox
