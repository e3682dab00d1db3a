import MuseAgentSocial.Lib.Autocommit
import MuseAgentSocial.Scheduler.CancelRace
import MuseAgentSocial.Scheduler.Release

/-!
# What the peer can read

Any number of processes send, cancel, release and push over one store.  One turn is one
statement or one effect, so an upload, the commit or rollback around it, and a later
cancel or expiry come in every order, with failures and crashes in between.

`releaseFn` uploads to the local directory or queues the upload for git.  The upload to
the directory is an effect outside of the database, which no rollback takes back.  It
comes after the `executescript` in the constructor of `RotationManager`, which commits the
claim, so it is made for a row that is `released` for every process.  A push only reads
committed rows of `transport_mutations`.

* `Posts` is the invariant: what is posted or queued is the envelope of a released row.
* `undelivered_never_posted` is the result.
* `runs_processRow` connects the programs to those of the queue: alone, with the git
  transport, the release of a row is the sequential one.
-/

namespace MuseAgentSocial.Visibility

open Policy Model Transports Sqlite Scheduler

/-! ## The programs -/

/-- An object that is or was readable on the relay. -/
structure Posted where
  relationship_id : RelationshipId
  object_name : ObjectName
  data : Blob
  deriving DecidableEq, Repr

/-- A program on the scheduler's connection.  The outside is what was ever posted. -/
abbrev RelayJob := Job Store (List Posted) SchedExc

/-- The provider in `relay_config`. -/
inductive Provider where
  | local_dir
  | github
  deriving DecidableEq, Repr

/-- What a call of `release_fn` draws and finds configured. -/
structure Draws where
  name : EventId → ObjectName
  provider : RelationshipId → Provider

/-- `_restore_approval_for_undelivered`. -/
def restoreApprovalForUndelivered (sid : EventId) (approval_id : Option ApprovalId) (now : Nat)
    (terminal : SchedState) : RelayJob Unit :=
  match approval_id with
  | none => pure ()
  | some a => do
    let _ ← Job.query (fun _ => ())
    let restored ← Job.execute (restoreApprovalStmt a now)
    Job.execute (fun s => .ok (s.noteUndelivered ⟨sid, terminal, a, restored, now⟩, ()))

/-- The expiry of a row. -/
def expireRow (now : Nat) (row : ScheduledRow) : RelayJob (Status × Nat) := do
  let _ ← Job.execute (leaveScheduledStmt row.scheduled_id .expired)
  restoreApprovalForUndelivered row.scheduled_id row.approval_id now .expired
  pure (.expired, 0)

/-- `RotationManager(conn, keys_dir)`. -/
def rotationManager : RelayJob Unit := do
  Job.executescript id
  let has_column : Bool ← Job.query (fun s => s.has_rejected_column)
  if has_column then pure ()
  else Job.execute (fun s => .ok ({ s with has_rejected_column := true }, ()))

/-- `may_send`. -/
def maySend (rid : RelationshipId) (utcnow : Nat) : RelayJob Unit := do
  let rotation : Option AckedRotation ←
    Job.query (fun s => s.acked_rotations.find? (fun r => r.relationship_id = rid))
  match rotation with
  | none => pure ()
  | some r => if r.deadline < utcnow then Job.raise .paused else pure ()

/-- `_transport_for(ctx, rid, "send")`. -/
def transportFor (rid : RelationshipId) : RelayJob Unit := do
  let configured : Bool ← Job.query (fun s => decide (rid ∈ s.relay_config))
  if configured then pure () else Job.raise .other

/-- `LocalTransport.upload`: the file is there for the peer. -/
def upload (rid : RelationshipId) (name : ObjectName) (data : Blob) : RelayJob Unit :=
  if objectNameRe name = false then Job.raise .other
  else if OBJECT_MAX_BYTES < data.length then Job.raise .other
  else Job.act (fun posted => posted ++ [⟨rid, name, data⟩]) .other

/-- `queue_mutation` of an upload. -/
def queueUpload (rid : RelationshipId) (name : ObjectName) (data : Blob) : RelayJob Unit := do
  Job.execute (fun s => .ok (s, ()))
  if objectNameRe name = false then
    Job.raise .other
  else if OBJECT_MAX_BYTES < data.length then
    Job.raise .other
  else
    Job.execute (fun s => .ok
      ({ s with transport_mutations := s.transport_mutations ++ [⟨rid, .upload name data⟩] }, ()))

/-- The upload to the directory, or the queued one. -/
def place (d : Draws) (rid : RelationshipId) (sid : EventId) (sealed_event : Blob) : RelayJob Unit :=
  match d.provider rid with
  | .local_dir => upload rid (d.name sid) sealed_event
  | .github => queueUpload rid (d.name sid) sealed_event

/-- The already chosen object, or a new one. -/
def enqueue (d : Draws) (rid : RelationshipId) (sid : EventId) (sealed_event : Blob) : RelayJob Unit := do
  let seen : Option SentObject ← Job.query (fun s => s.sent_objects.find sid)
  match seen with
  | some _ => pure ()
  | none => do
    transportFor rid
    place d rid sid sealed_event
    Job.execute (fun s =>
      .ok ({ s with sent_objects := s.sent_objects.insertOrIgnore ⟨sid, d.name sid⟩ }, ()))

/-- Everything after the consent gate. -/
def afterConsent (d : Draws) (rid : RelationshipId) (sid : EventId) (sealed_event : Blob) (utcnow : Nat) :
    RelayJob Unit := do
  rotationManager
  maySend rid utcnow
  enqueue d rid sid sealed_event

/-- The consent gate and what follows it. -/
def consentGate (d : Draws) (rid : RelationshipId) (sid : EventId) (sealed_event : Blob) (utcnow : Nat) :
    RelayJob Unit := do
  let consent ← Job.query (fun s => s.consentState rid)
  match consent with
  | none | some .revoked => Job.raise .revoked
  | some .active => afterConsent d rid sid sealed_event utcnow

/-- `release_fn`. -/
def releaseFn (d : Draws) (utcnow : Nat) (sid : EventId) (sealed_event : Blob) : RelayJob Unit := do
  let event ← Job.query (fun s => s.events.find sid)
  match event with
  | none => pure ()
  | some e => consentGate d e.relationship_id sid sealed_event utcnow

/-- The skip status of a gate exception; anything else is raised again. -/
def gateHandler : Exc SchedExc → RelayJob (Status × Nat)
  | .app .revoked => Job.raise (.gated .skipped_revoked)
  | .app .paused => Job.raise (.gated .skipped_paused)
  | e => Job.reraise e

/-- The claim and the call of `release_fn`. -/
def claimAndRelease (d : Draws) (now utcnow : Nat) (row : ScheduledRow) : RelayJob (Status × Nat) := do
  let rowcount ← Job.execute (leaveScheduledStmt row.scheduled_id .released)
  if rowcount ≠ 1 then
    Job.raise .invalid_transition
  else
    let late_by := now - row.deliver_at
    Job.tryElse (releaseFn d utcnow row.scheduled_id row.inner_event) (fun _ => pure (.released, late_by)) gateHandler

/-- The body of the transaction of `_release_one_row`. -/
def releaseBody (d : Draws) (now utcnow : Nat) (row : ScheduledRow) : RelayJob (Status × Nat) := do
  let current : Option SchedState ←
    Job.query (fun s => (s.scheduler_queue.find row.scheduled_id).map (·.state))
  match current with
  | none => pure (.skipped, 0)
  | some .canceled => pure (.skipped_canceled, 0)
  | some .released | some .expired | some .dead => pure (.skipped, 0)
  | some .scheduled =>
    if row.effectiveExpiresAt ≤ now then
      expireRow now row
    else if now < row.deliver_at then
      pure (.not_due, 0)
    else
      claimAndRelease d now utcnow row

/-- `_release_one_row`. -/
def releaseOneRow (d : Draws) (now utcnow : Nat) (row : ScheduledRow) : RelayJob (Status × Nat) :=
  Job.tryElse (Job.transaction (releaseBody d now utcnow row)) Job.ret
    (fun e =>
      match e with
      | .app (.gated status) => pure (status, 0)
      | e => Job.reraise e)

/-- The body of the transaction of `_record_release_failure`. -/
def recordBody (sid : EventId) (now : Nat) : RelayJob Nat := do
  Job.execute (fun s => .ok (s.countFailure sid, ()))
  let found : Option Nat ← Job.query (fun s => (s.scheduler_queue.find sid).map (·.release_failures))
  match found with
  | none => Job.raise .other
  | some failures =>
    if MAX_RELEASE_ATTEMPTS ≤ failures then do
      let _ ← Job.execute (leaveScheduledStmt sid .dead)
      let approval_id ← Job.query (fun s => (s.scheduler_queue.find sid).bind (·.approval_id))
      restoreApprovalForUndelivered sid approval_id now .dead
      pure failures
    else
      pure failures

/-- `_record_release_failure`. -/
def recordReleaseFailure (sid : EventId) (now : Nat) : RelayJob Nat :=
  Job.transaction (recordBody sid now)

/-- The loop body of `run_due`. -/
def processRow (d : Draws) (now utcnow : Nat) (row : ScheduledRow) : RelayJob (Option Bucket) :=
  Job.tryElse (releaseOneRow d now utcnow row) (fun r => pure r.1.bucket)
    (fun _ => do
      let failures ← recordReleaseFailure row.scheduled_id utcnow
      pure (some (if MAX_RELEASE_ATTEMPTS ≤ failures then .dead else .failed)))

/-- The loop of `run_due` over the visited rows. -/
def processRows (d : Draws) (now utcnow : Nat) : List ScheduledRow → RelayJob (List (EventId × Bucket))
  | [] => pure []
  | row :: rows => do
    let bucket ← processRow d now utcnow row
    let summary ← processRows d now utcnow rows
    pure ((bucket.map (row.scheduled_id, ·)).toList ++ summary)

/-- `run_due`. -/
def runDue (d : Draws) (now utcnow : Nat) : RelayJob (List (EventId × Bucket)) := do
  let rows ← Job.query dueRows
  processRows d now utcnow rows

/-- `scheduler.cancel`. -/
def cancel (sid : EventId) : RelayJob Unit := do
  let state : Option SchedState ← Job.query (fun s => (s.scheduler_queue.find sid).map (·.state))
  match state with
  | none => Job.raise .other
  | some .scheduled =>
    Job.transaction do
      let rowcount ← Job.execute (leaveScheduledStmt sid .canceled)
      if rowcount ≠ 1 then Job.raise .invalid_transition else pure ()
  | some .canceled => pure ()
  | some .released | some .expired | some .dead => Job.raise .other

/-- The transaction of `assign_and_persist_outgoing`. -/
def persist (o : Outgoing) (now : Nat) : RelayJob Unit :=
  Job.transaction (Job.execute (fun s =>
    match persistOutgoing s o now with
    | some s' => .ok (s', ())
    | none => .error .integrity))

/-- The object of a queued upload. -/
def MutationRow.posted (m : MutationRow) : Option Posted :=
  match m.mutation with
  | .upload name data => some ⟨m.relationship_id, name, data⟩
  | .consume _ => none

/-- `GitHubTransport.flush`: the queued mutations are pushed, and then marked. -/
def flush (rid : RelationshipId) : RelayJob Unit := do
  let applied ← Job.query (fun s => s.transport_mutations.filter (·.relationship_id = rid))
  if applied = [] then pure ()
  else
    Job.act (fun posted => posted ++ applied.filterMap MutationRow.posted) .other
    Job.execute (fun s => .ok
      ({ s with transport_mutations := s.transport_mutations.filter (· ∉ applied) }, ()))

/-! ## The machine -/

/-- A write of the rest of the program, which is not about rows or uploads: of approvals,
consents, rotations, the relay configuration or an event. -/
structure OtherWrite where
  write : Store → Store
  queue : ∀ s, (write s).scheduler_queue = s.scheduler_queue
  mutations : ∀ s, (write s).transport_mutations = s.transport_mutations

/-- The operations. -/
inductive Op where
  | send (o : Outgoing) (now : Nat)
  | cancel (sid : EventId)
  | run_due (d : Draws) (now utcnow : Nat)
  | flush (rid : RelationshipId)
  | other (w : OtherWrite)

/-- The process of an operation.  `event_id` reads the id in the protected header of a
sealed envelope: an event is sealed with its own id. -/
def Op.code (event_id : Blob → EventId) : Op → Sqlite.Code Store (List Posted)
  | .send o now => if event_id o.sealed_bytes = o.event_id then (persist o now).code else .done
  | .cancel sid => (Visibility.cancel sid).code
  | .run_due d now utcnow => (runDue d now utcnow).code
  | .flush rid => (Visibility.flush rid).code
  | .other w => (Job.execute (fun s => .ok (w.write s, ())) : RelayJob Unit).code

/-- Any number of processes over a store without rows, before anything was posted. -/
def relaying (event_id : Blob → EventId) : Machine (Host Store (List Posted) Op) (Host.Turn Op) :=
  sharing (fun s posted => s.scheduler_queue = Table.empty ∧ s.transport_mutations = [] ∧ posted = []) (Op.code event_id)

/-! ## The invariant -/

variable {s s' w : Store} {α : Type} {sealed_event : Blob} {K : Store → Prop}

section invariant

variable {event_id : Blob → EventId}

/-- A row holds the envelope of its own event, and what waits for a push is the envelope
of a released row. -/
structure Sealed (event_id : Blob → EventId) (s : Store) : Prop where
  own : ∀ sid row, s.scheduler_queue.find sid = some row → event_id row.inner_event = sid
  queued : ∀ m ∈ s.transport_mutations, ∀ p, MutationRow.posted m = some p → Released s (event_id p.data)

/-- What a write does: a row keeps the state that it has reached. -/
structure Follows (event_id : Blob → EventId) (s s' : Store) : Prop where
  settles : Settles s s'
  keeps : Sealed event_id s → Sealed event_id s'

/-- What was posted is the envelope of a released row. -/
structure Posts (event_id : Blob → EventId) (s : Store) (posted : List Posted) : Prop where
  db : Sealed event_id s
  released : ∀ p ∈ posted, Released s (event_id p.data)

theorem released_of_settles (h : Settles s s') {sid : EventId} (hr : Released s sid) :
    Released s' sid := h.state hr (by decide)

theorem guarantee (event_id : Blob → EventId) : Guarantee (Follows event_id) (Posts event_id) where
  refl s := ⟨.refl s, id⟩
  trans h h' := ⟨h.settles.trans h'.settles, fun hs => h'.keeps (h.keeps hs)⟩
  kept h hst := ⟨hst.keeps h.db, fun p hp => released_of_settles hst.settles (h.released p hp)⟩

/-- A write that keeps the envelopes of the rows and queues nothing. -/
theorem Follows.of_rows {s s' : Store} (h : Settles s s')
    (hrows : ∀ sid row', s'.scheduler_queue.find sid = some row' →
      ∃ row, s.scheduler_queue.find sid = some row ∧ row'.inner_event = row.inner_event)
    (hqueued : s'.transport_mutations ⊆ s.transport_mutations) : Follows event_id s s' := by
  refine ⟨h, fun hs => ⟨fun sid row' hrow' => ?_, fun m hm p hp => ?_⟩⟩
  · obtain ⟨row, hrow, hsame⟩ := hrows sid row' hrow'
    rw [hsame]
    exact hs.own sid row hrow
  · exact released_of_settles h (hs.queued m (hqueued hm) p hp)

/-- A write of other tables. -/
theorem Follows.of_tables (hqueue : s'.scheduler_queue = s.scheduler_queue)
    (hqueued : s'.transport_mutations ⊆ s.transport_mutations) : Follows event_id s s' :=
  Follows.of_rows (Settles.of_queue hqueue) (fun _ row' hrow' => ⟨row', hqueue ▸ hrow', rfl⟩) hqueued

theorem follows_leaveScheduled (s : Store) (sid : EventId) (next : SchedState) :
    Follows event_id s (s.leaveScheduled sid next) := by
  refine Follows.of_rows (settles_leaveScheduled s sid next) (fun k row' hrow' => ?_) (fun _ hm => hm)
  rw [find_leaveScheduled] at hrow'
  split_ifs at hrow' with hk
  · obtain ⟨row, hrow, rfl⟩ := Option.map_eq_some_iff.mp hrow'
    refine ⟨row, hk ▸ hrow, ?_⟩
    split_ifs <;> rfl
  · exact ⟨row', hrow', rfl⟩

theorem follows_countFailure (s : Store) (sid : EventId) : Follows event_id s (s.countFailure sid) := by
  refine Follows.of_rows (settles_countFailure s sid) (fun k row' hrow' => ?_) (fun _ hm => hm)
  rw [find_countFailure] at hrow'
  split_ifs at hrow' with hk
  · obtain ⟨row, hrow, rfl⟩ := Option.map_eq_some_iff.mp hrow'
    exact ⟨row, hk ▸ hrow, rfl⟩
  · exact ⟨row', hrow', rfl⟩

theorem follows_persistOutgoing {o : Outgoing} {now : Nat}
    (ho : event_id o.sealed_bytes = o.event_id)
    (h : persistOutgoing s o now = some s') : Follows event_id s s' := by
  have hsettles := (persistOutgoing_moves h).settles
  refine ⟨hsettles, fun hs => ?_⟩
  simp only [persistOutgoing, Option.bind_eq_bind, Option.bind_eq_some_iff, Option.some.injEq] at h
  obtain ⟨approvals, -, events, -, queue, hqueue, rfl⟩ := h
  refine ⟨fun sid row hrow => ?_, fun m hm p hp => released_of_settles hsettles (hs.queued m hm p hp)⟩
  have hfind : queue.find sid = some row := hrow
  rw [Table.find_of_insert hqueue] at hfind
  split_ifs at hfind with hsid
  · obtain rfl := Option.some.inj hfind
    exact ho.trans hsid.symm
  · exact hs.own sid row hfind

theorem follows_queueUpload (rid : RelationshipId) (name : ObjectName) {data : Blob}
    (h : Released s (event_id data)) :
    Follows event_id s { s with transport_mutations := s.transport_mutations ++ [⟨rid, .upload name data⟩] } := by
  refine ⟨Settles.of_queue rfl, fun hs => ⟨hs.own, fun m hm p hp => ?_⟩⟩
  obtain hm | hm := List.mem_append.mp hm
  · exact hs.queued m hm p hp
  · rw [List.mem_singleton.mp hm] at hp
    obtain rfl := Option.some.inj hp
    exact h

/-! ## The programs keep it -/

/-- The program is safe from everywhere. -/
abbrev Keeps {α : Type} (event_id : Blob → EventId) (p : RelayJob α) : Prop :=
  Job.Harmless (Follows event_id) (Posts event_id) (Sealed event_id) p

theorem keeps_leaveScheduled (sid : EventId) (next : SchedState) :
    Keeps event_id (Job.execute (leaveScheduledStmt sid next)) := by
  refine Job.Harmless.execute (fun s s' a h => ?_)
  obtain ⟨rfl, -⟩ := Prod.mk.inj (Except.ok.inj h)
  exact follows_leaveScheduled s sid next

theorem keeps_restoreApproval (sid : EventId) (approval_id : Option ApprovalId) (now : Nat) (terminal : SchedState) :
    Keeps event_id (restoreApprovalForUndelivered sid approval_id now terminal) := by
  cases approval_id with
  | none => exact Job.Harmless.ret ()
  | some a =>
    unfold restoreApprovalForUndelivered
    apply Job.Harmless.bind (Job.Harmless.query _)
    intro _
    apply Job.Harmless.bind
    · apply Job.Harmless.execute
      intro s s' b h
      obtain ⟨rfl, -⟩ := Prod.mk.inj (Except.ok.inj h)
      exact Follows.of_tables rfl (fun _ hm => hm)
    · intro restored
      apply Job.Harmless.execute
      intro s s' b h
      obtain ⟨rfl, -⟩ := Prod.mk.inj (Except.ok.inj h)
      exact Follows.of_tables rfl (fun _ hm => hm)

theorem keeps_expireRow (now : Nat) (row : ScheduledRow) : Keeps event_id (expireRow now row) :=
  (keeps_leaveScheduled _ _).bind (fun _ => (keeps_restoreApproval _ _ _ _).bind (fun _ => Job.Harmless.ret _))

theorem keeps_recordReleaseFailure (sid : EventId) (now : Nat) : Keeps event_id (recordReleaseFailure sid now) := by
  have hbody : Keeps event_id (recordBody sid now) := by
    refine (Job.Harmless.execute (fun s s' a h => ?_)).bind (fun _ => (Job.Harmless.query _).bind (fun found => ?_))
    · obtain ⟨rfl, -⟩ := Prod.mk.inj (Except.ok.inj h)
      exact follows_countFailure s sid
    · cases found with
      | none => exact Job.Harmless.raise _
      | some failures =>
        dsimp only
        split_ifs
        · exact (keeps_leaveScheduled _ _).bind (fun _ => (Job.Harmless.query _).bind
            (fun _ => (keeps_restoreApproval _ _ _ _).bind (fun _ => Job.Harmless.ret _)))
        · exact Job.Harmless.ret _
  exact Job.Harmless.transaction (fun s K _ hK => hbody.leads hK)

/-- Outside of a transaction, where it ends without an exception. -/
def Closed {α : Type} (r : Except (Exc SchedExc) α) (o : Option Store) (_ : Store → Prop) : Prop :=
  ∀ a, r = .ok a → o = none

/-- The program is safe outside of a transaction where the row of the envelope is known to
be released. -/
abbrev KeepsReleased {α : Type} (event_id : Blob → EventId) (sealed_event : Blob) (p : RelayJob α) : Prop :=
  ∀ K : Store → Prop, (∀ s, K s → Sealed event_id s ∧ Released s (event_id sealed_event)) →
    Job.Leads (Follows event_id) (Posts event_id) p none K Closed

theorem KeepsReleased.bind {β : Type} {p : RelayJob α} {f : α → RelayJob β}
    (hp : KeepsReleased event_id sealed_event p)
    (hf : ∀ a, KeepsReleased event_id sealed_event (f a)) :
    KeepsReleased event_id sealed_event (p >>= f) := by
  intro K hK
  refine (hp K hK).bind (fun a o' K' hK' ho => ?_) (fun e o' K' _ _ a ha => by cases ha)
  rw [ho a rfl]
  exact hf a K' (fun s hs => hK s (hK' s hs))

theorem KeepsReleased.query (f : Store → α) : KeepsReleased event_id sealed_event (Job.query f) :=
  fun _ _ => (Job.Leads.query_closed f).imp (fun _ _ _ _ h a ha => (h a ha).1)

theorem KeepsReleased.ret (a : α) : KeepsReleased event_id sealed_event (pure a : RelayJob α) :=
  fun _ _ => Job.Leads.ret (fun _ _ => rfl)

theorem KeepsReleased.raise (e : SchedExc) :
    KeepsReleased event_id sealed_event (Job.raise e : RelayJob α) :=
  fun _ _ => Job.Leads.reraise (fun _ ha => by cases ha)

theorem KeepsReleased.execute {f : Store → Except DbError (Store × α)}
    (h : ∀ s s' a, Released s (event_id sealed_event) → f s = .ok (s', a) → Follows event_id s s') :
    KeepsReleased event_id sealed_event (Job.execute f) :=
  fun _ hK => Job.Leads.execute_closed (fun s s' a hs => h s s' a (hK s hs).2)

/-- The upload to the directory comes after the commit of the claim. -/
theorem keepsReleased_upload (rid : RelationshipId) (name : ObjectName) (sealed_event : Blob) :
    KeepsReleased event_id sealed_event (upload rid name sealed_event) := by
  unfold upload
  split_ifs
  · exact KeepsReleased.raise _
  · exact KeepsReleased.raise _
  · intro K hK
    refine (Job.Leads.act (fun s t hs ht => ⟨ht.db, fun p hp => ?_⟩)).imp (fun _ _ _ _ ho _ _ => ho)
    obtain hp | hp := List.mem_append.mp hp
    · exact ht.released p hp
    · rw [List.mem_singleton.mp hp]
      exact (hK s hs).2

theorem keepsReleased_queueUpload (rid : RelationshipId) (name : ObjectName) (sealed_event : Blob) :
    KeepsReleased event_id sealed_event (queueUpload rid name sealed_event) := by
  apply KeepsReleased.bind
  · apply KeepsReleased.execute
    intro s s' a _ h
    obtain ⟨rfl, -⟩ := Prod.mk.inj (Except.ok.inj h)
    exact (guarantee event_id).refl s
  · intro _
    split_ifs
    · exact KeepsReleased.raise _
    · exact KeepsReleased.raise _
    · apply KeepsReleased.execute
      intro s s' a hr h
      obtain ⟨rfl, -⟩ := Prod.mk.inj (Except.ok.inj h)
      exact follows_queueUpload rid name hr

theorem keepsReleased_enqueue (d : Draws) (rid : RelationshipId) (sid : EventId) (sealed_event : Blob) :
    KeepsReleased event_id sealed_event (enqueue d rid sid sealed_event) := by
  apply KeepsReleased.bind (KeepsReleased.query _)
  intro seen
  cases seen with
  | some o => exact KeepsReleased.ret ()
  | none =>
    apply KeepsReleased.bind
    · apply KeepsReleased.bind (KeepsReleased.query _)
      intro configured
      split_ifs
      · exact KeepsReleased.ret ()
      · exact KeepsReleased.raise _
    · intro _
      apply KeepsReleased.bind
      · unfold place
        split
        · exact keepsReleased_upload rid _ sealed_event
        · exact keepsReleased_queueUpload rid _ sealed_event
      · intro _
        apply KeepsReleased.execute
        intro s s' a _ h
        obtain ⟨rfl, -⟩ := Prod.mk.inj (Except.ok.inj h)
        exact Follows.of_tables rfl (fun _ hm => hm)

theorem keepsReleased_maySend (rid : RelationshipId) (utcnow : Nat) (sealed_event : Blob) :
    KeepsReleased event_id sealed_event (maySend rid utcnow) := by
  apply KeepsReleased.bind (KeepsReleased.query _)
  intro rotation
  cases rotation with
  | none => exact KeepsReleased.ret ()
  | some r =>
    dsimp only
    split_ifs
    · exact KeepsReleased.raise _
    · exact KeepsReleased.ret ()

theorem leads_rotationManager :
    Job.Leads (Follows event_id) (Posts event_id) rotationManager (some w) K
      (fun r o' K' => ∀ a, r = .ok a → o' = none ∧ ∀ t, K' t → Follows event_id w t) := by
  have hscript : Job.Leads (Follows event_id) (Posts event_id) (Job.executescript id : RelayJob Unit) (some w) K
      (fun r o' K' => ∀ a, r = .ok a → o' = none ∧ ∀ t, K' t → Follows event_id w t) := by
    refine Job.Leads.commitPending_open.bind (fun _ o' K' _ h => ?_) (fun _ _ _ _ _ _ ha => by cases ha)
    obtain ⟨rfl, hfollows⟩ := h rfl
    refine (Job.Leads.execute_closed (fun s s' a _ h => ?_)).imp
      (fun r o'' K'' hK'' h a ha => ⟨h a ha, fun t ht => hfollows t (hK'' t ht)⟩)
    obtain ⟨rfl, -⟩ := Prod.mk.inj (Except.ok.inj h)
    exact (guarantee event_id).refl s
  refine hscript.bind (fun a o' K' _ h => ?_) (fun _ _ _ _ _ _ ha => by cases ha)
  obtain ⟨rfl, hfollows⟩ := h a rfl
  refine (Job.Leads.query_closed _).bind (fun has_column o'' K'' hK'' hcolumn => ?_)
    (fun _ _ _ _ _ _ ha => by cases ha)
  obtain ⟨rfl, -⟩ := hcolumn has_column rfl
  split_ifs
  · exact Job.Leads.ret (fun _ _ => ⟨rfl, fun t ht => hfollows t (hK'' t ht)⟩)
  · refine (Job.Leads.execute_closed (fun s s' a _ h => ?_)).imp
      (fun r o₃ K₃ hK₃ h a ha => ⟨h a ha, fun t ht => hfollows t (hK'' t (hK₃ t ht))⟩)
    obtain ⟨rfl, -⟩ := Prod.mk.inj (Except.ok.inj h)
    exact Follows.of_tables rfl (fun _ hm => hm)

/-- The release function is safe where the row was claimed in the open transaction. -/
theorem leads_releaseFn (d : Draws) (utcnow : Nat) (sid : EventId)
    (hK : ∀ s, K s → Sealed event_id s) (hw : Released w (event_id sealed_event)) :
    Job.Leads (Follows event_id) (Posts event_id) (releaseFn d utcnow sid sealed_event) (some w) K
      (fun _ _ _ => True) := by
  unfold releaseFn
  refine (Job.Leads.query_open _).andThen (fun event o₁ K₁ hK₁ h => ?_)
  obtain ⟨-, rfl⟩ := h event rfl
  cases event with
  | none => exact Job.Leads.ret trivial
  | some e =>
    dsimp only
    unfold consentGate
    refine (Job.Leads.query_open _).andThen (fun consent o₂ K₂ hK₂ h => ?_)
    obtain ⟨-, rfl⟩ := h consent rfl
    cases consent with
    | none => exact Job.Leads.reraise trivial
    | some consent =>
      cases consent with
      | revoked => exact Job.Leads.reraise trivial
      | active =>
        refine leads_rotationManager.andThen (fun a o₃ K₃ hK₃ h => ?_)
        obtain ⟨rfl, hfollows⟩ := h a rfl
        have hrest : KeepsReleased event_id sealed_event _ :=
          (keepsReleased_maySend e.relationship_id utcnow sealed_event).bind
            (fun _ => keepsReleased_enqueue d e.relationship_id sid sealed_event)
        refine (hrest K₃ (fun s hs => ⟨hK s (hK₁ s (hK₂ s (hK₃ s hs))), ?_⟩)).imp (fun _ _ _ _ _ => trivial)
        exact released_of_settles (hfollows s hs).settles hw

theorem keeps_gateHandler (e : Exc SchedExc) : Keeps event_id (gateHandler e) := by
  unfold gateHandler
  split
  · exact Job.Harmless.raise _
  · exact Job.Harmless.raise _
  · exact Job.Harmless.reraise _

theorem leads_releaseBody (d : Draws) (now utcnow : Nat) {row : ScheduledRow}
    (hrow : event_id row.inner_event = row.scheduled_id) (hK : ∀ s, K s → Sealed event_id s) :
    Job.Leads (Follows event_id) (Posts event_id) (releaseBody d now utcnow row) (some w) K (fun _ _ _ => True) := by
  unfold releaseBody
  refine (Job.Leads.query_open _).andThen (fun current o₁ K₁ hK₁ h => ?_)
  obtain ⟨hcurrent, rfl⟩ := h current rfl
  cases current with
  | none => exact Job.Leads.ret trivial
  | some state =>
    cases state with
    | scheduled =>
      dsimp only
      split_ifs
      · exact (keeps_expireRow now row).leads (fun s hs => hK s (hK₁ s hs))
      · exact Job.Leads.ret trivial
      · refine (Job.Leads.execute_open (fun w' a h => ?_)).andThen (fun rowcount o₂ K₂ hK₂ h => ?_)
        · obtain ⟨rfl, -⟩ := Prod.mk.inj (Except.ok.inj h)
          exact follows_leaveScheduled w row.scheduled_id .released
        obtain ⟨w', hw', rfl⟩ := h rowcount rfl
        obtain ⟨rfl, -⟩ := Prod.mk.inj (Except.ok.inj hw')
        split_ifs
        · exact Job.Leads.reraise trivial
        · have hreleased : Released (w.leaveScheduled row.scheduled_id .released) (event_id row.inner_event) := by
            obtain ⟨r, hr, hst⟩ := Option.map_eq_some_iff.mp hcurrent.symm
            rw [hrow, Released, find_leaveScheduled, if_pos rfl, hr]
            simp [hst]
          refine (leads_releaseFn d utcnow row.scheduled_id (fun s hs => hK s (hK₁ s (hK₂ s hs))) hreleased).tryElse
            (fun _ _ _ _ _ => Job.Leads.ret trivial) (fun e o₃ K₃ hK₃ _ => ?_)
          exact (keeps_gateHandler e).leads (fun s hs => hK s (hK₁ s (hK₂ s (hK₃ s hs))))
    | _ => exact Job.Leads.ret trivial

theorem keeps_processRow (d : Draws) (now utcnow : Nat) {row : ScheduledRow}
    (hrow : event_id row.inner_event = row.scheduled_id) : Keeps event_id (processRow d now utcnow row) := by
  have hone : Keeps event_id (releaseOneRow d now utcnow row) := by
    refine (Job.Harmless.transaction (fun s K _ hK => leads_releaseBody d now utcnow hrow hK)).tryElse
      (fun _ => Job.Harmless.ret _) (fun e => ?_)
    split
    · exact Job.Harmless.ret _
    · exact Job.Harmless.reraise _
  exact hone.tryElse (fun _ => Job.Harmless.ret _)
    (fun _ => (keeps_recordReleaseFailure _ _).bind (fun _ => Job.Harmless.ret _))

theorem keeps_processRows (d : Draws) (now utcnow : Nat) {rows : List ScheduledRow}
    (hrows : ∀ row ∈ rows, event_id row.inner_event = row.scheduled_id) :
    Keeps event_id (processRows d now utcnow rows) := by
  induction rows with
  | nil => exact Job.Harmless.ret _
  | cons row rows ih =>
    refine (keeps_processRow d now utcnow (hrows row List.mem_cons_self)).bind (fun bucket => ?_)
    exact (ih (fun r hr => hrows r (List.mem_cons_of_mem row hr))).bind (fun _ => Job.Harmless.ret _)

theorem leads_runDue (d : Draws) (now utcnow : Nat) :
    Job.Leads (Follows event_id) (Posts event_id) (runDue d now utcnow) none (Sealed event_id)
      (fun _ _ _ => True) := by
  unfold runDue
  refine (Job.Leads.query_closed _).andThen (fun rows o' K' hK' h => ?_)
  obtain ⟨rfl, s, hs, rfl, -⟩ := h rows rfl
  refine (keeps_processRows d now utcnow (fun row hrow => ?_)).leads hK'
  simp only [dueRows, List.mem_insertionSort, List.mem_filter] at hrow
  exact hs.own row.scheduled_id row (Table.mem_iff_find.mp hrow.1)

theorem keeps_cancel (sid : EventId) : Keeps event_id (cancel sid) := by
  have hbody : Keeps event_id (do
      let rowcount ← Job.execute (leaveScheduledStmt sid .canceled)
      if rowcount ≠ 1 then Job.raise .invalid_transition else pure ()) := by
    refine (keeps_leaveScheduled sid .canceled).bind (fun rowcount => ?_)
    split_ifs
    · exact Job.Harmless.raise _
    · exact Job.Harmless.ret _
  unfold cancel
  refine (Job.Harmless.query _).bind (fun state => ?_)
  cases state with
  | none => exact Job.Harmless.raise _
  | some state =>
    cases state with
    | scheduled => exact Job.Harmless.transaction (fun s K _ hK => hbody.leads hK)
    | canceled => exact Job.Harmless.ret _
    | _ => exact Job.Harmless.raise _

theorem keeps_persist {o : Outgoing} (ho : event_id o.sealed_bytes = o.event_id) (now : Nat) :
    Keeps event_id (persist o now) := by
  refine Job.Harmless.transaction (fun s K _ hK => Job.Harmless.leads (Job.Harmless.execute ?_) hK)
  intro s s' a h
  cases hpersist : persistOutgoing s o now with
  | none =>
    simp only [hpersist] at h
    cases h
  | some t =>
    simp only [hpersist] at h
    obtain ⟨rfl, -⟩ := Prod.mk.inj (Except.ok.inj h)
    exact follows_persistOutgoing ho hpersist

/-- A push publishes what was queued, for rows that are released. -/
theorem leads_flush (rid : RelationshipId) :
    Job.Leads (Follows event_id) (Posts event_id) (flush rid) none (Sealed event_id) (fun _ _ _ => True) := by
  unfold flush
  refine (Job.Leads.query_closed _).andThen (fun applied o' K' hK' h => ?_)
  obtain ⟨rfl, s, hs, rfl, hfollows⟩ := h applied rfl
  split_ifs
  · exact Job.Leads.ret trivial
  · have hpush : ∀ t posted, K' t → Posts event_id t posted → Posts event_id t (posted ++
        (s.transport_mutations.filter (·.relationship_id = rid)).filterMap MutationRow.posted) := by
      refine fun t posted ht hposts => ⟨hposts.db, fun p hp => ?_⟩
      obtain hp | hp := List.mem_append.mp hp
      · exact hposts.released p hp
      · obtain ⟨m, hm, hmp⟩ := List.mem_filterMap.mp hp
        exact released_of_settles (hfollows t ht).settles (hs.queued m (List.mem_of_mem_filter hm) p hmp)
    refine (Job.Leads.act hpush).andThen (fun _ o' K₁ hK₁ _ => ?_)
    refine Job.Harmless.leads (Job.Harmless.execute ?_) (fun t ht => hK' t (hK₁ t ht))
    intro s s' a h
    obtain ⟨rfl, -⟩ := Prod.mk.inj (Except.ok.inj h)
    exact Follows.of_tables rfl (fun _ hm => List.mem_of_mem_filter hm)

theorem safe_code (op : Op) : (op.code event_id).Safe (Follows event_id) (Posts event_id) none (Sealed event_id) := by
  cases op with
  | send o now =>
    show Sqlite.Code.Safe _ _ (if event_id o.sealed_bytes = o.event_id then (persist o now).code else .done) _ _
    split_ifs with ho
    · exact (keeps_persist ho now).safe
    · trivial
  | cancel sid => exact (keeps_cancel sid).safe
  | run_due d now utcnow => exact leads_runDue d now utcnow _ (fun _ _ _ _ _ => trivial)
  | flush rid => exact leads_flush rid _ (fun _ _ _ _ _ => trivial)
  | other w =>
    refine Job.Harmless.safe (Job.Harmless.execute (fun s s' a h => ?_))
    obtain ⟨rfl, -⟩ := Prod.mk.inj (Except.ok.inj h)
    exact Follows.of_tables (w.queue s) (fun m hm => by rw [← w.mutations s]; exact hm)

/-- What was ever posted is the envelope of a row that is released. -/
theorem posts_of_reachable {S : Host Store (List Posted) Op} (h : (relaying event_id).Reachable S) :
    Posts event_id S.db S.outside := by
  refine sharing_invariant (guarantee event_id) (fun s posted hinit => ?_) (fun s posted hs => hs.db)
    (fun s t hs hst => hst.keeps hs) safe_code h
  obtain ⟨hqueue, hmutations, rfl⟩ := hinit
  refine ⟨⟨fun sid row hrow => ?_, by simp [hmutations]⟩, by simp⟩
  rw [hqueue] at hrow
  cases hrow

end invariant

/-! ## The result -/

/-- Whatever the processes do and wherever they fail or die: the envelope of a row that is
not released, so of one that is canceled, expired or dead, was never readable by the
peer. -/
theorem undelivered_never_posted {event_id : Blob → EventId} {S : Host Store (List Posted) Op}
    (h : (relaying event_id).Reachable S) {sid : EventId} {row : ScheduledRow}
    (hrow : S.db.scheduler_queue.find sid = some row)
    (hstate : row.state = .canceled ∨ row.state = .expired ∨ row.state = .dead) :
    ∀ p ∈ S.outside, p.data ≠ row.inner_event := by
  intro p hp hdata
  have hposts := posts_of_reachable h
  have hreleased := hposts.released p hp
  rw [hdata, hposts.db.own sid row hrow, Released, hrow] at hreleased
  have hst : row.state = .released := Option.some.inj hreleased
  rw [hst] at hstate
  simp at hstate

/-- The id of a test envelope. -/
def firstByte (data : Blob) : EventId := (data.headD 0).toNat

/-- Two events to a relationship with a local directory. -/
def twoEvents (o : Nat) : Outgoing :=
  { event_id := o, relationship_id := 0, payload := .other, sealed_bytes := [o.toUInt8] }

/-- A store without rows. -/
def configured : Store where
  relationships := (Table.empty.insert ⟨0, .active⟩).getD Table.empty
  relay_config := [0]

/-- The draws of a run. -/
def localDraws : Draws := ⟨fun _ => drawnName, fun _ => .local_dir⟩

/-- The first event is uploaded, and the process dies right after; the second is
canceled. -/
def uploadedThenCanceled : List (Host.Turn Op) :=
  [.call (.send (twoEvents 1) 0)] ++ List.replicate 3 (.advance 0) ++
    [.call (.run_due localDraws 0 0)] ++ List.replicate 13 (.advance 1) ++ [.kill 1] ++
    [.call (.send (twoEvents 2) 0)] ++ List.replicate 3 (.advance 2) ++
    [.call (.cancel 2)] ++ List.replicate 4 (.advance 3)

theorem undelivered_never_posted_canceled :
    ∃ S row, (relaying firstByte).Reachable S ∧ S.outside = [⟨0, drawnName, [1]⟩] ∧
      S.db.scheduler_queue.find 2 = some row ∧ row.state = .canceled ∧ ∀ p ∈ S.outside, p.data ≠ row.inner_event := by
  have hend : ((relaying firstByte).run ⟨configured, [], none, []⟩ uploadedThenCanceled).map
      (fun S => (S.outside, (S.db.scheduler_queue.find 2).map (·.state))) =
        some ([⟨0, drawnName, [1]⟩], some .canceled) := by decide +kernel
  obtain ⟨S, hrun, hS⟩ := Option.map_eq_some_iff.mp hend
  have hreach := Machine.reachable_of_run (M := relaying firstByte) ⟨⟨rfl, rfl, rfl⟩, rfl, rfl⟩ hrun
  obtain ⟨houtside, hstate⟩ := Prod.mk.inj hS
  obtain ⟨row, hrow, hcanceled⟩ := Option.map_eq_some_iff.mp hstate
  exact ⟨S, row, hreach, houtside, hrow, hcanceled, undelivered_never_posted hreach hrow (Or.inl hcanceled)⟩

/-! ## One process alone -/

section alone

variable {d : Draws} (hgithub : ∀ rid, d.provider rid = .github)

theorem runs_restoreApproval (sid : EventId) (approval_id : Option ApprovalId) (now : Nat) (terminal : SchedState) :
    Job.Implements (restoreApprovalForUndelivered sid approval_id now terminal)
      (Scheduler.restoreApprovalForUndelivered sid approval_id now terminal) := by
  cases approval_id with
  | none => exact Job.Implements.ret ()
  | some a =>
    unfold restoreApprovalForUndelivered Scheduler.restoreApprovalForUndelivered
    exact (Job.Implements.query _).bind (fun _ => (Job.Implements.execute _).bind (fun _ => Job.Implements.execute _))

theorem runs_expireRow (now : Nat) (row : ScheduledRow) :
    Job.Implements (expireRow now row) (Scheduler.expireRow now row) :=
  (Job.Implements.execute _).bind (fun _ => (runs_restoreApproval _ _ _ _).bind (fun _ => Job.Implements.ret _))

theorem runs_rotationManager : Job.Implements rotationManager Scheduler.rotationManager := by
  refine (Job.Implements.executescript id).bind (fun _ => (Job.Implements.query _).bind (fun has_column => ?_))
  split_ifs
  · exact Job.Implements.ret ()
  · exact Job.Implements.execute _

theorem runs_maySend (rid : RelationshipId) (utcnow : Nat) :
    Job.Implements (maySend rid utcnow) (Scheduler.maySend rid utcnow) := by
  unfold maySend Scheduler.maySend
  refine (Job.Implements.query _).bind (fun rotation => ?_)
  cases rotation with
  | none => exact Job.Implements.ret ()
  | some r =>
    dsimp only
    split_ifs
    · exact Job.Implements.raise _
    · exact Job.Implements.ret ()

theorem runs_transportFor (rid : RelationshipId) :
    Job.Implements (transportFor rid) (Scheduler.transportFor rid) := by
  unfold transportFor Scheduler.transportFor
  refine (Job.Implements.query _).bind (fun configured => ?_)
  split_ifs
  · exact Job.Implements.ret ()
  · exact Job.Implements.raise _

theorem runs_queueUpload (rid : RelationshipId) (name : ObjectName) (data : Blob) :
    Job.Implements (queueUpload rid name data) (Scheduler.queueUpload rid name data) := by
  refine (Job.Implements.execute _).bind (fun _ => ?_)
  split_ifs
  · exact Job.Implements.raise _
  · exact Job.Implements.raise _
  · exact Job.Implements.execute _

include hgithub in
theorem runs_enqueue (rid : RelationshipId) (sid : EventId) (sealed_event : Blob) :
    Job.Implements (enqueue d rid sid sealed_event) (Scheduler.enqueue rid sid sealed_event (d.name sid)) := by
  unfold enqueue Scheduler.enqueue
  refine (Job.Implements.query _).bind (fun seen => ?_)
  cases seen with
  | some o => exact Job.Implements.ret ()
  | none =>
    have hplace : Job.Implements (place d rid sid sealed_event) (Scheduler.queueUpload rid (d.name sid) sealed_event) := by
      rw [place, hgithub rid]
      exact runs_queueUpload rid (d.name sid) sealed_event
    exact (runs_transportFor rid).bind (fun _ => hplace.bind (fun _ => Job.Implements.execute _))

include hgithub in
theorem runs_releaseFn (utcnow : Nat) (sid : EventId) (sealed_event : Blob) (late_by : Nat) :
    Job.Implements (releaseFn d utcnow sid sealed_event)
      (Scheduler.releaseFn (d.name sid) utcnow sid sealed_event late_by) := by
  unfold releaseFn Scheduler.releaseFn
  refine (Job.Implements.query _).bind (fun event => ?_)
  cases event with
  | none => exact Job.Implements.ret ()
  | some e =>
    dsimp only
    unfold consentGate Scheduler.consentGate
    refine (Job.Implements.query _).bind (fun consent => ?_)
    cases consent with
    | none => exact Job.Implements.raise _
    | some consent =>
      cases consent with
      | revoked => exact Job.Implements.raise _
      | active =>
        exact runs_rotationManager.bind (fun _ => (runs_maySend _ _).bind (fun _ => runs_enqueue hgithub _ _ _))

theorem runs_gateHandler (e : Exc SchedExc) : Job.Implements (gateHandler e) (Scheduler.gateHandler e) := by
  cases e with
  | db e => exact Job.Implements.reraise _
  | app e =>
    cases e with
    | revoked => exact Job.Implements.raise _
    | paused => exact Job.Implements.raise _
    | _ => exact Job.Implements.reraise _

theorem runs_recordReleaseFailure (sid : EventId) (now : Nat) :
    Job.Implements (recordReleaseFailure sid now) (Scheduler.recordReleaseFailure sid now) := by
  refine Job.Implements.transaction ((Job.Implements.execute _).bind (fun _ => (Job.Implements.query _).bind
    (fun found => ?_)))
  cases found with
  | none => exact Job.Implements.raise _
  | some failures =>
    dsimp only
    split_ifs
    · exact (Job.Implements.execute _).bind (fun _ => (Job.Implements.query _).bind (fun _ =>
        (runs_restoreApproval _ _ _ _).bind (fun _ => Job.Implements.ret _)))
    · exact Job.Implements.ret _

include hgithub in
/-- Without other processes and with the git transport, the processing of a row is that of
the queue. -/
theorem runs_processRow (now utcnow : Nat) (row : ScheduledRow) :
    Job.Implements (processRow d now utcnow row)
      (Scheduler.processRow now utcnow (Scheduler.releaseFn (d.name row.scheduled_id) utcnow) row) := by
  have hclaim : Job.Implements (claimAndRelease d now utcnow row)
      (Scheduler.claimAndRelease now (Scheduler.releaseFn (d.name row.scheduled_id) utcnow) row) := by
    refine (Job.Implements.execute _).bind (fun rowcount => ?_)
    split_ifs
    · exact Job.Implements.raise _
    · exact (runs_releaseFn hgithub _ _ _ _).tryElse (fun _ => Job.Implements.ret _) runs_gateHandler
  have hbody : Job.Implements (releaseBody d now utcnow row)
      (Scheduler.releaseBody now (Scheduler.releaseFn (d.name row.scheduled_id) utcnow) row) := by
    unfold releaseBody Scheduler.releaseBody
    refine (Job.Implements.query _).bind (fun current => ?_)
    cases current with
    | none => exact Job.Implements.ret _
    | some state =>
      cases state with
      | scheduled =>
        dsimp only
        split_ifs
        · exact runs_expireRow now row
        · exact Job.Implements.ret _
        · exact hclaim
      | _ => exact Job.Implements.ret _
  refine Job.Implements.tryElse ((Job.Implements.transaction hbody).tryElse (fun _ => Job.Implements.ret _)
    (fun e => ?_)) (fun _ => Job.Implements.ret _)
    (fun _ => (runs_recordReleaseFailure _ _).bind (fun _ => Job.Implements.ret _))
  cases e with
  | db e => exact Job.Implements.reraise _
  | app e =>
    cases e with
    | gated status => exact Job.Implements.ret _
    | _ => exact Job.Implements.reraise _

end alone

end MuseAgentSocial.Visibility
