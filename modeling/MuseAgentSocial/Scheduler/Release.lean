import MuseAgentSocial.Scheduler.Queue

/-!
# The shipped release function

`releaseFn` is the `release_fn` of `cli.py` on the git transport, and
`processRow` runs it inside the transaction of the claim.  Between the
consent gate and the pause gate it constructs a `RotationManager`, whose
table setup is an `executescript` on the same connection: the claim is
committed there, before anything is enqueued, and the commit or rollback that
ends the transaction raises.

`AtomicRelease` is the intended property.  `EndsBeforeScript` says that the
processing of the row ends before that `executescript`: the row is not
claimed, the relationship refuses, or a statement fails or the process dies
earlier.  `release_atomic_iff` shows that the two are equivalent, for every
store, row, clock and plan of faults.
-/

namespace MuseAgentSocial.Scheduler

open Policy Model Transports Sqlite

/-! ## `_release_fn` -/

/-- `RotationManager(conn, keys_dir)`: the setup of the rotation tables and
the backfill of the `rejected` column. -/
def rotationManager : SchedProg Unit := do
  Prog.executescript id
  let has_column : Bool ← Prog.query (fun s => s.has_rejected_column)
  if has_column then pure ()
  else Prog.execute (fun s => .ok ({ s with has_rejected_column := true }, ()))

/-- `may_send`, with its exception turned into `SendPausedError`. -/
def maySend (rid : RelationshipId) (utcnow : Nat) : SchedProg Unit := do
  let rotation : Option AckedRotation ←
    Prog.query (fun s => s.acked_rotations.find? (fun r => r.relationship_id = rid))
  match rotation with
  | none => pure ()
  | some r => if r.deadline < utcnow then Prog.raise .paused else pure ()

/-- `_transport_for(ctx, rid, "send")` for the git provider. -/
def transportFor (rid : RelationshipId) : SchedProg Unit := do
  let configured : Bool ← Prog.query (fun s => decide (rid ∈ s.relay_config))
  if configured then pure () else Prog.raise .other

/-- `queue_mutation` of an upload. -/
def queueUpload (rid : RelationshipId) (name : ObjectName) (data : Blob) : SchedProg Unit := do
  Prog.execute (fun s => .ok (s, ()))
  if objectNameRe name = false then
    Prog.raise .other
  else if OBJECT_MAX_BYTES < data.length then
    Prog.raise .other
  else
    Prog.execute (fun s => .ok
      ({ s with transport_mutations := s.transport_mutations ++ [⟨rid, .upload name data⟩] }, ()))

/-- The enqueue: the already chosen object, or a new one under `name`. -/
def enqueue (rid : RelationshipId) (sid : EventId) (sealed_event : Blob) (name : ObjectName) :
    SchedProg Unit := do
  let seen : Option SentObject ← Prog.query (fun s => s.sent_objects.find sid)
  match seen with
  | some _ => pure ()
  | none => do
    transportFor rid
    queueUpload rid name sealed_event
    Prog.execute (fun s =>
      .ok ({ s with sent_objects := s.sent_objects.insertOrIgnore ⟨sid, name⟩ }, ()))

/-- Everything after the consent gate. -/
def afterConsent (rid : RelationshipId) (sid : EventId) (sealed_event : Blob)
    (name : ObjectName) (utcnow : Nat) : SchedProg Unit := do
  rotationManager
  maySend rid utcnow
  enqueue rid sid sealed_event name

/-- `SELECT consent_state FROM relationships`. -/
def Store.consentState (s : Store) (rid : RelationshipId) : Option ConsentState :=
  (s.relationships.find rid).map (·.consent_state)

/-- The consent gate and what follows it. -/
def consentGate (rid : RelationshipId) (sid : EventId) (sealed_event : Blob)
    (name : ObjectName) (utcnow : Nat) : SchedProg Unit := do
  let consent ← Prog.query (fun s => s.consentState rid)
  match consent with
  | none | some .revoked => Prog.raise .revoked
  | some .active => afterConsent rid sid sealed_event name utcnow

/-- `release_fn`.  `name` is the drawn object name. -/
def releaseFn (name : ObjectName) (utcnow : Nat) : ReleaseFn := fun sid sealed_event _ => do
  let event ← Prog.query (fun s => s.events.find sid)
  match event with
  | none => pure ()
  | some e => consentGate e.relationship_id sid sealed_event name utcnow

/-! ## The property -/

/-- The row is in state `released`. -/
def Released (s : Store) (sid : EventId) : Prop :=
  (s.scheduler_queue.find sid).map (·.state) = some .released

/-- A `sent_objects` row and exactly one upload of its object exist. -/
def Enqueued (s : Store) (sid : EventId) : Prop :=
  ∃ o, s.sent_objects.find sid = some o ∧
    (s.transport_mutations.filter (fun m =>
      match m.mutation with
      | .upload n _ => n = o.object_name
      | .consume _ => false)).length = 1

/-- A row is released if and only if it is enqueued. -/
def Consistent (sid : EventId) (s : Store) : Prop := Released s sid ↔ Enqueued s sid

/-- The processing of a row from the store `s`, under a plan of faults. -/
structure AtomicRelease (s : Store) (row : ScheduledRow) (now utcnow : Nat) (name : ObjectName)
    (plan : Plan) : Prop where
  /-- Whenever no transaction is open, the row is released exactly when it is
  enqueued. -/
  consistent : ∀ s' ∈ (processRow now utcnow (releaseFn name utcnow) row plan { db := s }).2.seen,
    Consistent row.scheduled_id s'
  /-- After a release transaction that refused or failed the row is still
  scheduled, with nothing enqueued. -/
  refused : ∀ e,
    let tx := Prog.transaction (releaseBody now (releaseFn name utcnow) row) plan { db := s }
    tx.1 = .raised e → tx.2.saved = none →
      (s.scheduler_queue.find row.scheduled_id).map (·.state) = some .scheduled →
      (tx.2.db.scheduler_queue.find row.scheduled_id).map (·.state) = some .scheduled ∧
        ¬ Enqueued tx.2.db row.scheduled_id
  /-- A row that this processing released and enqueued is reported so. -/
  reported :
    let out := processRow now utcnow (releaseFn name utcnow) row plan { db := s }
    ¬ Released s row.scheduled_id → out.2.saved = none → Released out.2.db row.scheduled_id →
      Enqueued out.2.db row.scheduled_id → ∀ bucket, out.1 = .returned bucket →
      bucket = some .released

/-- What the gates before the `executescript` say. -/
inductive Gate where
  /-- The event row is gone: the function returns at once. -/
  | gone
  /-- The relationship is revoked or gone. -/
  | refuses
  /-- The function goes on to construct the `RotationManager`. -/
  | passes
  deriving DecidableEq, Repr

/-- The gates on a store. -/
def gate (s : Store) (sid : EventId) : Gate :=
  match s.events.find sid with
  | none => .gone
  | some e =>
    match s.consentState e.relationship_id with
    | none | some .revoked => .refuses
    | some .active => .passes

/-- The row is claimed: it is scheduled, due and not expired. -/
def Claimed (s : Store) (row : ScheduledRow) (now : Nat) : Prop :=
  (s.scheduler_queue.find row.scheduled_id).map (·.state) = some .scheduled ∧
    now < row.effectiveExpiresAt ∧ row.deliver_at ≤ now

/-- The processing of the row ends before the `executescript`: the row is not
claimed, the relationship refuses, or one of the five statements before the
implicit commit, or that commit, is not executed.  When the event row is
gone, the commit of the claim follows after four statements. -/
def EndsBeforeScript (s : Store) (row : ScheduledRow) (now : Nat) (plan : Plan) : Prop :=
  Claimed s row now →
    match gate s row.scheduled_id with
    | .gone => ∃ i < 5, plan i ≠ none
    | .refuses => True
    | .passes => ∃ i < 6, plan i ≠ none

/-! ## Statements that release nothing -/

section Keeps

variable {sid : EventId} {s₀ : Store}

/-- The row is consistent, and released only if it was so in `s₀`. -/
def Kept (sid : EventId) (s₀ s : Store) : Prop :=
  Consistent sid s ∧ (Released s sid → Released s₀ sid)

/-- The property looks at three tables, and of the queue only at which rows
are released. -/
theorem Kept.of_tables {s s' : Store} (h : Kept sid s₀ s)
    (hreleased : Released s' sid ↔ Released s sid) (hsent : s'.sent_objects = s.sent_objects)
    (hmutations : s'.transport_mutations = s.transport_mutations) : Kept sid s₀ s' := by
  have henq : Enqueued s' sid ↔ Enqueued s sid := by
    simp only [Enqueued, hsent, hmutations]
  refine ⟨?_, fun hr => h.2 (hreleased.mp hr)⟩
  rw [Consistent, hreleased, henq]
  exact h.1

theorem released_leaveScheduled {s : Store} {sid' : EventId} {next : SchedState}
    (hnext : next ≠ .released) : Released (s.leaveScheduled sid' next) sid ↔ Released s sid := by
  simp only [Released, Store.leaveScheduled, Table.find_modify]
  split_ifs with hid
  · subst hid
    cases hfind : s.scheduler_queue.find sid with
    | none => simp
    | some r =>
      by_cases hst : r.state = .scheduled <;> simp [hst, hnext]
  · rfl

theorem released_countFailure {s : Store} {sid' : EventId} :
    Released (s.countFailure sid') sid ↔ Released s sid := by
  simp only [Released, Store.countFailure, Table.find_modify]
  split_ifs with hid
  · subst hid
    cases s.scheduler_queue.find sid <;> simp
  · rfl

theorem keeps_restoreApprovalForUndelivered (sid' : EventId) (a : Option ApprovalId) (now : Nat)
    (terminal : SchedState) :
    Prog.Keeps (Kept sid s₀) (restoreApprovalForUndelivered sid' a now terminal) := by
  cases a with
  | none => exact Prog.Keeps.ret ()
  | some a =>
    refine (Prog.Keeps.query _).bind (fun _ => (Prog.Keeps.execute ?_).bind
      (fun _ => Prog.Keeps.execute ?_))
    · rintro s s' b h heq
      simp only [restoreApprovalStmt, Except.ok.injEq, Prod.mk.injEq] at heq
      obtain ⟨rfl, -⟩ := heq
      exact h.of_tables Iff.rfl rfl rfl
    · rintro s s' b h heq
      simp only [Except.ok.injEq, Prod.mk.injEq] at heq
      obtain ⟨rfl, -⟩ := heq
      exact h.of_tables Iff.rfl rfl rfl

theorem keeps_leaveScheduledStmt (sid' : EventId) {next : SchedState}
    (hnext : next ≠ .released) :
    Prog.Keeps (Kept sid s₀) (Prog.execute (leaveScheduledStmt sid' next) : SchedProg Nat) := by
  refine Prog.Keeps.execute ?_
  rintro s s' b h heq
  simp only [leaveScheduledStmt, Except.ok.injEq, Prod.mk.injEq] at heq
  obtain ⟨rfl, -⟩ := heq
  exact h.of_tables (released_leaveScheduled hnext) rfl rfl

/-- An expiry releases nothing. -/
theorem keeps_expireRow (now : Nat) (row : ScheduledRow) :
    Prog.Keeps (Kept sid s₀) (expireRow now row) :=
  (keeps_leaveScheduledStmt _ (by decide)).bind (fun _ =>
    (keeps_restoreApprovalForUndelivered _ _ now _).bind (fun _ => Prog.Keeps.ret _))

/-- Counting a failure releases nothing. -/
theorem keeps_recordBody (sid' : EventId) (now : Nat) :
    Prog.Keeps (Kept sid s₀) (recordBody sid' now) := by
  refine (Prog.Keeps.execute ?_).bind (fun _ => (Prog.Keeps.query _).bind (fun found => ?_))
  · rintro s s' b h heq
    simp only [Except.ok.injEq, Prod.mk.injEq] at heq
    obtain ⟨rfl, -⟩ := heq
    exact h.of_tables released_countFailure rfl rfl
  · cases found with
    | none => exact Prog.Keeps.raise _
    | some failures =>
      dsimp only
      split_ifs
      · exact (keeps_leaveScheduledStmt sid' (by decide)).bind (fun _ =>
          (Prog.Keeps.query _).bind (fun _ =>
            (keeps_restoreApprovalForUndelivered sid' _ now _).bind (fun _ => Prog.Keeps.ret _)))
      · exact Prog.Keeps.ret _

end Keeps

/-! ## A claim that ends early -/

section Early

variable {s : Store} {row : ScheduledRow} {now : Nat} {plan : Plan} (utcnow : Nat)
  (name : ObjectName)

/-- The gate handler raises, so it does not save an early end. -/
theorem aborts_gateHandler {p : SchedProg Unit} {rest : Unit → SchedProg (Status × Nat)}
    {c : Conn Store} (h : Prog.Aborts c (p plan c)) :
    Prog.Aborts c (Prog.tryElse p rest gateHandler plan c) := by
  obtain ⟨c', hsaved, hseen, ⟨e, he⟩ | he⟩ := h
  · rw [Prog.tryElse_raised he]
    refine ⟨c', hsaved, hseen, Or.inl ?_⟩
    unfold gateHandler
    split <;> exact ⟨_, rfl⟩
  · exact ⟨c', hsaved, hseen, Or.inr (Prog.tryElse_crashed he)⟩

/-- The connection inside the transaction of the claim, at statement `n`. -/
def claimedConn (s : Store) (sid : EventId) (n : Nat) : Conn Store :=
  ⟨s.leaveScheduled sid .released, some s, n, []⟩

/-- The consent gate aborts when it refuses, when its statement fails, and
when the implicit commit of the `executescript` fails. -/
theorem consentGate_early {rid : RelationshipId} (sid : EventId) (sealed_event : Blob)
    (h : s.consentState rid = some .active → plan 4 ≠ none ∨ plan 5 ≠ none) :
    Prog.Aborts (claimedConn s sid 4)
      (consentGate rid sid sealed_event name utcnow plan (claimedConn s sid 4)) := by
  by_cases h4 : plan 4 = none
  · have hq : (Prog.query (fun s => s.consentState rid) : SchedProg (Option ConsentState)) plan
        (claimedConn s sid 4) = (.returned (s.consentState rid), claimedConn s sid 5) :=
      Prog.query_ok _ h4
    have hrun : consentGate rid sid sealed_event name utcnow plan (claimedConn s sid 4) = _ :=
      Prog.bind_returned hq
    rw [hrun]
    cases hc : s.consentState rid with
    | none => exact ⟨claimedConn s sid 5, rfl, rfl, Or.inl ⟨_, rfl⟩⟩
    | some consent =>
      cases consent with
      | revoked => exact ⟨claimedConn s sid 5, rfl, rfl, Or.inl ⟨_, rfl⟩⟩
      | active =>
        have h5 : plan 5 ≠ none := (h hc).resolve_left (fun hne => hne h4)
        have hcommit : Prog.Aborts (claimedConn s sid 5)
            ((Prog.commitPending : SchedProg Unit) plan (claimedConn s sid 5)) := by
          change Prog.Aborts _ ((Prog.commit : SchedProg Unit) plan (claimedConn s sid 5))
          exact Prog.Aborts.of_fault h5
        have hmanager : Prog.Aborts (claimedConn s sid 5)
            (rotationManager plan (claimedConn s sid 5)) := hcommit.bind.bind
        exact (Prog.Aborts.bind hmanager).trans rfl rfl
  · exact Prog.Aborts.bind (Prog.Aborts.of_fault h4)

/-- `release_fn` after the claim, when it ends before the `executescript`:
it aborts, or it returns and the commit that follows does not happen. -/
theorem releaseFn_early (sid : EventId) (sealed_event : Blob) (late : Nat)
    (hgate : match gate s sid with
      | .gone => plan 3 ≠ none ∨ plan 4 ≠ none
      | .refuses => True
      | .passes => plan 3 ≠ none ∨ plan 4 ≠ none ∨ plan 5 ≠ none) :
    Prog.Aborts (claimedConn s sid 3)
        (releaseFn name utcnow sid sealed_event late plan (claimedConn s sid 3)) ∨
      (releaseFn name utcnow sid sealed_event late plan (claimedConn s sid 3) =
        (.returned (), claimedConn s sid 4) ∧ plan 4 ≠ none) := by
  by_cases h3 : plan 3 = none
  · have hq : (Prog.query (fun s => s.events.find sid) : SchedProg (Option EventRow)) plan
        (claimedConn s sid 3) = (.returned (s.events.find sid), claimedConn s sid 4) :=
      Prog.query_ok _ h3
    have hrun : releaseFn name utcnow sid sealed_event late plan (claimedConn s sid 3) = _ :=
      Prog.bind_returned hq
    rw [hrun]
    cases hev : s.events.find sid with
    | none =>
      simp only [gate, hev] at hgate
      exact Or.inr ⟨rfl, hgate.resolve_left (fun hne => hne h3)⟩
    | some e =>
      refine Or.inl ((consentGate_early utcnow name sid sealed_event (fun hc => ?_)).trans rfl rfl)
      simp only [gate, hev, hc] at hgate
      exact hgate.resolve_left (fun hne => hne h3)
  · exact Or.inl (Prog.Aborts.bind (Prog.Aborts.of_fault h3))

/-- What is left of the condition once the claim is reached without a
fault. -/
theorem EndsBeforeScript.gate (h : EndsBeforeScript s row now plan) (hclaim : Claimed s row now)
    (h0 : plan 0 = none) (h1 : plan 1 = none) (h2 : plan 2 = none) :
    match gate s row.scheduled_id with
    | .gone => plan 3 ≠ none ∨ plan 4 ≠ none
    | .refuses => True
    | .passes => plan 3 ≠ none ∨ plan 4 ≠ none ∨ plan 5 ≠ none := by
  have hrest := h hclaim
  have hlow : ∀ i, plan i ≠ none → 3 ≤ i := by
    intro i hi
    by_contra hlt
    obtain rfl | rfl | rfl : i = 0 ∨ i = 1 ∨ i = 2 := by omega
    all_goals simp_all
  cases hg : Scheduler.gate s row.scheduled_id <;> simp only [hg] at hrest ⊢
  · obtain ⟨i, hi, hne⟩ := hrest
    have := hlow i hne
    obtain rfl | rfl : i = 3 ∨ i = 4 := by omega
    · exact Or.inl hne
    · exact Or.inr hne
  · obtain ⟨i, hi, hne⟩ := hrest
    have := hlow i hne
    obtain rfl | rfl | rfl : i = 3 ∨ i = 4 ∨ i = 5 := by omega
    · exact Or.inl hne
    · exact Or.inr (Or.inl hne)
    · exact Or.inr (Or.inr hne)

/-- A claim that ends before the `executescript` stays inside its
transaction, and its commit does not happen. -/
theorem claim_early (h : EndsBeforeScript s row now plan) (hclaim : Claimed s row now)
    (h0 : plan 0 = none) (h1 : plan 1 = none) :
    Prog.Aborts ⟨s, some s, 2, []⟩
        (claimAndRelease now (releaseFn name utcnow) row plan ⟨s, some s, 2, []⟩) ∨
      ∃ a c', claimAndRelease now (releaseFn name utcnow) row plan ⟨s, some s, 2, []⟩ =
        (.returned a, c') ∧ c'.saved = some s ∧ c'.seen = [] ∧ plan c'.stmts ≠ none := by
  by_cases h2 : plan 2 = none
  · have hrows : (s.scheduler_queue.find row.scheduled_id).any (·.state = .scheduled) = true := by
      obtain ⟨r, hr, hst⟩ := Option.map_eq_some_iff.mp hclaim.1
      simp [hr, hst]
    have hupdate : (Prog.execute (leaveScheduledStmt row.scheduled_id .released) :
        SchedProg Nat) plan ⟨s, some s, 2, []⟩ =
        (.returned 1, claimedConn s row.scheduled_id 3) :=
      Prog.execute_ok (r := (s.leaveScheduled row.scheduled_id .released, 1)) h2
        (by simp [leaveScheduledStmt, hrows])
    have hrun : claimAndRelease now (releaseFn name utcnow) row plan ⟨s, some s, 2, []⟩ = _ :=
      Prog.bind_returned hupdate
    rw [hrun]
    rcases releaseFn_early utcnow name row.scheduled_id row.inner_event
      (now - row.deliver_at) (h.gate hclaim h0 h1 h2) with habort | ⟨hret, h4⟩
    · exact Or.inl ((aborts_gateHandler habort).trans rfl rfl)
    · exact Or.inr ⟨_, _, Prog.tryElse_returned hret, rfl, rfl, h4⟩
  · exact Or.inl (Prog.Aborts.bind (Prog.Aborts.of_fault h2))

theorem inside_expireRow {c : Conn Store} {s₀ : Store} (hopen : c.saved = some s₀) :
    Prog.Inside c (expireRow now row plan c) := by
  refine Prog.Inside.bind (Prog.Inside.execute hopen plan _) (fun _ c₁ hs₁ _ => ?_)
  refine Prog.Inside.bind ?_ (fun _ c₂ _ _ => Prog.Inside.ret c₂ plan _)
  cases row.approval_id with
  | none => exact Prog.Inside.ret c₁ plan _
  | some a =>
    refine Prog.Inside.bind (Prog.Inside.query (hs₁.trans hopen) plan _) (fun _ c₂ hs₂ _ => ?_)
    refine Prog.Inside.bind (Prog.Inside.execute (hs₂.trans (hs₁.trans hopen)) plan _)
      (fun _ c₃ hs₃ _ => ?_)
    exact Prog.Inside.execute (hs₃.trans (hs₂.trans (hs₁.trans hopen))) plan _

/-- The body of the release transaction stays inside it, and what it commits
released nothing. -/
theorem releaseBody_early (h : EndsBeforeScript s row now plan)
    (hcons : Consistent row.scheduled_id s) (h0 : plan 0 = none) :
    let out := releaseBody now (releaseFn name utcnow) row plan ⟨s, some s, 1, []⟩
    Prog.Inside ⟨s, some s, 1, []⟩ out ∧
      ∀ a c', out = (.returned a, c') → plan c'.stmts = none →
        Kept row.scheduled_id s c'.db := by
  have hkept : Kept row.scheduled_id s s := ⟨hcons, id⟩
  intro out
  by_cases h1 : plan 1 = none
  swap
  · have habort : Prog.Aborts ⟨s, some s, 1, []⟩ out :=
      Prog.Aborts.bind (Prog.Aborts.of_fault h1)
    exact ⟨Or.inl habort, fun a c' hout => absurd hout habort.not_returned⟩
  have hq : (Prog.query (fun s => (s.scheduler_queue.find row.scheduled_id).map (·.state)) :
      SchedProg (Option SchedState)) plan ⟨s, some s, 1, []⟩ =
      (.returned ((s.scheduler_queue.find row.scheduled_id).map (·.state)), ⟨s, some s, 2, []⟩) :=
    Prog.query_ok _ h1
  have hrun : out = _ := Prog.bind_returned hq
  -- a branch that only returns
  have hret : ∀ r : Status × Nat, out = (.returned r, ⟨s, some s, 2, []⟩) →
      Prog.Inside ⟨s, some s, 1, []⟩ out ∧
        ∀ a c', out = (.returned a, c') → plan c'.stmts = none →
          Kept row.scheduled_id s c'.db := by
    rintro r hr
    refine ⟨Or.inr ⟨r, _, hr, rfl, rfl⟩, fun a c' hout _ => ?_⟩
    rw [hr] at hout
    obtain ⟨-, rfl⟩ := Prod.mk.inj hout
    exact hkept
  cases hstate : (s.scheduler_queue.find row.scheduled_id).map (·.state) with
  | none => exact hret (.skipped, 0) (by rw [hrun, hstate]; rfl)
  | some state =>
    rw [hstate] at hrun
    cases state with
    | canceled => exact hret (.skipped_canceled, 0) hrun
    | released => exact hret (.skipped, 0) hrun
    | expired => exact hret (.skipped, 0) hrun
    | dead => exact hret (.skipped, 0) hrun
    | scheduled =>
      dsimp only at hrun
      split_ifs at hrun with hexp hdue
      · have hall : Conn.All (Kept row.scheduled_id s) ⟨s, some s, 2, []⟩ :=
          ⟨hkept, by simp [hkept], by simp⟩
        have hdb := (keeps_expireRow now row plan _ hall).db
        rw [hrun]
        refine ⟨(inside_expireRow rfl).trans rfl rfl, fun a c' hout _ => ?_⟩
        rw [hout] at hdb
        exact hdb
      · exact hret (.not_due, 0) hrun
      · have hclaim : Claimed s row now := ⟨hstate, by omega, by omega⟩
        rw [hrun]
        rcases claim_early utcnow name h hclaim h0 h1 with
          habort | ⟨r, c₂, hout₂, hsaved, hseen, hplan⟩
        · exact ⟨Or.inl (habort.trans rfl rfl), fun a c' hout => absurd hout habort.not_returned⟩
        · refine ⟨Or.inr ⟨r, c₂, hout₂, hsaved, hseen⟩, fun a c' hout hnone => ?_⟩
          rw [hout₂] at hout
          obtain ⟨-, rfl⟩ := Prod.mk.inj hout
          exact absurd hnone hplan

theorem releaseTransaction_early (h : EndsBeforeScript s row now plan)
    (hcons : Consistent row.scheduled_id s) :
    let tx := Prog.transaction (releaseBody now (releaseFn name utcnow) row) plan { db := s }
    tx.2.Visible (Kept row.scheduled_id s) ∧
      ∀ e, tx.1 = .raised e → tx.2.saved = none → tx.2.db = s := by
  have hall : Conn.All (Kept row.scheduled_id s) { db := s } :=
    ⟨⟨hcons, id⟩, by simp, by simp⟩
  refine Prog.transaction_inside rfl hall (fun h0 => ?_) (fun a c' hout h0 hplan => ?_)
  · exact (releaseBody_early utcnow name h hcons h0).1
  · exact (releaseBody_early utcnow name h hcons h0).2 a c' hout hplan

theorem processRow_early (h : EndsBeforeScript s row now plan)
    (hcons : Consistent row.scheduled_id s) :
    (processRow now utcnow (releaseFn name utcnow) row plan { db := s }).2.Visible
      (Kept row.scheduled_id s) := by
  have htx := (releaseTransaction_early utcnow name h hcons).1
  have hone : (releaseOneRow now (releaseFn name utcnow) row plan { db := s }).2.Visible
      (Kept row.scheduled_id s) := by
    refine Prog.tryElse_visible htx (fun _ _ hc => hc) (fun e c' hc => ?_)
    split <;> exact hc
  refine Prog.tryElse_visible hone (fun _ _ hc => hc) (fun _ c' hc => ?_)
  exact Prog.tryElse_visible (Prog.transaction_visible (keeps_recordBody _ utcnow) hc)
    (fun _ _ hc => hc) (fun _ _ hc => hc)

/-- Ending before the `executescript` is enough. -/
theorem atomicRelease_of_early (h : EndsBeforeScript s row now plan)
    (hcons : Consistent row.scheduled_id s) :
    AtomicRelease s row now utcnow name plan := by
  have hvis := processRow_early utcnow name h hcons
  refine ⟨fun s' hs' => (hvis.seen s' hs').1, ?_, ?_⟩
  · intro e tx hraised hclosed hstate
    have hdb := (releaseTransaction_early utcnow name h hcons).2 e hraised
      hclosed
    rw [hdb]
    refine ⟨hstate, fun henq => ?_⟩
    have hreleased : Released s row.scheduled_id := hcons.mpr henq
    simp [Released, hstate] at hreleased
  · intro out hnot hclosed hreleased
    have hcommitted := hvis.committed
    rw [show (processRow now utcnow (releaseFn name utcnow) row plan { db := s }).2.saved = none
      from hclosed] at hcommitted
    exact absurd (hcommitted.2 hreleased) hnot

end Early

/-! ## The claim that is committed too early -/

section Late

variable {s : Store} {row : ScheduledRow} {now : Nat} {plan : Plan} (utcnow : Nat)
  (name : ObjectName)

theorem grows_setupRest : Prog.Grows (do
    let has_column : Bool ← Prog.query (fun s => s.has_rejected_column)
    if has_column then pure ()
    else Prog.execute (fun s => .ok ({ s with has_rejected_column := true }, ())) :
      SchedProg Unit) := by
  refine (Prog.Grows.query _).bind (fun b => ?_)
  split_ifs
  · exact Prog.Grows.ret ()
  · exact Prog.Grows.execute _

theorem grows_maySend (rid : RelationshipId) : Prog.Grows (maySend rid utcnow) := by
  refine (Prog.Grows.query _).bind (fun r => ?_)
  cases r with
  | none => exact Prog.Grows.ret ()
  | some r =>
    dsimp only
    split_ifs
    · exact Prog.Grows.raise _
    · exact Prog.Grows.ret ()

theorem grows_enqueue (rid : RelationshipId) (sid : EventId) (sealed_event : Blob) :
    Prog.Grows (enqueue rid sid sealed_event name) := by
  refine (Prog.Grows.query _).bind (fun seen => ?_)
  cases seen with
  | some o => exact Prog.Grows.ret ()
  | none =>
    refine Prog.Grows.bind ?_ (fun _ => Prog.Grows.bind ?_ (fun _ => Prog.Grows.execute _))
    · refine (Prog.Grows.query _).bind (fun b => ?_)
      split_ifs
      · exact Prog.Grows.ret ()
      · exact Prog.Grows.raise _
    · refine (Prog.Grows.execute _).bind (fun _ => ?_)
      split_ifs
      · exact Prog.Grows.raise _
      · exact Prog.Grows.raise _
      · exact Prog.Grows.execute _

theorem grows_gateHandler (e : Exc SchedExc) : Prog.Grows (gateHandler e) := by
  unfold gateHandler
  split
  · exact Prog.Grows.raise _
  · exact Prog.Grows.raise _
  · exact Prog.Grows.reraise _

theorem grows_recordReleaseFailure (sid : EventId) (now : Nat) :
    Prog.Grows (recordReleaseFailure sid now) := by
  refine Prog.Grows.transaction ((Prog.Grows.execute _).bind (fun _ =>
    (Prog.Grows.query _).bind (fun found => ?_)))
  cases found with
  | none => exact Prog.Grows.raise _
  | some failures =>
    dsimp only
    split_ifs
    · refine (Prog.Grows.execute _).bind (fun _ => (Prog.Grows.query _).bind (fun a =>
        Prog.Grows.bind ?_ (fun _ => Prog.Grows.ret _)))
      cases a with
      | none => exact Prog.Grows.ret ()
      | some a =>
        exact (Prog.Grows.query _).bind (fun _ => (Prog.Grows.execute _).bind
          (fun _ => Prog.Grows.execute _))
    · exact Prog.Grows.ret _

theorem mem_seen_processRow {s' : Store} {c : Conn Store}
    (h : s' ∈ (Prog.transaction (releaseBody now (releaseFn name utcnow) row) plan c).2.seen) :
    s' ∈ (processRow now utcnow (releaseFn name utcnow) row plan c).2.seen := by
  refine Prog.mem_seen_tryElse (Prog.mem_seen_tryElse h (fun _ => Prog.Grows.ret _) ?_)
    (fun _ => Prog.Grows.ret _) ?_
  · intro e
    split
    · exact Prog.Grows.ret _
    · exact Prog.Grows.reraise _
  · intro e
    exact (grows_recordReleaseFailure _ _).bind (fun _ => Prog.Grows.ret _)

theorem releaseBody_claimed (hclaim : Claimed s row now) (h1 : plan 1 = none)
    (h2 : plan 2 = none) :
    releaseBody now (releaseFn name utcnow) row plan ⟨s, some s, 1, []⟩ =
      Prog.tryElse
        (releaseFn name utcnow row.scheduled_id row.inner_event (now - row.deliver_at))
        (fun _ => pure (.released, now - row.deliver_at)) gateHandler plan
        (claimedConn s row.scheduled_id 3) := by
  have hq : (Prog.query (fun s => (s.scheduler_queue.find row.scheduled_id).map (·.state)) :
      SchedProg (Option SchedState)) plan ⟨s, some s, 1, []⟩ =
      (.returned ((s.scheduler_queue.find row.scheduled_id).map (·.state)), ⟨s, some s, 2, []⟩) :=
    Prog.query_ok _ h1
  have hrows : (s.scheduler_queue.find row.scheduled_id).any (·.state = .scheduled) = true := by
    obtain ⟨r, hr, hst⟩ := Option.map_eq_some_iff.mp hclaim.1
    simp [hr, hst]
  have hupdate : (Prog.execute (leaveScheduledStmt row.scheduled_id .released) :
      SchedProg Nat) plan ⟨s, some s, 2, []⟩ =
      (.returned 1, claimedConn s row.scheduled_id 3) :=
    Prog.execute_ok (r := (s.leaveScheduled row.scheduled_id .released, 1)) h2
      (by simp [leaveScheduledStmt, hrows])
  have hrun : releaseBody now (releaseFn name utcnow) row plan ⟨s, some s, 1, []⟩ = _ :=
    Prog.bind_returned hq
  rw [hrun, hclaim.1]
  dsimp only
  rw [if_neg (by have := hclaim.2.1; omega), if_neg (by have := hclaim.2.2; omega)]
  exact Prog.bind_returned hupdate

theorem releaseFn_publishes {e : EventRow} (sid : EventId) (sealed_event : Blob) (late : Nat)
    (hev : s.events.find sid = some e) (hc : s.consentState e.relationship_id = some .active)
    (h3 : plan 3 = none) (h4 : plan 4 = none) (h5 : plan 5 = none) :
    s.leaveScheduled sid .released ∈
      (releaseFn name utcnow sid sealed_event late plan (claimedConn s sid 3)).2.seen := by
  have hq : (Prog.query (fun s => s.events.find sid) : SchedProg (Option EventRow)) plan
      (claimedConn s sid 3) = (.returned (s.events.find sid), claimedConn s sid 4) :=
    Prog.query_ok _ h3
  have hq' : (Prog.query (fun s => s.consentState e.relationship_id) :
      SchedProg (Option ConsentState)) plan (claimedConn s sid 4) =
      (.returned (s.consentState e.relationship_id), claimedConn s sid 5) :=
    Prog.query_ok _ h4
  have hrun : releaseFn name utcnow sid sealed_event late plan (claimedConn s sid 3) = _ :=
    Prog.bind_returned hq
  have hrun' : consentGate e.relationship_id sid sealed_event name utcnow plan
      (claimedConn s sid 4) = _ := Prog.bind_returned hq'
  rw [hrun, hev]
  dsimp only
  rw [hrun', hc]
  -- the rest of the function only extends the history
  refine Prog.mem_seen_tryElse ?_ (fun _ => (grows_maySend _ _).bind
    (fun _ => grows_enqueue _ _ _ _))
    Prog.Grows.reraise
  refine Prog.mem_seen_tryElse ?_ (fun _ => grows_setupRest) Prog.Grows.reraise
  refine Prog.mem_seen_tryElse ?_ (fun _ => Prog.Grows.execute _) Prog.Grows.reraise
  have hcommit : (Prog.commitPending : SchedProg Unit) plan (claimedConn s sid 5) =
      (.returned (), ⟨s.leaveScheduled sid .released, none, 6,
        [s.leaveScheduled sid .released]⟩) := by
    change (Prog.commit : SchedProg Unit) plan (claimedConn s sid 5) = _
    exact Prog.statement_ok ⟨s.leaveScheduled sid .released, none, 5, []⟩ h5 rfl
  rw [hcommit]
  simp

/-- The claim is published: by the implicit commit of the `executescript`,
or by the commit of the transaction when the event row is gone. -/
theorem claim_seen (hclaim : Claimed s row now)
    (hgate : match gate s row.scheduled_id with
      | .gone => ∀ i < 5, plan i = none
      | .refuses => False
      | .passes => ∀ i < 6, plan i = none) :
    s.leaveScheduled row.scheduled_id .released ∈
      (processRow now utcnow (releaseFn name utcnow) row plan { db := s }).2.seen := by
  refine mem_seen_processRow utcnow name ?_
  -- without a fault the first three statements run, whatever the gates say
  have hfirst : ∀ i < 3, plan i = none := by
    intro i hi
    cases hg : gate s row.scheduled_id <;> simp only [hg] at hgate
    · exact hgate i (by omega)
    · exact hgate i (by omega)
  unfold Prog.transaction
  rw [Prog.bind_returned (Prog.begin_opened rfl (hfirst 0 (by omega)))]
  change _ ∈ (Prog.tryElse _ _ _ plan ⟨s, some s, 1, []⟩).2.seen
  have hbody := releaseBody_claimed utcnow name hclaim
    (hfirst 1 (by omega)) (hfirst 2 (by omega))
  cases hev : s.events.find row.scheduled_id with
  | none =>
    simp only [gate, hev] at hgate
    have hq : (Prog.query (fun s => s.events.find row.scheduled_id) :
        SchedProg (Option EventRow)) plan (claimedConn s row.scheduled_id 3) =
        (.returned (s.events.find row.scheduled_id), claimedConn s row.scheduled_id 4) :=
      Prog.query_ok _ (hgate 3 (by omega))
    have hfn : releaseFn name utcnow row.scheduled_id row.inner_event (now - row.deliver_at) plan
        (claimedConn s row.scheduled_id 3) = (.returned (), claimedConn s row.scheduled_id 4) := by
      have hrun : releaseFn name utcnow row.scheduled_id row.inner_event (now - row.deliver_at)
        plan (claimedConn s row.scheduled_id 3) = _ := Prog.bind_returned hq
      rw [hrun, hev]
      rfl
    rw [Prog.tryElse_returned hfn] at hbody
    rw [Prog.tryElse_returned hbody]
    refine Prog.mem_seen_tryElse ?_ (fun _ => Prog.Grows.ret _) Prog.Grows.reraise
    have hcommit : (Prog.commit : SchedProg Unit) plan (claimedConn s row.scheduled_id 4) =
        (.returned (), ⟨s.leaveScheduled row.scheduled_id .released, none, 5,
          [s.leaveScheduled row.scheduled_id .released]⟩) :=
      Prog.statement_ok ⟨s.leaveScheduled row.scheduled_id .released, none, 4, []⟩
        (hgate 4 (by omega)) rfl
    rw [hcommit]
    simp
  | some e =>
    cases hc : s.consentState e.relationship_id with
    | none => simp [gate, hev, hc] at hgate
    | some consent =>
      cases consent with
      | revoked => simp [gate, hev, hc] at hgate
      | active =>
        simp only [gate, hev, hc] at hgate
        refine Prog.mem_seen_tryElse ?_ (fun _ => Prog.Grows.commit.bind (fun _ =>
          Prog.Grows.ret _)) (fun _ => Prog.Grows.rollback.bind (fun _ => Prog.Grows.reraise _))
        rw [hbody]
        exact Prog.mem_seen_tryElse (releaseFn_publishes _ _ _ _ _ hev hc (hgate 3 (by omega))
          (hgate 4 (by omega)) (hgate 5 (by omega))) (fun _ => Prog.Grows.ret _)
          grows_gateHandler

theorem not_consistent_claimed (hclaim : Claimed s row now)
    (hcons : Consistent row.scheduled_id s) :
    ¬ Consistent row.scheduled_id (s.leaveScheduled row.scheduled_id .released) := by
  obtain ⟨r, hr, hst⟩ := Option.map_eq_some_iff.mp hclaim.1
  intro hcons'
  have hreleased : Released (s.leaveScheduled row.scheduled_id .released) row.scheduled_id := by
    simp [Released, Store.leaveScheduled, Table.find_modify, hr, hst]
  have henq : Enqueued s row.scheduled_id := hcons'.mp hreleased
  have hnot := hcons.mpr henq
  simp [Released, hr, hst] at hnot

end Late

/-! ## The result -/

/-- From a consistent store the processing of a row by the shipped release
function is atomic if and only if it ends before the `executescript` in the
constructor of `RotationManager`. -/
theorem release_atomic_iff {s : Store} {row : ScheduledRow} {now utcnow : Nat}
    {name : ObjectName} {plan : Plan} (hcons : Consistent row.scheduled_id s) :
    AtomicRelease s row now utcnow name plan ↔ EndsBeforeScript s row now plan := by
  refine ⟨fun hatomic hclaim => ?_, fun h => atomicRelease_of_early _ _ h hcons⟩
  by_contra hlate
  refine not_consistent_claimed hclaim hcons (hatomic.consistent _ (claim_seen _ _ hclaim ?_))
  cases hg : gate s row.scheduled_id <;> simp only [hg] at hlate ⊢
  · intro i hi
    by_contra hne
    exact hlate ⟨i, hi, hne⟩
  · exact hlate trivial
  · intro i hi
    by_contra hne
    exact hlate ⟨i, hi, hne⟩

/-- A store with one due row of relationship 1 and nothing enqueued. -/
def oneRowStore (consent : ConsentState) (rotations : List AckedRotation) : Store where
  scheduler_queue := ⟨[{ scheduled_id := 2, inner_event := [0], deliver_at := 10 }], by simp⟩
  events := ⟨[⟨2, 1, .other⟩], by simp⟩
  relationships := ⟨[⟨1, consent⟩], by simp⟩
  acked_rotations := rotations
  relay_config := [1]

/-- The row of that store. -/
def dueRow : ScheduledRow := { scheduled_id := 2, inner_event := [0], deliver_at := 10 }

/-- A name that the release function may draw. -/
def drawnName : ObjectName := List.replicate 32 'a' ++ ['.', 'j', 's', 'o', 'n']

theorem consistent_oneRowStore (consent : ConsentState) (rotations : List AckedRotation) :
    Consistent 2 (oneRowStore consent rotations) := by
  refine iff_of_false ?_ ?_
  · simp [Released, oneRowStore, Table.find]
  · rintro ⟨o, ho, -⟩
    simp [oneRowStore] at ho

theorem release_atomic_iff_revoked :
    Consistent 2 (oneRowStore .revoked []) ∧
      AtomicRelease (oneRowStore .revoked []) dueRow 20 20 drawnName Prog.calm := by
  refine ⟨consistent_oneRowStore .revoked [], (release_atomic_iff ?_).mpr ?_⟩
  · exact consistent_oneRowStore .revoked []
  · intro _
    simp [gate, oneRowStore, dueRow, Table.find, Store.consentState]

/-- A row of a relationship whose sends are paused is lost: the release
transaction raises, and the row is `released` with nothing enqueued. -/
theorem paused_row_lost :
    ¬ ∀ s row now utcnow name plan, Consistent row.scheduled_id s →
      AtomicRelease s row now utcnow name plan := by
  intro hall
  have hatomic := hall (oneRowStore .active [⟨1, 15⟩]) dueRow 20 20 drawnName Prog.calm
    (consistent_oneRowStore .active [⟨1, 15⟩])
  have hscheduled := (hatomic.refused (.db .operational) (by decide +kernel) (by decide +kernel)
    (by decide +kernel)).1
  revert hscheduled
  decide +kernel

end MuseAgentSocial.Scheduler
