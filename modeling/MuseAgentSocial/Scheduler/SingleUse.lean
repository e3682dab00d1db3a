import Mathlib.Logic.Function.Basic
import MuseAgentSocial.Lib.Machine
import MuseAgentSocial.Scheduler.Queue

/-!
# Single use of a human approval

Any number of processes execute `run_due` over one store while events are
sent and canceled.  One step is one transaction: the database serialises
them, since each starts with `BEGIN IMMEDIATE`.  A process keeps the rows it
selected at its start, so a row can have changed when its turn comes.

`SingleUse` is the property: at most one event that is released or can still
be released was authorised by a record, and a record that is free again is
not held by such an event.

`_record_release_failure` restores the record of the row when the failure
count reaches the limit, whether or not the row was still `scheduled`.  So a
row that another process has released gives its approval back
(`restored_after_release`).  `FailureFindsScheduled` is the condition on the
steps under which this does not happen, and `approval_single_use` is the
result over runs.
-/

namespace MuseAgentSocial.Scheduler

open Policy Model Transports Sqlite

/-! ## The machine -/

/-- What a call of `release_fn` can do in the end. -/
inductive ReleaseReply where
  | returned
  | revoked
  | paused
  | raised
  | died
  deriving DecidableEq, Repr

/-- A release function with a given reply.  With `commits` it ends the open
transaction first, as the table setup of `RotationManager` does. -/
def replyFn (commits : Bool) (reply : ReleaseReply) : ReleaseFn := fun _ _ _ => do
  if commits then Prog.commitPending else pure ()
  match reply with
  | .returned => pure ()
  | .revoked => Prog.raise .revoked
  | .paused => Prog.raise .paused
  | .raised => Prog.raise .other
  | .died => Prog.die

/-- A process that executes `run_due`. -/
inductive Proc where
  | idle
  | releasing (now : Nat) (rows : List ScheduledRow)
  | recording (now : Nat) (sid : EventId) (rest : List ScheduledRow)
  deriving DecidableEq, Repr

/-- The store and the processes. -/
structure World where
  store : Store := {}
  procs : Nat → Proc := fun _ => .idle

/-- One transaction, or one step of a process outside transactions. -/
inductive Action where
  | createApproval (record : Approval)
  | send (event : Outgoing) (now : Nat)
  | cancel (sid : EventId)
  | startRun (p now : Nat)
  | release (p : Nat) (commits : Bool) (reply : ReleaseReply)
  | record (p utcnow : Nat)
  | finish (p : Nat)
  | crash (p : Nat)

/-- Set the state of one process. -/
def World.setProc (w : World) (p : Nat) (proc : Proc) : World :=
  { w with procs := Function.update w.procs p proc }

/-- The release transaction of a row, run by a process. -/
def World.release (w : World) (p now : Nat) (row : ScheduledRow) (rest : List ScheduledRow)
    (commits : Bool) (reply : ReleaseReply) : World :=
  let out := releaseOneRow now (replyFn commits reply) row Prog.calm { db := w.store }
  let w := { w with store := out.2.db }
  match out.1 with
  | .returned _ => w.setProc p (.releasing now rest)
  | .raised _ => w.setProc p (.recording now row.scheduled_id rest)
  | .crashed => w.setProc p .idle

/-- The failure transaction, run by a process.  An exception there ends
`run_due`. -/
def World.record (w : World) (p now : Nat) (sid : EventId) (rest : List ScheduledRow)
    (utcnow : Nat) : World :=
  let out := recordReleaseFailure sid utcnow Prog.calm { db := w.store }
  let w := { w with store := out.2.db }
  match out.1 with
  | .returned _ => w.setProc p (.releasing now rest)
  | .raised _ | .crashed => w.setProc p .idle

/-- One step. -/
def step (w : World) : Action → Option World
  | .createApproval record =>
    if record.consumed_at = none then
      (w.store.human_approvals.insert record).map
        (fun t => { w with store := { w.store with human_approvals := t } })
    else none
  | .send event now => (persistOutgoing w.store event now).map (fun s => { w with store := s })
  | .cancel sid => some { w with store := Scheduler.cancel w.store sid }
  | .startRun p now =>
    match w.procs p with
    | .idle => some (w.setProc p (.releasing now (dueRows w.store)))
    | _ => none
  | .release p commits reply =>
    match w.procs p with
    | .releasing now (row :: rest) => some (w.release p now row rest commits reply)
    | _ => none
  | .record p utcnow =>
    match w.procs p with
    | .recording now sid rest => some (w.record p now sid rest utcnow)
    | _ => none
  | .finish p =>
    match w.procs p with
    | .releasing _ [] => some (w.setProc p .idle)
    | _ => none
  | .crash p => some (w.setProc p .idle)

/-- The processes over a store without rows. -/
def machine : Machine World Action where
  init w := w = {}
  step := step

/-! ## The property -/

/-- The event is released or can still be released. -/
def ScheduledRow.Live (r : ScheduledRow) : Prop := r.state = .scheduled ∨ r.state = .released

instance (r : ScheduledRow) : Decidable r.Live := inferInstanceAs (Decidable (_ ∨ _))

/-- Each record authorises at most one live event, and every row that carries
a free record has ended without a release. -/
def SingleUse (s : Store) : Prop :=
  (∀ r ∈ s.scheduler_queue.rows, ∀ r' ∈ s.scheduler_queue.rows, ∀ a,
    r.approval_id = some a → r'.approval_id = some a → r.Live → r'.Live → r = r') ∧
  ∀ record ∈ s.human_approvals.rows, record.consumed_at = none →
    ∀ r ∈ s.scheduler_queue.rows, r.approval_id = some record.approval_id →
      r.state = .dead ∨ r.state = .expired ∨ r.state = .canceled

/-- The condition on a step: a failure that reaches the limit finds its row
still scheduled, when the row carries an approval. -/
def failureFindsScheduled (w : World) : Action → Bool
  | .record p _ =>
    match w.procs p with
    | .recording _ sid _ => (w.store.scheduler_queue.find sid).all (fun r =>
        r.release_failures + 1 < MAX_RELEASE_ATTEMPTS || r.approval_id.isNone ||
          r.state == .scheduled)
    | _ => true
  | _ => true

/-- The condition as a proposition. -/
def FailureFindsScheduled (w : World) (a : Action) : Prop := failureFindsScheduled w a = true

instance (w : World) (a : Action) : Decidable (FailureFindsScheduled w a) :=
  inferInstanceAs (Decidable (_ = true))

/-! ## What the transactions do -/

/-- What the release transaction can do to the store: nothing, claim the
scheduled row, or let it expire and restore its approval. -/
inductive ReleaseEffect (s : Store) (row : ScheduledRow) (now : Nat) : Store → Prop where
  | unchanged : ReleaseEffect s row now s
  | released (h : (s.scheduler_queue.find row.scheduled_id).map (·.state) = some .scheduled) :
      ReleaseEffect s row now (s.leaveScheduled row.scheduled_id .released)
  | expired : row.approval_id = none →
      ReleaseEffect s row now (s.leaveScheduled row.scheduled_id .expired)
  | restored (a : ApprovalId) (note : UndeliveredNote) (ha : row.approval_id = some a)
      (h : (s.scheduler_queue.find row.scheduled_id).map (·.state) = some .scheduled) :
      ReleaseEffect s row now
        (((s.leaveScheduled row.scheduled_id .expired).restoreApproval a now).noteUndelivered note)

variable {s s' : Store} {sid : EventId} {row : ScheduledRow} {now p : Nat} {w : World}

theorem any_scheduled (h : (s.scheduler_queue.find sid).map (·.state) = some .scheduled) :
    (s.scheduler_queue.find sid).any (·.state = .scheduled) = true := by
  obtain ⟨r, hr, hst⟩ := Option.map_eq_some_iff.mp h
  simp [hr, hst]

theorem releaseOneRow_effect (s : Store) (now : Nat) (commits : Bool) (reply : ReleaseReply)
    (row : ScheduledRow) :
    ReleaseEffect s row now
      (releaseOneRow now (replyFn commits reply) row Prog.calm { db := s }).2.db := by
  cases hstate : (s.scheduler_queue.find row.scheduled_id).map (·.state) with
  | none =>
    simp [releaseOneRow, releaseBody, hstate, ReleaseEffect.unchanged]
  | some st =>
    cases st with
    | scheduled =>
      by_cases hexp : row.effectiveExpiresAt ≤ now
      · cases ha : row.approval_id with
        | none =>
          simp [releaseOneRow, releaseBody, expireRow, hstate, hexp, leaveScheduledStmt, ha,
            restoreApprovalForUndelivered, ReleaseEffect.expired]
        | some a =>
          simp [releaseOneRow, releaseBody, expireRow, hstate, hexp, leaveScheduledStmt, ha,
            restoreApprovalForUndelivered, restoreApprovalStmt, ReleaseEffect.restored]
      · by_cases hdue : now < row.deliver_at
        · simp [releaseOneRow, releaseBody, hstate, hexp, hdue, ReleaseEffect.unchanged]
        · have hany := any_scheduled hstate
          -- the claim is made; it stays when the transaction was committed
          cases commits <;> cases reply <;>
            simp [releaseOneRow, releaseBody, hstate, hexp, hdue, claimAndRelease,
              leaveScheduledStmt, hany, replyFn, gateHandler, ReleaseEffect.unchanged,
              ReleaseEffect.released]
    | _ => simp [releaseOneRow, releaseBody, hstate, ReleaseEffect.unchanged]

/-- What the failure transaction can do to the store: nothing when the row is
gone, count the failure, or count it, dead-letter the row and restore its
approval. -/
inductive RecordEffect (s : Store) (sid : EventId) (now : Nat) : Store → Prop where
  | unchanged : RecordEffect s sid now s
  | counted : RecordEffect s sid now (s.countFailure sid)
  | dead : RecordEffect s sid now ((s.countFailure sid).leaveScheduled sid .dead)
  | restored (r : ScheduledRow) (a : ApprovalId) (note : UndeliveredNote)
      (hr : s.scheduler_queue.find sid = some r) (ha : r.approval_id = some a)
      (hmax : MAX_RELEASE_ATTEMPTS ≤ r.release_failures + 1) :
      RecordEffect s sid now
        ((((s.countFailure sid).leaveScheduled sid .dead).restoreApproval a now).noteUndelivered
          note)

theorem recordReleaseFailure_effect (s : Store) (sid : EventId) (now : Nat) :
    RecordEffect s sid now (recordReleaseFailure sid now Prog.calm { db := s }).2.db := by
  cases hfind : s.scheduler_queue.find sid with
  | none =>
    have hcount : (s.countFailure sid).scheduler_queue.find sid = none := by
      simp [Store.countFailure, Table.find_modify, hfind]
    simp [recordReleaseFailure, recordBody, hcount, RecordEffect.unchanged]
  | some r =>
    have hcount : (s.countFailure sid).scheduler_queue.find sid =
        some { r with release_failures := r.release_failures + 1 } := by
      simp [Store.countFailure, Table.find_modify, hfind]
    by_cases hmax : MAX_RELEASE_ATTEMPTS ≤ r.release_failures + 1
    · have happroval :
          (((s.countFailure sid).leaveScheduled sid .dead).scheduler_queue.find sid).bind
            (·.approval_id) = r.approval_id := by
        simp only [Store.leaveScheduled, Table.find_modify, hcount, if_true, Option.map_some,
          Option.bind_some]
        split_ifs <;> rfl
      cases ha : r.approval_id with
      | none =>
        rw [ha] at happroval
        simp [recordReleaseFailure, recordBody, hcount, hmax, leaveScheduledStmt, happroval,
          restoreApprovalForUndelivered, RecordEffect.dead]
      | some a =>
        rw [ha] at happroval
        simp [recordReleaseFailure, recordBody, hcount, hmax, leaveScheduledStmt, happroval,
          restoreApprovalForUndelivered, restoreApprovalStmt, RecordEffect.restored r a _ hfind ha]
    · simp [recordReleaseFailure, recordBody, hcount, hmax, RecordEffect.counted]

/-! ## The invariant -/

/-- The part of the invariant about the store. -/
structure StoreInv (s : Store) : Prop where
  /-- A record is carried by at most one live row. -/
  unique : ∀ r ∈ s.scheduler_queue.rows, ∀ r' ∈ s.scheduler_queue.rows, ∀ a,
    r.approval_id = some a → r'.approval_id = some a → r.Live → r'.Live → r = r'
  /-- The record of a live row is consumed. -/
  consumed : ∀ r ∈ s.scheduler_queue.rows, ∀ a, r.approval_id = some a → r.Live →
    ∃ record, s.human_approvals.find a = some record ∧ record.consumed_at ≠ none

/-- A selected row still stands in the queue with the same approval. -/
def Snapshot (s : Store) (row : ScheduledRow) : Prop :=
  ∃ r, s.scheduler_queue.find row.scheduled_id = some r ∧ r.approval_id = row.approval_id

/-- The rows a process still holds. -/
def Proc.rows : Proc → List ScheduledRow
  | .idle => []
  | .releasing _ rows => rows
  | .recording _ _ rest => rest

/-- The invariant of the store and its processes. -/
structure Inv (w : World) : Prop where
  store : StoreInv w.store
  snapshot : ∀ p, ∀ row ∈ (w.procs p).rows, Snapshot w.store row

/-- The invariant is about which rows are live, so an update that keeps ids
and approvals and revives no row keeps it. -/
theorem StoreInv.of_rows {s s' : Store} (h : StoreInv s)
    (hrows : ∀ r' ∈ s'.scheduler_queue.rows, ∃ r ∈ s.scheduler_queue.rows,
      r.scheduled_id = r'.scheduled_id ∧ r.approval_id = r'.approval_id ∧ (r'.Live → r.Live))
    (happrovals : s'.human_approvals = s.human_approvals) : StoreInv s' := by
  refine ⟨?_, ?_⟩
  · intro r₁' h₁' r₂' h₂' a ha₁ ha₂ hl₁ hl₂
    obtain ⟨r₁, h₁, hid₁, hap₁, hlive₁⟩ := hrows r₁' h₁'
    obtain ⟨r₂, h₂, hid₂, hap₂, hlive₂⟩ := hrows r₂' h₂'
    have heq := h.unique r₁ h₁ r₂ h₂ a (hap₁.trans ha₁) (hap₂.trans ha₂) (hlive₁ hl₁) (hlive₂ hl₂)
    refine Table.eq_of_key h₁' h₂' ?_
    rw [← hid₁, ← hid₂, heq]
  · intro r' h' a ha hl
    obtain ⟨r, hr, -, hap, hlive⟩ := hrows r' h'
    rw [happrovals]
    exact h.consumed r hr a (hap.trans ha) (hlive hl)

/-- Every row after a guarded update is an old row, in its old state or moved
out of `scheduled`. -/
theorem mem_leaveScheduled {next : SchedState} {r' : ScheduledRow}
    (h : r' ∈ (s.leaveScheduled sid next).scheduler_queue.rows) :
    ∃ r ∈ s.scheduler_queue.rows, r.scheduled_id = r'.scheduled_id ∧
      r.approval_id = r'.approval_id ∧
      ((r'.state = r.state ∧ (r.scheduled_id = sid → r.state ≠ .scheduled)) ∨
        (r.state = .scheduled ∧ r'.state = next)) := by
  simp only [Store.leaveScheduled, Table.mem_modify] at h
  rcases h with ⟨r, hr, hk, rfl⟩ | ⟨hr, hk⟩
  · refine ⟨r, hr, ?_⟩
    split_ifs with hst
    · exact ⟨rfl, rfl, Or.inr ⟨hst, rfl⟩⟩
    · exact ⟨rfl, rfl, Or.inl ⟨rfl, fun _ => hst⟩⟩
  · exact ⟨r', hr, rfl, rfl, Or.inl ⟨rfl, fun hid => absurd hid hk⟩⟩

theorem StoreInv.leaveScheduled (h : StoreInv s) (sid : EventId)
    (next : SchedState) : StoreInv (s.leaveScheduled sid next) := by
  refine h.of_rows (fun r' hr' => ?_) rfl
  obtain ⟨r, hr, hid, hap, hstate⟩ := mem_leaveScheduled hr'
  refine ⟨r, hr, hid, hap, fun hlive => ?_⟩
  rcases hstate with ⟨heq, -⟩ | ⟨hsch, -⟩
  · simpa [ScheduledRow.Live, heq] using hlive
  · exact Or.inl hsch

theorem StoreInv.countFailure (h : StoreInv s) (sid : EventId) : StoreInv (s.countFailure sid) := by
  refine h.of_rows (fun r' hr' => ?_) rfl
  simp only [Store.countFailure, Table.mem_modify] at hr'
  rcases hr' with ⟨r, hr, -, rfl⟩ | ⟨hr, -⟩
  · exact ⟨r, hr, rfl, rfl, id⟩
  · exact ⟨r', hr, rfl, rfl, id⟩

/-- A record that no live row carries can be given back. -/
theorem StoreInv.restoreApproval (h : StoreInv s) {a : ApprovalId} (now : Nat)
    (hfree : ∀ r ∈ s.scheduler_queue.rows, r.approval_id = some a → ¬ r.Live) :
    StoreInv (s.restoreApproval a now) := by
  refine ⟨h.unique, fun r hr b hb hlive => ?_⟩
  obtain ⟨record, hrecord, hconsumed⟩ := h.consumed r hr b hb hlive
  have hne : b ≠ a := by
    rintro rfl
    exact hfree r hr hb hlive
  refine ⟨record, ?_, hconsumed⟩
  simp only [Store.restoreApproval, Approvals.restore, Table.find_modify, if_neg hne]
  exact hrecord

theorem StoreInv.free_of_left (h : StoreInv s) {a : ApprovalId} {r₀ : ScheduledRow}
    (hfind : s.scheduler_queue.find sid = some r₀) (hstate : r₀.state = .scheduled)
    (ha : r₀.approval_id = some a) (next : SchedState) (hnext : next ≠ .scheduled)
    (hnext' : next ≠ .released) :
    ∀ r ∈ (s.leaveScheduled sid next).scheduler_queue.rows, r.approval_id = some a →
      ¬ r.Live := by
  intro r' hr' ha' hlive
  obtain ⟨hmem₀, hid₀⟩ := Table.find_eq_some.mp hfind
  obtain ⟨r, hr, hid, hap, ⟨heq, hnot⟩ | ⟨-, heq⟩⟩ := mem_leaveScheduled hr'
  · have hlive' : r.Live := by simpa [ScheduledRow.Live, heq] using hlive
    have hr₀ : r = r₀ := h.unique r hr r₀ hmem₀ a (hap.trans ha') ha hlive' (Or.inl hstate)
    subst hr₀
    exact hnot hid₀ hstate
  · rcases hlive with hl | hl
    · exact hnext (heq.symm.trans hl)
    · exact hnext' (heq.symm.trans hl)

/-! ## Snapshots -/

theorem Snapshot.leaveScheduled (h : Snapshot s row) (sid : EventId)
    (next : SchedState) : Snapshot (s.leaveScheduled sid next) row := by
  obtain ⟨r, hr, hap⟩ := h
  simp only [Snapshot, Store.leaveScheduled, Table.find_modify]
  split_ifs with hid
  · subst hid
    rw [hr]
    refine ⟨_, rfl, ?_⟩
    dsimp only
    split_ifs <;> exact hap
  · exact ⟨r, hr, hap⟩

theorem Snapshot.countFailure (h : Snapshot s row)
    (sid : EventId) : Snapshot (s.countFailure sid) row := by
  obtain ⟨r, hr, hap⟩ := h
  simp only [Snapshot, Store.countFailure, Table.find_modify]
  split_ifs with hid
  · subst hid
    rw [hr]
    exact ⟨_, rfl, hap⟩
  · exact ⟨r, hr, hap⟩

theorem Snapshot.of_dueRows (h : row ∈ dueRows s) : Snapshot s row := by
  simp only [dueRows, List.mem_insertionSort, List.mem_filter] at h
  exact ⟨row, Table.mem_iff_find.mp h.1, rfl⟩

/-! ## The steps -/

theorem ReleaseEffect.inv (he : ReleaseEffect s row now s') (h : StoreInv s)
    (hsnap : Snapshot s row) :
    StoreInv s' ∧ ∀ row', Snapshot s row' → Snapshot s' row' := by
  cases he with
  | unchanged => exact ⟨h, fun _ => id⟩
  | released => exact ⟨h.leaveScheduled _ _, fun _ hr => hr.leaveScheduled _ _⟩
  | expired => exact ⟨h.leaveScheduled _ _, fun _ hr => hr.leaveScheduled _ _⟩
  | restored a note ha hstate =>
    obtain ⟨r, hr, hap⟩ := hsnap
    have hsch : r.state = .scheduled := by simpa [hr] using hstate
    have hfree := h.free_of_left hr hsch (hap.trans ha) .expired (by decide)
      (by decide)
    have hrestored := (h.leaveScheduled row.scheduled_id .expired).restoreApproval now
      hfree
    exact ⟨⟨hrestored.unique, hrestored.consumed⟩, fun _ hr => hr.leaveScheduled _ _⟩

/-- The failure transaction keeps the invariant when a row at the limit is
still scheduled. -/
theorem RecordEffect.inv {s s' : Store} {sid : EventId} {now : Nat}
    (he : RecordEffect s sid now s') (h : StoreInv s)
    (hok : ∀ r, s.scheduler_queue.find sid = some r →
      MAX_RELEASE_ATTEMPTS ≤ r.release_failures + 1 → r.approval_id ≠ none →
      r.state = .scheduled) :
    StoreInv s' ∧ ∀ row', Snapshot s row' → Snapshot s' row' := by
  cases he with
  | unchanged => exact ⟨h, fun _ => id⟩
  | counted => exact ⟨h.countFailure _, fun _ hr => hr.countFailure _⟩
  | dead =>
    exact ⟨(h.countFailure _).leaveScheduled _ _,
      fun _ hr => (hr.countFailure _).leaveScheduled _ _⟩
  | restored r a note hr ha hmax =>
    have hsch := hok r hr hmax (by simp [ha])
    have hcount : (s.countFailure sid).scheduler_queue.find sid =
        some { r with release_failures := r.release_failures + 1 } := by
      simp [Store.countFailure, Table.find_modify, hr]
    have hfree := (h.countFailure sid).free_of_left hcount hsch ha .dead (by decide)
      (by decide)
    have hrestored := ((h.countFailure sid).leaveScheduled sid .dead).restoreApproval now
      hfree
    exact ⟨⟨hrestored.unique, hrestored.consumed⟩,
      fun _ hr => (hr.countFailure _).leaveScheduled _ _⟩

/-- A send consumes a free record, which no live row carries, for its new
row. -/
theorem StoreInv.persistOutgoing {o : Outgoing} (h : StoreInv s)
    (hs : Scheduler.persistOutgoing s o now = some s') :
    StoreInv s' ∧ ∀ row', Snapshot s row' → Snapshot s' row' := by
  simp only [Scheduler.persistOutgoing, bind, Option.bind_eq_some_iff] at hs
  obtain ⟨approvals, happrovals, events, -, queue, hqueue, hs⟩ := hs
  obtain rfl := Option.some.inj hs
  have hmem : ∀ r, r ∈ queue.rows ↔ _ := fun r => Table.mem_of_insert hqueue
  obtain ⟨hnew, hrows⟩ := Table.insert_eq_some hqueue
  -- what the claim did to the records
  have hkeep : ∀ a record, s.human_approvals.find a = some record → record.consumed_at ≠ none →
      ∃ record', approvals.find a = some record' ∧ record'.consumed_at ≠ none := by
    intro a record hrecord hconsumed
    cases hap : o.approval_id with
    | none =>
      simp only [claimApproval, hap, Option.some.injEq] at happrovals
      exact ⟨record, happrovals ▸ hrecord, hconsumed⟩
    | some b =>
      simp only [claimApproval, hap] at happrovals
      obtain ⟨-, rfl⟩ := Approvals.consume_eq_some happrovals
      rw [Table.find_modify]
      split_ifs with hab
      · subst hab
        simp [hrecord]
      · exact ⟨record, hrecord, hconsumed⟩
  have hfresh : ∀ r ∈ s.scheduler_queue.rows, ∀ a, r.approval_id = some a →
      o.approval_id = some a → ¬ r.Live := by
    intro r hr a ha hoa hlive
    simp only [claimApproval, hoa] at happrovals
    obtain ⟨⟨record, hrecord, hfree⟩, -⟩ := Approvals.consume_eq_some happrovals
    obtain ⟨record', hrecord', hconsumed⟩ := h.consumed r hr a ha hlive
    rw [hrecord] at hrecord'
    obtain rfl := Option.some.inj hrecord'
    exact hconsumed hfree
  refine ⟨⟨?_, ?_⟩, ?_⟩
  · intro r₁ h₁ r₂ h₂ a ha₁ ha₂ hl₁ hl₂
    rcases (hmem r₁).mp h₁ with h₁ | rfl <;> rcases (hmem r₂).mp h₂ with h₂ | rfl
    · exact h.unique r₁ h₁ r₂ h₂ a ha₁ ha₂ hl₁ hl₂
    · exact absurd hl₁ (hfresh r₁ h₁ a ha₁ ha₂)
    · exact absurd hl₂ (hfresh r₂ h₂ a ha₂ ha₁)
    · rfl
  · intro r hr a ha hlive
    rcases (hmem r).mp hr with hr | rfl
    · obtain ⟨record, hrecord, hconsumed⟩ := h.consumed r hr a ha hlive
      exact hkeep a record hrecord hconsumed
    · have hoa : o.approval_id = some a := ha
      simp only [claimApproval, hoa] at happrovals
      obtain ⟨⟨record, hrecord, -⟩, rfl⟩ := Approvals.consume_eq_some happrovals
      simp [Table.find_modify, hrecord]
  · rintro row ⟨r, hr, hap⟩
    obtain ⟨hr, hid⟩ := Table.find_eq_some.mp hr
    exact ⟨r, Table.find_eq_some.mpr ⟨(hmem r).mpr (Or.inl hr), hid⟩, hap⟩

/-- A new record is carried by no live row. -/
theorem StoreInv.createApproval {record : Approval} {t : Approvals} (h : StoreInv s)
    (ht : s.human_approvals.insert record = some t) :
    StoreInv { s with human_approvals := t } := by
  refine ⟨h.unique, fun r hr a ha hlive => ?_⟩
  obtain ⟨record', hrecord', hconsumed⟩ := h.consumed r hr a ha hlive
  obtain ⟨hmem, hid⟩ := Table.find_eq_some.mp hrecord'
  exact ⟨record', Table.find_eq_some.mpr ⟨(Table.mem_of_insert ht).mpr (Or.inl hmem), hid⟩,
    hconsumed⟩

/-- A step that keeps the snapshots, and gives its process only rows that it
already held or that are in the queue, keeps the snapshot part. -/
theorem Inv.setProc {w' : World} (h : Inv w) {proc : Proc}
    (hprocs : w'.procs = Function.update w.procs p proc) (hstore : StoreInv w'.store)
    (hkeep : ∀ row, Snapshot w.store row → Snapshot w'.store row)
    (hproc : ∀ row ∈ proc.rows, Snapshot w'.store row) : Inv w' := by
  refine ⟨hstore, fun q row hrow => ?_⟩
  rw [hprocs] at hrow
  by_cases hq : q = p
  · subst hq
    rw [Function.update_self] at hrow
    exact hproc row hrow
  · rw [Function.update_of_ne hq] at hrow
    exact hkeep row (h.snapshot q row hrow)

/-- The release transaction of a held row keeps the invariant. -/
theorem Inv.release (h : Inv w) {rest : List ScheduledRow}
    (hp : w.procs p = .releasing now (row :: rest)) (commits : Bool)
    (reply : ReleaseReply) : Inv (w.release p now row rest commits reply) := by
  have hheld : ∀ row' ∈ row :: rest, Snapshot w.store row' := by
    intro row' hrow'
    exact h.snapshot p row' (by rw [hp]; exact hrow')
  have heff := releaseOneRow_effect w.store now commits reply row
  obtain ⟨hstore, hkeep⟩ := heff.inv h.store (hheld row (by simp))
  unfold World.release
  dsimp only
  split
  · exact h.setProc rfl hstore hkeep (fun row' hr => hkeep _ (hheld row' (by simp_all [Proc.rows])))
  · exact h.setProc rfl hstore hkeep (fun row' hr => hkeep _ (hheld row' (by simp_all [Proc.rows])))
  · exact h.setProc rfl hstore hkeep (by simp [Proc.rows])

/-- The failure transaction keeps the invariant under the condition. -/
theorem Inv.record (h : Inv w) {rest : List ScheduledRow}
    (hp : w.procs p = .recording now sid rest) (utcnow : Nat)
    (hok : FailureFindsScheduled w (.record p utcnow)) : Inv (w.record p now sid rest utcnow) := by
  have heff := recordReleaseFailure_effect w.store sid utcnow
  have hscheduled : ∀ r, w.store.scheduler_queue.find sid = some r →
      MAX_RELEASE_ATTEMPTS ≤ r.release_failures + 1 → r.approval_id ≠ none →
      r.state = .scheduled := by
    intro r hr hmax hap
    simp only [FailureFindsScheduled, failureFindsScheduled, hp, hr, Option.all_some,
      Bool.or_eq_true, decide_eq_true_eq, Option.isNone_iff_eq_none, beq_iff_eq] at hok
    rcases hok with (hlt | hnone) | hsch
    · omega
    · exact absurd hnone hap
    · exact hsch
  obtain ⟨hstore, hkeep⟩ := heff.inv h.store hscheduled
  unfold World.record
  dsimp only
  split
  · refine h.setProc rfl hstore hkeep (fun row' hr => hkeep _ (h.snapshot p row' ?_))
    rw [hp]
    exact hr
  · exact h.setProc rfl hstore hkeep (by simp [Proc.rows])
  · exact h.setProc rfl hstore hkeep (by simp [Proc.rows])

/-- Every step that meets the condition keeps the invariant. -/
theorem Inv.step {w' : World} {a : Action} (h : Inv w) (hok : FailureFindsScheduled w a)
    (hst : Scheduler.step w a = some w') : Inv w' := by
  cases a with
  | createApproval record =>
    simp only [Scheduler.step] at hst
    split_ifs at hst
    obtain ⟨t, ht, rfl⟩ := Option.map_eq_some_iff.mp hst
    exact ⟨h.store.createApproval ht, h.snapshot⟩
  | send event now =>
    obtain ⟨s', hs', rfl⟩ := Option.map_eq_some_iff.mp hst
    obtain ⟨hstore, hkeep⟩ := h.store.persistOutgoing hs'
    exact ⟨hstore, fun p row hrow => hkeep row (h.snapshot p row hrow)⟩
  | cancel sid =>
    obtain rfl := Option.some.inj hst
    exact ⟨h.store.leaveScheduled _ _,
      fun p row hrow => (h.snapshot p row hrow).leaveScheduled _ _⟩
  | startRun p now =>
    cases hp : w.procs p <;> simp only [Scheduler.step, hp, reduceCtorEq] at hst
    obtain rfl := Option.some.inj hst
    exact h.setProc rfl h.store (fun _ => id) (fun row hrow => Snapshot.of_dueRows hrow)
  | release p commits reply =>
    cases hp : w.procs p with
    | releasing now rows =>
      cases rows with
      | nil => simp [Scheduler.step, hp] at hst
      | cons row rest =>
        simp only [Scheduler.step, hp, Option.some.injEq] at hst
        exact hst ▸ h.release hp commits reply
    | _ => simp [Scheduler.step, hp] at hst
  | record p utcnow =>
    cases hp : w.procs p <;> simp only [Scheduler.step, hp, reduceCtorEq] at hst
    obtain rfl := Option.some.inj hst
    exact h.record hp utcnow hok
  | finish p =>
    cases hp : w.procs p with
    | releasing now rows =>
      cases rows with
      | nil =>
        simp only [Scheduler.step, hp, Option.some.injEq] at hst
        exact hst ▸ h.setProc rfl h.store (fun _ => id) (by simp [Proc.rows])
      | cons row rest => simp [Scheduler.step, hp] at hst
    | _ => simp [Scheduler.step, hp] at hst
  | crash p =>
    obtain rfl := Option.some.inj hst
    exact h.setProc rfl h.store (fun _ => id) (by simp [Proc.rows])

/-- The invariant of the store gives the property. -/
theorem StoreInv.singleUse (h : StoreInv s) : SingleUse s := by
  refine ⟨h.unique, fun record hrecord hfree r hr ha => ?_⟩
  have hnot : ¬ r.Live := by
    intro hlive
    obtain ⟨record', hrecord', hconsumed⟩ := h.consumed r hr _ ha hlive
    rw [Table.mem_iff_find.mp hrecord] at hrecord'
    obtain rfl := Option.some.inj hrecord'
    exact hconsumed hfree
  cases hst : r.state <;> simp_all [ScheduledRow.Live]

/-! ## The result over runs -/

/-- In every run whose failure records find their rows still scheduled, each
approval authorises at most one live event and is free only after the rows
that carry it have ended without a release. -/
theorem approval_single_use {w : World} (h : machine.Reach FailureFindsScheduled w) :
    SingleUse w.store := by
  have hinv : Inv w := by
    refine h.invariant (P := Inv) ?_ (fun s a t hs hok hst => hs.step hok hst)
    rintro s rfl
    exact ⟨⟨by simp [Table.empty], by simp [Table.empty]⟩, by simp [Proc.rows]⟩
  exact hinv.store.singleUse

/-- A record for the answer to the human request 5 of relationship 1. -/
def sampleApproval : Approval where
  approval_id := 7
  binding := ⟨1, .human_request, 5, [], true⟩
  expires_at := 100

/-- The response that the record authorises. -/
def sampleEvent : Outgoing where
  event_id := 2
  relationship_id := 1
  payload := .human_responded 5 [] true
  sealed_bytes := [0]
  approval_id := some 7

/-- A run of `run_due` in which the release of the one row fails. -/
def failingRun (p : Nat) : List Action :=
  [.startRun p 10, .release p false .raised, .record p 10, .finish p]

/-- Three failing runs. -/
def deadLetterRun : List Action :=
  [.createApproval sampleApproval, .send sampleEvent 10] ++ failingRun 0 ++ failingRun 0 ++
    failingRun 0

theorem approval_single_use_deadLetterRun :
    ∃ w, machine.run {} deadLetterRun = some w ∧
      (w.store.human_approvals.find 7).map (·.consumed_at) = some none ∧
      (w.store.scheduler_queue.find 2).map (·.state) = some .dead ∧ SingleUse w.store := by
  have hrun : (machine.run {} deadLetterRun).map (fun w =>
      ((w.store.human_approvals.find 7).map (·.consumed_at),
        (w.store.scheduler_queue.find 2).map (·.state))) = some (some none, some .dead) := by
    decide +kernel
  obtain ⟨w, hw, heq⟩ := Option.map_eq_some_iff.mp hrun
  simp only [Prod.mk.injEq] at heq
  have hok : machine.okRun FailureFindsScheduled {} deadLetterRun := by
    decide +kernel
  exact ⟨w, hw, heq.1, heq.2, approval_single_use (Machine.Reach.run (.start rfl) hok hw)⟩

/-- Two processes select the row at two failures.  The first one fails, the
second one releases the row, and then the first one counts its failure. -/
def releasedByOtherRun : List Action :=
  [.createApproval sampleApproval, .send sampleEvent 10] ++ failingRun 0 ++ failingRun 0 ++
    [.startRun 0 10, .startRun 1 10, .release 0 false .raised, .release 1 false .returned,
      .record 0 10]

/-- The record of a released event is free again after another process counts
its third failure. -/
theorem restored_after_release :
    ¬ ∀ w, machine.Reachable w → SingleUse w.store := by
  intro hall
  have hrun : (machine.run {} releasedByOtherRun).map (fun w =>
      ((w.store.human_approvals.find 7).map (fun r => (r.approval_id, r.consumed_at)),
        (w.store.scheduler_queue.find 2).map (fun r => (r.approval_id, r.state)))) =
      some (some (7, none), some (some 7, .released)) := by
    decide +kernel
  obtain ⟨w, hw, heq⟩ := Option.map_eq_some_iff.mp hrun
  simp only [Prod.mk.injEq, Option.map_eq_some_iff] at heq
  obtain ⟨⟨record, hrecord, hid, hfree⟩, r, hr, hap, hstate⟩ := heq
  have huse := (hall w (Machine.reachable_of_run rfl hw)).2
  have hended := huse record (Table.find_eq_some.mp hrecord).1 hfree r
    (Table.find_eq_some.mp hr).1 (by rw [hap, hid])
  simp [hstate] at hended

end MuseAgentSocial.Scheduler
