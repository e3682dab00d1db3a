import MuseAgentSocial.Scheduler.SingleUse

/-!
# The life of a scheduler row

Any number of processes schedule, cancel and release rows over one store while a
teardown deletes rows.  One step is one transaction.  `run_due` selects its rows
at the start, and the clock of a release is the clock it was called with.

* `StepLaw` is what one step may do to the rows: the final states are absorbing,
  the effects of a release are committed with the release and only with it, a
  failure and a gate touch no other row, and nothing but a bad clock makes
  `run_due` raise.
* `_record_release_failure` reads the count of the row without a check that the
  row exists, and the release acts on the times and bytes that were selected at
  the start.  A teardown can delete the row in between, and the id can be
  scheduled again.  `Undisturbed` is the condition on a step that this has not
  happened.
* `scheduler_lifecycle_iff`: the steps of a run are lawful exactly when they are
  undisturbed.
-/

namespace MuseAgentSocial.Scheduler

open Policy Model Transports Sqlite

/-! ## Scheduling -/

/-- The codes of `SchedulerError` that `schedule` and `run_due` raise, and the
`TypeError` on the row of a failed release that is gone. -/
inductive SchedulerCode where
  | clock_skew_blocks_scheduled_send
  | invalid_envelope
  | envelope_too_large
  | invalid_timestamp
  | deliver_at_beyond_accept_window
  | expires_not_after_deliver_at
  | invalid_scheduled_id
  | scheduled_id_conflict
  | type_error
  deriving DecidableEq, Repr

/-- A timestamp argument, `none` when it is not canonical. -/
abbrev Moment := Option Nat

/-- `check_clock_skew(...) == "block"`. -/
def skewBlocks (clock_skew_seconds : Option Int) : Bool :=
  clock_skew_seconds.any (FUTURE_TOLERANCE_SECONDS ≤ ·.natAbs)

/-- The arguments of `schedule`. -/
structure ScheduleArgs where
  sealed_event_envelope : Blob
  deliver_at : Moment
  expires_at : Option Moment := none
  /-- The id that is given, `some none` when it is not a UUID. -/
  scheduled_id : Option (Option EventId) := none
  /-- The id that is drawn when none is given. -/
  drawn : EventId := 0
  clock_skew_seconds : Option Int := none

/-- The transaction of `schedule`. -/
def scheduleTxn (s : Store) (sid : EventId) (data : Blob) (deliver_at : Nat)
    (expires_at : Option Nat) : Except SchedulerCode Store :=
  match s.scheduler_queue.find sid with
  | some existing => if existing.inner_event ≠ data then .error .scheduled_id_conflict else .ok s
  | none =>
    match s.scheduler_queue.insert { scheduled_id := sid, inner_event := data, deliver_at, expires_at } with
    | none => .error .scheduled_id_conflict
    | some queue => .ok { s with scheduler_queue := queue }

/-- The id under which `schedule` stores the event. -/
def ScheduleArgs.sid (a : ScheduleArgs) : Option EventId :=
  match a.scheduled_id with
  | none => some a.drawn
  | some given => given

/-- `schedule`, at the time `utcnow`. -/
def schedule (s : Store) (a : ScheduleArgs) (utcnow : Nat) : Except SchedulerCode Store :=
  if skewBlocks a.clock_skew_seconds then .error .clock_skew_blocks_scheduled_send
  else if a.sealed_event_envelope.length = 0 then .error .invalid_envelope
  else if OBJECT_MAX_BYTES < a.sealed_event_envelope.length then .error .envelope_too_large
  else
    match a.deliver_at with
    | none => .error .invalid_timestamp
    | some deliver_at =>
      if utcnow + ACCEPT_WINDOW_DAYS * (24 * 3600) < deliver_at then
        .error .deliver_at_beyond_accept_window
      else if a.expires_at = some none then .error .invalid_timestamp
      else if a.expires_at.join.any (· ≤ deliver_at) then .error .expires_not_after_deliver_at
      else
        match a.sid with
        | none => .error .invalid_scheduled_id
        | some sid => scheduleTxn s sid a.sealed_event_envelope deliver_at a.expires_at.join

/-! ## The release function -/

/-- A release function that only issues plain statements.  They leave the
scheduler queue alone, and the reply is any. -/
structure PlainRelease where
  statements : EventId → Blob → Nat → Store → Store
  keepsQueue : ∀ sid data late s, (statements sid data late s).scheduler_queue = s.scheduler_queue
  reply : ReleaseReply

/-- `release_fn(conn, scheduled_id, sealed_event_envelope, late_by_seconds)`. -/
def PlainRelease.fn (f : PlainRelease) : ReleaseFn := fun sid data late => do
  Prog.execute (fun s => .ok (f.statements sid data late s, ()))
  match f.reply with
  | .returned => pure ()
  | .revoked => Prog.raise .revoked
  | .paused => Prog.raise .paused
  | .raised => Prog.raise .other
  | .died => Prog.die

/-! ## The processes -/

/-- A process that executes `run_due`. -/
inductive Runner where
  | idle
  | releasing (now : Nat) (rows : List ScheduledRow)
  /-- The release of a row failed; `birth` tells which row of that id it was. -/
  | recording (now : Nat) (sid : EventId) (birth : Nat) (rest : List ScheduledRow)
  /-- `run_due` raised. -/
  | raised (code : SchedulerCode)
  deriving DecidableEq, Repr

/-- A committed call of the release function. -/
structure Delivery where
  scheduled_id : EventId
  birth : Nat
  inner_event : Blob
  deriving DecidableEq, Repr

/-- The store, the processes, and two ghosts: how many rows each id has had, and
the calls of the release function whose effects are committed. -/
structure Fleet where
  store : Store := {}
  runners : Nat → Runner := fun _ => .idle
  births : EventId → Nat := fun _ => 0
  delivered : List Delivery := []

/-- One transaction, or one step of a process outside transactions. -/
inductive FleetAct where
  | createApproval (record : Approval)
  | schedule (args : ScheduleArgs) (utcnow : Nat)
  | send (event : Outgoing) (now : Nat)
  | cancel (sid : EventId)
  /-- A teardown deletes rows. -/
  | delete (ids : List EventId)
  | startRun (p : Nat) (now : Moment) (clock_skew_seconds : Option Int)
  | release (p : Nat) (f : PlainRelease)
  | record (p utcnow : Nat)
  | finish (p : Nat)
  | crash (p : Nat)

/-- Set the state of one process. -/
def Fleet.setRunner (w : Fleet) (p : Nat) (runner : Runner) : Fleet :=
  { w with runners := Function.update w.runners p runner }

/-- A new store in which the id may have a new row. -/
def Fleet.withRow (w : Fleet) (store : Store) (sid : EventId) : Fleet :=
  { w with
    store
    births := if (w.store.scheduler_queue.find sid).isNone ∧ (store.scheduler_queue.find sid).isSome then
        Function.update w.births sid (w.births sid + 1)
      else w.births }

/-- The release transaction of a row, run by a process. -/
def Fleet.release (w : Fleet) (p now : Nat) (row : ScheduledRow) (rest : List ScheduledRow)
    (f : PlainRelease) : Fleet :=
  let out := releaseOneRow now f.fn row Prog.calm { db := w.store }
  let w' := { w with store := out.2.db }
  match out.1 with
  | .returned (.released, _) =>
    { w' with
      delivered := w.delivered ++ [⟨row.scheduled_id, w.births row.scheduled_id, row.inner_event⟩]
      runners := Function.update w.runners p (.releasing now rest) }
  | .returned _ => w'.setRunner p (.releasing now rest)
  | .raised _ => w'.setRunner p (.recording now row.scheduled_id (w.births row.scheduled_id) rest)
  | .crashed => w'.setRunner p .idle

/-- The failure transaction, run by a process.  An exception there ends
`run_due`. -/
def Fleet.record (w : Fleet) (p now : Nat) (sid : EventId) (rest : List ScheduledRow)
    (utcnow : Nat) : Fleet :=
  let out := recordReleaseFailure sid utcnow Prog.calm { db := w.store }
  let w' := { w with store := out.2.db }
  match out.1 with
  | .returned _ => w'.setRunner p (.releasing now rest)
  | .raised _ => w'.setRunner p (.raised .type_error)
  | .crashed => w'.setRunner p .idle

/-- The start of `run_due`: its checks and the selection of the rows. -/
def Fleet.startRun (w : Fleet) (p : Nat) (now : Moment) (clock_skew_seconds : Option Int) : Fleet :=
  match now with
  | none => w.setRunner p (.raised .invalid_timestamp)
  | some now =>
    if skewBlocks clock_skew_seconds then w.setRunner p (.raised .clock_skew_blocks_scheduled_send)
    else w.setRunner p (.releasing now (dueRows w.store))

/-- One step. -/
def Fleet.step (w : Fleet) : FleetAct → Option Fleet
  | .createApproval record =>
    if record.consumed_at = none then
      (w.store.human_approvals.insert record).map
        (fun t => { w with store := { w.store with human_approvals := t } })
    else none
  | .schedule args utcnow =>
    match schedule w.store args utcnow, args.sid with
    | .ok s, some sid => some (w.withRow s sid)
    | _, _ => some w
  | .send event now => (persistOutgoing w.store event now).map (fun s => w.withRow s event.event_id)
  | .cancel sid => some { w with store := Scheduler.cancel w.store sid }
  | .delete ids =>
    some { w with
      store := { w.store with
        scheduler_queue := w.store.scheduler_queue.delete (fun r => ids.contains r.scheduled_id) } }
  | .startRun p now skew =>
    match w.runners p with
    | .idle => some (w.startRun p now skew)
    | _ => none
  | .release p f =>
    match w.runners p with
    | .releasing now (row :: rest) => some (w.release p now row rest f)
    | _ => none
  | .record p utcnow =>
    match w.runners p with
    | .recording now sid _ rest => some (w.record p now sid rest utcnow)
    | _ => none
  | .finish p =>
    match w.runners p with
    | .releasing _ [] => some (w.setRunner p .idle)
    | _ => none
  | .crash p => some (w.setRunner p .idle)

/-- The processes over a store without rows. -/
def fleet : Machine Fleet FleetAct where
  init w := w = {}
  step := Fleet.step

/-! ## The property -/

/-- The row of an id. -/
def Fleet.row (w : Fleet) (sid : EventId) : Option ScheduledRow := w.store.scheduler_queue.find sid

/-- How often the release function of the row `birth` of an id was committed. -/
def Fleet.deliveries (w : Fleet) (sid : EventId) (birth : Nat) : Nat :=
  w.delivered.countP (fun d => d.scheduled_id = sid ∧ d.birth = birth)

/-- The same row stands before and after a step. -/
structure Stands (w w' : Fleet) (sid : EventId) (r r' : ScheduledRow) : Prop where
  before : w.row sid = some r
  after : w'.row sid = some r'
  same : w'.births sid = w.births sid

/-- What a step may do to the rows. -/
structure RowLaw (w : Fleet) (act : FleetAct) (w' : Fleet) : Prop where
  /-- A row leaves only `scheduled`, and its other columns but the failure count
  stay. -/
  absorbing : ∀ sid r r', Stands w w' sid r r' → (r.state ≠ .scheduled → r'.state = r.state) ∧
    r'.deliver_at = r.deliver_at ∧ r'.expires_at = r.expires_at ∧ r'.inner_event = r.inner_event
  /-- A new row is scheduled. -/
  born : ∀ sid r', w'.row sid = some r' → (w.row sid = none ∨ w'.births sid ≠ w.births sid) →
    w'.births sid = w.births sid + 1 ∧ r'.state = .scheduled
  /-- A row is released within its times, and the effects are committed with it. -/
  released : ∀ sid r r', Stands w w' sid r r' → r.state ≠ .released → r'.state = .released →
    ∃ p now rows f late, act = .release p f ∧ w.runners p = .releasing now rows ∧
      r.deliver_at ≤ now ∧ now < r.effectiveExpiresAt ∧
      w'.delivered = w.delivered ++ [⟨sid, w.births sid, r.inner_event⟩] ∧
      w'.store = f.statements sid r.inner_event late (w.store.leaveScheduled sid .released)
  /-- Effects are committed only with the release of a row. -/
  delivered : w'.delivered ≠ w.delivered →
    ∃ sid r r', Stands w w' sid r r' ∧ r.state = .scheduled ∧ r'.state = .released
  /-- The effects of a row are committed once when it is released, else never. -/
  once : ∀ sid r', w'.row sid = some r' →
    w'.deliveries sid (w'.births sid) = if r'.state = .released then 1 else 0
  /-- No row of the past had its effects committed twice. -/
  past : ∀ sid birth, w'.deliveries sid birth ≤ 1

/-- What a step may do. -/
structure StepLaw (w : Fleet) (act : FleetAct) (w' : Fleet) : Prop extends RowLaw w act w' where
  /-- Without a release the store is the same whatever the statements are. -/
  uncommitted : ∀ p f, act = .release p f → w'.delivered = w.delivered →
    ∀ f' : PlainRelease, f'.reply = f.reply → (w.step (.release p f')).map (·.store) = some w'.store
  /-- A release changes no other row, and unless the process dies it goes on with
  the remaining rows. -/
  isolated : ∀ p f now row rest, act = .release p f → w.runners p = .releasing now (row :: rest) →
    (∀ sid', sid' ≠ row.scheduled_id → w'.row sid' = w.row sid') ∧
      (w'.runners p = .releasing now rest ∨
        w'.runners p = .recording now row.scheduled_id (w.births row.scheduled_id) rest ∨
        f.reply = .died)
  /-- A failure is counted on the row of the release only, and the process goes on
  with the remaining rows. -/
  failing : ∀ p utcnow now sid birth rest, act = .record p utcnow →
    w.runners p = .recording now sid birth rest →
    (∀ sid' r, w.row sid' = some r → (sid' ≠ sid ∨ w.births sid' ≠ birth) → w'.row sid' = some r) ∧
      w'.runners p = .releasing now rest
  /-- A gated row keeps its state and its failure count. -/
  gated : ∀ p f now row rest cur, act = .release p f → w.runners p = .releasing now (row :: rest) →
    w.row row.scheduled_id = some cur → cur.state = .scheduled → row.deliver_at ≤ now →
    now < row.effectiveExpiresAt → (f.reply = .revoked ∨ f.reply = .paused) →
    w'.store = w.store ∧ w'.runners p = .releasing now rest
  /-- `run_due` raises only for its clock arguments. -/
  raises : ∀ p code, w'.runners p = .raised code → w.runners p ≠ .raised code →
    ∃ now skew, act = .startRun p now skew ∧ (now = none ∨ skewBlocks skew = true)

/-- The condition on a release: when it releases the row of the id, the times and
the bytes that were selected are good for that row. -/
def undisturbedRelease (w : Fleet) (now : Nat) (row : ScheduledRow) (f : PlainRelease) : Bool :=
  (w.row row.scheduled_id).all fun cur =>
    !(cur.state = .scheduled && row.deliver_at ≤ now && now < row.effectiveExpiresAt &&
        f.reply = .returned) ||
      (cur.deliver_at ≤ now && now < cur.effectiveExpiresAt && cur.inner_event = row.inner_event)

/-- The condition on a step: no row that a process holds was deleted and replaced
by another one that the step would release too early, too late or with the wrong
bytes, and the row of a failed release still stands. -/
def undisturbed (w : Fleet) : FleetAct → Bool
  | .release p f =>
    match w.runners p with
    | .releasing now (row :: _) => undisturbedRelease w now row f
    | _ => true
  | .record p _ =>
    match w.runners p with
    | .recording _ sid birth _ => (w.row sid).isSome && w.births sid = birth
    | _ => true
  | _ => true

/-- The condition as a proposition. -/
def Undisturbed (w : Fleet) (act : FleetAct) : Prop := undisturbed w act = true

instance (w : Fleet) (act : FleetAct) : Decidable (Undisturbed w act) :=
  inferInstanceAs (Decidable (_ = true))

/-! ## What the transactions do -/

@[simp] theorem leaveScheduled_approvals (s : Store) (sid : EventId) (next : SchedState) :
    (s.leaveScheduled sid next).human_approvals = s.human_approvals := rfl

@[simp] theorem countFailure_approvals (s : Store) (sid : EventId) :
    (s.countFailure sid).human_approvals = s.human_approvals := rfl

/-- The store after the expiry of a row. -/
def Store.expire (s : Store) (row : ScheduledRow) (now : Nat) : Store :=
  match row.approval_id with
  | none => s.leaveScheduled row.scheduled_id .expired
  | some a =>
    ((s.leaveScheduled row.scheduled_id .expired).restoreApproval a now).noteUndelivered
      ⟨row.scheduled_id, .expired, a,
        (s.human_approvals.find a).any (fun r => r.consumed_at.isSome && decide (now < r.expires_at)), now⟩

/-- The outcome of the release transaction and the store after it. -/
def releaseSpec (s : Store) (now : Nat) (row : ScheduledRow) (f : PlainRelease) :
    Outcome SchedExc (Status × Nat) × Store :=
  match ((s.scheduler_queue.find row.scheduled_id).map (·.state) : Option SchedState) with
  | none => (.returned (.skipped, 0), s)
  | some .canceled => (.returned (.skipped_canceled, 0), s)
  | some .released | some .expired | some .dead => (.returned (.skipped, 0), s)
  | some .scheduled =>
    if row.effectiveExpiresAt ≤ now then (.returned (.expired, 0), s.expire row now)
    else if now < row.deliver_at then (.returned (.not_due, 0), s)
    else
      match f.reply with
      | .returned =>
        (.returned (.released, now - row.deliver_at),
          f.statements row.scheduled_id row.inner_event (now - row.deliver_at)
            (s.leaveScheduled row.scheduled_id .released))
      | .revoked => (.returned (.skipped_revoked, 0), s)
      | .paused => (.returned (.skipped_paused, 0), s)
      | .raised => (.raised (.app .other), s)
      | .died => (.crashed, s)

theorem releaseOneRow_spec (s : Store) (now : Nat) (row : ScheduledRow) (f : PlainRelease) :
    ((releaseOneRow now f.fn row Prog.calm { db := s }).1,
      (releaseOneRow now f.fn row Prog.calm { db := s }).2.db) = releaseSpec s now row f := by
  unfold releaseSpec
  cases hstate : (s.scheduler_queue.find row.scheduled_id).map (·.state) with
  | none => simp [releaseOneRow, releaseBody, hstate]
  | some st =>
    cases st with
    | scheduled =>
      by_cases hexp : row.effectiveExpiresAt ≤ now
      · cases ha : row.approval_id with
        | none =>
          simp [releaseOneRow, releaseBody, expireRow, hstate, hexp, leaveScheduledStmt, ha,
            restoreApprovalForUndelivered, Store.expire]
        | some a =>
          simp [releaseOneRow, releaseBody, expireRow, hstate, hexp, leaveScheduledStmt, ha,
            restoreApprovalForUndelivered, restoreApprovalStmt, Store.expire]
      · by_cases hdue : now < row.deliver_at
        · simp [releaseOneRow, releaseBody, hstate, hexp, hdue]
        · have hany := any_scheduled hstate
          cases hreply : f.reply <;>
            simp [releaseOneRow, releaseBody, hstate, hexp, hdue, claimAndRelease,
              leaveScheduledStmt, hany, PlainRelease.fn, hreply, gateHandler]
    | _ => simp [releaseOneRow, releaseBody, hstate]

/-- The store after the failure transaction, `none` when the row is gone and the
transaction raises. -/
def recordSpec (s : Store) (sid : EventId) (utcnow : Nat) : Option Store :=
  (s.scheduler_queue.find sid).map fun r =>
    if MAX_RELEASE_ATTEMPTS ≤ r.release_failures + 1 then
      match r.approval_id with
      | none => (s.countFailure sid).leaveScheduled sid .dead
      | some a =>
        (((s.countFailure sid).leaveScheduled sid .dead).restoreApproval a utcnow).noteUndelivered
          ⟨sid, .dead, a,
            (s.human_approvals.find a).any (fun r => r.consumed_at.isSome && decide (utcnow < r.expires_at)),
            utcnow⟩
    else s.countFailure sid

theorem recordReleaseFailure_spec (s : Store) (sid : EventId) (utcnow : Nat) :
    (∃ s' failures, recordSpec s sid utcnow = some s' ∧
        (recordReleaseFailure sid utcnow Prog.calm { db := s }).1 = .returned failures ∧
        (recordReleaseFailure sid utcnow Prog.calm { db := s }).2.db = s') ∨
      (recordSpec s sid utcnow = none ∧
        (∃ e, (recordReleaseFailure sid utcnow Prog.calm { db := s }).1 = .raised e) ∧
        (recordReleaseFailure sid utcnow Prog.calm { db := s }).2.db = s) := by
  unfold recordSpec
  cases hfind : s.scheduler_queue.find sid with
  | none =>
    have hcount : (s.countFailure sid).scheduler_queue.find sid = none := by
      simp [Store.countFailure, Table.find_modify, hfind]
    exact Or.inr (by simp [recordReleaseFailure, recordBody, hcount])
  | some r =>
    have hcount : (s.countFailure sid).scheduler_queue.find sid =
        some { r with release_failures := r.release_failures + 1 } := by
      simp [Store.countFailure, Table.find_modify, hfind]
    refine Or.inl ?_
    by_cases hmax : MAX_RELEASE_ATTEMPTS ≤ r.release_failures + 1
    · have happroval :
          (((s.countFailure sid).leaveScheduled sid .dead).scheduler_queue.find sid).bind
            (·.approval_id) = r.approval_id := by
        simp only [Store.leaveScheduled, Table.find_modify, hcount, if_true, Option.map_some,
          Option.bind_some]
        split_ifs <;> rfl
      cases ha : r.approval_id with
      | none =>
        rw [ha] at happroval
        simp [recordReleaseFailure, recordBody, hcount, hmax, leaveScheduledStmt, happroval,
          restoreApprovalForUndelivered, ha]
      | some a =>
        rw [ha] at happroval
        simp [recordReleaseFailure, recordBody, hcount, hmax, leaveScheduledStmt, happroval,
          restoreApprovalForUndelivered, restoreApprovalStmt, ha]
    · simp [recordReleaseFailure, recordBody, hcount, hmax]

/-! ## Steps that release nothing -/

variable {sid : EventId} {s : Store} {utcnow : Nat} {act : FleetAct}

section

variable {w w' : Fleet}

/-- The counts of the committed effects match the rows. -/
structure Fleet.Counted (w : Fleet) : Prop where
  fresh : ∀ sid birth, w.births sid < birth → w.deliveries sid birth = 0
  once : ∀ sid r, w.row sid = some r →
    w.deliveries sid (w.births sid) = if r.state = .released then 1 else 0
  past : ∀ sid birth, w.deliveries sid birth ≤ 1

/-- A step that releases nothing. -/
structure Quiet (w w' : Fleet) : Prop where
  delivered : w'.delivered = w.delivered
  rows : ∀ sid r r', Stands w w' sid r r' →
    (r.state ≠ .scheduled → r'.state = r.state) ∧ (r'.state = .released → r.state = .released) ∧
      r'.deliver_at = r.deliver_at ∧ r'.expires_at = r.expires_at ∧ r'.inner_event = r.inner_event
  born : ∀ sid r', w'.row sid = some r' → (w.row sid = none ∨ w'.births sid ≠ w.births sid) →
    w'.births sid = w.births sid + 1 ∧ r'.state = .scheduled
  births : ∀ sid, w.births sid ≤ w'.births sid

theorem stands_or_born {r' : ScheduledRow} (h : w'.row sid = some r') :
    (∃ r, Stands w w' sid r r') ∨ (w.row sid = none ∨ w'.births sid ≠ w.births sid) := by
  cases hrow : w.row sid with
  | none => exact Or.inr (Or.inl rfl)
  | some r =>
    by_cases hsame : w'.births sid = w.births sid
    · exact Or.inl ⟨r, hrow, h, hsame⟩
    · exact Or.inr (Or.inr hsame)

theorem Quiet.deliveries (h : Quiet w w') (sid : EventId) (birth : Nat) :
    w'.deliveries sid birth = w.deliveries sid birth := by
  unfold Fleet.deliveries
  rw [h.delivered]

theorem Quiet.counted (h : Quiet w w') (hc : w.Counted) : w'.Counted := by
  refine ⟨fun sid birth hlt => ?_, fun sid r' hr' => ?_, fun sid birth => ?_⟩
  · rw [h.deliveries]
    exact hc.fresh sid birth ((h.births sid).trans_lt hlt)
  · rw [h.deliveries]
    obtain ⟨r, hstands⟩ | hborn := stands_or_born (w := w) hr'
    · obtain ⟨habsorbing, hreleased, -⟩ := h.rows sid r r' hstands
      rw [hstands.same, hc.once sid r hstands.before]
      by_cases hst : r.state = .released
      · rw [if_pos hst, if_pos (by rw [habsorbing (by rw [hst]; simp), hst])]
      · rw [if_neg hst, if_neg (fun h' => hst (hreleased h'))]
    · obtain ⟨hbirth, hst⟩ := h.born sid r' hr' hborn
      rw [hbirth, hst, if_neg (by simp)]
      exact hc.fresh sid _ (Nat.lt_succ_self _)
  · rw [h.deliveries]
    exact hc.past sid birth

theorem Quiet.rowLaw (h : Quiet w w') (hc : w.Counted) (act : FleetAct) : RowLaw w act w' := by
  refine ⟨fun sid r r' hs => ?_, h.born, fun sid r r' hs hnot hst => ?_,
    fun hne => absurd h.delivered hne, (h.counted hc).once, (h.counted hc).past⟩
  · obtain ⟨habsorbing, -, hdata⟩ := h.rows sid r r' hs
    exact ⟨habsorbing, hdata⟩
  · obtain ⟨-, hreleased, -⟩ := h.rows sid r r' hs
    exact absurd (hreleased hst) hnot

/-- A step after which every row that was there is an update of it. -/
theorem Quiet.of_rows (hdelivered : w'.delivered = w.delivered) (hbirths : w'.births = w.births)
    (hrows : ∀ sid r', w'.row sid = some r' → ∃ r, w.row sid = some r ∧
      (r.state ≠ .scheduled → r'.state = r.state) ∧ (r'.state = .released → r.state = .released) ∧
      r'.deliver_at = r.deliver_at ∧ r'.expires_at = r.expires_at ∧ r'.inner_event = r.inner_event) :
    Quiet w w' := by
  refine ⟨hdelivered, fun sid r r' hs => ?_, fun sid r' hr' hborn => ?_, fun sid => by rw [hbirths]⟩
  · obtain ⟨r₀, hr₀, hkept⟩ := hrows sid r' hs.after
    rw [Option.some.inj (hs.before.symm.trans hr₀)]
    exact hkept
  · obtain ⟨r₀, hr₀, -⟩ := hrows sid r' hr'
    obtain hnone | hne := hborn
    · exact absurd (hnone.symm.trans hr₀) (by simp)
    · exact absurd (congrFun hbirths sid) hne

theorem Quiet.of_queue (hdelivered : w'.delivered = w.delivered) (hbirths : w'.births = w.births)
    (hqueue : w'.store.scheduler_queue = w.store.scheduler_queue) : Quiet w w' := by
  refine Quiet.of_rows hdelivered hbirths (fun sid r' hr' => ⟨r', ?_, fun _ => rfl, id, rfl, rfl, rfl⟩)
  unfold Fleet.row at hr' ⊢
  rw [← hqueue]
  exact hr'

theorem find_leaveScheduled (s : Store) (sid k : EventId) (next : SchedState) :
    (s.leaveScheduled sid next).scheduler_queue.find k =
      if k = sid then
        (s.scheduler_queue.find sid).map (fun r => if r.state = .scheduled then { r with state := next } else r)
      else s.scheduler_queue.find k := by
  simp only [Store.leaveScheduled, Table.find_modify]

theorem find_countFailure (s : Store) (sid k : EventId) :
    (s.countFailure sid).scheduler_queue.find k =
      if k = sid then
        (s.scheduler_queue.find sid).map (fun r => { r with release_failures := r.release_failures + 1 })
      else s.scheduler_queue.find k := by
  simp only [Store.countFailure, Table.find_modify]

theorem Quiet.leaveScheduled {next : SchedState} (hnext : next ≠ .released)
    (hdelivered : w'.delivered = w.delivered) (hbirths : w'.births = w.births)
    (hqueue : w'.store.scheduler_queue = (w.store.leaveScheduled sid next).scheduler_queue) : Quiet w w' := by
  refine Quiet.of_rows hdelivered hbirths (fun k r' hr' => ?_)
  have hfind : (w.store.leaveScheduled sid next).scheduler_queue.find k = some r' := hqueue ▸ hr'
  rw [find_leaveScheduled] at hfind
  split_ifs at hfind with hk
  · obtain ⟨r, hr, rfl⟩ := Option.map_eq_some_iff.mp hfind
    refine ⟨r, hk ▸ hr, ?_⟩
    by_cases hst : r.state = .scheduled
    · rw [if_pos hst]
      exact ⟨fun h => absurd hst h, fun h => absurd h hnext, rfl, rfl, rfl⟩
    · rw [if_neg hst]
      exact ⟨fun _ => rfl, id, rfl, rfl, rfl⟩
  · exact ⟨r', hfind, fun _ => rfl, id, rfl, rfl, rfl⟩

@[simp] theorem expire_queue (s : Store) (row : ScheduledRow) (now : Nat) :
    (s.expire row now).scheduler_queue = (s.leaveScheduled row.scheduled_id .expired).scheduler_queue := by
  unfold Store.expire
  cases row.approval_id <;> rfl

/-- The rows after the failure transaction: the failure is counted and the row may
be dead, and no other row changes. -/
theorem recordSpec_rows {s' : Store} (h : recordSpec s sid utcnow = some s') :
    ∃ r r', s.scheduler_queue.find sid = some r ∧ s'.scheduler_queue.find sid = some r' ∧
      r'.release_failures = r.release_failures + 1 ∧ (r.state ≠ .scheduled → r'.state = r.state) ∧
      (r'.state = .released → r.state = .released) ∧ r'.deliver_at = r.deliver_at ∧
      r'.expires_at = r.expires_at ∧ r'.inner_event = r.inner_event ∧
      ∀ k, k ≠ sid → s'.scheduler_queue.find k = s.scheduler_queue.find k := by
  obtain ⟨r, hr, hs'⟩ := Option.map_eq_some_iff.mp h
  by_cases hmax : MAX_RELEASE_ATTEMPTS ≤ r.release_failures + 1
  · have hqueue : s'.scheduler_queue = ((s.countFailure sid).leaveScheduled sid .dead).scheduler_queue := by
      rw [← hs', if_pos hmax]
      cases r.approval_id <;> rfl
    have hrow : s'.scheduler_queue.find sid = some
        (if r.state = .scheduled then { r with release_failures := r.release_failures + 1, state := .dead }
          else { r with release_failures := r.release_failures + 1 }) := by
      rw [hqueue, find_leaveScheduled, if_pos rfl, find_countFailure, if_pos rfl, hr]
      rfl
    refine ⟨r, _, hr, hrow, ?_, ?_, ?_, ?_, ?_, ?_, fun k hk => ?_⟩
    · split_ifs <;> rfl
    · exact fun hst => by rw [if_neg hst]
    · split_ifs with hst
      · exact fun h => absurd h (by simp)
      · exact id
    · split_ifs <;> rfl
    · split_ifs <;> rfl
    · split_ifs <;> rfl
    · rw [hqueue, find_leaveScheduled, if_neg hk, find_countFailure, if_neg hk]
  · rw [if_neg hmax] at hs'
    have hrow : s'.scheduler_queue.find sid = some { r with release_failures := r.release_failures + 1 } := by
      rw [← hs', find_countFailure, if_pos rfl, hr]
      rfl
    refine ⟨r, _, hr, hrow, rfl, fun _ => rfl, id, rfl, rfl, rfl, fun k hk => ?_⟩
    rw [← hs', find_countFailure, if_neg hk]

/-- The claim of a row: it is scheduled, and the selected times are good. -/
structure Fleet.Claims (w : Fleet) (now : Nat) (row cur : ScheduledRow) : Prop where
  found : w.row row.scheduled_id = some cur
  scheduled : cur.state = .scheduled
  due : row.deliver_at ≤ now
  unexpired : now < row.effectiveExpiresAt

/-- The fleet after a committed release. -/
def Fleet.releasedRow (w : Fleet) (p now : Nat) (row : ScheduledRow) (rest : List ScheduledRow)
    (f : PlainRelease) : Fleet :=
  { w with
    store := f.statements row.scheduled_id row.inner_event (now - row.deliver_at)
      (w.store.leaveScheduled row.scheduled_id .released)
    delivered := w.delivered ++ [⟨row.scheduled_id, w.births row.scheduled_id, row.inner_event⟩]
    runners := Function.update w.runners p (.releasing now rest) }

/-- The state of the process after a claim that the release function did not
complete. -/
def refusedRunner (now : Nat) (sid : EventId) (birth : Nat) (rest : List ScheduledRow) : ReleaseReply → Runner
  | .returned | .revoked | .paused => .releasing now rest
  | .raised => .recording now sid birth rest
  | .died => .idle

/-- What a release does: the row is not claimed and the function is not called, or
the row is released with the effects of the function, or the claim is rolled
back. -/
theorem release_cases (w : Fleet) (p now : Nat) (row : ScheduledRow) (rest : List ScheduledRow) :
    (∃ store, (store = w.store ∨ store = w.store.expire row now) ∧
        (∀ cur, ¬ w.Claims now row cur) ∧
        ∀ f, w.release p now row rest f = { w with store }.setRunner p (.releasing now rest)) ∨
      ∃ cur, w.Claims now row cur ∧ ∀ f,
        (f.reply = .returned ∧ w.release p now row rest f = w.releasedRow p now row rest f) ∨
        (f.reply ≠ .returned ∧ w.release p now row rest f =
          w.setRunner p (refusedRunner now row.scheduled_id (w.births row.scheduled_id) rest f.reply)) := by
  have hout : ∀ f, (releaseOneRow now f.fn row Prog.calm { db := w.store }).1 = (releaseSpec w.store now row f).1 ∧
      (releaseOneRow now f.fn row Prog.calm { db := w.store }).2.db = (releaseSpec w.store now row f).2 := by
    intro f
    rw [← releaseOneRow_spec]
    exact ⟨rfl, rfl⟩
  have hunclaimed : ∀ (status : Status) store, status ≠ .released →
      (store = w.store ∨ store = w.store.expire row now) → (∀ cur, ¬ w.Claims now row cur) →
      (∀ f, releaseSpec w.store now row f = (.returned (status, 0), store)) →
      ∃ store, (store = w.store ∨ store = w.store.expire row now) ∧ (∀ cur, ¬ w.Claims now row cur) ∧
        ∀ f, w.release p now row rest f = { w with store }.setRunner p (.releasing now rest) := by
    intro status store hstatus hstore hnot hspec
    refine ⟨store, hstore, hnot, fun f => ?_⟩
    simp only [Fleet.release, (hout f).1, (hout f).2, hspec f]
    cases status <;> first | rfl | exact absurd rfl hstatus
  unfold releaseSpec at hout hunclaimed
  cases hfind : w.store.scheduler_queue.find row.scheduled_id with
  | none =>
    refine Or.inl (hunclaimed .skipped w.store (by simp) (Or.inl rfl) (fun cur hc => ?_) (fun f => ?_))
    · exact absurd (hfind.symm.trans hc.found) (by simp)
    · rw [hfind]
      rfl
  | some cur =>
    simp only [hfind, Option.map_some] at hout hunclaimed
    have hcur : ∀ cur', w.Claims now row cur' → cur' = cur := fun cur' hc =>
      Option.some.inj (hc.found.symm.trans hfind)
    by_cases hst : cur.state = .scheduled
    · by_cases hexp : row.effectiveExpiresAt ≤ now
      · refine Or.inl (hunclaimed .expired (w.store.expire row now) (by simp) (Or.inr rfl) (fun cur' hc => ?_)
          (fun f => ?_))
        · exact absurd hc.unexpired (by omega)
        · rw [hst]
          exact if_pos hexp
      · by_cases hdue : now < row.deliver_at
        · refine Or.inl (hunclaimed .not_due w.store (by simp) (Or.inl rfl) (fun cur' hc => ?_) (fun f => ?_))
          · exact absurd hc.due (by omega)
          · rw [hst]
            exact (if_neg hexp).trans (if_pos hdue)
        · refine Or.inr ⟨cur, ⟨hfind, hst, by omega, by omega⟩, fun f => ?_⟩
          have hf := hout f
          rw [hst] at hf
          simp only [if_neg hexp, if_neg hdue] at hf
          cases hreply : f.reply with
          | returned =>
            rw [hreply] at hf
            refine Or.inl ⟨rfl, ?_⟩
            simp only [Fleet.release, hf.1, hf.2]
            rfl
          | _ =>
            rw [hreply] at hf
            refine Or.inr ⟨by simp, ?_⟩
            simp only [Fleet.release, hf.1, hf.2]
            rfl
    · have hnot : ∀ cur', ¬ w.Claims now row cur' := fun cur' hc => hst (hcur cur' hc ▸ hc.scheduled)
      cases hstate : cur.state with
      | scheduled => exact absurd hstate hst
      | canceled =>
        refine Or.inl (hunclaimed .skipped_canceled w.store (by simp) (Or.inl rfl) hnot (fun f => ?_))
        rw [hstate]
      | _ =>
        refine Or.inl (hunclaimed .skipped w.store (by simp) (Or.inl rfl) hnot (fun f => ?_))
        rw [hstate]

/-! ## The committed release -/

section

variable {p now : Nat} {row cur : ScheduledRow} {rest : List ScheduledRow} {f : PlainRelease}

theorem row_releasedRow (hclaim : w.Claims now row cur) (k : EventId) :
    (w.releasedRow p now row rest f).row k =
      if k = row.scheduled_id then some { cur with state := .released } else w.row k := by
  show (f.statements _ _ _ _).scheduler_queue.find k = _
  rw [f.keepsQueue, find_leaveScheduled]
  split_ifs with hk
  · have hfind : w.store.scheduler_queue.find row.scheduled_id = some cur := hclaim.found
    rw [hfind, Option.map_some, if_pos hclaim.scheduled]
  · rfl

theorem deliveries_releasedRow (sid : EventId) (birth : Nat) :
    (w.releasedRow p now row rest f).deliveries sid birth =
      w.deliveries sid birth + if row.scheduled_id = sid ∧ w.births row.scheduled_id = birth then 1 else 0 := by
  unfold Fleet.deliveries Fleet.releasedRow
  rw [List.countP_append, List.countP_singleton]
  simp only [decide_eq_true_eq]

theorem releasedRow_counted (hc : w.Counted) (hclaim : w.Claims now row cur) :
    (w.releasedRow p now row rest f).Counted := by
  have hcount : w.deliveries row.scheduled_id (w.births row.scheduled_id) = 0 := by
    rw [hc.once _ cur hclaim.found, if_neg (by rw [hclaim.scheduled]; simp)]
  refine ⟨fun sid birth hlt => ?_, fun sid r hr => ?_, fun sid birth => ?_⟩
  · have hlt' : w.births sid < birth := hlt
    rw [deliveries_releasedRow, hc.fresh sid birth hlt', if_neg]
    rintro ⟨rfl, rfl⟩
    exact absurd hlt' (lt_irrefl _)
  · rw [row_releasedRow hclaim] at hr
    show (w.releasedRow p now row rest f).deliveries sid (w.births sid) = _
    rw [deliveries_releasedRow]
    by_cases hk : sid = row.scheduled_id
    · subst hk
      rw [if_pos rfl] at hr
      obtain rfl := Option.some.inj hr
      rw [hcount, if_pos ⟨rfl, rfl⟩, if_pos rfl]
    · rw [if_neg hk] at hr
      have hother : ¬ (row.scheduled_id = sid ∧ w.births row.scheduled_id = w.births sid) :=
        fun h => hk h.1.symm
      rw [if_neg hother, Nat.add_zero]
      exact hc.once sid r hr
  · rw [deliveries_releasedRow]
    split_ifs with hkey
    · obtain ⟨rfl, rfl⟩ := hkey
      rw [hcount]
    · exact hc.past sid birth

/-- The release of the row that was selected, with its times and bytes. -/
theorem releasedRow_law (hc : w.Counted) (hclaim : w.Claims now row cur)
    (hrun : w.runners p = .releasing now (row :: rest)) (hdue : cur.deliver_at ≤ now)
    (hunexpired : now < cur.effectiveExpiresAt) (hdata : cur.inner_event = row.inner_event) :
    RowLaw w (.release p f) (w.releasedRow p now row rest f) := by
  have hcounted : (w.releasedRow p now row rest f).Counted := releasedRow_counted hc hclaim
  refine ⟨fun sid r r' hs => ?_, fun sid r' hr' hborn => ?_, fun sid r r' hs hnot hst => ?_, fun _ => ?_,
    hcounted.once, hcounted.past⟩
  · obtain ⟨hr, hr', -⟩ := hs
    rw [row_releasedRow hclaim] at hr'
    split_ifs at hr' with hk
    · obtain rfl := Option.some.inj hr'
      obtain rfl := Option.some.inj (hr.symm.trans (hk ▸ hclaim.found))
      exact ⟨fun h => absurd hclaim.scheduled h, rfl, rfl, rfl⟩
    · obtain rfl := Option.some.inj (hr.symm.trans hr')
      exact ⟨fun _ => rfl, rfl, rfl, rfl⟩
  · rw [row_releasedRow hclaim] at hr'
    obtain hnone | hne := hborn
    · split_ifs at hr' with hk
      · exact absurd (hnone.symm.trans (hk ▸ hclaim.found)) (by simp)
      · exact absurd (hnone.symm.trans hr') (by simp)
    · exact absurd rfl hne
  · obtain ⟨hr, hr', -⟩ := hs
    rw [row_releasedRow hclaim] at hr'
    split_ifs at hr' with hk
    · subst hk
      obtain rfl := Option.some.inj (hr.symm.trans hclaim.found)
      refine ⟨p, now, row :: rest, f, now - row.deliver_at, rfl, hrun, hdue, hunexpired, ?_, ?_⟩
      · rw [hdata]
        rfl
      · rw [hdata]
        rfl
    · obtain rfl := Option.some.inj (hr.symm.trans hr')
      exact absurd hst hnot
  · refine ⟨row.scheduled_id, cur, { cur with state := .released }, ⟨hclaim.found, ?_, rfl⟩, hclaim.scheduled, rfl⟩
    rw [row_releasedRow hclaim, if_pos rfl]

end

/-! ## Every step -/

theorem Quiet.stepLaw {act : FleetAct} (h : Quiet w w') (hc : w.Counted)
    (hrelease : ∀ p f, act ≠ .release p f) (hrecord : ∀ p utcnow, act ≠ .record p utcnow)
    (hraises : ∀ p code, w'.runners p = .raised code → w.runners p ≠ .raised code →
      ∃ now skew, act = .startRun p now skew ∧ (now = none ∨ skewBlocks skew = true)) :
    StepLaw w act w' :=
  { h.rowLaw hc act with
    uncommitted := fun p f h => absurd h (hrelease p f)
    isolated := fun p f _ _ _ h => absurd h (hrelease p f)
    failing := fun p utcnow _ _ _ _ h => absurd h (hrecord p utcnow)
    gated := fun p f _ _ _ _ h => absurd h (hrelease p f)
    raises := hraises }

/-- Setting one process is quiet. -/
theorem Quiet.setRunner (w : Fleet) (p : Nat) (runner : Runner) : Quiet w (w.setRunner p runner) :=
  Quiet.of_queue rfl rfl rfl

theorem Quiet.withRow {s : Store} {sid : EventId}
    (hother : ∀ k, k ≠ sid → s.scheduler_queue.find k = w.store.scheduler_queue.find k)
    (hrow : s.scheduler_queue.find sid = w.store.scheduler_queue.find sid ∨
      ∃ r, w.row sid = none ∧ s.scheduler_queue.find sid = some r ∧ r.state = .scheduled) :
    Quiet w (w.withRow s sid) := by
  obtain hsame | ⟨r, hnone, hsome, hst⟩ := hrow
  · refine Quiet.of_rows rfl ?_ (fun k r' hr' => ⟨r', ?_, fun _ => rfl, id, rfl, rfl, rfl⟩)
    · show ite _ _ _ = _
      rw [hsame]
      refine if_neg (fun h => ?_)
      rw [Option.isNone_iff_eq_none] at h
      rw [h.1] at h
      exact absurd h.2 (by simp)
    · by_cases hk : k = sid
      · exact hk ▸ (hsame.symm.trans (hk ▸ hr'))
      · exact (hother k hk).symm.trans hr'
  · have hbirths : (w.withRow s sid).births = Function.update w.births sid (w.births sid + 1) := by
      refine if_pos ⟨?_, ?_⟩
      · exact Option.isNone_iff_eq_none.mpr hnone
      · rw [hsome]
        rfl
    refine ⟨rfl, fun k r₀ r' hs => ?_, fun k r' hr' hborn => ?_, fun k => ?_⟩
    · by_cases hk : k = sid
      · subst hk
        exact absurd (hnone.symm.trans hs.before) (by simp)
      · obtain rfl := Option.some.inj ((hother k hk).symm.trans hs.after |>.symm.trans hs.before)
        exact ⟨fun _ => rfl, id, rfl, rfl, rfl⟩
    · rw [hbirths]
      by_cases hk : k = sid
      · subst hk
        obtain rfl := Option.some.inj (hsome.symm.trans hr')
        exact ⟨Function.update_self .., hst⟩
      · rw [hbirths, Function.update_of_ne hk] at hborn
        obtain hnone' | hne := hborn
        · exact absurd (hnone'.symm.trans ((hother k hk).symm.trans hr')) (by simp)
        · exact absurd rfl hne
    · rw [hbirths]
      by_cases hk : k = sid
      · subst hk
        rw [Function.update_self]
        exact Nat.le_succ _
      · rw [Function.update_of_ne hk]

theorem insert_rows {queue : Table ScheduledRow.scheduled_id} {r : ScheduledRow}
    (hins : w.store.scheduler_queue.insert r = some queue) (hst : r.state = .scheduled) :
    (∀ k, k ≠ r.scheduled_id → queue.find k = w.store.scheduler_queue.find k) ∧
      ∃ r', w.row r.scheduled_id = none ∧ queue.find r.scheduled_id = some r' ∧ r'.state = .scheduled := by
  refine ⟨fun k hk => ?_, r, (Table.insert_eq_some hins).1, ?_, hst⟩
  · rw [Table.find_of_insert hins, if_neg hk]
  · rw [Table.find_of_insert hins, if_pos rfl]

/-- A successful `schedule` went through its transaction. -/
theorem schedule_ok {s' : Store} {args : ScheduleArgs} (h : schedule s args utcnow = .ok s') :
    ∃ sid deliver_at, args.sid = some sid ∧
      scheduleTxn s sid args.sealed_event_envelope deliver_at args.expires_at.join = .ok s' := by
  unfold schedule at h
  cases hdeliver : args.deliver_at with
  | none =>
    rw [hdeliver] at h
    split_ifs at h
  | some deliver_at =>
    rw [hdeliver] at h
    cases hsid : args.sid with
    | none =>
      rw [hsid] at h
      dsimp only at h
      split_ifs at h
    | some sid =>
      rw [hsid] at h
      dsimp only at h
      split_ifs at h
      exact ⟨sid, deliver_at, rfl, h⟩

theorem Quiet.schedule {args : ScheduleArgs} (h : Scheduler.schedule w.store args utcnow = .ok s)
    (hsid : args.sid = some sid) :
    Quiet w (w.withRow s sid) := by
  obtain ⟨sid', deliver_at, hsid', htxn⟩ := schedule_ok h
  obtain rfl := Option.some.inj (hsid.symm.trans hsid')
  unfold scheduleTxn at htxn
  split at htxn
  · split_ifs at htxn
    obtain rfl := Except.ok.inj htxn
    exact Quiet.withRow (fun _ _ => rfl) (Or.inl rfl)
  · split at htxn
    · exact absurd htxn (by simp)
    · rename_i queue hins
      obtain rfl := Except.ok.inj htxn
      obtain ⟨hother, hrow⟩ := insert_rows hins rfl
      exact Quiet.withRow hother (Or.inr hrow)

theorem Quiet.send {o : Outgoing} {now : Nat} (h : persistOutgoing w.store o now = some s) :
    Quiet w (w.withRow s o.event_id) := by
  simp only [persistOutgoing, Option.bind_eq_bind, Option.bind_eq_some_iff] at h
  obtain ⟨approvals, -, events, -, queue, hins, h⟩ := h
  obtain rfl := Option.some.inj h
  obtain ⟨hother, hrow⟩ := insert_rows hins rfl
  exact Quiet.withRow hother (Or.inr hrow)

/-- A deletion keeps the rows that it leaves. -/
theorem Quiet.delete (w : Fleet) (ids : List EventId) :
    Quiet w { w with
      store := { w.store with
        scheduler_queue := w.store.scheduler_queue.delete (fun r => ids.contains r.scheduled_id) } } := by
  refine Quiet.of_rows rfl rfl (fun k r' hr' => ⟨r', ?_, fun _ => rfl, id, rfl, rfl, rfl⟩)
  have hfind := (Table.find_delete w.store.scheduler_queue _ k).symm.trans hr'
  exact (Option.filter_eq_some_iff.mp hfind).1

/-- The state of one process is no other than before when another one moves. -/
theorem raised_setRunner {p : Nat} {runner : Runner} (hrunner : ∀ code, runner ≠ .raised code)
    (q : Nat) (code : SchedulerCode) (h : (Function.update w.runners p runner) q = .raised code) :
    w.runners q = .raised code := by
  by_cases hq : q = p
  · subst hq
    rw [Function.update_self] at h
    exact absurd h (hrunner code)
  · rwa [Function.update_of_ne hq] at h

theorem refusedRunner_ne_raised (now : Nat) (sid : EventId) (birth : Nat) (rest : List ScheduledRow)
    (reply : ReleaseReply) (code : SchedulerCode) : refusedRunner now sid birth rest reply ≠ .raised code := by
  cases reply <;> simp [refusedRunner]

theorem release_counted (hc : w.Counted) (p now : Nat) (row : ScheduledRow) (rest : List ScheduledRow)
    (f : PlainRelease) : (w.release p now row rest f).Counted := by
  obtain ⟨store, hstore, -, heq⟩ | ⟨cur, hclaim, hf⟩ := release_cases w p now row rest
  · rw [heq f]
    refine Quiet.counted ?_ hc
    obtain rfl | rfl := hstore
    · exact Quiet.setRunner w p _
    · exact Quiet.leaveScheduled (by simp) rfl rfl (expire_queue w.store row now)
  · obtain ⟨-, heq⟩ | ⟨-, heq⟩ := hf f
    · rw [heq]
      exact releasedRow_counted hc hclaim
    · rw [heq]
      exact (Quiet.setRunner w p _).counted hc

theorem release_law (hc : w.Counted) {p now : Nat} {row : ScheduledRow} {rest : List ScheduledRow}
    {f : PlainRelease} (hrun : w.runners p = .releasing now (row :: rest))
    (hok : undisturbedRelease w now row f = true) :
    StepLaw w (.release p f) (w.release p now row rest f) := by
  have hstep : ∀ f', w.step (.release p f') = some (w.release p now row rest f') := by
    intro f'
    simp only [Fleet.step, hrun]
  obtain ⟨store, hstore, hunclaimed, heq⟩ | ⟨cur, hclaim, hf⟩ := release_cases w p now row rest
  · have hother : ∀ sid', sid' ≠ row.scheduled_id →
        store.scheduler_queue.find sid' = w.store.scheduler_queue.find sid' := by
      intro sid' hne
      obtain rfl | rfl := hstore
      · rfl
      · rw [expire_queue, find_leaveScheduled, if_neg hne]
    have hquiet : Quiet w ({ w with store }.setRunner p (.releasing now rest)) := by
      obtain rfl | rfl := hstore
      · exact Quiet.setRunner w p _
      · exact Quiet.leaveScheduled (by simp) rfl rfl (expire_queue w.store row now)
    rw [heq f]
    refine { hquiet.rowLaw hc _ with uncommitted := ?_, isolated := ?_, failing := ?_, gated := ?_, raises := ?_ }
    · rintro p' f₀ h - f' -
      obtain ⟨rfl, rfl⟩ := FleetAct.release.inj h
      rw [hstep f', heq f']
      rfl
    · rintro p' f' now' row' rest' h hrun'
      obtain ⟨rfl, rfl⟩ := FleetAct.release.inj h
      obtain ⟨rfl, hrows⟩ := Runner.releasing.inj (hrun.symm.trans hrun')
      obtain ⟨rfl, rfl⟩ := List.cons.inj hrows
      exact ⟨hother, Or.inl (Function.update_self ..)⟩
    · exact fun _ _ _ _ _ _ h => absurd h (by simp)
    · rintro p' f' now' row' rest' cur' h hrun' hcur hst hdue hunexpired -
      obtain ⟨rfl, rfl⟩ := FleetAct.release.inj h
      obtain ⟨rfl, hrows⟩ := Runner.releasing.inj (hrun.symm.trans hrun')
      obtain ⟨rfl, rfl⟩ := List.cons.inj hrows
      exact absurd ⟨hcur, hst, hdue, hunexpired⟩ (hunclaimed cur')
    · exact fun q code h hne => absurd (raised_setRunner (by simp) q code h) hne
  · obtain ⟨hreply, heq⟩ | ⟨hreply, heq⟩ := hf f
    · have hgood : cur.deliver_at ≤ now ∧ now < cur.effectiveExpiresAt ∧ cur.inner_event = row.inner_event := by
        have hfound := hclaim.found
        have hscheduled := hclaim.scheduled
        have hdue := hclaim.due
        have hunexpired := hclaim.unexpired
        simpa [undisturbedRelease, hfound, hscheduled, hdue, hunexpired, hreply, and_assoc] using hok
      rw [heq]
      refine { releasedRow_law hc hclaim hrun hgood.1 hgood.2.1 hgood.2.2 with
        uncommitted := ?_, isolated := ?_, failing := ?_, gated := ?_, raises := ?_ }
      · rintro p' f' - hsame
        have hlength := congrArg List.length (show w.delivered ++ [_] = w.delivered from hsame)
        simp at hlength
      · rintro p' f' now' row' rest' h hrun'
        obtain ⟨rfl, rfl⟩ := FleetAct.release.inj h
        obtain ⟨rfl, hrows⟩ := Runner.releasing.inj (hrun.symm.trans hrun')
        obtain ⟨rfl, rfl⟩ := List.cons.inj hrows
        refine ⟨fun sid' hne => ?_, Or.inl (Function.update_self ..)⟩
        rw [row_releasedRow hclaim, if_neg hne]
      · exact fun _ _ _ _ _ _ h => absurd h (by simp)
      · rintro p' f' now' row' rest' cur' h hrun' - - - - hgated
        obtain ⟨rfl, rfl⟩ := FleetAct.release.inj h
        rw [hreply] at hgated
        exact absurd hgated (by simp)
      · exact fun q code h hne => absurd (raised_setRunner (by simp) q code h) hne
    · rw [heq]
      refine { (Quiet.setRunner w p _).rowLaw hc _ with
        uncommitted := ?_, isolated := ?_, failing := ?_, gated := ?_, raises := ?_ }
      · rintro p' f₀ h - f' hsame
        obtain ⟨rfl, rfl⟩ := FleetAct.release.inj h
        rw [hstep f']
        obtain ⟨hreply', -⟩ | ⟨-, heq'⟩ := hf f'
        · exact absurd (hsame.symm.trans hreply') hreply
        · rw [heq']
          rfl
      · rintro p' f' now' row' rest' h hrun'
        obtain ⟨rfl, rfl⟩ := FleetAct.release.inj h
        obtain ⟨rfl, hrows⟩ := Runner.releasing.inj (hrun.symm.trans hrun')
        obtain ⟨rfl, rfl⟩ := List.cons.inj hrows
        refine ⟨fun sid' _ => rfl, ?_⟩
        show Function.update w.runners p _ p = _ ∨ Function.update w.runners p _ p = _ ∨ _
        rw [Function.update_self]
        cases hkind : f.reply with
        | returned => exact Or.inl rfl
        | revoked => exact Or.inl rfl
        | paused => exact Or.inl rfl
        | raised => exact Or.inr (Or.inl rfl)
        | died => exact Or.inr (Or.inr rfl)
      · exact fun _ _ _ _ _ _ h => absurd h (by simp)
      · rintro p' f' now' row' rest' cur' h hrun' - - - - hgated
        obtain ⟨rfl, rfl⟩ := FleetAct.release.inj h
        obtain ⟨rfl, hrows⟩ := Runner.releasing.inj (hrun.symm.trans hrun')
        obtain ⟨rfl, rfl⟩ := List.cons.inj hrows
        refine ⟨rfl, ?_⟩
        show Function.update w.runners p _ p = _
        rw [Function.update_self]
        obtain hgated | hgated := hgated
        · rw [hgated]
          rfl
        · rw [hgated]
          rfl
      · exact fun q code h hne =>
          absurd (raised_setRunner (refusedRunner_ne_raised now _ _ rest f.reply) q code h) hne

/-- What a failure record does: it counts the failure, or it raises since the row
is gone. -/
theorem record_cases (w : Fleet) (p now : Nat) (sid : EventId) (rest : List ScheduledRow) (utcnow : Nat) :
    (∃ store, recordSpec w.store sid utcnow = some store ∧
        w.record p now sid rest utcnow = { w with store }.setRunner p (.releasing now rest)) ∨
      (w.row sid = none ∧ w.record p now sid rest utcnow = w.setRunner p (.raised .type_error)) := by
  obtain ⟨store, failures, hspec, hreturned, hdb⟩ | ⟨hspec, ⟨e, hraised⟩, hdb⟩ :=
    recordReleaseFailure_spec w.store sid utcnow
  · refine Or.inl ⟨store, hspec, ?_⟩
    simp only [Fleet.record, hreturned, hdb]
  · refine Or.inr ⟨Option.map_eq_none_iff.mp hspec, ?_⟩
    simp only [Fleet.record, hraised, hdb]

/-- A counted failure releases nothing. -/
theorem Quiet.recorded {store : Store} (p : Nat) (runner : Runner)
    (hspec : recordSpec w.store sid utcnow = some store) :
    Quiet w ({ w with store }.setRunner p runner) := by
  obtain ⟨r, r', hr, hr', -, habsorbing, hreleased, hdeliver, hexpires, hdata, hother⟩ := recordSpec_rows hspec
  refine Quiet.of_rows rfl rfl (fun k r₁ hr₁ => ?_)
  have hfind : store.scheduler_queue.find k = some r₁ := hr₁
  by_cases hk : k = sid
  · subst hk
    obtain rfl := Option.some.inj (hr'.symm.trans hfind)
    exact ⟨r, hr, habsorbing, hreleased, hdeliver, hexpires, hdata⟩
  · exact ⟨r₁, (hother k hk).symm.trans hfind, fun _ => rfl, id, rfl, rfl, rfl⟩

theorem record_counted (hc : w.Counted) (p now : Nat) (sid : EventId) (rest : List ScheduledRow)
    (utcnow : Nat) : (w.record p now sid rest utcnow).Counted := by
  obtain ⟨store, hspec, heq⟩ | ⟨-, heq⟩ := record_cases w p now sid rest utcnow
  · rw [heq]
    exact (Quiet.recorded p _ hspec).counted hc
  · rw [heq]
    exact (Quiet.setRunner w p _).counted hc

theorem record_law (hc : w.Counted) {p now birth : Nat} {rest : List ScheduledRow}
    (hrun : w.runners p = .recording now sid birth rest) (hrow : (w.row sid).isSome)
    (hbirth : w.births sid = birth) :
    StepLaw w (.record p utcnow) (w.record p now sid rest utcnow) := by
  obtain ⟨store, hspec, heq⟩ | ⟨hnone, heq⟩ := record_cases w p now sid rest utcnow
  · obtain ⟨-, -, -, -, -, -, -, -, -, -, hother⟩ := recordSpec_rows hspec
    rw [heq]
    refine { (Quiet.recorded p _ hspec).rowLaw hc _ with
      uncommitted := ?_, isolated := ?_, failing := ?_, gated := ?_, raises := ?_ }
    · exact fun _ _ h => absurd h (by simp)
    · exact fun _ _ _ _ _ h => absurd h (by simp)
    · rintro p' utcnow' now' sid' birth' rest' h hrun'
      obtain ⟨rfl, rfl⟩ := FleetAct.record.inj h
      obtain ⟨rfl, rfl, rfl, rfl⟩ := Runner.recording.inj (hrun.symm.trans hrun')
      refine ⟨fun k r hr hne => ?_, Function.update_self ..⟩
      have hk : k ≠ sid := by
        rintro rfl
        obtain hne | hne := hne
        · exact hne rfl
        · exact hne hbirth
      exact (hother k hk).trans hr
    · exact fun _ _ _ _ _ _ h => absurd h (by simp)
    · exact fun q code h hne => absurd (raised_setRunner (by simp) q code h) hne
  · rw [hnone] at hrow
    exact absurd hrow (by simp)

theorem Quiet.step (hrelease : ∀ p f, act ≠ .release p f)
    (hrecord : ∀ p utcnow, act ≠ .record p utcnow) (hst : w.step act = some w') : Quiet w w' := by
  cases act with
  | createApproval record =>
    simp only [Fleet.step] at hst
    split_ifs at hst
    obtain ⟨t, -, rfl⟩ := Option.map_eq_some_iff.mp hst
    exact Quiet.of_queue rfl rfl rfl
  | schedule args utcnow =>
    simp only [Fleet.step] at hst
    split at hst
    · rename_i s sid hschedule hsid
      obtain rfl := Option.some.inj hst
      exact Quiet.schedule hschedule hsid
    · obtain rfl := Option.some.inj hst
      exact Quiet.of_queue rfl rfl rfl
  | send event now =>
    obtain ⟨s, hs, rfl⟩ := Option.map_eq_some_iff.mp hst
    exact Quiet.send hs
  | cancel sid =>
    obtain rfl := Option.some.inj hst
    have hnext : SchedState.canceled ≠ .released := by simp
    exact Quiet.leaveScheduled hnext rfl rfl rfl
  | delete ids =>
    obtain rfl := Option.some.inj hst
    exact Quiet.delete w ids
  | startRun p now skew =>
    simp only [Fleet.step] at hst
    split at hst
    · obtain rfl := Option.some.inj hst
      unfold Fleet.startRun
      split
      · exact Quiet.setRunner w p _
      · split_ifs
        · exact Quiet.setRunner w p _
        · exact Quiet.setRunner w p _
    · exact absurd hst (by simp)
  | release p f => exact absurd rfl (hrelease p f)
  | record p utcnow => exact absurd rfl (hrecord p utcnow)
  | finish p =>
    simp only [Fleet.step] at hst
    split at hst
    · obtain rfl := Option.some.inj hst
      exact Quiet.setRunner w p _
    · exact absurd hst (by simp)
  | crash p =>
    obtain rfl := Option.some.inj hst
    exact Quiet.setRunner w p _

theorem raises_of_step (hrelease : ∀ p f, act ≠ .release p f)
    (hrecord : ∀ p utcnow, act ≠ .record p utcnow) (hst : w.step act = some w') (q : Nat)
    (code : SchedulerCode) (hraised : w'.runners q = .raised code)
    (hne : w.runners q ≠ .raised code) :
    ∃ now skew, act = .startRun q now skew ∧ (now = none ∨ skewBlocks skew = true) := by
  cases act with
  | createApproval record =>
    simp only [Fleet.step] at hst
    split_ifs at hst
    obtain ⟨t, -, rfl⟩ := Option.map_eq_some_iff.mp hst
    exact absurd hraised hne
  | schedule args utcnow =>
    simp only [Fleet.step] at hst
    split at hst <;> (obtain rfl := Option.some.inj hst; exact absurd hraised hne)
  | send event now =>
    obtain ⟨s, -, rfl⟩ := Option.map_eq_some_iff.mp hst
    exact absurd hraised hne
  | cancel sid =>
    obtain rfl := Option.some.inj hst
    exact absurd hraised hne
  | delete ids =>
    obtain rfl := Option.some.inj hst
    exact absurd hraised hne
  | startRun p now skew =>
    by_cases hq : q = p
    · subst hq
      refine ⟨now, skew, rfl, ?_⟩
      simp only [Fleet.step] at hst
      split at hst
      · obtain rfl := Option.some.inj hst
        cases now with
        | none => exact Or.inl rfl
        | some now =>
          refine Or.inr ?_
          by_contra hskew
          have hraised' : (w.startRun q (some now) skew).runners q = .raised code := hraised
          simp only [Fleet.startRun, if_neg hskew, Fleet.setRunner, Function.update_self] at hraised'
          exact absurd hraised' (by simp)
      · exact absurd hst (by simp)
    · simp only [Fleet.step] at hst
      split at hst
      · obtain rfl := Option.some.inj hst
        have hsame : (w.startRun p now skew).runners q = w.runners q := by
          unfold Fleet.startRun
          split
          · exact Function.update_of_ne hq _ _
          · split_ifs
            · exact Function.update_of_ne hq _ _
            · exact Function.update_of_ne hq _ _
        exact absurd (hsame.symm.trans hraised) hne
      · exact absurd hst (by simp)
  | release p f => exact absurd rfl (hrelease p f)
  | record p utcnow => exact absurd rfl (hrecord p utcnow)
  | finish p =>
    simp only [Fleet.step] at hst
    split at hst
    · obtain rfl := Option.some.inj hst
      exact absurd (raised_setRunner (by simp) q code hraised) hne
    · exact absurd hst (by simp)
  | crash p =>
    obtain rfl := Option.some.inj hst
    exact absurd (raised_setRunner (by simp) q code hraised) hne

theorem Fleet.Counted.step (hc : w.Counted) (hst : w.step act = some w') : w'.Counted := by
  by_cases hrelease : ∃ p f, act = .release p f
  · obtain ⟨p, f, rfl⟩ := hrelease
    simp only [Fleet.step] at hst
    split at hst
    · obtain rfl := Option.some.inj hst
      exact release_counted hc p _ _ _ f
    · exact absurd hst (by simp)
  · by_cases hrecord : ∃ p utcnow, act = .record p utcnow
    · obtain ⟨p, utcnow, rfl⟩ := hrecord
      simp only [Fleet.step] at hst
      split at hst
      · obtain rfl := Option.some.inj hst
        exact record_counted hc p _ _ _ utcnow
      · exact absurd hst (by simp)
    · refine (Quiet.step (fun p f h => hrelease ⟨p, f, h⟩) (fun p t h => hrecord ⟨p, t, h⟩) hst).counted hc

theorem stepLaw_of_undisturbed (hc : w.Counted) (hok : Undisturbed w act)
    (hst : w.step act = some w') : StepLaw w act w' := by
  by_cases hrelease : ∃ p f, act = .release p f
  · obtain ⟨p, f, rfl⟩ := hrelease
    simp only [Fleet.step] at hst
    split at hst
    · rename_i now row rest hrun
      obtain rfl := Option.some.inj hst
      simp only [Undisturbed, undisturbed, hrun] at hok
      exact release_law hc hrun hok
    · exact absurd hst (by simp)
  · by_cases hrecord : ∃ p utcnow, act = .record p utcnow
    · obtain ⟨p, utcnow, rfl⟩ := hrecord
      simp only [Fleet.step] at hst
      split at hst
      · rename_i now sid birth rest hrun
        obtain rfl := Option.some.inj hst
        simp only [Undisturbed, undisturbed, hrun, Bool.and_eq_true, decide_eq_true_eq] at hok
        exact record_law hc hrun hok.1 hok.2
      · exact absurd hst (by simp)
    · have hrelease' : ∀ p f, act ≠ .release p f := fun p f h => hrelease ⟨p, f, h⟩
      have hrecord' : ∀ p utcnow, act ≠ .record p utcnow := fun p t h => hrecord ⟨p, t, h⟩
      exact (Quiet.step hrelease' hrecord' hst).stepLaw hc hrelease' hrecord'
        (raises_of_step hrelease' hrecord' hst)

theorem undisturbed_of_stepLaw (hst : w.step act = some w') (hlaw : StepLaw w act w') :
    Undisturbed w act := by
  cases act with
  | release p f =>
    cases hrun : w.runners p with
    | releasing now rows =>
      cases rows with
      | nil => simp only [Undisturbed, undisturbed, hrun]
      | cons row rest =>
        simp only [Fleet.step, hrun, Option.some.injEq] at hst
        subst hst
        simp only [Undisturbed, undisturbed, hrun]
        obtain ⟨store, -, hunclaimed, -⟩ | ⟨cur, hclaim, hf⟩ := release_cases w p now row rest
        · unfold undisturbedRelease
          cases hrow : w.row row.scheduled_id with
          | none => rfl
          | some cur =>
            have hnot : ¬ (cur.state = .scheduled ∧ row.deliver_at ≤ now ∧ now < row.effectiveExpiresAt) :=
              fun h => hunclaimed cur ⟨hrow, h.1, h.2.1, h.2.2⟩
            by_cases hst : cur.state = .scheduled
            · by_cases hdue : row.deliver_at ≤ now
              · have hlate : ¬ now < row.effectiveExpiresAt := fun h => hnot ⟨hst, hdue, h⟩
                simp [hlate]
              · simp [hdue]
            · simp [hst]
        · have hfound := hclaim.found
          obtain ⟨hreply, heq⟩ | ⟨hreply, -⟩ := hf f
          · -- the row is released, so the law speaks about its times and bytes
            have hafter : (w.release p now row rest f).row row.scheduled_id =
                some { cur with state := .released } := by
              rw [heq, row_releasedRow hclaim, if_pos rfl]
            have hstands : Stands w (w.release p now row rest f) row.scheduled_id cur
                { cur with state := .released } := ⟨hfound, hafter, by rw [heq]; rfl⟩
            obtain ⟨p', now', rows', f', late, hact, hrun', hdue, hunexpired, hdelivered, -⟩ :=
              hlaw.released _ _ _ hstands (by rw [hclaim.scheduled]; simp) rfl
            obtain ⟨rfl, rfl⟩ := FleetAct.release.inj hact
            obtain ⟨rfl, -⟩ := Runner.releasing.inj (hrun.symm.trans hrun')
            rw [heq] at hdelivered
            have hdata : row.inner_event = cur.inner_event := by
              have hlast := List.append_cancel_left hdelivered
              simpa using hlast
            simp [undisturbedRelease, hfound, hdue, hunexpired, hdata]
          · simp [undisturbedRelease, hfound, hreply]
    | _ => simp only [Undisturbed, undisturbed, hrun]
  | record p utcnow =>
    cases hrun : w.runners p with
    | recording now sid birth rest =>
      simp only [Fleet.step, hrun, Option.some.injEq] at hst
      subst hst
      obtain ⟨hrows, hrunner⟩ := hlaw.failing p utcnow now sid birth rest rfl hrun
      obtain ⟨store, hspec, heq⟩ | ⟨-, heq⟩ := record_cases w p now sid rest utcnow
      · obtain ⟨r, r', hr, hr', hcount, -⟩ := recordSpec_rows hspec
        have hbirth : w.births sid = birth := by
          by_contra hne
          have hsame := hrows sid r hr (Or.inr hne)
          rw [heq] at hsame
          obtain rfl := Option.some.inj (hr'.symm.trans hsame)
          omega
        have hrow : w.row sid = some r := hr
        simp [Undisturbed, undisturbed, hrun, hrow, hbirth]
      · rw [heq] at hrunner
        have hself : (w.setRunner p (.raised .type_error)).runners p = .raised .type_error :=
          Function.update_self ..
        exact absurd (hself.symm.trans hrunner) (by simp)
    | _ => simp only [Undisturbed, undisturbed, hrun]
  | _ => rfl

end

/-! ## The result over runs -/

/-- **The life of a scheduler row.**  The steps of a run are lawful exactly when no
release and no failure record meets a row that was deleted and replaced or is
gone. -/
theorem scheduler_lifecycle_iff {as : List FleetAct} {w : Fleet} (hrun : fleet.run {} as = some w) :
    (∀ k u act v, fleet.run {} (as.take k) = some u → as[k]? = some act → fleet.step u act = some v →
      StepLaw u act v) ↔ fleet.okRun Undisturbed {} as := by
  have hempty : Fleet.Counted {} :=
    ⟨fun _ _ _ => rfl, fun sid r hr => absurd hr (by simp [Fleet.row]), fun _ _ => Nat.zero_le _⟩
  refine Machine.steps_iff_okRun (fun s a t hc _ hst => ?_) (fun s a t hc hok hst => ?_)
    (fun s a t _ hst hlaw => ?_) hempty hrun
  · exact Fleet.Counted.step hc hst
  · exact stepLaw_of_undisturbed hc hok hst
  · exact undisturbed_of_stepLaw hst hlaw

/-- A release function that enqueues one upload and then gives a reply. -/
def enqueueOnce (reply : ReleaseReply) : PlainRelease where
  statements _ data _ s :=
    { s with transport_mutations := s.transport_mutations ++ [⟨0, .upload [] data⟩] }
  keepsQueue _ _ _ _ := rfl
  reply := reply

/-- Two events are due and a process selects them. -/
def twoDue : List FleetAct :=
  [.schedule { sealed_event_envelope := [1], deliver_at := some 5, scheduled_id := some (some 1) } 0,
    .schedule { sealed_event_envelope := [2], deliver_at := some 6, scheduled_id := some (some 2) } 0,
    .startRun 0 (some 10) none]

/-- The first row is released and the second one fails. -/
def releasedAndFailed : List FleetAct :=
  twoDue ++ [.release 0 (enqueueOnce .returned), .release 0 (enqueueOnce .raised), .record 0 10, .finish 0]

theorem scheduler_lifecycle_releasedAndFailed :
    ∃ u v, fleet.run {} (releasedAndFailed.take 3) = some u ∧
      u.step (.release 0 (enqueueOnce .returned)) = some v ∧ (v.row 1).map (·.state) = some .released ∧
      StepLaw u (.release 0 (enqueueOnce .returned)) v := by
  have hend : ((fleet.run {} releasedAndFailed).map fun w => (w.row 2).map (·.release_failures)) =
      some (some 1) := by
    decide +kernel
  obtain ⟨w, hw, -⟩ := Option.map_eq_some_iff.mp hend
  have hmiddle : ((fleet.run {} (releasedAndFailed.take 3)).bind fun u =>
      (u.step (.release 0 (enqueueOnce .returned))).map fun v => (v.row 1).map (·.state)) =
        some (some .released) := by
    decide +kernel
  obtain ⟨u, hu, hstep⟩ := Option.bind_eq_some_iff.mp hmiddle
  obtain ⟨v, hv, hstate⟩ := Option.map_eq_some_iff.mp hstep
  have hok : fleet.okRun Undisturbed {} releasedAndFailed := by
    decide +kernel
  exact ⟨u, v, hu, hv, hstate, (scheduler_lifecycle_iff hw).mpr hok 3 u _ v hu rfl hv⟩

/-- A teardown deletes the row of the failed release before the failure is
counted. -/
def deletedAfterFailure : List FleetAct :=
  twoDue ++ [.release 0 (enqueueOnce .raised), .delete [1]]

/-- `run_due` raises on the row that is gone, and the second row stays
unprocessed. -/
theorem deleted_row_stops_run_due :
    ∃ u v, fleet.run {} deletedAfterFailure = some u ∧ fleet.step u (.record 0 10) = some v ∧
      v.runners 0 = .raised .type_error ∧ (v.row 2).map (·.state) = some .scheduled ∧
      ¬ StepLaw u (.record 0 10) v := by
  have hrun : ((fleet.run {} deletedAfterFailure).bind fun u =>
      (u.step (.record 0 10)).map fun v => (u.runners 0, v.runners 0, (v.row 2).map (·.state))) =
        some (.recording 10 1 1 [{ scheduled_id := 2, inner_event := [2], deliver_at := 6 }],
          .raised .type_error, some .scheduled) := by
    decide +kernel
  obtain ⟨u, hu, hstep⟩ := Option.bind_eq_some_iff.mp hrun
  obtain ⟨v, hv, heq⟩ := Option.map_eq_some_iff.mp hstep
  simp only [Prod.mk.injEq] at heq
  obtain ⟨hrecording, hraised, hstate⟩ := heq
  refine ⟨u, v, hu, hv, hraised, hstate, fun hlaw => ?_⟩
  obtain ⟨now, skew, hact, -⟩ := hlaw.raises 0 _ hraised (by rw [hrecording]; simp)
  exact absurd hact (by simp)

end MuseAgentSocial.Scheduler
