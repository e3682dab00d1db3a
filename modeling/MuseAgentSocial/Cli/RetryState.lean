import MuseAgentSocial.Lib.Machine
import MuseAgentSocial.Lib.Streak
import MuseAgentSocial.Lib.Table
import MuseAgentSocial.Policy.Limits
import Mathlib.Data.List.Infix
import Mathlib.Data.List.TakeDrop
import Mathlib.Tactic.SplitIfs

/-!
# Retry accounting

`_receive_object` keeps an object on the relay after a failure that may heal, and counts the
failures of each kind in `receive_retry_state` to give the object up in the end.

* `receiveObject` is the wrapper with its bookkeeping.  How the pipeline inside it ends, and which
  of the writes of the bookkeeping go through, is part of the attempt.
* `receiver` takes attempts on any objects, in processes that end and start again, and keeps the
  history of the attempts.  No function reads the history.
* `Accounted` is what the accounting is for: the ceilings are kept, an object is given up only by
  that many failures of one kind in a row, and no row outlives a terminal outcome.
* `retry_accounting_iff`: a run is accounted exactly when its attempts are `Orderly`.  The row of
  an object that is given up over storage failures stays, and the counts of the two kinds do not
  start again after a failure of the other kind (`transients_not_in_a_row`).
-/

namespace MuseAgentSocial.Cli.Retry

open Policy History

/-- The relationship and the name of an object. -/
abbrev ObjectKey := String × String

/-! ## Storage failures -/

/-- `exc.errno`. -/
inductive Errno where
  | eagain | eintr | ebusy | enospc | edquot | eio
  | other (number : ℤ)
  deriving DecidableEq, Repr

/-- An exception that `except (sqlite3.DatabaseError, OSError)` catches. -/
inductive StorageError where
  | operationalError (message : String)
  /-- A `sqlite3.DatabaseError` that is no `OperationalError`. -/
  | databaseError (message : String)
  | osError (errno : Option Errno) (message : String)
  deriving DecidableEq, Repr

/-- `_TRANSIENT_SQLITE_MARKERS` -/
def TRANSIENT_SQLITE_MARKERS : List String :=
  ["database is locked", "database table is locked", "database schema is locked", "database is busy",
    "disk i/o error", "database or disk is full", "interrupted"]

/-- `_TRANSIENT_OS_ERRNOS` -/
def TRANSIENT_OS_ERRNOS : List Errno := [.eagain, .eintr, .ebusy, .enospc, .edquot, .eio]

/-- `_TRANSIENT_OS_MARKERS` -/
def TRANSIENT_OS_MARKERS : List String :=
  ["i/o error", "no space", "quota exceeded", "temporarily unavailable", "resource busy"]

/-- `str.lower`, as far as a search for ASCII texts sees it: two letters outside ASCII have a
lower case with an ASCII letter, the Kelvin sign and the dotted capital I. -/
def lowerChar (c : Char) : List Char :=
  if c = Char.ofNat 0x212a then ['k']
  else if c = Char.ofNat 0x130 then ['i', Char.ofNat 0x307]
  else [c.toLower]

/-- `any(marker in message.lower() for marker in markers)` -/
def mentionsMarker (markers : List String) (message : String) : Bool :=
  markers.any (fun marker => decide (marker.toList <:+: message.toList.flatMap lowerChar))

/-- `_is_transient_storage_error` -/
def isTransientStorageError : StorageError → Bool
  | .operationalError message => mentionsMarker TRANSIENT_SQLITE_MARKERS message
  | .databaseError _ => false
  | .osError errno message =>
    errno.any (TRANSIENT_OS_ERRNOS.contains ·) || mentionsMarker TRANSIENT_OS_MARKERS message

/-! ## `receive_retry_state` -/

/-- `reason` -/
inductive RetryReason where
  | unknown_future_epoch | transient_storage
  deriving DecidableEq, Repr

/-- A row of `receive_retry_state`.  Its times are never read. -/
structure RetryRow where
  object : ObjectKey
  reason : RetryReason
  sightings : ℕ
  deriving DecidableEq, Repr

/-- The primary key. -/
def RetryRow.key (r : RetryRow) : ObjectKey × RetryReason := (r.object, r.reason)

/-- The table. -/
abbrev RetryState := Table RetryRow.key

section retry

variable (t : RetryState) (object : ObjectKey) (reason : RetryReason)

/-- The sightings of an object for a reason. -/
def sightings : ℕ := ((t.find (object, reason)).map RetryRow.sightings).getD 0

/-- The table has a row for the object. -/
def Holds : Prop := ∃ r ∈ t.rows, r.object = object

/-- `_bump_retry_sighting`: the table after it, and the count that it returns.  The `INSERT` and
the `SELECT` after it go through together or not at all: a `SELECT` that fails after the `INSERT`
is left out. -/
def bumpRetrySighting : RetryState × ℕ :=
  (t.upsert ⟨object, reason, sightings t object reason + 1⟩, sightings t object reason + 1)

/-- `_clear_retry_state` -/
def clearRetryState : RetryState := t.delete (fun r => r.object = object)

variable {t object reason}

theorem holds_iff : Holds t object ↔ ∃ reason, (t.find (object, reason)).isSome := by
  constructor
  · intro ⟨r, hr, hobject⟩
    refine ⟨r.reason, ?_⟩
    rw [← hobject, show (r.object, r.reason) = r.key from rfl, Table.mem_iff_find.mp hr]
    rfl
  · intro ⟨reason, hfind⟩
    obtain ⟨r, hr⟩ := Option.isSome_iff_exists.mp hfind
    have hkey := Table.find_eq_some.mp hr
    exact ⟨r, hkey.1, congrArg Prod.fst hkey.2⟩

theorem sightings_of_not_holds (h : ¬Holds t object) : sightings t object reason = 0 := by
  unfold sightings
  cases hfind : t.find (object, reason) with
  | none => rfl
  | some r => exact absurd (holds_iff.mpr ⟨reason, by rw [hfind]; rfl⟩) h

/-- The row that was read again after the upsert. -/
theorem sightings_bump : sightings (bumpRetrySighting t object reason).1 object reason =
    (bumpRetrySighting t object reason).2 := by
  rw [sightings, bumpRetrySighting, Table.find_upsert, if_pos (by rfl)]
  rfl

theorem find_bump_of_ne {k : ObjectKey × RetryReason} (h : k ≠ (object, reason)) :
    (bumpRetrySighting t object reason).1.find k = t.find k :=
  (Table.find_upsert t _ k).trans (if_neg h)

theorem holds_bump : Holds (bumpRetrySighting t object reason).1 object := by
  refine holds_iff.mpr ⟨reason, ?_⟩
  rw [bumpRetrySighting, Table.find_upsert, if_pos (by rfl)]
  rfl

theorem find_clear (k : ObjectKey × RetryReason) :
    (clearRetryState t object).find k = if k.1 = object then none else t.find k := by
  rw [clearRetryState, Table.find_delete]
  cases hfind : t.find k with
  | none => simp
  | some r =>
    have hkey : r.object = k.1 := congrArg Prod.fst (Table.find_eq_some.mp hfind).2
    split_ifs with h <;> simp [Option.filter, hkey, h]

theorem not_holds_clear : ¬Holds (clearRetryState t object) object := by
  intro h
  obtain ⟨reason, hfind⟩ := holds_iff.mp h
  rw [find_clear, if_pos (by rfl)] at hfind
  exact absurd hfind (by simp)

end retry

/-! ## `_receive_object` -/

/-- The outcome of a receive. -/
inductive Outcome where
  | accepted
  | quarantined (reason : String)
  | retry_pending
  deriving DecidableEq, Repr

/-- The watcher is done with the object. -/
def Outcome.terminal : Outcome → Bool
  | .retry_pending => false
  | _ => true

/-- How `_receive_object_inner` goes. -/
inductive Inner where
  /-- It returns.  It returns `retry_pending` when the quota is used up. -/
  | returned (outcome : Outcome)
  | cliError (code : String)
  /-- `on_data_event_epoch` raises `unknown_future_epoch`, and the sighting is counted unless
  the database raises. -/
  | unknownFutureEpoch (raises : Option StorageError)
  | storageError (exc : StorageError)
  /-- Any other exception. -/
  | unexpected
  deriving DecidableEq, Repr

/-- The writes of the bookkeeping that go through. -/
structure Writes where
  bump : Bool := true
  clear : Bool := true
  quarantine : Bool := true
  /-- The quarantine of `_bookkeeping_failed_outcome`. -/
  lastQuarantine : Bool := true
  deriving DecidableEq, Repr

/-- An attempt on an object. -/
structure Attempt where
  object : ObjectKey
  inner : Inner
  writes : Writes := {}
  deriving DecidableEq, Repr

/-- What the bookkeeping reads: the table, and `_UNWRITABLE_BOOKKEEPING_COUNT` of the process. -/
structure Accounting where
  retry : RetryState := Table.empty
  unwritable : ObjectKey → ℕ := fun _ => 0

namespace Attempt

variable (a : Attempt) (s : Accounting)

/-- `_clear_retry_state_quiet` -/
def clearRetryStateQuiet : Accounting :=
  if a.writes.clear then { s with retry := clearRetryState s.retry a.object } else s

/-- `_quarantine_outcome`, which may raise. -/
def quarantineOutcome (reason : String) : Option Outcome :=
  if a.writes.quarantine then some (.quarantined reason) else none

/-- `_storage_failure_outcome`, which may raise. -/
def storageFailureOutcome (exc : StorageError) : Option Outcome × Accounting :=
  if isTransientStorageError exc then
    if a.writes.bump then
      let (retry, count) := bumpRetrySighting s.retry a.object .transient_storage
      if MAX_CONSECUTIVE_RECEIVE_FAILURES ≤ count then
        (a.quarantineOutcome "retry_ceiling_exceeded", { s with retry })
      else (some .retry_pending, { s with retry })
    else (none, s)
  else (a.quarantineOutcome "storage_error", s)

/-- `_bookkeeping_failed_outcome` -/
def bookkeepingFailedOutcome : Outcome × Accounting :=
  let count := s.unwritable a.object + 1
  if MAX_CONSECUTIVE_RECEIVE_FAILURES ≤ count ∧ a.writes.lastQuarantine then
    (.quarantined "storage_error", { s with unwritable := Function.update s.unwritable a.object 0 })
  else (.retry_pending, { s with unwritable := Function.update s.unwritable a.object count })

/-- The handler of a storage failure. -/
def onStorageError (exc : StorageError) : Option Outcome × Accounting :=
  match a.storageFailureOutcome s exc with
  | (some outcome, s) => (some outcome, s)
  | (none, s) =>
    let (outcome, s) := a.bookkeepingFailedOutcome s
    (some outcome, s)

/-- The handler of a `CliError`, and that of an unexpected exception. -/
def onError (code : String) : Option Outcome × Accounting := (a.quarantineOutcome code, a.clearRetryStateQuiet s)

/-- `_receive_object`.  There is no outcome where the quarantine raises in a handler. -/
def receiveObject : Option Outcome × Accounting :=
  match a.inner with
  | .returned outcome =>
    if outcome.terminal then
      let s := a.clearRetryStateQuiet s
      (some outcome, { s with unwritable := Function.update s.unwritable a.object 0 })
    else (some outcome, s)
  | .cliError code => a.onError s code
  | .unknownFutureEpoch none =>
    let (retry, count) := bumpRetrySighting s.retry a.object .unknown_future_epoch
    if MAX_UNKNOWN_EPOCH_SIGHTINGS < count then a.onError { s with retry } "epoch_rejected"
    else (some .retry_pending, { s with retry })
  | .unknownFutureEpoch (some exc) => a.onStorageError s exc
  | .storageError exc => a.onStorageError s exc
  | .unexpected => a.onError s "receive_error"

/-- The object was sighted under an unknown epoch. -/
def sighting : Bool := a.inner = .unknownFutureEpoch none

/-- The exception of a storage failure. -/
def storageExc : Option StorageError :=
  match a.inner with
  | .unknownFutureEpoch raises => raises
  | .storageError exc => some exc
  | _ => none

/-- The attempt is a transient storage failure. -/
def transient : Bool := a.storageExc.any isTransientStorageError

end Attempt

/-! ## Runs of attempts -/

/-- An attempt that was made, and whether its outcome was terminal. -/
structure Seen where
  attempt : Attempt
  terminal : Bool

/-- The receiver with the history of its attempts, the newest first. -/
structure Receiver extends Accounting where
  history : List Seen := []

/-- The attempts on an object. -/
def Receiver.seen (s : Receiver) (object : ObjectKey) : List Seen :=
  s.history.filter (fun e => e.attempt.object = object)

/-- What happens to the receiver. -/
inductive ReceiverAction where
  | attempt (a : Attempt)
  /-- The process ends and another starts. -/
  | restart

/-- The receiver after an action. -/
def ReceiverAction.next : ReceiverAction → Receiver → Receiver
  | .attempt a, s =>
    { toAccounting := (a.receiveObject s.toAccounting).2
      history := ⟨a, (a.receiveObject s.toAccounting).1.any Outcome.terminal⟩ :: s.history }
  | .restart, s => { s with unwritable := fun _ => 0 }

/-- Receives, one after the other. -/
def receiver : Machine Receiver ReceiverAction where
  init s := s = {}
  step s a := some (a.next s)

/-- How many sightings of the object since its last terminal outcome. -/
def sightingsSince (h : List Seen) : ℕ := (current Seen.terminal h).countP (·.attempt.sighting)

/-- How many sightings in a row. -/
def sightingsInARow (h : List Seen) : ℕ := streak Seen.terminal (·.attempt.sighting) h

/-- How many transient failures in a row. -/
def transientsInARow (h : List Seen) : ℕ := streak Seen.terminal (·.attempt.transient) h

/-- The accounting of an object. -/
structure Accounted (s : Receiver) (object : ObjectKey) : Prop where
  /-- No more sightings than the ceiling leave the object on the relay. -/
  sightings_le : sightingsSince (s.seen object) ≤ MAX_UNKNOWN_EPOCH_SIGHTINGS
  /-- Fewer failures in a row than the ceiling leave it there. -/
  transients_lt : transientsInARow (s.seen object) < MAX_CONSECUTIVE_RECEIVE_FAILURES
  /-- A failure gives the object up only when the ceiling is reached by failures of its kind in a row. -/
  patient : ∀ e h, s.seen object = e :: h → e.terminal = true →
    (e.attempt.sighting = true → MAX_UNKNOWN_EPOCH_SIGHTINGS ≤ sightingsInARow h + 1) ∧
    (e.attempt.transient = true → MAX_CONSECUTIVE_RECEIVE_FAILURES ≤ transientsInARow h + 1)
  /-- A row is there only while the last outcome was not terminal. -/
  open_of_holds : Holds s.retry object → ∃ e h, s.seen object = e :: h ∧ e.terminal = false

/-! ## Orderly attempts -/

/-- Where the bookkeeping cannot be written, the object is given up all the same. -/
def Attempt.givesUp (a : Attempt) (s : Accounting) : Bool :=
  MAX_CONSECUTIVE_RECEIVE_FAILURES ≤ s.unwritable a.object + 1 ∧ a.writes.lastQuarantine

/-- A storage failure that the accounting holds up to: one that may heal does not reach the ceiling
when it can be counted, and an object that is given up has no row. -/
def OrderlyFailure (s : Receiver) (a : Attempt) (exc : StorageError) : Prop :=
  if isTransientStorageError exc then
    if a.writes.bump then
      (sightings s.retry a.object .transient_storage + 1 < MAX_CONSECUTIVE_RECEIVE_FAILURES ∨
        a.writes.quarantine = false ∧ a.givesUp s.toAccounting = false) ∧
        transientsInARow (s.seen a.object) + 1 < MAX_CONSECUTIVE_RECEIVE_FAILURES
    else if a.givesUp s.toAccounting then
      ¬Holds s.retry a.object ∧ MAX_CONSECUTIVE_RECEIVE_FAILURES ≤ transientsInARow (s.seen a.object) + 1
    else transientsInARow (s.seen a.object) + 1 < MAX_CONSECUTIVE_RECEIVE_FAILURES
  else a.writes.quarantine ∨ a.givesUp s.toAccounting → ¬Holds s.retry a.object

/-- An attempt that the accounting holds up to.  A sighting past the ceiling comes after sightings
only, and an object that ends has its row cleared. -/
def OrderlyAttempt (s : Receiver) (a : Attempt) : Prop :=
  match a.inner with
  | .returned outcome => outcome.terminal → a.writes.clear ∨ ¬Holds s.retry a.object
  | .cliError _ => a.writes.quarantine → a.writes.clear ∨ ¬Holds s.retry a.object
  | .unexpected => a.writes.quarantine → a.writes.clear ∨ ¬Holds s.retry a.object
  | .unknownFutureEpoch none =>
    sightingsSince (s.seen a.object) < MAX_UNKNOWN_EPOCH_SIGHTINGS ∨
      MAX_UNKNOWN_EPOCH_SIGHTINGS ≤ sightings s.retry a.object .unknown_future_epoch ∧
        MAX_UNKNOWN_EPOCH_SIGHTINGS ≤ sightingsInARow (s.seen a.object) + 1 ∧ a.writes.clear ∧ a.writes.quarantine
  | .unknownFutureEpoch (some exc) => OrderlyFailure s a exc
  | .storageError exc => OrderlyFailure s a exc

/-- An action that the accounting holds up to. -/
def Orderly (s : Receiver) : ReceiverAction → Prop
  | .attempt a => OrderlyAttempt s a
  | .restart => True

namespace Attempt

variable (a : Attempt) (s : Accounting)

/-- The attempt ends the object. -/
def ends : Bool := (a.receiveObject s).1.any Outcome.terminal

theorem onError_ends (code : String) : (a.onError s code).1.any Outcome.terminal = a.writes.quarantine := by
  unfold onError quarantineOutcome
  cases a.writes.quarantine <;> rfl

theorem onError_retry (code : String) :
    (a.onError s code).2.retry = if a.writes.clear then clearRetryState s.retry a.object else s.retry := by
  unfold onError clearRetryStateQuiet
  split_ifs <;> rfl

theorem bookkeepingFailedOutcome_terminal :
    (a.bookkeepingFailedOutcome s).1.terminal = a.givesUp s := by
  unfold bookkeepingFailedOutcome givesUp
  dsimp only
  split_ifs with h <;> simp [h, Outcome.terminal]

theorem bookkeepingFailedOutcome_retry : (a.bookkeepingFailedOutcome s).2.retry = s.retry := by
  unfold bookkeepingFailedOutcome
  dsimp only
  split_ifs <;> rfl

theorem onStorageError_of_quarantine {exc : StorageError} (reason : String) {s' : Accounting}
    (h : a.storageFailureOutcome s exc = (a.quarantineOutcome reason, s')) :
    (a.onStorageError s exc).1.any Outcome.terminal = (a.writes.quarantine || a.givesUp s') ∧
      (a.onStorageError s exc).2.retry = s'.retry := by
  unfold onStorageError
  rw [h]
  unfold quarantineOutcome
  cases hq : a.writes.quarantine with
  | true => exact ⟨rfl, rfl⟩
  | false => exact ⟨a.bookkeepingFailedOutcome_terminal s', a.bookkeepingFailedOutcome_retry s'⟩

theorem onStorageError_permanent {exc : StorageError} (hexc : isTransientStorageError exc = false) :
    (a.onStorageError s exc).1.any Outcome.terminal = (a.writes.quarantine || a.givesUp s) ∧
      (a.onStorageError s exc).2.retry = s.retry := by
  refine a.onStorageError_of_quarantine s "storage_error" ?_
  rw [storageFailureOutcome, hexc, if_neg (by decide)]

theorem onStorageError_uncounted {exc : StorageError} (hexc : isTransientStorageError exc = true)
    (hbump : a.writes.bump = false) :
    (a.onStorageError s exc).1.any Outcome.terminal = a.givesUp s ∧ (a.onStorageError s exc).2.retry = s.retry := by
  unfold onStorageError storageFailureOutcome
  rw [hexc, hbump, if_pos rfl, if_neg (by decide)]
  exact ⟨a.bookkeepingFailedOutcome_terminal s, a.bookkeepingFailedOutcome_retry s⟩

theorem onStorageError_counted {exc : StorageError} (hexc : isTransientStorageError exc = true)
    (hbump : a.writes.bump = true) :
    (a.onStorageError s exc).1.any Outcome.terminal =
        (decide (MAX_CONSECUTIVE_RECEIVE_FAILURES ≤ sightings s.retry a.object .transient_storage + 1) &&
          (a.writes.quarantine || a.givesUp s)) ∧
      (a.onStorageError s exc).2.retry = (bumpRetrySighting s.retry a.object .transient_storage).1 := by
  by_cases hceiling : MAX_CONSECUTIVE_RECEIVE_FAILURES ≤ sightings s.retry a.object .transient_storage + 1
  · rw [decide_eq_true hceiling, Bool.true_and]
    have houtcome : a.storageFailureOutcome s exc = (a.quarantineOutcome "retry_ceiling_exceeded",
        { s with retry := (bumpRetrySighting s.retry a.object .transient_storage).1 }) := by
      rw [storageFailureOutcome, hexc, hbump, if_pos rfl, if_pos rfl]
      exact if_pos hceiling
    exact a.onStorageError_of_quarantine s _ houtcome
  · have houtcome : a.storageFailureOutcome s exc =
        (some .retry_pending, { s with retry := (bumpRetrySighting s.retry a.object .transient_storage).1 }) := by
      rw [storageFailureOutcome, hexc, hbump, if_pos rfl, if_pos rfl]
      exact if_neg hceiling
    rw [decide_eq_false hceiling, Bool.false_and, onStorageError, houtcome]
    exact ⟨rfl, rfl⟩

theorem receiveObject_of_storageExc {exc : StorageError} (hexc : a.storageExc = some exc) :
    a.receiveObject s = a.onStorageError s exc := by
  unfold storageExc at hexc
  unfold receiveObject
  cases hinner : a.inner with
  | unknownFutureEpoch raises =>
    rw [hinner] at hexc
    rw [show raises = some exc from hexc]
  | storageError exc' =>
    rw [hinner] at hexc
    rw [Option.some.inj hexc]
  | _ =>
    rw [hinner] at hexc
    exact absurd hexc (by simp)

theorem not_sighting_of_storageExc {exc : StorageError} (hexc : a.storageExc = some exc) : a.sighting = false := by
  unfold storageExc at hexc
  refine decide_eq_false (fun hinner => ?_)
  rw [hinner] at hexc
  exact absurd hexc (by simp)

/-- What an attempt does to the table: it may count, and then it may clear the rows of its object. -/
theorem receiveObject_retry : ∃ t,
    (t = s.retry ∨ a.sighting = true ∧ t = (bumpRetrySighting s.retry a.object .unknown_future_epoch).1 ∨
      t = (bumpRetrySighting s.retry a.object .transient_storage).1) ∧
    ((a.receiveObject s).2.retry = t ∨ (a.receiveObject s).2.retry = clearRetryState t a.object) := by
  have honError : ∀ (s : Accounting) (code : String),
      (a.onError s code).2.retry = s.retry ∨ (a.onError s code).2.retry = clearRetryState s.retry a.object := by
    intro s code
    rw [onError_retry]
    split_ifs
    · exact Or.inr rfl
    · exact Or.inl rfl
  cases hexc : a.storageExc with
  | some exc =>
    rw [a.receiveObject_of_storageExc s hexc]
    cases htransient : isTransientStorageError exc with
    | false => exact ⟨s.retry, Or.inl rfl, Or.inl (a.onStorageError_permanent s htransient).2⟩
    | true =>
      cases hbump : a.writes.bump with
      | false => exact ⟨s.retry, Or.inl rfl, Or.inl (a.onStorageError_uncounted s htransient hbump).2⟩
      | true => exact ⟨_, Or.inr (Or.inr rfl), Or.inl (a.onStorageError_counted s htransient hbump).2⟩
  | none =>
    unfold storageExc at hexc
    unfold receiveObject
    cases hinner : a.inner with
    | returned outcome =>
      refine ⟨s.retry, Or.inl rfl, ?_⟩
      dsimp only
      split_ifs with hterminal
      · unfold clearRetryStateQuiet
        split_ifs
        · exact Or.inr rfl
        · exact Or.inl rfl
      · exact Or.inl rfl
    | cliError code => exact ⟨s.retry, Or.inl rfl, honError s code⟩
    | unexpected => exact ⟨s.retry, Or.inl rfl, honError s _⟩
    | storageError exc =>
      rw [hinner] at hexc
      exact absurd hexc (by simp)
    | unknownFutureEpoch raises =>
      rw [hinner] at hexc
      rw [show raises = none from hexc]
      refine ⟨_, Or.inr (Or.inl ⟨decide_eq_true (by rw [hinner, show raises = none from hexc]), rfl⟩), ?_⟩
      dsimp only [bumpRetrySighting]
      split_ifs
      · exact honError _ _
      · exact Or.inl rfl

/-- The rows of other objects stay as they are. -/
theorem find_receiveObject_of_ne {k : ObjectKey × RetryReason} (hk : k.1 ≠ a.object) :
    (a.receiveObject s).2.retry.find k = s.retry.find k := by
  obtain ⟨t, ht, hretry⟩ := a.receiveObject_retry s
  have hbump : ∀ reason, (bumpRetrySighting s.retry a.object reason).1.find k = s.retry.find k :=
    fun reason => find_bump_of_ne (fun h => hk (congrArg Prod.fst h))
  have hfind : t.find k = s.retry.find k := by
    obtain ht | ⟨-, ht⟩ | ht := ht
    · rw [ht]
    · rw [ht, hbump]
    · rw [ht, hbump]
  obtain hretry | hretry := hretry
  · rw [hretry, hfind]
  · rw [hretry, find_clear, if_neg hk, hfind]

theorem sightings_receiveObject_le : sightings (a.receiveObject s).2.retry a.object .unknown_future_epoch ≤
    sightings s.retry a.object .unknown_future_epoch + if a.sighting then 1 else 0 := by
  obtain ⟨t, ht, hretry⟩ := a.receiveObject_retry s
  have hle : sightings t a.object .unknown_future_epoch ≤
      sightings s.retry a.object .unknown_future_epoch + if a.sighting then 1 else 0 := by
    obtain ht | ⟨hsighting, ht⟩ | ht := ht
    · rw [ht]
      exact Nat.le_add_right _ _
    · rw [ht, sightings_bump, if_pos hsighting]
      exact le_rfl
    · rw [ht, sightings, find_bump_of_ne (by simp)]
      exact Nat.le_add_right _ _
  obtain hretry | hretry := hretry
  · rwa [hretry]
  · rw [hretry, sightings_of_not_holds not_holds_clear]
    exact Nat.zero_le _

end Attempt

section attempt

variable {s t : Receiver} {a : Attempt} {object : ObjectKey} {e : Seen} {h : List Seen}

theorem accounted_of_terminal (hseen : t.seen object = e :: h) (hterminal : e.terminal = true) :
    Accounted t object ↔ ¬Holds t.retry object ∧
      (e.attempt.sighting = true → MAX_UNKNOWN_EPOCH_SIGHTINGS ≤ sightingsInARow h + 1) ∧
      (e.attempt.transient = true → MAX_CONSECUTIVE_RECEIVE_FAILURES ≤ transientsInARow h + 1) := by
  constructor
  · intro hacc
    refine ⟨fun hholds => ?_, hacc.patient e h hseen hterminal⟩
    obtain ⟨e', h', hseen', hopen⟩ := hacc.open_of_holds hholds
    rw [hseen, List.cons.injEq] at hseen'
    rw [← hseen'.1, hterminal] at hopen
    exact absurd hopen (by decide)
  · intro ⟨hnot, hpatient⟩
    refine ⟨?_, ?_, ?_, fun hholds => absurd hholds hnot⟩
    · rw [hseen, sightingsSince, current_cons_of_ended h hterminal]
      exact Nat.zero_le _
    · rw [hseen, transientsInARow, streak_cons_of_ended h hterminal]
      decide
    · intro e' h' hseen' _
      rw [hseen, List.cons.injEq] at hseen'
      rw [← hseen'.1, ← hseen'.2]
      exact hpatient

/-- Accounted, where the newest outcome leaves the object on the relay. -/
theorem accounted_of_open (hseen : t.seen object = e :: h) (hopen : e.terminal = false)
    (hle : sightingsSince h ≤ MAX_UNKNOWN_EPOCH_SIGHTINGS) :
    Accounted t object ↔ (e.attempt.sighting = true → sightingsSince h < MAX_UNKNOWN_EPOCH_SIGHTINGS) ∧
      (e.attempt.transient = true → transientsInARow h + 1 < MAX_CONSECUTIVE_RECEIVE_FAILURES) := by
  have hsince : sightingsSince (e :: h) = sightingsSince h + if e.attempt.sighting then 1 else 0 := by
    rw [sightingsSince, current_cons h hopen, List.countP_cons]
    rfl
  constructor
  · intro hacc
    constructor
    · intro hsighting
      have hle' := hacc.sightings_le
      rw [hseen, hsince, if_pos hsighting] at hle'
      exact hle'
    · intro htransient
      have hlt := hacc.transients_lt
      rwa [hseen, transientsInARow, streak_cons h hopen htransient] at hlt
  · intro ⟨hsightings, htransients⟩
    refine ⟨?_, ?_, ?_, fun _ => ⟨e, h, hseen, hopen⟩⟩
    · rw [hseen, hsince]
      split_ifs with hsighting
      · exact hsightings hsighting
      · exact hle
    · rw [hseen, transientsInARow]
      cases htransient : e.attempt.transient with
      | true =>
        rw [streak_cons h hopen htransient]
        exact htransients htransient
      | false =>
        rw [streak_cons_of_not h htransient]
        decide
    · intro e' h' hseen' hterminal
      rw [hseen, List.cons.injEq] at hseen'
      rw [← hseen'.1, hopen] at hterminal
      exact absurd hterminal (by decide)

theorem seen_next (a : Attempt) (object : ObjectKey) :
    ((ReceiverAction.attempt a).next s).seen object =
      if a.object = object then ⟨a, a.ends s.toAccounting⟩ :: s.seen object else s.seen object := by
  simp [Receiver.seen, ReceiverAction.next, Attempt.ends, List.filter_cons]

theorem accounted_of_storageExc (exc : StorageError) (hexc : a.storageExc = some exc)
    (hle : sightingsSince (s.seen a.object) ≤ MAX_UNKNOWN_EPOCH_SIGHTINGS) :
    Accounted ((ReceiverAction.attempt a).next s) a.object ↔ OrderlyFailure s a exc := by
  have hrun := a.receiveObject_of_storageExc s.toAccounting hexc
  have hseen := (seen_next (s := s) a a.object).trans (if_pos rfl)
  have hsighting : a.sighting = false := a.not_sighting_of_storageExc hexc
  have htransient : a.transient = isTransientStorageError exc := by
    rw [Attempt.transient, hexc]
    rfl
  have hretry : ((ReceiverAction.attempt a).next s).retry = (a.onStorageError s.toAccounting exc).2.retry := by
    rw [← hrun]
    rfl
  have hends : a.ends s.toAccounting = (a.onStorageError s.toAccounting exc).1.any Outcome.terminal := by
    rw [← hrun]
    rfl
  unfold OrderlyFailure
  cases hexc' : isTransientStorageError exc with
  | false =>
    obtain ⟨hends', hretry'⟩ := a.onStorageError_permanent s.toAccounting hexc'
    rw [hends'] at hends
    rw [if_neg (by decide)]
    cases hup : a.writes.quarantine || a.givesUp s.toAccounting with
    | true =>
      rw [accounted_of_terminal hseen (hends.trans hup), hretry, hretry']
      simp [hsighting, htransient, hexc', Bool.or_eq_true_iff.mp hup]
    | false =>
      rw [accounted_of_open hseen (hends.trans hup) hle]
      simp [hsighting, htransient, hexc', Bool.or_eq_false_iff.mp hup]
  | true =>
    rw [if_pos rfl]
    cases hbump : a.writes.bump with
    | false =>
      obtain ⟨hends', hretry'⟩ := a.onStorageError_uncounted s.toAccounting hexc' hbump
      rw [hends'] at hends
      rw [if_neg (by decide)]
      cases hup : a.givesUp s.toAccounting with
      | true =>
        rw [accounted_of_terminal hseen (hends.trans hup), hretry, hretry']
        simp [hsighting, htransient, hexc']
      | false =>
        rw [accounted_of_open hseen (hends.trans hup) hle]
        simp [hsighting, htransient, hexc']
    | true =>
      obtain ⟨hends', hretry'⟩ := a.onStorageError_counted s.toAccounting hexc' hbump
      rw [hends'] at hends
      rw [if_pos rfl]
      by_cases hceiling : sightings s.retry a.object .transient_storage + 1 < MAX_CONSECUTIVE_RECEIVE_FAILURES
      · rw [accounted_of_open hseen (hends.trans (by simp; omega)) hle]
        simp [hsighting, htransient, hexc', hceiling]
      cases hup : a.writes.quarantine || a.givesUp s.toAccounting with
      | true =>
        rw [accounted_of_terminal hseen (hends.trans (by simp [hup]; omega)), hretry, hretry']
        have hnot : ¬(a.writes.quarantine = false ∧ a.givesUp s.toAccounting = false) := fun h => by
          rw [h.1, h.2] at hup
          exact absurd hup (by decide)
        simp [holds_bump, hceiling, hnot]
      | false =>
        rw [accounted_of_open hseen (hends.trans (by simp [hup])) hle]
        simp [hsighting, htransient, hexc', Bool.or_eq_false_iff.mp hup]

/-- An attempt after an error of the pipeline is accounted exactly when the row is cleared. -/
theorem accounted_of_ends (hsighting : a.sighting = false) (hexc : a.storageExc = none)
    (hretry : a.ends s.toAccounting = true → (a.receiveObject s.toAccounting).2.retry =
      if a.writes.clear then clearRetryState s.retry a.object else s.retry)
    (hle : sightingsSince (s.seen a.object) ≤ MAX_UNKNOWN_EPOCH_SIGHTINGS) :
    Accounted ((ReceiverAction.attempt a).next s) a.object ↔
      (a.ends s.toAccounting = true → a.writes.clear = true ∨ ¬Holds s.retry a.object) := by
  have hseen := (seen_next (s := s) a a.object).trans (if_pos rfl)
  have htransient : a.transient = false := by
    rw [Attempt.transient, hexc]
    rfl
  cases hends : a.ends s.toAccounting with
  | false =>
    rw [accounted_of_open hseen hends hle]
    simp [hsighting, htransient]
  | true =>
    have hnext : ((ReceiverAction.attempt a).next s).retry = _ := hretry hends
    rw [accounted_of_terminal hseen hends, hnext]
    cases hclear : a.writes.clear with
    | true => simp [hsighting, htransient, not_holds_clear]
    | false => simp [hsighting, htransient]

theorem accounted_of_sighting (hinner : a.inner = .unknownFutureEpoch none)
    (hcount : sightings s.retry a.object .unknown_future_epoch ≤ sightingsSince (s.seen a.object))
    (hle : sightingsSince (s.seen a.object) ≤ MAX_UNKNOWN_EPOCH_SIGHTINGS) :
    Accounted ((ReceiverAction.attempt a).next s) a.object ↔ OrderlyAttempt s a := by
  have hseen := (seen_next (s := s) a a.object).trans (if_pos rfl)
  have hsighting : a.sighting = true := decide_eq_true hinner
  have htransient : a.transient = false := by
    rw [Attempt.transient, Attempt.storageExc, hinner]
    rfl
  have hrun : a.receiveObject s.toAccounting =
      if MAX_UNKNOWN_EPOCH_SIGHTINGS < sightings s.retry a.object .unknown_future_epoch + 1 then
        a.onError { s.toAccounting with retry := (bumpRetrySighting s.retry a.object .unknown_future_epoch).1 }
          "epoch_rejected"
      else (some .retry_pending,
        { s.toAccounting with retry := (bumpRetrySighting s.retry a.object .unknown_future_epoch).1 }) := by
    rw [Attempt.receiveObject, hinner]
    rfl
  have horderly : OrderlyAttempt s a ↔
      sightingsSince (s.seen a.object) < MAX_UNKNOWN_EPOCH_SIGHTINGS ∨
        MAX_UNKNOWN_EPOCH_SIGHTINGS ≤ sightings s.retry a.object .unknown_future_epoch ∧
          MAX_UNKNOWN_EPOCH_SIGHTINGS ≤ sightingsInARow (s.seen a.object) + 1 ∧
          a.writes.clear = true ∧ a.writes.quarantine = true := by
    rw [OrderlyAttempt, hinner]
  rw [horderly]
  by_cases hceiling : MAX_UNKNOWN_EPOCH_SIGHTINGS ≤ sightings s.retry a.object .unknown_future_epoch
  · rw [if_pos (by omega)] at hrun
    have hends : a.ends s.toAccounting = a.writes.quarantine := by
      rw [Attempt.ends, hrun, a.onError_ends]
    have hnext : ((ReceiverAction.attempt a).next s).retry =
        if a.writes.clear then clearRetryState (bumpRetrySighting s.retry a.object .unknown_future_epoch).1 a.object
        else (bumpRetrySighting s.retry a.object .unknown_future_epoch).1 := by
      show (a.receiveObject s.toAccounting).2.retry = _
      rw [hrun, a.onError_retry]
    have hnot : ¬sightingsSince (s.seen a.object) < MAX_UNKNOWN_EPOCH_SIGHTINGS := by omega
    cases hq : a.writes.quarantine with
    | false =>
      rw [accounted_of_open hseen (hends.trans hq) hle]
      simp [hsighting, htransient, hnot]
    | true =>
      rw [accounted_of_terminal hseen (hends.trans hq), hnext]
      cases hclear : a.writes.clear with
      | true => simp [hsighting, htransient, hnot, hceiling, not_holds_clear]
      | false => simp [hnot, holds_bump]
  · rw [if_neg (by omega)] at hrun
    have hends : a.ends s.toAccounting = false := by
      rw [Attempt.ends, hrun]
      rfl
    rw [accounted_of_open hseen hends hle]
    simp [hsighting, htransient, hceiling]

/-- The accounting of an object, and the sightings that the table knows of. -/
structure Counted (s : Receiver) (object : ObjectKey) : Prop where
  accounted : Accounted s object
  sightings_le : sightings s.retry object .unknown_future_epoch ≤ sightingsSince (s.seen object)

theorem accounted_next_iff (h : Counted s a.object) :
    Accounted ((ReceiverAction.attempt a).next s) a.object ↔ OrderlyAttempt s a := by
  have hle := h.accounted.sightings_le
  cases hinner : a.inner with
  | returned outcome =>
    have hends : a.ends s.toAccounting = outcome.terminal := by
      rw [Attempt.ends, Attempt.receiveObject, hinner]
      dsimp only
      split_ifs <;> rfl
    rw [accounted_of_ends (by rw [Attempt.sighting, hinner]; rfl) (by rw [Attempt.storageExc, hinner]) ?_ hle, hends,
      OrderlyAttempt, hinner]
    intro hterminal
    rw [hends] at hterminal
    rw [Attempt.receiveObject, hinner]
    dsimp only
    rw [if_pos hterminal, Attempt.clearRetryStateQuiet]
    split_ifs <;> rfl
  | cliError code =>
    have hrun : a.receiveObject s.toAccounting = a.onError s.toAccounting code := by
      rw [Attempt.receiveObject, hinner]
    rw [accounted_of_ends (by rw [Attempt.sighting, hinner]; rfl) (by rw [Attempt.storageExc, hinner]) ?_ hle,
      Attempt.ends, hrun, a.onError_ends, OrderlyAttempt, hinner]
    rw [hrun, a.onError_retry]
    exact fun _ => rfl
  | unexpected =>
    have hrun : a.receiveObject s.toAccounting = a.onError s.toAccounting "receive_error" := by
      rw [Attempt.receiveObject, hinner]
    rw [accounted_of_ends (by rw [Attempt.sighting, hinner]; rfl) (by rw [Attempt.storageExc, hinner]) ?_ hle,
      Attempt.ends, hrun, a.onError_ends, OrderlyAttempt, hinner]
    rw [hrun, a.onError_retry]
    exact fun _ => rfl
  | storageError exc =>
    rw [accounted_of_storageExc exc (by rw [Attempt.storageExc, hinner]) hle, OrderlyAttempt, hinner]
  | unknownFutureEpoch raises =>
    cases raises with
    | none => exact accounted_of_sighting hinner h.sightings_le hle
    | some exc =>
      rw [accounted_of_storageExc exc (by rw [Attempt.storageExc, hinner]) hle, OrderlyAttempt, hinner]

theorem accounted_next_of_ne (hne : a.object ≠ object) :
    Accounted ((ReceiverAction.attempt a).next s) object ↔ Accounted s object := by
  have hseen := (seen_next (s := s) a object).trans (if_neg hne)
  have hholds : Holds ((ReceiverAction.attempt a).next s).retry object ↔ Holds s.retry object := by
    rw [holds_iff, holds_iff]
    refine exists_congr (fun reason => ?_)
    show ((a.receiveObject s.toAccounting).2.retry.find (object, reason)).isSome ↔ _
    rw [a.find_receiveObject_of_ne s.toAccounting (fun h => hne h.symm)]
  constructor
  · intro h
    exact ⟨hseen ▸ h.sightings_le, hseen ▸ h.transients_lt, hseen ▸ h.patient,
      fun hold => hseen ▸ h.open_of_holds (hholds.mpr hold)⟩
  · intro h
    exact ⟨hseen ▸ h.sightings_le, hseen ▸ h.transients_lt, hseen ▸ h.patient,
      fun hold => hseen ▸ h.open_of_holds (hholds.mp hold)⟩

theorem Counted.attempt (h : ∀ object, Counted s object) (horderly : OrderlyAttempt s a) (object : ObjectKey) :
    Counted ((ReceiverAction.attempt a).next s) object := by
  by_cases hne : a.object = object
  · have hacc := (accounted_next_iff (h a.object)).mpr horderly
    rw [← hne]
    refine ⟨hacc, ?_⟩
    have hseen := (seen_next (s := s) a a.object).trans (if_pos rfl)
    cases hends : a.ends s.toAccounting with
    | true =>
      rw [sightings_of_not_holds ((accounted_of_terminal hseen hends).mp hacc).1]
      exact Nat.zero_le _
    | false =>
      rw [hseen, sightingsSince, current_cons (s.seen a.object) (show Seen.terminal ⟨a, a.ends s.toAccounting⟩ = false from hends),
        List.countP_cons]
      exact (a.sightings_receiveObject_le s.toAccounting).trans
        (Nat.add_le_add_right (h a.object).sightings_le _)
  · refine ⟨(accounted_next_of_ne hne).mpr (h object).accounted, ?_⟩
    rw [(seen_next (s := s) a object).trans (if_neg hne), sightings]
    show (((a.receiveObject s.toAccounting).2.retry.find _).map _).getD 0 ≤ _
    rw [a.find_receiveObject_of_ne s.toAccounting (fun h => hne h.symm)]
    exact (h object).sightings_le

end attempt

/-- The accounting holds up in every state along a run exactly when every attempt of the run is
orderly. -/
theorem retry_accounting_iff (as : List ReceiverAction) :
    (∀ k s, receiver.run {} (as.take k) = some s → ∀ object, Accounted s object) ↔ receiver.okRun Orderly {} as := by
  have hrun : ∀ (as : List ReceiverAction) (s : Receiver), ∃ t, receiver.run s as = some t := by
    intro as
    induction as with
    | nil => exact fun s => ⟨s, rfl⟩
    | cons a as ih => exact fun s => ih (a.next s)
  obtain ⟨t, ht⟩ := hrun as {}
  refine Machine.always_iff_okRun (I := fun s => ∀ object, Counted s object) (fun s h object => (h object).accounted)
    ?_ ?_ ?_ ht
  · intro s a t h hok hstep
    rw [← Option.some.inj hstep]
    cases a with
    | attempt a => exact Counted.attempt h hok
    | restart =>
      intro object
      have hacc := (h object).accounted
      exact ⟨⟨hacc.sightings_le, hacc.transients_lt, hacc.patient, hacc.open_of_holds⟩, (h object).sightings_le⟩
  · intro s a t h hstep hacc
    rw [← Option.some.inj hstep] at hacc
    cases a with
    | attempt a => exact (accounted_next_iff (h a.object)).mp (hacc a.object)
    | restart => trivial
  · intro object
    have hrows : ¬Holds (Table.empty : RetryState) object := fun ⟨r, hr, _⟩ => absurd hr List.not_mem_nil
    exact ⟨⟨Nat.zero_le _, Nat.zero_lt_succ _, fun e h hseen => absurd hseen (by simp [Receiver.seen]),
      fun hold => absurd hold hrows⟩, Nat.zero_le _⟩

/-- A receive that finds the database locked. -/
def lockedAttempt : ReceiverAction :=
  .attempt { object := ("r", "o"), inner := .storageError (.operationalError "database is locked") }

/-- A receive of an object of an unknown epoch. -/
def sightedAttempt : ReceiverAction := .attempt { object := ("r", "o"), inner := .unknownFutureEpoch none }

/-- Nine times the database is locked, then the epoch is unknown, then the database is locked once more:
the object is given up over ten failures in a row, and its rows stay. -/
theorem transients_not_in_a_row :
    ¬∀ (as : List ReceiverAction) (k : ℕ) (s : Receiver), receiver.run {} (as.take k) = some s →
      ∀ object, Accounted s object := by
  intro h
  have hacc := h (List.replicate 9 lockedAttempt ++ [sightedAttempt, lockedAttempt]) 11 _ rfl ("r", "o")
  have hpatient := (hacc.patient _ _ rfl (by decide)).2 (by decide)
  exact absurd hpatient (by decide)

end MuseAgentSocial.Cli.Retry
