import MuseAgentSocial.Lib.Machine
import MuseAgentSocial.Transports.Git

/-!
# The watcher cycle

A model of `watcher.py`: `run_once` with the git transport, cut at the
points where the peer can push.  A cycle is five steps.

* `probe`: load the watcher state, apply the poll throttle and the retry
  backoff, ask the policy, read `head()` and decide whether there is work.
* `scan`: `_receive_stream`, one fetch and one pass over the listed names.
* `flush`: push the queued mutations.
* `readHead`: the second `head()`.
* `checkpoint`: the checkpoint decision and the state write.

Between any two of them the peer can push (`peerPush`) and the process can
die (`crash`).  Every answer of the environment is an argument of the step:
the clock, the policy, the exit status of every git call, what `receive_fn`
returns for each object.  `World.log` is the history of the objects handed
to the visitor; no modelled function reads it.
-/

namespace MuseAgentSocial.Watcher

open Policy Transports

/-! ## Watcher state -/

/-- `_default_watcher_state`.  The marker `0` is the empty marker. -/
structure WatcherState where
  last_successful_head : Nat := 0
  retry_pending : Nat := 0
  consecutive_failures : Nat := 0
  next_retry_at : Option Nat := none
  last_poll_at : Nat := 0
  deriving DecidableEq, Repr

/-- The outcomes `receive_fn` may report. -/
inductive Outcome where
  | accepted
  | quarantined
  | retry_pending
  deriving DecidableEq, Repr

/-- A terminal outcome is any but `retry_pending`. -/
def Outcome.terminal : Outcome → Bool
  | .retry_pending => false
  | _ => true

/-- What calling `receive_fn` can do: raise, return a document whose outcome
is none of the three, return one whose counters are no numbers, or report an
outcome. -/
inductive ReceiveReply where
  | raised
  | badOutcome
  | badCounts
  | reported (outcome : Outcome)
  deriving DecidableEq, Repr

/-- How the visitor disposed of one object. -/
inductive Disposal where
  /-- `receive_fn` got the bytes and reported an outcome. -/
  | received (outcome : Outcome)
  /-- The object is over the size cap: quarantined without `receive_fn`. -/
  | oversized
  deriving DecidableEq, Repr

/-- The object needs no further visit. -/
def Disposal.terminal : Disposal → Bool
  | .received o => o.terminal
  | .oversized => true

/-- One visited object: its name, the bytes in the relay tree, and what
became of it. -/
structure Visited where
  name : ObjectName
  data : Blob
  disposal : Disposal

/-! ## The visitor of `_receive_stream` -/

/-- Everything the environment answers during one scan. -/
structure ScanEnv where
  /-- The mirror lock, the clone and `git fetch`; `none` is success. -/
  fetchError : Option TransportError
  /-- The exit status of `git diff`. -/
  diffOk : Bool
  /-- `git cat-file -s` fails on this name. -/
  sizeFails : ObjectName → Bool
  /-- `git cat-file -p` fails on this name. -/
  readFails : ObjectName → Bool
  /-- The time budget is spent at the `i`-th visit. -/
  spent : Nat → Bool
  /-- `receive_fn`. -/
  receive : ObjectName → Blob → ReceiveReply
  /-- `transport.consume`; `none` is success. -/
  consumeError : ObjectName → Option TransportError

/-- The state the visitor closes over, with the mutation queue. -/
structure Visit where
  visits : Nat := 0
  accepted : Nat := 0
  quarantined : Nat := 0
  retry_pending : Nat := 0
  budget_hit : Bool := false
  fatal : Option Nat := none
  queue : List Mutation
  log : List Visited

/-- `transport.consume` and the visitor's answer. -/
def Visit.consume (env : ScanEnv) (v : Visit) (name : ObjectName) : Visit × Bool :=
  match env.consumeError name with
  | some e => ({ v with fatal := some e.exitCode }, false)
  | none => ({ v with queue := v.queue ++ [.consume name] }, true)

/-- `visit` of `_receive_stream`.  `blob` is the content of the object in
the relay tree, of which `data` is what the stream delivers. -/
def visit (env : ScanEnv) (blob : ObjectName → Blob) (v₀ : Visit) (name : ObjectName)
    (data : Blob) : Visit × Bool :=
  let v := { v₀ with visits := v₀.visits + 1 }
  if env.spent v₀.visits then
    ({ v with budget_hit := true }, false)
  else if OBJECT_MAX_BYTES < data.length then
    Visit.consume env
      { v with
        quarantined := v.quarantined + 1
        log := v.log ++ [Visited.mk name (blob name) .oversized] } name
  else
    match env.receive name data with
    | .raised | .badOutcome | .badCounts => ({ v with fatal := some 21 }, false)
    | .reported outcome =>
      let v' := { v with log := v.log ++ [Visited.mk name (blob name) (.received outcome)] }
      match outcome with
      | .retry_pending => ({ v' with retry_pending := v'.retry_pending + 1 }, true)
      | .accepted => Visit.consume env { v' with accepted := v'.accepted + 1 } name
      | .quarantined => Visit.consume env { v' with quarantined := v'.quarantined + 1 } name

/-- The reads of one scan: a failing `cat-file` or the content in `tree`. -/
def ScanEnv.reads (env : ScanEnv) (tree : Tree) : Reads where
  size n := if env.sizeFails n then none else (tree.get n).map List.length
  content n := if env.readFails n then none else tree.get n

/-- The content of a path, the empty file when there is none. -/
def blobAt (tree : Tree) (n : ObjectName) : Blob := (tree.get n).getD []

/-- The stream of one scan over the names listed at `ref`. -/
def receiveStream (env : ScanEnv) (r : Relay) (since ref : Nat) (v : Visit) :
    StreamStats × Visit :=
  fetchNewStream (env.reads (r.treeAt ref)) (visit env (blobAt (r.treeAt ref)))
    (listNewNames r since ref env.diffOk) {} v

/-! ## The cycle -/

/-- What the rest of the cycle reads of the scan. -/
structure ScanInfo where
  retry_pending : Nat
  budget_hit : Bool
  truncated : Bool
  deriving DecidableEq, Repr

/-- Where the watcher process stands between two steps. -/
inductive Phase where
  | idle
  | probed
  | scanned (info : ScanInfo)
  | flushed (info : ScanInfo)
  | headRead (info : ScanInfo) (new_remote : Nat)
  deriving DecidableEq, Repr

/-- The relay, this side's mutation queue and watcher state, the watcher
process, and the history of visited objects. -/
structure World where
  relay : Relay := []
  queue : List Mutation := []
  state : WatcherState := {}
  phase : Phase := .idle
  /-- The exit code of the last finished cycle. -/
  exit : Option Nat := none
  log : List Visited := []

/-- Save the watcher state and end the cycle with an exit code. -/
def World.finish (w : World) (state : WatcherState) (code : Nat) : World :=
  { w with state := state, phase := .idle, exit := some code }

/-- What `policy_callback` can do. -/
inductive PolicyReply where
  | raised
  | notMapping
  | ok
  deriving DecidableEq, Repr

/-- The first part of `_run_once_locked`, up to the receive phase. -/
def probe (w : World) (now min_poll_interval : Nat) (policy : PolicyReply)
    (headError : Option TransportError) : World :=
  let state := w.state
  if now < state.last_poll_at + min_poll_interval then
    { w with phase := .idle, exit := some 0 }
  else if 0 < state.retry_pending ∧ (state.next_retry_at.any (fun t => decide (now ≤ t))) then
    w.finish state 0
  else
    let state := { state with last_poll_at := now }
    match policy with
    | .raised | .notMapping => w.finish state 21
    | .ok =>
      match headError with
      | some e => w.finish state e.exitCode
      | none =>
        if w.relay.head ≠ state.last_successful_head ∨ 0 < state.retry_pending ∨
            0 < w.queue.length then
          { w with state := state, phase := .probed }
        else
          w.finish state 0

/-- The receive phase: fetch, list against `last_successful_head`, visit. -/
def scan (w : World) (env : ScanEnv) : World :=
  match env.fetchError with
  | some e => w.finish w.state e.exitCode
  | none =>
    let out := receiveStream env w.relay w.state.last_successful_head w.relay.head
      { queue := w.queue, log := w.log }
    let w := { w with queue := out.2.queue, log := out.2.log }
    match out.2.fatal with
    | some code => w.finish w.state code
    | none =>
      { w with phase := .scanned ⟨out.2.retry_pending, out.2.budget_hit, out.1.truncated⟩ }

/-- What a flush of a non-empty queue can do: wait for the soft push
interval, fail, push, or push and die before the rows are marked done. -/
inductive FlushReply where
  | deferred
  | failed (e : TransportError)
  | pushed
  | pushedThenCrash
  deriving DecidableEq, Repr

/-- The commit a push makes: none when the replay changes nothing. -/
def World.push (w : World) : Relay :=
  let tree := replayQueued w.queue w.relay.tip
  if tree.entries = w.relay.tip.entries then w.relay else w.relay ++ [tree]

/-- The push phase.  A push that succeeds was made on the current tip, since
git refuses any other. -/
def flush (w : World) (info : ScanInfo) (reply : FlushReply) : World :=
  if w.queue = [] then
    { w with phase := .flushed info }
  else
    match reply with
    | .deferred => { w with phase := .flushed info }
    | .failed e => w.finish w.state e.exitCode
    | .pushed => { w with relay := w.push, queue := [], phase := .flushed info }
    | .pushedThenCrash => { w with relay := w.push, phase := .idle }

/-- The second `head()`. -/
def readHead (w : World) (info : ScanInfo) (headError : Option TransportError) : World :=
  match headError with
  | some e => w.finish w.state e.exitCode
  | none => { w with phase := .headRead info w.relay.head }

/-- The checkpoint decision.  `retry_at` is the jittered backoff instant. -/
def checkpoint (w : World) (info : ScanInfo) (new_remote now retry_at : Nat) : World :=
  let state := w.state
  let pending := info.retry_pending + w.queue.length
  if info.budget_hit ∨ info.truncated then
    w.finish
      { state with
        retry_pending := info.retry_pending
        consecutive_failures := state.consecutive_failures + 1
        next_retry_at := some now }
      (if info.budget_hit then 23 else 20)
  else if pending = 0 then
    w.finish
      { state with
        last_successful_head := new_remote
        retry_pending := 0
        consecutive_failures := 0
        next_retry_at := none } 0
  else
    w.finish
      { state with
        retry_pending := info.retry_pending
        consecutive_failures := state.consecutive_failures + 1
        next_retry_at := some retry_at } 20

/-! ## The machine -/

/-- One step of the watcher process, of the peer, or a crash. -/
inductive Action where
  | peerPush (objects : List (ObjectName × Blob))
  | probe (now min_poll_interval : Nat) (policy : PolicyReply)
      (headError : Option TransportError)
  | scan (env : ScanEnv)
  | flush (reply : FlushReply)
  | readHead (headError : Option TransportError)
  | checkpoint (now retry_at : Nat)
  | crash

/-- The names of a push are pairwise different and no tree has had them. -/
def FreshNames (r : Relay) (objects : List (ObjectName × Blob)) : Prop :=
  (objects.map Prod.fst).Nodup ∧ ∀ o ∈ objects, o.1 ∉ r.usedNames

instance (r : Relay) (objects : List (ObjectName × Blob)) :
    Decidable (FreshNames r objects) :=
  inferInstanceAs (Decidable (_ ∧ _))

theorem names_tip_subset (r : Relay) {n : ObjectName} (h : n ∈ r.tip.names) :
    n ∈ r.usedNames := by
  unfold Relay.tip Relay.head at h
  cases hr : r.length with
  | zero => rw [hr] at h; simp [Relay.treeAt, Tree.empty, Tree.names] at h
  | succ k =>
    rw [hr] at h
    have hk : k < r.length := by omega
    simp only [Relay.treeAt, List.getElem?_eq_getElem hk, Option.getD_some] at h
    exact List.mem_flatMap.mpr ⟨_, List.getElem_mem hk, h⟩

/-- The tip with new objects added. -/
def pushTree (r : Relay) (objects : List (ObjectName × Blob))
    (h : FreshNames r objects) : Tree where
  entries := r.tip.entries ++ objects
  nodup := by
    rw [List.map_append, List.nodup_append]
    refine ⟨r.tip.nodup, h.1, ?_⟩
    rintro a ha b hb rfl
    obtain ⟨o, ho, rfl⟩ := List.mem_map.mp hb
    exact h.2 o ho (names_tip_subset r ha)

/-- One step.  A watcher step is enabled only where the process stands. -/
def step (w : World) : Action → Option World
  | .peerPush objects =>
    if h : FreshNames w.relay objects then
      some { w with relay := w.relay ++ [pushTree w.relay objects h] }
    else none
  | .probe now interval policy headError =>
    match w.phase with
    | .idle => some (probe w now interval policy headError)
    | _ => none
  | .scan env =>
    match w.phase with
    | .probed => some (scan w env)
    | _ => none
  | .flush reply =>
    match w.phase with
    | .scanned info => some (flush w info reply)
    | _ => none
  | .readHead headError =>
    match w.phase with
    | .flushed info => some (readHead w info headError)
    | _ => none
  | .checkpoint now retry_at =>
    match w.phase with
    | .headRead info new_remote => some (checkpoint w info new_remote now retry_at)
    | _ => none
  | .crash => some { w with phase := .idle }

/-- The watcher and its peer, from an empty relay and the default state. -/
def machine : Machine World Action where
  init w := w = {}
  step := step

end MuseAgentSocial.Watcher
