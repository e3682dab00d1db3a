import Mathlib.Algebra.GroupWithZero.Nat
import Mathlib.Data.List.Sort
import MuseAgentSocial.Lib.Machine
import MuseAgentSocial.Lib.Table
import MuseAgentSocial.Transports.Git

/-!
# The push algorithm of the git relay transport

A model of `queue_mutation`, `flush` and `_push_once` of one relationship.

* `World` holds the rows of `transport_mutations`, the relay and the flush that is under
  way.  The mirror lock lets one flush run at a time, and the mirror itself is rebuilt by
  each attempt, so the progress of a flush is all that is left of it.
* `World.next` is one step: a call of `queue_mutation` by any process, a commit of the
  peer, or the next statement of the flush with the answer of git.  `World.Step` has its
  branches.
* `Staging` is what git makes of the work tree.  What git ignores there is decided by the
  commits of the peer, among others, so it is a choice of the environment.
* A push is accepted when the relay still has the commit that it was based on.
-/

namespace MuseAgentSocial.Transports

/-- The id of a row of `transport_mutations`. -/
abbrev MutationId := Nat

/-- `relationship_id` -/
abbrev RelationshipId := String

/-- A row of `transport_mutations`.  Its state is `queued` or `done`. -/
structure MutationRow where
  id : MutationId
  relationship_id : RelationshipId
  mutation : Mutation
  done : Bool := false
  deriving DecidableEq

/-- `object_name` -/
def Mutation.name : Mutation → ObjectName
  | .upload name _ => name
  | .consume name => name

/-- The content that a mutation leaves at its path. -/
def Mutation.content : Mutation → Option Blob
  | .upload _ data => some data
  | .consume _ => none

def Mutation.isUpload : Mutation → Bool
  | .upload _ _ => true
  | .consume _ => false

/-! ## Limits -/

/-- `PUSH_SOFT_INTERVAL_SECONDS` -/
def PUSH_SOFT_INTERVAL_SECONDS : Nat := 60

/-- `PUSH_HARD_CEILING_PER_MINUTE` -/
def PUSH_HARD_CEILING_PER_MINUTE : Nat := 6

/-- `PUSH_MAX_ATTEMPTS` -/
def PUSH_MAX_ATTEMPTS : Nat := 3

/-- `REPO_BLOCK_BYTES` -/
def REPO_BLOCK_BYTES : Nat := 250 * 1024 * 1024

/-- `REPO_ROTATE_BYTES` -/
def REPO_ROTATE_BYTES : Nat := 500 * 1024 * 1024

/-- `check_repo_size`, without the warning. -/
def checkRepoSize (size_bytes : Nat) (has_uploads : Bool) : Except TransportError Unit :=
  if REPO_ROTATE_BYTES ≤ size_bytes then .error ⟨.rotation_required, false⟩
  else if has_uploads ∧ REPO_BLOCK_BYTES ≤ size_bytes then .error ⟨.repo_size_blocked, false⟩
  else .ok ()

/-! ## The state -/

/-- How a flush ends. -/
inductive FlushResult where
  | nothing_queued
  | deferred
  | noop
  | pushed
  | raised (e : TransportError)
  deriving DecidableEq, Repr

/-- The progress of a flush.  `queued` are the ids that it has read first. -/
inductive Flush where
  | fetch (attempt : Nat) (queued : List MutationId)
  /-- The mirror is reset to the commit `base`. -/
  | replay (attempt : Nat) (queued : List MutationId) (base : Nat)
  /-- The tree is committed on `base`. -/
  | push (attempt : Nat) (queued : List MutationId) (base : Nat) (tree : Tree) (applied : List MutationId)
  | mark (applied : List MutationId) (pushed : Bool)
  /-- The insert into `transport_push_log`. -/
  | log

/-- The state of one side with its relay. -/
structure World where
  transport_mutations : Table MutationRow.id := Table.empty
  /-- The next id that SQLite assigns. -/
  next_id : MutationId := 1
  transport_push_log : List Nat := []
  relay : Relay := []
  flush : Option Flush := none
  /-- How the last flush ended. -/
  result : Option FlushResult := none

/-- `SELECT … WHERE relationship_id = ? AND state = 'queued' ORDER BY id` -/
def World.queued (w : World) (rid : RelationshipId) : List MutationRow :=
  (w.transport_mutations.rows.filter (fun r => r.relationship_id = rid ∧ r.done = false)).insertionSort
    (fun r r' => r.id ≤ r'.id)

/-- Equal content at every path. -/
def Tree.same (t t' : Tree) : Bool := (t.names ++ t'.names).all (fun name => t.get name = t'.get name)

/-! ## The operations -/

/-- `queue_mutation` -/
def queueMutation (w : World) (rid : RelationshipId) (mutation : Mutation) : Except TransportError World :=
  if objectNameRe mutation.name = false then .error ⟨.config_error, false⟩
  else if Policy.OBJECT_MAX_BYTES < (mutation.content.elim 0 List.length) then .error ⟨.object_too_large, false⟩
  else .ok { w with
    transport_mutations := w.transport_mutations.insertOrIgnore ⟨w.next_id, rid, mutation, false⟩
    next_id := w.next_id + 1 }

/-- `replay_queued` on the rows that it reads: the tree with the ids applied. -/
def replayRows (rows : List MutationRow) (tree : Tree) : Except TransportError (Tree × List MutationId) :=
  if rows.any (fun r => objectNameRe r.mutation.name = false) then .error ⟨.config_error, false⟩
  else .ok (replayQueued (rows.map (·.mutation)) tree, rows.map (·.id))

/-- `mark_mutations_done` -/
def markMutationsDone (rows : Table MutationRow.id) (ids : List MutationId) : Table MutationRow.id :=
  rows.map (fun r => if r.id ∈ ids then { r with done := true } else r) (fun r => by split_ifs <;> rfl)

/-- `_check_push_rate`: the log that is left, and whether the flush is deferred. -/
def checkPushRate (log : List Nat) (now : Nat) : List Nat × Except TransportError Bool :=
  let recent := log.filter (fun pushed_at => now ≤ pushed_at + 60)
  (recent,
    if PUSH_HARD_CEILING_PER_MINUTE ≤ recent.length then .error ⟨.push_rate_limited, true⟩
    else .ok (recent.max?.any (fun last => now < last + PUSH_SOFT_INTERVAL_SECONDS)))

/-- The flush ends. -/
def World.finish (w : World) (result : FlushResult) : World := { w with flush := none, result := some result }

/-- The first statements of `flush`. -/
def World.begin (w : World) (rid : RelationshipId) (now : Nat) : World :=
  let queued := (w.queued rid).map (·.id)
  if queued = [] then w.finish .nothing_queued
  else
    let (log, rate) := checkPushRate w.transport_push_log now
    let w := { w with transport_push_log := log }
    match rate with
    | .error e => w.finish (.raised e)
    | .ok true => w.finish .deferred
    | .ok false => { w with flush := some (.fetch 0 queued) }

/-- What `git add -A` and `git status --porcelain` make of the work tree. -/
structure Staging where
  /-- The paths that git passes over while they are untracked: a `.gitignore` of the peer, or
  an exclude of the mirror or of the user, names them. -/
  ignored : List ObjectName := []
  /-- What git stores for the content of a file, after the conversions of its attributes. -/
  stored : ObjectName → Blob → Blob := fun _ data => data
  /-- `git status` fails, and prints nothing. -/
  status_fails : Bool := false

/-- The index after `git add -A` on a checkout of `base`. -/
def Staging.index (git : Staging) (base tree : Tree) : Tree where
  entries := (tree.entries.filter (fun e => e.1 ∈ base.names ∨ e.1 ∉ git.ignored)).map
    (fun e => (e.1, git.stored e.1 e.2))
  nodup := by
    rw [List.map_map]
    exact tree.nodup.sublist (List.filter_sublist.map Prod.fst)

/-- The files that mutations upload. -/
def uploads (ms : List Mutation) : List (ObjectName × Blob) :=
  ms.filterMap (fun m => m.content.map (fun data => (m.name, data)))

/-- Git stages the work tree as it is: it does not pass over an upload to an untracked path,
and converts no file. -/
def Staging.Plain (git : Staging) (base : Tree) (ms : List Mutation) : Prop :=
  git.status_fails = false ∧ (∀ e ∈ uploads ms, e.1 ∈ git.ignored → e.1 ∈ base.names) ∧
    ∀ e ∈ base.entries ++ uploads ms, git.stored e.1 e.2 = e.2

instance (git : Staging) (base : Tree) (ms : List Mutation) : Decidable (git.Plain base ms) := by
  unfold Staging.Plain
  infer_instance

/-- Step 2 of `_push_once`, with the size of the mirror. -/
def World.sizeAlarm (w : World) (queued : List MutationId) (size : Nat) : Except TransportError Unit :=
  let rows := w.transport_mutations.rows.filter (fun r => r.id ∈ queued)
  let has_uploads := rows.any (·.mutation.isUpload)
  let upload_bytes := (rows.map (fun r => r.mutation.content.elim 0 List.length)).sum
  checkRepoSize (size + upload_bytes) has_uploads

/-- Steps 2 and 3 of `_push_once`. -/
def World.replay (w : World) (rid : RelationshipId) (attempt : Nat) (queued : List MutationId) (base size : Nat)
    (git : Staging) : World :=
  match w.sizeAlarm queued size with
  | .error e => w.finish (.raised e)
  | .ok () =>
    match replayRows (w.queued rid) (w.relay.treeAt base) with
    | .error e => w.finish (.raised e)
    | .ok (tree, applied) =>
      let index := git.index (w.relay.treeAt base) tree
      -- What `git status` prints is read, and its exit status is not.
      if git.status_fails = true ∨ index.same (w.relay.treeAt base) = true then { w with flush := some (.mark applied false) }
      else { w with flush := some (.push attempt queued base index applied) }

/-- The answer of `git push`. -/
inductive PushOutcome where
  /-- The relay decides, and git reports it. -/
  | answered
  /-- The relay decides, and git reports an error. -/
  | unreported
  | failed
  deriving DecidableEq, Repr

/-- Step 4 of `_push_once`, with the retry of `flush`. -/
def World.push (w : World) (attempt : Nat) (queued : List MutationId) (base : Nat) (tree : Tree)
    (applied : List MutationId) (outcome : PushOutcome) : World :=
  -- The commit fast-forwards the branch when its parent is still the tip.
  let accepted := decide (w.relay.head = base) && decide (outcome ≠ .failed)
  let w := if accepted then { w with relay := w.relay ++ [tree] } else w
  match outcome with
  | .answered =>
    if accepted then { w with flush := some (.mark applied true) }
    else if attempt < PUSH_MAX_ATTEMPTS - 1 then { w with flush := some (.fetch (attempt + 1) queued) }
    else w.finish (.raised ⟨.push_non_fast_forward, true⟩)
  | .unreported | .failed => w.finish (.raised ⟨.push_failed, true⟩)

/-- What happens next. -/
inductive RelayAction where
  | queue (rid : RelationshipId) (mutation : Mutation)
  /-- The peer commits a tree. -/
  | peer (tree : Tree)
  | flush (now : Nat)
  | fetch
  | replay (size : Nat) (git : Staging)
  | push (outcome : PushOutcome)
  | mark
  | log (now : Nat)
  /-- A git command of the flush fails whose exit status is read, such as the commit after a
  `git add` that has failed. -/
  | fail (code : TransportCode)
  /-- The process of the flush dies, which releases the lock. -/
  | crash

/-- One step of the side of a relationship. -/
def World.next (rid : RelationshipId) (w : World) : RelayAction → Option World
  | .queue rid' mutation => (queueMutation w rid' mutation).toOption
  | .peer tree => some { w with relay := w.relay ++ [tree] }
  | .flush now => if w.flush.isNone then some (w.begin rid now) else none
  | .fetch =>
    match w.flush with
    | some (.fetch attempt queued) => some { w with flush := some (.replay attempt queued w.relay.head) }
    | _ => none
  | .replay size git =>
    match w.flush with
    | some (.replay attempt queued base) => some (w.replay rid attempt queued base size git)
    | _ => none
  | .push outcome =>
    match w.flush with
    | some (.push attempt queued base tree applied) => some (w.push attempt queued base tree applied outcome)
    | _ => none
  | .mark =>
    match w.flush with
    | some (.mark applied pushed) =>
      let w := { w with transport_mutations := markMutationsDone w.transport_mutations applied }
      some (if pushed then { w with flush := some .log } else w.finish .noop)
    | _ => none
  | .log now =>
    match w.flush with
    | some .log => some ({ w with transport_push_log := w.transport_push_log ++ [now] }.finish .pushed)
    | _ => none
  | .fail code =>
    match w.flush with
    | some (.fetch _ _) | some (.replay _ _ _) | some (.push _ _ _ _ _) => some (w.finish (.raised ⟨code, true⟩))
    | _ => none
  | .crash => if w.flush.isSome then some { w with flush := none } else none

/-- What a step does, with one constructor for each branch. -/
inductive World.Step (rid : RelationshipId) (w : World) : RelayAction → World → Prop where
  | queue {rid' : RelationshipId} {mutation : Mutation} {w' : World} (h : queueMutation w rid' mutation = .ok w') :
      Step rid w (.queue rid' mutation) w'
  | peer {tree : Tree} : Step rid w (.peer tree) { w with relay := w.relay ++ [tree] }
  | flush {now : Nat} (h : w.flush = none) : Step rid w (.flush now) (w.begin rid now)
  | fetch {attempt : Nat} {queued : List MutationId} (h : w.flush = some (.fetch attempt queued)) :
      Step rid w .fetch { w with flush := some (.replay attempt queued w.relay.head) }
  | replay {attempt base size : Nat} {queued : List MutationId} {git : Staging}
      (h : w.flush = some (.replay attempt queued base)) :
      Step rid w (.replay size git) (w.replay rid attempt queued base size git)
  | push {attempt base : Nat} {queued applied : List MutationId} {tree : Tree} {outcome : PushOutcome}
      (h : w.flush = some (.push attempt queued base tree applied)) :
      Step rid w (.push outcome) (w.push attempt queued base tree applied outcome)
  | marked {applied : List MutationId} (h : w.flush = some (.mark applied true)) :
      Step rid w .mark { w with
        transport_mutations := markMutationsDone w.transport_mutations applied, flush := some .log }
  | noop {applied : List MutationId} (h : w.flush = some (.mark applied false)) :
      Step rid w .mark
        ({ w with transport_mutations := markMutationsDone w.transport_mutations applied }.finish .noop)
  | log {now : Nat} (h : w.flush = some .log) :
      Step rid w (.log now) ({ w with transport_push_log := w.transport_push_log ++ [now] }.finish .pushed)
  | fail {code : TransportCode} (h : w.flush.isSome = true) :
      Step rid w (.fail code) (w.finish (.raised ⟨code, true⟩))
  | crash (h : w.flush.isSome = true) : Step rid w .crash { w with flush := none }

theorem World.step_of_next {rid : RelationshipId} {w w' : World} {a : RelayAction} (h : w.next rid a = some w') :
    World.Step rid w a w' := by
  unfold World.next at h
  cases a with
  | queue rid' mutation =>
    cases hq : queueMutation w rid' mutation with
    | error e => simp [hq, Except.toOption] at h
    | ok w₁ =>
      obtain rfl : w₁ = w' := by simpa [hq, Except.toOption] using h
      exact .queue hq
  | peer tree =>
    obtain rfl := Option.some.inj h
    exact .peer
  | flush now =>
    obtain ⟨hidle, rfl⟩ : w.flush = none ∧ w.begin rid now = w' := by simpa using h
    exact .flush hidle
  | fetch =>
    dsimp only at h
    split at h
    · obtain rfl := Option.some.inj h
      exact .fetch (by assumption)
    · cases h
  | replay size git =>
    dsimp only at h
    split at h
    · obtain rfl := Option.some.inj h
      exact .replay (by assumption)
    · cases h
  | push outcome =>
    dsimp only at h
    split at h
    · obtain rfl := Option.some.inj h
      exact .push (by assumption)
    · cases h
  | mark =>
    dsimp only at h
    split at h
    · rename_i applied pushed hflush
      obtain rfl := Option.some.inj h
      cases pushed with
      | true => exact .marked hflush
      | false => exact .noop hflush
    · cases h
  | log now =>
    dsimp only at h
    split at h
    · obtain rfl := Option.some.inj h
      exact .log (by assumption)
    · cases h
  | fail code =>
    have hsome : w.flush.isSome = true ∧ w.finish (.raised ⟨code, true⟩) = w' := by
      dsimp only at h
      split at h <;> simp_all
    obtain ⟨hflush, rfl⟩ := hsome
    exact .fail hflush
  | crash =>
    obtain ⟨hflush, rfl⟩ : w.flush.isSome = true ∧ { w with flush := none } = w' := by simpa using h
    exact .crash hflush

/-- The queue of a relationship on a relay that may hold anything. -/
def relaying (rid : RelationshipId) : Machine World RelayAction where
  init w := ∃ relay, w = { relay }
  step := World.next rid

end MuseAgentSocial.Transports
