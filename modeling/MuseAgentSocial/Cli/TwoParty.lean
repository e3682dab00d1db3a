import Mathlib.Logic.Function.Basic
import MuseAgentSocial.Cli.Rotate
import MuseAgentSocial.Lib.Machine

/-!
# Two parties over a relay

Two honest parties of one relationship run the rotation protocol and
exchange data events.

* A `Node` is one party: its store, the work its processes have begun and
  not finished, and the objects it has consumed without storing them.
* A step is one committed transaction of one party.  A command that commits
  more than once leaves the rest as a `Task`: `mas rotate --confirm` sends
  the event and then has to call `mark_confirmed`.  A task may run at any
  later time, next to the tasks of other processes, or be dropped, when its
  process dies.
* The relay keeps every envelope, so an envelope may be delivered late, in
  any order and more than once.  A rejected object is consumed.
* `redrive` runs the hooks of a stored rotation event without a marker.
  It is the first run after the receive, the re-drive on a redelivery, and
  the one of the per-poll reconciliation.
-/

namespace MuseAgentSocial.Cli

open Model Crypto Policy RotationManager

/-- The two sides of the relationship. -/
inductive Party where
  | alice
  | bob
  deriving DecidableEq, Repr

/-- The peer. -/
def Party.other : Party → Party
  | .alice => .bob
  | .bob => .alice

/-- The identity of a party. -/
def Party.identity : Party → IdentityId
  | .alice => 0
  | .bob => 1

@[simp] theorem Party.other_other (p : Party) : p.other.other = p := by cases p <;> rfl

@[simp] theorem Party.other_ne (p : Party) : p.other ≠ p := by cases p <;> simp [Party.other]

@[simp] theorem Party.identity_inj {p q : Party} : p.identity = q.identity ↔ p = q := by
  cases p <;> cases q <;> simp [Party.identity]

theorem Party.eq_or_other (p q : Party) : q = p ∨ q = p.other := by
  cases p <;> cases q <;> simp [Party.other]

/-- What a process still has to do after a commit. -/
inductive Task where
  /-- `mas rotate --prepare` after `begin_rotation`. -/
  | sendPrepare (prepare : Prepare)
  /-- The ack after `on_prepare`, followed by the marker in a hook. -/
  | sendAck (ack : Ack) (mark : Bool)
  /-- `mas rotate --confirm` after the send. -/
  | markConfirmed
  /-- `mas rotate --commit` after it sent the commit of `epoch`. -/
  | markCommitted (epoch : Nat)
  /-- `_mark_rotation_processed` after the hooks. -/
  | markProcessed (event_id : EventId)
  /-- The hooks of a stored data event, which are not re-driven. -/
  | dataHooks (event : StoredEvent)
  deriving DecidableEq, Repr

/-- One party. -/
structure Node where
  side : Side
  tasks : List Task := []
  /-- The objects that were consumed without being stored. -/
  rejected : List EventId := []

/-- Both parties, the envelopes on the relay and the supply of fresh event
ids and keys. -/
structure System where
  node : Party → Node
  net : List (Envelope Body)
  nextEvent : EventId
  nextKey : Nat

/-- What a party does in one step. -/
inductive Kind where
  | beginRotation
  | exec (task : Nat)
  | drop (task : Nat)
  | sendData
  | rotateConfirm
  | rotateCommit
  | rotateAck (prepare_event_id : EventId)
  /-- An object of the relay, whose event is numbered so far past the last one stored. -/
  | deliver (index : Nat) (jump : Nat := 1)
  | redrive (event_id : EventId)
  | sweepCompact
  | sweepTimeout
  | sweepRetire (epoch : Nat)
  deriving DecidableEq, Repr

/-- A step: who takes it, when, and what it is. -/
structure Act where
  party : Party
  now : Nat
  kind : Kind
  deriving DecidableEq, Repr

/-- The effect of a step: the node after it, what it sent, and whether it
used up a fresh key. -/
structure Effect where
  node : Node
  sent : List (Envelope Body) := []
  newKey : Bool := false

/-- What the steps of a party depend on besides its own node. -/
structure World where
  me : Party
  net : List (Envelope Body)
  nextEvent : EventId
  nextKey : Nat
  now : Nat

namespace Node

variable (w : World) (n : Node)

/-- Send an event and leave `rest` to do.  A failed send leaves `failed`. -/
def send (body : Body) (rest : List Task) (failed : Raised → List Task) : Effect :=
  match sendEvent n.side w.me.identity w.me.other.identity w.nextEvent body w.now with
  | .ok (side, env) => { node := { n with side := side, tasks := n.tasks ++ rest }, sent := [env] }
  | .error raised => { node := { n with tasks := n.tasks ++ failed raised } }

/-- The marker that follows a hook: a completed hook and a deterministic
rejection are marked, any other failure is left to a later poll. -/
def markAfter (event_id : EventId) : Except Raised HookResult → List Task
  | .ok .done => [.markProcessed event_id]
  | .ok (.reply ack) => [.sendAck ack true]
  | .error (.rotation _) => [.markProcessed event_id]
  | .error _ => []

/-- The marker that a hook leaves after the ack of its prepare; a command
leaves none. -/
def ackMarker (mark : Bool) (prepare_event_id : EventId) : List Task :=
  if mark then [.markProcessed prepare_event_id] else []

/-- Run a task that was taken off the list. -/
def exec : Task → Effect
  | .sendPrepare prepare => send w n (.prepare prepare) [] (fun _ => [])
  | .sendAck ack mark =>
    if ackAlreadySent n.side w.me.identity ack.prepare_event_id then
      { node := { n with tasks := n.tasks ++ ackMarker mark ack.prepare_event_id } }
    else
      send w n (.ack ack) (ackMarker mark ack.prepare_event_id) (fun raised =>
        match raised with
        | .rotation _ => ackMarker mark ack.prepare_event_id
        | _ => [])
  | .markConfirmed => { node := { n with side := (markConfirmed n.side w.now).1 } }
  | .markCommitted _ => { node := { n with side := (markCommitted n.side w.now).1 } }
  | .markProcessed event_id => { node := { n with side := markRotationProcessed n.side event_id } }
  | .dataHooks event => { node := { n with side := (postReceiveHooks n.side event w.now).1 } }

/-- Receive an object of the relay. -/
def receive (env : Envelope Body) (jump : Nat) : Effect :=
  match receiveObject n.side w.me.identity w.me.other.identity env jump w.now with
  | (side, .rejected _) => { node := { n with side := side, rejected := n.rejected ++ [env.event_id] } }
  | (side, .retry_pending) => { node := { n with side := side } }
  | (side, .accepted) =>
    -- The hooks of a data event run once, right after its commit.
    let hooks := if (n.side.events.find env.event_id).isNone ∧ env.payload.isRotation = false then
        ((side.events.find env.event_id).map Task.dataHooks).toList
      else []
    { node := { n with side := side, tasks := n.tasks ++ hooks } }

/-- A stored event of the peer that carries a rotation message. -/
def rotationEvent (event_id : EventId) : Option StoredEvent :=
  (n.side.events.find event_id).filter
    (fun e => e.body.isRotation = true ∧ e.sender ≠ w.me.identity)

/-- The latest prepare of the peer, which `mas rotate --ack` answers. -/
def latestPrepare (event_id : EventId) : Option (StoredEvent × Prepare) :=
  match rotationEvent w n event_id with
  | some ⟨id, sender, created_at, key_epoch, .prepare prepare⟩ =>
    if n.side.events.rows.all (fun e =>
        decide (e.sender = w.me.identity ∨ ¬ (e.body matches .prepare _) ∨ e.created_at ≤ created_at))
    then some (⟨id, sender, created_at, key_epoch, .prepare prepare⟩, prepare)
    else none
  | _ => none

/-- One step of a party, `none` when it cannot be taken. -/
def act : Kind → Option Effect
  | .beginRotation =>
    match beginRotation n.side w.now ⟨w.nextKey⟩ none with
    | (side, .ok (_, prepare)) =>
      some { node := { n with side := side, tasks := n.tasks ++ [.sendPrepare prepare] },
             newKey := true }
    | (side, .error _) => some { node := { n with side := side } }
  | .exec i =>
    (n.tasks[i]?).map (fun task => exec w { n with tasks := n.tasks.eraseIdx i } task)
  | .drop i => if i < n.tasks.length then some { node := { n with tasks := n.tasks.eraseIdx i } } else none
  | .sendData => some (send w n (.data w.nextEvent) [] (fun _ => []))
  | .rotateConfirm =>
    match buildConfirmPayload n.side with
    | .ok epoch => some (send w n (.confirm epoch) [.markConfirmed] (fun _ => []))
    | .error _ => none
  | .rotateCommit =>
    match buildCommitPayload n.side with
    | .ok epoch => some (send w n (.commit epoch) [.markCommitted epoch] (fun _ => []))
    | .error _ => none
  | .rotateAck event_id =>
    (latestPrepare w n event_id).map (fun (event, prepare) =>
      match onPrepare n.side prepare event.event_id w.now with
      | (side, .ok ack) => { node := { n with side := side, tasks := n.tasks ++ [.sendAck ack false] } }
      | (side, .error _) => { node := { n with side := side } })
  | .deliver i jump =>
    match w.net[i]? with
    | some env =>
      if env.sender = w.me.other.identity ∧ env.event_id ∉ n.rejected then
        some (receive w n env jump)
      else none
    | none => none
  | .redrive event_id =>
    if event_id ∈ n.side.rotation_processed_events then none
    else (rotationEvent w n event_id).map (fun event =>
      let r := postReceiveHooks n.side event w.now
      { node := { n with side := r.1, tasks := n.tasks ++ markAfter event_id r.2 } })
  | .sweepCompact => some { node := { n with side := (sweepCompact n.side w.now).1 } }
  | .sweepTimeout => some { node := { n with side := (sweepTimeout n.side w.now).1 } }
  | .sweepRetire epoch =>
    ((committedRotating n.side).find? (·.epoch = epoch)).map (fun row =>
      { node := { n with side := (sweepRetire n.side row w.now).1 } })

end Node

namespace System

/-- The world of a party that acts at an instant. -/
def world (S : System) (p : Party) (now : Nat) : World :=
  ⟨p, S.net, S.nextEvent, S.nextKey, now⟩

/-- The system after the effect of a step of `p`. -/
def apply (S : System) (p : Party) (eff : Effect) : System where
  node := Function.update S.node p eff.node
  net := S.net ++ eff.sent
  nextEvent := S.nextEvent + eff.sent.length
  nextKey := S.nextKey + eff.newKey.toNat

@[simp] theorem apply_node_self (S : System) (p : Party) (eff : Effect) :
    (S.apply p eff).node p = eff.node := by
  simp [apply]

@[simp] theorem apply_node_other (S : System) (p : Party) (eff : Effect) :
    (S.apply p eff).node p.other = S.node p.other := by
  simp [apply]

/-- The machine of the two parties. -/
def machine (init : System → Prop) : Machine System Act where
  init := init
  step S a := (Node.act (S.world a.party a.now) (S.node a.party) a.kind).map (S.apply a.party)

theorem step_eq_some {init : System → Prop} {S T : System} {a : Act} :
    (machine init).step S a = some T ↔
      ∃ eff, Node.act (S.world a.party a.now) (S.node a.party) a.kind = some eff ∧
        S.apply a.party eff = T := by
  simp [machine, Option.map_eq_some_iff]

end System

end MuseAgentSocial.Cli
