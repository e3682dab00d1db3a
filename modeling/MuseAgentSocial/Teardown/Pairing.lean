import MuseAgentSocial.Lib.Machine
import MuseAgentSocial.Teardown.Relationship

/-!
# Pairings and teardowns

The machine of one installation: `mas pair commit` and `mas pair ingest`, which
write `relay.json`, calls of `teardown_relationship` with the hooks of
`mas revoke`, each of which may be interrupted, and the writes of the rest of
the program.

A command opens the database file when it starts, so a command after the file
was deleted finds an empty database.
-/

namespace MuseAgentSocial.Teardown

open Relational Durable

/-- The transport of a pairing. -/
inductive Transport where
  | github
  | local
  deriving DecidableEq, Repr

/-- A pairing: what the command line, the peer and the provider give. -/
structure Pairing where
  relationship_id : RelationshipId
  transport : Transport
  relay_url : String
  private_key_ref : String
  /-- The public deploy key of the acceptor. -/
  deploy_public_key : String
  /-- The ids under which the provider registered the deploy keys. -/
  key_id : Option String
  /-- The inviter's own deploy key and its id. -/
  inviter_public_key : String := ""
  inviter_key_id : Option String := none
  deriving DecidableEq, Repr

/-- A deploy-key entry as the pairing commands write it. -/
def pairedKey (rid : RelationshipId) (id : Option String) (key role : String) : KeyEntry :=
  .dict { id := id, title := some (deployKeyTitle rid), key := some key, role := some role }

/-- The repository entry as the pairing commands write it. -/
def pairedRepo (url : String) : RepoEntry := .dict (some (ownerSlashName url)) (some "github")

/-- What `mas pair commit` writes to `relay.json`. -/
def commitDoc (p : Pairing) : RelayDoc :=
  match p.transport with
  | .github =>
    { deploy_keys := [pairedKey p.relationship_id p.key_id p.deploy_public_key "peer",
        pairedKey p.relationship_id p.inviter_key_id p.inviter_public_key "self"],
      repos := [pairedRepo p.relay_url] }
  | .local => ⟨[], []⟩

/-- What `mas pair ingest` writes to `relay.json`. -/
def ingestDoc (p : Pairing) : RelayDoc :=
  match p.transport with
  | .github =>
    { deploy_keys := [pairedKey p.relationship_id p.key_id p.deploy_public_key "self"],
      repos := [pairedRepo p.relay_url] }
  | .local => ⟨[], []⟩

/-- The rows of a new relationship. -/
def relationshipRows (p : Pairing) : List Row :=
  [⟨.relationships, [(.relationship_id, .text p.relationship_id), (.consent_state, .text "pending")]⟩,
    ⟨.key_epochs, [(.relationship_id, .text p.relationship_id), (.epoch, .text "1"),
      (.private_key_ref, .text p.private_key_ref)]⟩]

/-- The row of `deploy_key_registry`. -/
def registryRow (p : Pairing) : Row :=
  ⟨.deploy_key_registry, [(.deploy_public_key, .text p.deploy_public_key),
    (.relationship_id, .text p.relationship_id)]⟩

/-- The row of `relay_config`. -/
def relayConfigRow (p : Pairing) : Row :=
  ⟨.relay_config, [(.relationship_id, .text p.relationship_id), (.repo_url, .text p.relay_url)]⟩

/-- `_save_relay_config`: `INSERT OR REPLACE`. -/
def saveRelayConfig (p : Pairing) (rows : List Row) : List Row :=
  rows.filter (fun r => !(r.table = .relay_config && r.is .relationship_id (.text p.relationship_id))) ++
    [relayConfigRow p]

/-- The relay URL names a repository, where the transport needs one. -/
def Pairing.urlOk (p : Pairing) : Bool :=
  p.transport = .local || ownerSlashName p.relay_url ≠ ""

/-- `_write_relay_json` and `_save_relay_config`, the end of both commands. -/
def writeRelay (p : Pairing) (doc : RelayDoc) (w : World) : World :=
  { w with
    rows := saveRelayConfig p w.rows, relay := some (.doc doc),
    paired := w.paired ++ [(p.relationship_id, doc)],
    recorded := w.recorded ++ [(p.relationship_id, doc)] }

/-- `cmd_pair_commit`, after the invite and the acceptance were checked. -/
def pairCommit (p : Pairing) (w : World) : Option World :=
  if !p.urlOk || (w.relationship p.relationship_id).isSome ||
      (select .deploy_key_registry w.rows).any
        (·.is .deploy_public_key (.text p.deploy_public_key)) then none
  else some (writeRelay p (commitDoc p)
    { w with rows := w.rows ++ relationshipRows p ++ [registryRow p] })

/-- `cmd_pair_ingest`, after the commit was checked.  When the provider refuses
the deploy key, the rows of the relationship are already committed. -/
def pairIngest (p : Pairing) (registered : Bool) (w : World) : Option World :=
  if (w.relationship p.relationship_id).isSome then none
  else
    let w' := { w with rows := w.rows ++ relationshipRows p }
    if p.transport = .github && (!registered || !p.urlOk) then some w'
    else some (writeRelay p (ingestDoc p) w')

/-- A call of `teardown_relationship` with the hooks of `mas revoke`. -/
structure TeardownCall where
  relationship_id : RelationshipId
  token : Option String
  delete_remote : Bool := false
  provider : Nat → Answer
  state_dir : String
  peer_label : Option String := none
  reason_code : String := "operator"
  revoked_at : String
  digest : RelationshipId → String
  image : List Row → List Row → Content
  compaction : Compaction := .complete
  stuck : List String → Bool := fun _ => false
  budget : Budget := none

/-- The document that `_RevokeHooks` reads when it is made. -/
def relayDoc : Option RelayFile → Option RelayDoc
  | some (.doc d) => some d
  | _ => none

/-- The hooks of the call. -/
def TeardownCall.revokeHooks (c : TeardownCall) (w : World) : RevokeHooks :=
  ⟨c.token, c.delete_remote, relayDoc w.relay⟩

/-- The arguments of the call. -/
def TeardownCall.env (c : TeardownCall) (w : World) : Env where
  hooks := (c.revokeHooks w).hooks c.provider
  state_dir := c.state_dir
  peer_label := c.peer_label
  reason_code := c.reason_code
  revoked_at := c.revoked_at
  digest := c.digest
  image := c.image
  compaction := c.compaction
  stuck := c.stuck

/-- The call. -/
def TeardownCall.run (c : TeardownCall) (w : World) : Result Failure Report × Budget × World :=
  teardownRelationship (c.env w) c.relationship_id c.budget w

/-- The call takes up a teardown that has deleted the rows already. -/
def TeardownCall.resumes (c : TeardownCall) (w : World) : Bool :=
  pathSafe c.relationship_id && (w.relationship c.relationship_id).isNone &&
    (w.tombstones.find c.relationship_id).isSome

/-- The state in which a call starts: the relationship of a resumed teardown
counts as torn down. -/
def TeardownCall.begun (c : TeardownCall) (w : World) : World :=
  if c.resumes w then { w with recorded := w.recorded.filter (·.1 ≠ c.relationship_id) } else w

/-- The tables that only the pairing commands and a teardown write. -/
def relayTables : List TableName :=
  [.relationships, .relay_config, .deploy_key_registry, .teardown_hook_log]

/-- One action. -/
inductive Act where
  | pairCommit (p : Pairing)
  | pairIngest (p : Pairing) (registered : Bool)
  | teardown (c : TeardownCall)
  /-- The rest of the program: other rows, other bytes that deleted rows leave,
  and other files. -/
  | other (rows stale : List Row) (files : Table File.path)

/-- The database as a command opens it. -/
def World.opened (w : World) : World :=
  if w.database then w else { w with rows := [], stale := [], database := true }

/-- One command. -/
def step (w : World) : Act → Option World
  | .pairCommit p => Teardown.pairCommit p w.opened
  | .pairIngest p registered => Teardown.pairIngest p registered w.opened
  | .teardown c => some (c.run (c.begun w.opened)).2.2
  | .other rows stale files =>
    some { w.opened with
      rows := w.opened.rows.filter (fun r => decide (r.table ∈ relayTables)) ++
        rows.filter (fun r => !decide (r.table ∈ relayTables)),
      stale := stale, files := files }

/-- A new installation. -/
def start : World := { rows := [] }

/-- The installation. -/
def machine : Machine World Act where
  init := fun w => w = start
  step := step

end MuseAgentSocial.Teardown
