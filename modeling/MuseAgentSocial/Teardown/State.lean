import MuseAgentSocial.Lib.Rows
import MuseAgentSocial.Lib.Table
import Mathlib.Data.List.Infix

/-!
# The state that a teardown works on

The database, the state directory and the provider of the relay, as
`teardown.py` sees them.

* The database is a list of rows with the cells that some delete, foreign key
  or query of a teardown reads.  The other cells of a row are its `data`.
* `relay.json`, the teardown journals and the tombstones are kept as data; the
  other files of the state directory are texts.  A journal and a tombstone are
  named by the hash of the relationship id, so they are keyed by the id.
* SQLite does not wipe the bytes of a deleted row: they are in the database file
  until `VACUUM` writes it anew and a checkpoint copies it from the log.  `stale`
  are the deleted rows whose bytes are still there.
* `calls` is the history of the calls of the hooks, `paired` what each pairing
  wrote to `relay.json`, and `recorded` the part of it whose relationship has not
  been deleted from the database.  No function reads these three.
-/

namespace MuseAgentSocial.Teardown

open Relational

/-- `relationship_id`. -/
abbrev RelationshipId := String

/-- `needle in text`. -/
def mentions (text needle : String) : Bool := decide (needle.toList <:+: text.toList)

/-! ## The database -/

/-- The tables of the store. -/
inductive TableName where
  | conversations | threads | relationships | key_epochs | events | replay_guard
  | sender_sequence | projection_queue | receipt_queue | surface_queue | invites
  | scheduler_queue | migration_state | event_payloads | messages | message_revisions
  | reactions | receipts | polls | poll_responses | tasks | human_requests | deliveries
  | security_key_events | thread_state | pending_refs | quarantine | projection_cursors
  | sequence_gaps | attachments | relay_config | receive_quarantine | sent_objects
  | receive_retry_state | invite_bodies | pairing_acceptances | pairing_verifications
  | deploy_key_registry | human_approvals | transport_mutations | transport_push_log
  | key_rotations | rotation_quarantine | unknown_epoch_first_seen
  | rotation_processed_events | rotation_wrap_seen_pending | teardown_hook_log
  deriving DecidableEq, Repr

/-- The columns that a teardown reads. -/
inductive Column where
  | relationship_id | event_id | conversation_id | thread_id | replay_nonce
  | target_event_id | scheduled_id | edit_event_id | added_event_id | receipt_event_id
  | response_event_id | invite_id | key | value | epoch | key_epoch | private_key_ref
  | repo_url | deploy_public_key | consent_state | hook | target
  /-- The other cells of the row, as one text. -/
  | data
  deriving DecidableEq, Repr

/-- A JSON value of `migration_state`: the two shapes that a teardown looks
into, and the text of any other. -/
inductive Json where
  | str (s : String)
  | list (items : List String)
  | other (text : String)
  deriving DecidableEq, Repr

/-- `json.dumps`, for texts without characters to escape. -/
def Json.dumps : Json → String
  | .str s => "\"" ++ s ++ "\""
  | .list items => "[" ++ ", ".intercalate (items.map (fun s => "\"" ++ s ++ "\"")) ++ "]"
  | .other text => text

/-- A cell. -/
inductive Value where
  | text (s : String)
  | json (j : Json)
  deriving DecidableEq, Repr

/-- A row of the store. -/
abbrev Row := Relational.Row TableName Column Value

/-- A delete on the store. -/
abbrev Delete := Relational.Delete TableName Column Value

/-- The text of a cell. -/
def textOf (r : Row) (c : Column) : Option String :=
  match r.get c with
  | some (.text s) => some s
  | _ => none

/-- The foreign keys of the schema. -/
def foreignKeys : List (ForeignKey TableName Column) :=
  [⟨.threads, [.conversation_id], .conversations, [.conversation_id]⟩,
    ⟨.key_epochs, [.relationship_id], .relationships, [.relationship_id]⟩,
    ⟨.events, [.conversation_id], .conversations, [.conversation_id]⟩,
    ⟨.events, [.thread_id], .threads, [.thread_id]⟩,
    ⟨.events, [.relationship_id], .relationships, [.relationship_id]⟩,
    ⟨.events, [.relationship_id, .key_epoch], .key_epochs, [.relationship_id, .epoch]⟩,
    ⟨.sender_sequence, [.relationship_id], .relationships, [.relationship_id]⟩,
    ⟨.projection_queue, [.event_id], .events, [.event_id]⟩,
    ⟨.receipt_queue, [.target_event_id], .events, [.event_id]⟩,
    ⟨.surface_queue, [.event_id], .events, [.event_id]⟩,
    ⟨.event_payloads, [.event_id], .events, [.event_id]⟩,
    ⟨.invite_bodies, [.invite_id], .invites, [.invite_id]⟩,
    ⟨.pairing_verifications, [.invite_id], .invites, [.invite_id]⟩]

/-! ## `relay.json` -/

/-- A deploy-key entry of `relay.json` that is an object.  A field is the text
of its value, absent when the value is missing, null or empty. -/
structure KeyFields where
  repo : Option String := none
  title : Option String := none
  label : Option String := none
  key_id : Option String := none
  id : Option String := none
  key : Option String := none
  role : Option String := none
  deriving DecidableEq, Repr

/-- An entry of `deploy_keys`. -/
inductive KeyEntry where
  | dict (fields : KeyFields)
  | other (text : String)
  deriving DecidableEq, Repr

/-- An entry of `repos`. -/
inductive RepoEntry where
  | name (repo : String)
  | dict (repo transport : Option String)
  | other (text : String)
  deriving DecidableEq, Repr

/-- The document of `relay.json`. -/
structure RelayDoc where
  deploy_keys : List KeyEntry
  repos : List RepoEntry
  deriving DecidableEq, Repr

/-- The file `relay.json`. -/
inductive RelayFile where
  | doc (d : RelayDoc)
  | unparseable (text : String)
  deriving DecidableEq, Repr

/-- The name and the value of a field that is there. -/
def fieldTexts (name : String) : Option String → List String
  | some value => [name, value]
  | none => []

/-- The texts of an entry. -/
def KeyEntry.texts : KeyEntry → List String
  | .dict f =>
    fieldTexts "repo" f.repo ++ fieldTexts "title" f.title ++ fieldTexts "label" f.label ++
      fieldTexts "key_id" f.key_id ++ fieldTexts "id" f.id ++ fieldTexts "key" f.key ++
      fieldTexts "role" f.role
  | .other text => [text]

/-- The texts of an entry. -/
def RepoEntry.texts : RepoEntry → List String
  | .name repo => [repo]
  | .dict repo transport => fieldTexts "repo" repo ++ fieldTexts "transport" transport
  | .other text => [text]

/-- The texts of the document.  An id has no character of the JSON syntax, so
the file mentions it when one of these does. -/
def RelayDoc.texts (d : RelayDoc) : List String :=
  ["deploy_keys", "repos"] ++ d.deploy_keys.flatMap KeyEntry.texts ++
    d.repos.flatMap RepoEntry.texts

/-- The texts of the file. -/
def RelayFile.texts : RelayFile → List String
  | .doc d => d.texts
  | .unparseable text => [text]

/-- `DeployKeyRef`. -/
structure DeployKeyRef where
  repo : String
  label : String
  key_id : String := ""
  deriving DecidableEq, Repr

/-- `RelayRef`. -/
structure RelayRef where
  repo : String
  transport : String := ""
  deriving DecidableEq, Repr

/-- `_RelayRefs`: the view of `relay.json` for one relationship. -/
structure RelayRefs where
  keys_to_revoke : List DeployKeyRef := []
  repos_to_delete : List RelayRef := []
  keep_deploy_keys : List KeyEntry := []
  keep_repos : List RepoEntry := []
  relay_json_present : Bool := false
  relay_json_parseable : Bool := false
  deriving DecidableEq, Repr

/-- The texts of a journal that holds the refs. -/
def RelayRefs.texts (refs : RelayRefs) : List String :=
  ["keys_to_revoke", "repos_to_delete", "keep_deploy_keys", "keep_repos", "relay_json_present",
      "relay_json_parseable"] ++
    refs.keys_to_revoke.flatMap (fun k =>
      ["repo", k.repo, "label", k.label, "key_id", k.key_id]) ++
    refs.repos_to_delete.flatMap (fun r => ["repo", r.repo, "transport", r.transport]) ++
    refs.keep_deploy_keys.flatMap KeyEntry.texts ++ refs.keep_repos.flatMap RepoEntry.texts

/-! ## Files -/

/-- What a file holds: its text as it is decoded, and its size in bytes. -/
structure Content where
  text : String
  size : Nat
  deriving DecidableEq, Repr

/-- To whom a file belongs.  No function reads it. -/
inductive Owner where
  | relationship (id : RelationshipId)
  | identity
  | shared
  deriving DecidableEq, Repr

/-- A file of the state directory, named by the parts of its path. -/
structure File where
  path : List String
  content : Content
  symlink : Bool := false
  owner : Owner
  deriving DecidableEq, Repr

/-- The journal of an unfinished teardown, `teardown-journal/<hash>.json`. -/
structure Journal where
  relationship_id : RelationshipId
  invite_ids : List String
  refs : RelayRefs
  deriving DecidableEq, Repr

/-- The texts of the journal. -/
def Journal.texts (j : Journal) : List String := "invite_ids" :: (j.invite_ids ++ j.refs.texts)

/-- The consent tombstone, `tombstones/<hash>.json`. -/
structure Tombstone where
  relationship_id : RelationshipId
  revoked_at : String
  reason_code : String
  deriving DecidableEq, Repr

/-- The texts of the tombstone, whose hash is `digest`. -/
def Tombstone.texts (t : Tombstone) (digest : String) : List String :=
  ["relationship_id_sha256", digest, "revoked_at", t.revoked_at, "reason_code", t.reason_code]

/-! ## The provider -/

/-- What the provider answers to one request. -/
inductive Answer where
  | status (code : Nat)
  | httpError (code : Nat)
  /-- The request does not come through. -/
  | unreachable
  deriving DecidableEq, Repr

/-- One call of a hook: what it was called for, and the answer of the provider
when a request was sent. -/
inductive Call where
  | revokeDeployKey (ref : DeployKeyRef) (answer : Option Answer)
  | deleteRelayRepo (ref : RelayRef) (answer : Option Answer)
  deriving DecidableEq, Repr

/-! ## The whole state -/

/-- The state of one installation and the history of its provider. -/
structure World where
  rows : List Row
  /-- The database file is in its place. -/
  database : Bool := true
  stale : List Row := []
  relay : Option RelayFile := none
  files : Table File.path := Table.empty
  journals : Table Journal.relationship_id := Table.empty
  tombstones : Table Tombstone.relationship_id := Table.empty
  calls : List Call := []
  paired : List (RelationshipId × RelayDoc) := []
  recorded : List (RelationshipId × RelayDoc) := []

/-- The row of a relationship. -/
def World.relationship (w : World) (rid : RelationshipId) : Option Row :=
  (select .relationships w.rows).find? (fun r => r.is .relationship_id (.text rid))

end MuseAgentSocial.Teardown
