import MuseAgentSocial.Teardown.Relay

/-!
# `teardown_relationship`

The steps of a teardown in the order of the source, as a program that can be
interrupted at each of its durable effects.

The deletes of the database are one transaction, so they are one effect.  The
bytes of the deleted rows leave the database file with a second one, that of
`VACUUM` and the checkpoint after it.  The chunks of an `IN` list are run as one
delete.  A dry run writes nothing and is left out, and so are empty directories.
-/

namespace MuseAgentSocial.Teardown

open Relational Durable

/-- What becomes of `VACUUM` and of the checkpoint after it. -/
inductive Compaction where
  | complete
  /-- `VACUUM` raises. -/
  | vacuumFails
  /-- The checkpoint raises or finds a reader, which the source passes over. -/
  | checkpointFails
  deriving DecidableEq, Repr

/-- What one call is given: its arguments, the hash and the directory in the
names of files, the database file that SQLite makes of the rows and of the
deleted rows whose bytes are left (the log beside it counts as a part of it),
what becomes of `VACUUM`, and the files that the operating system does not
delete. -/
structure Env where
  hooks : Hooks
  state_dir : String
  peer_label : Option String := none
  reason_code : String := "operator"
  revoked_at : String
  digest : RelationshipId → String
  image : List Row → List Row → Content
  compaction : Compaction := .complete
  stuck : List String → Bool := fun _ => false

/-- `TeardownReport`, without the step log and the counters. -/
structure Report where
  already_torn_down : Bool := false
  deploy_keys_revoked : List String := []
  relay_repos_deleted : List String := []
  keys_destroyed : List String := []
  deriving DecidableEq, Repr

/-! ## The deletes of the database -/

/-- `event_ids`. -/
def eventIds (rid : RelationshipId) (rows : List Row) : List Value :=
  column .events .event_id (·.is .relationship_id (.text rid)) rows

/-- `conv_ids`. -/
def conversationIds (rid : RelationshipId) (rows : List Row) : List Value :=
  (column .events .conversation_id (·.is .relationship_id (.text rid)) rows).eraseDups

/-- `nonces`. -/
def replayNonces (rid : RelationshipId) (rows : List Row) : List Value :=
  column .events .replay_nonce (·.is .relationship_id (.text rid)) rows

/-- `_migration_state_refs`: the row is scoped to the relationship. -/
def migrationRef (rid : RelationshipId) (r : Row) : Bool :=
  match textOf r .key with
  | none => false
  | some key =>
    key = "migration." ++ rid || (stripPrefix ("migration." ++ rid ++ ".") key).isSome ||
      (match r.get .value with
        | some (.json j) => mentions j.dumps rid
        | _ => false)

/-- `key.endswith(tail)`. -/
def keyEndsWith (tail : String) (r : Row) : Bool :=
  match textOf r .key with
  | some key => decide (tail.toList <:+ key.toList)
  | none => false

/-- `_relationship_invite_ids`. -/
def relationshipInviteIds (rid : RelationshipId) (rows : List Row) : List String :=
  ((select .migration_state rows).filter (migrationRef rid)).filterMap (fun r =>
    match r.get .value with
    | some (.json (.str s)) => if keyEndsWith ".invite_id" r then some s else none
    | _ => none)

/-- `_migration_scheduled_ids`. -/
def migrationScheduledIds (rid : RelationshipId) (rows : List Row) : List String :=
  ((select .migration_state rows).filter (migrationRef rid)).flatMap (fun r =>
    match r.get .value with
    | some (.json (.list items)) => if keyEndsWith ".scheduled_ids" r then items else []
    | _ => [])

/-- The tables that are deleted by their column `relationship_id`. -/
def relationshipTables : List TableName :=
  [.messages, .polls, .tasks, .human_requests, .deliveries, .security_key_events, .pending_refs,
    .sequence_gaps, .projection_cursors, .key_rotations, .rotation_quarantine,
    .transport_mutations, .transport_push_log, .deploy_key_registry, .human_approvals,
    .quarantine, .receive_quarantine, .relay_config, .teardown_hook_log]

/-- `DELETE FROM t WHERE relationship_id = rid`. -/
def ofRelationship (rid : RelationshipId) (t : TableName) : Delete :=
  ⟨t, (·.is .relationship_id (.text rid))⟩

/-- The deletes up to the event rows. -/
def eventDeletes (rid : RelationshipId) (rows : List Row) : List Delete :=
  let events := eventIds rid rows
  [⟨.projection_queue, (·.isIn .event_id events)⟩,
    ⟨.surface_queue, (·.isIn .event_id events)⟩,
    ⟨.receipt_queue, (·.isIn .target_event_id events)⟩,
    ⟨.scheduler_queue, (·.isIn .scheduled_id ((migrationScheduledIds rid rows).map .text))⟩,
    ⟨.scheduler_queue, (·.isIn .scheduled_id events)⟩,
    ⟨.sent_objects, (·.isIn .scheduled_id events)⟩,
    ⟨.replay_guard, (·.isIn .replay_nonce (replayNonces rid rows))⟩,
    ⟨.event_payloads, (·.isIn .event_id events)⟩,
    ⟨.message_revisions, (·.isIn .edit_event_id events)⟩,
    ⟨.reactions, (·.isIn .added_event_id events)⟩,
    ⟨.receipts, (·.isIn .receipt_event_id events)⟩,
    ⟨.poll_responses, (·.isIn .response_event_id events)⟩] ++
  relationshipTables.map (ofRelationship rid) ++
  [⟨.events, (·.isIn .event_id events)⟩]

/-- The deletes of the conversations that are left without events, and of the
state of every thread.  `rows` are the rows before the events were deleted
and `rest` the rows after. -/
def conversationDeletes (rid : RelationshipId) (rows rest : List Row) : List Delete :=
  (conversationIds rid rows).flatMap (fun cid =>
    if (select .events rest).any (·.is .conversation_id cid) then []
    else [⟨.threads, (·.is .conversation_id cid)⟩, ⟨.conversations, (·.is .conversation_id cid)⟩]) ++
  [⟨.thread_state, (·.isIn .conversation_id (conversationIds rid rows))⟩]

/-- The record of the migration phase, which describes the database. -/
def globalPhase (r : Row) : Bool :=
  match textOf r .key with
  | some key => key = "migration.phase" || (stripPrefix "migration.phase_at." key).isSome
  | none => false

/-- The deletes from the key rows on. -/
def relationshipDeletes (rid : RelationshipId) (rows : List Row) : List Delete :=
  let invites := (relationshipInviteIds rid rows).map Value.text
  [ofRelationship rid .key_epochs, ofRelationship rid .sender_sequence,
    ⟨.pairing_verifications, (·.isIn .invite_id invites)⟩,
    ⟨.invite_bodies, (·.isIn .invite_id invites)⟩,
    ⟨.pairing_acceptances, (·.isIn .invite_id invites)⟩,
    ⟨.invites, (·.isIn .invite_id invites)⟩,
    ⟨.migration_state, fun r => migrationRef rid r && !globalPhase r⟩,
    ofRelationship rid .relationships]

/-- `PEER_KEY_REF`. -/
def PEER_KEY_REF : String := "peer"

/-- The files of the relationship's private keys. -/
def privateKeyRefs (rid : RelationshipId) (rows : List Row) : List String :=
  (((select .key_epochs rows).filter (·.is .relationship_id (.text rid))).filterMap
    (textOf · .private_key_ref)).filter (· ≠ PEER_KEY_REF)

/-! ## Deleting files -/

/-- The path as a text. -/
def Env.fullPath (env : Env) (path : List String) : String :=
  env.state_dir ++ "/" ++ "/".intercalate path

/-- The state without one file. -/
def World.unlink (w : World) (path : List String) : World :=
  { w with files := w.files.delete (fun f => f.path = path) }

/-- The state without the journal of a relationship. -/
def World.dropJournal (w : World) (rid : RelationshipId) : World :=
  { w with journals := w.journals.delete (fun j => j.relationship_id = rid) }

/-- The state without the tombstone of a relationship. -/
def World.dropTombstone (w : World) (rid : RelationshipId) : World :=
  { w with tombstones := w.tombstones.delete (fun t => t.relationship_id = rid) }

/-- The state with a journal for the relationship. -/
def World.journaled (w : World) (rid : RelationshipId) (invite_ids : List String)
    (refs : RelayRefs) : World :=
  { w with journals := w.journals.upsert ⟨rid, invite_ids, refs⟩ }

/-- `secure_unlink`, which does not report a failure. -/
def secureUnlink (env : Env) (f : File) : Program World Failure Unit :=
  if env.stuck f.path then .ret () else .write (·.unlink f.path)

/-- `delete_private_key` on a file that is there: a failure is an error. -/
def deleteKeyFile (env : Env) (f : File) : Program World Failure Unit :=
  if env.stuck f.path then .raise (.teardown "key-destruction-failed" (env.fullPath f.path))
  else .write (·.unlink f.path)

/-- `delete_private_key`: a missing file counts as deleted. -/
def deletePrivateKey (env : Env) (ref : String) : Program World Failure Unit := do
  match ← .read (fun w : World => w.files.rows.find? (fun f => env.fullPath f.path = ref)) with
  | none => .ret ()
  | some f => deleteKeyFile env f

/-- The name of a file. -/
def File.name (f : File) : String := f.path.getLast?.getD ""

/-- `_CONTENT_SCAN_LIMIT`. -/
def CONTENT_SCAN_LIMIT : Nat := 1048576

/-- The content is small enough to be read, and mentions the id. -/
def Content.mentions (c : Content) (needle : String) : Bool :=
  c.size ≤ CONTENT_SCAN_LIMIT && Teardown.mentions c.text needle

/-- `_file_mentions_rid`. -/
def fileMentionsRid (rid : RelationshipId) (f : File) : Bool :=
  mentions f.name rid || (!f.symlink && f.content.mentions rid)

/-- `_OPERATIONAL_DIRS`. -/
def OPERATIONAL_DIRS : List String :=
  ["bundles", "mirror", "cache", "inbox", "outbox", "retry", "plaintext_cache"]

/-- `_wipe_operational_dir` deletes the file: it mentions the id, or one of the
directories on the way to it does. -/
def inOperationalDir (rid : RelationshipId) (f : File) : Bool :=
  match f.path with
  | dir :: rest =>
    decide (dir ∈ OPERATIONAL_DIRS) && !rest.isEmpty &&
      (rest.dropLast.any (mentions · rid) || fileMentionsRid rid f)
  | [] => false

/-- `_relationship_fs_paths`. -/
def relationshipFsPaths (rid : RelationshipId) : List (List String) :=
  [["mirrors", rid], ["locks", rid ++ ".lock"], ["watcher", rid ++ ".json"]]

/-- The file is at or below the path. -/
def File.under (f : File) (path : List String) : Bool := decide (path <+: f.path)

/-- An invite id that is one part of a path. -/
def pathSafe (id : String) : Bool :=
  id ≠ "" && !id.toList.contains '/' && !id.toList.contains '\\' && id ≠ "." && id ≠ ".."

/-- The key subtrees of the relationship and of its invites. -/
def keySubtrees (rid : RelationshipId) (invite_ids : List String) : List (List String) :=
  ["keys", rid] ::
    ["invites", "pairing"].flatMap (fun sub =>
      (invite_ids.filter pathSafe).map (fun iid => ["keys", sub, iid]))

/-- Delete the files that meet a condition, one after the other. -/
def unlinkWhere (delete : File → Program World Failure Unit) (cond : File → Bool) :
    Program World Failure Unit := do
  let files ← .read (fun w : World => w.files.rows.filter cond)
  .forEach files delete

/-- `relay.json` mentions the id. -/
def relayMentions (rid : RelationshipId) (relay : Option RelayFile) : Bool :=
  match relay with
  | some file => mentions "relay.json" rid || file.texts.any (mentions · rid)
  | none => false

/-- `DEFAULT_DB_FILENAME`. -/
def DEFAULT_DB_FILENAME : String := "state.db"

/-- The database file mentions the id. -/
def databaseMentions (env : Env) (rid : RelationshipId) (rows stale : List Row) : Bool :=
  mentions DEFAULT_DB_FILENAME rid || (env.image rows stale).mentions rid

/-- A journal mentions the id. -/
def journalMentions (env : Env) (rid : RelationshipId) (j : Journal) : Bool :=
  mentions (env.digest j.relationship_id ++ ".json") rid || j.texts.any (mentions · rid)

/-- A tombstone mentions the id. -/
def tombstoneMentions (env : Env) (rid : RelationshipId) (t : Tombstone) : Bool :=
  mentions (env.digest t.relationship_id ++ ".json") rid ||
    (t.texts (env.digest t.relationship_id)).any (mentions · rid)

/-- The sweep over the files that mention the id: the files of the state
directory itself come before those below it. -/
def sweepStrayFiles (env : Env) (rid : RelationshipId) : Program World Failure Unit := do
  .write (fun w => if relayMentions rid w.relay then { w with relay := none } else w)
  .write (fun w =>
    if databaseMentions env rid w.rows w.stale then { w with database := false } else w)
  unlinkWhere (secureUnlink env) (fileMentionsRid rid)
  let journals ← .read (fun w : World => w.journals.rows.filter (journalMentions env rid))
  .forEach journals (fun j => .write (·.dropJournal j.relationship_id))
  let tombstones ← .read (fun w : World => w.tombstones.rows.filter (tombstoneMentions env rid))
  .forEach tombstones (fun t => .write (·.dropTombstone t.relationship_id))

/-- `_wipe_relationship_files` before the rewriting of `relay.json`. -/
def wipeOwnFiles (env : Env) (rid : RelationshipId) (invite_ids : List String) :
    Program World Failure Unit := do
  unlinkWhere (secureUnlink env) (inOperationalDir rid)
  unlinkWhere (secureUnlink env) (fun f => (relationshipFsPaths rid).any f.under)
  sweepStrayFiles env rid
  unlinkWhere (deleteKeyFile env) (fun f => (keySubtrees rid invite_ids).any f.under)

/-- `_wipe_relationship_files` up to the rewriting of `relay.json`. -/
def wipeAndPrune (env : Env) (rid : RelationshipId) (invite_ids : List String)
    (refs : RelayRefs) : Program World Failure Unit := do
  wipeOwnFiles env rid invite_ids
  .write (fun w => { w with relay := pruneRelayJson refs w.relay })

/-- `_wipe_relationship_files`. -/
def wipeRelationshipFiles (env : Env) (rid : RelationshipId) (invite_ids : List String)
    (refs : RelayRefs) : Program World Failure Unit := do
  wipeAndPrune env rid invite_ids refs
  unlinkWhere (secureUnlink env) (fun f => f.path = ["relay.yaml"] && fileMentionsRid rid f)

/-! ## The post-check -/

/-- One of the needles is in one of the texts. -/
def anyMention (needles texts : List String) : Bool :=
  needles.any (fun n => n ≠ "" && texts.any (mentions · n))

/-- What the post-check looks at for one file. -/
def haystack (env : Env) (path : List String) (content : Content) : List String :=
  [env.fullPath path] ++ (if content.size ≤ CONTENT_SCAN_LIMIT then [content.text] else [])

/-- `postcheck_scan` finds something. -/
def postcheckHits (env : Env) (needles : List String) (w : World) : Bool :=
  w.files.rows.any (fun f => anyMention needles (haystack env f.path f.content)) ||
    (w.database && anyMention needles
      (haystack env [DEFAULT_DB_FILENAME] (env.image w.rows w.stale))) ||
    (match w.relay with
      | some file => anyMention needles (env.fullPath ["relay.json"] :: file.texts)
      | none => false) ||
    w.journals.rows.any (fun j => anyMention needles
      (env.fullPath ["teardown-journal", env.digest j.relationship_id ++ ".json"] :: j.texts))

/-- The post-check of a teardown. -/
def postcheck (env : Env) (rid : RelationshipId) (key_refs : List String) :
    Program World Failure Unit := do
  let needles := rid :: (env.peer_label.toList ++ key_refs)
  if ← .read (postcheckHits env needles) then .raise (.teardown "postcheck-dirty" rid)
  else .ret ()

/-! ## The hooks -/

/-- The names of the hooks in the completion log. -/
inductive HookName where
  | revoke_deploy_key
  | delete_relay_repo
  deriving DecidableEq, Repr

/-- The text of a hook's name. -/
def HookName.text : HookName → String
  | .revoke_deploy_key => "revoke_deploy_key"
  | .delete_relay_repo => "delete_relay_repo"

/-- `_hook_completed`. -/
def hookCompleted (rid : RelationshipId) (hook : HookName) (target : String) (w : World) : Bool :=
  (select .teardown_hook_log w.rows).any (fun r => r.is .relationship_id (.text rid) &&
    r.is .hook (.text hook.text) && r.is .target (.text target))

/-- `_record_hook_completed`. -/
def recordHookCompleted (rid : RelationshipId) (hook : HookName) (target : String) (w : World) :
    World :=
  if hookCompleted rid hook target w then w
  else { w with rows := w.rows ++ [⟨.teardown_hook_log, [(.relationship_id, .text rid),
    (.hook, .text hook.text), (.target, .text target)]⟩] }

/-- The target under which the revocation of a key is logged. -/
def DeployKeyRef.target (k : DeployKeyRef) : String := k.repo ++ ":" ++ k.label

/-- One pass of step 2: call the hook unless it is logged as complete, and log
it, whatever it returned. -/
def runHook {ι : Type} (rid : RelationshipId) (hook : HookName) (target : ι → String)
    (call : Option (ι → Program World Failure String)) (ref : ι) : Program World Failure Unit := do
  if ← .read (hookCompleted rid hook (target ref)) then .ret ()
  else
    match call with
    | none => .raise .hook
    | some call => do
      let _ ← call ref
      .write (recordHookCompleted rid hook (target ref))

/-- The keys whose revocation is not logged yet. -/
def pendingKeys (rid : RelationshipId) (refs : RelayRefs) (w : World) : List DeployKeyRef :=
  refs.keys_to_revoke.filter (fun k => !hookCompleted rid .revoke_deploy_key k.target w)

/-- The repositories whose deletion is not logged yet. -/
def pendingRepos (rid : RelationshipId) (refs : RelayRefs) (w : World) : List RelayRef :=
  refs.repos_to_delete.filter (fun r => !hookCompleted rid .delete_relay_repo r.repo w)

/-- Check the hooks before anything is changed. -/
def requireHooks (env : Env) (rid : RelationshipId) (refs : RelayRefs) :
    Program World Failure Unit := do
  let w ← .read id
  if pendingKeys rid refs w ≠ [] ∧ env.hooks.revoke_deploy_key.isNone then
    .raise (.teardown "hook-required" "revoke_deploy_key hook is missing")
  else if pendingRepos rid refs w ≠ [] ∧ env.hooks.delete_relay_repo.isNone then
    .raise (.teardown "hook-required" "delete_relay_repo hook is missing")
  else .ret ()

/-! ## The whole teardown -/

/-- The cells with one of them replaced. -/
def setCell (c : Column) (v : Value) (r : Row) : Row :=
  { r with cells := (c, v) :: r.cells.filter (·.1 ≠ c) }

/-- `UPDATE relationships SET consent_state = 'revoked' WHERE relationship_id = rid`. -/
def markRevoked (rid : RelationshipId) (w : World) : World :=
  { w with rows := w.rows.map (fun r =>
      if r.table = .relationships ∧ r.is .relationship_id (.text rid) then
        setCell .consent_state (.text "revoked") r
      else r) }

/-- The state after the `COMMIT` of step 4, which leaves `rows`. -/
def World.committed (w : World) (rid : RelationshipId) (rows : List Row) : World :=
  { w with
    rows := rows, stale := w.stale ++ w.rows.filter (· ∉ rows),
    recorded := w.recorded.filter (·.1 ≠ rid) }

/-- `VACUUM` and the checkpoint, which leave no byte of a deleted row. -/
def compactDatabase (env : Env) : Program World Failure Unit :=
  match env.compaction with
  | .complete => .write (fun w => { w with stale := [] })
  | .vacuumFails => .raise .vacuum
  | .checkpointFails => .ret ()

/-- Step 4 on the database: one transaction, in which the key files that step 3
did not see are destroyed, and `VACUUM` after it. -/
def deleteState (env : Env) (rid : RelationshipId) (key_refs : List String) :
    Program World Failure (List String) := do
  let rows ← .read World.rows
  match run foreignKeys (eventDeletes rid rows) rows with
  | none => .raise .integrity
  | some rows₁ =>
    match run foreignKeys (conversationDeletes rid rows rows₁) rows₁ with
    | none => .raise .integrity
    | some rows₂ =>
      let late := (privateKeyRefs rid rows₂).filter (· ∉ key_refs)
      .forEach late (deletePrivateKey env)
      match run foreignKeys (relationshipDeletes rid rows₂) rows₂ with
      | none => .raise .integrity
      | some rows₃ => do
        .write (·.committed rid rows₃)
        compactDatabase env
        .ret (key_refs ++ late)

/-- The tombstone and the journal, written before the transaction. -/
def writeTombstone (env : Env) (rid : RelationshipId) (invite_ids : List String)
    (refs : RelayRefs) : Program World Failure Unit := do
  .write (fun w => { w with tombstones := w.tombstones.upsert ⟨rid, env.revoked_at, env.reason_code⟩ })
  .write (·.journaled rid invite_ids refs)

/-- What the first part of a teardown hands to the file phase. -/
structure Discovered where
  refs : RelayRefs
  invite_ids : List String
  destroyed : List String

/-- The teardown of a relationship whose row is there, up to the transaction. -/
def teardownState (env : Env) (rid : RelationshipId) : Program World Failure Discovered := do
  let w ← .read id
  let refs := discoverRelayRefs w rid
  let invite_ids := relationshipInviteIds rid w.rows
  requireHooks env rid refs
  .write (markRevoked rid)
  .forEach refs.keys_to_revoke
    (runHook rid .revoke_deploy_key DeployKeyRef.target env.hooks.revoke_deploy_key)
  .forEach refs.repos_to_delete
    (runHook rid .delete_relay_repo RelayRef.repo env.hooks.delete_relay_repo)
  let key_refs ← .read (fun w : World => privateKeyRefs rid w.rows)
  .forEach key_refs (deletePrivateKey env)
  writeTombstone env rid invite_ids refs
  let destroyed ← deleteState env rid key_refs
  .ret ⟨refs, invite_ids, destroyed⟩

/-- The teardown of a relationship whose row is there. -/
def teardownFresh (env : Env) (rid : RelationshipId) : Program World Failure Report := do
  let d ← teardownState env rid
  wipeRelationshipFiles env rid d.invite_ids d.refs
  postcheck env rid d.destroyed
  .write (·.dropJournal rid)
  .ret { deploy_keys_revoked := d.refs.keys_to_revoke.map DeployKeyRef.target,
         relay_repos_deleted := d.refs.repos_to_delete.map RelayRef.repo,
         keys_destroyed := d.destroyed }

/-- What a resumed teardown goes by: its journal, or `relay.json` as it is. -/
def resumedRefs (w : World) (rid : RelationshipId) : RelayRefs :=
  match w.journals.find rid with
  | some j => j.refs
  | none => discoverRelayRefs w rid

/-- The invite ids of the journal. -/
def resumedInviteIds (w : World) (rid : RelationshipId) : List String :=
  match w.journals.find rid with
  | some j => j.invite_ids
  | none => []

/-- The teardown of a relationship whose row is gone: the file phase again. -/
def teardownResumed (env : Env) (rid : RelationshipId) : Program World Failure Report := do
  let w ← .read id
  wipeRelationshipFiles env rid (resumedInviteIds w rid) (resumedRefs w rid)
  postcheck env rid []
  .ret { already_torn_down := true }

/-- `teardown_relationship`. -/
def teardownRelationship (env : Env) (rid : RelationshipId) : Program World Failure Report := do
  if !pathSafe rid then .raise (.teardown "bad-relationship-id" rid)
  else
    let w ← .read id
    if (w.relationship rid).isSome then teardownFresh env rid
    else if (w.tombstones.find rid).isNone then .raise (.teardown "unknown-relationship" rid)
    else teardownResumed env rid

end MuseAgentSocial.Teardown
