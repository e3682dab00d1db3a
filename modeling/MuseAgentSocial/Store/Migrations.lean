import MuseAgentSocial.Lib.Autocommit
import MuseAgentSocial.Store.Tables

/-!
# The schema migrations

A model of `store/migrations.py` and of `migrate_projections`: what each migration does to
the schema, and the two programs that a process runs on its connection when it starts.

* `Schema` is the schema of a database, with the rows that a migration reads or writes.
  Of the columns it has those that some migration adds to an existing table.
* `exec` and `addColumn` are the statements, which raise where SQLite does: a column cannot
  be added twice, an index needs its table, and a unique index distinct rows.
* `setUp` is `migrate` and then `migrate_projections`, as `mas init` and every command run
  them.
-/

namespace MuseAgentSocial.Migrations

open Sqlite Store Model Crypto

/-! ## The schema -/

/-- The tables. -/
inductive Table where
  | conversations | threads | relationships | key_epochs | events | replay_guard | sender_sequence
  | projection_queue | receipt_queue | surface_queue | invites | scheduler_queue | migration_state
  | event_payloads | messages | message_revisions | reactions | receipts | polls | poll_responses | tasks
  | human_requests | deliveries | security_key_events | thread_state | pending_refs | quarantine
  | projection_cursors | sequence_gaps
  | key_rotations | rotation_quarantine | unknown_epoch_first_seen | rotation_processed_events
  | rotation_wrap_seen_pending
  | transport_mutations | transport_push_log
  | human_approvals
  | attachments
  deriving DecidableEq, Repr

/-- The columns that are added to existing tables. -/
inductive Column where
  | attestation | prior_peer_identity_id | event_id | envelope_digest | prior_identity_grace_until
  | expires_at | consumed_at | received_at
  deriving DecidableEq, Repr

/-- The table of a column. -/
def Column.table : Column → Table
  | .attestation => .human_requests
  | .prior_peer_identity_id | .prior_identity_grace_until => .relationships
  | .event_id | .envelope_digest => .replay_guard
  | .expires_at | .consumed_at => .human_approvals
  | .received_at => .event_payloads

/-- The columns among them that the `CREATE TABLE` of today already has. -/
def ddlColumns : Table → List Column
  | .human_approvals => [.expires_at, .consumed_at]
  | .event_payloads => [.received_at]
  | _ => []

/-- The indexes. -/
inductive Index where
  | events_relationship_sender | replay_guard_expires | scheduler_deliver
  | messages_conversation | reactions_target | receipts_target | deliveries_inner | deliveries_announcement
  | pending_refs_target | rotation_quarantine_rel | transport_mutations_rel_state | transport_push_log_rel_time
  | human_approvals_subject | attachments_relationship
  deriving DecidableEq, Repr

def Index.table : Index → Table
  | .events_relationship_sender => .events
  | .replay_guard_expires => .replay_guard
  | .scheduler_deliver => .scheduler_queue
  | .messages_conversation => .messages
  | .reactions_target => .reactions
  | .receipts_target => .receipts
  | .deliveries_inner | .deliveries_announcement => .deliveries
  | .pending_refs_target => .pending_refs
  | .rotation_quarantine_rel => .rotation_quarantine
  | .transport_mutations_rel_state => .transport_mutations
  | .transport_push_log_rel_time => .transport_push_log
  | .human_approvals_subject => .human_approvals
  | .attachments_relationship => .attachments

/-- `_APPEND_ONLY_TRIGGERS` -/
inductive Trigger where
  | events_no_update | events_no_delete
  deriving DecidableEq, Repr

/-- What a migration reads and writes of a row of `human_requests`; the attestation is `none`
while the table has no such column. -/
structure Request where
  approval_record_id : Option ApprovalId
  attestation : Option Attestation
  deriving DecidableEq, Repr

/-- The key of a row of `deliveries` under `idx_deliveries_announcement`. -/
structure Announcement where
  relationship_id : RelationshipId
  sender : IdentityId
  inner_event_id : EventId
  deriving DecidableEq, Repr

/-- The schema of a database. -/
structure Schema where
  user_version : Nat := 0
  tables : List Table := []
  columns : List Column := []
  indexes : List Index := []
  triggers : List Trigger := []
  requests : List Request := []
  /-- The ids in `human_approvals`. -/
  approvals : List ApprovalId := []
  deliveries : List Announcement := []
  /-- The value of `projections_migration` in `migration_state`. -/
  projections_migration : Option Nat := none
  deriving Repr

/-! ## Statements -/

/-- A statement of the DDL; each says `IF NOT EXISTS`. -/
inductive Ddl where
  | createTable (t : Table)
  | createIndex (i : Index)
  | createTrigger (t : Trigger)
  deriving DecidableEq, Repr

/-- One statement of the DDL. -/
def Schema.exec (s : Schema) : Ddl → Except DbError Schema
  | .createTable t =>
    if t ∈ s.tables then .ok s else .ok { s with tables := s.tables ++ [t], columns := s.columns ++ ddlColumns t }
  | .createIndex i =>
    if i ∈ s.indexes then .ok s
    else if i.table ∉ s.tables then .error .operational
    else if i = .deliveries_announcement ∧ ¬s.deliveries.Nodup then .error .integrity
    else .ok { s with indexes := s.indexes ++ [i] }
  | .createTrigger t =>
    if t ∈ s.triggers then .ok s
    else if Table.events ∉ s.tables then .error .operational
    else .ok { s with triggers := s.triggers ++ [t] }

/-- `ALTER TABLE ... ADD COLUMN`.  The attestation of the rows there are is `peer`. -/
def Schema.addColumn (s : Schema) (c : Column) : Except DbError Schema :=
  if c.table ∉ s.tables ∨ c ∈ s.columns then .error .operational
  else .ok { s with
    columns := s.columns ++ [c]
    requests := if c = .attestation then s.requests.map (fun r => { r with attestation := some .peer }) else s.requests }

/-- The `UPDATE human_requests` of migration 3. -/
def Schema.attestLocal (s : Schema) : Except DbError Schema :=
  if Table.human_requests ∉ s.tables ∨ Table.human_approvals ∉ s.tables ∨ Column.attestation ∉ s.columns then
    .error .operational
  else .ok { s with
    requests := s.requests.map (fun r =>
      if r.approval_record_id.any (· ∈ s.approvals) then { r with attestation := some .local } else r) }

/-- `INSERT OR REPLACE INTO migration_state` -/
def Schema.recordProjections (s : Schema) (version : Nat) : Except DbError Schema :=
  if Table.migration_state ∉ s.tables then .error .operational
  else .ok { s with projections_migration := some version }

/-! ## The DDL -/

def V1_DDL : List Ddl :=
  [.createTable .conversations, .createTable .threads, .createTable .relationships, .createTable .key_epochs,
    .createTable .events, .createTrigger .events_no_update, .createTrigger .events_no_delete,
    .createTable .replay_guard, .createTable .sender_sequence, .createTable .projection_queue,
    .createTable .receipt_queue, .createTable .surface_queue, .createTable .invites, .createTable .scheduler_queue,
    .createTable .migration_state, .createIndex .events_relationship_sender, .createIndex .replay_guard_expires,
    .createIndex .scheduler_deliver]

/-- `projections._V2_DDL` -/
def PROJECTIONS_V2_DDL : List Ddl :=
  [.createTable .event_payloads, .createTable .messages, .createIndex .messages_conversation,
    .createTable .message_revisions, .createTable .reactions, .createIndex .reactions_target, .createTable .receipts,
    .createIndex .receipts_target, .createTable .polls, .createTable .poll_responses, .createTable .tasks,
    .createTable .human_requests, .createTable .deliveries, .createIndex .deliveries_inner,
    .createIndex .deliveries_announcement, .createTable .security_key_events, .createTable .thread_state,
    .createTable .pending_refs, .createIndex .pending_refs_target, .createTable .quarantine,
    .createTable .projection_cursors, .createTable .sequence_gaps]

/-- `rotation._ROTATION_TABLES` -/
def ROTATION_TABLES : List Ddl :=
  [.createTable .key_rotations, .createTable .rotation_quarantine, .createIndex .rotation_quarantine_rel,
    .createTable .unknown_epoch_first_seen, .createTable .rotation_processed_events,
    .createTable .rotation_wrap_seen_pending]

def TRANSPORT_DDL : List Ddl :=
  [.createTable .transport_mutations, .createIndex .transport_mutations_rel_state, .createTable .transport_push_log,
    .createIndex .transport_push_log_rel_time]

def APPROVALS_DDL : List Ddl := [.createTable .human_approvals, .createIndex .human_approvals_subject]

def V2_DDL : List Ddl := PROJECTIONS_V2_DDL ++ ROTATION_TABLES ++ TRANSPORT_DDL ++ APPROVALS_DDL

def V5_DDL : List Ddl := [.createTable .attachments, .createIndex .attachments_relationship]

/-- `_V5_COLUMNS` -/
def V5_COLUMNS : List Column := [.event_id, .envelope_digest, .prior_identity_grace_until]

def SCHEMA_VERSION : Nat := 5

def PROJECTIONS_SCHEMA_VERSION : Nat := 5

/-! ## The programs -/

/-- The exceptions of the programs. -/
inductive MigrationError where
  /-- `SchemaTooNewError` -/
  | schema_too_new (current : Nat)
  /-- `DbError("schema-integrity: append-only trigger(s) missing on events: ...")` -/
  | schema_integrity (missing : List Trigger)
  /-- `ProjectionError("skeleton_migration_missing", ...)` -/
  | skeleton_migration_missing
  deriving DecidableEq, Repr

/-- A program on a connection.  The outside is how the calls of `setUp` have ended. -/
abbrev SchemaJob := Job Schema (List (Except (Exc MigrationError) Nat)) MigrationError

/-- A statement that returns nothing. -/
def statement (f : Schema → Except DbError Schema) : SchemaJob Unit := Job.execute (fun s => (f s).map (fun s' => (s', ())))

/-- `_exec_ddl_in_txn` and `_exec_ddl` -/
def execDdlInTxn : List Ddl → SchemaJob Unit
  | [] => pure ()
  | stmt :: ddl => do
    statement (fun s => s.exec stmt)
    execDdlInTxn ddl

/-- Look at `PRAGMA table_info`, and add the column if it is not there. -/
def ensureColumn (c : Column) : SchemaJob Unit := do
  let cols : List Column ← Job.query (fun s => s.columns.filter (fun d => d.table = c.table))
  if c ∈ cols then pure () else statement (fun s => s.addColumn c)

/-- One column after the other. -/
def ensureColumns : List Column → SchemaJob Unit
  | [] => pure ()
  | c :: cs => do
    ensureColumn c
    ensureColumns cs

/-- `_ensure_v3_attestation` -/
def ensureV3Attestation : SchemaJob Unit := do
  ensureColumn .attestation
  statement Schema.attestLocal

/-- `PRAGMA user_version = ...` -/
def setUserVersion (version : Nat) : SchemaJob Unit := statement (fun s => .ok { s with user_version := version })

/-- What a migration of `MIGRATIONS` does before it sets the version. -/
def migrationBody (version : Nat) (ddl : List Ddl) : SchemaJob Unit :=
  if version = 4 then ensureColumn .prior_peer_identity_id
  else if version = 3 then ensureV3Attestation
  else execDdlInTxn ddl

/-- One migration, in a transaction of its own. -/
def migration (version : Nat) (ddl : List Ddl) : SchemaJob Unit :=
  Job.transaction do
    let now : Nat ← Job.query Schema.user_version
    if version ≤ now then pure ()
    else do
      migrationBody version ddl
      setUserVersion version

/-- `MIGRATIONS`.  `migrate` runs the DDL of the versions 3 and 4 by functions of their own. -/
def MIGRATIONS : List (Nat × List Ddl) := [(1, V1_DDL), (2, V2_DDL), (3, []), (4, []), (5, V5_DDL)]

/-- The loop of `migrate`. -/
def migrations (current : Nat) : List (Nat × List Ddl) → SchemaJob Unit
  | [] => pure ()
  | (version, ddl) :: rest => do
    if version ≤ current then pure () else migration version ddl
    migrations current rest

/-- `ensure_approvals_columns`, but for the values of `expires_at`. -/
def ensureApprovalsColumns : SchemaJob Unit := ensureColumns [.expires_at, .consumed_at]

/-- The columns that are added without a version. -/
def hardening : SchemaJob Unit :=
  Job.transaction do
    ensureApprovalsColumns
    ensureColumns V5_COLUMNS
    ensureColumn .received_at

/-- `_verify_append_only_triggers` -/
def verifyAppendOnlyTriggers : SchemaJob Unit := do
  let tables : List Table ← Job.query Schema.tables
  if Table.events ∉ tables then pure ()
  else do
    let triggers : List Trigger ← Job.query Schema.triggers
    let missing := [Trigger.events_no_update, Trigger.events_no_delete].filter (· ∉ triggers)
    if missing = [] then pure () else Job.raise (.schema_integrity missing)

/-- `migrate` -/
def migrate : SchemaJob Nat := do
  let current : Nat ← Job.query Schema.user_version
  if SCHEMA_VERSION < current then Job.raise (.schema_too_new current)
  else do
    migrations current MIGRATIONS
    hardening
    verifyAppendOnlyTriggers
    Job.query Schema.user_version

/-- The transaction of `migrate_projections`. -/
def projectionsTxn (current : Nat) : SchemaJob Unit :=
  Job.transaction do
    execDdlInTxn PROJECTIONS_V2_DDL
    let cols : List Column ← Job.query (fun s => s.columns.filter (fun d => d.table = .human_requests))
    if Column.attestation ∈ cols then pure ()
    else do
      statement (fun s => s.addColumn .attestation)
      statement Schema.attestLocal
    ensureColumn .prior_peer_identity_id
    ensureColumns V5_COLUMNS
    ensureApprovalsColumns
    ensureColumn .received_at
    execDdlInTxn V5_DDL
    if current < PROJECTIONS_SCHEMA_VERSION then do
      setUserVersion PROJECTIONS_SCHEMA_VERSION
      statement (fun s => s.recordProjections PROJECTIONS_SCHEMA_VERSION)
    else pure ()

/-- `migrate_projections` -/
def migrateProjections : SchemaJob Nat := do
  let current : Nat ← Job.query Schema.user_version
  if current < 1 then Job.raise .skeleton_migration_missing
  else if PROJECTIONS_SCHEMA_VERSION < current then Job.raise (.schema_too_new current)
  else do
    projectionsTxn current
    pure PROJECTIONS_SCHEMA_VERSION

/-- `migrate(conn)` and `migrate_projections(conn)` -/
def setUp : SchemaJob Nat := do
  let _ ← migrate
  migrateProjections

/-- A process that sets its database up and tells how that ended. -/
def setUpCode : Code Schema (List (Except (Exc MigrationError) Nat)) :=
  setUp (fun r => .act (fun ended => ended ++ [r]) .done .done)

/-- Any number of processes set one database up. -/
def setUps (init : Schema → Prop) :
    Machine (Host Schema (List (Except (Exc MigrationError) Nat)) Unit) (Host.Turn Unit) :=
  sharing (fun s ended => init s ∧ ended = []) (fun _ => setUpCode)

end MuseAgentSocial.Migrations
