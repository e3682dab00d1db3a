import MuseAgentSocial.Lib.Durable
import MuseAgentSocial.Lib.Machine
import MuseAgentSocial.Lib.Table

/-!
# The migration from v0.1

A model of `migrate.py`: `stage`, `verify`, `cutover`, `observe` and `rollback` of one
pair, as programs that may be cut at each of their durable effects.  The database is in
autocommit mode, so each `mstate_set` is such an effect, and so is each write of a key,
vault or bundle file.

What the hooks return is an argument of the call, and a hook that raises is a cut.
Signatures are symbolic: a signed message names its signer.  The keys of
`migration_state` that nothing reads are left out.
-/

namespace MuseAgentSocial.Migrate

open Durable

abbrev PairId := String

abbrev AgentId := String

/-- The legacy key of a pair. -/
abbrev PairKey := Nat

/-- `migration.phase` -/
inductive Phase where
  | idle
  | freezing
  | staged
  | verified
  | committed
  | complete
  | rolled_back
  deriving DecidableEq, Repr

/-- An identity of a ceremony, which also names its private key and the vault key that is
derived from it. -/
abbrev IdentityId := Nat

/-- What a call raises. -/
inductive Failure where
  | migration (code : String)
  | awaiting_peer (step : Nat)
  | key_error
  | vault_error
  | value_error
  deriving DecidableEq, Repr

/-! ## The vault and the rollback bundle -/

/-- A file of the migration vault. -/
inductive VaultFile where
  /-- The plaintext entry of the operator. -/
  | handoff (value : Nat)
  | sealed (enc_key : IdentityId) (value : Nat)
  /-- An entry that `vault_delete` has overwritten. -/
  | zeroed
  deriving DecidableEq, Repr

/-- `vault_load` -/
def vaultLoad (file : Option VaultFile) (enc_key : Option IdentityId) : Except Failure Nat :=
  match file with
  | none => .error .key_error
  | some (.handoff value) => .ok value
  | some (.sealed e value) => if enc_key = some e then .ok value else .error .vault_error
  | some .zeroed => .error .value_error

/-- What a bundle keeps of `bundle_contents`. -/
structure BundleContents where
  legacy_key : PairKey
  freeze : Nat
  deriving DecidableEq, Repr

/-- A bundle file: the key of its encryption with its contents, `none` once it is
overwritten. -/
structure BundleFile where
  path : Nat
  blob : Option (Nat × BundleContents)
  deriving DecidableEq, Repr

/-! ## The state of one side -/

/-- The rows of `migration_state`, the files, and the v0.1 sender of the operator. -/
structure State where
  phase : Phase := .idle
  my_identity_id : Option IdentityId := none
  /-- `backlog_count` of `migration.freeze`. -/
  freeze : Option Nat := none
  v01_sends_allowed : Bool := true
  bundle_path : Option Nat := none
  /-- The identity in `migration.peer_card_exchange`. -/
  peer_identity_id : Option IdentityId := none
  legacy_read_open : Bool := false
  drain_until : Option Nat := none
  /-- `legacy_adapted` of `migration.proof`. -/
  legacy_adapted : Option Int := none
  pair_id : Option PairId := none
  peer_legacy_id : Option AgentId := none
  my_legacy_id : Option AgentId := none
  identity_key : Option IdentityId := none
  /-- The vault entry of the pair. -/
  vault : Option VaultFile := none
  /-- The vault entry of the bundle's key. -/
  bundle_dek : Option VaultFile := none
  bundles : Table BundleFile.path := Table.empty
  /-- What `set_v01_sends` last told the sender. -/
  sender : Bool := true

/-- A step of the migration. -/
abbrev Step := Program State Failure

/-- `MigrationContext`, without the hooks and the agent ids, which no step reads. -/
structure Context where
  pair_id : PairId
  state_dir_is_legacy : Bool := false
  legacy_state_dir_exists : Bool := true
  deriving DecidableEq, Repr

/-! ## Ceremony keys and signed messages -/

/-- `_migration_identity_priv`.  `fresh` is the key that it generates, `none` stands for
`create=False`. -/
def migrationIdentityPriv (fresh : Option IdentityId) : Step IdentityId := do
  match ← .read State.identity_key with
  | some key => .ret key
  | none =>
    match fresh with
    | none => .raise (.migration "identity-key-missing")
    | some key => do
      .write (fun s => { s with identity_key := some key })
      .ret key

/-- `_assert_identity_matches` -/
def assertIdentityMatches : Step Unit := do
  match ← .read State.my_identity_id with
  | none => .ret ()
  | some recorded => do
    let key ← migrationIdentityPriv none
    if key = recorded then .ret () else .raise (.migration "identity-key-changed")

/-- The answer of the peer in `exchange_card`. -/
structure CardExchange where
  identity_id : IdentityId
  /-- `verify_card` accepts the card. -/
  card_ok : Bool
  /-- The signer of the exchange. -/
  signer : IdentityId
  pair_id : PairId
  deploy_pub_ok : Bool
  deriving DecidableEq, Repr

/-- `_verify_card_exchange` -/
def verifyCardExchange (ctx : Context) (envelope : CardExchange) : Step Unit :=
  if ¬ envelope.card_ok then .raise (.migration "card-invalid")
  else if envelope.signer ≠ envelope.identity_id then .raise (.migration "card-bad-signature")
  else if envelope.pair_id ≠ ctx.pair_id then .raise (.migration "card-pair-mismatch")
  else if ¬ envelope.deploy_pub_ok then .raise (.migration "card-bad-deploy-key")
  else .ret ()

/-- A message of the ceremony. -/
structure CeremonyMsg where
  kind : String
  pair_id : PairId
  identity_id : IdentityId
  signer : IdentityId
  /-- The keys of the body. -/
  keys : List String := []
  /-- `int(body["legacy_adapted"])`, `none` when it is no integer. -/
  legacy_adapted : Option Int := some 0
  deriving DecidableEq, Repr

/-- `_verify_ceremony_msg` -/
def verifyCeremonyMsg (msg : CeremonyMsg) (expected : IdentityId) (pair_id : PairId) (kind : String) : Step Unit :=
  if msg.kind ≠ kind then .raise (.migration (kind ++ "-kind-mismatch"))
  else if msg.pair_id ≠ pair_id then .raise (.migration (kind ++ "-pair-mismatch"))
  else if msg.identity_id ≠ expected then .raise (.migration (kind ++ "-binding-mismatch"))
  else if msg.signer ≠ msg.identity_id then .raise (.migration (kind ++ "-bad-signature"))
  else .ret ()

/-- `_peer_identity_id` -/
def peerIdentityId : Step IdentityId := do
  match ← .read State.peer_identity_id with
  | none => .raise (.migration "peer-card-missing")
  | some identity_id => .ret identity_id

/-- A hook that is not wired makes its step wait for the peer. -/
def required {α : Type} (step : Nat) : Option α → Step α
  | none => .raise (.awaiting_peer step)
  | some a => .ret a

/-- The hook `set_v01_sends`. -/
def notifySender (wired allowed : Bool) : Step Unit :=
  if wired then .write (fun s => { s with sender := allowed }) else .ret ()

/-- `_set_v01_sends`.  The flag is recorded with the hook or without. -/
def setV01Sends (wired allowed : Bool) : Step Unit := do
  notifySender wired allowed
  .write (fun s => { s with v01_sends_allowed := allowed })

/-! ## Stage -/

/-- What a call of `stage` draws and is answered. -/
structure StageCall where
  /-- The identity key that it generates when there is none. -/
  fresh : IdentityId
  dek : Nat
  /-- The time in the name of the bundle. -/
  name : Nat
  /-- The number of files that the drain finds. -/
  drained : Nat
  set_v01_sends : Bool := true
  dry_run_ok : Bool := true
  exchange_card : Option CardExchange := none
  compare_phrase : Option Bool := none
  provision_deploy_key : Option Unit := none
  deriving DecidableEq, Repr

/-- `destroy_rollback_bundle` -/
def destroyRollbackBundle (path : Nat) : Step Unit := do
  match ← .read (fun s : State => s.bundles.find path) with
  | none => .ret ()
  | some _ => do
    .write (fun s => { s with bundles := s.bundles.modify path (fun f => { f with blob := none }) (fun _ => rfl) })
    .write (fun s => { s with bundles := s.bundles.delete (fun f => f.path = path) })

/-- The bundle of an earlier attempt is destroyed. -/
def destroyOldBundle : Step Unit := do
  match ← .read State.bundle_path with
  | none => .ret ()
  | some old => destroyRollbackBundle old

/-- `create_rollback_bundle` -/
def createRollbackBundle (call : StageCall) (key : IdentityId) (contents : BundleContents) : Step Unit := do
  .write (fun s => { s with bundles := s.bundles.upsert ⟨call.name, some (call.dek, contents)⟩ })
  .write (fun s => { s with bundle_dek := some (.sealed key call.dek) })

/-- `read_rollback_bundle` -/
def State.readBundle (s : State) (path : Nat) : Option BundleContents :=
  match vaultLoad s.bundle_dek s.identity_key, s.bundles.find path with
  | .ok dek, some ⟨_, some (dek', contents)⟩ => if dek = dek' then some contents else none
  | _, _ => none

/-- Step 2 of `stage`. -/
def backup (call : StageCall) : Step Unit := do
  let key ← migrationIdentityPriv (some call.fresh)
  match vaultLoad (← .read State.vault) (some key) with
  | .error .key_error => .raise (.migration "vault-missing")
  | .error _ => .raise (.migration "vault-corrupt")
  | .ok legacy_key => do
    .write (fun s => { s with vault := some (.sealed key legacy_key) })
    destroyOldBundle
    createRollbackBundle call key ⟨legacy_key, call.drained⟩
    match ← .read (fun s : State => s.readBundle call.name) with
    | none => .raise .vault_error
    | some restored =>
      if restored.freeze ≠ call.drained then .raise (.migration "bundle-unrestorable")
      else .write (fun s => { s with bundle_path := some call.name })

/-- Steps 3 to 6 of `stage`, with the peer. -/
def coordinate (ctx : Context) (call : StageCall) : Step Unit :=
  if ¬ call.dry_run_ok then .raise (.migration "dry-run-failed")
  else do
    let envelope ← required 4 call.exchange_card
    verifyCardExchange ctx envelope
    .write (fun s => { s with peer_identity_id := some envelope.identity_id })
    let same ← required 5 call.compare_phrase
    if ¬ same then .raise (.migration "phrase-mismatch")
    else do
      required 6 call.provision_deploy_key
      .write (fun s => { s with phase := .staged })

/-- Step 1 of `stage`. -/
def freeze (ctx : Context) (call : StageCall) : Step Unit :=
  if ctx.state_dir_is_legacy then .raise (.migration "state-dir-collision")
  else if ¬ ctx.legacy_state_dir_exists then .raise (.migration "legacy-state-missing")
  else do
    .write (fun s => { s with phase := .freezing })
    .write (fun s => { s with freeze := some call.drained })
    setV01Sends call.set_v01_sends false

/-- `stage` -/
def stage (ctx : Context) (call : StageCall) : Step Unit := do
  let phase ← .read State.phase
  if phase ≠ .idle ∧ phase ≠ .rolled_back ∧ phase ≠ .freezing then .raise (.migration "bad-phase")
  else do
    let key ← migrationIdentityPriv (some call.fresh)
    assertIdentityMatches
    .write (fun s => { s with my_identity_id := some key })
    freeze ctx call
    backup call
    coordinate ctx call

/-! ## Verify -/

/-- What a call of `verify` is answered. -/
structure VerifyCall where
  sign_ready : Option Unit := none
  await_peer_ready : Option CeremonyMsg := none
  prove_roundtrip : Option CeremonyMsg := none
  deriving DecidableEq, Repr

/-- The proofs that step 8 requires. -/
def requiredProofs : List String :=
  ["relationship.ready", "message", "reaction", "receipt.accepted", "edit", "retraction"]

/-- `verify` -/
def verify (ctx : Context) (call : VerifyCall) : Step Unit := do
  let phase ← .read State.phase
  if phase ≠ .staged then .raise (.migration "bad-phase")
  else do
    assertIdentityMatches
    let peer ← peerIdentityId
    let _ ← migrationIdentityPriv none
    required 7 call.sign_ready
    let ready ← required 7 call.await_peer_ready
    verifyCeremonyMsg ready peer ctx.pair_id "migration.ready"
    .write (fun s => { s with legacy_read_open := true })
    let proof ← required 8 call.prove_roundtrip
    verifyCeremonyMsg proof peer ctx.pair_id "migration.proof"
    if ¬ requiredProofs.all (· ∈ proof.keys) then .raise (.migration "prove-incomplete")
    else
      match proof.legacy_adapted with
      | none => .raise (.migration "prove-count-mismatch")
      | some adapted => do
        let frozen ← .read State.freeze
        if adapted ≠ frozen.elim adapted Int.ofNat then .raise (.migration "prove-count-mismatch")
        else do
          .write (fun s => { s with legacy_adapted := some adapted })
          .write (fun s => { s with phase := .verified })

/-! ## Cutover -/

/-- What a call of `cutover` is answered. -/
structure CutoverCall where
  now : Nat
  set_v01_sends : Bool := true
  exchange_commit : Option CeremonyMsg := none
  revoke_old_deploy_key : Option Unit := none
  delete_peer_key_copy : Option Unit := none
  deriving DecidableEq, Repr

/-- `DRAIN_WINDOW` -/
def DRAIN_WINDOW : Nat := 86400

/-- `vault_delete`, without its error for an entry that is missing. -/
def vaultDelete (file : State → Option VaultFile) (store : Option VaultFile → State → State) : Step Unit := do
  match ← .read file with
  | none => .ret ()
  | some _ => do
    .write (store (some .zeroed))
    .write (store none)

/-- The part of `cutover` that can be repeated. -/
def prepareCutover (ctx : Context) (call : CutoverCall) : Step Unit := do
  assertIdentityMatches
  let peer ← peerIdentityId
  let _ ← migrationIdentityPriv none
  let commit ← required 9 call.exchange_commit
  verifyCeremonyMsg commit peer ctx.pair_id "migration.commit"
  required 9 call.revoke_old_deploy_key
  required 9 call.delete_peer_key_copy
  setV01Sends call.set_v01_sends false
  .write (fun s => { s with drain_until := some (call.now + DRAIN_WINDOW) })
  .write (fun s => { s with legacy_read_open := true })

/-- The check that the legacy key no longer loads. -/
def assertVaultDeleted (key : IdentityId) : Step Unit := do
  match vaultLoad (← .read State.vault) (some key) with
  | .ok _ => .raise (.migration "vault-not-deleted")
  | .error .key_error => .ret ()
  | .error e => .raise e

/-- The destructive section of `cutover`. -/
def destroyLegacy : Step Unit := do
  let key ← migrationIdentityPriv none
  vaultDelete State.vault (fun file s => { s with vault := file })
  assertVaultDeleted key
  match ← .read State.bundle_path with
  | none => .ret ()
  | some path => do
    destroyRollbackBundle path
    vaultDelete State.bundle_dek (fun file s => { s with bundle_dek := file })

/-- `cutover` -/
def cutover (ctx : Context) (call : CutoverCall) : Step Unit := do
  let phase ← .read State.phase
  if phase ≠ .verified then .raise (.migration "bad-phase")
  else do
    prepareCutover ctx call
    destroyLegacy
    .write (fun s => { s with phase := .committed })

/-! ## Observe and rollback -/

/-- What a call of `observe` reads.  A depth that cannot be read is `none`. -/
structure ObserveCall where
  now : Nat
  projection_queue : Option Nat
  scheduler_queue : Option Nat
  deriving DecidableEq, Repr

/-- `observe` -/
def observe (call : ObserveCall) : Step Unit := do
  let s ← .read id
  if s.phase ≠ .committed then .raise (.migration "bad-phase")
  else
    match s.drain_until with
    | none => .raise .value_error
    | some drain_until =>
      if call.now < drain_until then .write (fun s => { s with legacy_read_open := true })
      else
        match call.projection_queue, call.scheduler_queue with
        | some projection_queue, some scheduler_queue =>
          if projection_queue ≠ 0 ∨ scheduler_queue ≠ 0 then .raise (.migration "observe-queues-nonempty")
          else
            match s.freeze, s.legacy_adapted with
            | some backlog, some adapted =>
              if (backlog : Int) ≠ adapted then .raise (.migration "observe-count-mismatch")
              else do
                .write (fun s => { s with legacy_read_open := false })
                .write (fun s => { s with phase := .complete })
            | _, _ => .raise (.migration "observe-counts-unverifiable")
        | _, _ => .raise (.migration "observe-queues-unverifiable")

/-- `rollback` -/
def rollback (wired : Bool) : Step Unit := do
  let phase ← .read State.phase
  if phase = .committed ∨ phase = .complete then .raise (.migration "rollback-after-commit-refused")
  else if phase = .idle then .raise (.migration "nothing-to-roll-back")
  else do
    setV01Sends wired true
    let key ← migrationIdentityPriv none
    match vaultLoad (← .read State.vault) (some key) with
    | .error .key_error => .raise (.migration "rollback-key-missing")
    | .error e => .raise e
    | .ok _ => .write (fun s => { s with phase := .rolled_back })

/-! ## Runs -/

/-- What happens to one side, each call with the number of its durable effects after
which it is cut. -/
inductive Action where
  /-- The operator stores the legacy key. -/
  | handoff (key : PairKey)
  | stage (call : StageCall) (n : Budget)
  | verify (call : VerifyCall) (n : Budget)
  | cutover (call : CutoverCall) (n : Budget)
  | observe (call : ObserveCall) (n : Budget)
  | rollback (wired : Bool) (n : Budget)
  deriving DecidableEq, Repr

/-- The state after an action. -/
def Action.next (ctx : Context) (s : State) : Action → State
  | .handoff key => { s with vault := some (.handoff key) }
  | .stage call n => (Migrate.stage ctx call).state n s
  | .verify call n => (Migrate.verify ctx call).state n s
  | .cutover call n => (Migrate.cutover ctx call).state n s
  | .observe call n => (Migrate.observe call).state n s
  | .rollback wired n => (Migrate.rollback wired).state n s

/-- One side of a migration, from a new state directory. -/
def migration (ctx : Context) : Machine State Action where
  init s := s = {}
  step s a := some (a.next ctx s)

end MuseAgentSocial.Migrate
