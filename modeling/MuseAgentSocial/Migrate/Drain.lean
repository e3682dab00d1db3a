import Mathlib.Data.Finset.Insert
import MuseAgentSocial.Lib.Base64
import MuseAgentSocial.Migrate.Cutover

/-!
# The drain of v0.1 objects

A model of `_receive_v01` with the checks of `verify_v01`, for the objects that
`detect_v01` recognises.

* `receiveV01_accepts`: an object of the peer is accepted when the pair id, the legacy ids
  and the pair key are at hand.
* `Unrecorded` is what no step of a migration changes: `_receive_v01` reads the pair id from
  a key that is never written.
* `drain_rejects`: after a cutover every object is quarantined.

The HMAC is symbolic: a signature names its key and what it signs.
-/

namespace MuseAgentSocial.Migrate

open Durable Durable.Program

/-! ## Objects -/

/-- `LEGACY_TYPES` -/
inductive LegacyType where
  | note
  | link
  | article
  | file_ref
  | file
  deriving DecidableEq, Repr

/-- The attachment of an envelope: a field is `none` when it has another type. -/
structure LegacyAttachment where
  filename : Option String
  size : Option Int
  content_type : Option String := none
  data : Option String
  deriving DecidableEq, Repr

/-- An attachment of v0.2.  The digest is named by what it digests. -/
structure Attachment where
  filename : String
  size : Int
  content_type : String
  data : String
  sha256 : List UInt8
  deriving DecidableEq, Repr

/-- `MAX_ATTACHMENT_BYTES` -/
def MAX_ATTACHMENT_BYTES : Int := 131072

/-- `_adapt_v01_attachment`, of an object. -/
def adaptAttachment (attachment : LegacyAttachment) : Option Attachment :=
  match attachment.filename, attachment.size, attachment.data with
  | some filename, some size, some data =>
    if filename = "" ∨ '/' ∈ filename.toList ∨ '\\' ∈ filename.toList ∨ size < 0 ∨ MAX_ATTACHMENT_BYTES < size then none
    else
      match Base64.a2b true data.toList with
      | none => none
      | some raw =>
        if (raw.length : Int) ≠ size then none
        else
          some
            { filename, size, data
              content_type := attachment.content_type.getD "application/octet-stream"
              sha256 := raw }
  | _, _, _ => none

/-- An envelope without its signature.  `sender` and `recipient` are `from` and `to`, and
`created_at` is `none` in a wrong format. -/
structure LegacyContent where
  id : String
  sender : AgentId
  recipient : AgentId
  pair : PairId
  type : LegacyType
  title : String
  body : String
  created_at : Option Nat
  nonce : String
  /-- `none` when there is none, or it is no object. -/
  attachment : Option LegacyAttachment := none
  url : String := ""
  deriving DecidableEq, Repr

/-- An envelope, whose signature may be none of any key. -/
structure LegacyEnvelope extends LegacyContent where
  sig : Option (PairKey × LegacyContent)
  deriving DecidableEq, Repr

/-- An object with the size of its bytes.  The envelope is `none` when a field is no text or
the type is unknown. -/
structure LegacyObject where
  size : Nat
  envelope : Option LegacyEnvelope
  deriving DecidableEq, Repr

/-- The codes of `verify_v01`. -/
inductive LegacyCode where
  | V01_DRAIN_CLOSED
  | V01_OVERSIZE
  | V01_FIELDSET_MISMATCH
  | V01_SENDER_MISMATCH
  | V01_RECIPIENT_MISMATCH
  | V01_PAIR_MISMATCH
  | V01_HMAC_INVALID
  | V01_MISSING_NONCE
  | V01_BAD_TIMESTAMP
  | V01_FUTURE
  | V01_STALE
  | V01_REPLAY
  | V01_RATE_LIMITED
  deriving DecidableEq, Repr

/-- `LegacyPolicy`, with the replay store as the list of what it has seen. -/
structure LegacyPolicy where
  pair_id : PairId
  expected_sender : AgentId
  my_agent_id : AgentId
  daily_cap : Nat := 5
  accepted_today : Nat := 0
  seen : List String
  legacy_read_open : Bool
  deriving DecidableEq, Repr

/-- `MAX_V01_BYTES` -/
def MAX_V01_BYTES : Nat := 262144

/-- `V01_FUTURE_TOLERANCE` -/
def V01_FUTURE_TOLERANCE : Nat := 3600

/-- `V01_AGE_WINDOW_DAYS`, in seconds. -/
def V01_AGE_WINDOW : Nat := 7 * 86400

/-- `_check_routing` -/
def checkRouting (e : LegacyEnvelope) (policy : LegacyPolicy) : Except LegacyCode Unit :=
  if e.sender ≠ policy.expected_sender then .error .V01_SENDER_MISMATCH
  else if e.recipient ≠ policy.my_agent_id then .error .V01_RECIPIENT_MISMATCH
  else if e.pair ≠ policy.pair_id then .error .V01_PAIR_MISMATCH
  else .ok ()

/-- `_check_age` -/
def checkAge (e : LegacyEnvelope) (now : Nat) : Except LegacyCode Unit :=
  match e.created_at with
  | none => .error .V01_BAD_TIMESTAMP
  | some created =>
    if now + V01_FUTURE_TOLERANCE < created then .error .V01_FUTURE
    else if created + V01_AGE_WINDOW < now then .error .V01_STALE
    else .ok ()

/-- `verify_v01` -/
def verifyV01 (obj : LegacyObject) (pair_key : PairKey) (policy : LegacyPolicy) (now : Nat) :
    Except LegacyCode LegacyEnvelope :=
  if ¬ policy.legacy_read_open then .error .V01_DRAIN_CLOSED
  else if MAX_V01_BYTES < obj.size then .error .V01_OVERSIZE
  else
    match obj.envelope with
    | none => .error .V01_FIELDSET_MISMATCH
    | some e => do
      checkRouting e policy
      if e.sig ≠ some (pair_key, e.toLegacyContent) then .error .V01_HMAC_INVALID
      else if e.nonce = "" then .error .V01_MISSING_NONCE
      else do
        checkAge e now
        if e.nonce ∈ policy.seen ∨ "v01id:" ++ e.id ∈ policy.seen then .error .V01_REPLAY
        else if policy.daily_cap ≤ policy.accepted_today then .error .V01_RATE_LIMITED
        else .ok e

/-! ## The tables -/

/-- A row of `events`.  A synthetic id is derived from the pair and the legacy id. -/
structure LegacyEvent where
  event_id : PairId × String
  relationship_id : String
  sender : AgentId
  sender_seq : Nat
  created_at : Option Nat
  replay_nonce : String
  /-- The bytes of an envelope, `none` for those of a v0.1 object. -/
  sealed_envelope : Option Nat := none
  deriving DecidableEq, Repr

/-- What `_receive_v01` reads and writes. -/
structure Store where
  migration : State := {}
  /-- `migration.seq_assigner` -/
  seq_assigner : List (String × Nat) := []
  vault_dir_exists : Bool := false
  events : Table LegacyEvent.event_id := Table.empty
  /-- The bodies in `event_payloads`. -/
  payloads : List ((PairId × String) × String) := []
  projection_queue : List (PairId × String) := []
  replay_guard : List String := []
  receive_quarantine : List (String × String) := []

/-- How `_receive_v01` ends. -/
inductive Outcome where
  | accepted
  | quarantined (reason : String)
  | raised (e : Failure)
  deriving DecidableEq, Repr

/-- `SeqAssigner.assign` -/
def assignSeq (assigned : List (String × Nat)) (name : String) : Nat × List (String × Nat) :=
  match assigned.lookup name with
  | some seq => (seq, assigned)
  | none =>
    let seq := (assigned.map Prod.snd).max?.getD 0 + 1
    (seq, assigned ++ [(name, seq)])

/-- The body that is stored. -/
def LegacyContent.payload (e : LegacyContent) : String :=
  let body :=
    if e.type = .file ∧ (e.attachment.bind adaptAttachment).isNone ∧ e.body = "" then
      "File attachment omitted: exceeds the v0.2 128 KiB limit."
    else e.body
  if e.title = "" then body else e.title ++ "\n\n" ++ body

/-- The transaction of `_receive_v01`.  `referenced` says that the relationship has its first
key epoch. -/
def Store.persist (s : Store) (rid : String) (referenced : Bool) (pair_id : PairId) (e : LegacyEnvelope) :
    Option Store :=
  let (seq, seq_assigner) := assignSeq s.seq_assigner e.id
  let row : LegacyEvent := ⟨(pair_id, e.id), rid, e.sender, seq, e.created_at, "v01:" ++ e.nonce, none⟩
  if ¬ referenced ∨ s.events.rows.any (fun r => r.replay_nonce = row.replay_nonce ∨
      (r.relationship_id = rid ∧ r.sender = row.sender ∧ r.sender_seq = row.sender_seq)) ∨
      row.event_id ∈ s.projection_queue then none
  else
    (s.events.insert row).map fun events =>
      { s with
        seq_assigner
        events
        payloads := s.payloads ++ [(row.event_id, e.payload)]
        projection_queue := s.projection_queue ++ [row.event_id]
        replay_guard := s.replay_guard ++ [e.nonce, "v01id:" ++ e.id] }

/-! ## `_receive_v01` -/

/-- `drain_open` -/
def drainOpen (s : State) (now : Nat) : Bool := s.legacy_read_open && s.drain_until.all (now < ·)

/-- The vault entry and the identity key of a pair. -/
def filesOf (ctx : Context) (s : State) (pair_id : PairId) : Option VaultFile × Option IdentityId :=
  if pair_id = ctx.pair_id then (s.vault, s.identity_key) else (none, none)

/-- The pair key as `_receive_v01` loads it: sealed if it can, else in plaintext. -/
def loadPairKey (files : Option VaultFile × Option IdentityId) : Except Failure PairKey :=
  match files.2 with
  | none => vaultLoad files.1 none
  | some key =>
    match vaultLoad files.1 (some key) with
    | .error .vault_error => vaultLoad files.1 none
    | r => r

/-- `_quarantine_outcome` -/
def Store.quarantine (s : Store) (object_name reason : String) : Outcome × Store :=
  (.quarantined reason, { s with receive_quarantine := s.receive_quarantine ++ [(object_name, reason)] })

/-- An object that comes in. -/
structure Arrival where
  rid : String
  object_name : String
  data : LegacyObject
  now : Nat
  referenced : Bool := true
  deriving DecidableEq, Repr

/-- `id or "*"` -/
def orAny (id : Option AgentId) : AgentId := if id.getD "" = "" then "*" else id.getD ""

/-- The policy of the drain. -/
def Store.policy (s : Store) (pair_id : PairId) (now : Nat) : LegacyPolicy where
  pair_id := pair_id
  expected_sender := orAny s.migration.peer_legacy_id
  my_agent_id := orAny s.migration.my_legacy_id
  seen := s.replay_guard
  legacy_read_open := drainOpen s.migration now

/-- `_receive_v01` -/
def receiveV01 (ctx : Context) (a : Arrival) (s : Store) : Outcome × Store :=
  if s.migration.phase ≠ .staged ∧ s.migration.phase ≠ .verified ∧ s.migration.phase ≠ .committed then
    s.quarantine a.object_name "v01_not_accepted"
  else
    match s.migration.pair_id with
    | none => s.quarantine a.object_name "v01_no_vault"
    | some pair_id =>
      if pair_id = "" ∨ ¬ s.vault_dir_exists then s.quarantine a.object_name "v01_no_vault"
      else
        match loadPairKey (filesOf ctx s.migration pair_id) with
        | .error .value_error => (.raised .value_error, s)
        | .error _ => s.quarantine a.object_name "v01_no_vault"
        | .ok pair_key =>
          match verifyV01 a.data pair_key (s.policy pair_id a.now) a.now with
          | .error _ => s.quarantine a.object_name "v01_verify_failed"
          | .ok e =>
            match s.persist a.rid a.referenced pair_id e with
            | none => s.quarantine a.object_name "v01_storage_conflict"
            | some s' => (.accepted, s')

/-! ## Objects that should be accepted -/

/-- A well-formed object of the peer `peer` to `me`, signed with the pair key, fresh and not
seen yet. -/
structure Genuine (obj : LegacyObject) (pair_key : PairKey) (pair_id : PairId) (peer me : AgentId) (now : Nat)
    (seen : List String) (e : LegacyEnvelope) : Prop where
  size : obj.size ≤ MAX_V01_BYTES
  envelope : obj.envelope = some e
  sender : e.sender = peer
  recipient : e.recipient = me
  pair : e.pair = pair_id
  sig : e.sig = some (pair_key, e.toLegacyContent)
  nonce : e.nonce ≠ ""
  fresh : ∃ created, e.created_at = some created ∧ created ≤ now + V01_FUTURE_TOLERANCE ∧ now ≤ created + V01_AGE_WINDOW
  unseen : e.nonce ∉ seen ∧ "v01id:" ++ e.id ∉ seen

theorem verifyV01_genuine {obj : LegacyObject} {pair_key : PairKey} {policy : LegacyPolicy} {now : Nat}
    {e : LegacyEnvelope}
    (h : Genuine obj pair_key policy.pair_id policy.expected_sender policy.my_agent_id now policy.seen e)
    (hopen : policy.legacy_read_open = true) (hcap : policy.accepted_today < policy.daily_cap) :
    verifyV01 obj pair_key policy now = .ok e := by
  obtain ⟨created, hcreated, hfuture, hstale⟩ := h.fresh
  have hage : checkAge e now = .ok () := by
    unfold checkAge
    rw [hcreated]
    dsimp only
    rw [if_neg (by omega), if_neg (by omega)]
  have hrouting : checkRouting e policy = .ok () := by
    unfold checkRouting
    rw [if_neg (by simp [h.sender]), if_neg (by simp [h.recipient]), if_neg (by simp [h.pair])]
  unfold verifyV01
  rw [if_neg (by simp [hopen]), if_neg (by simpa using h.size), h.envelope]
  simp only [hrouting, hage]
  rw [if_neg (by simp [h.sig]), if_neg h.nonce, if_neg (by simp [h.unseen]), if_neg (by omega)]
  rfl

/-- With the pair id, the legacy ids and the pair key at hand, a genuine object is accepted
or conflicts with what is stored. -/
theorem receiveV01_accepts {ctx : Context} {a : Arrival} {s : Store} {pair_key : PairKey} {e : LegacyEnvelope}
    (hphase : s.migration.phase = .committed) (hpair : s.migration.pair_id = some ctx.pair_id)
    (hname : ctx.pair_id ≠ "") (hdir : s.vault_dir_exists = true)
    (hkey : loadPairKey (s.migration.vault, s.migration.identity_key) = .ok pair_key)
    (hopen : drainOpen s.migration a.now = true)
    (h : Genuine a.data pair_key ctx.pair_id (orAny s.migration.peer_legacy_id) (orAny s.migration.my_legacy_id) a.now
      s.replay_guard e) :
    (receiveV01 ctx a s).1 =
      if (s.persist a.rid a.referenced ctx.pair_id e).isSome then .accepted else .quarantined "v01_storage_conflict" := by
  have hverify : verifyV01 a.data pair_key (s.policy ctx.pair_id a.now) a.now = .ok e :=
    verifyV01_genuine h hopen (show 0 < 5 by decide)
  unfold receiveV01
  rw [if_neg (by simp [hphase]), hpair]
  dsimp only
  rw [if_neg (by simp [hname, hdir]), show filesOf ctx s.migration ctx.pair_id = _ from if_pos rfl, hkey]
  dsimp only
  rw [hverify]
  dsimp only
  cases s.persist a.rid a.referenced ctx.pair_id e <;> rfl

/-! ## What a migration never records -/

/-- No step has written the keys that `_receive_v01` reads. -/
def Unrecorded (s : State) : Prop :=
  s.pair_id = none ∧ s.peer_legacy_id = none ∧ s.my_legacy_id = none

section unrecorded

variable {ctx : Context}

theorem unrecorded_stage (call : StageCall) : Keeps Unrecorded (stage ctx call) := by
  have hbackup : Keeps Unrecorded (backup call) :=
    backup_writes (fun _ _ h => h) (fun _ _ h => h) (fun _ _ h => h) (fun _ _ h => h) (fun _ _ h => h)
  have hcoordinate : Keeps Unrecorded (coordinate ctx call) := coordinate_writes (fun _ _ h => h) (fun _ h => h)
  unfold stage migrationIdentityPriv freeze
  refine Keeps.bind (Keeps.read _) (fun phase => Keeps.ite (fun _ => Keeps.raise _) (fun _ => ?_))
  refine Keeps.bind (Keeps.bind (Keeps.read _) (fun key => ?_)) (fun key => ?_)
  · cases key with
    | none => exact Keeps.bind (Keeps.write (fun _ h => h)) (fun _ => Keeps.ret _)
    | some key => exact Keeps.ret _
  refine Keeps.bind assertIdentityMatches_keeps (fun _ => Keeps.bind (Keeps.write (fun _ h => h)) (fun _ => ?_))
  refine Keeps.bind ?_ (fun _ => Keeps.bind hbackup (fun _ => hcoordinate))
  refine Keeps.ite (fun _ => Keeps.raise _) (fun _ => Keeps.ite (fun _ => Keeps.raise _) (fun _ => ?_))
  refine Keeps.bind (Keeps.write (fun _ h => h)) (fun _ => Keeps.bind (Keeps.write (fun _ h => h)) (fun _ => ?_))
  exact setV01Sends_keeps (fun _ h => h) (fun _ h => h)

theorem unrecorded_verify (call : VerifyCall) : Keeps Unrecorded (verify ctx call) :=
  verify_writes (fun _ h => h) (fun _ _ h => h) (fun _ h => h)

theorem unrecorded_cutover (call : CutoverCall) : Keeps Unrecorded (cutover ctx call) := by
  unfold cutover
  refine Keeps.bind (Keeps.read _) (fun phase => Keeps.ite (fun _ => Keeps.raise _) (fun _ => ?_))
  refine Keeps.bind (prepareCutover_keeps (fun _ h => h) (fun _ h => h) (fun _ h => h) (fun _ h => h)) (fun _ => ?_)
  exact Keeps.bind (destroyLegacy_keeps (fun _ _ h => h) (fun _ _ h => h) (fun _ _ h => h))
    (fun _ => Keeps.write (fun _ h => h))

theorem unrecorded_observe (call : ObserveCall) : Keeps Unrecorded (observe call) :=
  observe_writes_keeps (fun _ _ h => h) (fun _ h => h)

theorem unrecorded_rollback (wired : Bool) : Keeps Unrecorded (rollback wired) := by
  unfold rollback
  refine Keeps.bind (Keeps.read _) (fun phase => Keeps.ite (fun _ => Keeps.raise _) (fun _ => ?_))
  refine Keeps.ite (fun _ => Keeps.raise _) (fun _ => ?_)
  refine Keeps.bind (setV01Sends_keeps (fun _ h => h) (fun _ h => h)) (fun _ => ?_)
  refine Keeps.bind migrationIdentityPriv_keeps (fun key => Keeps.bind (Keeps.read _) (fun file => ?_))
  cases vaultLoad file (some key) with
  | error e => cases e <;> exact Keeps.raise _
  | ok legacy_key => exact Keeps.write (fun _ h => h)

theorem unrecorded_next {s : State} (a : Action) (h : Unrecorded s) : Unrecorded (a.next ctx s) := by
  cases a with
  | handoff key => exact h
  | stage call n => exact unrecorded_stage call n s h
  | verify call n => exact unrecorded_verify call n s h
  | cutover call n => exact unrecorded_cutover call n s h
  | observe call n => exact unrecorded_observe call n s h
  | rollback wired n => exact unrecorded_rollback wired n s h

end unrecorded

/-! ## The drain -/

/-- A step of one side: the migration goes on, or an object comes in. -/
inductive SideAction where
  | migrate (a : Action)
  | receive (a : Arrival)
  deriving DecidableEq, Repr

/-- The state after a step.  The vault directory is there once something was stored in it. -/
def SideAction.next (ctx : Context) (s : Store) : SideAction → Store
  | .migrate a =>
    let migration := a.next ctx s.migration
    { s with migration, vault_dir_exists := s.vault_dir_exists || migration.vault.isSome }
  | .receive a => (receiveV01 ctx a s).2

/-- One side of a migration that receives v0.1 objects. -/
def draining (ctx : Context) : Machine Store SideAction where
  init s := s = {}
  step s a := some (a.next ctx s)

section drain

variable {ctx : Context} {s : Store}

theorem envelope_of_verifyV01 {obj : LegacyObject} {key : PairKey} {policy : LegacyPolicy} {now : Nat}
    {e : LegacyEnvelope} (h : verifyV01 obj key policy now = .ok e) : obj.envelope = some e := by
  unfold verifyV01 at h
  split at h
  · cases h
  split at h
  · cases h
  split at h
  · cases h
  rename_i e' henvelope
  simp only [Bind.bind, Except.bind] at h
  split at h
  · cases h
  split at h
  · cases h
  split at h
  · cases h
  split at h
  · cases h
  split at h
  · cases h
  split at h
  · cases h
  · obtain rfl := Except.ok.inj h
    exact henvelope

/-- `_receive_v01` stores the event of the object, or leaves all but the quarantine alone. -/
theorem receiveV01_eq (ctx : Context) (a : Arrival) (s : Store) :
    ((receiveV01 ctx a s).1 ≠ .accepted ∧
      ∃ receive_quarantine, (receiveV01 ctx a s).2 = { s with receive_quarantine }) ∨
    ∃ pair_id e, s.migration.pair_id = some pair_id ∧ a.data.envelope = some e ∧
      s.persist a.rid a.referenced pair_id e = some (receiveV01 ctx a s).2 := by
  have hquarantine : ∀ reason, (s.quarantine a.object_name reason).1 ≠ .accepted ∧
      ∃ receive_quarantine, (s.quarantine a.object_name reason).2 = { s with receive_quarantine } :=
    fun reason => ⟨by simp [Store.quarantine], _, rfl⟩
  unfold receiveV01
  split
  · exact Or.inl (hquarantine _)
  split
  · exact Or.inl (hquarantine _)
  rename_i pair_id hpair
  split
  · exact Or.inl (hquarantine _)
  split
  · exact Or.inl ⟨by simp, s.receive_quarantine, rfl⟩
  · exact Or.inl (hquarantine _)
  split
  · exact Or.inl (hquarantine _)
  rename_i e hverify
  split
  · exact Or.inl (hquarantine _)
  · rename_i s' hpersist
    exact Or.inr ⟨pair_id, e, hpair, envelope_of_verifyV01 hverify, hpersist⟩

theorem receiveV01_migration (a : Arrival) : (receiveV01 ctx a s).2.migration = s.migration := by
  obtain ⟨-, receive_quarantine, heq⟩ | ⟨pair_id, e, -, -, hpersist⟩ := receiveV01_eq ctx a s
  · rw [heq]
  · unfold Store.persist at hpersist
    dsimp only at hpersist
    split at hpersist
    · exact absurd hpersist (by simp)
    · obtain ⟨events, -, heq⟩ := Option.map_eq_some_iff.mp hpersist
      rw [← heq]

theorem draining_unrecorded (h : (draining ctx).Reachable s) : Unrecorded s.migration := by
  refine h.invariant (P := fun s => Unrecorded s.migration) ?_ (fun s a t hs _ hstep => ?_)
  · rintro s rfl
    exact ⟨rfl, rfl, rfl⟩
  · obtain rfl := Option.some.inj hstep
    cases a with
    | migrate a => exact unrecorded_next a hs
    | receive a =>
      show Unrecorded (receiveV01 ctx a s).2.migration
      rwa [receiveV01_migration]

/-- After a cutover every v0.1 object is quarantined for want of the pair id, whatever it is
and whenever it comes. -/
theorem drain_rejects (h : (draining ctx).Reachable s) (hphase : s.migration.phase = .committed) (a : Arrival) :
    receiveV01 ctx a s = s.quarantine a.object_name "v01_no_vault" := by
  unfold receiveV01
  rw [if_neg (by simp [hphase]), (draining_unrecorded h).1]

end drain

/-! ## A genuine object in the drain window -/

/-- A message of the peer that is signed with the pair key 5. -/
def sampleEnvelope : LegacyEnvelope :=
  let content : LegacyContent := ⟨"legacy-1", "bob", "alice", "pair", .note, "hello", "world", some 900, "n1", none, ""⟩
  { content with sig := some (5, content) }

def sampleArrival : Arrival := ⟨"rel", "obj1.json", ⟨400, some sampleEnvelope⟩, 2000, true⟩

/-- A migration up to the phase `committed`. -/
def sampleDrain : List SideAction := (sampleRun ++ [Action.cutover sampleCutover none]).map .migrate

theorem drain_rejects_sampleArrival :
    ∃ s, (draining sampleContext).run {} sampleDrain = some s ∧ s.migration.phase = .committed ∧
      receiveV01 sampleContext sampleArrival s = s.quarantine "obj1.json" "v01_no_vault" := by
  obtain ⟨s, hrun, hphase⟩ :
      ∃ s, (draining sampleContext).run {} sampleDrain = some s ∧ s.migration.phase = .committed := by
    decide +kernel
  exact ⟨s, hrun, hphase, drain_rejects (Machine.reachable_of_run rfl hrun) hphase sampleArrival⟩

/-- A genuine object that comes in while the drain is open is not accepted. -/
theorem drain_misses_genuine :
    ∃ s, (draining sampleContext).run {} sampleDrain = some s ∧ s.migration.phase = .committed ∧
      drainOpen s.migration sampleArrival.now = true ∧
      Genuine sampleArrival.data 5 sampleContext.pair_id "bob" "alice" sampleArrival.now s.replay_guard sampleEnvelope ∧
      (receiveV01 sampleContext sampleArrival s).1 = .quarantined "v01_no_vault" := by
  obtain ⟨s, hrun, hphase, hopen, hseen, hrejected⟩ :
      ∃ s, (draining sampleContext).run {} sampleDrain = some s ∧ s.migration.phase = .committed ∧
        drainOpen s.migration sampleArrival.now = true ∧ s.replay_guard = [] ∧
        (receiveV01 sampleContext sampleArrival s).1 = .quarantined "v01_no_vault" := by
    decide +kernel
  refine ⟨s, hrun, hphase, hopen, ?_, hrejected⟩
  exact ⟨by decide, rfl, rfl, rfl, rfl, rfl, by decide, ⟨900, rfl, by decide, by decide⟩, by simp [hseen]⟩

end MuseAgentSocial.Migrate
