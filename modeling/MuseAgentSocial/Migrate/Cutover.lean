import MuseAgentSocial.Migrate.Ceremony

/-!
# Cutover and rollback

`cutover` overwrites the legacy key before it writes the phase `committed`, so a cut in
between leaves a migration that cannot be rolled back.

* `Kept` is what a failed cutover should leave.
* `Staged` is the invariant: in the phases `staged` and `verified` the key and the bundle
  can be read.
* `cutover_kept_iff` says at which cuts a cutover leaves `Kept`.
* `cutover_failure_keeps_rollback` says it for every run.
-/

namespace MuseAgentSocial.Migrate

open Durable Durable.Program

/-- The legacy key and the bundle of `stage` can be read. -/
structure Held (s : State) : Prop where
  identity : ∃ key, s.identity_key = some key
  vault : ∃ legacy_key, vaultLoad s.vault s.identity_key = .ok legacy_key
  bundle : ∃ path contents, s.bundle_path = some path ∧ s.readBundle path = some contents

/-- `rollback` returns, and the v0.1 sends are on again. -/
def RollsBack (s : State) : Prop :=
  ∀ wired, ∃ s', (rollback wired) none s = (.returned (), none, s') ∧ s'.v01_sends_allowed = true ∧
    (wired = true → s'.sender = true)

/-- The migration is committed, or its key and bundle are there and it can be rolled back. -/
def Kept (s : State) : Prop :=
  s.phase = .committed ∨ s.phase = .complete ∨ (Held s ∧ RollsBack s)

/-- The invariant of a migration. -/
structure Staged (s : State) : Prop where
  identity : ∀ key, s.my_identity_id = some key → s.identity_key = some key
  held : s.phase = .staged ∨ s.phase = .verified → Held s

/-! ## Reads -/

section reads

variable {s s' : State} {n n' : Budget}

theorem migrationIdentityPriv_returned {key : IdentityId} :
    migrationIdentityPriv none n s = (.returned key, n', s') ↔ s.identity_key = some key ∧ n' = n ∧ s' = s := by
  unfold migrationIdentityPriv
  rw [bind_eq, bind_returned (read_run _ _ _)]
  cases hkey : s.identity_key with
  | none => simp
  | some key' => simp [Prod.ext_iff, eq_comm]

theorem assertIdentityMatches_returned {a : Unit} :
    assertIdentityMatches n s = (.returned a, n', s') ↔
      (∀ key, s.my_identity_id = some key → s.identity_key = some key) ∧ n' = n ∧ s' = s := by
  unfold assertIdentityMatches
  rw [bind_eq, bind_returned (read_run _ _ _)]
  cases hrecorded : s.my_identity_id with
  | none => simp [Prod.ext_iff, eq_comm]
  | some recorded =>
    dsimp only
    rw [bind_eq, bind_eq_returned]
    constructor
    · rintro ⟨key, m, t, hkey, hrun⟩
      obtain ⟨hidentity, rfl, rfl⟩ := migrationIdentityPriv_returned.mp hkey
      split at hrun
      · rename_i heq
        obtain ⟨-, hn, hs⟩ := ret_eq_returned.mp hrun
        refine ⟨fun key' hkey' => ?_, hn, hs⟩
        rw [hidentity, heq, hkey']
      · exact absurd hrun raise_ne_returned
    · rintro ⟨hkey, rfl, rfl⟩
      exact ⟨recorded, _, _, migrationIdentityPriv_returned.mpr ⟨hkey recorded rfl, rfl, rfl⟩, by simp⟩

theorem peerIdentityId_returned {peer : IdentityId} :
    peerIdentityId n s = (.returned peer, n', s') ↔ s.peer_identity_id = some peer ∧ n' = n ∧ s' = s := by
  unfold peerIdentityId
  rw [bind_eq, bind_returned (read_run _ _ _)]
  cases hpeer : s.peer_identity_id with
  | none => simp
  | some peer' => simp [Prod.ext_iff, eq_comm]

theorem required_returned {α : Type} {step : Nat} {a : Option α} {b : α} :
    required step a n s = (.returned b, n', s') ↔ a = some b ∧ n' = n ∧ s' = s := by
  cases a with
  | none => simp [required]
  | some a => simp [required, Prod.ext_iff, eq_comm]

/-- What `_verify_ceremony_msg` checks. -/
def CeremonyMsg.Valid (msg : CeremonyMsg) (expected : IdentityId) (pair_id : PairId) (kind : String) : Prop :=
  msg.kind = kind ∧ msg.pair_id = pair_id ∧ msg.identity_id = expected ∧ msg.signer = msg.identity_id

instance (msg : CeremonyMsg) (expected : IdentityId) (pair_id : PairId) (kind : String) :
    Decidable (msg.Valid expected pair_id kind) := by
  unfold CeremonyMsg.Valid
  infer_instance

theorem verifyCeremonyMsg_returned {msg : CeremonyMsg} {expected : IdentityId} {pair_id : PairId} {kind : String}
    {a : Unit} :
    verifyCeremonyMsg msg expected pair_id kind n s = (.returned a, n', s') ↔
      msg.Valid expected pair_id kind ∧ n' = n ∧ s' = s := by
  unfold verifyCeremonyMsg CeremonyMsg.Valid
  split_ifs <;> simp_all [Prod.ext_iff, eq_comm]

end reads

/-! ## Rollback -/

section rollback

variable {s : State}

theorem rollsBack_of_held (h : Held s) (hidle : s.phase ≠ .idle) (hcommitted : s.phase ≠ .committed)
    (hcomplete : s.phase ≠ .complete) : RollsBack s := by
  obtain ⟨key, hkey⟩ := h.identity
  obtain ⟨legacy_key, hload⟩ := h.vault
  rw [hkey] at hload
  intro wired
  cases wired <;>
    simp [rollback, setV01Sends, notifySender, migrationIdentityPriv, Program.bind, Program.read, Program.write, hidle,
      hcommitted, hcomplete, hkey, hload]

end rollback

/-! ## What the other steps keep -/

/-- A migration between `idle` and `staged`. -/
structure Open (s : State) : Prop where
  identity : ∀ key, s.my_identity_id = some key → s.identity_key = some key
  phase : ¬ (s.phase = .staged ∨ s.phase = .verified)

theorem Open.staged {s : State} (h : Open s) : Staged s := ⟨h.identity, fun hphase => absurd hphase h.phase⟩

section keeps

variable {P Q : State → Prop} {ctx : Context}

theorem assertIdentityMatches_keeps : Keeps P assertIdentityMatches := by
  unfold assertIdentityMatches migrationIdentityPriv
  refine Keeps.bind (Keeps.read _) (fun recorded => ?_)
  cases recorded with
  | none => exact Keeps.ret _
  | some recorded =>
    refine Keeps.bind (Keeps.bind (Keeps.read _) (fun key => ?_)) (fun key => ?_)
    · cases key with
      | none => exact Keeps.raise _
      | some key => exact Keeps.ret _
    · exact Keeps.ite (fun _ => Keeps.ret _) (fun _ => Keeps.raise _)

theorem migrationIdentityPriv_keeps : Keeps P (migrationIdentityPriv none) := by
  unfold migrationIdentityPriv
  refine Keeps.bind (Keeps.read _) (fun key => ?_)
  cases key with
  | none => exact Keeps.raise _
  | some key => exact Keeps.ret _

theorem peerIdentityId_keeps : Keeps P peerIdentityId := by
  unfold peerIdentityId
  refine Keeps.bind (Keeps.read _) (fun peer => ?_)
  cases peer with
  | none => exact Keeps.raise _
  | some peer => exact Keeps.ret _

theorem required_keeps {α : Type} (step : Nat) (a : Option α) : Keeps P (required step a) := by
  cases a with
  | none => exact Keeps.raise _
  | some a => exact Keeps.ret _

theorem verifyCeremonyMsg_keeps (msg : CeremonyMsg) (expected : IdentityId) (pair_id : PairId) (kind : String) :
    Keeps P (verifyCeremonyMsg msg expected pair_id kind) := by
  unfold verifyCeremonyMsg
  exact Keeps.ite (fun _ => Keeps.raise _) (fun _ => Keeps.ite (fun _ => Keeps.raise _) (fun _ =>
    Keeps.ite (fun _ => Keeps.raise _) (fun _ => Keeps.ite (fun _ => Keeps.raise _) (fun _ => Keeps.ret _))))

theorem verifyCardExchange_keeps (envelope : CardExchange) : Keeps P (verifyCardExchange ctx envelope) := by
  unfold verifyCardExchange
  exact Keeps.ite (fun _ => Keeps.raise _) (fun _ => Keeps.ite (fun _ => Keeps.raise _) (fun _ =>
    Keeps.ite (fun _ => Keeps.raise _) (fun _ => Keeps.ite (fun _ => Keeps.raise _) (fun _ => Keeps.ret _))))

theorem setV01Sends_keeps {wired allowed : Bool} (hsender : ∀ s, P s → P { s with sender := allowed })
    (hflag : ∀ s, P s → P { s with v01_sends_allowed := allowed }) : Keeps P (setV01Sends wired allowed) := by
  unfold setV01Sends notifySender
  refine Keeps.bind ?_ (fun _ => Keeps.write hflag)
  exact Keeps.ite (fun _ => Keeps.write hsender) (fun _ => Keeps.ret _)

theorem destroyRollbackBundle_keeps {path : Nat} (h : ∀ s bundles, P s → P { s with bundles }) :
    Keeps P (destroyRollbackBundle path) := by
  unfold destroyRollbackBundle
  refine Keeps.bind (Keeps.read _) (fun file => ?_)
  cases file with
  | none => exact Keeps.ret _
  | some file => exact Keeps.bind (Keeps.write (fun s hs => h s _ hs)) (fun _ => Keeps.write (fun s hs => h s _ hs))

theorem destroyOldBundle_keeps (h : ∀ s bundles, P s → P { s with bundles }) : Keeps P destroyOldBundle := by
  unfold destroyOldBundle
  refine Keeps.bind (Keeps.read _) (fun path => ?_)
  cases path with
  | none => exact Keeps.ret _
  | some path => exact destroyRollbackBundle_keeps h

theorem backup_writes {call : StageCall} (hkey : ∀ s identity_key, P s → P { s with identity_key })
    (hvault : ∀ s vault, P s → P { s with vault }) (hbundles : ∀ s bundles, P s → P { s with bundles })
    (hdek : ∀ s bundle_dek, P s → P { s with bundle_dek }) (hpath : ∀ s bundle_path, P s → P { s with bundle_path }) :
    Keeps P (backup call) := by
  unfold backup migrationIdentityPriv createRollbackBundle
  refine Keeps.bind (Keeps.bind (Keeps.read _) (fun key => ?_)) (fun key => Keeps.bind (Keeps.read _) (fun file => ?_))
  · cases key with
    | none => exact Keeps.bind (Keeps.write (fun s hs => hkey s _ hs)) (fun _ => Keeps.ret _)
    | some key => exact Keeps.ret _
  cases vaultLoad file (some key) with
  | error e => cases e <;> exact Keeps.raise _
  | ok legacy_key =>
    refine Keeps.bind (Keeps.write (fun s hs => hvault s _ hs)) (fun _ => ?_)
    refine Keeps.bind (destroyOldBundle_keeps hbundles) (fun _ => Keeps.bind ?_ (fun _ => ?_))
    · exact Keeps.bind (Keeps.write (fun s hs => hbundles s _ hs)) (fun _ => Keeps.write (fun s hs => hdek s _ hs))
    refine Keeps.bind (Keeps.read _) (fun restored => ?_)
    cases restored with
    | none => exact Keeps.raise _
    | some restored => exact Keeps.ite (fun _ => Keeps.raise _) (fun _ => Keeps.write (fun s hs => hpath s _ hs))

theorem coordinate_writes {call : StageCall} (hpeer : ∀ s peer_identity_id, P s → P { s with peer_identity_id })
    (hstaged : ∀ s, P s → P { s with phase := .staged }) : Keeps P (coordinate ctx call) := by
  unfold coordinate
  refine Keeps.ite (fun _ => Keeps.raise _) (fun _ => Keeps.bind (required_keeps _ _) (fun envelope => ?_))
  refine Keeps.bind (verifyCardExchange_keeps _) (fun _ => ?_)
  refine Keeps.bind (Keeps.write (fun s hs => hpeer s _ hs)) (fun _ => ?_)
  refine Keeps.bind (required_keeps _ _) (fun same => Keeps.ite (fun _ => Keeps.raise _) (fun _ => ?_))
  exact Keeps.bind (required_keeps _ _) (fun _ => Keeps.write hstaged)

theorem verify_writes {call : VerifyCall} (hread : ∀ s, P s → P { s with legacy_read_open := true })
    (hadapted : ∀ s legacy_adapted, P s → P { s with legacy_adapted })
    (hverified : ∀ s, P s → P { s with phase := .verified }) : Keeps P (verify ctx call) := by
  unfold verify
  refine Keeps.bind (Keeps.read _) (fun phase => Keeps.ite (fun _ => Keeps.raise _) (fun _ => ?_))
  refine Keeps.bind assertIdentityMatches_keeps (fun _ => Keeps.bind peerIdentityId_keeps (fun peer => ?_))
  refine Keeps.bind migrationIdentityPriv_keeps (fun _ => Keeps.bind (required_keeps _ _) (fun _ => ?_))
  refine Keeps.bind (required_keeps _ _) (fun ready => Keeps.bind (verifyCeremonyMsg_keeps _ _ _ _) (fun _ => ?_))
  refine Keeps.bind (Keeps.write hread) (fun _ => Keeps.bind (required_keeps _ _) (fun proof => ?_))
  refine Keeps.bind (verifyCeremonyMsg_keeps _ _ _ _) (fun _ => Keeps.ite (fun _ => Keeps.raise _) (fun _ => ?_))
  cases proof.legacy_adapted with
  | none => exact Keeps.raise _
  | some adapted =>
    refine Keeps.bind (Keeps.read _) (fun frozen => Keeps.ite (fun _ => Keeps.raise _) (fun _ => ?_))
    exact Keeps.bind (Keeps.write (fun s hs => hadapted s _ hs)) (fun _ => Keeps.write hverified)

/-- The reads are closed before the phase is `complete`. -/
theorem observe_writes {call : ObserveCall} (hopen : ∀ s, P s → P { s with legacy_read_open := true })
    (hclose : ∀ s, P s → P { s with legacy_read_open := false })
    (hcomplete : ∀ s, P s → s.legacy_read_open = false → Q { s with phase := .complete }) :
    Ends P (observe call) (fun _ s => P s ∨ Q s) (fun s => P s ∨ Q s) := by
  have hraise : ∀ e, Ends P (.raise e : Step Unit) (fun _ s => P s ∨ Q s) (fun s => P s ∨ Q s) :=
    fun e => Ends.raise (fun _ h => Or.inl h)
  unfold observe
  refine Ends.bind (Ends.read (R := fun _ => P) (fun _ h => h)) (fun s => Ends.ite (fun _ => hraise _) (fun _ => ?_))
  cases s.drain_until with
  | none => exact hraise _
  | some drain_until =>
    refine Ends.ite (fun _ => Ends.write (fun _ h => Or.inl h) (fun t ht => Or.inl (hopen t ht))) (fun _ => ?_)
    cases call.projection_queue with
    | none => exact hraise _
    | some projection_queue =>
      cases call.scheduler_queue with
      | none => exact hraise _
      | some scheduler_queue =>
        refine Ends.ite (fun _ => hraise _) (fun _ => ?_)
        cases s.freeze with
        | none => exact hraise _
        | some backlog =>
          cases s.legacy_adapted with
          | none => exact hraise _
          | some adapted =>
            refine Ends.ite (fun _ => hraise _) (fun _ => ?_)
            refine Ends.bind (R := fun _ t => P t ∧ t.legacy_read_open = false)
              (Ends.write (fun _ h => Or.inl h) (fun t ht => ⟨hclose t ht, rfl⟩)) (fun _ => ?_)
            exact Ends.write (fun _ h => Or.inl h.1) (fun t ht => Or.inr (hcomplete t ht.1 ht.2))

theorem observe_writes_keeps {call : ObserveCall} (hread : ∀ s legacy_read_open, P s → P { s with legacy_read_open })
    (hcomplete : ∀ s, P s → P { s with phase := .complete }) : Keeps P (observe call) := by
  intro n s hs
  have hends : Ends P (observe call) (fun _ s => P s ∨ P s) (fun s => P s ∨ P s) :=
    observe_writes (fun t ht => hread t true ht) (fun t ht => hread t false ht) (fun t ht _ => hcomplete t ht)
  exact (hends.state (fun _ _ h => h) hs).elim id id

end keeps

/-! ## Stage -/

section stage

variable {ctx : Context} {call : StageCall}

theorem migrationIdentityPriv_ends (fresh : IdentityId) :
    Ends Open (migrationIdentityPriv (some fresh)) (fun key s => Open s ∧ s.identity_key = some key) Staged := by
  unfold migrationIdentityPriv
  refine Ends.bind_read (fun s hs => ?_)
  cases hkey : s.identity_key with
  | some key =>
    refine Ends.ret (fun t ht => ?_)
    subst ht
    exact ⟨hs, hkey⟩
  | none =>
    -- Without a key no identity is recorded, so the new one contradicts none.
    have hnone : s.my_identity_id = none := by
      cases hrecorded : s.my_identity_id with
      | none => rfl
      | some key => exact absurd ((hs.identity key hrecorded).symm.trans hkey) (by simp)
    refine Ends.bind (R := fun _ t => Open t ∧ t.identity_key = some fresh) (Ends.write ?_ ?_)
      (fun _ => Ends.ret (fun _ ht => ht))
    · rintro t rfl
      exact hs.staged
    · rintro t rfl
      exact ⟨⟨fun key hrecorded => absurd (hnone.symm.trans hrecorded) (by simp), hs.phase⟩, rfl⟩

/-- After step 2 the key and the bundle can be read. -/
theorem backup_ends (key : IdentityId) :
    Ends (fun s => Open s ∧ s.identity_key = some key) (backup call) (fun _ s => Open s ∧ Held s) Staged := by
  unfold backup
  refine Ends.bind (Ends.imp (migrationIdentityPriv_ends call.fresh) (fun _ h => h.1) (fun _ _ h => h)) (fun key => ?_)
  refine Ends.bind_read (fun s hs => ?_)
  cases hload : vaultLoad s.vault (some key) with
  | error e =>
    cases e <;> exact Ends.raise (fun t ht => ht ▸ hs.1.staged)
  | ok legacy_key =>
    -- From here on the key is sealed under the identity.
    have hkept : ∀ t : State, (Open t ∧ t.identity_key = some key ∧ t.vault = some (.sealed key legacy_key)) → Staged t :=
      fun t ht => ht.1.staged
    refine Ends.bind (R := fun _ t => Open t ∧ t.identity_key = some key ∧ t.vault = some (.sealed key legacy_key))
      (Ends.write (fun t ht => ht ▸ hs.1.staged) ?_) (fun _ => ?_)
    · rintro t rfl
      exact ⟨⟨hs.1.identity, hs.1.phase⟩, hs.2, rfl⟩
    refine Ends.bind (R := fun _ t => Open t ∧ t.identity_key = some key ∧ t.vault = some (.sealed key legacy_key))
      (Keeps.ends ?_ hkept) (fun _ => ?_)
    · exact destroyOldBundle_keeps (fun u _ hu => ⟨⟨hu.1.identity, hu.1.phase⟩, hu.2⟩)
    refine Ends.bind (R := fun _ t => Open t ∧ t.identity_key = some key ∧ t.vault = some (.sealed key legacy_key))
      (Keeps.ends ?_ hkept) (fun _ => ?_)
    · unfold createRollbackBundle
      exact Keeps.bind (Keeps.write (fun u hu => ⟨⟨hu.1.identity, hu.1.phase⟩, hu.2⟩))
        (fun _ => Keeps.write (fun u hu => ⟨⟨hu.1.identity, hu.1.phase⟩, hu.2⟩))
    refine Ends.bind_read (fun u hu => ?_)
    cases hread : u.readBundle call.name with
    | none => exact Ends.raise (fun v hv => hv ▸ hkept u hu)
    | some restored =>
      refine Ends.ite (fun _ => Ends.raise (fun v hv => hv ▸ hkept u hu)) (fun _ => ?_)
      refine Ends.write (fun v hv => hv ▸ hkept u hu) ?_
      rintro v rfl
      refine ⟨⟨hu.1.identity, hu.1.phase⟩, ⟨key, hu.2.1⟩, ⟨legacy_key, ?_⟩, ⟨call.name, restored, rfl, hread⟩⟩
      show vaultLoad v.vault v.identity_key = _
      rw [hu.2.1, hu.2.2]
      exact if_pos rfl

/-- Steps 3 to 6 keep what step 2 left. -/
theorem coordinate_ends :
    Ends (fun s => Open s ∧ Held s) (coordinate ctx call) (fun _ => Staged) Staged := by
  have hkept : ∀ s : State, Open s ∧ Held s → Staged s := fun s hs => hs.1.staged
  unfold coordinate
  refine Ends.ite (fun _ => Ends.raise hkept) (fun _ => ?_)
  refine Ends.bind (Keeps.ends (required_keeps _ _) hkept) (fun envelope => ?_)
  refine Ends.bind (Keeps.ends (verifyCardExchange_keeps _) hkept) (fun _ => ?_)
  refine Ends.bind (R := fun _ s => Open s ∧ Held s) (Ends.write hkept (fun s hs => ?_)) (fun _ => ?_)
  · exact ⟨⟨hs.1.identity, hs.1.phase⟩, hs.2.identity, hs.2.vault, hs.2.bundle⟩
  refine Ends.bind (Keeps.ends (required_keeps _ _) hkept) (fun same => ?_)
  refine Ends.ite (fun _ => Ends.raise hkept) (fun _ => ?_)
  refine Ends.bind (Keeps.ends (required_keeps _ _) hkept) (fun _ => ?_)
  exact Ends.write hkept (fun s hs => ⟨hs.1.identity, fun _ => ⟨hs.2.identity, hs.2.vault, hs.2.bundle⟩⟩)

theorem freeze_keeps {key : IdentityId} :
    Keeps (fun s => Open s ∧ s.identity_key = some key) (freeze ctx call) := by
  unfold freeze
  refine Keeps.ite (fun _ => Keeps.raise _) (fun _ => Keeps.ite (fun _ => Keeps.raise _) (fun _ => ?_))
  refine Keeps.bind (Keeps.write (fun s hs => ⟨⟨hs.1.identity, by simp⟩, hs.2⟩)) (fun _ => ?_)
  refine Keeps.bind (Keeps.write (fun s hs => ⟨⟨hs.1.identity, hs.1.phase⟩, hs.2⟩)) (fun _ => ?_)
  exact setV01Sends_keeps (fun s hs => ⟨⟨hs.1.identity, hs.1.phase⟩, hs.2⟩)
    (fun s hs => ⟨⟨hs.1.identity, hs.1.phase⟩, hs.2⟩)

theorem stage_refused {n : Budget} {s : State}
    (hphase : s.phase ≠ .idle ∧ s.phase ≠ .rolled_back ∧ s.phase ≠ .freezing) : (stage ctx call).state n s = s := by
  unfold stage Program.state
  rw [bind_eq, bind_returned (read_run _ _ _), if_pos hphase]
  rfl

theorem Open.stage {s : State} (h : Open s) (n : Budget) : Staged ((stage ctx call).state n s) := by
  have hkept : ∀ key, ∀ t : State, Open t ∧ t.identity_key = some key → Staged t := fun _ t ht => ht.1.staged
  refine Ends.state (P := Open) (R := fun _ => Staged) ?_ (fun _ _ h => h) h
  unfold Migrate.stage
  refine Ends.bind (Ends.read (R := fun _ => Open) (fun _ h => h)) (fun phase => ?_)
  refine Ends.ite (fun _ => Ends.raise (fun _ h => h.staged)) (fun _ => ?_)
  refine Ends.bind (migrationIdentityPriv_ends _) (fun key => ?_)
  refine Ends.bind (Keeps.ends assertIdentityMatches_keeps (hkept key)) (fun _ => ?_)
  refine Ends.bind (R := fun _ t => Open t ∧ t.identity_key = some key)
    (Ends.write (hkept key) (fun t ht => ?_)) (fun _ => ?_)
  · exact ⟨⟨fun key' hkey' => ht.2.trans hkey', ht.1.phase⟩, ht.2⟩
  refine Ends.bind (Keeps.ends freeze_keeps (hkept key)) (fun _ => ?_)
  exact Ends.bind (backup_ends key) (fun _ => coordinate_ends)

theorem stage_keeps : Keeps Staged (stage ctx call) := by
  intro n s hs
  by_cases hphase : s.phase = .staged ∨ s.phase = .verified
  · rwa [stage_refused (by obtain h | h := hphase <;> simp [h])]
  · exact Open.stage ⟨hs.identity, hphase⟩ n

end stage

/-! ## Verify, observe and rollback -/

section others

variable {ctx : Context}

theorem verify_refused {call : VerifyCall} {n : Budget} {s : State} (hphase : s.phase ≠ .staged) :
    (verify ctx call).state n s = s := by
  unfold verify Program.state
  rw [bind_eq, bind_returned (read_run _ _ _), if_pos hphase]
  rfl

theorem verify_keeps (call : VerifyCall) : Keeps Staged (verify ctx call) := by
  intro n s hs
  by_cases hphase : s.phase = .staged
  swap
  · rwa [verify_refused hphase]
  have hheld : Held s := hs.held (Or.inl hphase)
  suffices Keeps (fun s => Staged s ∧ Held s) (verify ctx call) from (this n s ⟨hs, hheld⟩).1
  have hsame : ∀ s t : State, t.my_identity_id = s.my_identity_id → t.identity_key = s.identity_key →
      t.vault = s.vault → t.bundle_path = s.bundle_path → t.bundle_dek = s.bundle_dek → t.bundles = s.bundles →
      Staged s ∧ Held s → Staged t ∧ Held t := by
    rintro s t hid hkey hvault hpath hdek hbundles ⟨hs, hheld⟩
    have ht : Held t := by
      refine ⟨hkey ▸ hheld.identity, ?_, ?_⟩
      · rw [hvault, hkey]
        exact hheld.vault
      · unfold State.readBundle
        rw [hpath, hdek, hkey, hbundles]
        exact hheld.bundle
    exact ⟨⟨fun key h => hkey ▸ hs.identity key (hid ▸ h), fun _ => ht⟩, ht⟩
  exact verify_writes (fun t ht => hsame t _ rfl rfl rfl rfl rfl rfl ht)
    (fun t _ ht => hsame t _ rfl rfl rfl rfl rfl rfl ht) (fun t ht => hsame t _ rfl rfl rfl rfl rfl rfl ht)

theorem observe_refused {call : ObserveCall} {n : Budget} {s : State} (hphase : s.phase ≠ .committed) :
    (observe call).state n s = s := by
  unfold observe Program.state
  rw [bind_eq, bind_returned (read_run _ _ _), if_pos (by exact hphase)]
  rfl

theorem observe_keeps (call : ObserveCall) : Keeps Staged (observe call) := by
  have hsame : ∀ (t : State) legacy_read_open, Staged t → Staged { t with legacy_read_open } := by
    intro t legacy_read_open ht
    exact ⟨ht.identity, fun h => ⟨(ht.held h).identity, (ht.held h).vault, (ht.held h).bundle⟩⟩
  exact observe_writes_keeps hsame (fun t ht => ⟨ht.identity, fun h => absurd h (by simp)⟩)

theorem rollback_keeps (wired : Bool) : Keeps Staged (rollback wired) := by
  unfold rollback
  refine Keeps.bind (Keeps.read _) (fun phase => Keeps.ite (fun _ => Keeps.raise _) (fun _ => ?_))
  refine Keeps.ite (fun _ => Keeps.raise _) (fun _ => ?_)
  refine Keeps.bind (setV01Sends_keeps ?_ ?_) (fun _ => ?_)
  · exact fun t ht => ⟨ht.identity, fun h => ⟨(ht.held h).identity, (ht.held h).vault, (ht.held h).bundle⟩⟩
  · exact fun t ht => ⟨ht.identity, fun h => ⟨(ht.held h).identity, (ht.held h).vault, (ht.held h).bundle⟩⟩
  refine Keeps.bind migrationIdentityPriv_keeps (fun key => Keeps.bind (Keeps.read _) (fun file => ?_))
  cases vaultLoad file (some key) with
  | error e => cases e <;> exact Keeps.raise _
  | ok legacy_key => exact Keeps.write (fun t ht => ⟨ht.identity, fun h => absurd h (by simp)⟩)

end others

/-! ## Cutover -/

/-- What `cutover` checks before it changes anything: the own identity, and that the peer
and the hooks agree. -/
def CutoverCall.agreed (ctx : Context) (call : CutoverCall) (s : State) : Bool :=
  match s.identity_key, s.peer_identity_id, call.exchange_commit with
  | some key, some peer, some msg =>
    s.my_identity_id.all (· = key) && decide (msg.Valid peer ctx.pair_id "migration.commit") &&
      call.revoke_old_deploy_key.isSome && call.delete_peer_key_copy.isSome
  | _, _, _ => false

/-- The number of writes before the destructive section. -/
def CutoverCall.preparations (call : CutoverCall) : Nat := if call.set_v01_sends then 4 else 3

/-- The number of writes of the destructive section: two for the key, two for the bundle
and two for the key of the bundle. -/
def DESTRUCTIONS : Nat := 6

/-- The state before the destructive section. -/
def CutoverCall.prepare (call : CutoverCall) (s : State) : State :=
  { s with
    sender := if call.set_v01_sends then false else s.sender
    v01_sends_allowed := false
    drain_until := some (call.now + DRAIN_WINDOW)
    legacy_read_open := true }

section cutover

variable {ctx : Context} {call : CutoverCall} {s s' : State} {n n' : Budget}

theorem agreed_iff {call : CutoverCall} :
    call.agreed ctx s = true ↔
      (∀ key, s.my_identity_id = some key → s.identity_key = some key) ∧ s.identity_key.isSome ∧
      ∃ peer msg, s.peer_identity_id = some peer ∧ call.exchange_commit = some msg ∧
        msg.Valid peer ctx.pair_id "migration.commit" ∧ call.revoke_old_deploy_key = some () ∧
        call.delete_peer_key_copy = some () := by
  unfold CutoverCall.agreed
  cases s.identity_key with
  | none => simp
  | some key =>
    cases s.peer_identity_id with
    | none => simp
    | some peer =>
      cases call.exchange_commit with
      | none => simp
      | some msg =>
        cases s.my_identity_id with
        | none => cases call.revoke_old_deploy_key <;> cases call.delete_peer_key_copy <;> simp
        | some recorded =>
          cases call.revoke_old_deploy_key <;> cases call.delete_peer_key_copy <;> simp [@eq_comm _ key recorded]

theorem preparation_returned {a : Unit} :
    (Program.bind (setV01Sends call.set_v01_sends false) (fun _ =>
      Program.bind (.write (fun s => { s with drain_until := some (call.now + DRAIN_WINDOW) })) (fun _ =>
        .write (fun s => { s with legacy_read_open := true })))) n s = (.returned a, n', s') ↔
      (n = none ∧ n' = none ∨ ∃ m, n = some (m + call.preparations) ∧ n' = some m) ∧ s' = call.prepare s := by
  unfold setV01Sends notifySender CutoverCall.preparations CutoverCall.prepare
  cases call.set_v01_sends with
  | false =>
    simp only [bind_eq, Bool.false_eq_true, if_false]
    obtain _ | _ | _ | _ | m := n
    · simp [Program.bind, Program.write, Prod.ext_iff, eq_comm]
    · simp [Program.bind, Program.write, Prod.ext_iff]
    · simp [Program.bind, Program.write, Prod.ext_iff]
    · simp [Program.bind, Program.write, Prod.ext_iff]
    · simp [Program.bind, Program.write, Prod.ext_iff, eq_comm]
  | true =>
    simp only [bind_eq, if_true]
    obtain _ | _ | _ | _ | _ | m := n
    · simp [Program.bind, Program.write, Prod.ext_iff, eq_comm]
    · simp [Program.bind, Program.write, Prod.ext_iff]
    · simp [Program.bind, Program.write, Prod.ext_iff]
    · simp [Program.bind, Program.write, Prod.ext_iff]
    · simp [Program.bind, Program.write, Prod.ext_iff]
    · simp [Program.bind, Program.write, Prod.ext_iff, eq_comm]

theorem prepareCutover_returned {a : Unit} :
    prepareCutover ctx call n s = (.returned a, n', s') ↔
      call.agreed ctx s = true ∧
        (n = none ∧ n' = none ∨ ∃ m, n = some (m + call.preparations) ∧ n' = some m) ∧ s' = call.prepare s := by
  rw [agreed_iff, ← preparation_returned (a := a)]
  unfold prepareCutover
  constructor
  · intro h
    rw [bind_eq, bind_eq_returned] at h
    obtain ⟨_, _, _, h₁, h⟩ := h
    obtain ⟨hid, rfl, rfl⟩ := assertIdentityMatches_returned.mp h₁
    rw [bind_eq, bind_eq_returned] at h
    obtain ⟨peer, _, _, h₁, h⟩ := h
    obtain ⟨hpeer, rfl, rfl⟩ := peerIdentityId_returned.mp h₁
    rw [bind_eq, bind_eq_returned] at h
    obtain ⟨key, _, _, h₁, h⟩ := h
    obtain ⟨hkey, rfl, rfl⟩ := migrationIdentityPriv_returned.mp h₁
    rw [bind_eq, bind_eq_returned] at h
    obtain ⟨msg, _, _, h₁, h⟩ := h
    obtain ⟨hmsg, rfl, rfl⟩ := required_returned.mp h₁
    rw [bind_eq, bind_eq_returned] at h
    obtain ⟨_, _, _, h₁, h⟩ := h
    obtain ⟨hvalid, rfl, rfl⟩ := verifyCeremonyMsg_returned.mp h₁
    rw [bind_eq, bind_eq_returned] at h
    obtain ⟨_, _, _, h₁, h⟩ := h
    obtain ⟨hrevoke, rfl, rfl⟩ := required_returned.mp h₁
    rw [bind_eq, bind_eq_returned] at h
    obtain ⟨_, _, _, h₁, h⟩ := h
    obtain ⟨hdelete, rfl, rfl⟩ := required_returned.mp h₁
    exact ⟨⟨hid, by simp [hkey], peer, msg, hpeer, hmsg, hvalid, hrevoke, hdelete⟩, h⟩
  · rintro ⟨⟨hid, hkey, peer, msg, hpeer, hmsg, hvalid, hrevoke, hdelete⟩, h⟩
    obtain ⟨key, hkey⟩ := Option.isSome_iff_exists.mp hkey
    refine bind_eq_returned.mpr ⟨(), _, _, assertIdentityMatches_returned.mpr ⟨hid, rfl, rfl⟩, ?_⟩
    refine bind_eq_returned.mpr ⟨_, _, _, peerIdentityId_returned.mpr ⟨hpeer, rfl, rfl⟩, ?_⟩
    refine bind_eq_returned.mpr ⟨_, _, _, migrationIdentityPriv_returned.mpr ⟨hkey, rfl, rfl⟩, ?_⟩
    refine bind_eq_returned.mpr ⟨_, _, _, required_returned.mpr ⟨hmsg, rfl, rfl⟩, ?_⟩
    refine bind_eq_returned.mpr ⟨(), _, _, verifyCeremonyMsg_returned.mpr ⟨hvalid, rfl, rfl⟩, ?_⟩
    refine bind_eq_returned.mpr ⟨_, _, _, required_returned.mpr ⟨hrevoke, rfl, rfl⟩, ?_⟩
    exact bind_eq_returned.mpr ⟨_, _, _, required_returned.mpr ⟨hdelete, rfl, rfl⟩, h⟩

/-- The destructive section and the phase after it, where the legacy material is there. -/
theorem destroy_state (h : Held s) (m : Nat) :
    let finish : Step Unit := Program.bind destroyLegacy (fun _ => .write (fun s => { s with phase := .committed }))
    finish.state (some 0) s = s ∧
    (m < DESTRUCTIONS → (finish.state (some (m + 1)) s).phase = s.phase ∧
      ∃ e, vaultLoad (finish.state (some (m + 1)) s).vault (finish.state (some (m + 1)) s).identity_key = .error e) ∧
    (finish.state (some (m + 1 + DESTRUCTIONS)) s).phase = .committed ∧ (finish.state none s).phase = .committed := by
  obtain ⟨key, hkey⟩ := h.identity
  obtain ⟨legacy_key, hload⟩ := h.vault
  obtain ⟨path, contents, hpath, hread⟩ := h.bundle
  obtain ⟨file, hvault⟩ : ∃ file, s.vault = some file := by
    cases hvault : s.vault with
    | none => simp [hvault, vaultLoad] at hload
    | some file => exact ⟨file, rfl⟩
  obtain ⟨dek, hdek⟩ : ∃ dek, s.bundle_dek = some dek := by
    cases hdek : s.bundle_dek with
    | none => simp [State.readBundle, hdek, vaultLoad] at hread
    | some dek => exact ⟨dek, rfl⟩
  obtain ⟨bundle, hfind⟩ : ∃ bundle, s.bundles.find path = some bundle := by
    cases hfind : s.bundles.find path with
    | none =>
      rw [State.readBundle, hfind] at hread
      split at hread
      · rename_i heq
        exact absurd heq (by simp)
      · exact absurd hread (by simp)
    | some bundle => exact ⟨bundle, rfl⟩
  -- Seven writes, so that a budget is spent at one of them or not at all.
  refine ⟨?_, fun hm => ?_, ?_, ?_⟩
  · simp [destroyLegacy, vaultDelete, migrationIdentityPriv, Program.bind, Program.read, Program.write, Program.state,
      hkey, hvault]
  · obtain _ | _ | _ | _ | _ | _ | m := m
    case succ.succ.succ.succ.succ.succ => exact absurd hm (by simp [DESTRUCTIONS])
    all_goals
      simp [destroyLegacy, vaultDelete, assertVaultDeleted, destroyRollbackBundle, migrationIdentityPriv, Program.bind,
        Program.read, Program.write, Program.state, vaultLoad, hkey, hvault, hpath, hfind, hdek]
  · simp [DESTRUCTIONS, destroyLegacy, vaultDelete, assertVaultDeleted, destroyRollbackBundle, migrationIdentityPriv,
      Program.bind, Program.read, Program.write, Program.state, vaultLoad, hkey, hvault, hpath, hfind, hdek]
  · simp [destroyLegacy, vaultDelete, assertVaultDeleted, destroyRollbackBundle, migrationIdentityPriv,
      Program.bind, Program.read, Program.write, Program.state, vaultLoad, hkey, hvault, hpath, hfind, hdek]

theorem prepareCutover_keeps {P : State → Prop} (hsender : ∀ s, P s → P { s with sender := false })
    (hflag : ∀ s, P s → P { s with v01_sends_allowed := false })
    (hdrain : ∀ s, P s → P { s with drain_until := some (call.now + DRAIN_WINDOW) })
    (hread : ∀ s, P s → P { s with legacy_read_open := true }) : Keeps P (prepareCutover ctx call) := by
  unfold prepareCutover
  refine Keeps.bind assertIdentityMatches_keeps (fun _ => Keeps.bind peerIdentityId_keeps (fun peer => ?_))
  refine Keeps.bind migrationIdentityPriv_keeps (fun _ => Keeps.bind (required_keeps _ _) (fun commit => ?_))
  refine Keeps.bind (verifyCeremonyMsg_keeps _ _ _ _) (fun _ => Keeps.bind (required_keeps _ _) (fun _ => ?_))
  refine Keeps.bind (required_keeps _ _) (fun _ => Keeps.bind (setV01Sends_keeps hsender hflag) (fun _ => ?_))
  exact Keeps.bind (Keeps.write hdrain) (fun _ => Keeps.write hread)

theorem vaultDelete_keeps {P : State → Prop} {file : State → Option VaultFile}
    {store : Option VaultFile → State → State} (h : ∀ s f, P s → P (store f s)) : Keeps P (vaultDelete file store) := by
  unfold vaultDelete
  refine Keeps.bind (Keeps.read _) (fun f => ?_)
  cases f with
  | none => exact Keeps.ret _
  | some f => exact Keeps.bind (Keeps.write (fun s hs => h s _ hs)) (fun _ => Keeps.write (fun s hs => h s _ hs))

theorem destroyLegacy_keeps {P : State → Prop} (hvault : ∀ s vault, P s → P { s with vault })
    (hbundles : ∀ s bundles, P s → P { s with bundles }) (hdek : ∀ s bundle_dek, P s → P { s with bundle_dek }) :
    Keeps P destroyLegacy := by
  unfold destroyLegacy assertVaultDeleted
  refine Keeps.bind migrationIdentityPriv_keeps (fun key => Keeps.bind (vaultDelete_keeps hvault) (fun _ => ?_))
  refine Keeps.bind (Keeps.bind (Keeps.read _) (fun file => ?_)) (fun _ => Keeps.bind (Keeps.read _) (fun path => ?_))
  · cases vaultLoad file (some key) with
    | ok _ => exact Keeps.raise _
    | error e => cases e <;> first | exact Keeps.ret _ | exact Keeps.raise _
  · cases path with
    | none => exact Keeps.ret _
    | some path => exact Keeps.bind (destroyRollbackBundle_keeps hbundles) (fun _ => vaultDelete_keeps hdek)

theorem kept_of_held (h : Held s) (hphase : s.phase = .verified) : Kept s :=
  Or.inr (Or.inr ⟨h, rollsBack_of_held h (by simp [hphase]) (by simp [hphase]) (by simp [hphase])⟩)

theorem Held.prepare (h : Held s) : Held (call.prepare s) := ⟨h.identity, h.vault, h.bundle⟩

/-- The cutover is cut in its destructive section or before the phase is written. -/
def CutoverCall.Cut (ctx : Context) (call : CutoverCall) (n : Budget) (s : State) : Prop :=
  call.agreed ctx s = true ∧ ∃ m, n = some m ∧ call.preparations < m ∧ m ≤ call.preparations + DESTRUCTIONS

theorem cutover_refused (hphase : s.phase ≠ .verified) : (cutover ctx call).state n s = s := by
  unfold cutover Program.state
  rw [bind_eq, bind_returned (read_run _ _ _), if_pos hphase]
  rfl

theorem cutover_state (ctx : Context) (call : CutoverCall) (n : Budget) (hphase : s.phase = .verified) :
    (call.agreed ctx s = true ∧ ∃ n', (n = none ∧ n' = none ∨ ∃ m, n = some (m + call.preparations) ∧ n' = some m) ∧
      (cutover ctx call).state n s =
        (Program.bind destroyLegacy (fun _ => .write (fun s => { s with phase := .committed }))).state n'
          (call.prepare s)) ∨
    ((call.agreed ctx s = true → ∃ m, n = some m ∧ m < call.preparations) ∧
      (cutover ctx call).state n s = (prepareCutover ctx call).state n s) := by
  have hrun : (cutover ctx call).state n s = (Program.bind (prepareCutover ctx call) (fun _ =>
      Program.bind destroyLegacy (fun _ => .write (fun s => { s with phase := .committed })))).state n s := by
    unfold cutover Program.state
    rw [bind_eq, bind_returned (read_run _ _ _), if_neg (by simp [hphase])]
    rfl
  by_cases hret : ∃ a n' t, prepareCutover ctx call n s = (.returned a, n', t)
  · obtain ⟨a, n', t, hprepare⟩ := hret
    obtain ⟨hagreed, hn, rfl⟩ := prepareCutover_returned.mp hprepare
    refine Or.inl ⟨hagreed, n', hn, ?_⟩
    rw [hrun]
    unfold Program.state
    rw [bind_returned hprepare]
  · have hstop : ∀ a n' t, prepareCutover ctx call n s ≠ (.returned a, n', t) := fun a n' t h => hret ⟨a, n', t, h⟩
    refine Or.inr ⟨fun hagreed => ?_, hrun.trans (bind_state_of_stopped hstop)⟩
    cases n with
    | none => exact absurd (prepareCutover_returned.mpr ⟨hagreed, Or.inl ⟨rfl, rfl⟩, rfl⟩) (hstop () _ _)
    | some m =>
      by_contra hlarge
      have hle : call.preparations ≤ m := Nat.le_of_not_lt (fun hlt => hlarge ⟨m, rfl, hlt⟩)
      exact hstop () _ _ (prepareCutover_returned.mpr
        ⟨hagreed, Or.inr ⟨m - call.preparations, by rw [Nat.sub_add_cancel hle], rfl⟩, rfl⟩)

/-- Outside of the destructive section a cutover leaves the material, or it is committed. -/
theorem cutover_uncut (hs : Staged s) (hphase : s.phase = .verified) (hcut : ¬ call.Cut ctx n s) :
    ((cutover ctx call).state n s).phase = .verified ∧ Held ((cutover ctx call).state n s) ∨
      ((cutover ctx call).state n s).phase = .committed := by
  have hheld := hs.held (Or.inr hphase)
  obtain ⟨hagreed, n', hn, hstate⟩ | ⟨-, hstate⟩ := cutover_state ctx call n hphase
  · rw [hstate]
    obtain ⟨rfl, rfl⟩ | ⟨m, rfl, rfl⟩ := hn
    · exact Or.inr (destroy_state hheld.prepare 0).2.2.2
    · cases m with
      | zero =>
        rw [(destroy_state hheld.prepare 0).1]
        exact Or.inl ⟨hphase, hheld.prepare⟩
      | succ m =>
        have hlarge : DESTRUCTIONS ≤ m := by
          by_contra hsmall
          exact hcut ⟨hagreed, _, rfl, by omega, by omega⟩
        obtain ⟨k, rfl⟩ := Nat.exists_eq_add_of_le' hlarge
        rw [show k + DESTRUCTIONS + 1 = k + 1 + DESTRUCTIONS by omega]
        exact Or.inr (destroy_state hheld.prepare k).2.2.1
  · rw [hstate]
    refine Or.inl (Keeps.and (P := fun s => s.phase = .verified) (Q := Held) ?_ ?_ n s ⟨hphase, hheld⟩)
    · exact prepareCutover_keeps (fun _ h => h) (fun _ h => h) (fun _ h => h) (fun _ h => h)
    · exact prepareCutover_keeps (fun _ h => ⟨h.identity, h.vault, h.bundle⟩)
        (fun _ h => ⟨h.identity, h.vault, h.bundle⟩) (fun _ h => ⟨h.identity, h.vault, h.bundle⟩)
        (fun _ h => ⟨h.identity, h.vault, h.bundle⟩)

/-- In the destructive section it leaves a migration that is not committed, without its key. -/
theorem cutover_cut (hs : Staged s) (hphase : s.phase = .verified) (hcut : call.Cut ctx n s) :
    ((cutover ctx call).state n s).phase = .verified ∧
      ∃ e, vaultLoad ((cutover ctx call).state n s).vault ((cutover ctx call).state n s).identity_key = .error e := by
  have hheld := hs.held (Or.inr hphase)
  obtain ⟨hagreed, m, rfl, hlarge, hsmall⟩ := hcut
  obtain ⟨-, n', hn, hstate⟩ | ⟨hbound, -⟩ := cutover_state ctx call (some m) hphase
  · obtain ⟨hnone, -⟩ | ⟨k, hk, rfl⟩ := hn
    · exact absurd hnone (by simp)
    · rw [Option.some.injEq] at hk
      obtain ⟨j, rfl⟩ : ∃ j, k = j + 1 := ⟨k - 1, by omega⟩
      rw [hstate]
      obtain ⟨hverified, hload⟩ := (destroy_state hheld.prepare j).2.1 (by omega)
      exact ⟨hverified.trans hphase, hload⟩
  · obtain ⟨k, hk, hlt⟩ := hbound hagreed
    rw [Option.some.injEq] at hk
    omega

/-- A cutover that may be made: it is not cut in the destructive section, and one that is
refused finds a migration that can be rolled back. -/
def CutoverCall.Safe (ctx : Context) (call : CutoverCall) (n : Budget) (s : State) : Prop :=
  (s.phase = .verified → ¬ call.Cut ctx n s) ∧ (s.phase ≠ .verified → Kept s)

/-- The legacy material and the way back are there after a cutover exactly if the cut is
not in the destructive section. -/
theorem cutover_kept_iff (hs : Staged s) : Kept ((cutover ctx call).state n s) ↔ call.Safe ctx n s := by
  by_cases hphase : s.phase = .verified
  · constructor
    · refine fun hkept => ⟨fun _ hcut => ?_, fun hne => absurd hphase hne⟩
      obtain ⟨hverified, e, hload⟩ := cutover_cut hs hphase hcut
      obtain hc | hc | ⟨hheld, -⟩ := hkept
      · rw [hverified] at hc
        exact absurd hc (by simp)
      · rw [hverified] at hc
        exact absurd hc (by simp)
      · obtain ⟨legacy_key, hok⟩ := hheld.vault
        rw [hload] at hok
        exact absurd hok (by simp)
    · rintro ⟨hsafe, -⟩
      obtain ⟨hverified, hheld⟩ | hcommitted := cutover_uncut hs hphase (hsafe hphase)
      · exact kept_of_held hheld hverified
      · exact Or.inl hcommitted
  · rw [cutover_refused hphase]
    exact ⟨fun hkept => ⟨fun h => absurd h hphase, fun _ => hkept⟩, fun hsafe => hsafe.2 hphase⟩

theorem cutover_staged (hs : Staged s) (hsafe : call.Safe ctx n s) : Staged ((cutover ctx call).state n s) := by
  by_cases hphase : s.phase = .verified
  · have hidentity : Keeps (fun s => ∀ key, s.my_identity_id = some key → s.identity_key = some key)
        (cutover ctx call) := by
      unfold cutover
      refine Keeps.bind (Keeps.read _) (fun phase => Keeps.ite (fun _ => Keeps.raise _) (fun _ => ?_))
      refine Keeps.bind (prepareCutover_keeps (fun _ h => h) (fun _ h => h) (fun _ h => h) (fun _ h => h)) (fun _ => ?_)
      exact Keeps.bind (destroyLegacy_keeps (fun _ _ h => h) (fun _ _ h => h) (fun _ _ h => h))
        (fun _ => Keeps.write (fun _ h => h))
    refine ⟨hidentity n s hs.identity, fun hlater => ?_⟩
    obtain ⟨-, hheld⟩ | hcommitted := cutover_uncut hs hphase (hsafe.1 hphase)
    · exact hheld
    · rw [hcommitted] at hlater
      exact absurd hlater (by simp)
  · rwa [cutover_refused hphase]

end cutover

/-! ## Runs -/

/-- Every cutover of a run may be made. -/
def cutoversSafe (ctx : Context) (s : State) : Action → Prop
  | .cutover call n => call.Safe ctx n s
  | _ => True

theorem staged_next {ctx : Context} {s : State} {a : Action} (hs : Staged s) (hok : cutoversSafe ctx s a) :
    Staged (a.next ctx s) := by
  cases a with
  | handoff key =>
    refine ⟨hs.identity, fun h => ⟨(hs.held h).identity, ⟨key, rfl⟩, (hs.held h).bundle⟩⟩
  | stage call n => exact stage_keeps n s hs
  | verify call n => exact verify_keeps call n s hs
  | cutover call n => exact cutover_staged hs hok
  | observe call n => exact observe_keeps call n s hs
  | rollback wired n => exact rollback_keeps wired n s hs

/-- Along a run, every attempt to cut over leaves a migration that is committed or can
still be rolled back, exactly if every attempt may be made. -/
theorem cutover_failure_keeps_rollback {ctx : Context} {s t : State} {as : List Action}
    (hinit : (migration ctx).init s) (hrun : (migration ctx).run s as = some t) :
    (∀ k u call n, (migration ctx).run s (as.take k) = some u → as[k]? = some (.cutover call n) →
      Kept ((cutover ctx call).state n u)) ↔ (migration ctx).okRun (cutoversSafe ctx) s as := by
  have hstart : Staged s := by
    obtain rfl : s = {} := hinit
    exact ⟨fun key h => absurd h (by simp), fun h => absurd h (by simp)⟩
  have hsteps := @Machine.steps_iff_okRun _ _ (migration ctx) (cutoversSafe ctx) Staged
    (fun _ a t => ∀ call n, a = .cutover call n → Kept t)
    (fun u a v hu hok hv => Option.some.inj hv ▸ staged_next hu hok)
    (fun u a v hu hok hv => by
      rintro call n rfl
      obtain rfl := Option.some.inj hv
      exact (cutover_kept_iff hu).mpr hok)
    (fun u a v hu hv hq => by
      cases a with
      | cutover call n =>
        obtain rfl := Option.some.inj hv
        exact (cutover_kept_iff hu).mp (hq call n rfl)
      | handoff | stage | verify | observe | rollback => trivial)
    as s t hstart hrun
  rw [← hsteps]
  constructor
  · rintro h k u a v hu ha hv call n rfl
    obtain rfl := Option.some.inj hv
    exact h k u call n hu ha
  · exact fun h k u call n hu ha => h k u _ _ hu ha rfl call n rfl

/-! ## A cutover that is cut -/

def sampleContext : Context := ⟨"pair", false, true⟩

/-- A message of the peer, whose identity is 2. -/
def sampleMsg (kind : String) : CeremonyMsg :=
  { kind, pair_id := "pair", identity_id := 2, signer := 2, keys := requiredProofs, legacy_adapted := some 3 }

def sampleStage : StageCall :=
  { fresh := 1
    dek := 7
    name := 100
    drained := 3
    exchange_card := some ⟨2, true, 2, "pair", true⟩
    compare_phrase := some true
    provision_deploy_key := some () }

def sampleCutover : CutoverCall :=
  { now := 1000
    exchange_commit := some (sampleMsg "migration.commit")
    revoke_old_deploy_key := some ()
    delete_peer_key_copy := some () }

/-- A migration up to the phase `verified`. -/
def sampleRun : List Action :=
  [.handoff 5, .stage sampleStage none,
    .verify ⟨some (), some (sampleMsg "migration.ready"), some (sampleMsg "migration.proof")⟩ none]

theorem sampleRun_staged {s : State} (hrun : (migration sampleContext).run {} sampleRun = some s) : Staged s := by
  have hok : (migration sampleContext).okRun (cutoversSafe sampleContext) {} sampleRun :=
    ⟨trivial, fun _ _ => ⟨trivial, fun _ _ => ⟨trivial, fun _ _ => trivial⟩⟩⟩
  refine ((Machine.Reach.start rfl).run hok hrun).invariant (P := Staged) ?_ (fun u a v hu hok hv => ?_)
  · rintro u rfl
    exact ⟨fun key h => absurd h (by simp), fun h => absurd h (by simp)⟩
  · exact Option.some.inj hv ▸ staged_next hu hok

/-- A cut after the second write leaves the way back. -/
theorem cutover_failure_keeps_rollback_sampleRun :
    ∃ s t, (migration sampleContext).run {} sampleRun = some s ∧ s.phase = .verified ∧
      (migration sampleContext).run {} (sampleRun ++ [.cutover sampleCutover (some 2)]) = some t ∧ Kept t := by
  obtain ⟨s, hrun, hphase⟩ :
      ∃ s, (migration sampleContext).run {} sampleRun = some s ∧ s.phase = .verified := by
    decide +kernel
  have hsafe : sampleCutover.Safe sampleContext (some 2) s := by
    refine ⟨fun _ hcut => ?_, fun hne => absurd hphase hne⟩
    obtain ⟨-, m, hm, hlarge, -⟩ := hcut
    obtain rfl := Option.some.inj hm
    exact absurd hlarge (by decide)
  have hok : (migration sampleContext).okRun (cutoversSafe sampleContext) {}
      (sampleRun ++ [.cutover sampleCutover (some 2)]) := by
    refine ⟨trivial, fun u hu => ⟨trivial, fun v hv => ⟨trivial, fun w hw => ⟨?_, fun _ _ => trivial⟩⟩⟩⟩
    obtain rfl := Option.some.inj hu
    obtain rfl := Option.some.inj hv
    obtain rfl : w = s := Option.some.inj (hw.symm.trans hrun)
    exact hsafe
  have hall := (cutover_failure_keeps_rollback rfl rfl).mpr hok 3 s sampleCutover (some 2) hrun rfl
  obtain rfl := Option.some.inj hrun
  exact ⟨_, _, rfl, hphase, rfl, hall⟩

/-- A cut after the fifth write leaves a migration that is not committed, whose key is
overwritten. -/
theorem cutover_cut_loses_key :
    ∃ s, (migration sampleContext).run {} sampleRun = some s ∧ s.phase = .verified ∧ Kept s ∧
      ¬ Kept ((cutover sampleContext sampleCutover).state (some 5) s) := by
  obtain ⟨s, hrun, hphase, hagreed⟩ :
      ∃ s, (migration sampleContext).run {} sampleRun = some s ∧ s.phase = .verified ∧
        sampleCutover.agreed sampleContext s = true := by
    decide +kernel
  have hstaged := sampleRun_staged hrun
  refine ⟨s, hrun, hphase, kept_of_held (hstaged.held (Or.inr hphase)) hphase, fun hkept => ?_⟩
  exact ((cutover_kept_iff hstaged).mp hkept).1 hphase ⟨hagreed, 5, rfl, by decide, by decide⟩

end MuseAgentSocial.Migrate
