import MuseAgentSocial.Teardown.Erased
import MuseAgentSocial.Teardown.Pairing

/-!
# The phases of a teardown

What each part of `teardown_relationship` does to a property of the state, in
the terms of the few writes that it makes.

`Steady` collects the writes before the transaction that touch neither files
nor `relay.json`.  `teardownState_ends` is the rule for everything up to the
transaction, and `wipeOwnFiles_keeps` the rule for the file phase up to the
rewriting of `relay.json`.
-/

namespace MuseAgentSocial.Teardown

open Relational Durable Durable.Program

/-! ## The hooks -/

section Hooks

variable {P : World → Prop} {h : RevokeHooks} {provider : Nat → Answer}

theorem RevokeHooks.request_keeps (hcall : ∀ w c, P w → P (w.called c)) (call : Option Answer → Call)
    (done : String) : Keeps P (h.request provider call done) := by
  unfold RevokeHooks.request
  refine Keeps.ite (fun _ => ?_) (fun _ => ?_)
  · exact Keeps.bind (Keeps.write (fun w hw => hcall w _ hw)) (fun _ => Keeps.ret _)
  · refine Keeps.bind (Keeps.read _) (fun answer => ?_)
    refine Keeps.bind (Keeps.write (fun w hw => hcall w _ hw)) (fun _ => ?_)
    cases statusText done answer with
    | some text => exact Keeps.ret _
    | none => exact Keeps.raise _

theorem RevokeHooks.revokeDeployKey_keeps (hcall : ∀ w c, P w → P (w.called c))
    (ref : DeployKeyRef) : Keeps P (h.revokeDeployKey provider ref) := by
  unfold RevokeHooks.revokeDeployKey
  refine Keeps.ite (fun _ => ?_) (fun _ => Keeps.ite (fun _ => ?_) (fun _ => ?_))
  · exact Keeps.bind (Keeps.write (fun w hw => hcall w _ hw)) (fun _ => Keeps.ret _)
  · exact Keeps.bind (Keeps.write (fun w hw => hcall w _ hw)) (fun _ => Keeps.ret _)
  · exact RevokeHooks.request_keeps hcall _ _

theorem RevokeHooks.deleteRelayRepo_keeps (hcall : ∀ w c, P w → P (w.called c)) (ref : RelayRef) :
    Keeps P (h.deleteRelayRepo provider ref) := by
  unfold RevokeHooks.deleteRelayRepo
  refine Keeps.ite (fun _ => ?_) (fun _ => ?_)
  · exact Keeps.bind (Keeps.write (fun w hw => hcall w _ hw)) (fun _ => Keeps.ret _)
  · exact RevokeHooks.request_keeps hcall _ _

end Hooks

/-- The writes before the transaction, other than those of key files and of the
journal, keep the property. -/
structure Steady (rid : RelationshipId) (P : World → Prop) : Prop where
  called : ∀ w c, P w → P (w.called c)
  logged : ∀ w hook target, P w → P (recordHookCompleted rid hook target w)
  revoked : ∀ w, P w → P (markRevoked rid w)
  tombstone : ∀ w t, t.relationship_id = rid → P w → P { w with tombstones := w.tombstones.upsert t }

section State

variable {P Q C I : World → Prop} {rid : RelationshipId} {env : Env}

theorem runHook_keeps {ι : Type} (hst : Steady rid P) {hook : HookName} {target : ι → String}
    {call : Option (ι → Program World Failure String)} (hcall : ∀ f ∈ call, ∀ ref, Keeps P (f ref))
    (ref : ι) : Keeps P (runHook rid hook target call ref) := by
  unfold runHook
  refine Keeps.bind (Keeps.read _) (fun b => Keeps.ite (fun _ => Keeps.ret _) (fun _ => ?_))
  cases call with
  | none => exact Keeps.raise _
  | some f =>
    refine Keeps.bind (hcall f rfl ref) (fun _ => Keeps.write (fun w hw => hst.logged w _ _ hw))

theorem requireHooks_keeps (refs : RelayRefs) : Keeps P (requireHooks env rid refs) := by
  unfold requireHooks
  refine Keeps.bind (Keeps.read _) (fun w => ?_)
  refine Keeps.ite (fun _ => Keeps.raise _) (fun _ => ?_)
  exact Keeps.ite (fun _ => Keeps.raise _) (fun _ => Keeps.ret _)

theorem secureUnlink_keeps {f : File} (h : ∀ w, P w → P (w.unlink f.path)) :
    Keeps P (secureUnlink env f) := by
  unfold secureUnlink
  exact Keeps.ite (fun _ => Keeps.ret _) (fun _ => Keeps.write h)

theorem deleteKeyFile_keeps {f : File} (h : ∀ w, P w → P (w.unlink f.path)) :
    Keeps P (deleteKeyFile env f) := by
  unfold deleteKeyFile
  exact Keeps.ite (fun _ => Keeps.raise _) (fun _ => Keeps.write h)

theorem deletePrivateKey_keeps {ref : String}
    (h : ∀ w, P w → ∀ f ∈ w.files.rows, env.fullPath f.path = ref → ∀ v, P v → P (v.unlink f.path)) :
    Keeps P (deletePrivateKey env ref) := by
  unfold deletePrivateKey
  refine Keeps.bind_read (fun w hw n => ?_)
  cases hfind : w.files.rows.find? (fun f => env.fullPath f.path = ref) with
  | none => exact hw
  | some f =>
    have hpath := List.find?_some hfind
    exact deleteKeyFile_keeps (h w hw f (List.mem_of_find?_eq_some hfind) (by simpa using hpath)) n w hw

theorem unlinkWhere_keeps {delete : File → Program World Failure Unit} {cond : File → Bool}
    (h : ∀ w, P w → ∀ f ∈ w.files.rows, cond f = true → Keeps P (delete f)) :
    Keeps P (unlinkWhere delete cond) := by
  unfold unlinkWhere
  refine Keeps.bind_read (fun w hw n => ?_)
  refine Keeps.forEach (fun f hf => ?_) n w hw
  obtain ⟨hmem, hcond⟩ := List.mem_filter.mp hf
  exact h w hw f hmem hcond

theorem privateKeyRefs_filter {rows : List Row} {keep : Row → Bool}
    (h : ∀ r, r.table = .key_epochs → keep r = true) :
    privateKeyRefs rid (rows.filter keep) = privateKeyRefs rid rows := by
  unfold privateKeyRefs
  rw [select_filter h]

theorem deletePrivateKey_rows (rows : List Row) (ref : String) :
    Keeps (fun w : World => w.rows = rows) (deletePrivateKey env ref) :=
  deletePrivateKey_keeps (fun _ _ _ _ _ _ hv => hv)

/-- `VACUUM` and the checkpoint after the transaction. -/
theorem compactDatabase_ends (hI : ∀ s, C s → I s)
    (hcomplete : env.compaction = .complete → ∀ s, C s → Q { s with stale := [] })
    (hstale : env.compaction = .checkpointFails → ∀ s, C s → Q s) :
    Ends C (compactDatabase env) (fun _ => Q) I := by
  unfold compactDatabase
  cases h : env.compaction with
  | complete => exact Ends.write hI (hcomplete h)
  | vacuumFails => exact Ends.raise hI
  | checkpointFails => exact Ends.ret (hstale h)

/-- The same, for a property that does not look at the bytes of deleted rows. -/
theorem compactDatabase_keeps (h : ∀ s, C s → C { s with stale := [] }) :
    Ends C (compactDatabase env) (fun _ => C) C :=
  compactDatabase_ends (fun _ hs => hs) (fun _ => h) (fun _ _ hs => hs)

/-- The transaction: where it does not come to its end the rows are the old
ones, and where it does they are those of `eraseRows`. -/
theorem deleteState_ends {key_refs : List String} (hI : ∀ s, P s → I s)
    (hkeys : ∀ s, P s → ∀ ref ∈ privateKeyRefs rid s.rows, Keeps P (deletePrivateKey env ref))
    (hcommit : ∀ s rows, P s → eraseRows rid s.rows = some rows → C (s.committed rid rows))
    (hcompact : Ends C (compactDatabase env) (fun _ => Q) I) :
    Ends P (deleteState env rid key_refs) (fun destroyed s => Q s ∧ key_refs ⊆ destroyed) I := by
  unfold deleteState
  refine Ends.bind_read (fun s hs => ?_)
  cases h₁ : run foreignKeys (eventDeletes rid s.rows) s.rows with
  | none => exact Ends.raise (fun t ht => ht ▸ hI s hs)
  | some rows₁ =>
    cases h₂ : run foreignKeys (conversationDeletes rid s.rows rows₁) rows₁ with
    | none =>
      simp only [h₂]
      exact Ends.raise (fun t ht => ht ▸ hI s hs)
    | some rows₂ =>
      simp only [h₂]
      have hrefs : privateKeyRefs rid rows₂ = privateKeyRefs rid s.rows := by
        rw [run_eq_some h₂, privateKeyRefs_filter, run_eq_some h₁, privateKeyRefs_filter]
        · intro r hr
          simp [hit_eventDeletes, hr]
        · intro r hr
          simp [hit_conversationDeletes, hr]
      have hloop : Keeps (fun v => P v ∧ v.rows = s.rows)
          (forEach ((privateKeyRefs rid rows₂).filter (· ∉ key_refs)) (deletePrivateKey env)) := by
        refine Keeps.forEach (fun ref href => Keeps.and (hkeys s hs ref ?_)
          (deletePrivateKey_rows s.rows ref))
        rw [← hrefs]
        exact List.mem_of_mem_filter href
      refine Ends.imp (Ends.bind (Keeps.ends hloop (fun v hv => hI v hv.1)) (fun _ => ?_))
        (fun t ht => by subst ht; exact ⟨hs, rfl⟩) (fun _ _ h => h)
      cases h₃ : run foreignKeys (relationshipDeletes rid rows₂) rows₂ with
      | none => exact Ends.raise (fun v hv => hI v hv.1)
      | some rows₃ =>
        refine Ends.bind (Ends.write (R := fun _ => C) (fun v hv => hI v hv.1) (fun v hv => ?_))
          (fun _ => Ends.bind hcompact
            (fun _ => Ends.ret (fun _ h => ⟨h, List.subset_append_left _ _⟩)))
        have herase : eraseRows rid v.rows = some rows₃ := by
          simp [eraseRows, hv.2, h₁, h₂, h₃]
        exact hcommit v rows₃ hv.1 herase

theorem revokeLoop_ends {w : World} {refs : RelayRefs} (hst : Steady rid P) (hw : P w)
    (hrevoke : ∀ f ∈ env.hooks.revoke_deploy_key, ∀ ref, Keeps P (f ref)) :
    Ends (fun s => s = markRevoked rid w) (forEach refs.keys_to_revoke
      (runHook rid .revoke_deploy_key DeployKeyRef.target env.hooks.revoke_deploy_key))
      (fun _ => P) P :=
  Ends.imp (Keeps.ends (Keeps.forEach (fun k _ => runHook_keeps hst hrevoke k)) (fun _ h => h))
    (fun s hs => by rw [hs]; exact hst.revoked w hw) (fun _ _ h => h)

/-- Everything up to the file phase.  `P` holds throughout, `P₀` once the keys are
revoked, `P₁` from the deletion of the repositories to the journal, `P₂` up to
the transaction, `C` is what the transaction gives and `Q` what `VACUUM` makes of
it.  The keys of the relationship are reported as destroyed. -/
theorem teardownState_ends_loops {w : World} {P₀ P₁ P₂ : World → Prop} (hw : P w)
    (hle : ∀ s, P₁ s → P s) (hle₂ : ∀ s, P₂ s → P s)
    (hloop : Ends (fun s => s = markRevoked rid w) (forEach (discoverRelayRefs w rid).keys_to_revoke
      (runHook rid .revoke_deploy_key DeployKeyRef.target env.hooks.revoke_deploy_key))
      (fun _ => P₀) P)
    (hrepos : Ends P₀ (forEach (discoverRelayRefs w rid).repos_to_delete
      (runHook rid .delete_relay_repo RelayRef.repo env.hooks.delete_relay_repo))
      (fun _ => P₁) P)
    (htomb : ∀ s t, t.relationship_id = rid → P₁ s →
      P₁ { s with tombstones := s.tombstones.upsert t })
    (hkeys : ∀ s, P₁ s → ∀ ref ∈ privateKeyRefs rid s.rows, Keeps P₁ (deletePrivateKey env ref))
    (hjournal : ∀ s, P₁ s → P₂ (s.journaled rid (relationshipInviteIds rid w.rows)
      (discoverRelayRefs w rid)))
    (hlate : ∀ s, P₂ s → ∀ ref ∈ privateKeyRefs rid s.rows, Keeps P₂ (deletePrivateKey env ref))
    (hcommit : ∀ s rows, P₂ s → eraseRows rid s.rows = some rows → C (s.committed rid rows))
    (hcompact : Ends C (compactDatabase env) (fun _ => Q) P) :
    Ends (fun s => s = w) (teardownState env rid) (fun d s => Q s ∧
      d.refs = discoverRelayRefs w rid ∧ d.invite_ids = relationshipInviteIds rid w.rows ∧
      ∃ t, P₁ t ∧ privateKeyRefs rid t.rows ⊆ d.destroyed) P := by
  unfold teardownState
  refine Ends.bind_read (fun s hs => ?_)
  subst hs
  have hcheck : Keeps (fun t => t = s) (requireHooks env rid (discoverRelayRefs s rid)) :=
    requireHooks_keeps _
  refine Ends.bind (Keeps.ends hcheck (fun t ht => ht ▸ hw)) (fun _ => ?_)
  refine Ends.bind (Ends.write (R := fun _ t => t = markRevoked rid s) (fun t ht => ht ▸ hw)
    (fun t ht => by rw [ht])) (fun _ => ?_)
  refine Ends.bind hloop (fun _ => ?_)
  refine Ends.bind hrepos (fun _ => ?_)
  refine Ends.bind_read (fun t ht => ?_)
  have hfiles : Keeps P₁ (forEach (privateKeyRefs rid t.rows) (deletePrivateKey env)) :=
    Keeps.forEach (fun ref href => hkeys t ht ref href)
  refine Ends.bind (Ends.imp (Keeps.ends hfiles hle) (fun u hu => hu ▸ ht) (fun _ _ h => h)) (fun _ => ?_)
  refine Ends.bind (Ends.bind (Ends.write hle (fun u hu => htomb u _ rfl hu))
    (fun _ => Ends.write (R := fun _ => P₂) hle hjournal)) (fun _ => ?_)
  refine Ends.bind (deleteState_ends hle₂ hlate hcommit hcompact) (fun destroyed => ?_)
  exact Ends.ret (fun u hu => ⟨hu.1, rfl, rfl, t, ht, hu.2⟩)

theorem teardownState_ends_keys {w : World} {P₁ P₂ : World → Prop} (hw : P w) (hle : ∀ s, P₁ s → P s)
    (hle₂ : ∀ s, P₂ s → P s)
    (hloop : Ends (fun s => s = markRevoked rid w) (forEach (discoverRelayRefs w rid).keys_to_revoke
      (runHook rid .revoke_deploy_key DeployKeyRef.target env.hooks.revoke_deploy_key))
      (fun _ => P₁) P)
    (hst : Steady rid P₁)
    (hdelete : ∀ f ∈ env.hooks.delete_relay_repo, ∀ ref, Keeps P₁ (f ref))
    (hkeys : ∀ s, P₁ s → ∀ ref ∈ privateKeyRefs rid s.rows, Keeps P₁ (deletePrivateKey env ref))
    (hjournal : ∀ s, P₁ s → P₂ (s.journaled rid (relationshipInviteIds rid w.rows)
      (discoverRelayRefs w rid)))
    (hlate : ∀ s, P₂ s → ∀ ref ∈ privateKeyRefs rid s.rows, Keeps P₂ (deletePrivateKey env ref))
    (hcommit : ∀ s rows, P₂ s → eraseRows rid s.rows = some rows → C (s.committed rid rows))
    (hcompact : Ends C (compactDatabase env) (fun _ => Q) P) :
    Ends (fun s => s = w) (teardownState env rid) (fun d s => Q s ∧
      d.refs = discoverRelayRefs w rid ∧ d.invite_ids = relationshipInviteIds rid w.rows ∧
      ∃ t, P₁ t ∧ privateKeyRefs rid t.rows ⊆ d.destroyed) P :=
  teardownState_ends_loops hw hle hle₂ hloop
    (Keeps.ends (Keeps.forEach (fun k _ => runHook_keeps hst hdelete k)) hle) hst.tombstone hkeys
    hjournal hlate hcommit hcompact

theorem teardownState_ends {w : World} {P₁ P₂ : World → Prop} (hw : P w) (hle : ∀ s, P₁ s → P s)
    (hle₂ : ∀ s, P₂ s → P s)
    (hloop : Ends (fun s => s = markRevoked rid w) (forEach (discoverRelayRefs w rid).keys_to_revoke
      (runHook rid .revoke_deploy_key DeployKeyRef.target env.hooks.revoke_deploy_key))
      (fun _ => P₁) P)
    (hst : Steady rid P₁)
    (hdelete : ∀ f ∈ env.hooks.delete_relay_repo, ∀ ref, Keeps P₁ (f ref))
    (hkeys : ∀ s, P₁ s → ∀ ref ∈ privateKeyRefs rid s.rows, Keeps P₁ (deletePrivateKey env ref))
    (hjournal : ∀ s, P₁ s → P₂ (s.journaled rid (relationshipInviteIds rid w.rows)
      (discoverRelayRefs w rid)))
    (hlate : ∀ s, P₂ s → ∀ ref ∈ privateKeyRefs rid s.rows, Keeps P₂ (deletePrivateKey env ref))
    (hcommit : ∀ s rows, P₂ s → eraseRows rid s.rows = some rows → C (s.committed rid rows))
    (hcompact : Ends C (compactDatabase env) (fun _ => Q) P) :
    Ends (fun s => s = w) (teardownState env rid) (fun d s => Q s ∧
      d.refs = discoverRelayRefs w rid ∧ d.invite_ids = relationshipInviteIds rid w.rows) P :=
  Ends.imp (teardownState_ends_keys hw hle hle₂ hloop hst hdelete hkeys hjournal hlate hcommit hcompact)
    (fun _ h => h) (fun _ _ h => ⟨h.1, h.2.1, h.2.2.1⟩)

/-! ## The file phase -/

theorem sweepStrayFiles_keeps
    (hrelay : ∀ w, P w → relayMentions rid w.relay = true → P { w with relay := none })
    (hdatabase : ∀ w, P w → databaseMentions env rid w.rows w.stale = true →
      P { w with database := false })
    (hfile : ∀ w, P w → ∀ f ∈ w.files.rows, fileMentionsRid rid f = true →
      ∀ v, P v → P (v.unlink f.path))
    (hjournal : ∀ w, P w → ∀ j ∈ w.journals.rows, journalMentions env rid j = true →
      ∀ v, P v → P (v.dropJournal j.relationship_id))
    (htombstone : ∀ w, P w → ∀ t ∈ w.tombstones.rows, tombstoneMentions env rid t = true →
      ∀ v, P v → P (v.dropTombstone t.relationship_id)) :
    Keeps P (sweepStrayFiles env rid) := by
  unfold sweepStrayFiles
  refine Keeps.bind (Keeps.write (fun w hw => ?_)) (fun _ => ?_)
  · split
    · exact hrelay w hw ‹_›
    · exact hw
  refine Keeps.bind (Keeps.write (fun w hw => ?_)) (fun _ => ?_)
  · split
    · exact hdatabase w hw ‹_›
    · exact hw
  refine Keeps.bind (unlinkWhere_keeps (fun w hw f hf hcond =>
    secureUnlink_keeps (hfile w hw f hf hcond))) (fun _ => ?_)
  -- The sweeps drop what they found, from a state that may have changed since.
  have hdrop : Keeps P (Program.bind (Program.read (fun w : World => w.journals.rows.filter
      (journalMentions env rid))) (fun journals => forEach journals (fun j =>
        (Program.write (·.dropJournal j.relationship_id) : Program World Failure Unit)))) := by
    refine Keeps.bind_read (fun w hw n => Keeps.forEach (fun j hj => ?_) n w hw)
    obtain ⟨hmem, hmentions⟩ := List.mem_filter.mp hj
    exact Keeps.write (fun v hv => hjournal w hw j hmem hmentions v hv)
  have hlast : Keeps P (Program.bind (Program.read (fun w : World => w.tombstones.rows.filter
      (tombstoneMentions env rid))) (fun tombstones => forEach tombstones (fun t =>
        (Program.write (·.dropTombstone t.relationship_id) : Program World Failure Unit)))) := by
    refine Keeps.bind_read (fun w hw n => Keeps.forEach (fun t ht => ?_) n w hw)
    obtain ⟨hmem, hmentions⟩ := List.mem_filter.mp ht
    exact Keeps.write (fun v hv => htombstone w hw t hmem hmentions v hv)
  refine Keeps.bind_read (fun w hw n => ?_)
  refine Keeps.bind_state ?_ (fun _ => hlast)
  exact hdrop n w hw

/-- The file belongs to what the file phase deletes. -/
def swept (rid : RelationshipId) (invite_ids : List String) (f : File) : Bool :=
  inOperationalDir rid f || (relationshipFsPaths rid).any f.under || fileMentionsRid rid f ||
    (keySubtrees rid invite_ids).any f.under

/-- The file phase up to the rewriting of `relay.json`. -/
theorem wipeOwnFiles_keeps {invite_ids : List String}
    (hrelay : ∀ w, P w → relayMentions rid w.relay = true → P { w with relay := none })
    (hdatabase : ∀ w, P w → databaseMentions env rid w.rows w.stale = true →
      P { w with database := false })
    (hfile : ∀ w, P w → ∀ f ∈ w.files.rows, swept rid invite_ids f = true →
      ∀ v, P v → P (v.unlink f.path))
    (hjournal : ∀ w, P w → ∀ j ∈ w.journals.rows, journalMentions env rid j = true →
      ∀ v, P v → P (v.dropJournal j.relationship_id))
    (htombstone : ∀ w, P w → ∀ t ∈ w.tombstones.rows, tombstoneMentions env rid t = true →
      ∀ v, P v → P (v.dropTombstone t.relationship_id)) :
    Keeps P (wipeOwnFiles env rid invite_ids) := by
  unfold wipeOwnFiles
  refine Keeps.bind (unlinkWhere_keeps (fun w hw f hf hcond =>
    secureUnlink_keeps (hfile w hw f hf ?_))) (fun _ => ?_)
  · simp [swept, hcond]
  refine Keeps.bind (unlinkWhere_keeps (fun w hw f hf hcond =>
    secureUnlink_keeps (hfile w hw f hf ?_))) (fun _ => ?_)
  · simp [swept, hcond]
  refine Keeps.bind (sweepStrayFiles_keeps hrelay hdatabase (fun w hw f hf hcond =>
    hfile w hw f hf ?_) hjournal htombstone) (fun _ => ?_)
  · simp [swept, hcond]
  refine unlinkWhere_keeps (fun w hw f hf hcond => deleteKeyFile_keeps (hfile w hw f hf ?_))
  simp [swept, hcond]

/-- The end of the file phase. -/
theorem relayYaml_keeps
    (hfile : ∀ w, P w → ∀ f ∈ w.files.rows, fileMentionsRid rid f = true →
      ∀ v, P v → P (v.unlink f.path)) :
    Keeps P (unlinkWhere (secureUnlink env)
      (fun f => f.path = ["relay.yaml"] && fileMentionsRid rid f)) := by
  refine unlinkWhere_keeps (fun w hw f hf hcond => secureUnlink_keeps (hfile w hw f hf ?_))
  simp only [Bool.and_eq_true] at hcond
  exact hcond.2

theorem postcheck_keeps (key_refs : List String) : Keeps P (postcheck env rid key_refs) := by
  unfold postcheck
  exact Keeps.bind (Keeps.read _) (fun b => Keeps.ite (fun _ => Keeps.raise _) (fun _ => Keeps.ret _))

end State

end MuseAgentSocial.Teardown
