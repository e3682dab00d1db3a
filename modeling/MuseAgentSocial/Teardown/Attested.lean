import MuseAgentSocial.Teardown.RelayKept

/-!
# What a teardown attests about deploy keys

A teardown logs the revocation of a key and reports it.  The log is keyed by
repository and label, and the hook tells of most failures by its return value,
which the teardown does not read.

`revocation_attested` says that the log and the report are true, and that the
hook was called for every key of the relationship, in the runs in which every
key that is still to be revoked can be requested, has a label of its own, and
is confirmed by the provider or not answered at all.
-/

namespace MuseAgentSocial.Teardown

open Relational Durable Durable.Program

/-! ## Keys and calls -/

/-- The provider confirms the deletion: 204, or 404 for a key that is gone. -/
def Answer.confirms : Answer → Bool
  | .status code => code = 204
  | .httpError code => code = 404
  | .unreachable => false

/-- The deletion of the key with this id was confirmed. -/
def Confirmed (calls : List Call) (key_id : String) : Prop :=
  ∃ ref answer, Call.revokeDeployKey ref (some answer) ∈ calls ∧ ref.key_id = key_id ∧
    answer.confirms = true

/-- The hook was called for the key with this id. -/
def CalledFor (calls : List Call) (key_id : String) : Prop :=
  ∃ ref answer, Call.revokeDeployKey ref answer ∈ calls ∧ ref.key_id = key_id

variable {calls : List Call} {id : String} {rows : List Row} {t : TableName} {k : DeployKeyRef}
  {xs : List DeployKeyRef}

theorem Confirmed.mono {calls' : List Call} (h : Confirmed calls id)
    (hle : calls ⊆ calls') : Confirmed calls' id := by
  obtain ⟨ref, answer, hmem, hid, hc⟩ := h
  exact ⟨ref, answer, hle hmem, hid, hc⟩

theorem Confirmed.calledFor (h : Confirmed calls id) : CalledFor calls id := by
  obtain ⟨ref, answer, hmem, hid, -⟩ := h
  exact ⟨ref, some answer, hmem, hid⟩

/-- The keys that a pairing registered. -/
def docKeys (doc : RelayDoc) : List KeyFields :=
  doc.deploy_keys.filterMap (fun e => match e with
    | .dict f => some f
    | .other _ => none)

theorem mem_docKeys {doc : RelayDoc} {f : KeyFields} : f ∈ docKeys doc ↔ .dict f ∈ doc.deploy_keys := by
  unfold docKeys
  rw [List.mem_filterMap]
  constructor
  · rintro ⟨e, he, heq⟩
    cases e with
    | dict g =>
      cases heq
      exact he
    | other text => cases heq
  · exact fun h => ⟨.dict f, h, rfl⟩

/-- The id of a key at the provider. -/
def keyId (f : KeyFields) : String := firstText [f.key_id, f.id]

/-- What the completion log says of a live relationship is true: the keys under
a logged target were confirmed. -/
def Attested (w : World) : Prop :=
  ∀ p ∈ w.recorded, ∀ f ∈ docKeys p.2,
    hookCompleted p.1 .revoke_deploy_key (keyRef w.rows p.1 f).target w = true →
      Confirmed w.calls (keyId f)

/-- The keys of every relationship that was paired and is no longer in the
database were confirmed. -/
def RevokedAll (w : World) : Prop :=
  ∀ p ∈ w.paired, p ∈ w.recorded ∨ ∀ f ∈ docKeys p.2, Confirmed w.calls (keyId f)

/-! ## The rows that the log and the target depend on -/

/-- The rows of one relationship in a table. -/
def rowsOf (t : TableName) (rid : RelationshipId) (rows : List Row) : List Row :=
  (select t rows).filter (·.is .relationship_id (.text rid))

theorem hookCompleted_eq (rid : RelationshipId) (hook : HookName) (target : String) (w : World) :
    hookCompleted rid hook target w = (rowsOf .teardown_hook_log rid w.rows).any (fun r =>
      r.is .hook (.text hook.text) && r.is .target (.text target)) := by
  simp [hookCompleted, rowsOf, List.any_filter, Bool.and_assoc]

theorem ownRepo_eq (rid : RelationshipId) (rows : List Row) :
    ownRepo rows rid = match (rowsOf .relay_config rid rows).head? with
      | some r => ownerSlashName ((textOf r .repo_url).getD "")
      | none => "" := by
  unfold ownRepo rowsOf
  rw [List.head?_filter]
  cases (select .relay_config rows).find? (fun r => r.is .relationship_id (.text rid)) <;> rfl

theorem keyRef_congr {rid : RelationshipId} {rows' : List Row}
    (h : rowsOf .relay_config rid rows' = rowsOf .relay_config rid rows) (f : KeyFields) :
    keyRef rows' rid f = keyRef rows rid f := by
  simp only [keyRef, ownRepo_eq, h]

theorem hookCompleted_congr {rid : RelationshipId} {w w' : World}
    (h : rowsOf .teardown_hook_log rid w'.rows = rowsOf .teardown_hook_log rid w.rows)
    (hook : HookName) (target : String) :
    hookCompleted rid hook target w' = hookCompleted rid hook target w := by
  simp only [hookCompleted_eq, h]

theorem rowsOf_append (t : TableName) (rid : RelationshipId) (rows rows' : List Row) :
    rowsOf t rid (rows ++ rows') = rowsOf t rid rows ++ rowsOf t rid rows' := by
  simp [rowsOf, select]

theorem rowsOf_filter {rid : RelationshipId} {keep : Row → Bool}
    (h : ∀ r, r.table = t → r.is .relationship_id (.text rid) = true → keep r = true) :
    rowsOf t rid (rows.filter keep) = rowsOf t rid rows := by
  unfold rowsOf select
  rw [List.filter_filter, List.filter_filter, List.filter_filter]
  apply List.filter_congr
  intro r _
  by_cases ht : r.table = t
  · cases hr : r.is .relationship_id (.text rid) with
    | false => simp
    | true => simp [ht, h r ht hr]
  · simp [ht]

/-- The completion log belongs to relationships that are in the database. -/
def LogOwned (rows : List Row) : Prop :=
  ∀ rid, rowsOf .teardown_hook_log rid rows ≠ [] → rowsOf .relationships rid rows ≠ []

/-! ## Until the transaction -/

/-- What a teardown of `rid` that started in `w` has changed: its own log, and
the calls. -/
structure Ongoing (rid : RelationshipId) (w s : World) : Prop where
  recorded : s.recorded = w.recorded
  paired : s.paired = w.paired
  config : ∀ t, rowsOf .relay_config t s.rows = rowsOf .relay_config t w.rows
  log : ∀ t, t ≠ rid → rowsOf .teardown_hook_log t s.rows = rowsOf .teardown_hook_log t w.rows
  rows : ∀ t, rowsOf .relationships t w.rows ≠ [] → rowsOf .relationships t s.rows ≠ []
  own : rowsOf .relationships rid s.rows ≠ []
  calls : w.calls ⊆ s.calls

section Ongoing

variable {rid : RelationshipId} {w s : World}

theorem Ongoing.called (h : Ongoing rid w s) (c : Call) : Ongoing rid w (s.called c) :=
  { h with calls := fun _ hx => List.mem_append_left _ (h.calls hx) }

theorem Ongoing.of_rows_eq (h : Ongoing rid w s) {s' : World} (hrec : s'.recorded = s.recorded)
    (hpaired : s'.paired = s.paired) (hrows : s'.rows = s.rows) (hcalls : s'.calls = s.calls) :
    Ongoing rid w s' where
  recorded := hrec.trans h.recorded
  paired := hpaired.trans h.paired
  config := by rw [hrows]; exact h.config
  log := by rw [hrows]; exact h.log
  rows := by rw [hrows]; exact h.rows
  own := by rw [hrows]; exact h.own
  calls := by rw [hcalls]; exact h.calls

theorem recordHookCompleted_rows (rid : RelationshipId) (hook : HookName) (target : String)
    (w : World) : ∃ new, (∀ r ∈ new, r = logRow rid hook target) ∧
      recordHookCompleted rid hook target w = { w with rows := w.rows ++ new } := by
  unfold recordHookCompleted
  split
  · exact ⟨[], by simp, by simp⟩
  · exact ⟨[logRow rid hook target], by simp, rfl⟩

theorem rowsOf_logRow_ne {rid rid' : RelationshipId} {hook : HookName} {target : String}
    {new : List Row} (hnew : ∀ r ∈ new, r = logRow rid hook target)
    (hne : t ≠ .teardown_hook_log ∨ rid' ≠ rid) : rowsOf t rid' new = [] := by
  rw [rowsOf, List.filter_eq_nil_iff]
  intro r hr hrid
  obtain ⟨hmem, htab⟩ := mem_select.mp hr
  rw [hnew r hmem] at htab hrid
  rcases hne with hne | hne
  · exact hne htab.symm
  · have hsame : rid = rid' := by simpa [Row.is, Row.isIn, Row.get, logRow] using hrid
    exact hne hsame.symm

theorem Ongoing.logged (h : Ongoing rid w s) (hook : HookName) (target : String) :
    Ongoing rid w (recordHookCompleted rid hook target s) := by
  obtain ⟨new, hnew, heq⟩ := recordHookCompleted_rows rid hook target s
  rw [heq]
  refine ⟨h.recorded, h.paired, fun t => ?_, fun t ht => ?_, fun t ht => ?_, ?_, h.calls⟩
  · show rowsOf .relay_config t (s.rows ++ new) = _
    rw [rowsOf_append, rowsOf_logRow_ne hnew (Or.inl (by decide)), List.append_nil]
    exact h.config t
  · show rowsOf .teardown_hook_log t (s.rows ++ new) = _
    rw [rowsOf_append, rowsOf_logRow_ne hnew (Or.inr ht), List.append_nil]
    exact h.log t ht
  · show rowsOf .relationships t (s.rows ++ new) ≠ []
    rw [rowsOf_append, rowsOf_logRow_ne hnew (Or.inl (by decide)), List.append_nil]
    exact h.rows t ht
  · show rowsOf .relationships rid (s.rows ++ new) ≠ []
    rw [rowsOf_append, rowsOf_logRow_ne hnew (Or.inl (by decide)), List.append_nil]
    exact h.own

theorem rowsOf_markRevoked (ht : t ≠ .relationships) (t' rid : RelationshipId)
    (w : World) : rowsOf t t' (markRevoked rid w).rows = rowsOf t t' w.rows := by
  unfold rowsOf
  rw [markRevoked_rows, select_markRevoked ht]

theorem rowsOf_relationships_markRevoked (t rid : RelationshipId) (w : World)
    (h : rowsOf .relationships t w.rows ≠ []) :
    rowsOf .relationships t (markRevoked rid w).rows ≠ [] := by
  obtain ⟨r, hr⟩ := List.exists_mem_of_ne_nil _ h
  obtain ⟨hsel, hrid⟩ := List.mem_filter.mp hr
  obtain ⟨hmem, htab⟩ := mem_select.mp hsel
  refine List.ne_nil_of_mem (a := revokedRow rid r) (List.mem_filter.mpr ⟨mem_select.mpr ⟨?_, ?_⟩, ?_⟩)
  · exact List.mem_map_of_mem hmem
  · rw [revokedRow_table]
    exact htab
  · rw [revokedRow_is rid (by decide)]
    exact hrid

theorem Ongoing.revoked (h : Ongoing rid w s) : Ongoing rid w (markRevoked rid s) where
  recorded := h.recorded
  paired := h.paired
  config := fun t => (rowsOf_markRevoked (by decide) t rid s).trans (h.config t)
  log := fun t ht => (rowsOf_markRevoked (by decide) t rid s).trans (h.log t ht)
  rows := fun t ht => rowsOf_relationships_markRevoked t rid s (h.rows t ht)
  own := rowsOf_relationships_markRevoked rid rid s h.own
  calls := h.calls

end Ongoing

/-! ## The loop over the keys -/

/-- The keys whose target is not logged yet. -/
def pending (rid : RelationshipId) (w : World) (ks : List DeployKeyRef) : List DeployKeyRef :=
  ks.filter (fun k => !hookCompleted rid .revoke_deploy_key k.target w)

/-- The key can be requested, its target is its own, and the provider confirms
its deletion or does not answer. -/
structure KeysSafe (w : World) (c : TeardownCall) (ks : List DeployKeyRef) : Prop where
  usable : ∀ k ∈ ks, firstText [c.token] ≠ "" ∧ k.key_id ≠ "" ∧
    (k.repo ≠ "" ∨ (c.revokeHooks w).firstRepo ≠ "")
  distinct : (ks.map DeployKeyRef.target).Nodup
  answers : ∀ i < ks.length, (c.provider (w.calls.length + i)).confirms = true ∨
    c.provider (w.calls.length + i) = .unreachable

/-- A key that was recorded for the relationship. -/
def OwnKey (rid : RelationshipId) (w : World) (k : DeployKeyRef) : Prop :=
  ∃ p ∈ w.recorded, p.1 = rid ∧ ∃ f ∈ docKeys p.2, k = keyRef w.rows rid f

/-- What holds until the keys are revoked: the log is true of the own keys. -/
structure Revoking (rid : RelationshipId) (w s : World) : Prop where
  ongoing : Ongoing rid w s
  attested : ∀ k, OwnKey rid w k → hookCompleted rid .revoke_deploy_key k.target s = true →
    Confirmed s.calls k.key_id

/-- The loop: `xs` are the keys of `ks` that are still to come. -/
structure LoopInv (rid : RelationshipId) (w : World) (ks xs : List DeployKeyRef) (s : World) :
    Prop where
  revoking : Revoking rid w s
  done : ∀ k ∈ ks, k ∈ xs ∨ hookCompleted rid .revoke_deploy_key k.target s = true
  same : ∀ k ∈ xs, hookCompleted rid .revoke_deploy_key k.target s =
    hookCompleted rid .revoke_deploy_key k.target w
  count : s.calls.length + (pending rid w xs).length = w.calls.length + (pending rid w ks).length
  tail : xs <:+ ks

section Loop

variable {rid : RelationshipId} {w s : World} {c : TeardownCall} {ks : List DeployKeyRef}

theorem hookCompleted_logged (hook hook' : HookName) (target target' : String) :
    hookCompleted rid hook target (recordHookCompleted rid hook' target' s) = true ↔
      hookCompleted rid hook target s = true ∨ hook = hook' ∧ target = target' := by
  unfold recordHookCompleted
  split
  · rename_i hdone
    constructor
    · exact Or.inl
    · rintro (h | ⟨rfl, rfl⟩)
      · exact h
      · exact hdone
  · have htext : hook'.text = hook.text ↔ hook = hook' := by
      cases hook <;> cases hook' <;> decide
    simp only [hookCompleted, select, List.filter_append, List.any_append, Bool.or_eq_true]
    refine or_congr_right ?_
    show (List.any [logRow rid hook' target'] _) = true ↔ _
    rw [List.any_cons, List.any_nil, Bool.or_false]
    simp only [Bool.and_eq_true, Row.is_iff]
    constructor
    · rintro ⟨⟨-, hhook⟩, htarget⟩
      have hhook' : some (Value.text hook'.text) = some (.text hook.text) := hhook
      have htarget' : some (Value.text target') = some (.text target) := htarget
      simp only [Option.some.injEq, Value.text.injEq] at hhook' htarget'
      exact ⟨htext.mp hhook', htarget'.symm⟩
    · rintro ⟨rfl, rfl⟩
      exact ⟨⟨rfl, rfl⟩, rfl⟩

/-- The request of a usable key: it is sent and recorded with the answer, and
the hook returns unless there was no answer. -/
theorem revokeDeployKey_ends {h : RevokeHooks} {provider : Nat → Answer}
    (htoken : firstText [h.token] ≠ "") (hid : k.key_id ≠ "")
    (hrepo : k.repo ≠ "" ∨ h.firstRepo ≠ "") :
    Ends (fun t => t = s) (h.revokeDeployKey provider k)
      (fun _ t => provider s.calls.length ≠ .unreachable ∧ ∃ ref : DeployKeyRef,
        ref.key_id = k.key_id ∧ t = s.called (.revokeDeployKey ref (some (provider s.calls.length))))
      (fun t => t = s ∨ ∃ call, t = s.called call) := by
  have hne : (if k.repo = "" then h.firstRepo else k.repo) ≠ "" := by
    split
    · rename_i hempty
      exact hrepo.resolve_left (fun hcontra => hcontra hempty)
    · assumption
  unfold RevokeHooks.revokeDeployKey
  simp only [hne, hid, if_false]
  unfold RevokeHooks.request
  rw [if_neg htoken]
  refine Ends.bind_read (fun t ht => ?_)
  subst ht
  refine Ends.bind (Ends.write (R := fun _ u => u = t.called (.revokeDeployKey
    { k with repo := if k.repo = "" then h.firstRepo else k.repo }
    (some (provider t.calls.length)))) (fun u hu => Or.inl hu) (fun u hu => by rw [hu])) (fun _ => ?_)
  cases hanswer : provider t.calls.length with
  | status code => exact Ends.ret (fun u hu => ⟨by simp,
      { k with repo := if k.repo = "" then h.firstRepo else k.repo }, rfl, hu⟩)
  | httpError code => exact Ends.ret (fun u hu => ⟨by simp,
      { k with repo := if k.repo = "" then h.firstRepo else k.repo }, rfl, hu⟩)
  | unreachable => exact Ends.raise (fun u hu => Or.inr ⟨_, hu⟩)

theorem Revoking.called {call : Call} (h : Revoking rid w s) : Revoking rid w (s.called call) where
  ongoing := h.ongoing.called call
  attested := fun k hk hdone => (h.attested k hk hdone).mono (List.subset_append_left _ _)

theorem pending_inj (hnodup : ((pending rid w ks).map DeployKeyRef.target).Nodup)
    {k' : DeployKeyRef} (hk : k ∈ ks)
    (hpend : hookCompleted rid .revoke_deploy_key k.target w = false) (hk' : k' ∈ ks)
    (htarget : k'.target = k.target) : k' = k := by
  have hin : ∀ x ∈ ks, x.target = k.target → x ∈ pending rid w ks := by
    intro x hx hxt
    exact List.mem_filter.mpr ⟨hx, by rw [hxt, hpend]; rfl⟩
  exact List.inj_on_of_nodup_map hnodup (hin k' hk' htarget) (hin k hk rfl) htarget

/-- A pass over a key that is logged already. -/
theorem LoopInv.skip (h : LoopInv rid w ks (k :: xs) s)
    (hdone : hookCompleted rid .revoke_deploy_key k.target s = true) : LoopInv rid w ks xs s where
  revoking := h.revoking
  done := by
    intro k' hk'
    rcases h.done k' hk' with hmem | hk''
    · rcases List.mem_cons.mp hmem with rfl | hmem
      · exact Or.inr hdone
      · exact Or.inl hmem
    · exact Or.inr hk''
  same := fun k' hk' => h.same k' (List.mem_cons_of_mem k hk')
  count := by
    have hw := h.same k List.mem_cons_self
    rw [hdone] at hw
    have hpend : pending rid w (k :: xs) = pending rid w xs := by simp [pending, ← hw]
    rw [← hpend]
    exact h.count
  tail := (List.suffix_cons k xs).trans h.tail

/-- A pass over a pending key whose deletion was confirmed. -/
theorem LoopInv.log {ref : DeployKeyRef} {answer : Answer} (h : LoopInv rid w ks (k :: xs) s)
    (hown : ∀ k, OwnKey rid w k → k ∈ ks)
    (hnodup : ((pending rid w ks).map DeployKeyRef.target).Nodup)
    (hpend : hookCompleted rid .revoke_deploy_key k.target s = false)
    (hid : ref.key_id = k.key_id) (hconfirms : answer.confirms = true) :
    LoopInv rid w ks xs (recordHookCompleted rid .revoke_deploy_key k.target
      (s.called (.revokeDeployKey ref (some answer)))) := by
  have hkmem : k ∈ ks := h.tail.subset List.mem_cons_self
  have hpendw : hookCompleted rid .revoke_deploy_key k.target w = false := by
    rw [← h.same k List.mem_cons_self]
    exact hpend
  have hcons : pending rid w (k :: xs) = k :: pending rid w xs := by simp [pending, hpendw]
  have hsub : (pending rid w (k :: xs)).Sublist (pending rid w ks) := h.tail.sublist.filter _
  have hcalled : Revoking rid w (s.called (.revokeDeployKey ref (some answer))) := h.revoking.called
  obtain ⟨new, hnew, heq⟩ := recordHookCompleted_rows rid .revoke_deploy_key k.target
    (s.called (.revokeDeployKey ref (some answer)))
  have hcalls : (recordHookCompleted rid .revoke_deploy_key k.target
      (s.called (.revokeDeployKey ref (some answer)))).calls =
        s.calls ++ [.revokeDeployKey ref (some answer)] := by rw [heq]; rfl
  refine ⟨⟨hcalled.ongoing.logged _ _, ?_⟩, ?_, ?_, ?_, (List.suffix_cons k xs).trans h.tail⟩
  · intro k' hk' hdone
    rw [hcalls]
    rcases (hookCompleted_logged _ _ _ _).mp hdone with hold | ⟨-, htarget⟩
    · exact hcalled.attested k' hk' hold
    · rw [pending_inj hnodup hkmem hpendw (hown k' hk') htarget]
      exact ⟨ref, answer, List.mem_append_right _ List.mem_cons_self, hid, hconfirms⟩
  · intro k' hk'
    rcases h.done k' hk' with hmem | hdone
    · rcases List.mem_cons.mp hmem with rfl | hmem
      · exact Or.inr ((hookCompleted_logged _ _ _ _).mpr (Or.inr ⟨rfl, rfl⟩))
      · exact Or.inl hmem
    · exact Or.inr ((hookCompleted_logged _ _ _ _).mpr (Or.inl hdone))
  · intro k' hk'
    have hne : hookCompleted rid .revoke_deploy_key k'.target w = false → k'.target ≠ k.target := by
      intro hw htarget
      have hnodup' := hnodup.sublist (hsub.map DeployKeyRef.target)
      rw [hcons, List.map_cons, List.nodup_cons] at hnodup'
      refine hnodup'.1 (List.mem_map.mpr ⟨k', List.mem_filter.mpr ⟨hk', by rw [hw]; rfl⟩, htarget⟩)
    have hold : hookCompleted rid .revoke_deploy_key k'.target s =
        hookCompleted rid .revoke_deploy_key k'.target w := h.same k' (List.mem_cons_of_mem k hk')
    rw [Bool.eq_iff_iff, hookCompleted_logged]
    constructor
    · rintro (hs | ⟨-, htarget⟩)
      · rw [← hold]
        exact hs
      · by_contra hw
        exact hne (by simpa using hw) htarget
    · intro hw
      exact Or.inl (by rw [← hold] at hw; exact hw)
  · have hcount := h.count
    rw [hcons, List.length_cons] at hcount
    rw [hcalls, List.length_append, List.length_singleton]
    omega

theorem runHook_loop (hown : ∀ k, OwnKey rid w k → k ∈ ks)
    (hsafe : KeysSafe w c (pending rid w ks)) :
    Ends (LoopInv rid w ks (k :: xs)) (runHook rid .revoke_deploy_key DeployKeyRef.target
      (c.env w).hooks.revoke_deploy_key k) (fun _ => LoopInv rid w ks xs) (Revoking rid w) := by
  unfold runHook
  refine Ends.bind_read (fun s h => ?_)
  cases hdone : hookCompleted rid .revoke_deploy_key k.target s with
  | true => exact Ends.ret (fun t ht => by rw [ht]; exact h.skip hdone)
  | false =>
    have hpendw : hookCompleted rid .revoke_deploy_key k.target w = false := by
      rw [← h.same k List.mem_cons_self]
      exact hdone
    have hcons : pending rid w (k :: xs) = k :: pending rid w xs := by simp [pending, hpendw]
    have hsub : (pending rid w (k :: xs)).Sublist (pending rid w ks) := h.tail.sublist.filter _
    obtain ⟨htoken, hid, hrepo⟩ := hsafe.usable k (hsub.subset (by rw [hcons]; exact List.mem_cons_self))
    -- The request of this key is the next one of the pending keys.
    have hanswer : (c.provider s.calls.length).confirms = true ∨
        c.provider s.calls.length = .unreachable := by
      have hlen := hsub.length_le
      have hcount := h.count
      rw [hcons, List.length_cons] at hlen hcount
      have hi := hsafe.answers (s.calls.length - w.calls.length) (by omega)
      rw [show w.calls.length + (s.calls.length - w.calls.length) = s.calls.length by omega] at hi
      exact hi
    have hcall : Ends (fun t => t = s) ((c.revokeHooks w).revokeDeployKey c.provider k)
        (fun _ t => c.provider s.calls.length ≠ .unreachable ∧ ∃ ref : DeployKeyRef,
          ref.key_id = k.key_id ∧ t = s.called (.revokeDeployKey ref (some (c.provider s.calls.length))))
        (fun t => t = s ∨ ∃ call, t = s.called call) := revokeDeployKey_ends htoken hid hrepo
    refine Ends.bind (Ends.weaken hcall ?_) (fun _ => Ends.write ?_ ?_)
    · rintro t (rfl | ⟨call, rfl⟩)
      · exact h.revoking
      · exact h.revoking.called
    · rintro t ⟨-, ref, -, rfl⟩
      exact h.revoking.called
    · rintro t ⟨hreached, ref, href, rfl⟩
      exact h.log hown hsafe.distinct hdone href (hanswer.resolve_right hreached)

end Loop

/-! ## The invariant -/

/-- The invariant of the log. -/
structure LogTrue (w : World) : Prop where
  attested : Attested w
  revoked : RevokedAll w
  owned : LogOwned w.rows
  rowed : ∀ p ∈ w.recorded, rowsOf .relationships p.1 w.rows ≠ []

/-- What holds from the revocation of the keys to the transaction. -/
structure KeysRevoked (rid : RelationshipId) (w s : World) : Prop where
  ongoing : Ongoing rid w s
  confirmed : ∀ k, OwnKey rid w k → Confirmed s.calls k.key_id

/-- What the transaction leaves. -/
structure Settled (rid : RelationshipId) (w s : World) : Prop where
  recorded : s.recorded = w.recorded.filter (·.1 ≠ rid)
  paired : s.paired = w.paired
  config : ∀ t, t ≠ rid → rowsOf .relay_config t s.rows = rowsOf .relay_config t w.rows
  log : ∀ t, t ≠ rid → rowsOf .teardown_hook_log t s.rows = rowsOf .teardown_hook_log t w.rows
  rows : ∀ t, t ≠ rid → rowsOf .relationships t w.rows ≠ [] → rowsOf .relationships t s.rows ≠ []
  own : rowsOf .teardown_hook_log rid s.rows = []
  calls : w.calls ⊆ s.calls
  confirmed : ∀ k, OwnKey rid w k → Confirmed s.calls k.key_id

section Call

variable {rid : RelationshipId} {w s : World} {c : TeardownCall}

theorem KeysRevoked.revoking (h : KeysRevoked rid w s) : Revoking rid w s :=
  ⟨h.ongoing, fun k hk _ => h.confirmed k hk⟩

theorem keysRevoked_steady : Steady rid (KeysRevoked rid w) where
  called := fun s call h => ⟨h.ongoing.called call, fun k hk =>
    (h.confirmed k hk).mono (List.subset_append_left _ _)⟩
  logged := by
    intro s hook target h
    obtain ⟨new, -, heq⟩ := recordHookCompleted_rows rid hook target s
    have hcalls : (recordHookCompleted rid hook target s).calls = s.calls := by rw [heq]
    exact ⟨h.ongoing.logged hook target, fun k hk => by rw [hcalls]; exact h.confirmed k hk⟩
  revoked := fun s h => ⟨h.ongoing.revoked, h.confirmed⟩
  tombstone := fun s t _ h => ⟨h.ongoing.of_rows_eq rfl rfl rfl rfl, h.confirmed⟩

theorem Revoking.logTrue (h : Revoking rid w s) (hw : LogTrue w) : LogTrue s where
  attested := by
    intro p hp f hf hdone
    rw [h.ongoing.recorded] at hp
    rw [keyRef_congr (h.ongoing.config p.1)] at hdone
    by_cases hrid : p.1 = rid
    · rw [hrid] at hdone
      exact h.attested (keyRef w.rows rid f) ⟨p, hp, hrid, f, hf, rfl⟩ hdone
    · rw [hookCompleted_congr (h.ongoing.log p.1 hrid)] at hdone
      exact (hw.attested p hp f hf hdone).mono h.ongoing.calls
  revoked := by
    intro p hp
    rw [h.ongoing.paired] at hp
    rw [h.ongoing.recorded]
    exact (hw.revoked p hp).imp_right (fun hall f hf => (hall f hf).mono h.ongoing.calls)
  owned := by
    intro t ht
    by_cases hrid : t = rid
    · rw [hrid]
      exact h.ongoing.own
    · rw [h.ongoing.log t hrid] at ht
      exact h.ongoing.rows t (hw.owned t ht)
  rowed := by
    intro p hp
    rw [h.ongoing.recorded] at hp
    exact h.ongoing.rows p.1 (hw.rowed p hp)

theorem Settled.logTrue (h : Settled rid w s) (hw : LogTrue w) : LogTrue s where
  attested := by
    intro p hp f hf hdone
    rw [h.recorded, List.mem_filter] at hp
    have hrid : p.1 ≠ rid := by simpa using hp.2
    rw [keyRef_congr (h.config p.1 hrid), hookCompleted_congr (h.log p.1 hrid)] at hdone
    exact (hw.attested p hp.1 f hf hdone).mono h.calls
  revoked := by
    intro p hp
    rw [h.paired] at hp
    rcases hw.revoked p hp with hmem | hall
    · by_cases hrid : p.1 = rid
      · exact Or.inr (fun f hf => h.confirmed (keyRef w.rows rid f) ⟨p, hmem, hrid, f, hf, rfl⟩)
      · refine Or.inl ?_
        rw [h.recorded, List.mem_filter]
        exact ⟨hmem, by simpa using hrid⟩
    · exact Or.inr (fun f hf => (hall f hf).mono h.calls)
  owned := by
    intro t ht
    by_cases hrid : t = rid
    · rw [hrid] at ht
      exact absurd h.own ht
    · rw [h.log t hrid] at ht
      exact h.rows t hrid (hw.owned t ht)
  rowed := by
    intro p hp
    rw [h.recorded, List.mem_filter] at hp
    exact h.rows p.1 (by simpa using hp.2) (hw.rowed p hp.1)

theorem rowsOf_survivors (ht : t ∈ relayTables) {t' : RelationshipId} (hne : t' ≠ rid)
    (rows : List Row) :
    rowsOf t t' (survivors rid rows) = rowsOf t t' rows := by
  unfold survivors
  refine rowsOf_filter (fun r htab hrid => ?_)
  have hother := is_relationship_ne hrid hne
  simp only [relayTables, List.mem_cons, List.not_mem_nil, or_false] at ht
  rcases ht with rfl | rfl | rfl | rfl <;> simp [erased, htab, hother]

theorem rowsOf_survivors_log (rows : List Row) :
    rowsOf .teardown_hook_log rid (survivors rid rows) = [] := by
  rw [rowsOf, List.filter_eq_nil_iff]
  intro r hr hrid
  obtain ⟨hmem, htab⟩ := mem_select.mp hr
  have hkept := (mem_survivors.mp hmem).2
  simp [erased, htab, hrid] at hkept

theorem KeysRevoked.commit (h : KeysRevoked rid w s) (herase : eraseRows rid s.rows = some rows) :
    Settled rid w (s.committed rid rows) := by
  have hkeep : ∀ t ∈ relayTables, ∀ t', t' ≠ rid → rowsOf t t' rows = rowsOf t t' s.rows := by
    intro t ht t' hne
    rw [eraseRows_eq herase]
    exact rowsOf_survivors ht hne s.rows
  refine ⟨?_, h.ongoing.paired, fun t hne => ?_, fun t hne => ?_, fun t hne hrow => ?_, ?_,
    h.ongoing.calls, h.confirmed⟩
  · show s.recorded.filter (·.1 ≠ rid) = _
    rw [h.ongoing.recorded]
  · exact (hkeep .relay_config (by decide) t hne).trans (h.ongoing.config t)
  · exact (hkeep .teardown_hook_log (by decide) t hne).trans (h.ongoing.log t hne)
  · show rowsOf .relationships t rows ≠ []
    rw [hkeep .relationships (by decide) t hne]
    exact h.ongoing.rows t hrow
  · show rowsOf .teardown_hook_log rid rows = []
    rw [eraseRows_eq herase]
    exact rowsOf_survivors_log s.rows

/-- The recorded keys are among those that a teardown revokes. -/
theorem ownKey_mem (hk : Kept w) (h : OwnKey rid w k) :
    k ∈ (discoverRelayRefs w rid).keys_to_revoke := by
  obtain ⟨p, hp, hrid, f, hf, rfl⟩ := h
  have hentry := (hk.covered p hp).1 (mem_docKeys.mp hf)
  obtain ⟨g, hg, htitle⟩ := hk.sound.titled p hp _ (mem_docKeys.mp hf)
  cases hg
  cases hrelay : w.relay with
  | none =>
    rw [hrelay] at hentry
    cases hentry
  | some file =>
    cases file with
    | unparseable text => exact absurd hrelay (hk.sound.parsed text)
    | doc d =>
      rw [hrelay] at hentry
      have hclaim : deployKeyClaim f (keyClaims w.rows) = some rid := by
        unfold deployKeyClaim
        rw [htitle, deployKeyTitle, stripPrefix_append, hrid]
      simp only [discoverRelayRefs, hrelay]
      exact List.mem_filterMap.mpr ⟨.dict f, hentry, by simp [keyToRevoke, hclaim]⟩

theorem loopInv_start (hw : LogTrue w) (hrow : rowsOf .relationships rid w.rows ≠ [])
    (ks : List DeployKeyRef) : LoopInv rid w ks ks (markRevoked rid w) := by
  have hbase : Ongoing rid w w :=
    ⟨rfl, rfl, fun _ => rfl, fun _ _ => rfl, fun _ h => h, hrow, fun _ h => h⟩
  have hsame : ∀ target, hookCompleted rid .revoke_deploy_key target (markRevoked rid w) =
      hookCompleted rid .revoke_deploy_key target w := fun target =>
    hookCompleted_congr (rowsOf_markRevoked (by decide) rid rid w) _ target
  refine ⟨⟨hbase.revoked, ?_⟩, fun k hk => Or.inl hk, fun k _ => hsame k.target, rfl,
    List.suffix_refl ks⟩
  rintro k ⟨p, hp, hrid, f, hf, rfl⟩ hdone
  rw [hsame] at hdone
  refine hw.attested p hp f hf ?_
  rw [hrid]
  exact hdone

theorem revokeLoop_confirms (hw : LogTrue w) (hk : Kept w)
    (hrow : rowsOf .relationships rid w.rows ≠ [])
    (hsafe : KeysSafe w c (pending rid w (discoverRelayRefs w rid).keys_to_revoke)) :
    Ends (fun s => s = markRevoked rid w) (forEach (discoverRelayRefs w rid).keys_to_revoke
      (runHook rid .revoke_deploy_key DeployKeyRef.target (c.env w).hooks.revoke_deploy_key))
      (fun _ => KeysRevoked rid w) (Revoking rid w) := by
  have hpass : ∀ k xs, Ends (LoopInv rid w (discoverRelayRefs w rid).keys_to_revoke (k :: xs))
      (runHook rid .revoke_deploy_key DeployKeyRef.target (c.env w).hooks.revoke_deploy_key k)
      (fun _ => LoopInv rid w (discoverRelayRefs w rid).keys_to_revoke xs) (Revoking rid w) :=
    fun k xs => runHook_loop (fun k h => ownKey_mem hk h) hsafe
  refine Ends.imp (Ends.forEach hpass (discoverRelayRefs w rid).keys_to_revoke)
    (fun s hs => ?_) (fun _ s hs => ?_)
  · rw [hs]
    exact loopInv_start hw hrow _
  · refine ⟨hs.revoking.ongoing, fun k hown => hs.revoking.attested k hown ?_⟩
    exact (hs.done k (ownKey_mem hk hown)).resolve_left List.not_mem_nil

/-- A property of the rows, the calls and the pairings. -/
def OfBooks (P : World → Prop) : Prop :=
  ∀ s s' : World, s'.recorded = s.recorded → s'.paired = s.paired → s'.rows = s.rows →
    s'.calls = s.calls → P s → P s'

/-- The file phase changes no rows, calls or pairings. -/
theorem wipeRelationshipFiles_books {P : World → Prop} (hP : OfBooks P) {env : Env}
    {ids : List String} {refs : RelayRefs} : Keeps P (wipeRelationshipFiles env rid ids refs) := by
  have hsame : ∀ s s' : World, s'.recorded = s.recorded → s'.paired = s.paired →
      s'.rows = s.rows → s'.calls = s.calls → P s → P s' := hP
  unfold wipeRelationshipFiles wipeAndPrune
  refine Keeps.bind (Keeps.bind (wipeOwnFiles_keeps ?_ ?_ ?_ ?_ ?_) (fun _ => Keeps.write ?_))
    (fun _ => relayYaml_keeps ?_)
  · exact fun s h _ => hsame s _ rfl rfl rfl rfl h
  · exact fun s h _ => hsame s _ rfl rfl rfl rfl h
  · exact fun s _ f _ _ v hv => hsame v _ rfl rfl rfl rfl hv
  · exact fun s _ j _ _ v hv => hsame v _ rfl rfl rfl rfl hv
  · exact fun s _ t _ _ v hv => hsame v _ rfl rfl rfl rfl hv
  · exact fun s h => hsame s _ rfl rfl rfl rfl h
  · exact fun s _ f _ _ v hv => hsame v _ rfl rfl rfl rfl hv

theorem settled_ofBooks : OfBooks (Settled rid w) := by
  intro s s' hrec hpaired hrows hcalls h
  refine ⟨hrec.trans h.recorded, hpaired.trans h.paired, ?_, ?_, ?_, ?_, ?_, ?_⟩
  · rw [hrows]; exact h.config
  · rw [hrows]; exact h.log
  · rw [hrows]; exact h.rows
  · rw [hrows]; exact h.own
  · rw [hcalls]; exact h.calls
  · rw [hcalls]; exact h.confirmed

theorem logTrue_ofBooks : OfBooks LogTrue := by
  intro s s' hrec hpaired hrows hcalls h
  refine ⟨?_, ?_, by rw [hrows]; exact h.owned, by rw [hrec, hrows]; exact h.rowed⟩
  · intro p hp f hf hdone
    rw [hrec] at hp
    have hlog : rowsOf .teardown_hook_log p.1 s'.rows = rowsOf .teardown_hook_log p.1 s.rows := by
      rw [hrows]
    rw [hrows, hookCompleted_congr hlog] at hdone
    rw [hcalls]
    exact h.attested p hp f hf hdone
  · intro p hp
    rw [hpaired] at hp
    rw [hrec, hcalls]
    exact h.revoked p hp

/-- Everything up to the file phase. -/
theorem teardownState_attested (hw : LogTrue w) (hk : Kept w)
    (hrow : rowsOf .relationships rid w.rows ≠ [])
    (hsafe : KeysSafe w c (pending rid w (discoverRelayRefs w rid).keys_to_revoke)) :
    Ends (fun s => s = w) (teardownState (c.env w) rid) (fun d s => Settled rid w s ∧
      d.refs = discoverRelayRefs w rid ∧ d.invite_ids = relationshipInviteIds rid w.rows)
      LogTrue := by
  have hst : Steady rid (KeysRevoked rid w) := keysRevoked_steady
  have hle : ∀ s, KeysRevoked rid w s → LogTrue s := fun _ h => h.revoking.logTrue hw
  have hkeys : ∀ s, KeysRevoked rid w s → ∀ ref ∈ privateKeyRefs rid s.rows,
      Keeps (KeysRevoked rid w) (deletePrivateKey (c.env w) ref) := by
    intro s _ ref _
    exact deletePrivateKey_keeps (fun _ _ f _ _ v hv =>
      ⟨hv.ongoing.of_rows_eq rfl rfl rfl rfl, hv.confirmed⟩)
  have hcompact : Ends (Settled rid w) (compactDatabase (c.env w)) (fun _ => Settled rid w) LogTrue :=
    Ends.weaken (compactDatabase_keeps (fun s h => settled_ofBooks s _ rfl rfl rfl rfl h))
      (fun _ h => h.logTrue hw)
  refine teardownState_ends hw hle hle
    (Ends.weaken (revokeLoop_confirms hw hk hrow hsafe) (fun _ h => h.logTrue hw)) hst
    ((c.recording w).delete _ hst.called) hkeys ?_ hkeys ?_ hcompact
  · exact fun s h => ⟨h.ongoing.of_rows_eq rfl rfl rfl rfl, h.confirmed⟩
  · exact fun s rows h herase => h.commit herase

theorem teardownFresh_attested (hw : LogTrue w) (hk : Kept w)
    (hrow : rowsOf .relationships rid w.rows ≠ [])
    (hsafe : KeysSafe w c (pending rid w (discoverRelayRefs w rid).keys_to_revoke)) :
    Ends (fun s => s = w) (teardownFresh (c.env w) rid) (fun _ => Settled rid w) LogTrue := by
  have hle : ∀ s, Settled rid w s → LogTrue s := fun s h => h.logTrue hw
  unfold teardownFresh
  refine Ends.bind (teardownState_attested hw hk hrow hsafe) (fun d => ?_)
  refine Ends.bind (Ends.imp (Keeps.ends (wipeRelationshipFiles_books settled_ofBooks) hle)
    (fun s h => h.1) (fun _ _ h => h)) (fun _ => ?_)
  refine Ends.bind (Keeps.ends (postcheck_keeps _) hle) (fun _ => ?_)
  refine Keeps.ends (Keeps.bind (Keeps.write (fun s h => ?_)) (fun _ => Keeps.ret _)) hle
  exact settled_ofBooks s _ rfl rfl rfl rfl h

theorem teardownResumed_attested :
    Keeps (fun s => LogTrue s ∧ s.recorded = w.recorded ∧ s.paired = w.paired ∧ w.calls ⊆ s.calls)
      (teardownResumed (c.env w) rid) := by
  have hbooks : OfBooks (fun s => LogTrue s ∧ s.recorded = w.recorded ∧ s.paired = w.paired ∧
      w.calls ⊆ s.calls) := by
    intro s s' hrec hpaired hrows hcalls h
    exact ⟨logTrue_ofBooks s s' hrec hpaired hrows hcalls h.1, hrec.trans h.2.1,
      hpaired.trans h.2.2.1, by rw [hcalls]; exact h.2.2.2⟩
  unfold teardownResumed
  refine Keeps.bind (Keeps.read _) (fun v => ?_)
  refine Keeps.bind (wipeRelationshipFiles_books hbooks) (fun _ => ?_)
  exact Keeps.bind (postcheck_keeps _) (fun _ => Keeps.ret _)

theorem relationship_isSome {w : World} {rid : RelationshipId} :
    (w.relationship rid).isSome = true ↔ rowsOf .relationships rid w.rows ≠ [] := by
  unfold World.relationship rowsOf
  rw [List.find?_isSome, ne_eq, List.filter_eq_nil_iff]
  push Not
  rfl

/-- The keys that the call has still to revoke. -/
def TeardownCall.pendingKeys (c : TeardownCall) (w : World) : List DeployKeyRef :=
  if (w.relationship c.relationship_id).isSome then
    pending c.relationship_id w (discoverRelayRefs w c.relationship_id).keys_to_revoke
  else []

/-- What a call that returns leaves. -/
structure TornDown (rid : RelationshipId) (w s : World) : Prop where
  log : LogTrue s
  gone : ∀ p ∈ s.recorded, p.1 ≠ rid
  paired : s.paired = w.paired
  confirmed : ∀ k, OwnKey rid w k → Confirmed s.calls k.key_id

theorem Settled.tornDown (h : Settled rid w s) (hw : LogTrue w) : TornDown rid w s where
  log := h.logTrue hw
  gone := by
    intro p hp
    rw [h.recorded, List.mem_filter] at hp
    simpa using hp.2
  paired := h.paired
  confirmed := h.confirmed

/-- One call, wherever it ends. -/
theorem teardownRelationship_attested (hw : LogTrue w) (hk : Kept w)
    (hrec : c.resumes w = true → ∀ p ∈ w.recorded, p.1 ≠ c.relationship_id)
    (hsafe : KeysSafe w c (c.pendingKeys w)) :
    Ends (fun s => s = w) (teardownRelationship (c.env w) c.relationship_id)
      (fun _ => TornDown c.relationship_id w) LogTrue := by
  unfold teardownRelationship
  cases hpath : pathSafe c.relationship_id with
  | false => exact Ends.raise (fun s hs => by rw [hs]; exact hw)
  | true =>
    simp only [Bool.not_true, Bool.false_eq_true, if_false]
    refine Ends.bind_read (fun s hs => ?_)
    subst hs
    show Ends _ (if (s.relationship c.relationship_id).isSome then _ else _) _ _
    cases hrow : (s.relationship c.relationship_id).isSome with
    | true =>
      rw [TeardownCall.pendingKeys, if_pos hrow] at hsafe
      have hfresh := teardownFresh_attested hw hk (relationship_isSome.mp hrow) hsafe
      exact Ends.imp hfresh (fun _ h => h) (fun _ _ h => h.tornDown hw)
    | false =>
      simp only [Bool.false_eq_true, if_false]
      show Ends _ (if (s.tombstones.find c.relationship_id).isNone then _ else _) _ _
      cases htomb : (s.tombstones.find c.relationship_id).isNone with
      | true => exact Ends.raise (fun t ht => by rw [ht]; exact hw)
      | false =>
        have hres : c.resumes s = true := by
          simp only [TeardownCall.resumes, hpath, Bool.true_and, Bool.and_eq_true]
          exact ⟨by simpa using hrow, by simpa [Option.isSome_iff_ne_none] using htomb⟩
        have hnone := hrec hres
        refine Ends.imp (Keeps.ends (teardownResumed_attested (w := s)) (fun _ h => h.1))
          (fun t ht => ?_) (fun _ t ht => ?_)
        · rw [ht]
          exact ⟨hw, rfl, rfl, fun _ hx => hx⟩
        · refine ⟨ht.1, by rw [ht.2.1]; exact hnone, ht.2.2.1, ?_⟩
          rintro k ⟨p, hp, hrid, -⟩
          exact absurd hrid (hnone p hp)

end Call

/-! ## Pairings and the rest of the program -/

section Pairing

variable {w : World} {p : Pairing}

theorem rowsOf_eq_nil {rid : RelationshipId}
    (h : ∀ r ∈ rows, r.table ≠ t) : rowsOf t rid rows = [] := by
  rw [rowsOf, List.filter_eq_nil_iff]
  intro r hr _
  obtain ⟨hmem, htab⟩ := mem_select.mp hr
  exact h r hmem htab

theorem rowsOf_saveRelayConfig (ht : t ≠ .relay_config) (rid : RelationshipId)
    (rows : List Row) : rowsOf t rid (saveRelayConfig p rows) = rowsOf t rid rows := by
  have hnil : rowsOf t rid [relayConfigRow p] = [] := by
    refine rowsOf_eq_nil (fun r hr => ?_)
    rw [List.mem_singleton.mp hr]
    exact fun h => ht h.symm
  unfold saveRelayConfig
  rw [rowsOf_append, hnil, List.append_nil]
  exact rowsOf_filter (fun r htab _ => by simp [htab, ht])

theorem rowsOf_saveRelayConfig_ne {rid : RelationshipId} (hne : rid ≠ p.relationship_id)
    (rows : List Row) :
    rowsOf .relay_config rid (saveRelayConfig p rows) = rowsOf .relay_config rid rows := by
  have hnil : rowsOf .relay_config rid [relayConfigRow p] = [] := by
    rw [rowsOf, List.filter_eq_nil_iff]
    intro r hr hrid
    rw [List.mem_singleton.mp (mem_select.mp hr).1] at hrid
    have hsame : p.relationship_id = rid := by
      simpa [Row.is, Row.isIn, Row.get, relayConfigRow] using hrid
    exact hne hsame.symm
  unfold saveRelayConfig
  rw [rowsOf_append, hnil, List.append_nil]
  exact rowsOf_filter (fun r _ hrid => by simp [is_relationship_ne hrid hne])

theorem LogTrue.insert (h : LogTrue w)
    (hrows : ∀ r ∈ rows, r.table ≠ .teardown_hook_log ∧ r.table ≠ .relay_config) :
    LogTrue { w with rows := w.rows ++ rows } := by
  have hlog : ∀ t, rowsOf .teardown_hook_log t (w.rows ++ rows) = rowsOf .teardown_hook_log t w.rows := by
    intro t
    rw [rowsOf_append, rowsOf_eq_nil (fun r hr => (hrows r hr).1), List.append_nil]
  have hconfig : ∀ t, rowsOf .relay_config t (w.rows ++ rows) = rowsOf .relay_config t w.rows := by
    intro t
    rw [rowsOf_append, rowsOf_eq_nil (fun r hr => (hrows r hr).2), List.append_nil]
  refine ⟨fun q hq f hf hdone => ?_, h.revoked, fun t ht => ?_, fun q hq => ?_⟩
  · rw [keyRef_congr (hconfig q.1), hookCompleted_congr (hlog q.1)] at hdone
    exact h.attested q hq f hf hdone
  · rw [hlog t] at ht
    rw [rowsOf_append]
    exact List.append_ne_nil_of_left_ne_nil (h.owned t ht) _
  · show rowsOf .relationships q.1 (w.rows ++ rows) ≠ []
    rw [rowsOf_append]
    exact List.append_ne_nil_of_left_ne_nil (h.rowed q hq) _

theorem LogTrue.writeRelay (h : LogTrue w) (hrow : rowsOf .relationships p.relationship_id w.rows ≠ [])
    (hlog : rowsOf .teardown_hook_log p.relationship_id w.rows = []) (doc : RelayDoc) :
    LogTrue (writeRelay p doc w) := by
  have hsame : ∀ t, rowsOf .teardown_hook_log t (Teardown.writeRelay p doc w).rows =
      rowsOf .teardown_hook_log t w.rows := fun t => rowsOf_saveRelayConfig (by decide) t w.rows
  have hrel : ∀ t, rowsOf .relationships t (Teardown.writeRelay p doc w).rows =
      rowsOf .relationships t w.rows := fun t => rowsOf_saveRelayConfig (by decide) t w.rows
  refine ⟨fun q hq f hf hdone => ?_, fun q hq => ?_, fun t ht => ?_, fun q hq => ?_⟩
  · by_cases hne : q.1 = p.relationship_id
    · -- Nothing is logged for the new relationship.
      rw [hookCompleted_eq] at hdone
      have hnil : rowsOf .teardown_hook_log q.1 (Teardown.writeRelay p doc w).rows = [] := by
        rw [hne]
        exact (hsame p.relationship_id).trans hlog
      rw [hnil] at hdone
      cases hdone
    · have hold : q ∈ w.recorded := by
        rcases List.mem_append.mp hq with hq | hq
        · exact hq
        · rw [List.mem_singleton.mp hq] at hne
          exact absurd rfl hne
      have hconfig : rowsOf .relay_config q.1 (Teardown.writeRelay p doc w).rows =
          rowsOf .relay_config q.1 w.rows := rowsOf_saveRelayConfig_ne hne w.rows
      rw [keyRef_congr hconfig, hookCompleted_congr (hsame q.1)] at hdone
      exact h.attested q hold f hf hdone
  · rcases List.mem_append.mp hq with hq | hq
    · exact (h.revoked q hq).imp_left (fun hmem => List.mem_append_left _ hmem)
    · exact Or.inl (List.mem_append_right _ hq)
  · rw [hsame t] at ht
    rw [hrel t]
    exact h.owned t ht
  · rw [hrel q.1]
    rcases List.mem_append.mp hq with hq | hq
    · exact h.rowed q hq
    · rw [List.mem_singleton.mp hq]
      exact hrow

theorem LogTrue.paired (h : LogTrue w) (hnew : (w.relationship p.relationship_id).isSome = false)
    (hrows : ∀ r ∈ rows, r.table ≠ .teardown_hook_log ∧ r.table ≠ .relay_config)
    (hin : rowsOf .relationships p.relationship_id rows ≠ []) (doc : RelayDoc) :
    LogTrue (Teardown.writeRelay p doc { w with rows := w.rows ++ rows }) := by
  refine (h.insert hrows).writeRelay ?_ ?_ doc
  · show rowsOf .relationships p.relationship_id (w.rows ++ rows) ≠ []
    rw [rowsOf_append]
    exact List.append_ne_nil_of_right_ne_nil _ hin
  · show rowsOf .teardown_hook_log p.relationship_id (w.rows ++ rows) = []
    rw [rowsOf_append, rowsOf_eq_nil (fun r hr => (hrows r hr).1), List.append_nil]
    by_contra hlog
    have hrow := relationship_isSome.mpr (h.owned _ hlog)
    rw [hnew] at hrow
    cases hrow

theorem relationshipRows_rowed (p : Pairing) (rows : List Row) :
    rowsOf .relationships p.relationship_id (relationshipRows p ++ rows) ≠ [] := by
  rw [rowsOf_append]
  refine List.append_ne_nil_of_left_ne_nil ?_ _
  simp [rowsOf, select, relationshipRows, Row.is, Row.isIn, Row.get]

theorem LogTrue.other (h : LogTrue w) (rows stale : List Row) (files : Table File.path) :
    LogTrue { w with
      rows := w.rows.filter (fun r => decide (r.table ∈ relayTables)) ++
        rows.filter (fun r => !decide (r.table ∈ relayTables)),
      stale := stale, files := files } := by
  have hsame : ∀ t ∈ relayTables, ∀ rid,
      rowsOf t rid (w.rows.filter (fun r => decide (r.table ∈ relayTables)) ++
        rows.filter (fun r => !decide (r.table ∈ relayTables))) = rowsOf t rid w.rows := by
    intro t ht rid
    have hnil : rowsOf t rid (rows.filter (fun r => !decide (r.table ∈ relayTables))) = [] := by
      refine rowsOf_eq_nil (fun r hr htab => ?_)
      rw [List.mem_filter, htab] at hr
      simp [ht] at hr
    rw [rowsOf_append, hnil, List.append_nil]
    exact rowsOf_filter (fun r htab _ => by rw [htab]; exact decide_eq_true ht)
  refine ⟨fun q hq f hf hdone => ?_, h.revoked, fun t ht => ?_, fun q hq => ?_⟩
  · rw [keyRef_congr (hsame .relay_config (by decide) q.1),
      hookCompleted_congr (hsame .teardown_hook_log (by decide) q.1)] at hdone
    exact h.attested q hq f hf hdone
  · rw [hsame .teardown_hook_log (by decide) t] at ht
    rw [hsame .relationships (by decide) t]
    exact h.owned t ht
  · show rowsOf .relationships q.1 _ ≠ []
    rw [hsame .relationships (by decide) q.1]
    exact h.rowed q hq

/-- A call starts with the recorded entries as they are. -/
theorem LogTrue.begun_eq (h : LogTrue w) (c : TeardownCall) : c.begun w = w := by
  unfold TeardownCall.begun
  split
  · rename_i hres
    have hall : w.recorded.filter (·.1 ≠ c.relationship_id) = w.recorded := by
      rw [List.filter_eq_self]
      intro q hq
      rw [decide_eq_true_iff]
      intro hrid
      have hrow := relationship_isSome.mpr (h.rowed q hq)
      rw [hrid] at hrow
      simp only [TeardownCall.resumes, Bool.and_eq_true] at hres
      simp [Option.isNone_iff_eq_none.mp hres.1.2] at hrow
    rw [hall]
  · rfl

end Pairing

/-! ## Runs -/

/-- The action loses no entry of `relay.json`, and a teardown can have every key
that is still pending revoked. -/
def AttestSafe (w : World) (a : Act) : Prop :=
  RelaySafe w a ∧ match a with
    | .teardown c => KeysSafe (c.begun w) c (c.pendingKeys (c.begun w))
    | _ => True

theorem step_logTrue {w w' : World} {a : Act} (h : LogTrue w) (hk : Kept w)
    (hsafe : AttestSafe w a) (hstep : step w a = some w') : LogTrue w' := by
  have hopen : w.opened = w := World.opened_of_database hk.sound.database
  cases a with
  | pairCommit p =>
    simp only [step, pairCommit, hopen] at hstep
    split at hstep
    · cases hstep
    · rename_i hcond
      cases hstep
      have hnew : (w.relationship p.relationship_id).isSome = false := by
        cases hrow : (w.relationship p.relationship_id).isSome with
        | false => rfl
        | true => simp [hrow] at hcond
      rw [List.append_assoc]
      refine h.paired hnew (fun r hr => ?_) (relationshipRows_rowed p _) _
      simp only [relationshipRows, registryRow, List.cons_append, List.nil_append, List.mem_cons,
        List.not_mem_nil, or_false] at hr
      rcases hr with rfl | rfl | rfl <;> simp
  | pairIngest p registered =>
    simp only [step, pairIngest, hopen] at hstep
    have hrows : ∀ r ∈ relationshipRows p, r.table ≠ .teardown_hook_log ∧ r.table ≠ .relay_config := by
      intro r hr
      simp only [relationshipRows, List.mem_cons, List.not_mem_nil, or_false] at hr
      rcases hr with rfl | rfl <;> simp
    split at hstep
    · cases hstep
    · rename_i hnew
      split at hstep
      · cases hstep
        exact h.insert hrows
      · cases hstep
        refine h.paired (by simpa using hnew) hrows ?_ _
        have hrowed := relationshipRows_rowed p []
        rw [List.append_nil] at hrowed
        exact hrowed
  | teardown c =>
    simp only [step, hopen, Option.some.injEq] at hstep
    subst hstep
    have hkeys : KeysSafe (c.begun w) c (c.pendingKeys (c.begun w)) := hsafe.2
    rw [h.begun_eq c] at hkeys ⊢
    have hrec : c.resumes w = true → ∀ p ∈ w.recorded, p.1 ≠ c.relationship_id := by
      intro hres p hp
      refine begun_recorded c w hres p ?_
      rw [h.begun_eq c]
      exact hp
    exact (teardownRelationship_attested h hk hrec hkeys).state (fun _ _ ht => ht.log) rfl
  | other rows stale files =>
    simp only [step, hopen, Option.some.injEq] at hstep
    subst hstep
    exact h.other rows stale files

theorem start_logTrue : LogTrue start where
  attested := fun _ hp => absurd hp List.not_mem_nil
  revoked := fun _ hp => absurd hp List.not_mem_nil
  owned := fun _ ht => absurd rfl ht
  rowed := fun _ hp => absurd hp List.not_mem_nil

theorem reach_logTrue {w : World} (h : machine.Reach AttestSafe w) : Kept w ∧ LogTrue w := by
  refine Machine.Reach.invariant (P := fun s => Kept s ∧ LogTrue s) ?_ ?_ h
  · intro s hs
    rw [show s = start from hs]
    exact ⟨start_kept, start_logTrue⟩
  · intro s a t hs hsafe hstep
    exact ⟨step_kept hs.1 hsafe.1 hstep, step_logTrue hs.2 hs.1 hsafe hstep⟩

/-- What a call that returned says of the keys of the relationship: the hook was
called for each one, and each one in the report is confirmed. -/
def ReportTrue (w : World) (c : TeardownCall) (report : Report) (calls : List Call) : Prop :=
  ∀ p ∈ w.paired, p.1 = c.relationship_id → ∀ f ∈ docKeys p.2, CalledFor calls (keyId f) ∧
    ((keyRef w.rows p.1 f).target ∈ report.deploy_keys_revoked → Confirmed calls (keyId f))

/-- **Deploy-key revocation is attested truthfully**, in every run in which
each teardown can request the keys that are pending, no two of them share a
repository and a label, and the provider confirms each request that it answers;
and in which no entry of `relay.json` is lost. -/
theorem revocation_attested {w : World} (h : machine.Reach AttestSafe w) :
    Attested w ∧ ∀ c, AttestSafe w (.teardown c) → ∀ report,
      (c.run (c.begun w)).1 = .returned report →
        ReportTrue w c report (c.run (c.begun w)).2.2.calls := by
  obtain ⟨hk, hw⟩ := reach_logTrue h
  refine ⟨hw.attested, fun c hsafe report hret p hp hrid f hf => ?_⟩
  have hkeys : KeysSafe (c.begun w) c (c.pendingKeys (c.begun w)) := hsafe.2
  have hrec : c.resumes w = true → ∀ p ∈ (c.begun w).recorded, p.1 ≠ c.relationship_id :=
    begun_recorded c w
  rw [hw.begun_eq c] at hkeys hret hrec ⊢
  rcases hrun : c.run w with ⟨r, n, s⟩
  rw [hrun] at hret
  have hr : r = .returned report := hret
  rw [hr] at hrun
  have hdown : TornDown c.relationship_id w s :=
    (teardownRelationship_attested hw hk hrec hkeys).returned rfl hrun
  have hpaired : p ∈ s.paired := by
    rw [hdown.paired]
    exact hp
  have hconf : Confirmed s.calls (keyId f) := by
    rcases hdown.log.revoked p hpaired with hmem | hall
    · exact absurd hrid (hdown.gone p hmem)
    · exact hall f hf
  exact ⟨hconf.calledFor, fun _ => hconf⟩

/-! ## A run -/

instance (w : World) (c : TeardownCall) (ks : List DeployKeyRef) : Decidable (KeysSafe w c ks) :=
  decidable_of_iff
    ((∀ k ∈ ks, firstText [c.token] ≠ "" ∧ k.key_id ≠ "" ∧
        (k.repo ≠ "" ∨ (c.revokeHooks w).firstRepo ≠ "")) ∧
      (ks.map DeployKeyRef.target).Nodup ∧
      ∀ i < ks.length, (c.provider (w.calls.length + i)).confirms = true ∨
        c.provider (w.calls.length + i) = .unreachable)
    ⟨fun h => ⟨h.1, h.2.1, h.2.2⟩, fun h => ⟨h.usable, h.distinct, h.answers⟩⟩

instance (w : World) : ∀ a, Decidable (AttestSafe w a)
  | .teardown _ => inferInstanceAs (Decidable (_ ∧ KeysSafe _ _ _))
  | .pairCommit _ | .pairIngest _ _ | .other _ _ _ => inferInstanceAs (Decidable (_ ∧ True))

/-- A relationship that this installation accepts over GitHub, with one key. -/
def carol : Pairing where
  relationship_id := "33333333-3333-4333-8333-333333333333"
  transport := .github
  relay_url := "https://github.com/org/c.git"
  private_key_ref := "/s/keys/33333333-3333-4333-8333-333333333333/epoch1.key"
  deploy_public_key := "ssh-ed25519 CCCC1"
  key_id := some "301"

/-- Its teardown; the provider does not know the key any more. -/
def revokeCarol : TeardownCall where
  relationship_id := carol.relationship_id
  token := some "token"
  provider := fun _ => .httpError 404
  state_dir := "/s"
  revoked_at := "2026-01-01T00:00:00Z"
  digest := fun _ => "d3"
  image := fun _ _ => ⟨"SQLite format 3", 4096⟩

/-- The one key of the relationship is in the report, and confirmed. -/
theorem revocation_attested_acceptor :
    ∃ w report, machine.run start [.pairIngest carol true] = some w ∧
      (revokeCarol.run (revokeCarol.begun w)).1 = .returned report ∧
      report.deploy_keys_revoked = ["org/c:" ++ deployKeyTitle carol.relationship_id] ∧
      ReportTrue w revokeCarol report (revokeCarol.run (revokeCarol.begun w)).2.2.calls := by
  have hout : (machine.run start [.pairIngest carol true]).map
      (fun w => ((revokeCarol.run (revokeCarol.begun w)).1, decide (AttestSafe w (.teardown revokeCarol)))) =
      some (.returned {
        deploy_keys_revoked := ["org/c:" ++ deployKeyTitle carol.relationship_id],
        relay_repos_deleted := ["org/c"],
        keys_destroyed := [carol.private_key_ref] }, true) := by
    decide +kernel
  have hok : machine.okRun AttestSafe start [.pairIngest carol true] := by decide +kernel
  obtain ⟨w, hw, hval⟩ := Option.map_eq_some_iff.mp hout
  rw [Prod.mk.injEq] at hval
  refine ⟨w, _, hw, hval.1, rfl, ?_⟩
  exact (revocation_attested (Machine.Reach.run (.start rfl) hok hw)).2 revokeCarol
    (of_decide_eq_true hval.2) _ hval.1

/-- Some request names the key. -/
def requested (key_id : String) (calls : List Call) : Bool :=
  calls.any (fun c => match c with
    | .revokeDeployKey ref _ => ref.key_id = key_id
    | .deleteRelayRepo _ _ => false)

theorem CalledFor.requested (h : CalledFor calls id) : requested id calls = true := by
  obtain ⟨ref, answer, hmem, hid⟩ := h
  exact List.any_eq_true.mpr ⟨_, hmem, by simpa using hid⟩

/-- The key that an inviter registers for itself. -/
def aliceOwnKey : KeyFields where
  id := alice.inviter_key_id
  title := some (deployKeyTitle alice.relationship_id)
  key := some alice.inviter_public_key
  role := some "self"

/-- Both keys of an inviter have one label.  The teardown returns and reports
both, and the hook is never called for the second. -/
theorem second_key_reported :
    ∃ w report, machine.Reachable w ∧
      (revokeAlice.run (revokeAlice.begun w)).1 = .returned report ∧
      (alice.relationship_id, commitDoc alice) ∈ w.paired ∧ aliceOwnKey ∈ docKeys (commitDoc alice) ∧
      (keyRef w.rows alice.relationship_id aliceOwnKey).target ∈ report.deploy_keys_revoked ∧
      ¬CalledFor (revokeAlice.run (revokeAlice.begun w)).2.2.calls (keyId aliceOwnKey) ∧
      ¬ReportTrue w revokeAlice report (revokeAlice.run (revokeAlice.begun w)).2.2.calls := by
  have hout : (machine.run start [.pairCommit alice]).map
      (fun w => ((revokeAlice.run (revokeAlice.begun w)).1,
        decide ((alice.relationship_id, commitDoc alice) ∈ w.paired),
        (keyRef w.rows alice.relationship_id aliceOwnKey).target,
        requested "102" (revokeAlice.run (revokeAlice.begun w)).2.2.calls)) =
      some (.returned {
        deploy_keys_revoked := ["org/a:" ++ deployKeyTitle alice.relationship_id,
          "org/a:" ++ deployKeyTitle alice.relationship_id],
        relay_repos_deleted := ["org/a"],
        keys_destroyed := [alice.private_key_ref] }, true,
        "org/a:" ++ deployKeyTitle alice.relationship_id, false) := by
    decide +kernel
  obtain ⟨w, hw, hval⟩ := Option.map_eq_some_iff.mp hout
  simp only [Prod.mk.injEq] at hval
  obtain ⟨hret, hpaired, htarget, hnot⟩ := hval
  have hmem : aliceOwnKey ∈ docKeys (commitDoc alice) := by decide +kernel
  have hcalled : ¬CalledFor (revokeAlice.run (revokeAlice.begun w)).2.2.calls (keyId aliceOwnKey) := by
    intro hcalled
    have hreq := hcalled.requested
    rw [show keyId aliceOwnKey = "102" by decide +kernel, hnot] at hreq
    cases hreq
  refine ⟨w, _, Machine.reachable_of_run rfl hw, hret, of_decide_eq_true hpaired, hmem, ?_,
    hcalled, fun htrue => ?_⟩
  · rw [htarget]
    exact List.mem_cons_self
  · exact hcalled (htrue _ (of_decide_eq_true hpaired) rfl _ hmem).1

end MuseAgentSocial.Teardown
