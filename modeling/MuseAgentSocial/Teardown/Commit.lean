import MuseAgentSocial.Teardown.Phases

/-!
# What the transaction of a teardown finds

However often a teardown is interrupted before its transaction, the rows that
the transaction finds are the same: those of the first state with the
relationship marked as revoked and every hook logged, in the order of
`relay.json`.  `rowsAtCommit` are these rows, and `staleAtCommit` the deleted
rows whose bytes the database file holds between the `COMMIT` and `VACUUM`.

`Logged` says how far the log has come.  Each pass over the hooks keeps it, and
the calls before the transaction keep `Unfinished`.
-/

namespace MuseAgentSocial.Teardown

open Relational Durable Durable.Program

/-- An entry of the completion log. -/
abbrev HookEntry := HookName × String

/-- The entry of a revoked key. -/
def DeployKeyRef.entry (k : DeployKeyRef) : HookEntry := (.revoke_deploy_key, k.target)

/-- The entry of a deleted repository. -/
def RelayRef.entry (r : RelayRef) : HookEntry := (.delete_relay_repo, r.repo)

/-- The entries that a teardown logs, in order. -/
def hookEntries (refs : RelayRefs) : List HookEntry :=
  refs.keys_to_revoke.map DeployKeyRef.entry ++ refs.repos_to_delete.map RelayRef.entry

/-- A row of the log. -/
def logRow (rid : RelationshipId) (hook : HookName) (target : String) : Row :=
  ⟨.teardown_hook_log, [(.relationship_id, .text rid), (.hook, .text hook.text),
    (.target, .text target)]⟩

/-- The entry is in the log. -/
def isLogged (rid : RelationshipId) (rows : List Row) (e : HookEntry) : Bool :=
  (select .teardown_hook_log rows).any (fun r => r.is .relationship_id (.text rid) &&
    r.is .hook (.text e.1.text) && r.is .target (.text e.2))

/-- The rows with the entry logged. -/
def logEntry (rid : RelationshipId) (rows : List Row) (e : HookEntry) : List Row :=
  if isLogged rid rows e then rows else rows ++ [logRow rid e.1 e.2]

/-- The rows with the relationship marked as revoked and some entries logged. -/
def loggedRows (rid : RelationshipId) (rows : List Row) (es : List HookEntry) : List Row :=
  es.foldl (logEntry rid) (rows.map (revokedRow rid))

/-- The rows that the transaction finds. -/
def rowsAtCommit (w : World) (rid : RelationshipId) : List Row :=
  loggedRows rid w.rows (hookEntries (discoverRelayRefs w rid))

/-- The deleted rows whose bytes the database file holds after the `COMMIT`. -/
def staleAtCommit (w : World) (rid : RelationshipId) : List Row :=
  (World.committed { w with rows := rowsAtCommit w rid } rid (survivors rid w.rows)).stale

/-! ## The log -/

section Log

variable {rid : RelationshipId} {rows : List Row} {e : HookEntry} {es : List HookEntry}

theorem hookCompleted_isLogged (rid : RelationshipId) (hook : HookName) (target : String) (w : World) :
    hookCompleted rid hook target w = isLogged rid w.rows (hook, target) := rfl

theorem rows_recordHookCompleted (rid : RelationshipId) (hook : HookName) (target : String)
    (w : World) :
    (recordHookCompleted rid hook target w).rows = logEntry rid w.rows (hook, target) := by
  unfold recordHookCompleted logEntry
  rw [hookCompleted_isLogged]
  split <;> rfl

theorem isLogged_logEntry (rid : RelationshipId) (rows : List Row) (e : HookEntry) :
    isLogged rid (logEntry rid rows e) e = true := by
  unfold logEntry
  split
  · assumption
  · have hnew : logRow rid e.1 e.2 ∈ select .teardown_hook_log (rows ++ [logRow rid e.1 e.2]) :=
      mem_select.mpr ⟨List.mem_append_right _ (List.mem_singleton.mpr rfl), rfl⟩
    refine List.any_eq_true.mpr ⟨_, hnew, ?_⟩
    have hrid : (logRow rid e.1 e.2).is .relationship_id (.text rid) = true := Row.is_iff.mpr rfl
    have hhook : (logRow rid e.1 e.2).is .hook (.text e.1.text) = true := Row.is_iff.mpr rfl
    have htarget : (logRow rid e.1 e.2).is .target (.text e.2) = true := Row.is_iff.mpr rfl
    rw [hrid, hhook, htarget]
    rfl

theorem isLogged_mono (e' : HookEntry) (h : isLogged rid rows e = true) :
    isLogged rid (logEntry rid rows e') e = true := by
  unfold logEntry
  split
  · exact h
  · simp only [isLogged, select, List.filter_append, List.any_append, Bool.or_eq_true] at h ⊢
    exact Or.inl h

theorem isLogged_foldl (h : isLogged rid rows e = true) (es : List HookEntry) :
    isLogged rid (es.foldl (logEntry rid) rows) e = true := by
  induction es generalizing rows with
  | nil => exact h
  | cons e' es ih => exact ih (isLogged_mono e' h)

/-- An entry that was logged is in the log. -/
theorem isLogged_loggedRows (h : e ∈ es) : isLogged rid (loggedRows rid rows es) e = true := by
  unfold loggedRows
  generalize rows.map (revokedRow rid) = base
  induction es generalizing base with
  | nil => cases h
  | cons e' es ih =>
    rcases List.mem_cons.mp h with rfl | hin
    · exact isLogged_foldl (isLogged_logEntry rid base e) es
    · exact ih hin (logEntry rid base e')

theorem loggedRows_concat (rid : RelationshipId) (rows : List Row) (es : List HookEntry) (e : HookEntry) :
    loggedRows rid rows (es ++ [e]) = logEntry rid (loggedRows rid rows es) e := by
  simp [loggedRows]

/-- Logging changes no other table. -/
theorem select_logEntry {t : TableName} (ht : t ≠ .teardown_hook_log) (rows : List Row)
    (e : HookEntry) : select t (logEntry rid rows e) = select t rows := by
  unfold logEntry
  split
  · rfl
  · simp [select, logRow, Ne.symm ht]

theorem select_foldl_logEntry {t : TableName} (ht : t ≠ .teardown_hook_log) (rows : List Row)
    (es : List HookEntry) : select t (es.foldl (logEntry rid) rows) = select t rows := by
  induction es generalizing rows with
  | nil => rfl
  | cons e es ih => rw [List.foldl_cons, ih, select_logEntry ht]

theorem setCell_setCell (c : Column) (v : Value) (r : Row) :
    setCell c v (setCell c v r) = setCell c v r := by
  simp [setCell]

theorem revokedRow_revokedRow (rid : RelationshipId) (r : Row) :
    revokedRow rid (revokedRow rid r) = revokedRow rid r := by
  by_cases hrev : r.table = .relationships ∧ r.is .relationship_id (.text rid)
  · have hstill : (revokedRow rid r).table = .relationships ∧
        (revokedRow rid r).is .relationship_id (.text rid) := by
      rw [revokedRow_table, revokedRow_is rid (by decide)]
      exact hrev
    rw [revokedRow, if_pos hstill, revokedRow, if_pos hrev, setCell_setCell]
  · have hsame : revokedRow rid r = r := if_neg hrev
    rw [hsame, hsame]

theorem logEntry_revoked (rows : List Row) (e : HookEntry) :
    (logEntry rid rows e).map (revokedRow rid) = logEntry rid (rows.map (revokedRow rid)) e := by
  have hlog : isLogged rid (rows.map (revokedRow rid)) e = isLogged rid rows e := by
    unfold isLogged
    rw [select_markRevoked (by decide)]
  unfold logEntry
  rw [hlog]
  split
  · rfl
  · have hnew : revokedRow rid (logRow rid e.1 e.2) = logRow rid e.1 e.2 := if_neg (by simp [logRow])
    rw [List.map_append, List.map_singleton, hnew]

/-- Marking the relationship once more changes nothing. -/
theorem loggedRows_revoked (rows : List Row) (es : List HookEntry) :
    (loggedRows rid rows es).map (revokedRow rid) = loggedRows rid rows es := by
  unfold loggedRows
  have hfold : ∀ base : List Row, (es.foldl (logEntry rid) base).map (revokedRow rid) =
      es.foldl (logEntry rid) (base.map (revokedRow rid)) := by
    induction es with
    | nil => exact fun _ => rfl
    | cons e es ih =>
      intro base
      rw [List.foldl_cons, ih, logEntry_revoked, List.foldl_cons]
  rw [hfold, List.map_map]
  congr 2
  funext r
  exact revokedRow_revokedRow rid r

/-- The tables that `_discover_relay_refs` reads are as before. -/
theorem select_loggedRows {t : TableName} (hlog : t ≠ .teardown_hook_log) (hrel : t ≠ .relationships)
    (rows : List Row) (es : List HookEntry) :
    select t (loggedRows rid rows es) = select t rows := by
  rw [loggedRows, select_foldl_logEntry hlog, select_markRevoked hrel]

theorem length_relationships_loggedRows (rows : List Row) (es : List HookEntry) :
    (select .relationships (loggedRows rid rows es)).length = (select .relationships rows).length := by
  rw [loggedRows, select_foldl_logEntry (by decide)]
  simp only [select, List.filter_map, List.length_map]
  congr 2
  funext r
  simp [revokedRow_table]

end Log

theorem discoverRelayRefs_congr {s w : World} {rid : RelationshipId} (hrelay : s.relay = w.relay)
    (hkeys : select .deploy_key_registry s.rows = select .deploy_key_registry w.rows)
    (hconfig : select .relay_config s.rows = select .relay_config w.rows)
    (hcount : (select .relationships s.rows).length = (select .relationships w.rows).length) :
    discoverRelayRefs s rid = discoverRelayRefs w rid := by
  have hsingle : singleRelationship s.rows = singleRelationship w.rows := by
    unfold singleRelationship
    rw [hcount]
  have hkey : keyToRevoke s.rows rid = keyToRevoke w.rows rid := by
    funext e
    cases e <;> simp only [keyToRevoke, keyClaims, keyRef, ownRepo, hkeys, hconfig, hsingle]
  have hrepo : repoToDelete s.rows rid = repoToDelete w.rows rid := by
    have hclaim : repoClaimants s.rows = repoClaimants w.rows := by
      funext repo
      rw [repoClaimants, repoClaimants, hconfig]
    funext e
    unfold repoToDelete
    rw [hclaim, hsingle]
  unfold discoverRelayRefs
  rw [hrelay, hkey, hrepo]

/-- The hooks change nothing but the history of calls. -/
structure Env.Recording (env : Env) : Prop where
  revoke : ∀ P : World → Prop, (∀ s k, P s → P (s.called k)) →
    ∀ f ∈ env.hooks.revoke_deploy_key, ∀ ref, Keeps P (f ref)
  delete : ∀ P : World → Prop, (∀ s k, P s → P (s.called k)) →
    ∀ f ∈ env.hooks.delete_relay_repo, ∀ ref, Keeps P (f ref)

theorem TeardownCall.recording (c : TeardownCall) (w : World) : (c.env w).Recording where
  revoke := by
    rintro P hcall f ⟨⟩ ref
    exact RevokeHooks.revokeDeployKey_keeps hcall ref
  delete := by
    rintro P hcall f ⟨⟩ ref
    exact RevokeHooks.deleteRelayRepo_keeps hcall ref

/-! ## How far the log has come -/

/-- The relationship is marked as revoked, and the entries `pre`, if no more, are
logged. -/
structure Logged (rid : RelationshipId) (w : World) (pre : List HookEntry) (s : World) : Prop where
  rows : ∃ es, pre <+: es ∧ es <+: hookEntries (discoverRelayRefs w rid) ∧
    s.rows = loggedRows rid w.rows es
  relay : s.relay = w.relay
  stale : s.stale = w.stale

/-- The calls before the transaction have come no further than the log. -/
def Unfinished (rid : RelationshipId) (w s : World) : Prop :=
  s.rows = w.rows ∧ s.relay = w.relay ∧ s.stale = w.stale ∨ Logged rid w [] s

section Progress

variable {rid : RelationshipId} {w s t : World} {pre : List HookEntry}

theorem Logged.of_eq (h : Logged rid w pre s) (hrows : t.rows = s.rows) (hrelay : t.relay = s.relay)
    (hstale : t.stale = s.stale) : Logged rid w pre t :=
  ⟨by rw [hrows]; exact h.rows, hrelay.trans h.relay, hstale.trans h.stale⟩

theorem Logged.unfinished (h : Logged rid w pre s) : Unfinished rid w s := by
  obtain ⟨es, -, hes, hrows⟩ := h.rows
  exact Or.inr ⟨⟨es, List.nil_prefix, hes, hrows⟩, h.relay, h.stale⟩

theorem Unfinished.refl (rid : RelationshipId) (w : World) : Unfinished rid w w :=
  Or.inl ⟨rfl, rfl, rfl⟩

/-- The first write of a call. -/
theorem Unfinished.revoked (h : Unfinished rid w s) : Logged rid w [] (markRevoked rid s) := by
  rcases h with ⟨hrows, hrelay, hstale⟩ | h
  · refine ⟨⟨[], List.nil_prefix, List.nil_prefix, ?_⟩, hrelay, hstale⟩
    rw [markRevoked_rows, hrows]
    rfl
  · obtain ⟨es, -, hes, hrows⟩ := h.rows
    refine ⟨⟨es, List.nil_prefix, hes, ?_⟩, h.relay, h.stale⟩
    rw [markRevoked_rows, hrows, loggedRows_revoked]

/-- A call that is taken up again goes by the same refs. -/
theorem Unfinished.refs (h : Unfinished rid w s) : discoverRelayRefs s rid = discoverRelayRefs w rid := by
  rcases h with ⟨hrows, hrelay, -⟩ | h
  · exact discoverRelayRefs_congr hrelay (by rw [hrows]) (by rw [hrows]) (by rw [hrows])
  · obtain ⟨es, -, -, hrows⟩ := h.rows
    refine discoverRelayRefs_congr h.relay ?_ ?_ ?_
    · rw [hrows, select_loggedRows (by decide) (by decide)]
    · rw [hrows, select_loggedRows (by decide) (by decide)]
    · rw [hrows, length_relationships_loggedRows]

theorem prefix_next {α : Type} {pre es all : List α} {e : α} (hpre : pre <+: es) (hes : es <+: all)
    (hnext : pre ++ [e] <+: all) : es = pre ∨ pre ++ [e] <+: es := by
  rcases Nat.lt_or_ge pre.length es.length with hlt | hge
  · exact Or.inr (List.prefix_of_prefix_length_le hnext hes
      (by rw [List.length_append]; exact hlt))
  · exact Or.inl (hpre.eq_of_length_le hge).symm

/-- The next entry is logged. -/
theorem Logged.record (h : Logged rid w pre s) {hook : HookName} {target : String}
    (hnext : pre ++ [(hook, target)] <+: hookEntries (discoverRelayRefs w rid)) :
    Logged rid w (pre ++ [(hook, target)]) (recordHookCompleted rid hook target s) := by
  obtain ⟨es, hpre, hes, hrows⟩ := h.rows
  have hsame : ∀ v : World, (recordHookCompleted rid hook target v).relay = v.relay ∧
      (recordHookCompleted rid hook target v).stale = v.stale := by
    intro v
    unfold recordHookCompleted
    split <;> exact ⟨rfl, rfl⟩
  refine ⟨?_, (hsame s).1.trans h.relay, (hsame s).2.trans h.stale⟩
  rw [rows_recordHookCompleted, hrows]
  rcases prefix_next hpre hes hnext with rfl | hin
  · exact ⟨_, List.prefix_refl _, hnext, (loggedRows_concat rid w.rows _ _).symm⟩
  · refine ⟨es, hin, hes, ?_⟩
    have hlogged : isLogged rid (loggedRows rid w.rows es) (hook, target) = true :=
      isLogged_loggedRows (hin.subset (by simp))
    rw [logEntry, if_pos hlogged]

/-- One pass over a hook. -/
theorem runHook_logged {ι : Type} {hook : HookName} {target : ι → String}
    {call : Option (ι → Program World Failure String)}
    (hcall : ∀ f ∈ call, ∀ ref, Keeps (Logged rid w pre) (f ref)) {ref : ι}
    (hnext : pre ++ [(hook, target ref)] <+: hookEntries (discoverRelayRefs w rid)) :
    Ends (Logged rid w pre) (runHook rid hook target call ref)
      (fun _ => Logged rid w (pre ++ [(hook, target ref)])) (Unfinished rid w) := by
  unfold runHook
  refine Ends.bind_read (fun s hs => Ends.ite (fun hdone => ?_) (fun _ => ?_))
  · refine Ends.ret (fun t ht => ?_)
    have hrecord := hs.record hnext
    rw [recordHookCompleted, if_pos hdone] at hrecord
    rw [ht]
    exact hrecord
  · cases call with
    | none => exact Ends.raise (fun t ht => by rw [ht]; exact hs.unfinished)
    | some f =>
      refine Ends.bind (Ends.imp (Keeps.ends (hcall f rfl ref) (fun _ h => h.unfinished))
        (fun t ht => by rw [ht]; exact hs) (fun _ _ h => h)) (fun _ => ?_)
      exact Ends.write (fun _ h => h.unfinished) (fun _ h => h.record hnext)

theorem hookLoop_logged {ι : Type} {hook : HookName} {target : ι → String}
    {call : Option (ι → Program World Failure String)}
    (hcall : ∀ f ∈ call, ∀ ref pre, Keeps (Logged rid w pre) (f ref)) (refs : List ι)
    (hnext : pre ++ refs.map (fun ref => (hook, target ref)) <+: hookEntries (discoverRelayRefs w rid)) :
    Ends (Logged rid w pre) (forEach refs (runHook rid hook target call))
      (fun _ => Logged rid w (pre ++ refs.map (fun ref => (hook, target ref)))) (Unfinished rid w) := by
  induction refs generalizing pre with
  | nil =>
    rw [List.map_nil, List.append_nil]
    exact Ends.ret (fun _ h => h)
  | cons ref refs ih =>
    rw [List.map_cons, List.append_cons] at hnext ⊢
    refine Ends.bind (runHook_logged (fun f hf ref => hcall f hf ref pre) ?_) (fun _ => ih hnext)
    exact (List.prefix_append _ _).trans hnext

/-- The log does not look at calls, files, journals or tombstones. -/
theorem Logged.called (s : World) (c : Call) (h : Logged rid w pre s) : Logged rid w pre (s.called c) :=
  h.of_eq rfl rfl rfl

/-- The loop over the keys, in a call that may be taken up again. -/
theorem keyLoop_logged {env : Env} (hrec : env.Recording) (h : Unfinished rid w s) :
    Ends (fun u => u = markRevoked rid s) (forEach (discoverRelayRefs s rid).keys_to_revoke
      (runHook rid .revoke_deploy_key DeployKeyRef.target env.hooks.revoke_deploy_key))
      (fun _ => Logged rid w ((discoverRelayRefs w rid).keys_to_revoke.map DeployKeyRef.entry))
      (Unfinished rid w) := by
  rw [h.refs]
  have hnext : [] ++ (discoverRelayRefs w rid).keys_to_revoke.map DeployKeyRef.entry <+: hookEntries (discoverRelayRefs w rid) :=
    List.prefix_append _ _
  refine Ends.imp (hookLoop_logged (fun f hf ref pre => ?_) _ hnext) (fun u hu => ?_) (fun _ _ h => h)
  · exact hrec.revoke _ Logged.called f hf ref
  · rw [hu]
    exact h.revoked

theorem repoLoop_logged {env : Env} (hrec : env.Recording) (h : Unfinished rid w s) :
    Ends (Logged rid w ((discoverRelayRefs w rid).keys_to_revoke.map DeployKeyRef.entry))
      (forEach (discoverRelayRefs s rid).repos_to_delete
        (runHook rid .delete_relay_repo RelayRef.repo env.hooks.delete_relay_repo))
      (fun _ => Logged rid w (hookEntries (discoverRelayRefs w rid))) (Unfinished rid w) := by
  rw [h.refs]
  exact hookLoop_logged (fun f hf ref _ => hrec.delete _ Logged.called f hf ref) _ (List.prefix_refl _)

/-- The rows are those that the transaction finds. -/
theorem Logged.rowsAtCommit (h : Logged rid w (hookEntries (discoverRelayRefs w rid)) s) :
    s.rows = Teardown.rowsAtCommit w rid := by
  obtain ⟨es, hpre, hes, hrows⟩ := h.rows
  rw [hrows, hes.eq_of_length_le hpre.length_le]
  rfl

/-- What the `COMMIT` leaves in the database file. -/
theorem Logged.stale_committed (h : Logged rid w (hookEntries (discoverRelayRefs w rid)) s)
    {rows : List Row} (hrows : rows = survivors rid w.rows) :
    (s.committed rid rows).stale = staleAtCommit w rid := by
  simp only [World.committed, staleAtCommit, h.stale, h.rowsAtCommit, hrows]

theorem deletePrivateKey_logged {env : Env} (ref : String) :
    Keeps (Logged rid w pre) (deletePrivateKey env ref) :=
  deletePrivateKey_keeps (fun _ _ _ _ _ _ hv => hv.of_eq rfl rfl rfl)

/-- Everything up to the file phase for a property `P₁` that the hooks keep, in a
call that may be taken up again: the transaction finds the whole log. -/
theorem teardownState_ends_logged {env : Env} {P₁ P₂ C Q I : World → Prop} (hrec : env.Recording)
    (hun : Unfinished rid w s) (hs : P₁ s) (hI₁ : ∀ u, P₁ u → Unfinished rid w u → I u)
    (hI₂ : ∀ u, P₂ u → Unfinished rid w u → I u) (hst : Steady rid P₁)
    (hkeys : ∀ u, P₁ u → ∀ ref ∈ privateKeyRefs rid u.rows, Keeps P₁ (deletePrivateKey env ref))
    (hjournal : ∀ u, P₁ u → P₂ (u.journaled rid (relationshipInviteIds rid s.rows)
      (discoverRelayRefs s rid)))
    (hlate : ∀ u, P₂ u → ∀ ref ∈ privateKeyRefs rid u.rows, Keeps P₂ (deletePrivateKey env ref))
    (hcommit : ∀ u rows, P₂ u → Logged rid w (hookEntries (discoverRelayRefs w rid)) u →
      eraseRows rid u.rows = some rows → C (u.committed rid rows))
    (hcompact : Ends C (compactDatabase env) (fun _ => Q) I) :
    Ends (fun u => u = s) (teardownState env rid) (fun d u => Q u ∧
      d.refs = discoverRelayRefs s rid ∧ d.invite_ids = relationshipInviteIds rid s.rows) I := by
  have hkeyloop := Ends.and (revokeLoop_ends hst hs (hrec.revoke _ hst.called)) (keyLoop_logged hrec hun)
  have hrepoloop := Ends.and (Keeps.ends (Keeps.forEach (fun k _ =>
    runHook_keeps hst (hrec.delete _ hst.called) k)) (fun _ h => h)) (repoLoop_logged hrec hun)
  have hI : ∀ u, P₁ u ∧ Unfinished rid w u → I u := fun u h => hI₁ u h.1 h.2
  have hfirst : ∀ u, P₁ u ∧ Logged rid w (hookEntries (discoverRelayRefs w rid)) u → I u :=
    fun u h => hI₁ u h.1 h.2.unfinished
  have hsecond : ∀ u, P₂ u ∧ Logged rid w (hookEntries (discoverRelayRefs w rid)) u → I u :=
    fun u h => hI₂ u h.1 h.2.unfinished
  refine Ends.imp (teardownState_ends_loops (hI₁ s hs hun) hfirst hsecond
    (Ends.weaken (Ends.imp hkeyloop (fun _ h => ⟨h, h⟩) (fun _ _ h => h)) hI)
    (Ends.weaken hrepoloop hI) (fun u t ht hu => ⟨hst.tombstone u t ht hu.1, hu.2.of_eq rfl rfl rfl⟩)
    (fun u hu ref href => Keeps.and (hkeys u hu.1 ref href) (deletePrivateKey_logged ref))
    (fun u hu => ⟨hjournal u hu.1, hu.2.of_eq rfl rfl rfl⟩)
    (fun u hu ref href => Keeps.and (hlate u hu.1 ref href) (deletePrivateKey_logged ref))
    (fun u rows hu herase => hcommit u rows hu.1 hu.2 herase) hcompact) (fun _ h => h) ?_
  exact fun _ _ h => ⟨h.1, h.2.1, h.2.2.1⟩

end Progress

end MuseAgentSocial.Teardown
