import MuseAgentSocial.Teardown.Commit

/-!
# `relay.json` and the live relationships

Each pairing records deploy keys and a repository in `relay.json`, and they
have to stay there until the relationship is torn down.

Three writers replace the whole file.  A pairing writes its own entries only.
A teardown unlinks the file in its sweep when it mentions the id, and writes
back the entries it decided to keep when it looked at the file; a resumed
teardown takes them from its journal.  `relay_covers_recorded` says that no
entry is lost in the runs in which these three have nothing to lose.
-/

namespace MuseAgentSocial.Teardown

open Relational Durable Durable.Program

/-- The deploy-key entries of the file. -/
def relayKeys : Option RelayFile → List KeyEntry
  | some (.doc d) => d.deploy_keys
  | _ => []

/-- The repository entries of the file. -/
def relayRepos : Option RelayFile → List RepoEntry
  | some (.doc d) => d.repos
  | _ => []

/-- The file holds what each pairing recorded whose relationship has not been
torn down. -/
def Covered (w : World) : Prop :=
  ∀ p ∈ w.recorded, p.2.deploy_keys ⊆ relayKeys w.relay ∧ p.2.repos ⊆ relayRepos w.relay

/-- The repository is claimed by the relationship's `relay_config` row. -/
def Claims (rows : List Row) (s : RelationshipId) (repo : String) : Prop :=
  ∃ r ∈ rows, r.table = .relay_config ∧ r.is .relationship_id (.text s) = true ∧
    ∃ url, textOf r .repo_url = some url ∧ ownerSlashName url = repo

/-- The refs keep nothing when there is no document. -/
def RelayRefs.Consistent (refs : RelayRefs) : Prop :=
  (refs.relay_json_present && refs.relay_json_parseable) = false →
    refs.keep_deploy_keys = [] ∧ refs.keep_repos = []

/-- What the recorded entries look like, and that the file can be read. -/
structure Sound (w : World) : Prop where
  database : w.database = true
  titled : ∀ p ∈ w.recorded, ∀ e ∈ p.2.deploy_keys, ∃ f, e = .dict f ∧
    firstText [f.title, f.label] = deployKeyTitle p.1
  claimed : ∀ p ∈ w.recorded, ∀ e ∈ p.2.repos, ∃ repo transport, e = .dict (some repo) transport ∧
    repo ≠ "" ∧ Claims w.rows p.1 repo
  parsed : ∀ text, w.relay ≠ some (.unparseable text)
  journals : w.journals.All (fun j => j.refs.Consistent)

/-- The invariant: nothing recorded is lost. -/
structure Kept (w : World) : Prop where
  sound : Sound w
  covered : Covered w

/-! ## Discovery keeps what is recorded for others -/

section Discovery

variable {w : World} {rid : RelationshipId}

theorem keyToRevoke_titled {f : KeyFields} {s : RelationshipId}
    (htitle : firstText [f.title, f.label] = deployKeyTitle s) (hne : s ≠ rid) (rows : List Row) :
    keyToRevoke rows rid (.dict f) = none := by
  have hclaim : deployKeyClaim f (keyClaims rows) = some s := by
    unfold deployKeyClaim
    rw [htitle, deployKeyTitle, stripPrefix_append]
  simp [keyToRevoke, hclaim, hne]

theorem repoToDelete_claimed {rows : List Row} {s : RelationshipId} {repo : String}
    {transport : Option String} (hrepo : repo ≠ "") (hclaims : Claims rows s repo) (hne : s ≠ rid) :
    repoToDelete rows rid (.dict (some repo) transport) = none := by
  obtain ⟨r, hmem, htab, hrid, url, hurl, hname⟩ := hclaims
  have htext : textOf r .relationship_id = some s := by
    simp [textOf, Row.is_iff.mp hrid]
  have hin : s ∈ repoClaimants rows repo := by
    unfold repoClaimants
    rw [List.mem_filterMap]
    exact ⟨r, mem_select.mpr ⟨hmem, htab⟩, by simp [hurl, htext, hname]⟩
  have hsome : repoClaimants rows repo ≠ [] := List.ne_nil_of_mem hin
  have hall : (repoClaimants rows repo).all (· = rid) = false := by
    rw [Bool.eq_false_iff, ne_eq, List.all_eq_true]
    intro hall
    exact hne (by simpa using hall s hin)
  simp only [repoToDelete, firstText, hrepo, if_false, hsome, hall]
  simp

theorem discoverRelayRefs_consistent (w : World) (rid : RelationshipId) :
    (discoverRelayRefs w rid).Consistent := by
  unfold RelayRefs.Consistent discoverRelayRefs
  split <;> simp

/-- The entries of the others are among those that discovery keeps. -/
theorem discoverRelayRefs_keeps (hs : Sound w) (hc : Covered w) {p : RelationshipId × RelayDoc}
    (hp : p ∈ w.recorded) (hne : p.1 ≠ rid) :
    p.2.deploy_keys ⊆ (discoverRelayRefs w rid).keep_deploy_keys ∧
      p.2.repos ⊆ (discoverRelayRefs w rid).keep_repos := by
  obtain ⟨hkeys, hrepos⟩ := hc p hp
  cases hrelay : w.relay with
  | none =>
    rw [hrelay] at hkeys hrepos
    exact ⟨fun e he => absurd (hkeys he) List.not_mem_nil, fun e he => absurd (hrepos he) List.not_mem_nil⟩
  | some file =>
    cases file with
    | unparseable text => exact absurd hrelay (hs.parsed text)
    | doc d =>
      rw [hrelay] at hkeys hrepos
      simp only [discoverRelayRefs, hrelay]
      constructor
      · intro e he
        obtain ⟨f, rfl, htitle⟩ := hs.titled p hp e he
        exact List.mem_filter.mpr ⟨hkeys he, by simp [keyToRevoke_titled htitle hne]⟩
      · intro e he
        obtain ⟨repo, transport, rfl, hrepo, hclaims⟩ := hs.claimed p hp e he
        exact List.mem_filter.mpr ⟨hrepos he, by simp [repoToDelete_claimed hrepo hclaims hne]⟩

end Discovery

/-! ## What the parts of a teardown keep -/

theorem Claims.mono {rows rows' : List Row} {s : RelationshipId} {repo : String}
    (h : Claims rows s repo)
    (hrows : ∀ r ∈ rows, r.table = .relay_config → r.is .relationship_id (.text s) = true → r ∈ rows') :
    Claims rows' s repo := by
  obtain ⟨r, hmem, htab, hrid, hurl⟩ := h
  exact ⟨r, hrows r hmem htab hrid, htab, hrid, hurl⟩

theorem Sound.of_rows {w w' : World} (hs : Sound w) (hdb : w'.database = w.database)
    (hrec : w'.recorded ⊆ w.recorded)
    (hrelay : w'.relay = w.relay ∨ ∀ text, w'.relay ≠ some (.unparseable text))
    (hjournals : w'.journals.All (fun j => j.refs.Consistent))
    (hrows : ∀ p ∈ w'.recorded, ∀ r ∈ w.rows, r.table = .relay_config →
      r.is .relationship_id (.text p.1) = true → r ∈ w'.rows) : Sound w' where
  database := hdb.trans hs.database
  titled := fun p hp => hs.titled p (hrec hp)
  claimed := by
    intro p hp e he
    obtain ⟨repo, transport, heq, hne, hclaims⟩ := hs.claimed p (hrec hp) e he
    exact ⟨repo, transport, heq, hne, hclaims.mono (hrows p hp)⟩
  parsed := by
    intro text
    rcases hrelay with h | h
    · rw [h]
      exact hs.parsed text
    · exact h text
  journals := hjournals

theorem is_relationship_ne {r : Row} {s rid : RelationshipId}
    (h : r.is .relationship_id (.text s) = true) (hne : s ≠ rid) :
    r.is .relationship_id (.text rid) = false := by
  rw [← Bool.not_eq_true, Row.is_iff, Row.is_iff.mp h]
  simpa using hne

/-- What holds until the transaction: `relay.json` and the recorded entries are
those of the start. -/
structure BeforeCommit (rid : RelationshipId) (w s : World) : Prop where
  sound : Sound s
  relay : s.relay = w.relay
  recorded : s.recorded = w.recorded
  rows : survivors rid s.rows = survivors rid w.rows

/-- What holds after the transaction. -/
structure AfterCommit (rid : RelationshipId) (w s : World) : Prop where
  sound : Sound s
  relay : s.relay = w.relay
  recorded : s.recorded = w.recorded.filter (·.1 ≠ rid)
  rows : s.rows = survivors rid w.rows

section Teardown

variable {rid : RelationshipId} {w : World} {env : Env}

theorem beforeCommit_steady : Steady rid (BeforeCommit rid w) where
  called := fun s c h =>
    ⟨h.sound.of_rows rfl (fun _ hp => hp) (Or.inl rfl) h.sound.journals (fun _ _ _ hr _ _ => hr),
      h.relay, h.recorded, h.rows⟩
  logged := by
    intro s hook target h
    have hsame : ∀ r ∈ s.rows, r ∈ (recordHookCompleted rid hook target s).rows := by
      intro r hr
      unfold recordHookCompleted
      split
      · exact hr
      · exact List.mem_append_left _ hr
    have heq : (recordHookCompleted rid hook target s).relay = s.relay ∧
        (recordHookCompleted rid hook target s).recorded = s.recorded ∧
        (recordHookCompleted rid hook target s).database = s.database ∧
        (recordHookCompleted rid hook target s).journals = s.journals := by
      unfold recordHookCompleted
      split <;> exact ⟨rfl, rfl, rfl, rfl⟩
    obtain ⟨hrelay, hrec, hdb, hjournals⟩ := heq
    refine ⟨h.sound.of_rows hdb (by rw [hrec]; exact fun _ hp => hp) (Or.inl hrelay)
      (by rw [hjournals]; exact h.sound.journals) (fun _ _ r hr _ _ => hsame r hr),
      hrelay.trans h.relay, hrec.trans h.recorded, ?_⟩
    rw [survivors_recordHookCompleted]
    exact h.rows
  revoked := by
    intro s h
    refine ⟨h.sound.of_rows rfl (fun _ hp => hp) (Or.inl rfl) h.sound.journals ?_,
      h.relay, h.recorded, (survivors_markRevoked rid s).trans h.rows⟩
    intro p _ r hr htab _
    rw [markRevoked_rows, List.mem_map]
    refine ⟨r, hr, if_neg (fun hrev => ?_)⟩
    rw [htab] at hrev
    cases hrev.1
  tombstone := fun s t _ h =>
    ⟨h.sound.of_rows rfl (fun _ hp => hp) (Or.inl rfl) h.sound.journals (fun _ _ _ hr _ _ => hr),
      h.relay, h.recorded, h.rows⟩

theorem BeforeCommit.unlink {s : World} (h : BeforeCommit rid w s) (path : List String) :
    BeforeCommit rid w (s.unlink path) :=
  ⟨h.sound.of_rows rfl (fun _ hp => hp) (Or.inl rfl) h.sound.journals (fun _ _ _ hr _ _ => hr),
    h.relay, h.recorded, h.rows⟩

theorem BeforeCommit.journaled {s : World} (h : BeforeCommit rid w s) (ids : List String)
    {refs : RelayRefs} (hrefs : refs.Consistent) :
    BeforeCommit rid w (s.journaled rid ids refs) := by
  have hjournals : (s.journals.upsert ⟨rid, ids, refs⟩).All (fun j => j.refs.Consistent) :=
    h.sound.journals.upsert hrefs
  exact ⟨h.sound.of_rows rfl (fun _ hp => hp) (Or.inl rfl) hjournals (fun _ _ _ hr _ _ => hr),
    h.relay, h.recorded, h.rows⟩

theorem BeforeCommit.commit {s : World} (h : BeforeCommit rid w s) {rows : List Row}
    (herase : eraseRows rid s.rows = some rows) :
    AfterCommit rid w (s.committed rid rows) := by
  have hrows := eraseRows_eq herase
  refine ⟨h.sound.of_rows rfl (List.filter_subset_self _) (Or.inl rfl) h.sound.journals ?_, h.relay, ?_, ?_⟩
  · intro p hp r hr htab hrid
    have hne : p.1 ≠ rid := by simpa using (List.mem_filter.mp hp).2
    show r ∈ rows
    rw [hrows, mem_survivors]
    exact ⟨hr, by simpa [erased, htab] using is_relationship_ne hrid hne⟩
  · show s.recorded.filter (·.1 ≠ rid) = _
    rw [h.recorded]
  · show rows = _
    rw [hrows, h.rows]

/-- The deleted rows whose bytes the database file holds when the file phase starts. -/
def staleRows (w : World) (rid : RelationshipId) (k : Compaction) : List Row :=
  if k = .complete then [] else staleAtCommit w rid

/-- Everything up to the file phase. -/
theorem teardownState_relay (c : TeardownCall) (hs : Sound w) :
    Ends (fun s => s = w) (teardownState (c.env w) rid) (fun d s =>
      (AfterCommit rid w s ∧ s.stale = staleRows w rid c.compaction) ∧
        d.refs = discoverRelayRefs w rid ∧ d.invite_ids = relationshipInviteIds rid w.rows)
      (fun s => BeforeCommit rid w s ∨ AfterCommit rid w s) := by
  have hw : BeforeCommit rid w w := ⟨hs, rfl, rfl, rfl⟩
  have hkeys : ∀ s, BeforeCommit rid w s → ∀ ref ∈ privateKeyRefs rid s.rows,
      Keeps (BeforeCommit rid w) (deletePrivateKey (c.env w) ref) := by
    intro s _ ref _
    exact deletePrivateKey_keeps (fun _ _ f _ _ v hv => hv.unlink f.path)
  have hcompact : Ends (fun s => AfterCommit rid w s ∧ s.stale = staleAtCommit w rid)
      (compactDatabase (c.env w))
      (fun _ s => AfterCommit rid w s ∧ s.stale = staleRows w rid c.compaction)
      (fun s => BeforeCommit rid w s ∨ AfterCommit rid w s) := by
    refine compactDatabase_ends (fun _ h => Or.inr h.1) (fun hk s h => ⟨?_, ?_⟩) (fun hk s h => ⟨h.1, ?_⟩)
    · exact ⟨h.1.sound.of_rows rfl (fun _ hp => hp) (Or.inl rfl) h.1.sound.journals
        (fun _ _ _ hr _ _ => hr), h.1.relay, h.1.recorded, h.1.rows⟩
    · exact (if_pos hk).symm
    · rw [h.2, staleRows, show c.compaction = .checkpointFails from hk]
      rfl
  refine teardownState_ends_logged (c.recording w) (Unfinished.refl rid w) hw (fun _ h _ => Or.inl h)
    (fun _ h _ => Or.inl h) beforeCommit_steady hkeys
    (fun s h => h.journaled _ (discoverRelayRefs_consistent w rid)) hkeys
    (fun s rows h hlog herase => ⟨h.commit herase, hlog.stale_committed ?_⟩) hcompact
  rw [eraseRows_eq herase, h.rows]

/-! ## The file phase -/

/-- What holds in the file phase: the kept entries cover the others, and
`relay.json` is as before or was unlinked by the sweep. -/
structure InFilePhase (rid : RelationshipId) (refs : RelayRefs) (relay : Option RelayFile)
    (rows stale : List Row) (s : World) : Prop where
  sound : Sound s
  kept : ∀ p ∈ s.recorded, p.2.deploy_keys ⊆ refs.keep_deploy_keys ∧ p.2.repos ⊆ refs.keep_repos
  before : ∀ p ∈ s.recorded, p.2.deploy_keys ⊆ relayKeys relay ∧ p.2.repos ⊆ relayRepos relay
  relay : s.relay = relay ∨ s.relay = none ∧ relayMentions rid relay = true
  rows : s.rows = rows
  stale : s.stale = stale

section FilePhase

variable {refs : RelayRefs} {relay : Option RelayFile} {rows stale : List Row} {ids : List String}

theorem InFilePhase.of_eq {s t : World} (h : InFilePhase rid refs relay rows stale s)
    (hdb : t.database = s.database) (hrelay : t.relay = s.relay) (hrec : t.recorded = s.recorded)
    (hrows : t.rows = s.rows) (hstale : t.stale = s.stale) (hjournals : t.journals.All (fun j => j.refs.Consistent)) :
    InFilePhase rid refs relay rows stale t where
  sound := h.sound.of_rows hdb (by rw [hrec]; exact fun _ hp => hp) (Or.inl hrelay) hjournals
    (fun _ _ r hr _ _ => by rw [hrows]; exact hr)
  kept := by rw [hrec]; exact h.kept
  before := by rw [hrec]; exact h.before
  relay := by rw [hrelay]; exact h.relay
  rows := hrows.trans h.rows
  stale := hstale.trans h.stale

theorem wipeOwnFiles_relay (hdb : databaseMentions env rid rows stale = false) :
    Keeps (InFilePhase rid refs relay rows stale) (wipeOwnFiles env rid ids) := by
  refine wipeOwnFiles_keeps ?_ ?_ ?_ ?_ ?_
  · intro s h hmentions
    have hrelay : relayMentions rid relay = true := by
      rcases h.relay with heq | ⟨hnone, -⟩
      · rw [heq] at hmentions
        exact hmentions
      · simp [hnone, relayMentions] at hmentions
    exact ⟨h.sound.of_rows rfl (fun _ hp => hp) (Or.inr (by simp)) h.sound.journals
      (fun _ _ _ hr _ _ => hr), h.kept, h.before, Or.inr ⟨rfl, hrelay⟩, h.rows, h.stale⟩
  · intro s h hmentions
    rw [h.rows, h.stale, hdb] at hmentions
    cases hmentions
  · intro s _ f _ _ v hv
    exact hv.of_eq rfl rfl rfl rfl rfl hv.sound.journals
  · intro s _ j _ _ v hv
    exact hv.of_eq rfl rfl rfl rfl rfl (hv.sound.journals.delete _)
  · intro s _ t _ _ v hv
    exact hv.of_eq rfl rfl rfl rfl rfl hv.sound.journals

theorem InFilePhase.covered_of_nil {s : World} (h : InFilePhase rid refs relay rows stale s)
    (hkeys : refs.keep_deploy_keys = []) (hrepos : refs.keep_repos = []) (file : Option RelayFile) :
    Covered { s with relay := file } := by
  intro p hp
  obtain ⟨hk, hr⟩ := h.kept p hp
  rw [hkeys] at hk
  rw [hrepos] at hr
  exact ⟨fun e he => absurd (hk he) List.not_mem_nil, fun e he => absurd (hr he) List.not_mem_nil⟩

theorem InFilePhase.prune {s : World} (h : InFilePhase rid refs relay rows stale s)
    (hrefs : refs.Consistent) :
    Kept { s with relay := pruneRelayJson refs s.relay } := by
  have hsound : ∀ file, (∀ text, file ≠ some (RelayFile.unparseable text)) →
      Sound { s with relay := file } := fun file hfile =>
    h.sound.of_rows rfl (fun _ hp => hp) (Or.inr hfile) h.sound.journals (fun _ _ _ hr _ _ => hr)
  cases hread : refs.relay_json_present && refs.relay_json_parseable with
  | false =>
    have hsame : pruneRelayJson refs s.relay = s.relay := by
      unfold pruneRelayJson
      cases hpres : refs.relay_json_present with
      | false => simp
      | true =>
        rw [hpres, Bool.true_and] at hread
        simp [hread]
    obtain ⟨hkeys, hrepos⟩ := hrefs hread
    rw [hsame]
    exact ⟨hsound _ h.sound.parsed, h.covered_of_nil hkeys hrepos _⟩
  | true =>
    simp only [Bool.and_eq_true] at hread
    by_cases hnil : refs.keep_deploy_keys = [] ∧ refs.keep_repos = []
    · have hprune : pruneRelayJson refs s.relay = none := by
        simp [pruneRelayJson, hread.1, hread.2, hnil.1, hnil.2]
      rw [hprune]
      exact ⟨hsound none (by simp), h.covered_of_nil hnil.1 hnil.2 _⟩
    · have hprune : pruneRelayJson refs s.relay =
          some (.doc ⟨refs.keep_deploy_keys, refs.keep_repos⟩) := by
        simp [pruneRelayJson, hread.1, hread.2]
        exact fun hk hr => hnil ⟨hk, hr⟩
      rw [hprune]
      exact ⟨hsound _ (by simp), fun p hp => h.kept p hp⟩

/-- Where the file phase stops before the rewriting, nothing is lost when the
sweep does not unlink the file, or nothing is to be kept. -/
theorem InFilePhase.covered {s : World} (h : InFilePhase rid refs relay rows stale s)
    (hsafe : relayMentions rid relay = false ∨
      refs.keep_deploy_keys = [] ∧ refs.keep_repos = []) : Covered s := by
  rcases hsafe with hno | ⟨hkeys, hrepos⟩
  · rcases h.relay with heq | ⟨-, hyes⟩
    · intro p hp
      rw [heq]
      exact h.before p hp
    · rw [hno] at hyes
      cases hyes
  · exact h.covered_of_nil hkeys hrepos s.relay

theorem wipeAndPrune_relay (hdb : databaseMentions env rid rows stale = false)
    (hrefs : refs.Consistent) :
    Ends (InFilePhase rid refs relay rows stale) (wipeAndPrune env rid ids refs)
      (fun _ => Kept) (InFilePhase rid refs relay rows stale) := by
  unfold wipeAndPrune
  refine Ends.bind (Keeps.ends (wipeOwnFiles_relay hdb) (fun _ h => h)) (fun _ => ?_)
  exact Ends.write (fun _ h => h) (fun s h => h.prune hrefs)

theorem Kept.unlink {s : World} (h : Kept s) (path : List String) : Kept (s.unlink path) :=
  ⟨h.sound.of_rows rfl (fun _ hp => hp) (Or.inl rfl) h.sound.journals (fun _ _ _ hr _ _ => hr),
    h.covered⟩

theorem Kept.dropJournal {s : World} (h : Kept s) (id : RelationshipId) : Kept (s.dropJournal id) :=
  ⟨h.sound.of_rows rfl (fun _ hp => hp) (Or.inl rfl) (h.sound.journals.delete _)
    (fun _ _ _ hr _ _ => hr), h.covered⟩

/-- The whole file phase, where it does not stop with entries to write back. -/
theorem wipeRelationshipFiles_relay {s : World} {n : Budget}
    (h : InFilePhase rid refs relay rows stale s) (hdb : databaseMentions env rid rows stale = false)
    (hrefs : refs.Consistent)
    (hsafe : (wipeAndPrune env rid ids refs).result n s ≠ .returned () →
      relayMentions rid relay = false ∨ refs.keep_deploy_keys = [] ∧ refs.keep_repos = []) :
    Kept ((wipeRelationshipFiles env rid ids refs).state n s) := by
  have hphase : Ends (InFilePhase rid refs relay rows stale) (wipeAndPrune env rid ids refs)
      (fun _ => Kept) (InFilePhase rid refs relay rows stale) :=
    wipeAndPrune_relay hdb hrefs
  refine Ends.bind_state hphase h ?_ ?_
  · intro _ n' s' _ hs'
    exact relayYaml_keeps (fun _ _ f _ _ _ hv => hv.unlink f.path) n' s' hs'
  · intro hstop t ht
    exact ⟨ht.sound, ht.covered (hsafe (hstop ()))⟩

end FilePhase

end Teardown

/-! ## One call -/

/-- The call stops between the start of the file phase and the rewriting of
`relay.json`. -/
def stopsInFilePhase (env : Env) (rid : RelationshipId) (n : Budget) (w : World) : Bool :=
  if (w.relationship rid).isSome then
    match teardownState env rid n w with
    | (.returned d, n', w') => (wipeAndPrune env rid d.invite_ids d.refs).result n' w' ≠ .returned ()
    | _ => false
  else (wipeAndPrune env rid (resumedInviteIds w rid) (resumedRefs w rid)).result n w ≠ .returned ()

/-- The refs that a call goes by. -/
def refsUsed (w : World) (rid : RelationshipId) : RelayRefs :=
  if (w.relationship rid).isSome then discoverRelayRefs w rid else resumedRefs w rid

/-- The rows that are left when the sweep looks at the database file. -/
def sweptRows (w : World) (rid : RelationshipId) : List Row :=
  if (w.relationship rid).isSome then survivors rid w.rows else w.rows

/-- The deleted rows whose bytes the database file holds then. -/
def sweptStale (w : World) (rid : RelationshipId) (k : Compaction) : List Row :=
  if (w.relationship rid).isSome then staleRows w rid k else w.stale

/-- The journal of a resumed teardown keeps all that `relay.json` holds for
others now. -/
def JournalCurrent (w : World) (rid : RelationshipId) : Prop :=
  (∀ e ∈ (discoverRelayRefs w rid).keep_deploy_keys, e ∈ (resumedRefs w rid).keep_deploy_keys) ∧
    ∀ e ∈ (discoverRelayRefs w rid).keep_repos, e ∈ (resumedRefs w rid).keep_repos

/-- The call has nothing of another relationship to lose. -/
structure CallSafe (w : World) (c : TeardownCall) : Prop where
  journal : c.resumes w = true → JournalCurrent w c.relationship_id
  stop : stopsInFilePhase (c.env w) c.relationship_id c.budget w = true →
    relayMentions c.relationship_id w.relay = false ∨
      (refsUsed w c.relationship_id).keep_deploy_keys = [] ∧
        (refsUsed w c.relationship_id).keep_repos = []
  database : databaseMentions (c.env w) c.relationship_id (sweptRows w c.relationship_id)
    (sweptStale w c.relationship_id c.compaction) = false

theorem resumes_begun (c : TeardownCall) (w : World) : c.resumes (c.begun w) = c.resumes w := by
  unfold TeardownCall.begun
  split <;> rfl

theorem begun_recorded (c : TeardownCall) (w : World) (h : c.resumes w = true) :
    ∀ p ∈ (c.begun w).recorded, p.1 ≠ c.relationship_id := by
  intro p hp
  simp only [TeardownCall.begun, h, if_true, List.mem_filter] at hp
  simpa using hp.2

/-- The recorded entries of the others are in the file before a call. -/
theorem discoverRelayRefs_inFilePhase {w s : World} {rid : RelationshipId} (h : Kept w)
    (hs : AfterCommit rid w s) :
    InFilePhase rid (discoverRelayRefs w rid) w.relay (survivors rid w.rows) s.stale s where
  sound := hs.sound
  kept := by
    intro p hp
    rw [hs.recorded, List.mem_filter] at hp
    exact discoverRelayRefs_keeps h.sound h.covered hp.1 (by simpa using hp.2)
  before := by
    intro p hp
    rw [hs.recorded, List.mem_filter] at hp
    exact h.covered p hp.1
  relay := Or.inl hs.relay
  rows := hs.rows
  stale := rfl

theorem BeforeCommit.kept {w s : World} {rid : RelationshipId} (h : BeforeCommit rid w s)
    (hw : Kept w) : Kept s := by
  refine ⟨h.sound, ?_⟩
  intro p hp
  rw [h.recorded] at hp
  rw [h.relay]
  exact hw.covered p hp

theorem AfterCommit.kept {w s : World} {rid : RelationshipId} (h : AfterCommit rid w s)
    (hw : Kept w) : Kept s := by
  refine ⟨h.sound, ?_⟩
  intro p hp
  rw [h.recorded, List.mem_filter] at hp
  rw [h.relay]
  exact hw.covered p hp.1

theorem teardownFresh_kept {w : World} {c : TeardownCall} {rid : RelationshipId} {n : Budget}
    (hrow : (w.relationship rid).isSome = true) (h : Kept w)
    (hdb : databaseMentions (c.env w) rid (survivors rid w.rows) (staleRows w rid c.compaction) = false)
    (hstop : stopsInFilePhase (c.env w) rid n w = true → relayMentions rid w.relay = false ∨
      (discoverRelayRefs w rid).keep_deploy_keys = [] ∧ (discoverRelayRefs w rid).keep_repos = []) :
    Kept ((teardownFresh (c.env w) rid).state n w) := by
  refine Ends.bind_state (teardownState_relay c h.sound) rfl ?_
    (fun _ t ht => ht.elim (fun hb => hb.kept h) (fun ha => ha.kept h))
  rintro d n' s' hrun ⟨⟨hafter, hstale⟩, hrefs, hids⟩
  rw [← hstale] at hdb
  have hphase := discoverRelayRefs_inFilePhase h hafter
  have hfiles : Kept ((wipeRelationshipFiles (c.env w) rid d.invite_ids d.refs).state n' s') := by
    rw [hrefs]
    refine wipeRelationshipFiles_relay hphase hdb (discoverRelayRefs_consistent w rid) (fun hne => ?_)
    refine hstop ?_
    simp only [stopsInFilePhase, hrow, if_true, hrun, hrefs]
    exact decide_eq_true hne
  refine Keeps.bind_state hfiles (fun _ => Keeps.bind (postcheck_keeps _) (fun _ => ?_))
  exact Keeps.bind (Keeps.write (fun s hs => hs.dropJournal rid)) (fun _ => Keeps.ret _)

theorem resumedRefs_consistent {w : World} (h : Sound w) (rid : RelationshipId) :
    (resumedRefs w rid).Consistent := by
  unfold resumedRefs
  cases hj : w.journals.find rid with
  | none => exact discoverRelayRefs_consistent w rid
  | some j => exact h.journals.find hj

theorem teardownResumed_kept {w : World} {c : TeardownCall} {rid : RelationshipId} {n : Budget}
    (hrow : (w.relationship rid).isSome = false) (h : Kept w)
    (hrec : ∀ p ∈ w.recorded, p.1 ≠ rid) (hjournal : JournalCurrent w rid)
    (hdb : databaseMentions (c.env w) rid w.rows w.stale = false)
    (hstop : stopsInFilePhase (c.env w) rid n w = true → relayMentions rid w.relay = false ∨
      (resumedRefs w rid).keep_deploy_keys = [] ∧ (resumedRefs w rid).keep_repos = []) :
    Kept ((teardownResumed (c.env w) rid).state n w) := by
  have hphase : InFilePhase rid (resumedRefs w rid) w.relay w.rows w.stale w :=
    { sound := h.sound
      kept := by
        intro p hp
        obtain ⟨hkeys, hrepos⟩ := discoverRelayRefs_keeps h.sound h.covered hp (hrec p hp)
        exact ⟨fun e he => hjournal.1 e (hkeys he), fun e he => hjournal.2 e (hrepos he)⟩
      before := h.covered
      relay := Or.inl rfl
      rows := rfl
      stale := rfl }
  have hfiles : Kept ((wipeRelationshipFiles (c.env w) rid (resumedInviteIds w rid)
      (resumedRefs w rid)).state n w) := by
    refine wipeRelationshipFiles_relay hphase hdb (resumedRefs_consistent h.sound rid) (fun hne => ?_)
    refine hstop ?_
    simp only [stopsInFilePhase, hrow, Bool.false_eq_true, if_false]
    exact decide_eq_true hne
  exact Keeps.bind_state hfiles (fun _ => Keeps.bind (postcheck_keeps _) (fun _ => Keeps.ret _))

theorem teardown_kept {w : World} {c : TeardownCall} (h : Kept w)
    (hrec : c.resumes w = true → ∀ p ∈ w.recorded, p.1 ≠ c.relationship_id)
    (hsafe : CallSafe w c) : Kept (c.run w).2.2 := by
  show Kept ((teardownRelationship (c.env w) c.relationship_id).state c.budget w)
  unfold teardownRelationship
  cases hpath : pathSafe c.relationship_id with
  | false => exact h
  | true =>
    simp only [Bool.not_true, Bool.false_eq_true, if_false]
    have hstop := hsafe.stop
    have hdb := hsafe.database
    have hjournal := hsafe.journal
    cases hrow : (w.relationship c.relationship_id).isSome with
    | true =>
      simp only [refsUsed, sweptRows, sweptStale, hrow, if_true] at hstop hdb
      show Kept (Program.state (if (w.relationship c.relationship_id).isSome then _ else _) _ _)
      rw [if_pos hrow]
      exact teardownFresh_kept hrow h hdb hstop
    | false =>
      simp only [refsUsed, sweptRows, sweptStale, hrow, Bool.false_eq_true, if_false] at hstop hdb
      show Kept (Program.state (if (w.relationship c.relationship_id).isSome then _ else _) _ _)
      rw [if_neg (by simp [hrow])]
      split
      · exact h
      · rename_i htomb
        have hres : c.resumes w = true := by
          simp only [TeardownCall.resumes, hpath, Bool.true_and, Bool.and_eq_true]
          exact ⟨by simpa using hrow, by simpa [Option.isSome_iff_ne_none] using htomb⟩
        exact teardownResumed_kept hrow h (hrec hres) (hjournal hres) hdb hstop

instance (w : World) (rid : RelationshipId) : Decidable (JournalCurrent w rid) :=
  inferInstanceAs (Decidable (_ ∧ _))

instance (w : World) (c : TeardownCall) : Decidable (CallSafe w c) :=
  decidable_of_iff
    ((c.resumes w = true → JournalCurrent w c.relationship_id) ∧
      (stopsInFilePhase (c.env w) c.relationship_id c.budget w = true →
        relayMentions c.relationship_id w.relay = false ∨
          (refsUsed w c.relationship_id).keep_deploy_keys = [] ∧
            (refsUsed w c.relationship_id).keep_repos = []) ∧
      databaseMentions (c.env w) c.relationship_id (sweptRows w c.relationship_id)
        (sweptStale w c.relationship_id c.compaction) = false)
    ⟨fun h => ⟨h.1, h.2.1, h.2.2⟩, fun h => ⟨h.journal, h.stop, h.database⟩⟩

/-! ## Pairings -/

/-- No relationship that is not torn down has an entry. -/
def NothingRecorded (w : World) : Prop := ∀ p ∈ w.recorded, p.2 = ⟨[], []⟩

instance (w : World) : Decidable (NothingRecorded w) := inferInstanceAs (Decidable (∀ p ∈ _, _))

/-- The entries as a pairing writes them. -/
def PairedDoc (p : Pairing) (doc : RelayDoc) : Prop :=
  (∀ e ∈ doc.deploy_keys, ∃ f, e = .dict f ∧
    firstText [f.title, f.label] = deployKeyTitle p.relationship_id) ∧
  ∀ e ∈ doc.repos, e = pairedRepo p.relay_url ∧ ownerSlashName p.relay_url ≠ ""

theorem firstText_title (rid : RelationshipId) (label : Option String) :
    firstText [some (deployKeyTitle rid), label] = deployKeyTitle rid := by
  have hne : deployKeyTitle rid ≠ "" := by
    intro h
    have hlen := congrArg String.length h
    simp [deployKeyTitle, DEPLOY_KEY_TITLE_PREFIX, String.length_append] at hlen
  simp [firstText, hne]

theorem pairedKey_titled (rid : RelationshipId) (id : Option String) (key role : String) :
    ∃ f, pairedKey rid id key role = .dict f ∧ firstText [f.title, f.label] = deployKeyTitle rid :=
  ⟨_, rfl, firstText_title rid none⟩

theorem commitDoc_paired {p : Pairing} (hurl : p.urlOk = true) : PairedDoc p (commitDoc p) := by
  unfold PairedDoc commitDoc
  cases htrans : p.transport with
  | «local» => simp
  | github =>
    have hne : ownerSlashName p.relay_url ≠ "" := by simpa [Pairing.urlOk, htrans] using hurl
    refine ⟨?_, by simp [hne]⟩
    intro e he
    simp only [List.mem_cons, List.not_mem_nil, or_false] at he
    rcases he with rfl | rfl
    · exact pairedKey_titled _ _ _ _
    · exact pairedKey_titled _ _ _ _

theorem ingestDoc_paired {p : Pairing} (hurl : p.transport = .github → p.urlOk = true) :
    PairedDoc p (ingestDoc p) := by
  unfold PairedDoc ingestDoc
  cases htrans : p.transport with
  | «local» => simp
  | github =>
    have hne : ownerSlashName p.relay_url ≠ "" := by
      simpa [Pairing.urlOk, htrans] using hurl htrans
    refine ⟨?_, by simp [hne]⟩
    intro e he
    simp only [List.mem_singleton] at he
    subst he
    exact pairedKey_titled _ _ _ _

/-- A pairing over a file without entries to lose. -/
theorem writeRelay_kept {w : World} {p : Pairing} {doc : RelayDoc} (h : Kept w)
    (hnone : NothingRecorded w) (hdoc : PairedDoc p doc) (rows : List Row) :
    Kept (writeRelay p doc { w with rows := rows }) := by
  have hrec : ∀ q ∈ w.recorded ++ [(p.relationship_id, doc)],
      q.2 = ⟨[], []⟩ ∨ q = (p.relationship_id, doc) := by
    intro q hq
    rcases List.mem_append.mp hq with hq | hq
    · exact Or.inl (hnone q hq)
    · exact Or.inr (List.mem_singleton.mp hq)
  refine ⟨⟨h.sound.database, ?_, ?_, by simp [writeRelay], h.sound.journals⟩, ?_⟩
  · intro q hq e he
    rcases hrec q hq with hnil | rfl
    · rw [hnil] at he
      cases he
    · exact hdoc.1 e he
  · intro q hq e he
    rcases hrec q hq with hnil | rfl
    · rw [hnil] at he
      cases he
    · obtain ⟨heq, hne⟩ := hdoc.2 e he
      refine ⟨ownerSlashName p.relay_url, some "github", heq, hne, relayConfigRow p, ?_, rfl, ?_,
        p.relay_url, rfl, rfl⟩
      · exact List.mem_append_right _ (List.mem_singleton.mpr rfl)
      · exact Row.is_iff.mpr rfl
  · intro q hq
    rcases hrec q hq with hnil | rfl
    · rw [hnil]
      exact ⟨List.nil_subset _, List.nil_subset _⟩
    · exact ⟨fun _ he => he, fun _ he => he⟩

/-! ## Runs -/

/-- The action has nothing of another relationship to lose. -/
def RelaySafe (w : World) : Act → Prop
  | .pairCommit _ => NothingRecorded w
  | .pairIngest p registered =>
    (p.transport = .github && (!registered || !p.urlOk)) = false → NothingRecorded w
  | .teardown c => CallSafe (c.begun w) c
  | .other _ _ _ => True

instance (w : World) (a : Act) : Decidable (RelaySafe w a) := by
  cases a <;> unfold RelaySafe <;> infer_instance

theorem World.opened_of_database {w : World} (h : w.database = true) : w.opened = w := by
  simp [World.opened, h]

/-- More rows of other tables change nothing. -/
theorem Kept.of_rows {w : World} (h : Kept w) {rows : List Row} (stale : List Row)
    (files : Table File.path) (hrows : ∀ r ∈ w.rows, r.table = .relay_config → r ∈ rows) :
    Kept { w with rows := rows, stale := stale, files := files } :=
  ⟨h.sound.of_rows rfl (fun _ hp => hp) (Or.inl rfl) h.sound.journals
    (fun _ _ r hr htab _ => hrows r hr htab), h.covered⟩

theorem Kept.begun {w : World} (h : Kept w) (c : TeardownCall) : Kept (c.begun w) := by
  unfold TeardownCall.begun
  split
  · refine ⟨h.sound.of_rows rfl (List.filter_subset_self _) (Or.inl rfl) h.sound.journals
      (fun _ _ _ hr _ _ => hr), fun p hp => ?_⟩
    exact h.covered p (List.mem_of_mem_filter hp)
  · exact h

theorem step_kept {w w' : World} {a : Act} (h : Kept w) (hsafe : RelaySafe w a)
    (hstep : step w a = some w') : Kept w' := by
  have hopen : w.opened = w := World.opened_of_database h.sound.database
  cases a with
  | pairCommit p =>
    simp only [step, pairCommit, hopen] at hstep
    split at hstep
    · cases hstep
    · rename_i hcond
      cases hstep
      refine writeRelay_kept h hsafe (commitDoc_paired ?_) _
      by_contra hurl
      simp [hurl] at hcond
  | pairIngest p registered =>
    simp only [step, pairIngest, hopen] at hstep
    split at hstep
    · cases hstep
    · split at hstep
      · cases hstep
        exact h.of_rows w.stale w.files (fun r hr _ => List.mem_append_left _ hr)
      · rename_i hcond
        cases hstep
        have hwrites : (p.transport = .github && (!registered || !p.urlOk)) = false := by
          simpa using hcond
        refine writeRelay_kept h (hsafe hwrites) (ingestDoc_paired (fun htrans => ?_)) _
        by_contra hurl
        simp [htrans, hurl] at hwrites
  | teardown c =>
    simp only [step, hopen, Option.some.injEq] at hstep
    subst hstep
    refine teardown_kept (h.begun c) (fun hres => begun_recorded c w ?_) hsafe
    rw [← resumes_begun c w]
    exact hres
  | other rows stale files =>
    simp only [step, hopen, Option.some.injEq] at hstep
    subst hstep
    refine h.of_rows stale files (fun r hr htab => List.mem_append_left _ ?_)
    exact List.mem_filter.mpr ⟨hr, by simp [htab, relayTables]⟩

theorem start_kept : Kept start where
  sound :=
    { database := rfl
      titled := fun p hp => absurd hp List.not_mem_nil
      claimed := fun p hp => absurd hp List.not_mem_nil
      parsed := fun text h => by cases h
      journals := Table.All.empty }
  covered := fun p hp => absurd hp List.not_mem_nil

/-- **`relay.json` covers every relationship that is not torn down**, in every
run in which a pairing overwrites no entry of another relationship, a resumed
teardown has a journal that keeps all entries of the others, and no teardown
stops with entries of others to write back. -/
theorem relay_covers_recorded {w : World} (h : machine.Reach RelaySafe w) : Covered w := by
  have hkept : Kept w := by
    refine h.invariant ?_ ?_
    · intro s hs
      rw [show s = start from hs]
      exact start_kept
    · exact fun s a t hs hsafe hstep => step_kept hs hsafe hstep
  exact hkept.covered

/-! ## A run -/

/-- A relationship that this installation commits over GitHub. -/
def alice : Pairing where
  relationship_id := "11111111-1111-4111-8111-111111111111"
  transport := .github
  relay_url := "https://github.com/org/a.git"
  private_key_ref := "/s/keys/11111111-1111-4111-8111-111111111111/epoch1.key"
  deploy_public_key := "ssh-ed25519 AAAA1"
  key_id := some "101"
  inviter_public_key := "ssh-ed25519 AAAA2"
  inviter_key_id := some "102"

/-- Another one. -/
def bob : Pairing where
  relationship_id := "22222222-2222-4222-8222-222222222222"
  transport := .github
  relay_url := "https://github.com/org/b.git"
  private_key_ref := "/s/keys/22222222-2222-4222-8222-222222222222/epoch1.key"
  deploy_public_key := "ssh-ed25519 BBBB1"
  key_id := some "201"
  inviter_public_key := "ssh-ed25519 BBBB2"
  inviter_key_id := some "202"

/-- A teardown of the first relationship in which the provider confirms every
request. -/
def revokeAlice : TeardownCall where
  relationship_id := alice.relationship_id
  token := some "token"
  provider := fun _ => .status 204
  state_dir := "/s"
  revoked_at := "2026-01-01T00:00:00Z"
  digest := fun _ => "d1"
  image := fun _ _ => ⟨"SQLite format 3", 4096⟩

/-- One relationship after the other. -/
theorem relay_covers_second_pairing :
    ∃ w, machine.run start [.pairCommit alice, .teardown revokeAlice, .pairCommit bob] = some w ∧
      w.recorded.length = 1 ∧ Covered w := by
  have hlen : (machine.run start [.pairCommit alice, .teardown revokeAlice, .pairCommit bob]).map
      (fun w => w.recorded.length) = some 1 := by decide +kernel
  have hok : machine.okRun RelaySafe start
      [.pairCommit alice, .teardown revokeAlice, .pairCommit bob] := by decide +kernel
  obtain ⟨w, hw, hone⟩ := Option.map_eq_some_iff.mp hlen
  exact ⟨w, hw, hone, relay_covers_recorded (Machine.Reach.run (.start rfl) hok hw)⟩

instance (w : World) : Decidable (Covered w) :=
  inferInstanceAs (Decidable (∀ p ∈ w.recorded,
    (∀ e ∈ p.2.deploy_keys, e ∈ relayKeys w.relay) ∧ ∀ e ∈ p.2.repos, e ∈ relayRepos w.relay))

/-- The second of two pairings overwrites the entries of the first. -/
theorem second_pairing_overwrites : ∃ w, machine.Reachable w ∧ ¬Covered w := by
  have hlost : (machine.run start [.pairCommit alice, .pairCommit bob]).map
      (fun w => decide (Covered w)) = some false := by decide +kernel
  obtain ⟨w, hw, hcov⟩ := Option.map_eq_some_iff.mp hlost
  exact ⟨w, Machine.reachable_of_run rfl hw, of_decide_eq_false hcov⟩

end MuseAgentSocial.Teardown
