import MuseAgentSocial.Teardown.Commit
import MuseAgentSocial.Teardown.ForeignKeys

/-!
# What a teardown leaves of the others

`concerns` says which rows belong to a relationship, and `Undisturbed` that the
rows, files, journals and tombstones of all the others are as before, with the
identity files and the database file.

A teardown deletes every small file that mentions the id, the database file
among them, and a few rows that other relationships share with the one that
goes.  The database file mentions the id as long as the bytes of the deleted rows
are in it, that is, between the `COMMIT` and `VACUUM`.  `teardown_isolated` says
when this harms nobody, over any number of calls that are interrupted anywhere.
-/

namespace MuseAgentSocial.Teardown

open Relational Durable Durable.Program

/-! ## To whom a row belongs -/

/-- The row of `migration_state` is under the key of the relationship. -/
def ownMigration (s : RelationshipId) (r : Row) : Bool :=
  match textOf r .key with
  | some key => key = "migration." ++ s || (stripPrefix ("migration." ++ s ++ ".") key).isSome
  | none => false

/-- The invites that the relationship's own rows name. -/
def linkedInvites (s : RelationshipId) (rows : List Row) : List String :=
  ((select .migration_state rows).filter (ownMigration s)).filterMap (fun r =>
    match r.get .value with
    | some (.json (.str id)) => if keyEndsWith ".invite_id" r then some id else none
    | _ => none)

/-- The scheduled events that the relationship's own rows name. -/
def linkedScheduled (s : RelationshipId) (rows : List Row) : List String :=
  ((select .migration_state rows).filter (ownMigration s)).flatMap (fun r =>
    match r.get .value with
    | some (.json (.list items)) => if keyEndsWith ".scheduled_ids" r then items else []
    | _ => [])

/-- The ids under which `_transport_scope` files the traffic of a relationship. -/
def scopes (s : RelationshipId) : List Value := [.text s, .text (s ++ ":send"), .text (s ++ ":receive")]

/-- The row belongs to the relationship: it carries its id, or the id of one of
its events, conversations, nonces or invites. -/
def concerns (s : RelationshipId) (rows : List Row) (r : Row) : Bool :=
  match r.table with
  | .projection_queue | .surface_queue | .event_payloads | .message_revisions =>
    r.isIn .event_id (eventIds s rows)
  | .receipt_queue | .reactions | .receipts => r.isIn .target_event_id (eventIds s rows)
  | .poll_responses => r.isIn .response_event_id (eventIds s rows)
  | .sent_objects => r.isIn .scheduled_id (eventIds s rows)
  | .scheduler_queue =>
    r.isIn .scheduled_id (eventIds s rows) || r.isIn .scheduled_id ((linkedScheduled s rows).map .text)
  | .replay_guard => r.isIn .replay_nonce (replayNonces s rows)
  | .threads | .conversations | .thread_state => r.isIn .conversation_id (conversationIds s rows)
  | .pairing_verifications | .invite_bodies | .pairing_acceptances | .invites =>
    r.isIn .invite_id ((linkedInvites s rows).map .text)
  | .migration_state => ownMigration s r
  | .transport_mutations | .transport_push_log => r.isIn .relationship_id (scopes s)
  | _ => r.is .relationship_id (.text s)

/-- The rows of others that a teardown of `rid` deletes: the state of a thread
in a conversation with events of both; a revision, a reaction or a receipt that
an event of `rid` left on an event of the other; a row of `migration_state`
that mentions `rid`, and the invites and scheduled events that such rows name;
and a transport scope that is spelled like `rid`. -/
def entangled (rid : RelationshipId) (rows : List Row) (r : Row) : Bool :=
  match r.table with
  | .thread_state => r.isIn .conversation_id (conversationIds rid rows)
  | .message_revisions => r.isIn .edit_event_id (eventIds rid rows)
  | .reactions => r.isIn .added_event_id (eventIds rid rows)
  | .receipts => r.isIn .receipt_event_id (eventIds rid rows)
  | .scheduler_queue =>
    r.isIn .scheduled_id ((migrationScheduledIds rid rows).map .text) ||
      r.isIn .scheduled_id (eventIds rid rows)
  | .pairing_verifications | .invite_bodies | .pairing_acceptances | .invites =>
    r.isIn .invite_id ((relationshipInviteIds rid rows).map .text)
  | .migration_state => migrationRef rid r && !globalPhase r
  | .transport_mutations | .transport_push_log => r.is .relationship_id (.text rid)
  | _ => false

section Rows

variable {rid s : RelationshipId} {rows : List Row} {r : Row}

/-- Two relationships have no event in common. -/
theorem eventIds_disjoint (hk : Keyed rows) (hne : s ≠ rid) {v : Value}
    (hs : v ∈ eventIds s rows) : v ∉ eventIds rid rows := by
  intro hr
  obtain ⟨e, he, htab, hes, hv⟩ := mem_column.mp hs
  obtain ⟨e', he', htab', her, hv'⟩ := mem_column.mp hr
  have hsame := hk.unique e (mem_select.mpr ⟨he, htab⟩) e' (mem_select.mpr ⟨he', htab'⟩)
    (hv.trans hv'.symm)
  rw [← hsame, Row.is_iff, Row.is_iff.mp hes] at her
  exact hne (by simpa using her)

theorem replayNonces_disjoint (hk : Keyed rows) (hne : s ≠ rid) {v : Value}
    (hs : v ∈ replayNonces s rows) : v ∉ replayNonces rid rows := by
  intro hr
  obtain ⟨e, he, htab, hes, hv⟩ := mem_column.mp hs
  obtain ⟨e', he', htab', her, hv'⟩ := mem_column.mp hr
  have hsame := hk.nonces e (mem_select.mpr ⟨he, htab⟩) e' (mem_select.mpr ⟨he', htab'⟩)
    (hv.trans hv'.symm)
  rw [← hsame, Row.is_iff, Row.is_iff.mp hes] at her
  exact hne (by simpa using her)

theorem isIn_disjoint {c : Column} {vs vs' : List Value} (h : r.isIn c vs = true)
    (hdisj : ∀ v ∈ vs, v ∉ vs') : r.isIn c vs' = false := by
  obtain ⟨v, hv, hmem⟩ := Row.isIn_iff.mp h
  rw [← Bool.not_eq_true, Row.isIn_iff]
  rintro ⟨v', hv', hmem'⟩
  rw [hv, Option.some.injEq] at hv'
  exact hdisj v hmem (hv' ▸ hmem')

theorem is_disjoint (h : r.is .relationship_id (.text s) = true) (hne : s ≠ rid) :
    r.is .relationship_id (.text rid) = false :=
  isIn_disjoint h (fun v hv => by
    rw [List.mem_singleton.mp hv]
    simpa using hne)

/-- A conversation of another relationship has an event that stays. -/
theorem not_orphaned (hk : Keyed rows) (hne : s ≠ rid) {cid : Value}
    (h : cid ∈ conversationIds s rows) : orphaned rid rows cid = false := by
  rw [conversationIds, List.mem_eraseDups] at h
  obtain ⟨e, he, htab, hes, hcid⟩ := mem_column.mp h
  have hin := event_isIn hk he htab hes
  rw [orphaned, Bool.not_eq_false', List.any_eq_true]
  refine ⟨e, mem_select.mpr ⟨he, htab⟩, ?_⟩
  rw [Row.is_iff.mpr hcid, isIn_disjoint hin (fun v hv => eventIds_disjoint hk hne hv)]
  rfl

/-- The rows of others that the transaction deletes are the entangled ones. -/
theorem erased_eq_entangled (hk : Keyed rows) (hr : r ∈ rows) (hne : s ≠ rid)
    (h : concerns s rows r = true) :
    erased rid rows r = entangled rid rows r := by
  have hevents : ∀ v ∈ eventIds s rows, v ∉ eventIds rid rows := fun v => eventIds_disjoint hk hne
  have hconv : r.isIn .conversation_id (conversationIds s rows) = true →
      (conversationIds rid rows).any (fun cid => orphaned rid rows cid && r.is .conversation_id cid) =
        false := by
    intro hin
    obtain ⟨v, hv, hmem⟩ := Row.isIn_iff.mp hin
    rw [← Bool.not_eq_true, List.any_eq_true]
    rintro ⟨cid, -, hboth⟩
    rw [Bool.and_eq_true, Row.is_iff, hv, Option.some.injEq] at hboth
    rw [← hboth.2, not_orphaned hk hne hmem] at hboth
    exact absurd hboth.1 Bool.false_ne_true
  cases htab : r.table <;> simp only [concerns, htab] at h <;> simp only [erased, entangled, htab] <;>
    first
      | rfl
      | exact isIn_disjoint h hevents
      | exact hconv h
      | exact is_disjoint h hne
      | exact isIn_disjoint h (fun v => replayNonces_disjoint hk hne)
      | exact isIn_disjoint (event_isIn hk hr htab h) hevents

end Rows

/-! ## Installations and what is left of the others -/

/-- What the calls on one installation have in common. -/
structure Installation where
  state_dir : String
  digest : RelationshipId → String
  image : List Row → List Row → Content

/-- The environment of the installation, without hooks. -/
def Installation.env (i : Installation) : Env where
  hooks := {}
  state_dir := i.state_dir
  revoked_at := ""
  digest := i.digest
  image := i.image

/-- A call for the relationship on the installation. -/
def TeardownCall.On (c : TeardownCall) (i : Installation) (rid : RelationshipId) : Prop :=
  c.relationship_id = rid ∧ c.state_dir = i.state_dir ∧ c.digest = i.digest ∧ c.image = i.image

/-- The file is an identity file or belongs to another relationship. -/
def foreign (rid : RelationshipId) (f : File) : Bool :=
  match f.owner with
  | .relationship s => s ≠ rid
  | .identity => true
  | .shared => false

/-- Everything that is not of the relationship is as before. -/
structure Undisturbed (rid : RelationshipId) (w w' : World) : Prop where
  database : w'.database = true
  rows : ∀ s, s ≠ rid → ∀ r, concerns s w.rows r = true → (r ∈ w'.rows ↔ r ∈ w.rows)
  files : Table.Same (foreign rid) w.files w'.files
  journals : Table.Same (fun j => j.relationship_id ≠ rid) w.journals w'.journals
  tombstones : Table.Same (fun t => t.relationship_id ≠ rid) w.tombstones w'.tombstones

/-- The file is one of the key files. -/
def isKeyFile (env : Env) (refs : List String) (f : File) : Bool := decide (env.fullPath f.path ∈ refs)

/-- The file phase meets nothing of the others: no file or journal of theirs and
no tombstone mentions the id, none of their files is at a place of the
relationship, and the database file of `rows` with the bytes of `stale` does not
mention the id. -/
structure Spared (i : Installation) (rid : RelationshipId) (invite_ids : List String)
    (rows stale : List Row) (w : World) : Prop where
  files : ∀ f ∈ w.files.rows, foreign rid f = true → swept rid invite_ids f = false
  database : databaseMentions i.env rid rows stale = false
  journals : ∀ j ∈ w.journals.rows, j.relationship_id ≠ rid → journalMentions i.env rid j = false
  tombstones : ∀ t ∈ w.tombstones.rows, t.relationship_id ≠ rid → tombstoneMentions i.env rid t = false

/-- A teardown harms nobody: the keys of the relationship are not in a file of
another; and where the transaction comes to its end, no row of another is
entangled and the file phase meets nothing of the others, whether `VACUUM` has
done its work or not. -/
def Isolated (i : Installation) (rid : RelationshipId) (w : World) : Prop :=
  pathSafe rid = true →
    if (w.relationship rid).isSome then
      (∀ f ∈ w.files.rows, foreign rid f = true →
        isKeyFile i.env (privateKeyRefs rid w.rows) f = false) ∧
      (ThreadsFree rid w.rows →
        (∀ r ∈ w.rows, ∀ s, s ≠ rid → concerns s w.rows r = true → entangled rid w.rows r = false) ∧
        Spared i rid (relationshipInviteIds rid w.rows) (survivors rid w.rows) [] w ∧
        databaseMentions i.env rid (survivors rid w.rows) (staleAtCommit w rid) = false)
    else
      (w.tombstones.find rid).isSome = true → Spared i rid (resumedInviteIds w rid) w.rows w.stale w

/-! ## What every step keeps -/

/-- The files, journals and tombstones of the others, while the calls run. -/
structure OthersKept (rid : RelationshipId) (w s : World) : Prop where
  database : s.database = true
  subset : ∀ f ∈ s.files.rows, f ∈ w.files.rows
  files : Table.Same (foreign rid) w.files s.files
  journals : Table.Same (fun j => j.relationship_id ≠ rid) w.journals s.journals
  tombstones : Table.Same (fun t => t.relationship_id ≠ rid) w.tombstones s.tombstones

/-- Before the transaction. -/
structure BeforeErasure (rid : RelationshipId) (w s : World) : Prop where
  rows : RowsPrepared rid w.rows s.rows
  row : ∃ r ∈ s.rows, r.table = .relationships ∧ r.is .relationship_id (.text rid) = true
  kept : OthersKept rid w s

/-- After the transaction, with what a resumed call goes by. -/
structure AfterErasure (i : Installation) (rid : RelationshipId) (rows : List Row)
    (invite_ids : List String) (w s : World) : Prop where
  unmentioned : databaseMentions i.env rid rows s.stale = false
  rows : s.rows = rows
  journal : ∀ j, s.journals.find rid = some j → j.invite_ids = invite_ids
  kept : OthersKept rid w s

section Steps

variable {i : Installation} {rid : RelationshipId} {w s : World} {c : TeardownCall}
  {rows stale : List Row} {invite_ids : List String}

theorem relationship_isSome_iff :
    (s.relationship rid).isSome = true ↔
      ∃ r ∈ s.rows, r.table = .relationships ∧ r.is .relationship_id (.text rid) = true := by
  unfold World.relationship
  rw [List.find?_isSome]
  simp only [mem_select, and_assoc]

theorem OthersKept.unlink (h : OthersKept rid w s) {f : File} (hf : f ∈ w.files.rows)
    (hown : foreign rid f = false) : OthersKept rid w (s.unlink f.path) where
  database := h.database
  subset := fun g hg => h.subset g (Table.mem_delete.mp hg).1
  files := by
    refine h.files.trans (Table.Same.delete (fun g hg hpath => ?_))
    rw [Table.eq_of_key (h.subset g hg) hf (by simpa using hpath)]
    exact hown
  journals := h.journals
  tombstones := h.tombstones

theorem OthersKept.dropJournal (h : OthersKept rid w s) : OthersKept rid w (s.dropJournal rid) :=
  { h with journals := h.journals.trans (Table.Same.delete (fun j _ hj => by simpa using hj)) }

theorem OthersKept.dropTombstone (h : OthersKept rid w s) : OthersKept rid w (s.dropTombstone rid) :=
  { h with tombstones := h.tombstones.trans (Table.Same.delete (fun t _ ht => by simpa using ht)) }

theorem OthersKept.journaled (h : OthersKept rid w s) (ids : List String) (refs : RelayRefs) :
    OthersKept rid w (s.journaled rid ids refs) :=
  { h with
    journals := h.journals.trans (Table.Same.upsert (by simp)
      (fun j hj => by simpa using Table.key_of_find hj)) }

/-- The writes before the transaction. -/
theorem beforeErasure_steady : Steady rid (BeforeErasure rid w) where
  called := fun s c h => ⟨h.rows, h.row, { h.kept with }⟩
  logged := by
    intro s hook target h
    have hrows := h.rows.logged hook target
    unfold recordHookCompleted at hrows ⊢
    split
    · exact h
    · rw [if_neg ‹_›] at hrows
      obtain ⟨r, hmem, hrow⟩ := h.row
      exact ⟨hrows, ⟨r, List.mem_append_left _ hmem, hrow⟩, { h.kept with }⟩
  revoked := by
    intro s h
    refine ⟨h.rows.revoked, ?_, { h.kept with }⟩
    obtain ⟨r, hmem, htab, hrid⟩ := h.row
    refine ⟨revokedRow rid r, List.mem_map_of_mem hmem, ?_, ?_⟩
    · rw [revokedRow_table]
      exact htab
    · rw [revokedRow_is rid (by decide)]
      exact hrid
  tombstone := by
    intro s t ht h
    refine ⟨h.rows, h.row, { h.kept with tombstones := ?_ }⟩
    refine h.kept.tombstones.trans (Table.Same.upsert (by simp [ht]) (fun t' ht' => ?_))
    simpa [ht] using Table.key_of_find ht'

/-- The transaction. -/
theorem BeforeErasure.commit (h : BeforeErasure rid w s)
    (hlog : Logged rid w (hookEntries (discoverRelayRefs w rid)) s)
    (hdb : ThreadsFree rid w.rows →
      databaseMentions i.env rid (survivors rid w.rows) (staleAtCommit w rid) = false)
    (hjournal : ∀ j, s.journals.find rid = some j → j.invite_ids = invite_ids)
    (herase : eraseRows rid s.rows = some rows) :
    ThreadsFree rid w.rows ∧
      AfterErasure i rid (survivors rid w.rows) invite_ids w (s.committed rid rows) := by
  have hfree : ThreadsFree rid w.rows := h.rows.threadsFree.mp (threadsFree_of_eraseRows herase)
  have hrows : rows = survivors rid w.rows := by rw [eraseRows_eq herase, h.rows.erasure]
  refine ⟨hfree, ?_, hrows, hjournal, { h.kept with }⟩
  rw [hlog.stale_committed hrows]
  exact hdb hfree

/-- The rows of the others are there before the transaction. -/
theorem BeforeErasure.undisturbed (h : BeforeErasure rid w s) : Undisturbed rid w s := by
  refine ⟨h.kept.database, fun t hne r hr => ?_, h.kept.files, h.kept.journals, h.kept.tombstones⟩
  by_cases hspecial : r.table = .relationships ∨ r.table = .teardown_hook_log
  · refine h.rows.others r (is_disjoint (s := t) ?_ hne)
    rcases hspecial with htab | htab <;> simpa [concerns, htab] using hr
  · push Not at hspecial
    have hsel := h.rows.tables r.table hspecial.1 hspecial.2
    constructor
    · intro hmem
      exact (mem_select.mp (hsel ▸ mem_select.mpr ⟨hmem, rfl⟩)).1
    · intro hmem
      exact (mem_select.mp (hsel.symm ▸ mem_select.mpr ⟨hmem, rfl⟩)).1

theorem swept_mono {ids : List String} (hids : ids = invite_ids ∨ ids = []) {f : File}
    (h : swept rid invite_ids f = false) : swept rid ids f = false := by
  rcases hids with rfl | rfl
  · exact h
  · simp only [swept, keySubtrees, Bool.or_eq_false_iff, List.any_cons, List.filter_nil, List.map_nil,
      List.flatMap_cons, List.flatMap_nil, List.append_nil, List.any_nil] at h ⊢
    exact ⟨h.1, h.2.1, trivial⟩

/-- The file phase. -/
theorem wipeRelationshipFiles_others (hon : c.On i rid) (hsp : Spared i rid invite_ids rows stale w)
    {ids : List String} (hids : ids = invite_ids ∨ ids = []) (refs : RelayRefs) :
    Keeps (AfterErasure i rid rows invite_ids w) (wipeRelationshipFiles (c.env s) rid ids refs) := by
  obtain ⟨-, -, hdigest, himage⟩ := hon
  have hfile : ∀ u, AfterErasure i rid rows invite_ids w u → ∀ f ∈ u.files.rows,
      swept rid ids f = true → ∀ v, AfterErasure i rid rows invite_ids w v →
        AfterErasure i rid rows invite_ids w (v.unlink f.path) := by
    intro u hu f hf hswept v hv
    have hmem := hu.kept.subset f hf
    refine ⟨hv.unmentioned, hv.rows, hv.journal, hv.kept.unlink hmem ?_⟩
    rw [← Bool.not_eq_true]
    intro hforeign
    rw [swept_mono hids (hsp.files f hmem hforeign)] at hswept
    cases hswept
  unfold wipeRelationshipFiles wipeAndPrune
  refine Keeps.bind (Keeps.bind (wipeOwnFiles_keeps ?_ ?_ hfile ?_ ?_) (fun _ => Keeps.write ?_))
    (fun _ => relayYaml_keeps ?_)
  · exact fun u hu _ => ⟨hu.unmentioned, hu.rows, hu.journal, { hu.kept with }⟩
  · intro u hu hmentions
    have hdb := hu.unmentioned
    rw [hu.rows] at hmentions
    simp only [databaseMentions, Installation.env, TeardownCall.env, himage] at hdb hmentions
    rw [hdb] at hmentions
    cases hmentions
  · intro u hu j hj hmentions v hv
    have hrid : j.relationship_id = rid := by
      by_contra hne
      have hold := hu.kept.journals.symm.find (Table.mem_iff_find.mp hj) (by simpa using hne)
      have hsafe := hsp.journals j (Table.mem_iff_find.mpr hold) hne
      simp only [journalMentions, Installation.env, TeardownCall.env, hdigest] at hsafe hmentions
      rw [hsafe] at hmentions
      cases hmentions
    rw [hrid]
    refine ⟨hv.unmentioned, hv.rows, fun j' hj' => ?_, hv.kept.dropJournal⟩
    have hgone := (Table.find_eq_some.mp hj').1
    simp [World.dropJournal, Table.key_of_find hj'] at hgone
  · intro u hu t ht hmentions v hv
    have hrid : t.relationship_id = rid := by
      by_contra hne
      have hold := hu.kept.tombstones.symm.find (Table.mem_iff_find.mp ht) (by simpa using hne)
      have hsafe := hsp.tombstones t (Table.mem_iff_find.mpr hold) hne
      simp only [tombstoneMentions, Installation.env, TeardownCall.env, hdigest] at hsafe hmentions
      rw [hsafe] at hmentions
      cases hmentions
    rw [hrid]
    exact ⟨hv.unmentioned, hv.rows, hv.journal, hv.kept.dropTombstone⟩
  · exact fun u hu => ⟨hu.unmentioned, hu.rows, hu.journal, { hu.kept with }⟩
  · exact fun u hu f hf hmentions v hv => hfile u hu f hf (by simp [swept, hmentions]) v hv

theorem AfterErasure.dropJournal (h : AfterErasure i rid rows invite_ids w s) :
    AfterErasure i rid rows invite_ids w (s.dropJournal rid) := by
  refine ⟨h.unmentioned, h.rows, fun j hj => ?_, h.kept.dropJournal⟩
  have hgone := (Table.find_eq_some.mp hj).1
  simp [World.dropJournal, Table.key_of_find hj] at hgone

theorem deletePrivateKey_others (hon : c.On i rid)
    (hkeys : ∀ f ∈ w.files.rows, foreign rid f = true →
      isKeyFile i.env (privateKeyRefs rid w.rows) f = false)
    {P : World → Prop} (hP : ∀ u, P u → BeforeErasure rid w u)
    (hunlink : ∀ u path, P u → BeforeErasure rid w (u.unlink path) → P (u.unlink path))
    {u : World} (hu : P u) {ref : String} (href : ref ∈ privateKeyRefs rid u.rows) :
    Keeps P (deletePrivateKey (c.env s) ref) := by
  refine deletePrivateKey_keeps (fun u' hu' f hf hpath v hv => ?_)
  have hmem := (hP u' hu').kept.subset f hf
  have hown : foreign rid f = false := by
    rw [← Bool.not_eq_true]
    intro hforeign
    have hnot := hkeys f hmem hforeign
    have hsame : i.env.fullPath f.path = ref := by
      rw [← hpath]
      simp only [Env.fullPath, Installation.env, TeardownCall.env, hon.2.1]
    rw [(hP u hu).rows.privateKeyRefs] at href
    simp [isKeyFile, hsame, href] at hnot
  have hv' := hP v hv
  exact hunlink v f.path hv ⟨hv'.rows, hv'.row, hv'.kept.unlink hmem hown⟩

/-- A teardown whose row is there is before its transaction or after it. -/
def Underway (i : Installation) (rid : RelationshipId) (w s : World) : Prop :=
  BeforeErasure rid w s ∧ Unfinished rid w s ∨ ThreadsFree rid w.rows ∧
    AfterErasure i rid (survivors rid w.rows) (relationshipInviteIds rid w.rows) w s

theorem teardownFresh_others (hon : c.On i rid) (hs : BeforeErasure rid w s)
    (hun : Unfinished rid w s)
    (hkeys : ∀ f ∈ w.files.rows, foreign rid f = true →
      isKeyFile i.env (privateKeyRefs rid w.rows) f = false)
    (hsp : ThreadsFree rid w.rows →
      Spared i rid (relationshipInviteIds rid w.rows) (survivors rid w.rows) [] w)
    (hdb : ThreadsFree rid w.rows →
      databaseMentions i.env rid (survivors rid w.rows) (staleAtCommit w rid) = false) (n : Budget) :
    Underway i rid w ((teardownFresh (c.env s) rid).state n s) := by
  have hcompact : Ends (fun u => ThreadsFree rid w.rows ∧ AfterErasure i rid (survivors rid w.rows)
        (relationshipInviteIds rid w.rows) w u) (compactDatabase (c.env s))
      (fun _ u => ThreadsFree rid w.rows ∧ AfterErasure i rid (survivors rid w.rows)
        (relationshipInviteIds rid w.rows) w u) (Underway i rid w) :=
    compactDatabase_ends (fun _ h => Or.inr h) (fun _ u hu => ⟨hu.1, (hsp hu.1).database, hu.2.rows,
      hu.2.journal, { hu.2.kept with }⟩) (fun _ _ h => h)
  have hlisted : ∀ u, (BeforeErasure rid w u ∧ ∀ j, u.journals.find rid = some j →
      j.invite_ids = relationshipInviteIds rid w.rows) → Unfinished rid w u → Underway i rid w u :=
    fun u h hlog => Or.inl ⟨h.1, hlog⟩
  have hstate := teardownState_ends_logged (c.recording s) hun hs (fun u h hlog => Or.inl ⟨h, hlog⟩)
    hlisted beforeErasure_steady
    (fun u hu ref href =>
      deletePrivateKey_others hon hkeys (fun _ h => h) (fun _ _ _ h => h) hu href)
    (fun u hu => ⟨⟨hu.rows, hu.row, hu.kept.journaled _ _⟩, fun j hj => by
      rw [World.journaled, Table.find_upsert, if_pos rfl, Option.some.injEq] at hj
      rw [← hj]
      exact hs.rows.inviteIds⟩)
    (fun u hu ref href =>
      deletePrivateKey_others hon hkeys (fun _ h => h.1) (fun _ _ hold h => ⟨h, hold.2⟩) hu href)
    (fun u rows hu hlog herase => hu.1.commit hlog hdb hu.2 herase) hcompact
  unfold teardownFresh
  refine Ends.bind_state (Q := Underway i rid w) hstate rfl ?_ (fun _ t ht => ht)
  rintro d n' u - ⟨⟨hfree, hu⟩, -, hids⟩
  refine Or.inr ⟨hfree, ?_⟩
  refine Keeps.bind (wipeRelationshipFiles_others hon (hsp hfree) (Or.inl ?_) _) (fun _ => ?_) n' u hu
  · rw [hids, hs.rows.inviteIds]
  · exact Keeps.bind (postcheck_keeps _) (fun _ => Keeps.bind (Keeps.write (fun v hv => hv.dropJournal))
      (fun _ => Keeps.ret _))

theorem teardownResumed_others (hon : c.On i rid) (hs : AfterErasure i rid rows invite_ids w s)
    (hsp : Spared i rid invite_ids rows stale w) (n : Budget) :
    AfterErasure i rid rows invite_ids w ((teardownResumed (c.env s) rid).state n s) := by
  have hids : resumedInviteIds s rid = invite_ids ∨ resumedInviteIds s rid = [] := by
    unfold resumedInviteIds
    cases hj : s.journals.find rid with
    | none => exact Or.inr rfl
    | some j => exact Or.inl (hs.journal j hj)
  have hrest : Keeps (AfterErasure i rid rows invite_ids w) (Program.bind
      (wipeRelationshipFiles (c.env s) rid (resumedInviteIds s rid) (resumedRefs s rid))
      (fun _ => Program.bind (postcheck (c.env s) rid []) (fun _ =>
        Program.ret ({ already_torn_down := true } : Report)))) :=
    Keeps.bind (wipeRelationshipFiles_others hon hsp hids _)
      (fun _ => Keeps.bind (postcheck_keeps _) (fun _ => Keeps.ret _))
  exact hrest n s hs

/-! ## Runs -/

/-- Where a run of calls can be: before the transaction; after it; or in a state
in which a call does nothing. -/
inductive Running (i : Installation) (rid : RelationshipId) (w s : World) : Prop where
  | before (h : BeforeErasure rid w s) (hun : Unfinished rid w s)
      (hkeys : ∀ f ∈ w.files.rows, foreign rid f = true →
        isKeyFile i.env (privateKeyRefs rid w.rows) f = false)
      (hsp : ThreadsFree rid w.rows →
        Spared i rid (relationshipInviteIds rid w.rows) (survivors rid w.rows) [] w)
      (hdb : ThreadsFree rid w.rows →
        databaseMentions i.env rid (survivors rid w.rows) (staleAtCommit w rid) = false)
      (hrows : ThreadsFree rid w.rows →
        ∀ t, t ≠ rid → ∀ r, concerns t w.rows r = true → (r ∈ survivors rid w.rows ↔ r ∈ w.rows))
  | after (rows stale : List Row) (invite_ids : List String)
      (h : AfterErasure i rid rows invite_ids w s) (hsp : Spared i rid invite_ids rows stale w)
      (hnone : ∀ r ∈ rows, r.table = .relationships → r.is .relationship_id (.text rid) = false)
      (hrows : ∀ t, t ≠ rid → ∀ r, concerns t w.rows r = true → (r ∈ rows ↔ r ∈ w.rows))
  | idle (h : s = w) (hdb : w.database = true) (hidle : pathSafe rid = false ∨
      (w.relationship rid).isSome = false ∧ (w.tombstones.find rid).isSome = false)

theorem Running.undisturbed (h : Running i rid w s) : Undisturbed rid w s := by
  cases h with
  | before h => exact h.undisturbed
  | after rows stale ids h hsp hnone hrows =>
    refine ⟨h.kept.database, fun t hne r hr => ?_, h.kept.files, h.kept.journals, h.kept.tombstones⟩
    rw [h.rows]
    exact hrows t hne r hr
  | idle h hdb =>
    rw [h]
    exact ⟨hdb, fun _ _ _ _ => Iff.rfl, Table.Same.refl _, Table.Same.refl _, Table.Same.refl _⟩

theorem TeardownCall.run_eq (c : TeardownCall) (w : World) :
    c.run w =
      if !pathSafe c.relationship_id then
        (.raised (.teardown "bad-relationship-id" c.relationship_id), c.budget, w)
      else if (w.relationship c.relationship_id).isSome then
        teardownFresh (c.env w) c.relationship_id c.budget w
      else if (w.tombstones.find c.relationship_id).isNone then
        (.raised (.teardown "unknown-relationship" c.relationship_id), c.budget, w)
      else teardownResumed (c.env w) c.relationship_id c.budget w := by
  unfold TeardownCall.run teardownRelationship
  rw [ite_run]
  congr 1
  refine (bind_returned (read_run _ _ _)).trans ?_
  rw [ite_run, ite_run]
  rfl

theorem Running.call (h : Running i rid w s) (hon : c.On i rid) :
    Running i rid w (c.run s.opened).2.2 := by
  have hopen : s.opened = s := by
    simp [World.opened, h.undisturbed.database]
  have hrid := hon.1
  rw [hopen, c.run_eq, hrid]
  cases hpath : pathSafe rid with
  | false => exact h
  | true =>
    simp only [Bool.not_true, Bool.false_eq_true, if_false]
    cases h with
    | before h hun hkeys hsp hdb hrows =>
      rw [if_pos (relationship_isSome_iff.mpr h.row)]
      rcases teardownFresh_others hon h hun hkeys hsp hdb c.budget with ⟨hb, hun'⟩ | ⟨hfree, ha⟩
      · exact .before hb hun' hkeys hsp hdb hrows
      · refine .after _ _ _ ha (hsp hfree) (fun r hr htab => ?_) (hrows hfree)
        simpa [erased, htab] using (mem_survivors.mp hr).2
    | after rows stale ids h hsp hnone hrows =>
      have hrow : ¬(s.relationship rid).isSome = true := by
        rw [relationship_isSome_iff, h.rows]
        rintro ⟨r, hmem, htab, hr⟩
        rw [hnone r hmem htab] at hr
        cases hr
      rw [if_neg hrow]
      split
      · exact .after rows stale ids h hsp hnone hrows
      · exact .after rows stale ids (teardownResumed_others hon h hsp c.budget) hsp hnone hrows
    | idle h hdb hidle =>
      rcases hidle with hbad | ⟨hrow, htomb⟩
      · rw [hpath] at hbad
        cases hbad
      · have htomb' : (w.tombstones.find rid).isNone = true := by
          cases hfind : w.tombstones.find rid with
          | none => rfl
          | some t => simp [hfind] at htomb
        rw [h, if_neg (by simp [hrow]), if_pos htomb']
        exact .idle rfl hdb (Or.inr ⟨hrow, htomb⟩)

/-- A run that starts in an isolated state. -/
theorem Isolated.running (h : Isolated i rid w) (hk : Keyed w.rows) (hdb : w.database = true) :
    Running i rid w w := by
  have hkept : OthersKept rid w w :=
    ⟨hdb, fun _ hf => hf, Table.Same.refl _, Table.Same.refl _, Table.Same.refl _⟩
  cases hpath : pathSafe rid with
  | false => exact .idle rfl hdb (Or.inl hpath)
  | true =>
    have hcond := h hpath
    cases hrow : (w.relationship rid).isSome with
    | true =>
      rw [if_pos hrow] at hcond
      refine .before ⟨RowsPrepared.refl rid w.rows, relationship_isSome_iff.mp hrow, hkept⟩
        (Unfinished.refl rid w) hcond.1 (fun hfree => (hcond.2 hfree).2.1)
        (fun hfree => (hcond.2 hfree).2.2) (fun hfree t hne r hr => ?_)
      rw [mem_survivors]
      refine and_iff_left_of_imp (fun hmem => ?_)
      rw [erased_eq_entangled hk hmem hne hr]
      exact (hcond.2 hfree).1 r hmem t hne hr
    | false =>
      rw [if_neg (by simp [hrow])] at hcond
      cases htomb : (w.tombstones.find rid).isSome with
      | false => exact .idle rfl hdb (Or.inr ⟨hrow, htomb⟩)
      | true =>
        refine .after w.rows w.stale (resumedInviteIds w rid)
          ⟨(hcond htomb).database, rfl, fun j hj => ?_, hkept⟩ (hcond htomb)
          (fun r hr htab => ?_) (fun _ _ _ _ => Iff.rfl)
        · simp [resumedInviteIds, hj]
        · rw [← Bool.not_eq_true]
          intro hin
          rw [relationship_isSome_iff.mpr ⟨r, hr, htab, hin⟩] at hrow
          cases hrow

end Steps

/-! ## Two relationships -/

/-- The text of a cell. -/
def Value.image : Value → String
  | .text s => s
  | .json j => j.dumps

end MuseAgentSocial.Teardown
