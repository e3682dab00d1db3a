import MuseAgentSocial.Policy.PlaintextCache

/-!
# Purge and scan

The purge of the plaintext cache trusts the opt-in of the database, and the scan trusts the
manifest in the directory.

* `purge_run` says what a purge that runs to its end leaves of each entry.
* `manifestCovers_iff`: on one record the scan covers a file exactly when the purge keeps it.
* `Covered` is the invariant: the manifest of every directory with a payload is the record of
  the database.
* `Spares` is the condition on a call: it is not cut where a payload is left without its
  manifest, and a payload is written under the manifest only.
* `purge_scan_agree`: the invariant holds in every run in which each call meets the condition,
  so the scan finds nothing after a purge, and flags exactly what the purge deletes.
-/

namespace MuseAgentSocial.Policy.Cache

open Json Canonical Calendar Cli Durable

variable {moment : Text} {now : DateTime} {seconds : Option Nat} {n : Budget}

section states

variable {F : Type} {s : State F} {name other : Text}

/-! ## Entries -/

theorem entry_modify (s : State F) (name other : Text) (f : Node F → Node F) :
    (s.modify name f).entry other = if other = name then (s.entry name).map f else s.entry other := by
  unfold State.entry State.modify
  rw [Table.find_modify]
  split_ifs
  · rw [Option.map_map, Option.map_map]
    rfl
  · rfl

theorem entry_remove (s : State F) (name other : Text) :
    (s.remove name).entry other = if other = name then none else s.entry other := by
  unfold State.entry State.remove
  rw [Table.find_delete]
  cases h : s.cache.find other with
  | none => simp
  | some e =>
    have hkey : e.1 = other := Table.key_of_find h
    rw [Option.filter_some, hkey]
    by_cases heq : other = name
    · simp [heq]
    · simp [heq]

theorem entry_of_mem {e : Text × Node F} (h : e ∈ s.cache.rows) : s.entry e.1 = some e.2 := by
  rw [State.entry, Table.mem_iff_find.mp h]
  rfl

theorem mem_of_entry {node : Node F} (h : s.entry name = some node) : (name, node) ∈ s.cache.rows := by
  obtain ⟨e, hfind, rfl⟩ := Option.map_eq_some_iff.mp h
  obtain rfl : e.1 = name := Table.key_of_find hfind
  exact Table.mem_iff_find.mpr hfind

/-- What becomes of an entry, while the documents and the other entries stay. -/
structure Becomes (s t : State F) (name : Text) (node : Option (Node F)) : Prop where
  rows : t.rows = s.rows
  entry : t.entry name = node
  others : ∀ other, other ≠ name → t.entry other = s.entry other

theorem becomes_modify (s : State F) (name : Text) (f : Node F → Node F) :
    Becomes s (s.modify name f) name ((s.entry name).map f) where
  rows := rfl
  entry := by rw [entry_modify, if_pos rfl]
  others other h := by rw [entry_modify, if_neg h]

theorem Becomes.modify {t : State F} {node : Option (Node F)} (h : Becomes s t name node) (f : Node F → Node F) :
    Becomes s (t.modify name f) name (node.map f) where
  rows := h.rows
  entry := by rw [entry_modify, if_pos rfl, h.entry]
  others other hne := by rw [entry_modify, if_neg hne, h.others other hne]

theorem Becomes.remove {t : State F} {node : Option (Node F)} (h : Becomes s t name node) :
    Becomes s (t.remove name) name none where
  rows := h.rows
  entry := by rw [entry_remove, if_pos rfl]
  others other hne := by rw [entry_remove, if_neg hne, h.others other hne]

/-- Files of one directory are removed, one after the other. -/
theorem becomes_unlink (xs : List (Text × File F)) (s : State F) (name : Text) :
    Becomes s (xs.foldl (fun t e => t.modify name (Node.unlink e.1)) s) name
      ((s.entry name).map (fun node => xs.foldl (fun node e => node.unlink e.1) node)) := by
  have hfold : ∀ (t : State F) (f : Node F → Node F), Becomes s t name ((s.entry name).map f) →
      Becomes s (xs.foldl (fun t e => t.modify name (Node.unlink e.1)) t) name
        ((s.entry name).map (fun node => xs.foldl (fun node e => node.unlink e.1) (f node))) := by
    induction xs with
    | nil => exact fun t f h => h
    | cons x xs ih =>
      intro t f h
      have hnext := h.modify (Node.unlink x.1)
      rw [Option.map_map] at hnext
      exact ih _ _ hnext
  exact hfold s id ⟨rfl, by simp, fun _ _ => rfl⟩

theorem unlink_run (xs : List (Text × File F)) (s : State F) (name : Text) :
    ∃ t, (Program.forEach xs fun e => Program.write (State.modify · name (Node.unlink e.1)) :
        Program (State F) (Exn F) Unit) none s = (.returned (), none, t) ∧
      Becomes s t name ((s.entry name).map (fun node => xs.foldl (fun node e => node.unlink e.1) node)) :=
  ⟨_, Program.forEach_none xs (fun _ _ _ => rfl) s, becomes_unlink xs s name⟩

theorem rmtree_run (files : Files F) (s : State F) (name : Text) :
    ∃ t, rmtree name (.dir files) none s = (.returned (), none, t) ∧ Becomes s t name none := by
  obtain ⟨u, hrun, hu⟩ := unlink_run files.rows s name
  refine ⟨u.remove name, ?_, hu.remove⟩
  rw [rmtree, Program.bind_returned hrun]
  rfl

/-- `rmtree` of a directory where the process dies: some of the files are gone, or all of
them and the directory. -/
theorem rmtree_cut (files : Files F) (s : State F) (name : Text) (k : Nat) :
    ∃ t, (rmtree name (.dir files) (some k) s = (.interrupted, some 0, t) ∧
        Becomes s t name
          ((s.entry name).map (fun node => (files.rows.take k).foldl (fun node e => node.unlink e.1) node))) ∨
      (rmtree name (.dir files) (some k) s = (.returned (), some (k - (files.rows.length + 1)), t) ∧
        Becomes s t name none) := by
  have hunlink := Program.forEach_write (ε := Exn F) (fun e s => State.modify s name (Node.unlink e.1)) files.rows k s
  have hbecomes := becomes_unlink (files.rows.take k) s name
  by_cases hlong : files.rows.length ≤ k
  · rw [if_pos hlong] at hunlink
    rw [rmtree, Program.bind_returned hunlink]
    obtain hzero | ⟨m, hm⟩ : k - files.rows.length = 0 ∨ ∃ m, k - files.rows.length = m + 1 := by
      cases k - files.rows.length with
      | zero => exact Or.inl rfl
      | succ m => exact Or.inr ⟨m, rfl⟩
    · rw [hzero]
      exact ⟨_, Or.inl ⟨rfl, hbecomes⟩⟩
    · rw [hm, show k - (files.rows.length + 1) = m by omega]
      exact ⟨_, Or.inr ⟨rfl, hbecomes.remove⟩⟩
  · rw [if_neg hlong, show k - files.rows.length = 0 by omega] at hunlink
    refine ⟨_, Or.inl ⟨?_, hbecomes⟩⟩
    rw [rmtree, Program.bind, hunlink]

theorem dir_unlink (xs : List (Text × File F)) (files : Files F) :
    ∃ files' : Files F, xs.foldl (fun node e => node.unlink e.1) (.dir files) = Node.dir files' ∧
      ∀ e, e ∈ files'.rows ↔ e ∈ files.rows ∧ ∀ x ∈ xs, e.1 ≠ x.1 := by
  induction xs generalizing files with
  | nil => exact ⟨files, rfl, by simp⟩
  | cons x xs ih =>
    obtain ⟨files', hfold, hmem⟩ := ih (files.delete (fun e => e.1 = x.1))
    refine ⟨files', hfold, fun e => ?_⟩
    rw [hmem, Table.mem_delete, List.forall_mem_cons, and_assoc]
    simp

theorem foldl_unlink (files : Files F) (p : Text × File F → Bool) :
    (files.rows.filter p).foldl (fun node e => node.unlink e.1) (.dir files) = Node.dir (files.delete p) := by
  have hfold : ∀ (xs : List (Text × File F)) (files' : Files F),
      xs.foldl (fun node e => node.unlink e.1) (.dir files') =
        Node.dir (xs.foldl (fun files' e => files'.delete (fun e' => e'.1 = e.1)) files') := by
    intro xs
    induction xs with
    | nil => exact fun _ => rfl
    | cons x xs ih => exact fun files' => ih _
  rw [hfold, Table.foldl_delete]

/-! ## The purge -/

/-- A file that the purge of a directory in force removes. -/
def purges (now : DateTime) (seconds : Option Nat) (e : Text × File F) : Bool :=
  seconds.any fun seconds => decide (e.1 ≠ MANIFEST_FILENAME) && tooOld now seconds e.2

/-- What the purge leaves of an entry. -/
def kept (rows : Relationships F) (moment : Text) (now : DateTime) (name : Text) : Node F → Option (Node F)
  | .file => none
  | .dir files =>
    match purgeStatus rows name moment with
    | .ok (true, seconds) => some (.dir (files.delete (purges now seconds)))
    | _ => none

theorem old_payloads (now : DateTime) (seconds : Nat) (files : Files F) :
    (payloads files).filter (fun e => tooOld now seconds e.2) = files.rows.filter (purges now (some seconds)) := by
  rw [payloads, List.filter_filter]
  apply List.filter_congr
  intro e _
  simp [purges, Bool.and_comm]

/-- The purge of one entry whose opt-in can be read. -/
theorem purgeEntry_run (now : DateTime) {node : Node F} (hentry : s.entry name = some node)
    (hstatus : ∃ status, purgeStatus s.rows name moment = .ok status) :
    ∃ n t, purgeEntry moment now name node none s = (.returned n, none, t) ∧
      Becomes s t name (kept s.rows moment now name node) := by
  cases node with
  | file => exact ⟨1, _, rfl, ⟨rfl, by rw [entry_remove, if_pos rfl]; rfl, fun other h => by rw [entry_remove, if_neg h]⟩⟩
  | dir files =>
    obtain ⟨⟨enabled, seconds⟩, hstatus⟩ := hstatus
    show ∃ n t, purgeFiles now name files (purgeStatus s.rows name moment) none s = _ ∧ _
    simp only [kept, hstatus]
    cases enabled with
    | false =>
      obtain ⟨t, hrun, ht⟩ := rmtree_run files s name
      refine ⟨countFiles (.dir files), t, ?_, ht⟩
      rw [purgeFiles, Program.bind_returned hrun]
      rfl
    | true =>
      cases seconds with
      | none =>
        refine ⟨0, s, rfl, ⟨rfl, ?_, fun _ _ => rfl⟩⟩
        rw [hentry]
        congr 2
        ext1
        simp [Table.delete, purges]
      | some seconds =>
        obtain ⟨t, hrun, ht⟩ := unlink_run ((payloads files).filter (fun e => tooOld now seconds e.2)) s name
        refine ⟨((payloads files).filter (fun e => tooOld now seconds e.2)).length, t, ?_, ?_⟩
        · rw [purgeFiles, Program.bind_returned hrun]
          rfl
        · rwa [hentry, Option.map_some, old_payloads, foldl_unlink] at ht

/-- The loop over entries that are still as they were. -/
theorem purgeEntries_run (now : DateTime) (entries : List (Text × Node F))
    (hnodup : (entries.map Prod.fst).Nodup) (s : State F) (removed : Nat)
    (hentries : ∀ e ∈ entries, s.entry e.1 = some e.2)
    (hstatus : ∀ e ∈ entries, ∃ status, purgeStatus s.rows e.1 moment = .ok status) :
    ∃ n t, purgeEntries moment now entries removed none s = (.returned n, none, t) ∧ t.rows = s.rows ∧
      (∀ e ∈ entries, t.entry e.1 = kept s.rows moment now e.1 e.2) ∧
      ∀ name, name ∉ entries.map Prod.fst → t.entry name = s.entry name := by
  induction entries generalizing s removed with
  | nil => exact ⟨removed, s, rfl, rfl, by simp, fun _ _ => rfl⟩
  | cons e entries ih =>
    rw [List.map_cons, List.nodup_cons] at hnodup
    rw [List.forall_mem_cons] at hentries hstatus
    obtain ⟨n, u, hrun, hu⟩ := purgeEntry_run now hentries.1 hstatus.1
    have hne : ∀ e' ∈ entries, e'.1 ≠ e.1 := fun e' he' heq => hnodup.1 (heq ▸ List.mem_map_of_mem he')
    obtain ⟨m, t, hrest, hrows, hkept, hothers⟩ := ih hnodup.2 u (removed + n)
      (fun e' he' => by rw [hu.others _ (hne e' he'), hentries.2 e' he'])
      (fun e' he' => by rw [hu.rows]; exact hstatus.2 e' he')
    rw [hu.rows] at hrows hkept
    refine ⟨m, t, ?_, hrows, ?_, fun name hname => ?_⟩
    · rw [purgeEntries, Program.bind_returned hrun, hrest]
    · rw [List.forall_mem_cons]
      exact ⟨by rw [hothers _ hnodup.1, hu.entry], hkept⟩
    · rw [List.map_cons, List.mem_cons, not_or] at hname
      rw [hothers name hname.2, hu.others name hname.1]

theorem purge_run (hnow : parseCanonicalUtc moment = some now)
    (hstatus : ∀ e ∈ s.cache.rows, ∃ status, purgeStatus s.rows e.1 moment = .ok status) :
    ∃ n t, purgeExpiredPlaintextCache moment none s = (.returned n, none, t) ∧ t.rows = s.rows ∧
      ∀ name, t.entry name = (s.entry name).bind (kept s.rows moment now name) := by
  obtain ⟨n, t, hrun, hrows, hkept, hothers⟩ := purgeEntries_run now s.cache.rows s.cache.nodup s 0
    (fun e he => entry_of_mem he) hstatus
  refine ⟨n, t, ?_, hrows, fun name => ?_⟩
  · rw [purgeExpiredPlaintextCache, hnow]
    dsimp only
    rw [Program.bind_returned (Program.read_run _ _ _), hrun]
  · cases hentry : s.entry name with
    | none =>
      refine (hothers name (fun hmem => ?_)).trans hentry
      obtain ⟨e, he, rfl⟩ := List.mem_map.mp hmem
      rw [entry_of_mem he] at hentry
      exact absurd hentry (by simp)
    | some node => exact hkept (name, node) (mem_of_entry hentry)

end states

/-! ## One record, two procedures -/

section agreement

variable {F : Type} {loads : List UInt8 → Option (Document F)}

theorem purgeStatus_eq_ok {rows : Relationships F} {name : Text} (moment : Text)
    {document record : Document F}
    (hload : loadPolicyDocument .retention_error rows name = .ok document)
    (hrecord : optinRecord document = some record)
    (hseconds : periodSeconds (field record "period") = .ok seconds) :
    purgeStatus rows name moment = .ok (inForce moment (field record "expires_at"), seconds) := by
  have hrow : ∃ column, rows name = some column := by
    unfold loadPolicyDocument at hload
    split at hload
    · exact absurd hload (by simp)
    · exact absurd hload (by simp)
    · exact ⟨_, by assumption⟩
  obtain ⟨column, hrow⟩ := hrow
  unfold purgeStatus plaintextCacheStatus
  rw [hrow, hload]
  simp only [Except.map, Except.bind, hrecord, hseconds]

theorem manifestCovers_iff {record : Document F} (f : File F)
    (hnow : parseCanonicalUtc moment = some now)
    (hseconds : periodSeconds (field record "period") = .ok seconds) :
    ∃ reason, manifestCovers (some record) now f = .ok reason ∧
      (reason = none ↔ inForce moment (field record "expires_at") = true ∧
        seconds.any (fun seconds => tooOld now seconds f) = false) := by
  have hage : ∃ reason, manifestCovers.age now f record = .ok reason ∧
      (reason = none ↔ seconds.any (fun seconds => tooOld now seconds f) = false) := by
    rw [manifestCovers.age, hseconds]
    cases seconds with
    | none => exact ⟨none, rfl, by simp⟩
    | some seconds => exact ⟨_, rfl, by simp⟩
  obtain ⟨reason, hreason, hiff⟩ := hage
  unfold manifestCovers inForce
  dsimp only
  rw [hnow]
  cases hexpires : field record "expires_at" with
  | none => exact ⟨reason, hreason, by simp [hiff]⟩
  | str t =>
    simp only [parseMoment]
    cases hparse : parseCanonicalUtc t with
    | none => exact ⟨_, rfl, by simp⟩
    | some e =>
      dsimp only
      split_ifs with hexpired
      · exact ⟨_, rfl, by simp; omega⟩
      · exact ⟨reason, hreason, by rw [hiff]; simp; omega⟩
  | _ => exact ⟨_, rfl, by simp [parseMoment]⟩

/-! ## The invariant -/

/-- The manifest of a directory is the record of its relationship. -/
def Manifested (rows : Relationships F) (name : Text) (files : Files F) : Prop :=
  ∃ document record st_mtime, files.find MANIFEST_FILENAME = some (MANIFEST_FILENAME, ⟨.object record, st_mtime⟩) ∧
    loadPolicyDocument .retention_error rows name = .ok document ∧ optinRecord document = some record

/-- The purge can read the opt-in of the relationship. -/
def Readable (rows : Relationships F) (name : Text) : Prop :=
  ∃ document, loadPolicyDocument .retention_error rows name = .ok document ∧
    ∀ record, optinRecord document = some record → ∃ seconds, periodSeconds (field record "period") = .ok seconds

/-- The entry is a directory without a payload, or its manifest is the record. -/
def Backed (rows : Relationships F) (name : Text) : Node F → Prop
  | .file => False
  | .dir files => Readable rows name ∧ (payloads files = [] ∨ Manifested rows name files)

/-- Every entry is backed. -/
def Covered (s : State F) : Prop := ∀ name node, s.entry name = some node → Backed s.rows name node

theorem mem_payloads {files : Files F} {e : Text × File F} :
    e ∈ payloads files ↔ e ∈ files.rows ∧ e.1 ≠ MANIFEST_FILENAME := by
  rw [payloads, List.mem_filter, decide_eq_true_iff]

theorem Backed.status {rows : Relationships F} {name : Text} {node : Node F} (h : Backed rows name node)
    (moment : Text) : ∃ status, purgeStatus rows name moment = .ok status := by
  cases node with
  | file => exact h.elim
  | dir files =>
    obtain ⟨⟨document, hload, hperiod⟩, -⟩ := h
    cases hrecord : optinRecord document with
    | some record =>
      obtain ⟨seconds, hseconds⟩ := hperiod record hrecord
      exact ⟨_, purgeStatus_eq_ok _ hload hrecord hseconds⟩
    | none =>
      unfold purgeStatus
      cases rows name with
      | none => exact ⟨_, rfl⟩
      | some column =>
        dsimp only
        rw [plaintextCacheStatus, hload]
        exact ⟨(false, none), by simp [Except.map, Except.bind, hrecord, periodSeconds]⟩

/-- The record of a directory with its period, as the purge and the scan look it up. -/
theorem Backed.record {rows : Relationships F} {name : Text} {files : Files F} (h : Backed rows name (.dir files))
    (loads : List UInt8 → Option (Document F)) (hpayload : payloads files ≠ []) :
    ∃ document record seconds, readManifest loads files = some record ∧
      loadPolicyDocument .retention_error rows name = .ok document ∧ optinRecord document = some record ∧
      periodSeconds (field record "period") = .ok seconds := by
  obtain ⟨⟨document', hload', hperiod⟩, hmanifest⟩ := h
  obtain ⟨document, record, st_mtime, hfind, hload, hrecord⟩ := hmanifest.resolve_left hpayload
  obtain rfl := Except.ok.inj (hload'.symm.trans hload)
  obtain ⟨seconds, hseconds⟩ := hperiod record hrecord
  exact ⟨document', record, seconds, by rw [readManifest, hfind], hload, hrecord, hseconds⟩

theorem Backed.files {rows : Relationships F} {name : Text} {files files' : Files F}
    (h : Backed rows name (.dir files)) (hpayloads : payloads files = [] → payloads files' = [])
    (hmanifest : payloads files' = [] ∨ files'.find MANIFEST_FILENAME = files.find MANIFEST_FILENAME) :
    Backed rows name (.dir files') := by
  obtain ⟨hreadable, hbare | hown⟩ := h
  · exact ⟨hreadable, Or.inl (hpayloads hbare)⟩
  · refine ⟨hreadable, hmanifest.imp_right (fun hsame => ?_)⟩
    obtain ⟨document, record, st_mtime, hfind, hrest⟩ := hown
    exact ⟨document, record, st_mtime, hsame.trans hfind, hrest⟩

/-- The documents of other relationships do not matter. -/
theorem Backed.rows {rows rows' : Relationships F} {name : Text} {node : Node F} (h : Backed rows name node)
    (hrows : rows' name = rows name) : Backed rows' name node := by
  have hload : loadPolicyDocument (F := F) .retention_error rows' name = loadPolicyDocument .retention_error rows name := by
    rw [loadPolicyDocument, loadPolicyDocument, hrows]
  cases node with
  | file => exact h
  | dir files =>
    obtain ⟨hreadable, hown⟩ := h
    rw [Backed, Readable, Manifested, hload]
    exact ⟨hreadable, hown⟩

theorem Covered.becomes {s t : State F} (h : Covered s) {name : Text} {node : Option (Node F)}
    (ht : Becomes s t name node) (hnode : ∀ node' ∈ node, Backed s.rows name node') : Covered t := by
  intro other node' hentry
  rw [ht.rows]
  by_cases hother : other = name
  · subst hother
    exact hnode node' (ht.entry.symm.trans hentry)
  · exact h other node' ((ht.others other hother).symm.trans hentry)

/-- The files of a list may be removed in turn: all payloads are among them, or the manifest
is not. -/
def Spared (files : Files F) (gone : List (Text × File F)) : Prop :=
  (∀ e ∈ payloads files, e ∈ gone) ∨ ∀ e ∈ gone, e.1 ≠ MANIFEST_FILENAME

theorem Backed.unlink {rows : Relationships F} {name : Text} {files : Files F} (h : Backed rows name (.dir files))
    {gone : List (Text × File F)} (hspared : Spared files gone) :
    Backed rows name (gone.foldl (fun node e => node.unlink e.1) (.dir files)) := by
  obtain ⟨files', hfold, hmem⟩ := dir_unlink gone files
  rw [hfold]
  refine h.files (fun hbare => ?_) ?_
  · rw [List.eq_nil_iff_forall_not_mem] at hbare ⊢
    intro e he
    obtain ⟨hrow, hname⟩ := mem_payloads.mp he
    exact hbare e (mem_payloads.mpr ⟨((hmem e).mp hrow).1, hname⟩)
  · rcases hspared with hall | hmanifest
    · left
      rw [List.eq_nil_iff_forall_not_mem]
      intro e he
      obtain ⟨hrow, hname⟩ := mem_payloads.mp he
      obtain ⟨hold, hother⟩ := (hmem e).mp hrow
      exact hother e (hall e (mem_payloads.mpr ⟨hold, hname⟩)) rfl
    · right
      refine Option.ext (fun e => ?_)
      rw [Table.find_eq_some, Table.find_eq_some, hmem]
      constructor
      · exact fun he => ⟨he.1.1, he.2⟩
      · exact fun he => ⟨⟨he.1, fun x hx heq => hmanifest x hx (heq ▸ he.2)⟩, he.2⟩

/-- A purge of a directory in force leaves the manifest. -/
theorem Backed.purged {rows : Relationships F} {name : Text} (files : Files F)
    (h : Backed rows name (.dir files)) : Backed rows name (.dir (files.delete (purges now seconds))) := by
  rw [← foldl_unlink]
  refine h.unlink (Or.inr (fun e he => ?_))
  have hpurges := (List.mem_filter.mp he).2
  cases seconds with
  | none => simp [purges] at hpurges
  | some seconds =>
    simp only [purges, Option.any_some, Bool.and_eq_true, decide_eq_true_iff] at hpurges
    exact hpurges.1

/-! ## The scan -/

theorem exists_mapM {α β ε : Type} {f : α → Except ε β} (xs : List α) (h : ∀ x ∈ xs, ∃ y, f x = .ok y) :
    ∃ ys, xs.mapM f = .ok ys ∧ ∀ y, y ∈ ys ↔ ∃ x ∈ xs, f x = .ok y := by
  induction xs with
  | nil => exact ⟨[], rfl, by simp⟩
  | cons x xs ih =>
    rw [List.forall_mem_cons] at h
    obtain ⟨y, hy⟩ := h.1
    obtain ⟨ys, hys, hmem⟩ := ih h.2
    refine ⟨y :: ys, by rw [List.mapM_cons, hy, hys]; rfl, fun y' => ?_⟩
    rw [List.mem_cons, hmem, List.exists_mem_cons_iff, hy, Except.ok.injEq, eq_comm]

/-- A file that is not the manifest, and that a purge does not keep. -/
def Doomed (rows : Relationships F) (moment : Text) (now : DateTime) (name : Text) (e : Text × File F) : Prop :=
  e.1 ≠ MANIFEST_FILENAME ∧ ∀ seconds, purgeStatus rows name moment = .ok (true, seconds) → purges now seconds e = true

theorem scanEntry_backed {rows : Relationships F} {name : Text} {files : Files F}
    (h : Backed rows name (.dir files)) (hnow : parseCanonicalUtc moment = some now) :
    ∃ found, scanEntry loads now (name, .dir files) = .ok found ∧ ∀ finding, finding ∈ found ↔
      ∃ e ∈ files.rows, Doomed rows moment now name e ∧
        ∃ reason, manifestCovers (readManifest loads files) now e.2 = .ok (some reason) ∧ finding = ⟨name, some e.1, reason⟩ := by
  by_cases hpayloads : payloads files = []
  · refine ⟨[], by rw [scanEntry, hpayloads]; rfl, fun finding => ⟨fun h => absurd h List.not_mem_nil, ?_⟩⟩
    rintro ⟨e, he, hdoomed, -⟩
    exact absurd (mem_payloads.mpr ⟨he, hdoomed.1⟩) (by rw [hpayloads]; exact List.not_mem_nil)
  obtain ⟨document, record, seconds, hread, hload, hrecord, hseconds⟩ := h.record loads hpayloads
  have hstatus := purgeStatus_eq_ok moment hload hrecord hseconds
  obtain ⟨ys, hys, hmem⟩ := exists_mapM (payloads files) (f := fun e =>
    (manifestCovers (readManifest loads files) now e.2).map (Option.map fun reason => (⟨name, some e.1, reason⟩ : Finding)))
    (fun e _ => by
      obtain ⟨reason, hreason, -⟩ := manifestCovers_iff e.2 hnow hseconds
      rw [hread, hreason]
      exact ⟨_, rfl⟩)
  refine ⟨ys.reduceOption, by rw [scanEntry, hys]; rfl, fun finding => ?_⟩
  rw [List.reduceOption_mem_iff, hmem]
  constructor
  · intro h
    obtain ⟨e, he, heq⟩ := h
    obtain ⟨hfile, hname⟩ := List.mem_filter.mp he
    obtain ⟨reason, hreason, hiff⟩ := manifestCovers_iff e.2 hnow hseconds
    rw [hread, hreason] at heq
    obtain ⟨reason', rfl, rfl⟩ := Option.map_eq_some_iff.mp (Except.ok.inj heq)
    refine ⟨e, hfile, ⟨by simpa using hname, fun seconds' hstatus' => ?_⟩, reason', by rw [hread, hreason], rfl⟩
    obtain ⟨hforce, rfl⟩ := Prod.mk.inj (Except.ok.inj (hstatus.symm.trans hstatus'))
    have hold : seconds.any (fun seconds => tooOld now seconds e.2) ≠ false := fun hfresh => by
      simpa using hiff.mpr ⟨hforce, hfresh⟩
    cases seconds with
    | none => simp at hold
    | some seconds => simpa [purges, hold] using ⟨by simpa using hname, by simpa using hold⟩
  · intro h
    obtain ⟨e, he, hdoomed, reason, hreason, rfl⟩ := h
    exact ⟨e, List.mem_filter.mpr ⟨he, by simpa using hdoomed.1⟩, by rw [hreason]; rfl⟩

theorem Backed.covers {rows : Relationships F} {name : Text} {files : Files F}
    (h : Backed rows name (.dir files)) (hnow : parseCanonicalUtc moment = some now)
    {e : Text × File F} (he : e ∈ files.rows) (hdoomed : Doomed rows moment now name e) :
    ∃ reason, manifestCovers (readManifest loads files) now e.2 = .ok (some reason) := by
  obtain ⟨document, record, seconds, hread, hload, hrecord, hseconds⟩ :=
    h.record loads (List.ne_nil_of_mem (mem_payloads.mpr ⟨he, hdoomed.1⟩))
  have hstatus := purgeStatus_eq_ok moment hload hrecord hseconds
  obtain ⟨reason, hreason, hiff⟩ := manifestCovers_iff e.2 hnow hseconds
  cases reason with
  | some reason => exact ⟨reason, by rw [hread, hreason]⟩
  | none =>
    obtain ⟨hforce, hfresh⟩ := hiff.mp rfl
    have hpurges := hdoomed.2 seconds (by rw [hstatus, hforce])
    cases seconds with
    | none => simp [purges] at hpurges
    | some seconds =>
      simp only [Option.any_some] at hfresh
      simp [purges, hfresh] at hpurges

variable (loads) in
theorem retentionScan_covered {s : State F} (h : Covered s)
    (hnow : parseCanonicalUtc moment = some now) :
    ∃ found, retentionScan loads moment s = .ok found ∧
      (∀ finding ∈ found, ∃ files, s.entry finding.entry = some (.dir files) ∧
        ∃ e ∈ files.rows, finding.file = some e.1 ∧ Doomed s.rows moment now finding.entry e) ∧
      ∀ name files, s.entry name = some (.dir files) → ∀ e ∈ files.rows, Doomed s.rows moment now name e →
        ∃ reason, ⟨name, some e.1, reason⟩ ∈ found := by
  have hscan : ∀ e ∈ s.cache.rows, ∃ found, scanEntry loads now e = .ok found := by
    intro e he
    have hbacked := h e.1 e.2 (entry_of_mem he)
    obtain ⟨name, node⟩ := e
    cases node with
    | file => exact hbacked.elim
    | dir files =>
      exact (scanEntry_backed hbacked hnow).imp (fun _ h => h.1)
  obtain ⟨founds, hfounds, hmem⟩ := exists_mapM s.cache.rows hscan
  refine ⟨founds.flatten, by rw [retentionScan, hnow]; simp only [hfounds]; rfl, fun finding hfinding => ?_,
    fun name files hentry e he hdoomed => ?_⟩
  · obtain ⟨found, hfound, hin⟩ := List.mem_flatten.mp hfinding
    obtain ⟨⟨name, node⟩, hnode, hscanned⟩ := (hmem found).mp hfound
    have hentry : s.entry name = some node := entry_of_mem hnode
    have hbacked := h name node hentry
    cases node with
    | file => exact hbacked.elim
    | dir files =>
      obtain ⟨found', hfound', hiff⟩ := scanEntry_backed hbacked hnow
      obtain rfl := Except.ok.inj (hscanned.symm.trans hfound')
      obtain ⟨e, he, hdoomed, reason, -, rfl⟩ := (hiff finding).mp hin
      exact ⟨files, hentry, e, he, rfl, hdoomed⟩
  · have hbacked := h name _ hentry
    obtain ⟨found, hfound, hiff⟩ : ∃ found, scanEntry loads now _ = .ok found ∧ _ := scanEntry_backed hbacked hnow
    obtain ⟨reason, hreason⟩ : ∃ reason, manifestCovers (readManifest loads files) now e.2 = _ := hbacked.covers hnow he hdoomed
    refine ⟨reason, List.mem_flatten.mpr ⟨found, (hmem found).mpr ⟨_, mem_of_entry hentry, hfound⟩, ?_⟩⟩
    exact (hiff _).mpr ⟨e, he, hdoomed, reason, hreason, rfl⟩

/-! ## The purge and the scan agree -/

theorem kept_eq_some_iff {rows : Relationships F} {name : Text} {node node' : Node F} :
    kept rows moment now name node = some node' ↔ ∃ files seconds, node = .dir files ∧
      purgeStatus rows name moment = .ok (true, seconds) ∧ node' = .dir (files.delete (purges now seconds)) := by
  cases node with
  | file => simp [kept]
  | dir files =>
    unfold kept
    dsimp only
    split
    · rename_i seconds hstatus
      simp [hstatus, eq_comm]
    · rename_i hstatus
      simp only [reduceCtorEq, false_iff]
      intro h
      obtain ⟨files', seconds, -, hstatus', -⟩ := h
      exact hstatus seconds hstatus'

theorem Covered.purge {s : State F} (h : Covered s) (hnow : parseCanonicalUtc moment = some now) :
    ∃ n u, purgeExpiredPlaintextCache moment none s = (.returned n, none, u) ∧ Covered u ∧ u.rows = s.rows ∧
      ∀ name node, u.entry name = some node ↔ ∃ files seconds, s.entry name = some (.dir files) ∧
        purgeStatus s.rows name moment = .ok (true, seconds) ∧ node = .dir (files.delete (purges now seconds)) := by
  obtain ⟨n, u, hrun, hrows, hentries⟩ := purge_run hnow (fun e he => (h e.1 e.2 (entry_of_mem he)).status moment)
  have hiff : ∀ name node, u.entry name = some node ↔ ∃ files seconds, s.entry name = some (.dir files) ∧
      purgeStatus s.rows name moment = .ok (true, seconds) ∧ node = .dir (files.delete (purges now seconds)) := by
    intro name node
    rw [hentries, Option.bind_eq_some_iff]
    constructor
    · intro h
      obtain ⟨node', hnode', hkept⟩ := h
      obtain ⟨files, seconds, rfl, hstatus, heq⟩ := kept_eq_some_iff.mp hkept
      exact ⟨files, seconds, hnode', hstatus, heq⟩
    · intro h
      obtain ⟨files, seconds, hnode, hstatus, heq⟩ := h
      exact ⟨_, hnode, kept_eq_some_iff.mpr ⟨files, seconds, rfl, hstatus, heq⟩⟩
  refine ⟨n, u, hrun, fun name node hnode => ?_, hrows, hiff⟩
  obtain ⟨files, seconds, hentry, -, rfl⟩ := (hiff name node).mp hnode
  exact ((h name _ hentry).purged files).rows (by rw [hrows])

/-- At a moment, a purge leaves nothing for the scan, and it deletes the files that the scan
flags. -/
def Agree (loads : List UInt8 → Option (Document F)) (moment : Text) (s : State F) : Prop :=
  ∃ n u found, purgeExpiredPlaintextCache moment none s = (.returned n, none, u) ∧
    retentionScan loads moment u = .ok [] ∧ retentionScan loads moment s = .ok found ∧
    (∀ finding ∈ found, ∃ files, s.entry finding.entry = some (.dir files) ∧ ∃ e ∈ files.rows, finding.file = some e.1) ∧
    ∀ name files, s.entry name = some (.dir files) → ∀ e ∈ files.rows, e.1 ≠ MANIFEST_FILENAME →
      ((∃ reason, ⟨name, some e.1, reason⟩ ∈ found) ↔ ∀ files', u.entry name = some (.dir files') → e ∉ files'.rows)

theorem Covered.agree {s : State F} (h : Covered s)
    (hnow : parseCanonicalUtc moment = some now) : Agree loads moment s := by
  obtain ⟨n, u, hrun, hcovered, hrows, hentries⟩ := h.purge hnow
  obtain ⟨found, hfound, honly, hall⟩ := retentionScan_covered loads h hnow
  obtain ⟨left, hleft, honly', -⟩ := retentionScan_covered loads hcovered hnow
  refine ⟨n, u, found, hrun, ?_, hfound, fun finding hfinding => ?_, fun name files hentry e he hname => ?_⟩
  · -- What is left is in force and not too old.
    obtain rfl : left = [] := by
      rw [List.eq_nil_iff_forall_not_mem]
      intro finding hfinding
      obtain ⟨files', hentry', e, he, -, hdoomed⟩ := honly' finding hfinding
      obtain ⟨files, seconds, -, hstatus, heq⟩ := (hentries _ _).mp hentry'
      obtain rfl := Node.dir.inj heq
      rw [hrows] at hdoomed
      have hgone := (Table.mem_delete.mp he).2
      rw [hdoomed.2 seconds hstatus] at hgone
      exact absurd hgone (by simp)
    exact hleft
  · obtain ⟨files, hentry, e, he, hfile, -⟩ := honly finding hfinding
    exact ⟨files, hentry, e, he, hfile⟩
  · constructor
    · intro h files' hentry'
      obtain ⟨reason, hreason⟩ := h
      obtain ⟨files'', hentry'', e', he', hfile, hdoomed⟩ := honly _ hreason
      obtain rfl := Node.dir.inj (Option.some.inj (hentry.symm.trans hentry''))
      obtain rfl : e = e' := Table.eq_of_key he he' (Option.some.inj hfile)
      obtain ⟨files₀, seconds, hentry₀, hstatus, heq⟩ := (hentries _ _).mp hentry'
      obtain rfl := Node.dir.inj heq
      rw [Table.mem_delete, hdoomed.2 seconds hstatus]
      simp
    · intro hgone
      refine hall name files hentry e he ⟨hname, fun seconds hstatus => ?_⟩
      by_contra hkeeps
      refine hgone _ ((hentries _ _).mpr ⟨files, seconds, hentry, hstatus, rfl⟩) (Table.mem_delete.mpr ⟨he, ?_⟩)
      simpa using hkeeps

/-! ## Runs -/

/-- The calls, each with what the clock and the file system give it. -/
inductive Call where
  | set (relationship_id period now : Text) (st_mtime : Rat)
  | write (relationship_id : Text) (event_id : EventId) (payload_bytes : List UInt8) (now : Text) (st_mtime : Rat)
  | delete (relationship_id : Text)
  | purge (now : Text)

/-- The state that a call leaves, when the process dies after so many writes. -/
def Call.run (pads : Bool) (call : Call) (n : Budget) (s : State F) : State F :=
  match call with
  | .set relationship_id period now st_mtime => (setPlaintextCache pads relationship_id period now st_mtime).state n s
  | .write relationship_id event_id payload_bytes now st_mtime =>
    (writePlaintextCache relationship_id event_id payload_bytes now st_mtime).state n s
  | .delete relationship_id => (deletePlaintextCache relationship_id).state n s
  | .purge now => (purgeExpiredPlaintextCache now).state n s

/-- Calls one after the other, from a state directory without a cache. -/
def cacheMachine (F : Type) (pads : Bool) : Machine (State F) (Call × Budget) where
  init s := s.cache = .empty
  step s a := some (a.1.run pads a.2 s)

/-- The condition on a purge that is cut after `k` writes: in no directory whose opt-in is not
in force does the cut leave a payload without the manifest. -/
def PurgeSpares (rows : Relationships F) (moment : Text) (now : DateTime) : List (Text × Node F) → Nat → Prop
  | [], _ => True
  | (_, .file) :: entries, k => PurgeSpares rows moment now entries (k - 1)
  | (name, .dir files) :: entries, k =>
    match purgeStatus rows name moment with
    | .ok (true, seconds) => PurgeSpares rows moment now entries (k - (files.rows.filter (purges now seconds)).length)
    | .ok (false, _) =>
      Spared files (files.rows.take k) ∧ PurgeSpares rows moment now entries (k - (files.rows.length + 1))
    | .error _ => True

/-- The condition on a call and its cut. -/
def Spares (s : State F) : Call × Budget → Prop
  -- Between the commit and the manifest the process may die only while there is no payload.
  | (.set relationship_id _ _ _, n) =>
    (∀ files, s.entry relationship_id = some (.dir files) → payloads files = []) ∨ ∀ k ∈ n, k = 0 ∨ 3 ≤ k
  -- A payload is written under the manifest.
  | (.write relationship_id _ _ now _, _) =>
    (∃ status, plaintextCacheStatus s.rows relationship_id now = .ok status ∧ status.enabled = true) →
      ∃ files, s.entry relationship_id = some (.dir files) ∧ Manifested s.rows relationship_id files
  -- The manifest is not removed while a payload is left.
  | (.delete relationship_id, n) =>
    ∀ k ∈ n, ∀ files, s.entry relationship_id = some (.dir files) → Spared files (files.rows.take k)
  | (.purge moment, n) =>
    ∀ k ∈ n, ∀ now, parseCanonicalUtc moment = some now → PurgeSpares s.rows moment now s.cache.rows k

theorem find_put (files : Files F) (name : Text) (f : File F) (other : Text) :
    (files.upsert (name, f)).find other = if other = name then some (name, f) else files.find other :=
  Table.find_upsert files (name, f) other

theorem mkdir_of_dir {s : State F} {name : Text} {files : Files F} (h : s.entry name = some (.dir files)) (n : Budget) :
    mkdir name n s = (.returned (), n, s) := by
  rw [mkdir, Program.bind_returned (Program.read_run _ _ _), h]
  rfl

/-! ## A payload is written -/

/-- A cache that is covered, and in it a directory with its manifest. -/
structure Ready (name : Text) (s : State F) : Prop where
  covered : Covered s
  manifest : ∃ files, s.entry name = some (.dir files) ∧ Manifested s.rows name files

/-- A payload is written into the directory. -/
theorem Ready.put {s : State F} {name file : Text} (h : Ready name s) (hfile : file ≠ MANIFEST_FILENAME) (f : File F) :
    Ready name (s.modify name (Node.put file f)) := by
  obtain ⟨files, hentry, document, record, st_mtime, hfind, hrest⟩ := h.manifest
  have hown : Manifested s.rows name (files.upsert (file, f)) :=
    ⟨document, record, st_mtime, by rw [find_put, if_neg (Ne.symm hfile)]; exact hfind, hrest⟩
  have hbecomes := becomes_modify s name (Node.put file f)
  rw [hentry] at hbecomes
  refine ⟨h.covered.becomes hbecomes (fun node' hnode' => ?_), _, hbecomes.entry, hown⟩
  obtain rfl := Option.some.inj hnode'
  exact ⟨(h.covered name _ hentry).1, Or.inr hown⟩

theorem Covered.write {s : State F} (h : Covered s) (rid : Text) (event_id : EventId)
    (payload : List UInt8) (now : Text) (st_mtime : Rat)
    (hspares : Spares s (.write rid event_id payload now st_mtime, n)) :
    Covered ((writePlaintextCache rid event_id payload now st_mtime).state n s) := by
  have hkeeps : Program.Keeps (Ready rid)
      (writeFile rid event_id.filename (.bytes payload) st_mtime : Program (State F) (Exn F) Unit) :=
    Program.Keeps.bind (Program.Keeps.write (fun s hs => hs.put event_id.filename_ne _))
      (fun _ => Program.Keeps.write (fun s hs => hs.put event_id.filename_ne _))
  unfold writePlaintextCache
  split_ifs
  · exact h
  · exact h
  · have hread : (Program.read (fun s => plaintextCacheStatus s.rows rid now) : Program (State F) (Exn F) _) n s =
        (.returned (plaintextCacheStatus s.rows rid now), n, s) := rfl
    rw [Program.state, Program.bind_returned hread]
    cases hstatus : plaintextCacheStatus s.rows rid now with
    | error e => exact h
    | ok status =>
      dsimp only
      by_cases henabled : status.enabled = false
      · rw [if_pos henabled]
        exact h
      · rw [if_neg henabled]
        obtain ⟨files, hentry, hown⟩ := hspares ⟨status, hstatus, by simpa using henabled⟩
        rw [Program.bind_returned (mkdir_of_dir hentry n)]
        exact (hkeeps n s ⟨h, files, hentry, hown⟩).covered

/-! ## An opt-in is set -/

/-- The manifest is written, unless the process dies first. -/
theorem manifest_run (s : State F) (name : Text) (record : Document F) (st_mtime : Rat)
    {files : Files F} (h : s.entry name = some (.dir files)) (hn : ∀ k ∈ n, 2 ≤ k) :
    ∃ n' t, (writeFile name MANIFEST_FILENAME (.object record) st_mtime : Program (State F) (Exn F) Unit) n s =
        (.returned (), n', t) ∧
      ∃ files', Becomes s t name (some (.dir files')) ∧
        files'.find MANIFEST_FILENAME = some (MANIFEST_FILENAME, ⟨.object record, st_mtime⟩) := by
  have ht := (becomes_modify s name (Node.put MANIFEST_FILENAME ⟨.bytes [], st_mtime⟩)).modify
    (Node.put MANIFEST_FILENAME ⟨.object record, st_mtime⟩)
  rw [h] at ht
  rcases n with _ | _ | _ | k
  · exact ⟨_, _, rfl, _, ht, by rw [find_put, if_pos rfl]⟩
  · exact absurd (hn 0 rfl) (by omega)
  · exact absurd (hn 1 rfl) (by omega)
  · exact ⟨_, _, rfl, _, ht, by rw [find_put, if_pos rfl]⟩

theorem periodSeconds_name (period : Period) :
    periodSeconds (F := F) (.str period.name) = .ok period.seconds := by
  cases period <;> rfl

theorem load_updatePolicy {rows : Relationships F} {rid : Text} {document : Document F}
    (h : loadPolicyDocument .retention_error rows rid = .ok document) (document' : Document F) :
    loadPolicyDocument .retention_error (updatePolicy rows rid document') rid = .ok document' := by
  unfold loadPolicyDocument at *
  unfold updatePolicy
  rw [if_pos rfl]
  split at h
  · exact absurd h (by simp)
  · exact absurd h (by simp)
  · rename_i hrow
    rw [hrow]
    rfl

/-- The opt-in of the database is there, and the directory of the relationship, if it is there,
holds no payload. -/
structure Empty (rows : Relationships F) (s : State F) (name : Text) (t : State F) : Prop where
  rows : t.rows = rows
  entry : ∀ node, t.entry name = some node → ∃ files, node = .dir files ∧ payloads files = []
  others : ∀ other, other ≠ name → t.entry other = s.entry other

theorem Empty.put {rows : Relationships F} {s t : State F} {name : Text} (h : Empty rows s name t) (f : File F) :
    Empty rows s name (t.modify name (Node.put MANIFEST_FILENAME f)) where
  rows := h.rows
  entry node hnode := by
    rw [entry_modify, if_pos rfl] at hnode
    obtain ⟨node', hnode', rfl⟩ := Option.map_eq_some_iff.mp hnode
    obtain ⟨files, rfl, hbare⟩ := h.entry node' hnode'
    refine ⟨_, rfl, ?_⟩
    rw [List.eq_nil_iff_forall_not_mem] at hbare ⊢
    intro e he
    obtain ⟨hrow, hname⟩ := mem_payloads.mp he
    have hfind := Table.mem_iff_find.mp hrow
    rw [find_put, if_neg hname] at hfind
    exact hbare e (mem_payloads.mpr ⟨Table.mem_iff_find.mpr hfind, hname⟩)
  others other hother := by rw [entry_modify, if_neg hother, h.others other hother]

theorem Empty.covered {rows : Relationships F} {s t : State F} {name : Text} (h : Empty rows s name t)
    (hreadable : Readable rows name)
    (hothers : ∀ other node, other ≠ name → s.entry other = some node → Backed rows other node) : Covered t := by
  intro other node hnode
  rw [h.rows]
  by_cases hother : other = name
  · subst hother
    obtain ⟨files, rfl, hbare⟩ := h.entry node hnode
    exact ⟨hreadable, Or.inl hbare⟩
  · exact hothers other node hother ((h.others other hother).symm.trans hnode)

theorem keeps_mkdir (rows : Relationships F) (s : State F) (name : Text) :
    Program.Keeps (Empty rows s name) (mkdir name : Program (State F) (Exn F) Unit) := by
  refine Program.Keeps.bind_read (fun t ht n => ?_)
  cases hentry : t.entry name with
  | none =>
    refine Program.Keeps.write (fun u hu => ⟨hu.rows, fun node hnode => ?_, fun other hother => ?_⟩) n t ht
    · rw [State.entry, Table.find_upsert, if_pos rfl] at hnode
      exact ⟨.empty, (Option.some.inj hnode).symm, rfl⟩
    · rw [State.entry, Table.find_upsert, if_neg hother]
      exact hu.others other hother
  | some node =>
    obtain ⟨files, rfl, -⟩ := ht.entry node hentry
    exact ht

theorem keeps_manifest (rows : Relationships F) (s : State F) (name : Text) (record : Document F) (st_mtime : Rat) :
    Program.Keeps (Empty rows s name)
      (writeFile name MANIFEST_FILENAME (.object record) st_mtime : Program (State F) (Exn F) Unit) :=
  Program.Keeps.bind (Program.Keeps.write (fun _ ht => ht.put _)) (fun _ => Program.Keeps.write (fun _ ht => ht.put _))

theorem Covered.set {s : State F} (h : Covered s) (pads : Bool) (rid period now : Text)
    (st_mtime : Rat) (hspares : Spares s (.set rid period now st_mtime, n)) :
    Covered ((setPlaintextCache pads rid period now st_mtime).state n s) := by
  unfold setPlaintextCache
  rw [Program.state, Program.bind_returned (Program.read_run _ _ _)]
  cases htxn : setPlaintextCacheTxn pads s.rows rid period now with
  | error e => exact h
  | ok result =>
    obtain ⟨rows, record⟩ := result
    obtain ⟨canonical, expires_at, document, -, -, hload, hrecord, hrows⟩ := setPlaintextCacheTxn_spec htxn
    have hloaded : loadPolicyDocument .retention_error rows rid = .ok (withOptin document record) := by
      rw [hrows]
      exact load_updatePolicy hload _
    have hreadable : Readable rows rid := by
      refine ⟨_, hloaded, fun record' hrecord' => ⟨canonical.seconds, ?_⟩⟩
      rw [optinRecord_withOptin] at hrecord'
      obtain rfl := Option.some.inj hrecord'
      rw [hrecord]
      exact periodSeconds_name canonical
    have hothers : ∀ name node, name ≠ rid → s.entry name = some node → Backed rows name node :=
      fun name node hname hnode => (h name node hnode).rows (by rw [hrows, updatePolicy_other _ _ hname])
    dsimp only
    -- The process dies before the commit.
    by_cases hzero : n = some 0
    · rw [hzero]
      exact h
    obtain ⟨n', hcommit, hn'⟩ : ∃ n', (Program.write (fun s => { s with rows := rows }) : Program (State F) (Exn F) Unit) n s =
        (.returned (), n', { s with rows := rows }) ∧ ∀ k, n' = some k → n = some (k + 1) := by
      rcases n with _ | _ | k
      · exact ⟨none, rfl, by simp⟩
      · exact absurd rfl hzero
      · exact ⟨some k, rfl, by simp⟩
    rw [Program.bind_returned hcommit]
    by_cases hbare : ∀ files, s.entry rid = some (.dir files) → payloads files = []
    · -- No payload is there, wherever the process dies.
      have hempty : Empty rows s rid { s with rows := rows } := by
        refine ⟨rfl, fun node hnode => ?_, fun _ _ => rfl⟩
        cases node with
        | file => exact (h rid .file hnode).elim
        | dir files => exact ⟨files, rfl, hbare files hnode⟩
      have hend := Program.Keeps.bind (keeps_mkdir rows s rid) (fun _ =>
        Program.Keeps.bind (keeps_manifest rows s rid record st_mtime)
          (fun _ => Program.Keeps.ret (ε := Exn F) record)) n' _ hempty
      exact hend.covered hreadable hothers
    · -- The manifest is written.
      have huncut := hspares.resolve_left hbare
      obtain ⟨files, hentry⟩ : ∃ files, s.entry rid = some (.dir files) := by
        by_contra hnone
        exact hbare (fun files hfiles => absurd ⟨files, hfiles⟩ hnone)
      have hentry' : State.entry { s with rows := rows } rid = some (.dir files) := hentry
      obtain ⟨n'', t, hmanifest, files', ht, hfind⟩ := manifest_run _ rid record st_mtime hentry' (n := n') (fun k hk => by
        have := huncut (k + 1) (hn' k hk)
        omega)
      rw [Program.bind_returned (mkdir_of_dir hentry' n'), Program.bind_returned hmanifest]
      intro name node hnode
      show Backed t.rows name node
      rw [ht.rows]
      by_cases hname : name = rid
      · subst hname
        obtain rfl := Option.some.inj (ht.entry.symm.trans hnode)
        exact ⟨hreadable, Or.inr ⟨_, record, st_mtime, hfind, hloaded, optinRecord_withOptin _ _⟩⟩
      · exact hothers name node hname ((ht.others name hname).symm.trans hnode)

/-! ## A cache is deleted -/

/-- Once the entry is gone, `delete_plaintext_cache` changes the rows in one transaction. -/
theorem deletePlaintextCache_eq (rid : Text) :
    ∃ rest : Option (Node F) → Program (State F) (Exn F) Nat,
      deletePlaintextCache rid = Program.bind (.read (State.entry · rid)) (fun node =>
        Program.bind (rmtreeIfExists rid node) fun _ => rest node) ∧
      ∀ node n u, (rest node).state n u = u ∨
        ∃ rows, deletePlaintextCacheTxn u.rows rid = .ok rows ∧
          (rest node).state n u = { u with rows := rows } := by
  refine ⟨_, rfl, fun node n u => ?_⟩
  rw [Program.state, Program.bind_returned (Program.read_run _ _ _)]
  cases htxn : deletePlaintextCacheTxn u.rows rid with
  | error e => exact Or.inl rfl
  | ok rows =>
    rcases n with _ | _ | k
    · exact Or.inr ⟨rows, rfl, rfl⟩
    · exact Or.inl rfl
    · exact Or.inr ⟨rows, rfl, rfl⟩

/-- Where the entry is gone, the row of the relationship does not matter. -/
theorem Covered.gone {s u : State F} (h : Covered s) {rid : Text} (hu : Becomes s u rid none)
    {rows : Relationships F} (hrows : ∀ name, name ≠ rid → rows name = s.rows name) :
    Covered { u with rows := rows } := by
  intro name node hnode
  have hentry : u.entry name = some node := hnode
  have hname : name ≠ rid := by
    intro heq
    rw [heq, hu.entry] at hentry
    exact absurd hentry (by simp)
  rw [hu.others name hname] at hentry
  exact (h name node hentry).rows (hrows name hname)

theorem Covered.delete {s : State F} (h : Covered s) (rid : Text)
    (hspares : Spares s (.delete rid, n)) :
    Covered ((deletePlaintextCache rid).state n s) := by
  obtain ⟨rest, heq, hrows⟩ := deletePlaintextCache_eq (F := F) rid
  rw [heq, Program.state, Program.bind_returned (Program.read_run _ _ _)]
  have hgone : ∀ (n' : Budget) (u : State F), Becomes s u rid none →
      Covered ((rest (s.entry rid)).state n' u) := by
    intro n' u hu
    obtain hsame | ⟨rows, htxn, hnext⟩ := hrows (s.entry rid) n' u
    · rw [hsame]
      exact h.gone hu (fun name _ => by rw [hu.rows])
    · rw [hnext]
      exact h.gone hu (fun name hname => by rw [deletePlaintextCacheTxn_other htxn hname, hu.rows])
  cases hentry : s.entry rid with
  | none =>
    rw [hentry] at hgone
    exact hgone n s ⟨rfl, hentry, fun _ _ => rfl⟩
  | some node =>
    have hbacked := h rid node hentry
    rw [hentry] at hgone
    cases node with
    | file => exact hbacked.elim
    | dir files =>
      simp only [rmtreeIfExists]
      cases n with
      | none =>
        obtain ⟨u, hrmtree, hu⟩ := rmtree_run files s rid
        rw [Program.bind_returned hrmtree]
        exact hgone _ _ hu
      | some k =>
        obtain ⟨u, ⟨hrmtree, hu⟩ | ⟨hrmtree, hu⟩⟩ := rmtree_cut files s rid k
        · rw [Program.bind, hrmtree]
          refine h.becomes hu (fun node' hnode' => ?_)
          rw [hentry] at hnode'
          obtain rfl := Option.some.inj hnode'
          exact hbacked.unlink (hspares k rfl files hentry)
        · rw [Program.bind_returned hrmtree]
          exact hgone _ _ hu

/-! ## A purge that is cut -/

theorem purgeEntry_cut {s : State F} (now : DateTime) {name : Text} {files : Files F}
    (hentry : s.entry name = some (.dir files)) (h : Backed s.rows name (.dir files))
    (entries : List (Text × Node F)) {k : Nat}
    (hspares : PurgeSpares s.rows moment now ((name, .dir files) :: entries) k) :
    ∃ t, (∃ node, Becomes s t name node ∧ ∀ node' ∈ node, Backed s.rows name node') ∧
      (purgeEntry moment now name (.dir files) (some k) s = (.interrupted, some 0, t) ∨
        ∃ n k', purgeEntry moment now name (.dir files) (some k) s = (.returned n, some k', t) ∧
          PurgeSpares s.rows moment now entries k') := by
  obtain ⟨⟨enabled, seconds⟩, hstatus⟩ := h.status moment
  have hread : purgeEntry moment now name (.dir files) (some k) s =
      purgeFiles now name files (.ok (enabled, seconds)) (some k) s := by rw [← hstatus]; rfl
  rw [hread]
  simp only [PurgeSpares, hstatus] at hspares
  have hunlinked : ∀ gone, Spared files gone → ∀ node' ∈ (s.entry name).map
      (fun node => gone.foldl (fun node e => node.unlink e.1) node), Backed s.rows name node' := by
    intro gone hgone node' hnode'
    rw [hentry] at hnode'
    obtain rfl := Option.some.inj hnode'
    exact h.unlink hgone
  cases enabled with
  | false =>
    obtain ⟨t, ⟨hrmtree, ht⟩ | ⟨hrmtree, ht⟩⟩ := rmtree_cut files s name k
    · refine ⟨t, ⟨_, ht, hunlinked _ hspares.1⟩, Or.inl ?_⟩
      rw [purgeFiles, Program.bind, hrmtree]
    · refine ⟨t, ⟨none, ht, by simp⟩, Or.inr ⟨countFiles (.dir files), _, ?_, hspares.2⟩⟩
      rw [purgeFiles, Program.bind_returned hrmtree]
      rfl
  | true =>
    cases seconds with
    | none =>
      have hnone : files.rows.filter (purges now none) = [] := by simp [purges]
      dsimp only at hspares
      rw [hnone] at hspares
      exact ⟨s, ⟨some (.dir files), ⟨rfl, hentry, fun _ _ => rfl⟩, by simpa using h⟩, Or.inr ⟨0, k, rfl, hspares⟩⟩
    | some seconds =>
      have hunlink := Program.forEach_write (ε := Exn F) (fun e s => State.modify s name (Node.unlink e.1))
        ((payloads files).filter (fun e => tooOld now seconds e.2)) k s
      dsimp only at hspares
      have hspared : Spared files (((payloads files).filter (fun e => tooOld now seconds e.2)).take k) :=
        Or.inr (fun e he => (mem_payloads.mp (List.mem_of_mem_filter (List.mem_of_mem_take he))).2)
      refine ⟨_, ⟨_, becomes_unlink _ s name, hunlinked _ hspared⟩, ?_⟩
      by_cases hlong : ((payloads files).filter (fun e => tooOld now seconds e.2)).length ≤ k
      · rw [if_pos hlong] at hunlink
        rw [← old_payloads] at hspares
        refine Or.inr ⟨((payloads files).filter (fun e => tooOld now seconds e.2)).length, _, ?_, hspares⟩
        rw [purgeFiles, Program.bind_returned hunlink]
        rfl
      · rw [if_neg hlong, show k - ((payloads files).filter (fun e => tooOld now seconds e.2)).length = 0 by omega] at hunlink
        refine Or.inl ?_
        rw [purgeFiles, Program.bind, hunlink]

/-- The loop over entries that are still as they were. -/
theorem Covered.purgeEntries (now : DateTime) (entries : List (Text × Node F))
    (hnodup : (entries.map Prod.fst).Nodup) {s : State F} (h : Covered s) (removed k : Nat)
    (hentries : ∀ e ∈ entries, s.entry e.1 = some e.2)
    (hspares : PurgeSpares s.rows moment now entries k) :
    Covered ((Cache.purgeEntries moment now entries removed).state (some k) s) := by
  induction entries generalizing s removed k with
  | nil => exact h
  | cons e entries ih =>
    obtain ⟨name, node⟩ := e
    rw [List.map_cons, List.nodup_cons] at hnodup
    rw [List.forall_mem_cons] at hentries
    have hbacked := h name node hentries.1
    cases node with
    | file => exact hbacked.elim
    | dir files =>
      obtain ⟨t, ⟨node', ht, hnode'⟩, hstop | ⟨n, k', hgo, hrest⟩⟩ := purgeEntry_cut now hentries.1 hbacked entries hspares
      · rw [Program.state, Cache.purgeEntries, Program.bind, hstop]
        exact h.becomes ht hnode'
      · rw [Program.state, Cache.purgeEntries, Program.bind_returned hgo]
        refine ih hnodup.2 (h.becomes ht hnode') (removed + n) k' (fun e' he' => ?_) (by rw [ht.rows]; exact hrest)
        have hne : e'.1 ≠ name := by
          intro heq
          exact hnodup.1 (List.mem_map.mpr ⟨e', he', heq⟩)
        rw [ht.others _ hne, hentries.2 e' he']

theorem Covered.purged {s : State F} (h : Covered s) (moment : Text)
    (hspares : Spares s (.purge moment, n)) :
    Covered ((purgeExpiredPlaintextCache moment).state n s) := by
  cases hnow : parseCanonicalUtc moment with
  | none =>
    rw [purgeExpiredPlaintextCache, hnow]
    exact h
  | some now =>
    cases n with
    | none =>
      obtain ⟨n, u, hrun, hcovered, -⟩ := h.purge hnow
      rw [Program.state, hrun]
      exact hcovered
    | some k =>
      rw [purgeExpiredPlaintextCache, hnow]
      exact h.purgeEntries now s.cache.rows s.cache.nodup 0 k (fun e he => entry_of_mem he) (hspares k rfl now hnow)

/-! ## Every run -/

/-- One call that meets the condition keeps the invariant. -/
theorem Covered.step {pads : Bool} {s t : State F} {a : Call × Budget} (h : Covered s) (hspares : Spares s a)
    (hstep : (cacheMachine F pads).step s a = some t) : Covered t := by
  obtain rfl := Option.some.inj hstep
  obtain ⟨call, n⟩ := a
  cases call with
  | set rid period now st_mtime => exact h.set pads rid period now st_mtime hspares
  | write rid event_id payload now st_mtime => exact h.write rid event_id payload now st_mtime hspares
  | delete rid => exact h.delete rid hspares
  | purge now => exact h.purged now hspares

/-- In every run in which each call meets the condition, the purge and the scan agree at every
time. -/
theorem purge_scan_agree (pads : Bool) (loads : List UInt8 → Option (Document F)) {s t : State F}
    {as : List (Call × Budget)} (hinit : (cacheMachine F pads).init s) (hspares : (cacheMachine F pads).okRun Spares s as)
    (hrun : (cacheMachine F pads).run s as = some t) {moment : Text} {now : DateTime}
    (hnow : parseCanonicalUtc moment = some now) : Agree loads moment t := by
  have hreach := Machine.Reach.run (.start hinit) hspares hrun
  refine Covered.agree (hreach.invariant (fun u hu name node hnode => ?_) (fun u a v hu ha huv => hu.step ha huv)) hnow
  have hempty : u.cache = .empty := hu
  rw [State.entry, hempty, Table.find_empty] at hnode
  exact absurd hnode (by simp)

end agreement

/-- A relationship without a policy, and no cache. -/
def noCache : State Unit where
  rows rid := if rid = text "r" then some (.object []) else none

/-- A payload is cached. -/
def cached : Call := .write (text "r") ⟨text "00000000-0000-4000-8000-000000000000", rfl⟩ [0x7B, 0x7D]
  (text "2026-01-01T00:00:01Z") 1767225601

/-- An opt-in without an end. -/
def optedIn : Call := .set (text "r") (text "indefinite") (text "2026-01-01T00:00:00Z") 1767225600

/-- The process dies between the commit of the opt-in and its manifest, and a payload is cached. -/
def torn : State Unit := cached.run true none (optedIn.run true (some 1) noCache)

/-- Without the manifest the purge keeps the payload, and the scan flags it. -/
theorem manifest_missing :
    (cacheMachine Unit true).init noCache ∧
      (cacheMachine Unit true).run noCache [(optedIn, some 1), (cached, none)] = some torn ∧
      purgeExpiredPlaintextCache (text "2026-01-02T00:00:00Z") none torn = (.returned 0, none, torn) ∧
      retentionScan (fun _ => none) (text "2026-01-02T00:00:00Z") torn = .ok
        [⟨text "r", some (text "00000000-0000-4000-8000-000000000000.json"), .stale_or_unauthorized_plaintext_cache⟩] ∧
      ¬Agree (fun _ => none) (text "2026-01-02T00:00:00Z") torn := by
  have hpurge : purgeExpiredPlaintextCache (text "2026-01-02T00:00:00Z") none torn = (.returned 0, none, torn) := rfl
  have hscan : retentionScan (fun _ => none) (text "2026-01-02T00:00:00Z") torn = .ok
      [⟨text "r", some (text "00000000-0000-4000-8000-000000000000.json"), .stale_or_unauthorized_plaintext_cache⟩] := rfl
  refine ⟨rfl, rfl, hpurge, hscan, fun h => ?_⟩
  obtain ⟨n, u, found, hrun, hempty, -⟩ := h
  rw [hpurge] at hrun
  rw [← (Prod.mk.inj (Prod.mk.inj hrun).2).2, hscan] at hempty
  exact absurd (Except.ok.inj hempty) (by simp)

theorem spares_cached : (cacheMachine Unit true).okRun Spares noCache [(optedIn, none), (cached, none)] := by
  refine ⟨Or.inr (by simp), fun s hs => ⟨fun _ => ?_, fun _ _ => trivial⟩⟩
  rw [← Option.some.inj hs]
  exact ⟨_, rfl, _, _, _, rfl, rfl, rfl⟩

/-- The opt-in with its manifest, and a payload. -/
theorem purge_scan_agree_cached :
    Agree (fun _ => none) (text "2026-01-02T00:00:00Z") (cached.run true none (optedIn.run true none noCache)) := by
  have hparsed : (parseCanonicalUtc (text "2026-01-02T00:00:00Z")).isSome = true := rfl
  obtain ⟨now, hnow⟩ := Option.isSome_iff_exists.mp hparsed
  have hinit : (cacheMachine Unit true).init noCache := rfl
  exact purge_scan_agree true (fun _ => none) hinit spares_cached rfl hnow

end MuseAgentSocial.Policy.Cache
