import MuseAgentSocial.KeyFiles.AtomicPair

/-!
# Atomicity of the pair

The `fsync` of the journal's directory comes after the rename that publishes the journal.
When it raises, the journal is there, and `journal_written` is false: the cleanup removes the
temporaries that the journal names.

* `recover_journalled` and `recover_done` are the specifications of the recovery.
* `atomic_write_pair_spec` says what a call leaves, wherever it ends.
* `atomic_write_pair_iff` says for which failures the pair is published atomically.
-/

namespace MuseAgentSocial.KeyFiles

open Faulty Program

/-! ## Single operations -/

section files

variable {fs fs' : Files} {path src dst q : Path} {content : Option Content}

@[simp] theorem set_self : (fs.set path content) path = content := if_pos rfl

theorem set_other (h : q ≠ path) : (fs.set path content) q = fs q := if_neg h

theorem replace_eq_some (h : replace src dst fs = some fs') (hne : src ≠ dst) :
    fs' src = none ∧ fs' dst = fs src ∧ ∀ q, q ≠ src → q ≠ dst → fs' q = fs q := by
  obtain ⟨content, hcontent, rfl⟩ := Option.map_eq_some_iff.mp h
  refine ⟨?_, ?_, fun q hsrc hdst => ?_⟩
  · rw [set_other hne, set_self]
  · rw [set_self, hcontent]
  · rw [set_other hdst, set_other hsrc]

variable {k : Kind} {tmp target : Path} {old new : Content}

theorem Kind.Holds.congr (h : k.Holds tmp target old new fs) (htmp : fs' tmp = fs tmp) (htarget : fs' target = fs target) :
    k.Holds tmp target old new fs' := by
  cases k with
  | half =>
    show fs' tmp = some new ∧ fs' target = some old ∨ fs' tmp = none ∧ fs' target = some new
    rw [htmp, htarget]
    exact h
  | lost =>
    show fs' tmp = none ∧ fs' target = some old
    rw [htmp, htarget]
    exact h

/-- A file without a temporary is what a recovery makes of it. -/
theorem Kind.Holds.final (h : k.Holds tmp target old new fs) (htmp : fs tmp = none) :
    fs target = some (k.final old new) := by
  cases k with
  | half =>
    obtain ⟨hsome, -⟩ | ⟨-, htarget⟩ := h
    · rw [htmp] at hsome
      exact absurd hsome (by simp)
    · exact htarget
  | lost => exact h.2

/-- The temporary takes the place of its target. -/
theorem Kind.Holds.replaced (h : k.Holds tmp target old new fs) (hne : tmp ≠ target)
    (hreplace : replace tmp target fs = some fs') :
    k.Holds tmp target old new fs' ∧ fs' target = some (k.final old new) := by
  obtain ⟨htmp, htarget, -⟩ := replace_eq_some hreplace hne
  have hsome : fs tmp ≠ none := by
    intro hnone
    simp [replace, hnone] at hreplace
  cases k with
  | half =>
    obtain ⟨hnew, -⟩ | ⟨hnone, -⟩ := h
    · rw [hnew] at htarget
      exact ⟨Or.inr ⟨htmp, htarget⟩, htarget⟩
    · exact absurd hnone hsome
  | lost => exact absurd h.1 hsome

theorem replace_isSome (dst : Path) (h : (fs src).isSome = true) : ∃ fs', replace src dst fs = some fs' := by
  obtain ⟨content, hcontent⟩ := Option.isSome_iff_exists.mp h
  exact ⟨_, by rw [replace, hcontent]; rfl⟩

end files

variable {P E R : Files → Prop}

/-- An operation without an effect, where a cut and an exception leave the same. -/
theorem Triple.touch {ι : Type} {env : ι → Outcome} {i : ι}
    (hE : env i ≠ .ok → ∀ fs, P fs → E fs) : Triple env P (touch i) (fun _ fs => P fs ∧ env i = .ok) E E := by
  apply Triple.op
  · exact fun henv fs hs => ⟨hs, henv⟩
  · exact fun henv => hE (by simp [henv])
  · exact fun henv => hE (by simp [henv])

theorem rename_spec {ι : Type} {env : ι → Outcome} {i : ι} {k : Kind} {tmp target : Path}
    (old new : Content) (hne : tmp ≠ target)
    (hR : ∀ fs fs' : Files, (∀ q, q ≠ tmp → q ≠ target → fs' q = fs q) → R fs → R fs')
    (hE : env i ≠ .ok → ∀ fs, k.Holds tmp target old new fs → R fs → E fs) :
    Triple env (fun fs => (k.Holds tmp target old new fs ∧ R fs) ∧ (fs tmp).isSome = true) (op i (replace tmp target))
      (fun _ fs => (k.Holds tmp target old new fs ∧ fs target = some (k.final old new)) ∧ R fs) E E := by
  apply Triple.op
  · intro _ fs hs
    obtain ⟨fs', hfs'⟩ := replace_isSome target hs.2
    rw [hfs']
    exact ⟨hs.1.1.replaced hne hfs', hR fs fs' (replace_eq_some hfs' hne).2.2 hs.1.2⟩
  · exact fun henv fs hs => hE (by simp [henv]) fs hs.1.1 hs.1.2
  · exact fun henv fs hs => hE (by simp [henv]) fs hs.1.1 hs.1.2

theorem unlink_journal {p : Pair} {old_a old_b : Content} {ka kb : Kind} {fs : Files}
    (h : Journalled p old_a old_b ka kb fs) (ha : fs p.path_a = some (ka.final old_a (.bytes p.data_a)))
    (hb : fs p.path_b = some (kb.final old_b (.bytes p.data_b))) :
    ∃ fs', unlink p.journal_path fs = some fs' ∧ Done p old_a old_b ka kb fs' := by
  have hdistinct := p.distinct
  simp only [List.nodup_cons, List.mem_cons, List.not_mem_nil, or_false, not_or] at hdistinct
  refine ⟨fs.set p.journal_path none, ?_, ⟨set_self, ?_, ?_⟩⟩
  · rw [unlink, h.journal]
    rfl
  · exact (set_other (by tauto)).trans ha
  · exact (set_other (by tauto)).trans hb

/-! ## The recovery -/

section recovery

variable {p : Pair} {old_a old_b : Content} {ka kb : Kind} {env : RecoverSite → Outcome}

theorem redrive_cons {k : Kind} {tmp target : Path} {old new : Content} (hne : tmp ≠ target) {R E : Files → Prop}
    (hR : ∀ fs fs' : Files, (∀ q, q ≠ tmp → q ≠ target → fs' q = fs q) → R fs → R fs')
    (hE : (∃ i, env i ≠ .ok) → ∀ fs, k.Holds tmp target old new fs → R fs → E fs) {Q : Unit → Files → Prop}
    {files : List (Path × Path)}
    (hrest : Triple env (fun fs => (k.Holds tmp target old new fs ∧ fs target = some (k.final old new)) ∧ R fs)
      (redrive files) Q E E) :
    Triple env (fun fs => k.Holds tmp target old new fs ∧ R fs) (redrive ((tmp, target) :: files)) Q E E := by
  refine Triple.bind_read (fun pending => Triple.bind ?_ (fun _ => hrest))
  cases pending with
  | false =>
    refine Triple.ret (fun fs hs => ⟨⟨hs.1.1, hs.1.1.final ?_⟩, hs.1.2⟩)
    simpa using hs.2
  | true => exact rename_spec old new hne hR (fun henv => hE ⟨_, henv⟩)

theorem syncAll_spec (hE : (∃ i, env i ≠ .ok) → ∀ fs, P fs → E fs) (dirs : List String) :
    Triple env P (syncAll dirs) (fun _ => P) E E := by
  induction dirs with
  | nil => exact Triple.ret (fun _ hs => hs)
  | cons dir dirs ih => exact (Triple.touch (fun henv => hE ⟨_, henv⟩)).bind_sure (fun _ _ => ih)

/-- Where a recovery is cut: the journal is still there, or the recovery was done. -/
def Resumable (p : Pair) (old_a old_b : Content) (ka kb : Kind) (fs : Files) : Prop :=
  Journalled p old_a old_b ka kb fs ∨ Done p old_a old_b ka kb fs

theorem redrive_pair : Triple env (Journalled p old_a old_b ka kb)
    (redrive [(p.tmp_a, p.path_a), (p.tmp_b, p.path_b)])
    (fun _ fs => Journalled p old_a old_b ka kb fs ∧
      fs p.path_a = some (ka.final old_a (.bytes p.data_a)) ∧ fs p.path_b = some (kb.final old_b (.bytes p.data_b)))
    (fun fs => Resumable p old_a old_b ka kb fs ∧ ∃ i, env i ≠ .ok)
    (fun fs => Resumable p old_a old_b ka kb fs ∧ ∃ i, env i ≠ .ok) := by
  have hdistinct := p.distinct
  simp only [List.nodup_cons, List.mem_cons, List.not_mem_nil, or_false, not_or] at hdistinct
  have hsecond : Triple env (fun fs => kb.Holds p.tmp_b p.path_b old_b (.bytes p.data_b) fs ∧
        ((ka.Holds p.tmp_a p.path_a old_a (.bytes p.data_a) fs ∧
          fs p.path_a = some (ka.final old_a (.bytes p.data_a))) ∧ fs p.journal_path = some p.journal))
      (redrive [(p.tmp_b, p.path_b)])
      (fun _ fs => Journalled p old_a old_b ka kb fs ∧
        fs p.path_a = some (ka.final old_a (.bytes p.data_a)) ∧ fs p.path_b = some (kb.final old_b (.bytes p.data_b)))
      (fun fs => Resumable p old_a old_b ka kb fs ∧ ∃ i, env i ≠ .ok)
      (fun fs => Resumable p old_a old_b ka kb fs ∧ ∃ i, env i ≠ .ok) := by
    apply redrive_cons (by tauto)
    · intro fs fs' hothers hR
      have htmp : fs' p.tmp_a = fs p.tmp_a := hothers _ (by tauto) (by tauto)
      have hpath : fs' p.path_a = fs p.path_a := hothers _ (by tauto) (by tauto)
      have hjournal : fs' p.journal_path = fs p.journal_path := hothers _ (by tauto) (by tauto)
      exact ⟨⟨hR.1.1.congr htmp hpath, hpath.trans hR.1.2⟩, hjournal.trans hR.2⟩
    · exact fun henv fs hb hR => ⟨Or.inl ⟨hR.2, hR.1.1, hb⟩, henv⟩
    · intro fs hs
      exact ⟨⟨hs.2.2, hs.2.1.1, hs.1.1⟩, hs.2.1.2, hs.1.2⟩
  have hboth : Triple env (fun fs => ka.Holds p.tmp_a p.path_a old_a (.bytes p.data_a) fs ∧
        (fs p.journal_path = some p.journal ∧ kb.Holds p.tmp_b p.path_b old_b (.bytes p.data_b) fs))
      (redrive [(p.tmp_a, p.path_a), (p.tmp_b, p.path_b)])
      (fun _ fs => Journalled p old_a old_b ka kb fs ∧
        fs p.path_a = some (ka.final old_a (.bytes p.data_a)) ∧ fs p.path_b = some (kb.final old_b (.bytes p.data_b)))
      (fun fs => Resumable p old_a old_b ka kb fs ∧ ∃ i, env i ≠ .ok)
      (fun fs => Resumable p old_a old_b ka kb fs ∧ ∃ i, env i ≠ .ok) := by
    apply redrive_cons (by tauto)
    · intro fs fs' hothers hR
      have htmp : fs' p.tmp_b = fs p.tmp_b := hothers _ (by tauto) (by tauto)
      have hpath : fs' p.path_b = fs p.path_b := hothers _ (by tauto) (by tauto)
      have hjournal : fs' p.journal_path = fs p.journal_path := hothers _ (by tauto) (by tauto)
      exact ⟨hjournal.trans hR.1, hR.2.congr htmp hpath⟩
    · exact fun henv fs ha hR => ⟨Or.inl ⟨hR.1, ha, hR.2⟩, henv⟩
    · exact hsecond.imp (fun fs hs => ⟨hs.2.2, hs.1, hs.2.1⟩) (fun _ _ hs => hs) (fun _ hs => hs) (fun _ hs => hs)
  exact hboth.imp (fun fs hs => ⟨hs.a, hs.journal, hs.b⟩) (fun _ _ hs => hs) (fun _ hs => hs) (fun _ hs => hs)

/-- A recovery of a journal keeps what is left of each file, and finishes it when it returns. -/
theorem recover_journalled : Triple env (Journalled p old_a old_b ka kb) (recoverPendingPair p.journal_path)
    (fun found fs => found = true ∧ Done p old_a old_b ka kb fs)
    (fun fs => Resumable p old_a old_b ka kb fs ∧ ∃ i, env i ≠ .ok)
    (fun fs => Resumable p old_a old_b ka kb fs ∧ ∃ i, env i ≠ .ok) := by
  refine Triple.bind_sure (Triple.touch (fun henv _ hs => ⟨Or.inl hs, _, henv⟩))
    (fun _ _ => Triple.bind_read (fun content => ?_))
  intro fs hfs
  obtain ⟨hs, hread⟩ := hfs
  obtain rfl := hread.symm.trans hs.journal
  refine Triple.bind redrive_pair (fun _ => Triple.bind
    (syncAll_spec (fun henv fs hs => ⟨Or.inl hs.1, henv⟩) _) (fun _ => ?_)) fs hs
  -- The journal goes last.
  refine Triple.bind (Q := fun _ => Done p old_a old_b ka kb) ?_ (fun _ => ?_)
  · apply Triple.op
    · intro _ fs hs
      obtain ⟨fs', hfs', hdone⟩ := unlink_journal hs.1 hs.2.1 hs.2.2
      rw [hfs']
      exact hdone
    · exact fun henv _ hs => ⟨Or.inl hs.1, _, by rw [henv]; decide⟩
    · exact fun henv _ hs => ⟨Or.inl hs.1, _, by rw [henv]; decide⟩
  · exact Triple.bind_sure (Triple.touch (fun henv _ hs => ⟨Or.inr hs, _, henv⟩))
      (fun _ _ => Triple.ret (fun _ hs => ⟨rfl, hs⟩))

/-- Without a journal there is nothing to do. -/
theorem recover_done {fs : Files} (hjournal : fs p.journal_path = none) :
    (recoverPendingPair p.journal_path env fs).2 = fs := by
  have hnothing : Triple env (fun t => t = fs) (recoverPendingPair p.journal_path) (fun _ t => t = fs)
      (fun t => t = fs) (fun t => t = fs) := by
    refine Triple.bind_sure (Triple.touch (fun _ _ ht => ht)) (fun _ _ => Triple.bind_read (fun content => ?_))
    intro t ht
    have hnone : content = none := by rw [← ht.2, ht.1, hjournal]
    rw [hnone]
    exact ht.1
  exact hnothing.state (fun _ _ ht => ht) (fun _ ht => ht) (fun _ ht => ht) rfl

end recovery

/-! ## The call -/

section call

variable {env : Site → Outcome} {path tmp : Path}

theorem unlinkQuiet_spec {i : Site} {Q C : Files → Prop}
    (hok : env i = .ok → ∀ fs, P fs → Q (fs.set tmp none))
    (hfail : env i = .fail → ∀ fs, P fs → Q fs) (hcrash : env i = .crash → ∀ fs, P fs → C fs) :
    Triple env P (unlinkQuiet i tmp) (fun _ => Q) E C := by
  apply Triple.quiet
  apply Triple.op
  · intro henv fs hs
    have hset := hok henv fs hs
    cases hcontent : fs tmp with
    | none =>
      have hsame : fs.set tmp none = fs := by
        funext q
        by_cases hq : q = tmp
        · rw [hq, set_self, hcontent]
        · exact set_other hq
      rw [unlink, hcontent]
      rw [hsame] at hset
      exact hset
    | some content =>
      rw [unlink, hcontent]
      exact hset
  · exact hfail
  · exact hcrash

theorem stageTemp_spec {f : File} {data : Content}
    (hR : ∀ fs content, R fs → R (fs.set tmp content))
    (hE : ¬(env (.create f) = .ok ∧ env (.fill f) = .ok) → ∀ fs, R fs → E fs) :
    Triple env (fun fs => R fs ∧ fs tmp = none) (stageTemp f tmp data)
      (fun _ fs => (R fs ∧ fs tmp = some data) ∧ env (.create f) = .ok ∧ env (.fill f) = .ok) E E := by
  refine Triple.bind_sure (Q := fun _ => R) (A := env (.create f) = .ok) ?_ (fun _ hcreate => Triple.onError (H := fun fs =>
    R fs ∧ env (.fill f) ≠ .ok) ?_ ?_)
  · apply Triple.op
    · intro henv fs hs
      rw [create, hs.2]
      exact ⟨hR fs _ hs.1, henv⟩
    · exact fun henv fs hs => hE (by simp [henv]) fs hs.1
    · exact fun henv fs hs => hE (by simp [henv]) fs hs.1
  · apply Triple.op
    · exact fun henv fs hs => ⟨⟨hR fs _ hs, set_self⟩, hcreate, henv⟩
    · exact fun henv fs hs => ⟨hs, by simp [henv]⟩
    · exact fun henv fs hs => hE (by simp [henv]) fs hs
  · apply unlinkQuiet_spec
    · exact fun _ fs hs => hE (by simp [hs.2]) _ (hR fs none hs.1)
    · exact fun _ fs hs => hE (by simp [hs.2]) fs hs.1
    · exact fun _ fs hs => hE (by simp [hs.2]) fs hs.1

end call

/-- The operations of `Pair.stage`, without its cleanup. -/
def staging : List Site :=
  [.secure .a, .secure .b, .secure .journal, .create .a, .fill .a, .create .b, .fill .b]

/-- The operations up to the rename that publishes the journal. -/
def Pair.prior (p : Pair) : List Site :=
  staging ++ .sync .a :: (if p.Apart then [.sync .b] else []) ++ [.create .journal, .fill .journal, .publish .journal]

/-- The cleanup removes one of the two temporaries. -/
def Split (env : Site → Outcome) : Prop :=
  env (.clean .a) = .ok ∧ env (.clean .b) ≠ .ok ∨ env (.clean .a) = .fail ∧ env (.clean .b) = .ok

/-- The journal is published, its directory does not sync, and the cleanup removes one of the
two temporaries. -/
structure Torn (p : Pair) (env : Site → Outcome) : Prop where
  prior : ∀ i ∈ p.prior, env i = .ok
  sync : env (.sync .journal) = .fail
  dropJournal : env .dropJournal ≠ .crash
  split : Split env

section publish

variable {p : Pair} {old_a old_b : Content} {env : Site → Outcome}

theorem not_torn {i : Site} (henv : env i ≠ .ok) (hi : i ∈ p.prior) : ¬Torn p env :=
  fun htorn => henv (htorn.prior i hi)

theorem not_torn_stageTemp {f : File} (henv : ¬(env (.create f) = .ok ∧ env (.fill f) = .ok)) : ¬Torn p env := by
  intro htorn
  have hcreate : Site.create f ∈ p.prior := by cases f <;> simp [Pair.prior, staging]
  have hfill : Site.fill f ∈ p.prior := by cases f <;> simp [Pair.prior, staging]
  exact henv ⟨htorn.prior _ hcreate, htorn.prior _ hfill⟩

/-- What is there of the temporary of a file that is the old one. -/
def Kind.staged (k : Kind) (new : Content) : Option Content :=
  match k with
  | .half => some new
  | .lost => none

/-- The journal is published, and both files are the old ones. -/
structure Committed (p : Pair) (old_a old_b : Content) (ka kb : Kind) (fs : Files) : Prop where
  journal : fs p.journal_path = some p.journal
  a : fs p.path_a = some old_a
  b : fs p.path_b = some old_b
  tmp_a : fs p.tmp_a = ka.staged (.bytes p.data_a)
  tmp_b : fs p.tmp_b = kb.staged (.bytes p.data_b)

theorem Kind.staged_holds {k : Kind} {target tmp : Path} {old new : Content} {fs : Files} (htmp : fs tmp = k.staged new)
    (htarget : fs target = some old) : k.Holds tmp target old new fs := by
  cases k with
  | half => exact Or.inl ⟨htmp, htarget⟩
  | lost => exact ⟨htmp, htarget⟩

theorem Committed.journalled {ka kb : Kind} {fs : Files} (h : Committed p old_a old_b ka kb fs) :
    Journalled p old_a old_b ka kb fs :=
  ⟨h.journal, Kind.staged_holds h.tmp_a h.a, Kind.staged_holds h.tmp_b h.b⟩

/-- What a call leaves: the recovery can tell the two files apart where the publish is torn. -/
def Left (p : Pair) (old_a old_b : Content) (env : Site → Outcome) (fs : Files) : Prop :=
  ∃ ka kb, Resumable p old_a old_b ka kb fs ∧ (ka ≠ kb ↔ Torn p env)

/-- Nothing is published yet. -/
def Untouched (p : Pair) (old_a old_b : Content) (env : Site → Outcome) (fs : Files) : Prop :=
  Done p old_a old_b .lost .lost fs ∧ ¬Torn p env

theorem Untouched.left {fs : Files} (h : Untouched p old_a old_b env fs) : Left p old_a old_b env fs :=
  ⟨.lost, .lost, Or.inr h.1, by simp [h.2]⟩

theorem Start.done {fs : Files} (h : Start p old_a old_b fs) : Done p old_a old_b .lost .lost fs :=
  ⟨h.journal, h.a, h.b⟩

theorem Done.set {ka kb : Kind} {q : Path} {fs : Files} {content : Option Content} (h : Done p old_a old_b ka kb fs)
    (hjournal : p.journal_path ≠ q) (ha : p.path_a ≠ q) (hb : p.path_b ≠ q) :
    Done p old_a old_b ka kb (fs.set q content) :=
  ⟨(set_other hjournal).trans h.journal, (set_other ha).trans h.a, (set_other hb).trans h.b⟩

/-- Both temporaries are written. -/
structure Staged (p : Pair) (old_a old_b : Content) (fs : Files) : Prop where
  done : Done p old_a old_b .lost .lost fs
  tmp_a : fs p.tmp_a = some (.bytes p.data_a)
  tmp_b : fs p.tmp_b = some (.bytes p.data_b)
  journal_tmp : fs p.journal_tmp = none

/-- The cleanup keeps the journal. -/
theorem cleanup_spec : Triple env (Committed p old_a old_b .half .half) p.cleanup
    (fun _ fs => ∃ ka kb, Committed p old_a old_b ka kb fs ∧ (ka ≠ kb ↔ Split env)) P
    (fun fs => ∃ ka kb, Committed p old_a old_b ka kb fs ∧ (ka ≠ kb ↔ Split env)) := by
  have hdistinct := p.distinct
  simp only [List.nodup_cons, List.mem_cons, List.not_mem_nil, or_false, not_or] at hdistinct
  refine Triple.bind (Q := fun _ fs => env (.clean .a) = .ok ∧ Committed p old_a old_b .lost .half fs ∨
    env (.clean .a) = .fail ∧ Committed p old_a old_b .half .half fs) ?_ (fun _ => ?_)
  · apply unlinkQuiet_spec
    · intro henv fs hs
      refine Or.inl ⟨henv, ⟨?_, ?_, ?_, set_self, ?_⟩⟩
      · exact (set_other (by tauto)).trans hs.journal
      · exact (set_other (by tauto)).trans hs.a
      · exact (set_other (by tauto)).trans hs.b
      · exact (set_other (by tauto)).trans hs.tmp_b
    · exact fun henv fs hs => Or.inr ⟨henv, hs⟩
    · exact fun henv fs hs => ⟨.half, .half, hs, by simp [Split, henv]⟩
  · apply unlinkQuiet_spec
    · intro henv fs hs
      have hcommitted : ∀ ka, Committed p old_a old_b ka .half fs → Committed p old_a old_b ka .lost (fs.set p.tmp_b none) := by
        intro ka hs
        refine ⟨?_, ?_, ?_, ?_, set_self⟩
        · exact (set_other (by tauto)).trans hs.journal
        · exact (set_other (by tauto)).trans hs.a
        · exact (set_other (by tauto)).trans hs.b
        · exact (set_other (by tauto)).trans hs.tmp_a
      obtain ⟨ha, hs⟩ | ⟨ha, hs⟩ := hs
      · exact ⟨.lost, .lost, hcommitted _ hs, by simp [Split, ha, henv]⟩
      · exact ⟨.half, .lost, hcommitted _ hs, by simp [Split, ha, henv]⟩
    · intro henv fs hs
      obtain ⟨ha, hs⟩ | ⟨ha, hs⟩ := hs
      · exact ⟨.lost, .half, hs, by simp [Split, ha, henv]⟩
      · exact ⟨.half, .half, hs, by simp [Split, ha, henv]⟩
    · intro henv fs hs
      obtain ⟨ha, hs⟩ | ⟨ha, hs⟩ := hs
      · exact ⟨.lost, .half, hs, by simp [Split, ha, henv]⟩
      · exact ⟨.half, .half, hs, by simp [Split, ha, henv]⟩

theorem cleanup_untouched {C : Files → Prop} (hC : ∀ fs, Untouched p old_a old_b env fs → C fs) :
    Triple env (Untouched p old_a old_b env) p.cleanup (fun _ => Untouched p old_a old_b env) E C := by
  have hdistinct := p.distinct
  simp only [List.nodup_cons, List.mem_cons, List.not_mem_nil, or_false, not_or] at hdistinct
  refine Triple.bind (Q := fun _ => Untouched p old_a old_b env) ?_ (fun _ => ?_)
  · apply unlinkQuiet_spec
    · exact fun _ fs hs => ⟨hs.1.set (by tauto) (by tauto) (by tauto), hs.2⟩
    · exact fun _ fs hs => hs
    · exact fun _ => hC
  · apply unlinkQuiet_spec
    · exact fun _ fs hs => ⟨hs.1.set (by tauto) (by tauto) (by tauto), hs.2⟩
    · exact fun _ fs hs => hs
    · exact fun _ => hC

/-- The temporaries are written, or nothing is published. -/
theorem stage_spec : Triple env (Start p old_a old_b) p.stage
    (fun _ fs => Staged p old_a old_b fs ∧ ∀ i ∈ staging, env i = .ok)
    (Untouched p old_a old_b env) (Untouched p old_a old_b env) := by
  have hdistinct := p.distinct
  simp only [List.nodup_cons, List.mem_cons, List.not_mem_nil, or_false, not_or] at hdistinct
  refine Triple.bind_sure (Triple.touch (fun henv fs hs => ⟨hs.done, not_torn henv (by simp [Pair.prior, staging])⟩))
    (fun _ ha => ?_)
  refine Triple.bind_sure (Triple.touch (fun henv fs hs => ⟨hs.done, not_torn henv (by simp [Pair.prior, staging])⟩))
    (fun _ hb => ?_)
  refine Triple.bind_sure (Triple.touch (fun henv fs hs => ⟨hs.done, not_torn henv (by simp [Pair.prior, staging])⟩))
    (fun _ hjournal => ?_)
  refine Triple.bind_sure (Q := fun _ fs => (Done p old_a old_b .lost .lost fs ∧ fs p.tmp_b = none ∧ fs p.journal_tmp = none) ∧
      fs p.tmp_a = some (.bytes p.data_a)) ((stageTemp_spec ?_ ?_).imp
        (fun fs hs => ⟨⟨hs.done, hs.tmp_b, hs.journal_tmp⟩, hs.tmp_a⟩) (fun _ _ hs => hs) (fun _ hs => hs) (fun _ hs => hs))
    (fun _ hsta => Triple.onError (H := Untouched p old_a old_b env) ((stageTemp_spec (R := fun fs =>
      Done p old_a old_b .lost .lost fs ∧ fs p.tmp_a = some (.bytes p.data_a) ∧ fs p.journal_tmp = none) ?_ ?_).imp
        (fun fs hs => ⟨⟨hs.1.1, hs.2, hs.1.2.2⟩, hs.1.2.1⟩) (fun _ fs hs => ?_) (fun _ hs => hs) (fun _ hs => hs)) ?_)
  · intro fs content hs
    exact ⟨hs.1.set (by tauto) (by tauto) (by tauto), (set_other (by tauto)).trans hs.2.1,
      (set_other (by tauto)).trans hs.2.2⟩
  · intro hfail fs hs
    exact ⟨hs.1, not_torn_stageTemp hfail⟩
  · intro fs content hs
    exact ⟨hs.1.set (by tauto) (by tauto) (by tauto), (set_other (by tauto)).trans hs.2.1,
      (set_other (by tauto)).trans hs.2.2⟩
  · intro hfail fs hs
    exact ⟨hs.1, not_torn_stageTemp hfail⟩
  · refine ⟨⟨hs.1.1.1, hs.1.1.2.1, hs.1.2, hs.1.1.2.2⟩, ?_⟩
    simp [staging, ha, hb, hjournal, hsta, hs.2]
  · apply unlinkQuiet_spec
    · exact fun _ fs hs => ⟨hs.1.set (by tauto) (by tauto) (by tauto), hs.2⟩
    · exact fun _ fs hs => hs
    · exact fun _ fs hs => hs

theorem Committed.left {ka kb : Kind} {fs : Files} (h : Committed p old_a old_b ka kb fs) (hne : ka ≠ kb ↔ Torn p env) :
    Left p old_a old_b env fs :=
  ⟨ka, kb, Or.inl h.journalled, hne⟩

/-- The commit point: the rename of the journal, and then the `fsync` of its directory. -/
theorem commit_journal (hprior : ∀ i ∈ p.prior, i ≠ .publish .journal → env i = .ok) :
    Triple env (fun fs => (Done p old_a old_b .lost .lost fs ∧ fs p.tmp_a = some (.bytes p.data_a) ∧
        fs p.tmp_b = some (.bytes p.data_b)) ∧ fs p.journal_tmp = some p.journal)
      (onError (bind (op (.publish .journal) (replace p.journal_tmp p.journal_path)) fun _ => touch (.sync .journal))
        (unlinkQuiet .dropJournal p.journal_tmp))
      (fun _ fs => Committed p old_a old_b .half .half fs ∧ ¬Torn p env)
      (fun fs => Untouched p old_a old_b env fs ∨ Committed p old_a old_b .half .half fs ∧ (Torn p env ↔ Split env))
      (Left p old_a old_b env) := by
  have hdistinct := p.distinct
  simp only [List.nodup_cons, List.mem_cons, List.not_mem_nil, or_false, not_or] at hdistinct
  have hpublish : Site.publish .journal ∈ p.prior := by simp [Pair.prior]
  refine Triple.onError (H := fun fs => Untouched p old_a old_b env fs ∨ Committed p old_a old_b .half .half fs ∧
    env (.publish .journal) = .ok ∧ env (.sync .journal) = .fail) (Triple.bind_sure (Q := fun _ =>
      Committed p old_a old_b .half .half) (A := env (.publish .journal) = .ok) ?_ (fun _ hok => ?_)) ?_
  · apply Triple.op
    · intro henv fs hs
      have hsome : (fs p.journal_tmp).isSome = true := by
        rw [hs.2]
        rfl
      obtain ⟨fs', hfs'⟩ := replace_isSome p.journal_path hsome
      obtain ⟨-, hjournal, hothers⟩ := replace_eq_some hfs' (by tauto)
      rw [hfs']
      refine ⟨⟨hjournal.trans hs.2, ?_, ?_, ?_, ?_⟩, henv⟩
      · exact (hothers _ (by tauto) (by tauto)).trans hs.1.1.a
      · exact (hothers _ (by tauto) (by tauto)).trans hs.1.1.b
      · exact (hothers _ (by tauto) (by tauto)).trans hs.1.2.1
      · exact (hothers _ (by tauto) (by tauto)).trans hs.1.2.2
    · exact fun henv fs hs => Or.inl ⟨hs.1.1, not_torn (by simp [henv]) hpublish⟩
    · exact fun henv fs hs => Untouched.left ⟨hs.1.1, not_torn (by simp [henv]) hpublish⟩
  · apply Triple.op
    · exact fun henv fs hs => ⟨hs, fun htorn => by simp [htorn.sync] at henv⟩
    · exact fun henv fs hs => Or.inr ⟨hs, hok, henv⟩
    · exact fun henv fs hs => hs.left (iff_of_false (by simp) (fun htorn => by simp [htorn.sync] at henv))
  · have htorn : env (.publish .journal) = .ok → env (.sync .journal) = .fail → env .dropJournal ≠ .crash →
        (Torn p env ↔ Split env) := by
      intro hok hsync hdrop
      refine ⟨fun h => h.split, fun h => ⟨fun i hi => ?_, hsync, hdrop, h⟩⟩
      by_cases hne : i = .publish .journal
      · rw [hne, hok]
      · exact hprior i hi hne
    apply unlinkQuiet_spec
    · intro henv fs hs
      obtain huntouched | ⟨hs, hok, hsync⟩ := hs
      · exact Or.inl ⟨huntouched.1.set (by tauto) (by tauto) (by tauto), huntouched.2⟩
      · refine Or.inr ⟨⟨?_, ?_, ?_, ?_, ?_⟩, htorn hok hsync (by simp [henv])⟩
        · exact (set_other (by tauto)).trans hs.journal
        · exact (set_other (by tauto)).trans hs.a
        · exact (set_other (by tauto)).trans hs.b
        · exact (set_other (by tauto)).trans hs.tmp_a
        · exact (set_other (by tauto)).trans hs.tmp_b
    · intro henv fs hs
      obtain huntouched | ⟨hs, hok, hsync⟩ := hs
      · exact Or.inl huntouched
      · exact Or.inr ⟨hs, htorn hok hsync (by simp [henv])⟩
    · intro henv fs hs
      obtain huntouched | ⟨hs, hok, hsync⟩ := hs
      · exact huntouched.left
      · exact hs.left (iff_of_false (by simp) (fun htorn => htorn.dropJournal henv))

/-- The journal is published, or the cleanup finds the old pair. -/
theorem commit_spec (hstaging : ∀ i ∈ staging, env i = .ok) : Triple env (Staged p old_a old_b) p.commit
    (fun _ fs => Committed p old_a old_b .half .half fs ∧ ¬Torn p env)
    (fun fs => Untouched p old_a old_b env fs ∨ Committed p old_a old_b .half .half fs ∧ (Torn p env ↔ Split env))
    (Left p old_a old_b env) := by
  have hdistinct := p.distinct
  simp only [List.nodup_cons, List.mem_cons, List.not_mem_nil, or_false, not_or] at hdistinct
  have hsyncs : Triple env (Staged p old_a old_b) (if p.Apart then touch (.sync .b) else ret ())
      (fun _ fs => Staged p old_a old_b fs ∧ (p.Apart → env (.sync .b) = .ok))
      (Untouched p old_a old_b env) (Untouched p old_a old_b env) := by
    by_cases hapart : p.Apart
    · rw [if_pos hapart]
      exact (Triple.touch (fun henv fs hs => ⟨hs.done, not_torn henv (by simp [Pair.prior, hapart])⟩)).imp
        (fun _ hs => hs) (fun _ _ hs => ⟨hs.1, fun _ => hs.2⟩) (fun _ hs => hs) (fun _ hs => hs)
    · rw [if_neg hapart]
      exact Triple.ret (fun _ hs => ⟨hs, fun h => absurd h hapart⟩)
  refine Triple.bind_sure ((Triple.touch (fun henv fs hs => ⟨hs.done, not_torn henv (by simp [Pair.prior])⟩)).imp
    (fun _ hs => hs) (fun _ _ hs => hs) (fun _ hs => Or.inl hs) (fun _ hs => hs.left)) (fun _ ha => ?_)
  refine Triple.bind_sure (hsyncs.imp (fun _ hs => hs) (fun _ _ hs => hs) (fun _ hs => Or.inl hs) (fun _ hs => hs.left))
    (fun _ hb => ?_)
  refine Triple.bind_sure ((stageTemp_spec (R := fun fs => Done p old_a old_b .lost .lost fs ∧
      fs p.tmp_a = some (.bytes p.data_a) ∧ fs p.tmp_b = some (.bytes p.data_b)) ?_
      (fun henv fs hs => ⟨hs.1, not_torn_stageTemp henv⟩)).imp
    (fun fs hs => ⟨⟨hs.done, hs.tmp_a, hs.tmp_b⟩, hs.journal_tmp⟩) (fun _ _ hs => hs) (fun _ hs => Or.inl hs)
    (fun _ hs => hs.left)) (fun _ hjournal => ?_)
  · intro fs content hs
    exact ⟨hs.1.set (by tauto) (by tauto) (by tauto), (set_other (by tauto)).trans hs.2.1,
      (set_other (by tauto)).trans hs.2.2⟩
  · apply commit_journal
    intro i hi hne
    have hcases : i ∈ staging ∨ i = .sync .a ∨ (p.Apart ∧ i = .sync .b) ∨ i = .create .journal ∨ i = .fill .journal := by
      simp only [Pair.prior, List.mem_append, List.mem_cons, List.not_mem_nil, or_false] at hi
      split_ifs at hi with hapart
      · simp only [List.mem_cons, List.not_mem_nil, or_false] at hi
        tauto
      · simp only [List.not_mem_nil] at hi
        tauto
    rcases hcases with hi | rfl | ⟨hapart, rfl⟩ | rfl | rfl
    · exact hstaging i hi
    · exact ha
    · exact hb hapart
    · exact hjournal.1
    · exact hjournal.2

theorem publish_spec (htorn : ¬Torn p env) : Triple env (Committed p old_a old_b .half .half) p.publish
    (fun _ => Done p old_a old_b .half .half) (Left p old_a old_b env) (Left p old_a old_b env) := by
  have hdistinct := p.distinct
  simp only [List.nodup_cons, List.mem_cons, List.not_mem_nil, or_false, not_or] at hdistinct
  have hleft : ∀ fs, Journalled p old_a old_b .half .half fs → Left p old_a old_b env fs :=
    fun fs hs => ⟨.half, .half, Or.inl hs, by simp [htorn]⟩
  have hfirst : Triple env (Committed p old_a old_b .half .half) (op (.publish .a) (replace p.tmp_a p.path_a))
      (fun _ fs => Journalled p old_a old_b .half .half fs ∧ fs p.path_a = some (.bytes p.data_a) ∧
        fs p.tmp_b = some (.bytes p.data_b)) (Left p old_a old_b env) (Left p old_a old_b env) := by
    refine (rename_spec (k := .half) old_a (.bytes p.data_a) (by tauto) (R := fun fs =>
      fs p.journal_path = some p.journal ∧ fs p.path_b = some old_b ∧ fs p.tmp_b = some (.bytes p.data_b)) ?_ ?_).imp
      (fun fs hs => ⟨⟨hs.journalled.a, hs.journal, hs.b, hs.tmp_b⟩, by rw [hs.tmp_a]; rfl⟩)
      (fun _ fs hs => ⟨⟨hs.2.1, hs.1.1, Or.inl ⟨hs.2.2.2, hs.2.2.1⟩⟩, hs.1.2, hs.2.2.2⟩) (fun _ hs => hs) (fun _ hs => hs)
    · intro fs fs' hothers hR
      have hjournal : fs' p.journal_path = fs p.journal_path := hothers _ (by tauto) (by tauto)
      have hpath : fs' p.path_b = fs p.path_b := hothers _ (by tauto) (by tauto)
      have htmp : fs' p.tmp_b = fs p.tmp_b := hothers _ (by tauto) (by tauto)
      exact ⟨hjournal.trans hR.1, hpath.trans hR.2.1, htmp.trans hR.2.2⟩
    · exact fun _ fs ha hR => hleft fs ⟨hR.1, ha, Or.inl ⟨hR.2.2, hR.2.1⟩⟩
  have hsecond : Triple env (fun fs => Journalled p old_a old_b .half .half fs ∧ fs p.path_a = some (.bytes p.data_a) ∧
        fs p.tmp_b = some (.bytes p.data_b)) (op (.publish .b) (replace p.tmp_b p.path_b))
      (fun _ fs => Journalled p old_a old_b .half .half fs ∧ fs p.path_a = some (.bytes p.data_a) ∧
        fs p.path_b = some (.bytes p.data_b)) (Left p old_a old_b env) (Left p old_a old_b env) := by
    refine (rename_spec (k := .half) old_b (.bytes p.data_b) (by tauto) (R := fun fs =>
      fs p.journal_path = some p.journal ∧ Kind.half.Holds p.tmp_a p.path_a old_a (.bytes p.data_a) fs ∧
        fs p.path_a = some (.bytes p.data_a)) ?_ ?_).imp
      (fun fs hs => ⟨⟨hs.1.b, hs.1.journal, hs.1.a, hs.2.1⟩, by rw [hs.2.2]; rfl⟩)
      (fun _ fs hs => ⟨⟨hs.2.1, hs.2.2.1, hs.1.1⟩, hs.2.2.2, hs.1.2⟩) (fun _ hs => hs) (fun _ hs => hs)
    · intro fs fs' hothers hR
      have hjournal : fs' p.journal_path = fs p.journal_path := hothers _ (by tauto) (by tauto)
      have hpath : fs' p.path_a = fs p.path_a := hothers _ (by tauto) (by tauto)
      have htmp : fs' p.tmp_a = fs p.tmp_a := hothers _ (by tauto) (by tauto)
      exact ⟨hjournal.trans hR.1, hR.2.1.congr htmp hpath, hpath.trans hR.2.2⟩
    · exact fun _ fs hb hR => hleft fs ⟨hR.1, hR.2.1, hb⟩
  refine Triple.bind hfirst (fun _ => Triple.bind hsecond (fun _ => ?_))
  refine Triple.bind_sure (Triple.touch (fun _ fs hs => hleft fs hs.1)) (fun _ _ => ?_)
  have hresync : Triple env (fun fs => Journalled p old_a old_b .half .half fs ∧ fs p.path_a = some (.bytes p.data_a) ∧
        fs p.path_b = some (.bytes p.data_b)) (if p.Apart then touch (.resync .b) else ret ())
      (fun _ fs => Journalled p old_a old_b .half .half fs ∧ fs p.path_a = some (.bytes p.data_a) ∧
        fs p.path_b = some (.bytes p.data_b)) (Left p old_a old_b env) (Left p old_a old_b env) := by
    split_ifs
    · exact (Triple.touch (fun _ fs hs => hleft fs hs.1)).imp (fun _ hs => hs) (fun _ _ hs => hs.1) (fun _ hs => hs)
        (fun _ hs => hs)
    · exact Triple.ret (fun _ hs => hs)
  refine Triple.bind hresync (fun _ => Triple.bind (Q := fun _ => Done p old_a old_b .half .half) ?_ (fun _ => ?_))
  · apply Triple.op
    · intro _ fs hs
      obtain ⟨fs', hfs', hdone⟩ := unlink_journal hs.1 hs.2.1 hs.2.2
      rw [hfs']
      exact hdone
    · exact fun _ fs hs => hleft fs hs.1
    · exact fun _ fs hs => hleft fs hs.1
  · exact (Triple.touch (fun _ fs hs => ⟨.half, .half, Or.inr hs, by simp [htorn]⟩)).imp (fun _ hs => hs)
      (fun _ _ hs => hs.1) (fun _ hs => hs) (fun _ hs => hs)

/-- What a call leaves, wherever it ends. -/
theorem atomic_write_pair_spec : Triple env (Start p old_a old_b) (atomicWritePair p)
    (fun _ fs => Done p old_a old_b .half .half fs ∧ ¬Torn p env) (Left p old_a old_b env) (Left p old_a old_b env) := by
  refine Triple.bind_sure (stage_spec.imp (fun _ hs => hs) (fun _ _ hs => hs) (fun _ hs => hs.left) (fun _ hs => hs.left))
    (fun _ hstaging => Triple.bind_sure (A := ¬Torn p env) (Triple.onError (commit_spec hstaging) ?_) (fun _ htorn => ?_))
  · intro fs hs
    obtain huntouched | ⟨hcommitted, hsplit⟩ := hs
    · exact (cleanup_untouched (fun _ hs => hs)).imp (fun _ hs => hs) (fun _ _ hs => hs.left) (fun _ hs => hs)
        (fun _ hs => hs.left) fs huntouched
    · have hleft : ∀ fs, (∃ ka kb, Committed p old_a old_b ka kb fs ∧ (ka ≠ kb ↔ Split env)) → Left p old_a old_b env fs := by
        intro fs h
        obtain ⟨ka, kb, hfs, hne⟩ := h
        exact ⟨ka, kb, Or.inl hfs.journalled, hne.trans hsplit.symm⟩
      exact cleanup_spec.imp (fun _ hs => hs) (fun _ => hleft) (fun _ hs => hs) hleft fs hcommitted
  · exact Triple.bind (publish_spec htorn) (fun _ => Triple.ret (fun _ hs => ⟨hs, htorn⟩))

end publish

/-! ## Atomicity -/

section atomic

variable {p : Pair} {old_a old_b : Content} {ka kb : Kind}

/-- Recoveries one after the other, each of which can be interrupted. -/
def recovered (journal_path : Path) (envs : List (RecoverSite → Outcome)) (fs : Files) : Files :=
  envs.foldl (fun fs env => (recoverPendingPair journal_path env fs).2) fs

/-- One recovery keeps what is left of each file. -/
theorem Resumable.recover {fs : Files} (h : Resumable p old_a old_b ka kb fs) (env : RecoverSite → Outcome) :
    Resumable p old_a old_b ka kb (recoverPendingPair p.journal_path env fs).2 := by
  obtain hjournalled | hdone := h
  · exact recover_journalled.state (fun _ _ hs => Or.inr hs.2) (fun _ hs => hs.1) (fun _ hs => hs.1) hjournalled
  · rw [recover_done hdone.journal]
    exact Or.inr hdone

theorem Resumable.recovered {fs : Files} (h : Resumable p old_a old_b ka kb fs) (envs : List (RecoverSite → Outcome)) :
    Resumable p old_a old_b ka kb (recovered p.journal_path envs fs) := by
  induction envs generalizing fs with
  | nil => exact h
  | cons env envs ih => exact ih (h.recover env)

theorem recovered_done {fs : Files} (hjournal : fs p.journal_path = none) (envs : List (RecoverSite → Outcome)) :
    recovered p.journal_path envs fs = fs := by
  induction envs with
  | nil => rfl
  | cons env envs ih =>
    show recovered p.journal_path envs (recoverPendingPair p.journal_path env fs).2 = fs
    rw [recover_done hjournal]
    exact ih

theorem Resumable.returned {fs fs' : Files} (h : Resumable p old_a old_b ka kb fs) {env : RecoverSite → Outcome} {found : Bool}
    (hrun : recoverPendingPair p.journal_path env fs = (.returned found, fs')) : Done p old_a old_b ka kb fs' := by
  obtain hjournalled | hdone := h
  · exact (recover_journalled.returned hjournalled hrun).2
  · have hsame : (recoverPendingPair p.journal_path env fs).2 = fs := recover_done hdone.journal
    rw [hrun] at hsame
    have hfs : fs' = fs := hsame
    rw [hfs]
    exact hdone

theorem Resumable.returns {fs : Files} (h : Resumable p old_a old_b ka kb fs) :
    ∃ found fs', recoverPendingPair p.journal_path (fun _ => .ok) fs = (.returned found, fs') := by
  obtain hjournalled | hdone := h
  · have hend := (recover_journalled : Triple (fun _ => .ok) _ _ _ _ _) fs hjournalled
    rcases hrun : recoverPendingPair p.journal_path (fun _ => .ok) fs with ⟨r, fs'⟩
    rw [hrun] at hend
    cases r with
    | returned found => exact ⟨found, fs', rfl⟩
    | raised => exact absurd hend.2 (by simp)
    | crashed => exact absurd hend.2 (by simp)
  · refine ⟨false, fs, ?_⟩
    simp [recoverPendingPair, Program.bind, touch, Program.op, Program.read, hdone.journal, Program.ret]

/-- Both files are the old ones. -/
def OldPair (p : Pair) (old_a old_b : Content) (fs : Files) : Prop := fs p.path_a = some old_a ∧ fs p.path_b = some old_b

/-- Both files are the new ones. -/
def NewPair (p : Pair) (fs : Files) : Prop :=
  fs p.path_a = some (.bytes p.data_a) ∧ fs p.path_b = some (.bytes p.data_b)

/-- After any recoveries of which the last one returns, the pair is not mixed, it is the new one
if the call returned, and further recoveries change nothing. -/
def Atomic (p : Pair) (old_a old_b : Content) (env : Site → Outcome) (s : Files) : Prop :=
  ∀ envs env' found fs',
    recoverPendingPair p.journal_path env' (recovered p.journal_path envs (atomicWritePair p env s).2) =
      (.returned found, fs') →
    (OldPair p old_a old_b fs' ∨ NewPair p fs') ∧
    ((∃ paths, (atomicWritePair p env s).1 = .returned paths) → NewPair p fs') ∧
    ∀ envs', recovered p.journal_path envs' fs' = fs'

/-- The pair is published atomically unless the publish is torn, and both files change. -/
theorem atomic_write_pair_iff (p : Pair) (old_a old_b : Content) (env : Site → Outcome) (s : Files)
    (hstart : Start p old_a old_b s) :
    Atomic p old_a old_b env s ↔ (Torn p env → old_a = .bytes p.data_a ∨ old_b = .bytes p.data_b) := by
  have hleft : Left p old_a old_b env (atomicWritePair p env s).2 :=
    atomic_write_pair_spec.state (fun _ _ hs => ⟨.half, .half, Or.inr hs.1, by simp [hs.2]⟩) (fun _ hs => hs)
      (fun _ hs => hs) hstart
  constructor
  · intro hatomic htorn
    obtain ⟨ka, kb, hleft, hne⟩ := hleft
    obtain ⟨found, fs', hrun⟩ := hleft.returns
    have hdone := hleft.returned hrun
    have hpair := (hatomic [] _ found fs' hrun).1
    cases ka with
    | half =>
      cases kb with
      | half => exact absurd rfl (hne.mpr htorn)
      | lost =>
        obtain hold | hnew := hpair
        · exact Or.inl (Option.some.inj (hold.1.symm.trans hdone.a))
        · exact Or.inr (Option.some.inj (hdone.b.symm.trans hnew.2))
    | lost =>
      cases kb with
      | half =>
        obtain hold | hnew := hpair
        · exact Or.inr (Option.some.inj (hold.2.symm.trans hdone.b))
        · exact Or.inl (Option.some.inj (hdone.a.symm.trans hnew.1))
      | lost => exact absurd rfl (hne.mpr htorn)
  · intro hsame envs env' found fs' hrun
    refine ⟨?_, ?_, ?_⟩
    · obtain ⟨ka, kb, hleft, hne⟩ := hleft
      have hdone := (hleft.recovered envs).returned hrun
      cases ka with
      | half =>
        cases kb with
        | half => exact Or.inr ⟨hdone.a, hdone.b⟩
        | lost =>
          obtain hold | hold := hsame (hne.mp (by simp))
          · exact Or.inl ⟨by rw [hold]; exact hdone.a, hdone.b⟩
          · exact Or.inr ⟨hdone.a, by rw [← hold]; exact hdone.b⟩
      | lost =>
        cases kb with
        | half =>
          obtain hold | hold := hsame (hne.mp (by simp))
          · exact Or.inr ⟨by rw [← hold]; exact hdone.a, hdone.b⟩
          · exact Or.inl ⟨hdone.a, by rw [hold]; exact hdone.b⟩
        | lost => exact Or.inl ⟨hdone.a, hdone.b⟩
    · intro hreturned
      obtain ⟨paths, hpaths⟩ := hreturned
      have hdone : Done p old_a old_b .half .half (atomicWritePair p env s).2 :=
        (atomic_write_pair_spec.returned hstart (Prod.ext hpaths rfl)).1
      have hend := (Resumable.recovered (Or.inr hdone) envs).returned hrun
      exact ⟨hend.a, hend.b⟩
    · obtain ⟨ka, kb, hleft, -⟩ := hleft
      exact recovered_done ((hleft.recovered envs).returned hrun).journal

end atomic

/-- The publish of a rotated identity. -/
def rotatedPair : Pair where
  path_a := ⟨"/state/keys", "master.seed"⟩
  path_b := ⟨"/state", "agent-card.json"⟩
  journal_path := ⟨"/state", ".pending-identity-pair.json"⟩
  data_a := [1]
  data_b := [2]
  tmp_a := ⟨"/state/keys", ".tmp-pair-a"⟩
  tmp_b := ⟨"/state", ".tmp-pair-b"⟩
  journal_tmp := ⟨"/state", ".tmp-pair-c"⟩
  distinct := by decide

/-- The two files before the rotation. -/
def heldFiles : Files := fun q =>
  if q = rotatedPair.path_a then some (.bytes [3]) else if q = rotatedPair.path_b then some (.bytes [4]) else none

/-- The directory of the journal does not sync, and the process dies in the cleanup. -/
def syncFails : Site → Outcome
  | .sync .journal => .fail
  | .clean .b => .crash
  | _ => .ok

theorem heldFiles_start : Start rotatedPair (.bytes [3]) (.bytes [4]) heldFiles :=
  ⟨by decide, by decide, by decide, by decide, by decide, by decide⟩

/-- The recovery publishes the new card beside the old seed. -/
theorem pair_torn : Start rotatedPair (.bytes [3]) (.bytes [4]) heldFiles ∧
    ¬Atomic rotatedPair (.bytes [3]) (.bytes [4]) syncFails heldFiles := by
  refine ⟨heldFiles_start, fun hatomic => ?_⟩
  have hend : (recoverPendingPair rotatedPair.journal_path (fun _ => .ok)
      (atomicWritePair rotatedPair syncFails heldFiles).2).1 = .returned true := by decide
  have ha : (recoverPendingPair rotatedPair.journal_path (fun _ => .ok)
      (atomicWritePair rotatedPair syncFails heldFiles).2).2 rotatedPair.path_a = some (.bytes [3]) := by decide
  have hb : (recoverPendingPair rotatedPair.journal_path (fun _ => .ok)
      (atomicWritePair rotatedPair syncFails heldFiles).2).2 rotatedPair.path_b = some (.bytes [2]) := by decide
  obtain hold | hnew := (hatomic [] (fun _ => .ok) true _ (Prod.ext hend rfl)).1
  · exact absurd (hb.symm.trans hold.2) (by decide)
  · exact absurd (ha.symm.trans hnew.1) (by decide)

/-- The publish is atomic when its only failure is that of the first rename. -/
theorem atomic_write_pair_rename_fails : Atomic rotatedPair (.bytes [3]) (.bytes [4])
    (fun i => if i = .publish .a then .fail else .ok) heldFiles :=
  (atomic_write_pair_iff rotatedPair (.bytes [3]) (.bytes [4]) _ heldFiles heldFiles_start).mpr
    (fun htorn => absurd htorn.sync (by decide))

end MuseAgentSocial.KeyFiles
