import MuseAgentSocial.Lib.Cooperate
import MuseAgentSocial.Store.Migrations

/-!
# Setting a database up

Any number of processes set one database up at the same time, statement by statement, and
any of them may fail or die at any point.

* `Grown` is what every statement does to the schema: nothing is dropped, the version does
  not fall, and a row's attestation changes to what its approval says.
* `Sound` says what a version stands for: the tables and columns of the migrations up to it,
  and the attestations.  A column of a later migration may be there already.
* `Allowed` is the guarantee of all processes, and `calls_setUp` follows `setUp` through
  them: when it returns, the schema is `Complete`.
* `setUp_safe` is the result for every run, and `setUp_converges` says that the next process
  that is not disturbed finishes the work, whatever the others have left.
-/

namespace MuseAgentSocial.Migrations

open Sqlite Store Model Crypto

/-! ## What a schema may become -/

/-- Some approval in the database is the one that the request names. -/
def named (s : Schema) (r : Request) : Bool := r.approval_record_id.any (· ∈ s.approvals)

/-- What a migration may do to a row of `human_requests`. -/
def Marked (s : Schema) (r r' : Request) : Prop :=
  r'.approval_record_id = r.approval_record_id ∧
    (r'.attestation = r.attestation ∨ (r.attestation = none ∧ r'.attestation = some .peer) ∨
      (r'.attestation = some .local ∧ named s r = true))

/-- What every statement of the programs does. -/
structure Grown (s s' : Schema) : Prop where
  version : s.user_version ≤ s'.user_version
  bounded : s.user_version ≤ SCHEMA_VERSION → s'.user_version ≤ SCHEMA_VERSION
  tables : s.tables ⊆ s'.tables
  columns : s.columns ⊆ s'.columns
  indexes : s.indexes ⊆ s'.indexes
  triggers : s.triggers ⊆ s'.triggers
  guarded : 1 ≤ s.user_version → s'.triggers = s.triggers
  approvals : s'.approvals = s.approvals
  deliveries : s'.deliveries = s.deliveries
  requests : List.Forall₂ (Marked s) s.requests s'.requests

/-- What the migration to a version leaves. -/
def Level (s : Schema) : Nat → Prop
  | 1 => ∀ t, Ddl.createTable t ∈ V1_DDL → t ∈ s.tables
  | 2 => ∀ t, Ddl.createTable t ∈ V2_DDL → t ∈ s.tables
  | 3 => Column.attestation ∈ s.columns ∧ ∀ r ∈ s.requests, named s r = true → r.attestation = some .local
  | 5 => ∀ t, Ddl.createTable t ∈ V5_DDL → t ∈ s.tables
  | _ => True

/-- The version stands for what the migrations up to it leave.  Version 4 is none of them: a
database may have it without the column. -/
structure Sound (s : Schema) : Prop where
  shape : Column.attestation ∉ s.columns → ∀ r ∈ s.requests, r.attestation = none
  levels : ∀ v ≤ s.user_version, Level s v

/-- The triggers are there from version 1 on. -/
def Intact (s : Schema) : Prop := 1 ≤ s.user_version → ∀ t, t ∈ s.triggers

/-- The guarantee of every process. -/
structure Allowed (s s' : Schema) : Prop extends Grown s s' where
  sound : Sound s → Sound s'
  intact : Intact s → Intact s'

variable {r' : Request} {v : Nat} {P : Schema → Prop} {β α : Type} {ddl : List Ddl}

section growth

variable {s s' s'' : Schema}

theorem marked_refl (s : Schema) (r : Request) : Marked s r r := ⟨rfl, Or.inl rfl⟩

theorem named_congr {r : Request} (ha : s'.approvals = s.approvals)
    (hr : r'.approval_record_id = r.approval_record_id) : named s' r' = named s r := by
  unfold named
  rw [ha, hr]

theorem Marked.trans {r r'' : Request} (ha : s'.approvals = s.approvals) (h : Marked s r r')
    (h' : Marked s' r' r'') : Marked s r r'' := by
  refine ⟨h'.1.trans h.1, ?_⟩
  rcases h'.2 with heq | ⟨hnone, hpeer⟩ | ⟨hlocal, hnamed⟩
  · rw [heq]
    exact h.2
  · rcases h.2 with heq | ⟨-, hpeer'⟩ | ⟨hlocal', -⟩
    · exact Or.inr (Or.inl ⟨heq ▸ hnone, hpeer⟩)
    · rw [hnone] at hpeer'
      cases hpeer'
    · rw [hnone] at hlocal'
      cases hlocal'
  · exact Or.inr (Or.inr ⟨hlocal, named_congr ha h.1 ▸ hnamed⟩)

theorem forall₂_marked_refl (s : Schema) (rs : List Request) : List.Forall₂ (Marked s) rs rs :=
  List.forall₂_same.mpr (fun r _ => marked_refl s r)

theorem Grown.refl (s : Schema) : Grown s s where
  version := Nat.le_refl _
  bounded := id
  tables := List.Subset.refl _
  columns := List.Subset.refl _
  indexes := List.Subset.refl _
  triggers := List.Subset.refl _
  guarded := fun _ => rfl
  approvals := rfl
  deliveries := rfl
  requests := forall₂_marked_refl s _

theorem Grown.trans (h : Grown s s') (h' : Grown s' s'') : Grown s s'' where
  version := Nat.le_trans h.version h'.version
  bounded := h'.bounded ∘ h.bounded
  tables := List.Subset.trans h.tables h'.tables
  columns := List.Subset.trans h.columns h'.columns
  indexes := List.Subset.trans h.indexes h'.indexes
  triggers := List.Subset.trans h.triggers h'.triggers
  guarded := fun hv => (h'.guarded (Nat.le_trans hv h.version)).trans (h.guarded hv)
  approvals := h'.approvals.trans h.approvals
  deliveries := h'.deliveries.trans h.deliveries
  requests := by
    have hrel : ∀ {rs rs' rs'' : List Request}, List.Forall₂ (Marked s) rs rs' → List.Forall₂ (Marked s') rs' rs'' →
        List.Forall₂ (Marked s) rs rs'' := by
      intro rs rs' rs'' h₁
      induction h₁ generalizing rs'' with
      | nil =>
        intro h₂
        cases h₂
        exact List.Forall₂.nil
      | cons hr _ ih =>
        intro h₂
        cases h₂ with
        | cons hr' h₂ => exact List.Forall₂.cons (hr.trans h.approvals hr') (ih h₂)
    exact hrel h.requests h'.requests

theorem Allowed.refl (s : Schema) : Allowed s s := ⟨Grown.refl s, id, id⟩

theorem Allowed.trans (h : Allowed s s') (h' : Allowed s' s'') : Allowed s s'' :=
  ⟨h.toGrown.trans h'.toGrown, h'.sound ∘ h.sound, h'.intact ∘ h.intact⟩

theorem Marked.local_kept {r : Request} (h : Marked s r r') (hr : r.attestation = some .local) :
    r'.attestation = some .local := by
  rcases h.2 with heq | ⟨hnone, -⟩ | ⟨hlocal, -⟩
  · rw [heq, hr]
  · rw [hnone] at hr
    cases hr
  · exact hlocal

theorem exists_marked {rs rs' : List Request} (h : List.Forall₂ (Marked s) rs rs') (hr : r' ∈ rs') :
    ∃ r ∈ rs, Marked s r r' := by
  induction h with
  | nil => exact absurd hr List.not_mem_nil
  | cons hmarked _ ih =>
    cases List.mem_cons.mp hr with
    | inl heq => exact ⟨_, List.mem_cons_self, heq ▸ hmarked⟩
    | inr hmem =>
      obtain ⟨r, hr, hrel⟩ := ih hmem
      exact ⟨r, List.mem_cons_of_mem _ hr, hrel⟩

/-- What a migration leaves stays. -/
theorem Level.grown (h : Level s v) (hg : Grown s s') : Level s' v := by
  match v with
  | 1 => exact fun t ht => hg.tables (h t ht)
  | 2 => exact fun t ht => hg.tables (h t ht)
  | 5 => exact fun t ht => hg.tables (h t ht)
  | 3 =>
    refine ⟨hg.columns h.1, ?_⟩
    intro r' hr' hnamed
    obtain ⟨r, hr, hmarked⟩ := exists_marked hg.requests hr'
    exact hmarked.local_kept (h.2 r hr (named_congr hg.approvals hmarked.1 ▸ hnamed))
  | 0 => trivial
  | 4 => trivial
  | _ + 6 => trivial

/-- A statement that leaves the version and the rows alone keeps what the version stands for. -/
theorem allowed_of_grown (hg : Grown s s') (hversion : s'.user_version = s.user_version)
    (hshape : Sound s → Column.attestation ∉ s'.columns → ∀ r ∈ s'.requests, r.attestation = none) : Allowed s s' where
  toGrown := hg
  sound := fun h => ⟨hshape h, fun v hv => (h.levels v (hversion ▸ hv)).grown hg⟩
  intact := fun h hv t => hg.triggers (h (hversion ▸ hv) t)

end growth

/-! ## What each statement does -/

/-- What a statement of the DDL is for. -/
def Holds (s : Schema) : Ddl → Prop
  | .createTable t => t ∈ s.tables
  | .createIndex i => i ∈ s.indexes
  | .createTrigger t => t ∈ s.triggers

/-- The unique index on the announcements is there or can be made. -/
def Distinct (s : Schema) : Prop := Index.deliveries_announcement ∈ s.indexes ∨ s.deliveries.Nodup

/-- What a process finds when none of its statements raises. -/
def Ready (s : Schema) : Prop := Distinct s ∧ Intact s

/-- The table of an index is made before it. -/
def Makeable (s : Schema) : Ddl → Prop
  | .createTable _ => True
  | .createIndex i => i.table ∈ s.tables
  | .createTrigger _ => Table.events ∈ s.tables ∧ s.user_version = 0

section statements

variable {s s' : Schema} {c : Column} {d : Ddl}

theorem Holds.grown (h : Holds s d) (hg : Grown s s') : Holds s' d := by
  cases d with
  | createTable t => exact hg.tables h
  | createIndex i => exact hg.indexes h
  | createTrigger t => exact hg.triggers h

theorem Ready.allowed (h : Ready s) (ha : Allowed s s') : Ready s' := by
  refine ⟨?_, ha.intact h.2⟩
  cases h.1 with
  | inl hindex => exact Or.inl (ha.indexes hindex)
  | inr hnodup => exact Or.inr (ha.deliveries ▸ hnodup)

theorem exec_spec (h : s.exec d = .ok s') (hmake : Makeable s d) :
    Allowed s s' ∧ s'.user_version = s.user_version ∧ Holds s' d := by
  cases d with
  | createTable t =>
    simp only [Schema.exec] at h
    split_ifs at h with hmem
    · cases h
      exact ⟨Allowed.refl s, rfl, hmem⟩
    · cases h
      have hg : Grown s { s with tables := s.tables ++ [t], columns := s.columns ++ ddlColumns t } :=
        { Grown.refl s with tables := List.subset_append_left _ _, columns := List.subset_append_left _ _ }
      refine ⟨allowed_of_grown hg rfl ?_, rfl, by simp [Holds]⟩
      intro hsound hnot
      exact hsound.shape (fun hmem => hnot (hg.columns hmem))
  | createIndex i =>
    simp only [Schema.exec] at h
    split_ifs at h with hmem
    · cases h
      exact ⟨Allowed.refl s, rfl, hmem⟩
    · cases h
      have hg : Grown s { s with indexes := s.indexes ++ [i] } :=
        { Grown.refl s with indexes := List.subset_append_left _ _ }
      exact ⟨allowed_of_grown hg rfl (fun hsound hnot => hsound.shape hnot), rfl, by simp [Holds]⟩
  | createTrigger t =>
    simp only [Schema.exec] at h
    split_ifs at h with hmem
    · cases h
      exact ⟨Allowed.refl s, rfl, hmem⟩
    · cases h
      have hg : Grown s { s with triggers := s.triggers ++ [t] } :=
        { Grown.refl s with
          triggers := List.subset_append_left _ _
          guarded := fun hv => by have := hmake.2; omega }
      exact ⟨allowed_of_grown hg rfl (fun hsound hnot => hsound.shape hnot), rfl, by simp [Holds]⟩

theorem exec_total (hmake : Makeable s d) (hdistinct : Distinct s) : ∃ w, s.exec d = .ok w := by
  cases d with
  | createTable t =>
    simp only [Schema.exec]
    split_ifs
    · exact ⟨_, rfl⟩
    · exact ⟨_, rfl⟩
  | createIndex i =>
    simp only [Schema.exec]
    by_cases hmem : i ∈ s.indexes
    · exact ⟨s, if_pos hmem⟩
    · have hunique : ¬(i = .deliveries_announcement ∧ ¬s.deliveries.Nodup) := by
        rintro ⟨rfl, hdup⟩
        cases hdistinct with
        | inl hindex => exact hmem hindex
        | inr hnodup => exact hdup hnodup
      have htable : ¬i.table ∉ s.tables := not_not_intro hmake
      rw [if_neg hmem, if_neg htable, if_neg hunique]
      exact ⟨_, rfl⟩
  | createTrigger t =>
    simp only [Schema.exec]
    by_cases hmem : t ∈ s.triggers
    · exact ⟨s, if_pos hmem⟩
    · rw [if_neg hmem, if_neg (not_not_intro hmake.1)]
      exact ⟨_, rfl⟩

theorem addColumn_spec (h : s.addColumn c = .ok s') (hs : Sound s) :
    Allowed s s' ∧ s'.user_version = s.user_version ∧ c ∈ s'.columns := by
  unfold Schema.addColumn at h
  by_cases hno : c.table ∉ s.tables ∨ c ∈ s.columns
  · rw [if_pos hno] at h
    cases h
  rw [if_neg hno] at h
  rw [not_or] at hno
  have hnew : c ∉ s.columns := hno.2
  cases h
  have hrequests : List.Forall₂ (Marked s) s.requests
      (if c = .attestation then s.requests.map (fun r => { r with attestation := some .peer }) else s.requests) := by
    split_ifs with hc
    · subst hc
      rw [List.forall₂_map_right_iff]
      exact List.forall₂_same.mpr (fun r hr => ⟨rfl, Or.inr (Or.inl ⟨hs.shape hnew r hr, rfl⟩)⟩)
    · exact forall₂_marked_refl s _
  have hg : Grown s { s with
      columns := s.columns ++ [c]
      requests := if c = .attestation then s.requests.map (fun r => { r with attestation := some .peer })
        else s.requests } :=
    { Grown.refl s with columns := List.subset_append_left _ _, requests := hrequests }
  refine ⟨allowed_of_grown hg rfl ?_, rfl, by simp⟩
  intro hsound hnot
  have hc : c ≠ .attestation := by
    rintro rfl
    exact hnot (by simp)
  simp only [if_neg hc]
  exact hsound.shape (fun hmem => hnot (hg.columns hmem))

theorem addColumn_total (htable : c.table ∈ s.tables) (hnew : c ∉ s.columns) : ∃ w, s.addColumn c = .ok w := by
  unfold Schema.addColumn
  rw [if_neg (by simp [htable, hnew])]
  exact ⟨_, rfl⟩

theorem attestLocal_spec (h : s.attestLocal = .ok s') :
    Allowed s s' ∧ s'.user_version = s.user_version ∧ Level s' 3 := by
  unfold Schema.attestLocal at h
  split_ifs at h with hno
  simp only [not_or, not_not] at hno
  cases h
  set mark := fun r : Request => if r.approval_record_id.any (· ∈ s.approvals) then { r with attestation := some Attestation.local } else r
    with hmark
  have hmarked : ∀ r, Marked s r (mark r) := by
    intro r
    by_cases hnamed : named s r = true
    · have : mark r = { r with attestation := some .local } := if_pos hnamed
      rw [this]
      exact ⟨rfl, Or.inr (Or.inr ⟨rfl, hnamed⟩)⟩
    · have : mark r = r := if_neg hnamed
      rw [this]
      exact marked_refl s r
  have hg : Grown s { s with requests := s.requests.map mark } :=
    { Grown.refl s with
      requests := by
        rw [List.forall₂_map_right_iff]
        exact List.forall₂_same.mpr (fun r _ => hmarked r) }
  refine ⟨allowed_of_grown hg rfl (fun _ hnot => absurd hno.2.2 hnot), rfl, hno.2.2, ?_⟩
  intro r' hr' hnamed
  obtain ⟨r, -, rfl⟩ := List.mem_map.mp hr'
  have hr : named s r = true := by
    have hcongr : named { s with requests := s.requests.map mark } (mark r) = named s r := named_congr rfl (hmarked r).1
    exact hcongr ▸ hnamed
  have : mark r = { r with attestation := some .local } := if_pos hr
  rw [this]

theorem attestLocal_total (hrequests : Table.human_requests ∈ s.tables) (happrovals : Table.human_approvals ∈ s.tables)
    (hcolumn : Column.attestation ∈ s.columns) : ∃ w, s.attestLocal = .ok w := by
  unfold Schema.attestLocal
  rw [if_neg (by simp [hrequests, happrovals, hcolumn])]
  exact ⟨_, rfl⟩

/-- The version may be set when everything is there that it stands for. -/
theorem setVersion_allowed (hle : s.user_version ≤ v) (hmax : v ≤ SCHEMA_VERSION)
    (hlevels : ∀ u ≤ v, Level s u)
    (htriggers : Intact s → ∀ t, t ∈ s.triggers) : Allowed s { s with user_version := v } := by
  have hg : Grown s { s with user_version := v } := { Grown.refl s with version := hle, bounded := fun _ => hmax }
  exact ⟨hg, fun hsound => ⟨hsound.shape, fun u hu => (hlevels u hu).grown hg⟩, fun hintact _ => htriggers hintact⟩

end statements

/-! ## The programs in a transaction -/

section programs

variable {τ : Type} {I : Schema → List (Except (Exc MigrationError) Nat) → Prop} {s : Schema}

/-- `SchemaJob.Acts` under the guarantee of the processes. -/
abbrev Acts (I : Schema → List (Except (Exc MigrationError) Nat) → Prop) (p : SchemaJob Unit) (s : Schema)
    (P : Schema → Prop) : Prop :=
  Job.Acts Allowed I Ready p s (fun _ w => P w)

theorem ready_stable : Stable Allowed Ready := fun _ _ h ha => h.allowed ha

theorem acts_statement {f : Schema → Except DbError Schema}
    (hspec : ∀ w, f s = .ok w → Allowed s w ∧ P w)
    (htotal : Ready s → ∃ w, f s = .ok w) : Acts I (statement f) s P := by
  apply Job.Acts.execute
  · intro w a h
    cases hf : f s with
    | error e =>
      rw [hf] at h
      cases h
    | ok w' =>
      rw [hf] at h
      cases h
      exact hspec w hf
  · intro hready
    obtain ⟨w, hw⟩ := htotal hready
    exact ⟨w, (), by rw [hw]; rfl⟩

theorem acts_pure (hG : Guarantee Allowed I) (h : P s) : Acts I (pure ()) s P :=
  Job.Acts.ret hG h

/-- One program after the other. -/
theorem acts_bind (hG : Guarantee Allowed I) {p q : SchemaJob Unit} {Q : Schema → Prop}
    (hp : Acts I p s P) (hq : ∀ w, Allowed s w → P w → Acts I q w Q) : Acts I (do p; q) s Q :=
  Job.Acts.bind hG ready_stable hp (fun _ w hw hP => hq w hw hP)

/-- A read of the copy, and what follows. -/
theorem acts_query (hG : Guarantee Allowed I) {f : Schema → β} {q : β → SchemaJob Unit}
    {Q : Schema → Prop} (hq : Acts I (q (f s)) s Q) : Acts I (do q (← Job.query f)) s Q := by
  refine Job.Acts.bind hG ready_stable (Job.Acts.query hG f) ?_
  intro b w _ hb
  rw [hb.1, hb.2]
  exact hq

/-- The tables of the indexes and the triggers come before them, and triggers are only made
where `fresh` is set. -/
def Ordered (fresh : Bool) : List Table → List Ddl → Bool
  | _, [] => true
  | known, .createTable t :: ddl => Ordered fresh (t :: known) ddl
  | known, .createIndex i :: ddl => decide (i.table ∈ known) && Ordered fresh known ddl
  | known, .createTrigger _ :: ddl => fresh && decide (Table.events ∈ known) && Ordered fresh known ddl

theorem acts_execDdlInTxn (hG : Guarantee Allowed I) (fresh : Bool) (known : List Table)
    (hordered : Ordered fresh known ddl = true) (hknown : known ⊆ s.tables)
    (hfresh : fresh = true → s.user_version = 0) :
    Acts I (execDdlInTxn ddl) s (fun w => w.user_version = s.user_version ∧ ∀ d ∈ ddl, Holds w d) := by
  induction ddl generalizing s known with
  | nil => exact acts_pure hG ⟨rfl, by simp⟩
  | cons d ddl ih =>
    have hmake : Makeable s d := by
      cases d with
      | createTable t => trivial
      | createIndex i =>
        simp only [Ordered, Bool.and_eq_true, decide_eq_true_eq] at hordered
        exact hknown hordered.1
      | createTrigger t =>
        simp only [Ordered, Bool.and_eq_true, decide_eq_true_eq] at hordered
        exact ⟨hknown hordered.1.2, hfresh hordered.1.1⟩
    refine acts_bind hG (acts_statement (P := fun w => w.user_version = s.user_version ∧ Holds w d)
      (fun w hw => exec_spec hw hmake) (fun hready => exec_total hmake hready.1)) ?_
    rintro w hw ⟨hversion, hd⟩
    have hrest : ∃ known', Ordered fresh known' ddl = true ∧ known' ⊆ w.tables := by
      cases d with
      | createTable t => exact ⟨t :: known, hordered, List.cons_subset.mpr ⟨hd, List.Subset.trans hknown hw.tables⟩⟩
      | createIndex i =>
        simp only [Ordered, Bool.and_eq_true] at hordered
        exact ⟨known, hordered.2, List.Subset.trans hknown hw.tables⟩
      | createTrigger t =>
        simp only [Ordered, Bool.and_eq_true] at hordered
        exact ⟨known, hordered.2, List.Subset.trans hknown hw.tables⟩
    obtain ⟨known', hordered', hknown'⟩ := hrest
    refine (ih known' hordered' hknown' (fun hf => hversion.trans (hfresh hf))).imp ?_
    rintro _ w' hw' ⟨hversion', hddl⟩
    refine ⟨hversion'.trans hversion, ?_⟩
    intro d' hd'
    cases List.mem_cons.mp hd' with
    | inl heq => exact heq ▸ hd.grown hw'.toGrown
    | inr hmem => exact hddl d' hmem

theorem acts_ensureColumn (hG : Guarantee Allowed I) {c : Column} (hs : Sound s) (htable : c.table ∈ s.tables) :
    Acts I (ensureColumn c) s (fun w => w.user_version = s.user_version ∧ c ∈ w.columns) := by
  apply acts_query hG
  by_cases hc : c ∈ s.columns
  · rw [if_pos (List.mem_filter.mpr ⟨hc, by simp⟩)]
    exact acts_pure hG ⟨rfl, hc⟩
  · rw [if_neg (fun hmem => hc (List.mem_filter.mp hmem).1)]
    exact acts_statement (fun w' hw' => addColumn_spec hw' hs) (fun _ => addColumn_total htable hc)

theorem acts_ensureColumns (hG : Guarantee Allowed I) {cs : List Column} (hs : Sound s)
    (htables : ∀ c ∈ cs, c.table ∈ s.tables) :
    Acts I (ensureColumns cs) s (fun w => w.user_version = s.user_version ∧ ∀ c ∈ cs, c ∈ w.columns) := by
  induction cs generalizing s with
  | nil => exact acts_pure hG ⟨rfl, by simp⟩
  | cons c cs ih =>
    refine acts_bind hG (acts_ensureColumn hG hs (htables c List.mem_cons_self)) ?_
    rintro w hw ⟨hversion, hc⟩
    refine (ih (hw.sound hs) (fun c' hc' => hw.tables (htables c' (List.mem_cons_of_mem _ hc')))).imp ?_
    rintro _ w' hw' ⟨hversion', hcs⟩
    exact ⟨hversion'.trans hversion, List.forall_mem_cons.mpr ⟨hw'.columns hc, hcs⟩⟩

theorem acts_ensureV3Attestation (hG : Guarantee Allowed I) (hs : Sound s) (h2 : Level s 2) :
    Acts I ensureV3Attestation s (fun w => w.user_version = s.user_version ∧ Level w 3) := by
  have hrequests : Table.human_requests ∈ s.tables := h2 _ (by decide)
  refine acts_bind hG (acts_ensureColumn hG hs hrequests) ?_
  rintro w hw ⟨hversion, hc⟩
  refine acts_statement (fun w' hw' => ?_) (fun _ => ?_)
  · have := attestLocal_spec hw'
    exact ⟨this.1, this.2.1.trans hversion, this.2.2⟩
  · exact attestLocal_total (hw.tables hrequests) (hw.tables (h2 _ (by decide))) hc

theorem acts_migrationBody (hG : Guarantee Allowed I) (hmem : (v, ddl) ∈ MIGRATIONS)
    (hs : Sound s) (hversion : s.user_version + 1 = v) :
    Acts I (migrationBody v ddl) s
      (fun w => w.user_version = s.user_version ∧ Level w v ∧ (v = 1 → ∀ t, t ∈ w.triggers)) := by
  have hlevel : ∀ u < v, Level s u := fun u hu => hs.levels u (by omega)
  simp only [MIGRATIONS, List.mem_cons, List.not_mem_nil, or_false, Prod.mk.injEq] at hmem
  rcases hmem with ⟨rfl, rfl⟩ | ⟨rfl, rfl⟩ | ⟨rfl, rfl⟩ | ⟨rfl, rfl⟩ | ⟨rfl, rfl⟩
  · refine (acts_execDdlInTxn hG true [] (by decide) (List.nil_subset _) (fun _ => by omega)).imp ?_
    rintro _ w _ ⟨hw, hddl⟩
    refine ⟨hw, fun t ht => hddl _ ht, fun _ t => hddl (.createTrigger t) ?_⟩
    cases t <;> decide
  · refine (acts_execDdlInTxn hG false [] (by decide) (List.nil_subset _) (fun h => by cases h)).imp ?_
    rintro _ w _ ⟨hw, hddl⟩
    exact ⟨hw, fun t ht => hddl _ ht, fun h => by omega⟩
  · refine (acts_ensureV3Attestation hG hs (hlevel 2 (by omega))).imp ?_
    rintro _ w _ ⟨hw, h3⟩
    exact ⟨hw, h3, fun h => by omega⟩
  · refine (acts_ensureColumn hG hs ?_).imp ?_
    · exact hlevel 1 (by omega) _ (by decide)
    · rintro _ w _ ⟨hw, -⟩
      exact ⟨hw, trivial, fun h => by omega⟩
  · refine (acts_execDdlInTxn hG false [] (by decide) (List.nil_subset _) (fun h => by cases h)).imp ?_
    rintro _ w _ ⟨hw, hddl⟩
    exact ⟨hw, fun t ht => hddl _ ht, fun h => by omega⟩

end programs

/-! ## A schema that is set up -/

/-- What `setUp` leaves when it returns. -/
structure Complete (s : Schema) : Prop where
  version : s.user_version = SCHEMA_VERSION
  sound : Sound s
  columns : ∀ c, c ∈ s.columns
  triggers : ∀ t, t ∈ s.triggers
  projections : ∀ d ∈ PROJECTIONS_V2_DDL ++ V5_DDL, Holds s d

theorem complete_stable : Stable Allowed Complete := by
  intro s t h ha
  refine ⟨?_, ha.sound h.sound, fun c => ha.columns (h.columns c), fun u => ha.triggers (h.triggers u),
    fun d hd => (h.projections d hd).grown ha.toGrown⟩
  have hbounded := ha.bounded (Nat.le_of_eq h.version)
  have hversion := ha.version
  rw [h.version] at hversion
  omega

section calls

variable {I : Schema → List (Except (Exc MigrationError) Nat) → Prop} {s : Schema}

/-- What a process knows that has read the version `current`. -/
structure Known (current : Nat) (s : Schema) : Prop where
  sound : Sound s
  bounded : s.user_version ≤ SCHEMA_VERSION
  atLeast : current ≤ s.user_version

theorem known_stable (current : Nat) : Stable Allowed (Known current) := fun _ _ h ha =>
  ⟨ha.sound h.sound, ha.bounded h.bounded, Nat.le_trans h.atLeast ha.version⟩

theorem Known.level (h : Known SCHEMA_VERSION s) (hv : v ≤ SCHEMA_VERSION) : Level s v :=
  h.sound.levels v (Nat.le_trans hv h.atLeast)

/-- `SchemaJob.Calls` under the guarantee of the processes. -/
abbrev Calls (I : Schema → List (Except (Exc MigrationError) Nat) → Prop) {α : Type} (p : SchemaJob α)
    (Pre : Schema → Prop) (Post : α → Schema → Prop) : Prop :=
  Job.Calls Allowed I Ready p Pre Post

/-- One program after the other. -/
theorem calls_bind (hG : Guarantee Allowed I) {p : SchemaJob α} {q : α → SchemaJob β}
    {Pre : Schema → Prop} {Mid : α → Schema → Prop} {Post : β → Schema → Prop}
    (hpre : Stable Allowed Pre) (hp : Calls I p Pre Mid)
    (hq : ∀ a, Calls I (q a) (fun t => Pre t ∧ Mid a t) Post) : Calls I (do q (← p)) Pre Post :=
  Job.Calls.bind hG ready_stable hpre hp hq

/-- A read of the database, and what follows: the database may have changed since. -/
theorem calls_query (hG : Guarantee Allowed I) {f : Schema → α} {q : α → SchemaJob β}
    {Pre : Schema → Prop} {Post : β → Schema → Prop}
    (hq : ∀ s, Pre s → Calls I (q (f s)) (fun t => Pre t ∧ Allowed s t) Post) :
    Calls I (do q (← Job.query f)) Pre Post := by
  exact Job.Calls.query_bind hG hq

theorem calls_migration (hG : Guarantee Allowed I) (hmem : (v, ddl) ∈ MIGRATIONS) :
    Calls I (migration v ddl) (fun s => Sound s ∧ v ≤ s.user_version + 1) (fun _ s => v ≤ s.user_version) := by
  apply Job.Calls.transaction (fun _ s t h ha => Nat.le_trans h ha.version)
  rintro s ⟨hs, hversion⟩
  apply acts_query hG
  split_ifs with hle
  · exact acts_pure hG hle
  have hnext : s.user_version + 1 = v := by omega
  have hmax : v ≤ SCHEMA_VERSION := by
    simp only [MIGRATIONS, List.mem_cons, List.not_mem_nil, or_false, Prod.mk.injEq] at hmem
    unfold SCHEMA_VERSION
    omega
  refine acts_bind hG (acts_migrationBody hG hmem hs hnext) ?_
  rintro w hw ⟨heq, hlevel, htriggers⟩
  have hbump : Allowed w { w with user_version := v } := by
    apply setVersion_allowed (by omega) hmax
    · intro u hu
      by_cases huv : u = v
      · exact huv ▸ hlevel
      · exact (hw.sound hs).levels u (by omega)
    · intro hintact
      by_cases h1 : v = 1
      · exact htriggers h1
      · exact hintact (by omega)
  refine acts_statement (fun w' hw' => ?_) (fun _ => ⟨_, rfl⟩)
  cases hw'
  exact ⟨hbump, Nat.le_refl v⟩

/-- The migrations from `v` on, in their order. -/
def Consecutive : Nat → List (Nat × List Ddl) → Prop
  | _, [] => True
  | v, m :: ms => m.1 = v + 1 ∧ m ∈ MIGRATIONS ∧ Consecutive (v + 1) ms

theorem consecutive_MIGRATIONS : Consecutive 0 MIGRATIONS := by
  simp [Consecutive, MIGRATIONS]

/-- The loop reaches the last version. -/
theorem calls_migrations (hG : Guarantee Allowed I) {current : Nat} {ms : List (Nat × List Ddl)}
    (hms : Consecutive v ms) :
    Calls I (migrations current ms) (fun s => Known current s ∧ v ≤ s.user_version)
      (fun _ s => v + ms.length ≤ s.user_version) := by
  induction ms generalizing v with
  | nil => exact Job.Calls.ret hG (fun s hs => hs.2)
  | cons m ms ih =>
    obtain ⟨version, ddl⟩ := m
    obtain ⟨rfl, hmem, hms⟩ := hms
    have hrest : Calls I (migrations current ms) (fun s => Known current s ∧ v + 1 ≤ s.user_version)
        (fun _ s => v + (ms.length + 1) ≤ s.user_version) :=
      (ih hms).imp (fun _ hs => hs) (fun _ s hs => by omega)
    unfold migrations
    split_ifs with hle
    · exact hrest.imp (fun s hs => ⟨hs.1, Nat.le_trans hle hs.1.atLeast⟩) (fun _ _ hs => hs)
    · have hpre : Stable Allowed (fun s => Known current s ∧ v ≤ s.user_version) := fun s t h ha =>
        ⟨known_stable _ s t h.1 ha, Nat.le_trans h.2 ha.version⟩
      have hstep : Calls I (migration (v + 1) ddl) (fun s => Known current s ∧ v ≤ s.user_version)
          (fun _ s => v + 1 ≤ s.user_version) :=
        (calls_migration hG hmem).imp (fun s hs => ⟨hs.1.sound, by have := hs.2; omega⟩) (fun _ _ h => h)
      exact calls_bind hG hpre hstep (fun _ => hrest.imp (fun s hs => ⟨hs.1.1, hs.2⟩) (fun _ _ hs => hs))

/-- The columns that come without a version. -/
theorem calls_hardening (hG : Guarantee Allowed I) :
    Calls I hardening (Known SCHEMA_VERSION) (fun _ _ => True) := by
  apply Job.Calls.transaction (fun _ _ _ _ _ => trivial)
  intro s hs
  have h1 : Level s 1 := hs.level (by decide)
  have h2 : Level s 2 := hs.level (by decide)
  refine acts_bind hG (acts_ensureColumns hG hs.sound (fun c hc => h2 _ ?_)) (fun w hw _ => ?_)
  · revert c
    decide
  refine acts_bind hG (acts_ensureColumns hG (hw.sound hs.sound) (fun c hc => hw.tables (h1 _ ?_))) (fun w' hw' _ => ?_)
  · revert c
    decide
  have hs' := hw'.sound (hw.sound hs.sound)
  refine (acts_ensureColumn hG hs' (hw'.tables (hw.tables (h2 _ ?_)))).imp (fun _ _ _ _ => trivial)
  decide

/-- Whoever goes on has found both triggers. -/
theorem calls_verifyAppendOnlyTriggers (hG : Guarantee Allowed I) :
    Calls I verifyAppendOnlyTriggers (Known SCHEMA_VERSION) (fun _ s => ∀ t, t ∈ s.triggers) := by
  refine calls_query hG (fun s hs => ?_)
  have hevents : Table.events ∈ s.tables := hs.level (v := 1) (by decide) _ (by decide)
  rw [if_neg (not_not_intro hevents)]
  refine calls_query hG (fun s' hs' => ?_)
  by_cases hmissing : [Trigger.events_no_update, Trigger.events_no_delete].filter (· ∉ s'.triggers) = []
  · rw [if_pos hmissing]
    apply Job.Calls.ret hG
    intro w hw t
    rw [List.filter_eq_nil_iff] at hmissing
    have ht := hmissing t (by cases t <;> simp)
    exact hw.2.triggers (by simpa using ht)
  · rw [if_neg hmissing]
    apply Job.Calls.raise
    intro w hw hready
    apply hmissing
    rw [List.filter_eq_nil_iff]
    intro t _
    have hsame : w.triggers = s'.triggers := hw.2.guarded (Nat.le_trans (by decide) hs'.1.atLeast)
    have hmem : t ∈ s'.triggers := hsame ▸ hready.2 (Nat.le_trans (by decide) hw.1.1.atLeast) t
    simp [hmem]

/-- The transaction of `migrate_projections` after `migrate`. -/
theorem calls_projectionsTxn (hG : Guarantee Allowed I) :
    Calls I (projectionsTxn SCHEMA_VERSION) (fun s => Known SCHEMA_VERSION s ∧ ∀ t, t ∈ s.triggers)
      (fun _ => Complete) := by
  apply Job.Calls.transaction (fun _ => complete_stable)
  rintro s ⟨hs, ht⟩
  have h1 : Level s 1 := hs.level (by decide)
  have h2 : Level s 2 := hs.level (by decide)
  have h3 : Level s 3 := hs.level (by decide)
  refine acts_bind hG (acts_execDdlInTxn hG false [] (by decide) (List.nil_subset _)
    (fun h => by cases h)) ?_
  rintro w₁ ha₁ ⟨-, hddl₁⟩
  apply acts_query hG
  have hattestation : Column.attestation ∈ w₁.columns := ha₁.columns h3.1
  rw [if_pos (List.mem_filter.mpr ⟨hattestation, by decide⟩)]
  refine acts_bind hG (acts_ensureColumn hG (ha₁.sound hs.sound) (ha₁.tables (h1 _ (by decide)))) ?_
  rintro w₂ ha₂ ⟨-, hc₂⟩
  have ha₂' := ha₁.trans ha₂
  refine acts_bind hG (acts_ensureColumns hG (ha₂'.sound hs.sound) (fun c hc => ha₂'.tables (h1 _ ?_))) ?_
  · revert c
    decide
  rintro w₃ ha₃ ⟨-, hc₃⟩
  have ha₃' := ha₂'.trans ha₃
  refine acts_bind hG (acts_ensureColumns hG (ha₃'.sound hs.sound) (fun c hc => ha₃'.tables (h2 _ ?_))) ?_
  · revert c
    decide
  rintro w₄ ha₄ ⟨-, hc₄⟩
  have ha₄' := ha₃'.trans ha₄
  refine acts_bind hG (acts_ensureColumn hG (ha₄'.sound hs.sound) (ha₄'.tables (h2 _ (by decide)))) ?_
  rintro w₅ ha₅ ⟨-, hc₅⟩
  have ha₅' := ha₄'.trans ha₅
  refine acts_bind hG (acts_execDdlInTxn hG false [] (by decide) (List.nil_subset _)
    (fun h => by cases h)) ?_
  rintro w₆ ha₆ ⟨-, hddl₆⟩
  have ha₆' := ha₅'.trans ha₆
  rw [if_neg (by decide)]
  apply acts_pure hG
  have hknown := known_stable _ s w₆ hs ha₆'
  have hfrom₂ : w₂.columns ⊆ w₆.columns := (ha₃.trans (ha₄.trans (ha₅.trans ha₆))).columns
  refine ⟨Nat.le_antisymm hknown.bounded hknown.atLeast, hknown.sound, ?_, fun t => ha₆'.triggers (ht t), ?_⟩
  · intro c
    cases c with
    | attestation => exact ha₆'.columns h3.1
    | prior_peer_identity_id => exact hfrom₂ hc₂
    | event_id => exact ha₆.columns (ha₅.columns (ha₄.columns (hc₃ _ (by decide))))
    | envelope_digest => exact ha₆.columns (ha₅.columns (ha₄.columns (hc₃ _ (by decide))))
    | prior_identity_grace_until => exact ha₆.columns (ha₅.columns (ha₄.columns (hc₃ _ (by decide))))
    | expires_at => exact ha₆.columns (ha₅.columns (hc₄ _ (by decide)))
    | consumed_at => exact ha₆.columns (ha₅.columns (hc₄ _ (by decide)))
    | received_at => exact ha₆.columns hc₅
  · intro d hd
    cases List.mem_append.mp hd with
    | inl hleft =>
      exact (hddl₁ d hleft).grown
        (ha₂.trans (ha₃.trans (ha₄.trans (ha₅.trans ha₆)))).toGrown
    | inr hright => exact hddl₆ d hright

theorem calls_migrate (hG : Guarantee Allowed I) :
    Calls I migrate (Known 0) (fun v s => v = SCHEMA_VERSION ∧ Known SCHEMA_VERSION s ∧ ∀ t, t ∈ s.triggers) := by
  refine calls_query hG (fun s hs => ?_)
  split_ifs with hnew
  · exact absurd hs.bounded (by omega)
  have hpre : Stable Allowed (Known s.user_version) := known_stable _
  have hlast := known_stable SCHEMA_VERSION
  have hloop : Calls I (migrations s.user_version MIGRATIONS) (Known s.user_version)
      (fun _ t => SCHEMA_VERSION ≤ t.user_version) :=
    (calls_migrations hG consecutive_MIGRATIONS).imp (fun t ht => ⟨ht, Nat.zero_le _⟩) (fun _ t ht => ht)
  refine Job.Calls.imp (calls_bind hG hpre hloop (fun _ => ?_))
    (fun t ht => ⟨ht.1.sound, ht.1.bounded, ht.2.version⟩) (fun _ _ h => h)
  have hrest : Calls I (do
      hardening
      verifyAppendOnlyTriggers
      Job.query Schema.user_version) (Known SCHEMA_VERSION)
      (fun v s => v = SCHEMA_VERSION ∧ Known SCHEMA_VERSION s ∧ ∀ t, t ∈ s.triggers) := by
    refine calls_bind hG hlast (calls_hardening hG) (fun _ => ?_)
    have hverified : Stable Allowed (fun s : Schema => Known SCHEMA_VERSION s ∧ ∀ t, t ∈ s.triggers) := fun s t h ha =>
      ⟨hlast s t h.1 ha, fun u => ha.triggers (h.2 u)⟩
    refine Job.Calls.imp (calls_bind hG hlast (calls_verifyAppendOnlyTriggers hG) (fun _ => ?_))
      (fun s hs => hs.1) (fun _ _ h => h)
    refine (Job.Calls.query hG Schema.user_version).imp (fun _ hs => hs) ?_
    rintro v t ⟨s, hs, rfl, ha⟩
    have hend := hverified s t hs ha
    exact ⟨Nat.le_antisymm hs.1.bounded hs.1.atLeast, hend⟩
  exact hrest.imp (fun t ht => ⟨ht.1.sound, ht.1.bounded, ht.2⟩) (fun _ _ h => h)

theorem calls_setUp (hG : Guarantee Allowed I) :
    Calls I setUp (Known 0) (fun v s => v = SCHEMA_VERSION ∧ Complete s) := by
  refine calls_bind hG (known_stable 0) (calls_migrate hG) (fun v => ?_)
  have hprojections : Calls I migrateProjections (fun s => Known SCHEMA_VERSION s ∧ ∀ t, t ∈ s.triggers)
      (fun v s => v = SCHEMA_VERSION ∧ Complete s) := by
    refine calls_query hG (fun s hs => ?_)
    have hversion : s.user_version = SCHEMA_VERSION := Nat.le_antisymm hs.1.bounded hs.1.atLeast
    rw [hversion, if_neg (by decide), if_neg (by decide)]
    have hpre : Stable Allowed (fun s : Schema => Known SCHEMA_VERSION s ∧ ∀ t, t ∈ s.triggers) := fun s t h ha =>
      ⟨known_stable _ s t h.1 ha, fun u => ha.triggers (h.2 u)⟩
    refine Job.Calls.imp (calls_bind hG hpre (calls_projectionsTxn hG) (fun _ => ?_)) (fun t ht => ht.1) (fun _ _ h => h)
    exact Job.Calls.ret hG (fun t ht => ⟨rfl, ht.2⟩)
  exact hprojections.imp (fun s hs => hs.2.2) (fun _ _ h => h)

end calls

/-! ## A second time -/

section again

variable {s : Schema} {o : Option Schema}

/-- A read, and what follows. -/
theorem runs_query {f : Schema → α} {q : α → SchemaJob β} {r : Except (Exc MigrationError) β}
    {s' : Schema} {o' : Option Schema}
    (h : (q (f s)).Runs s o r s' o') : Job.Runs (do q (← Job.query f) : SchemaJob β) s o r s' o' :=
  (Job.Runs.query f).bind h

theorem runs_statement {f : Schema → Except DbError Schema} (h : f s = .ok s) :
    (statement f).Runs s o (.ok ()) s o := by
  apply Job.Runs.execute
  rw [h]
  rfl

theorem runs_execDdlInTxn
    (h : ∀ d ∈ ddl, Holds s d) : (execDdlInTxn ddl).Runs s o (.ok ()) s o := by
  induction ddl with
  | nil => exact Job.Runs.ret ()
  | cons d ddl ih =>
    have hd : s.exec d = .ok s := by
      have hheld : Holds s d := h d List.mem_cons_self
      cases d with
      | createTable t => exact if_pos hheld
      | createIndex i => exact if_pos hheld
      | createTrigger t => exact if_pos hheld
    exact (runs_statement hd).bind (ih (fun d' hd' => h d' (List.mem_cons_of_mem _ hd')))

theorem runs_ensureColumn {c : Column} (h : c ∈ s.columns) : (ensureColumn c).Runs s o (.ok ()) s o := by
  apply runs_query
  rw [if_pos (List.mem_filter.mpr ⟨h, by simp⟩)]
  exact Job.Runs.ret ()

theorem runs_ensureColumns {cs : List Column} (h : ∀ c, c ∈ s.columns) : (ensureColumns cs).Runs s o (.ok ()) s o := by
  induction cs with
  | nil => exact Job.Runs.ret ()
  | cons c cs ih => exact (runs_ensureColumn (h c)).bind ih

theorem runs_migrations {current : Nat} {ms : List (Nat × List Ddl)} (h : ∀ m ∈ ms, m.1 ≤ current) :
    (migrations current ms).Runs s o (.ok ()) s o := by
  induction ms with
  | nil => exact Job.Runs.ret ()
  | cons m ms ih =>
    unfold migrations
    rw [if_pos (h m List.mem_cons_self)]
    exact ih (fun m' hm' => h m' (List.mem_cons_of_mem _ hm'))

theorem runs_setUp (h : Complete s) : setUp.Runs s none (.ok SCHEMA_VERSION) s none := by
  have hmigrate : migrate.Runs s none (.ok s.user_version) s none := by
    apply runs_query
    rw [h.version, if_neg (by decide)]
    refine (runs_migrations (by decide)).bind ?_
    have hhardening : hardening.Runs s none (.ok ()) s none :=
      Job.Runs.transaction ((runs_ensureColumns h.columns).bind ((runs_ensureColumns h.columns).bind
        (runs_ensureColumn (h.columns _))))
    have hverify : verifyAppendOnlyTriggers.Runs s none (.ok ()) s none := by
      have hevents : Table.events ∈ s.tables := h.sound.levels 1 (h.version ▸ by decide) _ (by decide)
      apply runs_query
      rw [if_neg (not_not_intro hevents)]
      apply runs_query
      rw [if_pos (by simp [h.triggers])]
      exact Job.Runs.ret ()
    refine hhardening.bind (hverify.bind ?_)
    exact h.version ▸ Job.Runs.query Schema.user_version
  have hprojections : (projectionsTxn SCHEMA_VERSION).Runs s none (.ok ()) s none := by
    apply Job.Runs.transaction
    refine (runs_execDdlInTxn (fun d hd => h.projections d (List.mem_append_left _ hd))).bind ?_
    apply runs_query
    rw [if_pos (List.mem_filter.mpr ⟨h.columns _, by decide⟩)]
    refine (runs_ensureColumn (h.columns _)).bind ((runs_ensureColumns h.columns).bind
      ((runs_ensureColumns h.columns).bind ((runs_ensureColumn (h.columns _)).bind
        ((runs_execDdlInTxn (fun d hd => h.projections d (List.mem_append_right _ hd))).bind ?_))))
    rw [if_neg (by decide)]
    exact Job.Runs.ret ()
  refine hmigrate.bind ?_
  apply runs_query
  rw [h.version, if_neg (by decide), if_neg (by decide)]
  exact hprojections.bind (Job.Runs.ret _)

end again

/-! ## Every run -/

section runs

variable {init : Schema → Prop} {S : Host Schema (List (Except (Exc MigrationError) Nat)) Unit}

/-- The database has come from one that `init` allows, and every call that has returned found
it complete.  Nobody has got through where a trigger was missing. -/
structure Joint (init : Schema → Prop) (s : Schema) (ended : List (Except (Exc MigrationError) Nat)) : Prop where
  grown : ∃ s₀, init s₀ ∧ Grown s₀ s
  known : Known 0 s
  ready : (∀ s₀, init s₀ → Ready s₀) → Ready s
  returned : ∀ v, .ok v ∈ ended → v = SCHEMA_VERSION ∧ Complete s

theorem guarantee (init : Schema → Prop) : Guarantee Allowed (Joint init) where
  refl := Allowed.refl
  trans := Allowed.trans
  kept := fun h ha =>
    ⟨h.grown.imp (fun _ h₀ => ⟨h₀.1, h₀.2.trans ha.toGrown⟩), known_stable 0 _ _ h.known ha,
      fun hready => (h.ready hready).allowed ha, fun v hv => ⟨(h.returned v hv).1, complete_stable _ _ (h.returned v hv).2 ha⟩⟩

theorem safe_setUpCode (init : Schema → Prop) : setUpCode.Safe Allowed (Joint init) none (Known 0) := by
  refine (calls_setUp (guarantee init)).1 (Known 0) (fun _ h => h) _ (fun r o K' _ hr => ?_)
  refine ⟨fun s ended hs hjoint => ⟨hjoint.grown, hjoint.known, hjoint.ready, ?_⟩, trivial, trivial⟩
  intro v hv
  cases List.mem_append.mp hv with
  | inl hold => exact hjoint.returned v hold
  | inr hnew =>
    have hend : .ok v = r := List.mem_singleton.mp hnew
    exact (hr v hend.symm).2 s hs

/-- What holds of the databases that are set up. -/
theorem setUps_invariant (hinit : ∀ s, init s → Sound s ∧ s.user_version ≤ SCHEMA_VERSION)
    (h : (setUps init).Reachable S) : Joint init S.db S.outside := by
  apply sharing_invariant (guarantee init) _ (fun _ _ hjoint => hjoint.known) (known_stable 0)
    (fun _ => safe_setUpCode init) h
  rintro s ended ⟨hs, rfl⟩
  have := hinit s hs
  exact ⟨⟨s, hs, Grown.refl s⟩, ⟨this.1, this.2, Nat.zero_le _⟩, fun hready => hready s hs, by simp⟩

/-- Whatever the processes and the faults do, the version of the database stands for what is
there, nothing is lost, and a call that returns leaves the schema complete.  No call returns
on a database that has lost a trigger. -/
theorem setUp_safe (hinit : ∀ s, init s → Sound s ∧ s.user_version ≤ SCHEMA_VERSION)
    (h : (setUps init).Reachable S) :
    Sound S.db ∧ S.db.user_version ≤ SCHEMA_VERSION ∧ ∃ s₀, init s₀ ∧ Grown s₀ S.db ∧
      ∀ v, .ok v ∈ S.outside →
        v = SCHEMA_VERSION ∧ Complete S.db ∧ (1 ≤ s₀.user_version → ∀ t, t ∈ s₀.triggers) := by
  have hjoint := setUps_invariant hinit h
  obtain ⟨s₀, hs₀, hgrown⟩ := hjoint.grown
  refine ⟨hjoint.known.sound, hjoint.known.bounded, s₀, hs₀, hgrown, ?_⟩
  intro v hv
  have hreturned := hjoint.returned v hv
  refine ⟨hreturned.1, hreturned.2, ?_⟩
  intro hversion
  have hsame := hgrown.guarded hversion
  exact hsame ▸ hreturned.2.triggers

/-- A new database. -/
def Blank (s : Schema) : Prop := s = {}

theorem Blank.sound : ∀ s, Blank s → Sound s ∧ s.user_version ≤ SCHEMA_VERSION ∧ Ready s := by
  rintro s rfl
  refine ⟨⟨fun _ r hr => absurd hr List.not_mem_nil, fun v hv => ?_⟩, Nat.zero_le _, Or.inr List.nodup_nil, ?_⟩
  · obtain rfl := Nat.le_zero.mp hv
    trivial
  · intro h
    exact absurd h (by decide)

theorem blank_host : (setUps Blank).init ⟨{}, [], none, []⟩ := by
  refine ⟨⟨?_, rfl⟩, rfl, rfl⟩
  show ({} : Schema) = {}
  rfl

/-- The first process dies in the second migration. -/
def died : List (Host.Turn Unit) := [.call ()] ++ List.replicate 35 (.advance 0) ++ [.kill 0]

/-- The second process is not disturbed. -/
def diedAndAgain : List (Host.Turn Unit) := died ++ [.call ()] ++ List.replicate 108 (.advance 1)

theorem setUp_safe_sample : ∃ S, (setUps Blank).Reachable S ∧ .ok 5 ∈ S.outside ∧ Complete S.db := by
  have hend : ((setUps Blank).run ⟨{}, [], none, []⟩ diedAndAgain).map (fun S => S.outside.map Except.toOption) =
      some [some 5] := by decide +kernel
  obtain ⟨S, hrun, hS⟩ := Option.map_eq_some_iff.mp hend
  have hreach := Machine.reachable_of_run (M := setUps Blank) blank_host hrun
  obtain ⟨r, houtside, hr⟩ := List.map_eq_singleton_iff.mp hS
  have hmem : .ok 5 ∈ S.outside := by
    rw [houtside]
    cases r with
    | ok v => simpa [Except.toOption] using hr.symm
    | error e => cases hr
  obtain ⟨-, -, s₀, -, -, hreturned⟩ := setUp_safe (fun s hs => ⟨(Blank.sound s hs).1, (Blank.sound s hs).2.1⟩) hreach
  exact ⟨S, hreach, hmem, (hreturned 5 hmem).2.1⟩

/-- Whatever the processes and the faults have left, the next process that is not disturbed
sets the database up, and the one after it changes nothing. -/
theorem setUp_converges (hinit : ∀ s, init s → Sound s ∧ s.user_version ≤ SCHEMA_VERSION ∧ Ready s)
    (h : (setUps init).Reachable S) :
    ∃ w, setUp.Runs S.db none (.ok SCHEMA_VERSION) w none ∧ Complete w ∧ Grown S.db w ∧
      setUp.Runs w none (.ok SCHEMA_VERSION) w none := by
  have hjoint := setUps_invariant (fun s hs => ⟨(hinit s hs).1, (hinit s hs).2.1⟩) h
  have hready := hjoint.ready (fun s hs => (hinit s hs).2.2)
  obtain ⟨v, w, hruns, hgrown, rfl, hcomplete⟩ := (calls_setUp (guarantee init)).2 S.db hjoint.known hready
  exact ⟨w, hruns, hcomplete, hgrown.toGrown, runs_setUp hcomplete⟩

theorem setUp_converges_sample :
    ∃ S, (setUps Blank).Reachable S ∧ S.db.user_version = 1 ∧
      ∃ w, setUp.Runs S.db none (.ok 5) w none ∧ setUp.Runs w none (.ok 5) w none := by
  have hend : ((setUps Blank).run ⟨{}, [], none, []⟩ died).map (fun S => S.db.user_version) = some 1 := by
    decide +kernel
  obtain ⟨S, hrun, hversion⟩ := Option.map_eq_some_iff.mp hend
  have hreach := Machine.reachable_of_run (M := setUps Blank) blank_host hrun
  obtain ⟨w, hruns, -, -, hagain⟩ := setUp_converges Blank.sound hreach
  exact ⟨S, hreach, hversion, w, hruns, hagain⟩

end runs

end MuseAgentSocial.Migrations
