import Mathlib.Data.List.Basic

/-!
# Rows, deletes and foreign keys

A database as one list of rows, each with the name of its table and its
cells.  A missing cell is a NULL.  The only statements are deletes, which
fail when a row that stays refers to a row that goes, as an immediate foreign
key does.

`run` runs a list of deletes one after the other.  `run_eq_some` says what is
left: the rows that no statement matches, and `run_references` that none of them
refers to a row that is gone.
-/

namespace Relational

/-- A row of the table `table`. -/
structure Row (τ γ ν : Type) where
  table : τ
  cells : List (γ × ν)
  deriving DecidableEq, Repr

/-- The columns `columns` of the table `child` refer to the columns
`parentColumns` of the table `parent`. -/
structure ForeignKey (τ γ : Type) where
  child : τ
  columns : List γ
  parent : τ
  parentColumns : List γ
  deriving DecidableEq, Repr

/-- `DELETE FROM table WHERE cond`. -/
structure Delete (τ γ ν : Type) where
  table : τ
  cond : Row τ γ ν → Bool

variable {τ γ ν : Type}

section Tables

variable [DecidableEq τ]

/-- The rows of one table. -/
def select (t : τ) (rows : List (Row τ γ ν)) : List (Row τ γ ν) := rows.filter (·.table = t)

theorem mem_select {t : τ} {rows : List (Row τ γ ν)} {r : Row τ γ ν} :
    r ∈ select t rows ↔ r ∈ rows ∧ r.table = t := by
  simp [select]

/-- The statement deletes the row. -/
def Delete.hits (d : Delete τ γ ν) (r : Row τ γ ν) : Bool := d.table = r.table && d.cond r

/-- Some of the statements deletes the row. -/
def hit (ds : List (Delete τ γ ν)) (r : Row τ γ ν) : Bool := ds.any (fun d => d.hits r)

end Tables

section Columns

variable [DecidableEq γ] [DecidableEq ν]

/-- The cell of a column. -/
def Row.get (r : Row τ γ ν) (c : γ) : Option ν := r.cells.lookup c

/-- The cells of some columns, absent when one of them is NULL. -/
def Row.key (r : Row τ γ ν) (columns : List γ) : Option (List ν) := columns.mapM r.get

/-- `column IN (values)`. -/
def Row.isIn (r : Row τ γ ν) (c : γ) (values : List ν) : Bool :=
  match r.get c with
  | some v => decide (v ∈ values)
  | none => false

/-- `column = value`. -/
def Row.is (r : Row τ γ ν) (c : γ) (value : ν) : Bool := r.isIn c [value]

theorem Row.isIn_iff {r : Row τ γ ν} {c : γ} {values : List ν} :
    r.isIn c values = true ↔ ∃ v, r.get c = some v ∧ v ∈ values := by
  unfold Row.isIn
  cases h : r.get c with
  | none => simp
  | some v => simp

theorem Row.is_iff {r : Row τ γ ν} {c : γ} {value : ν} :
    r.is c value = true ↔ r.get c = some value := by
  simp [Row.is, Row.isIn_iff]

end Columns

variable [DecidableEq τ] [DecidableEq γ]

/-- The values of a column in the rows of a table that meet a condition. -/
def column (t : τ) (c : γ) (cond : Row τ γ ν → Bool) (rows : List (Row τ γ ν)) : List ν :=
  ((select t rows).filter cond).filterMap (·.get c)

theorem mem_column {t : τ} {c : γ} {cond : Row τ γ ν → Bool} {rows : List (Row τ γ ν)} {v : ν} :
    v ∈ column t c cond rows ↔
      ∃ r ∈ rows, r.table = t ∧ cond r = true ∧ r.get c = some v := by
  simp only [column, List.mem_filterMap, List.mem_filter, mem_select, and_assoc]

variable [DecidableEq ν]

/-- A row of `kept` refers to a row of `gone`. -/
def ForeignKey.blocks (fk : ForeignKey τ γ) (gone kept : List (Row τ γ ν)) : Bool :=
  (select fk.parent gone).any (fun p =>
    (select fk.child kept).any (fun c =>
      (c.key fk.columns).isSome && c.key fk.columns = p.key fk.parentColumns))

/-- Run one delete, `none` when a foreign key blocks it. -/
def Delete.run (fks : List (ForeignKey τ γ)) (d : Delete τ γ ν) (rows : List (Row τ γ ν)) :
    Option (List (Row τ γ ν)) :=
  if fks.any (fun fk => fk.blocks (rows.filter d.hits) (rows.filter (fun r => !d.hits r))) then none
  else some (rows.filter (fun r => !d.hits r))

/-- Run the deletes one after the other. -/
def run (fks : List (ForeignKey τ γ)) : List (Delete τ γ ν) → List (Row τ γ ν) →
    Option (List (Row τ γ ν))
  | [], rows => some rows
  | d :: ds, rows => (d.run fks rows).bind (run fks ds)

theorem Delete.run_eq_some {fks : List (ForeignKey τ γ)} {d : Delete τ γ ν}
    {rows rows' : List (Row τ γ ν)} (h : d.run fks rows = some rows') :
    rows' = rows.filter (fun r => !d.hits r) := by
  unfold Delete.run at h
  split at h
  · cases h
  · exact (Option.some.inj h).symm

theorem run_eq_some {fks : List (ForeignKey τ γ)} {ds : List (Delete τ γ ν)}
    {rows rows' : List (Row τ γ ν)} (h : run fks ds rows = some rows') :
    rows' = rows.filter (fun r => !hit ds r) := by
  induction ds generalizing rows with
  | nil =>
    simp only [run, Option.some.injEq] at h
    simp [hit, h]
  | cons d ds ih =>
    simp only [run, Option.bind_eq_some_iff] at h
    obtain ⟨mid, hmid, hrest⟩ := h
    rw [ih hrest, Delete.run_eq_some hmid, List.filter_filter]
    apply List.filter_congr
    intro r _
    simp [hit, Bool.and_comm]

theorem run_references {fks : List (ForeignKey τ γ)} {ds : List (Delete τ γ ν)}
    {rows rows' : List (Row τ γ ν)} (h : run fks ds rows = some rows') {fk : ForeignKey τ γ}
    (hfk : fk ∈ fks) {p c : Row τ γ ν} (hp : p ∈ rows) (hptab : p.table = fk.parent)
    (hgone : hit ds p = true) (hc : c ∈ rows') (hctab : c.table = fk.child) {k : List ν}
    (hck : c.key fk.columns = some k) : p.key fk.parentColumns ≠ some k := by
  induction ds generalizing rows with
  | nil => exact absurd hgone (by simp [hit])
  | cons d ds ih =>
    simp only [run, Option.bind_eq_some_iff] at h
    obtain ⟨mid, hmid, hrest⟩ := h
    have hmem := Delete.run_eq_some hmid
    cases hd : d.hits p with
    | false =>
      refine ih hrest (by simp [hmem, hp, hd]) ?_
      simpa [hit, hd] using hgone
    | true =>
      -- The statement that deletes the row would have failed.
      intro hpk
      have hkept : c ∈ rows.filter (fun r => !d.hits r) := by
        rw [run_eq_some hrest, hmem] at hc
        exact List.mem_of_mem_filter hc
      unfold Delete.run at hmid
      split at hmid
      · cases hmid
      · rename_i hfree
        refine hfree (List.any_eq_true.mpr ⟨fk, hfk, List.any_eq_true.mpr ⟨p,
          mem_select.mpr ⟨List.mem_filter.mpr ⟨hp, hd⟩, hptab⟩, List.any_eq_true.mpr ⟨c,
            mem_select.mpr ⟨hkept, hctab⟩, ?_⟩⟩⟩)
        simp [hck, hpk]

end Relational
