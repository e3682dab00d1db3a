import Mathlib.Data.List.Nodup
import Mathlib.Data.List.Perm.Subperm

/-!
# Tables with a primary key

A `Table key` is a list of rows in which no two rows have the same key, so
a row that breaks the primary key cannot be stored.  The operations are the
ones SQL gives a program.

* `find` is `SELECT ... WHERE key = ?`.
* `insert` is `INSERT`: `none` when the key is taken.
* `insertOrIgnore` is `INSERT OR IGNORE`.
* `modify` is `UPDATE ... WHERE key = ?`, for an update that keeps the key.
* `upsert` is `INSERT ... ON CONFLICT DO UPDATE` of all the other columns.
* `delete` is `DELETE ... WHERE`.

Every lemma speaks of `find` or of membership in `rows`, and `mem_iff_find`
goes between the two.

`All P`, `Same p` and `Agree p` are what a development says of whole tables:
every row meets `P`, two tables have the same rows among those that meet `p`,
and they list the same rows under the keys that meet `p`.  Each has one rule
per operation.
-/

/-- Rows with pairwise different keys, in insertion order. -/
structure Table {κ ρ : Type*} (key : ρ → κ) where
  rows : List ρ
  nodup : (rows.map key).Nodup

namespace Table

variable {κ ρ : Type*} {key : ρ → κ}

/-- The table without rows. -/
def empty : Table key := ⟨[], List.nodup_nil⟩

/-- The table with one row. -/
def single (r : ρ) : Table key := ⟨[r], List.nodup_singleton _⟩

theorem eq_of_key {t : Table key} {r r' : ρ} (h : r ∈ t.rows) (h' : r' ∈ t.rows)
    (hkey : key r = key r') : r = r' :=
  List.inj_on_of_nodup_map t.nodup h h' hkey

/-- Remove the rows that meet `p`. -/
def delete (t : Table key) (p : ρ → Bool) : Table key where
  rows := t.rows.filter (fun r => !p r)
  nodup := t.nodup.sublist (List.filter_sublist.map key)

@[simp] theorem mem_delete {t : Table key} {p : ρ → Bool} {r : ρ} :
    r ∈ (t.delete p).rows ↔ r ∈ t.rows ∧ p r = false := by
  simp [delete]

@[ext] theorem ext {t t' : Table key} (h : t.rows = t'.rows) : t = t' := by
  cases t
  cases t'
  cases h
  rfl

theorem delete_delete (t : Table key) (p q : ρ → Bool) :
    (t.delete p).delete q = t.delete (fun r => p r || q r) := by
  ext1
  simp only [delete, List.filter_filter]
  apply List.filter_congr
  intro r _
  simp [Bool.and_comm]

theorem foldl_delete [DecidableEq κ] (t : Table key) (p : ρ → Bool) :
    (t.rows.filter p).foldl (fun t' r => t'.delete (fun r' => key r' = key r)) t = t.delete p := by
  have hfold : ∀ (xs : List ρ) (t' : Table key),
      xs.foldl (fun t' r => t'.delete (fun r' => key r' = key r)) t' =
        t'.delete (fun r => xs.any (fun x => key r = key x)) := by
    intro xs
    induction xs with
    | nil =>
      intro t'
      ext1
      simp [delete]
    | cons x xs ih =>
      intro t'
      rw [List.foldl_cons, ih, delete_delete]
      rfl
  rw [hfold]
  ext1
  simp only [delete]
  apply List.filter_congr
  intro r hr
  congr 1
  rw [Bool.eq_iff_iff, List.any_eq_true]
  constructor
  · rintro ⟨x, hx, hkey⟩
    obtain ⟨hmem, hp⟩ := List.mem_filter.mp hx
    rw [eq_of_key hr hmem (by simpa using hkey)]
    exact hp
  · intro hp
    exact ⟨r, List.mem_filter.mpr ⟨hr, hp⟩, by simp⟩

theorem countP_delete_le [BEq ρ] [LawfulBEq ρ] (t : Table key) (p : ρ → Bool) (kept : List ρ) :
    (t.delete (fun r => p r && !kept.contains r)).rows.countP p ≤ kept.length := by
  rw [List.countP_eq_length_filter]
  apply List.Subperm.length_le
  apply List.subperm_of_subset
  · exact (List.Nodup.of_map _ (nodup _)).filter _
  · intro r hr
    obtain ⟨hmem, hp⟩ := List.mem_filter.mp hr
    obtain ⟨-, hkept⟩ := mem_delete.mp hmem
    rw [hp, Bool.true_and, Bool.not_eq_false'] at hkept
    exact List.contains_iff_mem.mp hkept

/-- Update every row; the update keeps the keys. -/
def map (t : Table key) (f : ρ → ρ) (hf : ∀ r, key (f r) = key r) : Table key where
  rows := t.rows.map f
  nodup := by
    have hcomp : key ∘ f = key := funext hf
    rw [List.map_map, hcomp]
    exact t.nodup

@[simp] theorem mem_map {t : Table key} {f : ρ → ρ} {hf : ∀ r, key (f r) = key r} {r : ρ} :
    r ∈ (t.map f hf).rows ↔ ∃ r₀ ∈ t.rows, f r₀ = r := by
  simp [map]

/-- Every row meets `P`. -/
def All (t : Table key) (P : ρ → Prop) : Prop := ∀ r ∈ t.rows, P r

section all

variable {t : Table key} {P Q : ρ → Prop}

theorem All.empty : (Table.empty : Table key).All P := fun _ hr => absurd hr List.not_mem_nil

theorem All.imp (h : t.All P) (himp : ∀ r, P r → Q r) : t.All Q := fun r hr => himp r (h r hr)

theorem All.delete (h : t.All P) (p : ρ → Bool) : (t.delete p).All P :=
  fun r hr => h r (mem_delete.mp hr).1

end all

variable [DecidableEq κ]

/-- The row with a key. -/
def find (t : Table key) (k : κ) : Option ρ := t.rows.find? (fun r => key r = k)

theorem find_eq_some {t : Table key} {k : κ} {r : ρ} :
    t.find k = some r ↔ r ∈ t.rows ∧ key r = k := by
  constructor
  · intro h
    exact ⟨List.mem_of_find?_eq_some h, by simpa using List.find?_some h⟩
  · rintro ⟨hmem, rfl⟩
    cases hfind : t.find (key r) with
    | none => exact absurd (List.find?_eq_none.mp hfind r hmem) (by simp)
    | some r' =>
      have hkey : key r' = key r := by simpa using List.find?_some hfind
      exact congrArg some (eq_of_key (List.mem_of_find?_eq_some hfind) hmem hkey)

theorem mem_iff_find {t : Table key} {r : ρ} : r ∈ t.rows ↔ t.find (key r) = some r := by
  simp [find_eq_some]

theorem find_eq_none {t : Table key} {k : κ} : t.find k = none ↔ ∀ r ∈ t.rows, key r ≠ k := by
  simp [find, List.find?_eq_none]

theorem key_of_find {t : Table key} {k : κ} {r : ρ} (h : t.find k = some r) : key r = k :=
  (find_eq_some.mp h).2

@[simp] theorem find_empty (k : κ) : (empty : Table key).find k = none := rfl

/-- An update of all rows keeps which keys are taken. -/
@[simp] theorem isSome_find_map (t : Table key) (f : ρ → ρ) (hf : ∀ r, key (f r) = key r) (k : κ) :
    ((t.map f hf).find k).isSome = (t.find k).isSome := by
  have hkey : (fun r => decide (key r = k)) ∘ f = fun r => decide (key r = k) := by
    funext r
    rw [Function.comp_apply, hf]
  show ((t.rows.map f).find? _).isSome = (t.rows.find? _).isSome
  rw [List.find?_map, Option.isSome_map, hkey]

/-- Add a row, `none` when its key is taken. -/
def insert (t : Table key) (r : ρ) : Option (Table key) :=
  if h : key r ∈ t.rows.map key then none
  else some
    { rows := t.rows ++ [r]
      nodup := by
        rw [List.map_append, List.nodup_append]
        refine ⟨t.nodup, by simp, ?_⟩
        rintro a ha b hb rfl
        rw [List.map_singleton, List.mem_singleton] at hb
        exact h (hb ▸ ha) }

theorem insert_eq_some {t t' : Table key} {r : ρ} (h : t.insert r = some t') :
    t.find (key r) = none ∧ t'.rows = t.rows ++ [r] := by
  unfold insert at h
  split_ifs at h with hmem
  obtain rfl := Option.some.inj h
  refine ⟨find_eq_none.mpr (fun r' hr' hkey => hmem ?_), rfl⟩
  exact List.mem_map.mpr ⟨r', hr', hkey⟩

theorem insert_isSome {t : Table key} {r : ρ} (h : t.find (key r) = none) :
    ∃ t', t.insert r = some t' := by
  unfold insert
  split_ifs with hmem
  · obtain ⟨r', hr', hkey⟩ := List.mem_map.mp hmem
    exact absurd hkey (find_eq_none.mp h r' hr')
  · exact ⟨_, rfl⟩

theorem mem_of_insert {t t' : Table key} {r r' : ρ} (h : t.insert r = some t') :
    r' ∈ t'.rows ↔ r' ∈ t.rows ∨ r' = r := by
  rw [(insert_eq_some h).2]
  simp

theorem find_of_insert {t t' : Table key} {r : ρ} (h : t.insert r = some t') (k : κ) :
    t'.find k = if k = key r then some r else t.find k := by
  split_ifs with hk
  · subst hk
    exact find_eq_some.mpr ⟨(mem_of_insert h).mpr (Or.inr rfl), rfl⟩
  · apply Option.ext
    intro r'
    rw [find_eq_some, find_eq_some, mem_of_insert h]
    constructor
    · rintro ⟨hmem | rfl, hkey⟩
      · exact ⟨hmem, hkey⟩
      · exact absurd hkey.symm hk
    · rintro ⟨hmem, hkey⟩
      exact ⟨Or.inl hmem, hkey⟩

theorem find_delete (t : Table key) (p : ρ → Bool) (k : κ) :
    (t.delete p).find k = (t.find k).filter (fun r => !p r) := by
  apply Option.ext
  intro r
  rw [find_eq_some, mem_delete, Option.filter_eq_some_iff, find_eq_some]
  simp only [Bool.not_eq_true']
  tauto

/-- Add a row unless its key is taken. -/
def insertOrIgnore (t : Table key) (r : ρ) : Table key := (t.insert r).getD t

theorem mem_insertOrIgnore {t : Table key} {r r' : ρ} :
    r' ∈ (t.insertOrIgnore r).rows ↔ r' ∈ t.rows ∨ (r' = r ∧ t.find (key r) = none) := by
  unfold insertOrIgnore
  cases hins : t.insert r with
  | none =>
    have hfound : t.find (key r) ≠ none := fun hnone => by
      obtain ⟨t', ht'⟩ := insert_isSome hnone
      simp [hins] at ht'
    simp [hfound]
  | some t' =>
    rw [Option.getD_some, mem_of_insert hins]
    simp [(insert_eq_some hins).1]

theorem find_insertOrIgnore (t : Table key) (r : ρ) (k : κ) :
    (t.insertOrIgnore r).find k =
      if k = key r then some ((t.find (key r)).getD r) else t.find k := by
  unfold insertOrIgnore
  cases hins : t.insert r with
  | none =>
    have hfound : t.find (key r) ≠ none := fun hnone => by
      obtain ⟨t', ht'⟩ := insert_isSome hnone
      simp [hins] at ht'
    obtain ⟨r', hr'⟩ := Option.ne_none_iff_exists'.mp hfound
    rw [Option.getD_none, hr', Option.getD_some]
    split_ifs with hk
    · rw [hk, hr']
    · rfl
  | some t' =>
    rw [Option.getD_some, find_of_insert hins, (insert_eq_some hins).1, Option.getD_none]

/-- Update the row with a key; the update keeps the key. -/
def modify (t : Table key) (k : κ) (f : ρ → ρ) (hf : ∀ r, key (f r) = key r) : Table key :=
  t.map (fun r => if key r = k then f r else r) (fun r => by split_ifs <;> simp [hf])

theorem mem_modify {t : Table key} {k : κ} {f : ρ → ρ} {hf : ∀ r, key (f r) = key r} {r : ρ} :
    r ∈ (t.modify k f hf).rows ↔
      (∃ r₀ ∈ t.rows, key r₀ = k ∧ f r₀ = r) ∨ (r ∈ t.rows ∧ key r ≠ k) := by
  simp only [modify, mem_map]
  constructor
  · rintro ⟨r₀, hr₀, rfl⟩
    split_ifs with hk
    · exact Or.inl ⟨r₀, hr₀, hk, rfl⟩
    · exact Or.inr ⟨hr₀, hk⟩
  · rintro (⟨r₀, hr₀, hk, rfl⟩ | ⟨hr, hk⟩)
    · exact ⟨r₀, hr₀, by simp [hk]⟩
    · exact ⟨r, hr, by simp [hk]⟩

theorem countP_modify_le (t : Table key) (k : κ) {f : ρ → ρ} (hf : ∀ r, key (f r) = key r) {p : ρ → Bool}
    (h : ∀ r, p (f r) = true → p r = true) : (t.modify k f hf).rows.countP p ≤ t.rows.countP p := by
  show (t.rows.map _).countP p ≤ _
  rw [List.countP_map]
  apply List.countP_mono_left
  intro r _ hr
  rw [Function.comp_apply] at hr
  split_ifs at hr
  · exact h r hr
  · exact hr

theorem find_modify (t : Table key) (k k' : κ) (f : ρ → ρ) (hf : ∀ r, key (f r) = key r) :
    (t.modify k f hf).find k' = if k' = k then (t.find k).map f else t.find k' := by
  simp only [find, modify, map, List.find?_map]
  have hcomp : (fun r => decide (key r = k')) ∘ (fun r => if key r = k then f r else r) =
      fun r => decide (key r = k') := by
    funext r
    by_cases hk : key r = k <;> simp [hk, hf]
  rw [hcomp]
  split_ifs with hkk
  · subst hkk
    cases hfind : t.rows.find? (fun r => decide (key r = k')) with
    | none => rfl
    | some r =>
      have hkey : key r = k' := by simpa using List.find?_some hfind
      simp [hkey]
  · cases hfind : t.rows.find? (fun r => decide (key r = k')) with
    | none => rfl
    | some r =>
      have hkey : key r = k' := by simpa using List.find?_some hfind
      simp [hkey, hkk]

/-- An update keeps which keys are taken. -/
@[simp] theorem isSome_find_modify (t : Table key) (k k' : κ) (f : ρ → ρ)
    (hf : ∀ r, key (f r) = key r) : ((t.modify k f hf).find k').isSome = (t.find k').isSome := by
  rw [find_modify]
  split_ifs with hk
  · rw [hk, Option.isSome_map]
  · rfl

theorem find_modify_of_none {t : Table key} {k k' : κ} {f : ρ → ρ} (h : t.find k' = none)
    (hf : ∀ r, key (f r) = key r) :
    (t.modify k f hf).find k' = none := by
  rw [find_modify]
  split_ifs with hk
  · rw [← hk, h]
    rfl
  · exact h

/-- Put a row in the place of the row with its key, or add it. -/
def upsert (t : Table key) (r : ρ) : Table key :=
  (t.modify (key r) (fun r' => if key r' = key r then r else r')
    (fun r' => by split_ifs with hk <;> simp [hk])).insertOrIgnore r

theorem find_upsert (t : Table key) (r : ρ) (k : κ) :
    (t.upsert r).find k = if k = key r then some r else t.find k := by
  unfold upsert
  rw [find_insertOrIgnore, find_modify, find_modify, if_pos rfl]
  split_ifs with hk
  · cases hfind : t.find (key r) with
    | none => rfl
    | some r' => simp [key_of_find hfind]
  · rfl

theorem isSome_find_foldl_insertOrIgnore {α : Type*} {row : α → ρ} (xs : List α) (t : Table key)
    (k : κ) :
    ((xs.foldl (fun t x => t.insertOrIgnore (row x)) t).find k).isSome ↔
      (t.find k).isSome ∨ ∃ x ∈ xs, key (row x) = k := by
  induction xs generalizing t with
  | nil => simp
  | cons x xs ih =>
    rw [List.foldl_cons, ih, find_insertOrIgnore]
    simp only [List.mem_cons, exists_eq_or_imp]
    split_ifs with hk
    · simp [hk]
    · have hne : key (row x) ≠ k := fun h => hk h.symm
      simp [hne]

/-! ## Every row -/

section all

variable {t t' : Table key} {P : ρ → Prop} {r : ρ} {k : κ}

theorem All.find (h : t.All P) (hfind : t.find k = some r) : P r :=
  h r (find_eq_some.mp hfind).1

theorem All.insert (h : t.All P) (hr : P r) (hins : t.insert r = some t') : t'.All P := by
  intro r' hr'
  rcases (mem_of_insert hins).mp hr' with hold | rfl
  · exact h r' hold
  · exact hr

theorem All.insertOrIgnore (h : t.All P) (hr : P r) : (t.insertOrIgnore r).All P := by
  intro r' hr'
  rcases mem_insertOrIgnore.mp hr' with hold | ⟨rfl, -⟩
  · exact h r' hold
  · exact hr

theorem All.modify (h : t.All P) {f : ρ → ρ} (himp : ∀ r, t.find k = some r → P r → P (f r))
    (hf : ∀ r, key (f r) = key r) :
    (t.modify k f hf).All P := by
  intro r hr
  rcases mem_modify.mp hr with ⟨r₀, hr₀, hk, rfl⟩ | ⟨hold, -⟩
  · exact himp r₀ (find_eq_some.mpr ⟨hr₀, hk⟩) (h r₀ hr₀)
  · exact h r hold

theorem All.upsert (h : t.All P) (hr : P r) : (t.upsert r).All P := by
  refine All.insertOrIgnore (All.modify h ?_ _) hr
  intro r₀ _ h₀
  split_ifs
  · exact hr
  · exact h₀

end all

/-! ## The same rows -/

/-- The tables have the same rows among those that meet `p`. -/
def Same (p : ρ → Bool) (t t' : Table key) : Prop :=
  ∀ k, (t.find k).filter p = (t'.find k).filter p

section same

variable {p : ρ → Bool} {t t' t'' : Table key} {r : ρ} {k : κ}

@[refl] theorem Same.refl (t : Table key) : Same p t t := fun _ => rfl

theorem Same.trans (h : Same p t t') (h' : Same p t' t'') : Same p t t'' :=
  fun k => (h k).trans (h' k)

theorem Same.symm (h : Same p t t') : Same p t' t := fun k => (h k).symm

/-- A compared row of one table is a row of the other. -/
theorem Same.find (h : Same p t t') (hr : t.find k = some r) (hp : p r = true) :
    t'.find k = some r := by
  have hk := h k
  rw [hr, Option.filter_some, if_pos hp] at hk
  exact Option.eq_some_of_filter_eq_some hk.symm

theorem Same.insert (hr : p r = false) (hins : t.insert r = some t') : Same p t t' := by
  intro k
  rw [find_of_insert hins]
  split_ifs with hk
  · rw [hk, (insert_eq_some hins).1]
    simp [Option.filter_some, hr]
  · rfl

theorem Same.insertOrIgnore (hr : p r = false) : Same p t (t.insertOrIgnore r) := by
  intro k
  rw [find_insertOrIgnore]
  split_ifs with hk
  · subst hk
    cases hfind : t.find (key r) with
    | none => simp [Option.filter_some, hr]
    | some r' => rfl
  · rfl

theorem Same.modify {f : ρ → ρ}
    (hr : ∀ r, t.find k = some r → (p r = false ∧ p (f r) = false) ∨ f r = r)
    (hf : ∀ r, key (f r) = key r) :
    Same p t (t.modify k f hf) := by
  intro k'
  rw [find_modify]
  split_ifs with hk
  · subst hk
    cases hfind : t.find k' with
    | none => rfl
    | some r =>
      rcases hr r hfind with ⟨hp, hpf⟩ | hfix
      · simp [Option.filter_some, hp, hpf]
      · simp [hfix]
  · rfl

theorem Same.modify_of_find {f : ρ → ρ} (hr : t.find k = some r) (hp : p r = false)
    (hpf : p (f r) = false) (hf : ∀ r, key (f r) = key r) : Same p t (t.modify k f hf) := by
  refine .modify (fun r' hr' => Or.inl ?_) hf
  obtain rfl := Option.some.inj (hr.symm.trans hr')
  exact ⟨hp, hpf⟩

theorem Same.upsert (hr : p r = false) (hold : ∀ r', t.find (key r) = some r' → p r' = false) :
    Same p t (t.upsert r) := by
  intro k
  rw [find_upsert]
  split_ifs with hk
  · subst hk
    cases hfind : t.find (key r) with
    | none => simp [Option.filter_some, hr]
    | some r' => simp [Option.filter_some, hr, hold r' hfind]
  · rfl

theorem Same.delete {q : ρ → Bool} (h : ∀ r ∈ t.rows, q r = true → p r = false) :
    Same p t (t.delete q) := by
  intro k
  rw [find_delete]
  cases hfind : t.find k with
  | none => rfl
  | some r =>
    cases hq : q r with
    | false => simp [Option.filter_some, hq]
    | true => simp [Option.filter_some, hq, h r (find_eq_some.mp hfind).1 hq]

/-- A row that changed and belongs to the compared ones shows the difference. -/
theorem not_same {r' : Option ρ} (hr : t.find k = some r) (hp : p r = true)
    (hr' : t'.find k = r') (hne : r' ≠ some r) : ¬ Same p t t' := by
  intro h
  rw [← hr', h.find hr hp] at hne
  exact hne rfl

theorem not_same_modify {f : ρ → ρ} (hr : t.find k = some r) (hp : p r = true) (hne : f r ≠ r)
    (hf : ∀ r, key (f r) = key r) :
    ¬ Same p t (t.modify k f hf) := by
  refine not_same hr hp rfl ?_
  rw [find_modify, if_pos rfl, hr]
  exact fun heq => hne (Option.some.inj heq)

end same

/-! ## Agreement on some keys -/

/-- The tables have the same rows, in the same order, under the keys that meet `p`. -/
def Agree (p : κ → Bool) (t t' : Table key) : Prop :=
  t.rows.filter (fun r => p (key r)) = t'.rows.filter (fun r => p (key r))

section agree

variable {p : κ → Bool} {t t' t'' : Table key} {r : ρ} {k : κ}

omit [DecidableEq κ] in
@[refl] theorem Agree.refl (t : Table key) : Agree p t t := rfl

omit [DecidableEq κ] in
theorem Agree.symm (h : Agree p t t') : Agree p t' t := Eq.symm h

omit [DecidableEq κ] in
theorem Agree.trans (h : Agree p t t') (h' : Agree p t' t'') : Agree p t t'' := Eq.trans h h'

/-- A compared key finds the same row. -/
theorem Agree.find (h : Agree p t t') (hp : p k = true) : t.find k = t'.find k := by
  have hfilter : ∀ u : Table key,
      u.find k = (u.rows.filter (fun r => p (key r))).find? (fun r => key r = k) := by
    intro u
    rw [List.find?_filter]
    unfold Table.find
    congr 1
    funext r
    by_cases hk : key r = k
    · simp [hk, hp]
    · simp [hk]
  rw [hfilter t, hfilter t', h]

/-- A key that is compared, or that is in neither table. -/
theorem Agree.find_of_or (h : Agree p t t') (hk : p k = true ∨ t.find k = none)
    (hk' : p k = true ∨ t'.find k = none) : t.find k = t'.find k := by
  rcases hk with hp | hnone
  · exact h.find hp
  · rcases hk' with hp | hnone'
    · exact h.find hp
    · rw [hnone, hnone']

omit [DecidableEq κ] in
/-- A selection of compared rows. -/
theorem Agree.filter (h : Agree p t t') {q : ρ → Bool} (hq : ∀ r ∈ t.rows, q r = true → p (key r) = true)
    (hq' : ∀ r ∈ t'.rows, q r = true → p (key r) = true) : t.rows.filter q = t'.rows.filter q := by
  have hsub : ∀ u : Table key, (∀ r ∈ u.rows, q r = true → p (key r) = true) →
      u.rows.filter q = (u.rows.filter (fun r => p (key r))).filter q := by
    intro u hu
    rw [List.filter_filter]
    refine List.filter_congr (fun r hr => ?_)
    cases hqr : q r with
    | false => rfl
    | true => rw [hu r hr hqr, Bool.and_self]
  rw [hsub t hq, hsub t' hq', h]

omit [DecidableEq κ] in
theorem Agree.any (h : Agree p t t') {q : ρ → Bool} (hq : ∀ r ∈ t.rows, q r = true → p (key r) = true)
    (hq' : ∀ r ∈ t'.rows, q r = true → p (key r) = true) : t.rows.any q = t'.rows.any q := by
  have hfilter := h.filter hq hq'
  have hany : ∀ rows : List ρ, rows.any q = !(rows.filter q).isEmpty := by
    intro rows
    induction rows with
    | nil => rfl
    | cons r rows ih =>
      cases hqr : q r with
      | false => simp [hqr, ih]
      | true => simp [hqr]
  rw [hany, hany, hfilter]

omit [DecidableEq κ] in
theorem Agree.countP (h : Agree p t t') {q : ρ → Bool}
    (hq : ∀ r ∈ t.rows, q r = true → p (key r) = true)
    (hq' : ∀ r ∈ t'.rows, q r = true → p (key r) = true) : t.rows.countP q = t'.rows.countP q := by
  rw [List.countP_eq_length_filter, List.countP_eq_length_filter, h.filter hq hq']

omit [DecidableEq κ] in
theorem Agree.map (h : Agree p t t') {f : ρ → ρ} {hf : ∀ r, key (f r) = key r} :
    Agree p (t.map f hf) (t'.map f hf) := by
  have hcomp : (fun r => p (key r)) ∘ f = fun r => p (key r) := by
    funext r
    exact congrArg p (hf r)
  show (t.rows.map f).filter _ = (t'.rows.map f).filter _
  rw [List.filter_map, List.filter_map, hcomp]
  exact congrArg (List.map f) h

theorem Agree.modify (h : Agree p t t') {f : ρ → ρ}
    (hf : ∀ r, key (f r) = key r) :
    Agree p (t.modify k f hf) (t'.modify k f hf) :=
  Agree.map h

omit [DecidableEq κ] in
theorem Agree.delete (h : Agree p t t') (q : ρ → Bool) : Agree p (t.delete q) (t'.delete q) := by
  show (t.rows.filter _).filter _ = (t'.rows.filter _).filter _
  calc (t.rows.filter (fun r => !q r)).filter (fun r => p (key r))
      = (t.rows.filter (fun r => p (key r))).filter (fun r => !q r) := List.filter_comm ..
    _ = (t'.rows.filter (fun r => p (key r))).filter (fun r => !q r) := congrArg _ h
    _ = (t'.rows.filter (fun r => !q r)).filter (fun r => p (key r)) := List.filter_comm ..

theorem rows_insertOrIgnore (t : Table key) (r : ρ) :
    (t.insertOrIgnore r).rows = if (t.find (key r)).isSome then t.rows else t.rows ++ [r] := by
  unfold insertOrIgnore
  cases hfind : t.find (key r) with
  | none =>
    obtain ⟨t', hins⟩ := insert_isSome hfind
    rw [hins, Option.getD_some, (insert_eq_some hins).2]
    rfl
  | some r' =>
    cases hins : t.insert r with
    | none => rfl
    | some t' =>
      rw [(insert_eq_some hins).1] at hfind
      exact absurd hfind (Option.some_ne_none r').symm

theorem insertOrIgnore_of_isSome {t : Table key} {r : ρ} (h : (t.find (key r)).isSome) :
    t.insertOrIgnore r = t := by
  ext1
  rw [rows_insertOrIgnore, if_pos h]

theorem Agree.insertOrIgnore (h : Agree p t t') : Agree p (t.insertOrIgnore r) (t'.insertOrIgnore r) := by
  show (t.insertOrIgnore r).rows.filter _ = (t'.insertOrIgnore r).rows.filter _
  rw [rows_insertOrIgnore, rows_insertOrIgnore]
  cases hp : p (key r) with
  | false =>
    -- The row is not a compared one, so it does not matter where it goes.
    have hskip : ∀ rows : List ρ, (rows ++ [r]).filter (fun r => p (key r)) =
        rows.filter (fun r => p (key r)) := by
      intro rows
      rw [List.filter_append]
      simp [hp]
    split_ifs
    · exact h
    · rw [hskip]
      exact h
    · rw [hskip]
      exact h
    · rw [hskip, hskip]
      exact h
  | true =>
    rw [h.find hp]
    split_ifs
    · exact h
    · rw [List.filter_append, List.filter_append, h]

theorem Agree.upsert (h : Agree p t t') : Agree p (t.upsert r) (t'.upsert r) :=
  Agree.insertOrIgnore (Agree.modify h _)

theorem Agree.foldl_insertOrIgnore {α : Type*} {row : α → ρ} (xs : List α) :
    ∀ {t t' : Table key}, Agree p t t' →
      Agree p (xs.foldl (fun t x => t.insertOrIgnore (row x)) t)
        (xs.foldl (fun t x => t.insertOrIgnore (row x)) t') := by
  induction xs with
  | nil => exact id
  | cons x xs ih => exact fun h => ih h.insertOrIgnore

theorem Agree.insert (h : Agree p t t') (hp : p (key r) = true) :
    (t.insert r = none ∧ t'.insert r = none) ∨
      ∃ u u', t.insert r = some u ∧ t'.insert r = some u' ∧ Agree p u u' := by
  have hfind := h.find hp
  cases hins : t.insert r with
  | none =>
    left
    cases hins' : t'.insert r with
    | none => exact ⟨rfl, rfl⟩
    | some u' =>
      rw [(insert_eq_some hins').1] at hfind
      obtain ⟨u, hu⟩ := insert_isSome hfind
      rw [hins] at hu
      exact absurd hu (Option.some_ne_none u).symm
  | some u =>
    right
    rw [(insert_eq_some hins).1] at hfind
    obtain ⟨u', hins'⟩ := insert_isSome hfind.symm
    refine ⟨u, u', rfl, hins', ?_⟩
    show u.rows.filter _ = u'.rows.filter _
    rw [(insert_eq_some hins).2, (insert_eq_some hins').2, List.filter_append, List.filter_append, h]

theorem filter_key (t : Table key) (k : κ) : t.rows.filter (fun r => key r = k) = (t.find k).toList := by
  have hrows : ∀ rows : List ρ, (rows.map key).Nodup →
      rows.filter (fun r => key r = k) = (rows.find? (fun r => key r = k)).toList := by
    intro rows
    induction rows with
    | nil => exact fun _ => rfl
    | cons r rows ih =>
      intro hnodup
      obtain ⟨hnew, hnodup⟩ := List.nodup_cons.mp hnodup
      by_cases hk : key r = k
      · have hnone : rows.filter (fun r => key r = k) = [] := by
          refine List.filter_eq_nil_iff.mpr (fun r' hr' hk' => hnew ?_)
          rw [hk, ← of_decide_eq_true hk']
          exact List.mem_map_of_mem hr'
        simp [hk, hnone]
      · simp [hk, ih hnodup]
  exact hrows t.rows t.nodup

theorem Agree.countP_key (h : Agree (fun k' => k' ≠ k) t t') (q : ρ → Bool) :
    t'.rows.countP q + ((t.find k).any q).toNat = t.rows.countP q + ((t'.find k).any q).toNat := by
  have hsplit : ∀ u : Table key,
      u.rows.countP q = ((u.find k).any q).toNat + (u.rows.filter (fun r => key r ≠ k)).countP q := by
    intro u
    have hkey : (u.rows.filter (fun r => key r = k)).countP q = ((u.find k).any q).toNat := by
      rw [filter_key]
      cases u.find k with
      | none => rfl
      | some r => cases hq : q r <;> simp [hq]
    rw [List.countP_eq_countP_filter_add u.rows q (fun r => key r = k), hkey]
    simp
  have hrest : (t.rows.filter (fun r => key r ≠ k)).countP q = (t'.rows.filter (fun r => key r ≠ k)).countP q :=
    congrArg (List.countP q) h
  rw [hsplit t, hsplit t', hrest]
  omega

/-! A change under a key that is not compared. -/

theorem Agree.insertOrIgnore_other (hp : p (key r) = false) : Agree p t (t.insertOrIgnore r) := by
  show t.rows.filter _ = (t.insertOrIgnore r).rows.filter _
  rw [rows_insertOrIgnore]
  split_ifs
  · rfl
  · rw [List.filter_append]
    simp [hp]

theorem Agree.insert_other (hp : p (key r) = false) (hins : t.insert r = some t') : Agree p t t' := by
  show t.rows.filter _ = t'.rows.filter _
  rw [(insert_eq_some hins).2, List.filter_append]
  simp [hp]

theorem Agree.modify_other {f : ρ → ρ} (hp : p k = false)
    (hf : ∀ r, key (f r) = key r) :
    Agree p t (t.modify k f hf) := by
  show t.rows.filter _ = (t.rows.map _).filter _
  rw [List.filter_map]
  have hcomp : (fun r => p (key r)) ∘ (fun r => if key r = k then f r else r) = fun r => p (key r) := by
    funext r
    by_cases hk : key r = k
    · simp [hk, hf]
    · simp [hk]
  rw [hcomp]
  conv_lhs => rw [← List.map_id (t.rows.filter _)]
  refine List.map_congr_left (fun r hr => ?_)
  have hpr := (List.mem_filter.mp hr).2
  split_ifs with hk
  · rw [hk, hp] at hpr
    exact absurd hpr Bool.false_ne_true
  · rfl

theorem Agree.upsert_other (hp : p (key r) = false) : Agree p t (t.upsert r) :=
  (Agree.modify_other hp _).trans (Agree.insertOrIgnore_other hp)

omit [DecidableEq κ] in
theorem Agree.delete_other {q : ρ → Bool} (h : ∀ r ∈ t.rows, q r = true → p (key r) = false) :
    Agree p t (t.delete q) := by
  show t.rows.filter _ = (t.rows.filter _).filter _
  rw [List.filter_filter]
  refine List.filter_congr (fun r hr => ?_)
  cases hq : q r with
  | false => simp
  | true => simp [h r hr hq]

omit [DecidableEq κ] in
theorem Agree.eq (h : Agree (fun _ => true) t t') : t = t' := by
  ext1
  unfold Agree at h
  rwa [List.filter_true, List.filter_true] at h

end agree

/-- An update that leaves the row as it is. -/
theorem modify_of_fixed {t : Table key} {k : κ} {f : ρ → ρ} {hf : ∀ r, key (f r) = key r}
    (h : ∀ r, t.find k = some r → f r = r) : t.modify k f hf = t := by
  ext1
  show t.rows.map _ = t.rows
  conv_rhs => rw [← List.map_id t.rows]
  refine List.map_congr_left (fun r hr => ?_)
  split_ifs with hk
  · exact h r (find_eq_some.mpr ⟨hr, hk⟩)
  · rfl

end Table
