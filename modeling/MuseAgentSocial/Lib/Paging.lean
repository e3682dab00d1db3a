import Mathlib.Data.List.Sort
import Mathlib.Data.List.DropRight

/-!
# Pages of a keyed order

Rows are listed in the order of a key, and read in pages from the last row back to the
first.  The cursor of the next page is a name of the first row of this one, and the next
page ends strictly before it.

* `page` is the query of one page, with its filter, its order and its limit.
* `follow` asks for pages until one is empty.
* `follow_exact`: where no two rows share a key, the pages partition the list.
-/

namespace Paging

variable {α β κ : Type*} [LinearOrder β] (key : α → β)

/-- The rows in the order of the key. -/
def ascending (rows : List α) : List α := rows.insertionSort (fun a b => key a ≤ key b)

/-- The rows in the reverse order of the key. -/
def descending (rows : List α) : List α := rows.insertionSort (fun a b => key b ≤ key a)

/-- The rows before the bound. -/
def below (bound : Option β) (rows : List α) : List α := rows.filter (fun r => bound.all (key r < ·))

/-- The rows before the bound, in order.  A limit keeps the last ones. -/
def page (limit : Option Nat) (bound : Option β) (rows : List α) : List α :=
  match limit with
  | none => ascending key (below key bound rows)
  | some n => ((descending key (below key bound rows)).take n).reverse

/-- Ask for pages until one is empty; `none` when a page fails or the fuel ends. -/
def follow (fetch : Option κ → Option (List α)) (cursor : α → κ) : Nat → Option κ → Option (List (List α))
  | 0, _ => none
  | fuel + 1, before =>
    match fetch before with
    | none => none
    | some [] => some []
    | some (r :: rs) => (follow fetch cursor fuel (some (cursor r))).map ((r :: rs) :: ·)

variable {key} {rows rows' : List α}

local instance total_key : Std.Total (fun a b : α => key a ≤ key b) := ⟨fun a b => le_total (key a) (key b)⟩

local instance trans_key : IsTrans α (fun a b : α => key a ≤ key b) := ⟨fun _ _ _ => le_trans⟩

variable (key) in
theorem perm_ascending (rows : List α) : (ascending key rows).Perm rows := List.perm_insertionSort _ rows

theorem pairwise_ascending (rows : List α) : (ascending key rows).Pairwise (fun a b => key a ≤ key b) :=
  List.pairwise_insertionSort _ rows

theorem strict_ascending (h : (rows.map key).Nodup) : (ascending key rows).Pairwise (fun a b => key a < key b) := by
  have hne : (ascending key rows).Pairwise (fun a b => key a ≠ key b) := by
    rw [← List.pairwise_map, ← List.Nodup]
    exact ((perm_ascending key rows).map key).nodup_iff.mpr h
  exact (List.pairwise_and_iff.mpr ⟨pairwise_ascending rows, hne⟩).imp (fun hab => lt_of_le_of_ne hab.1 hab.2)

theorem pairwise_iff_of_strict {l : List α} (hl : l.Pairwise (fun a b => key a < key b)) {R : α → α → Prop} :
    l.Pairwise R ↔ ∀ a ∈ l, ∀ b ∈ l, key a < key b → R a b := by
  constructor
  · intro hR
    induction l with
    | nil => exact fun a ha => absurd ha List.not_mem_nil
    | cons x xs ih =>
      obtain ⟨hx, hxs⟩ := List.pairwise_cons.mp hl
      obtain ⟨hRx, hRxs⟩ := List.pairwise_cons.mp hR
      intro a ha b hb hab
      rcases List.mem_cons.mp ha with rfl | hax
      · rcases List.mem_cons.mp hb with rfl | hbx
        · exact absurd hab (lt_irrefl _)
        · exact hRx b hbx
      · rcases List.mem_cons.mp hb with rfl | hbx
        · exact absurd hab (lt_asymm (hx a hax))
        · exact ih hxs hRxs a hax b hbx hab
  · exact fun hR => hl.imp_of_mem (fun ha hb hab => hR _ ha _ hb hab)

theorem eq_of_strict {l l' : List α} (hl : l.Pairwise (fun a b => key a < key b))
    (hl' : l'.Pairwise (fun a b => key a < key b)) (hperm : l.Perm l') : l = l' :=
  hperm.eq_of_pairwise (fun _ _ _ _ hab hba => absurd hab (lt_asymm hba)) hl hl'

/-- The order in which the rows are stored does not matter. -/
theorem ascending_congr (h : (rows.map key).Nodup) (hperm : rows.Perm rows') :
    ascending key rows = ascending key rows' :=
  eq_of_strict (strict_ascending h) (strict_ascending ((hperm.map key).nodup_iff.mp h))
    ((perm_ascending key rows).trans (hperm.trans (perm_ascending key rows').symm))

theorem descending_eq (h : (rows.map key).Nodup) : descending key rows = (ascending key rows).reverse := by
  have hperm : (descending key rows).Perm (ascending key rows).reverse :=
    (List.perm_insertionSort _ rows).trans ((perm_ascending key rows).symm.trans (List.reverse_perm _).symm)
  have hdesc : (descending key rows).reverse.Pairwise (fun a b => key a ≤ key b) := by
    rw [List.pairwise_reverse]
    exact List.pairwise_insertionSort (fun a b => key b ≤ key a) rows
  have hnodup : ((descending key rows).reverse.map key).Nodup :=
    (((List.reverse_perm _).trans (List.perm_insertionSort _ rows)).map key).nodup_iff.mpr h
  have hstrict : (descending key rows).reverse.Pairwise (fun a b => key a < key b) := by
    rw [List.Nodup, List.pairwise_map] at hnodup
    exact (List.pairwise_and_iff.mpr ⟨hdesc, hnodup⟩).imp (fun hab => lt_of_le_of_ne hab.1 hab.2)
  have heq := eq_of_strict hstrict (strict_ascending h) ((List.reverse_perm _).trans (hperm.trans (List.reverse_perm _)))
  rw [← heq, List.reverse_reverse]

theorem nodup_below (h : (rows.map key).Nodup) (bound : Option β) : ((below key bound rows).map key).Nodup :=
  h.sublist (List.filter_sublist.map key)

theorem page_limit (h : (rows.map key).Nodup) (limit : Nat) (bound : Option β) :
    page key (some limit) bound rows = (ascending key (below key bound rows)).rtake limit := by
  unfold page
  dsimp only
  rw [descending_eq (nodup_below h bound), List.rtake_eq_reverse_take_reverse]

theorem ascending_filter (h : (rows.map key).Nodup) (p : α → Bool) :
    ascending key (rows.filter p) = (ascending key rows).filter p :=
  eq_of_strict (strict_ascending (h.sublist (List.filter_sublist.map key))) ((strict_ascending h).filter p)
    ((perm_ascending key _).trans ((perm_ascending key rows).filter p).symm)

/-- The rows before the first row of a page are what the pages so far have left out. -/
theorem ascending_below (h : (rows.map key).Nodup) {bound : Option β} {pre post : List α} {r : α}
    (hlist : ascending key (below key bound rows) = pre ++ r :: post) :
    ascending key (below key (some (key r)) rows) = pre := by
  have hr : r ∈ below key bound rows := by
    refine (perm_ascending key _).mem_iff.mp ?_
    rw [hlist]
    simp
  have hbound : bound.all (key r < ·) = true := (List.mem_filter.mp hr).2
  have hbelow : below key (some (key r)) rows = (below key bound rows).filter (fun a => key a < key r) := by
    unfold below
    rw [List.filter_filter]
    refine List.filter_congr (fun a _ => ?_)
    cases bound with
    | none => simp
    | some b =>
      have hlt : key r < b := by simpa using hbound
      by_cases ha : key a < key r
      · simp [ha, ha.trans hlt]
      · simp [ha]
  have hstrict := strict_ascending (nodup_below h bound)
  rw [hlist, List.pairwise_append, List.pairwise_cons] at hstrict
  obtain ⟨-, ⟨hpost, -⟩, hpre⟩ := hstrict
  rw [hbelow, ascending_filter (nodup_below h bound), hlist, List.filter_append]
  have hkeep : pre.filter (fun a => key a < key r) = pre :=
    List.filter_eq_self.mpr (fun a ha => by simpa using hpre a ha r List.mem_cons_self)
  have hdrop : (r :: post).filter (fun a => key a < key r) = [] := by
    refine List.filter_eq_nil_iff.mpr (fun a ha => ?_)
    obtain rfl | ha := List.mem_cons.mp ha
    · simp
    · simpa using (hpost a ha).le
  rw [hkeep, hdrop, List.append_nil]

/-- Following the pages from a cursor gives what lies before it, in pages from the end. -/
theorem follow_exact (h : (rows.map key).Nodup) {fetch : Option κ → Option (List α)} {cursor : α → κ}
    {position : κ → Option β} {limit : Nat} (hlimit : 0 < limit)
    (hfirst : fetch none = some (page key (some limit) none rows))
    (hfetch : ∀ c b, position c = some b → fetch (some c) = some (page key (some limit) (some b) rows))
    (hcursor : ∀ r ∈ rows, position (cursor r) = some (key r)) {fuel : Nat} {before : Option κ} {bound : Option β}
    (hbefore : before = none ∧ bound = none ∨ ∃ c b, before = some c ∧ bound = some b ∧ position c = some b)
    (hfuel : (below key bound rows).length < fuel) :
    ∃ pages, follow fetch cursor fuel before = some pages ∧
      pages.reverse.flatten = ascending key (below key bound rows) := by
  induction fuel generalizing before bound with
  | zero => omega
  | succ fuel ih =>
    have hpage : fetch before = some (page key (some limit) bound rows) := by
      obtain ⟨rfl, rfl⟩ | ⟨c, b, rfl, rfl, hc⟩ := hbefore
      · exact hfirst
      · exact hfetch c b hc
    rw [page_limit h] at hpage
    have hlist : (ascending key (below key bound rows)).rdrop limit ++
        (ascending key (below key bound rows)).rtake limit = ascending key (below key bound rows) := by
      rw [List.rdrop, List.rtake, List.take_append_drop]
    unfold follow
    rw [hpage]
    cases htake : (ascending key (below key bound rows)).rtake limit with
    | nil =>
      have hnil : ascending key (below key bound rows) = [] := by
        have hlen := congrArg List.length htake
        rw [List.rtake, List.length_drop, List.length_nil] at hlen
        exact List.length_eq_zero_iff.mp (by omega)
      exact ⟨[], rfl, hnil.symm⟩
    | cons r rs =>
      rw [htake] at hlist
      have hrest := ascending_below h hlist.symm
      have hlen : (below key (some (key r)) rows).length < (below key bound rows).length := by
        have hall := congrArg List.length hlist
        rw [← hrest, List.length_append, (perm_ascending key _).length_eq, (perm_ascending key _).length_eq,
          List.length_cons] at hall
        omega
      have hr : r ∈ rows := by
        refine List.mem_of_mem_filter ((perm_ascending key (below key bound rows)).mem_iff.mp ?_)
        rw [← hlist]
        simp
      obtain ⟨pages, hpages, hflat⟩ := ih (Or.inr ⟨cursor r, key r, rfl, rfl, hcursor r hr⟩) (by omega)
      refine ⟨(r :: rs) :: pages, by simp [hpages], ?_⟩
      rw [List.reverse_cons, List.flatten_append, hflat, hrest, List.flatten_singleton]
      exact hlist

theorem follow_map {γ : Type*} {fetch : Option κ → Option (List α)} {cursor : α → κ} {view : α → γ}
    {cursor' : γ → κ} (hcursor : ∀ r, cursor' (view r) = cursor r) (fuel : Nat) (before : Option κ) :
    follow (fun c => (fetch c).map (List.map view)) cursor' fuel before =
      (follow fetch cursor fuel before).map (List.map (List.map view)) := by
  induction fuel generalizing before with
  | zero => rfl
  | succ fuel ih =>
    unfold follow
    cases fetch before with
    | none => rfl
    | some rows =>
      cases rows with
      | nil => rfl
      | cons r rs =>
        rw [Option.map_some, List.map_cons]
        dsimp only
        rw [hcursor, ih, Option.map_map, Option.map_map]
        rfl

theorem map_ascending {γ : Type*} {view : α → γ} {key' : γ → β} (hkey : ∀ r, key' (view r) = key r) (rows : List α) :
    (ascending key rows).map view = ascending key' (rows.map view) :=
  List.map_insertionSort _ _ _ _ (fun a _ b _ => by rw [hkey, hkey])

end Paging
