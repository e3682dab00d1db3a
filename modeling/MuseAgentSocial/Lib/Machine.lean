import Mathlib.Data.List.Basic

/-!
# Machines with partial steps

A `Machine` has initial states and a partial step function.  `step s a` is
the state after the action `a`, and it is `none` when `a` is not enabled in
`s`.  The actions carry every choice of the environment, so a run is a list
of actions and can be evaluated.

`Machine.Reach ok` holds of the states that some run reaches when every
step `a` taken from a state `s` meets `ok s a`.  `Machine.Reachable` is the
case without a condition.  `Reach.invariant` is the one induction over runs:
a development proves what a step preserves and gets what every run preserves.
-/

/-- A state machine given by its initial states and a partial step. -/
structure Machine (σ α : Type*) where
  /-- The states a run may start in. -/
  init : σ → Prop
  /-- The state after one action, `none` when the action is not enabled. -/
  step : σ → α → Option σ

namespace Machine

variable {σ α : Type*} (M : Machine σ α)

/-- Run a list of actions, one after the other. -/
def run (s : σ) : List α → Option σ
  | [] => some s
  | a :: as => (M.step s a).bind (fun t => run t as)

theorem run_append (s : σ) (as bs : List α) : M.run s (as ++ bs) = (M.run s as).bind (fun t => M.run t bs) := by
  induction as generalizing s with
  | nil => rfl
  | cons a as ih => simp only [List.cons_append, run, ih, Option.bind_assoc]

/-- The states reached by runs whose steps all meet `ok`. -/
inductive Reach (ok : σ → α → Prop) : σ → Prop where
  | start {s : σ} : M.init s → Reach ok s
  | next {s t : σ} {a : α} :
      Reach ok s → ok s a → M.step s a = some t → Reach ok t

/-- The states reached by any run. -/
def Reachable (s : σ) : Prop :=
  M.Reach (fun _ _ => True) s

variable {M}

/-- What holds initially and is preserved by every step that meets `ok`
holds in every state such a run reaches. -/
theorem Reach.invariant {ok : σ → α → Prop} {P : σ → Prop}
    (hinit : ∀ s, M.init s → P s)
    (hstep : ∀ s a t, P s → ok s a → M.step s a = some t → P t)
    {s : σ} (h : M.Reach ok s) : P s := by
  induction h with
  | start hs => exact hinit _ hs
  | next _ hok hst ih => exact hstep _ _ _ ih hok hst

/-- A weaker condition on the steps reaches more states. -/
theorem Reach.mono {ok ok' : σ → α → Prop} (hle : ∀ s a, ok s a → ok' s a)
    {s : σ} (h : M.Reach ok s) : M.Reach ok' s := by
  induction h with
  | start hs => exact .start hs
  | next _ hok hst ih => exact .next ih (hle _ _ hok) hst

/-- A conditioned run is a run. -/
theorem Reach.reachable {ok : σ → α → Prop} {s : σ} (h : M.Reach ok s) :
    M.Reachable s :=
  h.mono (fun _ _ _ => trivial)

/-- `okRun ok s as` holds when every step of the run `as` from `s` meets
`ok`.  On a decidable condition it can be evaluated along the run. -/
def okRun (M : Machine σ α) (ok : σ → α → Prop) (s : σ) : List α → Prop
  | [] => True
  | a :: as => ok s a ∧ ∀ t, M.step s a = some t → okRun M ok t as

/-- The condition along a run is decided by running it. -/
instance decidableOkRun (M : Machine σ α) (ok : σ → α → Prop) [∀ s a, Decidable (ok s a)] :
    ∀ (s : σ) (as : List α), Decidable (M.okRun ok s as)
  | _, [] => isTrue trivial
  | s, a :: as =>
    match h : M.step s a with
    | none => decidable_of_iff (ok s a) (by simp [okRun, h])
    | some t =>
      have := decidableOkRun M ok t as
      decidable_of_iff (ok s a ∧ M.okRun ok t as) (by simp [okRun, h])

theorem Reach.run {ok : σ → α → Prop} {as : List α} {s t : σ}
    (hs : M.Reach ok s) (hok : M.okRun ok s as) (hrun : M.run s as = some t) :
    M.Reach ok t := by
  induction as generalizing s with
  | nil =>
    simp only [Machine.run, Option.some.injEq] at hrun
    exact hrun ▸ hs
  | cons a as ih =>
    simp only [Machine.run, Option.bind_eq_some_iff] at hrun
    obtain ⟨u, hu, hrest⟩ := hrun
    exact ih (.next hs hok.1 hu) (hok.2 u hu) hrest

theorem reachable_of_run {as : List α} {s t : σ} (hs : M.init s)
    (hrun : M.run s as = some t) : M.Reachable t := by
  refine Reach.run (.start hs) ?_ hrun
  clear hrun hs
  induction as generalizing s with
  | nil => trivial
  | cons a as ih => exact ⟨trivial, fun u _ => ih⟩

/-- A property holds in every state along a run exactly when every step meets
`ok`.  The invariant `I` carries the property, a step that meets `ok` keeps `I`,
and a step that does not breaks the property. -/
theorem always_iff_okRun {ok : σ → α → Prop} {I P : σ → Prop} (hI : ∀ s, I s → P s)
    (hkeeps : ∀ s a t, I s → ok s a → M.step s a = some t → I t)
    (hbreaks : ∀ s a t, I s → M.step s a = some t → P t → ok s a)
    {as : List α} {s t : σ} (hs : I s) (hrun : M.run s as = some t) :
    (∀ k u, M.run s (as.take k) = some u → P u) ↔ M.okRun ok s as := by
  induction as generalizing s with
  | nil =>
    refine ⟨fun _ => trivial, fun _ k u hu => ?_⟩
    rw [List.take_nil] at hu
    exact Option.some.inj hu ▸ hI s hs
  | cons a as ih =>
    simp only [Machine.run, Option.bind_eq_some_iff] at hrun
    obtain ⟨s', hs', hrest⟩ := hrun
    constructor
    · intro halways
      have hok : ok s a := by
        refine hbreaks s a s' hs hs' (halways 1 s' ?_)
        simp only [List.take_succ_cons, List.take_zero, Machine.run, hs', Option.bind_some]
      refine ⟨hok, fun u hu => ?_⟩
      obtain rfl := Option.some.inj (hs'.symm.trans hu)
      refine (ih (hkeeps s a s' hs hok hs') hrest).mp (fun k v hv => halways (k + 1) v ?_)
      simpa only [List.take_succ_cons, Machine.run, hs', Option.bind_some] using hv
    · rintro ⟨hok, hokrest⟩ k u hu
      cases k with
      | zero =>
        rw [List.take_zero] at hu
        exact Option.some.inj hu ▸ hI s hs
      | succ k =>
        simp only [List.take_succ_cons, Machine.run, hs', Option.bind_some] at hu
        exact (ih (hkeeps s a s' hs hok hs') hrest).mpr (hokrest s' hs') k u hu

/-- Every step along a run is lawful exactly when every step meets `ok`.  The
invariant `I` is what makes a step that meets `ok` lawful. -/
theorem steps_iff_okRun {ok : σ → α → Prop} {I : σ → Prop} {Q : σ → α → σ → Prop}
    (hkeeps : ∀ s a t, I s → ok s a → M.step s a = some t → I t)
    (hlawful : ∀ s a t, I s → ok s a → M.step s a = some t → Q s a t)
    (hbreaks : ∀ s a t, I s → M.step s a = some t → Q s a t → ok s a)
    {as : List α} {s t : σ} (hs : I s) (hrun : M.run s as = some t) :
    (∀ k u a v, M.run s (as.take k) = some u → as[k]? = some a → M.step u a = some v → Q u a v) ↔
      M.okRun ok s as := by
  induction as generalizing s with
  | nil => exact ⟨fun _ => trivial, fun _ k u a v _ ha => absurd ha (by simp)⟩
  | cons a as ih =>
    simp only [Machine.run, Option.bind_eq_some_iff] at hrun
    obtain ⟨s', hs', hrest⟩ := hrun
    constructor
    · intro hsteps
      have hok : ok s a := hbreaks s a s' hs hs' (hsteps 0 s a s' rfl rfl hs')
      refine ⟨hok, fun u hu => ?_⟩
      obtain rfl := Option.some.inj (hs'.symm.trans hu)
      refine (ih (hkeeps s a s' hs hok hs') hrest).mp (fun k u b v hu hb hv => hsteps (k + 1) u b v ?_ ?_ hv)
      · simpa only [List.take_succ_cons, Machine.run, hs', Option.bind_some] using hu
      · simpa only [List.getElem?_cons_succ] using hb
    · rintro ⟨hok, hokrest⟩ k u b v hu hb hv
      cases k with
      | zero =>
        obtain rfl := Option.some.inj hu
        obtain rfl := Option.some.inj hb
        exact hlawful s a v hs hok hv
      | succ k =>
        simp only [List.take_succ_cons, Machine.run, hs', Option.bind_some] at hu
        exact (ih (hkeeps s a s' hs hok hs') hrest).mpr (hokrest s' hs') k u b v hu
          (by simpa only [List.getElem?_cons_succ] using hb) hv

/-- A property of the last state says that every step met `ok`, when no step restores it
and exactly the steps that meet `ok` keep it. -/
theorem ends_iff_okRun {ok : σ → α → Prop} {I P : σ → Prop}
    (hkeeps : ∀ s a t, I s → M.step s a = some t → I t)
    (hends : ∀ s a t, I s → M.step s a = some t → (P t ↔ P s ∧ ok s a))
    {as : List α} {s t : σ} (hs : I s) (hrun : M.run s as = some t) : I t ∧ (P t ↔ P s ∧ M.okRun ok s as) := by
  induction as generalizing s with
  | nil =>
    obtain rfl := Option.some.inj hrun
    exact ⟨hs, by simp [okRun]⟩
  | cons a as ih =>
    simp only [Machine.run, Option.bind_eq_some_iff] at hrun
    obtain ⟨u, hu, hrest⟩ := hrun
    obtain ⟨hIt, hPt⟩ := ih (hkeeps s a u hs hu) hrest
    refine ⟨hIt, ?_⟩
    rw [hPt, hends s a u hs hu, and_assoc]
    refine and_congr_right (fun _ => and_congr_right (fun _ => ⟨fun hok v hv => ?_, fun hok => hok u hu⟩))
    obtain rfl := Option.some.inj (hu.symm.trans hv)
    exact hok

/-! ## Trails

A property of what has happened needs a record of it.  `withTrail shows` keeps
one next to the state, and no step depends on it. -/

section trail

variable {ω : Type*}

/-- The machine that also lists what its steps show, in order: `shows s a` is what is
noted of the action `a` taken from `s`. -/
def withTrail (M : Machine σ α) (shows : σ → α → List ω) : Machine (σ × List ω) α where
  init T := M.init T.1 ∧ T.2 = []
  step T a := (M.step T.1 a).map (fun s => (s, T.2 ++ shows T.1 a))

variable {shows : σ → α → List ω} {T T' : σ × List ω}

theorem withTrail_step {a : α} :
    (M.withTrail shows).step T a = some T' ↔ M.step T.1 a = some T'.1 ∧ T'.2 = T.2 ++ shows T.1 a := by
  simp only [withTrail, Option.map_eq_some_iff]
  constructor
  · rintro ⟨s, hs, rfl⟩
    exact ⟨hs, rfl⟩
  · rintro ⟨hs, htrail⟩
    exact ⟨T'.1, hs, by rw [← htrail]⟩

end trail

end Machine
