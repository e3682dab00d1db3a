import MuseAgentSocial.Transports.Delivery

/-!
# The pace of the pushes

`_check_push_rate` reads `transport_push_log`, prunes it, and puts a flush off that comes
less than `PUSH_SOFT_INTERVAL_SECONDS` after the last push.  `pacing` is the side of a
relationship under a clock that does not go back, with the times of all the pushes that it
has logged; `InPace` is what every step keeps.

* `checkPushRate_spec` is the check, on a log with pushes that are far enough apart.
* `pushes_spaced` says that they are, in every run, and that the hard ceiling is never met.
-/

namespace MuseAgentSocial.Transports

/-- A side with its clock and the times of the pushes that it has logged. -/
structure Paced where
  world : World
  clock : Nat
  pushed : List Nat

/-- The time that a step reads. -/
def RelayAction.time : RelayAction → Option Nat
  | .flush now | .log now => some now
  | _ => none

/-- The push that a step logs. -/
def RelayAction.logged : RelayAction → List Nat
  | .log now => [now]
  | _ => []

/-- One step under a clock that does not go back. -/
def Paced.next (rid : RelationshipId) (s : Paced) (a : RelayAction) : Option Paced :=
  let now := a.time.getD s.clock
  if s.clock ≤ now then (s.world.next rid a).map (fun w => ⟨w, now, s.pushed ++ a.logged⟩) else none

/-- The queue of a relationship, with a clock. -/
def pacing (rid : RelationshipId) : Machine Paced RelayAction where
  init s := (relaying rid).init s.world ∧ s.pushed = []
  step := Paced.next rid

/-- Any push comes at least the soft interval after those before it. -/
abbrev Spaced (pushed : List Nat) : Prop :=
  pushed.Pairwise (fun earlier later => earlier + PUSH_SOFT_INTERVAL_SECONDS ≤ later)

/-- The log has the recent pushes, and no flush is under way that one of them puts off. -/
structure InPace (s : Paced) : Prop where
  spaced : Spaced s.pushed
  past : ∀ t ∈ s.pushed, t ≤ s.clock
  log : s.world.transport_push_log.Sublist s.pushed
  recent : ∀ t ∈ s.pushed, t ∉ s.world.transport_push_log → t + PUSH_SOFT_INTERVAL_SECONDS ≤ s.clock
  due : s.world.flush.isSome = true → ∀ t ∈ s.pushed, t + PUSH_SOFT_INTERVAL_SECONDS ≤ s.clock

section steps

variable {rid : RelationshipId} {w w' : World} {s s' : Paced} {a : RelayAction}

/-- A step without a clock leaves the log alone, and starts no flush. -/
theorem next_frame (hstep : w.next rid a = some w') (htime : a.time = none) :
    w'.transport_push_log = w.transport_push_log ∧ (w'.flush.isSome = true → w.flush.isSome = true) := by
  cases World.step_of_next hstep with
  | flush => cases htime
  | log => cases htime
  | queue hq =>
    unfold queueMutation at hq
    split_ifs at hq
    cases hq
    exact ⟨rfl, id⟩
  | peer => exact ⟨rfl, id⟩
  | fetch hflush => exact ⟨rfl, fun _ => by rw [hflush]; rfl⟩
  | replay hflush =>
    refine ⟨?_, fun _ => by rw [hflush]; rfl⟩
    unfold World.replay
    dsimp only
    split
    · rfl
    · split
      · rfl
      · split_ifs <;> rfl
  | @push _ _ _ _ _ outcome hflush =>
    refine ⟨?_, fun _ => by rw [hflush]; rfl⟩
    unfold World.push
    dsimp only
    cases outcome <;> dsimp only <;> split_ifs <;> rfl
  | marked hflush => exact ⟨rfl, fun _ => by rw [hflush]; rfl⟩
  | noop hflush => exact ⟨rfl, fun _ => by rw [hflush]; rfl⟩
  | fail => exact ⟨rfl, fun h => by cases h⟩
  | crash => exact ⟨rfl, fun h => by cases h⟩

/-- Three pushes would take two intervals. -/
theorem length_of_spaced {recent : List Nat} {now : Nat} (hwindow : ∀ t ∈ recent, t ≤ now ∧ now ≤ t + 60)
    (hspaced : Spaced recent) :
    recent.length ≤ 2 := by
  match recent with
  | [] => simp
  | [_] => simp
  | [_, _] => simp
  | t₁ :: t₂ :: t₃ :: rest =>
    have h₁₂ := (List.pairwise_cons.mp hspaced).1 t₂ (by simp)
    have h₂₃ := (List.pairwise_cons.mp (List.pairwise_cons.mp hspaced).2).1 t₃ (by simp)
    have h₁ := hwindow t₁ (by simp)
    have h₃ := hwindow t₃ (by simp)
    simp only [PUSH_SOFT_INTERVAL_SECONDS] at h₁₂ h₂₃
    omega

/-- The check passes, and puts a flush off after a push within the interval. -/
theorem checkPushRate_spec {log : List Nat} {now : Nat} (hpast : ∀ t ∈ log, t ≤ now)
    (hspaced : Spaced log) :
    ∃ deferred, (checkPushRate log now).2 = .ok deferred ∧
      (deferred = true ↔ ∃ t ∈ log, now < t + PUSH_SOFT_INTERVAL_SECONDS) := by
  unfold checkPushRate
  dsimp only
  set recent := log.filter (fun pushed_at => now ≤ pushed_at + 60) with hrecent
  have hmem : ∀ t, t ∈ recent ↔ t ∈ log ∧ now ≤ t + 60 := by simp [hrecent]
  have hshort : recent.length ≤ 2 :=
    length_of_spaced (fun t ht => ⟨hpast t ((hmem t).mp ht).1, ((hmem t).mp ht).2⟩) (hspaced.filter _)
  refine ⟨_, if_neg (by unfold PUSH_HARD_CEILING_PER_MINUTE; omega), ?_⟩
  cases hmax : recent.max? with
  | none =>
    have hempty : recent = [] := List.max?_eq_none_iff.mp hmax
    simp only [Option.any_none, Bool.false_eq_true, false_iff, not_exists, not_and]
    intro t ht hlate
    have : t ∈ recent := (hmem t).mpr ⟨ht, by unfold PUSH_SOFT_INTERVAL_SECONDS at hlate; omega⟩
    simp [hempty] at this
  | some last =>
    obtain ⟨hlast, hle⟩ := List.max?_eq_some_iff.mp hmax
    simp only [Option.any_some, decide_eq_true_eq]
    constructor
    · intro hlate
      exact ⟨last, ((hmem last).mp hlast).1, hlate⟩
    · intro hlate
      obtain ⟨t, ht, hlate⟩ := hlate
      have := hle t ((hmem t).mpr ⟨ht, by unfold PUSH_SOFT_INTERVAL_SECONDS at hlate; omega⟩)
      omega

theorem begin_spec {now : Nat} (hpast : ∀ t ∈ w.transport_push_log, t ≤ now)
    (hspaced : Spaced w.transport_push_log) :
    (w.begin rid now).transport_push_log.Sublist w.transport_push_log ∧
      (∀ t ∈ w.transport_push_log, t ∉ (w.begin rid now).transport_push_log → t + PUSH_SOFT_INTERVAL_SECONDS ≤ now) ∧
      ((w.begin rid now).flush.isSome = true → ∀ t ∈ w.transport_push_log, t + PUSH_SOFT_INTERVAL_SECONDS ≤ now) := by
  obtain ⟨deferred, hrate, hiff⟩ := checkPushRate_spec hpast hspaced
  have hpruned : (checkPushRate w.transport_push_log now).1 =
    w.transport_push_log.filter (fun pushed_at => now ≤ pushed_at + 60) := rfl
  have hold : ∀ t ∈ w.transport_push_log, t ∉ (checkPushRate w.transport_push_log now).1 →
      t + PUSH_SOFT_INTERVAL_SECONDS ≤ now := by
    intro t ht hnot
    rw [hpruned, List.mem_filter] at hnot
    simp only [ht, true_and, decide_eq_true_eq] at hnot
    unfold PUSH_SOFT_INTERVAL_SECONDS
    omega
  unfold World.begin
  dsimp only
  split_ifs with hqueue
  · exact ⟨List.Sublist.refl _, fun t ht hnot => absurd ht hnot, fun h => by cases h⟩
  · rw [hrate]
    cases deferred with
    | true => exact ⟨hpruned ▸ List.filter_sublist, hold, fun h => by cases h⟩
    | false =>
      refine ⟨hpruned ▸ List.filter_sublist, hold, fun _ t ht => ?_⟩
      by_contra hlate
      exact Bool.false_ne_true (hiff.mpr ⟨t, ht, by omega⟩)

/-- Every step keeps the pace. -/
theorem inPace_next (h : InPace s) (hstep : s.next rid a = some s') : InPace s' := by
  unfold Paced.next at hstep
  dsimp only at hstep
  split_ifs at hstep with hclock
  obtain ⟨w', hworld, rfl⟩ := Option.map_eq_some_iff.mp hstep
  have hwait : ∀ t, t + PUSH_SOFT_INTERVAL_SECONDS ≤ s.clock → t + PUSH_SOFT_INTERVAL_SECONDS ≤ a.time.getD s.clock :=
    fun t ht => Nat.le_trans ht hclock
  have hpast : ∀ t ∈ s.pushed, t ≤ a.time.getD s.clock := fun t ht => Nat.le_trans (h.past t ht) hclock
  cases htime : a.time with
  | none =>
    obtain ⟨hlog, hflush⟩ := next_frame hworld htime
    have hlogged : a.logged = [] := by cases a <;> first | rfl | cases htime
    simp only [hlogged, List.append_nil, Option.getD_none]
    exact ⟨h.spaced, h.past, hlog ▸ h.log, fun t ht hnot => h.recent t ht (hlog ▸ hnot), fun hs => h.due (hflush hs)⟩
  | some now =>
    rw [htime] at hwait hpast
    cases a with
    | flush now' =>
      cases htime
      cases World.step_of_next hworld
      have hsub := h.log
      obtain ⟨hkept, hold, hdue⟩ := begin_spec (fun t ht => hpast t (hsub.subset ht)) (h.spaced.sublist hsub)
      have hrecent : ∀ t ∈ s.pushed, t ∈ s.world.transport_push_log ∨ t + PUSH_SOFT_INTERVAL_SECONDS ≤ now := by
        intro t ht
        by_cases hmem : t ∈ s.world.transport_push_log
        · exact Or.inl hmem
        · exact Or.inr (hwait t (h.recent t ht hmem))
      rw [show s.pushed ++ RelayAction.logged (.flush now) = s.pushed from List.append_nil _]
      refine ⟨h.spaced, hpast, hkept.trans hsub, ?_, ?_⟩
      · intro t ht hnot
        exact (hrecent t ht).elim (fun hmem => hold t hmem hnot) id
      · intro hs t ht
        exact (hrecent t ht).elim (fun hmem => hdue hs t hmem) id
    | log now' =>
      cases htime
      cases World.step_of_next hworld with | log hflush => ?_
      have hdue : ∀ t ∈ s.pushed, t + PUSH_SOFT_INTERVAL_SECONDS ≤ now := fun t ht => hwait t (h.due (by rw [hflush]; rfl) t ht)
      refine ⟨?_, ?_, h.log.append (List.Sublist.refl _), ?_, fun hs => by cases hs⟩
      · exact List.pairwise_append.mpr ⟨h.spaced, List.pairwise_singleton _ _, fun t ht t' ht' => by
          rw [List.mem_singleton.mp ht']
          exact hdue t ht⟩
      · intro t ht
        cases List.mem_append.mp ht with
        | inl hold => exact hpast t hold
        | inr hnew => exact Nat.le_of_eq (List.mem_singleton.mp hnew)
      · intro t ht hnot
        cases List.mem_append.mp ht with
        | inl hold => exact hdue t hold
        | inr hnew => exact absurd (List.mem_append_right _ hnew) hnot
    | _ => cases htime

end steps

section runs

variable {rid : RelationshipId} {s : Paced}

theorem inPace_of_reachable (h : (pacing rid).Reachable s) : InPace s := by
  refine h.invariant (P := InPace) (fun s hs => ?_) (fun _ _ _ hs _ hstep => inPace_next hs hstep)
  obtain ⟨⟨relay, hworld⟩, hpushed⟩ := hs
  exact ⟨by simp [hpushed], by simp [hpushed], by simp [hpushed, hworld], by simp [hpushed], by simp [hpushed]⟩

/-- In every run, whatever fails, any two logged pushes are at least the soft interval apart. At
any later time the check does not raise: it never meets the ceiling, and puts a flush off
exactly while a logged push is more recent than the interval. -/
theorem pushes_spaced (h : (pacing rid).Reachable s) {now : Nat} (hnow : s.clock ≤ now) :
    Spaced s.pushed ∧
      ∃ deferred, (checkPushRate s.world.transport_push_log now).2 = .ok deferred ∧
        (deferred = true ↔ ∃ t ∈ s.pushed, now < t + PUSH_SOFT_INTERVAL_SECONDS) := by
  have hpace := inPace_of_reachable h
  have hpast : ∀ t ∈ s.world.transport_push_log, t ≤ now :=
    fun t ht => Nat.le_trans (hpace.past t (hpace.log.subset ht)) hnow
  obtain ⟨deferred, hrate, hiff⟩ := checkPushRate_spec hpast (hpace.spaced.sublist hpace.log)
  refine ⟨hpace.spaced, deferred, hrate, hiff.trans ?_⟩
  constructor
  · intro hlate
    obtain ⟨t, ht, hlate⟩ := hlate
    exact ⟨t, hpace.log.subset ht, hlate⟩
  · intro hlate
    obtain ⟨t, ht, hlate⟩ := hlate
    by_cases hmem : t ∈ s.world.transport_push_log
    · exact ⟨t, hmem, hlate⟩
    · have := hpace.recent t ht hmem
      omega

/-- A second push, after the interval. -/
def pacedRun : List RelayAction := deferredRun ++ [.flush 10, .flush 60, .fetch, .replay 0 {}, .push .answered, .mark, .log 61]

theorem pushes_spaced_pacedRun :
    ∃ s, (pacing "rel1").run ⟨{}, 0, []⟩ pacedRun = some s ∧ s.pushed = [0, 61] ∧
      Spaced s.pushed := by
  obtain ⟨s, hrun, hpushed⟩ : ∃ s, (pacing "rel1").run ⟨{}, 0, []⟩ pacedRun = some s ∧ s.pushed = [0, 61] := by
    decide +kernel
  have hreach : (pacing "rel1").Reachable s := Machine.reachable_of_run ⟨⟨[], rfl⟩, rfl⟩ hrun
  exact ⟨s, hrun, hpushed, (pushes_spaced hreach (Nat.le_refl _)).1⟩

end runs

end MuseAgentSocial.Transports
