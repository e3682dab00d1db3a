import MuseAgentSocial.Cli.Clock

/-!
# Retention of the replay guard

A model of the window check and of the replay insert of `_receive_object_inner` in
`cli.py`, and of `StoreReplayGuard` in `compatibility/v01.py`.

* The times are compared as strings, as the source compares them.
* `expiresAt` reads the clock a second time, in `_ts_delta`.  A float holds a time of day
  in microseconds exactly enough for the truncation.
* `step` is what runs on the table while the row is in it: pruning, a record of the v0.1
  adapter, or the row of another event.
* `replay_guard_retained_iff` says when the row of an accepted event outlives its window.
-/

namespace MuseAgentSocial.Cli

open Json Calendar Policy

/-! ## The receive path -/

/-- `_ts_delta` at a reading of the clock: `int(target + delta_seconds - now)`. -/
def tsDelta (ts : Text) (deltaSeconds : Int) (clock : Nat) : Option Int :=
  (parseTimestamp ts).map
    (fun d => (((d.instant : Int) - unixEpoch + deltaSeconds) * 1000000 - clock).tdiv 1000000)

/-- The window check admits `created` at the time `now`. -/
def windowAdmits (pads : Bool) (now created : Text) : Bool :=
  match addSeconds pads now FUTURE_TOLERANCE_SECONDS with
  | none => false
  | some future =>
    if strLt future created then false
    else
      match addSeconds pads now (-windowSeconds) with
      | none => false
      | some past => !decide (strLt created past)

/-- `expires_at` of the row, with the second reading of the clock. -/
def expiresAt (pads : Bool) (now created : Text) (clock : Nat) : Option Text :=
  (tsDelta created (7 * 24 * 3600 + 3600) clock).bind
    (fun delta => addSeconds pads now (max delta (7 * 24 * 3600)))

/-! ## The table -/

/-- A row of `replay_guard`. -/
structure GuardRow where
  replay_nonce : Text
  event_id : Option Text := none
  envelope_digest : Option Text := none
  expires_at : Text
  deriving DecidableEq

/-- What runs on the table. -/
inductive GuardOp where
  /-- `StoreReplayGuard.prune(utcnow())` -/
  | prune (clock : Nat)
  /-- `StoreReplayGuard.record` -/
  | record (nonce expiresAt : Text)
  /-- The insert of a receive commit; a row of this nonce makes it fail. -/
  | insert (row : GuardRow)

/-- `INSERT`, which leaves the table as it is when the nonce is there. -/
def insertRow (rows : List GuardRow) (row : GuardRow) : List GuardRow :=
  if row.replay_nonce ∈ rows.map GuardRow.replay_nonce then rows else rows ++ [row]

/-- One operation on the table. -/
def step (pads : Bool) (rows : List GuardRow) : GuardOp → List GuardRow
  | .prune clock =>
    match utcnow pads clock with
    | none => rows
    | some now => rows.filter (fun r => !decide (strLt r.expires_at now))
  | .record nonce expires => insertRow rows { replay_nonce := nonce, expires_at := expires }
  | .insert row => insertRow rows row

/-- The table after a run. -/
def runOps (pads : Bool) (ops : List GuardOp) (rows : List GuardRow) : List GuardRow := ops.foldl (step pads) rows

/-! ## The property -/

/-- An event with this `created_at` is accepted at the first reading of the clock; its row
expires at `expires`. -/
structure Accepted (pads : Bool) (created : Text) (clock clock' : Nat) (expires : Text) : Prop where
  admitted : ∃ now, utcnow pads clock = some now ∧ windowAdmits pads now created = true ∧
    expiresAt pads now created clock' = some expires

/-- The row is present at each later reading at which the window check still admits the
event, whatever ran on the table and whatever it prunes up to then. -/
def Retained (pads : Bool) (created : Text) (clock : Nat) (expires : Text) : Prop :=
  ∀ later now, clock ≤ later → utcnow pads later = some now → windowAdmits pads now created = true →
    ∀ (rows : List GuardRow) (row : GuardRow) (ops : List GuardOp), row ∈ rows → row.expires_at = expires →
      (∀ p, GuardOp.prune p ∈ ops → clock ≤ p ∧ p ≤ later) → row ∈ runOps pads ops rows

/-- The condition: for each moment whose canonical text is not after `created`, and at the
end of whose window the calendar still goes on, either the event was accepted at or after
it, or the clock was read again within an hour, less the seconds that the moment is after
the instant of `created`. -/
def ReadAgainInTime (created : Text) (clock clock' : Nat) : Prop :=
  ∀ c d : DateTime, parseTimestamp created = some c → ¬strLt created (render d) →
    (DateTime.ofInstant (d.instant + windowSeconds + FUTURE_TOLERANCE_SECONDS)).isSome = true →
    d.instant ≤ wholeSeconds clock ∨
      (clock' : Int) ≤ ((clock / 1000000 : Nat) + 3600 + (c.instant : Int) - d.instant) * 1000000

/-! ## Texts of the clock -/

theorem strLt_trans_not {a b c : Text} (hab : ¬strLt b a) (hac : strLt b c) : strLt a c :=
  lt_of_le_of_lt (not_lt.mp hab) hac

/-- The window at a time of the clock: `created` is not after the end, nor before the
beginning. -/
theorem windowAdmits_render {pads : Bool} {d : DateTime} {created : Text} (hd : unixEpoch ≤ d.instant) :
    windowAdmits pads (render d) created = true ↔
      ∃ f p : DateTime, f.instant = d.instant + FUTURE_TOLERANCE_SECONDS ∧ p.instant + windowSeconds = d.instant ∧
        ¬strLt (render f) created ∧ ¬strLt created (render p) := by
  unfold windowAdmits
  constructor
  · intro h
    cases hf : addSeconds pads (render d) FUTURE_TOLERANCE_SECONDS with
    | none => simp [hf] at h
    | some future =>
      simp only [hf] at h
      split_ifs at h with hfuture
      cases hp : addSeconds pads (render d) (-windowSeconds) with
      | none => simp [hp] at h
      | some past =>
        obtain ⟨f, hfi, rfl⟩ := (addSeconds_render (by omega)).mp hf
        obtain ⟨p, hpi, rfl⟩ := (addSeconds_render (by omega)).mp hp
        simp only [hp, Bool.not_eq_true', decide_eq_false_iff_not] at h
        exact ⟨f, p, by omega, by omega, hfuture, h⟩
  · rintro ⟨f, p, hfi, hpi, hfuture, hpast⟩
    have hf : addSeconds pads (render d) FUTURE_TOLERANCE_SECONDS = some (render f) :=
      (addSeconds_render (by omega)).mpr ⟨f, by omega, rfl⟩
    have hp : addSeconds pads (render d) (-windowSeconds) = some (render p) :=
      (addSeconds_render (by omega)).mpr ⟨p, by omega, rfl⟩
    rw [hf, hp]
    simp [hfuture, hpast]

/-! ## Runs on the table -/

theorem mem_insertRow {rows : List GuardRow} {row other : GuardRow} (h : row ∈ rows) : row ∈ insertRow rows other := by
  unfold insertRow
  split_ifs
  · exact h
  · exact List.mem_append_left _ h

theorem mem_runOps {pads : Bool} {ops : List GuardOp} {rows : List GuardRow} {row : GuardRow} {e : DateTime}
    (hrow : row ∈ rows) (hexpires : row.expires_at = render e)
    (hops : ∀ p, GuardOp.prune p ∈ ops → wholeSeconds p ≤ e.instant) : row ∈ runOps pads ops rows := by
  induction ops generalizing rows with
  | nil => exact hrow
  | cons op ops ih =>
    refine ih ?_ (fun p hp => hops p (List.mem_cons_of_mem _ hp))
    cases op with
    | prune p =>
      have hp := hops p List.mem_cons_self
      simp only [step]
      cases hnow : utcnow pads p with
      | none => exact hrow
      | some now =>
        obtain ⟨d, hd, rfl⟩ := utcnow_eq_some_iff.mp hnow
        refine List.mem_filter.mpr ⟨hrow, ?_⟩
        rw [hexpires, Bool.not_eq_true', decide_eq_false_iff_not, render_lt_iff]
        omega
    | record nonce expires => exact mem_insertRow hrow
    | insert other => exact mem_insertRow hrow

/-! ## When the row outlives the window -/

section expiry

variable {pads : Bool} {created : Text} {clock clock' : Nat} {expires : Text}

/-- Truncation reaches a positive number exactly when the fraction does. -/
theorem le_tdiv_iff {a k : Int} (hk : 0 < k) : k ≤ a.tdiv 1000000 ↔ k * 1000000 ≤ a := by
  by_cases ha : 0 ≤ a
  · rw [Int.tdiv_eq_ediv_of_nonneg ha]
    omega
  · have hneg : a.tdiv 1000000 ≤ 0 := Int.tdiv_le_tdiv (by decide) (not_le.mp ha).le
    constructor
    · intro h
      omega
    · intro h
      omega

theorem Accepted.expiry (h : Accepted pads created clock clock' expires) :
    ∃ c e : DateTime, parseTimestamp created = some c ∧ expires = render e ∧
      (e.instant : Int) = wholeSeconds clock +
        max ((((c.instant : Int) - unixEpoch + (7 * 24 * 3600 + 3600)) * 1000000 - clock').tdiv 1000000)
          (7 * 24 * 3600) := by
  obtain ⟨now, hnow, -, hexpires⟩ := h.admitted
  obtain ⟨d, hd, rfl⟩ := utcnow_eq_some_iff.mp hnow
  unfold expiresAt tsDelta at hexpires
  obtain ⟨delta, hdelta, hadd⟩ := Option.bind_eq_some_iff.mp hexpires
  obtain ⟨c, hc, rfl⟩ := Option.map_eq_some_iff.mp hdelta
  have hge : wholeSeconds clock ≥ unixEpoch := Nat.le_add_right _ _
  obtain ⟨e, he, rfl⟩ := (addSeconds_render (by omega)).mp hadd
  exact ⟨c, e, hc, rfl, by rw [he, hd]⟩

/-- An acceptance from the moments it is about: the clock, the ends of the window, the
instant of `created` and the expiry. -/
theorem Accepted.of_moments {n f p c e : DateTime} (hn : n.instant = wholeSeconds clock)
    (hf : f.instant = n.instant + FUTURE_TOLERANCE_SECONDS) (hp : p.instant + windowSeconds = n.instant)
    (hfuture : ¬strLt (render f) created) (hpast : ¬strLt created (render p)) (hc : parseTimestamp created = some c)
    (he : (e.instant : Int) = n.instant +
      max ((((c.instant : Int) - unixEpoch + (7 * 24 * 3600 + 3600)) * 1000000 - clock').tdiv 1000000)
        (7 * 24 * 3600)) : Accepted pads created clock clock' (render e) := by
  have hstart : unixEpoch ≤ n.instant := hn ▸ Nat.le_add_right _ _
  refine ⟨render n, utcnow_eq_some_iff.mpr ⟨n, hn, rfl⟩,
    (windowAdmits_render hstart).mpr ⟨f, p, hf, hp, hfuture, hpast⟩, ?_⟩
  unfold expiresAt tsDelta
  rw [hc, Option.map_some, Option.bind_some]
  exact (addSeconds_render (by omega)).mpr ⟨e, he, rfl⟩

/-- The row of an accepted event outlives the window of the event exactly when the clock is
read again in time. -/
theorem replay_guard_retained_iff (h : Accepted pads created clock clock' expires) :
    Retained pads created clock expires ↔ ReadAgainInTime created clock clock' := by
  obtain ⟨c, e, hc, rfl, he⟩ := h.expiry
  obtain ⟨now, hnow, hadmit, -⟩ := h.admitted
  obtain ⟨n, hn, rfl⟩ := utcnow_eq_some_iff.mp hnow
  have hepoch : ∀ clock, unixEpoch ≤ wholeSeconds clock := fun _ => Nat.le_add_right _ _
  have hwindow : windowSeconds = 7 * 24 * 3600 := rfl
  have hstart : unixEpoch = 62135683200 := rfl
  have hclock : (wholeSeconds clock : Int) = unixEpoch + (clock / 1000000 : Nat) := by
    unfold wholeSeconds
    push_cast
    rfl
  obtain ⟨f, -, hf, -, hfuture, -⟩ := (windowAdmits_render (hn ▸ hepoch clock)).mp hadmit
  constructor
  · intro hretained c' d hc' hd hsome
    obtain rfl : c = c' := Option.some.inj (hc.symm.trans hc')
    by_contra hno
    rw [not_or, not_le, not_le] at hno
    -- The second at which the window of the moment ends.
    obtain ⟨later, hdef⟩ : ∃ later, later = (d.instant + windowSeconds - unixEpoch) * 1000000 := ⟨_, rfl⟩
    have hlater : wholeSeconds later = d.instant + windowSeconds := by
      have := hepoch clock
      unfold wholeSeconds
      omega
    obtain ⟨hfirst, hlast⟩ := isSome_ofInstant_iff.mp hsome
    have hepoch' := hepoch clock
    have hu : (DateTime.ofInstant (d.instant + windowSeconds)).isSome = true :=
      isSome_ofInstant_iff.mpr ⟨by omega, by omega⟩
    obtain ⟨u, hu⟩ := Option.isSome_iff_exists.mp hu
    obtain ⟨g, hg⟩ := Option.isSome_iff_exists.mp hsome
    rw [DateTime.ofInstant_eq_some_iff] at hu hg
    have hnow' : utcnow pads later = some (render u) :=
      utcnow_eq_some_iff.mpr ⟨u, by rw [hu, hlater], rfl⟩
    have hadmit' : windowAdmits pads (render u) created = true := by
      refine (windowAdmits_render (by omega)).mpr ⟨g, d, by omega, by omega, fun hlt => hfuture ?_, hd⟩
      exact strLt_trans_not (by rw [render_lt_iff]; omega) hlt
    have hle : clock ≤ later := by
      have : wholeSeconds clock = unixEpoch + clock / 1000000 := rfl
      omega
    have hmem := hretained _ _ hle hnow' hadmit' [{ replay_nonce := [], expires_at := render e }]
      { replay_nonce := [], expires_at := render e } [.prune later] List.mem_cons_self rfl (fun p hp => by
        rw [GuardOp.prune.inj (List.mem_singleton.mp hp)]
        exact ⟨hle, le_rfl⟩)
    simp only [runOps, List.foldl_cons, List.foldl_nil, step, hnow', List.mem_filter, Bool.not_eq_true',
      decide_eq_false_iff_not, render_lt_iff] at hmem
    have hexpiry := hmem.2
    have hpos : 0 < (d.instant : Int) + 7 * 24 * 3600 - wholeSeconds clock := by omega
    have htrunc := (le_tdiv_iff (a := ((c.instant : Int) - unixEpoch + (7 * 24 * 3600 + 3600)) * 1000000 - clock') hpos).mp
      (by omega)
    omega
  · intro hcondition later now' hle hnow' hadmit' rows row ops hrow hexpires hops
    obtain ⟨u, hu, rfl⟩ := utcnow_eq_some_iff.mp hnow'
    obtain ⟨g, d, hg, hd, -, hpast⟩ := (windowAdmits_render (hu ▸ hepoch later)).mp hadmit'
    have hsome : (DateTime.ofInstant (d.instant + windowSeconds + FUTURE_TOLERANCE_SECONDS)).isSome = true := by
      rw [hd, ← hg, DateTime.ofInstant_instant]
      rfl
    refine mem_runOps hrow hexpires (fun p hp => ?_)
    have hpu : wholeSeconds p ≤ wholeSeconds later := by
      have := (hops p hp).2
      unfold wholeSeconds
      omega
    rcases hcondition c d hc hpast hsome with hin | hin
    · omega
    · by_cases hin' : d.instant ≤ wholeSeconds clock
      · omega
      · have hpos : 0 < (d.instant : Int) + 7 * 24 * 3600 - wholeSeconds clock := by omega
        have htrunc := (le_tdiv_iff
          (a := ((c.instant : Int) - unixEpoch + (7 * 24 * 3600 + 3600)) * 1000000 - clock') hpos).mpr (by omega)
        omega

/-- An event of 19:57, accepted in that second. -/
theorem replay_guard_retained_seven_days :
    Retained true (text "2026-07-24T19:57:00Z") 1784923020000000 (text "2026-07-31T20:57:00Z") ↔
      ReadAgainInTime (text "2026-07-24T19:57:00Z") 1784923020000000 1784923020000000 := by
  have hexpires : render ⟨2026, 7, 31, 20, 57, 0, by decide⟩ = text "2026-07-31T20:57:00Z" := by decide
  rw [← hexpires]
  exact replay_guard_retained_iff (Accepted.of_moments (n := ⟨2026, 7, 24, 19, 57, 0, by decide⟩)
    (f := ⟨2026, 7, 24, 20, 2, 0, by decide⟩) (p := ⟨2026, 7, 17, 19, 57, 0, by decide⟩)
    (c := ⟨2026, 7, 24, 19, 57, 0, by decide⟩) (by decide) (by decide) (by decide) (by decide) (by decide) (by decide)
    (by decide))

/-- With a Devanagari zero for the second digit of the hour the event is of ten o'clock, and
as a string after every other time up to twenty.  It is accepted at 19:57; a week and a
minute later it is still admitted, and the row is pruned. -/
theorem devanagari_hour_pruned :
    ¬∀ (pads : Bool) (created : Text) (clock clock' : Nat) (expires : Text),
      Accepted pads created clock clock' expires → Retained pads created clock expires := by
  intro h
  have haccepted : Accepted true (text "2026-07-24T1०:00:00Z") 1784923020000000 1784923020000000
      (render ⟨2026, 7, 31, 19, 57, 0, by decide⟩) :=
    Accepted.of_moments (n := ⟨2026, 7, 24, 19, 57, 0, by decide⟩) (f := ⟨2026, 7, 24, 20, 2, 0, by decide⟩)
      (p := ⟨2026, 7, 17, 19, 57, 0, by decide⟩) (c := ⟨2026, 7, 24, 10, 0, 0, by decide⟩) (by decide) (by decide)
      (by decide) (by decide) (by decide) (by decide) (by decide)
  have hnow : utcnow true 1785527880000000 = some (render ⟨2026, 7, 31, 19, 58, 0, by decide⟩) :=
    utcnow_eq_some_iff.mpr ⟨_, by decide, rfl⟩
  have hadmits : windowAdmits true (render ⟨2026, 7, 31, 19, 58, 0, by decide⟩) (text "2026-07-24T1०:00:00Z") = true :=
    (windowAdmits_render (by decide)).mpr ⟨⟨2026, 7, 31, 20, 3, 0, by decide⟩, ⟨2026, 7, 24, 19, 58, 0, by decide⟩,
      by decide, by decide, by decide, by decide⟩
  have hmem := h _ _ _ _ _ haccepted 1785527880000000 _ (by decide) hnow hadmits
    [{ replay_nonce := [], expires_at := render ⟨2026, 7, 31, 19, 57, 0, by decide⟩ }] _ [.prune 1785527880000000]
    List.mem_cons_self rfl (fun p hp => by
      rw [GuardOp.prune.inj (List.mem_singleton.mp hp)]
      exact ⟨by decide, le_rfl⟩)
  simp only [runOps, List.foldl_cons, List.foldl_nil, step, hnow, List.mem_filter, Bool.not_eq_true',
    decide_eq_false_iff_not, render_lt_iff] at hmem
  exact hmem.2 (by decide)

end expiry

end MuseAgentSocial.Cli
