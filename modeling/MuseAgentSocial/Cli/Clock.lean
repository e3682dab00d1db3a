import MuseAgentSocial.Policy.Limits
import MuseAgentSocial.Policy.Timestamps

/-!
# The clock

A model of `utcnow` of `store/db.py` and of `add_seconds` of `policy/limits.py`.  A reading
of the clock is a number of microseconds since 1970, and `utcnow` is its text in whole
seconds.
-/

namespace MuseAgentSocial.Cli

open Json Calendar Policy

/-- The instant of 1970-01-01T00:00:00Z. -/
def unixEpoch : Nat := 62135683200

/-- The whole seconds of a reading. -/
def wholeSeconds (clock : Nat) : Nat := unixEpoch + clock / 1000000

/-- `utcnow()`; `none` is a reading beyond the calendar. -/
def utcnow (pads : Bool) (clock : Nat) : Option Text :=
  (DateTime.ofInstant (wholeSeconds clock)).map (formatUtc pads)

/-- The moment some seconds later; `none` is an `OverflowError`. -/
def shift (d : DateTime) (seconds : Int) : Option DateTime :=
  if 0 ≤ (d.instant : Int) + seconds then DateTime.ofInstant ((d.instant : Int) + seconds).toNat else none

/-- `add_seconds` -/
def addSeconds (pads : Bool) (text : Text) (seconds : Int) : Option Text :=
  (parseCanonicalUtc text).bind (fun d => (shift d seconds).map (formatUtc pads))

/-- The seven days of the acceptance window. -/
def windowSeconds : Nat := ACCEPT_WINDOW_DAYS * 24 * 3600

/-- From 1969 on no year needs padding. -/
theorem formatUtc_eq_render {pads : Bool} {d : DateTime} (h : unixEpoch ≤ d.instant + windowSeconds) :
    formatUtc pads d = render d := by
  rw [formatUtc_eq_render_iff]
  refine Or.inr ?_
  by_contra hyear
  have hlt : d.instant < (⟨1000, 1, 1, 0, 0, 0, by decide⟩ : DateTime).instant := by
    rw [DateTime.instant_lt_iff, DateTime.fields, DateTime.fields, List.cons_lt_cons_iff]
    exact Or.inl (by dsimp only; omega)
  have hfirst : (⟨1000, 1, 1, 0, 0, 0, by decide⟩ : DateTime).instant = 31525459200 := by decide
  rw [hfirst] at hlt
  have hepoch : unixEpoch = 62135683200 := rfl
  have hwindow : windowSeconds = 604800 := rfl
  omega

theorem utcnow_eq_some_iff {pads : Bool} {clock : Nat} {now : Text} :
    utcnow pads clock = some now ↔ ∃ d : DateTime, d.instant = wholeSeconds clock ∧ now = render d := by
  unfold utcnow
  rw [Option.map_eq_some_iff]
  refine exists_congr (fun d => ?_)
  rw [DateTime.ofInstant_eq_some_iff]
  refine and_congr_right (fun hd => ?_)
  rw [formatUtc_eq_render (by rw [hd, wholeSeconds]; omega)]
  exact eq_comm

theorem shift_eq_some_iff {d e : DateTime} {k : Int} : shift d k = some e ↔ (e.instant : Int) = d.instant + k := by
  unfold shift
  split_ifs with hpos
  · rw [DateTime.ofInstant_eq_some_iff]
    omega
  · simp only [false_iff]
    omega

theorem addSeconds_render {pads : Bool} {d : DateTime} {k : Int} {out : Text}
    (hk : (unixEpoch : Int) ≤ d.instant + k + windowSeconds) :
    addSeconds pads (render d) k = some out ↔ ∃ e : DateTime, (e.instant : Int) = d.instant + k ∧ out = render e := by
  unfold addSeconds parseCanonicalUtc
  rw [parseUtc_render, Option.bind_some, Option.map_eq_some_iff]
  refine exists_congr (fun e => ?_)
  rw [shift_eq_some_iff]
  refine and_congr_right (fun he => ?_)
  rw [formatUtc_eq_render (by omega)]
  exact eq_comm

end MuseAgentSocial.Cli
