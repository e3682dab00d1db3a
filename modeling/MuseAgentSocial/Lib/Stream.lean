import Mathlib.Data.List.Induction

/-!
# Streams to a visitor

A source offers its entries one after another to a visitor.  What it makes of an
entry may depend on what it has handed over before: this is where its limits are.

* `Offer` is what the source makes of one entry.
* `run` is the loop.  It ends when the entries are exhausted, when the source stops,
  when the visitor refuses to go on, or when the source fails.
* `run_append`: a stream over two lists is the stream over the first, and then over
  the second if the first is exhausted.
* `exhausted_or_ends`: a stream that is not exhausted ends at a first entry.
* `run_invariant` and `run_sublist`: what every item that is handed over keeps.
* `recording` is a visitor that keeps what it was handed.
-/

namespace Stream

variable {α δ ρ ε β : Type*}

/-- What a source makes of one entry. -/
inductive Offer (δ ρ ε : Type*) where
  | pass
  | hand (item : δ)
  | stop (reason : ρ)
  | fail (error : ε)

/-- How a stream ends. -/
inductive End (ρ ε : Type*) where
  | exhausted
  | refused
  | stopped (reason : ρ)
  | failed (error : ε)

/-- A stream: how it ends, what the visitor was handed, oldest first, and its state. -/
abbrev Run (δ ρ ε β : Type*) := End ρ ε × List δ × β

/-- The loop of the source over its entries.  The visitor answers `false` to stop. -/
def run (offer : List δ → α → Offer δ ρ ε) (visit : β → δ → β × Bool) :
    List α → List δ → β → Run δ ρ ε β
  | [], handed, acc => (.exhausted, handed, acc)
  | e :: es, handed, acc =>
    match offer handed e with
    | .pass => run offer visit es handed acc
    | .stop reason => (.stopped reason, handed, acc)
    | .fail error => (.failed error, handed, acc)
    | .hand item =>
      let answer := visit acc item
      if answer.2 = true then
        run offer visit es (handed ++ [item]) answer.1
      else
        (.refused, handed ++ [item], answer.1)

variable {offer : List δ → α → Offer δ ρ ε} {visit : β → δ → β × Bool}
variable {es fs : List α} {handed : List δ} {acc : β}

/-- The entries after an exhausted stream continue it. -/
theorem run_append (h : (run offer visit es handed acc).1 = .exhausted) :
    run offer visit (es ++ fs) handed acc =
      run offer visit fs (run offer visit es handed acc).2.1 (run offer visit es handed acc).2.2 := by
  induction es generalizing handed acc with
  | nil => rfl
  | cons e es ih =>
    simp only [List.cons_append, run] at h ⊢
    cases hoffer : offer handed e with
    | pass =>
      simp only [hoffer] at h
      exact ih h
    | stop reason => simp [hoffer] at h
    | fail error => simp [hoffer] at h
    | hand item =>
      simp only [hoffer] at h
      dsimp only
      by_cases hans : (visit acc item).2 = true
      · rw [if_pos hans] at h
        simp only [if_pos hans]
        exact ih h
      · simp [if_neg hans] at h

/-- The entries after a stream that ended early do not matter. -/
theorem run_append_of_ended (h : (run offer visit es handed acc).1 ≠ .exhausted) :
    run offer visit (es ++ fs) handed acc = run offer visit es handed acc := by
  induction es generalizing handed acc with
  | nil => exact absurd rfl h
  | cons e es ih =>
    simp only [List.cons_append, run] at h ⊢
    cases hoffer : offer handed e with
    | pass =>
      simp only [hoffer] at h
      exact ih h
    | stop reason => simp
    | fail error => simp
    | hand item =>
      simp only [hoffer] at h
      dsimp only
      by_cases hans : (visit acc item).2 = true
      · rw [if_pos hans] at h
        simp only [if_pos hans]
        exact ih h
      · simp [if_neg hans]

theorem exhausted_or_ends (offer : List δ → α → Offer δ ρ ε) (visit : β → δ → β × Bool) (es : List α)
    (handed : List δ) (acc : β) :
    (run offer visit es handed acc).1 = .exhausted ∨
      ∃ p e q, es = p ++ e :: q ∧ (run offer visit p handed acc).1 = .exhausted ∧
        run offer visit es handed acc = run offer visit (p ++ [e]) handed acc ∧
        (run offer visit (p ++ [e]) handed acc).1 ≠ .exhausted := by
  induction es using List.reverseRecOn with
  | nil => exact Or.inl rfl
  | append_singleton es e ih =>
    rcases ih with h | ⟨p, f, q, rfl, hp, hrun, hend⟩
    · by_cases hlast : (run offer visit (es ++ [e]) handed acc).1 = .exhausted
      · exact Or.inl hlast
      · exact Or.inr ⟨es, e, [], rfl, h, rfl, hlast⟩
    · refine Or.inr ⟨p, f, q ++ [e], by simp, hp, ?_, hend⟩
      rw [run_append_of_ended (by rw [hrun]; exact hend), hrun]

theorem exhausted_of_append (h : (run offer visit (es ++ fs) handed acc).1 = .exhausted) :
    (run offer visit es handed acc).1 = .exhausted := by
  by_contra hne
  rw [run_append_of_ended hne] at h
  exact hne h

/-- What was handed over before stays. -/
theorem run_prefix : handed <+: (run offer visit es handed acc).2.1 := by
  induction es generalizing handed acc with
  | nil => exact List.prefix_rfl
  | cons e es ih =>
    rw [run]
    cases offer handed e with
    | pass => exact ih
    | stop reason => exact List.prefix_rfl
    | fail error => exact List.prefix_rfl
    | hand item =>
      dsimp only
      split_ifs
      · exact (List.prefix_append _ _).trans ih
      · exact List.prefix_append _ _

/-- What each item keeps holds of all that was handed over. -/
theorem run_invariant {P : List δ → Prop} (h : P handed)
    (hstep : ∀ handed e item, P handed → offer handed e = .hand item → P (handed ++ [item])) :
    P (run offer visit es handed acc).2.1 := by
  induction es generalizing handed acc with
  | nil => exact h
  | cons e es ih =>
    rw [run]
    cases hoffer : offer handed e with
    | pass => exact ih h
    | stop reason => exact h
    | fail error => exact h
    | hand item =>
      have hnext := hstep handed e item h hoffer
      dsimp only
      split_ifs
      · exact ih hnext
      · exact hnext

variable (visit es handed acc) in
/-- A source that hands over each entry under its own key hands over no entry twice. -/
theorem run_sublist {key : δ → α} (hkey : ∀ handed e item, offer handed e = .hand item → key item = e) :
    ∃ l, (run offer visit es handed acc).2.1.map key = handed.map key ++ l ∧ l.Sublist es := by
  induction es generalizing handed acc with
  | nil => exact ⟨[], by simp [run], List.Sublist.refl _⟩
  | cons e es ih =>
    rw [run]
    cases hoffer : offer handed e with
    | pass =>
      obtain ⟨l, hl, hsub⟩ := ih handed acc
      exact ⟨l, hl, hsub.cons e⟩
    | stop reason => exact ⟨[], by simp, List.nil_sublist _⟩
    | fail error => exact ⟨[], by simp, List.nil_sublist _⟩
    | hand item =>
      have hitem := hkey handed e item hoffer
      dsimp only
      split_ifs
      · obtain ⟨l, hl, hsub⟩ := ih (handed ++ [item]) (visit acc item).1
        exact ⟨e :: l, by simp [hl, hitem], hsub.cons_cons e⟩
      · exact ⟨[e], by simp [hitem], by simp⟩

/-! ## Recording visitors -/

/-- A visitor that also keeps what it was handed. -/
def recording (visit : β → δ → β × Bool) (s : β × List δ) (item : δ) : (β × List δ) × Bool :=
  (((visit s.1 item).1, s.2 ++ [item]), (visit s.1 item).2)

variable (visit) in
theorem run_recording : run offer (recording visit) es handed (acc, handed) =
    ((run offer visit es handed acc).1, (run offer visit es handed acc).2.1,
      (run offer visit es handed acc).2.2, (run offer visit es handed acc).2.1) := by
  induction es generalizing handed acc with
  | nil => rfl
  | cons e es ih =>
    simp only [run]
    cases offer handed e with
    | pass => exact ih
    | stop reason => rfl
    | fail error => rfl
    | hand item =>
      have hrec : recording visit (acc, handed) item =
          (((visit acc item).1, handed ++ [item]), (visit acc item).2) := rfl
      dsimp only
      rw [hrec]
      by_cases hans : (visit acc item).2 = true
      · simp only [if_pos hans]
        exact ih
      · simp only [if_neg hans]

end Stream
