import MuseAgentSocial.Cli.TwoParty
import MuseAgentSocial.Crypto.Ring

/-!
# The keys of one rotation

One party rotates from the key `old` of epoch `own` to a fresh key of the
epoch `next`, and the other party acknowledges.  The past of the two stores
is arbitrary, except that no rotation of it is in flight.

* `RotatingKeys` is what the rotating side keeps: the prior key until the
  commit is applied, the new key from `begin_rotation` on, and the epoch of
  the relationship in step with the phase of the rotation.
* `AckingKeys` is what the acking side keeps: the prior key as its current
  peer key until `mark_committed`, and the new key beside it.

Each of the two is kept by every method that a step of that party can run.
The rotating side never gets back before `acknowledged` (`Acked`).
-/

namespace MuseAgentSocial.Cli

open Model Crypto Policy RotationManager Keys

/-- The data of one rotation. -/
structure Ceremony where
  rotating : Party
  /-- The epoch of the relationship before the rotation. -/
  epoch : Nat
  /-- The epoch of the newest key of the rotating side. -/
  own : Nat
  old : PrivateKey
  /-- The seed of the new key. -/
  fresh : Nat
  /-- The first event id of the rotation. -/
  firstEvent : EventId
  own_le : own ≤ epoch
  old_lt : old.seed < fresh

namespace Ceremony

variable (C : Ceremony)

/-- The side that acknowledges. -/
def acking : Party := C.rotating.other

/-- The epoch of the new key. -/
def next : Nat := C.epoch + 1

/-- The new key. -/
def new : PrivateKey := ⟨C.fresh⟩

theorem epoch_ne_next : C.epoch ≠ C.next := Nat.ne_of_lt (Nat.lt_succ_self _)

theorem own_ne_next : C.own ≠ C.next := Nat.ne_of_lt (Nat.lt_succ_of_le C.own_le)

theorem old_ne_new : C.old ≠ C.new := fun h => absurd C.old_lt (by rw [h]; exact lt_irrefl _)

end Ceremony

variable {C : Ceremony}

/-- A move goes one phase forward towards `confirmed`. -/
def Forward (allowed : Nat → Role → Phase → Phase → Prop) : Prop :=
  ∀ e role p p', allowed e role p p' →
    (p = .candidate ∧ p' = .acknowledged) ∨ (p = .acknowledged ∧ p' = .confirmed)

theorem forward_noMove : Forward noMove := fun _ _ _ _ h => h.elim

theorem forward_ackMove (epoch : Nat) : Forward (ackMove epoch) :=
  fun _ _ _ _ h => Or.inl h.2.2

theorem forward_confirmMove : Forward confirmMove := fun _ _ _ _ h => Or.inr h.2

theorem forward_onConfirmMove (epoch : Nat) : Forward (onConfirmMove epoch) :=
  fun _ _ _ _ h => Or.inr h.2.2

theorem Forward.keepsLive {allowed : Nat → Role → Phase → Phase → Prop} (h : Forward allowed) :
    KeepsLive allowed := by
  intro e role p p' hmove
  rcases h e role p p' hmove with ⟨rfl, rfl⟩ | ⟨rfl, rfl⟩ <;> simp

theorem privateKey_congr {k k' : Keys} {e : Nat} (hrow : k'.ownRow e = k.ownRow e)
    (hfile : ∀ row path, k.ownRow e = some row → row.private_key_ref = .file path →
      k'.key_files.find path = k.key_files.find path) :
    k'.privateKey e = k.privateKey e := by
  unfold Keys.privateKey
  rw [hrow]
  cases hown : k.ownRow e with
  | none => rfl
  | some row =>
    obtain ⟨epoch, pub, ref⟩ := row
    cases ref with
    | peer => rfl
    | file path =>
      dsimp only
      rw [hfile _ path hown rfl]

/-! ## The rotating side -/

/-- The keys of the rotating side during the rotation. -/
structure RotatingKeys (C : Ceremony) (k : Keys) : Prop where
  acking : ∀ e r, k.rotation e .acking = some r → r.live = false
  past : ∀ e r, k.rotation e .rotating = some r → e ≠ C.next →
    r.live = false ∧ e ≤ C.epoch ∧ r.prior_epoch < e
  prior : ∀ r, k.rotation C.next .rotating = some r → r.prior_epoch = C.own
  files : ∀ e row, k.ownRow e = some row → row.private_key_ref = .file e
  owned : ∀ e row, k.ownRow e = some row → e ≤ C.own ∨ e = C.next
  phase :
    (k.key_epoch = C.epoch ∧ ∀ r, k.rotation C.next .rotating = some r → r.phase ≠ .committed) ∨
    (k.key_epoch = C.next ∧ ∀ r, k.rotation C.next .rotating = some r → r.phase = .committed)
  old_key : k.key_epoch = C.epoch → k.privateKey C.own = some C.old
  new_key : (k.key_epoch = C.next ∨ ∃ r, k.rotation C.next .rotating = some r ∧ r.live = true) →
    k.privateKey C.next = some C.new

/-- The rotation was acknowledged, and from then on it is only completed. -/
def Acked (C : Ceremony) (k : Keys) : Prop :=
  k.key_epoch = C.next ∨ ∃ r, k.rotation C.next .rotating = some r ∧
    (r.phase = .acknowledged ∨ r.phase = .confirmed)

/-- What every step of the rotating side does to its keys. -/
structure RotatingStep (C : Ceremony) (k k' : Keys) : Prop where
  keys : RotatingKeys C k'
  acked : Acked C k → Acked C k'
  applied : k.key_epoch = C.next → k'.key_epoch = C.next

theorem RotatingStep.of_eq {k k' : Keys} (hk : RotatingKeys C k) (h : k' = k) :
    RotatingStep C k k' :=
  ⟨h ▸ hk, fun ha => h ▸ ha, fun he => h ▸ he⟩

theorem RotatingStep.trans {k₁ k₂ k₃ : Keys} (h : RotatingStep C k₁ k₂)
    (h' : RotatingStep C k₂ k₃) : RotatingStep C k₁ k₃ :=
  ⟨h'.keys, fun ha => h'.acked (h.acked ha), fun he => h'.applied (h.applied he)⟩

namespace RotatingKeys

variable {k k' : Keys} {s s' : Side}

theorem live_next (hk : RotatingKeys C k) {e : Nat} {r : Rotation}
    (hr : k.rotation e .rotating = some r) (hlive : r.live = true) : e = C.next := by
  by_contra hne
  rw [(hk.past e r hr hne).1] at hlive
  cases hlive

/-- The epoch is still the prior one while the rotation is in flight. -/
theorem key_epoch_of_live (hk : RotatingKeys C k) {r : Rotation}
    (hr : k.rotation C.next .rotating = some r) (hlive : r.live = true) :
    k.key_epoch = C.epoch := by
  rcases hk.phase with ⟨he, -⟩ | ⟨-, hdone⟩
  · exact he
  · exact absurd (hdone r hr) (Rotation.live_iff.mp hlive).1

theorem evolves {allowed : Nat → Role → Phase → Phase → Prop} (hforward : Forward allowed)
    (h : Evolves allowed k k') (hk : RotatingKeys C k) : RotatingStep C k k' := by
  have hlive : ∀ {e role} {r r' : Rotation},
      (r'.phase = r.phase ∨ allowed e role r.phase r'.phase) → r'.live = r.live :=
    live_eq_of_move hforward.keepsLive
  have hcommitted : ∀ {e role} {r r' : Rotation},
      (r'.phase = r.phase ∨ allowed e role r.phase r'.phase) →
      (r'.phase = .committed ↔ r.phase = .committed) := by
    rintro e role r r' (hsame | hmove)
    · rw [hsame]
    · rcases hforward _ _ _ _ hmove with ⟨hp, hp'⟩ | ⟨hp, hp'⟩ <;> simp [hp, hp']
  have hown := ownRow_congr h.key_epochs
  have hkey : ∀ e, k'.privateKey e = k.privateKey e := by
    intro e
    exact privateKey_congr (hown e) (fun _ _ _ _ => by rw [h.key_files])
  refine ⟨⟨?_, ?_, ?_, ?_, ?_, ?_, ?_, ?_⟩, ?_, ?_⟩
  · intro e r' hr'
    obtain ⟨r, hr, -, hmove⟩ := h.back e _ r' hr'
    rw [hlive hmove]
    exact hk.acking e r hr
  · intro e r' hr' hne
    obtain ⟨r, hr, ho, hmove⟩ := h.back e _ r' hr'
    rw [hlive hmove, show r'.prior_epoch = r.prior_epoch from congrArg Origin.prior_epoch ho]
    exact hk.past e r hr hne
  · intro r' hr'
    obtain ⟨r, hr, ho, -⟩ := h.back _ _ r' hr'
    rw [show r'.prior_epoch = r.prior_epoch from congrArg Origin.prior_epoch ho]
    exact hk.prior r hr
  · intro e row
    rw [hown]
    exact hk.files e row
  · intro e row
    rw [hown]
    exact hk.owned e row
  · rw [h.key_epoch]
    refine hk.phase.imp (fun hp => ⟨hp.1, ?_⟩) (fun hp => ⟨hp.1, ?_⟩)
    · intro r' hr'
      obtain ⟨r, hr, -, hmove⟩ := h.back _ _ r' hr'
      exact fun hc => hp.2 r hr ((hcommitted hmove).mp hc)
    · intro r' hr'
      obtain ⟨r, hr, -, hmove⟩ := h.back _ _ r' hr'
      exact (hcommitted hmove).mpr (hp.2 r hr)
  · rw [h.key_epoch, hkey]
    exact hk.old_key
  · rw [h.key_epoch, hkey]
    rintro (he | ⟨r', hr', hl⟩)
    · exact hk.new_key (Or.inl he)
    · obtain ⟨r, hr, -, hmove⟩ := h.back _ _ r' hr'
      exact hk.new_key (Or.inr ⟨r, hr, (hlive hmove) ▸ hl⟩)
  · rintro (he | ⟨r, hr, hphase⟩)
    · exact Or.inl (h.key_epoch.trans he)
    · obtain ⟨r', hr', -, hsame | hmove⟩ := h.forth _ _ r hr
      · exact Or.inr ⟨r', hr', hsame ▸ hphase⟩
      · refine Or.inr ⟨r', hr', ?_⟩
        exact (hforward _ _ _ _ hmove).imp (·.2) (·.2)
  · exact fun he => h.key_epoch.trans he

theorem commits {e : Nat} {r₀ r₁ : Rotation} (h : CommitsRow s e .rotating r₀ r₁ s')
    (hk : RotatingKeys C s.toKeys) :
    e = C.next ∧ s'.key_epoch = C.next ∧ RotatingStep C s.toKeys s'.toKeys := by
  have hlive : r₀.live = true := by simp [Rotation.live, h.confirmed]
  obtain rfl : e = C.next := hk.live_next h.row hlive
  have hown := ownRow_congr h.key_epochs
  have hkey : ∀ e, s'.privateKey e = s.privateKey e := by
    intro e
    exact privateKey_congr (hown e) (fun _ _ _ _ => by rw [h.key_files])
  have hnext : ∀ r, s'.rotation C.next .rotating = some r → r = r₁ := by
    intro r hr
    rw [h.rotation, if_pos rfl] at hr
    exact (Option.some.inj hr).symm
  refine ⟨rfl, h.key_epoch, ⟨?_, ?_, ?_, ?_, ?_, ?_, ?_, ?_⟩, ?_, fun _ => h.key_epoch⟩
  · intro e r hr
    rw [h.rotation, if_neg (by simp)] at hr
    exact hk.acking e r hr
  · intro e r hr hne
    rw [h.rotation, if_neg (by simp [hne])] at hr
    exact hk.past e r hr hne
  · intro r hr
    rw [hnext r hr, show r₁.prior_epoch = r₀.prior_epoch from congrArg Origin.prior_epoch h.origin]
    exact hk.prior r₀ h.row
  · intro e row
    rw [hown]
    exact hk.files e row
  · intro e row
    rw [hown]
    exact hk.owned e row
  · exact Or.inr ⟨h.key_epoch, fun r hr => by rw [hnext r hr]; exact h.committed⟩
  · intro he
    exact absurd (he.symm.trans h.key_epoch) C.epoch_ne_next
  · intro _
    rw [hkey]
    exact hk.new_key (Or.inr ⟨r₀, h.row, hlive⟩)
  · exact fun _ => Or.inl h.key_epoch

theorem privateKey_of_removed {e₀ : Nat} (h : Removed s e₀ s') (hk : RotatingKeys C s.toKeys)
    {e : Nat} (hne : e ≠ e₀) : s'.privateKey e = s.privateKey e := by
  refine privateKey_congr (by rw [h.ownRow, if_neg hne]) ?_
  intro row path hrow hpath
  apply h.key_files
  intro gone hgone
  rw [hk.files e row hrow] at hpath
  rw [hk.files e₀ gone hgone, ← hpath]
  exact fun heq => hne (KeyRef.file.inj heq).symm

theorem removed {e₀ : Nat} (h : Removed s e₀ s') (hk : RotatingKeys C s.toKeys)
    (hback : ∀ e role r', s'.rotation e role = some r' → ∃ r, s.rotation e role = some r ∧
      r'.prior_epoch = r.prior_epoch ∧ (r'.phase = r.phase ∨ e = C.next ∧ r'.phase = .discarded ∧
        r.phase = .candidate))
    (hforth : ∀ r, s.rotation C.next .rotating = some r →
      r.phase = .acknowledged ∨ r.phase = .confirmed → s'.rotation C.next .rotating = some r)
    (hold : s.key_epoch = C.epoch → C.own ≠ e₀)
    (hnew : s.key_epoch = C.next ∨ (∃ r, s'.rotation C.next .rotating = some r ∧ r.live = true) →
      C.next ≠ e₀) :
    RotatingStep C s.toKeys s'.toKeys := by
  have hsub : ∀ e row, s'.ownRow e = some row → s.ownRow e = some row := by
    intro e row hrow
    rw [h.ownRow] at hrow
    split_ifs at hrow
    exact hrow
  have hlive : ∀ {e} {r r' : Rotation}, (r'.phase = r.phase ∨ e = C.next ∧ r'.phase = .discarded ∧
      r.phase = .candidate) → r'.live = true → r.live = true := by
    rintro e r r' (hsame | ⟨-, hgone, -⟩) hl
    · rw [Rotation.live_iff] at hl ⊢
      rwa [hsame] at hl
    · exact absurd hgone (Rotation.live_iff.mp hl).2
  have hdead : ∀ {e} {r r' : Rotation}, (r'.phase = r.phase ∨ e = C.next ∧ r'.phase = .discarded ∧
      r.phase = .candidate) → r.live = false → r'.live = false := by
    intro e r r' hphase hl
    rw [← Bool.not_eq_true] at hl ⊢
    exact fun hl' => hl (hlive hphase hl')
  refine ⟨⟨?_, ?_, ?_, ?_, ?_, ?_, ?_, ?_⟩, ?_, fun he => h.key_epoch.trans he⟩
  · intro e r' hr'
    obtain ⟨r, hr, -, hphase⟩ := hback e _ r' hr'
    exact hdead hphase (hk.acking e r hr)
  · intro e r' hr' hne
    obtain ⟨r, hr, hprior, hphase⟩ := hback e _ r' hr'
    obtain ⟨hl, hle, hlt⟩ := hk.past e r hr hne
    exact ⟨hdead hphase hl, hle, hprior ▸ hlt⟩
  · intro r' hr'
    obtain ⟨r, hr, hprior, -⟩ := hback _ _ r' hr'
    exact hprior.trans (hk.prior r hr)
  · exact fun e row hrow => hk.files e row (hsub e row hrow)
  · exact fun e row hrow => hk.owned e row (hsub e row hrow)
  · rw [h.key_epoch]
    refine hk.phase.imp (fun hp => ⟨hp.1, ?_⟩) (fun hp => ⟨hp.1, ?_⟩)
    · intro r' hr'
      obtain ⟨r, hr, -, hsame | ⟨-, hgone, -⟩⟩ := hback _ _ r' hr'
      · rw [hsame]
        exact hp.2 r hr
      · rw [hgone]
        simp
    · intro r' hr'
      obtain ⟨r, hr, -, hsame | ⟨-, -, hcand⟩⟩ := hback _ _ r' hr'
      · rw [hsame]
        exact hp.2 r hr
      · exact absurd ((hp.2 r hr).symm.trans hcand) (by simp)
  · rw [h.key_epoch]
    intro he
    rw [privateKey_of_removed h hk (hold he)]
    exact hk.old_key he
  · rw [h.key_epoch]
    intro hcase
    rw [privateKey_of_removed h hk (hnew hcase)]
    refine hk.new_key (hcase.imp id ?_)
    rintro ⟨r', hr', hl⟩
    obtain ⟨r, hr, -, hphase⟩ := hback _ _ r' hr'
    exact ⟨r, hr, hlive hphase hl⟩
  · rintro (he | ⟨r, hr, hphase⟩)
    · exact Or.inl (h.key_epoch.trans he)
    · exact Or.inr ⟨r, hforth r hr hphase, hphase⟩

theorem sweepCompact (hk : RotatingKeys C s.toKeys) (now : Nat) :
    RotatingStep C s.toKeys (sweepCompact s now).1.toKeys := by
  rcases sweepCompact_cases s now with h | ⟨hepoch, -, hfiles, -, hrots⟩
  · exact .of_eq hk (congrArg Side.toKeys h)
  have hown := ownRow_sweepCompact s now
  have hkey : ∀ e, (RotationManager.sweepCompact s now).1.privateKey e = s.privateKey e := by
    intro e
    exact privateKey_congr (hown e) (fun _ _ _ _ => by rw [hfiles])
  have hsub : ∀ e role r, (RotationManager.sweepCompact s now).1.rotation e role = some r →
      s.rotation e role = some r := by
    intro e role r hr
    rw [hrots] at hr
    exact (Option.filter_eq_some_iff.mp hr).1
  refine ⟨⟨?_, ?_, ?_, ?_, ?_, ?_, ?_, ?_⟩, ?_, fun he => hepoch.trans he⟩
  · exact fun e r hr => hk.acking e r (hsub e _ r hr)
  · exact fun e r hr => hk.past e r (hsub e _ r hr)
  · exact fun r hr => hk.prior r (hsub _ _ r hr)
  · intro e row
    rw [hown]
    exact hk.files e row
  · intro e row
    rw [hown]
    exact hk.owned e row
  · rw [hepoch]
    exact hk.phase.imp (fun hp => ⟨hp.1, fun r hr => hp.2 r (hsub _ _ r hr)⟩)
      (fun hp => ⟨hp.1, fun r hr => hp.2 r (hsub _ _ r hr)⟩)
  · rw [hepoch, hkey]
    exact hk.old_key
  · rw [hepoch, hkey]
    rintro (he | ⟨r, hr, hl⟩)
    · exact hk.new_key (Or.inl he)
    · exact hk.new_key (Or.inr ⟨r, hsub _ _ r hr, hl⟩)
  · rintro (he | ⟨r, hr, hphase⟩)
    · exact Or.inl (hepoch.trans he)
    · have hlive : r.live = true := by
        rcases hphase with hphase | hphase <;> simp [Rotation.live, hphase]
      refine Or.inr ⟨r, ?_, hphase⟩
      rw [hrots, hr]
      simp [staleCommitted_live hlive]

/-- The candidate that times out is the one of this rotation, and it was not
acknowledged. -/
theorem sweepTimeout (hk : RotatingKeys C s.toKeys) (now : Nat) :
    RotatingStep C s.toKeys (sweepTimeout s now).1.toKeys := by
  rcases sweepTimeout_cases s now with h | ⟨r, hr, hcand, hremoved, hrots⟩
  · exact .of_eq hk (congrArg Side.toKeys h)
  have hlive : r.live = true := by simp [Rotation.live, hcand]
  have hnext : r.epoch = C.next := hk.live_next hr hlive
  rw [hnext] at hr hremoved hrots
  have hepoch : s.key_epoch = C.epoch := hk.key_epoch_of_live hr hlive
  refine hk.removed hremoved ?_ ?_ (fun _ => C.own_ne_next) ?_
  · intro e role r' hr'
    rw [hrots] at hr'
    split_ifs at hr' with hkey
    · cases hr'
      obtain ⟨rfl, rfl⟩ := Prod.mk.inj hkey
      exact ⟨r, hr, rfl, Or.inr ⟨rfl, rfl, hcand⟩⟩
    · exact ⟨r', hr', rfl, Or.inl rfl⟩
  · intro r' hr' hphase
    obtain rfl := Option.some.inj (hr.symm.trans hr')
    simp [hcand] at hphase
  · rintro (he | ⟨r', hr', hl⟩)
    · exact absurd (hepoch.symm.trans he) C.epoch_ne_next
    · rw [hrots, if_pos rfl] at hr'
      cases hr'
      simp [Rotation.live] at hl

theorem sweepRetire (hk : RotatingKeys C s.toKeys) {row : Rotation}
    (hrow : s.rotation row.epoch .rotating = some row) (hdone : row.phase = .committed) (now : Nat) :
    RotatingStep C s.toKeys (sweepRetire s row now).1.toKeys := by
  rcases sweepRetire_cases s row now with h | ⟨hown, hremoved, hrots⟩
  · exact .of_eq hk (congrArg Side.toKeys h)
  have hback : ∀ e role r', (RotationManager.sweepRetire s row now).1.rotation e role = some r' →
      s.rotation e role = some r' := by
    intro e role r' hr'
    rw [hrots] at hr'
    split_ifs at hr'
    · exact (Option.filter_eq_some_iff.mp hr').1
    · exact hr'
  have hprior : row.prior_epoch ≤ C.own ∧ (s.key_epoch = C.epoch → C.own ≠ row.prior_epoch) := by
    by_cases hnext : row.epoch = C.next
    · rw [hnext] at hrow
      refine ⟨(hk.prior row hrow).le, ?_⟩
      intro he
      rcases hk.phase with ⟨-, hno⟩ | ⟨he', -⟩
      · exact absurd hdone (hno row hrow)
      · exact absurd (he.symm.trans he') C.epoch_ne_next
    · obtain ⟨-, -, hlt⟩ := hk.past _ row hrow hnext
      obtain ⟨keyRow, hkeyRow⟩ := Option.isSome_iff_exists.mp hown
      have hle := (hk.owned _ keyRow hkeyRow).resolve_right hnext
      exact ⟨by omega, fun _ => by omega⟩
  refine hk.removed hremoved (fun e role r' hr' => ⟨r', hback e role r' hr', rfl, Or.inl rfl⟩) ?_
    hprior.2 ?_
  · intro r hr hphase
    rw [hrots, hr]
    rcases hphase with hphase | hphase <;> simp [hphase]
  · intro _ heq
    have := C.own_le
    have hnext : C.next = C.epoch + 1 := rfl
    omega

theorem onCommit (hk : RotatingKeys C s.toKeys) (e now : Nat) :
    RotatingStep C s.toKeys (onCommit s e now).1.toKeys := by
  rcases onCommit_cases s e now with h | ⟨r₀, r₁, h, -, -⟩
  · exact .of_eq hk (congrArg Side.toKeys h)
  · exact (hk.commits h).2.2

/-- With no acking rotation in flight there is nothing to mark. -/
theorem markCommitted (hk : RotatingKeys C s.toKeys) (now : Nat) :
    (markCommitted s now).1 = s := by
  rcases markCommitted_cases s now with h | ⟨r₀, r₁, h, -⟩
  · exact h
  · have hdead := hk.acking _ r₀ h.row
    simp [Rotation.live, h.confirmed] at hdead

end RotatingKeys

/-- The keys of the rotating side before the rotation. -/
structure SettledRotating (C : Ceremony) (k : Keys) : Prop where
  key_epoch : k.key_epoch = C.epoch
  peer_key : k.peer_agreement_key.isSome = true
  rows : ∀ e row, k.key_epochs.find e = some row → e ≤ C.epoch
  idle : ∀ e role r, k.rotation e role = some r → r.live = false
  /-- A discarded attempt at the same epoch may be left. -/
  past : ∀ e r, k.rotation e .rotating = some r → e ≠ C.next → e ≤ C.epoch ∧ r.prior_epoch < e
  owned : ∀ e row, k.ownRow e = some row → row.private_key_ref = .file e ∧ e ≤ C.own
  old_row : ∃ row, k.ownRow C.own = some row ∧ row.public_key = C.old.publicKey
  old_key : k.privateKey C.own = some C.old

theorem mem_peerKeyEpochs {k : Keys} {x : Nat × AgreementKey} (h : x ∈ k.peerKeyEpochs) :
    (x.1 = k.key_epoch ∧ k.peerRow x.1 = none ∧ k.peer_agreement_key = some x.2) ∨
      ∃ row, k.peerRow x.1 = some row ∧ row.public_key = x.2 := by
  have hrows : ∀ y ∈ k.peerRows.map (fun r => (r.epoch, r.public_key)),
      ∃ row, k.peerRow y.1 = some row ∧ row.public_key = y.2 := by
    intro y hy
    obtain ⟨row, hrow, rfl⟩ := List.mem_map.mp hy
    exact ⟨row, mem_peerRows.mp hrow, rfl⟩
  unfold peerKeyEpochs at h
  dsimp only at h
  split at h
  · exact Or.inr (hrows x h)
  · rename_i key hkey
    rcases List.mem_cons.mp h with rfl | h
    · cases hrow : k.peerRow k.key_epoch with
      | none => exact Or.inl ⟨rfl, rfl, hkey⟩
      | some row => exact Or.inr ⟨row, rfl, rfl⟩
    · exact Or.inr (hrows x (List.mem_filter.mp h).1)

theorem currentEpoch_of_settled {k : Keys} (h : SettledRotating C k) :
    k.currentEpoch = C.epoch := by
  apply le_antisymm
  · apply foldr_max_le
    intro e he
    rcases List.mem_append.mp he with he | he
    · obtain ⟨row, hrow⟩ := Option.isSome_iff_exists.mp (mem_ownEpochs.mp he)
      exact h.rows e row (ownRow_eq_some.mp hrow).1
    · obtain ⟨x, hx, rfl⟩ := List.mem_map.mp he
      rcases mem_peerKeyEpochs hx with ⟨hcur, -, -⟩ | ⟨row, hrow, -⟩
      · exact (hcur.trans h.key_epoch).le
      · exact h.rows _ row (peerRow_eq_some.mp hrow).1
  · obtain ⟨key, hkey⟩ := Option.isSome_iff_exists.mp h.peer_key
    apply le_foldr_max
    apply List.mem_append_right
    simp [peerKeyEpochs, hkey, h.key_epoch]

theorem RotatingKeys.begun {s s' : Side} {now epoch : Nat} {id : Option EventId} {prepare : Prepare}
    {prior : KeyRow} (hs : SettledRotating C s.toKeys)
    (h : Begun s now C.new id s' epoch prepare prior) :
    RotatingKeys C s'.toKeys ∧ prepare.new_agreement_key = C.new.publicKey ∧
      prepare.prior_fingerprint = agreementFingerprint C.old.publicKey := by
  obtain ⟨old, hold, hpub⟩ := hs.old_row
  have hepoch : epoch = C.next := by
    rw [h.epoch_eq, currentEpoch_of_settled hs]
    rfl
  subst hepoch
  have hprior : prior = old := by
    have htop : prior.epoch = C.own :=
      le_antisymm (hs.owned _ prior h.prior_own).2 (h.prior_top C.own old hold)
    have hsame := h.prior_own
    rw [htop, hold] at hsame
    exact (Option.some.inj hsame).symm
  subst hprior
  have hown : ∀ e, s'.ownRow e =
      if e = C.next then some ⟨C.next, C.new.publicKey, .file C.next⟩ else s.ownRow e := by
    intro e
    unfold Keys.ownRow
    rw [h.key_epochs]
    split_ifs <;> rfl
  have hnext : ∀ r, s'.rotation C.next .rotating = some r →
      r = candidateRow C.next prior now C.new id := by
    intro r hr
    rw [h.rotation, if_pos rfl] at hr
    exact (Option.some.inj hr).symm
  refine ⟨⟨?_, ?_, ?_, ?_, ?_, Or.inl ⟨h.key_epoch.trans hs.key_epoch, ?_⟩, ?_, ?_⟩, ?_, ?_⟩
  · intro e r hr
    rw [h.rotation, if_neg (by simp)] at hr
    exact hs.idle e _ r hr
  · intro e r hr hne
    rw [h.rotation, if_neg (by simp [hne])] at hr
    exact ⟨hs.idle e _ r hr, hs.past e r hr hne⟩
  · intro r hr
    rw [hnext r hr]
    exact epoch_of_ownRow hold
  · intro e row hrow
    rw [hown] at hrow
    split_ifs at hrow with he
    · cases hrow
      rw [he]
    · exact (hs.owned e row hrow).1
  · intro e row hrow
    rw [hown] at hrow
    split_ifs at hrow with he
    · exact Or.inr he
    · exact Or.inl (hs.owned e row hrow).2
  · intro r hr
    rw [hnext r hr]
    simp [candidateRow]
  · intro _
    rw [← hs.old_key]
    refine privateKey_congr (by rw [hown, if_neg C.own_ne_next]) ?_
    intro row path hrow hpath
    rw [(hs.owned _ row hrow).1] at hpath
    cases hpath
    rw [h.key_files, if_neg C.own_ne_next]
  · intro _
    have hrow := hown C.next
    have hfile := h.key_files C.next
    rw [if_pos rfl] at hrow hfile
    exact privateKey_eq_some hrow rfl hfile
  · rw [h.prepare_eq]
  · rw [h.prepare_eq, hpub]

/-! ## The acking side -/

/-- The keys of the acking side during the rotation. -/
structure AckingKeys (C : Ceremony) (k : Keys) : Prop where
  rotating : ∀ e r, k.rotation e .rotating = some r → r.live = false
  past : ∀ e r, k.rotation e .acking = some r → e ≠ C.next → r.live = false ∧ e ≤ C.epoch
  current : ∀ r, k.rotation C.next .acking = some r →
    (r.phase = .acknowledged ∨ r.phase = .confirmed ∨ r.phase = .committed) ∧
      r.prior_epoch = C.epoch ∧ r.new_public_key = C.new.publicKey ∧
      (k.peerRow C.next).isSome = true
  rows : ∀ e row, k.peerRow e = some row → e ≠ C.next →
    e ≤ C.epoch ∧ row.public_key ≠ C.new.publicKey
  next_row : ∀ row, k.peerRow C.next = some row → row.public_key = C.new.publicKey
  prior_row : ∀ row, k.peerRow C.epoch = some row → row.public_key = C.old.publicKey
  phase :
    (k.key_epoch = C.epoch ∧ k.peer_agreement_key = some C.old.publicKey ∧
      ∀ r, k.rotation C.next .acking = some r → r.phase ≠ .committed) ∨
    (k.key_epoch = C.next ∧ k.peer_agreement_key = some C.new.publicKey ∧
      ∃ r, k.rotation C.next .acking = some r ∧ r.phase = .committed)

/-- The acking side has seen the confirm. -/
def Confirmed (C : Ceremony) (k : Keys) : Prop :=
  ∃ r, k.rotation C.next .acking = some r ∧ (r.phase = .confirmed ∨ r.phase = .committed)

/-- The acking side has executed `mark_committed`. -/
def Committed (C : Ceremony) (k : Keys) : Prop :=
  ∃ r, k.rotation C.next .acking = some r ∧ r.phase = .committed

/-- What every step of the acking side does to its keys, unless it hears the
confirm or marks the commit. -/
structure AckingStep (C : Ceremony) (k k' : Keys) : Prop where
  keys : AckingKeys C k'
  confirmed : Confirmed C k' → Confirmed C k
  committed : Committed C k' → Committed C k

theorem AckingStep.of_eq {k k' : Keys} (hk : AckingKeys C k) (h : k' = k) : AckingStep C k k' :=
  ⟨h ▸ hk, fun hc => h ▸ hc, fun hc => h ▸ hc⟩

namespace AckingKeys

variable {k k' : Keys} {s s' : Side}

variable {e : Nat} {r : Rotation} {allowed : Nat → Role → Phase → Phase → Prop} {key : AgreementKey}

theorem live_next (hk : AckingKeys C k) (hr : k.rotation e .acking = some r)
    (hlive : r.live = true) : e = C.next := by
  by_contra hne
  rw [(hk.past e r hr hne).1] at hlive
  cases hlive

theorem prior_of_live (hk : AckingKeys C k) (hr : k.rotation C.next .acking = some r)
    (hlive : r.live = true) :
    k.key_epoch = C.epoch ∧ k.peer_agreement_key = some C.old.publicKey := by
  rcases hk.phase with ⟨he, hpeer, -⟩ | ⟨-, -, r', hr', hdone⟩
  · exact ⟨he, hpeer⟩
  · obtain rfl := Option.some.inj (hr.symm.trans hr')
    exact absurd hdone (Rotation.live_iff.mp hlive).1

theorem evolves (hforward : Forward allowed) (h : Evolves allowed k k')
    (hk : AckingKeys C k) : AckingKeys C k' := by
  have hlive : ∀ {e role} {r r' : Rotation},
      (r'.phase = r.phase ∨ allowed e role r.phase r'.phase) → r'.live = r.live :=
    live_eq_of_move hforward.keepsLive
  have hpeerRow : ∀ e, k'.peerRow e = k.peerRow e := by
    intro e
    unfold Keys.peerRow
    rw [h.key_epochs]
  refine ⟨?_, ?_, ?_, ?_, ?_, ?_, ?_⟩
  · intro e r' hr'
    obtain ⟨r, hr, -, hmove⟩ := h.back e _ r' hr'
    rw [hlive hmove]
    exact hk.rotating e r hr
  · intro e r' hr' hne
    obtain ⟨r, hr, -, hmove⟩ := h.back e _ r' hr'
    rw [hlive hmove]
    exact hk.past e r hr hne
  · intro r' hr'
    obtain ⟨r, hr, ho, hmove⟩ := h.back _ _ r' hr'
    obtain ⟨hphase, hprior, hkey, hrow⟩ := hk.current r hr
    refine ⟨?_, (congrArg Origin.prior_epoch ho).trans hprior,
      (congrArg Origin.new_public_key ho).trans hkey, by rw [hpeerRow]; exact hrow⟩
    rcases hmove with hsame | hmove
    · rw [hsame]
      exact hphase
    · rcases hforward _ _ _ _ hmove with ⟨-, hp⟩ | ⟨-, hp⟩ <;> simp [hp]
  · intro e row
    rw [hpeerRow]
    exact hk.rows e row
  · intro row
    rw [hpeerRow]
    exact hk.next_row row
  · intro row
    rw [hpeerRow]
    exact hk.prior_row row
  · rw [h.key_epoch, h.peer_agreement_key]
    refine hk.phase.imp (fun hp => ⟨hp.1, hp.2.1, ?_⟩) (fun hp => ⟨hp.1, hp.2.1, ?_⟩)
    · intro r' hr'
      obtain ⟨r, hr, -, hsame | hmove⟩ := h.back _ _ r' hr'
      · rw [hsame]
        exact hp.2.2 r hr
      · rcases hforward _ _ _ _ hmove with ⟨-, hp'⟩ | ⟨-, hp'⟩ <;> simp [hp']
    · obtain ⟨r, hr, hdone⟩ := hp.2.2
      obtain ⟨r', hr', -, hsame | hmove⟩ := h.forth _ _ r hr
      · exact ⟨r', hr', hsame.trans hdone⟩
      · rcases hforward _ _ _ _ hmove with ⟨hp', -⟩ | ⟨hp', -⟩ <;> simp [hdone] at hp'

theorem evolves_phase (hforward : Forward allowed) (h : Evolves allowed k k') :
    (Confirmed C k' → Confirmed C k ∨ ∃ p, allowed C.next .acking p .confirmed) ∧
      (Committed C k' → Committed C k) := by
  constructor
  · rintro ⟨r', hr', hphase⟩
    obtain ⟨r, hr, -, hsame | hmove⟩ := h.back _ _ r' hr'
    · exact Or.inl ⟨r, hr, hsame ▸ hphase⟩
    · rcases hforward _ _ _ _ hmove with ⟨-, hp⟩ | ⟨-, hp⟩
      · simp [hp] at hphase
      · exact Or.inr ⟨_, hp ▸ hmove⟩
  · rintro ⟨r', hr', hphase⟩
    obtain ⟨r, hr, -, hsame | hmove⟩ := h.back _ _ r' hr'
    · exact ⟨r, hr, hsame ▸ hphase⟩
    · rcases hforward _ _ _ _ hmove with ⟨-, hp⟩ | ⟨-, hp⟩ <;> simp [hp] at hphase

/-- A method of the rotating side does not move the acking row. -/
theorem evolves_step (hforward : Forward allowed) (hrole : ∀ e p p', ¬ allowed e .acking p p')
    (h : Evolves allowed k k') (hk : AckingKeys C k) :
    AckingStep C k k' := by
  obtain ⟨hconf, hcomm⟩ := evolves_phase hforward h
  exact ⟨hk.evolves hforward h, fun hc => (hconf hc).resolve_right (fun ⟨p, hp⟩ => hrole _ _ _ hp),
    hcomm⟩

theorem commits {r₀ r₁ : Rotation} (h : CommitsRow s e .acking r₀ r₁ s')
    (hpeer : s'.peer_agreement_key = some r₀.new_public_key) (hk : AckingKeys C s.toKeys) :
    e = C.next ∧ AckingKeys C s'.toKeys ∧ Confirmed C s.toKeys := by
  have hlive : r₀.live = true := by simp [Rotation.live, h.confirmed]
  obtain rfl : e = C.next := hk.live_next h.row hlive
  obtain ⟨-, hprior, hkey, hrow⟩ := hk.current r₀ h.row
  have hpeerRow : ∀ e, s'.peerRow e = s.peerRow e := by
    intro e
    unfold Keys.peerRow
    rw [h.key_epochs]
  have hnext : s'.rotation C.next .acking = some r₁ := by rw [h.rotation, if_pos rfl]
  refine ⟨rfl, ⟨?_, ?_, ?_, ?_, ?_, ?_, ?_⟩, r₀, h.row, Or.inl h.confirmed⟩
  · intro e r hr
    rw [h.rotation, if_neg (by simp)] at hr
    exact hk.rotating e r hr
  · intro e r hr hne
    rw [h.rotation, if_neg (by simp [hne])] at hr
    exact hk.past e r hr hne
  · intro r hr
    obtain rfl := Option.some.inj (hnext.symm.trans hr)
    exact ⟨Or.inr (Or.inr h.committed), (congrArg Origin.prior_epoch h.origin).trans hprior,
      (congrArg Origin.new_public_key h.origin).trans hkey, by rw [hpeerRow]; exact hrow⟩
  · intro e row
    rw [hpeerRow]
    exact hk.rows e row
  · intro row
    rw [hpeerRow]
    exact hk.next_row row
  · intro row
    rw [hpeerRow]
    exact hk.prior_row row
  · exact Or.inr ⟨h.key_epoch, hpeer.trans (congrArg some hkey), r₁, hnext, h.committed⟩

/-- With no rotating rotation in flight a commit of the peer does nothing. -/
theorem onCommit (hk : AckingKeys C s.toKeys) (e now : Nat) : (onCommit s e now).1 = s := by
  rcases onCommit_cases s e now with h | ⟨r₀, r₁, h, -, -⟩
  · exact h
  · have hdead := hk.rotating _ r₀ h.row
    simp [Rotation.live, h.confirmed] at hdead

theorem sweepTimeout (hk : AckingKeys C s.toKeys) (now : Nat) : (sweepTimeout s now).1 = s := by
  rcases sweepTimeout_cases s now with h | ⟨r, hr, hcand, -, -⟩
  · exact h
  · have hdead := hk.rotating _ r hr
    simp [Rotation.live, hcand] at hdead

theorem sweepRetire (hk : AckingKeys C s.toKeys) (row : Rotation) (now : Nat) :
    AckingStep C s.toKeys (sweepRetire s row now).1.toKeys := by
  rcases sweepRetire_cases s row now with h | ⟨-, hremoved, hrots⟩
  · exact .of_eq hk (congrArg Side.toKeys h)
  have hacking : ∀ e, (RotationManager.sweepRetire s row now).1.rotation e .acking =
      s.rotation e .acking := by
    intro e
    rw [hrots, if_neg (by simp)]
  have hpeerRow : ∀ e, (RotationManager.sweepRetire s row now).1.peerRow e = s.peerRow e := by
    intro e
    unfold Keys.peerRow
    rw [hremoved.key_epochs, Option.filter_filter]
    congr 1
    funext r
    cases hown : r.isOwn <;> simp
  refine ⟨⟨?_, ?_, ?_, ?_, ?_, ?_, ?_⟩, ?_, ?_⟩
  · intro e r hr
    rw [hrots] at hr
    split_ifs at hr
    · exact hk.rotating e r (Option.filter_eq_some_iff.mp hr).1
    · exact hk.rotating e r hr
  · intro e r
    rw [hacking]
    exact hk.past e r
  · intro r
    rw [hacking, hpeerRow]
    exact hk.current r
  · intro e row'
    rw [hpeerRow]
    exact hk.rows e row'
  · intro row'
    rw [hpeerRow]
    exact hk.next_row row'
  · intro row'
    rw [hpeerRow]
    exact hk.prior_row row'
  · rw [hremoved.key_epoch, hremoved.peer_agreement_key, hacking]
    exact hk.phase
  · unfold Confirmed
    rw [hacking]
    exact id
  · unfold Committed
    rw [hacking]
    exact id

/-- No peer key is newer than the new one, so compaction keeps it. -/
theorem not_stalePeer (hk : AckingKeys C s.toKeys) {row : KeyRow}
    (hrow : s.peerRow C.next = some row) : stalePeer s row = false := by
  have hepoch : row.epoch = C.next := Table.key_of_find (peerRow_eq_some.mp hrow).1
  have hmem : row ∈ s.peerRows := mem_peerRows.mpr (hepoch.symm ▸ hrow)
  have hnodup : (s.peerRows.map (·.epoch)).Nodup :=
    s.key_epochs.nodup.sublist (List.filter_sublist.map _)
  have hnewest : row.epoch ∈ (Newest.newest (s.peerRows.map (·.epoch))).take
      PEER_KEY_EPOCH_RETAIN_NEWEST := by
    rw [Newest.mem_newest_take hnodup]
    refine ⟨List.mem_map_of_mem hmem, ?_⟩
    have hzero : (s.peerRows.map (·.epoch)).countP (fun e => decide (row.epoch < e)) = 0 := by
      rw [List.countP_eq_zero]
      intro e he
      obtain ⟨row', hrow', rfl⟩ := List.mem_map.mp he
      have hpeer := mem_peerRows.mp hrow'
      simp only [decide_eq_true_eq, hepoch]
      by_cases hne : row'.epoch = C.next
      · omega
      · have := (hk.rows _ row' hpeer hne).1
        have hnext : C.next = C.epoch + 1 := rfl
        omega
    rw [hzero]
    decide
  simp [stalePeer, hnewest]

theorem not_staleCommitted (hk : AckingKeys C s.toKeys) (hr : s.rotation C.next .acking = some r)
    (now : Nat) : staleCommitted s now r = false := by
  obtain ⟨-, hepoch, hrole⟩ := rotation_eq_some.mp hr
  rw [← Bool.not_eq_true]
  unfold staleCommitted
  simp only [decide_eq_true_eq]
  rintro ⟨-, -, e, he, hlt⟩
  rw [hrole] at he
  obtain ⟨r', hr', rfl⟩ := List.mem_map.mp he
  obtain ⟨hmem, hcond⟩ := List.mem_filter.mp hr'
  have hrole' : r'.role = .acking := by
    simp only [decide_eq_true_eq] at hcond
    exact hcond.1
  by_cases hne : r'.epoch = C.next
  · omega
  · have := (hk.past _ r' (rotation_eq_some.mpr ⟨hmem, rfl, hrole'⟩) hne).2
    have hnext : C.next = C.epoch + 1 := rfl
    omega

theorem sweepCompact (hk : AckingKeys C s.toKeys) (now : Nat) :
    AckingStep C s.toKeys (sweepCompact s now).1.toKeys := by
  rcases sweepCompact_cases s now with h | ⟨hepoch, hpeer, -, hkeys, hrots⟩
  · exact .of_eq hk (congrArg Side.toKeys h)
  have hsub : ∀ e role r, (RotationManager.sweepCompact s now).1.rotation e role = some r →
      s.rotation e role = some r := by
    intro e role r hr
    rw [hrots] at hr
    exact (Option.filter_eq_some_iff.mp hr).1
  have hpeerSub : ∀ e row, (RotationManager.sweepCompact s now).1.peerRow e = some row →
      s.peerRow e = some row := by
    intro e row hrow
    rw [peerRow_eq_some, hkeys] at hrow
    exact peerRow_eq_some.mpr ⟨(Option.filter_eq_some_iff.mp hrow.1).1, hrow.2⟩
  refine ⟨⟨?_, ?_, ?_, ?_, ?_, ?_, ?_⟩, ?_, ?_⟩
  · exact fun e r hr => hk.rotating e r (hsub e _ r hr)
  · exact fun e r hr => hk.past e r (hsub e _ r hr)
  · intro r hr
    obtain ⟨hphase, hprior, hkey, hrow⟩ := hk.current r (hsub _ _ r hr)
    refine ⟨hphase, hprior, hkey, ?_⟩
    obtain ⟨row, hrow⟩ := Option.isSome_iff_exists.mp hrow
    have hkept : (RotationManager.sweepCompact s now).1.peerRow C.next = some row := by
      rw [peerRow_eq_some, hkeys, (peerRow_eq_some.mp hrow).1]
      simp [hk.not_stalePeer hrow, (peerRow_eq_some.mp hrow).2]
    exact Option.isSome_of_eq_some hkept
  · exact fun e row hrow => hk.rows e row (hpeerSub e row hrow)
  · exact fun row hrow => hk.next_row row (hpeerSub _ row hrow)
  · exact fun row hrow => hk.prior_row row (hpeerSub _ row hrow)
  · rw [hepoch, hpeer]
    refine hk.phase.imp (fun hp => ⟨hp.1, hp.2.1, fun r hr => hp.2.2 r (hsub _ _ r hr)⟩)
      (fun hp => ⟨hp.1, hp.2.1, ?_⟩)
    obtain ⟨r, hr, hdone⟩ := hp.2.2
    refine ⟨r, ?_, hdone⟩
    rw [hrots, hr]
    simp [hk.not_staleCommitted hr now]
  · exact fun ⟨r, hr, hphase⟩ => ⟨r, hsub _ _ r hr, hphase⟩
  · exact fun ⟨r, hr, hphase⟩ => ⟨r, hsub _ _ r hr, hphase⟩

/-! ### Prepares and wraps -/

/-- The entry of the current epoch comes first. -/
theorem peerKeyEpochs_head (hpeer : k.peer_agreement_key = some key) :
    k.peerKeyEpochs = (k.key_epoch, ((k.peerRow k.key_epoch).map (·.public_key)).getD key) ::
      (k.peerRows.map (fun r => (r.epoch, r.public_key))).filter (fun e => e.1 ≠ k.key_epoch) := by
  simp [peerKeyEpochs, hpeer]

theorem peerKey_current (hpeer : k.peer_agreement_key = some key) :
    k.peerKey k.key_epoch = some (((k.peerRow k.key_epoch).map (·.public_key)).getD key) := by
  simp [peerKey, peerKeyEpochs_head hpeer]

theorem peerKey_other (hpeer : k.peer_agreement_key = some key) {row : KeyRow}
    (hrow : k.peerRow e = some row) (hne : e ≠ k.key_epoch) :
    k.peerKey e = some row.public_key := by
  have hepoch : row.epoch = e := Table.key_of_find (peerRow_eq_some.mp hrow).1
  have hmem : row ∈ k.peerRows := mem_peerRows.mpr (hepoch.symm ▸ hrow)
  have hentry : (e, row.public_key) ∈ (k.peerRows.map (fun r => (r.epoch, r.public_key))).filter
      (fun e => e.1 ≠ k.key_epoch) := by
    refine List.mem_filter.mpr ⟨List.mem_map.mpr ⟨row, hmem, by rw [hepoch]⟩, by simpa using hne⟩
  rw [peerKey, peerKeyEpochs_head hpeer, List.find?_cons_of_neg (by simpa using hne.symm)]
  cases hfind : ((k.peerRows.map (fun r => (r.epoch, r.public_key))).filter
      (fun e => e.1 ≠ k.key_epoch)).find? (fun x => x.1 = e) with
  | none =>
    have := List.find?_eq_none.mp hfind _ hentry
    simp at this
  | some x =>
    -- The rows are keyed by their epoch, so the entry found is the entry of `row`.
    have hx : x.1 = e := by simpa using List.find?_some hfind
    obtain ⟨hx', -⟩ := List.mem_filter.mp (List.mem_of_find?_eq_some hfind)
    obtain ⟨row', hrow', rfl⟩ := List.mem_map.mp hx'
    have hpeer' := mem_peerRows.mp hrow'
    rw [show row'.epoch = e from hx, hrow] at hpeer'
    simp [Option.some.inj hpeer']

theorem current_key (hk : AckingKeys C k) :
    ((k.peerRow C.epoch).map (·.public_key)).getD C.old.publicKey = C.old.publicKey := by
  cases hrow : k.peerRow C.epoch with
  | none => rfl
  | some row => exact hk.prior_row row hrow

theorem dual_seal (hk : AckingKeys C s.toKeys) (hr : s.inFlightAs .acking = some r)
    (hconf : r.phase = .confirmed) (peer : IdentityId) :
    r.epoch = C.next ∧ recipientsFor s peer =
      .ok ([⟨peer, C.old.publicKey⟩, ⟨peer, C.new.publicKey⟩], C.next) := by
  obtain ⟨hrot, hlive⟩ := rotation_of_inFlightAs hr
  have hnext : r.epoch = C.next := hk.live_next hrot hlive
  rw [hnext] at hrot
  obtain ⟨-, hprior, -, hrow⟩ := hk.current r hrot
  obtain ⟨hepoch, hpeer⟩ := hk.prior_of_live hrot hlive
  obtain ⟨row, hrow⟩ := Option.isSome_iff_exists.mp hrow
  have hold : s.peerKey C.epoch = some C.old.publicKey := by
    rw [← hepoch, peerKey_current hpeer, hepoch, hk.current_key]
  have hnew : s.peerKey C.next = some C.new.publicKey := by
    rw [peerKey_other hpeer hrow (hepoch ▸ C.epoch_ne_next.symm), hk.next_row row hrow]
  have hdual : dualWrapKeys s = .ok ((C.epoch, C.old.publicKey), (C.next, C.new.publicKey)) := by
    simp [dualWrapKeys, hr, hconf, hprior, hnext, hold, hnew]
  have hmax : max C.epoch C.next = C.next := max_eq_right (Nat.le_succ _)
  exact ⟨hnext, by simp [recipientsFor, hdual, hmax]⟩

/-- After the commit the prior key belongs to an epoch of the past. -/
theorem old_entry_le (hk : AckingKeys C k) (hpeer : k.peer_agreement_key = some C.new.publicKey)
    {x : Nat × AgreementKey} (hx : x ∈ k.peerKeyEpochs) (hold : x.2 = C.old.publicKey) :
    x.1 ≤ C.epoch := by
  rcases mem_peerKeyEpochs hx with ⟨-, -, hkey⟩ | ⟨row, hrow, hpub⟩
  · have heq : x.2 = C.new.publicKey := Option.some.inj (hkey.symm.trans hpeer)
    exact absurd (publicKey_inj.mp (hold.symm.trans heq)) C.old_ne_new
  · by_cases hne : x.1 = C.next
    · rw [hne] at hrow
      have heq : C.old.publicKey = C.new.publicKey :=
        hold.symm.trans (hpub.symm.trans (hk.next_row row hrow))
      exact absurd (publicKey_inj.mp heq) C.old_ne_new
    · exact (hk.rows _ row hrow hne).1

theorem prior_epoch_eq {prepare : Prepare} {id : EventId} {now prior_epoch : Nat}
    (h : Acknowledged s prepare id now s' prior_epoch) (hk : AckingKeys C s.toKeys)
    (hnew : prepare.new_agreement_key = C.new.publicKey)
    (hprior : prepare.prior_fingerprint = agreementFingerprint C.old.publicKey) :
    prior_epoch = C.epoch := by
  obtain ⟨key, hfind⟩ := h.prior
  rcases hk.phase with ⟨he, hpeer, -⟩ | ⟨he, hpeer, -⟩
  · -- The first entry carries the prior key.
    rw [peerKeyEpochs_head hpeer, List.find?_cons_of_pos (by simp [he, hk.current_key, hprior])]
      at hfind
    exact (congrArg Prod.fst (Option.some.inj hfind)).symm.trans he
  · rcases h.peer_key with ⟨⟨existing, hex, hkey⟩, -⟩ | ⟨-, -, hmax, -⟩
    · -- No row but that of the new epoch has the new key.
      by_contra hne
      refine (hk.rows _ existing hex ?_).2 (hkey.trans hnew)
      exact fun heq => hne (Nat.succ.inj heq)
    · -- The prior key would be that of the newest peer epoch, which is the new one.
      have hkeyOf : agreementFingerprint key = prepare.prior_fingerprint := by
        simpa using List.find?_some hfind
      have hkey : key = C.old.publicKey := by
        rw [← agreementFingerprint_inj, hkeyOf, hprior]
      have hle : prior_epoch ≤ C.epoch :=
        hk.old_entry_le hpeer (List.mem_of_find?_eq_some hfind) hkey
      have hge : C.next ≤ prior_epoch := by
        rw [hmax]
        apply le_foldr_max
        rw [peerKeyEpochs_head hpeer, he]
        simp
      exact absurd (le_trans hge hle) (Nat.not_succ_le_self _)

theorem acknowledged {prepare : Prepare} {id : EventId} {now prior_epoch : Nat}
    (h : Acknowledged s prepare id now s' prior_epoch) (hk : AckingKeys C s.toKeys)
    (hnew : prepare.new_agreement_key = C.new.publicKey)
    (hprior : prepare.prior_fingerprint = agreementFingerprint C.old.publicKey) :
    AckingStep C s.toKeys s'.toKeys := by
  obtain rfl : prior_epoch = C.epoch := hk.prior_epoch_eq h hnew hprior
  have hpast : ∀ e, e ≠ C.next → s'.rotation e .acking = s.rotation e .acking := by
    intro e hne
    rw [h.rotation, if_neg (fun heq => hne (congrArg Prod.fst heq))]
  have hrow : ∀ e row, s'.peerRow e = some row → s.peerRow e = some row ∨
      e = C.next ∧ row.public_key = C.new.publicKey := by
    intro e row hrow
    rcases h.peer_key with ⟨-, hsame⟩ | ⟨-, -, -, hkeys⟩
    · unfold Keys.peerRow at hrow ⊢
      rw [hsame] at hrow
      exact Or.inl hrow
    · rw [peerRow_eq_some, hkeys] at hrow
      split_ifs at hrow with he
      · obtain ⟨hrow, -⟩ := hrow
        cases hrow
        exact Or.inr ⟨he, hnew⟩
      · exact Or.inl (peerRow_eq_some.mpr hrow)
  have hnextRow : (s'.peerRow C.next).isSome = true := by
    rcases h.peer_key with ⟨⟨existing, hex, -⟩, hsame⟩ | ⟨-, -, -, hkeys⟩
    · unfold Keys.peerRow at hex ⊢
      rw [hsame]
      exact Option.isSome_of_eq_some hex
    · have hfind := (hkeys C.next).trans (if_pos rfl)
      exact Option.isSome_of_eq_some (peerRow_eq_some.mpr ⟨hfind, rfl⟩)
  have hrot : s'.rotation C.next .acking = some (((s.rotation C.next .acking).filter
      (fun r => decide (r.phase ≠ .discarded))).getD
        (ackingRow C.next C.epoch prepare id now)) := by
    rw [h.rotation]
    exact if_pos rfl
  -- The row of the epoch is the one that was there, or a fresh acknowledged one.
  have hnext : ∀ r, s'.rotation C.next .acking = some r → s.rotation C.next .acking = some r ∨
      s.rotation C.next .acking = none ∧ r = ackingRow C.next C.epoch prepare id now := by
    intro r hr
    rw [hrot] at hr
    cases hold : s.rotation C.next .acking with
    | none =>
      rw [hold] at hr
      exact Or.inr ⟨rfl, (Option.some.inj hr).symm⟩
    | some r₀ =>
      have hphase : r₀.phase ≠ .discarded := by
        rcases (hk.current r₀ hold).1 with hp | hp | hp <;> simp [hp]
      rw [hold] at hr
      simp only [Option.filter_some, hphase, ne_eq, not_false_eq_true, decide_true, if_true,
        Option.getD_some] at hr
      exact Or.inl hr
  have hkeep : ∀ r, s.rotation C.next .acking = some r → s'.rotation C.next .acking = some r := by
    intro r hr
    have hphase : r.phase ≠ .discarded := by
      rcases (hk.current r hr).1 with hp | hp | hp <;> simp [hp]
    rw [hrot, hr]
    simp [Option.filter_some, hphase]
  refine ⟨⟨?_, ?_, ?_, ?_, ?_, ?_, ?_⟩, ?_, ?_⟩
  · intro e r hr
    rw [h.rotation, if_neg (by simp)] at hr
    exact hk.rotating e r hr
  · intro e r hr hne
    rw [hpast e hne] at hr
    exact hk.past e r hr hne
  · intro r hr
    rcases hnext r hr with hold | ⟨-, rfl⟩
    · obtain ⟨hphase, hprior', hkey, -⟩ := hk.current r hold
      exact ⟨hphase, hprior', hkey, hnextRow⟩
    · exact ⟨Or.inl rfl, rfl, hnew, hnextRow⟩
  · intro e row hrow' hne
    rcases hrow e row hrow' with hold | ⟨heq, -⟩
    · exact hk.rows e row hold hne
    · exact absurd heq hne
  · intro row hrow'
    rcases hrow _ row hrow' with hold | ⟨-, hkey⟩
    · exact hk.next_row row hold
    · exact hkey
  · intro row hrow'
    rcases hrow _ row hrow' with hold | ⟨heq, -⟩
    · exact hk.prior_row row hold
    · exact absurd heq C.epoch_ne_next
  · rw [h.key_epoch, h.peer_agreement_key]
    refine hk.phase.imp (fun hp => ⟨hp.1, hp.2.1, ?_⟩) (fun hp => ⟨hp.1, hp.2.1, ?_⟩)
    · intro r hr
      rcases hnext r hr with hold | ⟨-, rfl⟩
      · exact hp.2.2 r hold
      · simp [ackingRow]
    · obtain ⟨r, hr, hdone⟩ := hp.2.2
      exact ⟨r, hkeep r hr, hdone⟩
  · rintro ⟨r, hr, hphase⟩
    rcases hnext r hr with hold | ⟨-, rfl⟩
    · exact ⟨r, hold, hphase⟩
    · simp [ackingRow] at hphase
  · rintro ⟨r, hr, hphase⟩
    rcases hnext r hr with hold | ⟨-, rfl⟩
    · exact ⟨r, hold, hphase⟩
    · simp [ackingRow] at hphase

end AckingKeys

/-- The keys of the acking side before the rotation. -/
structure SettledAcking (C : Ceremony) (k : Keys) : Prop where
  key_epoch : k.key_epoch = C.epoch
  peer_key : k.peer_agreement_key = some C.old.publicKey
  idle : ∀ e role r, k.rotation e role = some r → r.live = false
  past : ∀ e r, k.rotation e .acking = some r → e ≤ C.epoch
  rows : ∀ e row, k.peerRow e = some row → e ≤ C.epoch ∧ row.public_key ≠ C.new.publicKey
  prior_row : ∀ row, k.peerRow C.epoch = some row → row.public_key = C.old.publicKey

theorem AckingKeys.settled {k : Keys} (h : SettledAcking C k) :
    AckingKeys C k ∧ ∀ r, k.rotation C.next .acking ≠ some r := by
  have hnone : ∀ r, k.rotation C.next .acking ≠ some r := by
    intro r hr
    exact absurd (h.past _ r hr) (Nat.not_succ_le_self _)
  refine ⟨⟨?_, ?_, ?_, ?_, ?_, h.prior_row, Or.inl ⟨h.key_epoch, h.peer_key, ?_⟩⟩, hnone⟩
  · exact fun e r hr => h.idle e _ r hr
  · exact fun e r hr _ => ⟨h.idle e _ r hr, h.past e r hr⟩
  · exact fun r hr => absurd hr (hnone r)
  · exact fun e row hrow _ => h.rows e row hrow
  · exact fun row hrow => absurd (h.rows _ row hrow).1 (Nat.not_succ_le_self _)
  · exact fun r hr => absurd hr (hnone r)

end MuseAgentSocial.Cli
