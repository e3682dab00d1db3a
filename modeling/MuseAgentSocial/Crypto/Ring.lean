import MuseAgentSocial.Crypto.RotationSpec

/-!
# The ring of own keys

A side that begins a rotation only while it holds one own key never holds
more than two: the one the peer may still wrap to and the one it rotates to.
`Ring` is the invariant behind this.

* Every own row has its key file.
* A rotation in flight is for the newest own key, and every other own key is
  the one it rotates from.
* The current epoch, when it is an own one, is the newest unless a rotation
  is in flight.

`Tame` is what every method but `begin_rotation` does: it keeps `Ring`, it
puts no rotation in flight, and every key it stores was known before.
-/

namespace MuseAgentSocial.Crypto

open Model RotationManager Keys

/-- The invariant of the own keys of one side. -/
structure Ring (k : Keys) : Prop where
  file : ∀ e row, k.ownRow e = some row →
    row.private_key_ref = .file e ∧ ∃ f, k.key_files.find e = some f ∧
      f.key.publicKey = row.public_key
  two : ∀ e₁ e₂ e₃, (k.ownRow e₁).isSome = true → (k.ownRow e₂).isSome = true →
    (k.ownRow e₃).isSome = true → e₁ < e₂ → e₂ < e₃ → False
  live_key : ∀ e r, k.rotation e .rotating = some r → r.live = true →
    ∃ row, k.ownRow e = some row ∧ row.public_key = r.new_public_key
  live_top : ∀ e r, k.rotation e .rotating = some r → r.live = true →
    ∀ e', (k.ownRow e').isSome = true → e' ≤ e
  live_prior : ∀ e r, k.rotation e .rotating = some r → r.live = true →
    ∀ e' row', k.ownRow e' = some row' → e' ≠ e →
      agreementFingerprint row'.public_key = r.prior_fingerprint
  prior_lt : ∀ e r, k.rotation e .rotating = some r → r.prior_epoch < e
  acking : ∀ e r, k.rotation e .acking = some r → r.live = true → k.ownRow e = none
  current : (k.ownRow k.key_epoch).isSome = true →
    (∀ e, (k.ownRow e).isSome = true → e ≤ k.key_epoch) ∨
      ∃ e r, k.rotation e .rotating = some r ∧ r.live = true

/-- Every public key of a side comes from a key pair below `n`. -/
structure Below (n : Nat) (k : Keys) : Prop where
  rows : ∀ e row, k.key_epochs.find e = some row → row.public_key.half.seed < n
  peer : ∀ key, k.peer_agreement_key = some key → key.half.seed < n
  rotations : ∀ e role r, k.rotation e role = some r → r.new_public_key.half.seed < n

theorem Below.mono {n m : Nat} {k : Keys} (h : Below n k) (hle : n ≤ m) : Below m k where
  rows := fun e row hrow => lt_of_lt_of_le (h.rows e row hrow) hle
  peer := fun key hkey => lt_of_lt_of_le (h.peer key hkey) hle
  rotations := fun e role r hr => lt_of_lt_of_le (h.rotations e role r hr) hle

/-- The rotations in flight were in flight before. -/
def LiveFrom (k k' : Keys) : Prop :=
  ∀ e r', k'.rotation e .rotating = some r' → r'.live = true →
    ∃ r, k.rotation e .rotating = some r ∧ r.live = true ∧ r'.origin = r.origin

/-- What a method other than `begin_rotation` does to the keys. -/
structure Tame (n : Nat) (k k' : Keys) : Prop where
  ring : Ring k → Ring k'
  live : LiveFrom k k'
  below : Below n k → Below n k'

theorem Tame.refl (n : Nat) (k : Keys) : Tame n k k where
  ring := id
  live := fun _ r hr hlive => ⟨r, hr, hlive, rfl⟩
  below := id

theorem Tame.of_eq {n : Nat} {k k' : Keys} (h : k' = k) : Tame n k k' := h ▸ .refl n k

theorem Tame.trans {n : Nat} {k₁ k₂ k₃ : Keys} (h : Tame n k₁ k₂) (h' : Tame n k₂ k₃) :
    Tame n k₁ k₃ where
  ring := fun hr => h'.ring (h.ring hr)
  live := by
    intro e r₃ hr₃ hlive₃
    obtain ⟨r₂, hr₂, hlive₂, ho₂⟩ := h'.live e r₃ hr₃ hlive₃
    obtain ⟨r, hr, hlive, ho⟩ := h.live e r₂ hr₂ hlive₂
    exact ⟨r, hr, hlive, ho₂.trans ho⟩
  below := fun hb => h'.below (h.below hb)

/-! ## Moving phases -/

/-- The move neither ends a rotation nor revives one. -/
def KeepsLive (allowed : Nat → Role → Phase → Phase → Prop) : Prop :=
  ∀ e role p p', allowed e role p p' →
    (p ≠ .committed ∧ p ≠ .discarded) ∧ (p' ≠ .committed ∧ p' ≠ .discarded)

theorem live_eq_of_move {allowed : Nat → Role → Phase → Phase → Prop} (hkeep : KeepsLive allowed)
    {e : Nat} {role : Role} {r r' : Rotation}
    (h : r'.phase = r.phase ∨ allowed e role r.phase r'.phase) : r'.live = r.live := by
  rcases h with h | h
  · simp [Rotation.live, h]
  · obtain ⟨hp, hp'⟩ := hkeep _ _ _ _ h
    rw [(Rotation.live_iff).mpr hp, (Rotation.live_iff).mpr hp']

theorem ownRow_congr {k k' : Keys} (h : k'.key_epochs = k.key_epochs) (e : Nat) :
    k'.ownRow e = k.ownRow e := by
  simp [Keys.ownRow, h]

theorem Keys.Evolves.tame {allowed : Nat → Role → Phase → Phase → Prop} (hkeep : KeepsLive allowed)
    {k k' : Keys} (h : Evolves allowed k k') (n : Nat) : Tame n k k' where
  ring := by
    intro hring
    have hown := ownRow_congr h.key_epochs
    have hback : ∀ e role r', k'.rotation e role = some r' → r'.live = true →
        ∃ r, k.rotation e role = some r ∧ r.live = true ∧ r'.origin = r.origin := by
      intro e role r' hr' hlive
      obtain ⟨r, hr, ho, hp⟩ := h.back e role r' hr'
      exact ⟨r, hr, (live_eq_of_move hkeep hp) ▸ hlive, ho⟩
    refine ⟨?_, ?_, ?_, ?_, ?_, ?_, ?_, ?_⟩
    · intro e row
      rw [hown, h.key_files]
      exact hring.file e row
    · intro e₁ e₂ e₃
      rw [hown, hown, hown]
      exact hring.two e₁ e₂ e₃
    · intro e r' hr' hlive
      obtain ⟨r, hr, hl, ho⟩ := hback e _ r' hr' hlive
      obtain ⟨row, hrow, hkey⟩ := hring.live_key e r hr hl
      exact ⟨row, (hown e).trans hrow, hkey.trans (congrArg Origin.new_public_key ho).symm⟩
    · intro e r' hr' hlive e'
      obtain ⟨r, hr, hl, -⟩ := hback e _ r' hr' hlive
      rw [hown]
      exact hring.live_top e r hr hl e'
    · intro e r' hr' hlive e' row'
      obtain ⟨r, hr, hl, ho⟩ := hback e _ r' hr' hlive
      rw [hown, show r'.prior_fingerprint = r.prior_fingerprint from
        congrArg Origin.prior_fingerprint ho]
      exact hring.live_prior e r hr hl e' row'
    · intro e r' hr'
      obtain ⟨r, hr, ho, -⟩ := h.back e _ r' hr'
      rw [show r'.prior_epoch = r.prior_epoch from congrArg Origin.prior_epoch ho]
      exact hring.prior_lt e r hr
    · intro e r' hr' hlive
      obtain ⟨r, hr, hl, -⟩ := hback e _ r' hr' hlive
      rw [hown]
      exact hring.acking e r hr hl
    · rw [h.key_epoch, hown]
      intro hcur
      rcases hring.current hcur with htop | ⟨e, r, hr, hl⟩
      · exact Or.inl (fun e he => htop e (hown e ▸ he))
      · obtain ⟨r', hr', -, hp⟩ := h.forth e _ r hr
        exact Or.inr ⟨e, r', hr', (live_eq_of_move hkeep hp).trans hl⟩
  live := by
    intro e r' hr' hlive
    obtain ⟨r, hr, ho, hp⟩ := h.back e _ r' hr'
    exact ⟨r, hr, (live_eq_of_move hkeep hp) ▸ hlive, ho⟩
  below := by
    intro hb
    refine ⟨?_, ?_, ?_⟩
    · intro e row
      rw [h.key_epochs]
      exact hb.rows e row
    · intro key
      rw [h.peer_agreement_key]
      exact hb.peer key
    · intro e role r' hr'
      obtain ⟨r, hr, ho, -⟩ := h.back e role r' hr'
      rw [show r'.new_public_key = r.new_public_key from congrArg Origin.new_public_key ho]
      exact hb.rotations e role r hr

theorem keepsLive_noMove : KeepsLive noMove := fun _ _ _ _ h => absurd h (by simp [noMove])

theorem keepsLive_ackMove (epoch : Nat) : KeepsLive (ackMove epoch) := by
  rintro e role p p' ⟨-, -, rfl, rfl⟩
  decide

theorem keepsLive_confirmMove : KeepsLive confirmMove := by
  rintro e role p p' ⟨-, rfl, rfl⟩
  decide

theorem keepsLive_onConfirmMove (epoch : Nat) : KeepsLive (onConfirmMove epoch) := by
  rintro e role p p' ⟨-, -, rfl, rfl⟩
  decide

/-! ## Committing -/

namespace RotationManager

section commit

variable {s s' : Side} {epoch n : Nat} {role : Role} {r₀ r₁ : Rotation}

theorem CommitsRow.live (h : CommitsRow s epoch role r₀ r₁ s') {e : Nat} {role' : Role}
    {r : Rotation} (hr : s'.rotation e role' = some r) (hlive : r.live = true) :
    s.rotation e role' = some r := by
  rw [h.rotation] at hr
  split_ifs at hr
  · cases hr
    simp [Rotation.live, h.committed] at hlive
  · exact hr

theorem CommitsRow.tame (h : CommitsRow s epoch role r₀ r₁ s')
    (hpeer : ∀ key, s'.peer_agreement_key = some key →
      s.peer_agreement_key = some key ∨ key = r₀.new_public_key) :
    Tame n s.toKeys s'.toKeys where
  ring := by
    intro hring
    have hown := ownRow_congr h.key_epochs
    have hlive₀ : r₀.live = true := by simp [Rotation.live, h.confirmed]
    refine ⟨?_, ?_, ?_, ?_, ?_, ?_, ?_, ?_⟩
    · intro e row
      rw [hown, h.key_files]
      exact hring.file e row
    · intro e₁ e₂ e₃
      rw [hown, hown, hown]
      exact hring.two e₁ e₂ e₃
    · intro e r hr hlive
      rw [hown]
      exact hring.live_key e r (h.live hr hlive) hlive
    · intro e r hr hlive e'
      rw [hown]
      exact hring.live_top e r (h.live hr hlive) hlive e'
    · intro e r hr hlive e' row'
      rw [hown]
      exact hring.live_prior e r (h.live hr hlive) hlive e' row'
    · intro e r hr
      rw [h.rotation] at hr
      split_ifs at hr with hkey
      · cases hr
        obtain ⟨rfl, rfl⟩ := Prod.mk.inj hkey
        rw [show r₁.prior_epoch = r₀.prior_epoch from congrArg Origin.prior_epoch h.origin]
        exact hring.prior_lt e r₀ h.row
      · exact hring.prior_lt e r hr
    · intro e r hr hlive
      rw [hown]
      exact hring.acking e r (h.live hr hlive) hlive
    · rw [h.key_epoch, hown]
      intro hcur
      cases role with
      | rotating => exact Or.inl (fun e he => hring.live_top epoch r₀ h.row hlive₀ e (hown e ▸ he))
      | acking =>
        -- The committed epoch is the peer's, so it is not an own one.
        rw [hring.acking epoch r₀ h.row hlive₀] at hcur
        cases hcur
  live := fun _ r hr hlive => ⟨r, h.live hr hlive, hlive, rfl⟩
  below := by
    intro hb
    refine ⟨?_, ?_, ?_⟩
    · intro e row
      rw [h.key_epochs]
      exact hb.rows e row
    · intro key hkey
      rcases hpeer key hkey with hold | rfl
      · exact hb.peer key hold
      · exact hb.rotations epoch role r₀ h.row
    · intro e role' r hr
      rw [h.rotation] at hr
      split_ifs at hr with hkey
      · cases hr
        rw [show r₁.new_public_key = r₀.new_public_key from congrArg Origin.new_public_key h.origin]
        exact hb.rotations epoch role r₀ h.row
      · exact hb.rotations e role' r hr

end commit

theorem onCommit_tame (s : Side) (epoch now n : Nat) :
    Tame n s.toKeys (onCommit s epoch now).1.toKeys := by
  rcases onCommit_cases s epoch now with h | ⟨r₀, r₁, h, hpeer, -⟩
  · rw [h]
    exact .refl n _
  · exact h.tame (fun key hkey => Or.inl (hpeer ▸ hkey))

theorem markCommitted_tame (s : Side) (now n : Nat) :
    Tame n s.toKeys (markCommitted s now).1.toKeys := by
  rcases markCommitted_cases s now with h | ⟨r₀, r₁, h, hpeer, -⟩
  · rw [h]
    exact .refl n _
  · exact h.tame (fun key hkey => Or.inr (Option.some.inj (hkey.symm.trans hpeer)))

/-! ## Acknowledging -/

theorem onPrepare_tame (s : Side) (prepare : Prepare) (id : EventId) (now n : Nat)
    (hprepare : prepare.new_agreement_key.half.seed < n) :
    Tame n s.toKeys (onPrepare s prepare id now).1.toKeys := by
  rcases onPrepare_cases s prepare id now with ⟨h, -⟩ | ⟨prior_epoch, -, h⟩
  · exact .of_eq h
  set s' := (onPrepare s prepare id now).1
  have hpeer : ∃ row, s'.key_epochs.find (prior_epoch + 1) = some row ∧ row.isOwn = false := by
    rcases h.peer_key with ⟨⟨row, hrow, -⟩, hsame⟩ | ⟨-, -, -, hkeys⟩
    · exact ⟨row, by rw [hsame]; exact (peerRow_eq_some.mp hrow).1, (peerRow_eq_some.mp hrow).2⟩
    · exact ⟨_, (hkeys _).trans (if_pos rfl), rfl⟩
  have hown : ∀ e, s'.ownRow e = s.ownRow e := by
    intro e
    rcases h.peer_key with ⟨-, hsame⟩ | ⟨-, hlt, -, hkeys⟩
    · exact ownRow_congr hsame e
    · unfold Keys.ownRow
      rw [hkeys]
      split_ifs with he
      · have hnone : s.key_epochs.find e = none := by
          by_contra hsome
          obtain ⟨row, hrow⟩ := Option.ne_none_iff_exists'.mp hsome
          have hle := le_currentEpoch hrow
          omega
        rw [hnone]
        rfl
      · rfl
  have hrotating : ∀ e, s'.rotation e .rotating = s.rotation e .rotating :=
    fun e => (h.rotation e .rotating).trans (if_neg (by simp))
  refine ⟨?_, ?_, ?_⟩
  · intro hring
    refine ⟨?_, ?_, ?_, ?_, ?_, ?_, ?_, ?_⟩
    · intro e row
      rw [hown, h.key_files]
      exact hring.file e row
    · intro e₁ e₂ e₃
      rw [hown, hown, hown]
      exact hring.two e₁ e₂ e₃
    · intro e r
      rw [hrotating, hown]
      exact hring.live_key e r
    · intro e r hr hlive e'
      rw [hown]
      exact hring.live_top e r (hrotating e ▸ hr) hlive e'
    · intro e r hr hlive e' row'
      rw [hown]
      exact hring.live_prior e r (hrotating e ▸ hr) hlive e' row'
    · exact fun e r hr => hring.prior_lt e r (hrotating e ▸ hr)
    · intro e r hr hlive
      rw [h.rotation] at hr
      split_ifs at hr with hkey
      · cases hkey
        obtain ⟨row, hrow, hnot⟩ := hpeer
        simp [Keys.ownRow, hrow, hnot]
      · rw [hown]
        exact hring.acking e r hr hlive
    · rw [h.key_epoch, hown]
      intro hcur
      rcases hring.current hcur with htop | ⟨e, r, hr, hl⟩
      · exact Or.inl (fun e he => htop e (hown e ▸ he))
      · exact Or.inr ⟨e, r, (hrotating e).trans hr, hl⟩
  · exact fun e r' hr' hlive => ⟨r', hrotating e ▸ hr', hlive, rfl⟩
  · intro hb
    refine ⟨?_, ?_, ?_⟩
    · intro e row hrow
      rcases h.peer_key with ⟨-, hsame⟩ | ⟨-, -, -, hkeys⟩
      · exact hb.rows e row (hsame ▸ hrow)
      · rw [hkeys] at hrow
        split_ifs at hrow
        · cases hrow
          exact hprepare
        · exact hb.rows e row hrow
    · intro key
      rw [h.peer_agreement_key]
      exact hb.peer key
    · intro e role r hr
      rw [h.rotation] at hr
      split_ifs at hr with hkey
      · cases hfound : (s.rotation (prior_epoch + 1) .acking).filter
            (fun r => decide (r.phase ≠ .discarded)) with
        | none =>
          rw [hfound] at hr
          cases hr
          exact hprepare
        | some r₁ =>
          rw [hfound] at hr
          cases hr
          exact hb.rotations _ _ r₁ (Option.filter_eq_some_iff.mp hfound).1
      · exact hb.rotations e role r hr

/-! ## Sweeping -/

theorem staleCommitted_live {s : Side} {now : Nat} {r : Rotation} (h : r.live = true) :
    staleCommitted s now r = false := by
  have hphase := (Rotation.live_iff.mp h).1
  simp [staleCommitted, hphase]

theorem sweepCompact_tame (s : Side) (now n : Nat) :
    Tame n s.toKeys (sweepCompact s now).1.toKeys := by
  have hown := ownRow_sweepCompact s now
  rcases sweepCompact_cases s now with h | ⟨hepoch, hpeer, hfiles, hkeys, hrots⟩
  · rw [h]
    exact .refl n _
  set s' := (sweepCompact s now).1
  have hback : ∀ e role r, s'.rotation e role = some r → s.rotation e role = some r := by
    intro e role r hr
    rw [hrots] at hr
    exact (Option.filter_eq_some_iff.mp hr).1
  have hforth : ∀ e role r, s.rotation e role = some r → r.live = true →
      s'.rotation e role = some r := by
    intro e role r hr hlive
    rw [hrots, hr]
    simp [Option.filter, staleCommitted_live hlive]
  refine ⟨?_, ?_, ?_⟩
  · intro hring
    refine ⟨?_, ?_, ?_, ?_, ?_, ?_, ?_, ?_⟩
    · intro e row
      rw [hown, hfiles]
      exact hring.file e row
    · intro e₁ e₂ e₃
      rw [hown, hown, hown]
      exact hring.two e₁ e₂ e₃
    · intro e r hr
      rw [hown]
      exact hring.live_key e r (hback e _ r hr)
    · intro e r hr hlive e'
      rw [hown]
      exact hring.live_top e r (hback e _ r hr) hlive e'
    · intro e r hr hlive e' row'
      rw [hown]
      exact hring.live_prior e r (hback e _ r hr) hlive e' row'
    · exact fun e r hr => hring.prior_lt e r (hback e _ r hr)
    · intro e r hr hlive
      rw [hown]
      exact hring.acking e r (hback e _ r hr) hlive
    · rw [hepoch, hown]
      intro hcur
      rcases hring.current hcur with htop | ⟨e, r, hr, hl⟩
      · exact Or.inl (fun e he => htop e (hown e ▸ he))
      · exact Or.inr ⟨e, r, hforth e _ r hr hl, hl⟩
  · exact fun e r hr hlive => ⟨r, hback e _ r hr, hlive, rfl⟩
  · intro hb
    refine ⟨?_, ?_, fun e role r hr => hb.rotations e role r (hback e role r hr)⟩
    · intro e row hrow
      rw [hkeys] at hrow
      exact hb.rows e row (Option.filter_eq_some_iff.mp hrow).1
    · intro key
      rw [hpeer]
      exact hb.peer key

section removed

variable {s s' : Side} {epoch n : Nat}

theorem Removed.isSome (h : Removed s epoch s') {e : Nat} (he : (s'.ownRow e).isSome = true) :
    e ≠ epoch ∧ (s.ownRow e).isSome = true := by
  rw [h.ownRow] at he
  split_ifs at he with heq
  · cases he
  · exact ⟨heq, he⟩

theorem Removed.ring (h : Removed s epoch s') (hring : Ring s.toKeys)
    (hlive : ∀ e role r, s'.rotation e role = some r → r.live = true →
      s.rotation e role = some r ∧ (role = .rotating → e ≠ epoch))
    (hprior : ∀ e r, s'.rotation e .rotating = some r → r.prior_epoch < e)
    (hcurrent : (s'.ownRow s.key_epoch).isSome = true →
      (∀ e, (s'.ownRow e).isSome = true → e ≤ s.key_epoch) ∨
        ∃ e r, s'.rotation e .rotating = some r ∧ r.live = true) :
    Ring s'.toKeys := by
  have hown : ∀ e row, s'.ownRow e = some row → e ≠ epoch ∧ s.ownRow e = some row := by
    intro e row hrow
    rw [h.ownRow] at hrow
    split_ifs at hrow with heq
    exact ⟨heq, hrow⟩
  refine ⟨?_, ?_, ?_, ?_, ?_, hprior, ?_, ?_⟩
  · intro e row hrow
    obtain ⟨hne, hrow⟩ := hown e row hrow
    obtain ⟨href, f, hf, hkey⟩ := hring.file e row hrow
    refine ⟨href, f, ?_, hkey⟩
    rw [h.key_files e ?_]
    · exact hf
    · intro old hold hfile
      rw [(hring.file epoch old hold).1] at hfile
      exact hne (KeyRef.file.inj hfile).symm
  · intro e₁ e₂ e₃ h₁ h₂ h₃
    exact hring.two e₁ e₂ e₃ (h.isSome h₁).2 (h.isSome h₂).2 (h.isSome h₃).2
  · intro e r hr hl
    obtain ⟨hr, hne⟩ := hlive e _ r hr hl
    rw [h.ownRow, if_neg (hne rfl)]
    exact hring.live_key e r hr hl
  · intro e r hr hl e' he'
    exact hring.live_top e r (hlive e _ r hr hl).1 hl e' (h.isSome he').2
  · intro e r hr hl e' row' hrow'
    exact hring.live_prior e r (hlive e _ r hr hl).1 hl e' row' (hown e' row' hrow').2
  · intro e r hr hl
    rw [h.ownRow]
    split_ifs
    · rfl
    · exact hring.acking e r (hlive e _ r hr hl).1 hl
  · rw [h.key_epoch]
    exact hcurrent

theorem Removed.below (h : Removed s epoch s') (hb : Below n s.toKeys)
    (hrots : ∀ e role r, s'.rotation e role = some r → r.new_public_key.half.seed < n) :
    Below n s'.toKeys where
  rows := by
    intro e row hrow
    rw [h.key_epochs] at hrow
    exact hb.rows e row (Option.filter_eq_some_iff.mp hrow).1
  peer := by
    intro key
    rw [h.peer_agreement_key]
    exact hb.peer key
  rotations := hrots

end removed

theorem sweepTimeout_tame (s : Side) (now n : Nat) :
    Tame n s.toKeys (sweepTimeout s now).1.toKeys := by
  rcases sweepTimeout_cases s now with h | ⟨r₀, hr₀, hphase, hrem, hrots⟩
  · rw [h]
    exact .refl n _
  set s' := (sweepTimeout s now).1
  have hlive₀ : r₀.live = true := by simp [Rotation.live, hphase]
  have hlive : ∀ e role r, s'.rotation e role = some r → r.live = true →
      s.rotation e role = some r ∧ (role = .rotating → e ≠ r₀.epoch) := by
    intro e role r hr hl
    rw [hrots] at hr
    split_ifs at hr with hkey
    · cases hr
      simp [Rotation.live] at hl
    · exact ⟨hr, fun hrole heq => hkey (by rw [hrole, heq])⟩
  refine ⟨?_, fun e r hr hl => ⟨r, (hlive e _ r hr hl).1, hl, rfl⟩, ?_⟩
  · intro hring
    refine hrem.ring hring hlive ?_ ?_
    · intro e r hr
      rw [hrots] at hr
      split_ifs at hr with hkey
      · cases hr
        obtain ⟨rfl, -⟩ := Prod.mk.inj hkey
        exact hring.prior_lt _ r₀ hr₀
      · exact hring.prior_lt e r hr
    · intro hcur
      obtain ⟨hne, hown⟩ := hrem.isSome hcur
      left
      intro e he
      obtain ⟨hne', hown'⟩ := hrem.isSome he
      -- Both are below the discarded candidate, so they are the same key.
      have hlt : s.key_epoch < r₀.epoch :=
        lt_of_le_of_ne (hring.live_top _ r₀ hr₀ hlive₀ _ hown) hne
      have hlt' : e < r₀.epoch := lt_of_le_of_ne (hring.live_top _ r₀ hr₀ hlive₀ _ hown') hne'
      obtain ⟨row, hrow, -⟩ := hring.live_key _ r₀ hr₀ hlive₀
      by_contra hgt
      exact hring.two _ _ _ hown hown' (Option.isSome_of_eq_some hrow) (not_le.mp hgt) hlt'
  · intro hb
    refine hrem.below hb ?_
    intro e role r hr
    rw [hrots] at hr
    split_ifs at hr
    · cases hr
      exact hb.rotations _ _ r₀ hr₀
    · exact hb.rotations e role r hr

theorem sweepRetire_tame (s : Side) (row : Rotation) (now n : Nat)
    (hrow : s.rotation row.epoch .rotating = some row) :
    Tame n s.toKeys (sweepRetire s row now).1.toKeys := by
  rcases sweepRetire_cases s row now with h | ⟨hnew, hrem, hrots⟩
  · rw [h]
    exact .refl n _
  set s' := (sweepRetire s row now).1
  have hback : ∀ e role r, s'.rotation e role = some r → s.rotation e role = some r := by
    intro e role r hr
    rw [hrots] at hr
    split_ifs at hr
    · exact (Option.filter_eq_some_iff.mp hr).1
    · exact hr
  have hforth : ∀ e r, s.rotation e .rotating = some r → r.live = true →
      s'.rotation e .rotating = some r := by
    intro e r hr hl
    rw [hrots, hr]
    split_ifs
    · simp [Option.filter, (Rotation.live_iff.mp hl).1]
    · rfl
  refine ⟨?_, fun e r hr hl => ⟨r, hback e _ r hr, hl, rfl⟩, ?_⟩
  · intro hring
    refine hrem.ring hring ?_ (fun e r hr => hring.prior_lt e r (hback e _ r hr)) ?_
    · intro e role r hr hl
      refine ⟨hback e role r hr, ?_⟩
      rintro rfl
      have hle := hring.live_top e r (hback e _ r hr) hl _ hnew
      have hlt := hring.prior_lt _ row hrow
      omega
    · intro hcur
      rcases hring.current (hrem.isSome hcur).2 with htop | ⟨e, r, hr, hl⟩
      · exact Or.inl (fun e he => htop e (hrem.isSome he).2)
      · exact Or.inr ⟨e, r, hforth e r hr hl, hl⟩
  · exact fun hb => hrem.below hb (fun e role r hr => hb.rotations e role r (hback e role r hr))

/-! ## Beginning -/

theorem Begun.ring {s s' : Side} {now : Nat} {priv : PrivateKey} {id : Option EventId}
    {epoch : Nat} {prepare : Prepare} {prior : KeyRow}
    (h : Begun s now priv id s' epoch prepare prior) (hring : Ring s.toKeys)
    (hone : ∀ e e', (s.ownRow e).isSome = true → (s.ownRow e').isSome = true → e = e') :
    Ring s'.toKeys := by
  have hlt : ∀ e, (s.ownRow e).isSome = true → e < epoch := by
    intro e he
    obtain ⟨row, hrow⟩ := Option.isSome_iff_exists.mp he
    have hle := le_currentEpoch (ownRow_eq_some.mp hrow).1
    have heq := h.epoch_eq
    omega
  have hown : ∀ e, s'.ownRow e =
      if e = epoch then some ⟨epoch, priv.publicKey, .file epoch⟩ else s.ownRow e := by
    intro e
    unfold Keys.ownRow
    rw [h.key_epochs]
    split_ifs <;> rfl
  have hold : ∀ e, (s'.ownRow e).isSome = true → e = epoch ∨ (s.ownRow e).isSome = true := by
    intro e he
    rw [hown] at he
    split_ifs at he with heq
    · exact Or.inl heq
    · exact Or.inr he
  have hidle := inFlight_eq_none.mp h.idle
  have hprior : (s.ownRow prior.epoch).isSome = true := Option.isSome_of_eq_some h.prior_own
  have hlive : ∀ e r, s'.rotation e .rotating = some r → r.live = true →
      e = epoch ∧ r = candidateRow epoch prior now priv id := by
    intro e r hr hl
    rw [h.rotation] at hr
    split_ifs at hr with hkey
    · exact ⟨(Prod.mk.inj hkey).1, (Option.some.inj hr).symm⟩
    · rw [hidle e _ r hr] at hl
      cases hl
  refine ⟨?_, ?_, ?_, ?_, ?_, ?_, ?_, ?_⟩
  · intro e row hrow
    rw [hown] at hrow
    split_ifs at hrow with heq
    · cases hrow
      exact ⟨by rw [heq], ⟨epoch, priv⟩, by rw [h.key_files, if_pos heq], rfl⟩
    · obtain ⟨href, f, hf, hkey⟩ := hring.file e row hrow
      exact ⟨href, f, by rw [h.key_files, if_neg heq]; exact hf, hkey⟩
  · intro e₁ e₂ e₃ h₁ h₂ h₃ h₁₂ h₂₃
    rcases hold e₃ h₃ with rfl | h₃
    · rcases hold e₂ h₂ with rfl | h₂
      · exact absurd h₂₃ (lt_irrefl _)
      · rcases hold e₁ h₁ with rfl | h₁
        · exact absurd (h₁₂.trans h₂₃) (lt_irrefl _)
        · exact absurd (hone e₁ e₂ h₁ h₂) h₁₂.ne
    · have hb := hlt e₃ h₃
      rcases hold e₂ h₂ with rfl | h₂
      · exact absurd h₂₃ (not_lt_of_gt hb)
      · exact absurd (hone e₂ e₃ h₂ h₃) h₂₃.ne
  · intro e r hr hl
    obtain ⟨rfl, rfl⟩ := hlive e r hr hl
    exact ⟨_, (hown _).trans (if_pos rfl), rfl⟩
  · intro e r hr hl e' he'
    obtain ⟨rfl, -⟩ := hlive e r hr hl
    rcases hold e' he' with rfl | he'
    · exact le_rfl
    · exact (hlt e' he').le
  · intro e r hr hl e' row' hrow' hne
    obtain ⟨rfl, rfl⟩ := hlive e r hr hl
    rw [hown, if_neg hne] at hrow'
    have heq := hone e' prior.epoch (Option.isSome_of_eq_some hrow') hprior
    rw [heq, h.prior_own] at hrow'
    cases hrow'
    rfl
  · intro e r hr
    rw [h.rotation] at hr
    split_ifs at hr with hkey
    · cases hr
      rw [(Prod.mk.inj hkey).1]
      exact hlt prior.epoch hprior
    · exact hring.prior_lt e r hr
  · intro e r hr hl
    rw [h.rotation, if_neg (by simp)] at hr
    rw [hidle e _ r hr] at hl
    cases hl
  · intro _
    exact Or.inr ⟨epoch, _, (h.rotation _ _).trans (if_pos rfl), rfl⟩

theorem Begun.below {s s' : Side} {now n : Nat} {id : Option EventId} {epoch : Nat}
    {prepare : Prepare} {prior : KeyRow} (h : Begun s now ⟨n⟩ id s' epoch prepare prior)
    (hb : Below n s.toKeys) : Below (n + 1) s'.toKeys where
  rows := by
    intro e row hrow
    rw [h.key_epochs] at hrow
    split_ifs at hrow
    · cases hrow
      exact Nat.lt_succ_self n
    · exact Nat.lt_succ_of_lt (hb.rows e row hrow)
  peer := by
    intro key
    rw [h.peer_agreement_key]
    exact fun hkey => Nat.lt_succ_of_lt (hb.peer key hkey)
  rotations := by
    intro e role r hr
    rw [h.rotation] at hr
    split_ifs at hr
    · cases hr
      exact Nat.lt_succ_self n
    · exact Nat.lt_succ_of_lt (hb.rotations e role r hr)

/-- A `begin_rotation` that raises leaves the ring. -/
theorem OnlyFile.tame {s s' : Side} {n : Nat} (h : OnlyFile s (s.currentEpoch + 1) s') :
    Tame n s.toKeys s'.toKeys where
  ring := by
    intro hring
    have hown := ownRow_congr h.key_epochs
    have hrot : ∀ e role, s'.rotation e role = s.rotation e role := by
      intro e role
      simp [Keys.rotation, h.key_rotations]
    refine ⟨?_, ?_, ?_, ?_, ?_, ?_, ?_, ?_⟩
    · intro e row hrow
      rw [hown] at hrow
      obtain ⟨href, f, hf, hkey⟩ := hring.file e row hrow
      have hle := le_currentEpoch (ownRow_eq_some.mp hrow).1
      exact ⟨href, f, (h.key_files e (by omega)).trans hf, hkey⟩
    · intro e₁ e₂ e₃
      rw [hown, hown, hown]
      exact hring.two e₁ e₂ e₃
    · intro e r
      rw [hrot, hown]
      exact hring.live_key e r
    · intro e r hr hl e'
      rw [hown]
      exact hring.live_top e r (hrot e _ ▸ hr) hl e'
    · intro e r hr hl e' row'
      rw [hown]
      exact hring.live_prior e r (hrot e _ ▸ hr) hl e' row'
    · exact fun e r hr => hring.prior_lt e r (hrot e _ ▸ hr)
    · intro e r
      rw [hrot, hown]
      exact hring.acking e r
    · rw [h.key_epoch, hown]
      intro hcur
      rcases hring.current hcur with htop | ⟨e, r, hr, hl⟩
      · exact Or.inl (fun e he => htop e (hown e ▸ he))
      · exact Or.inr ⟨e, r, (hrot e _).trans hr, hl⟩
  live := by
    intro e r hr hl
    refine ⟨r, ?_, hl, rfl⟩
    simpa [Keys.rotation, h.key_rotations] using hr
  below := by
    intro hb
    refine ⟨?_, ?_, ?_⟩
    · intro e row
      rw [h.key_epochs]
      exact hb.rows e row
    · intro key
      rw [h.peer_agreement_key]
      exact hb.peer key
    · intro e role r hr
      exact hb.rotations e role r (by simpa [Keys.rotation, h.key_rotations] using hr)

end RotationManager

end MuseAgentSocial.Crypto
