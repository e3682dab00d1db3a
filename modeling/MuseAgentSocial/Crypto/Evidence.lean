import MuseAgentSocial.Crypto.Resolution

/-!
# The evidence of a rotation

`build_confirm_payload` asks for `new_wrap_seen`, the flag that a new-epoch
wrap was decrypted.  This file says which calls on one side can set it.

* `Inherits` is what every call but `begin_rotation` does to the rotations in
  flight: each was in flight before, for the same key, and its flag was set
  before or comes from a signal for its epoch.
* `KeysOnly` is what most calls do to the rest of the store: nothing.
* `ParkedFrom` is what every call but `note_decrypted_new_wrap` does to the
  parked signals: it adds none.

So the flag of a candidate comes from `note_decrypted_new_wrap`, at once or
through a parked signal, and from nothing else.
-/

namespace MuseAgentSocial.Crypto

open Model RotationManager Keys

/-- A decrypt signal of the epoch is parked in `rotation_wrap_seen_pending`. -/
def Parked (s : Side) (epoch : Nat) : Prop := (s.rotation_wrap_seen_pending.find epoch).isSome = true

instance (s : Side) (epoch : Nat) : Decidable (Parked s epoch) := inferInstanceAs (Decidable (_ = true))

/-- The key file of a candidate, when it is there, is the private half of the
key that the rotation announced. -/
def Announced (k : Keys) : Prop :=
  ∀ e r priv, k.rotation e .rotating = some r → r.live = true → k.privateKey e = some priv →
    priv.publicKey = r.new_public_key

/-- The own keys were there before, and so were the rotations in flight, with
their flags up to a signal. -/
structure Inherits (signal : Nat → Prop) (k k' : Keys) : Prop where
  privateKey : ∀ e priv, k'.privateKey e = some priv → k.privateKey e = some priv
  row : ∀ e r', k'.rotation e .rotating = some r' → r'.live = true →
    ∃ r, k.rotation e .rotating = some r ∧ r.live = true ∧ r'.new_public_key = r.new_public_key ∧
      (r'.new_wrap_seen = true → r.new_wrap_seen = true ∨ signal e)

namespace Inherits

variable {signal : Nat → Prop} {k k' k'' : Keys}

theorem refl (signal : Nat → Prop) (k : Keys) : Inherits signal k k where
  privateKey := fun _ _ h => h
  row := fun _ r hr hl => ⟨r, hr, hl, rfl, Or.inl⟩

theorem of_eq (h : k' = k) : Inherits signal k k' := h ▸ refl signal k

theorem trans (h : Inherits signal k k') (h' : Inherits signal k' k'') : Inherits signal k k'' where
  privateKey := fun e priv hpriv => h.privateKey e priv (h'.privateKey e priv hpriv)
  row := by
    intro e r'' hr'' hl''
    obtain ⟨r', hr', hl', hkey', hseen'⟩ := h'.row e r'' hr'' hl''
    obtain ⟨r, hr, hl, hkey, hseen⟩ := h.row e r' hr' hl'
    refine ⟨r, hr, hl, hkey'.trans hkey, fun hflag => ?_⟩
    cases hseen' hflag with
    | inl hflag' => exact hseen hflag'
    | inr hsignal => exact Or.inr hsignal

/-- The file of a candidate stays the one of the announced key. -/
theorem announced (h : Inherits signal k k') (ha : Announced k) : Announced k' := by
  intro e r' priv hr' hl' hpriv
  obtain ⟨r, hr, hl, hkey, -⟩ := h.row e r' hr' hl'
  rw [hkey]
  exact ha e r priv hr hl (h.privateKey e priv hpriv)

end Inherits

theorem of_privateKey_eq_some {k : Keys} {e : Nat} {priv : PrivateKey} (h : k.privateKey e = some priv) :
    ∃ row path f, k.ownRow e = some row ∧ row.private_key_ref = .file path ∧
      k.key_files.find path = some f ∧ f.key = priv := by
  unfold Keys.privateKey at h
  split at h
  · rename_i row epoch pub path hrow
    obtain ⟨f, hf, hkey⟩ := Option.map_eq_some_iff.mp h
    exact ⟨_, path, f, hrow, rfl, hf, hkey⟩
  · cases h

theorem OwnFrom.privateKey {s s' : Side} (h : OwnFrom s s')
    (hfiles : ∀ e row path, s'.ownRow e = some row → row.private_key_ref = .file path →
      s'.key_files.find path = s.key_files.find path)
    (e : Nat) (priv : PrivateKey) (hpriv : s'.privateKey e = some priv) : s.privateKey e = some priv := by
  obtain ⟨row, path, f, hrow, href, hf, rfl⟩ := of_privateKey_eq_some hpriv
  apply privateKey_eq_some (h e row hrow) href
  rw [← hfiles e row path hrow href]
  exact hf

namespace RotationManager

section

variable {s s' : Side} {signal : Nat → Prop}

/-! ## Updates of one row -/

theorem inherits_updateRotation {e : Nat} {role : Role} {f : Rotation → Rotation}
    {hf : ∀ r, (f r).key = r.key}
    (h : ∀ r, role = .rotating → s.rotation e role = some r → (f r).live = true →
      r.live = true ∧ (f r).new_public_key = r.new_public_key ∧
        ((f r).new_wrap_seen = true → r.new_wrap_seen = true ∨ signal e)) :
    Inherits signal s.toKeys (s.updateRotation e role f hf).toKeys where
  privateKey := fun _ _ hpriv => hpriv
  row := by
    intro e' r' hr' hl'
    rw [rotation_updateRotation] at hr'
    split_ifs at hr' with hkey
    · cases hkey
      obtain ⟨r, hr, rfl⟩ := Option.map_eq_some_iff.mp hr'
      obtain ⟨hl, hpub, hseen⟩ := h r rfl hr hl'
      exact ⟨r, hr, hl, hpub, hseen⟩
    · exact ⟨r', hr', hl', rfl, Or.inl⟩

theorem consumePendingWrapSeen_inherits (s : Side) (hsignal : ∀ e, Parked s e → signal e) (e : Nat) :
    Inherits signal s.toKeys (consumePendingWrapSeen s e).toKeys := by
  unfold consumePendingWrapSeen
  split_ifs with hparked
  · show Inherits signal s.toKeys (s.updateRotation e .rotating _ _).toKeys
    refine inherits_updateRotation (fun r _ _ hl => ?_)
    split_ifs at hl ⊢ with hlive
    · exact ⟨hlive, rfl, fun _ => Or.inr (hsignal e hparked)⟩
    · exact absurd hl hlive
  · exact .refl _ _

theorem onAck_inherits (hsignal : ∀ e, Parked s e → signal e) (ack : Ack) (now : Nat) :
    Inherits signal s.toKeys (onAck s ack now).1.toKeys := by
  unfold onAck
  cases hrot : s.rotation ack.epoch .rotating with
  | none => exact .refl _ _
  | some r =>
    dsimp only
    split_ifs with hid hacked hcand hlate
    · exact .refl _ _
    · exact consumePendingWrapSeen_inherits s hsignal ack.epoch
    · exact .refl _ _
    · exact .refl _ _
    · refine Inherits.trans ?_ (consumePendingWrapSeen_inherits _ ?_ _)
      · refine inherits_updateRotation (fun r₀ _ hr₀ _ => ⟨?_, rfl, Or.inl⟩)
        obtain rfl : r = r₀ := Option.some.inj (hrot.symm.trans hr₀)
        simp [Rotation.live, not_not.mp hcand]
      · -- The update leaves the parked signals alone.
        exact hsignal

theorem noteDecryptedNewWrap_inherits {epoch : Nat} (hsignal : signal epoch) (now : Nat) :
    Inherits signal s.toKeys (noteDecryptedNewWrap s epoch now).toKeys := by
  unfold noteDecryptedNewWrap
  split_ifs
  · exact inherits_updateRotation (fun r _ _ hl => ⟨hl, rfl, fun _ => Or.inr hsignal⟩)
  · exact .refl _ s.toKeys

theorem noteAcceptedEvent_inherits : Inherits signal s.toKeys (noteAcceptedEvent s).toKeys := by
  refine inherits_updateRotation (fun r _ _ hl => ?_)
  split_ifs at hl ⊢ with hcommitted
  · exact ⟨hl, rfl, Or.inl⟩
  · exact ⟨hl, rfl, Or.inl⟩

theorem markConfirmed_inherits (now : Nat) : Inherits signal s.toKeys (markConfirmed s now).1.toKeys := by
  unfold markConfirmed
  cases hrot : s.inFlightAs .rotating with
  | none => exact .refl _ _
  | some r =>
    dsimp only
    split_ifs with hdone hacked
    · exact .refl _ _
    · exact .refl _ _
    · refine inherits_updateRotation (fun r₀ _ hr₀ _ => ⟨?_, rfl, Or.inl⟩)
      obtain rfl : r = r₀ := Option.some.inj ((rotation_of_inFlightAs hrot).1.symm.trans hr₀)
      exact (rotation_of_inFlightAs hrot).2

theorem onConfirm_inherits (epoch now : Nat) : Inherits signal s.toKeys (onConfirm s epoch now).1.toKeys := by
  unfold onConfirm
  cases s.rotation epoch .acking with
  | none => exact .refl _ _
  | some r =>
    dsimp only
    split_ifs
    · exact .refl _ _
    · exact .refl _ _
    · exact inherits_updateRotation (fun _ hrole => by cases hrole)

/-! ## Commits, prepares and sweeps -/

theorem CommitsRow.inherits {epoch : Nat} {role : Role} {r₀ r₁ : Rotation} (h : CommitsRow s epoch role r₀ r₁ s') :
    Inherits signal s.toKeys s'.toKeys where
  privateKey := (OwnFrom.of_key_epochs h.key_epochs).privateKey (fun _ _ _ _ _ => by rw [h.key_files])
  row := by
    intro e r' hr' hl'
    rw [h.rotation] at hr'
    split_ifs at hr'
    · obtain rfl := Option.some.inj hr'
      simp [Rotation.live, h.committed] at hl'
    · exact ⟨r', hr', hl', rfl, Or.inl⟩

theorem onCommit_inherits (epoch now : Nat) : Inherits signal s.toKeys (onCommit s epoch now).1.toKeys := by
  rcases onCommit_cases s epoch now with hsame | ⟨r₀, r₁, hcommits, -⟩
  · exact .of_eq (congrArg Side.toKeys hsame)
  · exact hcommits.inherits

theorem markCommitted_inherits (now : Nat) : Inherits signal s.toKeys (markCommitted s now).1.toKeys := by
  rcases markCommitted_cases s now with hsame | ⟨r₀, r₁, hcommits, -⟩
  · exact .of_eq (congrArg Side.toKeys hsame)
  · exact hcommits.inherits

theorem onPrepare_inherits (prepare : Prepare) (id : EventId) (now : Nat) :
    Inherits signal s.toKeys (onPrepare s prepare id now).1.toKeys := by
  rcases onPrepare_cases s prepare id now with ⟨hsame, -⟩ | ⟨prior, -, hack⟩
  · exact .of_eq hsame
  · refine ⟨(onPrepare_ownFrom s prepare id now).privateKey (fun _ _ _ _ _ => by rw [hack.key_files]), ?_⟩
    intro e r' hr' hl'
    rw [hack.rotation, if_neg (by simp)] at hr'
    exact ⟨r', hr', hl', rfl, Or.inl⟩

theorem sweepCompact_inherits (now : Nat) : Inherits signal s.toKeys (sweepCompact s now).1.toKeys := by
  rcases sweepCompact_cases s now with hsame | ⟨-, -, hfiles, -, hrots⟩
  · exact .of_eq (congrArg Side.toKeys hsame)
  · refine ⟨(sweepCompact_ownFrom s now).privateKey (fun _ _ _ _ _ => by rw [hfiles]), ?_⟩
    intro e r' hr' hl'
    rw [hrots] at hr'
    exact ⟨r', (Option.filter_eq_some_iff.mp hr').1, hl', rfl, Or.inl⟩

theorem Removed.inherits {epoch : Nat} (h : Removed s epoch s') (hn : Named s.toKeys)
    (hrots : ∀ e r', s'.rotation e .rotating = some r' → r'.live = true → s.rotation e .rotating = some r') :
    Inherits signal s.toKeys s'.toKeys where
  privateKey := by
    apply h.ownFrom.privateKey
    intro e row path hrow href
    apply h.key_files
    intro gone hgone hpath
    rw [h.ownRow] at hrow
    split_ifs at hrow with hne
    have hnamed : row.private_key_ref = .file e := hn e row hrow
    have hnamed' : gone.private_key_ref = .file epoch := hn epoch gone hgone
    rw [href] at hnamed
    rw [hpath] at hnamed'
    exact hne (KeyRef.file.inj (hnamed.symm.trans hnamed'))
  row := fun e r' hr' hl' => ⟨r', hrots e r' hr' hl', hl', rfl, Or.inl⟩

theorem sweepTimeout_inherits (hn : Named s.toKeys) (now : Nat) :
    Inherits signal s.toKeys (sweepTimeout s now).1.toKeys := by
  rcases sweepTimeout_cases s now with hsame | ⟨r, -, -, hremoved, hrots⟩
  · exact .of_eq (congrArg Side.toKeys hsame)
  · refine hremoved.inherits hn (fun e r' hr' hl' => ?_)
    rw [hrots] at hr'
    split_ifs at hr'
    · obtain rfl := Option.some.inj hr'
      simp [Rotation.live] at hl'
    · exact hr'

theorem sweepRetire_inherits (hn : Named s.toKeys) (row : Rotation) (now : Nat) :
    Inherits signal s.toKeys (sweepRetire s row now).1.toKeys := by
  rcases sweepRetire_cases s row now with hsame | ⟨-, hremoved, hrots⟩
  · exact .of_eq (congrArg Side.toKeys hsame)
  · refine hremoved.inherits hn (fun e r' hr' _ => ?_)
    rw [hrots] at hr'
    split_ifs at hr'
    · exact (Option.filter_eq_some_iff.mp hr').1
    · exact hr'

theorem OnlyFile.inherits (h : OnlyFile s (s.currentEpoch + 1) s') (hn : Named s.toKeys) :
    Inherits signal s.toKeys s'.toKeys where
  privateKey := by
    apply (OwnFrom.of_key_epochs h.key_epochs).privateKey
    intro e row path hrow href
    rw [ownRow_congr h.key_epochs] at hrow
    have hnamed : row.private_key_ref = .file e := hn e row hrow
    rw [href] at hnamed
    have hle := le_currentEpoch (ownRow_eq_some.mp hrow).1
    apply h.key_files
    rw [KeyRef.file.inj hnamed]
    omega
  row := by
    intro e r' hr' hl'
    rw [Keys.rotation, h.key_rotations] at hr'
    exact ⟨r', hr', hl', rfl, Or.inl⟩

/-- The row that `begin_rotation` inserts has its key in its file. -/
theorem Begun.announced {now epoch : Nat} {priv : PrivateKey} {id : Option EventId} {prepare : Prepare}
    {prior : KeyRow} (h : Begun s now priv id s' epoch prepare prior) : Announced s'.toKeys := by
  intro e r held hr hl hheld
  rw [h.rotation] at hr
  split_ifs at hr with hkey
  · obtain rfl := Option.some.inj hr
    obtain ⟨rfl, -⟩ := Prod.mk.inj hkey
    have hrow : s'.ownRow e = some ⟨e, priv.publicKey, .file e⟩ :=
      ownRow_eq_some.mpr ⟨by rw [h.key_epochs, if_pos rfl], rfl⟩
    have hfile : s'.key_files.find e = some ⟨e, priv⟩ := by rw [h.key_files, if_pos rfl]
    obtain rfl : priv = held := Option.some.inj ((privateKey_eq_some hrow rfl hfile).symm.trans hheld)
    rfl
  · -- Nothing else is in flight.
    rw [inFlight_eq_none.mp h.idle e _ r hr] at hl
    cases hl

end

/-! ## The parked signals -/

/-- Every parked signal was parked before. -/
def ParkedFrom (s s' : Side) : Prop := ∀ e, Parked s' e → Parked s e

theorem ParkedFrom.of_eq {s s' : Side} (h : s'.rotation_wrap_seen_pending = s.rotation_wrap_seen_pending) :
    ParkedFrom s s' := by
  intro e he
  rw [Parked, ← h]
  exact he

theorem ParkedFrom.trans {s₁ s₂ s₃ : Side} (h : ParkedFrom s₁ s₂) (h' : ParkedFrom s₂ s₃) : ParkedFrom s₁ s₃ :=
  fun e he => h e (h' e he)

/-- A signal that is left after a delete was there before. -/
theorem parked_of_delete {s s' : Side} {p : WrapSeen → Bool}
    (h : s'.rotation_wrap_seen_pending = s.rotation_wrap_seen_pending.delete p) : ParkedFrom s s' := by
  intro e he
  rw [Parked, h, Table.find_delete] at he
  obtain ⟨w, hw⟩ := Option.isSome_iff_exists.mp he
  exact Option.isSome_of_eq_some (Option.filter_eq_some_iff.mp hw).1

/-! ## Calls that change keys and rotations only -/

/-- Everything but the keys, their files and the rotations is as before. -/
def KeysOnly (s s' : Side) : Prop := s' = { s with toKeys := s'.toKeys }

theorem KeysOnly.refl (s : Side) : KeysOnly s s := rfl

theorem KeysOnly.trans {s₁ s₂ s₃ : Side} (h : KeysOnly s₁ s₂) (h' : KeysOnly s₂ s₃) : KeysOnly s₁ s₃ := by
  unfold KeysOnly at h h' ⊢
  rw [h', h]

theorem KeysOnly.parked {s s' : Side} (h : KeysOnly s s') : ParkedFrom s s' := by
  unfold KeysOnly at h
  exact .of_eq (by rw [h])

theorem deletePrivateKey_keysOnly (s : Side) (ref : KeyRef) : KeysOnly s (s.deletePrivateKey ref) := by
  cases ref <;> rfl

theorem KeysOnly.deletePrivateKey {s s' : Side} (h : KeysOnly s s') (ref : KeyRef) :
    KeysOnly s (s'.deletePrivateKey ref) :=
  h.trans (deletePrivateKey_keysOnly s' ref)

theorem storePrivateKey_keysOnly {s s' : Side} {path : Nat} {priv : PrivateKey}
    (h : s.storePrivateKey path priv = some s') : KeysOnly s s' := by
  obtain ⟨files, -, rfl⟩ := Option.map_eq_some_iff.mp h
  rfl

theorem storeCandidateKey_keysOnly {s s' : Side} {epoch path : Nat} {priv : PrivateKey}
    (h : storeCandidateKey s epoch path priv = .ok s') : KeysOnly s s' := by
  unfold storeCandidateKey at h
  split at h
  · rename_i stored hstored
    cases h
    exact storePrivateKey_keysOnly hstored
  split at h
  · cases h
  rename_i wiped hwiped
  split at h
  · rename_i stored hstored
    cases h
    unfold reconcileOrphanKeyFile at hwiped
    split_ifs at hwiped
    cases hwiped
    exact (deletePrivateKey_keysOnly s _).trans (storePrivateKey_keysOnly hstored)
  · cases h

theorem recordCandidate_keysOnly {s s' : Side} {keyRow : KeyRow} {row : Rotation}
    (h : recordCandidate s keyRow row = some s') : KeysOnly s s' := by
  unfold recordCandidate at h
  split at h
  · cases h
  dsimp only at h
  split at h
  · cases h
  · cases h
    rfl

theorem beginRotation_keysOnly (s : Side) (now : Nat) (priv : PrivateKey) (id : Option EventId) :
    KeysOnly s (beginRotation s now priv id).1 := by
  unfold beginRotation
  split
  · exact .refl s
  split
  · exact .refl s
  dsimp only
  split
  · exact .refl s
  split
  · exact .refl s
  rename_i stored hstored
  split
  · exact (storeCandidateKey_keysOnly hstored).deletePrivateKey (.file (s.currentEpoch + 1))
  · rename_i begun hbegun
    exact (storeCandidateKey_keysOnly hstored).trans (recordCandidate_keysOnly hbegun)

theorem noteAcceptedEvent_keysOnly (s : Side) : KeysOnly s (noteAcceptedEvent s) := rfl

theorem markConfirmed_keysOnly (s : Side) (now : Nat) : KeysOnly s (markConfirmed s now).1 := by
  unfold markConfirmed
  split
  · exact .refl s
  · split_ifs <;> rfl

theorem onConfirm_keysOnly (s : Side) (epoch now : Nat) : KeysOnly s (onConfirm s epoch now).1 := by
  unfold onConfirm
  split
  · exact .refl s
  · split_ifs <;> rfl

theorem onCommit_keysOnly (s : Side) (epoch now : Nat) : KeysOnly s (onCommit s epoch now).1 := by
  unfold onCommit
  split
  · split_ifs <;> rfl
  · split_ifs <;> rfl

theorem markCommitted_keysOnly (s : Side) (now : Nat) : KeysOnly s (markCommitted s now).1 := by
  unfold markCommitted
  split
  · split_ifs <;> rfl
  · split_ifs <;> rfl

theorem sweepTimeout_keysOnly (s : Side) (now : Nat) : KeysOnly s (sweepTimeout s now).1 := by
  unfold sweepTimeout
  split
  · exact .refl s
  · unfold discardCandidate
    split_ifs
    · exact .refl s
    · cases s.ownRow _ with
      | none => rfl
      | some row => exact KeysOnly.deletePrivateKey (by rfl) _
    · exact .refl s

theorem sweepRetire_keysOnly (s : Side) (row : Rotation) (now : Nat) : KeysOnly s (sweepRetire s row now).1 := by
  unfold sweepRetire
  split
  · exact .refl s
  · split
    · split
      · exact .refl s
      · dsimp only
        split
        · rfl
        · split
          · exact .refl s
          · exact KeysOnly.deletePrivateKey (by rfl) _
    · exact .refl s

/-! ## Calls that touch the parked signals -/

theorem consumePendingWrapSeen_parked (s : Side) (e : Nat) : ParkedFrom s (consumePendingWrapSeen s e) := by
  unfold consumePendingWrapSeen
  split_ifs
  · exact parked_of_delete rfl
  · exact .of_eq rfl

theorem onAck_parked (s : Side) (ack : Ack) (now : Nat) : ParkedFrom s (onAck s ack now).1 := by
  unfold onAck
  split
  · exact .of_eq rfl
  · dsimp only
    split_ifs
    · exact .of_eq rfl
    · exact consumePendingWrapSeen_parked s _
    · exact .of_eq rfl
    · exact .of_eq rfl
    · exact ParkedFrom.trans (.of_eq rfl) (consumePendingWrapSeen_parked _ _)

/-- The one call that parks a signal. -/
theorem parked_of_noteDecryptedNewWrap {s : Side} {epoch now e : Nat}
    (h : Parked (noteDecryptedNewWrap s epoch now) e) : Parked s e ∨ e = epoch := by
  unfold noteDecryptedNewWrap at h
  split_ifs at h
  · exact Or.inl h
  · by_cases he : e = epoch
    · exact Or.inr he
    · refine Or.inl ?_
      rw [Parked, Table.find_insertOrIgnore, if_neg he, Table.find_delete] at h
      obtain ⟨w, hw⟩ := Option.isSome_iff_exists.mp h
      exact Option.isSome_of_eq_some (Option.filter_eq_some_iff.mp hw).1

theorem onPrepare_parked (s : Side) (prepare : Prepare) (id : EventId) (now : Nat) :
    ParkedFrom s (onPrepare s prepare id now).1 := by
  have hrecord : ∀ (t : Side) (e e' : Nat), ParkedFrom t (recordAckingRotation t e e' prepare id now) := by
    intro t e e'
    unfold recordAckingRotation
    dsimp only
    split_ifs <;> exact .of_eq rfl
  unfold onPrepare
  split
  · exact .of_eq rfl
  · dsimp only
    split
    · split_ifs
      · exact .of_eq rfl
      · exact hrecord _ _ _
    · unfold acceptPrepare
      dsimp only
      split_ifs
      · exact .of_eq rfl
      · exact .of_eq rfl
      · exact .of_eq rfl
      · exact .of_eq rfl
      · exact .of_eq rfl
      · exact .of_eq rfl
      · split
        · exact .of_eq rfl
        · exact ParkedFrom.trans (.of_eq rfl) (hrecord _ _ _)

theorem sweepCompact_parked (s : Side) (now : Nat) : ParkedFrom s (sweepCompact s now).1 := by
  unfold sweepCompact
  split_ifs
  · exact .of_eq rfl
  · exact parked_of_delete rfl

theorem onDataEventEpoch_parked (s : Side) (key_epoch now : Nat) :
    ParkedFrom s (onDataEventEpoch s key_epoch now).1 := by
  unfold onDataEventEpoch
  split
  · exact .of_eq rfl
  · dsimp only
    split <;> exact .of_eq rfl

end RotationManager

end MuseAgentSocial.Crypto
