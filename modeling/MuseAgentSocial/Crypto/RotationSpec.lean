import MuseAgentSocial.Crypto.Rotation

/-!
# What the rotation methods do to the keys

One statement for each method of `RotationManager`, about the keys and the
rotation rows it leaves.  Rows are looked up by their key, so an invariant
over the rows follows from the lookup of the updated row and of the others.

* `Keys.Evolves allowed k k'`: the method only moved phases, along `allowed`,
  and the key rows, the key files and the current epoch are as before.  Most
  methods are of this kind.
* The methods that do more have their own statement: `beginRotation_cases`,
  `onCommit_cases`, `markCommitted_cases`, `onPrepare_cases`,
  `sweepCompact_cases`, `sweepTimeout_cases` and `sweepRetire_cases`.
-/

namespace MuseAgentSocial.Crypto

open Model

/-! ## Lookups -/

/-- What is fixed when a rotation row is inserted. -/
structure Origin where
  epoch : Nat
  role : Role
  prior_epoch : Nat
  prior_fingerprint : Fingerprint
  new_public_key : AgreementKey
  prepare_event_id : Option EventId
  deadline : Nat

/-- The part of a row that no update changes. -/
def Rotation.origin (r : Rotation) : Origin :=
  ⟨r.epoch, r.role, r.prior_epoch, r.prior_fingerprint, r.new_public_key, r.prepare_event_id,
    r.deadline⟩

theorem Rotation.live_iff {r : Rotation} :
    r.live = true ↔ r.phase ≠ .committed ∧ r.phase ≠ .discarded := by
  simp [Rotation.live]

namespace Keys

variable {k : Keys}

variable {e : Nat} {role : Role} {row : KeyRow}

theorem rotation_eq_some {r : Rotation} :
    k.rotation e role = some r ↔ r ∈ k.key_rotations.rows ∧ r.epoch = e ∧ r.role = role := by
  simp [rotation, Table.find_eq_some, Rotation.key]

theorem inFlight_eq_none :
    k.inFlight = none ↔ ∀ e role r, k.rotation e role = some r → r.live = false := by
  simp only [inFlight, List.find?_eq_none, rotation_eq_some]
  constructor
  · intro h e role r hr
    simpa using h r hr.1
  · intro h r hr
    simpa using h r.epoch r.role r ⟨hr, rfl, rfl⟩

theorem rotation_of_inFlightAs {r : Rotation} (h : k.inFlightAs role = some r) :
    k.rotation r.epoch role = some r ∧ r.live = true := by
  have hp : r.role = role ∧ r.live = true := by simpa using List.find?_some h
  exact ⟨rotation_eq_some.mpr ⟨List.mem_of_find?_eq_some h, rfl, hp.1⟩, hp.2⟩

theorem inFlightAs_eq_none :
    k.inFlightAs role = none ↔ ∀ e r, k.rotation e role = some r → r.live = false := by
  simp only [inFlightAs, List.find?_eq_none, rotation_eq_some]
  constructor
  · intro h e r hr
    simpa [hr.2.2] using h r hr.1
  · intro h r hr
    simp only [decide_eq_true_eq, not_and]
    intro hrole
    simpa using h r.epoch r ⟨hr, rfl, hrole⟩

theorem ownRow_eq_some :
    k.ownRow e = some row ↔ k.key_epochs.find e = some row ∧ row.isOwn = true := by
  simp [ownRow, Option.filter_eq_some_iff]

theorem peerRow_eq_some :
    k.peerRow e = some row ↔ k.key_epochs.find e = some row ∧ row.isOwn = false := by
  simp [peerRow, Option.filter_eq_some_iff]

theorem mem_ownRows : row ∈ k.ownRows ↔ k.ownRow row.epoch = some row := by
  simp [ownRows, ownRow_eq_some, Table.find_eq_some]

theorem mem_peerRows : row ∈ k.peerRows ↔ k.peerRow row.epoch = some row := by
  simp [peerRows, peerRow_eq_some, Table.find_eq_some]

theorem epoch_of_ownRow (h : k.ownRow e = some row) : row.epoch = e :=
  Table.key_of_find (ownRow_eq_some.mp h).1

theorem mem_ownEpochs : e ∈ k.ownEpochs ↔ (k.ownRow e).isSome = true := by
  simp only [ownEpochs, List.mem_map, mem_ownRows, Option.isSome_iff_exists]
  constructor
  · rintro ⟨row, hrow, rfl⟩
    exact ⟨row, hrow⟩
  · rintro ⟨row, hrow⟩
    have he : row.epoch = e := epoch_of_ownRow hrow
    exact ⟨row, he.symm ▸ hrow, he⟩

theorem privateKey_eq_some {path : Nat} {f : KeyFile} (hrow : k.ownRow e = some row)
    (href : row.private_key_ref = .file path)
    (hfile : k.key_files.find path = some f) : k.privateKey e = some f.key := by
  obtain ⟨epoch, pub, ref⟩ := row
  cases href
  simp [privateKey, hrow, hfile]

theorem le_foldr_max {l : List Nat} {x : Nat} (h : x ∈ l) : x ≤ l.foldr max 0 := by
  induction l with
  | nil => cases h
  | cons y l ih =>
    rcases List.mem_cons.mp h with rfl | hx
    · exact le_max_left _ _
    · exact le_trans (ih hx) (le_max_right _ _)

theorem foldr_max_le {l : List Nat} {b : Nat} (h : ∀ x ∈ l, x ≤ b) : l.foldr max 0 ≤ b := by
  induction l with
  | nil => exact Nat.zero_le b
  | cons y l ih =>
    exact max_le (h y List.mem_cons_self) (ih (fun x hx => h x (List.mem_cons_of_mem _ hx)))

theorem le_currentEpoch (h : k.key_epochs.find e = some row) : e ≤ k.currentEpoch := by
  obtain ⟨hmem, rfl⟩ := Table.find_eq_some.mp h
  apply le_foldr_max
  cases hown : row.isOwn with
  | true =>
    apply List.mem_append_left
    rw [mem_ownEpochs, ownRow_eq_some.mpr ⟨h, hown⟩]
    rfl
  | false =>
    apply List.mem_append_right
    have hpeer : row ∈ k.peerRows := mem_peerRows.mpr (peerRow_eq_some.mpr ⟨h, hown⟩)
    have hentry : (row.epoch, row.public_key) ∈ k.peerRows.map (fun r => (r.epoch, r.public_key)) :=
      List.mem_map.mpr ⟨row, hpeer, rfl⟩
    unfold peerKeyEpochs
    cases hkey : k.peer_agreement_key with
    | none => exact List.mem_map.mpr ⟨_, hentry, rfl⟩
    | some key =>
      by_cases hcur : row.epoch = k.key_epoch
      · simp [hcur]
      · exact List.mem_map.mpr
          ⟨_, List.mem_cons_of_mem _ (List.mem_filter.mpr ⟨hentry, by simpa using hcur⟩), rfl⟩

/-! ## Methods that only move phases -/

/-- The rotation rows moved along `allowed` and nothing else changed. -/
structure Evolves (allowed : Nat → Role → Phase → Phase → Prop) (k k' : Keys) : Prop where
  key_epoch : k'.key_epoch = k.key_epoch
  peer_agreement_key : k'.peer_agreement_key = k.peer_agreement_key
  key_epochs : k'.key_epochs = k.key_epochs
  key_files : k'.key_files = k.key_files
  forth : ∀ e role r, k.rotation e role = some r → ∃ r', k'.rotation e role = some r' ∧
    r'.origin = r.origin ∧ (r'.phase = r.phase ∨ allowed e role r.phase r'.phase)
  back : ∀ e role r', k'.rotation e role = some r' → ∃ r, k.rotation e role = some r ∧
    r'.origin = r.origin ∧ (r'.phase = r.phase ∨ allowed e role r.phase r'.phase)

/-- No phase moves. -/
def noMove : Nat → Role → Phase → Phase → Prop := fun _ _ _ _ => False

variable {allowed : Nat → Role → Phase → Phase → Prop}

theorem Evolves.refl (k : Keys) : Evolves allowed k k where
  key_epoch := rfl
  peer_agreement_key := rfl
  key_epochs := rfl
  key_files := rfl
  forth := fun _ _ r hr => ⟨r, hr, rfl, Or.inl rfl⟩
  back := fun _ _ r hr => ⟨r, hr, rfl, Or.inl rfl⟩

theorem Evolves.trans_noMove {k₁ k₂ k₃ : Keys} (h : Evolves allowed k₁ k₂)
    (h' : Evolves noMove k₂ k₃) : Evolves allowed k₁ k₃ where
  key_epoch := h'.key_epoch.trans h.key_epoch
  peer_agreement_key := h'.peer_agreement_key.trans h.peer_agreement_key
  key_epochs := h'.key_epochs.trans h.key_epochs
  key_files := h'.key_files.trans h.key_files
  forth := by
    intro e role r hr
    obtain ⟨r₂, hr₂, ho, hp⟩ := h.forth e role r hr
    obtain ⟨r₃, hr₃, ho', hp' | hp'⟩ := h'.forth e role r₂ hr₂
    · exact ⟨r₃, hr₃, ho'.trans ho, by rw [hp']; exact hp⟩
    · exact absurd hp' (by simp [noMove])
  back := by
    intro e role r₃ hr₃
    obtain ⟨r₂, hr₂, ho', hp' | hp'⟩ := h'.back e role r₃ hr₃
    · obtain ⟨r, hr, ho, hp⟩ := h.back e role r₂ hr₂
      exact ⟨r, hr, ho'.trans ho, by rw [hp']; exact hp⟩
    · exact absurd hp' (by simp [noMove])

end Keys

open Keys

@[simp] theorem rotation_updateRotation (s : Side) (e : Nat) (role : Role) (f : Rotation → Rotation)
    (hf : ∀ r, (f r).key = r.key) (e' : Nat) (role' : Role) :
    (s.updateRotation e role f hf).rotation e' role' =
      if (e', role') = (e, role) then (s.rotation e role).map f else s.rotation e' role' := by
  simp [Side.updateRotation, Keys.rotation, Table.find_modify]

theorem evolves_updateRotation {allowed : Nat → Role → Phase → Phase → Prop} {s : Side} {e : Nat}
    {role : Role} {f : Rotation → Rotation} {hf : ∀ r, (f r).key = r.key}
    (h : ∀ r, s.rotation e role = some r → (f r).origin = r.origin ∧
      ((f r).phase = r.phase ∨ allowed e role r.phase (f r).phase)) :
    Evolves allowed s.toKeys (s.updateRotation e role f hf).toKeys where
  key_epoch := rfl
  peer_agreement_key := rfl
  key_epochs := rfl
  key_files := rfl
  forth := by
    intro e' role' r hr
    rw [rotation_updateRotation]
    split_ifs with hkey
    · cases hkey
      exact ⟨f r, by rw [hr]; rfl, h r hr⟩
    · exact ⟨r, hr, rfl, Or.inl rfl⟩
  back := by
    intro e' role' r' hr'
    rw [rotation_updateRotation] at hr'
    split_ifs at hr' with hkey
    · cases hkey
      obtain ⟨r, hr, rfl⟩ := Option.map_eq_some_iff.mp hr'
      exact ⟨r, hr, h r hr⟩
    · exact ⟨r', hr', rfl, Or.inl rfl⟩

namespace RotationManager

variable {s : Side} {now : Nat}

theorem consumePendingWrapSeen_evolves (s : Side) (e : Nat) :
    Evolves noMove s.toKeys (consumePendingWrapSeen s e).toKeys := by
  unfold consumePendingWrapSeen
  split_ifs with hseen
  · have hrow : ∀ r : Rotation, (if r.live then { r with new_wrap_seen := true } else r).origin =
        r.origin ∧ (if r.live then { r with new_wrap_seen := true } else r).phase = r.phase := by
      intro r
      split_ifs <;> exact ⟨rfl, rfl⟩
    show Evolves noMove s.toKeys (s.updateRotation e .rotating _ _).toKeys
    exact evolves_updateRotation (fun r _ => ⟨(hrow r).1, Or.inl (hrow r).2⟩)
  · exact .refl _

/-- An ack moves its own candidate to `acknowledged`. -/
def ackMove (epoch : Nat) : Nat → Role → Phase → Phase → Prop := fun e role p p' =>
  e = epoch ∧ role = .rotating ∧ p = .candidate ∧ p' = .acknowledged

theorem onAck_evolves (s : Side) (ack : Ack) (now : Nat) :
    Evolves (ackMove ack.epoch) s.toKeys (onAck s ack now).1.toKeys := by
  unfold onAck
  cases hrot : s.rotation ack.epoch .rotating with
  | none => exact .refl _
  | some r =>
    dsimp only
    split_ifs with hid hacked hcand hlate
    · exact .refl _
    · exact (Evolves.refl _).trans_noMove (consumePendingWrapSeen_evolves s ack.epoch)
    · exact .refl _
    · exact .refl _
    · refine Evolves.trans_noMove ?_ (consumePendingWrapSeen_evolves _ _)
      refine evolves_updateRotation (fun r₀ hr₀ => ⟨rfl, Or.inr ?_⟩)
      obtain rfl : r = r₀ := Option.some.inj (hrot.symm.trans hr₀)
      exact ⟨rfl, rfl, not_not.mp hcand, rfl⟩

theorem noteDecryptedNewWrap_evolves (s : Side) (e now : Nat) :
    Evolves noMove s.toKeys (noteDecryptedNewWrap s e now).toKeys := by
  unfold noteDecryptedNewWrap
  split_ifs with hlive
  · exact evolves_updateRotation (fun r _ => ⟨rfl, Or.inl rfl⟩)
  · exact Evolves.refl s.toKeys

theorem noteAcceptedEvent_evolves (s : Side) :
    Evolves noMove s.toKeys (noteAcceptedEvent s).toKeys := by
  refine evolves_updateRotation (fun r _ => ?_)
  split_ifs <;> exact ⟨rfl, Or.inl rfl⟩

/-- `mark_confirmed` moves the acknowledged rotation to `confirmed`. -/
def confirmMove : Nat → Role → Phase → Phase → Prop := fun _ role p p' =>
  role = .rotating ∧ p = .acknowledged ∧ p' = .confirmed

theorem markConfirmed_evolves (s : Side) (now : Nat) :
    Evolves confirmMove s.toKeys (markConfirmed s now).1.toKeys := by
  unfold markConfirmed
  cases hrot : s.inFlightAs .rotating with
  | none => exact .refl _
  | some r =>
    dsimp only
    split_ifs with hdone hacked
    · exact .refl _
    · exact .refl _
    · refine evolves_updateRotation (fun r₀ hr₀ => ⟨rfl, Or.inr ⟨rfl, ?_, rfl⟩⟩)
      obtain rfl : r = r₀ := Option.some.inj ((rotation_of_inFlightAs hrot).1.symm.trans hr₀)
      exact not_not.mp hacked

/-- A confirm moves its acknowledged rotation to `confirmed`. -/
def onConfirmMove (epoch : Nat) : Nat → Role → Phase → Phase → Prop := fun e role p p' =>
  e = epoch ∧ role = .acking ∧ p = .acknowledged ∧ p' = .confirmed

theorem onConfirm_evolves (s : Side) (epoch now : Nat) :
    Evolves (onConfirmMove epoch) s.toKeys (onConfirm s epoch now).1.toKeys := by
  unfold onConfirm
  cases hrot : s.rotation epoch .acking with
  | none => exact .refl _
  | some r =>
    dsimp only
    split_ifs with hdone hacked
    · exact .refl _
    · exact .refl _
    · refine evolves_updateRotation (fun r₀ hr₀ => ⟨rfl, Or.inr ⟨rfl, rfl, ?_, rfl⟩⟩)
      obtain rfl : r = r₀ := Option.some.inj (hrot.symm.trans hr₀)
      exact not_not.mp hacked

/-! ## Beginning a rotation -/

end RotationManager

theorem newestRow_eq_none {l : List KeyRow} : newestRow l = none ↔ l = [] := by
  cases l with
  | nil => simp [newestRow]
  | cons r rs =>
    simp only [newestRow, reduceCtorEq, iff_false]
    split
    · simp
    · split_ifs <;> simp

theorem newestRow_spec {l : List KeyRow} {r : KeyRow} (h : newestRow l = some r) :
    r ∈ l ∧ ∀ r' ∈ l, r'.epoch ≤ r.epoch := by
  induction l generalizing r with
  | nil => cases h
  | cons a l ih =>
    rw [newestRow] at h
    split at h
    · rename_i hnone
      rw [newestRow_eq_none.mp hnone] at *
      cases h
      simp
    · rename_i b hb
      obtain ⟨hmem, hmax⟩ := ih hb
      split_ifs at h with hlt
      · cases h
        refine ⟨List.mem_cons_self, ?_⟩
        intro r' hr'
        rcases List.mem_cons.mp hr' with rfl | hr'
        · exact le_rfl
        · exact le_trans (hmax r' hr') hlt.le
      · cases h
        refine ⟨List.mem_cons_of_mem _ hmem, ?_⟩
        intro r' hr'
        rcases List.mem_cons.mp hr' with rfl | hr'
        · exact not_lt.mp hlt
        · exact hmax r' hr'

theorem storePrivateKey_eq_some {s s' : Side} {path : Nat} {key : PrivateKey}
    (h : s.storePrivateKey path key = some s') :
    s' = { s with key_files := s'.key_files } ∧
      ∀ p, s'.key_files.find p = if p = path then some ⟨path, key⟩ else s.key_files.find p := by
  unfold Side.storePrivateKey at h
  obtain ⟨files, hfiles, rfl⟩ := Option.map_eq_some_iff.mp h
  exact ⟨rfl, Table.find_of_insert hfiles⟩

@[simp] theorem deletePrivateKey_file (s : Side) (path : Nat) :
    s.deletePrivateKey (.file path) = { s with key_files := s.key_files.delete (·.path = path) } :=
  rfl

theorem find_delete_path (t : Table KeyFile.path) (path p : Nat) :
    (t.delete (·.path = path)).find p = if p = path then none else t.find p := by
  rw [Table.find_delete]
  cases hfile : t.find p with
  | none => simp
  | some f =>
    have hp : f.path = p := Table.key_of_find hfile
    simp only [Option.filter_some, hp]
    by_cases hpp : p = path <;> simp [hpp]

namespace RotationManager

variable {s s' : Side} {now : Nat} {priv : PrivateKey} {prepare_event_id : Option EventId}

/-- What a successful `begin_rotation` does. -/
structure Begun (s : Side) (now : Nat) (priv : PrivateKey) (prepare_event_id : Option EventId)
    (s' : Side) (epoch : Nat) (prepare : Prepare) (prior : KeyRow) : Prop where
  idle : s.inFlight = none
  epoch_eq : epoch = s.currentEpoch + 1
  prior_own : s.ownRow prior.epoch = some prior
  prior_top : ∀ e row, s.ownRow e = some row → e ≤ prior.epoch
  prepare_eq : prepare =
    ⟨priv.publicKey, agreementFingerprint prior.public_key, now + ROTATION_WINDOW⟩
  key_epoch : s'.key_epoch = s.key_epoch
  peer_agreement_key : s'.peer_agreement_key = s.peer_agreement_key
  key_epochs : ∀ e, s'.key_epochs.find e =
    if e = epoch then some ⟨epoch, priv.publicKey, .file epoch⟩ else s.key_epochs.find e
  key_files : ∀ p, s'.key_files.find p =
    if p = epoch then some ⟨epoch, priv⟩ else s.key_files.find p
  rotation : ∀ e role, s'.rotation e role =
    if (e, role) = (epoch, Role.rotating) then
      some (candidateRow epoch prior now priv prepare_event_id)
    else s.rotation e role
  events : s'.events = s.events
  processed : s'.rotation_processed_events = s.rotation_processed_events

/-- A method that fails before its transaction may have touched the key
file of one epoch that has no row. -/
structure OnlyFile (s : Side) (epoch : Nat) (s' : Side) : Prop where
  key_epoch : s'.key_epoch = s.key_epoch
  peer_agreement_key : s'.peer_agreement_key = s.peer_agreement_key
  key_epochs : s'.key_epochs = s.key_epochs
  key_rotations : s'.key_rotations = s.key_rotations
  key_files : ∀ p, p ≠ epoch → s'.key_files.find p = s.key_files.find p
  events : s'.events = s.events
  processed : s'.rotation_processed_events = s.rotation_processed_events

theorem OnlyFile.refl (s : Side) (epoch : Nat) : OnlyFile s epoch s :=
  ⟨rfl, rfl, rfl, rfl, fun _ _ => rfl, rfl, rfl⟩

theorem storeCandidateKey_ok {epoch : Nat} (h : storeCandidateKey s epoch epoch priv = .ok s') :
    s' = { s with key_files := s'.key_files } ∧
      ∀ p, s'.key_files.find p = if p = epoch then some ⟨epoch, priv⟩ else s.key_files.find p := by
  unfold storeCandidateKey at h
  split at h
  · rename_i stored hstored
    cases h
    exact storePrivateKey_eq_some hstored
  · split at h
    · cases h
    · rename_i wiped hwiped
      unfold reconcileOrphanKeyFile at hwiped
      split_ifs at hwiped with hlive
      cases hwiped
      split at h
      · rename_i stored hstored
        cases h
        obtain ⟨hrest, hfiles⟩ := storePrivateKey_eq_some hstored
        refine ⟨hrest, ?_⟩
        intro p
        rw [hfiles]
        split_ifs with hp
        · rfl
        · rw [deletePrivateKey_file, find_delete_path, if_neg hp]
      · cases h

theorem recordCandidate_eq_some {keyRow : KeyRow} {row : Rotation}
    (h : recordCandidate s keyRow row = some s') :
    s' = { s with key_epochs := s'.key_epochs, key_rotations := s'.key_rotations } ∧
      (∀ e, s'.key_epochs.find e = if e = keyRow.epoch then some keyRow else s.key_epochs.find e) ∧
      ∀ e role, s'.rotation e role =
        if (e, role) = row.key then some row else s.rotation e role := by
  unfold recordCandidate at h
  split at h
  · cases h
  · rename_i keys hkeys
    dsimp only at h
    split at h
    · cases h
    · rename_i rotations hrotations
      cases h
      refine ⟨rfl, Table.find_of_insert hkeys, ?_⟩
      intro e role
      have hins := Table.find_of_insert hrotations (e, role)
      simp only [Keys.rotation, hins]
      split_ifs with hkey
      · rfl
      · rw [Table.find_delete]
        cases hrow : s.key_rotations.find (e, role) with
        | none => rfl
        | some r =>
          have hr : r.key = (e, role) := Table.key_of_find hrow
          have hne : r.key ≠ row.key := fun heq => hkey (hr.symm.trans heq)
          simp [hne]

theorem beginRotation_cases (s : Side) (now : Nat) (priv : PrivateKey)
    (prepare_event_id : Option EventId) :
    (∃ epoch prepare prior,
      (beginRotation s now priv prepare_event_id).2 = .ok (epoch, prepare) ∧
      Begun s now priv prepare_event_id (beginRotation s now priv prepare_event_id).1
        epoch prepare prior) ∨
    ∃ raised, (beginRotation s now priv prepare_event_id).2 = .error raised ∧
      OnlyFile s (s.currentEpoch + 1) (beginRotation s now priv prepare_event_id).1 := by
  unfold beginRotation
  split_ifs with hflight
  · exact Or.inr ⟨_, rfl, .refl _ _⟩
  split
  · exact Or.inr ⟨_, rfl, .refl _ _⟩
  rename_i prior hprior
  dsimp only
  split_ifs with hstale
  · exact Or.inr ⟨_, rfl, .refl _ _⟩
  obtain ⟨hpmem, hptop⟩ := newestRow_spec hprior
  split
  · exact Or.inr ⟨_, rfl, .refl _ _⟩
  rename_i stored hstored
  obtain ⟨hrest, hfiles⟩ := storeCandidateKey_ok hstored
  split
  · refine Or.inr ⟨_, rfl, ?_⟩
    rw [hrest]
    refine ⟨rfl, rfl, rfl, rfl, ?_, rfl, rfl⟩
    intro p hp
    rw [deletePrivateKey_file, find_delete_path, if_neg hp, hfiles, if_neg hp]
  · rename_i begun hbegun
    obtain ⟨hrest', hkeys, hrots⟩ := recordCandidate_eq_some hbegun
    refine Or.inl ⟨_, _, prior, rfl, ?_⟩
    refine
      { idle := Option.not_isSome_iff_eq_none.mp hflight
        epoch_eq := rfl
        prior_own := mem_ownRows.mp hpmem
        prior_top := ?_
        prepare_eq := rfl
        key_epoch := by rw [hrest', hrest]
        peer_agreement_key := by rw [hrest', hrest]
        key_epochs := ?_
        key_files := ?_
        rotation := ?_
        events := by rw [hrest', hrest]
        processed := by rw [hrest', hrest] }
    · intro e row hrow
      have he : row.epoch = e := epoch_of_ownRow hrow
      exact he ▸ hptop row (mem_ownRows.mpr (he.symm ▸ hrow))
    · intro e
      rw [hkeys e, hrest]
    · intro p
      rw [hrest']
      exact hfiles p
    · intro e role
      rw [hrots e role, hrest]
      rfl

/-! ## Commits -/

/-- The confirmed rotation of one epoch and role becomes committed and its
epoch the current one. -/
structure CommitsRow (s : Side) (epoch : Nat) (role : Role) (r₀ r₁ : Rotation) (s' : Side) :
    Prop where
  row : s.rotation epoch role = some r₀
  confirmed : r₀.phase = .confirmed
  committed : r₁.phase = .committed
  origin : r₁.origin = r₀.origin
  key_epoch : s'.key_epoch = epoch
  key_epochs : s'.key_epochs = s.key_epochs
  key_files : s'.key_files = s.key_files
  rotation : ∀ e role', s'.rotation e role' =
    if (e, role') = (epoch, role) then some r₁ else s.rotation e role'

theorem rotation_update_some {s : Side} {epoch : Nat} {role : Role} (f : Rotation → Rotation)
    (hf : ∀ r, (f r).key = r.key) {r : Rotation} (h : s.rotation epoch role = some r)
    (e : Nat) (role' : Role) :
    (s.updateRotation epoch role f hf).rotation e role' =
      if (e, role') = (epoch, role) then some (f r) else s.rotation e role' := by
  rw [rotation_updateRotation, h]
  rfl

theorem onCommit_cases (s : Side) (epoch now : Nat) :
    (onCommit s epoch now).1 = s ∨
    ∃ r₀ r₁, CommitsRow s epoch .rotating r₀ r₁ (onCommit s epoch now).1 ∧
      (onCommit s epoch now).1.peer_agreement_key = s.peer_agreement_key ∧
      (onCommit s epoch now).2 = .ok () := by
  unfold onCommit
  cases hrot : s.rotation epoch .rotating with
  | none =>
    dsimp only
    split_ifs <;> exact Or.inl rfl
  | some r =>
    dsimp only
    split_ifs with hdone hconf
    · exact Or.inl rfl
    · exact Or.inl rfl
    · exact Or.inr ⟨r, { r with
          phase := .committed, committed_at := some now, accepted_events_since_commit := 0 },
        ⟨hrot, not_not.mp hconf, rfl, rfl, rfl, rfl, rfl,
          rotation_update_some (fun r => { r with
            phase := .committed, committed_at := some now, accepted_events_since_commit := 0 })
            (fun _ => rfl) hrot⟩, rfl, rfl⟩

/-- `mark_committed` either changes nothing or commits the confirmed
rotation that is in flight. -/
theorem markCommitted_cases (s : Side) (now : Nat) :
    (markCommitted s now).1 = s ∨
    ∃ r₀ r₁, CommitsRow s r₀.epoch .acking r₀ r₁ (markCommitted s now).1 ∧
      (markCommitted s now).1.peer_agreement_key = some r₀.new_public_key ∧
      s.inFlightAs .acking = some r₀ := by
  unfold markCommitted
  cases hrot : s.inFlightAs .acking with
  | none =>
    dsimp only
    split_ifs <;> exact Or.inl rfl
  | some r =>
    dsimp only
    split_ifs with hconf
    · exact Or.inl rfl
    · have hrow := (rotation_of_inFlightAs hrot).1
      exact Or.inr ⟨r, { r with phase := .committed, committed_at := some now },
        ⟨hrow, not_not.mp hconf, rfl, rfl, rfl, rfl, rfl,
          rotation_update_some (fun r => { r with
            phase := .committed, committed_at := some now }) (fun _ => rfl) hrow⟩, rfl, rfl⟩

/-! ## Acknowledging a prepare -/

@[simp] theorem key_ackingRow (new_epoch prior_epoch : Nat) (prepare : Prepare) (id : EventId)
    (now : Nat) : (ackingRow new_epoch prior_epoch prepare id now).key = (new_epoch, .acking) := rfl

section recordAcking

variable (s : Side) (new_epoch prior_epoch : Nat) (prepare : Prepare) (id : EventId) (now : Nat)

theorem recordAckingRotation_rest :
    let s' := recordAckingRotation s new_epoch prior_epoch prepare id now
    s'.key_epoch = s.key_epoch ∧ s'.peer_agreement_key = s.peer_agreement_key ∧
      s'.key_files = s.key_files ∧ s'.key_epochs = s.key_epochs ∧
      s'.events = s.events ∧ s'.rotation_processed_events = s.rotation_processed_events := by
  unfold recordAckingRotation
  dsimp only
  split_ifs <;> exact ⟨rfl, rfl, rfl, rfl, rfl, rfl⟩

theorem rotation_recordAckingRotation (e : Nat) (role : Role) :
    (recordAckingRotation s new_epoch prior_epoch prepare id now).rotation e role =
      if (e, role) = (new_epoch, Role.acking) then
        some (((s.rotation new_epoch .acking).filter (fun r => decide (r.phase ≠ .discarded))).getD
          (ackingRow new_epoch prior_epoch prepare id now))
      else s.rotation e role := by
  have hkept : ∀ key, (s.key_rotations.delete
      (fun r => r.key = (new_epoch, Role.acking) ∧ r.phase = .discarded)).find key =
      if key = (new_epoch, Role.acking) then
        (s.rotation new_epoch .acking).filter (fun r => decide (r.phase ≠ .discarded))
      else s.key_rotations.find key := by
    intro key
    rw [Table.find_delete]
    split_ifs with hkey
    · subst hkey
      unfold Keys.rotation
      cases hrow : s.key_rotations.find (new_epoch, Role.acking) with
      | none => rfl
      | some r =>
        have hr : r.key = (new_epoch, Role.acking) := Table.key_of_find hrow
        simp [Option.filter, hr]
    · cases hrow : s.key_rotations.find key with
      | none => rfl
      | some r =>
        have hr : r.key = key := Table.key_of_find hrow
        simp [Option.filter, hr, hkey]
  unfold recordAckingRotation
  dsimp only
  split_ifs with hsome hkey hkey
  · obtain ⟨r, hr⟩ := Option.isSome_iff_exists.mp hsome
    rw [hkept, if_pos rfl] at hr
    cases hkey
    rw [hr, Option.getD_some, Keys.rotation, hkept, if_pos rfl, hr]
  · rw [Keys.rotation, hkept, if_neg hkey]
    rfl
  · cases hkey
    rw [hkept, if_pos rfl, Option.not_isSome_iff_eq_none] at hsome
    rw [hsome, Option.getD_none, Keys.rotation, Table.find_insertOrIgnore, key_ackingRow,
      if_pos rfl, hkept, if_pos rfl, hsome, Option.getD_none]
  · rw [Keys.rotation, Table.find_insertOrIgnore, key_ackingRow, if_neg hkey, hkept, if_neg hkey]
    rfl

end recordAcking

/-- What an acknowledged prepare does. -/
structure Acknowledged (s : Side) (prepare : Prepare) (id : EventId) (now : Nat) (s' : Side)
    (prior_epoch : Nat) : Prop where
  prior : ∃ key, s.peerKeyEpochs.find?
    (fun e => agreementFingerprint e.2 = prepare.prior_fingerprint) = some (prior_epoch, key)
  key_epoch : s'.key_epoch = s.key_epoch
  peer_agreement_key : s'.peer_agreement_key = s.peer_agreement_key
  key_files : s'.key_files = s.key_files
  rotation : ∀ e role, s'.rotation e role =
    if (e, role) = (prior_epoch + 1, Role.acking) then
      some (((s.rotation (prior_epoch + 1) .acking).filter
        (fun r => decide (r.phase ≠ .discarded))).getD
          (ackingRow (prior_epoch + 1) prior_epoch prepare id now))
    else s.rotation e role
  /-- Either the peer key was stored before, or it is a new one beyond every
  known epoch and nothing was in flight. -/
  peer_key :
    ((∃ existing, s.peerRow (prior_epoch + 1) = some existing ∧
        existing.public_key = prepare.new_agreement_key) ∧ s'.key_epochs = s.key_epochs) ∨
    (s.inFlight = none ∧ s.currentEpoch < prior_epoch + 1 ∧
      prior_epoch = (s.peerKeyEpochs.map (·.1)).foldr max 0 ∧
      ∀ e, s'.key_epochs.find e =
        if e = prior_epoch + 1 then some ⟨prior_epoch + 1, prepare.new_agreement_key, .peer⟩
        else s.key_epochs.find e)
  events : s'.events = s.events
  processed : s'.rotation_processed_events = s.rotation_processed_events

theorem onPrepare_cases (s : Side) (prepare : Prepare) (id : EventId) (now : Nat) :
    ((onPrepare s prepare id now).1.toKeys = s.toKeys ∧
      ∃ raised, (onPrepare s prepare id now).2 = .error raised) ∨
    ∃ prior_epoch, (onPrepare s prepare id now).2 = .ok ⟨prior_epoch + 1, id⟩ ∧
      Acknowledged s prepare id now (onPrepare s prepare id now).1 prior_epoch := by
  unfold onPrepare
  split
  · exact Or.inl ⟨rfl, _, rfl⟩
  rename_i prior_epoch key hprior
  dsimp only
  split
  · rename_i existing hexisting
    split_ifs with hkey
    · exact Or.inl ⟨rfl, _, rfl⟩
    · obtain ⟨hepoch, hpeer, hfiles, hkeys, hevents, hprocessed⟩ :=
        recordAckingRotation_rest s (prior_epoch + 1) prior_epoch prepare id now
      refine Or.inr ⟨prior_epoch, rfl, ⟨key, hprior⟩, hepoch, hpeer, hfiles,
        rotation_recordAckingRotation s _ _ _ _ _, Or.inl ⟨?_, hkeys⟩, hevents, hprocessed⟩
      exact ⟨existing, hexisting, not_not.mp hkey⟩
  · unfold acceptPrepare
    dsimp only
    split_ifs with hmax hown hlive hstale hflight hlate
    · exact Or.inl ⟨rfl, _, rfl⟩
    · exact Or.inl ⟨rfl, _, rfl⟩
    · exact Or.inl ⟨rfl, _, rfl⟩
    · exact Or.inl ⟨rfl, _, rfl⟩
    · exact Or.inl ⟨rfl, _, rfl⟩
    · exact Or.inl ⟨rfl, _, rfl⟩
    split
    · exact Or.inl ⟨rfl, _, rfl⟩
    · rename_i keys hkeys
      obtain ⟨hepoch, hpeer, hfiles, hkeys', hevents, hprocessed⟩ :=
        recordAckingRotation_rest { s with key_epochs := keys } (prior_epoch + 1) prior_epoch
          prepare id now
      refine Or.inr ⟨prior_epoch, rfl, ⟨key, hprior⟩, hepoch, hpeer, hfiles,
        rotation_recordAckingRotation { s with key_epochs := keys } _ _ _ _ _,
        Or.inr ⟨?_, not_le.mp hstale, not_not.mp hmax, ?_⟩, hevents, hprocessed⟩
      · exact Option.not_isSome_iff_eq_none.mp hflight
      · intro e
        rw [hkeys']
        exact Table.find_of_insert hkeys e

/-! ## Sweeping -/

/-- The first transaction of `sweep` deletes peer rows and committed rows
only. -/
theorem sweepCompact_cases (s : Side) (now : Nat) :
    (sweepCompact s now).1 = s ∨
    ((sweepCompact s now).1.key_epoch = s.key_epoch ∧
      (sweepCompact s now).1.peer_agreement_key = s.peer_agreement_key ∧
      (sweepCompact s now).1.key_files = s.key_files ∧
      (∀ e, (sweepCompact s now).1.key_epochs.find e =
        (s.key_epochs.find e).filter (fun r => !stalePeer s r)) ∧
      ∀ e role, (sweepCompact s now).1.rotation e role =
        (s.rotation e role).filter (fun r => !staleCommitted s now r)) := by
  unfold sweepCompact
  split_ifs with hfk
  · exact Or.inl rfl
  · exact Or.inr ⟨rfl, rfl, rfl, Table.find_delete _ _, fun e role => Table.find_delete _ _ _⟩

theorem ownRow_sweepCompact (s : Side) (now e : Nat) :
    (sweepCompact s now).1.ownRow e = s.ownRow e := by
  rcases sweepCompact_cases s now with h | ⟨-, -, -, hkeys, -⟩
  · rw [h]
  · unfold Keys.ownRow
    rw [hkeys]
    cases hrow : s.key_epochs.find e with
    | none => rfl
    | some row =>
      cases hown : row.isOwn with
      | true => simp [Option.filter, stalePeer, hown]
      | false =>
        rw [Option.filter_filter]
        simp [Option.filter, hown]

/-- The own key of an epoch is gone, with its row and its file. -/
structure Removed (s : Side) (epoch : Nat) (s' : Side) : Prop where
  key_epoch : s'.key_epoch = s.key_epoch
  peer_agreement_key : s'.peer_agreement_key = s.peer_agreement_key
  key_epochs : ∀ e, s'.key_epochs.find e =
    (s.key_epochs.find e).filter (fun r => !decide (r.epoch = epoch ∧ r.isOwn = true))
  key_files : ∀ p, (∀ row, s.ownRow epoch = some row → row.private_key_ref ≠ .file p) →
    s'.key_files.find p = s.key_files.find p

theorem Removed.ownRow {epoch : Nat} (h : Removed s epoch s') (e : Nat) :
    s'.ownRow e = if e = epoch then none else s.ownRow e := by
  unfold Keys.ownRow
  rw [h.key_epochs]
  cases hrow : s.key_epochs.find e with
  | none => simp
  | some row =>
    have he : row.epoch = e := Table.key_of_find hrow
    subst he
    by_cases heq : row.epoch = epoch <;> cases hown : row.isOwn <;>
      simp [Option.filter, heq, hown]

/-- The second transaction of `sweep` either leaves the keys alone or
discards a candidate. -/
theorem sweepTimeout_cases (s : Side) (now : Nat) :
    (sweepTimeout s now).1 = s ∨
    ∃ r, s.rotation r.epoch .rotating = some r ∧ r.phase = .candidate ∧
      Removed s r.epoch (sweepTimeout s now).1 ∧
      ∀ e role, (sweepTimeout s now).1.rotation e role =
        if (e, role) = (r.epoch, Role.rotating) then some { r with phase := .discarded }
        else s.rotation e role := by
  unfold sweepTimeout
  split
  · exact Or.inl rfl
  rename_i r hr
  have hmem : r ∈ s.key_rotations.rows ∧ r.role = .rotating ∧ r.phase = .candidate := by
    have h := List.mem_of_mem_head? hr
    rw [List.mem_insertionSort, List.mem_filter] at h
    simp only [decide_eq_true_eq] at h
    exact ⟨h.1, h.2.1, h.2.2.1⟩
  have hrow : s.rotation r.epoch .rotating = some r :=
    rotation_eq_some.mpr ⟨hmem.1, rfl, hmem.2.1⟩
  unfold discardCandidate
  split_ifs with hphase hfk
  · exact Or.inl rfl
  · refine Or.inr ⟨r, hrow, hmem.2.2, ⟨?_, ?_, ?_, ?_⟩, ?_⟩
    · cases hown : s.ownRow r.epoch with
      | none => rfl
      | some row => obtain ⟨_, _, _ | _⟩ := row <;> rfl
    · cases hown : s.ownRow r.epoch with
      | none => rfl
      | some row => obtain ⟨_, _, _ | _⟩ := row <;> rfl
    · intro e
      cases hown : s.ownRow r.epoch with
      | none => exact Table.find_delete _ _ _
      | some row => obtain ⟨_, _, _ | _⟩ := row <;> exact Table.find_delete _ _ _
    · intro p hp
      cases hown : s.ownRow r.epoch with
      | none => rfl
      | some row =>
        obtain ⟨epoch, pub, path | _⟩ := row
        · have hne : p ≠ path := fun heq => hp _ hown (by rw [heq])
          exact (find_delete_path _ _ _).trans (if_neg hne)
        · rfl
    · intro e role
      have hupd := rotation_updateRotation s r.epoch .rotating
        (fun r => { r with phase := .discarded }) (fun _ => rfl) e role
      rw [hrow] at hupd
      cases hown : s.ownRow r.epoch with
      | none => exact hupd
      | some row => obtain ⟨_, _, _ | _⟩ := row <;> exact hupd
  · exact absurd hphase (by simp [hrow, hmem.2.2])

/-- One round of the retirement loop either changes nothing or retires the
committed rotation and removes its prior key. -/
theorem sweepRetire_cases (s : Side) (row : Rotation) (now : Nat) :
    (sweepRetire s row now).1 = s ∨
    ((s.ownRow row.epoch).isSome = true ∧ Removed s row.prior_epoch (sweepRetire s row now).1 ∧
      ∀ e role, (sweepRetire s row now).1.rotation e role =
        if (e, role) = (row.epoch, Role.rotating) then
          (s.rotation e role).filter (fun r => decide (r.phase ≠ .committed))
        else s.rotation e role) := by
  have hrots : ∀ key, (s.key_rotations.delete
      (fun r => r.key = (row.epoch, Role.rotating) ∧ r.phase = .committed)).find key =
      if key = (row.epoch, Role.rotating) then
        (s.key_rotations.find key).filter (fun r => decide (r.phase ≠ .committed))
      else s.key_rotations.find key := by
    intro key
    rw [Table.find_delete]
    cases hrow : s.key_rotations.find key with
    | none => simp
    | some r =>
      have hr : r.key = key := Table.key_of_find hrow
      subst hr
      by_cases hkey : r.key = (row.epoch, Role.rotating) <;> simp [Option.filter, hkey]
  unfold sweepRetire
  split
  · exact Or.inl rfl
  rw [apply_ite Prod.fst]
  split
  swap
  · exact Or.inl rfl
  rw [apply_ite Prod.fst]
  split
  · exact Or.inl rfl
  rename_i hnew
  have hsome : (s.ownRow row.epoch).isSome = true := by
    rw [Option.isSome_iff_ne_none]
    simpa using hnew
  dsimp only
  cases hold : s.ownRow row.prior_epoch with
  | none =>
    refine Or.inr ⟨hsome, ⟨rfl, rfl, ?_, fun _ _ => rfl⟩, fun e role => hrots (e, role)⟩
    intro e
    show s.key_epochs.find e = _
    cases hr : s.key_epochs.find e with
    | none => rfl
    | some r =>
      have hnot : ¬ (r.epoch = row.prior_epoch ∧ r.isOwn = true) := by
        rintro ⟨heq, hown⟩
        have he : r.epoch = e := Table.key_of_find hr
        rw [← heq, he, ownRow_eq_some.mpr ⟨hr, hown⟩] at hold
        cases hold
      simp [Option.filter, hnot]
  | some old =>
    dsimp only
    split_ifs with hfk
    · exact Or.inl rfl
    · obtain ⟨epoch, pub, ref⟩ := old
      refine Or.inr ⟨hsome, ⟨?_, ?_, ?_, ?_⟩, ?_⟩
      · cases ref <;> rfl
      · cases ref <;> rfl
      · intro e
        cases ref <;> exact Table.find_delete _ _ _
      · intro p hp
        cases ref with
        | file path =>
          have hne : p ≠ path := fun heq => hp _ hold (by rw [heq])
          exact (find_delete_path _ _ _).trans (if_neg hne)
        | peer => rfl
      · intro e role
        cases ref <;> exact hrots (e, role)

/-- What relates the store before and after each round relates it over the loop. -/
theorem sweepRetireAll_rel {R : Side → Side → Prop} (hrefl : ∀ s, R s s)
    (htrans : ∀ s₁ s₂ s₃, R s₁ s₂ → R s₂ s₃ → R s₁ s₃) {now : Nat}
    (hretire : ∀ s row, R s (sweepRetire s row now).1) (rows : List Rotation) (s : Side) :
    R s (sweepRetireAll s now rows).1 := by
  induction rows generalizing s with
  | nil => exact hrefl s
  | cons row rows ih =>
    have hrow := hretire s row
    unfold sweepRetireAll
    cases hround : sweepRetire s row now with
    | mk s' result =>
      rw [hround] at hrow
      cases result with
      | error raised => exact hrow
      | ok _ => exact htrans s s' _ hrow (ih s')

/-- What relates the store before and after each part of `sweep` relates it over all of it. -/
theorem sweep_rel {R : Side → Side → Prop} (hrefl : ∀ s, R s s)
    (htrans : ∀ s₁ s₂ s₃, R s₁ s₂ → R s₂ s₃ → R s₁ s₃) {now : Nat}
    (hcompact : ∀ s, R s (sweepCompact s now).1) (htimeout : ∀ s, R s (sweepTimeout s now).1)
    (hretire : ∀ s row, R s (sweepRetire s row now).1) (s : Side) : R s (sweep s now).1 := by
  have h₁ := hcompact s
  unfold sweep
  cases hfirst : sweepCompact s now with
  | mk s₁ result =>
    rw [hfirst] at h₁
    cases result with
    | error raised => exact h₁
    | ok _ =>
      have h₂ := htimeout s₁
      dsimp only
      cases hsecond : sweepTimeout s₁ now with
      | mk s₂ result =>
        rw [hsecond] at h₂
        have h₁₂ := htrans s s₁ s₂ h₁ h₂
        cases result with
        | error raised => exact h₁₂
        | ok _ => exact htrans s s₂ _ h₁₂ (sweepRetireAll_rel hrefl htrans hretire _ s₂)

/-! ## The event log

No method of the manager writes the event log or the processed markers. -/

/-- The event log and the processed markers are as before. -/
structure SameLog (s s' : Side) : Prop where
  events : s'.events = s.events
  processed : s'.rotation_processed_events = s.rotation_processed_events

theorem SameLog.refl (s : Side) : SameLog s s := ⟨rfl, rfl⟩

theorem SameLog.trans {s₁ s₂ s₃ : Side} (h : SameLog s₁ s₂) (h' : SameLog s₂ s₃) :
    SameLog s₁ s₃ :=
  ⟨h'.events.trans h.events, h'.processed.trans h.processed⟩

theorem deletePrivateKey_sameLog (s : Side) (ref : KeyRef) : SameLog s (s.deletePrivateKey ref) := by
  cases ref <;> exact ⟨rfl, rfl⟩

theorem consumePendingWrapSeen_sameLog (s : Side) (e : Nat) :
    SameLog s (consumePendingWrapSeen s e) := by
  unfold consumePendingWrapSeen
  split_ifs <;> exact ⟨rfl, rfl⟩

theorem onAck_sameLog (s : Side) (ack : Ack) (now : Nat) : SameLog s (onAck s ack now).1 := by
  unfold onAck
  split
  · exact .refl s
  · dsimp only
    split_ifs
    · exact .refl s
    · exact consumePendingWrapSeen_sameLog s _
    · exact .refl s
    · exact .refl s
    · refine SameLog.trans ?_ (consumePendingWrapSeen_sameLog _ _)
      exact ⟨rfl, rfl⟩

theorem noteDecryptedNewWrap_sameLog (s : Side) (e now : Nat) :
    SameLog s (noteDecryptedNewWrap s e now) := by
  unfold noteDecryptedNewWrap
  split_ifs <;> exact ⟨rfl, rfl⟩

theorem markConfirmed_sameLog (s : Side) (now : Nat) : SameLog s (markConfirmed s now).1 := by
  unfold markConfirmed
  split
  · exact .refl s
  · split_ifs <;> exact ⟨rfl, rfl⟩

theorem onConfirm_sameLog (s : Side) (epoch now : Nat) : SameLog s (onConfirm s epoch now).1 := by
  unfold onConfirm
  split
  · exact .refl s
  · split_ifs <;> exact ⟨rfl, rfl⟩

theorem onCommit_sameLog (s : Side) (epoch now : Nat) : SameLog s (onCommit s epoch now).1 := by
  unfold onCommit
  split
  · split_ifs <;> exact ⟨rfl, rfl⟩
  · split_ifs <;> exact ⟨rfl, rfl⟩

theorem markCommitted_sameLog (s : Side) (now : Nat) : SameLog s (markCommitted s now).1 := by
  unfold markCommitted
  split
  · split_ifs <;> exact ⟨rfl, rfl⟩
  · split_ifs <;> exact ⟨rfl, rfl⟩

theorem onPrepare_sameLog (s : Side) (prepare : Prepare) (id : EventId) (now : Nat) :
    SameLog s (onPrepare s prepare id now).1 := by
  have hrecord : ∀ (t : Side) (e e' : Nat), SameLog t (recordAckingRotation t e e' prepare id now) :=
    fun t e e' =>
      have h := recordAckingRotation_rest t e e' prepare id now
      ⟨h.2.2.2.2.1, h.2.2.2.2.2⟩
  unfold onPrepare
  split
  · exact .refl s
  · dsimp only
    split
    · split_ifs
      · exact ⟨rfl, rfl⟩
      · exact hrecord _ _ _
    · unfold acceptPrepare
      dsimp only
      split_ifs
      · exact .refl s
      · exact ⟨rfl, rfl⟩
      · exact .refl s
      · exact .refl s
      · exact .refl s
      · exact .refl s
      · split
        · exact .refl s
        · refine SameLog.trans ?_ (hrecord _ _ _)
          exact ⟨rfl, rfl⟩

theorem sweepCompact_sameLog (s : Side) (now : Nat) : SameLog s (sweepCompact s now).1 := by
  unfold sweepCompact
  split_ifs <;> exact ⟨rfl, rfl⟩

theorem sweepTimeout_sameLog (s : Side) (now : Nat) : SameLog s (sweepTimeout s now).1 := by
  unfold sweepTimeout
  split
  · exact .refl s
  · unfold discardCandidate
    split_ifs
    · exact .refl s
    · cases s.ownRow _ with
      | none => exact ⟨rfl, rfl⟩
      | some row => obtain ⟨_, _, _ | _⟩ := row <;> exact ⟨rfl, rfl⟩
    · exact .refl s

theorem sweepRetire_sameLog (s : Side) (row : Rotation) (now : Nat) :
    SameLog s (sweepRetire s row now).1 := by
  unfold sweepRetire
  split
  · exact .refl s
  · split
    · split
      · exact .refl s
      · dsimp only
        split
        · exact ⟨rfl, rfl⟩
        · split
          · exact .refl s
          · refine SameLog.trans ?_ (deletePrivateKey_sameLog _ _)
            exact ⟨rfl, rfl⟩
    · exact .refl s

theorem onDataEventEpoch_rest (s : Side) (key_epoch now : Nat) :
    (onDataEventEpoch s key_epoch now).1.toKeys = s.toKeys ∧
      SameLog s (onDataEventEpoch s key_epoch now).1 := by
  unfold onDataEventEpoch
  split
  · exact ⟨rfl, .refl s⟩
  · dsimp only
    split <;> exact ⟨rfl, rfl, rfl⟩

/-- An epoch that is not ahead passes the gate. -/
theorem onDataEventEpoch_of_le {s : Side} {key_epoch : Nat} (h : key_epoch ≤ s.currentEpoch)
    (now : Nat) : onDataEventEpoch s key_epoch now = (s, .ok ()) :=
  if_pos h

end RotationManager

end MuseAgentSocial.Crypto
