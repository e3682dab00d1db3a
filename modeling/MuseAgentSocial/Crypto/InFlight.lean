import MuseAgentSocial.Crypto.Ring
import MuseAgentSocial.Lib.Machine

/-!
# The rotation in flight

One side and every sequence of calls of its `RotationManager`, with any peer
input, any clock and any events in the log.

* `resolveQuarantine` is the operator override and `confirmRotation` the
  single-process confirm.
* `Orderly` is the invariant: what is in flight is one row, it is ahead of
  everything known, and the keys that it needs are there.
* `rotation_in_flight`: at most one rotation is in flight, an acking one has
  both peer keys and a rotating one both own keys.
-/

namespace MuseAgentSocial.Crypto

open Model RotationManager Keys

/-! ## The operator override -/

/-- The argument `choice` of `resolve_quarantine`. -/
inductive Choice where
  | mine
  | theirs
  | other
  deriving DecidableEq, Repr

/-- What `resolve_quarantine` raises. -/
inductive ResolveError where
  | bad_quarantine_index
  | bad_choice
  | not_resolvable
  | raised (raised : Raised)
  deriving DecidableEq, Repr

theorem Rotation.key_discarded (r : Rotation) : ({ r with phase := .discarded } : Rotation).key = r.key := rfl

theorem Rotation.key_confirmed (now : Nat) (r : Rotation) :
    ({ r with phase := .confirmed, confirmed_at := some now } : Rotation).key = r.key := rfl

namespace RotationManager

/-- `_discard_candidate` without an expected phase. -/
def discardInFlight (s : Side) (epoch : Nat) : Except Raised (Side × Bool × Option KeyRef) :=
  if (s.rotation epoch .rotating).any (·.live) then
    if (s.ownRow epoch).isSome ∧ s.referenced epoch = true then
      .error .integrity_error
    else
      let discarded := s.updateRotation epoch .rotating
        (fun r => { r with phase := .discarded }) Rotation.key_discarded
      .ok ({ discarded with
              key_epochs := discarded.key_epochs.delete (fun r => r.epoch = epoch ∧ r.isOwn = true) },
        true, (s.ownRow epoch).map (·.private_key_ref))
  else
    .ok (s, false, none)

/-- `DELETE FROM rotation_quarantine WHERE id = ?`, for the row that stood at
`index` of `before`. -/
def deleteQuarantined (before : List QuarantineRow) (index : Nat) (after : List QuarantineRow) :
    List QuarantineRow :=
  after.eraseIdx ((before.take index).countP after.contains)

/-- `resolve_quarantine` with the choice "theirs". -/
def resolveTheirs (s : Side) (index : Nat) (epoch : Nat) (prepare : Prepare)
    (prepare_event_id : EventId) (now : Nat) : Side × Except ResolveError (Option Ack) :=
  match discardInFlight s epoch with
  | .error raised => (s, .error (.raised raised))
  | .ok (discarded, _, path) =>
    match onPrepare (path.elim discarded discarded.deletePrivateKey) prepare prepare_event_id now with
    | (s', .error raised) => (s', .error (.raised raised))
    | (s', .ok ack) =>
      ({ s' with
          rotation_quarantine := deleteQuarantined s.rotation_quarantine index s'.rotation_quarantine },
        .ok (some ack))

/-- `resolve_quarantine`. -/
def resolveQuarantine (s : Side) (index : Int) (choice : Choice) (now : Nat) :
    Side × Except ResolveError (Option Ack) :=
  if index < 0 then (s, .error .bad_quarantine_index)
  else
    match s.rotation_quarantine[index.toNat]? with
    | none => (s, .error .bad_quarantine_index)
    | some entry =>
      match choice, entry.reason with
      | .other, _ => (s, .error .bad_choice)
      | .theirs, .conflicting_prepare prepare prepare_event_id =>
        resolveTheirs s index.toNat entry.epoch prepare prepare_event_id now
      | .mine, .conflicting_prepare _ _ =>
        ({ s with rotation_quarantine := s.rotation_quarantine.eraseIdx index.toNat }, .ok none)
      | _, _ => (s, .error .not_resolvable)

/-- `confirm_rotation`. -/
def confirmRotation (s : Side) (now : Nat) : Side × Except Raised Nat :=
  match s.inFlightAs .rotating with
  | none => (s, .error (.rotation .nothing_to_confirm))
  | some r =>
    if r.phase = .confirmed then (s, .ok r.epoch)
    else if r.phase ≠ .acknowledged then (s, .error (.rotation .nothing_to_confirm))
    else if !r.new_wrap_seen then (s, .error (.rotation .no_new_wrap_seen))
    else
      (s.updateRotation r.epoch .rotating
        (fun r => { r with phase := .confirmed, confirmed_at := some now }) (Rotation.key_confirmed now), .ok r.epoch)

end RotationManager

/-! ## The calls -/

/-- A call on the store of one side.  The parts of `sweep` are calls of their own
too, since an error in another relationship can end the sweep between them. -/
inductive RotationCall where
  | beginRotation (now : Nat) (new_priv : PrivateKey) (prepare_event_id : Option EventId)
  | onPrepare (prepare : Prepare) (prepare_event_id : EventId) (now : Nat)
  | onAck (ack : Ack) (now : Nat)
  | noteDecryptedNewWrap (epoch now : Nat)
  | markConfirmed (now : Nat)
  | confirmRotation (now : Nat)
  | onConfirm (epoch now : Nat)
  | markCommitted (now : Nat)
  | onCommit (epoch now : Nat)
  | noteAcceptedEvent
  | onDataEventEpoch (key_epoch now : Nat)
  | sweep (now : Nat)
  | sweepCompact (now : Nat)
  | sweepTimeout (now : Nat)
  | sweepRetire (epoch now : Nat)
  | resolveQuarantine (index : Int) (choice : Choice) (now : Nat)
  /-- An event enters the log, where it references its epoch. -/
  | store (event : StoredEvent)
  deriving Repr

/-- The store after a call. -/
def Side.call (s : Side) : RotationCall → Side
  | .beginRotation now new_priv id => (RotationManager.beginRotation s now new_priv id).1
  | .onPrepare prepare id now => (RotationManager.onPrepare s prepare id now).1
  | .onAck ack now => (RotationManager.onAck s ack now).1
  | .noteDecryptedNewWrap epoch now => RotationManager.noteDecryptedNewWrap s epoch now
  | .markConfirmed now => (RotationManager.markConfirmed s now).1
  | .confirmRotation now => (RotationManager.confirmRotation s now).1
  | .onConfirm epoch now => (RotationManager.onConfirm s epoch now).1
  | .markCommitted now => (RotationManager.markCommitted s now).1
  | .onCommit epoch now => (RotationManager.onCommit s epoch now).1
  | .noteAcceptedEvent => RotationManager.noteAcceptedEvent s
  | .onDataEventEpoch epoch now => (RotationManager.onDataEventEpoch s epoch now).1
  | .sweep now => (RotationManager.sweep s now).1
  | .sweepCompact now => (RotationManager.sweepCompact s now).1
  | .sweepTimeout now => (RotationManager.sweepTimeout s now).1
  | .sweepRetire epoch now =>
    match (s.rotation epoch .rotating).filter (·.phase = .committed) with
    | some row => (RotationManager.sweepRetire s row now).1
    | none => s
  | .resolveQuarantine index choice now => (RotationManager.resolveQuarantine s index choice now).1
  | .store event => { s with events := s.events.insertOrIgnore event }

/-- A side right after pairing. -/
structure Side.Fresh (s : Side) : Prop where
  idle : s.key_rotations = Table.empty
  peer : s.peer_agreement_key.isSome = true
  own : (s.ownRow s.key_epoch).isSome = true
  only : ∀ e row, s.key_epochs.find e = some row → e = s.key_epoch

/-- The calls on the store of one side after pairing. -/
def rotationCalls : Machine Side RotationCall where
  init := Side.Fresh
  step s call := some (s.call call)

/-! ## The invariant -/

/-- The rotation in flight is ahead of everything known and has its keys. -/
structure Orderly (k : Keys) : Prop where
  peer : k.peer_agreement_key.isSome = true
  unique : ∀ e role r e' role' r', k.rotation e role = some r → k.rotation e' role' = some r' →
    r.live = true → r'.live = true → e = e' ∧ role = role'
  acking : ∀ e r, k.rotation e .acking = some r → r.phase ≠ .discarded
  top : ∀ e role r, k.rotation e role = some r → r.live = true →
    k.key_epoch < e ∧ ∀ e' row, k.key_epochs.find e' = some row → e' ≤ e
  committed : ∀ e role r, k.rotation e role = some r → r.phase = .committed → e ≤ k.key_epoch
  /-- A live acking row has the new peer key and the prior one. -/
  peerKeys : ∀ e r, k.rotation e .acking = some r → r.live = true →
    (k.peerRow e).isSome = true ∧ r.prior_epoch + 1 = e ∧
      (r.prior_epoch = k.key_epoch ∨ (k.peerRow r.prior_epoch).isSome = true)
  /-- A committed acking row has a peer row that is at least as new. -/
  keptPeer : ∀ e r, k.rotation e .acking = some r → r.phase = .committed →
    ∃ e', e ≤ e' ∧ (k.peerRow e').isSome = true
  /-- A peer row without an acking row is not repaired by a redelivery, since the
  key before it is not known any more. -/
  repaired : ∀ p, (k.peerRow (p + 1)).isSome = true → k.rotation (p + 1) .acking = none →
    p ≠ k.key_epoch ∧ k.peerRow p = none
  /-- A live rotating row has the candidate key and the newest key before it. -/
  ownKeys : ∀ e r, k.rotation e .rotating = some r → r.live = true →
    (k.ownRow e).isSome = true ∧ (k.ownRow r.prior_epoch).isSome = true ∧ r.prior_epoch < e ∧
      ∀ e', (k.ownRow e').isSome = true → e' ≠ e → e' ≤ r.prior_epoch
  /-- A committed rotating row has an own key that is at least as new. -/
  retired : ∀ e r, k.rotation e .rotating = some r → r.phase = .committed →
    r.prior_epoch < e ∧ ∃ e', e ≤ e' ∧ (k.ownRow e').isSome = true
  behind : ∀ e r e' r', k.rotation e .rotating = some r → r.phase = .committed →
    k.rotation e' .rotating = some r' → r'.live = true → e ≤ r'.prior_epoch

theorem Side.Fresh.orderly {s : Side} (h : s.Fresh) : Orderly s.toKeys := by
  have hnone : ∀ e role, s.rotation e role = none := by
    intro e role
    unfold Keys.rotation
    rw [h.idle]
    exact Table.find_empty _
  have hrot : ∀ {e role r}, s.rotation e role = some r → False := by
    intro e role r hr
    exact absurd ((hnone e role).symm.trans hr) (by simp)
  have hpeer : ∀ e, s.peerRow e = none := by
    intro e
    cases hrow : s.peerRow e with
    | none => rfl
    | some row =>
      obtain ⟨hfind, hpeer⟩ := peerRow_eq_some.mp hrow
      obtain rfl := h.only e row hfind
      obtain ⟨own, hown⟩ := Option.isSome_iff_exists.mp h.own
      obtain ⟨hfind', hown'⟩ := ownRow_eq_some.mp hown
      obtain rfl := Option.some.inj (hfind.symm.trans hfind')
      exact absurd (hpeer.symm.trans hown') (by simp)
  exact
    { peer := h.peer
      unique := fun _ _ _ _ _ _ hr => absurd (hrot hr) id
      acking := fun _ _ hr => absurd (hrot hr) id
      top := fun _ _ _ hr => absurd (hrot hr) id
      committed := fun _ _ _ hr => absurd (hrot hr) id
      peerKeys := fun _ _ hr => absurd (hrot hr) id
      keptPeer := fun _ _ hr => absurd (hrot hr) id
      repaired := fun p hp => absurd hp (by rw [hpeer]; simp)
      ownKeys := fun _ _ hr => absurd (hrot hr) id
      retired := fun _ _ hr => absurd (hrot hr) id
      behind := fun _ _ _ _ hr => absurd (hrot hr) id }

/-! ## Moving phases -/

variable {k k' : Keys}

theorem peerRow_congr (h : k'.key_epochs = k.key_epochs) (e : Nat) :
    k'.peerRow e = k.peerRow e := by
  simp [Keys.peerRow, h]

theorem committed_of_move {allowed : Nat → Role → Phase → Phase → Prop} (hkeep : KeepsLive allowed)
    {e : Nat} {role : Role} {r r' : Rotation}
    (h : r'.phase = r.phase ∨ allowed e role r.phase r'.phase) (hphase : r'.phase = .committed) :
    r.phase = .committed := by
  obtain h | h := h
  · exact h.symm.trans hphase
  · exact absurd hphase (hkeep _ _ _ _ h).2.1

theorem Keys.Evolves.orderly {allowed : Nat → Role → Phase → Phase → Prop}
    (hkeep : KeepsLive allowed) (h : Evolves allowed k k') (ho : Orderly k) : Orderly k' := by
  have hown := ownRow_congr h.key_epochs
  have hpeer := peerRow_congr h.key_epochs
  have hback : ∀ e role r', k'.rotation e role = some r' →
      ∃ r, k.rotation e role = some r ∧ r.prior_epoch = r'.prior_epoch ∧
        (r'.live = true → r.live = true) ∧ (r'.phase = .committed → r.phase = .committed) ∧
        (r'.phase = .discarded → r.phase = .discarded) := by
    intro e role r' hr'
    obtain ⟨r, hr, horigin, hphase⟩ := h.back e role r' hr'
    refine ⟨r, hr, (congrArg Origin.prior_epoch horigin).symm, ?_, committed_of_move hkeep hphase, ?_⟩
    · rw [live_eq_of_move hkeep hphase]
      exact id
    · intro hd
      obtain hp | hp := hphase
      · exact hp.symm.trans hd
      · exact absurd hd (hkeep _ _ _ _ hp).2.2
  refine
    { peer := by rw [h.peer_agreement_key]; exact ho.peer
      unique := ?_, acking := ?_, top := ?_, committed := ?_, peerKeys := ?_, keptPeer := ?_,
      repaired := ?_, ownKeys := ?_, retired := ?_, behind := ?_ }
  · intro e role r e' role' r' hr hr' hl hl'
    obtain ⟨r₁, hr₁, -, hl₁, -⟩ := hback e role r hr
    obtain ⟨r₂, hr₂, -, hl₂, -⟩ := hback e' role' r' hr'
    exact ho.unique e role r₁ e' role' r₂ hr₁ hr₂ (hl₁ hl) (hl₂ hl')
  · intro e r hr hd
    obtain ⟨r₁, hr₁, -, -, -, hd₁⟩ := hback e _ r hr
    exact ho.acking e r₁ hr₁ (hd₁ hd)
  · intro e role r hr hl
    obtain ⟨r₁, hr₁, -, hl₁, -⟩ := hback e role r hr
    rw [h.key_epoch, h.key_epochs]
    exact ho.top e role r₁ hr₁ (hl₁ hl)
  · intro e role r hr hc
    obtain ⟨r₁, hr₁, -, -, hc₁, -⟩ := hback e role r hr
    rw [h.key_epoch]
    exact ho.committed e role r₁ hr₁ (hc₁ hc)
  · intro e r hr hl
    obtain ⟨r₁, hr₁, hprior, hl₁, -⟩ := hback e _ r hr
    rw [hpeer, hpeer, h.key_epoch, ← hprior]
    exact ho.peerKeys e r₁ hr₁ (hl₁ hl)
  · intro e r hr hc
    obtain ⟨r₁, hr₁, -, -, hc₁, -⟩ := hback e _ r hr
    obtain ⟨e', hle, hrow⟩ := ho.keptPeer e r₁ hr₁ (hc₁ hc)
    exact ⟨e', hle, by rw [hpeer]; exact hrow⟩
  · intro p hp hnone
    rw [hpeer] at hp
    rw [hpeer, h.key_epoch]
    refine ho.repaired p hp ?_
    cases hr : k.rotation (p + 1) .acking with
    | none => rfl
    | some r =>
      obtain ⟨r', hr', -⟩ := h.forth _ _ r hr
      exact absurd (hnone.symm.trans hr') (by simp)
  · intro e r hr hl
    obtain ⟨r₁, hr₁, hprior, hl₁, -⟩ := hback e _ r hr
    obtain ⟨hnew, hold, hlt, hnewest⟩ := ho.ownKeys e r₁ hr₁ (hl₁ hl)
    rw [hown, hown, ← hprior]
    exact ⟨hnew, hold, hlt, fun e' he' => hnewest e' (hown e' ▸ he')⟩
  · intro e r hr hc
    obtain ⟨r₁, hr₁, hprior, -, hc₁, -⟩ := hback e _ r hr
    obtain ⟨hlt, e', hle, hrow⟩ := ho.retired e r₁ hr₁ (hc₁ hc)
    exact ⟨hprior ▸ hlt, e', hle, by rw [hown]; exact hrow⟩
  · intro e r e' r' hr hc hr' hl
    obtain ⟨r₁, hr₁, -, -, hc₁, -⟩ := hback e _ r hr
    obtain ⟨r₂, hr₂, hprior, hl₂, -⟩ := hback e' _ r' hr'
    rw [← hprior]
    exact ho.behind e r₁ e' r₂ hr₁ (hc₁ hc) hr₂ (hl₂ hl)

theorem Orderly.of_eq (ho : Orderly k) (hepoch : k'.key_epoch = k.key_epoch)
    (hkey : k'.peer_agreement_key = k.peer_agreement_key) (hepochs : k'.key_epochs = k.key_epochs)
    (hrot : ∀ e role, k'.rotation e role = k.rotation e role) : Orderly k' := by
  have hown := ownRow_congr hepochs
  have hpeer := peerRow_congr hepochs
  exact
    { peer := by rw [hkey]; exact ho.peer
      unique := by simp only [hrot]; exact ho.unique
      acking := by simp only [hrot]; exact ho.acking
      top := by simp only [hrot, hepoch, hepochs]; exact ho.top
      committed := by simp only [hrot, hepoch]; exact ho.committed
      peerKeys := by simp only [hrot, hpeer, hepoch]; exact ho.peerKeys
      keptPeer := by simp only [hrot, hpeer]; exact ho.keptPeer
      repaired := by simp only [hrot, hpeer, hepoch]; exact ho.repaired
      ownKeys := by simp only [hrot, hown]; exact ho.ownKeys
      retired := by simp only [hrot, hown]; exact ho.retired
      behind := by simp only [hrot]; exact ho.behind }

theorem key_epoch_le_currentEpoch (h : k.peer_agreement_key.isSome = true) :
    k.key_epoch ≤ k.currentEpoch := by
  obtain ⟨key, hkey⟩ := Option.isSome_iff_exists.mp h
  apply le_foldr_max
  apply List.mem_append_right
  unfold peerKeyEpochs
  rw [hkey]
  exact List.mem_map.mpr ⟨_, List.mem_cons_self, rfl⟩

namespace RotationManager

/-! ## Commits -/

variable {epoch now e prior_epoch : Nat} {prepare : Prepare} {k : Keys}

section

variable {s s' : Side}

/-- The commit of the rotation in flight leaves nothing in flight. -/
theorem CommitsRow.orderly {role : Role} {r₀ r₁ : Rotation} (h : CommitsRow s epoch role r₀ r₁ s')
    (hkey : s'.peer_agreement_key.isSome = true) (ho : Orderly s.toKeys) : Orderly s'.toKeys := by
  have hown := ownRow_congr h.key_epochs
  have hpeer := peerRow_congr h.key_epochs
  have hlive : r₀.live = true := by
    rw [Rotation.live_iff, h.confirmed]
    simp
  have hidle : ∀ e role' r, s'.rotation e role' = some r → r.live = true → False := by
    intro e role' r hr hl
    rw [h.rotation] at hr
    split_ifs at hr with hkey
    · obtain rfl := Option.some.inj hr
      exact (Rotation.live_iff.mp hl).1 h.committed
    · obtain ⟨rfl, rfl⟩ := ho.unique e role' r epoch role r₀ hr h.row hl hlive
      exact hkey rfl
  obtain ⟨habove, htop⟩ := ho.top epoch role r₀ h.row hlive
  have hbefore : ∀ e role' r, s'.rotation e role' = some r → r.phase = .committed →
      (e = epoch ∧ role' = role ∧ r = r₁) ∨ s.rotation e role' = some r := by
    intro e role' r hr _
    rw [h.rotation] at hr
    split_ifs at hr with hkey
    · exact Or.inl ⟨(Prod.mk.inj hkey).1, (Prod.mk.inj hkey).2, (Option.some.inj hr).symm⟩
    · exact Or.inr hr
  refine
    { peer := hkey
      unique := fun e role r _ _ _ hr _ hl => absurd (hidle e role r hr hl) id
      acking := ?_
      top := fun e role r hr hl => absurd (hidle e role r hr hl) id
      committed := ?_
      peerKeys := fun e r hr hl => absurd (hidle e _ r hr hl) id
      keptPeer := ?_, repaired := ?_
      ownKeys := fun e r hr hl => absurd (hidle e _ r hr hl) id
      retired := ?_
      behind := fun _ _ e' r' _ _ hr' hl => absurd (hidle e' _ r' hr' hl) id }
  · intro e r hr hd
    rw [h.rotation] at hr
    split_ifs at hr with hk
    · obtain rfl := Option.some.inj hr
      exact absurd (h.committed.symm.trans hd) (by simp)
    · exact ho.acking e r hr hd
  · intro e role' r hr hc
    rw [h.key_epoch]
    obtain ⟨rfl, -, -⟩ | hr := hbefore e role' r hr hc
    · exact le_rfl
    · exact (ho.committed e role' r hr hc).trans habove.le
  · intro e r hr hc
    obtain ⟨rfl, hrole, -⟩ | hr := hbefore e _ r hr hc
    · refine ⟨e, le_rfl, ?_⟩
      rw [hpeer]
      exact (ho.peerKeys e r₀ (hrole ▸ h.row) hlive).1
    · obtain ⟨e', hle, hrow⟩ := ho.keptPeer e r hr hc
      exact ⟨e', hle, by rw [hpeer]; exact hrow⟩
  · intro p hp hnone
    rw [hpeer] at hp
    rw [hpeer, h.key_epoch]
    obtain ⟨row, hrow⟩ := Option.isSome_iff_exists.mp hp
    have hle := htop (p + 1) row (peerRow_eq_some.mp hrow).1
    refine ⟨by omega, (ho.repaired p hp ?_).2⟩
    rw [h.rotation] at hnone
    split_ifs at hnone with hk
    exact hnone
  · intro e r hr hc
    obtain ⟨rfl, hrole, rfl⟩ | hr := hbefore e _ r hr hc
    · obtain ⟨hnew, -, hlt, -⟩ := ho.ownKeys e r₀ (hrole ▸ h.row) hlive
      have hprior : r.prior_epoch = r₀.prior_epoch := congrArg Origin.prior_epoch h.origin
      exact ⟨hprior ▸ hlt, e, le_rfl, by rw [hown]; exact hnew⟩
    · obtain ⟨hlt, e', hle, hrow⟩ := ho.retired e r hr hc
      exact ⟨hlt, e', hle, by rw [hown]; exact hrow⟩

theorem onCommit_orderly (ho : Orderly s.toKeys) (epoch now : Nat) :
    Orderly (onCommit s epoch now).1.toKeys := by
  obtain h | ⟨r₀, r₁, h, hkey, -⟩ := onCommit_cases s epoch now
  · rw [h]
    exact ho
  · exact h.orderly (by rw [hkey]; exact ho.peer) ho

theorem markCommitted_orderly (ho : Orderly s.toKeys) (now : Nat) :
    Orderly (markCommitted s now).1.toKeys := by
  obtain h | ⟨r₀, r₁, h, hkey, -⟩ := markCommitted_cases s now
  · rw [h]
    exact ho
  · exact h.orderly (by rw [hkey]; rfl) ho

/-! ## Beginning and acknowledging -/

theorem Begun.orderly {priv : PrivateKey} {id : Option EventId} {prior : KeyRow}
    (h : Begun s now priv id s' epoch prepare prior)
    (ho : Orderly s.toKeys) : Orderly s'.toKeys := by
  have hidle := inFlight_eq_none.mp h.idle
  have hnew := h.epoch_eq
  have hkey := key_epoch_le_currentEpoch ho.peer
  have hlt : ∀ e row, s.key_epochs.find e = some row → e < epoch := by
    intro e row hrow
    have hle := le_currentEpoch hrow
    omega
  have hown : ∀ e, s'.ownRow e =
      if e = epoch then some ⟨epoch, priv.publicKey, .file epoch⟩ else s.ownRow e := by
    intro e
    unfold Keys.ownRow
    rw [h.key_epochs]
    split_ifs <;> rfl
  have hkept : ∀ e, (s.ownRow e).isSome = true → (s'.ownRow e).isSome = true := by
    intro e he
    rw [hown]
    split_ifs
    · rfl
    · exact he
  have hpeer : ∀ e, s'.peerRow e = s.peerRow e := by
    intro e
    unfold Keys.peerRow
    rw [h.key_epochs]
    split_ifs with he
    · subst he
      cases hrow : s.key_epochs.find e with
      | none => rfl
      | some row => exact absurd (hlt e row hrow) (lt_irrefl _)
    · rfl
  have hprior : (s.ownRow prior.epoch).isSome = true := Option.isSome_of_eq_some h.prior_own
  have hpriorlt : prior.epoch < epoch := hlt _ _ (ownRow_eq_some.mp h.prior_own).1
  have hlive : ∀ e role r, s'.rotation e role = some r → r.live = true →
      e = epoch ∧ role = .rotating ∧ r = candidateRow epoch prior now priv id := by
    intro e role r hr hl
    rw [h.rotation] at hr
    split_ifs at hr with hk
    · exact ⟨(Prod.mk.inj hk).1, (Prod.mk.inj hk).2, (Option.some.inj hr).symm⟩
    · exact absurd ((hidle e role r hr).symm.trans hl) (by simp)
  have hacking : ∀ e, s'.rotation e .acking = s.rotation e .acking := by
    intro e
    rw [h.rotation, if_neg (by simp)]
  have hcommitted : ∀ e role r, s'.rotation e role = some r → r.phase = .committed →
      s.rotation e role = some r := by
    intro e role r hr hc
    rw [h.rotation] at hr
    split_ifs at hr with hk
    · obtain rfl := Option.some.inj hr
      exact absurd hc (by simp [candidateRow])
    · exact hr
  refine
    { peer := by rw [h.peer_agreement_key]; exact ho.peer
      unique := ?_
      acking := fun e r hr => ho.acking e r (hacking e ▸ hr)
      top := ?_, committed := ?_, peerKeys := ?_, keptPeer := ?_, repaired := ?_, ownKeys := ?_
      retired := ?_, behind := ?_ }
  · intro e role r e' role' r' hr hr' hl hl'
    obtain ⟨rfl, rfl, -⟩ := hlive e role r hr hl
    obtain ⟨rfl, rfl, -⟩ := hlive e' role' r' hr' hl'
    exact ⟨rfl, rfl⟩
  · intro e role r hr hl
    obtain ⟨rfl, -, -⟩ := hlive e role r hr hl
    rw [h.key_epoch]
    refine ⟨by omega, fun e' row hrow => ?_⟩
    rw [h.key_epochs] at hrow
    split_ifs at hrow with he
    · exact he.le
    · exact (hlt e' row hrow).le
  · intro e role r hr hc
    rw [h.key_epoch]
    exact ho.committed e role r (hcommitted e role r hr hc) hc
  · intro e r hr hl
    exact absurd (hlive e _ r hr hl).2.1 (by simp)
  · intro e r hr hc
    obtain ⟨e', hle, hrow⟩ := ho.keptPeer e r (hacking e ▸ hr) hc
    exact ⟨e', hle, by rw [hpeer]; exact hrow⟩
  · intro p hp hnone
    rw [hpeer] at hp
    rw [hacking] at hnone
    rw [hpeer, h.key_epoch]
    exact ho.repaired p hp hnone
  · intro e r hr hl
    obtain ⟨rfl, -, rfl⟩ := hlive e _ r hr hl
    refine ⟨?_, hkept _ hprior, hpriorlt, fun e' he' hne => ?_⟩
    · rw [hown, if_pos rfl]
      rfl
    · rw [hown, if_neg hne] at he'
      obtain ⟨row, hrow⟩ := Option.isSome_iff_exists.mp he'
      exact h.prior_top e' row hrow
  · intro e r hr hc
    obtain ⟨hlt', e', hle, hrow⟩ := ho.retired e r (hcommitted e _ r hr hc) hc
    exact ⟨hlt', e', hle, hkept e' hrow⟩
  · intro e r e' r' hr hc hr' hl
    obtain ⟨-, -, rfl⟩ := hlive e' _ r' hr' hl
    obtain ⟨-, e₁, hle, hrow⟩ := ho.retired e r (hcommitted e _ r hr hc) hc
    obtain ⟨row, hrow⟩ := Option.isSome_iff_exists.mp hrow
    exact hle.trans (h.prior_top e₁ row hrow)

theorem OnlyFile.orderly (h : OnlyFile s epoch s') (ho : Orderly s.toKeys) : Orderly s'.toKeys := by
  refine ho.of_eq h.key_epoch h.peer_agreement_key h.key_epochs (fun e role => ?_)
  simp [Keys.rotation, h.key_rotations]

theorem beginRotation_orderly (ho : Orderly s.toKeys) (now : Nat) (priv : PrivateKey)
    (id : Option EventId) : Orderly (beginRotation s now priv id).1.toKeys := by
  obtain ⟨epoch, prepare, prior, -, h⟩ | ⟨raised, -, h⟩ := beginRotation_cases s now priv id
  · exact h.orderly ho
  · exact h.orderly ho

theorem of_mem_peerKeyEpochs {key : AgreementKey} (h : (e, key) ∈ k.peerKeyEpochs) :
    e = k.key_epoch ∨ (k.peerRow e).isSome = true := by
  have hrow : (e, key) ∈ k.peerRows.map (fun r => (r.epoch, r.public_key)) → (k.peerRow e).isSome = true := by
    intro hmem
    obtain ⟨row, hrow, heq⟩ := List.mem_map.mp hmem
    obtain rfl := (Prod.mk.inj heq).1
    exact Option.isSome_of_eq_some (mem_peerRows.mp hrow)
  unfold peerKeyEpochs at h
  cases hkey : k.peer_agreement_key with
  | none =>
    rw [hkey] at h
    exact Or.inr (hrow h)
  | some peer =>
    rw [hkey] at h
    obtain heq | hmem := List.mem_cons.mp h
    · exact Or.inl (Prod.mk.inj heq).1
    · exact Or.inr (hrow (List.mem_filter.mp hmem).1)

theorem Acknowledged.known {id : EventId} (h : Acknowledged s prepare id now s' prior_epoch) :
    prior_epoch = s.key_epoch ∨ (s.peerRow prior_epoch).isSome = true := by
  obtain ⟨key, hkey⟩ := h.prior
  exact of_mem_peerKeyEpochs (List.mem_of_find?_eq_some hkey)

theorem Acknowledged.redelivered {id : EventId} (h : Acknowledged s prepare id now s' prior_epoch)
    (ho : Orderly s.toKeys) (hrow : (s.peerRow (prior_epoch + 1)).isSome = true) (e : Nat)
    (role : Role) :
    s'.rotation e role = s.rotation e role := by
  rw [h.rotation]
  split_ifs with hk
  · obtain ⟨rfl, rfl⟩ := Prod.mk.inj hk
    cases hr : s.rotation (prior_epoch + 1) .acking with
    | none =>
      obtain ⟨hne, hnone⟩ := ho.repaired prior_epoch hrow hr
      obtain heq | hsome := h.known
      · exact absurd heq hne
      · rw [hnone] at hsome
        exact absurd hsome (by simp)
    | some r =>
      have hphase := ho.acking _ r hr
      simp [Option.filter, hphase]
  · rfl

theorem Acknowledged.orderly {id : EventId} (h : Acknowledged s prepare id now s' prior_epoch)
    (ho : Orderly s.toKeys) : Orderly s'.toKeys := by
  obtain ⟨⟨existing, hexisting, -⟩, hepochs⟩ | ⟨hflight, hcurrent, -, hepochs⟩ := h.peer_key
  · exact ho.of_eq h.key_epoch h.peer_agreement_key hepochs
      (h.redelivered ho (Option.isSome_of_eq_some hexisting))
  set epoch := prior_epoch + 1 with hepoch
  have hidle := inFlight_eq_none.mp hflight
  have hkey := key_epoch_le_currentEpoch ho.peer
  have hlt : ∀ e row, s.key_epochs.find e = some row → e < epoch := by
    intro e row hrow
    have hle := le_currentEpoch hrow
    omega
  have hpeer : ∀ e, s'.peerRow e =
      if e = epoch then some ⟨epoch, prepare.new_agreement_key, .peer⟩ else s.peerRow e := by
    intro e
    unfold Keys.peerRow
    rw [hepochs]
    split_ifs <;> rfl
  have hkept : ∀ e, (s.peerRow e).isSome = true → (s'.peerRow e).isSome = true := by
    intro e he
    rw [hpeer]
    split_ifs
    · rfl
    · exact he
  have hown : ∀ e, s'.ownRow e = s.ownRow e := by
    intro e
    unfold Keys.ownRow
    rw [hepochs]
    split_ifs with he
    · subst he
      cases hrow : s.key_epochs.find epoch with
      | none => rfl
      | some row => exact absurd (hlt epoch row hrow) (lt_irrefl _)
    · rfl
  have hfresh : (s.rotation epoch .acking).filter (fun r => decide (r.phase ≠ .discarded)) = none := by
    cases hr : s.rotation epoch .acking with
    | none => rfl
    | some r =>
      have hdead := hidle epoch _ r hr
      have hphase := ho.acking epoch r hr
      -- the row is committed, so its epoch is known already
      have hcommitted : r.phase = .committed := by
        by_contra hne
        rw [Rotation.live_iff.mpr ⟨hne, hphase⟩] at hdead
        exact absurd hdead (by simp)
      have hle := ho.committed epoch _ r hr hcommitted
      omega
  have hrot : ∀ e role, s'.rotation e role =
      if (e, role) = (epoch, Role.acking) then some (ackingRow epoch prior_epoch prepare id now)
      else s.rotation e role := by
    intro e role
    rw [h.rotation, ← hepoch, hfresh]
    rfl
  have hlive : ∀ e role r, s'.rotation e role = some r → r.live = true →
      e = epoch ∧ role = .acking ∧ r = ackingRow epoch prior_epoch prepare id now := by
    intro e role r hr hl
    rw [hrot] at hr
    split_ifs at hr with hk
    · exact ⟨(Prod.mk.inj hk).1, (Prod.mk.inj hk).2, (Option.some.inj hr).symm⟩
    · exact absurd ((hidle e role r hr).symm.trans hl) (by simp)
  have hcommitted : ∀ e role r, s'.rotation e role = some r → r.phase = .committed →
      s.rotation e role = some r := by
    intro e role r hr hc
    rw [hrot] at hr
    split_ifs at hr with hk
    · obtain rfl := Option.some.inj hr
      exact absurd hc (by simp [ackingRow])
    · exact hr
  refine
    { peer := by rw [h.peer_agreement_key]; exact ho.peer
      unique := ?_, acking := ?_, top := ?_, committed := ?_, peerKeys := ?_, keptPeer := ?_
      repaired := ?_, ownKeys := ?_, retired := ?_, behind := ?_ }
  · intro e role r e' role' r' hr hr' hl hl'
    obtain ⟨rfl, rfl, -⟩ := hlive e role r hr hl
    obtain ⟨rfl, rfl, -⟩ := hlive e' role' r' hr' hl'
    exact ⟨rfl, rfl⟩
  · intro e r hr hd
    rw [hrot] at hr
    split_ifs at hr with hk
    · obtain rfl := Option.some.inj hr
      exact absurd hd (by simp [ackingRow])
    · exact ho.acking e r hr hd
  · intro e role r hr hl
    obtain ⟨rfl, -, -⟩ := hlive e role r hr hl
    rw [h.key_epoch]
    refine ⟨by omega, fun e' row hrow => ?_⟩
    rw [hepochs] at hrow
    split_ifs at hrow with he
    · exact he.le
    · exact (hlt e' row hrow).le
  · intro e role r hr hc
    rw [h.key_epoch]
    exact ho.committed e role r (hcommitted e role r hr hc) hc
  · intro e r hr hl
    obtain ⟨rfl, -, rfl⟩ := hlive e _ r hr hl
    refine ⟨?_, rfl, ?_⟩
    · rw [hpeer, if_pos rfl]
      rfl
    · rw [h.key_epoch]
      exact h.known.imp_right (hkept _)
  · intro e r hr hc
    obtain ⟨e', hle, hrow⟩ := ho.keptPeer e r (hcommitted e _ r hr hc) hc
    exact ⟨e', hle, hkept e' hrow⟩
  · intro p hp hnone
    rw [hrot] at hnone
    split_ifs at hnone with hk
    have hne : p + 1 ≠ epoch := fun heq => hk (by rw [heq])
    rw [hpeer, if_neg hne] at hp
    obtain ⟨row, hrow⟩ := Option.isSome_iff_exists.mp hp
    have hbelow := hlt (p + 1) row (peerRow_eq_some.mp hrow).1
    rw [hpeer, if_neg (by omega), h.key_epoch]
    exact ho.repaired p hp hnone
  · intro e r hr hl
    exact absurd (hlive e _ r hr hl).2.1 (by simp)
  · intro e r hr hc
    obtain ⟨hlt', e', hle, hrow⟩ := ho.retired e r (hcommitted e _ r hr hc) hc
    exact ⟨hlt', e', hle, by rw [hown]; exact hrow⟩
  · intro e r e' r' hr hc hr' hl
    exact absurd (hlive e' _ r' hr' hl).2.1 (by simp)

theorem onPrepare_orderly (ho : Orderly s.toKeys) (prepare : Prepare) (id : EventId) (now : Nat) :
    Orderly (onPrepare s prepare id now).1.toKeys := by
  obtain ⟨hsame, -⟩ | ⟨prior_epoch, -, h⟩ := onPrepare_cases s prepare id now
  · rw [hsame]
    exact ho
  · exact h.orderly ho

/-! ## Sweeping -/

theorem peerEpochs_nodup (k : Keys) : (k.peerRows.map (·.epoch)).Nodup :=
  (List.Nodup.sublist (List.filter_sublist.map _) k.key_epochs.nodup)

theorem mem_peerEpochs : e ∈ k.peerRows.map (·.epoch) ↔ (k.peerRow e).isSome = true := by
  simp only [List.mem_map, mem_peerRows, Option.isSome_iff_exists]
  constructor
  · rintro ⟨row, hrow, rfl⟩
    exact ⟨row, hrow⟩
  · rintro ⟨row, hrow⟩
    have he : row.epoch = e := Table.key_of_find (peerRow_eq_some.mp hrow).1
    exact ⟨row, he.symm ▸ hrow, he⟩

/-- How many peer rows are newer than an epoch. -/
def newerPeers (k : Keys) (e : Nat) : Nat := (k.peerRows.map (·.epoch)).countP (fun e' => decide (e < e'))

theorem peerRow_sweepCompact {now : Nat}
    (hkeys : ∀ e, (sweepCompact s now).1.key_epochs.find e =
      (s.key_epochs.find e).filter (fun r => !stalePeer s r)) (e : Nat) :
    ((sweepCompact s now).1.peerRow e).isSome = true ↔
      (s.peerRow e).isSome = true ∧ newerPeers s.toKeys e < PEER_KEY_EPOCH_RETAIN_NEWEST := by
  unfold Keys.peerRow
  rw [hkeys]
  cases hrow : s.key_epochs.find e with
  | none => simp
  | some row =>
    have he : row.epoch = e := Table.key_of_find hrow
    cases hown : row.isOwn with
    | true => simp [Option.filter, hown, stalePeer]
    | false =>
      have hpeer : (s.peerRow e).isSome = true := by
        rw [peerRow_eq_some.mpr ⟨hrow, hown⟩]
        rfl
      have hmem := Newest.mem_newest_take (peerEpochs_nodup s.toKeys) PEER_KEY_EPOCH_RETAIN_NEWEST e
      rw [mem_peerEpochs] at hmem
      have hiff : stalePeer s row = false ↔ newerPeers s.toKeys e < PEER_KEY_EPOCH_RETAIN_NEWEST := by
        unfold stalePeer
        rw [hown, he]
        simp only [Bool.not_false, Bool.true_and, Bool.not_eq_false', List.contains_iff_mem]
        exact hmem.trans ⟨fun h => h.2, fun h => ⟨hpeer, h⟩⟩
      cases hstale : stalePeer s row with
      | true =>
        have hnot : ¬ newerPeers s.toKeys e < PEER_KEY_EPOCH_RETAIN_NEWEST := fun h => by
          rw [hiff.mpr h] at hstale
          exact absurd hstale (by simp)
        simp [Option.filter, hstale, hnot]
      | false => simp [Option.filter, hstale, hown, hiff.mp hstale]

theorem newerPeers_lt (top : Nat) (h : ∀ e', (k.peerRow e').isSome = true → e < e' → e' = top) :
    newerPeers k e < PEER_KEY_EPOCH_RETAIN_NEWEST := by
  have hle : newerPeers k e ≤ (k.peerRows.map (·.epoch)).countP (fun e' => decide (e' = top)) := by
    refine List.countP_mono_left (fun e' he' hlt => ?_)
    exact decide_eq_true (h e' (mem_peerEpochs.mp he') (of_decide_eq_true hlt))
  have hone : (k.peerRows.map (·.epoch)).countP (fun e' => decide (e' = top)) ≤ 1 := by
    have hcount := List.nodup_iff_count_le_one.mp (peerEpochs_nodup k) top
    have hsame : (fun e' => decide (e' = top)) = (fun e' => e' == top) := by
      funext e'
      rw [Bool.beq_eq_decide_eq]
    rw [hsame]
    exact hcount
  exact lt_of_le_of_lt (hle.trans hone) (by decide)

theorem two_le_newerPeers {e₁ e₂ : Nat} (h₁ : (k.peerRow e₁).isSome = true)
    (h₂ : (k.peerRow e₂).isSome = true) (hlt₁ : e < e₁) (hlt₂ : e₁ < e₂) :
    PEER_KEY_EPOCH_RETAIN_NEWEST ≤ newerPeers k e := by
  have hsub : [e₁, e₂] ⊆ (k.peerRows.map (·.epoch)).filter (fun e' => decide (e < e')) := by
    intro x hx
    rw [List.mem_filter, mem_peerEpochs]
    obtain rfl | hx := List.mem_cons.mp hx
    · exact ⟨h₁, by simpa using hlt₁⟩
    · obtain rfl := List.mem_singleton.mp hx
      exact ⟨h₂, by simpa using hlt₁.trans hlt₂⟩
  have hnodup : [e₁, e₂].Nodup := by simpa using hlt₂.ne
  have hlength := (List.subperm_of_subset hnodup hsub).length_le
  unfold newerPeers
  rw [List.countP_eq_length_filter]
  exact hlength

theorem exists_newest_peer (h : (k.peerRow e).isSome = true) :
    ∃ top, e ≤ top ∧ (k.peerRow top).isSome = true ∧ ∀ e', (k.peerRow e').isSome = true → e' ≤ top := by
  have hmem := mem_peerEpochs.mpr h
  refine ⟨(k.peerRows.map (·.epoch)).foldr max 0, le_foldr_max hmem, ?_, fun e' he' => ?_⟩
  · rw [← mem_peerEpochs]
    have hne : k.peerRows.map (·.epoch) ≠ [] := List.ne_nil_of_mem hmem
    clear hmem h
    generalize k.peerRows.map (·.epoch) = l at hne
    induction l with
    | nil => exact absurd rfl hne
    | cons a l ih =>
      rw [List.foldr_cons]
      by_cases hl : l = []
      · subst hl
        simp
      · obtain hle | hle := le_total (l.foldr max 0) a
        · rw [max_eq_left hle]
          exact List.mem_cons_self
        · rw [max_eq_right hle]
          exact List.mem_cons_of_mem _ (ih hl)
  · exact le_foldr_max (mem_peerEpochs.mpr he')

theorem sweepCompact_orderly (ho : Orderly s.toKeys) (now : Nat) :
    Orderly (sweepCompact s now).1.toKeys := by
  obtain h | ⟨hepoch, hkey, -, hkeys, hrots⟩ := sweepCompact_cases s now
  · rw [h]
    exact ho
  have hown := ownRow_sweepCompact s now
  have hpeer := peerRow_sweepCompact hkeys
  set s' := (sweepCompact s now).1
  have hback : ∀ e role r, s'.rotation e role = some r → s.rotation e role = some r := by
    intro e role r hr
    rw [hrots] at hr
    exact (Option.filter_eq_some_iff.mp hr).1
  refine
    { peer := by rw [hkey]; exact ho.peer
      unique := fun e role r e' role' r' hr hr' =>
        ho.unique e role r e' role' r' (hback e role r hr) (hback e' role' r' hr')
      acking := fun e r hr => ho.acking e r (hback e _ r hr)
      top := ?_
      committed := fun e role r hr hc => by rw [hepoch]; exact ho.committed e role r (hback e role r hr) hc
      peerKeys := ?_, keptPeer := ?_, repaired := ?_, ownKeys := ?_, retired := ?_
      behind := fun e r e' r' hr hc hr' => ho.behind e r e' r' (hback e _ r hr) hc (hback e' _ r' hr') }
  · intro e role r hr hl
    obtain ⟨habove, htop⟩ := ho.top e role r (hback e role r hr) hl
    rw [hepoch]
    refine ⟨habove, fun e' row hrow => htop e' row ?_⟩
    rw [hkeys] at hrow
    exact (Option.filter_eq_some_iff.mp hrow).1
  · intro e r hr hl
    obtain ⟨hnew, hprior, hknown⟩ := ho.peerKeys e r (hback e _ r hr) hl
    have htop := (ho.top e _ r (hback e _ r hr) hl).2
    have hle : ∀ e', (s.peerRow e').isSome = true → e' ≤ e := by
      intro e' he'
      obtain ⟨row, hrow⟩ := Option.isSome_iff_exists.mp he'
      exact htop e' row (peerRow_eq_some.mp hrow).1
    refine ⟨(hpeer e).mpr ⟨hnew, newerPeers_lt e (fun e' he' hlt => ?_)⟩, hprior, ?_⟩
    · exact absurd (hle e' he') (by omega)
    · rw [hepoch]
      refine hknown.imp_right (fun hrow => (hpeer _).mpr ⟨hrow, newerPeers_lt e (fun e' he' hlt => ?_)⟩)
      have hle' := hle e' he'
      omega
  · intro e r hr hc
    obtain ⟨e', hle, hrow⟩ := ho.keptPeer e r (hback e _ r hr) hc
    obtain ⟨top, hle', hrow', hmax⟩ := exists_newest_peer hrow
    refine ⟨top, hle.trans hle', (hpeer top).mpr ⟨hrow', newerPeers_lt top (fun e₁ he₁ hlt => ?_)⟩⟩
    exact absurd (hmax e₁ he₁) (by omega)
  · intro p hp hnone
    obtain ⟨hrow, -⟩ := (hpeer (p + 1)).mp hp
    rw [hepoch]
    cases hr : s.rotation (p + 1) .acking with
    | none =>
      obtain ⟨hne, hnot⟩ := ho.repaired p hrow hr
      refine ⟨hne, ?_⟩
      rw [Option.eq_none_iff_forall_ne_some]
      intro row hsome
      have hsome' := ((hpeer p).mp (Option.isSome_of_eq_some hsome)).1
      rw [hnot] at hsome'
      exact absurd hsome' (by simp)
    | some r =>
      -- the row is compacted, so a newer rotation is committed
      rw [hrots, hr] at hnone
      have hstale : staleCommitted s now r = true := by
        by_contra hfresh
        rw [Bool.not_eq_true] at hfresh
        simp [Option.filter, hfresh] at hnone
      obtain ⟨hepoch_r, hrole⟩ : r.epoch = p + 1 ∧ r.role = .acking := (rotation_eq_some.mp hr).2
      have hparts : r.phase = .committed ∧
          r.committed_at.any (fun t => t + KEY_ROTATION_COMMITTED_RETENTION ≤ now) = true ∧
          ∃ e ∈ committedEpochs s r.role, r.epoch < e := by
        simpa only [staleCommitted, decide_eq_true_eq] using hstale
      obtain ⟨-, -, e, he, hlt⟩ := hparts
      obtain ⟨r', hr', rfl⟩ := List.mem_map.mp he
      obtain ⟨hmem, hok⟩ := List.mem_filter.mp hr'
      have hrole' : r'.role = r.role ∧ r'.phase = .committed := of_decide_eq_true hok
      have hrow' : s.rotation r'.epoch .acking = some r' :=
        rotation_eq_some.mpr ⟨hmem, rfl, hrole'.1.trans hrole⟩
      have hle := ho.committed _ _ r' hrow' hrole'.2
      obtain ⟨e', hle', hkept⟩ := ho.keptPeer _ r' hrow' hrole'.2
      refine ⟨by omega, ?_⟩
      rw [Option.eq_none_iff_forall_ne_some]
      intro row hsome
      obtain ⟨hold, hfew⟩ := (hpeer p).mp (Option.isSome_of_eq_some hsome)
      have htwo := two_le_newerPeers hrow hkept (Nat.lt_succ_self p) (by omega)
      omega
  · intro e r hr hl
    obtain ⟨hnew, hold, hlt, hnewest⟩ := ho.ownKeys e r (hback e _ r hr) hl
    rw [hown, hown]
    exact ⟨hnew, hold, hlt, fun e' he' => hnewest e' (hown e' ▸ he')⟩
  · intro e r hr hc
    obtain ⟨hlt, e', hle, hrow⟩ := ho.retired e r (hback e _ r hr) hc
    exact ⟨hlt, e', hle, by rw [hown]; exact hrow⟩

/-! ## Removing an own key -/

theorem Removed.peerRow (h : Removed s epoch s') (e : Nat) : s'.peerRow e = s.peerRow e := by
  unfold Keys.peerRow
  rw [h.key_epochs]
  cases hrow : s.key_epochs.find e with
  | none => rfl
  | some row =>
    by_cases hrow : row.epoch = epoch
    · cases hown : row.isOwn <;> simp [Option.filter, hrow, hown]
    · cases hown : row.isOwn <;> simp [Option.filter, hrow, hown]

theorem Removed.orderly {epoch : Nat} (h : Removed s epoch s') (ho : Orderly s.toKeys)
    (hback : ∀ e role r, s'.rotation e role = some r → r.phase ≠ .discarded → s.rotation e role = some r)
    (hacking : ∀ e, s'.rotation e .acking = s.rotation e .acking)
    (hlive : ∀ e r, s'.rotation e .rotating = some r → r.live = true → e ≠ epoch ∧ r.prior_epoch ≠ epoch)
    (hcommitted : ∀ e r, s'.rotation e .rotating = some r → r.phase = .committed →
      ∃ e', e ≤ e' ∧ e' ≠ epoch ∧ (s.ownRow e').isSome = true) : Orderly s'.toKeys := by
  have hown : ∀ e, e ≠ epoch → (s.ownRow e).isSome = true → (s'.ownRow e).isSome = true := by
    intro e hne he
    rw [h.ownRow, if_neg hne]
    exact he
  have hl : ∀ e role r, s'.rotation e role = some r → r.live = true → s.rotation e role = some r :=
    fun e role r hr hl => hback e role r hr (Rotation.live_iff.mp hl).2
  have hc : ∀ e role r, s'.rotation e role = some r → r.phase = .committed → s.rotation e role = some r :=
    fun e role r hr hc => hback e role r hr (by rw [hc]; simp)
  refine
    { peer := by rw [h.peer_agreement_key]; exact ho.peer
      unique := fun e role r e' role' r' hr hr' h₁ h₂ =>
        ho.unique e role r e' role' r' (hl e role r hr h₁) (hl e' role' r' hr' h₂) h₁ h₂
      acking := fun e r hr => ho.acking e r (hacking e ▸ hr)
      top := ?_
      committed := fun e role r hr h₁ => by
        rw [h.key_epoch]
        exact ho.committed e role r (hc e role r hr h₁) h₁
      peerKeys := fun e r hr h₁ => by
        rw [h.peerRow, h.peerRow, h.key_epoch]
        exact ho.peerKeys e r (hacking e ▸ hr) h₁
      keptPeer := fun e r hr h₁ => by
        obtain ⟨e', hle, hrow⟩ := ho.keptPeer e r (hacking e ▸ hr) h₁
        exact ⟨e', hle, by rw [h.peerRow]; exact hrow⟩
      repaired := fun p hp hnone => by
        rw [h.peerRow] at hp
        rw [h.peerRow, h.key_epoch]
        exact ho.repaired p hp (hacking (p + 1) ▸ hnone)
      ownKeys := ?_, retired := ?_
      behind := fun e r e' r' hr h₁ hr' h₂ =>
        ho.behind e r e' r' (hc e _ r hr h₁) h₁ (hl e' _ r' hr' h₂) h₂ }
  · intro e role r hr h₁
    obtain ⟨habove, htop⟩ := ho.top e role r (hl e role r hr h₁) h₁
    rw [h.key_epoch]
    refine ⟨habove, fun e' row hrow => htop e' row ?_⟩
    rw [h.key_epochs] at hrow
    exact (Option.filter_eq_some_iff.mp hrow).1
  · intro e r hr h₁
    obtain ⟨hne, hne'⟩ := hlive e r hr h₁
    obtain ⟨hnew, hold, hlt, hnewest⟩ := ho.ownKeys e r (hl e _ r hr h₁) h₁
    refine ⟨hown e hne hnew, hown _ hne' hold, hlt, fun e' he' => hnewest e' ?_⟩
    rw [h.ownRow] at he'
    split_ifs at he' with heq
    · exact absurd he' (by simp)
    · exact he'
  · intro e r hr h₁
    obtain ⟨e', hle, hne, hrow⟩ := hcommitted e r hr h₁
    exact ⟨(ho.retired e r (hc e _ r hr h₁) h₁).1, e', hle, hown e' hne hrow⟩

theorem Removed.discard_orderly {r : Rotation} (h : Removed s r.epoch s') (ho : Orderly s.toKeys)
    (hrow : s.rotation r.epoch .rotating = some r) (hlive : r.live = true)
    (hrots : ∀ e role, s'.rotation e role =
      if (e, role) = (r.epoch, Role.rotating) then some { r with phase := .discarded }
      else s.rotation e role) : Orderly s'.toKeys := by
  have hback : ∀ e role r', s'.rotation e role = some r' → r'.phase ≠ .discarded →
      (e, role) ≠ (r.epoch, Role.rotating) ∧ s.rotation e role = some r' := by
    intro e role r' hr' hphase
    rw [hrots] at hr'
    split_ifs at hr' with hk
    · obtain rfl := Option.some.inj hr'
      exact absurd rfl hphase
    · exact ⟨hk, hr'⟩
  refine h.orderly ho (fun e role r' hr' hp => (hback e role r' hr' hp).2)
    (fun e => by rw [hrots, if_neg (by simp)]) (fun e r' hr' hl => ?_) (fun e r' hr' hc => ?_)
  · obtain ⟨hne, hr'⟩ := hback e _ r' hr' (Rotation.live_iff.mp hl).2
    obtain ⟨rfl, -⟩ := ho.unique e _ r' _ _ r hr' hrow hl hlive
    exact absurd rfl hne
  · have hr' := (hback e _ r' hr' (by rw [hc]; simp)).2
    obtain ⟨-, hold, hlt, -⟩ := ho.ownKeys _ r hrow hlive
    exact ⟨r.prior_epoch, ho.behind e r' _ r hr' hc hrow hlive, hlt.ne, hold⟩

theorem sweepTimeout_orderly (ho : Orderly s.toKeys) (now : Nat) :
    Orderly (sweepTimeout s now).1.toKeys := by
  obtain h | ⟨r, hrow, hphase, hremoved, hrots⟩ := sweepTimeout_cases s now
  · rw [h]
    exact ho
  · refine hremoved.discard_orderly ho hrow ?_ hrots
    rw [Rotation.live_iff, hphase]
    simp

/-- The committed row of a round of the retirement loop: its prior key is behind
every key that a rotation in flight needs. -/
def Retirable (s : Side) (row : Rotation) : Prop :=
  row.prior_epoch < row.epoch ∧
    ∀ e r, s.rotation e .rotating = some r → r.live = true → row.epoch ≤ r.prior_epoch

theorem retirable_of_committed (ho : Orderly s.toKeys) {row : Rotation}
    (hrow : s.rotation row.epoch .rotating = some row) (hphase : row.phase = .committed) :
    Retirable s row :=
  ⟨(ho.retired _ row hrow hphase).1, fun e r hr hl => ho.behind _ row e r hrow hphase hr hl⟩

theorem sweepRetire_orderly (ho : Orderly s.toKeys) {row : Rotation} (hrow : Retirable s row) (now : Nat) :
    Orderly (sweepRetire s row now).1.toKeys ∧
      ∀ row', Retirable s row' → Retirable (sweepRetire s row now).1 row' := by
  obtain h | ⟨hsome, hremoved, hrots⟩ := sweepRetire_cases s row now
  · rw [h]
    exact ⟨ho, fun _ => id⟩
  have hback : ∀ e role r, (sweepRetire s row now).1.rotation e role = some r →
      s.rotation e role = some r := by
    intro e role r hr
    rw [hrots] at hr
    split_ifs at hr
    · exact (Option.filter_eq_some_iff.mp hr).1
    · exact hr
  refine ⟨hremoved.orderly ho (fun e role r hr _ => hback e role r hr)
    (fun e => by rw [hrots, if_neg (by simp)]) (fun e r hr hl => ?_) (fun e r hr hc => ?_),
    fun row' hrow' => ⟨hrow'.1, fun e r hr => hrow'.2 e r (hback e _ r hr)⟩⟩
  · have hlt := (ho.ownKeys e r (hback e _ r hr) hl).2.2.1
    have hle := hrow.2 e r (hback e _ r hr) hl
    have hprior := hrow.1
    exact ⟨by omega, by omega⟩
  · obtain ⟨-, e', hle, hown⟩ := ho.retired e r (hback e _ r hr) hc
    by_cases heq : e' = row.prior_epoch
    · exact ⟨row.epoch, by have hprior := hrow.1; omega, hrow.1.ne', hsome⟩
    · exact ⟨e', hle, heq, hown⟩

theorem sweepRetireAll_orderly (ho : Orderly s.toKeys) (now : Nat) (rows : List Rotation)
    (hrows : ∀ row ∈ rows, Retirable s row) : Orderly (sweepRetireAll s now rows).1.toKeys := by
  induction rows generalizing s with
  | nil => exact ho
  | cons row rows ih =>
    obtain ⟨ho', hkeeps⟩ := sweepRetire_orderly ho (hrows row List.mem_cons_self) now
    unfold sweepRetireAll
    cases hround : sweepRetire s row now with
    | mk s₁ result =>
      rw [hround] at ho' hkeeps
      cases result with
      | ok _ => exact ih ho' (fun row' hrow' => hkeeps row' (hrows row' (List.mem_cons_of_mem _ hrow')))
      | error raised => exact ho'

theorem sweep_orderly (ho : Orderly s.toKeys) (now : Nat) : Orderly (sweep s now).1.toKeys := by
  unfold sweep
  have h₁ := sweepCompact_orderly ho now
  cases hcompact : sweepCompact s now with
  | mk s₁ result =>
    rw [hcompact] at h₁
    cases result with
    | error raised => exact h₁
    | ok _ =>
      have h₂ := sweepTimeout_orderly h₁ now
      dsimp only
      cases htimeout : sweepTimeout s₁ now with
      | mk s₂ result =>
        rw [htimeout] at h₂
        cases result with
        | error raised => exact h₂
        | ok _ =>
          refine sweepRetireAll_orderly h₂ now _ (fun row hrow => ?_)
          obtain ⟨hmem, hok⟩ := List.mem_filter.mp hrow
          obtain ⟨hrole, hphase⟩ : row.role = .rotating ∧ row.phase = .committed := of_decide_eq_true hok
          exact retirable_of_committed h₂ (rotation_eq_some.mpr ⟨hmem, rfl, hrole⟩) hphase

/-! ## The operator override -/

theorem deletePrivateKey_orderly (ho : Orderly s.toKeys) (ref : KeyRef) :
    Orderly (s.deletePrivateKey ref).toKeys := by
  cases ref with
  | file path => exact ho.of_eq rfl rfl rfl (fun _ _ => rfl)
  | peer => exact ho

theorem discardInFlight_orderly (ho : Orderly s.toKeys) {claimed : Bool} {path : Option KeyRef}
    (h : discardInFlight s epoch = .ok (s', claimed, path)) : Orderly s'.toKeys := by
  unfold discardInFlight at h
  split_ifs at h with hlive hfk
  · obtain ⟨rfl, -, -⟩ : _ = s' ∧ _ = claimed ∧ _ = path := by
      simpa only [Except.ok.injEq, Prod.mk.injEq] using h
    obtain ⟨r, hrow, hl⟩ := (Option.any_eq_true _ _).mp hlive
    obtain rfl : r.epoch = epoch := (rotation_eq_some.mp hrow).2.1
    have hremoved : Removed s r.epoch
        { (s.updateRotation r.epoch .rotating (fun r => { r with phase := .discarded }) (fun _ => rfl)) with
            key_epochs := (s.updateRotation r.epoch .rotating
                (fun r => { r with phase := .discarded }) (fun _ => rfl)).key_epochs.delete
              (fun row => row.epoch = r.epoch ∧ row.isOwn = true) } :=
      ⟨rfl, rfl, fun e => Table.find_delete _ _ _, fun _ _ => rfl⟩
    refine hremoved.discard_orderly ho hrow hl (fun e role => ?_)
    have hupd := rotation_updateRotation s r.epoch .rotating
      (fun r => { r with phase := .discarded }) (fun _ => rfl) e role
    rw [hrow] at hupd
    exact hupd
  · obtain ⟨rfl, -, -⟩ : s = s' ∧ _ = claimed ∧ _ = path := by
      simpa only [Except.ok.injEq, Prod.mk.injEq] using h
    exact ho

theorem resolveTheirs_orderly (ho : Orderly s.toKeys) (index epoch : Nat) (prepare : Prepare)
    (id : EventId) (now : Nat) : Orderly (resolveTheirs s index epoch prepare id now).1.toKeys := by
  unfold resolveTheirs
  cases hdiscard : discardInFlight s epoch with
  | error raised => exact ho
  | ok result =>
    obtain ⟨discarded, claimed, path⟩ := result
    have h₁ : Orderly (path.elim discarded discarded.deletePrivateKey).toKeys := by
      have hdiscarded := discardInFlight_orderly ho hdiscard
      cases path with
      | none => exact hdiscarded
      | some ref => exact deletePrivateKey_orderly hdiscarded ref
    have h₂ := onPrepare_orderly h₁ prepare id now
    dsimp only
    cases hprepare : onPrepare (path.elim discarded discarded.deletePrivateKey) prepare id now with
    | mk s₁ result =>
      rw [hprepare] at h₂
      cases result with
      | error raised => exact h₂
      | ok ack => exact h₂

theorem resolveQuarantine_orderly (ho : Orderly s.toKeys) (index : Int) (choice : Choice) (now : Nat) :
    Orderly (resolveQuarantine s index choice now).1.toKeys := by
  unfold resolveQuarantine
  split_ifs
  · exact ho
  · split
    · exact ho
    · rename_i entry hentry
      split
      · exact ho
      · exact resolveTheirs_orderly ho _ _ _ _ _
      · exact ho
      · exact ho

theorem confirmRotation_evolves (s : Side) (now : Nat) :
    Evolves confirmMove s.toKeys (confirmRotation s now).1.toKeys := by
  unfold confirmRotation
  cases hrot : s.inFlightAs .rotating with
  | none => exact .refl _
  | some r =>
    dsimp only
    split_ifs with hdone hacked hseen
    · exact .refl _
    · exact .refl _
    · exact .refl _
    · refine evolves_updateRotation (fun r₀ hr₀ => ⟨rfl, Or.inr ⟨rfl, ?_, rfl⟩⟩)
      obtain rfl : r = r₀ := Option.some.inj ((rotation_of_inFlightAs hrot).1.symm.trans hr₀)
      exact not_not.mp hacked

theorem confirmRotation_orderly (ho : Orderly s.toKeys) (now : Nat) :
    Orderly (confirmRotation s now).1.toKeys :=
  (confirmRotation_evolves s now).orderly keepsLive_confirmMove ho

end

end RotationManager

/-! ## Every call -/

theorem Orderly.call {s : Side} (ho : Orderly s.toKeys) (call : RotationCall) :
    Orderly (s.call call).toKeys := by
  cases call with
  | beginRotation now priv id => exact beginRotation_orderly ho now priv id
  | onPrepare prepare id now => exact onPrepare_orderly ho prepare id now
  | onAck ack now => exact (onAck_evolves s ack now).orderly (keepsLive_ackMove _) ho
  | noteDecryptedNewWrap epoch now => exact (noteDecryptedNewWrap_evolves s epoch now).orderly keepsLive_noMove ho
  | markConfirmed now => exact (markConfirmed_evolves s now).orderly keepsLive_confirmMove ho
  | confirmRotation now => exact confirmRotation_orderly ho now
  | onConfirm epoch now => exact (onConfirm_evolves s epoch now).orderly (keepsLive_onConfirmMove _) ho
  | markCommitted now => exact markCommitted_orderly ho now
  | onCommit epoch now => exact onCommit_orderly ho epoch now
  | noteAcceptedEvent => exact (noteAcceptedEvent_evolves s).orderly keepsLive_noMove ho
  | onDataEventEpoch epoch now =>
    show Orderly (onDataEventEpoch s epoch now).1.toKeys
    rw [(onDataEventEpoch_rest s epoch now).1]
    exact ho
  | sweep now => exact sweep_orderly ho now
  | sweepCompact now => exact sweepCompact_orderly ho now
  | sweepTimeout now => exact sweepTimeout_orderly ho now
  | sweepRetire epoch now =>
    simp only [Side.call]
    split
    · rename_i row hrow
      obtain ⟨hrot, hphase⟩ := Option.filter_eq_some_iff.mp hrow
      obtain rfl : row.epoch = epoch := (rotation_eq_some.mp hrot).2.1
      exact (sweepRetire_orderly ho (retirable_of_committed ho hrot (of_decide_eq_true hphase)) now).1
    · exact ho
  | resolveQuarantine index choice now => exact resolveQuarantine_orderly ho index choice now
  | store event => exact ho

theorem orderly_of_reachable {s : Side} (h : rotationCalls.Reachable s) : Orderly s.toKeys := by
  refine h.invariant (P := fun s => Orderly s.toKeys) (fun s hs => Side.Fresh.orderly hs) (fun s call t hs _ hst => ?_)
  obtain rfl := Option.some.inj hst
  exact hs.call call

theorem Keys.peerKey_isSome {e : Nat} (hkey : k.peer_agreement_key.isSome = true)
    (h : e = k.key_epoch ∨ (k.peerRow e).isSome = true) : (k.peerKey e).isSome = true := by
  obtain ⟨key, hsome⟩ := Option.isSome_iff_exists.mp hkey
  unfold peerKey
  rw [Option.isSome_map, List.find?_isSome]
  unfold peerKeyEpochs
  rw [hsome]
  by_cases hcur : e = k.key_epoch
  · exact ⟨_, List.mem_cons_self, by simp [hcur]⟩
  · obtain ⟨row, hrow⟩ := Option.isSome_iff_exists.mp (h.resolve_left hcur)
    have hepoch : row.epoch = e := Table.key_of_find (peerRow_eq_some.mp hrow).1
    refine ⟨(row.epoch, row.public_key), List.mem_cons_of_mem _ (List.mem_filter.mpr ⟨?_, ?_⟩), by simp [hepoch]⟩
    · exact List.mem_map.mpr ⟨row, mem_peerRows.mpr (hepoch ▸ hrow), rfl⟩
    · simpa [hepoch] using hcur

theorem Orderly.acking_peerKeys (ho : Orderly k) {r : Rotation}
    (hr : k.rotation r.epoch .acking = some r)
    (hl : r.live = true) : (k.peerKey r.prior_epoch).isSome = true ∧ (k.peerKey r.epoch).isSome = true := by
  obtain ⟨hnew, -, hprior⟩ := ho.peerKeys r.epoch r hr hl
  exact ⟨Keys.peerKey_isSome ho.peer hprior, Keys.peerKey_isSome ho.peer (Or.inr hnew)⟩

theorem Orderly.countP_live (ho : Orderly k) : k.key_rotations.rows.countP (·.live) ≤ 1 := by
  have hsame : ∀ r ∈ k.key_rotations.rows.filter (·.live), ∀ r' ∈ k.key_rotations.rows.filter (·.live), r = r' := by
    intro r hr r' hr'
    obtain ⟨hmem, hl⟩ := List.mem_filter.mp hr
    obtain ⟨hmem', hl'⟩ := List.mem_filter.mp hr'
    obtain ⟨hepoch, hrole⟩ := ho.unique r.epoch r.role r r'.epoch r'.role r'
      (rotation_eq_some.mpr ⟨hmem, rfl, rfl⟩) (rotation_eq_some.mpr ⟨hmem', rfl, rfl⟩) hl hl'
    exact Table.eq_of_key hmem hmem' (Prod.ext hepoch hrole)
  have hnodup : (k.key_rotations.rows.filter (·.live)).Nodup :=
    (List.Nodup.of_map _ k.key_rotations.nodup).filter _
  rw [List.countP_eq_length_filter]
  match hlist : k.key_rotations.rows.filter (·.live) with
  | [] => simp [hlist]
  | [_] => simp [hlist]
  | r :: r' :: rest =>
    rw [hlist] at hsame hnodup
    have heq := hsame r List.mem_cons_self r' (List.mem_cons_of_mem _ List.mem_cons_self)
    rw [heq] at hnodup
    exact absurd List.mem_cons_self (List.nodup_cons.mp hnodup).1

/-- After any calls on the store of a side, at most one rotation is in flight.  An
acking one has the prior and the new peer key, so `dual_wrap_keys` finds both.  A
rotating one has the candidate key and the own key that was current before it. -/
theorem rotation_in_flight {s : Side} (h : rotationCalls.Reachable s) :
    s.key_rotations.rows.countP (·.live) ≤ 1 ∧
    (∀ r ∈ s.key_rotations.rows, r.role = .acking → r.live = true →
      (s.peerKey r.prior_epoch).isSome = true ∧ (s.peerKey r.epoch).isSome = true) ∧
    dualWrapKeys s ≠ .error (.rotation .peer_key_missing) ∧
    (∀ r ∈ s.key_rotations.rows, r.role = .rotating → r.live = true →
      (s.ownRow r.epoch).isSome = true ∧ (s.ownRow r.prior_epoch).isSome = true ∧ r.prior_epoch < r.epoch ∧
        ∀ e, (s.ownRow e).isSome = true → e ≠ r.epoch → e ≤ r.prior_epoch) := by
  have ho := orderly_of_reachable h
  refine ⟨ho.countP_live, ?_, ?_, ?_⟩
  · intro r hr hrole hl
    exact ho.acking_peerKeys (rotation_eq_some.mpr ⟨hr, rfl, hrole⟩) hl
  · unfold dualWrapKeys
    cases hrot : s.inFlightAs .acking with
    | none => simp
    | some r =>
      obtain ⟨hrow, hl⟩ := rotation_of_inFlightAs hrot
      obtain ⟨hprior, hnew⟩ := ho.acking_peerKeys hrow hl
      obtain ⟨prior, hprior⟩ := Option.isSome_iff_exists.mp hprior
      obtain ⟨new, hnew⟩ := Option.isSome_iff_exists.mp hnew
      dsimp only
      rw [hprior, hnew]
      split_ifs <;> simp
  · intro r hr hrole hl
    exact ho.ownKeys r.epoch r (rotation_eq_some.mpr ⟨hr, rfl, hrole⟩) hl

/-- A side with only the keys of the pairing. -/
def freshSide (own peer : PrivateKey) : Side where
  key_epoch := 1
  peer_agreement_key := some peer.publicKey
  key_epochs := ⟨[⟨1, own.publicKey, .file 1⟩], by simp⟩
  key_files := ⟨[⟨1, own⟩], by simp⟩

theorem freshSide_fresh (own peer : PrivateKey) : (freshSide own peer).Fresh where
  idle := rfl
  peer := rfl
  own := rfl
  only e row h := by
    obtain ⟨hmem, hkey⟩ := Table.find_eq_some.mp h
    rw [List.mem_singleton.mp hmem] at hkey
    exact hkey.symm

/-- A rotation that is begun and acknowledged. -/
theorem rotation_in_flight_acknowledged :
    let s := ((freshSide ⟨1⟩ ⟨2⟩).call (.beginRotation 0 ⟨3⟩ (some 7))).call (.onAck ⟨2, 7⟩ 1)
    (∃ r ∈ s.key_rotations.rows, r.role = .rotating ∧ r.phase = .acknowledged) ∧
    s.key_rotations.rows.countP (·.live) ≤ 1 ∧
    dualWrapKeys s ≠ .error (.rotation .peer_key_missing) ∧
    (∀ r ∈ s.key_rotations.rows, r.role = .rotating → r.live = true →
      (s.ownRow r.epoch).isSome = true ∧ (s.ownRow r.prior_epoch).isSome = true) := by
  intro s
  have hreach : rotationCalls.Reachable s :=
    .next (.next (.start (freshSide_fresh ⟨1⟩ ⟨2⟩)) trivial rfl) trivial rfl
  obtain ⟨hone, -, hdual, hown⟩ := rotation_in_flight hreach
  refine ⟨by decide +kernel, hone, hdual, fun r hr hrole hl => ?_⟩
  exact ⟨(hown r hr hrole hl).1, (hown r hr hrole hl).2.1⟩

end MuseAgentSocial.Crypto
