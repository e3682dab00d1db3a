import MuseAgentSocial.Cli.TwoParty
import MuseAgentSocial.Crypto.InFlight

/-!
# The epoch numbers of two parties

Two honest parties rotate one after the other, as often as they like.  One counter
numbers the keys of both, and each side computes the numbers from its own columns.

* `Pair` holds both sides and how far the rotation in progress has come.  A step is the
  next call of that rotation, or a call on one side that belongs to none: traffic under
  the known epochs, and the parts of `sweep` that delete what is retired.
* `Poised` says which rotation one side is in and under which epoch.
* `Agreed` is the invariant of both sides, and `labels_agree` the agreement after each
  completed rotation.
-/

namespace MuseAgentSocial.Cli

open Model Crypto RotationManager Keys

/-! ## Rotations in order -/

/-- A rotation that has begun. -/
structure Turn where
  who : Party
  /-- The number that `begin_rotation` assigns to the key. -/
  epoch : Nat
  new_priv : PrivateKey
  deriving DecidableEq, Repr

/-- How far a rotation has come, with the message that is under way. -/
inductive Progress where
  | idle
  | prepared (t : Turn) (prepare : Prepare)
  | acked (t : Turn) (ack : Ack)
  | acknowledged (t : Turn) (recorded : Nat)
  | confirming (t : Turn) (recorded epoch : Nat)
  | confirmed (t : Turn) (recorded : Nat)
  | committing (t : Turn) (recorded epoch : Nat)
  deriving DecidableEq, Repr

/-- A rotation that both sides have committed. -/
structure Completed where
  turn : Turn
  /-- The number under which the acking side recorded the key. -/
  recorded : Nat
  deriving DecidableEq, Repr

/-- Both sides of a relationship. -/
structure Pair where
  side : Party → Side
  stage : Progress := .idle
  /-- Ghost: the key that a party has created under an epoch. -/
  created : Party → Nat → Option PrivateKey
  /-- Ghost: the newest committed key of a party. -/
  committed : Party → PrivateKey
  /-- Ghost: the completed rotations. -/
  completed : List Completed := []

/-- What happens next. -/
inductive PairAction where
  | begin (who : Party) (now : Nat) (new_priv : PrivateKey) (prepare_event_id : Option EventId)
  | prepare (prepare_event_id : EventId) (now : Nat)
  | ack (now : Nat)
  | rotateConfirm (now : Nat)
  | confirm (now : Nat)
  | rotateCommit (now : Nat)
  | commit (now : Nat)
  | background (p : Party) (call : RotationCall)

/-- The calls that belong to no rotation.  `sweepTimeout` is not one: it does nothing, or
it ends the rotation. -/
def background : RotationCall → Bool
  | .noteDecryptedNewWrap _ _ | .noteAcceptedEvent | .onDataEventEpoch _ _ | .store _ => true
  | .sweepCompact _ | .sweepRetire _ _ => true
  | _ => false

namespace Pair

/-- One party has the store `s` now. -/
def moved (S : Pair) (p : Party) (s : Side) (stage : Progress) : Pair :=
  { S with side := Function.update S.side p s, stage }

@[simp] theorem moved_side_self (S : Pair) (p : Party) (s : Side) (stage : Progress) :
    (S.moved p s stage).side p = s := by
  simp [moved]

@[simp] theorem moved_side_other (S : Pair) (p : Party) (s : Side) (stage : Progress) :
    (S.moved p s stage).side p.other = S.side p.other := by
  simp [moved]

/-- The pair after a call of one party, `none` when it raises. -/
def after {α : Type} (S : Pair) (p : Party) (result : Side × Except Raised α) (stage : α → Progress) :
    Option Pair :=
  match result with
  | (s, .ok a) => some (S.moved p s (stage a))
  | (_, .error _) => none

/-- The rotation is complete. -/
def complete (S : Pair) (t : Turn) (recorded : Nat) : Pair :=
  { S with
    committed := Function.update S.committed t.who t.new_priv
    completed := S.completed ++ [⟨t, recorded⟩] }

/-- `begin_rotation` of one party. -/
def begin (S : Pair) (who : Party) (now : Nat) (new_priv : PrivateKey) (prepare_event_id : Option EventId) :
    Option Pair :=
  match beginRotation (S.side who) now new_priv prepare_event_id with
  | (s, .ok (epoch, prepare)) => some { S.moved who s (.prepared ⟨who, epoch, new_priv⟩ prepare) with
      created := Function.update S.created who (Function.update (S.created who) epoch (some new_priv)) }
  | (_, .error _) => none

/-- One step of the pair. -/
def next (S : Pair) (a : PairAction) : Option Pair :=
  match S.stage, a with
  | .idle, .begin who now new_priv id => S.begin who now new_priv id
  | .prepared t prepare, .prepare id now =>
    S.after t.who.other (onPrepare (S.side t.who.other) prepare id now) (.acked t)
  | .acked t ack, .ack now =>
    S.after t.who (onAck (S.side t.who) ack now) (fun _ => .acknowledged t ack.epoch)
  | .acknowledged t recorded, .rotateConfirm now =>
    match buildConfirmPayload (S.side t.who) with
    | .ok epoch => S.after t.who (markConfirmed (S.side t.who) now) (fun _ => .confirming t recorded epoch)
    | .error _ => none
  | .confirming t recorded epoch, .confirm now =>
    S.after t.who.other (onConfirm (S.side t.who.other) epoch now) (fun _ => .confirmed t recorded)
  | .confirmed t recorded, .rotateCommit now =>
    match buildCommitPayload (S.side t.who.other) with
    | .ok epoch =>
      S.after t.who.other (markCommitted (S.side t.who.other) now) (fun _ => .committing t recorded epoch)
    | .error _ => none
  | .committing t recorded epoch, .commit now =>
    (S.after t.who (onCommit (S.side t.who) epoch now) (fun _ => .idle)).map (·.complete t recorded)
  | _, .background p call =>
    if background call then some (S.moved p ((S.side p).call call) S.stage) else none
  | _, _ => none

/-- Both sides right after the pairing: each holds its key and the public half of the
other's. -/
structure Paired (S : Pair) (n : Nat) : Prop where
  fresh : ∀ p, (S.side p).Fresh
  key_epoch : ∀ p, (S.side p).key_epoch = n
  own : ∀ p row, (S.side p).ownRow n = some row → row.public_key = (S.committed p).publicKey
  peer : ∀ p, (S.side p).peer_agreement_key = some (S.committed p.other).publicKey
  created : ∀ p e, S.created p e = if e = n then some (S.committed p) else none
  stage : S.stage = .idle
  completed : S.completed = []

/-- The rotations of two parties, one after the other. -/
def rotations : Machine Pair PairAction where
  init S := ∃ n, S.Paired n
  step := next

end Pair

/-! ## One side -/

/-- The side is under the epoch `n`, in the rotation to `n + 1` that `turn` gives, if any. -/
structure Poised (s : Side) (n : Nat) (turn : Option (Role × AgreementKey)) : Prop where
  orderly : Orderly s.toKeys
  key_epoch : s.key_epoch = n
  below : ∀ e row, s.key_epochs.find e = some row → e ≤ n ∨ turn.isSome = true ∧ e = n + 1
  live : ∀ e role r, s.rotation e role = some r → r.live = true →
    e = n + 1 ∧ turn = some (role, r.new_public_key)
  there : ∀ role key, turn = some (role, key) → ∃ r, s.rotation (n + 1) role = some r ∧ r.live = true

/-- The newest own key is `priv`. -/
def HoldsNewest (s : Side) (priv : PrivateKey) : Prop :=
  ∃ e row, s.ownRow e = some row ∧ row.public_key = priv.publicKey ∧ ∀ e', (s.ownRow e').isSome = true → e' ≤ e

/-- What a call that belongs to no rotation does. -/
structure Retires (s s' : Side) : Prop where
  key_epoch : s'.key_epoch = s.key_epoch
  peer_agreement_key : s'.peer_agreement_key = s.peer_agreement_key
  key_epochs : ∀ e row, s'.key_epochs.find e = some row → s.key_epochs.find e = some row
  newest : ∀ e row, s.ownRow e = some row → (∀ e', (s.ownRow e').isSome = true → e' ≤ e) → s'.ownRow e = some row
  live : ∀ e role r', s'.rotation e role = some r' → r'.live = true →
    ∃ r, s.rotation e role = some r ∧ r.live = true ∧ r'.new_public_key = r.new_public_key
  there : ∀ e role r, s.rotation e role = some r → r.live = true →
    ∃ r', s'.rotation e role = some r' ∧ r'.live = true

variable {e now epoch : Nat} {key : AgreementKey} {new_priv : PrivateKey} {t : Turn}

section side

variable {s s' : Side} {n : Nat} {turn : Option (Role × AgreementKey)} {priv : PrivateKey}

theorem retires_of_evolves (h : Evolves noMove s.toKeys s'.toKeys) : Retires s s' where
  key_epoch := h.key_epoch
  peer_agreement_key := h.peer_agreement_key
  key_epochs e row hrow := by rwa [h.key_epochs] at hrow
  newest e row hrow _ := (ownRow_congr h.key_epochs e).trans hrow
  live e role r' hr' hl := by
    obtain ⟨r, hr, horigin, hphase⟩ := h.back e role r' hr'
    refine ⟨r, hr, ?_, congrArg Origin.new_public_key horigin⟩
    rw [← live_eq_of_move keepsLive_noMove hphase]
    exact hl
  there e role r hr hl := by
    obtain ⟨r', hr', -, hphase⟩ := h.forth e role r hr
    refine ⟨r', hr', ?_⟩
    rw [live_eq_of_move keepsLive_noMove hphase]
    exact hl

theorem retires_of_keys (h : s'.toKeys = s.toKeys) : Retires s s' :=
  retires_of_evolves (h ▸ Evolves.refl _)

theorem sweepCompact_retires (s : Side) (now : Nat) : Retires s (sweepCompact s now).1 := by
  obtain h | ⟨hepoch, hpeer, -, hkeys, hrots⟩ := sweepCompact_cases s now
  · exact retires_of_keys (congrArg Side.toKeys h)
  · refine ⟨hepoch, hpeer, fun e row hrow => ?_, fun e row hrow _ => ?_, fun e role r' hr' hl => ?_,
      fun e role r hr hl => ?_⟩
    · rw [hkeys] at hrow
      exact (Option.filter_eq_some_iff.mp hrow).1
    · rw [ownRow_sweepCompact]
      exact hrow
    · rw [hrots] at hr'
      exact ⟨r', (Option.filter_eq_some_iff.mp hr').1, hl, rfl⟩
    · rw [hrots, hr]
      refine ⟨r, ?_, hl⟩
      simp [Option.filter, staleCommitted_live hl]

theorem sweepRetire_retires (ho : Orderly s.toKeys) {row : Rotation} (hrow : s.rotation row.epoch .rotating = some row)
    (hphase : row.phase = .committed) (now : Nat) : Retires s (sweepRetire s row now).1 := by
  obtain h | ⟨hnew, hremoved, hrots⟩ := sweepRetire_cases s row now
  · exact retires_of_keys (congrArg Side.toKeys h)
  · have hlt := (ho.retired row.epoch row hrow hphase).1
    refine ⟨hremoved.key_epoch, hremoved.peer_agreement_key, fun e row' hrow' => ?_,
      fun e row' hrow' hnewest => ?_, fun e role r' hr' hl => ?_, fun e role r hr hl => ?_⟩
    · rw [hremoved.key_epochs] at hrow'
      exact (Option.filter_eq_some_iff.mp hrow').1
    · have hle := hnewest row.epoch hnew
      rw [hremoved.ownRow, if_neg (by omega)]
      exact hrow'
    · rw [hrots] at hr'
      split_ifs at hr'
      · exact ⟨r', (Option.filter_eq_some_iff.mp hr').1, hl, rfl⟩
      · exact ⟨r', hr', hl, rfl⟩
    · refine ⟨r, ?_, hl⟩
      rw [hrots]
      split_ifs
      · rw [hr, Option.filter_some, if_pos (by simpa using (Rotation.live_iff.mp hl).1)]
      · exact hr

theorem background_retires (ho : Orderly s.toKeys) {call : RotationCall} (h : background call = true) :
    Retires s (s.call call) := by
  cases call with
  | noteDecryptedNewWrap epoch now => exact retires_of_evolves (noteDecryptedNewWrap_evolves s epoch now)
  | noteAcceptedEvent => exact retires_of_evolves (noteAcceptedEvent_evolves s)
  | onDataEventEpoch epoch now => exact retires_of_keys (onDataEventEpoch_rest s epoch now).1
  | store event => exact retires_of_keys rfl
  | sweepCompact now => exact sweepCompact_retires s now
  | sweepRetire epoch now =>
    simp only [Side.call]
    split
    · rename_i row hrow
      obtain ⟨hrot, hphase⟩ := Option.filter_eq_some_iff.mp hrow
      obtain rfl : row.epoch = epoch := (rotation_eq_some.mp hrot).2.1
      exact sweepRetire_retires ho hrot (of_decide_eq_true hphase) now
    · exact retires_of_keys rfl
  | _ => simp [background] at h

theorem Retires.ownRow (h : Retires s s') {row : KeyRow} (hrow : s'.ownRow e = some row) :
    s.ownRow e = some row := by
  obtain ⟨hfind, hown⟩ := ownRow_eq_some.mp hrow
  exact ownRow_eq_some.mpr ⟨h.key_epochs e row hfind, hown⟩

theorem Retires.peerRow (h : Retires s s') {row : KeyRow} (hrow : s'.peerRow e = some row) :
    s.peerRow e = some row := by
  obtain ⟨hfind, hpeer⟩ := peerRow_eq_some.mp hrow
  exact peerRow_eq_some.mpr ⟨h.key_epochs e row hfind, hpeer⟩

theorem Retires.poised (h : Retires s s') (hs : Poised s n turn) (ho : Orderly s'.toKeys) : Poised s' n turn where
  orderly := ho
  key_epoch := h.key_epoch.trans hs.key_epoch
  below e row hrow := hs.below e row (h.key_epochs e row hrow)
  live e role r' hr' hl := by
    obtain ⟨r, hr, hl, hkey⟩ := h.live e role r' hr' hl
    rw [hkey]
    exact hs.live e role r hr hl
  there role key hturn := by
    obtain ⟨r, hr, hl⟩ := hs.there role key hturn
    exact h.there _ _ r hr hl

theorem Retires.held (h : Retires s s') (hs : HoldsNewest s priv) : HoldsNewest s' priv := by
  obtain ⟨e, row, hrow, hkey, hnewest⟩ := hs
  refine ⟨e, row, h.newest e row hrow hnewest, hkey, fun e' he' => ?_⟩
  obtain ⟨row', hrow'⟩ := Option.isSome_iff_exists.mp he'
  exact hnewest e' (Option.isSome_of_eq_some (h.ownRow hrow'))

theorem Poised.evolves {allowed : Nat → Role → Phase → Phase → Prop} (hkeep : KeepsLive allowed)
    (h : Evolves allowed s.toKeys s'.toKeys) (hs : Poised s n turn) : Poised s' n turn where
  orderly := h.orderly hkeep hs.orderly
  key_epoch := h.key_epoch.trans hs.key_epoch
  below e row hrow := hs.below e row (h.key_epochs ▸ hrow)
  live e role r' hr' hl := by
    obtain ⟨r, hr, horigin, hphase⟩ := h.back e role r' hr'
    rw [live_eq_of_move hkeep hphase] at hl
    rw [show r'.new_public_key = r.new_public_key from congrArg Origin.new_public_key horigin]
    exact hs.live e role r hr hl
  there role key hturn := by
    obtain ⟨r, hr, hl⟩ := hs.there role key hturn
    obtain ⟨r', hr', -, hphase⟩ := h.forth _ _ r hr
    exact ⟨r', hr', (live_eq_of_move hkeep hphase).trans hl⟩

theorem Poised.currentEpoch (hs : Poised s n none) (hpeer : s.peer_agreement_key.isSome = true) :
    s.currentEpoch = n := by
  have hrow : ∀ e row, s.key_epochs.find e = some row → e ≤ n := by
    intro e row hfind
    obtain h | ⟨h, -⟩ := hs.below e row hfind
    · exact h
    · exact absurd h (by simp)
  refine le_antisymm (foldr_max_le (fun e he => ?_)) (hs.key_epoch ▸ key_epoch_le_currentEpoch hpeer)
  obtain he | he := List.mem_append.mp he
  · obtain ⟨row, hfind⟩ := Option.isSome_iff_exists.mp (mem_ownEpochs.mp he)
    exact hrow e row (ownRow_eq_some.mp hfind).1
  · obtain ⟨key, hkey⟩ := Option.isSome_iff_exists.mp hpeer
    unfold peerKeyEpochs at he
    rw [hkey] at he
    obtain rfl | he := List.mem_cons.mp he
    · exact hs.key_epoch.le
    · obtain ⟨entry, hentry, rfl⟩ := List.mem_map.mp he
      obtain ⟨row, hmem, rfl⟩ := List.mem_map.mp (List.mem_filter.mp hentry).1
      exact hrow _ row (peerRow_eq_some.mp (mem_peerRows.mp hmem)).1

theorem Poised.prior (hs : Poised s n turn) (hkey : s.peer_agreement_key = some key)
    (hcurrent : ∀ row, s.peerRow n = some row → row.public_key = key) :
    s.peerKeyEpochs.find? (fun e => agreementFingerprint e.2 = agreementFingerprint key) = some (n, key) := by
  have hentry : ((s.peerRow s.key_epoch).map (·.public_key)).getD key = key := by
    rw [hs.key_epoch]
    cases hrow : s.peerRow n with
    | none => rfl
    | some row => exact hcurrent row hrow
  unfold peerKeyEpochs
  rw [hkey]
  dsimp only
  rw [hentry, hs.key_epoch, List.find?_cons_of_pos (by simp)]

end side

/-! ## Both sides -/

namespace Progress

/-- The rotation that is under way. -/
def turn : Progress → Option Turn
  | .idle => none
  | .prepared t _ | .acked t _ | .acknowledged t _ | .confirming t _ _ | .confirmed t _ | .committing t _ _ => some t

/-- Where each party is when the completed rotations have led to `n`. -/
def poise (n : Nat) (p : Party) : Progress → Nat × Option (Role × AgreementKey)
  | .idle => (n, none)
  | .prepared t _ => (n, if p = t.who then some (.rotating, t.new_priv.publicKey) else none)
  | .acked t _ | .acknowledged t _ | .confirming t _ _ | .confirmed t _ =>
    (n, some (if p = t.who then .rotating else .acking, t.new_priv.publicKey))
  | .committing t _ _ => if p = t.who then (n, some (.rotating, t.new_priv.publicKey)) else (n + 1, none)

/-- The peer key that each party knows. -/
def peerKey (committed : Party → PrivateKey) (p : Party) : Progress → PrivateKey
  | .committing t _ _ => if p = t.who then committed p.other else t.new_priv
  | _ => committed p.other

/-- The numbers in the messages. -/
def Numbered (committed : Party → PrivateKey) (n : Nat) : Progress → Prop
  | .idle => True
  | .prepared t prepare => t.epoch = n + 1 ∧ prepare.new_agreement_key = t.new_priv.publicKey ∧
      prepare.prior_fingerprint = agreementFingerprint (committed t.who).publicKey
  | .acked t ack => t.epoch = n + 1 ∧ ack.epoch = n + 1
  | .acknowledged t recorded => t.epoch = n + 1 ∧ recorded = n + 1
  | .confirming t recorded epoch => t.epoch = n + 1 ∧ recorded = n + 1 ∧ epoch = n + 1
  | .confirmed t recorded => t.epoch = n + 1 ∧ recorded = n + 1
  | .committing t recorded epoch => t.epoch = n + 1 ∧ recorded = n + 1 ∧ epoch = n + 1

end Progress

/-- Both sides agree, and the completed rotations have led to `n`. -/
structure Agreed (S : Pair) (n : Nat) : Prop where
  poised : ∀ p, Poised (S.side p) (S.stage.poise n p).1 (S.stage.poise n p).2
  numbered : S.stage.Numbered S.committed n
  peer : ∀ p, (S.side p).peer_agreement_key = some (S.stage.peerKey S.committed p).publicKey
  own : ∀ p e row, (S.side p).ownRow e = some row →
    (S.created p e).map PrivateKey.publicKey = some row.public_key
  peerRows : ∀ p e row, (S.side p).peerRow e = some row →
    (S.created p.other e).map PrivateKey.publicKey = some row.public_key
  top : ∀ p e, (S.created p e).isSome = true → e ≤ n ∨ e = n + 1 ∧ ∃ t, S.stage.turn = some t ∧ t.who = p
  current : ∀ p priv, S.created p n = some priv → priv = S.committed p
  new : ∀ t, S.stage.turn = some t → S.created t.who (n + 1) = some t.new_priv
  held : ∀ p, (∀ t, S.stage.turn = some t → t.who ≠ p) → HoldsNewest (S.side p) (S.committed p)
  completed : ∀ c ∈ S.completed, c.recorded = c.turn.epoch

section pair

variable {S S' : Pair} {n : Nat} {p : Party} {s : Side}

/-- A call of one party inside the rotation. -/
theorem Agreed.call (hS : Agreed S n) {stage : Progress} (hturn : stage.turn = S.stage.turn)
    (hpoised : Poised s (stage.poise n p).1 (stage.poise n p).2)
    (hother : stage.poise n p.other = S.stage.poise n p.other)
    (hnumbered : stage.Numbered S.committed n)
    (hpeer : s.peer_agreement_key = some (stage.peerKey S.committed p).publicKey)
    (hpeerOther : stage.peerKey S.committed p.other = S.stage.peerKey S.committed p.other)
    (hown : ∀ e row, s.ownRow e = some row → (S.side p).ownRow e = some row)
    (hpeerRows : ∀ e row, s.peerRow e = some row → (S.side p).peerRow e = some row ∨
      (S.created p.other e).map PrivateKey.publicKey = some row.public_key)
    (hheld : ∀ priv, HoldsNewest (S.side p) priv → HoldsNewest s priv) :
    Agreed (S.moved p s stage) n where
  poised q := by
    obtain rfl | rfl := Party.eq_or_other p q
    · rwa [Pair.moved_side_self]
    · rw [Pair.moved_side_other]
      show Poised _ (stage.poise n p.other).1 (stage.poise n p.other).2
      rw [hother]
      exact hS.poised _
  numbered := hnumbered
  peer q := by
    obtain rfl | rfl := Party.eq_or_other p q
    · rwa [Pair.moved_side_self]
    · rw [Pair.moved_side_other]
      exact (hS.peer _).trans (by rw [← hpeerOther]; rfl)
  own q e row hrow := by
    obtain rfl | rfl := Party.eq_or_other p q
    · rw [Pair.moved_side_self] at hrow
      exact hS.own _ e row (hown e row hrow)
    · rw [Pair.moved_side_other] at hrow
      exact hS.own _ e row hrow
  peerRows q e row hrow := by
    obtain rfl | rfl := Party.eq_or_other p q
    · rw [Pair.moved_side_self] at hrow
      obtain h | h := hpeerRows e row hrow
      · exact hS.peerRows _ e row h
      · exact h
    · rw [Pair.moved_side_other] at hrow
      exact hS.peerRows _ e row hrow
  top q e he := by
    show e ≤ n ∨ e = n + 1 ∧ ∃ t, stage.turn = some t ∧ t.who = q
    rw [hturn]
    exact hS.top q e he
  current := hS.current
  new t ht := hS.new t (hturn ▸ ht)
  held q hq := by
    have hout : ∀ t, S.stage.turn = some t → t.who ≠ q := fun t ht => hq t (hturn.trans ht)
    obtain rfl | rfl := Party.eq_or_other p q
    · rw [Pair.moved_side_self]
      exact hheld _ (hS.held _ hout)
    · rw [Pair.moved_side_other]
      exact hS.held _ hout
  completed := hS.completed

theorem Agreed.evolves (hS : Agreed S n) {allowed : Nat → Role → Phase → Phase → Prop} (hkeep : KeepsLive allowed)
    (h : Evolves allowed (S.side p).toKeys s.toKeys) {stage : Progress} (hturn : stage.turn = S.stage.turn)
    (hpoise : ∀ q, stage.poise n q = S.stage.poise n q) (hnumbered : stage.Numbered S.committed n)
    (hpeer : ∀ q, stage.peerKey S.committed q = S.stage.peerKey S.committed q) :
    Agreed (S.moved p s stage) n := by
  refine hS.call hturn ?_ (hpoise _) hnumbered ?_ (hpeer _) (fun e row hrow => ?_) (fun e row hrow => ?_)
    (fun priv hheld => ?_)
  · rw [hpoise]
    exact (hS.poised p).evolves hkeep h
  · rw [hpeer, h.peer_agreement_key]
    exact hS.peer p
  · exact (ownRow_congr h.key_epochs e) ▸ hrow
  · exact Or.inl ((peerRow_congr h.key_epochs e) ▸ hrow)
  · obtain ⟨e, row, hrow, hkey, hnewest⟩ := hheld
    refine ⟨e, row, (ownRow_congr h.key_epochs e).trans hrow, hkey, fun e' he' => ?_⟩
    rw [ownRow_congr h.key_epochs] at he'
    exact hnewest e' he'

/-- A begin under the number that follows. -/
theorem Begun.poised {s s' : Side} {id : Option EventId} {prepare : Prepare} {prior : KeyRow}
    (h : Begun s now new_priv id s' epoch prepare prior) (hs : Poised s n none)
    (hepoch : epoch = n + 1) :
    Poised s' n (some (.rotating, new_priv.publicKey)) where
  orderly := h.orderly hs.orderly
  key_epoch := h.key_epoch.trans hs.key_epoch
  below e row hrow := by
    rw [h.key_epochs] at hrow
    split_ifs at hrow with he
    · exact Or.inr ⟨rfl, he.trans hepoch⟩
    · exact Or.inl ((hs.below e row hrow).resolve_right (by simp))
  live e role r hr hl := by
    rw [h.rotation] at hr
    split_ifs at hr with hkey
    · obtain ⟨rfl, rfl⟩ := Prod.mk.inj hkey
      obtain rfl := Option.some.inj hr
      exact ⟨hepoch, rfl⟩
    · exact absurd (inFlight_eq_none.mp h.idle e role r hr) (by simp [hl])
  there role key hturn := by
    obtain ⟨rfl, rfl⟩ := Prod.mk.inj (Option.some.inj hturn)
    refine ⟨candidateRow epoch prior now new_priv id, ?_, rfl⟩
    rw [h.rotation, hepoch, if_pos rfl]

theorem Begun.ownRow {s s' : Side} {id : Option EventId} {prepare : Prepare} {prior : KeyRow}
    (h : Begun s now new_priv id s' epoch prepare prior) (e : Nat) :
    s'.ownRow e = if e = epoch then some ⟨epoch, new_priv.publicKey, .file epoch⟩ else s.ownRow e := by
  unfold Keys.ownRow
  rw [h.key_epochs]
  split_ifs <;> rfl

theorem Begun.peerRow {s s' : Side} {id : Option EventId} {prepare : Prepare} {prior : KeyRow}
    (h : Begun s now new_priv id s' epoch prepare prior) {row : KeyRow}
    (hrow : s'.peerRow e = some row) : s.peerRow e = some row := by
  obtain ⟨hfind, hpeer⟩ := peerRow_eq_some.mp hrow
  rw [h.key_epochs] at hfind
  split_ifs at hfind
  · obtain rfl := Option.some.inj hfind
    exact absurd hpeer (by simp [KeyRow.isOwn])
  · exact peerRow_eq_some.mpr ⟨hfind, hpeer⟩

theorem Begun.prior_held {s s' : Side} {priv : PrivateKey} {id : Option EventId}
    {prepare : Prepare} {prior : KeyRow} (h : Begun s now new_priv id s' epoch prepare prior)
    (hheld : HoldsNewest s priv) :
    prior.public_key = priv.publicKey := by
  obtain ⟨e, row, hrow, hkey, hnewest⟩ := hheld
  have heq : e = prior.epoch :=
    le_antisymm (h.prior_top e row hrow) (hnewest prior.epoch (Option.isSome_of_eq_some h.prior_own))
  rw [heq] at hrow
  rw [← hkey, Option.some.inj (h.prior_own.symm.trans hrow)]

theorem Agreed.begin (hS : Agreed S n) (hidle : S.stage = .idle) {who : Party}
    {id : Option EventId} (hbegin : S.begin who now new_priv id = some S') : Agreed S' n := by
  have hpoised : ∀ q, Poised (S.side q) n none := by
    intro q
    have hq := hS.poised q
    rwa [hidle] at hq
  have hnone : S.stage.turn = none := by rw [hidle]; rfl
  have htop : ∀ q e, (S.created q e).isSome = true → e ≤ n := by
    intro q e he
    obtain h | ⟨-, t, ht, -⟩ := hS.top q e he
    · exact h
    · exact absurd (hnone.symm.trans ht) (by simp)
  have hheld := hS.held who (fun t ht => absurd (hnone.symm.trans ht) (by simp))
  unfold Pair.begin at hbegin
  obtain ⟨epoch, prepare, prior, hok, h⟩ | ⟨raised, hraised, -⟩ := beginRotation_cases (S.side who) now new_priv id
  swap
  · split at hbegin
    · rename_i heq
      rw [heq] at hraised
      cases hraised
    · cases hbegin
  split at hbegin
  swap
  · cases hbegin
  rename_i s epoch' prepare' heq
  rw [heq] at hok h
  obtain ⟨rfl, rfl⟩ := Prod.mk.inj (Except.ok.inj hok)
  have hepoch : epoch' = n + 1 := by
    rw [h.epoch_eq, (hpoised who).currentEpoch (Option.isSome_of_eq_some (hS.peer who))]
  obtain rfl := Option.some.inj hbegin
  have hcreated : ∀ q e, e ≤ n → Function.update S.created who
      (Function.update (S.created who) epoch' (some new_priv)) q e = S.created q e := by
    intro q e he
    by_cases hq : q = who
    · rw [hq, Function.update_self, Function.update_of_ne (by omega)]
    · rw [Function.update_of_ne hq]
  set stage := Progress.prepared ⟨who, epoch', new_priv⟩ prepare' with hstage
  refine
    { poised := fun q => ?_, numbered := ⟨hepoch, ?_, ?_⟩, peer := fun q => ?_, own := fun q e row hrow => ?_,
      peerRows := fun q e row hrow => ?_, top := fun q e he => ?_, current := fun q priv hpriv => ?_,
      new := fun t ht => ?_, held := fun q hq => ?_, completed := hS.completed }
  · obtain rfl | rfl := Party.eq_or_other who q
    · show Poised ((S.moved _ s stage).side _) n (if _ = _ then some (.rotating, new_priv.publicKey) else none)
      rw [Pair.moved_side_self, if_pos rfl]
      exact Begun.poised h (hpoised _) hepoch
    · show Poised ((S.moved _ s stage).side _) n (if _ = _ then some (.rotating, new_priv.publicKey) else none)
      rw [Pair.moved_side_other, if_neg (Party.other_ne who)]
      exact hpoised _
  · rw [h.prepare_eq]
  · rw [h.prepare_eq]
    exact congrArg agreementFingerprint (Begun.prior_held h hheld)
  · have hpeer := hS.peer q
    rw [hidle] at hpeer
    obtain rfl | rfl := Party.eq_or_other who q
    · show ((S.moved _ s stage).side _).peer_agreement_key = _
      rw [Pair.moved_side_self, h.peer_agreement_key]
      exact hpeer
    · show ((S.moved _ s stage).side _).peer_agreement_key = _
      rw [Pair.moved_side_other]
      exact hpeer
  · obtain rfl | rfl := Party.eq_or_other who q
    · have hrow : ((S.moved _ s stage).side _).ownRow e = some row := hrow
      rw [Pair.moved_side_self, Begun.ownRow h] at hrow
      show (Function.update S.created _ _ _ e).map _ = _
      rw [Function.update_self]
      split_ifs at hrow with he
      · obtain rfl := Option.some.inj hrow
        rw [he, Function.update_self]
        rfl
      · rw [Function.update_of_ne he]
        exact hS.own _ e row hrow
    · have hrow : ((S.moved _ s stage).side _).ownRow e = some row := hrow
      rw [Pair.moved_side_other] at hrow
      show (Function.update S.created _ _ _ e).map _ = _
      rw [Function.update_of_ne (Party.other_ne who)]
      exact hS.own _ e row hrow
  · have hold : (S.side q).peerRow e = some row := by
      obtain rfl | rfl := Party.eq_or_other who q
      · have hrow : ((S.moved _ s stage).side _).peerRow e = some row := hrow
        rw [Pair.moved_side_self] at hrow
        exact Begun.peerRow h hrow
      · have hrow : ((S.moved _ s stage).side _).peerRow e = some row := hrow
        rwa [Pair.moved_side_other] at hrow
    have hle := ((hpoised q).below e row (peerRow_eq_some.mp hold).1).resolve_right (by simp)
    show (Function.update S.created _ _ _ e).map _ = _
    rw [hcreated _ _ hle]
    exact hS.peerRows q e row hold
  · have he : (Function.update S.created who (Function.update (S.created who) epoch' (some new_priv)) q e).isSome = true :=
      he
    by_cases hle : e ≤ n
    · exact Or.inl hle
    · by_cases hq : q = who
      · rw [hq, Function.update_self] at he
        by_cases hnew : e = epoch'
        · exact Or.inr ⟨hnew.trans hepoch, _, rfl, hq.symm⟩
        · rw [Function.update_of_ne hnew] at he
          exact absurd (htop _ e he) hle
      · rw [Function.update_of_ne hq] at he
        exact absurd (htop _ e he) hle
  · have hpriv : Function.update S.created who (Function.update (S.created who) epoch' (some new_priv)) q n = some priv :=
      hpriv
    rw [hcreated _ _ le_rfl] at hpriv
    exact hS.current q priv hpriv
  · obtain rfl := Option.some.inj ht
    show Function.update S.created who (Function.update (S.created who) epoch' (some new_priv)) who (n + 1) = _
    rw [Function.update_self, hepoch, Function.update_self]
  · obtain rfl | rfl := Party.eq_or_other who q
    · exact absurd rfl (hq _ rfl)
    · show HoldsNewest ((S.moved _ s stage).side _) _
      rw [Pair.moved_side_other]
      exact hS.held _ (fun t ht => absurd (hnone.symm.trans ht) (by simp))

/-! ## The steps after a begin -/

theorem HoldsNewest.congr {s s' : Side} {priv : PrivateKey} (h : ∀ e, s'.ownRow e = s.ownRow e) (hs : HoldsNewest s priv) :
    HoldsNewest s' priv := by
  obtain ⟨e, row, hrow, hkey, hnewest⟩ := hs
  refine ⟨e, row, (h e).trans hrow, hkey, fun e' he' => ?_⟩
  rw [h] at he'
  exact hnewest e' he'

/-- The row of the epoch that follows is the acking one of this prepare. -/
theorem Poised.fresh_acking {s : Side} (hs : Poised s n none) :
    (s.rotation (n + 1) .acking).filter (fun r => decide (r.phase ≠ .discarded)) = none := by
  cases hr : s.rotation (n + 1) .acking with
  | none => rfl
  | some r =>
    have hphase := hs.orderly.acking _ r hr
    have hdead : ¬ r.live = true := fun hl => absurd (hs.live _ _ r hr hl).2 (by simp)
    have hcommitted : r.phase = .committed := not_not.mp fun hne => hdead (Rotation.live_iff.mpr ⟨hne, hphase⟩)
    have hle := hs.orderly.committed _ _ r hr hcommitted
    rw [hs.key_epoch] at hle
    omega

/-- What an acknowledged prepare does on a side that is in no rotation. -/
structure Acking (s : Side) (n : Nat) (prepare : Prepare) (s' : Side) : Prop where
  poised : Poised s' n (some (.acking, prepare.new_agreement_key))
  peer_agreement_key : s'.peer_agreement_key = s.peer_agreement_key
  ownRow : ∀ e, s'.ownRow e = s.ownRow e
  peerRow : ∀ e, s'.peerRow e = if e = n + 1 then some ⟨n + 1, prepare.new_agreement_key, .peer⟩ else s.peerRow e

theorem acking_of_acknowledged {s s' : Side} {prepare : Prepare} {id : EventId}
    (h : Acknowledged s prepare id now s' n) (hs : Poised s n none) : Acking s n prepare s' := by
  have hbelow : ∀ e row, s.key_epochs.find e = some row → e ≤ n := fun e row hrow =>
    (hs.below e row hrow).resolve_right (by simp)
  obtain ⟨⟨existing, hexisting, -⟩, -⟩ | ⟨hflight, -, -, hepochs⟩ := h.peer_key
  · have hle := hbelow _ _ (peerRow_eq_some.mp hexisting).1
    omega
  have hidle := inFlight_eq_none.mp hflight
  have hrot : ∀ e role, s'.rotation e role =
      if (e, role) = (n + 1, Role.acking) then some (ackingRow (n + 1) n prepare id now) else s.rotation e role := by
    intro e role
    rw [h.rotation, hs.fresh_acking]
    rfl
  refine ⟨⟨h.orderly hs.orderly, h.key_epoch.trans hs.key_epoch, fun e row hrow => ?_, fun e role r hr hl => ?_,
    fun role key hturn => ?_⟩, h.peer_agreement_key, fun e => ?_, fun e => ?_⟩
  · rw [hepochs] at hrow
    split_ifs at hrow with he
    · exact Or.inr ⟨rfl, he⟩
    · exact Or.inl (hbelow e row hrow)
  · rw [hrot] at hr
    split_ifs at hr with hkey
    · obtain ⟨rfl, rfl⟩ := Prod.mk.inj hkey
      obtain rfl := Option.some.inj hr
      exact ⟨rfl, rfl⟩
    · exact absurd (hidle e role r hr) (by simp [hl])
  · obtain ⟨rfl, rfl⟩ := Prod.mk.inj (Option.some.inj hturn)
    exact ⟨_, (hrot _ _).trans (if_pos rfl), rfl⟩
  · unfold Keys.ownRow
    rw [hepochs]
    split_ifs with he
    · cases hrow : s.key_epochs.find e with
      | none => rfl
      | some row =>
        have hle := hbelow e row hrow
        omega
    · rfl
  · unfold Keys.peerRow
    rw [hepochs]
    split_ifs <;> rfl

/-- The other party acknowledges. -/
theorem Agreed.prepare (hS : Agreed S n) {prepare : Prepare}
    (hstage : S.stage = .prepared t prepare) {id : EventId}
    (hstep : S.after t.who.other (onPrepare (S.side t.who.other) prepare id now) (.acked t) = some S') : Agreed S' n := by
  have hpoised := hS.poised t.who.other
  have hnumbered := hS.numbered
  have hpeer := hS.peer t.who.other
  rw [hstage] at hpoised hnumbered hpeer
  simp only [Progress.poise, if_neg (Party.other_ne t.who)] at hpoised
  obtain ⟨hepoch, hkey, hfingerprint⟩ := hnumbered
  have hpeer : (S.side t.who.other).peer_agreement_key = some (S.committed t.who).publicKey := by
    rw [hpeer]
    simp [Progress.peerKey]
  have hturn : S.stage.turn = some t := by rw [hstage]; rfl
  -- the peer row of the current epoch, if it is there, has the committed key
  have hcurrent : ∀ row, (S.side t.who.other).peerRow n = some row → row.public_key = (S.committed t.who).publicKey := by
    intro row hrow
    have hrow := hS.peerRows _ _ row hrow
    rw [Party.other_other] at hrow
    obtain ⟨priv, hpriv, hpublic⟩ := Option.map_eq_some_iff.mp hrow
    rw [← hpublic, hS.current _ priv hpriv]
  obtain ⟨-, raised, hraised⟩ | ⟨prior_epoch, hok, h⟩ := onPrepare_cases (S.side t.who.other) prepare id now
  · unfold Pair.after at hstep
    split at hstep
    · rename_i heq
      rw [heq] at hraised
      cases hraised
    · cases hstep
  unfold Pair.after at hstep
  split at hstep
  swap
  · cases hstep
  rename_i s ack heq
  rw [heq] at hok h
  obtain rfl := Except.ok.inj hok
  obtain rfl := Option.some.inj hstep
  have hprior : prior_epoch = n := by
    obtain ⟨key, hfound⟩ := h.prior
    rw [hfingerprint, hpoised.prior hpeer hcurrent] at hfound
    exact (Prod.mk.inj (Option.some.inj hfound)).1.symm
  subst hprior
  have hacking := acking_of_acknowledged h hpoised
  refine hS.call (hturn ▸ rfl) ?_ ?_ ⟨hepoch, rfl⟩ ?_ ?_ (fun e row hrow => hacking.ownRow e ▸ hrow)
    (fun e row hrow => ?_) (fun priv hheld => hheld.congr hacking.ownRow)
  · have hs := hacking.poised
    rw [hkey] at hs
    simpa [Progress.poise] using hs
  · simp [hstage, Progress.poise]
  · rw [hacking.peer_agreement_key, hpeer]
    simp [Progress.peerKey]
  · simp [hstage, Progress.peerKey]
  · rw [hacking.peerRow] at hrow
    split_ifs at hrow with he
    · obtain rfl := Option.some.inj hrow
      rw [Party.other_other, he, hS.new t hturn, hkey]
      exact Or.inr rfl
    · exact Or.inl hrow

/-- What `S.after` gives when the call returns. -/
theorem Pair.of_after {α : Type} {result : Side × Except Raised α} {stage : α → Progress}
    (h : S.after p result stage = some S') : ∃ a, result.2 = .ok a ∧ S' = S.moved p result.1 (stage a) := by
  obtain ⟨s, a | a⟩ := result
  · cases h
  · exact ⟨a, rfl, (Option.some.inj h).symm⟩

theorem Poised.inFlightAs {s : Side} {role : Role} (hs : Poised s n (some (role, key))) :
    ∃ r, s.inFlightAs role = some r ∧ r.epoch = n + 1 ∧ r.new_public_key = key ∧ s.rotation (n + 1) role = some r := by
  obtain ⟨r, hr, hl⟩ := hs.there role key rfl
  cases hflight : s.inFlightAs role with
  | none => exact absurd (inFlightAs_eq_none.mp hflight _ r hr) (by simp [hl])
  | some r' =>
    obtain ⟨hr', hl'⟩ := rotation_of_inFlightAs hflight
    obtain ⟨hepoch, hturn⟩ := hs.live _ _ r' hr' hl'
    exact ⟨r', rfl, hepoch, (Prod.mk.inj (Option.some.inj hturn)).2.symm, hepoch ▸ hr'⟩

theorem poised_of_commits {s s' : Side} {role : Role} {r₀ r₁ : Rotation}
    (h : CommitsRow s (n + 1) role r₀ r₁ s') (hkey : s'.peer_agreement_key.isSome = true)
    (hs : Poised s n (some (role, key))) : Poised s' (n + 1) none where
  orderly := h.orderly hkey hs.orderly
  key_epoch := h.key_epoch
  below e row hrow := by
    rw [h.key_epochs] at hrow
    obtain hle | ⟨-, rfl⟩ := hs.below e row hrow
    · exact Or.inl (hle.trans (Nat.le_succ n))
    · exact Or.inl le_rfl
  live e role' r hr hl := by
    rw [h.rotation] at hr
    split_ifs at hr with hk
    · obtain rfl := Option.some.inj hr
      exact absurd h.committed (Rotation.live_iff.mp hl).1
    · obtain ⟨rfl, hturn⟩ := hs.live e role' r hr hl
      exact absurd (by rw [(Prod.mk.inj (Option.some.inj hturn)).1]) hk
  there _ _ hturn := absurd hturn (by simp)

theorem markCommitted_ok {s : Side} (hs : Poised s n (some (.acking, key)))
    (hok : (markCommitted s now).2 = .ok ()) :
    (∃ r₀ r₁, CommitsRow s (n + 1) .acking r₀ r₁ (markCommitted s now).1) ∧
      (markCommitted s now).1.peer_agreement_key = some key ∧ buildCommitPayload s = .ok (n + 1) := by
  obtain ⟨r, hr, hepoch, hkey, -⟩ := hs.inFlightAs
  have hconfirmed : r.phase = .confirmed := by
    by_contra hne
    simp [markCommitted, hr, hne] at hok
  obtain hsame | ⟨r₀, r₁, h, hpeer, hr₀⟩ := markCommitted_cases s now
  · simp only [markCommitted, hr, hconfirmed, ne_eq, not_true_eq_false, if_false] at hsame
    have hcounter : r.epoch = s.key_epoch := congrArg (fun s : Side => s.key_epoch) hsame
    rw [hs.key_epoch] at hcounter
    omega
  · obtain rfl := Option.some.inj (hr.symm.trans hr₀)
    refine ⟨⟨r, r₁, hepoch ▸ h⟩, hkey ▸ hpeer, ?_⟩
    unfold buildCommitPayload
    rw [hr, Option.filter_some, if_pos (by simpa using hconfirmed)]
    exact congrArg Except.ok hepoch

theorem onCommit_ok {s : Side} (hs : Poised s n (some (.rotating, key)))
    (hok : (onCommit s (n + 1) now).2 = .ok ()) :
    (∃ r₀ r₁, CommitsRow s (n + 1) .rotating r₀ r₁ (onCommit s (n + 1) now).1) ∧
      (onCommit s (n + 1) now).1.peer_agreement_key = s.peer_agreement_key := by
  obtain ⟨r, hflight, -, -, hr⟩ := hs.inFlightAs
  have hlive := (rotation_of_inFlightAs hflight).2
  have hconfirmed : r.phase = .confirmed := by
    by_contra hne
    simp [onCommit, hr, hne, (Rotation.live_iff.mp hlive).1] at hok
  obtain hsame | ⟨r₀, r₁, h, hpeer, -⟩ := onCommit_cases s (n + 1) now
  · simp only [onCommit, hr, hconfirmed, reduceCtorEq, ne_eq, not_true_eq_false, if_false] at hsame
    have hcounter : n + 1 = s.key_epoch := congrArg (fun s : Side => s.key_epoch) hsame
    rw [hs.key_epoch] at hcounter
    omega
  · exact ⟨⟨r₀, r₁, h⟩, hpeer⟩

/-- The acking party commits. -/
theorem Agreed.rotateCommit (hS : Agreed S n) {t : Turn} {recorded epoch : Nat}
    (hstage : S.stage = .confirmed t recorded) {now : Nat}
    (hpayload : buildCommitPayload (S.side t.who.other) = .ok epoch)
    (hstep : S.after t.who.other (markCommitted (S.side t.who.other) now) (fun _ => .committing t recorded epoch) =
      some S') : Agreed S' n := by
  have hpoised := hS.poised t.who.other
  have hnumbered := hS.numbered
  rw [hstage] at hpoised hnumbered
  simp only [Progress.poise, if_neg (Party.other_ne t.who)] at hpoised
  obtain ⟨hepoch, hrecorded⟩ := hnumbered
  have hturn : S.stage.turn = some t := by rw [hstage]; rfl
  obtain ⟨⟨⟩, hok, rfl⟩ := Pair.of_after hstep
  obtain ⟨⟨r₀, r₁, h⟩, hpeer, hbuilt⟩ := markCommitted_ok hpoised hok
  obtain rfl : n + 1 = epoch := Except.ok.inj (hbuilt.symm.trans hpayload)
  refine hS.call (hturn ▸ rfl) ?_ ?_ ⟨hepoch, hrecorded, rfl⟩ ?_ ?_ (fun e row hrow => ?_) (fun e row hrow => ?_)
    (fun priv hheld => hheld.congr (ownRow_congr h.key_epochs))
  · simpa [Progress.poise] using poised_of_commits h (Option.isSome_of_eq_some hpeer) hpoised
  · simp [hstage, Progress.poise]
  · rw [hpeer]
    simp [Progress.peerKey]
  · simp [hstage, Progress.peerKey]
  · exact ownRow_congr h.key_epochs e ▸ hrow
  · exact Or.inl (peerRow_congr h.key_epochs e ▸ hrow)

theorem Agreed.commit (hS : Agreed S n) {t : Turn} {recorded epoch : Nat}
    (hstage : S.stage = .committing t recorded epoch) {now : Nat}
    (hstep : (S.after t.who (onCommit (S.side t.who) epoch now) (fun _ => .idle)).map (·.complete t recorded) =
      some S') : Agreed S' (n + 1) := by
  have hpoised := hS.poised
  have hpeers := hS.peer
  have hnumbered := hS.numbered
  rw [hstage] at hpoised hnumbered hpeers
  obtain ⟨hepoch, hrecorded, rfl⟩ := hnumbered
  have hwho := hpoised t.who
  have hother := hpoised t.who.other
  simp only [Progress.poise, if_true] at hwho
  simp only [Progress.poise, if_neg (Party.other_ne t.who)] at hother
  have hturn : S.stage.turn = some t := by rw [hstage]; rfl
  obtain ⟨T, hafter, rfl⟩ := Option.map_eq_some_iff.mp hstep
  obtain ⟨⟨⟩, hok, rfl⟩ := Pair.of_after hafter
  obtain ⟨⟨r₀, r₁, h⟩, hpeer⟩ := onCommit_ok hwho hok
  set s := (onCommit (S.side t.who) (n + 1) now).1 with hs
  have hcommitted := poised_of_commits h (by rw [hpeer]; exact hwho.orderly.peer) hwho
  have hnew := hS.new t hturn
  refine
    { poised := fun q => ?_, numbered := trivial, peer := fun q => ?_, own := fun q e row hrow => ?_,
      peerRows := fun q e row hrow => ?_, top := fun q e he => Or.inl ?_, current := fun q priv hpriv => ?_,
      new := fun t ht => absurd ht (by simp [Pair.complete, Pair.moved, Progress.turn]), held := fun q _ => ?_,
      completed := fun c hc => ?_ }
  · obtain rfl | rfl := Party.eq_or_other t.who q
    · show Poised ((S.moved _ s .idle).side _) (n + 1) none
      rwa [Pair.moved_side_self]
    · show Poised ((S.moved _ s .idle).side _) (n + 1) none
      rwa [Pair.moved_side_other]
  · obtain rfl | rfl := Party.eq_or_other t.who q
    · show ((S.moved _ s .idle).side _).peer_agreement_key = some (Function.update S.committed _ _ _).publicKey
      rw [Pair.moved_side_self, hpeer, hpeers, Function.update_of_ne (Party.other_ne t.who)]
      simp [Progress.peerKey]
    · show ((S.moved _ s .idle).side _).peer_agreement_key = some (Function.update S.committed _ _ _).publicKey
      rw [Pair.moved_side_other, hpeers, Party.other_other, Function.update_self]
      simp [Progress.peerKey]
  · have hrow : ((S.moved _ s .idle).side q).ownRow e = some row := hrow
    obtain rfl | rfl := Party.eq_or_other t.who q
    · rw [Pair.moved_side_self, ownRow_congr h.key_epochs] at hrow
      exact hS.own _ e row hrow
    · rw [Pair.moved_side_other] at hrow
      exact hS.own _ e row hrow
  · have hrow : ((S.moved _ s .idle).side q).peerRow e = some row := hrow
    obtain rfl | rfl := Party.eq_or_other t.who q
    · rw [Pair.moved_side_self, peerRow_congr h.key_epochs] at hrow
      exact hS.peerRows _ e row hrow
    · rw [Pair.moved_side_other] at hrow
      exact hS.peerRows _ e row hrow
  · obtain hle | ⟨rfl, -⟩ := hS.top q e he
    · exact hle.trans (Nat.le_succ n)
    · exact le_rfl
  · show priv = Function.update S.committed t.who t.new_priv q
    have hpriv : S.created q (n + 1) = some priv := hpriv
    obtain hle | ⟨-, t', ht', rfl⟩ := hS.top q (n + 1) (Option.isSome_of_eq_some hpriv)
    · omega
    · obtain rfl := Option.some.inj (hturn.symm.trans ht')
      rw [Function.update_self]
      exact Option.some.inj (hpriv.symm.trans hnew)
  · show HoldsNewest ((S.moved _ s .idle).side q) (Function.update S.committed t.who t.new_priv q)
    obtain rfl | rfl := Party.eq_or_other t.who q
    · rw [Pair.moved_side_self, Function.update_self]
      obtain ⟨r, hr, hl⟩ := hwho.there _ _ rfl
      obtain ⟨row, hrow⟩ := Option.isSome_iff_exists.mp (hwho.orderly.ownKeys _ r hr hl).1
      have hkey := hS.own _ _ row hrow
      rw [hnew] at hkey
      refine HoldsNewest.congr (ownRow_congr h.key_epochs) ⟨n + 1, row, hrow, (Option.some.inj hkey).symm, fun e' he' => ?_⟩
      obtain ⟨row', hrow'⟩ := Option.isSome_iff_exists.mp he'
      obtain hle | ⟨-, rfl⟩ := hwho.below e' row' (ownRow_eq_some.mp hrow').1
      · omega
      · exact le_rfl
    · rw [Pair.moved_side_other, Function.update_of_ne (Party.other_ne t.who)]
      refine hS.held _ (fun t' ht' => ?_)
      obtain rfl := Option.some.inj (hturn.symm.trans ht')
      exact (Party.other_ne _).symm
  · obtain hc | hc := List.mem_append.mp hc
    · exact hS.completed c hc
    · rw [List.mem_singleton.mp hc]
      exact hrecorded.trans hepoch.symm

theorem Poised.confirm_epoch {s : Side} (hs : Poised s n (some (.rotating, key)))
    (h : buildConfirmPayload s = .ok epoch) : epoch = n + 1 := by
  obtain ⟨r, hr, hepoch, -, -⟩ := hs.inFlightAs
  unfold buildConfirmPayload at h
  rw [hr] at h
  dsimp only at h
  split_ifs at h
  exact (Except.ok.inj h).symm.trans hepoch

theorem Agreed.background (hS : Agreed S n) {call : RotationCall} (hcall : background call = true) :
    Agreed (S.moved p ((S.side p).call call) S.stage) n := by
  have hs := hS.poised p
  have h := background_retires hs.orderly hcall
  refine hS.call rfl (h.poised hs (hs.orderly.call call)) rfl hS.numbered ?_ rfl (fun e row => h.ownRow)
    (fun e row hrow => Or.inl (h.peerRow hrow)) (fun priv => h.held)
  rw [h.peer_agreement_key]
  exact hS.peer p

/-- One step keeps the agreement. -/
theorem Agreed.next (hS : Agreed S n) {a : PairAction} (hstep : S.next a = some S') : ∃ m, Agreed S' m := by
  unfold Pair.next at hstep
  split at hstep
  · rename_i hstage
    exact ⟨n, hS.begin hstage hstep⟩
  · rename_i hstage
    exact ⟨n, hS.prepare hstage hstep⟩
  · rename_i t ack now hstage
    have hnumbered := hS.numbered
    rw [hstage] at hnumbered
    obtain ⟨⟨⟩, -, rfl⟩ := Pair.of_after hstep
    exact ⟨n, hS.evolves (keepsLive_ackMove _) (onAck_evolves _ _ _) (by rw [hstage]; rfl)
      (fun q => by rw [hstage]; rfl) hnumbered (fun q => by rw [hstage]; rfl)⟩
  · rename_i t recorded now hstage
    have hnumbered := hS.numbered
    have hpoised := hS.poised t.who
    rw [hstage] at hnumbered hpoised
    simp only [Progress.poise, if_true] at hpoised
    split at hstep
    swap
    · cases hstep
    rename_i epoch hpayload
    obtain ⟨⟨⟩, -, rfl⟩ := Pair.of_after hstep
    exact ⟨n, hS.evolves keepsLive_confirmMove (markConfirmed_evolves _ _) (by rw [hstage]; rfl)
      (fun q => by rw [hstage]; rfl) ⟨hnumbered.1, hnumbered.2, hpoised.confirm_epoch hpayload⟩
      (fun q => by rw [hstage]; rfl)⟩
  · rename_i t recorded epoch now hstage
    have hnumbered := hS.numbered
    rw [hstage] at hnumbered
    obtain ⟨⟨⟩, -, rfl⟩ := Pair.of_after hstep
    exact ⟨n, hS.evolves (keepsLive_onConfirmMove _) (onConfirm_evolves _ _ _) (by rw [hstage]; rfl)
      (fun q => by rw [hstage]; rfl) ⟨hnumbered.1, hnumbered.2.1⟩ (fun q => by rw [hstage]; rfl)⟩
  · rename_i t recorded now hstage
    split at hstep
    swap
    · cases hstep
    rename_i epoch hpayload
    exact ⟨n, hS.rotateCommit hstage hpayload hstep⟩
  · rename_i hstage
    exact ⟨n + 1, hS.commit hstage hstep⟩
  · split_ifs at hstep with hcall
    obtain rfl := Option.some.inj hstep
    exact ⟨n, hS.background hcall⟩
  · cases hstep

theorem Pair.Paired.agreed (h : S.Paired n) : Agreed S n := by
  have hidle : ∀ q, ∀ e role, (S.side q).rotation e role = none := by
    intro q e role
    unfold Keys.rotation
    rw [(h.fresh q).idle]
    exact Table.find_empty _
  have hnone : ∀ q e role r, (S.side q).rotation e role = some r → False := fun q e role r hr =>
    absurd ((hidle q e role).symm.trans hr) (by simp)
  have honly : ∀ q e row, (S.side q).key_epochs.find e = some row → e = n := fun q e row hrow =>
    ((h.fresh q).only e row hrow).trans (h.key_epoch q)
  have hown : ∀ q, ∃ row, (S.side q).ownRow n = some row := fun q =>
    h.key_epoch q ▸ Option.isSome_iff_exists.mp (h.fresh q).own
  have hnew : ∀ t, S.stage.turn ≠ some t := by
    intro t
    rw [h.stage]
    simp [Progress.turn]
  refine
    { poised := fun q => ?_, numbered := by rw [h.stage]; trivial, peer := fun q => by rw [h.peer, h.stage]; rfl,
      own := fun q e row hrow => ?_, peerRows := fun q e row hrow => ?_, top := fun q e he => Or.inl ?_,
      current := fun q priv hpriv => ?_, new := fun t ht => absurd ht (hnew t), held := fun q _ => ?_,
      completed := fun c hc => absurd hc (by simp [h.completed]) }
  · rw [h.stage]
    exact ⟨(h.fresh q).orderly, h.key_epoch q, fun e row hrow => Or.inl (honly q e row hrow).le,
      fun e role r hr _ => (hnone q e role r hr).elim, fun _ _ hturn => absurd hturn (by simp [Progress.poise])⟩
  · obtain rfl := honly q e row (ownRow_eq_some.mp hrow).1
    rw [h.created, if_pos rfl, h.own q row hrow]
    rfl
  · obtain ⟨hfind, hpeer⟩ := peerRow_eq_some.mp hrow
    obtain rfl := honly q e row hfind
    obtain ⟨own, hown⟩ := hown q
    obtain ⟨hfind', hown⟩ := ownRow_eq_some.mp hown
    obtain rfl := Option.some.inj (hfind.symm.trans hfind')
    exact absurd (hpeer.symm.trans hown) (by simp)
  · rw [h.created] at he
    split_ifs at he with hn
    · exact hn.le
    · exact absurd he (by simp)
  · rw [h.created, if_pos rfl] at hpriv
    exact (Option.some.inj hpriv).symm
  · obtain ⟨row, hrow⟩ := hown q
    refine ⟨n, row, hrow, h.own q row hrow, fun e' he' => ?_⟩
    obtain ⟨row', hrow'⟩ := Option.isSome_iff_exists.mp he'
    exact (honly q e' row' (ownRow_eq_some.mp hrow').1).le

end pair

/-- The numbers agree along every run. -/
theorem agreed_of_reachable {S : Pair} (h : Pair.rotations.Reachable S) : ∃ n, Agreed S n :=
  h.invariant (P := fun S => ∃ n, Agreed S n) (fun _ (hinit : ∃ n, Pair.Paired _ n) => hinit.imp fun _ h => h.agreed)
    (fun _ _ _ hS _ hstep => hS.elim fun _ h => h.next hstep)

/-- Both sides number the keys alike: the acking side records each key under the number
that the rotating side gave it, and every peer row holds the key that the peer created
under its epoch.  Between two rotations the current epochs agree, and each side knows the
newest committed key of the other. -/
theorem labels_agree {S : Pair} (h : Pair.rotations.Reachable S) :
    (∀ c ∈ S.completed, c.recorded = c.turn.epoch) ∧
    (∀ t ack, S.stage = .acked t ack → ack.epoch = t.epoch ∧
      ((S.side t.who.other).peerRow t.epoch).map KeyRow.public_key = some t.new_priv.publicKey) ∧
    (∀ p e row, (S.side p).peerRow e = some row →
      (S.created p.other e).map PrivateKey.publicKey = some row.public_key) ∧
    (S.stage = .idle → (∀ p q, (S.side p).key_epoch = (S.side q).key_epoch) ∧
      ∀ p, (S.side p).peer_agreement_key = some (S.committed p.other).publicKey) := by
  obtain ⟨n, hS⟩ := agreed_of_reachable h
  refine ⟨hS.completed, fun t ack hstage => ?_, hS.peerRows, fun hstage => ⟨fun p q => ?_, fun p => ?_⟩⟩
  · have hnumbered := hS.numbered
    have hpoised := hS.poised t.who.other
    have hnew := hS.new t (by rw [hstage]; rfl)
    rw [hstage] at hnumbered hpoised
    simp only [Progress.poise, if_neg (Party.other_ne t.who)] at hpoised
    obtain ⟨hepoch, hack⟩ := hnumbered
    obtain ⟨r, hr, hl⟩ := hpoised.there _ _ rfl
    obtain ⟨row, hrow⟩ := Option.isSome_iff_exists.mp (hpoised.orderly.peerKeys _ r hr hl).1
    have hkey := hS.peerRows _ _ row hrow
    rw [Party.other_other, hnew] at hkey
    refine ⟨hack.trans hepoch.symm, ?_⟩
    rw [hepoch, hrow]
    exact hkey.symm
  · have hp := (hS.poised p).key_epoch
    have hq := (hS.poised q).key_epoch
    rw [hstage] at hp hq
    exact hp.trans hq.symm
  · have hpeer := hS.peer p
    rw [hstage] at hpeer
    exact hpeer

/-- The key of a party at the pairing. -/
def pairingKey : Party → PrivateKey
  | .alice => ⟨1⟩
  | .bob => ⟨2⟩

/-- Two sides right after the pairing. -/
def paired : Pair where
  side p := freshSide (pairingKey p) (pairingKey p.other)
  created p e := if e = 1 then some (pairingKey p) else none
  committed := pairingKey

theorem paired_paired : paired.Paired 1 where
  fresh _ := freshSide_fresh _ _
  key_epoch _ := rfl
  own p row hrow := by
    obtain rfl := Option.some.inj hrow
    rfl
  peer _ := rfl
  created _ _ := rfl
  stage := rfl
  completed := rfl

/-- The steps of one rotation. -/
def wholeRotation (who : Party) (epoch : Nat) (new_priv : PrivateKey) : List PairAction :=
  [.begin who 0 new_priv (some epoch), .prepare epoch 1, .ack 2, .background who (.noteDecryptedNewWrap epoch 3),
    .rotateConfirm 4, .confirm 5, .rotateCommit 6, .commit 7]

/-- Alice rotates, then Bob, then Alice begins again. -/
def threeRotations : List PairAction :=
  wholeRotation .alice 2 ⟨3⟩ ++ wholeRotation .bob 3 ⟨4⟩ ++ [.begin .alice 8 ⟨5⟩ (some 9), .prepare 9 10]

theorem labels_agree_threeRotations :
    ∃ S, Pair.rotations.run paired threeRotations = some S ∧
      S.completed = [⟨⟨.alice, 2, ⟨3⟩⟩, 2⟩, ⟨⟨.bob, 3, ⟨4⟩⟩, 3⟩] ∧ S.stage = .acked ⟨.alice, 4, ⟨5⟩⟩ ⟨4, 9⟩ ∧
      ((S.side .bob).peerRow 4).map KeyRow.public_key = some (PrivateKey.publicKey ⟨5⟩) := by
  obtain ⟨S, hrun⟩ := Option.isSome_iff_exists.mp
    (show (Pair.rotations.run paired threeRotations).isSome = true by decide +kernel)
  have hshape : (Pair.rotations.run paired threeRotations).map (fun S => (S.completed, S.stage)) =
      some ([⟨⟨.alice, 2, ⟨3⟩⟩, 2⟩, ⟨⟨.bob, 3, ⟨4⟩⟩, 3⟩], .acked ⟨.alice, 4, ⟨5⟩⟩ ⟨4, 9⟩) := by decide +kernel
  rw [hrun] at hshape
  obtain ⟨hcompleted, hstage⟩ := Prod.mk.inj (Option.some.inj hshape)
  obtain ⟨-, hrecorded, -, -⟩ := labels_agree (Machine.reachable_of_run ⟨1, paired_paired⟩ hrun)
  exact ⟨S, hrun, hcompleted, hstage, (hrecorded _ _ hstage).2⟩

end MuseAgentSocial.Cli
