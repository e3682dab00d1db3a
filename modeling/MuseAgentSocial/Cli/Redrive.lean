import MuseAgentSocial.Cli.Rotate
import MuseAgentSocial.Crypto.Resolution

/-!
# Rotation hooks that run a second time

A stored rotation event is given to its hook again until the event is marked.

* `Repeated` is what a second run may leave: keys, phases, peer key and quarantine as
  they were, and the ack of the first run or none.
* `Follows` is what every call does to an acking row in flight and to the peer keys that
  are not ahead.
* `hooks_repeat` is the result over runs, when the event is `Spent`.  In `restartedRun`
  the candidate of the ack is discarded and begun again, and the second run of the same
  ack acknowledges the new one.
-/

namespace MuseAgentSocial.Cli

open Model Crypto RotationManager Keys

/-! ## The second run -/

/-- The phase of a rotation row and its keys. -/
def stageOf (r : Rotation) : Phase × Origin := (r.phase, r.origin)

/-- The keys, the rotations and the quarantine are as they were. -/
structure Unmoved (s s' : Side) : Prop where
  key_epochs : s'.key_epochs = s.key_epochs
  rows : ∀ e role, (s'.rotation e role).map stageOf = (s.rotation e role).map stageOf
  inFlight : ∀ e role, (s'.rotation e role).any (·.live) = (s.rotation e role).any (·.live)
  key_epoch : s'.key_epoch = s.key_epoch
  peer_agreement_key : s'.peer_agreement_key = s.peer_agreement_key
  rotation_quarantine : s'.rotation_quarantine = s.rotation_quarantine

/-- A second run of the hook of an event, after one that left `first` to do, moves
nothing, and any ack that it returns is the one of the first run. -/
structure Repeated (first : HookResult) (s : Side) (ev : StoredEvent) (now : Nat) : Prop where
  unmoved : Unmoved s (postReceiveHooks s ev now).1
  reply : ∀ ack, (postReceiveHooks s ev now).2 = .ok (.reply ack) → first = .reply ack

/-- A candidate that was not acknowledged takes the ack. -/
def Takes (s : Side) (ack : Ack) (now : Nat) : Prop :=
  ∃ r ∈ s.rotation ack.epoch .rotating, r.prepare_event_id.any (· ≠ ack.prepare_event_id) = false ∧
    r.phase = .candidate ∧ now ≤ r.deadline

/-- The prior key of a prepare is the newest peer key, and the epoch after it is a
candidate of this side or free for a rotation of the peer. -/
def Adoptable (s : Side) (prepare : Prepare) (prior_epoch now : Nat) : Prop :=
  prior_epoch = (s.peerKeyEpochs.map (·.1)).foldr max 0 ∧
    if (s.ownRow (prior_epoch + 1)).isSome then (s.rotation (prior_epoch + 1) .rotating).all (·.live) = true
    else s.currentEpoch < prior_epoch + 1 ∧ s.inFlight = none ∧ now ≤ prepare.deadline

/-- The event has nothing to do any more in `s`, after a first run in `s₀`.  An ack finds
no candidate that takes it.  The prior key of a prepare, if it is known, still has the
epoch that the first run found, or the epoch after it has no peer key and the prepare is
not adoptable. -/
def Spent (s₀ s : Side) (ev : StoredEvent) (now : Nat) : Prop :=
  match ev.body with
  | .prepare prepare => ∀ p, s.priorEpoch prepare = some p →
      s₀.priorEpoch prepare = some p ∨ s.peerRow (p + 1) = none ∧ ¬ Adoptable s prepare p now
  | .ack ack => ¬ Takes s ack now
  | _ => True

namespace Unmoved

variable {s s' : Side}

theorem refl (s : Side) : Unmoved s s := ⟨rfl, fun _ _ => rfl, fun _ _ => rfl, rfl, rfl, rfl⟩

theorem of_eq (h : s' = s) : Unmoved s s' := h ▸ refl s

/-- The rotations in flight follow from the phases. -/
theorem of_rows (hkeys : s'.key_epochs = s.key_epochs) (hepoch : s'.key_epoch = s.key_epoch)
    (hpeer : s'.peer_agreement_key = s.peer_agreement_key) (hquarantine : s'.rotation_quarantine = s.rotation_quarantine)
    (hrows : ∀ e role, (s'.rotation e role).map stageOf = (s.rotation e role).map stageOf) :
    Unmoved s s' where
  key_epochs := hkeys
  rows := hrows
  inFlight e role := by
    have hlive : ∀ o : Option Rotation, o.any (·.live) = (o.map stageOf).any (fun x =>
        decide (x.1 ≠ .committed ∧ x.1 ≠ .discarded)) := by
      intro o
      cases o <;> rfl
    rw [hlive, hlive, hrows]
  key_epoch := hepoch
  peer_agreement_key := hpeer
  rotation_quarantine := hquarantine

end Unmoved

/-! ## What every call keeps -/

/-- An acking row in flight stays in flight, confirmed if it was, until its epoch is the
current one, and the peer keys of such an epoch do not change.  The current epoch does not
go back. -/
structure Follows (k k' : Keys) : Prop where
  key_epoch : k.key_epoch ≤ k'.key_epoch
  acking : ∀ e r, k.rotation e .acking = some r → r.live = true →
    e ≤ k'.key_epoch ∨ ∃ r', k'.rotation e .acking = some r' ∧ r'.live = true ∧
      (r.phase = .confirmed → r'.phase = .confirmed)
  peer : ∀ e row, (e ≤ k.key_epoch ∨ ∃ r, k.rotation e .acking = some r ∧ r.live = true) →
    k'.peerRow e = some row → k.peerRow e = some row

namespace Follows

variable {k k' k'' : Keys}

theorem refl (k : Keys) : Follows k k :=
  ⟨le_rfl, fun _ r hr hlive => Or.inr ⟨r, hr, hlive, id⟩, fun _ _ _ hrow => hrow⟩

theorem of_keys (h : k' = k) : Follows k k' := h ▸ refl k

theorem trans (h : Follows k k') (h' : Follows k' k'') : Follows k k'' where
  key_epoch := h.key_epoch.trans h'.key_epoch
  acking e r hr hlive := by
    obtain hle | ⟨r', hr', hlive', hconfirmed⟩ := h.acking e r hr hlive
    · exact Or.inl (hle.trans h'.key_epoch)
    · obtain hle | ⟨r'', hr'', hlive'', hconfirmed'⟩ := h'.acking e r' hr' hlive'
      · exact Or.inl hle
      · exact Or.inr ⟨r'', hr'', hlive'', fun hc => hconfirmed' (hconfirmed hc)⟩
  peer e row hhandled hrow := by
    refine h.peer e row hhandled (h'.peer e row ?_ hrow)
    obtain hle | ⟨r, hr, hlive⟩ := hhandled
    · exact Or.inl (hle.trans h.key_epoch)
    · exact (h.acking e r hr hlive).imp_right (fun ⟨r', hr', hlive', _⟩ => ⟨r', hr', hlive'⟩)

theorem of_same (hepoch : k.key_epoch ≤ k'.key_epoch) (hacking : ∀ e, k'.rotation e .acking = k.rotation e .acking)
    (hpeer : ∀ e row, k'.peerRow e = some row → k.peerRow e = some row) : Follows k k' where
  key_epoch := hepoch
  acking e r hr hlive := Or.inr ⟨r, (hacking e).trans hr, hlive, id⟩
  peer e row _ := hpeer e row

theorem of_evolves {allowed : Nat → Role → Phase → Phase → Prop} (hkeep : KeepsLive allowed)
    (hconfirmed : ∀ e p p', allowed e .acking p p' → p ≠ .confirmed) (h : Evolves allowed k k') : Follows k k' where
  key_epoch := h.key_epoch.ge
  acking e r hr hlive := by
    obtain ⟨r', hr', -, hphase⟩ := h.forth e .acking r hr
    refine Or.inr ⟨r', hr', (live_eq_of_move hkeep hphase).trans hlive, fun hc => ?_⟩
    cases hphase with
    | inl hsame => exact hsame.trans hc
    | inr hmove => exact absurd hc (hconfirmed _ _ _ hmove)
  peer e row _ hrow := by
    rw [peerRow_congr h.key_epochs] at hrow
    exact hrow

end Follows

section calls

variable {s s' : Side} {now : Nat}

theorem beginRotation_follows (s : Side) (now : Nat) (priv : PrivateKey) (id : Option EventId) :
    Follows s.toKeys (beginRotation s now priv id).1.toKeys := by
  obtain ⟨epoch, prepare, prior, -, hbegun⟩ | ⟨raised, -, hfile⟩ := beginRotation_cases s now priv id
  · refine .of_same hbegun.key_epoch.ge (fun e => ?_) (fun e row hrow => ?_)
    · rw [hbegun.rotation, if_neg (by simp)]
    · obtain ⟨hfind, hpeer⟩ := peerRow_eq_some.mp hrow
      rw [hbegun.key_epochs] at hfind
      split_ifs at hfind
      · obtain rfl := Option.some.inj hfind
        cases hpeer
      · exact peerRow_eq_some.mpr ⟨hfind, hpeer⟩
  · refine .of_same hfile.key_epoch.ge (fun e => ?_) (fun e row hrow => ?_)
    · unfold Keys.rotation
      rw [hfile.key_rotations]
    · rw [peerRow_congr hfile.key_epochs] at hrow
      exact hrow

theorem onPrepare_follows (hpeer : s.peer_agreement_key.isSome = true) (prepare : Prepare) (id : EventId) (now : Nat) :
    Follows s.toKeys (onPrepare s prepare id now).1.toKeys := by
  obtain ⟨hsame, -⟩ | ⟨p, -, hack⟩ := onPrepare_cases s prepare id now
  · exact .of_keys hsame
  · refine ⟨hack.key_epoch.ge, fun e r hr hlive => Or.inr ⟨r, ?_, hlive, fun hc => hc⟩, fun e row hhandled hrow => ?_⟩
    · rw [hack.rotation]
      split_ifs with hkey
      · obtain ⟨rfl, -⟩ := Prod.mk.inj hkey
        rw [hr]
        simp [Option.filter, (Rotation.live_iff.mp hlive).2]
      · exact hr
    · obtain ⟨-, hkeys⟩ | ⟨hidle, hlt, -, hfind⟩ := hack.peer_key
      · rw [peerRow_congr hkeys] at hrow
        exact hrow
      · -- The new key is ahead of the current epoch, and nothing was in flight.
        have hne : e ≠ p + 1 := by
          obtain hle | ⟨r, hr, hlive⟩ := hhandled
          · have hcurrent := key_epoch_le_currentEpoch hpeer
            omega
          · exact absurd hlive (by simp [inFlight_eq_none.mp hidle _ _ r hr])
        obtain ⟨hrow, hown⟩ := peerRow_eq_some.mp hrow
        rw [hfind, if_neg hne] at hrow
        exact peerRow_eq_some.mpr ⟨hrow, hown⟩

theorem follows_of_removed {epoch : Nat} (h : Removed s epoch s')
    (hacking : ∀ e, s'.rotation e .acking = s.rotation e .acking) : Follows s.toKeys s'.toKeys := by
  refine .of_same h.key_epoch.ge hacking (fun e row hrow => ?_)
  rw [h.peerRow] at hrow
  exact hrow

theorem sweepCompact_follows (s : Side) (now : Nat) : Follows s.toKeys (sweepCompact s now).1.toKeys := by
  obtain hsame | ⟨hepoch, -, -, hkeys, hrotation⟩ := sweepCompact_cases s now
  · rw [hsame]
    exact .refl _
  · refine ⟨hepoch.ge, fun e r hr hlive => Or.inr ⟨r, ?_, hlive, id⟩, fun e row _ hrow => ?_⟩
    · rw [hrotation, hr]
      simp [Option.filter, staleCommitted, (Rotation.live_iff.mp hlive).1]
    · obtain ⟨hfind, hpeer⟩ := peerRow_eq_some.mp hrow
      rw [hkeys] at hfind
      exact peerRow_eq_some.mpr ⟨(Option.filter_eq_some_iff.mp hfind).1, hpeer⟩

theorem sweepTimeout_follows (s : Side) (now : Nat) : Follows s.toKeys (sweepTimeout s now).1.toKeys := by
  obtain hsame | ⟨r, -, -, hremoved, hrotation⟩ := sweepTimeout_cases s now
  · rw [hsame]
    exact .refl _
  · refine follows_of_removed hremoved (fun e => ?_)
    rw [hrotation, if_neg (by simp)]

theorem sweepRetire_follows (s : Side) (row : Rotation) (now : Nat) :
    Follows s.toKeys (sweepRetire s row now).1.toKeys := by
  obtain hsame | ⟨-, hremoved, hrotation⟩ := sweepRetire_cases s row now
  · rw [hsame]
    exact .refl _
  · refine follows_of_removed hremoved (fun e => ?_)
    rw [hrotation, if_neg (by simp)]

theorem resolveQuarantine_follows (ho : Orderly s.toKeys) (index : Int) (choice : Choice) (now : Nat) :
    Follows s.toKeys (resolveQuarantine s index choice now).1.toKeys := by
  have hoffer : ∀ (s₁ : Side) (index : Nat) (prepare : Prepare) (id : EventId), s₁.peer_agreement_key.isSome = true →
      Follows s₁.toKeys (offerAgain s s₁ index prepare id now).1.toKeys := by
    intro s₁ index prepare id hpeer
    have hprepare := onPrepare_follows hpeer prepare id now
    unfold offerAgain
    cases hout : onPrepare s₁ prepare id now with
    | mk s' result =>
      rw [hout] at hprepare
      cases result with
      | error raised => exact hprepare
      | ok ack => exact hprepare
  unfold resolveQuarantine
  split_ifs
  · exact .refl _
  · split
    · exact .refl _
    · rename_i entry _
      split
      · exact .refl _
      · rename_i prepare id _
        cases hcandidate : s.candidate entry.epoch with
        | none =>
          rw [resolveTheirs_of_none hcandidate]
          exact hoffer s _ prepare id ho.peer
        | some r =>
          obtain ⟨hr, hl⟩ := candidate_eq_some.mp hcandidate
          have hremoved := removed_withdrawn s entry.epoch
          rw [resolveTheirs_of_some hcandidate (ho.ownKeys _ r hr hl).1]
          split_ifs
          · exact .refl _
          · refine (follows_of_removed hremoved (fun e => ?_)).trans (hoffer _ _ prepare id ?_)
            · rw [(withdrawn_rest s entry.epoch).2.1, if_neg (by simp)]
            · rw [hremoved.peer_agreement_key]
              exact ho.peer
      · exact .refl _
      · exact .refl _

/-- A commit moves the current epoch to the one of the rotation in flight. -/
theorem markCommitted_follows (ho : Orderly s.toKeys) (now : Nat) :
    Follows s.toKeys (markCommitted s now).1.toKeys := by
  obtain hsame | ⟨r₀, r₁, hcommits, -, hflight⟩ := markCommitted_cases s now
  · rw [hsame]
    exact .refl _
  · obtain ⟨hrow, hlive⟩ := rotation_of_inFlightAs hflight
    have hahead := (ho.top _ _ _ hrow hlive).1
    refine ⟨?_, fun e r hr hlive' => ?_, fun e row _ hrow => ?_⟩
    · rw [hcommits.key_epoch]
      exact hahead.le
    · obtain ⟨rfl, -⟩ := ho.unique _ _ _ _ _ _ hr hrow hlive' hlive
      exact Or.inl hcommits.key_epoch.ge
    · rw [peerRow_congr hcommits.key_epochs] at hrow
      exact hrow

theorem onCommit_follows (ho : Orderly s.toKeys) (epoch now : Nat) :
    Follows s.toKeys (onCommit s epoch now).1.toKeys := by
  obtain hsame | ⟨r₀, r₁, hcommits, -⟩ := onCommit_cases s epoch now
  · rw [hsame]
    exact .refl _
  · have hlive : r₀.live = true := Rotation.live_iff.mpr (by simp [hcommits.confirmed])
    refine .of_same ?_ (fun e => ?_) (fun e row hrow => ?_)
    · rw [hcommits.key_epoch]
      exact (ho.top _ _ _ hcommits.row hlive).1.le
    · rw [hcommits.rotation, if_neg (by simp)]
    · rw [peerRow_congr hcommits.key_epochs] at hrow
      exact hrow

theorem call_follows (ho : Orderly s.toKeys) (call : RotationCall) : Follows s.toKeys (s.call call).toKeys := by
  have hrotating : ∀ {allowed : Nat → Role → Phase → Phase → Prop}, KeepsLive allowed →
      (∀ e p p', ¬ allowed e .acking p p') → ∀ {s' : Side}, Evolves allowed s.toKeys s'.toKeys →
        Follows s.toKeys s'.toKeys :=
    fun hkeep hnone _ h => .of_evolves hkeep (fun e p p' hmove => absurd hmove (hnone e p p')) h
  cases call with
  | beginRotation now priv id => exact beginRotation_follows s now priv id
  | onPrepare prepare id now => exact onPrepare_follows ho.peer prepare id now
  | onAck ack now => exact hrotating (keepsLive_ackMove ack.epoch) (by simp [ackMove]) (onAck_evolves s ack now)
  | noteDecryptedNewWrap epoch now =>
    exact hrotating keepsLive_noMove (by simp [noMove]) (noteDecryptedNewWrap_evolves s epoch now)
  | markConfirmed now => exact hrotating keepsLive_confirmMove (by simp [confirmMove]) (markConfirmed_evolves s now)
  | confirmRotation now => exact hrotating keepsLive_confirmMove (by simp [confirmMove]) (confirmRotation_evolves s now)
  | onConfirm epoch now =>
    exact .of_evolves (keepsLive_onConfirmMove epoch) (fun _ _ _ hmove => by simp [hmove.2.2.1]) (onConfirm_evolves s epoch now)
  | markCommitted now => exact markCommitted_follows ho now
  | onCommit epoch now => exact onCommit_follows ho epoch now
  | noteAcceptedEvent => exact hrotating keepsLive_noMove (by simp [noMove]) (noteAcceptedEvent_evolves s)
  | onDataEventEpoch epoch now => exact .of_keys (onDataEventEpoch_rest s epoch now).1
  | sweep now =>
    exact sweep_rel (R := fun s s' => Follows s.toKeys s'.toKeys) (fun _ => .refl _) (fun _ _ _ h h' => h.trans h')
      (fun s => sweepCompact_follows s now) (fun s => sweepTimeout_follows s now)
      (fun s row => sweepRetire_follows s row now) s
  | sweepCompact now => exact sweepCompact_follows s now
  | sweepTimeout now => exact sweepTimeout_follows s now
  | sweepRetire epoch now =>
    simp only [Side.call]
    split
    · exact sweepRetire_follows s _ now
    · exact .refl _
  | resolveQuarantine index choice now => exact resolveQuarantine_follows ho index choice now
  | store event => exact .refl _

theorem run_follows {calls : List RotationCall} (ho : Orderly s.toKeys) (hrun : rotationCalls.run s calls = some s') :
    Orderly s'.toKeys ∧ Follows s.toKeys s'.toKeys := by
  induction calls generalizing s with
  | nil =>
    obtain rfl := Option.some.inj hrun
    exact ⟨ho, .refl _⟩
  | cons call calls ih =>
    obtain ⟨ho', hrest⟩ := ih (s := s.call call) (ho.call call) hrun
    exact ⟨ho', (call_follows ho call).trans hrest⟩

end calls

/-! ## A second run -/

section hooks

variable {s : Side} {e now : Nat}

theorem onConfirm_of_handled (ho : Orderly s.toKeys)
    (h : e ≤ s.key_epoch ∨ ∃ r, s.rotation e .acking = some r ∧ r.phase = .confirmed) : (onConfirm s e now).1 = s := by
  unfold onConfirm
  cases hrow : s.rotation e .acking with
  | none => rfl
  | some r =>
    dsimp only
    split_ifs with hconfirmed hphase
    · rfl
    · rfl
    · have hacknowledged : r.phase = .acknowledged := not_not.mp hphase
      have hlive : r.live = true := Rotation.live_iff.mpr (by simp [hacknowledged])
      obtain hle | ⟨r', hr', hphase'⟩ := h
      · have hahead := (ho.top e _ r hrow hlive).1
        omega
      · rw [Option.some.inj (hrow.symm.trans hr')] at hconfirmed
        exact absurd hphase' hconfirmed

/-- A rotation of the past gets nothing from a commit. -/
theorem onCommit_of_handled (ho : Orderly s.toKeys) (h : e ≤ s.key_epoch) : (onCommit s e now).1 = s := by
  obtain hsame | ⟨r₀, r₁, hcommits, -⟩ := onCommit_cases s e now
  · exact hsame
  · have hlive : r₀.live = true := Rotation.live_iff.mpr (by simp [hcommits.confirmed])
    have hahead := (ho.top _ _ _ hcommits.row hlive).1
    omega

theorem unmoved_consumePendingWrapSeen (s : Side) (epoch : Nat) : Unmoved s (consumePendingWrapSeen s epoch) := by
  unfold consumePendingWrapSeen
  split_ifs
  · refine .of_rows rfl rfl rfl rfl (fun e role => ?_)
    show ((s.updateRotation epoch .rotating _ _).rotation e role).map stageOf = _
    rw [rotation_updateRotation]
    split_ifs with hkey
    · obtain ⟨rfl, rfl⟩ := Prod.mk.inj hkey
      cases s.rotation e .rotating with
      | none => rfl
      | some r =>
        show some (stageOf (if r.live then { r with new_wrap_seen := true } else r)) = some (stageOf r)
        split_ifs
        · rfl
        · rfl
    · rfl
  · exact .refl s

theorem onAck_of_spent {ack : Ack} (h : ¬ Takes s ack now) : Unmoved s (onAck s ack now).1 := by
  unfold onAck
  cases hrow : s.rotation ack.epoch .rotating with
  | none => exact .refl s
  | some r =>
    dsimp only
    split_ifs with hid hacked hphase hlate
    · exact .refl s
    · exact unmoved_consumePendingWrapSeen s ack.epoch
    · exact .refl s
    · exact .refl s
    · exact absurd ⟨r, hrow, by simpa using hid, not_not.mp hphase, not_lt.mp hlate⟩ h

theorem acking_of_known (ho : Orderly s.toKeys) {prepare : Prepare} {p : Nat} (hprior : s.priorEpoch prepare = some p)
    (hrow : (s.peerRow (p + 1)).isSome = true) : ∃ r, s.rotation (p + 1) .acking = some r ∧ r.phase ≠ .discarded := by
  cases hr : s.rotation (p + 1) .acking with
  | some r => exact ⟨r, rfl, ho.acking _ r hr⟩
  | none =>
    obtain ⟨hne, hnone⟩ := ho.repaired p hrow hr
    obtain ⟨⟨p', key⟩, hmem, rfl⟩ := List.mem_map.mp (mem_of_priorEpoch hprior)
    cases of_mem_peerKeyEpochs hmem with
    | inl heq => exact absurd heq hne
    | inr hsome => exact absurd hsome (by simp [hnone])

/-- With the acking row there, a redelivered prepare moves nothing. -/
theorem unmoved_recordAckingRotation {r : Rotation} (hr : s.rotation e .acking = some r) (hphase : r.phase ≠ .discarded)
    (prior_epoch : Nat) (prepare : Prepare) (id : EventId) :
    Unmoved s (recordAckingRotation s e prior_epoch prepare id now) := by
  obtain ⟨hepoch, hpeer, -, hkeys, -, -⟩ := recordAckingRotation_rest s e prior_epoch prepare id now
  refine .of_rows hkeys hepoch hpeer ?_ (fun e' role => ?_)
  · have hkept : ((s.key_rotations.delete (fun r => r.key = (e, Role.acking) ∧ r.phase = .discarded)).find
        (e, .acking)).isSome = true := by
      rw [Table.find_delete]
      have hfind : s.key_rotations.find (e, Role.acking) = some r := hr
      rw [hfind]
      simp [Option.filter, hphase]
    unfold recordAckingRotation
    rw [if_pos hkept]
  · rw [rotation_recordAckingRotation]
    split_ifs with hkey
    · obtain ⟨rfl, rfl⟩ := Prod.mk.inj hkey
      rw [hr]
      simp [Option.filter, hphase]
    · rfl

theorem onPrepare_of_handled (ho : Orderly s.toKeys) {prepare : Prepare} {p : Nat} (id : EventId)
    (hprior : s.priorEpoch prepare = some p)
    (hhandled : p + 1 ≤ s.key_epoch ∨ ∃ r, s.rotation (p + 1) .acking = some r ∧ r.live = true)
    (hkey : ∀ row, s.peerRow (p + 1) = some row → row.public_key = prepare.new_agreement_key) :
    Unmoved s (onPrepare s prepare id now).1 ∧ ∀ ack, (onPrepare s prepare id now).2 = .ok ack → ack = ⟨p + 1, id⟩ := by
  cases hrow : s.peerRow (p + 1) with
  | some row =>
    obtain ⟨r, hr, hphase⟩ := acking_of_known ho hprior (by rw [hrow]; rfl)
    rw [onPrepare_of_peerRow hprior hrow, if_neg (not_not.mpr (hkey row hrow))]
    exact ⟨unmoved_recordAckingRotation hr hphase p prepare id, fun ack hack => (Except.ok.inj hack).symm⟩
  | none =>
    have hle : p + 1 ≤ s.key_epoch := by
      obtain hle | ⟨r, hr, hlive⟩ := hhandled
      · exact hle
      · exact absurd (ho.peerKeys _ r hr hlive).1 (by simp [hrow])
    have hnewest : p ≠ (s.peerKeyEpochs.map (·.1)).foldr max 0 := by
      obtain ⟨key, hpeer⟩ := Option.isSome_iff_exists.mp ho.peer
      have hmem : s.key_epoch ∈ s.peerKeyEpochs.map (·.1) := by
        unfold Keys.peerKeyEpochs
        rw [hpeer]
        exact List.mem_cons_self
      have hmax := le_foldr_max hmem
      omega
    rw [onPrepare_of_no_peerRow hprior hrow]
    unfold acceptPrepare
    rw [if_pos hnewest]
    exact ⟨.refl s, fun ack hack => by cases hack⟩

theorem onPrepare_of_refused {prepare : Prepare} {p : Nat} (id : EventId) (hprior : s.priorEpoch prepare = some p)
    (hrow : s.peerRow (p + 1) = none) (h : ¬ Adoptable s prepare p now) :
    Unmoved s (onPrepare s prepare id now).1 ∧ ∀ ack, (onPrepare s prepare id now).2 ≠ .ok ack := by
  unfold Adoptable at h
  rw [onPrepare_of_no_peerRow hprior hrow]
  unfold acceptPrepare
  dsimp only
  split_ifs with hnewest hown hlive hstale hflight hlate
  · exact ⟨.refl s, by simp⟩
  · exact absurd ⟨not_not.mp hnewest, by rw [if_pos hown]; exact hlive⟩ h
  · exact ⟨.refl s, by simp⟩
  · exact ⟨.refl s, by simp⟩
  · exact ⟨.refl s, by simp⟩
  · exact ⟨.refl s, by simp⟩
  · refine absurd ⟨not_not.mp hnewest, ?_⟩ h
    rw [if_neg hown]
    exact ⟨not_le.mp hstale, Option.not_isSome_iff_eq_none.mp hflight, not_lt.mp hlate⟩

end hooks

/-! ## The first run -/

section first

variable {s : Side} {e now : Nat}

theorem confirmed_of_onConfirm (h : (onConfirm s e now).2 = .ok ()) :
    ∃ r, (onConfirm s e now).1.rotation e .acking = some r ∧ r.phase = .confirmed := by
  unfold onConfirm at h ⊢
  cases hrow : s.rotation e .acking with
  | none =>
    rw [hrow] at h
    cases h
  | some r =>
    rw [hrow] at h
    dsimp only at h ⊢
    split_ifs at h ⊢ with hconfirmed hphase
    · exact ⟨r, hrow, hconfirmed⟩
    · exact ⟨{ r with phase := .confirmed, confirmed_at := some now },
        (rotation_update_some (fun r => { r with phase := .confirmed, confirmed_at := some now }) (fun _ => by rfl)
          hrow e .acking).trans (if_pos rfl), rfl⟩

theorem le_of_onCommit (ho : Orderly s.toKeys) (h : (onCommit s e now).2 = .ok ()) :
    e ≤ (onCommit s e now).1.key_epoch := by
  unfold onCommit at h ⊢
  cases hrow : s.rotation e .rotating with
  | none =>
    rw [hrow] at h
    dsimp only at h ⊢
    split_ifs at h ⊢ with hcurrent
    exact hcurrent.ge
  | some r =>
    rw [hrow] at h
    dsimp only at h ⊢
    split_ifs at h ⊢ with hcommitted hphase
    · exact ho.committed e _ r hrow hcommitted
    · exact le_rfl

theorem handled_of_onPrepare (ho : Orderly s.toKeys) {prepare : Prepare} {id : EventId} {ack : Ack}
    (h : (onPrepare s prepare id now).2 = .ok ack) :
    ∃ p, s.priorEpoch prepare = some p ∧ ack = ⟨p + 1, id⟩ ∧
      (p + 1 ≤ (onPrepare s prepare id now).1.key_epoch ∨
        ∃ r, (onPrepare s prepare id now).1.rotation (p + 1) .acking = some r ∧ r.live = true) ∧
      ∀ row, (onPrepare s prepare id now).1.peerRow (p + 1) = some row → row.public_key = prepare.new_agreement_key := by
  have ho' : Orderly (onPrepare s prepare id now).1.toKeys := ho.call (.onPrepare prepare id now)
  obtain ⟨-, raised, herror⟩ | ⟨p, hok, hack⟩ := onPrepare_cases s prepare id now
  · rw [herror] at h
    cases h
  · obtain ⟨key, hfound⟩ := hack.prior
    have hprior : s.priorEpoch prepare = some p := Option.map_eq_some_iff.mpr ⟨(p, key), hfound, rfl⟩
    refine ⟨p, hprior, (Except.ok.inj (hok.symm.trans h)).symm, ?_, fun row hrow => ?_⟩
    · have hrow : ∃ r, (onPrepare s prepare id now).1.rotation (p + 1) .acking = some r := by
        rw [hack.rotation, if_pos rfl]
        exact ⟨_, rfl⟩
      obtain ⟨r, hr⟩ := hrow
      by_cases hcommitted : r.phase = .committed
      · exact Or.inl (ho'.committed _ _ r hr hcommitted)
      · exact Or.inr ⟨r, hr, Rotation.live_iff.mpr ⟨hcommitted, ho'.acking _ r hr⟩⟩
    · obtain ⟨⟨existing, hexisting, hkey⟩, hkeys⟩ | ⟨-, -, -, hfind⟩ := hack.peer_key
      · rw [peerRow_congr hkeys, hexisting] at hrow
        rw [← Option.some.inj hrow]
        exact hkey
      · obtain ⟨hrow, -⟩ := peerRow_eq_some.mp hrow
        rw [hfind, if_pos rfl] at hrow
        rw [← Option.some.inj hrow]

end first

/-! ## Runs -/

theorem ok_of_map {α β : Type} {x : Except Raised α} {f : α → β} {b : β} (h : x.map f = .ok b) :
    ∃ a, x = .ok a ∧ f a = b := by
  cases x with
  | error raised => cases h
  | ok a => exact ⟨a, rfl, Except.ok.inj h⟩

/-- Rotation hooks may run again.

In every run of calls on one side, when the hook of a rotation event has returned
normally and runs again for the same event at any later time, and the event is spent by
then, the second run leaves the key rows, the rotations, the current epoch, the peer key
and the quarantine as they are, and any ack that it returns is the one of the first. -/
theorem hooks_repeat {s s' : Side} {ev : StoredEvent} {first : HookResult} {now now' : Nat}
    {calls : List RotationCall} (hs : rotationCalls.Reachable s) (hrotation : ev.body.isRotation = true)
    (hfirst : (postReceiveHooks s ev now).2 = .ok first)
    (hrun : rotationCalls.run (postReceiveHooks s ev now).1 calls = some s') (hspent : Spent s s' ev now') :
    Repeated first s' ev now' := by
  have ho := orderly_of_reachable hs
  obtain ⟨event_id, sender, created_at, key_epoch, body⟩ := ev
  cases body with
  | data content => cases hrotation
  | prepare prepare =>
    obtain ⟨ack, hack, rfl⟩ := ok_of_map hfirst
    obtain ⟨p₀, hfound, rfl, hhandled, hkey⟩ := handled_of_onPrepare ho hack
    obtain ⟨ho', hfollows⟩ := run_follows (ho.call (.onPrepare prepare event_id now)) hrun
    have hreply : ∀ ack', (onPrepare s' prepare event_id now').2.map HookResult.reply = .ok (.reply ack') →
        (onPrepare s' prepare event_id now').2 = .ok ack' := by
      intro ack' hmap
      obtain ⟨ack'', hok, heq⟩ := ok_of_map hmap
      rw [hok, HookResult.reply.inj heq]
    cases hprior : s'.priorEpoch prepare with
    | none =>
      have hunknown : onPrepare s' prepare event_id now' = (s', .error (.rotation .unknown_prior_fingerprint)) := by
        unfold onPrepare
        rw [Option.map_eq_none_iff.mp hprior]
      refine ⟨.of_eq (by show (onPrepare s' prepare event_id now').1 = s'; rw [hunknown]), fun ack' hmap => ?_⟩
      have hok := hreply ack' hmap
      rw [hunknown] at hok
      cases hok
    | some p =>
      obtain hsame | ⟨hnone, hrefused⟩ := hspent p hprior
      · obtain rfl : p₀ = p := Option.some.inj (hfound.symm.trans hsame)
        have hhandled' : p₀ + 1 ≤ s'.key_epoch ∨ ∃ r, s'.rotation (p₀ + 1) .acking = some r ∧ r.live = true := by
          obtain hle | ⟨r, hr, hlive⟩ := hhandled
          · exact Or.inl (hle.trans hfollows.key_epoch)
          · exact (hfollows.acking _ r hr hlive).imp_right (fun ⟨r', hr', hlive', _⟩ => ⟨r', hr', hlive'⟩)
        obtain ⟨hunmoved, hacks⟩ := @onPrepare_of_handled s' now' ho' prepare p₀ event_id hprior hhandled'
          (fun row hrow => hkey row (hfollows.peer _ row hhandled hrow))
        exact ⟨hunmoved, fun ack' hmap => by rw [hacks ack' (hreply ack' hmap)]⟩
      · obtain ⟨hunmoved, hnot⟩ := @onPrepare_of_refused s' now' prepare p event_id hprior hnone hrefused
        exact ⟨hunmoved, fun ack' hmap => absurd (hreply ack' hmap) (hnot ack')⟩
  | ack ack =>
    refine ⟨onAck_of_spent hspent, fun ack' hmap => ?_⟩
    obtain ⟨-, -, heq⟩ := ok_of_map hmap
    cases heq
  | confirm epoch =>
    obtain ⟨_, hok, _⟩ := ok_of_map hfirst
    obtain ⟨r, hr, hconfirmed⟩ := confirmed_of_onConfirm hok
    obtain ⟨ho', hfollows⟩ := run_follows (ho.call (.onConfirm epoch now)) hrun
    have hhandled := hfollows.acking epoch r hr (Rotation.live_iff.mpr (by simp [hconfirmed]))
    refine ⟨.of_eq (onConfirm_of_handled ho' ?_), fun ack' hmap => ?_⟩
    · exact hhandled.imp_right (fun ⟨r', hr', _, hkept⟩ => ⟨r', hr', hkept hconfirmed⟩)
    · obtain ⟨-, -, heq⟩ := ok_of_map hmap
      cases heq
  | commit epoch =>
    obtain ⟨_, hok, _⟩ := ok_of_map hfirst
    have hle := le_of_onCommit ho hok
    obtain ⟨ho', hfollows⟩ := run_follows (ho.call (.onCommit epoch now)) hrun
    refine ⟨.of_eq (onCommit_of_handled ho' (hle.trans hfollows.key_epoch)), fun ack' hmap => ?_⟩
    obtain ⟨-, -, heq⟩ := ok_of_map hmap
    cases heq

/-! ## Two runs -/

/-- A side after a rotation of its own was acknowledged. -/
def candidateRun : List RotationCall := [.beginRotation 0 ⟨5⟩ none]

/-- The stored ack of the rotation to epoch 2. -/
def ackEvent : StoredEvent := ⟨8, 1, 0, 1, .ack ⟨2, 7⟩⟩

/-- The rotation goes on: the confirm is sent and the commit handled. -/
theorem hooks_repeat_committed :
    ∃ s s', rotationCalls.run (freshSide ⟨1⟩ ⟨2⟩) candidateRun = some s ∧
      (postReceiveHooks s ackEvent 0).2 = .ok .done ∧
      rotationCalls.run (postReceiveHooks s ackEvent 0).1
        [.noteDecryptedNewWrap 2 0, .markConfirmed 0, .onCommit 2 0] = some s' ∧
      Repeated .done s' ackEvent 1 := by
  have hrun : ∃ s, rotationCalls.run (freshSide ⟨1⟩ ⟨2⟩) candidateRun = some s := ⟨_, rfl⟩
  obtain ⟨s, hs⟩ := hrun
  have hfirst : ∀ t ∈ rotationCalls.run (freshSide ⟨1⟩ ⟨2⟩) candidateRun,
      (postReceiveHooks t ackEvent 0).2 = .ok .done ∧
        ∀ s' ∈ rotationCalls.run (postReceiveHooks t ackEvent 0).1 [.noteDecryptedNewWrap 2 0, .markConfirmed 0, .onCommit 2 0],
          (s'.rotation 2 .rotating).all (fun r => r.phase ≠ .candidate) = true := by decide +kernel
  obtain ⟨hok, hrest⟩ := hfirst s hs
  have hlater : ∃ s', rotationCalls.run (postReceiveHooks s ackEvent 0).1
      [.noteDecryptedNewWrap 2 0, .markConfirmed 0, .onCommit 2 0] = some s' := ⟨_, rfl⟩
  obtain ⟨s', hs'⟩ := hlater
  refine ⟨s, s', hs, hok, hs', hooks_repeat (Machine.reachable_of_run (freshSide_fresh ⟨1⟩ ⟨2⟩) hs) rfl hok hs' ?_⟩
  rintro ⟨r, hr, -, hphase, -⟩
  have hall := hrest s' hs'
  have hr : s'.rotation 2 .rotating = some r := hr
  rw [hr] at hall
  exact absurd hphase (by simpa using hall)

/-- The operator takes a prepare of the peer that has expired: the candidate is
discarded, the prepare is refused, and a rotation to the same epoch begins. -/
def restartedRun : List RotationCall :=
  [.onPrepare ⟨PrivateKey.publicKey ⟨6⟩, agreementFingerprint (PrivateKey.publicKey ⟨2⟩), 10⟩ 9 0,
    .resolveQuarantine 0 .theirs 11, .beginRotation 12 ⟨7⟩ none]

/-- The ack of the first rotation acknowledges the second. -/
theorem ack_repeated_on_restart :
    ¬ ∀ s, rotationCalls.Reachable s → ∀ ev first now, ev.body.isRotation = true →
      (postReceiveHooks s ev now).2 = .ok first →
        ∀ calls s', rotationCalls.run (postReceiveHooks s ev now).1 calls = some s' →
          ∀ now', Repeated first s' ev now' := by
  intro hall
  have hrun : ∃ s, rotationCalls.run (freshSide ⟨1⟩ ⟨2⟩) candidateRun = some s := ⟨_, rfl⟩
  obtain ⟨s, hs⟩ := hrun
  have hmoved : ∀ t ∈ rotationCalls.run (freshSide ⟨1⟩ ⟨2⟩) candidateRun,
      (postReceiveHooks t ackEvent 0).2 = .ok .done ∧
        ∀ s' ∈ rotationCalls.run (postReceiveHooks t ackEvent 0).1 restartedRun,
          (s'.rotation 2 .rotating).map (·.phase) = some .candidate ∧
            ((postReceiveHooks s' ackEvent 13).1.rotation 2 .rotating).map (·.phase) = some .acknowledged := by
    decide +kernel
  obtain ⟨hok, hrest⟩ := hmoved s hs
  have hlater : ∃ s', rotationCalls.run (postReceiveHooks s ackEvent 0).1 restartedRun = some s' := ⟨_, rfl⟩
  obtain ⟨s', hs'⟩ := hlater
  obtain ⟨hbefore, hafter⟩ := hrest s' hs'
  have hrepeated := hall s (Machine.reachable_of_run (freshSide_fresh ⟨1⟩ ⟨2⟩) hs) ackEvent .done 0 rfl hok
    restartedRun s' hs' 13
  have hrows := congrArg (Option.map Prod.fst) (hrepeated.unmoved.rows 2 .rotating)
  rw [Option.map_map, Option.map_map] at hrows
  exact absurd (hafter.symm.trans (hrows.trans hbefore)) (by simp)

end MuseAgentSocial.Cli
