import MuseAgentSocial.Cli.Ceremony
import MuseAgentSocial.Cli.KeyLoss
import MuseAgentSocial.Cli.StepEffects

/-!
# The commit of a rotation is not lost

One honest rotation: the rotating side has executed `begin_rotation` on a
settled store, and from then on both parties take any steps.  Processes die
between transactions, messages are late, reordered and repeated.

When the acking side has executed `mark_committed` it wraps only to the new
key, so the commit it sent must reach the state machine of the rotating side.
`CommitKept` says that it has been applied, is in flight, or is stored for the
next reconciliation, and that it is not marked processed unless it has been
applied.

* The rotating side sends the confirm and advances its phase in two
  transactions.  A commit that is handled between the two is rejected by
  `on_commit`, the rejection counts as final and the commit is marked.
* `commit_kept` proves `CommitKept` in every state of every run that does not
  handle the commit in that gap, whose commits arrive within the acceptance
  window and the bound on the sequence, and in which `mark_committed` follows
  the commit of this rotation.
-/

namespace MuseAgentSocial.Cli

open Model Crypto Policy RotationManager Keys

variable {C : Ceremony}

/-! ## The property -/

/-- The commit has been applied at the rotating side: the epoch is active and
the row is committed, or retired after that. -/
def Applied (C : Ceremony) (S : System) : Prop :=
  (S.node C.rotating).side.key_epoch = C.next ∧
    ∀ r, (S.node C.rotating).side.rotation C.next .rotating = some r → r.phase = .committed

/-- A commit of this rotation on the relay that the rotating side has neither
stored nor consumed. -/
def InFlightCommit (C : Ceremony) (S : System) (env : Envelope Body) : Prop :=
  env ∈ S.net ∧ env.sender = C.acking.identity ∧ env.payload = .commit C.next ∧
    (S.node C.rotating).side.events.find env.event_id = none ∧
    env.event_id ∉ (S.node C.rotating).rejected

/-- The event is a commit of this rotation that the rotating side received. -/
def IsCommit (C : Ceremony) (ev : StoredEvent) : Prop :=
  C.firstEvent ≤ ev.event_id ∧ ev.sender ≠ C.rotating.identity ∧ ev.body = .commit C.next

/-- The commit is not lost at the rotating side. -/
structure CommitKept (C : Ceremony) (S : System) : Prop where
  marked : ∀ i ev, (S.node C.rotating).side.events.find i = some ev → IsCommit C ev →
    i ∈ (S.node C.rotating).side.rotation_processed_events → Applied C S
  kept : Committed C (S.node C.acking).side.toKeys →
    Applied C S ∨ (∃ env, InFlightCommit C S env) ∨
      ∃ ev ∈ unprocessedRotationEvents (S.node C.rotating).side C.rotating.identity, IsCommit C ev

/-! ## The runs -/

/-- A store of a party with nothing left to do: every rotation event of the
peer is processed, and every rotation message on the relay was handled. -/
structure SettledLog (C : Ceremony) (me : Party) (net : List (Envelope Body)) (x : Node) :
    Prop where
  tasks : x.tasks = []
  events : ∀ i ev, x.side.events.find i = some ev → i < C.firstEvent ∧
    (ev.sender ≠ me.identity → ev.body.isRotation = true → i ∈ x.side.rotation_processed_events)
  processed : ∀ i, i ∈ x.side.rotation_processed_events → i < C.firstEvent
  rejected : ∀ i, i ∈ x.rejected → i < C.firstEvent
  relay : ∀ env ∈ net, env.sender = me.other.identity → env.payload.isRotation = true →
    (x.side.events.find env.event_id).isSome = true ∨ env.event_id ∈ x.rejected

/-- Two parties between rotations. -/
structure Settled (C : Ceremony) (S : System) : Prop where
  nextKey : S.nextKey = C.fresh
  nextEvent : S.nextEvent = C.firstEvent
  net : ∀ env ∈ S.net, env.event_id < C.firstEvent
  log : ∀ p, SettledLog C p S.net (S.node p)
  rotating : SettledRotating C (S.node C.rotating).side.toKeys
  acking : SettledAcking C (S.node C.acking).side.toKeys

/-- The rotation begins: `begin_rotation` succeeds in a settled state. -/
def Begins (C : Ceremony) (T : System) : Prop :=
  ∃ S now eff, Settled C S ∧
    Node.act (S.world C.rotating now) (S.node C.rotating) .beginRotation = some eff ∧
    eff.newKey = true ∧ T = S.apply C.rotating eff

/-- The run is about one rotation: no other one begins, and `mas rotate --ack`
does not answer a prepare of the past. -/
def OneRotation (C : Ceremony) (_S : System) (a : Act) : Prop :=
  match a.kind with
  | .beginRotation => False
  | .rotateAck id => C.firstEvent ≤ id
  | _ => True

instance (S : System) : ∀ a, Decidable (OneRotation C S a)
  | ⟨_, _, .beginRotation⟩ => isFalse id
  | ⟨_, _, .rotateAck id⟩ => inferInstanceAs (Decidable (C.firstEvent ≤ id))
  | ⟨_, _, .exec _⟩ | ⟨_, _, .drop _⟩ | ⟨_, _, .sendData⟩ | ⟨_, _, .rotateConfirm⟩ | ⟨_, _, .rotateCommit⟩
  | ⟨_, _, .deliver _ _⟩ | ⟨_, _, .redrive _⟩ | ⟨_, _, .sweepCompact⟩ | ⟨_, _, .sweepTimeout⟩
  | ⟨_, _, .sweepRetire _⟩ => isTrue trivial

/-- The epoch whose commit was sent before this `mark_committed`. -/
def Task.commitSent : Task → Option Nat
  | .markCommitted epoch => some epoch
  | _ => none

/-- The commit is not handled between the confirm and `mark_confirmed`, it
arrives within the acceptance window and the bound on the sequence, and
`mark_committed` follows the commit of the rotation that it marks. -/
def Orderly (C : Ceremony) (S : System) (a : Act) : Prop :=
  match a.kind with
  | .redrive id => a.party = C.rotating →
      ∀ ev ∈ (S.node C.rotating).side.events.find id, ev.body = .commit C.next →
        ∀ r ∈ (S.node C.rotating).side.rotation C.next .rotating, r.phase ≠ .acknowledged
  | .exec i => a.party = C.acking → ∀ task ∈ (S.node C.acking).tasks[i]?,
      ∀ e ∈ task.commitSent, ∀ r ∈ (S.node C.acking).side.inFlightAs .acking,
        r.phase = .confirmed → r.epoch = e
  | .deliver i jump => a.party = C.rotating → ∀ env ∈ S.net[i]?, env.payload = .commit C.next →
      env.created_at ≤ a.now + FUTURE_TOLERANCE_SECONDS ∧
        a.now ≤ env.created_at + ACCEPT_WINDOW_DAYS * 24 * 3600 ∧ jump ≤ MAX_SEQ_GAP
  | _ => True

instance (S : System) : ∀ a, Decidable (Orderly C S a)
  | ⟨_, _, .redrive _⟩ => inferInstanceAs (Decidable (_ → ∀ _ ∈ Table.find _ _, _ → ∀ _ ∈ Keys.rotation _ _ _, _))
  | ⟨_, _, .exec _⟩ =>
    inferInstanceAs (Decidable (_ → ∀ task ∈ _, ∀ _ ∈ Task.commitSent task, ∀ _ ∈ Keys.inFlightAs _ _, _ → _))
  | ⟨_, _, .deliver _ _⟩ => inferInstanceAs (Decidable (_ → ∀ _ ∈ _, _ → _ ∧ _ ∧ _))
  | ⟨_, _, .beginRotation⟩ | ⟨_, _, .drop _⟩ | ⟨_, _, .sendData⟩ | ⟨_, _, .rotateConfirm⟩ | ⟨_, _, .rotateCommit⟩
  | ⟨_, _, .rotateAck _⟩ | ⟨_, _, .sweepCompact⟩ | ⟨_, _, .sweepTimeout⟩ | ⟨_, _, .sweepRetire _⟩ => isTrue trivial

/-! ## The log during the rotation -/

/-- What the log of a party holds of the rotation. -/
structure Log (C : Ceremony) (me : Party) (net : List (Envelope Body)) (x : Node) : Prop where
  past : ∀ i ev, x.side.events.find i = some ev → i < C.firstEvent → ev.sender ≠ me.identity →
    ev.body.isRotation = true → i ∈ x.side.rotation_processed_events
  relayed : ∀ i ev, x.side.events.find i = some ev → C.firstEvent ≤ i →
    ∃ env ∈ net, env.event_id = i ∧ env.sender = ev.sender ∧ env.payload = ev.body
  handled : ∀ env ∈ net, env.event_id < C.firstEvent → env.sender = me.other.identity →
    env.payload.isRotation = true →
    (x.side.events.find env.event_id).isSome = true ∨ env.event_id ∈ x.rejected
  hooks : ∀ ev, Task.dataHooks ev ∈ x.tasks → ev.body.isRotation = false
  /-- What is marked, or about to be, is stored. -/
  marked : ∀ i, i ∈ x.side.rotation_processed_events ∨ Task.markProcessed i ∈ x.tasks ∨
      (∃ ack mark, Task.sendAck ack mark ∈ x.tasks ∧ ack.prepare_event_id = i) →
    i < C.firstEvent ∨ (x.side.events.find i).isSome = true

theorem SettledLog.log {me : Party} {net : List (Envelope Body)} {x : Node}
    (h : SettledLog C me net x) : Log C me net x where
  past := fun i ev hev _ => (h.events i ev hev).2
  relayed := fun i ev hev hle => absurd hle (not_le.mpr (h.events i ev hev).1)
  handled := fun env henv _ hsender hrot => h.relay env henv hsender hrot
  hooks := by simp [h.tasks]
  marked := by
    intro i hi
    simp only [h.tasks, List.not_mem_nil, false_and, exists_false, or_false] at hi
    exact Or.inl (h.processed i hi)

variable {id : EventId} {ev : StoredEvent} {s : Side} {prepare : Prepare} {env : Envelope Body}

theorem rotationEvent_eq_some {w : World} {x : Node} :
    Node.rotationEvent w x id = some ev ↔ x.side.events.find id = some ev ∧
      ev.body.isRotation = true ∧ ev.sender ≠ w.me.identity := by
  simp [Node.rotationEvent, Option.filter_eq_some_iff]

section log

variable {me : Party} {net : List (Envelope Body)} {x : Node}

/-- New envelopes belong to the rotation. -/
theorem Log.append (h : Log C me net x) {sent : List (Envelope Body)}
    (hsent : ∀ env ∈ sent, C.firstEvent ≤ env.event_id) : Log C me (net ++ sent) x where
  past := h.past
  relayed := by
    intro i ev hev hle
    obtain ⟨env, henv, hrest⟩ := h.relayed i ev hev hle
    exact ⟨env, List.mem_append_left _ henv, hrest⟩
  handled := by
    intro env henv hlt
    rcases List.mem_append.mp henv with henv | henv
    · exact h.handled env henv hlt
    · exact absurd (hsent env henv) (not_le.mpr hlt)
  hooks := h.hooks
  marked := h.marked

/-- A rotation event that is answered or re-driven came over the relay. -/
theorem Log.of_unprocessed {w : World} (h : Log C w.me net x)
    (hev : Node.rotationEvent w x id = some ev)
    (hnew : C.firstEvent ≤ id ∨ id ∉ x.side.rotation_processed_events) :
    C.firstEvent ≤ id ∧ ∃ env ∈ net, env.event_id = id ∧ env.sender = ev.sender ∧
      env.payload = ev.body := by
  obtain ⟨hfind, hrot, hsender⟩ := rotationEvent_eq_some.mp hev
  have hle : C.firstEvent ≤ id := by
    by_contra hlt
    exact hnew.elim hlt (fun hnot => hnot (h.past id ev hfind (not_le.mp hlt) hsender hrot))
  exact ⟨hle, h.relayed id ev hfind hle⟩

theorem Log.step {w : World} {kind : Kind} {eff : Effect} (h : Log C w.me w.net x)
    (hstep : LogStep w x kind eff) (hfirst : C.firstEvent ≤ w.nextEvent) :
    Log C w.me (w.net ++ eff.sent) eff.node := by
  have hsent : ∀ env ∈ eff.sent, C.firstEvent ≤ env.event_id := by
    intro env henv
    rw [(hstep.sent env henv).1]
    exact hfirst
  have hkept : ∀ i, (x.side.events.find i).isSome = true →
      (eff.node.side.events.find i).isSome = true := by
    intro i hi
    obtain ⟨ev, hev⟩ := Option.isSome_iff_exists.mp hi
    exact Option.isSome_of_eq_some (hstep.events_kept i ev hev)
  refine ⟨?_, ?_, ?_, ?_, ?_⟩
  · intro i ev hev hlt hsender hrot
    rcases hstep.events i ev hev with hold | ⟨env, henv, hid, -⟩ |
      ⟨env, henv, hid, -, hbody, hpeer, hnone, hfresh⟩
    · exact hstep.processed_kept i (h.past i ev hold hlt hsender hrot)
    · exact absurd (hid ▸ hsent env henv) (not_le.mpr hlt)
    · -- A rotation message of the past was handled before.
      rcases h.handled env henv (hid ▸ hlt) hpeer (hbody ▸ hrot) with hsome | hrej
      · rw [hid, hnone] at hsome
        cases hsome
      · exact absurd (hid ▸ hrej) hfresh
  · intro i ev hev hle
    rcases hstep.events i ev hev with hold | ⟨env, henv, hrest⟩ |
      ⟨env, henv, hid, hsender, hbody, -⟩
    · obtain ⟨env, henv, hrest⟩ := h.relayed i ev hold hle
      exact ⟨env, List.mem_append_left _ henv, hrest⟩
    · exact ⟨env, List.mem_append_right _ henv, hrest⟩
    · exact ⟨env, List.mem_append_left _ henv, hid, hsender, hbody⟩
  · intro env henv hlt hsender hrot
    rcases List.mem_append.mp henv with henv | henv
    · exact (h.handled env henv hlt hsender hrot).imp (hkept _) (hstep.rejected_kept _)
    · exact absurd (hsent env henv) (not_le.mpr hlt)
  · intro ev hev
    rcases hstep.tasks _ hev with hold | ⟨hnew, -⟩
    · exact h.hooks ev hold
    · exact hnew
  · intro i hi
    have hstored : ∀ ev, Node.rotationEvent w x i = some ev →
        i < C.firstEvent ∨ (eff.node.side.events.find i).isSome = true := by
      intro ev hev
      exact Or.inr (hkept i (Option.isSome_of_eq_some (rotationEvent_eq_some.mp hev).1))
    have hold : i ∈ x.side.rotation_processed_events ∨ Task.markProcessed i ∈ x.tasks ∨
        (∃ ack mark, Task.sendAck ack mark ∈ x.tasks ∧ ack.prepare_event_id = i) →
        i < C.firstEvent ∨ (eff.node.side.events.find i).isSome = true :=
      fun hi => (h.marked i hi).imp id (hkept i)
    rcases hi with hi | hi | ⟨ack, mark, hi, rfl⟩
    · exact hold ((hstep.processed i hi).imp id Or.inl)
    · rcases hstep.tasks _ hi with hi | ⟨-, -, ev, hev⟩ | hack
      · exact hold (Or.inr (Or.inl hi))
      · exact hstored ev hev
      · exact hold (Or.inr (Or.inr hack))
    · rcases hstep.tasks _ hi with hi | ⟨ev, prepare, hev, -⟩
      · exact hold (Or.inr (Or.inr ⟨ack, mark, hi, rfl⟩))
      · exact hstored ev hev

end log

/-! ## The keys during the rotation -/

/-- The content of a prepare of the rotation. -/
def Ceremony.Prepares (C : Ceremony) (prepare : Prepare) : Prop :=
  prepare.new_agreement_key = C.new.publicKey ∧
    prepare.prior_fingerprint = agreementFingerprint C.old.publicKey

section keys

variable {w : World} {x : Node} {kind : Kind} {s' : Side}

theorem postReceiveHooks_rotating (hk : RotatingKeys C s.toKeys)
    (hbody : ∀ prepare, ev.body ≠ .prepare prepare) (now : Nat) :
    RotatingStep C s.toKeys (postReceiveHooks s ev now).1.toKeys := by
  obtain ⟨id, sender, created_at, key_epoch, body⟩ := ev
  cases body with
  | prepare prepare => exact absurd rfl (hbody prepare)
  | ack ack => exact hk.evolves (forward_ackMove _) (onAck_evolves s ack now)
  | confirm epoch => exact hk.evolves (forward_onConfirmMove _) (onConfirm_evolves s epoch now)
  | commit epoch => exact hk.onCommit epoch now
  | data content =>
    have hseen := hk.evolves forward_noMove (noteDecryptedNewWrap_evolves s key_epoch now)
    exact hseen.trans (hseen.keys.evolves forward_noMove (noteAcceptedEvent_evolves _))

theorem SideStep.rotating (h : SideStep w x kind s') (hkind : kind ≠ .beginRotation) (hk : RotatingKeys C x.side.toKeys)
    (hhooks : ∀ ev, Task.dataHooks ev ∈ x.tasks → ev.body.isRotation = false)
    (hprepare : ∀ id ev prepare, (kind = .rotateAck id ∨ id ∉ x.side.rotation_processed_events) →
      Node.rotationEvent w x id = some ev → ev.body ≠ .prepare prepare) :
    RotatingStep C x.side.toKeys s'.toKeys := by
  cases h with
  | begun => exact absurd rfl hkind
  | logged hs => exact .of_eq hk (by rw [hs])
  | received => exact .of_eq hk (receiveObject_cases x.side _ _ _ _ w.now).1
  | markConfirmed => exact hk.evolves forward_confirmMove (markConfirmed_evolves x.side w.now)
  | markCommitted _ => exact .of_eq hk (congrArg Side.toKeys (hk.markCommitted w.now))
  | dataHooks hmem =>
    refine postReceiveHooks_rotating hk ?_ w.now
    intro prepare hbody
    have hdata := hhooks _ hmem
    rw [hbody] at hdata
    cases hdata
  | prepare hev hbody => exact absurd hbody (hprepare _ _ _ (Or.inl rfl) hev)
  | hooks hdone hev =>
    exact postReceiveHooks_rotating hk (fun prepare => hprepare _ _ prepare (Or.inr hdone) hev) w.now
  | sweepCompact => exact hk.sweepCompact w.now
  | sweepTimeout => exact hk.sweepTimeout w.now
  | sweepRetire hrow hdone => exact hk.sweepRetire hrow hdone w.now

theorem onPrepare_acking (hk : AckingKeys C s.toKeys) (hprepare : C.Prepares prepare)
    (id : EventId) (now : Nat) :
    AckingStep C s.toKeys (onPrepare s prepare id now).1.toKeys := by
  rcases onPrepare_cases s prepare id now with ⟨hsame, -⟩ | ⟨prior, -, hack⟩
  · exact .of_eq hk hsame
  · exact hk.acknowledged hack hprepare.1 hprepare.2

theorem postReceiveHooks_acking (hk : AckingKeys C s.toKeys)
    (hbody : ∀ prepare, ev.body = .prepare prepare → C.Prepares prepare) (now : Nat) :
    AckingStep C s.toKeys (postReceiveHooks s ev now).1.toKeys ∨
      ev.body = .confirm C.next ∧ AckingKeys C (postReceiveHooks s ev now).1.toKeys ∧
        (Committed C (postReceiveHooks s ev now).1.toKeys → Committed C s.toKeys) := by
  obtain ⟨id, sender, created_at, key_epoch, body⟩ := ev
  cases body with
  | prepare prepare => exact Or.inl (onPrepare_acking hk (hbody prepare rfl) id now)
  | ack ack =>
    exact Or.inl (hk.evolves_step (forward_ackMove _) (by simp [ackMove]) (onAck_evolves s ack now))
  | confirm epoch =>
    have hevolves := onConfirm_evolves s epoch now
    by_cases hepoch : epoch = C.next
    · subst hepoch
      exact Or.inr ⟨rfl, hk.evolves (forward_onConfirmMove _) hevolves,
        (AckingKeys.evolves_phase (forward_onConfirmMove _) hevolves).2⟩
    · obtain ⟨hconf, hcomm⟩ := AckingKeys.evolves_phase (C := C) (forward_onConfirmMove _) hevolves
      refine Or.inl ⟨hk.evolves (forward_onConfirmMove _) hevolves, ?_, hcomm⟩
      exact fun hc => (hconf hc).resolve_right (fun ⟨p, hp⟩ => hepoch hp.1.symm)
  | commit epoch => exact Or.inl (.of_eq hk (congrArg Side.toKeys (hk.onCommit epoch now)))
  | data content =>
    have hseen := hk.evolves_step forward_noMove (by simp [noMove])
      (noteDecryptedNewWrap_evolves s key_epoch now)
    have hcount := hseen.keys.evolves_step forward_noMove (by simp [noMove])
      (noteAcceptedEvent_evolves _)
    exact Or.inl ⟨hcount.keys, fun hc => hseen.confirmed (hcount.confirmed hc),
      fun hc => hseen.committed (hcount.committed hc)⟩

/-- What a step does to the keys of the acking side: it keeps the phase, or
it hears the confirm, or it marks the commit of a confirmed rotation. -/
theorem SideStep.acking (h : SideStep w x kind s') (hkind : kind ≠ .beginRotation) (hk : AckingKeys C x.side.toKeys)
    (hhooks : ∀ ev, Task.dataHooks ev ∈ x.tasks → ev.body.isRotation = false)
    (hprepare : ∀ id ev prepare, (kind = .rotateAck id ∨ id ∉ x.side.rotation_processed_events) →
      Node.rotationEvent w x id = some ev → ev.body = .prepare prepare → C.Prepares prepare) :
    AckingStep C x.side.toKeys s'.toKeys ∨
    (AckingKeys C s'.toKeys ∧ (Committed C s'.toKeys → Committed C x.side.toKeys) ∧
      ∃ id ev, id ∉ x.side.rotation_processed_events ∧ Node.rotationEvent w x id = some ev ∧
        ev.body = .confirm C.next) ∨
    (AckingKeys C s'.toKeys ∧ Confirmed C x.side.toKeys ∧ ∃ i epoch r, kind = .exec i ∧
      x.tasks[i]? = some (.markCommitted epoch) ∧ x.side.inFlightAs .acking = some r ∧
        r.phase = .confirmed ∧ r.epoch = C.next) := by
  cases h with
  | begun => exact absurd rfl hkind
  | logged hs => exact Or.inl (.of_eq hk (by rw [hs]))
  | received => exact Or.inl (.of_eq hk (receiveObject_cases x.side _ _ _ _ w.now).1)
  | markConfirmed =>
    exact Or.inl (hk.evolves_step forward_confirmMove (by simp [confirmMove])
      (markConfirmed_evolves x.side w.now))
  | markCommitted htask =>
    rcases markCommitted_cases x.side w.now with hsame | ⟨r₀, r₁, hcommits, hpeer, hflight⟩
    · exact Or.inl (.of_eq hk (congrArg Side.toKeys hsame))
    · obtain ⟨hnext, hkeys, hconf⟩ := hk.commits hcommits hpeer
      exact Or.inr (Or.inr ⟨hkeys, hconf, _, _, r₀, rfl, htask, hflight, hcommits.confirmed, hnext⟩)
  | dataHooks hmem =>
    have hdata := hhooks _ hmem
    refine Or.inl ((postReceiveHooks_acking hk ?_ w.now).resolve_right ?_)
    · intro prepare hbody
      rw [hbody] at hdata
      cases hdata
    · rintro ⟨hbody, -⟩
      rw [hbody] at hdata
      cases hdata
  | prepare hev hbody =>
    exact Or.inl (onPrepare_acking hk (hprepare _ _ _ (Or.inl rfl) hev hbody) _ w.now)
  | hooks hdone hev =>
    rcases postReceiveHooks_acking hk
      (fun prepare => hprepare _ _ prepare (Or.inr hdone) hev) w.now with hstep | ⟨hbody, hkeys, hcomm⟩
    · exact Or.inl hstep
    · exact Or.inr (Or.inl ⟨hkeys, hcomm, _, _, hdone, hev, hbody⟩)
  | sweepCompact => exact Or.inl (hk.sweepCompact w.now)
  | sweepTimeout => exact Or.inl (.of_eq hk (congrArg Side.toKeys (hk.sweepTimeout w.now)))
  | sweepRetire hrow hdone => exact Or.inl (hk.sweepRetire _ w.now)

end keys

/-! ## The commit that both keys open -/

/-- A commit of the rotation that is sealed to the prior and to the new key. -/
structure Dual (C : Ceremony) (env : Envelope Body) : Prop where
  first : C.firstEvent ≤ env.event_id
  sender : env.sender = C.acking.identity
  signer : env.signer = env.sender
  payload : env.payload = .commit C.next
  recipients : env.recipients =
    [⟨C.rotating.identity, C.old.publicKey⟩, ⟨C.rotating.identity, C.new.publicKey⟩]
  key_epoch : env.key_epoch = C.next

theorem Dual.inWindow (h : Dual C env) (hk : RotatingKeys C s.toKeys)
    (hnew : s.privateKey C.next = some C.new) :
    ∃ e, InWindow s e ∧ Opens s C.rotating.identity env e := by
  have hopensNew : Opens s C.rotating.identity env C.next := by
    refine ⟨C.new, hnew, ?_⟩
    rw [Envelope.WrappedTo, h.recipients]
    simp
  have hcurrent : ∀ {e}, s.key_epoch = e → e ∈ s.ownEpochs → InWindow s e := by
    rintro e rfl hown
    refine ⟨hown, ?_⟩
    rw [if_pos hown]
    exact ⟨le_rfl, fun e' _ h => absurd h.1 (not_lt_of_gt h.2)⟩
  have hownNew := mem_ownEpochs_of_privateKey hnew
  rcases hk.phase with ⟨hepoch, -⟩ | ⟨hepoch, -⟩
  · by_cases hown : C.epoch ∈ s.ownEpochs
    · -- The prior key belongs to the current epoch.
      obtain ⟨row, hrow⟩ := Option.isSome_iff_exists.mp (mem_ownEpochs.mp hown)
      have hle : C.epoch ≤ C.own := (hk.owned _ row hrow).resolve_right C.epoch_ne_next
      have hsame : C.own = C.epoch := le_antisymm C.own_le hle
      refine ⟨C.epoch, hcurrent hepoch hown, C.old, hsame ▸ hk.old_key hepoch, ?_⟩
      rw [Envelope.WrappedTo, h.recipients]
      simp
    · -- The current epoch is the peer's, and the new key is the newest own one.
      refine ⟨C.next, ⟨hownNew, ?_⟩, hopensNew⟩
      rw [if_neg (by rw [hepoch]; exact hown)]
      have hzero : s.ownEpochs.countP (fun e => decide (C.next < e)) = 0 := by
        rw [List.countP_eq_zero]
        intro e he
        obtain ⟨row, hrow⟩ := Option.isSome_iff_exists.mp (mem_ownEpochs.mp he)
        have hnext : C.next = C.epoch + 1 := rfl
        have hown_le := C.own_le
        rcases hk.owned e row hrow with hle | heq <;> simp <;> omega
      rw [hzero]
      exact Nat.zero_le 1
  · exact ⟨C.next, hcurrent hepoch hownNew, hopensNew⟩

theorem Dual.accepted (h : Dual C env) (hk : RotatingKeys C s.toKeys) (hacked : Acked C s.toKeys)
    {jump now : Nat} (hpast : env.created_at ≤ now + FUTURE_TOLERANCE_SECONDS)
    (hfresh : now ≤ env.created_at + ACCEPT_WINDOW_DAYS * 24 * 3600) (hjump : jump ≤ MAX_SEQ_GAP) :
    (receiveObject s C.rotating.identity C.acking.identity env jump now).2 = .accepted := by
  have hnew : s.privateKey C.next = some C.new := by
    refine hk.new_key (hacked.imp id ?_)
    rintro ⟨r, hr, hphase⟩
    refine ⟨r, hr, ?_⟩
    rcases hphase with hphase | hphase <;> simp [Rotation.live, hphase]
  have hunseal := (tryUnseal_ok_iff h.signer).mpr (h.inWindow hk hnew)
  obtain ⟨row, hrow⟩ := Option.isSome_iff_exists.mp
    (mem_ownEpochs.mp (mem_ownEpochs_of_privateKey hnew))
  have hfind : s.key_epochs.find C.next = some row := (ownRow_eq_some.mp hrow).1
  have hgate := onDataEventEpoch_of_le (le_currentEpoch hfind) now
  unfold receiveObject
  rw [if_neg (not_not.mpr h.sender)]
  by_cases hstored : (s.events.find env.event_id).isSome = true
  · rw [if_pos hstored]
  · rw [if_neg hstored, hunseal, h.key_epoch, hgate]
    dsimp only
    rw [if_neg (not_lt.mpr hpast), if_neg (not_lt.mpr hfresh), if_neg (not_lt.mpr hjump), if_neg (by simp [hfind])]
    have hnone : s.events.find env.event_id = none := Option.not_isSome_iff_eq_none.mp hstored
    obtain ⟨events, hevents⟩ := Table.insert_isSome (t := s.events)
      (r := ⟨env.event_id, env.sender, env.created_at, C.next, env.payload⟩) hnone
    rw [hevents]

theorem buildCommitPayload_ok {epoch : Nat} (h : buildCommitPayload s = .ok epoch) :
    (∃ r, s.inFlightAs .acking = some r ∧ r.phase = .confirmed ∧ r.epoch = epoch) ∨
      ∃ r, s.rotation epoch .acking = some r ∧ r.phase = .committed := by
  unfold buildCommitPayload at h
  split at h
  · rename_i r hr
    cases h
    obtain ⟨hflight, hconf⟩ := Option.filter_eq_some_iff.mp hr
    exact Or.inl ⟨r, hflight, by simpa using hconf, rfl⟩
  · split at h
    · rename_i epoch' rest hnewest
      cases h
      have hmem : epoch ∈ committedEpochs s .acking :=
        Newest.mem_newest.mp (hnewest ▸ List.mem_cons_self)
      obtain ⟨r, hr, rfl⟩ := List.mem_map.mp hmem
      obtain ⟨hrow, hcond⟩ := List.mem_filter.mp hr
      simp only [decide_eq_true_eq] at hcond
      exact Or.inr ⟨r, rotation_eq_some.mpr ⟨hrow, rfl, hcond.1⟩, hcond.2⟩
    · cases h

theorem buildConfirmPayload_ok {epoch : Nat} (h : buildConfirmPayload s = .ok epoch) :
    ∃ r, s.rotation epoch .rotating = some r ∧ r.live = true ∧
      (r.phase = .acknowledged ∨ r.phase = .confirmed) := by
  unfold buildConfirmPayload at h
  split at h
  · cases h
  · rename_i r hr
    obtain ⟨hrow, hlive⟩ := rotation_of_inFlightAs hr
    split_ifs at h with hphase
    · cases h
      refine ⟨r, hrow, hlive, ?_⟩
      by_cases hack : r.phase = .acknowledged
      · exact Or.inl hack
      · exact Or.inr (not_not.mp (fun hne => hphase ⟨hack, hne⟩))

/-! ## The invariant -/

/-- What holds of both parties and of the relay during the rotation. -/
structure Relay (C : Ceremony) (S : System) : Prop where
  log : ∀ p, Log C p S.net (S.node p)
  first : C.firstEvent ≤ S.nextEvent
  ids : ∀ env ∈ S.net, env.event_id < S.nextEvent
  rejected : ∀ p i, i ∈ (S.node p).rejected → i < S.nextEvent
  unique : ∀ env ∈ S.net, ∀ env' ∈ S.net, C.firstEvent ≤ env.event_id →
    env'.event_id = env.event_id → env' = env
  prepares : ∀ env ∈ S.net, C.firstEvent ≤ env.event_id → ∀ prepare, env.payload = .prepare prepare →
    env.sender = C.rotating.identity ∧ C.Prepares prepare
  sends : ∀ p prepare, Task.sendPrepare prepare ∈ (S.node p).tasks →
    p = C.rotating ∧ C.Prepares prepare

/-- What holds between the two parties during the rotation. -/
structure Running (C : Ceremony) (S : System) : Prop extends Relay C S where
  rotating : RotatingKeys C (S.node C.rotating).side.toKeys
  acking : AckingKeys C (S.node C.acking).side.toKeys
  replies : ∀ ack mark, Task.sendAck ack mark ∉ (S.node C.rotating).tasks
  /-- A confirm, its effect and a commit come after the acknowledgement. -/
  confirm : ∀ env ∈ S.net, C.firstEvent ≤ env.event_id → env.payload = .confirm C.next →
    Acked C (S.node C.rotating).side.toKeys
  confirmed : Confirmed C (S.node C.acking).side.toKeys → Acked C (S.node C.rotating).side.toKeys
  commit : ∀ env ∈ S.net, C.firstEvent ≤ env.event_id → env.sender ≠ C.rotating.identity →
    env.payload = .commit C.next → Acked C (S.node C.rotating).side.toKeys
  /-- Before `mark_committed` a commit was sent that the rotating side can open. -/
  dual : Committed C (S.node C.acking).side.toKeys ∨
      Task.markCommitted C.next ∈ (S.node C.acking).tasks →
    ∃ env ∈ S.net, Dual C env ∧ env.event_id ∉ (S.node C.rotating).rejected
  marked : ∀ i ev, (S.node C.rotating).side.events.find i = some ev → IsCommit C ev →
    i ∈ (S.node C.rotating).side.rotation_processed_events ∨
      Task.markProcessed i ∈ (S.node C.rotating).tasks →
    (S.node C.rotating).side.key_epoch = C.next

/-- The invariant has the property. -/
theorem Running.commitKept {S : System} (h : Running C S) : CommitKept C S := by
  have happlied : (S.node C.rotating).side.key_epoch = C.next → Applied C S := by
    intro he
    refine ⟨he, ?_⟩
    rcases h.rotating.phase with ⟨he', -⟩ | ⟨-, hdone⟩
    · exact absurd (he'.symm.trans he) C.epoch_ne_next
    · exact hdone
  refine ⟨fun i ev hev hcommit hdone => happlied (h.marked i ev hev hcommit (Or.inl hdone)), ?_⟩
  intro hcommitted
  obtain ⟨env, henv, hdual, hkept⟩ := h.dual (Or.inl hcommitted)
  cases hstored : (S.node C.rotating).side.events.find env.event_id with
  | none => exact Or.inr (Or.inl ⟨env, henv, hdual.sender, hdual.payload, hstored, hkept⟩)
  | some ev =>
    obtain ⟨env', henv', hid, hsender, hbody⟩ :=
      (h.log C.rotating).relayed _ ev hstored hdual.first
    obtain rfl := h.unique env henv env' henv' hdual.first hid
    have hevid : ev.event_id = env'.event_id := Table.key_of_find hstored
    have hcommit : IsCommit C ev := by
      refine ⟨hevid ▸ hdual.first, ?_, hbody.symm.trans hdual.payload⟩
      rw [← hsender, hdual.sender]
      exact fun heq => Party.other_ne C.rotating (Party.identity_inj.mp heq)
    by_cases hdone : env'.event_id ∈ (S.node C.rotating).side.rotation_processed_events
    · exact Or.inl (happlied (h.marked _ ev hstored hcommit (Or.inl hdone)))
    · refine Or.inr (Or.inr ⟨ev, List.mem_filter.mpr ⟨(Table.find_eq_some.mp hstored).1, ?_⟩, hcommit⟩)
      rw [decide_eq_true_iff]
      exact ⟨by rw [hcommit.2.2]; rfl, hcommit.2.1, by rw [hevid]; exact hdone⟩

/-! ## Steps -/

section steps

variable {S : System} {p : Party} {now : Nat} {kind : Kind} {eff : Effect}

theorem mem_net_apply :
    env ∈ (S.apply p eff).net ↔ env ∈ S.net ∨ env ∈ eff.sent := List.mem_append

theorem Relay.step (h : Relay C S) (hstep : LogStep (S.world p now) (S.node p) kind eff) :
    Relay C (S.apply p eff) := by
  have hsent : ∀ env ∈ eff.sent, env.event_id = S.nextEvent := fun env henv => (hstep.sent env henv).1
  have hlength : ∀ env ∈ eff.sent, eff.sent.length = 1 := fun env henv =>
    le_antisymm hstep.sent_one (List.length_pos_of_mem henv)
  refine ⟨?_, ?_, ?_, ?_, ?_, ?_, ?_⟩
  · intro q
    by_cases hq : q = p
    · subst hq
      rw [System.apply_node_self]
      exact (h.log q).step hstep h.first
    · rw [apply_node_of_ne hq]
      refine (h.log q).append (fun env henv => ?_)
      rw [hsent env henv]
      exact h.first
  · exact le_trans h.first (Nat.le_add_right _ _)
  · intro env henv
    show env.event_id < S.nextEvent + eff.sent.length
    rcases mem_net_apply.mp henv with henv | henv
    · exact Nat.lt_add_right _ (h.ids env henv)
    · rw [hsent env henv, hlength env henv]
      exact Nat.lt_succ_self _
  · intro q i hi
    show i < S.nextEvent + eff.sent.length
    by_cases hq : q = p
    · subst hq
      rw [System.apply_node_self] at hi
      rcases hstep.rejected i hi with hi | ⟨n, jump, env, code, -, hnet, rfl, -⟩
      · exact Nat.lt_add_right _ (h.rejected q i hi)
      · exact Nat.lt_add_right _ (h.ids env (List.mem_of_getElem? hnet))
    · rw [apply_node_of_ne hq] at hi
      exact Nat.lt_add_right _ (h.rejected q i hi)
  · intro env henv env' henv' hfirst hid
    rcases mem_net_apply.mp henv with henv | henv <;> rcases mem_net_apply.mp henv' with henv' | henv'
    · exact h.unique env henv env' henv' hfirst hid
    · have hlt := h.ids env henv
      rw [← hid, hsent env' henv'] at hlt
      exact absurd hlt (lt_irrefl _)
    · have hlt := h.ids env' henv'
      rw [hid, hsent env henv] at hlt
      exact absurd hlt (lt_irrefl _)
    · obtain ⟨only, honly⟩ := List.length_eq_one_iff.mp (hlength env henv)
      rw [honly, List.mem_singleton] at henv henv'
      rw [henv, henv']
  · intro env henv hfirst prepare hbody
    rcases mem_net_apply.mp henv with henv | henv
    · exact h.prepares env henv hfirst prepare hbody
    · obtain ⟨-, hsender, -, hfor, -⟩ := hstep.sent env henv
      rw [hbody] at hfor
      obtain ⟨rfl, hprepares⟩ := h.sends p prepare hfor
      exact ⟨hsender, hprepares⟩
  · intro q prepare htask
    by_cases hq : q = p
    · subst hq
      rw [System.apply_node_self] at htask
      exact (hstep.tasks _ htask).elim (h.sends q prepare) False.elim
    · rw [apply_node_of_ne hq] at htask
      exact h.sends q prepare htask

theorem Relay.no_prepare (h : Relay C S)
    (hev : Node.rotationEvent (S.world C.rotating now) (S.node C.rotating) id = some ev)
    (hnew : C.firstEvent ≤ id ∨ id ∉ (S.node C.rotating).side.rotation_processed_events) :
    ev.body ≠ .prepare prepare := by
  intro hbody
  have hlog : Log C (S.world C.rotating now).me S.net (S.node C.rotating) := h.log C.rotating
  obtain ⟨hfirst, env, henv, hid, hsender, hpayload⟩ := hlog.of_unprocessed hev hnew
  have hself := (h.prepares env henv (hid.symm ▸ hfirst) prepare (hpayload.trans hbody)).1
  exact (rotationEvent_eq_some.mp hev).2.2 (hsender.symm.trans hself)

theorem applied_of_redrive (hk : RotatingKeys C (S.node C.rotating).side.toKeys)
    (hacked : Acked C (S.node C.rotating).side.toKeys) {id : EventId} {ev : StoredEvent}
    (hev : Node.rotationEvent (S.world C.rotating now) (S.node C.rotating) id = some ev)
    (hbody : ev.body = .commit C.next)
    (hgap : ∀ r, (S.node C.rotating).side.rotation C.next .rotating = some r →
      r.phase ≠ .acknowledged)
    (h : Node.act (S.world C.rotating now) (S.node C.rotating) (.redrive id) = some eff) :
    eff.node.side.key_epoch = C.next := by
  simp only [Node.act, hev] at h
  split_ifs at h
  cases h
  obtain ⟨id', sender, created_at, key_epoch, body⟩ := ev
  cases hbody
  show (onCommit (S.node C.rotating).side C.next now).1.key_epoch = C.next
  rcases hacked with hepoch | ⟨r, hr, hphase⟩
  · exact (hk.onCommit C.next now).applied hepoch
  · have hconf : r.phase = .confirmed := hphase.resolve_left (hgap r hr)
    simp [onCommit, hr, hconf]

theorem Running.rotating_step (h : Running C S)
    (hact : Node.act (S.world C.rotating now) (S.node C.rotating) kind = some eff)
    (hone : OneRotation C S ⟨C.rotating, now, kind⟩) (hok : Orderly C S ⟨C.rotating, now, kind⟩) :
    Running C (S.apply C.rotating eff) := by
  have hkind : kind ≠ .beginRotation := by
    rintro rfl
    exact hone
  have hlog := LogStep.of_act hkind hact
  have hanswer : ∀ id, kind = .rotateAck id ∨
      id ∉ (S.node C.rotating).side.rotation_processed_events →
      C.firstEvent ≤ id ∨ id ∉ (S.node C.rotating).side.rotation_processed_events := by
    rintro id (rfl | hdone)
    · exact Or.inl hone
    · exact Or.inr hdone
  have hkeys := (SideStep.of_act hact).rotating hkind h.rotating (h.log C.rotating).hooks
    (fun id ev prepare hnew hev => h.no_prepare hev (hanswer id hnew))
  have hother : (S.apply C.rotating eff).node C.acking = S.node C.acking :=
    System.apply_node_other S C.rotating eff
  refine { toRelay := h.toRelay.step hlog, rotating := ?_, acking := ?_, replies := ?_, confirm := ?_,
           confirmed := ?_, commit := ?_, dual := ?_, marked := ?_ }
  all_goals simp only [System.apply_node_self, hother]
  · exact hkeys.keys
  · exact h.acking
  · intro ack mark htask
    rcases hlog.tasks _ htask with hold | ⟨ev, prepare, hev, hbody, hnew⟩
    · exact h.replies ack mark hold
    · exact h.no_prepare hev (hanswer _ hnew) hbody
  · intro env henv hfirst hbody
    rcases mem_net_apply.mp henv with henv | henv
    · exact hkeys.acked (h.confirm env henv hfirst hbody)
    · have hfor := (hlog.sent env henv).2.2.2.1
      rw [hbody] at hfor
      obtain ⟨r, hr, -, hphase⟩ := buildConfirmPayload_ok hfor
      exact hkeys.acked (Or.inr ⟨r, hr, hphase⟩)
  · exact fun hconf => hkeys.acked (h.confirmed hconf)
  · intro env henv hfirst hsender hbody
    rcases mem_net_apply.mp henv with henv | henv
    · exact hkeys.acked (h.commit env henv hfirst hsender hbody)
    · exact absurd (hlog.sent env henv).2.1 hsender
  · intro hcase
    obtain ⟨env, henv, hdual, hkept⟩ := h.dual hcase
    refine ⟨env, mem_net_apply.mpr (Or.inl henv), hdual, ?_⟩
    intro hrej
    rcases hlog.rejected _ hrej with hrej | ⟨n, jump, env', code, rfl, hnet, hid, hcode⟩
    · exact hkept hrej
    · -- The object that was consumed is this commit, which is accepted.
      obtain rfl := h.unique env henv env' (List.mem_of_getElem? hnet) hdual.first hid
      have hne : env'.sender ≠ C.rotating.identity := by
        rw [hdual.sender]
        exact fun heq => Party.other_ne C.rotating (Party.identity_inj.mp heq)
      have hacked := h.commit env' henv hdual.first hne hdual.payload
      obtain ⟨hpast, hfresh, hjump⟩ := hok rfl env' hnet hdual.payload
      have haccepted := hdual.accepted h.rotating hacked hpast hfresh hjump
      have hboth : ReceiveOutcome.rejected code = .accepted := hcode.symm.trans haccepted
      cases hboth
  · intro i ev hev hcommit hmark
    have hevid : ev.event_id = i := Table.key_of_find hev
    have hfirst : ¬ i < C.firstEvent := not_lt.mpr (hevid ▸ hcommit.1)
    have hcases : (i ∈ (S.node C.rotating).side.rotation_processed_events ∨
          Task.markProcessed i ∈ (S.node C.rotating).tasks) ∨
        (kind = .redrive i ∧ i ∉ (S.node C.rotating).side.rotation_processed_events ∧
          ∃ ev, Node.rotationEvent (S.world C.rotating now) (S.node C.rotating) i = some ev) := by
      rcases hmark with hmark | hmark
      · exact Or.inl (hlog.processed i hmark)
      · rcases hlog.tasks _ hmark with hmark | hmark | ⟨ack, mark, htask, -⟩
        · exact Or.inl (Or.inr hmark)
        · exact Or.inr hmark
        · exact absurd htask (h.replies ack mark)
    rcases hlog.events i ev hev with hold | ⟨env, henv, -, hsender, -⟩ | ⟨-, -, -, -, -, -, hnone, -⟩
    · rcases hcases with hmark | ⟨rfl, hdone, ev', hev'⟩
      · exact hkeys.applied (h.marked i ev hold hcommit hmark)
      · obtain rfl := Option.some.inj ((rotationEvent_eq_some.mp hev').1.symm.trans hold)
        have hlogC : Log C (S.world C.rotating now).me S.net (S.node C.rotating) := h.log C.rotating
        obtain ⟨hle, env, henv, hid, hsender, hbody⟩ := hlogC.of_unprocessed hev' (Or.inr hdone)
        have hacked := h.commit env henv (hid.symm ▸ hle) (hsender ▸ hcommit.2.1)
          (hbody.trans hcommit.2.2)
        exact applied_of_redrive h.rotating hacked hev' hcommit.2.2
          (hok rfl ev' hold hcommit.2.2) hact
    · exact absurd (hsender.symm.trans (hlog.sent env henv).2.1) hcommit.2.1
    · -- What was not stored before is not marked.
      have hstored : (((S.node C.rotating).side.events.find i).isSome = true) := by
        rcases hcases with hmark | ⟨-, -, ev', hev'⟩
        · exact ((h.log C.rotating).marked i (hmark.imp id Or.inl)).resolve_left hfirst
        · exact Option.isSome_of_eq_some (rotationEvent_eq_some.mp hev').1
      rw [hnone] at hstored
      cases hstored

theorem Relay.prepare_content (h : Relay C S)
    (hev : Node.rotationEvent (S.world C.acking now) (S.node C.acking) id = some ev)
    (hnew : C.firstEvent ≤ id ∨ id ∉ (S.node C.acking).side.rotation_processed_events)
    (hbody : ev.body = .prepare prepare) : C.Prepares prepare := by
  have hlog : Log C (S.world C.acking now).me S.net (S.node C.acking) := h.log C.acking
  obtain ⟨hfirst, env, henv, hid, -, hpayload⟩ := hlog.of_unprocessed hev hnew
  exact (h.prepares env henv (hid.symm ▸ hfirst) prepare (hpayload.trans hbody)).2

theorem confirmed_of_buildCommitPayload (hbuild : buildCommitPayload s = .ok C.next) :
    Confirmed C s.toKeys := by
  rcases buildCommitPayload_ok hbuild with ⟨r, hflight, hconf, hepoch⟩ | ⟨r, hr, hdone⟩
  · exact ⟨r, hepoch ▸ (rotation_of_inFlightAs hflight).1, Or.inl hconf⟩
  · exact ⟨r, hr, Or.inr hdone⟩

theorem Running.acking_step (h : Running C S)
    (hact : Node.act (S.world C.acking now) (S.node C.acking) kind = some eff)
    (hone : OneRotation C S ⟨C.acking, now, kind⟩) (hok : Orderly C S ⟨C.acking, now, kind⟩) :
    Running C (S.apply C.acking eff) := by
  have hkind : kind ≠ .beginRotation := by
    rintro rfl
    exact hone
  have hlog := LogStep.of_act hkind hact
  have hanswer : ∀ id, kind = .rotateAck id ∨
      id ∉ (S.node C.acking).side.rotation_processed_events →
      C.firstEvent ≤ id ∨ id ∉ (S.node C.acking).side.rotation_processed_events := by
    rintro id (rfl | hdone)
    · exact Or.inl hone
    · exact Or.inr hdone
  have hkeys := (SideStep.of_act hact).acking hkind h.acking (h.log C.acking).hooks
    (fun id ev prepare hnew hev hbody => h.prepare_content hev (hanswer id hnew) hbody)
  have hother : (S.apply C.acking eff).node C.rotating = S.node C.rotating := by
    have hrot : C.rotating = C.acking.other := (Party.other_other C.rotating).symm
    rw [hrot]
    exact System.apply_node_other S C.acking eff
  refine { toRelay := h.toRelay.step hlog, rotating := ?_, acking := ?_, replies := ?_, confirm := ?_,
           confirmed := ?_, commit := ?_, dual := ?_, marked := ?_ }
  all_goals simp only [System.apply_node_self, hother]
  · exact h.rotating
  · rcases hkeys with hstep | ⟨hkeys, -⟩ | ⟨hkeys, -⟩
    · exact hstep.keys
    · exact hkeys
    · exact hkeys
  · exact h.replies
  · intro env henv hfirst hbody
    rcases mem_net_apply.mp henv with henv | henv
    · exact h.confirm env henv hfirst hbody
    · -- The acking side rotates nothing, so it has nothing to confirm.
      have hfor := (hlog.sent env henv).2.2.2.1
      rw [hbody] at hfor
      obtain ⟨r, hr, hlive, -⟩ := buildConfirmPayload_ok hfor
      rw [h.acking.rotating _ r hr] at hlive
      cases hlive
  · intro hconf
    rcases hkeys with hstep | ⟨-, -, id, ev, hdone, hev, hbody⟩ | ⟨-, hbefore, -⟩
    · exact h.confirmed (hstep.confirmed hconf)
    · have hlogC : Log C (S.world C.acking now).me S.net (S.node C.acking) := h.log C.acking
      obtain ⟨hle, env, henv, hid, -, hpayload⟩ := hlogC.of_unprocessed hev (Or.inr hdone)
      exact h.confirm env henv (hid.symm ▸ hle) (hpayload.trans hbody)
    · exact h.confirmed hbefore
  · intro env henv hfirst hsender hbody
    rcases mem_net_apply.mp henv with henv | henv
    · exact h.commit env henv hfirst hsender hbody
    · have hfor := (hlog.sent env henv).2.2.2.1
      rw [hbody] at hfor
      exact h.confirmed (confirmed_of_buildCommitPayload hfor)
  · have hold : Committed C (S.node C.acking).side.toKeys ∨
        Task.markCommitted C.next ∈ (S.node C.acking).tasks →
        ∃ env ∈ (S.apply C.acking eff).net, Dual C env ∧
          env.event_id ∉ (S.node C.rotating).rejected := by
      intro hcase
      obtain ⟨env, henv, hdual, hkept⟩ := h.dual hcase
      exact ⟨env, mem_net_apply.mpr (Or.inl henv), hdual, hkept⟩
    rintro (hcomm | htask)
    · rcases hkeys with hstep | ⟨-, hbefore, -⟩ | ⟨-, -, i, epoch, r, rfl, htask, hflight, hconf, hnext⟩
      · exact hold (Or.inl (hstep.committed hcomm))
      · exact hold (Or.inl (hbefore hcomm))
      · -- `mark_committed` runs after the commit of the epoch that it marks.
        have hepoch : r.epoch = epoch := hok rfl _ htask epoch rfl r hflight hconf
        rw [← hepoch, hnext] at htask
        exact hold (Or.inr (List.mem_of_getElem? htask))
    · rcases hlog.tasks _ htask with htask | ⟨hbuild, env, henv, hbody⟩
      · exact hold (Or.inr htask)
      · rcases buildCommitPayload_ok hbuild with ⟨r, hflight, hconf, -⟩ | ⟨r, hr, hdone⟩
        · obtain ⟨hid, hsender, hsigner, -, hrec⟩ := hlog.sent env henv
          have hpeer : (S.world C.acking now).me.other = C.rotating := Party.other_other C.rotating
          have hdual := (h.acking.dual_seal hflight hconf C.rotating.identity).2
          rw [hpeer, hdual] at hrec
          obtain ⟨hrecipients, hepoch⟩ := Prod.mk.inj (Except.ok.inj hrec)
          refine ⟨env, mem_net_apply.mpr (Or.inr henv), ⟨?_, hsender, hsigner.trans hsender.symm, hbody,
            hrecipients.symm, hepoch.symm⟩, ?_⟩
          · rw [hid]
            exact h.first
          · intro hrej
            have hlt := h.rejected _ _ hrej
            rw [hid] at hlt
            exact absurd hlt (lt_irrefl _)
        · exact hold (Or.inl ⟨r, hr, hdone⟩)
  · exact h.marked

theorem Running.step (h : Running C S) {a : Act} {T : System} (hone : OneRotation C S a)
    (hok : Orderly C S a) (hstep : (System.machine (Begins C)).step S a = some T) :
    Running C T := by
  obtain ⟨eff, heff, rfl⟩ := System.step_eq_some.mp hstep
  obtain ⟨party, now, kind⟩ := a
  rcases Party.eq_or_other C.rotating party with rfl | rfl
  · exact h.rotating_step heff hone hok
  · exact h.acking_step heff hone hok

/-- The invariant holds when the rotation begins. -/
theorem Begins.running {T : System} (h : Begins C T) : Running C T := by
  obtain ⟨S, now, eff, hsettled, hact, hnew, rfl⟩ := h
  rcases act_begin hact with ⟨epoch, prepare, prior, hbegun, -, hsent, hrejected, htasks⟩ |
    ⟨-, hno, -⟩
  · have hkey : (⟨(S.world C.rotating now).nextKey⟩ : PrivateKey) = C.new := by
      show (⟨S.nextKey⟩ : PrivateKey) = ⟨C.fresh⟩
      rw [hsettled.nextKey]
    rw [hkey] at hbegun
    obtain ⟨hkeys, hcontent⟩ := RotatingKeys.begun hsettled.rotating hbegun
    obtain ⟨hacking, hnone⟩ := AckingKeys.settled hsettled.acking
    have hother : (S.apply C.rotating eff).node C.acking = S.node C.acking :=
      System.apply_node_other S C.rotating eff
    have hnet : (S.apply C.rotating eff).net = S.net := by simp [System.apply, hsent]
    have hnext : (S.apply C.rotating eff).nextEvent = C.firstEvent := by
      simp [System.apply, hsent, hsettled.nextEvent]
    have htasks' : eff.node.tasks = [.sendPrepare prepare] := by
      rw [htasks, (hsettled.log C.rotating).tasks]
      rfl
    have hself := (hsettled.log C.rotating).log
    have hlog : Log C C.rotating S.net eff.node := by
      refine ⟨?_, ?_, ?_, by simp [htasks'], ?_⟩
      · rw [hbegun.events, hbegun.processed]
        exact hself.past
      · rw [hbegun.events]
        exact hself.relayed
      · rw [hbegun.events, hrejected]
        exact hself.handled
      · intro i hi
        rw [hbegun.events]
        refine hself.marked i (Or.inl ?_)
        simpa [htasks', hbegun.processed] using hi
    have hold : ∀ env ∈ (S.apply C.rotating eff).net, ¬ C.firstEvent ≤ env.event_id := by
      intro env henv
      rw [hnet] at henv
      exact not_le.mpr (hsettled.net env henv)
    refine { log := ?_, first := hnext.ge, ids := ?_, rejected := ?_, unique := ?_, prepares := ?_,
             sends := ?_, rotating := ?_, acking := ?_, replies := ?_, confirm := ?_,
             confirmed := ?_, commit := ?_, dual := ?_, marked := ?_ }
    · intro p
      rw [hnet]
      rcases Party.eq_or_other C.rotating p with rfl | rfl
      · rw [System.apply_node_self]
        exact hlog
      · rw [System.apply_node_other]
        exact (hsettled.log _).log
    · intro env henv
      rw [hnext]
      exact not_le.mp (hold env henv)
    · intro p i hi
      rw [hnext]
      rcases Party.eq_or_other C.rotating p with rfl | rfl
      · rw [System.apply_node_self, hrejected] at hi
        exact (hsettled.log _).rejected i hi
      · rw [System.apply_node_other] at hi
        exact (hsettled.log _).rejected i hi
    · exact fun env henv _ _ hle => absurd hle (hold env henv)
    · exact fun env henv hle => absurd hle (hold env henv)
    · intro p prepare' htask
      rcases Party.eq_or_other C.rotating p with rfl | rfl
      · rw [System.apply_node_self, htasks', List.mem_singleton] at htask
        cases htask
        exact ⟨rfl, hcontent⟩
      · rw [System.apply_node_other, (hsettled.log _).tasks] at htask
        cases htask
    · rw [System.apply_node_self]
      exact hkeys
    · rw [hother]
      exact hacking
    · rw [System.apply_node_self, htasks']
      simp
    · exact fun env henv hle => absurd hle (hold env henv)
    · rw [hother]
      rintro ⟨r, hr, -⟩
      exact absurd hr (hnone r)
    · exact fun env henv hle => absurd hle (hold env henv)
    · rw [hother, (hsettled.log _).tasks]
      rintro (⟨r, hr, -⟩ | htask)
      · exact absurd hr (hnone r)
      · cases htask
    · intro i ev hev hcommit
      rw [System.apply_node_self, hbegun.events] at hev
      have hlt := ((hsettled.log C.rotating).events i ev hev).1
      have hevid : ev.event_id = i := Table.key_of_find hev
      exact absurd (hevid ▸ hcommit.1) (not_le.mpr hlt)
  · rw [hnew] at hno
    cases hno

/-- The commit of a rotation is not lost in the runs that keep the order. -/
theorem commit_kept {T : System} (h : (System.machine (Begins C)).Reach
    (fun S a => OneRotation C S a ∧ Orderly C S a) T) : CommitKept C T := by
  have hrunning : Running C T := by
    refine Machine.Reach.invariant (fun _ => Begins.running) ?_ h
    intro S a T hS hok hstep
    exact hS.step hok.1 hok.2 hstep
  exact hrunning.commitKept

end steps

/-! ## Two runs -/

/-- Alice's first rotation after pairing. -/
def firstRotation : Ceremony where
  rotating := .alice
  epoch := 1
  own := 1
  old := ⟨0⟩
  fresh := 2
  firstEvent := 0
  own_le := le_rfl
  old_lt := by decide

/-- The parties right after Alice's `begin_rotation`. -/
def begunStart : System :=
  ((System.machine Paired).step pairedStart ⟨.alice, 0, .beginRotation⟩).getD pairedStart

theorem pairedStart_settled : Settled firstRotation pairedStart where
  nextKey := rfl
  nextEvent := rfl
  net := by simp [pairedStart]
  log := by
    intro p
    refine ⟨rfl, ?_, ?_, ?_, ?_⟩ <;> simp [pairedStart, pairedSide]
  rotating := by
    have hown := ownRow_pairedSide ⟨0⟩ ⟨1⟩
    refine ⟨rfl, rfl, ?_, ?_, ?_, ?_, ?_, rfl⟩
    · intro e row hrow
      have hkey : row.epoch = e := Table.key_of_find hrow
      rw [find_pairedSide hrow] at hkey
      exact hkey.ge
    · intro e role r hr
      cases hr
    · intro e r hr
      cases hr
    · intro e row hrow
      rw [show (pairedStart.node firstRotation.rotating).side.ownRow e = _ from hown e] at hrow
      split_ifs at hrow with he
      cases hrow
      exact ⟨by rw [he], he.le⟩
    · exact ⟨_, hown 1, rfl⟩
  acking := by
    have hnone : ∀ e row, (pairedSide ⟨1⟩ ⟨0⟩).peerRow e ≠ some row := by
      intro e row hrow
      obtain ⟨hfind, hpeer⟩ := peerRow_eq_some.mp hrow
      rw [find_pairedSide hfind] at hpeer
      cases hpeer
    refine ⟨rfl, rfl, ?_, ?_, ?_, ?_⟩
    · intro e role r hr
      cases hr
    · intro e r hr
      cases hr
    · exact fun e row hrow => absurd hrow (hnone e row)
    · exact fun row hrow => absurd hrow (hnone _ row)

theorem begunStart_begins : Begins firstRotation begunStart := by
  have hact : ∃ eff, Node.act (pairedStart.world .alice 0) (pairedStart.node .alice)
      .beginRotation = some eff ∧ eff.newKey = true := ⟨_, rfl, rfl⟩
  obtain ⟨eff, hact, hnew⟩ := hact
  refine ⟨pairedStart, 0, eff, pairedStart_settled, hact, hnew, ?_⟩
  unfold begunStart
  rw [System.step_eq_some.mpr ⟨eff, hact, rfl⟩]
  rfl

/-- An undisturbed rotation: Bob has executed `mark_committed` and the commit
is kept for Alice. -/
theorem commit_kept_undisturbed :
    ∃ T, (System.machine (Begins firstRotation)).Reach
        (fun S a => OneRotation firstRotation S a ∧ Orderly firstRotation S a) T ∧
      Committed firstRotation (T.node .bob).side.toKeys ∧ CommitKept firstRotation T := by
  have hrun : ((System.machine (Begins firstRotation)).run begunStart committedRun.tail).map
      (fun T => ((T.node .bob).side.rotation 2 .acking).map (·.phase)) =
      some (some .committed) := by
    decide +kernel
  have hok : (System.machine (Begins firstRotation)).okRun
      (fun S a => OneRotation firstRotation S a ∧ Orderly firstRotation S a) begunStart
      committedRun.tail := by
    decide +kernel
  obtain ⟨T, hT, hview⟩ := Option.map_eq_some_iff.mp hrun
  have hreach := Machine.Reach.run (.start begunStart_begins) hok hT
  exact ⟨T, hreach, Option.map_eq_some_iff.mp hview, commit_kept hreach⟩

/-- Alice's process dies between the confirm and `mark_confirmed`.  Bob commits,
and the commit reaches Alice before she confirms again. -/
def confirmCrashRun : List Act :=
  confirmedRun.tail.dropLast ++ [⟨.alice, 0, .drop 0⟩, ⟨.bob, 0, .deliver 3⟩, ⟨.bob, 0, .redrive 3⟩,
    ⟨.bob, 0, .exec 0⟩, ⟨.bob, 0, .rotateCommit⟩, ⟨.bob, 0, .exec 0⟩, ⟨.alice, 0, .deliver 4⟩,
    ⟨.alice, 0, .redrive 4⟩, ⟨.alice, 0, .exec 0⟩]

/-- The commit is then marked processed while the rotation stays
`acknowledged`. -/
theorem commit_lost_after_crash :
    ¬ ∀ (C : Ceremony) (T : System),
      (System.machine (Begins C)).Reach (OneRotation C) T → CommitKept C T := by
  intro hall
  have hrun : ((System.machine (Begins firstRotation)).run begunStart confirmCrashRun).map
      (fun T => ((T.node .alice).side.events.find 4,
        decide (4 ∈ (T.node .alice).side.rotation_processed_events),
        ((T.node .alice).side.rotation 2 .rotating).map (·.phase))) =
      some (some ⟨4, 1, 0, 2, .commit 2⟩, true, some .acknowledged) := by
    decide +kernel
  have hok : (System.machine (Begins firstRotation)).okRun (OneRotation firstRotation) begunStart
      confirmCrashRun := by
    decide +kernel
  obtain ⟨T, hT, hview⟩ := Option.map_eq_some_iff.mp hrun
  obtain ⟨hev, hdone, hphase⟩ := Prod.mk.inj hview |>.imp id Prod.mk.inj
  have hkept := hall firstRotation T (Machine.Reach.run (.start begunStart_begins) hok hT)
  obtain ⟨r, hr, hacked⟩ := Option.map_eq_some_iff.mp hphase
  have happlied := hkept.marked 4 _ hev ⟨Nat.zero_le 4, by decide, rfl⟩ (of_decide_eq_true hdone)
  have hcommitted := happlied.2 r hr
  rw [hacked] at hcommitted
  cases hcommitted

end MuseAgentSocial.Cli
