import MuseAgentSocial.Crypto.RotationSpec
import MuseAgentSocial.Policy.Limits

/-!
# Sealing and opening events of a relationship

The functions of `cli.py` between the rotation state machine and the relay.

* `recipientsFor` and `sendEvent` seal an event to the peer's keys and store
  it.  The stored event is what the scheduler later uploads.
* `tryUnseal` opens an envelope with at most two of the own keys.
* `receiveObject` is the receive pipeline up to the commit of the event row,
  for an object of the peer.  How far the number of the event is past the
  last one stored is given to it.  The checks of the bytes and of the replay
  nonce, the fork check and the ingress quota are not here: an honest peer's
  object passes the first three, and one over the quota stays on the relay.
* `postReceiveHooks` is the part of the hooks that a committed event runs.
-/

namespace MuseAgentSocial.Cli

open Model Crypto Policy RotationManager

/-! ## Sending -/

/-- `_recipients_for`: the wraps and the epoch label of an outgoing event. -/
def recipientsFor (s : Side) (peer_identity_id : IdentityId) :
    Except Raised (List Wrap × Nat) :=
  match dualWrapKeys s with
  | .ok (prior, new) =>
    .ok ([⟨peer_identity_id, prior.2⟩, ⟨peer_identity_id, new.2⟩], max prior.1 new.1)
  | .error (.rotation .no_acknowledged_rotation) =>
    match s.peer_agreement_key with
    | none => .error .send_error
    | some key => .ok ([⟨peer_identity_id, key⟩], s.key_epoch)
  | .error raised => .error raised

/-- `_send_event`: gate, seal and persist an event under a fresh id. -/
def sendEvent (s : Side) (me peer : IdentityId) (event_id : EventId) (body : Body) (now : Nat) :
    Except Raised (Side × Envelope Body) :=
  match maySend s now with
  | .error _ => .error .send_error
  | .ok () =>
    match recipientsFor s peer with
    | .error raised => .error raised
    | .ok (recipients, key_epoch) =>
      -- The foreign key of the event row.
      if (s.key_epochs.find key_epoch).isNone then
        .error .send_error
      else
        match s.events.insert ⟨event_id, me, now, key_epoch, body⟩ with
        | none => .error .send_error
        | some events =>
          .ok ({ s with events := events },
            { event_id := event_id, sender := me, created_at := now, key_epoch := key_epoch,
              recipients := recipients, signer := me, payload := body })

/-! ## Opening -/

/-- The own epochs that `_try_unseal` tries, in order. -/
def unsealCandidates (s : Side) : List Nat :=
  let newest := Newest.newest s.ownEpochs
  if s.key_epoch ∈ s.ownEpochs then
    s.key_epoch :: (newest.filter (· < s.key_epoch)).take 1
  else
    newest.take 2

/-- The loop of `_try_unseal`, with the error of the last attempt. -/
def tryCandidates (s : Side) (env : Envelope Body) (me : IdentityId) :
    List Nat → SealingError → Except SealingError Body
  | [], last => .error last
  | epoch :: epochs, _ =>
    match s.privateKey epoch with
    | none => tryCandidates s env me epochs .unknown_recipient
    | some priv =>
      match unsealEnvelope env priv me with
      | .ok payload => .ok payload
      | .error code => tryCandidates s env me epochs code

/-- `_try_unseal`. -/
def tryUnseal (s : Side) (env : Envelope Body) (me : IdentityId) : Except SealingError Body :=
  tryCandidates s env me (unsealCandidates s) .unknown_recipient

/-! ## Receiving -/

/-- Why an object is consumed without being stored. -/
inductive RejectCode where
  | unknown_sender
  | unseal (code : SealingError)
  | epoch_rejected
  | clock_future
  | expired_window
  | seq_gap_too_large
  | integrity_conflict
  deriving DecidableEq, Repr

/-- The outcome of a receive. -/
inductive ReceiveOutcome where
  | accepted
  | retry_pending
  | rejected (code : RejectCode)
  deriving DecidableEq, Repr

/-- `_receive_object_inner`, up to the commit of the event row; `jump` is
`new_seq - last_seq`. -/
def receiveObject (s : Side) (me peer : IdentityId) (env : Envelope Body) (jump now : Nat) :
    Side × ReceiveOutcome :=
  if env.sender ≠ peer then
    (s, .rejected .unknown_sender)
  else if (s.events.find env.event_id).isSome then
    (s, .accepted)
  else
    match tryUnseal s env me with
    | .error code => (s, .rejected (.unseal code))
    | .ok payload =>
      match onDataEventEpoch s env.key_epoch now with
      | (s', .error (.rotation .unknown_future_epoch)) =>
        let seen := { s' with retry_sightings := s'.retry_sightings ++ [env.event_id] }
        if MAX_UNKNOWN_EPOCH_SIGHTINGS < seen.retry_sightings.count env.event_id then
          (seen, .rejected .epoch_rejected)
        else
          (seen, .retry_pending)
      | (s', .error _) => (s', .rejected .epoch_rejected)
      | (s', .ok ()) =>
        if now + FUTURE_TOLERANCE_SECONDS < env.created_at then
          (s', .rejected .clock_future)
        else if env.created_at + ACCEPT_WINDOW_DAYS * 24 * 3600 < now then
          (s', .rejected .expired_window)
        else if MAX_SEQ_GAP < jump then
          (s', .rejected .seq_gap_too_large)
        else if (s'.key_epochs.find env.key_epoch).isNone then
          -- The epoch is not ahead, but no row of it is left.
          (s', .rejected .integrity_conflict)
        else
          match s'.events.insert ⟨env.event_id, env.sender, env.created_at, env.key_epoch, payload⟩ with
          | none => (s', .rejected .integrity_conflict)
          | some events => ({ s' with events := events }, .accepted)

/-- What a hook leaves to do: nothing, or to send the ack of a prepare. -/
inductive HookResult where
  | done
  | reply (ack : Ack)
  deriving DecidableEq, Repr

/-- `_post_receive_hooks`, up to the ack of a prepare, which is a send of
its own. -/
def postReceiveHooks (s : Side) (ev : StoredEvent) (now : Nat) : Side × Except Raised HookResult :=
  match ev.body with
  | .prepare prepare =>
    let r := onPrepare s prepare ev.event_id now
    (r.1, r.2.map .reply)
  | .ack ack =>
    let r := onAck s ack now
    (r.1, r.2.map (fun _ => .done))
  | .confirm epoch =>
    let r := onConfirm s epoch now
    (r.1, r.2.map (fun _ => .done))
  | .commit epoch =>
    let r := onCommit s epoch now
    (r.1, r.2.map (fun _ => .done))
  | .data _ =>
    (noteAcceptedEvent (noteDecryptedNewWrap s ev.key_epoch now), .ok .done)

/-- `_ack_already_sent`. -/
def ackAlreadySent (s : Side) (me : IdentityId) (prepare_event_id : EventId) : Bool :=
  s.events.rows.any (fun e => e.sender = me ∧ e.body.acks prepare_event_id = true)

/-- `_mark_rotation_processed`. -/
def markRotationProcessed (s : Side) (event_id : EventId) : Side :=
  if event_id ∈ s.rotation_processed_events then s
  else { s with rotation_processed_events := s.rotation_processed_events ++ [event_id] }

/-- The rows that `_reconcile_rotation_events` selects, in the order in which
it re-drives them, at most 50 in one poll: the stored rotation events of the
peer without a marker. -/
def unprocessedRotationEvents (s : Side) (me : IdentityId) : List StoredEvent :=
  s.events.rows.filter (fun e => e.body.isRotation = true ∧ e.sender ≠ me ∧
    e.event_id ∉ s.rotation_processed_events)

/-! ## What a send and a receive do -/

variable {s : Side} {me : IdentityId} {env : Envelope Body}

/-- A successful send stores one event and seals it to the recipients of
the moment. -/
theorem sendEvent_ok {s' : Side} {peer : IdentityId} {id : EventId} {body : Body} {now : Nat}
    (h : sendEvent s me peer id body now = .ok (s', env)) :
    ∃ recipients key_epoch, recipientsFor s peer = .ok (recipients, key_epoch) ∧
      env = ⟨id, me, now, key_epoch, recipients, me, body⟩ ∧
      s' = { s with events := s'.events } ∧ s.events.find id = none ∧
      ∀ i, s'.events.find i =
        if i = id then some ⟨id, me, now, key_epoch, body⟩ else s.events.find i := by
  unfold sendEvent at h
  split at h
  · cases h
  split at h
  · cases h
  rename_i recipients key_epoch hrec
  split at h
  · cases h
  split at h
  · cases h
  · rename_i events hevents
    cases h
    exact ⟨recipients, key_epoch, hrec, rfl, rfl, (Table.insert_eq_some hevents).1,
      Table.find_of_insert hevents⟩

/-- The loop of `_try_unseal` returns nothing but the payload. -/
theorem payload_of_tryCandidates {epochs : List Nat} {last : SealingError} {payload : Body}
    (h : tryCandidates s env me epochs last = .ok payload) : payload = env.payload := by
  induction epochs generalizing last with
  | nil => cases h
  | cons e epochs ih =>
    rw [tryCandidates] at h
    split at h
    · exact ih h
    · split at h
      · rename_i hun
        cases h
        exact (unsealEnvelope_ok_iff.mp hun).2.2.symm
      · exact ih h

/-- A receive leaves the keys and the markers alone, and stores the event if
it stores anything. -/
theorem receiveObject_cases (s : Side) (me peer : IdentityId) (env : Envelope Body) (jump now : Nat) :
    (receiveObject s me peer env jump now).1.toKeys = s.toKeys ∧
    (receiveObject s me peer env jump now).1.rotation_processed_events = s.rotation_processed_events ∧
    ((receiveObject s me peer env jump now).1.events = s.events ∨
      ((receiveObject s me peer env jump now).2 = .accepted ∧ env.sender = peer ∧
        s.events.find env.event_id = none ∧
        ∀ i, (receiveObject s me peer env jump now).1.events.find i =
          if i = env.event_id then
            some ⟨env.event_id, env.sender, env.created_at, env.key_epoch, env.payload⟩
          else s.events.find i)) := by
  unfold receiveObject
  split
  · exact ⟨rfl, rfl, Or.inl rfl⟩
  rename_i hsender
  split
  · exact ⟨rfl, rfl, Or.inl rfl⟩
  rename_i hnew
  split
  · exact ⟨rfl, rfl, Or.inl rfl⟩
  rename_i payload hun
  obtain ⟨hkeys, hlog⟩ := onDataEventEpoch_rest s env.key_epoch now
  split
  · rename_i s' hgate
    rw [hgate] at hkeys hlog
    dsimp only
    split <;> exact ⟨hkeys, hlog.processed, Or.inl hlog.events⟩
  · rename_i s' raised _ hgate
    rw [hgate] at hkeys hlog
    exact ⟨hkeys, hlog.processed, Or.inl hlog.events⟩
  · rename_i s' hgate
    rw [hgate] at hkeys hlog
    split
    · exact ⟨hkeys, hlog.processed, Or.inl hlog.events⟩
    split
    · exact ⟨hkeys, hlog.processed, Or.inl hlog.events⟩
    split
    · exact ⟨hkeys, hlog.processed, Or.inl hlog.events⟩
    split
    · exact ⟨hkeys, hlog.processed, Or.inl hlog.events⟩
    split
    · exact ⟨hkeys, hlog.processed, Or.inl hlog.events⟩
    · rename_i events hevents
      refine ⟨hkeys, hlog.processed, Or.inr ⟨rfl, not_not.mp hsender, ?_, ?_⟩⟩
      · exact Option.not_isSome_iff_eq_none.mp hnew
      · have hpayload : payload = env.payload := payload_of_tryCandidates hun
        intro i
        have hfind := Table.find_of_insert hevents i
        rw [hpayload, show s'.events = s.events from hlog.events] at hfind
        exact hfind

/-! ## Lemmas on the unseal window -/

theorem ownEpochs_nodup (s : Side) : s.ownEpochs.Nodup :=
  s.key_epochs.nodup.sublist (List.filter_sublist.map _)

/-- `epoch` is one of the keys that `_try_unseal` tries: the current epoch
and the newest own epoch below it, or the two newest own epochs when the
current epoch is the peer's. -/
def InWindow (s : Side) (epoch : Nat) : Prop :=
  epoch ∈ s.ownEpochs ∧
    if s.key_epoch ∈ s.ownEpochs then
      epoch ≤ s.key_epoch ∧ ∀ e ∈ s.ownEpochs, ¬ (epoch < e ∧ e < s.key_epoch)
    else
      s.ownEpochs.countP (fun e => decide (epoch < e)) ≤ 1

instance (s : Side) (epoch : Nat) : Decidable (InWindow s epoch) := by
  unfold InWindow
  infer_instance

theorem mem_unsealCandidates {epoch : Nat} : epoch ∈ unsealCandidates s ↔ InWindow s epoch := by
  unfold unsealCandidates InWindow
  split_ifs with hown
  · rw [List.mem_cons, Newest.mem_newest_filter_head (ownEpochs_nodup s)]
    simp only [decide_eq_true_eq]
    constructor
    · rintro (rfl | ⟨hmem, hlt, hnewest⟩)
      · exact ⟨hown, le_rfl, fun e _ h => absurd h.1 (not_lt_of_gt h.2)⟩
      · exact ⟨hmem, hlt.le, fun e he h => absurd (hnewest e he h.2) (not_le_of_gt h.1)⟩
    · rintro ⟨hmem, hle, hnone⟩
      rcases hle.eq_or_lt with heq | hlt
      · exact Or.inl heq
      · exact Or.inr ⟨hmem, hlt, fun y hy hylt => not_lt.mp (fun h => hnone y hy ⟨h, hylt⟩)⟩
  · rw [Newest.mem_newest_take (ownEpochs_nodup s), Nat.lt_succ_iff]

/-- The loop finds a key exactly when one of its epochs has one that opens
the envelope. -/
theorem tryCandidates_ok_iff (hsigned : env.signer = env.sender) {epochs : List Nat}
    {last : SealingError} :
    tryCandidates s env me epochs last = .ok env.payload ↔
      ∃ e ∈ epochs, ∃ priv, s.privateKey e = some priv ∧ env.WrappedTo priv me := by
  induction epochs generalizing last with
  | nil => simp [tryCandidates]
  | cons e epochs ih =>
    rw [tryCandidates, List.exists_mem_cons_iff]
    cases hkey : s.privateKey e with
    | none => simp [ih]
    | some priv =>
      cases hun : unsealEnvelope env priv me with
      | ok payload =>
        obtain ⟨-, hwrap, rfl⟩ := unsealEnvelope_ok_iff.mp hun
        simp [hun, hwrap]
      | error code =>
        have hnot : ¬ env.WrappedTo priv me := fun hwrap => by
          rw [unsealEnvelope_ok_iff.mpr ⟨hsigned, hwrap, rfl⟩] at hun
          cases hun
        simp [hun, ih, hnot]

/-- The own key of an epoch opens the envelope. -/
def Opens (s : Side) (me : IdentityId) (env : Envelope Body) (epoch : Nat) : Prop :=
  ∃ priv, s.privateKey epoch = some priv ∧ env.WrappedTo priv me

theorem tryUnseal_ok_iff (hsigned : env.signer = env.sender) :
    tryUnseal s env me = .ok env.payload ↔ ∃ e, InWindow s e ∧ Opens s me env e := by
  simp only [tryUnseal, tryCandidates_ok_iff hsigned, mem_unsealCandidates, Opens]

theorem mem_ownEpochs_of_privateKey {epoch : Nat} {priv : PrivateKey}
    (h : s.privateKey epoch = some priv) : epoch ∈ s.ownEpochs := by
  unfold Keys.privateKey at h
  split at h
  · rename_i row _ _ _ hrow
    simp only [Keys.ownRow, Option.filter_eq_some_iff, Table.find_eq_some] at hrow
    obtain ⟨⟨hmem, hepoch⟩, hisOwn⟩ := hrow
    exact List.mem_map.mpr ⟨_, List.mem_filter.mpr ⟨hmem, hisOwn⟩, hepoch⟩
  · cases h

end MuseAgentSocial.Cli
