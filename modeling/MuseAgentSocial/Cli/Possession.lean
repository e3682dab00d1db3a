import MuseAgentSocial.Cli.CommitKept
import MuseAgentSocial.Crypto.Evidence

/-!
# Proof of possession

A confirm is to prove that the rotating side holds the new key: it has opened
at least one envelope with it.  `build_confirm_payload` reads this from
`new_wrap_seen`, and the hooks of a data event set that flag from the epoch on
the label of the envelope.  Which key opened the envelope is decided elsewhere,
by the order of `_try_unseal`, and the current epoch comes first there.

* `openingKey` is the key that `_try_unseal` opens an envelope with, and
  `openings` is what the trail of a run notes of it.
* `Vouches p key` is the condition on a run under which the flag of the
  rotation of `p` to `key` stands for an opening with `key`.
* `confirm_proves_possession` is the result over runs, and `confirmedRun` is a
  run in which a confirm goes out and the new key has opened nothing.
-/

namespace MuseAgentSocial.Cli

open Model Crypto Policy RotationManager Keys

/-! ## The key that opens an envelope -/

/-- The key with which `_try_unseal` opens an envelope. -/
def openingKey (s : Side) (env : Envelope Body) (me : IdentityId) : Option PrivateKey :=
  (unsealCandidates s).findSome? (fun epoch =>
    (s.privateKey epoch).filter (fun priv => (unsealEnvelope env priv me).isOk))

/-- An envelope that was opened, by whom and with which key. -/
structure Opening where
  reader : Party
  env : Envelope Body
  key : PrivateKey
  deriving DecidableEq, Repr

/-- What a step opens: a receive unseals an object that is not stored yet. -/
def openings (S : System) (a : Act) : List Opening :=
  let x := S.node a.party
  match a.kind with
  | .deliver i _ =>
    match S.net[i]? with
    | some env =>
      if (x.side.events.find env.event_id).isNone then
        ((openingKey x.side env a.party.identity).map (fun key => ⟨a.party, env, key⟩)).toList
      else []
    | none => []
  | _ => []

/-- `p` has opened an envelope with the private half of `key`. -/
def Opened (trail : List Opening) (p : Party) (key : AgreementKey) : Prop :=
  ∃ o ∈ trail, o.reader = p ∧ o.key.publicKey = key

instance (trail : List Opening) (p : Party) (key : AgreementKey) : Decidable (Opened trail p key) :=
  inferInstanceAs (Decidable (∃ o ∈ trail, _))

theorem Opened.append {trail : List Opening} {p : Party} {key : AgreementKey} (h : Opened trail p key)
    (more : List Opening) : Opened (trail ++ more) p key := by
  obtain ⟨o, ho, hreader, hkey⟩ := h
  exact ⟨o, List.mem_append_left more ho, hreader, hkey⟩

variable {priv : PrivateKey} {e : Nat} {ev : StoredEvent} {T : System × List Opening}

section opening

variable {s : Side} {env : Envelope Body} {me : IdentityId}

theorem unsealEnvelope_isOk_iff :
    (unsealEnvelope env priv me).isOk = true ↔ env.signer = env.sender ∧ env.WrappedTo priv me := by
  cases hun : unsealEnvelope env priv me with
  | ok payload =>
    obtain ⟨hsigned, hwrap, -⟩ := unsealEnvelope_ok_iff.mp hun
    exact ⟨fun _ => ⟨hsigned, hwrap⟩, fun _ => rfl⟩
  | error code =>
    constructor
    · intro h
      cases h
    · rintro ⟨hsigned, hwrap⟩
      rw [unsealEnvelope_ok_iff.mpr ⟨hsigned, hwrap, rfl⟩] at hun
      cases hun

theorem of_openingKey (h : openingKey s env me = some priv) :
    env.signer = env.sender ∧ ∃ e ∈ unsealCandidates s, s.privateKey e = some priv ∧ env.WrappedTo priv me := by
  obtain ⟨e, he, hkey⟩ := List.exists_of_findSome?_eq_some h
  obtain ⟨hpriv, hok⟩ := Option.filter_eq_some_iff.mp hkey
  obtain ⟨hsigned, hwrap⟩ := unsealEnvelope_isOk_iff.mp hok
  exact ⟨hsigned, e, he, hpriv, hwrap⟩

theorem tryUnseal_ok_iff_openingKey {payload : Body} :
    tryUnseal s env me = .ok payload ↔
      ∃ priv, openingKey s env me = some priv ∧ unsealEnvelope env priv me = .ok payload := by
  have hloop : ∀ (epochs : List Nat) (last : SealingError), tryCandidates s env me epochs last = .ok payload ↔
      ∃ priv, epochs.findSome? (fun epoch =>
        (s.privateKey epoch).filter (fun priv => (unsealEnvelope env priv me).isOk)) = some priv ∧
          unsealEnvelope env priv me = .ok payload := by
    intro epochs
    induction epochs with
    | nil => simp [tryCandidates]
    | cons e epochs ih =>
      intro last
      rw [tryCandidates, List.findSome?_cons]
      cases hkey : s.privateKey e with
      | none => simp [ih]
      | some priv =>
        cases hun : unsealEnvelope env priv me with
        | ok opened => simp [Option.filter, hun, Except.isOk, Except.toBool]
        | error code => simp [Option.filter, hun, Except.isOk, Except.toBool, ih]
  exact hloop _ _

end opening

/-- What the trail notes is an envelope of the relay and an own key that it is
wrapped to. -/
theorem of_mem_openings {S : System} {a : Act} {o : Opening} (h : o ∈ openings S a) :
    o.env ∈ S.net ∧ o.env.WrappedTo o.key o.reader.identity := by
  unfold openings at h
  dsimp only at h
  split at h
  · split at h
    · rename_i env henv
      split_ifs at h
      · rw [Option.mem_toList, Option.map_eq_some_iff] at h
        obtain ⟨key, hkey, rfl⟩ := h
        obtain ⟨-, e, -, -, hwrap⟩ := of_openingKey hkey
        exact ⟨List.mem_of_getElem? henv, hwrap⟩
      · cases h
    · cases h
  · cases h

/-! ## The condition on a run -/

/-- The key of the labelled epoch is the one that opens the envelope.  Either
the current epoch is not an own one, so that the newest own key is tried first,
and that key opens it, or no other own key does. -/
def CandidateOpens (s : Side) (me : IdentityId) (env : Envelope Body) : Prop :=
  (s.key_epoch ∉ s.ownEpochs ∧ Opens s me env env.key_epoch) ∨
    ∀ e ∈ s.ownEpochs, e ≠ env.key_epoch → ¬ Opens s me env e

/-- The epoch whose decrypt signal a task leads to. -/
def Task.signals : Task → Option Nat
  | .dataHooks ev => some ev.key_epoch
  | _ => none

/-- A decrypt signal for an epoch is parked, or hooks that give one have not
run yet. -/
def Signalled (x : Node) (epoch : Nat) : Prop :=
  Parked x.side epoch ∨ ∃ task ∈ x.tasks, task.signals = some epoch

instance (s : Side) (me : IdentityId) (env : Envelope Body) (epoch : Nat) : Decidable (Opens s me env epoch) :=
  match h : s.privateKey epoch with
  | none => isFalse (by simp [Opens, h])
  | some priv => decidable_of_iff (env.WrappedTo priv me) (by simp [Opens, h])

instance (s : Side) (me : IdentityId) (env : Envelope Body) : Decidable (CandidateOpens s me env) :=
  inferInstanceAs (Decidable (_ ∨ _))

instance (x : Node) (epoch : Nat) : Decidable (Signalled x epoch) := inferInstanceAs (Decidable (_ ∨ _))

/-- If `p` accepts the object now as a data event for its rotation to `key`, and
the flag of the rotation is not set, then the candidate key opens it. -/
def OpensForCandidate (s : Side) (p : Party) (key : AgreementKey) (env : Envelope Body) (jump now : Nat) : Prop :=
  env.payload.isRotation = false → s.events.find env.event_id = none →
    (receiveObject s p.identity p.other.identity env jump now).2 = .accepted →
      ∀ r ∈ s.rotation env.key_epoch .rotating, r.live = true → r.new_public_key = key →
        r.new_wrap_seen = false → CandidateOpens s p.identity env

instance (s : Side) (p : Party) (key : AgreementKey) (env : Envelope Body) (jump now : Nat) :
    Decidable (OpensForCandidate s p key env jump now) :=
  decidable_of_iff
    (¬ (env.payload.isRotation = false ∧ s.events.find env.event_id = none ∧
        (receiveObject s p.identity p.other.identity env jump now).2 = .accepted) ∨
      ∀ r ∈ s.rotation env.key_epoch .rotating,
        ¬ (r.live = true ∧ r.new_public_key = key ∧ r.new_wrap_seen = false) ∨ CandidateOpens s p.identity env)
    (by simp only [OpensForCandidate, ← imp_iff_not_or, and_imp])

/-- What a step does for the rotation of `p` to `key`.  The rotation begins
without a signal that an earlier attempt at its epoch has left.  And until its
flag is set, a data event with its label that `p` accepts is opened by the
candidate key. -/
def Vouches (p : Party) (key : AgreementKey) (S : System) (a : Act) : Prop :=
  let x := S.node p
  a.party = p →
    match a.kind with
    | .beginRotation => key = PrivateKey.publicKey ⟨S.nextKey⟩ → ¬ Signalled x (x.side.currentEpoch + 1)
    | .deliver i jump => ∀ env ∈ S.net[i]?, OpensForCandidate x.side p key env jump a.now
    | _ => True

instance (p : Party) (key : AgreementKey) (S : System) : ∀ a, Decidable (Vouches p key S a)
  | ⟨q, _, .beginRotation⟩ =>
    decidable_of_iff (¬ (q = p ∧ key = PrivateKey.publicKey ⟨S.nextKey⟩) ∨
        ¬ Signalled (S.node p) ((S.node p).side.currentEpoch + 1))
      (by simp only [Vouches, ← imp_iff_not_or, and_imp])
  | ⟨q, now, .deliver i jump⟩ =>
    decidable_of_iff (¬ q = p ∨ ∀ env ∈ S.net[i]?, OpensForCandidate (S.node p).side p key env jump now)
      (by simp only [Vouches, ← imp_iff_not_or])
  | ⟨_, _, .exec _⟩ | ⟨_, _, .drop _⟩ | ⟨_, _, .sendData⟩ | ⟨_, _, .rotateConfirm⟩ | ⟨_, _, .rotateCommit⟩
  | ⟨_, _, .rotateAck _⟩ | ⟨_, _, .redrive _⟩ | ⟨_, _, .sweepCompact⟩ | ⟨_, _, .sweepTimeout⟩
  | ⟨_, _, .sweepRetire _⟩ => isTrue (fun _ => trivial)

/-! ## The order of the window -/

theorem unsealCandidates_of_live {s : Side} (ho : Crypto.Orderly s.toKeys) {r : Rotation}
    (hr : s.rotation e .rotating = some r) (hl : r.live = true)
    (hpeer : s.key_epoch ∉ s.ownEpochs) :
    (unsealCandidates s).head? = some e := by
  have hown : e ∈ s.ownEpochs := mem_ownEpochs.mpr (ho.ownKeys e r hr hl).1
  have hnewest : ∀ e' ∈ s.ownEpochs, e' ≤ e := by
    intro e' he'
    obtain ⟨row, hrow⟩ := Option.isSome_iff_exists.mp (mem_ownEpochs.mp he')
    exact (ho.top e _ r hr hl).2 e' row (ownRow_eq_some.mp hrow).1
  have hfirst : e ∈ (Newest.newest s.ownEpochs).take 1 := by
    rw [Newest.mem_newest_take (ownEpochs_nodup s), Nat.lt_one_iff, List.countP_eq_zero]
    refine ⟨hown, fun e' he' => ?_⟩
    simpa using hnewest e' he'
  rw [unsealCandidates, if_neg hpeer]
  cases hlist : Newest.newest s.ownEpochs with
  | nil => simp [hlist] at hfirst
  | cons first rest =>
    rw [hlist, List.take_succ_cons, List.take_zero, List.mem_singleton] at hfirst
    rw [hfirst]
    rfl

theorem CandidateOpens.openingKey {s : Side} {me : IdentityId} {env : Envelope Body}
    (h : CandidateOpens s me env) (ho : Crypto.Orderly s.toKeys) {r : Rotation}
    (hr : s.rotation env.key_epoch .rotating = some r) (hl : r.live = true)
    (hkey : openingKey s env me = some priv) : s.privateKey env.key_epoch = some priv := by
  obtain ⟨hsigned, e, he, hpriv, hwrap⟩ := of_openingKey hkey
  rcases h with ⟨hpeer, held, hheld, hopens⟩ | hothers
  · have hhead := unsealCandidates_of_live ho hr hl hpeer
    have hok : (unsealEnvelope env held me).isOk = true := unsealEnvelope_isOk_iff.mpr ⟨hsigned, hopens⟩
    cases hlist : unsealCandidates s with
    | nil => simp [hlist] at hhead
    | cons first rest =>
      rw [hlist, List.head?_cons, Option.some.injEq] at hhead
      rw [Cli.openingKey, hlist, List.findSome?_cons, hhead, hheld] at hkey
      simp only [Option.filter, hok, if_true, Option.some.injEq] at hkey
      rw [← hkey]
      exact hheld
  · have heq : e = env.key_epoch := by
      by_contra hne
      exact hothers e (mem_ownEpochs_of_privateKey hpriv) hne ⟨priv, hpriv, hwrap⟩
    rw [← heq]
    exact hpriv

/-! ## What a step does to the keys -/

section keys

variable {w : World} {x : Node} {kind : Kind} {s' : Side}

/-- The invariants of the calls on one side hold of a party too. -/
theorem postReceiveHooks_orderly {s : Side} (h : Crypto.Orderly s.toKeys ∧ Named s.toKeys) (ev : StoredEvent) (now : Nat) :
    Crypto.Orderly (postReceiveHooks s ev now).1.toKeys ∧ Named (postReceiveHooks s ev now).1.toKeys := by
  have hcall : ∀ {s : Side} (c : RotationCall), Crypto.Orderly s.toKeys ∧ Named s.toKeys →
      Crypto.Orderly (s.call c).toKeys ∧ Named (s.call c).toKeys := fun c h => ⟨h.1.call c, h.2.call h.1 c⟩
  obtain ⟨id, sender, created_at, key_epoch, body⟩ := ev
  cases body with
  | prepare prepare => exact hcall (.onPrepare prepare id now) h
  | ack ack => exact hcall (.onAck ack now) h
  | confirm epoch => exact hcall (.onConfirm epoch now) h
  | commit epoch => exact hcall (.onCommit epoch now) h
  | data content => exact hcall .noteAcceptedEvent (hcall (.noteDecryptedNewWrap key_epoch now) h)

theorem SideStep.orderly (hstep : SideStep w x kind s') (hkind : kind ≠ .beginRotation)
    (h : Crypto.Orderly x.side.toKeys ∧ Named x.side.toKeys) : Crypto.Orderly s'.toKeys ∧ Named s'.toKeys := by
  have hcall : ∀ c : RotationCall, Crypto.Orderly (x.side.call c).toKeys ∧ Named (x.side.call c).toKeys :=
    fun c => ⟨h.1.call c, h.2.call h.1 c⟩
  cases hstep with
  | begun => exact absurd rfl hkind
  | logged hs =>
    rw [hs]
    exact h
  | received =>
    rw [(receiveObject_cases x.side _ _ _ _ w.now).1]
    exact h
  | markConfirmed => exact hcall (.markConfirmed w.now)
  | markCommitted _ => exact hcall (.markCommitted w.now)
  | dataHooks _ => exact postReceiveHooks_orderly h _ _
  | prepare _ _ => exact hcall (.onPrepare _ _ w.now)
  | hooks _ _ => exact postReceiveHooks_orderly h _ _
  | sweepCompact => exact hcall (.sweepCompact w.now)
  | sweepTimeout => exact hcall (.sweepTimeout w.now)
  | sweepRetire hrow hphase =>
    exact ⟨(sweepRetire_orderly h.1 (retirable_of_committed h.1 hrow hphase) w.now).1,
      (sweepRetire_ownFrom x.side _ w.now).named h.2⟩

theorem postReceiveHooks_inherits {s : Side} {signal : Nat → Prop}
    (hparked : ∀ e, Parked s e → signal e)
    (hdata : ev.body.isRotation = false → signal ev.key_epoch) (now : Nat) :
    Inherits signal s.toKeys (postReceiveHooks s ev now).1.toKeys := by
  obtain ⟨id, sender, created_at, key_epoch, body⟩ := ev
  cases body with
  | prepare prepare => exact onPrepare_inherits prepare id now
  | ack ack => exact onAck_inherits hparked ack now
  | confirm epoch => exact onConfirm_inherits epoch now
  | commit epoch => exact onCommit_inherits epoch now
  | data content => exact (noteDecryptedNewWrap_inherits (hdata rfl) now).trans noteAcceptedEvent_inherits

theorem SideStep.inherits (hstep : SideStep w x kind s') (hkind : kind ≠ .beginRotation) (hn : Named x.side.toKeys) :
    Inherits (Signalled x) x.side.toKeys s'.toKeys := by
  have hparked : ∀ e, Parked x.side e → Signalled x e := fun _ => Or.inl
  cases hstep with
  | begun => exact absurd rfl hkind
  | logged hs =>
    rw [hs]
    exact .refl _ _
  | received =>
    rw [(receiveObject_cases x.side _ _ _ _ w.now).1]
    exact .refl _ _
  | markConfirmed => exact markConfirmed_inherits w.now
  | markCommitted _ => exact markCommitted_inherits w.now
  | dataHooks htask => exact postReceiveHooks_inherits hparked (fun _ => Or.inr ⟨_, htask, rfl⟩) w.now
  | prepare _ _ => exact onPrepare_inherits _ _ w.now
  | hooks _ hev =>
    refine postReceiveHooks_inherits hparked (fun hdata => ?_) w.now
    rw [(rotationEvent_eq_some.mp hev).2.1] at hdata
    cases hdata
  | sweepCompact => exact sweepCompact_inherits w.now
  | sweepTimeout => exact sweepTimeout_inherits hn w.now
  | sweepRetire _ _ => exact sweepRetire_inherits hn _ w.now

end keys

/-! ## What a step does to the signals -/

section signals

variable {w : World} {x : Node} {kind : Kind}

theorem postReceiveHooks_parked {s : Side} (h : ev.body.isRotation = true) (now : Nat) :
    ParkedFrom s (postReceiveHooks s ev now).1 := by
  obtain ⟨id, sender, created_at, key_epoch, body⟩ := ev
  cases body with
  | prepare prepare => exact onPrepare_parked s prepare id now
  | ack ack => exact onAck_parked s ack now
  | confirm epoch => exact (onConfirm_keysOnly s epoch now).parked
  | commit epoch => exact (onCommit_keysOnly s epoch now).parked
  | data content => cases h

theorem parked_of_postReceiveHooks {s : Side} {now : Nat}
    (h : Parked (postReceiveHooks s ev now).1 e) : Parked s e ∨ e = ev.key_epoch := by
  cases hbody : ev.body.isRotation with
  | true => exact Or.inl (postReceiveHooks_parked hbody now e h)
  | false =>
    obtain ⟨id, sender, created_at, key_epoch, body⟩ := ev
    cases body with
    | data content => exact parked_of_noteDecryptedNewWrap h
    | _ => cases hbody

theorem receiveObject_parked (s : Side) (me peer : IdentityId) (env : Envelope Body) (jump now : Nat) :
    ParkedFrom s (receiveObject s me peer env jump now).1 := by
  have hgate := onDataEventEpoch_parked s env.key_epoch now
  unfold receiveObject
  split
  · exact .of_eq rfl
  split
  · exact .of_eq rfl
  split
  · exact .of_eq rfl
  split
  all_goals
    rename_i hout
    rw [hout] at hgate
  · dsimp only
    split <;> exact hgate
  · exact hgate
  · split
    · exact hgate
    split
    · exact hgate
    split
    · exact hgate
    split
    · exact hgate
    split <;> exact hgate

/-- What a step parks is the epoch of a data event whose hooks were to run. -/
theorem SideStep.parked {s' : Side} (h : SideStep w x kind s') (hparked : Parked s' e) :
    Signalled x e := by
  have hkept : ParkedFrom x.side s' → Signalled x e := fun hside => Or.inl (hside e hparked)
  cases h with
  | begun => exact hkept (beginRotation_keysOnly x.side w.now _ none).parked
  | logged hs => exact hkept (.of_eq (by rw [hs]))
  | received => exact hkept (receiveObject_parked x.side _ _ _ _ w.now)
  | markConfirmed => exact hkept (markConfirmed_keysOnly x.side w.now).parked
  | markCommitted _ => exact hkept (markCommitted_keysOnly x.side w.now).parked
  | dataHooks htask =>
    cases parked_of_postReceiveHooks hparked with
    | inl hold => exact Or.inl hold
    | inr he => exact Or.inr ⟨_, htask, by rw [he]; rfl⟩
  | prepare _ _ => exact hkept (onPrepare_parked x.side _ _ w.now)
  | hooks _ hev => exact hkept (postReceiveHooks_parked (rotationEvent_eq_some.mp hev).2.1 w.now)
  | sweepCompact => exact hkept (sweepCompact_parked x.side w.now)
  | sweepTimeout => exact hkept (sweepTimeout_keysOnly x.side w.now).parked
  | sweepRetire _ _ => exact hkept (sweepRetire_keysOnly x.side _ w.now).parked

theorem act_signals {eff : Effect} (hkind : kind ≠ .beginRotation)
    (h : Node.act w x kind = some eff) (hsignal : Signalled eff.node e) :
    Signalled x e ∨ ∃ i jump env, kind = .deliver i jump ∧ w.net[i]? = some env ∧ env.payload.isRotation = false ∧
      x.side.events.find env.event_id = none ∧
      (receiveObject x.side w.me.identity w.me.other.identity env jump w.now).2 = .accepted ∧ env.key_epoch = e := by
  rcases hsignal with hparked | ⟨task, htask, hsignal⟩
  · exact Or.inl ((SideStep.of_act h).parked hparked)
  rcases (LogStep.of_act hkind h).tasks task htask with hold | hleft
  · exact Or.inl (Or.inr ⟨task, hold, hsignal⟩)
  · cases task with
    | dataHooks ev =>
      obtain ⟨hdata, n, jump, env, rfl, hnet, hbody, hepoch, hnone, haccepted⟩ := hleft
      exact Or.inr ⟨n, jump, env, rfl, hnet, hbody ▸ hdata, hnone, haccepted, hepoch.trans (Option.some.inj hsignal)⟩
    | _ => cases hsignal

end signals

/-! ## Runs -/

/-- A run of the two parties, with what they opened. -/
def possession : Machine (System × List Opening) Act := (System.machine Paired).withTrail openings

/-- The flag of the rotation of `p` to `key`, and every signal for it, stands for
an opening with `key`. -/
structure Vouched (p : Party) (key : AgreementKey) (T : System × List Opening) : Prop where
  orderly : Crypto.Orderly (T.1.node p).side.toKeys ∧ Named (T.1.node p).side.toKeys
  announced : Announced (T.1.node p).side.toKeys
  opened : ∀ e r, (T.1.node p).side.rotation e .rotating = some r → r.live = true → r.new_public_key = key →
    r.new_wrap_seen = true ∨ Signalled (T.1.node p) e → Opened T.2 p key

section step

variable {p : Party} {key : AgreementKey} {S : System} {trail : List Opening} {now : Nat} {eff : Effect}

theorem Vouched.of_paired (h : possession.init T) : Vouched p key T := by
  obtain ⟨⟨-, own, -, hnode⟩, -⟩ := h
  have hside : (T.1.node p).side = freshSide (own p) (own p.other) := by
    rw [hnode p]
    rfl
  have hnone : ∀ e r, (T.1.node p).side.rotation e .rotating = some r → False := by
    intro e r hr
    rw [hside] at hr
    cases hr
  refine ⟨?_, fun e r _ hr => (hnone e r hr).elim, fun e r hr => (hnone e r hr).elim⟩
  rw [hside]
  exact ⟨(freshSide_fresh _ _).orderly, freshSide_named _ _⟩

theorem openingKey_of_accepted {s : Side} {me peer : IdentityId} {env : Envelope Body} {jump : Nat}
    (hnew : s.events.find env.event_id = none) (h : (receiveObject s me peer env jump now).2 = .accepted) :
    ∃ priv, openingKey s env me = some priv := by
  unfold receiveObject at h
  split at h
  · cases h
  split at h
  · rename_i hstored
    rw [hnew] at hstored
    cases hstored
  split at h
  · cases h
  rename_i payload hun
  obtain ⟨priv, hkey, -⟩ := tryUnseal_ok_iff_openingKey.mp hun
  exact ⟨priv, hkey⟩

theorem Vouched.begin (h : Vouched p key (S, trail))
    (hok : key = PrivateKey.publicKey ⟨S.nextKey⟩ → ¬ Signalled (S.node p) ((S.node p).side.currentEpoch + 1))
    (hact : Node.act (S.world p now) (S.node p) .beginRotation = some eff) (more : List Opening) :
    Vouched p key (S.apply p eff, trail ++ more) := by
  have hside : eff.node.side = (beginRotation (S.node p).side now ⟨S.nextKey⟩ none).1 := by
    simp only [Node.act, System.world] at hact
    split at hact
    · rename_i hout
      cases hact
      rw [hout]
    · rename_i hout
      cases hact
      rw [hout]
  have hparked : ParkedFrom (S.node p).side eff.node.side := hside ▸ (beginRotation_keysOnly _ _ _ _).parked
  have horderly : Crypto.Orderly eff.node.side.toKeys ∧ Named eff.node.side.toKeys := by
    rw [hside]
    exact ⟨beginRotation_orderly h.orderly.1 _ _ _, beginRotation_named h.orderly.2 _ _ _⟩
  rcases act_begin hact with ⟨epoch, prepare, prior, hb, -, -, -, htasks⟩ | ⟨hfile, -, -, -, htasks⟩
  · refine ⟨by rw [System.apply_node_self]; exact horderly, by rw [System.apply_node_self]; exact hb.announced, ?_⟩
    intro e r hr hl hkey hflag
    rw [System.apply_node_self] at hr hflag
    rw [hb.rotation] at hr
    split_ifs at hr with heq
    · obtain rfl := Option.some.inj hr
      obtain ⟨rfl, -⟩ := Prod.mk.inj heq
      refine absurd ?_ (hok hkey.symm)
      rw [← hb.epoch_eq]
      rcases hflag with hflag | hparked' | ⟨task, htask, hsignal⟩
      · cases hflag
      · exact Or.inl (hparked e hparked')
      · rw [htasks] at htask
        rcases List.mem_append.mp htask with htask | htask
        · exact Or.inr ⟨task, htask, hsignal⟩
        · rw [List.mem_singleton.mp htask] at hsignal
          cases hsignal
    · rw [inFlight_eq_none.mp hb.idle e _ r hr] at hl
      cases hl
  · have hinherits : Inherits (fun _ => False) (S.node p).side.toKeys eff.node.side.toKeys :=
      hfile.inherits h.orderly.2
    refine ⟨by rw [System.apply_node_self]; exact horderly,
      by rw [System.apply_node_self]; exact hinherits.announced h.announced, ?_⟩
    intro e r hr hl hkey hflag
    rw [System.apply_node_self] at hr hflag
    obtain ⟨r₀, hr₀, hl₀, hpub, hseen⟩ := hinherits.row e r hr hl
    refine (h.opened e r₀ hr₀ hl₀ (hpub.symm.trans hkey) ?_).append more
    rcases hflag with hflag | hparked' | ⟨task, htask, hsignal⟩
    · exact Or.inl ((hseen hflag).resolve_right id)
    · exact Or.inr (Or.inl (hparked e hparked'))
    · rw [htasks] at htask
      exact Or.inr (Or.inr ⟨task, htask, hsignal⟩)

/-- Every other step of `p` keeps the invariant: a new signal comes with an
opening. -/
theorem Vouched.act {kind : Kind} (h : Vouched p key (S, trail)) (hkind : kind ≠ .beginRotation)
    (hok : Vouches p key S ⟨p, now, kind⟩)
    (hact : Node.act (S.world p now) (S.node p) kind = some eff) :
    Vouched p key (S.apply p eff, trail ++ openings S ⟨p, now, kind⟩) := by
  have hstep := SideStep.of_act hact
  have hinherits := hstep.inherits hkind h.orderly.2
  refine ⟨by rw [System.apply_node_self]; exact hstep.orderly hkind h.orderly,
    by rw [System.apply_node_self]; exact hinherits.announced h.announced, ?_⟩
  intro e r' hr' hl' hkey hflag
  rw [System.apply_node_self] at hr' hflag
  obtain ⟨r, hr, hl, hpub, hseen⟩ := hinherits.row e r' hr' hl'
  have hkey₀ : r.new_public_key = key := hpub.symm.trans hkey
  have hbefore : r.new_wrap_seen = true ∨ Signalled (S.node p) e →
      Opened (trail ++ openings S ⟨p, now, kind⟩) p key :=
    fun hflag => (h.opened e r hr hl hkey₀ hflag).append _
  cases hflag with
  | inl hflag => exact hbefore (hseen hflag)
  | inr hsignal =>
    rcases act_signals hkind hact hsignal with hold | ⟨i, jump, env, rfl, henv, hdata, hnew, haccepted, rfl⟩
    · exact hbefore (Or.inr hold)
    · cases hset : r.new_wrap_seen with
      | true => exact hbefore (Or.inl hset)
      | false =>
        have hopens := hok rfl env henv hdata hnew haccepted r hr hl hkey₀ hset
        obtain ⟨priv, hpriv⟩ := openingKey_of_accepted hnew haccepted
        have hheld := hopens.openingKey h.orderly.1 hr hl hpriv
        refine ⟨⟨p, env, priv⟩, List.mem_append_right _ ?_, rfl,
          (h.announced _ r priv hr hl hheld).trans hkey₀⟩
        have hnet : S.net[i]? = some env := henv
        have hkey' : openingKey (S.node p).side env p.identity = some priv := hpriv
        simp [openings, hnet, hnew, hkey']

end step

/-- A confirm is built for the rotation in flight when its flag is set. -/
theorem seen_of_buildConfirmPayload {s : Side} {epoch : Nat} (h : buildConfirmPayload s = .ok epoch) :
    ∃ r, s.rotation epoch .rotating = some r ∧ r.live = true ∧ r.new_wrap_seen = true := by
  unfold buildConfirmPayload at h
  split at h
  · cases h
  · rename_i r hr
    obtain ⟨hrow, hlive⟩ := rotation_of_inFlightAs hr
    split_ifs at h with hphase hseen
    cases h
    exact ⟨r, hrow, hlive, hseen⟩

theorem vouched_of_reach {p : Party} {key : AgreementKey}
    (h : possession.Reach (fun T a => Vouches p key T.1 a) T) : Vouched p key T := by
  refine Machine.Reach.invariant (fun _ => Vouched.of_paired) ?_ h
  rintro ⟨S, trail⟩ ⟨q, now, kind⟩ ⟨S', trail'⟩ hS hok hstep
  obtain ⟨hact, htrail⟩ := Machine.withTrail_step.mp hstep
  obtain ⟨eff, heff, happly⟩ := System.step_eq_some.mp hact
  dsimp only at htrail happly heff
  subst htrail
  subst happly
  by_cases hq : q = p
  · subst hq
    by_cases hkind : kind = .beginRotation
    · subst hkind
      exact hS.begin (hok rfl) heff _
    · exact hS.act hkind hok heff
  · -- The peer does not touch the store of `p`.
    have hnode : (S.apply q eff).node p = S.node p := apply_node_of_ne (Ne.symm hq) eff
    refine ⟨by rw [hnode]; exact hS.orderly, by rw [hnode]; exact hS.announced, ?_⟩
    intro e r hr hl hkey hflag
    rw [hnode] at hr hflag
    exact (hS.opened e r hr hl hkey hflag).append _

/-- The trail lists envelopes that came over the relay. -/
theorem read_of_reach {ok : System × List Opening → Act → Prop}
    (h : possession.Reach ok T) : ∀ o ∈ T.2, o.env ∈ T.1.net ∧ o.env.WrappedTo o.key o.reader.identity := by
  refine Machine.Reach.invariant
    (P := fun T => ∀ o ∈ T.2, o.env ∈ T.1.net ∧ o.env.WrappedTo o.key o.reader.identity) ?_ ?_ h
  · rintro T ⟨-, htrail⟩ o ho
    rw [htrail] at ho
    cases ho
  · intro T a T' hT _ hstep o ho
    obtain ⟨hact, htrail⟩ := Machine.withTrail_step.mp hstep
    obtain ⟨eff, -, happly⟩ := System.step_eq_some.mp hact
    have hkept : ∀ env ∈ T.1.net, env ∈ T'.1.net := by
      intro env henv
      rw [← happly]
      exact List.mem_append_left _ henv
    rw [htrail] at ho
    rcases List.mem_append.mp ho with ho | ho
    · exact (hT o ho).imp_left (hkept _)
    · exact (of_mem_openings ho).imp_left (hkept _)

/-- A confirm proves possession.

In every run in which the steps for the rotation of `p` to `key` meet `Vouches`,
`p` builds a confirm for that rotation only after it opened an envelope of the
relay with the private half of `key`, which is the private key of the epoch as
long as the epoch has one. -/
theorem confirm_proves_possession {p : Party} {key : AgreementKey} {T : System × List Opening}
    (h : possession.Reach (fun T a => Vouches p key T.1 a) T) {epoch : Nat} {r : Rotation}
    (hbuild : buildConfirmPayload (T.1.node p).side = .ok epoch)
    (hr : (T.1.node p).side.rotation epoch .rotating = some r) (hkey : r.new_public_key = key) :
    ∃ o ∈ T.2, o.reader = p ∧ (o.env ∈ T.1.net ∧ o.env.WrappedTo o.key p.identity) ∧ o.key.publicKey = key ∧
      ∀ priv, (T.1.node p).side.privateKey epoch = some priv → o.key = priv := by
  have hT := vouched_of_reach h
  obtain ⟨r₀, hr₀, hl, hseen⟩ := seen_of_buildConfirmPayload hbuild
  obtain rfl : r₀ = r := Option.some.inj (hr₀.symm.trans hr)
  obtain ⟨o, ho, hreader, hopened⟩ := hT.opened epoch r₀ hr hl hkey (Or.inl hseen)
  refine ⟨o, ho, hreader, hreader ▸ read_of_reach h o ho, hopened, fun priv hpriv => ?_⟩
  have hannounced := hT.announced epoch r₀ priv hr hl hpriv
  rw [← publicKey_inj, hopened, hannounced, hkey]

theorem possession_start : possession.init (pairedStart, []) := ⟨pairedStart_paired, rfl⟩

/-- Bob rotates after Alice did.  The current epoch is then Alice's, so that he
tries the key of his candidate first. -/
def secondRotation : List Act :=
  committedRun ++ [⟨.alice, 0, .deliver 4⟩, ⟨.alice, 0, .redrive 4⟩, ⟨.bob, 0, .beginRotation⟩,
    ⟨.bob, 0, .exec 0⟩, ⟨.alice, 0, .deliver 5⟩, ⟨.alice, 0, .redrive 5⟩, ⟨.alice, 0, .exec 1⟩,
    ⟨.bob, 0, .deliver 6⟩, ⟨.bob, 0, .redrive 6⟩, ⟨.alice, 0, .sendData⟩, ⟨.bob, 0, .deliver 7⟩,
    ⟨.bob, 0, .exec 1⟩]

/-- Bob confirms with an opening by his new key. -/
theorem confirm_proves_possession_second :
    ∃ T : System × List Opening, buildConfirmPayload (T.1.node .bob).side = .ok 3 ∧
      ∃ o ∈ T.2, o.reader = Party.bob ∧
        (o.env ∈ T.1.net ∧ o.env.WrappedTo o.key Party.bob.identity) ∧
        o.key.publicKey = PrivateKey.publicKey ⟨3⟩ ∧
        ∀ priv, (T.1.node .bob).side.privateKey 3 = some priv → o.key = priv := by
  have hrun : (possession.run (pairedStart, []) secondRotation).map (fun T =>
      ((buildConfirmPayload (T.1.node .bob).side).toOption,
        ((T.1.node .bob).side.rotation 3 .rotating).map (·.new_public_key))) =
      some (some 3, some (PrivateKey.publicKey ⟨3⟩)) := by
    decide +kernel
  obtain ⟨T, hT, hview⟩ := Option.map_eq_some_iff.mp hrun
  have hok : possession.okRun (fun T a => Vouches .bob (PrivateKey.publicKey ⟨3⟩) T.1 a) (pairedStart, [])
      secondRotation := by
    decide +kernel
  obtain ⟨hbuild, hrot⟩ := Prod.mk.inj hview
  obtain ⟨r, hr, hkey⟩ := Option.map_eq_some_iff.mp hrot
  have hconfirm : buildConfirmPayload (T.1.node .bob).side = .ok 3 := by
    cases hres : buildConfirmPayload (T.1.node .bob).side with
    | error raised =>
      rw [hres] at hbuild
      cases hbuild
    | ok epoch =>
      rw [hres] at hbuild
      rw [Option.some.inj hbuild]
  exact ⟨T, hconfirm, confirm_proves_possession
    (Machine.Reach.run (.start possession_start) hok hT) hconfirm hr hkey⟩

/-- Alice confirms the rotation to epoch 2 and has opened nothing with its key.
Her current epoch is 1, so the dual-wrapped event opens with the old key, and
the label sets the flag. -/
theorem confirm_without_possession :
    ¬ ∀ T, possession.Reachable T → ∀ p epoch r, buildConfirmPayload (T.1.node p).side = .ok epoch →
      (T.1.node p).side.rotation epoch .rotating = some r → Opened T.2 p r.new_public_key := by
  intro hall
  have hrun : (possession.run (pairedStart, []) (confirmedRun.take 12)).map (fun T =>
      ((buildConfirmPayload (T.1.node .alice).side).toOption,
        ((T.1.node .alice).side.rotation 2 .rotating).map (fun r =>
          decide (Opened T.2 .alice r.new_public_key)))) = some (some 2, some false) := by
    decide +kernel
  obtain ⟨T, hT, hview⟩ := Option.map_eq_some_iff.mp hrun
  obtain ⟨hbuild, hrot⟩ := Prod.mk.inj hview
  obtain ⟨r, hr, hclosed⟩ := Option.map_eq_some_iff.mp hrot
  have hconfirm : buildConfirmPayload (T.1.node .alice).side = .ok 2 := by
    cases hres : buildConfirmPayload (T.1.node .alice).side with
    | error raised =>
      rw [hres] at hbuild
      cases hbuild
    | ok epoch =>
      rw [hres] at hbuild
      rw [Option.some.inj hbuild]
  have hreach : possession.Reachable T := Machine.reachable_of_run possession_start hT
  exact of_decide_eq_false hclosed (hall T hreach .alice 2 r hconfirm hr)

end MuseAgentSocial.Cli
