import MuseAgentSocial.Cli.StepEffects
import MuseAgentSocial.Crypto.Ring

/-!
# Data events and the keys that open them

When does `_try_unseal` open a data envelope that is wrapped to a key the
receiver still holds?  It tries the current epoch and the newest own epoch
below it, or the two newest own epochs when the current one is the peer's.
So it misses a key in two ways.

* The sender has executed `mark_committed` and wraps to the new key alone,
  and its data event overtakes the commit.  The new epoch is then ahead of
  the receiver's current epoch.
* The receiver holds three own keys, because it rotated again while the old
  key of the rotation before was still retained.

`tryUnseal_window` says exactly which envelopes open in a state, and that
every envelope opens in the runs that avoid the two situations.
-/

namespace MuseAgentSocial.Cli

open Model Crypto Policy RotationManager Keys

/-! ## The condition on a run -/

/-- An envelope that wraps to the key of a rotation wraps to its prior key
as well. -/
def CoversPrior (recipients : List Wrap) (q : Party) (r : Rotation) : Prop :=
  (⟨q.identity, r.new_public_key⟩ : Wrap) ∈ recipients →
    ∃ w ∈ recipients, w.recipient = q.identity ∧
      agreementFingerprint w.agreement_key = r.prior_fingerprint

instance (recipients : List Wrap) (q : Party) (r : Rotation) :
    Decidable (CoversPrior recipients q r) :=
  inferInstanceAs (Decidable (_ → _))

/-- The recipients of `p` at this moment do not name a key of the peer whose
commit the peer has not applied, unless they name the prior key too. -/
def SealsForPeer (S : System) (p : Party) : Prop :=
  ∀ recipients ∈ (recipientsFor (S.node p).side p.other.identity).toOption,
    ∀ r ∈ (S.node p.other).side.key_rotations.rows,
      r.role = .rotating → r.live = true → CoversPrior recipients.1 p.other r

instance (S : System) (p : Party) : Decidable (SealsForPeer S p) :=
  inferInstanceAs (Decidable (∀ _ ∈ Except.toOption _, _))

/-- A side begins a rotation only while it holds one own key, and a data
event is not sealed to an uncommitted new key alone. -/
def InStep (S : System) (a : Act) : Prop :=
  match a.kind with
  | .beginRotation => (S.node a.party).side.ownEpochs.length ≤ 1
  | .sendData => SealsForPeer S a.party
  | _ => True

instance (S : System) (a : Act) : Decidable (InStep S a) := by
  unfold InStep
  split <;> infer_instance

/-! ## The invariant -/

/-- A prepare carries a key below `n`. -/
def BodyBelow (n : Nat) : Body → Prop
  | .prepare prepare => prepare.new_agreement_key.half.seed < n
  | _ => True

variable {n m e : Nat} {eff : Effect}

theorem BodyBelow.mono {body : Body} (h : BodyBelow n body) (hle : n ≤ m) : BodyBelow m body := by
  cases body with
  | prepare prepare => exact lt_of_lt_of_le h hle
  | _ => trivial

/-- The keys a node and its pending work know of are below `n`. -/
structure NodeBelow (n : Nat) (x : Node) : Prop where
  keys : Below n x.side.toKeys
  events : ∀ i ev, x.side.events.find i = some ev → BodyBelow n ev.body
  prepares : ∀ prepare, Task.sendPrepare prepare ∈ x.tasks → prepare.new_agreement_key.half.seed < n
  hooks : ∀ ev, Task.dataHooks ev ∈ x.tasks → ev.body.isRotation = false

theorem NodeBelow.mono {x : Node} (h : NodeBelow n x) (hle : n ≤ m) :
    NodeBelow m x where
  keys := h.keys.mono hle
  events := fun i ev hev => (h.events i ev hev).mono hle
  prepares := fun prepare hp => lt_of_lt_of_le (h.prepares prepare hp) hle
  hooks := h.hooks

/-- An envelope is genuine and names only keys below `n`. -/
structure EnvelopeBelow (n : Nat) (env : Envelope Body) : Prop where
  signed : env.signer = env.sender
  body : BodyBelow n env.payload
  wraps : ∀ w ∈ env.recipients, w.agreement_key.half.seed < n

theorem EnvelopeBelow.mono {env : Envelope Body} (h : EnvelopeBelow n env)
    (hle : n ≤ m) : EnvelopeBelow m env where
  signed := h.signed
  body := h.body.mono hle
  wraps := fun w hw => lt_of_lt_of_le (h.wraps w hw) hle

/-! ## What a step sends and keeps -/

theorem peerKey_below {k : Keys} (hb : Below n k) {key : AgreementKey}
    (h : k.peerKey e = some key) : key.half.seed < n := by
  obtain ⟨⟨e', key'⟩, hfind, rfl⟩ := Option.map_eq_some_iff.mp h
  have hmem := List.mem_of_find?_eq_some hfind
  have hrows : ∀ x ∈ k.peerRows.map (fun r => (r.epoch, r.public_key)), x.2.half.seed < n := by
    intro x hx
    obtain ⟨row, hrow, rfl⟩ := List.mem_map.mp hx
    exact hb.rows row.epoch row (peerRow_eq_some.mp (mem_peerRows.mp hrow)).1
  unfold peerKeyEpochs at hmem
  dsimp only at hmem
  split at hmem
  · exact hrows _ hmem
  · rename_i peer hpeer
    rcases List.mem_cons.mp hmem with heq | hmem
    · have hkey : key' = ((k.peerRow k.key_epoch).map (·.public_key)).getD peer :=
        congrArg Prod.snd heq
      rw [hkey]
      cases hrow : k.peerRow k.key_epoch with
      | none => exact hb.peer peer hpeer
      | some row => exact hb.rows _ row (peerRow_eq_some.mp hrow).1
    · exact hrows _ (List.mem_filter.mp hmem).1

theorem recipientsFor_below {s : Side} (hb : Below n s.toKeys) {peer : IdentityId}
    {recipients : List Wrap} {key_epoch : Nat}
    (h : recipientsFor s peer = .ok (recipients, key_epoch)) :
    ∀ w ∈ recipients, w.agreement_key.half.seed < n := by
  unfold recipientsFor at h
  split at h
  · rename_i prior new hdual
    cases h
    unfold dualWrapKeys at hdual
    split at hdual
    · cases hdual
    split at hdual
    · cases hdual
    split at hdual
    · rename_i kp kn hp hn
      cases hdual
      intro w hw
      rcases List.mem_cons.mp hw with rfl | hw
      · exact peerKey_below hb hp
      · obtain rfl := List.mem_singleton.mp hw
        exact peerKey_below hb hn
    · cases hdual
  · split at h
    · cases h
    · rename_i key hkey
      cases h
      intro w hw
      obtain rfl := List.mem_singleton.mp hw
      exact hb.peer key hkey
  · cases h

/-- What a step other than `begin_rotation` may do. -/
structure Quiet (w : World) (x : Node) (kind : Kind) (eff : Effect) : Prop where
  tame : Tame w.nextKey x.side.toKeys eff.node.side.toKeys
  below : NodeBelow w.nextKey eff.node
  newKey : eff.newKey = false
  sent : ∀ env ∈ eff.sent, env.sender = w.me.identity ∧ EnvelopeBelow w.nextKey env ∧
    recipientsFor x.side w.me.other.identity = .ok (env.recipients, env.key_epoch) ∧
    (env.payload.isRotation = false → kind = .sendData)

section quiet

variable {w : World} {x : Node} {kind : Kind}

theorem postReceiveHooks_tame (s : Side) {ev : StoredEvent} (now : Nat)
    (hbody : BodyBelow n ev.body) : Tame n s.toKeys (postReceiveHooks s ev now).1.toKeys := by
  obtain ⟨id, sender, created_at, key_epoch, body⟩ := ev
  cases body with
  | prepare prepare => exact onPrepare_tame s prepare _ now n hbody
  | ack ack => exact (onAck_evolves s ack now).tame (keepsLive_ackMove _) n
  | confirm epoch => exact (onConfirm_evolves s epoch now).tame (keepsLive_onConfirmMove _) n
  | commit epoch => exact onCommit_tame s epoch now n
  | data content =>
    exact ((noteDecryptedNewWrap_evolves s key_epoch now).tame keepsLive_noMove n).trans
      ((noteAcceptedEvent_evolves _).tame keepsLive_noMove n)

theorem SideStep.tame {s' : Side} (h : SideStep w x kind s') (hkind : kind ≠ .beginRotation)
    (hx : NodeBelow w.nextKey x) : Tame w.nextKey x.side.toKeys s'.toKeys := by
  cases h with
  | begun => exact absurd rfl hkind
  | logged hs => exact .of_eq (by rw [hs])
  | received => exact .of_eq (receiveObject_cases x.side _ _ _ _ w.now).1
  | markConfirmed => exact (markConfirmed_evolves _ _).tame keepsLive_confirmMove _
  | markCommitted _ => exact markCommitted_tame _ _ _
  | @dataHooks _ ev htask =>
    have hdata := hx.hooks ev htask
    refine postReceiveHooks_tame x.side w.now ?_
    cases hbody : ev.body with
    | prepare prepare =>
      rw [hbody] at hdata
      cases hdata
    | _ => trivial
  | prepare hev hbody =>
    have hbelow := hx.events _ _ (Option.filter_eq_some_iff.mp hev).1
    rw [hbody] at hbelow
    exact onPrepare_tame _ _ _ _ _ hbelow
  | hooks _ hev =>
    exact postReceiveHooks_tame _ _ (hx.events _ _ (Option.filter_eq_some_iff.mp hev).1)
  | sweepCompact => exact sweepCompact_tame _ _ _
  | sweepTimeout => exact sweepTimeout_tame _ _ _
  | sweepRetire hrow _ => exact sweepRetire_tame _ _ _ _ hrow

theorem act_quiet (hx : NodeBelow w.nextKey x) (hnet : ∀ env ∈ w.net, EnvelopeBelow w.nextKey env)
    (hkind : kind ≠ .beginRotation) (h : Node.act w x kind = some eff) : Quiet w x kind eff := by
  have hlog := LogStep.of_act hkind h
  have htame := (SideStep.of_act h).tame hkind hx
  have hbodies : ∀ env ∈ eff.sent, BodyBelow w.nextKey env.payload := by
    intro env henv
    have hfor := (hlog.sent env henv).2.2.2.1
    cases hpayload : env.payload with
    | prepare prepare =>
      rw [hpayload] at hfor
      exact hx.prepares prepare hfor
    | _ => trivial
  refine ⟨htame, ⟨htame.below hx.keys, ?_, ?_, ?_⟩, hlog.newKey, ?_⟩
  · intro i ev hev
    rcases hlog.events i ev hev with hold | ⟨env, henv, -, -, hbody⟩ | ⟨env, henv, -, -, hbody, -⟩
    · exact hx.events i ev hold
    · exact hbody ▸ hbodies env henv
    · exact hbody ▸ (hnet env henv).body
  · exact fun prepare hp => (hlog.tasks _ hp).elim (hx.prepares prepare) False.elim
  · exact fun ev hev => (hlog.tasks _ hev).elim (hx.hooks ev) (fun hleft => hleft.1)
  · intro env henv
    obtain ⟨-, hsender, hsigner, hfor, hrec⟩ := hlog.sent env henv
    refine ⟨hsender, ⟨hsigner.trans hsender.symm, hbodies env henv, recipientsFor_below hx.keys hrec⟩,
      hrec, fun hdata => ?_⟩
    cases hpayload : env.payload with
    | data content =>
      rw [hpayload] at hfor
      exact hfor
    | _ =>
      rw [hpayload] at hdata
      cases hdata

end quiet

/-! ## Runs -/

/-- The store of a side right after pairing. -/
def pairedSide (own peer : PrivateKey) : Side where
  key_epoch := 1
  peer_agreement_key := some peer.publicKey
  key_epochs := .single ⟨1, own.publicKey, .file 1⟩
  key_files := .single ⟨1, own⟩

/-- Two parties that have just paired. -/
def Paired (S : System) : Prop :=
  S.net = [] ∧ ∃ key : Party → PrivateKey, (∀ p, (key p).seed < S.nextKey) ∧
    ∀ p, S.node p = { side := pairedSide (key p) (key p.other) }

/-- A data envelope of the peer of `p` on the relay. -/
def InFlightData (S : System) (p : Party) (env : Envelope Body) : Prop :=
  env ∈ S.net ∧ env.sender = p.other.identity ∧ env.payload.isRotation = false

/-- `p` still holds the private key of one of the wraps. -/
def Held (S : System) (p : Party) (env : Envelope Body) : Prop :=
  ∃ e, Opens (S.node p).side p.identity env e

/-- `_try_unseal` at `p` returns the plaintext. -/
def Unseals (S : System) (p : Party) (env : Envelope Body) : Prop :=
  tryUnseal (S.node p).side env p.identity = .ok env.payload

/-- What holds in every run: the envelopes are genuine and the keys known. -/
structure Genuine (S : System) : Prop where
  node : ∀ p, NodeBelow S.nextKey (S.node p)
  net : ∀ env ∈ S.net, EnvelopeBelow S.nextKey env

/-- What holds in the runs that keep in step: both rings, and an envelope
that wraps to the key of a rotation in flight wraps to its prior key too. -/
structure Covered (S : System) : Prop where
  ring : ∀ p, Ring (S.node p).side.toKeys
  prior : ∀ p env, InFlightData S p env → ∀ e r,
    (S.node p).side.rotation e .rotating = some r → r.live = true →
      CoversPrior env.recipients p r

theorem ownRow_pairedSide (own peer : PrivateKey) (e : Nat) :
    (pairedSide own peer).ownRow e = if e = 1 then some ⟨1, own.publicKey, .file 1⟩ else none := by
  simp only [Keys.ownRow, pairedSide, Table.single, Table.find, List.find?_cons, List.find?_nil]
  by_cases he : e = 1
  · subst he
    rfl
  · have hne : ¬ (1 = e) := fun h => he h.symm
    simp [he, hne]

theorem rotation_pairedSide (own peer : PrivateKey) (e : Nat) (role : Role) :
    (pairedSide own peer).rotation e role = none := rfl

theorem find_pairedSide {own peer : PrivateKey} {row : KeyRow}
    (h : (pairedSide own peer).key_epochs.find e = some row) :
    row = ⟨1, own.publicKey, .file 1⟩ := by
  have hmem := (Table.find_eq_some.mp h).1
  exact List.mem_singleton.mp hmem

theorem Paired.genuine {S : System} (h : Paired S) : Genuine S := by
  obtain ⟨hnet, key, hkey, hnode⟩ := h
  refine ⟨?_, by simp [hnet]⟩
  intro p
  rw [hnode p]
  refine ⟨⟨?_, ?_, ?_⟩, by simp [pairedSide], by simp, by simp⟩
  · intro e row hrow
    rw [find_pairedSide hrow]
    exact hkey p
  · intro k hk
    cases hk
    exact hkey p.other
  · intro e role r hr
    rw [rotation_pairedSide] at hr
    cases hr

theorem Paired.covered {S : System} (h : Paired S) : Covered S := by
  obtain ⟨hnet, key, -, hnode⟩ := h
  refine ⟨?_, ?_⟩
  · intro p
    rw [hnode p]
    have hown := ownRow_pairedSide (key p) (key p.other)
    have honly : ∀ e, ((pairedSide (key p) (key p.other)).ownRow e).isSome = true → e = 1 := by
      intro e he
      rw [hown] at he
      split_ifs at he with heq
      · exact heq
      · cases he
    refine ⟨?_, ?_, ?_, ?_, ?_, ?_, ?_, ?_⟩
    · intro e row hrow
      obtain rfl := honly e (Option.isSome_of_eq_some hrow)
      rw [hown, if_pos rfl] at hrow
      cases hrow
      exact ⟨rfl, ⟨1, key p⟩, rfl, rfl⟩
    · intro e₁ e₂ e₃ h₁ h₂ h₃ h₁₂ h₂₃
      have := honly e₁ h₁
      have := honly e₂ h₂
      omega
    · exact fun e r hr => by cases hr
    · exact fun e r hr => by cases hr
    · exact fun e r hr => by cases hr
    · exact fun e r hr => by cases hr
    · exact fun e r hr => by cases hr
    · intro _
      exact Or.inl (fun e he => (honly e he).le)
  · rintro p env ⟨hmem, -⟩
    simp [hnet] at hmem

section step

variable {S : System} {p : Party} {now : Nat}

theorem apply_node_of_ne {q : Party} (hne : q ≠ p) (eff : Effect) :
    (S.apply p eff).node q = S.node q := by
  obtain rfl := (Party.eq_or_other p q).resolve_left hne
  exact System.apply_node_other S p eff

theorem act_begin {w : World} {x : Node} (h : Node.act w x .beginRotation = some eff) :
    (∃ epoch prepare prior, Begun x.side w.now ⟨w.nextKey⟩ none eff.node.side epoch prepare prior ∧
      eff.newKey = true ∧ eff.sent = [] ∧ eff.node.rejected = x.rejected ∧
      eff.node.tasks = x.tasks ++ [.sendPrepare prepare]) ∨
    (OnlyFile x.side (x.side.currentEpoch + 1) eff.node.side ∧ eff.newKey = false ∧
      eff.sent = [] ∧ eff.node.rejected = x.rejected ∧ eff.node.tasks = x.tasks) := by
  simp only [Node.act] at h
  rcases beginRotation_cases x.side w.now ⟨w.nextKey⟩ none with
    ⟨epoch, prepare, prior, hout, hbegun⟩ | ⟨raised, hout, hfile⟩
  · split at h
    · rename_i side e' prepare' hres
      rw [hres] at hbegun hout
      cases hout
      cases h
      exact Or.inl ⟨epoch, prepare, prior, hbegun, rfl, rfl, rfl, rfl⟩
    · rename_i side raised hres
      rw [hres] at hout
      cases hout
  · split at h
    · rename_i side e' prepare' hres
      rw [hres] at hout
      cases hout
    · rename_i side raised' hres
      rw [hres] at hfile
      cases h
      exact Or.inr ⟨hfile, rfl, rfl, rfl, rfl⟩

theorem Genuine.begin (hg : Genuine S)
    (h : Node.act (S.world p now) (S.node p) .beginRotation = some eff) :
    Genuine (S.apply p eff) := by
  have hx := hg.node p
  rcases act_begin h with ⟨epoch, prepare, prior, hb, hnew, hsent, -, htasks⟩ |
    ⟨hfile, hnew, hsent, -, htasks⟩
  · have hkey : (S.apply p eff).nextKey = S.nextKey + 1 := by simp [System.apply, hnew]
    refine ⟨?_, ?_⟩
    · intro q
      rw [hkey]
      by_cases hq : q = p
      · subst hq
        rw [System.apply_node_self]
        refine ⟨hb.below hx.keys, ?_, ?_, ?_⟩
        · intro i ev hev
          exact (hx.events i ev (by rw [← hb.events]; exact hev)).mono (Nat.le_succ _)
        · intro prepare' hp
          rw [htasks] at hp
          rcases List.mem_append.mp hp with hp | hp
          · exact Nat.lt_succ_of_lt (hx.prepares prepare' hp)
          · obtain rfl := Task.sendPrepare.inj (List.mem_singleton.mp hp)
            rw [hb.prepare_eq]
            exact Nat.lt_succ_self _
        · intro ev hev
          rw [htasks] at hev
          rcases List.mem_append.mp hev with hev | hev
          · exact hx.hooks ev hev
          · cases List.mem_singleton.mp hev
      · rw [apply_node_of_ne hq]
        exact (hg.node q).mono (Nat.le_succ _)
    · intro env henv
      rw [hkey]
      simp only [System.apply, hsent, List.append_nil] at henv
      exact (hg.net env henv).mono (Nat.le_succ _)
  · have hkey : (S.apply p eff).nextKey = S.nextKey := by simp [System.apply, hnew]
    have htame : Tame S.nextKey _ _ := hfile.tame
    refine ⟨?_, ?_⟩
    · intro q
      rw [hkey]
      by_cases hq : q = p
      · subst hq
        rw [System.apply_node_self]
        refine ⟨htame.below hx.keys, ?_, by rw [htasks]; exact hx.prepares,
          by rw [htasks]; exact hx.hooks⟩
        intro i ev hev
        exact hx.events i ev (by rw [← hfile.events]; exact hev)
      · rw [apply_node_of_ne hq]
        exact hg.node q
    · intro env henv
      rw [hkey]
      simp only [System.apply, hsent, List.append_nil] at henv
      exact hg.net env henv

theorem Genuine.quiet (hg : Genuine S) {kind : Kind}
    (h : Quiet (S.world p now) (S.node p) kind eff) : Genuine (S.apply p eff) := by
  have hkey : (S.apply p eff).nextKey = S.nextKey := by simp [System.apply, h.newKey]
  refine ⟨?_, ?_⟩
  · intro q
    rw [hkey]
    by_cases hq : q = p
    · subst hq
      rw [System.apply_node_self]
      exact h.below
    · rw [apply_node_of_ne hq]
      exact hg.node q
  · intro env henv
    rw [hkey]
    rcases List.mem_append.mp henv with henv | henv
    · exact hg.net env henv
    · exact (h.sent env henv).2.1

theorem Covered.begin (hg : Genuine S) (hc : Covered S)
    (hone : (S.node p).side.ownEpochs.length ≤ 1)
    (h : Node.act (S.world p now) (S.node p) .beginRotation = some eff) :
    Covered (S.apply p eff) := by
  have hsame : ∀ e e', ((S.node p).side.ownRow e).isSome = true →
      ((S.node p).side.ownRow e').isSome = true → e = e' := by
    intro e e' he he'
    rw [← mem_ownEpochs] at he he'
    cases hown : (S.node p).side.ownEpochs with
    | nil =>
      rw [hown] at he
      cases he
    | cons a l =>
      rw [hown, List.length_cons] at hone
      obtain rfl : l = [] := List.length_eq_zero_iff.mp (by omega)
      rw [hown, List.mem_singleton] at he he'
      rw [he, he']
  have hkeep : ∀ {q env}, q ≠ p → eff.sent = [] → InFlightData (S.apply p eff) q env →
      ∀ e r, ((S.apply p eff).node q).side.rotation e .rotating = some r → r.live = true →
        CoversPrior env.recipients q r := by
    rintro q env hq hsent ⟨hmem, hdata⟩ e r hr hl
    rw [apply_node_of_ne hq] at hr
    simp only [System.apply, hsent, List.append_nil] at hmem
    exact hc.prior q env ⟨hmem, hdata⟩ e r hr hl
  rcases act_begin h with ⟨epoch, prepare, prior, hb, -, hsent, -, -⟩ | ⟨hfile, -, hsent, -, -⟩
  · refine ⟨?_, ?_⟩
    · intro q
      by_cases hq : q = p
      · subst hq
        rw [System.apply_node_self]
        exact hb.ring (hc.ring q) hsame
      · rw [apply_node_of_ne hq]
        exact hc.ring q
    · intro q env henv e r hr hl
      by_cases hq : q = p
      · -- The key of the new rotation is fresh, so nothing wraps to it.
        subst hq
        rw [System.apply_node_self, hb.rotation] at hr
        obtain ⟨hmem, -⟩ := henv
        simp only [System.apply, hsent, List.append_nil] at hmem
        split_ifs at hr
        · cases hr
          intro hwrap
          exact absurd ((hg.net env hmem).wraps _ hwrap) (lt_irrefl _)
        · rw [inFlight_eq_none.mp hb.idle e _ r hr] at hl
          cases hl
      · exact hkeep hq hsent henv e r hr hl
  · have htame : Tame S.nextKey _ _ := hfile.tame
    refine ⟨?_, ?_⟩
    · intro q
      by_cases hq : q = p
      · subst hq
        rw [System.apply_node_self]
        exact htame.ring (hc.ring q)
      · rw [apply_node_of_ne hq]
        exact hc.ring q
    · intro q env henv e r hr hl
      by_cases hq : q = p
      · subst hq
        rw [System.apply_node_self] at hr
        obtain ⟨hmem, hdata⟩ := henv
        simp only [System.apply, hsent, List.append_nil] at hmem
        have hrot : (S.node q).side.rotation e .rotating = some r := by
          simpa [Keys.rotation, hfile.key_rotations] using hr
        exact hc.prior q env ⟨hmem, hdata⟩ e r hrot hl
      · exact hkeep hq hsent henv e r hr hl

theorem coversPrior_congr {recipients : List Wrap} {q : Party} {r r' : Rotation}
    (h : r'.origin = r.origin) (hc : CoversPrior recipients q r) : CoversPrior recipients q r' := by
  unfold CoversPrior at *
  rw [show r'.new_public_key = r.new_public_key from congrArg Origin.new_public_key h,
    show r'.prior_fingerprint = r.prior_fingerprint from congrArg Origin.prior_fingerprint h]
  exact hc

theorem Covered.quiet (hc : Covered S) {kind : Kind} (hseal : kind = .sendData → SealsForPeer S p)
    (h : Quiet (S.world p now) (S.node p) kind eff) : Covered (S.apply p eff) := by
  refine ⟨?_, ?_⟩
  · intro q
    by_cases hq : q = p
    · subst hq
      rw [System.apply_node_self]
      exact h.tame.ring (hc.ring q)
    · rw [apply_node_of_ne hq]
      exact hc.ring q
  · rintro q env ⟨hmem, hsender, hdata⟩ e r hr hl
    by_cases hq : q = p
    · subst hq
      rw [System.apply_node_self] at hr
      obtain ⟨r₀, hr₀, hl₀, ho⟩ := h.tame.live e r hr hl
      rcases List.mem_append.mp hmem with hmem | hmem
      · exact coversPrior_congr ho (hc.prior q env ⟨hmem, hsender, hdata⟩ e r₀ hr₀ hl₀)
      · -- What `q` sends is not addressed to `q`.
        have hself : q = q.other := by
          rw [← Party.identity_inj, ← hsender]
          exact (h.sent env hmem).1.symm
        exact absurd hself.symm (Party.other_ne q)
    · rw [apply_node_of_ne hq] at hr
      rcases List.mem_append.mp hmem with hmem | hmem
      · exact hc.prior q env ⟨hmem, hsender, hdata⟩ e r hr hl
      · obtain ⟨-, -, hrec, hkind⟩ := h.sent env hmem
        obtain rfl := (Party.eq_or_other p q).resolve_left hq
        obtain ⟨hrow, -, hrole⟩ := rotation_eq_some.mp hr
        refine hseal (hkind hdata) (env.recipients, env.key_epoch) ?_ r hrow hrole hl
        rw [show recipientsFor (S.node p).side p.other.identity = _ from hrec]
        rfl

end step

theorem genuine_of_reach {ok : System → Act → Prop} {S : System}
    (h : (System.machine Paired).Reach ok S) : Genuine S := by
  refine Machine.Reach.invariant (fun _ => Paired.genuine) ?_ h
  intro S a T hg _ hstep
  obtain ⟨eff, heff, rfl⟩ := System.step_eq_some.mp hstep
  by_cases hkind : a.kind = .beginRotation
  · rw [hkind] at heff
    exact hg.begin heff
  · exact hg.quiet (act_quiet (hg.node a.party) hg.net hkind heff)

theorem covered_of_reach {S : System} (h : (System.machine Paired).Reach InStep S) : Covered S := by
  have hboth : Genuine S ∧ Covered S := by
    refine Machine.Reach.invariant (P := fun S => Genuine S ∧ Covered S)
      (fun _ hS => ⟨Paired.genuine hS, Paired.covered hS⟩) ?_ h
    rintro S a T ⟨hg, hc⟩ hok hstep
    obtain ⟨eff, heff, rfl⟩ := System.step_eq_some.mp hstep
    by_cases hkind : a.kind = .beginRotation
    · rw [hkind] at heff
      have hone : (S.node a.party).side.ownEpochs.length ≤ 1 := by
        simpa only [InStep, hkind] using hok
      exact ⟨hg.begin heff, Covered.begin hg hc hone heff⟩
    · have hquiet := act_quiet (hg.node a.party) hg.net hkind heff
      refine ⟨hg.quiet hquiet, hc.quiet ?_ hquiet⟩
      intro hsend
      simpa only [InStep, hsend] using hok
  exact hboth.2

/-! ## The window covers the held keys -/

theorem countP_newer_le_one {k : Keys} (hring : Ring k) (hnodup : k.ownEpochs.Nodup)
    (he : e ∈ k.ownEpochs) : k.ownEpochs.countP (fun e' => decide (e < e')) ≤ 1 := by
  rw [List.countP_eq_length_filter]
  by_contra hmany
  have hfilter : (k.ownEpochs.filter (fun e' => decide (e < e'))).Nodup := hnodup.filter _
  have hnewer : ∀ e' ∈ k.ownEpochs.filter (fun e' => decide (e < e')),
      e < e' ∧ (k.ownRow e').isSome = true := by
    intro e' he'
    obtain ⟨hmem, hlt⟩ := List.mem_filter.mp he'
    exact ⟨by simpa using hlt, mem_ownEpochs.mp hmem⟩
  rw [mem_ownEpochs] at he
  match hl : k.ownEpochs.filter (fun e' => decide (e < e')) with
  | [] => simp [hl] at hmany
  | [_] => simp [hl] at hmany
  | a :: b :: l =>
    rw [hl] at hfilter hnewer
    obtain ⟨hea, ha⟩ := hnewer a (by simp)
    obtain ⟨heb, hb⟩ := hnewer b (by simp)
    have hne : a ≠ b := by
      intro heq
      simp [heq] at hfilter
    rcases Nat.lt_or_gt_of_ne hne with hab | hba
    · exact hring.two e a b he ha hb hea hab
    · exact hring.two e b a he hb ha heb hba

/-- In a ring, a held key is in the window, or it is the key of a rotation
in flight and the window holds the prior key. -/
theorem inWindow_or_live {s : Side} (hring : Ring s.toKeys) (he : e ∈ s.ownEpochs) :
    InWindow s e ∨ s.key_epoch ∈ s.ownEpochs ∧ s.key_epoch < e ∧
      ∃ r, s.rotation e .rotating = some r ∧ r.live = true := by
  unfold InWindow
  split_ifs with hcur
  · have hown := mem_ownEpochs.mp he
    have hown' := mem_ownEpochs.mp hcur
    by_cases hle : e ≤ s.key_epoch
    · refine Or.inl ⟨he, hle, ?_⟩
      rintro e' he' ⟨hlt, hlt'⟩
      exact hring.two e e' s.key_epoch hown (mem_ownEpochs.mp he') hown' hlt hlt'
    · refine Or.inr ⟨hcur, not_le.mp hle, ?_⟩
      rcases hring.current hown' with htop | ⟨n, r, hr, hl⟩
      · exact absurd (htop e hown) hle
      · -- The rotation in flight is for the newest own key, which is this one.
        have hen := hring.live_top n r hr hl e hown
        obtain ⟨row, hrow, -⟩ := hring.live_key n r hr hl
        rcases hen.eq_or_lt with rfl | hlt
        · exact ⟨r, hr, hl⟩
        · exact (hring.two _ _ _ hown' hown (Option.isSome_of_eq_some hrow)
            (not_le.mp hle) hlt).elim
  · exact Or.inl ⟨he, countP_newer_le_one hring (ownEpochs_nodup s) he⟩

theorem Covered.inWindow {S : System} (hc : Covered S) {p : Party} {env : Envelope Body}
    (henv : InFlightData S p env) (hheld : Held S p env) :
    ∃ e, InWindow (S.node p).side e ∧ Opens (S.node p).side p.identity env e := by
  obtain ⟨e, priv, hpriv, hwrap⟩ := hheld
  have hring := hc.ring p
  have he := mem_ownEpochs_of_privateKey hpriv
  rcases inWindow_or_live hring he with hwin | ⟨hcur, hlt, r, hr, hl⟩
  · exact ⟨e, hwin, priv, hpriv, hwrap⟩
  · -- The envelope wraps to the new key, so it wraps to the prior key, which is current.
    obtain ⟨row, hrow, hkey⟩ := hring.live_key e r hr hl
    obtain ⟨href, f, hf, hpub⟩ := hring.file e row hrow
    obtain rfl : f.key = priv := Option.some.inj ((privateKey_eq_some hrow href hf).symm.trans hpriv)
    have hnew : (⟨p.identity, r.new_public_key⟩ : Wrap) ∈ env.recipients := by
      rw [← hkey, ← hpub]
      exact hwrap
    obtain ⟨w, hw, hid, hfp⟩ := hc.prior p env henv e r hr hl hnew
    obtain ⟨old, hold⟩ := Option.isSome_iff_exists.mp (mem_ownEpochs.mp hcur)
    obtain ⟨href', f', hf', hpub'⟩ := hring.file _ old hold
    have hsame := hring.live_prior e r hr hl _ old hold hlt.ne
    rw [← hfp, agreementFingerprint_inj, ← hpub'] at hsame
    refine ⟨_, ?_, f'.key, privateKey_eq_some hold href' hf', ?_⟩
    · refine ⟨hcur, ?_⟩
      rw [if_pos hcur]
      exact ⟨le_rfl, fun e' _ h => absurd h.1 (not_lt_of_gt h.2)⟩
    · show (⟨p.identity, f'.key.publicKey⟩ : Wrap) ∈ env.recipients
      rw [hsame, ← hid]
      exact hw

/-- Which honest data envelopes `_try_unseal` opens.

In every reachable state, an envelope that a held key opens is opened if and
only if a held key of the window opens it.  In every run in which a side
begins a rotation only while it holds one own key and no data event is
sealed to an uncommitted new key alone, all of them are opened. -/
theorem tryUnseal_window {S : System} (hS : (System.machine Paired).Reachable S) {p : Party} {env : Envelope Body}
    (henv : InFlightData S p env) :
    ((Held S p env → Unseals S p env) ↔
      (Held S p env → ∃ e, InWindow (S.node p).side e ∧ Opens (S.node p).side p.identity env e)) ∧
    ((System.machine Paired).Reach InStep S → Held S p env → Unseals S p env) := by
  have hsigned := ((genuine_of_reach hS).net env henv.1).signed
  rw [Unseals, tryUnseal_ok_iff hsigned]
  exact ⟨Iff.rfl, fun hok hheld => (covered_of_reach hok).inWindow henv hheld⟩

/-! ## Two runs -/

/-- Both parties right after pairing. -/
def pairedStart : System where
  node p := { side := pairedSide ⟨p.identity⟩ ⟨p.other.identity⟩ }
  net := []
  nextEvent := 0
  nextKey := 2

theorem pairedStart_paired : Paired pairedStart := by
  refine ⟨rfl, fun p => ⟨p.identity⟩, ?_, fun p => rfl⟩
  intro p
  cases p <;> decide

/-- Alice rotates and Bob acknowledges; Alice opens a dual-wrapped data
event and confirms. -/
def confirmedRun : List Act :=
  [⟨.alice, 0, .beginRotation⟩, ⟨.alice, 0, .exec 0⟩, ⟨.bob, 0, .deliver 0⟩,
    ⟨.bob, 0, .redrive 0⟩, ⟨.bob, 0, .exec 0⟩, ⟨.bob, 0, .exec 0⟩, ⟨.alice, 0, .deliver 1⟩,
    ⟨.alice, 0, .redrive 1⟩, ⟨.alice, 0, .exec 0⟩, ⟨.bob, 0, .sendData⟩, ⟨.alice, 0, .deliver 2⟩,
    ⟨.alice, 0, .exec 0⟩, ⟨.alice, 0, .rotateConfirm⟩, ⟨.alice, 0, .exec 0⟩]

/-- Bob handles the confirm, sends the commit and executes `mark_committed`. -/
def committedRun : List Act :=
  confirmedRun ++ [⟨.bob, 0, .deliver 3⟩, ⟨.bob, 0, .redrive 3⟩, ⟨.bob, 0, .exec 0⟩,
    ⟨.bob, 0, .rotateCommit⟩, ⟨.bob, 0, .exec 0⟩]

/-- After an undisturbed rotation Alice opens what Bob seals to the new key. -/
theorem tryUnseal_window_rotated :
    ∃ S env, (System.machine Paired).Reach InStep S ∧ InFlightData S .alice env ∧
      env.recipients = [⟨0, PrivateKey.publicKey ⟨2⟩⟩] ∧ Held S .alice env ∧
      Unseals S .alice env := by
  have hrun : ∃ env : Envelope Body, ((System.machine Paired).run pairedStart
      (committedRun ++ [⟨.alice, 0, .deliver 4⟩, ⟨.alice, 0, .redrive 4⟩, ⟨.bob, 0, .sendData⟩])).map
      (fun S => (S.net[5]?, (S.node .alice).side.privateKey 2)) =
      some (some env, some ⟨2⟩) ∧ env.sender = 1 ∧ env.payload = .data 5 ∧
      env.recipients = [⟨0, PrivateKey.publicKey ⟨2⟩⟩] :=
    ⟨⟨5, 1, 0, 2, [⟨0, PrivateKey.publicKey ⟨2⟩⟩], 1, .data 5⟩, by decide +kernel, rfl, rfl, rfl⟩
  obtain ⟨env, hrun, hsender, hdata, hrec⟩ := hrun
  obtain ⟨S, hS, hview⟩ := Option.map_eq_some_iff.mp hrun
  have hok : (System.machine Paired).okRun InStep pairedStart
      (committedRun ++ [⟨.alice, 0, .deliver 4⟩, ⟨.alice, 0, .redrive 4⟩, ⟨.bob, 0, .sendData⟩]) := by
    decide +kernel
  have hreach := Machine.Reach.run (.start pairedStart_paired) hok hS
  obtain ⟨hnet, hkey⟩ := Prod.mk.inj hview
  have hflight : InFlightData S .alice env :=
    ⟨List.mem_of_getElem? hnet, hsender, by rw [hdata]; rfl⟩
  have hheld : Held S .alice env := by
    refine ⟨2, ⟨2⟩, hkey, ?_⟩
    rw [Envelope.WrappedTo, hrec]
    exact List.mem_singleton.mpr rfl
  exact ⟨S, env, hreach, hflight, hrec, hheld,
    (tryUnseal_window hreach.reachable hflight).2 hreach hheld⟩

/-- A data event that Bob seals after `mark_committed` overtakes the commit:
Alice holds the key it is wrapped to and does not open it. -/
theorem data_overtakes_commit :
    ¬ ∀ S, (System.machine Paired).Reachable S → ∀ p env, InFlightData S p env →
      Held S p env → Unseals S p env := by
  intro hall
  have hrun : ((System.machine Paired).run pairedStart (committedRun ++ [⟨.bob, 0, .sendData⟩])).map
      (fun S => (S.net[5]?, (S.node .alice).side.privateKey 2,
        (S.net[5]?).map (fun env => tryUnseal (S.node .alice).side env Party.alice.identity))) =
      some (some ⟨5, 1, 0, 2, [⟨0, PrivateKey.publicKey ⟨2⟩⟩], 1, .data 5⟩, some ⟨2⟩,
        some (.error .wrong_aad)) := by
    decide +kernel
  obtain ⟨S, hS, hview⟩ := Option.map_eq_some_iff.mp hrun
  have hreach := Machine.reachable_of_run pairedStart_paired hS
  obtain ⟨hnet, hkey, hunseal⟩ := Prod.mk.inj hview |>.imp id Prod.mk.inj
  have hopen := hall S hreach .alice _ ⟨List.mem_of_getElem? hnet, rfl, rfl⟩
    ⟨2, ⟨2⟩, hkey, List.mem_singleton.mpr rfl⟩
  unfold Unseals at hopen
  rw [hnet, Option.map_some, hopen] at hunseal
  cases hunseal

end MuseAgentSocial.Cli
