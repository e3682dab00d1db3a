import MuseAgentSocial.Cli.CommitKept

/-!
# Acks and the candidates they answer

An ack names the prepare event it answers, and a candidate row can record the
event that carried its key, so that `on_ack` compares the two.  `mas rotate
--prepare` begins the rotation before the event has an id and leaves the field
empty.  A restarted rotation takes the epoch number of the discarded attempt,
so the late ack of that attempt fits its row.

* `Closed` says that no ack of a prepare can come up any more, and
  `BeginsClosed p key` that the rotation of `p` to `key` begins when every
  prepare of `p` is closed.
* `Mail` is what holds of the relay and of both logs in every run, and `Bound`
  what holds of the prepares while the candidate is in flight.
* `ack_answers_candidate` is the result over runs, and `restartRun` is a run in
  which an ack of the discarded attempt acknowledges the next one.
-/

namespace MuseAgentSocial.Cli

open Model Crypto Policy RotationManager Keys

/-! ## Prepares and their acks -/

/-- The agreement key that a prepare carries. -/
def carriedKey : Body → Option AgreementKey
  | .prepare prepare => some prepare.new_agreement_key
  | _ => none

/-- The agreement key of a prepare that is still to be sent. -/
def Task.carries : Task → Option AgreementKey
  | .sendPrepare prepare => some prepare.new_agreement_key
  | _ => none

/-- The prepare event `prepare_event_id` of `p` carried `key`. -/
def Carried (S : System) (p : Party) (prepare_event_id : EventId) (key : AgreementKey) : Prop :=
  ∃ env ∈ S.net, env.sender = p.identity ∧ env.event_id = prepare_event_id ∧ carriedKey env.payload = some key

/-- An ack of the peer of `p` for a prepare event, on the relay. -/
def AckOf (p : Party) (prepare_event_id : EventId) (env : Envelope Body) : Prop :=
  env.sender = p.other.identity ∧ env.payload.acks prepare_event_id = true

/-- `p` has handled an object of the relay or consumed it. -/
def Handled (x : Node) (event_id : EventId) : Prop :=
  event_id ∈ x.side.rotation_processed_events ∨ event_id ∈ x.rejected

/-- No ack of a prepare event of `p` for an epoch can come up any more: the peer
consumed the event without storing it, or it answered and `p` has handled what
it answered for the epoch. -/
def Closed (S : System) (p : Party) (epoch : Nat) (prepare_event_id : EventId) : Prop :=
  prepare_event_id ∈ (S.node p.other).rejected ∨
    ((∃ env ∈ S.net, AckOf p prepare_event_id env) ∧
      ∀ env ∈ S.net, env.sender = p.other.identity → env.payload = .ack ⟨epoch, prepare_event_id⟩ →
        Handled (S.node p) env.event_id)

/-- Every prepare of `p` is closed for an epoch, and none is still to be sent. -/
def NoneOpen (S : System) (p : Party) (epoch : Nat) : Prop :=
  (∀ task ∈ (S.node p).tasks, task.carries = none) ∧
    ∀ env ∈ S.net, env.sender = p.identity → carriedKey env.payload ≠ none → Closed S p epoch env.event_id

/-- The rotation of `p` to `key` begins when every earlier prepare is closed for
its epoch. -/
def BeginsClosed (p : Party) (key : AgreementKey) (S : System) (a : Act) : Prop :=
  a.party = p → a.kind = .beginRotation → key = PrivateKey.publicKey ⟨S.nextKey⟩ →
    NoneOpen S p ((S.node p).side.currentEpoch + 1)

instance (S : System) (p : Party) (id : EventId) (key : AgreementKey) : Decidable (Carried S p id key) :=
  inferInstanceAs (Decidable (∃ _ ∈ _, _))

instance (p : Party) (id : EventId) (env : Envelope Body) : Decidable (AckOf p id env) :=
  inferInstanceAs (Decidable (_ ∧ _))

instance (x : Node) (id : EventId) : Decidable (Handled x id) := inferInstanceAs (Decidable (_ ∨ _))

instance (S : System) (p : Party) (epoch : Nat) (id : EventId) : Decidable (Closed S p epoch id) :=
  inferInstanceAs (Decidable (_ ∨ (∃ _ ∈ _, _) ∧ ∀ _ ∈ _, _))

instance (S : System) (p : Party) (epoch : Nat) : Decidable (NoneOpen S p epoch) :=
  inferInstanceAs (Decidable ((∀ _ ∈ _, _) ∧ ∀ _ ∈ _, _))

instance (p : Party) (key : AgreementKey) (S : System) (a : Act) : Decidable (BeginsClosed p key S a) :=
  inferInstanceAs (Decidable (_ → _ → _ → _))

/-! ## What a send leaves behind -/

section sent

variable {w : World} {x : Node} {kind : Kind}

/-- What was sent is stored by its sender, and an ack is the first for its prepare. -/
def StoresSent (w : World) (x : Node) (eff : Effect) : Prop :=
  ∀ env ∈ eff.sent,
    (∃ ev, eff.node.side.events.find env.event_id = some ev ∧ ev.sender = w.me.identity ∧ ev.body = env.payload) ∧
    ∀ ack, env.payload = .ack ack → ackAlreadySent x.side w.me.identity ack.prepare_event_id = false

theorem storesSent_send {tasks rest : List Task} {failed : Raised → List Task} {body : Body}
    (hack : ∀ ack, body = .ack ack → ackAlreadySent x.side w.me.identity ack.prepare_event_id = false) :
    StoresSent w x (Node.send w { x with tasks := tasks } body rest failed) := by
  intro env henv
  unfold Node.send at henv ⊢
  split at henv
  · rename_i side env' hsend
    obtain ⟨recipients, key_epoch, -, rfl, -, -, hevents⟩ := sendEvent_ok hsend
    obtain rfl := List.mem_singleton.mp henv
    exact ⟨⟨_, (hevents w.nextEvent).trans (if_pos rfl), rfl, rfl⟩, hack⟩
  · cases henv

theorem storesSent_act {eff : Effect} (h : Node.act w x kind = some eff) : StoresSent w x eff := by
  have hnone : ∀ {y : Node} {newKey : Bool}, StoresSent w x { node := y, newKey := newKey } :=
    fun _ henv => absurd henv List.not_mem_nil
  cases kind with
  | beginRotation =>
    simp only [Node.act] at h
    split at h <;> cases h <;> exact hnone
  | exec i =>
    obtain ⟨task, -, rfl⟩ := Option.map_eq_some_iff.mp h
    cases task with
    | sendPrepare prepare => exact storesSent_send (by simp)
    | sendAck ack mark =>
      simp only [Node.exec]
      split_ifs with hsent
      · exact hnone
      · refine storesSent_send (fun ack' heq => ?_)
        cases heq
        exact Bool.eq_false_iff.mpr hsent
    | markConfirmed => exact hnone
    | markCommitted epoch => exact hnone
    | markProcessed id => exact hnone
    | dataHooks ev => exact hnone
  | drop i =>
    simp only [Node.act] at h
    split_ifs at h
    cases h
    exact hnone
  | sendData =>
    cases h
    exact storesSent_send (by simp)
  | rotateConfirm =>
    simp only [Node.act] at h
    split at h
    · cases h
      exact storesSent_send (by simp)
    · cases h
  | rotateCommit =>
    simp only [Node.act] at h
    split at h
    · cases h
      exact storesSent_send (by simp)
    · cases h
  | rotateAck id =>
    obtain ⟨⟨ev, prepare⟩, -, rfl⟩ := Option.map_eq_some_iff.mp h
    dsimp only
    split <;> exact hnone
  | deliver i jump =>
    simp only [Node.act] at h
    split at h
    · split_ifs at h
      cases h
      unfold Node.receive
      split <;> exact hnone
    · cases h
  | redrive id =>
    simp only [Node.act] at h
    split_ifs at h
    obtain ⟨ev, -, rfl⟩ := Option.map_eq_some_iff.mp h
    exact hnone
  | sweepCompact =>
    cases h
    exact hnone
  | sweepTimeout =>
    cases h
    exact hnone
  | sweepRetire epoch =>
    obtain ⟨row, -, rfl⟩ := Option.map_eq_some_iff.mp h
    exact hnone

end sent

/-! ## The mail -/

/-- A prepare of the peer is stored at `p`. -/
def Prepared (S : System) (p : Party) (prepare_event_id : EventId) : Prop :=
  ∃ ev, (S.node p).side.events.find prepare_event_id = some ev ∧ ev.sender ≠ p.identity ∧
    carriedKey ev.body ≠ none

/-- What holds of the relay, of both logs and of the answers under way. -/
structure Mail (S : System) : Prop where
  ids : ∀ env ∈ S.net, env.event_id < S.nextEvent
  senders : ∀ env ∈ S.net, ∃ p : Party, env.sender = p.identity
  rejected : ∀ p i, i ∈ (S.node p).rejected → i < S.nextEvent ∧ (S.node p).side.events.find i = none
  relayed : ∀ p i ev, (S.node p).side.events.find i = some ev →
    ∃ env ∈ S.net, env.event_id = i ∧ env.sender = ev.sender ∧ env.payload = ev.body
  stored : ∀ p, ∀ env ∈ S.net, env.sender = p.identity →
    ∃ ev, (S.node p).side.events.find env.event_id = some ev ∧ ev.sender = p.identity ∧ ev.body = env.payload
  acks : ∀ p, ∀ env ∈ S.net, env.sender = p.identity → ∀ ack, env.payload = .ack ack →
    Prepared S p ack.prepare_event_id
  replies : ∀ p ack mark, Task.sendAck ack mark ∈ (S.node p).tasks → Prepared S p ack.prepare_event_id
  hooks : ∀ p ev, Task.dataHooks ev ∈ (S.node p).tasks → ev.body.isRotation = false

variable {s : Side} {epoch : Nat} {key : AgreementKey}

section mail

variable {S : System} {p : Party} {now : Nat} {kind : Kind} {eff : Effect}

theorem Mail.of_paired (h : Paired S) : Mail S := by
  obtain ⟨hnet, key, -, hnode⟩ := h
  have hempty : ∀ env ∈ S.net, False := by simp [hnet]
  refine ⟨fun env henv => (hempty env henv).elim, fun env henv => (hempty env henv).elim, ?_, ?_,
    fun _ env henv => (hempty env henv).elim, fun _ env henv => (hempty env henv).elim, ?_, ?_⟩
  · intro p i hi
    rw [hnode p] at hi
    cases hi
  · intro p i ev hev
    rw [hnode p] at hev
    cases hev
  · intro p ack mark htask
    rw [hnode p] at htask
    cases htask
  · intro p ev htask
    rw [hnode p] at htask
    cases htask

/-- What is stored stays stored. -/
theorem Prepared.apply {q : Party} {id : EventId} (h : Prepared S q id)
    (hkept : ∀ i ev, (S.node p).side.events.find i = some ev → eff.node.side.events.find i = some ev) :
    Prepared (S.apply p eff) q id := by
  obtain ⟨ev, hev, hsender, hkey⟩ := h
  refine ⟨ev, ?_, hsender, hkey⟩
  by_cases hq : q = p
  · subst hq
    rw [System.apply_node_self]
    exact hkept id ev hev
  · rw [apply_node_of_ne hq]
    exact hev

theorem find_of_rejected {me peer : IdentityId} {env : Envelope Body} {jump : Nat}
    {code : RejectCode} (hsender : env.sender = peer)
    (h : (receiveObject s me peer env jump now).2 = .rejected code) :
    s.events.find env.event_id = none := by
  unfold receiveObject at h
  rw [if_neg (not_not.mpr hsender)] at h
  split at h
  · cases h
  · rename_i hnew
    exact Option.not_isSome_iff_eq_none.mp hnew

theorem Mail.consumed (h : Mail S) (hstep : LogStep (S.world p now) (S.node p) kind eff)
    (hact : Node.act (S.world p now) (S.node p) kind = some eff) {i : EventId} (hi : i ∈ eff.node.rejected) :
    i < S.nextEvent ∧ eff.node.side.events.find i = none := by
  rcases hstep.rejected i hi with hold | ⟨n, jump, env, code, rfl, henv, rfl, hcode⟩
  · obtain ⟨hlt, hnone⟩ := h.rejected p i hold
    refine ⟨hlt, Option.eq_none_iff_forall_not_mem.mpr (fun ev hev => ?_)⟩
    rcases hstep.events i ev hev with hfind | ⟨env, henv, hid, -⟩ | ⟨env, -, hid, -, -, -, -, hfresh⟩
    · rw [hnone] at hfind
      cases hfind
    · rw [← hid, (hstep.sent env henv).1] at hlt
      exact lt_irrefl _ hlt
    · exact hfresh hold
  · refine ⟨h.ids env (List.mem_of_getElem? henv), ?_⟩
    have hnet : (S.world p now).net[n]? = some env := henv
    simp only [Node.act, hnet] at hact
    split_ifs at hact with hok
    cases hact
    have hnone := find_of_rejected hok.1 hcode
    obtain ⟨-, -, hevents⟩ :=
      receiveObject_cases (S.node p).side p.identity p.other.identity env jump now
    -- The rejected branch of the receive keeps the log.
    cases hout : receiveObject (S.node p).side p.identity p.other.identity env jump now with
    | mk side outcome =>
      have hrejected : outcome = .rejected code := by
        rw [← hcode]
        exact (congrArg Prod.snd hout).symm
      subst hrejected
      rw [hout] at hevents
      have hsame : side.events = (S.node p).side.events := hevents.resolve_right (fun h => by cases h.1)
      simp only [Node.receive, System.world, hout]
      rw [hsame]
      exact hnone

theorem Mail.step (h : Mail S) (hstep : LogStep (S.world p now) (S.node p) kind eff)
    (hact : Node.act (S.world p now) (S.node p) kind = some eff) : Mail (S.apply p eff) := by
  have hstores := storesSent_act hact
  have hsent : ∀ env ∈ eff.sent, env.event_id = S.nextEvent ∧ env.sender = p.identity :=
    fun env henv => ⟨(hstep.sent env henv).1, (hstep.sent env henv).2.1⟩
  have hlength : ∀ env ∈ eff.sent, eff.sent.length = 1 := fun env henv =>
    le_antisymm hstep.sent_one (List.length_pos_of_mem henv)
  refine ⟨?_, ?_, ?_, ?_, ?_, ?_, ?_, ?_⟩
  · intro env henv
    show env.event_id < S.nextEvent + eff.sent.length
    rcases List.mem_append.mp henv with henv | henv
    · exact Nat.lt_add_right _ (h.ids env henv)
    · rw [(hsent env henv).1, hlength env henv]
      exact Nat.lt_succ_self _
  · intro env henv
    rcases List.mem_append.mp henv with henv | henv
    · exact h.senders env henv
    · exact ⟨p, (hsent env henv).2⟩
  · intro q i hi
    show i < S.nextEvent + eff.sent.length ∧ _
    by_cases hq : q = p
    · subst hq
      rw [System.apply_node_self] at hi ⊢
      exact (h.consumed hstep hact hi).imp_left (Nat.lt_add_right _)
    · rw [apply_node_of_ne hq] at hi ⊢
      exact (h.rejected q i hi).imp_left (Nat.lt_add_right _)
  · intro q i ev hev
    by_cases hq : q = p
    · subst hq
      rw [System.apply_node_self] at hev
      rcases hstep.events i ev hev with hold | ⟨env, henv, hrest⟩ | ⟨env, henv, hid, hsender, hbody, -⟩
      · obtain ⟨env, henv, hrest⟩ := h.relayed q i ev hold
        exact ⟨env, List.mem_append_left _ henv, hrest⟩
      · exact ⟨env, List.mem_append_right _ henv, hrest⟩
      · exact ⟨env, List.mem_append_left _ henv, hid, hsender, hbody⟩
    · rw [apply_node_of_ne hq] at hev
      obtain ⟨env, henv, hrest⟩ := h.relayed q i ev hev
      exact ⟨env, List.mem_append_left _ henv, hrest⟩
  · intro q env henv hsender
    by_cases hq : q = p
    · subst hq
      rw [System.apply_node_self]
      rcases List.mem_append.mp henv with henv | henv
      · obtain ⟨ev, hev, hrest⟩ := h.stored q env henv hsender
        exact ⟨ev, hstep.events_kept _ ev hev, hrest⟩
      · exact (hstores env henv).1
    · rw [apply_node_of_ne hq]
      rcases List.mem_append.mp henv with henv | henv
      · exact h.stored q env henv hsender
      · exact absurd (Party.identity_inj.mp (hsender.symm.trans (hsent env henv).2)) hq
  · intro q env henv hsender ack hbody
    rcases List.mem_append.mp henv with hold | hnew
    · exact (h.acks q env hold hsender ack hbody).apply hstep.events_kept
    · obtain rfl : q = p := Party.identity_inj.mp (hsender.symm.trans (hsent env hnew).2)
      obtain ⟨-, -, -, hfor, -⟩ := hstep.sent env hnew
      rw [hbody] at hfor
      obtain ⟨mark, htask⟩ := hfor
      exact (h.replies q ack mark htask).apply hstep.events_kept
  · intro q ack mark htask
    by_cases hq : q = p
    · subst hq
      rw [System.apply_node_self] at htask
      rcases hstep.tasks _ htask with hold | ⟨ev, prepare, hev, hbody, -⟩
      · exact (h.replies q ack mark hold).apply hstep.events_kept
      · obtain ⟨hfind, -, hsender⟩ := rotationEvent_eq_some.mp hev
        have hprepared : Prepared S q ack.prepare_event_id := ⟨ev, hfind, hsender, by simp [hbody, carriedKey]⟩
        exact hprepared.apply hstep.events_kept
    · rw [apply_node_of_ne hq] at htask
      exact (h.replies q ack mark htask).apply hstep.events_kept
  · intro q ev htask
    by_cases hq : q = p
    · subst hq
      rw [System.apply_node_self] at htask
      exact (hstep.tasks _ htask).elim (h.hooks q ev) (fun hleft => hleft.1)
    · rw [apply_node_of_ne hq] at htask
      exact h.hooks q ev htask

/-- A step that sends nothing and adds no answer leaves the mail alone. -/
theorem Mail.silent (h : Mail S) (hsent : eff.sent = []) (hevents : eff.node.side.events = (S.node p).side.events)
    (hrejected : eff.node.rejected = (S.node p).rejected)
    (htasks : ∀ task ∈ eff.node.tasks, task ∈ (S.node p).tasks ∨ ∃ prepare, task = .sendPrepare prepare) :
    Mail (S.apply p eff) := by
  have hnet : (S.apply p eff).net = S.net := by simp [System.apply, hsent]
  have hnext : (S.apply p eff).nextEvent = S.nextEvent := by simp [System.apply, hsent]
  have hlog : ∀ q, ((S.apply p eff).node q).side.events = (S.node q).side.events ∧
      ((S.apply p eff).node q).rejected = (S.node q).rejected := by
    intro q
    by_cases hq : q = p
    · subst hq
      rw [System.apply_node_self]
      exact ⟨hevents, hrejected⟩
    · rw [apply_node_of_ne hq]
      exact ⟨rfl, rfl⟩
  have hold : ∀ q task, task ∈ ((S.apply p eff).node q).tasks →
      task ∈ (S.node q).tasks ∨ ∃ prepare, task = .sendPrepare prepare := by
    intro q task htask
    by_cases hq : q = p
    · subst hq
      rw [System.apply_node_self] at htask
      exact htasks task htask
    · rw [apply_node_of_ne hq] at htask
      exact Or.inl htask
  have hprepared : ∀ {q id}, Prepared S q id → Prepared (S.apply p eff) q id := by
    rintro q id ⟨ev, hev, hrest⟩
    exact ⟨ev, by rw [(hlog q).1]; exact hev, hrest⟩
  refine ⟨by rw [hnet, hnext]; exact h.ids, by rw [hnet]; exact h.senders, ?_, ?_, ?_, ?_, ?_, ?_⟩
  · intro q i hi
    rw [(hlog q).2] at hi
    rw [(hlog q).1, hnext]
    exact h.rejected q i hi
  · intro q i ev hev
    rw [(hlog q).1] at hev
    rw [hnet]
    exact h.relayed q i ev hev
  · intro q env henv hsender
    rw [hnet] at henv
    rw [(hlog q).1]
    exact h.stored q env henv hsender
  · intro q env henv hsender ack hbody
    rw [hnet] at henv
    exact hprepared (h.acks q env henv hsender ack hbody)
  · intro q ack mark htask
    rcases hold q _ htask with htask | ⟨prepare, heq⟩
    · exact hprepared (h.replies q ack mark htask)
    · cases heq
  · intro q ev htask
    rcases hold q _ htask with htask | ⟨prepare, heq⟩
    · exact h.hooks q ev htask
    · cases heq

end mail

/-! ## Closed prepares stay closed -/

section closed

variable {S : System} {p q : Party} {now : Nat} {kind : Kind} {eff : Effect}

/-- What a party handled or consumed stays so. -/
structure Keeps (x y : Node) : Prop where
  processed : ∀ i, i ∈ x.side.rotation_processed_events → i ∈ y.side.rotation_processed_events
  rejected : ∀ i, i ∈ x.rejected → i ∈ y.rejected

theorem LogStep.keeps {w : World} {x : Node} (h : LogStep w x kind eff) : Keeps x eff.node :=
  ⟨h.processed_kept, h.rejected_kept⟩

theorem Keeps.apply (h : Keeps (S.node q) eff.node) (p : Party) : Keeps (S.node p) ((S.apply q eff).node p) := by
  by_cases hp : p = q
  · subst hp
    rw [System.apply_node_self]
    exact h
  · rw [apply_node_of_ne hp]
    exact ⟨fun _ hi => hi, fun _ hi => hi⟩

theorem Closed.apply {id : EventId} (h : Closed S p epoch id) (hmail : Mail S)
    (hkeeps : Keeps (S.node q) eff.node) (hstores : StoresSent (S.world q now) (S.node q) eff)
    (hsent : ∀ env ∈ eff.sent, env.sender = q.identity) : Closed (S.apply q eff) p epoch id := by
  rcases h with hconsumed | ⟨⟨answer, hanswer, hfrom, hfor⟩, hhandled⟩
  · exact Or.inl ((hkeeps.apply p.other).rejected id hconsumed)
  · refine Or.inr ⟨⟨answer, List.mem_append_left _ hanswer, hfrom, hfor⟩, fun env henv hsender hbody => ?_⟩
    rcases List.mem_append.mp henv with hold | hnew
    · exact (hhandled env hold hsender hbody).imp ((hkeeps.apply p).processed _) ((hkeeps.apply p).rejected _)
    · -- The peer has answered already, so it does not answer again.
      obtain rfl : p.other = q := Party.identity_inj.mp (hsender.symm.trans (hsent env hnew))
      obtain ⟨ev, hev, hev_sender, hev_body⟩ := hmail.stored _ answer hanswer hfrom
      have hunsent := (hstores env hnew).2 _ hbody
      have hstored : ackAlreadySent (S.node p.other).side p.other.identity id = true := by
        refine List.any_eq_true.mpr ⟨ev, (Table.find_eq_some.mp hev).1, ?_⟩
        rw [decide_eq_true_eq, hev_body]
        exact ⟨hev_sender, hfor⟩
      rw [show ackAlreadySent (S.node p.other).side p.other.identity id = false from hunsent] at hstored
      cases hstored

/-- `begin_rotation` touches neither the log nor the relay. -/
theorem Mail.begin (h : Mail S) (hact : Node.act (S.world p now) (S.node p) .beginRotation = some eff) :
    Mail (S.apply p eff) ∧ Keeps (S.node p) eff.node ∧ eff.sent = [] := by
  rcases act_begin hact with ⟨epoch, prepare, prior, hb, -, hsent, hrejected, htasks⟩ |
    ⟨hfile, -, hsent, hrejected, htasks⟩
  · refine ⟨h.silent hsent hb.events hrejected (fun task htask => ?_),
      ⟨fun i hi => by rw [hb.processed]; exact hi, fun i hi => by rw [hrejected]; exact hi⟩, hsent⟩
    rw [htasks] at htask
    exact (List.mem_append.mp htask).imp_right (fun htask => ⟨prepare, List.mem_singleton.mp htask⟩)
  · refine ⟨h.silent hsent hfile.events hrejected (fun task htask => Or.inl (htasks ▸ htask)),
      ⟨fun i hi => by rw [hfile.processed]; exact hi, fun i hi => by rw [hrejected]; exact hi⟩, hsent⟩

/-- While the candidate is in flight every other prepare of `p` is closed. -/
def Bound (p : Party) (key : AgreementKey) (S : System) : Prop :=
  ∀ e r, (S.node p).side.rotation e .rotating = some r → r.live = true → r.new_public_key = key →
    (∀ task ∈ (S.node p).tasks, task.carries = none ∨ task.carries = some key) ∧
    ∀ env ∈ S.net, env.sender = p.identity →
      carriedKey env.payload = none ∨ carriedKey env.payload = some key ∨ Closed S p e env.event_id

theorem Bound.begin (h : Bound p key S) (hmail : Mail S)
    (hok : key = PrivateKey.publicKey ⟨S.nextKey⟩ → NoneOpen S p ((S.node p).side.currentEpoch + 1))
    (hact : Node.act (S.world p now) (S.node p) .beginRotation = some eff) : Bound p key (S.apply p eff) := by
  obtain ⟨-, hkeeps, hsent⟩ := hmail.begin hact
  have happly : ∀ {epoch id}, Closed S p epoch id → Closed (S.apply p eff) p epoch id :=
    fun h => h.apply hmail hkeeps (storesSent_act hact) (by simp [hsent])
  intro e r hr hl hkey
  rw [System.apply_node_self] at hr
  rcases act_begin hact with ⟨epoch, prepare, prior, hb, -, -, -, htasks⟩ | ⟨hfile, -, -, -, htasks⟩
  · rw [hb.rotation] at hr
    split_ifs at hr with heq
    · obtain rfl := Option.some.inj hr
      obtain ⟨rfl, -⟩ := Prod.mk.inj heq
      obtain ⟨hunsent, hclosed⟩ := hok hkey.symm
      rw [← hb.epoch_eq] at hclosed
      constructor
      · intro task htask
        rw [System.apply_node_self, htasks] at htask
        rcases List.mem_append.mp htask with htask | htask
        · exact Or.inl (hunsent task htask)
        · refine Or.inr ?_
          rw [List.mem_singleton.mp htask, ← hkey, Task.carries, hb.prepare_eq]
          rfl
      · intro env henv hsender
        simp only [System.apply, hsent, List.append_nil] at henv
        by_cases hnone : carriedKey env.payload = none
        · exact Or.inl hnone
        · exact Or.inr (Or.inr (happly (hclosed env henv hsender hnone)))
    · rw [inFlight_eq_none.mp hb.idle e _ r hr] at hl
      cases hl
  · rw [Keys.rotation, hfile.key_rotations] at hr
    obtain ⟨htask, hclosed⟩ := h e r hr hl hkey
    refine ⟨by rw [System.apply_node_self, htasks]; exact htask, fun env henv hsender => ?_⟩
    simp only [System.apply, hsent, List.append_nil] at henv
    exact (hclosed env henv hsender).imp_right (Or.imp_right happly)

theorem Bound.peer (h : Bound p key S) (hq : q ≠ p) (hmail : Mail S)
    (hkeeps : Keeps (S.node q) eff.node) (hstores : StoresSent (S.world q now) (S.node q) eff)
    (hsent : ∀ env ∈ eff.sent, env.sender = q.identity) : Bound p key (S.apply q eff) := by
  have hnode : (S.apply q eff).node p = S.node p := apply_node_of_ne (Ne.symm hq) eff
  intro e r hr hl hkey
  rw [hnode] at hr
  obtain ⟨htask, hclosed⟩ := h e r hr hl hkey
  refine ⟨by rw [hnode]; exact htask, fun env henv hsender => ?_⟩
  rcases List.mem_append.mp henv with hold | hnew
  · exact (hclosed env hold hsender).imp_right (Or.imp_right (fun h => h.apply hmail hkeeps hstores hsent))
  · exact absurd (Party.identity_inj.mp ((hsent env hnew).symm.trans hsender)) hq

theorem Bound.act (h : Bound p key S) (hmail : Mail S)
    (hlive : LiveFrom (S.node p).side.toKeys eff.node.side.toKeys)
    (hstep : LogStep (S.world p now) (S.node p) kind eff)
    (hact : Node.act (S.world p now) (S.node p) kind = some eff) : Bound p key (S.apply p eff) := by
  intro e r' hr' hl' hkey
  rw [System.apply_node_self] at hr'
  obtain ⟨r, hr, hl, horigin⟩ := hlive e r' hr' hl'
  obtain ⟨htask, hclosed⟩ := h e r hr hl ((congrArg Origin.new_public_key horigin).symm.trans hkey)
  constructor
  · intro task htask'
    rw [System.apply_node_self] at htask'
    rcases hstep.tasks task htask' with hold | hleft
    · exact htask task hold
    · cases task with
      | sendPrepare prepare => exact hleft.elim
      | _ => exact Or.inl rfl
  · intro env henv hsender
    rcases List.mem_append.mp henv with hold | hnew
    · exact (hclosed env hold hsender).imp_right (Or.imp_right (fun h =>
        h.apply hmail hstep.keeps (storesSent_act hact) (fun env henv => (hstep.sent env henv).2.1)))
    · obtain ⟨-, -, -, hfor, -⟩ := hstep.sent env hnew
      cases hbody : env.payload with
      | prepare prepare =>
        rw [hbody] at hfor
        exact (htask _ hfor).elim (fun hnone => by cases hnone) (fun hcarries => Or.inr (Or.inl hcarries))
      | _ => exact Or.inl rfl

end closed

/-! ## Only an ack acknowledges -/

section acknowledges

variable {k k' : Keys} {e : Nat} {r r' : Rotation}

/-- `e` has a candidate in `k` that is acknowledged in `k'`. -/
def Acknowledges (k k' : Keys) (e : Nat) : Prop :=
  ∃ r r', k.rotation e .rotating = some r ∧ r.phase = .candidate ∧ k'.rotation e .rotating = some r' ∧
    r'.phase = .acknowledged

/-- A row that is left as it was is not acknowledged. -/
theorem not_acknowledges_of_back (h : ∀ r', k'.rotation e .rotating = some r' → r'.phase = .acknowledged →
    k.rotation e .rotating = some r') : ¬ Acknowledges k k' e := by
  rintro ⟨r, r', hr, hcandidate, hr', hacked⟩
  obtain rfl := Option.some.inj (hr.symm.trans (h r' hr' hacked))
  rw [hcandidate] at hacked
  cases hacked

theorem not_acknowledges_of_evolves {allowed : Nat → Role → Phase → Phase → Prop} (h : Evolves allowed k k')
    (hmove : ¬ allowed e .rotating .candidate .acknowledged) : ¬ Acknowledges k k' e := by
  rintro ⟨r, r', hr, hcandidate, hr', hacked⟩
  obtain ⟨r₀, hr₀, -, hphase⟩ := h.back e _ r' hr'
  obtain rfl := Option.some.inj (hr.symm.trans hr₀)
  rw [hcandidate, hacked] at hphase
  exact hphase.elim (fun heq => by cases heq) hmove

theorem not_acknowledges_of_commits {s' : Side} {role : Role} {r₀ r₁ : Rotation}
    (h : CommitsRow s epoch role r₀ r₁ s') : ¬ Acknowledges s.toKeys s'.toKeys e := by
  refine not_acknowledges_of_back (fun r' hr' hacked => ?_)
  rw [h.rotation] at hr'
  split_ifs at hr'
  · obtain rfl := Option.some.inj hr'
    rw [h.committed] at hacked
    cases hacked
  · exact hr'

theorem onPrepare_acknowledges (s : Side) (prepare : Prepare) (id : EventId) (now : Nat) :
    ¬ Acknowledges s.toKeys (onPrepare s prepare id now).1.toKeys e := by
  refine not_acknowledges_of_back (fun r' hr' _ => ?_)
  rcases onPrepare_cases s prepare id now with ⟨hsame, -⟩ | ⟨prior, -, hack⟩
  · rw [hsame] at hr'
    exact hr'
  · rw [hack.rotation, if_neg (by simp)] at hr'
    exact hr'

theorem postReceiveHooks_acknowledges {ev : StoredEvent} {now : Nat}
    (h : Acknowledges s.toKeys (postReceiveHooks s ev now).1.toKeys e) : ∃ ack, ev.body = .ack ack ∧ ack.epoch = e := by
  obtain ⟨id, sender, created_at, key_epoch, body⟩ := ev
  cases body with
  | prepare prepare => exact absurd h (onPrepare_acknowledges s prepare id now)
  | ack ack =>
    refine ⟨ack, rfl, ?_⟩
    by_contra hne
    exact not_acknowledges_of_evolves (onAck_evolves s ack now) (fun hmove => hne hmove.1.symm) h
  | confirm epoch => exact absurd h (not_acknowledges_of_evolves (onConfirm_evolves s epoch now) (by simp [onConfirmMove]))
  | commit epoch =>
    rcases onCommit_cases s epoch now with hsame | ⟨r₀, r₁, hcommits, -⟩
    · exact absurd h (not_acknowledges_of_back (fun r' hr' _ => by
        rw [show (postReceiveHooks s ⟨id, sender, created_at, key_epoch, .commit epoch⟩ now).1 = s from hsame] at hr'
        exact hr'))
    · exact absurd h (not_acknowledges_of_commits hcommits)
  | data content =>
    refine absurd h (not_acknowledges_of_evolves
      ((noteDecryptedNewWrap_evolves s key_epoch now).trans_noMove (noteAcceptedEvent_evolves _)) ?_)
    simp [noMove]

theorem SideStep.acknowledges {w : World} {x : Node} {kind : Kind} {s' : Side} (hstep : SideStep w x kind s')
    (hkind : kind ≠ .beginRotation)
    (hdata : ∀ ev, Task.dataHooks ev ∈ x.tasks → ev.body.isRotation = false)
    (h : Acknowledges x.side.toKeys s'.toKeys e) :
    ∃ id ev ack, kind = .redrive id ∧ id ∉ x.side.rotation_processed_events ∧
      Node.rotationEvent w x id = some ev ∧ ev.body = .ack ack ∧ ack.epoch = e := by
  cases hstep with
  | begun => exact absurd rfl hkind
  | logged hs =>
    rw [hs] at h
    exact absurd h (not_acknowledges_of_back (fun _ hr' _ => hr'))
  | received =>
    rw [(receiveObject_cases x.side _ _ _ _ w.now).1] at h
    exact absurd h (not_acknowledges_of_back (fun _ hr' _ => hr'))
  | markConfirmed =>
    exact absurd h (not_acknowledges_of_evolves (markConfirmed_evolves x.side w.now) (by simp [confirmMove]))
  | markCommitted _ =>
    rcases markCommitted_cases x.side w.now with hsame | ⟨r₀, r₁, hcommits, -⟩
    · rw [hsame] at h
      exact absurd h (not_acknowledges_of_back (fun _ hr' _ => hr'))
    · exact absurd h (not_acknowledges_of_commits hcommits)
  | dataHooks htask =>
    obtain ⟨ack, hbody, -⟩ := postReceiveHooks_acknowledges h
    have hrotation := hdata _ htask
    rw [hbody] at hrotation
    cases hrotation
  | prepare _ _ => exact absurd h (onPrepare_acknowledges _ _ _ _)
  | hooks hnew hev =>
    obtain ⟨ack, hbody, hepoch⟩ := postReceiveHooks_acknowledges h
    exact ⟨_, _, ack, rfl, hnew, hev, hbody, hepoch⟩
  | sweepCompact =>
    refine absurd h (not_acknowledges_of_back (fun r' hr' _ => ?_))
    rcases sweepCompact_cases x.side w.now with hsame | ⟨-, -, -, -, hrots⟩
    · rw [hsame] at hr'
      exact hr'
    · rw [hrots] at hr'
      exact (Option.filter_eq_some_iff.mp hr').1
  | sweepTimeout =>
    refine absurd h (not_acknowledges_of_back (fun r' hr' hacked => ?_))
    rcases sweepTimeout_cases x.side w.now with hsame | ⟨r, -, -, -, hrots⟩
    · rw [hsame] at hr'
      exact hr'
    · rw [hrots] at hr'
      split_ifs at hr'
      · obtain rfl := Option.some.inj hr'
        cases hacked
      · exact hr'
  | sweepRetire _ _ =>
    refine absurd h (not_acknowledges_of_back (fun r' hr' _ => ?_))
    rcases sweepRetire_cases x.side _ w.now with hsame | ⟨-, -, hrots⟩
    · rw [hsame] at hr'
      exact hr'
    · rw [hrots] at hr'
      split_ifs at hr'
      · exact (Option.filter_eq_some_iff.mp hr').1
      · exact hr'

end acknowledges

/-! ## Runs -/

theorem bound_of_reach {p : Party} {S : System}
    (h : (System.machine Paired).Reach (BeginsClosed p key) S) : Genuine S ∧ Mail S ∧ Bound p key S := by
  refine Machine.Reach.invariant (P := fun S => Genuine S ∧ Mail S ∧ Bound p key S) ?_ ?_ h
  · intro S hS
    refine ⟨hS.genuine, .of_paired hS, ?_⟩
    obtain ⟨-, own, -, hnode⟩ := hS
    intro e r hr
    rw [hnode p] at hr
    cases hr
  · rintro S ⟨q, now, kind⟩ T ⟨hgenuine, hmail, hbound⟩ hok hstep
    obtain ⟨eff, heff, rfl⟩ := System.step_eq_some.mp hstep
    dsimp only at heff
    have hstores := storesSent_act heff
    by_cases hkind : kind = .beginRotation
    · subst hkind
      obtain ⟨hmail', hkeeps, hsent⟩ := hmail.begin heff
      refine ⟨hgenuine.begin heff, hmail', ?_⟩
      by_cases hq : q = p
      · subst hq
        exact hbound.begin hmail (hok rfl rfl) heff
      · exact hbound.peer hq hmail hkeeps hstores (by simp [hsent])
    · have hlog : LogStep (S.world q now) (S.node q) kind eff := .of_act hkind heff
      have hquiet := act_quiet (hgenuine.node q) hgenuine.net hkind heff
      refine ⟨hgenuine.quiet hquiet, hmail.step hlog heff, ?_⟩
      by_cases hq : q = p
      · subst hq
        exact hbound.act hmail hquiet.tame.live hlog heff
      · exact hbound.peer hq hmail hlog.keeps hstores (fun env henv => (hlog.sent env henv).2.1)

/-- Acks bind to the candidate they answer.

In every run in which the rotation of `p` to `key` begins when its other prepares
are closed, the step that moves it from `candidate` to `acknowledged` re-drives
an ack, and the prepare event that the ack names carried `key`. -/
theorem ack_answers_candidate {p : Party} {key : AgreementKey} {S T : System} {a : Act}
    (h : (System.machine Paired).Reach (BeginsClosed p key) S) (hstep : (System.machine Paired).step S a = some T)
    {e : Nat} {r r' : Rotation} (hr : (S.node p).side.rotation e .rotating = some r) (hkey : r.new_public_key = key)
    (hcandidate : r.phase = .candidate) (hr' : (T.node p).side.rotation e .rotating = some r')
    (hacked : r'.phase = .acknowledged) :
    ∃ id ev ack, a.party = p ∧ a.kind = .redrive id ∧ (S.node p).side.events.find id = some ev ∧
      ev.body = .ack ack ∧ ack.epoch = e ∧ Carried S p ack.prepare_event_id key := by
  obtain ⟨hgenuine, hmail, hbound⟩ := bound_of_reach h
  obtain ⟨q, now, kind⟩ := a
  obtain ⟨eff, heff, rfl⟩ := System.step_eq_some.mp hstep
  dsimp only at heff hr'
  have hl : r.live = true := Rotation.live_iff.mpr ⟨by simp [hcandidate], by simp [hcandidate]⟩
  by_cases hq : q = p
  swap
  · -- The peer does not touch the store of `p`.
    rw [apply_node_of_ne (Ne.symm hq), hr] at hr'
    obtain rfl := Option.some.inj hr'
    rw [hcandidate] at hacked
    cases hacked
  subst hq
  rw [System.apply_node_self] at hr'
  by_cases hkind : kind = .beginRotation
  · -- Nothing begins while the candidate is in flight.
    subst hkind
    rcases act_begin heff with ⟨epoch, prepare, prior, hb, -⟩ | ⟨hfile, -⟩
    · rw [inFlight_eq_none.mp hb.idle e _ r hr] at hl
      cases hl
    · rw [Keys.rotation, hfile.key_rotations] at hr'
      obtain rfl := Option.some.inj (hr.symm.trans hr')
      rw [hcandidate] at hacked
      cases hacked
  obtain ⟨id, ev, ack, rfl, hnew, hev, hbody, hepoch⟩ :=
    (SideStep.of_act heff).acknowledges hkind (hmail.hooks q) ⟨r, r', hr, hcandidate, hr', hacked⟩
  obtain ⟨hfind, -, hpeer⟩ := rotationEvent_eq_some.mp hev
  refine ⟨id, ev, ack, rfl, rfl, hfind, hbody, hepoch, ?_⟩
  -- The ack came over the relay from the peer, which stored the prepare first.
  obtain ⟨answer, hanswer, hid, hsender, hpayload⟩ := hmail.relayed q id ev hfind
  obtain ⟨replier, hfrom⟩ := hmail.senders answer hanswer
  have hother : replier = q.other := by
    refine (Party.eq_or_other q replier).resolve_left (fun heq => hpeer ?_)
    rw [← hsender, hfrom, heq]
    rfl
  subst hother
  obtain ⟨stored, hstored, hforeign, hcarries⟩ := hmail.acks q.other answer hanswer hfrom ack (hpayload.trans hbody)
  obtain ⟨env, henv, henv_id, henv_sender, henv_body⟩ := hmail.relayed q.other _ stored hstored
  obtain ⟨author, hauthor⟩ := hmail.senders env henv
  have hown : author = q := by
    refine ((Party.eq_or_other q author).resolve_right (fun heq => hforeign ?_))
    rw [← henv_sender, hauthor, heq]
  subst hown
  obtain ⟨-, hclosed⟩ := hbound e r hr hl hkey
  rcases hclosed env henv hauthor with hnone | hsome | hclosed
  · rw [henv_body] at hnone
    exact absurd hnone hcarries
  · exact ⟨env, henv, hauthor, henv_id, hsome⟩
  · exfalso
    rw [henv_id] at hclosed
    rcases hclosed with hconsumed | ⟨-, hhandled⟩
    · rw [(hmail.rejected _ _ hconsumed).2] at hstored
      cases hstored
    · have hack : answer.payload = .ack ⟨e, ack.prepare_event_id⟩ := by
        rw [hpayload, hbody, ← hepoch]
      rcases hhandled answer hanswer hfrom hack with hdone | hconsumed
      · exact hnew (hid ▸ hdone)
      · rw [hid] at hconsumed
        rw [(hmail.rejected _ _ hconsumed).2] at hfind
        cases hfind

/-- Bob consumes the first prepare long after the window, and Alice's second
attempt is acknowledged. -/
def closedRestart : List Act :=
  [⟨.alice, 0, .beginRotation⟩, ⟨.alice, 0, .exec 0⟩, ⟨.bob, 31 * 24 * 3600, .deliver 0⟩,
    ⟨.alice, ROTATION_WINDOW, .sweepTimeout⟩, ⟨.alice, ROTATION_WINDOW, .beginRotation⟩,
    ⟨.alice, ROTATION_WINDOW, .exec 0⟩, ⟨.bob, ROTATION_WINDOW, .deliver 1⟩,
    ⟨.bob, ROTATION_WINDOW, .redrive 1⟩, ⟨.bob, ROTATION_WINDOW, .exec 0⟩,
    ⟨.alice, ROTATION_WINDOW, .deliver 2⟩]

/-- The candidate of the side of a party at an epoch, as far as an ack matters. -/
def candidateView (S : System) (p : Party) (epoch : Nat) : Option (Phase × AgreementKey) :=
  ((S.node p).side.rotation epoch .rotating).map (fun r => (r.phase, r.new_public_key))

theorem of_candidateView {S : System} {p : Party} {phase : Phase}
    (h : candidateView S p epoch = some (phase, key)) :
    ∃ r, (S.node p).side.rotation epoch .rotating = some r ∧ r.phase = phase ∧ r.new_public_key = key := by
  obtain ⟨r, hr, hview⟩ := Option.map_eq_some_iff.mp h
  obtain ⟨hphase, hkey⟩ := Prod.mk.inj hview
  exact ⟨r, hr, hphase, hkey⟩

/-- After a restart with every other prepare closed the ack binds to the second
candidate. -/
theorem ack_answers_candidate_restart :
    ∃ S T, (System.machine Paired).step S ⟨.alice, ROTATION_WINDOW, .redrive 2⟩ = some T ∧
      ∃ id ev ack, Party.alice = .alice ∧ Kind.redrive 2 = .redrive id ∧
        (S.node .alice).side.events.find id = some ev ∧ ev.body = .ack ack ∧ ack.epoch = 2 ∧
        Carried S .alice ack.prepare_event_id (PrivateKey.publicKey ⟨3⟩) := by
  have hrun : ((System.machine Paired).run pairedStart closedRestart).map (fun S =>
      (candidateView S .alice 2, ((System.machine Paired).step S ⟨.alice, ROTATION_WINDOW, .redrive 2⟩).map
        (fun T => candidateView T .alice 2))) =
      some (some (.candidate, PrivateKey.publicKey ⟨3⟩),
        some (some (.acknowledged, PrivateKey.publicKey ⟨3⟩))) := by
    decide +kernel
  have hok : (System.machine Paired).okRun (BeginsClosed .alice (PrivateKey.publicKey ⟨3⟩)) pairedStart
      closedRestart := by
    decide +kernel
  obtain ⟨S, hS, hview⟩ := Option.map_eq_some_iff.mp hrun
  obtain ⟨hbefore, hstep⟩ := Prod.mk.inj hview
  obtain ⟨T, hT, hafter⟩ := Option.map_eq_some_iff.mp hstep
  obtain ⟨r, hr, hcandidate, hkey⟩ := of_candidateView hbefore
  obtain ⟨r', hr', hacked, -⟩ := of_candidateView hafter
  exact ⟨S, T, hT, ack_answers_candidate (Machine.Reach.run (.start pairedStart_paired) hok hS) hT hr hkey
    hcandidate hr' hacked⟩

/-- Alice's first attempt times out after Bob has acknowledged it, and she starts
again.  Bob's ack comes late. -/
def restartRun : List Act :=
  [⟨.alice, 0, .beginRotation⟩, ⟨.alice, 0, .exec 0⟩, ⟨.bob, 0, .deliver 0⟩, ⟨.bob, 0, .redrive 0⟩,
    ⟨.bob, 0, .exec 0⟩, ⟨.alice, ROTATION_WINDOW, .sweepTimeout⟩, ⟨.alice, ROTATION_WINDOW, .beginRotation⟩,
    ⟨.alice, ROTATION_WINDOW, .exec 0⟩, ⟨.alice, ROTATION_WINDOW, .deliver 1⟩]

/-- The late ack of the discarded attempt acknowledges the second candidate, whose
key Bob has never seen. -/
theorem late_ack_acknowledges_restart :
    ¬ ∀ S T a, (System.machine Paired).Reachable S → (System.machine Paired).step S a = some T →
      ∀ p e r r', (S.node p).side.rotation e .rotating = some r → r.phase = .candidate →
        (T.node p).side.rotation e .rotating = some r' → r'.phase = .acknowledged →
        ∃ id ev ack, a.party = p ∧ a.kind = .redrive id ∧ (S.node p).side.events.find id = some ev ∧
          ev.body = .ack ack ∧ ack.epoch = e ∧ Carried S p ack.prepare_event_id r.new_public_key := by
  intro hall
  have hrun : ((System.machine Paired).run pairedStart restartRun).map (fun S =>
      ((candidateView S .alice 2, ((S.node .alice).side.events.find 1).map (·.body),
        decide (Carried S .alice 0 (PrivateKey.publicKey ⟨3⟩))),
        ((System.machine Paired).step S ⟨.alice, ROTATION_WINDOW, .redrive 1⟩).map
          (fun T => candidateView T .alice 2))) =
      some ((some (.candidate, PrivateKey.publicKey ⟨3⟩), some (.ack ⟨2, 0⟩), false),
        some (some (.acknowledged, PrivateKey.publicKey ⟨3⟩))) := by
    decide +kernel
  obtain ⟨S, hS, hview⟩ := Option.map_eq_some_iff.mp hrun
  obtain ⟨hbefore, hstep⟩ := Prod.mk.inj hview
  obtain ⟨hcandidate, hbefore⟩ := Prod.mk.inj hbefore
  obtain ⟨hack, hnot⟩ := Prod.mk.inj hbefore
  obtain ⟨T, hT, hafter⟩ := Option.map_eq_some_iff.mp hstep
  obtain ⟨r, hr, hphase, hkey⟩ := of_candidateView hcandidate
  obtain ⟨r', hr', hacked, -⟩ := of_candidateView hafter
  obtain ⟨id, ev, ack, -, hid, hev, hbody, -, hcarried⟩ :=
    hall S T _ (Machine.reachable_of_run pairedStart_paired hS) hT .alice 2 r r' hr hphase hr' hacked
  obtain rfl : 1 = id := Kind.redrive.inj hid
  rw [hev, Option.map_some, Option.some.injEq, hbody] at hack
  obtain rfl : ack = ⟨2, 0⟩ := Body.ack.inj hack
  rw [hkey] at hcarried
  exact of_decide_eq_false hnot hcarried

end MuseAgentSocial.Cli
