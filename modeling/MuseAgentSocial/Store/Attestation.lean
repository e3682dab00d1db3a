import MuseAgentSocial.Store.Node

/-!
# Local attestation

A request is marked `local` when its answer carries the id of an approval that
is in the local table, unless the answer was sent by the peer identity that is
pinned when the answer is projected.

* `forges db ids e`: the answer `e` would be marked `local` although no local
  identity sent it.
* `attestation_local`: along every run that projects no such answer, a request
  is marked `local` only by an answer of a local identity.
* `retired_identity_attested`: the peer rotates its identity and answers with
  the retired one inside the grace window.
-/

namespace MuseAgentSocial.Store

open Model Crypto Policy

/-- The answer names a request of the log and an approval of the local table,
and its sender is neither a local identity nor the pinned peer. -/
def forges (db : Database) (ids : List IdentityId) (e : Event) : Bool :=
  match e.payload with
  | .humanResponded request_id _ _ approval_record_id =>
    decide (e.sender ∉ ids) &&
    !(db.relationships.find e.relationship_id).any (·.peer_identity_id = e.sender) &&
    (db.human_approvals.find approval_record_id).isSome &&
    (db.events.find request_id).any (·.payload.eventType = .humanRequested)
  | _ => false

/-- The step projects no forged answer: neither the event itself nor one that
waited for it, and none of the log in a rebuild. -/
def Unforged (s : Node) : Act → Prop
  | .project event_id _ => ∀ ev e, s.db.events.find event_id = some ev → Dispatches s.db ev e →
      forges s.db s.identities e = false
  | .rebuild rid _ => ∀ e ∈ s.db.events.rows, e.relationship_id = rid →
      forges s.db s.identities e = false
  | _ => True

/-! ## The invariant -/

/-- The row is one of a request of the log, and it is marked `local` only by an
answer that one of the identities sent. -/
def Attested (db : Database) (ids : List IdentityId) (r : HumanRequest) : Prop :=
  (db.events.find r.request_id).any (·.payload.eventType = .humanRequested) = true ∧
  (r.attestation = .local → ∃ e, db.events.find e.event_id = some e ∧
    r.response_event_id = some e.event_id ∧ e.sender ∈ ids)

section attested

variable {db db' : Database} {ids : List IdentityId} {rid : RelationshipId} {now : Nat}

theorem forges_congr {e : Event} (h : SameInputs db db') : forges db' ids e = forges db ids e := by
  unfold forges
  rw [h.events, h.relationships, h.human_approvals]

theorem attested_congr (h : db'.events = db.events) : Attested db' ids = Attested db ids := by
  unfold Attested
  rw [h]

theorem humanResponseAttestation_local {ev : Event} {approval : ApprovalId}
    (h : humanResponseAttestation db ev approval = .local) :
    (db.relationships.find ev.relationship_id).any (·.peer_identity_id = ev.sender) = false ∧
      (db.human_approvals.find approval).isSome := by
  unfold humanResponseAttestation at h
  split_ifs at h with hpeer hknown
  exact ⟨Bool.eq_false_iff.mpr hpeer, hknown⟩

theorem Write.attested {ev : Event} (h : Write ev now db db')
    (hlog : db.events.find ev.event_id = some ev) (hunforged : forges db ids ev = false)
    (hI : db.human_requests.All (Attested db ids)) :
    db'.human_requests.All (Attested db' ids) := by
  rw [attested_congr h.sameInputs.events]
  cases h with
  | thread hopens hjoins =>
    obtain ⟨_, _, heq⟩ := registerThread_eq db ev ‹_›
    rw [heq]
    exact hI
  | message hpayload hmessages hrevisions =>
    obtain ⟨_, heq⟩ := bumpThreadMessage_eq _ ev.thread_id ev.created_at
    rw [heq]
    exact hI
  | humanRequest hid hrel hattestation hpayload hrequests =>
    refine hI.insert ⟨?_, ?_⟩ hrequests
    · rw [hid, hlog]
      simpa using hpayload
    · intro hlocal
      rw [hattestation] at hlocal
      exact Attestation.noConfusion hlocal
  | humanResponse hpayload hrequest =>
    refine hI.modify (fun r hr hrow => ?_) (fun _ => by rfl)
    refine ⟨hrow.1, fun hlocal => ?_⟩
    obtain ⟨hpeer, hknown⟩ := humanResponseAttestation_local hlocal
    refine ⟨ev, hlog, rfl, ?_⟩
    by_contra hsender
    have hasked := hrow.1
    rw [Table.key_of_find hr] at hasked
    unfold forges at hunforged
    simp only [hpayload, hpeer, hknown, hasked] at hunforged
    simp [hsender] at hunforged
  | _ => exact hI

theorem Effects.attested {P : Event → Prop} (h : Effects rid P now db db')
    (hunforged : ∀ e, P e → forges db ids e = false) (hI : db.human_requests.All (Attested db ids)) :
    db'.human_requests.All (Attested db' ids) := by
  refine h.invariant (I := fun db => db.human_requests.All (Attested db ids))
    (fun db₁ db₂ hsame hI heffect => ?_) hI
  cases heffect with
  | write hlog hP hwrite =>
    exact hwrite.attested hlog ((forges_congr hsame).trans (hunforged _ hP)) hI
  | resolve hown => exact hI
  | replyState hown => exact hI
  | quarantine => exact hI
  | sequence =>
    obtain ⟨_, _, heq⟩ := updateSeqState_eq db₁ ‹_› now
    rw [heq]
    exact hI

end attested

/-- The invariant along runs. -/
theorem step_attested {s t : Node} {a : Act} (hs : Scoped s.db)
    (hI : s.db.human_requests.All (Attested s.db s.identities)) (hok : Unforged s a)
    (h : s.step a = some t) : t.db.human_requests.All (Attested t.db t.identities) := by
  have happend : ∀ {ev : Event} {db : Database}, s.db.append ev = some db →
      db.human_requests.All (Attested db s.identities) := by
    intro ev db hdb
    have hfind : ∀ {i e}, s.db.events.find i = some e → db.events.find i = some e :=
      find_of_append hdb
    obtain ⟨-, threads, heq⟩ := append_events hdb
    have hrows : db.human_requests = s.db.human_requests := by rw [heq]
    rw [hrows]
    refine hI.imp (fun r hr => ⟨?_, fun hlocal => ?_⟩)
    · obtain ⟨e, he, htype⟩ := Option.any_eq_true _ _ |>.mp hr.1
      rw [hfind he]
      exact htype
    · obtain ⟨e, he, hresponse, hsender⟩ := hr.2 hlocal
      exact ⟨e, hfind he, hresponse, hsender⟩
  cases a with
  | pair rid peer =>
    obtain ⟨_, _, rfl⟩ := Option.map_eq_some_iff.mp h
    exact hI
  | approve approval =>
    obtain ⟨_, _, rfl⟩ := Option.map_eq_some_iff.mp h
    exact hI
  | send ev =>
    simp only [Node.step] at h
    split_ifs at h
    obtain ⟨db, hdb, rfl⟩ := Option.map_eq_some_iff.mp h
    exact happend hdb
  | receive ev now =>
    simp only [Node.step] at h
    split_ifs at h
    obtain ⟨db, hdb, rfl⟩ := Option.map_eq_some_iff.mp h
    exact happend hdb
  | project event_id clock =>
    obtain ⟨ev, hev, rfl⟩ := Option.map_eq_some_iff.mp h
    have hlog : s.db.events.find ev.event_id = some ev := by
      rw [Table.key_of_find hev]
      exact hev
    exact (projectEvent_effects hs hlog).attested (fun e he => hok ev e hev he) hI
  | rebuild rid clock =>
    rw [← Option.some.inj h]
    refine (rebuild_invariant (I := fun db => db.human_requests.All (Attested db s.identities)) hs
      (hI.delete _) (fun ev hev hrel db₁ db₂ hsame hs₁ hI₁ heffects => ?_)).1
    -- Every event that the replay dispatches is one of the relationship.
    refine heffects.attested (fun e he => ?_) hI₁
    have hin : e ∈ s.db.events.rows ∧ e.relationship_id = rid := by
      rcases he with rfl | hwaits
      · exact ⟨Table.mem_iff_find.mpr hev, hrel⟩
      · obtain ⟨ref, -, -, he⟩ := id hwaits
        rw [hsame.events] at he
        exact ⟨(Table.find_eq_some.mp he).1, (hwaits.names hs₁).1.trans hrel⟩
    exact (forges_congr hsame).trans (hok e hin.1 hin.2)
  | expire rid now =>
    rw [← Option.some.inj h]
    exact hI
  | pin event_id now =>
    simp only [Node.step, Option.bind_eq_some_iff] at h
    obtain ⟨ev, -, new, -, rel, -, h⟩ := h
    obtain ⟨rel', -, rfl⟩ := Option.map_eq_some_iff.mp h
    exact hI
  | rotate new =>
    rw [← Option.some.inj h]
    refine hI.imp (fun r hr => ⟨hr.1, fun hlocal => ?_⟩)
    obtain ⟨e, he, hresponse, hsender⟩ := hr.2 hlocal
    exact ⟨e, he, hresponse, List.mem_cons_of_mem new hsender⟩

/-- Along every run that projects no forged answer, a request is marked `local`
only by an answer that a local identity sent. -/
theorem attestation_local {s : Node} (h : machine.Reach Unforged s) {r : HumanRequest}
    (hr : r ∈ s.db.human_requests.rows) (hlocal : r.attestation = .local) :
    ∃ e, s.db.events.find e.event_id = some e ∧ r.response_event_id = some e.event_id ∧
      e.sender ∈ s.identities := by
  have hinv : Scoped s.db ∧ s.db.human_requests.All (Attested s.db s.identities) := by
    refine h.invariant (P := fun s => Scoped s.db ∧ s.db.human_requests.All (Attested s.db s.identities))
      (fun s hinit => ?_) (fun s a t hI hok hst => ?_)
    · rw [hinit.1]
      exact ⟨.initial, .empty⟩
    · exact ⟨step_scoped hI.1 hst, step_attested hI.1 hI.2 hok hst⟩
  exact (hinv.2 r hr).2 hlocal

/-! ### An answer of the retired identity -/

/-- No answer in the log is forged. -/
def unforgedLog (s : Node) : Bool := s.db.events.rows.all (fun e => !forges s.db s.identities e)

theorem Unforged.of_log {s : Node} (h : unforgedLog s = true) (a : Act) : Unforged s a := by
  have hlog : ∀ e ∈ s.db.events.rows, forges s.db s.identities e = false := by
    simpa [unforgedLog] using h
  cases a with
  | project event_id clock =>
    intro ev e hev hdispatches
    rcases hdispatches with rfl | ⟨ref, -, -, he⟩
    · exact hlog e (Table.find_eq_some.mp hev).1
    · exact hlog e (Table.find_eq_some.mp he).1
  | rebuild rid clock => exact fun e he _ => hlog e he
  | _ => trivial

/-- A request of the peer `11`. -/
def askedByPeer : Event :=
  ⟨100, 1, 1, some 100, 11, 1, 0, 1, .humanRequested "pay?" "yes/no" 900, none, some 0⟩

/-- The answer of the local identity `1`, with the approval `7`. -/
def answeredLocally : Event :=
  ⟨101, 1, 1, some 100, 1, 1, 0, 1, .humanResponded 100 "yes" true 7, none, none⟩

/-- The approval of the local human. -/
def localApproval : Approval := ⟨7, ⟨1, .human_request, 100, [], true⟩, 900, none⟩

/-- A local answer is marked `local`, and a local identity sent it. -/
theorem attestation_local_answer : ∃ s r, machine.Reach Unforged s ∧
    r ∈ s.db.human_requests.rows ∧ r.attestation = .local ∧
    ∃ e, s.db.events.find e.event_id = some e ∧ r.response_event_id = some e.event_id ∧
      e.sender ∈ s.identities := by
  let acts : List Act := [.pair 1 11, .approve localApproval, .receive askedByPeer 0, .project 100 0,
    .send answeredLocally, .project 101 0, .rebuild 1 0]
  have hok : machine.okRun (fun s _ => unforgedLog s = true) ⟨{}, [1]⟩ acts := by decide +kernel
  have hrun : (machine.run ⟨{}, [1]⟩ acts).map
      (fun s => s.db.human_requests.rows.any (·.attestation = .local)) = some true := by
    decide +kernel
  obtain ⟨s, hs, hany⟩ := Option.map_eq_some_iff.mp hrun
  obtain ⟨r, hr, hlocal⟩ := List.any_eq_true.mp hany
  have hlocal : r.attestation = .local := by simpa using hlocal
  have hreach : machine.Reach (fun s _ => unforgedLog s = true) s :=
    .run (.start ⟨rfl, List.cons_ne_nil _ _⟩) hok hs
  have hreach : machine.Reach Unforged s := hreach.mono (fun s a h => .of_log h a)
  exact ⟨s, r, hreach, hr, hlocal, attestation_local hreach hr hlocal⟩

/-- The request of the local identity. -/
def askedLocally : Event :=
  ⟨100, 1, 1, some 100, 1, 1, 0, 1, .humanRequested "pay?" "yes/no" 900, none, none⟩

/-- The announcement by which the peer `11` becomes `12`. -/
def peerRotates : Event :=
  ⟨102, 1, 1, some 102, 11, 1, 0, 1, .identityRotated 12, none, some 0⟩

/-- An answer signed by the retired identity `11` that carries the id of the
approval `7`, which the peer has seen in an earlier answer. -/
def answeredByRetired : Event :=
  ⟨103, 1, 1, some 100, 11, 2, 0, 1, .humanResponded 100 "yes" true 7, none, some 0⟩

/-- The answer of the retired identity is marked `local`. -/
theorem retired_identity_attested : ∃ s r e, machine.Reachable s ∧
    r ∈ s.db.human_requests.rows ∧ r.attestation = .local ∧
    s.db.events.find e.event_id = some e ∧ r.response_event_id = some e.event_id ∧
    e.sender ∉ s.identities ∧
    (s.db.relationships.find e.relationship_id).any (·.prior_peer_identity_id = some e.sender) := by
  let acts : List Act := [.pair 1 11, .approve localApproval, .send askedLocally, .project 100 0,
    .receive peerRotates 0, .project 102 0, .pin 102 0, .receive answeredByRetired 0, .project 103 0]
  have hrun : (machine.run ⟨{}, [1]⟩ acts).map (fun s =>
      (s.db.human_requests.rows.any (fun r => r.attestation = .local ∧ r.response_event_id = some 103),
        s.db.events.find 103, s.identities,
        (s.db.relationships.find 1).any (·.prior_peer_identity_id = some 11))) =
      some (true, some answeredByRetired, [1], true) := by
    decide +kernel
  obtain ⟨s, hs, heq⟩ := Option.map_eq_some_iff.mp hrun
  obtain ⟨hany, hrest⟩ := Prod.mk.inj heq
  obtain ⟨hlog, hrest⟩ := Prod.mk.inj hrest
  obtain ⟨hids, hprior⟩ := Prod.mk.inj hrest
  obtain ⟨r, hr, hrow⟩ := List.any_eq_true.mp hany
  obtain ⟨hlocal, hresponse⟩ : r.attestation = .local ∧ r.response_event_id = some 103 := by
    simpa using hrow
  refine ⟨s, r, answeredByRetired, Machine.reachable_of_run ⟨rfl, List.cons_ne_nil _ _⟩ hs, hr, hlocal,
    hlog, hresponse, ?_, hprior⟩
  rw [hids]
  decide

end MuseAgentSocial.Store
