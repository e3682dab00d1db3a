import MuseAgentSocial.Model.SendEffects

/-!
# Sender sequence density

The own events of an identity carry the numbers from 1 on without gap or repetition,
whatever sends and receives run at once and whichever of them fail.

* `Dense` is the property of the tables.
* `Dense.persisted`, `Dense.arrived`: a send takes the next number, and an event of the
  peer leaves the own ones.
* `sender_sequence_dense`: it holds in every reachable state.
-/

namespace MuseAgentSocial.Outbox

open Model Crypto

/-- The own events of a relationship are numbered densely, up to `last_seq`, and each is
sealed under its number. -/
structure Dense (me : IdentityId) (rid : RelationshipId) (s : Tables) : Prop where
  numbers : ∃ n, (s.sentBy rid me).map (·.sender_seq) = List.range' 1 n ∧ s.lastSeq rid me = n
  sealed : ∀ e ∈ s.sentBy rid me, e.sealed_envelope.header.sender_seq = e.sender_seq

section density

variable {me : IdentityId} {rid : RelationshipId} {s s' : Tables}

theorem max?_range' (n : Nat) : (List.range' 1 n).max?.getD 0 = n := by
  cases n with
  | zero => rfl
  | succ n =>
    have hmax : (List.range' 1 (n + 1)).max? = some (n + 1) := by
      rw [List.max?_eq_some_iff]
      constructor
      · rw [List.mem_range'_1]
        omega
      · intro m hm
        rw [List.mem_range'_1] at hm
        omega
    rw [hmax]
    rfl

/-- The largest number in the log is the one of the last event. -/
theorem Dense.maxSeq (h : Dense me rid s) : s.maxSeq rid me = s.lastSeq rid me := by
  obtain ⟨n, hnumbers, hlast⟩ := h.numbers
  unfold Tables.maxSeq
  rw [hnumbers, max?_range', hlast]

/-- An event that enters the log is one more of its sender, and of no other. -/
theorem sentBy_insert {ev : EventRow} (h : s.events.insert ev = some s'.events) (rid : RelationshipId)
    (sender : IdentityId) :
    s'.sentBy rid sender =
      s.sentBy rid sender ++ (if ev.relationship_id = rid ∧ ev.sender = sender then [ev] else []) := by
  unfold Tables.sentBy
  rw [(Table.insert_eq_some h).2, List.filter_append]
  congr 1
  split_ifs with heq
  · exact List.filter_cons_of_pos (by simpa using heq)
  · exact List.filter_cons_of_neg (by simpa using heq)

theorem lastSeq_upsert {s₀ : Tables} {r : RelationshipId} {sender : IdentityId} {seq : Nat}
    (h : s'.sender_sequence = s₀.sender_sequence.upsert ⟨r, sender, max (s₀.lastSeq r sender) seq⟩)
    (rid : RelationshipId) (other : IdentityId) :
    s'.lastSeq rid other =
      if rid = r ∧ other = sender then max (s₀.lastSeq r sender) seq else s₀.lastSeq rid other := by
  show (s'.sender_sequence.find (rid, other)).elim 0 (·.last_seq) = _
  rw [h, Table.find_upsert, show SequenceRow.key ⟨r, sender, max (s₀.lastSeq r sender) seq⟩ = (r, sender) from rfl]
  by_cases heq : rid = r ∧ other = sender
  · rw [if_pos heq, if_pos (by rw [heq.1, heq.2])]
    rfl
  · rw [if_neg heq, if_neg (fun hk => heq (Prod.mk.inj hk))]
    rfl

/-- A send takes the next number. -/
theorem Dense.persisted {header : Protected} {payload : Payload} {now : Nat} {ev : EventRow}
    (h : Dense me rid s) (hsent : Persisted header payload now s s' ev) (hme : header.sender = me) :
    Dense me rid s' := by
  obtain ⟨n, hnumbers, hlast⟩ := h.numbers
  have hseq := lastSeq_upsert hsent.sender_sequence rid me
  have hrows := sentBy_insert hsent.events rid me
  by_cases hrid : header.relationship_id = rid
  · have hnumber : ev.sender_seq = n + 1 := by
      rw [hsent.numbered, hrid, hme, h.maxSeq, hlast]
    rw [if_pos ⟨hsent.relationship_id.trans hrid, hsent.sender.trans hme⟩] at hrows
    rw [if_pos ⟨hrid.symm, hme.symm⟩, hrid, hme, hlast, hnumber] at hseq
    refine ⟨⟨n + 1, ?_, ?_⟩, ?_⟩
    · rw [hrows, List.map_append, hnumbers, List.range'_concat]
      simp [hnumber, Nat.add_comm]
    · rw [hseq]
      omega
    · intro e he
      rw [hrows] at he
      obtain he | he := List.mem_append.mp he
      · exact h.sealed e he
      · rw [List.mem_singleton.mp he, hsent.sealed]
  · have hother : ¬ (ev.relationship_id = rid ∧ ev.sender = me) :=
      fun heq => hrid (hsent.relationship_id.symm.trans heq.1)
    rw [if_neg hother, List.append_nil] at hrows
    rw [if_neg (fun heq => hrid heq.1.symm)] at hseq
    exact ⟨⟨n, by rw [hrows, hnumbers], hseq.trans hlast⟩, fun e he => h.sealed e (hrows ▸ he)⟩

/-- An event of the peer leaves the own events. -/
theorem Dense.arrived {o : Received} (h : Dense me rid s) (harrived : Arrived o s s')
    (hpeer : o.envelope.header.sender ≠ me) : Dense me rid s' := by
  obtain ⟨n, hnumbers, hlast⟩ := h.numbers
  have hseq := lastSeq_upsert harrived.sender_sequence rid me
  have hrows := sentBy_insert harrived.events rid me
  rw [if_neg (fun heq => hpeer heq.2), List.append_nil] at hrows
  rw [if_neg (fun heq => hpeer heq.2.symm)] at hseq
  exact ⟨⟨n, by rw [hrows, hnumbers], hseq.trans hlast⟩, fun e he => h.sealed e (hrows ▸ he)⟩

/-- `run_due` and a cancellation leave the log. -/
theorem Dense.moved (h : Dense me rid s) (hmoved : Moved s s') : Dense me rid s' := by
  have hrows : s'.sentBy rid me = s.sentBy rid me := by
    rw [Tables.sentBy, hmoved.events, Tables.sentBy]
  have hlast : s'.lastSeq rid me = s.lastSeq rid me := by
    rw [Tables.lastSeq, hmoved.sender_sequence, Tables.lastSeq]
  obtain ⟨n, hnumbers, hn⟩ := h.numbers
  exact ⟨⟨n, by rw [hrows, hnumbers], hlast.trans hn⟩, fun e he => h.sealed e (hrows ▸ he)⟩

theorem Dense.effect {op : Op} (h : Dense me rid s) (heffect : Effect me op s s') : Dense me rid s' := by
  cases heffect with
  | approved => exact ⟨h.numbers, h.sealed⟩
  | sent hsent => exact h.persisted hsent rfl
  | received hpeer harrived => exact h.arrived harrived hpeer
  | receipted hpeer harrived hsent => exact (h.arrived harrived hpeer).persisted hsent rfl
  | projected => exact ⟨h.numbers, h.sealed⟩
  | moved hmoved => exact h.moved hmoved

theorem Dense.initial (me : IdentityId) (rid : RelationshipId) (referenced : RelationshipId → Nat → Bool)
    (enabled : RelationshipId → Bool) : Dense me rid { referenced, accepted_receipts_enabled := enabled } :=
  ⟨⟨0, rfl, rfl⟩, fun _ he => absurd he List.not_mem_nil⟩

/-- The own events of every relationship carry the numbers 1 to `last_seq`, in the order in
which they were sent, and each is sealed under its number. -/
theorem sender_sequence_dense {peers : Peers me} {S : Served Tables SendError Result Op}
    (h : (outbox peers).Reachable S) (rid : RelationshipId) :
    ∃ n, (S.db.sentBy rid me).map (·.sender_seq) = List.range' 1 n ∧ S.db.lastSeq rid me = n ∧
      ∀ e ∈ S.db.sentBy rid me, e.sealed_envelope.header.sender_seq = e.sender_seq := by
  have hdense : Dense me rid S.db :=
    outbox_invariant (Dense.initial me rid) (fun _ _ _ heffect hs => hs.effect heffect) h
  obtain ⟨n, hnumbers, hlast⟩ := hdense.numbers
  exact ⟨n, hnumbers, hlast, hdense.sealed⟩

end density

/-! ## A run with a failing send and a receipt -/

/-- A draft of the identity 1 in the relationship 5. -/
def sampleDraft (event_id : EventId) (payload : Payload) : Draft where
  event_id := event_id
  relationship_id := 5
  conversation_id := 5
  created_at := 100
  deliver_at := none
  expires_at := none
  thread_id := none
  reply_to := none
  key_epoch := 1
  replay_nonce := event_id
  payload := payload
  recipients := [⟨2, ⟨⟨7⟩⟩⟩]
  now := 100

/-- An event of the identity 2. -/
def sampleObject : Received where
  envelope :=
    ⟨{ (sampleDraft 30 (.other 0 0)).header 2 with sender_seq := 4 }, [⟨1, ⟨⟨8⟩⟩⟩], .other 0 0, 2⟩
  now := 200
  receipt := sampleDraft 31 (.other 0 0)

/-- The identity 1 with the peer 2. -/
def samplePeers : Peers 1 := ⟨fun _ sender => sender = 2, fun _ => rfl⟩

/-- New tables. -/
def sampleTables : Tables := { referenced := fun _ _ => true, accepted_receipts_enabled := fun _ => true }

/-- Two sends wait for each other, the first of them fails halfway, and an event comes in. -/
def sampleRun : List (Turn SendError Op) :=
  [.call (.send (sampleDraft 10 (.other 0 0)) {}), .call (.send (sampleDraft 11 (.other 0 0)) {}),
      .call (.receive sampleObject)] ++
    List.replicate 5 (.advance 0) ++ [.fault 0 .failed] ++ List.replicate 9 (.advance 1) ++ List.replicate 17 (.advance 2)

/-- The send that succeeds and the receipt are numbered 1 and 2. -/
theorem sender_sequence_dense_sampleRun :
    ∃ S, (outbox samplePeers).run { db := sampleTables } sampleRun = some S ∧
      S.db.events.rows.map (fun e => (e.event_id, e.sender, e.sender_seq)) = [(11, 1, 1), (30, 2, 4), (31, 1, 2)] ∧
      ∃ n, (S.db.sentBy 5 1).map (·.sender_seq) = List.range' 1 n ∧ S.db.lastSeq 5 1 = n ∧
        ∀ e ∈ S.db.sentBy 5 1, e.sealed_envelope.header.sender_seq = e.sender_seq := by
  obtain ⟨S, hrun, hrows⟩ : ∃ S, (outbox samplePeers).run { db := sampleTables } sampleRun = some S ∧
      S.db.events.rows.map (fun e => (e.event_id, e.sender, e.sender_seq)) =
        [(11, 1, 1), (30, 2, 4), (31, 1, 2)] := by
    decide +kernel
  have hinit : (outbox samplePeers).init { db := sampleTables } := ⟨⟨_, _, rfl⟩, rfl, rfl⟩
  have hok : (outbox samplePeers).okRun (fun _ _ => True) { db := sampleTables } sampleRun := by
    decide +kernel
  exact ⟨S, hrun, hrows, sender_sequence_dense ((Machine.Reach.start hinit).run hok hrun) 5⟩

end MuseAgentSocial.Outbox
