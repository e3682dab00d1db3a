import MuseAgentSocial.Canonical.RoundTrip
import MuseAgentSocial.Model.Density

/-!
# Responses that a human approved

A `human.responded` event, and a `poll.responded` event with `human_confirmed`, carries
the id of a local approval record, which the send transaction consumes.

* `Authorises` says that a record is about the answer of an event.
* `pollAnswer_injective`: no two choice lists have the same answer.
* `Backed` is the invariant of the tables, and `ClaimLaw` what one commit does.
* `approval_backed_responses` puts them together, for every run.
-/

namespace MuseAgentSocial.Outbox

open Model Crypto Canonical Json

/-- The answers of a human. -/
def Payload.Response : Payload → Prop
  | .humanResponded _ _ _ _ => True
  | .pollResponded _ _ human_confirmed _ => human_confirmed = true
  | _ => False

instance (payload : Payload) : Decidable payload.Response := by
  cases payload <;> unfold Payload.Response <;> infer_instance

/-- The record is the approval of the event: of its relationship and subject, for its
answer as approvals encode it and its decision. -/
def Authorises (r : Approval) (e : EventRow) : Prop :=
  e.sealed_envelope.payload.approvalId = some r.approval_id ∧
    e.sealed_envelope.payload.bindings e.relationship_id = .ok (some r.binding)

/-! ## The answer of a poll -/

theorem sorted_strings (xs : List Text) :
    (Value.list (xs.map .str) : Value Unit).sorted = .list (xs.map .str) := by
  rw [Value.sorted, sortedItems_eq, List.map_map]
  rfl

theorem listed_strings (xs : List Text) :
    (Value.list (xs.map .str) : Value Unit).listed = .list (xs.map .str) := by
  rw [Value.listed, listedItems_eq, List.map_map]
  rfl

theorem itemsDepth_strings (xs : List Text) : Value.itemsDepth (xs.map (.str : Text → Value Unit)) = 0 := by
  induction xs with
  | nil => rfl
  | cons x xs ih => simp [Value.itemsDepth, Value.depth, ih]

theorem depth_strings (xs : List Text) : (Value.list (xs.map .str) : Value Unit).depth = 1 := by
  simp [Value.depth, itemsDepth_strings]

/-- No approval for one choice list is one for another. -/
theorem pollAnswer_injective {xs ys : List Text} {answer : Text} (hx : pollAnswer xs = .ok answer)
    (hy : pollAnswer ys = .ok answer) : xs = ys := by
  obtain ⟨out, hout, rfl⟩ := map_eq_ok_iff.mp hx
  obtain ⟨out', hout', heq⟩ := map_eq_ok_iff.mp hy
  obtain rfl : out' = out := List.map_injective_iff.mpr (fun _ _ h => CodePoint.scalar.inj h) heq
  -- Both are read back from the same text.
  have hread : ∀ zs : List Text, encode (fun _ : Unit => false) 4 (.list (zs.map .str)) [] = .ok out' →
      scanOnce (hooks (fun _ => ())) (2 * out'.length) 1 (out' ++ []) = .ok (.list (zs.map .str), []) := by
    intro zs h
    have hdepth : (Value.list (zs.map .str) : Value Unit).depth ≤ 1 := by
      rw [depth_strings]
    have hin : (Value.list (zs.map .str) : Value Unit).InProfile := by
      rw [← listed_strings]
      exact inProfile_of_encode h
    rw [← sorted_strings]
    exact (scanOnce_encode _ hin 4 [] out' h).2 _ 1 [] le_rfl hdepth ends_nil
  have hsame := (hread xs hout).symm.trans (hread ys hout')
  have hlists := Value.list.inj (Prod.mk.inj (Except.ok.inj hsame)).1
  exact List.map_injective_iff.mpr (fun _ _ h => Value.str.inj h) hlists

/-! ## The claim of a record -/

variable {i : ApprovalId} {now : Nat} {payload : Payload} {header : Protected} {ev : EventRow}
  {o : Received}

/-- The record that a claim consumes is live, and it has the bindings of the event. -/
theorem consume_spec {t t' : Approvals} {binding : Option Binding}
    (h : t.consume i now binding = some t') :
    ∃ r, t.find i = some r ∧ r.consumed_at = none ∧ (∀ b, binding = some b → r.binding = b) ∧
      ∀ k, t'.find k = if k = i then some { r with consumed_at := some now } else t.find k := by
  obtain ⟨⟨r, hr, hlive⟩, ht'⟩ := Approvals.consume_eq_some h
  refine ⟨r, hr, hlive, ?_, fun k => ?_⟩
  · rintro b rfl
    rw [Approvals.consume, hr] at h
    dsimp only at h
    split_ifs at h with hc
    simp only [Approval.consumable, Option.all_some, Bool.and_eq_true, beq_iff_eq] at hc
    exact hc.2.symm
  · rw [ht', Table.find_modify]
    split_ifs with hk
    · rw [hr]
      rfl
    · rfl

theorem Payload.Response.approvalId (h : payload.Response) (hvalid : payload.valid = true) :
    ∃ a, payload.approvalId = some a := by
  cases payload with
  | humanResponded _ _ _ a => exact Option.isSome_iff_exists.mp hvalid
  | pollResponded _ _ human_confirmed a =>
    obtain rfl : human_confirmed = true := h
    simp only [Payload.valid, decide_eq_true_eq] at hvalid
    exact Option.isSome_iff_exists.mp (hvalid.2.2.2 trivial)
  | receiptAccepted => exact h.elim
  | receiptSeen => exact h.elim
  | other => exact h.elim

/-- The claim of a response compares every field. -/
theorem Payload.Response.bindings (h : payload.Response) {rid : RelationshipId}
    {binding : Option Binding}
    (hb : payload.bindings rid = .ok binding) : ∃ b, binding = some b := by
  cases payload with
  | humanResponded => exact ⟨_, (Except.ok.inj hb).symm⟩
  | pollResponded poll_id choice_ids human_confirmed a =>
    obtain rfl : human_confirmed = true := h
    simp only [Payload.bindings] at hb
    split at hb
    · exact ⟨_, (Except.ok.inj hb).symm⟩
    · exact absurd hb (by simp)
  | receiptAccepted => exact h.elim
  | receiptSeen => exact h.elim
  | other => exact h.elim

/-- What a send does to the approvals: it leaves them, or it consumes the one that its
event names. -/
theorem Persisted.claim {s s' : Tables} (h : Persisted header payload now s s' ev) :
    (payload.approvalId = none ∧ ¬ payload.Response ∧ s'.human_approvals = s.human_approvals) ∨
    ∃ r, payload.approvalId = some r.approval_id ∧ s.human_approvals.find r.approval_id = some r ∧
      r.consumed_at = none ∧ (payload.Response → Authorises r ev) ∧
      ∀ k, s'.human_approvals.find k =
        if k = r.approval_id then some { r with consumed_at := some now } else s.human_approvals.find k := by
  have hclaimed := h.claimed
  unfold Claimed at hclaimed
  cases hid : payload.approvalId with
  | none =>
    rw [hid] at hclaimed
    refine Or.inl ⟨rfl, fun hresponse => ?_, hclaimed⟩
    obtain ⟨a, ha⟩ := hresponse.approvalId h.valid
    rw [hid] at ha
    exact absurd ha (by simp)
  | some i =>
    rw [hid] at hclaimed
    obtain ⟨binding, hbinding, hconsume⟩ := hclaimed
    obtain ⟨r, hr, hlive, hmatch, hfind⟩ := consume_spec hconsume
    obtain rfl := Table.key_of_find hr
    refine Or.inr ⟨r, rfl, hr, hlive, fun hresponse => ?_, hfind⟩
    obtain ⟨b, rfl⟩ := hresponse.bindings hbinding
    refine ⟨by rw [h.content, hid], ?_⟩
    rw [h.content, h.relationship_id, hbinding, hmatch b rfl]

/-- What `run_due` leaves of a record: the restored one is free, for an event that was not
delivered. -/
theorem Moved.record {s s' : Tables} (h : Moved s s') {r : Approval}
    (hr : s.human_approvals.find r.approval_id = some r) :
    s'.human_approvals.find r.approval_id = some r ∨
      (s'.Undelivered r.approval_id ∧
        s'.human_approvals.find r.approval_id = some { r with consumed_at := none }) := by
  obtain hsame | ⟨i, now, hun, hrestored⟩ := h.human_approvals
  · exact Or.inl (hsame ▸ hr)
  · rw [hrestored, Approvals.find_restore]
    split_ifs with hi
    · subst hi
      rw [hr, Option.map_some]
      split_ifs
      · exact Or.inr ⟨hun, rfl⟩
      · exact Or.inl rfl
    · exact Or.inl hr

/-- `run_due` makes no record. -/
theorem Moved.record_old {s s' : Tables} (h : Moved s s') {r : Approval}
    (hr : s'.human_approvals.find r.approval_id = some r) (hused : r.consumed_at.isSome) :
    s.human_approvals.find r.approval_id = some r := by
  obtain hsame | ⟨i, now, -, hrestored⟩ := h.human_approvals
  · exact hsame ▸ hr
  · rw [hrestored, Approvals.find_restore] at hr
    split_ifs at hr with hi
    · obtain ⟨r₀, hr₀, heq⟩ := Option.map_eq_some_iff.mp hr
      split_ifs at heq
      · rw [← heq] at hused
        exact absurd hused (by simp)
      · rw [hi, hr₀, heq]
    · exact hr

/-! ## Every response is backed -/

/-- The own responses and the consumed records account for each other.  A record that is free
again was of an event that was not delivered. -/
structure Backed (me : IdentityId) (s : Tables) : Prop where
  responses : ∀ e ∈ s.events.rows, e.sender = me → e.sealed_envelope.payload.Response →
    ∃ r, s.human_approvals.find r.approval_id = some r ∧ Authorises r e ∧
      s.approvalOf e.event_id = some r.approval_id ∧ (r.consumed_at.isSome ∨ s.Undelivered r.approval_id)
  consumed : ∀ r, s.human_approvals.find r.approval_id = some r → r.consumed_at.isSome →
    ∃ e ∈ s.events.rows, e.sender = me ∧ e.sealed_envelope.payload.approvalId = some r.approval_id ∧
      s.approvalOf e.event_id = some r.approval_id ∧ (e.sealed_envelope.payload.Response → Authorises r e)

section backed

variable {me : IdentityId} {s s' : Tables}

theorem Persisted.mem_events {e : EventRow}
    (h : Persisted header payload now s s' ev) : e ∈ s'.events.rows ↔ e ∈ s.events.rows ∨ e = ev :=
  Table.mem_of_insert h.events

theorem Persisted.approvalOf_new
    (h : Persisted header payload now s s' ev) : s'.approvalOf ev.event_id = payload.approvalId := by
  obtain ⟨row, hap, hfind⟩ := h.queued
  rw [Tables.approvalOf, hfind, if_pos h.event_id, Option.bind_some, hap]

theorem Persisted.undelivered (h : Persisted header payload now s s' ev)
    (hi : s.Undelivered i) : s'.Undelivered i := by
  obtain ⟨id, row, hrow, hun⟩ := hi
  exact ⟨id, row, h.find_old hrow, hun⟩

theorem Backed.persisted (h : Backed me s) (hsent : Persisted header payload now s s' ev)
    (hme : header.sender = me) : Backed me s' := by
  obtain ⟨hnone, hother, hsame⟩ | ⟨c, hid, hc, hlive, hauth, hfind⟩ := hsent.claim
  · refine ⟨fun e he hsender hresponse => ?_, fun r hr hused => ?_⟩
    · obtain he | rfl := hsent.mem_events.mp he
      · obtain ⟨r, hr, hra, hof, hused⟩ := h.responses e he hsender hresponse
        exact ⟨r, hsame ▸ hr, hra, hsent.remembers _ _ hof, hused.imp_right hsent.undelivered⟩
      · exact absurd (hsent.content ▸ hresponse) hother
    · obtain ⟨e, he, hsender, hea, hof, hmatch⟩ := h.consumed r (hsame ▸ hr) hused
      exact ⟨e, hsent.mem_events.mpr (Or.inl he), hsender, hea, hsent.remembers _ _ hof, hmatch⟩
  · refine ⟨fun e he hsender hresponse => ?_, fun r hr hused => ?_⟩
    · obtain he | rfl := hsent.mem_events.mp he
      · obtain ⟨r, hr, hra, hof, hused⟩ := h.responses e he hsender hresponse
        by_cases heq : r.approval_id = c.approval_id
        · -- The record was given back, and this event consumes it again.
          obtain rfl : r = c := Option.some.inj (hr.symm.trans (heq ▸ hc))
          exact ⟨{ r with consumed_at := some now }, by rw [hfind, if_pos rfl], hra, hsent.remembers _ _ hof,
            Or.inl rfl⟩
        · exact ⟨r, by rw [hfind, if_neg heq, hr], hra, hsent.remembers _ _ hof,
            hused.imp_right hsent.undelivered⟩
      · refine ⟨{ c with consumed_at := some now }, ?_, hauth (hsent.content ▸ hresponse), ?_, Or.inl rfl⟩
        · rw [hfind, if_pos rfl]
        · rw [hsent.approvalOf_new, hid]
    · rw [hfind] at hr
      split_ifs at hr with heq
      · obtain rfl := Option.some.inj hr
        refine ⟨ev, hsent.mem_events.mpr (Or.inr rfl), hsent.sender.trans hme, ?_, ?_, fun hresponse =>
          hauth (hsent.content ▸ hresponse)⟩
        · rw [hsent.content, hid]
        · rw [hsent.approvalOf_new, hid]
      · obtain ⟨e, he, hsender, hea, hof, hmatch⟩ := h.consumed r hr hused
        exact ⟨e, hsent.mem_events.mpr (Or.inl he), hsender, hea, hsent.remembers _ _ hof, hmatch⟩

theorem Arrived.undelivered (h : Arrived o s s') : s'.Undelivered i ↔ s.Undelivered i := by
  unfold Tables.Undelivered
  rw [h.scheduler_queue]

/-- An event of the peer leaves the own ones, the queue and the approvals. -/
theorem Backed.arrived (h : Backed me s) (harrived : Arrived o s s')
    (hpeer : o.envelope.header.sender ≠ me) : Backed me s' := by
  refine ⟨fun e he hsender hresponse => ?_, fun r hr hused => ?_⟩
  · obtain he | rfl := (Table.mem_of_insert harrived.events).mp he
    · obtain ⟨r, hr, hra, hof, hused⟩ := h.responses e he hsender hresponse
      exact ⟨r, harrived.human_approvals ▸ hr, hra, harrived.approvalOf ▸ hof,
        hused.imp_right harrived.undelivered.mpr⟩
    · exact absurd hsender hpeer
  · rw [harrived.human_approvals] at hr
    obtain ⟨e, he, hsender, hea, hofe, hmatch⟩ := h.consumed r hr hused
    exact ⟨e, (Table.mem_of_insert harrived.events).mpr (Or.inl he), hsender, hea, harrived.approvalOf ▸ hofe, hmatch⟩

theorem Backed.approved {record : Approval} {human_approvals : Approvals} (h : Backed me s)
    (hins : s.human_approvals.insert { record with consumed_at := none } = some human_approvals) :
    Backed me { s with human_approvals } := by
  refine ⟨fun e he hsender hresponse => ?_, fun r hr hused => ?_⟩
  · obtain ⟨r, hr, hra, hof, hused⟩ := h.responses e he hsender hresponse
    refine ⟨r, ?_, hra, hof, hused⟩
    show human_approvals.find r.approval_id = some r
    rw [Table.find_of_insert hins, if_neg, hr]
    intro heq
    rw [heq, (Table.insert_eq_some hins).1] at hr
    exact absurd hr (by simp)
  · have hr' : human_approvals.find r.approval_id = some r := hr
    rw [Table.find_of_insert hins] at hr'
    split_ifs at hr' with heq
    · rw [← Option.some.inj hr'] at hused
      exact absurd hused (by simp)
    · exact h.consumed r hr' hused

/-- `run_due` frees a record only for an event that was not delivered. -/
theorem Backed.moved (h : Backed me s) (hmoved : Moved s s') : Backed me s' := by
  refine ⟨fun e he hsender hresponse => ?_, fun r hr hused => ?_⟩
  · obtain ⟨r, hr, hra, hof, hused⟩ := h.responses e (hmoved.events ▸ he) hsender hresponse
    have hof' := (hmoved.queue.approvalOf e.event_id).trans hof
    obtain hr' | ⟨hun, hr'⟩ := hmoved.record hr
    · exact ⟨r, hr', hra, hof', hused.imp_right hmoved.queue.undelivered⟩
    · exact ⟨{ r with consumed_at := none }, hr', hra, hof', Or.inr hun⟩
  · obtain ⟨e, he, hsender, hea, hof, hmatch⟩ := h.consumed r (hmoved.record_old hr hused) hused
    exact ⟨e, hmoved.events.symm ▸ he, hsender, hea, (hmoved.queue.approvalOf _).trans hof, hmatch⟩

theorem Backed.effect {op : Op} (h : Backed me s) (heffect : Effect me op s s') : Backed me s' := by
  cases heffect with
  | approved hins => exact h.approved hins
  | sent hsent => exact h.persisted hsent rfl
  | received hpeer harrived => exact h.arrived harrived hpeer
  | receipted hpeer harrived hsent => exact (h.arrived harrived hpeer).persisted hsent rfl
  | projected => exact ⟨h.responses, h.consumed⟩
  | moved hmoved => exact h.moved hmoved

theorem Backed.initial (me : IdentityId) (referenced : RelationshipId → Nat → Bool)
    (enabled : RelationshipId → Bool) : Backed me { referenced, accepted_receipts_enabled := enabled } :=
  ⟨fun _ he => absurd he List.not_mem_nil, fun _ hr => absurd hr (by simp [Table.find, Table.empty])⟩

end backed

/-! ## Every claim is made by the event that it backs -/

/-- What one commit does.  A response that it persists consumes a live record that authorises
it, and a record that it consumes is named by an event that it persists.  It gives back a
record only when an event that consumed this was not delivered, and it changes nothing else
of a record. -/
structure ClaimLaw (me : IdentityId) (s s' : Tables) : Prop where
  responses : ∀ e ∈ s'.events.rows, e ∉ s.events.rows → e.sender = me → e.sealed_envelope.payload.Response →
    ∃ r now, s.human_approvals.find r.approval_id = some r ∧ r.consumed_at = none ∧ Authorises r e ∧
      s'.human_approvals.find r.approval_id = some { r with consumed_at := some now }
  consumed : ∀ r r', s.human_approvals.find r.approval_id = some r → r.consumed_at = none →
    s'.human_approvals.find r.approval_id = some r' → r'.consumed_at.isSome →
    ∃ e ∈ s'.events.rows, e ∉ s.events.rows ∧ e.sender = me ∧
      e.sealed_envelope.payload.approvalId = some r.approval_id ∧
      (e.sealed_envelope.payload.Response → Authorises r e)
  restored : ∀ r r', s.human_approvals.find r.approval_id = some r → r.consumed_at.isSome →
    s'.human_approvals.find r.approval_id = some r' → r'.consumed_at = none → s'.Undelivered r.approval_id
  kept : ∀ r, s.human_approvals.find r.approval_id = some r →
    ∃ consumed_at, s'.human_approvals.find r.approval_id = some { r with consumed_at }

section records

variable {me : IdentityId} {s t s' : Tables}

theorem ClaimLaw.persisted (hsent : Persisted header payload now s s' ev)
    (hme : header.sender = me) : ClaimLaw me s s' := by
  have hnew : ev ∉ s.events.rows := by
    intro hmem
    exact Table.find_eq_none.mp (Table.insert_eq_some hsent.events).1 ev hmem rfl
  obtain ⟨-, hother, hsame⟩ | ⟨c, hid, hc, hlive, hauth, hfind⟩ := hsent.claim
  · refine ⟨fun e he hold _ hresponse => ?_, fun r r' hr hlive hr' hused => ?_,
      fun r r' hr hused hr' hfree => ?_, fun r hr => ⟨r.consumed_at, hsame ▸ hr⟩⟩
    · obtain he | rfl := hsent.mem_events.mp he
      · exact absurd he hold
      · exact absurd (hsent.content ▸ hresponse) hother
    · rw [hsame, hr] at hr'
      rw [← Option.some.inj hr', hlive] at hused
      exact absurd hused (by simp)
    · rw [hsame, hr] at hr'
      rw [Option.some.inj hr', hfree] at hused
      exact absurd hused (by simp)
  · refine ⟨fun e he hold _ hresponse => ?_, fun r r' hr hrlive hr' hused => ?_,
      fun r r' hr hused hr' hfree => ?_, fun r hr => ?_⟩
    · obtain he | rfl := hsent.mem_events.mp he
      · exact absurd he hold
      · exact ⟨c, now, hc, hlive, hauth (hsent.content ▸ hresponse), by rw [hfind, if_pos rfl]⟩
    · rw [hfind] at hr'
      split_ifs at hr' with heq
      · obtain rfl : r = c := Option.some.inj (hr.symm.trans (heq ▸ hc))
        exact ⟨ev, hsent.mem_events.mpr (Or.inr rfl), hnew, hsent.sender.trans hme, by rw [hsent.content, hid],
          fun hresponse => hauth (hsent.content ▸ hresponse)⟩
      · rw [hr] at hr'
        rw [← Option.some.inj hr', hrlive] at hused
        exact absurd hused (by simp)
    · rw [hfind] at hr'
      split_ifs at hr' with heq
      · rw [← Option.some.inj hr'] at hfree
        exact absurd hfree (by simp)
      · rw [hr] at hr'
        rw [Option.some.inj hr', hfree] at hused
        exact absurd hused (by simp)
    · rw [hfind]
      split_ifs with heq
      · obtain rfl : r = c := Option.some.inj (hr.symm.trans (heq ▸ hc))
        exact ⟨some now, rfl⟩
      · exact ⟨r.consumed_at, hr⟩

/-- Approvals that only gain live records are not consumed. -/
theorem ClaimLaw.quiet (hevents : ∀ e ∈ s'.events.rows, e.sender = me → e ∈ s.events.rows)
    (happrovals : ∀ r, s.human_approvals.find r.approval_id = some r →
      s'.human_approvals.find r.approval_id = some r) : ClaimLaw me s s' := by
  refine ⟨fun e he hold hsender _ => absurd (hevents e he hsender) hold, fun r r' hr hlive hr' hused => ?_,
    fun r r' hr hused hr' hfree => ?_, fun r hr => ⟨r.consumed_at, happrovals r hr⟩⟩
  · rw [happrovals r hr] at hr'
    rw [← Option.some.inj hr', hlive] at hused
    exact absurd hused (by simp)
  · rw [happrovals r hr] at hr'
    rw [Option.some.inj hr', hfree] at hused
    exact absurd hused (by simp)

/-- A transaction that first takes in an event of the peer. -/
theorem ClaimLaw.after_arrived (harrived : Arrived o s t) (hpeer : o.envelope.header.sender ≠ me)
    (h : ClaimLaw me t s') : ClaimLaw me s s' := by
  have hsame : ∀ {r : Approval}, s.human_approvals.find r.approval_id = some r →
      t.human_approvals.find r.approval_id = some r := fun hr => harrived.human_approvals.symm ▸ hr
  refine ⟨fun e he hold hsender hresponse => ?_, fun r r' hr hlive hr' hused => ?_,
    fun r r' hr => h.restored r r' (hsame hr), fun r hr => h.kept r (hsame hr)⟩
  · have hold' : e ∉ t.events.rows := by
      intro hmem
      obtain hmem | rfl := (Table.mem_of_insert harrived.events).mp hmem
      · exact hold hmem
      · exact hpeer hsender
    obtain ⟨r, now, hr, hrest⟩ := h.responses e he hold' hsender hresponse
    exact ⟨r, now, harrived.human_approvals ▸ hr, hrest⟩
  · obtain ⟨e, he, hold, hrest⟩ := h.consumed r r' (hsame hr) hlive hr' hused
    exact ⟨e, he, fun hmem => hold ((Table.mem_of_insert harrived.events).mpr (Or.inl hmem)), hrest⟩

/-- `run_due` persists nothing and consumes nothing. -/
theorem ClaimLaw.moved (hmoved : Moved s s') : ClaimLaw me s s' := by
  refine ⟨fun e he hold _ _ => absurd (hmoved.events ▸ he) hold, fun r r' hr hlive hr' hused => ?_,
    fun r r' hr hused hr' hfree => ?_, fun r hr => ?_⟩
  · obtain heq | ⟨-, heq⟩ := hmoved.record hr
    · rw [heq] at hr'
      rw [← Option.some.inj hr', hlive] at hused
      exact absurd hused (by simp)
    · rw [heq] at hr'
      rw [← Option.some.inj hr'] at hused
      exact absurd hused (by simp)
  · obtain heq | ⟨hun, -⟩ := hmoved.record hr
    · rw [heq] at hr'
      rw [Option.some.inj hr', hfree] at hused
      exact absurd hused (by simp)
    · exact hun
  · obtain heq | ⟨-, heq⟩ := hmoved.record hr
    · exact ⟨r.consumed_at, heq⟩
    · exact ⟨none, heq⟩

theorem ClaimLaw.effect {op : Op} (heffect : Effect me op s s') : ClaimLaw me s s' := by
  cases heffect with
  | approved hins =>
    refine .quiet (fun e he _ => he) (fun r hr => ?_)
    rw [Table.find_of_insert hins, if_neg, hr]
    intro heq
    rw [heq, (Table.insert_eq_some hins).1] at hr
    exact absurd hr (by simp)
  | sent hsent => exact .persisted hsent rfl
  | received hpeer harrived =>
    refine .quiet (fun e he hsender => ?_) (fun r hr => harrived.human_approvals.symm ▸ hr)
    obtain he | rfl := (Table.mem_of_insert harrived.events).mp he
    · exact he
    · exact absurd hsender hpeer
  | receipted hpeer harrived hsent => exact (ClaimLaw.persisted hsent rfl).after_arrived harrived hpeer
  | projected => exact .quiet (fun e he _ => he) (fun r hr => hr)
  | moved hmoved => exact .moved hmoved

/-- In every run, each own response has a record of its relationship, subject, answer and
decision, which the commit that persisted the response consumed, and which is consumed until
`run_due` gives it back for an event that was not delivered.  Each consumed record is named by
an own event, and if this is a response it authorises it.  Equal encodings come from equal
choice lists. -/
theorem approval_backed_responses {peers : Peers me} {S S' : Served Tables SendError Result Op}
    {turn : Turn SendError Op} (h : (outbox peers).Reachable S) (hstep : (outbox peers).step S turn = some S') :
    Backed me S.db ∧ ClaimLaw me S.db S'.db ∧
      ∀ xs ys answer, pollAnswer xs = .ok answer → pollAnswer ys = .ok answer → xs = ys := by
  refine ⟨?_, ?_, fun _ _ _ => pollAnswer_injective⟩
  · exact outbox_invariant (Backed.initial me) (fun _ _ _ heffect hs => hs.effect heffect) h
  · obtain heq | ⟨_, _, -, -, heffect⟩ := outbox_step h hstep
    · rw [heq]
      exact .quiet (fun e he _ => he) (fun r hr => hr)
    · exact .effect heffect

end records

/-! ## A refusal that is sent -/

/-- The human answers "n" to the request 9, and refuses. -/
def refusal : Approval := ⟨70, ⟨5, .human_request, 9, [110], false⟩, 1000, none⟩

/-- The record of the refusal, a send for it that fails after the claim, and one that goes
on to its commit. -/
def refusalRun : List (Turn SendError Op) :=
  let draft := { sampleDraft 10 (.humanResponded 9 [.scalar 'n'] false (some 70)) with expires_at := some 200 }
  [.call (.approve refusal), .call (.send draft {}), .call (.send draft { now := 300 })] ++
    List.replicate 3 (.advance 0) ++ List.replicate 3 (.advance 1) ++ [.fault 1 .failed] ++
    List.replicate 10 (.advance 2)

/-- The send goes on, and its `run_due` comes when the event has expired. -/
def expiredRun : List (Turn SendError Op) := refusalRun ++ List.replicate 11 (.advance 2)

theorem reachable_sampleTables {turns : List (Turn SendError Op)} {S : Served Tables SendError Result Op}
    (hrun : (outbox samplePeers).run { db := sampleTables } turns = some S) : (outbox samplePeers).Reachable S :=
  Machine.reachable_of_run ⟨⟨_, _, rfl⟩, rfl, rfl⟩ hrun

/-- The commit of the response consumes the record, which the failing send did not, and the
expiry of the response gives it back. -/
theorem approval_backed_responses_refusalRun :
    (∃ S S', (outbox samplePeers).run { db := sampleTables } refusalRun = some S ∧
      (outbox samplePeers).step S (.advance 2) = some S' ∧
      S.db.human_approvals.rows.map (·.consumed_at) = [none] ∧
      S'.db.human_approvals.rows.map (·.consumed_at) = [some 100] ∧
      S'.db.events.rows.map (·.event_id) = [10] ∧
      (Backed 1 S.db ∧ ClaimLaw 1 S.db S'.db ∧
        ∀ xs ys answer, pollAnswer xs = .ok answer → pollAnswer ys = .ok answer → xs = ys)) ∧
    ∃ S S', (outbox samplePeers).run { db := sampleTables } expiredRun = some S ∧
      (outbox samplePeers).step S (.advance 2) = some S' ∧
      S.db.human_approvals.rows.map (·.consumed_at) = [some 100] ∧
      S'.db.human_approvals.rows.map (·.consumed_at) = [none] ∧
      S'.db.events.rows.map (·.event_id) = [10] ∧
      (Backed 1 S.db ∧ ClaimLaw 1 S.db S'.db ∧
        ∀ xs ys answer, pollAnswer xs = .ok answer → pollAnswer ys = .ok answer → xs = ys) := by
  constructor
  · obtain ⟨S, hrun, hlive, S', hstep, hused, hrows⟩ :
        ∃ S, (outbox samplePeers).run { db := sampleTables } refusalRun = some S ∧
          S.db.human_approvals.rows.map (·.consumed_at) = [none] ∧
          ∃ S', (outbox samplePeers).step S (.advance 2) = some S' ∧
            S'.db.human_approvals.rows.map (·.consumed_at) = [some 100] ∧
            S'.db.events.rows.map (·.event_id) = [10] := by
      decide +kernel
    exact ⟨S, S', hrun, hstep, hlive, hused, hrows, approval_backed_responses (reachable_sampleTables hrun) hstep⟩
  · obtain ⟨S, hrun, hused, S', hstep, hfree, hrows⟩ :
        ∃ S, (outbox samplePeers).run { db := sampleTables } expiredRun = some S ∧
          S.db.human_approvals.rows.map (·.consumed_at) = [some 100] ∧
          ∃ S', (outbox samplePeers).step S (.advance 2) = some S' ∧
            S'.db.human_approvals.rows.map (·.consumed_at) = [none] ∧
            S'.db.events.rows.map (·.event_id) = [10] := by
      decide +kernel
    exact ⟨S, S', hrun, hstep, hused, hfree, hrows, approval_backed_responses (reachable_sampleTables hrun) hstep⟩

/-- A response may stand on a record whose decision is a refusal. -/
theorem rejected_answer_is_sent :
    ¬ ∀ S, (outbox samplePeers).Reachable S → ∀ e ∈ S.db.events.rows, e.sender = 1 →
      e.sealed_envelope.payload.Response →
      ∃ r ∈ S.db.human_approvals.rows, Authorises r e ∧ r.binding.approved = true := by
  intro hall
  obtain ⟨S, hrun, hrows, hrecords⟩ :
      ∃ S, (outbox samplePeers).run { db := sampleTables } (refusalRun ++ [.advance 2]) = some S ∧
        (∃ e ∈ S.db.events.rows, e.sender = 1 ∧ e.sealed_envelope.payload.Response) ∧
        ∀ r ∈ S.db.human_approvals.rows, r.binding.approved = false := by
    decide +kernel
  obtain ⟨e, he, hsender, hresponse⟩ := hrows
  obtain ⟨r, hr, -, happroved⟩ := hall S (reachable_sampleTables hrun) e he hsender hresponse
  rw [hrecords r hr] at happroved
  exact absurd happroved (by simp)

end MuseAgentSocial.Outbox
