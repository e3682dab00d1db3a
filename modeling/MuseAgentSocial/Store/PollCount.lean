import Mathlib.Data.List.Induction
import MuseAgentSocial.Store.Ballot

/-!
# The orders of a ballot

`ballot_order_free_iff` says for which ballots the count does not depend on the
order of arrival.  A response that waited is judged by the time of the poll, and
a later response of one sender takes the place of an earlier one.

* `Settled.orderFree`: in a settled ballot the accepted responses are the
  countable ones.
* `OrderFree.settled`: each clause is forced by an order in which a response
  comes first or last before the poll.
* `Ballot.fresh`: a reachable node that has logged nothing of a ballot has no
  rows of it.
-/

namespace MuseAgentSocial.Store

open Model Crypto Policy

namespace Ballot

variable {b : Ballot} {db₀ db : Database} {pre : List Event} {r : Event}
  {seen : IdentityId → Option PollResponse}

/-! ## The count -/

section tally

variable {l l' : List (Event × Nat)} {q : Event × Nat} {sender : IdentityId} {row : PollResponse}

theorem tally_mem (h : b.tally l sender = some row) :
    ∃ q ∈ l, b.accepts q.1 q.2 = true ∧ q.1.sender = sender ∧ row = b.response q.1 q.2 := by
  induction l using List.reverseRec with
  | nil => exact absurd h.symm (Option.some_ne_none row)
  | append_singleton l q ih =>
    rw [tally_concat] at h
    unfold count at h
    split_ifs at h with haccepts
    · rw [Function.update_apply] at h
      split_ifs at h with hsender
      · exact ⟨q, List.mem_append_right l List.mem_cons_self, haccepts, hsender.symm,
          (Option.some.inj h).symm⟩
      · obtain ⟨q', hq', hrest⟩ := ih h
        exact ⟨q', List.mem_append_left _ hq', hrest⟩
    · obtain ⟨q', hq', hrest⟩ := ih h
      exact ⟨q', List.mem_append_left _ hq', hrest⟩

theorem tally_isSome (hq : q ∈ l) (haccepts : b.accepts q.1 q.2 = true) :
    (b.tally l q.1.sender).isSome := by
  induction l using List.reverseRec with
  | nil => exact absurd hq List.not_mem_nil
  | append_singleton l q' ih =>
    rw [tally_concat]
    rcases List.mem_append.mp hq with hq | hq
    · unfold count
      split_ifs
      · rw [Function.update_apply]
        split_ifs
        · rfl
        · exact ih hq
      · exact ih hq
    · rw [List.mem_singleton.mp hq] at haccepts ⊢
      unfold count
      rw [if_pos haccepts, Function.update_self]
      rfl

/-- Responses that are not accepted do not change the count. -/
theorem tally_append_of_not_accepted (h : ∀ q ∈ l', b.accepts q.1 q.2 = false) :
    b.tally (l ++ l') = b.tally l := by
  induction l' using List.reverseRec with
  | nil => rw [List.append_nil]
  | append_singleton l' q ih =>
    rw [← List.append_assoc, tally_concat, ih (fun q hq => h q (List.mem_append_left _ hq))]
    unfold count
    rw [h q (List.mem_append_right _ List.mem_cons_self), if_neg Bool.false_ne_true]

theorem mem_judged {post : List Event} {t : Nat} :
    (r, t) ∈ b.judged pre post ↔
      (r ∈ pre ∧ b.own r = true ∧ t = time b.poll) ∨ (r ∈ post ∧ t = time r) := by
  simp only [judged, List.mem_append, List.mem_map, List.mem_filter, Prod.mk.injEq]
  constructor
  · rintro (⟨e, ⟨he, hown⟩, rfl, rfl⟩ | ⟨e, he, rfl, rfl⟩)
    · exact Or.inl ⟨he, hown, rfl⟩
    · exact Or.inr ⟨he, rfl⟩
  · rintro (⟨he, hown, rfl⟩ | ⟨he, rfl⟩)
    · exact Or.inl ⟨r, ⟨he, hown⟩, rfl, rfl⟩
    · exact Or.inr ⟨r, he, rfl, rfl⟩

end tally

theorem eq_of_id {r' : Event} (hd : b.Deliverable db₀) (hr : r ∈ b.responses) (hr' : r' ∈ b.responses)
    (hid : r.event_id = r'.event_id) : r = r' := by
  have hpairwise : b.responses.Pairwise Apart := (List.pairwise_cons.mp hd.distinct).2
  by_contra hne
  exact (hpairwise.forall hr hr' hne).1 hid

theorem Open.counted {post : List Event} (h : b.Open (b.tally (b.judged pre post)) db)
    (hd : b.Deliverable db₀) (ho : Order b pre post) (hr : r ∈ b.responses)
    (hc : Counted db b.poll.event_id r) :
    ∃ t, (r, t) ∈ b.judged pre post ∧ b.accepts r t = true := by
  obtain ⟨row, hrow, hid⟩ := hc
  rw [h.rows] at hrow
  obtain ⟨⟨r', t⟩, hmem, haccepts, -, rfl⟩ := tally_mem hrow
  rw [response_event] at hid
  have hr' : r' ∈ b.responses := by
    rcases mem_judged.mp hmem with ⟨hpre, -⟩ | ⟨hpost, -⟩
    · exact ho.mem.mpr (Or.inl hpre)
    · exact ho.mem.mpr (Or.inr hpost)
  obtain rfl := eq_of_id hd hr' hr hid
  exact ⟨t, hmem, haccepts⟩

theorem Absent.not_counted (h : b.Absent db) : ¬ Counted db b.poll.event_id r := by
  rintro ⟨row, hrow, -⟩
  rw [h.rows] at hrow
  exact Option.some_ne_none row hrow.symm

/-! ### The thread of the poll -/

section threads

variable {threads : Table ThreadRow.thread_id} {t : ThreadId} {row : ThreadRow}

theorem find_enrol (threads : Table ThreadRow.thread_id) (ev : Event) (t : ThreadId) :
    (enrol threads ev).find t =
      if ev.thread_id = some t then
        (threads.find t).or (some ⟨t, ev.conversation_id⟩)
      else threads.find t := by
  unfold enrol
  cases hthread : ev.thread_id with
  | none => rfl
  | some t' =>
    show Table.find (Table.insertOrIgnore _ _) t = _
    rw [Table.find_insertOrIgnore]
    by_cases ht : t' = t
    · rw [if_pos (congrArg some ht), if_pos ht.symm, ht]
      cases threads.find t with
      | none => rfl
      | some row => rfl
    · rw [if_neg (fun heq => ht (Option.some.inj heq)), if_neg (fun heq => ht heq.symm)]

theorem find_enrol_of_some {evs : List Event} (h : threads.find t = some row) :
    (evs.foldl enrol threads).find t = some row := by
  induction evs generalizing threads with
  | nil => exact h
  | cons ev evs ih =>
    refine ih ?_
    rw [find_enrol, h]
    split_ifs <;> rfl

theorem find_enrol_cases {evs : List Event} (h : (evs.foldl enrol threads).find t = some row) :
    threads.find t = some row ∨ (threads.find t = none ∧ ∃ e ∈ evs, e.thread_id = some t ∧
      row.conversation_id = e.conversation_id) := by
  induction evs generalizing threads with
  | nil => exact Or.inl h
  | cons ev evs ih =>
    rcases ih h with hfind | ⟨hnone, e, he, hrest⟩
    · rw [find_enrol] at hfind
      split_ifs at hfind with hthread
      · cases hold : threads.find t with
        | some row' =>
          rw [hold] at hfind
          exact Or.inl hfind
        | none =>
          rw [hold] at hfind
          obtain rfl := Option.some.inj hfind
          exact Or.inr ⟨rfl, ev, List.mem_cons_self, hthread, rfl⟩
      · exact Or.inl hfind
    · rw [find_enrol] at hnone
      split_ifs at hnone with hthread
      · cases hold : threads.find t with
        | some row' =>
          rw [hold] at hnone
          exact absurd hnone (Option.some_ne_none row')
        | none =>
          rw [hold] at hnone
          exact absurd hnone (Option.some_ne_none _)
      · exact Or.inr ⟨hnone, e, List.mem_cons_of_mem ev he, hrest⟩

theorem find_enrol_isSome {evs : List Event} {e : Event} (he : e ∈ evs) (ht : e.thread_id = some t) :
    ∃ row, (evs.foldl enrol threads).find t = some row := by
  induction evs generalizing threads with
  | nil => exact absurd he List.not_mem_nil
  | cons ev evs ih =>
    rcases List.mem_cons.mp he with rfl | he
    · have hsome : ∃ row, (enrol threads e).find t = some row := by
        rw [find_enrol, if_pos ht]
        cases threads.find t with
        | none => exact ⟨_, rfl⟩
        | some row => exact ⟨row, rfl⟩
      obtain ⟨row, hrow⟩ := hsome
      refine ⟨row, ?_⟩
      rw [List.foldl_cons]
      exact find_enrol_of_some hrow
    · exact ih he

theorem Opens.after (h : b.Opens db₀) (hpre : ∀ e ∈ pre, e ∈ b.responses) : b.OpensAfter db₀ pre := by
  refine ⟨h.1, fun t ht row hrow => ?_⟩
  rcases find_enrol_cases hrow with hold | ⟨hnone, e, he, hthread, hconv⟩
  · exact (h.2 t ht).1 row hold
  · rw [hconv]
    exact (h.2 t ht).2 hnone e (hpre e he) hthread

/-- A response that waited for a poll that was accepted. -/
theorem OpensAfter.awaited (h : b.OpensAfter db₀ pre) (hpre : ∀ e ∈ pre, e ∈ b.responses) (hr : r ∈ pre) :
    b.Awaited db₀ r := by
  refine ⟨h.1, fun t ht => ⟨fun row hrow => h.2 t ht row (find_enrol_of_some hrow),
    fun hnone hthread _ => ?_⟩⟩
  obtain ⟨row, hrow⟩ := find_enrol_isSome hr hthread
  rcases find_enrol_cases hrow with hold | ⟨-, e, he, hethread, hconv⟩
  · rw [hnone] at hold
    exact absurd hold (Option.some_ne_none row).symm
  · exact ⟨e, hpre e he, hethread, hconv.symm.trans (h.2 t ht row hrow)⟩

end threads

/-! ### Settled ballots -/

/-- What a response says, whenever it is judged. -/
theorem response_answer (b : Ballot) (r : Event) (now now' : Nat) :
    (b.response r now).answer = (b.response r now').answer := by
  unfold response
  split <;> rfl

section settled

variable {post : List Event} {sender : IdentityId}

theorem Order.pre_mem (h : Order b pre post) : ∀ e ∈ pre, e ∈ b.responses :=
  fun _ he => h.mem.mpr (Or.inl he)

theorem Settled.countable_of_accepts {t : Nat} (hs : b.Settled db₀) (ho : Order b pre post)
    (hopens : b.OpensAfter db₀ pre) (hmem : (r, t) ∈ b.judged pre post)
    (haccepts : b.accepts r t = true) : b.countable r = true := by
  obtain ⟨hvalid, ht⟩ := accepts_iff.mp haccepts
  rcases mem_judged.mp hmem with ⟨hpre, hown, rfl⟩ | ⟨-, rfl⟩
  · refine countable_iff.mpr ⟨hvalid, ?_⟩
    by_contra hlate
    exact hs.late r (ho.pre_mem r hpre) hown hvalid (Nat.le_of_not_lt hlate) ht
      (hopens.awaited ho.pre_mem hpre)
  · exact countable_iff.mpr ⟨hvalid, ht⟩

theorem Settled.accepts_of_countable (hs : b.Settled db₀) (ho : Order b pre post) (hr : r ∈ b.responses)
    (hc : b.countable r = true) : ∃ t, (r, t) ∈ b.judged pre post ∧ b.accepts r t = true := by
  obtain ⟨hvalid, ht⟩ := countable_iff.mp hc
  obtain ⟨hown, htime, -⟩ := hs.in_time r hr hc
  rcases ho.mem.mp hr with hpre | hpost
  · exact ⟨time b.poll, mem_judged.mpr (Or.inl ⟨hpre, hown, rfl⟩), accepts_iff.mpr ⟨hvalid, htime⟩⟩
  · exact ⟨time r, mem_judged.mpr (Or.inr ⟨hpost, rfl⟩), accepts_iff.mpr ⟨hvalid, ht⟩⟩

theorem Settled.row (hs : b.Settled db₀) (ho : Order b pre post)
    (hresult : (b.OpensAfter db₀ pre → b.Open (b.tally (b.judged pre post)) db) ∧
      (¬ b.OpensAfter db₀ pre → b.Absent db)) (hr : r ∈ b.responses) (hc : b.countable r = true) :
    ∃ t, db.poll_responses.find (b.poll.event_id, r.sender) = some (b.response r t) := by
  have hopens := (hs.in_time r hr hc).2.2.after ho.pre_mem
  have hopen := hresult.1 hopens
  obtain ⟨t, hmem, haccepts⟩ := hs.accepts_of_countable ho hr hc
  obtain ⟨row, hrow⟩ := Option.isSome_iff_exists.mp (tally_isSome hmem haccepts)
  obtain ⟨⟨r', t'⟩, hmem', haccepts', hsender, rfl⟩ := tally_mem hrow
  have hc' := hs.countable_of_accepts ho hopens hmem' haccepts'
  have hr' : r' ∈ b.responses := by
    rcases mem_judged.mp hmem' with ⟨hpre, -⟩ | ⟨hpost, -⟩
    · exact ho.mem.mpr (Or.inl hpre)
    · exact ho.mem.mpr (Or.inr hpost)
  obtain rfl := hs.single r' hr' r hr hc' hc hsender
  exact ⟨t', (hopen.rows _).trans hrow⟩

theorem Settled.no_row (hs : b.Settled db₀) (ho : Order b pre post)
    (hresult : (b.OpensAfter db₀ pre → b.Open (b.tally (b.judged pre post)) db) ∧
      (¬ b.OpensAfter db₀ pre → b.Absent db))
    (hnone : ∀ r ∈ b.responses, r.sender = sender → b.countable r = false) :
    db.poll_responses.find (b.poll.event_id, sender) = none := by
  by_cases hopens : b.OpensAfter db₀ pre
  · rw [(hresult.1 hopens).rows]
    cases hrow : b.tally (b.judged pre post) sender with
    | none => rfl
    | some row =>
      obtain ⟨⟨r, t⟩, hmem, haccepts, hsender, -⟩ := tally_mem hrow
      have hr : r ∈ b.responses := by
        rcases mem_judged.mp hmem with ⟨hpre, -⟩ | ⟨hpost, -⟩
        · exact ho.mem.mpr (Or.inl hpre)
        · exact ho.mem.mpr (Or.inr hpost)
      have hc := hs.countable_of_accepts ho hopens hmem haccepts
      rw [hnone r hr hsender] at hc
      exact absurd hc Bool.false_ne_true
  · exact (hresult.2 hopens).rows sender

theorem Settled.counted_iff (hs : b.Settled db₀) (hd : b.Deliverable db₀) (ho : Order b pre post)
    (hresult : (b.OpensAfter db₀ pre → b.Open (b.tally (b.judged pre post)) db) ∧
      (¬ b.OpensAfter db₀ pre → b.Absent db)) (hr : r ∈ b.responses) :
    Counted db b.poll.event_id r ↔ b.countable r = true := by
  constructor
  · intro hc
    by_cases hopens : b.OpensAfter db₀ pre
    · obtain ⟨t, hmem, haccepts⟩ := (hresult.1 hopens).counted hd ho hr hc
      exact hs.countable_of_accepts ho hopens hmem haccepts
    · exact absurd hc (hresult.2 hopens).not_counted
  · intro hc
    obtain ⟨t, hrow⟩ := hs.row ho hresult hr hc
    exact ⟨_, hrow, response_event b r t⟩

theorem order_of_perm {order : List Event} (h : order.Perm (b.poll :: b.responses)) :
    ∃ pre post, order = pre ++ b.poll :: post ∧ Order b pre post := by
  obtain ⟨pre, post, rfl⟩ := List.append_of_mem (h.mem_iff.mpr List.mem_cons_self)
  exact ⟨pre, post, rfl, ⟨h⟩⟩

theorem Settled.orderFree {clock : Event → Nat} (hs : b.Settled db₀) (hf : b.Fresh db₀) :
    b.OrderFree clock db₀ := by
  intro order hperm
  obtain ⟨pre, post, rfl, ho⟩ := order_of_perm hperm
  obtain ⟨db, hrun, hresult⟩ := arriveAll_order hf ho
  refine ⟨db, hrun, fun r hr => hs.counted_iff hf.deliverable ho hresult hr, ?_, ?_⟩
  · intro order' db'' hperm' hrun' sender
    obtain ⟨pre', post', rfl, ho'⟩ := order_of_perm hperm'
    obtain ⟨db', hrun'', hresult'⟩ := arriveAll_order hf ho'
    obtain rfl := Option.some.inj (hrun'.symm.trans hrun'')
    by_cases hsome : ∃ r ∈ b.responses, r.sender = sender ∧ b.countable r = true
    · obtain ⟨r, hr, rfl, hc⟩ := hsome
      obtain ⟨t, hrow⟩ := hs.row ho hresult hr hc
      obtain ⟨t', hrow'⟩ := hs.row ho' hresult' hr hc
      rw [hrow, hrow', Option.map_some, Option.map_some, response_answer b r t t']
    · have hnone : ∀ r ∈ b.responses, r.sender = sender → b.countable r = false := fun r hr hsender =>
        Bool.eq_false_iff.mpr fun hc => hsome ⟨r, hr, hsender, hc⟩
      rw [hs.no_row ho hresult hnone, hs.no_row ho' hresult' hnone]
  · intro row hrow
    by_cases hopens : b.OpensAfter db₀ pre
    · obtain ⟨n, hpoll, hcount⟩ := (hresult.1 hopens).poll
      rw [hrow] at hpoll
      rw [Option.some.inj hpoll]
      exact hcount
    · rw [(hresult.2 hopens).poll] at hrow
      exact absurd hrow (Option.some_ne_none row).symm

end settled

/-! ### Ballots that are not settled -/

section unsettled

variable {post : List Event} {clock : Event → Nat}

/-- What an order shows about a ballot whose count does not depend on it. -/
theorem OrderFree.result (h : b.OrderFree clock db₀) (hf : b.Fresh db₀) (ho : Order b pre post) :
    ∃ db, ((b.OpensAfter db₀ pre → b.Open (b.tally (b.judged pre post)) db) ∧
      (¬ b.OpensAfter db₀ pre → b.Absent db)) ∧
      ∀ r ∈ b.responses, Counted db b.poll.event_id r ↔ b.countable r = true := by
  obtain ⟨db, hrun, hresult⟩ := arriveAll_order hf ho
  obtain ⟨db', hrun', hcounted, -⟩ := h _ ho.perm
  obtain rfl := Option.some.inj (hrun.symm.trans hrun')
  exact ⟨db, hresult, hcounted⟩

theorem OrderFree.accepts (h : b.OrderFree clock db₀) (hf : b.Fresh db₀) (ho : Order b pre post)
    (hr : r ∈ b.responses) (hc : b.countable r = true) :
    b.OpensAfter db₀ pre ∧ ∃ t, (r, t) ∈ b.judged pre post ∧ b.accepts r t = true := by
  obtain ⟨db, hresult, hcounted⟩ := h.result hf ho
  have hcount := (hcounted r hr).mpr hc
  by_cases hopens : b.OpensAfter db₀ pre
  · exact ⟨hopens, (hresult.1 hopens).counted hf.deliverable ho hr hcount⟩
  · exact absurd hcount (hresult.2 hopens).not_counted

theorem order_first (hpre : (pre ++ post).Perm b.responses) : Order b pre post :=
  ⟨List.perm_middle.trans (hpre.cons b.poll)⟩

theorem order_single (hr : r ∈ b.responses) : Order b [r] (b.responses.erase r) :=
  order_first (List.perm_cons_erase hr).symm

theorem OrderFree.in_time (h : b.OrderFree clock db₀) (hf : b.Fresh db₀) (hr : r ∈ b.responses)
    (hc : b.countable r = true) : b.own r = true ∧ time b.poll < b.closes_at ∧ b.Opens db₀ := by
  have ho := order_single hr
  obtain ⟨hopens, t, hmem, haccepts⟩ := h.accepts hf ho hr hc
  have hnotmem : r ∉ b.responses.erase r := by
    intro hmem
    have hapart := ho.apart hf.deliverable
    have hself := (List.pairwise_cons.mp hapart).1 r (List.mem_cons_of_mem b.poll hmem)
    exact hself.1 rfl
  rcases mem_judged.mp hmem with ⟨-, hown, rfl⟩ | ⟨hpost, -⟩
  · refine ⟨hown, (accepts_iff.mp haccepts).2, hopens.1, fun t ht => ⟨fun row hrow => ?_, ?_⟩⟩
    · exact hopens.2 t ht row (find_enrol_of_some hrow)
    · -- In the order that starts with another response the poll is accepted too.
      intro hnone r' hr' hthread
      obtain ⟨hopens', -⟩ := h.accepts hf (order_single hr') hr hc
      refine hopens'.2 t ht ⟨t, r'.conversation_id⟩ ?_
      rw [List.foldl_cons, List.foldl_nil, find_enrol, if_pos hthread, hnone]
      rfl
  · exact absurd hpost hnotmem

/-- A late response that waits last before a poll that is accepted in time
counts, unless a later one takes its place. -/
theorem OrderFree.not_late (h : b.OrderFree clock db₀) (hf : b.Fresh db₀) (hr : r ∈ b.responses)
    (ho : Order b (pre ++ [r]) post) (hopens : b.OpensAfter db₀ (pre ++ [r])) (hown : b.own r = true)
    (hvalid : b.valid r = true) (hpoll : time b.poll < b.closes_at)
    (hpost : ∀ e ∈ post, b.countable e = false) : time r < b.closes_at := by
  obtain ⟨db, hresult, hcounted⟩ := h.result hf ho
  have haccepts : b.accepts r (time b.poll) = true := accepts_iff.mpr ⟨hvalid, hpoll⟩
  have hlast : b.tally (b.judged (pre ++ [r]) post) r.sender = some (b.response r (time b.poll)) := by
    have hsplit : b.judged (pre ++ [r]) post =
        ((pre.filter b.own).map (fun r => (r, time b.poll)) ++ [(r, time b.poll)]) ++
          post.map (fun r => (r, time r)) := by
      unfold judged
      rw [List.filter_append, List.filter_cons_of_pos hown, List.filter_nil, List.map_append]
      rfl
    rw [hsplit, tally_append_of_not_accepted, tally_concat]
    · unfold count
      rw [if_pos haccepts, Function.update_self]
    · intro q hq
      obtain ⟨e, he, rfl⟩ := List.mem_map.mp hq
      exact hpost e he
  have hcount : Counted db b.poll.event_id r :=
    ⟨_, ((hresult.1 hopens).rows _).trans hlast, response_event b r _⟩
  exact (countable_iff.mp ((hcounted r hr).mp hcount)).2

theorem OrderFree.late (h : b.OrderFree clock db₀) (hf : b.Fresh db₀) (hr : r ∈ b.responses)
    (hown : b.own r = true) (hvalid : b.valid r = true) (hlate : b.closes_at ≤ time r)
    (hpoll : time b.poll < b.closes_at) : ¬ b.Awaited db₀ r := by
  intro hawaited
  have hnot : ¬ time r < b.closes_at := Nat.not_lt.mpr hlate
  by_cases hsome : ∃ r' ∈ b.responses, b.countable r' = true
  · -- All other responses come before it.
    obtain ⟨r', hr', hc⟩ := hsome
    have hopens := (h.in_time hf hr' hc).2.2
    have ho : Order b (b.responses.erase r ++ [r]) [] := by
      refine order_first ?_
      rw [List.append_nil]
      exact (List.perm_append_singleton r _).trans (List.perm_cons_erase hr).symm
    exact hnot (h.not_late hf hr ho (hopens.after ho.pre_mem) hown hvalid hpoll
      (fun e he => absurd he List.not_mem_nil))
  · -- It comes first, after a response that names the thread as the poll does.
    have hnone : ∀ e ∈ b.responses, b.countable e = false := fun e he =>
      Bool.eq_false_iff.mpr fun hc => hsome ⟨e, he, hc⟩
    have hfirst : ∀ pre post, Order b (pre ++ [r]) post → ¬ b.OpensAfter db₀ (pre ++ [r]) :=
      fun pre post ho hopens => hnot (h.not_late hf hr ho hopens hown hvalid hpoll
        (fun e he => hnone e (ho.mem.mpr (Or.inr he))))
    have hsingle := hfirst [] _ (order_single hr)
    apply hsingle
    refine ⟨hawaited.1, fun t ht row hrow => ?_⟩
    by_contra hastray
    rcases find_enrol_cases hrow with hold | ⟨hfree, e, he, hthread, hconv⟩
    · exact hastray ((hawaited.2 t ht).1 row hold)
    · obtain rfl := List.mem_singleton.mp he
      rw [hconv] at hastray
      obtain ⟨r', hr', hthread', hconv'⟩ := (hawaited.2 t ht).2 hfree hthread hastray
      have hne : r' ≠ e := fun heq => hastray (heq ▸ hconv')
      have hperm : ([r'] ++ [e] ++ (b.responses.erase e).erase r').Perm b.responses := by
        have hmem : r' ∈ b.responses.erase e := (List.mem_erase_of_ne hne).mpr hr'
        refine (List.Perm.swap e r' _).trans ?_
        exact ((List.perm_cons_erase hmem).symm.cons e).trans (List.perm_cons_erase hr).symm
      refine hfirst [r'] _ (order_first hperm) ⟨hawaited.1, fun t' ht' row' hrow' => ?_⟩
      obtain rfl := Option.some.inj (ht.symm.trans ht')
      have hfound : (enrol db₀.threads r').find t = some ⟨t, r'.conversation_id⟩ := by
        rw [find_enrol, if_pos hthread', hfree]
        rfl
      have hkept : ([e].foldl enrol (enrol db₀.threads r')).find t = some ⟨t, r'.conversation_id⟩ :=
        find_enrol_of_some hfound
      obtain rfl := Option.some.inj (hrow'.symm.trans hkept)
      exact hconv'

theorem OrderFree.settled (h : b.OrderFree clock db₀) (hf : b.Fresh db₀) : b.Settled db₀ where
  in_time _ hr hc := h.in_time hf hr hc
  late _ hr hown hvalid hlate hpoll := h.late hf hr hown hvalid hlate hpoll
  single r hr r' hr' hc hc' hsender := by
    obtain ⟨db, -, hcounted⟩ := h.result hf (@order_first b [] _ (List.Perm.refl b.responses))
    obtain ⟨row, hrow, hid⟩ := (hcounted r hr).mpr hc
    obtain ⟨row', hrow', hid'⟩ := (hcounted r' hr').mpr hc'
    rw [← hsender] at hrow'
    obtain rfl := Option.some.inj (hrow.symm.trans hrow')
    exact eq_of_id hf.deliverable hr hr' (hid.symm.trans hid')

end unsettled

end Ballot

/-! ## Reachable nodes -/

/-- Every row of a response is of a logged response to its poll. -/
def Attributed (db : Database) : Prop :=
  db.poll_responses.All (fun row => ∃ e, db.events.find row.response_event_id = some e ∧
    e.answers row.poll_id = true)

section attributed

variable {db db' : Database} {ev : Event} {rid : RelationshipId} {now clock : Nat} {P : Event → Prop}

theorem Attributed.of_same (h : Attributed db)
    (hfind : ∀ i e, db.events.find i = some e → db'.events.find i = some e)
    (hsame : db'.poll_responses = db.poll_responses) : Attributed db' := by
  unfold Attributed
  rw [hsame]
  exact h.imp fun _ ⟨e, he, hanswers⟩ => ⟨e, hfind _ e he, hanswers⟩

theorem Write.attributed (h : Write ev now db db') (ha : Attributed db)
    (hlog : db.events.find ev.event_id = some ev) : Attributed db' := by
  cases h with
  | thread hopens hjoins =>
    obtain ⟨_, _, heq⟩ := registerThread_eq db ev ‹_›
    rw [heq]
    exact ha
  | message hpayload hmessages hrevisions =>
    obtain ⟨_, heq⟩ := bumpThreadMessage_eq _ ev.thread_id ev.created_at
    rw [heq]
    exact ha
  | pollResponse hpayload hpoll haccepted =>
    refine Table.All.upsert ha ⟨ev, hlog, ?_⟩
    unfold Event.answers
    rw [hpayload]
    exact decide_eq_true rfl
  | _ => exact ha

theorem Effect.attributed (h : Effect rid P now db db') (ha : Attributed db) : Attributed db' := by
  cases h with
  | write hlog hP hwrite => exact hwrite.attributed ha hlog
  | sequence =>
    obtain ⟨_, _, heq⟩ := updateSeqState_eq db ‹_› now
    rw [heq]
    exact ha
  | _ => exact ha

theorem Effects.attributed (h : Effects rid P now db db') (ha : Attributed db) : Attributed db' :=
  h.invariant (fun _ _ _ ha heffect => heffect.attributed ha) ha

theorem step_attributed {s t : Node} {a : Act} (hs : Scoped s.db) (ha : Attributed s.db)
    (h : s.step a = some t) : Attributed t.db := by
  cases a with
  | pair rid peer =>
    obtain ⟨_, _, rfl⟩ := Option.map_eq_some_iff.mp h
    exact ha
  | approve approval =>
    obtain ⟨_, _, rfl⟩ := Option.map_eq_some_iff.mp h
    exact ha
  | send ev =>
    simp only [Node.step] at h
    split_ifs at h
    obtain ⟨db, hdb, rfl⟩ := Option.map_eq_some_iff.mp h
    refine ha.of_same (fun _ _ => find_of_append hdb) ?_
    obtain ⟨-, _, heq⟩ := append_events hdb
    rw [heq]
  | receive ev now =>
    simp only [Node.step] at h
    split_ifs at h
    obtain ⟨db, hdb, rfl⟩ := Option.map_eq_some_iff.mp h
    refine ha.of_same (fun _ _ => find_of_append hdb) ?_
    obtain ⟨-, _, heq⟩ := append_events hdb
    rw [heq]
  | project event_id clock =>
    obtain ⟨ev, hev, rfl⟩ := Option.map_eq_some_iff.mp h
    have hlog : s.db.events.find ev.event_id = some ev := by
      rw [Table.key_of_find hev]
      exact hev
    exact (projectEvent_effects hs hlog).attributed ha
  | rebuild rid clock =>
    rw [← Option.some.inj h]
    have hwiped : Attributed (wipe s.db rid) := Table.All.delete ha _
    exact (rebuild_invariant hs hwiped (fun _ _ _ _ _ _ _ ha heffects => heffects.attributed ha)).1
  | expire rid now =>
    rw [← Option.some.inj h]
    exact ha
  | pin event_id now =>
    simp only [Node.step, Option.bind_eq_some_iff] at h
    obtain ⟨ev, -, new, -, rel, -, h⟩ := h
    obtain ⟨rel', -, rfl⟩ := Option.map_eq_some_iff.mp h
    exact ha
  | rotate new =>
    rw [← Option.some.inj h]
    exact ha

theorem reachable_attributed {s : Node} (h : machine.Reachable s) : Attributed s.db := by
  suffices Scoped s.db ∧ Attributed s.db from this.2
  refine h.invariant (P := fun s => Scoped s.db ∧ Attributed s.db) (fun s hinit => ?_)
    (fun s a t hs _ hst => ⟨step_scoped hs.1 hst, step_attributed hs.1 hs.2 hst⟩)
  rw [hinit.1]
  exact ⟨.initial, Table.All.empty⟩

theorem Ballot.fresh {s : Node} {b : Ballot} (h : machine.Reachable s) (hd : b.Deliverable s.db)
    (hunanswered : ∀ e ∈ s.db.events.rows, e.answers b.poll.event_id = false) : b.Fresh s.db where
  scopes := reachable_scoped h
  deliverable := hd
  unanswered := hunanswered
  rows sender := by
    cases hrow : s.db.poll_responses.find (b.poll.event_id, sender) with
    | none => rfl
    | some row =>
      obtain ⟨e, he, hanswers⟩ := Table.All.find (reachable_attributed h) hrow
      have hkey : row.key = (b.poll.event_id, sender) := Table.key_of_find hrow
      rw [show row.poll_id = b.poll.event_id from (Prod.mk.inj hkey).1,
        hunanswered e (Table.find_eq_some.mp he).1] at hanswers
      exact absurd hanswers Bool.false_ne_true

end attributed

/-- For a node that has logged nothing of a ballot, the count does not depend on
the order of arrival exactly when the ballot is settled. -/
theorem ballot_order_free_iff {s : Node} {b : Ballot} (clock : Event → Nat) (h : machine.Reachable s)
    (hd : b.Deliverable s.db)
    (hunanswered : ∀ e ∈ s.db.events.rows, e.answers b.poll.event_id = false) :
    b.OrderFree clock s.db ↔ b.Settled s.db :=
  ⟨fun hfree => hfree.settled (Ballot.fresh h hd hunanswered),
    fun hsettled => hsettled.orderFree (Ballot.fresh h hd hunanswered)⟩

/-- A poll of the peer in thread 5. -/
def lunchPoll (received_at : Nat) : Event :=
  ⟨5, 1, 1, some 5, 2, 1, 10, 1, .pollCreated "lunch?" ["yes", "no"] 20 false, none, some received_at⟩

/-- A response to it, received before the poll closes. -/
def lunchResponse : Event :=
  ⟨6, 1, 1, some 5, 2, 2, 11, 1, .pollResponded 5 ["yes"] false none, none, some 15⟩

/-- The poll, received at the given time, with the one response. -/
def lunch (received_at : Nat) : Ballot where
  poll := lunchPoll received_at
  question := "lunch?"
  choices := ["yes", "no"]
  closes_at := 20
  multi_select := false
  responses := [lunchResponse]
  payload := rfl
  answers := by
    intro r hr
    rw [List.mem_singleton.mp hr]
    rfl
  received := by
    intro ev hev
    rcases List.mem_cons.mp hev with rfl | hev
    · rfl
    · rw [List.mem_singleton.mp hev]
      rfl

/-- A node that is paired with the peer. -/
def pairedNode : Node :=
  ⟨{ relationships := ⟨[⟨1, 2, none, none⟩], List.nodup_singleton _⟩ }, [1]⟩

theorem pairedNode_reachable : machine.Reachable pairedNode :=
  @Machine.reachable_of_run _ _ _ [.pair 1 2] ⟨{}, [1]⟩ _ ⟨rfl, List.cons_ne_nil _ _⟩ rfl

theorem lunch_deliverable (received_at : Nat) : (lunch received_at).Deliverable pairedNode.db where
  relationships := by
    intro ev hev
    rcases List.mem_cons.mp hev with rfl | hev
    · rfl
    · rw [List.mem_singleton.mp hev]
      rfl
  ids _ _ := rfl
  numbers _ _ e he := absurd he List.not_mem_nil
  distinct := by
    refine List.pairwise_cons.mpr ⟨fun e he => ?_, List.pairwise_singleton _ _⟩
    rw [List.mem_singleton.mp he]
    exact ⟨show (5 : Nat) ≠ 6 by decide, fun hsame => absurd hsame.2.2 (show ¬ (1 : Nat) = 2 by decide)⟩

/-- The theorem on the poll that is received in time. -/
theorem ballot_order_free_lunch :
    (machine.Reachable pairedNode ∧ (lunch 12).Deliverable pairedNode.db) ∧
      ((lunch 12).OrderFree (fun _ => 0) pairedNode.db ↔ (lunch 12).Settled pairedNode.db) :=
  ⟨⟨pairedNode_reachable, lunch_deliverable 12⟩,
    ballot_order_free_iff (fun _ => 0) pairedNode_reachable (lunch_deliverable 12)
      (fun _ he => absurd he List.not_mem_nil)⟩

/-- The response waits for a poll that is received after it closes, and does not
count. -/
theorem late_poll_drops_response : ∃ s b, machine.Reachable s ∧ Ballot.Deliverable b s.db ∧
    ¬ Ballot.OrderFree b (fun _ => 0) s.db := by
  refine ⟨pairedNode, lunch 25, pairedNode_reachable, lunch_deliverable 25, fun hfree => ?_⟩
  obtain ⟨db, hrun, hcounted, -⟩ := hfree [lunchResponse, lunchPoll 25] (List.Perm.swap _ _ [])
  have hrows : (arriveAll (fun _ => 0) [lunchResponse, lunchPoll 25] pairedNode.db).map
      (fun db => db.poll_responses.find (5, 2)) = some none := by decide +kernel
  rw [hrun] at hrows
  obtain ⟨row, hrow, -⟩ := (hcounted lunchResponse List.mem_cons_self).mpr (by decide)
  rw [Option.map_some, Option.some.injEq] at hrows
  exact Option.some_ne_none row (hrow.symm.trans hrows)

end MuseAgentSocial.Store
