import Mathlib.Data.List.Pairwise
import MuseAgentSocial.Store.Sequence

/-!
# Counting the responses to a poll

A poll and its responses arrive in any order.  A response that comes before the
poll waits in `pending_refs` and is dispatched again from inside the projection
of the poll.

* `Ballot` is a poll with its responses, and `arriveAll` their arrival in one
  order: each event enters the log and is projected.
* `Ballot.OrderFree`: in every order the responses that count are those with
  valid choices that were received before the poll closes.
* `Waiting`, `Open` and `Absent` are the phases of an arrival: the responses
  before the poll, an accepted poll, and no poll.
* `arriveAll_order`: what any order leaves, as a fold of `Ballot.count`.
-/

namespace MuseAgentSocial.Store

open Model Crypto Policy

/-! ## Ballots -/

/-- The event is a response to the poll. -/
def Event.answers (ev : Event) (poll_id : EventId) : Bool :=
  match ev.payload with
  | .pollResponded id _ _ _ => id = poll_id
  | _ => false

/-- The choices of a response. -/
def Event.choice_ids (ev : Event) : List String :=
  match ev.payload with
  | .pollResponded _ choice_ids _ _ => choice_ids
  | _ => []

/-- A poll with its responses, and the times at which they were accepted. -/
structure Ballot where
  poll : Event
  question : String
  choices : List String
  closes_at : Nat
  multi_select : Bool
  responses : List Event
  payload : poll.payload = .pollCreated question choices closes_at multi_select
  answers : ∀ r ∈ responses, r.answers poll.event_id = true
  received : ∀ ev ∈ poll :: responses, ev.received_at.isSome

namespace Ballot

variable (b : Ballot)

/-- The acceptance time of an event of the ballot. -/
def time (ev : Event) : Nat := ev.received_at.getD 0

/-- The choices are valid for the poll. -/
def valid (ev : Event) : Bool :=
  ev.choice_ids ≠ [] ∧ ev.choice_ids.Nodup ∧ (∀ c ∈ ev.choice_ids, c ∈ b.choices) ∧
    (b.multi_select ∨ ev.choice_ids.length = 1)

/-- The response has valid choices and was received before the poll closes. -/
def countable (ev : Event) : Bool := b.valid ev ∧ time ev < b.closes_at

/-- The response is of the relationship of the poll. -/
def own (ev : Event) : Bool := ev.relationship_id = b.poll.relationship_id

end Ballot

/-- The event enters the log and is projected. -/
def arrive (clock : Event → Nat) (db : Database) (ev : Event) : Option Database :=
  (db.append ev).map (projectEvent · ev (clock ev))

/-- The events arrive one after the other. -/
def arriveAll (clock : Event → Nat) : List Event → Database → Option Database
  | [], db => some db
  | ev :: evs, db => (arrive clock db ev).bind (arriveAll clock evs)

/-- The response is the one that counts for its sender. -/
def Counted (db : Database) (poll_id : EventId) (ev : Event) : Prop :=
  ∃ row, db.poll_responses.find (poll_id, ev.sender) = some row ∧ row.response_event_id = ev.event_id

/-- What a response says, without the time that is stored with it. -/
def PollResponse.answer (row : PollResponse) :
    EventId × List String × Bool × Option ApprovalId :=
  (row.response_event_id, row.choice_ids, row.human_confirmed, row.approval_record_id)

namespace Ballot

variable (b : Ballot)

/-- The events of the ballot can be stored: their relationships exist, and no
event of the log or of the ballot shares an id or a number with another one. -/
structure Deliverable (db : Database) : Prop where
  relationships : ∀ ev ∈ b.poll :: b.responses, (db.relationships.find ev.relationship_id).isSome
  ids : ∀ ev ∈ b.poll :: b.responses, db.events.find ev.event_id = none
  numbers : ∀ ev ∈ b.poll :: b.responses, ∀ e ∈ db.events.rows,
    ¬ (e.relationship_id = ev.relationship_id ∧ e.sender = ev.sender ∧ e.sender_seq = ev.sender_seq)
  distinct : (b.poll :: b.responses).Pairwise (fun ev e => ev.event_id ≠ e.event_id ∧
    ¬ (ev.relationship_id = e.relationship_id ∧ ev.sender = e.sender ∧ ev.sender_seq = e.sender_seq))

/-- In every order of arrival a response counts exactly when its choices are
valid and it was received before the poll closes, each sender has the same
response as in any other order, and the poll has the number of its rows. -/
def OrderFree (clock : Event → Nat) (db : Database) : Prop :=
  ∀ order, order.Perm (b.poll :: b.responses) → ∃ db', arriveAll clock order db = some db' ∧
    (∀ r ∈ b.responses, Counted db' b.poll.event_id r ↔ b.countable r = true) ∧
    (∀ order' db'', order'.Perm (b.poll :: b.responses) → arriveAll clock order' db = some db'' →
      ∀ sender, (db'.poll_responses.find (b.poll.event_id, sender)).map PollResponse.answer =
        (db''.poll_responses.find (b.poll.event_id, sender)).map PollResponse.answer) ∧
    (∀ row, db'.polls.find b.poll.event_id = some row →
      row.response_count = db'.poll_responses.rows.countP (·.poll_id = b.poll.event_id))

/-- The poll is accepted in every order: it closes after it was created, and
its thread is not registered under another conversation, neither before nor by
one of the responses. -/
def Opens (db : Database) : Prop :=
  b.poll.created_at < b.closes_at ∧
    ∀ t, b.poll.thread_id = some t →
      (∀ row, db.threads.find t = some row → row.conversation_id = b.poll.conversation_id) ∧
      (db.threads.find t = none → ∀ r ∈ b.responses, r.thread_id = some t →
        r.conversation_id = b.poll.conversation_id)

/-- The poll is accepted in some order in which it comes after the response. -/
def Awaited (db : Database) (r : Event) : Prop :=
  b.poll.created_at < b.closes_at ∧
    ∀ t, b.poll.thread_id = some t →
      (∀ row, db.threads.find t = some row → row.conversation_id = b.poll.conversation_id) ∧
      (db.threads.find t = none → r.thread_id = some t → r.conversation_id ≠ b.poll.conversation_id →
        ∃ r' ∈ b.responses, r'.thread_id = some t ∧ r'.conversation_id = b.poll.conversation_id)

/-- The ballots whose count does not depend on the order. -/
structure Settled (db : Database) : Prop where
  /-- A response that would count is of the relationship of the poll, and the
  poll is received before it closes and accepted in every order. -/
  in_time : ∀ r ∈ b.responses, b.countable r = true →
    b.own r = true ∧ time b.poll < b.closes_at ∧ b.Opens db
  /-- No late response with valid choices waits for a poll that is accepted and
  received before it closes. -/
  late : ∀ r ∈ b.responses, b.own r = true → b.valid r = true → b.closes_at ≤ time r →
    time b.poll < b.closes_at → ¬ b.Awaited db r
  /-- Every sender has at most one response that would count. -/
  single : ∀ r ∈ b.responses, ∀ r' ∈ b.responses, b.countable r = true → b.countable r' = true →
    r.sender = r'.sender → r = r'

/-! ### The count -/

/-- The row of a response that is accepted at `now`. -/
def response (r : Event) (now : Nat) : PollResponse :=
  match r.payload with
  | .pollResponded _ choice_ids human_confirmed approval_record_id =>
    ⟨b.poll.event_id, r.sender, choice_ids, human_confirmed, approval_record_id, r.event_id, now⟩
  | _ => ⟨b.poll.event_id, r.sender, [], false, none, r.event_id, now⟩

/-- The response is accepted at `now`. -/
def accepts (r : Event) (now : Nat) : Bool := b.valid r ∧ now < b.closes_at

/-- What each sender has after one more response, judged at `now`. -/
def count (seen : IdentityId → Option PollResponse) (r : Event × Nat) :
    IdentityId → Option PollResponse :=
  if b.accepts r.1 r.2 then Function.update seen r.1.sender (some (b.response r.1 r.2)) else seen

/-- What each sender has after the responses, each with the time it is judged
at. -/
def tally (judged : List (Event × Nat)) : IdentityId → Option PollResponse :=
  judged.foldl b.count (fun _ => none)

/-- The responses with the times they are judged at: those that waited by the
time of the poll, and only those of its relationship. -/
def judged (pre post : List Event) : List (Event × Nat) :=
  (pre.filter b.own).map (fun r => (r, time b.poll)) ++ post.map (fun r => (r, time r))

/-- The row of the poll. -/
def row : Poll where
  poll_id := b.poll.event_id
  relationship_id := b.poll.relationship_id
  conversation_id := b.poll.conversation_id
  thread_id := b.poll.thread_id
  sender := b.poll.sender
  created_at := b.poll.created_at
  question := b.question
  choices := b.choices
  closes_at := b.closes_at
  multi_select := b.multi_select

/-- The poll is open, and each sender has the response that `seen` says. -/
structure Open (seen : IdentityId → Option PollResponse) (db : Database) : Prop where
  poll : ∃ n, db.polls.find b.poll.event_id = some { b.row with response_count := n } ∧
    n = db.poll_responses.rows.countP (·.poll_id = b.poll.event_id)
  rows : ∀ sender, db.poll_responses.find (b.poll.event_id, sender) = seen sender

/-- There is no row of the poll. -/
structure Absent (db : Database) : Prop where
  poll : db.polls.find b.poll.event_id = none
  rows : ∀ sender, db.poll_responses.find (b.poll.event_id, sender) = none

end Ballot

/-! ## Events that do not concern the poll -/

/-- The row of the poll and the rows of its responses are the same. -/
structure SamePoll (poll_id : EventId) (db db' : Database) : Prop where
  polls : db'.polls.find poll_id = db.polls.find poll_id
  poll_responses :
    Table.Agree (fun k => decide (k.1 = poll_id)) db.poll_responses db'.poll_responses

section frame

variable {poll_id : EventId} {db db' db'' : Database} {ev : Event} {now clock : Nat}

theorem SamePoll.refl (poll_id : EventId) (db : Database) : SamePoll poll_id db db := ⟨rfl, rfl⟩

theorem SamePoll.trans (h : SamePoll poll_id db db') (h' : SamePoll poll_id db' db'') :
    SamePoll poll_id db db'' :=
  ⟨h'.polls.trans h.polls, h.poll_responses.trans h'.poll_responses⟩

theorem SamePoll.find (h : SamePoll poll_id db db') (sender : IdentityId) :
    db'.poll_responses.find (poll_id, sender) = db.poll_responses.find (poll_id, sender) :=
  (h.poll_responses.find (decide_eq_true rfl)).symm

theorem SamePoll.countP (h : SamePoll poll_id db db') :
    db'.poll_responses.rows.countP (·.poll_id = poll_id) =
      db.poll_responses.rows.countP (·.poll_id = poll_id) :=
  (h.poll_responses.countP (fun _ _ hq => hq) (fun _ _ hq => hq)).symm

theorem Write.samePoll (h : Write ev now db db') (hid : ev.event_id ≠ poll_id)
    (hanswers : ev.answers poll_id = false) : SamePoll poll_id db db' := by
  cases h with
  | thread hopens hjoins =>
    obtain ⟨_, _, heq⟩ := registerThread_eq db ev ‹_›
    rw [heq]
    exact ⟨rfl, rfl⟩
  | message hpayload hmessages hrevisions =>
    obtain ⟨_, heq⟩ := bumpThreadMessage_eq _ ev.thread_id ev.created_at
    rw [heq]
    exact ⟨rfl, rfl⟩
  | poll hrow hrel hpolls =>
    refine ⟨?_, rfl⟩
    show Table.find _ poll_id = _
    rw [Table.find_of_insert hpolls, if_neg]
    intro heq
    exact hid (hrow.symm.trans heq.symm)
  | @pollResponse id _ _ _ _ _ hpayload hpoll haccepted =>
    have hne : id ≠ poll_id := by
      unfold Event.answers at hanswers
      rw [hpayload] at hanswers
      exact of_decide_eq_false hanswers
    refine ⟨?_, .upsert_other (decide_eq_false hne)⟩
    dsimp only
    rw [Table.find_modify, if_neg (fun heq => hne heq.symm)]
  | _ => exact ⟨rfl, rfl⟩

theorem Writes.samePoll (h : Writes ev now db db') (hid : ev.event_id ≠ poll_id)
    (hanswers : ev.answers poll_id = false) : SamePoll poll_id db db' := by
  induction h with
  | refl => exact .refl poll_id db
  | tail _ hwrite ih => exact ih.trans (hwrite.samePoll hid hanswers)

theorem updateSeqState_samePoll : SamePoll poll_id db (updateSeqState db ev now) := by
  obtain ⟨_, _, heq⟩ := updateSeqState_eq db ev now
  rw [heq]
  exact ⟨rfl, rfl⟩

theorem answers_of_target {kind : RefKind} {target : EventId}
    (h : ev.payload.target = some (kind, target)) (hne : (kind, target) ≠ (.poll_response, poll_id)) :
    ev.answers poll_id = false := by
  unfold Event.answers
  cases hpayload : ev.payload with
  | pollResponded id choice_ids human_confirmed approval_record_id =>
    rw [hpayload] at h
    refine decide_eq_false (fun hid => hne ?_)
    rw [← hid]
    exact (Option.some.inj h).symm
  | _ => rfl

theorem answers_of_waits (h : ev.payload.target = some (.poll_response, poll_id)) :
    ev.answers poll_id = true := by
  unfold Event.answers
  cases hpayload : ev.payload with
  | pollResponded id _ _ _ =>
    rw [hpayload] at h
    exact decide_eq_true (Prod.mk.inj (Option.some.inj h)).2
  | _ =>
    rw [hpayload] at h
    simp [Payload.target] at h

theorem payload_of_answers (h : ev.answers poll_id = true) :
    ∃ choice_ids human_confirmed approval_record_id,
      ev.payload = .pollResponded poll_id choice_ids human_confirmed approval_record_id := by
  unfold Event.answers at h
  split at h
  · rename_i id choice_ids human_confirmed approval_record_id hpayload
    obtain rfl : id = poll_id := of_decide_eq_true h
    exact ⟨choice_ids, human_confirmed, approval_record_id, hpayload⟩
  · exact absurd h Bool.false_ne_true

theorem pollResponseRejected_none {poll : Poll} {choice_ids : List String} :
    pollResponseRejected poll choice_ids now = none ↔
      (choice_ids ≠ [] ∧ choice_ids.Nodup ∧ (∀ c ∈ choice_ids, c ∈ poll.choices) ∧
        (poll.multi_select = true ∨ choice_ids.length = 1)) ∧ now < poll.closes_at := by
  have hite : ∀ (c : Prop) [Decidable c] (code : ProjectionCode) (rest : Option ProjectionCode),
      (if c then some code else rest) = none ↔ ¬ c ∧ rest = none := by
    intro c _ code rest
    by_cases hc : c
    · simp [hc]
    · simp [hc]
  have hunknown : ¬ choice_ids.any (fun c => !poll.choices.contains c) = true ↔
      ∀ c ∈ choice_ids, c ∈ poll.choices := by simp
  have hsingle : ¬ ((!poll.multi_select) = true ∧ choice_ids.length ≠ 1) ↔
      (poll.multi_select = true ∨ choice_ids.length = 1) := by
    rw [Bool.not_eq_true', not_and_or, Bool.not_eq_false, ne_eq, not_not]
  unfold pollResponseRejected
  simp only [hite, hunknown, hsingle, not_not, Nat.not_le, and_true, and_assoc, ne_eq]

end frame

/-! ## The steps of a projection -/

namespace Ballot

variable {b : Ballot} {seen : IdentityId → Option PollResponse} {db db' : Database} {r : Event}
  {now clock : Nat}

theorem response_key (b : Ballot) (r : Event) (now : Nat) :
    (b.response r now).key = (b.poll.event_id, r.sender) := by
  unfold response
  split <;> rfl

theorem response_event (b : Ballot) (r : Event) (now : Nat) :
    (b.response r now).response_event_id = r.event_id := by
  unfold response
  split <;> rfl

theorem accepts_iff : b.accepts r now = true ↔ b.valid r = true ∧ now < b.closes_at := by
  simp only [accepts, decide_eq_true_eq]

theorem countable_iff : b.countable r = true ↔ b.valid r = true ∧ time r < b.closes_at := by
  simp only [countable, decide_eq_true_eq]

/-- The checks of the handler are those of the ballot. -/
theorem accepts_iff_handler {n : Nat} :
    pollResponseRejected { b.row with response_count := n } r.choice_ids now = none ↔
      b.accepts r now = true := by
  rw [pollResponseRejected_none, accepts_iff]
  simp only [valid, decide_eq_true_eq, and_assoc]
  exact Iff.rfl

theorem Open.frame (h : b.Open seen db) (hsame : SamePoll b.poll.event_id db db') : b.Open seen db' := by
  obtain ⟨n, hpoll, hcount⟩ := h.poll
  refine ⟨⟨n, hsame.polls.trans hpoll, hcount.trans hsame.countP.symm⟩, fun sender => ?_⟩
  rw [hsame.find]
  exact h.rows sender

theorem Absent.frame (h : b.Absent db) (hsame : SamePoll b.poll.event_id db db') : b.Absent db' :=
  ⟨hsame.polls.trans h.poll, fun sender => (hsame.find sender).trans (h.rows sender)⟩

theorem Open.dispatch (h : b.Open seen db) (hr : r.answers b.poll.event_id = true) :
    (b.accepts r now = true ∧ ∃ db', Store.dispatch db r now = .done db' ∧
        b.Open (b.count seen (r, now)) db') ∨
      (b.count seen (r, now) = seen ∧ ∃ code, Store.dispatch db r now = .reject db code) := by
  obtain ⟨n, hpoll, -⟩ := h.poll
  obtain ⟨choice_ids, human_confirmed, approval_record_id, hpayload⟩ := payload_of_answers hr
  have hchoices : r.choice_ids = choice_ids := by
    unfold Event.choice_ids
    rw [hpayload]
  have hdispatch : Store.dispatch db r now =
      handlePollResponded db r b.poll.event_id choice_ids human_confirmed approval_record_id now := by
    unfold Store.dispatch
    rw [hpayload]
  have haccepts : pollResponseRejected { b.row with response_count := n } choice_ids now = none ↔
      b.accepts r now = true := hchoices ▸ accepts_iff_handler
  rw [hdispatch]
  unfold handlePollResponded
  rw [hpoll]
  dsimp only
  cases hrejected : pollResponseRejected { b.row with response_count := n } choice_ids now with
  | some code =>
    refine Or.inr ⟨?_, code, rfl⟩
    unfold count
    rw [if_neg]
    intro hok
    rw [haccepts.mpr hok] at hrejected
    exact absurd hrejected (Option.some_ne_none code).symm
  | none =>
    have hok := haccepts.mp hrejected
    have hrow : b.response r now = ⟨b.poll.event_id, r.sender, choice_ids, human_confirmed,
        approval_record_id, r.event_id, now⟩ := by
      unfold response
      rw [hpayload]
    refine Or.inl ⟨hok, _, rfl, ⟨⟨_, ?_, rfl⟩, fun sender => ?_⟩⟩
    · dsimp only
      rw [Table.find_modify, if_pos rfl, hpoll]
      rfl
    · have hkey : (b.poll.event_id, sender) = (b.response r now).key ↔ sender = r.sender := by
        rw [response_key, Prod.mk.injEq]
        exact and_iff_right rfl
      unfold count
      rw [if_pos hok, Function.update_apply]
      dsimp only
      rw [Table.find_upsert, ← hrow]
      simp only [hkey]
      split_ifs
      · rfl
      · exact h.rows sender

theorem Absent.dispatch (h : b.Absent db) (hr : r.answers b.poll.event_id = true)
    (htarget : targetRejected db r b.poll.event_id .pollCreated = false) :
    Store.dispatch db r now = .done (addPending db r b.poll.event_id .poll_response) := by
  obtain ⟨choice_ids, human_confirmed, approval_record_id, hpayload⟩ := payload_of_answers hr
  have hdispatch : Store.dispatch db r now =
      handlePollResponded db r b.poll.event_id choice_ids human_confirmed approval_record_id now := by
    unfold Store.dispatch
    rw [hpayload]
  rw [hdispatch]
  unfold handlePollResponded
  rw [h.poll]
  show awaitTarget db r _ _ _ _ = _
  unfold awaitTarget
  rw [htarget, if_neg Bool.false_ne_true]

/-! ### The poll dispatches what waited -/

/-- The responses among the references, in their order. -/
def waiters (db : Database) (refs : List PendingRef) : List Event :=
  refs.filterMap (fun ref => if ref.kind = .poll_response then db.events.find ref.event_id else none)

theorem ne_poll_of_target {e : Event} {i : EventId} (hpoll : db.events.find b.poll.event_id = some b.poll)
    (he : db.events.find i = some e) (htarget : e.payload.target.isSome) :
    e.event_id ≠ b.poll.event_id := by
  intro hid
  rw [← Table.key_of_find he, hid, hpoll] at he
  obtain rfl := Option.some.inj he
  rw [b.payload] at htarget
  exact Bool.false_ne_true htarget

/-- The loop over the references to an open poll counts the responses among
them. -/
theorem Open.resolveRefs {rid : RelationshipId} {refs : List PendingRef} (h : b.Open seen db)
    (hs : Scoped db) (hpoll : db.events.find b.poll.event_id = some b.poll)
    (hrefs : ∀ ref ∈ refs, ∃ e, db.events.find ref.event_id = some e ∧ e.relationship_id = rid ∧
      (ref.kind ≠ .reply → e.payload.target = some (ref.kind, b.poll.event_id))) :
    (Store.resolveRefs rid b.poll.event_id now clock refs db).Ends
      (b.Open (((waiters db refs).map (fun r => (r, now))).foldl b.count seen)) (fun _ _ => False) := by
  induction refs generalizing db seen with
  | nil => exact h
  | cons ref refs ih =>
    obtain ⟨e, he, hrel, htarget⟩ := hrefs ref List.mem_cons_self
    have hown : db.eventOf rid ref.event_id = true := eventOf_iff.mpr ⟨e, he, hrel⟩
    have hends : (resolveRef db rid b.poll.event_id ref now clock).Ends
        (Effects rid (fun _ => True) now db) (fun _ _ => False) :=
      resolveRef_ends hs hown (fun _ _ _ => trivial)
    have hfirst : (resolveRef db rid b.poll.event_id ref now clock).Ends
        (b.Open (((waiters db [ref]).map (fun r => (r, now))).foldl b.count seen))
        (fun _ _ => True) := by
      have hs₁ : Scoped { db with
          pending_refs := db.pending_refs.modify ref.event_id
            (fun r => { r with state := .resolved }) (fun _ => rfl) } :=
        (show Effect rid (fun _ => True) now db _ from .resolve hown).scoped hs
      have h₁ : b.Open seen { db with
          pending_refs := db.pending_refs.modify ref.event_id
            (fun r => { r with state := .resolved }) (fun _ => rfl) } := h.frame ⟨rfl, rfl⟩
      have hlog : db.events.find e.event_id = some e := by
        rw [Table.key_of_find he]
        exact he
      unfold resolveRef waiters
      dsimp only
      by_cases hreply : ref.kind = .reply
      · rw [if_pos hreply, List.filterMap_cons, if_neg (by rw [hreply]; decide)]
        exact h₁.frame ⟨rfl, rfl⟩
      · rw [if_neg hreply, he]
        dsimp only
        by_cases hkind : ref.kind = .poll_response
        · rw [List.filterMap_cons, if_pos hkind, he]
          have hanswers : e.answers b.poll.event_id = true := by
            have htarget' := htarget hreply
            rw [hkind] at htarget'
            exact answers_of_waits htarget'
          rcases h₁.dispatch hanswers with
            ⟨-, db', hdispatch, hopen⟩ | ⟨hcount, code, hdispatch⟩
          · rw [hdispatch]
            exact hopen
          · rw [hdispatch]
            have hcount' : (([e].map (fun r => (r, now))).foldl b.count seen) = seen := hcount
            show b.Open (([e].map (fun r => (r, now))).foldl b.count seen) _
            rw [hcount']
            exact h₁.frame ⟨rfl, rfl⟩
        · rw [List.filterMap_cons, if_neg hkind]
          have hne : e.event_id ≠ b.poll.event_id :=
            ne_poll_of_target hpoll he (by rw [htarget hreply]; rfl)
          have hanswers : e.answers b.poll.event_id = false :=
            answers_of_target (htarget hreply) (fun heq => hkind (Prod.mk.inj heq).1)
          have hdispatch : (Store.dispatch _ e now).Ends (Writes e now _) (Rejected e now _) :=
            dispatch_ends hs₁ hlog
          generalize Store.dispatch _ e now = out at hdispatch ⊢
          obtain ⟨db', failure | _⟩ := out
          · obtain ⟨⟨code, rfl⟩, hw⟩ := hdispatch
            exact (h₁.frame (Writes.samePoll hw hne hanswers)).frame ⟨rfl, rfl⟩
          · exact h₁.frame (Writes.samePoll hdispatch hne hanswers)
    have hsplit : waiters db (ref :: refs) = waiters db [ref] ++ waiters db refs := by
      unfold waiters
      rw [← List.filterMap_append]
      rfl
    rw [hsplit, List.map_append, List.foldl_append]
    unfold Store.resolveRefs
    generalize resolveRef db rid b.poll.event_id ref now clock = out at hends hfirst ⊢
    obtain ⟨db', failure | _⟩ := out
    · exact hends.elim
    · have hevents := (Effects.sameInputs hends).events
      have hwaiters : waiters db refs = waiters db' refs := by
        unfold waiters
        rw [hevents]
      rw [hwaiters]
      refine ih hfirst (Effects.scoped hends hs) ?_ ?_
      · rw [hevents]
        exact hpoll
      · intro r hr
        rw [hevents]
        exact hrefs r (List.mem_cons_of_mem ref hr)

end Ballot

/-! ## Projecting one event -/

section project

variable {poll_id : EventId} {db db' : Database} {ev : Event} {now clock : Nat}

theorem projectEvent_done (hs : Scoped db) (hlog : db.events.find ev.event_id = some ev)
    (hfork : forked db ev = false) (hdispatch : dispatch db ev (ev.received_at.getD clock) = .done db') :
    Scoped db' ∧ SameInputs db db' ∧ ∃ db'',
      resolvePending db' ev.relationship_id ev.event_id (ev.received_at.getD clock) clock = .done db'' ∧
      projectEvent db ev clock = updateSeqState db'' ev (ev.received_at.getD clock) := by
  have hw : Writes ev (ev.received_at.getD clock) db db' := by
    have hends : (dispatch db ev (ev.received_at.getD clock)).Ends (Writes ev _ db) _ :=
      dispatch_ends hs hlog
    rw [hdispatch] at hends
    exact hends
  have hs' := hw.scoped hs hlog
  refine ⟨hs', hw.sameInputs, ?_⟩
  have hends : (resolvePending db' ev.relationship_id ev.event_id (ev.received_at.getD clock) clock).Ends
      _ _ := resolvePending_ends hs'
  unfold projectEvent applyEvent applyInner
  rw [hfork, if_neg Bool.false_ne_true, hdispatch]
  have hdone : ∀ f : Database → Outcome, (Outcome.done db').andThen f = f db' := fun _ => rfl
  rw [hdone]
  generalize resolvePending db' ev.relationship_id ev.event_id (ev.received_at.getD clock) clock = out
    at hends ⊢
  match out, hends with
  | (db'', .ok ()), _ => exact ⟨db'', rfl, rfl⟩

theorem projectEvent_reject {code : ProjectionCode} (hfork : forked db ev = false)
    (hdispatch : dispatch db ev (ev.received_at.getD clock) = .reject db' code) :
    projectEvent db ev clock = quarantineEvent db ev (.projection code) clock := by
  unfold projectEvent applyEvent applyInner
  rw [hfork, if_neg Bool.false_ne_true, hdispatch]
  rfl

theorem resolvePending_samePoll {rid : RelationshipId} {target : EventId} (hs : Scoped db)
    (hne : target ≠ poll_id)
    (hpoll : ∀ e, db.events.find poll_id = some e → e.payload.target = none) :
    (resolvePending db rid target now clock).Ends (SamePoll poll_id db) (fun _ _ => False) := by
  refine resolveRefs_invariant hs (fun _ => pendingRefs_eventOf hs) (.refl poll_id db)
    (fun _ _ _ h => ⟨h.1, h.2⟩) (fun _ _ _ _ h => ⟨h.1, h.2⟩) ?_ (fun _ _ _ h => ⟨h.1, h.2⟩)
  intro ref href hkind e he db₁ db₂ _ hsame hw
  obtain ⟨-, kind, htarget⟩ := Waits.names ⟨ref, href, hkind, he⟩ hs
  refine hsame.trans (hw.samePoll ?_ (answers_of_target htarget ?_))
  · rintro rfl
    have hnone := hpoll e (by rw [Table.key_of_find he]; exact he)
    rw [htarget] at hnone
    exact Option.some_ne_none _ hnone
  · exact fun heq => hne (Prod.mk.inj heq).2

end project

/-! ## Arrivals -/

namespace Ballot

variable {b : Ballot} {db₀ db db₁ db' : Database} {pre : List Event} {r ev : Event} {clock : Nat}
  {seen : IdentityId → Option PollResponse}

/-- Nothing of the ballot is in the store, and all of it can be stored. -/
structure Fresh (b : Ballot) (db : Database) : Prop where
  scopes : Scoped db
  deliverable : b.Deliverable db
  unanswered : ∀ e ∈ db.events.rows, e.answers b.poll.event_id = false
  rows : ∀ sender, db.poll_responses.find (b.poll.event_id, sender) = none

/-- The events `pre` of the ballot arrived. -/
structure Arrived (db₀ : Database) (pre : List Event) (db : Database) : Prop where
  scopes : Scoped db
  rows : db.events.rows = db₀.events.rows ++ pre
  relationships : db.relationships = db₀.relationships

theorem Fresh.arrived (h : b.Fresh db₀) : Arrived db₀ [] db₀ :=
  ⟨h.scopes, (List.append_nil _).symm, rfl⟩

/-- The events share no id and no number. -/
def Apart (e e' : Event) : Prop :=
  e.event_id ≠ e'.event_id ∧ ¬ (e.relationship_id = e'.relationship_id ∧ e.sender = e'.sender ∧
    e.sender_seq = e'.sender_seq)

theorem Apart.symm {e e' : Event} (h : Apart e e') : Apart e' e :=
  ⟨fun heq => h.1 heq.symm, fun hsame => h.2 ⟨hsame.1.symm, hsame.2.1.symm, hsame.2.2.symm⟩⟩

instance : Std.Symm Apart := ⟨fun _ _ h => h.symm⟩

/-- The next event can be stored. -/
theorem Arrived.append (h : Arrived db₀ pre db) (hd : b.Deliverable db₀) (hev : ev ∈ b.poll :: b.responses)
    (hapart : ∀ e ∈ pre, Apart e ev) : ∃ db₁, db.append ev = some db₁ := by
  have hfree : db.events.find ev.event_id = none := by
    rw [Table.find_eq_none, h.rows]
    intro e he
    rcases List.mem_append.mp he with hold | hpre
    · exact Table.find_eq_none.mp (hd.ids ev hev) e hold
    · exact (hapart e hpre).1
  have hclash : ¬ ((db.relationships.find ev.relationship_id).isNone || db.events.rows.any (fun e =>
      e.relationship_id = ev.relationship_id ∧ e.sender = ev.sender ∧
        e.sender_seq = ev.sender_seq)) = true := by
    rw [Bool.or_eq_true, not_or]
    constructor
    · rw [h.relationships]
      have hsome := hd.relationships ev hev
      rw [Option.isSome_iff_exists] at hsome
      obtain ⟨rel, hrel⟩ := hsome
      rw [hrel]
      exact Bool.false_ne_true
    · intro hany
      obtain ⟨e, he, hsame⟩ := List.any_eq_true.mp hany
      rw [h.rows] at he
      rcases List.mem_append.mp he with hold | hpre
      · exact hd.numbers ev hev e hold (of_decide_eq_true hsame)
      · exact (hapart e hpre).2 (of_decide_eq_true hsame)
  obtain ⟨events, hevents⟩ := Table.insert_isSome hfree
  unfold Database.append
  rw [if_neg hclash, hevents]
  exact ⟨_, rfl⟩

/-- The event enters the log. -/
theorem Arrived.stored (h : Arrived db₀ pre db) (happend : db.append ev = some db₁) :
    Arrived db₀ (pre ++ [ev]) db₁ := by
  obtain ⟨hins, _, heq⟩ := append_events happend
  refine ⟨h.scopes.append happend, ?_, by rw [heq]; exact h.relationships⟩
  rw [(Table.insert_eq_some hins).2, h.rows, List.append_assoc]

theorem Arrived.projected (h : Arrived db₀ pre db) (hlog : db.events.find ev.event_id = some ev) :
    Arrived db₀ pre (projectEvent db ev clock) := by
  have heffects : Effects _ _ _ db (projectEvent db ev clock) := projectEvent_effects h.scopes hlog
  refine ⟨heffects.scoped h.scopes, ?_, ?_⟩
  · rw [heffects.sameInputs.events]
    exact h.rows
  · rw [heffects.sameInputs.relationships]
    exact h.relationships

theorem Arrived.poll (h : Arrived db₀ pre db) (hd : b.Deliverable db₀) {e : Event}
    (hpre : ∀ e ∈ pre, e.event_id = b.poll.event_id → e = b.poll)
    (he : db.events.find b.poll.event_id = some e) : e = b.poll := by
  obtain ⟨hmem, hid⟩ := Table.find_eq_some.mp he
  rw [h.rows] at hmem
  rcases List.mem_append.mp hmem with hold | hmem
  · exact absurd hid (Table.find_eq_none.mp (hd.ids b.poll List.mem_cons_self) e hold)
  · exact hpre e hmem hid

theorem append_samePoll {poll_id : EventId} (h : db.append ev = some db₁) : SamePoll poll_id db db₁ := by
  obtain ⟨-, _, heq⟩ := append_events h
  rw [heq]
  exact ⟨rfl, rfl⟩

/-- The time at which an event of the ballot is judged. -/
theorem received_getD (hev : ev ∈ b.poll :: b.responses) : ev.received_at.getD clock = time ev := by
  obtain ⟨t, ht⟩ := Option.isSome_iff_exists.mp (b.received ev hev)
  unfold time
  rw [ht]
  rfl

theorem Open.arrive (h : b.Open seen db) (hs : Scoped db) (happend : db.append r = some db₁)
    (hr : r ∈ b.responses) (hne : r.event_id ≠ b.poll.event_id)
    (hpoll : ∀ e, db₁.events.find b.poll.event_id = some e → e = b.poll) :
    b.Open (b.count seen (r, time r)) (projectEvent db₁ r clock) := by
  have hs₁ := hs.append happend
  have hlog := find_self_of_append happend
  have hfork := not_forked_of_append happend
  have htime : r.received_at.getD clock = time r := received_getD (List.mem_cons_of_mem b.poll hr)
  rcases (h.frame (append_samePoll happend)).dispatch (b.answers r hr) with
    ⟨-, db₂, hdispatch, hopen⟩ | ⟨hcount, code, hdispatch⟩
  · obtain ⟨hs₂, hinputs, db₃, hresolve, heq⟩ := projectEvent_done hs₁ hlog hfork hdispatch
    have hends : (resolvePending db₂ r.relationship_id r.event_id (r.received_at.getD clock) clock).Ends
        (SamePoll b.poll.event_id db₂) (fun _ _ => False) := by
      refine resolvePending_samePoll hs₂ hne (fun e he => ?_)
      rw [hinputs.events] at he
      rw [hpoll e he, b.payload]
      rfl
    rw [hresolve] at hends
    rw [heq, ← htime]
    exact (hopen.frame hends).frame updateSeqState_samePoll
  · rw [projectEvent_reject hfork hdispatch, ← htime, hcount]
    exact (h.frame (append_samePoll happend)).frame ⟨rfl, rfl⟩

theorem Absent.arrive (h : b.Absent db) (hs : Scoped db) (happend : db.append r = some db₁)
    (hr : r ∈ b.responses) (hne : r.event_id ≠ b.poll.event_id)
    (hpoll : ∀ e, db₁.events.find b.poll.event_id = some e → e = b.poll) :
    ∃ db₃, Scoped (addPending db₁ r b.poll.event_id .poll_response) ∧
      resolvePending (addPending db₁ r b.poll.event_id .poll_response) r.relationship_id r.event_id
        (r.received_at.getD clock) clock = .done db₃ ∧
      projectEvent db₁ r clock = updateSeqState db₃ r (r.received_at.getD clock) ∧
      b.Absent (projectEvent db₁ r clock) := by
  have habsent := h.frame (append_samePoll happend)
  have htarget : targetRejected db₁ r b.poll.event_id .pollCreated = false := by
    rw [Bool.eq_false_iff]
    intro hrejected
    obtain ⟨e, he, htype⟩ := (Option.any_eq_true _ _).mp hrejected
    obtain ⟨he, -⟩ := Option.filter_eq_some_iff.mp he
    rw [hpoll e he, b.payload] at htype
    simp [Payload.eventType] at htype
  have hdispatch : Store.dispatch db₁ r (r.received_at.getD clock) = _ :=
    habsent.dispatch (b.answers r hr) htarget
  obtain ⟨hs₂, hinputs, db₃, hresolve, heq⟩ := projectEvent_done (hs.append happend)
    (find_self_of_append happend) (not_forked_of_append happend) hdispatch
  have hends : (resolvePending (addPending db₁ r b.poll.event_id .poll_response) r.relationship_id
      r.event_id (r.received_at.getD clock) clock).Ends
      (SamePoll b.poll.event_id (addPending db₁ r b.poll.event_id .poll_response))
      (fun _ _ => False) := by
    refine resolvePending_samePoll hs₂ hne (fun e he => ?_)
    rw [hinputs.events] at he
    rw [hpoll e he, b.payload]
    rfl
  rw [hresolve] at hends
  have hadded : b.Absent (addPending db₁ r b.poll.event_id .poll_response) := habsent.frame ⟨rfl, rfl⟩
  refine ⟨db₃, hs₂, hresolve, heq, ?_⟩
  rw [heq]
  exact (hadded.frame hends).frame updateSeqState_samePoll

/-! ### Before the poll -/

/-- The thread that an event registers when it enters the log. -/
def enrol (threads : Table ThreadRow.thread_id) (ev : Event) : Table ThreadRow.thread_id :=
  ev.thread_id.elim threads (fun t => threads.insertOrIgnore ⟨t, ev.conversation_id⟩)

/-- The reference of a response that waits. -/
def waits (b : Ballot) (r : Event) : PendingRef :=
  ⟨r.event_id, r.relationship_id, b.poll.event_id, .poll_response, r.created_at, .pending⟩

/-- The id is one of the events'. -/
def among (evs : List Event) (i : EventId) : Bool := evs.any (·.event_id = i)

/-- The responses `pre` arrived, and wait for the poll. -/
structure Waiting (b : Ballot) (db₀ : Database) (pre : List Event) (db : Database) : Prop where
  arrived : Arrived db₀ pre db
  absent : b.Absent db
  threads : db.threads = pre.foldl enrol db₀.threads
  refs : db.pending_refs.rows.filter (fun ref => among pre ref.event_id) = pre.map b.waits

theorem append_threads (h : db.append ev = some db₁) :
    db₁.threads = enrol db.threads ev ∧ db₁.pending_refs = db.pending_refs := by
  unfold Database.append at h
  split_ifs at h
  obtain ⟨events, -, rfl⟩ := Option.map_eq_some_iff.mp h
  exact ⟨rfl, rfl⟩

theorem Fresh.waiting (h : b.Fresh db₀) : Waiting b db₀ [] db₀ where
  arrived := h.arrived
  absent := by
    refine ⟨?_, h.rows⟩
    rw [Table.find_eq_none]
    intro row hrow hkey
    obtain ⟨e, he, -⟩ := eventOf_iff.mp (h.scopes.polls row hrow)
    have hnone := h.deliverable.ids b.poll List.mem_cons_self
    rw [← hkey] at hnone
    exact Option.some_ne_none e (he.symm.trans hnone)
  threads := rfl
  refs := List.filter_eq_nil_iff.mpr (fun _ _ => Bool.false_ne_true)

/-- The threads and the references of the ids are the same. -/
structure Idle (ids : EventId → Bool) (db db' : Database) : Prop where
  threads : db'.threads = db.threads
  pending_refs : Table.Agree ids db.pending_refs db'.pending_refs

theorem Idle.trans {ids : EventId → Bool} {db'' : Database} (h : Idle ids db db')
    (h' : Idle ids db' db'') : Idle ids db db'' :=
  ⟨h'.threads.trans h.threads, h.pending_refs.trans h'.pending_refs⟩

theorem idle_of_write {ids : EventId → Bool} {now : Nat} (h : Write ev now db db')
    (hopens : ev.payload.opensThread = false) (hids : ids ev.event_id = false) : Idle ids db db' := by
  have hnot : ev.payload.opensThread ≠ true := by
    rw [hopens]
    exact Bool.false_ne_true
  cases h with
  | pending htarget => exact ⟨rfl, .insertOrIgnore_other (by exact hids)⟩
  | reply hyes => exact absurd hyes hnot
  | thread hyes hjoins => exact absurd hyes hnot
  | message hpayload hmessages hrevisions =>
    rw [hpayload] at hnot
    exact absurd rfl hnot
  | _ => exact ⟨rfl, rfl⟩

theorem opensThread_of_target {payload : Payload} (h : payload.target.isSome) :
    payload.opensThread = false := by
  cases payload with
  | messageCreated body format attachment => exact absurd h Bool.false_ne_true
  | pollCreated question choices closes_at multi_select => exact absurd h Bool.false_ne_true
  | taskCreated title owner_identity due_at => exact absurd h Bool.false_ne_true
  | humanRequested prompt response_shape expires_at => exact absurd h Bool.false_ne_true
  | _ => rfl

theorem Waiting.arrive (h : Waiting b db₀ pre db) (hd : b.Deliverable db₀)
    (happend : db.append r = some db₁) (hr : r ∈ b.responses) (hne : r.event_id ≠ b.poll.event_id)
    (hpre : ∀ e ∈ pre, e.event_id ≠ b.poll.event_id) :
    Waiting b db₀ (pre ++ [r]) (projectEvent db₁ r clock) := by
  have hs := h.arrived.scopes
  have harrived := h.arrived.stored happend
  have hlog := find_self_of_append happend
  have hpoll : ∀ e, db₁.events.find b.poll.event_id = some e → e = b.poll := by
    refine fun e => harrived.poll hd (fun e he hid => ?_)
    rcases List.mem_append.mp he with hmem | hmem
    · exact absurd hid (hpre e hmem)
    · exact absurd (List.mem_singleton.mp hmem ▸ hid) hne
  obtain ⟨db₃, hs₂, hresolve, heq, habsent⟩ :=
    h.absent.arrive hs happend hr hne hpoll
  obtain ⟨hthreads, hrefs⟩ := append_threads happend
  -- The reference of the response is a new one.
  have hfree : db₁.pending_refs.find r.event_id = none := by
    rw [hrefs, Table.find_eq_none]
    intro ref href hid
    obtain ⟨e, he, -⟩ := hs.pending_refs ref href
    rw [hid, (Table.insert_eq_some (append_events happend).1).1] at he
    exact absurd he (Option.some_ne_none e).symm
  have hadded : (addPending db₁ r b.poll.event_id .poll_response).pending_refs.rows.filter
      (fun ref => among (pre ++ [r]) ref.event_id) = (pre ++ [r]).map b.waits := by
    have hrows : (addPending db₁ r b.poll.event_id .poll_response).pending_refs.rows =
        db.pending_refs.rows ++ [b.waits r] := by
      show (Table.insertOrIgnore _ _).rows = _
      rw [Table.rows_insertOrIgnore, if_neg (by rw [hfree]; exact Bool.false_ne_true), hrefs]
      rfl
    have hold : db.pending_refs.rows.filter (fun ref => among (pre ++ [r]) ref.event_id) =
        db.pending_refs.rows.filter (fun ref => among pre ref.event_id) := by
      refine List.filter_congr (fun ref href => ?_)
      have hother : r.event_id ≠ ref.event_id := by
        rw [hrefs] at hfree
        exact fun hid => Table.find_eq_none.mp hfree ref href hid.symm
      unfold among
      rw [List.any_append, List.any_cons, List.any_nil, decide_eq_false hother, Bool.or_false,
        Bool.or_false]
    have hself : [b.waits r].filter (fun ref => among (pre ++ [r]) ref.event_id) = [b.waits r] := by
      refine List.filter_eq_self.mpr (fun ref href => ?_)
      rw [List.mem_singleton.mp href]
      exact List.any_eq_true.mpr ⟨r, List.mem_append_right pre List.mem_cons_self, decide_eq_true rfl⟩
    rw [hrows, List.filter_append, hold, h.refs, hself, List.map_append]
    rfl
  have hidle : (resolvePending (addPending db₁ r b.poll.event_id .poll_response) r.relationship_id
      r.event_id (r.received_at.getD clock) clock).Ends
      (Idle (among (pre ++ [r])) (addPending db₁ r b.poll.event_id .poll_response))
      (fun _ _ => False) := by
    have hother : ∀ ref ∈ pendingRefs (addPending db₁ r b.poll.event_id .poll_response)
        r.relationship_id r.event_id, among (pre ++ [r]) ref.event_id = false := by
      intro ref href
      rw [Bool.eq_false_iff]
      intro hamong
      obtain ⟨hmem, hsel⟩ := List.mem_filter.mp href
      have hwaits : ref ∈ (addPending db₁ r b.poll.event_id .poll_response).pending_refs.rows.filter
          (fun ref => among (pre ++ [r]) ref.event_id) := List.mem_filter.mpr ⟨hmem, hamong⟩
      rw [hadded] at hwaits
      obtain ⟨r', -, rfl⟩ := List.mem_map.mp hwaits
      simp only [decide_eq_true_eq] at hsel
      exact hne hsel.2.1.symm
    refine resolveRefs_invariant hs₂ (fun _ => pendingRefs_eventOf hs₂) ⟨rfl, rfl⟩
      (fun ref href db₄ h => ?_) (fun _ _ _ _ h => ⟨h.1, h.2⟩) ?_ (fun _ _ _ h => ⟨h.1, h.2⟩)
    · exact h.trans ⟨rfl, .modify_other (hother ref href) (fun _ => by rfl)⟩
    · intro ref href hkind e he db₄ db₅ _ h hw
      obtain ⟨-, kind, htarget⟩ := Waits.names ⟨ref, href, hkind, he⟩ hs₂
      refine h.trans (idle_of_write hw (opensThread_of_target (by rw [htarget]; rfl)) ?_)
      rw [Table.key_of_find he]
      exact hother ref href
  rw [hresolve] at hidle
  refine ⟨harrived.projected hlog, habsent, ?_, ?_⟩
  · rw [heq, List.foldl_append, ← h.threads]
    obtain ⟨_, _, hseq⟩ := updateSeqState_eq db₃ r (r.received_at.getD clock)
    rw [hseq]
    exact hidle.threads.trans hthreads
  · rw [heq, ← hadded]
    obtain ⟨_, _, hseq⟩ := updateSeqState_eq db₃ r (r.received_at.getD clock)
    rw [hseq]
    exact hidle.pending_refs.symm

/-! ### The poll -/

/-- The poll is accepted after the responses `pre`. -/
def OpensAfter (b : Ballot) (db₀ : Database) (pre : List Event) : Prop :=
  b.poll.created_at < b.closes_at ∧ ∀ t, b.poll.thread_id = some t →
    ∀ row, (pre.foldl enrol db₀.threads).find t = some row → row.conversation_id = b.poll.conversation_id

theorem waiters_eq {db₂ : Database} (hunanswered : ∀ e ∈ db₀.events.rows, e.answers b.poll.event_id = false)
    (hs : Scoped db₂) (hrows : db₂.events.rows = db₀.events.rows ++ (pre ++ [b.poll]))
    (hrefs : db₂.pending_refs.rows.filter (fun ref => among pre ref.event_id) = pre.map b.waits) :
    waiters db₂ (pendingRefs db₂ b.poll.relationship_id b.poll.event_id) = pre.filter b.own := by
  have hpollfalse : b.poll.answers b.poll.event_id = false := by
    unfold Event.answers
    rw [b.payload]
  unfold waiters pendingRefs
  rw [List.filterMap_filter]
  have hamong : ∀ ref ∈ db₂.pending_refs.rows, among pre ref.event_id = false →
      (if decide (ref.relationship_id = b.poll.relationship_id ∧
          ref.target_event_id = b.poll.event_id ∧ ref.state = .pending) = true then
        (if ref.kind = .poll_response then db₂.events.find ref.event_id else none) else none) = none := by
    intro ref href hnot
    split_ifs with hsel hkind
    · obtain ⟨e, he, -, htarget⟩ := hs.pending_refs ref href
      have hanswers : e.answers b.poll.event_id = true := by
        have htarget' := htarget (by rw [hkind]; decide)
        rw [hkind, (of_decide_eq_true hsel).2.1] at htarget'
        exact answers_of_waits htarget'
      obtain ⟨hmem, hid⟩ := Table.find_eq_some.mp he
      rw [hrows] at hmem
      rcases List.mem_append.mp hmem with hold | hmem
      · rw [hunanswered e hold] at hanswers
        exact absurd hanswers Bool.false_ne_true
      · rcases List.mem_append.mp hmem with hin | hin
        · have : among pre ref.event_id = true :=
            List.any_eq_true.mpr ⟨e, hin, decide_eq_true hid⟩
          rw [hnot] at this
          exact absurd this Bool.false_ne_true
        · rw [List.mem_singleton.mp hin, hpollfalse] at hanswers
          exact absurd hanswers Bool.false_ne_true
    · rfl
    · rfl
  have honly : ∀ g : PendingRef → Option Event,
      (∀ ref ∈ db₂.pending_refs.rows, among pre ref.event_id = false → g ref = none) →
      db₂.pending_refs.rows.filterMap g = (pre.map b.waits).filterMap g := by
    intro g hg
    rw [← hrefs, List.filterMap_filter]
    refine List.filterMap_congr (fun ref href => ?_)
    cases hin : among pre ref.event_id with
    | true => rw [if_pos rfl]
    | false =>
      rw [if_neg Bool.false_ne_true]
      exact hg ref href hin
  rw [honly _ hamong, List.filterMap_map, ← List.filterMap_eq_filter]
  refine List.filterMap_congr (fun r hr => ?_)
  have hfind : db₂.events.find r.event_id = some r := by
    refine Table.mem_iff_find.mp ?_
    rw [hrows]
    exact List.mem_append_right _ (List.mem_append_left _ hr)
  show (if decide (r.relationship_id = b.poll.relationship_id ∧ b.poll.event_id = b.poll.event_id ∧
      RefState.pending = .pending) = true then
    (if RefKind.poll_response = .poll_response then db₂.events.find r.event_id else none) else none) = _
  rw [hfind, if_pos rfl]
  unfold own
  by_cases hown : r.relationship_id = b.poll.relationship_id
  · simp [hown, Option.guard]
  · simp [hown, Option.guard]

theorem opensAfter_iff (h : Waiting b db₀ pre db) (happend : db.append b.poll = some db₁) :
    b.OpensAfter db₀ pre ↔ b.poll.created_at < b.closes_at ∧ outOfThread db₁ b.poll = false := by
  have hthreads := (append_threads happend).1
  refine and_congr Iff.rfl ?_
  rw [← h.threads]
  cases ht : b.poll.thread_id with
  | none =>
    unfold outOfThread
    rw [ht]
    exact ⟨fun _ => rfl, fun _ t h => absurd h.symm (Option.some_ne_none t)⟩
  | some t =>
    rw [← Bool.not_eq_true, outOfThread_iff ht, not_not]
    unfold Joins enrol at *
    rw [ht] at hthreads
    have hfind : db₁.threads.find t = (db.threads.find t).or (some ⟨t, b.poll.conversation_id⟩) := by
      rw [hthreads]
      show Table.find (Table.insertOrIgnore _ _) t = _
      rw [Table.find_insertOrIgnore, if_pos rfl]
      cases db.threads.find t with
      | none => rfl
      | some row => rfl
    rw [hfind]
    constructor
    · intro hrow
      refine ⟨ht, fun row hr => ?_⟩
      cases hold : db.threads.find t with
      | none =>
        rw [hold] at hr
        rw [← Option.some.inj hr]
      | some row' =>
        rw [hold] at hr
        obtain rfl := Option.some.inj hr
        exact hrow t rfl _ hold
    · rintro ⟨-, hrow⟩ t' ht' row hr
      obtain rfl := Option.some.inj ht'
      exact hrow row (by rw [hr]; rfl)

theorem Absent.dispatch_poll {now : Nat} (h : b.Absent db) :
    (¬ (b.poll.created_at < b.closes_at ∧ outOfThread db b.poll = false) ∧
        ∃ db' code, Store.dispatch db b.poll now = .reject db' code) ∨
      ((b.poll.created_at < b.closes_at ∧ outOfThread db b.poll = false) ∧
        ∃ threads thread_state polls, db.polls.insert b.row = some polls ∧
          Store.dispatch db b.poll now = .done { db with threads, thread_state, polls }) := by
  have hdispatch : Store.dispatch db b.poll now =
      handlePollCreated db b.poll b.question b.choices b.closes_at b.multi_select := by
    unfold Store.dispatch
    rw [b.payload]
  obtain ⟨polls, hpolls⟩ := Table.insert_isSome (t := db.polls) (r := b.row) h.poll
  -- The rest of the handler, after the thread.
  have hbody : ∀ threads thread_state, ensureThread db b.poll = .done { db with threads, thread_state } →
      handlePollCreated db b.poll b.question b.choices b.closes_at b.multi_select =
        if b.closes_at ≤ b.poll.created_at then
          .reject { db with threads, thread_state } .poll_bad_closes_at
        else .done { db with threads, thread_state, polls } := by
    intro threads thread_state hensure
    unfold handlePollCreated
    rw [hensure]
    show (if (db.polls.find b.poll.event_id).isSome then _ else if _ then _ else
      Outcome.insert _ db.polls b.row _) = _
    rw [h.poll, Option.isSome_none, if_neg Bool.false_ne_true]
    unfold Outcome.insert
    rw [hpolls]
    rfl
  have hensure : (outOfThread db b.poll = true ∧
      ensureThread db b.poll = .reject db .thread_scope_mismatch) ∨
      (outOfThread db b.poll = false ∧ ∃ threads thread_state,
        ensureThread db b.poll = .done { db with threads, thread_state }) := by
    rcases ensureThread_cases db b.poll with ⟨hout, heq⟩ | ⟨hout, -, heq⟩ | ⟨t, hout, -, heq⟩
    · exact Or.inl ⟨hout, heq⟩
    · exact Or.inr ⟨hout, _, _, heq⟩
    · obtain ⟨threads, thread_state, hregister⟩ := registerThread_eq db b.poll t
      exact Or.inr ⟨hout, threads, thread_state, by rw [heq, hregister]⟩
  rcases hensure with ⟨hout, hensure⟩ | ⟨hout, threads, thread_state, hensure⟩
  · refine Or.inl ⟨fun hopens => ?_, db, .thread_scope_mismatch, ?_⟩
    · rw [hout] at hopens
      exact Bool.noConfusion hopens.2
    · rw [hdispatch]
      unfold handlePollCreated
      rw [hensure]
      rfl
  · rw [hdispatch, hbody threads thread_state hensure]
    by_cases hcloses : b.closes_at ≤ b.poll.created_at
    · rw [if_pos hcloses]
      exact Or.inl ⟨fun hopens => absurd hopens.1 (Nat.not_lt.mpr hcloses), _, _, rfl⟩
    · rw [if_neg hcloses]
      exact Or.inr ⟨⟨Nat.lt_of_not_le hcloses, hout⟩, threads, thread_state, polls, hpolls, rfl⟩

/-- The poll arrives: it counts the responses that waited, or it is rejected. -/
theorem Waiting.poll (h : Waiting b db₀ pre db)
    (hunanswered : ∀ e ∈ db₀.events.rows, e.answers b.poll.event_id = false)
    (happend : db.append b.poll = some db₁) :
    (b.OpensAfter db₀ pre → b.Open (b.tally (b.judged pre [])) (projectEvent db₁ b.poll clock)) ∧
      (¬ b.OpensAfter db₀ pre → b.Absent (projectEvent db₁ b.poll clock)) := by
  have hs₁ := h.arrived.scopes.append happend
  have hlog := find_self_of_append happend
  have hfork := not_forked_of_append happend
  have habsent := h.absent.frame (append_samePoll happend)
  have htime : b.poll.received_at.getD clock = time b.poll := received_getD (b := b) List.mem_cons_self
  rw [opensAfter_iff h happend]
  rcases habsent.dispatch_poll with
    ⟨hnot, db', code, hdispatch⟩ | ⟨hopens, threads, thread_state, polls, hpolls, hdispatch⟩
  · refine ⟨fun hopens => absurd hopens hnot, fun _ => ?_⟩
    rw [projectEvent_reject hfork hdispatch]
    exact habsent.frame ⟨rfl, rfl⟩
  · refine ⟨fun _ => ?_, fun hnot => absurd hopens hnot⟩
    obtain ⟨hs₂, -, db₃, hresolve, heq⟩ := projectEvent_done hs₁ hlog hfork hdispatch
    have hempty : b.Open (fun _ => none) { db₁ with threads, thread_state, polls } := by
      refine ⟨⟨0, ?_, ?_⟩, habsent.rows⟩
      · show polls.find b.poll.event_id = _
        rw [Table.find_of_insert hpolls, if_pos (show b.poll.event_id = b.row.poll_id from rfl)]
        rfl
      · symm
        rw [List.countP_eq_zero]
        intro row hrow hpoll
        have hfind := Table.mem_iff_find.mp hrow
        rw [PollResponse.key, of_decide_eq_true hpoll] at hfind
        exact Option.some_ne_none row (hfind.symm.trans (habsent.rows row.sender))
    have hends : (resolvePending { db₁ with threads, thread_state, polls } b.poll.relationship_id
        b.poll.event_id (b.poll.received_at.getD clock) clock).Ends _ _ :=
      hempty.resolveRefs hs₂ hlog (fun ref href => by
        obtain ⟨hmem, hsel⟩ := List.mem_filter.mp href
        obtain ⟨hrel, htarget, -⟩ := of_decide_eq_true hsel
        obtain ⟨e, he, hrel', htarget'⟩ := hs₂.pending_refs ref hmem
        refine ⟨e, he, hrel'.trans hrel, fun hkind => ?_⟩
        rw [htarget' hkind, htarget])
    have hwaiters : waiters { db₁ with threads, thread_state, polls }
        (pendingRefs { db₁ with threads, thread_state, polls } b.poll.relationship_id b.poll.event_id) =
          pre.filter b.own := by
      refine waiters_eq hunanswered hs₂ ?_ ?_
      · rw [← List.append_assoc]
        exact ((h.arrived.stored happend).rows).trans (List.append_assoc _ _ _).symm
      · show db₁.pending_refs.rows.filter _ = _
        rw [(append_threads happend).2]
        exact h.refs
    rw [hresolve, hwaiters, htime] at hends
    rw [heq]
    refine Open.frame ?_ updateSeqState_samePoll
    unfold tally judged
    rw [List.map_nil, List.append_nil]
    exact hends

/-! ## Orders of arrival -/

/-- The rule for a run: what every arrival keeps. -/
theorem arriveAll_invariant (clock : Event → Nat) {I : List Event → Database → Prop} (evs : List Event)
    (hI : I pre db)
    (hstep : ∀ pre' ev rest, pre ++ evs = pre' ++ ev :: rest → ∀ db, I pre' db →
      ∃ db', Store.arrive clock db ev = some db' ∧ I (pre' ++ [ev]) db') :
    ∃ db', arriveAll clock evs db = some db' ∧ I (pre ++ evs) db' := by
  induction evs generalizing pre db with
  | nil =>
    rw [List.append_nil]
    exact ⟨db, rfl, hI⟩
  | cons ev evs ih =>
    obtain ⟨db₁, harrive, hI₁⟩ := hstep pre ev evs rfl db hI
    have hassoc : pre ++ ev :: evs = (pre ++ [ev]) ++ evs := by simp
    obtain ⟨db', hrun, hI'⟩ := ih hI₁ (fun pre' e rest heq => hstep pre' e rest (hassoc.trans heq))
    refine ⟨db', ?_, hassoc ▸ hI'⟩
    unfold arriveAll
    rw [harrive]
    exact hrun

theorem arriveAll_append {clock : Event → Nat} {evs evs' : List Event} :
    arriveAll clock (evs ++ evs') db = (arriveAll clock evs db).bind (arriveAll clock evs') := by
  induction evs generalizing db with
  | nil => rfl
  | cons ev evs ih =>
    show (Store.arrive clock db ev).bind (arriveAll clock (evs ++ evs')) = Option.bind (Option.bind _ _) _
    rw [Option.bind_assoc]
    exact congrArg _ (funext fun db => ih)

theorem arrive_of_append {clock : Event → Nat} (h : db.append ev = some db₁) :
    Store.arrive clock db ev = some (projectEvent db₁ ev (clock ev)) := by
  unfold Store.arrive
  rw [h]
  rfl

theorem judged_concat (b : Ballot) (pre post : List Event) (r : Event) :
    b.judged pre (post ++ [r]) = b.judged pre post ++ [(r, time r)] := by
  unfold judged
  rw [List.map_append, List.append_assoc]
  rfl

theorem tally_concat (b : Ballot) (l : List (Event × Nat)) (q : Event × Nat) :
    b.tally (l ++ [q]) = b.count (b.tally l) q := by
  unfold tally
  rw [List.foldl_append]
  rfl

/-- An order of the ballot. -/
structure Order (b : Ballot) (pre post : List Event) : Prop where
  perm : (pre ++ b.poll :: post).Perm (b.poll :: b.responses)

theorem Order.mem {post : List Event} (h : Order b pre post) : r ∈ b.responses ↔ r ∈ pre ∨ r ∈ post := by
  have hperm : (pre ++ post).Perm b.responses := (List.perm_middle.symm.trans h.perm).cons_inv
  rw [← hperm.mem_iff, List.mem_append]

theorem Order.apart {post : List Event} (h : Order b pre post) (hd : b.Deliverable db₀) :
    (pre ++ b.poll :: post).Pairwise Apart :=
  (h.perm.pairwise_iff Apart.symm).mpr hd.distinct

/-- In an order the next event shares nothing with those before it. -/
theorem apart_of_pairwise {evs rest : List Event} (h : evs.Pairwise Apart)
    (heq : evs = pre ++ ev :: rest) : ∀ e ∈ pre, Apart e ev := by
  rw [heq, List.pairwise_append] at h
  exact fun e he => h.2.2 e he ev List.mem_cons_self

/-- Any order of arrival leaves the count of its responses. -/
theorem arriveAll_order {clock : Event → Nat} {post : List Event} (hf : b.Fresh db₀)
    (h : Order b pre post) :
    ∃ db', arriveAll clock (pre ++ b.poll :: post) db₀ = some db' ∧
      (b.OpensAfter db₀ pre → b.Open (b.tally (b.judged pre post)) db') ∧
      (¬ b.OpensAfter db₀ pre → b.Absent db') := by
  have hd := hf.deliverable
  have hapart := h.apart hd
  have hne : ∀ r ∈ pre ++ post, r.event_id ≠ b.poll.event_id := by
    intro r hr
    obtain ⟨-, hafter, hcross⟩ := List.pairwise_append.mp hapart
    rcases List.mem_append.mp hr with hr | hr
    · exact (hcross r hr b.poll List.mem_cons_self).1
    · exact fun heq => ((List.pairwise_cons.mp hafter).1 r hr).1 heq.symm
  -- The responses before the poll wait.
  obtain ⟨db₁, hrun₁, hwaiting⟩ : ∃ db₁, arriveAll clock pre db₀ = some db₁ ∧ Waiting b db₀ pre db₁ := by
    have hinvariant := arriveAll_invariant clock pre (I := Waiting b db₀) hf.waiting
    refine hinvariant (fun pre' r rest heq db hw => ?_)
    rw [List.nil_append] at heq
    have hsub : ∀ e ∈ pre' ++ [r], e ∈ pre := by
      intro e he
      rw [heq]
      rcases List.mem_append.mp he with he | he
      · exact List.mem_append_left _ he
      · exact List.mem_append_right _ (List.mem_singleton.mp he ▸ List.mem_cons_self)
    have hr : r ∈ b.responses :=
      h.mem.mpr (Or.inl (hsub r (List.mem_append_right _ List.mem_cons_self)))
    have hnext : ∀ e ∈ pre', Apart e r :=
      apart_of_pairwise ((List.pairwise_append.mp hapart).1) heq
    obtain ⟨db', happend⟩ := hw.arrived.append hd (List.mem_cons_of_mem b.poll hr) hnext
    refine ⟨_, arrive_of_append happend, hw.arrive hd happend hr ?_ ?_⟩
    · exact hne r (List.mem_append_left _ (hsub r (List.mem_append_right _ List.mem_cons_self)))
    · exact fun e he => hne e (List.mem_append_left _ (hsub e (List.mem_append_left _ he)))
  -- The poll opens or is rejected.
  obtain ⟨db₂, happend⟩ := hwaiting.arrived.append hd List.mem_cons_self
    (fun e he => (List.pairwise_append.mp hapart).2.2 e he b.poll List.mem_cons_self)
  have hpoll : (b.OpensAfter db₀ pre → b.Open (b.tally (b.judged pre [])) (projectEvent db₂ b.poll (clock b.poll))) ∧
      (¬ b.OpensAfter db₀ pre → b.Absent (projectEvent db₂ b.poll (clock b.poll))) :=
    hwaiting.poll hf.unanswered happend
  have harrived : Arrived db₀ (pre ++ [b.poll]) (projectEvent db₂ b.poll (clock b.poll)) :=
    (hwaiting.arrived.stored happend).projected (find_self_of_append happend)
  -- The responses after it are judged as they come.
  have hrest : ∀ P : List Event → Database → Prop,
      P [] (projectEvent db₂ b.poll (clock b.poll)) →
      (∀ post' r db db', P post' db → Scoped db → db.append r = some db' → r ∈ b.responses →
        r.event_id ≠ b.poll.event_id →
        (∀ e, db'.events.find b.poll.event_id = some e → e = b.poll) →
        P (post' ++ [r]) (projectEvent db' r (clock r))) →
      ∃ db', arriveAll clock post (projectEvent db₂ b.poll (clock b.poll)) = some db' ∧ P post db' := by
    intro P hstart hnext
    have hinvariant := arriveAll_invariant clock post
      (I := fun l db => ∃ post', l = pre ++ b.poll :: post' ∧ Arrived db₀ l db ∧ P post' db)
      ⟨[], rfl, harrived, hstart⟩
    obtain ⟨db', hrun, post', heq, -, hP⟩ := hinvariant (fun pre' r rest heq db hI => by
      obtain ⟨post', rfl, ha, hP⟩ := hI
      have hsplit : post = post' ++ r :: rest := by simpa using heq
      have hr : r ∈ post := by
        rw [hsplit]
        exact List.mem_append_right _ List.mem_cons_self
      have hwhole : pre ++ b.poll :: post = (pre ++ b.poll :: post') ++ r :: rest := by simp [hsplit]
      have hnextapart : ∀ e ∈ pre ++ b.poll :: post', Apart e r := apart_of_pairwise hapart hwhole
      obtain ⟨db', happend'⟩ := ha.append hd (List.mem_cons_of_mem b.poll (h.mem.mpr (Or.inr hr))) hnextapart
      have hstored := ha.stored happend'
      refine ⟨_, arrive_of_append happend', post' ++ [r], by simp, hstored.projected
        (find_self_of_append happend'), hnext post' r db db' hP ha.scopes happend' (h.mem.mpr (Or.inr hr))
        (hne r (List.mem_append_right _ hr)) (fun e => hstored.poll hd (fun e he hid => ?_))⟩
      rcases List.mem_append.mp he with he | he
      · rcases List.mem_append.mp he with he | he
        · exact absurd hid (hne e (List.mem_append_left _ he))
        · rcases List.mem_cons.mp he with he | he
          · exact he
          · refine absurd hid (hne e (List.mem_append_right _ ?_))
            rw [hsplit]
            exact List.mem_append_left _ he
      · rw [List.mem_singleton.mp he] at hid
        exact absurd hid (hne r (List.mem_append_right _ hr)))
    have hpost : post = post' := by simpa using heq
    exact ⟨db', hrun, hpost ▸ hP⟩
  have hrun : ∀ db', arriveAll clock post (projectEvent db₂ b.poll (clock b.poll)) = some db' →
      arriveAll clock (pre ++ b.poll :: post) db₀ = some db' := by
    intro db' hpost
    rw [arriveAll_append, hrun₁]
    show (Store.arrive clock db₁ b.poll).bind (arriveAll clock post) = _
    rw [arrive_of_append happend]
    exact hpost
  by_cases hopens : b.OpensAfter db₀ pre
  · obtain ⟨db', hpost, hopen⟩ := hrest (fun post' db => b.Open (b.tally (b.judged pre post')) db)
      (hpoll.1 hopens) (fun post' r db db' hopen hs happend hr hne hlog => by
        rw [judged_concat, tally_concat]
        exact hopen.arrive hs happend hr hne hlog)
    exact ⟨db', hrun db' hpost, fun _ => hopen, fun hnot => absurd hopens hnot⟩
  · obtain ⟨db', hpost, habsent⟩ := hrest (fun _ db => b.Absent db) (hpoll.2 hopens)
      (fun post' r db db' habsent hs happend hr hne hlog => by
        obtain ⟨_, -, -, -, habsent'⟩ := habsent.arrive hs happend hr hne hlog
        exact habsent')
    exact ⟨db', hrun db' hpost, fun hyes => absurd hyes hopens, fun _ => habsent⟩

end Ballot

end MuseAgentSocial.Store
