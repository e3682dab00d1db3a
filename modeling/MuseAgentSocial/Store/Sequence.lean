import MuseAgentSocial.Lib.Gaps
import MuseAgentSocial.Store.Rejection

/-!
# Sequence numbers

Every sender numbers its events in a relationship.  A node numbers its own
events when it persists them, takes those of the peer as they come, and tracks
both in `projection_cursors` and `sequence_gaps` when it projects an event.

* `Ledger` is a node with `sender_sequence` and `projection_queue`, and its
  operations are whole sends and receives.
* `Database.SequenceExact`: the cursor of a sender is the largest number in the
  log, and the gaps are the numbers below it that the log does not hold.
* `sequence_exact_iff`: both hold all along a run exactly when every event that
  enters the log is projected and accepted at once.
-/

namespace MuseAgentSocial.Store

open Model Crypto Policy

/-! ## The ledger -/

/-- A row of `sender_sequence`. -/
structure SenderSequence where
  relationship_id : RelationshipId
  sender : IdentityId
  last_seq : Nat
  deriving DecidableEq, Repr

/-- The primary key of `sender_sequence`. -/
def SenderSequence.key (r : SenderSequence) : RelationshipId × IdentityId :=
  (r.relationship_id, r.sender)

/-- A row of `projection_queue`. -/
structure QueuedProjection where
  event_id : EventId
  queued_at : Nat
  deriving DecidableEq, Repr

/-- A node with the tables that sending and receiving keep beside the log. -/
structure Ledger extends Node where
  sender_sequence : Table SenderSequence.key := Table.empty
  projection_queue : Table QueuedProjection.event_id := Table.empty
  /-- `accepted_receipts_enabled` of the delivery policies. -/
  accepted_receipts_enabled : RelationshipId → Bool := fun _ => true

/-- What `build_protected` draws for a receipt. -/
structure Draw where
  event_id : EventId
  thread_id : ThreadId
  key_epoch : Nat
  time : Nat
  deriving DecidableEq, Repr

/-- What happens to a ledger.  `stops` says that the process ends between the
commit of the event and its projection. -/
inductive Op where
  /-- A step that neither adds to the log nor projects. -/
  | other (a : Act)
  | policy (relationship_id : RelationshipId) (enabled : Bool)
  | send (ev : Event) (dry clock : Nat) (stops : Bool)
  | receive (ev : Event) (now : Nat) (receipt : Draw) (stops : Bool)
  /-- An object that was accepted before is delivered again. -/
  | redeliver (event_id : EventId) (now : Nat)
  deriving DecidableEq, Repr

/-- `COALESCE(MAX(sender_seq), 0)` of the sender in the log. -/
def Database.maxSeq (db : Database) (rid : RelationshipId) (sender : IdentityId) : Nat :=
  ((db.events.rows.filter (fun e => e.relationship_id = rid ∧ e.sender = sender)).map
    Event.sender_seq).max?.getD 0

namespace Ledger

variable (s : Ledger)

/-- `last_seq` of the sender, 0 without a row. -/
def lastSeq (rid : RelationshipId) (sender : IdentityId) : Nat :=
  (s.sender_sequence.find (rid, sender)).elim 0 (·.last_seq)

/-- The event enters the log, with its rows of `sender_sequence` and
`projection_queue`. -/
def commit (ev : Event) (now : Nat) : Option Ledger :=
  (s.db.append ev).map fun db =>
    { s with
        db
        sender_sequence := s.sender_sequence.upsert
          ⟨ev.relationship_id, ev.sender, max (s.lastSeq ev.relationship_id ev.sender) ev.sender_seq⟩
        projection_queue := s.projection_queue.insertOrIgnore ⟨ev.event_id, now⟩ }

/-- The event with the next number of its sender. -/
def numbered (ev : Event) : Event :=
  { ev with sender_seq := s.db.maxSeq ev.relationship_id ev.sender + 1 }

/-- `persist_outgoing_in_txn` of a numbered event: its thread may not belong to
another conversation. -/
def persistOutgoing (ev : Event) (now : Nat) : Option Ledger :=
  if ev.thread_id.any (fun t =>
      (s.db.threads.find t).any (fun row => row.conversation_id ≠ ev.conversation_id)) then none
  else s.commit ev now

/-- The projection transaction commits: the queue row is acknowledged. -/
def settle (ev : Event) (db : Database) : Ledger :=
  { s with db, projection_queue := s.projection_queue.delete (fun r => r.event_id = ev.event_id) }

/-- The projection of `_send_event`: a failure is reported and leaves the queue
row. -/
def projectSent (ev : Event) (clock : Nat) : Ledger :=
  match applyEvent s.db ev clock with
  | (db, .ok ()) => s.settle ev db
  | (_, .error _) => s

/-- The projection of the receive path: a rejected event is quarantined and
acknowledged. -/
def projectReceived (ev : Event) (clock : Nat) : Ledger :=
  match applyEvent s.db ev clock with
  | (db, .ok ()) => s.settle ev db
  | (_, .error (.projection code)) => s.settle ev (quarantineEvent s.db ev (.projection code) clock)
  | (_, .error _) => s

/-- `_semantic_dry_run` passes: the projection of the event, which has no
number yet, is tried and rolled back. -/
def dryRun (ev : Event) (clock : Nat) : Bool :=
  (applyEvent s.db { ev with sender_seq := 0, received_at := some clock } clock).2.isOk

/-- An accepted receipt goes out for the event. -/
def queuesReceipt (ev : Event) : Bool :=
  s.accepted_receipts_enabled ev.relationship_id &&
    match ev.payload with
    | .receipt _ _ _ => false
    | _ => true

/-- The event that `_queue_accepted_receipt` builds. -/
def acceptedReceipt (ev : Event) (now : Nat) (receipt : Draw) (own : IdentityId) : Event where
  event_id := receipt.event_id
  relationship_id := ev.relationship_id
  conversation_id := ev.relationship_id
  thread_id := some receipt.thread_id
  sender := own
  sender_seq := s.db.maxSeq ev.relationship_id own + 1
  created_at := receipt.time
  key_epoch := receipt.key_epoch
  payload := .receipt .accepted ev.event_id now
  reply_to := none
  received_at := some receipt.time

/-- `_queue_accepted_receipt`, in the transaction of the receive commit.  It
only queues the projection of the receipt. -/
def queueAcceptedReceipt (ev : Event) (now : Nat) (receipt : Draw) : Option Ledger :=
  if s.queuesReceipt ev then
    s.identities.head?.bind fun own =>
      s.persistOutgoing (s.acceptedReceipt ev now receipt own) receipt.time
  else some s

/-- The checks of `_receive_object_inner` before its commit: the sender, the
schema of the number, and the bound on its jump. -/
def admitsObject (ev : Event) (now : Nat) : Bool :=
  (s.db.relationships.find ev.relationship_id).any (·.admits ev.sender now) &&
    decide (ev.received_at = some now ∧ 0 < ev.sender_seq ∧
      ev.sender_seq - s.lastSeq ev.relationship_id ev.sender ≤ MAX_SEQ_GAP)

/-- A step of the node that neither adds to the log nor projects. -/
def quiet : Act → Bool
  | .pair _ _ | .approve _ | .expire _ _ | .pin _ _ | .rotate _ => true
  | _ => false

/-- One operation on the ledger. -/
def step : Op → Option Ledger
  | .other a => if quiet a then (s.toNode.step a).map fun n => { s with toNode := n } else none
  | .policy rid enabled =>
    some { s with
      accepted_receipts_enabled := Function.update s.accepted_receipts_enabled rid enabled }
  | .send ev dry clock stops =>
    if s.identities.head? = some ev.sender ∧ s.dryRun ev dry then
      (s.persistOutgoing (s.numbered ev) clock).map fun t =>
        if stops then t else t.projectSent (s.numbered ev) clock
    else none
  | .receive ev now receipt stops =>
    if s.admitsObject ev now then
      (s.commit ev now).bind fun t =>
      (t.queueAcceptedReceipt ev now receipt).map fun t =>
        if stops then t else t.projectReceived ev now
    else none
  | .redeliver event_id now =>
    (s.db.events.find event_id).bind fun ev =>
      if (s.db.relationships.find ev.relationship_id).any (·.admits ev.sender now) then
        some (if (s.projection_queue.find event_id).isSome then s.projectReceived ev now else s)
      else none

end Ledger

/-- A ledger starts with a node that starts, and empty tables. -/
def ledger : Machine Ledger Op where
  init s := machine.init s.toNode ∧ s.sender_sequence = .empty ∧ s.projection_queue = .empty
  step := Ledger.step

/-! ## Exactness -/

namespace Database

variable (db : Database) (rid : RelationshipId) (sender : IdentityId)

/-- The numbers of the sender that the log holds. -/
def stored : Set ℕ :=
  {n | ∃ e ∈ db.events.rows, e.relationship_id = rid ∧ e.sender = sender ∧ e.sender_seq = n}

/-- The projected cursor of the sender, 0 without a row. -/
def cursor : Nat := (db.projection_cursors.find (rid, sender)).elim 0 (·.max_seq)

/-- The numbers of the sender that are reported missing. -/
def gaps : Set ℕ := {n | (db.sequence_gaps.find (rid, sender, n)).isSome}

/-- The cursor is the largest number in the log, and the gaps are the numbers
up to it that are not in the log. -/
def SequenceExact : Prop :=
  db.cursor rid sender = db.maxSeq rid sender ∧
    ∀ n, n ∈ db.gaps rid sender ↔ 1 ≤ n ∧ n ≤ db.cursor rid sender ∧ n ∉ db.stored rid sender

end Database

section exact

variable {db db' : Database} {rid : RelationshipId} {sender : IdentityId}

theorem mem_stored_iff {n : ℕ} :
    n ∈ db.stored rid sender ↔
      n ∈ (db.events.rows.filter (fun e => e.relationship_id = rid ∧ e.sender = sender)).map
        Event.sender_seq := by
  simp only [Database.stored, Set.mem_ofPred_eq, List.mem_map, List.mem_filter, decide_eq_true_eq,
    and_assoc]

theorem le_maxSeq {n : ℕ} (h : n ∈ db.stored rid sender) : n ≤ db.maxSeq rid sender :=
  List.le_max?_getD_of_mem (mem_stored_iff.mp h)

theorem maxSeq_stored (db : Database) (rid : RelationshipId) (sender : IdentityId) :
    db.maxSeq rid sender = 0 ∨ db.maxSeq rid sender ∈ db.stored rid sender := by
  rw [mem_stored_iff]
  unfold Database.maxSeq
  cases hmax : ((db.events.rows.filter (fun e => e.relationship_id = rid ∧ e.sender = sender)).map
      Event.sender_seq).max? with
  | none => exact Or.inl rfl
  | some n => exact Or.inr (List.max?_eq_some_iff.mp hmax).1

theorem sequenceExact_iff :
    db.SequenceExact rid sender ↔
      Tracks (db.stored rid sender) (db.cursor rid sender) (db.gaps rid sender) := by
  constructor
  · rintro ⟨hcursor, hgaps⟩
    refine ⟨fun n hn => hcursor ▸ le_maxSeq hn, ?_, hgaps⟩
    rw [hcursor]
    exact maxSeq_stored db rid sender
  · intro h
    refine ⟨?_, h.missing⟩
    apply Nat.le_antisymm
    · rcases h.attained with hzero | hmem
      · omega
      · exact le_maxSeq hmem
    · rcases maxSeq_stored db rid sender with hzero | hmem
      · omega
      · exact h.above _ hmem

theorem maxSeq_unique {n : ℕ} (habove : ∀ m ∈ db.stored rid sender, m ≤ n)
    (hattained : n = 0 ∨ n ∈ db.stored rid sender) : db.maxSeq rid sender = n := by
  apply Nat.le_antisymm
  · rcases maxSeq_stored db rid sender with hzero | hmem
    · omega
    · exact habove _ hmem
  · rcases hattained with hzero | hmem
    · omega
    · exact le_maxSeq hmem

/-! ### The log -/

theorem stored_of_append {ev : Event} (h : db.append ev = some db') :
    db'.stored rid sender =
      if rid = ev.relationship_id ∧ sender = ev.sender then
        insert ev.sender_seq (db.stored rid sender)
      else db.stored rid sender := by
  have hmem : ∀ e, e ∈ db'.events.rows ↔ e ∈ db.events.rows ∨ e = ev :=
    fun e => Table.mem_of_insert (append_events h).1
  ext n
  split_ifs with hkey
  · simp only [Database.stored, Set.mem_insert_iff, Set.mem_ofPred_eq, hmem]
    constructor
    · rintro ⟨e, he | rfl, hrel, hsender, hseq⟩
      · exact Or.inr ⟨e, he, hrel, hsender, hseq⟩
      · exact Or.inl hseq.symm
    · rintro (rfl | ⟨e, he, hrel, hsender, hseq⟩)
      · exact ⟨ev, Or.inr rfl, hkey.1.symm, hkey.2.symm, rfl⟩
      · exact ⟨e, Or.inl he, hrel, hsender, hseq⟩
  · simp only [Database.stored, Set.mem_ofPred_eq, hmem]
    constructor
    · rintro ⟨e, he | rfl, hrel, hsender, hseq⟩
      · exact ⟨e, he, hrel, hsender, hseq⟩
      · exact absurd ⟨hrel.symm, hsender.symm⟩ hkey
    · rintro ⟨e, he, hrel, hsender, hseq⟩
      exact ⟨e, Or.inl he, hrel, hsender, hseq⟩

/-- A number is taken once. -/
theorem not_stored_of_append {ev : Event} (h : db.append ev = some db') :
    ev.sender_seq ∉ db.stored ev.relationship_id ev.sender := by
  rintro ⟨e, he, hrel, hsender, hseq⟩
  unfold Database.append at h
  split_ifs at h with hclash
  apply hclash
  rw [Bool.or_eq_true]
  refine Or.inr (List.any_eq_true.mpr ⟨e, he, ?_⟩)
  simp only [hrel, hsender, hseq, and_self, decide_true]

/-- The event that was appended shares its number with no other. -/
theorem not_forked_of_append {ev : Event} (h : db.append ev = some db') : forked db' ev = false := by
  rw [Bool.eq_false_iff]
  intro hforked
  obtain ⟨e, he, hsame⟩ := List.any_eq_true.mp hforked
  simp only [decide_eq_true_eq] at hsame
  obtain ⟨hrel, hsender, hseq, hid⟩ := hsame
  rcases (Table.mem_of_insert (append_events h).1).mp he with he | rfl
  · exact not_stored_of_append h ⟨e, he, hrel, hsender, hseq⟩
  · exact hid rfl

theorem find_self_of_append {ev : Event} (h : db.append ev = some db') :
    db'.events.find ev.event_id = some ev := by
  rw [Table.find_of_insert (append_events h).1, if_pos rfl]

theorem maxSeq_of_append {ev : Event} (h : db.append ev = some db') :
    db'.maxSeq rid sender =
      if rid = ev.relationship_id ∧ sender = ev.sender then
        max (db.maxSeq rid sender) ev.sender_seq
      else db.maxSeq rid sender := by
  have hstored : db'.stored rid sender = _ := stored_of_append h
  split_ifs at hstored ⊢ with hkey
  · apply maxSeq_unique
    · intro m hm
      rw [hstored] at hm
      rcases Set.mem_insert_iff.mp hm with rfl | hm
      · exact Nat.le_max_right _ _
      · exact (le_maxSeq hm).trans (Nat.le_max_left _ _)
    · rw [hstored]
      rcases Nat.le_total (db.maxSeq rid sender) ev.sender_seq with hle | hle
      · rw [Nat.max_eq_right hle]
        exact Or.inr (Set.mem_insert _ _)
      · rw [Nat.max_eq_left hle]
        exact (maxSeq_stored db rid sender).imp id (Set.mem_insert_of_mem _)
  · apply maxSeq_unique
    · intro m hm
      exact le_maxSeq (hstored ▸ hm)
    · rw [hstored]
      exact maxSeq_stored db rid sender

end exact

/-! ## Projecting an event -/

/-- The cursors and the gaps are the same. -/
structure SameSequence (db db' : Database) : Prop where
  projection_cursors : db'.projection_cursors = db.projection_cursors
  sequence_gaps : db'.sequence_gaps = db.sequence_gaps

section project

variable {db db' db'' : Database} {ev : Event} {rid : RelationshipId} {sender : IdentityId}
  {now clock : Nat}

theorem SameSequence.refl (db : Database) : SameSequence db db := ⟨rfl, rfl⟩

theorem SameSequence.trans (h : SameSequence db db') (h' : SameSequence db' db'') :
    SameSequence db db'' :=
  ⟨h'.projection_cursors.trans h.projection_cursors, h'.sequence_gaps.trans h.sequence_gaps⟩

theorem SameSequence.cursor (h : SameSequence db db') : db'.cursor rid sender = db.cursor rid sender := by
  unfold Database.cursor
  rw [h.projection_cursors]

theorem SameSequence.gaps (h : SameSequence db db') : db'.gaps rid sender = db.gaps rid sender := by
  unfold Database.gaps
  rw [h.sequence_gaps]

/-- No handler writes to the cursors or to the gaps. -/
theorem Write.sameSequence (h : Write ev now db db') : SameSequence db db' := by
  cases h with
  | thread hopens hjoins =>
    obtain ⟨_, _, heq⟩ := registerThread_eq db ev ‹_›
    rw [heq]
    exact ⟨rfl, rfl⟩
  | message hpayload hmessages hrevisions =>
    obtain ⟨_, heq⟩ := bumpThreadMessage_eq _ ev.thread_id ev.created_at
    rw [heq]
    exact ⟨rfl, rfl⟩
  | _ => exact ⟨rfl, rfl⟩

theorem Writes.sameSequence (h : Writes ev now db db') : SameSequence db db' := by
  induction h with
  | refl => exact .refl db
  | tail _ hwrite ih => exact ih.trans hwrite.sameSequence

/-- The number of an accepted event is recorded in a database with the same
cursors and gaps as before. -/
theorem applyInner_records (hs : Scoped db) (hlog : db.events.find ev.event_id = some ev)
    (hfork : forked db ev = false) (haccepted : rejection db ev now = none) :
    ∃ db₁, applyInner db ev now clock = .done (updateSeqState db₁ ev now) ∧ SameSequence db db₁ ∧
      SameInputs db db₁ := by
  have hraises : Raises db ev (rejection db ev now) (dispatch db ev now) := dispatch_raises hs hlog
  rw [haccepted] at hraises
  obtain ⟨db₁, hdispatch⟩ := hraises
  have hw : Writes ev now db db₁ := by
    have hends : (dispatch db ev now).Ends (Writes ev now db) _ := dispatch_ends hs hlog
    rw [hdispatch] at hends
    exact hends
  have hs₁ := hw.scoped hs hlog
  have hends : (resolvePending db₁ ev.relationship_id ev.event_id now clock).Ends _ _ :=
    resolvePending_ends hs₁
  have hsame : (resolvePending db₁ ev.relationship_id ev.event_id now clock).Ends
      (SameSequence db₁) (fun _ _ => True) := by
    refine Outcome.Ends.imp (resolveRefs_invariant hs₁ (fun _ => pendingRefs_eventOf hs₁)
      (SameSequence.refl db₁) (fun _ _ _ h => ⟨h.1, h.2⟩) (fun _ _ _ _ h => ⟨h.1, h.2⟩) ?_
      (fun _ _ _ h => ⟨h.1, h.2⟩)) (fun _ => id) (fun _ _ => False.elim)
    exact fun _ _ _ _ _ _ _ _ hsame hw => hsame.trans hw.sameSequence
  unfold applyInner
  rw [hfork, if_neg Bool.false_ne_true, hdispatch]
  show ∃ db₂, (resolvePending db₁ ev.relationship_id ev.event_id now clock).andThen _ = _ ∧ _
  generalize resolvePending db₁ ev.relationship_id ev.event_id now clock = out at hends hsame ⊢
  match out, hends, hsame with
  | (db₂, .ok ()), heffects, hsame =>
    exact ⟨db₂, rfl, hw.sameSequence.trans hsame, hw.sameInputs.trans heffects.sameInputs⟩

/-! ### Recording a number -/

theorem updateSeqState_cursors :
    (updateSeqState db ev now).projection_cursors =
      if (db.projection_cursors.find (ev.relationship_id, ev.sender)).isNone ∨
          db.cursor ev.relationship_id ev.sender < ev.sender_seq then
        db.projection_cursors.upsert ⟨ev.relationship_id, ev.sender, ev.sender_seq⟩
      else db.projection_cursors := by
  unfold updateSeqState Database.cursor
  dsimp only
  split_ifs <;> rfl

theorem updateSeqState_cursor :
    (updateSeqState db ev now).cursor rid sender =
      if rid = ev.relationship_id ∧ sender = ev.sender then
        max (db.cursor rid sender) ev.sender_seq
      else db.cursor rid sender := by
  have hkey : (rid, sender) = Cursor.key ⟨ev.relationship_id, ev.sender, ev.sender_seq⟩ ↔
      rid = ev.relationship_id ∧ sender = ev.sender := by
    simp only [Cursor.key, Prod.mk.injEq]
  unfold Database.cursor
  rw [updateSeqState_cursors]
  by_cases hk : rid = ev.relationship_id ∧ sender = ev.sender
  · rw [if_pos hk]
    split_ifs with hadvances
    · rw [Table.find_upsert, if_pos (hkey.mpr hk), hk.1, hk.2]
      show ev.sender_seq = max (db.cursor ev.relationship_id ev.sender) ev.sender_seq
      rcases hadvances with hnone | hlt
      · unfold Database.cursor
        rw [Option.isNone_iff_eq_none.mp hnone]
        exact (Nat.zero_max _).symm
      · exact (Nat.max_eq_right (Nat.le_of_lt hlt)).symm
    · rw [hk.1, hk.2]
      exact (Nat.max_eq_left (Nat.le_of_not_lt (fun h => hadvances (Or.inr h)))).symm
  · rw [if_neg hk]
    split_ifs with hadvances
    · rw [Table.find_upsert, if_neg (fun h => hk (hkey.mp h))]
    · rfl

/-- The gaps after a number above the cursor, up to the cap. -/
theorem updateSeqState_gaps_advance (hlt : db.cursor ev.relationship_id ev.sender < ev.sender_seq)
    {n : ℕ} :
    n ∈ (updateSeqState db ev now).gaps rid sender ↔ n ∈ db.gaps rid sender ∨
      (rid = ev.relationship_id ∧ sender = ev.sender ∧ db.cursor rid sender < n ∧
        n ≤ db.cursor rid sender + min (ev.sender_seq - db.cursor rid sender - 1) MAX_SEQ_GAP) := by
  have hprev : ((db.projection_cursors.find (ev.relationship_id, ev.sender)).elim 0 (·.max_seq)) <
      ev.sender_seq := hlt
  unfold updateSeqState
  dsimp only
  rw [if_pos hprev, if_pos (Or.inr hprev)]
  refine (Table.isSome_find_foldl_insertOrIgnore _ _ _).trans (or_congr Iff.rfl ?_)
  constructor
  · rintro ⟨m, hm, hkey⟩
    obtain ⟨hrel, hsender, rfl⟩ : ev.relationship_id = rid ∧ ev.sender = sender ∧ m = n := by
      simpa [SequenceGap.key] using hkey
    subst hrel hsender
    rw [List.mem_range'_1] at hm
    unfold Database.cursor
    exact ⟨rfl, rfl, by omega, by omega⟩
  · rintro ⟨rfl, rfl, hlow, hhigh⟩
    unfold Database.cursor at hlow hhigh
    exact ⟨n, List.mem_range'_1.mpr ⟨by omega, by omega⟩, rfl⟩

theorem updateSeqState_gaps_late (hle : ev.sender_seq ≤ db.cursor ev.relationship_id ev.sender)
    {n : ℕ} :
    n ∈ (updateSeqState db ev now).gaps rid sender ↔ n ∈ db.gaps rid sender ∧
      ¬ (rid = ev.relationship_id ∧ sender = ev.sender ∧ n = ev.sender_seq) := by
  have hprev : ¬ ((db.projection_cursors.find (ev.relationship_id, ev.sender)).elim 0 (·.max_seq)) <
      ev.sender_seq := Nat.not_lt.mpr hle
  have hgaps : (updateSeqState db ev now).sequence_gaps = db.sequence_gaps.delete
      (fun g => g.key = (ev.relationship_id, ev.sender, ev.sender_seq)) := by
    unfold updateSeqState
    dsimp only
    rw [if_neg hprev]
    split_ifs
    · rfl
    · rfl
  unfold Database.gaps
  rw [hgaps]
  simp only [Set.mem_ofPred_eq, Table.find_delete]
  cases hfind : db.sequence_gaps.find (rid, sender, n) with
  | none => simp
  | some g =>
    have hkey := Table.key_of_find hfind
    simp only [Option.filter_some, hkey, Prod.mk.injEq]
    by_cases hk : rid = ev.relationship_id ∧ sender = ev.sender ∧ n = ev.sender_seq
    · simp [hk]
    · simp [hk]

/-- A number that jumps no further than the cap is recorded in full. -/
theorem updateSeqState_tracks {S : Set ℕ}
    (h : Tracks S (db.cursor ev.relationship_id ev.sender) (db.gaps ev.relationship_id ev.sender))
    (hcap : ev.sender_seq - db.cursor ev.relationship_id ev.sender ≤ MAX_SEQ_GAP) :
    Tracks (insert ev.sender_seq S)
      ((updateSeqState db ev now).cursor ev.relationship_id ev.sender)
      ((updateSeqState db ev now).gaps ev.relationship_id ev.sender) := by
  rw [updateSeqState_cursor, if_pos ⟨rfl, rfl⟩]
  by_cases hlt : db.cursor ev.relationship_id ev.sender < ev.sender_seq
  · rw [Nat.max_eq_right (Nat.le_of_lt hlt)]
    refine h.advance hlt (fun n => ?_)
    rw [updateSeqState_gaps_advance hlt]
    refine or_congr Iff.rfl ?_
    constructor
    · rintro ⟨-, -, hlow, hhigh⟩
      exact ⟨hlow, by omega⟩
    · rintro ⟨hlow, hhigh⟩
      exact ⟨rfl, rfl, hlow, by omega⟩
  · rw [Nat.max_eq_left (Nat.le_of_not_lt hlt)]
    refine h.late (Nat.le_of_not_lt hlt) (fun n => ?_)
    rw [updateSeqState_gaps_late (Nat.le_of_not_lt hlt)]
    simp only [true_and, ne_eq]

theorem updateSeqState_other (hne : ¬ (rid = ev.relationship_id ∧ sender = ev.sender)) :
    (updateSeqState db ev now).cursor rid sender = db.cursor rid sender ∧
      (updateSeqState db ev now).gaps rid sender = db.gaps rid sender := by
  rw [updateSeqState_cursor, if_neg hne]
  refine ⟨rfl, Set.ext fun n => ?_⟩
  by_cases hlt : db.cursor ev.relationship_id ev.sender < ev.sender_seq
  · rw [updateSeqState_gaps_advance hlt]
    constructor
    · rintro (h | ⟨hrel, hsender, -⟩)
      · exact h
      · exact absurd ⟨hrel, hsender⟩ hne
    · exact Or.inl
  · rw [updateSeqState_gaps_late (Nat.le_of_not_lt hlt)]
    exact ⟨fun h => h.1, fun h => ⟨h, fun hk => hne ⟨hk.1, hk.2.1⟩⟩⟩

/-- Applying an event records its number or leaves the cursors and the gaps. -/
theorem applyInner_sequence (hs : Scoped db) (hlog : db.events.find ev.event_id = some ev)
    (h : applyInner db ev now clock = .done db') :
    SameSequence db db' ∨ ∃ db₁, SameSequence db db₁ ∧ db' = updateSeqState db₁ ev now := by
  cases hfork : forked db ev with
  | true =>
    unfold applyInner at h
    rw [hfork, if_pos rfl] at h
    rw [← (Prod.mk.inj h).1]
    exact Or.inl ⟨rfl, rfl⟩
  | false =>
    cases hrejection : rejection db ev now with
    | none =>
      obtain ⟨db₁, happly, hsame, -⟩ := applyInner_records hs hlog hfork hrejection
      rw [happly] at h
      exact Or.inr ⟨db₁, hsame, (Prod.mk.inj h).1.symm⟩
    | some code =>
      obtain ⟨db₁, happly, -⟩ := applyInner_rejected hs hlog hfork hrejection
      rw [happly] at h
      exact absurd (Prod.mk.inj h).2 (by simp)

end project

/-! ## The operations -/

namespace Ledger

variable {s t : Ledger} {ev : Event} {now clock : Nat} {rid : RelationshipId} {sender : IdentityId}

theorem commit_append (h : s.commit ev now = some t) : s.db.append ev = some t.db := by
  obtain ⟨db, hdb, rfl⟩ := Option.map_eq_some_iff.mp h
  exact hdb

/-- A commit leaves the cursors and the gaps to the projection. -/
theorem commit_sameSequence (h : s.commit ev now = some t) : SameSequence s.db t.db := by
  obtain ⟨-, _, heq⟩ := append_events (commit_append h)
  rw [heq]
  exact ⟨rfl, rfl⟩

theorem commit_lastSeq (h : s.commit ev now = some t) :
    t.lastSeq rid sender =
      if rid = ev.relationship_id ∧ sender = ev.sender then
        max (s.lastSeq rid sender) ev.sender_seq
      else s.lastSeq rid sender := by
  obtain ⟨db, -, rfl⟩ := Option.map_eq_some_iff.mp h
  have hkey : ∀ n, (rid, sender) = SenderSequence.key ⟨ev.relationship_id, ev.sender, n⟩ ↔
      rid = ev.relationship_id ∧ sender = ev.sender := by
    intro n
    simp only [SenderSequence.key, Prod.mk.injEq]
  unfold lastSeq
  simp only [Table.find_upsert, hkey]
  split_ifs with hk
  · rw [hk.1, hk.2]
    rfl
  · rfl

theorem persistOutgoing_commit (h : s.persistOutgoing ev now = some t) : s.commit ev now = some t := by
  unfold persistOutgoing at h
  split_ifs at h
  exact h

@[simp] theorem settle_db (s : Ledger) (ev : Event) (db : Database) : (s.settle ev db).db = db := rfl

@[simp] theorem settle_lastSeq (s : Ledger) (ev : Event) (db : Database) :
    (s.settle ev db).lastSeq rid sender = s.lastSeq rid sender := rfl

/-- The queue row of the event that was committed last is the only one, and it
is acknowledged. -/
theorem settle_queue {db : Database} (hqueue : s.projection_queue.rows = [])
    (h : s.commit ev now = some t) : (t.settle ev db).projection_queue.rows = [] := by
  obtain ⟨db', -, rfl⟩ := Option.map_eq_some_iff.mp h
  apply List.eq_nil_iff_forall_not_mem.mpr
  intro r hr
  obtain ⟨hr, hne⟩ := Table.mem_delete.mp hr
  rcases Table.mem_insertOrIgnore.mp hr with hold | ⟨rfl, -⟩
  · rw [hqueue] at hold
    exact absurd hold List.not_mem_nil
  · simp at hne

/-! ### The invariant -/

/-- A ledger that has projected all its events. -/
structure Steady (s : Ledger) : Prop where
  scopes : Scoped s.db
  last_seq : ∀ rid sender, s.lastSeq rid sender = s.db.maxSeq rid sender
  queue : s.projection_queue.rows = []
  exact : ∀ rid sender, s.db.SequenceExact rid sender

/-- The handler of its type accepts the event right after it enters the log. -/
def accepts (s : Ledger) (ev : Event) (now : Nat) : Bool :=
  (s.db.append ev).all (fun db => (rejection db ev now).isNone)

/-- The operation projects every event that it adds to the log. -/
def Projected (s : Ledger) : Op → Prop
  | .send ev _ clock stops =>
    stops = false ∧ s.accepts (s.numbered ev) (ev.received_at.getD clock) = true
  | .receive ev now _ stops =>
    stops = false ∧ s.queuesReceipt ev = false ∧ s.accepts ev now = true
  | _ => True

instance (s : Ledger) : ∀ op, Decidable (s.Projected op)
  | .send _ _ _ _ => inferInstanceAs (Decidable (_ ∧ _))
  | .receive _ _ _ _ => inferInstanceAs (Decidable (_ ∧ _ ∧ _))
  | .other _ | .policy _ _ | .redeliver _ _ => isTrue trivial

theorem Steady.tracks (h : s.Steady) (rid : RelationshipId) (sender : IdentityId) :
    Tracks (s.db.stored rid sender) (s.db.cursor rid sender) (s.db.gaps rid sender) :=
  sequenceExact_iff.mp (h.exact rid sender)

/-- An event that entered the log and was not recorded shows. -/
theorem Steady.not_exact {db : Database} (hs : s.Steady) (h : s.commit ev now = some t)
    (hpos : 0 < ev.sender_seq) (hevents : db.events = t.db.events) (hsame : SameSequence t.db db) :
    ¬ db.SequenceExact ev.relationship_id ev.sender := by
  have hstored : db.stored ev.relationship_id ev.sender =
      insert ev.sender_seq (s.db.stored ev.relationship_id ev.sender) := by
    have heq : t.db.stored ev.relationship_id ev.sender = _ := stored_of_append (commit_append h)
    rw [if_pos ⟨rfl, rfl⟩] at heq
    rw [← heq]
    unfold Database.stored
    rw [hevents]
  rw [sequenceExact_iff, hstored, ((commit_sameSequence h).trans hsame).cursor,
    ((commit_sameSequence h).trans hsame).gaps]
  exact (hs.tracks _ _).not_missed hpos (not_stored_of_append (commit_append h))

/-- An event that entered the log and was accepted is recorded. -/
theorem Steady.settle {db₁ : Database} (hs : s.Steady) (h : s.commit ev clock = some t)
    (hcap : ev.sender_seq - s.lastSeq ev.relationship_id ev.sender ≤ MAX_SEQ_GAP)
    (hscoped : Scoped (updateSeqState db₁ ev now)) (hevents : db₁.events = t.db.events)
    (hsame : SameSequence t.db db₁) : (t.settle ev (updateSeqState db₁ ev now)).Steady := by
  have happend := commit_append h
  have hseq := (commit_sameSequence h).trans hsame
  have hevents' : (updateSeqState db₁ ev now).events = t.db.events := by
    obtain ⟨_, _, heq⟩ := updateSeqState_eq db₁ ev now
    rw [heq]
    exact hevents
  have hstored : ∀ rid sender, (updateSeqState db₁ ev now).stored rid sender =
      t.db.stored rid sender := by
    intro rid sender
    unfold Database.stored
    rw [hevents']
  refine ⟨hscoped, fun rid sender => ?_, settle_queue hs.queue h, fun rid sender => ?_⟩
  · have hmax : (updateSeqState db₁ ev now).maxSeq rid sender = t.db.maxSeq rid sender := by
      unfold Database.maxSeq
      rw [hevents']
    rw [settle_lastSeq, settle_db, hmax, commit_lastSeq h, maxSeq_of_append happend, hs.last_seq]
  · rw [settle_db, sequenceExact_iff, hstored, stored_of_append happend]
    split_ifs with hkey
    · rw [hkey.1, hkey.2]
      refine updateSeqState_tracks ?_ ?_
      · rw [hseq.cursor, hseq.gaps]
        exact hs.tracks _ _
      · rw [hseq.cursor, (hs.exact _ _).1, ← hs.last_seq]
        exact hcap
    · obtain ⟨hcursor, hgaps⟩ := updateSeqState_other hkey
      rw [hcursor, hgaps, hseq.cursor, hseq.gaps]
      exact hs.tracks _ _

theorem Steady.accepted (hs : s.Steady) (h : s.commit ev now = some t)
    (hcap : ev.sender_seq - s.lastSeq ev.relationship_id ev.sender ≤ MAX_SEQ_GAP)
    (haccepts : s.accepts ev (ev.received_at.getD clock) = true) :
    ∃ db, applyEvent t.db ev clock = (db, .ok ()) ∧ (t.settle ev db).Steady := by
  have happend := commit_append h
  have hscoped := hs.scopes.append happend
  have hlog := find_self_of_append happend
  have hrejection : rejection t.db ev (ev.received_at.getD clock) = none := by
    unfold accepts at haccepts
    rw [happend] at haccepts
    simpa using haccepts
  obtain ⟨db₁, happly, hsame, hinputs⟩ :=
    applyInner_records hscoped hlog (not_forked_of_append happend) hrejection
  have hends : (applyInner t.db ev (ev.received_at.getD clock) clock).Ends
      (Effects ev.relationship_id (Dispatches t.db ev) (ev.received_at.getD clock) t.db) _ :=
    applyInner_ends hscoped hlog
  rw [happly] at hends
  exact ⟨_, happly, hs.settle h hcap (Effects.scoped hends hscoped) hinputs.events hsame⟩

theorem Steady.rejected (hs : s.Steady) (h : s.commit ev now = some t)
    (haccepts : s.accepts ev (ev.received_at.getD clock) = false) :
    ∃ db code, applyEvent t.db ev clock = (db, .error (.projection code)) := by
  have happend := commit_append h
  unfold accepts at haccepts
  rw [happend] at haccepts
  have hsome : (rejection t.db ev (ev.received_at.getD clock)).isSome := by simpa using haccepts
  obtain ⟨code, hcode⟩ := Option.isSome_iff_exists.mp hsome
  obtain ⟨db, happly, -⟩ := applyInner_rejected (hs.scopes.append happend)
    (find_self_of_append happend) (not_forked_of_append happend) hcode
  exact ⟨db, code, happly⟩

/-! ### Sending -/

variable {dry : Nat} {stops : Bool} {receipt : Draw}

theorem step_send (h : s.step (.send ev dry clock stops) = some t) :
    ∃ u, s.commit (s.numbered ev) clock = some u ∧
      t = if stops then u else u.projectSent (s.numbered ev) clock := by
  unfold step at h
  dsimp only at h
  split at h
  · obtain ⟨u, hu, rfl⟩ := Option.map_eq_some_iff.mp h
    exact ⟨u, persistOutgoing_commit hu, rfl⟩
  · exact absurd h (Option.some_ne_none t).symm

theorem Steady.send (hs : s.Steady) (h : s.step (.send ev dry clock stops) = some t)
    (hok : s.Projected (.send ev dry clock stops)) : t.Steady := by
  obtain ⟨u, hu, rfl⟩ := step_send h
  obtain ⟨rfl, haccepts⟩ := hok
  have hcap : (s.numbered ev).sender_seq - s.lastSeq ev.relationship_id ev.sender ≤ MAX_SEQ_GAP := by
    rw [hs.last_seq]
    show s.db.maxSeq ev.relationship_id ev.sender + 1 - _ ≤ 100000
    omega
  obtain ⟨db, happly, hsteady⟩ := hs.accepted hu hcap haccepts
  rw [if_neg Bool.false_ne_true]
  unfold projectSent
  rw [happly]
  exact hsteady

theorem Steady.projected_of_send (hs : s.Steady) (h : s.step (.send ev dry clock stops) = some t)
    (hexact : ∀ rid sender, t.db.SequenceExact rid sender) :
    s.Projected (.send ev dry clock stops) := by
  obtain ⟨u, hu, rfl⟩ := step_send h
  have hnot := hs.not_exact hu (Nat.succ_pos _) rfl (.refl u.db)
  cases stops with
  | true => exact absurd (hexact _ _) hnot
  | false =>
    refine ⟨rfl, Bool.of_not_eq_false fun hrejects => ?_⟩
    obtain ⟨db, code, happly⟩ := hs.rejected hu hrejects
    have heq : u.projectSent (s.numbered ev) clock = u := by
      unfold projectSent
      rw [happly]
    rw [if_neg Bool.false_ne_true, heq] at hexact
    exact hnot (hexact _ _)

/-! ### Receiving -/

theorem step_receive (h : s.step (.receive ev now receipt stops) = some t) :
    s.admitsObject ev now = true ∧ ∃ u v, s.commit ev now = some u ∧
      u.queueAcceptedReceipt ev now receipt = some v ∧
      t = if stops then v else v.projectReceived ev now := by
  unfold step at h
  dsimp only at h
  split at h
  · rename_i hadmits
    obtain ⟨u, hu, h⟩ := Option.bind_eq_some_iff.mp h
    obtain ⟨v, hv, rfl⟩ := Option.map_eq_some_iff.mp h
    exact ⟨hadmits, u, v, hu, hv, rfl⟩
  · exact absurd h (Option.some_ne_none t).symm

theorem admitsObject_iff : s.admitsObject ev now = true ↔
    (s.db.relationships.find ev.relationship_id).any (·.admits ev.sender now) = true ∧
      ev.received_at = some now ∧ 0 < ev.sender_seq ∧
      ev.sender_seq - s.lastSeq ev.relationship_id ev.sender ≤ MAX_SEQ_GAP := by
  simp only [admitsObject, Bool.and_eq_true, decide_eq_true_eq]

/-- A commit leaves the policies. -/
theorem commit_queuesReceipt (h : s.commit ev now = some t) (e : Event) :
    t.queuesReceipt e = s.queuesReceipt e := by
  obtain ⟨db, -, rfl⟩ := Option.map_eq_some_iff.mp h
  rfl

theorem Steady.receive (hs : s.Steady) (h : s.step (.receive ev now receipt stops) = some t)
    (hok : s.Projected (.receive ev now receipt stops)) : t.Steady := by
  obtain ⟨hadmits, u, v, hu, hv, rfl⟩ := step_receive h
  obtain ⟨rfl, hreceipt, haccepts⟩ := hok
  obtain ⟨-, htime, -, hcap⟩ := admitsObject_iff.mp hadmits
  unfold queueAcceptedReceipt at hv
  rw [commit_queuesReceipt hu, hreceipt, if_neg Bool.false_ne_true] at hv
  obtain rfl := Option.some.inj hv
  have haccepts' : s.accepts ev (ev.received_at.getD now) = true := by
    rw [htime]
    exact haccepts
  obtain ⟨db, happly, hsteady⟩ := hs.accepted hu hcap haccepts'
  rw [if_neg Bool.false_ne_true]
  unfold projectReceived
  rw [happly]
  exact hsteady

/-- The projection of a received event keeps the log, and records its number or
leaves the cursors and the gaps. -/
theorem projectReceived_sequence (hscoped : Scoped s.db) (hlog : s.db.events.find ev.event_id = some ev) :
    (s.projectReceived ev now).db.events = s.db.events ∧
      (SameSequence s.db (s.projectReceived ev now).db ∨ ∃ db₁, SameSequence s.db db₁ ∧
        (s.projectReceived ev now).db = updateSeqState db₁ ev (ev.received_at.getD now)) := by
  have hends : (applyEvent s.db ev now).Ends _ _ := applyInner_ends hscoped hlog
  have hseq : ∀ db', applyEvent s.db ev now = .done db' → SameSequence s.db db' ∨
      ∃ db₁, SameSequence s.db db₁ ∧ db' = updateSeqState db₁ ev (ev.received_at.getD now) :=
    fun db' => applyInner_sequence hscoped hlog
  unfold projectReceived
  generalize applyEvent s.db ev now = out at hends hseq ⊢
  match out, hends, hseq with
  | (db', .ok ()), heffects, hseq => exact ⟨heffects.sameInputs.events, hseq db' rfl⟩
  | (db', .error _), ⟨⟨code, rfl⟩, _⟩, _ => exact ⟨rfl, Or.inl ⟨rfl, rfl⟩⟩

/-- A receipt that was queued holds a number above its cursor. -/
theorem Steady.not_exact_of_receipt {u v : Ledger} (hs : s.Steady) (hu : s.commit ev now = some u)
    (hqueues : s.queuesReceipt ev = true) (hv : u.queueAcceptedReceipt ev now receipt = some v) :
    ∃ own, ¬ (if stops then v else v.projectReceived ev now).db.SequenceExact ev.relationship_id own := by
  unfold queueAcceptedReceipt at hv
  rw [commit_queuesReceipt hu, hqueues, if_pos rfl] at hv
  obtain ⟨own, -, hv⟩ := Option.bind_eq_some_iff.mp hv
  have hcommit := persistOutgoing_commit hv
  have happend := commit_append hcommit
  refine ⟨own, fun hexact => ?_⟩
  have hlog : v.db.events.find ev.event_id = some ev :=
    find_of_append happend (find_self_of_append (commit_append hu))
  have hmax : v.db.maxSeq ev.relationship_id own = u.db.maxSeq ev.relationship_id own + 1 := by
    rw [maxSeq_of_append happend, if_pos ⟨rfl, rfl⟩]
    show max (u.db.maxSeq ev.relationship_id own) (u.db.maxSeq ev.relationship_id own + 1) = _
    omega
  have hcursor : v.db.cursor ev.relationship_id own ≤ u.db.maxSeq ev.relationship_id own := by
    rw [((commit_sameSequence hu).trans (commit_sameSequence hcommit)).cursor, (hs.exact _ _).1,
      maxSeq_of_append (commit_append hu)]
    split_ifs
    · exact Nat.le_max_left _ _
    · exact Nat.le_refl _
  have hevents : (if stops then v else v.projectReceived ev now).db.events = v.db.events ∧
      (if stops then v else v.projectReceived ev now).db.cursor ev.relationship_id own ≤
        u.db.maxSeq ev.relationship_id own := by
    cases stops with
    | true => exact ⟨rfl, hcursor⟩
    | false =>
      have hscoped := (hs.scopes.append (commit_append hu)).append happend
      obtain ⟨hevents, hsame | ⟨db₁, hsame, heq⟩⟩ := projectReceived_sequence hscoped hlog
      · refine ⟨hevents, ?_⟩
        rw [if_neg Bool.false_ne_true, hsame.cursor]
        exact hcursor
      · refine ⟨hevents, ?_⟩
        rw [if_neg Bool.false_ne_true, heq, updateSeqState_cursor]
        -- The number that is recorded was in the log before the receipt.
        have hle : own = ev.sender → ev.sender_seq ≤ u.db.maxSeq ev.relationship_id own := by
          rintro rfl
          rw [maxSeq_of_append (commit_append hu), if_pos ⟨rfl, rfl⟩]
          exact Nat.le_max_right _ _
        split_ifs with hkey
        · rw [hsame.cursor]
          exact Nat.max_le.mpr ⟨hcursor, hle hkey.2⟩
        · rw [hsame.cursor]
          exact hcursor
  have hfinal : (if stops then v else v.projectReceived ev now).db.maxSeq ev.relationship_id own =
      v.db.maxSeq ev.relationship_id own := by
    unfold Database.maxSeq
    rw [hevents.1]
  have := hexact.1
  rw [hfinal, hmax] at this
  omega

theorem Steady.projected_of_receive (hs : s.Steady)
    (h : s.step (.receive ev now receipt stops) = some t)
    (hexact : ∀ rid sender, t.db.SequenceExact rid sender) :
    s.Projected (.receive ev now receipt stops) := by
  obtain ⟨hadmits, u, v, hu, hv, rfl⟩ := step_receive h
  obtain ⟨-, htime, hpos, -⟩ := admitsObject_iff.mp hadmits
  cases hqueues : s.queuesReceipt ev with
  | true =>
    obtain ⟨own, hnot⟩ := hs.not_exact_of_receipt hu hqueues hv
    exact absurd (hexact _ own) hnot
  | false =>
    unfold queueAcceptedReceipt at hv
    rw [commit_queuesReceipt hu, hqueues, if_neg Bool.false_ne_true] at hv
    obtain rfl := Option.some.inj hv
    cases stops with
    | true => exact absurd (hexact _ _) (hs.not_exact hu hpos rfl (.refl u.db))
    | false =>
      refine ⟨rfl, hqueues, Bool.of_not_eq_false fun hrejects => ?_⟩
      have hrejects' : s.accepts ev (ev.received_at.getD now) = false := by
        rw [htime]
        exact hrejects
      obtain ⟨db, code, happly⟩ := hs.rejected hu hrejects'
      have heq : u.projectReceived ev now =
          u.settle ev (quarantineEvent u.db ev (.projection code) now) := by
        unfold projectReceived
        rw [happly]
      rw [if_neg Bool.false_ne_true, heq] at hexact
      have hnot : ¬ (quarantineEvent u.db ev (.projection code) now).SequenceExact
          ev.relationship_id ev.sender := hs.not_exact hu hpos rfl ⟨rfl, rfl⟩
      exact hnot (hexact _ _)

/-! ### The other operations -/

/-- A quiet step keeps the log, the cursors and the gaps. -/
theorem quiet_step {n n' : Node} {a : Act} (hquiet : quiet a = true) (h : n.step a = some n') :
    n'.db.events = n.db.events ∧ SameSequence n.db n'.db := by
  cases a with
  | pair rid peer =>
    obtain ⟨_, _, rfl⟩ := Option.map_eq_some_iff.mp h
    exact ⟨rfl, rfl, rfl⟩
  | approve approval =>
    obtain ⟨_, _, rfl⟩ := Option.map_eq_some_iff.mp h
    exact ⟨rfl, rfl, rfl⟩
  | expire rid now =>
    rw [← Option.some.inj h]
    exact ⟨rfl, rfl, rfl⟩
  | pin event_id now =>
    simp only [Node.step, Option.bind_eq_some_iff] at h
    obtain ⟨ev, -, new, -, rel, -, h⟩ := h
    obtain ⟨rel', -, rfl⟩ := Option.map_eq_some_iff.mp h
    exact ⟨rfl, rfl, rfl⟩
  | rotate new =>
    rw [← Option.some.inj h]
    exact ⟨rfl, rfl, rfl⟩
  | send ev => exact Bool.noConfusion hquiet
  | receive ev now => exact Bool.noConfusion hquiet
  | project event_id clock => exact Bool.noConfusion hquiet
  | rebuild rid clock => exact Bool.noConfusion hquiet

theorem Steady.other {a : Act} (hs : s.Steady) (h : s.step (.other a) = some t) : t.Steady := by
  simp only [step] at h
  split_ifs at h with hquiet
  obtain ⟨n, hn, rfl⟩ := Option.map_eq_some_iff.mp h
  obtain ⟨hevents, hsame⟩ := quiet_step hquiet hn
  refine ⟨step_scoped hs.scopes hn, fun rid sender => ?_, hs.queue, fun rid sender => ?_⟩
  · show s.lastSeq rid sender = n.db.maxSeq rid sender
    unfold Database.maxSeq
    rw [hevents]
    exact hs.last_seq rid sender
  · rw [sequenceExact_iff, hsame.cursor, hsame.gaps]
    unfold Database.stored
    rw [hevents]
    exact hs.tracks rid sender

/-- Nothing waits in the queue of a steady ledger. -/
theorem Steady.redeliver {event_id : EventId} (hs : s.Steady)
    (h : s.step (.redeliver event_id now) = some t) : t.Steady := by
  have hnone : s.projection_queue.find event_id = none := by
    rw [Table.find_eq_none, hs.queue]
    exact fun r hr => absurd hr List.not_mem_nil
  simp only [step] at h
  obtain ⟨ev, -, h⟩ := Option.bind_eq_some_iff.mp h
  rw [hnone] at h
  split at h
  · exact Option.some.inj h ▸ hs
  · exact absurd h (Option.some_ne_none t).symm

theorem Steady.step {op : Op} (hs : s.Steady) (hok : s.Projected op) (h : s.step op = some t) :
    t.Steady := by
  cases op with
  | other a => exact hs.other h
  | policy rid enabled =>
    rw [← Option.some.inj h]
    exact { hs with }
  | send ev dry clock stops => exact hs.send h hok
  | receive ev now receipt stops => exact hs.receive h hok
  | redeliver event_id now => exact hs.redeliver h

theorem Steady.projected {op : Op} (hs : s.Steady) (h : s.step op = some t)
    (hexact : ∀ rid sender, t.db.SequenceExact rid sender) : s.Projected op := by
  cases op with
  | other a => trivial
  | policy rid enabled => trivial
  | send ev dry clock stops => exact hs.projected_of_send h hexact
  | receive ev now receipt stops => exact hs.projected_of_receive h hexact
  | redeliver event_id now => trivial

theorem Steady.start (h : ledger.init s) : s.Steady := by
  obtain ⟨⟨hdb, -⟩, hlast, hqueue⟩ := h
  refine ⟨hdb ▸ .initial, fun rid sender => ?_, by rw [hqueue]; rfl, fun rid sender => ?_⟩
  · unfold lastSeq
    rw [hlast, hdb]
    rfl
  · rw [sequenceExact_iff, hdb]
    have hstored : Database.stored {} rid sender = ∅ :=
      Set.eq_empty_iff_forall_notMem.mpr fun n ⟨e, he, _⟩ => absurd he List.not_mem_nil
    have hgaps : Database.gaps {} rid sender = ∅ :=
      Set.eq_empty_iff_forall_notMem.mpr fun n hn => Bool.noConfusion hn
    rw [hstored, hgaps]
    exact .empty

end Ledger

/-! ## Runs -/

/-- All along a run of sends and receives the cursors and the gaps are exact for
every relationship and sender, exactly when every operation projects the events
that it adds to the log: no accepted receipt is queued, no event is rejected,
and no process stops between a commit and its projection. -/
theorem sequence_exact_iff {s t : Ledger} {ops : List Op} (hinit : ledger.init s)
    (hrun : ledger.run s ops = some t) :
    (∀ k u, ledger.run s (ops.take k) = some u → ∀ rid sender, u.db.SequenceExact rid sender) ↔
      ledger.okRun Ledger.Projected s ops :=
  Machine.always_iff_okRun (I := Ledger.Steady) (fun _ hs => hs.exact)
    (fun _ _ _ hs hok h => hs.step hok h) (fun _ _ _ hs h hexact => hs.projected h hexact)
    (.start hinit) hrun

/-- A node with the identity 1. -/
def newLedger : Ledger := { db := {}, identities := [1] }

/-- A message of the sender in its own thread. -/
def numberedMessage (event_id : EventId) (sender : IdentityId) (sender_seq : Nat) : Event :=
  ⟨event_id, 1, 1, some event_id, sender, sender_seq, 10, 1, .messageCreated "hello" .plain none, none,
    some 11⟩

/-- Messages of the peer in the wrong order and one of the node, without
receipts. -/
def outOfOrderRun : List Op :=
  [.other (.pair 1 2), .policy 1 false, .receive (numberedMessage 13 2 3) 11 ⟨0, 0, 0, 0⟩ false,
    .receive (numberedMessage 11 2 1) 11 ⟨0, 0, 0, 0⟩ false, .send (numberedMessage 21 1 0) 10 11 false]

/-- The theorem on a run where message 2 is missing. -/
theorem sequence_exact_out_of_order : ∃ t, ledger.run newLedger outOfOrderRun = some t ∧
    (∀ k u, ledger.run newLedger (outOfOrderRun.take k) = some u →
      ∀ rid sender, u.db.SequenceExact rid sender) ∧
    ledger.okRun Ledger.Projected newLedger outOfOrderRun := by
  have hrun : (ledger.run newLedger outOfOrderRun).isSome = true := by decide +kernel
  have hok : ledger.okRun Ledger.Projected newLedger outOfOrderRun := by decide +kernel
  obtain ⟨t, ht⟩ := Option.isSome_iff_exists.mp hrun
  have hinit : ledger.init newLedger := ⟨⟨rfl, List.cons_ne_nil _ _⟩, rfl, rfl⟩
  exact ⟨t, ht, (sequence_exact_iff hinit ht).mpr hok, hok⟩

/-- A message of the peer, whose receipt takes the number 1, and an answer. -/
def answeredRun : List Op :=
  [.other (.pair 1 2), .receive (numberedMessage 11 2 1) 11 ⟨31, 32, 1, 11⟩ false,
    .send (numberedMessage 21 1 0) 12 12 false]

/-- The receipt is stored and reported missing. -/
theorem receipt_reported_missing : ∃ s t ops, ledger.init s ∧ ledger.run s ops = some t ∧
    1 ∈ t.db.stored 1 1 ∧ 1 ∈ t.db.gaps 1 1 ∧ ¬ t.db.SequenceExact 1 1 := by
  have hrun : (ledger.run newLedger answeredRun).map (fun t =>
      (t.db.events.rows.any (fun e => e.relationship_id = 1 ∧ e.sender = 1 ∧ e.sender_seq = 1),
        (t.db.sequence_gaps.find (1, 1, 1)).isSome)) = some (true, true) := by decide +kernel
  obtain ⟨t, ht, heq⟩ := Option.map_eq_some_iff.mp hrun
  obtain ⟨hany, hgap⟩ := Prod.mk.inj heq
  have hstored : 1 ∈ t.db.stored 1 1 := by
    obtain ⟨e, he, hkey⟩ := List.any_eq_true.mp hany
    exact ⟨e, he, by simpa using hkey⟩
  exact ⟨newLedger, t, answeredRun, ⟨⟨rfl, List.cons_ne_nil _ _⟩, rfl, rfl⟩, ht, hstored, hgap,
    fun hexact => ((hexact.2 1).mp hgap).2.2 hstored⟩

end MuseAgentSocial.Store
