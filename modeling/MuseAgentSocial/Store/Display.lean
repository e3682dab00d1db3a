import Mathlib.Data.String.Basic
import MuseAgentSocial.Lib.Paging
import MuseAgentSocial.Store.Messages
import MuseAgentSocial.Store.Rebuild

/-!
# Conversations

`get_conversation`, its cursor and its limit, and the order in which it lists messages.

* `Message.position` is the triple that the query orders by.
* `positions_nodup`: in a reachable store no two messages of a conversation share it.
* `pages_exact`: the pages partition the conversation.
* `display_order_iff`: the list is the same wherever the same messages are projected, and
  it keeps the numbers of each sender in order exactly when no clock steps back.
-/

namespace MuseAgentSocial.Store

open Model Crypto Policy

/-! ## Views -/

/-- One emoji of a message. -/
structure ReactionView where
  emoji : String
  count : Nat
  senders : List IdentityId
  deriving DecidableEq, Repr

/-- One receipt of a message. -/
structure ReceiptView where
  kind : ReceiptKind
  sender : IdentityId
  time : Nat
  deriving DecidableEq, Repr

/-- The tombstone of a retracted message. -/
structure RetractionView where
  event_id : Option EventId
  retracted_at : Option Nat
  reason : Option String
  deriving DecidableEq, Repr

/-- What `_message_view` returns. -/
structure MessageView where
  event_id : EventId
  conversation_id : ConversationId
  thread_id : Option ThreadId
  sender : IdentityId
  sender_seq : Nat
  created_at : Nat
  body : Option String
  format : Format
  reply_to : Option EventId
  reply_state : ReplyState
  edited : Bool
  revision_count : Nat
  retracted : Bool
  retraction : Option RetractionView
  reactions : List ReactionView
  receipts : List ReceiptView
  deriving DecidableEq, Repr

/-- `kind` as the query orders it. -/
def ReceiptKind.text : ReceiptKind → String
  | .accepted => "accepted"
  | .seen => "seen"

/-- The active reactions on a message, by emoji and then by sender. -/
def reactionRows (db : Database) (event_id : EventId) : List Reaction :=
  Paging.ascending (fun r => toLex (r.emoji, r.sender))
    (db.reactions.rows.filter (fun r => r.target_event_id = event_id ∧ r.active = true))

/-- The reactions of the view, one entry for each emoji. -/
def reactionViews (rows : List Reaction) : List ReactionView :=
  Paging.ascending ReactionView.emoji ((rows.map (·.emoji)).dedup.map fun emoji =>
    { emoji
      count := rows.countP (·.emoji = emoji)
      senders := (rows.filter (·.emoji = emoji)).map (·.sender) })

/-- The receipts of the view. -/
def receiptViews (db : Database) (event_id : EventId) : List ReceiptView :=
  (Paging.ascending (fun r => toLex (r.kind.text, r.sender))
    (db.receipts.rows.filter (·.target_event_id = event_id))).map fun r => ⟨r.kind, r.sender, r.time⟩

/-- `_message_view`. -/
def messageView (db : Database) (msg : Message) : MessageView where
  event_id := msg.event_id
  conversation_id := msg.conversation_id
  thread_id := msg.thread_id
  sender := msg.sender
  sender_seq := msg.sender_seq
  created_at := msg.created_at
  body := if msg.retracted then none else some msg.current_body
  format := msg.format
  reply_to := msg.reply_to
  reply_state := msg.reply_state
  edited := msg.edited
  revision_count := db.message_revisions.rows.countP (·.event_id = msg.event_id)
  retracted := msg.retracted
  retraction :=
    if msg.retracted then some ⟨msg.retraction_event_id, msg.retracted_at, msg.retraction_reason⟩ else none
  reactions := reactionViews (reactionRows db msg.event_id)
  receipts := receiptViews db msg.event_id

/-! ## The query -/

/-- The columns that the query orders by. -/
abbrev Position := Nat ×ₗ (IdentityId ×ₗ Nat)

/-- `(created_at, sender, sender_seq)` of a message. -/
def Message.position (m : Message) : Position := toLex (m.created_at, toLex (m.sender, m.sender_seq))

/-- `(created_at, sender, sender_seq)` of a view. -/
def MessageView.position (v : MessageView) : Position := toLex (v.created_at, toLex (v.sender, v.sender_seq))

/-- The codes that `get_conversation` raises. -/
inductive ViewError where
  | unknown_cursor
  | invalid_limit
  deriving DecidableEq, Repr

/-- The messages of a conversation. -/
def conversationMessages (db : Database) (rid : RelationshipId) (cid : ConversationId) : List Message :=
  db.messages.rows.filter (fun m => m.relationship_id = rid ∧ m.conversation_id = cid)

/-- The position of the message that a cursor names. -/
def cursorPosition (db : Database) (rid : RelationshipId) (cid : ConversationId) (before : EventId) :
    Option Position :=
  ((db.messages.find before).filter (fun m => m.relationship_id = rid ∧ m.conversation_id = cid)).map
    Message.position

/-- The rows that `get_conversation` reads. -/
def conversationRows (db : Database) (rid : RelationshipId) (cid : ConversationId) (limit : Option Int)
    (before : Option EventId) : Except ViewError (List Message) :=
  match before, before.bind (cursorPosition db rid cid) with
  | some _, none => .error .unknown_cursor
  | _, bound =>
    match limit with
    | none => .ok (Paging.page Message.position none bound (conversationMessages db rid cid))
    | some n =>
      if n < 0 then .error .invalid_limit
      else .ok (Paging.page Message.position (some n.toNat) bound (conversationMessages db rid cid))

/-- `get_conversation`. -/
def getConversation (db : Database) (rid : RelationshipId) (cid : ConversationId) (limit : Option Int)
    (before : Option EventId) : Except ViewError (List MessageView) :=
  (conversationRows db rid cid limit before).map (List.map (messageView db))

section query

variable {db : Database} {s s' : Node} {rid : RelationshipId} {cid : ConversationId}

theorem mem_conversationMessages {m : Message} :
    m ∈ conversationMessages db rid cid ↔
      m ∈ db.messages.rows ∧ m.relationship_id = rid ∧ m.conversation_id = cid := by
  simp [conversationMessages, List.mem_filter]

theorem message_of_number (h : machine.Reachable s) {m m' : Message} (hm : m ∈ conversationMessages s.db rid cid)
    (hm' : m' ∈ conversationMessages s.db rid cid) (hsender : m.sender = m'.sender)
    (hseq : m.sender_seq = m'.sender_seq) : m = m' := by
  obtain ⟨hrow, hrel, -⟩ := mem_conversationMessages.mp hm
  obtain ⟨hrow', hrel', -⟩ := mem_conversationMessages.mp hm'
  have hrepresented := (messages_represented h).1
  obtain ⟨e, he, hcolumns, -⟩ := (hrepresented m hrow).mirrors
  obtain ⟨e', he', hcolumns', -⟩ := (hrepresented m' hrow').mirrors
  simp only [Prod.mk.injEq] at hcolumns hcolumns'
  have hlog := Table.find_eq_some.mp he
  have hlog' := Table.find_eq_some.mp he'
  refine Table.eq_of_key hrow hrow' ?_
  -- Two events with one number are forked.
  by_contra hne
  have hforked := (reachable_constrained h).unforked e hlog.1
  rw [forked, List.any_eq_false] at hforked
  refine hforked e' hlog'.1 (decide_eq_true ⟨?_, ?_, ?_, ?_⟩)
  · rw [← hcolumns.1, ← hcolumns'.1, hrel, hrel']
  · rw [← hcolumns.2.2.2.1, ← hcolumns'.2.2.2.1, hsender]
  · rw [← hcolumns.2.2.2.2.1, ← hcolumns'.2.2.2.2.1, hseq]
  · rw [hlog.2, hlog'.2]
    exact fun heq => hne heq.symm

theorem Message.position_eq {m m' : Message} (h : m.position = m'.position) :
    m.created_at = m'.created_at ∧ m.sender = m'.sender ∧ m.sender_seq = m'.sender_seq := by
  simpa [Message.position] using h

theorem positions_nodup (h : machine.Reachable s) (rid : RelationshipId) (cid : ConversationId) :
    ((conversationMessages s.db rid cid).map Message.position).Nodup := by
  have hrows : (conversationMessages s.db rid cid).Nodup := (List.Nodup.of_map _ s.db.messages.nodup).filter _
  refine hrows.map_on (fun m hm m' hm' heq => ?_)
  obtain ⟨-, hsender, hseq⟩ := Message.position_eq heq
  exact message_of_number h hm hm' hsender hseq

theorem conversationRows_all (db : Database) (rid : RelationshipId) (cid : ConversationId) :
    conversationRows db rid cid none none = .ok (Paging.ascending Message.position (conversationMessages db rid cid)) := by
  have hall : Paging.below Message.position none (conversationMessages db rid cid) = conversationMessages db rid cid :=
    List.filter_eq_self.mpr (fun _ _ => rfl)
  show Except.ok (Paging.page Message.position none none (conversationMessages db rid cid)) = _
  rw [Paging.page, hall]

theorem getConversation_all (db : Database) (rid : RelationshipId) (cid : ConversationId) :
    getConversation db rid cid none none =
      .ok ((Paging.ascending Message.position (conversationMessages db rid cid)).map (messageView db)) := by
  rw [getConversation, conversationRows_all]
  rfl

theorem conversationRows_page {limit : Int} (hlimit : 0 ≤ limit) {before : Option EventId} {bound : Option Position}
    (hbefore : before = none ∧ bound = none ∨
      ∃ c b, before = some c ∧ bound = some b ∧ cursorPosition db rid cid c = some b) :
    conversationRows db rid cid (some limit) before =
      .ok (Paging.page Message.position (some limit.toNat) bound (conversationMessages db rid cid)) := by
  obtain ⟨rfl, rfl⟩ | ⟨c, b, rfl, rfl, hc⟩ := hbefore
  · simp [conversationRows, not_lt.mpr hlimit]
  · simp [conversationRows, hc, not_lt.mpr hlimit]

theorem cursorPosition_self {m : Message} (hm : m ∈ conversationMessages db rid cid) :
    cursorPosition db rid cid m.event_id = some m.position := by
  obtain ⟨hrow, hrel, hconversation⟩ := mem_conversationMessages.mp hm
  have hfind : db.messages.find m.event_id = some m := Table.mem_iff_find.mp hrow
  simp [cursorPosition, hfind, Option.filter_some, hrel, hconversation]

/-- The pages, followed until one is empty, are the whole conversation, which lists every
message once and in order. -/
theorem pages_exact (h : machine.Reachable s) (rid : RelationshipId) (cid : ConversationId) {limit : Int}
    (hlimit : 1 ≤ limit) {fuel : Nat} (hfuel : (conversationMessages s.db rid cid).length < fuel) :
    ∃ pages whole, getConversation s.db rid cid none none = .ok whole ∧
      Paging.follow (fun before => (getConversation s.db rid cid (some limit) before).toOption)
        MessageView.event_id fuel none = some pages ∧
      pages.reverse.flatten = whole ∧ (whole.map (·.event_id)).Nodup ∧
      (∀ i, i ∈ whole.map (·.event_id) ↔ ∃ m ∈ s.db.messages.rows,
        m.event_id = i ∧ m.relationship_id = rid ∧ m.conversation_id = cid) ∧
      whole.Pairwise (fun v w => v.position < w.position) := by
  have hnodup := positions_nodup h rid cid
  have hall : Paging.below Message.position none (conversationMessages s.db rid cid) =
      conversationMessages s.db rid cid := List.filter_eq_self.mpr (fun _ _ => rfl)
  have hpage := @conversationRows_page s.db rid cid limit (by omega)
  obtain ⟨pages, hpages, hflat⟩ := @Paging.follow_exact _ _ _ _ Message.position (conversationMessages s.db rid cid)
    hnodup (fun before => (conversationRows s.db rid cid (some limit) before).toOption) Message.event_id
    (cursorPosition s.db rid cid) limit.toNat (by omega)
    (by rw [hpage (Or.inl ⟨rfl, rfl⟩)]; rfl)
    (fun c b hc => by rw [hpage (Or.inr ⟨c, b, rfl, rfl, hc⟩)]; rfl)
    (fun m hm => cursorPosition_self hm) fuel none none (Or.inl ⟨rfl, rfl⟩) (by rw [hall]; exact hfuel)
  rw [hall] at hflat
  have hids : ∀ rows : List Message, (rows.map (messageView s.db)).map (·.event_id) = rows.map (·.event_id) := by
    intro rows
    rw [List.map_map]
    rfl
  have hperm := Paging.perm_ascending Message.position (conversationMessages s.db rid cid)
  refine ⟨pages.map (List.map (messageView s.db)), _, getConversation_all s.db rid cid, ?_, ?_, ?_, fun i => ?_, ?_⟩
  · have hview : (fun before => (getConversation s.db rid cid (some limit) before).toOption) =
        fun before => ((conversationRows s.db rid cid (some limit) before).toOption).map
          (List.map (messageView s.db)) := by
      funext before
      unfold getConversation
      cases conversationRows s.db rid cid (some limit) before with
      | error _ => rfl
      | ok _ => rfl
    have hmap := @Paging.follow_map _ _ _ (fun before => (conversationRows s.db rid cid (some limit) before).toOption)
      Message.event_id (messageView s.db) MessageView.event_id (fun _ => rfl) fuel none
    rw [hview, hmap, hpages, Option.map_some]
  · rw [← List.map_reverse, ← List.map_flatten, hflat]
  · rw [hids, (hperm.map _).nodup_iff]
    exact s.db.messages.nodup.sublist (List.filter_sublist.map _)
  · rw [hids, (hperm.map _).mem_iff, List.mem_map]
    constructor
    · rintro ⟨m, hm, rfl⟩
      obtain ⟨hrow, hrest⟩ := mem_conversationMessages.mp hm
      exact ⟨m, hrow, rfl, hrest⟩
    · rintro ⟨m, hrow, rfl, hrest⟩
      exact ⟨m, mem_conversationMessages.mpr ⟨hrow, hrest⟩, rfl⟩
  · exact List.pairwise_map.mpr (Paging.strict_ascending hnodup)

/-! ## The display order -/

/-- What the order sees of a message. -/
def Message.header (m : Message) : EventId × Position := (m.event_id, m.position)

/-- The stores have the same messages in the conversation. -/
def SameConversation (db db' : Database) (rid : RelationshipId) (cid : ConversationId) : Prop :=
  ∀ x, x ∈ (conversationMessages db rid cid).map Message.header ↔ x ∈ (conversationMessages db' rid cid).map Message.header

theorem headers_nodup (db : Database) (rid : RelationshipId) (cid : ConversationId) :
    ((conversationMessages db rid cid).map Message.header).Nodup := by
  refine List.Nodup.of_map Prod.fst ?_
  rw [List.map_map]
  exact db.messages.nodup.sublist (List.filter_sublist.map _)

theorem listed_same (h : machine.Reachable s) (hsame : SameConversation s.db s'.db rid cid) :
    (Paging.ascending Message.position (conversationMessages s'.db rid cid)).map (·.event_id) =
      (Paging.ascending Message.position (conversationMessages s.db rid cid)).map (·.event_id) := by
  have hheader : ∀ db : Database, (Paging.ascending Message.position (conversationMessages db rid cid)).map
      (·.event_id) = (Paging.ascending Prod.snd ((conversationMessages db rid cid).map Message.header)).map Prod.fst := by
    intro db
    have hmap := @Paging.map_ascending _ _ _ Message.position _ Message.header Prod.snd (fun _ => rfl)
      (conversationMessages db rid cid)
    rw [← hmap, List.map_map]
    rfl
  have hperm : ((conversationMessages s.db rid cid).map Message.header).Perm
      ((conversationMessages s'.db rid cid).map Message.header) :=
    (List.perm_ext_iff_of_nodup (headers_nodup _ _ _) (headers_nodup _ _ _)).mpr hsame
  have hnodup : (((conversationMessages s.db rid cid).map Message.header).map Prod.snd).Nodup := by
    rw [List.map_map]
    exact positions_nodup h rid cid
  rw [hheader, hheader, Paging.ascending_congr hnodup hperm]

/-- The clock of each sender does not step back between its messages of the conversation. -/
def ClocksForward (db : Database) (rid : RelationshipId) (cid : ConversationId) : Prop :=
  ∀ m ∈ conversationMessages db rid cid, ∀ m' ∈ conversationMessages db rid cid,
    m.sender = m'.sender → m.sender_seq < m'.sender_seq → m.created_at ≤ m'.created_at

theorem Message.position_lt {m m' : Message} :
    m.position < m'.position ↔ m.created_at < m'.created_at ∨
      m.created_at = m'.created_at ∧ (m.sender < m'.sender ∨ m.sender = m'.sender ∧ m.sender_seq < m'.sender_seq) := by
  simp [Message.position, Prod.Lex.toLex_lt_toLex]

/-- Messages of one sender are listed in the order of their numbers exactly when the clock
of the sender has not stepped back. -/
theorem numbers_ascending_iff (h : machine.Reachable s) (rid : RelationshipId) (cid : ConversationId) :
    (Paging.ascending Message.position (conversationMessages s.db rid cid)).Pairwise
      (fun m m' => m.sender = m'.sender → m.sender_seq < m'.sender_seq) ↔ ClocksForward s.db rid cid := by
  have hmem : ∀ {m}, m ∈ Paging.ascending Message.position (conversationMessages s.db rid cid) ↔
      m ∈ conversationMessages s.db rid cid := (Paging.perm_ascending _ _).mem_iff
  rw [Paging.pairwise_iff_of_strict (Paging.strict_ascending (positions_nodup h rid cid))]
  constructor
  · intro hnumbers m hm m' hm' hsender hseq
    by_contra hlt
    -- The later message has the smaller time, so it is listed first.
    have hposition : m'.position < m.position := Message.position_lt.mpr (Or.inl (not_le.mp hlt))
    have hless := hnumbers m' (hmem.mpr hm') m (hmem.mpr hm) hposition hsender.symm
    omega
  · intro hclocks m hm m' hm' hlt hsender
    rcases Message.position_lt.mp hlt with htime | ⟨-, hother | ⟨-, hseq⟩⟩
    · by_contra hge
      rcases Nat.lt_or_eq_of_le (not_lt.mp hge) with hseq | hseq
      · have hle := hclocks m' (hmem.mp hm') m (hmem.mp hm) hsender.symm hseq
        omega
      · have heq := message_of_number h (hmem.mp hm') (hmem.mp hm) hsender.symm hseq
        rw [heq] at htime
        exact lt_irrefl _ htime
    · rw [hsender] at hother
      exact absurd hother (lt_irrefl _)
    · exact hseq

/-- Wherever the same messages are projected the same ids are listed, and the numbers of
each sender ascend, exactly when no clock has stepped back. -/
theorem display_order_iff (h : machine.Reachable s) (rid : RelationshipId) (cid : ConversationId) :
    (∃ views, getConversation s.db rid cid none none = .ok views ∧
      (∀ s' views', machine.Reachable s' → SameConversation s.db s'.db rid cid →
        getConversation s'.db rid cid none none = .ok views' → views'.map (·.event_id) = views.map (·.event_id)) ∧
      views.Pairwise (fun v w => v.sender = w.sender → v.sender_seq < w.sender_seq)) ↔
    ClocksForward s.db rid cid := by
  rw [← numbers_ascending_iff h]
  constructor
  · rintro ⟨views, hviews, -, hnumbers⟩
    rw [getConversation_all] at hviews
    rw [← Except.ok.inj hviews, List.pairwise_map] at hnumbers
    exact hnumbers
  · intro hnumbers
    refine ⟨_, getConversation_all s.db rid cid, fun s' views' _ hsame hviews' => ?_, ?_⟩
    · rw [getConversation_all] at hviews'
      rw [← Except.ok.inj hviews', List.map_map, List.map_map]
      exact listed_same h hsame
    · rw [List.pairwise_map]
      exact hnumbers

end query

/-! ## Two messages with one clock -/

/-- A message of the peer in the conversation, with its number and its time. -/
def peerMessage (event_id : EventId) (sender_seq created_at : Nat) : Event :=
  ⟨event_id, 1, 1, none, 2, sender_seq, created_at, 1, .messageCreated "a" .plain none, none, some 30⟩

/-- Two messages that arrive in the order of their numbers. -/
def peerMessages (first second : Nat) : List Act :=
  .pair 1 2 :: [peerMessage 5 1 first, peerMessage 6 2 second].flatMap
    (fun ev => [.receive ev 30, .project ev.event_id 30])

/-- The pages of two messages with the same time, one message a page. -/
theorem pages_exact_tie : ∃ s pages whole, machine.run ⟨{}, [1]⟩ (peerMessages 10 10) = some s ∧
    getConversation s.db 1 1 none none = .ok whole ∧ whole.map (·.event_id) = [5, 6] ∧
    Paging.follow (fun before => (getConversation s.db 1 1 (some 1) before).toOption) MessageView.event_id 3 none =
      some pages ∧ pages.reverse.flatten = whole := by
  have hrun : (machine.run ⟨{}, [1]⟩ (peerMessages 10 10)).map (fun s =>
      ((conversationMessages s.db 1 1).length,
        (getConversation s.db 1 1 none none).toOption.map (List.map (·.event_id)))) = some (2, some [5, 6]) := by
    decide +kernel
  obtain ⟨s, hs, heq⟩ := Option.map_eq_some_iff.mp hrun
  obtain ⟨hlength, hids⟩ := Prod.mk.inj heq
  obtain ⟨pages, whole, hwhole, hpages, hflat, -⟩ :=
    @pages_exact s (Machine.reachable_of_run ⟨rfl, List.cons_ne_nil _ _⟩ hs) 1 1 1 (by decide) 3 (by omega)
  rw [hwhole] at hids
  exact ⟨s, pages, whole, hs, hwhole, Option.some.inj hids, hpages, hflat⟩

/-- The theorem on two messages of a clock that goes forward. -/
theorem display_order_forward : ∃ s, machine.run ⟨{}, [1]⟩ (peerMessages 10 20) = some s ∧
    ((∃ views, getConversation s.db 1 1 none none = .ok views ∧
      (∀ s' views', machine.Reachable s' → SameConversation s.db s'.db 1 1 →
        getConversation s'.db 1 1 none none = .ok views' → views'.map (·.event_id) = views.map (·.event_id)) ∧
      views.Pairwise (fun v w => v.sender = w.sender → v.sender_seq < w.sender_seq)) ↔
    ClocksForward s.db 1 1) ∧ ClocksForward s.db 1 1 := by
  have hrun : (machine.run ⟨{}, [1]⟩ (peerMessages 10 20)).map (fun s =>
      (conversationMessages s.db 1 1).all (fun m => (conversationMessages s.db 1 1).all (fun m' =>
        decide (m.sender = m'.sender → m.sender_seq < m'.sender_seq → m.created_at ≤ m'.created_at)))) = some true := by
    decide +kernel
  obtain ⟨s, hs, hall⟩ := Option.map_eq_some_iff.mp hrun
  refine ⟨s, hs, display_order_iff (Machine.reachable_of_run ⟨rfl, List.cons_ne_nil _ _⟩ hs) 1 1, ?_⟩
  intro m hm m' hm'
  exact of_decide_eq_true (List.all_eq_true.mp (List.all_eq_true.mp hall m hm) m' hm')

/-- The peer sets its clock back between two messages, and the second one is listed
first. -/
theorem clock_step_back_reorders : ∃ s views, machine.Reachable s ∧ getConversation s.db 1 1 none none = .ok views ∧
    ¬ views.Pairwise (fun v w => v.sender = w.sender → v.sender_seq < w.sender_seq) := by
  have hrun : (machine.run ⟨{}, [1]⟩ (peerMessages 20 10)).map (fun s =>
      (getConversation s.db 1 1 none none).toOption.map (List.map (fun v => (v.sender, v.sender_seq)))) =
        some (some [(2, 2), (2, 1)]) := by
    decide +kernel
  obtain ⟨s, hs, hlisted⟩ := Option.map_eq_some_iff.mp hrun
  rw [getConversation_all] at hlisted
  refine ⟨s, _, Machine.reachable_of_run ⟨rfl, List.cons_ne_nil _ _⟩ hs, getConversation_all s.db 1 1, fun hpairwise => ?_⟩
  have hnumbers : [((2 : IdentityId), 2), (2, 1)].Pairwise
      (fun (a b : IdentityId × Nat) => a.1 = b.1 → a.2 < b.2) := by
    rw [← Option.some.inj hlisted, List.pairwise_map]
    exact hpairwise
  exact absurd hnumbers (by decide)

end MuseAgentSocial.Store
