import MuseAgentSocial.Store.Node

/-!
# Messages, revisions and reactions

What the message and reaction tables hold in every reachable store.

* `Mirrors`: a message row is the one of its event.
* `Revised` and `RetractionRecorded`: the revisions of a message and its retraction.
* `ThreadsCounted`: the counter of a thread is the number of its messages.  It is kept by a
  rebuild only where every event is one of the relationship that is rebuilt, since threads
  are not rows of a relationship.
* `Capped`: the active reactions of a sender on a target.
* `Frozen`: a retracted message keeps its revisions.
* `messages_represented`: the whole representation.
-/

namespace MuseAgentSocial.Store

open Model Crypto Policy

/-! ## One message -/

/-- The row has the columns of its event. -/
def Mirrors (db : Database) (m : Message) : Prop :=
  ∃ e, db.events.find m.event_id = some e ∧
    (m.relationship_id, m.conversation_id, m.thread_id, m.sender, m.sender_seq, m.created_at, m.reply_to) =
      (e.relationship_id, e.conversation_id, e.thread_id, e.sender, e.sender_seq, e.created_at, e.reply_to) ∧
    ∃ attachment, e.payload = .messageCreated m.body m.format attachment

/-- The revisions of the message have the numbers up to `n`. -/
structure Revised (db : Database) (m : Message) (n : Nat) : Prop where
  numbered : ∀ k, (db.message_revisions.find (m.event_id, k)).isSome = true ↔ k ≤ n
  original : ∀ r, db.message_revisions.find (m.event_id, 0) = some r → r.body = m.body ∧ r.edit_event_id = none
  current : ∀ r, db.message_revisions.find (m.event_id, n) = some r → r.body = m.current_body
  edited : m.edited = true ↔ 0 < n
  authored : ∀ k r, db.message_revisions.find (m.event_id, k) = some r → 0 < k →
    ∃ e, db.events.find e.event_id = some e ∧ r.edit_event_id = some e.event_id ∧ e.sender = m.sender ∧
      e.payload = .messageEdited m.event_id r.body r.reason

/-- The message is retracted exactly when a retraction is recorded, and the retraction is
one of its sender. -/
structure RetractionRecorded (db : Database) (m : Message) : Prop where
  retracted : m.retracted = m.retraction_event_id.isSome
  authored : ∀ i, m.retraction_event_id = some i → ∃ e, db.events.find i = some e ∧ e.sender = m.sender ∧
    e.payload = .messageRetracted m.event_id m.retraction_reason

/-- What the tables hold of a message. -/
structure Represented (db : Database) (m : Message) : Prop where
  mirrors : Mirrors db m
  revised : ∃ n, Revised db m n
  retraction : RetractionRecorded db m

/-- Every message is represented. -/
def AllRepresented (db : Database) : Prop := db.messages.All (Represented db)

variable {message_revisions : Table Revision.key} {target : EventId}

section represented

variable {db db' : Database} {m m' : Message} {rid : RelationshipId} {now : Nat}

theorem Mirrors.mono (h : Mirrors db m) (hlog : ∀ i e, db.events.find i = some e → db'.events.find i = some e) :
    Mirrors db' m := by
  obtain ⟨e, he, hrest⟩ := h
  exact ⟨e, hlog _ _ he, hrest⟩

theorem Revised.mono {n : Nat} (h : Revised db m n)
    (hlog : ∀ i e, db.events.find i = some e → db'.events.find i = some e)
    (hrevisions : ∀ k, db'.message_revisions.find (m.event_id, k) = db.message_revisions.find (m.event_id, k)) :
    Revised db' m n where
  numbered k := by
    rw [hrevisions]
    exact h.numbered k
  original r hr := h.original r (hrevisions 0 ▸ hr)
  current r hr := h.current r (hrevisions n ▸ hr)
  edited := h.edited
  authored k r hr hk := by
    obtain ⟨e, he, hrest⟩ := h.authored k r (hrevisions k ▸ hr) hk
    exact ⟨e, hlog _ _ he, hrest⟩

theorem RetractionRecorded.mono (h : RetractionRecorded db m)
    (hlog : ∀ i e, db.events.find i = some e → db'.events.find i = some e) : RetractionRecorded db' m where
  retracted := h.retracted
  authored i hi := by
    obtain ⟨e, he, hrest⟩ := h.authored i hi
    exact ⟨e, hlog _ _ he, hrest⟩

theorem Represented.mono (h : Represented db m)
    (hlog : ∀ i e, db.events.find i = some e → db'.events.find i = some e)
    (hrevisions : ∀ k, db'.message_revisions.find (m.event_id, k) = db.message_revisions.find (m.event_id, k)) :
    Represented db' m where
  mirrors := h.mirrors.mono hlog
  revised := h.revised.imp fun _ hn => hn.mono hlog hrevisions
  retraction := h.retraction.mono hlog

theorem AllRepresented.of_same (h : AllRepresented db)
    (hlog : ∀ i e, db.events.find i = some e → db'.events.find i = some e)
    (hmessages : db'.messages = db.messages) (hrevisions : db'.message_revisions = db.message_revisions) :
    AllRepresented db' := by
  intro m hm
  rw [hmessages] at hm
  exact (h m hm).mono hlog (fun k => by rw [hrevisions])

theorem Represented.replyState {reply_state : ReplyState} (h : Represented db m) :
    Represented db { m with reply_state } where
  mirrors := h.mirrors
  revised := h.revised.imp fun _ hn => ⟨hn.numbered, hn.original, hn.current, hn.edited, hn.authored⟩
  retraction := ⟨h.retraction.retracted, h.retraction.authored⟩

theorem Revised.max {n newest : Nat} (h : Revised db m n)
    (hmax : (revisionNumbers db m.event_id).max? = some newest) : newest = n := by
  obtain ⟨hmem, hle⟩ := List.max?_eq_some_iff.mp hmax
  have hiff : ∀ k, k ∈ revisionNumbers db m.event_id ↔ k ≤ n := by
    intro k
    rw [← h.numbered, Option.isSome_iff_exists]
    constructor
    · intro hk
      obtain ⟨r, hr, rfl⟩ := List.mem_map.mp hk
      obtain ⟨hr, hid⟩ := List.mem_filter.mp hr
      refine ⟨r, Table.find_eq_some.mpr ⟨hr, ?_⟩⟩
      rw [Revision.key, of_decide_eq_true hid]
    · rintro ⟨r, hr⟩
      obtain ⟨hr, hkey⟩ := Table.find_eq_some.mp hr
      obtain ⟨hid, hno⟩ := Prod.mk.inj hkey
      exact List.mem_map.mpr ⟨r, List.mem_filter.mpr ⟨hr, by simpa using hid⟩, hno⟩
  exact le_antisymm ((hiff newest).mp hmem) (hle n ((hiff n).mpr le_rfl))

/-! ## The writes on messages -/

variable {ev : Event} {body : String} {reason : Option String}

theorem AllRepresented.message (h : AllRepresented db) {format : Format} {attachment : Option Attachment} {reply_state : ReplyState}
    {messages : Table Message.event_id} {message_revisions : Table Revision.key} (hs : Scoped db)
    (hlog : db.events.find ev.event_id = some ev) (hpayload : ev.payload = .messageCreated body format attachment)
    (hmessages : db.messages.insert (newMessage ev body format reply_state) = some messages)
    (hrevisions : db.message_revisions.insert
      { event_id := ev.event_id, revision_no := 0, body, edited_at := ev.created_at } = some message_revisions) :
    AllRepresented { db with messages, message_revisions } := by
  have hfree : db.messages.find ev.event_id = none := (Table.insert_eq_some hmessages).1
  have hfind := Table.find_of_insert hrevisions
  intro m hm
  rcases (Table.mem_of_insert hmessages).mp hm with hold | rfl
  · -- The first revision of the new message is under another key.
    have hne : m.event_id ≠ ev.event_id := Table.find_eq_none.mp hfree m hold
    refine (h m hold).mono (fun _ _ => id) (fun k => ?_)
    rw [hfind, if_neg]
    exact fun hkey => hne (congrArg Prod.fst hkey)
  · have hnone : ∀ k, db.message_revisions.find (ev.event_id, k) = none := by
      refine fun k => Table.find_eq_none.mpr (fun r hr hkey => ?_)
      have hsome := (hs.revised ev.event_id).mpr ⟨r, hr, congrArg Prod.fst hkey⟩
      rw [hfree] at hsome
      exact absurd hsome Bool.false_ne_true
    refine ⟨⟨ev, hlog, rfl, attachment, hpayload⟩, ⟨0, ?_, ?_, ?_, ?_, ?_⟩, rfl, fun i hi => by cases hi⟩
    · intro k
      show (message_revisions.find (ev.event_id, k)).isSome = true ↔ _
      rw [hfind]
      split_ifs with hkey
      · have hk : k = 0 := congrArg Prod.snd hkey
        simp [hk]
      · have hk : k ≠ 0 := fun hk => hkey (by rw [hk]; rfl)
        rw [hnone]
        simp only [Option.isSome_none, Bool.false_eq_true, false_iff]
        omega
    · intro r hr
      have hr : message_revisions.find (ev.event_id, 0) = some r := hr
      rw [hfind, if_pos (by rfl)] at hr
      rw [← Option.some.inj hr]
      exact ⟨rfl, rfl⟩
    · intro r hr
      have hr : message_revisions.find (ev.event_id, 0) = some r := hr
      rw [hfind, if_pos (by rfl)] at hr
      rw [← Option.some.inj hr]
      rfl
    · simp [newMessage]
    · intro k r hr hk
      have hr : message_revisions.find (ev.event_id, k) = some r := hr
      rw [hfind, if_neg (fun hkey => hk.ne' (congrArg Prod.snd hkey)), hnone] at hr
      cases hr

theorem AllRepresented.edit (h : AllRepresented db) {target : EventId} {newest : Nat} {message_revisions : Table Revision.key}
    (hlog : db.events.find ev.event_id = some ev) (hpayload : ev.payload = .messageEdited target body reason)
    (hm : db.messages.find target = some m) (hsender : m.sender = ev.sender)
    (hrevisions : db.message_revisions.insert
      ⟨target, newest + 1, body, ev.created_at, some ev.event_id, reason⟩ = some message_revisions)
    (hnewest : (revisionNumbers db target).max? = some newest) :
    AllRepresented { db with
      message_revisions
      messages := db.messages.modify target (fun m => { m with edited := true, current_body := body })
        (fun _ => rfl) } := by
  have hfind := Table.find_of_insert hrevisions
  intro m' hm'
  simp only [Table.mem_modify] at hm'
  rcases hm' with ⟨m₀, hm₀, hid, rfl⟩ | ⟨hold, hid⟩
  · obtain rfl : m₀ = m := Option.some.inj ((Table.find_eq_some.mpr ⟨hm₀, hid⟩).symm.trans hm)
    obtain ⟨hmirrors, ⟨n, hrevised⟩, hretraction⟩ := h m₀ hm₀
    rw [← hid] at hnewest
    obtain rfl := hrevised.max hnewest
    refine ⟨hmirrors.mono (fun _ _ => id), ⟨newest + 1, ?_⟩, ⟨hretraction.retracted, hretraction.authored⟩⟩
    have hother : ∀ k, k ≠ newest + 1 →
        message_revisions.find (m₀.event_id, k) = db.message_revisions.find (m₀.event_id, k) := by
      intro k hk
      rw [hfind, if_neg]
      exact fun hkey => hk (congrArg Prod.snd hkey)
    have hnew : message_revisions.find (m₀.event_id, newest + 1) =
        some ⟨target, newest + 1, body, ev.created_at, some ev.event_id, reason⟩ := by
      rw [hfind, if_pos (by rw [hid]; rfl)]
    refine ⟨fun k => ?_, fun r hr => ?_, fun r hr => ?_, ?_, fun k r hr hk => ?_⟩
    · show (message_revisions.find (m₀.event_id, k)).isSome = true ↔ _
      by_cases hk : k = newest + 1
      · rw [hk, hnew]
        simp
      · rw [hother k hk, hrevised.numbered]
        omega
    · exact hrevised.original r ((hother 0 (by omega)).symm.trans hr)
    · rw [← Option.some.inj (hnew.symm.trans hr)]
    · simp
    · by_cases hlast : k = newest + 1
      · subst hlast
        obtain rfl := Option.some.inj (hnew.symm.trans hr)
        exact ⟨ev, hlog, rfl, hsender.symm, hpayload.trans (by rw [← hid])⟩
      · exact hrevised.authored k r ((hother k hlast).symm.trans hr) hk
  · refine (h m' hold).mono (fun _ _ => id) (fun k => ?_)
    rw [hfind, if_neg]
    exact fun hkey => hid (congrArg Prod.fst hkey)

theorem AllRepresented.retract (h : AllRepresented db)
    (hlog : db.events.find ev.event_id = some ev)
    (hpayload : ev.payload = .messageRetracted target reason)
    (hm : db.messages.find target = some m) (hsender : m.sender = ev.sender) :
    AllRepresented { db with
      messages := db.messages.modify target
        (fun m => { m with
          retracted := true, retraction_event_id := some ev.event_id
          retracted_at := some ev.created_at, retraction_reason := reason }) (fun _ => rfl) } := by
  intro m' hm'
  simp only [Table.mem_modify] at hm'
  rcases hm' with ⟨m₀, hm₀, hid, rfl⟩ | ⟨hold, -⟩
  · obtain rfl : m₀ = m := Option.some.inj ((Table.find_eq_some.mpr ⟨hm₀, hid⟩).symm.trans hm)
    obtain ⟨hmirrors, hrevised, -⟩ := h m₀ hm₀
    refine ⟨hmirrors, hrevised.imp (fun _ hn => ⟨hn.numbered, hn.original, hn.current, hn.edited, hn.authored⟩),
      rfl, fun i hi => ?_⟩
    obtain rfl := Option.some.inj hi
    exact ⟨ev, hlog, hsender.symm, hpayload.trans (by rw [← hid])⟩
  · exact (h m' hold).mono (fun _ _ => id) (fun _ => rfl)

/-- The other handlers touch no message. -/
theorem AllRepresented.write (h : AllRepresented db) (hs : Scoped db) (hlog : db.events.find ev.event_id = some ev)
    (hwrite : Write ev now db db') : AllRepresented db' := by
  cases hwrite with
  | thread hopens hjoins =>
    obtain ⟨_, _, heq⟩ := registerThread_eq db ev ‹_›
    rw [heq]
    exact h.of_same (fun _ _ => id) rfl rfl
  | message hpayload hmessages hrevisions hopened =>
    obtain ⟨_, heq⟩ := bumpThreadMessage_eq _ ev.thread_id ev.created_at
    rw [heq]
    exact (h.message hs hlog hpayload hmessages hrevisions).of_same (fun _ _ => id) rfl rfl
  | edit hpayload hm hsender hretracted hrevisions hnewest hunseen =>
    exact h.edit hlog hpayload hm hsender hrevisions hnewest
  | retract hpayload hm hsender hretracted => exact h.retract hlog hpayload hm hsender
  | _ => exact h.of_same (fun _ _ => id) rfl rfl

theorem AllRepresented.kept : Kept AllRepresented where
  initial := Table.All.empty
  inputs _ _ h := h.of_same (fun _ _ => id) rfl rfl
  append _ h happend := by
    obtain ⟨_, threads, heq⟩ := append_events happend
    refine h.of_same (fun i e he => find_of_append happend he) ?_ ?_
    · rw [heq]
    · rw [heq]
  effect hs h heffect := by
    cases heffect with
    | write hlog hP hwrite => exact h.write hs hlog hwrite
    | resolve hown => exact h.of_same (fun _ _ => id) rfl rfl
    | replyState hown =>
      intro m' hm'
      simp only [Table.mem_modify] at hm'
      obtain ⟨m, hm, -, rfl⟩ | ⟨hm, -⟩ := hm'
      · exact (h m hm).replyState.mono (fun _ _ => id) (fun _ => rfl)
      · exact (h m' hm).mono (fun _ _ => id) (fun _ => rfl)
    | quarantine => exact h.of_same (fun _ _ => id) rfl rfl
    | sequence =>
      obtain ⟨_, _, heq⟩ := updateSeqState_eq _ ‹_› ‹_›
      rw [heq]
      exact h.of_same (fun _ _ => id) rfl rfl
  wipe := by
    intro db rid hs h m hm
    obtain ⟨hm, hrel⟩ := Table.mem_delete.mp hm
    refine (h m hm).mono (fun _ _ => id) (fun k => ?_)
    show (db.message_revisions.delete _).find _ = _
    rw [Table.find_delete]
    cases hr : db.message_revisions.find (m.event_id, k) with
    | none => rfl
    | some r =>
      have hid : r.event_id = m.event_id := congrArg Prod.fst (Table.key_of_find hr)
      rw [Option.filter_some, if_pos]
      rw [hid, Bool.not_eq_true']
      by_contra hown
      exact of_decide_eq_false hrel (eventOf_unique (hs.messages m hm) (Bool.of_not_eq_false hown))
  expire := by
    intro db rid now hs h m' hm'
    simp only [expirePendingRefs, Table.mem_map] at hm'
    obtain ⟨m, hm, rfl⟩ := hm'
    have hm : Represented (expirePendingRefs db rid now) m := (h m hm).mono (fun _ _ => id) (fun _ => rfl)
    split_ifs
    · exact hm.replyState
    · exact hm

end represented

/-! ## Threads -/

/-- The projected messages of a thread. -/
def threadMessages (db : Database) (t : ThreadId) : Nat := db.messages.rows.countP (fun m => m.thread_id = some t)

/-- `message_count` of the thread, 0 when it has no state row. -/
def messageCount (db : Database) (t : ThreadId) : Nat := (db.thread_state.find t).elim 0 (·.message_count)

/-- The counter of a thread, and the thread of a state row. -/
structure ThreadsCounted (db : Database) : Prop where
  registered : ∀ t, (db.thread_state.find t).isSome = true → (db.threads.find t).isSome = true
  counted : ∀ t, messageCount db t = threadMessages db t

/-- Every event is one of the relationship. -/
def OneRelationship (rid : RelationshipId) (db : Database) : Prop := ∀ e ∈ db.events.rows, e.relationship_id = rid

section counted

variable {db db' : Database} {rid : RelationshipId} {ev : Event} {now : Nat}

theorem ThreadsCounted.of_same (h : ThreadsCounted db)
    (hthreads : ∀ t, (db.threads.find t).isSome = true → (db'.threads.find t).isSome = true)
    (hstate : db'.thread_state = db.thread_state) (hmessages : ∀ t, threadMessages db' t = threadMessages db t) :
    ThreadsCounted db' where
  registered t ht := hthreads t (h.registered t (hstate ▸ ht))
  counted t := by
    rw [hmessages, ← h.counted, messageCount, hstate]
    rfl

/-- An update of messages that leaves them in their threads. -/
theorem threadMessages_map {f : Message → Message} {hf : ∀ m, (f m).event_id = m.event_id}
    (hthread : ∀ m, (f m).thread_id = m.thread_id) (t : ThreadId) :
    threadMessages { db with messages := db.messages.map f hf } t = threadMessages db t := by
  show (db.messages.rows.map f).countP _ = _
  rw [List.countP_map]
  refine List.countP_congr (fun m _ => ?_)
  simp [hthread]

theorem threadMessages_modify {i : EventId} {f : Message → Message} {hf : ∀ m, (f m).event_id = m.event_id}
    (hthread : ∀ m, (f m).thread_id = m.thread_id) (t : ThreadId) :
    threadMessages { db with messages := db.messages.modify i f hf } t = threadMessages db t := by
  refine threadMessages_map (fun m => ?_) t
  split_ifs
  · exact hthread m
  · rfl

theorem registerThread_count (thread_id t : ThreadId) :
    messageCount (registerThread db ev thread_id) t = messageCount db t := by
  have hregistered : ((db.thread_state.insertOrIgnore
      { thread_id, conversation_id := ev.conversation_id }).find t).elim 0 (·.message_count) =
        messageCount db t := by
    rw [Table.find_insertOrIgnore]
    split_ifs with ht
    · have ht : t = thread_id := ht
      subst ht
      unfold messageCount
      cases db.thread_state.find t with
      | none => rfl
      | some r => rfl
    · rfl
  unfold registerThread
  dsimp only
  split_ifs with hroot
  · unfold messageCount
    dsimp only
    rw [Table.find_modify]
    split_ifs with ht
    · refine Eq.trans ?_ hregistered
      rw [ht]
      cases (db.thread_state.insertOrIgnore
        { thread_id, conversation_id := ev.conversation_id }).find thread_id with
      | none => rfl
      | some r =>
        dsimp only [Option.map_some, Option.elim_some]
        split_ifs
        · rfl
        · rfl
    · exact hregistered
  · exact hregistered

theorem registerThread_opens (thread_id t : ThreadId)
    (ht : ((registerThread db ev thread_id).thread_state.find t).isSome = true) :
    t = thread_id ∨ (db.thread_state.find t).isSome = true := by
  have hregistered : ((db.thread_state.insertOrIgnore
      { thread_id, conversation_id := ev.conversation_id }).find t).isSome = true := by
    unfold registerThread at ht
    dsimp only at ht
    split_ifs at ht with hroot
    · rwa [Table.isSome_find_modify] at ht
    · exact ht
  rw [Table.find_insertOrIgnore] at hregistered
  split_ifs at hregistered with hid
  · exact Or.inl hid
  · exact Or.inr hregistered

theorem ThreadsCounted.thread (h : ThreadsCounted db) (thread_id : ThreadId) : ThreadsCounted (registerThread db ev thread_id) where
  registered t ht := by
    rw [registerThread_threads, Table.find_insertOrIgnore]
    split_ifs with hid
    · rfl
    · exact h.registered t ((registerThread_opens thread_id t ht).resolve_left hid)
  counted t := by
    obtain ⟨_, _, heq⟩ := registerThread_eq db ev thread_id
    rw [registerThread_count, h.counted, heq]
    rfl

theorem ThreadsCounted.message (h : ThreadsCounted db) {m : Message}
    {messages : Table Message.event_id} {attachments : Table AttachmentRow.event_id}
    {created_at : Nat} (hmessages : db.messages.insert m = some messages)
    (hopened : ∀ t, m.thread_id = some t → (db.thread_state.find t).isSome = true) :
    ThreadsCounted (bumpThreadMessage { db with messages, message_revisions, attachments } m.thread_id created_at) := by
  have hcount : ∀ t, messages.rows.countP (fun m => m.thread_id = some t) =
      threadMessages db t + if m.thread_id = some t then 1 else 0 := by
    intro t
    rw [(Table.insert_eq_some hmessages).2, List.countP_append, List.countP_singleton]
    simp [threadMessages]
  cases hthread : m.thread_id with
  | none =>
    refine h.of_same (fun t => id) rfl (fun t => ?_)
    refine (hcount t).trans ?_
    simp [hthread]
  | some thread_id =>
    refine ⟨fun t ht => h.registered t ?_, fun t => ?_⟩
    · unfold bumpThreadMessage at ht
      dsimp only at ht
      rwa [Table.isSome_find_modify] at ht
    · refine Eq.trans ?_ (hcount t).symm
      unfold bumpThreadMessage messageCount
      dsimp only
      rw [← h.counted, hthread, Table.find_modify]
      by_cases ht : t = thread_id
      · obtain ⟨r, hr⟩ := Option.isSome_iff_exists.mp (hopened thread_id hthread)
        simp [messageCount, ht, hr]
      · simp [messageCount, ht, Ne.symm ht]

theorem ThreadsCounted.write (h : ThreadsCounted db) (hwrite : Write ev now db db') : ThreadsCounted db' := by
  cases hwrite with
  | thread hopens hjoins => exact h.thread _
  | message hpayload hmessages hrevisions hopened => exact h.message hmessages hopened
  | edit hpayload hm hsender hretracted hrevisions hnewest hunseen =>
    exact h.of_same (fun _ => id) rfl (threadMessages_modify (fun _ => rfl))
  | retract hpayload hm hsender hretracted =>
    exact h.of_same (fun _ => id) rfl (threadMessages_modify (fun _ => rfl))
  | _ => exact h.of_same (fun _ => id) rfl (fun _ => rfl)

/-- A rebuild of the relationship starts without messages and without the states of
their threads. -/
theorem ThreadsCounted.wipe (h : ThreadsCounted db) (hs : Scoped db) (hrepresented : AllRepresented db)
    (hone : OneRelationship rid db) (rid' : RelationshipId) : ThreadsCounted (Store.wipe db rid') where
  registered t ht := by
    have ht : ((db.thread_state.delete _).find t).isSome = true := ht
    rw [Table.find_delete] at ht
    refine h.registered t ?_
    obtain ⟨r, hr⟩ := Option.isSome_iff_exists.mp ht
    rw [Option.eq_some_of_filter_eq_some hr]
    rfl
  counted t := by
    have hstate : messageCount (Store.wipe db rid') t =
        if (db.threads.find t).isSome = true ∧ db.threadOf rid' t = true then 0 else messageCount db t := by
      unfold messageCount
      show ((db.thread_state.delete _).find t).elim 0 _ = _
      rw [Table.find_delete]
      cases hr : db.thread_state.find t with
      | none => simp
      | some r =>
        have hid : r.thread_id = t := Table.key_of_find hr
        rw [Option.filter_some, hid]
        split_ifs <;> simp_all
    by_cases hrid : rid' = rid
    · subst hrid
      have hnone : threadMessages (Store.wipe db rid') t = 0 := by
        refine List.countP_eq_zero.mpr (fun m hm => ?_)
        obtain ⟨hm, hrel⟩ := Table.mem_delete.mp hm
        obtain ⟨e, he, hown⟩ := eventOf_iff.mp (hs.messages m hm)
        have heq := hone e (Table.find_eq_some.mp he).1
        exact absurd (hown.symm.trans heq) (of_decide_eq_false hrel)
      rw [hnone, hstate]
      split_ifs with hdeleted
      · rfl
      · -- A thread with messages has events of the relationship.
        rw [h.counted]
        refine List.countP_eq_zero.mpr (fun m hm ht => hdeleted ?_)
        have ht : m.thread_id = some t := of_decide_eq_true ht
        have hpos : 0 < threadMessages db t :=
          List.countP_pos_iff.mpr ⟨m, hm, decide_eq_true ht⟩
        refine ⟨h.registered t ?_, ?_⟩
        · rw [← h.counted, messageCount] at hpos
          cases hr : db.thread_state.find t with
          | none =>
            rw [hr] at hpos
            exact absurd hpos (Nat.lt_irrefl 0)
          | some r => rfl
        · obtain ⟨e, he, hrow, -⟩ := (hrepresented m hm).mirrors
          simp only [Prod.mk.injEq] at hrow
          have hmem := (Table.find_eq_some.mp he).1
          refine List.any_eq_true.mpr ⟨e, hmem, decide_eq_true ⟨hone e hmem, ?_⟩⟩
          rw [← hrow.2.2.1]
          exact ht
    · have hall : threadMessages (Store.wipe db rid') t = threadMessages db t := by
        show (db.messages.rows.filter _).countP _ = _
        rw [List.countP_filter]
        refine List.countP_congr (fun m hm => ?_)
        obtain ⟨e, he, hown⟩ := eventOf_iff.mp (hs.messages m hm)
        have hne : m.relationship_id ≠ rid' := by
          rw [← hown, hone e (Table.find_eq_some.mp he).1]
          exact Ne.symm hrid
        simp [hne]
      rw [hall, hstate, if_neg, h.counted]
      rintro ⟨-, hthread⟩
      obtain ⟨e, he, hsel⟩ := List.any_eq_true.mp hthread
      exact hrid ((of_decide_eq_true hsel).1.symm.trans (hone e he))

/-- Messages are represented and, where all events are of one relationship, counted. -/
def RepresentedAndCounted (db : Database) : Prop :=
  AllRepresented db ∧ ∀ rid, OneRelationship rid db → ThreadsCounted db

theorem RepresentedAndCounted.kept : Kept RepresentedAndCounted where
  initial := ⟨AllRepresented.kept.initial, fun _ _ => ⟨fun _ ht => absurd ht Bool.false_ne_true, fun _ => rfl⟩⟩
  inputs relationships approvals h :=
    ⟨AllRepresented.kept.inputs relationships approvals h.1,
      fun rid hone => (h.2 rid hone).of_same (fun _ => id) rfl (fun _ => rfl)⟩
  append := by
    intro db db' ev hs h happend
    refine ⟨AllRepresented.kept.append hs h.1 happend, fun rid hone => ?_⟩
    have hold : OneRelationship rid db := fun e he =>
      hone e (Table.mem_iff_find.mpr (find_of_append happend (Table.mem_iff_find.mp he)))
    obtain ⟨threads, hthreads, heq⟩ := append_threads happend
    rw [heq]
    refine (h.2 rid hold).of_same (fun t ht => ?_) rfl (fun _ => rfl)
    obtain ⟨r, hr⟩ := Option.isSome_iff_exists.mp ht
    exact Option.isSome_iff_exists.mpr ⟨r, hthreads t r hr⟩
  effect := by
    intro rid' now db db' hs h heffect
    refine ⟨AllRepresented.kept.effect hs h.1 heffect, fun rid hone => ?_⟩
    have hcounted := h.2 rid (fun e he => hone e (by rw [heffect.sameInputs.events]; exact he))
    cases heffect with
    | write hlog hP hwrite => exact hcounted.write hwrite
    | resolve hown => exact hcounted.of_same (fun _ => id) rfl (fun _ => rfl)
    | replyState hown => exact hcounted.of_same (fun _ => id) rfl (threadMessages_modify (fun _ => rfl))
    | quarantine => exact hcounted.of_same (fun _ => id) rfl (fun _ => rfl)
    | sequence =>
      obtain ⟨_, _, heq⟩ := updateSeqState_eq db ‹_› now
      rw [heq]
      exact hcounted.of_same (fun _ => id) rfl (fun _ => rfl)
  wipe rid' hs h :=
    ⟨AllRepresented.kept.wipe rid' hs h.1, fun rid hone => (h.2 rid hone).wipe hs h.1 hone rid'⟩
  expire rid' now hs h := by
    refine ⟨AllRepresented.kept.expire rid' now hs h.1, fun rid hone => ?_⟩
    refine (h.2 rid hone).of_same (fun _ => id) rfl (threadMessages_map (fun m => ?_))
    split_ifs
    · rfl
    · rfl

end counted

/-! ## Reactions -/

/-- No sender has more active reactions on a target than the cap. -/
def Capped (db : Database) : Prop :=
  ∀ target sender, activeReactions db target sender ≤ MAX_ACTIVE_REACTIONS_PER_SENDER_TARGET

section capped

variable {db db' : Database} {ev : Event} {now : Nat}

theorem Capped.added (h : Capped db) {target : EventId} {emoji : String}
    (hcap : (db.reactions.find (target, ev.sender, emoji)).any (·.active) = true ∨
      activeReactions db target ev.sender < MAX_ACTIVE_REACTIONS_PER_SENDER_TARGET) :
    Capped { db with
      reactions := db.reactions.upsert
        ⟨target, ev.sender, emoji, true, ev.event_id, ev.created_at, none, none⟩ } := by
  intro target' sender'
  let row : Reaction := ⟨target, ev.sender, emoji, true, ev.event_id, ev.created_at, none, none⟩
  have hagree : Table.Agree (fun k => k ≠ row.key) db.reactions (db.reactions.upsert row) :=
    Table.Agree.upsert_other (by simp)
  have hcount := hagree.countP_key
    (fun r => r.target_event_id = target' ∧ r.sender = sender' ∧ r.active = true)
  rw [Table.find_upsert, if_pos rfl, Option.any_some] at hcount
  have hold := h target' sender'
  show (db.reactions.upsert row).rows.countP _ ≤ _
  unfold activeReactions at hold hcap
  by_cases hsame : target = target' ∧ ev.sender = sender'
  · obtain ⟨rfl, rfl⟩ := hsame
    have hrow : decide (row.target_event_id = target ∧ row.sender = ev.sender ∧ row.active = true) = true :=
      decide_eq_true ⟨rfl, rfl, rfl⟩
    rw [hrow] at hcount
    simp only [Bool.toNat_true] at hcount
    rcases hcap with hactive | hlt
    · have hany : (db.reactions.find row.key).any
          (fun r => r.target_event_id = target ∧ r.sender = ev.sender ∧ r.active = true) = true := by
        rw [show row.key = (target, ev.sender, emoji) from rfl]
        cases hr : db.reactions.find (target, ev.sender, emoji) with
        | none =>
          rw [hr] at hactive
          exact absurd hactive Bool.false_ne_true
        | some r =>
          rw [hr] at hactive
          have hkey := Table.key_of_find hr
          simp only [Reaction.key, Prod.mk.injEq] at hkey
          exact decide_eq_true ⟨hkey.1, hkey.2.1, hactive⟩
      rw [hany] at hcount
      simp only [Bool.toNat_true] at hcount
      omega
    · omega
  · have hrow : decide (row.target_event_id = target' ∧ row.sender = sender' ∧ row.active = true) = false :=
      decide_eq_false (fun hrow => hsame ⟨hrow.1, hrow.2.1⟩)
    rw [hrow] at hcount
    simp only [Bool.toNat_false] at hcount
    omega

theorem Capped.removed (h : Capped db) {k : EventId × IdentityId × String} {f : Reaction → Reaction}
    {hf : ∀ r, (f r).key = r.key} (hinactive : ∀ r, (f r).active = false) :
    Capped { db with reactions := db.reactions.modify k f hf } := by
  intro target sender
  have hagree : Table.Agree (fun k' => k' ≠ k) db.reactions (db.reactions.modify k f hf) :=
    Table.Agree.modify_other (by simp) hf
  have hcount := hagree.countP_key
    (fun r => r.target_event_id = target ∧ r.sender = sender ∧ r.active = true)
  have hnone : ((db.reactions.modify k f hf).find k).any
      (fun r => r.target_event_id = target ∧ r.sender = sender ∧ r.active = true) = false := by
    rw [Table.find_modify, if_pos rfl]
    cases db.reactions.find k with
    | none => rfl
    | some r => simp [hinactive]
  rw [hnone] at hcount
  simp only [Bool.toNat_false] at hcount
  have hold := h target sender
  show (db.reactions.modify k f hf).rows.countP _ ≤ _
  unfold activeReactions at hold
  omega

theorem Capped.write (h : Capped db) (hwrite : Write ev now db db') : Capped db' := by
  cases hwrite with
  | thread hopens hjoins =>
    obtain ⟨_, _, heq⟩ := registerThread_eq db ev ‹_›
    rw [heq]
    exact h
  | message hpayload hmessages hrevisions hopened =>
    obtain ⟨_, heq⟩ := bumpThreadMessage_eq _ ev.thread_id ev.created_at
    rw [heq]
    exact h
  | reactionAdded hpayload htarget hcap => exact h.added hcap
  | reactionRemoved hpayload htarget => exact h.removed (fun _ => rfl)
  | _ => exact h

theorem Capped.kept : Kept Capped where
  initial _ _ := Nat.zero_le _
  inputs _ _ h := h
  append _ h happend := by
    obtain ⟨_, threads, heq⟩ := append_events happend
    rw [heq]
    exact h
  effect _ h heffect := by
    cases heffect with
    | write hlog hP hwrite => exact h.write hwrite
    | resolve hown => exact h
    | replyState hown => exact h
    | quarantine => exact h
    | sequence =>
      obtain ⟨_, _, heq⟩ := updateSeqState_eq _ ‹_› ‹_›
      rw [heq]
      exact h
  wipe _ _ h target sender := (List.filter_sublist.countP_le).trans (h target sender)
  expire _ _ _ h := h

end capped

/-! ## Retracted messages -/

/-- The message is retracted, and its revisions are those of `db₀`. -/
def Frozen (i : EventId) (db₀ db : Database) : Prop :=
  (∃ m, db.messages.find i = some m ∧ m.retracted = true) ∧
    ∀ k, db.message_revisions.find (i, k) = db₀.message_revisions.find (i, k)

section frozen

variable {i : EventId} {db₀ db db' : Database} {ev : Event} {rid : RelationshipId} {P : Event → Prop} {now : Nat}

theorem Frozen.modify (h : Frozen i db₀ db) {j : EventId} {f : Message → Message}
    {hf : ∀ m, (f m).event_id = m.event_id} (hretracted : ∀ m, m.retracted = true → (f m).retracted = true) :
    Frozen i db₀ { db with messages := db.messages.modify j f hf } := by
  obtain ⟨⟨m, hm, hm'⟩, hrevisions⟩ := h
  refine ⟨?_, hrevisions⟩
  dsimp only
  rw [Table.find_modify]
  split_ifs with hij
  · rw [← hij, hm]
    exact ⟨f m, rfl, hretracted m hm'⟩
  · exact ⟨m, hm, hm'⟩

/-- An edit is rejected, and the other writes are on other messages. -/
theorem Frozen.write (h : Frozen i db₀ db) (hwrite : Write ev now db db') : Frozen i db₀ db' := by
  obtain ⟨⟨m, hm, hm'⟩, hrevisions⟩ := h
  cases hwrite with
  | thread hopens hjoins =>
    obtain ⟨_, _, heq⟩ := registerThread_eq db ev ‹_›
    rw [heq]
    exact ⟨⟨m, hm, hm'⟩, hrevisions⟩
  | message hpayload hmessages hrevision hopened =>
    obtain ⟨_, heq⟩ := bumpThreadMessage_eq _ ev.thread_id ev.created_at
    have hne : i ≠ ev.event_id := by
      rintro rfl
      exact absurd ((Table.insert_eq_some hmessages).1.symm.trans hm) (Option.some_ne_none m).symm
    rw [heq]
    refine ⟨⟨m, ?_, hm'⟩, fun k => ?_⟩
    · refine (Table.find_of_insert hmessages i).trans ?_
      rw [if_neg (by exact hne)]
      exact hm
    · refine (Table.find_of_insert hrevision (i, k)).trans ?_
      rw [if_neg (fun hkey => hne (congrArg Prod.fst hkey))]
      exact hrevisions k
  | edit hpayload hold hsender hretracted hrevision hnewest hunseen =>
    rename_i target body reason original newest message_revisions
    have hne : i ≠ target := by
      rintro rfl
      rw [Option.some.inj (hold.symm.trans hm), hm'] at hretracted
      exact absurd hretracted (by decide)
    refine ⟨⟨m, ?_, hm'⟩, fun k => ?_⟩
    · dsimp only
      rw [Table.find_modify, if_neg hne]
      exact hm
    · refine (Table.find_of_insert hrevision (i, k)).trans ?_
      rw [if_neg (fun hkey => hne (congrArg Prod.fst hkey))]
      exact hrevisions k
  | retract hpayload hold hsender hretracted =>
    exact Frozen.modify ⟨⟨m, hm, hm'⟩, hrevisions⟩ (fun _ _ => rfl)
  | _ => exact ⟨⟨m, hm, hm'⟩, hrevisions⟩

theorem Frozen.effects (h : Frozen i db₀ db) (heffects : Effects rid P now db db') : Frozen i db₀ db' := by
  refine heffects.invariant (fun db₁ db₂ _ h heffect => ?_) h
  cases heffect with
  | write hlog hP hwrite => exact h.write hwrite
  | resolve hown => exact h
  | replyState hown => exact h.modify (fun _ => id)
  | quarantine => exact h
  | sequence =>
    obtain ⟨_, _, heq⟩ := updateSeqState_eq db₁ ‹_› now
    rw [heq]
    exact h

theorem applyEvent_frozen {m : Message} {clock : Nat} (hs : Scoped db)
    (hlog : db.events.find ev.event_id = some ev) (hm : m ∈ db.messages.rows) (hretracted : m.retracted = true) :
    Frozen m.event_id db (applyEvent db ev clock).1 := by
  have hends : (applyEvent db ev clock).Ends _ _ := applyInner_ends hs hlog
  have h : Frozen m.event_id db db := ⟨⟨m, Table.mem_iff_find.mp hm, hretracted⟩, fun _ => rfl⟩
  generalize applyEvent db ev clock = out at hends ⊢
  match out, hends with
  | (db', .ok ()), heffects => exact h.effects heffects
  | (db', .error _), ⟨_, heffects⟩ => exact h.effects heffects

end frozen

/-! ## The representation -/

/-- In every reachable store a message mirrors its event, its revisions and its retraction
are those of its sender and `apply_event` adds no revision to a retracted one.  A thread
counts its messages where all events are of one relationship, and reactions are capped. -/
theorem messages_represented {s : Node} (h : machine.Reachable s) :
    (∀ m ∈ s.db.messages.rows, Represented s.db m) ∧
    (∀ m ∈ s.db.messages.rows, m.retracted = true → ∀ ev clock, s.db.events.find ev.event_id = some ev → ∀ k,
      (applyEvent s.db ev clock).1.message_revisions.find (m.event_id, k) =
        s.db.message_revisions.find (m.event_id, k)) ∧
    (∀ rid, OneRelationship rid s.db → ∀ t, messageCount s.db t = threadMessages s.db t) ∧
    ∀ target sender, activeReactions s.db target sender ≤ 8 := by
  obtain ⟨hrepresented, hcounted⟩ := RepresentedAndCounted.kept.reachable h
  refine ⟨hrepresented, fun m hm hretracted ev clock hlog => ?_, fun rid hone => (hcounted rid hone).counted,
    Capped.kept.reachable h⟩
  exact (applyEvent_frozen (reachable_scoped h) hlog hm hretracted).2

/-- A message of the peer in thread 5, an edit and a retraction of it, and a reaction. -/
def editedLog : List Event :=
  [⟨6, 1, 1, none, 2, 2, 11, 1, .messageEdited 5 "b" none, none, some 20⟩,
    ⟨5, 1, 1, some 5, 2, 1, 10, 1, .messageCreated "a" .plain none, none, some 21⟩,
    ⟨7, 1, 1, none, 2, 3, 12, 1, .reactionAdded 5 "+", none, some 22⟩,
    ⟨8, 1, 1, none, 2, 4, 13, 1, .messageRetracted 5 none, none, some 23⟩]

/-- The events arrive and are projected one by one, the edit before the message. -/
def editedRun : List Act :=
  .pair 1 2 :: editedLog.flatMap (fun ev => [.receive ev 20, .project ev.event_id 20])

/-- The representation of the edited message. -/
theorem messages_represented_editedRun : ∃ s, machine.run ⟨{}, [1]⟩ editedRun = some s ∧
    s.db.messages.rows.map (fun m => (m.event_id, m.current_body, m.edited, m.retracted)) = [(5, "b", true, true)] ∧
    (∀ m ∈ s.db.messages.rows, Represented s.db m) ∧ messageCount s.db 5 = 1 ∧
    ∀ target sender, activeReactions s.db target sender ≤ 8 := by
  have hrun : (machine.run ⟨{}, [1]⟩ editedRun).map (fun s =>
      (s.db.messages.rows.map (fun m => (m.event_id, m.current_body, m.edited, m.retracted)),
        threadMessages s.db 5, decide (∀ e ∈ s.db.events.rows, e.relationship_id = 1))) =
      some ([(5, "b", true, true)], 1, true) := by decide +kernel
  obtain ⟨s, hs, heq⟩ := Option.map_eq_some_iff.mp hrun
  simp only [Prod.mk.injEq] at heq
  obtain ⟨hrows, hcount, hone⟩ := heq
  obtain ⟨hrepresented, -, hcounted, hcapped⟩ :=
    messages_represented (Machine.reachable_of_run ⟨rfl, List.cons_ne_nil _ _⟩ hs)
  have hone : ∀ e ∈ s.db.events.rows, e.relationship_id = 1 := of_decide_eq_true hone
  exact ⟨s, hs, hrows, hrepresented, (hcounted 1 hone 5).trans hcount, hcapped⟩

end MuseAgentSocial.Store
