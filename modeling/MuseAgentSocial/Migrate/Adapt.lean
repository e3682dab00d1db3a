import MuseAgentSocial.Migrate.Drain

/-!
# What becomes of an accepted v0.1 object

`adapt_v01` and the payload that `_receive_v01` makes of it, and the projection of the
stored events.

* `Preserved`: the stored payload has the title, the body, the url and the attachment of the
  adapted one.  `preserved_iff` says when it does.
* `Inbox` is the store with the projected events.  The steps are all that writes
  `projection_queue`: v0.1 objects, envelopes that come in or come in again, and sends.  A
  teardown, which deletes the rows, is left out.
* An event is projected right after its own envelope was stored, or when that envelope comes
  in again.  A v0.1 object does neither, since `detect_v01` sends it to `_receive_v01`.
  `Waiting` is the invariant, and `legacy_never_kept` the result.
-/

namespace MuseAgentSocial.Migrate

/-! ## `adapt_v01` -/

/-- The payload of an adapted event. -/
structure AdaptedPayload where
  body : String
  legacy_title : String
  legacy_url : Option String := none
  attachment : Option Attachment := none
  deriving DecidableEq, Repr

/-- The payload that `adapt_v01` makes. -/
def adaptV01 (e : LegacyContent) : AdaptedPayload :=
  match e.type with
  | .note => { body := e.body, legacy_title := e.title }
  | .link | .article | .file_ref => { body := e.body, legacy_title := e.title, legacy_url := some e.url }
  | .file =>
    match e.attachment.bind adaptAttachment with
    | some adapted => { body := e.body, legacy_title := e.title, attachment := some adapted }
    | none =>
      { body := if e.body = "" then "File attachment omitted: exceeds the v0.2 128 KiB limit." else e.body
        legacy_title := e.title }

/-- The body of the payload that `_receive_v01` stores; its only other field is the format. -/
def receivedBody (p : AdaptedPayload) : String :=
  if p.legacy_title = "" then p.body else p.legacy_title ++ "\n\n" ++ p.body

theorem payload_eq_receivedBody (e : LegacyContent) : e.payload = receivedBody (adaptV01 e) := by
  unfold LegacyContent.payload receivedBody adaptV01
  cases e.type with
  | file =>
    cases e.attachment.bind adaptAttachment with
    | none => simp
    | some adapted => simp
  | _ => simp

/-- The stored payload, a body in plain format, has the adapted content. -/
structure Preserved (p : AdaptedPayload) (stored : String) : Prop where
  title : p.legacy_title.toList <:+: stored.toList
  body : p.body.toList <:+: stored.toList
  url : ∀ url, p.legacy_url = some url → url.toList <:+: stored.toList
  attachment : p.attachment = none

/-- Title and body are always there.  A url is, when the text has it, and an attachment never. -/
theorem preserved_iff (p : AdaptedPayload) :
    Preserved p (receivedBody p) ↔
      (∀ url, p.legacy_url = some url → url.toList <:+: (receivedBody p).toList) ∧ p.attachment = none := by
  refine ⟨fun h => ⟨h.url, h.attachment⟩, fun h => ⟨?_, ?_, h.1, h.2⟩⟩
  · unfold receivedBody
    split_ifs with htitle
    · rw [htitle]
      exact List.nil_infix
    · rw [String.toList_append, String.toList_append, List.append_assoc]
      exact (List.prefix_append _ _).isInfix
  · unfold receivedBody
    split_ifs
    · exact List.infix_rfl
    · rw [String.toList_append]
      exact (List.suffix_append _ _).isInfix

/-! ## The inbox -/

/-- The id of an event. -/
abbrev EventRef := PairId × String

/-- The store with the events that are projected. -/
structure Inbox where
  store : Store := {}
  messages : List EventRef := []

/-- What becomes of an event after it is stored. -/
inductive Fate where
  | projected
  /-- `ProjectionError`: the event is quarantined. -/
  | refused
  /-- The process dies before. -/
  | died
  deriving DecidableEq, Repr

/-- A step that may write the queue. -/
inductive InboxAct where
  /-- An object that `detect_v01` recognises. -/
  | legacy (a : Arrival)
  /-- An envelope; `admitted` says whether it passes the other checks. -/
  | envelope (row : LegacyEvent) (bytes : Nat) (admitted : Bool) (fate : Fate)
  | send (row : LegacyEvent) (bytes : Nat) (fate : Fate)
  /-- Anything else. -/
  | other (store : Store)

/-- `apply_event`, with the row of the queue. -/
def Inbox.project (x : Inbox) (id : EventRef) : Fate → Inbox
  | .projected =>
    { store := { x.store with projection_queue := x.store.projection_queue.filter (fun e => e ≠ id) }
      messages := x.messages ++ [id] }
  | .refused => { x with store := { x.store with projection_queue := x.store.projection_queue.filter (fun e => e ≠ id) } }
  | .died => x

/-- The transaction that stores an envelope, and the projection after it. -/
def Inbox.store02 (x : Inbox) (row : LegacyEvent) (bytes : Nat) (fate : Fate) : Inbox :=
  match x.store.events.insert { row with sealed_envelope := some bytes } with
  | none => x
  | some events =>
    { x with
      store := { x.store with
        events
        projection_queue := x.store.projection_queue ++ [row.event_id] } }.project row.event_id fate

/-- `_receive_object_inner`, of an envelope. -/
def Inbox.receive02 (x : Inbox) (row : LegacyEvent) (bytes : Nat) (admitted : Bool) (fate : Fate) : Inbox :=
  match x.store.events.find row.event_id with
  | some existing =>
    -- `_redrain_projection`, of the same bytes.
    if existing.sealed_envelope = some bytes ∧ x.store.projection_queue.any (fun e => e = row.event_id) then
      x.project row.event_id fate
    else x
  | none => if admitted then x.store02 row bytes fate else x

/-- One step. -/
def Inbox.next (ctx : Context) (x : Inbox) : InboxAct → Inbox
  | .legacy a => { x with store := (receiveV01 ctx a x.store).2 }
  | .envelope row bytes admitted fate => x.receive02 row bytes admitted fate
  | .send row bytes fate => x.store02 row bytes fate
  | .other store =>
    { x with
      store := { store with
        events := x.store.events
        payloads := x.store.payloads
        projection_queue := x.store.projection_queue } }

/-- The inbox, from a store without events. -/
def inbox (ctx : Context) : Machine Inbox InboxAct where
  init x := x.store.events = Table.empty ∧ x.store.payloads = [] ∧ x.messages = []
  step x act := some (x.next ctx act)

/-- The content of an object that is accepted is preserved, and the event can still become a
message. -/
def LegacyKept (ctx : Context) (x : Inbox) (a : Arrival) : Prop :=
  ∃ pair_id e, x.store.migration.pair_id = some pair_id ∧ a.data.envelope = some e ∧
    (∃ stored, ((pair_id, e.id), stored) ∈ (x.next ctx (.legacy a)).store.payloads ∧
      Preserved (adaptV01 e.toLegacyContent) stored) ∧
    ∃ acts y, (inbox ctx).run (x.next ctx (.legacy a)) acts = some y ∧ (pair_id, e.id) ∈ y.messages

/-! ## What an accepted object leaves -/

section accepted

variable {ctx : Context} {s s' : Store}

theorem persist_eq_some {rid : String} {referenced : Bool} {pair_id : PairId} {e : LegacyEnvelope}
    (h : s.persist rid referenced pair_id e = some s') :
    ∃ row : LegacyEvent, row.event_id = (pair_id, e.id) ∧ row.sealed_envelope = none ∧
      s.events.insert row = some s'.events ∧ s'.projection_queue = s.projection_queue ++ [(pair_id, e.id)] := by
  unfold Store.persist at h
  dsimp only at h
  split at h
  · cases h
  · obtain ⟨events, hevents, rfl⟩ := Option.map_eq_some_iff.mp h
    exact ⟨_, rfl, rfl, hevents, rfl⟩

theorem receiveV01_cases (ctx : Context) (a : Arrival) (s : Store) :
    ((receiveV01 ctx a s).1 ≠ .accepted ∧ (receiveV01 ctx a s).2.events = s.events ∧
      (receiveV01 ctx a s).2.projection_queue = s.projection_queue) ∨
    ∃ pair_id e, s.migration.pair_id = some pair_id ∧ a.data.envelope = some e ∧
      s.persist a.rid a.referenced pair_id e = some (receiveV01 ctx a s).2 := by
  apply (receiveV01_eq ctx a s).imp_left
  intro ⟨hno, receive_quarantine, heq⟩
  rw [heq]
  exact ⟨hno, rfl, rfl⟩

end accepted

/-! ## The invariant -/

/-- The event of a v0.1 object waits in the queue and is not projected, and every projected
event is stored. -/
structure Waiting (x : Inbox) : Prop where
  legacy : ∀ id row, x.store.events.find id = some row → row.sealed_envelope = none →
    id ∈ x.store.projection_queue ∧ id ∉ x.messages
  known : ∀ id ∈ x.messages, (x.store.events.find id).isSome = true

section waiting

variable {ctx : Context} {x : Inbox}

theorem Waiting.project (h : Waiting x) {id : EventRef} {row : LegacyEvent} (hrow : x.store.events.find id = some row)
    (hsealed : row.sealed_envelope ≠ none) (fate : Fate) : Waiting (x.project id fate) := by
  have hother : ∀ id' row', x.store.events.find id' = some row' → row'.sealed_envelope = none → id' ≠ id := by
    rintro id' row' hrow' hnone rfl
    rw [hrow] at hrow'
    exact hsealed (Option.some.inj hrow' ▸ hnone)
  cases fate with
  | projected =>
    refine ⟨fun id' row' hrow' hnone => ?_, fun id' hid' => ?_⟩
    · obtain ⟨hqueued, hnot⟩ := h.legacy id' row' hrow' hnone
      have hne := hother id' row' hrow' hnone
      exact ⟨List.mem_filter.mpr ⟨hqueued, by simpa using hne⟩, by simp [Inbox.project, hnot, hne]⟩
    · rcases List.mem_append.mp hid' with hid' | hid'
      · exact h.known id' hid'
      · rw [List.mem_singleton.mp hid']
        show (x.store.events.find id).isSome = true
        rw [hrow]
        rfl
  | refused =>
    refine ⟨fun id' row' hrow' hnone => ?_, h.known⟩
    obtain ⟨hqueued, hnot⟩ := h.legacy id' row' hrow' hnone
    exact ⟨List.mem_filter.mpr ⟨hqueued, by simpa using hother id' row' hrow' hnone⟩, hnot⟩
  | died => exact h

/-- A new row keeps the invariant when it is queued or of an envelope. -/
theorem Waiting.insert (h : Waiting x) {row : LegacyEvent} {store : Store}
    (hinsert : x.store.events.insert row = some store.events)
    (hqueue : store.projection_queue = x.store.projection_queue ++ [row.event_id]) :
    Waiting { x with store } := by
  refine ⟨fun id row' hrow' hnone => ?_, fun id hid => ?_⟩
  · change store.events.find id = some row' at hrow'
    show id ∈ store.projection_queue ∧ id ∉ x.messages
    rw [hqueue]
    rw [Table.find_of_insert hinsert] at hrow'
    split_ifs at hrow' with hid
    · subst hid
      refine ⟨List.mem_append_right _ List.mem_cons_self, fun hmem => ?_⟩
      have hknown := h.known _ hmem
      rw [(Table.insert_eq_some hinsert).1] at hknown
      cases hknown
    · obtain ⟨hqueued, hnot⟩ := h.legacy id row' hrow' hnone
      exact ⟨List.mem_append_left _ hqueued, hnot⟩
  · show (store.events.find id).isSome = true
    rw [Table.find_of_insert hinsert]
    split_ifs
    · rfl
    · exact h.known id hid

theorem Waiting.store02 (h : Waiting x) (row : LegacyEvent) (bytes : Nat) (fate : Fate) :
    Waiting (x.store02 row bytes fate) := by
  unfold Inbox.store02
  cases hinsert : x.store.events.insert { row with sealed_envelope := some bytes } with
  | none => exact h
  | some events =>
    have hnew : Waiting { x with
        store := { x.store with
          events
          projection_queue := x.store.projection_queue ++ [row.event_id] } } := h.insert hinsert rfl
    have hfind := Table.find_of_insert hinsert row.event_id
    rw [if_pos rfl] at hfind
    exact hnew.project hfind (by simp) fate

/-- Every step keeps the invariant. -/
theorem Waiting.next (h : Waiting x) (act : InboxAct) : Waiting (x.next ctx act) := by
  cases act with
  | legacy a =>
    rcases receiveV01_cases ctx a x.store with ⟨-, hevents, hqueue⟩ | ⟨pair_id, e, -, -, hpersist⟩
    · refine ⟨fun id row hrow hnone => ?_, fun id hid => ?_⟩
      · change (receiveV01 ctx a x.store).2.events.find id = some row at hrow
        show id ∈ (receiveV01 ctx a x.store).2.projection_queue ∧ id ∉ x.messages
        rw [hevents] at hrow
        rw [hqueue]
        exact h.legacy id row hrow hnone
      · show ((receiveV01 ctx a x.store).2.events.find id).isSome = true
        rw [hevents]
        exact h.known id hid
    · obtain ⟨row, hid, -, hinsert, hqueue⟩ := persist_eq_some hpersist
      exact h.insert hinsert (by rw [hqueue, hid])
  | envelope row bytes admitted fate =>
    show Waiting (x.receive02 row bytes admitted fate)
    unfold Inbox.receive02
    cases hfind : x.store.events.find row.event_id with
    | none =>
      dsimp only
      split_ifs
      · exact h.store02 row bytes fate
      · exact h
    | some existing =>
      dsimp only
      split_ifs with hsame
      · exact h.project hfind (by rw [hsame.1]; simp) fate
      · exact h
  | send row bytes fate => exact h.store02 row bytes fate
  | other store => exact ⟨h.legacy, h.known⟩

theorem waiting_of_reachable (h : (inbox ctx).Reachable x) : Waiting x := by
  refine h.invariant (P := Waiting) ?_ (fun x act y hx _ hstep => ?_)
  · rintro x ⟨hevents, -, hmessages⟩
    refine ⟨fun id row hrow => ?_, fun id hid => ?_⟩
    · rw [hevents] at hrow
      cases hrow
    · rw [hmessages] at hid
      cases hid
  · obtain rfl := Option.some.inj hstep
    exact hx.next act

theorem project_events (x : Inbox) (id : EventRef) (fate : Fate) :
    (x.project id fate).store.events = x.store.events := by
  cases fate <;> rfl

theorem store02_events (x : Inbox) (row : LegacyEvent) (bytes : Nat) (fate : Fate) :
    (x.store02 row bytes fate).store.events = x.store.events ∨
      ∃ row', x.store.events.insert row' = some (x.store02 row bytes fate).store.events := by
  unfold Inbox.store02
  cases hinsert : x.store.events.insert { row with sealed_envelope := some bytes } with
  | none => exact Or.inl rfl
  | some events => exact Or.inr ⟨_, by rw [hinsert, project_events]⟩

variable (ctx) in
theorem next_events (x : Inbox) (act : InboxAct) :
    (x.next ctx act).store.events = x.store.events ∨
      ∃ row, x.store.events.insert row = some (x.next ctx act).store.events := by
  cases act with
  | legacy a =>
    rcases receiveV01_cases ctx a x.store with ⟨-, hevents, -⟩ | ⟨pair_id, e, -, -, hpersist⟩
    · exact Or.inl hevents
    · obtain ⟨row, -, -, hinsert, -⟩ := persist_eq_some hpersist
      exact Or.inr ⟨row, hinsert⟩
  | envelope row bytes admitted fate =>
    show (x.receive02 row bytes admitted fate).store.events = _ ∨ ∃ row', _ = some (x.receive02 row bytes admitted fate).store.events
    unfold Inbox.receive02
    cases x.store.events.find row.event_id with
    | none =>
      dsimp only
      split_ifs
      · exact store02_events x row bytes fate
      · exact Or.inl rfl
    | some existing =>
      dsimp only
      split_ifs
      · exact Or.inl (project_events x _ fate)
      · exact Or.inl rfl
  | send row bytes fate => exact store02_events x row bytes fate
  | other store => exact Or.inl rfl

theorem next_find {id : EventRef} {row : LegacyEvent} (hrow : x.store.events.find id = some row) (act : InboxAct) :
    (x.next ctx act).store.events.find id = some row := by
  rcases next_events ctx x act with hsame | ⟨row', hinsert⟩
  · rw [hsame]
    exact hrow
  · rw [Table.find_of_insert hinsert, if_neg ?_]
    · exact hrow
    · rintro rfl
      rw [(Table.insert_eq_some hinsert).1] at hrow
      cases hrow

/-- The event of a v0.1 object is never projected, whatever happens later. -/
theorem Waiting.run (h : Waiting x) {id : EventRef} {row : LegacyEvent} (hrow : x.store.events.find id = some row)
    (hnone : row.sealed_envelope = none) {acts : List InboxAct} {y : Inbox} (hrun : (inbox ctx).run x acts = some y) :
    id ∈ y.store.projection_queue ∧ id ∉ y.messages := by
  induction acts generalizing x with
  | nil =>
    obtain rfl := Option.some.inj hrun
    exact h.legacy id row hrow hnone
  | cons act acts ih =>
    obtain ⟨z, hz, hrest⟩ := Option.bind_eq_some_iff.mp hrun
    obtain rfl := Option.some.inj hz
    exact ih (h.next act) (next_find hrow act) hrest

/-- No accepted v0.1 object is kept: its event waits in the queue in every later state and is
never projected. -/
theorem legacy_never_kept (hx : (inbox ctx).Reachable x) {a : Arrival}
    (haccepted : (receiveV01 ctx a x.store).1 = .accepted) : ¬LegacyKept ctx x a := by
  rintro ⟨pair_id, e, hpair, henvelope, -, acts, y, hrun, hmessage⟩
  rcases receiveV01_cases ctx a x.store with ⟨hno, -⟩ | ⟨pair_id', e', hpair', henvelope', hpersist⟩
  · exact hno haccepted
  · obtain rfl : pair_id = pair_id' := Option.some.inj (hpair.symm.trans hpair')
    obtain rfl : e = e' := Option.some.inj (henvelope.symm.trans henvelope')
    obtain ⟨row, hid, hnone, hinsert, -⟩ := persist_eq_some hpersist
    have hfind := Table.find_of_insert hinsert (pair_id, e.id)
    rw [if_pos hid.symm] at hfind
    have hwaiting : Waiting (x.next ctx (.legacy a)) := (waiting_of_reachable hx).next (.legacy a)
    exact (hwaiting.run hfind hnone hrun).2 hmessage

end waiting

/-! ## A note and a link -/

/-- A store in the drain window of the pair. -/
def drainStore : Store where
  migration :=
    { phase := .committed, pair_id := some "pair", peer_legacy_id := some "bob", my_legacy_id := some "alice"
      legacy_read_open := true, vault := some (.handoff 5) }
  vault_dir_exists := true

def drainInbox : Inbox := { store := drainStore }

theorem drainInbox_reachable : (inbox sampleContext).Reachable drainInbox := .start ⟨rfl, rfl, rfl⟩

theorem legacy_never_kept_sampleArrival : ¬LegacyKept sampleContext drainInbox sampleArrival :=
  legacy_never_kept drainInbox_reachable (by decide +kernel)

/-- A link of the peer. -/
def linkEnvelope : LegacyEnvelope :=
  let content : LegacyContent :=
    ⟨"legacy-2", "bob", "alice", "pair", .link, "hello", "world", some 900, "n2", none, "https://example.org"⟩
  { content with sig := some (5, content) }

def linkArrival : Arrival := ⟨"rel", "obj2.json", ⟨400, some linkEnvelope⟩, 2000, true⟩

/-- A link is accepted, and its url is in no payload. -/
theorem link_url_dropped :
    ¬∀ ctx x a, (inbox ctx).Reachable x → (receiveV01 ctx a x.store).1 = .accepted → LegacyKept ctx x a := by
  intro h
  obtain ⟨pair_id, e, -, henvelope, ⟨stored, hstored, hpreserved⟩, -⟩ :=
    h sampleContext drainInbox linkArrival drainInbox_reachable (by decide +kernel)
  obtain rfl : linkEnvelope = e := Option.some.inj henvelope
  have hpayloads : (drainInbox.next sampleContext (.legacy linkArrival)).store.payloads =
      [(("pair", "legacy-2"), "hello\n\nworld")] := by decide +kernel
  rw [hpayloads, List.mem_singleton] at hstored
  obtain ⟨-, rfl⟩ := Prod.mk.inj hstored
  have hurl := (hpreserved.url "https://example.org" rfl).length_le
  revert hurl
  decide

end MuseAgentSocial.Migrate
