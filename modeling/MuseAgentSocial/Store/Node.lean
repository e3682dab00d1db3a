import MuseAgentSocial.Lib.Machine
import MuseAgentSocial.Store.Apply

/-!
# Runs of one store

The store of one node as a machine.  Events enter the log when the node sends
them or when the receive path accepts them, and they are projected afterwards,
one by one or in a rebuild.

* `Database.append` is the insert into `events`, with the thread registered as
  the receive commit does it.
* `Relationship.admits` is the sender check of `_receive_object_inner`, and
  `Relationship.pin` the update of `_apply_identity_rotation`.
* `reachable_scoped`: the database of every reachable node is scoped.

Removing a relationship is not a step of this machine.
-/

namespace MuseAgentSocial.Store

open Model Crypto Policy

/-! ## The log and the relationships -/

/-- The insert into `events`.  The event id is the primary key, the sequence
numbers of a sender are unique in a relationship, and the relationship is a
foreign key. -/
def Database.append (db : Database) (ev : Event) : Option Database :=
  if (db.relationships.find ev.relationship_id).isNone || db.events.rows.any (fun e =>
      e.relationship_id = ev.relationship_id ∧ e.sender = ev.sender ∧ e.sender_seq = ev.sender_seq) then
    none
  else
    (db.events.insert ev).map fun events =>
      { db with
          events
          threads := ev.thread_id.elim db.threads
            (fun thread_id => db.threads.insertOrIgnore ⟨thread_id, ev.conversation_id⟩) }

/-- The sender check of `_receive_object_inner`: the pinned identity, or the
one before it within the grace window. -/
def Relationship.admits (rel : Relationship) (sender : IdentityId) (now : Nat) : Bool :=
  sender = rel.peer_identity_id ∨
    (rel.prior_peer_identity_id = some sender ∧ rel.prior_identity_grace_until.any (now ≤ ·))

/-- `_apply_identity_rotation` of an announcement by `old` for `new`: `none`
when it is stale. -/
def Relationship.pin (rel : Relationship) (old new : IdentityId) (now : Nat) : Option Relationship :=
  if rel.peer_identity_id = new then some rel
  else if rel.peer_identity_id ≠ old then none
  else some { rel with
    peer_identity_id := new
    prior_peer_identity_id := some old
    prior_identity_grace_until := some (now + PRIOR_IDENTITY_GRACE_SECONDS) }

/-! ## The machine -/

/-- The store of a node, and the identities that it has held, the current one
first. -/
structure Node where
  db : Database := {}
  identities : List IdentityId

/-- What happens to a node. -/
inductive Act where
  | pair (relationship_id : RelationshipId) (peer_identity_id : IdentityId)
  | approve (approval : Approval)
  | send (ev : Event)
  | receive (ev : Event) (now : Nat)
  | project (event_id : EventId) (clock : Nat)
  | rebuild (relationship_id : RelationshipId) (clock : Nat)
  | expire (relationship_id : RelationshipId) (now : Nat)
  /-- The announcement in the log takes effect. -/
  | pin (event_id : EventId) (now : Nat)
  /-- The node switches to a new identity of its own. -/
  | rotate (new : IdentityId)
  deriving DecidableEq, Repr

/-- The rotation that an event announces. -/
def Event.announces (ev : Event) : Option IdentityId :=
  match ev.payload with
  | .identityRotated new => if new = ev.sender then none else some new
  | _ => none

/-- One step of the node. -/
def Node.step (s : Node) : Act → Option Node
  | .pair rid peer =>
    (s.db.relationships.insert ⟨rid, peer, none, none⟩).map fun t =>
      { s with db := { s.db with relationships := t } }
  | .approve approval =>
    (s.db.human_approvals.insert approval).map fun t =>
      { s with db := { s.db with human_approvals := t } }
  | .send ev =>
    if s.identities.head? = some ev.sender then
      (s.db.append ev).map fun db => { s with db }
    else none
  | .receive ev now =>
    if (s.db.relationships.find ev.relationship_id).any (·.admits ev.sender now) then
      (s.db.append ev).map fun db => { s with db }
    else none
  | .project event_id clock =>
    (s.db.events.find event_id).map fun ev => { s with db := projectEvent s.db ev clock }
  | .rebuild rid clock => some { s with db := rebuildProjections s.db rid clock }
  | .expire rid now => some { s with db := expirePendingRefs s.db rid now }
  | .pin event_id now =>
    (s.db.events.find event_id).bind fun ev =>
    ev.announces.bind fun new =>
    (s.db.relationships.find ev.relationship_id).bind fun rel =>
    (rel.pin ev.sender new now).map fun rel' =>
      { s with db := { s.db with relationships := s.db.relationships.upsert rel' } }
  | .rotate new => some { s with identities := new :: s.identities }

/-- A node starts with an empty store and an identity. -/
def machine : Machine Node Act where
  init s := s.db = {} ∧ s.identities ≠ []
  step := Node.step

/-! ## The invariant along runs -/

variable {ev : Event} {I : Database → Prop} {s : Node}

section invariant

variable {db db' : Database} {rid : RelationshipId} {now clock : Nat}

theorem Scoped.initial : Scoped {} where
  messages := .empty
  polls := .empty
  tasks := .empty
  human_requests := .empty
  deliveries := .empty
  pending_refs := .empty
  revised i := by
    show (none : Option Message).isSome ↔ ∃ r ∈ ([] : List Revision), r.event_id = i
    simp

/-- The log only grows. -/
theorem append_events (h : db.append ev = some db') :
    db.events.insert ev = some db'.events ∧
      ∃ threads, db' = { db with events := db'.events, threads } := by
  unfold Database.append at h
  split_ifs at h with hclash
  obtain ⟨events, hevents, rfl⟩ := Option.map_eq_some_iff.mp h
  exact ⟨hevents, _, rfl⟩

/-- The log registers the threads of its events, and a registered thread stays. -/
theorem append_threads (h : db.append ev = some db') :
    ∃ threads : Table ThreadRow.thread_id,
      (∀ t r, db.threads.find t = some r → threads.find t = some r) ∧
      db' = { db with events := db'.events, threads } := by
  unfold Database.append at h
  split_ifs at h with hclash
  obtain ⟨events, hevents, rfl⟩ := Option.map_eq_some_iff.mp h
  refine ⟨_, fun t r hr => ?_, rfl⟩
  cases ev.thread_id with
  | none => exact hr
  | some thread_id =>
    rw [Option.elim_some, Table.find_insertOrIgnore]
    split_ifs with hkey
    · rw [← hkey, hr]
      rfl
    · exact hr

theorem find_of_append {e : Event} (h : db.append ev = some db') {i : EventId}
    (he : db.events.find i = some e) : db'.events.find i = some e := by
  have hins := (append_events h).1
  rw [Table.find_of_insert hins]
  split_ifs with hi
  · rw [hi, (Table.insert_eq_some hins).1] at he
    exact absurd he (Option.some_ne_none e).symm
  · exact he

theorem Scoped.append (hs : Scoped db) (h : db.append ev = some db') : Scoped db' := by
  have hfind : ∀ {i e}, db.events.find i = some e → db'.events.find i = some e := find_of_append h
  have hown : ∀ {rid i}, db.eventOf rid i = true → db'.eventOf rid i = true := by
    intro rid i hi
    obtain ⟨e, he, hrel⟩ := eventOf_iff.mp hi
    exact eventOf_iff.mpr ⟨e, hfind he, hrel⟩
  obtain ⟨_, threads, heq⟩ := append_events h
  rw [heq] at hown hfind ⊢
  exact {
    messages := hs.messages.imp (fun _ => hown)
    polls := hs.polls.imp (fun _ => hown)
    tasks := hs.tasks.imp (fun _ => hown)
    human_requests := hs.human_requests.imp (fun _ => hown)
    deliveries := hs.deliveries.imp (fun _ => hown)
    pending_refs := hs.pending_refs.imp (fun _ href =>
      href.elim fun e he => ⟨e, hfind he.1, he.2⟩)
    revised := hs.revised }

theorem Scoped.wipe (hs : Scoped db) : Scoped (wipe db rid) where
  messages := hs.messages.delete _
  polls := hs.polls.delete _
  tasks := hs.tasks.delete _
  human_requests := hs.human_requests.delete _
  deliveries := hs.deliveries.delete _
  pending_refs := hs.pending_refs.delete _
  revised i := by
    show ((db.messages.delete _).find i).isSome ↔ ∃ r ∈ (db.message_revisions.delete _).rows, _
    rw [Table.find_delete]
    constructor
    · intro h
      obtain ⟨m, hm⟩ := Option.isSome_iff_exists.mp h
      obtain ⟨hm, hrel⟩ := Option.filter_eq_some_iff.mp hm
      have hne : m.relationship_id ≠ rid := by simpa using hrel
      obtain ⟨r, hr, hid⟩ := (hs.revised i).mp (by rw [hm]; rfl)
      have hown := hs.messages.find hm
      rw [Table.key_of_find hm] at hown
      refine ⟨r, Table.mem_delete.mpr ⟨hr, ?_⟩, hid⟩
      rw [hid]
      by_contra hrid
      exact hne (eventOf_unique hown (Bool.of_not_eq_false hrid))
    · rintro ⟨r, hr, hid⟩
      obtain ⟨hr, hkept⟩ := Table.mem_delete.mp hr
      obtain ⟨m, hm⟩ := Option.isSome_iff_exists.mp ((hs.revised i).mpr ⟨r, hr, hid⟩)
      have hown := hs.messages.find hm
      rw [Table.key_of_find hm] at hown
      rw [hm, Option.filter_some, if_pos]
      · rfl
      · have hne : m.relationship_id ≠ rid := by
          intro hrel
          rw [hid, ← hrel, hown] at hkept
          exact Bool.noConfusion hkept
        simpa using hne

theorem wipe_sameInputs (db : Database) (rid : RelationshipId) : SameInputs db (wipe db rid) :=
  ⟨rfl, rfl, rfl⟩

theorem replay_ends {I : Database → Prop} {evs : List Event} (hs : Scoped db)
    (hlog : ∀ ev ∈ evs, db.events.find ev.event_id = some ev) (hI : I db)
    (hstep : ∀ ev ∈ evs, ∀ db₁ db₂, SameInputs db db₁ → Scoped db₁ → I db₁ →
      Effects ev.relationship_id (Dispatches db₁ ev) (ev.received_at.getD clock) db₁ db₂ → I db₂) :
    (replay clock evs db).Ends (fun db' => I db' ∧ Scoped db' ∧ SameInputs db db')
      (fun _ _ => False) := by
  induction evs generalizing db with
  | nil => exact ⟨hI, hs, .refl db⟩
  | cons ev evs ih =>
    have hrest : ∀ db', Effects ev.relationship_id (Dispatches db ev) (ev.received_at.getD clock) db db' →
        (replay clock evs db').Ends (fun db'' => I db'' ∧ Scoped db'' ∧ SameInputs db db'')
          (fun _ _ => False) := by
      intro db' heffects
      have hsame := heffects.sameInputs
      have hI' := hstep ev List.mem_cons_self db db' (.refl db) hs hI heffects
      refine (ih (heffects.scoped hs) (fun e he => ?_) hI' (fun e he db₁ db₂ h₁ => ?_)).imp
        (fun db'' h => ⟨h.1, h.2.1, hsame.trans h.2.2⟩) (fun _ _ => id)
      · rw [hsame.events]
        exact hlog e (List.mem_cons_of_mem ev he)
      · exact hstep e (List.mem_cons_of_mem ev he) db₁ db₂ (hsame.trans h₁)
    have hends : (applyInner db ev (ev.received_at.getD clock) clock).Ends _ _ :=
      applyInner_ends hs (hlog ev List.mem_cons_self)
    unfold replay
    generalize applyInner db ev (ev.received_at.getD clock) clock = out at hends ⊢
    match out, hends with
    | (db', .ok ()), heffects => exact hrest db' heffects
    | (db', .error _), ⟨⟨code, rfl⟩, heffects⟩ => exact hrest _ (heffects.tail .quarantine)

theorem mem_relationshipEvents (h : ev ∈ relationshipEvents db rid) :
    db.events.find ev.event_id = some ev ∧ ev.relationship_id = rid := by
  have hmem := (List.mem_insertionSort _).mp h
  obtain ⟨hrow, hrel⟩ := List.mem_filter.mp hmem
  exact ⟨Table.mem_iff_find.mp hrow, by simpa using hrel⟩

theorem rebuild_invariant {I : Database → Prop} (hs : Scoped db) (hI : I (wipe db rid))
    (hstep : ∀ ev, db.events.find ev.event_id = some ev → ev.relationship_id = rid →
      ∀ db₁ db₂, SameInputs db db₁ → Scoped db₁ → I db₁ →
      Effects ev.relationship_id (Dispatches db₁ ev) (ev.received_at.getD clock) db₁ db₂ → I db₂) :
    I (rebuildProjections db rid clock) ∧ Scoped (rebuildProjections db rid clock) ∧
      SameInputs db (rebuildProjections db rid clock) := by
  have hends : (replay clock (relationshipEvents db rid) (wipe db rid)).Ends _ _ :=
    replay_ends hs.wipe (fun ev hev => (mem_relationshipEvents hev).1) hI
      (fun ev hev db₁ db₂ h₁ => hstep ev (mem_relationshipEvents hev).1 (mem_relationshipEvents hev).2
        db₁ db₂ ((wipe_sameInputs db rid).trans h₁))
  unfold rebuildProjections
  generalize replay clock (relationshipEvents db rid) (wipe db rid) = out at hends ⊢
  match out, hends with
  | (db', .ok ()), ⟨hI', hs', hsame⟩ => exact ⟨hI', hs', (wipe_sameInputs db rid).trans hsame⟩

theorem Scoped.expire (hs : Scoped db) : Scoped (expirePendingRefs db rid now) where
  messages := by
    intro m hm
    simp only [expirePendingRefs, Table.mem_map] at hm
    obtain ⟨m₀, hm₀, rfl⟩ := hm
    split_ifs
    · exact hs.messages m₀ hm₀
    · exact hs.messages m₀ hm₀
  polls := hs.polls
  tasks := hs.tasks
  human_requests := hs.human_requests
  deliveries := hs.deliveries
  pending_refs := by
    intro r hr
    simp only [expirePendingRefs, Table.mem_map] at hr
    obtain ⟨r₀, hr₀, rfl⟩ := hr
    split_ifs
    · exact hs.pending_refs r₀ hr₀
    · exact hs.pending_refs r₀ hr₀
  revised i := by
    have hsome : ((expirePendingRefs db rid now).messages.find i).isSome =
        (db.messages.find i).isSome := by
      unfold expirePendingRefs
      rw [Table.isSome_find_map]
    rw [hsome]
    exact hs.revised i

theorem Scoped.inputs (hs : Scoped db) {relationships : Table Relationship.relationship_id}
    {human_approvals : Approvals} : Scoped { db with relationships, human_approvals } :=
  { hs with }

end invariant

theorem step_scoped {t : Node} {a : Act} (hs : Scoped s.db) (h : s.step a = some t) :
    Scoped t.db := by
  cases a with
  | pair rid peer =>
    obtain ⟨_, _, rfl⟩ := Option.map_eq_some_iff.mp h
    exact hs.inputs
  | approve approval =>
    obtain ⟨_, _, rfl⟩ := Option.map_eq_some_iff.mp h
    exact hs.inputs
  | send ev =>
    simp only [Node.step] at h
    split_ifs at h
    obtain ⟨db, hdb, rfl⟩ := Option.map_eq_some_iff.mp h
    exact hs.append hdb
  | receive ev now =>
    simp only [Node.step] at h
    split_ifs at h
    obtain ⟨db, hdb, rfl⟩ := Option.map_eq_some_iff.mp h
    exact hs.append hdb
  | project event_id clock =>
    obtain ⟨ev, hev, rfl⟩ := Option.map_eq_some_iff.mp h
    have hlog : s.db.events.find ev.event_id = some ev := by
      rw [Table.key_of_find hev]
      exact hev
    exact (projectEvent_effects hs hlog).scoped hs
  | rebuild rid clock =>
    rw [← Option.some.inj h]
    exact (rebuild_invariant (I := fun _ => True) hs trivial (fun _ _ _ _ _ _ _ _ _ => trivial)).2.1
  | expire rid now =>
    rw [← Option.some.inj h]
    exact hs.expire
  | pin event_id now =>
    simp only [Node.step, Option.bind_eq_some_iff] at h
    obtain ⟨ev, -, new, -, rel, -, h⟩ := h
    obtain ⟨rel', -, rfl⟩ := Option.map_eq_some_iff.mp h
    exact hs.inputs
  | rotate new =>
    rw [← Option.some.inj h]
    exact hs

theorem reachable_scoped (h : machine.Reachable s) : Scoped s.db := by
  refine h.invariant (P := fun s => Scoped s.db) (fun s hinit => ?_) (fun s a t hs _ hst => ?_)
  · rw [hinit.1]
    exact .initial
  · exact step_scoped hs hst

/-- A property of the database that the log may grow under, and that each step of
`apply_event`, a wipe and an expiry keep. -/
structure Kept (I : Database → Prop) : Prop where
  initial : I {}
  inputs : ∀ {db : Database} (relationships : Table Relationship.relationship_id) (human_approvals : Approvals),
    I db → I { db with relationships, human_approvals }
  append : ∀ {db db' : Database} {ev : Event}, Scoped db → I db → db.append ev = some db' → I db'
  effect : ∀ {rid : RelationshipId} {now : Nat} {db db' : Database}, Scoped db → I db →
    Effect rid (fun _ => True) now db db' → I db'
  wipe : ∀ {db : Database} (rid : RelationshipId), Scoped db → I db → I (wipe db rid)
  expire : ∀ {db : Database} (rid : RelationshipId) (now : Nat), Scoped db → I db → I (expirePendingRefs db rid now)

theorem Kept.effects (hI : Kept I) {rid : RelationshipId} {P : Event → Prop} {now : Nat}
    {db db' : Database} (hs : Scoped db) (h : I db)
    (heffects : Effects rid P now db db') : I db' := by
  refine (Effects.invariant (I := fun db => Scoped db ∧ I db) (heffects.mono (fun _ _ => trivial))
    (fun _ _ _ hboth heffect => ?_) ⟨hs, h⟩).2
  exact ⟨heffect.scoped hboth.1, hI.effect hboth.1 hboth.2 heffect⟩

theorem Kept.rebuild (hI : Kept I) {db : Database} (rid : RelationshipId) (clock : Nat)
    (hs : Scoped db) (h : I db) : I (rebuildProjections db rid clock) :=
  (rebuild_invariant (I := I) hs (hI.wipe rid hs h) (fun _ _ _ _ _ _ hs h heffects =>
    hI.effects hs h heffects)).1

/-- The rule for the runs of a node. -/
theorem Kept.reachable (hI : Kept I) (h : machine.Reachable s) : I s.db := by
  refine (h.invariant (P := fun s => Scoped s.db ∧ I s.db) (fun s hinit => ?_) (fun s a t hs _ hst => ?_)).2
  · rw [hinit.1]
    exact ⟨.initial, hI.initial⟩
  refine ⟨step_scoped hs.1 hst, ?_⟩
  obtain ⟨hs, h⟩ := hs
  have hst : s.step a = some t := hst
  cases a with
  | pair rid peer =>
    obtain ⟨_, _, rfl⟩ := Option.map_eq_some_iff.mp hst
    exact hI.inputs _ _ h
  | approve approval =>
    obtain ⟨_, _, rfl⟩ := Option.map_eq_some_iff.mp hst
    exact hI.inputs _ _ h
  | send ev =>
    simp only [Node.step] at hst
    split_ifs at hst
    obtain ⟨db, hdb, rfl⟩ := Option.map_eq_some_iff.mp hst
    exact hI.append hs h hdb
  | receive ev now =>
    simp only [Node.step] at hst
    split_ifs at hst
    obtain ⟨db, hdb, rfl⟩ := Option.map_eq_some_iff.mp hst
    exact hI.append hs h hdb
  | project event_id clock =>
    obtain ⟨ev, hev, rfl⟩ := Option.map_eq_some_iff.mp hst
    have hlog : s.db.events.find ev.event_id = some ev := by
      rw [Table.key_of_find hev]
      exact hev
    exact hI.effects hs h (projectEvent_effects hs hlog)
  | rebuild rid clock =>
    rw [← Option.some.inj hst]
    exact hI.rebuild rid clock hs h
  | expire rid now =>
    rw [← Option.some.inj hst]
    exact hI.expire rid now hs h
  | pin event_id now =>
    simp only [Node.step, Option.bind_eq_some_iff] at hst
    obtain ⟨ev, -, new, -, rel, -, hst⟩ := hst
    obtain ⟨rel', -, rfl⟩ := Option.map_eq_some_iff.mp hst
    exact hI.inputs _ _ h
  | rotate new =>
    rw [← Option.some.inj hst]
    exact h

end MuseAgentSocial.Store
