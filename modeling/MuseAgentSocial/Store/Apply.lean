import MuseAgentSocial.Store.Writes

/-!
# What applying an event does

`apply_event` dispatches the event, then the events that waited for it, and
moves the cursor of the sender.  `Effect rid P` lists its steps for an event of
the relationship `rid`: a write of an event that meets `P`, or a write to the
bookkeeping of `rid`.

* `resolvePending_ends` and `applyInner_ends`: these are all the steps, and a
  scoped database stays scoped.
* `Effects.scoped`: the rule for a run of such steps.
-/

namespace MuseAgentSocial.Store

open Model Crypto Policy

/-- One step of `apply_event`. -/
inductive Effect (rid : RelationshipId) (P : Event → Prop) (now : Nat) (db : Database) :
    Database → Prop where
  | write {e : Event} {db' : Database} (hlog : db.events.find e.event_id = some e) (hP : P e)
      (hwrite : Write e now db db') : Effect rid P now db db'
  | resolve {i : EventId} (hown : db.eventOf rid i = true) :
      Effect rid P now db
        { db with
            pending_refs := db.pending_refs.modify i (fun r => { r with state := .resolved })
              (fun _ => rfl) }
  | replyState {i : EventId} {reply_state : ReplyState} (hown : db.eventOf rid i = true) :
      Effect rid P now db
        { db with
            messages := db.messages.modify i (fun m => { m with reply_state := reply_state })
              (fun _ => rfl) }
  | quarantine {e : Event} {reason : QuarantineReason} {clock : Nat} :
      Effect rid P now db (quarantineEvent db e reason clock)
  | sequence {e : Event} (hrel : e.relationship_id = rid) :
      Effect rid P now db (updateSeqState db e now)

/-- Steps of `apply_event`, one after the other. -/
def Effects (rid : RelationshipId) (P : Event → Prop) (now : Nat) : Database → Database → Prop :=
  Relation.ReflTransGen (Effect rid P now)

section effects

variable {rid : RelationshipId} {P Q : Event → Prop} {now : Nat} {db db' db'' : Database}

theorem updateSeqState_eq (db : Database) (ev : Event) (observed_at : Nat) :
    ∃ projection_cursors sequence_gaps,
      updateSeqState db ev observed_at = { db with projection_cursors, sequence_gaps } := by
  unfold updateSeqState
  dsimp only
  split_ifs
  · exact ⟨_, _, rfl⟩
  · exact ⟨_, _, rfl⟩
  · exact ⟨_, _, rfl⟩
  · exact ⟨_, _, rfl⟩

theorem Effect.sameInputs (h : Effect rid P now db db') : SameInputs db db' := by
  cases h with
  | write hlog hP hwrite => exact hwrite.sameInputs
  | resolve hown => exact ⟨rfl, rfl, rfl⟩
  | replyState hown => exact ⟨rfl, rfl, rfl⟩
  | quarantine => exact ⟨rfl, rfl, rfl⟩
  | sequence =>
    obtain ⟨_, _, heq⟩ := updateSeqState_eq db ‹_› now
    rw [heq]
    exact ⟨rfl, rfl, rfl⟩

theorem Effect.scoped (h : Effect rid P now db db') (hs : Scoped db) : Scoped db' := by
  cases h with
  | write hlog hP hwrite => exact hwrite.scoped hs hlog
  | resolve hown =>
    refine { hs with pending_refs := hs.pending_refs.modify ?_ (fun _ => by rfl) }
    exact fun _ _ href => href
  | replyState hown =>
    refine hs.modifyMessage ?_ ?_
    exact fun _ => rfl
  | quarantine => exact { hs with }
  | sequence =>
    obtain ⟨_, _, heq⟩ := updateSeqState_eq db ‹_› now
    rw [heq]
    exact { hs with }

theorem Effects.refl : Effects rid P now db db := Relation.ReflTransGen.refl

theorem Effects.one (h : Effect rid P now db db') : Effects rid P now db db' :=
  Relation.ReflTransGen.single h

theorem Effects.trans (h : Effects rid P now db db') (h' : Effects rid P now db' db'') :
    Effects rid P now db db'' :=
  Relation.ReflTransGen.trans h h'

theorem Effects.sameInputs (h : Effects rid P now db db') : SameInputs db db' := by
  induction h with
  | refl => exact .refl db
  | tail _ heffect ih => exact ih.trans heffect.sameInputs

/-- The rule for a run of steps. -/
theorem Effects.invariant {I : Database → Prop} (h : Effects rid P now db db')
    (hstep : ∀ db₁ db₂, SameInputs db db₁ → I db₁ → Effect rid P now db₁ db₂ → I db₂) (hI : I db) :
    I db' := by
  induction h with
  | refl => exact hI
  | tail heffects heffect ih => exact hstep _ _ (Effects.sameInputs heffects) ih heffect

theorem Effects.scoped (h : Effects rid P now db db') (hs : Scoped db) : Scoped db' :=
  h.invariant (fun _ _ _ hs heffect => heffect.scoped hs) hs

theorem Effect.mono (hPQ : ∀ e, P e → Q e) (h : Effect rid P now db db') : Effect rid Q now db db' := by
  cases h with
  | write hlog hP hwrite => exact .write hlog (hPQ _ hP) hwrite
  | resolve hown => exact .resolve hown
  | replyState hown => exact .replyState hown
  | quarantine => exact .quarantine
  | sequence hrel => exact .sequence hrel

theorem Effects.mono (hPQ : ∀ e, P e → Q e) (h : Effects rid P now db db') :
    Effects rid Q now db db' := by
  induction h with
  | refl => exact .refl
  | tail _ heffect ih => exact ih.tail (heffect.mono hPQ)

theorem Writes.effects {ev : Event} (h : Writes ev now db db')
    (hlog : db.events.find ev.event_id = some ev) (hP : P ev) : Effects rid P now db db' := by
  induction h with
  | refl => exact .refl
  | tail hwrites hwrite ih =>
    refine ih.tail (.write ?_ hP hwrite)
    rw [(Writes.sameInputs hwrites).events]
    exact hlog

end effects

/-! ## The events that waited -/

/-- The event waits for the target: it has a pending reference of a kind that
is dispatched again. -/
def Waits (db : Database) (rid : RelationshipId) (target : EventId) (e : Event) : Prop :=
  ∃ ref ∈ pendingRefs db rid target, ref.kind ≠ .reply ∧ db.events.find ref.event_id = some e

section apply

variable {rid : RelationshipId} {P : Event → Prop} {now clock : Nat} {db : Database}
  {target : EventId}

theorem Waits.names {e : Event} (h : Waits db rid target e) (hs : Scoped db) :
    e.relationship_id = rid ∧ ∃ kind, e.payload.target = some (kind, target) := by
  obtain ⟨ref, href, hkind, he⟩ := h
  obtain ⟨hmem, hsel⟩ := List.mem_filter.mp href
  obtain ⟨hrel, htarget, -⟩ : ref.relationship_id = rid ∧ ref.target_event_id = target ∧
    ref.state = .pending := by simpa using hsel
  obtain ⟨e', he', hrel', htarget'⟩ := hs.pending_refs ref hmem
  rw [he] at he'
  obtain rfl := Option.some.inj he'
  refine ⟨hrel'.trans hrel, ref.kind, ?_⟩
  rw [htarget' hkind, htarget]

/-- One reference: it is resolved, and its event is dispatched unless it is a
reply.  A `ProjectionError` of the event is caught. -/
theorem resolveRef_ends {ref : PendingRef} (hs : Scoped db) (hown : db.eventOf rid ref.event_id = true)
    (hP : ref.kind ≠ .reply → ∀ e, db.events.find ref.event_id = some e → P e) :
    (resolveRef db rid target ref now clock).Ends (Effects rid P now db) (fun _ _ => False) := by
  have hresolve : Effects rid P now db { db with
      pending_refs := db.pending_refs.modify ref.event_id (fun r => { r with state := .resolved })
        (fun _ => rfl) } := .one (.resolve hown)
  have hs' := hresolve.scoped hs
  unfold resolveRef
  dsimp only
  split_ifs with hreply
  · refine hresolve.tail ?_
    exact .replyState hown
  · split
    · exact hresolve
    · rename_i e he
      have hkey := Table.key_of_find he
      have hlog : db.events.find e.event_id = some e := by rw [hkey]; exact he
      have hPe := hP hreply e he
      have hends : (dispatch _ e now).Ends (Writes e now _) (Rejected e now _) :=
        dispatch_ends hs' hlog
      generalize dispatch _ e now = out at hends ⊢
      obtain ⟨db', failure | _⟩ := out
      · obtain ⟨⟨code, rfl⟩, hw⟩ := hends
        exact (hresolve.trans (Writes.effects hw hlog hPe)).tail .quarantine
      · exact hresolve.trans (Writes.effects hends hlog hPe)

/-- What one round leaves: the reference is resolved, and then a reply has its state or the
event has been handled. -/
inductive Resolved (ref : PendingRef) (now : Nat) (db : Database) : Database → Prop where
  | reply {reply_state : ReplyState} (hkind : ref.kind = .reply) :
      Resolved ref now db { db with
        pending_refs := db.pending_refs.modify ref.event_id (fun r => { r with state := .resolved }) (fun _ => rfl)
        messages := db.messages.modify ref.event_id (fun m => { m with reply_state := reply_state }) (fun _ => rfl) }
  | handled {e : Event} {db' : Database} (hkind : ref.kind ≠ .reply) (hlog : db.events.find ref.event_id = some e)
      (hwrites : Writes e now { db with
        pending_refs := db.pending_refs.modify ref.event_id (fun r => { r with state := .resolved })
          (fun _ => rfl) } db') : Resolved ref now db db'
  | rejected {e : Event} {db' : Database} {code : ProjectionCode} {clock : Nat} (hkind : ref.kind ≠ .reply)
      (hlog : db.events.find ref.event_id = some e)
      (hwrites : Writes e now { db with
        pending_refs := db.pending_refs.modify ref.event_id (fun r => { r with state := .resolved })
          (fun _ => rfl) } db') : Resolved ref now db (quarantineEvent db' e (.rejected code) clock)

theorem resolveRef_resolved {ref : PendingRef} (hs : Scoped db) (hown : db.eventOf rid ref.event_id = true) :
    (resolveRef db rid target ref now clock).Ends (Resolved ref now db) (fun _ _ => False) := by
  obtain ⟨e, he, -⟩ := eventOf_iff.mp hown
  have hs' : Scoped { db with
      pending_refs := db.pending_refs.modify ref.event_id (fun r => { r with state := .resolved })
        (fun _ => rfl) } :=
    (show Effect rid (fun _ => True) now db _ from .resolve hown).scoped hs
  have hlog : db.events.find e.event_id = some e := by
    rw [Table.key_of_find he]
    exact he
  unfold resolveRef
  dsimp only
  split_ifs with hkind
  · exact .reply hkind
  · rw [he]
    have hends : (dispatch _ e now).Ends (Writes e now _) (Rejected e now _) := dispatch_ends hs' hlog
    dsimp only
    generalize dispatch _ e now = out at hends ⊢
    obtain ⟨db', failure | _⟩ := out
    · obtain ⟨⟨code, rfl⟩, hw⟩ := hends
      exact .rejected hkind he hw
    · exact .handled hkind he hends

/-- The rule for the loop with the references that remain. -/
theorem resolveRefs_rule {I : List PendingRef → Database → Prop} {refs : List PendingRef} (hI : I refs db)
    (hstep : ∀ ref refs db, I (ref :: refs) db →
      (resolveRef db rid target ref now clock).Ends (I refs) (fun _ _ => False)) :
    (resolveRefs rid target now clock refs db).Ends (I []) (fun _ _ => False) := by
  induction refs generalizing db with
  | nil => exact hI
  | cons ref refs ih => exact (hstep ref refs db hI).andThen (fun db' hI' => ih hI')

/-- The loop over the references that were fetched. -/
theorem resolveRefs_ends {refs : List PendingRef} (hs : Scoped db)
    (hown : ∀ ref ∈ refs, db.eventOf rid ref.event_id = true)
    (hP : ∀ ref ∈ refs, ref.kind ≠ .reply → ∀ e, db.events.find ref.event_id = some e → P e) :
    (resolveRefs rid target now clock refs db).Ends (Effects rid P now db) (fun _ _ => False) := by
  induction refs generalizing db with
  | nil => exact Effects.refl
  | cons ref refs ih =>
    have hfirst : (resolveRef db rid target ref now clock).Ends (Effects rid P now db)
        (fun _ _ => False) :=
      resolveRef_ends hs (hown ref List.mem_cons_self) (hP ref List.mem_cons_self)
    refine hfirst.andThen (fun db' heffects => ?_)
    have hevents := heffects.sameInputs.events
    refine (ih (heffects.scoped hs) (fun r hr => ?_) (fun r hr hkind e he => ?_)).imp
      (fun db'' heffects' => heffects.trans heffects') (fun _ _ => id)
    · have h := hown r (List.mem_cons_of_mem ref hr)
      unfold Database.eventOf at h ⊢
      rw [hevents]
      exact h
    · rw [hevents] at he
      exact hP r (List.mem_cons_of_mem ref hr) hkind e he

/-- The rule for the loop: what the steps for a reference keep, and the writes
of the events that waited. -/
theorem resolveRefs_invariant {I : Database → Prop} {refs : List PendingRef} (hs : Scoped db)
    (hown : ∀ ref ∈ refs, db.eventOf rid ref.event_id = true) (hI : I db)
    (hresolve : ∀ ref ∈ refs, ∀ db₁, I db₁ → I { db₁ with
      pending_refs := db₁.pending_refs.modify ref.event_id (fun r => { r with state := .resolved })
        (fun _ => rfl) })
    (hreply : ∀ ref ∈ refs, ∀ db₁ reply_state, I db₁ → I { db₁ with
      messages := db₁.messages.modify ref.event_id (fun m => { m with reply_state := reply_state })
        (fun _ => rfl) })
    (hwrite : ∀ ref ∈ refs, ref.kind ≠ .reply → ∀ e, db.events.find ref.event_id = some e →
      ∀ db₁ db₂, SameInputs db db₁ → I db₁ → Write e now db₁ db₂ → I db₂)
    (hquarantine : ∀ db₁ e reason, I db₁ → I (quarantineEvent db₁ e reason clock)) :
    (resolveRefs rid target now clock refs db).Ends I (fun _ _ => False) := by
  have hwrites : ∀ ref ∈ refs, ref.kind ≠ .reply → ∀ e, db.events.find ref.event_id = some e →
      ∀ db₁ db₂, SameInputs db db₁ → I db₁ → Writes e now db₁ db₂ → I db₂ := by
    intro ref href hkind e he db₁ db₂ hsame hI₁ hw
    induction hw with
    | refl => exact hI₁
    | tail hws hw ih => exact hwrite ref href hkind e he _ _ (hsame.trans (Writes.sameInputs hws)) ih hw
  clear hwrite
  -- Along the loop the inputs are those of the first database.
  suffices ∀ refs' ⊆ refs, ∀ db₁, SameInputs db db₁ → Scoped db₁ → I db₁ →
      (resolveRefs rid target now clock refs' db₁).Ends I (fun _ _ => False) from
    this refs (List.Subset.refl refs) db (.refl db) hs hI
  intro refs'
  induction refs' with
  | nil => exact fun _ db₁ _ _ hI₁ => hI₁
  | cons ref refs' ih =>
    intro hsub db₁ hsame hs₁ hI₁
    have href := hsub List.mem_cons_self
    have hown₁ : db₁.eventOf rid ref.event_id = true := by
      have h := hown ref href
      unfold Database.eventOf at h ⊢
      rw [hsame.events]
      exact h
    have hends : (resolveRef db₁ rid target ref now clock).Ends
        (Effects rid (fun _ => True) now db₁) (fun _ _ => False) :=
      resolveRef_ends hs₁ hown₁ (fun _ _ _ => trivial)
    have hfirst : (resolveRef db₁ rid target ref now clock).Ends I (fun _ _ => True) := by
      have hI₂ := hresolve ref href db₁ hI₁
      have hs₂ : Scoped { db₁ with
          pending_refs := db₁.pending_refs.modify ref.event_id
            (fun r => { r with state := .resolved }) (fun _ => rfl) } :=
        (show Effect rid (fun _ => True) now db₁ _ from .resolve hown₁).scoped hs₁
      unfold resolveRef
      dsimp only
      split_ifs with hkind
      · exact hreply ref href _ _ hI₂
      · split
        · exact hI₂
        · rename_i e he
          have hlog : db₁.events.find e.event_id = some e := by
            rw [Table.key_of_find he]
            exact he
          have hw := hwrites ref href hkind e (by rw [← hsame.events]; exact he)
            { db₁ with
                pending_refs := db₁.pending_refs.modify ref.event_id
                  (fun r => { r with state := .resolved }) (fun _ => rfl) }
          have hdispatch : (dispatch _ e now).Ends (Writes e now _) (Rejected e now _) :=
            dispatch_ends hs₂ hlog
          generalize dispatch _ e now = out at hdispatch ⊢
          obtain ⟨db', failure | _⟩ := out
          · obtain ⟨⟨code, rfl⟩, hws⟩ := hdispatch
            exact hquarantine _ _ _ (hw db' ⟨hsame.1, hsame.2, hsame.3⟩ hI₂ hws)
          · exact hw db' ⟨hsame.1, hsame.2, hsame.3⟩ hI₂ hdispatch
    unfold resolveRefs
    generalize resolveRef db₁ rid target ref now clock = out at hends hfirst ⊢
    obtain ⟨db', failure | _⟩ := out
    · exact hends.elim
    · exact ih (fun r hr => hsub (List.mem_cons_of_mem ref hr)) db'
        (hsame.trans (Effects.sameInputs hends)) (Effects.scoped hends hs₁) hfirst

/-- The references that wait are of the relationship. -/
theorem pendingRefs_eventOf {ref : PendingRef} (hs : Scoped db) (href : ref ∈ pendingRefs db rid target) :
    db.eventOf rid ref.event_id = true := by
  obtain ⟨hmem, hsel⟩ := List.mem_filter.mp href
  obtain ⟨e, he, hrel, -⟩ := hs.pending_refs ref hmem
  simp only [decide_eq_true_eq] at hsel
  exact eventOf_iff.mpr ⟨e, he, hrel.trans hsel.1⟩

/-- `_resolve_pending` raises nothing, and dispatches only events that waited. -/
theorem resolvePending_ends (hs : Scoped db) :
    (resolvePending db rid target now clock).Ends (Effects rid (Waits db rid target) now db)
      (fun _ _ => False) := by
  refine resolveRefs_ends hs (fun ref href => pendingRefs_eventOf hs href)
    (fun ref href hkind e he => ?_)
  exact ⟨ref, href, hkind, he⟩

/-! ## One event -/

/-- The events that `apply_event` dispatches: the event, and those that waited
for it. -/
def Dispatches (db : Database) (ev e : Event) : Prop :=
  e = ev ∨ Waits db ev.relationship_id ev.event_id e

/-- A handler sets aside only its own event. -/
theorem Write.pending_refs {ev : Event} {db' : Database} (h : Write ev now db db') {ref : PendingRef}
    (href : ref ∈ db'.pending_refs.rows) :
    ref ∈ db.pending_refs.rows ∨ ref.event_id = ev.event_id := by
  have hadd : ∀ {target : EventId} {kind : RefKind},
      ref ∈ (addPending db ev target kind).pending_refs.rows →
        ref ∈ db.pending_refs.rows ∨ ref.event_id = ev.event_id := by
    intro target kind href
    rcases Table.mem_insertOrIgnore.mp href with hold | ⟨rfl, -⟩
    · exact Or.inl hold
    · exact Or.inr rfl
  cases h with
  | pending htarget => exact hadd href
  | reply hopens => exact hadd href
  | thread hopens hjoins =>
    obtain ⟨_, _, heq⟩ := registerThread_eq db ev ‹_›
    rw [heq] at href
    exact Or.inl href
  | message hpayload hmessages hrevisions =>
    obtain ⟨_, heq⟩ := bumpThreadMessage_eq _ ev.thread_id ev.created_at
    rw [heq] at href
    exact Or.inl href
  | _ => exact Or.inl href

/-- The references that a handler sets aside come last. -/
theorem Write.pending_rows {ev : Event} {db' : Database} (h : Write ev now db db') :
    ∃ extra, db'.pending_refs.rows = db.pending_refs.rows ++ extra ∧
      ∀ r ∈ extra, r.event_id = ev.event_id ∧ r.relationship_id = ev.relationship_id := by
  have hadd : ∀ {target : EventId} {kind : RefKind}, ∃ extra,
      (addPending db ev target kind).pending_refs.rows = db.pending_refs.rows ++ extra ∧
        ∀ r ∈ extra, r.event_id = ev.event_id ∧ r.relationship_id = ev.relationship_id := by
    intro target kind
    unfold addPending
    dsimp only
    rw [Table.rows_insertOrIgnore]
    split_ifs
    · exact ⟨[], (List.append_nil _).symm, fun r hr => absurd hr List.not_mem_nil⟩
    · refine ⟨_, rfl, fun r hr => ?_⟩
      rw [List.mem_singleton.mp hr]
      exact ⟨rfl, rfl⟩
  have hsame : ∃ extra, db.pending_refs.rows = db.pending_refs.rows ++ extra ∧
      ∀ r ∈ extra, r.event_id = ev.event_id ∧ r.relationship_id = ev.relationship_id :=
    ⟨[], (List.append_nil _).symm, fun r hr => absurd hr List.not_mem_nil⟩
  cases h with
  | pending htarget => exact hadd
  | reply hopens => exact hadd
  | thread hopens hjoins =>
    obtain ⟨_, _, heq⟩ := registerThread_eq db ev ‹_›
    rw [heq]
    exact hsame
  | message hpayload hmessages hrevisions =>
    obtain ⟨_, heq⟩ := bumpThreadMessage_eq _ ev.thread_id ev.created_at
    rw [heq]
    exact hsame
  | _ => exact hsame

theorem Writes.pending_rows {ev : Event} {db' : Database} (h : Writes ev now db db') :
    ∃ extra, db'.pending_refs.rows = db.pending_refs.rows ++ extra ∧
      ∀ r ∈ extra, r.event_id = ev.event_id ∧ r.relationship_id = ev.relationship_id := by
  induction h with
  | refl => exact ⟨[], (List.append_nil _).symm, fun r hr => absurd hr List.not_mem_nil⟩
  | tail _ hwrite ih =>
    obtain ⟨extra, heq, hall⟩ := ih
    obtain ⟨more, heq', hall'⟩ := hwrite.pending_rows
    refine ⟨extra ++ more, by rw [heq', heq, List.append_assoc], fun r hr => ?_⟩
    exact (List.mem_append.mp hr).elim (hall r) (hall' r)

theorem Writes.waits {ev e : Event} {db' : Database} (h : Writes ev now db db')
    (hlog : db.events.find ev.event_id = some ev) (hwaits : Waits db' rid target e) :
    e = ev ∨ Waits db rid target e := by
  obtain ⟨ref, href, hkind, he⟩ := hwaits
  obtain ⟨hmem, hsel⟩ := List.mem_filter.mp href
  rw [h.sameInputs.events] at he
  have hold : ref ∈ db.pending_refs.rows ∨ ref.event_id = ev.event_id := by
    clear href hsel he
    induction h with
    | refl => exact Or.inl hmem
    | tail _ hwrite ih =>
      rcases hwrite.pending_refs hmem with hmem | hid
      · exact ih hmem
      · exact Or.inr hid
  rcases hold with hold | hid
  · exact Or.inr ⟨ref, List.mem_filter.mpr ⟨hold, hsel⟩, hkind, he⟩
  · rw [hid, hlog] at he
    exact Or.inl (Option.some.inj he).symm

/-- `apply_event` takes steps for the event and for those that waited for it,
and raises nothing but a `ProjectionError`. -/
theorem applyInner_ends {ev : Event} (hs : Scoped db) (hlog : db.events.find ev.event_id = some ev) :
    (applyInner db ev now clock).Ends
      (Effects ev.relationship_id (Dispatches db ev) now db)
      (fun failure db' => (∃ code, failure = .projection code) ∧
        Effects ev.relationship_id (Dispatches db ev) now db db') := by
  unfold applyInner
  split_ifs
  · exact .one .quarantine
  · have hdispatch : (dispatch db ev now).Ends (Writes ev now db)
        (fun failure db' => (∃ code, failure = .projection code) ∧
          Effects ev.relationship_id (Dispatches db ev) now db db') :=
      (dispatch_ends hs hlog).imp (fun _ hw => hw)
        (fun _ _ hrej => ⟨hrej.1, Writes.effects hrej.2 hlog (Or.inl rfl)⟩)
    refine hdispatch.andThen (fun db' hw => ?_)
    have hown : Effects ev.relationship_id (Dispatches db ev) now db db' :=
      Writes.effects hw hlog (Or.inl rfl)
    have hresolve : (resolvePending db' ev.relationship_id ev.event_id now clock).Ends
        (Effects ev.relationship_id (Dispatches db ev) now db) (fun _ _ => False) :=
      (resolvePending_ends (hown.scoped hs)).imp
        (fun db'' heffects => hown.trans (heffects.mono (fun e he => hw.waits hlog he)))
        (fun _ _ => id)
    refine (hresolve.imp (fun _ => id) (fun _ _ => False.elim)).andThen (fun db'' heffects => ?_)
    exact heffects.tail (.sequence rfl)

/-- The projection transaction leaves what `apply_event` leaves, or a rolled-back
store with a quarantine row. -/
theorem projectEvent_effects {ev : Event} (hs : Scoped db)
    (hlog : db.events.find ev.event_id = some ev) :
    Effects ev.relationship_id (Dispatches db ev) (ev.received_at.getD clock) db
      (projectEvent db ev clock) := by
  have hends : (applyEvent db ev clock).Ends _ _ := applyInner_ends hs hlog
  unfold projectEvent
  generalize applyEvent db ev clock = out at hends ⊢
  match out, hends with
  | (db', .ok ()), heffects => exact heffects
  | (db', .error _), ⟨⟨code, rfl⟩, _⟩ => exact .one .quarantine

end apply

end MuseAgentSocial.Store
