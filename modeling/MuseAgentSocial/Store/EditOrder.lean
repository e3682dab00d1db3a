import MuseAgentSocial.Store.Messages

/-!
# The order of edits

The body of a message is that of the edit that was applied last.

* `Applied`: the edits that the revisions of a message name.
* `Ascending`: later revisions have later numbers of their sender.
* `Converged`: the body is that of the applied edit with the highest number.
* `Fits` and `InOrder`: what a list of events to be projected must meet for the revisions
  to stay ascending.
* `edits_converge`: along the runs that project and rebuild in order, in every store.
-/

namespace MuseAgentSocial.Store

open Model Crypto Policy

/-! ## Applied edits -/

/-- The message that an event edits. -/
def Event.edits (ev : Event) : Option EventId :=
  match ev.payload with
  | .messageEdited target _ _ => some target
  | _ => none

/-- The revisions of the message name the edit, the test of `_handle_message_edited`. -/
def applied (db : Database) (i : EventId) (edit : EventId) : Bool :=
  db.message_revisions.rows.any (fun r => r.event_id = i ∧ r.edit_event_id = some edit)

/-- A logged edit that is applied to the message. -/
def Applied (db : Database) (i : EventId) (e : Event) : Prop :=
  db.events.find e.event_id = some e ∧ applied db i e.event_id = true

/-- The revisions of a message follow the numbers of the edits. -/
def Ascending (db : Database) : Prop :=
  ∀ r ∈ db.message_revisions.rows, ∀ r' ∈ db.message_revisions.rows, r.event_id = r'.event_id →
    r.revision_no < r'.revision_no → ∀ e e', db.events.find e.event_id = some e →
    db.events.find e'.event_id = some e' → r.edit_event_id = some e.event_id →
    r'.edit_event_id = some e'.event_id → e.sender_seq < e'.sender_seq

/-- The applied edit with the highest number. -/
def HighestEdit (db : Database) (i : EventId) (e : Event) : Prop :=
  Applied db i e ∧ ∀ e', Applied db i e' → e'.sender_seq ≤ e.sender_seq

/-- The body of a message is the one of its highest edit. -/
def Converged (db : Database) : Prop :=
  ∀ m ∈ db.messages.rows, ∀ e, HighestEdit db m.event_id e →
    ∃ reason, e.payload = .messageEdited m.event_id m.current_body reason

section applied

variable {db db' : Database} {i : EventId} {e f : Event} {now : Nat}

theorem applied_iff {edit : EventId} :
    applied db i edit = true ↔ ∃ r ∈ db.message_revisions.rows, r.event_id = i ∧ r.edit_event_id = some edit := by
  simp [applied]

theorem revision_edit (hs : Scoped db) (h : AllRepresented db) {r : Revision} (hr : r ∈ db.message_revisions.rows)
    {j : EventId} (hedit : r.edit_event_id = some j) :
    ∃ (m : Message) (e : Event), db.messages.find r.event_id = some m ∧ db.events.find j = some e ∧ e.sender = m.sender ∧
      e.payload = .messageEdited r.event_id r.body r.reason ∧ 0 < r.revision_no := by
  obtain ⟨m, hm⟩ := Option.isSome_iff_exists.mp ((hs.revised r.event_id).mpr ⟨r, hr, rfl⟩)
  have hid : m.event_id = r.event_id := Table.key_of_find hm
  obtain ⟨-, ⟨n, hrevised⟩, -⟩ := h m (Table.find_eq_some.mp hm).1
  have hfind : db.message_revisions.find (m.event_id, r.revision_no) = some r := by
    rw [hid]
    exact Table.mem_iff_find.mp hr
  have hpos : 0 < r.revision_no := by
    refine Nat.pos_of_ne_zero (fun hzero => ?_)
    rw [hzero] at hfind
    rw [(hrevised.original r hfind).2] at hedit
    exact Option.some_ne_none _ hedit.symm
  obtain ⟨e, he, hedit', hsender, hpayload⟩ := hrevised.authored r.revision_no r hfind hpos
  rw [Option.some.inj (hedit'.symm.trans hedit)] at he
  rw [hid] at hpayload
  exact ⟨m, e, hm, he, hsender, hpayload, hpos⟩

theorem Applied.edited (hs : Scoped db) (h : AllRepresented db) (happlied : Applied db i e) :
    ∃ m, db.messages.find i = some m ∧ e.sender = m.sender ∧ e.edits = some i := by
  obtain ⟨hlog, happlied⟩ := happlied
  obtain ⟨r, hr, rfl, hedit⟩ := applied_iff.mp happlied
  obtain ⟨m, e', hm, he', hsender, hpayload, -⟩ := revision_edit hs h hr hedit
  obtain rfl := Option.some.inj (he'.symm.trans hlog)
  exact ⟨m, hm, hsender, by rw [Event.edits, hpayload]⟩

/-- Ascending revisions end with the highest edit. -/
theorem Ascending.converged (hs : Scoped db) (h : AllRepresented db) (hascending : Ascending db) : Converged db := by
  rintro m hm e ⟨⟨hlog, happlied⟩, hhighest⟩
  obtain ⟨r, hr, hid, hedit⟩ := applied_iff.mp happlied
  obtain ⟨-, e₀, -, he₀, -, hpayload, hpos⟩ := revision_edit hs h hr hedit
  rw [Option.some.inj (he₀.symm.trans hlog)] at hpayload
  obtain ⟨-, ⟨n, hrevised⟩, -⟩ := h m hm
  have hfind : db.message_revisions.find (m.event_id, r.revision_no) = some r := by
    rw [← hid]
    exact Table.mem_iff_find.mp hr
  have hle : r.revision_no ≤ n := (hrevised.numbered _).mp (by rw [hfind]; rfl)
  -- The newest revision names an edit, which has no higher number.
  obtain ⟨r', hr'⟩ := Option.isSome_iff_exists.mp ((hrevised.numbered n).mpr le_rfl)
  obtain ⟨hmem', hkey'⟩ := Table.find_eq_some.mp hr'
  obtain ⟨hid', hno'⟩ := Prod.mk.inj hkey'
  obtain ⟨e', he', hedit', -⟩ := hrevised.authored n r' hr' (by omega)
  have hlast : r.revision_no = n := by
    refine le_antisymm hle (not_lt.mp (fun hlt => ?_))
    have hless := hascending r hr r' hmem' (hid.trans hid'.symm) (by omega) e e' hlog he' hedit hedit'
    have hmax := hhighest e' ⟨he', applied_iff.mpr ⟨r', hmem', hid', hedit'⟩⟩
    omega
  rw [hlast] at hfind
  rw [hid, hrevised.current r hfind] at hpayload
  exact ⟨r.reason, hpayload⟩

/-! ## One dispatched event -/

/-- The event is no edit that would be applied below a higher one. -/
def fits (db : Database) (f : Event) : Bool :=
  f.edits.all fun i => (db.messages.find i).all fun m =>
    m.sender ≠ f.sender ∨ m.retracted = true ∨ applied db i f.event_id = true ∨
      ∀ e ∈ db.events.rows, applied db i e.event_id = true → e.sender_seq < f.sender_seq

theorem fits_iff : fits db f = true ↔ ∀ i m, f.edits = some i → db.messages.find i = some m →
    m.sender = f.sender → m.retracted = false → applied db i f.event_id = false →
    ∀ e, Applied db i e → e.sender_seq < f.sender_seq := by
  unfold fits
  cases hedits : f.edits with
  | none => simp
  | some i =>
    rw [Option.all_some]
    cases hm : db.messages.find i with
    | none =>
      refine iff_of_true rfl (fun i' m' hi hm' => ?_)
      rw [← Option.some.inj hi, hm] at hm'
      exact absurd hm' (Option.some_ne_none m').symm
    | some m =>
      rw [Option.all_some, decide_eq_true_eq]
      constructor
      · rintro h i' m' hi hm' hsender hretracted hunseen e ⟨hlog, happlied⟩
        obtain rfl := Option.some.inj hi
        obtain rfl := Option.some.inj (hm.symm.trans hm')
        rcases h with hother | hgone | hseen | hall
        · exact absurd hsender hother
        · rw [hretracted] at hgone
          exact absurd hgone Bool.false_ne_true
        · rw [hunseen] at hseen
          exact absurd hseen Bool.false_ne_true
        · exact hall e (Table.find_eq_some.mp hlog).1 happlied
      · intro h
        by_cases hsender : m.sender = f.sender
        · right
          cases hretracted : m.retracted with
          | true => exact Or.inl rfl
          | false =>
            right
            cases hunseen : applied db i f.event_id with
            | true => exact Or.inl rfl
            | false =>
              right
              intro e he happlied
              exact h i m rfl hm hsender hretracted hunseen e ⟨Table.mem_iff_find.mp he, happlied⟩
        · exact Or.inl hsender

/-- What the events that meet `P` do to messages and to the edits that are applied. -/
structure EditsBy (P : Event → Prop) (db db' : Database) : Prop where
  events : db'.events = db.events
  grows : ∀ i j, applied db i j = true → applied db' i j = true
  names : ∀ i j, applied db' i j = true → applied db i j = true ∨ ∃ e, P e ∧ e.event_id = j ∧ e.edits = some i
  keeps : ∀ i m, db.messages.find i = some m → ∃ m', db'.messages.find i = some m' ∧ m'.sender = m.sender ∧
    (m.retracted = true → m'.retracted = true)
  created : ∀ i, (db'.messages.find i).isSome = true → (db.messages.find i).isSome = true ∨
    ∃ e, P e ∧ e.event_id = i ∧ e.payload.eventType = .messageCreated

variable {P Q : Event → Prop} {db'' : Database}

theorem EditsBy.refl (db : Database) : EditsBy P db db :=
  ⟨rfl, fun _ _ => id, fun _ _ => Or.inl, fun _ m hm => ⟨m, hm, rfl, id⟩, fun _ => Or.inl⟩

theorem EditsBy.trans (h : EditsBy P db db') (h' : EditsBy P db' db'') : EditsBy P db db'' where
  events := h'.events.trans h.events
  grows i j hij := h'.grows i j (h.grows i j hij)
  names i j hij := (h'.names i j hij).elim (h.names i j) Or.inr
  keeps i m hm := by
    obtain ⟨m', hm', hsender, hretracted⟩ := h.keeps i m hm
    obtain ⟨m'', hm'', hsender', hretracted'⟩ := h'.keeps i m' hm'
    exact ⟨m'', hm'', hsender'.trans hsender, hretracted' ∘ hretracted⟩
  created i hi := (h'.created i hi).elim (h.created i) Or.inr

theorem EditsBy.mono (hPQ : ∀ e, P e → Q e) (h : EditsBy P db db') : EditsBy Q db db' where
  events := h.events
  grows := h.grows
  names i j hij := (h.names i j hij).imp_right (fun ⟨e, he, hrest⟩ => ⟨e, hPQ e he, hrest⟩)
  keeps := h.keeps
  created i hi := (h.created i hi).imp_right (fun ⟨e, he, hrest⟩ => ⟨e, hPQ e he, hrest⟩)

theorem EditsBy.of_same (hevents : db'.events = db.events) (hmessages : db'.messages = db.messages)
    (hrevisions : db'.message_revisions = db.message_revisions) : EditsBy P db db' where
  events := hevents
  grows i j := by
    unfold applied
    rw [hrevisions]
    exact id
  names i j := by
    unfold applied
    rw [hrevisions]
    exact Or.inl
  keeps i m hm := ⟨m, hmessages ▸ hm, rfl, id⟩
  created i := by
    rw [hmessages]
    exact Or.inl

/-- An update that changes neither the sender of a message nor that it is retracted. -/
theorem EditsBy.modify {j : EventId} {g : Message → Message} {hg : ∀ m, (g m).event_id = m.event_id}
    (hsame : ∀ m, (g m).sender = m.sender ∧ (m.retracted = true → (g m).retracted = true)) :
    EditsBy P db { db with messages := db.messages.modify j g hg } where
  events := rfl
  grows _ _ := id
  names _ _ := Or.inl
  keeps i m hm := by
    dsimp only
    rw [Table.find_modify]
    split_ifs with hij
    · rw [← hij, hm]
      exact ⟨g m, rfl, hsame m⟩
    · exact ⟨m, hm, rfl, id⟩
  created i hi := by
    dsimp only at hi
    rw [Table.isSome_find_modify] at hi
    exact Or.inl hi

theorem applied_insert {r : Revision} {message_revisions : Table Revision.key}
    (hrevisions : db.message_revisions.insert r = some message_revisions) (i j : EventId) :
    message_revisions.rows.any (fun r => r.event_id = i ∧ r.edit_event_id = some j) = true ↔
      applied db i j = true ∨ (r.event_id = i ∧ r.edit_event_id = some j) := by
  rw [(Table.insert_eq_some hrevisions).2, List.any_append]
  simp [applied]

theorem Write.editsBy (h : Write f now db db') : EditsBy (· = f) db db' := by
  cases h with
  | thread hopens hjoins =>
    obtain ⟨_, _, heq⟩ := registerThread_eq db f ‹_›
    rw [heq]
    exact .of_same rfl rfl rfl
  | message hpayload hmessages hrevisions hopened =>
    obtain ⟨_, heq⟩ := bumpThreadMessage_eq _ f.thread_id f.created_at
    rw [heq]
    have happlied := applied_insert hrevisions
    refine ⟨rfl, fun i j hij => (happlied i j).mpr (Or.inl hij), fun i j hij => ?_, fun i m hm => ?_, fun i hi => ?_⟩
    · refine ((happlied i j).mp hij).imp_right (fun hnew => ?_)
      exact absurd hnew.2.symm (Option.some_ne_none j)
    · refine ⟨m, (Table.find_of_insert hmessages i).trans ?_, rfl, id⟩
      rw [if_neg, hm]
      rintro rfl
      exact absurd (hm.symm.trans (Table.insert_eq_some hmessages).1) (Option.some_ne_none m)
    · have hi := (congrArg Option.isSome (Table.find_of_insert hmessages i)).symm.trans hi
      by_cases hid : i = f.event_id
      · exact Or.inr ⟨f, rfl, hid.symm, by rw [hpayload]; rfl⟩
      · rw [if_neg (by exact hid)] at hi
        exact Or.inl hi
  | edit hpayload hm hsender hretracted hrevisions hnewest hunseen =>
    rename_i target body reason m newest message_revisions
    have happlied := applied_insert hrevisions
    have hmodify : EditsBy (· = f) db { db with
        messages := db.messages.modify target (fun m => { m with edited := true, current_body := body })
          (fun _ => rfl) } := .modify (fun _ => ⟨rfl, id⟩)
    refine ⟨rfl, fun i j hij => (happlied i j).mpr (Or.inl hij), fun i j hij => ?_, hmodify.keeps, hmodify.created⟩
    refine ((happlied i j).mp hij).imp_right (fun hnew => ⟨f, rfl, Option.some.inj hnew.2, ?_⟩)
    rw [Event.edits, hpayload, ← hnew.1]
  | retract hpayload hm hsender hretracted => exact .modify (fun _ => ⟨rfl, fun _ => rfl⟩)
  | _ => exact .of_same rfl rfl rfl

theorem Writes.editsBy (h : Writes f now db db') : EditsBy (· = f) db db' := by
  induction h with
  | refl => exact .refl db
  | tail _ hwrite ih => exact ih.trans hwrite.editsBy

theorem Effects.editsBy {rid : RelationshipId} (h : Effects rid P now db db') : EditsBy P db db' := by
  induction h with
  | refl => exact .refl db
  | tail _ heffect ih =>
    refine ih.trans ?_
    cases heffect with
    | write hlog hP hwrite =>
      refine hwrite.editsBy.mono (fun e he => ?_)
      rw [he]
      exact hP
    | resolve hown => exact .of_same rfl rfl rfl
    | replyState hown => exact .modify (fun _ => ⟨rfl, id⟩)
    | quarantine => exact .of_same rfl rfl rfl
    | sequence =>
      obtain ⟨_, _, heq⟩ := updateSeqState_eq _ ‹_› now
      rw [heq]
      exact .of_same rfl rfl rfl

/-- What fits before the event is handled fits while it is handled. -/
theorem EditsBy.fits_own (h : EditsBy (· = f) db db') (hfits : fits db f = true) : fits db' f = true := by
  rw [fits_iff] at hfits ⊢
  rintro i m' hedits hm' hsender hretracted hunseen e ⟨hlog, happlied⟩
  have hold : (db.messages.find i).isSome = true := by
    refine (h.created i (by rw [hm']; rfl)).resolve_right ?_
    rintro ⟨e', rfl, -, htype⟩
    unfold Event.edits at hedits
    cases hpayload : e'.payload <;> rw [hpayload] at hedits htype <;> simp [Payload.eventType] at hedits htype
  obtain ⟨m, hm⟩ := Option.isSome_iff_exists.mp hold
  obtain ⟨m'', hm'', hsender', hmono⟩ := h.keeps i m hm
  obtain rfl := Option.some.inj (hm''.symm.trans hm')
  refine hfits i m hedits hm (hsender'.symm.trans hsender) ?_ ?_ e ⟨h.events ▸ hlog, ?_⟩
  · by_contra hgone
    rw [hmono (Bool.of_not_eq_false hgone)] at hretracted
    exact absurd hretracted (by decide)
  · by_contra hseen
    rw [h.grows i _ (Bool.of_not_eq_false hseen)] at hunseen
    exact absurd hunseen (by decide)
  · refine (h.names i _ happlied).resolve_right ?_
    rintro ⟨e', rfl, hid, -⟩
    rw [hid, happlied] at hunseen
    exact absurd hunseen (by decide)

theorem Ascending.of_same (h : Ascending db) (hevents : db'.events = db.events)
    (hrevisions : db'.message_revisions = db.message_revisions) : Ascending db' := by
  unfold Ascending
  rw [hevents, hrevisions]
  exact h

/-- An edit that fits is numbered after the revisions that are there. -/
theorem Ascending.write (h : Ascending db) (hlog : db.events.find f.event_id = some f) (hfits : fits db f = true)
    (hwrite : Write f now db db') : Ascending db' := by
  cases hwrite with
  | thread hopens hjoins =>
    obtain ⟨_, _, heq⟩ := registerThread_eq db f ‹_›
    rw [heq]
    exact h
  | message hpayload hmessages hrevisions hopened =>
    obtain ⟨_, heq⟩ := bumpThreadMessage_eq _ f.thread_id f.created_at
    rw [heq]
    intro r hr r' hr' hid hlt e e' he he' hedit hedit'
    rcases (Table.mem_of_insert hrevisions).mp hr with hr | rfl
    · rcases (Table.mem_of_insert hrevisions).mp hr' with hr' | rfl
      · exact h r hr r' hr' hid hlt e e' he he' hedit hedit'
      · exact absurd hedit'.symm (Option.some_ne_none _)
    · exact absurd hedit.symm (Option.some_ne_none _)
  | edit hpayload hm hsender hretracted hrevisions hnewest hunseen =>
    rename_i target body reason m newest message_revisions
    have hedits : f.edits = some target := by rw [Event.edits, hpayload]
    have hlater := fits_iff.mp hfits target m hedits hm hsender hretracted hunseen
    intro r hr r' hr' hid hlt e e' he he' hedit hedit'
    rcases (Table.mem_of_insert hrevisions).mp hr with hr | rfl
    · rcases (Table.mem_of_insert hrevisions).mp hr' with hr' | rfl
      · exact h r hr r' hr' hid hlt e e' he he' hedit hedit'
      · obtain rfl : f = e' := by
          have hsame : f.event_id = e'.event_id := Option.some.inj hedit'
          have he' : db.events.find e'.event_id = some e' := he'
          rw [← hsame, hlog] at he'
          exact Option.some.inj he'
        exact hlater e ⟨he, applied_iff.mpr ⟨r, hr, hid, hedit⟩⟩
    · rcases (Table.mem_of_insert hrevisions).mp hr' with hr' | rfl
      · have hle := max_revision hnewest hr' hid.symm
        have hlt : newest + 1 < r'.revision_no := hlt
        omega
      · exact absurd hlt (Nat.lt_irrefl _)
  | _ => exact h

/-- The rule for a handler. -/
theorem Ascending.writes (h : Ascending db) (hlog : db.events.find f.event_id = some f) (hfits : fits db f = true)
    (hwrites : Writes f now db db') : Ascending db' := by
  induction hwrites with
  | refl => exact h
  | tail hws hwrite ih =>
    have hevents := (Writes.sameInputs hws).events
    exact Ascending.write ih (by rw [hevents]; exact hlog) ((Writes.editsBy hws).fits_own hfits) hwrite

end applied

/-! ## The events that waited -/

/-- The events of the references, without those of replies. -/
def refEvents (db : Database) (refs : List PendingRef) : List Event :=
  (refs.filter (·.kind ≠ .reply)).filterMap (fun ref => db.events.find ref.event_id)

/-- Two edits of one message by one sender are in the order of their numbers. -/
def before (f g : Event) : Bool :=
  f.edits = none ∨ f.edits ≠ g.edits ∨ f.sender ≠ g.sender ∨ f.sender_seq < g.sender_seq

theorem before_iff {f g : Event} : before f g = true ↔
    ∀ i, f.edits = some i → g.edits = some i → f.sender = g.sender → f.sender_seq < g.sender_seq := by
  unfold before
  rw [decide_eq_true_eq]
  cases hf : f.edits with
  | none => simp
  | some i =>
    constructor
    · rintro h i' hi hg hsender
      rcases h with h | h | h | h
      · exact absurd h (Option.some_ne_none i)
      · exact absurd (hi.trans hg.symm) h
      · exact absurd hsender h
      · exact h
    · intro h
      by_cases hg : g.edits = some i
      · by_cases hsender : f.sender = g.sender
        · exact Or.inr (Or.inr (Or.inr (h i rfl hg hsender)))
        · exact Or.inr (Or.inr (Or.inl hsender))
      · exact Or.inr (Or.inl (fun heq => hg heq.symm))

/-- The events fit and are in order. -/
def inOrder (db : Database) (evs : List Event) : Bool :=
  evs.all (fits db) && decide (evs.Pairwise (fun f g => before f g = true))

theorem inOrder_iff {db : Database} {evs : List Event} :
    inOrder db evs = true ↔ (∀ f ∈ evs, fits db f = true) ∧ evs.Pairwise (fun f g => before f g = true) := by
  simp [inOrder]

section waiting

variable {db db₁ db' : Database} {ev f : Event} {rid : RelationshipId} {now clock : Nat}

theorem message_not_edit {m : Message} (h : AllRepresented db) (hm : db.messages.find f.event_id = some m)
    (hlog : db.events.find f.event_id = some f) : f.edits = none := by
  obtain ⟨hmem, hid⟩ := Table.find_eq_some.mp hm
  obtain ⟨⟨e, he, -, attachment, hpayload⟩, -⟩ := h m hmem
  rw [hid] at he
  obtain rfl := Option.some.inj (he.symm.trans hlog)
  rw [Event.edits, hpayload]

theorem fits_of_self (h : AllRepresented db) (hlog : db.events.find f.event_id = some f)
    (hself : f.edits = some f.event_id) : fits db f = true := by
  refine fits_iff.mpr (fun i m hedits hm _ _ _ _ _ => ?_)
  rw [hself] at hedits
  rw [← Option.some.inj hedits] at hm
  rw [message_not_edit h hm hlog] at hself
  exact absurd hself.symm (Option.some_ne_none _)

theorem EditsBy.fits_next {pre : List Event} (h : EditsBy (· ∈ pre) db db₁) (hs : Scoped db) (hs₁ : Scoped db₁)
    (hrepresented : AllRepresented db₁) (hpre : ∀ e ∈ pre, db.events.find e.event_id = some e)
    (hfits : fits db f = true) (hbefore : ∀ e ∈ pre, e.edits = some e.event_id ∨ before e f = true) : fits db₁ f = true := by
  rw [fits_iff] at hfits ⊢
  rintro i m₁ hedits hm₁ hsender hretracted hunseen e happlied
  rcases h.names i _ happlied.2 with hold | ⟨e', he', hid, hedits'⟩
  · -- The edit was applied before, so the message was there.
    obtain ⟨r, hr, hrid, -⟩ := applied_iff.mp hold
    obtain ⟨m, hm⟩ := Option.isSome_iff_exists.mp ((hs.revised i).mpr ⟨r, hr, hrid⟩)
    obtain ⟨m₁', hm₁', hsame, hmono⟩ := h.keeps i m hm
    obtain rfl := Option.some.inj (hm₁'.symm.trans hm₁)
    refine hfits i m hedits hm (hsame.symm.trans hsender) ?_ ?_ e ⟨h.events ▸ happlied.1, hold⟩
    · by_contra hgone
      rw [hmono (Bool.of_not_eq_false hgone)] at hretracted
      exact absurd hretracted (by decide)
    · by_contra hseen
      rw [h.grows i _ (Bool.of_not_eq_false hseen)] at hunseen
      exact absurd hunseen (by decide)
  · obtain rfl : e' = e := by
      have hlog' := hpre e' he'
      rw [← h.events, hid, happlied.1] at hlog'
      exact (Option.some.inj hlog').symm
    obtain ⟨m, hm, hsender', -⟩ := happlied.edited hs₁ hrepresented
    obtain rfl := Option.some.inj (hm.symm.trans hm₁)
    rcases hbefore e' he' with hself | hbefore
    · -- An edit of itself is not applied.
      rw [hself] at hedits'
      rw [← Option.some.inj hedits'] at hm
      rw [message_not_edit hrepresented hm happlied.1] at hself
      exact absurd hself.symm (Option.some_ne_none _)
    · exact before_iff.mp hbefore i hedits' hedits (hsender'.trans hsender)

/-- The loop over the references of a target: every edit among them finds only edits with
smaller numbers. -/
theorem resolveRefs_ascending {refs : List PendingRef} {pre : List Event} (hs : Scoped db)
    (hpre : ∀ e ∈ pre, db.events.find e.event_id = some e) (h : EditsBy (· ∈ pre) db db₁) (hs₁ : Scoped db₁)
    (hrepresented : AllRepresented db₁) (hascending : Ascending db₁)
    (hown : ∀ ref ∈ refs, db.eventOf rid ref.event_id = true)
    (hfits : ∀ f ∈ refEvents db refs, f.edits = some f.event_id ∨ fits db f = true)
    (hbefore : (pre ++ refEvents db refs).Pairwise (fun e f => e.edits = some e.event_id ∨ f.edits = some f.event_id ∨
      before e f = true)) (target : EventId) :
    (resolveRefs rid target now clock refs db₁).Ends Ascending (fun _ _ => False) := by
  have hrule := @resolveRefs_rule rid now clock db₁ target (fun refs db₁ => ∃ pre : List Event,
    (∀ e ∈ pre, db.events.find e.event_id = some e) ∧ EditsBy (· ∈ pre) db db₁ ∧ Scoped db₁ ∧ AllRepresented db₁ ∧
    Ascending db₁ ∧ (∀ ref ∈ refs, db.eventOf rid ref.event_id = true) ∧
    (∀ f ∈ refEvents db refs, f.edits = some f.event_id ∨ fits db f = true) ∧
    (pre ++ refEvents db refs).Pairwise (fun e f => e.edits = some e.event_id ∨ f.edits = some f.event_id ∨
      before e f = true)) refs ⟨pre, hpre, h, hs₁, hrepresented, hascending, hown, hfits, hbefore⟩ ?_
  · exact hrule.imp (fun db₂ ⟨_, _, _, _, _, hascending, _⟩ => hascending) (fun _ _ => id)
  clear hpre h hs₁ hrepresented hascending hown hfits hbefore
  rintro ref refs db₁ ⟨pre, hpre, h, hs₁, hrepresented, hascending, hown, hfits, hbefore⟩
  have href := hown ref List.mem_cons_self
  have href₁ : db₁.eventOf rid ref.event_id = true := by
    unfold Database.eventOf at href ⊢
    rw [h.events]
    exact href
  have hends : (resolveRef db₁ rid target ref now clock).Ends
      (fun db₂ => Resolved ref now db₁ db₂ ∧ Effects rid (fun _ => True) now db₁ db₂) (fun _ _ => False) := by
    have h₁ := @resolveRef_resolved rid now clock db₁ target ref hs₁ href₁
    have h₂ := @resolveRef_ends rid (fun _ => True) now clock db₁ target ref hs₁ href₁ (fun _ _ _ => trivial)
    generalize resolveRef db₁ rid target ref now clock = out at h₁ h₂ ⊢
    match out, h₁, h₂ with
    | (db₂, .ok ()), h₁, h₂ => exact ⟨h₁, h₂⟩
  refine hends.imp (fun db₂ ⟨hresolved, heffects⟩ => ?_) (fun _ _ => id)
  have hs₂ := heffects.scoped hs₁
  have hrepresented₂ := AllRepresented.kept.effects hs₁ hrepresented heffects
  have hown₂ := fun r hr => hown r (List.mem_cons_of_mem ref hr)
  have hpending : EditsBy (· ∈ pre) db₁ { db₁ with
      pending_refs := db₁.pending_refs.modify ref.event_id (fun r => { r with state := .resolved })
        (fun _ => rfl) } := .of_same rfl rfl rfl
  -- The event of the reference fits, and comes next.
  have hnext : ∀ {f : Event} {db₂ : Database}, ref.kind ≠ .reply → db₁.events.find ref.event_id = some f →
      Writes f now { db₁ with
        pending_refs := db₁.pending_refs.modify ref.event_id (fun r => { r with state := .resolved })
          (fun _ => rfl) } db₂ →
      Ascending db₂ ∧ EditsBy (· ∈ pre ++ [f]) db db₂ ∧ refEvents db (ref :: refs) = f :: refEvents db refs ∧
        db.events.find f.event_id = some f := by
    intro f db₂ hkind hlog hwrites
    have hlog₁ : db₁.events.find f.event_id = some f := by
      rw [Table.key_of_find hlog]
      exact hlog
    rw [h.events] at hlog hlog₁
    have hcons : refEvents db (ref :: refs) = f :: refEvents db refs := by
      unfold refEvents
      rw [List.filter_cons_of_pos (by simpa using hkind), List.filterMap_cons, hlog]
    rw [hcons] at hfits hbefore
    have hfits₁ : fits db₁ f = true := by
      by_cases hself : f.edits = some f.event_id
      · exact fits_of_self hrepresented (h.events ▸ hlog₁) hself
      · have hfit := (hfits f List.mem_cons_self).resolve_left hself
        refine h.fits_next hs hs₁ hrepresented hpre hfit (fun e he => ?_)
        have hpair := (List.pairwise_append.mp hbefore).2.2 e he f List.mem_cons_self
        exact hpair.imp_right (fun hrest => hrest.resolve_left hself)
    refine ⟨?_, ?_, hcons, hlog₁⟩
    · refine Ascending.writes ?_ (h.events ▸ hlog₁) ?_ hwrites
      · exact hascending
      · exact hfits₁
    · refine ((h.trans hpending).mono (fun e he => List.mem_append_left _ he)).trans ?_
      exact (Writes.editsBy hwrites).mono (fun e he => List.mem_append_right _ (List.mem_singleton.mpr he))
  have hafter : ∀ {f : Event}, refEvents db (ref :: refs) = f :: refEvents db refs →
      db.events.find f.event_id = some f →
      (∀ e ∈ pre ++ [f], db.events.find e.event_id = some e) ∧
      (∀ g ∈ refEvents db refs, g.edits = some g.event_id ∨ fits db g = true) ∧
      (pre ++ [f] ++ refEvents db refs).Pairwise (fun e f => e.edits = some e.event_id ∨ f.edits = some f.event_id ∨
        before e f = true) := by
    intro f hcons hlog
    rw [hcons] at hfits hbefore
    refine ⟨fun e he => ?_, fun g hg => hfits g (List.mem_cons_of_mem f hg), by simpa using hbefore⟩
    rcases List.mem_append.mp he with he | he
    · exact hpre e he
    · rw [List.mem_singleton.mp he]
      exact hlog
  cases hresolved with
  | reply hkind =>
    have hskip : refEvents db (ref :: refs) = refEvents db refs := by
      rw [refEvents, List.filter_cons_of_neg (by simpa using hkind)]
      rfl
    rw [hskip] at hfits hbefore
    refine ⟨pre, hpre, ?_, hs₂, hrepresented₂, hascending.of_same rfl rfl, hown₂, hfits, hbefore⟩
    exact h.trans (hpending.trans (.modify (fun _ => ⟨rfl, id⟩)))
  | handled hkind hlog hwrites =>
    obtain ⟨hascending₂, hby, hcons, hlog₁⟩ := hnext hkind hlog hwrites
    obtain ⟨hpre₂, hfits₂, hbefore₂⟩ := hafter hcons hlog₁
    exact ⟨_, hpre₂, hby, hs₂, hrepresented₂, hascending₂, hown₂, hfits₂, hbefore₂⟩
  | rejected hkind hlog hwrites =>
    obtain ⟨hascending₂, hby, hcons, hlog₁⟩ := hnext hkind hlog hwrites
    obtain ⟨hpre₂, hfits₂, hbefore₂⟩ := hafter hcons hlog₁
    exact ⟨_, hpre₂, hby.trans (.of_same rfl rfl rfl), hs₂, hrepresented₂, hascending₂.of_same rfl rfl, hown₂, hfits₂,
      hbefore₂⟩

/-- The events that wait for an event. -/
def waiting (db : Database) (ev : Event) : List Event :=
  refEvents db (pendingRefs db ev.relationship_id ev.event_id)

theorem refEvents_edits {target i : EventId} (hs : Scoped db)
    (hf : f ∈ refEvents db (pendingRefs db rid target)) (hedits : f.edits = some i) : i = target := by
  obtain ⟨ref, href, hfind⟩ := List.mem_filterMap.mp hf
  obtain ⟨href, hkind⟩ := List.mem_filter.mp href
  obtain ⟨-, kind, htarget⟩ := Waits.names ⟨ref, href, by simpa using hkind, hfind⟩ hs
  unfold Event.edits at hedits
  split at hedits
  · rename_i hpayload
    rw [hpayload] at htarget
    rw [← Option.some.inj hedits]
    exact (Prod.mk.inj (Option.some.inj htarget)).2
  · exact absurd hedits.symm (Option.some_ne_none i)

/-- The event and those that wait for it are in order. -/
def appliesInOrder (db : Database) (ev : Event) : Bool := fits db ev && inOrder db (waiting db ev)

/-- The references that a handler adds are of its own event. -/
theorem Writes.pendingRefs {target : EventId} (h : Writes ev now db db') :
    ∃ extra, Store.pendingRefs db' rid target = Store.pendingRefs db rid target ++ extra ∧
      ∀ ref ∈ extra, ref.event_id = ev.event_id := by
  obtain ⟨extra, hrows, hall⟩ := h.pending_rows
  have happend : Store.pendingRefs db' rid target = Store.pendingRefs db rid target ++ extra.filter
      (fun r => r.relationship_id = rid ∧ r.target_event_id = target ∧ r.state = .pending) := by
    unfold Store.pendingRefs
    rw [hrows, List.filter_append]
  exact ⟨_, happend, fun ref href => (hall ref (List.mem_of_mem_filter href)).1⟩

theorem applyInner_ascending (hs : Scoped db) (hrepresented : AllRepresented db) (hascending : Ascending db)
    (hlog : db.events.find ev.event_id = some ev) (horder : appliesInOrder db ev = true) :
    (applyInner db ev now clock).Ends Ascending (fun _ => Ascending) := by
  obtain ⟨hfits, hwaiting⟩ := Bool.and_eq_true_iff.mp horder
  obtain ⟨hfit, hpairs⟩ := inOrder_iff.mp hwaiting
  unfold applyInner
  split_ifs
  · exact hascending.of_same rfl rfl
  have hdispatch : (dispatch db ev now).Ends (Writes ev now db) (fun _ => Ascending) :=
    (dispatch_ends hs hlog).imp (fun _ => id) (fun _ _ hrejected => hascending.writes hlog hfits hrejected.2)
  refine hdispatch.andThen (fun db' hwrites => ?_)
  have heffects : Effects ev.relationship_id (fun _ => True) now db db' := Writes.effects hwrites hlog trivial
  have hs' := heffects.scoped hs
  have hby : EditsBy (· ∈ [ev]) db db' := hwrites.editsBy.mono (fun e he => List.mem_singleton.mpr he)
  obtain ⟨extra, hrefs, hextra⟩ := @Writes.pendingRefs db db' ev ev.relationship_id now ev.event_id hwrites
  -- The references that the handler added are dispatched last.
  have hevents : refEvents db (Store.pendingRefs db' ev.relationship_id ev.event_id) =
      waiting db ev ++ refEvents db extra := by
    rw [hrefs, waiting, refEvents, refEvents, refEvents, List.filter_append, List.filterMap_append]
  have hown : ∀ f ∈ refEvents db extra, f = ev := by
    intro f hf
    obtain ⟨ref, href, hfind⟩ := List.mem_filterMap.mp hf
    rw [hextra ref (List.mem_of_mem_filter href), hlog] at hfind
    exact (Option.some.inj hfind).symm
  have hself : ∀ f ∈ waiting db ev ++ refEvents db extra, ∀ i, f.edits = some i → i = ev.event_id := by
    intro f hf i hedits
    rw [← hevents] at hf
    refine @refEvents_edits db' f ev.relationship_id _ i hs' ?_ hedits
    unfold refEvents at hf ⊢
    rw [hby.events]
    exact hf
  -- The event edits another message than those that wait for it, or none.
  have hmixed : ev.edits = some ev.event_id ∨
      ∀ f ∈ waiting db ev ++ refEvents db extra, before ev f = true ∧ before f ev = true := by
    by_cases hev : ev.edits = some ev.event_id
    · exact Or.inl hev
    · refine Or.inr (fun f hf => ⟨before_iff.mpr (fun i hi hfi _ => ?_), before_iff.mpr (fun i hfi hi _ => ?_)⟩)
      · exact absurd (hi.trans (congrArg some (hself f hf i hfi))) hev
      · exact absurd (hi.trans (congrArg some (hself f hf i hfi))) hev
  have hresolve : (resolvePending db' ev.relationship_id ev.event_id now clock).Ends Ascending (fun _ => Ascending) := by
    refine (@resolveRefs_ascending db db' ev.relationship_id now clock _ [ev] hs (fun e he => ?_) hby hs'
      (AllRepresented.kept.effects hs hrepresented heffects) (hascending.writes hlog hfits hwrites)
      (fun ref href => ?_) (fun f hf => ?_) ?_ ev.event_id).imp (fun _ => id) (fun _ _ => False.elim)
    · rw [List.mem_singleton.mp he]
      exact hlog
    · have hof := pendingRefs_eventOf hs' href
      unfold Database.eventOf at hof ⊢
      rwa [hby.events] at hof
    · rw [hevents] at hf
      rcases List.mem_append.mp hf with hf | hf
      · exact Or.inr (hfit f hf)
      · rw [hown f hf]
        exact Or.inr hfits
    · rw [hevents, List.singleton_append]
      refine List.pairwise_cons.mpr ⟨fun f hf => ?_, ?_⟩
      · exact hmixed.imp_right (fun hmixed => Or.inr (hmixed f hf).1)
      · refine List.pairwise_append.mpr ⟨hpairs.imp (fun h => Or.inr (Or.inr h)), ?_, fun f hf g hg => ?_⟩
        · refine List.Pairwise.imp_of_mem (fun {f g} hf hg _ => ?_) (List.pairwise_of_forall (R := fun _ _ => True)
            (fun _ _ => trivial))
          rw [hown f hf]
          exact hmixed.imp_right (fun hmixed => Or.inr (hmixed g (List.mem_append_right _ hg)).1)
        · rw [hown g hg]
          rcases hmixed with hself | hmixed
          · exact Or.inr (Or.inl hself)
          · exact Or.inr (Or.inr (hmixed f (List.mem_append_left _ hf)).2)
  refine (hresolve.imp (fun _ => id) (fun _ _ => id)).andThen (fun db'' hascending'' => ?_)
  obtain ⟨_, _, heq⟩ := updateSeqState_eq db'' ev now
  rw [heq]
  exact hascending''.of_same rfl rfl

end waiting

/-! ## A rebuild -/

/-- The events of the references of a relationship, in the order in which they were set
aside. -/
def asideIds (db : Database) (rid : RelationshipId) : List EventId :=
  (db.pending_refs.rows.filter (·.relationship_id = rid)).map (·.event_id)

section rebuild

variable {base db db' : Database} {ev : Event} {rid : RelationshipId} {P : Event → Prop} {now clock : Nat}
  {done : List Event}

/-- The steps of `apply_event` keep the references and add those of their events. -/
theorem Effects.aside (h : Effects rid P now db db') :
    ∃ extra : List Event, db'.pending_refs.rows.map (fun r => (r.event_id, r.relationship_id)) =
      db.pending_refs.rows.map (fun r => (r.event_id, r.relationship_id)) ++
        extra.map (fun e => (e.event_id, e.relationship_id)) ∧ ∀ e ∈ extra, P e := by
  induction h with
  | refl => exact ⟨[], by simp, fun e he => absurd he List.not_mem_nil⟩
  | tail _ heffect ih =>
    obtain ⟨extra, heq, hall⟩ := ih
    cases heffect with
    | write hlog hP hwrite =>
      rename_i e
      obtain ⟨more, hrows, hmore⟩ := hwrite.pending_rows
      refine ⟨extra ++ more.map (fun _ => e), ?_, fun e' he' => ?_⟩
      · rw [hrows, List.map_append, heq, List.map_append, List.append_assoc, List.map_map]
        congr 2
        refine List.map_congr_left (fun r hr => ?_)
        rw [(hmore r hr).1, (hmore r hr).2]
        rfl
      · rcases List.mem_append.mp he' with he' | he'
        · exact hall e' he'
        · obtain ⟨_, -, rfl⟩ := List.mem_map.mp he'
          exact hP
    | resolve hown =>
      refine ⟨extra, ?_, hall⟩
      rw [← heq]
      show ((Table.rows _).map _).map _ = _
      rw [List.map_map]
      refine List.map_congr_left (fun r _ => ?_)
      dsimp only [Function.comp_apply]
      split_ifs
      · rfl
      · rfl
    | replyState hown => exact ⟨extra, heq, hall⟩
    | quarantine => exact ⟨extra, heq, hall⟩
    | sequence =>
      obtain ⟨_, _, hsequence⟩ := updateSeqState_eq _ ‹_› now
      rw [hsequence]
      exact ⟨extra, heq, hall⟩

theorem asideIds_eq (db : Database) (rid : RelationshipId) : asideIds db rid =
    ((db.pending_refs.rows.map (fun r => (r.event_id, r.relationship_id))).filter (·.2 = rid)).map Prod.fst := by
  unfold asideIds
  rw [List.filter_map, List.map_map]
  rfl

/-- The events done so far have left their edits and their references, and no more. -/
structure ReplayedEdits (base : Database) (rid : RelationshipId) (done : List Event) (db : Database) : Prop where
  inScope : Scoped db
  represented : AllRepresented db
  ascending : Ascending db
  edits : EditsBy (· ∈ done) base db
  aside : (asideIds db rid).Sublist (done.map (·.event_id))

theorem ReplayedEdits.waiting (h : ReplayedEdits base rid done db) (hlog : ∀ e ∈ done, base.events.find e.event_id = some e)
    (hrel : ev.relationship_id = rid) : (Store.waiting db ev).Sublist done := by
  have hdone : (done.map (·.event_id)).filterMap db.events.find = done := by
    rw [List.filterMap_map, h.edits.events]
    exact (List.filterMap_congr hlog).trans List.filterMap_some
  have hrefs : Store.waiting db ev = (((Store.pendingRefs db ev.relationship_id ev.event_id).filter
      (·.kind ≠ .reply)).map (·.event_id)).filterMap db.events.find := by
    rw [List.filterMap_map]
    rfl
  rw [hrefs, ← hdone]
  refine List.Sublist.filterMap _ (List.Sublist.trans (List.Sublist.map _ ?_) h.aside)
  refine List.filter_sublist.trans ?_
  unfold Store.pendingRefs
  rw [hrel]
  refine List.monotone_filter_right _ (fun r hr => ?_)
  simp only [decide_eq_true_eq] at hr ⊢
  exact hr.1

/-- What a rebuild goes through is in order, and no message is there before its event. -/
structure Replayable (base : Database) (rid : RelationshipId) (evs : List Event) : Prop where
  logged : ∀ e ∈ evs, base.events.find e.event_id = some e
  relationship : ∀ e ∈ evs, e.relationship_id = rid
  distinct : (evs.map (·.event_id)).Nodup
  absent : ∀ e ∈ evs, base.messages.find e.event_id = none
  order : inOrder base evs = true

theorem ReplayedEdits.appliesInOrder (h : ReplayedEdits base rid done db) (hbase : Scoped base) {evs : List Event}
    (hreplay : Replayable base rid (done ++ ev :: evs)) : appliesInOrder db ev = true := by
  obtain ⟨hfits, hpairs⟩ := inOrder_iff.mp hreplay.order
  obtain ⟨hdone, -, hbefore⟩ := List.pairwise_append.mp hpairs
  have hlog : ∀ e ∈ done, base.events.find e.event_id = some e := fun e he => hreplay.logged e (List.mem_append_left _ he)
  have hev : ev ∈ done ++ ev :: evs := List.mem_append_right _ List.mem_cons_self
  refine Bool.and_eq_true_iff.mpr ⟨?_, inOrder_iff.mpr ⟨fun f hf => ?_, ?_⟩⟩
  · exact h.edits.fits_next hbase h.inScope h.represented hlog (hfits ev hev)
      (fun e he => Or.inr (hbefore e he ev List.mem_cons_self))
  · -- The message that it waits for is not there yet.
    refine fits_iff.mpr (fun i m hedits hm _ _ _ _ _ => ?_)
    obtain rfl := refEvents_edits h.inScope hf hedits
    rcases h.edits.created ev.event_id (by rw [hm]; rfl) with hold | ⟨e, he, hid, -⟩
    · rw [hreplay.absent ev hev] at hold
      exact absurd hold Bool.false_ne_true
    · have hdistinct := hreplay.distinct
      rw [List.map_append, List.nodup_append] at hdistinct
      exact absurd hid (hdistinct.2.2 _ (List.mem_map_of_mem he) _ (List.mem_map_of_mem List.mem_cons_self))
  · exact hdone.sublist (h.waiting hlog (hreplay.relationship ev hev))

theorem ReplayedEdits.effects (h : ReplayedEdits base rid done db)
    (hlog : ∀ e ∈ done, base.events.find e.event_id = some e) (hrel : ev.relationship_id = rid)
    (heffects : Effects ev.relationship_id (Dispatches db ev) now db db') (hascending : Ascending db') :
    ReplayedEdits base rid (done ++ [ev]) db' where
  inScope := heffects.scoped h.inScope
  represented := AllRepresented.kept.effects h.inScope h.represented heffects
  ascending := hascending
  edits := by
    refine (h.edits.mono (fun e he => List.mem_append_left _ he)).trans (heffects.editsBy.mono (fun e he => ?_))
    rcases he with rfl | ⟨ref, href, hkind, hfind⟩
    · exact List.mem_append_right _ (List.mem_singleton.mpr rfl)
    · refine List.mem_append_left _ ((h.waiting hlog hrel).subset (List.mem_filterMap.mpr ⟨ref, ?_, hfind⟩))
      exact List.mem_filter.mpr ⟨href, by simpa using hkind⟩
  aside := by
    obtain ⟨extra, hrows, hall⟩ := heffects.aside
    -- The events that waited have their references already.
    have hnodup := db'.pending_refs.nodup
    have hids : db'.pending_refs.rows.map PendingRef.event_id =
        db.pending_refs.rows.map PendingRef.event_id ++ extra.map (·.event_id) := by
      have hfst := congrArg (List.map Prod.fst) hrows
      simpa [List.map_map, Function.comp_def] using hfst
    rw [hids, List.nodup_append] at hnodup
    have hown : ∀ e ∈ extra, e = ev := by
      intro e he
      refine (hall e he).resolve_right ?_
      rintro ⟨ref, href, -, hfind⟩
      have hid : e.event_id = ref.event_id := Table.key_of_find hfind
      exact hnodup.2.2 _ (List.mem_map_of_mem (List.mem_of_mem_filter href)) _ (List.mem_map_of_mem he) hid.symm
    have hextra : (extra.map (·.event_id)).Sublist [ev.event_id] := by
      match extra, hown, hnodup.2.1 with
      | [], _, _ => exact List.nil_sublist _
      | [e], hown, _ =>
        rw [hown e List.mem_cons_self]
        exact List.Sublist.refl _
      | e :: e' :: _, hown, hnodup =>
        rw [hown e List.mem_cons_self, hown e' (by simp)] at hnodup
        simp at hnodup
    rw [asideIds_eq, hrows, List.filter_append, List.map_append, ← asideIds_eq, List.map_append]
    refine List.Sublist.append h.aside (List.Sublist.trans ?_ hextra)
    have hfst : extra.map (·.event_id) = (extra.map (fun e => (e.event_id, e.relationship_id))).map Prod.fst := by
      rw [List.map_map]
      rfl
    rw [hfst]
    exact List.filter_sublist.map _

theorem ReplayedEdits.quarantine {reason : QuarantineReason} (h : ReplayedEdits base rid done db) :
    ReplayedEdits base rid done (quarantineEvent db ev reason clock) :=
  ⟨{ h.inScope with }, h.represented.of_same (fun _ _ => id) rfl rfl, h.ascending.of_same rfl rfl,
    h.edits.trans (.of_same rfl rfl rfl), h.aside⟩

theorem replay_replayed {evs : List Event} (hbase : Scoped base) (hreplay : Replayable base rid (done ++ evs))
    (h : ReplayedEdits base rid done db) : (replay clock evs db).Ends (ReplayedEdits base rid (done ++ evs)) (fun _ _ => False) := by
  induction evs generalizing done db with
  | nil =>
    rw [List.append_nil]
    exact h
  | cons ev evs ih =>
    have hev : ev ∈ done ++ ev :: evs := List.mem_append_right _ List.mem_cons_self
    have hlog : db.events.find ev.event_id = some ev := by
      rw [h.edits.events]
      exact hreplay.logged ev hev
    have hdone : ∀ e ∈ done, base.events.find e.event_id = some e := fun e he =>
      hreplay.logged e (List.mem_append_left _ he)
    have happend : done ++ ev :: evs = done ++ [ev] ++ evs := by simp
    have hascending : (applyInner db ev (ev.received_at.getD clock) clock).Ends Ascending (fun _ => Ascending) :=
      applyInner_ascending h.inScope h.represented h.ascending hlog (h.appliesInOrder hbase hreplay)
    have hends : (applyInner db ev (ev.received_at.getD clock) clock).Ends
        (Effects ev.relationship_id (Dispatches db ev) (ev.received_at.getD clock) db)
        (fun failure db' => (∃ code, failure = .projection code) ∧
          Effects ev.relationship_id (Dispatches db ev) (ev.received_at.getD clock) db db') :=
      applyInner_ends h.inScope hlog
    rw [happend] at hreplay ⊢
    unfold replay
    generalize applyInner db ev (ev.received_at.getD clock) clock = out at hascending hends ⊢
    obtain ⟨db', failure | _⟩ := out
    · obtain ⟨⟨code, rfl⟩, heffects⟩ := hends
      exact ih hreplay (h.effects hdone (hreplay.relationship ev (by simp)) heffects hascending).quarantine
    · exact ih hreplay (h.effects hdone (hreplay.relationship ev (by simp)) hends hascending)

theorem rebuild_ascending (hs : Scoped db) (hrepresented : AllRepresented db) (hascending : Ascending db)
    (horder : inOrder (wipe db rid) (relationshipEvents db rid) = true) :
    Ascending (rebuildProjections db rid clock) := by
  have hreplay : Replayable (wipe db rid) rid ([] ++ relationshipEvents db rid) := by
    refine ⟨fun e he => (mem_relationshipEvents he).1, fun e he => (mem_relationshipEvents he).2, ?_, fun e he => ?_,
      horder⟩
    · have hperm := List.perm_insertionSort displayOrder (db.events.rows.filter (·.relationship_id = rid))
      refine ((hperm.map (·.event_id)).nodup_iff).mpr ?_
      exact db.events.nodup.sublist (List.filter_sublist.map _)
    · obtain ⟨hlog, hrel⟩ := mem_relationshipEvents he
      show (db.messages.delete _).find e.event_id = none
      rw [Table.find_delete]
      cases hm : db.messages.find e.event_id with
      | none => rfl
      | some m =>
        have hown := hs.messages.find hm
        rw [Table.key_of_find hm] at hown
        have hsame := eventOf_unique hown (eventOf_self hlog)
        rw [Option.filter_some, if_neg]
        simp [hsame, hrel]
  have hstart : ReplayedEdits (wipe db rid) rid [] (wipe db rid) := by
    refine ⟨hs.wipe, AllRepresented.kept.wipe rid hs hrepresented, fun r hr r' hr' => ?_, .refl _, ?_⟩
    · exact hascending r (Table.mem_delete.mp hr).1 r' (Table.mem_delete.mp hr').1
    · have hnone : asideIds (wipe db rid) rid = [] := by
        unfold asideIds
        rw [List.map_eq_nil_iff, List.filter_eq_nil_iff]
        intro r hr
        have hdeleted := (Table.mem_delete.mp hr).2
        simpa using hdeleted
      rw [hnone]
      exact List.nil_sublist _
  have hends : (replay clock (relationshipEvents db rid) (wipe db rid)).Ends _ _ :=
    replay_replayed hs.wipe hreplay hstart
  unfold rebuildProjections
  generalize replay clock (relationshipEvents db rid) (wipe db rid) = out at hends ⊢
  match out, hends with
  | (db', .ok ()), h => exact h.ascending

end rebuild

/-! ## Runs -/

/-- The step hands the edits of each message to the projection in the order of their
numbers. -/
def keepsEditOrder (s : Node) : Act → Bool
  | .project event_id _ => (s.db.events.find event_id).all (appliesInOrder s.db)
  | .rebuild rid _ => inOrder (wipe s.db rid) (relationshipEvents s.db rid)
  | _ => true

section runs

variable {db db' : Database} {s t : Node} {a : Act}

/-- The log grows and the revisions stay. -/
theorem Ascending.mono (h : Ascending db) (hs : Scoped db) (hrepresented : AllRepresented db)
    (hlog : ∀ i e, db.events.find i = some e → db'.events.find i = some e)
    (hrevisions : db'.message_revisions = db.message_revisions) : Ascending db' := by
  intro r hr r' hr' hid hlt e e' he he' hedit hedit'
  rw [hrevisions] at hr hr'
  obtain ⟨-, e₀, -, hlog₀, -⟩ := revision_edit hs hrepresented hr hedit
  obtain ⟨-, e₀', -, hlog₀', -⟩ := revision_edit hs hrepresented hr' hedit'
  obtain rfl := Option.some.inj ((hlog _ _ hlog₀).symm.trans he)
  obtain rfl := Option.some.inj ((hlog _ _ hlog₀').symm.trans he')
  exact h r hr r' hr' hid hlt _ _ hlog₀ hlog₀' hedit hedit'

theorem step_ascending (hs : Scoped s.db) (hrepresented : AllRepresented s.db) (h : Ascending s.db)
    (hok : keepsEditOrder s a = true) (hst : s.step a = some t) : Ascending t.db := by
  cases a with
  | pair rid peer =>
    obtain ⟨_, _, rfl⟩ := Option.map_eq_some_iff.mp hst
    exact h.of_same rfl rfl
  | approve approval =>
    obtain ⟨_, _, rfl⟩ := Option.map_eq_some_iff.mp hst
    exact h.of_same rfl rfl
  | send ev =>
    simp only [Node.step] at hst
    split_ifs at hst
    obtain ⟨db, hdb, rfl⟩ := Option.map_eq_some_iff.mp hst
    obtain ⟨_, threads, heq⟩ := append_events hdb
    exact h.mono hs hrepresented (fun i e he => find_of_append hdb he) (by rw [heq])
  | receive ev now =>
    simp only [Node.step] at hst
    split_ifs at hst
    obtain ⟨db, hdb, rfl⟩ := Option.map_eq_some_iff.mp hst
    obtain ⟨_, threads, heq⟩ := append_events hdb
    exact h.mono hs hrepresented (fun i e he => find_of_append hdb he) (by rw [heq])
  | project event_id clock =>
    obtain ⟨ev, hev, rfl⟩ := Option.map_eq_some_iff.mp hst
    have hlog : s.db.events.find ev.event_id = some ev := by
      rw [Table.key_of_find hev]
      exact hev
    have horder : appliesInOrder s.db ev = true := by
      simp only [keepsEditOrder, hev, Option.all_some] at hok
      exact hok
    have hends : (applyEvent s.db ev clock).Ends Ascending (fun _ => Ascending) :=
      applyInner_ascending hs hrepresented h hlog horder
    show Ascending (projectEvent s.db ev clock)
    unfold projectEvent
    generalize applyEvent s.db ev clock = out at hends ⊢
    obtain ⟨db', failure | _⟩ := out
    · cases failure with
      | projection code => exact h.of_same rfl rfl
      | integrity_error => exact h
      | type_error => exact h
    · exact hends
  | rebuild rid clock =>
    rw [← Option.some.inj hst]
    exact rebuild_ascending hs hrepresented h hok
  | expire rid now =>
    rw [← Option.some.inj hst]
    exact h.of_same rfl rfl
  | pin event_id now =>
    simp only [Node.step, Option.bind_eq_some_iff] at hst
    obtain ⟨ev, -, new, -, rel, -, hst⟩ := hst
    obtain ⟨rel', -, rfl⟩ := Option.map_eq_some_iff.mp hst
    exact h.of_same rfl rfl
  | rotate new =>
    rw [← Option.some.inj hst]
    exact h

/-- Along every run that projects and rebuilds in the order of the edits, the body of each
message is that of its highest edit. -/
theorem edits_converge (h : machine.Reach (fun s a => keepsEditOrder s a = true) s) : Converged s.db := by
  have hreach : machine.Reach (fun s a => keepsEditOrder s a = true) s := h
  have hascending : machine.Reachable s ∧ Ascending s.db := by
    induction h with
    | start hinit =>
      refine ⟨.start hinit, fun r hr => ?_⟩
      rw [hinit.1] at hr
      exact absurd hr List.not_mem_nil
    | next hbefore hok hst ih =>
      obtain ⟨hreach', hascending⟩ := ih hbefore
      exact ⟨.next hreach' trivial hst, step_ascending (reachable_scoped hreach')
        (AllRepresented.kept.reachable hreach') hascending hok hst⟩
  exact hascending.2.converged (reachable_scoped hascending.1) (AllRepresented.kept.reachable hascending.1)

end runs

/-! ## Edits out of order -/

/-- A message of the peer with number 1. -/
def editedMessage : Event :=
  ⟨5, 1, 1, none, 2, 1, 10, 1, .messageCreated "a" .plain none, none, some 20⟩

/-- An edit of it. -/
def edit (event_id : EventId) (sender_seq : Nat) (body : String) : Event :=
  ⟨event_id, 1, 1, none, 2, sender_seq, 10 + sender_seq, 1, .messageEdited 5 body none, none, some 20⟩

/-- The events arrive in the given order, and then the store is rebuilt. -/
def editRun (evs : List Event) : List Act :=
  .pair 1 2 :: evs.flatMap (fun ev => [.receive ev 20, .project ev.event_id 20]) ++ [.rebuild 1 20]

/-- The theorem on two edits of which the first arrives before the message. -/
theorem edits_converge_inOrder : ∃ s,
    machine.run ⟨{}, [1]⟩ (editRun [edit 6 2 "b", editedMessage, edit 7 3 "c"]) = some s ∧ Converged s.db := by
  have hrun : (machine.run ⟨{}, [1]⟩ (editRun [edit 6 2 "b", editedMessage, edit 7 3 "c"])).isSome = true := by
    decide +kernel
  obtain ⟨s, hs⟩ := Option.isSome_iff_exists.mp hrun
  refine ⟨s, hs, edits_converge (Machine.Reach.run (.start ⟨rfl, List.cons_ne_nil _ _⟩) ?_ hs)⟩
  decide +kernel

/-- The edit with the lower number arrives last, and its body is shown. -/
theorem late_edit_wins : ∃ s, machine.Reachable s ∧ ¬ Converged s.db := by
  have hrun : (machine.run ⟨{}, [1]⟩ ((editRun [editedMessage, edit 7 3 "c", edit 6 2 "b"]).dropLast)).map (fun s =>
      (s.db.events.rows, s.db.messages.rows.map (fun m => (m.event_id, m.current_body)), applied s.db 5 7)) =
      some ([editedMessage, edit 7 3 "c", edit 6 2 "b"], [(5, "b")], true) := by decide +kernel
  obtain ⟨s, hs, heq⟩ := Option.map_eq_some_iff.mp hrun
  simp only [Prod.mk.injEq] at heq
  obtain ⟨hevents, hmessages, happlied⟩ := heq
  refine ⟨s, Machine.reachable_of_run ⟨rfl, List.cons_ne_nil _ _⟩ hs, fun hconverged => ?_⟩
  obtain ⟨m, hm, hcolumns⟩ := List.mem_map.mp (hmessages ▸ List.mem_singleton.mpr rfl : (5, "b") ∈ s.db.messages.rows.map _)
  obtain ⟨hid, hbody⟩ := Prod.mk.inj hcolumns
  have hlogged : ∀ e, s.db.events.find e.event_id = some e → e ∈ [editedMessage, edit 7 3 "c", edit 6 2 "b"] := by
    intro e he
    rw [← hevents]
    exact (Table.find_eq_some.mp he).1
  have hlog : s.db.events.find 7 = some (edit 7 3 "c") := by
    unfold Table.find
    rw [hevents]
    decide +kernel
  obtain ⟨reason, hpayload⟩ := hconverged m hm (edit 7 3 "c") ⟨⟨hlog, by rw [hid]; exact happlied⟩, fun e he => by
    have hmem := hlogged e he.1
    simp only [List.mem_cons, List.not_mem_nil, or_false] at hmem
    rcases hmem with rfl | rfl | rfl
    · decide
    · decide
    · decide⟩
  rw [hbody] at hpayload
  simp [edit] at hpayload

end MuseAgentSocial.Store
