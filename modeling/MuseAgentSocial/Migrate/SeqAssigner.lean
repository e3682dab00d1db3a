import MuseAgentSocial.Lib.Roll
import MuseAgentSocial.Migrate.Adapt

/-!
# The numbers of v0.1 objects

`adapt_v01` numbers the objects with a `SeqAssigner`, which goes by names: the
filename of an object, or its id when it has none.

* `SeqAssigner.ofRoll`: an assigner is the dictionary of a `Roll` of names with
  its next number.  `assign_ofRoll` and `fromDict_ofRoll` say that it stays one.
* `numbering` is a process that adapts objects, saves the dictionary together
  with the events, as the transaction of `_receive_v01` does, and starts again
  from what it saved.
* `numbering_byName`: the numbers tell the names apart and leave no gap.  They do
  not tell the objects apart (`numbering_not_byObject`).
* `draining_numbers`: in the drain an object has no filename, so the numbers are
  those of its id.
-/

namespace MuseAgentSocial.Migrate

/-! ## `SeqAssigner` -/

/-- `SeqAssigner`.  The dictionary is in the order of its inserts. -/
structure SeqAssigner where
  seq_by_filename : List (String × ℕ) := []
  next : ℕ := 1
  deriving DecidableEq, Repr

namespace SeqAssigner

/-- `assign` -/
def assign (a : SeqAssigner) (filename : String) : ℕ × SeqAssigner :=
  match a.seq_by_filename.lookup filename with
  | some existing => (existing, a)
  | none => (a.next, ⟨a.seq_by_filename ++ [(filename, a.next)], a.next + 1⟩)

/-- `to_dict` -/
def toDict (a : SeqAssigner) : List (String × ℕ) := a.seq_by_filename

/-- `from_dict` -/
def fromDict (data : List (String × ℕ)) : SeqAssigner := ⟨data, (data.map Prod.snd).max?.getD 0 + 1⟩

/-- The assigner that has numbered the names of a roll. -/
def ofRoll (r : Roll String) : SeqAssigner := ⟨r.dict, r.size + 1⟩

theorem assign_ofRoll (r : Roll String) (name : String) :
    (ofRoll r).assign name = (r.number name, ofRoll (r.enter name)) := by
  unfold assign
  rw [show (ofRoll r).seq_by_filename.lookup name = _ from r.lookup_dict name]
  by_cases h : name ∈ r.keys
  · rw [if_pos h, r.enter_of_mem h]
  · rw [if_neg h, r.number_of_not_mem h, ofRoll, ofRoll, r.dict_enter h, Roll.size, Roll.size, r.keys_enter h,
      List.length_append, List.length_singleton]

/-- A restored assigner is the one that was saved. -/
theorem fromDict_ofRoll (r : Roll String) : fromDict (ofRoll r).toDict = ofRoll r := by
  rw [fromDict, toDict, show (ofRoll r).seq_by_filename = r.dict from rfl, r.max_dict, ofRoll]

/-- The assignment of `_receive_v01`, which restores the assigner each time. -/
theorem assignSeq_eq (data : List (String × ℕ)) (name : String) :
    assignSeq data name = (((fromDict data).assign name).1, ((fromDict data).assign name).2.toDict) := by
  unfold assignSeq assign
  rw [show (fromDict data).seq_by_filename = data from rfl]
  cases data.lookup name with
  | none => rfl
  | some seq => rfl

theorem assignSeq_dict (r : Roll String) (name : String) :
    assignSeq r.dict name = (r.number name, (r.enter name).dict) := by
  rw [assignSeq_eq, show r.dict = (ofRoll r).toDict from rfl, fromDict_ofRoll, assign_ofRoll]
  rfl

end SeqAssigner

/-! ## `adapt_v01` -/

/-- The hash function that names the events, with its root. -/
structure UuidScheme (UUID : Type) where
  NAMESPACE_DNS : UUID
  uuid5 : UUID → String → UUID

/-- `_synthetic_event_id` -/
def UuidScheme.syntheticEventId {UUID : Type} (u : UuidScheme UUID) (pair_id : PairId) (legacy_id : String) : UUID :=
  u.uuid5 (u.uuid5 u.NAMESPACE_DNS ("muse-agent-social.v0-1." ++ pair_id)) legacy_id

/-- `VerifiedLegacy`.  `hmac_ok` is always true. -/
structure VerifiedLegacy where
  raw : List UInt8
  envelope : LegacyEnvelope
  /-- Empty in the drain. -/
  filename : String := ""
  pair_id : PairId
  /-- `_check_routing` -/
  routed : envelope.pair = pair_id

/-- `verified.filename or envelope["id"]` -/
def VerifiedLegacy.name (o : VerifiedLegacy) : String := if o.filename = "" then o.envelope.id else o.filename

/-- The event that `adapt_v01` makes. -/
structure AdaptedEvent (UUID : Type) where
  event_id : UUID
  event_type : String := "message.created"
  legacy_source : String := "v0.1"
  legacy_id : String
  legacy_type : LegacyType
  pair_id : PairId
  sender : AgentId
  sender_seq : ℕ
  created_at : Option ℕ
  received_at : ℕ
  payload : AdaptedPayload
  raw_v01 : List UInt8
  hmac_ok : Bool := true

/-- `adapt_v01`, which every caller gives the pair of the policy. -/
def VerifiedLegacy.adapt {UUID : Type} (u : UuidScheme UUID) (o : VerifiedLegacy) (a : SeqAssigner) (now : ℕ) :
    AdaptedEvent UUID × SeqAssigner :=
  let (seq, a) := a.assign o.name
  ({ event_id := u.syntheticEventId o.pair_id o.envelope.id
     legacy_id := o.envelope.id
     legacy_type := o.envelope.type
     pair_id := o.pair_id
     sender := o.envelope.sender
     sender_seq := seq
     created_at := o.envelope.created_at
     received_at := now
     payload := adaptV01 o.envelope.toLegacyContent
     raw_v01 := o.raw }, a)

/-! ## Runs -/

/-- A process that adapts objects, with what is saved. -/
structure Numbering (UUID : Type) where
  assigner : SeqAssigner := {}
  adapted : List (VerifiedLegacy × AdaptedEvent UUID) := []
  saved : List (String × ℕ) := []
  stored : List (VerifiedLegacy × AdaptedEvent UUID) := []

/-- What happens to it. -/
inductive NumberingAct where
  | adapt (o : VerifiedLegacy) (now : ℕ)
  /-- One transaction saves the dictionary and stores the events. -/
  | save
  /-- A new process has what is saved. -/
  | restart

/-- One step. -/
def Numbering.next {UUID : Type} (u : UuidScheme UUID) (s : Numbering UUID) : NumberingAct → Numbering UUID
  | .adapt o now =>
    let (event, assigner) := o.adapt u s.assigner now
    { s with assigner, adapted := s.adapted ++ [(o, event)] }
  | .save => { s with saved := s.assigner.toDict, stored := s.adapted }
  | .restart => { s with assigner := SeqAssigner.fromDict s.saved, adapted := s.stored }

/-- The runs that start with a new assigner. -/
def numbering {UUID : Type} (u : UuidScheme UUID) : Machine (Numbering UUID) NumberingAct where
  init s := s = {}
  step s act := some (s.next u act)

section numbering

variable {UUID : Type} {u : UuidScheme UUID} {s : Numbering UUID} {r : Roll String} {a : SeqAssigner}
  {events : List (VerifiedLegacy × AdaptedEvent UUID)}

/-- The events have the numbers of the roll, which has the names of their objects, and the
ids of their objects. -/
structure Numbered (u : UuidScheme UUID) (r : Roll String) (events : List (VerifiedLegacy × AdaptedEvent UUID)) :
    Prop where
  seqs : ∀ e ∈ events, e.2.sender_seq = r.number e.1.name
  names : ∀ name, name ∈ r.keys ↔ name ∈ events.map (fun e => e.1.name)
  ids : ∀ e ∈ events, e.2.event_id = u.syntheticEventId e.1.envelope.pair e.1.envelope.id

theorem Numbered.name_mem (h : Numbered u r events) {e : VerifiedLegacy × AdaptedEvent UUID} (he : e ∈ events) :
    e.1.name ∈ r.keys :=
  (h.names _).mpr (List.mem_map_of_mem he)

theorem Numbered.adapt (h : Numbered u r events) (o : VerifiedLegacy) (now : ℕ) :
    Numbered u (r.enter o.name) (events ++ [(o, (o.adapt u (SeqAssigner.ofRoll r) now).1)]) where
  seqs e he := by
    obtain he | he := List.mem_append.mp he
    · rw [r.number_enter_of_mem (h.name_mem he)]
      exact h.seqs e he
    · rw [List.mem_singleton.mp he]
      show ((SeqAssigner.ofRoll r).assign o.name).1 = (r.enter o.name).number o.name
      rw [SeqAssigner.assign_ofRoll, r.number_enter_self]
  names name := by
    rw [r.mem_enter, h.names, List.map_append, List.mem_append, List.map_singleton, List.mem_singleton]
  ids e he := by
    obtain he | he := List.mem_append.mp he
    · exact h.ids e he
    · rw [List.mem_singleton.mp he]
      show u.syntheticEventId o.pair_id o.envelope.id = u.syntheticEventId o.envelope.pair o.envelope.id
      rw [o.routed]

/-- Both the process and what is saved go by a roll. -/
structure Enrolled (u : UuidScheme UUID) (s : Numbering UUID) : Prop where
  running : ∃ r, s.assigner = SeqAssigner.ofRoll r ∧ Numbered u r s.adapted
  kept : ∃ r, s.saved = (SeqAssigner.ofRoll r).toDict ∧ Numbered u r s.stored

theorem Enrolled.empty : Enrolled u {} := by
  have hnone : Numbered u Roll.empty [] := ⟨by simp, by simp [Roll.empty], by simp⟩
  exact ⟨⟨Roll.empty, rfl, hnone⟩, ⟨Roll.empty, rfl, hnone⟩⟩

theorem Enrolled.next (h : Enrolled u s) (act : NumberingAct) : Enrolled u (s.next u act) := by
  obtain ⟨r, hassigner, hadapted⟩ := h.running
  cases act with
  | adapt o now =>
    refine ⟨⟨r.enter o.name, ?_, ?_⟩, h.kept⟩
    · show (s.assigner.assign o.name).2 = SeqAssigner.ofRoll (r.enter o.name)
      rw [hassigner, SeqAssigner.assign_ofRoll]
    · show Numbered u (r.enter o.name) (s.adapted ++ [(o, (o.adapt u s.assigner now).1)])
      rw [hassigner]
      exact hadapted.adapt o now
  | save =>
    refine ⟨h.running, r, ?_, hadapted⟩
    show s.assigner.toDict = (SeqAssigner.ofRoll r).toDict
    rw [hassigner]
  | restart =>
    obtain ⟨r, hsaved, hstored⟩ := h.kept
    refine ⟨⟨r, ?_, hstored⟩, h.kept⟩
    show SeqAssigner.fromDict s.saved = SeqAssigner.ofRoll r
    rw [hsaved, SeqAssigner.fromDict_ofRoll]

theorem enrolled_of_reachable (h : (numbering u).Reachable s) : Enrolled u s := by
  refine h.invariant (P := Enrolled u) ?_ ?_
  · intro s hs
    rw [hs]
    exact Enrolled.empty
  · intro s act t hs _ hstep
    rw [← Option.some.inj hstep]
    exact hs.next act

/-! ## Numbers by names -/

/-- Two events have one number when their objects have one name, and one id when they have
one object.  The numbers are those from 1 to the number of names, and a restored assigner
is the same. -/
structure ByName (s : Numbering UUID) : Prop where
  seqs : ∀ e ∈ s.adapted, ∀ e' ∈ s.adapted, e.2.sender_seq = e'.2.sender_seq ↔ e.1.name = e'.1.name
  ids : ∀ e ∈ s.adapted, ∀ e' ∈ s.adapted, e.1.envelope = e'.1.envelope → e.2.event_id = e'.2.event_id
  dense : ∀ n, (∃ e ∈ s.adapted, e.2.sender_seq = n) ↔ 1 ≤ n ∧ n ≤ (s.adapted.map (fun e => e.1.name)).dedup.length
  restored : SeqAssigner.fromDict s.assigner.toDict = s.assigner

/-- In every run the numbers go by the names. -/
theorem numbering_byName (h : (numbering u).Reachable s) : ByName s := by
  obtain ⟨r, hassigner, hadapted⟩ := (enrolled_of_reachable h).running
  refine ⟨?_, ?_, ?_, ?_⟩
  · intro e he e' he'
    rw [hadapted.seqs e he, hadapted.seqs e' he', r.number_eq_iff (hadapted.name_mem he)]
  · intro e he e' he' heq
    rw [hadapted.ids e he, hadapted.ids e' he', heq]
  · intro n
    rw [← r.size_eq_of_mem_iff hadapted.names, ← r.exists_number_iff]
    constructor
    · intro ⟨e, he, hseq⟩
      exact ⟨e.1.name, hadapted.name_mem he, (hadapted.seqs e he).symm.trans hseq⟩
    · intro ⟨name, hname, hnumber⟩
      obtain ⟨e, he, heq⟩ := List.mem_map.mp ((hadapted.names name).mp hname)
      refine ⟨e, he, ?_⟩
      rw [hadapted.seqs e he, heq, hnumber]
  · rw [hassigner, SeqAssigner.fromDict_ofRoll]

/-- Distinct objects of one sender have distinct numbers. -/
def DistinctObjects (s : Numbering UUID) : Prop :=
  ∀ e ∈ s.adapted, ∀ e' ∈ s.adapted, e.1.envelope.sender = e'.1.envelope.sender → e.1.envelope ≠ e'.1.envelope →
    e.2.sender_seq ≠ e'.2.sender_seq

/-- One object has one number. -/
def StableObjects (s : Numbering UUID) : Prop :=
  ∀ e ∈ s.adapted, ∀ e' ∈ s.adapted, e.1.envelope = e'.1.envelope → e.2.sender_seq = e'.2.sender_seq

end numbering

/-! ### Two files of one name, and two names of one object -/

/-- An object of the peer in a file. -/
def noteIn (filename id : String) : VerifiedLegacy where
  raw := id.toUTF8.toList
  envelope :=
    let content : LegacyContent := ⟨id, "bob", "alice", "pair", .note, "hello", "world", some 900, "n-" ++ id, none, ""⟩
    { content with sig := some (5, content) }
  filename := filename
  pair_id := "pair"
  routed := rfl

/-- Names that are spelled out. -/
def spelledOut : UuidScheme String := ⟨"dns", fun space name => space ++ "/" ++ name⟩

/-- Two objects come in files of one name, and the first one again in another file. -/
def oneNameTwice : List NumberingAct :=
  [.adapt (noteIn "note.json" "first") 1000, .save, .restart, .adapt (noteIn "note.json" "second") 1001,
    .adapt (noteIn "copy.json" "first") 1002]

theorem numbering_byName_oneNameTwice :
    ∃ s, (numbering spelledOut).run {} oneNameTwice = some s ∧ ByName s := by
  obtain ⟨s, hrun⟩ : ∃ s, (numbering spelledOut).run {} oneNameTwice = some s := ⟨_, rfl⟩
  exact ⟨s, hrun, numbering_byName (Machine.reachable_of_run rfl hrun)⟩

/-- The numbers do not go by the objects. -/
theorem numbering_not_byObject :
    ∃ s, (numbering spelledOut).run {} oneNameTwice = some s ∧ ¬DistinctObjects s ∧ ¬StableObjects s := by
  refine ⟨_, rfl, ?_, ?_⟩
  · intro h
    exact h _ (List.mem_of_getElem? (i := 0) rfl) _ (List.mem_of_getElem? (i := 1) rfl) rfl (by decide) (by decide)
  · intro h
    exact absurd (h _ (List.mem_of_getElem? (i := 0) rfl) _ (List.mem_of_getElem? (i := 2) rfl) rfl) (by decide)

/-! ## The drain -/

/-- A side that goes through a migration and receives v0.1 objects, from the first object on.
What is recorded of the migration may be anything. -/
def drainedFromStart (ctx : Context) : Machine Store SideAction where
  init s := s.events = Table.empty ∧ s.seq_assigner = []
  step s a := some (a.next ctx s)

section drain

variable {ctx : Context} {s s' : Store} {r : Roll String}

/-- The events have the numbers of the roll, which has the ids of their objects. -/
structure Seated (r : Roll String) (s : Store) : Prop where
  assigned : s.seq_assigner = r.dict
  seqs : ∀ row ∈ s.events.rows, row.sender_seq = r.number row.event_id.2
  ids : ∀ id, id ∈ r.keys ↔ ∃ row ∈ s.events.rows, row.event_id.2 = id

theorem Seated.persist (h : Seated r s) {rid : String} {referenced : Bool} {pair_id : PairId} {e : LegacyEnvelope}
    (hpersist : s.persist rid referenced pair_id e = some s') : Seated (r.enter e.id) s' := by
  unfold Store.persist at hpersist
  rw [h.assigned, SeqAssigner.assignSeq_dict] at hpersist
  dsimp only at hpersist
  split at hpersist
  · exact absurd hpersist (by simp)
  obtain ⟨events, hinsert, heq⟩ := Option.map_eq_some_iff.mp hpersist
  rw [← heq]
  have hmem : ∀ row, row ∈ events.rows ↔ row ∈ s.events.rows ∨ row = _ := fun _ => Table.mem_of_insert hinsert
  refine ⟨rfl, ?_, ?_⟩
  · intro row hrow
    obtain hrow | hrow := (hmem row).mp hrow
    · rw [h.seqs row hrow, r.number_enter_of_mem ((h.ids _).mpr ⟨row, hrow, rfl⟩)]
    · rw [hrow]
      exact (r.number_enter_self e.id).symm
  · intro id
    rw [r.mem_enter, h.ids]
    constructor
    · intro hid
      obtain ⟨row, hrow, hrowid⟩ | hid := hid
      · exact ⟨row, (hmem row).mpr (Or.inl hrow), hrowid⟩
      · exact ⟨_, (hmem _).mpr (Or.inr rfl), hid.symm⟩
    · intro ⟨row, hrow, hrowid⟩
      obtain hrow | hrow := (hmem row).mp hrow
      · exact Or.inl ⟨row, hrow, hrowid⟩
      · right
        rw [← hrowid, hrow]

theorem Seated.next (h : Seated r s) (a : SideAction) : ∃ r', Seated r' (a.next ctx s) := by
  cases a with
  | migrate a => exact ⟨r, h.assigned, h.seqs, h.ids⟩
  | receive a =>
    show ∃ r', Seated r' (receiveV01 ctx a s).2
    obtain ⟨-, receive_quarantine, heq⟩ | ⟨pair_id, e, -, -, hpersist⟩ := receiveV01_eq ctx a s
    · rw [heq]
      exact ⟨r, h.assigned, h.seqs, h.ids⟩
    · exact ⟨r.enter e.id, h.persist hpersist⟩

/-- In the drain the numbers go by the ids of the objects, from 1 on and without a gap, and a
restored assigner goes on behind the last one. -/
theorem draining_numbers (h : (drainedFromStart ctx).Reachable s) :
    (∀ row ∈ s.events.rows, ∀ row' ∈ s.events.rows,
      row.sender_seq = row'.sender_seq ↔ row.event_id.2 = row'.event_id.2) ∧
    (∀ n, (∃ row ∈ s.events.rows, row.sender_seq = n) ↔ 1 ≤ n ∧ n ≤ s.seq_assigner.length) ∧
    (SeqAssigner.fromDict s.seq_assigner).next = s.seq_assigner.length + 1 := by
  have hseated : ∃ r, Seated r s := by
    refine h.invariant (P := fun s => ∃ r, Seated r s) ?_ ?_
    · intro s hinit
      obtain ⟨hevents, hassigned⟩ := hinit
      refine ⟨Roll.empty, hassigned, ?_, ?_⟩ <;> simp [hevents, Table.empty, Roll.empty]
    · intro s a t hs _ hstep
      obtain ⟨r, hr⟩ := hs
      rw [← Option.some.inj hstep]
      exact hr.next a
  obtain ⟨r, hr⟩ := hseated
  have hsize : s.seq_assigner.length = r.size := by
    rw [hr.assigned]
    exact List.length_zipIdx
  refine ⟨?_, ?_, ?_⟩
  · intro row hrow row' hrow'
    rw [hr.seqs row hrow, hr.seqs row' hrow', r.number_eq_iff ((hr.ids _).mpr ⟨row, hrow, rfl⟩)]
  · intro n
    rw [hsize, ← r.exists_number_iff]
    constructor
    · intro hrow
      obtain ⟨row, hrow, hseq⟩ := hrow
      exact ⟨_, (hr.ids _).mpr ⟨row, hrow, rfl⟩, (hr.seqs row hrow).symm.trans hseq⟩
    · intro hid
      obtain ⟨id, hid, hnumber⟩ := hid
      obtain ⟨row, hrow, hrowid⟩ := (hr.ids id).mp hid
      refine ⟨row, hrow, ?_⟩
      rw [hr.seqs row hrow, hrowid, hnumber]
  · rw [hsize, hr.assigned]
    exact congrArg SeqAssigner.next (SeqAssigner.fromDict_ofRoll r)

/-- The note and the link come in, and the note again. -/
def sampleArrivals : List SideAction := [.receive sampleArrival, .receive linkArrival, .receive sampleArrival]

theorem draining_numbers_sampleArrivals :
    ∃ s, (drainedFromStart sampleContext).run drainStore sampleArrivals = some s ∧
      s.events.rows.map (fun row => (row.event_id.2, row.sender_seq)) = [("legacy-1", 1), ("legacy-2", 2)] ∧
      (SeqAssigner.fromDict s.seq_assigner).next = s.seq_assigner.length + 1 := by
  obtain ⟨s, hrun, hrows⟩ : ∃ s, (drainedFromStart sampleContext).run drainStore sampleArrivals = some s ∧
      s.events.rows.map (fun row => (row.event_id.2, row.sender_seq)) = [("legacy-1", 1), ("legacy-2", 2)] :=
    ⟨_, rfl, by decide +kernel⟩
  exact ⟨s, hrun, hrows, (draining_numbers (Machine.reachable_of_run ⟨rfl, rfl⟩ hrun)).2.2⟩

end drain

end MuseAgentSocial.Migrate
