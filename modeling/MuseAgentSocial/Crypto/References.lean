import MuseAgentSocial.Crypto.RowOrder

/-!
# Key rows that stored events reference

`events` has a foreign key into `key_epochs` and is never deleted from, so a key row
under whose epoch an event is stored cannot be deleted.

* `sweepStore` is `sweep` over the relationships of one store, and `receiveEvent` the
  epoch gate with the insert that follows it.
* `SweepClear` says that no row which the sweep is to delete is referenced, and `Clear`
  says what each call needs.
* `sweepRetireAll_of_blocked` and `sweepRetireAll_of_clear` are the retirement loop of
  one relationship: by the order of the rows no retirement hides a later one.
* `references_clear_iff` is the result over runs.  In `blockedRun` the log of one
  relationship keeps the due key of another.
-/

namespace MuseAgentSocial.Crypto

open Model RotationManager Keys

namespace RotationManager

/-! ## The log -/

/-- `INSERT INTO events`. -/
def insertIntoEvents (s : Side) (event : StoredEvent) : Side × Except Raised Unit :=
  if (s.key_epochs.find event.key_epoch).isNone then
    (s, .error .integrity_error)
  else
    ({ s with events := s.events.insertOrIgnore event }, .ok ())

/-- The epoch gate of `_receive_object_inner` and the insert of what passes it. -/
def receiveEvent (s : Side) (event : StoredEvent) (now : Nat) : Side × Except Raised Unit :=
  match onDataEventEpoch s event.key_epoch now with
  | (s', .error raised) => (s', .error raised)
  | (s', .ok ()) => insertIntoEvents s' event

/-! ## The sweep of a store -/

/-- The first transaction of `sweep`, over all relationships at once. -/
def compactStore (sides : List Side) (now : Nat) : List Side × Except Raised Unit :=
  if sides.any (fun s => s.peerRows.any (fun r => stalePeer s r && s.referenced r.epoch)) then
    (sides, .error .integrity_error)
  else
    (sides.map (fun s => (sweepCompact s now).1), .ok ())

/-- The relationship whose candidate timed out first. -/
def firstTimedOut (sides : List Side) (now : Nat) : Option Nat :=
  ((sides.zipIdx.filterMap (fun x => (timedOutCandidate x.1 now).map (fun r => (r.deadline, x.2)))).insertionSort
    (fun a b => a.1 ≤ b.1)).head?.map (·.2)

/-- The second transaction of `sweep`: one candidate of one relationship. -/
def timeoutStore (sides : List Side) (now : Nat) : List Side × Except Raised Unit :=
  match firstTimedOut sides now with
  | none => (sides, .ok ())
  | some rid =>
    match sides[rid]? with
    | none => (sides, .ok ())
    | some s => (sides.set rid (sweepTimeout s now).1, (sweepTimeout s now).2)

/-- The retirement loop of `sweep`, relationship by relationship.  The rows of two
relationships do not meet, so another order of them only changes what is done before
a raise. -/
def retireStore (now : Nat) : List Side → List Side × Except Raised Unit
  | [] => ([], .ok ())
  | s :: sides =>
    match sweepRetireAll s now (committedRotating s) with
    | (s', .error raised) => (s' :: sides, .error raised)
    | (s', .ok ()) => (s' :: (retireStore now sides).1, (retireStore now sides).2)

/-- `sweep`. -/
def sweepStore (sides : List Side) (now : Nat) : List Side × Except Raised Unit :=
  match compactStore sides now with
  | (sides₁, .error raised) => (sides₁, .error raised)
  | (sides₁, .ok ()) =>
    match timeoutStore sides₁ now with
    | (sides₂, .error raised) => (sides₂, .error raised)
    | (sides₂, .ok ()) => retireStore now sides₂

end RotationManager

/-! ## The calls on a store -/

/-- A method that works on one relationship and writes no event. -/
def RotationCall.single : RotationCall → Bool
  | .sweep _ | .sweepCompact _ | .sweepTimeout _ | .sweepRetire _ _ | .store _ => false
  | _ => true

/-- A call on the store of several relationships. -/
inductive StoreCall where
  | on (rid : Nat) (call : RotationCall)
  | insert (rid : Nat) (event : StoredEvent)
  | receive (rid : Nat) (event : StoredEvent) (now : Nat)
  | sweep (now : Nat)
  deriving Repr

/-- The calls on a store after pairing. -/
def storeCalls : Machine (List Side) StoreCall where
  init sides := ∀ s ∈ sides, s.Fresh
  step sides
    | .on rid call =>
      if call.single then sides[rid]?.map (fun s => sides.set rid (s.call call)) else none
    | .insert rid event => sides[rid]?.map (fun s => sides.set rid (insertIntoEvents s event).1)
    | .receive rid event now => sides[rid]?.map (fun s => sides.set rid (receiveEvent s event now).1)
    | .sweep now => some (sweepStore sides now).1

/-! ## What is due -/

/-- A committed rotation is due, and the key that replaces the prior one is there. -/
def Due (s : Side) (now : Nat) (row : Rotation) : Prop :=
  (row.committed_at.any (fun t => t + OLD_KEY_RETENTION ≤ now) = true ∨
    OLD_KEY_EVENT_LIMIT ≤ row.accepted_events_since_commit) ∧
  (s.ownRow row.epoch).isSome = true

/-- The prior key of a due rotation cannot be deleted. -/
def DueBlocked (s : Side) (now : Nat) (row : Rotation) : Prop :=
  Due s now row ∧ (s.ownRow row.prior_epoch).isSome = true ∧ s.referenced row.prior_epoch = true

/-- No event references a key row that the sweep is to delete: a peer row that is not
one of the two newest, the candidate that timed out first, or, when no candidate timed
out, the prior key of a due rotation that the first transaction leaves. -/
structure SweepClear (sides : List Side) (now : Nat) : Prop where
  peers : ∀ s ∈ sides, ∀ row ∈ s.peerRows, stalePeer s row = true → s.referenced row.epoch = false
  candidate : ∀ rid ∈ firstTimedOut sides now, ∀ s ∈ sides[rid]?, ∀ r ∈ timedOutCandidate s now,
    s.referenced r.epoch = false
  retired : firstTimedOut sides now = none → ∀ s ∈ sides, ∀ row ∈ committedRotating s,
    staleCommitted s now row = false → ¬ DueBlocked s now row

/-- A sweep that no reference stops, and the keys that it was to delete are deleted. -/
structure Maintained (sides : List Side) (now : Nat) (sides' : List Side) : Prop where
  intact : (sweepStore sides now).2 ≠ .error .integrity_error
  discarded : ∀ (rid : Nat) (s : Side) (r : Rotation) (s' : Side), firstTimedOut sides now = some rid → sides[rid]? = some s →
    timedOutCandidate s now = some r → sides'[rid]? = some s' → s'.ownRow r.epoch = none
  retired : firstTimedOut sides now = none → ∀ (rid : Nat) (s s' : Side), sides[rid]? = some s → sides'[rid]? = some s' →
    ∀ row ∈ committedRotating s, staleCommitted s now row = false → Due s now row →
      s'.ownRow row.prior_epoch = none

instance (s : Side) (now : Nat) (row : Rotation) : Decidable (Due s now row) :=
  inferInstanceAs (Decidable ((_ ∨ _) ∧ _))

instance (s : Side) (now : Nat) (row : Rotation) : Decidable (DueBlocked s now row) :=
  inferInstanceAs (Decidable (_ ∧ _ ∧ _))

instance (sides : List Side) (now : Nat) : Decidable (SweepClear sides now) :=
  decidable_of_iff
    ((∀ s ∈ sides, ∀ row ∈ s.peerRows, stalePeer s row = true → s.referenced row.epoch = false) ∧
      (∀ rid ∈ firstTimedOut sides now, ∀ s ∈ sides[rid]?, ∀ r ∈ timedOutCandidate s now, s.referenced r.epoch = false) ∧
      (firstTimedOut sides now = none → ∀ s ∈ sides, ∀ row ∈ committedRotating s,
        staleCommitted s now row = false → ¬ DueBlocked s now row))
    ⟨fun h => ⟨h.1, h.2.1, h.2.2⟩, fun h => ⟨h.peers, h.candidate, h.retired⟩⟩

/-- The reason of an entry that `resolve_quarantine` takes. -/
def QuarantineReason.resolvable : QuarantineReason → Bool
  | .conflicting_prepare _ _ => true
  | _ => false

/-- The override discards a candidate under whose epoch an event is stored. -/
def ResolveBlocked (s : Side) (index : Int) : Prop :=
  0 ≤ index ∧ ∃ entry ∈ s.rotation_quarantine[index.toNat]?, entry.reason.resolvable = true ∧
    (s.candidate entry.epoch).isSome = true ∧ s.referenced entry.epoch = true

/-- The entry for which a call of `resolve_quarantine` chooses "theirs". -/
def RotationCall.overrides : RotationCall → Option Int
  | .resolveQuarantine index .theirs _ => some index
  | _ => none

/-- What a call must find in the log and the key rows. -/
def Clear (sides : List Side) : StoreCall → Prop
  | .on rid call => ∀ s ∈ sides[rid]?, ∀ index ∈ call.overrides, ¬ ResolveBlocked s index
  | .insert _ _ => True
  | .receive rid event _ => ∀ s ∈ sides[rid]?, event.key_epoch ≤ s.currentEpoch →
      (s.key_epochs.find event.key_epoch).isSome = true
  | .sweep now => SweepClear sides now

instance (s : Side) (index : Int) : Decidable (ResolveBlocked s index) :=
  inferInstanceAs (Decidable (_ ∧ ∃ _ ∈ _, _ ∧ _ ∧ _))

instance (sides : List Side) : ∀ call, Decidable (Clear sides call)
  | .on _ _ => inferInstanceAs (Decidable (∀ _ ∈ _, ∀ _ ∈ _, ¬ _))
  | .insert _ _ => isTrue trivial
  | .receive _ _ _ => inferInstanceAs (Decidable (∀ _ ∈ _, _ → _))
  | .sweep now => inferInstanceAs (Decidable (SweepClear sides now))

/-- No event in the log stops a call: the override and the insert of a received event
raise no integrity error, and the sweep deletes what is due. -/
def Unhindered (sides : List Side) (call : StoreCall) (sides' : List Side) : Prop :=
  match call with
  | .on rid (.resolveQuarantine index choice now) =>
    ∀ s, sides[rid]? = some s → (resolveQuarantine s index choice now).2 ≠ .error (.raised .integrity_error)
  | .receive rid event now =>
    ∀ s, sides[rid]? = some s → (receiveEvent s event now).2 ≠ .error .integrity_error
  | .sweep now => Maintained sides now sides'
  | _ => True

/-! ## One relationship -/

namespace RotationManager

variable {s s' : Side} {now : Nat}

variable {row r : Rotation} {rows : List Rotation}

/-- One round of the retirement loop: it is blocked, it deletes the prior key and the
row, or it changes nothing. -/
theorem sweepRetire_spec (hstamped : row.committed_at.isSome = true) :
    (DueBlocked s now row ∧ sweepRetire s row now = (s, .error .integrity_error)) ∨
    (¬ DueBlocked s now row ∧ (sweepRetire s row now).2 = .ok () ∧
      (Due s now row → ∀ e, (sweepRetire s row now).1.ownRow e = if e = row.prior_epoch then none else s.ownRow e) ∧
      (¬ Due s now row → (sweepRetire s row now).1 = s)) := by
  obtain ⟨committed_at, hat⟩ := Option.isSome_iff_exists.mp hstamped
  have hiff : Due s now row ↔ (committed_at + OLD_KEY_RETENTION ≤ now ∨
      OLD_KEY_EVENT_LIMIT ≤ row.accepted_events_since_commit) ∧ (s.ownRow row.epoch).isSome = true := by
    simp [Due, hat]
  unfold DueBlocked
  rw [hiff]
  unfold sweepRetire
  rw [hat]
  dsimp only
  by_cases hdue : committed_at + OLD_KEY_RETENTION ≤ now ∨ OLD_KEY_EVENT_LIMIT ≤ row.accepted_events_since_commit
  · rw [if_pos hdue]
    cases hnew : s.ownRow row.epoch with
    | none => exact Or.inr ⟨by simp, rfl, fun h => absurd h.2 (by simp), fun _ => rfl⟩
    | some new =>
      rw [if_neg (by simp)]
      cases hold : s.ownRow row.prior_epoch with
      | none =>
        dsimp only
        refine Or.inr ⟨by simp, rfl, fun _ e => ?_, fun hnot => absurd ⟨hdue, rfl⟩ hnot⟩
        show s.ownRow e = _
        split_ifs with he
        · rw [he]
          exact hold
        · rfl
      | some old =>
        dsimp only
        cases hreferenced : s.referenced row.prior_epoch with
        | true => exact Or.inl ⟨⟨⟨hdue, rfl⟩, rfl, rfl⟩, rfl⟩
        | false =>
          rw [if_neg (by simp)]
          refine Or.inr ⟨by simp, rfl, fun _ e => ?_, fun hnot => absurd ⟨hdue, rfl⟩ hnot⟩
          have hkeys : ∀ (t : Side) (ref : KeyRef), (t.deletePrivateKey ref).key_epochs = t.key_epochs := by
            intro t ref
            cases ref <;> rfl
          unfold Keys.ownRow
          rw [hkeys, Table.find_delete]
          cases hfind : s.key_epochs.find e with
          | none => simp
          | some row' =>
            have he : row'.epoch = e := Table.key_of_find hfind
            subst he
            by_cases heq : row'.epoch = row.prior_epoch <;> cases hown : row'.isOwn <;>
              simp [Option.filter, heq, hown]
  · rw [if_neg hdue]
    exact Or.inr ⟨fun h => hdue h.1.1, rfl, fun h => absurd h.1 hdue, fun _ => rfl⟩

theorem referenced_congr (h : s'.events = s.events) (epoch : Nat) : s'.referenced epoch = s.referenced epoch := by
  unfold Side.referenced
  rw [h]

theorem due_sweepRetire {later : Rotation} (hstamped : row.committed_at.isSome = true)
    (hblocked : ¬ DueBlocked s now row) (hprior : row.prior_epoch < row.epoch)
    (hlater : row.epoch < later.epoch) :
    (Due (sweepRetire s row now).1 now later ↔ Due s now later) ∧
    (DueBlocked (sweepRetire s row now).1 now later ↔ DueBlocked s now later) := by
  have hevents := referenced_congr (sweepRetire_sameLog s row now).events
  obtain ⟨hb, -⟩ | ⟨-, -, hdeletes, hsame⟩ := @sweepRetire_spec s now row hstamped
  · exact absurd hb hblocked
  · by_cases hdue : Due s now row
    · have hown := hdeletes hdue
      have hnew : Due (sweepRetire s row now).1 now later ↔ Due s now later := by
        unfold Due
        rw [hown, if_neg (by omega)]
      refine ⟨hnew, ?_⟩
      unfold DueBlocked
      rw [hnew, hown, hevents]
      split_ifs with heq
      · constructor
        · rintro ⟨-, hnone, -⟩
          exact absurd hnone (by simp)
        · rintro ⟨-, hsome, hreferenced⟩
          rw [heq] at hsome hreferenced
          exact absurd ⟨hdue, hsome, hreferenced⟩ hblocked
      · rfl
    · rw [hsame hdue]
      exact ⟨Iff.rfl, Iff.rfl⟩

/-- What the retirement loop needs of the rows that it goes through. -/
structure Loopable (rows : List Rotation) : Prop where
  sorted : (rows.map (·.epoch)).Pairwise (· < ·)
  prior : ∀ row ∈ rows, row.prior_epoch < row.epoch
  stamped : ∀ row ∈ rows, row.committed_at.isSome = true

theorem Loopable.tail (h : Loopable (row :: rows)) :
    Loopable rows ∧ ∀ later ∈ rows, row.epoch < later.epoch := by
  have hsorted := h.sorted
  rw [List.map_cons, List.pairwise_cons] at hsorted
  refine ⟨⟨hsorted.2, ?_, ?_⟩, fun later hlater => hsorted.1 _ (List.mem_map_of_mem hlater)⟩
  · exact fun row' hrow' => h.prior row' (List.mem_cons_of_mem _ hrow')
  · exact fun row' hrow' => h.stamped row' (List.mem_cons_of_mem _ hrow')

theorem committedRotating_loopable (ho : Orderly s.toKeys) (ha : InOrder s.toKeys) :
    Loopable (committedRotating s) where
  sorted := ha.committedRotating
  prior row hrow := by
    obtain ⟨hmem, hok⟩ := List.mem_filter.mp hrow
    obtain ⟨hrole, hphase⟩ : row.role = .rotating ∧ row.phase = .committed := of_decide_eq_true hok
    exact (ho.retired _ row (rotation_eq_some.mpr ⟨hmem, rfl, hrole⟩) hphase).1
  stamped row hrow := by
    obtain ⟨hmem, hok⟩ := List.mem_filter.mp hrow
    obtain ⟨-, hphase⟩ : row.role = .rotating ∧ row.phase = .committed := of_decide_eq_true hok
    exact ha.stamped row hmem hphase

/-- A round that returns hands the rest of the loop what it left. -/
theorem sweepRetireAll_cons (h : (sweepRetire s row now).2 = .ok ()) (rows : List Rotation) :
    sweepRetireAll s now (row :: rows) = sweepRetireAll (sweepRetire s row now).1 now rows := by
  conv_lhs => unfold sweepRetireAll
  cases hround : sweepRetire s row now with
  | mk s₁ result =>
    rw [hround] at h
    dsimp only at h
    rw [h]

theorem sweepRetireAll_of_blocked (h : Loopable rows)
    (hblocked : ∃ row ∈ rows, DueBlocked s now row) : (sweepRetireAll s now rows).2 = .error .integrity_error := by
  induction rows generalizing s with
  | nil =>
    obtain ⟨row, hrow, -⟩ := hblocked
    cases hrow
  | cons row rows ih =>
    obtain ⟨htail, hlater⟩ := h.tail
    have hstamped := h.stamped row List.mem_cons_self
    obtain ⟨-, hround⟩ | ⟨hclear, hok, -⟩ := @sweepRetire_spec s now row hstamped
    · unfold sweepRetireAll
      rw [hround]
    · rw [sweepRetireAll_cons hok]
      have hrest : ∃ row' ∈ rows, DueBlocked (sweepRetire s row now).1 now row' := by
        obtain ⟨row', hrow', hb⟩ := hblocked
        cases List.mem_cons.mp hrow' with
        | inl heq => exact absurd (heq ▸ hb) hclear
        | inr hmem =>
          exact ⟨row', hmem, (due_sweepRetire hstamped hclear (h.prior row List.mem_cons_self)
            (hlater row' hmem)).2.mpr hb⟩
      exact ih htail hrest

theorem sweepRetireAll_of_clear (h : Loopable rows)
    (hclear : ∀ row ∈ rows, ¬ DueBlocked s now row) :
    (sweepRetireAll s now rows).2 = .ok () ∧
    ∀ row ∈ rows, Due s now row → (sweepRetireAll s now rows).1.ownRow row.prior_epoch = none := by
  induction rows generalizing s with
  | nil => exact ⟨rfl, fun row hrow => absurd hrow List.not_mem_nil⟩
  | cons row rows ih =>
    obtain ⟨htail, hlater⟩ := h.tail
    have hstamped := h.stamped row List.mem_cons_self
    have hrow := hclear row List.mem_cons_self
    have hstable : ∀ row' ∈ rows, _ := fun row' hrow' =>
      due_sweepRetire hstamped hrow (h.prior row List.mem_cons_self) (hlater row' hrow')
    obtain ⟨hblocked, -⟩ | ⟨-, hok, hdeletes, -⟩ := @sweepRetire_spec s now row hstamped
    · exact absurd hblocked hrow
    · obtain ⟨hresult, hrest⟩ := ih htail
        (fun row' hrow' hb => hclear row' (List.mem_cons_of_mem _ hrow') ((hstable row' hrow').2.mp hb))
      rw [sweepRetireAll_cons hok]
      refine ⟨hresult, fun row' hrow' hdue => ?_⟩
      cases List.mem_cons.mp hrow' with
      | inl heq =>
        obtain rfl := heq
        have hgone := hdeletes hdue row'.prior_epoch
        rw [if_pos rfl] at hgone
        have hfrom : OwnFrom (sweepRetire s row' now).1 (sweepRetireAll (sweepRetire s row' now).1 now rows).1 :=
          sweepRetireAll_rel (fun s => .refl s) (fun _ _ _ h₁ h₂ => h₁.trans h₂)
            (fun s row => sweepRetire_ownFrom s row now) rows _
        cases hafter : (sweepRetireAll (sweepRetire s row' now).1 now rows).1.ownRow row'.prior_epoch with
        | none => rfl
        | some old => exact absurd ((hfrom _ old hafter).symm.trans hgone) (by simp)
      | inr hmem => exact hrest row' hmem ((hstable row' hmem).1.mpr hdue)

theorem mem_timedOutCandidate (h : timedOutCandidate s now = some r) :
    s.rotation r.epoch .rotating = some r ∧ r.phase = .candidate := by
  have hmem := List.mem_of_mem_head? h
  rw [List.mem_insertionSort, List.mem_filter, decide_eq_true_eq] at hmem
  exact ⟨rotation_eq_some.mpr ⟨hmem.1, rfl, hmem.2.1⟩, hmem.2.2.1⟩

theorem sweepTimeout_of_some (ho : Orderly s.toKeys) (h : timedOutCandidate s now = some r) :
    (s.referenced r.epoch = true → (sweepTimeout s now).2 = .error .integrity_error) ∧
    (s.referenced r.epoch = false → (sweepTimeout s now).2 = .error (.rotation .no_ack_timeout) ∧
      (sweepTimeout s now).1.ownRow r.epoch = none) := by
  obtain ⟨hrow, hphase⟩ := mem_timedOutCandidate h
  have hlive : r.live = true := by
    rw [Rotation.live_iff, hphase]
    simp
  have hown := (ho.ownKeys r.epoch r hrow hlive).1
  have hguard : (s.rotation r.epoch .rotating).any (·.phase = .candidate) = true := by
    rw [hrow]
    simp [hphase]
  obtain ⟨row, hrow'⟩ := Option.isSome_iff_exists.mp hown
  unfold sweepTimeout discardCandidate
  rw [h]
  dsimp only
  rw [if_pos hguard, hrow']
  cases hreferenced : s.referenced r.epoch with
  | true => exact ⟨fun _ => rfl, fun hfalse => absurd hfalse (by simp)⟩
  | false =>
    refine ⟨fun htrue => absurd htrue (by simp), fun _ => ⟨rfl, ?_⟩⟩
    have hdeleted : ((s.key_epochs.delete (fun row => row.epoch = r.epoch ∧ row.isOwn = true)).find r.epoch).filter
        (·.isOwn) = none := by
      rw [Table.find_delete]
      cases hfind : s.key_epochs.find r.epoch with
      | none => rfl
      | some row => cases hown : row.isOwn <;> simp [Option.filter, Table.key_of_find hfind, hown]
    obtain ⟨epoch, key, ref⟩ := row
    cases ref with
    | file path => exact hdeleted
    | peer => exact hdeleted

theorem timedOutCandidate_sweepCompact (s : Side) (now : Nat) :
    timedOutCandidate (sweepCompact s now).1 now = timedOutCandidate s now := by
  unfold sweepCompact
  split_ifs
  · rfl
  · unfold timedOutCandidate
    show ((((s.key_rotations.rows.filter _).filter _).insertionSort _).head?) = _
    rw [List.filter_filter]
    congr 2
    apply List.filter_congr
    intro r _
    cases hphase : r.phase <;> simp [staleCommitted, hphase]

theorem committedRotating_sweepCompact
    (h : (s.peerRows.any (fun r => stalePeer s r && s.referenced r.epoch)) = false) :
    committedRotating (sweepCompact s now).1 = (committedRotating s).filter (fun r => !staleCommitted s now r) := by
  unfold sweepCompact
  rw [h]
  show (s.key_rotations.rows.filter _).filter _ = (s.key_rotations.rows.filter _).filter _
  exact List.filter_comm ..

/-- The compaction keeps the own keys and the log, so it does not change what blocks. -/
theorem due_sweepCompact (s : Side) (now : Nat) (row : Rotation) :
    (Due (sweepCompact s now).1 now row ↔ Due s now row) ∧
    (DueBlocked (sweepCompact s now).1 now row ↔ DueBlocked s now row) := by
  unfold DueBlocked Due
  rw [ownRow_sweepCompact, ownRow_sweepCompact, referenced_congr (sweepCompact_sameLog s now).events]
  exact ⟨Iff.rfl, Iff.rfl⟩

/-! ## All relationships -/

variable {sides : List Side}

theorem of_firstTimedOut {rid : Nat} (h : firstTimedOut sides now = some rid) :
    ∃ s r, sides[rid]? = some s ∧ timedOutCandidate s now = some r := by
  unfold firstTimedOut at h
  obtain ⟨⟨deadline, rid'⟩, hhead, rfl⟩ := Option.map_eq_some_iff.mp h
  have hmem := List.mem_of_mem_head? hhead
  rw [List.mem_insertionSort, List.mem_filterMap] at hmem
  obtain ⟨⟨s, i⟩, hx, hsome⟩ := hmem
  obtain ⟨r, hr, heq⟩ := Option.map_eq_some_iff.mp hsome
  obtain ⟨-, rfl⟩ := Prod.mk.inj heq
  exact ⟨s, r, List.mem_zipIdx_iff_getElem?.mp hx, hr⟩

theorem firstTimedOut_map {f : Side → Side} (hf : ∀ s, timedOutCandidate (f s) now = timedOutCandidate s now) :
    firstTimedOut (sides.map f) now = firstTimedOut sides now := by
  unfold firstTimedOut
  rw [List.zipIdx_map, List.filterMap_map]
  congr 4
  funext x
  simp [hf]

/-- What holds of every relationship after any calls. -/
def Steady (s : Side) : Prop := Orderly s.toKeys ∧ InOrder s.toKeys

theorem Steady.loopable (h : Steady s) : Loopable (committedRotating s) := committedRotating_loopable h.1 h.2

theorem retireStore_of_blocked (hkept : ∀ s ∈ sides, Steady s)
    (h : ∃ s ∈ sides, ∃ row ∈ committedRotating s, DueBlocked s now row) :
    (retireStore now sides).2 = .error .integrity_error := by
  induction sides with
  | nil =>
    obtain ⟨s, hs, -⟩ := h
    cases hs
  | cons s sides ih =>
    have hloop := (hkept s List.mem_cons_self).loopable
    unfold retireStore
    by_cases hfirst : ∃ row ∈ committedRotating s, DueBlocked s now row
    · have hresult := sweepRetireAll_of_blocked hloop hfirst
      cases hretire : sweepRetireAll s now (committedRotating s) with
      | mk s' result =>
        rw [hretire] at hresult
        dsimp only at hresult
        rw [hresult]
    · have hclear : ∀ row ∈ committedRotating s, ¬ DueBlocked s now row :=
        fun row hrow hb => hfirst ⟨row, hrow, hb⟩
      have hresult := (sweepRetireAll_of_clear hloop hclear).1
      have hrest : ∃ s ∈ sides, ∃ row ∈ committedRotating s, DueBlocked s now row := by
        obtain ⟨s', hs', hblocked⟩ := h
        cases List.mem_cons.mp hs' with
        | inl heq => exact absurd (heq ▸ hblocked) hfirst
        | inr hmem => exact ⟨s', hmem, hblocked⟩
      cases hretire : sweepRetireAll s now (committedRotating s) with
      | mk s' result =>
        rw [hretire] at hresult
        dsimp only at hresult
        rw [hresult]
        exact ih (fun s hs => hkept s (List.mem_cons_of_mem _ hs)) hrest

theorem retireStore_of_clear (hkept : ∀ s ∈ sides, Steady s)
    (h : ∀ s ∈ sides, ∀ row ∈ committedRotating s, ¬ DueBlocked s now row) :
    (retireStore now sides).2 = .ok () ∧
    ∀ (rid : Nat) (s s' : Side), sides[rid]? = some s → (retireStore now sides).1[rid]? = some s' →
      ∀ row ∈ committedRotating s, Due s now row → s'.ownRow row.prior_epoch = none := by
  induction sides with
  | nil => exact ⟨rfl, fun rid s s' hs => absurd hs (by simp)⟩
  | cons s₀ sides ih =>
    obtain ⟨hresult, hdeleted⟩ := sweepRetireAll_of_clear (hkept s₀ List.mem_cons_self).loopable
      (h s₀ List.mem_cons_self)
    obtain ⟨hrest, hall⟩ := ih (fun s hs => hkept s (List.mem_cons_of_mem _ hs))
      (fun s hs => h s (List.mem_cons_of_mem _ hs))
    unfold retireStore
    cases hretire : sweepRetireAll s₀ now (committedRotating s₀) with
    | mk s₀' result =>
      rw [hretire] at hresult hdeleted
      dsimp only at hresult hdeleted
      rw [hresult]
      refine ⟨hrest, fun rid s s' hs hs' => ?_⟩
      cases rid with
      | zero =>
        obtain rfl := Option.some.inj hs
        obtain rfl := Option.some.inj hs'
        exact hdeleted
      | succ rid => exact hall rid s s' hs hs'

/-- No peer row that the compaction is to delete is referenced. -/
def Compactable (sides : List Side) : Prop :=
  ∀ s ∈ sides, (s.peerRows.any (fun r => stalePeer s r && s.referenced r.epoch)) = false

theorem compactable_iff :
    Compactable sides ↔
      ∀ s ∈ sides, ∀ row ∈ s.peerRows, stalePeer s row = true → s.referenced row.epoch = false := by
  unfold Compactable
  simp only [List.any_eq_false, Bool.and_eq_true, not_and, Bool.not_eq_true]

/-- The compaction of all relationships goes through, or one of them stops it. -/
theorem compactStore_eq (sides : List Side) (now : Nat) :
    Compactable sides ∧ compactStore sides now = (sides.map (fun s => (sweepCompact s now).1), .ok ()) ∨
    ¬ Compactable sides ∧ compactStore sides now = (sides, .error .integrity_error) := by
  unfold compactStore
  split_ifs with hany
  · refine Or.inr ⟨fun hclear => ?_, rfl⟩
    obtain ⟨s, hs, hblocked⟩ := List.any_eq_true.mp hany
    exact absurd (hblocked.symm.trans (hclear s hs)) (by simp)
  · refine Or.inl ⟨fun s hs => ?_, rfl⟩
    by_contra hblocked
    exact hany (List.any_eq_true.mpr ⟨s, hs, by simpa using hblocked⟩)

theorem Steady.sweepCompact (h : Steady s) (now : Nat) : Steady (sweepCompact s now).1 :=
  ⟨sweepCompact_orderly h.1 now, h.2.of_keepsOrder (sweepCompact_keepsOrder s now)⟩

theorem Steady.sweepTimeout (h : Steady s) (now : Nat) : Steady (sweepTimeout s now).1 :=
  ⟨sweepTimeout_orderly h.1 now, h.2.of_keepsOrder (sweepTimeout_keepsOrder s now)⟩

theorem compactStore_of_compactable (h : Compactable sides) (now : Nat) :
    compactStore sides now = (sides.map (fun s => (sweepCompact s now).1), .ok ()) := by
  obtain ⟨-, heq⟩ | ⟨hnot, -⟩ := compactStore_eq sides now
  · exact heq
  · exact absurd h hnot

theorem firstTimedOut_sweepCompact (sides : List Side) (now : Nat) :
    firstTimedOut (sides.map (fun s => (sweepCompact s now).1)) now = firstTimedOut sides now :=
  firstTimedOut_map (fun s => timedOutCandidate_sweepCompact s now)

theorem sweepStore_of_none (h : Compactable sides) (hfirst : firstTimedOut sides now = none) :
    sweepStore sides now = retireStore now (sides.map (fun s => (sweepCompact s now).1)) := by
  unfold sweepStore timeoutStore
  rw [compactStore_of_compactable h]
  dsimp only
  rw [firstTimedOut_sweepCompact, hfirst]

theorem sweepStore_of_some (h : Compactable sides) {rid : Nat} (hsteady : Steady s)
    (hfirst : firstTimedOut sides now = some rid) (hs : sides[rid]? = some s)
    (hr : timedOutCandidate s now = some r) :
    sweepStore sides now =
      ((sides.map (fun s => (sweepCompact s now).1)).set rid (sweepTimeout (sweepCompact s now).1 now).1,
        (sweepTimeout (sweepCompact s now).1 now).2) := by
  have hr' : timedOutCandidate (sweepCompact s now).1 now = some r := by
    rw [timedOutCandidate_sweepCompact]
    exact hr
  obtain ⟨hblocked, hclear⟩ := sweepTimeout_of_some (hsteady.sweepCompact now).1 hr'
  unfold sweepStore timeoutStore
  rw [compactStore_of_compactable h]
  dsimp only
  rw [firstTimedOut_sweepCompact, hfirst]
  dsimp only
  rw [List.getElem?_map, hs, Option.map_some]
  dsimp only
  cases hreferenced : (sweepCompact s now).1.referenced r.epoch with
  | true => rw [hblocked hreferenced]
  | false => rw [(hclear hreferenced).1]

/-- What the first transaction leaves blocks a retirement exactly when it did before. -/
theorem committed_sweepCompact (h : Compactable sides) (hs : s ∈ sides) :
    row ∈ committedRotating (sweepCompact s now).1 ↔ row ∈ committedRotating s ∧ staleCommitted s now row = false := by
  rw [committedRotating_sweepCompact (h s hs), List.mem_filter, Bool.not_eq_true']

/-- A clear sweep returns, or it reports the candidate that it discarded, and in either
case what was due is deleted. -/
theorem maintained_of_clear (hsteady : ∀ s ∈ sides, Steady s) (h : SweepClear sides now) :
    Maintained sides now (sweepStore sides now).1 := by
  have hcompact : Compactable sides := compactable_iff.mpr h.peers
  cases hfirst : firstTimedOut sides now with
  | none =>
    have hsteady₁ : ∀ s ∈ sides.map (fun s => (sweepCompact s now).1), Steady s := by
      intro s₁ hs₁
      obtain ⟨s, hs, rfl⟩ := List.mem_map.mp hs₁
      exact (hsteady s hs).sweepCompact now
    have hclear₁ : ∀ s ∈ sides.map (fun s => (sweepCompact s now).1), ∀ row ∈ committedRotating s,
        ¬ DueBlocked s now row := by
      intro s₁ hs₁ row hrow hblocked
      obtain ⟨s, hs, rfl⟩ := List.mem_map.mp hs₁
      obtain ⟨hmem, hkept⟩ := (committed_sweepCompact hcompact hs).mp hrow
      exact h.retired hfirst s hs row hmem hkept ((due_sweepCompact s now row).2.mp hblocked)
    obtain ⟨hresult, hdeleted⟩ := retireStore_of_clear hsteady₁ hclear₁
    rw [← sweepStore_of_none hcompact hfirst] at hresult hdeleted
    refine ⟨by rw [hresult]; simp, fun rid s r s' hrid => absurd (hrid.symm.trans hfirst) (by simp), ?_⟩
    intro _ rid s s' hs hs' row hrow hstale hdue
    have hmem := List.mem_of_getElem? hs
    refine hdeleted rid (sweepCompact s now).1 s' ?_ hs' row ?_ ((due_sweepCompact s now row).1.mpr hdue)
    · rw [List.getElem?_map, hs, Option.map_some]
    · exact (committed_sweepCompact hcompact hmem).mpr ⟨hrow, hstale⟩
  | some rid =>
    obtain ⟨s, r, hs, hr⟩ := of_firstTimedOut hfirst
    have hs₀ := hsteady s (List.mem_of_getElem? hs)
    have hr' : timedOutCandidate (sweepCompact s now).1 now = some r := by
      rw [timedOutCandidate_sweepCompact]
      exact hr
    have hreferenced : (sweepCompact s now).1.referenced r.epoch = false := by
      rw [referenced_congr (sweepCompact_sameLog s now).events]
      exact h.candidate rid hfirst s hs r hr
    obtain ⟨hresult, hgone⟩ := (sweepTimeout_of_some (hs₀.sweepCompact now).1 hr').2 hreferenced
    have hstore := sweepStore_of_some hcompact hs₀ hfirst hs hr
    refine ⟨by rw [hstore, hresult]; simp, ?_, fun hnone => absurd (hnone.symm.trans hfirst) (by simp)⟩
    intro rid' s₁ r₁ s' hfirst' hs₁ hr₁ hs'
    obtain rfl := Option.some.inj (hfirst'.symm.trans hfirst)
    obtain rfl := Option.some.inj (hs₁.symm.trans hs)
    obtain rfl := Option.some.inj (hr₁.symm.trans hr)
    obtain ⟨hlt, -⟩ := List.getElem?_eq_some_iff.mp hs
    rw [hstore] at hs'
    dsimp only at hs'
    rw [List.getElem?_set_self (by simpa using hlt)] at hs'
    obtain rfl := Option.some.inj hs'
    exact hgone

theorem clear_of_intact (hsteady : ∀ s ∈ sides, Steady s) (h : (sweepStore sides now).2 ≠ .error .integrity_error) :
    SweepClear sides now := by
  have hcompact : Compactable sides := by
    obtain ⟨hcompact, -⟩ | ⟨-, hblocked⟩ := compactStore_eq sides now
    · exact hcompact
    · refine absurd ?_ h
      unfold sweepStore
      rw [hblocked]
  refine ⟨compactable_iff.mp hcompact, ?_, ?_⟩
  · intro rid hfirst s hs r hr
    have hs₀ := hsteady s (List.mem_of_getElem? hs)
    have hr' : timedOutCandidate (sweepCompact s now).1 now = some r := by
      rw [timedOutCandidate_sweepCompact]
      exact hr
    cases hreferenced : s.referenced r.epoch with
    | false => rfl
    | true =>
      refine absurd ?_ h
      rw [sweepStore_of_some hcompact hs₀ hfirst hs hr]
      refine (sweepTimeout_of_some (hs₀.sweepCompact now).1 hr').1 ?_
      rw [referenced_congr (sweepCompact_sameLog s now).events]
      exact hreferenced
  · intro hfirst s hs row hrow hstale hblocked
    refine h ?_
    rw [sweepStore_of_none hcompact hfirst]
    apply retireStore_of_blocked
    · intro s₁ hs₁
      obtain ⟨s, hs, rfl⟩ := List.mem_map.mp hs₁
      exact (hsteady s hs).sweepCompact now
    · exact ⟨_, List.mem_map_of_mem hs, row, (committed_sweepCompact hcompact hs).mpr ⟨hrow, hstale⟩,
        (due_sweepCompact s now row).2.mpr hblocked⟩

/-! ## The override and the log -/

/-- `on_prepare` inserts under an epoch that has no row. -/
theorem onPrepare_intact (s : Side) (prepare : Prepare) (id : EventId) (now : Nat) :
    (onPrepare s prepare id now).2 ≠ .error .integrity_error := by
  cases hprior : s.priorEpoch prepare with
  | none =>
    unfold onPrepare
    rw [Option.map_eq_none_iff.mp hprior]
    simp
  | some p =>
    cases hrow : s.peerRow (p + 1) with
    | some row =>
      rw [onPrepare_of_peerRow hprior hrow]
      split_ifs <;> simp
    | none =>
      rw [onPrepare_of_no_peerRow hprior hrow]
      by_cases hnext : Next s.toKeys p
      · obtain ⟨hlate, hok⟩ := acceptPrepare_of_next prepare id now (mem_of_priorEpoch hprior) hnext
        by_cases hdeadline : now ≤ prepare.deadline
        · simp [hok hdeadline]
        · simp [hlate (not_le.mp hdeadline)]
      · obtain ⟨code, -, hcode⟩ := acceptPrepare_of_not_next prepare id now hnext
        simp [hcode]

theorem offerAgain_intact (s s₁ : Side) (index : Nat) (prepare : Prepare) (id : EventId) (now : Nat) :
    (offerAgain s s₁ index prepare id now).2 ≠ .error (.raised .integrity_error) := by
  have hprepare := onPrepare_intact s₁ prepare id now
  unfold offerAgain
  cases hout : onPrepare s₁ prepare id now with
  | mk s' result =>
    rw [hout] at hprepare
    cases result with
    | ok ack => simp
    | error raised => simpa using hprepare

/-- The override raises an integrity error exactly when an event is stored under the
epoch of the candidate that it discards. -/
theorem resolveQuarantine_integrity_iff (ho : Orderly s.toKeys) {index : Int} {choice : Choice} :
    (resolveQuarantine s index choice now).2 = .error (.raised .integrity_error) ↔
      choice = .theirs ∧ ResolveBlocked s index := by
  unfold resolveQuarantine ResolveBlocked
  by_cases hindex : index < 0
  · rw [if_pos hindex]
    simp [not_le.mpr hindex]
  · rw [if_neg hindex]
    cases hentry : s.rotation_quarantine[index.toNat]? with
    | none => simp
    | some entry =>
      obtain ⟨epoch, reason, received_at⟩ := entry
      cases reason with
      | unknown_future_epoch => cases choice <;> simp [QuarantineReason.resolvable]
      | unknown_future_epoch_rejected => cases choice <;> simp [QuarantineReason.resolvable]
      | conflicting_prepare prepare id =>
        cases choice with
        | mine => simp
        | other => simp
        | theirs =>
          dsimp only
          cases hcandidate : s.candidate epoch with
          | none =>
            rw [resolveTheirs_of_none hcandidate]
            simp [hcandidate, offerAgain_intact]
          | some r =>
            obtain ⟨hr, hl⟩ := candidate_eq_some.mp hcandidate
            rw [resolveTheirs_of_some hcandidate (ho.ownKeys epoch r hr hl).1]
            cases hreferenced : s.referenced epoch with
            | true => simp [hcandidate, hreferenced, not_lt.mp hindex, QuarantineReason.resolvable]
            | false => simp [hreferenced, offerAgain_intact]

/-- An event that passes the gate fails to be stored exactly when its epoch, which is
not ahead, has no row. -/
theorem receiveEvent_integrity_iff {event : StoredEvent} :
    (receiveEvent s event now).2 = .error .integrity_error ↔
      event.key_epoch ≤ s.currentEpoch ∧ s.key_epochs.find event.key_epoch = none := by
  unfold receiveEvent
  by_cases hle : event.key_epoch ≤ s.currentEpoch
  · rw [onDataEventEpoch_of_le hle]
    unfold insertIntoEvents
    cases hfind : s.key_epochs.find event.key_epoch with
    | none => simp [hfind, hle]
    | some row => simp [hfind]
  · unfold onDataEventEpoch
    rw [if_neg hle]
    dsimp only
    split_ifs <;> simp [hle]

end RotationManager

/-! ## Every call -/

theorem unhindered_iff_clear {sides sides' : List Side} {call : StoreCall} (hsteady : ∀ s ∈ sides, Steady s)
    (hstep : storeCalls.step sides call = some sides') : Unhindered sides call sides' ↔ Clear sides call := by
  cases call with
  | insert rid event => exact Iff.rfl
  | receive rid event now =>
    refine forall_congr' (fun s => forall_congr' (fun _ => ?_))
    rw [ne_eq, receiveEvent_integrity_iff, not_and, ← ne_eq, ← Option.isSome_iff_ne_none]
  | sweep now =>
    obtain rfl := Option.some.inj hstep
    exact ⟨fun h => clear_of_intact hsteady h.intact, maintained_of_clear hsteady⟩
  | on rid call =>
    cases call with
    | resolveQuarantine index choice now =>
      refine forall_congr' (fun s => forall_congr' (fun hs => ?_))
      rw [ne_eq, resolveQuarantine_integrity_iff (hsteady s (List.mem_of_getElem? hs)).1]
      cases choice <;> simp [RotationCall.overrides]
    | _ => simp [Unhindered, Clear, RotationCall.overrides]

namespace RotationManager

theorem Steady.of_keys {s s' : Side} (h : Steady s) (hkeys : s'.toKeys = s.toKeys) : Steady s' := by
  unfold Steady
  rw [hkeys]
  exact h

theorem toKeys_insertIntoEvents (s : Side) (event : StoredEvent) : (insertIntoEvents s event).1.toKeys = s.toKeys := by
  unfold insertIntoEvents
  split_ifs <;> rfl

theorem toKeys_receiveEvent (s : Side) (event : StoredEvent) (now : Nat) :
    (receiveEvent s event now).1.toKeys = s.toKeys := by
  have hgate := (onDataEventEpoch_rest s event.key_epoch now).1
  unfold receiveEvent
  cases hout : onDataEventEpoch s event.key_epoch now with
  | mk s' result =>
    rw [hout] at hgate
    cases result with
    | error raised => exact hgate
    | ok _ => exact (toKeys_insertIntoEvents s' event).trans hgate

theorem Steady.sweepRetireAll {s : Side} (h : Steady s) (now : Nat) :
    Steady (sweepRetireAll s now (committedRotating s)).1 := by
  refine ⟨sweepRetireAll_orderly h.1 now _ (fun row hrow => ?_), h.2.of_keepsOrder ?_⟩
  · obtain ⟨hmem, hok⟩ := List.mem_filter.mp hrow
    obtain ⟨hrole, hphase⟩ : row.role = .rotating ∧ row.phase = .committed := of_decide_eq_true hok
    exact retirable_of_committed h.1 (rotation_eq_some.mpr ⟨hmem, rfl, hrole⟩) hphase
  · exact sweepRetireAll_rel (R := fun s s' => KeepsOrder s.key_rotations s'.key_rotations) (fun _ => .refl _)
      (fun _ _ _ h h' => h.trans h') (fun s row => sweepRetire_keepsOrder s row now) _ s

theorem retireStore_steady {sides : List Side} (h : ∀ s ∈ sides, Steady s) (now : Nat) :
    ∀ s ∈ (retireStore now sides).1, Steady s := by
  induction sides with
  | nil => exact h
  | cons s₀ sides ih =>
    have hfirst := (h s₀ List.mem_cons_self).sweepRetireAll now
    have hrest := fun s hs => h s (List.mem_cons_of_mem s₀ hs)
    unfold retireStore
    cases hout : RotationManager.sweepRetireAll s₀ now (committedRotating s₀) with
    | mk s' result =>
      rw [hout] at hfirst
      intro s hs
      cases result with
      | error raised =>
        cases List.mem_cons.mp hs with
        | inl heq => exact heq ▸ hfirst
        | inr hmem => exact hrest s hmem
      | ok _ =>
        cases List.mem_cons.mp hs with
        | inl heq => exact heq ▸ hfirst
        | inr hmem => exact ih hrest s hmem

theorem steady_set {sides : List Side} (h : ∀ s ∈ sides, Steady s) {rid : Nat} {s' : Side} (hs' : Steady s') :
    ∀ s ∈ sides.set rid s', Steady s := by
  intro s hs
  cases List.mem_or_eq_of_mem_set hs with
  | inl hmem => exact h s hmem
  | inr heq => exact heq ▸ hs'

theorem sweepStore_steady {sides : List Side} (h : ∀ s ∈ sides, Steady s) (now : Nat) :
    ∀ s ∈ (sweepStore sides now).1, Steady s := by
  unfold sweepStore
  obtain ⟨-, hcompact⟩ | ⟨-, hcompact⟩ := compactStore_eq sides now
  · rw [hcompact]
    have h₁ : ∀ s ∈ sides.map (fun s => (RotationManager.sweepCompact s now).1), Steady s := by
      intro s₁ hs₁
      obtain ⟨s, hs, rfl⟩ := List.mem_map.mp hs₁
      exact (h s hs).sweepCompact now
    have h₂ : ∀ s ∈ (timeoutStore (sides.map (fun s => (RotationManager.sweepCompact s now).1)) now).1, Steady s := by
      unfold timeoutStore
      split
      · exact h₁
      · split
        · exact h₁
        · rename_i s hs
          exact steady_set h₁ ((h₁ s (List.mem_of_getElem? hs)).sweepTimeout now)
    dsimp only
    cases hout : timeoutStore (sides.map (fun s => (RotationManager.sweepCompact s now).1)) now with
    | mk sides₂ result =>
      rw [hout] at h₂
      cases result with
      | error raised => exact h₂
      | ok _ => exact retireStore_steady h₂ now
  · rw [hcompact]
    exact h

end RotationManager

/-- Every call keeps what holds of every relationship. -/
theorem steady_step {sides sides' : List Side} {call : StoreCall} (h : ∀ s ∈ sides, Steady s)
    (hstep : storeCalls.step sides call = some sides') : ∀ s ∈ sides', Steady s := by
  cases call with
  | on rid call =>
    simp only [storeCalls] at hstep
    split_ifs at hstep
    obtain ⟨s, hs, rfl⟩ := Option.map_eq_some_iff.mp hstep
    obtain ⟨ho, hin⟩ := h s (List.mem_of_getElem? hs)
    exact steady_set h ⟨ho.call call, hin.call ho call⟩
  | insert rid event =>
    obtain ⟨s, hs, rfl⟩ := Option.map_eq_some_iff.mp hstep
    exact steady_set h ((h s (List.mem_of_getElem? hs)).of_keys (toKeys_insertIntoEvents s event))
  | receive rid event now =>
    obtain ⟨s, hs, rfl⟩ := Option.map_eq_some_iff.mp hstep
    exact steady_set h ((h s (List.mem_of_getElem? hs)).of_keys (toKeys_receiveEvent s event now))
  | sweep now =>
    obtain rfl := Option.some.inj hstep
    exact sweepStore_steady h now

/-- In every run of calls on a store, no event in the log stops a call exactly when every
call finds what it needs: no event is stored under the epoch of a key row that it is to
delete, and an event that is not ahead has the row of its epoch. -/
theorem references_clear_iff {sides₀ sides : List Side} {calls : List StoreCall} (hinit : ∀ s ∈ sides₀, s.Fresh)
    (hrun : storeCalls.run sides₀ calls = some sides) :
    (∀ k before call after, storeCalls.run sides₀ (calls.take k) = some before → calls[k]? = some call →
      storeCalls.step before call = some after → Unhindered before call after) ↔
      storeCalls.okRun Clear sides₀ calls := by
  refine Machine.steps_iff_okRun (I := fun sides => ∀ s ∈ sides, Steady s) (Q := Unhindered) ?_ ?_ ?_ ?_ hrun
  · exact fun _ _ _ hsteady _ hstep => steady_step hsteady hstep
  · exact fun _ _ _ hsteady hclear hstep => (unhindered_iff_clear hsteady hstep).mpr hclear
  · exact fun _ _ _ hsteady hstep hfree => (unhindered_iff_clear hsteady hstep).mp hfree
  · exact fun s hs => ⟨(hinit s hs).orderly, (hinit s hs).inOrder⟩

/-- The calls by which a relationship rotates its own key to epoch 2. -/
def rotates (rid : Nat) (priv : PrivateKey) : List StoreCall :=
  [.on rid (.beginRotation 0 priv none), .on rid (.onAck ⟨2, 7⟩ 0), .on rid (.noteDecryptedNewWrap 2 0),
    .on rid (.markConfirmed 0), .on rid (.onCommit 2 0)]

/-- Two relationships right after pairing. -/
def twoRelationships : List Side := [freshSide ⟨1⟩ ⟨2⟩, freshSide ⟨3⟩ ⟨4⟩]

theorem twoRelationships_fresh : ∀ s ∈ twoRelationships, s.Fresh := by
  intro s hs
  cases List.mem_cons.mp hs with
  | inl heq => exact heq ▸ freshSide_fresh ⟨1⟩ ⟨2⟩
  | inr hmem => exact List.mem_singleton.mp hmem ▸ freshSide_fresh ⟨3⟩ ⟨4⟩

/-- The sweep of the day after a rotation, with nothing in the log. -/
def rotatedRun : List StoreCall := rotates 1 ⟨5⟩ ++ [.sweep 86400]

theorem references_clear_rotated :
    storeCalls.okRun Clear twoRelationships rotatedRun ∧
    ∀ k before call after, storeCalls.run twoRelationships (rotatedRun.take k) = some before →
      rotatedRun[k]? = some call → storeCalls.step before call = some after → Unhindered before call after := by
  have hrun : ∃ sides, storeCalls.run twoRelationships rotatedRun = some sides := ⟨_, rfl⟩
  obtain ⟨sides, hrun⟩ := hrun
  have hclear : storeCalls.okRun Clear twoRelationships rotatedRun := by decide +kernel
  exact ⟨hclear, (references_clear_iff twoRelationships_fresh hrun).mpr hclear⟩

/-- The same sweep after the first relationship received an event under its old epoch. -/
def blockedRun : List StoreCall :=
  .receive 0 ⟨1, 2, 0, 1, .data 0⟩ 0 :: rotates 0 ⟨6⟩ ++ rotates 1 ⟨5⟩ ++ [.sweep 86400]

/-- The sweep raises an integrity error, and the due key of the second relationship stays
too. -/
theorem sweep_stopped_by_log :
    ¬ (∀ k before call after, storeCalls.run twoRelationships (blockedRun.take k) = some before →
      blockedRun[k]? = some call → storeCalls.step before call = some after → Unhindered before call after) ∧
    ∃ before, storeCalls.run twoRelationships (blockedRun.take 11) = some before ∧
      (sweepStore before 86400).2 = .error .integrity_error ∧
      (∃ s ∈ before[1]?, ∃ row ∈ committedRotating s, Due s 86400 row ∧ row.prior_epoch = 1) ∧
      ∃ s ∈ (sweepStore before 86400).1[1]?, (s.ownRow 1).isSome = true := by
  have hrun : ∃ before, storeCalls.run twoRelationships (blockedRun.take 11) = some before := ⟨_, rfl⟩
  obtain ⟨before, hbefore⟩ := hrun
  have hraised : ∀ sides ∈ storeCalls.run twoRelationships (blockedRun.take 11),
      (sweepStore sides 86400).2 = .error .integrity_error ∧
      (∃ s ∈ sides[1]?, ∃ row ∈ committedRotating s, Due s 86400 row ∧ row.prior_epoch = 1) ∧
      ∃ s ∈ (sweepStore sides 86400).1[1]?, (s.ownRow 1).isSome = true := by decide +kernel
  obtain ⟨hresult, hdue, hkey⟩ := hraised before hbefore
  refine ⟨fun h => ?_, before, hbefore, hresult, hdue, hkey⟩
  exact (h 11 before (.sweep 86400) (sweepStore before 86400).1 hbefore rfl rfl).intact hresult

/-- A late event under an epoch whose key was deleted passes the gate and is not stored. -/
theorem late_event_not_stored :
    ∃ before s, storeCalls.run twoRelationships (rotates 0 ⟨5⟩ ++ [.sweep 86400]) = some before ∧
      before[0]? = some s ∧ (onDataEventEpoch s 1 86401).2 = .ok () ∧
      (receiveEvent s ⟨1, 2, 0, 1, .data 0⟩ 86401).2 = .error .integrity_error := by
  have hrun : ∃ before, storeCalls.run twoRelationships (rotates 0 ⟨5⟩ ++ [.sweep 86400]) = some before := ⟨_, rfl⟩
  obtain ⟨before, hbefore⟩ := hrun
  have hlate : ∀ sides ∈ storeCalls.run twoRelationships (rotates 0 ⟨5⟩ ++ [.sweep 86400]), ∃ s ∈ sides[0]?,
      (onDataEventEpoch s 1 86401).2 = .ok () ∧
      (receiveEvent s ⟨1, 2, 0, 1, .data 0⟩ 86401).2 = .error .integrity_error := by decide +kernel
  obtain ⟨s, hs, hgate, hinsert⟩ := hlate before hbefore
  exact ⟨before, s, hbefore, hs, hgate, hinsert⟩

end MuseAgentSocial.Crypto
