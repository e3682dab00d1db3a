import MuseAgentSocial.Crypto.References

/-!
# How long a replaced key is kept

A commit of an own rotation replaces the prior key.  `sweep` is to delete that key when
24 hours have passed since, or 100 data events were accepted since.

* `Replaced` is a key that a commit replaced and what was accepted since, read off the
  milestones of a run.
* `Undisturbed` is what every call but a commit, an accepted event and a sweep does to the
  committed rows and the own keys up to the current epoch.
* `Tracked` is the invariant: the row of every replaced key that is still there has the
  commit time and the count.
* `old_key_retention` is the result over runs.  In `overtakenRun` the peer rotates after
  the commit, and no accepted event is counted any more.
-/

namespace MuseAgentSocial.Crypto

open Model RotationManager Keys

/-! ## What has been replaced -/

/-- A rotation of the own key commits, or a data event is accepted. -/
inductive Milestone where
  | committed (rid epoch prior_epoch committed_at : Nat)
  | accepted (rid : Nat)
  deriving DecidableEq, Repr

/-- The milestones of a call. -/
def milestones (sides : List Side) : StoreCall → List Milestone
  | .on rid (.onCommit epoch now) =>
    ((sides[rid]?.bind (·.rotation epoch .rotating)).filter (·.phase = .confirmed)).toList.map
      (fun r => .committed rid epoch r.prior_epoch now)
  | .on rid .noteAcceptedEvent => [.accepted rid]
  | _ => []

/-- The stores after pairing, with the milestones so far. -/
def retention : Machine (List Side × List Milestone) StoreCall :=
  Machine.withTrail { storeCalls with init := fun sides => ∀ s ∈ sides, s.Fresh ∧ Named s.toKeys } milestones

/-- A key that a commit replaced, and the events accepted since. -/
structure Replaced where
  epoch : Nat
  prior_epoch : Nat
  committed_at : Nat
  accepted : Nat
  deriving DecidableEq, Repr

/-- One more event was accepted. -/
def Replaced.counted (c : Replaced) : Replaced := { c with accepted := c.accepted + 1 }

/-- What a milestone adds to the replaced keys of a relationship. -/
def recordReplaced (rid : Nat) (cs : List Replaced) : Milestone → List Replaced
  | .committed rid' epoch prior_epoch committed_at =>
    if rid' = rid then cs ++ [⟨epoch, prior_epoch, committed_at, 0⟩] else cs
  | .accepted rid' => if rid' = rid then cs.map Replaced.counted else cs

/-- The replaced keys of a relationship, in the order of the commits. -/
def replaced (rid : Nat) (trail : List Milestone) : List Replaced := trail.foldl (recordReplaced rid) []

/-- 24 hours since the commit, or 100 accepted events. -/
def Replaced.Over (c : Replaced) (now : Nat) : Prop :=
  c.committed_at + OLD_KEY_RETENTION ≤ now ∨ OLD_KEY_EVENT_LIMIT ≤ c.accepted

instance (c : Replaced) (now : Nat) : Decidable (c.Over now) := inferInstanceAs (Decidable (_ ∨ _))

/-- The row of an own key and its file are gone. -/
def KeyDeleted (s' : Side) (old : KeyRow) : Prop :=
  s'.ownRow old.epoch = none ∧ ∀ path, old.private_key_ref = .file path → s'.key_files.find path = none

/-- The row of an own key and its file are as before. -/
def KeyKept (s s' : Side) (old : KeyRow) : Prop :=
  s'.ownRow old.epoch = some old ∧
    ∀ path, old.private_key_ref = .file path → s'.key_files.find path = s.key_files.find path

/-- The committed rotations whose prior key is still there. -/
def pendingRows (s : Side) : List Rotation :=
  (committedRotating s).filter (fun row => (s.ownRow row.prior_epoch).isSome)

/-- An accepted event finds no pending rotation but the one of the current epoch, a commit
is not dated before that of a pending one, and a sweep finds no pending rotation that the
compaction deletes. -/
def Attributed (sides : List Side) : StoreCall → Prop
  | .on rid .noteAcceptedEvent => ∀ s ∈ sides[rid]?, ∀ row ∈ pendingRows s, row.epoch = s.key_epoch
  | .on rid (.onCommit epoch now) => ∀ s ∈ sides[rid]?, ∀ _ ∈ (s.rotation epoch .rotating).filter (·.phase = .confirmed),
      ∀ row ∈ pendingRows s, ∀ t ∈ row.committed_at, t ≤ now
  | .sweep now => ∀ s ∈ sides, ∀ row ∈ pendingRows s, staleCommitted s now row = false
  | _ => True

instance (sides : List Side) (call : StoreCall) : Decidable (Attributed sides call) := by
  cases call with
  | on rid call =>
    cases call with
    | noteAcceptedEvent => exact inferInstanceAs (Decidable (∀ _ ∈ _, ∀ _ ∈ _, _ = _))
    | onCommit epoch now => exact inferInstanceAs (Decidable (∀ _ ∈ _, ∀ _ ∈ _, ∀ _ ∈ _, ∀ _ ∈ _, _ ≤ _))
    | _ => exact isTrue trivial
  | sweep now => exact inferInstanceAs (Decidable (∀ _ ∈ _, ∀ _ ∈ _, _ = _))
  | _ => exact isTrue trivial

theorem mem_pendingRows {s : Side} {row : Rotation} :
    row ∈ pendingRows s ↔ s.rotation row.epoch .rotating = some row ∧ row.phase = .committed ∧
      (s.ownRow row.prior_epoch).isSome = true := by
  unfold pendingRows committedRotating
  rw [List.mem_filter, List.mem_filter, decide_eq_true_eq, rotation_eq_some]
  simp only [true_and]
  exact ⟨fun ⟨⟨hmem, hrole, hphase⟩, hown⟩ => ⟨⟨hmem, hrole⟩, hphase, hown⟩,
    fun ⟨⟨hmem, hrole⟩, hphase, hown⟩ => ⟨⟨hmem, hrole, hphase⟩, hown⟩⟩

/-! ## Calls that do not touch what was replaced -/

/-- The committed rows are as before, and so are the own rows up to the current epoch,
which does not go back. -/
structure Undisturbed (k k' : Keys) : Prop where
  key_epoch : k.key_epoch ≤ k'.key_epoch
  own : ∀ e, e ≤ k.key_epoch → k'.ownRow e = k.ownRow e
  rows : ∀ e r, r.phase = .committed → (k'.rotation e .rotating = some r ↔ k.rotation e .rotating = some r)

namespace Undisturbed

variable {k k' k'' : Keys}

theorem refl (k : Keys) : Undisturbed k k := ⟨le_rfl, fun _ _ => rfl, fun _ _ _ => Iff.rfl⟩

theorem trans (h : Undisturbed k k') (h' : Undisturbed k' k'') : Undisturbed k k'' where
  key_epoch := h.key_epoch.trans h'.key_epoch
  own e he := (h'.own e (he.trans h.key_epoch)).trans (h.own e he)
  rows e r hr := (h'.rows e r hr).trans (h.rows e r hr)

theorem of_keys (h : k' = k) : Undisturbed k k' := h ▸ refl k

theorem of_rows (hepoch : k'.key_epoch = k.key_epoch) (hkeys : k'.key_epochs = k.key_epochs)
    (hrows : ∀ e, k'.rotation e .rotating = k.rotation e .rotating ∨
      ∀ r, r.phase = .committed → k'.rotation e .rotating ≠ some r ∧ k.rotation e .rotating ≠ some r) :
    Undisturbed k k' where
  key_epoch := hepoch.ge
  own e _ := ownRow_congr hkeys e
  rows e r hr := by
    cases hrows e with
    | inl hsame => rw [hsame]
    | inr hnone => exact ⟨fun h => absurd h (hnone r hr).1, fun h => absurd h (hnone r hr).2⟩

end Undisturbed

namespace RotationManager

variable {s s' : Side}

variable {f : Rotation → Rotation} {r : Rotation}

theorem undisturbed_updateRotation {epoch : Nat} {role : Role} (hf : ∀ r, (f r).key = r.key)
    (h : ∀ r, s.rotation epoch role = some r → f r = r ∨ r.phase ≠ .committed ∧ (f r).phase ≠ .committed) :
    Undisturbed s.toKeys (s.updateRotation epoch role f hf).toKeys := by
  refine .of_rows rfl rfl (fun e => ?_)
  rw [rotation_updateRotation]
  split_ifs with hkey
  · obtain ⟨rfl, rfl⟩ := Prod.mk.inj hkey
    cases hrow : s.rotation e .rotating with
    | none => exact Or.inl rfl
    | some r =>
      cases h r hrow with
      | inl hsame => exact Or.inl (congrArg some hsame)
      | inr hphase =>
        refine Or.inr (fun r' hr' => ⟨fun heq => ?_, fun heq => ?_⟩)
        · exact hphase.2 (Option.some.inj heq ▸ hr')
        · exact hphase.1 (Option.some.inj heq ▸ hr')
  · exact Or.inl rfl

theorem live_ne_committed (h : r.live = true) : r.phase ≠ .committed := (Rotation.live_iff.mp h).1

theorem consumePendingWrapSeen_undisturbed (s : Side) (epoch : Nat) :
    Undisturbed s.toKeys (consumePendingWrapSeen s epoch).toKeys := by
  unfold consumePendingWrapSeen
  split_ifs
  · refine undisturbed_updateRotation (s := s) (fun r => by split_ifs <;> rfl) (fun r _ => ?_)
    split_ifs with hlive
    · exact Or.inr ⟨live_ne_committed hlive, live_ne_committed hlive⟩
    · exact Or.inl rfl
  · exact .refl _

theorem onAck_undisturbed (s : Side) (ack : Ack) (now : Nat) : Undisturbed s.toKeys (onAck s ack now).1.toKeys := by
  unfold onAck
  cases hrow : s.rotation ack.epoch .rotating with
  | none => exact .refl _
  | some r =>
    dsimp only
    split_ifs with hid hacked hphase hlate
    · exact .refl _
    · exact consumePendingWrapSeen_undisturbed s ack.epoch
    · exact .refl _
    · exact .refl _
    · refine Undisturbed.trans (undisturbed_updateRotation (fun _ => by rfl) ?_)
        (consumePendingWrapSeen_undisturbed _ ack.epoch)
      intro r' hr'
      obtain rfl := Option.some.inj (hrow.symm.trans hr')
      exact Or.inr ⟨fun hc => hphase (fun hcandidate => by simp [hcandidate] at hc), by simp⟩

theorem noteDecryptedNewWrap_undisturbed (s : Side) (epoch now : Nat) :
    Undisturbed s.toKeys (noteDecryptedNewWrap s epoch now).toKeys := by
  unfold noteDecryptedNewWrap
  split_ifs with hlive
  · refine undisturbed_updateRotation (fun _ => by rfl) (fun r hr => ?_)
    rw [hr] at hlive
    exact Or.inr ⟨live_ne_committed hlive, live_ne_committed hlive⟩
  · exact .refl s.toKeys

theorem undisturbed_of_live {epoch : Nat} {role : Role} (hrow : s.rotation epoch role = some r)
    (hlive : r.live = true) (hf : ∀ r, (f r).key = r.key)
    (hphase : ∀ r, (f r).phase ≠ .committed) : Undisturbed s.toKeys (s.updateRotation epoch role f hf).toKeys := by
  refine undisturbed_updateRotation hf (fun r' hr' => Or.inr ⟨?_, hphase _⟩)
  obtain rfl := Option.some.inj (hrow.symm.trans hr')
  exact live_ne_committed hlive

theorem markConfirmed_undisturbed (s : Side) (now : Nat) : Undisturbed s.toKeys (markConfirmed s now).1.toKeys := by
  unfold markConfirmed
  cases hrow : s.inFlightAs .rotating with
  | none => exact .refl _
  | some r =>
    obtain ⟨hrot, hlive⟩ := rotation_of_inFlightAs hrow
    dsimp only
    split_ifs
    · exact .refl _
    · exact .refl _
    · exact undisturbed_of_live hrot hlive (fun _ => by rfl) (fun _ => by simp)

theorem confirmRotation_undisturbed (s : Side) (now : Nat) :
    Undisturbed s.toKeys (confirmRotation s now).1.toKeys := by
  unfold confirmRotation
  cases hrow : s.inFlightAs .rotating with
  | none => exact .refl _
  | some r =>
    obtain ⟨hrot, hlive⟩ := rotation_of_inFlightAs hrow
    dsimp only
    split_ifs
    · exact .refl _
    · exact .refl _
    · exact .refl _
    · exact undisturbed_of_live hrot hlive (fun _ => by rfl) (fun _ => by simp)

theorem undisturbed_of_acking (s : Side) (epoch : Nat) (hf : ∀ r, (f r).key = r.key) :
    Undisturbed s.toKeys (s.updateRotation epoch .acking f hf).toKeys := by
  refine .of_rows rfl rfl (fun e => Or.inl ?_)
  rw [rotation_updateRotation, if_neg (by simp)]

theorem onConfirm_undisturbed (s : Side) (epoch now : Nat) : Undisturbed s.toKeys (onConfirm s epoch now).1.toKeys := by
  unfold onConfirm
  split
  · exact .refl _
  · split_ifs
    · exact .refl _
    · exact .refl _
    · exact undisturbed_of_acking s epoch (fun _ => by rfl)

theorem markCommitted_undisturbed (ho : Orderly s.toKeys) (now : Nat) :
    Undisturbed s.toKeys (markCommitted s now).1.toKeys := by
  obtain hsame | ⟨r₀, r₁, hcommits, -, hflight⟩ := markCommitted_cases s now
  · rw [hsame]
    exact .refl _
  · obtain ⟨hrow, hlive⟩ := rotation_of_inFlightAs hflight
    refine ⟨?_, fun e _ => ownRow_congr hcommits.key_epochs e, fun e r _ => ?_⟩
    · rw [hcommits.key_epoch]
      exact (ho.top _ _ _ hrow hlive).1.le
    · rw [hcommits.rotation, if_neg (by simp)]

theorem beginRotation_undisturbed (ho : Orderly s.toKeys) (now : Nat) (priv : PrivateKey) (id : Option EventId) :
    Undisturbed s.toKeys (beginRotation s now priv id).1.toKeys := by
  obtain ⟨epoch, prepare, prior, -, hbegun⟩ | ⟨raised, -, hfile⟩ := beginRotation_cases s now priv id
  · have hepoch := hbegun.epoch_eq
    have hcurrent := key_epoch_le_currentEpoch ho.peer
    refine ⟨hbegun.key_epoch.ge, fun e he => ?_, fun e r hr => ?_⟩
    · unfold Keys.ownRow
      rw [hbegun.key_epochs, if_neg (by omega)]
    · rw [hbegun.rotation]
      split_ifs with hkey
      · obtain ⟨rfl, -⟩ := Prod.mk.inj hkey
        refine ⟨fun h => ?_, fun h => ?_⟩
        · rw [← Option.some.inj h] at hr
          exact absurd hr (by simp [candidateRow])
        · have hle := ho.committed e .rotating r h hr
          omega
      · rfl
  · refine .of_rows hfile.key_epoch hfile.key_epochs (fun e => Or.inl ?_)
    unfold Keys.rotation
    rw [hfile.key_rotations]

theorem onPrepare_undisturbed (hpeer : s.peer_agreement_key.isSome = true) (prepare : Prepare) (id : EventId) (now : Nat) :
    Undisturbed s.toKeys (onPrepare s prepare id now).1.toKeys := by
  obtain ⟨hsame, -⟩ | ⟨p, -, hack⟩ := onPrepare_cases s prepare id now
  · exact .of_keys hsame
  · refine ⟨hack.key_epoch.ge, fun e he => ?_, fun e r _ => ?_⟩
    · obtain ⟨-, hkeys⟩ | ⟨-, hlt, -, hfind⟩ := hack.peer_key
      · exact ownRow_congr hkeys e
      · have hcurrent := key_epoch_le_currentEpoch hpeer
        unfold Keys.ownRow
        rw [hfind, if_neg (by omega)]
    · rw [hack.rotation, if_neg (by simp)]

/-- A candidate that goes is ahead of the current epoch. -/
theorem Removed.undisturbed (ho : Orderly s.toKeys) {r : Rotation} (hrow : s.rotation r.epoch .rotating = some r)
    (hlive : r.live = true) (h : Removed s r.epoch s')
    (hrotation : ∀ e role, s'.rotation e role =
      if (e, role) = (r.epoch, Role.rotating) then some { r with phase := .discarded } else s.rotation e role) :
    Undisturbed s.toKeys s'.toKeys where
  key_epoch := h.key_epoch.ge
  own e he := by
    have hlt := (ho.top _ _ _ hrow hlive).1
    rw [h.ownRow, if_neg (by omega)]
  rows e r' hr' := by
    rw [hrotation]
    split_ifs with hkey
    · obtain ⟨rfl, -⟩ := Prod.mk.inj hkey
      refine ⟨fun heq => ?_, fun heq => ?_⟩
      · rw [← Option.some.inj heq] at hr'
        exact absurd hr' (by simp)
      · rw [← Option.some.inj (hrow.symm.trans heq)] at hr'
        exact absurd hr' (live_ne_committed hlive)
    · rfl

theorem sweepTimeout_undisturbed (ho : Orderly s.toKeys) (now : Nat) :
    Undisturbed s.toKeys (sweepTimeout s now).1.toKeys := by
  obtain hsame | ⟨r, hrow, hphase, hremoved, hrotation⟩ := sweepTimeout_cases s now
  · rw [hsame]
    exact .refl _
  · exact hremoved.undisturbed ho hrow (Rotation.live_iff.mpr (by simp [hphase])) hrotation

theorem offerAgain_undisturbed (s : Side) {s₁ : Side} (hpeer : s₁.peer_agreement_key.isSome = true) (index : Nat)
    (prepare : Prepare) (id : EventId) (now : Nat) :
    Undisturbed s₁.toKeys (offerAgain s s₁ index prepare id now).1.toKeys := by
  have hprepare := onPrepare_undisturbed hpeer prepare id now
  unfold offerAgain
  cases hout : onPrepare s₁ prepare id now with
  | mk s' result =>
    rw [hout] at hprepare
    cases result with
    | error raised => exact hprepare
    | ok ack => exact hprepare

theorem resolveTheirs_undisturbed (ho : Orderly s.toKeys) (index epoch : Nat) (prepare : Prepare) (id : EventId)
    (now : Nat) : Undisturbed s.toKeys (resolveTheirs s index epoch prepare id now).1.toKeys := by
  cases hcandidate : s.candidate epoch with
  | none =>
    rw [resolveTheirs_of_none hcandidate]
    exact offerAgain_undisturbed s ho.peer index prepare id now
  | some r =>
    obtain ⟨hr, hl⟩ := candidate_eq_some.mp hcandidate
    rw [resolveTheirs_of_some hcandidate (ho.ownKeys epoch r hr hl).1]
    split_ifs
    · exact .refl _
    · obtain rfl : r.epoch = epoch := (rotation_eq_some.mp hr).2.1
      have hremoved := removed_withdrawn s r.epoch
      have hdiscarded : Undisturbed s.toKeys (withdrawn s r.epoch).toKeys := by
        refine hremoved.undisturbed ho hr hl (fun e role => ?_)
        rw [(withdrawn_rest s r.epoch).2.1, hr]
        rfl
      refine hdiscarded.trans (offerAgain_undisturbed s ?_ _ _ _ _)
      rw [hremoved.peer_agreement_key]
      exact ho.peer

theorem resolveQuarantine_undisturbed (ho : Orderly s.toKeys) (index : Int) (choice : Choice) (now : Nat) :
    Undisturbed s.toKeys (resolveQuarantine s index choice now).1.toKeys := by
  unfold resolveQuarantine
  split_ifs
  · exact .refl _
  · split
    · exact .refl _
    · split
      · exact .refl _
      · exact resolveTheirs_undisturbed ho _ _ _ _ _
      · exact .refl _
      · exact .refl _

end RotationManager

/-! ## The rows of replaced keys -/

/-- The committed row of a replaced key, with its time and its count. -/
structure RowOf (k : Keys) (c : Replaced) (r : Rotation) : Prop where
  row : k.rotation c.epoch .rotating = some r
  committed : r.phase = .committed
  prior : r.prior_epoch = c.prior_epoch
  time : r.committed_at = some c.committed_at
  count : r.accepted_events_since_commit = c.accepted

/-- The replaced keys of one relationship.

The keys were replaced one after the other, and while one of them is there no event is
counted for a later one.  Each that is there has its row and its replacement. -/
structure Tracked (k : Keys) (cs : List Replaced) : Prop where
  known : ∀ c ∈ cs, c.prior_epoch < c.epoch ∧ c.epoch ≤ k.key_epoch
  order : cs.Pairwise (fun a b => a.epoch ≤ b.prior_epoch ∧
    ((k.ownRow a.prior_epoch).isSome = true → a.committed_at ≤ b.committed_at ∧ b.accepted = 0))
  pending : ∀ c ∈ cs, (k.ownRow c.prior_epoch).isSome = true →
    (k.ownRow c.epoch).isSome = true ∧ ∃ r, RowOf k c r
  rows : ∀ e r, k.rotation e .rotating = some r → r.phase = .committed →
    ∃ c ∈ cs, c.epoch = e ∧ c.prior_epoch = r.prior_epoch
  newer : ∀ c ∈ cs, ∃ e, c.epoch ≤ e ∧ e ≤ k.key_epoch ∧ (k.ownRow e).isSome = true

namespace Tracked

variable {k k' : Keys} {cs : List Replaced}

theorem eq_or_order (h : Tracked k cs) {a b : Replaced} (ha : a ∈ cs) (hb : b ∈ cs) :
    a = b ∨ a.epoch ≤ b.prior_epoch ∧
        ((k.ownRow a.prior_epoch).isSome = true → a.committed_at ≤ b.committed_at ∧ b.accepted = 0) ∨
      b.epoch ≤ a.prior_epoch := by
  have hall := List.Pairwise.forall_of_forall_of_flip (R := fun a b => a = b ∨ a.epoch ≤ b.prior_epoch ∧
      ((k.ownRow a.prior_epoch).isSome = true → a.committed_at ≤ b.committed_at ∧ b.accepted = 0) ∨
      b.epoch ≤ a.prior_epoch) (fun x _ => Or.inl rfl) (h.order.imp (fun hab => Or.inr (Or.inl hab)))
      (h.order.imp (fun hab => Or.inr (Or.inr hab.1)))
  exact hall ha hb

/-- Two keys are not replaced by one commit, and no key is replaced twice. -/
theorem eq_of_epoch (h : Tracked k cs) {a b : Replaced} (ha : a ∈ cs) (hb : b ∈ cs)
    (heq : a.epoch = b.epoch ∨ a.prior_epoch = b.prior_epoch) : a = b := by
  have hka := (h.known a ha).1
  have hkb := (h.known b hb).1
  obtain hab | ⟨hle, -⟩ | hle := h.eq_or_order ha hb
  · exact hab
  · omega
  · omega

theorem of_undisturbed (h : Tracked k cs) (hu : Undisturbed k k') : Tracked k' cs := by
  have hprior : ∀ c ∈ cs, k'.ownRow c.prior_epoch = k.ownRow c.prior_epoch := fun c hc =>
    hu.own _ ((h.known c hc).1.le.trans (h.known c hc).2)
  constructor
  · exact fun c hc => ⟨(h.known c hc).1, (h.known c hc).2.trans hu.key_epoch⟩
  · refine h.order.imp_of_mem (fun ha _ hab => ⟨hab.1, fun hown => hab.2 ?_⟩)
    rw [← hprior _ ha]
    exact hown
  · intro c hc hown
    rw [hprior c hc] at hown
    obtain ⟨hnew, r, hr⟩ := h.pending c hc hown
    rw [hu.own _ (h.known c hc).2]
    exact ⟨hnew, r, (hu.rows _ r hr.committed).mpr hr.row, hr.committed, hr.prior, hr.time, hr.count⟩
  · exact fun e r hr hphase => h.rows e r ((hu.rows e r hphase).mp hr) hphase
  · intro c hc
    obtain ⟨e, hle, hcurrent, hown⟩ := h.newer c hc
    exact ⟨e, hle, hcurrent.trans hu.key_epoch, by rw [hu.own e hcurrent]; exact hown⟩

end Tracked

theorem Side.Fresh.tracked {s : Side} (h : s.Fresh) : Tracked s.toKeys [] where
  known c hc := absurd hc List.not_mem_nil
  order := List.Pairwise.nil
  pending c hc := absurd hc List.not_mem_nil
  rows e r hr := by
    unfold Keys.rotation at hr
    rw [h.idle, Table.find_empty] at hr
    cases hr
  newer c hc := absurd hc List.not_mem_nil

section calls

variable {s : Side} {cs : List Replaced} {now : Nat}

theorem Tracked.mem_pendingRows (h : Tracked s.toKeys cs) {c : Replaced} (hc : c ∈ cs)
    (hown : (s.ownRow c.prior_epoch).isSome = true) : ∃ r ∈ pendingRows s, RowOf s.toKeys c r := by
  obtain ⟨-, r, hr⟩ := h.pending c hc hown
  have hepoch : r.epoch = c.epoch := (rotation_eq_some.mp hr.row).2.1
  refine ⟨r, MuseAgentSocial.Crypto.mem_pendingRows.mpr ⟨?_, hr.committed, ?_⟩, hr⟩
  · rw [hepoch]
    exact hr.row
  · rw [hr.prior]
    exact hown

theorem Tracked.commit (h : Tracked s.toKeys cs) (ho : Orderly s.toKeys) {epoch : Nat} {r : Rotation}
    (hrow : s.rotation epoch .rotating = some r) (hphase : r.phase = .confirmed)
    (htime : ∀ row ∈ pendingRows s, ∀ t ∈ row.committed_at, t ≤ now) :
    Tracked (onCommit s epoch now).1.toKeys (cs ++ [⟨epoch, r.prior_epoch, now, 0⟩]) := by
  have hlive : r.live = true := Rotation.live_iff.mpr (by simp [hphase])
  obtain ⟨hnew, hold, hlt, htop⟩ := ho.ownKeys epoch r hrow hlive
  have hahead := (ho.top epoch _ r hrow hlive).1
  have hepochs : (onCommit s epoch now).1.key_epoch = epoch ∧ (onCommit s epoch now).1.key_epochs = s.key_epochs ∧
      ∀ e, (onCommit s epoch now).1.rotation e .rotating =
        if e = epoch then
          some { r with phase := .committed, committed_at := some now, accepted_events_since_commit := 0 }
        else s.rotation e .rotating := by
    unfold onCommit
    rw [hrow]
    dsimp only
    rw [if_neg (by simp [hphase]), if_neg (by simp [hphase])]
    refine ⟨rfl, rfl, fun e => ?_⟩
    have hupdate := rotation_update_some (fun r => { r with
      phase := .committed, committed_at := some now, accepted_events_since_commit := 0 }) (fun _ => by rfl) hrow e .rotating
    exact hupdate.trans (by simp)
  obtain ⟨hcurrent, hkeys, hrotation⟩ := hepochs
  have hown := ownRow_congr hkeys
  -- Every key that came before is at most the one that is replaced now.
  have hbefore : ∀ c ∈ cs, c.epoch ≤ r.prior_epoch := by
    intro c hc
    obtain ⟨e, hle, hcur, hsome⟩ := h.newer c hc
    exact hle.trans (htop e hsome (by omega))
  constructor
  · intro c hc
    rw [hcurrent]
    cases List.mem_append.mp hc with
    | inl hmem =>
      have hknown := h.known c hmem
      exact ⟨hknown.1, by omega⟩
    | inr hlast =>
      rw [List.mem_singleton.mp hlast]
      exact ⟨hlt, le_rfl⟩
  · rw [List.pairwise_append]
    refine ⟨h.order.imp (fun hab => ⟨hab.1, fun hsome => hab.2 (hown _ ▸ hsome)⟩), List.pairwise_singleton _ _, ?_⟩
    intro a ha b hb
    rw [List.mem_singleton.mp hb]
    refine ⟨hbefore a ha, fun hsome => ⟨?_, rfl⟩⟩
    rw [hown] at hsome
    obtain ⟨row, hmem, hrowOf⟩ := h.mem_pendingRows ha hsome
    exact htime row hmem _ hrowOf.time
  · intro c hc hsome
    rw [hown] at hsome
    cases List.mem_append.mp hc with
    | inl hmem =>
      obtain ⟨hreplacement, row, hrowOf⟩ := h.pending c hmem hsome
      have hknown := (h.known c hmem).2
      refine ⟨by rw [hown]; exact hreplacement, row, ?_, hrowOf.committed, hrowOf.prior, hrowOf.time, hrowOf.count⟩
      rw [hrotation, if_neg (by omega)]
      exact hrowOf.row
    | inr hlast =>
      obtain rfl := List.mem_singleton.mp hlast
      refine ⟨by rw [hown]; exact hnew, { r with
        phase := .committed, committed_at := some now, accepted_events_since_commit := 0 }, ?_, rfl, rfl, rfl, rfl⟩
      rw [hrotation, if_pos rfl]
  · intro e r' hr' hcommitted
    rw [hrotation] at hr'
    split_ifs at hr' with he
    · obtain rfl := Option.some.inj hr'
      exact ⟨_, List.mem_append_right _ (List.mem_singleton.mpr rfl), he.symm, rfl⟩
    · obtain ⟨c, hc, hepoch⟩ := h.rows e r' hr' hcommitted
      exact ⟨c, List.mem_append_left _ hc, hepoch⟩
  · intro c hc
    refine ⟨epoch, ?_, hcurrent.ge, by rw [hown]; exact hnew⟩
    cases List.mem_append.mp hc with
    | inl hmem => exact (hbefore c hmem).trans hlt.le
    | inr hlast => rw [List.mem_singleton.mp hlast]

theorem Tracked.accept (h : Tracked s.toKeys cs) (hcurrent : ∀ row ∈ pendingRows s, row.epoch = s.key_epoch) :
    Tracked (noteAcceptedEvent s).toKeys (cs.map Replaced.counted) := by
  have hown : ∀ e, (noteAcceptedEvent s).ownRow e = s.ownRow e := fun _ => rfl
  have hrotation : ∀ e, (noteAcceptedEvent s).rotation e .rotating =
      if e = s.key_epoch then (s.rotation e .rotating).map (fun r =>
        if r.phase = .committed then { r with accepted_events_since_commit := r.accepted_events_since_commit + 1 }
        else r)
      else s.rotation e .rotating := by
    intro e
    unfold noteAcceptedEvent
    rw [rotation_updateRotation]
    split_ifs with hkey heq heq
    · rw [heq]
    · exact absurd (Prod.mk.inj hkey).1 heq
    · exact absurd (by rw [heq]) hkey
    · rfl
  have hpending : ∀ c ∈ cs, (s.ownRow c.prior_epoch).isSome = true → c.epoch = s.key_epoch := by
    intro c hc hsome
    obtain ⟨row, hmem, hrowOf⟩ := h.mem_pendingRows hc hsome
    rw [← hcurrent row hmem]
    exact (rotation_eq_some.mp hrowOf.row).2.1.symm
  constructor
  · intro c hc
    obtain ⟨c₀, hc₀, rfl⟩ := List.mem_map.mp hc
    exact h.known c₀ hc₀
  · rw [List.pairwise_map]
    refine h.order.imp_of_mem (fun {a b} ha hb hab => ⟨hab.1, fun hsome => ?_⟩)
    -- The pending key is the newest, so nothing was replaced after it.
    have hepoch := hpending a ha hsome
    have hknown := h.known b hb
    have hle := hab.1
    omega
  · intro c hc hsome
    obtain ⟨c₀, hc₀, rfl⟩ := List.mem_map.mp hc
    obtain ⟨hreplacement, row, hrowOf⟩ := h.pending c₀ hc₀ hsome
    refine ⟨hreplacement, { row with accepted_events_since_commit := row.accepted_events_since_commit + 1 }, ?_,
      hrowOf.committed, hrowOf.prior, hrowOf.time, congrArg (· + 1) hrowOf.count⟩
    have hcounted := hrotation c₀.epoch
    rw [if_pos (hpending c₀ hc₀ hsome), hrowOf.row, Option.map_some, if_pos hrowOf.committed] at hcounted
    exact hcounted
  · intro e r hr hphase
    have hfrom : ∃ r₀, s.rotation e .rotating = some r₀ ∧ r₀.phase = .committed ∧ r₀.prior_epoch = r.prior_epoch := by
      rw [hrotation] at hr
      split_ifs at hr
      · obtain ⟨r₀, hr₀, rfl⟩ := Option.map_eq_some_iff.mp hr
        refine ⟨r₀, hr₀, ?_⟩
        split_ifs at hphase ⊢ with hc
        · exact ⟨hc, rfl⟩
        · exact ⟨hphase, rfl⟩
      · exact ⟨r, hr, hphase, rfl⟩
    obtain ⟨r₀, hr₀, hphase₀, hprior⟩ := hfrom
    obtain ⟨c, hc, hepoch, hcprior⟩ := h.rows e r₀ hr₀ hphase₀
    exact ⟨c.counted, List.mem_map_of_mem hc, hepoch, hcprior.trans hprior⟩
  · intro c hc
    obtain ⟨c₀, hc₀, rfl⟩ := List.mem_map.mp hc
    exact h.newer c₀ hc₀

theorem Tracked.sweepCompact (h : Tracked s.toKeys cs) (hstale : ∀ row ∈ pendingRows s, staleCommitted s now row = false) :
    Tracked (sweepCompact s now).1.toKeys cs := by
  have hown := ownRow_sweepCompact s now
  obtain hsame | ⟨hepoch, -, -, -, hrotation⟩ := sweepCompact_cases s now
  · rw [hsame]
    exact h
  · constructor
    · rw [hepoch]
      exact h.known
    · exact h.order.imp (fun hab => ⟨hab.1, fun hsome => hab.2 (hown _ ▸ hsome)⟩)
    · intro c hc hsome
      rw [hown] at hsome
      obtain ⟨row, hmem, hrowOf⟩ := h.mem_pendingRows hc hsome
      refine ⟨by rw [hown]; exact (h.pending c hc hsome).1, row, ?_, hrowOf.committed, hrowOf.prior, hrowOf.time,
        hrowOf.count⟩
      rw [hrotation, hrowOf.row]
      simp [Option.filter, hstale row hmem]
    · intro e r hr hphase
      rw [hrotation] at hr
      exact h.rows e r (Option.filter_eq_some_iff.mp hr).1 hphase
    · intro c hc
      obtain ⟨e, hle, hcur, hsome⟩ := h.newer c hc
      exact ⟨e, hle, by rw [hepoch]; exact hcur, by rw [hown]; exact hsome⟩

end calls

/-! ## The retirement loop -/

namespace RotationManager

variable {s s' : Side} {cs : List Replaced} {now : Nat}

/-- A round that deletes the prior key of its row. -/
structure Round (s : Side) (row : Rotation) (s' : Side) : Prop where
  key_epoch : s'.key_epoch = s.key_epoch
  own : ∀ e, s'.ownRow e = if e = row.prior_epoch then none else s.ownRow e
  others : ∀ e, e ≠ row.epoch → s'.rotation e .rotating = s.rotation e .rotating
  rows : ∀ e r, s'.rotation e .rotating = some r → s.rotation e .rotating = some r
  deleted : ∀ old path, s.ownRow row.prior_epoch = some old → old.private_key_ref = .file path →
    s'.key_files.find path = none
  files : ∀ path, (∀ old, s.ownRow row.prior_epoch = some old → old.private_key_ref ≠ .file path) →
    s'.key_files.find path = s.key_files.find path

variable {row : Rotation}

theorem file_sweepRetire (hdue : Due s now row) (hok : (sweepRetire s row now).2 = .ok ())
    {old : KeyRow} (hold : s.ownRow row.prior_epoch = some old) {path : Nat}
    (href : old.private_key_ref = .file path) :
    (sweepRetire s row now).1.key_files.find path = none := by
  obtain ⟨hover, hnew⟩ := hdue
  unfold sweepRetire at hok ⊢
  cases hat : row.committed_at with
  | none =>
    rw [hat] at hok
    cases hok
  | some committed_at =>
    rw [hat] at hover hok
    dsimp only at hok ⊢
    have hlimit : committed_at + OLD_KEY_RETENTION ≤ now ∨ OLD_KEY_EVENT_LIMIT ≤ row.accepted_events_since_commit := by
      simpa using hover
    rw [if_pos hlimit, if_neg (by simp [Option.isSome_iff_ne_none.mp hnew]), hold] at hok ⊢
    dsimp only at hok ⊢
    split_ifs at hok ⊢
    rw [href, deletePrivateKey_file, find_delete_path, if_pos rfl]

/-- A round stops the loop, changes nothing or deletes the prior key. -/
theorem sweepRetire_round (hstamped : row.committed_at.isSome = true) :
    sweepRetire s row now = (s, .error .integrity_error) ∨
    ¬ Due s now row ∧ sweepRetire s row now = (s, .ok ()) ∨
    Due s now row ∧ (sweepRetire s row now).2 = .ok () ∧ Round s row (sweepRetire s row now).1 := by
  obtain ⟨-, hblocked⟩ | ⟨-, hok, hdeletes, hsame⟩ := @sweepRetire_spec s now row hstamped
  · exact Or.inl hblocked
  · by_cases hdue : Due s now row
    · have hfile := fun old path hold href => @file_sweepRetire s now row hdue hok old hold path href
      refine Or.inr (Or.inr ⟨hdue, hok, ?_⟩)
      obtain heq | ⟨-, hremoved, hrotation⟩ := sweepRetire_cases s row now
      · have hown := hdeletes hdue
        rw [heq] at hown hfile ⊢
        exact ⟨rfl, hown, fun _ _ => rfl, fun _ _ h => h, hfile, fun _ _ => rfl⟩
      · refine ⟨hremoved.key_epoch, hdeletes hdue, fun e he => ?_, fun e r hr => ?_, hfile, hremoved.key_files⟩
        · rw [hrotation, if_neg (by simp [he])]
        · rw [hrotation] at hr
          split_ifs at hr
          · exact (Option.filter_eq_some_iff.mp hr).1
          · exact hr
    · exact Or.inr (Or.inl ⟨hdue, Prod.ext (hsame hdue) hok⟩)

/-- A round of the row of a replaced key keeps the invariant, when the key that it deletes
replaced none that is still there. -/
theorem Round.tracked (h : Tracked s.toKeys cs) (hround : Round s row s')
    (hrow : s.rotation row.epoch .rotating = some row) (hphase : row.phase = .committed)
    (hnew : (s.ownRow row.epoch).isSome = true)
    (hfirst : ∀ a ∈ cs, (s.ownRow a.prior_epoch).isSome = true → a.epoch ≠ row.prior_epoch) : Tracked s'.toKeys cs := by
  obtain ⟨c, hc, hepoch, hprior⟩ := h.rows row.epoch row hrow hphase
  have hkept : ∀ e, (s'.ownRow e).isSome = true → (s.ownRow e).isSome = true ∧ e ≠ row.prior_epoch := by
    intro e he
    rw [hround.own] at he
    split_ifs at he with heq
    · cases he
    · exact ⟨he, heq⟩
  constructor
  · rw [hround.key_epoch]
    exact h.known
  · exact h.order.imp (fun hab => ⟨hab.1, fun hsome => hab.2 (hkept _ hsome).1⟩)
  · intro a ha hsome
    obtain ⟨hbefore, hne⟩ := hkept _ hsome
    obtain ⟨hreplacement, r, hrowOf⟩ := h.pending a ha hbefore
    rw [hround.own, if_neg (hfirst a ha hbefore)]
    refine ⟨hreplacement, r, ?_, hrowOf.committed, hrowOf.prior, hrowOf.time, hrowOf.count⟩
    rw [hround.others _ (fun heq => hne ?_)]
    · exact hrowOf.row
    · rw [← hprior, h.eq_of_epoch ha hc (Or.inl (heq.trans hepoch.symm))]
  · exact fun e r hr => h.rows e r (hround.rows e r hr)
  · intro a ha
    obtain ⟨e, hle, hcur, hsome⟩ := h.newer a ha
    have hknown := h.known c hc
    rw [hround.key_epoch]
    by_cases he : e = row.prior_epoch
    · refine ⟨row.epoch, by omega, by omega, ?_⟩
      rw [hround.own, if_neg (by omega)]
      exact hnew
    · refine ⟨e, hle, hcur, ?_⟩
      rw [hround.own, if_neg he]
      exact hsome

/-- What the loop has still to go through: committed rows of the table in the order of
their epochs, and among them the row of every key that is over. -/
structure Scanned (s : Side) (now : Nat) (cs : List Replaced) (rows : List Rotation) : Prop where
  sorted : (rows.map (·.epoch)).Pairwise (· < ·)
  stamped : ∀ row ∈ rows, row.committed_at.isSome = true
  committed : ∀ row ∈ rows, s.rotation row.epoch .rotating = some row ∧ row.phase = .committed
  late : ∀ c ∈ cs, (s.ownRow c.prior_epoch).isSome = true → c.Over now → ∃ row ∈ rows, row.epoch = c.epoch

theorem due_iff_over (h : Tracked s.toKeys cs) (hrow : s.rotation row.epoch .rotating = some row)
    {c : Replaced} (hc : c ∈ cs) (hepoch : c.epoch = row.epoch)
    (hown : (s.ownRow c.prior_epoch).isSome = true) :
    Due s now row ↔ c.Over now := by
  obtain ⟨hnew, r, hrowOf⟩ := h.pending c hc hown
  have hsame : row = r := by
    have heq := hrowOf.row
    rw [hepoch] at heq
    exact Option.some.inj (hrow.symm.trans heq)
  unfold Due Replaced.Over
  rw [hsame, hrowOf.time, hrowOf.count, ← hsame, ← hepoch]
  simp [hnew]

theorem Scanned.first {rows : List Rotation} (hscan : Scanned s now cs (row :: rows))
    (h : Tracked s.toKeys cs) (hdue : Due s now row) :
    ∀ a ∈ cs, (s.ownRow a.prior_epoch).isSome = true → a.epoch ≠ row.prior_epoch := by
  intro a ha hown heq
  obtain ⟨hrow, hphase⟩ := hscan.committed row List.mem_cons_self
  obtain ⟨c, hc, hepoch, hcprior⟩ := h.rows row.epoch row hrow hphase
  have hprior : (s.ownRow c.prior_epoch).isSome = true := by
    rw [hcprior, ← heq]
    exact (h.pending a ha hown).1
  have hover : c.Over now := (due_iff_over h hrow hc hepoch hprior).mp hdue
  have hknown := h.known c hc
  have hknown' := h.known a ha
  -- The earlier commit is at least as old, and nothing was counted for the later one.
  have hearlier : a.Over now := by
    obtain hsame | ⟨-, hage⟩ | hle := h.eq_or_order ha hc
    · rw [hsame]
      exact hover
    · obtain ⟨htime, hcount⟩ := hage hown
      cases hover with
      | inl hlate => exact Or.inl (by omega)
      | inr hmany =>
        rw [hcount] at hmany
        exact absurd hmany (by decide)
    · omega
  -- So its row is in the list, and it comes before the first one.
  obtain ⟨r, hr, hrepoch⟩ := hscan.late a ha hown hearlier
  have hsorted := hscan.sorted
  rw [List.map_cons, List.pairwise_cons] at hsorted
  cases List.mem_cons.mp hr with
  | inl hhead =>
    rw [hhead] at hrepoch
    omega
  | inr htail =>
    have hlt := hsorted.1 _ (List.mem_map_of_mem htail)
    omega

/-- The end of a loop: the invariant, what was deleted, and, when the loop has gone
through, the keys that are over. -/
structure Looped (s : Side) (now : Nat) (cs : List Replaced) (s' : Side) (finished : Prop) : Prop where
  tracked : Tracked s'.toKeys cs
  from_before : ∀ e row, s'.ownRow e = some row → s.ownRow e = some row
  files : ∀ path, s.key_files.find path = none → s'.key_files.find path = none
  deleted : ∀ e, (s.ownRow e).isSome = true → s'.ownRow e = none → ∃ c ∈ cs, c.prior_epoch = e
  late : finished → ∀ c ∈ cs, ∀ old, s.ownRow c.prior_epoch = some old → c.Over now → KeyDeleted s' old
  kept : ∀ c ∈ cs, ∀ old, s.ownRow c.prior_epoch = some old → ¬ c.Over now → KeyKept s s' old

/-- A loop that changes nothing. -/
theorem Looped.refl {finished : Prop} (h : Tracked s.toKeys cs)
    (hover : finished → ∀ c ∈ cs, (s.ownRow c.prior_epoch).isSome = true → ¬ c.Over now) : Looped s now cs s finished where
  tracked := h
  from_before _ _ hrow := hrow
  files _ hpath := hpath
  deleted e hsome hnone := absurd hsome (by simp [hnone])
  late hfinished c hc old hold hlate := absurd hlate (hover hfinished c hc (by rw [hold]; rfl))
  kept c _ old hold _ := ⟨by rw [epoch_of_ownRow hold]; exact hold, fun _ _ => rfl⟩

theorem Round.looped {finished : Prop} {s₁ : Side} (hround : Round s row s₁) (hn : Named s.toKeys)
    (h : Tracked s.toKeys cs) (hrow : s.rotation row.epoch .rotating = some row)
    (hphase : row.phase = .committed) (hdue : Due s now row)
    (hrest : Looped s₁ now cs s' finished) : Looped s now cs s' finished := by
  obtain ⟨c₀, hc₀, hepoch₀, hprior₀⟩ := h.rows row.epoch row hrow hphase
  have hsplit : ∀ e old, s.ownRow e = some old → s₁.ownRow e = some old ∨ e = row.prior_epoch ∧ s₁.ownRow e = none := by
    intro e old hold
    rw [hround.own]
    split_ifs with he
    · exact Or.inr ⟨he, rfl⟩
    · exact Or.inl hold
  have hfiles : ∀ path, s.key_files.find path = none → s₁.key_files.find path = none := by
    intro path hpath
    by_cases href : ∀ old, s.ownRow row.prior_epoch = some old → old.private_key_ref ≠ .file path
    · rw [hround.files path href]
      exact hpath
    · push Not at href
      obtain ⟨old, hold, href⟩ := href
      exact hround.deleted old path hold href
  constructor
  · exact hrest.tracked
  · intro e old hold
    have hbefore := hrest.from_before e old hold
    rw [hround.own] at hbefore
    split_ifs at hbefore
    exact hbefore
  · exact fun path hpath => hrest.files path (hfiles path hpath)
  · intro e hsome hnone
    obtain ⟨old, hold⟩ := Option.isSome_iff_exists.mp hsome
    cases hsplit e old hold with
    | inl hstill => exact hrest.deleted e (by rw [hstill]; rfl) hnone
    | inr hgone => exact ⟨c₀, hc₀, hprior₀.trans hgone.1.symm⟩
  · intro hfinished c hc old hold hover
    cases hsplit _ old hold with
    | inl hstill => exact hrest.late hfinished c hc old hstill hover
    | inr hgone =>
      have hepoch := epoch_of_ownRow hold
      refine ⟨?_, fun path href => ?_⟩
      · rw [hepoch]
        cases hafter : s'.ownRow c.prior_epoch with
        | none => rfl
        | some new => exact absurd ((hrest.from_before _ new hafter).symm.trans hgone.2) (by simp)
      · rw [hgone.1] at hold
        exact hrest.files path (hround.deleted old path hold href)
  · intro c hc old hold hnot
    have hne : c.prior_epoch ≠ row.prior_epoch := by
      intro heq
      obtain rfl : c = c₀ := h.eq_of_epoch hc hc₀ (Or.inr (heq.trans hprior₀.symm))
      exact hnot ((due_iff_over h hrow hc hepoch₀ (by rw [hold]; rfl)).mp hdue)
    have hstill : s₁.ownRow c.prior_epoch = some old := by
      rw [hround.own, if_neg hne]
      exact hold
    obtain ⟨hown, hfile⟩ := hrest.kept c hc old hstill hnot
    refine ⟨hown, fun path href => (hfile path href).trans (hround.files path (fun old' hold' href' => hne ?_))⟩
    -- The files of two own rows are those of their epochs.
    have hpath := (hn _ _ hold).symm.trans href
    have hpath' := (hn _ _ hold').symm.trans href'
    exact KeyRef.file.inj (hpath.trans hpath'.symm)

theorem sweepRetireAll_looped {rows : List Rotation} (h : Tracked s.toKeys cs) (hn : Named s.toKeys)
    (hscan : Scanned s now cs rows) :
    Looped s now cs (sweepRetireAll s now rows).1 ((sweepRetireAll s now rows).2 = .ok ()) := by
  induction rows generalizing s with
  | nil =>
    refine .refl h (fun _ c hc hown hover => ?_)
    obtain ⟨row, hrow, -⟩ := hscan.late c hc hown hover
    cases hrow
  | cons row rows ih =>
    obtain ⟨hrow, hphase⟩ := hscan.committed row List.mem_cons_self
    have hstamped := hscan.stamped row List.mem_cons_self
    have hsorted := hscan.sorted
    rw [List.map_cons, List.pairwise_cons] at hsorted
    have hcommitted := fun row' hrow' => hscan.committed row' (List.mem_cons_of_mem _ hrow')
    have hstamps := fun row' hrow' => hscan.stamped row' (List.mem_cons_of_mem _ hrow')
    obtain hstop | ⟨hnot, hsame⟩ | ⟨hdue, hok, hround⟩ := @sweepRetire_round s now row hstamped
    · unfold sweepRetireAll
      rw [hstop]
      exact .refl h (fun hfalse => absurd hfalse (by simp))
    · have hrest : Scanned s now cs rows := by
        refine ⟨hsorted.2, hstamps, hcommitted, fun c hc hown hover => ?_⟩
        obtain ⟨row', hmem, hepoch⟩ := hscan.late c hc hown hover
        cases List.mem_cons.mp hmem with
        | inl hhead =>
          rw [hhead] at hepoch
          exact absurd ((due_iff_over h hrow hc hepoch.symm hown).mpr hover) hnot
        | inr htail => exact ⟨row', htail, hepoch⟩
      rw [sweepRetireAll_cons (by rw [hsame]), hsame]
      exact ih h hn hrest
    · have htracked := hround.tracked h hrow hphase hdue.2 (hscan.first h hdue)
      have hfrom : OwnFrom s (sweepRetire s row now).1 := sweepRetire_ownFrom s row now
      have hrest : Scanned (sweepRetire s row now).1 now cs rows := by
        refine ⟨hsorted.2, hstamps, fun row' hrow' => ?_, fun c hc hown hover => ?_⟩
        · have hlt := hsorted.1 _ (List.mem_map_of_mem hrow')
          rw [hround.others _ (by omega)]
          exact hcommitted row' hrow'
        · have hbefore : (s.ownRow c.prior_epoch).isSome = true ∧ c.prior_epoch ≠ row.prior_epoch := by
            rw [hround.own] at hown
            split_ifs at hown with heq
            · cases hown
            · exact ⟨hown, heq⟩
          obtain ⟨row', hmem, hepoch⟩ := hscan.late c hc hbefore.1 hover
          cases List.mem_cons.mp hmem with
          | inl hhead =>
            rw [hhead] at hepoch
            obtain ⟨c₀, hc₀, hepoch₀, hprior₀⟩ := h.rows row.epoch row hrow hphase
            rw [h.eq_of_epoch hc hc₀ (Or.inl (hepoch.symm.trans hepoch₀.symm))] at hbefore
            exact absurd hprior₀ hbefore.2
          | inr htail => exact ⟨row', htail, hepoch⟩
      rw [sweepRetireAll_cons hok]
      exact hround.looped hn h hrow hphase hdue (ih htracked (hfrom.named hn) hrest)

/-- What the loop of a sweep starts from. -/
theorem scanned_committedRotating (h : Tracked s.toKeys cs) (hs : Steady s) (now : Nat) :
    Scanned s now cs (committedRotating s) where
  sorted := hs.loopable.sorted
  stamped := hs.loopable.stamped
  committed row hrow := by
    obtain ⟨hmem, hok⟩ := List.mem_filter.mp hrow
    obtain ⟨hrole, hphase⟩ : row.role = .rotating ∧ row.phase = .committed := of_decide_eq_true hok
    exact ⟨rotation_eq_some.mpr ⟨hmem, rfl, hrole⟩, hphase⟩
  late c hc hown _ := by
    obtain ⟨-, r, hrowOf⟩ := h.pending c hc hown
    obtain ⟨hmem, hepoch, hrole⟩ := rotation_eq_some.mp hrowOf.row
    exact ⟨r, List.mem_filter.mpr ⟨hmem, decide_eq_true ⟨hrole, hrowOf.committed⟩⟩, hepoch⟩

end RotationManager

/-! ## The sweep of a store -/

namespace RotationManager

variable {sides : List Side} {now : Nat}

theorem length_retireStore (now : Nat) (sides : List Side) : (retireStore now sides).1.length = sides.length := by
  induction sides with
  | nil => rfl
  | cons s sides ih =>
    unfold retireStore
    split
    · rfl
    · exact congrArg (· + 1) ih

theorem length_sweepStore (sides : List Side) (now : Nat) : (sweepStore sides now).1.length = sides.length := by
  have htimeout : ∀ sides : List Side, (timeoutStore sides now).1.length = sides.length := by
    intro sides
    unfold timeoutStore
    split
    · rfl
    · split
      · rfl
      · exact List.length_set
  unfold sweepStore
  obtain ⟨-, hcompact⟩ | ⟨-, hcompact⟩ := compactStore_eq sides now
  · have hlength := htimeout (sides.map (fun s => (sweepCompact s now).1))
    rw [List.length_map] at hlength
    rw [hcompact]
    dsimp only
    cases hout : timeoutStore (sides.map (fun s => (sweepCompact s now).1)) now with
    | mk sides₂ result =>
      rw [hout] at hlength
      cases result with
      | error raised => exact hlength
      | ok _ => exact (length_retireStore now sides₂).trans hlength
  · rw [hcompact]

/-- What the retirements do to one relationship: a raise in another one may leave it
alone. -/
theorem retireStore_side {rid : Nat} {s s' : Side} (hs : sides[rid]? = some s)
    (hs' : (retireStore now sides).1[rid]? = some s') :
    (s' = s ∧ (retireStore now sides).2 ≠ .ok ()) ∨
    (s' = (sweepRetireAll s now (committedRotating s)).1 ∧
      ((retireStore now sides).2 = .ok () → (sweepRetireAll s now (committedRotating s)).2 = .ok ())) := by
  induction sides generalizing rid with
  | nil => cases hs
  | cons s₀ sides ih =>
    unfold retireStore at hs' ⊢
    cases hloop : sweepRetireAll s₀ now (committedRotating s₀) with
    | mk s₁ result =>
      rw [hloop] at hs'
      cases result with
      | error raised =>
        cases rid with
        | zero =>
          obtain rfl := Option.some.inj hs
          obtain rfl := Option.some.inj hs'
          exact Or.inr ⟨by rw [hloop], fun hfalse => absurd hfalse (by simp)⟩
        | succ rid => exact Or.inl ⟨Option.some.inj (hs'.symm.trans hs), by simp⟩
      | ok _ =>
        cases rid with
        | zero =>
          obtain rfl := Option.some.inj hs
          obtain rfl := Option.some.inj hs'
          exact Or.inr ⟨by rw [hloop], fun _ => by rw [hloop]⟩
        | succ rid => exact ih hs hs'

/-- What a sweep does to one relationship: it stops before the retirements of the
relationship, or it goes through them. -/
theorem sweepStore_side (hsteady : ∀ s ∈ sides, Steady s) {rid : Nat} {s s' : Side} (hs : sides[rid]? = some s)
    (hs' : (sweepStore sides now).1[rid]? = some s') :
    ((s' = s ∨ s' = (sweepCompact s now).1 ∨ s' = (sweepTimeout (sweepCompact s now).1 now).1) ∧
      (sweepStore sides now).2 ≠ .ok ()) ∨
    (s' = (sweepRetireAll (sweepCompact s now).1 now (committedRotating (sweepCompact s now).1)).1 ∧
      ((sweepStore sides now).2 = .ok () →
        (sweepRetireAll (sweepCompact s now).1 now (committedRotating (sweepCompact s now).1)).2 = .ok ())) := by
  have hcompacted : (sides.map (fun s => (sweepCompact s now).1))[rid]? = some (sweepCompact s now).1 := by
    rw [List.getElem?_map, hs, Option.map_some]
  obtain ⟨hcompact, -⟩ | ⟨-, hblocked⟩ := compactStore_eq sides now
  · cases hfirst : firstTimedOut sides now with
    | none =>
      rw [sweepStore_of_none hcompact hfirst] at hs' ⊢
      obtain ⟨hsame, hresult⟩ | hloop := retireStore_side hcompacted hs'
      · exact Or.inl ⟨Or.inr (Or.inl hsame), hresult⟩
      · exact Or.inr hloop
    | some rid' =>
      obtain ⟨s₀, r, hs₀, hr⟩ := of_firstTimedOut hfirst
      have hsteady₀ := hsteady s₀ (List.mem_of_getElem? hs₀)
      have hr' : timedOutCandidate (sweepCompact s₀ now).1 now = some r := by
        rw [timedOutCandidate_sweepCompact]
        exact hr
      have hresult : (sweepTimeout (sweepCompact s₀ now).1 now).2 ≠ .ok () := by
        obtain ⟨hblocked, hclear⟩ := sweepTimeout_of_some (hsteady₀.sweepCompact now).1 hr'
        cases hreferenced : (sweepCompact s₀ now).1.referenced r.epoch with
        | true =>
          rw [hblocked hreferenced]
          simp
        | false =>
          rw [(hclear hreferenced).1]
          simp
      rw [sweepStore_of_some hcompact hsteady₀ hfirst hs₀ hr] at hs' ⊢
      refine Or.inl ⟨?_, hresult⟩
      dsimp only at hs'
      rw [List.getElem?_set] at hs'
      split_ifs at hs' with hrid hlt
      · obtain rfl := hrid
        obtain rfl := Option.some.inj (hs₀.symm.trans hs)
        exact Or.inr (Or.inr (Option.some.inj hs').symm)
      · exact Or.inr (Or.inl (Option.some.inj (hs'.symm.trans hcompacted)))
  · have hstop : sweepStore sides now = (sides, .error .integrity_error) := by
      unfold sweepStore
      rw [hblocked]
    rw [hstop] at hs' ⊢
    exact Or.inl ⟨Or.inl (Option.some.inj (hs'.symm.trans hs)), by simp⟩

section sweep

variable {rid : Nat} {s s' : Side} {cs : List Replaced}

/-- A sweep that stops before the retirements of a relationship keeps its replaced keys. -/
theorem tracked_of_stopped (hsteady : Steady s) (h : Tracked s.toKeys cs) (hn : Named s.toKeys)
    (hstale : ∀ row ∈ pendingRows s, staleCommitted s now row = false)
    (hs' : s' = s ∨ s' = (sweepCompact s now).1 ∨ s' = (sweepTimeout (sweepCompact s now).1 now).1) :
    Named s'.toKeys ∧ Tracked s'.toKeys cs ∧ ∀ c ∈ cs, s'.ownRow c.prior_epoch = s.ownRow c.prior_epoch := by
  have hcompact := h.sweepCompact hstale
  have hn₁ := (sweepCompact_ownFrom s now).named hn
  have hown := ownRow_sweepCompact s now
  obtain rfl | rfl | rfl := hs'
  · exact ⟨hn, h, fun _ _ => rfl⟩
  · exact ⟨hn₁, hcompact, fun c _ => hown c.prior_epoch⟩
  · have hdiscard := sweepTimeout_undisturbed (hsteady.sweepCompact now).1 now
    refine ⟨(sweepTimeout_ownFrom _ now).named hn₁, hcompact.of_undisturbed hdiscard, fun c hc => ?_⟩
    have hknown := hcompact.known c hc
    rw [hdiscard.own _ (hknown.1.le.trans hknown.2), hown]

theorem sweepStore_tracked (hsteady : ∀ s ∈ sides, Steady s) (hs : sides[rid]? = some s)
    (hs' : (sweepStore sides now).1[rid]? = some s') (h : Tracked s.toKeys cs) (hn : Named s.toKeys)
    (hstale : ∀ row ∈ pendingRows s, staleCommitted s now row = false) : Named s'.toKeys ∧ Tracked s'.toKeys cs := by
  have hsteady₀ := hsteady s (List.mem_of_getElem? hs)
  obtain ⟨hstop, -⟩ | ⟨rfl, -⟩ := sweepStore_side hsteady hs hs'
  · obtain ⟨hn', h', -⟩ := tracked_of_stopped hsteady₀ h hn hstale hstop
    exact ⟨hn', h'⟩
  · have hcompact := h.sweepCompact hstale
    have hn₁ := (sweepCompact_ownFrom s now).named hn
    have hlooped := sweepRetireAll_looped hcompact hn₁
      (scanned_committedRotating hcompact (hsteady₀.sweepCompact now) now)
    exact ⟨fun e row hrow => hn₁ e row (hlooped.from_before e row hrow), hlooped.tracked⟩

end sweep

end RotationManager

/-! ## Runs -/

/-- What every conditioned run keeps. -/
structure KeysTracked (T : List Side × List Milestone) : Prop where
  steady : ∀ s ∈ T.1, Steady s
  named : ∀ s ∈ T.1, Named s.toKeys
  tracked : ∀ (rid : Nat) (s : Side), T.1[rid]? = some s → Tracked s.toKeys (replaced rid T.2)

theorem replaced_append (rid : Nat) (trail more : List Milestone) :
    replaced rid (trail ++ more) = more.foldl (recordReplaced rid) (replaced rid trail) :=
  List.foldl_append

theorem undisturbed_call {s : Side} (ho : Orderly s.toKeys) {call : RotationCall} (hsingle : call.single = true)
    (hcommit : ∀ epoch now, call ≠ .onCommit epoch now) (haccept : call ≠ .noteAcceptedEvent) :
    Undisturbed s.toKeys (s.call call).toKeys := by
  cases call with
  | beginRotation now priv id => exact beginRotation_undisturbed ho now priv id
  | onPrepare prepare id now => exact onPrepare_undisturbed ho.peer prepare id now
  | onAck ack now => exact onAck_undisturbed s ack now
  | noteDecryptedNewWrap epoch now => exact noteDecryptedNewWrap_undisturbed s epoch now
  | markConfirmed now => exact markConfirmed_undisturbed s now
  | confirmRotation now => exact confirmRotation_undisturbed s now
  | onConfirm epoch now => exact onConfirm_undisturbed s epoch now
  | markCommitted now => exact markCommitted_undisturbed ho now
  | onCommit epoch now => exact absurd rfl (hcommit epoch now)
  | noteAcceptedEvent => exact absurd rfl haccept
  | onDataEventEpoch epoch now => exact .of_keys (onDataEventEpoch_rest s epoch now).1
  | resolveQuarantine index choice now => exact resolveQuarantine_undisturbed ho index choice now
  | sweep now => cases hsingle
  | sweepCompact now => cases hsingle
  | sweepTimeout now => cases hsingle
  | sweepRetire epoch now => cases hsingle
  | store event => cases hsingle

theorem onCommit_of_not_confirmed {s : Side} {epoch : Nat} (now : Nat)
    (h : (s.rotation epoch .rotating).filter (·.phase = .confirmed) = none) : (onCommit s epoch now).1 = s := by
  obtain hsame | ⟨r₀, r₁, hcommits, -⟩ := onCommit_cases s epoch now
  · exact hsame
  · rw [hcommits.row] at h
    exact absurd h (by simp [Option.filter, hcommits.confirmed])

section call

variable {sides : List Side} {rid : Nat} {cs : List Replaced}

theorem milestones_onCommit (sides : List Side) (rid epoch now : Nat) :
    milestones sides (.on rid (.onCommit epoch now)) =
      ((sides[rid]?.bind (·.rotation epoch .rotating)).filter (·.phase = .confirmed)).toList.map
        (fun r => .committed rid epoch r.prior_epoch now) := rfl

theorem Tracked.call {s : Side} (h : Tracked s.toKeys cs) (ho : Orderly s.toKeys) (hs : sides[rid]? = some s)
    {call : RotationCall} (hsingle : call.single = true) (hok : Attributed sides (.on rid call)) :
    Tracked (s.call call).toKeys ((milestones sides (.on rid call)).foldl (recordReplaced rid) cs) := by
  by_cases hcommit : ∀ epoch now, call ≠ .onCommit epoch now
  · by_cases haccept : call = .noteAcceptedEvent
    · subst haccept
      show Tracked (noteAcceptedEvent s).toKeys (recordReplaced rid cs (.accepted rid))
      rw [recordReplaced, if_pos rfl]
      exact h.accept (hok s hs)
    · have hnone : milestones sides (.on rid call) = [] := by
        cases call with
        | onCommit epoch now => exact absurd rfl (hcommit epoch now)
        | noteAcceptedEvent => exact absurd rfl haccept
        | _ => rfl
      rw [hnone]
      exact h.of_undisturbed (undisturbed_call ho hsingle hcommit haccept)
  · push Not at hcommit
    obtain ⟨epoch, now, rfl⟩ := hcommit
    show Tracked (onCommit s epoch now).1.toKeys _
    rw [milestones_onCommit, hs, Option.bind_some]
    cases hrow : (s.rotation epoch .rotating).filter (·.phase = .confirmed) with
    | none =>
      rw [onCommit_of_not_confirmed now hrow]
      exact h
    | some r =>
      obtain ⟨hr, hphase⟩ := Option.filter_eq_some_iff.mp hrow
      have hconfirmed : r.phase = .confirmed := of_decide_eq_true hphase
      show Tracked _ (recordReplaced rid cs (.committed rid epoch r.prior_epoch now))
      rw [recordReplaced, if_pos rfl]
      exact h.commit ho hr hconfirmed (hok s hs r hrow)

theorem recordReplaced_of_ne {rid' : Nat} (hne : rid ≠ rid') (call : RotationCall) :
    (milestones sides (.on rid call)).foldl (recordReplaced rid') cs = cs := by
  cases call with
  | onCommit epoch now =>
    rw [milestones_onCommit]
    cases (sides[rid]?.bind (·.rotation epoch .rotating)).filter (·.phase = .confirmed) with
    | none => rfl
    | some r => exact if_neg hne
  | noteAcceptedEvent => exact if_neg hne
  | _ => rfl

end call

/-- A call on one relationship leaves the others. -/
theorem tracked_set {sides : List Side} {trail more : List Milestone} {rid : Nat} {s' : Side}
    (h : ∀ (rid : Nat) (s : Side), sides[rid]? = some s → Tracked s.toKeys (replaced rid trail))
    (hother : ∀ rid', rid ≠ rid' → more.foldl (recordReplaced rid') (replaced rid' trail) = replaced rid' trail)
    (hs' : Tracked s'.toKeys (more.foldl (recordReplaced rid) (replaced rid trail))) :
    ∀ (rid₁ : Nat) (s₁ : Side), (sides.set rid s')[rid₁]? = some s₁ → Tracked s₁.toKeys (replaced rid₁ (trail ++ more)) := by
  intro rid₁ s₁ hs₁
  rw [replaced_append]
  rw [List.getElem?_set] at hs₁
  split_ifs at hs₁ with hrid hlt
  · obtain rfl := hrid
    obtain rfl := Option.some.inj hs₁
    exact hs'
  · rw [hother rid₁ hrid]
    exact h rid₁ s₁ hs₁

theorem named_set {sides : List Side} (h : ∀ s ∈ sides, Named s.toKeys) {rid : Nat} {s' : Side}
    (hs' : Named s'.toKeys) : ∀ s ∈ sides.set rid s', Named s.toKeys := by
  intro s hs
  cases List.mem_or_eq_of_mem_set hs with
  | inl hmem => exact h s hmem
  | inr heq => exact heq ▸ hs'

/-- A step of a conditioned run. -/
theorem KeysTracked.step {T T' : List Side × List Milestone} {call : StoreCall} (h : KeysTracked T)
    (hok : Attributed T.1 call) (hstep : retention.step T call = some T') : KeysTracked T' := by
  obtain ⟨sides, trail⟩ := T
  obtain ⟨sides', trail'⟩ := T'
  obtain ⟨hcall, htrail⟩ := Machine.withTrail_step.mp hstep
  have hcall : storeCalls.step sides call = some sides' := hcall
  dsimp only at htrail hok
  subst htrail
  have hsteady := steady_step h.steady hcall
  cases call with
  | on rid call =>
    simp only [storeCalls] at hcall
    split_ifs at hcall with hsingle
    obtain ⟨s, hs, rfl⟩ := Option.map_eq_some_iff.mp hcall
    have hmem := List.mem_of_getElem? hs
    have ho := (h.steady s hmem).1
    exact ⟨hsteady, named_set h.named ((h.named s hmem).call ho call),
      tracked_set h.tracked (fun rid' hne => recordReplaced_of_ne hne call) ((h.tracked rid s hs).call ho hs hsingle hok)⟩
  | insert rid event =>
    obtain ⟨s, hs, rfl⟩ := Option.map_eq_some_iff.mp hcall
    have hkeys := toKeys_insertIntoEvents s event
    refine ⟨hsteady, named_set h.named ?_, tracked_set h.tracked (fun _ _ => rfl) ?_⟩
    · rw [hkeys]
      exact h.named s (List.mem_of_getElem? hs)
    · rw [hkeys]
      exact h.tracked rid s hs
  | receive rid event now =>
    obtain ⟨s, hs, rfl⟩ := Option.map_eq_some_iff.mp hcall
    have hkeys := toKeys_receiveEvent s event now
    refine ⟨hsteady, named_set h.named ?_, tracked_set h.tracked (fun _ _ => rfl) ?_⟩
    · rw [hkeys]
      exact h.named s (List.mem_of_getElem? hs)
    · rw [hkeys]
      exact h.tracked rid s hs
  | sweep now =>
    obtain rfl := Option.some.inj hcall
    have hside : ∀ (rid : Nat) (s' : Side), (sweepStore sides now).1[rid]? = some s' →
        Named s'.toKeys ∧ Tracked s'.toKeys (replaced rid trail) := by
      intro rid s' hs'
      have hlt : rid < sides.length := by
        obtain ⟨hlt, -⟩ := List.getElem?_eq_some_iff.mp hs'
        rw [length_sweepStore] at hlt
        exact hlt
      have hs : sides[rid]? = some sides[rid] := List.getElem?_eq_getElem hlt
      have hmem := List.mem_of_getElem? hs
      exact sweepStore_tracked h.steady hs hs' (h.tracked rid _ hs) (h.named _ hmem) (hok _ hmem)
    refine ⟨hsteady, fun s' hs' => ?_, fun rid s' hs' => ?_⟩
    · obtain ⟨rid, hrid⟩ := List.getElem?_of_mem hs'
      exact (hside rid s' hrid).1
    · rw [replaced_append]
      exact (hside rid s' hs').2

/-- The own key is replaced and a hundred data events are accepted. -/
def acceptedRun : List StoreCall := rotates 0 ⟨5⟩ ++ List.replicate 100 (.on 0 .noteAcceptedEvent)

end MuseAgentSocial.Crypto
