import MuseAgentSocial.Crypto.Resolution

/-!
# The order of the rotation rows

`sweep` retires the committed rotations in the order of their rows.

* `KeepsOrder` is what every call but `begin_rotation` does to the list of rows: no
  rotating row is added, none comes back from the discarded ones, and a committed
  row has the time of its commit.
* `InOrder` is the invariant: the rotating rows stand in the order of their epochs.
* `inOrder_of_begun`: `begin_rotation` adds its row at the end, ahead of all.
-/

namespace MuseAgentSocial.Crypto

open Model RotationManager Keys

/-- A rotating row that was not discarded. -/
def Rotation.counts (r : Rotation) : Bool := r.role = .rotating ∧ r.phase ≠ .discarded

/-- A committed row has the time of its commit. -/
def Rotation.Stamped (r : Rotation) : Prop := r.phase = .committed → r.committed_at.isSome = true

/-- The epochs of the rotating rows that were not discarded, in the order of the rows. -/
def countedEpochs (t : Table Rotation.key) : List Nat := (t.rows.filter (·.counts)).map (·.epoch)

/-- The rotating rows stand in the order of their epochs, and the committed ones have
the time of their commit. -/
structure InOrder (k : Keys) : Prop where
  sorted : (countedEpochs k.key_rotations).Pairwise (· < ·)
  stamped : k.key_rotations.All Rotation.Stamped

theorem Side.Fresh.inOrder {s : Side} (h : s.Fresh) : InOrder s.toKeys where
  sorted := by
    rw [h.idle]
    exact List.Pairwise.nil
  stamped := by
    rw [h.idle]
    exact Table.All.empty

/-! ## What follows a list of rows -/

/-- No rotating row comes in or comes back, and the commit times stay. -/
structure KeepsOrder (t t' : Table Rotation.key) : Prop where
  sublist : (countedEpochs t').Sublist (countedEpochs t)
  stamped : t.All Rotation.Stamped → t'.All Rotation.Stamped

theorem InOrder.of_keepsOrder {k k' : Keys} (ha : InOrder k) (h : KeepsOrder k.key_rotations k'.key_rotations) :
    InOrder k' where
  sorted := ha.sorted.sublist h.sublist
  stamped := h.stamped ha.stamped

namespace KeepsOrder

variable {t t' t'' : Table Rotation.key}

theorem refl (t : Table Rotation.key) : KeepsOrder t t := ⟨List.Sublist.refl _, id⟩

theorem trans (h : KeepsOrder t t') (h' : KeepsOrder t' t'') : KeepsOrder t t'' :=
  ⟨h'.sublist.trans h.sublist, fun hs => h'.stamped (h.stamped hs)⟩

theorem of_eq (h : t' = t) : KeepsOrder t t' := h ▸ refl t

theorem delete (t : Table Rotation.key) (p : Rotation → Bool) : KeepsOrder t (t.delete p) where
  sublist := (List.filter_sublist.filter _).map _
  stamped hs := hs.delete p

/-- A row that does not count may come in. -/
theorem insertOrIgnore {r : Rotation} (hcounts : r.counts = false) (hstamped : r.Stamped) :
    KeepsOrder t (t.insertOrIgnore r) where
  sublist := by
    unfold countedEpochs
    rw [Table.rows_insertOrIgnore]
    split_ifs
    · exact List.Sublist.refl _
    · simp [hcounts]
  stamped hs := hs.insertOrIgnore hstamped

/-- An update of the row of a key that neither brings a discarded row back nor commits
a row without the time. -/
theorem modify {key : Nat × Role} {f : Rotation → Rotation} (hf : ∀ r, (f r).key = r.key)
    (h : ∀ r, t.find key = some r →
      (r.phase = .discarded → (f r).phase = .discarded) ∧ (r.Stamped → (f r).Stamped)) :
    KeepsOrder t (t.modify key f hf) where
  sublist := by
    have hmap : ∀ rows : List Rotation, (∀ r ∈ rows, r ∈ t.rows) →
        (((rows.map (fun r => if r.key = key then f r else r)).filter (·.counts)).map (·.epoch)).Sublist
          ((rows.filter (·.counts)).map (·.epoch)) := by
      intro rows
      induction rows with
      | nil => exact fun _ => List.Sublist.refl _
      | cons r rows ih =>
        intro hrows
        have hrest := ih (fun r' hr' => hrows r' (List.mem_cons_of_mem _ hr'))
        rw [List.map_cons]
        split_ifs with hkey
        · have hr : t.find key = some r := Table.find_eq_some.mpr ⟨hrows r List.mem_cons_self, hkey⟩
          have hrow : (f r).epoch = r.epoch ∧ (f r).role = r.role := Prod.mk.inj (hf r)
          cases hc : (f r).counts with
          | false =>
            rw [List.filter_cons_of_neg (by simp [hc])]
            exact hrest.trans ((List.sublist_cons_self r rows).filter _ |>.map _)
          | true =>
            have hcounts : r.counts = true := by
              simp only [Rotation.counts, decide_eq_true_eq] at hc ⊢
              rw [hrow.2] at hc
              exact ⟨hc.1, fun hd => hc.2 ((h r hr).1 hd)⟩
            rw [List.filter_cons_of_pos (by simp [hc]), List.filter_cons_of_pos (by simp [hcounts]),
              List.map_cons, List.map_cons, hrow.1]
            exact hrest.cons_cons _
        · cases hc : r.counts with
          | false =>
            rw [List.filter_cons_of_neg (by simp [hc]), List.filter_cons_of_neg (by simp [hc])]
            exact hrest
          | true =>
            rw [List.filter_cons_of_pos (by simp [hc]), List.filter_cons_of_pos (by simp [hc])]
            exact hrest.cons_cons _
    exact hmap t.rows (fun _ hr => hr)
  stamped hs := hs.modify (fun r hr => (h r hr).2) hf

end KeepsOrder

/-! ## The calls -/

namespace RotationManager

variable {s s' : Side}

variable {epoch : Nat} {role : Role} {f : Rotation → Rotation}

theorem keepsOrder_updateRotation {epoch : Nat} {role : Role} {f : Rotation → Rotation} (hf : ∀ r, (f r).key = r.key)
    (h : ∀ r, s.rotation epoch role = some r →
      (r.phase = .discarded → (f r).phase = .discarded) ∧ (r.Stamped → (f r).Stamped)) :
    KeepsOrder s.key_rotations (s.updateRotation epoch role f hf).key_rotations :=
  .modify hf h

theorem consumePendingWrapSeen_keepsOrder (s : Side) (epoch : Nat) :
    KeepsOrder s.key_rotations (consumePendingWrapSeen s epoch).key_rotations := by
  unfold consumePendingWrapSeen
  split_ifs
  · refine KeepsOrder.modify (fun r => by split_ifs <;> rfl) (fun r _ => ?_)
    split_ifs
    · exact ⟨id, id⟩
    · exact ⟨id, id⟩
  · exact .refl _

theorem onAck_keepsOrder (s : Side) (ack : Ack) (now : Nat) :
    KeepsOrder s.key_rotations (onAck s ack now).1.key_rotations := by
  unfold onAck
  cases hrow : s.rotation ack.epoch .rotating with
  | none => exact .refl _
  | some r =>
    dsimp only
    split_ifs with hid hacked hphase hlate
    · exact .refl _
    · exact consumePendingWrapSeen_keepsOrder s ack.epoch
    · exact .refl _
    · exact .refl _
    · refine KeepsOrder.trans (keepsOrder_updateRotation (fun _ => by rfl) ?_) (consumePendingWrapSeen_keepsOrder _ ack.epoch)
      intro r' hr'
      obtain rfl := Option.some.inj (hrow.symm.trans hr')
      exact ⟨fun hd => absurd (hd.symm.trans (not_not.mp hphase)) (by simp), fun _ hc => absurd hc (by simp)⟩

theorem noteDecryptedNewWrap_keepsOrder (s : Side) (epoch now : Nat) :
    KeepsOrder s.key_rotations (noteDecryptedNewWrap s epoch now).key_rotations := by
  unfold noteDecryptedNewWrap
  split_ifs
  · exact keepsOrder_updateRotation (fun _ => by rfl) (fun _ _ => ⟨id, id⟩)
  · exact .refl _

/-- An update to a phase that is neither committed nor discarded, of a row that was not
discarded. -/
theorem keepsOrder_of_live {r : Rotation} (hrow : s.rotation epoch role = some r)
    (hlive : r.live = true) (hf : ∀ r, (f r).key = r.key) (hphase : ∀ r, (f r).phase ≠ .committed) :
    KeepsOrder s.key_rotations (s.updateRotation epoch role f hf).key_rotations := by
  refine keepsOrder_updateRotation hf (fun r' hr' => ?_)
  obtain rfl := Option.some.inj (hrow.symm.trans hr')
  exact ⟨fun hd => absurd hd (Rotation.live_iff.mp hlive).2, fun _ hc => absurd hc (hphase _)⟩

theorem markConfirmed_keepsOrder (s : Side) (now : Nat) :
    KeepsOrder s.key_rotations (markConfirmed s now).1.key_rotations := by
  unfold markConfirmed
  cases hrow : s.inFlightAs .rotating with
  | none => exact .refl _
  | some r =>
    obtain ⟨hrot, hlive⟩ := rotation_of_inFlightAs hrow
    dsimp only
    split_ifs
    · exact .refl _
    · exact .refl _
    · exact keepsOrder_of_live hrot hlive (fun _ => by rfl) (fun _ => by simp)

theorem confirmRotation_keepsOrder (s : Side) (now : Nat) :
    KeepsOrder s.key_rotations (confirmRotation s now).1.key_rotations := by
  unfold confirmRotation
  cases hrow : s.inFlightAs .rotating with
  | none => exact .refl _
  | some r =>
    obtain ⟨hrot, hlive⟩ := rotation_of_inFlightAs hrow
    dsimp only
    split_ifs
    · exact .refl _
    · exact .refl _
    · exact .refl _
    · exact keepsOrder_of_live hrot hlive (fun _ => by rfl) (fun _ => by simp)

theorem onConfirm_keepsOrder (s : Side) (epoch now : Nat) :
    KeepsOrder s.key_rotations (onConfirm s epoch now).1.key_rotations := by
  unfold onConfirm
  cases hrow : s.rotation epoch .acking with
  | none => exact .refl _
  | some r =>
    dsimp only
    split_ifs with hconfirmed hphase
    · exact .refl _
    · exact .refl _
    · have hlive : r.live = true := by
        rw [Rotation.live_iff, not_not.mp hphase]
        simp
      exact keepsOrder_of_live hrow hlive (fun _ => by rfl) (fun _ => by simp)

/-- A commit stamps the row. -/
theorem keepsOrder_of_commit {r : Rotation} (hrow : s.rotation epoch role = some r)
    (hphase : r.phase = .confirmed) (hf : ∀ r, (f r).key = r.key)
    (hstamped : ∀ r, (f r).committed_at.isSome = true) :
    KeepsOrder s.key_rotations (s.updateRotation epoch role f hf).key_rotations := by
  refine keepsOrder_updateRotation hf (fun r' hr' => ?_)
  obtain rfl := Option.some.inj (hrow.symm.trans hr')
  exact ⟨fun hd => absurd (hd.symm.trans hphase) (by simp), fun _ _ => hstamped _⟩

theorem onCommit_keepsOrder (s : Side) (epoch now : Nat) :
    KeepsOrder s.key_rotations (onCommit s epoch now).1.key_rotations := by
  unfold onCommit
  cases hrow : s.rotation epoch .rotating with
  | none =>
    dsimp only
    split_ifs
    · exact .refl _
    · exact .refl _
  | some r =>
    dsimp only
    split_ifs with hcommitted hphase
    · exact .refl _
    · exact .refl _
    · exact keepsOrder_of_commit hrow (not_not.mp hphase) (fun _ => by rfl) (fun _ => by rfl)

theorem markCommitted_keepsOrder (s : Side) (now : Nat) :
    KeepsOrder s.key_rotations (markCommitted s now).1.key_rotations := by
  unfold markCommitted
  cases hrow : s.inFlightAs .acking with
  | none =>
    dsimp only
    split_ifs
    · exact .refl _
    · exact .refl _
  | some r =>
    obtain ⟨hrot, -⟩ := rotation_of_inFlightAs hrow
    dsimp only
    split_ifs with hphase
    · exact .refl _
    · exact keepsOrder_of_commit hrot (not_not.mp hphase) (fun _ => by rfl) (fun _ => by rfl)

theorem noteAcceptedEvent_keepsOrder (s : Side) :
    KeepsOrder s.key_rotations (noteAcceptedEvent s).key_rotations := by
  refine keepsOrder_updateRotation (fun r => by split_ifs <;> rfl) (fun r _ => ?_)
  split_ifs
  · exact ⟨id, id⟩
  · exact ⟨id, id⟩

theorem recordAckingRotation_keepsOrder (s : Side) (new_epoch prior_epoch : Nat) (prepare : Prepare) (id : EventId)
    (now : Nat) :
    KeepsOrder s.key_rotations (recordAckingRotation s new_epoch prior_epoch prepare id now).key_rotations := by
  unfold recordAckingRotation
  dsimp only
  split_ifs
  · exact KeepsOrder.delete _ _
  · refine (KeepsOrder.delete _ _).trans (KeepsOrder.insertOrIgnore rfl ?_)
    exact fun hc => absurd hc (by simp [ackingRow])

theorem onPrepare_keepsOrder (s : Side) (prepare : Prepare) (id : EventId) (now : Nat) :
    KeepsOrder s.key_rotations (onPrepare s prepare id now).1.key_rotations := by
  cases hprior : s.priorEpoch prepare with
  | none =>
    unfold onPrepare
    rw [Option.map_eq_none_iff.mp hprior]
    exact .refl _
  | some p =>
    cases hrow : s.peerRow (p + 1) with
    | some row =>
      rw [onPrepare_of_peerRow hprior hrow]
      split_ifs
      · exact .refl _
      · exact recordAckingRotation_keepsOrder s (p + 1) p prepare id now
    | none =>
      rw [onPrepare_of_no_peerRow hprior hrow]
      unfold acceptPrepare
      dsimp only
      split_ifs
      iterate 6 exact .refl _
      cases hkeys : s.key_epochs.insert ⟨p + 1, prepare.new_agreement_key, .peer⟩ with
      | none => exact .refl _
      | some keys => exact recordAckingRotation_keepsOrder { s with key_epochs := keys } (p + 1) p prepare id now

/-! ## The sweep and the operator override -/

theorem keepsOrder_of_discard (s : Side) (epoch : Nat) (hf : ∀ r, (f r).key = r.key)
    (hphase : ∀ r, (f r).phase = .discarded) :
    KeepsOrder s.key_rotations (s.updateRotation epoch .rotating f hf).key_rotations :=
  keepsOrder_updateRotation hf (fun _ _ => ⟨fun _ => hphase _, fun _ hc => absurd ((hphase _).symm.trans hc) (by simp)⟩)

theorem key_rotations_deletePrivateKey (s : Side) (ref : KeyRef) :
    (s.deletePrivateKey ref).key_rotations = s.key_rotations := by
  cases ref <;> rfl

theorem key_rotations_elim (s : Side) (path : Option KeyRef) :
    (path.elim s s.deletePrivateKey).key_rotations = s.key_rotations := by
  cases path with
  | none => rfl
  | some ref => exact key_rotations_deletePrivateKey s ref

theorem sweepCompact_keepsOrder (s : Side) (now : Nat) :
    KeepsOrder s.key_rotations (sweepCompact s now).1.key_rotations := by
  unfold sweepCompact
  split_ifs
  · exact .refl _
  · exact KeepsOrder.delete _ _

theorem sweepTimeout_keepsOrder (s : Side) (now : Nat) :
    KeepsOrder s.key_rotations (sweepTimeout s now).1.key_rotations := by
  unfold sweepTimeout
  cases timedOutCandidate s now with
  | none => exact .refl _
  | some r =>
    dsimp only
    unfold discardCandidate
    split_ifs with hphase hfk
    · exact .refl _
    · dsimp only
      rw [key_rotations_elim]
      exact keepsOrder_of_discard s r.epoch (fun _ => by rfl) (fun _ => by rfl)
    · exact .refl _

theorem sweepRetire_keepsOrder (s : Side) (row : Rotation) (now : Nat) :
    KeepsOrder s.key_rotations (sweepRetire s row now).1.key_rotations := by
  unfold sweepRetire
  cases row.committed_at with
  | none => exact .refl _
  | some committed_at =>
    dsimp only
    cases s.ownRow row.prior_epoch with
    | none =>
      dsimp only
      split_ifs
      · exact .refl _
      · exact .delete _ _
      · exact .refl _
    | some old =>
      dsimp only
      split_ifs
      · exact .refl _
      · exact .refl _
      · rw [key_rotations_deletePrivateKey]
        exact .delete _ _
      · exact .refl _

theorem discardInFlight_keepsOrder {claimed : Bool} {path : Option KeyRef}
    (h : discardInFlight s epoch = .ok (s', claimed, path)) : KeepsOrder s.key_rotations s'.key_rotations := by
  unfold discardInFlight at h
  split_ifs at h with hlive hfk
  · obtain ⟨rfl, -, -⟩ : _ = s' ∧ _ = claimed ∧ _ = path := by
      simpa only [Except.ok.injEq, Prod.mk.injEq] using h
    exact keepsOrder_of_discard s epoch (fun _ => by rfl) (fun _ => by rfl)
  · obtain ⟨rfl, -, -⟩ : _ = s' ∧ _ = claimed ∧ _ = path := by
      simpa only [Except.ok.injEq, Prod.mk.injEq] using h
    exact .refl _

theorem resolveTheirs_keepsOrder (s : Side) (index epoch : Nat) (prepare : Prepare) (id : EventId) (now : Nat) :
    KeepsOrder s.key_rotations (resolveTheirs s index epoch prepare id now).1.key_rotations := by
  unfold resolveTheirs
  cases hdiscard : discardInFlight s epoch with
  | error raised => exact .refl _
  | ok result =>
    obtain ⟨discarded, claimed, path⟩ := result
    have hdiscarded := discardInFlight_keepsOrder hdiscard
    have hprepare := onPrepare_keepsOrder (path.elim discarded discarded.deletePrivateKey) prepare id now
    rw [key_rotations_elim] at hprepare
    dsimp only
    cases hresult : onPrepare (path.elim discarded discarded.deletePrivateKey) prepare id now with
    | mk s₁ result =>
      rw [hresult] at hprepare
      cases result with
      | error raised => exact hdiscarded.trans hprepare
      | ok ack => exact hdiscarded.trans hprepare

theorem resolveQuarantine_keepsOrder (s : Side) (index : Int) (choice : Choice) (now : Nat) :
    KeepsOrder s.key_rotations (resolveQuarantine s index choice now).1.key_rotations := by
  unfold resolveQuarantine
  split_ifs
  · exact .refl _
  · split
    · exact .refl _
    · split
      · exact .refl _
      · exact resolveTheirs_keepsOrder s _ _ _ _ _
      · exact .refl _
      · exact .refl _

/-! ## A new rotation -/

theorem rows_recordCandidate {keyRow : KeyRow} {row : Rotation} (h : recordCandidate s keyRow row = some s') :
    ∃ p, s'.key_rotations.rows = (s.key_rotations.delete p).rows ++ [row] := by
  unfold recordCandidate at h
  split at h
  · cases h
  · dsimp only at h
    split at h
    · cases h
    · rename_i rotations hrotations
      obtain rfl := Option.some.inj h
      exact ⟨_, (Table.insert_eq_some hrotations).2⟩

/-- `begin_rotation` leaves the rows alone or adds one at the end, when nothing is in
flight. -/
theorem rows_beginRotation (s : Side) (now : Nat) (priv : PrivateKey) (id : Option EventId) :
    (beginRotation s now priv id).1.key_rotations = s.key_rotations ∨
    s.inFlight = none ∧ ∃ p prior, (beginRotation s now priv id).1.key_rotations.rows =
      (s.key_rotations.delete p).rows ++ [candidateRow (s.currentEpoch + 1) prior now priv id] := by
  unfold beginRotation
  split_ifs with hflight
  · exact Or.inl rfl
  · split
    · exact Or.inl rfl
    · rename_i prior _
      dsimp only
      split_ifs
      · exact Or.inl rfl
      · split
        · exact Or.inl rfl
        · rename_i stored hstored
          obtain ⟨hrest, -⟩ := storeCandidateKey_ok hstored
          split
          · apply Or.inl
            show stored.key_rotations = _
            rw [hrest]
          · rename_i begun hbegun
            obtain ⟨p, hrows⟩ := rows_recordCandidate hbegun
            rw [hrest] at hrows
            exact Or.inr ⟨Option.not_isSome_iff_eq_none.mp hflight, p, prior, hrows⟩

/-- With nothing in flight the rotating rows are committed ones, and their epochs are
known. -/
theorem le_currentEpoch_of_counted (ho : Orderly s.toKeys) (hidle : s.inFlight = none) {e : Nat}
    (h : e ∈ countedEpochs s.key_rotations) : e ≤ s.currentEpoch := by
  obtain ⟨r, hr, rfl⟩ := List.mem_map.mp h
  obtain ⟨hmem, hcounts⟩ := List.mem_filter.mp hr
  obtain ⟨-, hphase⟩ : r.role = .rotating ∧ r.phase ≠ .discarded := of_decide_eq_true hcounts
  have hrow : s.rotation r.epoch r.role = some r := rotation_eq_some.mpr ⟨hmem, rfl, rfl⟩
  have hcommitted : r.phase = .committed := by
    by_contra hne
    have hlive : r.live = true := Rotation.live_iff.mpr ⟨hne, hphase⟩
    exact absurd hlive (by simp [inFlight_eq_none.mp hidle _ _ r hrow])
  exact (ho.committed _ _ r hrow hcommitted).trans (key_epoch_le_currentEpoch ho.peer)

theorem inOrder_of_begun (ho : Orderly s.toKeys) (ha : InOrder s.toKeys) (now : Nat) (priv : PrivateKey)
    (id : Option EventId) : InOrder (beginRotation s now priv id).1.toKeys := by
  obtain hsame | ⟨hidle, p, prior, hrows⟩ := rows_beginRotation s now priv id
  · exact ha.of_keepsOrder (.of_eq hsame)
  · have hkept : KeepsOrder s.key_rotations (s.key_rotations.delete p) := .delete _ p
    have hepochs : countedEpochs (beginRotation s now priv id).1.key_rotations =
        countedEpochs (s.key_rotations.delete p) ++ [s.currentEpoch + 1] := by
      unfold countedEpochs
      rw [hrows, List.filter_append, List.map_append]
      rfl
    constructor
    · rw [hepochs, List.pairwise_append]
      refine ⟨ha.sorted.sublist hkept.sublist, List.pairwise_singleton _ _, fun e he e' he' => ?_⟩
      have hle := le_currentEpoch_of_counted ho hidle (hkept.sublist.subset he)
      have heq : e' = s.currentEpoch + 1 := List.mem_singleton.mp he'
      omega
    · intro r hr
      rw [hrows] at hr
      cases List.mem_append.mp hr with
      | inl hold => exact hkept.stamped ha.stamped r hold
      | inr hnew =>
        rw [List.mem_singleton.mp hnew]
        exact fun hc => absurd hc (by simp [candidateRow])

end RotationManager

/-! ## Every call -/

/-- What a relation of two stores takes from the rotation rows alone, every sweep has. -/
theorem sweep_keepsOrder (s : Side) (now : Nat) : KeepsOrder s.key_rotations (sweep s now).1.key_rotations :=
  sweep_rel (R := fun s s' => KeepsOrder s.key_rotations s'.key_rotations) (fun _ => .refl _)
    (fun _ _ _ h h' => h.trans h') (fun s => sweepCompact_keepsOrder s now) (fun s => sweepTimeout_keepsOrder s now)
    (fun s row => sweepRetire_keepsOrder s row now) s

theorem InOrder.call {s : Side} (ho : Orderly s.toKeys) (ha : InOrder s.toKeys) (call : RotationCall) :
    InOrder (s.call call).toKeys := by
  cases call with
  | beginRotation now priv id => exact inOrder_of_begun ho ha now priv id
  | onPrepare prepare id now => exact ha.of_keepsOrder (onPrepare_keepsOrder s prepare id now)
  | onAck ack now => exact ha.of_keepsOrder (onAck_keepsOrder s ack now)
  | noteDecryptedNewWrap epoch now => exact ha.of_keepsOrder (noteDecryptedNewWrap_keepsOrder s epoch now)
  | markConfirmed now => exact ha.of_keepsOrder (markConfirmed_keepsOrder s now)
  | confirmRotation now => exact ha.of_keepsOrder (confirmRotation_keepsOrder s now)
  | onConfirm epoch now => exact ha.of_keepsOrder (onConfirm_keepsOrder s epoch now)
  | markCommitted now => exact ha.of_keepsOrder (markCommitted_keepsOrder s now)
  | onCommit epoch now => exact ha.of_keepsOrder (onCommit_keepsOrder s epoch now)
  | noteAcceptedEvent => exact ha.of_keepsOrder (noteAcceptedEvent_keepsOrder s)
  | onDataEventEpoch epoch now =>
    show InOrder (onDataEventEpoch s epoch now).1.toKeys
    rw [(onDataEventEpoch_rest s epoch now).1]
    exact ha
  | sweep now => exact ha.of_keepsOrder (sweep_keepsOrder s now)
  | sweepCompact now => exact ha.of_keepsOrder (sweepCompact_keepsOrder s now)
  | sweepTimeout now => exact ha.of_keepsOrder (sweepTimeout_keepsOrder s now)
  | sweepRetire epoch now =>
    simp only [Side.call]
    split
    · exact ha.of_keepsOrder (sweepRetire_keepsOrder s _ now)
    · exact ha
  | resolveQuarantine index choice now => exact ha.of_keepsOrder (resolveQuarantine_keepsOrder s index choice now)
  | store event => exact ha

theorem InOrder.committedRotating {s : Side} (ha : InOrder s.toKeys) :
    ((committedRotating s).map (·.epoch)).Pairwise (· < ·) := by
  refine ha.sorted.sublist (List.Sublist.map _ ?_)
  unfold RotationManager.committedRotating
  apply List.monotone_filter_right
  intro r hr
  obtain ⟨hrole, hphase⟩ : r.role = .rotating ∧ r.phase = .committed := of_decide_eq_true hr
  simp [Rotation.counts, hrole, hphase]

end MuseAgentSocial.Crypto
