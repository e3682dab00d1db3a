import MuseAgentSocial.Crypto.InFlight

/-!
# The records of unknown epochs

The tables `unknown_epoch_first_seen` and `rotation_quarantine` over runs of
`on_data_event_epoch`, `on_prepare` and `sweep`.

* `Bounded` is the bound on the two tables.  The gate restores it after its
  inserts, and the other calls only delete or add a row under the cap.
* `Tombstone` is the row of a rejected epoch that is still ahead.  The cap
  passes it over, a prepare deletes it only by making its epoch known, and a
  sweep never raises the current epoch.
* `unknown_epoch_bookkeeping` puts both over a run.
-/

namespace MuseAgentSocial.Crypto

open Model Keys

/-! ## Runs -/

/-- `on_data_event_epoch`, `on_prepare` or `sweep`, of which also the parts. -/
def RotationCall.keepsRecords : RotationCall → Bool
  | .onDataEventEpoch _ _ | .onPrepare _ _ _ | .sweep _ => true
  | .sweepCompact _ | .sweepTimeout _ | .sweepRetire _ _ => true
  | _ => false

/-- A `security.key.prepare` is processed. -/
def RotationCall.prepares : RotationCall → Bool
  | .onPrepare _ _ _ => true
  | _ => false

/-- The store after a run of calls. -/
def Side.calls (s : Side) (calls : List RotationCall) : Side := calls.foldl Side.call s

/-- Some prepare of the run makes an epoch known. -/
def madeKnown (epoch : Nat) (s : Side) : List RotationCall → Bool
  | [] => false
  | c :: cs =>
    (c.prepares && decide (s.currentEpoch < epoch) && decide (epoch ≤ (s.call c).currentEpoch)) ||
      madeKnown epoch (s.call c) cs

/-! ## The two properties -/

/-- The first sightings and the quarantine are within their caps. -/
structure Bounded (s : Side) : Prop where
  first_seen : s.unknown_epoch_first_seen.rows.countP (fun f => !f.rejected) ≤ FIRST_SEEN_CAP
  quarantine : s.rotation_quarantine.length ≤ ROTATION_QUARANTINE_CAP

/-- The row of a rejected epoch that is still ahead. -/
structure Tombstone (s : Side) (f : FirstSeen) : Prop where
  mem : f ∈ s.unknown_epoch_first_seen.rows
  rejected : f.rejected = true
  ahead : s.currentEpoch < f.epoch

theorem currentEpoch_le_of_rows {k k' : Keys} (hepoch : k'.key_epoch = k.key_epoch)
    (hpeer : k'.peer_agreement_key = k.peer_agreement_key)
    (hrows : ∀ e row, k'.key_epochs.find e = some row → k.key_epochs.find e = some row) :
    k'.currentEpoch ≤ k.currentEpoch := by
  refine foldr_max_le (fun e he => ?_)
  rcases List.mem_append.mp he with hown | hpeers
  · obtain ⟨row, hrow⟩ := Option.isSome_iff_exists.mp (mem_ownEpochs.mp hown)
    exact le_currentEpoch (hrows e row (ownRow_eq_some.mp hrow).1)
  · obtain ⟨entry, hentry, rfl⟩ := List.mem_map.mp hpeers
    have hrow : entry ∈ k'.peerRows.map (fun r => (r.epoch, r.public_key)) → entry.1 ≤ k.currentEpoch := by
      intro hmem
      obtain ⟨row, hrow, rfl⟩ := List.mem_map.mp hmem
      exact le_currentEpoch (hrows _ row (peerRow_eq_some.mp (mem_peerRows.mp hrow)).1)
    unfold Keys.peerKeyEpochs at hentry
    cases hkey : k'.peer_agreement_key with
    | none =>
      rw [hkey] at hentry
      exact hrow hentry
    | some key =>
      rw [hkey] at hentry
      rcases List.mem_cons.mp hentry with rfl | hmem
      · show k'.key_epoch ≤ k.currentEpoch
        rw [hepoch]
        exact key_epoch_le_currentEpoch (by rw [← hpeer, hkey]; rfl)
      · exact hrow (List.mem_filter.mp hmem).1

namespace RotationManager

/-! ## The caps -/

variable {s s' : Side} {f : FirstSeen}

theorem mem_capFirstSeen (h : f ∈ s.unknown_epoch_first_seen.rows)
    (hrejected : f.rejected = true) : f ∈ (capFirstSeen s).unknown_epoch_first_seen.rows := by
  unfold capFirstSeen
  rw [Table.mem_delete]
  exact ⟨h, by simp [hrejected]⟩

/-- The cap leaves at most a thousand rows that are not rejected, whatever was there. -/
theorem countP_capFirstSeen (s : Side) :
    (capFirstSeen s).unknown_epoch_first_seen.rows.countP (fun f => !f.rejected) ≤ FIRST_SEEN_CAP := by
  unfold capFirstSeen
  exact le_trans (Table.countP_delete_le _ _ _) (List.length_take_le _ _)

theorem length_quarantine (s : Side) (epoch : Nat) (reason : QuarantineReason) (now : Nat) :
    (quarantine s epoch reason now).rotation_quarantine.length ≤ ROTATION_QUARANTINE_CAP := by
  unfold quarantine
  dsimp only
  rw [List.length_drop]
  omega

/-! ## The gate -/

/-- An epoch that is ahead was seen. -/
def sighted (s : Side) (epoch now : Nat) : Side :=
  capFirstSeen
    { s with unknown_epoch_first_seen := s.unknown_epoch_first_seen.insertOrIgnore ⟨epoch, now, false⟩ }

theorem epoch_rejected (f : FirstSeen) : ({ f with rejected := true } : FirstSeen).epoch = f.epoch := rfl

/-- The row of an epoch becomes a tombstone. -/
def bury (s : Side) (epoch : Nat) : Side :=
  { s with
      unknown_epoch_first_seen := s.unknown_epoch_first_seen.modify epoch
        (fun f => { f with rejected := true }) epoch_rejected }

/-- The row of an epoch is a tombstone, or older than the window. -/
def overdue (s : Side) (epoch now : Nat) : Bool :=
  (s.unknown_epoch_first_seen.find epoch).any
    (fun f => f.rejected || decide (f.first_seen_at + ROTATION_WINDOW < now))

/-- The gate passes a known epoch, and it sights and then rejects or defers one that is ahead. -/
theorem onDataEventEpoch_cases (s : Side) (epoch now : Nat) :
    (epoch ≤ s.currentEpoch ∧ onDataEventEpoch s epoch now = (s, .ok ())) ∨
    (s.currentEpoch < epoch ∧ overdue (sighted s epoch now) epoch now = true ∧
      onDataEventEpoch s epoch now =
        (quarantine (bury (sighted s epoch now) epoch) epoch .unknown_future_epoch_rejected now,
          .error (.rotation .unknown_future_epoch_rejected))) ∨
    (s.currentEpoch < epoch ∧ overdue (sighted s epoch now) epoch now = false ∧
      onDataEventEpoch s epoch now =
        (quarantine (sighted s epoch now) epoch .unknown_future_epoch now,
          .error (.rotation .unknown_future_epoch))) := by
  by_cases hknown : epoch ≤ s.currentEpoch
  · exact Or.inl ⟨hknown, if_pos hknown⟩
  · have hgate : onDataEventEpoch s epoch now =
        if overdue (sighted s epoch now) epoch now then
          (quarantine (bury (sighted s epoch now) epoch) epoch .unknown_future_epoch_rejected now,
            .error (.rotation .unknown_future_epoch_rejected))
        else
          (quarantine (sighted s epoch now) epoch .unknown_future_epoch now,
            .error (.rotation .unknown_future_epoch)) := if_neg hknown
    cases hoverdue : overdue (sighted s epoch now) epoch now with
    | true =>
      rw [hoverdue, if_pos rfl] at hgate
      exact Or.inr (Or.inl ⟨not_le.mp hknown, rfl, hgate⟩)
    | false =>
      rw [hoverdue, if_neg Bool.false_ne_true] at hgate
      exact Or.inr (Or.inr ⟨not_le.mp hknown, rfl, hgate⟩)

theorem countP_bury (s : Side) (epoch : Nat) :
    (bury s epoch).unknown_epoch_first_seen.rows.countP (fun f => !f.rejected) ≤
      s.unknown_epoch_first_seen.rows.countP (fun f => !f.rejected) := by
  refine Table.countP_modify_le _ epoch epoch_rejected (fun f hopen => ?_)
  cases hopen

theorem mem_bury (h : f ∈ s.unknown_epoch_first_seen.rows) (epoch : Nat) :
    (if f.epoch = epoch then { f with rejected := true } else f) ∈ (bury s epoch).unknown_epoch_first_seen.rows := by
  show _ ∈ (Table.modify _ epoch _ epoch_rejected).rows
  rw [Table.mem_modify]
  split_ifs with hkey
  · exact Or.inl ⟨f, h, hkey, rfl⟩
  · exact Or.inr ⟨h, hkey⟩

/-- The gate restores the bounds. -/
theorem onDataEventEpoch_bounded (h : Bounded s) (epoch now : Nat) :
    Bounded (onDataEventEpoch s epoch now).1 := by
  rcases onDataEventEpoch_cases s epoch now with ⟨-, hgate⟩ | ⟨-, -, hgate⟩ | ⟨-, -, hgate⟩
  · rw [hgate]
    exact h
  · rw [hgate]
    exact ⟨le_trans (countP_bury _ epoch) (countP_capFirstSeen _), length_quarantine _ _ _ _⟩
  · rw [hgate]
    exact ⟨countP_capFirstSeen _, length_quarantine _ _ _ _⟩

theorem currentEpoch_onDataEventEpoch (s : Side) (epoch now : Nat) :
    (onDataEventEpoch s epoch now).1.currentEpoch = s.currentEpoch :=
  congrArg Keys.currentEpoch (onDataEventEpoch_rest s epoch now).1

theorem mem_sighted (h : Tombstone s f) (epoch now : Nat) :
    f ∈ (sighted s epoch now).unknown_epoch_first_seen.rows :=
  mem_capFirstSeen (Table.mem_insertOrIgnore.mpr (Or.inl h.mem)) h.rejected

/-- The gate keeps every tombstone. -/
theorem onDataEventEpoch_tombstone (h : Tombstone s f) (epoch now : Nat) :
    Tombstone (onDataEventEpoch s epoch now).1 f := by
  refine ⟨?_, h.rejected, by rw [currentEpoch_onDataEventEpoch]; exact h.ahead⟩
  rcases onDataEventEpoch_cases s epoch now with ⟨-, hgate⟩ | ⟨-, -, hgate⟩ | ⟨-, -, hgate⟩
  · rw [hgate]
    exact h.mem
  · have hburied := mem_bury (mem_sighted h epoch now) epoch
    have hsame : (if f.epoch = epoch then { f with rejected := true } else f) = f := by
      split_ifs
      · rw [← h.rejected]
      · rfl
    rw [hsame] at hburied
    rw [hgate]
    exact hburied
  · rw [hgate]
    exact mem_sighted h epoch now

theorem rejected_of_tombstone (h : Tombstone s f) (now : Nat) :
    (onDataEventEpoch s f.epoch now).2 = .error (.rotation .unknown_future_epoch_rejected) := by
  have hoverdue : overdue (sighted s f.epoch now) f.epoch now = true := by
    unfold overdue
    rw [Table.mem_iff_find.mp (mem_sighted h f.epoch now), Option.any_some, h.rejected, Bool.true_or]
  rcases onDataEventEpoch_cases s f.epoch now with ⟨hknown, -⟩ | ⟨-, -, hgate⟩ | ⟨-, hno, -⟩
  · exact absurd h.ahead (not_lt.mpr hknown)
  · rw [hgate]
  · rw [hoverdue] at hno
    cases hno

theorem tombstone_of_rejected {epoch now : Nat}
    (h : (onDataEventEpoch s epoch now).2 = .error (.rotation .unknown_future_epoch_rejected)) :
    ∃ f, f.epoch = epoch ∧ Tombstone (onDataEventEpoch s epoch now).1 f := by
  rcases onDataEventEpoch_cases s epoch now with ⟨-, hgate⟩ | ⟨hahead, hoverdue, hgate⟩ | ⟨-, -, hgate⟩
  · rw [hgate] at h
    cases h
  · obtain ⟨f, hfind, -⟩ := (Option.any_eq_true _ _).mp hoverdue
    obtain ⟨hmem, hkey⟩ := Table.find_eq_some.mp hfind
    have hburied := mem_bury hmem epoch
    rw [if_pos hkey] at hburied
    refine ⟨{ f with rejected := true }, hkey, ?_, rfl, ?_⟩
    · rw [hgate]
      exact hburied
    · rw [currentEpoch_onDataEventEpoch]
      exact lt_of_lt_of_eq hahead hkey.symm
  · rw [hgate] at h
    cases h

/-! ## A prepare -/

theorem recordAckingRotation_records (s : Side) (new_epoch prior_epoch : Nat) (prepare : Prepare) (id : EventId)
    (now : Nat) :
    let s' := recordAckingRotation s new_epoch prior_epoch prepare id now
    (s'.unknown_epoch_first_seen = s.unknown_epoch_first_seen ∧ s'.rotation_quarantine = s.rotation_quarantine) ∨
      (s'.unknown_epoch_first_seen = s.unknown_epoch_first_seen.delete (fun f => decide (f.epoch ≤ new_epoch)) ∧
        s'.rotation_quarantine.length ≤ s.rotation_quarantine.length) := by
  unfold recordAckingRotation
  dsimp only
  split_ifs
  · exact Or.inl ⟨rfl, rfl⟩
  · exact Or.inr ⟨rfl, List.length_filter_le _ _⟩

theorem recordAckingRotation_bounded (h : Bounded s) (new_epoch prior_epoch : Nat)
    (prepare : Prepare) (id : EventId)
    (now : Nat) : Bounded (recordAckingRotation s new_epoch prior_epoch prepare id now) := by
  rcases recordAckingRotation_records s new_epoch prior_epoch prepare id now with ⟨hseen, hrows⟩ | ⟨hseen, hrows⟩
  · exact ⟨hseen ▸ h.first_seen, hrows ▸ h.quarantine⟩
  · refine ⟨?_, le_trans hrows h.quarantine⟩
    rw [hseen]
    exact le_trans (List.Sublist.countP_le List.filter_sublist) h.first_seen

theorem recordAckingRotation_mem {new_epoch : Nat} {row : KeyRow}
    (hkey : s.key_epochs.find new_epoch = some row) (prior_epoch : Nat) (prepare : Prepare)
    (id : EventId) (now : Nat) (hf : f ∈ s.unknown_epoch_first_seen.rows) :
    let s' := recordAckingRotation s new_epoch prior_epoch prepare id now
    f ∈ s'.unknown_epoch_first_seen.rows ∨ f.epoch ≤ s'.currentEpoch := by
  intro s'
  rcases recordAckingRotation_records s new_epoch prior_epoch prepare id now with ⟨hseen, -⟩ | ⟨hseen, -⟩
  · exact Or.inl (hseen ▸ hf)
  · by_cases hle : f.epoch ≤ new_epoch
    · have hkeys := (recordAckingRotation_rest s new_epoch prior_epoch prepare id now).2.2.2.1
      exact Or.inr (le_trans hle (le_currentEpoch (hkeys ▸ hkey)))
    · refine Or.inl ?_
      show f ∈ (recordAckingRotation s new_epoch prior_epoch prepare id now).unknown_epoch_first_seen.rows
      rw [hseen, Table.mem_delete]
      exact ⟨hf, decide_eq_false hle⟩

theorem quarantine_bounded (h : Bounded s) (epoch : Nat) (reason : QuarantineReason) (now : Nat) :
    Bounded (quarantine s epoch reason now) :=
  ⟨h.first_seen, length_quarantine s epoch reason now⟩

/-- What `on_prepare` does to the records: nothing, a conflict row, or the record of an
acknowledged epoch whose peer key is stored. -/
theorem onPrepare_records (s : Side) (prepare : Prepare) (id : EventId) (now : Nat) :
    (onPrepare s prepare id now).1 = s ∨
    (∃ epoch reason, (onPrepare s prepare id now).1 = quarantine s epoch reason now) ∨
    ∃ keys prior_epoch row, keys.find (prior_epoch + 1) = some row ∧
      (onPrepare s prepare id now).1 =
        recordAckingRotation { s with key_epochs := keys } (prior_epoch + 1) prior_epoch prepare id now := by
  unfold onPrepare
  split
  · exact Or.inl rfl
  rename_i prior_epoch key hprior
  dsimp only
  split
  · rename_i existing hexisting
    split_ifs with hkey
    · exact Or.inr (Or.inl ⟨_, _, rfl⟩)
    · exact Or.inr (Or.inr ⟨s.key_epochs, prior_epoch, existing, (peerRow_eq_some.mp hexisting).1, rfl⟩)
  · unfold acceptPrepare
    dsimp only
    split_ifs
    · exact Or.inl rfl
    · exact Or.inr (Or.inl ⟨_, _, rfl⟩)
    · exact Or.inl rfl
    · exact Or.inl rfl
    · exact Or.inl rfl
    · exact Or.inl rfl
    split
    · exact Or.inl rfl
    · rename_i keys hkeys
      have hfind := Table.find_of_insert hkeys (prior_epoch + 1)
      rw [if_pos rfl] at hfind
      exact Or.inr (Or.inr ⟨keys, prior_epoch, _, hfind, rfl⟩)

theorem onPrepare_bounded (h : Bounded s) (prepare : Prepare) (id : EventId) (now : Nat) :
    Bounded (onPrepare s prepare id now).1 := by
  rcases onPrepare_records s prepare id now with hsame | ⟨_, _, hrow⟩ | ⟨keys, _, _, -, hrecord⟩
  · rw [hsame]
    exact h
  · rw [hrow]
    exact quarantine_bounded h _ _ _
  · rw [hrecord]
    exact recordAckingRotation_bounded (s := { s with key_epochs := keys }) ⟨h.first_seen, h.quarantine⟩ _ _ _ _ _

theorem onPrepare_tombstone (h : Tombstone s f) (prepare : Prepare) (id : EventId) (now : Nat)
    (hahead : (onPrepare s prepare id now).1.currentEpoch < f.epoch) :
    Tombstone (onPrepare s prepare id now).1 f := by
  refine ⟨?_, h.rejected, hahead⟩
  rcases onPrepare_records s prepare id now with hsame | ⟨_, _, hrow⟩ | ⟨keys, prior_epoch, row, hkey, hrecord⟩
  · rw [hsame]
    exact h.mem
  · rw [hrow]
    exact h.mem
  · rw [hrecord] at hahead ⊢
    have hmem := recordAckingRotation_mem (s := { s with key_epochs := keys }) hkey prior_epoch prepare id now h.mem
    exact hmem.resolve_right (not_le.mpr hahead)

/-! ## A sweep -/

/-- What the parts of a sweep do to the records. -/
structure Swept (s s' : Side) : Prop where
  first_seen : s'.unknown_epoch_first_seen = s.unknown_epoch_first_seen
  quarantine : s'.rotation_quarantine.length ≤ s.rotation_quarantine.length
  currentEpoch : s'.currentEpoch ≤ s.currentEpoch

theorem Swept.refl (s : Side) : Swept s s := ⟨rfl, le_rfl, le_rfl⟩

theorem Swept.trans {s₁ s₂ s₃ : Side} (h : Swept s₁ s₂) (h' : Swept s₂ s₃) : Swept s₁ s₃ :=
  ⟨h'.first_seen.trans h.first_seen, h'.quarantine.trans h.quarantine, h'.currentEpoch.trans h.currentEpoch⟩

theorem Swept.bounded (h : Swept s s') (hs : Bounded s) : Bounded s' :=
  ⟨h.first_seen ▸ hs.first_seen, h.quarantine.trans hs.quarantine⟩

theorem Swept.tombstone (h : Swept s s') (hf : Tombstone s f) : Tombstone s' f :=
  ⟨h.first_seen ▸ hf.mem, hf.rejected, lt_of_le_of_lt h.currentEpoch hf.ahead⟩

theorem Removed.currentEpoch {epoch : Nat} (h : Removed s epoch s') :
    s'.currentEpoch ≤ s.currentEpoch := by
  refine currentEpoch_le_of_rows h.key_epoch h.peer_agreement_key (fun e row hrow => ?_)
  rw [h.key_epochs, Option.filter_eq_some_iff] at hrow
  exact hrow.1

theorem sweepCompact_swept (s : Side) (now : Nat) : Swept s (sweepCompact s now).1 := by
  have hcurrent : (sweepCompact s now).1.currentEpoch ≤ s.currentEpoch := by
    rcases sweepCompact_cases s now with hsame | ⟨hepoch, hpeer, -, hkeys, -⟩
    · rw [hsame]
    · refine currentEpoch_le_of_rows hepoch hpeer (fun e row hrow => ?_)
      rw [hkeys, Option.filter_eq_some_iff] at hrow
      exact hrow.1
  refine ⟨?_, ?_, hcurrent⟩
  · unfold sweepCompact
    split_ifs <;> rfl
  · unfold sweepCompact
    split_ifs
    · exact le_rfl
    · exact List.length_filter_le _ _

theorem deletePrivateKey_records (s : Side) (ref : KeyRef) :
    (s.deletePrivateKey ref).unknown_epoch_first_seen = s.unknown_epoch_first_seen ∧
      (s.deletePrivateKey ref).rotation_quarantine = s.rotation_quarantine := by
  cases ref <;> exact ⟨rfl, rfl⟩

theorem sweepTimeout_records (s : Side) (now : Nat) :
    (sweepTimeout s now).1.unknown_epoch_first_seen = s.unknown_epoch_first_seen ∧
      (sweepTimeout s now).1.rotation_quarantine = s.rotation_quarantine := by
  unfold sweepTimeout
  split
  · exact ⟨rfl, rfl⟩
  · unfold discardCandidate
    split_ifs
    · exact ⟨rfl, rfl⟩
    · cases s.ownRow _ with
      | none => exact ⟨rfl, rfl⟩
      | some row => exact deletePrivateKey_records _ _
    · exact ⟨rfl, rfl⟩

theorem sweepTimeout_swept (s : Side) (now : Nat) : Swept s (sweepTimeout s now).1 := by
  obtain ⟨hseen, hrows⟩ := sweepTimeout_records s now
  refine ⟨hseen, hrows ▸ le_rfl, ?_⟩
  rcases sweepTimeout_cases s now with hsame | ⟨r, -, -, hremoved, -⟩
  · rw [hsame]
  · exact hremoved.currentEpoch

theorem sweepRetire_records (s : Side) (row : Rotation) (now : Nat) :
    (sweepRetire s row now).1.unknown_epoch_first_seen = s.unknown_epoch_first_seen ∧
      (sweepRetire s row now).1.rotation_quarantine = s.rotation_quarantine := by
  unfold sweepRetire
  split
  · exact ⟨rfl, rfl⟩
  · split
    · split
      · exact ⟨rfl, rfl⟩
      · dsimp only
        split
        · exact ⟨rfl, rfl⟩
        · split
          · exact ⟨rfl, rfl⟩
          · exact deletePrivateKey_records _ _
    · exact ⟨rfl, rfl⟩

theorem sweepRetire_swept (s : Side) (row : Rotation) (now : Nat) : Swept s (sweepRetire s row now).1 := by
  obtain ⟨hseen, hrows⟩ := sweepRetire_records s row now
  refine ⟨hseen, hrows ▸ le_rfl, ?_⟩
  rcases sweepRetire_cases s row now with hsame | ⟨-, hremoved, -⟩
  · rw [hsame]
  · exact hremoved.currentEpoch

theorem sweep_swept (s : Side) (now : Nat) : Swept s (sweep s now).1 :=
  sweep_rel .refl (fun _ _ _ h h' => h.trans h') (fun s => sweepCompact_swept s now)
    (fun s => sweepTimeout_swept s now) (fun s row => sweepRetire_swept s row now) s

end RotationManager

/-! ## Runs of the calls -/

open RotationManager

theorem Bounded.call {s : Side} (h : Bounded s) {c : RotationCall} (hc : c.keepsRecords = true) :
    Bounded (s.call c) := by
  cases c with
  | onDataEventEpoch epoch now => exact onDataEventEpoch_bounded h epoch now
  | onPrepare prepare id now => exact onPrepare_bounded h prepare id now
  | sweep now => exact (sweep_swept s now).bounded h
  | sweepCompact now => exact (sweepCompact_swept s now).bounded h
  | sweepTimeout now => exact (sweepTimeout_swept s now).bounded h
  | sweepRetire epoch now =>
    simp only [Side.call]
    cases (s.rotation epoch .rotating).filter (·.phase = .committed) with
    | none => exact h
    | some row => exact (sweepRetire_swept s row now).bounded h
  | _ => cases hc

theorem Tombstone.call {s : Side} {f : FirstSeen} (h : Tombstone s f) {c : RotationCall}
    (hc : c.keepsRecords = true) :
    (c.prepares = true ∧ f.epoch ≤ (s.call c).currentEpoch) ∨ Tombstone (s.call c) f := by
  cases c with
  | onDataEventEpoch epoch now => exact Or.inr (onDataEventEpoch_tombstone h epoch now)
  | onPrepare prepare id now =>
    by_cases hle : f.epoch ≤ (onPrepare s prepare id now).1.currentEpoch
    · exact Or.inl ⟨rfl, hle⟩
    · exact Or.inr (onPrepare_tombstone h prepare id now (not_le.mp hle))
  | sweep now => exact Or.inr ((sweep_swept s now).tombstone h)
  | sweepCompact now => exact Or.inr ((sweepCompact_swept s now).tombstone h)
  | sweepTimeout now => exact Or.inr ((sweepTimeout_swept s now).tombstone h)
  | sweepRetire epoch now =>
    simp only [Side.call]
    cases (s.rotation epoch .rotating).filter (·.phase = .committed) with
    | none => exact Or.inr h
    | some row => exact Or.inr ((sweepRetire_swept s row now).tombstone h)
  | _ => cases hc

theorem Bounded.calls {s : Side} (h : Bounded s) {calls : List RotationCall}
    (hcalls : ∀ c ∈ calls, c.keepsRecords = true) : Bounded (s.calls calls) := by
  induction calls generalizing s with
  | nil => exact h
  | cons c cs ih =>
    exact ih (h.call (hcalls c List.mem_cons_self)) (fun c' hc' => hcalls c' (List.mem_cons_of_mem _ hc'))

theorem Tombstone.calls {s : Side} {f : FirstSeen} (h : Tombstone s f) {calls : List RotationCall}
    (hcalls : ∀ c ∈ calls, c.keepsRecords = true) (hunknown : madeKnown f.epoch s calls = false) :
    Tombstone (s.calls calls) f := by
  induction calls generalizing s with
  | nil => exact h
  | cons c cs ih =>
    rw [madeKnown, Bool.or_eq_false_iff] at hunknown
    rcases h.call (hcalls c List.mem_cons_self) with ⟨hprepares, hknown⟩ | hnext
    · have hfirst := hunknown.1
      rw [hprepares, decide_eq_true h.ahead, decide_eq_true hknown] at hfirst
      cases hfirst
    · exact ih hnext (fun c' hc' => hcalls c' (List.mem_cons_of_mem _ hc')) hunknown.2

/-- In every run from tables within their caps the tables stay within them.  After the
rejection of an epoch its row stays as it is until a prepare makes the epoch known, and the
epoch is rejected at any time. -/
theorem unknown_epoch_bookkeeping {s : Side} (hs : Bounded s) {calls : List RotationCall}
    (hcalls : ∀ c ∈ calls, c.keepsRecords = true) :
    Bounded (s.calls calls) ∧
    ∀ epoch now, (onDataEventEpoch (s.calls calls) epoch now).2 =
        .error (.rotation .unknown_future_epoch_rejected) →
      ∃ f : FirstSeen, f.epoch = epoch ∧ f.rejected = true ∧
        ∀ later : List RotationCall, (∀ c ∈ later, c.keepsRecords = true) →
          madeKnown epoch ((s.calls calls).call (.onDataEventEpoch epoch now)) later = false →
          ∀ s', s' = ((s.calls calls).call (.onDataEventEpoch epoch now)).calls later →
            f ∈ s'.unknown_epoch_first_seen.rows ∧
              ∀ now', (onDataEventEpoch s' epoch now').2 =
                .error (.rotation .unknown_future_epoch_rejected) := by
  refine ⟨hs.calls hcalls, fun epoch now hrejected => ?_⟩
  obtain ⟨f, rfl, hf⟩ := tombstone_of_rejected hrejected
  refine ⟨f, rfl, hf.rejected, ?_⟩
  rintro later hlater hunknown s' rfl
  have hstill := hf.calls hlater hunknown
  exact ⟨hstill.mem, rejected_of_tombstone hstill⟩

/-- Epoch 9 is seen, and rejected a day later; a sweep and the sighting of another epoch follow. -/
theorem unknown_epoch_bookkeeping_rejected :
    let s := (freshSide ⟨1⟩ ⟨2⟩).calls [.onDataEventEpoch 9 0]
    Bounded s ∧
    (onDataEventEpoch (((s.call (.onDataEventEpoch 9 86401)).calls [.sweep 90000, .onDataEventEpoch 10 5])) 9 7).2 =
      .error (.rotation .unknown_future_epoch_rejected) := by
  intro s
  have hcalls : ∀ c ∈ [RotationCall.onDataEventEpoch 9 0], c.keepsRecords = true := by decide
  obtain ⟨hbounded, hlater⟩ := unknown_epoch_bookkeeping (s := freshSide ⟨1⟩ ⟨2⟩) ⟨by decide, by decide⟩ hcalls
  obtain ⟨f, -, -, hstays⟩ := hlater 9 86401 (by decide +kernel)
  refine ⟨hbounded, (hstays [.sweep 90000, .onDataEventEpoch 10 5] (by decide) ?_ _ rfl).2 7⟩
  decide +kernel

end MuseAgentSocial.Crypto
