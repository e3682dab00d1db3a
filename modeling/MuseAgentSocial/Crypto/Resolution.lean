import MuseAgentSocial.Crypto.InFlight

/-!
# Resolving a conflicting prepare

`resolve_quarantine` with the choice "theirs" discards the candidate of the
quarantined epoch and gives the prepare to `on_prepare` again.

* `Next` is when `on_prepare` takes a prepare for a new epoch: `onPrepare_ok_iff`
  and `onPrepare_expired_iff` say what it answers in terms of it.
* `withdrawn` is the store after the discard.  `next_withdrawn` reads `Next`
  there back to the store before the call.
* `Named`: the key file of an own row is the one of its epoch, so the discard
  deletes no other key.
* `resolve_theirs_iff`: the override gives what it promises exactly when nothing
  but the candidate stands against the prepare.
-/

namespace MuseAgentSocial.Crypto

open Model RotationManager Keys

/-! ## What `on_prepare` answers -/

namespace Keys

variable {k : Keys}

/-- `prior_epoch` of `on_prepare`: the epoch of the peer key that a prepare names. -/
def priorEpoch (k : Keys) (prepare : Prepare) : Option Nat :=
  (k.peerKeyEpochs.find? (fun e => agreementFingerprint e.2 = prepare.prior_fingerprint)).map (·.1)

/-- The key of a prepare is the peer key of an epoch. -/
def Stored (k : Keys) (epoch : Nat) (prepare : Prepare) : Prop :=
  ∃ row, k.peerRow epoch = some row ∧ row.public_key = prepare.new_agreement_key

/-- Nothing is known beyond an epoch and nothing is in flight. -/
structure Next (k : Keys) (p : Nat) : Prop where
  peer : ∀ e ∈ k.peerKeyEpochs.map (·.1), e ≤ p
  own : ∀ e ∈ k.ownEpochs, e ≤ p
  idle : k.inFlight = none

theorem mem_of_priorEpoch {prepare : Prepare} {p : Nat} (h : k.priorEpoch prepare = some p) :
    p ∈ k.peerKeyEpochs.map (·.1) := by
  obtain ⟨e, he, rfl⟩ := Option.map_eq_some_iff.mp h
  exact List.mem_map_of_mem (List.mem_of_find?_eq_some he)

theorem mem_peerKeyEpochs {e : Nat} (h : (k.peerRow e).isSome = true) : e ∈ k.peerKeyEpochs.map (·.1) := by
  obtain ⟨row, hrow⟩ := Option.isSome_iff_exists.mp h
  have hepoch : row.epoch = e := Table.key_of_find (peerRow_eq_some.mp hrow).1
  have hentry : (e, row.public_key) ∈ k.peerRows.map (fun r => (r.epoch, r.public_key)) :=
    List.mem_map.mpr ⟨row, mem_peerRows.mpr (hepoch.symm ▸ hrow), by rw [hepoch]⟩
  unfold peerKeyEpochs
  cases hkey : k.peer_agreement_key with
  | none => exact List.mem_map.mpr ⟨_, hentry, rfl⟩
  | some key =>
    by_cases hcur : e = k.key_epoch
    · exact List.mem_map.mpr ⟨_, List.mem_cons_self, hcur.symm⟩
    · have hkept : (e, row.public_key) ∈
          (k.peerRows.map (fun r => (r.epoch, r.public_key))).filter (fun e => e.1 ≠ k.key_epoch) :=
        List.mem_filter.mpr ⟨hentry, by simpa using hcur⟩
      exact List.mem_map.mpr ⟨_, List.mem_cons_of_mem _ hkept, rfl⟩

theorem Next.peerRow {p : Nat} (h : Next k p) : k.peerRow (p + 1) = none := by
  cases hrow : k.peerRow (p + 1) with
  | none => rfl
  | some row =>
    have hle := h.peer (p + 1) (mem_peerKeyEpochs (by rw [hrow]; rfl))
    omega

theorem Next.ownRow {p : Nat} (h : Next k p) : k.ownRow (p + 1) = none := by
  cases hrow : k.ownRow (p + 1) with
  | none => rfl
  | some row =>
    have hle := h.own (p + 1) (mem_ownEpochs.mpr (by rw [hrow]; rfl))
    omega

theorem Next.currentEpoch_le {p : Nat} (h : Next k p) : k.currentEpoch ≤ p := by
  apply foldr_max_le
  intro e he
  cases List.mem_append.mp he with
  | inl hown => exact h.own e hown
  | inr hpeer => exact h.peer e hpeer

theorem find_eq_none_of_rows {e : Nat} (hown : k.ownRow e = none) (hpeer : k.peerRow e = none) :
    k.key_epochs.find e = none := by
  cases hfind : k.key_epochs.find e with
  | none => rfl
  | some row =>
    cases hrow : row.isOwn with
    | true => exact absurd (ownRow_eq_some.mpr ⟨hfind, hrow⟩) (by simp [hown])
    | false => exact absurd (peerRow_eq_some.mpr ⟨hfind, hrow⟩) (by simp [hpeer])

theorem ownRow_of_peerRow {e : Nat} (h : (k.peerRow e).isSome = true) : k.ownRow e = none := by
  obtain ⟨row, hrow⟩ := Option.isSome_iff_exists.mp h
  obtain ⟨hfind, hpeer⟩ := peerRow_eq_some.mp hrow
  simp [ownRow, hfind, Option.filter, hpeer]

end Keys

namespace RotationManager

section

variable {s : Side} {p : Nat} {prepare : Prepare} {id : EventId} {now : Nat}

theorem onPrepare_of_peerRow {row : KeyRow} (h : s.priorEpoch prepare = some p)
    (hrow : s.peerRow (p + 1) = some row) :
    onPrepare s prepare id now =
      if row.public_key ≠ prepare.new_agreement_key then
        (quarantine s (p + 1) (.conflicting_prepare prepare id) now, .error (.rotation .conflicting_prepare))
      else
        (recordAckingRotation s (p + 1) p prepare id now, .ok ⟨p + 1, id⟩) := by
  obtain ⟨⟨p', key⟩, hfind, rfl⟩ := Option.map_eq_some_iff.mp h
  unfold onPrepare
  dsimp only at hrow
  simp only [hfind, hrow]

theorem onPrepare_of_no_peerRow (h : s.priorEpoch prepare = some p) (hrow : s.peerRow (p + 1) = none) :
    onPrepare s prepare id now = acceptPrepare s p prepare id now := by
  obtain ⟨⟨p', key⟩, hfind, rfl⟩ := Option.map_eq_some_iff.mp h
  unfold onPrepare
  dsimp only at hrow
  simp only [hfind, hrow]

theorem acceptPrepare_of_next (prepare : Prepare) (id : EventId) (now : Nat)
    (hp : p ∈ s.peerKeyEpochs.map (·.1)) (h : Next s.toKeys p) :
    (prepare.deadline < now → acceptPrepare s p prepare id now = (s, .error (.rotation .prepare_expired))) ∧
    (now ≤ prepare.deadline → (acceptPrepare s p prepare id now).2 = .ok ⟨p + 1, id⟩) := by
  have hmax : p = (s.peerKeyEpochs.map (·.1)).foldr max 0 :=
    le_antisymm (le_foldr_max hp) (foldr_max_le h.peer)
  have hcurrent : ¬ p + 1 ≤ s.currentEpoch := by
    have hle := h.currentEpoch_le
    omega
  unfold acceptPrepare
  rw [if_neg (not_not.mpr hmax), if_neg (by simp [h.ownRow]), if_neg hcurrent, if_neg (by simp [h.idle])]
  constructor
  · intro hlate
    rw [if_pos hlate]
  · intro hlate
    rw [if_neg (not_lt.mpr hlate)]
    have hfind : s.key_epochs.find (p + 1) = none := find_eq_none_of_rows h.ownRow h.peerRow
    have hinsert : ∃ keys, s.key_epochs.insert ⟨p + 1, prepare.new_agreement_key, .peer⟩ = some keys :=
      Table.insert_isSome hfind
    obtain ⟨keys, hkeys⟩ := hinsert
    simp only [hkeys]

/-- Without `Next` the prepare meets a guard that is not the one on its deadline. -/
theorem acceptPrepare_of_not_next (prepare : Prepare) (id : EventId) (now : Nat) (h : ¬ Next s.toKeys p) :
    ∃ code, code ≠ .prepare_expired ∧ (acceptPrepare s p prepare id now).2 = .error (.rotation code) := by
  unfold acceptPrepare
  dsimp only
  split_ifs with hmax hown hlive hstale hflight
  · exact ⟨_, by decide, rfl⟩
  · exact ⟨_, by decide, rfl⟩
  · exact ⟨_, by decide, rfl⟩
  · exact ⟨_, by decide, rfl⟩
  · exact ⟨_, by decide, rfl⟩
  all_goals
    refine absurd ⟨?_, ?_, Option.not_isSome_iff_eq_none.mp hflight⟩ h
    · intro e he
      exact (le_foldr_max he).trans (not_not.mp hmax).ge
    · intro e he
      have hle : e ≤ s.currentEpoch := le_foldr_max (List.mem_append_left _ he)
      omega

theorem onPrepare_ok_iff {ack : Ack} :
    (onPrepare s prepare id now).2 = .ok ack ↔
      ∃ p, s.priorEpoch prepare = some p ∧ ack = ⟨p + 1, id⟩ ∧
        (Stored s.toKeys (p + 1) prepare ∨ Next s.toKeys p ∧ now ≤ prepare.deadline) := by
  cases hprior : s.priorEpoch prepare with
  | none =>
    unfold onPrepare
    rw [Option.map_eq_none_iff.mp hprior]
    simp
  | some p =>
    simp only [Option.some.injEq, exists_eq_left']
    cases hrow : s.peerRow (p + 1) with
    | some row =>
      rw [onPrepare_of_peerRow hprior hrow]
      have hnext : ¬ Next s.toKeys p := fun h => by simp [h.peerRow] at hrow
      have hstored : Stored s.toKeys (p + 1) prepare ↔ row.public_key = prepare.new_agreement_key := by
        simp [Stored, hrow]
      split_ifs with hkey
      · simp [hstored, hnext, hkey]
      · simp [hstored, not_not.mp hkey, eq_comm]
    | none =>
      rw [onPrepare_of_no_peerRow hprior hrow]
      have hstored : ¬ Stored s.toKeys (p + 1) prepare := by simp [Stored, hrow]
      by_cases hnext : Next s.toKeys p
      · obtain ⟨hlate, hok⟩ := acceptPrepare_of_next prepare id now
          (mem_of_priorEpoch hprior) hnext
        by_cases hdeadline : now ≤ prepare.deadline
        · simp [hok hdeadline, hstored, hnext, hdeadline, eq_comm]
        · simp [hlate (not_le.mp hdeadline), hstored, hdeadline]
      · obtain ⟨code, -, hcode⟩ := acceptPrepare_of_not_next prepare id now hnext
        simp [hcode, hstored, hnext]

/-- `on_prepare` finds a prepare expired only after every other guard, and then it has
changed nothing. -/
theorem onPrepare_expired_iff :
    (onPrepare s prepare id now).2 = .error (.rotation .prepare_expired) ↔
      ∃ p, s.priorEpoch prepare = some p ∧ Next s.toKeys p ∧ prepare.deadline < now := by
  cases hprior : s.priorEpoch prepare with
  | none =>
    unfold onPrepare
    rw [Option.map_eq_none_iff.mp hprior]
    simp
  | some p =>
    simp only [Option.some.injEq, exists_eq_left']
    cases hrow : s.peerRow (p + 1) with
    | some row =>
      rw [onPrepare_of_peerRow hprior hrow]
      have hnext : ¬ Next s.toKeys p := fun h => by simp [h.peerRow] at hrow
      split_ifs with hkey <;> simp [hnext]
    | none =>
      rw [onPrepare_of_no_peerRow hprior hrow]
      by_cases hnext : Next s.toKeys p
      · obtain ⟨hlate, hok⟩ := acceptPrepare_of_next prepare id now
          (mem_of_priorEpoch hprior) hnext
        by_cases hdeadline : now ≤ prepare.deadline
        · simp [hok hdeadline, hdeadline]
        · simp [hlate (not_le.mp hdeadline), hnext, not_le.mp hdeadline]
      · obtain ⟨code, hne, hcode⟩ := acceptPrepare_of_not_next prepare id now hnext
        simp [hcode, hnext, hne]

theorem onPrepare_of_expired (h : (onPrepare s prepare id now).2 = .error (.rotation .prepare_expired)) :
    (onPrepare s prepare id now).1 = s := by
  obtain ⟨p, hprior, hnext, hlate⟩ := onPrepare_expired_iff.mp h
  rw [onPrepare_of_no_peerRow hprior hnext.peerRow,
    (acceptPrepare_of_next prepare id now (mem_of_priorEpoch hprior) hnext).1 hlate]

/-- An acknowledged prepare takes rows of other kinds out of the quarantine only. -/
theorem quarantine_of_onPrepare_ok {ack : Ack} (h : (onPrepare s prepare id now).2 = .ok ack) :
    ∃ keep : QuarantineRow → Bool, (∀ epoch prepare id at', keep ⟨epoch, .conflicting_prepare prepare id, at'⟩ = true) ∧
      (onPrepare s prepare id now).1.rotation_quarantine = s.rotation_quarantine.filter keep := by
  have hrecord : ∀ (s : Side) (p : Nat), ∃ keep : QuarantineRow → Bool,
      (∀ epoch prepare id at', keep ⟨epoch, .conflicting_prepare prepare id, at'⟩ = true) ∧
      (recordAckingRotation s (p + 1) p prepare id now).rotation_quarantine = s.rotation_quarantine.filter keep := by
    intro s p
    unfold recordAckingRotation
    dsimp only
    split_ifs
    · exact ⟨fun _ => true, fun _ _ _ _ => rfl, (List.filter_eq_self.mpr (fun _ _ => rfl)).symm⟩
    · exact ⟨_, fun _ _ _ _ => by simp, rfl⟩
  obtain ⟨p, hprior, -, hhow⟩ := onPrepare_ok_iff.mp h
  cases hrow : s.peerRow (p + 1) with
  | some row =>
    rw [onPrepare_of_peerRow hprior hrow] at h ⊢
    split_ifs at h ⊢ with hkey
    exact hrecord s p
  | none =>
    rw [onPrepare_of_no_peerRow hprior hrow] at h ⊢
    unfold acceptPrepare at h ⊢
    dsimp only at h ⊢
    split_ifs at h ⊢
    cases hkeys : s.key_epochs.insert ⟨p + 1, prepare.new_agreement_key, .peer⟩ with
    | none => simp [hkeys] at h
    | some keys => exact hrecord { s with key_epochs := keys } p

end

/-! ## The discard -/

/-- The store after the candidate of an epoch is discarded and its key file deleted. -/
def withdrawn (s : Side) (epoch : Nat) : Side :=
  let discarded := s.updateRotation epoch .rotating (fun r => { r with phase := .discarded }) Rotation.key_discarded
  let removed := { discarded with
    key_epochs := discarded.key_epochs.delete (fun r => r.epoch = epoch ∧ r.isOwn = true) }
  ((s.ownRow epoch).map (·.private_key_ref)).elim removed removed.deletePrivateKey

end RotationManager

/-- The rotation that the override discards. -/
def Keys.candidate (k : Keys) (epoch : Nat) : Option Rotation := (k.rotation epoch .rotating).filter (·.live)

theorem Keys.candidate_eq_some {k : Keys} {epoch : Nat} {r : Rotation} :
    k.candidate epoch = some r ↔ k.rotation epoch .rotating = some r ∧ r.live = true :=
  Option.filter_eq_some_iff

namespace RotationManager

section

variable {s : Side} {epoch : Nat}

/-- The discard changes the rotation row, the own key row and the key files. -/
theorem withdrawn_rest (s : Side) (epoch : Nat) :
    withdrawn s epoch = { s with
      key_epochs := s.key_epochs.delete (fun r => r.epoch = epoch ∧ r.isOwn = true)
      key_rotations := (withdrawn s epoch).key_rotations
      key_files := (withdrawn s epoch).key_files } ∧
    (∀ e role, (withdrawn s epoch).rotation e role =
      if (e, role) = (epoch, Role.rotating) then
        (s.rotation epoch .rotating).map (fun r => { r with phase := .discarded })
      else s.rotation e role) ∧
    ∀ path, (∀ row, s.ownRow epoch = some row → row.private_key_ref ≠ .file path) →
      (withdrawn s epoch).key_files.find path = s.key_files.find path := by
  have hrotation := rotation_updateRotation s epoch .rotating (fun r => { r with phase := .discarded })
    Rotation.key_discarded
  unfold withdrawn
  cases hrow : s.ownRow epoch with
  | none => exact ⟨rfl, hrotation, fun _ _ => rfl⟩
  | some row =>
    obtain ⟨e, key, ref⟩ := row
    cases ref with
    | peer => exact ⟨rfl, hrotation, fun _ _ => rfl⟩
    | file p =>
      refine ⟨rfl, hrotation, fun path hpath => ?_⟩
      have hne : path ≠ p := fun heq => hpath _ rfl (by rw [heq])
      exact (find_delete_path _ _ _).trans (if_neg hne)

/-- `resolve_quarantine` with the choice "theirs", after the discard. -/
def offerAgain (s s₁ : Side) (index : Nat) (prepare : Prepare) (prepare_event_id : EventId) (now : Nat) :
    Side × Except ResolveError (Option Ack) :=
  match onPrepare s₁ prepare prepare_event_id now with
  | (s', .error raised) => (s', .error (.raised raised))
  | (s', .ok ack) =>
    ({ s' with
        rotation_quarantine := deleteQuarantined s.rotation_quarantine index s'.rotation_quarantine },
      .ok (some ack))

/-- Without a candidate there is nothing to discard. -/
theorem resolveTheirs_of_none (h : s.candidate epoch = none) (index : Nat) (prepare : Prepare) (id : EventId)
    (now : Nat) : resolveTheirs s index epoch prepare id now = offerAgain s s index prepare id now := by
  have hlive : ¬ (s.rotation epoch .rotating).any (·.live) = true := by
    intro hany
    obtain ⟨r, hr, hl⟩ := (Option.any_eq_true _ _).mp hany
    exact absurd (candidate_eq_some.mpr ⟨hr, hl⟩) (by simp [h])
  unfold resolveTheirs discardInFlight
  rw [if_neg hlive]
  rfl

/-- A candidate is discarded first, unless a stored event is sealed under its epoch. -/
theorem resolveTheirs_of_some {r : Rotation} (h : s.candidate epoch = some r) (hown : (s.ownRow epoch).isSome = true)
    (index : Nat) (prepare : Prepare) (id : EventId) (now : Nat) :
    resolveTheirs s index epoch prepare id now =
      if s.referenced epoch = true then (s, .error (.raised .integrity_error))
      else offerAgain s (withdrawn s epoch) index prepare id now := by
  obtain ⟨hr, hl⟩ := candidate_eq_some.mp h
  have hlive : (s.rotation epoch .rotating).any (·.live) = true := by simp [hr, hl]
  unfold resolveTheirs discardInFlight
  rw [if_pos hlive]
  split_ifs with hfk hreferenced hreferenced
  · rfl
  · exact absurd hfk.2 hreferenced
  · exact absurd ⟨hown, hreferenced⟩ hfk
  · rfl

theorem removed_withdrawn (s : Side) (epoch : Nat) : Removed s epoch (withdrawn s epoch) where
  key_epoch := by rw [(withdrawn_rest s epoch).1]
  peer_agreement_key := by rw [(withdrawn_rest s epoch).1]
  key_epochs e := by rw [(withdrawn_rest s epoch).1]; exact Table.find_delete _ _ _
  key_files := (withdrawn_rest s epoch).2.2

theorem peerKeyEpochs_withdrawn (s : Side) (epoch : Nat) : (withdrawn s epoch).peerKeyEpochs = s.peerKeyEpochs := by
  have hpeers : (withdrawn s epoch).peerRows = s.peerRows := by
    rw [(withdrawn_rest s epoch).1]
    show (s.key_epochs.rows.filter _).filter _ = s.key_epochs.rows.filter _
    rw [List.filter_filter]
    apply List.filter_congr
    intro row _
    cases hown : row.isOwn <;> simp [hown]
  have hremoved := removed_withdrawn s epoch
  unfold Keys.peerKeyEpochs
  rw [hpeers, hremoved.peerRow, hremoved.key_epoch, hremoved.peer_agreement_key]

theorem priorEpoch_withdrawn (s : Side) (epoch : Nat) (prepare : Prepare) :
    (withdrawn s epoch).priorEpoch prepare = s.priorEpoch prepare := by
  unfold Keys.priorEpoch
  rw [peerKeyEpochs_withdrawn]

theorem candidate_withdrawn {r : Rotation} (h : s.candidate epoch = some r) :
    (withdrawn s epoch).rotation epoch .rotating = some { r with phase := .discarded } := by
  rw [(withdrawn_rest s epoch).2.1, if_pos rfl, (candidate_eq_some.mp h).1]
  rfl

end

end RotationManager

/-! ## What stands against a prepare -/

/-- Apart from the candidate of `epoch`, nothing is known beyond `p` and nothing is in
flight. -/
structure Unobstructed (k : Keys) (epoch p : Nat) : Prop where
  peer : ∀ e ∈ k.peerKeyEpochs.map (·.1), e ≤ p
  own : ∀ e ∈ k.ownEpochs, e ≤ p ∨ e = epoch ∧ (k.candidate epoch).isSome = true
  idle : ∀ e role r, k.rotation e role = some r → r.live = true → (e, role) = (epoch, Role.rotating)

namespace RotationManager

section

variable {s : Side} {epoch p : Nat}

theorem next_iff_unobstructed (h : s.candidate epoch = none) :
    Next s.toKeys p ↔ Unobstructed s.toKeys epoch p := by
  constructor
  · intro hnext
    refine ⟨hnext.peer, fun e he => Or.inl (hnext.own e he), fun e role r hr hl => ?_⟩
    exact absurd hl (by simp [inFlight_eq_none.mp hnext.idle e role r hr])
  · intro hfree
    refine ⟨hfree.peer, fun e he => ?_, inFlight_eq_none.mpr (fun e role r hr => ?_)⟩
    · obtain hle | ⟨-, hsome⟩ := hfree.own e he
      · exact hle
      · exact absurd hsome (by simp [h])
    · cases hl : r.live with
      | false => rfl
      | true =>
        obtain ⟨rfl, rfl⟩ := Prod.mk.inj (hfree.idle e role r hr hl)
        exact absurd (candidate_eq_some.mpr ⟨hr, hl⟩) (by simp [h])

/-- Nothing stands against a prepare once the candidate is discarded. -/
theorem next_withdrawn {r : Rotation} (h : s.candidate epoch = some r) :
    Next (withdrawn s epoch).toKeys p ↔ Unobstructed s.toKeys epoch p := by
  have hown := (removed_withdrawn s epoch).ownRow
  have hrotation := (withdrawn_rest s epoch).2.1
  constructor
  · intro hnext
    refine ⟨peerKeyEpochs_withdrawn s epoch ▸ hnext.peer, fun e he => ?_, fun e role r' hr' hl => ?_⟩
    · by_cases heq : e = epoch
      · exact Or.inr ⟨heq, by rw [h]; rfl⟩
      · refine Or.inl (hnext.own e (mem_ownEpochs.mpr ?_))
        rw [hown, if_neg heq]
        exact mem_ownEpochs.mp he
    · by_contra hne
      have hkept := inFlight_eq_none.mp hnext.idle e role r' (by rw [hrotation, if_neg hne]; exact hr')
      exact absurd hl (by simp [hkept])
  · intro hfree
    refine ⟨(peerKeyEpochs_withdrawn s epoch).symm ▸ hfree.peer, fun e he => ?_,
      inFlight_eq_none.mpr (fun e role r' hr' => ?_)⟩
    · have hsome := mem_ownEpochs.mp he
      rw [hown] at hsome
      split_ifs at hsome with heq
      · exact absurd hsome (by simp)
      · obtain hle | ⟨heq', -⟩ := hfree.own e (mem_ownEpochs.mpr hsome)
        · exact hle
        · exact absurd heq' heq
    · rw [hrotation] at hr'
      split_ifs at hr' with hkey
      · obtain ⟨r₀, -, rfl⟩ := Option.map_eq_some_iff.mp hr'
        rfl
      · cases hl : r'.live with
        | false => rfl
        | true => exact absurd (hfree.idle e role r' hr' hl) hkey

end

end RotationManager

/-! ## The key files -/

/-- The key file of an own row is the one of its epoch. -/
def Named (k : Keys) : Prop := ∀ e row, k.ownRow e = some row → row.private_key_ref = .file e

/-- The own rows were there before. -/
def OwnFrom (s s' : Side) : Prop := ∀ e row, s'.ownRow e = some row → s.ownRow e = some row

theorem OwnFrom.refl (s : Side) : OwnFrom s s := fun _ _ h => h

theorem OwnFrom.trans {s₁ s₂ s₃ : Side} (h : OwnFrom s₁ s₂) (h' : OwnFrom s₂ s₃) : OwnFrom s₁ s₃ :=
  fun e row hrow => h e row (h' e row hrow)

theorem OwnFrom.of_key_epochs {s s' : Side} (h : s'.key_epochs = s.key_epochs) : OwnFrom s s' :=
  fun e _ hrow => ownRow_congr h e ▸ hrow

theorem OwnFrom.named {s s' : Side} (h : OwnFrom s s') (hn : Named s.toKeys) : Named s'.toKeys :=
  fun e row hrow => hn e row (h e row hrow)

namespace RotationManager

section

variable {s s' : Side}

theorem Removed.ownFrom {epoch : Nat} (h : Removed s epoch s') : OwnFrom s s' := by
  intro e row hrow
  rw [h.ownRow] at hrow
  split_ifs at hrow
  exact hrow

theorem onPrepare_ownFrom (s : Side) (prepare : Prepare) (id : EventId) (now : Nat) :
    OwnFrom s (onPrepare s prepare id now).1 := by
  obtain ⟨hsame, -⟩ | ⟨p, -, hack⟩ := onPrepare_cases s prepare id now
  · exact .of_key_epochs (congrArg Keys.key_epochs hsame)
  · obtain ⟨-, hsame⟩ | ⟨-, -, -, hfind⟩ := hack.peer_key
    · exact .of_key_epochs hsame
    · intro e row hrow
      obtain ⟨hrow, hown⟩ := ownRow_eq_some.mp hrow
      rw [hfind] at hrow
      split_ifs at hrow
      · obtain rfl := Option.some.inj hrow
        cases hown
      · exact ownRow_eq_some.mpr ⟨hrow, hown⟩

theorem sweepCompact_ownFrom (s : Side) (now : Nat) : OwnFrom s (sweepCompact s now).1 :=
  fun e _ hrow => ownRow_sweepCompact s now e ▸ hrow

theorem sweepTimeout_ownFrom (s : Side) (now : Nat) : OwnFrom s (sweepTimeout s now).1 := by
  obtain hsame | ⟨r, -, -, hremoved, -⟩ := sweepTimeout_cases s now
  · exact hsame.symm ▸ .refl s
  · exact hremoved.ownFrom

theorem sweepRetire_ownFrom (s : Side) (row : Rotation) (now : Nat) : OwnFrom s (sweepRetire s row now).1 := by
  obtain hsame | ⟨-, hremoved, -⟩ := sweepRetire_cases s row now
  · exact hsame.symm ▸ .refl s
  · exact hremoved.ownFrom

theorem sweep_ownFrom (s : Side) (now : Nat) : OwnFrom s (sweep s now).1 :=
  sweep_rel .refl (fun _ _ _ h h' => h.trans h') (fun s => sweepCompact_ownFrom s now)
    (fun s => sweepTimeout_ownFrom s now) (fun s row => sweepRetire_ownFrom s row now) s

theorem offerAgain_ownFrom (s s₁ : Side) (index : Nat) (prepare : Prepare) (id : EventId) (now : Nat) :
    OwnFrom s₁ (offerAgain s s₁ index prepare id now).1 := by
  have hprepare := onPrepare_ownFrom s₁ prepare id now
  unfold offerAgain
  cases hout : onPrepare s₁ prepare id now with
  | mk s' result =>
    rw [hout] at hprepare
    cases result with
    | error raised => exact hprepare
    | ok ack => exact hprepare

theorem resolveTheirs_ownFrom (ho : Orderly s.toKeys) (index epoch : Nat) (prepare : Prepare) (id : EventId)
    (now : Nat) : OwnFrom s (resolveTheirs s index epoch prepare id now).1 := by
  cases hcandidate : s.candidate epoch with
  | none =>
    rw [resolveTheirs_of_none hcandidate]
    exact offerAgain_ownFrom s s index prepare id now
  | some r =>
    obtain ⟨hr, hl⟩ := candidate_eq_some.mp hcandidate
    rw [resolveTheirs_of_some hcandidate (ho.ownKeys epoch r hr hl).1]
    split_ifs
    · exact .refl s
    · exact (removed_withdrawn s epoch).ownFrom.trans (offerAgain_ownFrom _ _ _ _ _ _)

theorem resolveQuarantine_ownFrom (ho : Orderly s.toKeys) (index : Int) (choice : Choice) (now : Nat) :
    OwnFrom s (resolveQuarantine s index choice now).1 := by
  unfold resolveQuarantine
  split_ifs
  · exact .refl s
  · split
    · exact .refl s
    · split
      · exact .refl s
      · exact resolveTheirs_ownFrom ho _ _ _ _ _
      · exact .refl s
      · exact .refl s

theorem beginRotation_named (hn : Named s.toKeys) (now : Nat) (priv : PrivateKey) (id : Option EventId) :
    Named (beginRotation s now priv id).1.toKeys := by
  obtain ⟨epoch, prepare, prior, -, hbegun⟩ | ⟨raised, -, hfile⟩ := beginRotation_cases s now priv id
  · intro e row hrow
    obtain ⟨hfind, hown⟩ := ownRow_eq_some.mp hrow
    rw [hbegun.key_epochs] at hfind
    split_ifs at hfind with heq
    · obtain rfl := Option.some.inj hfind
      rw [heq]
    · exact hn e row (ownRow_eq_some.mpr ⟨hfind, hown⟩)
  · exact (OwnFrom.of_key_epochs hfile.key_epochs).named hn

end

end RotationManager

/-- A call that is not `begin_rotation` adds no own row. -/
theorem Named.call {s : Side} (hn : Named s.toKeys) (ho : Orderly s.toKeys) (call : RotationCall) :
    Named (s.call call).toKeys := by
  have hkeep : ∀ {allowed} {s' : Side}, Evolves allowed s.toKeys s'.toKeys → Named s'.toKeys :=
    fun h => (OwnFrom.of_key_epochs h.key_epochs).named hn
  cases call with
  | beginRotation now priv id => exact beginRotation_named hn now priv id
  | onPrepare prepare id now => exact (onPrepare_ownFrom s prepare id now).named hn
  | onAck ack now => exact hkeep (onAck_evolves s ack now)
  | noteDecryptedNewWrap epoch now => exact hkeep (noteDecryptedNewWrap_evolves s epoch now)
  | markConfirmed now => exact hkeep (markConfirmed_evolves s now)
  | confirmRotation now => exact hkeep (confirmRotation_evolves s now)
  | onConfirm epoch now => exact hkeep (onConfirm_evolves s epoch now)
  | markCommitted now =>
    show Named (markCommitted s now).1.toKeys
    obtain hsame | ⟨r₀, r₁, hcommits, -⟩ := markCommitted_cases s now
    · rw [hsame]
      exact hn
    · exact (OwnFrom.of_key_epochs hcommits.key_epochs).named hn
  | onCommit epoch now =>
    show Named (onCommit s epoch now).1.toKeys
    obtain hsame | ⟨r₀, r₁, hcommits, -⟩ := onCommit_cases s epoch now
    · rw [hsame]
      exact hn
    · exact (OwnFrom.of_key_epochs hcommits.key_epochs).named hn
  | noteAcceptedEvent => exact hkeep (noteAcceptedEvent_evolves s)
  | onDataEventEpoch epoch now =>
    show Named (onDataEventEpoch s epoch now).1.toKeys
    rw [(onDataEventEpoch_rest s epoch now).1]
    exact hn
  | sweep now => exact (sweep_ownFrom s now).named hn
  | sweepCompact now => exact (sweepCompact_ownFrom s now).named hn
  | sweepTimeout now => exact (sweepTimeout_ownFrom s now).named hn
  | sweepRetire epoch now =>
    simp only [Side.call]
    split
    · exact (sweepRetire_ownFrom s _ now).named hn
    · exact hn
  | resolveQuarantine index choice now => exact (resolveQuarantine_ownFrom ho index choice now).named hn
  | store event => exact hn

/-- The calls on the store of one side after pairing, which keeps the own key in the
file of its epoch. -/
def pairedCalls : Machine Side RotationCall where
  init s := s.Fresh ∧ Named s.toKeys
  step := rotationCalls.step

theorem orderly_named_of_reachable {s : Side} (h : pairedCalls.Reachable s) : Orderly s.toKeys ∧ Named s.toKeys := by
  refine h.invariant (P := fun s => Orderly s.toKeys ∧ Named s.toKeys) (fun s hs => ?_)
    (fun s call t hs _ hst => ?_)
  · have hs : s.Fresh ∧ Named s.toKeys := hs
    exact ⟨hs.1.orderly, hs.2⟩
  · obtain rfl := Option.some.inj hst
    exact ⟨hs.1.call call, hs.2.call hs.1 call⟩

/-! ## What the override promises -/

/-- The prepare of a quarantined entry was adopted and the entry is gone. -/
structure Adopted (s s' : Side) (index epoch : Nat) (prepare : Prepare) : Prop where
  peer_key : Stored s'.toKeys epoch prepare
  own_key : s'.ownRow epoch = none
  candidate : ∀ r, s.candidate epoch = some r → s'.rotation epoch .rotating = some { r with phase := .discarded }
  /-- The rows that are left are rows of before, without the entry. -/
  gone : s'.rotation_quarantine.Sublist (s.rotation_quarantine.eraseIdx index)

/-- No key of a rotation in a phase that counts as in use is deleted. -/
def KeysKept (inUse : Phase → Prop) (s s' : Side) : Prop :=
  ∀ e role r, s.rotation e role = some r → inUse r.phase →
    s'.key_epochs.find e = s.key_epochs.find e ∧ s'.privateKey e = s.privateKey e

/-- What `resolve_quarantine` with the choice "theirs" promises for an entry: the ack of
its prepare, or the error of a prepare past its deadline. -/
def Resolves (inUse : Phase → Prop) (s : Side) (index epoch : Nat) (prepare : Prepare) (id : EventId) (now : Nat) :
    Prop :=
  ((resolveQuarantine s index .theirs now).2 = .ok (some ⟨epoch, id⟩) ∧
    Adopted s (resolveQuarantine s index .theirs now).1 index epoch prepare) ∨
  ((resolveQuarantine s index .theirs now).2 = .error (.raised (.rotation .prepare_expired)) ∧
    prepare.deadline < now ∧ KeysKept inUse s (resolveQuarantine s index .theirs now).1 ∧
    (resolveQuarantine s index .theirs now).1.rotation_quarantine = s.rotation_quarantine)

/-- The prior key of the prepare is still held.  Either the peer key of the epoch is the
key of the prepare already, or nothing but the candidate of the epoch is in its way: no
key and no rotation beyond the prior key, and no event sealed under the candidate.  A
prepare in time is for the epoch of its entry, and a late one does not meet a candidate
that is in use. -/
def Resolvable (inUse : Phase → Prop) (s : Side) (epoch : Nat) (prepare : Prepare) (now : Nat) : Prop :=
  ∃ p, s.priorEpoch prepare = some p ∧
    (p + 1 = epoch ∧ Stored s.toKeys epoch prepare ∨
      Unobstructed s.toKeys epoch p ∧ ((s.candidate epoch).isSome = true → s.referenced epoch = false) ∧
        (now ≤ prepare.deadline → p + 1 = epoch) ∧
        (prepare.deadline < now → ∀ r, s.candidate epoch = some r → ¬ inUse r.phase))

section

variable {inUse : Phase → Prop} {s s₁ : Side} {index epoch : Nat} {prepare : Prepare} {id : EventId} {now at' : Nat}

theorem deleteQuarantined_filter {rows : List QuarantineRow} {entry : QuarantineRow} {keep : QuarantineRow → Bool}
    (hentry : rows[index]? = some entry) (hkeep : keep entry = true) :
    deleteQuarantined rows index (rows.filter keep) = (rows.eraseIdx index).filter keep := by
  have hcount : (rows.take index).countP (rows.filter keep).contains = ((rows.take index).filter keep).length := by
    rw [← List.countP_eq_length_filter]
    apply List.countP_congr
    intro row hrow
    simp [List.mem_of_mem_take hrow]
  obtain ⟨hlt, hget⟩ := List.getElem?_eq_some_iff.mp hentry
  have hsplit : rows = rows.take index ++ entry :: rows.drop (index + 1) := by
    rw [← hget, ← List.drop_eq_getElem_cons hlt, List.take_append_drop]
  have hfiltered : rows.filter keep =
      (rows.take index).filter keep ++ entry :: (rows.drop (index + 1)).filter keep := by
    conv_lhs => rw [hsplit, List.filter_append, List.filter_cons_of_pos hkeep]
  unfold deleteQuarantined
  rw [hcount, hfiltered, List.eraseIdx_append_of_length_le le_rfl, Nat.sub_self, List.eraseIdx_zero,
    List.eraseIdx_eq_take_drop_succ, List.filter_append]
  rfl

theorem adopted_of_acknowledged (hquarantine : s₁.rotation_quarantine = s.rotation_quarantine)
    (hentry : s.rotation_quarantine[index]? = some ⟨epoch, .conflicting_prepare prepare id, at'⟩)
    (hcandidate : ∀ r, s.candidate epoch = some r → s₁.rotation epoch .rotating = some { r with phase := .discarded })
    (hok : (onPrepare s₁ prepare id now).2 = .ok ⟨epoch, id⟩) :
    Adopted s { (onPrepare s₁ prepare id now).1 with
      rotation_quarantine := deleteQuarantined s.rotation_quarantine index
        (onPrepare s₁ prepare id now).1.rotation_quarantine } index epoch prepare := by
  obtain ⟨keep, hkeep, hrows⟩ := quarantine_of_onPrepare_ok hok
  obtain ⟨-, raised, herror⟩ | ⟨p, hack, hdone⟩ := onPrepare_cases s₁ prepare id now
  · rw [hok] at herror
    cases herror
  obtain rfl : p + 1 = epoch := by
    rw [hok] at hack
    exact (Ack.mk.inj (Except.ok.inj hack)).1.symm
  have hstored : Stored (onPrepare s₁ prepare id now).1.toKeys (p + 1) prepare := by
    obtain ⟨⟨row, hrow, hkey⟩, hsame⟩ | ⟨-, -, -, hfind⟩ := hdone.peer_key
    · exact ⟨row, by rw [peerRow_congr hsame]; exact hrow, hkey⟩
    · exact ⟨⟨p + 1, prepare.new_agreement_key, .peer⟩, peerRow_eq_some.mpr ⟨by rw [hfind, if_pos rfl], rfl⟩, rfl⟩
  refine ⟨hstored, ?_, fun r hr => ?_, ?_⟩
  · obtain ⟨row, hrow, -⟩ := hstored
    exact ownRow_of_peerRow (by rw [hrow]; rfl)
  · show (onPrepare s₁ prepare id now).1.rotation (p + 1) .rotating = _
    rw [hdone.rotation, if_neg (by simp)]
    exact hcandidate r hr
  · dsimp only
    rw [hrows, hquarantine, deleteQuarantined_filter hentry (hkeep _ _ _ _)]
    exact List.filter_sublist

/-- The promise, read off what `on_prepare` answers after the discard. -/
theorem resolves_iff_of_offerAgain (hquarantine : s₁.rotation_quarantine = s.rotation_quarantine)
    (hentry : s.rotation_quarantine[index]? = some ⟨epoch, .conflicting_prepare prepare id, at'⟩)
    (hprior : s₁.priorEpoch prepare = s.priorEpoch prepare)
    (hcandidate : ∀ r, s.candidate epoch = some r → s₁.rotation epoch .rotating = some { r with phase := .discarded })
    (hresolve : resolveQuarantine s index .theirs now = offerAgain s s₁ index prepare id now) :
    Resolves inUse s index epoch prepare id now ↔
      ∃ p, s.priorEpoch prepare = some p ∧
        (p + 1 = epoch ∧ Stored s₁.toKeys epoch prepare ∨
          Next s₁.toKeys p ∧ (now ≤ prepare.deadline → p + 1 = epoch) ∧
            (prepare.deadline < now → KeysKept inUse s s₁)) := by
  have hok : ∀ {ack}, (onPrepare s₁ prepare id now).2 = .ok ack →
      offerAgain s s₁ index prepare id now = ({ (onPrepare s₁ prepare id now).1 with
        rotation_quarantine := deleteQuarantined s.rotation_quarantine index
          (onPrepare s₁ prepare id now).1.rotation_quarantine }, .ok (some ack)) := by
    intro ack h
    unfold offerAgain
    rw [← Prod.mk.eta (p := onPrepare s₁ prepare id now), h]
  have herror : ∀ {raised}, (onPrepare s₁ prepare id now).2 = .error raised →
      offerAgain s s₁ index prepare id now = ((onPrepare s₁ prepare id now).1, .error (.raised raised)) := by
    intro raised h
    unfold offerAgain
    rw [← Prod.mk.eta (p := onPrepare s₁ prepare id now), h]
  unfold Resolves
  rw [hresolve, ← hprior]
  constructor
  · intro h
    cases hout : (onPrepare s₁ prepare id now).2 with
    | ok ack =>
      rw [hok hout] at h
      obtain ⟨hack, -⟩ | ⟨hraised, -⟩ := h
      · obtain rfl : ack = ⟨epoch, id⟩ := Option.some.inj (Except.ok.inj hack)
        obtain ⟨p, hp, heq, hhow⟩ := onPrepare_ok_iff.mp hout
        obtain rfl : p + 1 = epoch := (Ack.mk.inj heq).1.symm
        refine ⟨p, hp, hhow.imp (fun hstored => ⟨rfl, hstored⟩) (fun hnext => ⟨hnext.1, fun _ => rfl, fun hlate => ?_⟩)⟩
        exact absurd hnext.2 (not_le.mpr hlate)
      · cases hraised
    | error raised =>
      rw [herror hout] at h
      obtain ⟨hack, -⟩ | ⟨hraised, hlate, hkept, -⟩ := h
      · cases hack
      · obtain rfl : raised = .rotation .prepare_expired := ResolveError.raised.inj (Except.error.inj hraised)
        obtain ⟨p, hp, hnext, -⟩ := onPrepare_expired_iff.mp hout
        refine ⟨p, hp, Or.inr ⟨hnext, fun hintime => absurd hintime (not_le.mpr hlate), fun _ => ?_⟩⟩
        dsimp only at hkept
        rw [onPrepare_of_expired hout] at hkept
        exact hkept
  · rintro ⟨p, hp, hhow⟩
    have hadopted : (onPrepare s₁ prepare id now).2 = .ok ⟨epoch, id⟩ →
        (offerAgain s s₁ index prepare id now).2 = .ok (some ⟨epoch, id⟩) ∧
          Adopted s (offerAgain s s₁ index prepare id now).1 index epoch prepare := by
      intro hout
      rw [hok hout]
      exact ⟨rfl, adopted_of_acknowledged hquarantine hentry hcandidate hout⟩
    obtain ⟨rfl, hstored⟩ | ⟨hnext, hepoch, hkept⟩ := hhow
    · exact Or.inl (hadopted (onPrepare_ok_iff.mpr ⟨p, hp, rfl, Or.inl hstored⟩))
    · by_cases hlate : prepare.deadline < now
      · have hout : (onPrepare s₁ prepare id now).2 = .error (.rotation .prepare_expired) :=
          onPrepare_expired_iff.mpr ⟨p, hp, hnext, hlate⟩
        refine Or.inr ?_
        rw [herror hout, onPrepare_of_expired hout]
        exact ⟨rfl, hlate, hkept hlate, hquarantine⟩
      · obtain rfl := hepoch (not_lt.mp hlate)
        exact Or.inl (hadopted (onPrepare_ok_iff.mpr ⟨p, hp, rfl, Or.inr ⟨hnext, not_lt.mp hlate⟩⟩))

theorem keysKept_withdrawn_iff (ho : Orderly s.toKeys) (hn : Named s.toKeys) {r : Rotation}
    (h : s.candidate epoch = some r) : KeysKept inUse s (withdrawn s epoch) ↔ ¬ inUse r.phase := by
  obtain ⟨hr, hl⟩ := candidate_eq_some.mp h
  obtain ⟨row, hrow⟩ := Option.isSome_iff_exists.mp (ho.ownKeys epoch r hr hl).1
  have hremoved := removed_withdrawn s epoch
  constructor
  · intro hkept huse
    have hfind := (hkept epoch .rotating r hr huse).1
    have hgone : (withdrawn s epoch).ownRow epoch = none := by rw [hremoved.ownRow, if_pos rfl]
    unfold Keys.ownRow at hgone hrow
    rw [hfind, hrow] at hgone
    cases hgone
  · intro hnot e role r' hr' huse
    have hne : e ≠ epoch := by
      rintro rfl
      cases role with
      | rotating => exact hnot (Option.some.inj (hr.symm.trans hr') ▸ huse)
      | acking =>
        -- A candidate is ahead of every committed row, and no other rotation is in flight.
        have hdead : r'.live = false := by
          cases hl' : r'.live with
          | false => rfl
          | true => exact absurd (ho.unique e _ r e _ r' hr hr' hl hl').2 (by decide)
        have hcommitted : r'.phase = .committed := by
          by_contra hne
          rw [Rotation.live_iff.mpr ⟨hne, ho.acking e r' hr'⟩] at hdead
          cases hdead
        have hbehind := ho.committed e .acking r' hr' hcommitted
        have habove := (ho.top e .rotating r hr hl).1
        omega
    have hown : (withdrawn s epoch).ownRow e = s.ownRow e := by rw [hremoved.ownRow, if_neg hne]
    constructor
    · rw [hremoved.key_epochs]
      cases hfind : s.key_epochs.find e with
      | none => rfl
      | some row' =>
        have hepoch : row'.epoch = e := Table.key_of_find hfind
        simp [Option.filter, hepoch, hne]
    · unfold Keys.privateKey
      rw [hown]
      cases hrow' : s.ownRow e with
      | none => rfl
      | some row' =>
        obtain ⟨e', key, ref⟩ := row'
        obtain rfl : ref = .file e := hn e _ hrow'
        dsimp only
        rw [hremoved.key_files e (fun row'' hrow'' => ?_)]
        rw [hn epoch row'' hrow'']
        simpa using hne.symm

/-- The choice "theirs" keeps its promise exactly when the prepare is resolvable. -/
theorem resolves_iff (ho : Orderly s.toKeys) (hn : Named s.toKeys)
    (hentry : s.rotation_quarantine[index]? = some ⟨epoch, .conflicting_prepare prepare id, at'⟩) :
    Resolves inUse s index epoch prepare id now ↔ Resolvable inUse s epoch prepare now := by
  have hresolve : resolveQuarantine s index .theirs now = resolveTheirs s index epoch prepare id now := by
    unfold resolveQuarantine
    rw [if_neg (by omega), Int.toNat_natCast, hentry]
  unfold Resolvable
  cases hcandidate : s.candidate epoch with
  | none =>
    rw [resolveTheirs_of_none hcandidate] at hresolve
    rw [resolves_iff_of_offerAgain rfl hentry rfl (by simp [hcandidate]) hresolve]
    simp only [next_iff_unobstructed hcandidate]
    have hkept : KeysKept inUse s s := fun _ _ _ _ _ => ⟨rfl, rfl⟩
    simp [hkept]
  | some r =>
    obtain ⟨hr, hl⟩ := candidate_eq_some.mp hcandidate
    have hown := (ho.ownKeys epoch r hr hl).1
    have hstored : ¬ Stored s.toKeys epoch prepare := by
      rintro ⟨row, hrow, -⟩
      rw [ownRow_of_peerRow (by rw [hrow]; rfl)] at hown
      cases hown
    rw [resolveTheirs_of_some hcandidate hown] at hresolve
    split_ifs at hresolve with hreferenced
    · unfold Resolves
      rw [hresolve]
      simp [hreferenced, hstored]
    · have hdiscarded : ∀ r', s.candidate epoch = some r' →
          (withdrawn s epoch).rotation epoch .rotating = some { r' with phase := .discarded } :=
        fun r' hr' => candidate_withdrawn hr'
      rw [resolves_iff_of_offerAgain (by rw [(withdrawn_rest s epoch).1]) hentry
        (priorEpoch_withdrawn s epoch prepare) hdiscarded hresolve]
      have hnone : ¬ Stored (withdrawn s epoch).toKeys epoch prepare := by
        rintro ⟨row, hrow, hkey⟩
        rw [(removed_withdrawn s epoch).peerRow] at hrow
        exact hstored ⟨row, hrow, hkey⟩
      simp only [next_withdrawn hcandidate, keysKept_withdrawn_iff ho hn hcandidate]
      simp [hnone, hstored, hreferenced]

end

/-- After any calls on the store of a side, whatever phases count as in use: the choice
"theirs" on an entry resolves its conflict exactly when the prepare is resolvable, and the
choice "mine" takes the entry out and does nothing else. -/
theorem resolve_theirs_iff {s : Side} (h : pairedCalls.Reachable s) {index epoch : Nat} {prepare : Prepare}
    {id : EventId} {at' : Nat}
    (hentry : s.rotation_quarantine[index]? = some ⟨epoch, .conflicting_prepare prepare id, at'⟩)
    (inUse : Phase → Prop) (now : Nat) :
    (Resolves inUse s index epoch prepare id now ∧
      resolveQuarantine s index .mine now =
        ({ s with rotation_quarantine := s.rotation_quarantine.eraseIdx index }, .ok none)) ↔
      Resolvable inUse s epoch prepare now := by
  obtain ⟨ho, hn⟩ := orderly_named_of_reachable h
  have hmine : resolveQuarantine s index .mine now =
      ({ s with rotation_quarantine := s.rotation_quarantine.eraseIdx index }, .ok none) := by
    unfold resolveQuarantine
    rw [if_neg (by omega), Int.toNat_natCast, hentry]
  rw [resolves_iff ho hn hentry]
  exact and_iff_left hmine

theorem freshSide_named (own peer : PrivateKey) : Named (freshSide own peer).toKeys := by
  intro e row h
  obtain ⟨hfind, -⟩ := ownRow_eq_some.mp h
  obtain ⟨hmem, rfl⟩ := Table.find_eq_some.mp hfind
  rw [List.mem_singleton.mp hmem]

/-- A prepare that replaces the peer key of a fresh side. -/
def rivalPrepare (new_key : PrivateKey) : Prepare :=
  ⟨new_key.publicKey, agreementFingerprint (PrivateKey.publicKey ⟨2⟩), 100⟩

/-- A side whose peer prepared two keys for one epoch. -/
def twicePrepared : Side :=
  ((freshSide ⟨1⟩ ⟨2⟩).call (.onPrepare (rivalPrepare ⟨3⟩) 7 0)).call (.onPrepare (rivalPrepare ⟨4⟩) 8 1)

/-- A side that begins a rotation, and whose peer prepares a key for the same epoch. -/
def crossed : Side :=
  ((freshSide ⟨1⟩ ⟨2⟩).call (.beginRotation 0 ⟨3⟩ (some 7))).call (.onPrepare (rivalPrepare ⟨4⟩) 8 1)

/-- The candidate of the epoch is gone, and the prepare of the peer is adopted. -/
theorem resolve_theirs_crossed :
    Resolves (fun phase => phase = .acknowledged ∨ phase = .confirmed) crossed 0 2 (rivalPrepare ⟨4⟩) 8 2 := by
  have hreach : pairedCalls.Reachable crossed :=
    .next (.next (.start ⟨freshSide_fresh ⟨1⟩ ⟨2⟩, freshSide_named ⟨1⟩ ⟨2⟩⟩) trivial rfl) trivial rfl
  have hentry : crossed.rotation_quarantine[0]? = some ⟨2, .conflicting_prepare (rivalPrepare ⟨4⟩) 8, 1⟩ := by
    decide +kernel
  refine ((resolve_theirs_iff hreach hentry _ 2).mpr ⟨1, by decide +kernel, Or.inr ?_⟩).1
  refine ⟨⟨by decide +kernel, by decide +kernel, fun e role r hr hl => ?_⟩, fun _ => by decide +kernel,
    fun _ => rfl, fun hlate => absurd hlate (by decide +kernel)⟩
  have hall : ∀ r ∈ crossed.key_rotations.rows, r.live = true → (r.epoch, r.role) = (2, Role.rotating) := by
    decide +kernel
  obtain ⟨hmem, rfl, rfl⟩ := rotation_eq_some.mp hr
  exact hall r hmem hl

/-- The second key is refused against the first, which no choice discards: the prepare is
quarantined once more. -/
theorem resolve_theirs_twice_prepared :
    pairedCalls.Reachable twicePrepared ∧
    twicePrepared.rotation_quarantine[0]? = some ⟨2, .conflicting_prepare (rivalPrepare ⟨4⟩) 8, 1⟩ ∧
    (resolveQuarantine twicePrepared 0 .theirs 2).2 = .error (.raised (.rotation .conflicting_prepare)) ∧
    (resolveQuarantine twicePrepared 0 .theirs 2).1.rotation_quarantine =
      twicePrepared.rotation_quarantine ++ [⟨2, .conflicting_prepare (rivalPrepare ⟨4⟩) 8, 2⟩] ∧
    ∀ inUse, ¬ Resolves inUse twicePrepared 0 2 (rivalPrepare ⟨4⟩) 8 2 := by
  have hraised : (resolveQuarantine twicePrepared 0 .theirs 2).2 =
      .error (.raised (.rotation .conflicting_prepare)) := by decide +kernel
  refine ⟨?_, by decide +kernel, hraised, by decide +kernel, fun inUse h => ?_⟩
  · exact .next (.next (.start ⟨freshSide_fresh ⟨1⟩ ⟨2⟩, freshSide_named ⟨1⟩ ⟨2⟩⟩) trivial rfl) trivial rfl
  · obtain ⟨hok, -⟩ | ⟨hexpired, -⟩ := h
    · cases hraised.symm.trans hok
    · cases hraised.symm.trans hexpired

end MuseAgentSocial.Crypto
