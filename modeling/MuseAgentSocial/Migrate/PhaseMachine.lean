import Mathlib.Logic.Relation
import MuseAgentSocial.Migrate.Drain

/-!
# The phase machine

The phase, the flag of the v0.1 sends and the flag of the legacy reads are separate settings,
written one after the other, so a step that stops in between leaves them apart.

* `Move` are the moves of the phase, each with the step that makes it.
* `Lawful` is what a step should do to the three settings.
* `stage` sets the phase before the flag of the sends, and `rollback` sets the flag before it
  looks for the key.  `phasesSafe` is the condition that no step stops there, and that no
  rollback finds the legacy reads open, which it does not close.
* `phases_lawful`: the steps of a run are lawful exactly when they meet this condition.
-/

namespace MuseAgentSocial.Migrate

open Durable Durable.Program

/-- The moves of the phase. -/
inductive Move : Action → Phase → Phase → Prop where
  | freeze {call n} : Move (.stage call n) .idle .freezing
  | restage {call n} : Move (.stage call n) .rolled_back .freezing
  | staged {call n} : Move (.stage call n) .freezing .staged
  | verified {call n} : Move (.verify call n) .staged .verified
  | committed {call n} : Move (.cutover call n) .verified .committed
  | complete {call n} : Move (.observe call n) .committed .complete
  | rolled_back {wired n p} (hp : p = .freezing ∨ p = .staged ∨ p = .verified) : Move (.rollback wired n) p .rolled_back

/-- The phases in which the legacy reads are honoured. -/
def Phase.Reads (p : Phase) : Prop := p = .staged ∨ p = .verified ∨ p = .committed

/-- The steps that open the legacy reads. -/
def Action.Opens : Action → Prop
  | .verify _ _ | .cutover _ _ | .observe _ _ => True
  | _ => False

/-- What the step `a` from `s` should leave. -/
structure Lawful (s : State) (a : Action) (t : State) : Prop where
  moves : Relation.ReflTransGen (Move a) s.phase t.phase
  sends : t.v01_sends_allowed = true ↔ t.phase = .idle ∨ t.phase = .rolled_back
  committed : s.phase = .committed ∨ s.phase = .complete →
    (t.phase = .committed ∨ t.phase = .complete) ∧ t.v01_sends_allowed = false
  reads : ∀ now, drainOpen t now = true →
    t.phase.Reads ∧ (t.phase = .committed → ∃ drain_until, t.drain_until = some drain_until ∧ now < drain_until)
  opens : s.legacy_read_open = false → t.legacy_read_open = true → a.Opens
  raised : ∀ wired n, a = .rollback wired n → (rollback wired).result n s ≠ .returned () →
    t.phase = s.phase ∧ t.v01_sends_allowed = s.v01_sends_allowed ∧ t.legacy_read_open = s.legacy_read_open

/-- The invariant. -/
structure Ordered (s : State) : Prop where
  identity : ∀ key, s.my_identity_id = some key → s.identity_key = some key
  sends : s.v01_sends_allowed = true ↔ s.phase = .idle ∨ s.phase = .rolled_back
  reads : s.legacy_read_open = true → s.phase.Reads
  drain : s.phase = .committed → ∃ drain_until, s.drain_until = some drain_until
  deadline : s.drain_until ≠ some 0

theorem Ordered.initial : Ordered {} where
  identity := fun key h => absurd h (by simp)
  sends := ⟨fun _ => Or.inl rfl, fun _ => rfl⟩
  reads := fun h => absurd h (by simp)
  drain := fun h => absurd h (by simp)
  deadline := by simp

/-- After the commit there is no way back. -/
theorem Move.committed_final {a : Action} {p q : Phase} (h : Relation.ReflTransGen (Move a) p q)
    (hp : p = .committed ∨ p = .complete) : q = .committed ∨ q = .complete := by
  induction h with
  | refl => exact hp
  | tail _ hmove ih =>
    cases hmove with
    | complete => exact Or.inr rfl
    | freeze | restage | staged | verified | committed => simp at ih
    | rolled_back hp => obtain rfl | rfl | rfl := hp <;> simp at ih

theorem Ordered.lawful {s t : State} {a : Action} (ht : Ordered t)
    (hmoves : Relation.ReflTransGen (Move a) s.phase t.phase)
    (hopens : s.legacy_read_open = false → t.legacy_read_open = true → a.Opens)
    (hraised : ∀ wired n, a = .rollback wired n → (rollback wired).result n s ≠ .returned () →
      t.phase = s.phase ∧ t.v01_sends_allowed = s.v01_sends_allowed ∧ t.legacy_read_open = s.legacy_read_open) :
    Lawful s a t where
  moves := hmoves
  sends := ht.sends
  committed := by
    intro hs
    have hphase := Move.committed_final hmoves hs
    refine ⟨hphase, ?_⟩
    rw [← Bool.not_eq_true, ht.sends]
    obtain hphase | hphase := hphase <;> simp [hphase]
  reads := by
    intro now hopen
    simp only [drainOpen, Bool.and_eq_true] at hopen
    refine ⟨ht.reads hopen.1, fun hphase => ?_⟩
    obtain ⟨drain_until, hdrain⟩ := ht.drain hphase
    exact ⟨drain_until, hdrain, by simpa [hdrain] using hopen.2⟩
  opens := hopens
  raised := hraised

theorem Lawful.reads_open {s t : State} {a : Action} (h : Lawful s a t) (hdeadline : t.drain_until ≠ some 0)
    (hopen : t.legacy_read_open = true) : t.phase.Reads := by
  refine (h.reads 0 ?_).1
  unfold drainOpen
  cases hdrain : t.drain_until with
  | none => simp [hopen]
  | some drain_until =>
    have hpos : drain_until ≠ 0 := by
      rintro rfl
      exact hdeadline hdrain
    simp [hopen, Nat.pos_of_ne_zero hpos]

/-! ## Cuts -/

/-- The first `k` effects are made. -/
def Made : Budget → Nat → Prop
  | none, _ => True
  | some m, k => k ≤ m

instance (n : Budget) (k : Nat) : Decidable (Made n k) := by
  cases n <;> unfold Made <;> infer_instance

/-- The effects of `stage` before it sets the phase. -/
def StageCall.opening (s : State) : Nat := if s.identity_key.isNone then 2 else 1

/-- The legacy key can be loaded. -/
def State.KeyLoads (s : State) : Prop :=
  ∃ key legacy_key, s.identity_key = some key ∧ vaultLoad s.vault (some key) = .ok legacy_key

instance (s : State) : Decidable s.KeyLoads :=
  match hkey : s.identity_key with
  | none => isFalse (fun ⟨_, _, h, _⟩ => absurd (hkey.symm.trans h) (by simp))
  | some key =>
    match hload : vaultLoad s.vault (some key) with
    | .ok legacy_key => isTrue ⟨key, legacy_key, hkey, hload⟩
    | .error _ => isFalse (fun ⟨_, _, h, h'⟩ => by
        obtain rfl := Option.some.inj (hkey.symm.trans h)
        exact absurd (hload.symm.trans h') (by simp))

/-- Every step of a run is cut where it leaves the settings together, and a rollback finds the
legacy key and no legacy reads. -/
def phasesSafe (ctx : Context) (s : State) : Action → Prop
  | .stage call n =>
    s.phase = .idle ∨ s.phase = .rolled_back → ctx.state_dir_is_legacy = false → ctx.legacy_state_dir_exists = true →
      Made n (StageCall.opening s + 1) → Made n (StageCall.opening s + 3 + call.set_v01_sends.toNat)
  | .rollback wired n =>
    s.phase = .freezing ∨ s.phase = .staged ∨ s.phase = .verified → Made n (wired.toNat + 1) →
      Made n (wired.toNat + 2) ∧ s.KeyLoads ∧ s.legacy_read_open = false
  | _ => True

instance (ctx : Context) (s : State) (a : Action) : Decidable (phasesSafe ctx s a) := by
  cases a <;> unfold phasesSafe <;> infer_instance

/-! ## Stage -/

section stage

variable {ctx : Context} {call : StageCall} {s : State} {n : Budget}

/-- The state with the identity of `stage`. -/
def StageCall.identified (call : StageCall) (s : State) : State :=
  { s with
    identity_key := some (s.identity_key.getD call.fresh)
    my_identity_id := some (s.identity_key.getD call.fresh) }

/-- The state after step 1 of `stage`. -/
def StageCall.frozen (call : StageCall) (s : State) : State :=
  { s with
    phase := .freezing
    freeze := some call.drained
    sender := if call.set_v01_sends then false else s.sender
    v01_sends_allowed := false }

/-- The settings of a state where step 1 of `stage` is cut, with the phase `p`. -/
structure Opened (s : State) (p : Phase) (t : State) : Prop where
  phase : t.phase = p
  sends : t.v01_sends_allowed = s.v01_sends_allowed
  reads : t.legacy_read_open = s.legacy_read_open
  drain : t.drain_until = s.drain_until

/-- The effects of `stage` up to the identity. -/
theorem identify_state (hs : Ordered s) (rest : Step Unit) :
    let p : Step Unit := Program.bind (migrationIdentityPriv (some call.fresh)) (fun key =>
      Program.bind assertIdentityMatches (fun _ =>
        Program.bind (.write (fun s => { s with my_identity_id := some key })) (fun _ => rest)))
    (Made n (StageCall.opening s) →
      p.state n s = rest.state (n.map (· - StageCall.opening s)) (call.identified s)) ∧
    (¬ Made n (StageCall.opening s) → Opened s s.phase (p.state n s)) := by
  cases hkey : s.identity_key with
  | none =>
    -- Without a key no identity is recorded.
    have hnone : s.my_identity_id = none := by
      cases hrecorded : s.my_identity_id with
      | none => rfl
      | some key => exact absurd ((hs.identity key hrecorded).symm.trans hkey) (by simp)
    have hopening : StageCall.opening s = 2 := by simp [StageCall.opening, hkey]
    rw [hopening]
    obtain _ | _ | _ | m := n
    case none | some.succ.succ =>
      refine ⟨fun _ => ?_, fun h => absurd (by simp [Made]) h⟩
      simp [migrationIdentityPriv, assertIdentityMatches, Program.bind, Program.read, Program.write, Program.state,
        StageCall.identified, hkey, hnone]
    all_goals
      refine ⟨fun h => absurd h (by simp [Made]), fun _ => ⟨?_, ?_, ?_, ?_⟩⟩ <;>
        simp [migrationIdentityPriv, assertIdentityMatches, Program.bind, Program.read, Program.write, Program.state,
          hkey, hnone]
  | some key =>
    have hrun : ∀ m, assertIdentityMatches m s = (.returned (), m, s) := fun m =>
      assertIdentityMatches_returned.mpr ⟨hs.identity, rfl, rfl⟩
    have hopening : StageCall.opening s = 1 := by simp [StageCall.opening, hkey]
    rw [hopening]
    obtain _ | _ | m := n
    case none | some.succ =>
      refine ⟨fun _ => ?_, fun h => absurd (by simp [Made]) h⟩
      simp [migrationIdentityPriv, Program.bind, Program.read, Program.write, Program.state, StageCall.identified, hkey,
        hrun]
    case some.zero =>
      refine ⟨fun h => absurd h (by simp [Made]), fun _ => ⟨?_, ?_, ?_, ?_⟩⟩ <;>
        simp [migrationIdentityPriv, Program.bind, Program.read, Program.write, Program.state, hkey, hrun]

theorem freeze_state (hlegacy : ctx.state_dir_is_legacy = false) (hexists : ctx.legacy_state_dir_exists = true)
    (rest : Step Unit) :
    let p : Step Unit := Program.bind (freeze ctx call) (fun _ => rest)
    (Made n (3 + call.set_v01_sends.toNat) →
      p.state n s = rest.state (n.map (· - (3 + call.set_v01_sends.toNat))) (call.frozen s)) ∧
    (¬ Made n (3 + call.set_v01_sends.toNat) →
      Opened s (if Made n 1 then .freezing else s.phase) (p.state n s)) := by
  cases hwired : call.set_v01_sends with
  | false =>
    -- The budget lasts, or it is spent at one of the writes.
    obtain _ | _ | _ | _ | m := n
    case none | some.succ.succ.succ =>
      refine ⟨fun _ => ?_, fun h => absurd (by simp [Made]) h⟩
      simp [freeze, setV01Sends, notifySender, Program.bind, Program.write, Program.state, StageCall.frozen, hlegacy,
        hexists, hwired]
    all_goals
      refine ⟨fun h => absurd h (by simp [Made]), fun _ => ⟨?_, ?_, ?_, ?_⟩⟩ <;>
        simp [freeze, setV01Sends, notifySender, Program.bind, Program.write, Program.state, Made, hlegacy, hexists, hwired]
  | true =>
    obtain _ | _ | _ | _ | _ | m := n
    case none | some.succ.succ.succ.succ =>
      refine ⟨fun _ => ?_, fun h => absurd (by simp [Made]) h⟩
      simp [freeze, setV01Sends, notifySender, Program.bind, Program.write, Program.state, StageCall.frozen, hlegacy,
        hexists, hwired]
    all_goals
      refine ⟨fun h => absurd h (by simp [Made]), fun _ => ⟨?_, ?_, ?_, ?_⟩⟩ <;>
        simp [freeze, setV01Sends, notifySender, Program.bind, Program.write, Program.state, Made, hlegacy, hexists, hwired]

theorem made_after {j k : Nat} (h : Made n j) : Made (n.map (· - j)) k ↔ Made n (j + k) := by
  cases n with
  | none => exact Iff.rfl
  | some m =>
    have hle : j ≤ m := h
    show k ≤ m - j ↔ j + k ≤ m
    omega

theorem Made.mono {j k : Nat} (h : Made n k) (hle : j ≤ k) : Made n j := by
  cases n with
  | none => trivial
  | some m => exact Nat.le_trans hle h

theorem stage_eq (hphase : s.phase = .idle ∨ s.phase = .rolled_back ∨ s.phase = .freezing) :
    (stage ctx call).state n s = (Program.bind (migrationIdentityPriv (some call.fresh)) (fun key =>
      Program.bind assertIdentityMatches (fun _ =>
        Program.bind (.write (fun s => { s with my_identity_id := some key })) (fun _ =>
          Program.bind (freeze ctx call) (fun _ =>
            Program.bind (backup call) (fun _ => coordinate ctx call)))))).state n s := by
  have hguard : ¬ (s.phase ≠ .idle ∧ s.phase ≠ .rolled_back ∧ s.phase ≠ .freezing) := by
    obtain h | h | h := hphase <;> simp [h]
  unfold stage Program.state
  rw [bind_eq, bind_returned (read_run _ _ _), if_neg hguard]
  rfl

theorem stage_without_dirs (hs : Ordered s) (hphase : s.phase = .idle ∨ s.phase = .rolled_back ∨ s.phase = .freezing)
    (hdirs : ¬ (ctx.state_dir_is_legacy = false ∧ ctx.legacy_state_dir_exists = true)) :
    Opened s s.phase ((stage ctx call).state n s) := by
  obtain ⟨e, hfreeze⟩ : ∃ e, freeze ctx call = .raise e := by
    unfold freeze
    cases hlegacy : ctx.state_dir_is_legacy with
    | true => exact ⟨_, rfl⟩
    | false =>
      cases hexists : ctx.legacy_state_dir_exists with
      | true => exact absurd ⟨hlegacy, hexists⟩ hdirs
      | false => exact ⟨_, rfl⟩
  rw [stage_eq hphase, hfreeze]
  have hrun := @identify_state call s n hs
    (Program.bind (.raise e) (fun _ : Unit => Program.bind (backup call) (fun _ => coordinate ctx call)))
  by_cases hopening : Made n (StageCall.opening s)
  · rw [hrun.1 hopening]
    exact ⟨rfl, rfl, rfl, rfl⟩
  · exact hrun.2 hopening

/-- A stage goes on from the state after its first step, or it is cut in it. -/
theorem stage_state (hs : Ordered s) (hphase : s.phase = .idle ∨ s.phase = .rolled_back ∨ s.phase = .freezing)
    (hlegacy : ctx.state_dir_is_legacy = false) (hexists : ctx.legacy_state_dir_exists = true) :
    (Made n (StageCall.opening s + 3 + call.set_v01_sends.toNat) → ∃ n', (stage ctx call).state n s =
      (Program.bind (backup call) (fun _ => coordinate ctx call)).state n' (call.frozen (call.identified s))) ∧
    (¬ Made n (StageCall.opening s + 3 + call.set_v01_sends.toNat) →
      Opened s (if Made n (StageCall.opening s + 1) then .freezing else s.phase) ((stage ctx call).state n s)) := by
  have hrun := @identify_state call s n hs
    (Program.bind (freeze ctx call) (fun _ => Program.bind (backup call) (fun _ => coordinate ctx call)))
  rw [stage_eq hphase, Nat.add_assoc]
  by_cases hopening : Made n (StageCall.opening s)
  · rw [hrun.1 hopening]
    simp only [← made_after hopening]
    obtain ⟨hmade, hcut⟩ := @freeze_state ctx call (call.identified s) (n.map (· - StageCall.opening s))
      hlegacy hexists (Program.bind (backup call) (fun _ => coordinate ctx call))
    refine ⟨fun h => ⟨_, hmade h⟩, fun h => ?_⟩
    exact ⟨(hcut h).phase, (hcut h).sends, (hcut h).reads, (hcut h).drain⟩
  · have hnot : ∀ k, ¬ Made n (StageCall.opening s + k) := fun k h => hopening (h.mono (Nat.le_add_right _ k))
    refine ⟨fun h => absurd h (hnot _), fun _ => ?_⟩
    rw [if_neg (hnot 1)]
    exact hrun.2 hopening

/-- The settings after step 1 of `stage`. -/
def Frozen (s t : State) : Prop :=
  t.v01_sends_allowed = false ∧ t.legacy_read_open = s.legacy_read_open ∧ t.drain_until = s.drain_until ∧
    (t.phase = .freezing ∨ t.phase = .staged)

theorem stage_settings (hs : Ordered s) :
    Opened s s.phase ((stage ctx call).state n s) ∨
    (s.phase = .idle ∨ s.phase = .rolled_back ∨ s.phase = .freezing) ∧
      (Frozen s ((stage ctx call).state n s) ∨
        ¬ phasesSafe ctx s (.stage call n) ∨ s.phase = .freezing ∧ Opened s .freezing ((stage ctx call).state n s)) := by
  by_cases hphase : s.phase = .idle ∨ s.phase = .rolled_back ∨ s.phase = .freezing
  swap
  · rw [stage_refused (by simpa only [not_or] using hphase)]
    exact Or.inl ⟨rfl, rfl, rfl, rfl⟩
  by_cases hdirs : ctx.state_dir_is_legacy = false ∧ ctx.legacy_state_dir_exists = true
  swap
  · exact Or.inl (stage_without_dirs hs hphase hdirs)
  obtain ⟨hmade, hcut⟩ := @stage_state ctx call s n hs hphase hdirs.1 hdirs.2
  by_cases hflag : Made n (StageCall.opening s + 3 + call.set_v01_sends.toNat)
  · obtain ⟨n', hrun⟩ := hmade hflag
    refine Or.inr ⟨hphase, Or.inl ?_⟩
    rw [hrun]
    have hbackup : Keeps (Frozen s) (backup call) :=
      backup_writes (fun _ _ h => h) (fun _ _ h => h) (fun _ _ h => h) (fun _ _ h => h) (fun _ _ h => h)
    have hcoordinate : Keeps (Frozen s) (coordinate ctx call) :=
      coordinate_writes (fun _ _ h => h) (fun _ h => ⟨h.1, h.2.1, h.2.2.1, Or.inr rfl⟩)
    exact Keeps.bind hbackup (fun _ => hcoordinate) _ _ ⟨rfl, rfl, rfl, Or.inl rfl⟩
  have hopened := hcut hflag
  by_cases hset : Made n (StageCall.opening s + 1)
  swap
  · rw [if_neg hset] at hopened
    exact Or.inl hopened
  rw [if_pos hset] at hopened
  obtain hstart | hstart : (s.phase = .idle ∨ s.phase = .rolled_back) ∨ s.phase = .freezing := or_assoc.mpr hphase
  · exact Or.inr ⟨hphase, Or.inr (Or.inl (fun hok => hflag (hok hstart hdirs.1 hdirs.2 hset)))⟩
  · exact Or.inr ⟨hphase, Or.inr (Or.inr ⟨hstart, hopened⟩)⟩

/-- A step that leaves the state as it is. -/
theorem Ordered.stays {a : Action} (hs : Ordered s) : Lawful s a s :=
  hs.lawful .refl (fun hclosed hopen => absurd (hclosed.symm.trans hopen) (by simp)) (fun _ _ _ _ => ⟨rfl, rfl, rfl⟩)

theorem Move.of_stage {p q : Phase} (hp : p = .idle ∨ p = .rolled_back ∨ p = .freezing)
    (hq : q = .freezing ∨ q = .staged) : Relation.ReflTransGen (Move (.stage call n)) p q := by
  have hfreezing : Relation.ReflTransGen (Move (.stage call n)) p .freezing := by
    obtain rfl | rfl | rfl := hp
    · exact .single .freeze
    · exact .single .restage
    · exact .refl
  obtain rfl | rfl := hq
  · exact hfreezing
  · exact hfreezing.tail .staged

/-- What keeps the settings keeps the invariant. -/
theorem Opened.ordered {t : State} (hs : Ordered s) (h : Opened s s.phase t)
    (hidentity : ∀ key, t.my_identity_id = some key → t.identity_key = some key) : Ordered t where
  identity := hidentity
  sends := by rw [h.sends, h.phase, hs.sends]
  reads := by
    rw [h.reads, h.phase]
    exact hs.reads
  drain := by
    rw [h.phase, h.drain]
    exact hs.drain
  deadline := h.drain ▸ hs.deadline

theorem Frozen.ordered {t : State} (hs : Ordered s)
    (hphase : s.phase = .idle ∨ s.phase = .rolled_back ∨ s.phase = .freezing) (h : Frozen s t)
    (hidentity : ∀ key, t.my_identity_id = some key → t.identity_key = some key) : Ordered t := by
  obtain ⟨hsends, hreads, hdrain, hstaged⟩ := h
  refine ⟨hidentity, ?_, ?_, ?_, hdrain ▸ hs.deadline⟩
  · rw [hsends]
    obtain h | h := hstaged <;> simp [h]
  · intro hopen
    have := hs.reads (hreads ▸ hopen)
    obtain h | h | h := hphase <;> simp [h, Phase.Reads] at this
  · obtain h | h := hstaged <;> simp [h]

theorem stage_lawful (hs : Ordered s) (hok : phasesSafe ctx s (.stage call n)) :
    Ordered ((stage ctx call).state n s) ∧ Lawful s (.stage call n) ((stage ctx call).state n s) := by
  have hidentity : ∀ key, ((stage ctx call).state n s).my_identity_id = some key →
      ((stage ctx call).state n s).identity_key = some key := by
    by_cases hphase : s.phase = .idle ∨ s.phase = .rolled_back ∨ s.phase = .freezing
    · refine (Open.stage ⟨hs.identity, ?_⟩ n).identity
      obtain h | h | h := hphase <;> simp [h]
    · rw [stage_refused (by simpa only [not_or] using hphase)]
      exact hs.identity
  have hraised : ∀ {t : State}, ∀ wired m, Action.stage call n = .rollback wired m →
      (rollback wired).result m s ≠ .returned () → t.phase = s.phase ∧ t.v01_sends_allowed = s.v01_sends_allowed ∧
        t.legacy_read_open = s.legacy_read_open := fun _ _ h => absurd h (by simp)
  have hclosed : ∀ {t : State}, t.legacy_read_open = s.legacy_read_open →
      s.legacy_read_open = false → t.legacy_read_open = true → (Action.stage call n).Opens := by
    intro t heq hs ht
    exact absurd ((heq.symm.trans ht).symm.trans hs) (by simp)
  obtain h | ⟨hphase, h⟩ := @stage_settings ctx call s n hs
  · have ht := h.ordered hs hidentity
    exact ⟨ht, ht.lawful (h.phase ▸ .refl) (hclosed h.reads) hraised⟩
  have hfrozen : Frozen s ((stage ctx call).state n s) := by
    obtain h | h | ⟨hfreezing, h⟩ := h
    · exact h
    · exact absurd hok h
    · refine ⟨?_, h.reads, h.drain, Or.inl h.phase⟩
      rw [h.sends, ← Bool.not_eq_true, hs.sends, hfreezing]
      simp
  have ht := hfrozen.ordered hs hphase hidentity
  exact ⟨ht, ht.lawful (Move.of_stage hphase hfrozen.2.2.2) (hclosed hfrozen.2.1) hraised⟩

/-- A stage that is cut there leaves the sends allowed in the phase `freezing`. -/
theorem stage_ok_of_lawful (hs : Ordered s)
    (h : Lawful s (.stage call n) ((stage ctx call).state n s)) : phasesSafe ctx s (.stage call n) := by
  intro hphase hlegacy hexists hset
  by_contra hflag
  have hopened := (@stage_state ctx call s n hs (or_assoc.mp (Or.inl hphase)) hlegacy hexists).2 hflag
  rw [if_pos hset] at hopened
  have hsends := h.sends
  rw [hopened.sends, hopened.phase] at hsends
  simp [hs.sends.mpr hphase] at hsends

end stage

/-! ## Verify, cutover and observe -/

section others

variable {ctx : Context} {s : State} {n : Budget}

/-- The invariant, for a step that is no rollback and may open the reads. -/
theorem Ordered.after {t : State} {a : Action} (hopens : a.Opens) (ht : Ordered t)
    (hmoves : Relation.ReflTransGen (Move a) s.phase t.phase) : Ordered t ∧ Lawful s a t := by
  refine ⟨ht, ht.lawful hmoves (fun _ _ => hopens) ?_⟩
  rintro wired n rfl
  exact absurd hopens id

/-- A migration in the phase `p` or `q` with the sends off, whose drain deadline has `D`. -/
structure Between (p q : Phase) (D : Option Nat → Prop) (t : State) : Prop where
  identity : ∀ key, t.my_identity_id = some key → t.identity_key = some key
  sends : t.v01_sends_allowed = false
  drain : D t.drain_until
  phase : t.phase = p ∨ t.phase = q

theorem Ordered.sends_off (hs : Ordered s) (hidle : s.phase ≠ .idle) (hback : s.phase ≠ .rolled_back) :
    s.v01_sends_allowed = false := by
  rw [← Bool.not_eq_true, hs.sends]
  simp [hidle, hback]

theorem verify_lawful (hs : Ordered s) (call : VerifyCall) :
    Ordered ((verify ctx call).state n s) ∧ Lawful s (.verify call n) ((verify ctx call).state n s) := by
  by_cases hphase : s.phase = .staged
  swap
  · rw [verify_refused hphase]
    exact ⟨hs, hs.stays⟩
  have hkeeps : Keeps (Between .staged .verified (· = s.drain_until)) (verify ctx call) :=
    verify_writes (fun _ h => ⟨h.identity, h.sends, h.drain, h.phase⟩)
      (fun _ _ h => ⟨h.identity, h.sends, h.drain, h.phase⟩) (fun _ h => ⟨h.identity, h.sends, h.drain, Or.inr rfl⟩)
  obtain ⟨hidentity, hsends, hdrain, hlater⟩ :=
    hkeeps n s ⟨hs.identity, hs.sends_off (by simp [hphase]) (by simp [hphase]), rfl, Or.inl hphase⟩
  refine Ordered.after trivial ⟨hidentity, ?_, fun _ => ?_, ?_, hdrain ▸ hs.deadline⟩ ?_
  · rw [hsends]
    obtain h | h := hlater <;> simp [h]
  · obtain h | h := hlater
    · exact Or.inl h
    · exact Or.inr (Or.inl h)
  · obtain h | h := hlater <;> simp [h]
  · rw [hphase]
    obtain h | h := hlater
    · rw [h]
    · rw [h]
      exact .single .verified

theorem cutover_settings (hs : Ordered s) (hphase : s.phase = .verified) (call : CutoverCall) :
    Between .verified .committed (fun d => d ≠ some 0) ((cutover ctx call).state n s) ∧
      (((cutover ctx call).state n s).phase = .committed →
        ∃ drain_until, ((cutover ctx call).state n s).drain_until = some drain_until) := by
  have hsends : s.v01_sends_allowed = false := hs.sends_off (by simp [hphase]) (by simp [hphase])
  obtain ⟨-, n', -, hrun⟩ | ⟨-, hrun⟩ := cutover_state ctx call n hphase
  · have hkeeps : Keeps (Between .verified .committed (· = some (call.now + DRAIN_WINDOW)))
        (Program.bind destroyLegacy (fun _ => .write (fun s => { s with phase := .committed }))) := by
      refine Keeps.bind (destroyLegacy_keeps ?_ ?_ ?_) (fun _ => Keeps.write ?_)
      · exact fun _ _ h => ⟨h.identity, h.sends, h.drain, h.phase⟩
      · exact fun _ _ h => ⟨h.identity, h.sends, h.drain, h.phase⟩
      · exact fun _ _ h => ⟨h.identity, h.sends, h.drain, h.phase⟩
      · exact fun _ h => ⟨h.identity, h.sends, h.drain, Or.inr rfl⟩
    rw [hrun]
    have h := hkeeps n' (call.prepare s) ⟨hs.identity, rfl, rfl, Or.inl hphase⟩
    refine ⟨⟨h.identity, h.sends, ?_, h.phase⟩, fun _ => ⟨_, h.drain⟩⟩
    rw [h.drain]
    simp [DRAIN_WINDOW]
  · have hkeeps : Keeps (Between .verified .verified (fun d => d ≠ some 0)) (prepareCutover ctx call) := by
      refine prepareCutover_keeps ?_ ?_ ?_ ?_
      · exact fun _ h => ⟨h.identity, h.sends, h.drain, h.phase⟩
      · exact fun _ h => ⟨h.identity, rfl, h.drain, h.phase⟩
      · exact fun _ h => ⟨h.identity, h.sends, by simp [DRAIN_WINDOW], h.phase⟩
      · exact fun _ h => ⟨h.identity, h.sends, h.drain, h.phase⟩
    rw [hrun]
    have h := hkeeps n s ⟨hs.identity, hsends, hs.deadline, Or.inl hphase⟩
    have hverified := h.phase.elim id id
    exact ⟨⟨h.identity, h.sends, h.drain, Or.inl hverified⟩, fun hc => absurd (hverified.symm.trans hc) (by simp)⟩

theorem cutover_lawful (hs : Ordered s) (call : CutoverCall) :
    Ordered ((cutover ctx call).state n s) ∧ Lawful s (.cutover call n) ((cutover ctx call).state n s) := by
  by_cases hphase : s.phase = .verified
  swap
  · rw [cutover_refused hphase]
    exact ⟨hs, hs.stays⟩
  obtain ⟨⟨hidentity, hsends, hdeadline, hlater⟩, hdrain⟩ := @cutover_settings ctx s n hs hphase call
  refine Ordered.after trivial ⟨hidentity, ?_, fun _ => Or.inr hlater, hdrain, hdeadline⟩ ?_
  · rw [hsends]
    obtain h | h := hlater <;> simp [h]
  · rw [hphase]
    obtain h | h := hlater
    · rw [h]
    · rw [h]
      exact .single .committed

theorem observe_lawful (hs : Ordered s) (call : ObserveCall) :
    Ordered ((observe call).state n s) ∧ Lawful s (.observe call n) ((observe call).state n s) := by
  by_cases hphase : s.phase = .committed
  swap
  · rw [observe_refused hphase]
    exact ⟨hs, hs.stays⟩
  obtain ⟨drain_until, hdrain⟩ := hs.drain hphase
  have hends : Ends (Between .committed .committed (· = some drain_until)) (observe call) _ _ :=
    observe_writes (Q := fun t => Between .complete .complete (· = some drain_until) t ∧ t.legacy_read_open = false)
      (fun _ h => ⟨h.identity, h.sends, h.drain, h.phase⟩) (fun _ h => ⟨h.identity, h.sends, h.drain, h.phase⟩)
      (fun _ h hclosed => ⟨⟨h.identity, h.sends, h.drain, Or.inl rfl⟩, hclosed⟩)
  have hstart : Between .committed .committed (· = some drain_until) s :=
    ⟨hs.identity, hs.sends_off (by simp [hphase]) (by simp [hphase]), hdrain, Or.inl hphase⟩
  obtain h | ⟨h, hclosed⟩ := hends.state (fun _ _ h => h) (n := n) hstart
  · have hcommitted := h.phase.elim id id
    refine Ordered.after trivial ⟨h.identity, ?_, fun _ => Or.inr (Or.inr hcommitted), fun _ => ⟨_, h.drain⟩, ?_⟩ ?_
    · simp [h.sends, hcommitted]
    · rw [h.drain, ← hdrain]
      exact hs.deadline
    · rw [hphase, hcommitted]
  · have hcomplete := h.phase.elim id id
    refine Ordered.after trivial ⟨h.identity, ?_, fun hopen => ?_, ?_, ?_⟩ ?_
    · simp [h.sends, hcomplete]
    · exact absurd (hclosed.symm.trans hopen) (by simp)
    · simp [hcomplete]
    · rw [h.drain, ← hdrain]
      exact hs.deadline
    · rw [hphase, hcomplete]
      exact .single .complete

end others

/-! ## Rollback -/

section rollback

variable {ctx : Context} {s : State} {n : Budget} {wired : Bool}

/-- What `rollback` does once it allows the sends. -/
def restore : Step Unit := do
  let key ← migrationIdentityPriv none
  match vaultLoad (← .read State.vault) (some key) with
  | .error .key_error => .raise (.migration "rollback-key-missing")
  | .error e => .raise e
  | .ok _ => .write (fun s => { s with phase := .rolled_back })

theorem rollback_eq (hphase : s.phase = .freezing ∨ s.phase = .staged ∨ s.phase = .verified ∨ s.phase = .rolled_back) :
    rollback wired n s = Program.bind (setV01Sends wired true) (fun _ => restore) n s := by
  unfold rollback restore
  rw [bind_eq, bind_returned (read_run _ _ _)]
  obtain h | h | h | h := hphase <;> rw [h, if_neg (by simp), if_neg (by simp)] <;> rfl

theorem rollback_refused (hphase : s.phase = .idle ∨ s.phase = .committed ∨ s.phase = .complete) :
    (rollback wired).state n s = s := by
  unfold rollback Program.state
  rw [bind_eq, bind_returned (read_run _ _ _)]
  obtain h | h | h := hphase <;> simp [h]

/-- Without the legacy key the phase stays. -/
theorem restore_without_key (h : ¬ s.KeyLoads) : ∃ e, restore n s = (.raised e, n, s) := by
  unfold restore
  cases hkey : s.identity_key with
  | none => exact ⟨_, by simp [migrationIdentityPriv, Program.bind, Program.read, hkey]; rfl⟩
  | some key =>
    cases hload : vaultLoad s.vault (some key) with
    | ok legacy_key => exact absurd ⟨key, legacy_key, hkey, hload⟩ h
    | error e =>
      cases e <;> exact ⟨_, by simp [migrationIdentityPriv, Program.bind, Program.read, hkey, hload]; rfl⟩

theorem restore_with_key (h : s.KeyLoads) :
    restore n s = Program.write (fun s => { s with phase := .rolled_back }) n s := by
  obtain ⟨key, legacy_key, hkey, hload⟩ := h
  simp [restore, migrationIdentityPriv, Program.bind, Program.read, hkey, hload]

theorem allow_run (rest : Step Unit) :
    (Made n (wired.toNat + 1) → Program.bind (setV01Sends wired true) (fun _ => rest) n s =
      rest (n.map (· - (wired.toNat + 1)))
        { s with sender := if wired then true else s.sender, v01_sends_allowed := true }) ∧
    (¬ Made n (wired.toNat + 1) →
      ∃ sender, Program.bind (setV01Sends wired true) (fun _ => rest) n s = (.interrupted, some 0, { s with sender })) := by
  unfold setV01Sends notifySender
  cases wired with
  | false =>
    obtain _ | _ | m := n
    case none | some.succ =>
      refine ⟨fun _ => ?_, fun h => absurd (by simp [Made]) h⟩
      simp [Program.bind, Program.write]
    case some.zero =>
      refine ⟨fun h => absurd h (by simp [Made]), fun _ => ⟨s.sender, ?_⟩⟩
      simp [Program.bind, Program.write]
  | true =>
    obtain _ | _ | _ | m := n
    case none | some.succ.succ =>
      refine ⟨fun _ => ?_, fun h => absurd (by simp [Made]) h⟩
      simp [Program.bind, Program.write]
    case some.zero =>
      refine ⟨fun h => absurd h (by simp [Made]), fun _ => ⟨s.sender, ?_⟩⟩
      simp [Program.bind, Program.write]
    case some.succ.zero =>
      refine ⟨fun h => absurd h (by simp [Made]), fun _ => ⟨true, ?_⟩⟩
      simp [Program.bind, Program.write]

/-- How a rollback ends. -/
theorem rollback_cases (hphase : s.phase = .freezing ∨ s.phase = .staged ∨ s.phase = .verified ∨ s.phase = .rolled_back) :
    (¬ Made n (wired.toNat + 1) ∧ ∃ sender, rollback wired n s = (.interrupted, some 0, { s with sender })) ∨
    (Made n (wired.toNat + 1) ∧ Made n (wired.toNat + 2) ∧ s.KeyLoads ∧ ∃ sender n', rollback wired n s =
      (.returned (), n', { s with sender, v01_sends_allowed := true, phase := .rolled_back })) ∨
    (Made n (wired.toNat + 1) ∧ ¬ (Made n (wired.toNat + 2) ∧ s.KeyLoads) ∧ ∃ sender r n', r ≠ .returned () ∧
      rollback wired n s = (r, n', { s with sender, v01_sends_allowed := true })) := by
  rw [rollback_eq hphase]
  by_cases hallow : Made n (wired.toNat + 1)
  swap
  · exact Or.inl ⟨hallow, (allow_run restore).2 hallow⟩
  refine Or.inr ?_
  rw [(allow_run restore).1 hallow]
  set s' : State := { s with sender := if wired then true else s.sender, v01_sends_allowed := true } with hs'
  by_cases hload : s.KeyLoads
  swap
  · obtain ⟨e, hrun⟩ := restore_without_key (n := n.map (· - (wired.toNat + 1))) (s := s') hload
    exact Or.inr ⟨hallow, fun h => hload h.2, _, .raised e, _, by simp, hrun⟩
  rw [restore_with_key (s := s') hload]
  by_cases hset : Made n (wired.toNat + 2)
  · refine Or.inl ⟨hallow, hset, hload, if wired then true else s.sender, ?_⟩
    match n with
    | none => exact ⟨none, rfl⟩
    | some m =>
      obtain ⟨k, rfl⟩ := Nat.exists_eq_add_of_le' (show wired.toNat + 2 ≤ m from hset)
      refine ⟨some k, ?_⟩
      rw [show Option.map (· - (wired.toNat + 1)) (some (k + (wired.toNat + 2))) = some (k + 1) by simp; omega]
      rfl
  · refine Or.inr ⟨hallow, fun h => hset h.1, if wired then true else s.sender, .interrupted, some 0, by simp, ?_⟩
    match n with
    | none => exact absurd trivial hset
    | some m =>
      have hle : wired.toNat + 1 ≤ m := hallow
      have hlt : ¬ wired.toNat + 2 ≤ m := hset
      rw [show Option.map (· - (wired.toNat + 1)) (some m) = some 0 by simp; omega]
      rfl

/-- A rollback that is cut before it allows the sends, or that comes to its end. -/
theorem rollback_lawful (hs : Ordered s) (hok : phasesSafe ctx s (.rollback wired n)) :
    Ordered ((rollback wired).state n s) ∧ Lawful s (.rollback wired n) ((rollback wired).state n s) := by
  by_cases hrefused : s.phase = .idle ∨ s.phase = .committed ∨ s.phase = .complete
  · rw [rollback_refused hrefused]
    exact ⟨hs, hs.stays⟩
  have hphase : (s.phase = .freezing ∨ s.phase = .staged ∨ s.phase = .verified) ∨ s.phase = .rolled_back := by
    cases h : s.phase <;> simp [h] at hrefused ⊢
  have hsame : ∀ {t : State}, Opened s s.phase t → t.my_identity_id = s.my_identity_id → t.identity_key = s.identity_key →
      Ordered t ∧ Lawful s (.rollback wired n) t := by
    intro t h hid hkey
    have ht := h.ordered hs (by rw [hid, hkey]; exact hs.identity)
    refine ⟨ht, ht.lawful (h.phase ▸ .refl) (fun hclosed hopen => ?_) (fun _ _ _ _ => ⟨h.phase, h.sends, h.reads⟩)⟩
    exact absurd ((h.reads.symm.trans hopen).symm.trans hclosed) (by simp)
  obtain ⟨-, sender, hrun⟩ | ⟨hallow, -, -, sender, n', hrun⟩ | ⟨hallow, hstop, sender, r, n', -, hrun⟩ :=
    @rollback_cases s n wired (by simpa only [or_assoc] using hphase)
  · rw [Program.state, hrun]
    exact hsame ⟨rfl, rfl, rfl, rfl⟩ rfl rfl
  · rw [Program.state, hrun]
    have hclosed : s.legacy_read_open = false := by
      obtain h | h := hphase
      · exact (hok h hallow).2.2
      · rw [← Bool.not_eq_true]
        intro hopen
        have := hs.reads hopen
        simp [h, Phase.Reads] at this
    have ht : Ordered { s with sender, v01_sends_allowed := true, phase := .rolled_back } := by
      refine ⟨hs.identity, by simp, fun hopen => ?_, fun h => absurd h (by simp), hs.deadline⟩
      exact absurd (hclosed.symm.trans hopen) (by simp)
    refine ⟨ht, ht.lawful ?_ (fun _ hopen => absurd (hclosed.symm.trans hopen) (by simp)) ?_⟩
    · obtain h | h := hphase
      · exact .single (.rolled_back h)
      · rw [h]
    · rintro wired' n' h hresult
      obtain ⟨rfl, rfl⟩ := Action.rollback.inj h
      exact absurd (by simp [Program.result, hrun]) hresult
  · rw [Program.state, hrun]
    obtain h | h := hphase
    · exact absurd ⟨(hok h hallow).1, (hok h hallow).2.1⟩ hstop
    · exact hsame ⟨rfl, (hs.sends.mpr (Or.inr h)).symm, rfl, rfl⟩ rfl rfl

theorem rollback_ok_of_lawful (hs : Ordered s)
    (h : Lawful s (.rollback wired n) ((rollback wired).state n s)) : phasesSafe ctx s (.rollback wired n) := by
  intro hphase hallow
  have hsends := h.sends
  obtain ⟨hnot, -⟩ | ⟨-, hset, hload, sender, n', hrun⟩ | ⟨-, -, sender, r, n', -, hrun⟩ :=
    @rollback_cases s n wired (by simpa only [or_assoc] using Or.inl hphase)
  · exact absurd hallow hnot
  · refine ⟨hset, hload, ?_⟩
    rw [← Bool.not_eq_true]
    intro hopen
    rw [Program.state, hrun] at h
    have := h.reads_open hs.deadline hopen
    simp [Phase.Reads] at this
  · rw [Program.state, hrun] at hsends
    obtain h | h | h := hphase <;> simp [h] at hsends

end rollback

/-! ## Runs -/

theorem handoff_lawful {s : State} (hs : Ordered s) (key : PairKey) :
    Ordered { s with vault := some (.handoff key) } ∧
      Lawful s (.handoff key) { s with vault := some (.handoff key) } := by
  have ht : Ordered { s with vault := some (.handoff key) } := ⟨hs.identity, hs.sends, hs.reads, hs.drain, hs.deadline⟩
  refine ⟨ht, ht.lawful .refl (fun hclosed hopen => absurd (hclosed.symm.trans hopen) (by simp)) ?_⟩
  exact fun _ _ h => absurd h (by simp)

theorem next_lawful {ctx : Context} {s : State} {a : Action} (hs : Ordered s) (hok : phasesSafe ctx s a) :
    Ordered (a.next ctx s) ∧ Lawful s a (a.next ctx s) := by
  cases a with
  | handoff key => exact handoff_lawful hs key
  | stage call n => exact stage_lawful hs hok
  | verify call n => exact verify_lawful hs call
  | cutover call n => exact cutover_lawful hs call
  | observe call n => exact observe_lawful hs call
  | rollback wired n => exact rollback_lawful hs hok

/-- Along a run every step moves the phase and the two flags as it should, exactly if every
step meets `phasesSafe`. -/
theorem phases_lawful {ctx : Context} {s t : State} {as : List Action}
    (hinit : (migration ctx).init s) (hrun : (migration ctx).run s as = some t) :
    (∀ k u a v, (migration ctx).run s (as.take k) = some u → as[k]? = some a → (migration ctx).step u a = some v →
      Lawful u a v) ↔ (migration ctx).okRun (phasesSafe ctx) s as := by
  have hstart : Ordered s := by
    obtain rfl : s = {} := hinit
    exact Ordered.initial
  refine Machine.steps_iff_okRun (I := Ordered) (fun u a v hu hok hv => ?_) (fun u a v hu hok hv => ?_)
    (fun u a v hu hv hlawful => ?_) hstart hrun
  · exact Option.some.inj hv ▸ (next_lawful hu hok).1
  · exact Option.some.inj hv ▸ (next_lawful hu hok).2
  · obtain rfl := Option.some.inj hv
    cases a with
    | stage call n => exact stage_ok_of_lawful hu hlawful
    | rollback wired n => exact rollback_ok_of_lawful hu hlawful
    | handoff | verify | cutover | observe => trivial

/-- A migration that is rolled back once, staged again and completed. -/
def completedRun : List Action :=
  [.handoff 5, .stage sampleStage none, .rollback true none, .stage { sampleStage with name := 101 } none,
    .verify ⟨some (), some (sampleMsg "migration.ready"), some (sampleMsg "migration.proof")⟩ none,
    .cutover sampleCutover none, .observe ⟨90000, some 0, some 0⟩ none]

theorem phases_lawful_completedRun :
    ∃ s, (migration sampleContext).run {} completedRun = some s ∧ s.phase = .complete ∧
      ∀ k u a v, (migration sampleContext).run {} (completedRun.take k) = some u → completedRun[k]? = some a →
        (migration sampleContext).step u a = some v → Lawful u a v := by
  obtain ⟨s, hrun, hphase⟩ :
      ∃ s, (migration sampleContext).run {} completedRun = some s ∧ s.phase = .complete := by
    decide +kernel
  exact ⟨s, hrun, hphase, (phases_lawful rfl hrun).mpr (by decide +kernel)⟩

/-- A stage without a legacy key stops in the phase `freezing` with the sends off.  Its
rollback raises for the same reason, and has allowed the sends. -/
theorem rollback_raises_with_sends_on :
    ∃ s, (migration sampleContext).run {} [.stage sampleStage none] = some s ∧
      ∃ t, (migration sampleContext).step s (.rollback true none) = some t ∧
        (rollback true).result none s = .raised (.migration "rollback-key-missing") ∧
        s.phase = .freezing ∧ s.v01_sends_allowed = false ∧
        t.phase = .freezing ∧ t.v01_sends_allowed = true ∧ ¬ Lawful s (.rollback true none) t := by
  obtain ⟨s, hs, t, ht, hresult, hphase, hoff, hphase', hon⟩ :
      ∃ s, (migration sampleContext).run {} [.stage sampleStage none] = some s ∧
        ∃ t, (migration sampleContext).step s (.rollback true none) = some t ∧
          (rollback true).result none s = .raised (.migration "rollback-key-missing") ∧
          s.phase = .freezing ∧ s.v01_sends_allowed = false ∧ t.phase = .freezing ∧ t.v01_sends_allowed = true := by
    decide +kernel
  refine ⟨s, hs, t, ht, hresult, hphase, hoff, hphase', hon, fun h => ?_⟩
  have hsends := (h.raised true none rfl (by simp [hresult])).2.1
  rw [hon, hoff] at hsends
  exact absurd hsends (by simp)

end MuseAgentSocial.Migrate
