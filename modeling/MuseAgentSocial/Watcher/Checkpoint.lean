import MuseAgentSocial.Watcher.RunOnce

/-!
# Checkpoint soundness

The checkpoint is sound when every relay object of every tree up to
`last_successful_head` has been visited with a terminal disposal.  A sound
checkpoint makes the next scan safe: `listNewNames` leaves out only objects
that need no visit (`neverSkips_of_sound`).

The checkpointed marker is read after the scan and after the flush, so an
object that the peer pushes inside that window is in the checkpointed tree
and was never visited.  `checkpoint_passes_racing_push` is such a run.

`Undisturbed` is the condition on the steps under which the checkpoint is
sound: no object is pushed between the scan and the second `head()`, and no
read of a listed object fails.  `checkpoint_sound` is the result over runs.
Its invariant is `Inv`:

* a path keeps its content over all trees, since pushed names are fresh;
* every queued mutation consumes a processed object;
* an object of an earlier tree is processed or still at the tip;
* after a clean scan every object at the tip is processed.
-/

namespace MuseAgentSocial.Watcher

open Policy Transports

/-! ## The property -/

/-- An object was visited with a terminal disposal.  Within the size cap it
is `receive_fn` that got the bytes and reported the outcome. -/
def Processed (log : List Visited) (n : ObjectName) (b : Blob) : Prop :=
  ∃ e ∈ log, e.name = n ∧ e.data = b ∧ e.disposal.terminal = true ∧
    (b.length ≤ OBJECT_MAX_BYTES → ∃ o, e.disposal = .received o)

/-- Every relay object of the trees up to the marker `h` is processed. -/
def ProcessedUpTo (r : Relay) (log : List Visited) (h : Nat) : Prop :=
  ∀ k ≤ h, ∀ n b, isObjectName n = true → (r.treeAt k).get n = some b → Processed log n b

/-- The stored checkpoint covers processed objects only. -/
def CheckpointSound (w : World) : Prop :=
  ProcessedUpTo w.relay w.log w.state.last_successful_head

/-- A scan from the stored checkpoint passes over processed objects only,
whatever marker the branch then has. -/
def NeverSkips (w : World) : Prop :=
  ∀ ref diffOk n b, isObjectName n = true → (w.relay.treeAt ref).get n = some b →
    n ∉ listNewNames w.relay w.state.last_successful_head ref diffOk →
    Processed w.log n b

variable {w : World} {n e : ObjectName} {data b : Blob} {v v' : Visit} {log : List Visited}
  {env : ScanEnv} {tree : Tree} {names : List ObjectName} {out : StreamStats × Visit} {r : Relay}
  {queue : List Mutation} {info : ScanInfo}

theorem neverSkips_of_sound (h : CheckpointSound w) : NeverSkips w := by
  intro ref diffOk n b hn hget hnot
  exact h _ (le_refl _) n b hn (get_since_of_not_listed hget hnot).2

/-! ## One visit -/

/-- What one call of the visitor can do to its state: consume the object
after a terminal disposal, count it for retry, or stop the stream with the
queue as it was. -/
inductive VisitStep (n : ObjectName) (data b : Blob) (v : Visit) : Visit × Bool → Prop where
  | consumed {v' : Visit} (d : Disposal) (hd : d.terminal = true)
      (hcap : data.length ≤ OBJECT_MAX_BYTES → ∃ o, d = .received o)
      (hlog : v'.log = v.log ++ [⟨n, b, d⟩])
      (hqueue : v'.queue = v.queue ++ [.consume n])
      (hretry : v'.retry_pending = v.retry_pending) : VisitStep n data b v (v', true)
  | retried {v' : Visit}
      (hlog : v'.log = v.log ++ [⟨n, b, .received .retry_pending⟩])
      (hqueue : v'.queue = v.queue)
      (hretry : v'.retry_pending = v.retry_pending + 1) : VisitStep n data b v (v', true)
  | stopped {v' : Visit} (hlog : v.log ⊆ v'.log) (hqueue : v'.queue = v.queue)
      (hretry : v.retry_pending ≤ v'.retry_pending) : VisitStep n data b v (v', false)

/-- The visitor's last step: the object got a terminal disposal `d` and is
consumed, or `consume` failed and stopped the stream. -/
theorem consume_visitStep (env : ScanEnv) {v₁ : Visit} (d : Disposal) (hd : d.terminal = true)
    (hcap : data.length ≤ OBJECT_MAX_BYTES → ∃ o, d = .received o)
    (hlog : v₁.log = v.log ++ [⟨n, b, d⟩]) (hqueue : v₁.queue = v.queue)
    (hretry : v₁.retry_pending = v.retry_pending) :
    VisitStep n data b v (Visit.consume env v₁ n) := by
  unfold Visit.consume
  split
  · refine .stopped ?_ hqueue (le_of_eq hretry.symm)
    rw [hlog]
    exact List.subset_append_left _ _
  · exact .consumed d hd hcap hlog (by rw [hqueue]) hretry

/-- Every call of the visitor is one of the three. -/
theorem visit_step (env : ScanEnv) (blob : ObjectName → Blob) (v : Visit) (n : ObjectName)
    (data : Blob) : VisitStep n data (blob n) v (visit env blob v n data) := by
  unfold visit
  dsimp only
  split_ifs with hspent hbig
  · exact .stopped (fun _ => id) rfl (le_refl _)
  · exact consume_visitStep env .oversized rfl (fun hle => by omega) rfl rfl rfl
  · cases hreply : env.receive n data with
    | raised => exact .stopped (fun _ => id) rfl (le_refl _)
    | badOutcome => exact .stopped (fun _ => id) rfl (le_refl _)
    | badCounts => exact .stopped (fun _ => id) rfl (le_refl _)
    | reported outcome =>
      cases outcome with
      | accepted =>
        exact consume_visitStep env (.received .accepted) rfl (fun _ => ⟨_, rfl⟩) rfl rfl rfl
      | quarantined =>
        exact consume_visitStep env (.received .quarantined) rfl (fun _ => ⟨_, rfl⟩) rfl rfl rfl
      | retry_pending => exact .retried rfl rfl rfl

theorem Processed.mono {log' : List Visited} (hsub : log ⊆ log')
    (h : Processed log n b) : Processed log' n b := by
  obtain ⟨e, he, hrest⟩ := h
  exact ⟨e, hsub he, hrest⟩

theorem processed_of_logged {d : Disposal} (hmem : (⟨n, b, d⟩ : Visited) ∈ log)
    (hd : d.terminal = true) (hcap : data.length ≤ OBJECT_MAX_BYTES → ∃ o, d = .received o)
    (hdata : b.length ≤ OBJECT_MAX_BYTES → data = b) : Processed log n b :=
  ⟨_, hmem, rfl, rfl, hd, fun hle => hcap (by rw [hdata hle]; exact hle)⟩

/-! ## One scan -/

/-- What a scan of `names` does to the visitor's state. -/
structure StreamSpec (env : ScanEnv) (tree : Tree) (names : List ObjectName) (v : Visit)
    (out : StreamStats × Visit) : Prop where
  log : v.log ⊆ out.2.log
  retry : v.retry_pending ≤ out.2.retry_pending
  /-- A new queue entry consumes a processed object of the tree. -/
  queue : ∀ m ∈ out.2.queue, m ∈ v.queue ∨
    ∃ n b, m = .consume n ∧ tree.get n = some b ∧ Processed out.2.log n b
  /-- A scan to the end without retries has processed every listed object
  whose reads work. -/
  done : out.1.truncated = false → out.2.retry_pending = 0 →
    ∀ e ∈ names, isObjectName (strip e) = true →
      env.sizeFails (strip e) = false → env.readFails (strip e) = false →
      ∀ b, tree.get (strip e) = some b → Processed out.2.log (strip e) b

theorem deliver_eq (hget : tree.get n = some b)
    (h : deliver (env.reads tree) n b.length = some data)
    (hle : b.length ≤ OBJECT_MAX_BYTES) : data = b := by
  unfold deliver ScanEnv.reads at h
  rw [if_pos hle] at h
  dsimp only at h
  split_ifs at h
  rw [hget] at h
  exact (Option.some.inj h).symm

/-- A name that the stream passes over needs no visit when the remaining
names are handled. -/
theorem StreamSpec.skip {env : ScanEnv} {tree : Tree} {e : ObjectName}
    {names : List ObjectName} {v : Visit} {out : StreamStats × Visit}
    (h : StreamSpec env tree names v out)
    (hskip : isObjectName (strip e) = true → env.sizeFails (strip e) = false →
      env.readFails (strip e) = false → ∀ b, tree.get (strip e) = some b → False) :
    StreamSpec env tree (e :: names) v out where
  log := h.log
  retry := h.retry
  queue := h.queue
  done := by
    intro htr hre e' he' hn hs hr b hb
    rcases List.mem_cons.mp he' with rfl | he'
    · exact absurd (hskip hn hs hr b hb) id
    · exact h.done htr hre e' he' hn hs hr b hb

/-- A stream that is cut short promises nothing about the rest. -/
theorem StreamSpec.cut {stats : StreamStats} {reason : TruncationReason} (hlog : v.log ⊆ v'.log)
    (hretry : v.retry_pending ≤ v'.retry_pending) (hqueue : v'.queue = v.queue) :
    StreamSpec env tree names v (stats.truncate reason, v') where
  log := hlog
  retry := hretry
  queue := fun m hm => Or.inl (hqueue ▸ hm)
  done := fun htr => by simp [StreamStats.truncate] at htr

theorem StreamSpec.retried (h : StreamSpec env tree names v' out) (hlog : v.log ⊆ v'.log)
    (hqueue : v'.queue = v.queue) (hretry : v'.retry_pending = v.retry_pending + 1) :
    StreamSpec env tree (e :: names) v out where
  log := fun _ hx => h.log (hlog hx)
  retry := by have := h.retry; omega
  queue := hqueue ▸ h.queue
  done := by
    intro _ h0
    have := h.retry
    omega

theorem StreamSpec.consumed (h : StreamSpec env tree names v' out) (hlog : v.log ⊆ v'.log)
    (hqueue : v'.queue = v.queue ++ [.consume (strip e)])
    (hretry : v'.retry_pending = v.retry_pending) (hget : tree.get (strip e) = some b)
    (hproc : Processed v'.log (strip e) b) :
    StreamSpec env tree (e :: names) v out where
  log := fun _ hx => h.log (hlog hx)
  retry := by have := h.retry; omega
  queue := by
    intro m hm
    rcases h.queue m hm with hm | hm
    · rw [hqueue, List.mem_append, List.mem_singleton] at hm
      rcases hm with hm | rfl
      · exact Or.inl hm
      · exact Or.inr ⟨_, b, rfl, hget, hproc.mono h.log⟩
    · exact Or.inr hm
  done := by
    intro htr h0 e' he' hn hs hr c hc
    rcases List.mem_cons.mp he' with rfl | he'
    · obtain rfl : b = c := Option.some.inj (hget.symm.trans hc)
      exact hproc.mono h.log
    · exact h.done htr h0 e' he' hn hs hr c hc

theorem fetchNewStream_spec (env : ScanEnv) (tree : Tree) (names : List ObjectName)
    (stats : StreamStats) (v : Visit) :
    StreamSpec env tree names v
      (fetchNewStream (env.reads tree) (visit env (blobAt tree)) names stats v) := by
  induction names generalizing stats v with
  | nil =>
    exact ⟨fun _ => id, le_refl _, fun _ => Or.inl, by simp⟩
  | cons e names ih =>
    rw [fetchNewStream]
    dsimp only
    simp only [passed_iff]
    split_ifs with hre hcap
    · exact (ih stats v).skip (fun h => by simp [hre] at h)
    · exact .cut (fun _ => id) (le_refl _) rfl
    · cases hsize : (env.reads tree).size (strip e) with
      | none =>
        refine (ih stats v).skip (fun _ hs _ b hb => ?_)
        simp [ScanEnv.reads, hs, hb] at hsize
      | some size =>
        obtain ⟨b, hget, rfl⟩ : ∃ b, tree.get (strip e) = some b ∧ b.length = size := by
          simp only [ScanEnv.reads] at hsize
          split_ifs at hsize
          simpa using hsize
        dsimp only
        split_ifs with hagg
        · exact .cut (fun _ => id) (le_refl _) rfl
        · cases hdel : deliver (env.reads tree) (strip e) b.length with
          | none =>
            refine (ih stats v).skip (fun _ _ hr c hc => ?_)
            obtain rfl : b = c := Option.some.inj (hget.symm.trans hc)
            unfold deliver at hdel
            split_ifs at hdel
            simp [ScanEnv.reads, hr, hget] at hdel
          | some data =>
            have hstep := visit_step env (blobAt tree) v (strip e) data
            have hblob : blobAt tree (strip e) = b := by simp [blobAt, hget]
            rw [hblob] at hstep
            dsimp only
            generalize visit env (blobAt tree) v (strip e) data = res at hstep ⊢
            -- the three answers of the visitor
            cases hstep with
            | stopped hlog hqueue hretry => exact .cut hlog hretry hqueue
            | @retried v' hlog hqueue hretry =>
              refine (ih _ v').retried ?_ hqueue hretry
              rw [hlog]
              exact List.subset_append_left _ _
            | @consumed v' d hd hcap hlog hqueue hretry =>
              have hlogged : (⟨strip e, b, d⟩ : Visited) ∈ v'.log := by simp [hlog]
              have hproc := processed_of_logged hlogged hd hcap (deliver_eq hget hdel)
              refine (ih _ v').consumed ?_ hqueue hretry hget hproc
              rw [hlog]
              exact List.subset_append_left _ _

/-! ## The invariant -/

/-- The part of the invariant that does not depend on where the watcher
stands. -/
structure Base (r : Relay) (queue : List Mutation) (log : List Visited) (since : Nat) :
    Prop where
  marker : since ≤ r.head
  /-- A path has the same content in every tree that has it. -/
  stable : ∀ j k n b c, (r.treeAt j).get n = some b → (r.treeAt k).get n = some c → b = c
  /-- The queue consumes processed objects. -/
  queue : ∀ m ∈ queue, ∃ n, m = .consume n ∧ n ∈ r.usedNames ∧
    ∀ k b, (r.treeAt k).get n = some b → Processed log n b
  /-- An object leaves the branch only after it is processed. -/
  kept : ∀ k n b, (r.treeAt k).get n = some b → Processed log n b ∨ r.tip.get n = some b
  sound : ProcessedUpTo r log since

/-- Every relay object at the tip is processed. -/
def TipProcessed (r : Relay) (log : List Visited) : Prop :=
  ∀ n b, isObjectName n = true → r.tip.get n = some b → Processed log n b

/-- The scan reached the end and left nothing to retry. -/
def ScanInfo.Clean (info : ScanInfo) : Prop :=
  info.retry_pending = 0 ∧ info.budget_hit = false ∧ info.truncated = false

/-- What the watcher relies on between the steps of a cycle. -/
def PhaseInv (r : Relay) (log : List Visited) : Phase → Prop
  | .idle | .probed => True
  | .scanned info | .flushed info => info.Clean → TipProcessed r log
  | .headRead info h => h ≤ r.head ∧ (info.Clean → ProcessedUpTo r log h)

/-- The invariant of the watcher and its peer. -/
structure Inv (w : World) : Prop where
  base : Base w.relay w.queue w.log w.state.last_successful_head
  phase : PhaseInv w.relay w.log w.phase

/-! ## Commits -/

theorem treeAt_append_cases (r : Relay) (t : Tree) (k : Nat) :
    Relay.treeAt (r ++ [t]) k = r.treeAt k ∨ Relay.treeAt (r ++ [t]) k = t := by
  rcases Nat.lt_trichotomy k (r.length + 1) with hk | rfl | hk
  · exact Or.inl (Relay.treeAt_append r t (Nat.lt_succ_iff.mp hk))
  · exact Or.inr (Relay.treeAt_append_last r t)
  · left
    cases k with
    | zero => rfl
    | succ k =>
      have h₁ : (r ++ [t])[k]? = none := List.getElem?_eq_none (by simp; omega)
      have h₂ : r[k]? = none := List.getElem?_eq_none (by omega)
      simp only [Relay.treeAt, h₁, h₂]

theorem tip_append (r : Relay) (t : Tree) : Relay.tip (r ++ [t]) = t := by
  rw [Relay.tip, Relay.head, List.length_append, List.length_singleton,
    Relay.treeAt_append_last]

theorem mem_usedNames_of_get {k : Nat} (h : (r.treeAt k).get n = some b) : n ∈ r.usedNames := by
  have hmem := Tree.mem_names_of_get h
  cases k with
  | zero => simp [Relay.treeAt, Tree.empty, Tree.names] at hmem
  | succ k =>
    cases hk : r[k]? with
    | none => simp [Relay.treeAt, hk, Tree.empty, Tree.names] at hmem
    | some t =>
      simp only [Relay.treeAt, hk, Option.getD_some] at hmem
      exact List.mem_flatMap.mpr ⟨t, List.mem_of_getElem? hk, hmem⟩

/-- A commit keeps the base invariant when its tree adds only unused names
to the tip and drops only processed objects. -/
theorem Base.commit {queue' : List Mutation} {since : Nat} (h : Base r queue log since) {t : Tree}
    (hadd : ∀ n b, t.get n = some b → r.tip.get n = some b ∨ n ∉ r.usedNames)
    (hdrop : ∀ n b, r.tip.get n = some b → t.get n = some b ∨ Processed log n b)
    (hqueue : queue' ⊆ queue) : Base (r ++ [t]) queue' log since := by
  -- an old and a new occurrence of one path
  have hcross : ∀ k n b c, (r.treeAt k).get n = some b → t.get n = some c → b = c := by
    intro k n b c hb hc
    rcases hadd n c hc with htip | hfresh
    · exact h.stable k r.head n b c hb htip
    · exact absurd (mem_usedNames_of_get hb) hfresh
  refine ⟨?_, ?_, ?_, ?_, ?_⟩
  · have := h.marker
    simp only [Relay.head, List.length_append, List.length_singleton] at this ⊢
    omega
  · intro j k n b c hb hc
    rcases treeAt_append_cases r t j with hj | hj <;>
      rcases treeAt_append_cases r t k with hk | hk <;> rw [hj] at hb <;> rw [hk] at hc
    · exact h.stable j k n b c hb hc
    · exact hcross j n b c hb hc
    · exact (hcross k n c b hc hb).symm
    · exact Option.some.inj (hb.symm.trans hc)
  · intro m hm
    obtain ⟨n, rfl, hused, hproc⟩ := h.queue m (hqueue hm)
    refine ⟨n, rfl, ?_, ?_⟩
    · simp only [Relay.usedNames, List.flatMap_append, List.mem_append]
      exact Or.inl hused
    · intro k b hb
      rcases treeAt_append_cases r t k with hk | hk <;> rw [hk] at hb
      · exact hproc k b hb
      · rcases hadd n b hb with htip | hfresh
        · exact hproc _ b htip
        · exact absurd hused hfresh
  · intro k n b hb
    rw [tip_append]
    rcases treeAt_append_cases r t k with hk | hk <;> rw [hk] at hb
    · rcases h.kept k n b hb with hp | htip
      · exact Or.inl hp
      · exact (hdrop n b htip).symm
    · exact Or.inr hb
  · intro k hk n b hn hb
    rw [Relay.treeAt_append r t (le_trans hk h.marker)] at hb
    exact h.sound k hk n b hn hb

theorem replayQueued_consume (hq : ∀ m ∈ queue, ∃ n, m = .consume n) (t : Tree) (n : ObjectName)
    (b : Blob) :
    ((replayQueued queue t).get n = some b → t.get n = some b) ∧
      (t.get n = some b → (replayQueued queue t).get n = some b ∨ .consume n ∈ queue) := by
  induction queue generalizing t with
  | nil => exact ⟨id, Or.inl⟩
  | cons m queue ih =>
    obtain ⟨c, rfl⟩ := hq m (by simp)
    have ih' := ih (fun m hm => hq m (by simp [hm])) (t.erase c)
    refine ⟨fun h => Tree.get_of_get_erase (ih'.1 h), fun h => ?_⟩
    by_cases hc : n = c
    · subst hc
      exact Or.inr (by simp)
    · rcases ih'.2 (Tree.get_erase_of_ne h hc) with hk | hk
      · exact Or.inl hk
      · exact Or.inr (by simp [hk])

/-- A push of the queue keeps the base invariant, also when the rows are
then marked done. -/
theorem Base.push (h : Base w.relay w.queue w.log w.state.last_successful_head)
    (queue' : List Mutation) (hqueue : queue' ⊆ w.queue) :
    Base w.push queue' w.log w.state.last_successful_head ∧
      (TipProcessed w.relay w.log → TipProcessed w.push w.log) := by
  unfold World.push
  dsimp only
  split_ifs with heq
  · exact ⟨⟨h.marker, h.stable, fun m hm => h.queue m (hqueue hm), h.kept, h.sound⟩, id⟩
  · have hcons : ∀ m ∈ w.queue, ∃ n, m = Mutation.consume n := fun m hm =>
      let ⟨n, hn, _⟩ := h.queue m hm
      ⟨n, hn⟩
    have hsub := fun n b => (replayQueued_consume hcons w.relay.tip n b).1
    refine ⟨h.commit (fun n b hb => Or.inl (hsub n b hb)) ?_ hqueue, ?_⟩
    · intro n b hb
      rcases (replayQueued_consume hcons w.relay.tip n b).2 hb with hk | hk
      · exact Or.inl hk
      · obtain ⟨n', hn', _, hproc⟩ := h.queue _ hk
        obtain rfl : n = n' := Mutation.consume.inj hn'
        exact Or.inr (hproc _ b hb)
    · intro htip n b hn hb
      rw [tip_append] at hb
      exact htip n b hn (hsub n b hb)

theorem Base.peerPush {since : Nat} (h : Base r queue log since)
    (objects : List (ObjectName × Blob)) (hfresh : FreshNames r objects) :
    Base (r ++ [pushTree r objects hfresh]) queue log since := by
  refine h.commit ?_ ?_ (fun _ => id)
  · intro n b hb
    rw [Tree.get_eq_some_iff, pushTree, List.mem_append] at hb
    rcases hb with hb | hb
    · exact Or.inl ((Tree.get_eq_some_iff _ _ _).mpr hb)
    · exact Or.inr (hfresh.2 _ hb)
  · intro n b hb
    rw [Tree.get_eq_some_iff] at hb ⊢
    exact Or.inl (List.mem_append_left _ hb)

/-! ## The steps -/

/-- The condition on a step: the peer pushes no relay object between the
scan and the second `head()`, and no read of a listed object fails. -/
def Undisturbed (w : World) : Action → Prop
  | .peerPush objects =>
    match w.phase with
    | .scanned _ | .flushed _ => ∀ o ∈ objects, isObjectName o.1 = false
    | _ => True
  | .scan env =>
    ∀ e ∈ listNewNames w.relay w.state.last_successful_head w.relay.head env.diffOk,
      isObjectName (strip e) = true →
        env.sizeFails (strip e) = false ∧ env.readFails (strip e) = false
  | _ => True

theorem PhaseInv.peerPush (h : Inv w) {objects : List (ObjectName × Blob)}
    (hok : Undisturbed w (.peerPush objects)) (hfresh : FreshNames w.relay objects) :
    PhaseInv (w.relay ++ [pushTree w.relay objects hfresh]) w.log w.phase := by
  have htip : (∀ o ∈ objects, isObjectName o.1 = false) → TipProcessed w.relay w.log →
      TipProcessed (w.relay ++ [pushTree w.relay objects hfresh]) w.log := by
    intro hobj hp n b hn hb
    rw [tip_append, Tree.get_eq_some_iff, pushTree, List.mem_append] at hb
    rcases hb with hb | hb
    · exact hp n b hn ((Tree.get_eq_some_iff _ _ _).mpr hb)
    · simp [hobj _ hb] at hn
  have hphase := h.phase
  cases hp : w.phase with
  | idle => trivial
  | probed => trivial
  | scanned info =>
    rw [hp] at hphase
    simp only [Undisturbed, hp] at hok
    exact fun hclean => htip hok (hphase hclean)
  | flushed info =>
    rw [hp] at hphase
    simp only [Undisturbed, hp] at hok
    exact fun hclean => htip hok (hphase hclean)
  | headRead info k =>
    rw [hp] at hphase
    refine ⟨?_, fun hclean j hj n b hn hb => ?_⟩
    · have := hphase.1
      simp only [Relay.head, List.length_append, List.length_singleton] at this ⊢
      omega
    · rw [Relay.treeAt_append _ _ (le_trans hj hphase.1)] at hb
      exact hphase.2 hclean j hj n b hn hb

/-- A scan keeps the invariant, and a clean one has processed every relay
object at the tip. -/
theorem Inv.scan (h : Inv w) (hok : Undisturbed w (.scan env)) : Inv (scan w env) := by
  have hspec := fetchNewStream_spec env w.relay.tip
    (listNewNames w.relay w.state.last_successful_head w.relay.head env.diffOk) {}
    { queue := w.queue, log := w.log }
  change StreamSpec env w.relay.tip _ _ (receiveStream env w.relay _ w.relay.head _) at hspec
  unfold Watcher.scan
  cases env.fetchError with
  | some e => exact ⟨h.base, trivial⟩
  | none =>
    dsimp only
    generalize receiveStream env w.relay w.state.last_successful_head w.relay.head
      { queue := w.queue, log := w.log } = out at hspec ⊢
    have hbase : Base w.relay out.2.queue out.2.log w.state.last_successful_head := by
      refine ⟨h.base.marker, h.base.stable, ?_, ?_, ?_⟩
      · intro m hm
        rcases hspec.queue m hm with hm | ⟨n, b, rfl, hget, hproc⟩
        · obtain ⟨n, rfl, hused, hproc⟩ := h.base.queue m hm
          exact ⟨n, rfl, hused, fun k b hb => (hproc k b hb).mono hspec.log⟩
        · refine ⟨n, rfl, mem_usedNames_of_get hget, fun k c hc => ?_⟩
          rw [h.base.stable k _ n c b hc hget]
          exact hproc
      · intro k n b hb
        exact (h.base.kept k n b hb).imp_left (·.mono hspec.log)
      · intro k hk n b hn hb
        exact (h.base.sound k hk n b hn hb).mono hspec.log
    cases out.2.fatal with
    | some code => exact ⟨hbase, trivial⟩
    | none =>
      refine ⟨hbase, fun hclean n b hn hb => ?_⟩
      obtain ⟨hretry, -, htrunc⟩ := hclean
      by_cases hlisted : n ∈ listNewNames w.relay w.state.last_successful_head w.relay.head
          env.diffOk
      · have hn' : isObjectName (strip n) = true := by rw [strip_of_isObjectName hn]; exact hn
        have hreads := hok n hlisted hn'
        have hdone := hspec.done htrunc hretry n hlisted hn' hreads.1 hreads.2
        rw [strip_of_isObjectName hn] at hdone
        exact hdone b hb
      · -- an unlisted object has the content it had at the checkpoint
        have hsince := (get_since_of_not_listed hb hlisted).2
        exact hbase.sound _ (le_refl _) n b hn hsince

/-- The flush keeps the invariant. -/
theorem Inv.flush (h : Inv w) (hp : w.phase = .scanned info)
    (reply : FlushReply) : Inv (flush w info reply) := by
  have hphase := h.phase
  rw [hp] at hphase
  unfold Watcher.flush
  split_ifs with hq
  · exact ⟨h.base, hphase⟩
  · cases reply with
    | deferred => exact ⟨h.base, hphase⟩
    | failed e => exact ⟨h.base, trivial⟩
    | pushed =>
      have hpush := h.base.push [] (by simp)
      exact ⟨hpush.1, fun hclean => hpush.2 (hphase hclean)⟩
    | pushedThenCrash => exact ⟨(h.base.push w.queue (fun _ => id)).1, trivial⟩

/-- The second `head()` names the tip, and every earlier tree is covered by
it. -/
theorem Inv.readHead (h : Inv w) (hp : w.phase = .flushed info)
    (headError : Option TransportError) : Inv (readHead w info headError) := by
  have hphase := h.phase
  rw [hp] at hphase
  cases headError with
  | some e => exact ⟨h.base, trivial⟩
  | none =>
    refine ⟨h.base, le_refl _, fun hclean k _ n b hn hb => ?_⟩
    rcases h.base.kept k n b hb with hproc | htip
    · exact hproc
    · exact hphase hclean n b hn htip

theorem Inv.checkpoint (h : Inv w) {new_remote : Nat} (hp : w.phase = .headRead info new_remote)
    (now retry_at : Nat) :
    Inv (checkpoint w info new_remote now retry_at) := by
  have hphase := h.phase
  rw [hp] at hphase
  unfold Watcher.checkpoint
  dsimp only
  split_ifs with hcut hcode hpending
  · exact ⟨h.base, trivial⟩
  · exact ⟨h.base, trivial⟩
  · have hclean : info.Clean := by
      simp only [not_or, Bool.not_eq_true] at hcut
      exact ⟨by omega, hcut.1, hcut.2⟩
    exact ⟨⟨hphase.1, h.base.stable, h.base.queue, h.base.kept, hphase.2 hclean⟩, trivial⟩
  · exact ⟨h.base, trivial⟩

/-- The probe changes neither the relay, the queue nor the marker. -/
theorem Inv.probe (h : Inv w) (now interval : Nat) (policy : PolicyReply)
    (headError : Option TransportError) : Inv (probe w now interval policy headError) := by
  unfold Watcher.probe
  cases policy <;> cases headError <;> dsimp only <;> split_ifs <;> exact ⟨h.base, trivial⟩

theorem Inv.step {w' : World} {a : Action} (h : Inv w) (hok : Undisturbed w a)
    (hst : Watcher.step w a = some w') : Inv w' := by
  cases a with
  | peerPush objects =>
    simp only [Watcher.step] at hst
    split_ifs at hst with hfresh
    obtain rfl := Option.some.inj hst
    exact ⟨h.base.peerPush objects hfresh, PhaseInv.peerPush h hok hfresh⟩
  | probe now interval policy headError =>
    cases hp : w.phase <;> simp only [Watcher.step, hp, reduceCtorEq] at hst
    obtain rfl := Option.some.inj hst
    exact h.probe now interval policy headError
  | scan env =>
    cases hp : w.phase <;> simp only [Watcher.step, hp, reduceCtorEq] at hst
    obtain rfl := Option.some.inj hst
    exact h.scan hok
  | flush reply =>
    cases hp : w.phase <;> simp only [Watcher.step, hp, reduceCtorEq] at hst
    obtain rfl := Option.some.inj hst
    exact h.flush hp reply
  | readHead headError =>
    cases hp : w.phase <;> simp only [Watcher.step, hp, reduceCtorEq] at hst
    obtain rfl := Option.some.inj hst
    exact h.readHead hp headError
  | checkpoint now retry_at =>
    cases hp : w.phase <;> simp only [Watcher.step, hp, reduceCtorEq] at hst
    obtain rfl := Option.some.inj hst
    exact h.checkpoint hp now retry_at
  | crash =>
    obtain rfl := Option.some.inj hst
    exact ⟨h.base, trivial⟩

/-- The initial world meets the invariant. -/
theorem Inv.init : Inv {} := by
  have hempty : ∀ (k : Nat) (n : ObjectName) (b : Blob),
      (Relay.treeAt [] k).get n = some b → False := by
    intro k n b hb
    simpa [Relay.usedNames] using mem_usedNames_of_get hb
  exact ⟨⟨le_refl _, fun j k n b c hb => absurd (hempty j n b hb) id, by simp,
    fun k n b hb => absurd (hempty k n b hb) id,
    fun k _ n b _ hb => absurd (hempty k n b hb) id⟩, trivial⟩

/-! ## The result over runs -/

/-- In every undisturbed run the checkpoint covers processed objects only,
and no later scan from it skips an object that was not processed. -/
theorem checkpoint_sound {w : World} (h : machine.Reach Undisturbed w) :
    CheckpointSound w ∧ NeverSkips w := by
  have hinv : Inv w := by
    refine h.invariant (P := Inv) ?_ ?_
    · rintro s rfl
      exact Inv.init
    · intro s a t hs hok hst
      exact hs.step hok hst
  exact ⟨hinv.base.sound, neverSkips_of_sound hinv.base.sound⟩

/-- A relay object name of 32 equal characters. -/
def objectNameOf (c : Char) : ObjectName :=
  List.replicate 32 c ++ ['.', 'j', 's', 'o', 'n']

/-- A scan in which every git call works and every object is accepted. -/
def acceptAll : ScanEnv where
  fetchError := none
  diffOk := true
  sizeFails _ := false
  readFails _ := false
  spent _ := false
  receive _ _ := .reported .accepted
  consumeError _ := none

/-- One full cycle over one pushed object. -/
def quietCycle : List Action :=
  [.peerPush [(objectNameOf 'a', [1])], .probe 0 0 .ok none, .scan acceptAll, .flush .pushed,
    .readHead none, .checkpoint 0 0]

theorem checkpoint_sound_quietCycle :
    ∃ w, machine.run {} quietCycle = some w ∧ w.state.last_successful_head = 2 ∧
      CheckpointSound w ∧ NeverSkips w := by
  have hrun : (machine.run {} quietCycle).map (·.state.last_successful_head) = some 2 := by
    decide +kernel
  obtain ⟨w, hw, hhead⟩ := Option.map_eq_some_iff.mp hrun
  have hreach : machine.Reach Undisturbed w := by
    refine Machine.Reach.run (.start rfl) ?_ hw
    simp [quietCycle, Machine.okRun, machine, Undisturbed, acceptAll]
  exact ⟨w, hw, hhead, checkpoint_sound hreach⟩

/-- A cycle in which a second object is pushed after the scan. -/
def racingCycle : List Action :=
  [.peerPush [(objectNameOf 'a', [1])], .probe 0 0 .ok none, .scan acceptAll,
    .peerPush [(objectNameOf 'b', [2])], .flush .pushed, .readHead none, .checkpoint 0 0]

/-- The checkpoint passes an object that is pushed between the scan and the
second `head()`: the object is at the branch tip, it was never handed to
`receive_fn`, and the next scan does not list it. -/
theorem checkpoint_passes_racing_push :
    ¬ ∀ w, machine.Reachable w → CheckpointSound w ∧ NeverSkips w := by
  intro hall
  have hrun : (machine.run {} racingCycle).map (fun w =>
      (w.state.last_successful_head, (w.relay.treeAt 3).get (objectNameOf 'b'),
        w.log.map (·.name))) = some (3, some [2], [objectNameOf 'a']) := by
    decide +kernel
  obtain ⟨w, hw, heq⟩ := Option.map_eq_some_iff.mp hrun
  simp only [Prod.mk.injEq] at heq
  obtain ⟨hhead, hget, hlog⟩ := heq
  have hsound := (hall w (Machine.reachable_of_run rfl hw)).1
  obtain ⟨e, he, hname, -⟩ := hsound 3 hhead.ge (objectNameOf 'b') [2] (by decide) hget
  have hmem : objectNameOf 'b' ∈ w.log.map (·.name) := List.mem_map.mpr ⟨e, he, hname⟩
  rw [hlog] at hmem
  revert hmem
  decide

end MuseAgentSocial.Watcher
