import MuseAgentSocial.Transports.Push

/-!
# Delivery of queued mutations

What a push does to the relay, over all runs of one side with a peer that commits any
trees, pushes that fail or are not reported, and processes that die.

* `get_replayQueued`: a replay leaves the last mutation of each path.
* `Faithful` is what a step needs: git stages the work tree, and the limits let a flush pass.
* `Sound` is the invariant: the queue is in id order, what is done is done in that order,
  and what a flush has applied is the front of the queue.
* `Landed` says that the relay holds the effect of a batch.
* `Delivers` is what every step does then.
-/

namespace MuseAgentSocial.Transports

/-! ## Trees -/

variable {t : Tree} {ms : List Mutation} {git : Staging} {r : MutationRow} {rid' : RelationshipId}
  {mutation : Mutation} {queued : List MutationId} {a : RelayAction}

theorem Tree.get_eq_none_iff {n : ObjectName} : t.get n = none ↔ n ∉ t.names := by
  rw [Option.eq_none_iff_forall_ne_some]
  constructor
  · intro h hmem
    obtain ⟨⟨m, b⟩, hentry, rfl⟩ := List.mem_map.mp hmem
    exact h b ((t.get_eq_some_iff m b).mpr hentry)
  · exact fun h b hb => h (Tree.mem_names_of_get hb)

theorem Tree.get_erase (t : Tree) (m n : ObjectName) : (t.erase m).get n = if m = n then none else t.get n := by
  split_ifs with hmn
  · subst hmn
    rw [Tree.get_eq_none_iff]
    intro hmem
    obtain ⟨e, he, hname⟩ := List.mem_map.mp hmem
    have hne := (List.mem_filter.mp he).2
    simp [hname] at hne
  · cases hget : t.get n with
    | none =>
      cases herase : (t.erase m).get n with
      | none => rfl
      | some b => exact absurd (Tree.get_of_get_erase herase) (by simp [hget])
    | some b => exact Tree.get_erase_of_ne hget (fun h => hmn h.symm)

theorem Tree.get_write (t : Tree) (m : ObjectName) (b : Blob) (n : ObjectName) :
    (t.write m b).get n = if m = n then some b else t.get n := by
  split_ifs with hmn
  · subst hmn
    exact ((t.write m b).get_eq_some_iff m b).mpr (by simp [Tree.write])
  · rw [show t.get n = (t.erase m).get n by rw [Tree.get_erase, if_neg hmn]]
    refine Option.ext (fun c => ?_)
    rw [Tree.get_eq_some_iff, Tree.get_eq_some_iff]
    simp only [Tree.write, List.mem_append, List.mem_singleton, Prod.mk.injEq]
    exact or_iff_left (fun h => hmn h.1.symm)

theorem get_apply (m : Mutation) (t : Tree) (n : ObjectName) :
    (m.apply t).get n = if m.name = n then m.content else t.get n := by
  cases m with
  | upload name data => exact Tree.get_write t name data n
  | consume name => exact Tree.get_erase t name n

/-- The content of a path after mutations on a tree: what the last one of the path leaves. -/
def effectAt (ms : List Mutation) (t : Tree) (n : ObjectName) : Option Blob :=
  (ms.filter (·.name = n)).getLast?.elim (t.get n) Mutation.content

theorem get_replayQueued (ms : List Mutation) (t : Tree) (n : ObjectName) :
    (replayQueued ms t).get n = effectAt ms t n := by
  unfold replayQueued effectAt
  induction ms using List.reverseRecOn with
  | nil => rfl
  | append_singleton ms m ih =>
    rw [List.foldl_concat, get_apply, List.filter_append]
    by_cases hm : m.name = n
    · rw [if_pos hm, List.filter_cons_of_pos (by simpa using hm), List.filter_nil, List.getLast?_concat]
      rfl
    · rw [if_neg hm, List.filter_cons_of_neg (by simpa using hm), List.filter_nil, List.append_nil, ih]

theorem Tree.same_iff {t' : Tree} : t.same t' = true ↔ ∀ n, t.get n = t'.get n := by
  unfold Tree.same
  rw [List.all_eq_true]
  constructor
  · intro h n
    by_cases hmem : n ∈ t.names ++ t'.names
    · simpa using h n hmem
    · rw [List.mem_append, not_or] at hmem
      rw [Tree.get_eq_none_iff.mpr hmem.1, Tree.get_eq_none_iff.mpr hmem.2]
  · exact fun h n _ => by simpa using h n

/-! ## Staging -/

/-- A file of the work tree was there before, or is uploaded. -/
theorem mem_replayQueued {e : ObjectName × Blob} (h : e ∈ (replayQueued ms t).entries) :
    e ∈ t.entries ∨ e ∈ uploads ms := by
  rw [← Tree.get_eq_some_iff (replayQueued ms t) e.1 e.2, get_replayQueued, effectAt] at h
  cases hlast : (ms.filter (·.name = e.1)).getLast? with
  | none =>
    rw [hlast] at h
    exact Or.inl ((t.get_eq_some_iff e.1 e.2).mp h)
  | some m =>
    rw [hlast] at h
    obtain ⟨hm, hname⟩ := List.mem_filter.mp (List.mem_of_getLast? hlast)
    refine Or.inr (List.mem_filterMap.mpr ⟨m, hm, ?_⟩)
    rw [show m.content = some e.2 from h, of_decide_eq_true hname]
    rfl

theorem Staging.Plain.index_eq {base : Tree} (h : git.Plain base ms) :
    git.index base (replayQueued ms base) = replayQueued ms base := by
  obtain ⟨-, hignored, hstored⟩ := h
  have hentries : (git.index base (replayQueued ms base)).entries = (replayQueued ms base).entries := by
    have hkeep : (replayQueued ms base).entries.filter (fun e => e.1 ∈ base.names ∨ e.1 ∉ git.ignored) =
        (replayQueued ms base).entries := by
      rw [List.filter_eq_self]
      intro e he
      rw [decide_eq_true_eq]
      rcases mem_replayQueued he with he | he
      · exact Or.inl (List.mem_map_of_mem he)
      · exact or_iff_not_imp_right.mpr (fun hin => hignored e he (not_not.mp hin))
    have hsame : ∀ e ∈ (replayQueued ms base).entries, (e.1, git.stored e.1 e.2) = id e :=
      fun e he => Prod.ext rfl (hstored e (List.mem_append.mpr (mem_replayQueued he)))
    show List.map _ (List.filter _ _) = _
    rw [hkeep, List.map_congr_left hsame, List.map_id]
  cases hindex : git.index base (replayQueued ms base) with
  | mk entries nodup =>
    rw [hindex] at hentries
    cases htree : replayQueued ms base with
    | mk entries' nodup' =>
      rw [htree] at hentries
      simpa using hentries

/-- The condition on a step: a flush with a queue comes when the push rate and the size of
the repository allow it, and git stages the work tree. -/
def Faithful (rid : RelationshipId) (w : World) : RelayAction → Prop
  | .flush now => w.queued rid = [] ∨ (checkPushRate w.transport_push_log now).2 = .ok false
  | .replay size git =>
    match w.flush with
    | some (.replay _ queued base) =>
      w.sizeAlarm queued size = .ok () ∧ git.Plain (w.relay.treeAt base) ((w.queued rid).map (·.mutation))
    | _ => True
  | _ => True

/-! ## The queue -/

section queue

variable {rid : RelationshipId} {w w' : World}

/-- The rows are in the order of their ids. -/
def Ordered (rows : List MutationRow) : Prop := rows.Pairwise (fun r r' => r.id < r'.id)

theorem queued_eq (h : Ordered w.transport_mutations.rows) :
    w.queued rid = w.transport_mutations.rows.filter (fun r => r.relationship_id = rid ∧ r.done = false) := by
  unfold World.queued
  refine List.Pairwise.insertionSort_eq ?_
  exact (List.Pairwise.sublist List.filter_sublist h).imp (fun hlt => hlt.le)

theorem mem_queued (h : Ordered w.transport_mutations.rows) :
    r ∈ w.queued rid ↔ r ∈ w.transport_mutations.rows ∧ r.relationship_id = rid ∧ r.done = false := by
  rw [queued_eq h, List.mem_filter, decide_eq_true_eq]

theorem queued_ordered (h : Ordered w.transport_mutations.rows) : Ordered (w.queued rid) := by
  rw [queued_eq h]
  exact List.Pairwise.sublist List.filter_sublist h

/-- The relay holds the effect of a batch: some commit has it on top of the commit before,
or the tree of a commit had it already. -/
def Landed (relay : Relay) (batch : List MutationRow) : Prop :=
  ∃ base k, base ≤ k ∧ k ≤ base + 1 ∧ k ≤ relay.head ∧
    ∀ n, (relay.treeAt k).get n = effectAt (batch.map (·.mutation)) (relay.treeAt base) n

theorem Landed.append {relay : Relay} {batch : List MutationRow} (h : Landed relay batch) (tree : Tree) :
    Landed (relay ++ [tree]) batch := by
  obtain ⟨base, k, hle, hone, hk, hget⟩ := h
  refine ⟨base, k, hle, hone, ?_, fun n => ?_⟩
  · simp only [Relay.head, List.length_append] at hk ⊢
    omega
  · rw [Relay.treeAt_append _ _ hk, Relay.treeAt_append _ _ (hle.trans hk)]
    exact hget n

/-- What a flush has done so far: what it has applied is the front of the queue. -/
def Under (rid : RelationshipId) (w : World) : Flush → Prop
  | .fetch _ _ => True
  | .replay _ _ base => base ≤ w.relay.head
  | .push _ _ base tree applied => base ≤ w.relay.head ∧ ∃ batch newer, w.queued rid = batch ++ newer ∧
      applied = batch.map (·.id) ∧ tree = replayQueued (batch.map (·.mutation)) (w.relay.treeAt base)
  | .mark applied _ => ∃ batch newer, w.queued rid = batch ++ newer ∧ applied = batch.map (·.id) ∧
      Landed w.relay batch
  | .log => True

/-- The invariant of one side. -/
structure Sound (rid : RelationshipId) (w : World) : Prop where
  ordered : Ordered w.transport_mutations.rows
  fresh : ∀ r ∈ w.transport_mutations.rows, r.id < w.next_id
  named : ∀ r ∈ w.transport_mutations.rows, objectNameRe r.mutation.name = true
  /-- Mutations are done in the order of their ids. -/
  done_first : ∀ r ∈ w.transport_mutations.rows, ∀ r' ∈ w.transport_mutations.rows, r.relationship_id = rid →
    r'.relationship_id = rid → r.id < r'.id → r'.done = true → r.done = true
  under : ∀ f, w.flush = some f → Under rid w f

/-- The flush ends, or starts again. -/
theorem Sound.of_same {w₁ : World} (h : Sound rid w) (hrows : w₁.transport_mutations = w.transport_mutations)
    (hnext : w₁.next_id = w.next_id) (hunder : ∀ f, w₁.flush = some f → Under rid w₁ f) : Sound rid w₁ := by
  refine ⟨hrows ▸ h.ordered, ?_, hrows ▸ h.named, hrows ▸ h.done_first, hunder⟩
  rw [hrows, hnext]
  exact h.fresh

theorem Sound.finish (h : Sound rid w) (result : FlushResult) : Sound rid (w.finish result) :=
  h.of_same rfl rfl (fun f hf => absurd hf (by simp [World.finish]))

theorem queueMutation_rows (hs : Sound rid w) (h : queueMutation w rid' mutation = .ok w') :
    w'.transport_mutations.rows = w.transport_mutations.rows ++ [⟨w.next_id, rid', mutation, false⟩] ∧
      w'.next_id = w.next_id + 1 ∧ w'.relay = w.relay ∧ w'.flush = w.flush ∧
      objectNameRe mutation.name = true := by
  unfold queueMutation at h
  split_ifs at h with hname
  obtain rfl := Except.ok.inj h
  have hnone : w.transport_mutations.find w.next_id = none :=
    Table.find_eq_none.mpr (fun r hr heq => (hs.fresh r hr).ne heq)
  refine ⟨?_, rfl, rfl, rfl, by simpa using hname⟩
  show (w.transport_mutations.insertOrIgnore _).rows = _
  rw [Table.rows_insertOrIgnore, show MutationRow.id ⟨w.next_id, rid', mutation, false⟩ = w.next_id from rfl, hnone]
  rfl

theorem queueMutation_queued (hs : Sound rid w) (h : queueMutation w rid' mutation = .ok w') :
    Ordered w'.transport_mutations.rows ∧ ∃ more, w'.queued rid = w.queued rid ++ more := by
  obtain ⟨hrows, -, -, -, -⟩ := queueMutation_rows hs h
  have hordered : Ordered w'.transport_mutations.rows := by
    unfold Ordered
    rw [hrows, List.pairwise_append]
    refine ⟨hs.ordered, List.pairwise_singleton _ _, fun r hr r' hr' => ?_⟩
    rw [List.mem_singleton.mp hr']
    exact hs.fresh r hr
  refine ⟨hordered, ?_⟩
  rw [queued_eq hordered, queued_eq hs.ordered, hrows, List.filter_append]
  exact ⟨_, rfl⟩

theorem Sound.queue (hs : Sound rid w)
    (h : queueMutation w rid' mutation = .ok w') : Sound rid w' := by
  obtain ⟨hrows, hnext, hrelay, hflush, hname⟩ := queueMutation_rows hs h
  obtain ⟨hordered, more, hmore⟩ := queueMutation_queued hs h
  refine ⟨hordered, fun r hr => ?_, fun r hr => ?_, fun r hr r' hr' hrid hrid' hlt hdone => ?_, fun f hf => ?_⟩
  · rw [hrows, List.mem_append, List.mem_singleton] at hr
    rw [hnext]
    obtain hr | rfl := hr
    · exact (hs.fresh r hr).trans (Nat.lt_succ_self _)
    · exact Nat.lt_succ_self _
  · rw [hrows, List.mem_append, List.mem_singleton] at hr
    obtain hr | rfl := hr
    · exact hs.named r hr
    · exact hname
  · rw [hrows, List.mem_append, List.mem_singleton] at hr hr'
    obtain hr' | rfl := hr'
    · obtain hr | rfl := hr
      · exact hs.done_first r hr r' hr' hrid hrid' hlt hdone
      · exact absurd (hs.fresh r' hr') (by simpa using hlt.le)
    · exact absurd hdone (by simp)
  · rw [hflush] at hf
    have hunder := hs.under f hf
    cases f with
    | fetch => trivial
    | replay => rwa [Under, hrelay]
    | push attempt queued base tree applied =>
      obtain ⟨hbase, batch, newer, hqueued, happlied, htree⟩ := hunder
      exact ⟨hrelay ▸ hbase, batch, newer ++ more, by rw [hmore, hqueued, List.append_assoc], happlied, hrelay ▸ htree⟩
    | mark applied pushed =>
      obtain ⟨batch, newer, hqueued, happlied, hlanded⟩ := hunder
      exact ⟨batch, newer ++ more, by rw [hmore, hqueued, List.append_assoc], happlied, hrelay ▸ hlanded⟩
    | log => trivial

theorem Sound.peer (hs : Sound rid w) (tree : Tree) : Sound rid { w with relay := w.relay ++ [tree] } := by
  refine hs.of_same rfl rfl (fun f hf => ?_)
  have hunder := hs.under f hf
  have hhead : w.relay.head ≤ Relay.head (w.relay ++ [tree]) := by
    simp [Relay.head]
  cases f with
  | fetch => trivial
  | replay => exact Nat.le_trans hunder hhead
  | push attempt queued base tree' applied =>
    obtain ⟨hbase, batch, newer, hqueued, happlied, htree⟩ := hunder
    exact ⟨hbase.trans hhead, batch, newer, hqueued, happlied, by rw [htree, ← Relay.treeAt_append _ tree hbase]⟩
  | mark applied pushed =>
    obtain ⟨batch, newer, hqueued, happlied, hlanded⟩ := hunder
    exact ⟨batch, newer, hqueued, happlied, hlanded.append tree⟩
  | log => trivial

theorem Sound.begin (hs : Sound rid w) (now : Nat) : Sound rid (w.begin rid now) := by
  unfold World.begin
  dsimp only
  split_ifs
  · exact hs.finish _
  have hlog : Sound rid { w with transport_push_log := (checkPushRate w.transport_push_log now).1 } :=
    hs.of_same rfl rfl (fun f hf => hs.under f hf)
  split
  · exact hlog.finish _
  · exact hlog.finish _
  · exact hlog.of_same rfl rfl (fun f hf => by
      obtain rfl := Option.some.inj hf
      trivial)

theorem replay_flush (hs : Sound rid w) (attempt : Nat) {base size : Nat}
    (hsize : w.sizeAlarm queued size = .ok ())
    (hplain : git.Plain (w.relay.treeAt base) ((w.queued rid).map (·.mutation))) :
    ∃ tree, tree = replayQueued ((w.queued rid).map (·.mutation)) (w.relay.treeAt base) ∧
      (tree.same (w.relay.treeAt base) = true ∧ (w.replay rid attempt queued base size git).flush =
          some (.mark ((w.queued rid).map (·.id)) false) ∨
        (w.replay rid attempt queued base size git).flush =
          some (.push attempt queued base tree ((w.queued rid).map (·.id)))) := by
  have hrows : replayRows (w.queued rid) (w.relay.treeAt base) =
      .ok (replayQueued ((w.queued rid).map (·.mutation)) (w.relay.treeAt base), (w.queued rid).map (·.id)) := by
    -- The names were checked when the mutations were queued.
    have hvalid : ¬(w.queued rid).any (fun r => objectNameRe r.mutation.name = false) = true := by
      rw [Bool.not_eq_true, List.any_eq_false]
      intro r hr
      simp [hs.named r ((mem_queued hs.ordered).mp hr).1]
    rw [replayRows, if_neg hvalid]
  refine ⟨_, rfl, ?_⟩
  simp only [World.replay, hsize, hrows, hplain.index_eq, hplain.1, Bool.false_eq_true, false_or]
  by_cases hsame : (replayQueued ((w.queued rid).map (·.mutation)) (w.relay.treeAt base)).same (w.relay.treeAt base) = true
  · exact Or.inl ⟨hsame, by rw [if_pos hsame]⟩
  · exact Or.inr (by rw [if_neg hsame])

/-- A replay only moves the flush. -/
theorem replay_same (attempt : Nat) (queued : List MutationId) (base size : Nat) (git : Staging) :
    (w.replay rid attempt queued base size git).transport_mutations = w.transport_mutations ∧
      (w.replay rid attempt queued base size git).next_id = w.next_id ∧
      (w.replay rid attempt queued base size git).relay = w.relay := by
  unfold World.replay
  dsimp only
  split
  · exact ⟨rfl, rfl, rfl⟩
  split
  · exact ⟨rfl, rfl, rfl⟩
  · split_ifs <;> exact ⟨rfl, rfl, rfl⟩

theorem Sound.replay (hs : Sound rid w) {attempt : Nat} {base size : Nat}
    (hbase : base ≤ w.relay.head) (hsize : w.sizeAlarm queued size = .ok ())
    (hplain : git.Plain (w.relay.treeAt base) ((w.queued rid).map (·.mutation))) :
    Sound rid (w.replay rid attempt queued base size git) := by
  obtain ⟨hrows, hnext, hrelay⟩ := replay_same (w := w) attempt queued base size git
  refine hs.of_same hrows hnext (fun f hf => ?_)
  have hqueue : (w.replay rid attempt queued base size git).queued rid = w.queued rid ++ [] := by
    unfold World.queued
    rw [hrows, List.append_nil]
  obtain ⟨tree, htree, ⟨hsame, hflush⟩ | hflush⟩ := replay_flush hs attempt hsize hplain
  all_goals obtain rfl := Option.some.inj (hf.symm.trans hflush)
  · refine ⟨w.queued rid, [], hqueue, rfl, ?_⟩
    rw [hrelay]
    refine ⟨base, base, le_rfl, Nat.le_succ base, hbase, fun n => ?_⟩
    rw [← get_replayQueued, ← htree]
    exact (Tree.same_iff.mp hsame n).symm
  · exact ⟨hrelay ▸ hbase, w.queued rid, [], hqueue, rfl, hrelay ▸ htree⟩

theorem push_cases (attempt : Nat) (queued : List MutationId) (base : Nat) (tree : Tree) (applied : List MutationId)
    (outcome : PushOutcome) :
    let w' := w.push attempt queued base tree applied outcome
    w'.transport_mutations = w.transport_mutations ∧ w'.next_id = w.next_id ∧
      ((w'.relay = w.relay ∧ ∀ f, w'.flush = some f → f = .fetch (attempt + 1) queued) ∨
        (w.relay.head = base ∧ w'.relay = w.relay ++ [tree] ∧ ∀ f, w'.flush = some f → f = .mark applied true)) := by
  unfold World.push
  by_cases haccepted : w.relay.head = base
  · cases outcome <;> simp [haccepted, World.finish]
  · cases outcome with
    | answered =>
      simp only [haccepted, decide_false, Bool.false_and, Bool.false_eq_true, if_false]
      split_ifs <;> simp [World.finish]
    | unreported => simp [haccepted, World.finish]
    | failed => simp [haccepted, World.finish]

theorem Sound.push (hs : Sound rid w) {attempt : Nat} {base : Nat} {tree : Tree}
    {applied : List MutationId} (hunder : Under rid w (.push attempt queued base tree applied))
    (outcome : PushOutcome) :
    Sound rid (w.push attempt queued base tree applied outcome) := by
  obtain ⟨-, batch, newer, hqueued, rfl, rfl⟩ := hunder
  obtain ⟨hrows, hnext, ⟨-, hflush⟩ | ⟨rfl, hrelay, hflush⟩⟩ := push_cases (w := w) attempt queued base _ _ outcome
  · refine hs.of_same hrows hnext (fun f hf => ?_)
    rw [hflush f hf]
    trivial
  · refine hs.of_same hrows hnext (fun f hf => ?_)
    rw [hflush f hf]
    refine ⟨batch, newer, ?_, rfl, ?_⟩
    · unfold World.queued at hqueued ⊢
      rw [hrows, hqueued]
    · rw [hrelay]
      refine ⟨w.relay.head, w.relay.head + 1, Nat.le_succ _, le_rfl, ?_, fun n => ?_⟩
      · simp [Relay.head]
      · rw [Relay.treeAt_append _ _ le_rfl, ← get_replayQueued]
        exact congrArg (Tree.get · n) (Relay.treeAt_append_last w.relay _)

theorem mem_markMutationsDone {rows : Table MutationRow.id} {ids : List MutationId} {r' : MutationRow} :
    r' ∈ (markMutationsDone rows ids).rows ↔
      ∃ r ∈ rows.rows, (if r.id ∈ ids then { r with done := true } else r) = r' :=
  List.mem_map

/-- The front of the queue is done. -/
theorem Sound.marked (hs : Sound rid w) {batch newer : List MutationRow} (hqueued : w.queued rid = batch ++ newer) :
    Sound rid { w with
      transport_mutations := markMutationsDone w.transport_mutations (batch.map (·.id)), flush := none } := by
  have hkeep : ∀ r : MutationRow, (if r.id ∈ batch.map (·.id) then { r with done := true } else r).id = r.id ∧
      (if r.id ∈ batch.map (·.id) then { r with done := true } else r).relationship_id = r.relationship_id ∧
      (if r.id ∈ batch.map (·.id) then { r with done := true } else r).mutation = r.mutation := by
    intro r
    split_ifs <;> exact ⟨rfl, rfl, rfl⟩
  refine ⟨?_, fun r hr => ?_, fun r hr => ?_, fun r hr r' hr' hrid hrid' hlt hdone => ?_,
    fun f hf => absurd hf (by simp)⟩
  · unfold Ordered markMutationsDone Table.map
    rw [List.pairwise_map]
    exact hs.ordered.imp (fun hlt => by rwa [(hkeep _).1, (hkeep _).1])
  · obtain ⟨r₀, hr₀, rfl⟩ := mem_markMutationsDone.mp hr
    rw [(hkeep r₀).1]
    exact hs.fresh r₀ hr₀
  · obtain ⟨r₀, hr₀, rfl⟩ := mem_markMutationsDone.mp hr
    rw [(hkeep r₀).2.2]
    exact hs.named r₀ hr₀
  · obtain ⟨r₀, hr₀, rfl⟩ := mem_markMutationsDone.mp hr
    obtain ⟨r₁, hr₁, rfl⟩ := mem_markMutationsDone.mp hr'
    rw [(hkeep r₀).1, (hkeep r₁).1] at hlt
    rw [(hkeep r₀).2.1] at hrid
    rw [(hkeep r₁).2.1] at hrid'
    by_cases hmarked : r₀.id ∈ batch.map (·.id)
    · rw [if_pos hmarked]
    rw [if_neg hmarked]
    by_cases hmarked' : r₁.id ∈ batch.map (·.id)
    · -- A queued row before one of the batch is in the batch, since the queue is ordered.
      by_contra hnot
      have hmem : r₀ ∈ batch ++ newer := by
        rw [← hqueued, mem_queued hs.ordered]
        exact ⟨hr₀, hrid, by simpa using hnot⟩
      obtain hmem | hmem := List.mem_append.mp hmem
      · exact hmarked (List.mem_map_of_mem hmem)
      · obtain ⟨x, hx, hxid⟩ := List.mem_map.mp hmarked'
        have hordered : Ordered (w.queued rid) := queued_ordered hs.ordered
        unfold Ordered at hordered
        rw [hqueued, List.pairwise_append] at hordered
        have hlater : x.id < r₀.id := hordered.2.2 x hx r₀ hmem
        exact Nat.lt_asymm hlt (hxid ▸ hlater)
    · rw [if_neg hmarked'] at hdone
      exact hs.done_first r₀ hr₀ r₁ hr₁ hrid hrid' hlt hdone

theorem Sound.next (hs : Sound rid w) (hok : Faithful rid w a) (hstep : w.next rid a = some w') :
    Sound rid w' := by
  cases World.step_of_next hstep with
  | queue hq => exact hs.queue hq
  | peer => exact hs.peer _
  | flush => exact hs.begin _
  | fetch =>
    exact hs.of_same rfl rfl (fun f hf => by
      obtain rfl := Option.some.inj hf
      exact le_rfl)
  | replay hflush =>
    simp only [Faithful, hflush] at hok
    exact hs.replay (hs.under _ hflush) hok.1 hok.2
  | push hflush => exact hs.push (hs.under _ hflush) _
  | marked hflush =>
    obtain ⟨batch, newer, hqueued, rfl, -⟩ := hs.under _ hflush
    exact (hs.marked hqueued).of_same rfl rfl (fun f hf => by
      obtain rfl := Option.some.inj hf
      trivial)
  | noop hflush =>
    obtain ⟨batch, newer, hqueued, rfl, -⟩ := hs.under _ hflush
    exact (hs.marked hqueued).of_same rfl rfl (fun f hf => absurd hf (by simp [World.finish]))
  | log => exact hs.of_same rfl rfl (fun f hf => absurd hf (by simp [World.finish]))
  | fail => exact hs.finish _
  | crash => exact hs.of_same rfl rfl (fun f hf => absurd hf (by simp))

/-- A push that is accepted puts the front of the queue, in the order of the ids, on the
tip of the relay. -/
structure Accepted (w w' : World) (batch newer : List MutationRow) : Prop where
  applied : ∃ attempt queued tree, w.flush = some (.push attempt queued w.relay.head tree (batch.map (·.id))) ∧
    w'.relay = w.relay ++ [tree]
  tree : ∀ n, w'.relay.tip.get n = effectAt (batch.map (·.mutation)) w.relay.tip n
  others : ∀ n, (∀ r ∈ batch, r.mutation.name ≠ n) → w'.relay.tip.get n = w.relay.tip.get n

theorem tip_append (relay : Relay) (tree : Tree) : Relay.tip (relay ++ [tree]) = tree := by
  rw [Relay.tip, Relay.head, List.length_append, List.length_singleton, Relay.treeAt_append_last]

/-- The object of a sample upload. -/
def sampleObject (c : Char) : ObjectName := List.replicate 32 c ++ ['.', 'j', 's', 'o', 'n']

/-- An upload is pushed, and the next one waits for the rate limit. -/
def deferredRun : List RelayAction :=
  [.queue "rel1" (.upload (sampleObject 'a') [1]), .flush 0, .fetch, .replay 0 {}, .push .answered, .mark, .log 0,
    .queue "rel1" (.upload (sampleObject 'b') [2])]

instance (rid : RelationshipId) (w : World) (a : RelayAction) : Decidable (Faithful rid w a) := by
  unfold Faithful
  split
  · infer_instance
  · split <;> infer_instance
  · infer_instance

end queue

end MuseAgentSocial.Transports
