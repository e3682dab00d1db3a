import MuseAgentSocial.Lib.Machine

/-!
# The mirror lock

A model of `mirror_lock` of `transports/base.py`: an exclusive `flock` on a file of the
relationship, which a thread that has it may take again.

* `Host` has the lock files, the locks of the kernel, and for each thread what it has in
  `_lock_registry`, the file that it waits with, and the `with` blocks that it is in.
* `Host.step` is one step of any thread of any process.  A block ends in the same way when
  its body returns and when it raises.  The wait may be given up at any time, by the timeout
  or by an exception, a process may die at any time, and a teardown may unlink the file.
* `Good` ties the registry to the locks and to the blocks, and `good_step` keeps it.

The lock is on the file and not on its name, and a teardown unlinks the file without the
lock.  `mirror_lock_exclusive` and `mirror_lock_free` are for runs in which nobody unlinks a
file that is in use, and `unlinked_not_exclusive` says what happens when somebody does.
-/

namespace MuseAgentSocial.MirrorLock

/-! ## The state -/

/-- A thread of a process, with its `get_ident()`. -/
structure Thread where
  process : Nat
  ident : Nat
  deriving DecidableEq, Repr

/-- An open lock file, with the thread that has opened it at the path. -/
structure Descriptor where
  id : Nat
  inode : Nat
  thread : Thread
  path : String
  deriving DecidableEq, Repr

/-- A value of `_lock_registry`. -/
structure Entry where
  fd : Descriptor
  count : Int

/-- A `with mirror_lock(...)` block.  It is `nested` when the thread has had the lock before. -/
inductive Block where
  | outer (path : String)
  | nested (path : String)
  deriving DecidableEq, Repr

def Block.path : Block → String
  | .outer path => path
  | .nested path => path

structure Host where
  /-- The lock files, by their paths. -/
  files : String → Option Nat := fun _ => none
  /-- The next number of a file or of an open file. -/
  next : Nat := 0
  /-- The open file that has the lock of a file. -/
  flocks : Nat → Option Descriptor := fun _ => none
  /-- `_lock_registry` of the process of the thread, at the keys with its ident. -/
  registry : Thread → String → Option Entry := fun _ _ => none
  /-- The open file of a thread that tries to lock it. -/
  waiting : Thread → Option Descriptor := fun _ => none
  /-- The blocks of a thread, the innermost first. -/
  blocks : Thread → List Block := fun _ => []

namespace Host

variable (S : Host) (t : Thread) (p : String)

/-- Set a key of the registry. -/
def register (e : Option Entry) : Host :=
  { S with registry := fun t' p' => if t' = t ∧ p' = p then e else S.registry t' p' }

def wait (d : Option Descriptor) : Host := { S with waiting := fun t' => if t' = t then d else S.waiting t' }

def setBlocks (bs : List Block) : Host := { S with blocks := fun t' => if t' = t then bs else S.blocks t' }

/-- `LOCK_UN` and `close()` -/
def close (d : Descriptor) : Host := { S with flocks := fun i => (S.flocks i).filter (· ≠ d) }

/-! ## The steps -/

/-- The start of a block, up to the first try. -/
def enter : Host :=
  match S.registry t p with
  | some entry => (S.register t p (some { entry with count := entry.count + 1 })).setBlocks t (.nested p :: S.blocks t)
  | none =>
    let inode := (S.files p).getD S.next
    { S.wait t (some ⟨S.next, inode, t, p⟩) with
      files := fun p' => if p' = p then some inode else S.files p'
      next := S.next + 1 }

/-- A try to lock the file, which goes on with the body of the block. -/
def acquire (d : Descriptor) : Option Host :=
  if S.flocks d.inode = none ∨ S.flocks d.inode = some d then
    some ((({ S with flocks := fun i => if i = d.inode then some d else S.flocks i }.register t d.path (some ⟨d, 1⟩)).wait
      t none).setBlocks t (.outer d.path :: S.blocks t))
  else none

/-- The `finally` of a block. -/
def exit : Block → Host
  | .outer path =>
    match S.registry t path with
    | some entry => (S.register t path none).close entry.fd
    | none => S
  | .nested path =>
    match S.registry t path with
    | some entry =>
      if entry.count - 1 ≤ 0 then (S.close entry.fd).register t path none
      else S.register t path (some { entry with count := entry.count - 1 })
    | none => S

/-- A process is gone, and the kernel closes its files. -/
def die (process : Nat) : Host :=
  { S with
    flocks := fun i => (S.flocks i).filter (fun d => d.thread.process ≠ process)
    registry := fun t p => if t.process = process then none else S.registry t p
    waiting := fun t => if t.process = process then none else S.waiting t
    blocks := fun t => if t.process = process then [] else S.blocks t }

end Host

/-- What happens next. -/
inductive Action where
  | enter (t : Thread) (path : String)
  | acquire (t : Thread)
  /-- The timeout or any exception while the thread waits. -/
  | giveUp (t : Thread)
  /-- The innermost block ends. -/
  | leave (t : Thread)
  | die (process : Nat)
  /-- A teardown unlinks the lock file. -/
  | unlink (path : String)

/-- One step.  A thread that waits does nothing else. -/
def Host.step (S : Host) : Action → Option Host
  | .enter t path => if (S.waiting t).isNone then some (S.enter t path) else none
  | .acquire t => (S.waiting t).bind (S.acquire t)
  | .giveUp t => (S.waiting t).map (fun d => (S.close d).wait t none)
  | .leave t =>
    match S.waiting t, S.blocks t with
    | none, b :: bs => some ((S.exit t b).setBlocks t bs)
    | _, _ => none
  | .die process => some (S.die process)
  | .unlink path => some { S with files := fun p => if p = path then none else S.files p }

/-- Any threads of any processes. -/
def locking : Machine Host Action where
  init S := S = {}
  step := Host.step

/-- The thread is in a block of the lock. -/
def Host.Inside (S : Host) (t : Thread) (p : String) : Prop := ∃ b ∈ S.blocks t, b.path = p

/-- The thread waits for the lock. -/
def Host.Waits (S : Host) (t : Thread) (p : String) : Prop := ∃ d, S.waiting t = some d ∧ d.path = p

/-! ## The invariant -/

/-- The blocks at a path. -/
def only (p : String) (bs : List Block) : List Block := bs.filter (fun b => b.path = p)

/-- The blocks of a thread at a path belong to what is registered: the outermost block has
opened the file, and the others are counted. -/
def Nest (p : String) : Option Entry → List Block → Prop
  | none, bs => bs = []
  | some entry, bs => ∃ n : Nat, entry.count = n + 1 ∧ bs = List.replicate n (.nested p) ++ [.outer p]

/-- An open file is the one at its path. -/
def Host.Linked (S : Host) (d : Descriptor) : Prop := S.files d.path = some d.inode

/-- What holds of each thread and each lock. -/
structure Good (S : Host) : Prop where
  entry : ∀ t p e, S.registry t p = some e →
    (e.fd.thread = t ∧ e.fd.path = p) ∧ S.flocks e.fd.inode = some e.fd ∧ S.Linked e.fd
  flock : ∀ i d, S.flocks i = some d → d.inode = i ∧ ∃ e, S.registry d.thread d.path = some e ∧ e.fd = d
  wait : ∀ t d, S.waiting t = some d → d.thread = t ∧ S.registry t d.path = none ∧ S.Linked d
  nest : ∀ t p, Nest p (S.registry t p) (only p (S.blocks t))
  fresh : ∀ p i, S.files p = some i → i < S.next
  distinct : ∀ p p' i, S.files p = some i → S.files p' = some i → p = p'

/-- Nobody unlinks a lock file that is in use. -/
def Keeps (S : Host) (a : Action) : Prop := ∀ p, a = .unlink p → ∀ t, ¬S.Inside t p ∧ ¬S.Waits t p

section steps

variable {S S' : Host} {t : Thread} {p : String}

theorem good_init : Good {} :=
  ⟨fun _ _ _ h => (by cases h), fun _ _ h => (by cases h), fun _ _ h => (by cases h), fun _ _ => rfl,
    fun _ _ h => (by cases h), fun _ _ _ h => (by cases h)⟩

theorem only_cons_self (b : Block) (bs : List Block) (hb : b.path = p) : only p (b :: bs) = b :: only p bs := by
  simp [only, hb]

theorem only_cons_of_ne {b : Block} {bs : List Block} (hb : b.path = p) {p' : String} (hp : p' ≠ p) :
    only p' (b :: bs) = only p' bs := by
  have hne : p ≠ p' := fun heq => hp heq.symm
  simp [only, hb, hne]

/-- Two threads never have the lock of one file. -/
theorem Good.entry_unique (h : Good S) {t t' : Thread} {p p' : String} {e e' : Entry} (he : S.registry t p = some e)
    (he' : S.registry t' p' = some e') (hinode : e.fd.inode = e'.fd.inode) : t = t' ∧ p = p' := by
  obtain ⟨⟨ht, hp⟩, hlock, -⟩ := h.entry t p e he
  obtain ⟨⟨ht', hp'⟩, hlock', -⟩ := h.entry t' p' e' he'
  rw [hinode, hlock'] at hlock
  have hfd : e'.fd = e.fd := Option.some.inj hlock
  exact ⟨by rw [← ht, ← ht', hfd], by rw [← hp, ← hp', hfd]⟩

theorem Good.inside_iff (h : Good S) : S.Inside t p ↔ ∃ e, S.registry t p = some e := by
  have hmem : S.Inside t p ↔ only p (S.blocks t) ≠ [] := by
    rw [← List.length_pos_iff, List.length_pos_iff_exists_mem]
    simp only [Host.Inside, only, List.mem_filter, decide_eq_true_eq]
  rw [hmem]
  have hnest := h.nest t p
  cases hreg : S.registry t p with
  | none =>
    rw [hreg] at hnest
    simpa using (show only p (S.blocks t) = [] from hnest)
  | some e =>
    rw [hreg] at hnest
    obtain ⟨n, -, hblocks⟩ := hnest
    simp [hblocks]

theorem Good.not_own (h : Good S) {d : Descriptor} (hwait : S.waiting t = some d) (i : Nat) : S.flocks i ≠ some d := by
  intro hlock
  obtain ⟨-, e, he, -⟩ := h.flock _ _ hlock
  obtain ⟨ht, hnone, -⟩ := h.wait t d hwait
  rw [ht, hnone] at he
  cases he

theorem Good.nest_change (h : Good S) {entry : Option Entry} {bs : List Block}
    (hother : ∀ p', p' ≠ p → only p' bs = only p' (S.blocks t)) (hnest : Nest p entry (only p bs)) (t' : Thread)
    (p' : String) :
    Nest p' (if t' = t ∧ p' = p then entry else S.registry t' p') (only p' (if t' = t then bs else S.blocks t')) := by
  by_cases ht : t' = t
  · by_cases hp : p' = p
    · rw [if_pos ⟨ht, hp⟩, if_pos ht, hp]
      exact hnest
    · rw [if_neg (fun hsame => hp hsame.2), if_pos ht, hother p' hp, ht]
      exact h.nest t p'
  · rw [if_neg (fun hsame => ht hsame.1), if_neg ht]
    exact h.nest t' p'

/-- A nested block starts or ends: only the count changes. -/
theorem good_recount (h : Good S) {e e' : Entry} {bs : List Block} (hreg : S.registry t p = some e) (hfd : e'.fd = e.fd)
    (hother : ∀ p', p' ≠ p → only p' bs = only p' (S.blocks t)) (hnest : Nest p (some e') (only p bs)) :
    Good ((S.register t p (some e')).setBlocks t bs) := by
  refine ⟨?_, ?_, ?_, h.nest_change hother hnest, h.fresh, h.distinct⟩
  · intro t' p' e'' he
    simp only [Host.setBlocks, Host.register] at he ⊢
    split_ifs at he with hsame
    · cases he
      rw [hfd, hsame.1, hsame.2]
      exact h.entry t p e hreg
    · exact h.entry t' p' e'' he
  · intro i d hd
    obtain ⟨hinode, e'', he, hd'⟩ := h.flock i d hd
    simp only [Host.setBlocks, Host.register]
    by_cases hsame : d.thread = t ∧ d.path = p
    · rw [hsame.1, hsame.2, hreg] at he
      cases he
      exact ⟨hinode, e', if_pos hsame, hfd.trans hd'⟩
    · exact ⟨hinode, e'', by rw [if_neg hsame, he], hd'⟩
  · intro t' d hd
    obtain ⟨ht, hnone, hlinked⟩ := h.wait t' d hd
    simp only [Host.setBlocks, Host.register]
    refine ⟨ht, ?_, hlinked⟩
    rw [if_neg, hnone]
    rintro ⟨hsame, hp⟩
    rw [hsame, hp, hreg] at hnone
    cases hnone

/-- The end of the block that has opened the file gives the lock back. -/
theorem good_unregister (h : Good S) {e : Entry} {bs : List Block} (hreg : S.registry t p = some e)
    (hother : ∀ p', p' ≠ p → only p' bs = only p' (S.blocks t)) (hempty : only p bs = []) :
    Good (((S.register t p none).close e.fd).setBlocks t bs) := by
  refine ⟨?_, ?_, ?_, h.nest_change hother hempty, h.fresh, h.distinct⟩
  · intro t' p' e' he'
    simp only [Host.setBlocks, Host.close, Host.register] at he' ⊢
    split_ifs at he' with hsame
    obtain ⟨hnamed, hlock, hlinked⟩ := h.entry t' p' e' he'
    have hne : e'.fd ≠ e.fd := fun hfd => hsame (h.entry_unique he' hreg (congrArg Descriptor.inode hfd))
    rw [hlock]
    exact ⟨hnamed, by simp [hne], hlinked⟩
  · intro i d hd
    simp only [Host.setBlocks, Host.close, Host.register] at hd ⊢
    obtain ⟨hlock, hne⟩ := Option.filter_eq_some_iff.mp hd
    obtain ⟨hinode, e', he', hfd⟩ := h.flock i d hlock
    refine ⟨hinode, e', ?_, hfd⟩
    rw [if_neg, he']
    rintro ⟨ht, hp⟩
    rw [ht, hp, hreg] at he'
    cases he'
    simp [hfd] at hne
  · intro t' d hd
    obtain ⟨ht, hnone, hlinked⟩ := h.wait t' d hd
    simp only [Host.setBlocks, Host.close, Host.register]
    refine ⟨ht, ?_, hlinked⟩
    split_ifs
    · rfl
    · exact hnone

/-- The start of a block where the thread has no lock: the file is there, or it is created. -/
theorem good_open (h : Good S) (hreg : S.registry t p = none) : Good (S.enter t p) := by
  unfold Host.enter
  rw [hreg]
  have hfile : ∀ d, S.Linked d → (if d.path = p then some ((S.files p).getD S.next) else S.files d.path) = some d.inode := by
    intro d hd
    split_ifs with hp
    · rw [← hp, show S.files d.path = some d.inode from hd]
      rfl
    · exact hd
  have hcases : ∀ p' i, (if p' = p then some ((S.files p).getD S.next) else S.files p') = some i →
      S.files p' = some i ∨ (p' = p ∧ i = S.next) := by
    intro p' i hi
    split_ifs at hi with hp
    · cases hold : S.files p with
      | some j =>
        rw [hold] at hi
        exact Or.inl (by rw [hp, hold]; exact hi)
      | none =>
        rw [hold] at hi
        exact Or.inr ⟨hp, (Option.some.inj hi).symm⟩
    · exact Or.inl hi
  refine ⟨?_, h.flock, ?_, h.nest, ?_, ?_⟩
  · intro t' p' e he
    obtain ⟨hnamed, hlock, hlinked⟩ := h.entry t' p' e he
    exact ⟨hnamed, hlock, hfile e.fd hlinked⟩
  · intro t' d hd
    simp only [Host.wait] at hd
    split_ifs at hd with ht
    · cases hd
      exact ⟨ht.symm, ht ▸ hreg, if_pos rfl⟩
    · obtain ⟨hthread, hnone, hlinked⟩ := h.wait t' d hd
      exact ⟨hthread, hnone, hfile d hlinked⟩
  · intro p' i hi
    show i < S.next + 1
    cases hcases p' i hi with
    | inl hold =>
      have := h.fresh p' i hold
      omega
    | inr hnew => omega
  · intro p₁ p₂ i h₁ h₂
    cases hcases p₁ i h₁ with
    | inl hold₁ =>
      have hlt := h.fresh p₁ i hold₁
      cases hcases p₂ i h₂ with
      | inl hold₂ => exact h.distinct p₁ p₂ i hold₁ hold₂
      | inr hnew₂ => omega
    | inr hnew₁ =>
      cases hcases p₂ i h₂ with
      | inl hold₂ =>
        have hlt := h.fresh p₂ i hold₂
        omega
      | inr hnew₂ => exact hnew₁.1.trans hnew₂.1.symm

theorem good_enter (h : Good S) : Good (S.enter t p) := by
  cases hreg : S.registry t p with
  | some e =>
    have hnest := h.nest t p
    rw [hreg] at hnest
    obtain ⟨n, hcount, hblocks⟩ := hnest
    simp only [Host.enter, hreg]
    refine good_recount h hreg rfl (fun p' hp => only_cons_of_ne rfl hp) ⟨n + 1, ?_, ?_⟩
    · show e.count + 1 = _
      omega
    · rw [only_cons_self (p := p) (.nested p) _ rfl, hblocks]
      rfl
  | none => exact good_open h hreg

theorem good_acquire {d : Descriptor} (h : Good S) (hwait : S.waiting t = some d) (hstep : S.acquire t d = some S') :
    Good S' := by
  obtain ⟨hthread, hnone, hlinked⟩ := h.wait t d hwait
  unfold Host.acquire at hstep
  split_ifs at hstep with hfree
  have hlock : S.flocks d.inode = none := by
    cases hfree with
    | inl hfree => exact hfree
    | inr hown => exact absurd hown (h.not_own hwait _)
  cases hstep
  have hnest := h.nest t d.path
  rw [hnone] at hnest
  have hopened : Nest d.path (some ⟨d, 1⟩) (only d.path (.outer d.path :: S.blocks t)) :=
    ⟨0, rfl, by rw [only_cons_self (p := d.path) (.outer d.path) _ rfl, show only d.path (S.blocks t) = [] from hnest]; rfl⟩
  refine ⟨?_, ?_, ?_, h.nest_change (fun p' hp => only_cons_of_ne rfl hp) hopened, h.fresh, h.distinct⟩
  · intro t' p' e he
    simp only [Host.setBlocks, Host.wait, Host.register] at he ⊢
    split_ifs at he with hsame
    · cases he
      exact ⟨⟨hthread.trans hsame.1.symm, hsame.2.symm⟩, if_pos rfl, hlinked⟩
    · obtain ⟨hnamed, hkept, hlinked'⟩ := h.entry t' p' e he
      have hne : e.fd.inode ≠ d.inode := by
        intro heq
        rw [heq, hlock] at hkept
        cases hkept
      exact ⟨hnamed, by rw [if_neg hne, hkept], hlinked'⟩
  · intro i d' hd'
    simp only [Host.setBlocks, Host.wait, Host.register] at hd' ⊢
    split_ifs at hd' with hi
    · cases hd'
      exact ⟨hi.symm, ⟨d, 1⟩, if_pos ⟨hthread, rfl⟩, rfl⟩
    · obtain ⟨hinode, e, he, hfd⟩ := h.flock i d' hd'
      refine ⟨hinode, e, ?_, hfd⟩
      rw [if_neg, he]
      rintro ⟨ht, hp⟩
      rw [ht, hp, hnone] at he
      cases he
  · intro t' d' hd'
    simp only [Host.setBlocks, Host.wait, Host.register] at hd' ⊢
    split_ifs at hd' with ht
    obtain ⟨hthread', hnone', hlinked'⟩ := h.wait t' d' hd'
    exact ⟨hthread', by rw [if_neg (fun hsame => ht hsame.1), hnone'], hlinked'⟩

theorem good_giveUp {d : Descriptor} (h : Good S) (hwait : S.waiting t = some d) : Good ((S.close d).wait t none) := by
  have hclose : (S.close d).flocks = S.flocks := by
    funext i
    show (S.flocks i).filter (· ≠ d) = S.flocks i
    cases hlock : S.flocks i with
    | none => rfl
    | some d' =>
      have hne : d' ≠ d := fun heq => h.not_own hwait i (heq ▸ hlock)
      simp [hne]
  refine ⟨?_, ?_, ?_, h.nest, h.fresh, h.distinct⟩
  · intro t' p' e he
    obtain ⟨hnamed, hlock, hlinked⟩ := h.entry t' p' e he
    exact ⟨hnamed, (congrFun hclose _).trans hlock, hlinked⟩
  · intro i d' hd'
    exact h.flock i d' ((congrFun hclose i).symm.trans hd')
  · intro t' d' hd'
    simp only [Host.wait] at hd'
    split_ifs at hd'
    exact h.wait t' d' hd'

theorem good_leave {b : Block} {bs : List Block} (h : Good S) (hblocks : S.blocks t = b :: bs) :
    Good ((S.exit t b).setBlocks t bs) := by
  have hother : ∀ p', p' ≠ b.path → only p' bs = only p' (S.blocks t) := fun p' hp => by
    rw [hblocks, only_cons_of_ne rfl hp]
  have hinside : S.Inside t b.path := ⟨b, by rw [hblocks]; exact List.mem_cons_self, rfl⟩
  obtain ⟨e, hreg⟩ := h.inside_iff.mp hinside
  have hnest := h.nest t b.path
  rw [hreg, hblocks, only_cons_self b bs rfl] at hnest
  obtain ⟨n, hcount, hlist⟩ := hnest
  cases b with
  | outer p =>
    have hempty : only p bs = [] := by
      cases n with
      | zero => exact (List.cons.inj hlist).2
      | succ n => cases (List.cons.inj hlist).1
    have hexit : S.exit t (.outer p) = (S.register t p none).close e.fd := by
      simp only [Host.exit, show S.registry t p = some e from hreg]
    rw [hexit]
    exact good_unregister h hreg hother hempty
  | nested p =>
    cases n with
    | zero => cases (List.cons.inj hlist).1
    | succ n =>
      have hexit : S.exit t (.nested p) = S.register t p (some { e with count := e.count - 1 }) := by
        simp only [Host.exit, show S.registry t p = some e from hreg]
        exact if_neg (by omega)
      have hcounted : Nest p (some { e with count := e.count - 1 }) (only p bs) := by
        refine ⟨n, ?_, (List.cons.inj hlist).2⟩
        show e.count - 1 = _
        omega
      rw [hexit]
      exact good_recount h hreg rfl hother hcounted

theorem good_die (h : Good S) (process : Nat) : Good (S.die process) := by
  refine ⟨?_, ?_, ?_, ?_, h.fresh, h.distinct⟩
  · intro t' p' e he
    simp only [Host.die] at he ⊢
    split_ifs at he with hprocess
    obtain ⟨hnamed, hlock, hlinked⟩ := h.entry t' p' e he
    rw [hlock]
    exact ⟨hnamed, by simp [hnamed.1, hprocess], hlinked⟩
  · intro i d hd
    simp only [Host.die] at hd ⊢
    obtain ⟨hlock, hprocess⟩ := Option.filter_eq_some_iff.mp hd
    obtain ⟨hinode, e, he, hfd⟩ := h.flock i d hlock
    refine ⟨hinode, e, ?_, hfd⟩
    rw [if_neg (by simpa using hprocess), he]
  · intro t' d hd
    simp only [Host.die] at hd ⊢
    split_ifs at hd with hprocess
    rw [if_neg hprocess]
    exact h.wait t' d hd
  · intro t' p'
    simp only [Host.die]
    split_ifs
    · rfl
    · exact h.nest t' p'

theorem good_unlink (h : Good S) (hidle : ∀ t, ¬S.Inside t p ∧ ¬S.Waits t p) :
    Good { S with files := fun p' => if p' = p then none else S.files p' } := by
  have hfile : ∀ p' i, (if p' = p then none else S.files p') = some i → S.files p' = some i := by
    intro p' i hi
    split_ifs at hi
    exact hi
  refine ⟨?_, h.flock, ?_, h.nest, fun p' i hi => h.fresh p' i (hfile p' i hi),
    fun p₁ p₂ i h₁ h₂ => h.distinct p₁ p₂ i (hfile p₁ i h₁) (hfile p₂ i h₂)⟩
  · intro t p' e he
    obtain ⟨hnamed, hlock, hlinked⟩ := h.entry t p' e he
    have hp : e.fd.path ≠ p := fun hp => (hidle t).1 (h.inside_iff.mpr ⟨e, by rw [← hp, hnamed.2, he]⟩)
    exact ⟨hnamed, hlock, (if_neg hp).trans hlinked⟩
  · intro t d hd
    obtain ⟨hthread, hnone, hlinked⟩ := h.wait t d hd
    have hp : d.path ≠ p := fun hp => (hidle t).2 ⟨d, hd, hp⟩
    exact ⟨hthread, hnone, (if_neg hp).trans hlinked⟩

theorem good_step (h : Good S) {a : Action} (hkeeps : Keeps S a) (hstep : S.step a = some S') : Good S' := by
  cases a with
  | enter t p =>
    simp only [Host.step] at hstep
    split_ifs at hstep
    cases hstep
    exact good_enter h
  | acquire t =>
    obtain ⟨d, hwait, hacquire⟩ := Option.bind_eq_some_iff.mp hstep
    exact good_acquire h hwait hacquire
  | giveUp t =>
    obtain ⟨d, hwait, rfl⟩ := Option.map_eq_some_iff.mp hstep
    exact good_giveUp h hwait
  | leave t =>
    simp only [Host.step] at hstep
    split at hstep
    · rename_i b bs _ hblocks
      cases hstep
      exact good_leave h hblocks
    · cases hstep
  | die process =>
    cases hstep
    exact good_die h process
  | unlink path =>
    cases hstep
    exact good_unlink h (hkeeps path rfl)

end steps

/-! ## Every run -/

section runs

variable {S : Host} {t t' : Thread} {p : String}

theorem good_of_reach (h : locking.Reach Keeps S) : Good S := by
  refine h.invariant (P := Good) (fun S hS => ?_) (fun _ _ _ hS hkeeps hstep => good_step hS hkeeps hstep)
  rw [show S = {} from hS]
  exact good_init

theorem reach_of_run {S' : Host} {as : List Action} (h : locking.Reach Keeps S) (has : ∀ a ∈ as, ∀ p, a ≠ .unlink p)
    (hrun : locking.run S as = some S') : locking.Reach Keeps S' := by
  induction as generalizing S with
  | nil => exact Option.some.inj hrun ▸ h
  | cons a as ih =>
    obtain ⟨S₁, hstep, hrest⟩ := Option.bind_eq_some_iff.mp hrun
    have hkeeps : Keeps S a := fun p ha => absurd ha (has a List.mem_cons_self p)
    exact ih (h.next hkeeps hstep) (fun b hb => has b (List.mem_cons_of_mem _ hb)) hrest

def firstThread : Thread := ⟨1, 1⟩

def secondThread : Thread := ⟨2, 1⟩

/-- The first thread is in a block within a block, and the second thread waits. -/
def oneWaits : List Action :=
  [.enter firstThread "r", .acquire firstThread, .enter firstThread "r", .enter secondThread "r"]

/-- Two threads, of one process or of two, are never in blocks of one lock at the same time. -/
theorem mirror_lock_exclusive (h : locking.Reach Keeps S) (ht : S.Inside t p) (ht' : S.Inside t' p) : t = t' := by
  have hgood := good_of_reach h
  obtain ⟨e, he⟩ := hgood.inside_iff.mp ht
  obtain ⟨e', he'⟩ := hgood.inside_iff.mp ht'
  obtain ⟨hnamed, -, hlinked⟩ := hgood.entry t p e he
  obtain ⟨hnamed', -, hlinked'⟩ := hgood.entry t' p e' he'
  have hinode : some e.fd.inode = some e'.fd.inode := by
    rw [← hlinked, ← hlinked', hnamed.2, hnamed'.2]
  exact (hgood.entry_unique he he' (Option.some.inj hinode)).1

theorem mirror_lock_exclusive_sample :
    ∃ S, locking.Reach Keeps S ∧ S.Inside firstThread "r" ∧ S.Waits secondThread "r" ∧
      ∀ t, S.Inside t "r" → t = firstThread := by
  have hrun : (locking.run {} oneWaits).map (fun S => (S.blocks firstThread, S.waiting secondThread)) =
      some ([.nested "r", .outer "r"], some ⟨1, 0, secondThread, "r"⟩) := rfl
  obtain ⟨S, hS, heq⟩ := Option.map_eq_some_iff.mp hrun
  obtain ⟨hblocks, hwaiting⟩ := Prod.mk.inj heq
  have hreach : locking.Reach Keeps S := reach_of_run (.start rfl) (by simp [oneWaits]) hS
  have hinside : S.Inside firstThread "r" := ⟨.outer "r", by simp [hblocks], rfl⟩
  exact ⟨S, hreach, hinside, ⟨_, hwaiting, rfl⟩, fun t ht => mirror_lock_exclusive hreach ht hinside⟩

/-- Where the file of a lock in use is unlinked, another thread locks a file of its own. -/
theorem unlinked_not_exclusive :
    ∃ S, locking.Reachable S ∧ S.Inside firstThread "r" ∧ S.Inside secondThread "r" := by
  have hrun : (locking.run {} [.enter firstThread "r", .acquire firstThread, .unlink "r", .enter secondThread "r",
      .acquire secondThread]).map (fun S => (S.blocks firstThread, S.blocks secondThread)) =
        some ([.outer "r"], [.outer "r"]) := rfl
  obtain ⟨S, hS, heq⟩ := Option.map_eq_some_iff.mp hrun
  obtain ⟨hfirst, hsecond⟩ := Prod.mk.inj heq
  exact ⟨S, Machine.reachable_of_run rfl hS, ⟨.outer "r", by simp [hfirst], rfl⟩, ⟨.outer "r", by simp [hsecond], rfl⟩⟩

/-- A thread that waits gets the lock at its next try exactly if nobody is in a block of it:
whatever the others have done, by timeouts, exceptions and deaths, nothing is left locked. -/
theorem mirror_lock_free (h : locking.Reach Keeps S) (hwait : S.Waits t p) :
    (S.step (.acquire t)).isSome = true ↔ ∀ t', ¬S.Inside t' p := by
  have hgood := good_of_reach h
  obtain ⟨d, hd, rfl⟩ := hwait
  obtain ⟨-, -, hlinked⟩ := hgood.wait t d hd
  have hstep : (S.step (.acquire t)).isSome = true ↔ S.flocks d.inode = none := by
    simp only [Host.step, hd, Option.bind_some, Host.acquire]
    split_ifs with hfree
    · simpa [hgood.not_own hd] using hfree
    · simpa using fun hnone => hfree (Or.inl hnone)
  rw [hstep]
  constructor
  · intro hnone t' hinside
    obtain ⟨e, he⟩ := hgood.inside_iff.mp hinside
    obtain ⟨hnamed, hlock, hlinked'⟩ := hgood.entry t' _ e he
    have hinode : some e.fd.inode = some d.inode := by
      rw [← hlinked, ← hlinked', hnamed.2]
    rw [Option.some.inj hinode, hnone] at hlock
    cases hlock
  · intro hnobody
    cases hlock : S.flocks d.inode with
    | none => rfl
    | some d' =>
      obtain ⟨hinode, e, he, rfl⟩ := hgood.flock _ d' hlock
      obtain ⟨-, -, hlinked'⟩ := hgood.entry _ _ e he
      have hfile : S.files e.fd.path = some d.inode := hinode ▸ hlinked'
      have hpath : e.fd.path = d.path := hgood.distinct _ _ _ hfile hlinked
      exact absurd (hgood.inside_iff.mpr ⟨e, hpath ▸ he⟩) (hnobody e.fd.thread)

theorem mirror_lock_free_sample :
    ∃ S, locking.Reach Keeps S ∧ (S.step (.acquire secondThread)).isSome = true ∧ ∀ t, ¬S.Inside t "r" := by
  have hrun : (locking.run {} (oneWaits ++ [.leave firstThread, .leave firstThread])).map
      (fun S => (S.waiting secondThread, (S.step (.acquire secondThread)).isSome)) =
        some (some ⟨1, 0, secondThread, "r"⟩, true) := rfl
  obtain ⟨S, hS, heq⟩ := Option.map_eq_some_iff.mp hrun
  obtain ⟨hwaiting, hstep⟩ := Prod.mk.inj heq
  have hreach : locking.Reach Keeps S := reach_of_run (.start rfl) (by simp [oneWaits]) hS
  exact ⟨S, hreach, hstep, (mirror_lock_free hreach ⟨_, hwaiting, rfl⟩).mp hstep⟩

end runs

end MuseAgentSocial.MirrorLock
