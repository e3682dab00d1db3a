import MuseAgentSocial.Lib.Connection
import MuseAgentSocial.Lib.Machine

/-!
# Processes that share a database in autocommit mode

Many processes work on one database, each on a connection in autocommit mode, and on a
state outside of the database.

* `Code` is what is left of a process: the next operation, and how it goes on where the
  operation takes place and where it raises.  `Job` is a program that ends with a value or
  an exception, with the constructs of `Prog`.
* `sharing` is the machine.  One turn is one operation of one process.  `BEGIN IMMEDIATE`
  takes the write lock, a transaction works on a copy that becomes the database at the
  commit, and a statement outside of a transaction commits by itself.  Any operation may
  fail and any process may die, at any point.
* An effect outside of the database stays where a transaction is rolled back.

`Code.Safe` follows a process through its operations.  It keeps the copy of an open
transaction and what is known of the database, which other processes change by `R` only.
Every write has to be an `R` step, and every effect has to keep the invariant `I` of the
database and the outside.  Then `I` holds in every state that is reached
(`sharing_invariant`).  `Job.Leads` is the rule for programs.

`Code.alone` runs a process without the others, and `Job.Implements` says that it is then
a given `Prog`.  `Job.Runs` is such a run without faults.
-/

namespace Sqlite

/-- What is left of a process.  An operation goes on with `next`, or with `failed` where
it raises. -/
inductive Code (σ τ : Type) where
  | done
  /-- `next` is given the state that is read. -/
  | query (next : σ → Code σ τ) (failed : DbError → Code σ τ)
  /-- `next` is given the state before the write. -/
  | execute (f : σ → Except DbError σ) (next : σ → Code σ τ) (failed : DbError → Code σ τ)
  | begin (next : Code σ τ) (failed : DbError → Code σ τ)
  | commit (next : Code σ τ) (failed : DbError → Code σ τ)
  | commitPending (next : Code σ τ) (failed : DbError → Code σ τ)
  | rollback (next : Code σ τ) (failed : DbError → Code σ τ)
  /-- An effect outside of the database. -/
  | act (effect : τ → τ) (next failed : Code σ τ)

/-- A program, given how the process goes on after it. -/
def Job (σ τ ε α : Type) := (Except (Exc ε) α → Code σ τ) → Code σ τ

namespace Job

variable {σ τ ε α β : Type}

/-- Return a value. -/
def ret (a : α) : Job σ τ ε α := fun k => k (.ok a)

/-- Raise an exception of the program. -/
def raise (e : ε) : Job σ τ ε α := fun k => k (.error (.app e))

/-- Raise a caught exception again. -/
def reraise (e : Exc ε) : Job σ τ ε α := fun k => k (.error e)

/-- `try: p`, `except ...: handler` and `else: rest`. -/
def tryElse (p : Job σ τ ε α) (rest : α → Job σ τ ε β) (handler : Exc ε → Job σ τ ε β) : Job σ τ ε β := fun k =>
  p (fun r =>
    match r with
    | .ok a => rest a k
    | .error e => handler e k)

/-- Run one program after the other. -/
def bind (p : Job σ τ ε α) (f : α → Job σ τ ε β) : Job σ τ ε β := tryElse p f reraise

instance : Monad (Job σ τ ε) where
  pure := ret
  bind := bind

/-- `SELECT`. -/
def query (f : σ → α) : Job σ τ ε α := fun k => .query (fun s => k (.ok (f s))) (fun e => k (.error (.db e)))

/-- What follows a statement with this result. -/
def afterStatement (k : Except (Exc ε) α → Code σ τ) : Except DbError (σ × α) → Code σ τ
  | .ok r => k (.ok r.2)
  | .error e => k (.error (.db e))

/-- A writing statement. -/
def execute (f : σ → Except DbError (σ × α)) : Job σ τ ε α := fun k =>
  .execute (fun s => (f s).map Prod.fst) (fun s => afterStatement k (f s)) (fun e => k (.error (.db e)))

/-- `BEGIN IMMEDIATE`. -/
def begin : Job σ τ ε Unit := fun k => .begin (k (.ok ())) (fun e => k (.error (.db e)))

/-- `COMMIT`. -/
def commit : Job σ τ ε Unit := fun k => .commit (k (.ok ())) (fun e => k (.error (.db e)))

/-- `ROLLBACK`. -/
def rollback : Job σ τ ε Unit := fun k => .rollback (k (.ok ())) (fun e => k (.error (.db e)))

/-- The implicit `COMMIT` of `executescript`. -/
def commitPending : Job σ τ ε Unit := fun k => .commitPending (k (.ok ())) (fun e => k (.error (.db e)))

/-- `executescript`. -/
def executescript (script : σ → σ) : Job σ τ ε Unit :=
  bind commitPending (fun _ => execute (fun s => .ok (script s, ())))

/-- The context manager `transaction`. -/
def transaction (body : Job σ τ ε α) : Job σ τ ε α :=
  bind begin (fun _ => tryElse body (fun a => bind commit (fun _ => ret a))
    (fun e => bind rollback (fun _ => reraise e)))

/-- An effect outside of the database, which raises `e` where it fails. -/
def act (effect : τ → τ) (e : ε) : Job σ τ ε Unit := fun k => .act effect (k (.ok ())) (k (.error (.app e)))

/-- The process that runs the program. -/
def code (p : Job σ τ ε α) : Code σ τ := p (fun _ => .done)

end Job

/-! ## The machine -/

/-- The database, the state outside of it, the process that holds the write lock with its
copy of the database, and the processes. -/
structure Host (σ τ ι : Type) where
  db : σ
  outside : τ
  writer : Option (Nat × σ) := none
  threads : List (ι × Code σ τ) := []

/-- What happens next. -/
inductive Host.Turn (ι : Type) where
  | call (op : ι)
  /-- The next operation of a process takes place. -/
  | advance (i : Nat)
  /-- It raises, and does nothing. -/
  | fault (i : Nat)
  /-- An effect takes place and raises. -/
  | late (i : Nat)
  /-- The process dies. -/
  | kill (i : Nat)
  deriving DecidableEq, Repr

namespace Host

variable {σ τ ι : Type}

/-- The copy of the database of a process with an open transaction. -/
def held (S : Host σ τ ι) (i : Nat) : Option σ := (S.writer.filter (fun w => w.1 = i)).map Prod.snd

/-- A process goes on. -/
def goOn (S : Host σ τ ι) (i : Nat) (op : ι) (c : Code σ τ) : Host σ τ ι :=
  { S with threads := S.threads.set i (op, c) }

/-- The operation takes place.  It is `none` where it waits for the write lock. -/
def advance (S : Host σ τ ι) (i : Nat) (op : ι) : Code σ τ → Option (Host σ τ ι)
  | .done => none
  | .query next _ => some (S.goOn i op (next ((S.held i).getD S.db)))
  | .execute f next failed =>
    match S.held i with
    | some work =>
      match f work with
      | .ok work' => some ({ S with writer := some (i, work') }.goOn i op (next work))
      | .error e => some (S.goOn i op (failed e))
    | none =>
      if S.writer.isSome then none
      else
        match f S.db with
        | .ok db' => some ({ S with db := db' }.goOn i op (next S.db))
        | .error e => some (S.goOn i op (failed e))
  | .begin next failed =>
    match S.held i with
    | some _ => some (S.goOn i op (failed .operational))
    | none => if S.writer.isSome then none else some ({ S with writer := some (i, S.db) }.goOn i op next)
  | .commit next failed =>
    match S.held i with
    | some work => some ({ S with db := work, writer := none }.goOn i op next)
    | none => some (S.goOn i op (failed .operational))
  | .commitPending next _ =>
    match S.held i with
    | some work => some ({ S with db := work, writer := none }.goOn i op next)
    | none => some (S.goOn i op next)
  | .rollback next failed =>
    match S.held i with
    | some _ => some ({ S with writer := none }.goOn i op next)
    | none => some (S.goOn i op (failed .operational))
  | .act effect next _ => some ({ S with outside := effect S.outside }.goOn i op next)

/-- The operation raises. -/
def fault (S : Host σ τ ι) (i : Nat) (op : ι) : Code σ τ → Option (Host σ τ ι)
  | .done => none
  | .query _ failed | .execute _ _ failed | .begin _ failed | .commit _ failed | .commitPending _ failed
  | .rollback _ failed => some (S.goOn i op (failed .operational))
  | .act _ _ failed => some (S.goOn i op failed)

/-- The effect takes place and raises. -/
def late (S : Host σ τ ι) (i : Nat) (op : ι) : Code σ τ → Option (Host σ τ ι)
  | .act effect _ failed => some ({ S with outside := effect S.outside }.goOn i op failed)
  | _ => none

/-- The process dies, and its transaction with it. -/
def kill (S : Host σ τ ι) (i : Nat) (op : ι) : Host σ τ ι :=
  { S with writer := S.writer.filter (fun w => w.1 ≠ i) }.goOn i op .done

/-- One turn. -/
def next (code : ι → Code σ τ) (S : Host σ τ ι) : Host.Turn ι → Option (Host σ τ ι)
  | .call op => some { S with threads := S.threads ++ [(op, code op)] }
  | .advance i => S.threads[i]?.bind (fun t => S.advance i t.1 t.2)
  | .fault i => S.threads[i]?.bind (fun t => S.fault i t.1 t.2)
  | .late i => S.threads[i]?.bind (fun t => S.late i t.1 t.2)
  | .kill i => S.threads[i]?.map (fun t => S.kill i t.1)

end Host

/-- Calls of the operations of `code` by any number of processes. -/
def sharing {σ τ ι : Type} (init : σ → τ → Prop) (code : ι → Code σ τ) : Machine (Host σ τ ι) (Host.Turn ι) where
  init S := init S.db S.outside ∧ S.writer = none ∧ S.threads = []
  step := Host.next code

/-! ## What a process is allowed -/

section rules

variable {σ τ ι ε α β : Type} {R : σ → σ → Prop} {I : σ → τ → Prop} {o : Option σ} {K K' : σ → Prop}

/-- What the writes of all processes do, and an invariant that they keep. -/
structure Guarantee (R : σ → σ → Prop) (I : σ → τ → Prop) : Prop where
  refl : ∀ s, R s s
  trans : ∀ {s t u}, R s t → R t u → R s u
  kept : ∀ {s s' t}, I s t → R s s' → I s' t

/-- The operations of a process whose open transaction has the copy `o`, and which knows
`K` of the database: every write is an `R` step, and every effect keeps `I`. -/
def Code.Safe (R : σ → σ → Prop) (I : σ → τ → Prop) : Code σ τ → Option σ → (σ → Prop) → Prop
  | .done, _, _ => True
  | .query next failed, o, K =>
    (∀ w, o = some w → (next w).Safe R I (some w) K) ∧
      (o = none → ∀ s, K s → (next s).Safe R I none (fun t => K t ∧ R s t)) ∧ ∀ e, (failed e).Safe R I o K
  | .execute f next failed, o, K =>
    (∀ w w', o = some w → f w = .ok w' → R w w' ∧ (next w).Safe R I (some w') K) ∧
      (o = none → ∀ s s', K s → f s = .ok s' → R s s' ∧ (next s).Safe R I none (fun t => K t ∧ R s' t)) ∧
      ∀ e, (failed e).Safe R I o K
  | .begin next failed, o, K =>
    (o = none → ∀ s, K s → next.Safe R I (some s) K) ∧ ∀ e, (failed e).Safe R I o K
  | .commit next failed, o, K =>
    (∀ w, o = some w → next.Safe R I none (fun t => K t ∧ R w t)) ∧ ∀ e, (failed e).Safe R I o K
  | .commitPending next failed, o, K =>
    (∀ w, o = some w → next.Safe R I none (fun t => K t ∧ R w t)) ∧ (o = none → next.Safe R I none K) ∧
      ∀ e, (failed e).Safe R I o K
  | .rollback next failed, o, K => next.Safe R I none K ∧ ∀ e, (failed e).Safe R I o K
  | .act effect next failed, o, K =>
    (∀ s t, K s → I s t → I s (effect t)) ∧ next.Safe R I o K ∧ failed.Safe R I o K

/-- The invariant with what every process knows. -/
structure Host.Sound (R : σ → σ → Prop) (I : σ → τ → Prop) (S : Host σ τ ι) : Prop where
  joint : I S.db S.outside
  writer : ∀ i w, S.writer = some (i, w) → R S.db w ∧ i < S.threads.length
  threads : ∀ (i : Nat) (op : ι) (c : Code σ τ), S.threads[i]? = some (op, c) →
    ∃ K : σ → Prop, K S.db ∧ (∀ s t, K s → R s t → K t) ∧ c.Safe R I (S.held i) K

theorem Host.held_eq_some_iff {S : Host σ τ ι} {i : Nat} {w : σ} :
    S.held i = some w ↔ S.writer = some (i, w) := by
  unfold Host.held
  cases hw : S.writer with
  | none => simp
  | some v =>
    obtain ⟨j, v⟩ := v
    by_cases hj : j = i
    · simp [Option.filter, hj]
    · simp [Option.filter, hj]

theorem Host.held_of_writer_none {S : Host σ τ ι} {i : Nat} (h : S.writer = none) : S.held i = none := by
  simp [Host.held, h]

/-- One process goes on, and the others keep what they know. -/
theorem Host.Sound.goOn {S : Host σ τ ι} (h : S.Sound R I) {i : Nat} {op : ι} {c : Code σ τ} {db : σ} {outside : τ}
    {writer : Option (Nat × σ)} (hdb : R S.db db) (hjoint : I db outside)
    (hwriter : ∀ j w, writer = some (j, w) → R db w ∧ j < S.threads.length)
    (hothers : ∀ j, j ≠ i → Host.held { S with db, outside, writer } j = S.held j)
    (hc : ∃ K : σ → Prop, K db ∧ (∀ s t, K s → R s t → K t) ∧
      c.Safe R I (Host.held { S with db, outside, writer } i) K) :
    (Host.goOn { S with db, outside, writer } i op c).Sound R I := by
  refine ⟨hjoint, fun j w hw => ⟨(hwriter j w hw).1, ?_⟩, fun j op' c' hj => ?_⟩
  · show j < (S.threads.set i (op, c)).length
    rw [List.length_set]
    exact (hwriter j w hw).2
  have hthread : (S.threads.set i (op, c))[j]? = some (op', c') := hj
  rw [List.getElem?_set] at hthread
  split_ifs at hthread with hij hlen
  · obtain ⟨-, rfl⟩ := Prod.mk.inj (Option.some.inj hthread)
    exact hij ▸ hc
  · obtain ⟨K, hK, hstable, hsafe⟩ := h.threads j op' c' hthread
    refine ⟨K, hstable _ _ hK hdb, hstable, ?_⟩
    show c'.Safe R I (Host.held { S with db, outside, writer } j) K
    rw [hothers j (fun heq => hij heq.symm)]
    exact hsafe

/-- A process goes on where nothing but its code changes. -/
theorem Host.Sound.goOn_same {S : Host σ τ ι} (h : S.Sound R I) (hG : Guarantee R I) {i : Nat} {op : ι}
    {c : Code σ τ} (hc : ∃ K : σ → Prop, K S.db ∧ (∀ s t, K s → R s t → K t) ∧ c.Safe R I (S.held i) K) :
    (S.goOn i op c).Sound R I :=
  h.goOn (hG.refl S.db) h.joint h.writer (fun _ _ => rfl) hc

theorem Host.held_of_ne {S : Host σ τ ι} {i j : Nat} {w : σ} (hw : S.held i = some w) (hj : j ≠ i) :
    S.held j = none := by
  have hwriter := Host.held_eq_some_iff.mp hw
  simp [Host.held, Option.filter, hwriter, hj.symm]

/-- The transaction of a process is committed. -/
theorem Host.Sound.commit {S : Host σ τ ι} (h : S.Sound R I) (hG : Guarantee R I) {i : Nat} {op : ι}
    {c : Code σ τ} {w : σ} (hw : S.held i = some w) {K : σ → Prop} (hK : K S.db)
    (hstable : ∀ s t, K s → R s t → K t) (hc : c.Safe R I none (fun t => K t ∧ R w t)) :
    (Host.goOn { S with db := w, writer := none } i op c).Sound R I := by
  have hR : R S.db w := (h.writer i w (Host.held_eq_some_iff.mp hw)).1
  refine h.goOn hR (hG.kept h.joint hR) (fun j v hv => by cases hv) (fun j hj => ?_) ?_
  · rw [Host.held_of_ne hw hj]
    rfl
  · refine ⟨fun t => K t ∧ R w t, ⟨hstable _ _ hK hR, hG.refl w⟩, fun s t hs hst => ?_, hc⟩
    exact ⟨hstable s t hs.1 hst, hG.trans hs.2 hst⟩

/-- What an operation that takes place keeps. -/
theorem Host.Sound.advance {S S' : Host σ τ ι} (h : S.Sound R I) (hG : Guarantee R I) {i : Nat} {op : ι}
    {c : Code σ τ} (hthread : S.threads[i]? = some (op, c)) (hstep : S.advance i op c = some S') :
    S'.Sound R I := by
  obtain ⟨K, hK, hstable, hsafe⟩ := h.threads i op c hthread
  cases c with
  | done => cases hstep
  | query next failed =>
    obtain rfl := Option.some.inj hstep
    cases hheld : S.held i with
    | some w =>
      rw [hheld] at hsafe
      refine h.goOn_same hG ⟨K, hK, hstable, ?_⟩
      rw [hheld]
      exact hsafe.1 w rfl
    | none =>
      rw [hheld] at hsafe
      refine h.goOn_same hG ⟨fun t => K t ∧ R S.db t, ⟨hK, hG.refl _⟩, fun s t hs hst => ?_, ?_⟩
      · exact ⟨hstable s t hs.1 hst, hG.trans hs.2 hst⟩
      · rw [hheld]
        exact hsafe.2.1 rfl S.db hK
  | execute f next failed =>
    simp only [Host.advance] at hstep
    cases hheld : S.held i with
    | some w =>
      rw [hheld] at hstep hsafe
      have hwriter := Host.held_eq_some_iff.mp hheld
      cases hf : f w with
      | ok w' =>
        simp only [hf] at hstep
        obtain rfl := Option.some.inj hstep
        obtain ⟨hR, hnext⟩ := hsafe.1 w w' rfl hf
        refine h.goOn (hG.refl _) h.joint (fun j v hv => ?_) (fun j hj => ?_) ⟨K, hK, hstable, ?_⟩
        · obtain ⟨rfl, rfl⟩ := Prod.mk.inj (Option.some.inj hv)
          exact ⟨hG.trans (h.writer i w hwriter).1 hR, (h.writer i w hwriter).2⟩
        · rw [Host.held_of_ne hheld hj]
          simp [Host.held, Option.filter, hj.symm]
        · rw [Host.held_eq_some_iff.mpr rfl]
          exact hnext
      | error e =>
        simp only [hf] at hstep
        obtain rfl := Option.some.inj hstep
        exact h.goOn_same hG ⟨K, hK, hstable, hheld ▸ hsafe.2.2 e⟩
    | none =>
      rw [hheld] at hstep hsafe
      by_cases hwriter : S.writer.isSome = true
      · simp [hwriter] at hstep
      · have hnone : S.writer = none := by simpa using hwriter
        simp only [hnone, Option.isSome_none, Bool.false_eq_true, if_false] at hstep
        cases hf : f S.db with
        | ok db' =>
          simp only [hf] at hstep
          obtain rfl := Option.some.inj hstep
          obtain ⟨hR, hnext⟩ := hsafe.2.1 rfl S.db db' hK hf
          refine h.goOn hR (hG.kept h.joint hR) (fun j v hv => by cases hv) (fun j _ => ?_) ?_
          · rw [Host.held_of_writer_none hnone]
            rfl
          · refine ⟨fun t => K t ∧ R db' t, ⟨hstable _ _ hK hR, hG.refl _⟩, fun s t hs hst => ?_, hnext⟩
            exact ⟨hstable s t hs.1 hst, hG.trans hs.2 hst⟩
        | error e =>
          simp only [hf] at hstep
          obtain rfl := Option.some.inj hstep
          exact h.goOn_same hG ⟨K, hK, hstable, hheld ▸ hsafe.2.2 e⟩
  | begin next failed =>
    simp only [Host.advance] at hstep
    cases hheld : S.held i with
    | some w =>
      rw [hheld] at hstep hsafe
      obtain rfl := Option.some.inj hstep
      exact h.goOn_same hG ⟨K, hK, hstable, hheld ▸ hsafe.2 _⟩
    | none =>
      rw [hheld] at hstep hsafe
      by_cases hwriter : S.writer.isSome = true
      · simp [hwriter] at hstep
      · have hnone : S.writer = none := by simpa using hwriter
        simp only [hnone, Option.isSome_none, Bool.false_eq_true, if_false] at hstep
        obtain rfl := Option.some.inj hstep
        refine h.goOn (hG.refl _) h.joint (fun j v hv => ?_) (fun j hj => ?_) ⟨K, hK, hstable, ?_⟩
        · obtain ⟨rfl, rfl⟩ := Prod.mk.inj (Option.some.inj hv)
          exact ⟨hG.refl _, (List.getElem?_eq_some_iff.mp hthread).1⟩
        · rw [Host.held_of_writer_none hnone]
          simp [Host.held, Option.filter, hj.symm]
        · rw [Host.held_eq_some_iff.mpr rfl]
          exact hsafe.1 rfl S.db hK
  | commit next failed =>
    simp only [Host.advance] at hstep
    cases hheld : S.held i with
    | some w =>
      rw [hheld] at hstep hsafe
      obtain rfl := Option.some.inj hstep
      exact h.commit hG hheld hK hstable (hsafe.1 w rfl)
    | none =>
      rw [hheld] at hstep hsafe
      obtain rfl := Option.some.inj hstep
      exact h.goOn_same hG ⟨K, hK, hstable, hheld ▸ hsafe.2 _⟩
  | commitPending next failed =>
    simp only [Host.advance] at hstep
    cases hheld : S.held i with
    | some w =>
      rw [hheld] at hstep hsafe
      obtain rfl := Option.some.inj hstep
      exact h.commit hG hheld hK hstable (hsafe.1 w rfl)
    | none =>
      rw [hheld] at hstep hsafe
      obtain rfl := Option.some.inj hstep
      exact h.goOn_same hG ⟨K, hK, hstable, hheld ▸ hsafe.2.1 rfl⟩
  | rollback next failed =>
    simp only [Host.advance] at hstep
    cases hheld : S.held i with
    | some w =>
      rw [hheld] at hstep hsafe
      obtain rfl := Option.some.inj hstep
      refine h.goOn (hG.refl _) h.joint (fun j v hv => by cases hv) (fun j hj => ?_) ⟨K, hK, hstable, hsafe.1⟩
      rw [Host.held_of_ne hheld hj]
      rfl
    | none =>
      rw [hheld] at hstep hsafe
      obtain rfl := Option.some.inj hstep
      exact h.goOn_same hG ⟨K, hK, hstable, hheld ▸ hsafe.2 _⟩
  | act effect next failed =>
    obtain rfl := Option.some.inj hstep
    exact h.goOn (hG.refl _) (hsafe.1 _ _ hK h.joint) h.writer (fun _ _ => rfl) ⟨K, hK, hstable, hsafe.2.1⟩

/-- What an operation that raises keeps. -/
theorem Host.Sound.fault {S S' : Host σ τ ι} (h : S.Sound R I) (hG : Guarantee R I) {i : Nat} {op : ι}
    {c : Code σ τ} (hthread : S.threads[i]? = some (op, c)) (hstep : S.fault i op c = some S') :
    S'.Sound R I := by
  obtain ⟨K, hK, hstable, hsafe⟩ := h.threads i op c hthread
  have hfailed : ∀ c', c'.Safe R I (S.held i) K → (S.goOn i op c').Sound R I := fun c' hc' =>
    h.goOn_same hG ⟨K, hK, hstable, hc'⟩
  cases c with
  | done => cases hstep
  | query next failed => exact Option.some.inj hstep ▸ hfailed _ (hsafe.2.2 _)
  | execute f next failed => exact Option.some.inj hstep ▸ hfailed _ (hsafe.2.2 _)
  | begin next failed => exact Option.some.inj hstep ▸ hfailed _ (hsafe.2 _)
  | commit next failed => exact Option.some.inj hstep ▸ hfailed _ (hsafe.2 _)
  | commitPending next failed => exact Option.some.inj hstep ▸ hfailed _ (hsafe.2.2 _)
  | rollback next failed => exact Option.some.inj hstep ▸ hfailed _ (hsafe.2 _)
  | act effect next failed => exact Option.some.inj hstep ▸ hfailed _ hsafe.2.2

/-- What an effect that raises afterwards keeps. -/
theorem Host.Sound.late {S S' : Host σ τ ι} (h : S.Sound R I) (hG : Guarantee R I) {i : Nat} {op : ι}
    {c : Code σ τ} (hthread : S.threads[i]? = some (op, c)) (hstep : S.late i op c = some S') :
    S'.Sound R I := by
  obtain ⟨K, hK, hstable, hsafe⟩ := h.threads i op c hthread
  cases c with
  | act effect next failed =>
    obtain rfl := Option.some.inj hstep
    exact h.goOn (hG.refl _) (hsafe.1 _ _ hK h.joint) h.writer (fun _ _ => rfl) ⟨K, hK, hstable, hsafe.2.2⟩
  | _ => cases hstep

/-- The death of a process keeps what the others know. -/
theorem Host.Sound.kill {S : Host σ τ ι} (h : S.Sound R I) (hG : Guarantee R I) (i : Nat) (op : ι) :
    (S.kill i op).Sound R I := by
  refine h.goOn (hG.refl _) h.joint (fun j w hw => ?_) (fun j hj => ?_)
    ⟨fun _ => True, trivial, fun _ _ _ _ => trivial, trivial⟩
  · exact h.writer j w (Option.filter_eq_some_iff.mp hw).1
  · cases hw : S.writer with
    | none => simp [Host.held, hw]
    | some v =>
      by_cases hv : v.1 = i
      · simp [Host.held, Option.filter, hw, hv, hj.symm]
      · simp [Host.held, Option.filter, hw, hv]

variable {init : σ → τ → Prop} {code : ι → Code σ τ}

/-- One turn keeps the invariant with what every process knows. -/
theorem Host.Sound.next {S S' : Host σ τ ι} {turn : Host.Turn ι} (h : S.Sound R I) (hG : Guarantee R I)
    (hK : ∀ s t, I s t → K s) (hstable : ∀ s t, K s → R s t → K t) (hcode : ∀ op, (code op).Safe R I none K)
    (hstep : S.next code turn = some S') : S'.Sound R I := by
  cases turn with
  | call op =>
    obtain rfl := Option.some.inj hstep
    refine ⟨h.joint, fun i w hw => ⟨(h.writer i w hw).1, ?_⟩, fun i op' c hi => ?_⟩
    · have hlt := (h.writer i w hw).2
      show i < (S.threads ++ [(op, code op)]).length
      rw [List.length_append]
      omega
    have hthread : (S.threads ++ [(op, code op)])[i]? = some (op', c) := hi
    rw [List.getElem?_append] at hthread
    split_ifs at hthread with hlen
    · exact h.threads i op' c hthread
    · -- a new process has no transaction open: its place was free
      obtain ⟨hi0, heq⟩ := List.getElem?_eq_some_iff.mp hthread
      have hzero : i - S.threads.length = 0 := by simpa using hi0
      simp only [hzero, List.getElem_cons_zero] at heq
      obtain ⟨rfl, rfl⟩ := Prod.mk.inj heq
      refine ⟨K, hK _ _ h.joint, hstable, ?_⟩
      have hheld : S.held i = none := by
        cases hw : S.held i with
        | none => rfl
        | some w => exact absurd (h.writer i w (Host.held_eq_some_iff.mp hw)).2 hlen
      show (code op).Safe R I (S.held i) K
      rw [hheld]
      exact hcode op
  | advance i =>
    obtain ⟨t, ht, hstep⟩ := Option.bind_eq_some_iff.mp hstep
    exact h.advance hG ht hstep
  | fault i =>
    obtain ⟨t, ht, hstep⟩ := Option.bind_eq_some_iff.mp hstep
    exact h.fault hG ht hstep
  | late i =>
    obtain ⟨t, ht, hstep⟩ := Option.bind_eq_some_iff.mp hstep
    exact h.late hG ht hstep
  | kill i =>
    obtain ⟨t, -, rfl⟩ := Option.map_eq_some_iff.mp hstep
    exact h.kill hG i t.1

theorem sharing_invariant (hG : Guarantee R I) (hinit : ∀ s t, init s t → I s t) (hK : ∀ s t, I s t → K s)
    (hstable : ∀ s t, K s → R s t → K t) (hcode : ∀ op, (code op).Safe R I none K) {S : Host σ τ ι}
    (h : (sharing init code).Reachable S) : I S.db S.outside := by
  have hsound : S.Sound R I := by
    refine h.invariant (fun S hS => ?_) (fun S turn S' hS _ hstep => hS.next hG hK hstable hcode hstep)
    obtain ⟨hI, hwriter, hthreads⟩ := hS
    exact ⟨hinit _ _ hI, by simp [hwriter], by simp [hthreads]⟩
  exact hsound.joint

/-! ## Rules for programs -/

/-- The program is safe from here, and so is what follows it, as far as that is safe
wherever `Q` holds of the end. -/
def Job.Leads (R : σ → σ → Prop) (I : σ → τ → Prop) (p : Job σ τ ε α) (o : Option σ) (K : σ → Prop)
    (Q : Except (Exc ε) α → Option σ → (σ → Prop) → Prop) : Prop :=
  ∀ k, (∀ r o' K', (∀ s, K' s → K s) → Q r o' K' → (k r).Safe R I o' K') → (p k).Safe R I o K

/-- The program is safe from everywhere where `K₀` is known. -/
def Job.Harmless (R : σ → σ → Prop) (I : σ → τ → Prop) (K₀ : σ → Prop) (p : Job σ τ ε α) : Prop :=
  ∀ o K, (∀ s, K s → K₀ s) → Job.Leads R I p o K (fun _ _ _ => True)

namespace Job

variable {K₀ : σ → Prop} {Q : Except (Exc ε) α → Option σ → (σ → Prop) → Prop}
  {Q' : Except (Exc ε) β → Option σ → (σ → Prop) → Prop}

theorem Leads.imp {Q₁ : Except (Exc ε) α → Option σ → (σ → Prop) → Prop} {p : Job σ τ ε α}
    (h : Leads R I p o K Q) (hQ : ∀ r o' K', (∀ s, K' s → K s) → Q r o' K' → Q₁ r o' K') : Leads R I p o K Q₁ :=
  fun k hk => h k (fun r o' K' hK' hr => hk r o' K' hK' (hQ r o' K' hK' hr))

theorem Leads.ret {a : α} (h : Q (.ok a) o K) : Leads R I (ret a : Job σ τ ε α) o K Q :=
  fun _ hk => hk _ o K (fun _ hs => hs) h

theorem Leads.reraise {e : Exc ε} (h : Q (.error e) o K) : Leads R I (reraise e : Job σ τ ε α) o K Q :=
  fun _ hk => hk _ o K (fun _ hs => hs) h

theorem Leads.tryElse {p : Job σ τ ε α} {rest : α → Job σ τ ε β} {handler : Exc ε → Job σ τ ε β}
    (hp : Leads R I p o K Q)
    (hrest : ∀ a o' K', (∀ s, K' s → K s) → Q (.ok a) o' K' → Leads R I (rest a) o' K' Q')
    (hhandler : ∀ e o' K', (∀ s, K' s → K s) → Q (.error e) o' K' → Leads R I (handler e) o' K' Q') :
    Leads R I (tryElse p rest handler) o K Q' := by
  intro k hk
  refine hp _ (fun r o' K' hK' hr => ?_)
  cases r with
  | ok a => exact hrest a o' K' hK' hr k (fun r o'' K'' hK'' => hk r o'' K'' (fun s hs => hK' s (hK'' s hs)))
  | error e => exact hhandler e o' K' hK' hr k (fun r o'' K'' hK'' => hk r o'' K'' (fun s hs => hK' s (hK'' s hs)))

theorem Leads.bind {p : Job σ τ ε α} {f : α → Job σ τ ε β} (hp : Leads R I p o K Q)
    (hf : ∀ a o' K', (∀ s, K' s → K s) → Q (.ok a) o' K' → Leads R I (f a) o' K' Q')
    (he : ∀ e o' K', (∀ s, K' s → K s) → Q (.error e) o' K' → Q' (.error e) o' K') :
    Leads R I (bind p f) o K Q' :=
  hp.tryElse hf (fun e o' K' hK' hr => Leads.reraise (he e o' K' hK' hr))

theorem Leads.andThen {p : Job σ τ ε α} {f : α → Job σ τ ε β} (hp : Leads R I p o K Q)
    (hf : ∀ a o' K', (∀ s, K' s → K s) → Q (.ok a) o' K' → Leads R I (f a) o' K' (fun _ _ _ => True)) :
    Leads R I (Job.bind p f) o K (fun _ _ _ => True) :=
  hp.bind hf (fun _ _ _ _ _ => trivial)

/-- A read in an open transaction reads its copy. -/
theorem Leads.query_open {w : σ} (f : σ → α) :
    Leads R I (query f : Job σ τ ε α) (some w) K (fun r o' _ => ∀ a, r = .ok a → a = f w ∧ o' = some w) := by
  refine fun k hk => ⟨fun w' hw' => ?_, fun h => (by cases h), fun e => ?_⟩
  · obtain rfl := Option.some.inj hw'
    refine hk _ _ _ (fun _ hs => hs) (fun a ha => ?_)
    cases ha
    exact ⟨rfl, rfl⟩
  · refine hk _ _ _ (fun _ hs => hs) (fun a ha => by cases ha)

/-- A read outside of a transaction reads a state from which the database comes. -/
theorem Leads.query_closed (f : σ → α) :
    Leads R I (query f : Job σ τ ε α) none K
      (fun r o' K' => ∀ a, r = .ok a → o' = none ∧ ∃ s, K s ∧ a = f s ∧ ∀ t, K' t → R s t) := by
  refine fun k hk => ⟨fun w hw => (by cases hw), fun _ s hs => ?_, fun e => ?_⟩
  · refine hk _ _ _ (fun _ ht => ht.1) (fun a ha => ?_)
    cases ha
    exact ⟨rfl, s, hs, rfl, fun t ht => ht.2⟩
  · exact hk _ _ _ (fun _ hs => hs) (fun a ha => by cases ha)

/-- A write in an open transaction. -/
theorem Leads.execute_open {w : σ} {f : σ → Except DbError (σ × α)} (hR : ∀ w' a, f w = .ok (w', a) → R w w') :
    Leads R I (execute f : Job σ τ ε α) (some w) K
      (fun r o' _ => ∀ a, r = .ok a → ∃ w', f w = .ok (w', a) ∧ o' = some w') := by
  refine fun k hk => ⟨fun v v' hv hf => ?_, fun h => (by cases h), fun e => ?_⟩
  · obtain rfl := Option.some.inj hv
    have hmap : (f w).map Prod.fst = .ok v' := hf
    show R w v' ∧ (afterStatement k (f w)).Safe R I (some v') K
    cases hfw : f w with
    | error e =>
      rw [hfw] at hmap
      cases hmap
    | ok r =>
      rw [hfw] at hmap
      cases hmap
      refine ⟨hR r.1 r.2 hfw, hk _ _ _ (fun _ hs => hs) (fun a ha => ?_)⟩
      cases ha
      exact ⟨r.1, hfw, rfl⟩
  · exact hk _ _ _ (fun _ hs => hs) (fun a ha => by cases ha)

/-- A write outside of a transaction. -/
theorem Leads.execute_closed {f : σ → Except DbError (σ × α)} (hR : ∀ s s' a, K s → f s = .ok (s', a) → R s s') :
    Leads R I (execute f : Job σ τ ε α) none K (fun r o' _ => ∀ a, r = .ok a → o' = none) := by
  refine fun k hk => ⟨fun w w' hw => (by cases hw), fun _ s s' hs hf => ?_, fun e => ?_⟩
  · have hmap : (f s).map Prod.fst = .ok s' := hf
    show R s s' ∧ (afterStatement k (f s)).Safe R I none (fun t => K t ∧ R s' t)
    cases hfs : f s with
    | error e =>
      rw [hfs] at hmap
      cases hmap
    | ok r =>
      rw [hfs] at hmap
      cases hmap
      exact ⟨hR s r.1 r.2 hs hfs, hk _ _ _ (fun _ ht => ht.1) (fun _ _ => rfl)⟩
  · exact hk _ _ _ (fun _ hs => hs) (fun a ha => by cases ha)

/-- The implicit commit of an open transaction: the database comes from its copy. -/
theorem Leads.commitPending_open {w : σ} :
    Leads R I (commitPending : Job σ τ ε Unit) (some w) K
      (fun r o' K' => r = .ok () → o' = none ∧ ∀ t, K' t → R w t) := by
  refine fun k hk => ⟨fun v hv => ?_, fun h => (by cases h), fun e => ?_⟩
  · obtain rfl := Option.some.inj hv
    exact hk _ _ _ (fun _ ht => ht.1) (fun _ => ⟨rfl, fun t ht => ht.2⟩)
  · exact hk _ _ _ (fun _ hs => hs) (fun h => by cases h)

theorem Leads.act {effect : τ → τ} {e : ε} (h : ∀ s t, K s → I s t → I s (effect t)) :
    Leads R I (act effect e : Job σ τ ε Unit) o K (fun _ o' _ => o' = o) :=
  fun _ hk => ⟨h, hk _ _ _ (fun _ hs => hs) rfl, hk _ _ _ (fun _ hs => hs) rfl⟩

/-- A transaction that returns has committed a copy that its body has led to, from a state that
was known.  The body keeps track of the copy. -/
theorem Leads.transaction {body : Job σ τ ε α} {P : σ → α → σ → Prop}
    (h : ∀ s, K s → Leads R I body (some s) K (fun r o' _ => ∀ a, r = .ok a → ∃ w, o' = some w ∧ P s a w)) :
    Leads R I (transaction body) none K
      (fun r o' K' => ∀ a, r = .ok a → o' = none ∧ ∃ s w, K s ∧ P s a w ∧ ∀ t, K' t → R w t) := by
  intro k hk
  refine ⟨fun _ s hs => ?_, fun e => hk _ _ _ (fun _ ht => ht) (fun a ha => by cases ha)⟩
  refine (h s hs) _ (fun r o' K' hK' hr => ?_)
  cases r with
  | error e =>
    have hraised : ∀ o'' e', (k (.error e')).Safe R I o'' K' :=
      fun o'' e' => hk _ _ _ hK' (fun a ha => by cases ha)
    exact ⟨hraised none e, fun e' => hraised o' _⟩
  | ok a =>
    obtain ⟨w, rfl, hP⟩ := hr a rfl
    refine ⟨fun v hv => ?_, fun e => hk _ _ _ hK' (fun a ha => by cases ha)⟩
    obtain rfl := Option.some.inj hv
    refine hk _ _ _ (fun t ht => hK' t ht.1) (fun b hb => ?_)
    cases hb
    exact ⟨rfl, s, w, hs, hP, fun t ht => ht.2⟩

/-! ### Programs that are safe everywhere -/

theorem Harmless.leads {p : Job σ τ ε α} (h : Harmless R I K₀ p) (hK : ∀ s, K s → K₀ s) :
    Leads R I p o K (fun _ _ _ => True) := h o K hK

theorem Harmless.ret (a : α) : Harmless R I K₀ (ret a : Job σ τ ε α) := fun _ _ _ => Leads.ret trivial

theorem Harmless.reraise (e : Exc ε) : Harmless R I K₀ (reraise e : Job σ τ ε α) := fun _ _ _ => Leads.reraise trivial

theorem Harmless.raise (e : ε) : Harmless R I K₀ (raise e : Job σ τ ε α) := Harmless.reraise (.app e)

theorem Harmless.tryElse {p : Job σ τ ε α} {rest : α → Job σ τ ε β} {handler : Exc ε → Job σ τ ε β}
    (hp : Harmless R I K₀ p) (hrest : ∀ a, Harmless R I K₀ (rest a))
    (hhandler : ∀ e, Harmless R I K₀ (handler e)) : Harmless R I K₀ (tryElse p rest handler) := by
  refine fun o K hK => (hp o K hK).tryElse (fun a o' K' hK' _ => ?_) (fun e o' K' hK' _ => ?_)
  · exact hrest a o' K' (fun s hs => hK s (hK' s hs))
  · exact hhandler e o' K' (fun s hs => hK s (hK' s hs))

theorem Harmless.bind {p : Job σ τ ε α} {f : α → Job σ τ ε β} (hp : Harmless R I K₀ p)
    (hf : ∀ a, Harmless R I K₀ (f a)) : Harmless R I K₀ (Job.bind p f) :=
  hp.tryElse hf Harmless.reraise

theorem Harmless.query (f : σ → α) : Harmless R I K₀ (query f : Job σ τ ε α) := by
  intro o K _
  cases o with
  | none => exact (Leads.query_closed f).imp (fun _ _ _ _ _ => trivial)
  | some w => exact (Leads.query_open f).imp (fun _ _ _ _ _ => trivial)

theorem Harmless.execute {f : σ → Except DbError (σ × α)} (hR : ∀ s s' a, f s = .ok (s', a) → R s s') :
    Harmless R I K₀ (execute f : Job σ τ ε α) := by
  intro o K _
  cases o with
  | none => exact (Leads.execute_closed (fun s s' a _ => hR s s' a)).imp (fun _ _ _ _ _ => trivial)
  | some w => exact (Leads.execute_open (hR w)).imp (fun _ _ _ _ _ => trivial)

theorem Harmless.rollback : Harmless R I K₀ (rollback : Job σ τ ε Unit) :=
  fun _ _ _ _ hk => ⟨hk _ _ _ (fun _ hs => hs) trivial, fun _ => hk _ _ _ (fun _ hs => hs) trivial⟩

theorem Harmless.commit : Harmless R I K₀ (commit : Job σ τ ε Unit) :=
  fun _ _ _ _ hk => ⟨fun _ _ => hk _ _ _ (fun _ ht => ht.1) trivial, fun _ => hk _ _ _ (fun _ hs => hs) trivial⟩

theorem Harmless.transaction {body : Job σ τ ε α}
    (h : ∀ s K, K s → (∀ t, K t → K₀ t) → Leads R I body (some s) K (fun _ _ _ => True)) :
    Harmless R I K₀ (transaction body) := by
  intro o K hK k hk
  refine ⟨fun _ s hs => ?_, fun e => hk _ _ _ (fun _ ht => ht) trivial⟩
  have hend : Leads R I (Job.tryElse body (fun a => Job.bind Job.commit (fun _ => Job.ret a))
      (fun e => Job.bind Job.rollback (fun _ => Job.reraise e))) (some s) K (fun _ _ _ => True) := by
    refine (h s K hs hK).tryElse (fun a o' K' hK' _ => ?_) (fun e o' K' hK' _ => ?_)
    · exact (Harmless.commit.bind (fun _ => Harmless.ret a)) o' K' (fun t ht => hK t (hK' t ht))
    · exact (Harmless.rollback.bind (fun _ => Harmless.reraise e)) o' K' (fun t ht => hK t (hK' t ht))
  exact hend k hk

/-- The process of a program that is safe everywhere. -/
theorem Harmless.safe {p : Job σ τ ε α} (h : Harmless R I K₀ p) : p.code.Safe R I none K₀ :=
  h none K₀ (fun _ hs => hs) _ (fun _ _ _ _ _ => trivial)

end Job

end rules

/-! ## A process without the others -/

section alone

variable {σ τ ε α β : Type}

/-- Go on after a statement that ran on a connection. -/
def Outcome.proceed (next : α → Conn σ → β) (failed : DbError → Conn σ → β) (crashed : Conn σ → β) :
    Outcome Empty α × Conn σ → β
  | (.returned a, c) => next a c
  | (.raised (.db e), c) => failed e c
  | (.raised (.app e), _) => nomatch e
  | (.crashed, c) => crashed c

/-- Run a process without others under a plan of faults.  Effects outside of the database
take place. -/
def Code.alone : Code σ τ → Plan → Conn σ → τ → Conn σ × τ
  | .done, _, c, t => (c, t)
  | .query next failed, plan, c, t =>
    Outcome.proceed (fun s c' => (next s).alone plan c' t) (fun e c' => (failed e).alone plan c' t)
      (fun c' => (c', t)) (Prog.query id plan c)
  | .execute f next failed, plan, c, t =>
    Outcome.proceed (fun s c' => (next s).alone plan c' t) (fun e c' => (failed e).alone plan c' t)
      (fun c' => (c', t)) (Prog.execute (fun s => (f s).map (fun s' => (s', s))) plan c)
  | .begin next failed, plan, c, t =>
    Outcome.proceed (fun _ c' => next.alone plan c' t) (fun e c' => (failed e).alone plan c' t)
      (fun c' => (c', t)) (Prog.begin plan c)
  | .commit next failed, plan, c, t =>
    Outcome.proceed (fun _ c' => next.alone plan c' t) (fun e c' => (failed e).alone plan c' t)
      (fun c' => (c', t)) (Prog.commit plan c)
  | .commitPending next failed, plan, c, t =>
    Outcome.proceed (fun _ c' => next.alone plan c' t) (fun e c' => (failed e).alone plan c' t)
      (fun c' => (c', t)) (Prog.commitPending plan c)
  | .rollback next failed, plan, c, t =>
    Outcome.proceed (fun _ c' => next.alone plan c' t) (fun e c' => (failed e).alone plan c' t)
      (fun c' => (c', t)) (Prog.rollback plan c)
  | .act effect next _, plan, c, t => next.alone plan c (effect t)

/-- Go on with the end of a program. -/
def Code.aloneAfter (k : Except (Exc ε) α → Code σ τ) (plan : Plan) (t : τ) : Outcome ε α × Conn σ → Conn σ × τ
  | (.returned a, c) => (k (.ok a)).alone plan c t
  | (.raised e, c) => (k (.error e)).alone plan c t
  | (.crashed, c) => (c, t)

/-- Without other processes the program is the given one, and it has no effect outside of
the database. -/
def Job.Implements (p : Job σ τ ε α) (q : Prog σ ε α) : Prop :=
  ∀ k plan c t, (p k).alone plan c t = Code.aloneAfter k plan t (q plan c)

namespace Job

theorem Implements.ret (a : α) : Implements (ret a : Job σ τ ε α) (Prog.ret a) := fun _ _ _ _ => rfl

theorem Implements.raise (e : ε) : Implements (raise e : Job σ τ ε α) (Prog.raise e) := fun _ _ _ _ => rfl

theorem Implements.reraise (e : Exc ε) : Implements (reraise e : Job σ τ ε α) (Prog.reraise e) := fun _ _ _ _ => rfl

theorem Implements.tryElse {p : Job σ τ ε α} {q : Prog σ ε α} {rest : α → Job σ τ ε β} {rest' : α → Prog σ ε β}
    {handler : Exc ε → Job σ τ ε β} {handler' : Exc ε → Prog σ ε β} (hp : Implements p q)
    (hrest : ∀ a, Implements (rest a) (rest' a)) (hhandler : ∀ e, Implements (handler e) (handler' e)) :
    Implements (tryElse p rest handler) (Prog.tryElse q rest' handler') := by
  intro k plan c t
  show (p _).alone plan c t = _
  rw [hp, Prog.tryElse]
  rcases q plan c with ⟨outcome, c'⟩
  cases outcome with
  | returned a => exact hrest a k plan c' t
  | raised e => exact hhandler e k plan c' t
  | crashed => rfl

theorem Implements.bind {p : Job σ τ ε α} {q : Prog σ ε α} {f : α → Job σ τ ε β} {f' : α → Prog σ ε β}
    (hp : Implements p q) (hf : ∀ a, Implements (f a) (f' a)) : Implements (Job.bind p f) (Prog.bind q f') :=
  hp.tryElse hf Implements.reraise

theorem Implements.query (f : σ → α) : Implements (query f : Job σ τ ε α) (Prog.query f) := by
  intro k plan c t
  show Outcome.proceed _ _ _ (Prog.statement _ plan c) = Code.aloneAfter k plan t (Prog.statement _ plan c)
  unfold Prog.statement
  cases plan c.stmts with
  | none => rfl
  | some fault => cases fault <;> rfl

theorem Implements.execute (f : σ → Except DbError (σ × α)) :
    Implements (execute f : Job σ τ ε α) (Prog.execute f) := by
  intro k plan c t
  show Outcome.proceed _ _ _ (Prog.statement _ plan c) = Code.aloneAfter k plan t (Prog.statement _ plan c)
  unfold Prog.statement
  cases plan c.stmts with
  | none =>
    cases hf : f c.db with
    | ok r =>
      simp only [hf, Except.map, Outcome.proceed, afterStatement]
      rfl
    | error e =>
      simp only [hf, Except.map, Outcome.proceed]
      rfl
  | some fault => cases fault <;> rfl

theorem Implements.begin : Implements (begin : Job σ τ ε Unit) Prog.begin := by
  intro k plan c t
  show Outcome.proceed _ _ _ (Prog.statement _ plan c) = Code.aloneAfter k plan t (Prog.statement _ plan c)
  unfold Prog.statement
  cases plan c.stmts with
  | none => cases hs : c.saved <;> simp only [hs] <;> rfl
  | some fault => cases fault <;> rfl

theorem Implements.commit : Implements (commit : Job σ τ ε Unit) Prog.commit := by
  intro k plan c t
  show Outcome.proceed _ _ _ (Prog.statement _ plan c) = Code.aloneAfter k plan t (Prog.statement _ plan c)
  unfold Prog.statement
  cases plan c.stmts with
  | none => cases hs : c.saved <;> simp only [hs] <;> rfl
  | some fault => cases fault <;> rfl

theorem Implements.rollback : Implements (rollback : Job σ τ ε Unit) Prog.rollback := by
  intro k plan c t
  show Outcome.proceed _ _ _ (Prog.statement _ plan c) = Code.aloneAfter k plan t (Prog.statement _ plan c)
  unfold Prog.statement
  cases plan c.stmts with
  | none => cases hs : c.saved <;> simp only [hs] <;> rfl
  | some fault => cases fault <;> rfl

theorem Implements.commitPending : Implements (commitPending : Job σ τ ε Unit) Prog.commitPending := by
  intro k plan c t
  cases hs : c.saved with
  | none =>
    show Outcome.proceed _ _ _ (Prog.commitPending plan c) = Code.aloneAfter k plan t (Prog.commitPending plan c)
    simp only [Prog.commitPending, hs]
    rfl
  | some s =>
    show Outcome.proceed _ _ _ (Prog.commitPending plan c) = Code.aloneAfter k plan t (Prog.commitPending plan c)
    simp only [Prog.commitPending, hs]
    exact Implements.commit k plan c t

theorem Implements.executescript (script : σ → σ) :
    Implements (executescript script : Job σ τ ε Unit) (Prog.executescript script) :=
  Implements.commitPending.bind (fun _ => Implements.execute _)

theorem Implements.transaction {body : Job σ τ ε α} {body' : Prog σ ε α} (h : Implements body body') :
    Implements (transaction body) (Prog.transaction body') :=
  Implements.begin.bind (fun _ => h.tryElse (fun a => Implements.commit.bind (fun _ => Implements.ret a))
    (fun e => Implements.rollback.bind (fun _ => Implements.reraise e)))

end Job

/-! ### Undisturbed runs -/

/-- Without others and without faults, the program ends with `r`.  The statements see `s` at
first and `s'` at the end; `o` and `o'` are the states to roll back to. -/
def Job.Runs (p : Job σ τ ε α) (s : σ) (o : Option σ) (r : Except (Exc ε) α) (s' : σ) (o' : Option σ) : Prop :=
  ∀ k n seen t, ∃ n' seen', (p k).alone Prog.calm ⟨s, o, n, seen⟩ t = (k r).alone Prog.calm ⟨s', o', n', seen'⟩ t

namespace Job

variable {s s' s'' : σ} {o o' o'' : Option σ}

theorem Runs.ret (a : α) : Runs (ret a : Job σ τ ε α) s o (.ok a) s o := fun _ n seen _ => ⟨n, seen, rfl⟩

theorem Runs.query (f : σ → α) : Runs (query f : Job σ τ ε α) s o (.ok (f s)) s o := by
  intro k n seen t
  cases o with
  | none => exact ⟨n + 1, seen ++ [s], rfl⟩
  | some v => exact ⟨n + 1, seen, rfl⟩

theorem Runs.execute {f : σ → Except DbError (σ × α)} {a : α} (h : f s = .ok (s', a)) :
    Runs (execute f : Job σ τ ε α) s o (.ok a) s' o := by
  intro k n seen t
  have hnext : ∀ c : Conn σ, c.db = s → Prog.calm c.stmts = none →
      (Job.execute f k : Code σ τ).alone Prog.calm c t = (k (.ok a)).alone Prog.calm { c.tick with db := s' }.settle t := by
    intro c hc hplan
    show Outcome.proceed _ _ _ (Prog.execute _ Prog.calm c) = _
    simp only [Prog.execute, Prog.statement, hplan, hc, h, Except.map, Outcome.proceed, afterStatement]
    rfl
  cases o with
  | none => exact ⟨n + 1, seen ++ [s'], hnext ⟨s, none, n, seen⟩ rfl rfl⟩
  | some v => exact ⟨n + 1, seen, hnext ⟨s, some v, n, seen⟩ rfl rfl⟩

theorem Runs.bind {p : Job σ τ ε α} {f : α → Job σ τ ε β} {a : α} {r : Except (Exc ε) β}
    (hp : Runs p s o (.ok a) s' o') (hf : Runs (f a) s' o' r s'' o'') : Runs (Job.bind p f) s o r s'' o'' := by
  intro k n seen t
  obtain ⟨n₁, seen₁, h₁⟩ := hp (fun r => match r with | .ok a => f a k | .error e => Job.reraise e k) n seen t
  obtain ⟨n₂, seen₂, h₂⟩ := hf k n₁ seen₁ t
  exact ⟨n₂, seen₂, h₁.trans h₂⟩

theorem Runs.begin : Runs (begin : Job σ τ ε Unit) s none (.ok ()) s (some s) :=
  fun _ n seen _ => ⟨n + 1, seen, rfl⟩

theorem Runs.commit {v : σ} : Runs (commit : Job σ τ ε Unit) s (some v) (.ok ()) s none :=
  fun _ n seen _ => ⟨n + 1, seen ++ [s], rfl⟩

theorem Runs.transaction {body : Job σ τ ε α} {a : α} (h : Runs body s (some s) (.ok a) s' (some s)) :
    Runs (transaction body) s none (.ok a) s' none := by
  refine Runs.begin.bind ?_
  intro k n seen t
  obtain ⟨n₁, seen₁, h₁⟩ := h (fun r => match r with
    | .ok a => Job.bind Job.commit (fun _ => Job.ret a) k
    | .error e => Job.bind Job.rollback (fun _ => Job.reraise e) k) n seen t
  obtain ⟨n₂, seen₂, h₂⟩ := (Runs.commit.bind (f := fun _ => Job.ret a) (Runs.ret a)) k n₁ seen₁ t
  exact ⟨n₂, seen₂, h₁.trans h₂⟩

end Job

end alone

end Sqlite
