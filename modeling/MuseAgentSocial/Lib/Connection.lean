import Mathlib.Logic.Basic

/-!
# A sqlite3 connection in autocommit mode

A model of Python's `sqlite3` connection with `isolation_level = None`, over
any database state `σ`.

* Outside a transaction every statement commits by itself.  `begin` opens a
  transaction, `commit` and `rollback` close it, and each of the three
  raises when it does not apply.
* `executescript` first commits the open transaction, if there is one.
* A `Plan` says which statement fails and at which statement the process
  dies, so a program runs under every fault and every crash point.  A dying
  process leaves the committed state.

`Conn.seen` is the history of the states in which no transaction was open.
It is what another connection can have read, and no program reads it.

The rules are of two kinds.  `Prog.Keeps P` is for programs whose statements
all keep a property `P` of the database.  `Prog.Grows` says that a program
only extends the history, so a state that was seen stays seen.
-/

namespace Sqlite

/-- The classes of database exceptions a program can tell apart. -/
inductive DbError where
  | operational
  | integrity
  deriving DecidableEq, Repr

/-- A Python exception: of the database, or of the program. -/
inductive Exc (ε : Type) where
  | db (e : DbError)
  | app (e : ε)
  deriving DecidableEq, Repr

/-- How a program ends. -/
inductive Outcome (ε α : Type) where
  | returned (a : α)
  | raised (e : Exc ε)
  | crashed
  deriving DecidableEq, Repr

/-- What can go wrong at one statement. -/
inductive Fault where
  | fails
  | crashes
  deriving DecidableEq, Repr

/-- The fault at the `i`-th statement of the connection. -/
abbrev Plan := Nat → Option Fault

/-- A connection: the state its statements see, the state to roll back to
when a transaction is open, the number of statements so far, and the history
of the states without an open transaction. -/
structure Conn (σ : Type) where
  db : σ
  saved : Option σ := none
  stmts : Nat := 0
  seen : List σ := []

/-- A program on a connection. -/
def Prog (σ ε α : Type) := Plan → Conn σ → Outcome ε α × Conn σ

namespace Conn

variable {σ : Type}

/-- Count one statement. -/
def tick (c : Conn σ) : Conn σ := { c with stmts := c.stmts + 1 }

/-- Record the state when no transaction is open. -/
def settle (c : Conn σ) : Conn σ :=
  match c.saved with
  | none => { c with seen := c.seen ++ [c.db] }
  | some _ => c

/-- The connection right after `BEGIN`. -/
def opened (c : Conn σ) : Conn σ :=
  { c with saved := some c.db, stmts := c.stmts + 1 }

/-- What a dying process leaves: an open transaction is rolled back. -/
def crash (c : Conn σ) : Conn σ :=
  { c with db := c.saved.getD c.db, saved := none, seen := c.seen ++ [c.saved.getD c.db] }

@[simp] theorem tick_mk (db : σ) (s : Option σ) (n : Nat) (l : List σ) :
    tick ⟨db, s, n, l⟩ = ⟨db, s, n + 1, l⟩ := rfl

@[simp] theorem crash_saved (c : Conn σ) : c.crash.saved = none := rfl

@[simp] theorem crash_db (c : Conn σ) : c.crash.db = c.saved.getD c.db := rfl

@[simp] theorem settle_closed (db : σ) (n : Nat) (l : List σ) :
    settle ⟨db, none, n, l⟩ = ⟨db, none, n, l ++ [db]⟩ := rfl

@[simp] theorem settle_open (db s : σ) (n : Nat) (l : List σ) :
    settle ⟨db, some s, n, l⟩ = ⟨db, some s, n, l⟩ := rfl

end Conn

namespace Prog

variable {σ ε α β : Type}

/-- Return a value. -/
def ret (a : α) : Prog σ ε α := fun _ c => (.returned a, c)

/-- Raise an exception of the program. -/
def raise (e : ε) : Prog σ ε α := fun _ c => (.raised (.app e), c)

/-- The process dies. -/
def die : Prog σ ε α := fun _ c => (.crashed, c.crash)

/-- Raise a caught exception again. -/
def reraise (e : Exc ε) : Prog σ ε α := fun _ c => (.raised e, c)

/-- `try: p`, `except ...: handler` and `else: rest`.  A crash is not
caught. -/
def tryElse (p : Prog σ ε α) (rest : α → Prog σ ε β) (handler : Exc ε → Prog σ ε β) :
    Prog σ ε β := fun plan c =>
  match p plan c with
  | (.returned a, c') => rest a plan c'
  | (.raised e, c') => handler e plan c'
  | (.crashed, c') => (.crashed, c')

/-- Run one program after the other. -/
def bind (p : Prog σ ε α) (f : α → Prog σ ε β) : Prog σ ε β := tryElse p f reraise

instance : Monad (Prog σ ε) where
  pure := ret
  bind := bind

/-- One statement: it fails, the process dies before it, or it runs. -/
def statement (run : Conn σ → Except DbError (Conn σ × α)) : Prog σ ε α := fun plan c =>
  match plan c.stmts with
  | some .crashes => (.crashed, c.crash)
  | some .fails => (.raised (.db .operational), c.tick)
  | none =>
    match run c with
    | .ok (c', a) => (.returned a, c'.tick.settle)
    | .error e => (.raised (.db e), c.tick)

/-- `SELECT`. -/
def query (f : σ → α) : Prog σ ε α := statement (fun c => .ok (c, f c.db))

/-- A writing statement. -/
def execute (f : σ → Except DbError (σ × α)) : Prog σ ε α :=
  statement (fun c => (f c.db).map (fun r => ({ c with db := r.1 }, r.2)))

/-- `BEGIN IMMEDIATE`. -/
def begin : Prog σ ε Unit := statement (fun c =>
  match c.saved with
  | none => .ok ({ c with saved := some c.db }, ())
  | some _ => .error .operational)

/-- `COMMIT`. -/
def commit : Prog σ ε Unit := statement (fun c =>
  match c.saved with
  | some _ => .ok ({ c with saved := none }, ())
  | none => .error .operational)

/-- `ROLLBACK`. -/
def rollback : Prog σ ε Unit := statement (fun c =>
  match c.saved with
  | some s => .ok ({ c with db := s, saved := none }, ())
  | none => .error .operational)

/-- The implicit `COMMIT` of `executescript`, issued only when a transaction
is open. -/
def commitPending : Prog σ ε Unit := fun plan c =>
  match c.saved with
  | none => (.returned (), c)
  | some _ => commit plan c

/-- `executescript`. -/
def executescript (script : σ → σ) : Prog σ ε Unit :=
  bind commitPending (fun _ => execute (fun s => .ok (script s, ())))

/-- The context manager `transaction`: commit on success, roll back and
raise again on error. -/
def transaction (body : Prog σ ε α) : Prog σ ε α :=
  bind begin (fun _ => tryElse body (fun a => bind commit (fun _ => ret a))
    (fun e => bind rollback (fun _ => reraise e)))

/-! ## Running a program step by step -/

section Run

variable {plan : Plan} {c c' : Conn σ}

theorem tryElse_returned {p : Prog σ ε α} {rest : α → Prog σ ε β}
    {handler : Exc ε → Prog σ ε β} {a : α} (h : p plan c = (.returned a, c')) :
    tryElse p rest handler plan c = rest a plan c' := by
  simp [tryElse, h]

theorem tryElse_raised {p : Prog σ ε α} {rest : α → Prog σ ε β}
    {handler : Exc ε → Prog σ ε β} {e : Exc ε} (h : p plan c = (.raised e, c')) :
    tryElse p rest handler plan c = handler e plan c' := by
  simp [tryElse, h]

theorem tryElse_crashed {p : Prog σ ε α} {rest : α → Prog σ ε β}
    {handler : Exc ε → Prog σ ε β} (h : p plan c = (.crashed, c')) :
    tryElse p rest handler plan c = (.crashed, c') := by
  simp [tryElse, h]

theorem bind_returned {p : Prog σ ε α} {f : α → Prog σ ε β} {a : α}
    (h : p plan c = (.returned a, c')) : bind p f plan c = f a plan c' :=
  tryElse_returned h

theorem statement_ok {run : Conn σ → Except DbError (Conn σ × α)} {a : α} (c' : Conn σ)
    (hplan : plan c.stmts = none) (hrun : run c = .ok (c', a)) :
    (statement run : Prog σ ε α) plan c = (.returned a, c'.tick.settle) := by
  simp [statement, hplan, hrun]

theorem query_ok (f : σ → α) (hplan : plan c.stmts = none) :
    (query f : Prog σ ε α) plan c = (.returned (f c.db), c.tick.settle) :=
  statement_ok c hplan rfl

theorem execute_ok {f : σ → Except DbError (σ × α)} {r : σ × α} (hplan : plan c.stmts = none)
    (hf : f c.db = .ok r) :
    (execute f : Prog σ ε α) plan c = (.returned r.2, Conn.settle { c.tick with db := r.1 }) :=
  statement_ok { c with db := r.1 } hplan (by simp [hf, Except.map])

end Run

/-! ## Runs without a fault

Under `calm` the equations below evaluate a program on a connection that is
written out. -/

/-- The plan without faults. -/
def calm : Plan := fun _ => none

@[simp] theorem ret_run (a : α) (plan : Plan) (c : Conn σ) :
    (ret a : Prog σ ε α) plan c = (.returned a, c) := rfl

@[simp] theorem pure_run (a : α) (plan : Plan) (c : Conn σ) :
    (pure a : Prog σ ε α) plan c = (.returned a, c) := rfl

@[simp] theorem raise_run (e : ε) (plan : Plan) (c : Conn σ) :
    (raise e : Prog σ ε α) plan c = (.raised (.app e), c) := rfl

@[simp] theorem die_run (plan : Plan) (c : Conn σ) :
    (die : Prog σ ε α) plan c = (.crashed, c.crash) := rfl

@[simp] theorem reraise_run (e : Exc ε) (plan : Plan) (c : Conn σ) :
    (reraise e : Prog σ ε α) plan c = (.raised e, c) := rfl

@[simp] theorem tryElse_run (p : Prog σ ε α) (rest : α → Prog σ ε β)
    (handler : Exc ε → Prog σ ε β) (plan : Plan) (c : Conn σ) :
    tryElse p rest handler plan c =
      match p plan c with
      | (.returned a, c') => rest a plan c'
      | (.raised e, c') => handler e plan c'
      | (.crashed, c') => (.crashed, c') := rfl

@[simp] theorem bind_run (p : Prog σ ε α) (f : α → Prog σ ε β) (plan : Plan) (c : Conn σ) :
    (p >>= f) plan c = tryElse p f reraise plan c := rfl

@[simp] theorem query_calm (f : σ → α) (c : Conn σ) :
    (query f : Prog σ ε α) calm c = (.returned (f c.db), c.tick.settle) := rfl

@[simp] theorem execute_calm (f : σ → Except DbError (σ × α)) (c : Conn σ) :
    (execute f : Prog σ ε α) calm c =
      match f c.db with
      | .ok r => (.returned r.2, Conn.settle { c.tick with db := r.1 })
      | .error e => (.raised (.db e), c.tick) := by
  cases hf : f c.db <;> simp [execute, statement, calm, hf, Except.map, Conn.tick]

@[simp] theorem begin_calm (db : σ) (n : Nat) (l : List σ) :
    (begin : Prog σ ε Unit) calm ⟨db, none, n, l⟩ = (.returned (), ⟨db, some db, n + 1, l⟩) :=
  rfl

@[simp] theorem commit_calm (db s : σ) (n : Nat) (l : List σ) :
    (commit : Prog σ ε Unit) calm ⟨db, some s, n, l⟩ =
      (.returned (), ⟨db, none, n + 1, l ++ [db]⟩) :=
  rfl

@[simp] theorem commit_calm_closed (db : σ) (n : Nat) (l : List σ) :
    (commit : Prog σ ε Unit) calm ⟨db, none, n, l⟩ =
      (.raised (.db .operational), ⟨db, none, n + 1, l⟩) :=
  rfl

@[simp] theorem rollback_calm (db s : σ) (n : Nat) (l : List σ) :
    (rollback : Prog σ ε Unit) calm ⟨db, some s, n, l⟩ =
      (.returned (), ⟨s, none, n + 1, l ++ [s]⟩) :=
  rfl

@[simp] theorem rollback_calm_closed (db : σ) (n : Nat) (l : List σ) :
    (rollback : Prog σ ε Unit) calm ⟨db, none, n, l⟩ =
      (.raised (.db .operational), ⟨db, none, n + 1, l⟩) :=
  rfl

@[simp] theorem commitPending_calm (db s : σ) (n : Nat) (l : List σ) :
    (commitPending : Prog σ ε Unit) calm ⟨db, some s, n, l⟩ =
      (.returned (), ⟨db, none, n + 1, l ++ [db]⟩) :=
  rfl

@[simp] theorem transaction_run (body : Prog σ ε α) (plan : Plan) (c : Conn σ) :
    transaction body plan c = tryElse begin
      (fun _ => tryElse body (fun a => tryElse commit (fun _ => ret a) reraise)
        (fun e => tryElse rollback (fun _ => reraise e) reraise)) reraise plan c :=
  rfl

end Prog

/-- Every state the connection holds has the property `P`. -/
structure Conn.All {σ : Type} (P : σ → Prop) (c : Conn σ) : Prop where
  db : P c.db
  saved : ∀ s, c.saved = some s → P s
  seen : ∀ s ∈ c.seen, P s

/-- Every committed state has the property `P`; the open transaction may
break it. -/
structure Conn.Visible {σ : Type} (P : σ → Prop) (c : Conn σ) : Prop where
  committed : P (c.saved.getD c.db)
  seen : ∀ s ∈ c.seen, P s

theorem Conn.All.visible {σ : Type} {P : σ → Prop} {c : Conn σ} (h : c.All P) :
    c.Visible P := by
  refine ⟨?_, h.seen⟩
  cases hs : c.saved with
  | none => exact h.db
  | some s => exact h.saved s hs

theorem Conn.Visible.all {σ : Type} {P : σ → Prop} {c : Conn σ} (h : c.Visible P)
    (hclosed : c.saved = none) : c.All P :=
  ⟨by simpa [hclosed] using h.committed, by simp [hclosed], h.seen⟩

theorem Conn.Visible.crash {σ : Type} {P : σ → Prop} {c : Conn σ} (h : c.Visible P) :
    c.crash.All P := by
  refine ⟨h.committed, by simp [Conn.crash], fun s hs => ?_⟩
  simp only [Conn.crash, List.mem_append, List.mem_singleton] at hs
  rcases hs with hs | rfl
  · exact h.seen s hs
  · exact h.committed

theorem Conn.All.tick {σ : Type} {P : σ → Prop} {c : Conn σ} (h : c.All P) : c.tick.All P :=
  ⟨h.db, h.saved, h.seen⟩

theorem Conn.All.settle {σ : Type} {P : σ → Prop} {c : Conn σ} (h : c.All P) :
    c.settle.All P := by
  unfold Conn.settle
  split
  · refine ⟨h.db, h.saved, fun s hs => ?_⟩
    rcases List.mem_append.mp hs with hs | hs
    · exact h.seen s hs
    · exact List.mem_singleton.mp hs ▸ h.db
  · exact h

namespace Prog

variable {σ ε α β : Type} {P : σ → Prop}

/-- The program keeps `P` in every state the connection holds. -/
def Keeps (P : σ → Prop) (p : Prog σ ε α) : Prop :=
  ∀ plan c, Conn.All P c → (p plan c).2.All P

theorem Keeps.ret (a : α) : Keeps P (Prog.ret a : Prog σ ε α) := fun _ _ h => h

theorem Keeps.raise (e : ε) : Keeps P (Prog.raise e : Prog σ ε α) := fun _ _ h => h

theorem Keeps.reraise (e : Exc ε) : Keeps P (Prog.reraise e : Prog σ ε α) := fun _ _ h => h

theorem Keeps.tryElse {p : Prog σ ε α} {rest : α → Prog σ ε β}
    {handler : Exc ε → Prog σ ε β} (hp : Keeps P p) (hrest : ∀ a, Keeps P (rest a))
    (hhandler : ∀ e, Keeps P (handler e)) : Keeps P (Prog.tryElse p rest handler) := by
  intro plan c hc
  have h := hp plan c hc
  unfold Prog.tryElse
  split <;> rename_i heq <;> rw [heq] at h
  · exact hrest _ plan _ h
  · exact hhandler _ plan _ h
  · exact h

theorem Keeps.bind {p : Prog σ ε α} {f : α → Prog σ ε β} (hp : Keeps P p)
    (hf : ∀ a, Keeps P (f a)) : Keeps P (Prog.bind p f) :=
  hp.tryElse hf Keeps.reraise

theorem Keeps.statement {run : Conn σ → Except DbError (Conn σ × α)}
    (hrun : ∀ c c' a, Conn.All P c → run c = .ok (c', a) → Conn.All P c') :
    Keeps P (Prog.statement run : Prog σ ε α) := by
  intro plan c hc
  unfold Prog.statement
  split
  · exact hc.visible.crash
  · exact hc.tick
  · split
    · rename_i heq
      exact (hrun c _ _ hc heq).tick.settle
    · exact hc.tick

theorem Keeps.query (f : σ → α) : Keeps P (Prog.query f : Prog σ ε α) := by
  refine Keeps.statement (fun c c' a hc h => ?_)
  simp only [Except.ok.injEq, Prod.mk.injEq] at h
  exact h.1 ▸ hc

theorem Keeps.execute {f : σ → Except DbError (σ × α)}
    (hf : ∀ s s' a, P s → f s = .ok (s', a) → P s') :
    Keeps P (Prog.execute f : Prog σ ε α) := by
  refine Keeps.statement (fun c c' a hc h => ?_)
  cases hfs : f c.db with
  | error e => simp [hfs, Except.map] at h
  | ok r =>
    simp only [hfs, Except.map, Except.ok.injEq, Prod.mk.injEq] at h
    obtain ⟨rfl, -⟩ := h
    exact ⟨hf _ r.1 r.2 hc.db hfs, hc.saved, hc.seen⟩

theorem Keeps.begin : Keeps P (Prog.begin : Prog σ ε Unit) := by
  refine Keeps.statement (fun c c' a hc h => ?_)
  cases hs : c.saved <;> simp only [hs, Except.ok.injEq, Prod.mk.injEq, reduceCtorEq] at h
  obtain ⟨rfl, -⟩ := h
  exact ⟨hc.db, fun s hs => Option.some.inj hs ▸ hc.db, hc.seen⟩

theorem Keeps.commit : Keeps P (Prog.commit : Prog σ ε Unit) := by
  refine Keeps.statement (fun c c' a hc h => ?_)
  cases hs : c.saved <;> simp only [hs, Except.ok.injEq, Prod.mk.injEq, reduceCtorEq] at h
  obtain ⟨rfl, -⟩ := h
  exact ⟨hc.db, by simp, hc.seen⟩

theorem Keeps.rollback : Keeps P (Prog.rollback : Prog σ ε Unit) := by
  refine Keeps.statement (fun c c' a hc h => ?_)
  cases hs : c.saved with
  | none => simp [hs] at h
  | some s =>
    simp only [hs, Except.ok.injEq, Prod.mk.injEq] at h
    obtain ⟨rfl, -⟩ := h
    exact ⟨hc.saved s hs, by simp, hc.seen⟩

theorem Keeps.transaction {body : Prog σ ε α} (hbody : Keeps P body) :
    Keeps P (Prog.transaction body) := by
  exact Keeps.begin.bind (fun _ => hbody.tryElse
    (fun a => Keeps.commit.bind (fun _ => Keeps.ret a))
    (fun e => Keeps.rollback.bind (fun _ => Keeps.reraise e)))

/-! ## The history only grows -/

/-- The program extends the history. -/
def Grows (p : Prog σ ε α) : Prop := ∀ plan c, c.seen ⊆ (p plan c).2.seen

theorem Grows.ret (a : α) : Grows (Prog.ret a : Prog σ ε α) := fun _ _ _ h => h

theorem Grows.raise (e : ε) : Grows (Prog.raise e : Prog σ ε α) := fun _ _ _ h => h

theorem Grows.reraise (e : Exc ε) : Grows (Prog.reraise e : Prog σ ε α) := fun _ _ _ h => h

theorem Grows.tryElse {p : Prog σ ε α} {rest : α → Prog σ ε β}
    {handler : Exc ε → Prog σ ε β} (hp : Grows p) (hrest : ∀ a, Grows (rest a))
    (hhandler : ∀ e, Grows (handler e)) : Grows (Prog.tryElse p rest handler) := by
  intro plan c s hs
  have h := hp plan c hs
  unfold Prog.tryElse
  split <;> rename_i heq <;> rw [heq] at h
  · exact hrest _ plan _ h
  · exact hhandler _ plan _ h
  · exact h

theorem Grows.bind {p : Prog σ ε α} {f : α → Prog σ ε β} (hp : Grows p)
    (hf : ∀ a, Grows (f a)) : Grows (Prog.bind p f) :=
  hp.tryElse hf Grows.reraise

theorem Grows.statement {run : Conn σ → Except DbError (Conn σ × α)}
    (hrun : ∀ c c' a, run c = .ok (c', a) → c'.seen = c.seen) :
    Grows (Prog.statement run : Prog σ ε α) := by
  intro plan c s hs
  unfold Prog.statement
  split
  · exact List.mem_append_left _ hs
  · exact hs
  · split
    · rename_i c' a heq
      rw [← hrun c c' a heq] at hs
      dsimp only [Conn.settle, Conn.tick]
      split
      · exact List.mem_append_left _ hs
      · exact hs
    · exact hs

theorem Grows.query (f : σ → α) : Grows (Prog.query f : Prog σ ε α) := by
  refine Grows.statement (fun c c' a h => ?_)
  simp only [Except.ok.injEq, Prod.mk.injEq] at h
  rw [h.1]

theorem Grows.execute (f : σ → Except DbError (σ × α)) :
    Grows (Prog.execute f : Prog σ ε α) := by
  refine Grows.statement (fun c c' a h => ?_)
  cases hfs : f c.db <;> simp only [hfs, Except.map, Except.ok.injEq, Prod.mk.injEq,
    reduceCtorEq] at h
  exact h.1 ▸ rfl

theorem Grows.begin : Grows (Prog.begin : Prog σ ε Unit) := by
  refine Grows.statement (fun c c' a h => ?_)
  cases hs : c.saved <;> simp only [hs, Except.ok.injEq, Prod.mk.injEq, reduceCtorEq] at h
  exact h.1 ▸ rfl

theorem Grows.commit : Grows (Prog.commit : Prog σ ε Unit) := by
  refine Grows.statement (fun c c' a h => ?_)
  cases hs : c.saved <;> simp only [hs, Except.ok.injEq, Prod.mk.injEq, reduceCtorEq] at h
  exact h.1 ▸ rfl

theorem Grows.rollback : Grows (Prog.rollback : Prog σ ε Unit) := by
  refine Grows.statement (fun c c' a h => ?_)
  cases hs : c.saved <;> simp only [hs, Except.ok.injEq, Prod.mk.injEq, reduceCtorEq] at h
  exact h.1 ▸ rfl

theorem Grows.transaction {body : Prog σ ε α} (hbody : Grows body) :
    Grows (Prog.transaction body) := by
  exact Grows.begin.bind (fun _ => hbody.tryElse
    (fun a => Grows.commit.bind (fun _ => Grows.ret a))
    (fun e => Grows.rollback.bind (fun _ => Grows.reraise e)))

/-- A state seen in the first part is seen in the whole. -/
theorem mem_seen_tryElse {p : Prog σ ε α} {rest : α → Prog σ ε β}
    {handler : Exc ε → Prog σ ε β} {plan : Plan} {c : Conn σ} {s : σ}
    (hs : s ∈ (p plan c).2.seen) (hrest : ∀ a, Grows (rest a))
    (hhandler : ∀ e, Grows (handler e)) : s ∈ (tryElse p rest handler plan c).2.seen := by
  unfold Prog.tryElse
  split <;> rename_i heq <;> rw [heq] at hs
  · exact hrest _ plan _ hs
  · exact hhandler _ plan _ hs
  · exact hs

/-! ## A body that does not come to its end -/

/-- The program ended early, inside the transaction that was open at `c`:
it raised there, or the process died there. -/
def Aborts (c : Conn σ) (out : Outcome ε α × Conn σ) : Prop :=
  ∃ c' : Conn σ, c'.saved = c.saved ∧ c'.seen = c.seen ∧
    ((∃ e, out = (.raised e, c')) ∨ out = (.crashed, c'.crash))

theorem Aborts.trans {c c' : Conn σ} {out : Outcome ε α × Conn σ} (h : Aborts c' out)
    (hsaved : c'.saved = c.saved) (hseen : c'.seen = c.seen) : Aborts c out := by
  obtain ⟨c₂, hs₂, hn₂, hend⟩ := h
  exact ⟨c₂, hs₂.trans hsaved, hn₂.trans hseen, hend⟩

/-- An early end of the first part is an early end of the whole. -/
theorem Aborts.bind {p : Prog σ ε α} {f : α → Prog σ ε β} {plan : Plan} {c : Conn σ}
    (h : Aborts c (p plan c)) : Aborts c (Prog.bind p f plan c) := by
  obtain ⟨c', hsaved, hseen, ⟨e, he⟩ | he⟩ := h
  · exact ⟨c', hsaved, hseen, Or.inl ⟨e, tryElse_raised he⟩⟩
  · exact ⟨c', hsaved, hseen, Or.inr (tryElse_crashed he)⟩

theorem Aborts.of_fault {run : Conn σ → Except DbError (Conn σ × α)} {plan : Plan}
    {c : Conn σ} (h : plan c.stmts ≠ none) :
    Aborts c ((Prog.statement run : Prog σ ε α) plan c) := by
  unfold Prog.statement
  split
  · exact ⟨c, rfl, rfl, Or.inr rfl⟩
  · exact ⟨c.tick, rfl, rfl, Or.inl ⟨_, rfl⟩⟩
  · rename_i hnone
    exact absurd hnone h

theorem Aborts.not_returned {out : Outcome ε α × Conn σ} {c c' : Conn σ} {a : α}
    (h : Aborts c out) : out ≠ (.returned a, c') := by
  rintro rfl
  obtain ⟨c₂, -, -, ⟨e, he⟩ | he⟩ := h <;> simp at he

/-- An early end leaves the committed states of an open transaction. -/
theorem Aborts.visible {out : Outcome ε α × Conn σ} {c : Conn σ} {s : σ} (h : Aborts c out)
    (hopen : c.saved = some s) (hvis : c.Visible P) : out.2.Visible P := by
  obtain ⟨c', hsaved, hseen, hend⟩ := h
  have hvis' : c'.Visible P := by
    refine ⟨?_, hseen ▸ hvis.seen⟩
    have hcommitted := hvis.committed
    rw [hopen] at hcommitted
    rw [hsaved, hopen]
    exact hcommitted
  rcases hend with ⟨e, rfl⟩ | rfl
  · exact hvis'
  · exact hvis'.crash.visible

/-- A statement that does not apply raises. -/
theorem Aborts.of_error {run : Conn σ → Except DbError (Conn σ × α)} {plan : Plan}
    {c : Conn σ} {e : DbError} (h : run c = .error e) :
    Aborts c ((Prog.statement run : Prog σ ε α) plan c) := by
  by_cases hplan : plan c.stmts = none
  · exact ⟨c.tick, rfl, rfl, Or.inl ⟨.db e, by simp [Prog.statement, hplan, h]⟩⟩
  · exact Aborts.of_fault hplan

/-- Inside an open transaction a second one does not start, so the committed
states stay as they are. -/
theorem transaction_visible {body : Prog σ ε α} (hbody : Keeps P body) {plan : Plan}
    {c : Conn σ} (hc : c.Visible P) : (Prog.transaction body plan c).2.Visible P := by
  cases hs : c.saved with
  | none => exact ((Keeps.transaction hbody) plan c (hc.all hs)).visible
  | some s =>
    have hbegin : Aborts c ((Prog.begin : Prog σ ε Unit) plan c) :=
      Aborts.of_error (e := .operational) (by simp [hs])
    exact hbegin.bind.visible hs hc

/-- The committed states through `try`: the first part keeps them, and so
does what follows it. -/
theorem tryElse_visible {p : Prog σ ε α} {rest : α → Prog σ ε β}
    {handler : Exc ε → Prog σ ε β} {plan : Plan} {c : Conn σ}
    (hp : (p plan c).2.Visible P) (hrest : ∀ a c', c'.Visible P → (rest a plan c').2.Visible P)
    (hhandler : ∀ e c', c'.Visible P → (handler e plan c').2.Visible P) :
    (Prog.tryElse p rest handler plan c).2.Visible P := by
  unfold Prog.tryElse
  split <;> rename_i heq <;> rw [heq] at hp
  · exact hrest _ _ hp
  · exact hhandler _ _ hp
  · exact hp

/-- A rollback keeps the committed states, also when it fails. -/
theorem rollback_visible (plan : Plan) {c : Conn σ} {s : σ} (hopen : c.saved = some s)
    (h : c.Visible P) : ((Prog.rollback : Prog σ ε Unit) plan c).2.Visible P := by
  by_cases hplan : plan c.stmts = none
  · have hP : P s := by simpa [hopen] using h.committed
    unfold Prog.rollback
    rw [statement_ok { c with db := s, saved := none } (a := ()) hplan
      (by simp [hopen])]
    have hrolled : Conn.All P { c with db := s, saved := none } :=
      ⟨hP, by simp, h.seen⟩
    exact hrolled.tick.settle.visible
  · have hfault : Aborts c ((Prog.rollback : Prog σ ε Unit) plan c) := Aborts.of_fault hplan
    exact hfault.visible hopen h

theorem begin_opened {plan : Plan} {c : Conn σ} (hclosed : c.saved = none)
    (hplan : plan c.stmts = none) :
    (Prog.begin : Prog σ ε Unit) plan c = (.returned (), c.opened) := by
  unfold Prog.begin
  rw [statement_ok { c with saved := some c.db } (a := ()) hplan (by simp [hclosed])]
  rfl

/-- The program ended inside the transaction that was open at `c`. -/
def Inside (c : Conn σ) (out : Outcome ε α × Conn σ) : Prop :=
  Aborts c out ∨ ∃ a c', out = (.returned a, c') ∧ c'.saved = c.saved ∧ c'.seen = c.seen

theorem Inside.trans {c c' : Conn σ} {out : Outcome ε α × Conn σ} (h : Inside c' out)
    (hsaved : c'.saved = c.saved) (hseen : c'.seen = c.seen) : Inside c out := by
  rcases h with habort | ⟨a, c₂, hout, hs₂, hn₂⟩
  · exact Or.inl (habort.trans hsaved hseen)
  · exact Or.inr ⟨a, c₂, hout, hs₂.trans hsaved, hn₂.trans hseen⟩

theorem Inside.ret (c : Conn σ) (plan : Plan) (a : α) :
    Inside c ((Prog.ret a : Prog σ ε α) plan c) :=
  Or.inr ⟨a, c, rfl, rfl, rfl⟩

/-- A read or write of the database stays inside. -/
theorem Inside.execute {c : Conn σ} {s : σ} (hopen : c.saved = some s) (plan : Plan)
    (f : σ → Except DbError (σ × α)) : Inside c ((Prog.execute f : Prog σ ε α) plan c) := by
  by_cases hp : plan c.stmts = none
  · cases hf : f c.db with
    | error e =>
      exact Or.inl (Aborts.of_error (e := e) (by simp [hf, Except.map]))
    | ok r =>
      refine Or.inr ⟨r.2, { c.tick with db := r.1 }, ?_, rfl, rfl⟩
      rw [execute_ok hp hf]
      simp [Conn.settle, Conn.tick, hopen]
  · exact Or.inl (Aborts.of_fault hp)

theorem Inside.query {c : Conn σ} {s : σ} (hopen : c.saved = some s) (plan : Plan)
    (f : σ → α) : Inside c ((Prog.query f : Prog σ ε α) plan c) := by
  by_cases hp : plan c.stmts = none
  · refine Or.inr ⟨f c.db, c.tick, ?_, rfl, rfl⟩
    rw [query_ok f hp]
    simp [Conn.settle, Conn.tick, hopen]
  · exact Or.inl (Aborts.of_fault hp)

theorem Inside.bind {p : Prog σ ε α} {f : α → Prog σ ε β} {plan : Plan} {c : Conn σ}
    (hp : Inside c (p plan c))
    (hf : ∀ a c', c'.saved = c.saved → c'.seen = c.seen → Inside c' (f a plan c')) :
    Inside c (Prog.bind p f plan c) := by
  rcases hp with habort | ⟨a, c', hout, hsaved, hseen⟩
  · exact Or.inl habort.bind
  · rw [bind_returned hout]
    exact (hf a c' hsaved hseen).trans hsaved hseen

/-- An early end inside an open transaction leaves it open, unless the
process died. -/
theorem Aborts.saved_ne_none {out : Outcome ε α × Conn σ} {c : Conn σ} {s : σ} {e : Exc ε}
    (h : Aborts c out) (hopen : c.saved = some s) (hraised : out.1 = .raised e) :
    out.2.saved ≠ none := by
  obtain ⟨c', hsaved, -, ⟨e', rfl⟩ | rfl⟩ := h
  · simp [hsaved, hopen]
  · simp at hraised

/-- A `BEGIN` that does not run leaves the database. -/
theorem transaction_not_begun (body : Prog σ ε α) {plan : Plan} {c : Conn σ}
    (hplan : plan c.stmts ≠ none) (hall : c.All P) :
    (Prog.transaction body plan c).2.Visible P ∧
      ∀ e, (Prog.transaction body plan c).1 = .raised e →
        (Prog.transaction body plan c).2.db = c.db := by
  cases hfault : plan c.stmts with
  | none => exact absurd hfault hplan
  | some fault =>
    cases fault with
    | fails =>
      have hraised : (Prog.begin : Prog σ ε Unit) plan c = (.raised (.db .operational), c.tick) := by
        simp [Prog.begin, Prog.statement, hfault]
      have hrun : Prog.transaction body plan c = (.raised (.db .operational), c.tick) :=
        tryElse_raised hraised
      rw [hrun]
      exact ⟨hall.tick.visible, fun _ _ => rfl⟩
    | crashes =>
      have hcrashed : (Prog.begin : Prog σ ε Unit) plan c = (.crashed, c.crash) := by
        simp [Prog.begin, Prog.statement, hfault]
      have hrun : Prog.transaction body plan c = (.crashed, c.crash) := tryElse_crashed hcrashed
      rw [hrun]
      exact ⟨hall.visible.crash.visible, fun _ h => by simp at h⟩

/-- What a transaction whose body stays inside it does: its commit publishes
the database of the body, and after an exception the database is the old
one, unless the transaction is still open. -/
theorem transaction_inside {body : Prog σ ε α} {plan : Plan} {c : Conn σ}
    (hclosed : c.saved = none) (hall : c.All P)
    (hbody : plan c.stmts = none → Inside c.opened (body plan c.opened))
    (hP : ∀ a c', body plan c.opened = (.returned a, c') → plan c.stmts = none →
      plan c'.stmts = none → P c'.db) :
    (Prog.transaction body plan c).2.Visible P ∧
      ∀ e, (Prog.transaction body plan c).1 = .raised e →
        (Prog.transaction body plan c).2.saved = none →
        (Prog.transaction body plan c).2.db = c.db := by
  by_cases hbegin : plan c.stmts ≠ none
  · obtain ⟨hvis, hdb⟩ := transaction_not_begun body hbegin hall
    exact ⟨hvis, fun e he _ => hdb e he⟩
  have hplan := not_not.mp hbegin
  unfold Prog.transaction
  rw [bind_returned (begin_opened hclosed hplan)]
  have hopened : c.opened.Visible P := ⟨hall.db, hall.seen⟩
  rcases hbody hplan with habort | ⟨a, c', hout, hsaved, hseen⟩
  · have hvis := habort.visible rfl hopened
    obtain ⟨c', hsaved, -, ⟨e, he⟩ | he⟩ := habort
    · rw [he] at hvis
      rw [tryElse_raised he]
      by_cases hp : plan c'.stmts = none
      · have hroll := rollback_visible (ε := ε) plan (hsaved.trans rfl) hvis
        have hrolled : (Prog.rollback : Prog σ ε Unit) plan c' =
            (.returned (), Conn.settle (Conn.tick { c' with db := c.db, saved := none })) := by
          unfold Prog.rollback
          exact statement_ok _ hp (by rw [hsaved]; rfl)
        rw [hrolled] at hroll
        rw [bind_returned hrolled]
        exact ⟨hroll, fun _ _ _ => rfl⟩
      · have hfault : Aborts c' ((Prog.rollback : Prog σ ε Unit) plan c') := Aborts.of_fault hp
        exact ⟨hfault.bind.visible (hsaved.trans rfl) hvis, fun _ hraised hnone =>
          absurd hnone (hfault.bind.saved_ne_none (hsaved.trans rfl) hraised)⟩
    · rw [he] at hvis
      rw [tryElse_crashed he]
      exact ⟨hvis, fun _ h => by simp at h⟩
  · rw [tryElse_returned hout]
    have hvis : c'.Visible P := by
      refine ⟨?_, hseen ▸ hall.seen⟩
      rw [hsaved]
      exact hall.db
    by_cases hp : plan c'.stmts = none
    · have hcommit : (Prog.commit : Prog σ ε Unit) plan c' =
          (.returned (), Conn.settle (Conn.tick { c' with saved := none })) := by
        unfold Prog.commit
        exact statement_ok _ hp (by rw [hsaved]; rfl)
      rw [bind_returned hcommit]
      have hdone : Conn.All P { c' with saved := none } :=
        ⟨hP a c' hout hplan hp, by simp, hvis.seen⟩
      exact ⟨hdone.tick.settle.visible, fun _ h => by simp at h⟩
    · have hfault : Aborts c' ((Prog.commit : Prog σ ε Unit) plan c') := Aborts.of_fault hp
      exact ⟨hfault.bind.visible (hsaved.trans rfl) hvis, fun _ hraised hnone =>
        absurd hnone (hfault.bind.saved_ne_none (hsaved.trans rfl) hraised)⟩

end Prog

end Sqlite
