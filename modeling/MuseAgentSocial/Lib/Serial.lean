import MuseAgentSocial.Lib.Machine

/-!
# Processes that share a database with one write lock

A `Txn` is the body of a transaction: statements on the database, each of which may
raise.  A `Script` is a process: it reads the committed database, or runs a transaction
and goes on with what that returned or raised.

`serving` is the machine in which any number of processes run such scripts.  `BEGIN
IMMEDIATE` takes the write lock, so at most one transaction is open.  Its statements
work on a copy that becomes the database at the commit and is dropped when a statement
raises, fails or its process dies.  Any statement may fail, and any process may die, at
any point.

The rules reduce this to whole transactions: the database only changes by the run of
a whole body on it (`serving_step`), and what every body keeps holds in every database
that is reached (`serving_invariant`).  A body may depend on what its process read before
it, so `Script.Every` asks of it only what it does on databases that have come by `R` from
the one that was read, where `R` is what every commit does (`Rely`).
-/

/-- The body of a transaction: it returns, raises, or runs a statement.  What follows a
statement reads the database as it was before it. -/
inductive Txn (σ ε α : Type) where
  | ret (a : α)
  | raise (e : ε)
  | stmt (f : σ → Except ε σ) (next : σ → Txn σ ε α)

namespace Txn

variable {σ ε α β : Type}

/-- Run a body on a database. -/
def exec : Txn σ ε α → σ → Except ε (σ × α)
  | .ret a, s => .ok (s, a)
  | .raise e, _ => .error e
  | .stmt f next, s => (f s).bind (fun s' => (next s).exec s')

/-- One body after the other. -/
def bind : Txn σ ε α → (α → Txn σ ε β) → Txn σ ε β
  | .ret a, k => k a
  | .raise e, _ => .raise e
  | .stmt f next, k => .stmt f (fun s => (next s).bind k)

/-- `SELECT` -/
def query (k : σ → Txn σ ε α) : Txn σ ε α := .stmt .ok k

/-- A statement whose result nothing reads. -/
def execute (f : σ → Except ε σ) (k : Txn σ ε α) : Txn σ ε α := .stmt f (fun _ => k)

@[simp] theorem exec_ret (a : α) (s : σ) : (ret a : Txn σ ε α).exec s = .ok (s, a) := rfl

@[simp] theorem exec_raise (e : ε) (s : σ) : (raise e : Txn σ ε α).exec s = .error e := rfl

@[simp] theorem exec_query (k : σ → Txn σ ε α) (s : σ) : (query k).exec s = (k s).exec s := rfl

@[simp] theorem exec_execute (f : σ → Except ε σ) (k : Txn σ ε α) (s : σ) :
    (execute f k).exec s = (f s).bind k.exec := rfl

theorem exec_bind (t : Txn σ ε α) (k : α → Txn σ ε β) (s : σ) :
    (t.bind k).exec s = (t.exec s).bind (fun r => (k r.2).exec r.1) := by
  induction t generalizing s with
  | ret a => rfl
  | raise e => rfl
  | stmt f next ih =>
    show (f s).bind (fun s' => ((next s).bind k).exec s') = ((f s).bind fun s' => (next s).exec s').bind _
    cases f s with
    | error e => rfl
    | ok s' => exact ih s s'

end Txn

/-- A process: it is done, reads the committed database, or runs a transaction. -/
inductive Script (σ ε α : Type) where
  | done
  | query (next : σ → Script σ ε α)
  | transaction (body : Txn σ ε α) (next : Except ε α → Script σ ε α)

/-- Every transaction that the process comes to from the database `s` on is of the kind `P`,
when the database moves by `R` between its reads and its transactions. -/
def Script.Every {σ ε α : Type} (R : σ → σ → Prop) (P : σ → Txn σ ε α → Prop) : Script σ ε α → σ → Prop
  | .done, _ => True
  | .query next, s => ∀ t, R s t → (next t).Every R P t
  | .transaction body next, s => ∀ t, R s t → P t body ∧ ∀ r, (next r).Every R P t

/-- A database with its processes.  `writer` is the one that holds the write lock, with
its copy of the database and what is left of its body. -/
structure Served (σ ε α ι : Type) where
  db : σ
  writer : Option (Nat × σ × Txn σ ε α) := none
  threads : List (ι × Script σ ε α) := []

/-- What happens next. -/
inductive Turn (ε ι : Type) where
  | call (op : ι)
  /-- The next statement of a process, its `BEGIN` or its `COMMIT`. -/
  | advance (i : Nat)
  /-- The statement fails. -/
  | fault (i : Nat) (e : ε)
  /-- The process dies. -/
  | kill (i : Nat)
  deriving DecidableEq, Repr

namespace Served

variable {σ ε α ι : Type}

/-- A process goes on. -/
def resume (S : Served σ ε α ι) (i : Nat) (op : ι) (p : Script σ ε α) : Served σ ε α ι :=
  { S with threads := S.threads.set i (op, p) }

/-- The transaction of the writer ends without a commit. -/
def rollback (S : Served σ ε α ι) (i : Nat) (op : ι) (p : Script σ ε α) : Served σ ε α ι :=
  { S.resume i op p with writer := none }

/-- The writer's next statement. -/
def write (S : Served σ ε α ι) (i : Nat) (op : ι) (next : Except ε α → Script σ ε α) (work : σ) :
    Txn σ ε α → Served σ ε α ι
  | .ret a => { S.resume i op (next (.ok a)) with db := work, writer := none }
  | .raise e => S.rollback i op (next (.error e))
  | .stmt f k =>
    match f work with
    | .ok work' => { S with writer := some (i, work', k work) }
    | .error e => S.rollback i op (next (.error e))

/-- One turn. -/
def next (code : ι → Script σ ε α) (S : Served σ ε α ι) : Turn ε ι → Option (Served σ ε α ι)
  | .call op => some { S with threads := S.threads ++ [(op, code op)] }
  | .advance i =>
    match S.threads[i]? with
    | some (op, .query k) => some (S.resume i op (k S.db))
    | some (op, .transaction body k) =>
      match S.writer with
      | none => some { S with writer := some (i, S.db, body) }
      | some (j, work, rest) => if j = i then some (S.write i op k work rest) else none
    | _ => none
  | .fault i e =>
    match S.threads[i]? with
    | some (op, .query _) => some (S.resume i op .done)
    | some (op, .transaction _ k) =>
      if S.writer.any (fun w => w.1 = i) then some (S.rollback i op (k (.error e)))
      else some (S.resume i op (k (.error e)))
    | _ => none
  | .kill i =>
    S.threads[i]?.map fun t =>
      if S.writer.any (fun w => w.1 = i) then S.rollback i t.1 .done else S.resume i t.1 .done

end Served

/-- Calls of the operations of `code` by any number of processes. -/
def serving {σ ε α ι : Type} (init : σ → Prop) (code : ι → Script σ ε α) : Machine (Served σ ε α ι) (Turn ε ι) where
  init S := init S.db ∧ S.writer = none ∧ S.threads = []
  step := Served.next code

section rules

variable {σ ε α ι : Type} {init : σ → Prop} {code : ι → Script σ ε α} {R : σ → σ → Prop}
  {P : ι → σ → Txn σ ε α → Prop}

/-- `R` is what the commits of the transactions do, any number of them. -/
structure Rely (R : σ → σ → Prop) (P : ι → σ → Txn σ ε α → Prop) : Prop where
  refl : ∀ s, R s s
  trans : ∀ s t u, R s t → R t u → R s u
  commit : ∀ op body s s' a, P op s body → body.exec s = .ok (s', a) → R s s'

/-- The database may move under a process. -/
theorem Script.Every.moved {Q : σ → Txn σ ε α → Prop} (htrans : ∀ s t u, R s t → R t u → R s u)
    {p : Script σ ε α} {s s' : σ} (h : p.Every R Q s) (hmove : R s s') : p.Every R Q s' := by
  cases p with
  | done => trivial
  | query next => exact fun t ht => h t (htrans _ _ _ hmove ht)
  | transaction body next => exact fun t ht => h t (htrans _ _ _ hmove ht)

/-- What holds of the processes under way: from the committed database on they only come to
transactions of their operation, and the copy of the writer is on its way from the database
to the end of the body. -/
structure Served.Lawful (R : σ → σ → Prop) (P : ι → σ → Txn σ ε α → Prop) (S : Served σ ε α ι) : Prop where
  threads : ∀ t ∈ S.threads, t.2.Every R (P t.1) S.db
  writer : ∀ i work rest, S.writer = some (i, work, rest) →
    ∃ op body next, S.threads[i]? = some (op, .transaction body next) ∧ rest.exec work = body.exec S.db

theorem Served.Lawful.resume {S : Served σ ε α ι} (h : S.Lawful R P) {i : Nat} {op : ι} {p : Script σ ε α}
    (hp : p.Every R (P op) S.db) (hother : ∀ w, S.writer = some w → w.1 ≠ i) : (S.resume i op p).Lawful R P := by
  refine ⟨fun t ht => ?_, fun j work rest hw => ?_⟩
  · obtain ht | rfl := List.mem_or_eq_of_mem_set ht
    · exact h.threads t ht
    · exact hp
  · obtain ⟨op', body, next, hthread, hexec⟩ := h.writer j work rest hw
    refine ⟨op', body, next, ?_, hexec⟩
    show (S.threads.set i (op, p))[j]? = _
    rw [List.getElem?_set_ne (fun heq => hother _ hw heq.symm), hthread]

theorem Served.Lawful.rollback {S : Served σ ε α ι} (h : S.Lawful R P) {i : Nat} {op : ι} {p : Script σ ε α}
    (hp : p.Every R (P op) S.db) : (S.rollback i op p).Lawful R P := by
  refine ⟨fun t ht => ?_, fun j work rest hw => absurd hw (by simp [Served.rollback])⟩
  obtain ht | rfl := List.mem_or_eq_of_mem_set ht
  · exact h.threads t ht
  · exact hp

/-- The writer commits: the database moves under the other processes. -/
theorem Served.Lawful.commit (hrely : Rely R P) {S : Served σ ε α ι} (h : S.Lawful R P) {i : Nat} {op : ι}
    {p : Script σ ε α} (hp : p.Every R (P op) S.db) {db' : σ} (hmove : R S.db db') :
    Served.Lawful R P { S.resume i op p with db := db', writer := none } := by
  refine ⟨fun t ht => ?_, fun _ _ _ hw => absurd hw (by simp)⟩
  obtain ht | rfl := List.mem_or_eq_of_mem_set ht
  · exact (h.threads t ht).moved hrely.trans hmove
  · exact hp.moved hrely.trans hmove

/-- A process takes the write lock. -/
theorem Served.Lawful.opened {S : Served σ ε α ι} (h : S.Lawful R P) {i : Nat} {op : ι} {body : Txn σ ε α}
    {k : Except ε α → Script σ ε α} (hthread : S.threads[i]? = some (op, .transaction body k)) :
    Served.Lawful R P { S with writer := some (i, S.db, body) } := by
  refine ⟨h.threads, fun j work rest hw => ?_⟩
  simp only [Option.some.injEq, Prod.mk.injEq] at hw
  obtain ⟨rfl, rfl, rfl⟩ := hw
  exact ⟨op, body, k, hthread, rfl⟩

/-- The writer goes on: it commits what its whole body gives, or the database stays. -/
theorem Served.Lawful.write (hrely : Rely R P) {S : Served σ ε α ι} (h : S.Lawful R P) {i : Nat} {op : ι}
    {body : Txn σ ε α} {k : Except ε α → Script σ ε α}
    (hthread : S.threads[i]? = some (op, .transaction body k)) {work : σ} {rest : Txn σ ε α}
    (hexec : rest.exec work = body.exec S.db) :
    (S.write i op k work rest).Lawful R P ∧ ((S.write i op k work rest).db = S.db ∨
      ∃ a, body.exec S.db = .ok ((S.write i op k work rest).db, a)) := by
  have hevery : (Script.transaction body k).Every R (P op) S.db := h.threads _ (List.mem_of_getElem? hthread)
  obtain ⟨hbody, hnext⟩ := hevery S.db (hrely.refl _)
  cases rest with
  | ret a => exact ⟨h.commit hrely (hnext _) (hrely.commit _ _ _ _ _ hbody hexec.symm), Or.inr ⟨a, hexec.symm⟩⟩
  | raise e => exact ⟨h.rollback (hnext _), Or.inl rfl⟩
  | stmt f next =>
    have hexec' : (f work).bind (fun work' => (next work).exec work') = body.exec S.db := hexec
    simp only [Served.write]
    cases hf : f work with
    | error e => exact ⟨h.rollback (hnext _), Or.inl rfl⟩
    | ok work' =>
      rw [hf] at hexec'
      refine ⟨⟨h.threads, fun j work'' rest' hw => ?_⟩, Or.inl rfl⟩
      simp only [Option.some.injEq, Prod.mk.injEq] at hw
      obtain ⟨rfl, rfl, rfl⟩ := hw
      exact ⟨op, body, k, hthread, hexec'⟩

/-- A process that reads has no transaction open. -/
theorem Served.Lawful.not_writer {S : Served σ ε α ι} (h : S.Lawful R P) {i : Nat} {op : ι} {k : σ → Script σ ε α}
    (hthread : S.threads[i]? = some (op, .query k)) : ∀ w, S.writer = some w → w.1 ≠ i := by
  rintro ⟨j, work, rest⟩ hw rfl
  obtain ⟨_, _, _, hthread', -⟩ := h.writer j work rest hw
  rw [hthread] at hthread'
  exact absurd (Prod.mk.inj (Option.some.inj hthread')).2 (by simp)

theorem Served.Lawful.next (hrely : Rely R P) {S S' : Served σ ε α ι} {turn : Turn ε ι} (h : S.Lawful R P)
    (hcode : ∀ op s, (code op).Every R (P op) s) (hstep : S.next code turn = some S') :
    S'.Lawful R P ∧ (S'.db = S.db ∨ ∃ i op body a, turn = .advance i ∧ S.threads[i]?.map Prod.fst = some op ∧
      P op S.db body ∧ body.exec S.db = .ok (S'.db, a)) := by
  cases turn with
  | call op =>
    obtain rfl := Option.some.inj hstep
    refine ⟨⟨fun t ht => ?_, fun j work rest hw => ?_⟩, Or.inl rfl⟩
    · obtain ht | ht := List.mem_append.mp ht
      · exact h.threads t ht
      · rw [List.mem_singleton.mp ht]
        exact hcode op S.db
    · obtain ⟨op', body, next, hthread, hexec⟩ := h.writer j work rest hw
      refine ⟨op', body, next, ?_, hexec⟩
      show (S.threads ++ [(op, code op)])[j]? = _
      rw [List.getElem?_append_left (List.getElem?_eq_some_iff.mp hthread).1, hthread]
  | advance i =>
    simp only [Served.next] at hstep
    split at hstep
    · rename_i op k hthread
      obtain rfl := Option.some.inj hstep
      have hevery : (Script.query k).Every R (P op) S.db := h.threads _ (List.mem_of_getElem? hthread)
      exact ⟨h.resume (hevery S.db (hrely.refl _)) (h.not_writer hthread), Or.inl rfl⟩
    · rename_i op body k hthread
      have hevery : (Script.transaction body k).Every R (P op) S.db := h.threads _ (List.mem_of_getElem? hthread)
      split at hstep
      · obtain rfl := Option.some.inj hstep
        exact ⟨h.opened hthread, Or.inl rfl⟩
      · rename_i j work rest hwriter
        split_ifs at hstep with hj
        subst hj
        obtain rfl := Option.some.inj hstep
        obtain ⟨op', body', k', hthread', hexec⟩ := h.writer j work rest hwriter
        rw [hthread] at hthread'
        simp only [Option.some.injEq, Prod.mk.injEq, Script.transaction.injEq] at hthread'
        obtain ⟨rfl, rfl, rfl⟩ := hthread'
        obtain ⟨hlawful, hdb⟩ := h.write hrely hthread hexec
        exact ⟨hlawful, hdb.imp id (fun ⟨a, ha⟩ =>
          ⟨j, op, body, a, rfl, by rw [hthread]; rfl, (hevery S.db (hrely.refl _)).1, ha⟩)⟩
    · exact absurd hstep (by simp)
  | fault i e =>
    simp only [Served.next] at hstep
    split at hstep
    · rename_i op k hthread
      obtain rfl := Option.some.inj hstep
      exact ⟨h.resume trivial (h.not_writer hthread), Or.inl rfl⟩
    · rename_i op body k hthread
      have hevery : (Script.transaction body k).Every R (P op) S.db := h.threads _ (List.mem_of_getElem? hthread)
      have hnext := (hevery S.db (hrely.refl _)).2
      split_ifs at hstep with hwriter
      · obtain rfl := Option.some.inj hstep
        exact ⟨h.rollback (hnext _), Or.inl rfl⟩
      · obtain rfl := Option.some.inj hstep
        refine ⟨h.resume (hnext _) (fun w hw heq => hwriter ?_), Or.inl rfl⟩
        simp [hw, heq]
    · exact absurd hstep (by simp)
  | kill i =>
    obtain ⟨t, ht, rfl⟩ := Option.map_eq_some_iff.mp hstep
    split_ifs with hwriter
    · exact ⟨h.rollback trivial, Or.inl rfl⟩
    · refine ⟨h.resume trivial (fun w hw heq => hwriter ?_), Or.inl rfl⟩
      simp [hw, heq]

theorem serving_lawful (hrely : Rely R P) (hcode : ∀ op s, (code op).Every R (P op) s) {S : Served σ ε α ι}
    (h : (serving init code).Reachable S) : S.Lawful R P := by
  refine h.invariant ?_ (fun S turn S' hS _ hstep => (hS.next hrely hcode hstep).1)
  rintro S ⟨-, hwriter, hthreads⟩
  exact ⟨by simp [hthreads], by simp [hwriter]⟩

/-- A turn leaves the database, or it is the commit of a whole body of an operation. -/
theorem serving_step (hrely : Rely R P) (hcode : ∀ op s, (code op).Every R (P op) s) {S S' : Served σ ε α ι}
    {turn : Turn ε ι} (h : (serving init code).Reachable S) (hstep : (serving init code).step S turn = some S') :
    S'.db = S.db ∨ ∃ i op body a, turn = .advance i ∧ S.threads[i]?.map Prod.fst = some op ∧ P op S.db body ∧
      body.exec S.db = .ok (S'.db, a) :=
  ((serving_lawful hrely hcode h).next hrely hcode hstep).2

theorem serving_invariant {I : σ → Prop} (hinit : ∀ s, init s → I s) (hrely : Rely R P)
    (hcode : ∀ op s, (code op).Every R (P op) s)
    (hkeeps : ∀ op body s s' a, P op s body → body.exec s = .ok (s', a) → I s → I s') {S : Served σ ε α ι}
    (h : (serving init code).Reachable S) : I S.db := by
  induction h with
  | start hS => exact hinit _ hS.1
  | next hS _ hstep ih =>
    obtain heq | ⟨_, op, body, a, -, -, hP, hexec⟩ := serving_step hrely hcode hS hstep
    · exact heq ▸ ih
    · exact hkeeps op body _ _ a hP hexec ih

end rules
