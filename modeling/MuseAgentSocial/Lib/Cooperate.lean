import MuseAgentSocial.Lib.Autocommit

/-!
# Programs that keep a guarantee and finish

Two things are asked of a program on a shared database: whatever the other processes do,
every write of it is an `R` step; and without the others and without faults it ends
normally, from every state that is `Ready`.  Both follow the same statements, so the rules
give both at once.

* `Job.Acts` is for a program in an open transaction, which works on a copy that it knows.
* `Job.Calls` is for a program outside of transactions, which knows a property of the
  database that no process takes away.  `Calls.transaction` leads from the first to the
  second.
-/

namespace Sqlite

variable {σ τ ε α β : Type} {R : σ → σ → Prop} {I : σ → τ → Prop} {Ready : σ → Prop}

/-- In an open transaction with the copy `s`: whenever the program ends normally, the copy has
come by `R` to one with `P`; and it ends normally if `s` is ready. -/
def Job.Acts (R : σ → σ → Prop) (I : σ → τ → Prop) (Ready : σ → Prop) (p : Job σ τ ε α) (s : σ)
    (P : α → σ → Prop) : Prop :=
  (∀ K, Job.Leads R I p (some s) K (fun r o _ => ∀ a, r = .ok a → ∃ w, o = some w ∧ R s w ∧ P a w)) ∧
    (Ready s → ∃ a w, (∀ v, p.Runs s (some v) (.ok a) w (some v)) ∧ R s w ∧ P a w)

/-- Outside of transactions, where `Pre` is known: whenever the program ends normally, `Post` is
known; and it ends normally from a state with `Pre` that is ready. -/
def Job.Calls (R : σ → σ → Prop) (I : σ → τ → Prop) (Ready : σ → Prop) (p : Job σ τ ε α) (Pre : σ → Prop)
    (Post : α → σ → Prop) : Prop :=
  (∀ K, (∀ t, K t → Pre t) →
    Job.Leads R I p none K (fun r o K' => ∀ a, r = .ok a → o = none ∧ ∀ t, K' t → Post a t)) ∧
    ∀ s, Pre s → Ready s → ∃ a w, p.Runs s none (.ok a) w none ∧ R s w ∧ Post a w

/-- The steps of all processes keep it. -/
def Stable (R : σ → σ → Prop) (P : σ → Prop) : Prop := ∀ s t, P s → R s t → P t

namespace Job

section acts

variable {s : σ} {P : α → σ → Prop} {Q : β → σ → Prop}

theorem Acts.ret (hG : Guarantee R I) {a : α} (h : P a s) : Acts R I Ready (ret a : Job σ τ ε α) s P := by
  constructor
  · intro K
    exact Leads.ret (fun b hb => by cases hb; exact ⟨s, rfl, hG.refl s, h⟩)
  · intro _
    exact ⟨a, s, fun v => Runs.ret a, hG.refl s, h⟩

theorem Acts.imp {P' : α → σ → Prop} {p : Job σ τ ε α} (h : Acts R I Ready p s P) (hP : ∀ a w, R s w → P a w → P' a w) :
    Acts R I Ready p s P' := by
  constructor
  · intro K
    refine (h.1 K).imp (fun r o K' _ hr a ha => ?_)
    obtain ⟨w, ho, hw, hPw⟩ := hr a ha
    exact ⟨w, ho, hw, hP a w hw hPw⟩
  · intro hs
    obtain ⟨a, w, hruns, hw, hPw⟩ := h.2 hs
    exact ⟨a, w, hruns, hw, hP a w hw hPw⟩

theorem Acts.bind (hG : Guarantee R I) (hready : Stable R Ready) {p : Job σ τ ε α} {f : α → Job σ τ ε β}
    (hp : Acts R I Ready p s P) (hf : ∀ a w, R s w → P a w → Acts R I Ready (f a) w Q) :
    Acts R I Ready (Job.bind p f) s Q := by
  constructor
  · intro K
    refine (hp.1 K).bind (fun a o K' _ hr => ?_) (fun e o K' _ _ b hb => by cases hb)
    obtain ⟨w, rfl, hw, hPw⟩ := hr a rfl
    refine ((hf a w hw hPw).1 K').imp (fun r o' K'' _ hr' b hb => ?_)
    obtain ⟨w', ho', hw', hQ⟩ := hr' b hb
    exact ⟨w', ho', hG.trans hw hw', hQ⟩
  · intro hs
    obtain ⟨a, w, hruns, hw, hPw⟩ := hp.2 hs
    obtain ⟨b, w', hruns', hw', hQ⟩ := (hf a w hw hPw).2 (hready s w hs hw)
    exact ⟨b, w', fun v => (hruns v).bind (hruns' v), hG.trans hw hw', hQ⟩

theorem Acts.query (hG : Guarantee R I) (f : σ → α) :
    Acts R I Ready (query f : Job σ τ ε α) s (fun a w => w = s ∧ a = f s) := by
  constructor
  · intro K
    refine (Leads.query_open f).imp (fun r o K' _ hr a ha => ?_)
    obtain ⟨hval, ho⟩ := hr a ha
    exact ⟨s, ho, hG.refl s, rfl, hval⟩
  · intro _
    exact ⟨f s, s, fun v => Runs.query f, hG.refl s, rfl, rfl⟩

theorem Acts.execute {f : σ → Except DbError (σ × α)} (hspec : ∀ w a, f s = .ok (w, a) → R s w ∧ P a w)
    (htotal : Ready s → ∃ w a, f s = .ok (w, a)) : Acts R I Ready (execute f : Job σ τ ε α) s P := by
  constructor
  · intro K
    refine (Leads.execute_open (fun w a h => (hspec w a h).1)).imp (fun r o K' _ hr a ha => ?_)
    obtain ⟨w, hf, ho⟩ := hr a ha
    exact ⟨w, ho, hspec w a hf⟩
  · intro hs
    obtain ⟨w, a, hf⟩ := htotal hs
    exact ⟨a, w, fun v => Runs.execute hf, hspec w a hf⟩

end acts

section calls

variable {Pre : σ → Prop} {Mid : α → σ → Prop} {Post : β → σ → Prop}

theorem Calls.ret (hG : Guarantee R I) {a : α} (h : ∀ s, Pre s → Mid a s) :
    Calls R I Ready (ret a : Job σ τ ε α) Pre Mid := by
  constructor
  · intro K hK
    refine Leads.ret (fun b hb => ?_)
    cases hb
    exact ⟨rfl, fun t ht => h t (hK t ht)⟩
  · intro s hs _
    exact ⟨a, s, Runs.ret a, hG.refl s, h s hs⟩

theorem Calls.raise {e : ε} (h : ∀ s, Pre s → ¬Ready s) : Calls R I Ready (raise e : Job σ τ ε α) Pre Mid := by
  constructor
  · intro K _
    exact Leads.reraise (fun b hb => by cases hb)
  · intro s hs hready
    exact absurd hready (h s hs)

theorem Calls.imp {Pre' : σ → Prop} {Mid' : α → σ → Prop} {p : Job σ τ ε α} (h : Calls R I Ready p Pre Mid)
    (hpre : ∀ s, Pre' s → Pre s) (hmid : ∀ a s, Mid a s → Mid' a s) : Calls R I Ready p Pre' Mid' := by
  constructor
  · intro K hK
    refine (h.1 K (fun t ht => hpre t (hK t ht))).imp (fun r o K' _ hr a ha => ?_)
    exact ⟨(hr a ha).1, fun t ht => hmid a t ((hr a ha).2 t ht)⟩
  · intro s hs hready
    obtain ⟨a, w, hruns, hw, hm⟩ := h.2 s (hpre s hs) hready
    exact ⟨a, w, hruns, hw, hmid a w hm⟩

theorem Calls.bind (hG : Guarantee R I) (hready : Stable R Ready) (hpre : Stable R Pre) {p : Job σ τ ε α}
    {f : α → Job σ τ ε β} (hp : Calls R I Ready p Pre Mid)
    (hf : ∀ a, Calls R I Ready (f a) (fun t => Pre t ∧ Mid a t) Post) : Calls R I Ready (Job.bind p f) Pre Post := by
  constructor
  · intro K hK
    refine (hp.1 K hK).bind (fun a o K' hK' hr => ?_) (fun e o K' _ _ b hb => by cases hb)
    obtain ⟨rfl, hmid⟩ := hr a rfl
    exact (hf a).1 K' (fun t ht => ⟨hK t (hK' t ht), hmid t ht⟩)
  · intro s hs hrs
    obtain ⟨a, w, hruns, hw, hm⟩ := hp.2 s hs hrs
    obtain ⟨b, w', hruns', hw', hpost⟩ := (hf a).2 w ⟨hpre s w hs hw, hm⟩ (hready s w hrs hw)
    exact ⟨b, w', hruns.bind hruns', hG.trans hw hw', hpost⟩

/-- A read outside of a transaction reads a state from which the database comes. -/
theorem Calls.query (hG : Guarantee R I) (f : σ → α) :
    Calls R I Ready (query f : Job σ τ ε α) Pre (fun a t => ∃ s, Pre s ∧ a = f s ∧ R s t) := by
  constructor
  · intro K hK
    refine (Leads.query_closed f).imp (fun r o K' _ hr a ha => ?_)
    obtain ⟨ho, s, hs, hval, ht⟩ := hr a ha
    exact ⟨ho, fun t hKt => ⟨s, hK s hs, hval, ht t hKt⟩⟩
  · intro s hs _
    exact ⟨f s, s, Runs.query f, hG.refl s, s, hs, rfl, hG.refl s⟩

/-- A read outside of a transaction, and what follows: the database may have changed since. -/
theorem Calls.query_bind (hG : Guarantee R I) {f : σ → α} {q : α → Job σ τ ε β}
    (hq : ∀ s, Pre s → Calls R I Ready (q (f s)) (fun t => Pre t ∧ R s t) Post) :
    Calls R I Ready (Job.bind (Job.query f) q) Pre Post := by
  constructor
  · intro K hK
    refine (Leads.query_closed f).bind (fun a o K' hK' hr => ?_) (fun e o K' _ _ b hb => by cases hb)
    obtain ⟨rfl, s, hs, rfl, ht⟩ := hr a rfl
    exact (hq s (hK s hs)).1 K' (fun t hKt => ⟨hK t (hK' t hKt), ht t hKt⟩)
  · intro s hs hready
    obtain ⟨b, w, hruns, hw, hpost⟩ := (hq s hs).2 s ⟨hs, hG.refl s⟩ hready
    exact ⟨b, w, (Runs.query f).bind hruns, hw, hpost⟩

theorem Calls.transaction {body : Job σ τ ε α} (hpost : ∀ a, Stable R (Mid a))
    (h : ∀ s, Pre s → Acts R I Ready body s Mid) : Calls R I Ready (transaction body) Pre Mid := by
  constructor
  · intro K hK
    have hbody := Leads.transaction (P := fun _ a w => Mid a w) (fun s hs => ((h s (hK s hs)).1 K).imp
      (fun r o _ _ hr a ha => by
        obtain ⟨w, ho, -, hm⟩ := hr a ha
        exact ⟨w, ho, hm⟩))
    refine hbody.imp (fun r o K' _ hr a ha => ?_)
    obtain ⟨ho, s, w, -, hm, ht⟩ := hr a ha
    exact ⟨ho, fun t hKt => hpost a w t hm (ht t hKt)⟩
  · intro s hs hrs
    obtain ⟨a, w, hruns, hw, hm⟩ := (h s hs).2 hrs
    exact ⟨a, w, Runs.transaction (hruns s), hw, hm⟩

end calls

end Job

end Sqlite
