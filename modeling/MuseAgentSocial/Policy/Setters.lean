import MuseAgentSocial.Lib.Machine
import MuseAgentSocial.Lib.Register
import MuseAgentSocial.Policy.Delivery
import MuseAgentSocial.Policy.Retention

/-!
# Concurrent policy updates

Any number of processes call the setters of `policy/delivery.py` and `set_plaintext_cache`
at once.

* A delivery setter reads the policy document, and later it stores the whole record in one
  transaction: its call is in the phase `read` in between.  `set_plaintext_cache` reads
  nothing before its transaction.
* `settersMachine` is the machine.  A call may fail, and its process may die, at any time
  before the commit.
* `view` sees the delivery record of one relationship as a register that its setters rewrite
  from a copy.
* `no_lost_update_iff`: no update is lost exactly when no setter stores over a record that
  it has not read.
-/

namespace MuseAgentSocial.Policy.Setters

open Json Canonical Calendar

variable {now rid : Text} {i : Nat} {fresh : Prop}

section setters

variable {F : Type}

/-- The five functions. -/
inductive Op (F : Type) where
  | set_policy (mode : Text)
  | set_seen_receipts_enabled (enabled : Bool)
  | set_accepted_receipts_enabled (enabled : Bool)
  | set_expiry_policy (handling : Text) (shorten_after_seconds : Value F)
  | set_plaintext_cache (period : Text)

/-- The delivery setters. -/
def Op.setter : Op F → Option (Setter F)
  | .set_policy mode => some (setPolicy mode)
  | .set_seen_receipts_enabled enabled => some (setSeenReceiptsEnabled enabled)
  | .set_accepted_receipts_enabled enabled => some (setAcceptedReceiptsEnabled enabled)
  | .set_expiry_policy handling shorten_after_seconds => some (setExpiryPolicy handling shorten_after_seconds)
  | .set_plaintext_cache _ => none

/-- A call, with what `utcnow` gives it. -/
structure Call (F : Type) where
  relationship_id : Text
  op : Op F
  now : Text

/-- How far a call is. -/
inductive Phase (F : Type) where
  | called
  /-- A delivery setter has read the document. -/
  | read (document : Document F)
  | returned
  | raised (e : Exn F)

/-- The rows, the calls, and those that returned, in the order of their commits. -/
structure State (F : Type) where
  rows : Relationships F
  calls : List (Call F × Phase F) := []
  log : List (Call F) := []

/-- What happens next. -/
inductive Act (F : Type) where
  | call (c : Call F)
  | advance (i : Nat)
  | fail (i : Nat) (e : Exn F)

/-- A call goes on. -/
def State.resume (s : State F) (i : Nat) (c : Call F) (phase : Phase F) : State F :=
  { s with calls := s.calls.set i (c, phase) }

/-- A call commits and returns. -/
def State.commit (s : State F) (i : Nat) (c : Call F) (rows : Relationships F) : State F :=
  { rows := rows, calls := s.calls.set i (c, .returned), log := s.log ++ [c] }

/-- The body of a delivery setter up to its transaction. -/
def State.read (s : State F) (i : Nat) (c : Call F) (setter : Setter F) : State F :=
  match setter.check with
  | .error e => s.resume i c (.raised e)
  | .ok () =>
    match loadPolicyDocument .policy_error s.rows c.relationship_id with
    | .error e => s.resume i c (.raised e)
    | .ok document => s.resume i c (.read document)

variable (B : Builtins F) (pads : Bool)

/-- The rest of a delivery setter: the record that it has read, with its changes, is stored
in a transaction. -/
def State.store (s : State F) (i : Nat) (c : Call F) (setter : Setter F) (document : Document F) : State F :=
  match setter.change B c.now (coerceDelivery (getItem document DELIVERY_KEY)) with
  | none => s.resume i c (.raised .conversion)
  | some data =>
    match storeDeliveryDict s.rows c.relationship_id data with
    | .error e => s.resume i c (.raised e)
    | .ok rows => s.commit i c rows

/-- `set_plaintext_cache`, up to its commit. -/
def State.cache (s : State F) (i : Nat) (c : Call F) (period : Text) : State F :=
  match setPlaintextCacheTxn pads s.rows c.relationship_id period c.now with
  | .error e => s.resume i c (.raised e)
  | .ok (rows, _) => s.commit i c rows

/-- One step. -/
def State.next (s : State F) : Act F → Option (State F)
  | .call c => some { s with calls := s.calls ++ [(c, .called)] }
  | .advance i =>
    match s.calls[i]? with
    | some (c, .called) =>
      match c.op with
      | .set_plaintext_cache period => some (s.cache pads i c period)
      | op => op.setter.map (s.read i c)
    | some (c, .read document) => c.op.setter.map (s.store B i c · document)
    | _ => none
  | .fail i e =>
    match s.calls[i]? with
    | some (c, .called) => some (s.resume i c (.raised e))
    | some (c, .read _) => some (s.resume i c (.raised e))
    | _ => none

/-- Concurrent calls of the setters. -/
def settersMachine : Machine (State F) (Act F) where
  init s := s.calls = [] ∧ s.log = []
  step := State.next B pads

/-! ## The record as a register -/

/-- The call sets the delivery record of the relationship. -/
def Call.delivers (rid : Text) (c : Call F) : Bool := decide (c.relationship_id = rid) && c.op.setter.isSome

/-- What a call stores in place of the record that it has read. -/
def Call.apply (c : Call F) (data : Option (Delivery F)) : Option (Option (Delivery F)) :=
  data.bind fun data => c.op.setter.bind fun setter => (setter.change B c.now data).map some

/-- The version of a record. -/
def versionOf (data : Option (Delivery F)) : Int := (data.bind (fun data => B.int (data .version))).getD 0

/-- The record that a call on the relationship has read. -/
def slot (rid : Text) : Call F × Phase F → Option (Call F × Option (Delivery F))
  | (c, .read document) =>
    if c.relationship_id = rid then some (c, some (coerceDelivery (getItem document DELIVERY_KEY))) else none
  | _ => none

/-- The record of one relationship, and the setters that rewrite it. -/
def view (rid : Text) (s : State F) : Register (Option (Delivery F)) (Call F) where
  value := deliveryOf s.rows rid
  writers := s.calls.map (slot rid)
  log := s.log.filter (Call.delivers rid)

/-- A setter that stores its record has read the one that is stored. -/
def Fresh (rid : Text) (s : State F) (a : Act F) : Prop :=
  ∀ i c document, a = .advance i → s.calls[i]? = some (c, .read document) → c.relationship_id = rid →
    deliveryOf s.rows rid = some (coerceDelivery (getItem document DELIVERY_KEY))

/-- The version of the record, and of every record that was read, is a number. -/
structure Readable (rid : Text) (s : State F) : Prop where
  stored : ∃ data, deliveryOf s.rows rid = some data ∧ (B.int (data .version)).isSome = true
  copies : ∀ c document, (c, .read document) ∈ s.calls → c.relationship_id = rid →
    (B.int (coerceDelivery (getItem document DELIVERY_KEY) .version)).isSome = true

variable {B pads}

theorem assigns_version {op : Op F} {setter : Setter F} (h : op.setter = some setter) : setter.assigns .version = none := by
  cases op with
  | set_plaintext_cache => simp [Op.setter] at h
  | _ =>
    obtain rfl := Option.some.inj h
    rfl

theorem change_isSome_iff {setter : Setter F} {data : Delivery F} :
    (setter.change B now data).isSome = true ↔ (B.int (data .version)).isSome = true := by
  simp [Setter.change, bump]

theorem version_change {op : Op F} {setter : Setter F} (h : op.setter = some setter)
    {data data' : Delivery F} (hchange : setter.change B now data = some data') :
    ∃ n, B.int (data .version) = some n ∧ data' .version = .int (n + 1) := by
  obtain ⟨bumped, hbumped, rfl⟩ := Option.map_eq_some_iff.mp hchange
  obtain ⟨n, hn, rfl⟩ := Option.map_eq_some_iff.mp hbumped
  refine ⟨n, hn, ?_⟩
  show (setter.assigns .version).getD _ = _
  rw [assigns_version h]
  rfl

theorem apply_eq_some_iff {c : Call F} {v v' : Option (Delivery F)} :
    c.apply B v = some v' ↔ ∃ data setter data', v = some data ∧ c.op.setter = some setter ∧
      setter.change B c.now data = some data' ∧ v' = some data' := by
  simp only [Call.apply, Option.bind_eq_some_iff, Option.map_eq_some_iff]
  constructor
  · intro h
    obtain ⟨data, hdata, setter, hsetter, data', hchange, heq⟩ := h
    exact ⟨data, setter, data', hdata, hsetter, hchange, heq.symm⟩
  · intro h
    obtain ⟨data, setter, data', hdata, hsetter, hchange, heq⟩ := h
    exact ⟨data, hdata, setter, hsetter, data', hchange, heq.symm⟩

theorem versionOf_apply (c : Call F) (v v' : Option (Delivery F)) (h : c.apply B v = some v') :
    versionOf B v' = versionOf B v + 1 := by
  obtain ⟨data, setter, data', rfl, hsetter, hchange, rfl⟩ := apply_eq_some_iff.mp h
  obtain ⟨n, hn, hversion⟩ := version_change hsetter hchange
  show (B.int (data' .version)).getD 0 = (B.int (data .version)).getD 0 + 1
  rw [hn, hversion]
  rfl

/-! ## One step -/

theorem slot_resume (rid : Text) (s : State F) (i : Nat) (c : Call F) (phase : Phase F) :
    (s.resume i c phase).calls.map (slot rid) = (s.calls.map (slot rid)).set i (slot rid (c, phase)) :=
  List.map_set

/-- A call that ends without a commit, or is on another relationship, is gone from the register. -/
theorem view_resume (s : State F) (i : Nat) (c : Call F) {phase : Phase F}
    (h : slot rid (c, phase) = none) :
    (view rid s).next (Call.apply B) (.leave i) = some (view rid (s.resume i c phase)) := by
  simp only [Register.next, view, slot_resume, h]
  rfl

theorem view_commit_other (s : State F) (i : Nat) (c : Call F) {rows : Relationships F}
    (hc : c.delivers rid = false) (hrows : deliveryOf rows rid = deliveryOf s.rows rid) :
    (view rid s).next (Call.apply B) (.leave i) = some (view rid (s.commit i c rows)) := by
  simp only [Register.next, view, State.commit, List.map_set, slot, hrows, List.filter_append]
  simp [hc]

theorem deliveryOf_setPlaintextCacheTxn {rows rows' : Relationships F} {period : Text}
    {record : Document F}
    (h : setPlaintextCacheTxn pads rows rid period now = .ok (rows', record)) (rid' : Text) :
    deliveryOf rows' rid' = deliveryOf rows rid' := by
  obtain ⟨canonical, expires_at, document, -, -, hload, -, hrows⟩ := setPlaintextCacheTxn_spec h
  rw [hrows, deliveryOf_updatePolicy hload]
  split_ifs with hrid
  · rw [hrid, getItem_withOptin _ _ (by decide), deliveryOf_eq_some_of_load hload]
  · rfl

/-- A call that has not read is at no commit of a record. -/
theorem fresh_of_called {s : State F} {c : Call F} (h : s.calls[i]? = some (c, .called)) :
    Fresh rid s (.advance i) := by
  intro j c' document hj hcall
  obtain rfl := Act.advance.inj hj
  rw [h] at hcall
  exact absurd (Prod.mk.inj (Option.some.inj hcall)).2 (by simp)

theorem fresh_read_iff {s : State F} {c : Call F} {document : Document F}
    (h : s.calls[i]? = some (c, .read document)) :
    Fresh rid s (.advance i) ↔ (c.relationship_id = rid →
      deliveryOf s.rows rid = some (coerceDelivery (getItem document DELIVERY_KEY))) := by
  constructor
  · intro hfresh hrid
    exact hfresh i c document rfl h hrid
  · intro hstored j c' document' hj hcall hrid
    obtain rfl := Act.advance.inj hj
    rw [h] at hcall
    obtain ⟨rfl, hread⟩ := Prod.mk.inj (Option.some.inj hcall)
    rw [← Phase.read.inj hread]
    exact hstored hrid

/-- What the step of a call is on the register of a relationship. -/
structure Viewed (B : Builtins F) (rid : Text) (s t : State F) (fresh : Prop) : Prop where
  step : ∃ b, (view rid s).next (Call.apply B) b = some (view rid t) ∧ ((view rid s).Fresh b ↔ fresh)
  readable : Readable B rid t

theorem Readable.resume {rid : Text} {s : State F} (h : Readable B rid s) (i : Nat) (c : Call F) {phase : Phase F}
    (hphase : ∀ document, phase = .read document → c.relationship_id = rid →
      deliveryOf s.rows rid = some (coerceDelivery (getItem document DELIVERY_KEY))) :
    Readable B rid (s.resume i c phase) := by
  refine ⟨h.stored, fun c' document hmem hrid => ?_⟩
  obtain hold | hnew := List.mem_or_eq_of_mem_set hmem
  · exact h.copies c' document hold hrid
  · obtain ⟨rfl, hread⟩ := Prod.mk.inj hnew
    obtain ⟨data, hdata, hint⟩ := h.stored
    rw [hphase document hread.symm hrid] at hdata
    rw [Option.some.inj hdata]
    exact hint

theorem Readable.commit {s : State F} (h : Readable B rid s) (i : Nat) (c : Call F)
    {rows : Relationships F}
    (hstored : ∃ data, deliveryOf rows rid = some data ∧ (B.int (data .version)).isSome = true) :
    Readable B rid (s.commit i c rows) := by
  refine ⟨hstored, fun c' document hmem hrid => ?_⟩
  obtain hold | hnew := List.mem_or_eq_of_mem_set hmem
  · exact h.copies c' document hold hrid
  · exact absurd (Prod.mk.inj hnew).2 (by simp)

theorem viewed_raised {s : State F} (h : Readable B rid s) (i : Nat) (c : Call F) (e : Exn F)
    (hfresh : fresh) : Viewed B rid s (s.resume i c (.raised e)) fresh :=
  ⟨⟨.leave i, view_resume s i c rfl, by simp [Register.Fresh, hfresh]⟩, h.resume i c (fun _ heq => by simp at heq)⟩

theorem viewed_read {s : State F} (h : Readable B rid s) (i : Nat) (c : Call F)
    (setter : Setter F) (hfresh : fresh) : Viewed B rid s (s.read i c setter) fresh := by
  unfold State.read
  split
  · exact viewed_raised h i c _ hfresh
  · cases hload : loadPolicyDocument Exn.policy_error s.rows c.relationship_id with
    | error e => exact viewed_raised h i c e hfresh
    | ok document =>
      have hstored := deliveryOf_eq_some_of_load hload
      refine ⟨?_, h.resume i c (fun document' heq hrid => ?_)⟩
      · by_cases hrid : c.relationship_id = rid
        · subst hrid
          refine ⟨.read i c, ?_, by simp [Register.Fresh, hfresh]⟩
          simp [Register.next, view, slot, hstored, State.resume]
        · exact ⟨.leave i, view_resume s i c (by simp [slot, hrid]), by simp [Register.Fresh, hfresh]⟩
      · rw [← Phase.read.inj heq, ← hrid, hstored]

/-- The record of a relationship stays, or it becomes what its setter stores. -/
theorem viewed_store {s : State F} (h : Readable B rid s) {c : Call F} {setter : Setter F}
    {document : Document F} (hcall : s.calls[i]? = some (c, .read document))
    (hsetter : c.op.setter = some setter) :
    Viewed B rid s (s.store B i c setter document) (Fresh rid s (.advance i)) := by
  rw [fresh_read_iff hcall]
  unfold State.store
  by_cases hrid : c.relationship_id = rid
  · subst hrid
    have hint := h.copies c document (List.mem_of_getElem? hcall) rfl
    obtain ⟨data, hdata⟩ := Option.isSome_iff_exists.mp (change_isSome_iff.mpr hint)
    obtain ⟨stored, hstored, -⟩ := h.stored
    obtain ⟨rows, hrows⟩ : ∃ rows, storeDeliveryDict s.rows c.relationship_id data = .ok rows := by
      unfold storeDeliveryDict loadPolicyDocument
      unfold deliveryOf at hstored
      split at hstored
      · rename_i hrow
        exact ⟨_, by rw [hrow]; rfl⟩
      · exact absurd hstored (by simp)
    rw [hdata]
    dsimp only
    rw [hrows]
    have hafter := deliveryOf_store hrows c.relationship_id
    rw [if_pos rfl] at hafter
    obtain ⟨n, hn, hversion⟩ := version_change hsetter hdata
    have hwriter : (view c.relationship_id s).writers[i]? =
        some (some (c, some (coerceDelivery (getItem document DELIVERY_KEY)))) := by
      simp [view, hcall, slot]
    refine ⟨⟨.commit i, ?_, ?_⟩, h.commit i c ⟨data, hafter, by rw [hversion]; rfl⟩⟩
    · have happly : c.apply B (some (coerceDelivery (getItem document DELIVERY_KEY))) = some (some data) :=
        apply_eq_some_iff.mpr ⟨_, setter, data, rfl, hsetter, hdata, rfl⟩
      rw [Register.next, hwriter]
      dsimp only
      rw [happly, Option.map_some]
      simp [view, State.commit, hafter, slot, List.map_set, Call.delivers, hsetter]
    · rw [Register.fresh_commit hwriter]
      constructor
      · intro heq _
        exact heq.symm
      · intro heq
        exact (heq rfl).symm
  · have hfresh : c.relationship_id = rid →
        deliveryOf s.rows rid = some (coerceDelivery (getItem document DELIVERY_KEY)) := fun heq => absurd heq hrid
    split
    · exact viewed_raised h i c _ hfresh
    · rename_i data hdata
      split
      · exact viewed_raised h i c _ hfresh
      · rename_i rows hrows
        have hafter := deliveryOf_store hrows rid
        rw [if_neg (Ne.symm hrid)] at hafter
        refine ⟨⟨.leave i, view_commit_other s i c (by simp [Call.delivers, hrid]) hafter, ?_⟩, ?_⟩
        · simp only [Register.Fresh, true_iff]
          exact hfresh
        · exact h.commit i c (hafter ▸ h.stored)

theorem viewed_cache {s : State F} (h : Readable B rid s) (i : Nat) {c : Call F} {period : Text}
    (hop : c.op = .set_plaintext_cache period) (hfresh : fresh) :
    Viewed B rid s (s.cache pads i c period) fresh := by
  unfold State.cache
  split
  · exact viewed_raised h i c _ hfresh
  · rename_i rows record htxn
    have hrows := deliveryOf_setPlaintextCacheTxn htxn rid
    refine ⟨⟨.leave i, view_commit_other s i c (by simp [Call.delivers, hop, Op.setter]) hrows, ?_⟩, ?_⟩
    · simp [Register.Fresh, hfresh]
    · exact h.commit i c (hrows ▸ h.stored)

/-- Every step is a step of the register. -/
theorem viewed_next {s t : State F} {a : Act F} (h : Readable B rid s)
    (hstep : s.next B pads a = some t) :
    Viewed B rid s t (Fresh rid s a) := by
  have hno : (∀ i, a ≠ .advance i) → Fresh rid s a := fun hne i _ _ heq => absurd heq (hne i)
  cases a with
  | call c =>
    obtain rfl := Option.some.inj hstep
    refine ⟨⟨.enter, by simp [Register.next, view, slot], ?_⟩, h.stored, fun c' document hmem hrid => ?_⟩
    · simpa [Register.Fresh] using hno (fun j => by simp)
    · refine h.copies c' document ?_ hrid
      simpa using hmem
  | advance i =>
    simp only [State.next] at hstep
    split at hstep
    · rename_i c hcall
      have hfresh : Fresh rid s (.advance i) := fresh_of_called hcall
      split at hstep
      · rename_i period hop
        obtain rfl := Option.some.inj hstep
        exact viewed_cache h i hop hfresh
      · obtain ⟨setter, -, rfl⟩ := Option.map_eq_some_iff.mp hstep
        exact viewed_read h i c setter hfresh
    · rename_i c document hcall
      obtain ⟨setter, hsetter, rfl⟩ := Option.map_eq_some_iff.mp hstep
      exact viewed_store h hcall hsetter
    · exact absurd hstep (by simp)
  | fail i e =>
    simp only [State.next] at hstep
    split at hstep
    · rename_i c hcall
      obtain rfl := Option.some.inj hstep
      exact viewed_raised h i c e (hno (fun j => by simp))
    · rename_i c document hcall
      obtain rfl := Option.some.inj hstep
      exact viewed_raised h i c e (hno (fun j => by simp))
    · exact absurd hstep (by simp)

/-! ## Lost updates -/

/-- What a call sets a field to. -/
def Call.sets (field : Field) (c : Call F) : Option (Value F) :=
  match field with
  | .updated_at => some (.str c.now)
  | field => c.op.setter.bind (fun setter => setter.assigns field)

/-- The value that the last of these calls to set the field has set it to. -/
def lastSet (field : Field) (first : Value F) (log : List (Call F)) : Value F :=
  log.foldl (fun value c => (c.sets field).getD value) first

/-- The version of the policy counts the setters that returned, and each field holds the value
of the last one that set it. -/
structure NothingLost (B : Builtins F) (rid : Text) (s t : State F) : Prop where
  version : ∀ policy, getPolicy B s.rows rid = .ok policy → ∃ policy', getPolicy B t.rows rid = .ok policy' ∧
    policy'.version = policy.version + t.log.countP (Call.delivers rid)
  fields : ∀ data data', deliveryOf s.rows rid = some data → deliveryOf t.rows rid = some data' →
    ∀ field, field ≠ .version → data' field = lastSet field (data field) (t.log.filter (Call.delivers rid))

theorem field_of_apply {c : Call F} {data : Delivery F} {v : Option (Delivery F)}
    (h : c.apply B (some data) = some v) : ∃ data', v = some data' ∧
      ∀ field, field ≠ .version → data' field = (c.sets field).getD (data field) := by
  obtain ⟨data₀, setter, data', heq, hsetter, hchange, rfl⟩ := apply_eq_some_iff.mp h
  obtain rfl := Option.some.inj heq
  refine ⟨data', rfl, fun field hfield => ?_⟩
  rw [change_field B hchange field]
  cases hop : c.op with
  | set_plaintext_cache => simp [hop, Op.setter] at hsetter
  | _ =>
    obtain rfl := Option.some.inj (hop ▸ hsetter)
    cases field <;> simp_all [Call.sets, Op.setter, setPolicy, setSeenReceiptsEnabled, setAcceptedReceiptsEnabled, setExpiryPolicy]

/-- The fields after a series of setters. -/
theorem fields_of_foldlM {log : List (Call F)} {data : Delivery F} {v : Option (Delivery F)}
    (h : log.foldlM (fun v c => Call.apply B c v) (some data) = some v) : ∃ data', v = some data' ∧
      ∀ field, field ≠ .version → data' field = lastSet field (data field) log := by
  induction log generalizing data with
  | nil => exact ⟨data, (Option.some.inj h).symm, fun _ _ => rfl⟩
  | cons c log ih =>
    rw [List.foldlM_cons] at h
    obtain ⟨v', hv', hrest⟩ := Option.bind_eq_some_iff.mp h
    obtain ⟨data', rfl, hfield⟩ := field_of_apply hv'
    obtain ⟨data'', rfl, hfields⟩ := ih hrest
    refine ⟨data'', rfl, fun field hne => ?_⟩
    rw [hfields field hne, hfield field hne]
    rfl

theorem getPolicy_version {rows : Relationships F} {policy : DeliveryPolicy F}
    (h : getPolicy B rows rid = .ok policy) :
    ∃ data, deliveryOf rows rid = some data ∧ B.int (data .version) = some policy.version := by
  obtain ⟨data, hdata, hpolicy⟩ := (getPolicy_eq_ok_iff B).mp h
  refine ⟨data, hdata, ?_⟩
  unfold toPolicy at hpolicy
  split at hpolicy
  · exact absurd hpolicy (by simp)
  · rename_i version hversion
    rw [← Except.ok.inj hpolicy, hversion]

theorem exists_getPolicy {rows : Relationships F} {data : Delivery F} {n : Int}
    (hdata : deliveryOf rows rid = some data) (hn : B.int (data .version) = some n) :
    ∃ policy, getPolicy B rows rid = .ok policy ∧ policy.version = n := by
  have hpolicy : ∃ policy, toPolicy B data = .ok policy ∧ policy.version = n := by
    unfold toPolicy
    rw [hn]
    exact ⟨_, rfl, rfl⟩
  obtain ⟨policy, hpolicy, hversion⟩ := hpolicy
  exact ⟨policy, (getPolicy_eq_ok_iff B).mpr ⟨data, hdata, hpolicy⟩, hversion⟩

/-- In every run of concurrent calls on a relationship whose policy can be read, no update of
its policy is lost exactly when every delivery setter stored over the record that it had read. -/
theorem no_lost_update_iff (B : Builtins F) (pads : Bool) (rid : Text) {s t : State F} {as : List (Act F)}
    (hinit : (settersMachine B pads).init s) {policy : DeliveryPolicy F} (hpolicy : getPolicy B s.rows rid = .ok policy)
    (hrun : (settersMachine B pads).run s as = some t) :
    NothingLost B rid s t ↔ (settersMachine B pads).okRun (Fresh rid) s as := by
  obtain ⟨hcalls, hlog⟩ := hinit
  obtain ⟨data, hdata, hversion⟩ := getPolicy_version hpolicy
  have hview : view rid s = { value := some data } := by simp [view, hcalls, hlog, hdata]
  have hreadable : Readable B rid s := ⟨⟨data, hdata, by rw [hversion]; rfl⟩, by simp [hcalls]⟩
  -- The register of the relationship lags behind its commits in every run.
  let I : State F → Prop := fun u =>
    Readable B rid u ∧ (view rid u).Lagging (Call.apply B) (versionOf B) (some data)
  let P : State F → Prop := fun u => (view rid u).Counted (versionOf B) (some data)
  have hstep : ∀ u a v, I u → (settersMachine B pads).step u a = some v → I v ∧ (P v ↔ P u ∧ Fresh rid u a) := by
    intro u a v hu huv
    obtain ⟨⟨b, hb, hfresh⟩, hreadable'⟩ := viewed_next hu.1 huv
    obtain ⟨hlagging, hcounted⟩ := hu.2.next versionOf_apply hb
    exact ⟨⟨hreadable', hlagging⟩, by rw [← hfresh]; exact hcounted⟩
  have hI : I s := ⟨hreadable, hview ▸ Register.lagging_init⟩
  have hP : P s := by
    show (view rid s).Counted (versionOf B) (some data)
    rw [hview]
    simp [Register.Counted]
  have hends := Machine.ends_iff_okRun (fun u a v hu huv => (hstep u a v hu huv).1)
    (fun u a v hu huv => (hstep u a v hu huv).2) hI hrun
  obtain ⟨⟨⟨data', hdata', hint⟩, -⟩, hlagging⟩ := hends.1
  obtain ⟨n, hn⟩ := Option.isSome_iff_exists.mp hint
  have hcounted : P t ↔ n = policy.version + t.log.countP (Call.delivers rid) := by
    show versionOf B (deliveryOf t.rows rid) = versionOf B (some data) + (t.log.filter (Call.delivers rid)).length ↔ _
    rw [← List.countP_eq_length_filter, hdata']
    simp [versionOf, hn, hversion]
  have hstart : P t ↔ (settersMachine B pads).okRun (Fresh rid) s as := by
    rw [hends.2, and_iff_right hP]
  rw [← hstart]
  constructor
  · intro h
    obtain ⟨policy', hpolicy', hcount⟩ := h.version policy hpolicy
    obtain ⟨data'', hdata'', hversion'⟩ := getPolicy_version hpolicy'
    obtain rfl := Option.some.inj (hdata'.symm.trans hdata'')
    obtain rfl := Option.some.inj (hn.symm.trans hversion')
    exact hcounted.mpr hcount
  · intro h
    have hserial : (view rid t).Serial (Call.apply B) (some data) := hlagging.serial h
    obtain ⟨data'', hdata'', hfields⟩ := fields_of_foldlM hserial
    refine ⟨fun p hp => ?_, fun d d' hd hd' field hne => ?_⟩
    · obtain rfl := Except.ok.inj (hpolicy.symm.trans hp)
      obtain ⟨policy', hpolicy', hversion'⟩ := exists_getPolicy hdata' hn
      exact ⟨policy', hpolicy', by rw [hversion', hcounted.mp h]⟩
    · obtain rfl := Option.some.inj (hdata.symm.trans hd)
      obtain rfl := Option.some.inj (hd'.symm.trans hdata'')
      exact hfields field hne

end setters

/-- Numbers and nothing else are read as numbers. -/
def plainBuiltins : Builtins Unit := ⟨fun _ => none, fun _ => none, fun _ => true⟩

/-- One relationship, without a policy. -/
def freshRelationship : State Unit where
  rows rid := if rid = text "r" then some (.object []) else none

/-- An opt-out of accepted receipts, and a change of the mode, each at its own time. -/
def optOut : Call Unit := ⟨text "r", .set_accepted_receipts_enabled false, text "2026-01-01T00:00:00Z"⟩

def alertMode : Call Unit := ⟨text "r", .set_policy (text "alert"), text "2026-01-01T00:00:01Z"⟩

/-- Both calls read before either of them stores. -/
def overlapping : List (Act Unit) := [.call optOut, .call alertMode, .advance 0, .advance 1, .advance 0, .advance 1]

/-- The opt-out returned, and the change of the mode has undone it. -/
theorem opt_out_undone :
    ∃ t, (settersMachine plainBuiltins true).run freshRelationship overlapping = some t ∧
      t.log = [optOut, alertMode] ∧
      getPolicy plainBuiltins t.rows (text "r") = .ok
        { mode := .str (text "alert"), version := 1, updated_at := .str (text "2026-01-01T00:00:01Z"),
          seen_receipts_enabled := false, accepted_receipts_enabled := true, expiry_handling := .str (text "honor"),
          expiry_shorten_after_seconds := .none } ∧
      ¬NothingLost plainBuiltins (text "r") freshRelationship t := by
  refine ⟨_, rfl, rfl, rfl, fun h => ?_⟩
  obtain ⟨policy', hpolicy', hversion⟩ := h.version _ rfl
  obtain rfl := Except.ok.inj hpolicy'
  exact absurd hversion (by decide)

/-- The iff at the run in which the opt-out is undone. -/
theorem no_lost_update_overlapping :
    ∃ t, (settersMachine plainBuiltins true).run freshRelationship overlapping = some t ∧
      (NothingLost plainBuiltins (text "r") freshRelationship t ↔
        (settersMachine plainBuiltins true).okRun (Fresh (text "r")) freshRelationship overlapping) :=
  ⟨_, rfl, no_lost_update_iff plainBuiltins true (text "r") ⟨rfl, rfl⟩ rfl rfl⟩

end MuseAgentSocial.Policy.Setters
