import MuseAgentSocial.Store.Sequence

/-!
# The ingress quota

`_check_ingress_quota` counts the rows of `events` of the last 24 hours, and the events that
the node has sent itself stand in the same table.  An object of the v0.1 protocol passes the
same check, but it stores no event: `migration.pair_id` is never written, so each one is
quarantined as `v01_no_vault`.  That path is left out.

* `Intake` is a ledger whose receives pass the quota.  It also keeps which events were
  accepted from the peer, which no column of the table says.
* `Fair` is what a step should do: an object is deferred exactly when the peer has used up
  the quota, and no window holds more of its events.
* `quota_fair`: the steps of a run are fair exactly when no object meets a window that is
  full only together with events of the node.
* `flood_deferred`: 5,000 events with their receipts defer the next one.
-/

namespace MuseAgentSocial.Store

open Model Crypto Policy

/-- 24 hours. -/
def INGRESS_WINDOW : Nat := 24 * 3600

/-- The event of the relationship was stored at or after `now - 24 * 3600`. -/
def Event.trails (rid : RelationshipId) (now : Nat) (e : Event) : Bool :=
  decide (e.relationship_id = rid) && e.received_at.any (now ≤ · + INGRESS_WINDOW)

/-- The event of the relationship was stored in the 24 hours from `start` on. -/
def Event.within (rid : RelationshipId) (start : Nat) (e : Event) : Bool :=
  decide (e.relationship_id = rid) && e.received_at.any (fun r => start ≤ r ∧ r ≤ start + INGRESS_WINDOW)

/-- The count of `_check_ingress_quota`. -/
def Database.ingressCount (db : Database) (rid : RelationshipId) (now : Nat) : Nat :=
  db.events.rows.countP (Event.trails rid now)

/-- A ledger with the events that it has accepted from the peer. -/
structure Intake extends Ledger where
  accepted : List Event := []

namespace Intake

variable (s : Intake)

/-- The events that the node has stored itself. -/
def own : List Event := s.db.events.rows.filter (· ∉ s.accepted)

/-- How many events of the peer were accepted in the last 24 hours. -/
def peerCount (rid : RelationshipId) (now : Nat) : Nat := s.accepted.countP (Event.trails rid now)

/-- How many events of the node itself were stored in the last 24 hours. -/
def ownCount (rid : RelationshipId) (now : Nat) : Nat := s.own.countP (Event.trails rid now)

/-- `_check_ingress_quota` holds the object back. -/
def quotaHolds (rid : RelationshipId) (now : Nat) : Bool :=
  INGRESS_MAX_EVENTS_PER_DAY ≤ s.db.ingressCount rid now

/-- The quota defers the object, once its sender is admitted. -/
def defers (ev : Event) (now : Nat) : Bool :=
  (s.db.relationships.find ev.relationship_id).any (·.admits ev.sender now) &&
    s.quotaHolds ev.relationship_id now

/-- One operation.  An object that is deferred stays on the relay. -/
def step : Op → Option Intake
  | .receive ev now receipt stops =>
    if s.defers ev now then some s
    else (s.toLedger.step (.receive ev now receipt stops)).map fun t =>
      { toLedger := t, accepted := s.accepted ++ [ev] }
  | op => (s.toLedger.step op).map fun t => { s with toLedger := t }

end Intake

/-- An intake starts with a ledger that starts. -/
def intake : Machine Intake Op where
  init s := ledger.init s.toLedger ∧ s.accepted = []
  step := Intake.step

/-- What the operation should do.  `deferred` is about the objects that the receive path would
accept otherwise. -/
structure Fair (s : Intake) (op : Op) (t : Intake) : Prop where
  deferred : ∀ ev now receipt stops, op = .receive ev now receipt stops → (s.toLedger.step op).isSome = true →
    (s.defers ev now = true ↔ INGRESS_MAX_EVENTS_PER_DAY ≤ s.peerCount ev.relationship_id now)
  bounded : ∀ rid start, t.accepted.countP (Event.within rid start) ≤ INGRESS_MAX_EVENTS_PER_DAY

/-- The events of the node itself do not fill the window for an object that comes in. -/
def ownLeavesRoom (s : Intake) : Op → Prop
  | .receive ev now receipt stops =>
    (s.toLedger.step (.receive ev now receipt stops)).isSome = true →
      s.peerCount ev.relationship_id now < INGRESS_MAX_EVENTS_PER_DAY →
        s.ownCount ev.relationship_id now < INGRESS_MAX_EVENTS_PER_DAY - s.peerCount ev.relationship_id now
  | _ => True

instance (s : Intake) : ∀ op, Decidable (ownLeavesRoom s op)
  | .receive _ _ _ _ => inferInstanceAs (Decidable (_ → _ → _))
  | .other _ | .policy _ _ | .send _ _ _ _ | .redeliver _ _ => isTrue trivial

/-! ## The log -/

namespace Ledger

variable {s t : Ledger} {ev : Event} {now clock : Nat}

/-- What an operation does to the log: rows are only added. -/
structure Logs (s t : Ledger) : Prop where
  scopes : Scoped t.db
  rows : ∀ e ∈ s.db.events.rows, e ∈ t.db.events.rows

theorem Logs.refl (hs : Scoped s.db) : Logs s s := ⟨hs, fun _ => id⟩

theorem Logs.trans {u : Ledger} (h : Logs s t) (h' : Logs t u) : Logs s u :=
  ⟨h'.scopes, fun e he => h'.rows e (h.rows e he)⟩

theorem commit_logs (hs : Scoped s.db) (h : s.commit ev now = some t) : Logs s t := by
  have happend := commit_append h
  exact ⟨hs.append happend, fun e he => (Table.mem_of_insert (append_events happend).1).mpr (Or.inl he)⟩

theorem projectSent_logs (hs : Scoped s.db) (hlog : s.db.events.find ev.event_id = some ev) :
    Logs s (s.projectSent ev clock) := by
  have hends : (applyEvent s.db ev clock).Ends _ _ := applyInner_ends hs hlog
  unfold projectSent
  generalize applyEvent s.db ev clock = out at hends ⊢
  match out, hends with
  | (db', .ok ()), heffects => exact ⟨heffects.scoped hs, fun e he => heffects.sameInputs.events ▸ he⟩
  | (db', .error _), _ => exact .refl hs

theorem projectReceived_logs (hs : Scoped s.db) (hlog : s.db.events.find ev.event_id = some ev) :
    Logs s (s.projectReceived ev clock) := by
  have hevents : (s.projectReceived ev clock).db.events = s.db.events := (projectReceived_sequence hs hlog).1
  refine ⟨?_, fun e he => hevents ▸ he⟩
  have hends : (applyEvent s.db ev clock).Ends _ _ := applyInner_ends hs hlog
  unfold projectReceived
  generalize applyEvent s.db ev clock = out at hends ⊢
  match out, hends with
  | (db', .ok ()), heffects => exact heffects.scoped hs
  | (db', .error _), ⟨⟨code, rfl⟩, _⟩ => exact { hs with }

theorem queueAcceptedReceipt_logs {receipt : Draw} (hs : Scoped s.db)
    (h : s.queueAcceptedReceipt ev now receipt = some t) : Logs s t := by
  unfold queueAcceptedReceipt at h
  split_ifs at h
  · obtain ⟨own, -, h⟩ := Option.bind_eq_some_iff.mp h
    exact commit_logs hs (persistOutgoing_commit h)
  · exact Option.some.inj h ▸ .refl hs

theorem receive_logs {receipt : Draw} {stops : Bool} (hs : Scoped s.db)
    (h : s.step (.receive ev now receipt stops) = some t) :
    Logs s t ∧ ev ∉ s.db.events.rows ∧ ev ∈ t.db.events.rows := by
  obtain ⟨-, u, v, hu, hv, rfl⟩ := step_receive h
  have hins := (append_events (commit_append hu)).1
  have hsu := commit_logs hs hu
  have huv := queueAcceptedReceipt_logs hsu.scopes hv
  have hmem : ev ∈ v.db.events.rows := huv.rows ev ((Table.mem_of_insert hins).mpr (Or.inr rfl))
  have hfresh : ev ∉ s.db.events.rows := by
    intro hold
    have := (Table.insert_eq_some hins).1
    rw [Table.mem_iff_find.mp hold] at this
    exact absurd this (by simp)
  cases stops with
  | true => exact ⟨hsu.trans huv, hfresh, hmem⟩
  | false =>
    have hvt : Logs v (v.projectReceived ev now) := projectReceived_logs huv.scopes (Table.mem_iff_find.mp hmem)
    exact ⟨(hsu.trans huv).trans hvt, hfresh, hvt.rows ev hmem⟩

theorem step_logs {op : Op} (hs : Scoped s.db) (h : s.step op = some t) : Logs s t := by
  cases op with
  | other a =>
    simp only [step] at h
    split_ifs at h with hquiet
    obtain ⟨n, hn, rfl⟩ := Option.map_eq_some_iff.mp h
    exact ⟨step_scoped hs hn, fun e he => (quiet_step hquiet hn).1 ▸ he⟩
  | policy rid enabled =>
    obtain rfl := Option.some.inj h
    exact ⟨hs, fun _ => id⟩
  | send ev dry clock stops =>
    obtain ⟨u, hu, rfl⟩ := step_send h
    have hsu := commit_logs hs hu
    cases stops with
    | true => exact hsu
    | false => exact hsu.trans (projectSent_logs hsu.scopes (find_self_of_append (commit_append hu)))
  | receive ev now receipt stops => exact (receive_logs hs h).1
  | redeliver event_id now =>
    simp only [step] at h
    obtain ⟨ev, hev, h⟩ := Option.bind_eq_some_iff.mp h
    split_ifs at h with hadmits hqueued
    · obtain rfl := Option.some.inj h
      exact projectReceived_logs hs (by rw [Table.key_of_find hev]; exact hev)
    · exact Option.some.inj h ▸ .refl hs

end Ledger

/-! ## The count -/

namespace Intake

variable {s t : Intake} {rid : RelationshipId} {now : Nat}

/-- The invariant. -/
structure Sound (s : Intake) : Prop where
  scopes : Scoped s.db
  stored : ∀ e ∈ s.accepted, e ∈ s.db.events.rows
  nodup : s.accepted.Nodup
  bounded : ∀ rid start, s.accepted.countP (Event.within rid start) ≤ INGRESS_MAX_EVENTS_PER_DAY

/-- The count is over the events of the peer and those of the node. -/
theorem Sound.ingressCount (hs : s.Sound) (rid : RelationshipId) (now : Nat) :
    s.db.ingressCount rid now = s.peerCount rid now + s.ownCount rid now := by
  have hrows : s.db.events.rows.Nodup := List.Nodup.of_map _ s.db.events.nodup
  have hperm : (s.db.events.rows.filter (· ∈ s.accepted)).Perm s.accepted := by
    refine (List.perm_ext_iff_of_nodup (hrows.filter _) hs.nodup).mpr (fun e => ?_)
    simp only [List.mem_filter, decide_eq_true_eq]
    exact ⟨fun h => h.2, fun h => ⟨hs.stored e h, h⟩⟩
  unfold Database.ingressCount peerCount ownCount own
  rw [List.countP_eq_countP_filter_add _ _ (fun e => decide (e ∈ s.accepted)), hperm.countP_eq]
  simp only [decide_not]

theorem trails_iff {e : Event} :
    e.trails rid now = true ↔ e.relationship_id = rid ∧ ∃ r, e.received_at = some r ∧ now ≤ r + INGRESS_WINDOW := by
  unfold Event.trails
  cases e.received_at <;> simp

theorem within_iff {start : Nat} {e : Event} :
    e.within rid start = true ↔
      e.relationship_id = rid ∧ ∃ r, e.received_at = some r ∧ start ≤ r ∧ r ≤ start + INGRESS_WINDOW := by
  unfold Event.within
  cases e.received_at <;> simp

theorem countP_within_le {start : Nat} (hopen : now ≤ start + INGRESS_WINDOW) :
    s.accepted.countP (Event.within rid start) ≤ s.peerCount rid now := by
  refine List.countP_mono_left (fun e _ h => ?_)
  obtain ⟨hrid, r, hr, hlow, -⟩ := within_iff.mp h
  exact trails_iff.mpr ⟨hrid, r, hr, hopen.trans (Nat.add_le_add_right hlow _)⟩

/-! ## Steps -/

/-- What the receive path would accept comes from a sender that is admitted. -/
theorem defers_of_admits {ev : Event} {receipt : Draw} {stops : Bool}
    (h : (s.toLedger.step (.receive ev now receipt stops)).isSome = true) :
    s.defers ev now = s.quotaHolds ev.relationship_id now := by
  obtain ⟨t, ht⟩ := Option.isSome_iff_exists.mp h
  have hadmits := (Ledger.admitsObject_iff.mp (Ledger.step_receive ht).1).1
  unfold defers
  rw [hadmits, Bool.true_and]

theorem quotaHolds_iff (hs : s.Sound) :
    s.quotaHolds rid now = true ↔ INGRESS_MAX_EVENTS_PER_DAY ≤ s.peerCount rid now + s.ownCount rid now := by
  unfold quotaHolds
  rw [decide_eq_true_eq, hs.ingressCount]

/-- A step that accepts nothing from the peer. -/
theorem Sound.other {u : Ledger} (hs : s.Sound) (h : s.toLedger.Logs u) : Sound { s with toLedger := u } :=
  ⟨h.scopes, fun e he => h.rows e (hs.stored e he), hs.nodup, hs.bounded⟩

/-- An accepted event still fits into every window. -/
theorem Sound.receive {u : Ledger} {ev : Event} {receipt : Draw} {stops : Bool} (hs : s.Sound)
    (hdefers : s.defers ev now = false) (h : s.toLedger.step (.receive ev now receipt stops) = some u) :
    Sound { toLedger := u, accepted := s.accepted ++ [ev] } := by
  obtain ⟨hlogs, hfresh, hmem⟩ := Ledger.receive_logs hs.scopes h
  refine ⟨hlogs.scopes, fun e he => ?_, ?_, fun rid start => ?_⟩
  · obtain he | he := List.mem_append.mp he
    · exact hlogs.rows e (hs.stored e he)
    · exact List.mem_singleton.mp he ▸ hmem
  · refine List.nodup_append.mpr ⟨hs.nodup, List.nodup_singleton ev, ?_⟩
    rintro e he e' he' rfl
    exact hfresh (List.mem_singleton.mp he' ▸ hs.stored e he)
  · show (s.accepted ++ [ev]).countP _ ≤ _
    rw [List.countP_append, List.countP_singleton]
    cases hwithin : ev.within rid start with
    | false =>
      rw [if_neg Bool.false_ne_true]
      exact hs.bounded rid start
    | true =>
      rw [if_pos rfl]
      obtain ⟨rfl, r, hr, hlow, hhigh⟩ := within_iff.mp hwithin
      obtain rfl : r = now :=
        Option.some.inj (hr.symm.trans (Ledger.admitsObject_iff.mp (Ledger.step_receive h).1).2.1)
      have hcount : s.accepted.countP (Event.within ev.relationship_id start) ≤ s.peerCount ev.relationship_id r :=
        countP_within_le hhigh
      rw [defers_of_admits (Option.isSome_iff_exists.mpr ⟨u, h⟩), ← Bool.not_eq_true, quotaHolds_iff hs] at hdefers
      omega

theorem Sound.step {op : Op} (hs : s.Sound) (h : s.step op = some t) : t.Sound := by
  cases op with
  | receive ev now receipt stops =>
    simp only [Intake.step] at h
    split_ifs at h with hdefers
    · exact Option.some.inj h ▸ hs
    · obtain ⟨u, hu, rfl⟩ := Option.map_eq_some_iff.mp h
      exact hs.receive (Bool.not_eq_true _ ▸ hdefers) hu
  | policy rid enabled =>
    obtain rfl := Option.some.inj h
    exact hs.other ⟨hs.scopes, fun _ => id⟩
  | other | send | redeliver =>
    obtain ⟨u, hu, rfl⟩ := Option.map_eq_some_iff.mp h
    exact hs.other (Ledger.step_logs hs.scopes hu)

theorem Sound.fair {op : Op} (hs : s.Sound) (h : s.step op = some t) (hok : ownLeavesRoom s op) : Fair s op t where
  deferred := by
    rintro ev now receipt stops rfl hsome
    rw [defers_of_admits hsome, quotaHolds_iff hs]
    constructor
    · intro hfull
      by_contra hroom
      have := hok hsome (Nat.lt_of_not_le hroom)
      omega
    · exact fun hfull => hfull.trans (Nat.le_add_right _ _)
  bounded := (hs.step h).bounded

theorem Sound.leavesRoom {op : Op} (hs : s.Sound) (h : Fair s op t) : ownLeavesRoom s op := by
  cases op with
  | receive ev now receipt stops =>
    intro hsome hroom
    have hiff := h.deferred ev now receipt stops rfl hsome
    rw [defers_of_admits hsome, quotaHolds_iff hs] at hiff
    have hnot : ¬ INGRESS_MAX_EVENTS_PER_DAY ≤ s.peerCount ev.relationship_id now + s.ownCount ev.relationship_id now :=
      fun hfull => absurd (hiff.mp hfull) (Nat.not_le.mpr hroom)
    omega
  | other | policy | send | redeliver => trivial

theorem Sound.initial (h : intake.init s) : s.Sound := by
  obtain ⟨⟨⟨hdb, -⟩, -⟩, haccepted⟩ := h
  refine ⟨?_, ?_, ?_, ?_⟩
  · rw [hdb]
    exact .initial
  · simp [haccepted]
  · simp [haccepted]
  · simp [haccepted]

end Intake

/-! ## Runs -/

/-- Along a run every object is deferred as the quota says, and no window holds more events
of the peer, exactly if the events of the node leave room for every object. -/
theorem quota_fair {s t : Intake} {ops : List Op} (hinit : intake.init s) (hrun : intake.run s ops = some t) :
    (∀ k u op v, intake.run s (ops.take k) = some u → ops[k]? = some op → intake.step u op = some v → Fair u op v) ↔
      intake.okRun ownLeavesRoom s ops := by
  refine Machine.steps_iff_okRun (I := Intake.Sound) (fun u op v hu hok hv => ?_) (fun u op v hu hok hv => ?_)
    (fun u op v hu hv hfair => ?_) (.initial hinit) hrun
  · exact hu.step hv
  · exact hu.fair hv hok
  · exact hu.leavesRoom hfair

/-! ## A flood -/

/-- A node with the identity 1. -/
def newIntake : Intake := { db := {}, identities := [1] }

/-- Event `k` of the peer, whose identity is 2. -/
def flood (k : Nat) : Event := ⟨2 * k, 1, 1, none, 2, k + 1, 10, 1, .relationshipReady, none, some 11⟩

/-- The receive of event `k` with its receipt. -/
def floodOp (k : Nat) : Op := .receive (flood k) 11 ⟨2 * k + 1, 0, 1, 11⟩ false

/-- The relationship is paired and `k` events come in. -/
def floodRun (k : Nat) : List Op := .other (.pair 1 2) :: (List.range k).map floodOp

/-- The ledger holds `n` events, the last one of the peer with the number `k`. -/
structure Flooded (n k : Nat) (s : Ledger) : Prop where
  relationship : s.db.relationships.find 1 = some ⟨1, 2, none, none⟩
  identities : s.identities = [1]
  enabled : s.accepted_receipts_enabled = fun _ => true
  refs : s.db.pending_refs.rows = []
  threads : ∀ row ∈ s.db.threads.rows, row.conversation_id = 1
  rows : ∀ e ∈ s.db.events.rows, e.event_id < n ∧ e.trails 1 11 = true ∧ (e.sender = 2 → e.sender_seq ≤ k)
  count : s.db.events.rows.length = n
  last : s.lastSeq 1 2 = k

namespace Flooded

variable {n k : Nat} {s : Ledger}

/-- One more event enters the log. -/
theorem commit {ev : Event} {now : Nat} (h : Flooded n k s) (hid : ev.event_id = n) (htrails : ev.trails 1 11 = true)
    (hconversation : ev.conversation_id = 1)
    (hnew : ∀ e ∈ s.db.events.rows, e.sender = ev.sender → e.sender_seq < ev.sender_seq)
    (hnumber : ev.sender = 2 → ev.sender_seq = k + 1) :
    ∃ t, s.commit ev now = some t ∧ Flooded (n + 1) (if ev.sender = 2 then k + 1 else k) t := by
  have hrel : ev.relationship_id = 1 := (Intake.trails_iff.mp htrails).1
  have hfree : s.db.events.find ev.event_id = none := by
    rw [Table.find_eq_none]
    intro e he heq
    have := (h.rows e he).1
    rw [heq, hid] at this
    exact absurd this (Nat.lt_irrefl n)
  obtain ⟨events, hevents⟩ := Table.insert_isSome hfree
  have hclash : s.db.events.rows.any (fun e => e.relationship_id = ev.relationship_id ∧ e.sender = ev.sender ∧
      e.sender_seq = ev.sender_seq) = false := by
    refine List.any_eq_false.mpr (fun e he hsame => ?_)
    obtain ⟨-, hsender, hseq⟩ := of_decide_eq_true hsame
    exact absurd hseq (Nat.ne_of_lt (hnew e he hsender))
  have happend : s.db.append ev = some { s.db with
      events
      threads := ev.thread_id.elim s.db.threads
        (fun thread_id => s.db.threads.insertOrIgnore ⟨thread_id, ev.conversation_id⟩) } := by
    unfold Database.append
    rw [hrel] at hclash ⊢
    rw [h.relationship, hclash, hevents]
    rfl
  have hcommit : ∃ t, s.commit ev now = some t := by
    unfold Ledger.commit
    rw [happend]
    exact ⟨_, rfl⟩
  obtain ⟨t, ht⟩ := hcommit
  have hlast : t.lastSeq 1 2 = _ := Ledger.commit_lastSeq ht
  have hrows := (Table.insert_eq_some hevents).2
  refine ⟨t, ht, ?_⟩
  unfold Ledger.commit at ht
  rw [happend] at ht
  obtain rfl := Option.some.inj ht
  refine ⟨h.relationship, h.identities, h.enabled, h.refs, ?_, ?_, ?_, ?_⟩
  · intro row hrow
    have hrow : row ∈ (ev.thread_id.elim s.db.threads
      (fun thread_id => s.db.threads.insertOrIgnore ⟨thread_id, ev.conversation_id⟩)).rows := hrow
    cases hthread : ev.thread_id with
    | none =>
      rw [hthread] at hrow
      exact h.threads row hrow
    | some thread_id =>
      rw [hthread] at hrow
      obtain hold | ⟨rfl, -⟩ := Table.mem_insertOrIgnore.mp hrow
      · exact h.threads row hold
      · exact hconversation
  · intro e he
    obtain he | rfl := (Table.mem_of_insert hevents).mp he
    · obtain ⟨hlt, htr, hseq⟩ := h.rows e he
      refine ⟨Nat.lt_succ_of_lt hlt, htr, fun hsender => ?_⟩
      have := hseq hsender
      split_ifs <;> omega
    · refine ⟨Nat.lt_succ_of_le (Nat.le_of_eq hid), htrails, fun hsender => ?_⟩
      rw [if_pos hsender, hnumber hsender]
  · show events.rows.length = _
    rw [hrows, List.length_append, h.count, List.length_singleton]
  · rw [hlast, h.last, hrel]
    by_cases hsender : ev.sender = 2
    · rw [if_pos ⟨rfl, hsender.symm⟩, if_pos hsender, hnumber hsender]
      omega
    · rw [if_neg (fun hk => hsender hk.2.symm), if_neg hsender]

theorem project {ev : Event} {now : Nat} (h : Flooded n k s) (hpayload : ev.payload = .relationshipReady)
    (hfork : forked s.db ev = false) : Flooded n k (s.projectReceived ev now) := by
  have hwaiters : pendingRefs s.db ev.relationship_id ev.event_id = [] := by
    unfold pendingRefs
    rw [h.refs]
    rfl
  have happly : applyEvent s.db ev now = .done (updateSeqState s.db ev (ev.received_at.getD now)) := by
    unfold applyEvent applyInner
    rw [hfork, if_neg Bool.false_ne_true]
    have hdispatch : dispatch s.db ev (ev.received_at.getD now) = .done s.db := by
      unfold dispatch
      rw [hpayload]
    rw [hdispatch]
    show Outcome.andThen (resolvePending s.db _ _ _ _) _ = _
    unfold resolvePending
    rw [hwaiters]
    rfl
  obtain ⟨_, _, heq⟩ := updateSeqState_eq s.db ev (ev.received_at.getD now)
  unfold Ledger.projectReceived
  rw [happly, heq]
  exact ⟨h.relationship, h.identities, h.enabled, h.refs, h.threads, h.rows, h.count, h.last⟩

/-- One more event of the peer adds two to the log, with its receipt. -/
theorem receive (h : Flooded (2 * k) k s) : ∃ t, s.step (floodOp k) = some t ∧ Flooded (2 * (k + 1)) (k + 1) t := by
  have hadmits : s.admitsObject (flood k) 11 = true := by
    rw [Ledger.admitsObject_iff]
    refine ⟨?_, rfl, Nat.succ_pos k, ?_⟩
    · show (s.db.relationships.find 1).any _ = true
      rw [h.relationship]
      rfl
    · show k + 1 - s.lastSeq 1 2 ≤ MAX_SEQ_GAP
      rw [h.last, MAX_SEQ_GAP]
      omega
  obtain ⟨u, hu, hflooded⟩ : ∃ u, s.commit (flood k) 11 = some u ∧ _ := h.commit rfl (by rfl) rfl
    (fun e he hsender => Nat.lt_succ_of_le ((h.rows e he).2.2 hsender)) (fun _ => rfl)
  rw [if_pos (show (flood k).sender = 2 from rfl)] at hflooded
  set receipt := u.acceptedReceipt (flood k) 11 ⟨2 * k + 1, 0, 1, 11⟩ 1 with hreceipt
  obtain ⟨v, hv, hflooded'⟩ : ∃ v, u.commit receipt 11 = some v ∧ _ := hflooded.commit rfl (by rfl) rfl (fun e he hsender => by
    refine Nat.lt_succ_of_le (le_maxSeq ⟨e, he, ?_, hsender, rfl⟩)
    exact (Intake.trails_iff.mp (hflooded.rows e he).2.1).1)
    (fun hsender => absurd (show (1 : IdentityId) = 2 from hsender) (by decide))
  rw [if_neg (show ¬ receipt.sender = 2 from show ¬ (1 : IdentityId) = 2 by decide)] at hflooded'
  have hqueued : u.queueAcceptedReceipt (flood k) 11 ⟨2 * k + 1, 0, 1, 11⟩ = some v := by
    unfold Ledger.queueAcceptedReceipt Ledger.queuesReceipt
    rw [hflooded.enabled, hflooded.identities]
    show u.persistOutgoing receipt 11 = some v
    unfold Ledger.persistOutgoing
    rw [if_neg, hv]
    show ¬ (u.db.threads.find 0).any _ = true
    cases hfind : u.db.threads.find 0 with
    | none => exact Bool.false_ne_true
    | some row =>
      have hrow := hflooded.threads row (Table.find_eq_some.mp hfind).1
      show ¬ decide (row.conversation_id ≠ 1) = true
      rw [hrow]
      decide
  have hfork : forked v.db (flood k) = false := by
    have hold := not_forked_of_append (Ledger.commit_append hu)
    unfold forked at hold ⊢
    refine List.any_eq_false.mpr (fun e he => ?_)
    obtain he | rfl := (Table.mem_of_insert (append_events (Ledger.commit_append hv)).1).mp he
    · exact List.any_eq_false.mp hold e he
    · simp [hreceipt, Ledger.acceptedReceipt, flood]
  refine ⟨v.projectReceived (flood k) 11, ?_, hflooded'.project rfl hfork⟩
  show (if s.admitsObject (flood k) 11 then _ else none) = _
  rw [if_pos hadmits, hu, Option.bind_some, hqueued]
  rfl

theorem ingressCount (h : Flooded n k s) : s.db.ingressCount 1 11 = n := by
  unfold Database.ingressCount
  rw [List.countP_eq_length.mpr (fun e he => (h.rows e he).2.1), h.count]

end Flooded

/-- While the log holds less than the quota, every event of the flood is accepted. -/
theorem flood_accepted (k : Nat) (hk : 2 * k ≤ INGRESS_MAX_EVENTS_PER_DAY) :
    ∃ s, intake.run newIntake (floodRun k) = some s ∧ Flooded (2 * k) k s.toLedger ∧ s.Sound ∧
      s.accepted.length = k := by
  have hinit : intake.init newIntake := ⟨⟨⟨rfl, List.cons_ne_nil _ _⟩, rfl, rfl⟩, rfl⟩
  induction k with
  | zero =>
    obtain ⟨s, hs⟩ := Option.isSome_iff_exists.mp
      (show (intake.step newIntake (.other (.pair 1 2))).isSome = true by decide +kernel)
    have hrun : intake.run newIntake (floodRun 0) = some s := by
      show (intake.step newIntake (.other (.pair 1 2))).bind _ = _
      rw [hs]
      rfl
    have hstep : newIntake.step (.other (.pair 1 2)) = some s := hs
    refine ⟨s, hrun, ?_, (Intake.Sound.initial hinit).step hstep, ?_⟩
    · obtain rfl := Option.some.inj hs
      exact ⟨rfl, rfl, rfl, rfl, fun _ h => absurd h List.not_mem_nil, fun _ h => absurd h List.not_mem_nil, rfl, rfl⟩
    · obtain rfl := Option.some.inj hs
      rfl
  | succ k ih =>
    obtain ⟨s, hrun, hflooded, hsound, hlength⟩ := ih (by omega)
    obtain ⟨t, ht, hflooded'⟩ := hflooded.receive
    have hdefers : s.defers (flood k) 11 = false := by
      rw [Intake.defers_of_admits (Option.isSome_iff_exists.mpr ⟨t, ht⟩)]
      unfold Intake.quotaHolds
      rw [show (flood k).relationship_id = 1 from rfl, hflooded.ingressCount]
      exact decide_eq_false (by omega)
    have hstep : intake.step s (floodOp k) = some { toLedger := t, accepted := s.accepted ++ [flood k] } := by
      show (if s.defers (flood k) 11 then some s else (s.toLedger.step (floodOp k)).map _) = _
      rw [hdefers, if_neg Bool.false_ne_true, ht]
      rfl
    have hkept : s.step (floodOp k) = some _ := hstep
    refine ⟨_, ?_, hflooded', hsound.step hkept, ?_⟩
    · rw [floodRun, List.range_succ, List.map_append, ← List.cons_append, Machine.run_append]
      rw [show intake.run newIntake (.other (.pair 1 2) :: (List.range k).map floodOp) = some s from hrun]
      show (intake.step s (floodOp k)).bind _ = _
      rw [hstep]
      rfl
    · rw [List.length_append, hlength, List.length_singleton]

/-- After 5,000 events of the peer within the same second, each with its receipt, the next
event is deferred. -/
theorem flood_deferred :
    ∃ s, intake.run newIntake (floodRun 5000) = some s ∧ s.peerCount 1 11 = 5000 ∧ s.ownCount 1 11 = 5000 ∧
      (s.toLedger.step (floodOp 5000)).isSome = true ∧ s.defers (flood 5000) 11 = true ∧
      ¬ Fair s (floodOp 5000) s := by
  obtain ⟨s, hrun, hflooded, hsound, hlength⟩ := flood_accepted 5000 (by decide)
  have hpeer : s.peerCount 1 11 = 5000 := by
    unfold Intake.peerCount
    rw [List.countP_eq_length.mpr (fun e he => (hflooded.rows e (hsound.stored e he)).2.1), hlength]
  have hown : s.ownCount 1 11 = 5000 := by
    have hcount := hsound.ingressCount 1 11
    rw [hflooded.ingressCount, hpeer] at hcount
    omega
  obtain ⟨t, ht, -⟩ := hflooded.receive
  have hsome : (s.toLedger.step (floodOp 5000)).isSome = true := Option.isSome_iff_exists.mpr ⟨t, ht⟩
  have hdefers : s.defers (flood 5000) 11 = true := by
    rw [Intake.defers_of_admits hsome, Intake.quotaHolds_iff hsound]
    show 10000 ≤ s.peerCount 1 11 + s.ownCount 1 11
    omega
  refine ⟨s, hrun, hpeer, hown, hsome, hdefers, fun hfair => ?_⟩
  have hfull := (hfair.deferred (flood 5000) 11 _ false rfl hsome).mp hdefers
  have hle : 10000 ≤ s.peerCount 1 11 := hfull
  omega

/-- A message and an answer, far below the quota. -/
theorem quota_fair_answeredRun : ∃ t, intake.run newIntake answeredRun = some t ∧
    ∀ k u op v, intake.run newIntake (answeredRun.take k) = some u → answeredRun[k]? = some op →
      intake.step u op = some v → Fair u op v := by
  obtain ⟨t, ht⟩ := Option.isSome_iff_exists.mp
    (show (intake.run newIntake answeredRun).isSome = true by decide +kernel)
  exact ⟨t, ht, (quota_fair ⟨⟨⟨rfl, List.cons_ne_nil _ _⟩, rfl, rfl⟩, rfl⟩ ht).mpr (by decide +kernel)⟩

end MuseAgentSocial.Store
