import MuseAgentSocial.Teardown.Relationship

/-!
# The rows that a teardown deletes

`eraseRows` is the transaction of a teardown as a function.  `erased` says
which rows it deletes, table by table, and `eraseRows_eq` that the rows of a
transaction that comes to its end are the others.
-/

namespace MuseAgentSocial.Teardown

open Relational

/-- What the deletes of the transaction make of the rows. -/
def eraseRows (rid : RelationshipId) (rows : List Row) : Option (List Row) := do
  let rows₁ ← run foreignKeys (eventDeletes rid rows) rows
  let rows₂ ← run foreignKeys (conversationDeletes rid rows rows₁) rows₁
  run foreignKeys (relationshipDeletes rid rows₂) rows₂

/-- The conversation has no event but those of the relationship. -/
def orphaned (rid : RelationshipId) (rows : List Row) (cid : Value) : Bool :=
  !(select .events rows).any (fun e =>
    e.is .conversation_id cid && !e.isIn .event_id (eventIds rid rows))

/-- The transaction deletes the row. -/
def erased (rid : RelationshipId) (rows : List Row) (r : Row) : Bool :=
  let events := eventIds rid rows
  match r.table with
  | .projection_queue | .surface_queue | .event_payloads | .events => r.isIn .event_id events
  | .receipt_queue => r.isIn .target_event_id events
  | .scheduler_queue =>
    r.isIn .scheduled_id ((migrationScheduledIds rid rows).map .text) || r.isIn .scheduled_id events
  | .sent_objects => r.isIn .scheduled_id events
  | .replay_guard => r.isIn .replay_nonce (replayNonces rid rows)
  | .message_revisions => r.isIn .edit_event_id events
  | .reactions => r.isIn .added_event_id events
  | .receipts => r.isIn .receipt_event_id events
  | .poll_responses => r.isIn .response_event_id events
  | .threads | .conversations =>
    (conversationIds rid rows).any (fun cid => orphaned rid rows cid && r.is .conversation_id cid)
  | .thread_state => r.isIn .conversation_id (conversationIds rid rows)
  | .pairing_verifications | .invite_bodies | .pairing_acceptances | .invites =>
    r.isIn .invite_id ((relationshipInviteIds rid rows).map .text)
  | .migration_state => migrationRef rid r && !globalPhase r
  | .attachments | .receive_retry_state | .unknown_epoch_first_seen
  | .rotation_processed_events | .rotation_wrap_seen_pending => false
  | _ => r.is .relationship_id (.text rid)

section Stages

variable {rid : RelationshipId} {rows rest : List Row} {r : Row}

theorem hit_conversationDeletes :
    hit (conversationDeletes rid rows rest) r =
      match r.table with
      | .threads | .conversations =>
        (conversationIds rid rows).any (fun cid =>
          !(select .events rest).any (·.is .conversation_id cid) && r.is .conversation_id cid)
      | .thread_state => r.isIn .conversation_id (conversationIds rid rows)
      | _ => false := by
  have hconv : ∀ (cids : List Value), (cids.flatMap (fun cid =>
      if (select .events rest).any (·.is .conversation_id cid) then ([] : List Delete)
      else [⟨.threads, (·.is .conversation_id cid)⟩, ⟨.conversations, (·.is .conversation_id cid)⟩])).any
        (·.hits r) =
      (decide (r.table = .threads ∨ r.table = .conversations) && cids.any (fun cid =>
        !(select .events rest).any (·.is .conversation_id cid) && r.is .conversation_id cid)) := by
    intro cids
    induction cids with
    | nil => simp
    | cons cid cids ih =>
      rw [List.flatMap_cons, List.any_append, ih, List.any_cons]
      split
      · rename_i hany
        simp [hany]
      · rename_i hany
        by_cases hthreads : r.table = .threads
        · simp [Delete.hits, hthreads, hany]
        by_cases hconversations : r.table = .conversations
        · simp [Delete.hits, hconversations, hany]
        · simp [Delete.hits, hthreads, hconversations, Ne.symm hthreads, Ne.symm hconversations]
  unfold hit conversationDeletes
  rw [List.any_append, hconv]
  simp only [List.any_cons, List.any_nil, Delete.hits]
  cases htab : r.table <;>
    simp only [reduceCtorEq, or_self, or_true, true_or, decide_false, decide_true, Bool.false_and, Bool.true_and,
      Bool.false_or, Bool.or_false]

theorem hit_eventDeletes :
    hit (eventDeletes rid rows) r =
      match r.table with
      | .threads | .conversations | .thread_state | .key_epochs | .sender_sequence
      | .pairing_verifications | .invite_bodies | .pairing_acceptances | .invites
      | .migration_state | .relationships => false
      | _ => erased rid rows r := by
  unfold hit eventDeletes relationshipTables erased
  simp only [List.map_cons, List.map_nil, List.cons_append, List.nil_append, List.any_cons, List.any_nil,
    Delete.hits, ofRelationship]
  cases htab : r.table <;>
    simp only [reduceCtorEq, decide_false, decide_true, Bool.false_and, Bool.true_and, Bool.false_or, Bool.or_false]

theorem hit_relationshipDeletes (hinv : relationshipInviteIds rid rest = relationshipInviteIds rid rows) :
    hit (relationshipDeletes rid rest) r =
      match r.table with
      | .key_epochs | .sender_sequence | .pairing_verifications | .invite_bodies
      | .pairing_acceptances | .invites | .migration_state | .relationships => erased rid rows r
      | _ => false := by
  unfold hit relationshipDeletes erased
  rw [hinv]
  simp only [List.any_cons, List.any_nil, Delete.hits, ofRelationship]
  cases htab : r.table <;>
    simp only [reduceCtorEq, decide_false, decide_true, Bool.false_and, Bool.true_and, Bool.false_or, Bool.or_false]

theorem select_filter {t : TableName} {keep : Row → Bool} (h : ∀ r, r.table = t → keep r = true) :
    select t (rows.filter keep) = select t rows := by
  unfold select
  rw [List.filter_filter]
  apply List.filter_congr
  intro r _
  by_cases ht : r.table = t
  · simp [ht, h r ht]
  · simp [ht]

theorem relationshipInviteIds_congr (h : select .migration_state rest = select .migration_state rows) :
    relationshipInviteIds rid rest = relationshipInviteIds rid rows := by
  unfold relationshipInviteIds
  rw [h]

end Stages

/-- The rows that are not deleted. -/
def survivors (rid : RelationshipId) (rows : List Row) : List Row :=
  rows.filter (fun r => !erased rid rows r)

theorem mem_survivors {rid : RelationshipId} {rows : List Row} {r : Row} :
    r ∈ survivors rid rows ↔ r ∈ rows ∧ erased rid rows r = false := by
  simp [survivors]

/-- The rows that the transaction leaves. -/
theorem eraseRows_eq {rid : RelationshipId} {rows rows' : List Row}
    (h : eraseRows rid rows = some rows') : rows' = survivors rid rows := by
  unfold survivors
  unfold eraseRows at h
  simp only [Option.bind_eq_bind, Option.bind_eq_some_iff] at h
  obtain ⟨rows₁, h₁, rows₂, h₂, h₃⟩ := h
  have e₁ := run_eq_some h₁
  have e₂ := run_eq_some h₂
  have hany : ∀ cid, (select .events rows₁).any (·.is .conversation_id cid) =
      !orphaned rid rows cid := by
    intro cid
    rw [e₁, orphaned, Bool.not_not, Bool.eq_iff_iff]
    simp only [List.any_eq_true, mem_select, List.mem_filter, hit_eventDeletes]
    constructor
    · rintro ⟨e, ⟨⟨hmem, hkeep⟩, htab⟩, hcid⟩
      exact ⟨e, ⟨hmem, htab⟩, by simpa [htab, erased, hcid] using hkeep⟩
    · rintro ⟨e, ⟨hmem, htab⟩, he⟩
      simp only [Bool.and_eq_true, Bool.not_eq_true'] at he
      exact ⟨e, ⟨⟨hmem, by simpa [htab, erased] using he.2⟩, htab⟩, he.1⟩
  have hmig : select .migration_state rows₂ = select .migration_state rows := by
    rw [e₂, e₁, select_filter, select_filter]
    · intro r htab
      simp [hit_eventDeletes, htab]
    · intro r htab
      simp [hit_conversationDeletes, htab]
  -- The predicates are rewritten to speak of `rows` before the lists are.
  rw [run_eq_some h₃]
  simp only [hit_relationshipDeletes (relationshipInviteIds_congr hmig)]
  rw [e₂]
  simp only [hit_conversationDeletes, hany, Bool.not_not]
  rw [e₁, List.filter_filter, List.filter_filter]
  apply List.filter_congr
  intro r _
  rw [hit_eventDeletes]
  cases htab : r.table <;> simp [erased, htab]

/-! ## Writes that the transaction does not see

Marking the relationship as revoked and logging a hook change rows that the
transaction deletes, and nothing that its conditions read. -/

theorem erased_congr {rid : RelationshipId} {rows rows' : List Row}
    (hevents : select .events rows' = select .events rows)
    (hmig : select .migration_state rows' = select .migration_state rows) (r : Row) :
    erased rid rows' r = erased rid rows r := by
  have h₁ : eventIds rid rows' = eventIds rid rows := by simp [eventIds, column, hevents]
  have h₂ : conversationIds rid rows' = conversationIds rid rows := by
    simp [conversationIds, column, hevents]
  have h₃ : replayNonces rid rows' = replayNonces rid rows := by simp [replayNonces, column, hevents]
  have h₄ : migrationScheduledIds rid rows' = migrationScheduledIds rid rows := by
    simp [migrationScheduledIds, hmig]
  have h₅ : ∀ cid, orphaned rid rows' cid = orphaned rid rows cid := by
    intro cid
    simp [orphaned, hevents, h₁]
  unfold erased
  simp only [h₁, h₂, h₃, h₄, h₅, relationshipInviteIds_congr hmig]

theorem survivors_recordHookCompleted (rid : RelationshipId) (hook : HookName) (target : String)
    (w : World) :
    survivors rid (recordHookCompleted rid hook target w).rows = survivors rid w.rows := by
  unfold recordHookCompleted
  split
  · rfl
  · unfold survivors
    have hcongr : ∀ r, erased rid (w.rows ++ [⟨.teardown_hook_log, [(.relationship_id, .text rid),
        (.hook, .text hook.text), (.target, .text target)]⟩]) r = erased rid w.rows r :=
      erased_congr (by simp [select]) (by simp [select])
    simp only [hcongr, List.filter_append]
    simp [erased, Row.is, Row.isIn, Row.get]

theorem lookup_filter {c c' : Column} (hne : c' ≠ c) (cells : List (Column × Value)) :
    (cells.filter (·.1 ≠ c)).lookup c' = cells.lookup c' := by
  induction cells with
  | nil => rfl
  | cons cell cells ih =>
    obtain ⟨d, v⟩ := cell
    by_cases hc : d = c
    · have hskip : (c' == d) = false := by simpa [hc] using hne
      rw [List.filter_cons_of_neg (by simp [hc]), List.lookup_cons, hskip, ih]
    · rw [List.filter_cons_of_pos (by simp [hc]), List.lookup_cons, List.lookup_cons, ih]

theorem get_setCell {c c' : Column} (hne : c' ≠ c) (v : Value) (r : Row) :
    (setCell c v r).get c' = r.get c' := by
  have hskip : (c' == c) = false := by simpa using hne
  simp only [setCell, Row.get, List.lookup_cons, hskip]
  exact lookup_filter hne r.cells

theorem is_setCell {c c' : Column} (hne : c' ≠ c) (v v' : Value) (r : Row) :
    (setCell c v r).is c' v' = r.is c' v' := by
  simp [Row.is, Row.isIn, get_setCell hne]

/-- The row as `markRevoked` leaves it. -/
def revokedRow (rid : RelationshipId) (r : Row) : Row :=
  if r.table = .relationships ∧ r.is .relationship_id (.text rid) then
    setCell .consent_state (.text "revoked") r
  else r

theorem markRevoked_rows (rid : RelationshipId) (w : World) :
    (markRevoked rid w).rows = w.rows.map (revokedRow rid) := rfl

theorem revokedRow_table (rid : RelationshipId) (r : Row) : (revokedRow rid r).table = r.table := by
  unfold revokedRow
  split <;> rfl

theorem revokedRow_is (rid : RelationshipId) {c : Column} (hne : c ≠ .consent_state) (v : Value)
    (r : Row) : (revokedRow rid r).is c v = r.is c v := by
  unfold revokedRow
  split
  · exact is_setCell hne _ _ r
  · rfl

/-- Another table is not touched. -/
theorem select_markRevoked {t : TableName} (ht : t ≠ .relationships) (rid : RelationshipId)
    (rows : List Row) : select t (rows.map (revokedRow rid)) = select t rows := by
  induction rows with
  | nil => rfl
  | cons r rows ih =>
    simp only [select] at ih ⊢
    by_cases hr : r.table = t
    · have hkeep : revokedRow rid r = r := if_neg (fun h => ht (hr ▸ h.1))
      simp [hr, hkeep, ih]
    · simp [revokedRow_table, hr, ih]

theorem filter_map_eq {f : Row → Row} {keep : Row → Bool}
    (h : ∀ r, f r = r ∨ keep (f r) = false ∧ keep r = false) (rows : List Row) :
    (rows.map f).filter keep = rows.filter keep := by
  induction rows with
  | nil => rfl
  | cons r rows ih =>
    rw [List.map_cons, List.filter_cons, List.filter_cons, ih]
    rcases h r with hr | ⟨hf, hr⟩
    · rw [hr]
    · rw [hf, hr, if_neg Bool.false_ne_true, if_neg Bool.false_ne_true]

theorem survivors_markRevoked (rid : RelationshipId) (w : World) :
    survivors rid (markRevoked rid w).rows = survivors rid w.rows := by
  rw [markRevoked_rows]
  unfold survivors
  have hcongr : ∀ r, erased rid (w.rows.map (revokedRow rid)) r = erased rid w.rows r :=
    erased_congr (select_markRevoked (by decide) rid w.rows)
      (select_markRevoked (by decide) rid w.rows)
  simp only [hcongr]
  refine filter_map_eq (fun r => ?_) w.rows
  by_cases hr : r.table = .relationships ∧ r.is .relationship_id (.text rid)
  · refine Or.inr ⟨?_, by simp [erased, hr]⟩
    have hrid := revokedRow_is rid (c := .relationship_id) (by decide) (.text rid) r
    simp [erased, revokedRow_table, hr.1, hrid, hr.2]
  · exact Or.inl (if_neg hr)

/-- The rows as the hooks leave them: those of `relationships` and of the log may
have changed for the relationship itself. -/
structure RowsPrepared (rid : RelationshipId) (rows rows' : List Row) : Prop where
  tables : ∀ t, t ≠ .relationships → t ≠ .teardown_hook_log → select t rows' = select t rows
  others : ∀ r, r.is .relationship_id (.text rid) = false → (r ∈ rows' ↔ r ∈ rows)
  erasure : survivors rid rows' = survivors rid rows

section RowsPrepared

variable {rid : RelationshipId} {rows rows' : List Row} {s : World}

theorem RowsPrepared.refl (rid : RelationshipId) (rows : List Row) : RowsPrepared rid rows rows :=
  ⟨fun _ _ _ => rfl, fun _ _ => Iff.rfl, rfl⟩

theorem RowsPrepared.logged (h : RowsPrepared rid rows s.rows) (hook : HookName) (target : String) :
    RowsPrepared rid rows (recordHookCompleted rid hook target s).rows := by
  have herasure := survivors_recordHookCompleted rid hook target s
  unfold recordHookCompleted at herasure ⊢
  split at herasure
  · rw [if_pos ‹_›]
    exact h
  · rw [if_neg ‹_›]
    refine ⟨fun t h₁ h₂ => ?_, fun r hr => ?_, herasure.trans h.erasure⟩
    · rw [← h.tables t h₁ h₂]
      simp [select, Ne.symm h₂]
    · rw [← h.others r hr, List.mem_append]
      refine or_iff_left (fun hnew => ?_)
      rw [List.mem_singleton.mp hnew] at hr
      simp [Row.is, Row.isIn, Row.get] at hr

theorem RowsPrepared.revoked (h : RowsPrepared rid rows s.rows) :
    RowsPrepared rid rows (markRevoked rid s).rows := by
  refine ⟨fun t h₁ h₂ => ?_, fun r hr => ?_, (survivors_markRevoked rid s).trans h.erasure⟩
  · rw [markRevoked_rows, select_markRevoked h₁]
    exact h.tables t h₁ h₂
  · have hfix : ∀ r', r'.is .relationship_id (.text rid) = false → revokedRow rid r' = r' :=
      fun r' hr' => if_neg (fun hrev => by rw [hr'] at hrev; cases hrev.2)
    rw [← h.others r hr, markRevoked_rows, List.mem_map]
    constructor
    · rintro ⟨r₀, hmem, rfl⟩
      rw [revokedRow_is rid (by decide)] at hr
      rw [hfix r₀ hr]
      exact hmem
    · exact fun hmem => ⟨r, hmem, hfix r hr⟩

theorem RowsPrepared.privateKeyRefs (h : RowsPrepared rid rows rows') :
    privateKeyRefs rid rows' = privateKeyRefs rid rows := by
  unfold Teardown.privateKeyRefs
  rw [h.tables .key_epochs (by decide) (by decide)]

theorem RowsPrepared.inviteIds (h : RowsPrepared rid rows rows') :
    relationshipInviteIds rid rows' = relationshipInviteIds rid rows :=
  relationshipInviteIds_congr (h.tables .migration_state (by decide) (by decide))

end RowsPrepared

end MuseAgentSocial.Teardown
