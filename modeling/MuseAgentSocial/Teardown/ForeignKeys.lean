import MuseAgentSocial.Teardown.Erased

/-!
# What blocks the transaction of a teardown

The deletes are ordered so that children go before their parents.  One foreign
key can still block them: the threads of a conversation are deleted with the
conversation, and an event in another conversation may name such a thread.
-/

namespace MuseAgentSocial.Teardown

open Relational

/-- The keys of the table `events` as the schema has them. -/
structure Keyed (rows : List Row) : Prop where
  ids : ∀ e ∈ select .events rows, (e.get .event_id).isSome = true
  unique : ∀ e ∈ select .events rows, ∀ e' ∈ select .events rows,
    e.get .event_id = e'.get .event_id → e = e'
  nonces : ∀ e ∈ select .events rows, ∀ e' ∈ select .events rows,
    e.get .replay_nonce = e'.get .replay_nonce → e = e'

/-- The thread is named by an event of another relationship. -/
def namedByOthers (rid : RelationshipId) (rows : List Row) (t : Row) : Bool :=
  (select .events rows).any (fun e => !e.isIn .event_id (eventIds rid rows) &&
    ((t.get .thread_id).isSome && e.get .thread_id = t.get .thread_id))

/-- No event that stays names a thread of a conversation that goes. -/
def ThreadsFree (rid : RelationshipId) (rows : List Row) : Prop :=
  ∀ t ∈ select .threads rows, erased rid rows t = true → namedByOthers rid rows t = false

instance (rid : RelationshipId) (rows : List Row) : Decidable (ThreadsFree rid rows) :=
  inferInstanceAs (Decidable (∀ t ∈ _, _))

instance (rows : List Row) : Decidable (Keyed rows) :=
  decidable_of_iff
    ((∀ e ∈ select TableName.events rows, (e.get .event_id).isSome = true) ∧
      (∀ e ∈ select TableName.events rows, ∀ e' ∈ select TableName.events rows,
        e.get .event_id = e'.get .event_id → e = e') ∧
      ∀ e ∈ select TableName.events rows, ∀ e' ∈ select TableName.events rows,
        e.get .replay_nonce = e'.get .replay_nonce → e = e')
    ⟨fun h => ⟨h.1, h.2.1, h.2.2⟩, fun h => ⟨h.ids, h.unique, h.nonces⟩⟩

section Transaction

variable {rid : RelationshipId} {rows : List Row}

theorem key_single (r : Row) (c : Column) : r.key [c] = (r.get c).map (fun v => [v]) := by
  cases h : r.get c <;> simp [Row.key, h]

theorem event_isIn (hk : Keyed rows) {e : Row} (he : e ∈ rows) (htab : e.table = .events)
    (hrid : e.is .relationship_id (.text rid) = true) : e.isIn .event_id (eventIds rid rows) = true := by
  obtain ⟨v, hv⟩ := Option.isSome_iff_exists.mp (hk.ids e (mem_select.mpr ⟨he, htab⟩))
  exact Row.isIn_iff.mpr ⟨v, hv, mem_column.mpr ⟨e, he, htab, hrid, hv⟩⟩

/-- A transaction that comes to its end meets no thread that is named. -/
theorem threadsFree_of_eraseRows {rows' : List Row} (h : eraseRows rid rows = some rows') :
    ThreadsFree rid rows := by
  intro t ht herased
  obtain ⟨htmem, httab⟩ := mem_select.mp ht
  rw [← Bool.not_eq_true]
  intro hnamed
  obtain ⟨e, he, hboth⟩ := List.any_eq_true.mp hnamed
  obtain ⟨hemem, hetab⟩ := mem_select.mp he
  simp only [Bool.and_eq_true, Bool.not_eq_true', decide_eq_true_eq] at hboth
  obtain ⟨hstays, hsome, hthread⟩ := hboth
  obtain ⟨v, hv⟩ := Option.isSome_iff_exists.mp hsome
  unfold eraseRows at h
  simp only [Option.bind_eq_bind, Option.bind_eq_some_iff] at h
  obtain ⟨rows₁, h₁, rows₂, h₂, -⟩ := h
  have hmem₁ : ∀ r ∈ rows, hit (eventDeletes rid rows) r = false → r ∈ rows₁ := by
    intro r hr hkept
    rw [run_eq_some h₁, List.mem_filter, hkept]
    exact ⟨hr, rfl⟩
  have he₁ : e ∈ rows₁ := hmem₁ e hemem (by simp [hit_eventDeletes, hetab, erased, hstays])
  -- The thread goes with its conversation, and the event that names it stays.
  have hgone : hit (conversationDeletes rid rows rows₁) t = true := by
    simp only [erased, httab, List.any_eq_true, Bool.and_eq_true] at herased
    obtain ⟨cid, hcid, horphaned, ht⟩ := herased
    rw [hit_conversationDeletes, httab]
    refine List.any_eq_true.mpr ⟨cid, hcid, ?_⟩
    rw [ht, Bool.and_true, Bool.not_eq_true', List.any_eq_false]
    intro e' he' hcid'
    obtain ⟨hmem', htab'⟩ := mem_select.mp he'
    rw [run_eq_some h₁, List.mem_filter, hit_eventDeletes, htab'] at hmem'
    rw [orphaned, Bool.not_eq_true', List.any_eq_false] at horphaned
    refine horphaned e' (mem_select.mpr ⟨hmem'.1, htab'⟩) ?_
    rw [hcid', Bool.true_and]
    simpa [erased, htab'] using hmem'.2
  have he₂ : e ∈ rows₂ := by
    rw [run_eq_some h₂, List.mem_filter]
    exact ⟨he₁, by simp [hit_conversationDeletes, hetab]⟩
  have hek : e.key [.thread_id] = some [v] := by
    rw [key_single, hthread, hv]
    rfl
  have htk : t.key [.thread_id] = some [v] := by
    rw [key_single, hv]
    rfl
  have hfk : ⟨.events, [.thread_id], .threads, [.thread_id]⟩ ∈ foreignKeys := by simp [foreignKeys]
  exact run_references h₂ hfk (hmem₁ t htmem (by simp [hit_eventDeletes, httab])) httab hgone he₂ hetab
    hek htk

/-- What the condition reads. -/
theorem threadsFree_congr {rows' : List Row} (hevents : select .events rows' = select .events rows)
    (hmig : select .migration_state rows' = select .migration_state rows)
    (hthreads : select .threads rows' = select .threads rows) :
    ThreadsFree rid rows' ↔ ThreadsFree rid rows := by
  have hids : eventIds rid rows' = eventIds rid rows := by simp [eventIds, column, hevents]
  simp only [ThreadsFree, hthreads, erased_congr hevents hmig, namedByOthers, hevents, hids]

theorem RowsPrepared.threadsFree {rows' : List Row} (h : RowsPrepared rid rows rows') :
    ThreadsFree rid rows' ↔ ThreadsFree rid rows :=
  threadsFree_congr (h.tables .events (by decide) (by decide))
    (h.tables .migration_state (by decide) (by decide)) (h.tables .threads (by decide) (by decide))

end Transaction

end MuseAgentSocial.Teardown
