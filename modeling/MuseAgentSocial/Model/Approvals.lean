import MuseAgentSocial.Lib.Table

/-!
# Human approvals

A model of `model/approvals.py`.  A record authorises one send and dies at
`expires_at`.  `consume` is `consume_approval`: it fires only on a live
record whose bindings match the response that is sent.

Identifiers are numbers, since the code only compares them, and instants are
seconds.
-/

namespace MuseAgentSocial.Model

/-- `event_id`, and `scheduled_id`, which is one. -/
abbrev EventId := Nat

/-- `relationship_id`. -/
abbrev RelationshipId := Nat

/-- `approval_id`, the `approval_record_id` of a payload. -/
abbrev ApprovalId := Nat

/-- What an approval is about. -/
inductive SubjectType where
  | human_request
  | poll
  deriving DecidableEq, Repr

/-- The fields that bind an approval to one response. -/
structure Binding where
  relationship_id : RelationshipId
  subject_type : SubjectType
  subject_id : Nat
  answer : List Nat
  approved : Bool
  deriving DecidableEq, Repr

/-- A row of `human_approvals`. -/
structure Approval where
  approval_id : ApprovalId
  binding : Binding
  expires_at : Nat
  consumed_at : Option Nat := none
  deriving DecidableEq, Repr

/-- The table `human_approvals`. -/
abbrev Approvals := Table Approval.approval_id

/-- The condition of the `UPDATE` in `consume_approval`.  No binding is
compared when none is given. -/
def Approval.consumable (a : Approval) (now : Nat) (binding : Option Binding) : Bool :=
  a.consumed_at.isNone && decide (now < a.expires_at) && binding.all (· == a.binding)

/-- `consume_approval`: the table after the claim, `none` when no row
matched. -/
def Approvals.consume (t : Approvals) (approval_id : ApprovalId) (now : Nat)
    (binding : Option Binding) : Option Approvals :=
  match t.find approval_id with
  | none => none
  | some a =>
    if a.consumable now binding then
      some (t.modify approval_id (fun a => { a with consumed_at := some now }) (fun _ => rfl))
    else none

/-- The claim succeeds on a live record and consumes that one record. -/
theorem Approvals.consume_eq_some {t t' : Approvals} {i : ApprovalId} {now : Nat}
    {binding : Option Binding} (h : t.consume i now binding = some t') :
    (∃ a, t.find i = some a ∧ a.consumed_at = none) ∧
      t' = t.modify i (fun a => { a with consumed_at := some now }) (fun _ => rfl) := by
  unfold consume at h
  cases hfind : t.find i with
  | none => simp [hfind] at h
  | some a =>
    simp only [hfind] at h
    split_ifs at h with hlive
    simp only [Approval.consumable, Bool.and_eq_true, Option.isNone_iff_eq_none] at hlive
    exact ⟨⟨a, rfl, hlive.1.1⟩, (Option.some.inj h).symm⟩

/-- Give a consumed record back when it is still within its time. -/
def Approvals.restore (t : Approvals) (approval_id : ApprovalId) (now : Nat) : Approvals :=
  t.modify approval_id
    (fun a => if now < a.expires_at then { a with consumed_at := none } else a)
    (fun a => by split_ifs <;> rfl)

theorem Approvals.find_restore (t : Approvals) (i : ApprovalId) (now : Nat) (k : ApprovalId) :
    (t.restore i now).find k =
      if k = i then (t.find i).map (fun a => if now < a.expires_at then { a with consumed_at := none } else a)
      else t.find k := by
  rw [restore, Table.find_modify]

end MuseAgentSocial.Model
