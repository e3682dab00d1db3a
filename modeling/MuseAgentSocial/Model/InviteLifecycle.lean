import MuseAgentSocial.Model.Invites

/-!
# The life of an invite

Any number of processes call the methods of the ceremony on one store, their
transactions in any order, and any of them may die between two transactions.

* `Effect` is what one transaction can do.
* `Witnessed`: the writes behind a verification record, in their order.
* `invite_lifecycle`: an invite moves along its lifecycle, it yields at most one
  relationship row, and that row answers a record that a human approved.
-/

namespace MuseAgentSocial.Invites

open Model Crypto
open Cli.Pinning (Card)

/-- A call of one method. -/
inductive Op (Key Sig : Type) where
  | createInvite (call : InviteCall Key Sig)
  | previewInvite (invite : Invite Sig) (now : Nat)
  | validateInvite (invite : Invite Sig) (now : Nat)
  | createAcceptance (call : AcceptCall Key Sig)
  | recordDisplayedPhrase (invite_id : InviteId)
      (fingerprints : CardFingerprint Sig × CardFingerprint Sig) (now : Nat)
  | confirmVerification (invite_id : InviteId)
      (fingerprints : CardFingerprint Sig × CardFingerprint Sig) (now : Nat)
  | recordVerification (invite_id : InviteId)
      (fingerprints : CardFingerprint Sig × CardFingerprint Sig) (human_approved : Bool) (now : Nat)
  | burnInvite (invite_id : InviteId)
  | commitPairing (call : CommitCall Key Sig)

/-- The call is one of `commit_pairing`. -/
def Op.commits {Key Sig : Type} : Op Key Sig → Bool
  | .commitPairing _ => true
  | _ => false

section

variable {Key Sig : Type} [DecidableEq Sig] (C : Scheme Key Sig)

/-- The method of a call. -/
def Op.code : Op Key Sig → Method Sig
  | .createInvite call => Invites.createInvite C call
  | .previewInvite invite now => Invites.previewInvite C invite now
  | .validateInvite invite now => Invites.validateInvite C invite now
  | .createAcceptance call => Invites.createAcceptance C call
  | .recordDisplayedPhrase id fingerprints now => Invites.recordDisplayedPhrase id fingerprints now
  | .confirmVerification id fingerprints now => Invites.confirmVerification id fingerprints now
  | .recordVerification id fingerprints approved now => Invites.recordVerification id fingerprints approved now
  | .burnInvite id => .atomic (Invites.burnInvite id) (fun result => .ret (result.map .previous))
  | .commitPairing call => Invites.commitPairing C call

/-- No invite was issued yet. -/
structure PairingStore.Fresh (s : PairingStore Sig) : Prop where
  invites : s.invites = Table.empty
  verifications : s.pairing_verifications = Table.empty
  writes : s.writes = []
  created : s.created = []

/-- The ceremony, with any number of calls under way. -/
def ceremony : Machine (Shared (PairingStore Sig) (Op Key Sig) (Except Raised (Returned Sig)))
    (Schedule (Op Key Sig)) :=
  interleaving PairingStore.Fresh (Op.code C)

end

/-! ## What one transaction can do -/

/-- A step of the lifecycle.  An accepted invite expires when `commit_pairing` comes
too late. -/
inductive Moves : InviteState → InviteState → Prop where
  | accept : Moves .issued .accepted
  | commit : Moves .accepted .committed
  | expire : Moves .issued .expired
  | expireAccepted : Moves .accepted .expired
  | cancel : Moves .issued .canceled
  | cancelAccepted : Moves .accepted .canceled

section effects

variable {Key Sig : Type}

/-- The fingerprints of a verification record. -/
def Verification.fingerprints (row : Verification Sig) : CardFingerprint Sig × CardFingerprint Sig :=
  (row.inviter_card_fingerprint, row.acceptor_card_fingerprint)

/-- The writes of the verification record of an invite, the newest first. -/
def PairingStore.history (s : PairingStore Sig) (invite_id : InviteId) : List (VerificationWrite Sig) :=
  (s.writes.filter (·.1 = invite_id)).map Prod.snd

/-- The newest writes of a record approved it for `fingerprints`: a confirmation right
after the display of the same, or a `record_verification`. -/
inductive Approved (fingerprints : CardFingerprint Sig × CardFingerprint Sig) :
    List (VerificationWrite Sig) → Prop where
  | confirmed (older : List (VerificationWrite Sig)) :
    Approved fingerprints (.confirmed fingerprints :: .displayed fingerprints :: older)
  | recorded (older : List (VerificationWrite Sig)) : Approved fingerprints (.recorded fingerprints :: older)

/-- The writes behind a record: those that approved it, or the display it came from. -/
def Verification.WrittenBy (row : Verification Sig) (history : List (VerificationWrite Sig)) : Prop :=
  if row.human_approved then Approved row.fingerprints history
  else ∃ older, history = .displayed row.fingerprints :: older

/-- The record of an invite, if there is one, is what its writes left. -/
def Witnessed (s : PairingStore Sig) (invite_id : InviteId) : Prop :=
  ∀ row, s.pairing_verifications.find invite_id = some row → row.WrittenBy (s.history invite_id)

/-- A relationship row that answers an invite: the acceptance behind it carries the
cards of an approved record. -/
structure Answers (s : PairingStore Sig) (invite_id : InviteId) (row : Relationship) : Prop where
  live : s.stateOf invite_id = some .issued ∨ s.stateOf invite_id = some .accepted
  bound : ∃ (invite : Invite Sig) (acceptance : Acceptance Sig) (record : Verification Sig),
    s.invite_bodies.find invite_id = some invite ∧ acceptance.invite_id = invite_id ∧
      acceptance.invite_hash = inviteHash invite ∧
      row.peer_identity_id = acceptance.acceptor_card.identity_id ∧
      row.peer_agreement_key = acceptance.relationship_agreement_key ∧
      s.pairing_verifications.find invite_id = some record ∧ record.human_approved = true ∧
      record.fingerprints = (cardFingerprint invite.inviter_card, cardFingerprint acceptance.acceptor_card)

/-- What one transaction can do; `lapse` when it may expire an invite in any state. -/
structure Effect (lapse : Prop) (s s' : PairingStore Sig) : Prop where
  moves : ∀ id st, s.stateOf id = some st → ∃ st', s'.stateOf id = some st' ∧
    (Relation.ReflTransGen Moves st st' ∨ (lapse ∧ (st = .committed ∨ st = .canceled) ∧ st' = .expired))
  issues : ∀ id, s.stateOf id = none → s'.stateOf id = none ∨ s'.stateOf id = some .issued
  records : ∀ id, Witnessed s id → Witnessed s' id
  creates : (s'.relationships = s.relationships ∧ s'.created = s.created) ∨
    ∃ id row, s.relationships.insert row = some s'.relationships ∧
      s'.created = (id, row.relationship_id) :: s.created ∧ s'.stateOf id = some .committed ∧ Answers s id row

variable {lapse : Prop} {s s' : PairingStore Sig}

theorem Witnessed.congr {id : InviteId}
    (hrecords : s'.pairing_verifications.find id = s.pairing_verifications.find id)
    (hhistory : s'.history id = s.history id) (h : Witnessed s id) : Witnessed s' id := by
  intro row hrow
  rw [hhistory]
  exact h row (hrecords ▸ hrow)

theorem history_cons {id : InviteId} {write : VerificationWrite Sig}
    (hwrites : s'.writes = (id, write) :: s.writes) (id' : InviteId) :
    s'.history id' = if id' = id then write :: s.history id' else s.history id' := by
  unfold PairingStore.history
  rw [hwrites]
  by_cases hid : id' = id
  · simp [hid]
  · simp [hid, Ne.symm hid]

/-- A transaction that leaves the invites, the records and the relationships. -/
theorem Effect.quiet (hinvites : s'.invites = s.invites)
    (hrecords : s'.pairing_verifications = s.pairing_verifications) (hwrites : s'.writes = s.writes)
    (hrelationships : s'.relationships = s.relationships) (hcreated : s'.created = s.created) :
    Effect lapse s s' := by
  have hstate : ∀ id, s'.stateOf id = s.stateOf id := fun id => by rw [PairingStore.stateOf, hinvites]; rfl
  exact
    { moves := fun id st h => ⟨st, (hstate id).trans h, Or.inl .refl⟩
      issues := fun id h => Or.inl ((hstate id).trans h)
      records := fun id h =>
        h.congr (by rw [hrecords]) (by rw [PairingStore.history, hwrites, PairingStore.history])
      creates := Or.inl ⟨hrelationships, hcreated⟩ }

theorem Effect.refl : Effect lapse s s := .quiet rfl rfl rfl rfl rfl

theorem stateOf_setState (id id' : InviteId) (st : InviteState) :
    (setState id st s).stateOf id' = if id' = id then (s.stateOf id).map (fun _ => st) else s.stateOf id' := by
  show ((s.invites.modify id (fun r => { r with state := st }) (fun _ => rfl)).find id').map (·.state) = _
  rw [Table.find_modify]
  split_ifs with hid
  · show ((s.invites.find id).map _).map _ = ((s.invites.find id).map _).map _
    rw [Option.map_map, Option.map_map]
    rfl
  · rfl

theorem Effect.setState {id : InviteId} {st' : InviteState}
    (hmove : ∀ st, s.stateOf id = some st →
      Relation.ReflTransGen Moves st st' ∨ (lapse ∧ (st = .committed ∨ st = .canceled) ∧ st' = .expired)) :
    Effect lapse s (setState id st' s) where
  moves id' st hst := by
    rw [stateOf_setState]
    split_ifs with hid
    · subst hid
      exact ⟨st', by rw [hst]; rfl, hmove st hst⟩
    · exact ⟨st, hst, Or.inl .refl⟩
  issues id' hnone := by
    left
    rw [stateOf_setState]
    split_ifs with hid
    · rw [← hid, hnone]
      rfl
    · exact hnone
  records _ h := h
  creates := Or.inl ⟨rfl, rfl⟩

theorem Effect.record {id : InviteId} {write : VerificationWrite Sig} (hinvites : s'.invites = s.invites)
    (hframe : ∀ id', id' ≠ id → s'.pairing_verifications.find id' = s.pairing_verifications.find id')
    (hwrites : s'.writes = (id, write) :: s.writes)
    (hwritten : Witnessed s id → ∀ row, s'.pairing_verifications.find id = some row →
      row.WrittenBy (write :: s.history id))
    (hrelationships : s'.relationships = s.relationships) (hcreated : s'.created = s.created) :
    Effect lapse s s' := by
  have hstate : ∀ id, s'.stateOf id = s.stateOf id := fun id => by rw [PairingStore.stateOf, hinvites]; rfl
  refine
    { moves := fun id st h => ⟨st, (hstate id).trans h, Or.inl .refl⟩
      issues := fun id h => Or.inl ((hstate id).trans h)
      records := fun id' hs => ?_
      creates := Or.inl ⟨hrelationships, hcreated⟩ }
  by_cases hid : id' = id
  · subst hid
    intro row hrow
    rw [history_cons hwrites, if_pos rfl]
    exact hwritten hs row hrow
  · exact hs.congr (hframe id' hid) (by rw [history_cons hwrites, if_neg hid])

theorem Effect.store {row : Verification Sig} {write : VerificationWrite Sig} (hinvites : s'.invites = s.invites)
    (hrecords : s'.pairing_verifications = s.pairing_verifications.upsert row)
    (hwrites : s'.writes = (row.invite_id, write) :: s.writes) (hwritten : ∀ older, row.WrittenBy (write :: older))
    (hrelationships : s'.relationships = s.relationships) (hcreated : s'.created = s.created) :
    Effect lapse s s' := by
  refine .record hinvites (fun id' hid => ?_) hwrites (fun _ row' hrow' => ?_) hrelationships hcreated
  · rw [hrecords, Table.find_upsert, if_neg hid]
  · rw [hrecords, Table.find_upsert, if_pos rfl] at hrow'
    obtain rfl := Option.some.inj hrow'
    exact hwritten _

end effects

/-! ## The transactions -/

section transactions

variable {Key Sig : Type} (C : Scheme Key Sig) {lapse : Prop}

theorem insertInvite_effect (invite : Invite Sig) (s : PairingStore Sig) :
    Effect lapse s (insertInvite invite s).1 := by
  unfold insertInvite
  split
  · rename_i invites bodies hinvites hbodies
    have hfind := Table.find_of_insert hinvites
    have hstate : ∀ id, (invites.find id).map (·.state) =
        if id = invite.invite_id then some .issued else s.stateOf id := by
      intro id
      rw [hfind]
      split_ifs <;> rfl
    exact
      { moves := fun id st h => by
          refine ⟨st, ?_, Or.inl .refl⟩
          show (invites.find id).map (·.state) = some st
          rw [hstate, if_neg ?_, h]
          rintro rfl
          have hnone : s.stateOf invite.invite_id = none := by
            rw [PairingStore.stateOf, (Table.insert_eq_some hinvites).1]
            rfl
          exact absurd (hnone.symm.trans h) (by simp)
        issues := fun id h => by
          show (invites.find id).map (·.state) = none ∨ (invites.find id).map (·.state) = some .issued
          rw [hstate]
          split_ifs
          · exact Or.inr rfl
          · exact Or.inl h
        records := fun _ h => h
        creates := Or.inl ⟨rfl, rfl⟩ }
  · exact .refl

theorem expireIssued_effect (id : InviteId) (s : PairingStore Sig) : Effect lapse s (expireIssued id s) := by
  unfold expireIssued
  split_ifs with hissued
  · refine .setState (fun st hst => Or.inl ?_)
    obtain rfl := Option.some.inj (hissued.symm.trans hst)
    exact .single .expire
  · exact .refl

theorem requireIssued_effect (id : InviteId) (s : PairingStore Sig) : Effect lapse s (requireIssued id s).1 := by
  unfold requireIssued
  split <;> exact .refl

theorem claimInvite_effect (id : InviteId) (s : PairingStore Sig) : Effect lapse s (claimInvite id s).1 := by
  unfold claimInvite
  split_ifs with hissued
  · refine .setState (fun st hst => Or.inl ?_)
    obtain rfl := Option.some.inj (hissued.symm.trans hst)
    exact .single .accept
  · exact .refl

theorem burnInvite_effect (id : InviteId) (s : PairingStore Sig) : Effect lapse s (burnInvite id s).1 := by
  unfold burnInvite
  split
  · exact .refl
  · rename_i previous hstate
    dsimp only
    split_ifs with hlive
    · refine .setState (fun st hst => Or.inl ?_)
      obtain rfl := Option.some.inj (hstate.symm.trans hst)
      obtain rfl | rfl := hlive
      · exact .single .cancel
      · exact .single .cancelAccepted
    · exact .refl

theorem setExpired_effect (id : InviteId) (s : PairingStore Sig) : Effect True s (setState id .expired s) := by
  refine .setState (fun st _ => ?_)
  cases st with
  | issued => exact Or.inl (.single .expire)
  | accepted => exact Or.inl (.single .expireAccepted)
  | committed => exact Or.inr ⟨trivial, Or.inl rfl, rfl⟩
  | expired => exact Or.inl .refl
  | canceled => exact Or.inr ⟨trivial, Or.inr rfl, rfl⟩

theorem displayPhrase_effect (id : InviteId) (fps : CardFingerprint Sig × CardFingerprint Sig) (now : Nat)
    (s : PairingStore Sig) : Effect lapse s (displayPhrase id fps now s).1 := by
  unfold displayPhrase
  split
  · exact .refl
  · split_ifs
    · exact .refl
    · exact .store rfl rfl rfl (fun older => ⟨older, rfl⟩) rfl rfl

theorem live_of_commitState {call : CommitCall Key Sig} {invite : Invite Sig} {state : InviteState}
    (h : commitState C call invite state = .ok ()) : state = .issued ∨ state = .accepted := by
  unfold commitState at h
  split_ifs at h
  · split at h
    · exact absurd h (by simp)
    · left
      simpa using demand_ok.mp h
  · right
    have hall := demand_ok.mp h
    simpa using hall _ List.mem_cons_self

variable [DecidableEq Sig]

theorem insertVerification_effect (id : InviteId) (fps : CardFingerprint Sig × CardFingerprint Sig)
    (approved : Bool) (now : Nat) (s : PairingStore Sig) :
    Effect lapse s (insertVerification id fps approved now s).1 := by
  unfold insertVerification
  split
  · exact .refl
  · split
    · exact .refl
    · split_ifs
      · exact .refl
      · exact .store rfl rfl rfl (fun older => .recorded older) rfl rfl

theorem approvePhrase_effect (id : InviteId) (fps : CardFingerprint Sig × CardFingerprint Sig) (now : Nat)
    (s : PairingStore Sig) : Effect lapse s (approvePhrase id fps now s).1 := by
  unfold approvePhrase
  split
  · exact .refl
  · rename_i row hrow
    split_ifs with hdiffer happroved
    · exact .refl
    · exact .refl
    · have hfps : row.fingerprints = fps := by
        rw [not_or, not_not, not_not] at hdiffer
        exact Prod.ext hdiffer.1 hdiffer.2
      refine .record rfl (fun id' hid => ?_) rfl (fun hs row' hrow' => ?_) rfl rfl
      · rw [Table.find_modify, if_neg hid]
      · -- An unapproved record was displayed last, with the fingerprints it still has.
        obtain ⟨older, hshown⟩ : ∃ older, s.history id = .displayed row.fingerprints :: older := by
          simpa [Verification.WrittenBy, happroved] using hs row hrow
        rw [Table.find_modify, if_pos rfl, hrow] at hrow'
        obtain rfl := Option.some.inj hrow'
        rw [hshown, ← hfps]
        exact .confirmed older

theorem insertPairing_effect {call : CommitCall Key Sig} {negotiated : List String} {invite : Invite Sig}
    {state : InviteState} {registered : Bool} {s s' : PairingStore Sig}
    (hinvite : s.invite_bodies.find call.acceptance.invite_id = some invite)
    (hstate : s.stateOf call.acceptance.invite_id = some state) (hok : commitState C call invite state = .ok ())
    (hchecks : demand (commitChecks C call negotiated invite
      (s.pairing_verifications.find call.acceptance.invite_id) registered) = .ok ())
    (hinsert : insertPairing call invite s = some s') : Effect lapse s s' := by
  have hlive := live_of_commitState C hok
  unfold insertPairing at hinsert
  split at hinsert
  · rename_i relationships epochs registry hrel _ _
    obtain rfl := Option.some.inj hinsert
    have hcommitted : Effect lapse s (setState call.acceptance.invite_id .committed s) := by
      refine .setState (fun st hst => Or.inl ?_)
      obtain rfl := Option.some.inj (hstate.symm.trans hst)
      obtain rfl | rfl := hlive
      · exact .tail (.single .accept) .commit
      · exact .single .commit
    refine
      { moves := hcommitted.moves, issues := hcommitted.issues, records := hcommitted.records
        creates := Or.inr ⟨call.acceptance.invite_id, _, hrel, rfl, ?_, ?_, ?_⟩ }
    · show (setState call.acceptance.invite_id .committed s).stateOf _ = _
      rw [stateOf_setState, if_pos rfl, hstate]
      rfl
    · rw [hstate, Option.some.injEq, Option.some.injEq]
      exact hlive
    · have hall := demand_ok.mp hchecks
      simp only [commitChecks, List.forall_mem_cons, decide_eq_true_eq, Option.any_eq_true] at hall
      obtain ⟨hhash, ⟨record, hrecord, happroved⟩, ⟨r₁, h₁, hacceptor⟩, ⟨r₂, h₂, hinviter⟩, -⟩ := hall
      obtain rfl := Option.some.inj (hrecord.symm.trans h₁)
      obtain rfl := Option.some.inj (hrecord.symm.trans h₂)
      exact ⟨invite, call.acceptance, record, hinvite, rfl, hhash, rfl, rfl, hrecord, happroved,
        Prod.ext hinviter hacceptor⟩
  · exact absurd hinsert (by simp)

/-- `_commit_txn` takes an open invite with an approved record. -/
theorem commitTxn_effect (call : CommitCall Key Sig) (negotiated : List String) (s : PairingStore Sig) :
    Effect lapse s (commitTxn C call negotiated s).1 := by
  unfold commitTxn
  split_ifs
  · exact .refl
  split
  · rename_i invite state hinvite hstate
    split
    · exact .refl
    · rename_i hok
      split
      · exact .refl
      · rename_i hchecks
        split
        · rename_i s' hinsert
          exact insertPairing_effect C hinvite hstate hok hchecks hinsert
        · exact .refl
  · exact .refl

end transactions

/-! ## The methods -/

section methods

variable {Key Sig : Type} (C : Scheme Key Sig) {lapse : Prop}

theorem createInvite_every (call : InviteCall Key Sig) : (createInvite C call).Every (Effect lapse) := by
  unfold createInvite
  split
  · trivial
  · exact Process.every_atomic (insertInvite_effect _) (fun _ => trivial)

theorem previewThen_every (invite : Invite Sig) (now : Nat) {rest : Method Sig}
    (hrest : rest.Every (Effect lapse)) : (previewThen C invite now rest).Every (Effect lapse) := by
  unfold previewThen
  split
  · exact fun s => ⟨expireIssued_effect _ s, trivial⟩
  · trivial
  · refine Process.every_atomic (requireIssued_effect _) (fun result => ?_)
    cases result with
    | error raised => trivial
    | ok _ => exact hrest

theorem createAcceptance_every (call : AcceptCall Key Sig) :
    (createAcceptance C call).Every (Effect lapse) := by
  unfold createAcceptance
  split
  · trivial
  · exact fun s => ⟨.quiet rfl rfl rfl rfl rfl, trivial⟩

theorem storePairingKey_effect (call : CommitCall Key Sig) (s : PairingStore Sig) :
    Effect lapse s (storePairingKey call s).1 := by
  unfold storePairingKey
  split
  · exact .quiet rfl rfl rfl rfl rfl
  · exact .refl

theorem deletePairingKey_effect (call : CommitCall Key Sig) (s : PairingStore Sig) :
    Effect lapse s (deletePairingKey call s).1 := by
  unfold deletePairingKey
  split_ifs
  · exact .quiet rfl rfl rfl rfl rfl
  · exact .refl

theorem destroyPairingKey_every (call : CommitCall Key Sig) (raised : Raised) :
    (destroyPairingKey call raised).Every (Effect lapse) := by
  refine Process.every_atomic (deletePairingKey_effect call) (fun _ => ?_)
  trivial

variable [DecidableEq Sig]

theorem recordVerification_every (id : InviteId) (fps : CardFingerprint Sig × CardFingerprint Sig)
    (approved : Bool) (now : Nat) : (recordVerification id fps approved now).Every (Effect lapse) := by
  refine Process.every_atomic (insertVerification_effect id fps approved now) (fun result => ?_)
  match result with
  | .error raised => trivial
  | .ok none => trivial
  | .ok (some code) =>
    refine Process.every_atomic (burnInvite_effect id) (fun burned => ?_)
    cases burned <;> trivial

theorem commitStored_every (call : CommitCall Key Sig) (negotiated : List String) :
    (commitStored C call negotiated).Every (Effect True) := by
  refine Process.every_atomic (commitTxn_effect C call negotiated) (fun result => ?_)
  split
  · trivial
  · refine Process.every_atomic (burnInvite_effect _) (fun burned => ?_)
    cases burned with
    | error raised => exact destroyPairingKey_every call _
    | ok _ => exact destroyPairingKey_every call _
  · exact fun s => ⟨setExpired_effect _ s, destroyPairingKey_every call _⟩
  · exact destroyPairingKey_every call _

theorem commitPairing_every (call : CommitCall Key Sig) : (commitPairing C call).Every (Effect True) := by
  unfold commitPairing
  split
  · trivial
  · trivial
  · refine Process.every_atomic (storePairingKey_effect call) (fun stored => ?_)
    cases stored with
    | ok _ => exact commitStored_every C call _
    | error _ =>
      refine Process.every_atomic (fun _ => .refl) (fun owned => ?_)
      cases owned with
      | true => trivial
      | false =>
        refine Process.every_atomic (deletePairingKey_effect call) (fun gone => ?_)
        cases gone with
        | false => trivial
        | true =>
          refine Process.every_atomic (storePairingKey_effect call) (fun again => ?_)
          cases again with
          | ok _ => exact commitStored_every C call _
          | error _ => trivial

/-- Each transaction of a call has one effect, and only `commit_pairing` may expire an
invite in any state. -/
theorem code_every (op : Op Key Sig) : (op.code C).Every (Effect (op.commits = true)) := by
  cases op with
  | createInvite call => exact createInvite_every C call
  | previewInvite invite now => exact previewThen_every C invite now trivial
  | validateInvite invite now =>
    exact previewThen_every C invite now (Process.every_atomic (claimInvite_effect _) (fun _ => trivial))
  | createAcceptance call => exact createAcceptance_every C call
  | recordDisplayedPhrase id fps now =>
    exact fun s => ⟨displayPhrase_effect id fps now s, trivial⟩
  | confirmVerification id fps now =>
    exact fun s => ⟨approvePhrase_effect id fps now s, trivial⟩
  | recordVerification id fps approved now => exact recordVerification_every id fps approved now
  | burnInvite id =>
    exact fun s => ⟨burnInvite_effect id s, trivial⟩
  | commitPairing call =>
    have htrue : ((Op.commitPairing call : Op Key Sig).commits = true) = True := eq_self true
    rw [htrue]
    exact commitPairing_every C call

end methods

/-! ## Every run -/

theorem moves_committed {st : InviteState} (h : Relation.ReflTransGen Moves .committed st) : st = .committed := by
  obtain rfl | ⟨st', hmove, -⟩ := h.cases_head
  · rfl
  · cases hmove

theorem moves_expired {st : InviteState} (h : Relation.ReflTransGen Moves .expired st) : st = .expired := by
  obtain rfl | ⟨st', hmove, -⟩ := h.cases_head
  · rfl
  · cases hmove

section runs

variable {Key Sig : Type} [DecidableEq Sig] (C : Scheme Key Sig)

/-- What holds in every run: each record is what its writes left, and an invite that
yielded a relationship row is spent. -/
structure Kept (s : PairingStore Sig) : Prop where
  witnessed : ∀ id, Witnessed s id
  once : ∀ id, s.created.countP (fun c => c.1 = id) ≤ 1
  spent : ∀ id, 0 < s.created.countP (fun c => c.1 = id) →
    s.stateOf id = some .committed ∨ s.stateOf id = some .expired

omit [DecidableEq Sig] in
theorem PairingStore.Fresh.kept {s : PairingStore Sig} (h : s.Fresh) : Kept s where
  witnessed id row hrow := by
    rw [h.verifications] at hrow
    exact absurd hrow (by simp)
  once id := by simp [h.created]
  spent id hpos := by simp [h.created] at hpos

omit [DecidableEq Sig] in
theorem Effect.kept {lapse : Prop} {s s' : PairingStore Sig} (h : Effect lapse s s') (hs : Kept s) : Kept s' := by
  have hspent : ∀ id, 0 < s.created.countP (fun c => c.1 = id) →
      s'.stateOf id = some .committed ∨ s'.stateOf id = some .expired := by
    intro id hpos
    obtain hst | hst := hs.spent id hpos
    · obtain ⟨st', hst', hmove | ⟨-, -, rfl⟩⟩ := h.moves id _ hst
      · exact Or.inl (moves_committed hmove ▸ hst')
      · exact Or.inr hst'
    · obtain ⟨st', hst', hmove | ⟨-, hterminal, -⟩⟩ := h.moves id _ hst
      · exact Or.inr (moves_expired hmove ▸ hst')
      · simp at hterminal
  have hwitnessed : ∀ id, Witnessed s' id := fun id => h.records id (hs.witnessed id)
  obtain ⟨-, hcreated⟩ | ⟨id, row, -, hcreated, hcommitted, hanswers⟩ := h.creates
  · exact
      { witnessed := hwitnessed
        once := by rw [hcreated]; exact hs.once
        spent := by rw [hcreated]; exact hspent }
  · -- The invite was open, so it had yielded no row before.
    have hzero : s.created.countP (fun c => c.1 = id) = 0 := by
      by_contra hne
      obtain hlive | hlive := hanswers.live <;>
        obtain hst | hst := hs.spent id (Nat.pos_of_ne_zero hne) <;>
        exact absurd (hlive.symm.trans hst) (by simp)
    refine { witnessed := hwitnessed, once := fun id' => ?_, spent := fun id' hpos => ?_ }
    · rw [hcreated, List.countP_cons]
      by_cases hid : id = id'
      · subst hid
        simp [hzero]
      · simpa [hid] using hs.once id'
    · by_cases hid : id = id'
      · subst hid
        exact Or.inl hcommitted
      · rw [hcreated, List.countP_cons] at hpos
        exact hspent id' (by simpa [hid] using hpos)

theorem kept_of_reachable {S : Shared (PairingStore Sig) (Op Key Sig) (Except Raised (Returned Sig))}
    (h : (ceremony C).Reachable S) : Kept S.state :=
  interleaving_invariant (fun _ hs => hs.kept) (code_every C) (fun _ _ _ heffect hs => heffect.kept hs) h

/-- In every interleaving of calls, an invite moves only along its lifecycle, apart
from the update of a late `commit_pairing` on a committed or canceled invite.  It
yields at most one relationship row.  That row carries the cards of a record that a
human approved: they were displayed and then confirmed, or `record_verification`
approved them. -/
theorem invite_lifecycle {S S' : Shared (PairingStore Sig) (Op Key Sig) (Except Raised (Returned Sig))}
    {a : Schedule (Op Key Sig)} (h : (ceremony C).Reachable S) (hstep : (ceremony C).step S a = some S') :
    (∀ id st, S.state.stateOf id = some st → ∃ st', S'.state.stateOf id = some st' ∧
      (Relation.ReflTransGen Moves st st' ∨
        ((∃ i call, a = .resume i ∧ S.threads[i]?.map Prod.fst = some (.commitPairing call)) ∧
          (st = .committed ∨ st = .canceled) ∧ st' = .expired))) ∧
    (∀ id, S.state.stateOf id = none → S'.state.stateOf id = none ∨ S'.state.stateOf id = some .issued) ∧
    (∀ id, S'.state.created.countP (fun c => c.1 = id) ≤ 1) ∧
    ((S'.state.relationships = S.state.relationships ∧ S'.state.created = S.state.created) ∨
      ∃ id row, S.state.relationships.insert row = some S'.state.relationships ∧
        S'.state.created = (id, row.relationship_id) :: S.state.created ∧ Answers S.state id row ∧
        ∃ record, S.state.pairing_verifications.find id = some record ∧ record.human_approved = true ∧
          Approved record.fingerprints (S.state.history id)) := by
  have hkept := kept_of_reachable C h
  have hkept' : Kept S'.state := kept_of_reachable C (.next h trivial hstep)
  obtain hsame | ⟨i, op, ha, hop, heffect⟩ := interleaving_step (code_every C) h hstep
  · rw [hsame]
    exact ⟨fun id st hst => ⟨st, hst, Or.inl .refl⟩, fun id hnone => Or.inl hnone, hkept.once, Or.inl ⟨rfl, rfl⟩⟩
  · refine ⟨fun id st hst => ?_, heffect.issues, hkept'.once, ?_⟩
    · obtain ⟨st', hst', hmove | ⟨hcommits, hterminal, hexpired⟩⟩ := heffect.moves id st hst
      · exact ⟨st', hst', Or.inl hmove⟩
      · refine ⟨st', hst', Or.inr ⟨⟨i, ?_⟩, hterminal, hexpired⟩⟩
        cases op with
        | commitPairing call => exact ⟨call, ha, hop⟩
        | _ => exact absurd hcommits (by simp [Op.commits])
    · refine heffect.creates.imp_right (fun hcreates => ?_)
      obtain ⟨id, row, hinsert, hcreated, -, hanswers⟩ := hcreates
      obtain ⟨_, _, record, -, -, -, -, -, hrecord, happroved, -⟩ := hanswers.bound
      have hwritten := hkept.witnessed id record hrecord
      rw [Verification.WrittenBy, if_pos happroved] at hwritten
      exact ⟨id, row, hinsert, hcreated, hanswers, record, hrecord, happroved, hwritten⟩

end runs

/-! ## Runs outside the documented lifecycle -/

/-- A scheme in which a signature names its signer. -/
def namedScheme : Scheme Nat Nat where
  identity key := key
  sign key _ := key
  verify id _ sig := id = sig

/-- A card of the identity `id`. -/
def sampleCard (id : IdentityId) : Card Nat :=
  { card_version := 1, identity_id := id, display_name := "Agent", principal_label := "operator"
    bootstrap_agreement_key := ⟨⟨id⟩⟩, capabilities := ["events/0.2"], issued_at := 0, expires_at := 9000
    card_nonce := 0, signature := id }

/-- An invite of the identity 1, issued at 100. -/
def sampleInviteCall : InviteCall Nat Nat :=
  { inviter_card := sampleCard 1, inviter_priv := 1, ephemeral_priv := ⟨10⟩
    requested_capabilities := ["events/0.2"], requested_policy := ⟨some true⟩, now := 100, invite_id := 7 }

/-- The invite of `sampleInviteCall`. -/
def sampleInvite : Invite Nat :=
  { invite_version := 1, invite_id := 7, inviter_card := sampleCard 1, ephemeral_agreement_key := ⟨⟨10⟩⟩
    requested_capabilities := ["events/0.2"], requested_policy := ⟨some true⟩, issued_at := 100
    expires_at := 1000, signature := 1 }

/-- An acceptance of `sampleInvite` by the identity 2. -/
def sampleAcceptance : Acceptance Nat :=
  { acceptance_version := 1, invite_id := 7, invite_hash := inviteHash sampleInvite
    acceptor_card := sampleCard 2, relationship_agreement_key := ⟨⟨20⟩⟩
    deploy_public_key := "ssh-ed25519 AAAA", accepted_at := 200, signature := 2 }

/-- A commit of `sampleAcceptance`. -/
def sampleCommitCall (now : Nat) (claim_invite : Bool) : CommitCall Nat Nat :=
  { acceptance := sampleAcceptance, inviter_priv := 1, relay_url := "https://relay.example/r"
    slots := ⟨"a", "b"⟩, negotiated_capabilities := ["events/0.2"], now := now, relationship_id := 5
    claim_invite := claim_invite, rel_priv := ⟨30⟩ }

/-- Create and validate the invite and record a verification of its cards. -/
def acceptedRun : List (Schedule (Op Nat Nat)) :=
  [.call (.createInvite sampleInviteCall), .resume 0,
    .call (.validateInvite sampleInvite 300), .resume 1, .resume 1,
    .call (.recordVerification 7 (cardFingerprint (sampleCard 1), cardFingerprint (sampleCard 2)) true 400),
    .resume 2]

/-- A relationship row that no displayed phrase stands behind, and an accepted invite
that expires. -/
theorem recorded_without_display :
    (∃ S, (ceremony namedScheme).Reachable S ∧
      S.state.writes = [(7, .recorded (cardFingerprint (sampleCard 1), cardFingerprint (sampleCard 2)))] ∧
      (7, 5) ∈ S.state.created ∧
      (S.state.relationships.find 5).isSome = true) ∧
    (∃ S S', (ceremony namedScheme).Reachable S ∧ (ceremony namedScheme).step S (.resume 3) = some S' ∧
      S.state.stateOf 7 = some .accepted ∧ S'.state.stateOf 7 = some .expired) := by
  have hstart : (ceremony namedScheme).init { state := {} } := ⟨⟨rfl, rfl, rfl, rfl⟩, rfl⟩
  constructor
  · have hrun : ((ceremony namedScheme).run { state := {} }
        (acceptedRun ++ [.call (.commitPairing (sampleCommitCall 500 false)), .resume 3, .resume 3])).map
          (fun S => (S.state.writes, S.state.created, (S.state.relationships.find 5).isSome)) =
        some ([(7, .recorded (cardFingerprint (sampleCard 1), cardFingerprint (sampleCard 2)))], [(7, 5)],
          true) := by decide +kernel
    obtain ⟨S, hS, hvalue⟩ := Option.map_eq_some_iff.mp hrun
    simp only [Prod.mk.injEq] at hvalue
    refine ⟨S, Machine.reachable_of_run hstart hS, hvalue.1, ?_, hvalue.2.2⟩
    rw [hvalue.2.1]
    exact List.mem_singleton_self _
  · have hrun : ((ceremony namedScheme).run { state := {} }
        (acceptedRun ++ [.call (.commitPairing (sampleCommitCall 1000 false)), .resume 3, .resume 3])).bind
          (fun S => ((ceremony namedScheme).step S (.resume 3)).map
            (fun S' => (S.state.stateOf 7, S'.state.stateOf 7))) =
        some (some .accepted, some .expired) := by decide +kernel
    obtain ⟨S, hS, hrest⟩ := Option.bind_eq_some_iff.mp hrun
    obtain ⟨S', hS', hvalue⟩ := Option.map_eq_some_iff.mp hrest
    simp only [Prod.mk.injEq] at hvalue
    exact ⟨S, S', Machine.reachable_of_run hstart hS, hS', hvalue.1, hvalue.2⟩

/-- Create the invite, display and confirm the phrase, and begin the commit. -/
def confirmedRun : List (Schedule (Op Nat Nat)) :=
  [.call (.createInvite sampleInviteCall), .resume 0,
    .call (.recordDisplayedPhrase 7 (cardFingerprint (sampleCard 1), cardFingerprint (sampleCard 2)) 300), .resume 1,
    .call (.confirmVerification 7 (cardFingerprint (sampleCard 1), cardFingerprint (sampleCard 2)) 400), .resume 2,
    .call (.commitPairing (sampleCommitCall 500 true)), .resume 3]

/-- The commit of an invite whose phrase was displayed and confirmed. -/
theorem invite_lifecycle_confirmed :
    ∃ S S', (ceremony namedScheme).Reachable S ∧ (ceremony namedScheme).step S (.resume 3) = some S' ∧
      S'.state.created = [(7, 5)] ∧ (∀ id, S'.state.created.countP (fun c => c.1 = id) ≤ 1) ∧
      ∃ record, S.state.pairing_verifications.find 7 = some record ∧ record.human_approved = true ∧
        Approved record.fingerprints (S.state.history 7) := by
  have hstart : (ceremony namedScheme).init { state := {} } := ⟨⟨rfl, rfl, rfl, rfl⟩, rfl⟩
  have hrun : ((ceremony namedScheme).run { state := {} } confirmedRun).bind
        (fun S => ((ceremony namedScheme).step S (.resume 3)).map
          (fun S' => (S.state.created, S'.state.created))) =
      some ([], [(7, 5)]) := by decide +kernel
  obtain ⟨S, hS, hrest⟩ := Option.bind_eq_some_iff.mp hrun
  obtain ⟨S', hS', hvalue⟩ := Option.map_eq_some_iff.mp hrest
  simp only [Prod.mk.injEq] at hvalue
  have hreach := Machine.reachable_of_run hstart hS
  obtain ⟨-, -, honce, hsame | ⟨id, row, -, hcreated, -, hrecord⟩⟩ := invite_lifecycle namedScheme hreach hS'
  · exact absurd (hvalue.2.symm.trans (hsame.2.trans hvalue.1)) (by simp)
  · rw [hvalue.1, hvalue.2] at hcreated
    obtain rfl : 7 = id := congrArg Prod.fst (List.cons.inj hcreated).1
    exact ⟨S, S', hreach, hS', hvalue.2, honce, hrecord⟩

end MuseAgentSocial.Invites
