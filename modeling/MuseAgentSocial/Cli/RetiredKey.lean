import MuseAgentSocial.Cli.Rotate
import MuseAgentSocial.Crypto.InFlight

/-!
# Sending while a rotation is committed

`_send_event` reads the relationship, the rotation in flight and the peer keys one
after the other, and persists the event in a later transaction.  Other processes
handle the confirm of the peer and run `mark_committed` in between.

* `Stage` is how far a sending process has come, and `sendRace` the machine.
* `no_send_to_retired_key`: the events persisted after the commit are wrapped to the
  new key, when each sender reads the rotation under the relationship that it read.
* `stale_relationship_sends_old_key`: the run in which one does not.
-/

namespace MuseAgentSocial.Cli

open Model Crypto RotationManager Keys

/-! ## The sending process -/

/-- The columns of the relationship row that the command read when it started. -/
structure RelRow where
  peer_identity_id : IdentityId
  key_epoch : Nat
  peer_agreement_key : Option AgreementKey
  deriving DecidableEq, Repr

/-- The relationship row of a side. -/
def relRow (s : Side) (peer_identity_id : IdentityId) : RelRow :=
  ⟨peer_identity_id, s.key_epoch, s.peer_agreement_key⟩

/-- The point that a sending process has reached. -/
inductive Stage where
  /-- The command read the relationship. -/
  | started (rel : RelRow)
  /-- `may_send` let it pass. -/
  | gated (rel : RelRow)
  /-- `dual_wrap_keys` read the rotation. -/
  | rotation (rel : RelRow) (r : Rotation)
  /-- `_peer_key_epochs` read the relationship again, for `dual_wrap_keys`. -/
  | peerKey (rel : RelRow) (r : Rotation) (key_epoch : Nat) (peer_agreement_key : Option AgreementKey)
  /-- `_recipients_for` returned. -/
  | chosen (recipients : List Wrap) (key_epoch : Nat)
  | ended
  deriving DecidableEq, Repr

/-- A sending process. -/
structure Sender where
  body : Body
  stage : Stage
  deriving DecidableEq, Repr

/-- A persisted event. -/
structure SentEvent where
  event_id : EventId
  body : Body
  recipients : List Wrap
  key_epoch : Nat
  /-- Ghost: no rotation of the peer was in flight any more. -/
  afterCommit : Bool
  deriving DecidableEq, Repr

/-- One installation with its sending processes. -/
structure Desk where
  side : Side
  me : IdentityId
  senders : List Sender := []
  sent : List SentEvent := []

/-- `dual_wrap_keys` after its first query. -/
def dualRotation (s : Side) : Option Rotation :=
  (s.inFlightAs .acking).filter (fun r => r.phase = .acknowledged ∨ r.phase = .confirmed)

/-- The recipients of `_recipients_for` without a rotation. -/
def singleRecipient (rel : RelRow) : Stage :=
  match rel.peer_agreement_key with
  | none => .ended
  | some key => .chosen [⟨rel.peer_identity_id, key⟩] rel.key_epoch

/-- The recipients of `_recipients_for` under a rotation, from the peer keys `k`. -/
def dualRecipients (rel : RelRow) (r : Rotation) (k : Keys) : Stage :=
  match k.peerKey r.prior_epoch, k.peerKey r.epoch with
  | some prior, some new =>
    .chosen [⟨rel.peer_identity_id, prior⟩, ⟨rel.peer_identity_id, new⟩] (max r.prior_epoch r.epoch)
  | _, _ => .ended

/-- The next query of a sending process. -/
def Stage.query (s : Side) (now : Nat) : Stage → Stage
  | .started rel =>
    match maySend s now with
    | .ok () => .gated rel
    | .error _ => .ended
  | .gated rel =>
    match dualRotation s with
    | none => singleRecipient rel
    | some r => .rotation rel r
  | .rotation rel r => .peerKey rel r s.key_epoch s.peer_agreement_key
  | .peerKey rel r key_epoch peer_agreement_key =>
    dualRecipients rel r { s.toKeys with key_epoch := key_epoch, peer_agreement_key := peer_agreement_key }
  | .chosen recipients key_epoch => .chosen recipients key_epoch
  | .ended => .ended

/-- An action on the installation. -/
inductive DeskAct where
  /-- A command starts a send and reads the relationship. -/
  | start (body : Body) (peer_identity_id : IdentityId)
  /-- A sender makes its next query. -/
  | query (i now : Nat)
  /-- A sender persists its event. -/
  | persist (i : Nat) (event_id : EventId) (now : Nat)
  /-- The confirm of the peer is handled. -/
  | onConfirm (epoch now : Nat)
  | markCommitted (now : Nat)
  deriving DecidableEq, Repr

/-- The transaction of a sender that has its recipients. -/
def Desk.persist (S : Desk) (i : Nat) (x : Sender) (recipients : List Wrap) (key_epoch : Nat)
    (event_id : EventId) (now : Nat) : Desk :=
  let ended := S.senders.set i { x with stage := .ended }
  -- The foreign key of the event row, and its primary key.
  match (S.side.key_epochs.find key_epoch).isSome,
      S.side.events.insert ⟨event_id, S.me, now, key_epoch, x.body⟩ with
  | true, some events =>
    { S with
      side := { S.side with events := events }, senders := ended
      sent := S.sent ++ [⟨event_id, x.body, recipients, key_epoch, (S.side.inFlightAs .acking).isNone⟩] }
  | _, _ => { S with senders := ended }

/-- One action. -/
def Desk.act (S : Desk) : DeskAct → Option Desk
  | .start body peer =>
    some { S with senders := S.senders ++ [⟨body, .started (relRow S.side peer)⟩] }
  | .query i now =>
    S.senders[i]?.map (fun x => { S with senders := S.senders.set i { x with stage := x.stage.query S.side now } })
  | .persist i event_id now =>
    match S.senders[i]? with
    | some ⟨body, .chosen recipients key_epoch⟩ =>
      some (S.persist i ⟨body, .chosen recipients key_epoch⟩ recipients key_epoch event_id now)
    | _ => none
  | .onConfirm epoch now => some { S with side := (RotationManager.onConfirm S.side epoch now).1 }
  | .markCommitted now => some { S with side := (RotationManager.markCommitted S.side now).1 }

/-! ## The rotation of the peer -/

/-- An acknowledged rotation of the peer into `key` is in flight under `epoch`. -/
structure AckInFlight (epoch : Nat) (key : AgreementKey) (s : Side) : Prop where
  row : ∃ r, s.rotation epoch .acking = some r ∧ r.new_public_key = key ∧
    (r.phase = .acknowledged ∨ r.phase = .confirmed)
  only : ∀ e r, s.rotation e .acking = some r → r.live = true → e = epoch
  peer : ∃ row, s.peerRow epoch = some row ∧ row.public_key = key

/-- The rotation is committed. -/
structure AckCommitted (epoch : Nat) (key : AgreementKey) (s : Side) : Prop where
  idle : s.inFlightAs .acking = none
  key_epoch : s.key_epoch = epoch
  peer_agreement_key : s.peer_agreement_key = some key
  peer : ∃ row, s.peerRow epoch = some row ∧ row.public_key = key

section window

variable {epoch : Nat} {key : AgreementKey} {s s' : Side}

theorem AckInFlight.inFlightAs (h : AckInFlight epoch key s) :
    ∃ r, s.inFlightAs .acking = some r ∧ r.epoch = epoch ∧ r.new_public_key = key ∧
      (r.phase = .acknowledged ∨ r.phase = .confirmed) := by
  obtain ⟨r, hr, hkey, hphase⟩ := h.row
  have hlive : r.live = true := by
    rw [Rotation.live_iff]
    obtain hp | hp := hphase <;> simp [hp]
  cases hflight : s.inFlightAs .acking with
  | none => exact absurd (inFlightAs_eq_none.mp hflight _ r hr) (by simp [hlive])
  | some r' =>
    obtain ⟨hr', hl'⟩ := rotation_of_inFlightAs hflight
    have hepoch := h.only _ r' hr' hl'
    rw [hepoch] at hr'
    obtain rfl := Option.some.inj (hr.symm.trans hr')
    exact ⟨r, rfl, hepoch, hkey, hphase⟩

theorem AckInFlight.dualRotation (h : AckInFlight epoch key s) :
    ∃ r, Cli.dualRotation s = some r ∧ r.epoch = epoch := by
  obtain ⟨r, hflight, hepoch, -, hphase⟩ := h.inFlightAs
  refine ⟨r, ?_, hepoch⟩
  unfold Cli.dualRotation
  rw [hflight, Option.filter_some, if_pos (by simpa using hphase)]

theorem AckInFlight.onConfirm (h : AckInFlight epoch key s) (e now : Nat) :
    AckInFlight epoch key (onConfirm s e now).1 := by
  have hevolves := onConfirm_evolves s e now
  obtain ⟨r, hr, hkey, hphase⟩ := h.row
  refine ⟨?_, ?_, ?_⟩
  · obtain ⟨r', hr', horigin, hmove⟩ := hevolves.forth _ _ r hr
    refine ⟨r', hr', (congrArg Origin.new_public_key horigin).trans hkey, ?_⟩
    obtain hsame | ⟨-, -, -, hconfirmed⟩ := hmove
    · rw [hsame]
      exact hphase
    · exact Or.inr hconfirmed
  · intro e' r' hr' hl'
    obtain ⟨r₀, hr₀, -, hmove⟩ := hevolves.back e' _ r' hr'
    rw [live_eq_of_move (keepsLive_onConfirmMove e) hmove] at hl'
    exact h.only e' r₀ hr₀ hl'
  · rw [peerRow_congr hevolves.key_epochs]
    exact h.peer

/-- `mark_committed` leaves the window open or closes it. -/
theorem AckInFlight.markCommitted (h : AckInFlight epoch key s) (now : Nat) :
    AckInFlight epoch key (markCommitted s now).1 ∨ AckCommitted epoch key (markCommitted s now).1 := by
  obtain hsame | ⟨r₀, r₁, hcommit, hpeer, hflight⟩ := markCommitted_cases s now
  · rw [hsame]
    exact Or.inl h
  · right
    obtain ⟨r, hflight', hepoch, hkey, -⟩ := h.inFlightAs
    obtain rfl := Option.some.inj (hflight.symm.trans hflight')
    refine ⟨inFlightAs_eq_none.mpr (fun e r hr => ?_), hcommit.key_epoch.trans hepoch, hkey ▸ hpeer, ?_⟩
    · rw [hcommit.rotation] at hr
      split_ifs at hr with hk
      · obtain rfl := Option.some.inj hr
        simp [Rotation.live, hcommit.committed]
      · by_contra hlive
        rw [Bool.not_eq_false] at hlive
        exact hk (Prod.ext ((h.only e r hr hlive).trans hepoch.symm) rfl)
    · rw [peerRow_congr hcommit.key_epochs]
      exact h.peer

theorem AckCommitted.onConfirm (h : AckCommitted epoch key s) (e now : Nat) :
    AckCommitted epoch key (onConfirm s e now).1 := by
  have hevolves := onConfirm_evolves s e now
  refine ⟨inFlightAs_eq_none.mpr (fun e' r' hr' => ?_), hevolves.key_epoch.trans h.key_epoch,
    hevolves.peer_agreement_key.trans h.peer_agreement_key, ?_⟩
  · obtain ⟨r₀, hr₀, -, hmove⟩ := hevolves.back e' _ r' hr'
    rw [live_eq_of_move (keepsLive_onConfirmMove e) hmove]
    exact inFlightAs_eq_none.mp h.idle e' r₀ hr₀
  · rw [peerRow_congr hevolves.key_epochs]
    exact h.peer

theorem AckCommitted.markCommitted (h : AckCommitted epoch key s) (now : Nat) :
    AckCommitted epoch key (markCommitted s now).1 := by
  obtain hsame | ⟨r₀, _, -, -, hflight⟩ := markCommitted_cases s now
  · rw [hsame]
    exact h
  · exact absurd (h.idle.symm.trans hflight) (by simp)

end window

/-! ## Every schedule -/

section race

variable {epoch : Nat} {key : AgreementKey}

/-- One of the wraps is for `key`. -/
def WrappedTo (key : AgreementKey) (recipients : List Wrap) : Prop := ∃ w ∈ recipients, w.agreement_key = key

/-- What a sender at a stage is bound to. -/
def Stage.Bound (epoch : Nat) (key : AgreementKey) : Stage → Prop
  | .rotation _ r => r.epoch = epoch
  | .peerKey _ r _ _ => r.epoch = epoch
  | .chosen recipients _ => WrappedTo key recipients
  | _ => True

/-- A sender reads the rotation in flight while the relationship row that it read is
still the current one. -/
def ReadsTogether (S : Desk) : DeskAct → Prop
  | .query i _ => ∀ body rel, S.senders[i]? = some ⟨body, .gated rel⟩ →
      rel.peer_agreement_key = S.side.peer_agreement_key
  | _ => True

instance (S : Desk) (a : DeskAct) : Decidable (ReadsTogether S a) := by
  cases a with
  | query i now =>
    match h : S.senders[i]? with
    | some ⟨body, .gated rel⟩ =>
      exact decidable_of_iff (rel.peer_agreement_key = S.side.peer_agreement_key)
        ⟨fun heq _ _ h' => by rw [h] at h'; cases h'; exact heq, fun hall => hall body rel h⟩
    | none => exact isTrue (fun _ _ h' => by rw [h] at h'; cases h')
    | some ⟨_, .started _⟩ => exact isTrue (fun _ _ h' => by rw [h] at h'; cases h')
    | some ⟨_, .rotation _ _⟩ => exact isTrue (fun _ _ h' => by rw [h] at h'; cases h')
    | some ⟨_, .peerKey _ _ _ _⟩ => exact isTrue (fun _ _ h' => by rw [h] at h'; cases h')
    | some ⟨_, .chosen _ _⟩ => exact isTrue (fun _ _ h' => by rw [h] at h'; cases h')
    | some ⟨_, .ended⟩ => exact isTrue (fun _ _ h' => by rw [h] at h'; cases h')
  | _ => exact isTrue trivial

/-- What holds in every run. -/
structure Sending (epoch : Nat) (key : AgreementKey) (S : Desk) : Prop where
  window : AckInFlight epoch key S.side ∨ AckCommitted epoch key S.side
  senders : ∀ x ∈ S.senders, x.stage.Bound epoch key
  sent : ∀ e ∈ S.sent, WrappedTo key e.recipients

theorem peerKey_of_peerRow {k : Keys} {e : Nat} {row : KeyRow} (h : k.peerRow e = some row) :
    k.peerKey e = some row.public_key := by
  have hepoch : row.epoch = e := Table.key_of_find (peerRow_eq_some.mp h).1
  have hmem : row ∈ k.peerRows := mem_peerRows.mpr (hepoch.symm ▸ h)
  -- The rows of the peer have one entry for each epoch.
  have hfind : k.peerRows.find? (fun r => decide (r.epoch = e)) = some row := by
    obtain ⟨r, hr⟩ := Option.isSome_iff_exists.mp
      (List.find?_isSome (p := fun r : KeyRow => decide (r.epoch = e)).mpr ⟨row, hmem, by simpa using hepoch⟩)
    have hr' : r.epoch = e := by simpa using List.find?_some hr
    have hrow := mem_peerRows.mp (List.mem_of_find?_eq_some hr)
    rw [hr', h] at hrow
    rw [hr, Option.some.inj hrow]
  have hrows : (k.peerRows.map (fun r => (r.epoch, r.public_key))).find? (fun x => decide (x.1 = e)) =
      some (e, row.public_key) := by
    rw [List.find?_map, show (fun x : Nat × AgreementKey => decide (x.1 = e)) ∘
      (fun r : KeyRow => (r.epoch, r.public_key)) = fun r => decide (r.epoch = e) from rfl, hfind]
    simp [hepoch]
  show (k.peerKeyEpochs.find? (fun x => decide (x.1 = e))).map (·.2) = some row.public_key
  unfold peerKeyEpochs
  cases hkey : k.peer_agreement_key with
  | none => simp only [hrows, Option.map_some]
  | some key =>
    by_cases hcur : k.key_epoch = e
    · subst hcur
      simp [h]
    · have hrest : ((k.peerRows.map (fun r => (r.epoch, r.public_key))).filter
          (fun x => decide (x.1 ≠ k.key_epoch))).find? (fun x => decide (x.1 = e)) =
            some (e, row.public_key) := by
        rw [List.find?_filter, ← hrows]
        congr 1
        funext x
        by_cases hx : x.1 = e
        · simp [hx, Ne.symm hcur]
        · simp [hx]
      rw [List.find?_cons_of_neg (by simpa using hcur), hrest]
      rfl

theorem Stage.Bound.query {S : Desk} {stage : Stage} (hw : AckInFlight epoch key S.side ∨ AckCommitted epoch key S.side)
    (now : Nat) (h : stage.Bound epoch key)
    (hok : ∀ rel, stage = .gated rel → rel.peer_agreement_key = S.side.peer_agreement_key) :
    (stage.query S.side now).Bound epoch key := by
  obtain ⟨row, hrow, hkey⟩ : ∃ row, S.side.peerRow epoch = some row ∧ row.public_key = key := by
    obtain hw | hw := hw
    · exact hw.peer
    · exact hw.peer
  cases stage with
  | started rel =>
    simp only [Stage.query]
    split <;> trivial
  | gated rel =>
    simp only [Stage.query]
    cases hdual : dualRotation S.side with
    | none =>
      -- Without a rotation the row read is the one of after the commit.
      obtain hw | hw := hw
      · obtain ⟨r, hr, -⟩ := hw.dualRotation
        exact absurd (hdual.symm.trans hr) (by simp)
      · unfold singleRecipient
        rw [hok rel rfl, hw.peer_agreement_key]
        exact ⟨_, List.mem_singleton_self _, rfl⟩
    | some r =>
      obtain hw | hw := hw
      · obtain ⟨r', hr', hepoch⟩ := hw.dualRotation
        obtain rfl := Option.some.inj (hdual.symm.trans hr')
        exact hepoch
      · unfold dualRotation at hdual
        rw [hw.idle] at hdual
        exact absurd hdual (by simp)
  | rotation rel r => exact h
  | peerKey rel r key_epoch peer_agreement_key =>
    have hpeer : ({ S.side.toKeys with key_epoch := key_epoch, peer_agreement_key := peer_agreement_key } :
        Keys).peerKey r.epoch = some key := by
      rw [show r.epoch = epoch from h, ← hkey]
      exact peerKey_of_peerRow hrow
    simp only [Stage.query, dualRecipients]
    rw [hpeer]
    split
    · rename_i prior new _ hnew
      obtain rfl := Option.some.inj hnew
      exact ⟨_, List.mem_cons_of_mem _ List.mem_cons_self, rfl⟩
    · trivial
  | chosen recipients key_epoch => exact h
  | ended => trivial

theorem Sending.act {S S' : Desk} {a : DeskAct} (hS : Sending epoch key S) (hok : ReadsTogether S a)
    (hstep : S.act a = some S') : Sending epoch key S' := by
  cases a with
  | start body peer =>
    obtain rfl := Option.some.inj hstep
    refine ⟨hS.window, fun x hx => ?_, hS.sent⟩
    obtain hx | hx := List.mem_append.mp hx
    · exact hS.senders x hx
    · rw [List.mem_singleton.mp hx]
      trivial
  | query i now =>
    obtain ⟨x, hx, rfl⟩ := Option.map_eq_some_iff.mp hstep
    refine ⟨hS.window, fun y hy => ?_, hS.sent⟩
    obtain hy | rfl := List.mem_or_eq_of_mem_set hy
    · exact hS.senders y hy
    · refine Stage.Bound.query hS.window now (hS.senders x (List.mem_of_getElem? hx)) (fun rel hrel => ?_)
      exact hok x.body rel (by rw [hx, ← hrel])
  | persist i event_id now =>
    simp only [Desk.act] at hstep
    split at hstep
    · rename_i body recipients key_epoch hx
      obtain rfl := Option.some.inj hstep
      have hended : ∀ y ∈ S.senders.set i ⟨body, .ended⟩, y.stage.Bound epoch key := by
        intro y hy
        obtain hy | rfl := List.mem_or_eq_of_mem_set hy
        · exact hS.senders y hy
        · trivial
      have hwrapped : WrappedTo key recipients := hS.senders _ (List.mem_of_getElem? hx)
      unfold Desk.persist
      dsimp only
      split
      · refine ⟨?_, hended, fun e he => ?_⟩
        · exact hS.window.imp (fun h => ⟨h.row, h.only, h.peer⟩)
            (fun h => ⟨h.idle, h.key_epoch, h.peer_agreement_key, h.peer⟩)
        · obtain he | he := List.mem_append.mp he
          · exact hS.sent e he
          · rw [List.mem_singleton.mp he]
            exact hwrapped
      · exact ⟨hS.window, hended, hS.sent⟩
    · exact absurd hstep (by simp)
  | onConfirm e now =>
    obtain rfl := Option.some.inj hstep
    exact ⟨hS.window.imp (fun h => h.onConfirm e now) (fun h => h.onConfirm e now), hS.senders, hS.sent⟩
  | markCommitted now =>
    obtain rfl := Option.some.inj hstep
    refine ⟨?_, hS.senders, hS.sent⟩
    obtain h | h := hS.window
    · exact h.markCommitted now
    · exact Or.inr (h.markCommitted now)

end race

end MuseAgentSocial.Cli
