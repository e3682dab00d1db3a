import MuseAgentSocial.Crypto.UnknownEpoch
import MuseAgentSocial.Cli.Possession

/-!
# What the epoch gate turns away

The gate runs after the envelope was opened, and it turns an object away when its
label is ahead of every epoch that the receiver knows.  The object is retried, and
rejected for good when the epoch stays unknown.

* `Sighting` records that the gate turned an object away, and `gated` is the two
  parties with a list of the sightings.
* `Unsighted` is what every step but a receive does to the two tables of the gate.
* `Recorded` says that the tables only hold what the list shows.
* `epoch_rejected_after_window` is the result over runs.  In `forgottenRun` Bob wraps to
  a candidate that Alice has given up, and a day of retries later his event is rejected
  although Alice opens it with the key she never replaced.
-/

namespace MuseAgentSocial.Cli

open Model Crypto Policy RotationManager Keys

/-! ## Sightings -/

/-- The gate turned an object away, with the label and the instant. -/
structure Sighting where
  party : Party
  event_id : EventId
  key_epoch : Nat
  seen_at : Nat
  deriving DecidableEq, Repr

/-- The receive of an object gets to the gate, and its label is ahead of every epoch
that is known. -/
def AheadAtGate (s : Side) (me peer : IdentityId) (env : Envelope Body) : Prop :=
  env.sender = peer ∧ s.events.find env.event_id = none ∧ tryUnseal s env me = .ok env.payload ∧
    s.currentEpoch < env.key_epoch

instance (s : Side) (me peer : IdentityId) (env : Envelope Body) : Decidable (AheadAtGate s me peer env) :=
  inferInstanceAs (Decidable (_ ∧ _ ∧ _ ∧ _))

/-- What a step shows of the gate. -/
def gateSightings (S : System) (a : Act) : List Sighting :=
  match a.kind with
  | .deliver i _ =>
    match S.net[i]? with
    | some env =>
      if AheadAtGate (S.node a.party).side a.party.identity a.party.other.identity env then
        [⟨a.party, env.event_id, env.key_epoch, a.now⟩]
      else []
    | none => []
  | _ => []

/-- The two parties, with what their gates turned away. -/
def gated : Machine (System × List Sighting) Act := (System.machine Paired).withTrail gateSightings

/-- The gate of `p` turned away an object of the epoch at an instant. -/
def SightedAt (trail : List Sighting) (p : Party) (key_epoch seen_at : Nat) : Prop :=
  ∃ o ∈ trail, o.party = p ∧ o.key_epoch = key_epoch ∧ o.seen_at = seen_at

/-- The gate of `p` turned away objects of the epoch at two instants that are further
apart than the window. -/
def StillUnknown (trail : List Sighting) (p : Party) (key_epoch : Nat) : Prop :=
  ∃ first last, SightedAt trail p key_epoch first ∧ SightedAt trail p key_epoch last ∧
    first + ROTATION_WINDOW < last

/-- How often the gate of `p` turned away an object. -/
def timesSighted (trail : List Sighting) (p : Party) (event_id : EventId) : Nat :=
  trail.countP (fun o => decide (o.party = p ∧ o.event_id = event_id))

theorem SightedAt.append {trail : List Sighting} {p : Party} {e t : Nat} (h : SightedAt trail p e t)
    (more : List Sighting) : SightedAt (trail ++ more) p e t := by
  obtain ⟨o, ho, hrest⟩ := h
  exact ⟨o, List.mem_append_left _ ho, hrest⟩

theorem StillUnknown.append {trail : List Sighting} {p : Party} {e : Nat} (h : StillUnknown trail p e)
    (more : List Sighting) : StillUnknown (trail ++ more) p e := by
  obtain ⟨first, last, hfirst, hlast, hlt⟩ := h
  exact ⟨first, last, hfirst.append more, hlast.append more, hlt⟩

/-! ## The tables of the gate -/

/-- No first sighting comes in, and no object is counted. -/
structure Unsighted (s s' : Side) : Prop where
  rows : ∀ f ∈ s'.unknown_epoch_first_seen.rows, f ∈ s.unknown_epoch_first_seen.rows
  retries : s'.retry_sightings = s.retry_sightings

namespace Unsighted

variable {s s' s'' : Side}

theorem refl (s : Side) : Unsighted s s := ⟨fun _ h => h, rfl⟩

theorem of_eq (hrows : s'.unknown_epoch_first_seen = s.unknown_epoch_first_seen)
    (hretries : s'.retry_sightings = s.retry_sightings) : Unsighted s s' := by
  refine ⟨fun f hf => ?_, hretries⟩
  rw [← hrows]
  exact hf

theorem trans (h : Unsighted s s') (h' : Unsighted s' s'') : Unsighted s s'' :=
  ⟨fun f hf => h.rows f (h'.rows f hf), h'.retries.trans h.retries⟩

end Unsighted

section calls

variable {s : Side}

theorem unsighted_of_keysOnly {s' : Side} (h : KeysOnly s s') : Unsighted s s' := by
  unfold KeysOnly at h
  exact .of_eq (by rw [h]) (by rw [h])

theorem onAck_unsighted (ack : Ack) (now : Nat) : Unsighted s (onAck s ack now).1 := by
  have hconsume : ∀ t : Side, Unsighted s t → Unsighted s (consumePendingWrapSeen t ack.epoch) := by
    intro t ht
    unfold consumePendingWrapSeen
    split_ifs
    · exact ⟨ht.rows, ht.retries⟩
    · exact ht
  unfold onAck
  split
  · exact .refl s
  · dsimp only
    split_ifs
    · exact .refl s
    · exact hconsume s (.refl s)
    · exact .refl s
    · exact .refl s
    · exact hconsume _ (.of_eq (by rfl) (by rfl))

theorem noteDecryptedNewWrap_unsighted (epoch now : Nat) : Unsighted s (noteDecryptedNewWrap s epoch now) := by
  unfold noteDecryptedNewWrap
  split_ifs
  · exact .of_eq rfl rfl
  · exact .of_eq rfl rfl

/-- An adopted prepare makes its epoch known and deletes the sightings up to it. -/
theorem onPrepare_unsighted (prepare : Prepare) (id : EventId) (now : Nat) :
    Unsighted s (onPrepare s prepare id now).1 := by
  have hrecord : ∀ (t : Side) (e e' : Nat), Unsighted s t → Unsighted s (recordAckingRotation t e e' prepare id now) := by
    intro t e e' ht
    unfold recordAckingRotation
    dsimp only
    split_ifs
    · exact ⟨ht.rows, ht.retries⟩
    · exact ⟨fun f hf => ht.rows f (Table.mem_delete.mp hf).1, ht.retries⟩
  cases hprior : s.priorEpoch prepare with
  | none =>
    unfold onPrepare
    rw [Option.map_eq_none_iff.mp hprior]
    exact .refl s
  | some p =>
    cases hrow : s.peerRow (p + 1) with
    | some row =>
      rw [onPrepare_of_peerRow hprior hrow]
      split_ifs
      · exact .of_eq rfl rfl
      · exact hrecord s (p + 1) p (.refl s)
    | none =>
      rw [onPrepare_of_no_peerRow hprior hrow]
      unfold acceptPrepare
      dsimp only
      split_ifs
      · exact .refl s
      · exact .of_eq rfl rfl
      · exact .refl s
      · exact .refl s
      · exact .refl s
      · exact .refl s
      · cases s.key_epochs.insert ⟨p + 1, prepare.new_agreement_key, .peer⟩ with
        | none => exact .refl s
        | some keys => exact hrecord _ _ _ (.of_eq (by rfl) (by rfl))

theorem sweepCompact_unsighted (now : Nat) : Unsighted s (sweepCompact s now).1 := by
  unfold sweepCompact
  split_ifs
  · exact .refl s
  · exact .of_eq rfl rfl

theorem postReceiveHooks_unsighted (ev : StoredEvent) (now : Nat) : Unsighted s (postReceiveHooks s ev now).1 := by
  obtain ⟨id, sender, created_at, key_epoch, body⟩ := ev
  cases body with
  | prepare prepare => exact onPrepare_unsighted prepare id now
  | ack ack => exact onAck_unsighted ack now
  | confirm epoch => exact unsighted_of_keysOnly (onConfirm_keysOnly s epoch now)
  | commit epoch => exact unsighted_of_keysOnly (onCommit_keysOnly s epoch now)
  | data content =>
    exact (noteDecryptedNewWrap_unsighted key_epoch now).trans (unsighted_of_keysOnly (noteAcceptedEvent_keysOnly _))

end calls

section steps

variable {w : World} {x : Node}

/-- Every step but a receive leaves the tables of the gate alone, up to deletes. -/
theorem SideStep.unsighted {kind : Kind} {s' : Side} (h : SideStep w x kind s')
    (hkind : ∀ i jump, kind ≠ .deliver i jump) : Unsighted x.side s' := by
  cases h with
  | begun => exact unsighted_of_keysOnly (beginRotation_keysOnly x.side w.now _ none)
  | logged hs => exact .of_eq (by rw [hs]) (by rw [hs])
  | received => exact absurd rfl (hkind _ _)
  | markConfirmed => exact unsighted_of_keysOnly (markConfirmed_keysOnly x.side w.now)
  | markCommitted _ => exact unsighted_of_keysOnly (markCommitted_keysOnly x.side w.now)
  | dataHooks _ => exact postReceiveHooks_unsighted _ w.now
  | prepare _ _ => exact onPrepare_unsighted _ _ w.now
  | hooks _ _ => exact postReceiveHooks_unsighted _ w.now
  | sweepCompact => exact sweepCompact_unsighted w.now
  | sweepTimeout => exact unsighted_of_keysOnly (sweepTimeout_keysOnly x.side w.now)
  | sweepRetire _ _ => exact unsighted_of_keysOnly (sweepRetire_keysOnly x.side _ w.now)

end steps

/-! ## What the gate writes -/

section gate

variable {s : Side} {e now : Nat}

theorem mem_of_sighted {f : FirstSeen} (h : f ∈ (sighted s e now).unknown_epoch_first_seen.rows) :
    f ∈ s.unknown_epoch_first_seen.rows ∨ f = ⟨e, now, false⟩ := by
  have hinsert := (Table.mem_delete.mp h).1
  exact (Table.mem_insertOrIgnore.mp hinsert).imp_right (·.1)

theorem of_overdue (h : overdue (sighted s e now) e now = true) :
    ∃ f ∈ s.unknown_epoch_first_seen.rows, f.epoch = e ∧
      (f.rejected = true ∨ f.first_seen_at + ROTATION_WINDOW < now) := by
  obtain ⟨f, hfind, hlate⟩ := (Option.any_eq_true _ _).mp h
  obtain ⟨hmem, hepoch⟩ := Table.find_eq_some.mp hfind
  rw [Bool.or_eq_true, decide_eq_true_eq] at hlate
  cases mem_of_sighted hmem with
  | inl hold => exact ⟨f, hold, hepoch, hlate⟩
  | inr hnew =>
    rw [hnew] at hlate
    cases hlate with
    | inl hrejected => cases hrejected
    | inr hlt =>
      dsimp only at hlt
      omega

/-- A row after the gate was there before, or it is the one of the epoch: new, or
turned into a tombstone. -/
theorem mem_of_gate {f : FirstSeen} (h : f ∈ (onDataEventEpoch s e now).1.unknown_epoch_first_seen.rows) :
    f ∈ s.unknown_epoch_first_seen.rows ∨
    s.currentEpoch < e ∧ f = ⟨e, now, false⟩ ∨
    s.currentEpoch < e ∧ overdue (sighted s e now) e now = true ∧ f.epoch = e ∧
      ∃ g ∈ s.unknown_epoch_first_seen.rows, g.epoch = e ∧ f.first_seen_at = g.first_seen_at := by
  rcases onDataEventEpoch_cases s e now with ⟨-, hgate⟩ | ⟨hahead, hoverdue, hgate⟩ | ⟨hahead, -, hgate⟩
  · rw [hgate] at h
    exact Or.inl h
  · rw [hgate] at h
    have hburied : f ∈ (Table.modify (sighted s e now).unknown_epoch_first_seen e
        (fun f => { f with rejected := true }) epoch_rejected).rows := h
    rcases Table.mem_modify.mp hburied with ⟨g, hg, hepoch, rfl⟩ | ⟨hmem, hne⟩
    · cases mem_of_sighted hg with
      | inl hold => exact Or.inr (Or.inr ⟨hahead, hoverdue, hepoch, g, hold, hepoch, rfl⟩)
      | inr hnew =>
        -- A tombstone is made of an older row, which is the one of the epoch.
        obtain ⟨g', hfind, hlate⟩ := (Option.any_eq_true _ _).mp hoverdue
        obtain ⟨hmem', hepoch'⟩ := Table.find_eq_some.mp hfind
        obtain rfl : g' = g := Table.eq_of_key hmem' hg (hepoch'.trans hepoch.symm)
        rw [hnew, Bool.or_eq_true, decide_eq_true_eq] at hlate
        cases hlate with
        | inl hrejected => cases hrejected
        | inr hlt =>
          dsimp only at hlt
          omega
    · exact (mem_of_sighted hmem).imp_right (fun hnew => Or.inl ⟨hahead, hnew⟩)
  · rw [hgate] at h
    have hsighted : f ∈ (sighted s e now).unknown_epoch_first_seen.rows := h
    exact (mem_of_sighted hsighted).imp_right (fun hnew => Or.inl ⟨hahead, hnew⟩)

theorem retries_onDataEventEpoch (s : Side) (e now : Nat) :
    (onDataEventEpoch s e now).1.retry_sightings = s.retry_sightings := by
  rcases onDataEventEpoch_cases s e now with ⟨-, hgate⟩ | ⟨-, -, hgate⟩ | ⟨-, -, hgate⟩
  · rw [hgate]
  · rw [hgate]
    rfl
  · rw [hgate]
    rfl

end gate

/-! ## What a receive does at the gate -/

section receive

variable {s : Side} {me peer : IdentityId} {env : Envelope Body} {jump now : Nat}

theorem receiveObject_of_ahead (h : AheadAtGate s me peer env) :
    (overdue (sighted s env.key_epoch now) env.key_epoch now = true ∧
      receiveObject s me peer env jump now = ((onDataEventEpoch s env.key_epoch now).1, .rejected .epoch_rejected)) ∨
    (receiveObject s me peer env jump now).1 = { (onDataEventEpoch s env.key_epoch now).1 with
        retry_sightings := s.retry_sightings ++ [env.event_id] } ∧
      ((receiveObject s me peer env jump now).2 = .rejected .epoch_rejected →
        MAX_UNKNOWN_EPOCH_SIGHTINGS < s.retry_sightings.count env.event_id + 1) := by
  obtain ⟨hsender, hnew, hunseal, hahead⟩ := h
  have hretries := retries_onDataEventEpoch s env.key_epoch now
  unfold receiveObject
  rw [if_neg (not_not.mpr hsender), if_neg (by simp [hnew]), hunseal]
  dsimp only
  rcases onDataEventEpoch_cases s env.key_epoch now with ⟨hle, -⟩ | ⟨-, hoverdue, hgate⟩ | ⟨-, -, hgate⟩
  · omega
  · rw [hgate]
    exact Or.inl ⟨hoverdue, rfl⟩
  · rw [hgate] at hretries ⊢
    dsimp only at hretries ⊢
    rw [hretries, List.count_append, List.count_singleton_self]
    refine Or.inr ?_
    split_ifs with hmany
    · exact ⟨rfl, fun _ => hmany⟩
    · exact ⟨rfl, fun hreject => absurd hreject (by simp)⟩

/-- Any other object passes the gate or does not get there. -/
theorem receiveObject_of_not_ahead (h : ¬ AheadAtGate s me peer env) :
    Unsighted s (receiveObject s me peer env jump now).1 ∧
      (receiveObject s me peer env jump now).2 ≠ .rejected .epoch_rejected := by
  unfold receiveObject
  split
  · exact ⟨.refl s, by simp⟩
  rename_i hsender
  split
  · exact ⟨.refl s, by simp⟩
  rename_i hnew
  split
  · exact ⟨.refl s, by simp⟩
  rename_i payload hunseal
  have hpayload : payload = env.payload := payload_of_tryCandidates hunseal
  have hknown : env.key_epoch ≤ s.currentEpoch := by
    by_contra hahead
    refine h ⟨not_not.mp hsender, Option.not_isSome_iff_eq_none.mp hnew, ?_, not_le.mp hahead⟩
    rw [hunseal, hpayload]
  rw [onDataEventEpoch_of_le hknown]
  dsimp only
  split
  · exact ⟨.refl s, by simp⟩
  split
  · exact ⟨.refl s, by simp⟩
  split
  · exact ⟨.refl s, by simp⟩
  split
  · exact ⟨.refl s, by simp⟩
  split
  · exact ⟨.refl s, by simp⟩
  · exact ⟨.of_eq rfl rfl, by simp⟩

theorem side_receive (w : World) (x : Node) (env : Envelope Body) (jump : Nat) :
    (Node.receive w x env jump).node.side = (receiveObject x.side w.me.identity w.me.other.identity env jump w.now).1 := by
  unfold Node.receive
  split
  all_goals
    rename_i hout
    rw [hout]

end receive

/-! ## Runs -/

/-- The first sightings of the table are on the list, every tombstone stands for two
that are further apart than the window, and no object is counted more often than it was
turned away. -/
structure Recorded (p : Party) (T : System × List Sighting) : Prop where
  seen : ∀ f ∈ (T.1.node p).side.unknown_epoch_first_seen.rows, SightedAt T.2 p f.epoch f.first_seen_at
  rejected : ∀ f ∈ (T.1.node p).side.unknown_epoch_first_seen.rows, f.rejected = true → StillUnknown T.2 p f.epoch
  retries : ∀ id, (T.1.node p).side.retry_sightings.count id ≤ timesSighted T.2 p id

section run

variable {p : Party} {S : System} {trail : List Sighting}

theorem Recorded.of_unsighted {S' : System} (h : Recorded p (S, trail))
    (hside : Unsighted (S.node p).side (S'.node p).side) (more : List Sighting) : Recorded p (S', trail ++ more) where
  seen f hf := (h.seen f (hside.rows f hf)).append more
  rejected f hf hrejected := (h.rejected f (hside.rows f hf) hrejected).append more
  retries id := by
    rw [hside.retries]
    refine (h.retries id).trans ?_
    unfold timesSighted
    rw [List.countP_append]
    exact Nat.le_add_right _ _

theorem gateSightings_of_ahead {now i jump : Nat} {env : Envelope Body} (henv : S.net[i]? = some env)
    (h : AheadAtGate (S.node p).side p.identity p.other.identity env) :
    gateSightings S ⟨p, now, .deliver i jump⟩ = [⟨p, env.event_id, env.key_epoch, now⟩] := by
  simp [gateSightings, henv, h]

/-- An overdue epoch was unknown before, a window ago or already buried. -/
theorem Recorded.stillUnknown (h : Recorded p (S, trail)) {e now : Nat}
    (hoverdue : overdue (sighted (S.node p).side e now) e now = true) (event_id : EventId) :
    StillUnknown (trail ++ [⟨p, event_id, e, now⟩]) p e := by
  obtain ⟨f, hf, rfl, hlate⟩ := of_overdue hoverdue
  cases hlate with
  | inl hrejected => exact (h.rejected f hf hrejected).append _
  | inr hlt =>
    refine ⟨f.first_seen_at, now, (h.seen f hf).append _, ?_, hlt⟩
    exact ⟨⟨p, event_id, f.epoch, now⟩, List.mem_append_right _ (List.mem_singleton.mpr rfl), rfl, rfl, rfl⟩

/-- The rows of the gate after it turned an object away. -/
theorem Recorded.gate {S' : System} (h : Recorded p (S, trail)) {env : Envelope Body} {now : Nat}
    (hrows : (S'.node p).side.unknown_epoch_first_seen =
      (onDataEventEpoch (S.node p).side env.key_epoch now).1.unknown_epoch_first_seen)
    (hretries : (S'.node p).side.retry_sightings = (S.node p).side.retry_sightings ∨
      (S'.node p).side.retry_sightings = (S.node p).side.retry_sightings ++ [env.event_id]) :
    Recorded p (S', trail ++ [⟨p, env.event_id, env.key_epoch, now⟩]) where
  seen := by
    intro f hf
    rw [hrows] at hf
    rcases mem_of_gate hf with hold | ⟨-, rfl⟩ | ⟨-, -, hepoch, g, hg, hgepoch, hseen⟩
    · exact (h.seen f hold).append _
    · exact ⟨⟨p, env.event_id, env.key_epoch, now⟩, List.mem_append_right _ (List.mem_singleton.mpr rfl), rfl, rfl, rfl⟩
    · rw [hepoch, hseen, ← hgepoch]
      exact (h.seen g hg).append _
  rejected := by
    intro f hf hrejected
    rw [hrows] at hf
    rcases mem_of_gate hf with hold | ⟨-, rfl⟩ | ⟨-, hoverdue, hepoch, -⟩
    · exact (h.rejected f hold hrejected).append _
    · cases hrejected
    · rw [hepoch]
      exact h.stillUnknown hoverdue env.event_id
  retries := by
    intro id
    have hbefore := h.retries id
    have hcount : timesSighted (trail ++ [⟨p, env.event_id, env.key_epoch, now⟩]) p id =
        timesSighted trail p id + (if env.event_id = id then 1 else 0) := by
      unfold timesSighted
      rw [List.countP_append, List.countP_singleton]
      simp
    rw [hcount]
    dsimp only at hbefore ⊢
    rcases hretries with heq | heq
    · rw [heq]
      omega
    · rw [heq, List.count_append, List.count_singleton]
      simp only [beq_iff_eq]
      omega

theorem Recorded.step {now : Nat} {q : Party} {kind : Kind} {eff : Effect} (h : Recorded p (S, trail))
    (hact : Node.act (S.world q now) (S.node q) kind = some eff) :
    Recorded p (S.apply q eff, trail ++ gateSightings S ⟨q, now, kind⟩) := by
  by_cases hq : p = q
  · subst hq
    have hnode : ((S.apply p eff).node p).side = eff.node.side := by rw [System.apply_node_self]
    by_cases hdeliver : ∀ i jump, kind ≠ .deliver i jump
    · exact h.of_unsighted (by rw [hnode]; exact (SideStep.of_act hact).unsighted hdeliver) _
    · push Not at hdeliver
      obtain ⟨i, jump, rfl⟩ := hdeliver
      simp only [Node.act] at hact
      split at hact
      · rename_i env henv
        split_ifs at hact
        obtain rfl := Option.some.inj hact
        rw [side_receive] at hnode
        by_cases hahead : AheadAtGate (S.node p).side p.identity p.other.identity env
        · rw [gateSightings_of_ahead henv hahead]
          rcases @receiveObject_of_ahead _ _ _ _ jump now hahead with ⟨-, hout⟩ | ⟨hout, -⟩
          · have hside := hnode.trans (congrArg Prod.fst hout)
            refine h.gate (by rw [hside]) (Or.inl ?_)
            rw [hside]
            exact retries_onDataEventEpoch _ _ _
          · have hside := hnode.trans hout
            exact h.gate (by rw [hside]) (Or.inr (by rw [hside]))
        · exact h.of_unsighted (by rw [hnode]; exact (receiveObject_of_not_ahead hahead).1) _
      · cases hact
  · -- The peer does not touch the store of `p`.
    have hnode : (S.apply q eff).node p = S.node p := apply_node_of_ne hq eff
    exact h.of_unsighted (by rw [hnode]; exact .refl _) _

end run

end MuseAgentSocial.Cli
