import MuseAgentSocial.Lib.Json

/-!
# What a JSON text says

The decoder of `Json` calls its hooks while it reads.  Its result does not depend on
when it calls them.

* `Tree` is what the text says, with the literals and the pairs as they stand in it, and
  `Tree.build` calls the hooks on it.
* `scan_follows`: the decoder gives what is built from the tree, and on a text that cannot
  be read it raises that error, unless a hook raised before.
* `Comes` says that the reader comes to an integer literal of a kind, before any other
  error.
* `loads_eq_error_iff`: where only integers raise an error, the decoder raises it exactly
  when it comes to such a literal.
-/

namespace Json

/-! ## Trees -/

/-- What a text says. -/
inductive Tree where
  | null
  | bool (b : Bool)
  | str (t : Text)
  | int (literal : List Char)
  | float (literal : List Char)
  | constant (name : List Char)
  | array (xs : List Tree)
  | object (pairs : List (Text × Tree))

theorem Tree.induct {P : Tree → Prop} (null : P .null) (bool : ∀ b, P (.bool b)) (str : ∀ t, P (.str t))
    (int : ∀ text, P (.int text)) (float : ∀ text, P (.float text)) (constant : ∀ name, P (.constant name))
    (array : ∀ xs, (∀ x ∈ xs, P x) → P (.array xs)) (object : ∀ ps, (∀ p ∈ ps, P p.2) → P (.object ps))
    (t : Tree) : P t :=
  Tree.rec (motive_1 := P) (motive_2 := fun xs => ∀ x ∈ xs, P x) (motive_3 := fun ps => ∀ p ∈ ps, P p.2)
    (motive_4 := fun p => P p.2) null bool str int float constant array object
    (fun _ h => absurd h List.not_mem_nil)
    (fun _ _ hx hxs _ h => (List.mem_cons.mp h).elim (fun heq => heq ▸ hx) (hxs _))
    (fun _ h => absurd h List.not_mem_nil)
    (fun _ _ hp hps _ h => (List.mem_cons.mp h).elim (fun heq => heq ▸ hp) (hps _))
    (fun _ _ h => h) t

/-- The hooks that keep what the text says, and never raise. -/
def treeHooks (ε : Type) : Hooks ε Tree where
  null := .null
  bool := .bool
  str := .str
  int text := .ok (.int text)
  float := .float
  array := .array
  constant name := .ok (.constant name)
  object pairs := .ok (.object pairs)

section build

variable {ε V : Type} (h : Hooks ε V)

mutual

/-- Call the hooks on a tree, as they stand in the text. -/
def Tree.build : Tree → Except ε V
  | .null => .ok h.null
  | .bool b => .ok (h.bool b)
  | .str t => .ok (h.str t)
  | .int text => h.int text
  | .float text => .ok (h.float text)
  | .constant name => h.constant name
  | .array xs => (Tree.buildAll xs).map h.array
  | .object pairs => (Tree.buildMembers pairs).bind h.object

def Tree.buildAll : List Tree → Except ε (List V)
  | [] => .ok []
  | t :: ts => (Tree.build t).bind (fun v => (Tree.buildAll ts).map (v :: ·))

def Tree.buildMembers : List (Text × Tree) → Except ε (List (Text × V))
  | [] => .ok []
  | (key, t) :: ps => (Tree.build t).bind (fun v => (Tree.buildMembers ps).map ((key, v) :: ·))

end

/-- The result of the decoder on a text that says `r`. -/
def built {α β : Type} (build : α → Except ε β) (r : α × List Char) : Except (DecodeError ε) (β × List Char) :=
  ((build r.1).mapError .hook).map (fun v => (v, r.2))

end build

section scans

variable {ε V : Type} {h : Hooks ε V} {depth : Nat} {s : List Char}

theorem built_ok {α β : Type} {build : α → Except ε β} {r : α × List Char} {v : β} (hv : build r.1 = .ok v) :
    built build r = .ok (v, r.2) := by
  rw [built, hv]
  rfl

theorem built_error {α β : Type} {build : α → Except ε β} {r : α × List Char} {e : ε} (he : build r.1 = .error e) :
    built build r = .error (.hook e) := by
  rw [built, he]
  rfl

theorem scanNumber_eq (h : Hooks ε V) (s : List Char) :
    scanNumber h s = (scanNumber (treeHooks ε) s).map (fun r => (r.1.bind (Tree.build h), r.2)) := by
  have hunsigned : ∀ negative s, scanUnsigned h negative s =
      (scanUnsigned (treeHooks ε) negative s).map (fun r => (r.1.bind (Tree.build h), r.2)) := by
    intro negative s
    unfold scanUnsigned
    cases scanInteger s with
    | none => rfl
    | some r =>
      simp only [Option.map_some]
      split_ifs <;> rfl
  unfold scanNumber
  cases s with
  | nil => rfl
  | cons c rest =>
    dsimp only
    split_ifs <;> exact hunsigned _ _

theorem scanNumber_tree_ok {r : Except ε Tree × List Char} (hr : scanNumber (treeHooks ε) s = some r) :
    ∃ text rest, r = (.ok (.int text), rest) ∨ r = (.ok (.float text), rest) := by
  have hunsigned : ∀ negative s, scanUnsigned (treeHooks ε) negative s = some r →
      ∃ text rest, r = (.ok (.int text), rest) ∨ r = (.ok (.float text), rest) := by
    intro negative s hs
    obtain ⟨x, -, rfl⟩ := Option.map_eq_some_iff.mp hs
    dsimp only
    by_cases hplain : (scanFraction x.2).1 = [] ∧ (scanExponent (scanFraction x.2).2).1 = []
    · exact ⟨_, _, Or.inl (if_pos hplain)⟩
    · exact ⟨_, _, Or.inr (if_neg hplain)⟩
  unfold scanNumber at hr
  cases s with
  | nil => exact absurd hr (by simp)
  | cons c rest =>
    dsimp only at hr
    split_ifs at hr <;> exact hunsigned _ _ hr

theorem scanAtom_eq (h : Hooks ε V) (s : List Char) :
    scanAtom h s = (scanAtom (treeHooks ε) s).bind (built (Tree.build h)) := by
  unfold scanAtom
  split_ifs
  · rfl
  · rfl
  · rfl
  · rw [scanNumber_eq h]
    cases hnumber : scanNumber (treeHooks ε) s with
    | some r =>
      obtain ⟨text, rest, rfl | rfl⟩ := scanNumber_tree_ok hnumber <;> rfl
    | none =>
      simp only [Option.map_none]
      split <;> rfl

/-- The decoder against the reader of trees: it gives what is built from the tree, and
where the text cannot be read it raises that error, unless a hook raised before. -/
def Follows {α β : Type} (build : α → Except ε β) (rt : Except (DecodeError ε) (α × List Char))
    (rh : Except (DecodeError ε) (β × List Char)) : Prop :=
  match rt with
  | .ok r => rh = built build r
  | .error e => rh = .error e ∨ ∃ x, rh = .error (.hook x)

section follows

variable {α β α' β' : Type} {build : α → Except ε β} {build' : α' → Except ε β'}
  {rt : Except (DecodeError ε) (α × List Char)} {rh : Except (DecodeError ε) (β × List Char)}

theorem Follows.error {e : DecodeError ε} : Follows build (.error e) (.error e) := Or.inl rfl

theorem Follows.ok {t : α} {v : β} {rest : List Char} (hv : build t = .ok v) :
    Follows build (.ok (t, rest)) (.ok (v, rest)) := (built_ok (r := (t, rest)) hv).symm

theorem Follows.map {f : α → α'} {g : β → β'} (hr : Follows build rt rh)
    (hf : ∀ t, build' (f t) = (build t).map g) :
    Follows build' (rt.map (fun r => (f r.1, r.2))) (rh.map (fun r => (g r.1, r.2))) := by
  cases rt with
  | error e =>
    rcases hr with rfl | ⟨x, rfl⟩
    · exact Or.inl rfl
    · exact Or.inr ⟨x, rfl⟩
  | ok r =>
    obtain rfl : rh = built build r := hr
    show _ = built build' (f r.1, r.2)
    unfold built
    rw [hf]
    cases build r.1 <;> rfl

variable (build) in
/-- The rest of the text is read after a value that is built; after one whose hook raised
nothing matters any more. -/
theorem Follows.bind {kt : α × List Char → Except (DecodeError ε) (α' × List Char)}
    {kh : β × List Char → Except (DecodeError ε) (β' × List Char)} (hr : Follows build rt rh)
    (hok : ∀ t v rest, build t = .ok v → Follows build' (kt (t, rest)) (kh (v, rest)))
    (herr : ∀ t x rest r, build t = .error x → kt (t, rest) = .ok r → build' r.1 = .error x) :
    Follows build' (rt.bind kt) (rh.bind kh) := by
  cases rt with
  | error e =>
    rcases hr with rfl | ⟨x, rfl⟩
    · exact Or.inl rfl
    · exact Or.inr ⟨x, rfl⟩
  | ok r =>
    obtain rfl : rh = built build r := hr
    obtain ⟨t, rest⟩ := r
    cases hbuild : build t with
    | ok v =>
      rw [built_ok (r := (t, rest)) hbuild]
      exact hok t v rest hbuild
    | error x =>
      rw [built_error (r := (t, rest)) hbuild]
      show Follows build' (kt (t, rest)) (.error (.hook x))
      cases hkt : kt (t, rest) with
      | error e => exact Or.inr ⟨x, rfl⟩
      | ok r => exact (built_error (herr t x rest r hbuild hkt)).symm

end follows

/-- The decoder follows the reader of trees, on every text. -/
theorem scan_follows (h : Hooks ε V) (fuel : Nat) :
    (∀ depth s, Follows (Tree.build h) (scanOnce (treeHooks ε) fuel depth s) (scanOnce h fuel depth s)) ∧
      (∀ depth s, Follows (Tree.buildAll h) (scanElements (treeHooks ε) fuel depth s) (scanElements h fuel depth s)) ∧
      ∀ depth s, Follows (Tree.buildMembers h) (scanMembers (treeHooks ε) fuel depth s) (scanMembers h fuel depth s) := by
  induction fuel with
  | zero =>
    refine ⟨fun depth s => ?_, fun depth s => ?_, fun depth s => ?_⟩
    · rw [scanOnce.eq_def, scanOnce.eq_def]
      exact .error
    · rw [scanElements.eq_def, scanElements.eq_def]
      exact .error
    · rw [scanMembers.eq_def, scanMembers.eq_def]
      exact .error
  | succ fuel ih =>
    obtain ⟨ihonce, ihelements, ihmembers⟩ := ih
    refine ⟨fun depth s => ?_, fun depth s => ?_, fun depth s => ?_⟩
    · cases s with
      | nil =>
        rw [scanOnce.eq_def, scanOnce.eq_def]
        exact .error
      | cons c rest =>
        rw [scanOnce_cons, scanOnce_cons]
        by_cases hquote : c = '"'
        · simp only [if_pos hquote]
          cases scanString rest with
          | none => exact .error
          | some r => exact .ok rfl
        · simp only [if_neg hquote]
          by_cases harray : c = '['
          · simp only [if_pos harray]
            cases depth with
            | zero => exact .error
            | succ depth =>
              dsimp only
              split
              · exact .ok rfl
              · exact (ihelements _ _).map (fun t => rfl)
          · simp only [if_neg harray]
            by_cases hobject : c = '\x7b'
            · simp only [if_pos hobject]
              cases depth with
              | zero => exact .error
              | succ depth =>
                dsimp only
                refine Follows.bind (Tree.buildMembers h) ?_ (fun ps vs rest hps => ?_)
                  (fun ps x rest r hps hr => ?_)
                · split
                  · exact .ok rfl
                  · exact ihmembers _ _
                · show _ = built (Tree.build h) (Tree.object ps, rest)
                  unfold built
                  rw [Tree.build, hps]
                  rfl
                · obtain rfl := Except.ok.inj hr
                  rw [Tree.build, hps]
                  rfl
            · simp only [if_neg hobject, scanAtom_eq h]
              cases scanAtom (treeHooks ε) (c :: rest) with
              | error e => exact .error
              | ok r => rfl
    · rw [scanElements.eq_def, scanElements.eq_def]
      dsimp only
      refine (ihonce depth s).bind _ (fun t v rest hv => ?_) (fun t x rest r hx hr => ?_)
      · dsimp only
        split
        · refine .ok ?_
          rw [Tree.buildAll, hv]
          rfl
        · refine (ihelements _ _).map (fun ts => ?_)
          rw [Tree.buildAll, hv]
          rfl
        · exact .error
      · dsimp only at hr
        split at hr
        · obtain rfl := Except.ok.inj hr
          rw [Tree.buildAll, hx]
          rfl
        · cases htail : scanElements (treeHooks ε) fuel depth (skipSpace ‹_›) with
          | error e => simp [htail, Except.map] at hr
          | ok r' =>
            rw [htail] at hr
            obtain rfl := Except.ok.inj hr
            show Tree.buildAll h (t :: r'.1) = _
            rw [Tree.buildAll, hx]
            rfl
        · simp at hr
    · rw [scanMembers.eq_def, scanMembers.eq_def]
      dsimp only
      cases s with
      | nil => exact .error
      | cons c rest =>
        dsimp only
        by_cases hquote : c ≠ '"'
        · simp only [if_pos hquote]
          exact .error
        · simp only [if_neg hquote]
          cases scanString rest with
          | none => exact .error
          | some x =>
            obtain ⟨key, rest⟩ := x
            dsimp only
            split
            · refine (ihonce depth _).bind _ (fun t v rest hv => ?_) (fun t x rest r hx hr => ?_)
              · dsimp only
                split
                · refine .ok ?_
                  rw [Tree.buildMembers, hv]
                  rfl
                · refine (ihmembers _ _).map (fun ts => ?_)
                  rw [Tree.buildMembers, hv]
                  rfl
                · exact .error
              · dsimp only at hr
                split at hr
                · obtain rfl := Except.ok.inj hr
                  rw [Tree.buildMembers, hx]
                  rfl
                · cases htail : scanMembers (treeHooks ε) fuel depth (skipSpace ‹_›) with
                  | error e => simp [htail, Except.map] at hr
                  | ok r' =>
                    rw [htail] at hr
                    obtain rfl := Except.ok.inj hr
                    show Tree.buildMembers h ((key, t) :: r'.1) = _
                    rw [Tree.buildMembers, hx]
                    rfl
                · simp at hr
            · exact .error

/-! ## More fuel changes nothing -/

theorem ne_fuel_of_map {α β : Type} {r : Except (DecodeError ε) α} {f : α → β} (hr : r.map f ≠ .error .fuel) :
    r ≠ .error .fuel := by
  rintro rfl
  exact hr rfl

theorem ne_fuel_of_bind {α β : Type} {r : Except (DecodeError ε) α} {k : α → Except (DecodeError ε) β}
    (hr : r.bind k ≠ .error .fuel) : r ≠ .error .fuel := by
  rintro rfl
  exact hr rfl

/-- The continuations of a scan that did not run out of fuel. -/
theorem bind_congr_of_ne_fuel {α β : Type} {r : Except (DecodeError ε) α} {k k' : α → Except (DecodeError ε) β}
    (hr : r.bind k ≠ .error .fuel) (hk : ∀ a, k a ≠ .error .fuel → k' a = k a) : r.bind k' = r.bind k := by
  cases r with
  | error e => rfl
  | ok a => exact hk a hr

theorem scan_succ (h : Hooks ε V) (fuel : Nat) :
    (∀ depth s, scanOnce h fuel depth s ≠ .error .fuel → scanOnce h (fuel + 1) depth s = scanOnce h fuel depth s) ∧
      (∀ depth s, scanElements h fuel depth s ≠ .error .fuel →
        scanElements h (fuel + 1) depth s = scanElements h fuel depth s) ∧
      ∀ depth s, scanMembers h fuel depth s ≠ .error .fuel →
        scanMembers h (fuel + 1) depth s = scanMembers h fuel depth s := by
  induction fuel with
  | zero =>
    refine ⟨fun depth s hs => ?_, fun depth s hs => ?_, fun depth s hs => ?_⟩
    · exact absurd (scanOnce.eq_def h 0 depth s) hs
    · exact absurd (scanElements.eq_def h 0 depth s) hs
    · exact absurd (scanMembers.eq_def h 0 depth s) hs
  | succ fuel ih =>
    obtain ⟨ihonce, ihelements, ihmembers⟩ := ih
    refine ⟨fun depth s hs => ?_, fun depth s hs => ?_, fun depth s hs => ?_⟩
    · cases s with
      | nil => rw [scanOnce.eq_def, scanOnce.eq_def]
      | cons c rest =>
        rw [scanOnce_cons] at hs ⊢
        rw [scanOnce_cons]
        by_cases hquote : c = '"'
        · simp only [if_pos hquote]
        · simp only [if_neg hquote] at hs ⊢
          by_cases harray : c = '['
          · simp only [if_pos harray] at hs ⊢
            cases depth with
            | zero => rfl
            | succ depth =>
              dsimp only at hs ⊢
              split at hs
              · rfl
              · rw [ihelements _ _ (ne_fuel_of_map hs)]
          · simp only [if_neg harray] at hs ⊢
            by_cases hobject : c = '\x7b'
            · simp only [if_pos hobject] at hs ⊢
              cases depth with
              | zero => rfl
              | succ depth =>
                dsimp only at hs ⊢
                have hpairs := ne_fuel_of_bind hs
                split at hpairs
                · rfl
                · rw [ihmembers _ _ hpairs]
            · simp only [if_neg hobject]
    · rw [scanElements.eq_def] at hs ⊢
      rw [scanElements.eq_def h (fuel + 1)]
      dsimp only at hs ⊢
      rw [ihonce depth s (ne_fuel_of_bind hs)]
      refine bind_congr_of_ne_fuel hs (fun r hr => ?_)
      split at hr
      · rfl
      · rw [ihelements _ _ (ne_fuel_of_map hr)]
      · rfl
    · rw [scanMembers.eq_def] at hs ⊢
      rw [scanMembers.eq_def h (fuel + 1)]
      dsimp only at hs ⊢
      cases s with
      | nil => rfl
      | cons c rest =>
        dsimp only at hs ⊢
        by_cases hquote : c ≠ '"'
        · simp only [if_pos hquote]
        · simp only [if_neg hquote] at hs ⊢
          cases hscan : scanString rest with
          | none => rfl
          | some x =>
            obtain ⟨key, rest⟩ := x
            simp only [hscan] at hs ⊢
            split at hs
            · rw [ihonce depth _ (ne_fuel_of_bind hs)]
              refine bind_congr_of_ne_fuel hs (fun r hr => ?_)
              split at hr
              · rfl
              · rw [ihmembers _ _ (ne_fuel_of_map hr)]
              · rfl
            · rfl

/-- The value at the front of a text, with fuel that suffices. -/
def readTree (depth : Nat) (s : List Char) : Except (DecodeError ε) (Tree × List Char) :=
  scanOnce (treeHooks ε) (2 * s.length + 1) depth s

theorem scanOnce_tree_eq (fuel depth : Nat) (s : List Char) (hf : 2 * s.length + 1 ≤ fuel) :
    scanOnce (treeHooks ε) fuel depth s = readTree depth s := by
  induction fuel, hf using Nat.le_induction with
  | base => rfl
  | succ fuel hf ih =>
    rw [← ih]
    exact (scan_succ _ fuel).1 depth s ((scan_takes fuel).1 depth s hf).1

/-! ## Coming to a literal -/

/-- What stands at the front of a text. -/
inductive Place where
  | value
  | elements
  | members

section comes

variable (ε : Type) (bad : List Char → Prop) (clean : Tree → Prop)

/-- The reader comes to a bad integer literal, and all it has read before is clean. -/
inductive Comes : Place → Nat → List Char → Prop where
  | literal {depth : Nat} {s text rest : List Char}
    (hnumber : scanNumber (treeHooks ε) s = some (.ok (.int text), rest)) (hbad : bad text) : Comes .value depth s
  | array {depth : Nat} {s : List Char} (h : Comes .elements depth (skipSpace s)) :
    Comes .value (depth + 1) ('[' :: s)
  | object {depth : Nat} {s : List Char} (h : Comes .members depth (skipSpace s)) :
    Comes .value (depth + 1) ('\x7b' :: s)
  | element {depth : Nat} {s : List Char} (h : Comes .value depth s) : Comes .elements depth s
  | later {depth : Nat} {s rest tail : List Char} {t : Tree} (hread : readTree (ε := ε) depth s = .ok (t, rest))
    (hclean : clean t) (hcomma : skipSpace rest = ',' :: tail) (h : Comes .elements depth (skipSpace tail)) :
    Comes .elements depth s
  | member {depth : Nat} {s rest tail : List Char} {key : Text} (hkey : scanString s = some (key, rest))
    (hcolon : skipSpace rest = ':' :: tail) (h : Comes .value depth (skipSpace tail)) : Comes .members depth ('"' :: s)
  | laterMember {depth : Nat} {s rest tail rest' tail' : List Char} {key : Text} {t : Tree}
    (hkey : scanString s = some (key, rest)) (hcolon : skipSpace rest = ':' :: tail)
    (hread : readTree (ε := ε) depth (skipSpace tail) = .ok (t, rest')) (hclean : clean t)
    (hcomma : skipSpace rest' = ',' :: tail') (h : Comes .members depth (skipSpace tail')) :
    Comes .members depth ('"' :: s)

end comes

section errors

variable {ε V : Type} {h : Hooks ε V} {bad : List Char → Prop} {clean : Tree → Prop} {e : ε}
  {depth : Nat} {s : List Char}

theorem scanNumber_eq_none {c : Char} (hminus : c ≠ '-') (hdigit : c.isDigit = false) (s : List Char) :
    scanNumber h (c :: s) = none := by
  have hzero : c ≠ '0' := by
    rintro rfl
    exact absurd hdigit (by decide)
  unfold scanNumber scanUnsigned scanInteger
  simp [hminus, hdigit, hzero]

theorem scanOnce_ok_iff (hclean : ∀ t, clean t ↔ ∃ v, t.build h = .ok v) (fuel : Nat)
    (hf : 2 * s.length + 1 ≤ fuel) {rest : List Char} :
    (∃ v, scanOnce h fuel depth s = .ok (v, rest)) ↔ ∃ t, readTree (ε := ε) depth s = .ok (t, rest) ∧ clean t := by
  have hfollows := (scan_follows h fuel).1 depth s
  rw [scanOnce_tree_eq fuel depth s hf] at hfollows
  constructor
  · rintro ⟨v, hv⟩
    rw [hv] at hfollows
    cases hread : readTree (ε := ε) depth s with
    | error x =>
      rw [hread] at hfollows
      rcases hfollows with hfollows | ⟨x', hfollows⟩ <;> simp at hfollows
    | ok r =>
      rw [hread] at hfollows
      obtain ⟨t, rest'⟩ := r
      cases hbuild : t.build h with
      | error x =>
        have hno := hfollows.trans (built_error hbuild)
        simp at hno
      | ok w =>
        have heq := hfollows.trans (built_ok hbuild)
        obtain ⟨-, rfl⟩ := Prod.mk.inj (Except.ok.inj heq)
        exact ⟨t, rfl, (hclean t).mpr ⟨w, hbuild⟩⟩
  · rintro ⟨t, hread, ht⟩
    obtain ⟨v, hv⟩ := (hclean t).mp ht
    rw [hread] at hfollows
    have heq : scanOnce h fuel depth s = _ := hfollows
    exact ⟨v, heq.trans (built_ok hv)⟩

theorem map_eq_error_iff {α β ε' : Type} {r : Except ε' α} {f : α → β} {x : ε'} :
    r.map f = .error x ↔ r = .error x := by
  cases r <;> simp [Except.map]

theorem bind_eq_error_iff {α β ε' : Type} {r : Except ε' α} {k : α → Except ε' β} {x : ε'} :
    r.bind k = .error x ↔ r = .error x ∨ ∃ a, r = .ok a ∧ k a = .error x := by
  cases r <;> simp [Except.bind]

theorem mapError_eq_hook_iff {α : Type} {r : Except ε α} :
    r.mapError DecodeError.hook = .error (.hook e) ↔ r = .error e := by
  cases r <;> simp [Except.mapError]

/-- An object raises what its members raise. -/
theorem object_eq_error_iff (hobject : ∀ pairs, h.object pairs ≠ .error e)
    {r : Except (DecodeError ε) (List (Text × V) × List Char)} :
    r.bind (fun r => ((h.object r.1).mapError .hook).map (fun v => (v, r.2))) = .error (.hook e) ↔
      r = .error (.hook e) := by
  rw [bind_eq_error_iff]
  refine or_iff_left ?_
  rintro ⟨a, -, ha⟩
  rw [map_eq_error_iff, mapError_eq_hook_iff] at ha
  exact hobject _ ha

/-- No value begins with a bracket that closes. -/
theorem not_comes_elements_close (rest : List Char) : ¬Comes ε bad clean .elements depth (']' :: rest) := by
  intro hcomes
  cases hcomes with
  | element hvalue =>
    cases hvalue with
    | literal hnumber =>
      rw [scanNumber_eq_none (by decide) (by decide)] at hnumber
      simp at hnumber
  | later hread =>
    rw [readTree, scanOnce_atom (by decide) (by decide) (by decide), scanAtom,
      scanNumber_eq_none (by decide) (by decide)] at hread
    simp [constants] at hread

/-- Where only integers raise an error, an atom raises it when it is a bad integer. -/
theorem scanAtom_eq_error_iff (hint : ∀ text, h.int text = .error e ↔ bad text)
    (hconstant : ∀ name, h.constant name ≠ .error e) :
    scanAtom h s = .error (.hook e) ↔
      ∃ text rest, scanNumber (treeHooks ε) s = some (.ok (.int text), rest) ∧ bad text := by
  have hletter : ∀ c name, c ≠ '-' → c.isDigit = false → c :: name <+: s → scanNumber (treeHooks ε) s = none := by
    rintro c name hminus hdigit ⟨t, rfl⟩
    exact scanNumber_eq_none hminus hdigit _
  unfold scanAtom
  split_ifs with hnull htrue hfalse
  · simp [hletter _ _ (by decide) (by decide) hnull]
  · simp [hletter _ _ (by decide) (by decide) htrue]
  · simp [hletter _ _ (by decide) (by decide) hfalse]
  · rw [scanNumber_eq h]
    cases hnumber : scanNumber (treeHooks ε) s with
    | some r =>
      simp only [Option.map_some, map_eq_error_iff]
      obtain ⟨text, rest, rfl | rfl⟩ := scanNumber_tree_ok hnumber
      · rw [mapError_eq_hook_iff]
        show h.int text = .error e ↔ _
        rw [hint]
        constructor
        · exact fun hbad => ⟨text, rest, rfl, hbad⟩
        · rintro ⟨text', rest', heq, hbad⟩
          simp only [Option.some.injEq, Prod.mk.injEq, Except.ok.injEq, Tree.int.injEq] at heq
          exact heq.1 ▸ hbad
      · rw [mapError_eq_hook_iff]
        show (Except.ok _ : Except ε V) = _ ↔ _
        simp
    | none =>
      simp only [Option.map_none, reduceCtorEq, false_and, exists_false, iff_false]
      split
      · rw [map_eq_error_iff, mapError_eq_hook_iff]
        exact hconstant _
      · simp

/-- A value whose first character begins no container is bad exactly as an atom. -/
theorem comes_atom_iff {c : Char} (harray : c ≠ '[') (hobject : c ≠ '\x7b') :
    Comes ε bad clean .value depth (c :: s) ↔
      ∃ text rest, scanNumber (treeHooks ε) (c :: s) = some (.ok (.int text), rest) ∧ bad text := by
  constructor
  · intro hcomes
    cases hcomes with
    | literal hnumber hbad => exact ⟨_, _, hnumber, hbad⟩
    | array _ => exact absurd rfl harray
    | object _ => exact absurd rfl hobject
  · rintro ⟨text, rest, hnumber, hbad⟩
    exact .literal hnumber hbad

theorem comes_array_iff :
    Comes ε bad clean .value (depth + 1) ('[' :: s) ↔ Comes ε bad clean .elements depth (skipSpace s) := by
  refine ⟨fun hcomes => ?_, .array⟩
  cases hcomes with
  | literal hnumber =>
    rw [scanNumber_eq_none (by decide) (by decide)] at hnumber
    simp at hnumber
  | array h => exact h

theorem comes_object_iff :
    Comes ε bad clean .value (depth + 1) ('\x7b' :: s) ↔ Comes ε bad clean .members depth (skipSpace s) := by
  refine ⟨fun hcomes => ?_, .object⟩
  cases hcomes with
  | literal hnumber =>
    rw [scanNumber_eq_none (by decide) (by decide)] at hnumber
    simp at hnumber
  | object h => exact h

theorem not_comes_zero_depth {c : Char} (hc : c = '[' ∨ c = '\x7b') : ¬Comes ε bad clean .value 0 (c :: s) := by
  intro hcomes
  cases hcomes with
  | literal hnumber =>
    rw [scanNumber_eq_none (by rcases hc with rfl | rfl <;> decide) (by rcases hc with rfl | rfl <;> decide)]
      at hnumber
    simp at hnumber

/-- What a scan that is read takes off the text. -/
theorem length_lt_of_readTree {t : Tree} {rest : List Char} (hread : readTree (ε := ε) depth s = .ok (t, rest)) :
    rest.length < s.length :=
  ((scan_takes _).1 depth s le_rfl).2 t rest hread

/-- Where only integers raise an error, the decoder raises it exactly when it comes to a
bad one. -/
theorem scan_eq_error_iff (hint : ∀ text, h.int text = .error e ↔ bad text)
    (hclean : ∀ t, clean t ↔ ∃ v, t.build h = .ok v) (hconstant : ∀ name, h.constant name ≠ .error e)
    (hobject : ∀ pairs, h.object pairs ≠ .error e) (fuel : Nat) :
    (∀ depth s, 2 * s.length + 1 ≤ fuel →
        (scanOnce h fuel depth s = .error (.hook e) ↔ Comes ε bad clean .value depth s)) ∧
      (∀ depth s, 2 * s.length + 2 ≤ fuel →
        (scanElements h fuel depth s = .error (.hook e) ↔ Comes ε bad clean .elements depth s)) ∧
      ∀ depth s, 2 * s.length + 2 ≤ fuel →
        (scanMembers h fuel depth s = .error (.hook e) ↔ Comes ε bad clean .members depth s) := by
  induction fuel with
  | zero => exact ⟨fun _ _ hf => by omega, fun _ _ hf => by omega, fun _ _ hf => by omega⟩
  | succ fuel ih =>
    obtain ⟨ihonce, ihelements, ihmembers⟩ := ih
    refine ⟨fun depth s hf => ?_, fun depth s hf => ?_, fun depth s hf => ?_⟩
    · cases s with
      | nil =>
        rw [scanOnce.eq_def]
        refine ⟨fun hs => by simp at hs, fun hcomes => ?_⟩
        cases hcomes with
        | literal hnumber => simp [scanNumber] at hnumber
      | cons c rest =>
        have hspace := length_skipSpace_le rest
        rw [List.length_cons] at hf
        rw [scanOnce_cons]
        by_cases hquote : c = '"'
        · subst hquote
          rw [if_pos rfl, comes_atom_iff (by decide) (by decide), scanNumber_eq_none (by decide) (by decide)]
          cases scanString rest <;> simp
        · rw [if_neg hquote]
          by_cases harray : c = '['
          · subst harray
            rw [if_pos rfl]
            cases depth with
            | zero => simp [not_comes_zero_depth (Or.inl rfl)]
            | succ depth =>
              rw [comes_array_iff]
              dsimp only
              split
              · rename_i u heq
                simp [heq, not_comes_elements_close]
              · rw [map_eq_error_iff]
                exact ihelements _ _ (by omega)
          · rw [if_neg harray]
            by_cases hbrace : c = '\x7b'
            · subst hbrace
              rw [if_pos rfl]
              cases depth with
              | zero => simp [not_comes_zero_depth (Or.inr rfl)]
              | succ depth =>
                rw [comes_object_iff]
                dsimp only
                rw [object_eq_error_iff hobject]
                split
                · rename_i u heq
                  rw [heq]
                  refine ⟨fun hs => by simp at hs, fun hcomes => ?_⟩
                  cases hcomes
                · exact ihmembers _ _ (by omega)
            · rw [if_neg hbrace, scanAtom_eq_error_iff hint hconstant, comes_atom_iff harray hbrace]
    · rw [scanElements.eq_def]
      dsimp only
      rw [bind_eq_error_iff, ihonce depth s (by omega)]
      constructor
      · rintro (hcomes | ⟨⟨v, rest⟩, hv, hr⟩)
        · exact .element hcomes
        · obtain ⟨t, hread, ht⟩ := (scanOnce_ok_iff hclean fuel (by omega)).mp ⟨v, hv⟩
          have hlt := length_lt_of_readTree hread
          have hspace := length_skipSpace_le rest
          dsimp only at hr
          split at hr
          · simp at hr
          · rename_i u heq
            rw [heq, List.length_cons] at hspace
            have hskip := length_skipSpace_le u
            rw [map_eq_error_iff, ihelements _ _ (by omega)] at hr
            exact .later hread ht heq hr
          · simp at hr
      · intro hcomes
        cases hcomes with
        | element hcomes => exact Or.inl hcomes
        | @later _ _ rest tail t hread ht hcomma htail =>
          have hlt := length_lt_of_readTree hread
          have hspace := length_skipSpace_le rest
          rw [hcomma, List.length_cons] at hspace
          have hskip := length_skipSpace_le tail
          obtain ⟨v, hv⟩ := (scanOnce_ok_iff hclean fuel (by omega)).mpr ⟨t, hread, ht⟩
          refine Or.inr ⟨(v, rest), hv, ?_⟩
          dsimp only
          rw [hcomma]
          show (scanElements h fuel depth (skipSpace tail)).map _ = _
          rw [map_eq_error_iff, ihelements _ _ (by omega)]
          exact htail
    · rw [scanMembers.eq_def]
      dsimp only
      cases s with
      | nil => exact ⟨fun hs => by simp at hs, fun hcomes => by cases hcomes⟩
      | cons c rest =>
        rw [List.length_cons] at hf
        dsimp only
        by_cases hquote : c ≠ '"'
        · rw [if_pos hquote]
          refine ⟨fun hs => by simp at hs, fun hcomes => ?_⟩
          cases hcomes <;> exact absurd rfl hquote
        · rw [if_neg hquote]
          obtain rfl := not_not.mp hquote
          cases hscan : scanString rest with
          | none =>
            refine ⟨fun hs => by simp at hs, fun hcomes => ?_⟩
            cases hcomes with
            | member hkey => simp [hscan] at hkey
            | laterMember hkey => simp [hscan] at hkey
          | some x =>
            obtain ⟨key, rest'⟩ := x
            have hlt := length_lt_of_scanString hscan
            have hspace := length_skipSpace_le rest'
            dsimp only
            split
            · rename_i u hcolon
              rw [hcolon, List.length_cons] at hspace
              have hskip := length_skipSpace_le u
              rw [bind_eq_error_iff, ihonce depth _ (by omega)]
              constructor
              · rintro (hcomes | ⟨⟨v, rest⟩, hv, hr⟩)
                · exact .member hscan hcolon hcomes
                · obtain ⟨t, hread, ht⟩ := (scanOnce_ok_iff hclean fuel (by omega)).mp ⟨v, hv⟩
                  have hlt' := length_lt_of_readTree hread
                  have hspace' := length_skipSpace_le rest
                  dsimp only at hr
                  split at hr
                  · simp at hr
                  · rename_i w heq
                    rw [heq, List.length_cons] at hspace'
                    have hskip' := length_skipSpace_le w
                    rw [map_eq_error_iff, ihmembers _ _ (by omega)] at hr
                    exact .laterMember hscan hcolon hread ht heq hr
                  · simp at hr
              · intro hcomes
                cases hcomes with
                | member hkey hcolon' hcomes =>
                  obtain ⟨-, rfl⟩ := Prod.mk.inj (Option.some.inj (hscan.symm.trans hkey))
                  obtain ⟨-, rfl⟩ := List.cons.inj (hcolon.symm.trans hcolon')
                  exact Or.inl hcomes
                | @laterMember _ _ _ _ rest tail _ t hkey hcolon' hread ht hcomma htail =>
                  obtain ⟨-, rfl⟩ := Prod.mk.inj (Option.some.inj (hscan.symm.trans hkey))
                  obtain ⟨-, rfl⟩ := List.cons.inj (hcolon.symm.trans hcolon')
                  have hlt' := length_lt_of_readTree hread
                  have hspace' := length_skipSpace_le rest
                  rw [hcomma, List.length_cons] at hspace'
                  have hskip' := length_skipSpace_le tail
                  obtain ⟨v, hv⟩ := (scanOnce_ok_iff hclean fuel (by omega)).mpr ⟨t, hread, ht⟩
                  refine Or.inr ⟨(v, rest), hv, ?_⟩
                  dsimp only
                  rw [hcomma]
                  show (scanMembers h fuel depth (skipSpace tail)).map _ = _
                  rw [map_eq_error_iff, ihmembers _ _ (by omega)]
                  exact htail
            · rename_i hne
              refine ⟨fun hs => by simp at hs, fun hcomes => ?_⟩
              cases hcomes with
              | member hkey hcolon =>
                obtain ⟨-, rfl⟩ := Prod.mk.inj (Option.some.inj (hscan.symm.trans hkey))
                exact absurd hcolon (hne _)
              | laterMember hkey hcolon =>
                obtain ⟨-, rfl⟩ := Prod.mk.inj (Option.some.inj (hscan.symm.trans hkey))
                exact absurd hcolon (hne _)

/-- On a text without a byte order mark, the same of the whole decoder. -/
theorem loads_eq_error_iff (hint : ∀ text, h.int text = .error e ↔ bad text)
    (hclean : ∀ t, clean t ↔ ∃ v, t.build h = .ok v) (hconstant : ∀ name, h.constant name ≠ .error e)
    (hobject : ∀ pairs, h.object pairs ≠ .error e) (limit : Nat) (s : List Char) :
    loads h limit s = .error (.hook e) ↔
      s.head? ≠ some '\ufeff' ∧ Comes ε bad clean .value limit (skipSpace s) := by
  have hspace := length_skipSpace_le s
  unfold loads
  by_cases hbom : s.head? = some '\ufeff'
  · simp [hbom]
  · rw [if_neg hbom, bind_eq_error_iff,
      (scan_eq_error_iff hint hclean hconstant hobject _).1 limit (skipSpace s) (by omega)]
    refine ⟨?_, fun hcomes => Or.inl hcomes.2⟩
    rintro (hcomes | ⟨r, -, hr⟩)
    · exact ⟨hbom, hcomes⟩
    · split_ifs at hr
      simp at hr

/-- What the decoder gives is built from the tree of the text. -/
theorem loads_ok {limit : Nat} {v : V} (hv : loads h limit s = .ok v) :
    ∃ t, loads (treeHooks ε) limit s = .ok t ∧ t.build h = .ok v := by
  have hfollows := (scan_follows h (2 * s.length + 2)).1 limit (skipSpace s)
  unfold loads at hv ⊢
  by_cases hbom : s.head? = some '\ufeff'
  · simp [hbom] at hv
  · rw [if_neg hbom] at hv ⊢
    cases hscan : scanOnce h (2 * s.length + 2) limit (skipSpace s) with
    | error x =>
      rw [hscan] at hv
      simp [Except.bind] at hv
    | ok r =>
      obtain ⟨w, rest⟩ := r
      rw [hscan] at hv hfollows
      dsimp only [Except.bind] at hv
      split_ifs at hv with hrest
      obtain rfl := Except.ok.inj hv
      cases htree : scanOnce (treeHooks ε) (2 * s.length + 2) limit (skipSpace s) with
      | error x =>
        rw [htree] at hfollows
        rcases hfollows with hfollows | ⟨x', hfollows⟩ <;> simp at hfollows
      | ok r =>
        obtain ⟨t, rest'⟩ := r
        rw [htree] at hfollows
        cases hbuild : t.build h with
        | error x =>
          have hno := hfollows.trans (built_error hbuild)
          simp at hno
        | ok u =>
          have heq := hfollows.trans (built_ok hbuild)
          obtain ⟨rfl, rfl⟩ := Prod.mk.inj (Except.ok.inj heq)
          exact ⟨t, by simp [Except.bind, hrest], hbuild⟩

end errors

end scans

end Json
