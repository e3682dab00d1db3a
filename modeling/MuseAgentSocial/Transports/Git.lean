import Mathlib.Data.List.DropRight
import Mathlib.Data.List.Nodup
import MuseAgentSocial.Policy.Limits

/-!
# The git relay transport

A model of `transports/github.py` and of the parts of `transports/base.py`
and `transports/local.py` it uses, for one direction of one relationship.

* The relay is the growing list of the trees its branch has pointed at.
  A head marker is a number: `0` is the empty marker of a branch that does
  not exist yet, and `k + 1` is the `k`-th commit.
* The mutation queue is the list of the queued rows of
  `transport_mutations`.  `replayQueued` applies them to a clean tree.
* `listNewNames` is `_list_new_names_locked`: the names added or modified
  since a marker, or the whole tree when there is no usable marker.
* `fetchNewStream` is the loop of `fetch_new_stream` over a visitor with an
  explicit state.  A name whose size or content cannot be read is passed
  over, exactly as the source's `continue` does.

The peer only adds objects, and only under names that no earlier tree had
(`new_object_name` draws 24 random bytes).  `git diff` would pair a path that
is removed between two commits with one that is added with the same bytes,
and list neither.  A marker is stored only while the queue is empty, so what
this side has consumed is gone from the tree of the marker already, and no
path of it is removed later.
-/

namespace MuseAgentSocial.Transports

open Policy

/-! ## Object names and trees -/

/-- A file name below `incoming/`. -/
abbrev ObjectName := List Char

/-- The bytes of a relay object. -/
abbrev Blob := List UInt8

/-- The character class of a relay object name. -/
def isNameChar (c : Char) : Bool :=
  c.isAlphanum || c == '_' || c == '-'

/-- 32 base64url characters and `.json`. -/
def isObjectName (name : ObjectName) : Bool :=
  (name.take 32).length == 32 && (name.take 32).all isNameChar &&
    name.drop 32 == ['.', 'j', 's', 'o', 'n']

/-- `OBJECT_NAME_RE.match`.  Its `$` matches before a newline at the end as
well. -/
def objectNameRe (name : ObjectName) : Bool :=
  isObjectName name || (name.getLast? == some '\n' && isObjectName name.dropLast)

/-- `entry.strip()` on a listed path.  Of the characters that `strip`
removes, `git` prints only the space without quoting the path. -/
def strip (entry : ObjectName) : ObjectName :=
  entry.rdropWhile (· == ' ')

theorem strip_of_isObjectName {n : ObjectName} (h : isObjectName n = true) : strip n = n := by
  simp only [isObjectName, Bool.and_eq_true, beq_iff_eq] at h
  rw [← List.take_append_drop 32 n, h.2, strip,
    show n.take 32 ++ ['.', 'j', 's', 'o', 'n'] = (n.take 32 ++ ['.', 'j', 's', 'o']) ++ ['n']
      by simp]
  exact List.rdropWhile_concat_neg _ _ _ (by decide)

theorem toNat_of_isNameChar {c : Char} (h : isNameChar c = true) : 45 ≤ c.toNat ∧ c.toNat ≤ 122 ∧ c.toNat ≠ 92 := by
  unfold isNameChar at h
  delta Char.isAlphanum Char.isAlpha Char.isUpper Char.isLower Char.isDigit at h
  simp only [Bool.or_eq_true, Bool.and_eq_true, decide_eq_true_eq, beq_iff_eq, ge_iff_le, UInt32.le_iff_toNat_le] at h
  have hc : c.toNat = c.val.toNat := rfl
  rcases h with ((((⟨hlow, hhigh⟩ | ⟨hlow, hhigh⟩) | ⟨hlow, hhigh⟩) | rfl) | rfl)
  · change (65 : Nat) ≤ c.val.toNat at hlow
    change c.val.toNat ≤ 90 at hhigh
    omega
  · change (97 : Nat) ≤ c.val.toNat at hlow
    change c.val.toNat ≤ 122 at hhigh
    omega
  · change (48 : Nat) ≤ c.val.toNat at hlow
    change c.val.toNat ≤ 57 at hhigh
    omega
  · decide
  · decide

/-- The characters that `git` quotes. -/
def isQuotedChar (c : Char) : Bool :=
  c.toNat < 32 || c == '"' || c == '\\' || 127 ≤ c.toNat

/-- Whether `git` prints a path in quotes, with which the line then starts. -/
def isQuoted (path : ObjectName) : Bool :=
  path.any isQuotedChar

/-- The listed paths that pass the checks of the stream.  One with a newline at
the end is printed in quotes. -/
theorem listed_iff (entry : ObjectName) :
    isQuoted entry = false ∧ objectNameRe (strip entry) = true ↔ isObjectName (strip entry) = true := by
  have hsplit : strip entry ++ entry.rtakeWhile (· == ' ') = entry := List.rdropWhile_append_rtakeWhile
  constructor
  · rintro ⟨hquoted, hname⟩
    rw [objectNameRe, Bool.or_eq_true, Bool.and_eq_true, beq_iff_eq] at hname
    obtain hname | ⟨hlast, -⟩ := hname
    · exact hname
    · have hmem : '\n' ∈ entry := hsplit ▸ List.mem_append_left _ (List.mem_of_getLast? hlast)
      exact absurd (List.any_eq_false.mp hquoted _ hmem) (by decide)
  · intro hname
    refine ⟨List.any_eq_false.mpr (fun c hc => ?_), by rw [objectNameRe, hname, Bool.true_or]⟩
    simp only [isObjectName, Bool.and_eq_true, beq_iff_eq] at hname
    rw [← hsplit, List.mem_append, ← List.take_append_drop 32 (strip entry), List.mem_append, hname.2] at hc
    obtain (hc | hc) | hc := hc
    · obtain ⟨hlow, hhigh, hne⟩ := toNat_of_isNameChar (List.all_eq_true.mp hname.1.2 c hc)
      have hquote : c ≠ '"' := fun h => absurd hlow (h ▸ by decide)
      have hback : c ≠ '\\' := fun h => hne (h ▸ by decide)
      have hascii : ¬127 ≤ c.toNat := by omega
      have hcontrol : ¬c.toNat < 32 := by omega
      simp [isQuotedChar, hquote, hback, hascii, hcontrol]
    · have hsuffix : ['.', 'j', 's', 'o', 'n'].all (fun c => !isQuotedChar c) = true := rfl
      simpa using List.all_eq_true.mp hsuffix c hc
    · have hspace : (c == ' ') = true := List.mem_rtakeWhile_imp (p := (· == ' ')) hc
      rw [beq_iff_eq.mp hspace]
      decide

/-- The listed paths that the stream passes over. -/
theorem passed_iff (entry : ObjectName) :
    isQuoted entry = true ∨ objectNameRe (strip entry) = false ↔ isObjectName (strip entry) = false := by
  rw [← Bool.not_eq_true (isObjectName _), ← listed_iff, not_and_or, Bool.not_eq_false, Bool.not_eq_true]

/-- The `incoming/` directory of one commit: no path occurs twice. -/
structure Tree where
  /-- The paths and their contents. -/
  entries : List (ObjectName × Blob)
  /-- A tree has each path once. -/
  nodup : (entries.map Prod.fst).Nodup

namespace Tree

/-- The tree without files. -/
def empty : Tree := ⟨[], List.nodup_nil⟩

/-- The paths of a tree. -/
def names (t : Tree) : List ObjectName := t.entries.map Prod.fst

/-- The content at a path, as `git cat-file` finds it. -/
def get (t : Tree) (n : ObjectName) : Option Blob := t.entries.lookup n

/-- Remove a path. -/
def erase (t : Tree) (n : ObjectName) : Tree where
  entries := t.entries.filter (fun e => e.1 != n)
  nodup := (t.nodup.sublist (List.filter_sublist.map Prod.fst))

/-- Write a path, replacing its content. -/
def write (t : Tree) (n : ObjectName) (b : Blob) : Tree where
  entries := (t.erase n).entries ++ [(n, b)]
  nodup := by
    rw [List.map_append, List.nodup_append]
    refine ⟨(t.erase n).nodup, by simp, ?_⟩
    intro a ha c hc
    simp only [erase, List.mem_map, List.mem_filter] at ha
    obtain ⟨e, ⟨_, hne⟩, rfl⟩ := ha
    simp only [List.map_cons, List.map_nil, List.mem_singleton] at hc
    subst hc
    simpa using hne

theorem get_eq_some_iff (t : Tree) (n : ObjectName) (b : Blob) :
    t.get n = some b ↔ (n, b) ∈ t.entries := by
  obtain ⟨entries, nodup⟩ := t
  simp only [get]
  induction entries with
  | nil => simp
  | cons e entries ih =>
    obtain ⟨m, c⟩ := e
    simp only [List.map_cons, List.nodup_cons] at nodup
    by_cases hm : n = m
    · subst hm
      have habs : (n, b) ∉ entries := fun h =>
        nodup.1 (List.mem_map.mpr ⟨_, h, rfl⟩)
      simp [habs, eq_comm]
    · have hne : (n == m) = false := by simpa using hm
      simp [List.lookup_cons, hne, hm, ih nodup.2]

theorem mem_names_of_get {t : Tree} {n : ObjectName} {b : Blob}
    (h : t.get n = some b) : n ∈ t.names :=
  List.mem_map.mpr ⟨_, (t.get_eq_some_iff n b).mp h, rfl⟩

/-- What `erase` leaves was there before. -/
theorem get_of_get_erase {t : Tree} {m n : ObjectName} {b : Blob}
    (h : (t.erase m).get n = some b) : t.get n = some b := by
  rw [get_eq_some_iff] at h ⊢
  exact (List.mem_filter.mp h).1

/-- `erase` removes only the path it names. -/
theorem get_erase_of_ne {t : Tree} {m n : ObjectName} {b : Blob}
    (h : t.get n = some b) (hne : n ≠ m) : (t.erase m).get n = some b := by
  rw [get_eq_some_iff] at h ⊢
  exact List.mem_filter.mpr ⟨h, by simpa using hne⟩

end Tree

/-! ## The relay -/

/-- The trees the relay branch has pointed at, oldest first. -/
abbrev Relay := List Tree

namespace Relay

/-- The marker `git ls-remote` reports: `0` when the branch does not exist. -/
def head (r : Relay) : Nat := r.length

/-- The tree a marker names. -/
def treeAt (r : Relay) (h : Nat) : Tree :=
  match h with
  | 0 => Tree.empty
  | k + 1 => (r[k]?).getD Tree.empty

/-- The tree at the tip of the branch. -/
def tip (r : Relay) : Tree := r.treeAt r.head

/-- Every path that some tree of the relay has had. -/
def usedNames (r : Relay) : List ObjectName := r.flatMap Tree.names

/-- A later commit does not change the tree of an earlier marker. -/
theorem treeAt_append (r : Relay) (t : Tree) {h : Nat} (hh : h ≤ r.head) :
    treeAt (r ++ [t]) h = treeAt r h := by
  cases h with
  | zero => rfl
  | succ k =>
    have hk : k < r.length := hh
    simp only [treeAt, List.getElem?_append_left hk]

/-- The tip after a commit is the committed tree. -/
theorem treeAt_append_last (r : Relay) (t : Tree) :
    treeAt (r ++ [t]) (r.length + 1) = t := by
  simp [treeAt]

end Relay

/-! ## Errors -/

/-- The codes of `TransportError`. -/
inductive TransportCode where
  | lock_timeout
  | rotation_required
  | object_too_large
  | config_error
  | schema_error
  | clone_failed
  | fetch_failed
  | ls_remote_failed
  | git_timeout
  | reset_failed
  | commit_failed
  | push_failed
  | push_non_fast_forward
  | push_rate_limited
  | repo_size_blocked
  deriving DecidableEq, Repr

/-- A transport failure with its code. -/
structure TransportError where
  code : TransportCode
  retryable : Bool
  deriving DecidableEq, Repr

/-- `TransportError.exit_code`. -/
def TransportError.exitCode (e : TransportError) : Nat :=
  match e.code with
  | .lock_timeout => 22
  | .rotation_required | .object_too_large | .config_error | .schema_error => 21
  | _ => if e.retryable then 20 else 21

/-! ## The mutation queue -/

/-- One queued row of `transport_mutations`. -/
inductive Mutation where
  | upload (name : ObjectName) (data : Blob)
  | consume (name : ObjectName)
  deriving DecidableEq

/-- One mutation on a clean tree.  Consuming an absent path is no error. -/
def Mutation.apply (t : Tree) : Mutation → Tree
  | .upload n b => t.write n b
  | .consume n => t.erase n

/-- `replay_queued`: the queued mutations in queue order. -/
def replayQueued (queue : List Mutation) (t : Tree) : Tree :=
  queue.foldl Mutation.apply t

/-! ## Listing -/

/-- `_list_new_names_locked` after a successful fetch whose branch tip is
`ref`.  `diffOk` is the exit status of `git diff`: a failing diff falls back
to the whole tree.  The marker is usable when it is not empty and the mirror
has its commit. -/
def listNewNames (r : Relay) (since ref : Nat) (diffOk : Bool) : List ObjectName :=
  let tree := r.treeAt ref
  if since ≠ 0 ∧ since ≤ ref ∧ diffOk = true then
    tree.names.filter (fun n => (r.treeAt since).get n != tree.get n)
  else
    tree.names

/-- A path that is in the tree but not listed has the content it had at the
marker, and the marker is not empty. -/
theorem get_since_of_not_listed {r : Relay} {since ref : Nat} {diffOk : Bool}
    {n : ObjectName} {b : Blob} (hget : (r.treeAt ref).get n = some b)
    (hnot : n ∉ listNewNames r since ref diffOk) :
    since ≠ 0 ∧ (r.treeAt since).get n = some b := by
  have hmem := Tree.mem_names_of_get hget
  unfold listNewNames at hnot
  split_ifs at hnot with hsince
  · refine ⟨hsince.1, ?_⟩
    by_contra hne
    refine hnot (List.mem_filter.mpr ⟨hmem, ?_⟩)
    rw [hget]
    simpa using hne
  · exact absurd hmem hnot

/-! ## The fetch stream -/

/-- Why a stream stopped early. -/
inductive TruncationReason where
  | object_cap
  | aggregate_bytes_cap
  | caller_stopped
  deriving DecidableEq, Repr

/-- `new_stream_stats`. -/
structure StreamStats where
  objects_streamed : Nat := 0
  bytes_streamed : Nat := 0
  truncated : Bool := false
  truncation_reason : Option TruncationReason := none
  deriving DecidableEq, Repr

/-- Stop the stream for a reason. -/
def StreamStats.truncate (s : StreamStats) (reason : TruncationReason) : StreamStats :=
  { s with truncated := true, truncation_reason := some reason }

/-- `git cat-file -s` and `git cat-file -p` on one path: `none` is a nonzero
exit status or an output that is not a number. -/
structure Reads where
  size : ObjectName → Option Nat
  content : ObjectName → Option Blob

/-- What the stream hands over for an object of `size` bytes, or `none` when
the content read fails.  An over-cap object is never read: a placeholder of
`OBJECT_MAX_BYTES + 1` bytes stands for it. -/
def deliver (reads : Reads) (name : ObjectName) (size : Nat) : Option Blob :=
  if size ≤ OBJECT_MAX_BYTES then
    reads.content name
  else
    some (List.replicate (OBJECT_MAX_BYTES + 1) 0)

/-- The bytes the aggregate bound counts for an object. -/
def deliverSize (size : Nat) : Nat :=
  if size ≤ OBJECT_MAX_BYTES then size else OBJECT_MAX_BYTES + 1

/-- The loop of `fetch_new_stream`.  The visitor keeps its own state and
returns `false` to stop. -/
def fetchNewStream {β : Type} (reads : Reads) (visit : β → ObjectName → Blob → β × Bool) :
    List ObjectName → StreamStats → β → StreamStats × β
  | [], stats, acc => (stats, acc)
  | entry :: rest, stats, acc =>
    let name := strip entry
    if isQuoted entry = true ∨ objectNameRe name = false then
      fetchNewStream reads visit rest stats acc
    else if FETCH_MAX_OBJECTS ≤ stats.objects_streamed then
      (stats.truncate .object_cap, acc)
    else
      match reads.size name with
      | none => fetchNewStream reads visit rest stats acc
      | some size =>
        if FETCH_MAX_AGGREGATE_BYTES < stats.bytes_streamed + deliverSize size then
          (stats.truncate .aggregate_bytes_cap, acc)
        else
          match deliver reads name size with
          | none => fetchNewStream reads visit rest stats acc
          | some data =>
            let stats' : StreamStats :=
              { stats with
                objects_streamed := stats.objects_streamed + 1
                bytes_streamed := stats.bytes_streamed + data.length }
            match visit acc name data with
            | (acc', false) => (stats'.truncate .caller_stopped, acc')
            | (acc', true) => fetchNewStream reads visit rest stats' acc'

end MuseAgentSocial.Transports
