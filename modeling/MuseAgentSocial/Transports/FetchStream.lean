import Mathlib
import MuseAgentSocial.Lib.Stream
import MuseAgentSocial.Transports.Git

/-!
# What a fetch stream hands over

The streams of `transports/github.py` and `transports/local.py`, for every content of
the relay, every visitor and every pattern of failing reads.

* `LocalTransport` is the model of the directory transport.  A file of the listing can
  be gone before its `stat` or before its `read_bytes`, and either call can fail with
  another `OSError`, which ends the stream without a report.
* Both loops are runs of one `Stream`: `gitOffer` and `LocalTransport.offer` say what
  each makes of one entry.
* `Complete` is what a stream owes: no object twice, the two limits, and every listed
  object when it is not truncated.
* The directory transport keeps it always.  The git transport passes over an object whose
  `cat-file` fails, and visits a name twice that is listed with and without a trailing
  space; `Kept` says when neither happens.
-/

namespace MuseAgentSocial.Transports

open Policy

/-- An object as the visitor gets it. -/
abbrev Item := ObjectName × Blob

/-- The bytes of what was handed over. -/
def bytes (items : List Item) : Nat := (items.map (fun i => i.2.length)).sum

/-- A visitor of names and contents. -/
abbrev Visitor (β : Type) := β → ObjectName → Blob → β × Bool

/-- The visitor that records what it is handed. -/
def Visitor.recorded {β : Type} (visit : Visitor β) : Visitor (β × List Item) :=
  fun s name data => Stream.recording (fun acc i => visit acc i.1 i.2) s (name, data)

/-- An object, or the bounded placeholder that stands for an oversized one. -/
def standIn (b : Blob) : Blob :=
  if b.length ≤ OBJECT_MAX_BYTES then b else List.replicate (OBJECT_MAX_BYTES + 1) 0

/-! ## The directory transport -/

/-- A call on a file: its result, `FileNotFoundError`, or another `OSError`. -/
inductive FileRead (α : Type) where
  | ok (result : α)
  | not_found
  | os_error

/-- When a listed file is consumed by somebody else. -/
inductive Gone where
  | before_stat
  | before_read
  deriving DecidableEq

/-- The `incoming/` directory of a local relay during one stream. -/
structure Directory where
  /-- The files of the listing. -/
  files : Tree
  /-- The files that do not stay until they are read. -/
  gone : ObjectName → Option Gone
  statFails : ObjectName → Bool
  readFails : ObjectName → Bool

namespace LocalTransport

/-- `path.stat().st_size`. -/
def stat (d : Directory) (name : ObjectName) : FileRead Nat :=
  if d.statFails name then .os_error
  else
    match d.gone name, d.files.get name with
    | some .before_stat, _ | _, none => .not_found
    | _, some b => .ok b.length

/-- `path.read_bytes()`. -/
def read_bytes (d : Directory) (name : ObjectName) : FileRead Blob :=
  if d.readFails name then .os_error
  else
    match d.gone name, d.files.get name with
    | some _, _ | _, none => .not_found
    | none, some b => .ok b

/-- `sorted(self.incoming.glob("*.json"))`. -/
def listing (files : Tree) : List ObjectName :=
  (files.names.filter (['.', 'j', 's', 'o', 'n'].isSuffixOf ·)).mergeSort (fun a b => decide (a ≤ b))

/-- `text.encode("ascii")`; `none` is a `UnicodeEncodeError`. -/
def encodeAscii (text : List Char) : Option Blob :=
  text.mapM (fun c => if c.toNat < 128 then some (UInt8.ofNat c.toNat) else none)

/-- What `head` digests for one file; `none` when a call raises. -/
def headEntry (d : Directory) (name : ObjectName) : Option Blob :=
  match stat d name with
  | .ok size => do
    let path ← encodeAscii name
    let digits ← encodeAscii (Nat.toDigits 10 size)
    pure (path ++ [0] ++ digits ++ [0])
  | _ => none

/-- `head()`: the digest of the sorted names and sizes. -/
def head (sha256 : Blob → List Char) (d : Directory) : Option (List Char) :=
  ((listing d.files).mapM (headEntry d)).map (fun entries => sha256 entries.flatten)

/-- The delivered content of a file of `size` bytes. -/
def deliver (d : Directory) (name : ObjectName) (size : Nat) : FileRead Blob :=
  if size ≤ OBJECT_MAX_BYTES then read_bytes d name
  else .ok (List.replicate (OBJECT_MAX_BYTES + 1) 0)

/-- The loop of `fetch_new_stream` over the sorted paths.  `none` is an `OSError` that
leaves the loop. -/
def fetchLoop {β : Type} (d : Directory) (visit : Visitor β) :
    List ObjectName → StreamStats → β → Option StreamStats × β
  | [], stats, acc => (some stats, acc)
  | name :: rest, stats, acc =>
    if FETCH_MAX_OBJECTS ≤ stats.objects_streamed then
      (some (stats.truncate .object_cap), acc)
    else
      match stat d name with
      | .os_error => (none, acc)
      | .not_found => fetchLoop d visit rest stats acc
      | .ok size =>
        if FETCH_MAX_AGGREGATE_BYTES < stats.bytes_streamed + deliverSize size then
          (some (stats.truncate .aggregate_bytes_cap), acc)
        else
          match deliver d name size with
          | .os_error => (none, acc)
          | .not_found => fetchLoop d visit rest stats acc
          | .ok data =>
            let stats' : StreamStats :=
              { stats with
                objects_streamed := stats.objects_streamed + 1
                bytes_streamed := stats.bytes_streamed + data.length }
            match visit acc name data with
            | (acc', false) => (some (stats'.truncate .caller_stopped), acc')
            | (acc', true) => fetchLoop d visit rest stats' acc'

/-- `fetch_new_stream`.  `before` is the directory when `head()` reads it. -/
def fetchNewStream {β : Type} (sha256 : Blob → List Char) (before d : Directory) (since : List Char)
    (visit : Visitor β) (acc : β) : Option StreamStats × β :=
  if since = [] then
    fetchLoop d visit (listing d.files) {} acc
  else
    match head sha256 before with
    | none => (none, acc)
    | some marker =>
      if since = marker then (some {}, acc)
      else fetchLoop d visit (listing d.files) {} acc

/-- The names a stream has to go through: none when the marker has not moved. -/
def listed (sha256 : Blob → List Char) (before d : Directory) (since : List Char) : List ObjectName :=
  if since ≠ [] ∧ head sha256 before = some since then [] else listing d.files

end LocalTransport

/-- The `cat-file` calls of one stream: a failing one, or the content in the tree. -/
def Tree.reads (t : Tree) (sizeFails readFails : ObjectName → Bool) : Reads where
  size n := if sizeFails n then none else (t.get n).map List.length
  content n := if readFails n then none else t.get n

/-! ## Both loops are streams -/

/-- The counters of a stream that has handed over `items`. -/
def tally (items : List Item) : StreamStats :=
  { objects_streamed := items.length, bytes_streamed := bytes items }

/-- The report of a stream by its end. -/
def report (items : List Item) : Stream.End TruncationReason Unit → Option StreamStats
  | .exhausted => some (tally items)
  | .refused => some ((tally items).truncate .caller_stopped)
  | .stopped reason => some ((tally items).truncate reason)
  | .failed _ => none

/-- What the git transport makes of one listed path. -/
def gitOffer (reads : Reads) (handed : List Item) (entry : ObjectName) :
    Stream.Offer Item TruncationReason Unit :=
  let name := strip entry
  if isObjectName name = false then .pass
  else if FETCH_MAX_OBJECTS ≤ handed.length then .stop .object_cap
  else
    match reads.size name with
    | none => .pass
    | some size =>
      if FETCH_MAX_AGGREGATE_BYTES < bytes handed + deliverSize size then .stop .aggregate_bytes_cap
      else
        match deliver reads name size with
        | none => .pass
        | some data => .hand (name, data)

/-- What the directory transport makes of one path. -/
def LocalTransport.offer (d : Directory) (handed : List Item) (name : ObjectName) :
    Stream.Offer Item TruncationReason Unit :=
  if FETCH_MAX_OBJECTS ≤ handed.length then .stop .object_cap
  else
    match LocalTransport.stat d name with
    | .os_error => .fail ()
    | .not_found => .pass
    | .ok size =>
      if FETCH_MAX_AGGREGATE_BYTES < bytes handed + deliverSize size then .stop .aggregate_bytes_cap
      else
        match LocalTransport.deliver d name size with
        | .os_error => .fail ()
        | .not_found => .pass
        | .ok data => .hand (name, data)

theorem bytes_append (items : List Item) (i : Item) : bytes (items ++ [i]) = bytes items + i.2.length := by
  simp [bytes]

/-- One more object in the counters. -/
theorem tally_append (items : List Item) (name : ObjectName) (data : Blob) :
    tally (items ++ [(name, data)]) =
      { tally items with
        objects_streamed := (tally items).objects_streamed + 1
        bytes_streamed := (tally items).bytes_streamed + data.length } := by
  simp [tally, bytes_append]

section Loops

variable {β : Type} (visit : Visitor β)

/-- The visitor on items. -/
def Visitor.onItems (acc : β) (i : Item) : β × Bool := visit acc i.1 i.2

theorem fetchNewStream_eq_run (reads : Reads) (names : List ObjectName) (handed : List Item) (acc : β) :
    some (fetchNewStream reads visit names (tally handed) acc).1 =
        report (Stream.run (gitOffer reads) visit.onItems names handed acc).2.1
          (Stream.run (gitOffer reads) visit.onItems names handed acc).1 ∧
      (fetchNewStream reads visit names (tally handed) acc).2 =
        (Stream.run (gitOffer reads) visit.onItems names handed acc).2.2 := by
  induction names generalizing handed acc with
  | nil => exact ⟨rfl, rfl⟩
  | cons entry rest ih =>
    rw [fetchNewStream, Stream.run, gitOffer]
    dsimp only
    simp only [passed_iff]
    by_cases hname : isObjectName (strip entry) = false
    · simp only [if_pos hname]
      exact ih handed acc
    · simp only [if_neg hname]
      by_cases hcap : FETCH_MAX_OBJECTS ≤ (tally handed).objects_streamed
      · simp only [if_pos hcap, if_pos (show FETCH_MAX_OBJECTS ≤ handed.length from hcap), report, and_self]
      · simp only [if_neg hcap, if_neg (show ¬FETCH_MAX_OBJECTS ≤ handed.length from hcap)]
        cases hsize : reads.size (strip entry) with
        | none => exact ih handed acc
        | some size =>
          dsimp only
          by_cases hagg : FETCH_MAX_AGGREGATE_BYTES < (tally handed).bytes_streamed + deliverSize size
          · simp only [if_pos hagg, if_pos (show FETCH_MAX_AGGREGATE_BYTES < bytes handed + _ from hagg), report, and_self]
          · simp only [if_neg hagg, if_neg (show ¬FETCH_MAX_AGGREGATE_BYTES < bytes handed + _ from hagg)]
            cases hdata : deliver reads (strip entry) size with
            | none => exact ih handed acc
            | some data =>
              dsimp only
              rw [← tally_append handed (strip entry)]
              cases hans : visit acc (strip entry) data with
              | mk acc' goes =>
                cases goes with
                | false => simp [Visitor.onItems, hans, report]
                | true => simpa [Visitor.onItems, hans] using ih (handed ++ [(strip entry, data)]) acc'

theorem fetchLoop_eq_run (d : Directory) (names : List ObjectName) (handed : List Item) (acc : β) :
    (LocalTransport.fetchLoop d visit names (tally handed) acc).1 =
        report (Stream.run (LocalTransport.offer d) visit.onItems names handed acc).2.1
          (Stream.run (LocalTransport.offer d) visit.onItems names handed acc).1 ∧
      (LocalTransport.fetchLoop d visit names (tally handed) acc).2 =
        (Stream.run (LocalTransport.offer d) visit.onItems names handed acc).2.2 := by
  induction names generalizing handed acc with
  | nil => exact ⟨rfl, rfl⟩
  | cons name rest ih =>
    rw [LocalTransport.fetchLoop, Stream.run, LocalTransport.offer]
    dsimp only
    by_cases hcap : FETCH_MAX_OBJECTS ≤ (tally handed).objects_streamed
    · simp only [if_pos hcap, if_pos (show FETCH_MAX_OBJECTS ≤ handed.length from hcap), report, and_self]
    · simp only [if_neg hcap, if_neg (show ¬FETCH_MAX_OBJECTS ≤ handed.length from hcap)]
      cases hsize : LocalTransport.stat d name with
      | os_error => exact ⟨rfl, rfl⟩
      | not_found => exact ih handed acc
      | ok size =>
        dsimp only
        by_cases hagg : FETCH_MAX_AGGREGATE_BYTES < (tally handed).bytes_streamed + deliverSize size
        · simp only [if_pos hagg, if_pos (show FETCH_MAX_AGGREGATE_BYTES < bytes handed + _ from hagg), report, and_self]
        · simp only [if_neg hagg, if_neg (show ¬FETCH_MAX_AGGREGATE_BYTES < bytes handed + _ from hagg)]
          cases hdata : LocalTransport.deliver d name size with
          | os_error => exact ⟨rfl, rfl⟩
          | not_found => exact ih handed acc
          | ok data =>
            dsimp only
            rw [← tally_append handed name]
            cases hans : visit acc name data with
            | mk acc' goes =>
              cases goes with
              | false => simp [Visitor.onItems, hans, report]
              | true => simpa [Visitor.onItems, hans] using ih (handed ++ [(name, data)]) acc'

end Loops

/-! ## What the git transport serves -/

/-- What both `cat-file` calls give for a name, without any limit. -/
def served (reads : Reads) (name : ObjectName) : Option Item :=
  match reads.size name with
  | none => none
  | some size => (deliver reads name size).map (fun data => (name, data))

/-- The limits leave room for an object after `handed`. -/
def WithinLimits (reads : Reads) (handed : List Item) (name : ObjectName) : Prop :=
  handed.length < FETCH_MAX_OBJECTS ∧
    ∀ size, reads.size name = some size → bytes handed + deliverSize size ≤ FETCH_MAX_AGGREGATE_BYTES

/-- What is served for a list of paths. -/
def items (reads : Reads) (paths : List ObjectName) : List Item :=
  paths.filterMap (fun e => if isObjectName (strip e) then served reads (strip e) else none)

variable {i : Item} {n : ObjectName} {d : Directory}

section Git

variable {β : Type} {reads : Reads} {visit : Visitor β} {acc : β} {handed : List Item}
  {e : ObjectName} {paths : List ObjectName}

theorem gitOffer_of_invalid (h : isObjectName (strip e) = false) : gitOffer reads handed e = .pass := by
  rw [gitOffer]
  simp only [if_pos h]

theorem gitOffer_of_limits (h : isObjectName (strip e) = true) (hw : WithinLimits reads handed (strip e)) :
    gitOffer reads handed e =
      match served reads (strip e) with
      | none => .pass
      | some i => .hand i := by
  rw [gitOffer, served]
  simp only [h, Bool.true_eq_false, if_false, if_neg (show ¬FETCH_MAX_OBJECTS ≤ handed.length from not_le.mpr hw.1)]
  cases hsize : reads.size (strip e) with
  | none => rfl
  | some size =>
    have hagg := hw.2 size hsize
    simp only [if_neg (not_lt.mpr hagg)]
    cases deliver reads (strip e) size <;> rfl

theorem gitOffer_of_not_limits (h : isObjectName (strip e) = true) (hw : ¬WithinLimits reads handed (strip e)) :
    ∃ reason, gitOffer reads handed e = .stop reason := by
  rw [gitOffer]
  simp only [h, Bool.true_eq_false, if_false]
  by_cases hcap : FETCH_MAX_OBJECTS ≤ handed.length
  · exact ⟨.object_cap, if_pos hcap⟩
  · simp only [if_neg hcap]
    cases hsize : reads.size (strip e) with
    | none => exact absurd ⟨not_le.mp hcap, by simp [hsize]⟩ hw
    | some size =>
      by_cases hagg : FETCH_MAX_AGGREGATE_BYTES < bytes handed + deliverSize size
      · exact ⟨.aggregate_bytes_cap, if_pos hagg⟩
      · refine absurd ⟨not_le.mp hcap, ?_⟩ hw
        intro size' hsize'
        rw [hsize] at hsize'
        obtain rfl := Option.some.inj hsize'
        exact not_lt.mp hagg

theorem gitOffer_hand (h : gitOffer reads handed e = .hand i) :
    isObjectName (strip e) = true ∧ WithinLimits reads handed (strip e) ∧ served reads (strip e) = some i := by
  by_cases hname : isObjectName (strip e) = true
  · by_cases hw : WithinLimits reads handed (strip e)
    · rw [gitOffer_of_limits hname hw] at h
      cases hserved : served reads (strip e) with
      | none => simp [hserved] at h
      | some j =>
        simp only [hserved, Stream.Offer.hand.injEq] at h
        exact ⟨hname, hw, by rw [h]⟩
    · obtain ⟨reason, hstop⟩ := gitOffer_of_not_limits hname hw
      simp [hstop] at h
  · rw [gitOffer_of_invalid (by simpa using hname)] at h
    simp at h

theorem served_fst {name : ObjectName} (h : served reads name = some i) : i.1 = name := by
  rw [served] at h
  cases hsize : reads.size name with
  | none => simp [hsize] at h
  | some size =>
    simp only [hsize, Option.map_eq_some_iff] at h
    obtain ⟨data, _, rfl⟩ := h
    rfl

variable (reads visit acc) in
/-- The stream goes on after `paths` past `e`: the limits leave room for it, and the
visitor takes it when it is served. -/
def GoesOn (paths : List ObjectName) (e : ObjectName) : Prop :=
  isObjectName (strip e) = true →
    WithinLimits reads (items reads paths) (strip e) ∧
      ∀ i, served reads (strip e) = some i →
        (visit.onItems ((items reads paths).foldl (fun s j => (visit.onItems s j).1) acc) i).2 = true

variable (reads visit acc) in
/-- The stream gets past the paths. -/
inductive Reaches : List ObjectName → Prop where
  | start : Reaches []
  | next {paths : List ObjectName} {e : ObjectName} (h : Reaches paths) (hgo : GoesOn reads visit acc paths e) :
    Reaches (paths ++ [e])

theorem items_append (paths : List ObjectName) (e : ObjectName) :
    items reads (paths ++ [e]) =
      items reads paths ++ (if isObjectName (strip e) then served reads (strip e) else none).toList := by
  rw [items, List.filterMap_append]
  cases h : (if isObjectName (strip e) then served reads (strip e) else none) <;> simp [h, items]

/-- A stream that gets past its paths hands over what is served. -/
theorem Reaches.run (h : Reaches reads visit acc paths) :
    Stream.run (gitOffer reads) visit.onItems paths [] acc =
      (.exhausted, items reads paths, (items reads paths).foldl (fun s j => (visit.onItems s j).1) acc) := by
  induction h with
  | start => rfl
  | @next paths e _ hgo ih =>
    rw [Stream.run_append (by rw [ih]), ih, items_append]
    dsimp only
    by_cases hname : isObjectName (strip e) = true
    · obtain ⟨hw, hkeep⟩ := hgo hname
      simp only [Stream.run, gitOffer_of_limits hname hw, hname, if_true]
      cases hserved : served reads (strip e) with
      | none => simp
      | some i => simp [hkeep i hserved]
    · have hname' : isObjectName (strip e) = false := by simpa using hname
      simp [Stream.run, gitOffer_of_invalid hname', hname']

theorem exhausted_iff_reaches :
    (Stream.run (gitOffer reads) visit.onItems paths [] acc).1 = .exhausted ↔ Reaches reads visit acc paths := by
  refine ⟨fun h => ?_, fun h => by rw [h.run]⟩
  induction paths using List.reverseRecOn with
  | nil => exact .start
  | append_singleton paths e ih =>
    have hreach := ih (Stream.exhausted_of_append h)
    refine hreach.next (fun hname => ?_)
    rw [Stream.run_append (by rw [hreach.run]), hreach.run] at h
    dsimp only at h
    by_cases hw : WithinLimits reads (items reads paths) (strip e)
    · refine ⟨hw, fun i hi => ?_⟩
      simp only [Stream.run, gitOffer_of_limits hname hw, hi] at h
      by_contra hno
      simp [hno] at h
    · obtain ⟨reason, hstop⟩ := gitOffer_of_not_limits hname hw
      simp [Stream.run, hstop] at h

variable (reads visit acc) in
/-- What was handed over is what is served of a prefix of the paths. -/
theorem handed_eq_items (names : List ObjectName) :
    ∃ p q, names = p ++ q ∧ (Stream.run (gitOffer reads) visit.onItems names [] acc).2.1 = items reads p ∧
      (Reaches reads visit acc p ∨ ∃ p' e, p = p' ++ [e] ∧ Reaches reads visit acc p' ∧
        WithinLimits reads (items reads p') (strip e)) := by
  rcases Stream.exhausted_or_ends (gitOffer reads) visit.onItems names [] acc with h | ⟨p, e, q, rfl, hp, hrun, hend⟩
  · have hreach := exhausted_iff_reaches.mp h
    exact ⟨names, [], by simp, by rw [hreach.run], Or.inl hreach⟩
  · have hreach := exhausted_iff_reaches.mp hp
    rw [hrun]
    rw [Stream.run_append hp, hreach.run] at hend ⊢
    dsimp only at hend ⊢
    by_cases hname : isObjectName (strip e) = true
    · by_cases hw : WithinLimits reads (items reads p) (strip e)
      · refine ⟨p ++ [e], q, by simp, ?_, Or.inr ⟨p, e, rfl, hreach, hw⟩⟩
        rw [items_append, if_pos hname]
        simp only [Stream.run, gitOffer_of_limits hname hw] at hend ⊢
        cases hserved : served reads (strip e) with
        | none => simp
        | some i =>
          dsimp only
          split_ifs <;> rfl
      · obtain ⟨reason, hstop⟩ := gitOffer_of_not_limits hname hw
        exact ⟨p, e :: q, rfl, by simp [Stream.run, hstop], Or.inl hreach⟩
    · simp [Stream.run, gitOffer_of_invalid (by simpa using hname)] at hend

theorem mem_of_mem_items (h : i ∈ items reads paths) :
    ∃ e ∈ paths, isObjectName (strip e) = true ∧ served reads (strip e) = some i := by
  obtain ⟨e, he, hi⟩ := List.mem_filterMap.mp h
  by_cases hname : isObjectName (strip e) = true
  · rw [if_pos hname] at hi
    exact ⟨e, he, hname, hi⟩
  · simp [hname] at hi

theorem mem_items (he : e ∈ paths) (hname : isObjectName (strip e) = true)
    (hi : served reads (strip e) = some i) : i ∈ items reads paths :=
  List.mem_filterMap.mpr ⟨e, he, by rw [if_pos hname, hi]⟩

/-- A path whose name is new keeps the names apart. -/
theorem nodup_items_append (h : ((items reads paths).map Prod.fst).Nodup)
    (hfresh : isObjectName (strip e) = true → served reads (strip e) ≠ none → strip e ∉ paths.map strip) :
    ((items reads (paths ++ [e])).map Prod.fst).Nodup := by
  rw [items_append]
  by_cases hname : isObjectName (strip e) = true
  · rw [if_pos hname]
    cases hserved : served reads (strip e) with
    | none => simpa using h
    | some i =>
      have hnew := hfresh hname (by simp [hserved])
      rw [Option.toList_some, List.map_append, List.nodup_append]
      refine ⟨h, by simp, ?_⟩
      rintro a ha b hb rfl
      obtain ⟨j, hj, rfl⟩ := List.mem_map.mp ha
      obtain ⟨e', he', -, hserved'⟩ := mem_of_mem_items hj
      simp only [List.map_cons, List.map_nil, List.mem_singleton] at hb
      rw [served_fst hserved', served_fst hserved] at hb
      exact hnew (List.mem_map.mpr ⟨e', he', hb⟩)
  · simpa [hname] using h

variable (reads visit acc) in
/-- No name is served a second time. -/
def Fresh (names : List ObjectName) : Prop :=
  ∀ p e q, names = p ++ e :: q → Reaches reads visit acc p → isObjectName (strip e) = true →
    WithinLimits reads (items reads p) (strip e) → served reads (strip e) ≠ none → strip e ∉ p.map strip

theorem Fresh.nodup {names q : List ObjectName} (hfresh : Fresh reads visit acc names) (hnames : names = paths ++ q)
    (hreach : Reaches reads visit acc paths) : ((items reads paths).map Prod.fst).Nodup := by
  induction hreach generalizing q with
  | start => simp [items]
  | @next paths e hreach hgo ih =>
    have hsplit : names = paths ++ e :: q := by simpa using hnames
    refine nodup_items_append (ih hsplit) (fun hname hserved => ?_)
    exact hfresh _ _ _ hsplit hreach hname (hgo hname).1 hserved

theorem handed_once_iff (names : List ObjectName) :
    (∀ n, isObjectName n = true →
      ((Stream.run (gitOffer reads) visit.onItems names [] acc).2.1.map Prod.fst).count n ≤ 1) ↔
      Fresh reads visit acc names := by
  constructor
  · rintro honce p e q rfl hreach hname hw hserved hmem
    obtain ⟨i, hi⟩ := Option.ne_none_iff_exists'.mp hserved
    obtain ⟨e', he', hstrip⟩ := List.mem_map.mp hmem
    -- The name is among the items before `e`, and `e` adds it once more.
    have hin : strip e ∈ (items reads p).map Prod.fst :=
      List.mem_map.mpr ⟨i, mem_items he' (hstrip ▸ hname) (hstrip ▸ hi), served_fst hi⟩
    have hpre : items reads p ++ [i] <+: (Stream.run (gitOffer reads) visit.onItems (p ++ e :: q) [] acc).2.1 := by
      rw [Stream.run_append (by rw [hreach.run]), hreach.run, Stream.run, gitOffer_of_limits hname hw, hi]
      dsimp only
      split_ifs
      · exact Stream.run_prefix
      · exact List.prefix_rfl
    have hcount := (hpre.map Prod.fst).sublist.count_le (strip e)
    rw [List.map_append, List.count_append] at hcount
    have hone := List.one_le_count_iff.mpr hin
    have hlast : List.count (strip e) (List.map Prod.fst [i]) = 1 := by simp [served_fst hi]
    have := honce (strip e) hname
    omega
  · intro hfresh n _
    obtain ⟨p, q, rfl, hhanded, hreach | ⟨p', e, rfl, hreach, hw⟩⟩ := handed_eq_items reads visit acc names
    · rw [hhanded]
      exact List.nodup_iff_count_le_one.mp (hfresh.nodup rfl hreach) n
    · rw [hhanded]
      have hsplit : p' ++ [e] ++ q = p' ++ e :: q := by simp
      refine List.nodup_iff_count_le_one.mp (nodup_items_append (hfresh.nodup hsplit hreach) ?_) n
      exact fun hname hserved => hfresh _ _ _ hsplit hreach hname hw hserved

end Git

/-! ## The limits -/

/-- Both limits on what was handed over. -/
def Bounded (items : List Item) : Prop :=
  items.length ≤ FETCH_MAX_OBJECTS ∧ bytes items ≤ FETCH_MAX_AGGREGATE_BYTES

theorem bounded_nil : Bounded [] := ⟨Nat.zero_le _, Nat.zero_le _⟩

theorem length_standIn (b : Blob) : (standIn b).length = deliverSize b.length := by
  rw [standIn, deliverSize]
  split_ifs
  · rfl
  · exact List.length_replicate

theorem served_reads {t : Tree} {sizeFails readFails : ObjectName → Bool} :
    served (t.reads sizeFails readFails) n = some i ↔
      ∃ b, t.get n = some b ∧ sizeFails n = false ∧ (b.length ≤ OBJECT_MAX_BYTES → readFails n = false) ∧
        i = (n, standIn b) := by
  cases hsize : sizeFails n with
  | true =>
    rw [served, show (t.reads sizeFails readFails).size n = none by simp [Tree.reads, hsize]]
    simp
  | false =>
    cases hget : t.get n with
    | none =>
      rw [served, show (t.reads sizeFails readFails).size n = none by simp [Tree.reads, hget]]
      simp
    | some b =>
      rw [served, show (t.reads sizeFails readFails).size n = some b.length by simp [Tree.reads, hsize, hget]]
      simp only [deliver, standIn, Option.some.injEq, exists_eq_left', true_and]
      by_cases hle : b.length ≤ OBJECT_MAX_BYTES
      · cases hread : readFails n with
        | true => simp [Tree.reads, hle, hread]
        | false =>
          simp only [Tree.reads, hle, hread, hget, if_true, Bool.false_eq_true, if_false, Option.map_some,
            Option.some.injEq, implies_true, true_and]
          exact eq_comm
      · rw [if_neg hle]
        simp only [hle, false_imp_iff, true_and, if_false, Option.map_some, Option.some.injEq, eq_comm]

theorem bounded_append {t : Tree} {sizeFails readFails : ObjectName → Bool} {handed : List Item}
    (hw : WithinLimits (t.reads sizeFails readFails) handed n)
    (hi : served (t.reads sizeFails readFails) n = some i) : Bounded (handed ++ [i]) := by
  obtain ⟨b, hget, hsize, -, rfl⟩ := served_reads.mp hi
  have hroom := hw.2 b.length (by simp [Tree.reads, hsize, hget])
  have hcap := hw.1
  refine ⟨by rw [List.length_append, List.length_singleton]; omega, ?_⟩
  rw [bytes_append, length_standIn]
  exact hroom

/-! ## What a stream owes -/

/-- What a stream owes that goes through `names`, where `present` are the objects that
stay on the relay: no object twice, the two limits, and, when it reports that it is not
truncated, every valid-named object. -/
structure Complete (names : List ObjectName) (present : ObjectName → Blob → Prop)
    (stats : Option StreamStats) (handed : List Item) : Prop where
  once : ∀ n, isObjectName n = true → (handed.map Prod.fst).count n ≤ 1
  bounded : Bounded handed
  all : ∀ s, stats = some s → s.truncated = false → ∀ n ∈ names, isObjectName n = true →
    ∀ b, present n b → (n, standIn b) ∈ handed

/-- The git transport's stream since a marker, with what it hands over. -/
def gitStream {β : Type} (r : Relay) (since ref : Nat) (diffOk : Bool) (sizeFails readFails : ObjectName → Bool)
    (visit : Visitor β) (acc : β) : StreamStats × β × List Item :=
  fetchNewStream ((r.treeAt ref).reads sizeFails readFails) visit.recorded (listNewNames r since ref diffOk) {}
    (acc, [])

/-- The directory transport's stream, with what it hands over. -/
def localStream {β : Type} (sha256 : Blob → List Char) (before d : Directory) (since : List Char)
    (visit : Visitor β) (acc : β) : Option StreamStats × β × List Item :=
  LocalTransport.fetchNewStream sha256 before d since visit.recorded (acc, [])

theorem exhausted_of_report {handed : List Item} {fin : Stream.End TruncationReason Unit} {s : StreamStats}
    (h : report handed fin = some s) (htr : s.truncated = false) : fin = .exhausted := by
  cases fin with
  | exhausted => rfl
  | refused =>
    obtain rfl := Option.some.inj h
    simp [StreamStats.truncate] at htr
  | stopped reason =>
    obtain rfl := Option.some.inj h
    simp [StreamStats.truncate] at htr
  | failed error => simp [report] at h

section Results

variable {β : Type} (visit : Visitor β) (acc : β)

/-! ## The directory transport is complete -/

theorem LocalTransport.offer_hand {handed : List Item} {name : ObjectName}
    (h : LocalTransport.offer d handed name = .hand i) :
    i.1 = name ∧ Bounded (handed ++ [i]) := by
  rw [LocalTransport.offer] at h
  split_ifs at h with hcap
  cases hstat : LocalTransport.stat d name with
  | os_error => simp [hstat] at h
  | not_found => simp [hstat] at h
  | ok size =>
    simp only [hstat] at h
    split_ifs at h with hagg
    cases hdata : LocalTransport.deliver d name size with
    | os_error => simp [hdata] at h
    | not_found => simp [hdata] at h
    | ok data =>
      simp only [hdata, Stream.Offer.hand.injEq] at h
      subst h
      refine ⟨rfl, ?_, ?_⟩
      · rw [List.length_append, List.length_singleton]
        omega
      · have hlen : data.length = deliverSize size := by
          rw [LocalTransport.deliver] at hdata
          rw [deliverSize]
          split_ifs at hdata ⊢ with hle
          · -- Both calls see the same file.
            rw [LocalTransport.stat] at hstat
            rw [LocalTransport.read_bytes] at hdata
            split_ifs at hstat hdata
            cases hgone : d.gone name with
            | some g => simp [hgone] at hdata
            | none =>
              cases hget : d.files.get name with
              | none => simp [hgone, hget] at hdata
              | some b =>
                simp only [hgone, hget, FileRead.ok.injEq] at hstat hdata
                rw [← hstat, ← hdata]
          · simp only [FileRead.ok.injEq] at hdata
            rw [← hdata, List.length_replicate]
        rw [bytes_append, hlen]
        omega

/-- A file that stays ends the stream or is handed over. -/
theorem LocalTransport.offer_of_stays (handed : List Item) {b : Blob}
    (hget : d.files.get n = some b) (hgone : d.gone n = none) :
    (∃ reason, LocalTransport.offer d handed n = .stop reason) ∨ LocalTransport.offer d handed n = .fail () ∨
      LocalTransport.offer d handed n = .hand (n, standIn b) := by
  rw [LocalTransport.offer, LocalTransport.stat]
  by_cases hcap : FETCH_MAX_OBJECTS ≤ handed.length
  · exact Or.inl ⟨.object_cap, if_pos hcap⟩
  · rw [if_neg hcap]
    by_cases hstat : d.statFails n = true
    · exact Or.inr (Or.inl (by simp [hstat]))
    · simp only [hstat, Bool.false_eq_true, if_false, hgone, hget]
      by_cases hagg : FETCH_MAX_AGGREGATE_BYTES < bytes handed + deliverSize b.length
      · exact Or.inl ⟨.aggregate_bytes_cap, if_pos hagg⟩
      · rw [if_neg hagg, LocalTransport.deliver, LocalTransport.read_bytes, standIn]
        by_cases hle : b.length ≤ OBJECT_MAX_BYTES
        · cases hread : d.readFails n <;> simp [hle, hgone, hget]
        · rw [if_neg hle, if_neg hle]
          exact Or.inr (Or.inr rfl)

theorem LocalTransport.mem_of_exhausted {names : List ObjectName} {handed : List Item} {acc : β}
    (h : (Stream.run (LocalTransport.offer d) visit.onItems names handed acc).1 = .exhausted)
    (hn : n ∈ names) {b : Blob} (hget : d.files.get n = some b) (hgone : d.gone n = none) :
    (n, standIn b) ∈ (Stream.run (LocalTransport.offer d) visit.onItems names handed acc).2.1 := by
  induction names generalizing handed acc with
  | nil => simp at hn
  | cons e es ih =>
    rw [Stream.run] at h ⊢
    rcases List.mem_cons.mp hn with rfl | hn
    · obtain ⟨reason, hoffer⟩ | hoffer | hoffer := LocalTransport.offer_of_stays handed hget hgone
      · simp [hoffer] at h
      · simp [hoffer] at h
      · rw [hoffer]
        dsimp only
        split_ifs
        · exact Stream.run_prefix.subset (by simp)
        · simp
    · cases hoffer : LocalTransport.offer d handed e with
      | stop reason => simp [hoffer] at h
      | fail error => simp [hoffer] at h
      | pass =>
        simp only [hoffer] at h
        exact ih h hn
      | hand i =>
        simp only [hoffer] at h
        dsimp only
        by_cases hans : (visit.onItems acc i).2 = true
        · simp only [if_pos hans] at h ⊢
          exact ih h hn
        · simp [if_neg hans] at h

/-- The names of a listing occur once. -/
theorem LocalTransport.nodup_listing (files : Tree) : (LocalTransport.listing files).Nodup :=
  (List.mergeSort_perm _ _).nodup_iff.mpr (files.nodup.filter _)

theorem LocalTransport.fetchLoop_complete (d : Directory) :
    Complete (LocalTransport.listing d.files) (fun n b => d.files.get n = some b ∧ d.gone n = none)
      (LocalTransport.fetchLoop d visit.recorded (LocalTransport.listing d.files) {} (acc, [])).1
      (LocalTransport.fetchLoop d visit.recorded (LocalTransport.listing d.files) {} (acc, [])).2.2 := by
  obtain ⟨hreport, hstate⟩ := fetchLoop_eq_run visit.recorded d (LocalTransport.listing d.files) [] (acc, [])
  have hrec : Stream.run (LocalTransport.offer d) visit.recorded.onItems (LocalTransport.listing d.files) [] (acc, []) =
      _ := Stream.run_recording visit.onItems
  rw [hrec] at hreport hstate
  rw [show ({} : StreamStats) = tally [] from rfl, hreport, hstate]
  refine ⟨fun n _ => ?_, ?_, fun s hs htr n hn _ b hb => ?_⟩
  · have hkey : ∀ handed e item, LocalTransport.offer d handed e = .hand item → Prod.fst item = e :=
      fun _ _ _ h => (LocalTransport.offer_hand h).1
    obtain ⟨l, hl, hsub⟩ := Stream.run_sublist visit.onItems (LocalTransport.listing d.files) [] acc hkey
    rw [List.map_nil, List.nil_append] at hl
    rw [hl]
    exact List.nodup_iff_count_le_one.mp ((LocalTransport.nodup_listing d.files).sublist hsub) n
  · exact Stream.run_invariant bounded_nil (fun _ _ _ _ h => (LocalTransport.offer_hand h).2)
  · exact LocalTransport.mem_of_exhausted visit (exhausted_of_report hs htr) hn hb.1 hb.2

/-! ## When the git transport is complete -/

/-- The condition on one stream of the git transport: no name is served a second time,
and unless a limit or the visitor ends the stream, no read of a listed object fails. -/
structure Kept (r : Relay) (since ref : Nat) (diffOk : Bool) (sizeFails readFails : ObjectName → Bool) : Prop where
  fresh : Fresh ((r.treeAt ref).reads sizeFails readFails) visit acc (listNewNames r since ref diffOk)
  readable : Reaches ((r.treeAt ref).reads sizeFails readFails) visit acc (listNewNames r since ref diffOk) →
    ∀ n ∈ listNewNames r since ref diffOk, isObjectName n = true → ∀ b, (r.treeAt ref).get n = some b →
      sizeFails n = false ∧ (b.length ≤ OBJECT_MAX_BYTES → readFails n = false)

theorem gitStream_complete_iff (r : Relay) (since ref : Nat) (diffOk : Bool)
    (sizeFails readFails : ObjectName → Bool) :
    Complete (listNewNames r since ref diffOk) (fun n b => (r.treeAt ref).get n = some b)
        (some (gitStream r since ref diffOk sizeFails readFails visit acc).1)
        (gitStream r since ref diffOk sizeFails readFails visit acc).2.2 ↔
      Kept visit acc r since ref diffOk sizeFails readFails := by
  obtain ⟨hreport, hstate⟩ := fetchNewStream_eq_run visit.recorded ((r.treeAt ref).reads sizeFails readFails)
    (listNewNames r since ref diffOk) [] (acc, [])
  have hrec : Stream.run (gitOffer ((r.treeAt ref).reads sizeFails readFails)) visit.recorded.onItems
      (listNewNames r since ref diffOk) [] (acc, []) = _ := Stream.run_recording visit.onItems
  rw [hrec] at hreport hstate
  rw [gitStream, show ({} : StreamStats) = tally [] from rfl, hreport, hstate]
  constructor
  · intro h
    refine ⟨(handed_once_iff _).mp h.once, fun hreach n hn hname b hb => ?_⟩
    have hmem := h.all (tally _) (by rw [hreach.run]; rfl) rfl n hn hname b hb
    rw [hreach.run] at hmem
    obtain ⟨e, -, -, hserved⟩ := mem_of_mem_items hmem
    obtain ⟨c, hget, hsize, hread, heq⟩ := served_reads.mp hserved
    obtain ⟨hname', -⟩ := Prod.mk.inj heq
    rw [← hname'] at hget hsize hread
    obtain rfl : b = c := Option.some.inj (hb.symm.trans hget)
    exact ⟨hsize, hread⟩
  · intro h
    refine ⟨(handed_once_iff _).mpr h.fresh, ?_, fun s hs htr n hn hname b hb => ?_⟩
    · refine Stream.run_invariant bounded_nil (fun _ _ _ _ hoffer => ?_)
      obtain ⟨-, hw, hserved⟩ := gitOffer_hand hoffer
      exact bounded_append hw hserved
    · have hreach := exhausted_iff_reaches.mp (exhausted_of_report hs htr)
      obtain ⟨hsize, hread⟩ := h.readable hreach n hn hname b hb
      have hstrip := strip_of_isObjectName hname
      rw [hreach.run]
      refine mem_items hn (hstrip.symm ▸ hname) ?_
      rw [hstrip]
      exact served_reads.mpr ⟨b, hb, hsize, hread, rfl⟩

/-- Every stream of the directory transport is complete, and a stream of the git transport
is complete exactly when no name is served twice and no read of a listed object fails. -/
theorem fetch_stream_complete (sha256 : Blob → List Char) (before d : Directory) (marker : List Char)
    (r : Relay) (since ref : Nat) (diffOk : Bool) (sizeFails readFails : ObjectName → Bool) :
    Complete (LocalTransport.listed sha256 before d marker)
        (fun n b => d.files.get n = some b ∧ d.gone n = none)
        (localStream sha256 before d marker visit acc).1 (localStream sha256 before d marker visit acc).2.2 ∧
      (Complete (listNewNames r since ref diffOk) (fun n b => (r.treeAt ref).get n = some b)
          (some (gitStream r since ref diffOk sizeFails readFails visit acc).1)
          (gitStream r since ref diffOk sizeFails readFails visit acc).2.2 ↔
        Kept visit acc r since ref diffOk sizeFails readFails) := by
  refine ⟨?_, gitStream_complete_iff visit acc r since ref diffOk sizeFails readFails⟩
  have hempty : ∀ stats, Complete [] (fun n b => d.files.get n = some b ∧ d.gone n = none) stats [] :=
    fun stats => ⟨by simp, bounded_nil, by simp⟩
  have hnone : ∀ names, Complete names (fun n b => d.files.get n = some b ∧ d.gone n = none) none [] :=
    fun names => ⟨by simp, bounded_nil, by simp⟩
  rw [localStream, LocalTransport.fetchNewStream, LocalTransport.listed]
  by_cases hsince : marker = []
  · simpa [hsince] using LocalTransport.fetchLoop_complete visit acc d
  · cases hhead : LocalTransport.head sha256 before with
    | none => simpa [hsince] using hnone _
    | some current =>
      by_cases hsame : marker = current
      · subst hsame
        simpa [hsince] using hempty _
      · simpa [hsince, hsame, Ne.symm hsame] using LocalTransport.fetchLoop_complete visit acc d

end Results

/-- The name of the one object of `oneObject`. -/
def oneName : ObjectName := "AAAAAAAAAAAAAAAAAAAAAAAAAAAAAAAA.json".toList

/-- A relay of one commit with one object. -/
def oneObject : Relay := [⟨[(oneName, [1])], List.nodup_singleton _⟩]

/-- The first stream of `oneObject`, whose `cat-file -s` fails, to a visitor that never stops. -/
def unreadStream : StreamStats × Unit × List Item :=
  gitStream oneObject 0 1 true (fun _ => true) (fun _ => false) (fun _ _ _ => ((), true)) ()

/-- A listed object that cannot be read is left out of a stream that is not reported
truncated. -/
theorem unread_object_not_truncated :
    ¬Complete (listNewNames oneObject 0 1 true) (fun n b => (oneObject.treeAt 1).get n = some b)
      (some unreadStream.1) unreadStream.2.2 := by
  intro h
  have hmem := h.all _ rfl (by decide) oneName (by decide) (by decide) [1] (by decide)
  revert hmem
  decide

end MuseAgentSocial.Transports
