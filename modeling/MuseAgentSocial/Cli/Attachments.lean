import MuseAgentSocial.Canonical.Size
import MuseAgentSocial.Crypto.Identity
import MuseAgentSocial.Lib.Table
import MuseAgentSocial.Policy.Document

/-!
# Attachments on disk

A model of `_materialize_attachments` of `cli.py`, for a POSIX file system without faults.

* A name of a file can be refused: with a NUL character by Python, which raises a
  `ValueError`, and with more than 255 bytes by the system, with an `OSError`.
* The pattern of an id ends in `$`, which a search also finds before a final newline.
* `materializeAttachments` is the function; the rows come in any order.
* `materialized_iff` says for which file names every attachment is written.
-/

namespace MuseAgentSocial.Attachments

open Json Canonical Identity
open Policy (text getItem)

/-! ## The tables -/

/-- The characters of a canonical UUID. -/
def uuidChars : List Char :=
  ['0', '1', '2', '3', '4', '5', '6', '7', '8', '9', 'a', 'b', 'c', 'd', 'e', 'f', '-']

/-- An id that the schema accepts: a canonical UUID, and maybe a newline after it. -/
structure Uuid where
  digits : List Char
  length : digits.length = 36
  mem : ∀ c ∈ digits, c ∈ uuidChars
  newline : Bool := false
  deriving DecidableEq

/-- The text of the id. -/
def Uuid.chars (u : Uuid) : List Char := u.digits ++ if u.newline then ['\n'] else []

/-- A file directly inside `attachments/<relationship_id>/`. -/
structure Target where
  relationship_id : Uuid
  name : List Char
  deriving DecidableEq

/-- A row of `attachments`. -/
structure Attachment where
  event_id : Uuid
  relationship_id : Uuid
  filename : List Char
  size : Nat
  sha256 : List Char
  stored_path : Option Target

/-- A row of `event_payloads`; a payload that is no JSON is `none`. -/
structure PayloadRow (F : Type) where
  event_id : Uuid
  payload : Option (Value F)

/-- The files. -/
abbrev Disk := Target → Option (List UInt8)

/-- The database and the files. -/
structure State (F : Type) where
  attachments : Table Attachment.event_id
  event_payloads : Table (PayloadRow.event_id (F := F))
  disk : Disk

/-! ## The file system -/

/-- What an operation on a file raises. -/
inductive FileError where
  | os_error | value_error
  deriving DecidableEq, Repr

/-- Whether a name can be that of a file. -/
def checkName (name : List Char) : Except FileError Unit :=
  if '\x00' ∈ name then .error .value_error
  else if 255 < utf8Size name then .error .os_error
  else .ok ()

/-- The files with another content of one of them. -/
def Disk.set (disk : Disk) (target : Target) (content : Option (List UInt8)) : Disk :=
  fun t => if t = target then content else disk t

/-- `open(path, "wb")` and `write` -/
def writeFile (target : Target) (raw : List UInt8) (disk : Disk) : Except FileError Disk :=
  (checkName target.name).map fun _ => disk.set target (some raw)

/-- `os.replace` -/
def replace (src dst : Target) (disk : Disk) : Except FileError Disk :=
  (checkName dst.name).bind fun _ =>
  match disk src with
  | none => .error .os_error
  | some raw => .ok ((disk.set src none).set dst (some raw))

/-- `target.with_name(target.name + ".tmp")` -/
def Target.tmp (target : Target) : Target := { target with name := target.name ++ ['.', 't', 'm', 'p'] }

/-- The file is written under a temporary name and renamed. -/
def saveFile (target : Target) (raw : List UInt8) (disk : Disk) : Except FileError Unit × Disk :=
  match writeFile target.tmp raw disk with
  | .error e => (.error e, disk)
  | .ok written =>
    match replace target.tmp target written with
    | .error e => (.error e, written)
    | .ok replaced => (.ok (), replaced)

/-! ## The function -/

/-- `os.path.basename` -/
def basename (path : List Char) : List Char := path.rtakeWhile (· ≠ '/')

/-- `safe_name` -/
def safeName (filename : List Char) : List Char :=
  let name := if basename filename = [] then "attachment".toList else basename filename
  if name = ['.'] ∨ name = ['.', '.'] then "attachment".toList else name

/-- The file of an attachment. -/
def Attachment.target (a : Attachment) : Target :=
  ⟨a.relationship_id, a.event_id.chars ++ '_' :: safeName a.filename⟩

/-- `payload["attachment"]["data"]`; `none` is a `KeyError` or a `TypeError`. -/
def attachmentData {F : Type} (payload : Value F) : Option (Value F) :=
  match payload with
  | .dict document =>
    match getItem document (text "attachment") with
    | some (.dict attachment) => getItem attachment (text "data")
    | _ => none
  | _ => none

/-- `base64.b64decode(data, validate=True)` -/
def b64decode {F : Type} (data : Value F) : Option (List UInt8) :=
  match data with
  | .str s => (encodeAscii s).bind (Base64.a2b true)
  | _ => none

/-- The bytes of an attachment; `none` when the payload does not hold them. -/
def decoded {F : Type} (payload : Option (Value F)) : Option (List UInt8) :=
  (payload.bind attachmentData).bind b64decode

/-- The counts that are returned. -/
structure Result where
  materialized : Nat := 0
  failed : Nat := 0
  deriving DecidableEq, Repr

section materialize

variable {F : Type} (sha256 : List UInt8 → List Char)

/-- `UPDATE attachments SET stored_path = ? WHERE event_id = ?` -/
def State.setStoredPath (s : State F) (event_id : Uuid) (target : Target) : State F :=
  { s with attachments := s.attachments.modify event_id (fun a => { a with stored_path := some target }) (fun _ => rfl) }

/-- The rows of the query: those without a path, with their payloads. -/
def State.pending (s : State F) (relationship_ids : List Uuid) : List (Attachment × PayloadRow F) :=
  s.attachments.rows.filterMap fun a =>
    if a.stored_path = none ∧ a.relationship_id ∈ relationship_ids then
      (s.event_payloads.find a.event_id).map (a, ·)
    else none

/-- The loop over the rows.  A `ValueError` of the file system is not caught: the result is
`none`. -/
def materializeRows : List (Attachment × PayloadRow F) → Result → State F → Option Result × State F
  | [], result, s => (some result, s)
  | (a, p) :: rows, result, s =>
    match decoded p.payload with
    | none => materializeRows rows { result with failed := result.failed + 1 } s
    | some raw =>
      if raw.length ≠ a.size ∨ sha256 raw ≠ a.sha256 then
        materializeRows rows { result with failed := result.failed + 1 } s
      else
        match saveFile a.target raw s.disk with
        | (.error .value_error, disk) => (none, { s with disk })
        | (.error .os_error, disk) => materializeRows rows { result with failed := result.failed + 1 } { s with disk }
        | (.ok (), disk) =>
          materializeRows rows { result with materialized := result.materialized + 1 }
            ({ s with disk }.setStoredPath a.event_id a.target)

/-- `_materialize_attachments`, with the rows in the order in which they are fetched. -/
def materializeAttachments (rows : List (Attachment × PayloadRow F)) (relationship_ids : List Uuid) (s : State F) :
    Option Result × State F :=
  if relationship_ids.isEmpty then (some {}, s) else materializeRows sha256 rows {} s

end materialize

/-! ## Names -/

/-- What the schema says of `attachment.filename`. -/
structure SchemaName (filename : List Char) : Prop where
  ne_nil : filename ≠ []
  length_le : filename.length ≤ 255
  no_slash : ∀ c ∈ filename, c ≠ '/' ∧ c ≠ '\\'

variable {filename : List Char} {a : Attachment} {t : Target}

theorem SchemaName.of_all (hne : filename ≠ []) (hlength : filename.length ≤ 255)
    (hall : filename.all (fun c => c != '/' && c != '\\') = true) : SchemaName filename :=
  ⟨hne, hlength, fun c hc => by simpa using List.all_eq_true.mp hall c hc⟩

/-- The file name leaves room for the event id in front of it and the suffix behind it: 214 bytes
behind a canonical UUID. -/
def Nameable (event_id : Uuid) (filename : List Char) : Prop :=
  '\x00' ∉ filename ∧ event_id.chars.length + utf8Size filename ≤ 250

instance (event_id : Uuid) (filename : List Char) : Decidable (Nameable event_id filename) :=
  inferInstanceAs (Decidable (_ ∧ _))

theorem uuidChars_spec : ∀ c ∈ uuidChars, c.utf8Size = 1 ∧ c ≠ '\x00' ∧ c ≠ '/' := by
  have hall : uuidChars.all (fun c => c.utf8Size == 1 && c != '\x00' && c != '/') = true := by decide
  intro c hc
  have hone := List.all_eq_true.mp hall c hc
  simpa [and_assoc] using hone

theorem Uuid.chars_spec (u : Uuid) : ∀ c ∈ u.chars, c.utf8Size = 1 ∧ c ≠ '\x00' ∧ c ≠ '/' := by
  intro c hc
  rcases List.mem_append.mp hc with hdigit | hnewline
  · exact uuidChars_spec c (u.mem c hdigit)
  · split at hnewline
    · rw [List.mem_singleton.mp hnewline]
      decide
    · exact absurd hnewline List.not_mem_nil

theorem Uuid.utf8Size_chars (u : Uuid) : utf8Size u.chars = u.chars.length := by
  have hone : ∀ c ∈ u.chars, Char.utf8Size c = 1 := fun c hc => (u.chars_spec c hc).1
  rw [utf8Size, List.map_congr_left hone, List.map_const', List.sum_replicate_nat, mul_one]

theorem Uuid.not_mem_chars (u : Uuid) : '\x00' ∉ u.chars ∧ '/' ∉ u.chars :=
  ⟨fun h => (u.chars_spec _ h).2.1 rfl, fun h => (u.chars_spec _ h).2.2 rfl⟩

/-- An id is read back from a text that goes on with an underscore. -/
theorem Uuid.eq_of_prefix {u v : Uuid} {name : List Char} (hu : u.chars ++ ['_'] <+: name)
    (hv : v.chars ++ ['_'] <+: name) : u = v := by
  obtain ⟨rest, hrest⟩ := hu
  obtain ⟨rest', rfl⟩ := hv
  have hdigits : u.digits = v.digits := by
    have htake := congrArg (List.take 36) hrest
    simp only [Uuid.chars, List.append_assoc] at htake
    rwa [← u.length, List.take_left, u.length, ← v.length, List.take_left] at htake
  have hnewline : u.newline = v.newline := by
    simp only [Uuid.chars, List.append_assoc, hdigits, List.append_cancel_left_eq] at hrest
    cases hu : u.newline <;> cases hv : v.newline <;> simp [hu, hv] at hrest ⊢
  cases u
  cases v
  cases hdigits
  cases hnewline
  rfl

theorem checkName_eq_ok_iff {name : List Char} : checkName name = .ok () ↔ '\x00' ∉ name ∧ utf8Size name ≤ 255 := by
  unfold checkName
  split_ifs with hnul hsize
  · simp [hnul]
  · simp [hsize]
  · simp [hnul, not_lt.mp hsize]

theorem basename_eq (h : SchemaName filename) : basename filename = filename := by
  rw [basename, List.rtakeWhile_eq_self_iff]
  intro c hc
  simpa using (h.no_slash c hc).1

/-- A name from the schema is kept, or replaced by one that can be used. -/
theorem safeName_cases (h : SchemaName filename) :
    safeName filename = filename ∨
      safeName filename = "attachment".toList ∧ (filename = ['.'] ∨ filename = ['.', '.']) := by
  unfold safeName
  rw [basename_eq h, if_neg h.ne_nil]
  dsimp only
  split_ifs with hdots
  · exact Or.inr ⟨rfl, hdots⟩
  · exact Or.inl rfl

theorem Uuid.length_chars_le (u : Uuid) : u.chars.length ≤ 37 := by
  rw [Uuid.chars, List.length_append, u.length]
  split_ifs
  · exact le_rfl
  · exact Nat.le_succ 36

theorem nameable_safeName_iff (event_id : Uuid) (h : SchemaName filename) :
    Nameable event_id (safeName filename) ↔ Nameable event_id filename := by
  have hlength := event_id.length_chars_le
  -- The name of an attachment without one is short.
  have hshort : ∀ name : List Char, '\x00' ∉ name → utf8Size name ≤ 10 → Nameable event_id name :=
    fun name hnul hsize => ⟨hnul, by omega⟩
  obtain heq | ⟨heq, hdots⟩ := safeName_cases h
  · rw [heq]
  · rw [heq]
    refine iff_of_true (hshort _ (by decide) (by decide)) ?_
    obtain rfl | rfl := hdots
    · exact hshort _ (by decide) (by decide)
    · exact hshort _ (by decide) (by decide)

/-- The temporary name of an attachment can be used exactly when its file name leaves room. -/
theorem checkName_tmp_iff (h : SchemaName a.filename) :
    checkName a.target.tmp.name = .ok () ↔ Nameable a.event_id a.filename := by
  have hsuffix : utf8Size ['_'] = 1 ∧ utf8Size ['.', 't', 'm', 'p'] = 4 := by decide
  have hnul : '\x00' ∉ ['_'] ∧ '\x00' ∉ ['.', 't', 'm', 'p'] := by decide
  have hname : a.target.tmp.name = a.event_id.chars ++ (['_'] ++ (safeName a.filename ++ ['.', 't', 'm', 'p'])) := by
    simp [Target.tmp, Attachment.target]
  rw [checkName_eq_ok_iff, ← nameable_safeName_iff a.event_id h, hname, Nameable]
  simp only [List.mem_append, utf8Size_append, a.event_id.utf8Size_chars, hsuffix, a.event_id.not_mem_chars.1, hnul, false_or,
    or_false]
  exact and_congr_right (fun _ => by omega)

/-! ## One file -/

theorem checkName_of_tmp (h : checkName t.tmp.name = .ok ()) : checkName t.name = .ok () := by
  rw [checkName_eq_ok_iff, Target.tmp, List.mem_append, utf8Size_append, not_or] at h
  rw [checkName_eq_ok_iff]
  exact ⟨h.1.1, by omega⟩

@[simp] theorem Disk.set_self {disk : Disk}
    {content : Option (List UInt8)} : disk.set t content t = content :=
  if_pos rfl

theorem Disk.set_other {disk : Disk} {t' : Target} {content : Option (List UInt8)} (h : t' ≠ t) :
    disk.set t content t' = disk t' := if_neg h

/-- A file with a name that can be used is written, and no other file but its temporary one is
touched. -/
theorem saveFile_ok (raw : List UInt8) (h : checkName t.tmp.name = .ok ()) (disk : Disk) :
    ∃ disk', saveFile t raw disk = (.ok (), disk') ∧ disk' t = some raw ∧ ∀ t', t' ≠ t → t' ≠ t.tmp → disk' t' = disk t' := by
  refine ⟨((disk.set t.tmp (some raw)).set t.tmp none).set t (some raw), ?_, Disk.set_self, fun t' ht htmp => ?_⟩
  · have hreplace : replace t.tmp t (disk.set t.tmp (some raw)) =
        .ok (((disk.set t.tmp (some raw)).set t.tmp none).set t (some raw)) := by
      rw [replace, checkName_of_tmp h]
      show (match disk.set t.tmp (some raw) t.tmp with
        | none => _
        | some raw => _) = _
      rw [Disk.set_self]
    rw [saveFile, writeFile, h]
    show (match replace t.tmp t (disk.set t.tmp (some raw)) with
      | .error e => _
      | .ok replaced => _) = _
    rw [hreplace]
  · rw [Disk.set_other ht, Disk.set_other htmp, Disk.set_other htmp]

theorem saveFile_error {e : FileError} (raw : List UInt8) (h : checkName t.tmp.name = .error e)
    (disk : Disk) :
    saveFile t raw disk = (.error e, disk) := by
  rw [saveFile, writeFile, h]
  rfl

/-! ## The loop -/

section loop

variable {F : Type} {sha256 : List UInt8 → List Char}

/-- A row of an accepted event: its payload passed `_check_attachment`. -/
def Accepted (sha256 : List UInt8 → List Char) (a : Attachment) (p : PayloadRow F) : Prop :=
  SchemaName a.filename ∧ ∃ raw, decoded p.payload = some raw ∧ raw.length = a.size ∧ sha256 raw = a.sha256

theorem materializeRows_cons {p : PayloadRow F} (h : Accepted sha256 a p)
    (rows : List (Attachment × PayloadRow F)) (result : Result) (s : State F) :
    (Nameable a.event_id a.filename ∧ ∃ raw disk', decoded p.payload = some raw ∧ disk' a.target = some raw ∧
      (∀ t, t ≠ a.target → t ≠ a.target.tmp → disk' t = s.disk t) ∧
      materializeRows sha256 ((a, p) :: rows) result s =
        materializeRows sha256 rows { result with materialized := result.materialized + 1 }
          ({ s with disk := disk' }.setStoredPath a.event_id a.target)) ∨
    (¬Nameable a.event_id a.filename ∧
      (materializeRows sha256 ((a, p) :: rows) result s = (none, s) ∨
        materializeRows sha256 ((a, p) :: rows) result s =
          materializeRows sha256 rows { result with failed := result.failed + 1 } s)) := by
  obtain ⟨hname, raw, hraw, hlength, hsha⟩ := h
  have hchecks : ¬(raw.length ≠ a.size ∨ sha256 raw ≠ a.sha256) := by
    rw [not_or, not_not, not_not]
    exact ⟨hlength, hsha⟩
  cases hcheck : checkName a.target.tmp.name with
  | ok =>
    obtain ⟨disk', hsave, hdisk, hothers⟩ := saveFile_ok raw hcheck s.disk
    refine Or.inl ⟨(checkName_tmp_iff hname).mp hcheck, raw, disk', hraw, hdisk, hothers, ?_⟩
    rw [materializeRows, hraw]
    dsimp only
    rw [if_neg hchecks, hsave]
  | error e =>
    have hnot : ¬Nameable a.event_id a.filename := by
      rw [← checkName_tmp_iff hname, hcheck]
      simp
    have hsave := saveFile_error raw hcheck s.disk
    refine Or.inr ⟨hnot, ?_⟩
    rw [materializeRows, hraw]
    dsimp only
    rw [if_neg hchecks, hsave]
    cases e with
    | os_error => exact Or.inr rfl
    | value_error => exact Or.inl rfl

/-- The files of an event. -/
def Owns (event_id : Uuid) (t : Target) : Prop := event_id.chars ++ ['_'] <+: t.name

theorem owns_target (a : Attachment) : Owns a.event_id a.target ∧ Owns a.event_id a.target.tmp := by
  constructor
  · exact ⟨safeName a.filename, by simp [Attachment.target]⟩
  · exact ⟨safeName a.filename ++ ['.', 't', 'm', 'p'], by simp [Target.tmp, Attachment.target]⟩

theorem Owns.eq {i j : Uuid} (hi : Owns i t) (hj : Owns j t) : i = j := Uuid.eq_of_prefix hi hj

theorem find_setStoredPath (s : State F) (event_id id : Uuid) (target : Target) :
    (s.setStoredPath event_id target).attachments.find id =
      if id = event_id then (s.attachments.find event_id).map (fun a => { a with stored_path := some target })
      else s.attachments.find id :=
  Table.find_modify s.attachments event_id id (fun a => { a with stored_path := some target }) (fun _ => rfl)

/-- The loop writes the files of rows whose names can be used, and no others. -/
theorem materializeRows_spec {rows : List (Attachment × PayloadRow F)} (hrows : ∀ r ∈ rows, Accepted sha256 r.1 r.2)
    (hnames : ∀ r ∈ rows, Nameable r.1.event_id r.1.filename) (hids : (rows.map (fun r => r.1.event_id)).Nodup) (result : Result)
    (s : State F) : ∃ result' s', materializeRows sha256 rows result s = (some result', s') ∧
      (∀ r ∈ rows, ∀ a, s.attachments.find r.1.event_id = some a →
        s'.attachments.find r.1.event_id = some { a with stored_path := some r.1.target }) ∧
      (∀ id, (∀ r ∈ rows, r.1.event_id ≠ id) → s'.attachments.find id = s.attachments.find id) ∧
      (∀ r ∈ rows, ∀ raw, decoded r.2.payload = some raw → s'.disk r.1.target = some raw) ∧
      ∀ t, (∀ r ∈ rows, ¬Owns r.1.event_id t) → s'.disk t = s.disk t := by
  induction rows generalizing result s with
  | nil => exact ⟨result, s, rfl, by simp, fun _ _ => rfl, by simp, fun _ _ => rfl⟩
  | cons r rows ih =>
    rw [List.forall_mem_cons] at hrows hnames
    rw [List.map_cons, List.nodup_cons] at hids
    have hne : ∀ r' ∈ rows, r'.1.event_id ≠ r.1.event_id :=
      fun r' hr' heq => hids.1 (List.mem_map.mpr ⟨r', hr', heq⟩)
    obtain ⟨-, raw, disk', hraw, hdisk, hothers, hstep⟩ | ⟨hnot, -⟩ := materializeRows_cons hrows.1 rows result s
    · obtain ⟨result', s', hrun, hstored, hkept, hfiles, hdisks⟩ := ih hrows.2 hnames.2 hids.2
        { result with materialized := result.materialized + 1 } ({ s with disk := disk' }.setStoredPath r.1.event_id r.1.target)
      refine ⟨result', s', hstep.trans hrun, ?_, ?_, ?_, ?_⟩
      · refine List.forall_mem_cons.mpr ⟨fun a ha => ?_, fun r' hr' a ha => hstored r' hr' a ?_⟩
        · rw [hkept r.1.event_id hne, find_setStoredPath, if_pos rfl, ha]
          rfl
        · rw [find_setStoredPath, if_neg (hne r' hr')]
          exact ha
      · intro id hid
        rw [List.forall_mem_cons] at hid
        rw [hkept id hid.2, find_setStoredPath, if_neg (Ne.symm hid.1)]
      · refine List.forall_mem_cons.mpr ⟨fun raw' hraw' => ?_, hfiles⟩
        have hfree : ∀ r' ∈ rows, ¬Owns r'.1.event_id r.1.target :=
          fun r' hr' howns => hne r' hr' (howns.eq (owns_target r.1).1)
        rw [hdisks r.1.target hfree, ← hraw', hraw]
        exact hdisk
      · intro t ht
        rw [List.forall_mem_cons] at ht
        have htarget : t ≠ r.1.target := fun heq => ht.1 (heq ▸ (owns_target r.1).1)
        have htmp : t ≠ r.1.target.tmp := fun heq => ht.1 (heq ▸ (owns_target r.1).2)
        rw [hdisks t ht.2]
        exact hothers t htarget htmp
    · exact absurd hnames.1 hnot

/-- A row whose name cannot be used keeps its path. -/
theorem materializeRows_skips {rows : List (Attachment × PayloadRow F)} (hrows : ∀ r ∈ rows, Accepted sha256 r.1 r.2)
    {id : Uuid} (hnot : ∀ r ∈ rows, r.1.event_id = id → ¬Nameable r.1.event_id r.1.filename) (result : Result) (s : State F) :
    (materializeRows sha256 rows result s).2.attachments.find id = s.attachments.find id := by
  induction rows generalizing result s with
  | nil => rfl
  | cons r rows ih =>
    rw [List.forall_mem_cons] at hrows hnot
    obtain ⟨hname, raw, disk', -, -, -, hstep⟩ | ⟨-, hstep | hstep⟩ := materializeRows_cons hrows.1 rows result s
    · have hne : id ≠ r.1.event_id := fun heq => hnot.1 heq.symm hname
      rw [hstep, ih hrows.2 hnot.2, find_setStoredPath, if_neg hne]
    · rw [hstep]
    · rw [hstep, ih hrows.2 hnot.2]

theorem mem_pending {s : State F} {ids : List Uuid} {p : PayloadRow F} :
    (a, p) ∈ s.pending ids ↔
      a ∈ s.attachments.rows ∧ (a.stored_path = none ∧ a.relationship_id ∈ ids) ∧ s.event_payloads.find a.event_id = some p := by
  unfold State.pending
  rw [List.mem_filterMap]
  constructor
  · intro h
    obtain ⟨b, hb, heq⟩ := h
    split at heq
    · rename_i hpending
      obtain ⟨q, hq, heq⟩ := Option.map_eq_some_iff.mp heq
      obtain ⟨rfl, rfl⟩ := Prod.mk.inj heq
      exact ⟨hb, hpending, hq⟩
    · exact absurd heq (by simp)
  · intro h
    refine ⟨a, h.1, ?_⟩
    rw [if_pos h.2.1, h.2.2]
    rfl

theorem nodup_pending (s : State F) (ids : List Uuid) : ((s.pending ids).map (fun r => r.1.event_id)).Nodup := by
  have hsublist : ∀ as : List Attachment, ((as.filterMap fun a =>
      if a.stored_path = none ∧ a.relationship_id ∈ ids then (s.event_payloads.find a.event_id).map (a, ·) else none).map
        (fun r => r.1.event_id)).Sublist (as.map Attachment.event_id) := by
    intro as
    induction as with
    | nil => exact List.Sublist.slnil
    | cons a as ih =>
      rw [List.filterMap_cons]
      split
      · exact ih.cons _
      · rename_i r hr
        split at hr
        · obtain ⟨q, -, rfl⟩ := Option.map_eq_some_iff.mp hr
          exact ih.cons_cons _
        · exact absurd hr (by simp)
  exact s.attachments.nodup.sublist (hsublist s.attachments.rows)

/-- Every attachment is that of an accepted event. -/
def State.Accepted (sha256 : List UInt8 → List Char) (s : State F) : Prop :=
  ∀ a ∈ s.attachments.rows, ∃ p, s.event_payloads.find a.event_id = some p ∧ Attachments.Accepted sha256 a p

/-- The function returns, every row that was pending is in a file of its own with its bytes,
and no row is pending. -/
structure Materialized (ids : List Uuid) (s : State F) (result : Option Result × State F) : Prop where
  returned : result.1.isSome = true
  written : ∀ a p, (a, p) ∈ s.pending ids → ∃ raw target, decoded p.payload = some raw ∧
    target.relationship_id = a.relationship_id ∧ '/' ∉ target.name ∧ result.2.disk target = some raw ∧
    result.2.attachments.find a.event_id = some { a with stored_path := some target }
  distinct : ∀ a p b q target, (a, p) ∈ s.pending ids → (b, q) ∈ s.pending ids →
    result.2.attachments.find a.event_id = some { a with stored_path := some target } →
    result.2.attachments.find b.event_id = some { b with stored_path := some target } → a.event_id = b.event_id
  none_pending : ∀ a ∈ result.2.attachments.rows, a.relationship_id ∈ ids → a.stored_path ≠ none

theorem no_slash_target (h : SchemaName a.filename) : '/' ∉ a.target.name := by
  have hsafe : '/' ∉ safeName a.filename := by
    obtain heq | ⟨heq, -⟩ := safeName_cases h
    · rw [heq]
      exact fun hmem => (h.no_slash _ hmem).1 rfl
    · rw [heq]
      decide
  have hunderscore : '/' ≠ '_' := by decide
  simp only [Attachment.target, List.mem_append, List.mem_cons, a.event_id.not_mem_chars.2, hunderscore, hsafe, or_self,
    not_false_eq_true]

/-- Every pending attachment is written exactly when every one of them has a name that leaves
room for the event id and has no NUL. -/
theorem materialized_iff (ids : List Uuid) (s : State F) (hs : s.Accepted sha256) (rows : List (Attachment × PayloadRow F))
    (hrows : rows.Perm (s.pending ids)) :
    Materialized ids s (materializeAttachments sha256 rows ids s) ↔
      ∀ a p, (a, p) ∈ s.pending ids → Nameable a.event_id a.filename := by
  have haccepted : ∀ r ∈ rows, Accepted sha256 r.1 r.2 := by
    intro r hr
    obtain ⟨ha, -, hp⟩ := mem_pending.mp (hrows.mem_iff.mp hr)
    obtain ⟨p, hfind, haccepted⟩ := hs r.1 ha
    rw [Option.some.inj (hp.symm.trans hfind)]
    exact haccepted
  have hrun : materializeAttachments sha256 rows ids s = materializeRows sha256 rows {} s := by
    unfold materializeAttachments
    split
    · rename_i hempty
      have hnil : rows = [] := by
        apply List.eq_nil_iff_forall_not_mem.mpr
        intro r hr
        obtain ⟨-, ⟨-, hmem⟩, -⟩ := mem_pending.mp (hrows.mem_iff.mp hr)
        rw [List.isEmpty_iff.mp hempty] at hmem
        exact absurd hmem List.not_mem_nil
      rw [hnil]
      rfl
    · rfl
  rw [hrun]
  constructor
  · intro hmaterialized a p hpending
    by_contra hnot
    obtain ⟨ha, ⟨hnone, -⟩, -⟩ := mem_pending.mp hpending
    obtain ⟨raw, target, -, -, -, -, hfind⟩ := hmaterialized.written a p hpending
    have hsame : ∀ r ∈ rows, r.1.event_id = a.event_id → ¬Nameable r.1.event_id r.1.filename := by
      intro r hr hid
      obtain ⟨hr', -, -⟩ := mem_pending.mp (hrows.mem_iff.mp hr)
      rw [Table.eq_of_key hr' ha hid]
      exact hnot
    rw [materializeRows_skips haccepted hsame, Table.mem_iff_find.mp ha] at hfind
    have hpath := congrArg Attachment.stored_path (Option.some.inj hfind)
    rw [hnone] at hpath
    exact absurd hpath (by simp)
  · intro hnames
    have hids : (rows.map (fun r => r.1.event_id)).Nodup := (hrows.map _).nodup_iff.mpr (nodup_pending s ids)
    obtain ⟨result', s', hloop, hstored, hkept, hfiles, -⟩ := materializeRows_spec haccepted
      (fun r hr => hnames r.1 r.2 (hrows.mem_iff.mp hr)) hids {} s
    rw [hloop]
    have hfound : ∀ a p, (a, p) ∈ s.pending ids →
        s'.attachments.find a.event_id = some { a with stored_path := some a.target } := by
      intro a p hpending
      exact hstored (a, p) (hrows.mem_iff.mpr hpending) a (Table.mem_iff_find.mp (mem_pending.mp hpending).1)
    refine ⟨rfl, ?_, ?_, ?_⟩
    · intro a p hpending
      have hmem := hrows.mem_iff.mpr hpending
      obtain ⟨hname, raw, hraw, -⟩ := haccepted (a, p) hmem
      exact ⟨raw, a.target, hraw, rfl, no_slash_target hname, hfiles (a, p) hmem raw hraw, hfound a p hpending⟩
    · intro a p b q target ha hb hfinda hfindb
      have htargeta := Option.some.inj (congrArg Attachment.stored_path (Option.some.inj ((hfound a p ha).symm.trans hfinda)))
      have htargetb := Option.some.inj (congrArg Attachment.stored_path (Option.some.inj ((hfound b q hb).symm.trans hfindb)))
      have howns := (owns_target b).1
      rw [show b.target = a.target from htargetb.trans htargeta.symm] at howns
      exact (owns_target a).1.eq howns
    · intro a ha hid hnone
      have hfind := Table.mem_iff_find.mp ha
      by_cases hpending : ∃ r ∈ rows, r.1.event_id = a.event_id
      · obtain ⟨r, hr, heq⟩ := hpending
        have hr' := hfound r.1 r.2 (hrows.mem_iff.mp hr)
        rw [heq, hfind] at hr'
        have hpath := congrArg Attachment.stored_path (Option.some.inj hr')
        rw [hnone] at hpath
        exact absurd hpath (by simp)
      · rw [hkept a.event_id (fun r hr heq => hpending ⟨r, hr, heq⟩)] at hfind
        obtain ⟨hmem, -⟩ := Table.find_eq_some.mp hfind
        obtain ⟨p, hp, -⟩ := hs a hmem
        exact hpending ⟨(a, p), hrows.mem_iff.mpr (mem_pending.mpr ⟨hmem, ⟨hnone, hid⟩, hp⟩), rfl⟩

end loop

/-! ## A name with a NUL -/

/-- The UUID of one digit. -/
def uuidOf (c : Char) (h : c ∈ uuidChars) : Uuid where
  digits := List.replicate 36 c
  length := rfl
  mem _ hd := (List.mem_replicate.mp hd).2 ▸ h

theorem mem_uuidChars : '1' ∈ uuidChars ∧ '2' ∈ uuidChars ∧ '3' ∈ uuidChars ∧ '4' ∈ uuidChars := by decide

/-- The digest of the two bytes of "hi". -/
def digestOfHi (_ : List UInt8) : List Char := "8f434346648f6b96df89dda901c5176b10a6d83961dd3c1ac88b59b2dc327aa4".toList

/-- A message with the attachment "hi". -/
def payloadOfHi (event_id : Uuid) : PayloadRow Unit :=
  ⟨event_id, some (.dict [(.str (text "attachment"), .dict [(.str (text "data"), .str (text "aGk="))])])⟩

/-- The attachment "hi" of a relationship, under a name. -/
def attachmentOfHi (event_id relationship_id : Uuid) (filename : List Char) : Attachment :=
  ⟨event_id, relationship_id, filename, 2, digestOfHi [], none⟩

theorem nodup_events : [uuidOf '1' mem_uuidChars.1, uuidOf '2' mem_uuidChars.2.1].Nodup := by decide

/-- One peer sends an attachment under the name `filename`, and then another peer sends one. -/
def twoPeers (filename : List Char) : State Unit where
  attachments := ⟨[attachmentOfHi (uuidOf '1' mem_uuidChars.1) (uuidOf '3' mem_uuidChars.2.2.1) filename,
    attachmentOfHi (uuidOf '2' mem_uuidChars.2.1) (uuidOf '4' mem_uuidChars.2.2.2) "doc.txt".toList], nodup_events⟩
  event_payloads := ⟨[payloadOfHi (uuidOf '1' mem_uuidChars.1), payloadOfHi (uuidOf '2' mem_uuidChars.2.1)], nodup_events⟩
  disk _ := none

/-- Both relationships. -/
def bothPeers : List Uuid := [uuidOf '3' mem_uuidChars.2.2.1, uuidOf '4' mem_uuidChars.2.2.2]

theorem twoPeers_accepted (h : SchemaName filename) : (twoPeers filename).Accepted digestOfHi := by
  have hdoc : SchemaName "doc.txt".toList := .of_all (by decide) (by decide) (by decide)
  have hraw : ∀ id, decoded (payloadOfHi id).payload = some [104, 105] := fun _ => rfl
  refine List.forall_mem_cons.mpr ⟨⟨payloadOfHi _, rfl, h, [104, 105], hraw _, rfl, rfl⟩, List.forall_mem_singleton.mpr
    ⟨payloadOfHi _, rfl, hdoc, [104, 105], hraw _, rfl, rfl⟩⟩

/-- The `ValueError` of the first name leaves the function, and the second attachment stays
pending. -/
theorem nul_blocks : (twoPeers ['a', '\x00']).Accepted digestOfHi ∧
    (materializeAttachments digestOfHi ((twoPeers ['a', '\x00']).pending bothPeers) bothPeers (twoPeers ['a', '\x00'])).1 =
      none ∧
    ¬Materialized bothPeers (twoPeers ['a', '\x00'])
      (materializeAttachments digestOfHi ((twoPeers ['a', '\x00']).pending bothPeers) bothPeers (twoPeers ['a', '\x00'])) := by
  have hname : SchemaName ['a', '\x00'] := .of_all (by decide) (by decide) (by decide)
  have hraised : (materializeAttachments digestOfHi ((twoPeers ['a', '\x00']).pending bothPeers) bothPeers
      (twoPeers ['a', '\x00'])).1 = none := rfl
  refine ⟨twoPeers_accepted hname, hraised, fun h => ?_⟩
  have hreturned := h.returned
  rw [hraised] at hreturned
  exact absurd hreturned (by decide)

/-- With usual names both attachments are written. -/
theorem materialized_usual : Materialized bothPeers (twoPeers "photo.png".toList)
    (materializeAttachments digestOfHi ((twoPeers "photo.png".toList).pending bothPeers) bothPeers
      (twoPeers "photo.png".toList)) := by
  have hname : SchemaName "photo.png".toList := .of_all (by decide) (by decide) (by decide)
  refine (materialized_iff bothPeers (twoPeers "photo.png".toList) (twoPeers_accepted hname) _ (List.Perm.refl _)).mpr ?_
  intro a p hpending
  obtain ⟨hmem, -⟩ := mem_pending.mp hpending
  rcases List.mem_cons.mp hmem with rfl | hmem
  · decide
  · rw [List.mem_singleton.mp hmem]
    decide

end MuseAgentSocial.Attachments
