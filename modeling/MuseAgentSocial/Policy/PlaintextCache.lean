import Mathlib.Data.Rat.Defs
import Mathlib.Algebra.Order.Ring.Unbundled.Rat
import MuseAgentSocial.Lib.Durable
import MuseAgentSocial.Lib.Machine
import MuseAgentSocial.Lib.Table
import MuseAgentSocial.Policy.Retention

/-!
# The plaintext cache

A model of the directory `plaintext_cache` of `policy/retention.py`, with the functions that
write it, `purge_expired_plaintext_cache`, and the part of `retention_scan` that is about it.

* A function is a `Durable.Program` on the policy documents and the directory: it may die
  between any two of its writes.
* A relationship's directory is flat, as the code makes it.  The name of a payload is the id
  of its event, a UUID, so it is never the manifest.
* A time of a file is the value of a float, and so are the moments it is compared with.
* `loads` is `json.loads` of the bytes of a payload, if they are an object.
-/

namespace MuseAgentSocial.Policy.Cache

open Json Canonical Calendar Cli Durable

/-! ## Files -/

/-- What a file holds: the text of an object that was dumped, or bytes. -/
inductive Content (F : Type) where
  | object (record : Document F)
  | bytes (data : List UInt8)

structure File (F : Type) where
  content : Content F
  st_mtime : Rat

/-- The files of a directory under their names. -/
abbrev Files (F : Type) := Table (Prod.fst : Text × File F → Text)

/-- An entry of `plaintext_cache`. -/
inductive Node (F : Type) where
  | dir (files : Files F)
  | file

/-- The policy documents, and `plaintext_cache`; a missing directory is one without entries. -/
structure State (F : Type) where
  rows : Relationships F
  cache : Table (Prod.fst : Text × Node F → Text) := .empty

/-- `_MANIFEST_FILENAME` -/
def MANIFEST_FILENAME : Text := text "optin.json"

/-- `str` of a UUID: 36 lower-case hexadecimal digits and hyphens. -/
def isUuid (t : Text) : Bool :=
  t.length == 36 && t.all (fun c => c.ord == 0x2D || decide (0x30 ≤ c.ord ∧ c.ord ≤ 0x39) ||
    decide (0x61 ≤ c.ord ∧ c.ord ≤ 0x66))

/-- The id of an event. -/
structure EventId where
  text : Text
  uuid : isUuid text = true

/-- `f"{event_id}.json"` -/
def EventId.filename (event_id : EventId) : Text := event_id.text ++ Policy.text ".json"

theorem EventId.filename_ne (event_id : EventId) : event_id.filename ≠ MANIFEST_FILENAME := by
  intro h
  have hlength := congrArg List.length h
  have huuid := event_id.uuid
  rw [isUuid, Bool.and_eq_true, beq_iff_eq] at huuid
  rw [filename, List.length_append, huuid.1] at hlength
  exact absurd hlength (by decide)

section cache

variable {F : Type}

/-- A file of a directory is written. -/
def Node.put (name : Text) (f : File F) : Node F → Node F
  | .dir files => .dir (files.upsert (name, f))
  | .file => .file

/-- A file of a directory is removed. -/
def Node.unlink (name : Text) : Node F → Node F
  | .dir files => .dir (files.delete (fun e => e.1 = name))
  | .file => .file

/-- The entry of a name is replaced. -/
def State.modify (s : State F) (name : Text) (f : Node F → Node F) : State F :=
  { s with cache := s.cache.modify name (fun e => (e.1, f e.2)) (fun _ => rfl) }

/-- The entry of a name is removed. -/
def State.remove (s : State F) (name : Text) : State F := { s with cache := s.cache.delete (fun e => e.1 = name) }

/-- The entry of a name. -/
def State.entry (s : State F) (name : Text) : Option (Node F) := (s.cache.find name).map Prod.snd

/-- `cache_dir.mkdir(parents=True, exist_ok=True)` -/
def mkdir (name : Text) : Program (State F) (Exn F) Unit :=
  Program.bind (.read (State.entry · name)) fun
    | some (.dir _) => .ret ()
    | some .file => .raise .other
    | none => .write fun s => { s with cache := s.cache.upsert (name, .dir .empty) }

/-- `write_text` and `write_bytes`: the file is empty before it is written. -/
def writeFile (dir name : Text) (content : Content F) (st_mtime : Rat) : Program (State F) (Exn F) Unit :=
  Program.bind (.write (State.modify · dir (Node.put name ⟨.bytes [], st_mtime⟩))) fun _ =>
    .write (State.modify · dir (Node.put name ⟨content, st_mtime⟩))

/-! ## The opt-in in force -/

/-- `record.get(key)` -/
def field (record : Document F) (key : String) : Value F := (getItem record (text key)).getD .none

/-- `parse_canonical_utc` of an object; `none` is a `ValueError` or a `TypeError`. -/
def parseMoment : Value F → Option DateTime
  | .str t => parseCanonicalUtc t
  | _ => none

/-- What `plaintext_cache_status` returns. -/
structure Status (F : Type) where
  enabled : Bool := false
  period : Value F := .none
  set_at : Value F := .none
  expires_at : Value F := .none

/-- The opt-in is in force: `expires_at` is `None`, or a moment after this one. -/
def inForce (moment : Text) : Value F → Bool
  | .none => true
  | expires_at =>
    match parseCanonicalUtc moment, parseMoment expires_at with
    | some t, some e => decide (t.instant < e.instant)
    | _, _ => false

/-- `plaintext_cache_status` -/
def plaintextCacheStatus (rows : Relationships F) (relationship_id moment : Text) : Except (Exn F) (Status F) :=
  (loadPolicyDocument .retention_error rows relationship_id).map fun document =>
    match optinRecord document with
    | none => {}
    | some record =>
      { enabled := inForce moment (field record "expires_at")
        period := field record "period"
        set_at := field record "set_at"
        expires_at := field record "expires_at" }

/-- The periods by their names. -/
def Period.all : List Period := [.oneDay, .sevenDays, .thirtyDays, .indefinite]

/-- `PLAINTEXT_CACHE_PERIODS.get(period) if period else None`; a list or a dict cannot be a key. -/
def periodSeconds : Value F → Except (Exn F) (Option Nat)
  | .str s => .ok ((Period.all.find? (fun p => p.name = s)).bind Period.seconds)
  | .list (_ :: _) => .error .other
  | .dict (_ :: _) => .error .other
  | _ => .ok none

/-! ## The functions that write -/

/-- `MAX_ENVELOPE_BYTES` -/
def MAX_ENVELOPE_BYTES : Nat := OBJECT_MAX_BYTES

variable (pads : Bool)

/-- `set_plaintext_cache`, with the time of the manifest. -/
def setPlaintextCache (relationship_id period now : Text) (st_mtime : Rat) : Program (State F) (Exn F) (Document F) :=
  Program.bind (.read (fun s => setPlaintextCacheTxn pads s.rows relationship_id period now)) fun
    | .error e => .raise e
    | .ok (rows, record) =>
      Program.bind (.write fun s => { s with rows := rows }) fun _ =>
      -- `_write_manifest`
      Program.bind (mkdir relationship_id) fun _ =>
      Program.bind (writeFile relationship_id MANIFEST_FILENAME (.object record) st_mtime) fun _ =>
      .ret record

/-- `write_plaintext_cache` -/
def writePlaintextCache (relationship_id : Text) (event_id : EventId) (payload_bytes : List UInt8) (now : Text)
    (st_mtime : Rat) : Program (State F) (Exn F) Unit :=
  if payload_bytes = [] then .raise (.retention_error .invalid_payload (.str event_id.text))
  else if MAX_ENVELOPE_BYTES < payload_bytes.length then .raise (.retention_error .payload_too_large (.str event_id.text))
  else
    Program.bind (.read (fun s => plaintextCacheStatus s.rows relationship_id now)) fun
      | .error e => .raise e
      | .ok status =>
        if status.enabled = false then .raise (.retention_error .plaintext_cache_not_enabled (.str relationship_id))
        else
          Program.bind (mkdir relationship_id) fun _ =>
          writeFile relationship_id event_id.filename (.bytes payload_bytes) st_mtime

/-- `_count_files` of an entry. -/
def countFiles : Node F → Nat
  | .dir files => files.rows.length
  | .file => 1

/-- `shutil.rmtree` -/
def rmtree (name : Text) : Node F → Program (State F) (Exn F) Unit
  | .dir files =>
    Program.bind (Program.forEach files.rows fun e => .write (State.modify · name (Node.unlink e.1))) fun _ =>
    .write (State.remove · name)
  -- `NotADirectoryError`
  | .file => .raise .other

/-- `if cache_dir.exists(): shutil.rmtree(cache_dir)` -/
def rmtreeIfExists (name : Text) : Option (Node F) → Program (State F) (Exn F) Unit
  | some node => rmtree name node
  | none => .ret ()

/-- `delete_plaintext_cache` -/
def deletePlaintextCache (relationship_id : Text) : Program (State F) (Exn F) Nat :=
  Program.bind (.read (State.entry · relationship_id)) fun node =>
  Program.bind (rmtreeIfExists relationship_id node) fun _ =>
  Program.bind (.read (fun s => deletePlaintextCacheTxn s.rows relationship_id)) fun
    | .error e => .raise e
    | .ok rows =>
      Program.bind (.write fun s => { s with rows := rows }) fun _ =>
      .ret ((node.map countFiles).getD 0)

/-! ## The purge -/

/-- The seconds since 1970 of a moment, as `timestamp()` has them. -/
def timestamp (d : DateTime) : Rat := (d.instant : Rat) - unixEpoch

/-- The file is older than the period allows. -/
def tooOld (now : DateTime) (seconds : Nat) (f : File F) : Bool := decide (f.st_mtime < timestamp now - seconds)

/-- The files of a directory that are not the manifest. -/
def payloads (files : Files F) : List (Text × File F) := files.rows.filter (fun e => e.1 ≠ MANIFEST_FILENAME)

/-- What the purge looks up for a directory: whether an opt-in is in force, and its seconds. -/
def purgeStatus (rows : Relationships F) (name moment : Text) : Except (Exn F) (Bool × Option Nat) :=
  match rows name with
  | none => .ok (false, none)
  | some _ =>
    (plaintextCacheStatus rows name moment).bind fun status =>
      (periodSeconds status.period).map fun seconds => (status.enabled, seconds)

/-- The files of a directory that the purge removes, given what it has looked up: how many. -/
def purgeFiles (now : DateTime) (name : Text) (files : Files F) :
    Except (Exn F) (Bool × Option Nat) → Program (State F) (Exn F) Nat
  | .error e => .raise e
  | .ok (false, _) => Program.bind (rmtree name (.dir files)) fun _ => .ret (countFiles (.dir files))
  | .ok (true, none) => .ret 0
  | .ok (true, some seconds) =>
    let old := (payloads files).filter (fun e : Text × File F => tooOld now seconds e.2)
    Program.bind (Program.forEach old fun e => .write (State.modify · name (Node.unlink e.1))) fun _ => .ret old.length

/-- The pass of `purge_expired_plaintext_cache` for one entry: how many files it removes. -/
def purgeEntry (moment : Text) (now : DateTime) (name : Text) : Node F → Program (State F) (Exn F) Nat
  | .file => Program.bind (.write (State.remove · name)) fun _ => .ret 1
  | .dir files => Program.bind (.read (fun s => purgeStatus s.rows name moment)) (purgeFiles now name files)

/-- The loop over the entries. -/
def purgeEntries (moment : Text) (now : DateTime) : List (Text × Node F) → Nat → Program (State F) (Exn F) Nat
  | [], removed => .ret removed
  | e :: entries, removed =>
    Program.bind (purgeEntry moment now e.1 e.2) fun n => purgeEntries moment now entries (removed + n)

/-- `purge_expired_plaintext_cache` -/
def purgeExpiredPlaintextCache (moment : Text) : Program (State F) (Exn F) Nat :=
  match parseCanonicalUtc moment with
  | none => .raise .conversion
  | some now => Program.bind (.read (fun s => s.cache.rows)) fun entries => purgeEntries moment now entries 0

/-! ## The scan -/

/-- The reasons of the findings in the cache. -/
inductive Reason where
  | stray_file_in_plaintext_cache | stale_or_unauthorized_plaintext_cache | expired_optin_plaintext_cache
  | cache_file_older_than_period
  deriving DecidableEq, Repr

/-- A finding: the entry, and the file in it. -/
structure Finding where
  entry : Text
  file : Option Text := none
  reason : Reason
  deriving DecidableEq, Repr

variable (loads : List UInt8 → Option (Document F))

/-- `_read_manifest` -/
def readManifest (files : Files F) : Option (Document F) :=
  match files.find MANIFEST_FILENAME with
  | some (_, ⟨.object record, _⟩) => some record
  | some (_, ⟨.bytes data, _⟩) => loads data
  | none => none

/-- `_manifest_covers`; `none` is a file that is covered. -/
def manifestCovers (record : Option (Document F)) (now : DateTime) (f : File F) : Except (Exn F) (Option Reason) :=
  match record with
  | none => .ok (some .stale_or_unauthorized_plaintext_cache)
  | some record =>
    match field record "expires_at" with
    | .none => age record
    | expires_at =>
      match parseMoment expires_at with
      | none => .ok (some .stale_or_unauthorized_plaintext_cache)
      | some e => if e.instant ≤ now.instant then .ok (some .expired_optin_plaintext_cache) else age record
where
  /-- The age of the file against the period. -/
  age (record : Document F) : Except (Exn F) (Option Reason) :=
    (periodSeconds (field record "period")).map fun
      | some seconds => if tooOld now seconds f then some .cache_file_older_than_period else none
      | none => none

/-- The findings in one entry. -/
def scanEntry (now : DateTime) : Text × Node F → Except (Exn F) (List Finding)
  | (name, .file) => .ok [⟨name, none, .stray_file_in_plaintext_cache⟩]
  | (name, .dir files) =>
    ((payloads files).mapM fun e => (manifestCovers (readManifest loads files) now e.2).map
      (Option.map fun reason => ⟨name, some e.1, reason⟩)).map List.reduceOption

/-- The findings of `retention_scan` inside `plaintext_cache`, up to their order. -/
def retentionScan (moment : Text) (s : State F) : Except (Exn F) (List Finding) :=
  match parseCanonicalUtc moment with
  | none => .error .conversion
  | some now => (s.cache.rows.mapM (scanEntry loads now)).map List.flatten

end cache

end MuseAgentSocial.Policy.Cache
