import Mathlib.Data.List.Dedup
import Mathlib.Tactic.SplitIfs
import MuseAgentSocial.Lib.Faulty

/-!
# Publishing a pair of files

A model of `atomic_write_pair` and `recover_pending_pair` of `_keyfiles.py`, as programs whose
operations can fail and which can be cut between any two of them.

* Every rename and unlink takes place at once and is durable; an `fsync` has no effect, but it
  can raise.
* `Site` names the operations of `atomic_write_pair`, each of which runs at most once.
* A file of the pair is `half` published while the journal can still finish it, and `lost` when
  its temporary is gone and it is the old one: `Journalled` and `Done` say this of the pair.
-/

namespace MuseAgentSocial.KeyFiles

open Faulty Program

/-! ## Files -/

/-- An absolute path. -/
structure Path where
  dirname : String
  basename : String
  deriving DecidableEq, Repr

/-- What a file holds. -/
inductive Content where
  | bytes (data : List UInt8)
  /-- A temporary file that is not written yet, or not to its end. -/
  | staging
  /-- The journal: each `tmp` with its `target`. -/
  | journal (files : List (Path × Path))
  deriving DecidableEq, Repr

/-- The files that exist. -/
abbrev Files := Path → Option Content

/-- The files with another content of one path. -/
def Files.set (fs : Files) (path : Path) (content : Option Content) : Files :=
  fun q => if q = path then content else fs q

/-- `mkstemp`, with the name that it chooses. -/
def create (path : Path) (fs : Files) : Option Files :=
  match fs path with
  | some _ => none
  | none => some (fs.set path (some .staging))

/-- `os.replace` -/
def replace (src dst : Path) (fs : Files) : Option Files :=
  (fs src).map fun content => (fs.set src none).set dst (some content)

/-- `os.unlink` -/
def unlink (path : Path) (fs : Files) : Option Files := (fs path).map fun _ => fs.set path none

/-- The files of a publish. -/
inductive File where
  | a | b | journal
  deriving DecidableEq, Repr

/-! ## The publish -/

/-- The operations of `atomic_write_pair`. -/
inductive Site where
  /-- `_secure_parent_dir` -/
  | secure (f : File)
  /-- `mkstemp` of `_stage_temp`, then its `fchmod`, `write` and `fsync`, and its cleanup. -/
  | create (f : File)
  | fill (f : File)
  | discard (f : File)
  /-- `_unlink_quiet(tmp_a)` when the second file is not staged. -/
  | drop
  /-- `_fsync_dir` before the commit point; for the journal, the commit point. -/
  | sync (f : File)
  | publish (f : File)
  /-- `_unlink_quiet(journal_tmp)` -/
  | dropJournal
  /-- `_unlink_quiet(tmp_a)` and `_unlink_quiet(tmp_b)` -/
  | clean (f : File)
  /-- `_fsync_dir` after the renames. -/
  | resync (f : File)
  | remove
  deriving DecidableEq, Repr

/-- The arguments of a call, with the names that `mkstemp` chooses. -/
structure Pair where
  path_a : Path
  path_b : Path
  journal_path : Path
  data_a : List UInt8
  data_b : List UInt8
  tmp_a : Path
  tmp_b : Path
  journal_tmp : Path
  distinct : [path_a, path_b, journal_path, tmp_a, tmp_b, journal_tmp].Nodup

/-- An operation without an effect on the files. -/
def touch {ι : Type} (i : ι) : Program Files ι Unit := op i some

/-- `_unlink_quiet` -/
def unlinkQuiet (i : Site) (path : Path) : Program Files Site Unit := quiet (op i (unlink path))

/-- `_stage_temp` -/
def stageTemp (f : File) (tmp : Path) (data : Content) : Program Files Site Unit :=
  bind (op (.create f) (create tmp)) fun _ =>
  onError (op (.fill f) fun fs => some (fs.set tmp (some data))) (unlinkQuiet (.discard f) tmp)

namespace Pair

/-- The journal of a publish. -/
def journal (p : Pair) : Content := .journal [(p.tmp_a, p.path_a), (p.tmp_b, p.path_b)]

/-- The two files are in different directories. -/
def Apart (p : Pair) : Prop := p.path_b.dirname ≠ p.path_a.dirname

instance (p : Pair) : Decidable p.Apart := inferInstanceAs (Decidable (_ ≠ _))

/-- Both temporary files are written. -/
def stage (p : Pair) : Program Files Site Unit :=
  bind (touch (.secure .a)) fun _ =>
  bind (touch (.secure .b)) fun _ =>
  bind (touch (.secure .journal)) fun _ =>
  bind (stageTemp .a p.tmp_a (.bytes p.data_a)) fun _ =>
  onError (stageTemp .b p.tmp_b (.bytes p.data_b)) (unlinkQuiet .drop p.tmp_a)

/-- The journal is published: what runs while `journal_written` is false. -/
def commit (p : Pair) : Program Files Site Unit :=
  bind (touch (.sync .a)) fun _ =>
  bind (if p.Apart then touch (.sync .b) else ret ()) fun _ =>
  bind (stageTemp .journal p.journal_tmp p.journal) fun _ =>
  onError
    (bind (op (.publish .journal) (replace p.journal_tmp p.journal_path)) fun _ => touch (.sync .journal))
    (unlinkQuiet .dropJournal p.journal_tmp)

/-- The cleanup while `journal_written` is false. -/
def cleanup (p : Pair) : Program Files Site Unit :=
  bind (unlinkQuiet (.clean .a) p.tmp_a) fun _ => unlinkQuiet (.clean .b) p.tmp_b

/-- What runs once `journal_written` is true: an exception leaves the temporaries. -/
def publish (p : Pair) : Program Files Site Unit :=
  bind (op (.publish .a) (replace p.tmp_a p.path_a)) fun _ =>
  bind (op (.publish .b) (replace p.tmp_b p.path_b)) fun _ =>
  bind (touch (.resync .a)) fun _ =>
  bind (if p.Apart then touch (.resync .b) else ret ()) fun _ =>
  bind (op .remove (unlink p.journal_path)) fun _ => touch (.resync .journal)

end Pair

/-- `atomic_write_pair` -/
def atomicWritePair (p : Pair) : Program Files Site (Path × Path) :=
  bind p.stage fun _ =>
  bind (onError p.commit p.cleanup) fun _ =>
  bind p.publish fun _ =>
  ret (p.path_a, p.path_b)

/-! ## The recovery -/

/-- The operations of `recover_pending_pair`. -/
inductive RecoverSite where
  | read
  | publish (target : Path)
  | sync (dir : String)
  | remove
  | syncJournal
  deriving DecidableEq, Repr

/-- The renames that did not happen. -/
def redrive : List (Path × Path) → Program Files RecoverSite Unit
  | [] => ret ()
  | (tmp, target) :: files =>
    bind (read (fun fs => (fs tmp).isSome)) fun pending =>
    bind (if pending then op (.publish target) (replace tmp target) else ret ()) fun _ =>
    redrive files

/-- `_fsync_dir` of each directory. -/
def syncAll : List String → Program Files RecoverSite Unit
  | [] => ret ()
  | dir :: dirs => bind (touch (.sync dir)) fun _ => syncAll dirs

/-- `recover_pending_pair`; a `KeyFileError` is raised. -/
def recoverPendingPair (journal_path : Path) : Program Files RecoverSite Bool :=
  bind (touch .read) fun _ =>
  bind (read (fun fs => fs journal_path)) fun
    | none => ret false
    | some (.journal files) =>
      bind (redrive files) fun _ =>
      bind (syncAll (files.map (fun e => e.2.dirname)).dedup) fun _ =>
      bind (op .remove (unlink journal_path)) fun _ =>
      bind (touch .syncJournal) fun _ =>
      ret true
    | some _ => raise

/-! ## States of the pair -/

/-- What is left of the publish of one file. -/
inductive Kind where
  | half | lost
  deriving DecidableEq, Repr

/-- The file is on its way to the new content, or its temporary is gone and it is the old one. -/
def Kind.Holds (k : Kind) (tmp target : Path) (old new : Content) (fs : Files) : Prop :=
  match k with
  | .half => fs tmp = some new ∧ fs target = some old ∨ fs tmp = none ∧ fs target = some new
  | .lost => fs tmp = none ∧ fs target = some old

/-- What a recovery makes of the file. -/
def Kind.final (k : Kind) (old new : Content) : Content :=
  match k with
  | .half => new
  | .lost => old

section states

variable (p : Pair) (old_a old_b : Content)

/-- A publish begins: both files exist, the journal does not, and the temporaries are new. -/
structure Start (fs : Files) : Prop where
  a : fs p.path_a = some old_a
  b : fs p.path_b = some old_b
  journal : fs p.journal_path = none
  tmp_a : fs p.tmp_a = none
  tmp_b : fs p.tmp_b = none
  journal_tmp : fs p.journal_tmp = none

/-- The journal names both files. -/
structure Journalled (ka kb : Kind) (fs : Files) : Prop where
  journal : fs p.journal_path = some p.journal
  a : ka.Holds p.tmp_a p.path_a old_a (.bytes p.data_a) fs
  b : kb.Holds p.tmp_b p.path_b old_b (.bytes p.data_b) fs

/-- There is no journal, and each file is what a recovery makes of it. -/
structure Done (ka kb : Kind) (fs : Files) : Prop where
  journal : fs p.journal_path = none
  a : fs p.path_a = some (ka.final old_a (.bytes p.data_a))
  b : fs p.path_b = some (kb.final old_b (.bytes p.data_b))

end states

end MuseAgentSocial.KeyFiles
