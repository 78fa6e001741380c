import ActantDb.Lib.EState
import Mathlib.Data.List.Basic

/-!
# Applying an increment

`apply_wal_frames` puts the bytes of the increment in the place of the database's WAL file before it has looked at anything, and compares the LSN afterwards, with the one that it reads from the main file with the increment as its WAL. Where the increment does not chain the WAL file is removed. What the database had committed to its WAL alone is gone by then, whatever the outcome.

SQLite is a parameter: what a connection reads from the two files, how a commit is appended to the WAL, and what a checkpoint makes of the main file. The statements read the files as they stand, as the source means them to: no connection is opened before the bytes are written.
-/

namespace ActantDb

/-- SQLite, as far as the call rests on it. -/
structure Sqlite where
  Main : Type
  Wal : Type
  Contents : Type
  -- no WAL file, or one without a commit
  empty : Wal
  -- the WAL file of these bytes
  file : List UInt8 → Wal
  -- what is committed: the main file, and over it the commits of the WAL
  read : Main → Wal → Contents
  commit : Main → Wal → Contents → Wal
  checkpoint : Main → Wal → Main
  -- `CREATE TABLE IF NOT EXISTS actant_backup_state`
  createState : Contents → Contents
  -- `INSERT OR IGNORE INTO actant_backup_state`
  insertState : Contents → Contents
  lastLsn : Contents → UInt64
  setLsn : UInt64 → Contents → Contents

/-- What SQLite documents of these. -/
structure Sqlite.Lawful (S : Sqlite) : Prop where
  read_commit : ∀ m w c, S.read m (S.commit m w c) = c
  -- a checkpoint that leaves the WAL, and one that truncates it
  read_checkpoint : ∀ m w, S.read (S.checkpoint m w) w = S.read m w
  read_truncated : ∀ m w, S.read (S.checkpoint m w) S.empty = S.read m w
  -- the table and its row are there once they have been created
  create_again : ∀ c, S.createState (S.insertState (S.createState c)) = S.insertState (S.createState c)
  insert_again : ∀ c, S.insertState (S.insertState c) = S.insertState c

structure WalFrames where
  lsn : UInt64
  previousLsn : UInt64
  bytes : List UInt8

structure DatabaseFiles (S : Sqlite) where
  main : S.Main
  wal : S.Wal

inductive ApplyStatement where
  | create
  | insert
  -- `last_lsn` ensures the backup state once more
  | createAgain
  | insertAgain
  | select
  | checkpoint
  | update
deriving DecidableEq

/-- What befalls the call. -/
structure Weather (S : Sqlite) where
  -- `fs::write` fails and leaves this of the WAL file
  torn : Option S.Wal
  -- `fs::metadata` is there to be unwrapped
  measured : Bool
  refused : ApplyStatement → Bool
  -- a checkpoint runs after the statement, or for `wal_checkpoint` finds the database not busy
  absorbs : ApplyStatement → Bool
  -- `fs::remove_file` succeeds
  removed : Bool

inductive ApplyError where
  | inMemory
  | write
  | panicked
  | statement (s : ApplyStatement)
  | outOfOrder (previousLsn current : UInt64)
deriving DecidableEq

namespace Sqlite

variable (S : Sqlite) (weather : Weather S)

/-- A statement that writes, which a refusal leaves undone. -/
def execute (s : ApplyStatement) (f : S.Contents → S.Contents) : EStateM ApplyError (DatabaseFiles S) Unit := fun files =>
  if weather.refused s then .error (.statement s) files
  else
    let wal := S.commit files.main files.wal (f (S.read files.main files.wal))
    .ok () ⟨if weather.absorbs s then S.checkpoint files.main wal else files.main, wal⟩

def ensureBackupState (first second : ApplyStatement) : EStateM ApplyError (DatabaseFiles S) Unit := do
  S.execute weather first S.createState
  S.execute weather second S.insertState

def select : EStateM ApplyError (DatabaseFiles S) UInt64 := fun files =>
  if weather.refused .select then .error (.statement .select) files
  else .ok (S.lastLsn (S.read files.main files.wal)) files

/-- `Storage::last_lsn`. -/
def storedLsn : EStateM ApplyError (DatabaseFiles S) UInt64 := do
  S.ensureBackupState weather .createAgain .insertAgain
  S.select weather

def writeWal (bytes : List UInt8) : EStateM ApplyError (DatabaseFiles S) Unit := fun files =>
  match weather.torn with
  | some torn => .error .write { files with wal := torn }
  | none =>
    let files := { files with wal := S.file bytes }
    if weather.measured then .ok () files else .error .panicked files

def removeWal : EStateM ApplyError (DatabaseFiles S) Unit := fun files =>
  .ok () (if weather.removed then { files with wal := S.empty } else files)

/-- `PRAGMA wal_checkpoint(TRUNCATE)`, which a busy database answers without doing it. -/
def truncate : EStateM ApplyError (DatabaseFiles S) Unit := fun files =>
  if weather.refused .checkpoint then .error (.statement .checkpoint) files
  else .ok () (if weather.absorbs .checkpoint then ⟨S.checkpoint files.main files.wal, S.empty⟩ else files)

/-- The call, from the first statement on. -/
def applyStaged (frames : WalFrames) : EStateM ApplyError (DatabaseFiles S) Unit := do
  S.ensureBackupState weather .create .insert
  let current ← S.storedLsn weather
  if frames.previousLsn ≠ current then
    if frames.bytes ≠ [] then S.removeWal weather
    throw (.outOfOrder frames.previousLsn current)
  if frames.bytes ≠ [] then S.truncate weather
  S.execute weather .update (S.setLsn frames.lsn)

def applyWalFrames (inMemory : Bool) (frames : WalFrames) : EStateM ApplyError (DatabaseFiles S) Unit := do
  if frames.bytes ≠ [] then
    if inMemory then throw .inMemory
    S.writeWal weather frames.bytes
  S.applyStaged weather frames

variable {S} in
/-- Where there is an error, these are the contents. -/
def Kept (before : S.Contents) : EStateM.Result ApplyError (DatabaseFiles S) Unit → Prop
  | .error .panicked _ => True
  | .error _ after => S.read after.main after.wal = before
  | .ok _ _ => True

/-- Where the call returns an error, what was committed still is, and nothing else. -/
def Intact (inMemory : Bool) (frames : WalFrames) (files : DatabaseFiles S) : Prop :=
  Kept (S.read files.main files.wal) (S.applyWalFrames weather inMemory frames files)

/-! ### When it is -/

variable (frames : WalFrames)

/-- What the main file holds with the increment as its WAL, if the increment is one. -/
def staged (files : DatabaseFiles S) : S.Contents :=
  S.read files.main (if frames.bytes = [] then files.wal else S.file frames.bytes)

/-- The same with the backup state. -/
def tracked (c : S.Contents) : S.Contents := S.insertState (S.createState c)

/-- What the main file holds alone, where the two held `c` and it alone `d`, after the checkpoints that have run by the comparison. -/
def alone (c d : S.Contents) : S.Contents :=
  if weather.absorbs .insert ∨ weather.absorbs .createAgain ∨ weather.absorbs .insertAgain then S.tracked c
  else if weather.absorbs .create then S.createState c
  else d

/-- Where the two files hold `c`, and the main file alone `d`, a refusal from here on leaves what was committed, `before`. -/
def StagedHarmless (c d before : S.Contents) : Prop :=
  if weather.refused .create then c = before
  else if weather.refused .insert then S.createState c = before
  else if weather.refused .createAgain ∨ weather.refused .insertAgain ∨ weather.refused .select then S.tracked c = before
  else if frames.previousLsn ≠ S.lastLsn (S.tracked c) then
    -- the file that is removed is the only copy of what was committed to the WAL
    if frames.bytes ≠ [] ∧ weather.removed = true then S.alone weather c d = before else S.tracked c = before
  else if frames.bytes ≠ [] ∧ weather.refused .checkpoint = true ∨ weather.refused .update = true then S.tracked c = before
  else True

def Harmless (inMemory : Bool) (files : DatabaseFiles S) : Prop :=
  if frames.bytes = [] then S.StagedHarmless weather frames (S.staged frames files) (S.read files.main S.empty) (S.read files.main files.wal)
  else if inMemory then True
  else
    match weather.torn with
    | some torn => S.read files.main torn = S.read files.main files.wal
    | none =>
      weather.measured = true →
        S.StagedHarmless weather frames (S.staged frames files) (S.read files.main S.empty) (S.read files.main files.wal)

/-! ### What the files hold, statement by statement -/

variable {S weather frames} {f : DatabaseFiles S} {b c d : S.Contents} {s : ApplyStatement} {g : S.Contents → S.Contents}

/-- What the two files hold, and what the main file holds alone. -/
structure Holds (f : DatabaseFiles S) (c d : S.Contents) : Prop where
  both : S.read f.main f.wal = c
  alone : S.read f.main S.empty = d

/-- The notes of a database, and the LSN where there are a backup state and its row. -/
structure Notes where
  notes : List UInt8
  lastLsn : Option (Option UInt64)
deriving DecidableEq

/-- A database of one page, whose WAL is the list of its commits. Bytes too few for the header of a WAL hold none, and others are not looked at. -/
def notebook : Sqlite where
  Main := Notes
  Wal := List Notes
  Contents := Notes
  empty := []
  file _ := []
  read main wal := wal.getLast?.getD main
  commit _ wal c := wal ++ [c]
  checkpoint main wal := wal.getLast?.getD main
  createState c := { c with lastLsn := some (c.lastLsn.getD none) }
  insertState c := { c with lastLsn := c.lastLsn.map fun lsn => some (lsn.getD 0) }
  lastLsn c := (c.lastLsn.getD none).getD 0
  setLsn lsn c := { c with lastLsn := some (some lsn) }

/-- Nothing fails, and no checkpoint runs but the one that is asked for. -/
def calm : Weather notebook := ⟨none, true, fun _ => false, fun s => s = .checkpoint, true⟩

end Sqlite

end ActantDb
