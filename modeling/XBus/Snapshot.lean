import XBus.Lib.Files
import XBus.Lib.Wal

/-!
# Snapshot of the database

`cli/db-snapshot.ts`: before an upgrade the database is checkpointed and its files are copied beside
a manifest of their digests; a rollback verifies the copies and puts the main file back.

Files are named by what they are, and hold pages, frames of a log or an index. Any operation may
fail (`Faults`), which is also how a process that stops there is told: what an interrupted copy
leaves is its temporary file. The engine is not in this repository. What it can do to the files is
`Checkpoint`; the digest and the names of the platform are a parameter.
-/

set_option autoImplicit false

namespace XBus

open Lib

variable {β : Type}

/-! ## Files -/

inductive Suffix
  | main
  | wal
  | shm
deriving DecidableEq, Repr

def Suffix.text : Suffix → String
  | .main => ""
  | .wal => "-wal"
  | .shm => "-shm"

def SIDECAR_SUFFIXES : List Suffix := [.main, .wal, .shm]

inductive DbFile
  /-- Beside the database of this path. -/
  | live (dbPath : String) (suffix : Suffix)
  | restoreTmp (dbPath : String)
  /-- In the backup directory, under the base name of the database. -/
  | archived (base : String) (suffix : Suffix)
  | archivedTmp (base : String) (suffix : Suffix)
  | manifest
  | manifestTmp
deriving DecidableEq, Repr

structure SnapshotFileEntry where
  suffix : Suffix
  sha256 : String
  bytes : Nat
deriving DecidableEq, Repr

structure SnapshotManifest where
  dbPath : String
  createdAtMs : Int
  files : List SnapshotFileEntry
deriving DecidableEq, Repr

/-- What a file holds. -/
inductive Stored (β : Type)
  | pages (pages : List β)
  | frames (log : List (Wal.Frame β))
  | index (bytes : List UInt8)
  | manifest (manifest : SnapshotManifest)
  /-- Anything else, such as half a file. -/
  | other (bytes : List UInt8)
deriving DecidableEq, Repr

inductive SnapshotOp
  | mkdir
  | copy (src dst : DbFile)
  | rename (src dst : DbFile)
  | remove (file : DbFile)
  | read (file : DbFile)
  | write (file : DbFile)
deriving DecidableEq, Repr

abbrev DbDrive (β : Type) := Drive DbFile (Stored β) SnapshotOp

abbrev DbFaults (β : Type) := Faults (Stored β) SnapshotOp String

abbrev DbCall (β α : Type) := Call (DbDrive β) String α

structure SnapshotEnv (β : Type) where
  sha256 : Stored β → String
  bytes : Stored β → Nat
  basename : String → String
  /-- `path.join` with the backup directory. -/
  inBackup : String → String

namespace DbDrive

def existsAt (d : DbDrive β) (f : DbFile) : Bool := (d.files f).isSome

/-- The frames of a log; what is not a log has none. -/
def framesOf : Option (Stored β) → List (Wal.Frame β)
  | some (.frames log) => log
  | _ => []

/-- What opening the database of this path shows. -/
def logical [Inhabited β] (d : DbDrive β) (dbPath : String) : Option (List β) :=
  match d.files (.live dbPath .main) with
  | some (.pages main) => some (Wal.content main (framesOf (d.files (.live dbPath .wal))))
  | _ => none

end DbDrive

/-! ## Checkpoint -/

/-- How `PRAGMA wal_checkpoint(TRUNCATE)` and the closing of the handle come out. -/
inductive Checkpoint
  /-- The log is folded in. It is truncated, or closing the handle removed it with its index. -/
  | complete (removed : Bool)
  /-- Another handle is in the way: what is before its mark is folded in, and the log is kept. -/
  | busy (mark : Nat)
  /-- An error, after some pages were copied. -/
  | failing (mark : Nat) (pages : List Nat) (message : String)
deriving DecidableEq, Repr

structure CheckpointResult where
  ok : Bool
  detail : String
deriving DecidableEq, Repr

namespace Checkpoint

def result : Checkpoint → CheckpointResult
  | complete _ => ⟨true, "checkpoint complete"⟩
  | busy _ => ⟨false, "checkpoint busy (another handle open?)"⟩
  | failing _ _ message => ⟨false, "checkpoint failed: " ++ message⟩

/-- The main file afterwards. -/
def mainAfter [Inhabited β] (o : Checkpoint) (main : List β) (log : List (Wal.Frame β)) : List β :=
  match o with
  | complete _ => Wal.content main log
  | busy mark => Wal.backfill mark (((Wal.committed log).take mark).map Wal.Frame.page) main log
  | failing mark pages _ => Wal.backfill mark pages main log

/-- The log and its index afterwards. -/
def sidecarsAfter (o : Checkpoint) (dbPath : String) (d : DbDrive β) : DbDrive β :=
  match o with
  | complete true => (d.put (.live dbPath .wal) none).put (.live dbPath .shm) none
  | complete false => d.put (.live dbPath .wal) (some (.frames []))
  | _ => d

end Checkpoint

def checkpointMainDb [Inhabited β] (o : Checkpoint) (dbPath : String) :
    DbCall β CheckpointResult := fun d =>
  if d.existsAt (.live dbPath .main) then
    match d.files (.live dbPath .main) with
    | some (.pages main) =>
      let log := DbDrive.framesOf (d.files (.live dbPath .wal))
      (.ok o.result,
        o.sidecarsAfter dbPath
          (d.put (.live dbPath .main) (some (.pages (o.mainAfter main log)))))
    -- what is not a database cannot be opened
    | _ => (.ok ⟨false, "checkpoint failed: file is not a database"⟩, d)
  else (.ok ⟨true, "no db"⟩, d)

/-! ## Snapshot -/

section Snapshot

variable (env : SnapshotEnv β) (φ : DbFaults β)

def sha256File (f : DbFile) : DbCall β (String × Nat) := do
  Drive.attemptAtomic φ (.read f) id
  let d ← Call.get
  match d.files f with
  | some c => pure (env.sha256 c, env.bytes c)
  | none => Call.lift (.error "ENOENT")

def copyFile (src dst : DbFile) : DbCall β Unit :=
  Drive.attempt φ (.copy src dst) dst fun d => d.put dst (d.files src)

def renameFile (src dst : DbFile) : DbCall β Unit :=
  Drive.attemptAtomic φ (.rename src dst) fun d => (d.put dst (d.files src)).put src none

/-- Copy what exists of the given files, one after another. -/
def archiveFiles (dbPath : String) : List Suffix → DbCall β (List SnapshotFileEntry)
  | [] => pure []
  | suffix :: suffixes => do
    let d ← Call.get
    if d.existsAt (.live dbPath suffix) then do
      let dst := DbFile.archived (env.basename dbPath) suffix
      let tmp := DbFile.archivedTmp (env.basename dbPath) suffix
      copyFile φ (.live dbPath suffix) tmp
      renameFile φ tmp dst
      let digest ← sha256File env φ dst
      let files ← archiveFiles dbPath suffixes
      pure (⟨suffix, digest.1, digest.2⟩ :: files)
    else archiveFiles dbPath suffixes

def writeManifest (m : SnapshotManifest) : DbCall β Unit := do
  Drive.attempt φ (.write .manifestTmp) .manifestTmp fun d =>
    d.put .manifestTmp (some (.manifest m))
  renameFile φ .manifestTmp .manifest

def snapshotDb (dbPath : String) (nowMs : Int) : DbCall β (Option SnapshotManifest) := do
  let d ← Call.get
  if d.existsAt (.live dbPath .main) then do
    Drive.attemptAtomic φ .mkdir id
    let files ← archiveFiles env φ dbPath SIDECAR_SUFFIXES
    let manifest : SnapshotManifest := ⟨dbPath, nowMs, files⟩
    writeManifest φ manifest
    pure (some manifest)
  else pure none

def snapshotDbCheckpointed [Inhabited β] (o : Checkpoint) (dbPath : String) (nowMs : Int) :
    DbCall β (Option SnapshotManifest) := do
  let _ ← checkpointMainDb o dbPath
  snapshotDb env φ dbPath nowMs

/-! ## Restore -/

def readSnapshotManifest : DbCall β (Option SnapshotManifest) := fun d =>
  match Drive.attemptAtomic φ (.read .manifest) id d with
  | (.ok (), d) =>
    match d.files .manifest with
    | some (.manifest m) => (.ok (some m), d)
    | _ => (.ok none, d)
  | (.error _, d) => (.ok none, d)

structure VerifyResult where
  ok : Bool
  detail : Option String
deriving DecidableEq, Repr

def verifyFiles (dbPath : String) : List SnapshotFileEntry → DbCall β VerifyResult
  | [] => pure ⟨true, none⟩
  | f :: files => do
    let d ← Call.get
    let name := env.basename dbPath ++ f.suffix.text
    if d.existsAt (.archived (env.basename dbPath) f.suffix) then do
      let digest ← sha256File env φ (.archived (env.basename dbPath) f.suffix)
      if digest.1 ≠ f.sha256 ∨ digest.2 ≠ f.bytes then
        pure ⟨false, some ("archive digest mismatch for " ++ name)⟩
      else verifyFiles dbPath files
    else pure ⟨false, some ("missing archived file " ++ env.inBackup name)⟩

def verifySnapshot (m : SnapshotManifest) : DbCall β VerifyResult :=
  verifyFiles env φ m.dbPath m.files

structure RestoreResult where
  ok : Bool
  detail : String
deriving DecidableEq, Repr

/-- `rmSync` of what exists of the live sidecars. -/
def removeSidecars (dbPath : String) : List Suffix → DbCall β Unit
  | [] => pure ()
  | suffix :: suffixes => do
    let d ← Call.get
    if d.existsAt (.live dbPath suffix) then do
      Drive.attemptAtomic φ (.remove (.live dbPath suffix)) fun d =>
        d.put (.live dbPath suffix) none
      removeSidecars dbPath suffixes
    else removeSidecars dbPath suffixes

/-- What is done inside `try`. -/
def putBack (dbPath : String) : DbCall β Unit := do
  copyFile φ (.archived (env.basename dbPath) .main) (.restoreTmp dbPath)
  removeSidecars φ dbPath [.wal, .shm]
  renameFile φ (.restoreTmp dbPath) (.live dbPath .main)

/-- What `putBack` throws is caught. -/
def restoreMainDb (dbPath : String) : DbCall β RestoreResult := fun d =>
  match putBack env φ dbPath d with
  | (.ok (), d) =>
    (.ok ⟨true,
      "restored main DB from checkpointed snapshot (sidecars rebuilt by SQLite on open)"⟩, d)
  | (.error e, d) => (.ok ⟨false, "restore failed: " ++ e⟩, d)

def restoreDbSnapshot : DbCall β RestoreResult := do
  let manifest ← readSnapshotManifest φ
  match manifest with
  | none => pure ⟨false, "no snapshot manifest to restore"⟩
  | some m =>
    let v ← verifySnapshot env φ m
    if v.ok then
      if m.files.any fun f => f.suffix = .main then restoreMainDb env φ m.dbPath
      else pure ⟨false, "snapshot has no main DB file"⟩
    else pure ⟨false, "snapshot verify failed: " ++ v.detail.getD "undefined"⟩

end Snapshot

end XBus
