import XBus.Lib.Files
import XBus.Lib.Pretty
import XBus.Lib.Trees

/-!
# Migration of the data root

`migrateDataRoot` copies an authoritative legacy root beside the canonical one, moves the canonical
root aside and renames the copy into its place. A journal outside both is written at every step,
and what fails inside `try` is followed by the rollback.

The roots are trees, and so is what stands at the journal's path. Every operation may fail
(`Faults`); one that what stands there does not allow fails by itself. What the rollback does may
not fail. SQLite, the digest and the messages of the platform are not in this repository and are a
parameter.
-/

set_option autoImplicit false

namespace XBus

open Lib
open Lib.Tree (existsAt readAt follow through overwrite ensureDir putEntry lookupEntry withEntries
  mayReplace Entries)

/-! ## Operations -/

inductive Place
  | legacy
  | canonical
  /-- `legacy-source` in the backup directory. -/
  | sourceBackup
  /-- `canonical-pre-migration` in the backup directory. -/
  | destBackup
  | staging
  | journal
  | journalTmp
deriving DecidableEq, Repr

/-- The summaries `migrateDataRoot` makes, in order. -/
inductive Look
  | legacy
  | canonical
  | source
  | staged
deriving DecidableEq, Repr

def Look.place : Look → Place
  | .legacy | .source => .legacy
  | .canonical => .canonical
  | .staged => .staging

/-- The copies it makes of the legacy root. -/
inductive Copying
  | backup
  | staging
deriving DecidableEq, Repr

def Copying.place : Copying → Place
  | .backup => .sourceBackup
  | .staging => .staging

inductive JournalState
  | planned
  | backupsCreated
  | sourceValidated
  | destinationClassified
  | stagingCreated
  | copyComplete
  | copyVerified
  | destinationBackedUp
  | stagingPromoted
  | runtimeInstalled
  | healthVerified
  | committed
  | rollbackStarted
  | rolledBack
  | failed
deriving DecidableEq, Repr

def JournalState.name : JournalState → String
  | .planned => "planned"
  | .backupsCreated => "backups_created"
  | .sourceValidated => "source_validated"
  | .destinationClassified => "destination_classified"
  | .stagingCreated => "staging_created"
  | .copyComplete => "copy_complete"
  | .copyVerified => "copy_verified"
  | .destinationBackedUp => "destination_backed_up"
  | .stagingPromoted => "staging_promoted"
  | .runtimeInstalled => "runtime_installed"
  | .healthVerified => "health_verified"
  | .committed => "committed"
  | .rollbackStarted => "rollback_started"
  | .rolledBack => "rolled_back"
  | .failed => "failed"

/-- What may fail. -/
inductive MigrationOp
  | readSecret (look : Look)
  | statDb (look : Look)
  | hashDb (look : Look)
  | mkdirBackups
  | writeJournal (state : JournalState)
  | renameJournal (state : JournalState)
  | mkdir (c : Copying) (path : List String)
  | readdir (c : Copying) (path : List String)
  | copyFile (c : Copying) (path : List String)
  | readSource (c : Copying) (path : List String)
  | readCopy (c : Copying) (path : List String)
  | removeStaging
  | moveAside
  | promote
deriving DecidableEq, Repr

abbrev Disk := Drive Place Tree MigrationOp
abbrev MigrationFaults := Faults Tree MigrationOp String

/-! ## What is not in this repository -/

/-- What an open database answers; `none` where the statement throws. -/
structure Database where
  integrityCheck : Option String
  tables : Option (List String)
  count : String → Option Nat
  maxVersion : Option Int

structure Platform where
  sha256 : Bytes → String
  /-- The database of a root, unless it cannot be opened. -/
  openDatabase : Tree → Option Database
  /-- The root after its database was opened read-write and closed. -/
  closed : Tree → Tree
  /-- `statSync(…).size` -/
  size : Tree → Nat
  /-- The message of an operation that what stands there does not allow. -/
  message : MigrationOp → String

/-! ## Summaries -/

structure Inspection where
  integrityOk : Option Bool := none
  schemaVersion : Option Int := none
  sessions : Option Nat := none
  messages : Option Nat := none
  aliases : Option Nat := none
  audit : Option Nat := none
deriving DecidableEq, Repr

structure RootSummary where
  root : String
  rootExists : Bool
  hasDb : Bool
  dbBytes : Nat
  dbHash : Option String
  integrityOk : Option Bool
  schemaVersion : Option Int
  sessions : Option Nat
  messages : Option Nat
  aliases : Option Nat
  audit : Option Nat
  hasSecret : Bool
  secretHash : Option String
  hasBrokerState : Bool
  hasMigrationMarker : Bool
deriving DecidableEq, Repr

def dbPath : List String := ["xbus.sqlite"]
def secretPath : List String := ["auth", "root.secret"]
def brokerStatePath : List String := ["broker.state.json"]
def MIGRATION_MARKER : String := ".xbus-migration.json"

/-- What the database of a root reports. A database that throws is not intact. -/
def inspection (p : Platform) (root : Tree) : Inspection :=
  match p.openDatabase root with
  | none => { integrityOk := some false }
  | some db =>
    let integrityOk := some (decide (db.integrityCheck = some "ok"))
    match db.tables with
    | none => { integrityOk }
    | some tables =>
      let count (t : String) : Option Nat := if t ∈ tables then db.count t else none
      { integrityOk
        schemaVersion := if "schema_migrations" ∈ tables then db.maxVersion else none
        sessions := count "sessions"
        messages := count "messages"
        aliases := count "aliases"
        audit := count "audit_events" }

/-- Opening the database may write to the root: a log left by a crash is played back. -/
def inspectDb (p : Platform) (place : Place) : Call Disk String Inspection :=
  Call.act fun d =>
    match (d.files place).bind follow with
    | some root =>
      if existsAt (d.files place) dbPath then
        (inspection p root, d.put place ((d.files place).map (through p.closed)))
      else ({}, d)
    | none => ({}, d)

/-- `try { return readFileSync(…) } catch { return null }` -/
def tryRead (φ : MigrationFaults) (op : MigrationOp) (place : Place) (path : List String) :
    Call Disk String (Option Bytes) :=
  Call.act fun d =>
    match φ op with
    | some _ => (none, d.noteFailed op)
    | none => (readAt (d.files place) path, d)

def statDb (φ : MigrationFaults) (p : Platform) (look : Look) (hasDb : Bool) :
    Call Disk String Nat :=
  if hasDb then do
    Drive.attemptAtomic φ (.statDb look) id
    let d ← Call.get
    return ((Tree.find? (d.files look.place) dbPath).map p.size).getD 0
  else pure 0

def hashDb (φ : MigrationFaults) (p : Platform) (look : Look) (hasDb : Bool) :
    Call Disk String (Option String) :=
  if hasDb then do
    return (← tryRead φ (.hashDb look) look.place dbPath).map p.sha256
  else pure none

/-- A root, without its secret. -/
def summarizeRoot (φ : MigrationFaults) (p : Platform) (look : Look) (root : String) :
    Call Disk String RootSummary := do
  let before := (← Call.get).files look.place
  let hasDb := existsAt before dbPath
  let insp ← inspectDb p look.place
  let secretBytes ← tryRead φ (.readSecret look) look.place secretPath
  let dbBytes ← statDb φ p look hasDb
  let dbHash ← hashDb φ p look hasDb
  let now := (← Call.get).files look.place
  return {
    root, rootExists := existsAt before [], hasDb, dbBytes, dbHash
    integrityOk := insp.integrityOk, schemaVersion := insp.schemaVersion
    sessions := insp.sessions, messages := insp.messages
    aliases := insp.aliases, audit := insp.audit
    hasSecret := secretBytes.isSome
    secretHash := secretBytes.map p.sha256
    hasBrokerState := existsAt now brokerStatePath
    hasMigrationMarker := existsAt now [MIGRATION_MARKER] }

/-! ## Decision -/

inductive RootClass
  | absent
  | empty
  | healthOnly
  | runtimeAuthoritative
  | runtimeNonAuthoritative
  | identicalCopy
  | conflictingRuntimeData
  | corrupt
  | incompleteMigration
  | completedMigration
deriving DecidableEq, Repr

def RootClass.name : RootClass → String
  | .absent => "absent"
  | .empty => "empty"
  | .healthOnly => "health_only"
  | .runtimeAuthoritative => "runtime_authoritative"
  | .runtimeNonAuthoritative => "runtime_non_authoritative"
  | .identicalCopy => "identical_copy"
  | .conflictingRuntimeData => "conflicting_runtime_data"
  | .corrupt => "corrupt"
  | .incompleteMigration => "incomplete_migration"
  | .completedMigration => "completed_migration"

def hasRuntimeData (s : RootSummary) : Bool :=
  s.sessions.getD 0 > 0 || s.messages.getD 0 > 0 || s.aliases.getD 0 > 0 || s.audit.getD 0 > 0

/-- `a && b && a === b` -/
def sameHash (a b : Option String) : Bool :=
  match a, b with
  | some x, some y => x ≠ "" && x = y
  | _, _ => false

def classifyRoot (self other : RootSummary) : RootClass :=
  if self.hasMigrationMarker then .completedMigration
  else if !self.rootExists then .absent
  else if !self.hasDb then (if self.hasSecret then .incompleteMigration else .empty)
  else if self.integrityOk = some false then .corrupt
  else if sameHash self.dbHash other.dbHash then .identicalCopy
  else if !hasRuntimeData self then .healthOnly
  else if other.hasDb && other.integrityOk ≠ some false && hasRuntimeData other
      && self.dbHash ≠ other.dbHash then .conflictingRuntimeData
  else .runtimeAuthoritative

structure RootCounts where
  sessions : Option Nat
  messages : Option Nat
  aliases : Option Nat
  audit : Option Nat
deriving DecidableEq, Repr

structure ConflictDetail where
  legacyRoot : String
  canonicalRoot : String
  legacyCounts : RootCounts
  canonicalCounts : RootCounts
  secretIdentityMatch : Bool
  databaseIdentityMatch : Bool
  recommended : String
deriving DecidableEq, Repr

inductive MigrationDecision
  | noMigration (reason : String)
  | migrate (reason : String)
  | alreadyMigrated (reason : String)
  | conflict (reason : String) (detail : ConflictDetail)
deriving DecidableEq, Repr

def RootSummary.counts (s : RootSummary) :
    RootCounts := ⟨s.sessions, s.messages, s.aliases, s.audit⟩

def conflictDetail (legacy canonical : RootSummary) : ConflictDetail where
  legacyRoot := legacy.root
  canonicalRoot := canonical.root
  legacyCounts := legacy.counts
  canonicalCounts := canonical.counts
  secretIdentityMatch := sameHash legacy.secretHash canonical.secretHash
  databaseIdentityMatch := sameHash legacy.dbHash canonical.dbHash
  recommended := "resolve manually: keep one authoritative root (back up the other), or set "
    ++ "XBUS_DATA_DIR explicitly; see docs/data-migration.md. XBus will not merge databases or "
    ++ "pick automatically."

def bothHaveData : String := "both roots contain non-identical runtime user data"

def decideMigration (legacy canonical : RootSummary) : MigrationDecision :=
  if canonical.hasMigrationMarker then
    .alreadyMigrated "canonical root has a completed-migration marker"
  else match classifyRoot legacy canonical with
    | .absent => .noMigration "legacy root is absent"
    | .empty => .noMigration "legacy root is empty"
    | .healthOnly => .noMigration "legacy root has no runtime user data (health-only)"
    | .identicalCopy => .noMigration
        "legacy and canonical roots are byte-identical; canonical already holds the data"
    | .corrupt => .conflict "legacy authoritative database failed integrity_check"
        (conflictDetail legacy canonical)
    | .runtimeAuthoritative =>
      match classifyRoot canonical legacy with
      | .absent => .migrate "legacy is runtime_authoritative; canonical is absent"
      | .empty => .migrate "legacy is runtime_authoritative; canonical is empty"
      | .healthOnly => .migrate "legacy is runtime_authoritative; canonical is health_only"
      | .identicalCopy => .noMigration "canonical already holds an identical copy"
      | _ => .conflict bothHaveData (conflictDetail legacy canonical)
    | .conflictingRuntimeData => .conflict bothHaveData (conflictDetail legacy canonical)
    | lc => .noMigration s!"legacy classified {lc.name}"

/-! ## Journal -/

structure MigrationJournal where
  migrationId : String
  sourceRoot : String
  destinationRoot : String
  fromVersion : String
  toVersion : String
  sourceDbHash : Option String
  sourceSecretHash : Option String
  destinationPreHash : Option String
  sourceBackup : String
  destinationBackup : Option String
  state : JournalState
  recovery : String
deriving DecidableEq, Repr

def jsonString (s : String) : Json Int := .str (utf16 s)

def nullable : Option String → Json Int
  | some s => jsonString s
  | none => .null

def MigrationJournal.json (j : MigrationJournal) : Json Int :=
  .obj [(utf16 "migrationId", jsonString j.migrationId),
    (utf16 "sourceRoot", jsonString j.sourceRoot),
    (utf16 "destinationRoot", jsonString j.destinationRoot),
    (utf16 "fromVersion", jsonString j.fromVersion),
    (utf16 "toVersion", jsonString j.toVersion),
    (utf16 "sourceDbHash", nullable j.sourceDbHash),
    (utf16 "sourceSecretHash", nullable j.sourceSecretHash),
    (utf16 "destinationPreHash", nullable j.destinationPreHash),
    (utf16 "sourceBackup", jsonString j.sourceBackup),
    (utf16 "destinationBackup", nullable j.destinationBackup),
    (utf16 "state", jsonString j.state.name),
    (utf16 "recovery", jsonString j.recovery)]

/-- `JSON.stringify(j, null, 2) + '\n'` -/
def MigrationJournal.text (j : MigrationJournal) : Bytes := utf8 (j.json.pretty 0 ++ ['\n'])

/-- `renameSync`. It leaves everything as it is where it fails. -/
def renamePlace (φ : MigrationFaults) (p : Platform) (op : MigrationOp) (src dst : Place) :
    Call Disk String Unit := do
  let d ← Call.get
  Call.require ((d.files src).any fun t => mayReplace t (d.files dst)) (p.message op)
  Drive.attemptAtomic φ op fun d => (d.put dst (d.files src)).put src none

def writeJournal (φ : MigrationFaults) (p : Platform) (j : MigrationJournal) :
    Call Disk String Unit := do
  let d ← Call.get
  let written := overwrite (d.files .journalTmp) j.text
  Call.require written.isSome (p.message (.writeJournal j.state))
  Drive.attempt φ (.writeJournal j.state) .journalTmp fun d => d.put .journalTmp written
  renamePlace φ p (.renameJournal j.state) .journalTmp .journal

/-! ## Verified copy -/

/-- Why a copy stopped: the operation that failed, if one that was allowed did. -/
structure Stopped where
  op : Option MigrationOp
  error : String
deriving DecidableEq, Repr

/-- What a copy leaves where it writes, and how many files it counted. -/
structure Copied where
  left : Option Tree
  files : Except Stopped Nat

def failedAt (op : MigrationOp) (m : Mishap Tree String) : Except Stopped Nat :=
  .error ⟨some op, m.error⟩

/-- One file, copied and both sides read again. -/
def copyOne (φ : MigrationFaults) (p : Platform) (c : Copying) (path : List String) (name : String)
    (bytes : Bytes) (dst : Option Tree) : Copied :=
  match overwrite dst bytes, φ (.copyFile c path) with
  | none, _ => ⟨dst, .error ⟨none, p.message (.copyFile c path)⟩⟩
  | some _, some m => ⟨m.leaves, failedAt (.copyFile c path) m⟩
  | some t, none =>
    match φ (.readSource c path), φ (.readCopy c path) with
    | some m, _ => ⟨some t, failedAt (.readSource c path) m⟩
    | none, some m => ⟨some t, failedAt (.readCopy c path) m⟩
    | none, none =>
      if p.sha256 bytes ≠ p.sha256 ((readAt (some t) []).getD []) then
        ⟨some t, .error ⟨none, "copy checksum mismatch: " ++ name⟩⟩
      else ⟨some t, .ok 1⟩

mutual

/-- `copyDirVerified`, of a directory that stands at the path `root`. -/
def copyDir (φ : MigrationFaults) (p : Platform) (c : Copying) (root : String)
    (path : List String) (dst : Option Tree) (src : Tree) : Copied :=
  match ensureDir dst, φ (.mkdir c path) with
  | none, _ => ⟨dst, .error ⟨none, p.message (.mkdir c path)⟩⟩
  | some _, some m => ⟨m.leaves, failedAt (.mkdir c path) m⟩
  | some made, none =>
    match φ (.readdir c path), src with
    | some m, _ => ⟨some made, failedAt (.readdir c path) m⟩
    | none, .dir es =>
      let out := copyEntries φ p c root path made.entries 0 es
      ⟨some (withEntries made out.1), out.2⟩
    | none, _ => ⟨some made, .error ⟨none, p.message (.readdir c path)⟩⟩
termination_by structural src

/-- The rest of a directory, into `dst`. -/
def copyEntries (φ : MigrationFaults) (p : Platform) (c : Copying) (root : String)
    (path : List String) (dst : Entries) (files : Nat) (src : Entries) :
    Entries × Except Stopped Nat :=
  match src with
  | [] => (dst, .ok files)
  | (name, t) :: es =>
    let s := root ++ "/" ++ name
    let there := lookupEntry dst name
    let out : Copied := match t with
      | .link _ =>
        ⟨there, .error ⟨none, "refusing to copy reparse point during migration: " ++ s⟩⟩
      | .dir _ => copyDir φ p c s (path ++ [name]) there t
      | .file bytes => copyOne φ p c (path ++ [name]) name bytes there
    match out.files with
    | .error e => (putEntry dst name out.left, .error e)
    | .ok n => copyEntries φ p c root path (putEntry dst name out.left) (files + n) es
termination_by structural src

end

def copyDirVerified (φ : MigrationFaults) (p : Platform) (c : Copying) (root : String) :
    Call Disk String Nat := fun d =>
  match (d.files .legacy).bind follow with
  | none => (.error (p.message (.readdir c [])), d)
  | some src =>
    let out := copyDir φ p c root [] (d.files c.place) src
    let d := d.put c.place out.left
    match out.files with
    | .ok n => (.ok n, d)
    | .error ⟨some op, e⟩ => (.error e, d.noteFailed op)
    | .error ⟨none, e⟩ => (.error e, d)

/-! ## Migration -/

structure MigrateOptions where
  legacyRoot : String
  canonicalRoot : String
  fromVersion : String
  toVersion : String
  migrationId : String
  /-- Outside both roots. -/
  backupDir : String
  dryRun : Bool := false
deriving DecidableEq, Repr

structure MigrateResult where
  ok : Bool
  migrated : Bool
  decision : MigrationDecision
  finalState : Option JournalState := none
  error : Option String := none
  journal : Option MigrationJournal := none
deriving DecidableEq, Repr

/-- The disk, and the journal as it was last set. -/
structure Migration where
  disk : Disk
  j : MigrationJournal

def onDisk {α : Type} (x : Call Disk String α) : Call Migration String α :=
  Call.zoom Migration.disk (fun m d => { m with disk := d }) id x

def setState (state : JournalState) (m : Migration) : Migration :=
  { m with j := { m.j with state } }

/-- `j.state = …; writeJournal(…)` -/
def enter (φ : MigrationFaults) (p : Platform) (state : JournalState) :
    Call Migration String Unit := do
  Call.modify (setState state)
  let m ← Call.get
  onDisk (writeJournal φ p m.j)

/-- `path.dirname`, of a path that does not end in a slash. -/
def dirname (path : String) : String :=
  let above := ((path.toList.reverse.dropWhile (· ≠ '/')).drop 1).reverse
  String.ofList (if above.isEmpty then ['/'] else above)

def staging (o : MigrateOptions) : String :=
  dirname o.canonicalRoot ++ "/.xbus-data.staging-" ++ o.migrationId

def destinationBackup (o : MigrateOptions) : String := o.backupDir ++ "/canonical-pre-migration"

/-- The existing destination goes aside as a whole. -/
def moveAside (φ : MigrationFaults) (p : Platform) (o : MigrateOptions) :
    Call Migration String Unit := do
  let m ← Call.get
  if existsAt (m.disk.files .canonical) [] then do
    onDisk (renamePlace φ p .moveAside .canonical .destBackup)
    Call.modify fun m =>
      { m with j := { m.j with destinationBackup := some (destinationBackup o) } }
  else return ()

/-- What stands inside `try` before the copy is put in place. -/
def prepare (φ : MigrationFaults) (p : Platform) (o : MigrateOptions) (legacy : RootSummary) :
    Call Migration String Unit := do
  -- 1) backup of the source
  let _ ← onDisk (copyDirVerified φ p .backup o.legacyRoot)
  enter φ p .backupsCreated
  -- 2) the source once more
  let reSrc ← onDisk (summarizeRoot φ p .source o.legacyRoot)
  Call.require (reSrc.integrityOk ≠ some false) "source integrity_check failed at migration time"
  enter φ p .sourceValidated
  -- 3) classification recorded
  enter φ p .destinationClassified
  -- 4) staging beside the destination
  onDisk (Drive.attempt φ .removeStaging .staging fun d => d.put .staging none)
  enter φ p .stagingCreated
  -- 5) copy to staging
  let _ ← onDisk (copyDirVerified φ p .staging o.legacyRoot)
  enter φ p .copyComplete
  -- 6) identity of what was staged
  let staged ← onDisk (summarizeRoot φ p .staged (staging o))
  Call.require (staged.dbHash = legacy.dbHash) "staged db hash != source db hash"
  Call.require (staged.secretHash = legacy.secretHash) "staged secret hash != source secret hash"
  Call.require (staged.integrityOk ≠ some false) "staged db failed integrity_check"
  enter φ p .copyVerified
  -- 7) the destination aside
  moveAside φ p o
  enter φ p .destinationBackedUp

/-- 8) promotion -/
def promote (φ : MigrationFaults) (p : Platform) : Call Migration String Unit :=
  onDisk (renamePlace φ p .promote .staging .canonical)

/-- A journal write of the rollback. -/
def record (state : JournalState) (m : Migration) : Migration :=
  let m := setState state m
  { m with disk := (m.disk.put .journal (some (.file m.j.text))).put .journalTmp none }

/-- The destination's backup goes back, where it was moved aside and nothing stands there. -/
def restore (m : Migration) : Migration :=
  if m.j.destinationBackup.isSome && existsAt (m.disk.files .destBackup) []
      && !existsAt (m.disk.files .canonical) [] then
    { m with disk := (m.disk.put .canonical (m.disk.files .destBackup)).put .destBackup none }
  else m

/-- What stands in `catch`. -/
def rollback (m : Migration) : Migration :=
  let m := record .rollbackStarted m
  let m := { m with disk := m.disk.put .staging none }
  record .rolledBack (restore m)

/-- The two summaries, and what is decided on them. -/
structure Assessment where
  legacy : RootSummary
  canonical : RootSummary
  decision : MigrationDecision
deriving DecidableEq, Repr

def assess (φ : MigrationFaults) (p : Platform) (o : MigrateOptions) :
    Call Disk String Assessment := do
  let legacy ← summarizeRoot φ p .legacy o.legacyRoot
  let canonical ← summarizeRoot φ p .canonical o.canonicalRoot
  return ⟨legacy, canonical, decideMigration legacy canonical⟩

def planned (o : MigrateOptions) (a : Assessment) : MigrationJournal where
  migrationId := o.migrationId
  sourceRoot := o.legacyRoot
  destinationRoot := o.canonicalRoot
  fromVersion := o.fromVersion
  toVersion := o.toVersion
  sourceDbHash := a.legacy.dbHash
  sourceSecretHash := a.legacy.secretHash
  destinationPreHash := a.canonical.dbHash
  sourceBackup := o.backupDir ++ "/legacy-source"
  destinationBackup := none
  state := .planned
  recovery := "resume or rollback from journal"

/-- `try { … } catch { … }` -/
def carryOut (φ : MigrationFaults) (p : Platform) (o : MigrateOptions) (a : Assessment)
    (m : Migration) : MigrateResult × Migration :=
  let body : Call Migration String Unit := do
    prepare φ p o a.legacy
    promote φ p
    enter φ p .stagingPromoted
  match body m with
  | (.ok (), m) =>
    ({ ok := true, migrated := true, decision := a.decision, finalState := some .stagingPromoted,
       journal := some m.j }, m)
  | (.error e, m) =>
    let m := rollback m
    ({ ok := false, migrated := false, decision := a.decision, finalState := some m.j.state,
       error := some e, journal := some m.j }, m)

/-- A migration that was decided on. -/
def migrate (φ : MigrationFaults) (p : Platform) (o : MigrateOptions) (a : Assessment) :
    Call Disk String MigrateResult := do
  Drive.attemptAtomic φ .mkdirBackups id
  writeJournal φ p (planned o a)
  Call.act fun d =>
    let out := carryOut φ p o a ⟨d, planned o a⟩
    (out.1, out.2.disk)

def migrateDataRoot (φ : MigrationFaults) (p : Platform) (o : MigrateOptions) :
    Call Disk String MigrateResult := do
  let a ← assess φ p o
  match a.decision with
  | .conflict .. => return { ok := false, migrated := false, decision := a.decision }
  | .noMigration _ | .alreadyMigrated _ =>
    return { ok := true, migrated := false, decision := a.decision }
  | .migrate _ =>
    if o.dryRun then return { ok := true, migrated := false, decision := a.decision }
    else migrate φ p o a

end XBus
