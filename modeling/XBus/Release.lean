import XBus.Lib.Grouping
import XBus.Lib.Places

/-!
# The release archive

`tools/package-release-zip.ts`: the files of an artifact directory are collected, sorted and stored
one after the other, a central directory and an end record behind them, and the archive is then read
back through these and compared with `SHA256SUMS`. The two digests and the case folding are
parameters. What the host reads, writes, hashes or decodes in one call has a limit, beyond which it
throws. The archive is not kept on a disk between writing and reading, and the provenance file next
to it is left out.
-/

set_option autoImplicit false

namespace XBus

open Lib

/-! ## Collecting -/

/-- What a directory lists. -/
inductive ArtifactNode where
  | file (data : Bytes)
  | directory (entries : List (List Char × ArtifactNode))
  /-- A symbolic link or a reparse point. -/
  | symlink
  /-- A device, a socket and the like. -/
  | special

inductive PackError
  | notFound
  | notFrozen
  | symlink (path : List Char)
  | notRegular (path : List Char)
  | collision (name prev : List Char)
  /-- A number that its field has no room for, a read beyond the buffer, a write that is too
    long. -/
  | range
  /-- `ERR_FS_FILE_TOO_LARGE` -/
  | fileTooLarge
  /-- `data is too long` -/
  | dataTooLong
  /-- `ERR_STRING_TOO_LONG` -/
  | stringTooLong
  /-- `EISDIR` -/
  | isDirectory
  | endNotFound
  | badCentralDirectory
  | badLocalHeader (name : List Char)
  | notStored (name : List Char) (method : Nat)
  | crcMismatch (name : List Char)
  | notCovered (name : List Char)
  | shaMismatch (name : List Char) (actual expected : List Char)
  | missing (name : List Char)
deriving DecidableEq, Repr

structure PackEnv where
  crc32 : Bytes → UInt32
  /-- In hexadecimal digits. -/
  sha256 : Bytes → List Char
  toLowerCase : List Char → List Char

/-! The host's calls, on what is in the file or the buffer. -/

/-- The most bytes of one call: 2 GiB less one. -/
def MAX_BYTES : Nat := 0x7fffffff

/-- From this many bytes on a file does not become a string. -/
def MAX_STRING : Nat := 0x1fffffe8

def inOneCall (tooMany : PackError) (bs : Bytes) : Except PackError Bytes :=
  if bs.length ≤ MAX_BYTES then .ok bs else .error tooMany

def readFileSync (bs : Bytes) : Except PackError Bytes := inOneCall .fileTooLarge bs

def writeFileSync (bs : Bytes) : Except PackError Bytes := inOneCall .range bs

/-- `fs.readFileSync(path, 'utf8')` -/
def readTextSync (bs : Bytes) : Except PackError (List Char) := do
  let bs ← readFileSync bs
  if bs.length < MAX_STRING then .ok (readUtf8 bs) else .error .stringTooLong

/-- `createHash('sha256').update(data).digest('hex')` -/
def createHash (env : PackEnv) (data : Bytes) : Except PackError (List Char) := do
  let data ← inOneCall .dataTooLong data
  return env.sha256 data

structure PackFile where
  name : List Char
  data : Bytes
deriving DecidableEq, Repr

def STAGING_ONLY_FILES : List (List Char) := [".xbus-staging".toList]

mutual

/-- What `walk` makes of an entry, whose path below the root is `rel`. -/
def collectNode (rel : List Char) : ArtifactNode → Except PackError (List PackFile)
  | .symlink => .error (.symlink rel)
  | .directory es => collectEntries (rel ++ ['/']) es
  | .special => .error (.notRegular rel)
  | .file data => if rel ∈ STAGING_ONLY_FILES then .ok [] else .ok [{ name := rel, data }]

/-- `walk`, of a directory below which paths start with `pre`. -/
def collectEntries (pre : List Char) :
    List (List Char × ArtifactNode) → Except PackError (List PackFile)
  | [] => .ok []
  | (name, node) :: es => do
    let here ← collectNode (pre ++ name) node
    let rest ← collectEntries pre es
    return here ++ rest

end

def collectFiles (es : List (List Char × ArtifactNode)) : Except PackError (List PackFile) :=
  collectEntries [] es

/-- `seen` is the map from folded paths to paths. -/
def checkCollisions (env : PackEnv) :
    List PackFile → List (List Char × List Char) → Except PackError Unit
  | [], _ => .ok ()
  | f :: fs, seen =>
    match seen.find? fun s => s.1 = env.toLowerCase f.name with
    | some s => .error (.collision f.name s.2)
    | none => checkCollisions env fs ((env.toLowerCase f.name, f.name) :: seen)

/-- `Buffer.compare(a, b) <= 0` -/
def bytesLe : Bytes → Bytes → Bool
  | [], _ => true
  | _ :: _, [] => false
  | a :: as, b :: bs => a.toNat < b.toNat || (a = b && bytesLe as bs)

def sortFiles (files : List PackFile) : List PackFile :=
  files.insertionSort fun a b => bytesLe (utf8 a.name) (utf8 b.name)

/-! ## Writing -/

def DOS_DATE : Nat := 0x0021
def DOS_TIME : Nat := 0
def VERSION_NEEDED : Nat := 20
def VERSION_MADE_BY : Nat := 20

def LOCAL_SIGNATURE : Nat := 0x04034b50
def CENTRAL_SIGNATURE : Nat := 0x02014b50
def END_SIGNATURE : Nat := 0x06054b50

/-- `writeUInt16LE` and `writeUInt32LE`, of 2 and of 4 bytes. -/
def writeUInt (width n : Nat) : Except PackError Bytes :=
  if n < 256 ^ width then .ok (leWord width n) else .error .range

structure ZipFileEntry where
  name : List Char
  data : Bytes
  crc32 : UInt32
  offset : Nat
deriving DecidableEq, Repr

def localHeader (crc : UInt32) (size nameLen : Nat) : Except PackError Bytes := do
  let sizeBytes ← writeUInt 4 size
  let nameLenBytes ← writeUInt 2 nameLen
  return leWord 4 LOCAL_SIGNATURE ++ (leWord 2 VERSION_NEEDED ++ (leWord 2 0 ++ (leWord 2 0 ++
    (leWord 2 DOS_TIME ++ (leWord 2 DOS_DATE ++ (leWord 4 crc.toNat ++ (sizeBytes ++ (sizeBytes ++
      (nameLenBytes ++ leWord 2 0)))))))))

/-- The first loop: the entries, their bytes, and the offset behind them. -/
def localRecords (env : PackEnv) :
    Nat → List PackFile → Except PackError (List ZipFileEntry × Bytes × Nat)
  | offset, [] => .ok ([], [], offset)
  | offset, f :: fs => do
    let data ← readFileSync f.data
    let lfh ← localHeader (env.crc32 data) data.length (utf8 f.name).length
    let (entries, bytes, behind) ←
      localRecords env (offset + (lfh.length + (utf8 f.name).length + data.length)) fs
    return ({ name := f.name, data, crc32 := env.crc32 data, offset } :: entries,
      lfh ++ (utf8 f.name ++ (data ++ bytes)), behind)

def centralHeader (e : ZipFileEntry) : Except PackError Bytes := do
  let sizeBytes ← writeUInt 4 e.data.length
  let nameLenBytes ← writeUInt 2 (utf8 e.name).length
  let offsetBytes ← writeUInt 4 e.offset
  return leWord 4 CENTRAL_SIGNATURE ++ (leWord 2 VERSION_MADE_BY ++ (leWord 2 VERSION_NEEDED ++
    (leWord 2 0 ++ (leWord 2 0 ++ (leWord 2 DOS_TIME ++ (leWord 2 DOS_DATE ++
      (leWord 4 e.crc32.toNat ++ (sizeBytes ++ (sizeBytes ++ (nameLenBytes ++ (leWord 2 0 ++
        (leWord 2 0 ++ (leWord 2 0 ++ (leWord 2 0 ++ (leWord 4 0 ++ offsetBytes)))))))))))))))

/-- The second loop: the bytes, and the offset behind them. -/
def centralRecords : Nat → List ZipFileEntry → Except PackError (Bytes × Nat)
  | offset, [] => .ok ([], offset)
  | offset, e :: es => do
    let cdh ← centralHeader e
    let (bytes, behind) ← centralRecords (offset + (cdh.length + (utf8 e.name).length)) es
    return (cdh ++ (utf8 e.name ++ bytes), behind)

def endRecord (count centralSize centralStart : Nat) : Except PackError Bytes := do
  let countBytes ← writeUInt 2 count
  let sizeBytes ← writeUInt 4 centralSize
  let startBytes ← writeUInt 4 centralStart
  return leWord 4 END_SIGNATURE ++ (leWord 2 0 ++ (leWord 2 0 ++ (countBytes ++ (countBytes ++
    (sizeBytes ++ (startBytes ++ leWord 2 0))))))

/-- The archive of the files in this order, and how many entries it has. -/
def archiveOf (env : PackEnv) (files : List PackFile) : Except PackError (Bytes × Nat) := do
  let (entries, locals, centralStart) ← localRecords env 0 files
  let (centrals, behind) ← centralRecords centralStart entries
  let eocd ← endRecord entries.length (behind - centralStart) centralStart
  return (locals ++ (centrals ++ eocd), entries.length)

/-! ## Reading -/

/-- `readUInt16LE` and `readUInt32LE`. -/
def readUInt (width : Nat) (buf : Bytes) (i : Nat) : Except PackError Nat :=
  match word? width buf i with
  | some n => .ok n
  | none => .error .range

/-- The last place of the end record's signature, looked for where no comment follows it first. -/
def findEnd (buf : Bytes) : Except PackError Nat :=
  if 22 ≤ buf.length ∧ word? 4 buf (buf.length - 22) = some END_SIGNATURE then .ok (buf.length - 22)
  else if 22 ≤ buf.length then
    match (List.range (buf.length - 22 + 1)).reverse.find? fun i =>
        word? 4 buf i = some END_SIGNATURE with
    | some i => .ok i
    | none => .error .endNotFound
  else .error .endNotFound

def isHexDigit (c : Char) : Bool := ('0' ≤ c && c ≤ '9') || ('a' ≤ c && c ≤ 'f')

/-- What `.` of an expression does not match. -/
def lineTerminators : List Char := ['\n', '\r', '\u2028', '\u2029']

/-- `/^([0-9a-f]{64}) {2}(.+)$/`: the path and the digest. -/
def parseSumLine (line : List Char) : Option (List Char × List Char) :=
  let digest := line.take 64
  let path := line.drop 66
  if digest.length = 64 ∧ digest.all isHexDigit ∧ (line.drop 64).take 2 = [' ', ' '] ∧
      path ≠ [] ∧ path.all (· ∉ lineTerminators) then some (path, digest)
  else none

/-- The lines of `SHA256SUMS` that list a file, in their order. -/
def listedSums (sums : List Char) : List (List Char × List Char) :=
  (sums.splitOn '\n').filterMap parseSumLine

/-- `sumByPath.get(name)`: what was set last. -/
def sumOf (listed : List (List Char × List Char)) (name : List Char) : Option (List Char) :=
  ((listed.filter fun l => l.1 = name).getLast?).map Prod.snd

structure ReadEntry where
  name : List Char
  data : Bytes
  next : Nat
deriving DecidableEq, Repr

/-- What one round reads: the central header at `cd`, the local header it points at, and the
    data. -/
def readEntry (env : PackEnv) (buf : Bytes) (cd : Nat) : Except PackError ReadEntry := do
  let signature ← readUInt 4 buf cd
  if signature ≠ CENTRAL_SIGNATURE then .error .badCentralDirectory
  else
    let method ← readUInt 2 buf (cd + 10)
    let crc ← readUInt 4 buf (cd + 16)
    let compSize ← readUInt 4 buf (cd + 20)
    let nameLen ← readUInt 2 buf (cd + 28)
    let extraLen ← readUInt 2 buf (cd + 30)
    let commentLen ← readUInt 2 buf (cd + 32)
    let lho ← readUInt 4 buf (cd + 42)
    let name := readUtf8 (slice buf (cd + 46) (cd + 46 + nameLen))
    if method ≠ 0 then .error (.notStored name method)
    else
      let localSignature ← readUInt 4 buf lho
      if localSignature ≠ LOCAL_SIGNATURE then .error (.badLocalHeader name)
      else
        let lNameLen ← readUInt 2 buf (lho + 26)
        let lExtraLen ← readUInt 2 buf (lho + 28)
        let dataStart := lho + 30 + lNameLen + lExtraLen
        let data := slice buf dataStart (dataStart + compSize)
        if (env.crc32 data).toNat ≠ crc then .error (.crcMismatch name)
        else return { name, data, next := cd + (46 + nameLen + extraLen + commentLen) }

def sha256Sums : List Char := "SHA256SUMS".toList

/-- What the loop compares: whether the file is unlisted. -/
def checkSum (env : PackEnv) (listed : List (List Char × List Char)) (name : List Char)
    (data : Bytes) : Except PackError Bool :=
  match sumOf listed name with
  | none => if name ≠ sha256Sums then .error (.notCovered name) else .ok true
  | some expected => do
    let actual ← createHash env data
    if actual ≠ expected then .error (.shaMismatch name actual expected) else .ok false

/-- The loop over the central directory: the names seen, and the unlisted ones. -/
def verifyEntries (env : PackEnv) (buf : Bytes) (listed : List (List Char × List Char)) :
    Nat → Nat → Except PackError (List (List Char) × List (List Char))
  | 0, _ => .ok ([], [])
  | total + 1, cd => do
    let e ← readEntry env buf cd
    let isUnlisted ← checkSum env listed e.name e.data
    let (seen, unlisted) ← verifyEntries env buf listed total e.next
    return (e.name :: seen, if isUnlisted then e.name :: unlisted else unlisted)

/-- `verifyZipAgainstSums`: the unlisted names. -/
def verifyZipAgainstSums (env : PackEnv) (zip sums : Bytes) :
    Except PackError (List (List Char)) := do
  let buf ← readFileSync zip
  let eocdPos ← findEnd buf
  let total ← readUInt 2 buf (eocdPos + 10)
  let cd ← readUInt 4 buf (eocdPos + 16)
  let text ← readTextSync sums
  let listed := listedSums text
  let (seen, unlisted) ← verifyEntries env buf listed total cd
  match listed.find? fun l => l.1 ∉ seen with
  | some l => .error (.missing l.1)
  | none => return unlisted

/-- What a reader that follows the same records finds, whatever it does with it. -/
def visitEntries (env : PackEnv) (buf : Bytes) : Nat → Nat → Except PackError (List PackFile)
  | 0, _ => .ok []
  | total + 1, cd => do
    let e ← readEntry env buf cd
    let rest ← visitEntries env buf total e.next
    return { name := e.name, data := e.data } :: rest

def visitZip (env : PackEnv) (buf : Bytes) : Except PackError (List PackFile) := do
  let eocdPos ← findEnd buf
  let total ← readUInt 2 buf (eocdPos + 10)
  let cd ← readUInt 4 buf (eocdPos + 16)
  visitEntries env buf total cd

/-! ## Packaging -/

structure ReleaseZip where
  archive : Bytes
  sha256 : List Char
  entryCount : Nat
  totalBytes : Nat
  verifiedAgainstSums : Bool
  /-- At most one name, which `sort` leaves. -/
  unlistedFiles : List (List Char)
deriving DecidableEq, Repr

/-- `buildReleaseZip`, of what stands at the artifact directory's path. -/
def buildReleaseZip (env : PackEnv) (artifact : Option ArtifactNode) :
    Except PackError ReleaseZip :=
  match artifact with
  | some (.directory es) =>
    match es.find? fun e => e.1 = sha256Sums with
    | none => .error .notFrozen
    | some sums => do
      let files ← collectFiles es
      checkCollisions env files []
      let (archive, entryCount) ← archiveOf env (sortFiles files)
      let zip ← writeFileSync archive
      let sha256 ← createHash env archive
      match sums.2 with
      | .file sumsData =>
        let unlisted ← verifyZipAgainstSums env zip sumsData
        return { archive, sha256, entryCount, totalBytes := archive.length
                 verifiedAgainstSums := true, unlistedFiles := unlisted }
      | _ => .error .isDirectory
  | _ => .error .notFound

end XBus
