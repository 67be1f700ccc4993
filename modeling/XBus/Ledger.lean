import XBus.Lib.Live

/-!
# `Ledger.lean` — the hash-chained audit ledger

`src/broker/ledger.ts`. A row of `ledger_events` is hashed over a canonical text of its fields and
the hash of the row before it. `ledgerAppend` hashes the values it is given, while they are still
values of the program; `verifyLedger` reads the columns back and hashes what it has read.

A `TEXT` column holds characters: a bound string loses its unpaired surrogates there (`scalars`), a
read one is made of code units again. An `INTEGER` column is read into a number, and the driver
throws when a number cannot hold it. SHA-256 is a parameter, the digest in hex digits. The column
`event_id` is left out, which nothing here reads.
-/

set_option autoImplicit false

namespace XBus

open Lib

variable {ν : Type} [JsFloat ν]

/-- 64 zero hex chars: the genesis `prev_hash` of the first event. -/
def ledgerGenesisHash : List Char := List.replicate 64 '0'

/-! ## Canonical texts -/

/-- `parts.join(',')` -/
def joinParts : List (List Char) → List Char
  | [] => []
  | [p] => p
  | p :: ps => p ++ ',' :: joinParts ps

/-- The first that failed decides. -/
def collect {α : Type} : List (Except JsString α) → Except JsString (List α)
  | [] => .ok []
  | x :: xs => do
    let a ← x
    let as ← collect xs
    return a :: as

def atIndex (path : JsString) (i : Nat) : JsString :=
  path ++ utf16 "[" ++ utf16 (toString i) ++ utf16 "]"

def atKey (path k : JsString) : JsString := path ++ utf16 "." ++ k

/-- The first index with nothing in it, counted from `i`. -/
def firstHole (i : Nat) : List (Live ν) → Option Nat
  | [] => none
  | .hole :: _ => some i
  | _ :: vs => firstHole (i + 1) vs

/-- Read as a member, the value is `undefined`. -/
def isUndefined : Live ν → Bool
  | .undefined => true
  | .hole => true
  | _ => false

mutual

/-- `canonicalize(value, at)`; the error is the message of the `LedgerCanonicalizationError`. -/
def canonicalize (path : JsString) : Live ν → Except JsString (List Char)
  | .null => .ok ['n', 'u', 'l', 'l']
  | .str s => .ok (quote s)
  | .bool true => .ok ['t', 'r', 'u', 'e']
  | .bool false => .ok ['f', 'a', 'l', 's', 'e']
  | .num n =>
    if JsFloat.isFinite n then .ok (JsNumber.toText n)
    else .error (utf16 "non-finite number at " ++ path)
  | .nan => .error (utf16 "non-finite number at " ++ path)
  | .arr items =>
    match firstHole 0 items with
    | some i => .error (utf16 "sparse array hole at " ++ atIndex path i)
    | none => (collect (canonicalizeItems path 0 items)).map fun parts =>
        '[' :: joinParts parts ++ [']']
  | .obj plain members =>
    if plain then
      (collect ((sortByKey (canonicalizeMembers path members)).map (·.2))).map fun parts =>
        '{' :: joinParts parts ++ ['}']
    else .error (utf16 "non-plain object at " ++ path)
  | .boxed _ => .error (utf16 "non-plain object at " ++ path)
  | .withToJSON base _ =>
    -- only an object is asked for its `toJSON`: an array has been dealt with before
    match base with
    | .obj true _ => .error (utf16 "object with custom toJSON at " ++ path)
    | base => canonicalize path base
  | .undefined => .error (utf16 "unsupported undefined at " ++ path)
  | .hole => .error (utf16 "unsupported undefined at " ++ path)
  | .function => .error (utf16 "unsupported function at " ++ path)
  | .symbol => .error (utf16 "unsupported symbol at " ++ path)
  | .bigint => .error (utf16 "unsupported bigint at " ++ path)

def canonicalizeItems (path : JsString) (i : Nat) :
    List (Live ν) → List (Except JsString (List Char))
  | [] => []
  | v :: vs => canonicalize (atIndex path i) v :: canonicalizeItems path (i + 1) vs

/-- What each member contributes, by key; the caller goes through them sorted. -/
def canonicalizeMembers (path : JsString) :
    List (JsString × Live ν) → List (JsString × Except JsString (List Char))
  | [] => []
  | (k, v) :: ms =>
    (k, if isUndefined v then .error (utf16 "undefined value at " ++ atKey path k)
      else (canonicalize (atKey path k) v).map fun t => quote k ++ ':' :: t) ::
      canonicalizeMembers path ms

end

/-- The fields of a row that are hashed. -/
structure LedgerFields (ν : Type) where
  seq : Int
  eventType : JsString
  actor : JsString
  subject : Live ν
  payload : Live ν
  createdAt : JsString

def canonicalLedgerPayload (row : LedgerFields ν) : Except JsString (List Char) :=
  canonicalize (utf16 "$") (.obj true
    [(utf16 "seq", .num (JsFloat.ofInt row.seq)),
      (utf16 "eventType", .str row.eventType),
      (utf16 "actor", .str row.actor),
      (utf16 "subject", row.subject),
      (utf16 "payload", row.payload),
      (utf16 "createdAt", .str row.createdAt)])

def computeEntryHash (sha256 : Bytes → List Char) (prevHash canonical : List Char) : List Char :=
  sha256 (utf8 (prevHash ++ canonical))

/-! ## The table -/

/-- A row of `ledger_events`. -/
structure LedgerRow where
  seq : Int
  eventType : List Char
  actor : List Char
  subjectJson : List Char
  payloadJson : List Char
  createdAt : List Char
  prevHash : List Char
  entryHash : List Char
deriving DecidableEq, Repr

/-- A row of `ledger_anchors`. -/
structure LedgerAnchor where
  anchorSeq : Int
  anchorHash : List Char
deriving DecidableEq, Repr

structure Ledger where
  events : List LedgerRow
  anchors : List LedgerAnchor
deriving DecidableEq, Repr

/-- An `INTEGER` column, read as a number. -/
def readInteger (n : Int) : Option Int := if n.natAbs < 2 ^ 53 then some n else none

/-- `ORDER BY seq ASC` -/
def bySeq (rows : List LedgerRow) : List LedgerRow := rows.insertionSort fun r r' => r.seq ≤ r'.seq

/-- `ORDER BY anchor_seq DESC LIMIT 1` -/
def newestAnchor (anchors : List LedgerAnchor) : Option LedgerAnchor :=
  (anchors.insertionSort fun a a' => a'.anchorSeq ≤ a.anchorSeq).head?

/-- The sequence number and the hash that the next row is chained to; `none` if one of them cannot
    be read. -/
def Ledger.tip (db : Ledger) : Option (Int × List Char) :=
  match (bySeq db.events).getLast? with
  | some r => (readInteger r.seq).map fun n => (n, r.entryHash)
  | none =>
    match newestAnchor db.anchors with
    | some a => (readInteger a.anchorSeq).map fun n => (n, a.anchorHash)
    | none => some (0, ledgerGenesisHash)

/-- What `ledgerAppend` is called with, and what the clock says. -/
structure LedgerEvent (ν : Type) where
  eventType : JsString
  actor : JsString
  subject : Live ν
  payload : Live ν
  createdAt : List Char
  subject_proper : subject.Proper
  payload_proper : payload.Proper

def LedgerEvent.fields (e : LedgerEvent ν) (seq : Int) : LedgerFields ν where
  seq := seq
  eventType := e.eventType
  actor := e.actor
  subject := e.subject
  payload := e.payload
  createdAt := e.createdAt.flatMap units

/-- Any failure is `AUDIT_PERSISTENCE_FAILED`. -/
structure AuditPersistenceFailed where
deriving DecidableEq, Repr

def AuditPersistenceFailed.message : String :=
  "audit ledger append failed; the operation was aborted to avoid state without an audit record"

/-- The row that is inserted, if nothing throws before. -/
def ledgerRow (sha256 : Bytes → List Char) (db : Ledger) (e : LedgerEvent ν) :
    Option LedgerRow := do
  let (prevSeq, prevHash) ← db.tip
  let seq := prevSeq + 1
  -- a text that is `undefined` cannot be bound
  let subjectJson ← (← e.subject.stringify)
  let payloadJson ← (← e.payload.stringify)
  let canonical ← (canonicalLedgerPayload (e.fields seq)).toOption
  return {
    seq
    eventType := scalars e.eventType
    actor := scalars e.actor
    subjectJson
    payloadJson
    createdAt := e.createdAt
    prevHash
    entryHash := computeEntryHash sha256 prevHash canonical }

def ledgerAppend (sha256 : Bytes → List Char) (db : Ledger) (e : LedgerEvent ν) :
    Except AuditPersistenceFailed Ledger :=
  match ledgerRow sha256 db e with
  | some r => .ok { db with events := db.events ++ [r] }
  | none => .error ⟨⟩

/-! ## Verifying -/

structure LedgerBreak where
  seq : Int
  expectedPrev : List Char
  actualPrev : List Char
  recomputed : List Char
  stored : List Char
deriving DecidableEq, Repr

structure LedgerVerifyResult where
  ok : Bool
  checked : Int
  firstBreak : Option LedgerBreak
deriving DecidableEq, Repr

/-- The fields of a row, as they are read back; `none` if a text is no JSON. -/
def LedgerRow.fields (r : LedgerRow) : Option (LedgerFields ν) := do
  let subject ← Json.read r.subjectJson
  let payload ← Json.read r.payloadJson
  return {
    seq := r.seq
    eventType := r.eventType.flatMap units
    actor := r.actor.flatMap units
    subject := Live.ofJson subject
    payload := Live.ofJson payload
    createdAt := r.createdAt.flatMap units }

def LedgerRow.canonical (ν : Type) [JsFloat ν] (r : LedgerRow) : Option (List Char) := do
  let fields ← (r.fields : Option (LedgerFields ν))
  (canonicalLedgerPayload fields).toOption

variable (ν) in
/-- The rows from here on, in order. -/
def verifyRows (sha256 : Bytes → List Char) (minSeq : Int) (checked : Nat)
    (expectedPrev : List Char) (expectedSeq : Int) : List LedgerRow → LedgerVerifyResult
  | [] => { ok := true, checked := checked, firstBreak := none }
  | r :: rs =>
    let broken (recomputed : List Char) : LedgerVerifyResult := {
      ok := false
      checked := r.seq - minSeq
      firstBreak := some ⟨r.seq, expectedPrev, r.prevHash, recomputed, r.entryHash⟩ }
    match r.canonical ν with
    | none => broken "unparseable".toList
    | some canonical =>
      let recomputed := computeEntryHash sha256 r.prevHash canonical
      if r.seq ≠ expectedSeq ∨ r.prevHash ≠ expectedPrev ∨ recomputed ≠ r.entryHash then
        broken recomputed
      else verifyRows sha256 minSeq checked r.entryHash (r.seq + 1) rs

/-- The newest anchor strictly below the surviving rows, else the genesis. -/
def Ledger.root (db : Ledger) (minSeq : Int) : Option (Int × List Char) :=
  match newestAnchor (db.anchors.filter fun a => a.anchorSeq < minSeq) with
  | some a => (readInteger a.anchorSeq).map fun n => (n, a.anchorHash)
  | none => some (0, ledgerGenesisHash)

variable (ν) in
/-- `none` if a number of the table cannot be read: that is thrown out of the function. -/
def verifyLedger (sha256 : Bytes → List Char) (db : Ledger) : Option LedgerVerifyResult := do
  let rows := bySeq db.events
  let _ ← rows.mapM fun r => readInteger r.seq
  match rows with
  | [] => return { ok := true, checked := 0, firstBreak := none }
  | r :: _ =>
    let (rootSeq, rootHash) ← db.root r.seq
    return verifyRows ν sha256 r.seq rows.length rootHash (rootSeq + 1) rows

end XBus
