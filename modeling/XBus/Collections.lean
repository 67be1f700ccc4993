import XBus.Identity
import XBus.Database
import XBus.Lib.Call
import XBus.Lib.Grouping
import XBus.Lib.Objects
import Mathlib.Algebra.Order.Ring.Rat
import Mathlib.Data.Prod.Lex
import Mathlib.Data.String.Basic

/-!
# Collections

The operator's groups of agents: `operatorReplaceCollections` of the daemon, `replaceCollections`
and `readCollections` of `broker/store.ts`, and `collections` of `broker/dashboard/read-model.ts`.
The browser posts the whole state, and nothing looks at the types of what it posts: a field goes
into its column as the driver binds it and the column's affinity makes of it. Strings are code units
in the program and characters in the database: a surrogate without its pair does not survive. The
`workspace_id` of a collection, always `local`, and the times of the rows are left out.
-/

set_option autoImplicit false

namespace XBus

open Lib
open Lib.Json (orElse)

/-! ## Columns -/

inductive SqlNumber
  | int (n : Int)
  | fraction (numeral : String)
deriving DecidableEq, Repr

/-- What the browser posts, as parsed. -/
abbrev Posted := Json SqlNumber

instance : LawfulBEq Posted := inferInstance

inductive SqlValue
  | null
  | number (n : SqlNumber)
  | text (s : String)
deriving DecidableEq, Repr

/-- What the database makes of the values of the other type, and how the host folds a name. -/
structure SqlEnv where
  toLowerCase : JsString → JsString
  /-- A number in a `TEXT` column. -/
  rendered : SqlNumber → String
  /-- The number of a numeral, in an `INTEGER` column. -/
  numeral : String → Option SqlNumber
  /-- By which `ORDER BY` compares. -/
  value : SqlNumber → ℚ

inductive CollectionsError
  | xbus (failure : Failure)
  /-- The host's: a property of `null`, a method that is not there, a value that cannot be bound. -/
  | type
  | constraint (columns : List String)
  /-- An `INTEGER` that is no safe number of the host. -/
  | outOfRange
deriving DecidableEq, Repr

namespace SqlValue

/-- A parameter of a statement. A value that is no parameter throws, and so does `undefined`. -/
def bind : Option Posted → Except CollectionsError SqlValue
  | some .null => .ok .null
  | some (.num n) => .ok (.number n)
  | some (.str s) => .ok (.text (textOf s))
  | _ => .error .type

/-- As a `TEXT` column keeps it. -/
def asText (sql : SqlEnv) : SqlValue → SqlValue
  | .number n => .text (sql.rendered n)
  | v => v

/-- As an `INTEGER` column keeps it. -/
def asInteger (sql : SqlEnv) : SqlValue → SqlValue
  | .text s => match sql.numeral s with
    | some n => .number n
    | none => .text s
  | v => v

def toJs : SqlValue → Except CollectionsError Posted
  | .null => .ok .null
  | .number (.int n) => if TooWide n then .error .outOfRange else .ok (.num (.int n))
  | .number (.fraction numeral) => .ok (.num (.fraction numeral))
  | .text s => .ok (.str (utf16 s))

/-- Nulls first, then numbers, then texts. -/
def orderKey (sql : SqlEnv) : SqlValue → Nat ×ₗ ℚ ×ₗ String
  | .null => toLex (0, toLex (0, ""))
  | .number n => toLex (1, toLex (sql.value n, ""))
  | .text s => toLex (2, toLex (0, s))

end SqlValue

/-! ## The tables -/

/-- `collections`. -/
structure CollectionRow where
  collectionId : SqlValue
  name : String
  normalizedName : String
  sortOrder : SqlValue
  state : SqlValue
deriving DecidableEq, Repr

/-- `collection_members`. -/
structure MemberRow where
  collectionId : SqlValue
  logicalAgentId : String
  sortOrder : Nat
deriving DecidableEq, Repr

/-- The database: the broker's other tables, the two of the collections, and how many collections
    each `OPERATOR_COLLECTIONS_REPLACED` of the ledger counts. -/
structure Workspace where
  broker : Broker
  collections : List CollectionRow
  members : List MemberRow
  ledger : List Nat

abbrev WorkspaceCall (α : Type) := Call Workspace CollectionsError α

/-! ## Replacing -/

def stateOf (c : Posted) : Posted := orElse (c.member? (utf16 "state")) (.str (utf16 "active"))

def orderOf (c : Posted) : Posted := orElse (c.member? (utf16 "sortOrder")) (.num (.int 0))

/-- `c.name`, of which only a text has a `trim`. -/
def nameOf (c : Posted) : Except CollectionsError JsString :=
  match c.member? (utf16 "name") with
  | some (.str name) => .ok name
  | _ => .error .type

/-- `c.name.trim().toLowerCase()` -/
def normalizeName (sql : SqlEnv) (name : JsString) : JsString := sql.toLowerCase (jsTrim name)

/-- The guard against two active collections of one name. -/
def checkActiveNames (sql : SqlEnv) : List Posted → List JsString → Except CollectionsError Unit
  | [], _ => .ok ()
  | c :: cs, activeNorm =>
    if c = .null then .error .type
    else if stateOf c = .str (utf16 "active") then do
      let name ← nameOf c
      if normalizeName sql name ∈ activeNorm then
        .error (.xbus (xbusError .illegalStateTransition
          ("duplicate active collection name: " ++ textOf name)))
      else checkActiveNames sql cs (normalizeName sql name :: activeNorm)
    else checkActiveNames sql cs activeNorm

def rowOf (sql : SqlEnv) (c : Posted) : Except CollectionsError CollectionRow := do
  let name ← nameOf c
  let id ← SqlValue.bind (c.member? (utf16 "id"))
  let order ← SqlValue.bind (some (orderOf c))
  let state ← SqlValue.bind (some (stateOf c))
  return { collectionId := id.asText sql, name := textOf name
           normalizedName := textOf (normalizeName sql name)
           sortOrder := order.asInteger sql, state := state.asText sql }

/-- `INSERT INTO collections`. The primary key of a table with row ids takes nulls, any number. -/
def insertCollection (sql : SqlEnv) (c : Posted) : WorkspaceCall Unit := do
  let row ← Call.lift (rowOf sql c)
  let w ← Call.get
  Call.require (row.collectionId = .null ∨
      ∀ r ∈ w.collections, r.collectionId ≠ row.collectionId)
    (.constraint ["collections.collection_id"])
  Call.require (row.state ≠ .text "active" ∨
      ∀ r ∈ w.collections, r.state = .text "active" → r.normalizedName ≠ row.normalizedName)
    (.constraint ["collections.workspace_id", "collections.normalized_name"])
  Call.modify fun w => { w with collections := w.collections ++ [row] }

def insertCollections (sql : SqlEnv) : List Posted → WorkspaceCall Unit
  | [] => pure ()
  | c :: cs => do
    insertCollection sql c
    insertCollections sql cs

/-- `INSERT INTO collection_members`. -/
def insertMember (sql : SqlEnv) (cid : Posted) (agent : JsString) (order : Nat) :
    WorkspaceCall Unit := do
  let id ← Call.lift (SqlValue.bind (some cid))
  let id := id.asText sql
  let agent := textOf agent
  let w ← Call.get
  Call.require (id ≠ .null) (.constraint ["collection_members.collection_id"])
  Call.require (∀ r ∈ w.members, ¬ (r.collectionId = id ∧ r.logicalAgentId = agent))
    (.constraint ["collection_members.collection_id", "collection_members.logical_agent_id"])
  Call.require (∃ r ∈ w.collections, r.collectionId = id) (.constraint [])
  Call.modify fun w => { w with members := w.members ++
    [{ collectionId := id, logicalAgentId := agent, sortOrder := order }] }

/-- The code points of a string, as a loop over it has them. -/
def codePoints : JsString → List JsString
  | [] => []
  | u :: s =>
    match s with
    | [] => [[u]]
    | v :: s' =>
      if isHigh u && isLow v then [u, v] :: codePoints s' else [u] :: codePoints (v :: s')

/-- `for (const cid of cids)`: an array, or the characters of a text. -/
def iterated : Posted → Except CollectionsError (List Posted)
  | .arr items => .ok items
  | .str s => .ok ((codePoints s).map .str)
  | _ => .error .type

/-- The memberships of one agent. References to a collection that is not in the new set and
    duplicates are dropped. -/
def insertMemberships (sql : SqlEnv) (validIds : List Posted) (agent : JsString) :
    List Posted → List Posted → Nat → WorkspaceCall Unit
  | [], _, _ => pure ()
  | cid :: cids, seen, order =>
    if cid ∉ validIds ∨ cid ∈ seen then insertMemberships sql validIds agent cids seen order
    else do
      insertMember sql cid agent order
      insertMemberships sql validIds agent cids (cid :: seen) (order + 1)

def insertMembers (sql : SqlEnv) (validIds : List Posted) :
    List (JsString × Posted) → WorkspaceCall Unit
  | [] => pure ()
  | (agent, value) :: entries => do
    let cids ← Call.lift (iterated value)
    insertMemberships sql validIds agent cids [] 0
    insertMembers sql validIds entries

/-- `readCollectionsVersion` -/
def Workspace.version (w : Workspace) : Nat := w.collections.length + w.members.length + 1

/-- The ids that a member may refer to. -/
def idsOf (collections : List Posted) : List Posted :=
  collections.map fun c => (c.member? (utf16 "id")).getD .null

def replaceCollections (sql : SqlEnv) (collections : List Posted)
    (members : List (JsString × Posted)) : WorkspaceCall Nat :=
  Call.transaction do
    Call.lift (checkActiveNames sql collections [])
    Call.modify fun w => { w with members := [] }
    Call.modify fun w => { w with collections := [] }
    insertCollections sql collections
    insertMembers sql (idsOf collections) members
    Call.modify fun w => { w with ledger := w.ledger ++ [collections.length] }
    let w ← Call.get
    pure w.version

def collectionsOf (raw : Posted) : List Posted :=
  match raw.member? (utf16 "collections") with
  | some (.arr items) => items
  | _ => []

def memberEntries (raw : Posted) : List (JsString × Posted) :=
  match raw.member? (utf16 "members") with
  | some (.obj members) => members
  | _ => []

/-- `operatorReplaceCollections` of the daemon. -/
def operatorReplaceCollections (sql : SqlEnv) (raw : Posted) : WorkspaceCall Nat :=
  replaceCollections sql (collectionsOf raw) (memberEntries raw)

/-! ## Reading -/

structure CollectionView where
  id : Posted
  name : JsString
  sortOrder : Posted
  state : Posted
deriving DecidableEq

structure CollectionsView where
  version : Nat
  collections : List CollectionView
  members : List (JsString × List Posted)
deriving DecidableEq

/-- What every object has without having been given it. -/
def inheritedNames : List JsString :=
  ["constructor", "__proto__", "hasOwnProperty", "isPrototypeOf", "propertyIsEnumerable",
   "toLocaleString", "toString", "valueOf", "__defineGetter__", "__defineSetter__",
   "__lookupGetter__", "__lookupSetter__"].map utf16

/-- `(members[agent] ??= []).push(cid)`: of a fresh object an inherited name is neither missing nor
    a list. -/
def pushMember (members : List (JsString × List Posted)) (agent : JsString) (cid : Posted) :
    Except CollectionsError (List (JsString × List Posted)) :=
  if agent ∈ inheritedNames then .error .type else .ok (pushAt members agent cid)

def groupMembers : List (JsString × List Posted) → List (JsString × Posted) →
    Except CollectionsError (List (JsString × List Posted))
  | members, [] => .ok members
  | members, (agent, cid) :: rows => do
    let members ← pushMember members agent cid
    groupMembers members rows

def CollectionRow.view (r : CollectionRow) : Except CollectionsError CollectionView := do
  let id ← r.collectionId.toJs
  let sortOrder ← r.sortOrder.toJs
  let state ← r.state.toJs
  return { id, name := utf16 r.name, sortOrder, state }

def MemberRow.view (r : MemberRow) : Except CollectionsError (JsString × Posted) := do
  let cid ← r.collectionId.toJs
  return (utf16 r.logicalAgentId, cid)

namespace Workspace

/-- `ORDER BY sort_order ASC, normalized_name ASC` -/
def sortedCollections (sql : SqlEnv) (w : Workspace) : List CollectionRow :=
  w.collections.insertionSort fun r r' =>
    toLex (r.sortOrder.orderKey sql, r.normalizedName) ≤
      toLex (r'.sortOrder.orderKey sql, r'.normalizedName)

/-- `ORDER BY sort_order ASC` -/
def sortedMembers (w : Workspace) : List MemberRow :=
  w.members.insertionSort fun r r' => r.sortOrder ≤ r'.sortOrder

/-- The two queries. -/
def collectionRows (sql : SqlEnv) (w : Workspace) :
    Except CollectionsError (List CollectionView × List (JsString × Posted)) := do
  let cols ← (w.sortedCollections sql).mapM CollectionRow.view
  let memberRows ← w.sortedMembers.mapM MemberRow.view
  return (cols, memberRows)

def grouped (cols : List CollectionView) (memberRows : List (JsString × Posted)) :
    Except CollectionsError CollectionsView := do
  let members ← groupMembers [] memberRows
  return { version := cols.length + memberRows.length + 1, collections := cols, members }

/-- `readCollections` of the store. -/
def readCollections (sql : SqlEnv) (w : Workspace) : Except CollectionsError CollectionsView := do
  let (cols, memberRows) ← w.collectionRows sql
  grouped cols memberRows

/-- `collections` of the read model: where the queries throw it answers with nothing. -/
def dashboardCollections (sql : SqlEnv) (w : Workspace) : Except CollectionsError CollectionsView :=
  match w.collectionRows sql with
  | .error _ => .ok { version := 0, collections := [], members := [] }
  | .ok (cols, memberRows) => grouped cols memberRows

end Workspace

end XBus
