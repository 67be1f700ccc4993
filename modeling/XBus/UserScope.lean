import XBus.Lib.Files
import XBus.Lib.Objects
import XBus.Lib.Pretty

/-!
# Registration in the user's configuration

`registerUserScope` merges the product's server into one file and its hook handlers into another;
`unregisterUserScope` takes them out again. Both files belong to the user, so their values are
whatever JSON is there: a property is read where the source reads it, and where the source would
read it of `null` or call a method that is not there, the function throws. A numeral may be too
large for a number: it is read as an infinite one, and of that `null` is written.

The files are named by what they are. Each has a backup and a temporary file beside it. Copying,
writing and renaming may fail, and so may a validator; what the rollback does may not.
-/

set_option autoImplicit false

namespace XBus

open Lib
open Lib.Json (Members lookup? without indexed assign orElse isString truthy setMember)

variable {ν : Type}

/-! ## Names -/

/-- Marker key embedded in the entries that belong to an install. -/
def XBUS_OWNER_TAG : JsString := utf16 "_xbusOwner"

def XBUS_MCP_KEY : JsString := utf16 "xbus"

inductive XbusHookEvent
  | SessionStart
  | UserPromptSubmit
  | Stop
deriving DecidableEq, Repr

def XBUS_HOOK_EVENTS : List XbusHookEvent := [.SessionStart, .UserPromptSubmit, .Stop]

def XbusHookEvent.name : XbusHookEvent → String
  | .SessionStart => "SessionStart"
  | .UserPromptSubmit => "UserPromptSubmit"
  | .Stop => "Stop"

def XbusHookEvent.key (ev : XbusHookEvent) : JsString := utf16 ev.name

/-- What a validator answers. -/
structure Verdict where
  ok : Bool
  detail : JsString

structure UserScopeOptions (ν : Type) where
  nodePath : JsString
  serverEntry : JsString
  hookEntry : JsString
  sessionStartHookEntry : Option JsString := none
  dataDir : JsString
  installId : JsString
  dryRun : Bool := false
  /-- Take the `xbus` key even if an entry that is not the product's holds it. -/
  force : Bool := false
  validateConfig : Option (Json ν → Except JsString Verdict) := none
  validateSettings : Option (Json ν → Except JsString Verdict) := none

/-! ## Properties and methods that may not be there -/

/-- `v.key` -/
def property (v : Json ν) (key : String) : Except JsString (Option (Json ν)) :=
  match v with
  | .null => .error (utf16 s!"Cannot read properties of null (reading '{key}')")
  | v => .ok (v.member? (utf16 key))

/-- The elements over which `v.method(…)` runs; only an array has the method. -/
def elements (v : Option (Json ν)) (method : String) : Except JsString (List (Json ν)) :=
  match v with
  | some (.arr xs) => .ok xs
  | some .null => .error (utf16 s!"Cannot read properties of null (reading '{method}')")
  | none => .error (utf16 s!"Cannot read properties of undefined (reading '{method}')")
  | some _ => .error (utf16 s!"{method} is not a function")

/-! ## The product's own entries -/

def xbusMcpEntry (o : UserScopeOptions ν) : Json ν :=
  .obj [(utf16 "type", .str (utf16 "stdio")), (utf16 "command", .str o.nodePath),
    (utf16 "args", .arr [.str o.serverEntry]),
    (utf16 "env", .obj [(utf16 "XBUS_DATA_DIR", .str o.dataDir)]),
    (XBUS_OWNER_TAG, .str o.installId)]

/-- Keys in order, and each with its value. -/
def canonicalEnv [JsFloat ν] (env : Option (Json ν)) : List Char :=
  let e := (orElse env (.obj [])).ownMembers
  let keys := e.mergeSort fun a b => !List.lex b.1 a.1 fun x y => decide (x < y)
  (Json.arr (keys.map fun m => .arr [.str m.1, m.2])).written.text

def mcpEntryMateriallyEqual [JsFloat ν] (cur canonical : Json ν) : Bool :=
  (match cur.member? (utf16 "command"), canonical.member? (utf16 "command") with
    | some (.str c), some (.str d) => c = d
    | _, _ => false)
  && (cur.member? (utf16 "args")).map (·.written.text) =
    (canonical.member? (utf16 "args")).map (·.written.text)
  && canonicalEnv (cur.member? (utf16 "env")) = canonicalEnv (canonical.member? (utf16 "env"))

/-- The entry each event's handler must invoke, in the order the table is made. An event without one
    is not wired. -/
def hookEntries (o : UserScopeOptions ν) : List (XbusHookEvent × JsString) :=
  [(.UserPromptSubmit, o.hookEntry), (.Stop, o.hookEntry)] ++
    match o.sessionStartHookEntry with
    | some entry => if entry ≠ [] then [(.SessionStart, entry)] else []
    | none => []

def hookEntry? (o : UserScopeOptions ν) (ev : XbusHookEvent) : Option JsString :=
  ((hookEntries o).find? fun e => e.1 = ev).map (·.2)

def allXbusEntries (o : UserScopeOptions ν) : List JsString :=
  o.hookEntry :: match o.sessionStartHookEntry with
    | some entry => if entry ≠ [] then [entry] else []
    | none => []

def xbusHookHandlerFor (o : UserScopeOptions ν) (entry : JsString) : Json ν :=
  .obj [(utf16 "type", .str (utf16 "command")), (utf16 "command", .str o.nodePath),
    (utf16 "args", .arr [.str entry]), (XBUS_OWNER_TAG, .str o.installId)]

/-- `Array.isArray(args) && args.includes(entry)` -/
def includes (args : Option (Json ν)) (entry : JsString) : Bool :=
  match args with
  | some (.arr xs) => xs.any fun a => isString (some a) entry
  | _ => false

/-- A handler refers to an entry of the product: as an argument, or somewhere in its command. -/
def refersTo (o : UserScopeOptions ν) (h : Json ν) : Bool :=
  (allXbusEntries o).any (includes (h.member? (utf16 "args"))) ||
    match h.member? (utf16 "command") with
    | some (.str command) => (allXbusEntries o).any fun e => decide (e <:+: command)
    | _ => false

def isXbusHookHandler (o : UserScopeOptions ν) (h : Json ν) : Except JsString Bool := do
  let _ ← property h "args"
  return refersTo o h

/-! ## Merge and strip -/

/-- `{ ...cfg, mcpServers: { ...(cfg.mcpServers ?? {}), xbus: … } }` -/
def applyMcp (o : UserScopeOptions ν) (cfg : Json ν) : Json ν :=
  let servers := (orElse (cfg.member? (utf16 "mcpServers")) (.obj [])).ownMembers
  .obj (setMember cfg.ownMembers (utf16 "mcpServers")
    (.obj (setMember servers XBUS_MCP_KEY (xbusMcpEntry o))))

/-- A group after its handlers were filtered. -/
structure Cleaned (ν : Type) where
  group : Json ν
  hooks : List (Json ν)
  /-- A handler was filtered out. -/
  changed : Bool

/-- `{ ...g, hooks: (g.hooks ?? []).filter(keep) }` -/
def cleanGroup (keep : Json ν → Except JsString Bool) (g : Json ν) :
    Except JsString (Cleaned ν) := do
  let hooks ← elements (some (orElse (← property g "hooks") (.arr []))) "filter"
  let kept ← filterE keep hooks
  return ⟨.obj (setMember g.ownMembers (utf16 "hooks") (.arr kept)), kept,
    decide (kept.length < hooks.length)⟩

/-- `.filter((g) => g.hooks.length > 0)` -/
def groupsLeft (cs : List (Cleaned ν)) : List (Json ν) :=
  (cs.filter fun c => !c.hooks.isEmpty).map (·.group)

/-- One event of `applyHooks`: the user's other handlers stay, the product's own are replaced. -/
def wireEvent (o : UserScopeOptions ν) (hooks : Members ν) (ev : XbusHookEvent) :
    Except JsString (Members ν) :=
  match hookEntry? o ev with
  | none => .ok hooks
  | some entry => do
    let gs ← elements (some (orElse (lookup? hooks ev.key) (.arr []))) "map"
    let cleaned ← mapE (cleanGroup fun h => (isXbusHookHandler o h).map not) gs
    let ours := .obj [(utf16 "hooks", .arr [xbusHookHandlerFor o entry])]
    return setMember hooks ev.key (.arr (groupsLeft cleaned ++ [ours]))

def wireEvents (o : UserScopeOptions ν) :
    List XbusHookEvent → Members ν → Except JsString (Members ν)
  | [], hooks => .ok hooks
  | ev :: evs, hooks => do wireEvents o evs (← wireEvent o hooks ev)

def applyHooks (o : UserScopeOptions ν) (s : Json ν) : Except JsString (Json ν) := do
  let spread := (orElse (s.member? (utf16 "hooks")) (.obj [])).ownMembers
  let hooks ← wireEvents o XBUS_HOOK_EVENTS spread
  return .obj (setMember s.ownMembers (utf16 "hooks") (.obj hooks))

section Truth

variable [JsFloat ν] [DecidableEq ν]

/-- `cfg.mcpServers?.xbus` of a value that is not null. -/
def serverOf (cfg : Json ν) : Option (Json ν) :=
  (cfg.member? (utf16 "mcpServers")).bind fun servers => servers.member? XBUS_MCP_KEY

/-- The value, and whether the entry was taken out. -/
def stripMcp (cfg : Json ν) (ownerToMatch : Option JsString) : Json ν × Bool :=
  match cfg.member? (utf16 "mcpServers"), serverOf cfg with
  | some servers, some entry =>
    if !truthy entry then (cfg, false)
    else if ownerToMatch.any fun owner => !isString (entry.member? XBUS_OWNER_TAG) owner then
      (cfg, false)
    else
      let m := without servers.ownMembers XBUS_MCP_KEY
      -- an empty table is dropped, so that a file that had none is as it was
      if m.isEmpty then (.obj (without cfg.ownMembers (utf16 "mcpServers")), true)
      else (.obj (setMember cfg.ownMembers (utf16 "mcpServers") (.obj m)), true)
  | _, _ => (cfg, false)

/-- A handler that goes: the product's, and this install's or nobody's. -/
def removes (o : UserScopeOptions ν) (ownerToMatch : Option JsString) (h : Json ν) : Bool :=
  refersTo o h && match ownerToMatch with
    | none => true
    | some owner => isString (h.member? XBUS_OWNER_TAG) owner || (h.member? XBUS_OWNER_TAG).isNone

/-- One event of `stripHooks`. -/
def stripEvent (o : UserScopeOptions ν) (ownerToMatch : Option JsString)
    (entry : JsString × Json ν) : Except JsString (JsString × List (Cleaned ν)) := do
  let gs ← elements (some entry.2) "map"
  let cleaned ← mapE (cleanGroup fun h => do
    let _ ← isXbusHookHandler o h
    return !removes o ownerToMatch h) gs
  return (entry.1, cleaned)

/-- `if (cleaned.length > 0) hooks[ev] = cleaned` -/
def keepEvent (hooks : Members ν) (entry : JsString × List (Cleaned ν)) : Members ν :=
  if (groupsLeft entry.2).isEmpty then hooks
  else assign hooks entry.1 (.arr (groupsLeft entry.2))

def stripHooks (o : UserScopeOptions ν) (s : Json ν) (ownerToMatch : Option JsString) :
    Except JsString (Json ν × Bool) :=
  match s.member? (utf16 "hooks") with
  | none => .ok (s, false)
  | some hooks =>
    if !truthy hooks then .ok (s, false)
    else do
      let stripped ← mapE (stripEvent o ownerToMatch) hooks.ownMembers
      let changed := stripped.any fun e => e.2.any (·.changed)
      let left := stripped.foldl keepEvent []
      -- as for the servers: an empty map is dropped
      if left.isEmpty then return (.obj (without s.ownMembers (utf16 "hooks")), changed)
      else return (.obj (setMember s.ownMembers (utf16 "hooks") (.obj left)), changed)

/-! ## Validation -/

def defaultValidateConfig (cfg : Json ν) : Except JsString Verdict :=
  .ok (if (serverOf cfg).any truthy then ⟨true, utf16 "ok"⟩
    else ⟨false, utf16 "xbus mcp entry missing after write"⟩)

/-- `(v ?? []).some((g) => g.hooks.some(p))` -/
def someHandler (p : Json ν → Except JsString Bool) (v : Option (Json ν)) :
    Except JsString Bool := do
  let gs ← elements (some (orElse v (.arr []))) "some"
  anyE (fun g => do
    let hooks ← elements (← property g "hooks") "some"
    anyE p hooks) gs

/-- `s.hooks?.[ev]` -/
def eventOf (s : Json ν) (ev : XbusHookEvent) : Option (Json ν) :=
  (orElse (s.member? (utf16 "hooks")) (.obj [])).member? ev.key

/-- An event is wired to its entry, by some owner. -/
def pointedAt (s : Json ν) (ev : XbusHookEvent) (entry : JsString) : Except JsString Bool :=
  someHandler (fun h => do
    let tag ← property h "_xbusOwner"
    return tag.isSome && includes (h.member? (utf16 "args")) entry) (eventOf s ev)

def validateEvents (o : UserScopeOptions ν) (s : Json ν) :
    List XbusHookEvent → Except JsString Verdict
  | [] => .ok ⟨true, utf16 "ok"⟩
  | ev :: evs =>
    match hookEntry? o ev with
    | none => validateEvents o s evs
    | some entry => do
      if ← pointedAt s ev entry then validateEvents o s evs
      else return ⟨false, utf16 s!"xbus {ev.name} handler missing/mispointed after write (expected "
        ++ entry ++ utf16 ")"⟩

def makeValidateSettings (o : UserScopeOptions ν) (s : Json ν) : Except JsString Verdict :=
  validateEvents o s XBUS_HOOK_EVENTS

/-! ## Files -/

/-- `~/.claude.json` and `~/.claude/settings.json`. -/
inductive ScopeFile
  | config
  | settings
deriving DecidableEq, Repr

inductive ScopePath
  | target (f : ScopeFile)
  | backup (f : ScopeFile)
  | tmp (f : ScopeFile)
deriving DecidableEq, Repr

/-- What may fail. -/
inductive ScopeOp
  | copy (f : ScopeFile)
  | mkdir (f : ScopeFile)
  | write (f : ScopeFile)
  | rename (f : ScopeFile)
  | validate (f : ScopeFile)
deriving DecidableEq, Repr

abbrev ScopeDrive := Drive ScopePath Bytes ScopeOp
abbrev ScopeFaults := Faults Bytes ScopeOp JsString

/-- What is absent or malformed reads as null, and so does `null`. -/
def readJson (bs : Option Bytes) : Option (Json ν) :=
  match (bs.bind Value.parse : Option (Value ν)) with
  | some v =>
    match v.json with
    | .null => none
    | j => some j
  | none => none

structure FileTxn where
  path : ScopeFile
  backup : Option ScopePath
  hadFile : Bool
deriving DecidableEq, Repr

/-- `JSON.stringify(obj, null, 2) + '\n'` -/
def fileText (obj : Json ν) : Bytes := utf8 (obj.written.pretty 0 ++ ['\n'])

/-- The file is copied, or its directory made. -/
def secure (φ : ScopeFaults) (f : ScopeFile) (hadFile : Bool) : Call ScopeDrive JsString Unit :=
  if hadFile then
    Drive.attempt φ (.copy f) (.backup f) fun d => d.put (.backup f) (d.files (.target f))
  else Drive.attemptAtomic φ (.mkdir f) id

def backupAndWrite (φ : ScopeFaults) (f : ScopeFile) (obj : Json ν) :
    Call ScopeDrive JsString FileTxn := do
  let hadFile := ((← Call.get).files (.target f)).isSome
  secure φ f hadFile
  Drive.attempt φ (.write f) (.tmp f) fun d => d.put (.tmp f) (some (fileText obj))
  Drive.attemptAtomic φ (.rename f) fun d =>
    (d.put (.target f) (d.files (.tmp f))).put (.tmp f) none
  return ⟨f, if hadFile then some (.backup f) else none, hadFile⟩

def rollbackTxn (t : Option FileTxn) (d : ScopeDrive) : ScopeDrive :=
  match t with
  | none => d
  | some t =>
    match t.backup with
    | some backup =>
      if (d.files backup).isSome then
        (d.put (.target t.path) (d.files backup)).put backup none
      else d
    | none => if !t.hadFile then d.put (.target t.path) none else d

/-! ## Registering -/

structure RegisterResult where
  ok : Bool
  dryRun : Bool
  alreadyRegistered : Bool := false
  replacedConflict : Bool := false
  backupPath : Option ScopePath := none
  settingsBackupPath : Option ScopePath := none
  rolledBack : Bool := false
  error : Option JsString := none
deriving DecidableEq, Repr

/-- The value of a file as registration starts from it. -/
def readOrEmpty (bs : Option Bytes) : Json ν := (readJson bs).getD (.obj [])

/-- `cur && cur._xbusOwner === undefined && !force` -/
def refused (o : UserScopeOptions ν) (cfg : Json ν) : Bool :=
  match serverOf cfg with
  | some cur => truthy cur && (cur.member? XBUS_OWNER_TAG).isNone && !o.force
  | none => false

def replacesConflict (o : UserScopeOptions ν) (cfg : Json ν) : Bool :=
  match serverOf cfg with
  | some cur => truthy cur && (cur.member? XBUS_OWNER_TAG).isSome
    && !isString (cur.member? XBUS_OWNER_TAG) o.installId
  | none => false

/-- Every event that is wired has this install's handler, pointing at the right entry. -/
def hooksPresent (o : UserScopeOptions ν) (s : Json ν) : Except JsString Bool :=
  allE (fun e => someHandler (fun h => do
    let tag ← property h "_xbusOwner"
    return isString tag o.installId && includes (h.member? (utf16 "args")) e.2)
    (eventOf s e.1)) (hookEntries o)

def ownServer (o : UserScopeOptions ν) (cfg : Json ν) : Bool :=
  match serverOf cfg with
  | some cur => truthy cur && isString (cur.member? XBUS_OWNER_TAG) o.installId
    && mcpEntryMateriallyEqual cur (xbusMcpEntry o)
  | none => false

/-- A validator on what was written. A rejection is a failure of this step. -/
def vet (f : ScopeFile) (validate : Json ν → Except JsString Verdict) :
    Call ScopeDrive JsString Verdict := fun d =>
  match validate (readOrEmpty (d.files (.target f))) with
  | .error e => (.error e, d.noteFailed (.validate f))
  | .ok v => if v.ok then (.ok v, d) else (.ok v, d.noteFailed (.validate f))

def validatorOf (o : UserScopeOptions ν) : ScopeFile → Json ν → Except JsString Verdict
  | .config => o.validateConfig.getD defaultValidateConfig
  | .settings => o.validateSettings.getD (makeValidateSettings o)

def rolledBack (error : JsString) : RegisterResult :=
  { ok := false, dryRun := false, rolledBack := true, error := some error }

/-- What stands inside `try`. A failure leaves with both transactions rolled back, as far as they
    came to be. -/
def writeBoth (φ : ScopeFaults) (o : UserScopeOptions ν) (cfg settingsCur : Json ν)
    (d : ScopeDrive) : RegisterResult × ScopeDrive :=
  match backupAndWrite φ .config (applyMcp o cfg) d with
  | (.error e, d) => (rolledBack e, rollbackTxn none (rollbackTxn none d))
  | (.ok cfgTxn, d) =>
    match vet .config (validatorOf o .config) d with
    | (.error e, d) => (rolledBack e, rollbackTxn (some cfgTxn) (rollbackTxn none d))
    | (.ok vCfg, d) =>
      if !vCfg.ok then
        (rolledBack (utf16 "mcp config validation failed: " ++ vCfg.detail),
          rollbackTxn (some cfgTxn) d)
      else
        match applyHooks o settingsCur with
        | .error e => (rolledBack e, rollbackTxn (some cfgTxn) (rollbackTxn none d))
        | .ok next =>
          match backupAndWrite φ .settings next d with
          | (.error e, d) => (rolledBack e, rollbackTxn (some cfgTxn) (rollbackTxn none d))
          | (.ok setTxn, d) =>
            match vet .settings (validatorOf o .settings) d with
            | (.error e, d) =>
              (rolledBack e, rollbackTxn (some cfgTxn) (rollbackTxn (some setTxn) d))
            | (.ok vSet, d) =>
              if !vSet.ok then
                (rolledBack (utf16 "settings/hooks validation failed: " ++ vSet.detail),
                  rollbackTxn (some cfgTxn) (rollbackTxn (some setTxn) d))
              else
                ({ ok := true, dryRun := false, backupPath := cfgTxn.backup,
                   settingsBackupPath := setTxn.backup,
                   replacedConflict := replacesConflict o cfg }, d)

def notOwnedError : JsString :=
  utf16 ("the \"xbus\" mcp key is present but not owned by XBus; " ++
    "refusing to overwrite (use force to take it)")

def registerUserScope (φ : ScopeFaults) (o : UserScopeOptions ν) :
    Call ScopeDrive JsString RegisterResult := fun d =>
  let cfg : Json ν := readOrEmpty (d.files (.target .config))
  if refused o cfg then
    (.ok { ok := false, dryRun := o.dryRun, error := some notOwnedError }, d)
  else
    let settingsCur : Json ν := readOrEmpty (d.files (.target .settings))
    match hooksPresent o settingsCur with
    | .error e => (.error e, d)
    | .ok present =>
      if ownServer o cfg && present then
        (.ok { ok := true, dryRun := o.dryRun, alreadyRegistered := true }, d)
      else if o.dryRun then
        (.ok { ok := true, dryRun := true, replacedConflict := replacesConflict o cfg }, d)
      else
        let out := writeBoth φ o cfg settingsCur d
        (.ok out.1, out.2)

/-! ## Unregistering -/

structure UnregisterResult where
  ok : Bool
  removed : Bool
  backupPath : Option ScopePath := none
  settingsBackupPath : Option ScopePath := none
  error : Option JsString := none
deriving DecidableEq, Repr

/-- `if (changed && value) txn = backupAndWrite(path, value)` -/
def writeIfChanged (φ : ScopeFaults) (f : ScopeFile) (stripped : Option (Json ν) × Bool) :
    Call ScopeDrive JsString (Option FileTxn) :=
  match stripped with
  | (some value, true) =>
    if truthy value then do return some (← backupAndWrite φ f value) else return none
  | _ => return none

/-- `cfg ? stripMcp(cfg, …) : { cfg: null, changed: false }` -/
def strippedConfig (o : UserScopeOptions ν) (bs : Option Bytes) : Option (Json ν) × Bool :=
  match (readJson bs : Option (Json ν)) with
  | some cfg => if truthy cfg then (some (stripMcp cfg (some o.installId)).1,
      (stripMcp cfg (some o.installId)).2) else (none, false)
  | none => (none, false)

def strippedSettings (o : UserScopeOptions ν) (bs : Option Bytes) :
    Except JsString (Option (Json ν) × Bool) :=
  match (readJson bs : Option (Json ν)) with
  | some s => if truthy s then do
      let out ← stripHooks o s (some o.installId)
      return (some out.1, out.2)
    else .ok (none, false)
  | none => .ok (none, false)

def unregisterUserScope (φ : ScopeFaults) (o : UserScopeOptions ν) :
    Call ScopeDrive JsString UnregisterResult := fun d =>
  let mcp := strippedConfig o (d.files (.target .config))
  match strippedSettings o (d.files (.target .settings)) with
  | .error e => (.error e, d)
  | .ok hk =>
    if !mcp.2 && !hk.2 then (.ok { ok := true, removed := false }, d)
    else if o.dryRun then (.ok { ok := true, removed := true }, d)
    else
      match writeIfChanged φ .config mcp d with
      | (.error e, d) =>
        (.ok { ok := false, removed := false, error := some e },
          rollbackTxn none (rollbackTxn none d))
      | (.ok cfgTxn, d) =>
        match writeIfChanged φ .settings hk d with
        | (.error e, d) =>
          (.ok { ok := false, removed := false, error := some e },
            rollbackTxn cfgTxn (rollbackTxn none d))
        | (.ok setTxn, d) =>
          (.ok { ok := true, removed := true, backupPath := cfgTxn.bind (·.backup),
                 settingsBackupPath := setTxn.bind (·.backup) }, d)

end Truth

end XBus
