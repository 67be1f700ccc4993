import XBus.Receipts

/-!
# Names, ownership and aliases

The naming half of `broker/store.ts`. A name is represented twice: by the name columns of
its session's row, and by the row of `name_ownership` keyed by the session's durable
identity. The helpers here are the only code that writes either (besides the sweep and the
removal of a record), and every caller runs them inside its own transaction.

Where the source wraps a name write in `try … catch` against the unique index
`ux_session_name_active`, the `taken` check just before it is the index's own predicate, so
the catch has nothing left to catch and is not modelled. The same holds for
`ux_name_ownership_active` and the release that precedes the upsert.
-/

set_option autoImplicit false

namespace XBus

open Lib

namespace Broker

/-- Another session holds the normalised name, active or pending. -/
def nameTaken (b : Broker) (normalized : String) (sid : SessionId) : Bool :=
  b.sessions.any fun s => s.normalizedSessionName = some normalized ∧
    s.sessionNameState.holds ∧ s.sessionId ≠ sid

/-- The ownership row that holds the normalised name. -/
def ownerOf (b : Broker) (normalized : String) : Option NameOwnership :=
  b.nameOwnership.find? fun o => o.normalizedName = some normalized ∧ o.nameState.holds

/-- `NameOwnership` after a release: routing cleared, the secret hash kept. -/
def released (o : NameOwnership) : NameOwnership :=
  { o with nameState := .released, normalizedName := none }

/-- `releaseNameOwnership` by identity, and `setNameOwnershipReleased`. -/
def setNameOwnershipReleased (b : Broker) (lid : SessionId) : Broker :=
  { b with
    nameOwnership := updateWhere (fun o => o.logicalIdentityId = lid) released
      b.nameOwnership }

/-- `releaseNameOwnership` by name: every other identity that holds it. -/
def releaseNameOwnershipOf (b : Broker) (normalized : String) (exceptLid : SessionId) :
    Broker :=
  { b with
    nameOwnership := updateWhere (fun o => o.normalizedName = some normalized ∧
      o.logicalIdentityId ≠ exceptLid ∧ o.nameState.holds) released b.nameOwnership }

/-- The owner secret hash an identity has on record. -/
def ownerHash (b : Broker) (lid : SessionId) : Option String :=
  (b.nameOwnership.find? fun o => o.logicalIdentityId = lid).bind (·.ownerSecretHash)

/-- `setNameOwnershipActive`: the plaintext secret is answered only when freshly minted. -/
def setNameOwnershipActive (b : Broker) (env : Env) (mom : Moment) (lid sid : SessionId)
    (norm : SessionName) : Option String × Broker :=
  let minted : Option String := if (b.ownerHash lid).isNone then some mom.secret else none
  let hash := (b.ownerHash lid).getD (env.hashSecret mom.secret)
  let b := b.releaseNameOwnershipOf norm.normalized lid
  (minted, { b with
    nameOwnership := upsert (·.logicalIdentityId)
      { logicalIdentityId := lid, normalizedName := some norm.normalized
        displayName := some norm.display, ownerSecretHash := some hash
        nameState := .active, currentSessionId := some sid }
      (fun o => { o with
        normalizedName := some norm.normalized, displayName := some norm.display
        ownerSecretHash := some hash, nameState := .active, currentSessionId := some sid })
      b.nameOwnership })

/-- Give the session's row an active name. -/
def setSessionName (b : Broker) (sid : SessionId) (norm : SessionName) : Broker :=
  b.updateSession sid fun s =>
    { s with sessionName := some norm.display, normalizedSessionName := some norm.normalized
             sessionNameState := .active, pendingNameExpiresAt := none }

/-- `markPending`. -/
def markPending (b : Broker) (sid : SessionId) (now : Iso) : Broker :=
  let lid := b.logicalIdOf sid
  (b.updateSession sid fun s =>
    { s with sessionName := none, normalizedSessionName := none, sessionNameState := .pending
             pendingNameExpiresAt := some (now.plus (5 * 60000)) }).setNameOwnershipReleased lid

end Broker

/-- `SessionNameStatus`, with the secret of a first protected award. -/
structure NameStatus where
  state : NameState
  name : Option String
  ownerSecret : Option String := none
deriving DecidableEq, Repr

/-- `claimNameForRegister`: a taken or invalid name leaves the session pending, and never
    fails the registration. -/
def claimNameForRegister (env : Env) (mom : Moment) (sid : SessionId)
    (requested : Option String) (b : Broker) : NameStatus × Broker :=
  match requested with
  | none => ({ state := .unnamed, name := none }, b)
  | some raw =>
    match validateSessionName env.text raw with
    | .error _ => ({ state := .pending, name := none }, b.markPending sid mom.now)
    | .ok norm =>
      if b.nameTaken norm.normalized sid then
        ({ state := .pending, name := none }, b.markPending sid mom.now)
      else
        let b := b.setSessionName sid norm
        let own := b.setNameOwnershipActive env mom (b.logicalIdOf sid) sid norm
        ({ state := .active, name := some norm.display, ownerSecret := own.1 }, own.2)

/-! ## Liveness of an incumbent -/

namespace Broker

/-- The live mcp components of a session at an epoch. -/
def liveMcp (b : Broker) (sid : SessionId) (epoch : Nat) : List Component :=
  b.components.filter fun c => c.sessionId = sid ∧ c.epoch = epoch ∧ c.role = .mcp ∧
    c.state = .live

/-- `hasProvenLiveMcp`: the connection is the proof while the session is connected; once it
    is not, the process prober is asked, and anything but proven dead blocks. -/
def hasProvenLiveMcp (b : Broker) (mom : Moment) (sid : SessionId) : Bool :=
  match b.session? sid with
  | none => false
  | some s =>
    match ((b.liveMcp sid s.activeEpoch).insertionSort
        fun c c' => c'.connectedAt.le c.connectedAt).head? with
    | none => false
    | some c => s.state ≠ .disconnected || mom.liveness c.processId ≠ .provenDeadOrRecycled

end Broker

/-- `ReclaimOutcome`. -/
inductive ReclaimOutcome
  | won (canonicalSessionId logicalIdentityId : SessionId)
  | lost (reason : ReclaimOutcomeCode)
deriving DecidableEq, Repr

/-- `resolveReclaim`. -/
def resolveReclaim (env : Env) (mom : Moment) (b : Broker) (requested : Option String)
    (ownerSecret : Option String) (newSessionId : SessionId) : ReclaimOutcome :=
  match requested, ownerSecret with
  | none, none => .lost .notAttempted
  | some _, none => .lost .credentialMissing
  | none, some _ => .lost .anchorMismatch
  | some raw, some secret =>
    match validateSessionName env.text raw with
    | .error _ => .lost .anchorMismatch
    | .ok norm =>
      match b.ownerOf norm.normalized with
      | none => .lost .anchorMismatch
      | some own =>
        match own.ownerSecretHash with
        | none => .lost .anchorMismatch
        | some hash =>
          if hash ≠ env.hashSecret secret then .lost .credentialInvalid
          else
            match own.currentSessionId with
            | none => .lost .anchorMismatch
            | some csid =>
              if csid = newSessionId then .lost .notAttempted
              else if b.hasProvenLiveMcp mom csid then .lost .predecessorLive
              else .won csid own.logicalIdentityId

/-! ## Aliases -/

/-- The session that actively holds a global alias. -/
def Broker.aliasHolder (b : Broker) (ci : String) : Option SessionId :=
  (b.aliases.find? fun a => a.ci = ci ∧ a.active).map (·.sessionId)

/-- `upsertAliasRow`. -/
def Broker.upsertAliasRow (b : Broker) (handle : Alias) (sid : SessionId) : Broker :=
  { b.mint with
    aliases := b.aliases ++ [{ display := handle.display, ci := handle.ci, sessionId := sid
                               active := true }] }

/-- `upsertAutomaticAliasSafe`: a prefix collision never fails the caller. -/
def Broker.upsertAutomaticAliasSafe (b : Broker) (handle : Alias) (sid : SessionId) : Broker :=
  match b.aliasHolder handle.ci with
  | some holder =>
    if holder ≠ sid then b.audit .automaticAliasCollision (some sid) else b
  | none =>
    if b.aliases.any fun a => a.sessionId = sid ∧ a.ci = handle.ci then
      { b with
        aliases := updateWhere (fun a => a.sessionId = sid ∧ a.ci = handle.ci)
          (fun a => { a with active := true }) b.aliases }
    else b.upsertAliasRow handle sid

/-- The transaction of `registerAlias`. -/
def registerAliasTransaction (auth : SessionAuthority) (handle : Alias) : BrokerCall String := do
  assertCurrentEpoch auth
  let b ← Call.get
  match b.aliasHolder handle.ci with
  | some holder =>
    Call.require (holder = auth.sessionId) (xbusError .invalidAlias "alias already in use")
  | none => Call.modify fun b => b.upsertAliasRow handle auth.sessionId
  Call.modify fun b => b.audit .aliasRegistered (some auth.sessionId)
  pure handle.display

/-- `registerAlias`. -/
def registerAlias (env : Env) (auth : SessionAuthority) (raw : String) : BrokerCall String := do
  let handle ← Call.lift (validateUserAlias env.text raw)
  Call.transaction (registerAliasTransaction auth handle)

/-! ## Renaming -/

structure RenameResult where
  name : String
  ownerSecret : Option String
  reclaimOutcome : Option ReclaimOutcomeCode
deriving DecidableEq, Repr

private def nameTakenError (message : String) (norm : SessionName)
    (outcome : Option ReclaimOutcomeCode := none) : Failure :=
  xbusError .sessionNameTaken message
    (("name", norm.display) :: (outcome.map fun o => ("reclaimOutcome", o.text)).toList)

/-- The incumbent of a name loses it, in both representations. -/
def Broker.forfeit (b : Broker) (normalized : String) (exceptLid : SessionId)
    (csid : Option SessionId) : Broker :=
  let b := b.releaseNameOwnershipOf normalized exceptLid
  { b with
    sessions := updateWhere
      (fun s => some s.sessionId = csid ∧ s.normalizedSessionName = some normalized)
      (fun s => { s with sessionName := none, normalizedSessionName := none
                         sessionNameState := .unnamed }) b.sessions }

/-- The credential-gated reclaim of `renameSession`, when another session holds the name. -/
def reclaimForRename (env : Env) (mom : Moment) (auth : SessionAuthority) (norm : SessionName)
    (ownerSecret : Option String) : BrokerCall Unit := do
  let b ← Call.get
  let own := b.ownerOf norm.normalized
  match ownerSecret, own.bind (·.ownerSecretHash) with
  | none, some _ =>
    Call.refuse id (nameTakenError "session name already in use" norm (some .credentialMissing))
  | _, none =>
    Call.refuse id (nameTakenError "session name already in use" norm (some .unrelatedOwns))
  | some secret, some hash => do
    Call.require (hash = env.hashSecret secret) (xbusError .reclaimCredentialInvalid
      "ownership secret does not match the durable name owner"
      [("name", norm.display), ("reclaimOutcome", "credential-invalid")])
    let csid := own.bind (·.currentSessionId)
    Call.require (¬ csid.any (b.hasProvenLiveMcp mom))
      (nameTakenError "session name held by a live owner" norm (some .predecessorLive))
    Call.modify fun b => b.forfeit norm.normalized (b.logicalIdOf auth.sessionId) csid

/-- What a rename writes once the name is free: the session's row, the automatic alias of a
    session it revives, the retention, and the ownership row. -/
def Broker.rename (b : Broker) (env : Env) (mom : Moment) (sid : SessionId)
    (norm : SessionName) (wasExpired : Bool) : Option String × Broker :=
  let b := (b.setSessionName sid norm).updateSession sid fun s =>
    { s with expiredAt := none, readiness := if wasExpired then .initializing else s.readiness }
  let b := if wasExpired then b.upsertAutomaticAliasSafe (automaticAlias env.text sid) sid else b
  let b := b.refreshMeaningfulActivity sid mom.now
  b.setNameOwnershipActive env mom (b.logicalIdOf sid) sid norm

/-- `renameSession`. An expired session is revived by it: the tombstone is cleared and
    readiness goes back to `initializing`, at the same epoch. -/
def renameSession (env : Env) (mom : Moment) (auth : SessionAuthority) (raw : String)
    (ownerSecret : Option String) : BrokerCall RenameResult := do
  Call.require (auth.role = .mcp)
    (xbusError .forbiddenRole "only the mcp component may name/rename a session")
  let norm ← Call.lift (validateSessionName env.text raw)
  Call.transaction do
    let b ← Call.get
    let s ← Call.orThrow (b.session? auth.sessionId)
      (xbusError .sessionNotRegistered "session not registered")
    Call.require (s.activeEpoch = auth.epoch)
      (xbusError .epochMismatch "stale epoch; re-register")
    let taken := b.nameTaken norm.normalized auth.sessionId
    if taken then reclaimForRename env mom auth norm ownerSecret else pure ()
    let minted ← Call.act fun b => b.rename env mom auth.sessionId norm s.expiredAt.isSome
    pure { name := norm.display, ownerSecret := minted
           reclaimOutcome := if taken then some .reclaimSucceeded else none }

/-- The writes of the operator's rename. -/
def Broker.operatorRename (b : Broker) (env : Env) (mom : Moment) (sid : SessionId)
    (norm : SessionName) : Broker :=
  let b := b.setSessionName sid norm
  (b.setNameOwnershipActive env mom (b.logicalIdOf sid) sid norm).2

/-- `operatorRenameAlias`: the operator's rename of any session, without role or epoch. -/
def operatorRenameAlias (env : Env) (mom : Moment) (sid : SessionId) (raw : String) :
    BrokerCall NameStatus :=
  Call.transaction do
    let b ← Call.get
    Call.require (b.session? sid).isSome (xbusError .messageNotFound "no such session")
    let norm ← Call.lift (validateSessionName env.text raw)
    Call.require (¬ b.nameTaken norm.normalized sid)
      (nameTakenError "session name already in use" norm)
    Call.modify fun b => b.operatorRename env mom sid norm
    pure { state := .active, name := some norm.display }

end XBus
