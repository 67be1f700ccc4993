import XBus.Names

/-!
# Registration

`BrokerStore.register`. A component registers on a connection for a session id; the call
resolves which session row it is for (an established redirect, or a credential reclaim),
then takes one of three branches:

* the row does not exist: it is created at epoch 1;
* a fresh lifecycle (supersede, or an expired session resuming): the epoch advances, the
  name is dropped, the old components are superseded and in-flight deliveries requeued;
* otherwise the component joins the current epoch, unless it is an mcp component and another
  connection holds a live one.

Last comes the component row and the claim of a name. `session_epochs` and the fencing
counter are written and never read by these operations and are left out, and so is the
ledger.
-/

set_option autoImplicit false

namespace XBus

open Lib

/-- `RegisterInput`, with the fields that are read. -/
structure RegisterInput where
  sessionId : SessionId
  connectionId : ConnId
  processId : Int
  receiveMode : String := "hook_checkpoint"
  capabilities : List String := []
  role : ComponentRole := .mcp
  requestedSessionName : Option String := none
  ownerSecret : Option String := none
  supersede : Bool := false
deriving DecidableEq, Repr

/-- The reserved operator session. -/
def operatorSessionId : SessionId := "local-operator"

namespace Broker

/-- The established redirect of a physical id: the edge, if its target exists and is not
    expired. -/
def redirectOf (b : Broker) (physical : SessionId) : Option SessionId :=
  match b.physicalMap.find? fun e => e.physicalSessionId = physical with
  | none => none
  | some e =>
    match b.session? e.canonicalSessionId with
    | none => none
    | some t => if t.expiredAt = none then some e.canonicalSessionId else none

/-- The session `diagnoseActivationOnce` classifies for a hook's id: the target of its edge, if
    it exists. -/
def diagnosedSession (b : Broker) (physical : SessionId) : SessionId :=
  match b.physicalMap.find? fun e => e.physicalSessionId = physical with
  | none => physical
  | some e => if (b.session? e.canonicalSessionId).isSome then e.canonicalSessionId else physical

/-- The sessions the dashboard lists: an id that has been redirected is no row of its own. -/
def listedSessions (b : Broker) : List SessionId :=
  (b.sessions.filter fun s =>
    ¬ (b.physicalMap.any fun e => e.physicalSessionId = s.sessionId)).map (·.sessionId)

/-- Purge a physical id's edge when it is dangling or its target is dormant. -/
def purgeStaleEdge (b : Broker) (physical : SessionId) : Broker :=
  if (b.redirectOf physical).isSome then b
  else { b with
    physicalMap := b.physicalMap.filter fun e => e.physicalSessionId ≠ physical }

/-- Record the redirect of a reclaiming physical id. -/
def recordReclaim (b : Broker) (physical : SessionId) : ReclaimOutcome → Broker
  | .won canonical lid =>
    if physical = canonical then b
    else { b with
      physicalMap := insertOrReplace (·.physicalSessionId)
        { physicalSessionId := physical, canonicalSessionId := canonical
          logicalIdentityId := lid } b.physicalMap }
  | .lost _ => b

/-- `rehomeAcceptedReplyAuthority` for one message: an authority-only injection at the new
    epoch, with the long retention. The check is the code's own; the index over (message,
    checkpoint) cannot be hit, the checkpoint id being freshly minted. -/
def rehomeOne (b : Broker) (sid : SessionId) (epoch : Nat) (now : Iso) (mid : Id) : Broker :=
  if b.injections.any fun i => i.messageId = mid ∧ i.recipientEpoch = epoch ∧
      i.logicalInjectionNumber = 1 then b
  else
    let b : Broker := { b.mint.mint with
      injections := b.injections ++ [{
        injectionId := b.nextId, messageId := mid, recipientSessionId := sid
        recipientEpoch := epoch
        checkpointId := .minted "reply-authority-rehome-" (b.nextId + 1)
        logicalInjectionNumber := 1, injectedAt := now
        expiresAt := now.plus retentionMs }] }
    b.audit .replyAuthorityRehomed (some sid) (some mid)

/-- The accepted deliveries to a session that still owe a reply. -/
def acceptedOwingReply (b : Broker) (sid : SessionId) : List Id :=
  (b.deliveries.filter fun d => d.recipientSessionId = sid ∧ d.state = .accepted ∧
    b.requiresReply d.messageId).map (·.messageId)

/-- `rehomeAcceptedReplyAuthority`. -/
def rehomeAcceptedReplyAuthority (b : Broker) (sid : SessionId) (epoch : Nat) (now : Iso) :
    Broker :=
  (b.acceptedOwingReply sid).foldl (fun b mid => b.rehomeOne sid epoch now mid) b

/-- Put in-flight deliveries of a session back into the queue. -/
def requeueInFlight (b : Broker) (sid : SessionId) (now : Iso) (abandoned : Delivery → Bool) :
    Broker :=
  b.updateDeliveries (fun d => d.recipientSessionId = sid ∧ d.state = .transportWritten ∧
    abandoned d) fun d => { d with state := .queued, updatedAt := now }

/-- The first registration of a session id. -/
def createSession (b : Broker) (env : Env) (input : RegisterInput) : Broker :=
  let auto := automaticAlias env.text input.sessionId
  let b : Broker := { b with
    sessions := b.sessions ++ [{
      sessionId := input.sessionId, logicalIdentityId := some input.sessionId, activeEpoch := 1
      boundConnectionId := some input.connectionId, automaticAlias := auto.display
      receiveMode := input.receiveMode, capabilities := input.capabilities
      state := .connected }]
    recipientSequences := insertOrIgnore (·.recipientSessionId)
      { recipientSessionId := input.sessionId, nextSequence := 1 }
      b.recipientSequences }
  b.upsertAutomaticAliasSafe auto input.sessionId

/-- The columns a fresh lifecycle resets. The bound connection is not one of them. -/
def resetForLifecycle (epoch : Nat) (s : Session) : Session :=
  { s with activeEpoch := epoch, state := .connected, readiness := .initializing
           expiredAt := none, sessionName := none, normalizedSessionName := none
           sessionNameState := .unnamed, pendingNameExpiresAt := none }

/-- A fresh lifecycle of an existing session: supersede, or an expired resume. -/
def advanceEpoch (b : Broker) (env : Env) (now : Iso) (sid : SessionId) (epoch : Nat)
    (isExpiredResume : Bool) : Broker :=
  let b := b.updateSession sid (resetForLifecycle epoch)
  let b := b.setNameOwnershipReleased (b.logicalIdOf sid)
  let b : Broker := { b with
    components := updateWhere (fun c => c.sessionId = sid ∧ c.state = .live)
      (fun c => { c with state := .superseded }) b.components }
  let b := b.requeueInFlight sid now fun _ => true
  let b := b.rehomeAcceptedReplyAuthority sid epoch now
  if isExpiredResume then b.upsertAutomaticAliasSafe (automaticAlias env.text sid) sid else b

/-- A component joins the current epoch: the row is connected and keeps the connection it is
    bound to, and only deliveries whose lease has lapsed are requeued. -/
def joinEpoch (b : Broker) (now : Iso) (input : RegisterInput) : Broker :=
  (b.updateSession input.sessionId fun s =>
    { s with state := .connected
             boundConnectionId := some (s.boundConnectionId.getD input.connectionId)
    }).requeueInFlight input.sessionId now fun d => d.leaseExpiresAt.all fun t => t.le now

end Broker

/-- The three branches on the session row; the answer is the epoch of the component. -/
def enterSession (env : Env) (now : Iso) (input : RegisterInput) : BrokerCall Nat := do
  let b ← Call.get
  match b.session? input.sessionId with
  | none => do
    Call.modify fun b => b.createSession env input
    pure 1
  | some existing =>
    if input.supersede ∨ existing.expiredAt.isSome then do
      Call.modify fun b => b.advanceEpoch env now input.sessionId (existing.activeEpoch + 1)
        existing.expiredAt.isSome
      pure (existing.activeEpoch + 1)
    else do
      Call.requireElse (input.role ≠ .mcp ∨ ¬ (b.liveMcp input.sessionId
          existing.activeEpoch).any fun c => c.connectionId ≠ input.connectionId)
        (fun b => b.audit .sessionAlreadyActive (some input.sessionId))
        (xbusError .sessionAlreadyActive
          "this session already has an active XBus owner; use --fork-session, close the existing owner, or use the `takeover <session>` command"
          [("sessionId", input.sessionId)])
      Call.modify fun b => b.joinEpoch now input
      pure existing.activeEpoch

/-- The component row of a registration. -/
def Broker.insertComponent (b : Broker) (input : RegisterInput) (id : Id) (epoch : Nat)
    (now : Iso) : Broker :=
  { b with
    components := b.components ++ [{
      componentInstanceId := id, sessionId := input.sessionId, epoch, role := input.role
      processId := input.processId, connectionId := input.connectionId, connectedAt := now
      state := .live }] }

/-- The name part of a registration: claimed on a new lifecycle, or by the first component
    of an unnamed session that asks for one; otherwise read back. -/
def settleName (env : Env) (mom : Moment) (input : RegisterInput) (isNewLifecycle : Bool)
    (b : Broker) : NameStatus × Broker :=
  if isNewLifecycle then
    let claimed := claimNameForRegister env mom input.sessionId input.requestedSessionName b
    (claimed.1, claimed.2.refreshMeaningfulActivity input.sessionId mom.now)
  else
    match b.session? input.sessionId with
    | none => ({ state := .unnamed, name := none }, b)
    | some cur =>
      if cur.sessionNameState = .unnamed ∧ input.requestedSessionName.isSome then
        claimNameForRegister env mom input.sessionId input.requestedSessionName b
      else ({ state := cur.sessionNameState, name := cur.sessionName }, b)

/-- What a reclaim resolved to; only an mcp component may reclaim. -/
def reclaimOf (env : Env) (mom : Moment) (b : Broker) (raw : RegisterInput) : ReclaimOutcome :=
  if raw.role = .mcp then
    resolveReclaim env mom b raw.requestedSessionName raw.ownerSecret raw.sessionId
  else .lost .notAttempted

/-- The input a registration goes on with: redirected onto the canonical session, and forced
    through a fresh lifecycle when it reclaims. -/
def redirected (raw : RegisterInput) (reclaim : ReclaimOutcome) (redirect : Option SessionId) :
    RegisterInput :=
  match reclaim with
  | .won canonical _ => { raw with sessionId := canonical, supersede := true }
  | .lost _ =>
    match redirect with
    | none => raw
    | some canonical => { raw with sessionId := canonical }

/-- The reclaim code a registration reports. -/
def reportedOutcome (raw : RegisterInput) : ReclaimOutcome → Option ReclaimOutcomeCode
  | .won _ _ => some .reclaimSucceeded
  | .lost reason =>
    if raw.ownerSecret.isSome ∧ raw.requestedSessionName.isSome ∧ reason ≠ .notAttempted then
      some reason
    else none

/-- The transaction of `register`. -/
def registerTransaction (env : Env) (mom : Moment) (raw : RegisterInput) :
    BrokerCall SessionAuthority := do
  let componentId ← Call.act fun b => (b.nextId, b.mint)
  let redirect ← Call.act fun b => (b.redirectOf raw.sessionId, b.purgeStaleEdge raw.sessionId)
  let reclaim ← Call.act fun b => (reclaimOf env mom b raw, b)
  let input := redirected raw reclaim redirect
  Call.modify fun b => b.recordReclaim raw.sessionId reclaim
  let isNewLifecycle ← Call.act fun b => (match b.session? input.sessionId with
    | none => true
    | some existing => input.supersede || existing.expiredAt.isSome, b)
  let epoch ← enterSession env mom.now input
  Call.modify fun b => b.insertComponent input componentId epoch mom.now
  let name ← Call.act (settleName env mom input isNewLifecycle)
  Call.modify fun b => b.audit .componentRegistered (some input.sessionId)
  let b ← Call.get
  pure { sessionId := input.sessionId, componentInstanceId := componentId, role := input.role
         epoch, connectionId := input.connectionId, sessionNameState := name.state
         awardedSessionName := name.name, logicalIdentityId := b.logicalIdOf input.sessionId
         ownerSecret := name.ownerSecret
         nameReclaimFailed := raw.ownerSecret.isSome ∧ raw.requestedSessionName.isSome ∧
           name.state ≠ .active
         reclaimOutcome := reportedOutcome raw reclaim }

/-- `register`. -/
def register (env : Env) (mom : Moment) (raw : RegisterInput) : BrokerCall SessionAuthority := do
  Call.require (raw.sessionId ≠ operatorSessionId) (xbusError .protocolViolation
    "this session id is reserved and cannot be registered" [("sessionId", raw.sessionId)])
  Call.transaction (registerTransaction env mom raw)

end XBus
