import XBus.Register
import XBus.Delivery

/-!
# The store: sending, readiness, and the operator's hand

The rest of `broker/store.ts` that the mail path and the registry go through, the reserved
operator session of `broker/operator.ts`, and what the daemon writes when a connection
closes.
-/

set_option autoImplicit false

namespace XBus

open Lib

/-! ## Recipients -/

/-- One `Map.set`: the value is replaced in place, a new key goes last. -/
def mapSet (rows : List (SessionId × String)) (r : SessionId × String) :
    List (SessionId × String) :=
  upsert Prod.fst r (fun _ => r) rows

/-- `resolveRecipient`. -/
def resolveRecipient (env : Env) (b : Broker) (raw : String) :
    Except Failure (SessionId × String) :=
  match parseRecipient env.text raw with
  | .error e => .error e
  | .ok (.session sid) =>
    match b.session? sid with
    | none => .error (xbusError .unknownRecipient "no such session")
    | some s => .ok (s.sessionId, s.automaticAlias)
  | .ok (.bare handle) =>
    let want := env.text.toLowerCase handle
    let byName := (b.sessions.filter fun s => s.normalizedSessionName = some want ∧
      s.sessionNameState = .active ∧ s.expiredAt = none).map fun s =>
        (s.sessionId, s.sessionName.getD "")
    let byAlias := (b.aliases.filter fun a => a.ci = want ∧ a.active).map fun a =>
      (a.sessionId, a.display)
    match (byName ++ byAlias).foldl mapSet [] with
    | [] => .error (xbusError .unknownRecipient "unknown recipient")
    | [r] => .ok r
    | _ => .error (xbusError .ambiguousRecipient
        "ambiguous recipient; supply a fully-qualified projectId/alias or exact session id")
  | .ok (.qualified project handle) =>
    match b.aliases.filter fun a => a.ci = env.text.toLowerCase handle ∧ a.active ∧
        (b.session? a.sessionId).any fun s => s.projectAlias = some project with
    | [] => .error (xbusError .unknownRecipient "unknown recipient")
    | [a] => .ok (a.sessionId, a.display)
    | _ => .error (xbusError .ambiguousRecipient
        "ambiguous recipient; supply an exact session id")

/-- The active aliases of a session as a scan of `ux_alias_global` finds them. -/
def Broker.activeAliases (b : Broker) (sid : SessionId) : List AliasRow :=
  (b.aliases.filter fun a => a.sessionId = sid ∧ a.active).insertionSort fun a a' =>
    binaryLe a.ci.toList a'.ci.toList

/-- `aliasForSession`: a chosen alias before the automatic one. -/
def Broker.aliasForSession (b : Broker) (sid : SessionId) : String :=
  let auto := "session-" ++ String.ofList (sid.toList.take 8)
  let rank (a : AliasRow) : Nat := if a.ci = auto then 1 else 0
  match ((b.activeAliases sid).insertionSort fun a a' => rank a ≤ rank a').head? with
  | some a => a.display
  | none => ((b.session? sid).map (·.automaticAlias)).getD "unknown"

/-! ## Sending -/

/-- The kinds a caller may send: `z.enum(['request', 'event'])`. -/
inductive SendKind
  | request | event
deriving DecidableEq, Repr

def SendKind.toMessageKind : SendKind → MessageKind
  | .request => .request
  | .event => .event

/-- `SendInput`, as `validateSendInput` admits it. -/
structure SendInput where
  /-- The field `to` of the source. -/
  recipient : String
  text : String
  kind : SendKind := .request
  requiresAck : Bool := true
  requiresReply : Bool := false
  ttlSeconds : Option Nat := none
  idempotencyKey : Option String := none
  metadata : Option (List (String × String)) := none
deriving DecidableEq, Repr

/-- An object of strings. -/
def stringRecord (entries : List (String × String)) : JsonValue :=
  .obj (entries.map fun e => (e.1, .str e.2))

/-- `new Date(nowMs + ttlMs).toISOString()`, or `null` without a TTL. -/
def ttlExpiry (now : Iso) (ttlSeconds : Option Nat) : Except Failure (Option Iso) :=
  match ttlSeconds with
  | none => .ok none
  | some 0 => .ok none
  | some t =>
    if now.ms + t * 1000 ≤ Iso.maxMs then .ok (some (now.plus (t * 1000))) else .error .range

private def recipientExpired (handle : String) : Failure :=
  xbusError .recipientSessionExpired
    "recipient session expired (no activity for 15 days); it must re-register"
    [("recipient", handle)]

/-- What a send with a known idempotency key reports. -/
def Broker.replaySend (b : Broker) (dup : Message) : SendResult :=
  { messageId := dup.messageId, correlationId := dup.correlationId
    recipientSessionId := dup.recipientSessionId, recipientAlias := dup.recipientAlias
    sequence := dup.recipientSequence
    state := ((b.delivery? dup.messageId).map (·.state)).getD .queued, deduplicated := true }

/-- The part of a message row that a sender's input and identity determine. -/
def messageRow (input : SendInput) (sender : SessionId) (senderAlias : String)
    (recipient : SessionId × String) (author : AuthorType) (now : Iso)
    (messageId traceId threadId sequence threadSequence : Nat) (expiresAt : Option Iso)
    (parent : Option Id) : Message :=
  { messageId, senderSessionId := sender, senderAlias, recipientSessionId := recipient.1
    recipientAlias := recipient.2, kind := input.kind.toMessageKind, correlationId := threadId
    causationId := parent, parentMessageId := parent, recipientSequence := sequence
    idempotencyKey := input.idempotencyKey, text := input.text
    metadata := input.metadata.map stringRecord, requiresAck := input.requiresAck
    requiresReply := input.requiresReply, expiresAt, createdAt := now, traceId
    threadId := some threadId, threadSequence
    authorType := author }

/-- The bookkeeping of a turn: the thread exists and both ends participate. -/
def Broker.openTurn (b : Broker) (threadId rootMessageId : Id) (sender recipient : SessionId)
    (author : AuthorType) (now : Iso) : Broker :=
  (((b.ensureThread threadId rootMessageId).allocThreadSequence threadId).ensureParticipant
    threadId sender author now).ensureParticipant threadId recipient .claude now

/-- The transaction of `send`. The sender's epoch is not looked at. -/
def sendTransaction (env : Env) (now : Iso) (auth : SessionAuthority) (input : SendInput) :
    BrokerCall SendResult := do
  let b ← Call.get
  match b.duplicateOf auth.sessionId input.idempotencyKey with
  | some dup => do
    Call.requireElse ((b.replaySend dup).state.terminalForRetry ∨
        b.isExpired dup.recipientSessionId = false)
      (fun b => b.audit .sendRejectedRecipientExpired (some auth.sessionId))
      (recipientExpired dup.recipientAlias)
    pure (b.replaySend dup)
  | none => do
    let recipient ← Call.lift (resolveRecipient env b input.recipient)
    Call.requireElse (b.isExpired recipient.1 = false)
      (fun b => b.audit .sendRejectedRecipientExpired (some auth.sessionId))
      (recipientExpired recipient.2)
    Call.requireElse (b.isBlocked env recipient.1
        (env.text.toLowerCase (b.aliasForSession auth.sessionId)) = false)
      (fun b => b.audit .blockedSendRejected (some auth.sessionId))
      (xbusError .blocked "recipient has blocked this sender")
    let messageId ← Call.act fun b => (b.nextId, b.mint)
    let traceId ← Call.act fun b => (b.nextId, b.mint)
    let sequence ← allocSequence recipient.1
    let expiresAt ← Call.lift (ttlExpiry now input.ttlSeconds)
    let threadSequence ← Call.act fun b =>
      ((b.ensureThread messageId messageId).nextThreadSequence messageId,
        b.openTurn messageId messageId auth.sessionId recipient.1 .claude now)
    insertMessage (messageRow input auth.sessionId (b.aliasForSession auth.sessionId) recipient
      .claude now messageId traceId messageId sequence threadSequence expiresAt none)
    Call.modify fun b => (((b.touchThread messageId threadSequence).enqueue messageId
      recipient.1 now).refreshMeaningfulActivity auth.sessionId now).audit .messageSent
        (some auth.sessionId) (some messageId)
    pure { messageId, correlationId := messageId, recipientSessionId := recipient.1
           recipientAlias := recipient.2, sequence, state := .queued, deduplicated := false }

/-- `send`. -/
def send (env : Env) (now : Iso) (auth : SessionAuthority) (input : SendInput) :
    BrokerCall SendResult :=
  Call.transaction (sendTransaction env now auth input)

/-- `OperatorSendInput`. -/
structure OperatorSendInput extends SendInput where
  threadId : Option Id := none
  parentMessageId : Option Id := none
  subject : Option String := none
deriving DecidableEq, Repr

/-- Where an operator's turn goes: the thread, its root, and the turn it answers. -/
structure TurnPlace where
  threadId : Id
  rootMessageId : Id
  parent : Option Id
deriving DecidableEq, Repr

/-- The thread resolution of `operatorSend`. The operator continues only threads it takes
    part in, and only with the session it opened them with. -/
def placeTurn (input : OperatorSendInput) (recipient : SessionId) (messageId : Id) (b : Broker) :
    Except Failure TurnPlace :=
  match input.threadId with
  | none => .ok { threadId := messageId, rootMessageId := messageId, parent := none }
  | some tid =>
    match b.threads.find? fun t => t.threadId = tid with
    | none => .error (xbusError .messageNotFound "no such thread")
    | some t =>
      if ¬ t.isOpen then .error (xbusError .illegalStateTransition "thread is closed")
      else if ¬ b.threadParticipants.any fun p =>
          p.threadId = tid ∧ p.sessionId = operatorSessionId then
        .error (xbusError .notRecipient "the operator is not a participant of this thread")
      else
        let parent : Except Failure Id :=
          match input.parentMessageId with
          | some pid =>
            if b.messages.any fun m => m.messageId = pid ∧ m.threadId = some tid then .ok pid
            else .error (xbusError .messageNotFound "parentMessageId is not a turn in this thread")
          | none => .ok ((((b.messages.filter fun m => m.threadId = some tid).insertionSort
              fun m m' => m'.threadSequence ≤ m.threadSequence).head?.map
                (·.messageId)).getD t.rootMessageId)
        let peer := ((b.threadParticipants.filter fun p => p.threadId = tid ∧
          p.sessionId ≠ operatorSessionId).insertionSort
            fun p p' => p.joinedAt.le p'.joinedAt).head?
        match parent with
        | .error e => .error e
        | .ok pid =>
          if peer.any fun p => p.sessionId ≠ recipient then
            .error (xbusError .unknownRecipient
              "recipient does not match this thread's participant")
          else .ok { threadId := tid, rootMessageId := t.rootMessageId, parent := some pid }

/-- `UPDATE threads SET subject=? WHERE thread_id=? AND subject IS NULL`, of a new thread. -/
def Broker.setSubject (b : Broker) (input : OperatorSendInput) (threadId : Id) : Broker :=
  if input.subject.isSome ∧ input.threadId = none then
    { b with
      threads := updateWhere (fun t => t.threadId = threadId ∧ t.subject = none)
        (fun t => { t with subject := input.subject }) b.threads }
  else b

/-- `operatorSend`. -/
def operatorSend (env : Env) (now : Iso) (input : OperatorSendInput) : BrokerCall SendResult :=
  Call.transaction do
    let b ← Call.get
    match b.duplicateOf operatorSessionId input.idempotencyKey with
    | some dup =>
      pure { b.replaySend dup with
        threadId := dup.threadId, threadSequence := some dup.threadSequence }
    | none => do
      let recipient ← Call.lift (resolveRecipient env b input.recipient)
      Call.require (recipient.1 ≠ operatorSessionId)
        (xbusError .unknownRecipient "the operator cannot message itself")
      Call.require (b.isExpired recipient.1 = false) (recipientExpired recipient.2)
      let messageId ← Call.act fun b => (b.nextId, b.mint)
      let traceId ← Call.act fun b => (b.nextId, b.mint)
      let place ← Call.lift (placeTurn input recipient.1 messageId b)
      let threadSequence ← Call.act fun b =>
        ((b.ensureThread place.threadId place.rootMessageId).nextThreadSequence place.threadId,
          (b.openTurn place.threadId place.rootMessageId operatorSessionId recipient.1 .operator
            now).setSubject input place.threadId)
      let sequence ← allocSequence recipient.1
      let expiresAt ← Call.lift (ttlExpiry now input.ttlSeconds)
      insertMessage (messageRow input.toSendInput operatorSessionId operatorSessionId recipient
        .operator now messageId traceId place.threadId sequence threadSequence expiresAt
        place.parent)
      Call.modify fun b => ((b.touchThread place.threadId threadSequence).enqueue messageId
        recipient.1 now).audit .operatorMessageSent (some operatorSessionId) (some messageId)
      pure { messageId, correlationId := place.threadId, recipientSessionId := recipient.1
             recipientAlias := recipient.2, sequence, state := .queued, deduplicated := false
             threadId := some place.threadId, threadSequence := some threadSequence }

/-- `markThreadRead`: the operator's read cursor moves up, never down. The answer is where it
    stands. -/
def markThreadRead (now : Iso) (threadId : Id) (upToSequence : Nat) : BrokerCall Nat :=
  Call.transaction do
    let b ← Call.get
    Call.require (b.threads.any fun t => t.threadId = threadId)
      (xbusError .messageNotFound "no such thread")
    Call.modify fun b => b.ensureParticipant threadId operatorSessionId .operator now
    let b ← Call.get
    let current := ((b.threadParticipants.find? fun p =>
      p.threadId = threadId ∧ p.sessionId = operatorSessionId).map (·.lastReadThreadSeq)).getD 0
    let target := max current upToSequence
    Call.modify fun b => { b with
      threadParticipants := updateWhere
        (fun p => p.threadId = threadId ∧ p.sessionId = operatorSessionId)
        (fun p => { p with lastReadThreadSeq := target }) b.threadParticipants }
    pure target

/-! ## Readiness and controls -/

/-- `signalReadiness`. -/
def signalReadiness (auth : SessionAuthority) (hints : ReadinessHints) : BrokerCall Readiness :=
  Call.transaction do
    let b ← Call.get
    let s ← Call.orThrow (b.session? auth.sessionId)
      (xbusError .sessionNotRegistered "session not registered")
    Call.require (s.activeEpoch = auth.epoch)
      (xbusError .epochMismatch "stale epoch; re-register")
    let readiness := resolveReadiness s.receiveMode s.capabilities hints
    Call.modify fun b => (b.updateSession auth.sessionId fun s => { s with readiness }).audit
      .readinessSignaled (some auth.sessionId)
    pure readiness

/-- `onSetControl` of the daemon: the caller's own receive control. No fence. -/
def setControl (now : Iso) (auth : SessionAuthority) (mode : ReceiveControl) :
    BrokerCall Unit :=
  Call.modify fun b => ((b.setControl auth.sessionId mode).refreshMeaningfulActivity
    auth.sessionId now).audit .controlSet

/-- `onBlockPeer` of the daemon. No fence. -/
def blockPeer (env : Env) (auth : SessionAuthority) (handle : String) (unblock : Bool) :
    BrokerCall Unit := do
  Call.require (¬ handle.isEmpty) (xbusError .invalidAlias "alias required")
  Call.modify fun b => if unblock then b.unblockPeer env auth.sessionId handle
    else b.blockPeer env auth.sessionId handle

/-- `operatorSetControl`. -/
def operatorSetControl (sid : SessionId) (mode : ReceiveControl) : BrokerCall Unit :=
  Call.transaction do
    let b ← Call.get
    Call.require (b.session? sid).isSome (xbusError .messageNotFound "no such session")
    Call.modify fun b => b.setControl sid mode

/-- `hasEligibleDelivery`: is there something the next checkpoint would inject? -/
def Broker.hasEligibleDelivery (b : Broker) (sid : SessionId) (now : Iso) : Bool :=
  if ¬ acceptsInjection (b.readinessOf sid) then false
  else if ¬ b.autoDeliveryEnabled sid then false
  else b.deliveries.any fun d => d.recipientSessionId = sid ∧ d.state.waiting ∧
    ((b.message? d.messageId).any fun m => m.unexpired now) ∧ d.due now

/-! ## The operator's recoveries -/

/-- The answer of `operatorRedeliver`. -/
inductive RedeliverOutcome
  | notFound | redelivered | replayed (attemptId : Id)
deriving DecidableEq, Repr

/-- Re-arm the delivery of a message for a fresh injection. -/
def Broker.rearm (b : Broker) (mid : Id) (fromState : DeliveryState → Bool) (now : Iso) :
    Broker :=
  b.updateDeliveries (fun d => d.messageId = mid ∧ fromState d.state) fun d =>
    { d with state := .queued, nextAttemptAt := none, leaseExpiresAt := none, updatedAt := now }

/-- The transaction of `operatorRedeliver`. -/
def operatorRedeliverTransaction (now : Iso) (mid : Id) (confirmReplayAccepted : Bool) :
    BrokerCall RedeliverOutcome := do
  let b ← Call.get
  match b.delivery? mid with
  | none => pure .notFound
  | some d =>
    if d.state = .accepted then do
      Call.requireElse (confirmReplayAccepted = true)
        (fun b => b.audit .operatorAcceptedReplayRefusedUnconfirmed
          (some d.recipientSessionId) (some mid))
        (xbusError .illegalStateTransition
          "replaying already-accepted work is destructive/duplicate; pass confirmReplayAccepted to proceed")
      let attemptId ← Call.act fun b => (b.nextId, b.mint)
      Call.modify fun b => (b.rearm mid (· = .accepted) now).audit .operatorAcceptedReplay
        (some d.recipientSessionId) (some mid)
      pure (.replayed attemptId)
    else do
      Call.require (d.state = .queued ∨ d.state = .retryWait ∨ d.state = .transportWritten)
        (xbusError .illegalStateTransition
          ("cannot redeliver a delivery in terminal state " ++ d.state.text))
      Call.modify fun b => (b.rearm mid (fun s => s = .queued ∨ s = .retryWait ∨
        s = .transportWritten) now).audit .operatorRedelivery (some d.recipientSessionId)
          (some mid)
      pure .redelivered

/-- `operatorRedeliver`. -/
def operatorRedeliver (now : Iso) (mid : Id) (confirmReplayAccepted : Bool) :
    BrokerCall RedeliverOutcome :=
  Call.transaction (operatorRedeliverTransaction now mid confirmReplayAccepted)

/-! ## Records of sessions -/

/-- The rows of a session that its removal deletes, with its unfinished deliveries closed
    out. Messages and deliveries stay. -/
def Broker.deleteSession (b : Broker) (sid : SessionId) (now : Iso) : Broker :=
  let lid := (b.session? sid).bind (·.logicalIdentityId)
  let b := b.updateDeliveries (fun d => d.recipientSessionId = sid ∧
      (d.state = .queued ∨ d.state = .retryWait ∨ d.state = .transportWritten ∨
        d.state = .accepted))
    fun d => { d with state := .deadLetter, failureCategory := some .recipientRemoved
                      nextAttemptAt := none, leaseExpiresAt := none, updatedAt := now }
  { b with
    aliases := b.aliases.filter fun a => a.sessionId ≠ sid
    recipientSequences := b.recipientSequences.filter fun r => r.recipientSessionId ≠ sid
    components := b.components.filter fun c => c.sessionId ≠ sid
    threadParticipants := b.threadParticipants.filter fun p => p.sessionId ≠ sid
    physicalMap := b.physicalMap.filter fun e => ¬ (e.canonicalSessionId = sid ∨
      e.physicalSessionId = sid ∨ some e.logicalIdentityId = lid)
    nameOwnership := b.nameOwnership.filter fun o => ¬ (o.currentSessionId = some sid ∨
      some o.logicalIdentityId = lid)
    sessions := b.sessions.filter fun s => s.sessionId ≠ sid }

/-- `operatorRemoveRecord`: refuses the operator and a connected session. The answer says
    whether there was a row. -/
def operatorRemoveRecord (now : Iso) (sid : SessionId) : BrokerCall Bool := do
  Call.require (sid ≠ operatorSessionId) (xbusError .protocolViolation
    "the reserved operator principal cannot be removed")
  Call.transaction do
    let b ← Call.get
    match b.session? sid with
    | none => pure false
    | some s => do
      Call.require (s.state ≠ .connected) (xbusError .illegalStateTransition
        "refusing to remove a connected session; disconnect or archive it first")
      Call.modify fun b => b.deleteSession sid now
      pure true

/-- A row for a session nobody has registered: disconnected, at epoch 0, and without a
    durable identity of its own on record. -/
def dormantSession (env : Env) (sid : SessionId) (receiveMode : String) : Session :=
  { sessionId := sid, logicalIdentityId := none, activeEpoch := 0, boundConnectionId := none
    automaticAlias := (automaticAlias env.text sid).display, receiveMode, capabilities := []
    state := .disconnected }

/-- `recordManagedSession`, before or after the session registers itself. -/
def recordManagedSession (env : Env) (sid : SessionId) : BrokerCall Unit :=
  Call.modify fun b => match b.session? sid with
    | some _ => b
    | none =>
      { b with
        sessions := b.sessions ++ [dormantSession env sid "hook_checkpoint"]
        recipientSequences := insertOrIgnore (·.recipientSessionId)
          { recipientSessionId := sid, nextSequence := 1 } b.recipientSequences }

/-- `importDormantSessions`, one listed session at a time. -/
def importDormantSession (env : Env) (sid : SessionId) : BrokerCall Unit :=
  Call.modify fun b => match b.session? sid with
    | some _ => b
    | none => { b with sessions := b.sessions ++ [dormantSession env sid "disconnected"] }

/-- `ensureOperatorSession` on a database that does not have the row. -/
def Broker.provisionOperator (b : Broker) (env : Env) : Broker :=
  let key := env.text.toLowerCase operatorSessionId
  let nameHeld := b.nameTaken key operatorSessionId
  { b with
    sessions := b.sessions ++ [{
      sessionId := operatorSessionId, logicalIdentityId := none, activeEpoch := 0
      boundConnectionId := none, automaticAlias := operatorSessionId
      receiveMode := "disconnected", capabilities := [], state := .disconnected
      readiness := .disconnected
      sessionName := if nameHeld then none else some operatorSessionId
      normalizedSessionName := if nameHeld then none else some operatorSessionId
      sessionNameState := if nameHeld then .unnamed else .active }]
    recipientSequences := insertOrIgnore (·.recipientSessionId)
      { recipientSessionId := operatorSessionId, nextSequence := 1 } b.recipientSequences
    aliases := if (b.aliasHolder key).isSome then b.aliases
      else b.aliases ++ [{ display := operatorSessionId, ci := key
                           sessionId := operatorSessionId, active := true }] }

/-- `ensureOperatorSession`. -/
def Broker.ensureOperatorSession (b : Broker) (env : Env) : Broker :=
  match b.session? operatorSessionId with
  | none => b.provisionOperator env
  | some _ =>
    { b.updateSession operatorSessionId fun s =>
        { s with expiresAt := none, expiredAt := none } with
      recipientSequences := insertOrIgnore (·.recipientSessionId)
        { recipientSessionId := operatorSessionId, nextSequence := 1 } b.recipientSequences }

/-- The writes of `onConnClose` for a connection that had registered: the session loses its
    binding if it is bound to this very connection, and the connection's components close. -/
def Broker.connClosed (b : Broker) (auth : SessionAuthority) (conn : ConnId) : Broker :=
  { b with
    sessions := updateWhere (fun s => s.sessionId = auth.sessionId ∧
        s.boundConnectionId = some conn)
      (fun s => { s with state := .disconnected, boundConnectionId := none }) b.sessions
    components := updateWhere (fun c => c.connectionId = conn ∧ c.state = .live)
      (fun c => { c with state := .closed }) b.components }

end XBus
