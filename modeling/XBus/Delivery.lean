import XBus.Receipts

/-!
# Delivery operations

`broker/delivery.ts`: the pulls that present bodies (`checkpointPull`, `processNext`,
`inboxView`, and the `pendingForSession` / `markInjected` pair behind the daemon's
`checkpoint_pull`), explicit redelivery, ack and reply.

The three pulls share one loop, `injectAll`: each selected message is marked
`transport_written` by a compare-and-set, an injection is recorded, and the body goes into
the answer only if the injection is a new one. The write into `transport_write_log` is kept
as the id it consumes.
-/

set_option autoImplicit false

namespace XBus

open Lib

/-! ## Selecting -/

/-- `PendingMessage`. The broker writes the injection id under a key of its own into the
    metadata it returns; here that entry is the field `injectionId`. -/
structure PendingMessage where
  messageId : Id
  senderAlias : String
  recipientAlias : String
  kind : MessageKind
  correlationId : Id
  causationId : Option Id
  sequence : Nat
  requiresAck : Bool
  requiresReply : Bool
  text : String
  metadata : Option Metadata
  injectionId : Option Id := none
  createdAt : Iso
  expiresAt : Option Iso
deriving DecidableEq, Repr

/-- `rowToPending`. -/
def rowToPending (m : Message) : PendingMessage :=
  { messageId := m.messageId, senderAlias := m.senderAlias, recipientAlias := m.recipientAlias
    kind := m.kind, correlationId := m.correlationId, causationId := m.causationId
    sequence := m.recipientSequence, requiresAck := m.requiresAck
    requiresReply := m.requiresReply, text := m.text, metadata := m.metadata
    createdAt := m.createdAt, expiresAt := m.expiresAt }

/-- `INJECTION_METADATA_KEY`. -/
def injectionMetadataKey : String := "xbus_injection_id"

/-- `{ ...m, metadata: { ...(m.metadata ?? {}), [INJECTION_METADATA_KEY]: id } }`. -/
def PendingMessage.withInjection (m : PendingMessage) (id : Id) : PendingMessage :=
  { m with
    metadata := some (.obj ((m.metadata.getD (.obj [])).spread.filter fun e =>
      e.1 ≠ injectionMetadataKey))
    injectionId := some id }

/-- `expires_at IS NULL OR expires_at > now`. -/
def Message.unexpired (m : Message) (now : Iso) : Bool := m.expiresAt.all fun e => e.gt now

/-- `next_attempt_at IS NULL OR next_attempt_at <= now`. -/
def Delivery.due (d : Delivery) (now : Iso) : Bool := d.nextAttemptAt.all fun t => t.le now

/-- The messages of `pendingForSessionId` before `LIMIT`: waiting deliveries to the session
    that are due, joined with their unexpired messages, by recipient sequence. -/
def Broker.eligible (b : Broker) (sid : SessionId) (now : Iso) : List Message :=
  (((b.deliveries.filter fun d =>
      d.recipientSessionId = sid ∧ d.state.waiting ∧ d.due now).filterMap fun d =>
      b.message? d.messageId).filter fun m => m.unexpired now).insertionSort
    fun m m' => m.recipientSequence ≤ m'.recipientSequence

/-- `pendingForSessionId`. -/
def Broker.pendingForSessionId (b : Broker) (sid : SessionId) (limit : Nat) (now : Iso) :
    List Message :=
  (b.eligible sid now).take limit

/-! ## Injecting one message -/

/-- `ackDeadlineFor`. -/
def ackDeadlineFor (env : Env) (now : Iso) (requiresAck : Bool) : Option Iso :=
  if requiresAck then some (now.plus env.ackDeadlineMs) else none

/-- The compare-and-set to `transport_written`, `WHERE message_id=? AND state IN
    ('queued','retry_wait')`. -/
def Broker.markTransportWritten (b : Broker) (mid : Id) (deadline : Option Iso) (epoch : Nat)
    (now : Iso) : Broker :=
  b.updateDeliveries (fun d => d.messageId = mid ∧ d.state.waiting) fun d =>
    { d with state := .transportWritten, leaseExpiresAt := deadline
             targetGeneration := some epoch, updatedAt := now }

/-- `completeIfNoResponseRequired`. -/
def Broker.completeIfNoResponseRequired (b : Broker) (mid : Id)
    (requiresAck requiresReply : Bool) (now : Iso) : Broker :=
  if requiresAck ∨ requiresReply then b
  else if b.deliveries.any fun d =>
      d.messageId = mid ∧ d.state = .transportWritten ∧ b.requiresAck mid = false then
    (b.updateDeliveries (fun d => d.messageId = mid ∧ d.state = .transportWritten ∧
        b.requiresAck mid = false) fun d =>
      { d with state := .completed, leaseExpiresAt := none, nextAttemptAt := none
               failureCategory := none, updatedAt := now }).audit
      .deliveryCompletedNoResponseRequired none (some mid)
  else b

/-- One round of a pull's loop: mark, record the injection, and answer with its id if it is
    a new one. A message that is no longer waiting is skipped. `audited` says whether the
    path writes a `TRANSPORT_WRITTEN` audit row. -/
def injectOne (env : Env) (now : Iso) (auth : SessionAuthority) (checkpointId : CheckpointId)
    (audited : Bool) (m : Message) (b : Broker) : Option Id × Broker :=
  if b.deliveries.any fun d => d.messageId = m.messageId ∧ d.state.waiting then
    let b := (b.markTransportWritten m.messageId (ackDeadlineFor env now m.requiresAck)
      auth.epoch now).mint
    let issued := issue env now m.messageId auth.sessionId auth.epoch checkpointId 1 b
    let b := if audited then
      issued.2.audit .transportWritten (some auth.sessionId) (some m.messageId) else issued.2
    match issued.1 with
    | none =>
      (none, b.audit .reinjectionBodySuppressed (some auth.sessionId) (some m.messageId))
    | some id =>
      (some id, b.completeIfNoResponseRequired m.messageId m.requiresAck m.requiresReply now)
  else (none, b)

/-- The loop of `checkpointPull` and `checkpointPullForced`. -/
def injectAll (env : Env) (now : Iso) (auth : SessionAuthority) (checkpointId : CheckpointId)
    (audited : Bool) : List Message → Broker → List PendingMessage × Broker
  | [], b => ([], b)
  | m :: ms, b =>
    let one := injectOne env now auth checkpointId audited m b
    let rest := injectAll env now auth checkpointId audited ms one.2
    match one.1 with
    | none => rest
    | some id => ((rowToPending m).withInjection id :: rest.1, rest.2)

/-! ## Pulls -/

/-- The transaction both hook pulls run once their gates are passed. -/
def pullForced (env : Env) (now : Iso) (auth : SessionAuthority) (checkpointId : CheckpointId)
    (limit : Nat) (audited : Bool) : BrokerCall (List PendingMessage) :=
  .transaction (.act fun b =>
    let pulled := injectAll env now auth checkpointId audited
      (b.pendingForSessionId auth.sessionId (min (max 1 limit) 50) now) b
    (pulled.1, if pulled.1.isEmpty then pulled.2
      else pulled.2.refreshMeaningfulActivity auth.sessionId now))

/-- `checkpointPull`: the readiness gate, then the scheduling gate, then the pull. -/
def checkpointPull (env : Env) (now : Iso) (auth : SessionAuthority)
    (checkpointId : CheckpointId) (limit : Nat) : BrokerCall (List PendingMessage) := do
  assertAllowed auth.role .pullHookCheckpoint
  assertCurrentEpoch auth
  let b ← Call.get
  if acceptsInjection (b.readinessOf auth.sessionId) then
    if b.autoDeliveryEnabled auth.sessionId then
      pullForced env now auth checkpointId limit true
    else pure []
  else do
    Call.modify fun b => b.audit .injectionDeferredNotReady (some auth.sessionId)
    pure []

/-- `processNext`: the manual single step, past the scheduling gate only. -/
def processNext (env : Env) (now : Iso) (auth : SessionAuthority)
    (checkpointId : CheckpointId) : BrokerCall (List PendingMessage) := do
  assertAllowed auth.role .pullHookCheckpoint
  assertCurrentEpoch auth
  let b ← Call.get
  if acceptsInjection (b.readinessOf auth.sessionId) then
    pullForced env now auth checkpointId 1 false
  else do
    Call.modify fun b => b.audit .injectionDeferredNotReady (some auth.sessionId)
    pure []

/-- `InboxEntryState`. -/
inductive InboxEntryState
  | queuedNotInjected | contextInjectedUnacknowledged | applicationAccepted
deriving DecidableEq, Repr

/-- What the receiver may do with an inbox entry. -/
inductive InboxAction
  | ack | reject | reply | requestExplicitRedelivery
deriving DecidableEq, Repr

/-- `InboxEntry`. `text` is present exactly when the body is included. -/
structure InboxEntry where
  messageId : Id
  injectionId : Option Id
  senderAlias : String
  recipientAlias : String
  kind : MessageKind
  correlationId : Id
  causationId : Option Id
  sequence : Nat
  requiresAck : Bool
  requiresReply : Bool
  state : InboxEntryState
  bodyAlreadyPresented : Bool
  text : Option String
  metadata : Option Metadata
  createdAt : Iso
  expiresAt : Option Iso
  allowedActions : List InboxAction
deriving DecidableEq, Repr

/-- `bodyIncluded`. -/
def InboxEntry.bodyIncluded (e : InboxEntry) : Bool := e.text.isSome

/-- The inbox entry of a body presented now for the first time. -/
def PendingMessage.freshEntry (m : PendingMessage) : InboxEntry :=
  { messageId := m.messageId, injectionId := m.injectionId, senderAlias := m.senderAlias
    recipientAlias := m.recipientAlias, kind := m.kind, correlationId := m.correlationId
    causationId := m.causationId, sequence := m.sequence, requiresAck := m.requiresAck
    requiresReply := m.requiresReply, state := .queuedNotInjected
    bodyAlreadyPresented := false, text := some m.text, metadata := m.metadata
    createdAt := m.createdAt, expiresAt := m.expiresAt
    allowedActions := if m.requiresAck then [.ack, .reject, .reply] else [.reply] }

/-- The inbox entry of work already presented: metadata only, never the body. -/
def Broker.recoveredEntry (b : Broker) (epoch : Nat) (d : Delivery) (m : Message) :
    InboxEntry :=
  let isAccepted : Bool := d.state = .accepted
  { messageId := m.messageId, injectionId := b.injectionIdFor m.messageId epoch
    senderAlias := m.senderAlias, recipientAlias := m.recipientAlias, kind := m.kind
    correlationId := m.correlationId, causationId := m.causationId
    sequence := m.recipientSequence, requiresAck := m.requiresAck
    requiresReply := m.requiresReply
    state := if isAccepted then .applicationAccepted
      else if m.requiresAck then .contextInjectedUnacknowledged else .applicationAccepted
    bodyAlreadyPresented := true, text := none, metadata := none
    createdAt := m.createdAt, expiresAt := m.expiresAt
    allowedActions :=
      if isAccepted then [.reply, .requestExplicitRedelivery]
      else if m.requiresAck then [.ack, .reject, .reply, .requestExplicitRedelivery]
      else (if m.requiresReply then [.reply] else []) ++ [.requestExplicitRedelivery] }

/-- The second section of `inboxView`: what is transport_written, and what was accepted in
    an earlier epoch and still owes a reply. -/
def Broker.recoveredEntries (b : Broker) (auth : SessionAuthority) (limit : Nat) (now : Iso) :
    List InboxEntry :=
  ((((b.deliveries.filter fun d => d.recipientSessionId = auth.sessionId).filterMap fun d =>
      (b.message? d.messageId).map fun m => (d, m)).filter fun dm =>
      (dm.1.state = .transportWritten ∨ (dm.1.state = .accepted ∧ dm.2.requiresReply ∧
        dm.1.targetGeneration.any fun g => g < auth.epoch)) ∧ dm.2.unexpired now).insertionSort
    fun x y => x.2.recipientSequence ≤ y.2.recipientSequence).take limit
  |>.map fun dm => b.recoveredEntry auth.epoch dm.1 dm.2

/-- `inboxView`: new bodies through a checkpoint pull in the hook role, then what was already
    presented, without its body. -/
def inboxView (env : Env) (now : Iso) (auth : SessionAuthority) (checkpointId : CheckpointId)
    (limit : Nat) : BrokerCall (List InboxEntry) := do
  assertAllowed auth.role .listInbox
  assertCurrentEpoch auth
  let fresh ← checkpointPull env now { auth with role := .hook } checkpointId limit
  let b ← Call.get
  pure (fresh.map (·.freshEntry) ++ (b.recoveredEntries auth limit now).filter fun e =>
    ¬ (fresh.any fun m => m.messageId = e.messageId))

/-- `markInjectedFor` over the messages just selected: each gets a checkpoint id of its own,
    and the answer names the newly injected ones. -/
def markInjectedFor (env : Env) (now : Iso) (auth : SessionAuthority) :
    List Id → Broker → List Id × Broker
  | [], b => ([], b)
  | mid :: mids, b =>
    match b.message? mid with
    | none => markInjectedFor env now auth mids b
    | some m =>
      let one := injectOne env now auth (.minted "mark-" b.nextId) true m b.mint
      let rest := markInjectedFor env now auth mids one.2
      match one.1 with
      | none => rest
      | some _ => (mid :: rest.1, rest.2)

/-- `pendingForSession`, also the `markInjected:false` peek of the inbox frame. -/
def pendingForSession (now : Iso) (auth : SessionAuthority) (limit : Nat) :
    BrokerCall (List Message) := do
  assertCurrentEpoch auth
  let b ← Call.get
  pure (b.pendingForSessionId auth.sessionId limit now)

/-- `markInjected`. -/
def markInjected (env : Env) (now : Iso) (auth : SessionAuthority) (mids : List Id) :
    BrokerCall (List Id) := do
  assertCurrentEpoch auth
  Call.transaction (.act (markInjectedFor env now auth mids))

/-- The bodies `checkpoint_pull` returns: those newly marked, each with its injection id. -/
def Broker.markedBodies (b : Broker) (auth : SessionAuthority) (marked : List Id)
    (pending : List Message) : List PendingMessage :=
  (pending.filter fun m => marked.contains m.messageId).filterMap fun m =>
    (b.injectionIdFor m.messageId auth.epoch).map (rowToPending m).withInjection

/-- `onCheckpointPull` of the daemon: select, mark, and return what was newly marked. -/
def daemonCheckpointPull (env : Env) (now : Iso) (auth : SessionAuthority) (limit : Nat) :
    BrokerCall (List PendingMessage) := do
  let pending ← pendingForSession now auth limit
  let marked ← markInjected env now auth (pending.map (·.messageId))
  Call.modify fun b => if marked.isEmpty then b
    else b.refreshMeaningfulActivity auth.sessionId now
  let b ← Call.get
  pure (b.markedBodies auth marked pending)

/-! ## Redelivery, ack and reply -/

/-- Highest logical injection number of a message at an epoch, 0 if there is none. -/
def Broker.maxLogical (b : Broker) (mid : Id) (epoch : Nat) : Nat :=
  ((b.injections.filter fun i => i.messageId = mid ∧ i.recipientEpoch = epoch).map
    (·.logicalInjectionNumber)).foldl max 0

/-- `redeliver`: re-present a body under a new logical injection number. -/
def redeliver (env : Env) (now : Iso) (auth : SessionAuthority) (mid : Id) :
    BrokerCall (Option InboxEntry) := do
  assertAllowed auth.role .listInbox
  assertCurrentEpoch auth
  Call.transaction do
    let b ← Call.get
    match b.message? mid with
    | none => pure none
    | some m =>
      if m.recipientSessionId ≠ auth.sessionId then pure none
      else if b.maxLogical mid auth.epoch = 0 then do
        Call.modify fun b => b.audit .redeliveryRefusedNotInjected (some auth.sessionId) (some mid)
        pure none
      else do
        let issued ← Call.act fun b => issue env now mid auth.sessionId auth.epoch
          (.minted "redeliver-" b.nextId) (b.maxLogical mid auth.epoch + 1) b.mint
        let id ← Call.orThrow issued (xbusError .invalidReceipt
          "redelivery could not allocate an injection id (concurrent redelivery); retry")
        Call.modify fun b => (b.refreshMeaningfulActivity auth.sessionId now).audit
          .explicitRedelivery (some auth.sessionId) (some mid)
        let pm := rowToPending m
        pure (some { pm.freshEntry with
          injectionId := some id, state := .contextInjectedUnacknowledged
          bodyAlreadyPresented := true })

/-- `AckInput`. -/
structure AckInput where
  messageId : Id
  accept : Bool
  injectionId : Option Id := none
deriving DecidableEq, Repr

def AckInput.status (input : AckInput) : ReceiptStatus :=
  if input.accept then .accepted else .rejected

structure AckResult where
  state : DeliveryState
  duplicate : Bool
deriving DecidableEq, Repr

/-- The injection an ack or reply is authorised by; `none` where receipts are not required. -/
def authorizeIfRequired (env : Env) (now : Iso) (op : ReceiptOp) (mid : Id)
    (auth : SessionAuthority) (injectionId : Option Id) : BrokerCall (Option Id) := do
  let b ← Call.get
  if env.requireReceipt then do
    let row ← Call.lift (authorize now op mid auth.sessionId auth.epoch injectionId b)
    pure (some row.injectionId)
  else pure none

/-- `if (injectionId) this.receipts.consume(injectionId, op)`. -/
def Broker.consumeIfAny (b : Broker) (injectionId : Option Id) (op : ReceiptOp) : Broker :=
  match injectionId with
  | none => b
  | some i => b.consume i op

/-- The transaction of `ack`. -/
def ackTransaction (env : Env) (now : Iso) (auth : SessionAuthority) (input : AckInput) :
    BrokerCall AckResult := do
  let b ← Call.get
  let msg ← Call.orThrow (b.message? input.messageId)
    (xbusError .messageNotFound "no such message")
  Call.require (msg.recipientSessionId = auth.sessionId)
    (xbusError .notRecipient "not the recipient of this message")
  match b.receipts.find? fun r => r.messageId = input.messageId ∧
      r.receiverSessionId = auth.sessionId ∧ r.receiptType = .ack with
  | some existing => do
    Call.requireElse (existing.status = input.status)
      (fun b => b.audit .conflictingAckRejected (some auth.sessionId) (some input.messageId))
      (xbusError .illegalStateTransition "conflicting acknowledgement")
    let cur ← Call.orThrow (b.delivery? input.messageId)
      (xbusError .messageNotFound "no such message")
    pure { state := cur.state, duplicate := true }
  | none => do
    let injectionId ← authorizeIfRequired env now .ack input.messageId auth input.injectionId
    let target : DeliveryState := if input.accept then .accepted else .rejected
    Call.requireElse
      (b.deliveries.any fun d => d.messageId = input.messageId ∧ d.state = .transportWritten)
      (fun b => b.audit .casConflict (some auth.sessionId) (some input.messageId))
      (xbusError .illegalStateTransition ("cannot ack from state " ++
        ((b.delivery? input.messageId).map (·.state.text)).getD "unknown"))
    Call.modify fun b => b.updateDeliveries
      (fun d => d.messageId = input.messageId ∧ d.state = .transportWritten)
      fun d => { d with state := target, updatedAt := now }
    Call.modify fun b => { b.mint with
      receipts := b.receipts ++ [{ messageId := input.messageId
                                   receiverSessionId := auth.sessionId
                                   receiptType := .ack, status := input.status }] }
    Call.modify fun b => ((b.consumeIfAny injectionId .ack).refreshMeaningfulActivity
      auth.sessionId now).audit .ack (some auth.sessionId) (some input.messageId)
    pure { state := target, duplicate := false }

/-- `ack`. -/
def ack (env : Env) (now : Iso) (auth : SessionAuthority) (input : AckInput) :
    BrokerCall AckResult := do
  assertAllowed auth.role .ack
  assertCurrentEpoch auth
  Call.transaction (ackTransaction env now auth input)

/-- `ReplyInput`. -/
structure ReplyInput where
  messageId : Id
  text : String
  outcome : ReceiptStatus
  idempotencyKey : Option String := none
  metadata : Option Metadata := none
  injectionId : Option Id := none
deriving DecidableEq, Repr

/-- `SendResult`, with the reply's own id and the thread fields of the operator's send. -/
structure SendResult where
  messageId : Id
  replyMessageId : Option Id := none
  correlationId : Id
  recipientSessionId : SessionId
  recipientAlias : String
  sequence : Nat
  state : DeliveryState
  deduplicated : Bool
  threadId : Option Id := none
  threadSequence : Option Nat := none
deriving DecidableEq, Repr

/-- The message row `reply` writes. -/
def replyRow (auth : SessionAuthority) (input : ReplyInput) (orig : Message) (now : Iso)
    (replyId : Id) (sequence threadId threadSequence : Nat) : Message :=
  { messageId := replyId, senderSessionId := auth.sessionId, senderAlias := orig.recipientAlias
    recipientSessionId := orig.senderSessionId, recipientAlias := orig.senderAlias
    kind := .reply, correlationId := orig.correlationId, causationId := some input.messageId
    parentMessageId := some input.messageId, recipientSequence := sequence
    idempotencyKey := input.idempotencyKey, text := input.text
    metadata := input.metadata.filter (·.truthy), requiresAck := false
    requiresReply := false, expiresAt := none, createdAt := now
    traceId := orig.traceId, threadId := some threadId, threadSequence := threadSequence
    authorType := .claude }

/-- What `reply` writes for the new message once its row is in: the turn of the thread, and
    its delivery. -/
def Broker.queueReply (b : Broker) (auth : SessionAuthority) (orig : Message) (now : Iso)
    (replyId threadId threadSequence : Nat) : Broker :=
  let b := b.touchThread threadId threadSequence
  let b : Broker := { b with
    threadParticipants := updateWhere
      (fun p => p.threadId = threadId ∧ p.sessionId = auth.sessionId)
      (fun p => { p with lastReadThreadSeq := max p.lastReadThreadSeq threadSequence })
      b.threadParticipants }
  b.enqueue replyId orig.senderSessionId now

/-- What `reply` writes for the message it answers: the completion of its delivery, which
    matches two states and no other, the receipt, and the use of the injection. -/
def Broker.settleReply (b : Broker) (auth : SessionAuthority) (input : ReplyInput) (now : Iso)
    (injectionId : Option Id) : Broker :=
  let b := b.updateDeliveries
    (fun d => d.messageId = input.messageId ∧
      (d.state = .accepted ∨ d.state = .transportWritten))
    fun d => { d with state := .completed, updatedAt := now }
  let b : Broker := { b.mint with
    receipts := insertOrIgnore
      (fun r => (r.messageId, r.receiverSessionId, r.receiptType))
      { messageId := input.messageId, receiverSessionId := auth.sessionId
        receiptType := .reply, status := input.outcome } b.receipts }
  ((b.consumeIfAny injectionId .reply).refreshMeaningfulActivity auth.sessionId now).audit
    .reply (some auth.sessionId) (some input.messageId)

/-- The transaction of `reply`. -/
def replyTransaction (env : Env) (now : Iso) (auth : SessionAuthority) (input : ReplyInput) :
    BrokerCall SendResult := do
  let b ← Call.get
  let orig ← Call.orThrow (b.message? input.messageId)
    (xbusError .messageNotFound "no such message")
  Call.require (orig.recipientSessionId = auth.sessionId)
    (xbusError .notRecipient "not the recipient of this message")
  match b.duplicateOf auth.sessionId input.idempotencyKey with
  | some dup =>
    pure { messageId := dup.messageId, replyMessageId := some dup.messageId
           correlationId := dup.correlationId, recipientSessionId := dup.recipientSessionId
           recipientAlias := dup.recipientAlias, sequence := dup.recipientSequence
           state := .completed, deduplicated := true }
  | none => do
    let injectionId ← authorizeIfRequired env now .reply input.messageId auth input.injectionId
    Call.requireElse (b.isExpired orig.senderSessionId = false)
      (fun b => b.audit .replyRejectedRecipientExpired (some auth.sessionId)
        (some input.messageId))
      (xbusError .recipientSessionExpired
        "the original sender session has expired (no activity for 15 days); cannot deliver the reply")
    let replyId := b.nextId
    Call.modify Broker.mint
    let sequence ← allocSequence orig.senderSessionId
    let threadId := orig.threadId.getD orig.correlationId
    let threadSequence := b.nextThreadSequence threadId
    Call.modify fun b => b.allocThreadSequence threadId
    insertMessage (replyRow auth input orig now replyId sequence threadId threadSequence)
    Call.modify fun b => (b.queueReply auth orig now replyId threadId
      threadSequence).settleReply auth input now injectionId
    pure { messageId := input.messageId, replyMessageId := some replyId
           correlationId := orig.correlationId, recipientSessionId := orig.senderSessionId
           recipientAlias := orig.senderAlias, sequence, state := .queued
           deduplicated := false }

/-- `reply`. -/
def reply (env : Env) (now : Iso) (auth : SessionAuthority) (input : ReplyInput) :
    BrokerCall SendResult := do
  assertAllowed auth.role .reply
  assertCurrentEpoch auth
  Call.transaction (replyTransaction env now auth input)

end XBus
