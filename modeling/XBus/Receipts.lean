import XBus.Database
import Mathlib.Data.List.Sort

/-!
# Receipts, controls and sequences

`broker/receipts.ts`, `broker/controls.ts`, and the helpers that both ends of the mail path
share: allocating a recipient's next sequence number, inserting a message row under its
unique indexes, and the per-thread bookkeeping.

A context injection is the record that a body was put in front of a session at one epoch.
`issue` makes one, at most once for each (message, epoch, logical number) and at most once
for each (message, checkpoint); `authorize` asks for one before an ack or a reply; `consume`
marks it used.
-/

set_option autoImplicit false

namespace XBus

open Lib

/-! ## Context injections -/

/-- `ReceiptStore.issue`. The first check is the broker's own; the second is the unique
    index `ux_injection_checkpoint`, whose violation the code catches and reports the same
    way, as `null`. -/
def issue (env : Env) (now : Iso) (mid : Id) (sid : SessionId) (epoch : Nat)
    (checkpointId : CheckpointId) (logical : Nat) (b : Broker) : Option Id × Broker :=
  if b.injections.any fun i => i.messageId = mid ∧ i.recipientEpoch = epoch ∧
      i.logicalInjectionNumber = logical then (none, b)
  else if b.injections.any fun i => i.messageId = mid ∧ i.checkpointId = checkpointId then
    (none, b.mint)
  else
    (some b.nextId, { b.mint with
      injections := b.injections ++ [{
        injectionId := b.nextId, messageId := mid, recipientSessionId := sid
        recipientEpoch := epoch, checkpointId, logicalInjectionNumber := logical
        injectedAt := now, expiresAt := now.plus env.injectionTtlMs }] })

/-- The injection `authorize` looks at: the one named, or the newest of the caller's own
    (session, epoch) for the message. -/
def Broker.authorizingInjection (b : Broker) (mid : Id) (sid : SessionId) (epoch : Nat)
    (injectionId : Option Id) : Option Injection :=
  match injectionId with
  | some i => b.injections.find? fun x => x.injectionId = i
  | none =>
    ((b.injections.filter fun x => x.messageId = mid ∧ x.recipientSessionId = sid ∧
        x.recipientEpoch = epoch).insertionSort
      fun x y => y.injectedAt.le x.injectedAt).head?

/-- `ReceiptStore.authorize`. -/
def authorize (now : Iso) (op : ReceiptOp) (mid : Id) (sid : SessionId) (epoch : Nat)
    (injectionId : Option Id) (b : Broker) : Except Failure Injection :=
  match b.authorizingInjection mid sid epoch injectionId with
  | none => .error (xbusError .injectionNotFound
      "no context injection for this message (it must be delivered at a checkpoint first)")
  | some row =>
    if row.messageId ≠ mid then
      .error (xbusError .injectionNotFound "injection does not match message")
    else if row.recipientSessionId ≠ sid then
      .error (xbusError .notRecipient "injection belongs to a different session")
    else if row.recipientEpoch ≠ epoch then
      .error (xbusError .epochMismatch "injection is for a superseded epoch")
    else if row.expiresAt.le now then .error (xbusError .receiptExpired "injection expired")
    else if row.consumedOp = some op then
      .error (xbusError .receiptReplayed ("injection already used for " ++
        match op with | .ack => "ack" | .reply => "reply"))
    else .ok row

/-- `ReceiptStore.consume`. -/
def Broker.consume (b : Broker) (injectionId : Id) (op : ReceiptOp) : Broker :=
  { b with
    injections := updateWhere (fun i => i.injectionId = injectionId)
      (fun i => { i with consumedOp := some op }) b.injections }

/-- `injectionIdFor`: the injection of the highest logical number for an epoch. -/
def Broker.injectionIdFor (b : Broker) (mid : Id) (epoch : Nat) : Option Id :=
  (((b.injections.filter fun i => i.messageId = mid ∧ i.recipientEpoch = epoch).insertionSort
    fun i j => j.logicalInjectionNumber ≤ i.logicalInjectionNumber).head?).map (·.injectionId)

/-! ## Controls -/

/-- `getControl`. -/
def Broker.getControl (b : Broker) (sid : SessionId) : ReceiveControl :=
  ((b.controls.find? fun c => c.sessionId = sid).map (·.receiving)).getD .active

/-- `setControl`. -/
def Broker.setControl (b : Broker) (sid : SessionId) (mode : ReceiveControl) : Broker :=
  { b with
    controls := upsert (·.sessionId) { sessionId := sid, receiving := mode }
      (fun c => { c with receiving := mode }) b.controls }

/-- `autoDeliveryEnabled`. -/
def Broker.autoDeliveryEnabled (b : Broker) (sid : SessionId) : Bool :=
  b.getControl sid = .active

/-- `blockPeer`. -/
def Broker.blockPeer (b : Broker) (env : Env) (owner : SessionId) (handle : String) : Broker :=
  { b.mint with
    blockedPeers := insertOrIgnore (fun p => (p.ownerSessionId, p.blockedAliasCi))
      { ownerSessionId := owner, blockedAliasCi := env.text.toLowerCase handle }
      b.blockedPeers }

/-- `unblockPeer`. -/
def Broker.unblockPeer (b : Broker) (env : Env) (owner : SessionId) (handle : String) :
    Broker :=
  { b with
    blockedPeers := b.blockedPeers.filter fun p =>
      ¬ (p.ownerSessionId = owner ∧ p.blockedAliasCi = env.text.toLowerCase handle) }

/-- `isBlocked`. -/
def Broker.isBlocked (b : Broker) (env : Env) (owner : SessionId) (senderAliasCi : String) :
    Bool :=
  b.blockedPeers.any fun p =>
    p.ownerSessionId = owner ∧ p.blockedAliasCi = env.text.toLowerCase senderAliasCi

/-- `readinessOf`. -/
def Broker.readinessOf (b : Broker) (sid : SessionId) : Readiness :=
  ((b.session? sid).map (·.readiness)).getD .disconnected

/-! ## Sequences and rows -/

/-- The sequence number the next message to `sid` would get. -/
def Broker.nextSequence (b : Broker) (sid : SessionId) : Nat :=
  ((b.recipientSequences.find? fun r => r.recipientSessionId = sid).map (·.nextSequence)).getD 1

/-- `allocSequence`. The write runs into the foreign key when the session does not exist. -/
def allocSequence (sid : SessionId) : BrokerCall Nat := do
  let b ← Call.get
  Call.require (b.session? sid).isSome (.sqlite .sequenceOwner)
  Call.modify fun b => { b with
    recipientSequences := insertOrReplace (·.recipientSessionId)
      { recipientSessionId := sid, nextSequence := b.nextSequence sid + 1 }
      b.recipientSequences }
  pure (b.nextSequence sid)

/-- `INSERT INTO messages`, under `ux_recipseq` and `ux_idem`. -/
def insertMessage (m : Message) : BrokerCall Unit := do
  let b ← Call.get
  Call.require (¬ b.messages.any fun x => x.recipientSessionId = m.recipientSessionId ∧
    x.recipientSequence = m.recipientSequence) (.sqlite .recipientSequence)
  Call.require (m.idempotencyKey = none ∨ ¬ b.messages.any fun x =>
    x.senderSessionId = m.senderSessionId ∧ x.idempotencyKey = m.idempotencyKey)
    (.sqlite .idempotencyKey)
  Call.modify fun b => { b with messages := b.messages ++ [m] }

/-- `INSERT INTO deliveries (…, state='queued')`. -/
def Broker.enqueue (b : Broker) (mid : Id) (sid : SessionId) (now : Iso) : Broker :=
  { b.mint with
    deliveries := b.deliveries ++ [{
      deliveryId := b.nextId, messageId := mid, recipientSessionId := sid
      state := .queued, updatedAt := now }] }

/-- The row a non-empty idempotency key of a sender already stands for. -/
def Broker.duplicateOf (b : Broker) (sender : SessionId) (key : Option String) :
    Option Message :=
  match key with
  | none => none
  | some k =>
    if k.isEmpty then none
    else b.messages.find? fun m => m.senderSessionId = sender ∧ m.idempotencyKey = some k

/-! ## Threads -/

/-- `ensureThread`. -/
def Broker.ensureThread (b : Broker) (threadId rootMessageId : Id) : Broker :=
  { b with
    threads := insertOrIgnore (·.threadId)
      { threadId, rootMessageId, subject := none, isOpen := true, lastThreadSequence := 0 }
      b.threads
    threadSequences := insertOrIgnore (·.threadId) { threadId, nextSequence := 1 }
      b.threadSequences }

/-- The sequence number the next turn of a thread would get. -/
def Broker.nextThreadSequence (b : Broker) (threadId : Id) : Nat :=
  ((b.threadSequences.find? fun r => r.threadId = threadId).map (·.nextSequence)).getD 1

/-- The write of `allocThreadSequence`; the number allocated is `nextThreadSequence`. -/
def Broker.allocThreadSequence (b : Broker) (threadId : Id) : Broker :=
  { b with
    threadSequences := insertOrReplace (·.threadId)
      { threadId, nextSequence := b.nextThreadSequence threadId + 1 } b.threadSequences }

/-- `ensureParticipant`. -/
def Broker.ensureParticipant (b : Broker) (threadId : Id) (sid : SessionId)
    (actorKind : AuthorType) (now : Iso) : Broker :=
  { b.mint with
    threadParticipants := insertOrIgnore (fun p => (p.threadId, p.sessionId))
      { threadId, sessionId := sid, actorKind, joinedAt := now, lastReadThreadSeq := 0 }
      b.threadParticipants }

/-- `touchThread`. -/
def Broker.touchThread (b : Broker) (threadId : Id) (threadSequence : Nat) : Broker :=
  { b with
    threads := updateWhere (fun t => t.threadId = threadId)
      (fun t => { t with lastThreadSequence := max t.lastThreadSequence threadSequence })
      b.threads }

end XBus
