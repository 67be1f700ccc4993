import XBus.Identity
import XBus.Payload
import XBus.Lib.Call
import XBus.Lib.Rows

/-!
# The broker's database

One record per table of `database/migrations.ts` that the modelled operations read, with
the columns they read, and `Broker`, the database as a whole. Tables are lists in rowid
order. Columns that are written and never read by the modelled code (activity stamps,
working directories, versions, hashes of bodies) are left out.

`Env` holds what a broker is constructed with, `Moment` what the outside answers during one
call: the clock, fresh entropy, the process prober and the jitter of a backoff. The clock
stands still within a call and is otherwise unconstrained.
-/

set_option autoImplicit false

namespace XBus

open Lib

/-- A whole number that an `INTEGER` column keeps as one and the driver does not read: it has more
    than 53 bits. From 64 bits on it is kept as a double, and read. -/
def TooWide (n : Int) : Prop := 2 ^ 53 ≤ n.natAbs ∧ n.natAbs < 2 ^ 63

instance decidableTooWide {n : Int} : Decidable (TooWide n) := inferInstanceAs (Decidable (_ ∧ _))

/-- `BackoffConfig`. -/
structure BackoffConfig where
  initialDelayMs : Nat := 1000
  maxDelayMs : Nat := 60000
  maxAttempts : Nat := 6
  factor : Nat := 2
deriving DecidableEq, Repr

/-- What the stores of one broker are constructed with. -/
structure Env where
  text : Text
  /-- `sha256('owner:' + secret)`. -/
  hashSecret : String → String
  /-- Whether ack and reply need a recorded injection (`true` in the daemon). -/
  requireReceipt : Bool := true
  ackDeadlineMs : Nat := 5 * 60000
  injectionTtlMs : Nat := 30 * 60000
  backoff : BackoffConfig := {}
  perSessionCap : Nat := 256
  /-- A number as a template writes it. -/
  numberText : Rat → String := toString

/-- What the outside answers during one call. -/
structure Moment where
  nowMs : Nat
  /-- `randomFn()`: the next owner secret. -/
  secret : String := "secret"
  /-- `classifyLivenessFn` for a process id. -/
  liveness : Int → LivenessVerdict := fun _ => .inconclusive
  /-- `Math.floor(rng() * ceil)` for a backoff ceiling. -/
  jitter : Nat → Nat := id

/-- `clock.nowIso()`. -/
def Moment.now (m : Moment) : Iso := ⟨m.nowMs⟩

/-! ## Tables -/

/-- `sessions`. -/
structure Session where
  sessionId : SessionId
  logicalIdentityId : Option SessionId
  activeEpoch : Nat
  boundConnectionId : Option ConnId
  automaticAlias : String
  projectAlias : Option String := none
  receiveMode : String
  capabilities : List String
  state : LinkState
  readiness : Readiness := .initializing
  expiresAt : Option Iso := none
  expiredAt : Option Iso := none
  sessionName : Option String := none
  normalizedSessionName : Option String := none
  sessionNameState : NameState := .unnamed
  pendingNameExpiresAt : Option Iso := none
deriving DecidableEq, Repr

/-- `component_instances`. -/
structure Component where
  componentInstanceId : Id
  sessionId : SessionId
  epoch : Nat
  role : ComponentRole
  processId : Int
  connectionId : ConnId
  connectedAt : Iso
  state : ComponentState
deriving DecidableEq, Repr

/-- `aliases`. Only the global scope is ever written. -/
structure AliasRow where
  display : String
  ci : String
  sessionId : SessionId
  active : Bool
deriving DecidableEq, Repr

/-- `name_ownership`. -/
structure NameOwnership where
  logicalIdentityId : SessionId
  normalizedName : Option String
  displayName : Option String
  ownerSecretHash : Option String
  nameState : OwnershipState
  currentSessionId : Option SessionId
deriving DecidableEq, Repr

/-- `physical_session_map`. -/
structure PhysicalMap where
  physicalSessionId : SessionId
  canonicalSessionId : SessionId
  logicalIdentityId : SessionId
deriving DecidableEq, Repr

/-- `recipient_sequences`. -/
structure RecipientSequence where
  recipientSessionId : SessionId
  nextSequence : Nat
deriving DecidableEq, Repr

/-- Metadata of a message. What a send stores is an object of strings; what a reply stores
    is what its frame held. -/
abbrev Metadata := JsonValue

/-- `messages`. -/
structure Message where
  messageId : Id
  senderSessionId : SessionId
  senderAlias : String
  recipientSessionId : SessionId
  recipientAlias : String
  kind : MessageKind
  correlationId : Id
  causationId : Option Id
  parentMessageId : Option Id
  recipientSequence : Nat
  idempotencyKey : Option String
  text : String
  metadata : Option Metadata
  requiresAck : Bool
  requiresReply : Bool
  expiresAt : Option Iso
  createdAt : Iso
  traceId : Id
  threadId : Option Id
  threadSequence : Nat
  authorType : AuthorType
deriving DecidableEq, Repr

/-- `deliveries`. -/
structure Delivery where
  deliveryId : Id
  messageId : Id
  recipientSessionId : SessionId
  state : DeliveryState
  targetGeneration : Option Nat := none
  leaseExpiresAt : Option Iso := none
  nextAttemptAt : Option Iso := none
  failureCategory : Option FailureCategory := none
  attemptAckTimeout : Nat := 0
  updatedAt : Iso
deriving DecidableEq, Repr

/-- `receipts`. -/
structure Receipt where
  messageId : Id
  receiverSessionId : SessionId
  receiptType : ReceiptOp
  status : ReceiptStatus
deriving DecidableEq, Repr

/-- `context_injections.checkpoint_id`: supplied by the caller, or minted by the broker
    under one of its own prefixes and never shown to anyone. -/
inductive CheckpointId
  | given (text : String)
  | minted (prefixText : String) (id : Id)
deriving DecidableEq, Repr

/-- `context_injections`. -/
structure Injection where
  injectionId : Id
  messageId : Id
  recipientSessionId : SessionId
  recipientEpoch : Nat
  checkpointId : CheckpointId
  logicalInjectionNumber : Nat
  injectedAt : Iso
  expiresAt : Iso
  consumedOp : Option ReceiptOp := none
deriving DecidableEq, Repr

/-- `session_controls`. -/
structure SessionControl where
  sessionId : SessionId
  receiving : ReceiveControl
deriving DecidableEq, Repr

/-- `blocked_peers`. -/
structure BlockedPeer where
  ownerSessionId : SessionId
  blockedAliasCi : String
deriving DecidableEq, Repr

/-- `threads`. -/
structure Thread where
  threadId : Id
  rootMessageId : Id
  subject : Option String
  isOpen : Bool
  lastThreadSequence : Nat
deriving DecidableEq, Repr

/-- `thread_sequences`. -/
structure ThreadSequence where
  threadId : Id
  nextSequence : Nat
deriving DecidableEq, Repr

/-- `thread_participants`. -/
structure ThreadParticipant where
  threadId : Id
  sessionId : SessionId
  actorKind : AuthorType
  joinedAt : Iso
  lastReadThreadSeq : Nat
deriving DecidableEq, Repr

/-- `audit_events.event_type`. -/
inductive AuditType
  | epochMismatchRejected | replyAuthorityRehomed | sessionAlreadyActive
  | componentRegistered | automaticAliasCollision | aliasRegistered | readinessSignaled
  | sendRejectedRecipientExpired | blockedSendRejected | messageSent | operatorMessageSent
  | operatorAcceptedReplayRefusedUnconfirmed | operatorAcceptedReplay | operatorRedelivery
  | injectionDeferredNotReady | transportWritten | reinjectionBodySuppressed
  | deliveryCompletedNoResponseRequired | redeliveryRefusedNotInjected
  | explicitRedelivery | conflictingAckRejected | casConflict | ack | reply
  | replyRejectedRecipientExpired | pendingNameReservationLapsed | sessionExpired
  | ackTimeoutDeadLetter | ackTimeoutRequeue | expiredBeforeInjection
  | deadLetterRedrive | deadLetterDiscard | controlSet | injectionIdMissingBodySuppressed
  | reservedSessionRegisterRejected | versionIncompatible
  | scheduleTickError | scheduleSkippedQuietHours | scheduleSkippedWakeLimit
  | scheduleSkippedSessionCap | scheduleSkippedConcurrency | scheduleFireFailed
  | scheduleFired | scheduleRunsPruned
  | wakeAttempt | cancelledBeforeDelivery | cancellationRequestedAfterInjection
deriving DecidableEq, Repr

/-- `audit_events`. -/
structure AuditEvent where
  eventType : AuditType
  sessionId : Option SessionId
  messageId : Option Id
deriving DecidableEq, Repr

/-- The database of one broker. `nextId` is the next id the generator hands out. -/
structure Broker where
  sessions : List Session := []
  components : List Component := []
  aliases : List AliasRow := []
  nameOwnership : List NameOwnership := []
  physicalMap : List PhysicalMap := []
  recipientSequences : List RecipientSequence := []
  messages : List Message := []
  deliveries : List Delivery := []
  receipts : List Receipt := []
  injections : List Injection := []
  controls : List SessionControl := []
  blockedPeers : List BlockedPeer := []
  threads : List Thread := []
  threadSequences : List ThreadSequence := []
  threadParticipants : List ThreadParticipant := []
  auditEvents : List AuditEvent := []
  nextId : Id := 1
deriving DecidableEq, Repr

/-- A call into one of the broker's stores. -/
abbrev BrokerCall (α : Type) := Call Broker Failure α

/-! ## Lookups and common writes -/

namespace Broker

def session? (b : Broker) (sid : SessionId) : Option Session :=
  b.sessions.find? fun s => s.sessionId = sid

def message? (b : Broker) (mid : Id) : Option Message :=
  b.messages.find? fun m => m.messageId = mid

def delivery? (b : Broker) (mid : Id) : Option Delivery :=
  b.deliveries.find? fun d => d.messageId = mid

/-- `SELECT active_epoch FROM sessions WHERE session_id=?`. -/
def epochOf (b : Broker) (sid : SessionId) : Option Nat := (b.session? sid).map (·.activeEpoch)

/-- `logicalIdOf`. -/
def logicalIdOf (b : Broker) (sid : SessionId) : SessionId :=
  ((b.session? sid).bind (·.logicalIdentityId)).getD sid

/-- `expired_at` of a session that exists and is expired. -/
def isExpired (b : Broker) (sid : SessionId) : Bool :=
  ((b.session? sid).bind (·.expiredAt)).isSome

/-- Does the message require an acknowledgement? `false` for an unknown message. -/
def requiresAck (b : Broker) (mid : Id) : Bool := (b.message? mid).any (·.requiresAck)

/-- Does the message require a reply? `false` for an unknown message. -/
def requiresReply (b : Broker) (mid : Id) : Bool := (b.message? mid).any (·.requiresReply)

/-- `ids.next()`: the id is `b.nextId`, the state afterwards this one. -/
def mint (b : Broker) : Broker := { b with nextId := b.nextId + 1 }

/-- `audit`. -/
def audit (b : Broker) (eventType : AuditType) (sessionId : Option SessionId := none)
    (messageId : Option Id := none) : Broker :=
  { b with
    auditEvents := b.auditEvents ++ [{ eventType, sessionId, messageId }]
    nextId := b.nextId + 1 }

/-- `UPDATE deliveries SET f WHERE p`. -/
def updateDeliveries (b : Broker) (p : Delivery → Bool) (f : Delivery → Delivery) : Broker :=
  { b with deliveries := updateWhere p f b.deliveries }

/-- `UPDATE sessions SET f WHERE session_id=?`. -/
def updateSession (b : Broker) (sid : SessionId) (f : Session → Session) : Broker :=
  { b with sessions := updateWhere (fun s => s.sessionId = sid) f b.sessions }

/-- `refreshMeaningfulActivity`: extends the retention of a session that has not expired,
    and never revives one that has. -/
def refreshMeaningfulActivity (b : Broker) (sid : SessionId) (now : Iso) : Broker :=
  { b with
    sessions := updateWhere (fun s => s.sessionId = sid ∧ s.expiredAt = none)
      (fun s => { s with expiresAt := some (now.plus retentionMs) }) b.sessions }

end Broker

/-! ## Authorities -/

/-- `ReclaimReason` and `'reclaim-succeeded'`. -/
inductive ReclaimOutcomeCode
  | reclaimSucceeded | notAttempted | credentialMissing | credentialInvalid
  | anchorMismatch | predecessorLive | unrelatedOwns
deriving DecidableEq, Repr

def ReclaimOutcomeCode.text : ReclaimOutcomeCode → String
  | reclaimSucceeded => "reclaim-succeeded"
  | notAttempted => "not-attempted"
  | credentialMissing => "credential-missing"
  | credentialInvalid => "credential-invalid"
  | anchorMismatch => "anchor-mismatch"
  | predecessorLive => "predecessor-live"
  | unrelatedOwns => "unrelated-owns"

/-- `SessionAuthority`, the handle a connection holds after registering. `instanceId` and
    `generation` of the source are aliases of `componentInstanceId` and `epoch`. -/
structure SessionAuthority where
  sessionId : SessionId
  componentInstanceId : Id
  role : ComponentRole
  epoch : Nat
  connectionId : ConnId
  sessionNameState : NameState := .unnamed
  awardedSessionName : Option String := none
  logicalIdentityId : SessionId := sessionId
  ownerSecret : Option String := none
  nameReclaimFailed : Bool := false
  reclaimOutcome : Option ReclaimOutcomeCode := none
deriving DecidableEq, Repr

/-- `assertAllowed`. -/
def assertAllowed (role : ComponentRole) (op : Operation) : BrokerCall Unit :=
  .require (isAllowed role op) (xbusError .forbiddenRole
    ("role '" ++ role.text ++ "' may not perform '" ++ op.text ++ "'")
    [("role", role.text), ("op", op.text)])

/-- `assertCurrentEpoch`: the caller's epoch must be the session's current one. The audit
    row of a refusal survives only where no transaction is open. -/
def assertCurrentEpoch (auth : SessionAuthority) : BrokerCall Unit := do
  let b ← Call.get
  let s ← Call.orThrow (b.session? auth.sessionId)
    (xbusError .sessionNotRegistered "session not registered")
  Call.requireElse (s.activeEpoch = auth.epoch)
    (fun b => b.audit .epochMismatchRejected (some auth.sessionId))
    (xbusError .epochMismatch "stale epoch; re-register")

end XBus
