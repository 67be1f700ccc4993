import Mathlib.Tactic.Common

/-!
# The vocabulary of the broker

Identifiers, instants, error codes, delivery states and the role matrix
(`protocol/errors.ts`, `protocol/states.ts`, `identity/components.ts`, `broker/readiness.ts`).

Session ids, aliases and texts are the strings the clients supply. Ids the broker mints
(`ids.next()`, a UUIDv7) are natural numbers handed out in increasing order: the program
only ever compares them for equality, and a fresh one differs from all that exist.
Connection ids are the `n` of `conn-n`, counted from 1 by each broker process.
-/

set_option autoImplicit false

namespace XBus

abbrev SessionId := String
/-- A broker-minted identifier. -/
abbrev Id := Nat
/-- The `n` of a connection id `conn-n`. -/
abbrev ConnId := Nat

/-! ## Instants

A stored instant is the text `new Date(ms).toISOString()`, and SQL compares these texts as
text. Up to the end of year 9999 the text has four year digits and sorts by `ms`; from then
on it starts with `+`, which sorts before every digit. -/

/-- First millisecond of year 10000. -/
def Iso.yearTenThousand : Nat := 253402300800000

/-- The ISO text of an instant, named by its milliseconds. -/
structure Iso where
  ms : Nat
deriving DecidableEq, Repr

/-- Where the text of an instant sorts. -/
def Iso.key (a : Iso) : Nat × Nat := (if a.ms < Iso.yearTenThousand then 1 else 0, a.ms)

/-- `a <= b` on the stored texts. -/
def Iso.le (a b : Iso) : Bool :=
  a.key.1 < b.key.1 || (a.key.1 == b.key.1 && a.key.2 ≤ b.key.2)

/-- `a > b` on the stored texts. -/
def Iso.gt (a b : Iso) : Bool := !a.le b

/-- The text of the instant `ms` milliseconds later. -/
def Iso.plus (a : Iso) (ms : Nat) : Iso := ⟨a.ms + ms⟩

/-- Largest time value a `Date` holds; beyond it `toISOString` throws a `RangeError`. -/
def Iso.maxMs : Nat := 8640000000000000

/-- `MEANINGFUL_ACTIVITY_RETENTION_MS`, 15 days. -/
def retentionMs : Nat := 15 * 24 * 60 * 60 * 1000

/-! ## Errors -/

/-- `XBusErrorCode`, as far as the modelled operations throw it. -/
inductive ErrorCode
  | unknownRecipient | ambiguousRecipient | invalidAlias | invalidSessionName
  | sessionNameTaken | reclaimCredentialInvalid | recipientSessionExpired
  | sessionNotRegistered | messageNotFound | notRecipient | illegalStateTransition
  | protocolViolation | authFailed | forbiddenRole | invalidReceipt | injectionNotFound
  | receiptExpired | receiptReplayed | sessionAlreadyActive | blocked | epochMismatch
  | versionIncompatible | payloadTooLarge | frameTooLarge | reservedMetadataKey | reservedKind
  | bufferBudgetExceeded
deriving DecidableEq, Repr

/-- The constraints of the schema that an insert can run into. -/
inductive Constraint
  /-- `ux_recipseq`: `messages(recipient_session_id, recipient_sequence)`. -/
  | recipientSequence
  /-- `ux_idem`: `messages(sender_session_id, idempotency_key)`. -/
  | idempotencyKey
  /-- The foreign key of `recipient_sequences` into `sessions`. -/
  | sequenceOwner
  /-- The primary key of `schedules`. -/
  | scheduleId
deriving DecidableEq, Repr

/-- `XBusError`: a stable code, a text, and structured detail that is safe to surface. -/
structure XBusError where
  code : ErrorCode
  message : String
  detail : List (String × String) := []
deriving DecidableEq, Repr

/-- What a call throws: one of the program's own errors, a constraint error of the
    database, or the `RangeError` of an unrepresentable date. The daemon reports the last
    two as `DATABASE_ERROR`. -/
inductive Failure
  | xbus (error : XBusError)
  | sqlite (violated : Constraint)
  | range
deriving DecidableEq, Repr

/-- `new XBusError(code, message, detail)`. -/
def xbusError (code : ErrorCode) (message : String)
    (detail : List (String × String) := []) : Failure :=
  .xbus { code, message, detail }

/-- The code of an `XBusError`. -/
def Failure.code? : Failure → Option ErrorCode
  | .xbus e => some e.code
  | _ => none

/-! ## States -/

/-- `DeliveryState`. -/
inductive DeliveryState
  | queued | dispatching | transportWritten | accepted | completed | retryWait
  | rejected | expired | deadLetter | cancelled
deriving DecidableEq, Repr

namespace DeliveryState

/-- The text a state has in the database and in messages to the user. -/
def text : DeliveryState → String
  | queued => "queued"
  | dispatching => "dispatching"
  | transportWritten => "transport_written"
  | accepted => "accepted"
  | completed => "completed"
  | retryWait => "retry_wait"
  | rejected => "rejected"
  | expired => "expired"
  | deadLetter => "dead_letter"
  | cancelled => "cancelled"

/-- `state IN ('queued','retry_wait')`: what a pull may select. -/
def waiting (s : DeliveryState) : Bool := s = queued ∨ s = retryWait

/-- `TERMINAL_STATES`. -/
def isTerminal (s : DeliveryState) : Bool :=
  s = completed ∨ s = rejected ∨ s = expired ∨ s = deadLetter ∨ s = cancelled

/-- Terminal for the idempotent retry of a send (`store.ts`, `send`). -/
def terminalForRetry (s : DeliveryState) : Bool :=
  s = completed ∨ s = deadLetter ∨ s = rejected ∨ s = expired

end DeliveryState

/-- `Trigger`. -/
inductive Trigger
  | pickup | writeOk | writeFail | ackAccept | ackReject | complete | ackTimeout
  | backoffElapsed | maxAttempts | expire | cancel
deriving DecidableEq, Repr

/-- `Edge`. The guard `requiresAck=0` is `some false`, `requiresAck=1` is `some true`. -/
structure Edge where
  /-- The field `from` of the source. -/
  source : DeliveryState
  trigger : Trigger
  /-- The field `to` of the source. -/
  target : DeliveryState
  guard : Option Bool := none
  incrementsAttempt : Bool := false
deriving DecidableEq, Repr

/-- `EDGES`: the complete, authoritative edge set. -/
def edges : List Edge :=
  [ { source := .queued, trigger := .pickup, target := .dispatching },
    { source := .queued, trigger := .expire, target := .expired },
    { source := .queued, trigger := .cancel, target := .cancelled },
    { source := .dispatching, trigger := .writeOk, target := .transportWritten },
    { source := .dispatching, trigger := .writeFail, target := .retryWait },
    { source := .dispatching, trigger := .expire, target := .expired },
    { source := .dispatching, trigger := .cancel, target := .cancelled },
    { source := .transportWritten, trigger := .ackAccept, target := .accepted },
    { source := .transportWritten, trigger := .ackReject, target := .rejected },
    { source := .transportWritten, trigger := .complete, target := .completed
      guard := some false },
    { source := .transportWritten, trigger := .ackTimeout, target := .retryWait },
    { source := .transportWritten, trigger := .expire, target := .expired },
    { source := .transportWritten, trigger := .cancel, target := .cancelled },
    { source := .accepted, trigger := .complete, target := .completed },
    { source := .accepted, trigger := .ackReject, target := .rejected },
    { source := .accepted, trigger := .expire, target := .expired },
    { source := .accepted, trigger := .cancel, target := .cancelled },
    { source := .retryWait, trigger := .backoffElapsed, target := .dispatching
      incrementsAttempt := true },
    { source := .retryWait, trigger := .maxAttempts, target := .deadLetter },
    { source := .retryWait, trigger := .expire, target := .expired },
    { source := .retryWait, trigger := .cancel, target := .cancelled } ]

/-- `TERMINAL_STATES`. -/
def terminalStates : List DeliveryState :=
  [.completed, .rejected, .expired, .deadLetter, .cancelled]

/-- `isTerminal`. -/
def isTerminal (s : DeliveryState) : Bool := s ∈ terminalStates

/-- `deliveries.failure_category`. -/
inductive FailureCategory
  | ackTimeout | ackTimeoutExhausted | expiredBeforeInjection | recipientInactive15Days
  | replyPendingUnanswered15Days | recipientRemoved | discarded
deriving DecidableEq, Repr

/-- `sessions.session_name_state`. -/
inductive NameState
  | unnamed | pending | active | retired
deriving DecidableEq, Repr

/-- `session_name_state IN ('active','pending')`: the states that lock a name. -/
def NameState.holds (s : NameState) : Bool := s = .active ∨ s = .pending

/-- `name_ownership.name_state`. -/
inductive OwnershipState
  | active | pending | released
deriving DecidableEq, Repr

/-- `name_state IN ('active','pending')`. -/
def OwnershipState.holds (s : OwnershipState) : Bool := s = .active ∨ s = .pending

/-- `sessions.state`. -/
inductive LinkState
  | connected | disconnected
deriving DecidableEq, Repr

/-- `component_instances.state`. -/
inductive ComponentState
  | live | superseded | closed
deriving DecidableEq, Repr

/-- `messages.kind`. -/
inductive MessageKind
  | request | event | reply | cancel | system
deriving DecidableEq, Repr

/-- `messages.author_type` and `thread_participants.actor_kind`. -/
inductive AuthorType
  | claude | operator
deriving DecidableEq, Repr

/-- `receipts.receipt_type`, and the operation an injection authorises. -/
inductive ReceiptOp
  | ack | reply
deriving DecidableEq, Repr

/-- `receipts.status`: of an acknowledgement or of a reply. -/
inductive ReceiptStatus
  | accepted | rejected | completed | failed | partially
deriving DecidableEq, Repr

/-- `ReceiveControl`. -/
inductive ReceiveControl
  | active | paused | doNotDisturb | manualCheckpoint
deriving DecidableEq, Repr

/-- `LivenessVerdict` of the process prober. -/
inductive LivenessVerdict
  | provenLiveBroker | inconclusive | provenDeadOrRecycled
deriving DecidableEq, Repr

/-! ## Readiness -/

/-- `Readiness`. -/
inductive Readiness
  | initializing | readyCheckpoint | readyLive | degradedAckUnavailable
  | degradedHookUnavailable | incompatible | disconnected
deriving DecidableEq, Repr

/-- The only states in which the broker may perform a new context injection. -/
def acceptsInjection (r : Readiness) : Bool := r = .readyCheckpoint ∨ r = .readyLive

/-- `ReadinessHints`: every hint is optional. -/
structure ReadinessHints where
  ackAvailable : Option Bool := none
  hookAvailable : Option Bool := none
  live : Option Bool := none
  versionOk : Option Bool := none
deriving DecidableEq, Repr

/-- `resolveReadiness`: the broker derives readiness from concrete hints. -/
def resolveReadiness (receiveMode : String) (capabilities : List String)
    (hints : ReadinessHints) : Readiness :=
  if hints.versionOk = some false then .incompatible
  else if hints.ackAvailable.getD (capabilities.contains "ack") = false then
    .degradedAckUnavailable
  else if receiveMode = "hook_checkpoint" then
    if hints.hookAvailable = some false then .degradedHookUnavailable else .readyCheckpoint
  else if hints.live = some true then .readyLive
  else .readyCheckpoint

/-! ## Roles -/

/-- `ComponentRole`. -/
inductive ComponentRole
  | mcp | hook | transport | cli | admin
deriving DecidableEq, Repr

def ComponentRole.text : ComponentRole → String
  | .mcp => "mcp"
  | .hook => "hook"
  | .transport => "transport"
  | .cli => "cli"
  | .admin => "admin"

/-- `Operation`, the operations gated by the capability matrix. -/
inductive Operation
  | register | send | pullHookCheckpoint | markInjected | ack | reply | listInbox
  | listSessions | getMetrics | deadLetter | changeAlias | shutdown
deriving DecidableEq, Repr

def Operation.text : Operation → String
  | .register => "register"
  | .send => "send"
  | .pullHookCheckpoint => "pull_hook_checkpoint"
  | .markInjected => "mark_injected"
  | .ack => "ack"
  | .reply => "reply"
  | .listInbox => "list_inbox"
  | .listSessions => "list_sessions"
  | .getMetrics => "get_metrics"
  | .deadLetter => "dead_letter"
  | .changeAlias => "change_alias"
  | .shutdown => "shutdown"

/-- `MATRIX`. -/
def ComponentRole.operations : ComponentRole → List Operation
  | .mcp => [.register, .send, .ack, .reply, .listInbox, .listSessions, .changeAlias]
  | .hook => [.register, .pullHookCheckpoint, .markInjected, .listInbox]
  | .transport => [.register, .markInjected]
  | .cli => [.register, .send, .listSessions, .listInbox]
  | .admin => [.register, .send, .listSessions, .listInbox, .getMetrics, .deadLetter,
      .changeAlias, .shutdown]

def isAllowed (role : ComponentRole) (op : Operation) : Bool := role.operations.contains op

end XBus
