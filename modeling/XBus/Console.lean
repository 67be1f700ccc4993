import XBus.System
import XBus.Scheduler
import XBus.Inbound

/-!
# The broker with its console and its scheduler

The operator's side of the broker: the thread view of `broker/dashboard/read-model.ts`, the
console's requests of `broker/daemon.ts`, and the scheduler's ticks, over the database the peers
write too.

The daemon runs a tick to its end before anything else, so at this level a tick is one step.
-/

set_option autoImplicit false

namespace XBus

open Lib

/-! ## The read model -/

/-- `mapDeliveryState`. -/
def mapDeliveryState : DeliveryState → String
  | .queued | .retryWait | .dispatching => "queued"
  | .transportWritten => "delivered"
  | .accepted => "acknowledged"
  | .completed => "replied"
  | .deadLetter | .rejected | .expired | .cancelled => "failed"

/-- `sessionDisplay`. -/
def Broker.sessionDisplay (b : Broker) (sid : SessionId) : String :=
  if sid = operatorSessionId then "local-operator"
  else match b.session? sid with
    | some s => s.sessionName.getD s.automaticAlias
    | none => String.ofList (sid.toList.take 8)

/-- `DashboardThreadTurn`. -/
structure DashboardThreadTurn where
  messageId : Id
  threadSequence : Nat
  kind : MessageKind
  authorType : AuthorType
  senderName : String
  senderSessionId : SessionId
  recipientName : String
  recipientSessionId : SessionId
  correlationId : Id
  causationId : Option Id
  parentMessageId : Option Id
  text : String
  requiresAck : Bool
  requiresReply : Bool
  createdAt : Iso
  expiresAt : Option Iso
  deliveryState : String
  ackStatus : Option ReceiptStatus
  ackAttempts : Nat
  failureCategory : Option FailureCategory
deriving DecidableEq, Repr

def Broker.dashboardTurn (b : Broker) (m : Message) : DashboardThreadTurn :=
  let d := b.delivery? m.messageId
  { messageId := m.messageId, threadSequence := m.threadSequence, kind := m.kind
    authorType := m.authorType, senderName := b.sessionDisplay m.senderSessionId
    senderSessionId := m.senderSessionId, recipientName := b.sessionDisplay m.recipientSessionId
    recipientSessionId := m.recipientSessionId, correlationId := m.correlationId
    causationId := m.causationId, parentMessageId := m.parentMessageId, text := m.text
    requiresAck := m.requiresAck, requiresReply := m.requiresReply, createdAt := m.createdAt
    expiresAt := m.expiresAt, deliveryState := mapDeliveryState ((d.map (·.state)).getD .queued)
    ackStatus := (b.receipts.find? fun r =>
      r.messageId = m.messageId ∧ r.receiptType = .ack).map (·.status)
    ackAttempts := (d.map (·.attemptAckTimeout)).getD 0
    failureCategory := d.bind (·.failureCategory) }

/-- `DashboardThread`. -/
structure DashboardThread where
  threadId : Id
  rootMessageId : Id
  subject : Option String
  isOpen : Bool
  lastThreadSequence : Nat
  lastReadThreadSequence : Nat
  unreadCount : Nat
  peerSessionId : Option SessionId
  peerName : Option String
  turns : List DashboardThreadTurn
deriving DecidableEq, Repr

/-- `thread` of the read model: `none` for a thread that is not there, or that the operator does
    not take part in. `limit` is already clamped. -/
def Broker.thread (b : Broker) (threadId : Id) (limit : Nat) : Option DashboardThread := do
  let t ← b.threads.find? fun t => t.threadId = threadId
  let opPart ← b.threadParticipants.find? fun p =>
    p.threadId = threadId ∧ p.sessionId = operatorSessionId
  let msgs := b.messages.filter fun m => m.threadId = some threadId
  let peer := ((b.threadParticipants.filter fun p => p.threadId = threadId ∧
    p.sessionId ≠ operatorSessionId).insertionSort fun p p' => p.joinedAt.le p'.joinedAt).head?
  return {
    threadId := t.threadId, rootMessageId := t.rootMessageId, subject := t.subject
    isOpen := t.isOpen, lastThreadSequence := t.lastThreadSequence
    lastReadThreadSequence := opPart.lastReadThreadSeq
    unreadCount := (msgs.filter fun m => opPart.lastReadThreadSeq < m.threadSequence ∧
      m.senderSessionId ≠ operatorSessionId).length
    peerSessionId := peer.map (·.sessionId)
    peerName := peer.map fun p => b.sessionDisplay p.sessionId
    turns := ((msgs.insertionSort fun m m' => m.threadSequence ≤ m'.threadSequence).take
      limit).map b.dashboardTurn }

/-! ## The operator's schedules -/

/-- What the host language reads from a text: `Number`, where that is finite, and `Date.parse`. -/
structure Readers where
  number : String → Option ℚ
  date : String → Option Instant

/-- `numOpt`. -/
def numOpt (readers : Readers) (p : JsonValue) (field : String) : Except Failure (Option ℚ) :=
  let checked (n : ℚ) : Except Failure (Option ℚ) :=
    if 0 ≤ n then .ok (some n)
    else .error (xbusError .protocolViolation (field ++ " must be a non-negative number"))
  match p.field? field with
  | none => .ok none
  | some (.int n) => checked n
  -- What is not finite, and what is no number at all, is refused as a negative number is.
  | some (.fraction text) => checked ((readers.number text).getD (-1))
  | some _ => checked (-1)

/-- `if (!value) throw …`, on a text that may be missing. -/
def requiredText (value : Option String) (field : String) : Except Failure String :=
  match value.filter (¬ ·.isEmpty) with
  | some s => .ok s
  | none => .error (xbusError .protocolViolation (field ++ " required"))

def ScheduleKind.ofText : Option String → Except Failure ScheduleKind
  | some "once" => .ok .once
  | some "interval" => .ok .interval
  | some "cron" => .ok .cron
  | _ => .error (xbusError .protocolViolation "kind must be once|interval|cron")

/-- `p.field === true`, of a field that is there. -/
def flagOf (p : JsonValue) (field : String) : Option Bool :=
  (p.field? field).map fun v => match v with
    | .bool b => b
    | _ => false

/-- The first run of a request: what it says, or now. -/
def firstRun (readers : Readers) (nowMs : Nat) (firstRunAt : Option String) :
    Except Thrown Instant :=
  match firstRunAt.filter (¬ ·.isEmpty) with
  | some text => match readers.date text with
    | some t => .ok t
    | none => .error (.failure (xbusError .protocolViolation "firstRunAt must be an ISO instant"))
  | none => toISOString nowMs

/-- What `operatorSchedule` makes of the body of a request to create a schedule. -/
def scheduleInput (env : Env) (readers : Readers) (nowMs : Nat) (p : JsonValue) :
    Except Thrown CreateScheduleInput := do
  let wrap {α : Type} (x : Except Failure α) : Except Thrown α := x.mapError .failure
  let recipient ← wrap (optString p "to")
  let text ← wrap (optString p "text")
  let kind ← wrap (optString p "kind")
  let recipient ← wrap (requiredText recipient "to")
  let text ← wrap (requiredText text "text")
  let kind ← wrap (ScheduleKind.ofText kind)
  let _ ← wrap (validateSendInput env.text (.obj [("to", .str recipient), ("text", .str text)]))
  let scheduleExpr ← wrap (optString p "scheduleExpr")
  let firstRunAt ← wrap (optString p "firstRunAt")
  let nextRunAt ← firstRun readers nowMs firstRunAt
  let _ ← wrap (optString p "title")
  let quietHoursJson ← wrap (optString p "quietHoursJson")
  let minIntervalMs ← wrap (numOpt readers p "minIntervalMs")
  let wakeLimitPerDay ← wrap (numOpt readers p "wakeLimitPerDay")
  let maxFires ← wrap (numOpt readers p "maxFires")
  return { targetAddress := recipient, payloadText := text, requiresAck := flagOf p "requiresAck"
           requiresReply := flagOf p "requiresReply", kind
           scheduleExpr := scheduleExpr.bind readers.number, quietHoursJson, minIntervalMs
           wakeLimitPerDay, maxFires, nextRunAt }

/-- `operatorSchedule` with the action `create`. -/
def operatorSchedule (env : Env) (readers : Readers) (nowMs : Nat) (p : JsonValue) :
    SchedulerCall Id := do
  let input ← Call.lift (scheduleInput env readers nowMs p)
  createSchedule env input

/-! ## The system -/

/-- A call into the stores, seen from the scheduler's database. -/
def onBroker {α : Type} (x : BrokerCall α) : SchedulerCall α :=
  x.zoom SchedulerDb.broker (fun σ b => { σ with broker := b }) Thrown.failure

/-- A call into the stores. The sweep also prunes the scheduler's runs, in its transaction. -/
def brokerOp (env : Env) (cfg : SchedulerConfig) (mom : Moment) (op : Op) :
    SchedulerCall Response :=
  match op with
  | .sweep => Call.transaction do
    let r ← onBroker (exec env mom .sweep)
    reapOldScheduleRuns cfg mom
    pure r
  | op => onBroker (exec env mom op)

/-! ## One tick after another -/

/-- What can happen between two ticks, and a tick. -/
inductive SchedulerOp
  | broker (op : Op)
  | markThreadRead (threadId : Id) (upToSequence : Nat)
  | createSchedule (input : CreateScheduleInput)
  | setScheduleState (scheduleId : Id) (control : ScheduleControl)
  | tick

def schedulerExec (env : Env) (cfg : SchedulerConfig) (mom : Moment) :
    SchedulerOp → SchedulerCall Unit
  | .broker op => (fun _ => ()) <$> brokerOp env cfg mom op
  | .markThreadRead tid upTo => (fun _ => ()) <$> onBroker (markThreadRead mom.now tid upTo)
  | .createSchedule input => (fun _ => ()) <$> createSchedule env input
  | .setScheduleState sid control => (fun _ => ()) <$> setScheduleState sid control
  | .tick => (fun _ => ()) <$> tick env cfg mom

abbrev SchedulerEvent := SchedulerOp × Moment

/-- One step, a whole tick included. -/
def schedulerStep (env : Env) (cfg : SchedulerConfig) (σ : SchedulerDb) (e : SchedulerEvent) :
    Except Thrown Unit × SchedulerDb :=
  schedulerExec env cfg e.2 e.1 σ

end XBus
