import XBus.Store

/-!
# The sweep and the dead-letter store

`broker/reaper.ts` and `broker/deadletter.ts`. A sweep is one transaction of five passes:
acknowledgements that timed out, acceptance TTLs, leases, sessions without activity for
fifteen days, and lapsed name reservations. The tables of the lease pass and of the
scheduler's run pruning are written by no modelled operation, so those passes are absent.
-/

set_option autoImplicit false

namespace XBus

open Lib

/-! ## Acknowledgement timeouts -/

/-- `nextBackoffMs`. -/
def nextBackoffMs (attempt : Nat) (cfg : BackoffConfig) (jitter : Nat → Nat) : Nat :=
  jitter (min cfg.maxDelayMs (cfg.initialDelayMs * cfg.factor ^ attempt))

/-- The deliveries whose acknowledgement deadline has passed, oldest first. -/
def Broker.lapsed (b : Broker) (now : Iso) : List Delivery :=
  (b.deliveries.filter fun d => d.state = .transportWritten ∧ b.requiresAck d.messageId ∧
    d.leaseExpiresAt.any fun t => t.le now).insertionSort fun d d' => d.updatedAt.le d'.updatedAt

/-- What the acknowledgement pass has done so far; `used` counts per recipient. -/
structure AckSweep where
  used : SessionId → Nat := fun _ => 0
  ackTimedOut : Nat := 0
  deadLettered : Nat := 0
  db : Broker

/-- The guard of both updates: still in flight, and still owing an acknowledgement. -/
def Broker.awaitingAck (b : Broker) (mid : Id) (d : Delivery) : Bool :=
  d.messageId = mid ∧ d.state = .transportWritten ∧ b.requiresAck d.messageId

/-- One round of the acknowledgement pass. -/
def reapAckTimeout (env : Env) (mom : Moment) (acc : AckSweep) (r : Delivery) : AckSweep :=
  if env.perSessionCap > 0 ∧ acc.used r.recipientSessionId ≥ env.perSessionCap then acc
  else
    let acc := { acc with used := fun s =>
      if s = r.recipientSessionId then acc.used s + 1 else acc.used s }
    let b := acc.db
    let attempt := r.attemptAckTimeout + 1
    if ¬ b.deliveries.any (b.awaitingAck r.messageId) then acc
    else if attempt ≥ env.backoff.maxAttempts then
      { acc with
        deadLettered := acc.deadLettered + 1
        db := (b.updateDeliveries (b.awaitingAck r.messageId) fun d =>
          { d with state := .deadLetter, attemptAckTimeout := attempt
                   failureCategory := some .ackTimeoutExhausted, leaseExpiresAt := none
                   updatedAt := mom.now }).audit .ackTimeoutDeadLetter none (some r.messageId) }
    else
      let delay := nextBackoffMs (attempt - 1) env.backoff mom.jitter
      { acc with
        ackTimedOut := acc.ackTimedOut + 1
        db := (b.updateDeliveries (b.awaitingAck r.messageId) fun d =>
          { d with state := .retryWait, attemptAckTimeout := attempt
                   failureCategory := some .ackTimeout, leaseExpiresAt := none
                   nextAttemptAt := some (mom.now.plus delay)
                   updatedAt := mom.now }).audit .ackTimeoutRequeue none (some r.messageId) }

/-- `reapAckTimeouts`. -/
def reapAckTimeouts (env : Env) (mom : Moment) (b : Broker) : AckSweep :=
  (b.lapsed mom.now).foldl (reapAckTimeout env mom) { db := b }

/-! ## Acceptance TTL -/

/-- The waiting deliveries whose message has passed its TTL, oldest first. -/
def Broker.pastTtl (b : Broker) (now : Iso) : List Delivery :=
  (b.deliveries.filter fun d => d.state.waiting ∧ (b.message? d.messageId).any fun m =>
    m.expiresAt.any fun e => e.le now).insertionSort fun d d' => d.updatedAt.le d'.updatedAt

/-- One round of the TTL pass. -/
def expireWaiting (now : Iso) (acc : Nat × Broker) (r : Delivery) : Nat × Broker :=
  if acc.2.deliveries.any fun d => d.messageId = r.messageId ∧ d.state.waiting then
    (acc.1 + 1, (acc.2.updateDeliveries (fun d => d.messageId = r.messageId ∧ d.state.waiting)
      fun d => { d with state := .expired, failureCategory := some .expiredBeforeInjection
                        updatedAt := now }).audit .expiredBeforeInjection none
        (some r.messageId))
  else acc

/-- `reapAcceptanceTtl`. -/
def reapAcceptanceTtl (now : Iso) (b : Broker) : Nat × Broker :=
  (b.pastTtl now).foldl (expireWaiting now) (0, b)

/-! ## Expiry of sessions -/

/-- The sessions due to expire, earliest first. Never the operator. -/
def Broker.dueSessions (b : Broker) (now : Iso) : List Session :=
  (b.sessions.filter fun s => s.expiredAt = none ∧ (s.expiresAt.any fun e => e.le now) ∧
    s.sessionId ≠ operatorSessionId).insertionSort fun s s' =>
      (s.expiresAt.getD ⟨0⟩).le (s'.expiresAt.getD ⟨0⟩)

/-- The writes for one expiring session. The name stays held, in both representations. -/
def Broker.tombstone (b : Broker) (sid : SessionId) (now : Iso) : Broker :=
  let lid := (b.session? sid).bind (·.logicalIdentityId)
  let b : Broker := { b with
    sessions := updateWhere (fun s => s.sessionId = sid ∧ s.expiredAt = none)
      (fun s => { s with expiredAt := some now, readiness := .disconnected
                         pendingNameExpiresAt := none }) b.sessions
    components := updateWhere (fun c => c.sessionId = sid ∧ c.state = .live)
      (fun c => { c with state := .closed }) b.components
    aliases := updateWhere (fun a => a.sessionId = sid ∧ a.active)
      (fun a => { a with active := false }) b.aliases
    physicalMap := b.physicalMap.filter fun e => ¬ (e.canonicalSessionId = sid ∨
      e.physicalSessionId = sid ∨ some e.logicalIdentityId = lid) }
  let b := b.updateDeliveries
    (fun d => d.recipientSessionId = sid ∧ (d.state.waiting ∨ d.state = .transportWritten))
    fun d => { d with state := .deadLetter, failureCategory := some .recipientInactive15Days
                      nextAttemptAt := none, leaseExpiresAt := none, updatedAt := now }
  (b.updateDeliveries
    (fun d => d.recipientSessionId = sid ∧ d.state = .accepted ∧ b.requiresReply d.messageId)
    fun d => { d with state := .expired, nextAttemptAt := none, leaseExpiresAt := none
                      failureCategory := some .replyPendingUnanswered15Days
                      updatedAt := now }).audit .sessionExpired

/-- One round of the expiry pass; a session already expired is skipped. -/
def expireSession (now : Iso) (acc : Nat × Broker) (s : Session) : Nat × Broker :=
  if acc.2.sessions.any fun x => x.sessionId = s.sessionId ∧ x.expiredAt = none then
    (acc.1 + 1, acc.2.tombstone s.sessionId now)
  else acc

/-- `reapExpiredSessions`. -/
def reapExpiredSessions (now : Iso) (b : Broker) : Nat × Broker :=
  (b.dueSessions now).foldl (expireSession now) (0, b)

/-- A pending reservation whose time is up. -/
def Session.pendingLapsed (s : Session) (now : Iso) : Bool :=
  s.sessionNameState = .pending ∧ s.pendingNameExpiresAt.any fun t => t.le now

/-- `reapStalePendingNames`. -/
def reapStalePendingNames (now : Iso) (b : Broker) : Broker :=
  if b.sessions.any fun s => s.pendingLapsed now then
    ({ b with
      sessions := updateWhere (fun s => s.pendingLapsed now)
        (fun s => { s with sessionNameState := .unnamed, sessionName := none
                           normalizedSessionName := none
                           pendingNameExpiresAt := none }) b.sessions } : Broker).audit
      .pendingNameReservationLapsed
  else b

/-- `SweepResult`. -/
structure SweepResult where
  ackTimedOut : Nat
  deadLettered : Nat
  expired : Nat
  sessionsExpired : Nat
deriving DecidableEq, Repr

/-- `sweep`. -/
def sweep (env : Env) (mom : Moment) : BrokerCall SweepResult :=
  Call.transaction (.act fun b =>
    let acks := reapAckTimeouts env mom b
    let ttl := reapAcceptanceTtl mom.now acks.db
    let gone := reapExpiredSessions mom.now ttl.2
    ({ ackTimedOut := acks.ackTimedOut, deadLettered := acks.deadLettered, expired := ttl.1
       sessionsExpired := gone.1 }, reapStalePendingNames mom.now gone.2))

/-! ## Dead letters -/

/-- `RedriveResult`. -/
inductive RedriveResult
  | redriven (newDeliveryId : Id) (warning : Bool)
  | refused (reason : String)
deriving DecidableEq, Repr

/-- `redrive`: revalidate, then a new delivery attempt from `queued`. `validate` is the
    caller's check of recipient and sender; `some reason` refuses. -/
def redrive (env : Env) (now : Iso) (mid : Id)
    (validate : SessionId → String → Option String) : BrokerCall RedriveResult :=
  Call.transaction do
    let b ← Call.get
    match b.message? mid, b.delivery? mid with
    | none, _ => pure (.refused "message not found")
    | some _, none => pure (.refused "not in dead_letter state")
    | some m, some d =>
      if d.state ≠ .deadLetter then pure (.refused "not in dead_letter state")
      else
        match validate m.recipientSessionId (env.text.toLowerCase m.senderAlias) with
        | some reason => pure (.refused reason)
        | none => do
          let newDeliveryId ← Call.act fun b => (b.nextId, b.mint)
          Call.modify fun b => (b.updateDeliveries (fun d => d.messageId = mid) fun d =>
            { d with deliveryId := newDeliveryId, state := .queued, failureCategory := none
                     nextAttemptAt := none, leaseExpiresAt := none, targetGeneration := none
                     attemptAckTimeout := 0, updatedAt := now }).audit .deadLetterRedrive none
              (some mid)
          pure (.redriven newDeliveryId (b.injections.any fun i => i.messageId = mid))

/-- `discard`. -/
def discard (now : Iso) (mid : Id) : BrokerCall Bool :=
  .act fun b =>
    if b.deliveries.any fun d => d.messageId = mid ∧ d.state = .deadLetter then
      (true, (b.updateDeliveries (fun d => d.messageId = mid ∧ d.state = .deadLetter) fun d =>
        { d with state := .cancelled, failureCategory := some .discarded
                 updatedAt := now }).audit .deadLetterDiscard none (some mid))
    else (false, b)

end XBus
