import XBus.System

/-!
# The sender's desk

What stands between the stores and the sender of a message: the record of attempts to wake the
recipient (`store.ts`), the word the sender is told about its message (`broker/routing-class.ts`),
and cancellation (`broker/cancellation.ts`). The desk is the stores with these around them.

Attempts to wake are rows of `audit_events` whose metadata is read back; the rows that are read are
kept in a list of their own, oldest first.
-/

set_option autoImplicit false

namespace XBus

open Lib

/-! ## The signal -/

/-- `WakeOutcome`. -/
inductive WakeOutcome
  | requested | accepted | failed | none
deriving DecidableEq, Repr

/-- `DeliverySignal`. -/
inductive DeliverySignal
  | queued | wakeRequested | wakeFailed | injected | acknowledged | replied | failed | expired
deriving DecidableEq, Repr

/-- `deriveDeliverySignal`. -/
def deriveDeliverySignal (state : DeliveryState) (wake : WakeOutcome) : DeliverySignal :=
  match state with
  | .queued | .dispatching | .retryWait =>
    if wake = .failed then .wakeFailed
    else if wake = .requested ∨ wake = .accepted then .wakeRequested
    else .queued
  | .transportWritten => .injected
  | .accepted => .acknowledged
  | .completed => .replied
  | .rejected | .deadLetter | .cancelled => .failed
  | .expired => .expired

/-- The outcomes that are recorded: `none` stands for no record. -/
inductive WakeRecord
  | requested | accepted | failed
deriving DecidableEq, Repr

def WakeRecord.outcome : WakeRecord → WakeOutcome
  | .requested => .requested
  | .accepted => .accepted
  | .failed => .failed

/-- A `WAKE_ATTEMPT` row. -/
structure WakeAttempt where
  messageId : Id
  wakeOutcome : WakeRecord
deriving DecidableEq, Repr

/-- `recordWakeAttempt`, as far as the stores see it. -/
def recordWakeAttempt (mid : Id) (sid : SessionId) : BrokerCall Unit :=
  Call.modify fun b => b.audit .wakeAttempt (some sid) (some mid)

/-! ## Cancellation -/

/-- `CancelOutcome`. -/
inductive CancelOutcome
  | cancelledBeforeDelivery | cancellationRequestedAfterInjection | alreadyCompleted
  | cannotConfirmDeliveryState
deriving DecidableEq, Repr

/-- `CancelResult`. Without a delivery the state is the text `unknown`. -/
structure CancelResult where
  outcome : CancelOutcome
  state : Option DeliveryState
  detail : String
deriving DecidableEq, Repr

/-- `cancel`. The delivery that was read is among those the update matches, so the update is never
    without effect and the branch that reads again is not reached. -/
def cancel (now : Iso) (mid : Id) : BrokerCall CancelResult :=
  Call.transaction do
    let b ← Call.get
    match b.delivery? mid with
    | none => pure { outcome := .cannotConfirmDeliveryState, state := none
                     detail := "no such delivery" }
    | some d =>
      if d.state.waiting then do
        Call.modify fun b => (b.updateDeliveries (fun d => d.messageId = mid ∧ d.state.waiting)
          fun d => { d with state := .cancelled, updatedAt := now }).audit
            .cancelledBeforeDelivery none (some mid)
        pure { outcome := .cancelledBeforeDelivery, state := some .cancelled
               detail := "delivery prevented before any context injection" }
      else if d.state = .transportWritten ∨ d.state = .accepted then do
        Call.modify fun b => b.audit .cancellationRequestedAfterInjection none (some mid)
        pure { outcome := .cancellationRequestedAfterInjection, state := some d.state
               detail := "message already injected into recipient context; cancellation is a " ++
                 "request, not a guarantee" }
      else if d.state = .completed then
        pure { outcome := .alreadyCompleted, state := some d.state
               detail := "the request already completed" }
      else
        pure { outcome := .cannotConfirmDeliveryState, state := some d.state
               detail := "delivery is in terminal state " ++ d.state.text }

/-! ## The desk as a system -/

/-- The stores, and the attempts to wake on record. -/
structure Desk where
  db : Broker
  wakeAttempts : List WakeAttempt := []
deriving DecidableEq, Repr

namespace Desk

/-- `latestWakeOutcome`. -/
def latestWakeOutcome (d : Desk) (mid : Id) : WakeOutcome :=
  ((d.wakeAttempts.reverse.find? fun w => w.messageId = mid).map (·.wakeOutcome.outcome)).getD
    .none

/-- The word the sender of a message is told, once there is a delivery. -/
def signal? (d : Desk) (mid : Id) : Option DeliverySignal :=
  (d.db.delivery? mid).map fun x => deriveDeliverySignal x.state (d.latestWakeOutcome mid)

end Desk

/-- What can happen at the desk. -/
inductive DeskOp
  | store (op : Op)
  | cancel (messageId : Id)
  | recordWakeAttempt (messageId : Id) (sessionId : SessionId) (outcome : WakeRecord)

/-- What is answered. -/
inductive DeskResponse
  | store (r : Response)
  | cancelled (r : CancelResult)
  | done
deriving DecidableEq, Repr

namespace DeskOp

/-- The call into the stores. -/
def call (env : Env) (mom : Moment) : DeskOp → BrokerCall DeskResponse
  | .store op => DeskResponse.store <$> exec env mom op
  | .cancel mid => DeskResponse.cancelled <$> XBus.cancel mom.now mid
  | .recordWakeAttempt mid sid _ => (fun _ => DeskResponse.done) <$> XBus.recordWakeAttempt mid sid

/-- The attempts put on record. -/
def wakes : DeskOp → List WakeAttempt
  | .recordWakeAttempt mid _ outcome => [{ messageId := mid, wakeOutcome := outcome }]
  | _ => []

end DeskOp

/-- What happens, and what the outside answers while it does. -/
abbrev DeskEvent := DeskOp × Moment

/-- One step of the desk. -/
def Desk.step (env : Env) (d : Desk) (e : DeskEvent) : Except Failure DeskResponse × Desk :=
  ((e.1.call env e.2 d.db).1,
    { db := (e.1.call env e.2 d.db).2, wakeAttempts := d.wakeAttempts ++ e.1.wakes })

/-- The desk of a fresh database. -/
def Desk.initial (env : Env) : Desk := { db := XBus.initial env }

/-- The desk after some run from a fresh database, all of whose steps were admitted. -/
def Desk.Reachable (env : Env) (ok : Desk → DeskEvent → Prop) (d : Desk) : Prop :=
  ∃ log, Run (Desk.step env) ok (Desk.initial env) log d

end XBus
