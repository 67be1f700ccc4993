import XBus.Console

/-!
# The console's list of sessions

`sessions` of `broker/dashboard/read-model.ts`: the sessions that have not been redirected to
another, each with the deliveries addressed to it counted by what became of them. The counts are
sums over the groups of one `GROUP BY`, written next to `mapDeliveryState` and not by it. The order
of the list and the texts beside the counts are columns the database here does not have.
-/

set_option autoImplicit false

namespace XBus

open Lib

/-- `delivery` of a `DashboardSession`. -/
structure DeliveryCounts where
  queued : Nat
  delivered : Nat
  acknowledged : Nat
  replied : Nat
  failed : Nat
deriving DecidableEq, Repr

/-- The counts under their words. -/
def DeliveryCounts.entries (c : DeliveryCounts) : List (String × Nat) :=
  [("queued", c.queued), ("delivered", c.delivered), ("acknowledged", c.acknowledged),
    ("replied", c.replied), ("failed", c.failed)]

structure DashboardSession where
  sessionId : SessionId
  name : Option String
  sessionNameState : NameState
  connection : LinkState
  readiness : Readiness
  receiveControl : ReceiveControl
  logicalIdentityId : Option SessionId
  physicalInstances : Nat
  delivery : DeliveryCounts
  queued : Nat
  unacknowledged : Nat
deriving DecidableEq, Repr

namespace Broker

/-- `SELECT … FROM deliveries WHERE recipient_session_id=?`. -/
def addressedTo (b : Broker) (sid : SessionId) : List Delivery :=
  b.deliveries.filter fun d => d.recipientSessionId = sid

/-- `COUNT(*) … GROUP BY recipient_session_id, state`: a group that is not there counts nothing. -/
def deliveryByState (b : Broker) (sid : SessionId) (state : DeliveryState) : Nat :=
  (b.addressedTo sid).countP fun d => d.state = state

def deliveryCounts (b : Broker) (sid : SessionId) : DeliveryCounts :=
  let st := b.deliveryByState sid
  { queued := st .queued + st .retryWait
    delivered := st .transportWritten
    acknowledged := st .accepted
    replied := st .completed
    failed := st .deadLetter + st .rejected + st .expired }

def dashboardSession (b : Broker) (s : Session) : DashboardSession :=
  let delivery := b.deliveryCounts s.sessionId
  { sessionId := s.sessionId, name := s.sessionName, sessionNameState := s.sessionNameState
    connection := s.state, readiness := s.readiness
    receiveControl := b.getControl s.sessionId
    logicalIdentityId := s.logicalIdentityId
    physicalInstances :=
      1 + (b.physicalMap.filter fun p => p.canonicalSessionId = s.sessionId).length
    delivery, queued := delivery.queued, unacknowledged := delivery.delivered }

/-- `sessions`. -/
def dashboardSessions (b : Broker) : List DashboardSession :=
  (b.sessions.filter fun s =>
    ¬ b.physicalMap.any fun p => p.physicalSessionId = s.sessionId).map b.dashboardSession

end Broker

end XBus
