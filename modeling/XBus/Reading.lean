import XBus.Console

/-!
# Reading threads

The stores with the console's mark beside them: `operatorMarkThreadRead` hands `markThreadRead` a
number of the browser's choosing, and the read model counts the turns beyond the cursor that the
operator did not send.
-/

set_option autoImplicit false

namespace XBus

open Lib

namespace Broker

/-- Where the operator's read cursor of a thread stands. -/
def cursorOf (b : Broker) (threadId : Id) : Option Nat :=
  (b.threadParticipants.find? fun p =>
    p.threadId = threadId ∧ p.sessionId = operatorSessionId).map (·.lastReadThreadSeq)

/-- `last_thread_sequence`. -/
def lastSequenceOf (b : Broker) (threadId : Id) : Option Nat :=
  (b.threads.find? fun t => t.threadId = threadId).map (·.lastThreadSequence)

/-- The turns that `unreadCount` counts. -/
def unreadTurns (b : Broker) (threadId : Id) : List Message :=
  (b.messages.filter fun m => m.threadId = some threadId).filter fun m =>
    (b.cursorOf threadId).getD 0 < m.threadSequence ∧ m.senderSessionId ≠ operatorSessionId

/-- The word for the latest turn, `latestTurnState`. -/
def latestTurnState (b : Broker) (threadId : Id) : String :=
  let msgs := b.messages.filter fun m => m.threadId = some threadId
  let latest := (msgs.insertionSort fun m m' => m'.threadSequence ≤ m.threadSequence).head?
  mapDeliveryState (((latest.bind fun m => b.delivery? m.messageId).map (·.state)).getD .queued)

end Broker

/-- `DashboardThreadSummary`, without the three times of the thread. -/
structure DashboardThreadSummary where
  threadId : Id
  subject : Option String
  isOpen : Bool
  lastThreadSequence : Nat
  lastReadThreadSequence : Nat
  unreadCount : Nat
  peerSessionId : Option SessionId
  peerName : Option String
  turnCount : Nat
  lastTurnState : String
deriving DecidableEq, Repr

/-- `threads` before its `ORDER BY` and `LIMIT`: the threads the operator takes part in. -/
def Broker.dashboardThreads (b : Broker) : List DashboardThreadSummary :=
  b.threads.filterMap fun t => do
    let opPart ← b.threadParticipants.find? fun p =>
      p.threadId = t.threadId ∧ p.sessionId = operatorSessionId
    let peer := ((b.threadParticipants.filter fun p => p.threadId = t.threadId ∧
      p.sessionId ≠ operatorSessionId).insertionSort fun p p' => p.joinedAt.le p'.joinedAt).head?
    return {
      threadId := t.threadId, subject := t.subject, isOpen := t.isOpen
      lastThreadSequence := t.lastThreadSequence
      lastReadThreadSequence := opPart.lastReadThreadSeq
      unreadCount := (b.messages.filter fun m => m.threadId = some t.threadId ∧
        opPart.lastReadThreadSeq < m.threadSequence ∧
        m.senderSessionId ≠ operatorSessionId).length
      peerSessionId := peer.map (·.sessionId)
      peerName := peer.map fun p => b.sessionDisplay p.sessionId
      turnCount := t.lastThreadSequence, lastTurnState := b.latestTurnState t.threadId }

/-! ## The system -/

inductive ThreadOp
  | store (op : Op)
  | markThreadRead (threadId : Id) (upToSequence : Nat)

inductive ThreadResponse
  | store (response : Response)
  | readUpTo (cursor : Nat)
deriving DecidableEq, Repr

def threadExec (env : Env) (mom : Moment) : ThreadOp → BrokerCall ThreadResponse
  | .store op => .store <$> exec env mom op
  | .markThreadRead tid upTo => .readUpTo <$> markThreadRead mom.now tid upTo

abbrev ThreadEvent := ThreadOp × Moment

def threadStep (env : Env) (b : Broker) (e : ThreadEvent) :
    Except Failure ThreadResponse × Broker :=
  threadExec env e.2 e.1 b

end XBus
