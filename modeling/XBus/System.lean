import XBus.Reaper
import XBus.Lib.Runs

/-!
# The broker as a system

Every operation of the stores as one type, `Op`, and `exec`, which runs one against the
database. Authorities are arguments here: a run at this level is any sequence of calls by
any holders of any authorities, which is more than the daemon lets through. What holds of
every such run holds of the daemon's.
-/

set_option autoImplicit false

namespace XBus

open Lib

/-- One call into the stores. A checkpoint id left out is minted by the broker. -/
inductive Op
  | register (input : RegisterInput)
  | send (auth : SessionAuthority) (input : SendInput)
  | operatorSend (input : OperatorSendInput)
  | checkpointPull (auth : SessionAuthority) (checkpointId : Option String) (limit : Nat)
  | processNext (auth : SessionAuthority) (checkpointId : Option String)
  | inboxView (auth : SessionAuthority) (checkpointId : Option String) (limit : Nat)
  | daemonCheckpointPull (auth : SessionAuthority) (limit : Nat)
  | peek (auth : SessionAuthority) (limit : Nat)
  | ack (auth : SessionAuthority) (input : AckInput)
  | reply (auth : SessionAuthority) (input : ReplyInput)
  | redeliver (auth : SessionAuthority) (messageId : Id)
  | registerAlias (auth : SessionAuthority) (raw : String)
  | renameSession (auth : SessionAuthority) (raw : String) (ownerSecret : Option String)
  | signalReadiness (auth : SessionAuthority) (hints : ReadinessHints)
  | setControl (auth : SessionAuthority) (mode : ReceiveControl)
  | blockPeer (auth : SessionAuthority) (handle : String) (unblock : Bool)
  | connClosed (auth : SessionAuthority) (conn : ConnId)
  | sweep
  | operatorRedeliver (messageId : Id) (confirmReplayAccepted : Bool)
  | redrive (messageId : Id) (validate : SessionId → String → Option String)
  | discard (messageId : Id)
  | operatorRenameAlias (sessionId : SessionId) (raw : String)
  | operatorSetControl (sessionId : SessionId) (mode : ReceiveControl)
  | operatorRemoveRecord (sessionId : SessionId)
  | recordManagedSession (sessionId : SessionId)
  | importDormantSession (sessionId : SessionId)
  | ensureOperatorSession

/-- What a call answers. -/
inductive Response
  | authority (auth : SessionAuthority)
  | sent (result : SendResult)
  | bodies (messages : List PendingMessage)
  | inbox (entries : List InboxEntry)
  | listed (messages : List Message)
  | acked (result : AckResult)
  | redelivered (entry : Option InboxEntry)
  | handle (display : String)
  | renamed (result : RenameResult)
  | named (status : NameStatus)
  | readiness (r : Readiness)
  | swept (result : SweepResult)
  | operatorRedelivered (outcome : RedeliverOutcome)
  | redriven (result : RedriveResult)
  | flag (value : Bool)
  | done
deriving DecidableEq, Repr

/-- The checkpoint id of a pull: the caller's, or a fresh one. -/
def checkpointOf (given : Option String) : BrokerCall CheckpointId :=
  match given with
  | some text => pure (.given text)
  | none => Call.act fun b => (.minted "" b.nextId, b.mint)

/-- Run one operation. -/
def exec (env : Env) (mom : Moment) : Op → BrokerCall Response
  | .register input => Response.authority <$> register env mom input
  | .send auth input => Response.sent <$> send env mom.now auth input
  | .operatorSend input => Response.sent <$> operatorSend env mom.now input
  | .checkpointPull auth ck limit => do
    let ck ← checkpointOf ck
    Response.bodies <$> checkpointPull env mom.now auth ck limit
  | .processNext auth ck => do
    let ck ← checkpointOf ck
    Response.bodies <$> processNext env mom.now auth ck
  | .inboxView auth ck limit => do
    let ck ← checkpointOf ck
    Response.inbox <$> inboxView env mom.now auth ck limit
  | .daemonCheckpointPull auth limit =>
    Response.bodies <$> daemonCheckpointPull env mom.now auth limit
  | .peek auth limit => Response.listed <$> pendingForSession mom.now auth limit
  | .ack auth input => Response.acked <$> ack env mom.now auth input
  | .reply auth input => Response.sent <$> reply env mom.now auth input
  | .redeliver auth mid => Response.redelivered <$> redeliver env mom.now auth mid
  | .registerAlias auth raw => Response.handle <$> registerAlias env auth raw
  | .renameSession auth raw secret => Response.renamed <$> renameSession env mom auth raw secret
  | .signalReadiness auth hints => Response.readiness <$> signalReadiness auth hints
  | .setControl auth mode => (fun _ => Response.done) <$> setControl mom.now auth mode
  | .blockPeer auth handle unblock =>
    (fun _ => Response.done) <$> blockPeer env auth handle unblock
  | .connClosed auth conn => do
    Call.modify fun b => b.connClosed auth conn
    pure .done
  | .sweep => Response.swept <$> sweep env mom
  | .operatorRedeliver mid confirm =>
    Response.operatorRedelivered <$> operatorRedeliver mom.now mid confirm
  | .redrive mid validate => Response.redriven <$> redrive env mom.now mid validate
  | .discard mid => Response.flag <$> discard mom.now mid
  | .operatorRenameAlias sid raw => Response.named <$> operatorRenameAlias env mom sid raw
  | .operatorSetControl sid mode =>
    (fun _ => Response.done) <$> operatorSetControl sid mode
  | .operatorRemoveRecord sid => Response.flag <$> operatorRemoveRecord mom.now sid
  | .recordManagedSession sid => (fun _ => Response.done) <$> recordManagedSession env sid
  | .importDormantSession sid => (fun _ => Response.done) <$> importDormantSession env sid
  | .ensureOperatorSession => do
    Call.modify fun b => b.ensureOperatorSession env
    pure .done

/-- An operation, and what the outside answers while it runs. -/
abbrev Event := Op × Moment

/-- One step of the broker. -/
def step (env : Env) (b : Broker) (e : Event) : Except Failure Response × Broker :=
  exec env e.2 e.1 b

/-- A fresh database, with the operator provisioned. -/
def initial (env : Env) : Broker := Broker.ensureOperatorSession {} env

/-- A broker over plain ASCII text, as the daemon configures it: what concrete runs use. -/
def plainEnv : Env :=
  { text := { nfc := id, toLowerCase := String.toLower, trim := id }
    hashSecret := fun secret => "sha256:" ++ secret }

/-- The authority of a session's component in a concrete run. -/
def component (sid : SessionId) (role : ComponentRole) (epoch : Nat) (conn : ConnId) :
    SessionAuthority :=
  { sessionId := sid, componentInstanceId := 0, role, epoch, connectionId := conn }

/-- A concrete run's first events: `alpha` and `beta` register, `beta` under a name and ready
    to be injected, and `alpha` asks `beta` something. The request is message 8. -/
def requestSent : List Event :=
  [ (.register { sessionId := "alpha", connectionId := 1, processId := 1 }, { nowMs := 1000 }),
    (.register { sessionId := "beta", connectionId := 2, processId := 2
                 capabilities := ["ack"], requestedSessionName := some "beta-name" },
      { nowMs := 1000 }),
    (.signalReadiness (component "beta" .mcp 1 2) {}, { nowMs := 1000 }),
    (.send (component "alpha" .mcp 1 1)
      { recipient := "beta-name", text := "please", requiresReply := true }, { nowMs := 1000 }) ]

/-- The request is pulled by `beta`'s hook, under a checkpoint id the hook names. -/
def requestPulled : List Event :=
  requestSent ++
    [(.checkpointPull (component "beta" .hook 1 2) (some "ck") 10, { nowMs := 1001 })]

/-- The states some run under the condition `ok` reaches from a fresh database. -/
def Reachable (env : Env) (ok : Broker → Event → Prop) (b : Broker) : Prop :=
  ∃ log, Run (step env) ok (initial env) log b

end XBus
