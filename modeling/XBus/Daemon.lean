import XBus.System

/-!
# The daemon

`broker/daemon.ts` over `ipc/server.ts`: the connections of one broker process, what each of
them has been authorised for, and the frames that come in on them. The stores below are those
of `System`; a frame reaches them under the authority its connection registered last.

The database outlives the process, the connections do not: a broker that crashes closes
none of them, and the next one counts its connections from 1 again (`broker/host.ts`). A
graceful stop closes every connection first.

Left out are the frames that only read (`list_sessions`, `get_status`, `wake_poll` and the
like), `announce_session`, whose columns nothing here reads, and the opt-in adapter
declaration of a registration, which can only refuse it before it reaches the store. Payload
fields have their validated types.
-/

set_option autoImplicit false

namespace XBus

open Lib

/-- An open connection: what the server and the daemon keep under its id. -/
structure Conn where
  id : ConnId
  /-- The process at the other end. The daemon never sees it. -/
  pid : Int
  /-- `connHello.has(id)`. -/
  hello : Bool := false
  /-- `connAuth.get(id)`: what the last successful registration answered. -/
  auth : Option SessionAuthority := none
deriving DecidableEq, Repr

/-- A running broker process. -/
structure Daemon where
  db : Broker
  conns : List Conn := []
  /-- The connections accepted so far; the next one is `conn-(seq+1)`. -/
  seq : Nat := 0
deriving DecidableEq, Repr

/-- A handler of the daemon. -/
abbrev DaemonCall (α : Type) := Call Daemon Failure α

namespace Daemon

def conn? (d : Daemon) (id : ConnId) : Option Conn := d.conns.find? fun c => c.id = id

/-- Write what is kept under a connection id. -/
def updateConn (d : Daemon) (id : ConnId) (f : Conn → Conn) : Daemon :=
  { d with conns := updateWhere (fun c => c.id = id) f d.conns }

/-- A call into the stores. -/
def onStore {α : Type} (x : BrokerCall α) : DaemonCall α := fun d =>
  ((x d.db).1, { d with db := (x d.db).2 })

/-! ## Connections -/

/-- `accept`, of a connection that is within the limits. -/
def accept (d : Daemon) (pid : Int) : Daemon :=
  { d with conns := d.conns ++ [{ id := d.seq + 1, pid }], seq := d.seq + 1 }

/-- What the secret and the versions of a hello amount to. -/
inductive HelloVerdict
  | ok | badSecret | incompatible (detail : String)
deriving DecidableEq, Repr

/-- `onHello`. -/
def onHello (c : Conn) : HelloVerdict → DaemonCall Response
  | .ok => do
    Call.modify fun d => d.updateConn c.id fun c => { c with hello := true }
    pure .done
  | .badSecret => Call.refuse id (xbusError .authFailed "authentication failed")
  | .incompatible detail =>
    Call.refuse (fun d => { d with db := d.db.audit .versionIncompatible })
      (xbusError .versionIncompatible detail)

/-- `closeConn` and `onConnClose`. -/
def close (d : Daemon) (c : Conn) : Daemon :=
  { d with
    db := match c.auth with
      | some auth => d.db.connClosed auth c.id
      | none => d.db
    conns := d.conns.filter fun x => x.id ≠ c.id }

/-- The next broker process on the same database. -/
def restart (d : Daemon) (env : Env) : Daemon :=
  { db := d.db.ensureOperatorSession env }

end Daemon

/-! ## Registering -/

/-- `RegisterPayload`, with the fields that are checked or read. -/
structure RegisterPayload where
  sessionId : String
  processId : Int
  instanceId : String := "instance"
  projectId : String := "project"
  cwd : String := "/"
  receiveMode : String := "hook_checkpoint"
  capabilities : List String := []
  /-- Absent or unknown, it is `mcp`. -/
  role : Option ComponentRole := none
  requestedSessionName : Option String := none
  ownerSecret : Option String := none
  supersede : Bool := false
deriving DecidableEq, Repr

/-- The first required field that is empty. -/
def RegisterPayload.emptyField (p : RegisterPayload) : Option String :=
  ([("sessionId", p.sessionId), ("instanceId", p.instanceId), ("projectId", p.projectId),
    ("cwd", p.cwd), ("receiveMode", p.receiveMode)].find? fun f => f.2.isEmpty).map Prod.fst

/-- What the store is given for a registration on a connection. -/
def RegisterPayload.input (p : RegisterPayload) (conn : ConnId) : RegisterInput :=
  { sessionId := p.sessionId, connectionId := conn, processId := p.processId
    receiveMode := p.receiveMode, capabilities := p.capabilities, role := p.role.getD .mcp
    requestedSessionName := p.requestedSessionName, ownerSecret := p.ownerSecret
    supersede := p.supersede }

/-- `onRegister`. The authority of the connection is replaced on success only. -/
def onRegister (env : Env) (mom : Moment) (c : Conn) (p : RegisterPayload) :
    DaemonCall Response := do
  Call.require (c.hello = true) (xbusError .authFailed "hello required before register")
  match p.emptyField with
  | some field => Call.refuse id (xbusError .protocolViolation
      ("register_session requires a non-empty " ++ field) [("field", field)])
  | none => do
    Call.requireElse (p.sessionId ≠ operatorSessionId)
      (fun d => { d with db := d.db.audit .reservedSessionRegisterRejected })
      (xbusError .protocolViolation "this session id is reserved and cannot be registered"
        [("sessionId", p.sessionId)])
    let auth ← Daemon.onStore (register env mom (p.input c.id))
    Call.modify fun d => d.updateConn c.id fun c => { c with auth := some auth }
    pure (.authority auth)

/-! ## The other frames -/

/-- The frames that act under the authority of their connection. -/
inductive Request
  | registerAlias (handle : String)
  | renameSession (name : String) (ownerSecret : Option String)
  | sendMessage (input : SendInput)
  | checkpointPull (limit : Option Nat)
  | checkpointPullHook (checkpointId : Option String) (limit : Option Nat)
  | ackMessage (input : AckInput)
  | replyMessage (input : ReplyInput)
  | inbox (markInjected : Bool) (checkpointId : Option String) (limit : Option Nat)
  | redeliver (messageId : Id)
  | signalReadiness (hints : ReadinessHints)
  | setControl (mode : ReceiveControl)
  | processNext
  | blockPeer (handle : String) (unblock : Bool)
deriving DecidableEq, Repr

/-- The call a frame makes into the stores. -/
def Request.op (auth : SessionAuthority) : Request → Op
  | .registerAlias handle => .registerAlias auth handle
  | .renameSession name secret => .renameSession auth name secret
  | .sendMessage input => .send auth input
  | .checkpointPull limit => .daemonCheckpointPull auth (limit.getD 50)
  | .checkpointPullHook ck limit => .checkpointPull auth ck (limit.getD 10)
  | .ackMessage input => .ack auth input
  | .replyMessage input => .reply auth input
  | .inbox false _ limit => .peek auth (limit.getD 50)
  | .inbox true ck limit => .inboxView auth ck (limit.getD 50)
  | .redeliver mid => .redeliver auth mid
  | .signalReadiness hints => .signalReadiness auth hints
  | .setControl mode => .setControl auth mode
  | .processNext => .processNext auth none
  | .blockPeer handle unblock => .blockPeer auth handle unblock

/-- What the daemon adds to the call: the role of a sender is checked first, and a
    redelivery that found nothing is an error. -/
def onRequest (env : Env) (mom : Moment) (auth : SessionAuthority) (r : Request) :
    BrokerCall Response := do
  if r matches .sendMessage _ then assertAllowed auth.role .send
  match ← exec env mom (r.op auth) with
  | .redelivered none =>
    Call.refuse id (xbusError .messageNotFound "no such message for this session")
  | answer => pure answer

/-- A frame, other than `hello`. -/
inductive Frame
  | registerSession (p : RegisterPayload)
  | request (r : Request)
deriving DecidableEq, Repr

/-- `handle`. -/
def handle (env : Env) (mom : Moment) (c : Conn) : Frame → DaemonCall Response
  | .registerSession p => onRegister env mom c p
  | .request r => do
    let auth ← Call.orThrow c.auth
      (xbusError .sessionNotRegistered "register_session required first")
    Daemon.onStore (onRequest env mom auth r)

/-! ## The daemon as a system -/

/-- What the broker does of its own accord: the reaper's timer, the controls of the
    operator's dashboard, and the records of sessions it launches or finds. -/
inductive Upkeep
  | sweep
  | operatorSend (input : OperatorSendInput)
  | operatorRedeliver (messageId : Id) (confirmReplayAccepted : Bool)
  | operatorRenameAlias (sessionId : SessionId) (raw : String)
  | operatorSetControl (sessionId : SessionId) (mode : ReceiveControl)
  | operatorRemoveRecord (sessionId : SessionId)
  | recordManagedSession (sessionId : SessionId)
  | importDormantSession (sessionId : SessionId)
deriving DecidableEq, Repr

def Upkeep.op : Upkeep → Op
  | .sweep => .sweep
  | .operatorSend input => .operatorSend input
  | .operatorRedeliver mid confirm => .operatorRedeliver mid confirm
  | .operatorRenameAlias sid raw => .operatorRenameAlias sid raw
  | .operatorSetControl sid mode => .operatorSetControl sid mode
  | .operatorRemoveRecord sid => .operatorRemoveRecord sid
  | .recordManagedSession sid => .recordManagedSession sid
  | .importDormantSession sid => .importDormantSession sid

/-- What can happen to a daemon. -/
inductive Signal
  | accept (pid : Int)
  | hello (conn : ConnId) (verdict : Daemon.HelloVerdict)
  | frame (conn : ConnId) (f : Frame)
  | close (conn : ConnId)
  | upkeep (u : Upkeep)
  /-- The process dies, closing nothing, and another one starts. -/
  | restart
deriving DecidableEq, Repr

/-- A signal, and what the outside answers while it is handled. -/
abbrev DaemonEvent := Signal × Moment

namespace Daemon

/-- One step of the daemon. What concerns a connection that is not open is dropped. -/
def step (env : Env) (d : Daemon) (e : DaemonEvent) : Except Failure Response × Daemon :=
  match e.1 with
  | .accept pid => (.ok .done, d.accept pid)
  | .hello id verdict =>
    match d.conn? id with
    | some c => onHello c verdict d
    | none => (.ok .done, d)
  | .frame id f =>
    match d.conn? id with
    | some c => handle env e.2 c f d
    | none => (.ok .done, d)
  | .close id =>
    match d.conn? id with
    | some c => (.ok .done, d.close c)
    | none => (.ok .done, d)
  | .upkeep u => onStore (exec env e.2 u.op) d
  | .restart => (.ok .done, d.restart env)

/-- The first broker process on a fresh database. -/
def initial (env : Env) : Daemon := { db := XBus.initial env }

end Daemon

/-- In a concrete run, a client connects as the given connection, says hello and registers,
    reporting its own process. -/
def arrives (conn : ConnId) (p : RegisterPayload) : List DaemonEvent :=
  [ (.accept p.processId, { nowMs := 1000 }), (.hello conn .ok, { nowMs := 1000 }),
    (.frame conn (.registerSession p), { nowMs := 1000 }) ]

end XBus
