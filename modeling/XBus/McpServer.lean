import XBus.Daemon

/-!
# The MCP server and its retry

`toolCall` of `channel/mcp-server.ts` over `IpcClient` of `ipc/client.ts`, for the tool
`xbus_send`: a call makes sure of a broker, writes one `send_message` request and waits for its
answer; when that fails the way a lost broker fails, it reconnects and does both once more. Calls
overlap freely (`void this.handle(req)`).

The MCP server, the connections and the broker are parties that only exchange messages. A
request that was written may reach the broker at any later time or never, and so may an answer
reach the client; a wait ends with an answer, with the client's timer, or with the socket.

Whether `connected` spares a call the reconnection decides only which connection it finds, and
any connection may be attached before a request is written, so the flag is not kept. Request
numbers are counted over all clients here, where each client counts its own and looks only at
its own. The frames of the connections themselves (`hello`, `register_session`,
`signal_readiness`), the other tools and everybody else are steps of the broker.
-/

set_option autoImplicit false

namespace XBus

open Lib

/-! ## One tool call -/

/-- What a tool call is waiting for. -/
inductive ToolStage
  /-- `await this.ensureBroker()`. -/
  | ensuring
  /-- `await this.client.request('send_message', args)`, on the connection it was written to. -/
  | awaiting (ref : Nat) (conn : ConnId)
  /-- Nothing: its result, or its error, is written. -/
  | settled (isError : Bool)
deriving DecidableEq, Repr

/-- A tool call `xbus_send`. -/
structure ToolCall where
  /-- `args`, the same in both attempts. -/
  input : SendInput
  /-- The first attempt has failed. -/
  retrying : Bool := false
  stage : ToolStage := .ensuring
deriving DecidableEq, Repr

namespace ToolCall

/-- An attempt throws: the `catch` of the first one, or of the whole call. -/
def throws (c : ToolCall) (transient : Bool) : ToolCall :=
  if c.retrying = false ∧ transient = true then { c with retrying := true, stage := .ensuring }
  else { c with stage := .settled true }

/-- `pending.has(requestId)`, for the request of this call. -/
def awaits (c : ToolCall) (ref : Nat) : Bool :=
  match c.stage with
  | .awaiting r _ => r = ref
  | _ => false

/-- The call waits for an answer on this connection. -/
def awaitsOn (c : ToolCall) (conn : ConnId) : Bool :=
  match c.stage with
  | .awaiting _ n => n = conn
  | _ => false

end ToolCall

/-- `/not connected|connection closed|timed out|ECONNRESET|EPIPE/i.test(msg)`. -/
def transientText (msg : String) : Bool :=
  ["not connected", "connection closed", "timed out", "econnreset", "epipe"].any fun p =>
    (msg.toList.map Char.toLower).tails.any fun rest => p.toList.isPrefixOf rest

/-- `transient`, of an error the broker answers. No modelled call answers
    `XBUS_BROKER_UNAVAILABLE`, and no code contains one of the texts. What is not an `XBusError`
    arrives as an internal error. -/
def Failure.transient : Failure → Bool
  | .xbus e => transientText e.message
  | _ => false

/-- What an answer makes of the call that waits for it. -/
def ToolCall.answered (c : ToolCall) : Except Failure Response → ToolCall
  | .ok _ => { c with stage := .settled false }
  | .error e => c.throws e.transient

/-! ## The parties -/

/-- A request on its way to the broker. -/
structure SentRequest where
  ref : Nat
  /-- The tool call that wrote it. The wire does not say. -/
  call : Nat
  conn : ConnId
  input : SendInput
deriving DecidableEq, Repr

/-- The frame a request is. -/
def SentRequest.signal (q : SentRequest) : Signal :=
  .frame q.conn (.request (.sendMessage q.input))

/-- The MCP server, what is on the wire, and the broker. -/
structure McpSystem where
  daemon : Daemon
  /-- The connection of `this.client`. -/
  client : Option ConnId := none
  calls : List ToolCall := []
  requests : List SentRequest := []
  /-- The answers on their way back, by request. -/
  answers : List (Nat × Except Failure Response) := []
  /-- The requests written so far. -/
  reqSeq : Nat := 0
  /-- A record of the `messages` rows that the requests of each tool call created. -/
  created : List (Nat × Id) := []
deriving Repr

/-- What can happen. -/
inductive McpEvent
  /-- A `tools/call` of `xbus_send` comes in. -/
  | toolCall (input : SendInput)
  /-- `ensureBroker` has a fresh client, connected as this connection. -/
  | attach (conn : ConnId)
  /-- `ensureBroker` throws, inside the given call. -/
  | ensureThrows (call : Nat) (transient : Bool)
  /-- `ensureBroker` returns, and the given call writes its request. -/
  | dispatch (call : Nat)
  /-- The broker handles a request. -/
  | deliver (ref : Nat) (mom : Moment)
  /-- A request never arrives. -/
  | loseRequest (ref : Nat)
  /-- The client reads an answer. -/
  | answer (ref : Nat)
  /-- An answer never arrives. -/
  | loseAnswer (ref : Nat)
  /-- The timer of a request. -/
  | timeout (ref : Nat)
  /-- The client's end of a connection closes. -/
  | closed (conn : ConnId)
  /-- Anything else that happens to the broker. -/
  | broker (e : DaemonEvent)

namespace McpSystem

/-- What the broker has not read from a connection is lost when its end closes. -/
def unread (requests : List SentRequest) : Signal → List SentRequest
  | .close conn => requests.filter fun q => q.conn ≠ conn
  | .restart => []
  | _ => requests

/-- The rows of a table that it did not have before. -/
def newRows (before after : Broker) : List Message :=
  after.messages.filter fun m => m ∉ before.messages

/-- The broker handles a request, and answers if the connection is open. -/
def handled (env : Env) (s : McpSystem) (q : SentRequest) (mom : Moment) : McpSystem :=
  let r := s.daemon.step env (q.signal, mom)
  { s with
    daemon := r.2
    requests := s.requests.erase q
    answers := if (s.daemon.conn? q.conn).isSome then s.answers ++ [(q.ref, r.1)] else s.answers
    created := s.created ++ (newRows s.daemon.db r.2.db).map fun m => (q.call, m.messageId) }

/-- The given call writes its request on the current client, or finds none. -/
def dispatched (s : McpSystem) (i : Nat) (c : ToolCall) : McpSystem :=
  match s.client with
  | none => { s with calls := s.calls.modify i fun c => c.throws true }
  | some conn =>
    { s with
      calls := s.calls.modify i fun c => { c with stage := .awaiting (s.reqSeq + 1) conn }
      requests := s.requests ++ [{ ref := s.reqSeq + 1, call := i, conn, input := c.input }]
      reqSeq := s.reqSeq + 1 }

/-- One step. -/
def step (env : Env) (s : McpSystem) : McpEvent → Unit × McpSystem
  | .toolCall input => ((), { s with calls := s.calls ++ [{ input }] })
  | .attach conn => ((), { s with client := some conn })
  | .ensureThrows i transient => ((), { s with
      calls := s.calls.modify i fun c =>
        if c.stage = .ensuring then c.throws transient else c })
  | .dispatch i =>
    match s.calls[i]? with
    | some c => ((), if c.stage = .ensuring then s.dispatched i c else s)
    | none => ((), s)
  | .deliver ref mom =>
    match s.requests.find? fun q => q.ref = ref with
    | some q => ((), s.handled env q mom)
    | none => ((), s)
  | .loseRequest ref => ((), { s with requests := s.requests.filter fun q => q.ref ≠ ref })
  | .answer ref =>
    match s.answers.find? fun a => a.1 = ref with
    | some a => ((), { s with
        answers := s.answers.filter fun a => a.1 ≠ ref
        calls := s.calls.map fun c => if c.awaits ref then c.answered a.2 else c })
    | none => ((), s)
  | .loseAnswer ref => ((), { s with answers := s.answers.filter fun a => a.1 ≠ ref })
  | .timeout ref => ((), { s with
      calls := s.calls.map fun c => if c.awaits ref then c.throws true else c })
  | .closed conn => ((), { s with
      calls := s.calls.map fun c => if c.awaitsOn conn then c.throws true else c })
  | .broker e => ((), { s with
      daemon := (s.daemon.step env e).2, requests := unread s.requests e.1 })

/-- A broker on a fresh database, and an MCP server that has not been asked anything. -/
def initial (env : Env) : McpSystem := { daemon := Daemon.initial env }

/-- The requests of a call that are still under way. -/
def underWay (s : McpSystem) (i : Nat) : Nat := s.requests.countP fun q => q.call = i

/-- The `messages` rows that the requests of a call created. -/
def rowsMade (s : McpSystem) (i : Nat) : Nat := s.created.countP fun r => r.1 = i

end McpSystem

end XBus
