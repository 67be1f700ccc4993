import XBus.Daemon
import XBus.IpcServer

/-!
# Answers to pulls

`reply` of `broker/daemon.ts` and `makeFrame` of `protocol/commands.ts`: what a pull has
committed, as the JSON of a frame, given to `send` of the connection the request came in on.

The stores hold ids and times as numbers; `Rendering` is how they are written. Of an id it is
known that it is a UUID. The server goes on between two events of the daemon (handshakes, other
connections, timers), so each event comes with the server its answer meets.
-/

set_option autoImplicit false

namespace XBus

open Lib

/-! ## Payloads as JSON -/

namespace JsonValue

variable {ν : Type} [JsNumber ν]

mutual

/-- The value `JSON.stringify` is given. A key that is set twice keeps its first place. -/
def encode : JsonValue → Json ν
  | .null => .null
  | .bool b => .bool b
  | .int n => .num (JsNumber.ofText (intText n))
  | .fraction text => .num (JsNumber.ofText text.toList)
  | .str s => .str (utf16 s)
  | .half u => .str [u]
  | .arr items => .arr (encodeItems items)
  | .obj members => .obj (Json.setMembers (encodeMembers members))

def encodeItems : List JsonValue → List (Json ν)
  | [] => []
  | v :: vs => encode v :: encodeItems vs

def encodeMembers : List (String × JsonValue) → List (JsString × Json ν)
  | [] => []
  | (k, v) :: ms => (utf16 k, encode v) :: encodeMembers ms

end

mutual

theorem encode_distinct : ∀ v : JsonValue, (encode v : Json ν).Distinct
  | .null | .bool _ | .int _ | .fraction _ | .str _ | .half _ => trivial
  | .arr items => encodeItems_distinct items
  | .obj members => Json.setMembers_distinct (encodeMembers_distinct members)

theorem encodeItems_distinct : ∀ vs : List JsonValue,
    Json.DistinctItems (encodeItems vs : List (Json ν))
  | [] => trivial
  | v :: vs => ⟨encode_distinct v, encodeItems_distinct vs⟩

theorem encodeMembers_distinct : ∀ ms : List (String × JsonValue),
    Json.DistinctMembers (encodeMembers ms : List (JsString × Json ν))
  | [] => trivial
  | (_, v) :: ms => ⟨encode_distinct v, encodeMembers_distinct ms⟩

end

end JsonValue

/-- How ids and times are written. -/
structure Rendering where
  idText : Id → String
  isoText : Iso → String
  /-- Ids are version 7 UUIDs (`shared/clock.ts`): 36 hexadecimal digits and hyphens. -/
  idText_length : ∀ id, (idText id).toList.length = 36
  idText_plain : ∀ id, ∀ c ∈ (idText id).toList, isPlain c

def MessageKind.text : MessageKind → String
  | .request => "request"
  | .event => "event"
  | .reply => "reply"
  | .cancel => "cancel"
  | .system => "system"

def InboxEntryState.text : InboxEntryState → String
  | .queuedNotInjected => "queued_not_injected"
  | .contextInjectedUnacknowledged => "context_injected_unacknowledged"
  | .applicationAccepted => "application_accepted"

def InboxAction.text : InboxAction → String
  | .ack => "ack"
  | .reject => "reject"
  | .reply => "reply"
  | .requestExplicitRedelivery => "request-explicit-redelivery"

namespace Rendering

variable (rn : Rendering)

def id (i : Id) : JsonValue := .str (rn.idText i)

def iso (t : Iso) : JsonValue := .str (rn.isoText t)

/-- A field that may be `null`. -/
def orNull {α : Type} (f : α → JsonValue) (x : Option α) : JsonValue := (x.map f).getD .null

/-- Metadata as a pull returns it, with the id of the injection under its key. -/
def injectedMetadata (metadata : Option Metadata) : Option Id → JsonValue
  | none => metadata.getD .null
  | some i => .obj ((metadata.getD (.obj [])).spread ++ [(injectionMetadataKey, rn.id i)])

/-- A `PendingMessage`. -/
def pendingMessage (m : PendingMessage) : JsonValue :=
  .obj [("messageId", rn.id m.messageId), ("senderAlias", .str m.senderAlias),
    ("recipientAlias", .str m.recipientAlias), ("kind", .str m.kind.text),
    ("correlationId", rn.id m.correlationId), ("causationId", orNull rn.id m.causationId),
    ("sequence", .int m.sequence), ("requiresAck", .bool m.requiresAck),
    ("requiresReply", .bool m.requiresReply), ("text", .str m.text),
    ("metadata", rn.injectedMetadata m.metadata m.injectionId),
    ("createdAt", rn.iso m.createdAt), ("expiresAt", orNull rn.iso m.expiresAt)]

/-- The metadata of an entry: a body presented for the first time comes from a pull, a
    redelivered one straight from its row. -/
def entryMetadata (e : InboxEntry) : JsonValue :=
  if e.state = .queuedNotInjected then rn.injectedMetadata e.metadata e.injectionId
  else e.metadata.getD .null

/-- The two fields only an entry with its body has. -/
def entryBody (e : InboxEntry) : List (String × JsonValue) :=
  match e.text with
  | none => []
  | some text => [("text", .str text), ("metadata", rn.entryMetadata e)]

/-- An `InboxEntry`. -/
def inboxEntry (e : InboxEntry) : JsonValue :=
  .obj ([("messageId", rn.id e.messageId), ("injectionId", orNull rn.id e.injectionId),
    ("senderAlias", .str e.senderAlias), ("recipientAlias", .str e.recipientAlias),
    ("kind", .str e.kind.text), ("correlationId", rn.id e.correlationId),
    ("causationId", orNull rn.id e.causationId), ("sequence", .int e.sequence),
    ("requiresAck", .bool e.requiresAck), ("requiresReply", .bool e.requiresReply),
    ("state", .str e.state.text), ("bodyAlreadyPresented", .bool e.bodyAlreadyPresented),
    ("bodyIncluded", .bool e.bodyIncluded)] ++ rn.entryBody e ++
    [("createdAt", rn.iso e.createdAt), ("expiresAt", orNull rn.iso e.expiresAt),
    ("allowedActions", .arr (e.allowedActions.map fun a => .str a.text))])

/-- The payload a pull's handler replies with; `none` for what no pull answers. -/
def payload : Response → Option JsonValue
  | .bodies ms => some (.obj [("messages", .arr (ms.map rn.pendingMessage))])
  | .inbox es => some (.obj [("messages", .arr (es.map rn.inboxEntry))])
  | .listed ms =>
    some (.obj [("messages", .arr (ms.map fun m => rn.pendingMessage (rowToPending m)))])
  | .redelivered (some e) => some (.obj [("entry", rn.inboxEntry e),
      ("warning", .str "the receiving model may process this request twice")])
  | _ => none

end Rendering

/-! ## Frames -/

/-- The type of the frame a pull is answered with. -/
def Request.ackType : Request → Option String
  | .checkpointPull _ => some "checkpoint_pull_ack"
  | .checkpointPullHook _ _ => some "checkpoint_pull_hook_ack"
  | .processNext => some "process_next_ack"
  | .inbox _ _ _ => some "inbox_ack"
  | .redeliver _ => some "redeliver_ack"
  | _ => none

section Frames

variable (ν : Type) [JsNumber ν] (rn : Rendering)

/-- `makeFrame`. The id of a request is whatever its frame had there. -/
def makeFrame (frameType : String) (payload : JsonValue) (requestId : Option JsonValue)
    (now : Iso) : Value ν :=
  let fields : JsonValue := .obj ([("protocolVersion", .int 1), ("frameType", .str frameType),
    ("timestamp", rn.iso now), ("payload", payload)] ++
    requestId.toList.map fun id => ("requestId", id))
  ⟨fields.encode, fields.encode_distinct⟩

/-- The frame that answers a pull. -/
def responseFrame (r : Request) (response : Response) (requestId : Option JsonValue) (now : Iso) :
    Option (Value ν) :=
  match r.ackType, rn.payload response with
  | some frameType, some payload => some (makeFrame ν rn frameType payload requestId now)
  | _, _ => none

end Frames

/-! ## Replying -/

/-- An event of the daemon, with the id of the request, if it is one that has any, and the server
    as the answer finds it. -/
structure Arrival (ν : Type) where
  event : DaemonEvent
  requestId : Option JsonValue := none
  server : IpcServer ν

/-- The messages whose text is in a response. -/
def Response.bodyIds : Response → List Id
  | .bodies ms => ms.map (·.messageId)
  | .inbox es => (es.filter (·.bodyIncluded)).map (·.messageId)
  | .listed ms => ms.map (·.messageId)
  | .redelivered (some e) => [e.messageId]
  | _ => []

variable {ν : Type} [JsNumber ν]

/-- `reply`, of a pull that answered: the server once the frame was given to `send`. -/
def replied (rn : Rendering) (senv : ServerEnv ν) (a : Arrival ν)
    (answer : Except Failure Response) : IpcServer ν :=
  match a.event.1, answer with
  | .frame conn (.request r), .ok response =>
    match responseFrame ν rn r response a.requestId a.event.2.now with
    | some frame => IpcServer.send senv conn frame a.server
    | none => a.server
  | _, _ => a.server

/-- The bodies that reached a socket with the answer. -/
def written (rn : Rendering) (senv : ServerEnv ν) (a : Arrival ν)
    (answer : Except Failure Response) : List Id :=
  match answer with
  | .ok response =>
    if a.server.trace.length < (replied rn senv a answer).trace.length then response.bodyIds
    else []
  | .error _ => []

/-- A step of the daemon, and the record of the bodies that were written. -/
def replyingStep (env : Env) (rn : Rendering) (senv : ServerEnv ν) :
    Daemon × List Id → Arrival ν → Except Failure Response × (Daemon × List Id) :=
  recording (fun d a => Daemon.step env d a.event)
    fun sofar _ a answer _ => sofar ++ written rn senv a answer

end XBus
