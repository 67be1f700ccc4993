import XBus.Daemon
import XBus.Schemas

/-!
# Frames as they come in

The daemon's two handlers that persist what a peer wrote, from the payload on: `onSend`, which
hands it to the validator, and `onReply`, which reads the fields of it itself. Every other
signal is one of `Daemon`, where the payload has been read already.

An id in a payload is text. `idOf` says which id of the database the text is; a text that is
none of them is read as an id that is not in use.
-/

set_option autoImplicit false

namespace XBus

open Lib

/-- `onSend`. -/
def onSend (env : Env) (mom : Moment) (c : Conn) (payload : JsonValue) :
    DaemonCall Response := do
  let auth ← Call.orThrow c.auth
    (xbusError .sessionNotRegistered "register_session required first")
  Daemon.onStore do
    assertAllowed auth.role .send
    let input ← Call.lift (validateSendInput env.text payload)
    exec env mom (.send auth input)

private def violation (message : String) (detail : List (String × String) := []) : Failure :=
  xbusError .protocolViolation message detail

/-- `optString`. -/
def optString (payload : JsonValue) (field : String) : Except Failure (Option String) :=
  match payload.field? field with
  | none => .ok none
  | some (.str s) => .ok (some s)
  | some _ => .error (violation (field ++ " must be a string when present") [("field", field)])

/-- The outcome a reply names. -/
def outcomeOf : Option JsonValue → Option ReceiptStatus
  | some (.str s) =>
    if s = "completed" then some .completed
    else if s = "failed" then some .failed
    else if s = "partial" then some .partially
    else none
  | _ => none

/-- What `onReply` reads out of a payload. The metadata is taken as it comes. -/
def readReply (idOf : String → Id) (payload : JsonValue) : Except Failure ReplyInput :=
  match payload.field? "messageId", payload.field? "text", outcomeOf (payload.field? "outcome") with
  | some (.str messageId), some (.str text), some outcome =>
    if messageId = "" then .error (violation "reply requires a messageId")
    else do
      let idempotencyKey ← optString payload "idempotencyKey"
      let injectionId ← optString payload "injectionId"
      pure { messageId := idOf messageId, text, outcome, idempotencyKey
             metadata := payload.field? "metadata", injectionId := injectionId.map idOf }
  | some (.str messageId), some (.str _), none =>
    if messageId = "" then .error (violation "reply requires a messageId")
    else .error (violation "reply requires outcome 'completed' | 'failed' | 'partial'")
  | some (.str messageId), _, _ =>
    if messageId = "" then .error (violation "reply requires a messageId")
    else .error (violation "reply requires text")
  | _, _, _ => .error (violation "reply requires a messageId")

/-- `onReply`. -/
def onReply (env : Env) (idOf : String → Id) (mom : Moment) (c : Conn) (payload : JsonValue) :
    DaemonCall Response := do
  let auth ← Call.orThrow c.auth
    (xbusError .sessionNotRegistered "register_session required first")
  let input ← Call.lift (readReply idOf payload)
  Daemon.onStore (exec env mom (.reply auth input))

/-! ## The daemon over raw content -/

/-- The signals that carry what a peer wrote. -/
def Signal.carriesContent : Signal → Bool
  | .frame _ (.request (.sendMessage _)) | .frame _ (.request (.replyMessage _)) => true
  | _ => false

/-- What can happen to a daemon, with the content of messages as it comes in. -/
inductive RawSignal
  | sendMessage (conn : ConnId) (payload : JsonValue)
  | replyMessage (conn : ConnId) (payload : JsonValue)
  | other (s : Signal) (h : s.carriesContent = false)

/-- A raw signal, and what the outside answers while it is handled. -/
abbrev RawEvent := RawSignal × Moment

/-- One step of the daemon over raw content. -/
def Daemon.rawStep (env : Env) (idOf : String → Id) (d : Daemon) (e : RawEvent) :
    Except Failure Response × Daemon :=
  match e.1 with
  | .sendMessage id payload =>
    match d.conn? id with
    | some c => onSend env e.2 c payload d
    | none => (.ok .done, d)
  | .replyMessage id payload =>
    match d.conn? id with
    | some c => onReply env idOf e.2 c payload d
    | none => (.ok .done, d)
  | .other s _ => d.step env (s, e.2)

end XBus
