import XBus.Framing
import XBus.SecureChannel

/-!
# The IPC server (`ipc/server.ts`)

Connections, each with its decoder and its half of the secure transport; chunks of bytes in, frames
for the daemon's handler out. What the server does to the outside world is kept in `trace`: frames
handed to `onFrame`, buffers written to sockets, connections closed.

The daemon's handler is a parameter: what it does with a frame (send, close, throw) is given by
`ServerEnv.onFrame`. So is `Buffer.from` of a value that is no string (`coerce`), which an attacker
may put where a sealed buffer is expected.
-/

set_option autoImplicit false

namespace XBus

open Lib

variable {ν : Type}

/-! ## JSON values as the server looks at them -/

/-- A property of an object; anything else has none. -/
def member? (j : Json ν) (key : String) : Option (Json ν) :=
  match j with
  | .obj ms => (ms.find? (·.1 = utf16 key)).map (·.2)
  | _ => none

def stringMember? (j : Json ν) (key : String) : Option JsString :=
  match member? j key with
  | some (.str s) => some s
  | _ => none

/-- The text of a string, code unit by code unit: all that base64 looks at. -/
def latin (s : JsString) : List Char := s.map fun u => Char.ofNat u.toNat

/-- `Buffer.from(s, 'base64')`. -/
def bufferFromBase64 (s : JsString) : Bytes := ofBase64 (latin s)

def stringJson (s : List Char) : Json ν := .str (s.flatMap units)

/-- `{ d: buf.toString('base64') }` -/
def wrapped (buf : Bytes) : Value ν :=
  ⟨.obj [(utf16 "d", stringJson (base64 buf))], by
    simp [Json.Distinct, Json.DistinctMembers, stringJson]⟩

/-- `{ h: 'sh', d: … }` -/
def serverHelloJson (buf : Bytes) : Value ν :=
  ⟨.obj [(utf16 "h", stringJson "sh".toList), (utf16 "d", stringJson (base64 buf))],
    by simp [Json.Distinct, Json.DistinctMembers, stringJson]; decide⟩

/-! ## Writing a frame -/

/-- What a write attempt throws. -/
inductive WriteFault
  | channel (e : ChannelError)
  | framing (e : Failure)
deriving DecidableEq

variable [JsNumber ν]

/-- Seal, wrap, encode: the body of `send` and of the client's `writeFrame` on a secure
    connection. -/
def secureWrite (aead : Aead) (frame : Value ν) : Call SecureSession WriteFault Bytes := fun s =>
  match SecureSession.sealFrame aead frame.stringify s with
  | (.error e, s) => (.error (.channel e), s)
  | (.ok buf, s) =>
    match encodeFrame (wrapped buf : Value ν) with
    | .ok bytes => (.ok bytes, s)
    | .error e => (.error (.framing e), s)

/-! ## The server -/

/-- What the daemon's handler does with a frame, in order. -/
inductive HandlerAct (ν : Type)
  | sends (frame : Value ν)
  | closes
  | throws

/-- What the server is configured with, and the code it runs that is not its own. -/
structure ServerEnv (ν : Type) where
  crypto : Crypto
  aead : Aead
  decrypt : Decrypt
  rootSecret : Option Bytes
  brokerInstanceId : String := "broker"
  maxConnections : Nat := 64
  connectRatePerSec : Nat := 50
  globalBudget : Nat := 16 * 1024 * 1024
  /-- The daemon's `onFrame`. -/
  onFrame : ConnId → Value ν → List (HandlerAct ν)
  /-- `Buffer.from` of a property that is no string; `none` where it throws. -/
  coerce : Option (Json ν) → Option Bytes
  /-- `randomBytes(32)`, the n-th time it is called. -/
  randomNonce : Nat → Bytes
  /-- The number 1. -/
  one : ν

/-- One entry of `conns`. -/
structure ConnEntry where
  decoder : FrameDecoder := {}
  secure : Option SecureSession := none
  pendingTh : Option Bytes := none
  pendingKeys : Option DerivedKeys := none
  connIdForSession : Option Bytes := none
deriving DecidableEq

/-- What the outside world sees of the server. -/
inductive Effect (ν : Type)
  | handed (conn : ConnId) (frame : Value ν)
  /-- `metrics.onHandshakeOk`: a session of these keys was made for the connection. -/
  | secured (conn : ConnId) (keys : DerivedKeys) (connId : Bytes)
  | wrote (conn : ConnId) (bytes : Bytes)
  | closed (conn : ConnId)

structure IpcServer (ν : Type) where
  conns : List (ConnId × ConnEntry) := []
  totalBuffered : Int := 0
  seq : Nat := 0
  connectTimestamps : List Nat := []
  /-- How many nonces were drawn. -/
  drawn : Nat := 0
  /-- `new Date().toISOString()` while the present event is handled. -/
  nowIso : String := ""
  trace : List (Effect ν) := []

namespace IpcServer

variable (env : ServerEnv ν)

/-- `conns.get(id)` -/
def conn? (s : IpcServer ν) (id : ConnId) : Option ConnEntry :=
  (s.conns.find? (·.1 = id)).map (·.2)

/-- Writes to the entry's fields. -/
def updateEntry (id : ConnId) (f : ConnEntry → ConnEntry) (s : IpcServer ν) : IpcServer ν :=
  { s with conns := s.conns.map fun c => if c.1 = id then (c.1, f c.2) else c }

def emit (e : Effect ν) (s : IpcServer ν) : IpcServer ν := { s with trace := s.trace ++ [e] }

/-- `closeConn`. The count of buffered bytes does not go below zero. -/
def closeConn (id : ConnId) (s : IpcServer ν) : IpcServer ν :=
  match s.conn? id with
  | none => s
  | some c =>
    emit (.closed id)
      { s with totalBuffered := max 0 (s.totalBuffered - c.decoder.bufferedBytes)
               conns := s.conns.filter fun c => c.1 ≠ id }

/-- `makeServerConn(id).send`. A failed write is only logged; a seal that went before it stands. -/
def send (id : ConnId) (frame : Value ν) (s : IpcServer ν) : IpcServer ν :=
  match s.conn? id with
  | none => s
  | some c =>
    match c.secure with
    | some session =>
      let (written, session) := secureWrite env.aead frame session
      let s := updateEntry id (fun c => { c with secure := some session }) s
      match written with
      | .ok bytes => emit (.wrote id bytes) s
      | .error _ => s
    | none =>
      match encodeFrame frame with
      | .ok bytes => emit (.wrote id bytes) s
      | .error _ => s

/-- What the handler does, and whether it threw. -/
def act (id : ConnId) : List (HandlerAct ν) → IpcServer ν → Bool × IpcServer ν
  | [], s => (false, s)
  | .sends frame :: acts, s => act id acts (send env id frame s)
  | .closes :: acts, s => act id acts (closeConn id s)
  | .throws :: _, s => (true, s)

def errorFrame (code message nowIso : String) : Value ν :=
  ⟨.obj [(utf16 "protocolVersion", .num env.one), (utf16 "frameType", .str (utf16 "error")),
      (utf16 "timestamp", .str (utf16 nowIso)),
      (utf16 "payload", .obj [(utf16 "code", .str (utf16 code)),
        (utf16 "message", .str (utf16 message))])], by
    have hkeys : [utf16 "protocolVersion", utf16 "frameType", utf16 "timestamp",
      utf16 "payload"].Nodup ∧ [utf16 "code", utf16 "message"].Nodup := by decide
    simpa [Json.Distinct, Json.DistinctMembers] using hkeys⟩

/-- The frame is handed on, or answered with an error if it has no `frameType`; whether the handler
    threw. -/
def deliverFrame (id : ConnId) (frame : Value ν) (s : IpcServer ν) : Bool × IpcServer ν :=
  match stringMember? frame.json "frameType" with
  | none =>
    (false, send env id (errorFrame env "XBUS_PROTOCOL_VIOLATION" "malformed frame" s.nowIso) s)
  | some _ => act env id (env.onFrame id frame) (emit (.handed id frame) s)

/-- `serverHandshake` draws the nonce once the suites are found to have one in common. -/
def onClientHello (root : Bytes) (id : ConnId) (b64 : JsString) (s : IpcServer ν) : IpcServer ν :=
  match parseClientHello (bufferFromBase64 b64) with
  | .error _ => closeConn id s
  | .ok hello =>
    match serverHandshake env.crypto root env.brokerInstanceId hello (env.randomNonce s.drawn) with
    | .error _ => closeConn id s
    | .ok srv =>
      let s := updateEntry id (fun c =>
        { c with pendingTh := some srv.th, pendingKeys := some srv.keys
                 connIdForSession := some hello.connId }) { s with drawn := s.drawn + 1 }
      match encodeFrame (serverHelloJson srv.serverHelloBytes : Value ν) with
      | .ok bytes => emit (.wrote id bytes) s
      | .error _ => closeConn id s

def onClientFinish (id : ConnId) (b64 : JsString) (s : IpcServer ν) : IpcServer ν :=
  match s.conn? id with
  | none => s
  | some c =>
    match c.pendingTh, c.pendingKeys with
    | some th, some keys =>
      match serverVerifyFinish env.crypto keys th (bufferFromBase64 b64) with
      | .error _ => closeConn id s
      | .ok () =>
        emit (.secured id keys (c.connIdForSession.getD [])) (updateEntry id (fun c =>
          { c with secure := some (.new keys (c.connIdForSession.getD []) .server)
                   pendingTh := none, pendingKeys := none }) s)
    | _, _ => closeConn id s

/-- The sealed buffer of a payload on an established connection; `none` where taking it out
    throws. -/
def sealedBuffer (payload : Json ν) : Option Bytes :=
  match payload with
  | .null => none
  | payload =>
    match member? payload "d" with
    | some (.str d) => some (bufferFromBase64 d)
    | d => env.coerce d

/-- An established connection: open, parse, deliver; anything that throws closes it. -/
def onSealed (id : ConnId) (session : SecureSession) (payload : Value ν) (s : IpcServer ν) :
    IpcServer ν :=
  match sealedBuffer env payload.json with
  | none => closeConn id s
  | some buf =>
    match SecureSession.openFrame env.decrypt buf session with
    | (.error _, _) => closeConn id s
    | (.ok pt, session) =>
      let s := updateEntry id (fun c => { c with secure := some session }) s
      match (Value.parse pt : Option (Value ν)) with
      | none => closeConn id s
      | some frame =>
        let (threw, s) := deliverFrame env id frame s
        if threw then closeConn id s else s

/-- Before the channel is established: the two handshake messages, and nothing else. -/
def onHandshake (root : Bytes) (id : ConnId) (payload : Value ν) (s : IpcServer ν) : IpcServer ν :=
  match stringMember? payload.json "h", stringMember? payload.json "d" with
  | some h, some d =>
    if h = utf16 "ch" then onClientHello env root id d s
    else if h = utf16 "cf" then onClientFinish env id d s
    else closeConn id s
  | _, _ => closeConn id s

/-- Whether an exception leaves `dispatch`: without a root secret the handler's own. -/
def dispatch (id : ConnId) (payload : Value ν) (s : IpcServer ν) : Bool × IpcServer ν :=
  match s.conn? id with
  | none => (false, s)
  | some c =>
    match env.rootSecret with
    | none => deliverFrame env id payload s
    | some root =>
      match c.secure with
      | none => (false, onHandshake env root id payload s)
      | some session => (false, onSealed env id session payload s)

def dispatchAll (id : ConnId) : List (Value ν) → IpcServer ν → Bool × IpcServer ν
  | [], s => (false, s)
  | payload :: payloads, s =>
    match dispatch env id payload s with
    | (true, s) => (true, s)
    | (false, s) => dispatchAll id payloads s

/-- The decoder is an object of its own: it goes on when its connection is gone from `conns`. -/
def setDecoder (id : ConnId) (d : FrameDecoder) (s : IpcServer ν) : IpcServer ν :=
  updateEntry id (fun c => { c with decoder := d }) s

/-- The loop of the data handler; whether it ended in an exception. -/
def drainConn (id : ConnId) : Nat → DecodeResult ν → FrameDecoder → IpcServer ν →
    Bool × IpcServer ν
  | 0, r, _, s => dispatchAll env id r.frames s
  | turns + 1, r, d, s =>
    match dispatchAll env id r.frames s with
    | (true, s) => (true, s)
    | (false, s) =>
      if r.hasMore then
        match FrameDecoder.continueDrain d with
        | (.error _, d) => (true, setDecoder id d s)
        | (.ok r, d) => drainConn id turns r d (setDecoder id d s)
      else (false, s)

/-- `socket.on('data')`. -/
def onData (id : ConnId) (chunk : Bytes) (s : IpcServer ν) : IpcServer ν :=
  match s.conn? id with
  | none => s
  | some c =>
    match FrameDecoder.push chunk c.decoder with
    | (.error _, d) => closeConn id (setDecoder id d s)
    | (.ok r, d) =>
      let total := s.totalBuffered + d.bufferedBytes - c.decoder.bufferedBytes
      let s := { setDecoder id d s with totalBuffered := total }
      if total > env.globalBudget then closeConn id s
      else
        match drainConn env id d.buf.length r d s with
        | (true, s) => closeConn id s
        | (false, s) => s

/-- `accept`, with the connection limit and the connect-rate window. -/
def accept (nowMs : Nat) (s : IpcServer ν) : IpcServer ν :=
  if s.conns.length ≥ env.maxConnections then s
  else
    let recent := s.connectTimestamps.filter fun t => nowMs - t < 1000
    if recent.length ≥ env.connectRatePerSec then { s with connectTimestamps := recent }
    else
      { s with connectTimestamps := recent ++ [nowMs], seq := s.seq + 1
               conns := s.conns ++ [(s.seq + 1, {})] }

/-- What happens to the server. -/
inductive Event (ν : Type)
  | accept (nowMs : Nat)
  | data (conn : ConnId) (chunk : Bytes)
  /-- The handshake timer: it closes a connection that is not yet secure. -/
  | handshakeTimeout (conn : ConnId)
  /-- The idle timer, the peer closing, or the daemon closing it. -/
  | close (conn : ConnId)
  /-- The daemon sends on its own account. -/
  | send (conn : ConnId) (frame : Value ν)

/-- The secure session of a connection, if it has one. -/
def secure? (s : IpcServer ν) (id : ConnId) : Option SecureSession :=
  (s.conn? id).bind (·.secure)

def step (s : IpcServer ν) (nowIso : String) : Event ν → IpcServer ν
  | .accept nowMs => accept env nowMs { s with nowIso }
  | .data id chunk => onData env id chunk { s with nowIso }
  | .handshakeTimeout id =>
    if (s.secure? id).isSome then { s with nowIso } else closeConn id { s with nowIso }
  | .close id => closeConn id { s with nowIso }
  | .send id frame => send env id frame { s with nowIso }

end IpcServer

end XBus
