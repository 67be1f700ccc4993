import XBus.Lib.Call
import XBus.Lib.Json
import XBus.Lib.Wire
import XBus.Protocol

/-!
# Framing (`ipc/framing.ts`)

A frame is four big-endian bytes of length and that many bytes of UTF-8 JSON. The decoder keeps the
bytes that are not yet a frame; `drain` takes complete frames off the front until the buffer is
short of one or the fairness cap is reached, and then says whether another complete frame is
waiting.
-/

set_option autoImplicit false

namespace XBus

open Lib

variable {ν : Type} [JsNumber ν]

/-- `LIMITS.FRAME_BYTES`. -/
def frameBytes : Nat := 1024 * 1024

def prefixBytes : Nat := 4

def frameTooLarge (message : String) (limit : Nat) (key : String) (actual : Nat) : Failure :=
  xbusError .frameTooLarge message [("limit", toString limit), (key, toString actual)]

/-- `writeUInt32BE` throws a `RangeError` on a length that four bytes do not hold. -/
def encodeFrame (value : Value ν) (maxFrameBytes : Nat := frameBytes) : Except Failure Bytes :=
  let json := value.stringify
  if json.length > maxFrameBytes then
    .error (frameTooLarge "outbound frame exceeds limit" maxFrameBytes "actual" json.length)
  else if json.length < 4294967296 then .ok (u32 json.length ++ json)
  else .error .range

structure FrameDecoder where
  buf : Bytes := []
  maxFrameBytes : Nat := frameBytes
  /-- Frames emitted per drain; 0 is unlimited. -/
  drainCap : Nat := 32
deriving DecidableEq

structure DecodeResult (ν : Type) where
  frames : List (Value ν) := []
  hasMore : Bool := false

namespace FrameDecoder

def bufferedBytes (d : FrameDecoder) : Nat := d.buf.length

/-- `readUInt32BE(0)`. -/
def declared (buf : Bytes) : Nat := beNat (buf.take prefixBytes)

def hasCompleteFrame (d : FrameDecoder) : Bool :=
  prefixBytes ≤ d.buf.length && prefixBytes + declared d.buf ≤ d.buf.length

/-- The loop of `drain`. A turn that does not end it takes at least five bytes off the buffer, so
    the bound, the number of buffered bytes, is never the reason to stop. -/
def drainLoop : Nat → List (Value ν) → Call FrameDecoder Failure (DecodeResult ν)
  | 0, frames => pure { frames }
  | turns + 1, frames => fun d =>
    let len := declared d.buf
    if d.buf.length < prefixBytes then (.ok { frames }, d)
    else if len = 0 then (.error (xbusError .protocolViolation "zero-length frame"), d)
    else if len > d.maxFrameBytes then
      -- before the body is accumulated
      (.error
        (frameTooLarge "declared frame length exceeds limit" d.maxFrameBytes "declared" len), d)
    else if d.buf.length < prefixBytes + len then (.ok { frames }, d)
    else
      match Value.parse ((d.buf.drop prefixBytes).take len) with
      | none => (.error (xbusError .protocolViolation "invalid JSON frame"), d)
      | some parsed =>
        let d' := { d with buf := d.buf.drop (prefixBytes + len) }
        let frames := frames ++ [parsed]
        if 0 < d.drainCap ∧ d.drainCap ≤ frames.length then
          (.ok { frames, hasMore := d'.hasCompleteFrame }, d')
        else drainLoop turns frames d'

def drain : Call FrameDecoder Failure (DecodeResult ν) := fun d => drainLoop d.buf.length [] d

def push (chunk : Bytes) : Call FrameDecoder Failure (DecodeResult ν) := do
  Call.modify fun d => { d with buf := d.buf ++ chunk }
  drain

/-- Continue draining after a fairness yield. -/
def continueDrain : Call FrameDecoder Failure (DecodeResult ν) := drain

/-- `continueDrain` while the last answer had more, as the data handlers of server and client do:
    every further answer hands over at least one frame, so there are no more of them than bytes. -/
def drainOn : Nat → DecodeResult ν → Call FrameDecoder Failure (DecodeResult ν)
  | 0, r => pure r
  | turns + 1, r =>
    if r.hasMore then do
      let next ← continueDrain
      drainOn turns { next with frames := r.frames ++ next.frames }
    else pure r

/-- A chunk as the data handlers take it. -/
def receive (chunk : Bytes) : Call FrameDecoder Failure (DecodeResult ν) := do
  let r ← push chunk
  let d ← Call.get
  drainOn d.buf.length r

/-- Chunk after chunk, what each one handed over. -/
def receiveAll : List Bytes → Call FrameDecoder Failure (List (DecodeResult ν))
  | [] => pure []
  | chunk :: chunks => do
    let r ← receive chunk
    let rest ← receiveAll chunks
    return r :: rest

end FrameDecoder

end XBus
