import Yimmo.Core.Net
import Yimmo.Core.Utf8
import Yimmo.Lib.ByteMemory

/-!
# Parsing WebSocket frames

This module models `ymo_ws_parse.c` and the frame buffer of `ymo_ws_session.c`:
the frame header a byte or a few bytes at a time, the masking key, the payload
with its UTF-8 check, and the buckets that completed frames leave on the
session's receive list.

A frame buffer is a block of `memory`, whose contents are arbitrary until they
are stored; a bucket points to such a block or to nothing.  Allocation does not
fail.  The four bytes of a word are unmasked as four bytes, and `mask_mod`, which
is only used modulo 4, counts the bytes.
-/

namespace Yimmo.Ws.Parse

open Yimmo.Core.StatusCode
open Yimmo.Core.Net
open Yimmo.Core.Utf8
open Yimmo.Lib.ByteMemory

/-! ## Constants -/

/-- `YMO_WS_FLAG_FIN`. -/
def ymoWsFlagFin : UInt8 :=
  0x80

/-- `YMO_WS_FLAG_RSV1`. -/
def ymoWsFlagRsv1 : UInt8 :=
  0x40

/-- `YMO_WS_FLAG_RSV2`. -/
def ymoWsFlagRsv2 : UInt8 :=
  0x20

/-- `YMO_WS_FLAG_RSV3`. -/
def ymoWsFlagRsv3 : UInt8 :=
  0x10

/-- `YMO_WS_MASK_OP`. -/
def ymoWsMaskOp : UInt8 :=
  0x0f

/-- `YMO_WS_OP_CONTINUATION`. -/
def ymoWsOpContinuation : UInt8 :=
  0x00

/-- `YMO_WS_OP_TEXT`. -/
def ymoWsOpText : UInt8 :=
  0x01

/-- `YMO_WS_OP_BINARY`. -/
def ymoWsOpBinary : UInt8 :=
  0x02

/-- `YMO_WS_OP_CLOSE`. -/
def ymoWsOpClose : UInt8 :=
  0x08

/-- `YMO_WS_OP_PING`. -/
def ymoWsOpPing : UInt8 :=
  0x09

/-- `YMO_WS_OP_PONG`. -/
def ymoWsOpPong : UInt8 :=
  0x0a

/-- `YMO_WS_FLAG_MASKED`. -/
def ymoWsFlagMasked : UInt8 :=
  0x80

/-- `YMO_WS_MASK_LEN`. -/
def ymoWsMaskLen : UInt8 :=
  0x7f

/-- `YMO_WS_FRAME_MIN`. -/
def ymoWsFrameMin : Nat :=
  256

/-- `YMO_WS_FRAME_MAX`, as configured by default. -/
def ymoWsFrameMax : Nat :=
  4096

/-- `ENOBUFS`. -/
def enobufs : Errno :=
  .other 105

/-- `ymo_ws_frame_flags_t.op_code`. -/
def opCode (flags : UInt8) : UInt8 :=
  flags &&& ymoWsMaskOp

/-- `ymo_ws_frame_flags_t.fin`. -/
def fin (flags : UInt8) : Bool :=
  flags &&& ymoWsFlagFin != 0

/-- `YMO_WS_FLAGS_RESERVED`. -/
def ymoWsFlagsReserved (flags : UInt8) : Bool :=
  flags &&& (ymoWsFlagRsv1 ||| ymoWsFlagRsv2 ||| ymoWsFlagRsv3) != 0

/-- The opcodes of data frames. -/
def isData (op : UInt8) : Bool :=
  op == ymoWsOpContinuation || op == ymoWsOpText || op == ymoWsOpBinary

/-- The opcodes of control frames. -/
def isControl (op : UInt8) : Bool :=
  op == ymoWsOpClose || op == ymoWsOpPing || op == ymoWsOpPong

/-! ## Sessions -/

/-- `ws_session_state_t`. -/
inductive WsSessionState where
  | connected
  | closeReceived
  | expectClose
  | closed
  | error
deriving DecidableEq, Repr

/-- `ws_parse_state_t`. -/
inductive WsParseState where
  | op
  | len
  | lenExtended
  | maskingKey
  | payload
  | complete
deriving DecidableEq, Repr

/-- `ymo_ws_frame_t`. -/
structure WsFrame where
  len : Nat
  parsed : Nat
  maskingKey : Memory
  parseState : WsParseState
  masked : Bool
  flags : UInt8
  buffer : Option Nat
  bufLen : Nat
  /-- The union of `mask_mod` and `len_idx`. -/
  idx : Nat

/-- A bucket of the receive list. -/
structure RecvBucket where
  data : Option Nat
  len : Nat
deriving DecidableEq

/-- Where `send_tail` points. -/
inductive SendTail where
  | null
  /-- The last bucket that `send_head` leads to. -/
  | last
  /-- A bucket that `send_head` does not lead to. -/
  | detached
deriving DecidableEq, Repr

/-- `struct ymo_ws_session`. -/
structure WsSession where
  frameIn : WsFrame
  /-- `recv_head` to `recv_tail`. -/
  recvList : List RecvBucket
  /-- The buckets that `send_head` leads to. -/
  sendList : List Bucket
  sendTail : SendTail
  state : WsSessionState
  msgType : UInt8
  utf8State : Utf8State
  /-- The frame buffers that were allocated. -/
  memory : Nat → Memory
  blocks : Nat

/-- A frame after `memset`. -/
def WsFrame.zero : WsFrame where
  len := 0
  parsed := 0
  maskingKey _ := 0
  parseState := .op
  masked := false
  flags := 0
  buffer := none
  bufLen := 0
  idx := 0

/-- `ymo_ws_session_create`. -/
def ymoWsSessionCreate (memory : Nat → Memory) : WsSession where
  frameIn := .zero
  recvList := []
  sendList := []
  sendTail := .null
  state := .connected
  msgType := 0
  utf8State := ymoUtf8StateReset
  memory := memory
  blocks := 0

/-- The bytes of a bucket of the receive list. -/
def WsSession.bucketData (session : WsSession) (bucket : RecvBucket) : Bytes :=
  match bucket.data with
  | none => []
  | some block => bytesAt (session.memory block) 0 bucket.len

/-- `ymo_bucket_create` at the end of the receive list. -/
def WsSession.pushRecv (session : WsSession) (data : Option Nat) (len : Nat) :
    WsSession :=
  { session with
    recvList := session.recvList ++ [{ data := data, len := len }] }

/-- `ymo_ws_session_alloc_frame`. -/
def ymoWsSessionAllocFrame (session : WsSession) (len : Nat) :
    WsSession × Status :=
  if len > ymoWsFrameMax then (session, .err enobufs)
  else if session.frameIn.buffer.isSome ∧
      session.frameIn.bufLen ≥ len then
    (session, .okay)
  else
    ({ session with
        frameIn :=
          { session.frameIn with
            buffer := some session.blocks
            bufLen := max ymoWsFrameMin len }
        blocks := session.blocks + 1 },
      .okay)

/-! ## The parse functions -/

/-- What a parse function returns: the bytes it consumed, or an error. -/
abbrev Parsed : Type :=
  Except Errno Nat

/-- `ymo_ws_parse_op`. -/
def ymoWsParseOp (session : WsSession) (ch : UInt8) : WsSession × Parsed :=
  let session :=
    { session with frameIn := { session.frameIn with flags := ch } }
  let op := opCode ch
  let accept (session : WsSession) : WsSession × Parsed :=
    ({ session with
        frameIn := { session.frameIn with parseState := .len } },
      .ok 1)
  if ymoWsFlagsReserved ch then (session, .error .ebadmsg)
  else if isControl op then
    if fin ch then accept session else (session, .error .ebadmsg)
  else if op = ymoWsOpContinuation then
    if session.msgType = 0 then (session, .error .einval)
    else accept session
  else if op = ymoWsOpText ∨ op = ymoWsOpBinary then
    if session.msgType ≠ 0 then (session, .error .einval)
    else if fin ch then accept session
    else accept { session with msgType := op }
  else (session, .error .ebadmsg)

/-- The status of `ymo_ws_session_alloc_frame` as a parse function passes it on. -/
def allocParsed (allocated : WsSession × Status) (consumed : Nat) :
    WsSession × Parsed :=
  match allocated with
  | (session, .okay) => (session, .ok consumed)
  | (session, .err errno) => (session, .error errno)

/-- `ymo_ws_parse_len`. -/
def ymoWsParseLen (session : WsSession) (ch : UInt8) : WsSession × Parsed :=
  let masked := ch &&& ymoWsFlagMasked != 0
  let msgLen := (ch &&& ymoWsMaskLen).toNat
  let frame := { session.frameIn with masked := masked }
  if !masked then ({ session with frameIn := frame }, .error .ebadmsg)
  else if msgLen ≤ 125 then
    allocParsed
      (ymoWsSessionAllocFrame
        { session with
          frameIn := { frame with len := msgLen, parseState := .maskingKey } }
        msgLen)
      1
  else
    let session :=
      { session with
        frameIn :=
          { frame with
            idx := if msgLen = 126 then 2 else 8
            parseState := .lenExtended } }
    if frame.flags &&& 0x08 ≠ 0 then (session, .error .ebadmsg)
    else (session, .ok 1)

/-- The loop of `ymo_ws_parse_len_ext`, on the length and `len_idx`. -/
def lenExtBytes : Nat → Nat → Bytes → Nat × Nat
  | len, idx + 1, byte :: rest =>
      lenExtBytes (len + byte.toNat * 2 ^ (8 * idx)) idx rest
  | len, idx, _ => (len, idx)

/-- `ymo_ws_parse_len_ext`. -/
def ymoWsParseLenExt (session : WsSession) (buffer : Bytes) :
    WsSession × Parsed :=
  let start := session.frameIn.idx
  let (len, idx) := lenExtBytes session.frameIn.len start buffer
  let session :=
    { session with frameIn := { session.frameIn with len := len, idx := idx } }
  if idx = 0 then
    if len ≥ 2 ^ 63 then (session, .error .ebadmsg)
    else
      match ymoWsSessionAllocFrame session len with
      | (session, .err errno) => (session, .error errno)
      | (session, .okay) =>
          ({ session with
              frameIn := { session.frameIn with parseState := .maskingKey } },
            .ok start)
  else (session, .ok (start - idx))

/-- The loop of `ymo_ws_parse_masking_key`, on the key and `mask_mod`. -/
def maskingKeyBytes : Memory → Nat → Bytes → Memory × Nat
  | key, idx, [] => (key, idx)
  | key, idx, byte :: rest =>
      if idx + 1 = 4 then (store key idx byte, 4)
      else maskingKeyBytes (store key idx byte) (idx + 1) rest

/-- `ymo_ws_parse_masking_key`. -/
def ymoWsParseMaskingKey (session : WsSession) (buffer : Bytes) :
    WsSession × Parsed :=
  if !session.frameIn.masked then
    ({ session with
        frameIn := { session.frameIn with parseState := .payload } },
      .ok 0)
  else
    let start := session.frameIn.idx
    let (key, idx) := maskingKeyBytes session.frameIn.maskingKey start buffer
    let frame := { session.frameIn with maskingKey := key, idx := idx }
    if idx = 4 then
      if frame.len ≠ 0 then
        ({ session with
            frameIn := { frame with parseState := .payload } },
          .ok (idx - start))
      else
        ({ session with
            frameIn := { frame with parseState := .complete } }
            |>.pushRecv none 0,
          .ok (idx - start))
    else ({ session with frameIn := frame }, .ok (idx - start))

/-- The bytes xor the key, which stands at `mask_mod`. -/
def unmask (key : Memory) : Nat → Bytes → Bytes
  | _, [] => []
  | maskMod, byte :: rest =>
      (byte ^^^ key (maskMod % 4)) :: unmask key (maskMod + 1) rest

/-- The block that `frame_in.buffer` points to. -/
def WsFrame.block (frame : WsFrame) : Nat :=
  frame.buffer.getD 0

/-- `unmask_payload` on the next bytes of the frame. -/
def unmaskPayload (session : WsSession) (piece : Bytes) : WsSession :=
  let frame := session.frameIn
  if opCode frame.flags = ymoWsOpPong then session
  else
    { session with
      frameIn := { frame with idx := frame.idx + piece.length }
      memory :=
        Function.update session.memory frame.block
          (storeAll (session.memory frame.block) frame.parsed
            (unmask frame.maskingKey frame.idx piece)) }

/-- The next bytes of the frame are in the buffer, and counted. -/
def storePayload (session : WsSession) (piece : Bytes) : WsSession :=
  let session := unmaskPayload session piece
  { session with
    frameIn :=
      { session.frameIn with
        parsed := session.frameIn.parsed + piece.length } }

/-- `frame_done`. -/
def WsFrame.done (frame : WsFrame) : Bool :=
  frame.parsed == frame.len

/-- The payload is checked to be UTF-8. -/
def checksText (session : WsSession) : Bool :=
  (opCode session.frameIn.flags == ymoWsOpText ||
      session.msgType == ymoWsOpText) &&
    session.frameIn.len != 0

/-- Where the check of the next bytes starts: the first check of a close frame
skips over the reason. -/
def checkStart (frame : WsFrame) : Nat :=
  if opCode frame.flags = ymoWsOpClose ∧ frame.parsed = 0 then frame.parsed + 2
  else frame.parsed

/-- The check of `parseLen` bytes that were stored from `start` on. -/
def checkPayload (session : WsSession) (start parseLen : Nat) :
    Except Errno Utf8State :=
  let frame := session.frameIn
  if checksText session then
    ymoCheckUtf8 session.utf8State
      (bytesAt (session.memory frame.block) start parseLen)
      (frame.done && fin frame.flags)
  else .ok session.utf8State

/-- What `ymo_ws_parse_payload` does when the frame is done. -/
def payloadDone (session : WsSession) : WsSession :=
  let frame := session.frameIn
  let op := opCode frame.flags
  let session :=
    { session with
      frameIn := { frame with parseState := .complete }
      msgType := if isData op ∧ fin frame.flags then 0 else session.msgType }
  if isData op ∨ op = ymoWsOpClose ∨ op = ymoWsOpPing then
    session.pushRecv frame.buffer frame.len
  else session

/-- `ymo_ws_parse_payload`. -/
def ymoWsParsePayload (session : WsSession) (buffer : Bytes) :
    WsSession × Parsed :=
  let frame := session.frameIn
  let piece := buffer.take (frame.len - frame.parsed)
  let session := storePayload session piece
  match checkPayload session (checkStart frame) piece.length with
  | .error errno => (session, .error errno)
  | .ok utf8State =>
      let session := { session with utf8State := utf8State }
      (if session.frameIn.done then payloadDone session else session,
        .ok piece.length)

/-- The parse function of the state, on a buffer that is not empty. -/
def parseByState (session : WsSession) (ch : UInt8) (rest : Bytes) :
    WsSession × Parsed :=
  match session.frameIn.parseState with
  | .op => ymoWsParseOp session ch
  | .len => ymoWsParseLen session ch
  | .lenExtended => ymoWsParseLenExt session (ch :: rest)
  | .maskingKey => ymoWsParseMaskingKey session (ch :: rest)
  | .payload => ymoWsParsePayload session (ch :: rest)
  | .complete => (session, .ok 0)

end Yimmo.Ws.Parse
