import Mathlib.Algebra.Group.Int.Defs
import Mathlib.Algebra.GroupWithZero.Nat
import Yimmo.Core.BlockAllocator
import Yimmo.Http.Headers
import Yimmo.Lib.ByteMemory

/-!
# The exchange

`ymo_http_exchange_t` holds the request that is being read, the progress of the
parser, and the receive buffer that every string of the request points into.
Pointers into the receive buffer and into the workspace are offsets.

In the source `body_remain` shares its storage with `hdr_name`, `hdr_value` and
`h_id`; the two groups are used in different phases and are kept apart here.
Two fields are history: `high` is one past the highest offset of the receive
buffer stored to since the last reset, and `wrapped` says that `remain` has been
decremented below zero.
-/

namespace Yimmo.Http.Exchange

open Yimmo.Lib.ByteMemory
open Yimmo.Core.BlockAllocator (typeCeil)
open Yimmo.Http.Headers

/-- `YMO_HTTP_RECV_BUF_SIZE`. -/
def ymoHttpRecvBufSize : Nat :=
  1024

/-- `YMO_HTTP_REQ_WS_SIZE`. -/
def ymoHttpReqWsSize : Nat :=
  1024

/-- `YMO_HTTP_MAX_BODY`. -/
def ymoHttpMaxBody : Nat :=
  4096

/-- The number of values of `size_t`. -/
def sizeModulus : Nat :=
  2 ^ 64

/-- `http_state_t`, in the order of the source. -/
inductive HttpState where
  | connected
  | requestMethod
  | requestUriPath
  | requestQuery
  | requestFragment
  | requestVersion
  | crlf
  | headerName
  | headerValueLeadingSpace
  | headerValue
  | headersComplete
  | expect
  | bodyChunkHeader
  | body
  | bodyChunkTrailer
  | complete
deriving DecidableEq, Repr

/-- The value of the enumeration constant. -/
def HttpState.rank : HttpState → Nat
  | connected => 0
  | requestMethod => 1
  | requestUriPath => 2
  | requestQuery => 3
  | requestFragment => 4
  | requestVersion => 5
  | crlf => 6
  | headerName => 7
  | headerValueLeadingSpace => 8
  | headerValue => 9
  | headersComplete => 10
  | expect => 11
  | bodyChunkHeader => 12
  | body => 13
  | bodyChunkTrailer => 14
  | complete => 15

/-- The bits of `ymo_http_flags_t` that have a name. -/
structure HttpFlags where
  version11 : Bool
  requestKeepalive : Bool
  supportsChunked : Bool
  expect : Bool
  upgrade : Bool
  requestChunked : Bool
  responseReady : Bool
  responseStarted : Bool
  responseComplete : Bool
  responseChunked : Bool
  responseChunkTerm : Bool
deriving DecidableEq, Repr

/-- No flag set. -/
def HttpFlags.none : HttpFlags where
  version11 := false
  requestKeepalive := false
  supportsChunked := false
  expect := false
  upgrade := false
  requestChunked := false
  responseReady := false
  responseStarted := false
  responseComplete := false
  responseChunked := false
  responseChunkTerm := false

/--
`flags &= YMO_HTTP_FLAG_REQUEST_CLOSE`.  The mask is `0xfb`: besides the
keep-alive bit it clears every request and response bit, which lie above the
first byte.
-/
def HttpFlags.requestClose (flags : HttpFlags) : HttpFlags where
  version11 := flags.version11
  requestKeepalive := false
  supportsChunked := flags.supportsChunked
  expect := flags.expect
  upgrade := flags.upgrade
  requestChunked := false
  responseReady := false
  responseStarted := false
  responseComplete := false
  responseChunked := false
  responseChunkTerm := false

/-- `request->ws`, the block allocator of a request: offsets from `val`, which
`malloc` puts at a multiple of sixteen. -/
structure Workspace where
  current : Nat
  memory : Memory

/-- `ymo_blalloc_reset`. -/
def ymoBlallocReset (workspace : Workspace) : Workspace where
  current := 0
  memory := workspace.memory

/-- `ymo_blalloc_strdup` of a string: its offset, if it fits. -/
def ymoBlallocStrdup (workspace : Workspace) (string : Bytes) :
    Option Nat × Workspace :=
  let start := typeCeil workspace.current
  let stop := start + (string.length + 1)
  if stop < ymoHttpReqWsSize then
    (some start,
      { current := stop
        memory := storeAll workspace.memory start (string ++ [0]) })
  else (none, workspace)

/-- `request->body`: the size of the block and the bytes stored in it. -/
structure Body where
  size : Nat
  data : Bytes
deriving DecidableEq, Repr

/-- `memcpy` of bytes into the block, from an offset on. -/
def Body.copy (body : Body) (offset : Nat) (bytes : Bytes) : Body where
  size := body.size
  data :=
    body.data.take offset ++ bytes ++ body.data.drop (offset + bytes.length)

/-- `struct ymo_http_request`; the strings are offsets into the buffer. -/
structure HttpRequest where
  method : Option Nat
  uri : Option Nat
  version : Option Nat
  query : Option Nat
  fragment : Option Nat
  headers : HdrTable Nat
  ws : Workspace
  body : Option Body
  bodyReceived : Nat
  contentLength : Nat
  flags : HttpFlags

/--
What the reading side needs of `exchange->response`: its keep-alive bit, and
whether it has been handed to the session's response list.
-/
structure ResponseHandle where
  keepalive : Bool
  queued : Bool
deriving DecidableEq, Repr

/-- `struct ymo_http_exchange`. -/
structure HttpExchange where
  request : HttpRequest
  hdrName : Option Nat
  hdrValue : Option Nat
  hId : HdrId
  bodyRemain : Nat
  state : HttpState
  nextState : HttpState
  recvCurrent : Nat
  remain : Nat
  recvBuf : Memory
  response : Option ResponseHandle
  high : Nat
  wrapped : Bool

/--
`ymo_http_exchange_reset`.  `request.body` is not among the fields the source
restores; `body_remain` is, through the storage it shares with `hdr_name`.
-/
def ymoHttpExchangeReset (exchange : HttpExchange) : HttpExchange where
  request :=
    { method := some 0
      uri := none
      version := none
      query := none
      fragment := none
      headers := ymoHttpHdrTableClear
      ws := ymoBlallocReset exchange.request.ws
      body := exchange.request.body
      bodyReceived := 0
      contentLength := 0
      flags := HttpFlags.none }
  hdrName := none
  hdrValue := none
  hId := ymoHttpHdrHashInit
  bodyRemain := 0
  state := .connected
  nextState := .connected
  recvCurrent := 0
  remain := ymoHttpRecvBufSize
  recvBuf := exchange.recvBuf
  response := exchange.response
  high := 0
  wrapped := false

/-- `YMO_NEW0(ymo_http_exchange_t)`, with an empty workspace. -/
def zeroed : HttpExchange where
  request :=
    { method := none
      uri := none
      version := none
      query := none
      fragment := none
      headers := ymoHttpHdrTableClear
      ws := { current := 0, memory := fun _ => 0 }
      body := none
      bodyReceived := 0
      contentLength := 0
      flags := HttpFlags.none }
  hdrName := none
  hdrValue := none
  hId := 0
  bodyRemain := 0
  state := .connected
  nextState := .connected
  recvCurrent := 0
  remain := 0
  recvBuf := fun _ => 0
  response := none
  high := 0
  wrapped := false

/-- `ymo_http_exchange_create`. -/
def ymoHttpExchangeCreate : HttpExchange :=
  ymoHttpExchangeReset zeroed

/-! ## The write cursor -/

/-- The local copies of `recv_current` and `remain` that a parser works on. -/
structure Cursor where
  recvCurrent : Nat
  remain : Nat
  recvBuf : Memory
  high : Nat
  wrapped : Bool

/-- The cursor a parser starts from. -/
def HttpExchange.cursor (exchange : HttpExchange) : Cursor where
  recvCurrent := exchange.recvCurrent
  remain := exchange.remain
  recvBuf := exchange.recvBuf
  high := exchange.high
  wrapped := exchange.wrapped

/-- `*(recv_current++) = byte`. -/
def Cursor.put (cursor : Cursor) (byte : UInt8) : Cursor :=
  { cursor with
    recvCurrent := cursor.recvCurrent + 1
    recvBuf := store cursor.recvBuf cursor.recvCurrent byte
    high := max cursor.high (cursor.recvCurrent + 1) }

/-- `--remain` on a `size_t`. -/
def Cursor.decr (cursor : Cursor) : Cursor :=
  if cursor.remain = 0 then
    { cursor with remain := sizeModulus - 1, wrapped := true }
  else { cursor with remain := cursor.remain - 1 }

@[simp]
theorem Cursor.recvBuf_decr (cursor : Cursor) :
    cursor.decr.recvBuf = cursor.recvBuf := by
  unfold Cursor.decr
  split <;> rfl

@[simp]
theorem Cursor.recvCurrent_decr (cursor : Cursor) :
    cursor.decr.recvCurrent = cursor.recvCurrent := by
  unfold Cursor.decr
  split <;> rfl

@[simp]
theorem Cursor.high_decr (cursor : Cursor) :
    cursor.decr.high = cursor.high := by
  unfold Cursor.decr
  split <;> rfl

/-- A parser that succeeds writes its local copies back. -/
def HttpExchange.save (exchange : HttpExchange) (cursor : Cursor) :
    HttpExchange :=
  { exchange with
    recvCurrent := cursor.recvCurrent
    remain := cursor.remain
    recvBuf := cursor.recvBuf
    high := cursor.high
    wrapped := cursor.wrapped }

/-- A parser that fails has stored its bytes but not moved the cursor. -/
def HttpExchange.abandon (exchange : HttpExchange) (cursor : Cursor) :
    HttpExchange :=
  { exchange with
    recvBuf := cursor.recvBuf
    high := cursor.high
    wrapped := cursor.wrapped }

end Yimmo.Http.Exchange
