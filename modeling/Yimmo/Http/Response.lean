import Yimmo.Core.Net
import Yimmo.Http.Application

/-!
# Responses

This module models `ymo_http_response.c`: the response object, the calls an
application makes on it, the choice of its framing, the serialization of its
head and the hand-over of its body; and, from `ymo_proto_http_write`, what a
write callback does to the response it finds at the head of the list.

A header name or value is a pointer that is followed when the head is
serialized.  `HdrMemory` is the memory of the exchange whose request the
response answers, as it is at that time.
-/

namespace Yimmo.Http.Response

open Yimmo.Core.StatusCode
open Yimmo.Core.Net
open Yimmo.Lib.ByteMemory
open Yimmo.Http.Headers
open Yimmo.Http.Exchange
open Yimmo.Http.Parse
open Yimmo.Http.Application

/-- `YMO_HTTP_SEND_BUF_SIZE`. -/
def ymoHttpSendBufSize : Nat :=
  1024

/-- `STATUS_STR_MAX_LEN`. -/
def statusStrMaxLen : Nat :=
  31

/-! ## The object -/

/-- `struct ymo_http_response`; objects are identified by numbers. -/
structure HttpResponse where
  flags : HttpFlags
  statusStr : Bytes
  statusLen : Nat
  headers : HdrTable HdrPointer
  contentLen : Nat
  contentLenStr : Bytes
  /-- The chain from `body_head`. -/
  body : List Bucket
  protoNew : Option Nat
  next : Option Nat
  /-- The exchange it holds, when its handler blocked. -/
  exchange : Option Nat

/-- `ymo_http_response_create`. -/
def ymoHttpResponseCreate : HttpResponse where
  flags := HttpFlags.none
  statusStr := []
  statusLen := 0
  headers := ymoHttpHdrTableClear
  contentLen := 0
  contentLenStr := []
  body := []
  protoNew := none
  next := none
  exchange := none

/-! ## Header pointers -/

/-- The memory of an exchange that header pointers lead to. -/
structure HdrMemory where
  recvBuf : Memory
  workspace : Memory

/-- The memory of an exchange. -/
def HdrMemory.of (exchange : HttpExchange) : HdrMemory where
  recvBuf := exchange.recvBuf
  workspace := exchange.request.ws.memory

/-- The C string at a header pointer. -/
def HdrMemory.string (memory : HdrMemory) (contentLenStr : Bytes) :
    HdrPointer → Bytes
  | .literal string => cString string
  | .recvBuf offset => readString memory.recvBuf ymoHttpRecvBufSize offset
  | .workspace offset => readString memory.workspace ymoHttpReqWsSize offset
  | .contentLenStr => contentLenStr

/-- The bytes at a header pointer, whether or not a string ends in them. -/
def HdrMemory.raw (memory : HdrMemory) (contentLenStr : Bytes) (length : Nat) :
    HdrPointer → Bytes
  | .literal string => (cString string).take length
  | .recvBuf offset => bytesAt memory.recvBuf offset length
  | .workspace offset => bytesAt memory.workspace offset length
  | .contentLenStr => contentLenStr.take length

/-! ## Calls -/

/-- Decimal digits, as `%i` and `%zu` print them. -/
def decimalDigits (number : Nat) : Bytes :=
  (Nat.toDigits 10 number).map fun c => UInt8.ofNat c.toNat

/-- Hexadecimal digits, as `%zx` prints them. -/
def hexDigits (number : Nat) : Bytes :=
  (Nat.toDigits 16 number).map fun c => UInt8.ofNat c.toNat

/-- `get_http_reason`. -/
def getHttpReason : Nat → Option Bytes
  | 100 => some (bytes "Continue")
  | 101 => some (bytes "Switching Protocols")
  | 200 => some (bytes "OK")
  | 201 => some (bytes "Created")
  | 202 => some (bytes "Accepted")
  | 203 => some (bytes "Non-Authoritative Information")
  | 204 => some (bytes "No Content")
  | 205 => some (bytes "Reset Content")
  | 206 => some (bytes "Partial Content")
  | 300 => some (bytes "Multiple Choices")
  | 301 => some (bytes "Moved Permanently")
  | 302 => some (bytes "Found")
  | 303 => some (bytes "See Other")
  | 304 => some (bytes "Not Modified")
  | 305 => some (bytes "Use Proxy")
  | 307 => some (bytes "Temporary Redirect")
  | 400 => some (bytes "Bad Request")
  | 401 => some (bytes "Unauthorized")
  | 402 => some (bytes "Payment Required")
  | 403 => some (bytes "Forbidden")
  | 404 => some (bytes "Not Found")
  | 405 => some (bytes "Method Not Allowed")
  | 406 => some (bytes "Not Acceptable")
  | 407 => some (bytes "Proxy Authentication Required")
  | 408 => some (bytes "Request Timeout")
  | 409 => some (bytes "Conflict")
  | 410 => some (bytes "Gone")
  | 411 => some (bytes "Length Required")
  | 412 => some (bytes "Precondition Failed")
  | 413 => some (bytes "Request Entity Too Large")
  | 414 => some (bytes "Request URI Too long")
  | 415 => some (bytes "Unsupported Media Type")
  | 416 => some (bytes "Requested Range Not Satisfiable")
  | 417 => some (bytes "Expectation Failed")
  | 500 => some (bytes "Internal Server Error")
  | 501 => some (bytes "Not Implemented")
  | 502 => some (bytes "Bad Gateway")
  | 503 => some (bytes "Service Unavailable")
  | 504 => some (bytes "Gateway Timeout")
  | 505 => some (bytes "HTTP Version Not Supported")
  | _ => none

/--
`ymo_http_response_set_status`.  `snprintf` cuts the string short and returns
its full length; a missing reason is printed as `(null)`.
-/
def ymoHttpResponseSetStatus (response : HttpResponse) (status : Nat) :
    HttpResponse :=
  let reason := (getHttpReason status).getD (bytes "(null)")
  let string := decimalDigits status ++ [space] ++ reason
  { response with
    statusStr := string.take (statusStrMaxLen - 1)
    statusLen := string.length }

/--
`ymo_http_response_set_status_str`, on a string that `memccpy` finds the end of;
without it the length is the difference of unrelated pointers, and here one that no
buffer has room for.
-/
def ymoHttpResponseSetStatusStr (response : HttpResponse) (string : Bytes) :
    HttpResponse :=
  let string := cString string
  { response with
    statusStr := string.take statusStrMaxLen
    statusLen :=
      if string.length < statusStrMaxLen then string.length
      else sizeModulus - 1 }

/-- `ymo_http_response_insert_header`. -/
def ymoHttpResponseInsertHeader (memory : HdrMemory) (response : HttpResponse)
    (header value : HdrPointer) :
    HttpResponse :=
  { response with
    headers :=
      ymoHttpHdrTableInsert (memory.string response.contentLenStr)
        response.headers header value }

/-- `ymo_http_response_body_append` of one bucket. -/
def ymoHttpResponseBodyAppend (response : HttpResponse) (data : Bytes) :
    HttpResponse :=
  let appended :=
    { response with body := response.body ++ [Bucket.fresh data] }
  if response.flags.supportsChunked then
    { appended with flags := { response.flags with responseReady := true } }
  else appended

/-- `ymo_http_response_ready`. -/
def ymoHttpResponseReady (response : HttpResponse) : HttpResponse :=
  { response with flags := { response.flags with responseReady := true } }

/-- `ymo_http_response_finish`. -/
def ymoHttpResponseFinish (response : HttpResponse) : HttpResponse :=
  { response with
    flags :=
      { response.flags with responseReady := true, responseComplete := true } }

/-- `ymo_http_response_issue`, as far as the response goes. -/
def ymoHttpResponseIssue (memory : HdrMemory) (response : HttpResponse)
    (status : Nat) :
    HttpResponse :=
  let response :=
    if 400 ≤ status then
      ymoHttpResponseInsertHeader memory response
        (.literal (bytes "Connection")) (.literal (bytes "Close"))
    else response
  ymoHttpResponseFinish (ymoHttpResponseSetStatus response status)

/-- A call of the application. -/
def applyCall (memory : HdrMemory) (response : HttpResponse) :
    ResponseCall → HttpResponse
  | .setStatus status => ymoHttpResponseSetStatus response status
  | .setStatusStr status => ymoHttpResponseSetStatusStr response status
  | .insertHeader header value =>
      ymoHttpResponseInsertHeader memory response header value
  | .bodyAppend data => ymoHttpResponseBodyAppend response data
  | .ready => ymoHttpResponseReady response
  | .finish => ymoHttpResponseFinish response
  | .setFlags flags => { response with flags := flags }
  | .issue status => ymoHttpResponseIssue memory response status

/-- The response of `ymo_http_session_init_response`. -/
def ymoHttpSessionInitResponse (flags : HttpFlags) : HttpResponse :=
  let response := { ymoHttpResponseCreate with flags := flags }
  let insert (value : String) : HttpResponse :=
    { response with
      headers :=
        ymoHttpHdrTableInsertPrecompute response.headers
          ymoHttpHidConnection (.literal (bytes "Connection")) 10
          (.literal (bytes value)) }
  if flags.requestKeepalive then
    if flags.version11 then response else insert "Keep-alive"
  else if flags.version11 then insert "close"
  else response

/-! ## The head -/

/-- `should_buffer_body`. -/
def shouldBufferBody (memory : HdrMemory) (response : HttpResponse) :
    Bool × HttpResponse :=
  let appHdrCl := ymoHttpHdrTableGetId response.headers ymoHttpHidContentLength
  let appHdrTe :=
    ymoHttpHdrTableGetId response.headers ymoHttpHidTransferEncoding
  if appHdrCl.isSome || appHdrTe.isSome then (false, response)
  else if response.flags.responseComplete then
    let contentLen := response.contentLen + (response.body.map Bucket.len).sum
    (false,
      { response with
        contentLen := contentLen
        contentLenStr := decimalDigits contentLen
        headers :=
          ymoHttpHdrTableInsertPrecompute response.headers
            ymoHttpHidContentLength (.literal (bytes "Content-Length"))
            14 .contentLenStr })
  else if response.flags.supportsChunked then
    let inserted :=
      ymoHttpResponseInsertHeader memory response
        (.literal (bytes "Transfer-Encoding"))
        (.literal (bytes "Chunked"))
    (false,
      { inserted with
        flags := { response.flags with responseChunked := true } })
  else (true, response)

/-- The bytes written to the response buffer, and `remain`. -/
structure HeadCursor where
  written : Bytes
  remain : Int

/--
One header line.  The test of the name's length is `key_len < remain + 2`, and
a negative `remain` is a huge limit for `memccpy`.
-/
def serializeHeader (memory : HdrMemory) (contentLenStr : Bytes)
    (cursor : HeadCursor)
    (node : HdrNode HdrPointer) :
    Option HeadCursor :=
  if (node.hdrLen : Int) < cursor.remain + 2 then
    let key := memory.raw contentLenStr node.hdrLen node.hdr
    let value := node.string (memory.string contentLenStr)
    let remain := cursor.remain - node.hdrLen - 2
    let limit := sizeOfLong remain
    if value.length < limit then
      let remain := remain - value.length
      if 2 ≤ remain then
        some
          { written :=
              cursor.written ++ key ++ [colon, space] ++ value ++ [cr, lf]
            remain := remain - 2 }
      else none
    else none
  else none

/-- The lines of the headers, in the order of the table. -/
def serializeHeaders (memory : HdrMemory) (contentLenStr : Bytes) :
    HeadCursor → List (HdrNode HdrPointer) → Option HeadCursor
  | cursor, [] => some cursor
  | cursor, node :: nodes =>
      match serializeHeader memory contentLenStr cursor node with
      | some later => serializeHeaders memory contentLenStr later nodes
      | none => none

/-- The `status_len` bytes copied from `status_str`, zeros for those behind the
string. -/
def statusBytes (response : HttpResponse) : Bytes :=
  response.statusStr ++
    List.replicate (response.statusLen - response.statusStr.length) 0

/-- The serialized head, if it fits into `YMO_HTTP_SEND_BUF_SIZE`. -/
def serializeHead (memory : HdrMemory) (response : HttpResponse) :
    Option Bytes :=
  if ymoHttpSendBufSize < response.statusLen + 11 then none
  else
    let start : HeadCursor :=
      { written :=
          bytes "HTTP/1.1 " ++ statusBytes response ++ [cr, lf]
        remain := (ymoHttpSendBufSize : Int) - (11 + response.statusLen) }
    match
      serializeHeaders memory response.contentLenStr start
        response.headers.nodes with
    | some cursor =>
        if cursor.remain < 2 then none
        else some (cursor.written ++ [cr, lf])
    | none => none

/-- What `ymo_http_response_start` returns: a bucket, or NULL and `errno`. -/
inductive Started where
  | bucket (head : Bucket)
  | null (status : Status)

/-- `ymo_http_response_start`. -/
def ymoHttpResponseStart (memory : HdrMemory) (response : HttpResponse) :
    Started × HttpResponse :=
  if response.statusStr = [] ∨ response.statusLen = 0 then
    (.null (.err .einval), response)
  else
    let decided := shouldBufferBody memory response
    if decided.1 then (.null .okay, decided.2)
    else
      match serializeHead memory decided.2 with
      | some head => (.bucket (Bucket.fresh head), decided.2)
      | none => (.null (.err .enomem), decided.2)

/-! ## The body -/

/--
`snprintf(chunk_hdr_buf, 7, "%zx\r\n", len)` and the copy of as many bytes as it
returns: at most six of them are printed, and zeros follow them.
-/
def chunkHeader (len : Nat) : Bytes :=
  let printed := hexDigits len ++ [cr, lf]
  printed.take 6 ++ List.replicate (printed.length - 6) 0

/-- `ymo_http_response_body_get`: the buckets, and the response without them. -/
def ymoHttpResponseBodyGet (response : HttpResponse) :
    List Bucket × HttpResponse :=
  let buckets :=
    if response.flags.responseChunked then
      response.body.flatMap fun data =>
        [Bucket.fresh (chunkHeader data.len), data, Bucket.fresh [cr, lf]]
    else response.body
  (buckets, { response with body := [] })

/-! ## Writing -/

/-- What a write callback found to do with the response at the head. -/
inductive Prepared where
  /-- It returns, with `*http_session->send_buffer` as it is now. -/
  | returns
      (status : Status)
      (response : HttpResponse)
      (sendBuffer : List Bucket)
  /-- It sends the chain. -/
  | sends
      (response : HttpResponse)
      (sendBuffer : List Bucket)

/-- The chunk that ends a finished chunked body. -/
def chunkTerm (flags : HttpFlags) : List Bucket :=
  if flags.responseComplete && flags.responseChunked &&
      !flags.responseChunkTerm then
    [Bucket.fresh (bytes "0\r\n\r\n")]
  else []

/-- The body of the response and the terminal chunk are put on the chain. -/
def prepareBody (response : HttpResponse) (sendBuffer : List Bucket) :
    HttpResponse × List Bucket :=
  let body := ymoHttpResponseBodyGet response
  ({ body.2 with
      flags :=
        { response.flags with
          responseChunkTerm :=
            response.flags.responseChunkTerm ||
              (response.flags.responseComplete &&
                response.flags.responseChunked) } },
    sendBuffer ++ body.1 ++ chunkTerm response.flags)

/-- `ymo_proto_http_write` up to the send, on the response at the head. -/
def prepareWrite (memory : HdrMemory) (response : HttpResponse)
    (sendBuffer : List Bucket) :
    Prepared :=
  if response.flags.responseReady = false then
    .returns .okay response sendBuffer
  else if response.flags.responseStarted then
    let prepared := prepareBody response sendBuffer
    .sends prepared.1 prepared.2
  else
    match ymoHttpResponseStart memory response with
    | (.null status, response) => .returns status response []
    | (.bucket head, response) =>
        let started :=
          { response with
            flags := { response.flags with responseStarted := true } }
        let prepared := prepareBody started [head]
        .sends prepared.1 prepared.2

/-- What a write callback leaves of the response at the head, of the send
buffer, and of the socket. -/
structure Written where
  status : Status
  response : HttpResponse
  sendBuffer : List Bucket
  wire : Bytes
  outcomes : List SendOutcome
  /-- `This response has been fully sent`. -/
  complete : Bool

/-- `ymo_proto_http_write` up to the test for a response that is fully sent. -/
def writeResponse (memory : HdrMemory) (outcomes : List SendOutcome)
    (response : HttpResponse)
    (sendBuffer : List Bucket) :
    Written :=
  match prepareWrite memory response sendBuffer with
  | .returns status later sendBuffer =>
      { status := status
        response := later
        sendBuffer := sendBuffer
        wire := []
        outcomes := outcomes
        complete := false }
  | .sends later chain =>
      let result := ymoNetSendBuckets outcomes chain
      { status := result.status
        response := later
        sendBuffer := result.chain
        wire := result.wire
        outcomes := result.outcomes
        complete :=
          decide (result.status = .okay) && response.flags.responseComplete }

end Yimmo.Http.Response
