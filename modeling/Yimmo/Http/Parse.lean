import Yimmo.Core.StatusCode
import Yimmo.Http.Exchange
import Yimmo.Lib.TurnLoop

/-!
# The request parsers

This module models `ymo_http_parse.c`: the parsers for the request line, the
end of a line, the headers and the body.  Each parser works on local copies of
the write cursor and writes them back when it succeeds.

The parsers of the head take the bytes of the read they are given.  The body
parser also takes `len` on its own: its loops leave `len` behind on some paths,
so it can pass the end of the read, and what it then reads is whatever the
memory behind the read holds.  Reading past that memory is `fault`.
-/

namespace Yimmo.Http.Parse

export Yimmo.Core.Characters (bytes ymoTolower)

open Yimmo.Core.StatusCode
open Yimmo.Lib.ByteMemory
open Yimmo.Lib.TurnLoop
open Yimmo.Http.Headers
open Yimmo.Http.Exchange

/-! ## Characters and numbers -/

/-- `'\r'`. -/
def cr : UInt8 := 13

/-- `'\n'`. -/
def lf : UInt8 := 10

/-- `' '`. -/
def space : UInt8 := 32

/-- `'#'`. -/
def hash : UInt8 := 35

/-- `':'`. -/
def colon : UInt8 := 58

/-- `'?'`. -/
def question : UInt8 := 63

/-- `IS_HTTP_METHOD_TOKEN`. -/
def isHttpMethodToken (c : UInt8) : Bool :=
  (65 ≤ c && c ≤ 90) || c == 45

/-- `IS_HTTP_HDR_FIELD_TOKEN`. -/
def isHttpHdrFieldToken (c : UInt8) : Bool :=
  (48 ≤ c && c ≤ 57) || (65 ≤ c && c ≤ 90) || (97 ≤ c && c ≤ 122) || c == 45

/-- `!ymo_strcasecmp(..)`: same length, and equal in lower case. -/
def ymoStrcaseEqual (left right : Bytes) : Bool :=
  left.map ymoTolower == right.map ymoTolower

/-- The characters `isspace` accepts. -/
def isSpace (c : UInt8) : Bool :=
  c == 32 || (9 ≤ c && c ≤ 13)

/-- The characters `isdigit` accepts. -/
def isDigit (c : UInt8) : Bool :=
  48 ≤ c && c ≤ 57

/-- The value of a run of decimal digits. -/
def decimal (digits : Bytes) : Nat :=
  digits.foldl (fun value c => value * 10 + (c.toNat - 48)) 0

/-- `strtol(string, &end, 10)`: the value, and the string at `end`. -/
def strtol (string : Bytes) : Int × Bytes :=
  let trimmed := string.dropWhile isSpace
  let negative := trimmed.head? == some 45
  let signed := negative || trimmed.head? == some 43
  let number := if signed then trimmed.drop 1 else trimmed
  let digits := number.takeWhile isDigit
  if digits = [] then (0, string)
  else
    let value : Int :=
      if negative then - (decimal digits : Int)
      else (decimal digits : Int)
    (max (-(2 ^ 63)) (min (2 ^ 63 - 1) value), number.dropWhile isDigit)

/-- A `long` converted to `size_t`. -/
def sizeOfLong (value : Int) : Nat :=
  (value % (sizeModulus : Int)).toNat

/--
`(body_remain << 4) | (c & 0xF) + (c >> 6) | ((c >> 3) & 0x8)`, where `c` is a
signed character and the sum is converted to `size_t`.
-/
def chunkDigit (bodyRemain : Nat) (c : UInt8) : Nat :=
  let shifted := (bodyRemain * 16) % sizeModulus
  let digit := sizeOfLong ((c &&& 0xf).toNat + c.toInt8.toInt / 64)
  let letter := ((c >>> 3) &&& 8).toNat
  shifted ||| digit ||| letter

/-! ## What a parser returns -/

/-- A count of bytes, an error with `errno` set, or undefined behaviour. -/
inductive Parsed where
  | took (count : Nat) (exchange : HttpExchange)
  | failed (errno : Errno) (exchange : HttpExchange)
  | fault (exchange : HttpExchange)

/-- `parser_saw_cr`. -/
def parserSawCr (exchange : HttpExchange) (next : HttpState) : HttpExchange :=
  { exchange with state := .crlf, nextState := next }

/--
The common end of the head parsers: `if( remain )` write the cursor back and
return the count, else `EFBIG`.
-/
def parseDone (exchange : HttpExchange) (cursor : Cursor) (count : Nat) :
    Parsed :=
  if cursor.remain ≠ 0 then .took count (exchange.save cursor)
  else .failed .efbig (exchange.abandon cursor)

/-! ## The request line -/

/-- `check_request`: the length and the digits of the version string. -/
def checkRequest (exchange : HttpExchange) (cursor : Cursor)
    (versionLen : Nat) :
    Option HttpExchange :=
  let version := exchange.request.version.getD 0
  let major := cursor.recvBuf (version + 5)
  let minor := cursor.recvBuf (version + 7)
  if versionLen = 8 then
    if major = 49 ∧ minor = 49 then
      some
        { exchange with
          request :=
            { exchange.request with
              flags :=
                { exchange.request.flags with
                  version11 := true
                  supportsChunked := true
                  requestKeepalive := true } } }
    else if major = 49 ∧ minor = 48 then some exchange
    else none
  else none

/-- What one byte does to the request line parser. -/
inductive LineStep where
  | more (exchange : HttpExchange) (cursor : Cursor)
  | line (exchange : HttpExchange) (cursor : Cursor)
  | failed (errno : Errno) (exchange : HttpExchange)
  | stop

/-- `status_item_next`, with the pointer and the state it moves to. -/
def statusItemNext (exchange : HttpExchange) (cursor : Cursor)
    (request : HttpRequest)
    (state : HttpState) :
    LineStep :=
  .more
    { exchange with request := request, state := state }
    (cursor.put 0).decr

/-- `status_item_continue`. -/
def statusItemContinue (exchange : HttpExchange) (cursor : Cursor)
    (c : UInt8) :
    LineStep :=
  .more exchange (cursor.put c).decr

/--
One turn of the loop of `ymo_parse_http_request_line`.  A line that is accepted
stores its terminator without decrementing `remain`.
-/
def requestLineByte (exchange : HttpExchange) (cursor : Cursor) (c : UInt8) :
    LineStep :=
  let request := exchange.request
  let next := some (cursor.recvCurrent + 1)
  match exchange.state with
  | .requestMethod =>
      if isHttpMethodToken c then statusItemContinue exchange cursor c
      else if c = space then
        statusItemNext exchange cursor
          { request with uri := next } .requestUriPath
      else .failed .einval (exchange.abandon cursor)
  | .requestUriPath =>
      if c = question then
        statusItemNext exchange cursor
          { request with query := next } .requestQuery
      else if c = hash then
        statusItemNext exchange cursor
          { request with query := none, fragment := next }
          .requestFragment
      else if c = space then
        statusItemNext exchange cursor
          { request with query := none, fragment := none, version := next }
          .requestVersion
      else statusItemContinue exchange cursor c
  | .requestQuery =>
      if c = hash then
        statusItemNext exchange cursor
          { request with fragment := next } .requestFragment
      else if c = space then
        statusItemNext exchange cursor
          { request with fragment := none, version := next }
          .requestVersion
      else statusItemContinue exchange cursor c
  | .requestFragment =>
      if c ≠ space then statusItemContinue exchange cursor c
      else
        statusItemNext exchange cursor
          { request with version := next } .requestVersion
  | .requestVersion =>
      if c ≠ cr then statusItemContinue exchange cursor c
      else
        let versionLen := cursor.recvCurrent - request.version.getD 0
        match checkRequest exchange cursor versionLen with
        | some checked =>
            .line (parserSawCr checked .headerName) (cursor.put 0)
        | none =>
            .failed .einval
              { exchange.abandon cursor with
                recvCurrent := cursor.recvCurrent }
  | _ => .stop

/-- The loop of `ymo_parse_http_request_line`. -/
def requestLineLoop :
    HttpExchange → Cursor → Nat → Bytes → Parsed
  | exchange, cursor, count, [] => parseDone exchange cursor count
  | exchange, cursor, count, c :: rest =>
      match requestLineByte exchange cursor c with
      | .more exchange cursor =>
          if cursor.remain = 0 then parseDone exchange cursor (count + 1)
          else requestLineLoop exchange cursor (count + 1) rest
      | .line exchange cursor => parseDone exchange cursor (count + 1)
      | .failed errno exchange => .failed errno exchange
      | .stop => parseDone exchange cursor count

/-- `ymo_parse_http_request_line`. -/
def ymoParseHttpRequestLine (exchange : HttpExchange) (buffer : Bytes) :
    Parsed :=
  requestLineLoop exchange exchange.cursor 0 buffer

/-! ## The end of a line -/

/-- `ymo_parse_http_crlf`. -/
def ymoParseHttpCrlf (exchange : HttpExchange) (buffer : Bytes) : Parsed :=
  match buffer with
  | [] => .fault exchange
  | c :: _ =>
      if c ≠ lf then .failed .ebadmsg exchange
      else
        let jumped := { exchange with state := exchange.nextState }
        .took 1
          (match exchange.nextState with
          | .headerName => { jumped with hdrName := some exchange.recvCurrent }
          | .bodyChunkHeader => { jumped with nextState := .bodyChunkTrailer }
          | .body => { jumped with nextState := .complete }
          | _ => jumped)

/-! ## The headers -/

/-- The loop of `parse_http_header_name`. -/
def headerNameLoop :
    HttpExchange → Cursor → Nat → Bytes → Parsed
  | exchange, cursor, count, [] => parseDone exchange cursor count
  | exchange, cursor, count, c :: rest =>
      if c ≠ colon then
        if c ≠ cr then
          if isHttpHdrFieldToken c then
            let cursor := (cursor.put c).decr
            let exchange :=
              { exchange with hId := ymoHdrHashCh exchange.hId c }
            if cursor.remain = 0 then parseDone exchange cursor (count + 1)
            else headerNameLoop exchange cursor (count + 1) rest
          else .failed .ebadmsg (exchange.abandon cursor)
        else
          parseDone (parserSawCr exchange .headersComplete) cursor (count + 1)
      else
        parseDone
          { exchange with state := .headerValueLeadingSpace }
          (cursor.put 0).decr (count + 1)

/-- `parse_http_header_name`. -/
def parseHttpHeaderName (exchange : HttpExchange) (buffer : Bytes) : Parsed :=
  headerNameLoop exchange exchange.cursor 0 buffer

/-- The flags and the length after a header, by the id of its name. -/
def noteHeader (request : HttpRequest) (hId : HdrId) (value : Bytes)
    (string : Bytes) :
    HttpRequest :=
  let flags := request.flags
  if hId = ymoHttpHidConnection then
    if flags.version11 then
      if ymoStrcaseEqual value (bytes "close") then
        { request with flags := flags.requestClose }
      else request
    else if ymoStrcaseEqual value (bytes "keep-alive") then
      { request with flags := { flags with requestKeepalive := true } }
    else request
  else if hId = ymoHttpHidContentLength then
    let number := strtol string
    if number.2 = [] then { request with contentLength := sizeOfLong number.1 }
    else request
  else if hId = ymoHttpHidExpect then
    if ymoStrcaseEqual value (bytes "100-continue") then
      { request with flags := { flags with expect := true } }
    else request
  else if hId = ymoHttpHidUpgrade then
    { request with flags := { flags with upgrade := true } }
  else if hId = ymoHttpHidTransferEncoding then
    if ymoStrcaseEqual value (bytes "chunked") then
      { request with flags := { flags with requestChunked := true } }
    else request
  else request

/-- `http_header_got_value`, on the bytes stored so far. -/
def httpHeaderGotValue (stray : Bytes) (exchange : HttpExchange)
    (cursor : Cursor) :
    HttpExchange :=
  let name := exchange.hdrName.getD 0
  let value := exchange.hdrValue.getD 0
  let hId := exchange.hId &&& ymoHdrTableMask
  let read := readString cursor.recvBuf cursor.recvCurrent
  let valueLen := cursor.recvCurrent - value - 1
  let headers :=
    ymoHttpHdrTableAddPrecompute read stray
      exchange.request.headers hId name (value - name - 1) value
  { exchange with
    request :=
      noteHeader { exchange.request with headers := headers } hId
        (bytesAt cursor.recvBuf value valueLen) (read value)
    hId := ymoHttpHdrHashInit }

/--
The loop of `parse_http_header_value`.  `remain` is decremented for the byte
that is stored and, in the loop test, once more when another byte follows.
-/
def headerValueLoop (stray : Bytes) :
    HttpExchange → Cursor → Nat → Bytes → Parsed
  | exchange, cursor, count, [] => parseDone exchange cursor count
  | exchange, cursor, count, c :: rest =>
      if c ≠ cr then
        let cursor := (cursor.put c).decr
        match rest with
        | [] => parseDone exchange cursor (count + 1)
        | _ :: _ =>
            let cursor := cursor.decr
            if cursor.remain = 0 then parseDone exchange cursor (count + 1)
            else headerValueLoop stray exchange cursor (count + 1) rest
      else
        let cursor := (cursor.put 0).decr
        parseDone
          (parserSawCr
            (httpHeaderGotValue stray exchange cursor)
            .headerName)
          cursor (count + 1)

/-- `parse_http_header_value`. -/
def parseHttpHeaderValue (stray : Bytes) (exchange : HttpExchange)
    (buffer : Bytes) :
    Parsed :=
  headerValueLoop stray exchange exchange.cursor 0 buffer

/-- The locals of `ymo_parse_http_headers`; its cursor is the exchange's, from
which the source reloads it after every turn. -/
structure HeadersState where
  exchange : HttpExchange
  count : Nat
  buffer : Bytes

/-- What follows a call in a turn of the loop, up to the loop test. -/
def headersResume (locals : HeadersState) :
    Parsed → Turn HeadersState Parsed
  | .took taken exchange =>
      if taken < locals.buffer.length ∧ exchange.remain ≠ 0 then
        .again
          { exchange := exchange
            count := locals.count + taken
            buffer := locals.buffer.drop taken }
      else .done (parseDone exchange exchange.cursor (locals.count + taken))
  | stopped => .done stopped

/-- One turn of the loop of `ymo_parse_http_headers`. -/
def headersTurn (stray : Bytes) (locals : HeadersState) :
    Turn HeadersState Parsed :=
  let exchange := locals.exchange
  match exchange.state with
  | .headerName =>
      headersResume locals (parseHttpHeaderName exchange locals.buffer)
  | .headerValueLeadingSpace =>
      if locals.buffer.head? = some space then
        headersResume locals (.took 1 exchange)
      else
        headersResume locals
          (parseHttpHeaderValue stray
            { exchange with
              hdrValue := some exchange.recvCurrent
              state := .headerValue }
            locals.buffer)
  | .headerValue =>
      headersResume locals
        (parseHttpHeaderValue stray exchange locals.buffer)
  | _ => .done (parseDone exchange exchange.cursor locals.count)

/-- `ymo_parse_http_headers`; every turn takes at least one byte. -/
def ymoParseHttpHeaders (stray : Bytes) (exchange : HttpExchange)
    (buffer : Bytes) :
    Parsed :=
  loop (headersTurn stray) (fun locals => .fault locals.exchange)
    (buffer.length + 1)
    { exchange := exchange, count := 0, buffer := buffer }

/-! ## Which parser a head state belongs to -/

/--
The parser that the switch of `ymo_proto_http_read` selects for a state of the
head; the states of a query and of a fragment are not among its cases.
-/
def parseHead (stray : Bytes) (exchange : HttpExchange) (buffer : Bytes) :
    Option Parsed :=
  match exchange.state with
  | .connected =>
      some
        (ymoParseHttpRequestLine
          { exchange with state := .requestMethod } buffer)
  | .requestMethod => some (ymoParseHttpRequestLine exchange buffer)
  | .requestUriPath => some (ymoParseHttpRequestLine exchange buffer)
  | .requestVersion => some (ymoParseHttpRequestLine exchange buffer)
  | .crlf => some (ymoParseHttpCrlf exchange buffer)
  | .headerName => some (ymoParseHttpHeaders stray exchange buffer)
  | .headerValueLeadingSpace =>
      some (ymoParseHttpHeaders stray exchange buffer)
  | .headerValue => some (ymoParseHttpHeaders stray exchange buffer)
  | _ => none

/-! ## The body -/

/-- The locals of `ymo_parse_http_body`: `len`, the memory from `current`. -/
structure BodyCursor where
  len : Nat
  count : Nat
  memory : Bytes

/-- How an inner loop of the body parser ends. -/
inductive BodyStep where
  | stopped (exchange : HttpExchange) (cursor : BodyCursor)
  | fault (exchange : HttpExchange)

/--
The loop over a chunk header.  A line feed leaves the loop without the
decrement of `len`.
-/
def chunkHeaderLoop :
    HttpExchange → Nat → Nat → Bytes → BodyStep
  | exchange, _, _, [] => .fault exchange
  | exchange, len, count, c :: rest =>
      if c = lf then
        let jumped :=
          if exchange.bodyRemain ≠ 0 then
            { exchange with state := .body, nextState := .bodyChunkTrailer }
          else
            { exchange with
              state := .bodyChunkTrailer, nextState := .complete }
        .stopped jumped { len := len, count := count + 1, memory := rest }
      else
        let exchange :=
          if c = cr then exchange
          else { exchange with bodyRemain := chunkDigit exchange.bodyRemain c }
        if len - 1 = 0 then
          .stopped exchange { len := 0, count := count + 1, memory := rest }
        else chunkHeaderLoop exchange (len - 1) (count + 1) rest

/-- The loop to the end of a line after a chunk; `len` as in a header. -/
def chunkTrailerLoop :
    HttpExchange → Nat → Nat → Bytes → BodyStep
  | exchange, _, _, [] => .fault exchange
  | exchange, len, count, c :: rest =>
      if c = lf then
        .stopped { exchange with state := exchange.nextState }
          { len := len, count := count + 1, memory := rest }
      else if len - 1 = 0 then
        .stopped exchange { len := 0, count := count + 1, memory := rest }
      else chunkTrailerLoop exchange (len - 1) (count + 1) rest

/-- A body callback, with the caller's own state threaded through it. -/
abbrev BodyCallback (σ : Type) : Type :=
  σ → HttpExchange → Bytes → Status × HttpExchange × σ

/-- The exchange after body bytes were taken by the callback. -/
def bodyTaken (exchange : HttpExchange) (available : Nat) : HttpExchange :=
  let exchange :=
    { exchange with bodyRemain := exchange.bodyRemain - available }
  if exchange.bodyRemain = 0 then
    if exchange.request.flags.requestChunked then
      { exchange with
        state := .bodyChunkTrailer, nextState := .bodyChunkHeader }
    else { exchange with state := exchange.nextState }
  else exchange

/-- The state of the body parser: the caller's, the exchange, the locals. -/
structure BodyState (σ : Type) where
  state : σ
  exchange : HttpExchange
  cursor : BodyCursor

/-- What follows an inner loop in a turn, up to `while( len )`. -/
def bodyResume {σ : Type} (state : σ) :
    BodyStep → Turn (BodyState σ) (Parsed × σ)
  | .stopped exchange cursor =>
      if cursor.len ≠ 0 then
        .again { state := state, exchange := exchange, cursor := cursor }
      else .done (.took cursor.count exchange, state)
  | .fault exchange => .done (.fault exchange, state)

/-- The turn in state `body` when body bytes remain. -/
def bodyBytesTurn {σ : Type} (bodyCb : BodyCallback σ) (locals : BodyState σ) :
    Turn (BodyState σ) (Parsed × σ) :=
  let exchange := locals.exchange
  let cursor := locals.cursor
  let available := min cursor.len exchange.bodyRemain
  if cursor.memory.length < available then
    .done (.fault exchange, locals.state)
  else
    match bodyCb locals.state exchange (cursor.memory.take available) with
    | (.okay, exchange, state) =>
        bodyResume state
          (.stopped (bodyTaken exchange available)
            { len := cursor.len - available
              count := cursor.count + available
              memory := cursor.memory.drop available })
    | (.err errno, exchange, state) => .done (.failed errno exchange, state)

/-- One turn of the loop of `ymo_parse_http_body`. -/
def bodyTurn {σ : Type} (bodyCb : BodyCallback σ) (locals : BodyState σ) :
    Turn (BodyState σ) (Parsed × σ) :=
  let exchange := locals.exchange
  let cursor := locals.cursor
  match exchange.state with
  | .bodyChunkHeader =>
      bodyResume locals.state
        (chunkHeaderLoop exchange cursor.len cursor.count cursor.memory)
  | .body =>
      if exchange.bodyRemain = 0 then
        bodyResume locals.state
          (.stopped { exchange with state := .complete } cursor)
      else bodyBytesTurn bodyCb locals
  | .bodyChunkTrailer =>
      bodyResume locals.state
        (chunkTrailerLoop exchange cursor.len cursor.count cursor.memory)
  | _ => .done (.took cursor.count exchange, locals.state)

/--
`ymo_parse_http_body`.  Every turn takes a byte of the memory or moves to
`complete`, which the next turn leaves the loop in.
-/
def ymoParseHttpBody {σ : Type} (bodyCb : BodyCallback σ) (state : σ)
    (exchange : HttpExchange)
    (memory : Bytes)
    (len : Nat) :
    Parsed × σ :=
  loop (bodyTurn bodyCb)
    (fun locals => (.fault locals.exchange, locals.state))
    (2 * memory.length + 3)
    { state := state
      exchange := exchange
      cursor := { len := len, count := 0, memory := memory } }

end Yimmo.Http.Parse
