import Yimmo.Http.Application

/-!
# Reading requests

This module models `ymo_proto_http_read`, with `ymo_http_handler`,
`buffer_body_cb` and `ymo_proto_http_handle_error`.  Reading works on the
session's error state and its exchange; what it does to the connection, to the
responses and to the session's response list is returned as a list of effects,
in order, which the session model carries out.

The loop of the source is given by `readTurn`: each turn is one pass through the
body of the `do .. while( len )`, with the jumps to the assessment after it.
-/

namespace Yimmo.Http.Reader

open Yimmo.Core.StatusCode
open Yimmo.Lib.ByteMemory
open Yimmo.Lib.TurnLoop
open Yimmo.Http.Headers
open Yimmo.Http.Exchange
open Yimmo.Http.Parse
open Yimmo.Http.Application

variable (protoData : HttpProtoData)

/-! ## Effects -/

/-- What a callback was shown and how the library answered it. -/
inductive Shown where
  | header (view : RequestView)
  | body (view : RequestView) (data : Bytes)
  /-- A decision of `buffer_body_cb`. -/
  | buffered (data : Bytes) (status : Status)
  | http (view : RequestView)
  | upgrade (header : Bytes) (view : RequestView)
deriving DecidableEq, Repr

/-- What reading does outside the exchange. -/
inductive Effect where
  /-- `ymo_http_session_add_new_http_request`. -/
  | newExchange
  /-- `ymo_http_session_init_response`. -/
  | initResponse (flags : HttpFlags)
  /-- `send_100_continue`. -/
  | sendContinue
  | shown (event : Shown)
  /-- `ymo_http_handler` is called. -/
  | handler
  /-- A call on `exchange->response`. -/
  | call (call : ResponseCall)
  /-- `response->proto_new = upgrade->proto`. -/
  | protoNew (proto : Option Nat)
  /-- `response->exchange = session->exchange; session->exchange = NULL`. -/
  | detachExchange
  /-- `ymo_http_session_add_response` of `exchange->response`. -/
  | addResponse
  /-- `ymo_http_response_free` of `exchange->response`. -/
  | freeResponse
  /-- The error response of `ymo_proto_http_handle_error`. -/
  | errorResponse (status : Nat)
  /-- `ymo_server_get_state(conn->server)`. -/
  | serverState
  /-- The content of the exchange object from here on. -/
  | store (exchange : HttpExchange)

/-- The session's error state, and the effects so far. -/
structure ReadState where
  error : Bool
  effects : List Effect

def ReadState.emit (state : ReadState) (effect : Effect) : ReadState :=
  { state with effects := state.effects ++ [effect] }

/-! ## Callbacks on the exchange -/

/-- The keep-alive bit of the response after a call. -/
def keepaliveAfter (call : ResponseCall) (keepalive : Bool) : Bool :=
  match call with
  | .setFlags flags => flags.requestKeepalive
  | _ => keepalive

/-- The session's error state after a call (`ymo_http_response_issue`). -/
def errorAfter (call : ResponseCall) (error : Bool) : Bool :=
  match call with
  | .issue status => error || decide (400 ≤ status)
  | _ => error

/-- One call of an application on the response of the exchange. -/
def runCall (exchange : HttpExchange) (state : ReadState) (call : AppCall) :
    HttpExchange × ReadState :=
  let resolved := resolveCall exchange call
  match resolved.1 with
  | some call =>
      ({ resolved.2 with
          response :=
            resolved.2.response.map fun response =>
              { response with
                keepalive := keepaliveAfter call response.keepalive } },
        { error := errorAfter call state.error
          effects := state.effects ++ [.store resolved.2, .call call] })
  | none => (resolved.2, state)

/-- The calls of a callback, in order. -/
def runCalls :
    HttpExchange → ReadState → List AppCall → HttpExchange × ReadState
  | exchange, state, [] => (exchange, state)
  | exchange, state, call :: calls =>
      let after := runCall exchange state call
      runCalls after.1 after.2 calls

/-- The exchange without what the calls of a callback can change. -/
def framed (exchange : HttpExchange) : HttpExchange :=
  { exchange with
    request :=
      { exchange.request with ws := { current := 0, memory := fun _ => 0 } }
    response := none }

@[simp]
theorem framed_resolveCall (exchange : HttpExchange) (call : AppCall) :
    framed (resolveCall exchange call).2 = framed exchange := by
  cases call with
  | insertHeader header value =>
      simp only [resolveCall]
      split <;> rfl
  | _ => rfl

@[simp]
theorem framed_runCall (exchange : HttpExchange) (state : ReadState)
    (call : AppCall) :
    framed (runCall exchange state call).1 = framed exchange := by
  rw [← framed_resolveCall exchange call]
  unfold runCall
  dsimp only
  split <;> rfl

/-- The calls of a callback change the workspace and the response only. -/
@[simp]
theorem framed_runCalls (exchange : HttpExchange) (state : ReadState)
    (calls : List AppCall) :
    framed (runCalls exchange state calls).1 = framed exchange := by
  induction calls generalizing exchange state with
  | nil => rfl
  | cons call calls ih => rw [runCalls, ih, framed_runCall]

/-- A callback that was shown the request and reacts to it. -/
def react (exchange : HttpExchange) (state : ReadState) (event : Shown)
    (reaction : Reaction) :
    Status × HttpExchange × ReadState :=
  (reaction.status,
    runCalls exchange (state.emit (.shown event)) reaction.calls)

/-! ## Bodies -/

/-- The block `buffer_body_cb` works on: the one there is, or a new one. -/
def bodyBlock (request : HttpRequest) : Option HttpRequest :=
  match request.body with
  | some _ => some request
  | none =>
      if request.contentLength ≤ ymoHttpMaxBody then
        some
          { request with
            body :=
              some
                { size :=
                    if request.contentLength ≠ 0 then request.contentLength
                    else ymoHttpMaxBody
                  data := [] }
            contentLength := 0 }
      else none

/-- The request after `buffer_body_cb` has copied the data. -/
def bufferData (request : HttpRequest) (data : Bytes) : HttpRequest :=
  { request with
    body := request.body.map fun body => body.copy request.bodyReceived data
    bodyReceived := request.bodyReceived + data.length
    contentLength := (request.contentLength + data.length) % sizeModulus }

/-- `buffer_body_cb`. -/
def bufferBodyCb : BodyCallback ReadState :=
  fun state exchange data =>
    match bodyBlock exchange.request with
    | none =>
        (.err .enomem, exchange,
          state.emit (.shown (.buffered data (.err .enomem))))
    | some request =>
        if ymoHttpMaxBody - request.bodyReceived < data.length then
          (.err .efbig, { exchange with request := request },
            state.emit (.shown (.buffered data (.err .efbig))))
        else
          (.okay,
            { exchange with request := bufferData request data },
            state.emit (.shown (.buffered data .okay)))

/-- `http_proto_data->body_cb`. -/
def bodyCb (protoData : HttpProtoData) : BodyCallback ReadState :=
  match protoData.bodyCb with
  | none => bufferBodyCb
  | some callback =>
      fun state exchange data =>
        let view := viewOf exchange
        react exchange state (.body view data) (callback view data)

/-! ## Results -/

/-- How `ymo_proto_http_read` ends: a count, an error, or undefined behaviour;
`spin` is a loop that was given up on. -/
inductive ReadOutcome where
  | took (count : Nat)
  | failed (errno : Errno)
  | fault
  | spin
deriving DecidableEq, Repr

/-- The outcome, `session->exchange` afterwards, and the effects. -/
structure ReadResult where
  outcome : ReadOutcome
  exchange : Option HttpExchange
  state : ReadState

/-- A count, or an error whose `errno` is the status. -/
def outcomeOf (count : Nat) : Status → ReadOutcome
  | .okay => .took count
  | .err errno => .failed errno

/-- The locals of the loop: the memory from `parse_buf` on, `len`, and what has
been taken. -/
structure Scan where
  memory : Bytes
  len : Nat
  taken : Nat

/-- `parse_buf += n; len -= n;` on a `size_t`. -/
def Scan.advance (scan : Scan) (count : Nat) : Scan where
  memory := scan.memory.drop count
  len :=
    if count ≤ scan.len then scan.len - count
    else sizeModulus - (count - scan.len)
  taken := scan.taken + count

/-! ## Errors -/

/-- The response status for a parse error. -/
def errorStatus (exchange : HttpExchange) : Errno → Nat
  | .eproto => 400
  | .ebadmsg => 400
  | .einval => 400
  | .enomem => 500
  | .efbig => if exchange.request.flags.expect then 417 else 413
  | .enotsup => 501
  | .eprotonosupport => 501
  | .enoprotoopt => 501
  | .eprototype => 426
  | _ => 500

/-- `ymo_proto_http_handle_error`. -/
def ymoProtoHttpHandleError (exchange : HttpExchange) (state : ReadState)
    (errno : Errno) :
    ReadResult :=
  let state := state.emit (.store exchange)
  if state.error then
    { outcome := .failed .epipe, exchange := some exchange,
      state := state }
  else
    { outcome := .took 0
      exchange := some exchange
      state :=
        { error := true
          effects :=
            state.effects ++ [.errorResponse (errorStatus exchange errno)] } }

/-! ## The request handler -/

/-- The outcome of the upgrade chain. -/
structure UpgradeResult where
  status : UpgradeStatus
  exchange : HttpExchange
  state : ReadState

/-- `ymo_http_check_upgrade`. -/
def ymoHttpCheckUpgrade (header : Bytes) :
    List UpgradeHandler → HttpExchange → ReadState → UpgradeResult
  | [], exchange, state =>
      { status := .noproto, exchange := exchange, state := state }
  | handler :: handlers, exchange, state =>
      let view := viewOf exchange
      let reaction := handler.cb header view
      let after :=
        runCalls exchange (state.emit (.shown (.upgrade header view)))
          reaction.calls
      match reaction.status with
      | .noproto => ymoHttpCheckUpgrade header handlers after.1 after.2
      | .handled =>
          { status := .handled, exchange := after.1
            state := after.2.emit (.protoNew handler.proto) }
      | .unknown =>
          { status := .error (.err .enoprotoopt)
            exchange := after.1
            state := after.2 }
      | status => { status := status, exchange := after.1, state := after.2 }

/-- `issue_standard_callback`. -/
def standardCallback (protoData : HttpProtoData) (exchange : HttpExchange)
    (state : ReadState) :
    Status × HttpExchange × ReadState :=
  let view := viewOf exchange
  react exchange state (.http view) (protoData.httpCb view)

/-- The part of `ymo_http_handler` that calls the application. -/
def handlerCallback (protoData : HttpProtoData) (exchange : HttpExchange)
    (state : ReadState) :
    Status × HttpExchange × ReadState :=
  if exchange.request.flags.upgrade then
    let read := readString exchange.recvBuf exchange.recvCurrent
    let header :=
      (ymoHttpHdrTableGetId exchange.request.headers
        ymoHttpHidUpgrade).elim [] fun node => node.string read
    let upgrade :=
      ymoHttpCheckUpgrade header protoData.upgradeHandler exchange state
    match upgrade.status with
    | .ignore => standardCallback protoData upgrade.exchange upgrade.state
    | .handled => (.okay, upgrade.exchange, upgrade.state)
    | .error errno => (errno, upgrade.exchange, upgrade.state)
    | .noproto => (.okay, runCall upgrade.exchange upgrade.state (.issue 501))
    | .unknown => standardCallback protoData upgrade.exchange upgrade.state
  else standardCallback protoData exchange state

theorem framed_ymoHttpCheckUpgrade (header : Bytes)
    (handlers : List UpgradeHandler)
    (exchange : HttpExchange)
    (state : ReadState) :
    framed
        (ymoHttpCheckUpgrade header handlers exchange state).exchange =
      framed exchange := by
  induction handlers generalizing exchange state with
  | nil => rfl
  | cons handler handlers ih =>
      simp only [ymoHttpCheckUpgrade]
      split
      · rw [ih, framed_runCalls]
      · exact framed_runCalls _ _ _
      · exact framed_runCalls _ _ _
      · exact framed_runCalls _ _ _

@[simp]
theorem framed_standardCallback (exchange : HttpExchange) (state : ReadState) :
    framed (standardCallback protoData exchange state).2.1 = framed exchange :=
  framed_runCalls _ _ _

@[simp]
theorem framed_handlerCallback (exchange : HttpExchange) (state : ReadState) :
    framed (handlerCallback protoData exchange state).2.1 =
      framed exchange := by
  unfold handlerCallback
  split
  · dsimp only
    split
    · rw [framed_standardCallback, framed_ymoHttpCheckUpgrade]
    · exact framed_ymoHttpCheckUpgrade _ _ _ _
    · exact framed_ymoHttpCheckUpgrade _ _ _ _
    · rw [framed_runCall, framed_ymoHttpCheckUpgrade]
    · rw [framed_standardCallback, framed_ymoHttpCheckUpgrade]
  · exact framed_standardCallback protoData exchange state

/-- The exchange after its response was put on the session's list. -/
def markQueued (exchange : HttpExchange) : HttpExchange :=
  { exchange with
    response :=
      exchange.response.map fun response => { response with queued := true } }

/-- `handle_callback_result`: the status, `session->exchange`, the effects. -/
def handleCallbackResult (status : Status) (exchange : HttpExchange)
    (state : ReadState) :
    Option HttpExchange × ReadState :=
  if status = .okay then
    let queued := markQueued exchange
    let keepalive := exchange.response.elim false (·.keepalive)
    let after := if keepalive then ymoHttpExchangeReset queued else queued
    (some after, (state.emit .addResponse).emit (.store after))
  else if ymoIsBlocked status then
    (none,
      ((state.emit (.store exchange)).emit .detachExchange).emit
        .addResponse)
  else (some exchange, (state.emit (.store exchange)).emit .freeResponse)

/-- `http_parse_complete`: the request is handled and reading returns. -/
def parseComplete (protoData : HttpProtoData) (exchange : HttpExchange)
    (state : ReadState)
    (taken : Nat) :
    ReadResult :=
  let reaction := handlerCallback protoData exchange (state.emit .handler)
  let after := handleCallbackResult reaction.1 reaction.2.1 reaction.2.2
  if reaction.1 ≠ .okay ∧ ymoIsBlocked reaction.1 = false then
    { outcome := outcomeOf taken reaction.1, exchange := after.1,
      state := after.2 }
  else
    { outcome := .took taken, exchange := after.1,
      state := after.2.emit .serverState }

/-! ## The end of the headers -/

/-- The exchange when its body is about to be read, or there is none. -/
def expectBody (exchange : HttpExchange) : HttpExchange :=
  let exchange :=
    { exchange with
      state := .complete
      nextState := .complete
      response :=
        some
          { keepalive := exchange.request.flags.requestKeepalive
            queued := false } }
  if 0 < exchange.request.contentLength then
    { exchange with
      state := .body
      bodyRemain := exchange.request.contentLength }
  else if exchange.request.flags.requestChunked then
    { exchange with
      bodyRemain := 0
      nextState := .body
      state := .bodyChunkHeader }
  else exchange

/-- Whether `100 Continue` is sent before the body. -/
def expectsContinue (request : HttpRequest) : Bool :=
  request.flags.expect &&
    (decide (0 < request.contentLength) || request.flags.requestChunked)

/-- `http_headers_complete`, up to the header callback's status. -/
def headersComplete (protoData : HttpProtoData) (exchange : HttpExchange)
    (state : ReadState) :
    Status × HttpExchange × ReadState :=
  let state := state.emit (.initResponse exchange.request.flags)
  let ready := expectBody exchange
  let state :=
    if expectsContinue exchange.request then
      (state.emit (.store ready)).emit .sendContinue
    else state
  match protoData.headerCb with
  | some callback =>
      if exchange.request.flags.upgrade then (.okay, ready, state)
      else
        let view := viewOf ready
        react ready state (.header view) (callback view)
  | none => (.okay, ready, state)

/-- The header callback changes the workspace and the response only. -/
@[simp]
theorem framed_headersComplete (exchange : HttpExchange) (state : ReadState) :
    framed (headersComplete protoData exchange state).2.1 =
      framed (expectBody exchange) := by
  unfold headersComplete
  dsimp only
  split
  · split
    · rfl
    · exact framed_runCalls _ _ _
  · rfl

/-! ## The loop -/

/-- The state of the loop: the exchange, the effects, the locals. -/
structure ReadLocals where
  exchange : HttpExchange
  state : ReadState
  scan : Scan

/-- Reading returns the count of what was taken. -/
def returnTaken (locals : ReadLocals) : ReadResult where
  outcome := .took locals.scan.taken
  exchange := some locals.exchange
  state := locals.state.emit (.store locals.exchange)

/-- `http_parse_complete` from the loop. -/
def parseCompleteTurn (protoData : HttpProtoData) (locals : ReadLocals) :
    ReadResult :=
  parseComplete protoData locals.exchange locals.state locals.scan.taken

/--
`http_headers_complete`, then `http_parse_resume` if bytes are left and the
state assessment otherwise.
-/
def headersCompleteTurn (protoData : HttpProtoData) (locals : ReadLocals) :
    Turn ReadLocals ReadResult :=
  match headersComplete protoData locals.exchange locals.state with
  | (.err errno, exchange, state) =>
      .done
        { outcome := .failed errno
          exchange := some exchange
          state := state.emit (.store exchange) }
  | (.okay, exchange, state) =>
      let later := { locals with exchange := exchange, state := state }
      if locals.scan.len ≠ 0 then .again later
      else if exchange.state = .complete then
        .done (parseCompleteTurn protoData later)
      else .done (returnTaken later)

/-- `while( len )`, and `http_state_assess` when nothing is left. -/
def loopTest (protoData : HttpProtoData) (locals : ReadLocals) :
    Turn ReadLocals ReadResult :=
  if locals.scan.len ≠ 0 then .again locals
  else
    match locals.exchange.state with
    | .complete => .done (parseCompleteTurn protoData locals)
    | .headersComplete => headersCompleteTurn protoData locals
    | _ => .done (returnTaken locals)

/-- What follows the parser call of a turn. -/
def afterParse (protoData : HttpProtoData) (scan : Scan) (state : ReadState) :
    Parsed → Turn ReadLocals ReadResult
  | .took count exchange =>
      loopTest protoData
        { exchange := exchange, state := state,
          scan := scan.advance count }
  | .failed errno exchange =>
      .done (ymoProtoHttpHandleError exchange state errno)
  | .fault exchange =>
      .done
        { outcome := .fault
          exchange := some exchange
          state := state.emit (.store exchange) }

/--
The turn in a state of the head, or in one the switch does not name; the latter
leaves `n` at 0.  The head parsers compute `buffer + len`, which is undefined
when `len` reaches beyond the memory.
-/
def headTurn (protoData : HttpProtoData) (locals : ReadLocals) :
    Turn ReadLocals ReadResult :=
  let scan := locals.scan
  if scan.memory.length < scan.len then
    afterParse protoData scan locals.state (.fault locals.exchange)
  else
    match
      parseHead protoData.stray locals.exchange
        (scan.memory.take scan.len) with
    | some parsed => afterParse protoData scan locals.state parsed
    | none => afterParse protoData scan locals.state (.took 0 locals.exchange)

/-- The turn in a state of the body. -/
def bodyStateTurn (protoData : HttpProtoData) (locals : ReadLocals) :
    Turn ReadLocals ReadResult :=
  let parsed :=
    ymoParseHttpBody (bodyCb protoData) locals.state locals.exchange
      locals.scan.memory locals.scan.len
  afterParse protoData locals.scan parsed.2 parsed.1

/-- One turn of the loop of `ymo_proto_http_read`. -/
def readTurn (protoData : HttpProtoData) (locals : ReadLocals) :
    Turn ReadLocals ReadResult :=
  match locals.exchange.state with
  | .headersComplete => headersCompleteTurn protoData locals
  | .complete => .done (parseCompleteTurn protoData locals)
  | .bodyChunkHeader => bodyStateTurn protoData locals
  | .body => bodyStateTurn protoData locals
  | .bodyChunkTrailer => bodyStateTurn protoData locals
  | _ => headTurn protoData locals

/-- A loop that is given up on. -/
def readGiveUp (locals : ReadLocals) : ReadResult where
  outcome := .spin
  exchange := some locals.exchange
  state := locals.state.emit (.store locals.exchange)

/-- Enough turns for a loop that ends. -/
def readFuel (memory : Bytes) : Nat :=
  17 * (memory.length + 1) + 1

/-- `ymo_http_session_is_read_ready`. -/
def ymoHttpSessionIsReadReady (exchange : Option HttpExchange)
    (state : ReadState) :
    HttpExchange × ReadState :=
  match exchange with
  | some exchange => (exchange, state)
  | none => (ymoHttpExchangeCreate, state.emit .newExchange)

/--
`ymo_proto_http_read` on the session's error state and exchange.  The memory
starts with the `len` bytes of the read and goes on with whatever follows them.
-/
def ymoProtoHttpRead (protoData : HttpProtoData) (error : Bool)
    (exchange : Option HttpExchange)
    (memory : Bytes)
    (len : Nat) :
    ReadResult :=
  let state : ReadState := { error := error, effects := [] }
  if error then { outcome := .took len, exchange := exchange, state := state }
  else
    let ready := ymoHttpSessionIsReadReady exchange state
    loop (readTurn protoData) readGiveUp (readFuel memory)
      { exchange := ready.1
        state := ready.2
        scan := { memory := memory, len := len, taken := 0 } }

end Yimmo.Http.Reader
