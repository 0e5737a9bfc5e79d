import Yimmo.Lib.TurnLoop
import Yimmo.Ws.Parse

/-!
# WebSocket sessions

This module models `ymo_ws_session_send`, `ymo_proto_ws_read` and
`ymo_proto_ws_write` on a session and the connection around it, with the user
callback as a function of an application state that is kept between its calls.

An endpoint also keeps what happened to it: the calls of the receive callback and
the frames that were queued for sending.  A callback sends frames while it runs;
its sends are made one after the other.
-/

namespace Yimmo.Ws.Session

open Yimmo.Core.StatusCode
open Yimmo.Core.Net
open Yimmo.Core.Utf8
open Yimmo.Lib.TurnLoop
open Yimmo.Ws.Parse

/-! ## Endpoints -/

/-- A frame to send: its first byte, and the buckets of its payload. -/
structure Sending where
  flags : UInt8
  payload : List Bytes
deriving DecidableEq, Repr

/-- What a receive callback does. -/
structure Reaction where
  sends : List Sending
  status : Status
deriving DecidableEq, Repr

/-- `ymo_ws_recv_cb_t`, with the state the application keeps. -/
abbrev RecvCb (App : Type) : Type :=
  App → UInt8 → Bytes → App × Reaction

/-- A frame: its first byte and its payload. -/
structure Frame where
  flags : UInt8
  payload : Bytes
deriving DecidableEq, Repr

/-- `ymo_conn_state_t` of a connection without TLS. -/
inductive ConnState where
  | opened
  | shutdown
  | closed
deriving DecidableEq, Repr

/-- A session with its connection, its application and its history. -/
structure Endpoint (App : Type) where
  session : WsSession
  conn : ConnState
  app : App
  /-- The calls of the receive callback. -/
  calls : List Frame
  /-- The frames that were queued for sending. -/
  queued : List Frame

variable {App : Type}

/-- A connection that has just become a WebSocket. -/
def Endpoint.create (memory : Nat → Lib.ByteMemory.Memory) (app : App) :
    Endpoint App where
  session := ymoWsSessionCreate memory
  conn := .opened
  app := app
  calls := []
  queued := []

/-! ## Sending -/

/-- `gen_ws_msg_hdr`. -/
def genWsMsgHdr (flags : UInt8) (len : Nat) : Bytes :=
  let bytes (count : Nat) : Bytes :=
    (List.range count).map fun index =>
      UInt8.ofNat (len / 2 ^ (8 * (count - 1 - index)))
  if len ≤ 125 then [flags, UInt8.ofNat len]
  else if len ≤ 0xffff then [flags, 126] ++ bytes 2
  else [flags, 127] ++ bytes 8

/-- `ymo_ws_session_send_no_check`. -/
def ymoWsSessionSendNoCheck (endpoint : Endpoint App) (sending : Sending) :
    Endpoint App :=
  let session := endpoint.session
  let data := sending.payload.flatten
  let chain :=
    Bucket.fresh (genWsMsgHdr sending.flags data.length) ::
      sending.payload.map Bucket.fresh
  let sendList :=
    if session.sendList.isEmpty then chain
    else if session.sendTail = .last then session.sendList ++ chain
    else session.sendList
  let sendTail :=
    if sending.payload.isEmpty then .null
    else if session.sendList.isEmpty ∨ session.sendTail = .last then .last
    else .detached
  { endpoint with
    session :=
      { session with
        sendList := sendList
        sendTail := sendTail }
    queued :=
      endpoint.queued ++ [{ flags := sending.flags, payload := data }] }

/-- `ECONNABORTED`. -/
def econnaborted : Errno :=
  .other 103

/-- `EADDRNOTAVAIL`. -/
def eaddrnotavail : Errno :=
  .other 99

/-- `ymo_ws_session_send`. -/
def ymoWsSessionSend (endpoint : Endpoint App) (sending : Sending) :
    Status × Endpoint App :=
  let op := opCode sending.flags
  if isData op || isControl op then
    match endpoint.session.state with
    | .connected => (.okay, ymoWsSessionSendNoCheck endpoint sending)
    | .closeReceived => (.err eaddrnotavail, endpoint)
    | .expectClose => (.err eaddrnotavail, endpoint)
    | .closed => (.err .epipe, endpoint)
    | .error => (.err econnaborted, endpoint)
  else (.err .einval, endpoint)

/-- `YMO_WS_SHOULD_CLOSE_ON_WRITE`. -/
def ymoWsShouldCloseOnWrite (session : WsSession) : Bool :=
  session.state == .closed || session.state == .closeReceived ||
    session.state == .error

/-- `ymo_conn_shutdown`. -/
def ymoConnShutdown (endpoint : Endpoint App) : Endpoint App :=
  { endpoint with
    conn := if endpoint.conn = .opened then .shutdown else endpoint.conn }

/-- `ymo_proto_ws_write`. -/
def ymoProtoWsWrite (outcomes : List SendOutcome) (endpoint : Endpoint App) :
    Status × Endpoint App :=
  if endpoint.session.sendList.isEmpty then (.okay, endpoint)
  else
    let result := ymoNetSendBuckets outcomes endpoint.session.sendList
    match result.status with
    | .okay =>
        let endpoint :=
          { endpoint with
            session :=
              { endpoint.session with sendList := [], sendTail := .null } }
        (.okay,
          if ymoWsShouldCloseOnWrite endpoint.session then
            ymoConnShutdown endpoint
          else endpoint)
    | status =>
        (status,
          { endpoint with
            session := { endpoint.session with sendList := result.chain } })

/-- `ymo_write_cb`; `close_and_free_connection` closes the connection. -/
def ymoWriteCb (outcomes : List SendOutcome) (endpoint : Endpoint App) :
    Endpoint App :=
  match ymoProtoWsWrite outcomes endpoint with
  | (.okay, endpoint) => endpoint
  | (.err errno, endpoint) =>
      if ymoIsBlocked (.err errno) then endpoint
      else { endpoint with conn := .closed }

/-! ## Callbacks -/

/-- `ENOENT`. -/
def enoent : Errno :=
  .other 2

/-- The sends a callback makes while it runs. -/
def sendAll (endpoint : Endpoint App) (sends : List Sending) : Endpoint App :=
  sends.foldl
    (fun endpoint sending => (ymoWsSessionSend endpoint sending).2)
    endpoint

/-- The call of `p_data->recv_cb`. -/
def callRecvCb (recvCb : RecvCb App) (endpoint : Endpoint App) (flags : UInt8)
    (data : Bytes) :
    Status × Endpoint App :=
  let (app, reaction) := recvCb endpoint.app flags data
  let endpoint :=
    { endpoint with
      app := app
      calls := endpoint.calls ++ [{ flags := flags, payload := data }] }
  (reaction.status, sendAll endpoint reaction.sends)

/-- `ws_echo_cb`. -/
def wsEchoCb (endpoint : Endpoint App) (flags : UInt8) (data : Bytes) :
    Status × Endpoint App :=
  let flags :=
    if opCode flags = ymoWsOpPing then (flags &&& 0xf0) ||| ymoWsOpPong
    else flags
  (.okay,
    ymoWsSessionSendNoCheck endpoint { flags := flags, payload := [data] })

/-- What `invoke_recv_callback` calls. -/
abbrev Callback (App : Type) :=
  Endpoint App → UInt8 → Bytes → Status × Endpoint App

/-- The loop of `invoke_recv_callback`. -/
def invokeEach (callback : Callback App) :
    List RecvBucket → Status → Endpoint App → Status × Endpoint App
  | [], status, endpoint => (status, endpoint)
  | bucket :: rest, _, endpoint =>
      let session := endpoint.session
      match
        callback endpoint session.frameIn.flags
          (session.bucketData bucket) with
      | (.okay, endpoint) => invokeEach callback rest .okay endpoint
      | (.err errno, endpoint) => (.err errno, endpoint)

/-- `invoke_recv_callback`. -/
def invokeRecvCallback (callback : Callback App) (endpoint : Endpoint App) :
    Status × Endpoint App :=
  let (status, endpoint) :=
    invokeEach callback endpoint.session.recvList (.err enoent) endpoint
  (status,
    { endpoint with session := { endpoint.session with recvList := [] } })

/-! ## Closing -/

/-- `send_ws_close`. -/
def sendWsClose (endpoint : Endpoint App) (reason : Nat) : Endpoint App :=
  ymoWsSessionSendNoCheck endpoint
    { flags := ymoWsOpClose ||| ymoWsFlagFin
      payload := [[UInt8.ofNat (reason / 256), UInt8.ofNat reason]] }

/-- `ws_err_close`. -/
def wsErrClose (endpoint : Endpoint App) (reason : Nat) : Endpoint App :=
  if endpoint.session.state ≠ .error then
    sendWsClose
      { endpoint with session := { endpoint.session with state := .error } }
      reason
  else endpoint

/-- `reason_from_errno`. -/
def reasonFromErrno : Errno → Nat
  | .epipe => 1001
  | .enoprotoopt => 1001
  | .eprototype => 1002
  | .einval => 1002
  | .ebadmsg => 1002
  | .eprotonosupport => 1003
  | .enotsup => 1003
  | .efbig => 1009
  | .other code =>
      -- EADDRNOTAVAIL; ENOSYS; EILSEQ; ECONNREFUSED, EACCES;
      -- EMSGSIZE, EOVERFLOW
      match code with
      | 99 => 1001
      | 38 => 1003
      | 84 => 1007
      | 111 => 1008
      | 13 => 1008
      | 90 => 1009
      | 75 => 1009
      | _ => 1011
  | _ => 1011

/-- `get_close_reason`. -/
def getCloseReason (session : WsSession) : Option Nat :=
  match session.recvList.flatMap session.bucketData with
  | high :: low :: _ => some (high.toNat * 256 + low.toNat)
  | _ => none

/-- `is_reason_valid`. -/
def isReasonValid (reason : Nat) : Bool :=
  if 1000 ≤ reason ∧ reason < 3000 then
    [1000, 1001, 1002, 1003, 1007, 1008, 1009, 1010, 1011].contains reason
  else decide (3000 ≤ reason)

/-- What the read callback returns. -/
inductive ReadOutcome where
  | took (count : Nat)
  | failed (errno : Errno)
deriving DecidableEq, Repr

/-- The reason of the close frame is there and not valid. -/
def refusesClose (session : WsSession) : Bool :=
  match getCloseReason session with
  | some reason => !isReasonValid reason
  | none => false

/-- The answer to a close frame that was not expected, with what the socket does
to `ymo_conn_tx_now`. -/
def answerClose (outcomes : List SendOutcome) (endpoint : Endpoint App)
    (len : Nat) :
    ReadOutcome × Endpoint App :=
  if refusesClose endpoint.session then (.took len, wsErrClose endpoint 1002)
  else
    (.failed .eagain,
      ymoWriteCb outcomes (invokeRecvCallback wsEchoCb endpoint).2)

/-- `handle_client_close`. -/
def handleClientClose (outcomes : List SendOutcome) (endpoint : Endpoint App)
    (len : Nat) :
    ReadOutcome × Endpoint App :=
  let expected := endpoint.session.state == .expectClose
  let endpoint :=
    { endpoint with
      session := { endpoint.session with state := .closeReceived } }
  if expected then (.took len, ymoConnShutdown endpoint)
  else answerClose outcomes endpoint len

/-! ## Reading -/

/-- How the parse loop ends. -/
inductive ParseEnd where
  /-- A frame is complete; the rest of the buffer is left. -/
  | complete (session : WsSession) (rest : Bytes)
  /-- The buffer ends inside a frame. -/
  | more (session : WsSession)
  | failed (session : WsSession) (errno : Errno)

/-- One turn of the parse loop. -/
def parseTurn :
    WsSession × Bytes → Turn (WsSession × Bytes) ParseEnd
  | (session, []) => .done (.more session)
  | (session, ch :: rest) =>
      if session.frameIn.parseState = .complete then
        .done (.complete session (ch :: rest))
      else
        match parseByState session ch rest with
        | (session, .error errno) => .done (.failed session errno)
        | (session, .ok count) =>
            match (ch :: rest).drop count with
            | [] =>
                if session.frameIn.parseState = .complete then
                  .done (.complete session [])
                else .done (.more session)
            | left => .again (session, left)

/-- The parse loop; every turn consumes a byte, but for the one turn after a key
that is not there. -/
def parseLoop (session : WsSession) (buffer : Bytes) : ParseEnd :=
  loop parseTurn (fun locals => .more locals.1) (buffer.length + 2)
    (session, buffer)

/-- `memset` after a frame. -/
def resetFrame (session : WsSession) : WsSession :=
  { session with
    frameIn :=
      { WsFrame.zero with
        buffer := session.frameIn.buffer
        bufLen := session.frameIn.bufLen } }

/-- After a callback: the frame is reset, or the session fails. -/
def afterCallback (lenIn taken : Nat) :
    Status × Endpoint App → ReadOutcome × Endpoint App
  | (.okay, endpoint) =>
      (.took taken, { endpoint with session := resetFrame endpoint.session })
  | (.err _, endpoint) => (.took lenIn, wsErrClose endpoint 1002)

/-- `ws_parse_complete`. -/
def wsParseComplete (recvCb : RecvCb App) (outcomes : List SendOutcome)
    (endpoint : Endpoint App)
    (lenIn taken : Nat) :
    ReadOutcome × Endpoint App :=
  let op := opCode endpoint.session.frameIn.flags
  if isData op then
    if endpoint.session.state = .connected then
      afterCallback lenIn taken
        (invokeRecvCallback (callRecvCb recvCb) endpoint)
    else (.took lenIn, endpoint)
  else if op = ymoWsOpClose then handleClientClose outcomes endpoint lenIn
  else if op = ymoWsOpPing then
    afterCallback lenIn taken (invokeRecvCallback wsEchoCb endpoint)
  else if op = ymoWsOpPong then afterCallback lenIn taken (.okay, endpoint)
  else (.took lenIn, wsErrClose endpoint 1002)

/-- `ymo_proto_ws_read`. -/
def ymoProtoWsRead (recvCb : RecvCb App) (outcomes : List SendOutcome)
    (endpoint : Endpoint App)
    (buffer : Bytes) :
    ReadOutcome × Endpoint App :=
  let len := buffer.length
  if endpoint.session.state = .closeReceived ∨
      endpoint.session.state = .error then
    (.took len, endpoint)
  else
    match parseLoop endpoint.session buffer with
    | .failed session errno =>
        (.took len,
          wsErrClose { endpoint with session := session }
            (reasonFromErrno errno))
    | .more session => (.took len, { endpoint with session := session })
    | .complete session rest =>
        wsParseComplete recvCb outcomes
          { endpoint with session := session } len (len - rest.length)

/-- One turn of the loop of `ymo_read_cb`. -/
def readTurn (recvCb : RecvCb App) (outcomes : List SendOutcome)
    (locals : Endpoint App × Bytes) :
    Turn (Endpoint App × Bytes) (Endpoint App) :=
  match ymoProtoWsRead recvCb outcomes locals.1 locals.2 with
  | (.failed _, endpoint) => .done endpoint
  | (.took count, endpoint) =>
      if endpoint.conn ≠ .opened then .done endpoint
      else
        match locals.2.drop count with
        | [] => .done endpoint
        | left => .again (endpoint, left)

/--
`ymo_read_cb` after a `recv` of some bytes; `ymo_proto_ws_read` fails with
`EAGAIN` only, which leaves the connection alone.  What a connection that was
shut down receives is read and dropped.
-/
def ymoReadCb (recvCb : RecvCb App) (outcomes : List SendOutcome)
    (endpoint : Endpoint App)
    (received : Bytes) :
    Endpoint App :=
  if endpoint.conn = .opened then
    loop (readTurn recvCb outcomes) (fun locals => locals.1)
      (received.length + 1) (endpoint, received)
  else endpoint

end Yimmo.Ws.Session
