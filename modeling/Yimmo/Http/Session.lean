import Yimmo.Http.Reader
import Yimmo.Http.Response
import Yimmo.Lib.LinkedList
import Yimmo.Lib.GuardedRun

/-!
# Sessions

This module models one connection of the server with its HTTP session, the
exchanges and the responses: `ymo_http_session.c`, `ymo_proto_http_read` and
`ymo_proto_http_write` as they work on these objects, and the read and write
callbacks of `ymo_server.c`.

Objects are identified by numbers that are never used again.  A freed object
keeps its content, as freed memory may; every access to one is recorded among
the faults.  A step is what the event loop can do to the connection: bytes
arrive, one turn of the loop of `ymo_read_cb` offers them to the parser, the peer
disconnects, the socket is writable, or the application makes a call on a
response whose handler has blocked.

The socket decides what a send does.  Another protocol that takes the connection
over is only seen by the status of its initialization.
-/

namespace Yimmo.Http.Session

open Yimmo.Core.StatusCode
open Yimmo.Core.Net
open Yimmo.Lib.LinkedList
open Yimmo.Http.Headers
open Yimmo.Http.Exchange
open Yimmo.Http.Parse
open Yimmo.Http.Application
open Yimmo.Http.Reader
open Yimmo.Http.Response

/-! ## The objects -/

/-- `ymo_conn_state_t` of a connection without TLS. -/
inductive ConnState where
  | opened
  | shutdown
  | closed
deriving DecidableEq, Repr

/-- What an access can be a fault of. -/
inductive Object where
  | conn
  | session
  | response (id : Nat)
deriving DecidableEq, Repr

/-- A call of `ymo_conn_shutdown` by the write callback, after it has completed
a response. -/
structure ShutdownCall where
  /-- The completed response had the keep-alive flag. -/
  keepalive : Bool
  /-- It was the last one of the list. -/
  last : Bool
deriving DecidableEq, Repr

/-- A head that was serialized. -/
structure HeadRecord where
  response : Nat
  sent : Option Bytes
  /-- The head if every header were the string it was set to. -/
  meant : Option Bytes
deriving DecidableEq, Repr

/-- `struct ymo_conn`, `struct ymo_http_session`, the exchanges and responses, and
the history of the connection. -/
structure Conn where
  state : ConnState
  /-- Another protocol has taken over. -/
  handedOver : Bool
  /-- What `ymo_read_cb` still has to offer. -/
  pending : Scan
  /-- The session is in `YMO_HTTP_SESSION_ERROR`. -/
  error : Bool
  exchange : Option Nat
  response : Option Nat
  sendBuffer : List Bucket
  exchanges : Nat → HttpExchange
  /-- `exchange->response`. -/
  exchangeResponse : Nat → Option Nat
  responses : Nat → HttpResponse
  nextExchange : Nat
  nextResponse : Nat
  /-- Reading has met undefined behaviour, or does not end. -/
  lost : Bool
  /-- A walk through the list of responses does not end. -/
  hung : Bool
  /-- The exchange whose memory the headers of a response lie in. -/
  origin : Nat → Nat
  /-- The headers of a response, as the strings they were set to. -/
  meant : Nat → HdrTable HdrPointer
  /-- The responses that were created for requests. -/
  requests : List Nat
  /-- The responses that `ymo_http_handler` was called with. -/
  handled : List Nat
  /-- The responses whose request ended the read call with an error. -/
  declined : List Nat
  /-- The responses that were put on the list. -/
  added : List Nat
  /-- The responses that were fully sent. -/
  completed : List Nat
  wire : Bytes
  /-- What was put on the send buffer for a response. -/
  stream : Nat → Bytes
  heads : List HeadRecord
  shutdowns : List ShutdownCall
  freedExchanges : List Nat
  freedResponses : List Nat
  sessionFrees : Nat
  connFrees : Nat
  faults : List Object

/-- A connection whose session was just created. -/
def Conn.create : Conn where
  state := .opened
  handedOver := false
  pending := { memory := [], len := 0, taken := 0 }
  error := false
  exchange := none
  response := none
  sendBuffer := []
  exchanges _ := ymoHttpExchangeCreate
  exchangeResponse _ := none
  responses _ := ymoHttpResponseCreate
  nextExchange := 0
  nextResponse := 0
  lost := false
  hung := false
  origin _ := 0
  meant _ := ymoHttpHdrTableClear
  requests := []
  handled := []
  declined := []
  added := []
  completed := []
  wire := []
  stream _ := []
  heads := []
  shutdowns := []
  freedExchanges := []
  freedResponses := []
  sessionFrees := 0
  connFrees := 0
  faults := []

/-- `response->next`. -/
def Conn.next (conn : Conn) (id : Nat) : Option Nat :=
  (conn.responses id).next

/-- The memory that the headers of a response lie in. -/
def Conn.memory (conn : Conn) (id : Nat) : HdrMemory :=
  HdrMemory.of (conn.exchanges (conn.origin id))

/-! ## Accesses -/

def Conn.freed (conn : Conn) : Object → Bool
  | .conn => conn.connFrees != 0
  | .session => conn.sessionFrees != 0
  | .response id => conn.freedResponses.contains id

/-- The objects are accessed. -/
def Conn.access (conn : Conn) (objects : List Object) : Conn :=
  { conn with faults := conn.faults ++ objects.filter conn.freed }

def Conn.setResponse (conn : Conn) (id : Nat) (response : HttpResponse) :
    Conn :=
  { conn with
    responses := Function.update conn.responses id response
    faults := conn.faults ++ [Object.response id].filter conn.freed }

/-! ## The session -/

/-- `ymo_http_session_add_response`. -/
def ymoHttpSessionAddResponse (conn : Conn) (id : Nat) : Conn :=
  let conn := { conn.access [.session] with added := conn.added ++ [id] }
  match conn.response with
  | none => { conn with response := some id }
  | some head =>
      match walk conn.next conn.nextResponse head with
      | none => { conn with hung := true }
      | some nodes =>
          let last := nodes.getLast?.getD head
          (conn.access (nodes.map .response)).setResponse last
            { conn.responses last with next := some id }

/-- `ymo_http_exchange_free`. -/
def ymoHttpExchangeFree (conn : Conn) (id : Nat) : Conn :=
  { conn with freedExchanges := conn.freedExchanges ++ [id] }

/-- `ymo_http_response_free`, with the exchange the response holds. -/
def ymoHttpResponseFree (conn : Conn) (id : Nat) : Conn :=
  { conn.access [.response id] with
    freedExchanges :=
      conn.freedExchanges ++ (conn.responses id).exchange.toList
    freedResponses := conn.freedResponses ++ [id] }

/-- `ymo_http_session_complete_response`. -/
def ymoHttpSessionCompleteResponse (conn : Conn) : Conn :=
  match conn.response with
  | none => conn.access [.session]
  | some id =>
      ymoHttpResponseFree
        { conn.access [.session, .response id] with response := conn.next id }
        id

/-- `while( ymo_http_session_complete_response(http_session) == YMO_OKAY )`. -/
def completeAll : Nat → Conn → Conn
  | 0, conn => conn
  | bound + 1, conn =>
      if conn.response.isSome then
        completeAll bound (ymoHttpSessionCompleteResponse conn)
      else conn

/-- `ymo_http_session_free_request`. -/
def ymoHttpSessionFreeRequest (conn : Conn) : Conn :=
  { conn.access [.session] with
    exchange := none
    freedExchanges := conn.freedExchanges ++ conn.exchange.toList }

/-- `ymo_http_session_free`. -/
def ymoHttpSessionFree (conn : Conn) : Conn :=
  let conn := ymoHttpSessionFreeRequest (conn.access [.session, .conn])
  let conn := completeAll conn.nextResponse conn
  { conn with
    sendBuffer := []
    sessionFrees := conn.sessionFrees + 1 }

/-! ## The connection -/

/-- `ymo_conn_shutdown`. -/
def ymoConnShutdown (conn : Conn) : Conn :=
  { conn.access [.conn] with
    state := if conn.state = .opened then .shutdown else conn.state }

/--
`close_and_free_connection`.  `ymo_conn_close` reads until the peer has closed,
since its `size_t` never falls below zero, and so always closes.
-/
def closeAndFreeConnection (conn : Conn) : Conn :=
  let conn := { conn.access [.conn] with state := .closed }
  let conn := if conn.handedOver then conn else ymoHttpSessionFree conn
  { conn with connFrees := conn.connFrees + 1 }

/-- `ymo_conn_transition_proto`, with the status of the new protocol. -/
def ymoConnTransitionProto (transition : Status) (conn : Conn) :
    Status × Conn :=
  (transition,
    { ymoHttpSessionFree (conn.access [.conn]) with handedOver := true })

/-! ## Writing -/

/-- What sends do: a socket that is shut down fails. -/
def Conn.socket (conn : Conn) (outcomes : List SendOutcome) :
    List SendOutcome :=
  if conn.state = .opened then outcomes else [.failed .epipe]

/-- The head that this write callback serializes, if it comes to that. -/
def headRecord (conn : Conn) (id : Nat) : List HeadRecord :=
  let response := conn.responses id
  let serialize (response : HttpResponse) : Option Bytes :=
    match (ymoHttpResponseStart (conn.memory id) response).1 with
    | .bucket head => some head.unsent
    | .null _ => none
  if response.flags.responseReady &&
      !response.flags.responseStarted then
    [{ response := id
       sent := serialize response
       meant := serialize { response with headers := conn.meant id } }]
  else []

/-- What this write callback puts on the send buffer. -/
def streamed (conn : Conn) (id : Nat) : Bytes :=
  match prepareWrite (conn.memory id) (conn.responses id) conn.sendBuffer with
  | .returns _ _ _ => []
  | .sends _ chain => (unsentAll chain).drop (unsentAll conn.sendBuffer).length

/-- The part of `ymo_proto_http_write` after a response is fully sent: it is
freed, and then asked for the protocol to change to. -/
def completeWrite (transition : Status) (id : Nat) (conn : Conn) :
    Status × Conn :=
  let keepalive := (conn.responses id).flags.requestKeepalive
  let conn :=
    ymoHttpSessionCompleteResponse
      { conn with
        sendBuffer := []
        completed := conn.completed ++ [id] }
  let conn := conn.access [.response id]
  if (conn.responses id).protoNew.isSome then
    ymoConnTransitionProto transition conn
  else
    let call : ShutdownCall :=
      { keepalive := keepalive, last := conn.response.isNone }
    let shut (conn : Conn) : Conn :=
      { ymoConnShutdown conn with shutdowns := conn.shutdowns ++ [call] }
    let conn := if keepalive then conn else shut conn
    let conn := conn.access (.session :: conn.response.toList.map .response)
    let nextReady :=
      conn.response.elim false fun next =>
        (conn.responses next).flags.responseReady
    if nextReady then (ymoWouldblock, conn)
    else if conn.error then (.okay, shut conn)
    else (.okay, conn)

/-- `ymo_proto_http_write`. -/
def ymoProtoHttpWrite (outcomes : List SendOutcome) (transition : Status)
    (conn : Conn) :
    Status × Conn :=
  match conn.response with
  | none => (.okay, conn.access [.session])
  | some id =>
      let written :=
        writeResponse (conn.memory id) (conn.socket outcomes)
          (conn.responses id) conn.sendBuffer
      let sent :=
        { (conn.access [.session, .conn]).setResponse id
            written.response with
          sendBuffer := written.sendBuffer
          wire := conn.wire ++ written.wire
          stream :=
            Function.update conn.stream id (conn.stream id ++ streamed conn id)
          heads := conn.heads ++ headRecord conn id }
      if written.complete then completeWrite transition id sent
      else (written.status, sent)

/-- `ymo_write_cb`. -/
def ymoWriteCb (outcomes : List SendOutcome) (transition : Status)
    (conn : Conn) :
    Conn :=
  let written := ymoProtoHttpWrite outcomes transition (conn.access [.conn])
  let conn := written.2.access [.conn]
  if written.1 ≠ .okay ∧ ymoIsBlocked written.1 = false then
    closeAndFreeConnection conn
  else conn

/-! ## Calls on responses -/

/-- The call enables the write watcher of the connection. -/
def enablesWrites (response : HttpResponse) : ResponseCall → Bool
  | .bodyAppend _ => response.flags.supportsChunked
  | .ready => true
  | .finish => true
  | .issue _ => true
  | _ => false

/-- The headers of a response after a call, as the strings they are set to. -/
def meantAfter (memory : HdrMemory) (response : HttpResponse)
    (headers : HdrTable HdrPointer) :
    ResponseCall → HdrTable HdrPointer
  | .insertHeader header value =>
      let read := memory.string response.contentLenStr
      ymoHttpHdrTableInsert read headers (.literal (read header))
        (.literal (read value))
  | .issue status =>
      if 400 ≤ status then
        ymoHttpHdrTableInsert (memory.string response.contentLenStr)
          headers (.literal (bytes "Connection"))
          (.literal (bytes "Close"))
      else headers
  | _ => headers

/-- A call on a response, by the application or by the library. -/
def callResponse (conn : Conn) (id : Nat) (call : ResponseCall) : Conn :=
  let response := conn.responses id
  let conn' :=
    conn.access (if enablesWrites response call then [.session, .conn] else [])
  { conn'.setResponse id (applyCall (conn.memory id) response call) with
    error := errorAfter call conn.error
    meant :=
      Function.update conn.meant id
        (meantAfter (conn.memory id) response (conn.meant id) call) }

/-- A response that the library creates, put on the list and issued. -/
def issueResponse (flags : HttpFlags) (status : Nat) (conn : Conn) : Conn :=
  let id := conn.nextResponse
  let created :=
    { conn with
      responses :=
        Function.update conn.responses id
          { ymoHttpResponseCreate with flags := flags }
      meant := Function.update conn.meant id ymoHttpHdrTableClear
      nextResponse := id + 1 }
  callResponse (ymoHttpSessionAddResponse created id) id (.issue status)

/-- `send_100_continue`, with the write callback that `ymo_conn_tx_now` runs. -/
def sendContinue (outcomes : List SendOutcome) (transition : Status)
    (conn : Conn) :
    Conn :=
  ymoWriteCb outcomes transition
    (issueResponse { HttpFlags.none with requestKeepalive := true } 100 conn)

/-! ## Reading -/

/-- Carries out an effect of `ymo_proto_http_read` on its exchange. -/
def perform (outcomes : List SendOutcome) (transition : Status)
    (exchange : Nat)
    (conn : Conn)
    (effect : Effect) :
    Conn :=
  let slot := (conn.exchangeResponse exchange).toList
  match effect with
  | .newExchange =>
      { conn.access [.session] with
        exchange := some exchange
        nextExchange := exchange + 1
        exchangeResponse :=
          Function.update conn.exchangeResponse exchange none }
  | .initResponse flags =>
      let id := conn.nextResponse
      let response := ymoHttpSessionInitResponse flags
      { conn with
        responses := Function.update conn.responses id response
        meant := Function.update conn.meant id response.headers
        origin := Function.update conn.origin id exchange
        exchangeResponse :=
          Function.update conn.exchangeResponse exchange (some id)
        nextResponse := id + 1
        requests := conn.requests ++ [id] }
  | .sendContinue => sendContinue outcomes transition conn
  | .shown _ => conn
  | .handler => { conn with handled := conn.handled ++ slot }
  | .call call => slot.foldl (fun conn id => callResponse conn id call) conn
  | .protoNew proto =>
      slot.foldl
        (fun conn id =>
          conn.setResponse id { conn.responses id with protoNew := proto })
        conn
  | .detachExchange =>
      slot.foldl
        (fun conn id =>
          { conn.setResponse id
              { conn.responses id with exchange := conn.exchange } with
            exchange := none })
        conn
  | .addResponse => slot.foldl ymoHttpSessionAddResponse conn
  | .freeResponse => slot.foldl ymoHttpResponseFree conn
  | .errorResponse status =>
      issueResponse HttpFlags.none status (conn.access [.session])
  | .serverState => conn.access [.conn]
  | .store content =>
      { conn with
        exchanges := Function.update conn.exchanges exchange content }

/-- The exchange that a read call works on. -/
def Conn.readExchange (conn : Conn) : Nat :=
  conn.exchange.getD conn.nextExchange

/-- `conn->proto->vtable.read_cb` on what is pending. -/
def Conn.read (protoData : HttpProtoData) (conn : Conn) : ReadResult :=
  ymoProtoHttpRead protoData conn.error
    (conn.exchange.map conn.exchanges) conn.pending.memory
    conn.pending.len

/-- Nothing is left to offer. -/
def drained (scan : Scan) : Scan :=
  { scan with len := 0 }

/-- One turn of the loop of `ymo_read_cb`. -/
def readCbTurn (protoData : HttpProtoData) (outcomes : List SendOutcome)
    (transition : Status)
    (conn : Conn) :
    Conn :=
  let result := conn.read protoData
  let slot := conn.readExchange
  let conn :=
    result.state.effects.foldl (perform outcomes transition slot)
      (conn.access [.session])
  match result.outcome with
  | .took count =>
      let conn := conn.access [.conn]
      { conn with
        pending :=
          if conn.state = .shutdown then drained conn.pending
          else conn.pending.advance count }
  | .failed errno =>
      let conn :=
        { conn with
          pending := drained conn.pending
          declined := conn.declined ++ (conn.exchangeResponse slot).toList }
      if ymoIsBlocked (.err errno) then conn
      else closeAndFreeConnection conn
  | .fault => { conn with lost := true }
  | .spin => { conn with lost := true }

/-! ## Steps -/

/-- What can happen to the connection. -/
inductive Step where
  /-- `recv` returns data; the buffer goes on with older bytes. -/
  | receive (data older : Bytes)
  /-- One turn of the loop of `ymo_read_cb`. -/
  | read (outcomes : List SendOutcome) (transition : Status)
  /-- `recv` returns zero or fails. -/
  | disconnect
  | writable (outcomes : List SendOutcome) (transition : Status)
  /-- The application calls, on a response it holds. -/
  | call (response : Nat) (call : ResponseCall)

/-- The callbacks of the connection still run, and they are those of HTTP. -/
def Conn.live (conn : Conn) : Bool :=
  conn.connFrees == 0 && !conn.handedOver && !conn.lost && !conn.hung

/-- The application holds the response: its handler has blocked, and it was not
finished since. -/
def Conn.holds (conn : Conn) (id : Nat) : Bool :=
  conn.added.contains id && !conn.freedResponses.contains id &&
    (conn.responses id).exchange.isSome &&
      !(conn.responses id).flags.responseComplete

/-- The calls that are documented for the application. -/
def isDocumented : ResponseCall → Bool
  | .setFlags _ => false
  | .issue _ => false
  | _ => true

/-- One step. -/
def connStep (protoData : HttpProtoData) (conn : Conn) (step : Step) : Conn :=
  if conn.live then
    if conn.pending.len = 0 then
      match step with
      | .receive data older =>
          if conn.state = .opened then
            { conn with
              pending :=
                { memory := data ++ older
                  len := data.length
                  taken := 0 } }
          else conn
      | .read _ _ => conn
      | .disconnect => closeAndFreeConnection conn
      | .writable outcomes transition => ymoWriteCb outcomes transition conn
      | .call id call =>
          if conn.holds id && isDocumented call then callResponse conn id call
          else conn
    else
      match step with
      | .read outcomes transition =>
          readCbTurn protoData outcomes transition conn
      | _ => conn
  else conn

end Yimmo.Http.Session
