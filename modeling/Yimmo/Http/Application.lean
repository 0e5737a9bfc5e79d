import Yimmo.Http.Parse

/-!
# The application

The user callbacks are pure functions of what they are shown.  A callback
returns its status and the calls it makes on the response it is given; the
calls are made in order, in the exchange whose request it was shown.

A header name or value is a pointer.  The application may point to memory of
its own, copy a string into the workspace of the request, or point to a string
of the request itself; the last two point into the exchange.
-/

namespace Yimmo.Http.Application

open Yimmo.Core.StatusCode
open Yimmo.Lib.ByteMemory
open Yimmo.Http.Headers
open Yimmo.Http.Exchange

/-- What a callback can read of `ymo_http_request_t`. -/
structure RequestView where
  method : Option Bytes
  uri : Option Bytes
  version : Option Bytes
  query : Option Bytes
  fragment : Option Bytes
  headers : List (HdrId × Bytes × Bytes)
  body : Option Bytes
  bodyReceived : Nat
  contentLength : Nat
  flags : HttpFlags
deriving DecidableEq, Repr

/-- The request as a callback sees it. -/
def viewOf (exchange : HttpExchange) : RequestView :=
  let request := exchange.request
  let read := readString exchange.recvBuf exchange.recvCurrent
  { method := request.method.map read
    uri := request.uri.map read
    version := request.version.map read
    query := request.query.map read
    fragment := request.fragment.map read
    headers :=
      request.headers.nodes.map fun node =>
        (node.hId, read node.hdr, node.string read)
    body := request.body.map fun body => body.data.take request.bodyReceived
    bodyReceived := request.bodyReceived
    contentLength := request.contentLength
    flags := request.flags }

/-! ## Calls on a response -/

/-- Where a header name or value of a response points. -/
inductive HdrPointer where
  /-- Memory of the application or of the library that does not change. -/
  | literal (string : Bytes)
  /-- The receive buffer of the exchange. -/
  | recvBuf (offset : Nat)
  /-- The workspace of the exchange. -/
  | workspace (offset : Nat)
  /-- `content_len_str` of the response. -/
  | contentLenStr
deriving DecidableEq, Repr

/-- How the application comes by a string. -/
inductive StringSource where
  | literal (string : Bytes)
  /-- `ymo_blalloc_strdup(request->ws, string)`. -/
  | workspace (string : Bytes)
  | method
  | uri
  | version
  | query
  | fragment
  /-- The value of a request header, unless it was joined. -/
  | header (hId : HdrId)
deriving DecidableEq, Repr

/-- A call an application makes on a response. -/
inductive AppCall where
  | setStatus (status : Nat)
  | setStatusStr (status : Bytes)
  | insertHeader (header value : StringSource)
  | bodyAppend (data : Bytes)
  | ready
  | finish
  | setFlags (flags : HttpFlags)
  | issue (status : Nat)
deriving DecidableEq, Repr

/-- The same call, with its strings resolved to pointers. -/
inductive ResponseCall where
  | setStatus (status : Nat)
  | setStatusStr (status : Bytes)
  | insertHeader (header value : HdrPointer)
  | bodyAppend (data : Bytes)
  | ready
  | finish
  | setFlags (flags : HttpFlags)
  | issue (status : Nat)
deriving DecidableEq, Repr

/-- A string pointer of the request, as a pointer into the receive buffer. -/
def requestPointer (offset : Option Nat) : Option HdrPointer :=
  offset.map HdrPointer.recvBuf

/-- The pointer the application gets for a string, and the workspace after. -/
def resolve (request : HttpRequest) :
    StringSource → Option HdrPointer × Workspace
  | .literal string => (some (.literal string), request.ws)
  | .workspace string =>
      let copied := ymoBlallocStrdup request.ws (cString string)
      (copied.1.map HdrPointer.workspace, copied.2)
  | .method => (requestPointer request.method, request.ws)
  | .uri => (requestPointer request.uri, request.ws)
  | .version => (requestPointer request.version, request.ws)
  | .query => (requestPointer request.query, request.ws)
  | .fragment => (requestPointer request.fragment, request.ws)
  | .header hId =>
      match ymoHttpHdrTableGetId request.headers hId with
      | some { value := value, buffer := none, .. } =>
          (some (.recvBuf value), request.ws)
      | _ => (none, request.ws)

/--
Resolves a call in an exchange.  An application that is left without a pointer
(a full workspace, a string the request lacks) does not set the header.
-/
def resolveCall (exchange : HttpExchange) :
    AppCall → Option ResponseCall × HttpExchange
  | .setStatus status => (some (.setStatus status), exchange)
  | .setStatusStr status => (some (.setStatusStr status), exchange)
  | .insertHeader header value =>
      let name := resolve exchange.request header
      let named :=
        { exchange with request := { exchange.request with ws := name.2 } }
      let content := resolve named.request value
      let both :=
        { named with request := { named.request with ws := content.2 } }
      match name.1, content.1 with
      | some header, some value => (some (.insertHeader header value), both)
      | _, _ => (none, both)
  | .bodyAppend data => (some (.bodyAppend data), exchange)
  | .ready => (some .ready, exchange)
  | .finish => (some .finish, exchange)
  | .setFlags flags => (some (.setFlags flags), exchange)
  | .issue status => (some (.issue status), exchange)

/-! ## Callbacks -/

/-- What a callback does: its calls, in order, and its status. -/
structure Reaction where
  calls : List AppCall
  status : Status
deriving DecidableEq, Repr

/-- `ymo_http_upgrade_status_t`, with the `errno` that an error leaves, which
may be zero. -/
inductive UpgradeStatus where
  | handled
  | ignore
  | error (errno : Status)
  | noproto
  /-- A value that is none of the enumeration. -/
  | unknown
deriving DecidableEq, Repr

/-- What an upgrade handler does. -/
structure UpgradeReaction where
  calls : List AppCall
  status : UpgradeStatus
deriving DecidableEq, Repr

/-- A member of the upgrade chain: its callback and the protocol it offers, which
may be `NULL`. -/
structure UpgradeHandler where
  cb : Bytes → RequestView → UpgradeReaction
  proto : Option Nat

/-- `ymo_http_proto_data_t`; without a `body_cb` bodies are buffered. -/
structure HttpProtoData where
  headerCb : Option (RequestView → Reaction)
  bodyCb : Option (RequestView → Bytes → Reaction)
  httpCb : RequestView → Reaction
  upgradeHandler : List UpgradeHandler
  /-- What follows a joined header buffer that was left unterminated. -/
  stray : Bytes

/-- An application that answers every request with nothing. -/
def quietApplication : HttpProtoData where
  headerCb := none
  bodyCb := none
  httpCb := fun _ => { calls := [], status := .okay }
  upgradeHandler := []
  stray := []

end Yimmo.Http.Application
