import Yimmo.Core.Base64
import Yimmo.Http.HeaderMap
import Yimmo.Http.Response
import Yimmo.Lib.Tokens

/-!
# The request for an upgrade

This module models `ymo_ws_upgrade_cb`, which decides about a request to upgrade to
WebSocket: the headers it looks up, the elements of the `Connection` header that
`check_connection_hdr` cuts out of a copy in the workspace, and the response with
the hash of the key that `issue_http_101` makes.

The hash is a parameter.  A string function that is given no string is `fault`.
`ws_upgrade_decides_iff` says when the callback decides as it should: every header
but the version is tested for its presence.
-/

namespace Yimmo.Ws.UpgradeRequest

open Yimmo.Core.Base64
open Yimmo.Core.BlockAllocator (typeCeil)
open Yimmo.Core.Characters
open Yimmo.Core.StatusCode
open Yimmo.Http.Application
open Yimmo.Http.Exchange
open Yimmo.Http.HeaderMap (CaseVariant readId)
open Yimmo.Http.Headers
open Yimmo.Http.Parse (isHttpMethodToken)
open Yimmo.Http.Response
open Yimmo.Lib.Base64
open Yimmo.Lib.ByteMemory
open Yimmo.Lib.Tokens

variable {response : HttpResponse}

/-- `WS_GUID`. -/
def wsGuid : Bytes :=
  bytes "258EAFA5-E914-47DA-95CA-C5AB0DC85B11"

/-- `YMO_HTTP_UPGRADE_REQUIRED`. -/
def ymoHttpUpgradeRequired : Nat :=
  426

/-- The bytes of a SHA-1 hash. -/
abbrev Hash : Type :=
  { hash : Bytes // hash.length = 20 }

/-! ## The workspace -/

/-- `ymo_blalloc` in the workspace of a request. -/
def ymoBlalloc (workspace : Workspace) (size : Nat) : Option Nat × Workspace :=
  let start := typeCeil workspace.current
  let stop := start + size
  if stop < ymoHttpReqWsSize then
    (some start, { workspace with current := stop })
  else (none, workspace)

/-! ## The headers -/

/-- `ymo_http_hdr_table_get` on the headers of a request. -/
def requestHeader (exchange : HttpExchange) (name : String) : Option Bytes :=
  (ymoHttpHdrTableGetId exchange.request.headers
      (ymoHttpHdrHash (bytes name))).map
    fun node =>
      cString (node.string (readString exchange.recvBuf ymoHttpRecvBufSize))

/-- The separators of `check_connection_hdr`. -/
def isSep (c : UInt8) : Bool :=
  (bytes " ,\n\t").contains c

/-- The loop of `check_connection_hdr`, from a call of `strtok_r` on. -/
def checkElements (memory : Memory) (saveptr : Nat) : Status × Memory :=
  match _found : strtokR isSep ymoHttpReqWsSize memory saveptr with
  | (none, later) => (.err .ebadmsg, later)
  | (some (hdrVal, next), later) =>
      if
        CaseVariant (readString later ymoHttpReqWsSize hdrVal)
          (bytes "upgrade") then
        (.okay, later)
      else checkElements later next
termination_by ymoHttpReqWsSize - saveptr
decreasing_by
  have moves := strtokR_advances _found
  omega

/-- `check_connection_hdr`. -/
def checkConnectionHdr (workspace : Workspace) (connHdr : Option Bytes) :
    Status × Workspace :=
  match connHdr with
  | none => (.err .ebadmsg, workspace)
  | some string =>
      match ymoBlalloc workspace (string.length + 1) with
      | (none, workspace) => (.err .enomem, workspace)
      | (some connStr, workspace) =>
          let copied := storeAll workspace.memory connStr (string ++ [0])
          let checked := checkElements copied connStr
          (checked.1, { workspace with memory := checked.2 })

/-! ## The callback -/

/-- What comes of a call. -/
inductive Outcome where
  /-- A string function was given a null pointer. -/
  | fault
  | returns
      (status : UpgradeStatus)
      (exchange : HttpExchange)
      (response : HttpResponse)

/-- The exchange with another workspace. -/
def withWorkspace (exchange : HttpExchange) (workspace : Workspace) :
    HttpExchange :=
  { exchange with request := { exchange.request with ws := workspace } }

/-- The condition for an invalid request, and the exchange after its evaluation;
`none` if a string function is given a null pointer. -/
def badRequest (exchange : HttpExchange) : Option (Bool × HttpExchange) :=
  match exchange.request.method with
  | none => none
  | some method =>
      if
        ¬CaseVariant
            (readString exchange.recvBuf ymoHttpRecvBufSize method)
            (bytes "get") then
        some (true, exchange)
      else if (requestHeader exchange "host").isNone then some (true, exchange)
      else
        let checked :=
          checkConnectionHdr exchange.request.ws
            (requestHeader exchange "connection")
        let later := withWorkspace exchange checked.2
        if checked.1 ≠ .okay then some (true, later)
        else if (requestHeader exchange "sec-websocket-key").isNone then
          some (true, later)
        else
          match requestHeader exchange "sec-websocket-version" with
          | none => none
          | some version => some (decide (version ≠ bytes "13"), later)

/-- `issue_http_101`. -/
def issueHttp101 (sha1 : Bytes → Hash) (exchange : HttpExchange)
    (response : HttpResponse)
    (key : Bytes) :
    Status × HttpExchange × HttpResponse :=
  let hashedHdr := sha1 (key ++ wsGuid)
  match ymoBlalloc exchange.request.ws (ymoBase64Len 20) with
  | (none, workspace) =>
      (.err .enomem, withWorkspace exchange workspace, response)
  | (some acceptHdr, workspace) =>
      let encoded :=
        storeAll workspace.memory acceptHdr (ymoBase64Encode hashedHdr.val)
      let later := withWorkspace exchange { workspace with memory := encoded }
      let insert (response : HttpResponse) (header : String)
          (value : HdrPointer) :
          HttpResponse :=
        ymoHttpResponseInsertHeader (HdrMemory.of later) response
          (.literal (bytes header)) value
      let response := ymoHttpResponseSetStatus response 101
      let response :=
        insert response "Server" (.literal (bytes "ymo_test_server"))
      let response := insert response "Upgrade" (.literal (bytes "websocket"))
      let response := insert response "Connection" (.literal (bytes "upgrade"))
      let response :=
        insert response "Sec-WebSocket-Accept" (.workspace acceptHdr)
      let response :=
        { response with
          flags := { HttpFlags.none with requestKeepalive := true } }
      (.okay, later, ymoHttpResponseFinish response)

/-- `ymo_ws_upgrade_cb`. -/
def ymoWsUpgradeCb (sha1 : Bytes → Hash) (hdrUpgrade : Bytes)
    (exchange : HttpExchange)
    (response : HttpResponse) :
    Outcome :=
  if ¬CaseVariant hdrUpgrade (bytes "websocket") then
    .returns .noproto exchange response
  else
    match badRequest exchange with
    | none => .fault
    | some (true, later) =>
        .returns (.error (.err .eprotonosupport)) later
          (ymoHttpResponseIssue (HdrMemory.of later) response
            ymoHttpUpgradeRequired)
    | some (false, later) =>
        match requestHeader exchange "sec-websocket-key" with
        | none => .fault
        | some key =>
            match issueHttp101 sha1 later response key with
            | (.okay, later, response) => .returns .handled later response
            | (.err errno, later, response) =>
                .returns (.error (.err errno)) later response

/-! ## The decision -/

/-- A value that names the upgrade among its elements. -/
def NamesUpgrade (value : Bytes) : Prop :=
  ∃ element ∈ value.splitOnP isSep, CaseVariant element (bytes "upgrade")

/-- What a request for an upgrade has, apart from the version. -/
structure Requests (exchange : HttpExchange) : Prop where
  method :
    ∀ method ∈ exchange.request.method,
      readString exchange.recvBuf ymoHttpRecvBufSize method = bytes "GET"
  host : (requestHeader exchange "host").isSome
  connection :
    ∃ value,
      requestHeader exchange "connection" = some value ∧ NamesUpgrade value
  key : (requestHeader exchange "sec-websocket-key").isSome

/-- A request for an upgrade to the version that is spoken. -/
structure Acceptable (exchange : HttpExchange) : Prop
    extends Requests exchange where
  version : requestHeader exchange "sec-websocket-version" = some (bytes "13")

/-- The response switches protocols, with the hash of the key. -/
def SwitchesProtocols (sha1 : Bytes → Hash) (exchange : HttpExchange)
    (outcome : Outcome) :
    Prop :=
  ∃ key later response,
    outcome = .returns .handled later response ∧
      requestHeader exchange "sec-websocket-key" = some key ∧
      statusBytes response = bytes "101 Switching Protocols" ∧
      readId ((HdrMemory.of later).string response.contentLenStr)
          response.headers
          (ymoHttpHdrHash (bytes "Sec-WebSocket-Accept")) =
        some (base64 (sha1 (key ++ wsGuid)).val)

/-- The callback returns an error. -/
def ReturnsError (outcome : Outcome) : Prop :=
  ∃ errno later response, outcome = .returns (.error errno) later response

/-- No string function is given a null pointer; the protocols are switched if and
only if the request is acceptable, and any other request is an error. -/
structure Decides
    (sha1 : Bytes → Hash)
    (exchange : HttpExchange)
    (outcome : Outcome) : Prop where
  safe : outcome ≠ .fault
  switches : SwitchesProtocols sha1 exchange outcome ↔ Acceptable exchange
  refuses : ¬Acceptable exchange → ReturnsError outcome

/-- The method is one that the parser lets through. -/
def ParsedMethod (exchange : HttpExchange) : Prop :=
  ∃ method,
    exchange.request.method = some method ∧
      ∀ c ∈ readString exchange.recvBuf ymoHttpRecvBufSize method,
        isHttpMethodToken c = true

/-- The copy of the `Connection` header fits the workspace, and the accepted key
behind it does. -/
def FitsWorkspace (exchange : HttpExchange) : Prop :=
  ∀ value ∈ requestHeader exchange "connection",
    let copied := typeCeil exchange.request.ws.current + (value.length + 1)
    copied < ymoHttpReqWsSize ∧
      typeCeil copied + ymoBase64Len 20 < ymoHttpReqWsSize

/-! ## The elements -/

theorem namesUpgrade_iff (value : Bytes) :
    NamesUpgrade value ↔
      ∃ element ∈ tokens isSep value,
        CaseVariant element (bytes "upgrade") := by
  constructor
  · rintro ⟨element, member, upgrade⟩
    refine ⟨element, List.mem_filter.mpr ⟨member, ?_⟩, upgrade⟩
    apply decide_eq_true
    rintro rfl
    exact absurd upgrade (by decide)
  · rintro ⟨element, member, upgrade⟩
    exact ⟨element, (List.mem_filter.mp member).1, upgrade⟩

/-- The loop succeeds on a string that has the element, and not on others. -/
theorem checkElements_status {memory : Memory} {saveptr : Nat} {data : Bytes}
    (terminated : Terminated memory ymoHttpReqWsSize saveptr data)
    (noZero : 0 ∉ data) :
    (checkElements memory saveptr).1 = .okay ↔ NamesUpgrade data := by
  rw [namesUpgrade_iff]
  induction memory, saveptr using checkElements.induct generalizing data with
  | case1 memory saveptr later found =>
      have spec := @strtokR_spec isSep ymoHttpReqWsSize _ _ _ terminated noZero
      rw [checkElements, found]
      rw [found] at spec
      cases spec with
      | absent nothing =>
          rw [nothing]
          constructor
          · intro okay
            exact Status.noConfusion okay
          · rintro ⟨element, member, _⟩
            exact absurd member List.not_mem_nil
  | case2 memory saveptr later hdrVal next found upgrade =>
      have spec := @strtokR_spec isSep ymoHttpReqWsSize _ _ _ terminated noZero
      rw [checkElements, found]
      rw [found] at spec
      cases spec with
      | found token rest split read _ _ =>
          rw [read] at upgrade
          dsimp only
          rw [read, if_pos upgrade, split]
          constructor
          · intro _
            exact ⟨token, List.mem_cons_self, upgrade⟩
          · intro _
            rfl
  | case3 memory saveptr later hdrVal next found different ih =>
      have spec := @strtokR_spec isSep ymoHttpReqWsSize _ _ _ terminated noZero
      rw [checkElements, found]
      rw [found] at spec
      cases spec with
      | found token rest split read restTerminated restNoZero =>
          rw [read] at different
          dsimp only
          rw [read, if_neg different, ih restTerminated restNoZero, split]
          constructor
          · rintro ⟨element, member, upgrade⟩
            exact ⟨element, List.mem_cons_of_mem token member, upgrade⟩
          · rintro ⟨element, member, upgrade⟩
            rcases List.mem_cons.mp member with here | later
            · rw [here] at upgrade
              exact absurd upgrade different
            · exact ⟨element, later, upgrade⟩

/-! ## The condition -/

/-- The copy is checked, if there is room for it. -/
theorem checkConnectionHdr_status {workspace : Workspace} {string : Bytes}
    (noZero : 0 ∉ string)
    (room :
      typeCeil workspace.current + (string.length + 1) < ymoHttpReqWsSize) :
    let checked := checkConnectionHdr workspace (some string)
    (checked.1 = .okay ↔ NamesUpgrade string) ∧
      checked.2.current =
        typeCeil workspace.current + (string.length + 1) := by
  have terminated :
      Terminated
        (storeAll workspace.memory (typeCeil workspace.current)
          (string ++ [0]))
        ymoHttpReqWsSize (typeCeil workspace.current) string :=
    ⟨holds_storeAll _ _ _, by omega⟩
  unfold checkConnectionHdr ymoBlalloc
  dsimp only
  rw [if_pos room]
  exact ⟨checkElements_status terminated noZero, rfl⟩

/-- Without the header there is nothing to check. -/
theorem checkConnectionHdr_none (workspace : Workspace) :
    (checkConnectionHdr workspace none).1 ≠ .okay :=
  Status.noConfusion

theorem zero_not_mem_cString (data : Bytes) : 0 ∉ cString data := by
  intro member
  have kept := List.mem_takeWhile_imp member
  exact absurd kept (by decide)

theorem zero_not_mem_requestHeader {exchange : HttpExchange} {name : String}
    {value : Bytes}
    (present : requestHeader exchange name = some value) :
    0 ∉ value := by
  rcases Option.map_eq_some_iff.mp present with ⟨node, _, same⟩
  rw [← same]
  exact zero_not_mem_cString _

set_option maxRecDepth 4000 in
theorem upper_of_token :
    ∀ c : UInt8,
      isHttpMethodToken c = true →
        ∀ letter ∈ bytes "GET",
          asciiLower c = asciiLower letter → c = letter :=
  forall_byte (by decide)

/-- The parser knows no small letters. -/
theorem method_get {method : Bytes}
    (parsed : ∀ c ∈ method, isHttpMethodToken c = true) :
    CaseVariant method (bytes "get") ↔ method = bytes "GET" := by
  have names :
      ∀ {name letters : Bytes},
        (∀ c ∈ name, isHttpMethodToken c = true) →
          (∀ letter ∈ letters, letter ∈ bytes "GET") →
            name.map asciiLower = letters.map asciiLower →
              name = letters := by
    intro name
    induction name with
    | nil =>
        intro letters _ _ same
        exact (List.map_eq_nil_iff.mp same.symm).symm
    | cons c name ih =>
        intro letters tokens known same
        cases letters with
        | nil => cases same
        | cons letter letters =>
            rw [List.forall_mem_cons] at tokens known
            rw [List.map_cons, List.map_cons] at same
            have first :=
              upper_of_token c tokens.1 letter known.1 (List.cons.inj same).1
            rw [first, ih tokens.2 known.2 (List.cons.inj same).2]
  constructor
  · intro variants
    have same : method.map asciiLower = (bytes "GET").map asciiLower :=
      Eq.trans variants (by decide)
    exact names parsed (fun _ member => member) same
  · rintro rfl
    decide

/-- There is room for the hash of the key. -/
def HashFits (workspace : Workspace) : Prop :=
  typeCeil workspace.current + ymoBase64Len 20 < ymoHttpReqWsSize

/-- What the condition comes to: it holds where something other than the version is
missing, and otherwise it depends on the version. -/
inductive Judged
    (exchange : HttpExchange) :
    Option (Bool × HttpExchange) → Prop where
  | refused
      (later : HttpExchange)
      (missing : ¬Requests exchange) :
      Judged exchange (some (true, later))
  | fault
      (requests : Requests exchange)
      (absent : requestHeader exchange "sec-websocket-version" = none) :
      Judged exchange none
  | version
      {version : Bytes}
      {workspace : Workspace}
      (requests : Requests exchange)
      (present : requestHeader exchange "sec-websocket-version" = some version)
      (room : HashFits workspace) :
      Judged exchange
        (some
          (decide (version ≠ bytes "13"), withWorkspace exchange workspace))

section

variable {exchange : HttpExchange}

theorem judged_badRequest (parsed : ParsedMethod exchange)
    (fits : FitsWorkspace exchange) :
    Judged exchange (badRequest exchange) := by
  rcases parsed with ⟨method, found, tokens⟩
  rw [badRequest, found]
  dsimp only
  by_cases get :
      CaseVariant (readString exchange.recvBuf ymoHttpRecvBufSize method)
        (bytes "get")
  · rw [if_neg (not_not.mpr get)]
    have isGet :
        ∀ method ∈ exchange.request.method,
          readString exchange.recvBuf ymoHttpRecvBufSize method =
            bytes "GET" := by
      intro other same
      rw [found] at same
      cases same
      exact (method_get tokens).mp get
    cases host : requestHeader exchange "host" with
    | none =>
        refine .refused _ fun requests => ?_
        have some := requests.host
        rw [host] at some
        cases some
    | some hostValue =>
        rw [if_neg (show ¬(some hostValue).isNone = true from
          Bool.false_ne_true)]
        cases connection : requestHeader exchange "connection" with
        | none =>
            rw [if_pos (checkConnectionHdr_none _)]
            refine .refused _ fun requests => ?_
            rcases requests.connection with ⟨value, present, _⟩
            rw [connection] at present
            cases present
        | some value =>
            have room := fits value connection
            have checked :=
              checkConnectionHdr_status
                (zero_not_mem_requestHeader connection) room.1
            by_cases upgrade : NamesUpgrade value
            · rw [if_neg (not_not.mpr (checked.1.mpr upgrade))]
              cases key : requestHeader exchange "sec-websocket-key" with
              | none =>
                  refine .refused _ fun requests => ?_
                  have some := requests.key
                  rw [key] at some
                  cases some
              | some keyValue =>
                  rw [if_neg (show ¬(some keyValue).isNone = true from
                    Bool.false_ne_true)]
                  have requests : Requests exchange :=
                    { method := isGet
                      host := by rw [host]; rfl
                      connection := ⟨value, connection, upgrade⟩
                      key := by rw [key]; rfl }
                  cases version :
                      requestHeader exchange "sec-websocket-version" with
                  | none => exact .fault requests version
                  | some versionValue =>
                      refine .version requests version ?_
                      rw [HashFits, checked.2]
                      exact room.2
            · rw [if_pos fun okay => upgrade (checked.1.mp okay)]
              refine .refused _ fun requests => ?_
              rcases requests.connection with ⟨other, present, names⟩
              rw [connection] at present
              cases present
              exact upgrade names
  · rw [if_pos get]
    refine .refused _ fun requests => get ?_
    exact (method_get tokens).mpr (requests.method method found)

end

/-! ## The response -/

/-- No values have been joined. -/
def Plain (table : HdrTable HdrPointer) : Prop :=
  ∀ hId, ∀ node ∈ ymoHttpHdrTableGetId table hId, node.buffer = none

theorem Plain.insertPrecompute {table : HdrTable HdrPointer}
    (plain : Plain table)
    (hId : HdrId)
    (hdr : HdrPointer)
    (hdrLen : Nat)
    (value : HdrPointer) :
    Plain (ymoHttpHdrTableInsertPrecompute table hId hdr hdrLen value) := by
  intro other node found
  have keeps :
      ∀ node : HdrNode HdrPointer,
        ({ node with
            hdr := hdr, hdrLen := hdrLen, value := value } :
          HdrNode HdrPointer).hId =
          node.hId :=
    fun _ => rfl
  have got :=
    Http.HeaderMap.getId_upsert table keeps
      { hId := hId, hdr := hdr, hdrLen := hdrLen, value := value,
        buffer := none }
      other
  rw [ymoHttpHdrTableInsertPrecompute, got] at found
  split at found
  · cases first : ymoHttpHdrTableGetId table hId with
    | none =>
        dsimp only at found
        rw [first] at found
        cases found
        rfl
    | some before =>
        dsimp only at found
        rw [first] at found
        cases found
        exact plain hId before first
  · exact plain other node found

theorem plain_initResponse (flags : HttpFlags) :
    Plain (ymoHttpSessionInitResponse flags).headers := by
  have clear : Plain ymoHttpHdrTableClear := by
    intro hId node found
    cases found
  unfold ymoHttpSessionInitResponse
  dsimp only
  split_ifs
  · exact clear
  · exact clear.insertPrecompute _ _ _ _
  · exact clear.insertPrecompute _ _ _ _
  · exact clear

theorem Plain.insertHeader (plain : Plain response.headers)
    (memory : HdrMemory)
    (header value : HdrPointer) :
    Plain (ymoHttpResponseInsertHeader memory response header value).headers :=
  plain.insertPrecompute _ _ _ _

/-- A header that was inserted is read under the hash of its name. -/
theorem readId_insertHeader (plain : Plain response.headers)
    (memory : HdrMemory)
    (header value : HdrPointer) :
    let read := memory.string response.contentLenStr
    readId read
        (ymoHttpResponseInsertHeader memory response header value).headers
        (ymoHttpHdrHash (read header)) =
      some (read value) := by
  intro read
  have inserted :=
    @Http.HeaderMap.readId_insertPrecompute _ read response.headers _
      (plain (ymoHttpHdrHash (read header))) header (read header).length
      value
  rw [ymoHttpResponseInsertHeader]
  dsimp only
  rw [ymoHttpHdrTableInsert, inserted, Function.update_self]

/-- The characters of a hash, behind each other in memory. -/
theorem readString_hash (memory : Memory) {start : Nat}
    (room : start + ymoBase64Len 20 < ymoHttpReqWsSize)
    (hash : Hash) :
    readString
        (storeAll memory start (ymoBase64Encode hash.val))
        ymoHttpReqWsSize start =
      base64 hash.val := by
  have length : (base64 hash.val).length + 1 = ymoBase64Len 20 := by
    have encoded := length_ymoBase64Encode hash.val
    rw [ymoBase64Encode_eq, List.length_append, hash.property] at encoded
    exact encoded
  rw [ymoBase64Encode_eq]
  have terminated :
      Terminated
        (storeAll memory start (base64 hash.val ++ [0]))
        ymoHttpReqWsSize start (base64 hash.val) :=
    ⟨holds_storeAll _ _ _, by omega⟩
  rw [terminated.readString, cString_of_not_mem (zero_not_mem_base64 hash.val)]

theorem statusBytes_switching (response : HttpResponse) :
    statusBytes (ymoHttpResponseSetStatus response 101) =
      bytes "101 Switching Protocols" :=
  rfl

/-- The hash of the key is stored, and the response refers to it. -/
theorem issueHttp101_spec (sha1 : Bytes → Hash) {exchange : HttpExchange}
    (plain : Plain response.headers)
    (room : HashFits exchange.request.ws)
    (key : Bytes) :
    ∃ later answered,
      issueHttp101 sha1 exchange response key =
          (.okay, later, answered) ∧
        statusBytes answered = bytes "101 Switching Protocols" ∧
        readId ((HdrMemory.of later).string answered.contentLenStr)
            answered.headers
            (ymoHttpHdrHash (bytes "Sec-WebSocket-Accept")) =
          some (base64 (sha1 (key ++ wsGuid)).val) := by
  obtain ⟨start, isStart⟩ :
      ∃ start, start = typeCeil exchange.request.ws.current := ⟨_, rfl⟩
  rw [HashFits, ← isStart] at room
  have given :
      ymoBlalloc exchange.request.ws (ymoBase64Len 20) =
        (some start,
          { exchange.request.ws with
            current := start + ymoBase64Len 20 }) := by
    rw [ymoBlalloc, ← isStart]
    exact if_pos room
  unfold issueHttp101
  rw [given]
  dsimp only
  obtain ⟨encoded, isEncoded⟩ :
      ∃ encoded,
        encoded =
          storeAll exchange.request.ws.memory start
            (ymoBase64Encode (sha1 (key ++ wsGuid)).val) := ⟨_, rfl⟩
  rw [← isEncoded]
  refine ⟨_, _, rfl, statusBytes_switching response, ?_⟩
  obtain ⟨memory, isMemory⟩ :
      ∃ memory,
        memory =
          HdrMemory.of
            (withWorkspace exchange
              { current := start + ymoBase64Len 20
                memory := encoded }) := ⟨_, rfl⟩
  rw [← isMemory]
  have set : Plain (ymoHttpResponseSetStatus response 101).headers := plain
  have others :=
    ((set.insertHeader memory (.literal (bytes "Server"))
          (.literal (bytes "ymo_test_server"))).insertHeader memory
        (.literal (bytes "Upgrade"))
        (.literal (bytes "websocket"))).insertHeader memory
      (.literal (bytes "Connection")) (.literal (bytes "upgrade"))
  have read :=
    readId_insertHeader others memory
      (.literal (bytes "Sec-WebSocket-Accept")) (.workspace start)
  have name :
      memory.string response.contentLenStr
          (.literal (bytes "Sec-WebSocket-Accept")) =
        bytes "Sec-WebSocket-Accept" :=
    rfl
  have value :
      memory.string response.contentLenStr (.workspace start) =
        base64 (sha1 (key ++ wsGuid)).val := by
    rw [isMemory]
    show readString encoded ymoHttpReqWsSize start = _
    rw [isEncoded]
    exact readString_hash _ room _
  exact read.trans (congrArg some value)

/-! ## Every request -/

/-- The callback decides as it should, or is given no version in a request that is
fine otherwise. -/
theorem ws_upgrade_decides_iff (sha1 : Bytes → Hash) {hdrUpgrade : Bytes}
    (websocket : CaseVariant hdrUpgrade (bytes "websocket"))
    {exchange : HttpExchange}
    (parsed : ParsedMethod exchange)
    (fits : FitsWorkspace exchange)
    (flags : HttpFlags) :
    Decides sha1 exchange
        (ymoWsUpgradeCb sha1 hdrUpgrade exchange
          (ymoHttpSessionInitResponse flags)) ↔
      ¬(Requests exchange ∧
        requestHeader exchange "sec-websocket-version" = none) := by
  have judged := judged_badRequest parsed fits
  rw [ymoWsUpgradeCb, if_neg (not_not.mpr websocket)]
  generalize badRequest exchange = condition at judged
  cases judged with
  | refused later missing =>
      refine iff_of_true ?_ fun both => missing both.1
      refine ⟨Outcome.noConfusion, iff_of_false ?_ ?_, fun _ => ?_⟩
      · rintro ⟨_, _, _, same, _⟩
        cases same
      · intro acceptable
        exact missing acceptable.toRequests
      · exact ⟨_, _, _, rfl⟩
  | fault requests absent =>
      refine iff_of_false ?_ fun neither => neither ⟨requests, absent⟩
      intro decides
      exact decides.safe rfl
  | @version version workspace requests present room =>
      refine iff_of_true ?_ fun both =>
        Option.some_ne_none version (present.symm.trans both.2)
      by_cases spoken : version = bytes "13"
      · -- The request is acceptable, and the hash fits.
        have acceptable : Acceptable exchange :=
          { requests with version := by rw [present, spoken] }
        rcases Option.isSome_iff_exists.mp requests.key with ⟨key, found⟩
        have room' : HashFits (withWorkspace exchange workspace).request.ws :=
          room
        rcases issueHttp101_spec sha1 (plain_initResponse flags) room' key
          with ⟨later, response, issued, status, accept⟩
        rw [decide_eq_false (not_not.mpr spoken), found]
        dsimp only
        rw [issued]
        refine ⟨Outcome.noConfusion, iff_of_true ?_ acceptable, ?_⟩
        · exact ⟨key, later, response, rfl, found, status, accept⟩
        · intro refused
          exact absurd acceptable refused
      · rw [decide_eq_true spoken]
        refine ⟨Outcome.noConfusion, iff_of_false ?_ ?_, fun _ => ?_⟩
        · rintro ⟨_, _, _, same, _⟩
          cases same
        · intro acceptable
          rw [acceptable.version] at present
          exact spoken (Option.some.inj present).symm
        · exact ⟨_, _, _, rfl⟩

/-- `GET`, `localhost`, `keep-alive, Upgrade`, a key and `13`, each with a zero byte
behind it. -/
def sampleStrings : Bytes :=
  [0x47, 0x45, 0x54, 0x00, 0x6c, 0x6f, 0x63, 0x61, 0x6c, 0x68, 0x6f,
    0x73, 0x74, 0x00, 0x6b, 0x65, 0x65, 0x70, 0x2d, 0x61, 0x6c, 0x69,
    0x76, 0x65, 0x2c, 0x20, 0x55, 0x70, 0x67, 0x72, 0x61, 0x64, 0x65,
    0x00, 0x64, 0x47, 0x68, 0x6c, 0x49, 0x48, 0x4e, 0x68, 0x62, 0x58,
    0x42, 0x73, 0x5a, 0x53, 0x42, 0x75, 0x62, 0x32, 0x35, 0x6a, 0x5a,
    0x51, 0x3d, 0x3d, 0x00, 0x31, 0x33]

/-- A request with some headers, which are given by their names and the offsets of
their values. -/
def sampleRequest (headers : List (String × Nat)) : HttpExchange where
  request :=
    { method := some 0
      uri := none
      version := none
      query := none
      fragment := none
      headers :=
        headers.foldl
          (fun table header =>
            ymoHttpHdrTableInsertPrecompute table
              (ymoHttpHdrHash (bytes header.1)) 0 header.1.length header.2)
          ymoHttpHdrTableClear
      ws := { current := 0, memory := fun _ => 0 }
      body := none
      bodyReceived := 0
      contentLength := 0
      flags := HttpFlags.none }
  hdrName := none
  hdrValue := none
  hId := ymoHttpHdrHashInit
  bodyRemain := 0
  state := .complete
  nextState := .connected
  recvCurrent := 61
  remain := 0
  recvBuf := fun offset => sampleStrings.getD offset 0
  response := none
  high := 0
  wrapped := false

/-- A header that is found under the hash of its name. -/
theorem requestHeader_eq {exchange : HttpExchange} {name : String}
    {hId : HdrId}
    {node : HdrNode Nat}
    {value : Bytes}
    (hash : ymoHttpHdrHash (bytes name) = hId)
    (found : ymoHttpHdrTableGetId exchange.request.headers hId = some node)
    (plain : node.buffer = none)
    (string :
      cString
          (readString exchange.recvBuf ymoHttpRecvBufSize node.value) =
        value) :
    requestHeader exchange name = some value := by
  rw [requestHeader, hash, found, Option.map_some, HdrNode.string, plain]
  exact congrArg some string

/-- The hash of `dGhlIHNhbXBsZSBub25jZQ==` with the identifier behind it. -/
def sampleHash : Hash :=
  ⟨[0xb3, 0x7a, 0x4f, 0x2c, 0xc0, 0x62, 0x4f, 0x16, 0x90, 0xf6,
      0x46, 0x06, 0xcf, 0x38, 0x59, 0x45, 0xb2, 0xbe, 0xc4, 0xea], rfl⟩

/-- A request without a version. -/
def withoutVersion : HttpExchange :=
  sampleRequest [("Host", 4), ("Connection", 14), ("Sec-WebSocket-Key", 34)]

/-- A request with all headers. -/
def withVersion : HttpExchange :=
  sampleRequest
    [("Host", 4), ("Connection", 14), ("Sec-WebSocket-Key", 34),
      ("Sec-WebSocket-Version", 59)]

theorem sampleRequest_method (headers : List (String × Nat)) :
    readString (sampleRequest headers).recvBuf ymoHttpRecvBufSize 0 =
      bytes "GET" :=
  rfl

theorem sampleRequest_parsed (headers : List (String × Nat)) :
    ParsedMethod (sampleRequest headers) := by
  refine ⟨0, rfl, ?_⟩
  rw [sampleRequest_method]
  decide

set_option maxRecDepth 8000 in
theorem hash_names :
    ymoHttpHdrHash (bytes "host") = 26265 ∧
      ymoHttpHdrHash (bytes "connection") = 31919 ∧
        ymoHttpHdrHash (bytes "sec-websocket-key") = 1788 ∧
          ymoHttpHdrHash (bytes "sec-websocket-version") = 16357 := by
  decide

/-- The value of `Connection`. -/
def sampleConnection : Bytes :=
  bytes "keep-alive, Upgrade"

theorem sampleConnection_upgrade : NamesUpgrade sampleConnection :=
  ⟨bytes "Upgrade", by decide, by decide⟩

theorem withVersion_decides :
    Decides (fun _ => sampleHash) withVersion
      (ymoWsUpgradeCb (fun _ => sampleHash) (bytes "WebSocket")
        withVersion (ymoHttpSessionInitResponse HttpFlags.none)) := by
  have connection :
      requestHeader withVersion "connection" = some sampleConnection :=
    requestHeader_eq hash_names.2.1
      (show _ = some (⟨31919, 0, 10, 14, none⟩ : HdrNode Nat) by decide) rfl
      (by decide)
  have version :
      requestHeader withVersion "sec-websocket-version" = some (bytes "13") :=
    requestHeader_eq hash_names.2.2.2
      (show _ = some (⟨16357, 0, 21, 59, none⟩ : HdrNode Nat) by decide) rfl
      (by decide)
  have fits : FitsWorkspace withVersion := by
    intro value found
    rw [connection] at found
    cases found
    decide
  have parsed : ParsedMethod withVersion := sampleRequest_parsed _
  refine
    (ws_upgrade_decides_iff (fun _ => sampleHash) (by decide) parsed fits
      HttpFlags.none).mpr ?_
  rintro ⟨_, absent⟩
  rw [version] at absent
  cases absent

/-- `strcmp` is given a null pointer for the version that is absent. -/
theorem withoutVersion_fault :
    ymoWsUpgradeCb (fun _ => sampleHash) (bytes "websocket")
        withoutVersion (ymoHttpSessionInitResponse HttpFlags.none) =
      .fault := by
  have connection :
      requestHeader withoutVersion "connection" = some sampleConnection :=
    requestHeader_eq hash_names.2.1
      (show _ = some (⟨31919, 0, 10, 14, none⟩ : HdrNode Nat) by decide) rfl
      (by decide)
  have host : requestHeader withoutVersion "host" = some (bytes "localhost") :=
    requestHeader_eq hash_names.1
      (show _ = some (⟨26265, 0, 4, 4, none⟩ : HdrNode Nat) by decide) rfl
      (by decide)
  have key :
      requestHeader withoutVersion "sec-websocket-key" =
        some (bytes "dGhlIHNhbXBsZSBub25jZQ==") :=
    requestHeader_eq hash_names.2.2.1
      (show _ = some (⟨1788, 0, 17, 34, none⟩ : HdrNode Nat) by decide) rfl
      (by decide)
  have version :
      requestHeader withoutVersion "sec-websocket-version" = none := by
    rw [requestHeader, hash_names.2.2.2]
    rfl
  have requests : Requests withoutVersion :=
    { method := by
        rintro _ ⟨⟩
        exact sampleRequest_method _
      host := by rw [host]; rfl
      connection := ⟨_, connection, sampleConnection_upgrade⟩
      key := by rw [key]; rfl }
  have fits : FitsWorkspace withoutVersion := by
    intro value found
    rw [connection] at found
    cases found
    decide
  have parsed : ParsedMethod withoutVersion := sampleRequest_parsed _
  have judged := judged_badRequest parsed fits
  rw [ymoWsUpgradeCb, if_neg (not_not.mpr (by decide))]
  revert judged
  generalize badRequest withoutVersion = condition
  intro judged
  cases judged with
  | refused later missing => exact absurd requests missing
  | fault => rfl
  | version _ present =>
      rw [version] at present
      cases present

end Yimmo.Ws.UpgradeRequest
