import Yimmo.Http.Reader

/-!
# The bytes behind a third value

The second value of a header is joined to the first in a buffer that ends; a third is
copied into a larger buffer without an end, so that whoever reads the header goes on
into bytes that the heap has there, whatever they were before.  The parsers take these
bytes as a parameter.  This module says when a read does not depend on them: no value
is read of a name that has joined values already.
-/

namespace Yimmo.Http.ThirdValues

open Yimmo.Lib.TurnLoop
open Yimmo.Http.Headers
open Yimmo.Http.Exchange
open Yimmo.Http.Parse
open Yimmo.Http.Application
open Yimmo.Http.Reader

variable
    {exchange : HttpExchange}
    {bytes : Bytes}

/-- The same application, where other bytes are behind a third value. -/
def leaving (protoData : HttpProtoData) (bytes : Bytes) : HttpProtoData :=
  { protoData with stray := bytes }

/-! ## One value -/

/-- The name whose value is being read has no joined values. -/
def FewValues (exchange : HttpExchange) : Prop :=
  ∀ node ∈
      ymoHttpHdrTableGetId exchange.request.headers
        (exchange.hId &&& ymoHdrTableMask),
    node.buffer = none

instance (exchange : HttpExchange) : Decidable (FewValues exchange) :=
  inferInstanceAs (Decidable (∀ node ∈ _, _))

/-- An update is only made to the node that is found. -/
theorem updateNode_congr {Pointer : Type} {hId : HdrId}
    {update update' : HdrNode Pointer → HdrNode Pointer}
    {nodes : List (HdrNode Pointer)}
    (same :
      ∀ node ∈ nodes.find? fun node => node.hId = hId,
        update' node = update node) :
    updateNode hId update' nodes = updateNode hId update nodes := by
  induction nodes with
  | nil => rfl
  | cons node rest ih =>
      rw [updateNode, updateNode]
      rw [List.find?_cons] at same
      by_cases here : node.hId = hId
      · rw [decide_eq_true here] at same
        rw [if_pos here, if_pos here, same node rfl]
      · rw [decide_eq_false here] at same
        rw [if_neg here, if_neg here, ih same]

theorem httpHeaderGotValue_eq (few : FewValues exchange) (bytes bytes' : Bytes)
    (cursor : Cursor) :
    httpHeaderGotValue bytes' exchange cursor =
      httpHeaderGotValue bytes exchange cursor := by
  have joined :
      ∀ (read : Nat → Bytes) (value : Nat),
        ∀ node ∈
            ymoHttpHdrTableGetId exchange.request.headers
              (exchange.hId &&& ymoHdrTableMask),
          joinValue read bytes' value node =
            joinValue read bytes value node := by
    intro read value node found
    rw [joinValue, joinValue, few node found]
  have added :=
    fun (read : Nat → Bytes) value => updateNode_congr (joined read value)
  simp only [httpHeaderGotValue, ymoHttpHdrTableAddPrecompute,
    HdrTable.upsert, added]

theorem headerValueLoop_eq (few : FewValues exchange) (bytes bytes' : Bytes)
    (cursor : Cursor)
    (count : Nat)
    (buffer : Bytes) :
    headerValueLoop bytes' exchange cursor count buffer =
      headerValueLoop bytes exchange cursor count buffer := by
  induction buffer generalizing cursor count with
  | nil => rfl
  | cons c rest ih =>
      rw [headerValueLoop.eq_def, headerValueLoop.eq_def]
      dsimp only
      split
      · cases rest with
        | nil => rfl
        | cons next later =>
            dsimp only
            rw [ih]
      · rw [httpHeaderGotValue_eq few bytes bytes']

/-! ## The headers of a read -/

/-- A turn of the loop over the headers reads no third value. -/
def FewInTurn (locals : HeadersState) : Prop :=
  locals.exchange.state = .headerValueLeadingSpace ∨
      locals.exchange.state = .headerValue →
    FewValues locals.exchange

instance (locals : HeadersState) : Decidable (FewInTurn locals) :=
  inferInstanceAs (Decidable (_ → _))

theorem headersTurn_eq {locals : HeadersState} (few : FewInTurn locals)
    (bytes bytes' : Bytes) :
    headersTurn bytes' locals = headersTurn bytes locals := by
  unfold headersTurn
  dsimp only
  split
  · rfl
  · rename_i state
    have few' :
        FewValues
          { locals.exchange with
            hdrValue := some locals.exchange.recvCurrent
            state := .headerValue } :=
      few (Or.inl state)
    rw [parseHttpHeaderValue, parseHttpHeaderValue,
      headerValueLoop_eq few' bytes bytes']
  · rename_i state
    rw [parseHttpHeaderValue, parseHttpHeaderValue,
      headerValueLoop_eq (few (Or.inr state)) bytes bytes']
  · rfl

/-- The parser reads no third value in the buffer. -/
def FewInBuffer (bytes : Bytes) (exchange : HttpExchange) (buffer : Bytes) :
    Prop :=
  AllTurns (headersTurn bytes) FewInTurn (buffer.length + 1)
    { exchange := exchange, count := 0, buffer := buffer }

instance
    (bytes : Bytes)
    (exchange : HttpExchange)
    (buffer : Bytes) :
    Decidable (FewInBuffer bytes exchange buffer) :=
  decidableAllTurns _ _ _

theorem ymoParseHttpHeaders_eq {buffer : Bytes}
    (few : FewInBuffer bytes exchange buffer)
    (bytes' : Bytes) :
    ymoParseHttpHeaders bytes' exchange buffer =
      ymoParseHttpHeaders bytes exchange buffer :=
  few.loop_eq fun _ here => headersTurn_eq here bytes bytes'

/-- A turn of the loop of `ymo_proto_http_read` reads no third value. -/
def FewInRead (protoData : HttpProtoData) (locals : ReadLocals) : Prop :=
  locals.exchange.state = .headerName ∨
      locals.exchange.state = .headerValueLeadingSpace ∨
        locals.exchange.state = .headerValue →
    FewInBuffer protoData.stray locals.exchange
      (locals.scan.memory.take locals.scan.len)

instance
    (protoData : HttpProtoData)
    (locals : ReadLocals) :
    Decidable (FewInRead protoData locals) :=
  inferInstanceAs (Decidable (_ → _))

section

variable (protoData : HttpProtoData)

theorem handlerCallback_leaving :
    handlerCallback (leaving protoData bytes) = handlerCallback protoData := by
  funext exchange state
  unfold handlerCallback standardCallback
  rfl

theorem parseCompleteTurn_leaving :
    parseCompleteTurn (leaving protoData bytes) =
      parseCompleteTurn protoData := by
  funext locals
  unfold parseCompleteTurn parseComplete
  rw [handlerCallback_leaving]

theorem headersCompleteTurn_leaving :
    headersCompleteTurn (leaving protoData bytes) =
      headersCompleteTurn protoData := by
  funext locals
  unfold headersCompleteTurn headersComplete
  rw [parseCompleteTurn_leaving]
  rfl

theorem loopTest_leaving :
    loopTest (leaving protoData bytes) = loopTest protoData := by
  funext locals
  unfold loopTest
  rw [parseCompleteTurn_leaving, headersCompleteTurn_leaving]

theorem afterParse_leaving :
    afterParse (leaving protoData bytes) = afterParse protoData := by
  funext scan state parsed
  unfold afterParse
  rw [loopTest_leaving]

end

theorem readTurn_eq {protoData : HttpProtoData} {locals : ReadLocals}
    (few : FewInRead protoData locals)
    (bytes : Bytes) :
    readTurn (leaving protoData bytes) locals = readTurn protoData locals := by
  have head :
      parseHead bytes locals.exchange
          (locals.scan.memory.take locals.scan.len) =
        parseHead protoData.stray locals.exchange
          (locals.scan.memory.take locals.scan.len) := by
    unfold parseHead
    split <;> first
      | rfl
      | exact congrArg some (ymoParseHttpHeaders_eq (few (by simp [*])) bytes)
  have turn :
      headTurn (leaving protoData bytes) locals =
        headTurn protoData locals := by
    have behind : (leaving protoData bytes).stray = bytes := rfl
    unfold headTurn
    dsimp only
    rw [behind, head, afterParse_leaving]
  have body :
      bodyStateTurn (leaving protoData bytes) locals =
        bodyStateTurn protoData locals := by
    have same : bodyCb (leaving protoData bytes) = bodyCb protoData := rfl
    unfold bodyStateTurn
    rw [same, afterParse_leaving]
  unfold readTurn
  rw [turn, body, headersCompleteTurn_leaving, parseCompleteTurn_leaving]

/-- The locals that `ymo_proto_http_read` starts its loop with. -/
def readLocals (session : Option HttpExchange) (memory : Bytes) (len : Nat) :
    ReadLocals :=
  let ready :=
    ymoHttpSessionIsReadReady session { error := false, effects := [] }
  { exchange := ready.1
    state := ready.2
    scan := { memory := memory, len := len, taken := 0 } }

theorem ymoProtoHttpRead_loop (protoData : HttpProtoData)
    (session : Option HttpExchange)
    (memory : Bytes)
    (len : Nat) :
    ymoProtoHttpRead protoData false session memory len =
      loop (readTurn protoData) readGiveUp (readFuel memory)
        (readLocals session memory len) := by
  unfold ymoProtoHttpRead readLocals
  exact if_neg Bool.false_ne_true

/-- A read reads no third value. -/
def FewValuesRead (protoData : HttpProtoData) (session : Option HttpExchange)
    (memory : Bytes)
    (len : Nat) :
    Prop :=
  AllTurns (readTurn protoData) (FewInRead protoData) (readFuel memory)
    (readLocals session memory len)

instance
    (protoData : HttpProtoData)
    (session : Option HttpExchange)
    (memory : Bytes)
    (len : Nat) :
    Decidable (FewValuesRead protoData session memory len) :=
  decidableAllTurns _ _ _

/-- A read without a third value does not depend on what is behind one. -/
theorem ymoProtoHttpRead_eq {protoData : HttpProtoData} {error : Bool}
    {session : Option HttpExchange}
    {memory : Bytes}
    {len : Nat}
    (few : error = false → FewValuesRead protoData session memory len)
    (bytes : Bytes) :
    ymoProtoHttpRead (leaving protoData bytes) error session memory len =
      ymoProtoHttpRead protoData error session memory len := by
  cases error with
  | true =>
      unfold ymoProtoHttpRead
      dsimp only
      rw [if_pos rfl, if_pos rfl]
  | false =>
      rw [ymoProtoHttpRead_loop, ymoProtoHttpRead_loop]
      apply AllTurns.loop_eq (few rfl)
      exact fun _ here => readTurn_eq here bytes

end Yimmo.Http.ThirdValues
