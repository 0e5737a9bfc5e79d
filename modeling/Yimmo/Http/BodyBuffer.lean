import Yimmo.Http.ChunkedDecoding
import Yimmo.Http.BodyFraming

/-!
# Buffered bodies

Without a body callback of the application the library buffers the body itself.
It allocates as many bytes as the head announces, or the maximum if it announces
none, and from then on checks against the maximum.

That is enough unless a length below the maximum is announced together with the
chunked coding: then the chunks come after as many bytes, and do not fit.
-/

namespace Yimmo.Http.BodyBuffer

open Yimmo.Core.StatusCode
open Yimmo.Lib
open Yimmo.Lib.TurnLoop
open Yimmo.Http.Headers
open Yimmo.Http.Exchange
open Yimmo.Http.Parse
open Yimmo.Http.Application
open Yimmo.Http.Reader
open Yimmo.Http.HeaderLines
open Yimmo.Http.BodyFraming
open Yimmo.Http.BodyScan
open Yimmo.Http.BodyBounds
open Yimmo.Http.ChunkedCoding
open Yimmo.Http.ChunkedDecoding
open Yimmo.Http.ReadProgress

variable
    {state : ReadState}
    {effect : Effect}
    {data : Bytes}

/-! ## The run -/

/-- The bytes that a call of `buffer_body_cb` copied. -/
def copiedOf : Effect → Bytes
  | .shown (.buffered data .okay) => data
  | _ => []

/-- All the bytes that were copied, in order. -/
def copied (effects : List Effect) : Bytes :=
  effects.flatMap copiedOf

/-- The exchange still waits for bytes of the body. -/
def openBody (exchange : HttpExchange) : Bool :=
  bodyState exchange.state && exchange.state != .complete

/-- Reading went well, and the body goes on. -/
def goesOn (result : ReadResult) (exchange : HttpExchange) : Bool :=
  match result.outcome with
  | .took _ => !result.state.error && openBody exchange
  | _ => false

/-- The body is read, read by read, to the end of the request; each read comes
with the memory behind it. -/
def readBody (protoData : HttpProtoData) :
    HttpExchange → List (Bytes × Bytes) → List Effect × Option HttpExchange
  | exchange, [] => ([], some exchange)
  | exchange, read :: reads =>
      let result :=
        ymoProtoHttpRead protoData false (some exchange)
          (read.1 ++ read.2) read.1.length
      match result.exchange with
      | some later =>
          if goesOn result later then
            let rest := readBody protoData later reads
            (result.state.effects ++ rest.1, rest.2)
          else (result.state.effects, some later)
      | none => (result.state.effects, none)

/-- What was copied to the block lies inside it. -/
def InsideBlock (exchange : HttpExchange) : Prop :=
  ∀ body ∈ exchange.request.body, body.data.length ≤ body.size

/--
When the request is handled the body is what was copied and both counters are
its length; nothing is ever copied past the block; and what cannot be buffered
is refused with `ENOMEM` or `EFBIG`.
-/
structure BufferedWell
    (effects : List Effect)
    (exchange : Option HttpExchange) : Prop where
  delivered :
    ∀ view, .shown (.http view) ∈ effects →
      view.body.getD [] = copied effects ∧
        view.bodyReceived = (copied effects).length ∧
          view.contentLength = (copied effects).length
  inside :
    ∀ later, exchange = some later ∨ .store later ∈ effects → InsideBlock later
  refused :
    ∀ data errno, .shown (.buffered data (.err errno)) ∈ effects →
      errno = .enomem ∨ errno = .efbig

/-! ## While the body is read -/

/-- Nothing has been handled, and nothing copied past the block. -/
structure Quiet (effects : List Effect) : Prop where
  unhandled : ∀ view, .shown (.http view) ∉ effects
  stored : ∀ later, .store later ∈ effects → InsideBlock later
  refused :
    ∀ data errno, .shown (.buffered data (.err errno)) ∈ effects →
      errno = .enomem ∨ errno = .efbig

/-- The block: none yet, or one that holds what was copied. -/
inductive Block (announced : Nat) (got : Bytes) :
    HttpRequest → Prop where
  | absent
      {request : HttpRequest}
      (none : request.body = none)
      (nothing : got = [])
      (length : request.contentLength = announced) :
      Block announced got request
  | present
      {request : HttpRequest}
      {body : Body}
      (some : request.body = some body)
      (data : body.data = got)
      (length : request.contentLength = got.length)
      (size : body.size = if announced ≠ 0 then announced else ymoHttpMaxBody)
      (fits : announced ≤ ymoHttpMaxBody)
      (room : got.length ≤ ymoHttpMaxBody) :
      Block announced got request

/-- The invariant along a body, for what the head announced. -/
structure Buffering
    (announced : Nat)
    (chunked : Bool)
    (got : Bytes)
    (exchange : HttpExchange) : Prop where
  coding : exchange.request.flags.requestChunked = chunked
  phase : bodyState exchange.state = true
  next : bodyState exchange.nextState = true
  received : exchange.request.bodyReceived = got.length
  block : Block announced got exchange.request
  pending :
    exchange.request.body = none → announced ≠ 0 →
      exchange.state = .body ∧ exchange.bodyRemain = announced
  counted :
    chunked = false →
      exchange.state = .body ∧ exchange.nextState = .complete ∧
          exchange.bodyRemain + got.length = announced ∨
        exchange.state = .complete ∧ got.length = announced

/-- The head does not announce a small length and chunks. -/
def Separate (announced : Nat) (chunked : Bool) : Prop :=
  ¬ (chunked = true ∧ 0 < announced ∧ announced < ymoHttpMaxBody)

section Invariant

variable
    {announced : Nat}
    {chunked : Bool}
    {got : Bytes}
    {exchange : HttpExchange}

theorem Buffering.inside (separate : Separate announced chunked)
    (buffering : Buffering announced chunked got exchange) :
    InsideBlock exchange := by
  intro body found
  cases buffering.block with
  | absent none nothing length =>
      rw [none] at found
      cases found
  | @present block some data length size fits room =>
      rw [some] at found
      cases found
      rw [data, size]
      split_ifs with announces
      · cases coding : chunked with
        | true =>
            have large : ¬ announced < ymoHttpMaxBody := by
              intro small
              exact separate ⟨coding, Nat.pos_of_ne_zero announces, small⟩
            omega
        | false =>
            rcases buffering.counted coding with
              ⟨-, -, total⟩ | ⟨-, total⟩
            · omega
            · omega
      · exact room

/-- What the end of a body delivers. -/
theorem Buffering.delivered
    (buffering : Buffering announced chunked got exchange)
    (complete : exchange.state = .complete) :
    (exchange.request.body.map fun body =>
        body.data.take exchange.request.bodyReceived).getD [] =
        got ∧
      exchange.request.bodyReceived = got.length ∧
        exchange.request.contentLength = got.length := by
  refine ⟨?_, buffering.received, ?_⟩
  · cases buffering.block with
    | absent none nothing length =>
        rw [none, nothing]
        rfl
    | present some data length size fits room =>
        rw [some, Option.map_some, Option.getD_some, data,
          buffering.received, List.take_length]
  · cases buffering.block with
    | absent none nothing length =>
        rw [length, nothing]
        by_contra announces
        rcases buffering.pending none announces with ⟨inBody, -⟩
        rw [complete] at inBody
        cases inBody
    | present some data length size fits room => exact length

/-- Fields that the body does not depend on may change. -/
theorem Buffering.move
    (buffering : Buffering announced true got exchange)
    {later : HttpExchange}
    (request : later.request = exchange.request)
    (phase : bodyState later.state = true)
    (next : bodyState later.nextState = true)
    (pending :
      exchange.request.body = none → announced ≠ 0 →
        later.state = .body ∧ later.bodyRemain = announced) :
    Buffering announced true got later := by
  constructor
  · rw [request]
    exact buffering.coding
  · exact phase
  · exact next
  · rw [request]
    exact buffering.received
  · rw [request]
    exact buffering.block
  · rw [request]
    exact pending
  · intro none
    cases none

/-- In a line the coding is chunked and there is no block to wait for. -/
theorem Buffering.of_inLine
    (buffering : Buffering announced chunked got exchange)
    (inLine : (placeOf exchange).inLine = true) :
    chunked = true ∧ ¬ (exchange.request.body = none ∧ announced ≠ 0) := by
  have notBody : exchange.state ≠ .body := by
    rcases inLine_cases inLine with header | trailer
    · rw [header]
      exact HttpState.noConfusion
    · rw [trailer]
      exact HttpState.noConfusion
  constructor
  · cases coding : chunked with
    | true => rfl
    | false =>
        rcases buffering.counted coding with ⟨inBody, -⟩ | ⟨ended, -⟩
        · exact absurd inBody notBody
        · rcases inLine_cases inLine with header | trailer
          · rw [header] at ended
            cases ended
          · rw [trailer] at ended
            cases ended
  · rintro ⟨none, announces⟩
    exact notBody (buffering.pending none announces).1

theorem Buffering.lineByte
    (buffering : Buffering announced chunked got exchange)
    (inLine : (placeOf exchange).inLine = true)
    (c : UInt8) :
    Buffering announced chunked got (lineByte exchange c) := by
  rcases buffering.of_inLine inLine with ⟨rfl, started⟩
  have pending {later : HttpExchange} (none : exchange.request.body = none)
      (announces : announced ≠ 0) :
      later.state = .body ∧ later.bodyRemain = announced :=
    absurd ⟨none, announces⟩ started
  rcases inLine_cases inLine with header | trailer
  · rw [lineByte_of_header header]
    split
    · exact buffering
    · exact buffering.move rfl buffering.phase buffering.next pending
  · rw [lineByte_of_trailer trailer]
    exact buffering

theorem Buffering.lineFed
    (buffering : Buffering announced chunked got exchange)
    (inLine : (placeOf exchange).inLine = true) :
    Buffering announced chunked got (lineFed exchange) := by
  rcases buffering.of_inLine inLine with ⟨rfl, started⟩
  have pending {later : HttpExchange} (none : exchange.request.body = none)
      (announces : announced ≠ 0) :
      later.state = .body ∧ later.bodyRemain = announced :=
    absurd ⟨none, announces⟩ started
  unfold BodyScan.lineFed
  rcases inLine_cases inLine with header | trailer
  · rw [header]
    dsimp only
    split
    · exact buffering.move rfl rfl rfl pending
    · exact buffering.move rfl rfl rfl pending
  · rw [trailer]
    exact buffering.move rfl buffering.next buffering.next pending

theorem Buffering.ends (buffering : Buffering announced chunked got exchange)
    (inBody : exchange.state = .body)
    (none : exchange.bodyRemain = 0) :
    Buffering announced chunked got { exchange with state := .complete } := by
  constructor
  · exact buffering.coding
  · rfl
  · exact buffering.next
  · exact buffering.received
  · exact buffering.block
  · intro absent announces
    have remain := (buffering.pending absent announces).2
    exact absurd (remain.symm.trans none) announces
  · intro coding
    rcases buffering.counted coding with ⟨-, -, total⟩ | ⟨ended, -⟩
    · exact Or.inr ⟨rfl, by omega⟩
    · rw [inBody] at ended
      cases ended

/-- What `buffer_body_cb` does to a request that is being buffered. -/
theorem Block.buffered {request : HttpRequest}
    (block : Block announced got request)
    (received : request.bodyReceived = got.length) :
    (bodyBlock request = none ∧ ymoHttpMaxBody < announced) ∨
      ∃ ready : HttpRequest,
        bodyBlock request = some ready ∧
          ready.flags = request.flags ∧
            ready.bodyReceived = got.length ∧
              ∃ body,
                ready.body = some body ∧ body.data = got ∧
                  ready.contentLength = got.length ∧
                    body.size =
                        (if announced ≠ 0 then announced else ymoHttpMaxBody) ∧
                      announced ≤ ymoHttpMaxBody ∧
                        got.length ≤ ymoHttpMaxBody := by
  unfold bodyBlock
  cases block with
  | absent none nothing length =>
      rw [none]
      dsimp only
      rw [length]
      by_cases fits : announced ≤ ymoHttpMaxBody
      · rw [if_pos fits]
        refine Or.inr ⟨_, rfl, rfl, received, _, rfl, ?_⟩
        rw [nothing]
        exact ⟨rfl, rfl, rfl, fits, Nat.zero_le _⟩
      · rw [if_neg fits]
        exact Or.inl ⟨rfl, Nat.lt_of_not_le fits⟩
  | present some data length size fits room =>
      rw [some]
      exact
        Or.inr
          ⟨request, rfl, rfl, received, _, some, data, length, size,
            fits, room⟩

/-- A copy behind what was copied before. -/
theorem copy_end (body : Body) (data : Bytes) :
    (body.copy body.data.length data).data = body.data ++ data := by
  unfold Body.copy
  dsimp only
  rw [List.take_length, List.drop_of_length_le (Nat.le_add_right _ _),
    List.append_nil]

/-- The block is there, and nothing else has changed. -/
theorem Buffering.ready (buffering : Buffering announced chunked got exchange)
    {ready : HttpRequest}
    (flags : ready.flags = exchange.request.flags)
    (received : ready.bodyReceived = got.length)
    (block : Block announced got ready)
    {body : Body}
    (some : ready.body = some body) :
    Buffering announced chunked got { exchange with request := ready } := by
  constructor
  · rw [flags]
    exact buffering.coding
  · exact buffering.phase
  · exact buffering.next
  · exact received
  · exact block
  · intro none
    rw [some] at none
    cases none
  · exact buffering.counted

theorem Buffering.taken (buffering : Buffering announced chunked got exchange)
    (inBody : exchange.state = .body)
    (fits : data.length ≤ exchange.bodyRemain)
    {ready : HttpRequest}
    (flags : ready.flags = exchange.request.flags)
    (received : ready.bodyReceived = got.length)
    {body : Body}
    (some : ready.body = some body)
    (held : body.data = got)
    (length : ready.contentLength = got.length)
    (size : body.size = if announced ≠ 0 then announced else ymoHttpMaxBody)
    (small : announced ≤ ymoHttpMaxBody)
    (room : got.length + data.length ≤ ymoHttpMaxBody) :
    Buffering announced chunked (got ++ data)
      (bodyTaken
        { exchange with request := bufferData ready data }
        data.length) := by
  have request :
      (bodyTaken { exchange with request := bufferData ready data }
          data.length).request =
        bufferData ready data := by
    unfold bodyTaken
    dsimp only
    split_ifs <;> rfl
  have bodyAfter :
      (bufferData ready data).body =
        Option.some (body.copy got.length data) := by
    unfold bufferData
    dsimp only
    rw [some, received]
    rfl
  have coding : (bufferData ready data).flags.requestChunked = chunked := by
    unfold bufferData
    dsimp only
    rw [flags]
    exact buffering.coding
  constructor
  · rw [request]
    exact coding
  · unfold bodyTaken
    dsimp only
    split_ifs
    · rfl
    · exact buffering.next
    · exact buffering.phase
  · unfold bodyTaken
    dsimp only
    split_ifs
    · rfl
    · exact buffering.next
    · exact buffering.next
  · rw [request, List.length_append, ← received]
    rfl
  · rw [request]
    apply Block.present bodyAfter
    · rw [← held, copy_end]
    · unfold bufferData
      dsimp only
      rw [length, List.length_append, Nat.mod_eq_of_lt]
      exact Nat.lt_of_le_of_lt room (by decide)
    · exact size
    · exact small
    · rw [List.length_append]
      exact room
  · intro none
    rw [request, bodyAfter] at none
    cases none
  · intro plain
    rw [List.length_append]
    rw [plain] at coding
    rcases buffering.counted plain with ⟨-, next, total⟩ | ⟨ended, -⟩
    · unfold bodyTaken
      dsimp only
      rw [coding]
      by_cases ended : exchange.bodyRemain - data.length = 0
      · rw [if_pos ended, if_neg Bool.false_ne_true]
        exact Or.inr ⟨next, by omega⟩
      · rw [if_neg ended]
        exact Or.inl ⟨inBody, next, by dsimp only; omega⟩
    · rw [inBody] at ended
      cases ended

end Invariant

/-! ## The callback -/

/-- What holds between the pieces of a body. -/
def Between (announced : Nat) (chunked : Bool) (earlier : List Effect)
    (state : ReadState)
    (exchange : HttpExchange) : Prop :=
  Buffering announced chunked (copied (earlier ++ state.effects))
      exchange ∧
    Quiet (earlier ++ state.effects)

/-- What holds when the callback refused a piece. -/
def Refused (earlier : List Effect) (state : ReadState)
    (exchange : HttpExchange) : Prop :=
  InsideBlock exchange ∧ Quiet (earlier ++ state.effects)

section Callback

variable
    {announced : Nat}
    {chunked : Bool}
    {earlier : List Effect}

theorem copied_append (front back : List Effect) :
    copied (front ++ back) = copied front ++ copied back :=
  List.flatMap_append

/-- An effect that says nothing about bodies. -/
theorem Quiet.emit
    (quiet : Quiet (earlier ++ state.effects))
    (unhandled : ∀ view, effect ≠ .shown (.http view))
    (stored : ∀ later, effect = .store later → InsideBlock later)
    (refused :
      ∀ data errno, effect = .shown (.buffered data (.err errno)) →
        errno = .enomem ∨ errno = .efbig) :
    Quiet (earlier ++ (state.emit effect).effects) := by
  have split :
      earlier ++ (state.emit effect).effects =
        (earlier ++ state.effects) ++ [effect] :=
    (List.append_assoc _ _ _).symm
  rw [split]
  constructor
  · intro view member
    rcases List.mem_append.mp member with old | new
    · exact quiet.unhandled view old
    · exact unhandled view (List.mem_singleton.mp new).symm
  · intro later member
    rcases List.mem_append.mp member with old | new
    · exact quiet.stored later old
    · exact stored later (List.mem_singleton.mp new).symm
  · intro data errno member
    rcases List.mem_append.mp member with old | new
    · exact quiet.refused data errno old
    · exact refused data errno (List.mem_singleton.mp new).symm

theorem Quiet.emit_buffered
    (quiet : Quiet (earlier ++ state.effects))
    (data : Bytes)
    (status : Status)
    (refused :
      ∀ errno, status = .err errno → errno = .enomem ∨ errno = .efbig) :
    Quiet
      (earlier ++ (state.emit (.shown (.buffered data status))).effects) := by
  apply quiet.emit
  · intro view same
    cases same
  · intro later same
    cases same
  · intro data' errno same
    cases same
    exact refused errno rfl

/-- Buffering keeps what holds between the pieces. -/
theorem bufferBodyCb_invariant (separate : Separate announced chunked) :
    BodyInvariant bufferBodyCb (Between announced chunked earlier)
      (Refused earlier) := by
  constructor
  · intro state exchange c held inLine noFeed
    exact ⟨held.1.lineByte inLine c, held.2⟩
  · intro state exchange held inLine
    exact ⟨held.1.lineFed inLine, held.2⟩
  · intro state exchange held inBody none
    exact ⟨held.1.ends inBody none, held.2⟩
  · intro state exchange data after later held inBody remains fits called
    unfold bufferBodyCb at called
    rcases held.1.block.buffered held.1.received with
      ⟨refused, -⟩ |
        ⟨ready, blocked, flags, received, body, some, data', length,
          size, small, room⟩
    · rw [refused] at called
      cases called
    · rw [blocked] at called
      dsimp only at called
      rw [received] at called
      split at called
      · cases called
      · rename_i enough
        cases called
        constructor
        · have got :
              copied
                  (earlier ++
                    (state.emit (.shown (.buffered data .okay))).effects) =
                copied (earlier ++ state.effects) ++ data := by
            unfold ReadState.emit
            dsimp only
            rw [← List.append_assoc, copied_append]
            congr 1
            exact List.append_nil data
          rw [got]
          exact
            held.1.taken inBody fits flags received some data' length
              size small (by omega)
        · exact held.2.emit_buffered data .okay (fun _ same => by cases same)
  · intro state exchange data errno after later held inBody remains fits called
    unfold bufferBodyCb at called
    rcases held.1.block.buffered held.1.received with
      ⟨refused, -⟩ |
        ⟨ready, blocked, flags, received, body, some, data', length,
          size, small, room⟩
    · rw [refused] at called
      cases called
      refine ⟨held.1.inside separate, held.2.emit_buffered data _ ?_⟩
      intro errno same
      cases same
      exact Or.inl rfl
    · rw [blocked] at called
      dsimp only at called
      split at called
      · cases called
        refine ⟨?_, held.2.emit_buffered data _ ?_⟩
        · have started :=
            held.1.ready flags received
              (.present some data' length size small room) some
          exact started.inside separate
        · intro errno same
          cases same
          exact Or.inr rfl
      · cases called

end Callback

/-! ## The handler -/

/-- An effect while a request is handled: the application is shown the body as it
is, and what is stored keeps it. -/
def Handling (exchange : HttpExchange) : Effect → Prop
  | .store later => later.request.body = exchange.request.body
  | .shown (.http view) =>
      view.body =
          exchange.request.body.map (fun body =>
            body.data.take exchange.request.bodyReceived) ∧
        view.bodyReceived = exchange.request.bodyReceived ∧
          view.contentLength = exchange.request.contentLength
  | .shown (.buffered _ _) => False
  | _ => True

/-- The effects since are effects of handling. -/
def Handles (exchange : HttpExchange) (before after : ReadState) : Prop :=
  ∃ more,
    after.effects = before.effects ++ more ∧
      ∀ effect ∈ more, Handling exchange effect

section Handler

variable {exchange : HttpExchange}

theorem Handles.refl (exchange : HttpExchange) (state : ReadState) :
    Handles exchange state state :=
  ⟨[], (List.append_nil _).symm, fun _ member => by cases member⟩

theorem Handles.trans {first second third : ReadState}
    (one : Handles exchange first second)
    (two : Handles exchange second third) :
    Handles exchange first third := by
  rcases one with ⟨more, effects, handling⟩
  rcases two with ⟨others, later, handlingLater⟩
  refine ⟨more ++ others, ?_, ?_⟩
  · rw [later, effects, List.append_assoc]
  · intro effect member
    rcases List.mem_append.mp member with old | new
    · exact handling effect old
    · exact handlingLater effect new

theorem Handles.emit {before after : ReadState}
    (handles : Handles exchange before after)
    (handling : Handling exchange effect) :
    Handles exchange before (after.emit effect) := by
  apply handles.trans
  refine ⟨[effect], rfl, ?_⟩
  intro other member
  rw [List.mem_singleton.mp member]
  exact handling

theorem body_of_framed {left right : HttpExchange}
    (same : framed left = framed right) :
    left.request.body = right.request.body := by
  have bodies : (framed left).request.body = (framed right).request.body := by
    rw [same]
  exact bodies

theorem counters_of_framed {left right : HttpExchange}
    (same : framed left = framed right) :
    left.request.bodyReceived = right.request.bodyReceived ∧
      left.request.contentLength = right.request.contentLength := by
  have received :
      (framed left).request.bodyReceived =
        (framed right).request.bodyReceived := by
    rw [same]
  have length :
      (framed left).request.contentLength =
        (framed right).request.contentLength := by
    rw [same]
  exact ⟨received, length⟩

theorem handling_of_framed {other : HttpExchange}
    (same : framed other = framed exchange)
    (handling : Handling other effect) :
    Handling exchange effect := by
  rcases counters_of_framed same with ⟨received, length⟩
  unfold Handling at handling ⊢
  rw [body_of_framed same, received, length] at handling
  exact handling

theorem handles_of_framed {other : HttpExchange}
    (same : framed other = framed exchange)
    {before after : ReadState}
    (handles : Handles other before after) :
    Handles exchange before after := by
  rcases handles with ⟨more, effects, handling⟩
  exact
    ⟨more, effects,
      fun effect member => handling_of_framed same (handling effect member)⟩

theorem handles_runCall (exchange : HttpExchange) (state : ReadState)
    (call : AppCall) :
    Handles exchange state (runCall exchange state call).2 := by
  unfold runCall
  dsimp only
  split
  · rename_i resolved _
    refine ⟨[.store (resolveCall exchange call).2, .call resolved], rfl, ?_⟩
    intro effect member
    rcases List.mem_cons.mp member with rfl | last
    · exact body_of_framed (framed_resolveCall exchange call)
    · rw [List.mem_singleton.mp last]
      exact True.intro
  · exact Handles.refl exchange state

theorem handles_runCalls (exchange : HttpExchange) (state : ReadState)
    (calls : List AppCall) :
    Handles exchange state (runCalls exchange state calls).2 := by
  induction calls generalizing exchange state with
  | nil => exact Handles.refl exchange state
  | cons call calls ih =>
      apply (handles_runCall exchange state call).trans
      exact handles_of_framed (framed_runCall exchange state call) (ih _ _)

theorem handles_standardCallback (protoData : HttpProtoData)
    (exchange : HttpExchange)
    (state : ReadState) :
    Handles exchange state
      (standardCallback protoData exchange state).2.2 := by
  unfold standardCallback react
  dsimp only
  have shown :
      Handles exchange state (state.emit (.shown (.http (viewOf exchange)))) :=
    (Handles.refl exchange state).emit ⟨rfl, rfl, rfl⟩
  exact shown.trans (handles_runCalls exchange _ _)

theorem handles_ymoHttpCheckUpgrade (header : Bytes)
    (handlers : List UpgradeHandler)
    (exchange : HttpExchange)
    (state : ReadState) :
    Handles exchange state
      (ymoHttpCheckUpgrade header handlers exchange state).state := by
  induction handlers generalizing exchange state with
  | nil => exact Handles.refl exchange state
  | cons handler handlers ih =>
      have shown :
          Handles exchange state
            (state.emit (.shown (.upgrade header (viewOf exchange)))) :=
        (Handles.refl exchange state).emit True.intro
      have called :=
        shown.trans
          (handles_runCalls exchange _
            (handler.cb header (viewOf exchange)).calls)
      rw [ymoHttpCheckUpgrade]
      split
      · exact called.trans (handles_of_framed (framed_runCalls _ _ _) (ih _ _))
      · exact called.emit True.intro
      · exact called
      · exact called

theorem handles_handlerCallback (protoData : HttpProtoData)
    (exchange : HttpExchange)
    (state : ReadState) :
    Handles exchange state (handlerCallback protoData exchange state).2.2 := by
  unfold handlerCallback
  split
  · dsimp only
    have upgraded :=
      handles_ymoHttpCheckUpgrade
        ((ymoHttpHdrTableGetId exchange.request.headers
            ymoHttpHidUpgrade).elim []
          fun node =>
            node.string
              (ByteMemory.readString exchange.recvBuf exchange.recvCurrent))
        protoData.upgradeHandler exchange state
    split
    · exact
        upgraded.trans
          (handles_of_framed (framed_ymoHttpCheckUpgrade _ _ _ _)
            (handles_standardCallback _ _ _))
    · exact upgraded
    · exact upgraded
    · exact
        upgraded.trans
          (handles_of_framed (framed_ymoHttpCheckUpgrade _ _ _ _)
            (handles_runCall _ _ _))
    · exact
        upgraded.trans
          (handles_of_framed (framed_ymoHttpCheckUpgrade _ _ _ _)
            (handles_standardCallback _ _ _))
  · exact handles_standardCallback protoData exchange state

/-- The result of the handler is recorded, and the body stored with it. -/
theorem handles_handleCallbackResult (status : Status)
    (exchange : HttpExchange)
    (state : ReadState) :
    Handles exchange state
        (handleCallbackResult status exchange state).2 ∧
      (∀ later ∈ (handleCallbackResult status exchange state).1,
        later.request.body = exchange.request.body) ∧
        ∃ later,
          .store later ∈
              (handleCallbackResult status exchange state).2.effects ∧
            later.request.body = exchange.request.body := by
  have start := Handles.refl exchange state
  unfold handleCallbackResult
  dsimp only
  split
  · have same :
        (if exchange.response.elim false (·.keepalive) = true then
            ymoHttpExchangeReset (markQueued exchange)
          else markQueued exchange).request.body =
          exchange.request.body := by
      split <;> rfl
    have added : Handles exchange state (state.emit .addResponse) :=
      start.emit True.intro
    refine
      ⟨added.emit (show Handling exchange (.store _) from same), ?_, _,
        ?_, same⟩
    · intro later found
      cases found
      exact same
    · exact List.mem_append_right _ (List.mem_singleton.mpr rfl)
  · have stored : Handles exchange state (state.emit (.store exchange)) :=
      start.emit rfl
    split
    · have detached :
          Handles exchange state
            ((state.emit (.store exchange)).emit .detachExchange) :=
        stored.emit True.intro
      refine ⟨detached.emit True.intro, ?_, exchange, ?_, rfl⟩
      · intro later found
        cases found
      · simp [ReadState.emit]
    · refine ⟨stored.emit True.intro, ?_, exchange, ?_, rfl⟩
      · intro later found
        cases found
        rfl
      · simp [ReadState.emit]

/-- A request is handled: its body is shown as it is, and kept. -/
theorem handles_parseComplete (protoData : HttpProtoData)
    (exchange : HttpExchange)
    (state : ReadState)
    (taken : Nat) :
    let result := parseComplete protoData exchange state taken
    Handles exchange state result.state ∧
      (∀ later ∈ result.exchange,
        later.request.body = exchange.request.body) ∧
        ∃ later,
          .store later ∈ result.state.effects ∧
            later.request.body = exchange.request.body := by
  have start : Handles exchange state (state.emit .handler) :=
    (Handles.refl exchange state).emit True.intro
  have called :=
    handles_handlerCallback protoData exchange (state.emit .handler)
  have frame :
      framed
          (handlerCallback protoData exchange (state.emit .handler)).2.1 =
        framed exchange :=
    framed_handlerCallback _ _ _
  rcases
      handles_handleCallbackResult
        (handlerCallback protoData exchange (state.emit .handler)).1
        (handlerCallback protoData exchange (state.emit .handler)).2.1
        (handlerCallback protoData exchange (state.emit .handler)).2.2
    with ⟨recorded, kept, later, stored, same⟩
  have bodies := body_of_framed frame
  have all := (start.trans called).trans (handles_of_framed frame recorded)
  unfold parseComplete
  dsimp only
  split
  · exact
      ⟨all, fun other found => (kept other found).trans bodies, later,
        stored, same.trans bodies⟩
  · exact
      ⟨all.emit True.intro,
        fun other found => (kept other found).trans bodies, later,
        List.mem_append_left _ stored, same.trans bodies⟩

/-- The exchange of a handled request is not in a body. -/
theorem not_openBody_parseComplete
    (protoData : HttpProtoData)
    {exchange : HttpExchange}
    (complete : exchange.state = .complete)
    (state : ReadState)
    (taken : Nat)
    {later : HttpExchange}
    (found :
      (parseComplete protoData exchange state taken).exchange = some later) :
    openBody later = false := by
  have frame := framed_handlerCallback protoData exchange (state.emit .handler)
  have still :
      (handlerCallback protoData exchange
          (state.emit .handler)).2.1.state =
        .complete :=
    (phase_of_framed frame).1.trans complete
  have recorded :
      (handleCallbackResult
          (handlerCallback protoData exchange (state.emit .handler)).1
          (handlerCallback protoData exchange (state.emit .handler)).2.1
          (handlerCallback protoData exchange (state.emit .handler)).2.2).1 =
        some later := by
    rw [← found]
    unfold parseComplete
    dsimp only
    split_ifs <;> rfl
  unfold handleCallbackResult at recorded
  dsimp only at recorded
  unfold openBody
  split_ifs at recorded
  · cases recorded
    rfl
  · cases recorded
    unfold markQueued
    rw [still]
    rfl
  · cases recorded
    rw [still]
    rfl

end Handler

/-! ## A read -/

/-- What a read leaves: a good record, and the invariant if the body goes on. -/
def ReadWell (announced : Nat) (chunked : Bool) (earlier : List Effect)
    (result : ReadResult) : Prop :=
  BufferedWell (earlier ++ result.state.effects) result.exchange ∧
    ∀ later, result.exchange = some later →
      goesOn result later = true →
        Between announced chunked earlier result.state later

section Read

variable
    {protoData : HttpProtoData}
    {announced : Nat}
    {chunked : Bool}
    {earlier : List Effect}

theorem bufferedWell_of_quiet {effects : List Effect} (quiet : Quiet effects)
    {exchange : Option HttpExchange}
    (inside : ∀ later ∈ exchange, InsideBlock later) :
    BufferedWell effects exchange := by
  constructor
  · intro view member
    exact absurd member (quiet.unhandled view)
  · rintro later (found | stored)
    · exact inside later found
    · exact quiet.stored later stored
  · exact quiet.refused

theorem Quiet.store (quiet : Quiet (earlier ++ state.effects))
    {exchange : HttpExchange}
    (inside : InsideBlock exchange) :
    Quiet (earlier ++ (state.emit (.store exchange)).effects) := by
  apply quiet.emit
  · intro view same
    cases same
  · intro later same
    cases same
    exact inside
  · intro data errno same
    cases same

theorem copied_emit (state : ReadState) (nothing : copiedOf effect = []) :
    copied (earlier ++ (state.emit effect).effects) =
      copied (earlier ++ state.effects) := by
  unfold ReadState.emit
  dsimp only
  rw [← List.append_assoc, copied_append]
  unfold copied
  rw [List.flatMap_singleton, nothing, List.append_nil]

theorem Between.store (separate : Separate announced chunked)
    {exchange : HttpExchange}
    (between : Between announced chunked earlier state exchange) :
    Between announced chunked earlier (state.emit (.store exchange))
      exchange := by
  refine ⟨?_, between.2.store (between.1.inside separate)⟩
  rw [copied_emit state rfl]
  exact between.1

/-- Reading stops while the body is open, in whatever way. -/
theorem readWell_stopped (separate : Separate announced chunked)
    {exchange : HttpExchange}
    (between : Between announced chunked earlier state exchange)
    (outcome : ReadOutcome) :
    ReadWell announced chunked earlier
      { outcome := outcome
        exchange := some exchange
        state := state.emit (.store exchange) } := by
  have stored := between.store separate
  constructor
  · apply bufferedWell_of_quiet stored.2
    intro later found
    cases found
    exact between.1.inside separate
  · intro later found _
    cases found
    exact stored

theorem readWell_refused {exchange : HttpExchange}
    (refused : Refused earlier state exchange)
    (errno : Errno) :
    ReadWell announced chunked earlier
      (ymoProtoHttpHandleError exchange state errno) := by
  have stored := refused.2.store refused.1
  unfold ymoProtoHttpHandleError
  dsimp only
  split
  · constructor
    · apply bufferedWell_of_quiet stored
      intro later found
      cases found
      exact refused.1
    · intro later found goes
      cases goes
  · constructor
    · have answered :
          Quiet
            (earlier ++
              ((state.emit (.store exchange)).emit
                (.errorResponse (errorStatus exchange errno))).effects) := by
        apply stored.emit
        · intro view same
          cases same
        · intro later same
          cases same
        · intro data other same
          cases same
      apply bufferedWell_of_quiet answered
      intro later found
      cases found
      exact refused.1
    · intro later found goes
      cases goes

/-- The request is handled at the end of its body. -/
theorem readWell_complete (separate : Separate announced chunked)
    (protoData : HttpProtoData)
    {exchange : HttpExchange}
    (between : Between announced chunked earlier state exchange)
    (complete : exchange.state = .complete)
    (taken : Nat) :
    ReadWell announced chunked earlier
      (parseComplete protoData exchange state taken) := by
  rcases handles_parseComplete protoData exchange state taken with
    ⟨⟨more, effects, handling⟩, kept, -⟩
  have inside := between.1.inside separate
  have none : copied more = [] := by
    apply List.flatMap_eq_nil_iff.mpr
    intro effect member
    have handled := handling effect member
    unfold copiedOf
    split
    · exact handled.elim
    · rfl
  have total :
      copied
          (earlier ++
            (parseComplete protoData exchange state taken).state.effects) =
        copied (earlier ++ state.effects) := by
    rw [effects, ← List.append_assoc, copied_append, none, List.append_nil]
  have insideOf {later : HttpExchange}
      (same : later.request.body = exchange.request.body) :
      InsideBlock later := by
    unfold InsideBlock
    rw [same]
    exact inside
  constructor
  · constructor
    · intro view member
      rw [total]
      rw [effects, ← List.append_assoc] at member
      rcases List.mem_append.mp member with old | new
      · exact absurd old (between.2.unhandled view)
      · rcases handling _ new with ⟨body, received, length⟩
        rw [body, received, length]
        exact between.1.delivered complete
    · rintro later (found | stored)
      · exact insideOf (kept later found)
      · rw [effects, ← List.append_assoc] at stored
        rcases List.mem_append.mp stored with old | new
        · exact between.2.stored later old
        · exact insideOf (handling _ new)
    · intro data errno member
      rw [effects, ← List.append_assoc] at member
      rcases List.mem_append.mp member with old | new
      · exact between.2.refused data errno old
      · exact (handling _ new).elim
  · intro later found goes
    have closed := not_openBody_parseComplete protoData complete state taken
      found
    unfold goesOn at goes
    rw [closed, Bool.and_false] at goes
    split at goes
    · cases goes
    · cases goes

/-- The loop test after a part of the body. -/
theorem readWell_loopTest
    (separate : Separate announced chunked)
    (protoData : HttpProtoData)
    {locals : ReadLocals}
    (between :
      Between announced chunked earlier locals.state locals.exchange) :
    (loopTest protoData locals).Satisfies
      (fun locals =>
        Between announced chunked earlier locals.state locals.exchange)
      (ReadWell announced chunked earlier) := by
  unfold loopTest
  split
  · exact between
  · split
    · rename_i complete
      exact
        readWell_complete separate protoData between complete locals.scan.taken
    · rename_i headers
      have phase := between.1.phase
      rw [headers] at phase
      cases phase
    · exact readWell_stopped separate between _

theorem readWell_turn
    (separate : Separate announced chunked)
    (default : protoData.bodyCb = none)
    (locals : ReadLocals)
    (between :
      Between announced chunked earlier locals.state locals.exchange) :
    (readTurn protoData locals).Satisfies
      (fun locals =>
        Between announced chunked earlier locals.state locals.exchange)
      (ReadWell announced chunked earlier) := by
  have inBody :
      (bodyStateTurn protoData locals).Satisfies
        (fun locals =>
          Between announced chunked earlier locals.state locals.exchange)
        (ReadWell announced chunked earlier) := by
    have buffers : bodyCb protoData = bufferBodyCb := by
      unfold bodyCb
      rw [default]
    have invariant :
        BodyInvariant bufferBodyCb (Between announced chunked earlier)
          (Refused earlier) :=
      bufferBodyCb_invariant separate
    have leaves := invariant.parsed between locals.scan.memory locals.scan.len
    unfold bodyStateTurn
    rw [buffers]
    dsimp only
    generalize
      ymoParseHttpBody bufferBodyCb locals.state locals.exchange
        locals.scan.memory locals.scan.len =
        parsed at leaves ⊢
    rcases parsed with ⟨parsed, state⟩
    cases parsed with
    | took count exchange => exact readWell_loopTest separate protoData leaves
    | failed errno exchange => exact readWell_refused leaves errno
    | fault exchange => exact readWell_stopped separate leaves .fault
  have phase := between.1.phase
  unfold readTurn
  cases state : locals.exchange.state with
  | bodyChunkHeader => exact inBody
  | body => exact inBody
  | bodyChunkTrailer => exact inBody
  | complete => exact readWell_complete separate protoData between state _
  | _ =>
      rw [state] at phase
      cases phase

/-- A read of a body leaves a good record. -/
theorem readWell_read
    (separate : Separate announced chunked)
    (default : protoData.bodyCb = none)
    {exchange : HttpExchange}
    (between :
      Between announced chunked earlier { error := false, effects := [] }
        exchange)
    (memory : Bytes)
    (len : Nat) :
    ReadWell announced chunked earlier
      (ymoProtoHttpRead protoData false (some exchange) memory len) := by
  unfold ymoProtoHttpRead
  dsimp only
  apply loop_satisfies
    (fun locals : ReadLocals =>
      Between announced chunked earlier locals.state locals.exchange)
    (ReadWell announced chunked earlier)
  · exact readWell_turn separate default
  · intro locals held
    exact readWell_stopped separate held .spin
  · exact between

/-- So do all the reads of a request. -/
theorem bufferedWell_readBody
    (separate : Separate announced chunked)
    (default : protoData.bodyCb = none)
    {exchange : HttpExchange}
    (between :
      Between announced chunked earlier { error := false, effects := [] }
        exchange)
    (reads : List (Bytes × Bytes)) :
    BufferedWell (earlier ++ (readBody protoData exchange reads).1)
      (readBody protoData exchange reads).2 := by
  induction reads generalizing earlier exchange with
  | nil =>
      apply bufferedWell_of_quiet between.2
      intro later found
      cases found
      exact between.1.inside separate
  | cons read reads ih =>
      have well :=
        readWell_read separate default between (read.1 ++ read.2) read.1.length
      rw [readBody]
      dsimp only
      cases next :
          (ymoProtoHttpRead protoData false (some exchange)
            (read.1 ++ read.2) read.1.length).exchange with
      | none =>
          have done := well.1
          rw [next] at done
          exact done
      | some later =>
          dsimp only
          split
          · rename_i goes
            have onward := well.2 later next goes
            have rest :
                Between announced chunked
                  (earlier ++
                    (ymoProtoHttpRead protoData false (some exchange)
                      (read.1 ++ read.2) read.1.length).state.effects)
                  { error := false, effects := [] } later := by
              unfold Between
              rw [List.append_nil]
              exact onward
            have all := ih rest
            rw [List.append_assoc] at all
            exact all
          · have done := well.1
            rw [next] at done
            exact done

/-- The head was read, and no byte of the body. -/
structure HeadRead (head : HttpExchange) : Prop where
  body : head.request.body = none
  received : head.request.bodyReceived = 0

theorem headRead_create : HeadRead ymoHttpExchangeCreate :=
  ⟨rfl, rfl⟩

theorem HeadRead.gotHeaders {head : HttpExchange} (headRead : HeadRead head)
    (stray : Bytes)
    (lines : List HeaderLine) :
    HeadRead (gotHeaders stray head lines) := by
  induction lines generalizing head with
  | nil => exact headRead
  | cons line lines ih =>
      apply ih
      constructor
      · rw [request_gotHeader]
        exact headRead.body
      · rw [request_gotHeader]
        exact headRead.received

/-- What the exchange is when the body is about to be read. -/
structure AtBody (head start : HttpExchange) : Prop where
  place : placeOf start = placeOf (expectBody head)
  body : start.request.body = none
  received : start.request.bodyReceived = 0
  length : start.request.contentLength = head.request.contentLength

theorem atBody_headersComplete {head : HttpExchange} (headRead : HeadRead head)
    (protoData : HttpProtoData)
    (state : ReadState) :
    AtBody head (headersComplete protoData head state).2.1 := by
  have same := framed_headersComplete protoData head state
  have request : (expectBody head).request = head.request := by
    unfold expectBody
    dsimp only
    split_ifs <;> rfl
  rcases counters_of_framed same with ⟨received, length⟩
  rw [request] at received length
  constructor
  · exact placeOf_framed same
  · rw [body_of_framed same, request]
    exact headRead.body
  · rw [received]
    exact headRead.received
  · exact length

theorem placeOf_expectBody (head : HttpExchange) :
    placeOf (expectBody head) =
      { state :=
          if 0 < head.request.contentLength then .body
          else if head.request.flags.requestChunked then .bodyChunkHeader
          else .complete
        nextState :=
          if 0 < head.request.contentLength then .complete
          else if head.request.flags.requestChunked then .body
          else .complete
        bodyRemain :=
          if 0 < head.request.contentLength then head.request.contentLength
          else if head.request.flags.requestChunked then 0
          else head.bodyRemain
        chunked := head.request.flags.requestChunked } := by
  unfold expectBody placeOf
  dsimp only
  split_ifs <;> rfl

theorem between_atBody {head start : HttpExchange}
    (atBody : AtBody head start) :
    Between head.request.contentLength
      head.request.flags.requestChunked []
      { error := false, effects := [] } start := by
  have place := atBody.place
  rw [placeOf_expectBody] at place
  have phase := congrArg BodyPlace.state place
  have next := congrArg BodyPlace.nextState place
  have remain := congrArg BodyPlace.bodyRemain place
  change start.state = _ at phase
  change start.nextState = _ at next
  change start.bodyRemain = _ at remain
  dsimp only at phase next remain
  constructor
  · constructor
    · exact congrArg BodyPlace.chunked place
    · rw [phase]
      split_ifs <;> rfl
    · rw [next]
      split_ifs <;> rfl
    · exact atBody.received
    · exact .absent atBody.body rfl atBody.length
    · intro _ announces
      rw [if_pos (Nat.pos_of_ne_zero announces)] at phase remain
      exact ⟨phase, remain⟩
    · intro plain
      rw [phase, next, remain]
      split_ifs with some coding
      · exact Or.inl ⟨rfl, rfl, rfl⟩
      · rw [plain] at coding
        cases coding
      · exact Or.inr ⟨rfl, by show 0 = _; omega⟩
  · constructor
    · intro view member
      cases member
    · intro later member
      cases member
    · intro data errno member
      cases member

end Read

/-! ## A small length and chunks -/

/-- A read with as many bytes as announced and one more in a chunk. -/
def longBody (announced : Nat) : Bytes :=
  List.replicate announced 0 ++
    ([] ++ crlf ++
      (bytes "1" ++ crlf ++
        (bytes "x" ++
          ([] ++ crlf ++ (bytes "0" ++ crlf ++ ([] ++ crlf ++ []))))))

section Converse

variable {exchange : HttpExchange}

theorem bufferBodyCb_okay {ready : HttpRequest}
    (block : bodyBlock exchange.request = some ready)
    (room : data.length ≤ ymoHttpMaxBody - ready.bodyReceived)
    (state : ReadState) :
    bufferBodyCb state exchange data =
      (.okay, { exchange with request := bufferData ready data },
        state.emit (.shown (.buffered data .okay))) := by
  unfold bufferBodyCb
  rw [block]
  dsimp only
  rw [if_neg (Nat.not_lt.mpr room)]

/-- A piece that is there is copied, and the next chunk-size line follows. -/
theorem bodyLoop_copied (inBody : exchange.state = .body)
    (chunked : exchange.request.flags.requestChunked = true)
    (some : data.length ≠ 0)
    (remain : exchange.bodyRemain = data.length)
    {ready : HttpRequest}
    (block : bodyBlock exchange.request = Option.some ready)
    (flags : ready.flags = exchange.request.flags)
    (room : data.length ≤ ymoHttpMaxBody - ready.bodyReceived)
    (state : ReadState) :
    ∃ after,
      AtHeader after ∧ after.request = bufferData ready data ∧
        ∀ fuel drift count rest,
          bodyLoop bufferBodyCb (fuel + 2) state exchange
              ((data ++ ([] ++ crlf ++ rest)).length + drift) count
              (data ++ ([] ++ crlf ++ rest)) =
            bodyLoop bufferBodyCb fuel
              (state.emit (.shown (.buffered data .okay))) after
              (rest.length + (drift + 1)) (count + data.length + 2)
              rest := by
  have codingAfter : (bufferData ready data).flags.requestChunked = true := by
    unfold bufferData
    dsimp only
    rw [flags]
    exact chunked
  have taken :
      bodyTaken { exchange with request := bufferData ready data }
          data.length =
        { exchange with
          request := bufferData ready data
          bodyRemain := 0
          state := .bodyChunkTrailer
          nextState := .bodyChunkHeader } := by
    unfold bodyTaken
    dsimp only
    rw [remain, Nat.sub_self, if_pos rfl, if_pos codingAfter]
  refine
    ⟨{ exchange with
        request := bufferData ready data
        bodyRemain := 0
        state := .bodyChunkHeader
        nextState := .bodyChunkHeader },
      ⟨rfl, rfl, codingAfter⟩, rfl, ?_⟩
  intro fuel drift count rest
  have enough :
      data.length < (data ++ ([] ++ crlf ++ rest)).length + drift := by
    rw [List.length_append, List.length_append,
      List.length_append, show crlf.length = 2 from rfl]
    omega
  have whole :
      min ((data ++ ([] ++ crlf ++ rest)).length + drift)
          exchange.bodyRemain =
        data.length := by
    rw [remain, Nat.min_eq_right (Nat.le_of_lt enough)]
  have okay :
      bufferBodyCb state exchange
          ((data ++ ([] ++ crlf ++ rest)).take
            (min ((data ++ ([] ++ crlf ++ rest)).length + drift)
              exchange.bodyRemain)) =
        (.okay, { exchange with request := bufferData ready data },
          state.emit (.shown (.buffered data .okay))) := by
    rw [whole, List.take_left' rfl]
    exact bufferBodyCb_okay block room state
  have piece :=
    bodyLoop_piece inBody (by rw [remain]; exact some)
      ((data ++ ([] ++ crlf ++ rest)).length + drift)
      (data ++ ([] ++ crlf ++ rest))
      (by rw [whole, List.length_append]; omega) okay (fuel + 1) count
  rw [remain] at taken
  rw [remain, if_neg (Nat.not_le.mpr enough), taken,
    List.drop_left' rfl] at piece
  rw [piece, List.length_append, Nat.add_assoc, Nat.add_sub_cancel_left,
    bodyLoop_trailer rfl List.not_mem_nil]
  rfl

/-- The whole body is read, and one byte more is copied than there is room. -/
theorem parsed_longBody {head start : HttpExchange}
    (atBody : AtBody head start)
    (chunked : head.request.flags.requestChunked = true)
    (announces : 0 < head.request.contentLength)
    (small : head.request.contentLength < ymoHttpMaxBody)
    (state : ReadState) :
    ∃ after later,
      ymoParseHttpBody bufferBodyCb state start
          (longBody head.request.contentLength)
          (longBody head.request.contentLength).length =
        (.took (longBody head.request.contentLength).length after, later) ∧
        after.state = .complete ∧ ¬ InsideBlock after := by
  have place := atBody.place
  rw [placeOf_expectBody, if_pos announces, if_pos announces,
    if_pos announces] at place
  have inBody : start.state = .body := congrArg BodyPlace.state place
  have remain : start.bodyRemain = head.request.contentLength :=
    congrArg BodyPlace.bodyRemain place
  have coding : start.request.flags.requestChunked = true :=
    (congrArg BodyPlace.chunked place).trans chunked
  let zeros : Bytes := List.replicate head.request.contentLength 0
  have zerosLength : zeros.length = head.request.contentLength :=
    List.length_replicate
  let ready : HttpRequest :=
    { start.request with
      body := some { size := head.request.contentLength, data := [] }
      contentLength := 0 }
  have block : bodyBlock start.request = some ready := by
    unfold bodyBlock
    rw [atBody.body]
    dsimp only
    rw [atBody.length, if_pos (Nat.le_of_lt small),
      if_pos (Nat.ne_of_gt announces)]
  rcases
      bodyLoop_copied inBody coding
        (by rw [zerosLength]; exact Nat.ne_of_gt announces)
        (by rw [remain, zerosLength]) block rfl
        (show zeros.length ≤ ymoHttpMaxBody - ready.bodyReceived by
          rw [zerosLength, show ready.bodyReceived = 0 from atBody.received]
          exact Nat.le_of_lt small)
        state
    with ⟨between, atHeader, betweenRequest, first⟩
  have betweenBody :
      between.request.body =
        some { size := head.request.contentLength, data := zeros } := by
    rw [betweenRequest]
    unfold bufferData ready
    dsimp only
    rw [atBody.received]
    simp [Body.copy]
  have betweenReceived :
      between.request.bodyReceived = head.request.contentLength := by
    rw [betweenRequest]
    show start.request.bodyReceived + zeros.length = _
    rw [atBody.received, zerosLength, Nat.zero_add]
  let inChunk := afterSize between (bytes "x").length
  have blockAgain : bodyBlock inChunk.request = some between.request := by
    unfold bodyBlock
    rw [show inChunk.request.body = _ from betweenBody]
    rfl
  rcases
      bodyLoop_copied (show inChunk.state = .body from rfl) atHeader.chunked
        (by decide) rfl blockAgain rfl
        (show (bytes "x").length ≤
            ymoHttpMaxBody - between.request.bodyReceived by
          rw [betweenReceived]
          show 1 ≤ _
          omega)
        (state.emit (.shown (.buffered zeros .okay)))
    with ⟨last, atLast, lastRequest, second⟩
  refine
    ⟨{ afterSize last 0 with state := (afterSize last 0).nextState },
      (state.emit (.shown (.buffered zeros .okay))).emit
        (.shown (.buffered (bytes "x") .okay)), ?_, rfl, ?_⟩
  · have total :
        (longBody head.request.contentLength).length =
          head.request.contentLength + 13 := by
      unfold longBody
      rw [List.length_append, List.length_replicate]
      rfl
    have enough :
        bodyLoop bufferBodyCb (2 * head.request.contentLength + 29) state
            start
            ((longBody head.request.contentLength).length + 0) 0
            (longBody head.request.contentLength) =
          (.took (0 + zeros.length + 13)
              { afterSize last 0 with state := (afterSize last 0).nextState },
            (state.emit (.shown (.buffered zeros .okay))).emit
              (.shown (.buffered (bytes "x") .okay))) := by
      refine (first (2 * head.request.contentLength + 27) 0 0 _).trans ?_
      rw [bodyLoop_size atHeader (by decide),
        show lineNumber 0 (bytes "1") = (bytes "x").length by decide]
      refine (second (2 * head.request.contentLength + 24) _ _ _).trans ?_
      rw [bodyLoop_size atLast (by decide),
        show lineNumber 0 (bytes "0") = 0 by decide,
        bodyLoop_trailer rfl List.not_mem_nil, bodyLoop_complete rfl]
      rfl
    rw [zerosLength, Nat.zero_add, ← total] at enough
    show
      bodyLoop bufferBodyCb
          (2 * (longBody head.request.contentLength).length + 3) state
          start (longBody head.request.contentLength).length 0
          (longBody head.request.contentLength) =
        _
    rw [show
        2 * (longBody head.request.contentLength).length + 3 =
          2 * head.request.contentLength + 29 by
        omega]
    exact enough
  · intro inside
    have lastBody :
        last.request.body =
          some
            { size := head.request.contentLength
              data := zeros ++ bytes "x" } := by
      rw [lastRequest]
      unfold bufferData
      dsimp only
      rw [betweenBody, betweenReceived, Option.map_some, ← zerosLength]
      simp [Body.copy]
    have fits := inside _ lastBody
    dsimp only at fits
    rw [List.length_append, zerosLength] at fits
    exact absurd fits (Nat.not_succ_le_self _)

/-- The read is handled, with one byte behind the block. -/
theorem not_bufferedWell_longBody {protoData : HttpProtoData}
    (default : protoData.bodyCb = none)
    {head start : HttpExchange}
    (atBody : AtBody head start)
    (chunked : head.request.flags.requestChunked = true)
    (announces : 0 < head.request.contentLength)
    (small : head.request.contentLength < ymoHttpMaxBody) :
    let run :=
      readBody protoData start [(longBody head.request.contentLength, [])]
    ¬ BufferedWell run.1 run.2 := by
  let buffer := longBody head.request.contentLength
  let state : ReadState := { error := false, effects := [] }
  rcases parsed_longBody atBody chunked announces small state with
    ⟨after, later, parsed, complete, outside⟩
  have buffers : bodyCb protoData = bufferBodyCb := by
    unfold bodyCb
    rw [default]
  have inBody : start.state = .body := by
    have place := atBody.place
    rw [placeOf_expectBody, if_pos announces] at place
    exact congrArg BodyPlace.state place
  have turn :
      readTurn protoData
          { exchange := start
            state := state
            scan := { memory := buffer, len := buffer.length, taken := 0 } } =
        .done (parseComplete protoData after later buffer.length) := by
    unfold readTurn
    dsimp only
    rw [inBody]
    dsimp only
    unfold bodyStateTurn
    rw [buffers]
    dsimp only
    rw [parsed]
    unfold afterParse loopTest Scan.advance
    dsimp only
    rw [if_pos (Nat.le_refl _), Nat.sub_self, if_neg (by decide),
      complete, Nat.zero_add]
    rfl
  have result :
      ymoProtoHttpRead protoData false (some start) (buffer ++ [])
          buffer.length =
        parseComplete protoData after later buffer.length := by
    rw [List.append_nil]
    exact loop_of_done turn _
  rcases handles_parseComplete protoData after later buffer.length with
    ⟨-, -, stored, member, same⟩
  rw [← result] at member
  intro run well
  apply outside
  have inside : InsideBlock stored := by
    apply well.inside stored
    right
    unfold run
    rw [readBody]
    dsimp only
    split
    · split
      · exact List.mem_append_left _ member
      · exact member
    · exact member
  unfold InsideBlock at inside ⊢
  rw [← same]
  exact inside

end Converse

section Buffered

variable
    {protoData : HttpProtoData}
    {head : HttpExchange}

end Buffered

end Yimmo.Http.BodyBuffer
