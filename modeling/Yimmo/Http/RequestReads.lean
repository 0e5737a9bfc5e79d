import Yimmo.Http.BodyBuffer
import Yimmo.Http.KeepAlive
import Yimmo.Http.LineReads

/-!
# A request is delivered, however it arrives

A request whose head fits the receive buffer and whose header lines announce the
length of its body is read by `ymo_proto_http_read` in any number of reads.  The
exchange is followed through the line, the header block and the body: between two
reads it is somewhere in the head, with the rest of the head ahead of it, or in the
body, with some of the body delivered.

The application is shown the head once, the body in order, and the request once, when
the last byte has come; what follows the request is left for the next call.
-/

namespace Yimmo.Http.RequestReads

open Yimmo.Lib.ByteMemory
open Yimmo.Lib.TurnLoop
open Yimmo.Http.Headers
open Yimmo.Http.Exchange
open Yimmo.Http.Parse
open Yimmo.Http.Application
open Yimmo.Http.Reader
open Yimmo.Http.ReceiveSpace
open Yimmo.Http.RequestLines
open Yimmo.Http.HeaderLines
open Yimmo.Http.HeaderOrder
open Yimmo.Http.HeaderBlock
open Yimmo.Http.KeepAlive
open Yimmo.Http.ChunkedCoding
open Yimmo.Http.BodyBuffer
open Yimmo.Http.LineReads

variable
    {left right : HttpExchange}
    {locals : ReadLocals}
    {later : HttpExchange}
    {scan : Scan}
    {delivered : Bytes}

/-! ## Requests -/

/-- A request as it is sent. -/
structure SentRequest where
  line : RequestLine
  lines : List SentLine
  body : Bytes

namespace SentRequest

variable (request : SentRequest)

def headers : List HeaderLine :=
  request.lines.map SentLine.line

/-- The bytes up to the empty line. -/
def head : Bytes :=
  request.line.bytes ++ crlf ++ blockText request.lines

def text : Bytes :=
  request.head ++ request.body

/-- The flags that the version of the line sets. -/
def lineFlags : HttpFlags :=
  if request.line.version[7]? = some 49 then
    { HttpFlags.none with
      version11 := true
      supportsChunked := true
      requestKeepalive := true }
  else HttpFlags.none

def flags : HttpFlags :=
  linesFlags request.lineFlags request.headers

end SentRequest

/-- The request fits, announces the length of its body, and asks for no upgrade. -/
structure Sendable (request : SentRequest) : Prop where
  noZero : 0 ∉ request.line.bytes
  room :
    request.line.bytes.length + (request.lines.map SentLine.charge).sum <
      ymoHttpRecvBufSize
  announced : HeaderLines.lengthAfter 0 request.headers = request.body.length
  whole : request.flags.requestChunked = false
  stays : request.flags.upgrade = false

theorem Sendable.fits {request : SentRequest} (sendable : Sendable request) :
    request.line.bytes.length < ymoHttpRecvBufSize :=
  Nat.lt_of_le_of_lt (Nat.le_add_right _ _) sendable.room

/-- The exchange has the line and the headers of the request. -/
structure HeadKnown
    (request : SentRequest)
    (exchange : HttpExchange) : Prop where
  parts : PartsOf request.line (viewOf exchange)
  flags : exchange.request.flags = request.flags
  headers :
    Distinct request.headers →
      contents exchange = request.headers.foldl mapLine fun _ => none

/-- The exchange without its body, and without what a callback may change. -/
def bodiless (exchange : HttpExchange) : HttpExchange :=
  { framed exchange with
    request :=
      { (framed exchange).request with
        body := none, bodyReceived := 0, contentLength := 0 }
    bodyRemain := 0, state := .connected, nextState := .connected }

/-- What is known of the head does not depend on the body. -/
theorem HeadKnown.of_bodiless {request : SentRequest}
    (known : HeadKnown request left)
    (same : bodiless right = bodiless left) :
    HeadKnown request right := by
  have views {part : RequestView → Option Bytes}
      (free :
        ∀ exchange,
          part (viewOf (bodiless exchange)) = part (viewOf exchange)) :
      part (viewOf right) = part (viewOf left) :=
    (free right).symm.trans
      ((congrArg (fun exchange => part (viewOf exchange)) same).trans
        (free left))
  have flags : right.request.flags = left.request.flags :=
    congrArg (fun exchange => exchange.request.flags) same
  have tables : contents right = contents left :=
    show contents (bodiless right) = contents (bodiless left) from
      congrArg contents same
  have parts := known.parts
  constructor
  · constructor
    · exact (views fun _ => rfl).trans parts.method
    · exact (views fun _ => rfl).trans parts.uri
    · exact (views fun _ => rfl).trans parts.query
    · exact (views fun _ => rfl).trans parts.fragment
    · exact (views fun _ => rfl).trans parts.version
  · rw [flags]
    exact known.flags
  · rw [tables]
    exact known.headers

/-! ## Strings that stay -/

theorem holds_bytesAt (memory : Memory) (start length : Nat) :
    Holds memory start (bytesAt memory start length) ∧
      (bytesAt memory start length).length = length := by
  induction length generalizing start with
  | zero =>
      refine ⟨?_, rfl⟩
      intro index byte found
      cases found
  | succ length ih =>
      rcases ih (start + 1) with ⟨holds, long⟩
      rw [bytesAt_succ, holds_cons, List.length_cons, long]
      exact ⟨⟨rfl, holds⟩, rfl⟩

/-- A zero byte at the end of what is stored ends every string that begins below. -/
theorem terminated_of_zero {memory : Memory} {limit start : Nat}
    (zero : memory (limit - 1) = 0)
    (below : start < limit) :
    ∃ data, Terminated memory limit start data := by
  rcases holds_bytesAt memory start (limit - 1 - start) with
    ⟨holds, length⟩
  refine ⟨bytesAt memory start (limit - 1 - start), ?_, ?_⟩
  · rw [holds_append, length]
    refine ⟨holds, ?_⟩
    have last : start + (limit - 1 - start) = limit - 1 := by omega
    rw [holds_cons, last]
    refine ⟨zero, ?_⟩
    intro index byte found
    cases found
  · rw [length]
    omega

/-- What is stored stays, and so do the strings of the line. -/
structure Grows (left right : HttpExchange) : Prop where
  current : left.recvCurrent ≤ right.recvCurrent
  below :
    ∀ offset, offset < left.recvCurrent →
      right.recvBuf offset = left.recvBuf offset
  method : right.request.method = left.request.method
  uri : right.request.uri = left.request.uri
  version : right.request.version = left.request.version
  query : right.request.query = left.request.query
  fragment : right.request.fragment = left.request.fragment

theorem Grows.refl (exchange : HttpExchange) : Grows exchange exchange :=
  ⟨Nat.le_refl _, fun _ _ => rfl, rfl, rfl, rfl, rfl, rfl⟩

theorem Grows.trans {first second third : HttpExchange}
    (early : Grows first second)
    (late : Grows second third) :
    Grows first third where
  current := Nat.le_trans early.current late.current
  below := by
    intro offset inside
    rw [late.below offset (Nat.lt_of_lt_of_le inside early.current)]
    exact early.below offset inside
  method := late.method.trans early.method
  uri := late.uri.trans early.uri
  version := late.version.trans early.version
  query := late.query.trans early.query
  fragment := late.fragment.trans early.fragment

theorem grows_gotHeader (stray : Bytes) (exchange : HttpExchange)
    (line : HeaderLine) :
    Grows exchange (gotHeader stray exchange line) := by
  have request := @request_gotHeader stray exchange line
  constructor
  · exact Nat.le_add_right _ _
  · intro offset inside
    exact storeAll_outside _ _ _ (.inl inside)
  · rw [request]
  · rw [request]
  · rw [request]
  · rw [request]
  · rw [request]

theorem grows_gotHeaders (stray : Bytes) (exchange : HttpExchange)
    (lines : List HeaderLine) :
    Grows exchange (gotHeaders stray exchange lines) := by
  induction lines generalizing exchange with
  | nil => exact Grows.refl exchange
  | cons line lines ih =>
      exact (grows_gotHeader stray exchange line).trans (ih _)

/-- The strings of a line are read as they were. -/
theorem Grows.parts
    (grows : Grows left right)
    (terminated : left.recvBuf (left.recvCurrent - 1) = 0)
    (inside :
      ∀ pointer, Begins left.request pointer → pointer < left.recvCurrent)
    {line : RequestLine}
    (parts : PartsOf line (viewOf left)) :
    PartsOf line (viewOf right) := by
  have same {pointer : Option Nat}
      (begins : ∀ offset, pointer = some offset → Begins left.request offset) :
      pointer.map (readString right.recvBuf right.recvCurrent) =
        pointer.map (readString left.recvBuf left.recvCurrent) := by
    cases pointer with
    | none => rfl
    | some offset =>
        rcases
            terminated_of_zero terminated
              (inside offset (begins offset rfl)) with
          ⟨data, ends⟩
        exact congrArg some (ends.readString_later grows.below grows.current)
  constructor
  · refine Eq.trans ?_ parts.method
    dsimp only [viewOf]
    rw [grows.method]
    exact same fun offset here => .inl here
  · refine Eq.trans ?_ parts.uri
    dsimp only [viewOf]
    rw [grows.uri]
    exact same fun offset here => .inr (.inl here)
  · refine Eq.trans ?_ parts.query
    dsimp only [viewOf]
    rw [grows.query]
    exact same fun offset here => .inr (.inr (.inr (.inl here)))
  · refine Eq.trans ?_ parts.fragment
    dsimp only [viewOf]
    rw [grows.fragment]
    exact same fun offset here => .inr (.inr (.inr (.inr here)))
  · refine Eq.trans ?_ parts.version
    dsimp only [viewOf]
    rw [grows.version]
    exact same fun offset here => .inr (.inr (.inl here))

/-! ## The end of the head -/

/-- The exchange at the end of the line, read from a recycled exchange without a
body. -/
structure LineDone
    (request : SentRequest)
    (start read : HttpExchange) : Prop where
  lineRead : LineRead request.line read
  kept :
    LineKept (lineStart start) (lineStart start).cursor
      (request.line.bytes.length + 1) read
  bodyless : start.request.body = none

/-- The exchange at the end of the headers. -/
def headEnd (stray : Bytes) (request : SentRequest) (read : HttpExchange) :
    HttpExchange :=
  { afterLines stray (plain (RequestLines.afterLine read))
      request.lines with
    state := .headersComplete
    nextState := .headersComplete }

section Head

variable
    {request : SentRequest}
    {start read : HttpExchange}

theorem LineDone.atHeaders (done : LineDone request start read) :
    AtHeaders (plain (RequestLines.afterLine read)) := by
  refine ⟨rfl, rfl, ?_⟩
  exact congrArg HttpExchange.hId done.kept.alone

/-- The header block lies behind the line. -/
theorem LineDone.fed (done : LineDone request start read)
    (sendable : Sendable request)
    (stray unused : Bytes) :
    Fed stray (headEnd stray request read) unused read
      (lf :: (blockText request.lines ++ unused)) := by
  have byte :
      headByte stray (plain read) lf =
        some (plain (RequestLines.afterLine read)) := by
    have state : (plain read).state = .crlf := done.lineRead.state
    have next : (plain read).nextState = .headerName := done.lineRead.next
    unfold headByte
    rw [state]
    exact if_pos next
  have cost : byteCharge (plain read).state lf = 0 := by
    rw [show (plain read).state = .crlf from done.lineRead.state]
    rfl
  rcases feedHead_block stray request.lines done.atHeaders with
    ⟨fed, charged⟩
  refine ⟨lf :: blockText request.lines, ⟨rfl, rfl, ?_⟩, ?_⟩
  · rw [feedHead_cons byte]
    exact fed
  · have remain := done.kept.remain
    have size : (lineStart start).cursor.remain = ymoHttpRecvBufSize := rfl
    have room := sendable.room
    rw [charge_cons byte, cost, charged]
    omega

/-- The head as it was read, before its body. -/
structure HeadDone
    (request : SentRequest)
    (exchange : HttpExchange) : Prop where
  known : HeadKnown request exchange
  length : exchange.request.contentLength = request.body.length
  empty : HeadRead exchange

theorem LineDone.headDone (done : LineDone request start read)
    (sendable : Sendable request)
    {stray : Bytes}
    (ended : plain later = headEnd stray request read) :
    HeadDone request later := by
  have shares :
      Shares later
        (gotHeaders stray (RequestLines.afterLine read)
          request.headers) := by
    have block :=
      @shares_afterLines stray request.lines
        (plain (RequestLines.afterLine read))
        (RequestLines.afterLine read) ⟨rfl, rfl, rfl⟩
    constructor
    · exact (congrArg HttpExchange.request ended).trans block.request
    · exact (congrArg HttpExchange.recvBuf ended).trans block.recvBuf
    · exact (congrArg HttpExchange.recvCurrent ended).trans block.recvCurrent
  have grows :=
    grows_gotHeaders stray (RequestLines.afterLine read) request.headers
  have cleared :
      (RequestLines.afterLine read).request.headers = ymoHttpHdrTableClear :=
    congrArg (fun exchange => exchange.request.headers) done.kept.alone
  have noLength : (RequestLines.afterLine read).request.contentLength = 0 :=
    congrArg (fun exchange => exchange.request.contentLength) done.kept.alone
  have flags :
      (RequestLines.afterLine read).request.flags = request.lineFlags :=
    done.lineRead.flags
  have empty : HeadRead (RequestLines.afterLine read) := by
    constructor
    · exact
        (congrArg (fun exchange => exchange.request.body)
          done.kept.alone).trans done.bodyless
    · exact
        congrArg (fun exchange => exchange.request.bodyReceived)
          done.kept.alone
  have views :
      viewOf later =
        viewOf
          (gotHeaders stray (RequestLines.afterLine read)
            request.headers) := by
    unfold viewOf
    rw [shares.request, shares.recvBuf, shares.recvCurrent]
  constructor
  · constructor
    · rw [views]
      exact
        grows.parts done.kept.terminated done.kept.inside done.lineRead.parts
    · rw [shares.request, flags_gotHeaders, flags]
      rfl
    · exact contents_of_shares cleared shares
  · rw [shares.request, contentLength_gotHeaders, noLength]
    exact sendable.announced
  · have got := empty.gotHeaders stray request.headers
    constructor
    · rw [shares.request]
      exact got.body
    · rw [shares.request]
      exact got.received

end Head

/-! ## Turns in the head -/

/-- What a loop comes to from a turn on. -/
def resume {State Result : Type*} (turn : State → Turn State Result)
    (giveUp : State → Result)
    (fuel : Nat) :
    Turn State Result → Result
  | .again later => loop turn giveUp fuel later
  | .done result => result

theorem loop_succ {State Result : Type*} (turn : State → Turn State Result)
    (giveUp : State → Result)
    (fuel : Nat)
    (state : State) :
    loop turn giveUp (fuel + 1) state =
      resume turn giveUp fuel (turn state) := by
  rw [loop]
  rfl

/-- The bytes of the read that are still to be taken. -/
def ahead (scan : Scan) : Bytes :=
  scan.memory.take scan.len

theorem length_ahead (readable : scan.len ≤ scan.memory.length) :
    (ahead scan).length = scan.len :=
  List.length_take_of_le readable

theorem ahead_ne_nil (readable : scan.len ≤ scan.memory.length)
    (some : scan.len ≠ 0) :
    ahead scan ≠ [] := by
  intro empty
  have length := length_ahead readable
  rw [empty] at length
  exact some length.symm

theorem ahead_advance {scan : Scan} {n : Nat} (within : n ≤ scan.len) :
    ahead (scan.advance n) = (ahead scan).drop n ∧
      (scan.advance n).len = scan.len - n := by
  have left : (scan.advance n).len = scan.len - n := if_pos within
  refine ⟨?_, left⟩
  unfold ahead
  rw [left, List.drop_take]
  rfl

/-- What the loop of a read call comes to. -/
def readLoop (protoData : HttpProtoData) (fuel : Nat) :
    ReadLocals → ReadResult :=
  loop (readTurn protoData) readGiveUp fuel

/-- What a turn of the loop comes to. -/
def readResume (protoData : HttpProtoData) (fuel : Nat) :
    Turn ReadLocals ReadResult → ReadResult :=
  resume (readTurn protoData) readGiveUp fuel

section Turns

variable
    {protoData : HttpProtoData}
    {request : SentRequest}
    {read : HttpExchange}
    {unused : Bytes}

/-- A turn that ends the headers, in the loop or behind it. -/
theorem readResume_headersComplete {locals : ReadLocals}
    (complete : locals.exchange.state = .headersComplete) :
    ∃ more, more ≤ 1 ∧
      ∀ fuel,
        readResume protoData (more + fuel) (loopTest protoData locals) =
          readResume protoData fuel
            (headersCompleteTurn protoData locals) := by
  unfold loopTest
  by_cases left : locals.scan.len ≠ 0
  · rw [if_pos left]
    refine ⟨1, Nat.le_refl 1, fun fuel => ?_⟩
    have turn :
        readTurn protoData locals = headersCompleteTurn protoData locals := by
      unfold readTurn
      rw [complete]
    unfold readResume
    rw [← turn, ← loop_succ, Nat.add_comm]
    rfl
  · rw [if_neg left, complete]
    refine ⟨0, Nat.zero_le 1, fun fuel => ?_⟩
    rw [Nat.zero_add]

/-- What the turns in the head of a read come to: the read ends in the head, or the
headers are complete. -/
inductive HeadTurns
    (protoData : HttpProtoData)
    (locals : ReadLocals)
    (goesOn : Nat → HttpExchange → Prop)
    (ends : Nat → HttpExchange → Prop) : Prop where
  | midHead
      (later : HttpExchange)
      (there : goesOn locals.scan.len later)
      (turns : Nat)
      (few : turns ≤ locals.scan.len)
      (runs :
        ∀ fuel,
          readLoop protoData (turns + fuel) locals =
            returnTaken
              { exchange := later
                state := locals.state
                scan := locals.scan.advance locals.scan.len })
  | headEnds
      (n : Nat)
      (within : n ≤ locals.scan.len)
      (later : HttpExchange)
      (there : ends n later)
      (turns : Nat)
      (few : turns ≤ locals.scan.len + 1)
      (runs :
        ∀ fuel,
          readLoop protoData (turns + fuel) locals =
            readResume protoData fuel
              (headersCompleteTurn protoData
                { exchange := later
                  state := locals.state
                  scan := locals.scan.advance n }))

/-- What is known of the exchange in the head may be weakened. -/
theorem HeadTurns.of_goesOn {goesOn weaker ends : Nat → HttpExchange → Prop}
    (implied : ∀ n later, goesOn n later → weaker n later)
    (turns : HeadTurns protoData locals goesOn ends) :
    HeadTurns protoData locals weaker ends := by
  cases turns with
  | midHead later there turns few runs =>
      exact .midHead later (implied _ later there) turns few runs
  | headEnds n within later there turns few runs =>
      exact .headEnds n within later there turns few runs

/-- Two steps of the scan are one. -/
theorem advance_advance {first second : Nat}
    (within : first + second ≤ scan.len) :
    (scan.advance first).advance second = scan.advance (first + second) := by
  have left := (@ahead_advance scan first (by omega)).2
  have both := (@ahead_advance scan (first + second) within).2
  have last := (@ahead_advance (scan.advance first) second (by omega)).2
  generalize twice : (scan.advance first).advance second = final at last ⊢
  generalize once : scan.advance (first + second) = whole at both ⊢
  have memory : final.memory = whole.memory := by
    rw [← twice, ← once]
    exact List.drop_drop
  have taken : final.taken = whole.taken := by
    rw [← twice, ← once]
    exact Nat.add_assoc _ _ _
  have len : final.len = whole.len := by omega
  cases final
  cases whole
  cases memory
  cases taken
  cases len
  rfl

/-- A turn that goes on is put in front of the others. -/
theorem HeadTurns.again {n : Nat} {goesOn ends : Nat → HttpExchange → Prop}
    (turn :
      readTurn protoData locals =
        .again
          { exchange := later
            state := locals.state
            scan := locals.scan.advance n })
    (positive : 0 < n)
    (within : n ≤ locals.scan.len)
    (turns :
      HeadTurns protoData
        { exchange := later
          state := locals.state
          scan := locals.scan.advance n }
        (fun m => goesOn (n + m)) (fun m => ends (n + m))) :
    HeadTurns protoData locals goesOn ends := by
  have left := (@ahead_advance locals.scan n within).2
  have first (fuel : Nat) :
      readLoop protoData (fuel + 1) locals =
        readLoop protoData fuel
          { exchange := later
            state := locals.state
            scan := locals.scan.advance n } :=
    loop_of_again turn fuel
  cases turns with
  | midHead last there turns few runs =>
      dsimp only at there few runs
      have total : n + (locals.scan.advance n).len = locals.scan.len := by
        omega
      rw [total] at there
      refine .midHead last there (turns + 1) (by omega) ?_
      intro fuel
      rw [Nat.add_right_comm, first, runs,
        advance_advance (Nat.le_of_eq total), total]
  | headEnds m inside last there turns few runs =>
      dsimp only at inside few runs
      have total : n + m ≤ locals.scan.len := by omega
      refine .headEnds (n + m) total last there (turns + 1) (by omega) ?_
      intro fuel
      rw [Nat.add_right_comm, first, runs, advance_advance total]

/-- A read that ends in the head, or in the body, leaves the loop. -/
theorem loopTest_returns {locals : ReadLocals} (nothing : locals.scan.len = 0)
    (notEnded : locals.exchange.state ≠ .headersComplete)
    (notComplete : locals.exchange.state ≠ .complete) :
    loopTest protoData locals = .done (returnTaken locals) := by
  unfold loopTest
  rw [if_neg (not_not.mpr nothing)]
  split
  · next complete => exact absurd complete notComplete
  · next ended => exact absurd ended notEnded
  · rfl

/-- A call that leaves some of the read is followed by another turn. -/
theorem readTurn_again {n : Nat}
    (readable : locals.scan.len ≤ locals.scan.memory.length)
    (called :
      parseHead protoData.stray locals.exchange
          (ahead locals.scan) =
        some (.took n later))
    (more : n < locals.scan.len) :
    readTurn protoData locals =
      .again
        { exchange := later
          state := locals.state
          scan := locals.scan.advance n } := by
  have left := (@ahead_advance locals.scan n (Nat.le_of_lt more)).2
  rw [readTurn_took protoData readable called]
  exact if_pos (show (locals.scan.advance n).len ≠ 0 by omega)

/-- A call that takes the read is the last one, before the headers are complete. -/
theorem headTurns_midHead {goesOn ends : Nat → HttpExchange → Prop}
    (readable : locals.scan.len ≤ locals.scan.memory.length)
    (some : locals.scan.len ≠ 0)
    (called :
      parseHead protoData.stray locals.exchange
          (ahead locals.scan) =
        .some (.took locals.scan.len later))
    (notEnded : later.state ≠ .headersComplete)
    (notComplete : later.state ≠ .complete)
    (there : goesOn locals.scan.len later) :
    HeadTurns protoData locals goesOn ends := by
  have left := (@ahead_advance locals.scan locals.scan.len (Nat.le_refl _)).2
  refine .midHead later there 1 (by omega) ?_
  intro fuel
  rw [Nat.add_comm, readLoop, loop_succ,
    readTurn_took protoData readable called,
    loopTest_returns (show (locals.scan.advance _).len = 0 by omega)
      notEnded notComplete]
  rfl

/-- The turns in a header block. -/
theorem headTurns_of_fed {final : HttpExchange} {rest : Bytes}
    (bound : Nat)
    {locals : ReadLocals}
    (bounded : locals.scan.len ≤ bound)
    (readable : locals.scan.len ≤ locals.scan.memory.length)
    (some : locals.scan.len ≠ 0)
    (goesOn : locals.exchange.state ≠ .headersComplete)
    (fed :
      Fed protoData.stray final unused locals.exchange
        (ahead locals.scan ++ rest)) :
    HeadTurns protoData locals
      (fun _ later =>
        later.state ≠ .headersComplete ∧
          Fed protoData.stray final unused later rest)
      (fun n later =>
        later.state = .headersComplete ∧
          Fed protoData.stray final unused later
            ((ahead locals.scan).drop n ++ rest)) := by
  induction bound generalizing locals with
  | zero => exact absurd (Nat.le_zero.mp bounded) some
  | succ bound ih =>
      have length := length_ahead readable
      have nonempty := ahead_ne_nil readable some
      rcases parseHead_of_fed goesOn nonempty fed with
        ⟨n, later, called, within, positive, onward⟩
      rw [length] at within
      rcases @ahead_advance locals.scan n within with ⟨dropped, left⟩
      by_cases ended : later.state = .headersComplete
      · rcases
            @readResume_headersComplete protoData
              { exchange := later
                state := locals.state
                scan := locals.scan.advance n }
              ended with
          ⟨more, few, resumed⟩
        refine
          .headEnds n within later ⟨ended, onward⟩ (more + 1) (by omega) ?_
        intro fuel
        rw [Nat.add_right_comm, readLoop, loop_succ,
          readTurn_took protoData readable called]
        exact resumed fuel
      · by_cases more : n < locals.scan.len
        · apply
            HeadTurns.again (readTurn_again readable called more) positive
              within
          have shorter : (locals.scan.advance n).memory.length =
              locals.scan.memory.length - n :=
            List.length_drop
          rw [← dropped] at onward
          have rest :=
            @ih
              { exchange := later
                state := locals.state
                scan := locals.scan.advance n }
              (show (locals.scan.advance n).len ≤ bound by omega)
              (show (locals.scan.advance n).len ≤
                (locals.scan.advance n).memory.length by omega)
              (show (locals.scan.advance n).len ≠ 0 by omega)
              ended onward
          dsimp only at rest
          rw [dropped] at rest
          simp only [List.drop_drop] at rest
          exact rest
        · have all : n = locals.scan.len := by omega
          subst all
          have notComplete : later.state ≠ .complete := by
            rcases onward.inHead ended with
                (state | state | state) | state <;>
              rw [state] <;> exact HttpState.noConfusion
          rw [List.drop_of_length_le (Nat.le_of_eq length),
            List.nil_append] at onward
          exact
            headTurns_midHead readable some called ended notComplete
              ⟨ended, onward⟩

/-- The exchange is in the head: in the line, with the block behind it, or in the
block. -/
inductive Heading
    (stray : Bytes)
    (request : SentRequest)
    (read : HttpExchange)
    (unused : Bytes)
    (position : Nat)
    (exchange : HttpExchange)
    (rest : Bytes) : Prop where
  | inLine
      {todo tail : Bytes}
      (line : InLine request.line read position todo exchange)
      (split : rest = todo ++ tail)
      (behind : Fed stray (headEnd stray request read) unused read tail)
  | inBlock
      (goesOn : exchange.state ≠ .headersComplete)
      (fed :
        Fed stray (headEnd stray request read) unused
          exchange rest)

/-- The turns of a read in the head. -/
theorem headTurns_of_heading {start : HttpExchange}
    (sendable : Sendable request)
    (done : LineDone request start read)
    {position : Nat}
    {rest : Bytes}
    (readable : locals.scan.len ≤ locals.scan.memory.length)
    (some : locals.scan.len ≠ 0)
    (uncut :
      position < request.line.target.extraStart ∨
        request.line.versionStart ≤ position)
    (heading :
      Heading protoData.stray request read unused position
        locals.exchange (ahead locals.scan ++ rest)) :
    HeadTurns protoData locals
      (fun n later =>
        Heading protoData.stray request read unused (position + n)
          later rest)
      (fun n later =>
        later.state = .headersComplete ∧
          Fed protoData.stray
            (headEnd protoData.stray request read) unused later
            ((ahead locals.scan).drop n ++ rest)) := by
  cases heading with
  | inBlock goesOn fed =>
      refine
        (headTurns_of_fed locals.scan.len (Nat.le_refl _) readable some
          goesOn fed).of_goesOn ?_
      exact fun _ _ there => .inBlock there.1 there.2
  | @inLine todo tail line split behind =>
      have length := length_ahead readable
      have nonempty := ahead_ne_nil readable some
      rcases
          line.call sendable.fits done.lineRead.state uncut nonempty
            split protoData.stray with
        ⟨n, later, called, positive, within, stands⟩
      rw [length] at within
      rcases @ahead_advance locals.scan n within with ⟨dropped, left⟩
      have behindHere :
          (ahead locals.scan).drop n ++ rest = todo.drop n ++ tail := by
        have inTodo : n ≤ todo.length := by
          rcases stands with ⟨all, -⟩ | ⟨-, short, -⟩
          · exact Nat.le_of_eq all
          · exact Nat.le_of_lt short
        have same := congrArg (List.drop n) split
        rw [List.drop_append_of_le_length (by omega),
          List.drop_append_of_le_length inTodo] at same
        exact same
      rcases stands with ⟨all, rfl⟩ | ⟨all, short, next⟩
      · have state := done.lineRead.state
        have goesOn : later.state ≠ .headersComplete := by
          rw [state]
          exact HttpState.noConfusion
        rw [List.drop_of_length_le (Nat.le_of_eq all.symm),
          List.nil_append] at behindHere
        rw [← behindHere] at behind
        by_cases more : n < locals.scan.len
        · apply
            HeadTurns.again (readTurn_again readable called more) positive
              within
          have shorter : (locals.scan.advance n).memory.length =
              locals.scan.memory.length - n :=
            List.length_drop
          rw [← dropped] at behind
          have turns :=
            @headTurns_of_fed protoData unused _ _
              (locals.scan.advance n).len
              { exchange := later
                state := locals.state
                scan := locals.scan.advance n }
              (Nat.le_refl _)
              (show (locals.scan.advance n).len ≤
                (locals.scan.advance n).memory.length by omega)
              (show (locals.scan.advance n).len ≠ 0 by omega)
              goesOn behind
          dsimp only at turns
          rw [dropped] at turns
          simp only [List.drop_drop] at turns
          refine turns.of_goesOn ?_
          exact fun _ _ there => .inBlock there.1 there.2
        · have whole : n = locals.scan.len := by omega
          subst whole
          rw [List.drop_of_length_le (Nat.le_of_eq length),
            List.nil_append] at behind
          apply headTurns_midHead readable some called goesOn
          · rw [state]
            exact HttpState.noConfusion
          · exact .inBlock goesOn behind
      · rw [length] at all
        subst all
        rw [List.drop_of_length_le (Nat.le_of_eq length),
          List.nil_append] at behindHere
        apply
          headTurns_midHead readable some called next.notEnded.1
            next.notEnded.2
        exact .inLine next behindHere behind

end Turns

/-! ## The application -/

/-- A callback returns `YMO_OKAY` and issues no error. -/
structure Calm (reaction : Reaction) : Prop where
  okay : reaction.status = .okay
  quiet : ∀ status, .issue status ∈ reaction.calls → status < 400

theorem foldl_raise {calls : List AppCall}
    (quiet : ∀ status, .issue status ∈ calls → status < 400) :
    calls.foldl raise false = false := by
  induction calls with
  | nil => rfl
  | cons call calls ih =>
      have rest : ∀ status, .issue status ∈ calls → status < 400 :=
        fun status inside => quiet status (List.mem_cons_of_mem _ inside)
      have first : raise false call = false := by
        cases call with
        | issue status =>
            have small := quiet status List.mem_cons_self
            exact decide_eq_false (Nat.not_le_of_lt small)
        | _ => rfl
      rw [List.foldl_cons, first]
      exact ih rest

/-- A callback that is shown something and accepts. -/
theorem react_calm {reaction : Reaction} (calm : Calm reaction)
    (exchange : HttpExchange)
    {state : ReadState}
    (noError : state.error = false)
    (event : Shown) :
    ∃ after later,
      react exchange state event reaction = (.okay, after, later) ∧
        framed after = framed exchange ∧ later.error = false ∧
          shownOf later.effects = shownOf state.effects ++ [event] := by
  have called :=
    called_runCalls exchange (state.emit (.shown event)) reaction.calls
  have shown := shownOf_react exchange state event reaction
  refine
    ⟨(react exchange state event reaction).2.1,
      (react exchange state event reaction).2.2, ?_,
      framed_runCalls _ _ reaction.calls, ?_, shown⟩
  · unfold react
    rw [calm.okay]
  · refine called.error.trans ?_
    show reaction.calls.foldl raise state.error = false
    rw [noError]
    exact foldl_raise calm.quiet

/-- The application accepts heads and pieces of bodies, and a body of this length can
be buffered. -/
structure Receptive (protoData : HttpProtoData) (length : Nat) : Prop where
  header :
    ∀ callback, protoData.headerCb = some callback →
      ∀ view, Calm (callback view)
  body :
    ∀ callback, protoData.bodyCb = some callback →
      ∀ view data, Calm (callback view data)
  buffer : protoData.bodyCb = none → length ≤ ymoHttpMaxBody

/-- What the header callback was shown, if there is one. -/
structure ShownHead
    (protoData : HttpProtoData)
    (request : SentRequest)
    (events : List Shown) : Prop where
  silent : protoData.headerCb = none → events = []
  shown :
    protoData.headerCb ≠ none →
      ∃ exchange,
        events = [.header (viewOf exchange)] ∧
          HeadKnown request exchange ∧
            (viewOf exchange).contentLength = request.body.length

/-- A piece of the body was shown, or buffered. -/
inductive ShownPiece (request : SentRequest) :
    Shown → Bytes → Prop where
  | body
      {exchange : HttpExchange}
      (known : HeadKnown request exchange)
      {data : Bytes}
      (some : data ≠ []) :
      ShownPiece request (.body (viewOf exchange) data) data
  | buffered
      {data : Bytes}
      (some : data ≠ []) :
      ShownPiece request (.buffered data .okay) data

/-- The pieces that were shown are the data, in order. -/
def ShownBody (request : SentRequest) (events : List Shown)
    (data : Bytes) : Prop :=
  ∃ pieces,
    List.Forall₂ (ShownPiece request) events pieces ∧ pieces.flatten = data

theorem ShownBody.snoc {request : SentRequest} {events : List Shown}
    {data piece : Bytes}
    {event : Shown}
    (shown : ShownBody request events data)
    (last : ShownPiece request event piece) :
    ShownBody request (events ++ [event]) (data ++ piece) := by
  rcases shown with ⟨pieces, shown, rfl⟩
  refine ⟨pieces ++ [piece], ?_, ?_⟩
  · exact List.rel_append shown (.cons last .nil)
  · rw [List.flatten_append, List.flatten_singleton]

/-! ## The body -/

/-- What the request has of its body: the length, and the block if it is buffered. -/
structure Account
    (protoData : HttpProtoData)
    (length : Nat)
    (delivered : Bytes)
    (request : HttpRequest) : Prop where
  shown :
    protoData.bodyCb ≠ none →
      request.body = none ∧ request.contentLength = length
  buffered :
    protoData.bodyCb = none →
      request.bodyReceived = delivered.length ∧ Block length delivered request

/-- Behind the headers, with some of the body delivered. -/
structure WithBody
    (protoData : HttpProtoData)
    (request : SentRequest)
    (delivered : Bytes)
    (exchange : HttpExchange) : Prop where
  known : HeadKnown request exchange
  account : Account protoData request.body.length delivered exchange.request
  next : exchange.nextState = .complete
  counted :
    delivered.length < request.body.length ∧ exchange.state = .body ∧
        exchange.bodyRemain + delivered.length = request.body.length ∨
      delivered.length = request.body.length ∧ exchange.state = .complete

theorem bodiless_expectBody (exchange : HttpExchange) :
    bodiless (expectBody exchange) = bodiless exchange := by
  unfold expectBody
  dsimp only
  split
  · rfl
  · split <;> rfl

theorem bodiless_of_framed (same : framed right = framed left) :
    bodiless right = bodiless left :=
  show bodiless (framed right) = bodiless (framed left) from
    congrArg bodiless same

section Body

variable
    {protoData : HttpProtoData}
    {request : SentRequest}

theorem Account.congr {length : Nat} {left right : HttpRequest}
    (account : Account protoData length delivered left)
    (body : right.body = left.body)
    (received : right.bodyReceived = left.bodyReceived)
    (content : right.contentLength = left.contentLength) :
    Account protoData length delivered right := by
  constructor
  · intro shows
    rw [body, content]
    exact account.shown shows
  · intro buffers
    rcases account.buffered buffers with ⟨count, block⟩
    refine ⟨received.trans count, ?_⟩
    cases block with
    | absent none nothing announced =>
        exact .absent (body.trans none) nothing (content.trans announced)
    | present some data count' size fits room =>
        exact
          .present (body.trans some) data (content.trans count') size fits room

/-- A callback leaves the exchange where it is in the body. -/
theorem WithBody.of_framed
    (withBody : WithBody protoData request delivered left)
    (same : framed right = framed left) :
    WithBody protoData request delivered right := by
  have state : right.state = left.state :=
    show (framed right).state = (framed left).state from
      congrArg HttpExchange.state same
  have remain : right.bodyRemain = left.bodyRemain :=
    show (framed right).bodyRemain = (framed left).bodyRemain from
      congrArg HttpExchange.bodyRemain same
  constructor
  · exact withBody.known.of_bodiless (bodiless_of_framed same)
  · have body : right.request.body = left.request.body :=
      congrArg (fun exchange => exchange.request.body) same
    have received : right.request.bodyReceived = left.request.bodyReceived :=
      congrArg (fun exchange => exchange.request.bodyReceived) same
    have length : right.request.contentLength = left.request.contentLength :=
      congrArg (fun exchange => exchange.request.contentLength) same
    exact withBody.account.congr body received length
  · have next : right.nextState = left.nextState :=
      show (framed right).nextState = (framed left).nextState from
        congrArg HttpExchange.nextState same
    exact next.trans withBody.next
  · rw [state, remain]
    exact withBody.counted

/-- Behind the headers the body is expected, if there is one. -/
theorem withBody_expectBody (sendable : Sendable request)
    {exchange : HttpExchange}
    (done : HeadDone request exchange) :
    WithBody protoData request [] (expectBody exchange) ∧
      (expectBody exchange).request = exchange.request := by
  have same : (expectBody exchange).request = exchange.request := by
    unfold expectBody
    dsimp only
    split
    · rfl
    · split <;> rfl
  have plain : exchange.request.flags.requestChunked = false := by
    rw [done.known.flags]
    exact sendable.whole
  refine ⟨⟨?_, ?_, ?_, ?_⟩, same⟩
  · exact done.known.of_bodiless (bodiless_expectBody exchange)
  · rw [same]
    constructor
    · intro _
      exact ⟨done.empty.body, done.length⟩
    · intro _
      exact ⟨done.empty.received, .absent done.empty.body rfl done.length⟩
  · unfold expectBody
    dsimp only
    rw [plain]
    split <;> rfl
  · unfold expectBody
    dsimp only
    rw [plain, done.length]
    by_cases some : 0 < request.body.length
    · rw [if_pos some]
      exact .inl ⟨some, rfl, rfl⟩
    · rw [if_neg some]
      exact .inr ⟨(Nat.eq_zero_of_not_pos some).symm, rfl⟩

/-- At the end of the headers the header callback is called, if it is there. -/
theorem headersComplete_calm (sendable : Sendable request)
    (receptive : Receptive protoData request.body.length)
    {exchange : HttpExchange}
    (done : HeadDone request exchange)
    {state : ReadState}
    (noError : state.error = false) :
    ∃ after later front,
      headersComplete protoData exchange state = (.okay, after, later) ∧
        WithBody protoData request [] after ∧ later.error = false ∧
          shownOf later.effects = shownOf state.effects ++ front ∧
            ShownHead protoData request front := by
  rcases @withBody_expectBody protoData request sendable exchange done with
    ⟨withBody, same⟩
  have stays : exchange.request.flags.upgrade = false := by
    rw [done.known.flags]
    exact sendable.stays
  unfold headersComplete
  dsimp only
  generalize started :
      (if expectsContinue exchange.request = true then
          ((state.emit (.initResponse exchange.request.flags)).emit
              (.store (expectBody exchange))).emit
            .sendContinue
        else state.emit (.initResponse exchange.request.flags)) =
        ready
  have quiet : ready.error = false ∧
      shownOf ready.effects = shownOf state.effects := by
    rw [← started]
    split
    · refine ⟨noError, ?_⟩
      simp only [ReadState.emit, shownOf_append]
      exact
        (List.append_nil _).trans
          ((List.append_nil _).trans (List.append_nil _))
    · refine ⟨noError, ?_⟩
      simp only [ReadState.emit, shownOf_append]
      exact List.append_nil _
  rw [stays]
  cases header : protoData.headerCb with
  | none =>
      refine
        ⟨_, _, [], rfl, withBody, quiet.1, ?_, fun _ => rfl,
          fun present => absurd header present⟩
      rw [quiet.2, List.append_nil]
  | some callback =>
      rcases
          react_calm
            (receptive.header callback header (viewOf (expectBody exchange)))
            (expectBody exchange) quiet.1
            (.header (viewOf (expectBody exchange))) with
        ⟨after, later, reacted, unchanged, calm, shown⟩
      refine
        ⟨after, later, [.header (viewOf (expectBody exchange))],
          reacted, withBody.of_framed unchanged, calm, ?_, ?_, ?_⟩
      · rw [shown, quiet.2]
      · intro absent
        rw [header] at absent
        cases absent
      · intro _
        refine ⟨_, rfl, withBody.known, ?_⟩
        exact (congrArg HttpRequest.contentLength same).trans done.length

/-- The exchange is at the same place in its request. -/
structure SamePlace (left right : HttpExchange) : Prop where
  head : bodiless right = bodiless left
  state : right.state = left.state
  next : right.nextState = left.nextState
  remain : right.bodyRemain = left.bodyRemain

theorem samePlace_of_framed (same : framed right = framed left) :
    SamePlace left right where
  head := bodiless_of_framed same
  state :=
    show (framed right).state = (framed left).state from
      congrArg HttpExchange.state same
  next :=
    show (framed right).nextState = (framed left).nextState from
      congrArg HttpExchange.nextState same
  remain :=
    show (framed right).bodyRemain = (framed left).bodyRemain from
      congrArg HttpExchange.bodyRemain same

theorem bodiless_bodyBlock {exchange : HttpExchange} {ready : HttpRequest}
    (block : bodyBlock exchange.request = some ready) :
    bodiless { exchange with request := ready } = bodiless exchange := by
  unfold bodyBlock at block
  split at block
  · cases block
    rfl
  · split at block
    · cases block
      rfl
    · cases block

/-- The body callback takes a piece. -/
theorem bodyCb_takes (receptive : Receptive protoData request.body.length)
    {delivered piece : Bytes}
    {exchange : HttpExchange}
    (withBody : WithBody protoData request delivered exchange)
    (fits : delivered.length + piece.length ≤ request.body.length)
    (nonempty : piece ≠ [])
    {state : ReadState}
    (noError : state.error = false) :
    ∃ after later event,
      bodyCb protoData state exchange piece = (.okay, after, later) ∧
        later.error = false ∧
          shownOf later.effects = shownOf state.effects ++ [event] ∧
            ShownPiece request event piece ∧
              SamePlace exchange after ∧
                Account protoData request.body.length
                  (delivered ++ piece) after.request := by
  unfold bodyCb
  cases body : protoData.bodyCb with
  | some callback =>
      rcases
          react_calm
            (receptive.body callback body (viewOf exchange) piece)
            exchange noError (.body (viewOf exchange) piece) with
        ⟨after, later, reacted, unchanged, calm, shown⟩
      refine
        ⟨after, later, _, reacted, calm, shown,
          .body withBody.known nonempty, samePlace_of_framed unchanged,
          ?_⟩
      have shows : protoData.bodyCb ≠ none := by
        rw [body]
        exact Option.some_ne_none callback
      constructor
      · intro _
        exact (withBody.of_framed unchanged).account.shown shows
      · intro buffers
        exact absurd buffers shows
  | none =>
      have small := receptive.buffer body
      rcases withBody.account.buffered body with ⟨received, block⟩
      rcases block.buffered received with
        ⟨-, large⟩ |
          ⟨ready, blocked, -, count, block, some, data, length, size,
            announced, -⟩
      · exact absurd large (Nat.not_lt_of_le small)
      · have room' : ¬ymoHttpMaxBody - ready.bodyReceived < piece.length := by
          rw [count]
          omega
        refine
          ⟨{ exchange with request := bufferData ready piece },
            state.emit (.shown (.buffered piece .okay)),
            .buffered piece .okay, ?_, noError, ?_, .buffered nonempty,
            ⟨?_, rfl, rfl, rfl⟩, ?_⟩
        · dsimp only
          unfold bufferBodyCb
          rw [blocked]
          dsimp only
          rw [if_neg room']
        · rw [ReadState.emit, shownOf_append]
          rfl
        · exact
            (show
              bodiless { exchange with request := bufferData ready piece } =
                bodiless { exchange with request := ready } from
              rfl).trans (bodiless_bodyBlock blocked)
        · constructor
          · intro shows
            exact absurd body shows
          · intro _
            have held :
                (bufferData ready piece).body =
                  Option.some (block.copy delivered.length piece) := by
              unfold bufferData
              dsimp only
              rw [some, count]
              rfl
            constructor
            · rw [List.length_append, ← count]
              rfl
            · apply Block.present held
              · rw [← data, copy_end]
              · unfold bufferData
                dsimp only
                rw [length, List.length_append, Nat.mod_eq_of_lt]
                exact Nat.lt_of_le_of_lt (Nat.le_trans fits small) (by decide)
              · exact size
              · exact announced
              · rw [List.length_append]
                exact Nat.le_trans fits small

/-- The parser hands over what it has of the body, and stops. -/
theorem ymoParseHttpBody_takes {σ : Type} {callback : BodyCallback σ}
    {state later : σ}
    {exchange after : HttpExchange}
    {memory : Bytes}
    {len : Nat}
    (readable : len ≤ memory.length)
    (inBody : exchange.state = .body)
    (some : exchange.bodyRemain ≠ 0)
    (called :
      callback state exchange
          (memory.take (min len exchange.bodyRemain)) =
        (.okay, after, later))
    (place : SamePlace exchange after)
    (plain : after.request.flags.requestChunked = false)
    (next : exchange.nextState = .complete) :
    ymoParseHttpBody callback state exchange memory len =
      (.took (min len exchange.bodyRemain)
        (bodyTaken after (min len exchange.bodyRemain)), later) := by
  have enough : ¬memory.length < min len exchange.bodyRemain := by omega
  have first :
      bodyTurn callback
          { state := state
            exchange := exchange
            cursor := { len := len, count := 0, memory := memory } } =
        bodyResume later
          (.stopped (bodyTaken after (min len exchange.bodyRemain))
            { len := len - min len exchange.bodyRemain
              count := min len exchange.bodyRemain
              memory := memory.drop (min len exchange.bodyRemain) }) := by
    unfold bodyTurn
    dsimp only
    rw [inBody]
    dsimp only
    rw [if_neg some]
    unfold bodyBytesTurn
    dsimp only
    rw [if_neg enough, called]
    dsimp only
    rw [Nat.zero_add]
  unfold ymoParseHttpBody
  by_cases more : len - min len exchange.bodyRemain ≠ 0
  · have all : exchange.bodyRemain - min len exchange.bodyRemain = 0 := by
      omega
    have complete :
        (bodyTaken after (min len exchange.bodyRemain)).state = .complete := by
      unfold bodyTaken
      dsimp only
      rw [place.remain, if_pos all, plain, place.next, next]
      rfl
    rw [show 2 * memory.length + 3 = 2 * memory.length + 1 + 1 + 1 from rfl,
      loop_of_again (first.trans (if_pos more))]
    apply loop_of_done
    unfold bodyTurn
    dsimp only
    rw [complete]
  · exact loop_of_done (first.trans (if_neg more)) _

/-- The exchange when a piece of the body was taken. -/
theorem WithBody.taken
    (sendable : Sendable request)
    {delivered piece : Bytes}
    {exchange after : HttpExchange}
    (withBody : WithBody protoData request delivered exchange)
    (inBody : exchange.state = .body)
    (counted : exchange.bodyRemain + delivered.length = request.body.length)
    (fits : piece.length ≤ exchange.bodyRemain)
    (place : SamePlace exchange after)
    (account :
      Account protoData request.body.length (delivered ++ piece)
        after.request) :
    WithBody protoData request (delivered ++ piece)
      (bodyTaken after piece.length) := by
  have known := withBody.known.of_bodiless place.head
  have plain : after.request.flags.requestChunked = false := by
    rw [known.flags]
    exact sendable.whole
  have same :
      (bodyTaken after piece.length).request = after.request ∧
        bodiless (bodyTaken after piece.length) = bodiless after := by
    unfold bodyTaken
    dsimp only
    split
    · split <;> exact ⟨rfl, rfl⟩
    · exact ⟨rfl, rfl⟩
  have remain := place.remain
  refine ⟨known.of_bodiless same.2, ?_, ?_, ?_⟩
  · rw [same.1]
    exact account
  · unfold bodyTaken
    dsimp only
    rw [plain]
    split
    · exact place.next.trans withBody.next
    · exact place.next.trans withBody.next
  · unfold bodyTaken
    dsimp only
    rw [plain, List.length_append]
    by_cases all : after.bodyRemain - piece.length = 0
    · rw [if_pos all]
      exact .inr ⟨by omega, place.next.trans withBody.next⟩
    · rw [if_neg all]
      exact .inl ⟨by omega, place.state.trans inBody, by dsimp only; omega⟩

/-- A turn in the body. -/
theorem readTurn_body
    (sendable : Sendable request)
    (receptive : Receptive protoData request.body.length)
    (withBody : WithBody protoData request delivered locals.exchange)
    (inBody : locals.exchange.state = .body)
    (counted :
      locals.exchange.bodyRemain + delivered.length = request.body.length)
    (more : delivered.length < request.body.length)
    (readable : locals.scan.len ≤ locals.scan.memory.length)
    (some : locals.scan.len ≠ 0)
    (noError : locals.state.error = false)
    {n : Nat}
    (amount : n = min locals.scan.len locals.exchange.bodyRemain) :
    ∃ after later event,
      readTurn protoData locals =
          loopTest protoData
            { exchange := after
              state := later
              scan := locals.scan.advance n } ∧
        WithBody protoData request
            (delivered ++ (ahead locals.scan).take n) after ∧
          later.error = false ∧
            shownOf later.effects =
                shownOf locals.state.effects ++ [event] ∧
              ShownPiece request event ((ahead locals.scan).take n) := by
  have piece : locals.scan.memory.take n = (ahead locals.scan).take n := by
    unfold ahead
    rw [List.take_take, Nat.min_eq_left (by omega)]
  have length : ((ahead locals.scan).take n).length = n := by
    rw [List.length_take, length_ahead readable]
    omega
  have nonempty : (ahead locals.scan).take n ≠ [] := by
    intro empty
    rw [empty] at length
    have zero : n = 0 := length.symm
    omega
  rcases
      @bodyCb_takes _ _ receptive _ ((ahead locals.scan).take n) _
        withBody (by omega) nonempty _ noError with
    ⟨after, later, event, called, calm, shown, shownPiece, place, account⟩
  have known := withBody.known.of_bodiless place.head
  have plain : after.request.flags.requestChunked = false := by
    rw [known.flags]
    exact sendable.whole
  rw [← piece, amount] at called
  have parsed :=
    ymoParseHttpBody_takes readable inBody (by omega) called place plain
      withBody.next
  rw [← amount] at parsed
  have taken := withBody.taken sendable inBody counted (by omega) place account
  rw [length] at taken
  refine ⟨_, _, event, ?_, taken, calm, shown, shownPiece⟩
  unfold readTurn
  rw [inBody]
  dsimp only
  unfold bodyStateTurn
  dsimp only
  rw [parsed]
  rfl

end Body

end Yimmo.Http.RequestReads
