import Yimmo.Http.HeaderLines
import Yimmo.Http.Reader

/-!
# The framing of a request body

What a list of header lines announces for the body, and what reading expects
when the head is complete.

Reading goes by the last `Content-Length` that `strtol` reads to its end, and by
the chunked bit.  It never rejects a length, it reads a length first when both
are there, and it loses the bit to a later `Connection: close`.
-/

namespace Yimmo.Http.BodyFraming

open Yimmo.Core.StatusCode
open Yimmo.Lib.ByteMemory
open Yimmo.Http.Headers
open Yimmo.Http.HeaderMap
open Yimmo.Http.Exchange
open Yimmo.Http.Parse
open Yimmo.Http.Application
open Yimmo.Http.Reader
open Yimmo.Http.HeaderLines

/-! ## What is announced -/

/-- How the body of a request is delimited; without a body its length is zero. -/
inductive Framing where
  | chunked
  | length (count : Nat)
deriving DecidableEq, Repr

/-- The line has the name, whatever the case of its letters. -/
def named (name : String) (line : HeaderLine) : Bool :=
  decide (CaseVariant line.name (bytes name))

/-- The elements of a list value, without the white space around them. -/
def elements (value : Bytes) : List Bytes :=
  let trim := List.dropWhile fun c : UInt8 => c == 32 || c == 9
  (value.splitOn 44).map fun element => (trim (trim element).reverse).reverse

/-- `Transfer-Encoding` names the chunked coding. -/
def namesChunked (lines : List HeaderLine) : Bool :=
  lines.any fun line =>
    named "Transfer-Encoding" line &&
      (elements line.value).any fun element =>
        decide (CaseVariant element (bytes "chunked"))

/-- `1*DIGIT` below `2^63`. -/
def isLength (value : Bytes) : Bool :=
  !value.isEmpty && value.all isDigit && decide (decimal value < 2 ^ 63)

/-- The values of the `Content-Length` lines. -/
def lengthValues (lines : List HeaderLine) : List Bytes :=
  (lines.filter (named "Content-Length")).map HeaderLine.value

/-- What the lines announce; a length that is none, or two that differ, announce
nothing and are to be rejected. -/
def announced (lines : List HeaderLine) : Option Framing :=
  if namesChunked lines then some .chunked
  else
    match lengthValues lines with
    | [] => some (.length 0)
    | value :: others =>
        if isLength value = true ∧
            ∀ other ∈ others,
              isLength other = true ∧ decimal other = decimal value then
          some (.length (decimal value))
        else none

/-! ## What is expected -/

/-- What reading expects after the head. -/
inductive Expected where
  | framed (framing : Framing)
  /-- The chunked coding after that many bytes. -/
  | both (count : Nat)
deriving DecidableEq, Repr

/-- The expectation of an exchange whose headers are complete. -/
def expected (exchange : HttpExchange) : Expected :=
  match exchange.state with
  | .bodyChunkHeader => .framed .chunked
  | .body =>
      if exchange.request.flags.requestChunked then .both exchange.bodyRemain
      else .framed (.length exchange.bodyRemain)
  | _ => .framed (.length 0)

/-- The header callback of the application, if there is one, accepts. -/
def Accepting (protoData : HttpProtoData) : Prop :=
  ∀ callback ∈ protoData.headerCb, ∀ view, (callback view).status = .okay

/--
The body that reading expects when the head is complete is the one that was
announced, and a head that announces none is rejected.
-/
def FramedAsAnnounced (protoData : HttpProtoData) (exchange : HttpExchange)
    (lines : List HeaderLine) : Prop :=
  ∀ state,
    let complete :=
      headersComplete protoData
        (gotHeaders protoData.stray exchange lines) state
    match announced lines with
    | some framing =>
        complete.1 = .okay ∧ expected complete.2.1 = .framed framing
    | none => complete.1 ≠ .okay

theorem expected_of_framed {left right : HttpExchange}
    (same : framed left = framed right) :
    expected left = expected right := by
  have expectation : expected (framed left) = expected (framed right) :=
    congrArg expected same
  exact expectation

/-- Nothing but the header callback rejects a head. -/
theorem headersComplete_okay {protoData : HttpProtoData}
    (accepting : Accepting protoData)
    (exchange : HttpExchange)
    (state : ReadState) :
    (headersComplete protoData exchange state).1 = .okay := by
  unfold headersComplete
  dsimp only
  cases callback : protoData.headerCb with
  | none => rfl
  | some callback' =>
      dsimp only
      split
      · rfl
      · exact accepting callback' callback _

theorem expected_expectBody (exchange : HttpExchange) :
    expected (expectBody exchange) =
      if 0 < exchange.request.contentLength then
        if exchange.request.flags.requestChunked then
          .both exchange.request.contentLength
        else .framed (.length exchange.request.contentLength)
      else if exchange.request.flags.requestChunked then .framed .chunked
      else .framed (.length 0) := by
  unfold expectBody
  dsimp only
  split_ifs with some chunked chunked
  · unfold expected
    dsimp only
    rw [if_pos chunked]
  · unfold expected
    dsimp only
    rw [if_neg chunked]
  · rfl
  · rfl

/-! ## What the lines come to -/

/-- The value `strtol` reads in a line with the id of `Content-Length`. -/
def readLength (line : HeaderLine) : Option Nat :=
  if line.hId = ymoHttpHidContentLength then
    if (strtol (cString line.value)).2 = [] then
      some (sizeOfLong (strtol (cString line.value)).1)
    else none
  else none

/-- The last of the lengths that are read. -/
def lastLength : List HeaderLine → Option Nat
  | [] => none
  | line :: lines => (lastLength lines).or (readLength line)

/-- There is a chunked line; in HTTP/1.1 no close line comes after it. -/
def keepsChunked (version11 : Bool) : List HeaderLine → Bool
  | [] => false
  | line :: lines =>
      keepsChunked version11 lines ||
        isChunked line && !(version11 && lines.any isClose)

theorem lengthAfter_eq (length : Nat) (lines : List HeaderLine) :
    lengthAfter length lines = (lastLength lines).getD length := by
  induction lines generalizing length with
  | nil => rfl
  | cons line lines ih =>
      have step :
          lengthAfter length (line :: lines) =
            lengthAfter
              (headerLength line.hId (cString line.value) length)
              lines :=
        rfl
      have here :
          headerLength line.hId (cString line.value) length =
            (readLength line).getD length := by
        unfold headerLength readLength
        split_ifs <;> rfl
      rw [step, ih, here, lastLength]
      cases lastLength lines <;> rfl

/-- What a line does to the chunked bit. -/
theorem headerFlags_requestChunked (line : HeaderLine) (flags : HttpFlags) :
    (headerFlags line.hId line.value flags).requestChunked =
      (isChunked line ||
        flags.requestChunked && !(flags.version11 && isClose line)) := by
  unfold headerFlags isChunked isClose
  by_cases connection : line.hId = ymoHttpHidConnection
  · rw [if_pos connection, connection, beq_self_eq_true,
      beq_false_of_ne (by decide), Bool.false_and, Bool.true_and,
      Bool.false_or]
    by_cases version : flags.version11 = true
    · rw [if_pos version, version, Bool.true_and]
      by_cases close : ymoStrcaseEqual line.value (bytes "close") = true
      · rw [if_pos close, close]
        exact (Bool.and_false _).symm
      · rw [if_neg close, Bool.eq_false_of_not_eq_true close]
        exact (Bool.and_true _).symm
    · rw [if_neg version, Bool.eq_false_of_not_eq_true version, Bool.false_and]
      split_ifs <;> exact (Bool.and_true _).symm
  rw [if_neg connection, beq_false_of_ne connection, Bool.false_and,
    Bool.and_false, Bool.not_false, Bool.and_true]
  by_cases expects : line.hId = ymoHttpHidExpect
  · rw [if_pos expects, expects, beq_false_of_ne (by decide),
      Bool.false_and, Bool.false_or]
    split_ifs <;> rfl
  rw [if_neg expects]
  by_cases upgrades : line.hId = ymoHttpHidUpgrade
  · rw [if_pos upgrades, upgrades, beq_false_of_ne (by decide),
      Bool.false_and, Bool.false_or]
  rw [if_neg upgrades]
  by_cases encoding : line.hId = ymoHttpHidTransferEncoding
  · rw [if_pos encoding, encoding, beq_self_eq_true, Bool.true_and]
    by_cases chunked : ymoStrcaseEqual line.value (bytes "chunked") = true
    · rw [if_pos chunked, chunked]
      rfl
    · rw [if_neg chunked, Bool.eq_false_of_not_eq_true chunked, Bool.false_or]
  · rw [if_neg encoding, beq_false_of_ne encoding, Bool.false_and,
      Bool.false_or]

theorem linesFlags_requestChunked (lines : List HeaderLine)
    (flags : HttpFlags) :
    (linesFlags flags lines).requestChunked =
      (keepsChunked flags.version11 lines ||
        flags.requestChunked && !(flags.version11 && lines.any isClose)) := by
  induction lines generalizing flags with
  | nil =>
      show
        flags.requestChunked =
          (false || flags.requestChunked && !(flags.version11 && false))
      rw [Bool.and_false, Bool.not_false, Bool.and_true, Bool.false_or]
  | cons line lines ih =>
      have step :
          linesFlags flags (line :: lines) =
            linesFlags (headerFlags line.hId line.value flags) lines :=
        rfl
      rw [step, ih, version_headerFlags,
        headerFlags_requestChunked, keepsChunked, List.any_cons]
      cases keepsChunked flags.version11 lines <;>
        cases isChunked line <;> cases flags.requestChunked <;>
          cases flags.version11 <;> cases isClose line <;>
            cases lines.any isClose <;> rfl

/-! ## When the framing is the one announced -/

/--
The lines announce a body, and what reading goes by agrees: the last readable
length, and the chunked bit.
-/
def Plain (version11 : Bool) (lines : List HeaderLine) : Prop :=
  match announced lines with
  | some .chunked =>
      (lastLength lines).getD 0 = 0 ∧ keepsChunked version11 lines = true
  | some (.length count) =>
      (lastLength lines).getD 0 = count ∧ keepsChunked version11 lines = false
  | none => False

/-- The request line was read, and no header. -/
structure BeforeHeaders (exchange : HttpExchange) : Prop where
  length : exchange.request.contentLength = 0
  chunked : exchange.request.flags.requestChunked = false

/-- What reading expects after the lines. -/
theorem expected_headersComplete (protoData : HttpProtoData)
    {exchange : HttpExchange}
    (before : BeforeHeaders exchange)
    (lines : List HeaderLine)
    (state : ReadState) :
    expected
        (headersComplete protoData
          (gotHeaders protoData.stray exchange lines) state).2.1 =
      if 0 < (lastLength lines).getD 0 then
        if keepsChunked exchange.request.flags.version11 lines then
          .both ((lastLength lines).getD 0)
        else .framed (.length ((lastLength lines).getD 0))
      else if keepsChunked exchange.request.flags.version11 lines then
        .framed .chunked
      else .framed (.length 0) := by
  rw [expected_of_framed (framed_headersComplete protoData _ state),
    expected_expectBody, contentLength_gotHeaders, flags_gotHeaders,
    lengthAfter_eq, linesFlags_requestChunked, before.length,
    before.chunked, Bool.false_and, Bool.or_false]

/-- The body is framed as announced exactly when the lines are plain. -/
theorem framedAsAnnounced_iff {protoData : HttpProtoData}
    (accepting : Accepting protoData)
    {exchange : HttpExchange}
    (before : BeforeHeaders exchange)
    (lines : List HeaderLine) :
    FramedAsAnnounced protoData exchange lines ↔
      Plain exchange.request.flags.version11 lines := by
  have okay := headersComplete_okay accepting
  have expectation := expected_headersComplete protoData before lines
  unfold FramedAsAnnounced Plain
  dsimp only
  constructor
  · intro asAnnounced
    have here := asAnnounced { error := false, effects := [] }
    cases announcement : announced lines with
    | none =>
        rw [announcement] at here
        exact here (okay _ _)
    | some framing =>
        rw [announcement] at here
        dsimp only at here
        rw [expectation] at here
        cases framing with
        | chunked =>
            dsimp only
            split_ifs at here with some kept kept
            · cases here.2
            · cases here.2
            · exact ⟨by omega, kept⟩
            · cases here.2
        | length count =>
            dsimp only
            split_ifs at here with some kept kept
            · cases here.2
            · cases here.2
              exact ⟨rfl, Bool.eq_false_of_not_eq_true kept⟩
            · cases here.2
            · cases here.2
              exact ⟨by omega, Bool.eq_false_of_not_eq_true kept⟩
  · intro plain state
    cases announcement : announced lines with
    | none =>
        rw [announcement] at plain
        exact plain.elim
    | some framing =>
        rw [announcement] at plain
        refine ⟨okay _ _, ?_⟩
        rw [expectation]
        cases framing with
        | chunked =>
            rcases plain with ⟨none, kept⟩
            rw [none, kept]
            rfl
        | length count =>
            rcases plain with ⟨length, lost⟩
            rw [length, lost, if_neg Bool.false_ne_true,
              if_neg Bool.false_ne_true]
            split_ifs with some
            · rfl
            · have none : count = 0 := by omega
              rw [none]

theorem accepting_quietApplication : Accepting quietApplication := by
  intro callback given
  cases given

theorem beforeHeaders_create : BeforeHeaders ymoHttpExchangeCreate :=
  ⟨rfl, rfl⟩

/-- `Content-Length` with a value of digits. -/
def lengthLine : HeaderLine where
  name := bytes "Content-Length"
  value := bytes "5"
  tokens := by decide
  noReturn := by decide

/-- `Content-Length: -1`. -/
def negativeLine : HeaderLine where
  name := bytes "content-length"
  value := bytes "-1"
  tokens := by decide
  noReturn := by decide

theorem framedAsAnnounced_iff_length :
    FramedAsAnnounced quietApplication ymoHttpExchangeCreate
        [lengthLine, lengthLine] ↔
      Plain ymoHttpExchangeCreate.request.flags.version11
        [lengthLine, lengthLine] :=
  framedAsAnnounced_iff accepting_quietApplication beforeHeaders_create _

/-- A negative length is taken for a huge one, and a length comes before the
chunks it should give way to. -/
theorem not_framedAsAnnounced_negative :
    ¬ FramedAsAnnounced quietApplication ymoHttpExchangeCreate
        [negativeLine] ∧
      ¬ FramedAsAnnounced quietApplication ymoHttpExchangeCreate
        [chunkedLine, lengthLine] := by
  constructor
  · intro asAnnounced
    have here := asAnnounced { error := false, effects := [] }
    rw [show announced [negativeLine] = none by decide] at here
    exact here (headersComplete_okay accepting_quietApplication _ _)
  · intro asAnnounced
    have here := asAnnounced { error := false, effects := [] }
    rw [show
        announced [chunkedLine, lengthLine] = some .chunked by
      decide] at here
    have expectation :=
      expected_headersComplete quietApplication beforeHeaders_create
        [chunkedLine, lengthLine] { error := false, effects := [] }
    rw [show (lastLength [chunkedLine, lengthLine]).getD 0 = 5 by
        decide,
      show
        keepsChunked ymoHttpExchangeCreate.request.flags.version11
            [chunkedLine, lengthLine] =
          true by
        decide] at expectation
    have both := expectation.symm.trans here.2
    cases both

end Yimmo.Http.BodyFraming
