import Yimmo.Http.BodyBounds
import Yimmo.Http.ChunkedCoding

/-!
# Decoding the chunked coding

A chunked body that was delivered in one read is decoded as it should when the
parser reads every chunk-size line as the size it announces and there is no
trailer field.  The parser takes the bytes of a chunk extension for digits, ends
the body with the first line of the trailer section, and rejects nothing.
-/

namespace Yimmo.Http.ChunkedDecoding

open Yimmo.Core.StatusCode
open Yimmo.Lib.TurnLoop
open Yimmo.Http.Exchange
open Yimmo.Http.Parse
open Yimmo.Http.Application
open Yimmo.Http.Reader
open Yimmo.Http.BodyScan
open Yimmo.Http.BodyBounds
open Yimmo.Http.ChunkedCoding
open Yimmo.Http.ReadProgress

variable
    {line : Bytes}
    {fuel : Nat}
    {state : ReadState}
    {after : HttpExchange}
    {final : ReadState}

/-! ## What the callback was shown -/

/-- The data of a body that an effect shows. -/
def dataOf : Effect → Bytes
  | .shown (.body _ data) => data
  | _ => []

/-- All the body data that was shown, in order. -/
def shownBody (state : ReadState) : Bytes :=
  state.effects.flatMap dataOf

theorem shownBody_runCalls (exchange : HttpExchange) (state : ReadState)
    (calls : List AppCall) :
    shownBody (runCalls exchange state calls).2 = shownBody state := by
  induction calls generalizing exchange state with
  | nil => rfl
  | cons call calls ih =>
      rw [runCalls, ih]
      unfold runCall
      dsimp only
      split
      · simp [shownBody, dataOf]
      · rfl

section Callback

variable
    {protoData : HttpProtoData}
    {callback : RequestView → Bytes → Reaction}

theorem shownBody_bodyCb (supplied : protoData.bodyCb = some callback)
    (state : ReadState)
    (exchange : HttpExchange)
    (data : Bytes) :
    shownBody (bodyCb protoData state exchange data).2.2 =
      shownBody state ++ data := by
  rw [bodyCb_eq supplied]
  unfold react
  rw [shownBody_runCalls]
  simp [shownBody, ReadState.emit, dataOf]

/-- Body data is shown after what was shown before. -/
theorem shownBody_extends (obliges : Obliges protoData callback) (fuel : Nat)
    (state : ReadState)
    (exchange : HttpExchange)
    (len count : Nat)
    (memory : Bytes) :
    ∃ more,
      shownBody
          (bodyLoop (bodyCb protoData) fuel state exchange len count
            memory).2 =
        shownBody state ++ more := by
  apply loop_satisfies
    (fun locals : BodyState ReadState =>
      ∃ more, shownBody locals.state = shownBody state ++ more)
    (fun result : Parsed × ReadState =>
      ∃ more, shownBody result.2 = shownBody state ++ more)
  · intro locals held
    unfold bodyTurn
    dsimp only
    have resumed (later : ReadState)
        (shown : ∃ more, shownBody later = shownBody state ++ more)
        (step : BodyStep) :
        (bodyResume later step).Satisfies
          (fun locals : BodyState ReadState =>
            ∃ more, shownBody locals.state = shownBody state ++ more)
          (fun result : Parsed × ReadState =>
            ∃ more, shownBody result.2 = shownBody state ++ more) := by
      cases step with
      | stopped exchange cursor =>
          rw [bodyResume]
          split
          · exact shown
          · exact shown
      | fault exchange => exact shown
    split
    · exact resumed _ held _
    · split
      · exact resumed _ held _
      · unfold bodyBytesTurn
        dsimp only
        split
        · exact held
        · have whole :=
            (bodyCb_obliging obliges).eq locals.state
              locals.exchange
              (locals.cursor.memory.take
                (min locals.cursor.len locals.exchange.bodyRemain))
          rw [whole]
          apply resumed
          rcases held with ⟨more, shown⟩
          rw [shownBody_bodyCb obliges.supplied, shown, List.append_assoc]
          exact ⟨_, rfl⟩
    · exact resumed _ held _
    · exact held
  · intro locals held
    exact held
  · exact ⟨[], (List.append_nil _).symm⟩

/-- A parser whose callback takes everything rejects nothing. -/
theorem not_failed (obliges : Obliges protoData callback) (state : ReadState)
    (exchange : HttpExchange)
    (memory : Bytes)
    (len : Nat) :
    ∀ errno after later,
      ymoParseHttpBody (bodyCb protoData) state exchange memory len ≠
        (.failed errno after, later) := by
  apply loop_satisfies (fun _ : BodyState ReadState => True)
    (fun result : Parsed × ReadState =>
      ∀ errno after later, result ≠ (.failed errno after, later))
  · intro locals held
    unfold bodyTurn
    dsimp only
    have resumed (later : ReadState) (step : BodyStep) :
        (bodyResume later step).Satisfies
          (fun _ : BodyState ReadState => True)
          (fun result : Parsed × ReadState =>
            ∀ errno after later, result ≠ (.failed errno after, later)) := by
      cases step with
      | stopped exchange cursor =>
          rw [bodyResume]
          split
          · exact True.intro
          · intro errno after final same
            cases same
      | fault exchange =>
          intro errno after final same
          cases same
    split
    · exact resumed _ _
    · split
      · exact resumed _ _
      · unfold bodyBytesTurn
        dsimp only
        split
        · intro errno after final same
          cases same
        · have whole :=
            (bodyCb_obliging obliges).eq locals.state
              locals.exchange
              (locals.cursor.memory.take
                (min locals.cursor.len locals.exchange.bodyRemain))
          rw [whole]
          exact resumed _ _
    · exact resumed _ _
    · intro errno after final same
      cases same
  · intro locals held errno after final same
    cases same
  · exact True.intro

end Callback

/-! ## Lines and pieces -/

/-- The exchange after the bytes of a line. -/
def lineRead (exchange : HttpExchange) (line : Bytes) : HttpExchange :=
  line.foldl lineByte exchange

theorem lineRead_of_header {exchange : HttpExchange}
    (header : exchange.state = .bodyChunkHeader)
    (line : Bytes) :
    lineRead exchange line =
      { exchange with bodyRemain := lineNumber exchange.bodyRemain line } := by
  induction line generalizing exchange with
  | nil => rfl
  | cons c line ih =>
      have first := lineByte_of_header header c
      rw [lineRead, List.foldl_cons, ← lineRead, first]
      by_cases return_ : c = cr
      · rw [if_pos return_, ih header, lineNumber,
          lineNumber, List.foldl_cons, if_pos return_]
      · have stillHeader :
            ({ exchange with
              bodyRemain := chunkDigit exchange.bodyRemain c }).state =
              .bodyChunkHeader :=
          header
        rw [if_neg return_, ih stillHeader, lineNumber,
          lineNumber, List.foldl_cons, if_neg return_]

theorem lineRead_of_trailer {exchange : HttpExchange}
    (trailer : exchange.state = .bodyChunkTrailer)
    (line : Bytes) :
    lineRead exchange line = exchange := by
  induction line with
  | nil => rfl
  | cons c line ih =>
      rw [lineRead, List.foldl_cons, lineByte_of_trailer trailer]
      exact ih

section Line

variable
    {σ : Type}
    {callback : BodyCallback σ}

/-- A line of the chunked coding, to its line feed. -/
theorem bodyLoop_line (noFeed : lf ∉ line) {exchange : HttpExchange}
    (inLine : (placeOf exchange).inLine = true)
    (fuel : Nat)
    (state : σ)
    (drift count : Nat)
    (rest : Bytes) :
    bodyLoop callback (fuel + 1) state exchange
        ((line ++ lf :: rest).length + drift) count (line ++ lf :: rest) =
      bodyLoop callback fuel state (lineFed (lineRead exchange line))
        (rest.length + (drift + 1)) (count + line.length + 1) rest := by
  induction line generalizing exchange count with
  | nil =>
      rw [List.nil_append, List.length_cons,
        bodyLoop_lineFeed inLine (by omega),
        show rest.length + 1 + drift = rest.length + (drift + 1) by omega]
      rfl
  | cons c line ih =>
      rw [List.mem_cons, not_or] at noFeed
      have stillLine : (placeOf (lineByte exchange c)).inLine = true := by
        rw [placeOf_lineByte, inLine_lineByte]
        exact inLine
      have later := ih noFeed.2 stillLine (count + 1)
      rw [List.cons_append, List.length_cons,
        show
          (line ++ lf :: rest).length + 1 + drift =
            (line ++ lf :: rest).length + drift + 1 by
          omega,
        bodyLoop_lineByte inLine (Ne.symm noFeed.1)
          (by rw [List.length_append, List.length_cons]; omega),
        later, lineRead, lineRead, List.foldl_cons, List.length_cons,
        show
          count + 1 + line.length + 1 = count + (line.length + 1) + 1 by
          omega]

/-- A line and the `CRLF` behind it. -/
theorem bodyLoop_lineCrlf (noFeed : lf ∉ line) {exchange : HttpExchange}
    (inLine : (placeOf exchange).inLine = true)
    (fuel : Nat)
    (state : σ)
    (drift count : Nat)
    (rest : Bytes) :
    bodyLoop callback (fuel + 1) state exchange
        ((line ++ crlf ++ rest).length + drift) count
        (line ++ crlf ++ rest) =
      bodyLoop callback fuel state
        (lineFed (lineRead exchange (line ++ [cr])))
        (rest.length + (drift + 1)) (count + line.length + 2) rest := by
  have noFeedBefore : lf ∉ line ++ [cr] := by
    rw [List.mem_append, List.mem_singleton, not_or]
    exact ⟨noFeed, by decide⟩
  have whole : line ++ crlf ++ rest = (line ++ [cr]) ++ lf :: rest := by
    rw [crlf, List.append_assoc, List.append_assoc]
    rfl
  rw [whole, bodyLoop_line noFeedBefore inLine, List.length_append,
    List.length_singleton,
    show
      count + (line.length + 1) + 1 = count + line.length + 2 by
      omega]

/-- The parser is at a chunk-size line. -/
structure AtHeader (exchange : HttpExchange) : Prop where
  header : exchange.state = .bodyChunkHeader
  none : exchange.bodyRemain = 0
  chunked : exchange.request.flags.requestChunked = true

/-- The exchange after a chunk-size line that was read as a number. -/
def afterSize (exchange : HttpExchange) (number : Nat) : HttpExchange :=
  if number ≠ 0 then
    { exchange with
      bodyRemain := number
      state := .body
      nextState := .bodyChunkTrailer }
  else
    { exchange with
      bodyRemain := number
      state := .bodyChunkTrailer
      nextState := .complete }

theorem afterSize_of_ne (exchange : HttpExchange) {number : Nat}
    (some : number ≠ 0) :
    (afterSize exchange number).state = .body ∧
      (afterSize exchange number).bodyRemain = number := by
  unfold afterSize
  rw [if_pos some]
  exact ⟨rfl, rfl⟩

theorem lineNumber_cr (line : Bytes) :
    lineNumber 0 (line ++ [cr]) = lineNumber 0 line := by
  rw [lineNumber, lineNumber, List.foldl_append]
  rfl

theorem bodyLoop_size {exchange : HttpExchange} (ready : AtHeader exchange)
    (noFeed : lf ∉ line)
    (fuel : Nat)
    (state : σ)
    (drift count : Nat)
    (rest : Bytes) :
    bodyLoop callback (fuel + 1) state exchange
        ((line ++ crlf ++ rest).length + drift) count
        (line ++ crlf ++ rest) =
      bodyLoop callback fuel state
        (afterSize exchange (lineNumber 0 line))
        (rest.length + (drift + 1)) (count + line.length + 2) rest := by
  have inLine : (placeOf exchange).inLine = true := by
    unfold BodyPlace.inLine placeOf
    dsimp only
    rw [ready.header]
  have fed :
      lineFed (lineRead exchange (line ++ [cr])) =
        afterSize exchange (lineNumber 0 line) := by
    rw [lineRead_of_header ready.header, ready.none, lineNumber_cr]
    unfold lineFed afterSize
    dsimp only
    rw [ready.header]
  rw [bodyLoop_lineCrlf noFeed inLine, fed]

theorem bodyLoop_trailer {exchange : HttpExchange}
    (trailer : exchange.state = .bodyChunkTrailer)
    (noFeed : lf ∉ line)
    (fuel : Nat)
    (state : σ)
    (drift count : Nat)
    (rest : Bytes) :
    bodyLoop callback (fuel + 1) state exchange
        ((line ++ crlf ++ rest).length + drift) count
        (line ++ crlf ++ rest) =
      bodyLoop callback fuel state
        { exchange with state := exchange.nextState }
        (rest.length + (drift + 1)) (count + line.length + 2) rest := by
  have inLine : (placeOf exchange).inLine = true := by
    unfold BodyPlace.inLine placeOf
    dsimp only
    rw [trailer]
  have fed :
      lineFed (lineRead exchange (line ++ [cr])) =
        { exchange with state := exchange.nextState } := by
    rw [lineRead_of_trailer trailer]
    unfold lineFed
    rw [trailer]
  rw [bodyLoop_lineCrlf noFeed inLine, fed]

end Line

/-! ## Chunks -/

/-- A line of bytes that can stand in one. -/
theorem not_mem_of_isLineByte (lineBytes : ∀ c ∈ line, isLineByte c = true) :
    lf ∉ line := by
  intro member
  exact (ne_of_isLineByte (lineBytes lf member)).1 rfl

section Chunks

variable
    {protoData : HttpProtoData}
    {callback : RequestView → Bytes → Reaction}

/--
At a chunk-size line that was read as a number of bytes that are there: the
callback is shown them, and the parser is at what follows the next `CRLF`.
-/
theorem bodyLoop_chunk (obliges : Obliges protoData callback)
    {exchange : HttpExchange}
    (ready : AtHeader exchange)
    {line data skipped : Bytes}
    (noFeed : lf ∉ line)
    (some : data ≠ [])
    (sized : lineNumber 0 line = data.length)
    (noFeedSkipped : lf ∉ skipped)
    (state : ReadState) :
    ∃ after later,
      AtHeader after ∧ shownBody later = shownBody state ++ data ∧
        ∀ fuel drift count rest,
          bodyLoop (bodyCb protoData) (fuel + 3) state exchange
              ((line ++ crlf ++
                  (data ++ (skipped ++ crlf ++ rest))).length +
                drift)
              count
              (line ++ crlf ++ (data ++ (skipped ++ crlf ++ rest))) =
            bodyLoop (bodyCb protoData) fuel later after
              (rest.length + (drift + 2))
              (count + (line ++ crlf ++ data ++ skipped ++ crlf).length)
              rest := by
  have obliging := bodyCb_obliging obliges
  have left : data.length ≠ 0 := by
    intro none
    exact some (List.length_eq_zero_iff.mp none)
  let inside := afterSize exchange data.length
  rcases afterSize_of_ne exchange left with ⟨inBody, remain⟩
  change inside.state = .body at inBody
  change inside.bodyRemain = data.length at remain
  let taken := bodyCb protoData state inside data
  have place :
      placeOf (bodyTaken taken.2.1 data.length) =
        { state := .bodyChunkTrailer
          nextState := .bodyChunkHeader
          bodyRemain := 0
          chunked := true } := by
    have chunked : inside.request.flags.requestChunked = true := by
      unfold inside afterSize
      rw [if_pos left]
      exact ready.chunked
    rw [placeOf_bodyTaken, obliging.placeOf]
    unfold BodyPlace.taken placeOf
    dsimp only
    rw [remain, Nat.sub_self, if_pos rfl, chunked, if_pos rfl]
  refine
    ⟨{ bodyTaken taken.2.1 data.length with
        state := (bodyTaken taken.2.1 data.length).nextState },
      taken.2.2, ?_, shownBody_bodyCb obliges.supplied state inside data, ?_⟩
  · constructor
    · exact congrArg BodyPlace.nextState place
    · exact congrArg BodyPlace.bodyRemain place
    · exact congrArg BodyPlace.chunked place
  · intro fuel drift count rest
    have whole :=
      bodyLoop_whole obliging inBody
        (by rw [remain]; exact left)
        (data ++ (skipped ++ crlf ++ rest)) (drift + 1)
        (by rw [remain, List.length_append]; omega)
        (by rw [remain, List.length_append]; omega)
        (fuel + 1) state (count + line.length + 2)
    dsimp only at whole
    rw [remain, List.take_left' rfl, List.drop_left' rfl] at whole
    rw [bodyLoop_size ready noFeed (fuel + 2), sized]
    refine whole.trans ?_
    rw [bodyLoop_trailer (congrArg BodyPlace.state place) noFeedSkipped]
    have total :
        count + line.length + 2 + data.length + skipped.length + 2 =
          count + (line ++ crlf ++ data ++ skipped ++ crlf).length := by
      simp only [List.length_append]
      rw [show crlf.length = 2 from rfl]
      omega
    rw [total]

/-- The chunks of a body whose sizes are read as they are. -/
theorem bodyLoop_chunks (obliges : Obliges protoData callback)
    {chunks : List Chunk}
    (plain : ∀ chunk ∈ chunks, chunk.line.Plain)
    {exchange : HttpExchange}
    (ready : AtHeader exchange)
    (state : ReadState) :
    ∃ after later,
      AtHeader after ∧
        shownBody later = shownBody state ++ chunks.flatMap Chunk.data ∧
        ∀ fuel drift count rest,
          bodyLoop (bodyCb protoData) (fuel + 3 * chunks.length) state
              exchange
              ((chunks.flatMap Chunk.bytes ++ rest).length + drift) count
              (chunks.flatMap Chunk.bytes ++ rest) =
            bodyLoop (bodyCb protoData) fuel later after
              (rest.length + (drift + 2 * chunks.length))
              (count + (chunks.flatMap Chunk.bytes).length) rest := by
  induction chunks generalizing exchange state with
  | nil =>
      refine ⟨exchange, state, ready, (List.append_nil _).symm, ?_⟩
      intro fuel drift count rest
      rfl
  | cons chunk chunks ih =>
      have sized : lineNumber 0 chunk.line.bytes = chunk.data.length := by
        have fits : chunk.line.size < sizeModulus := by
          rw [chunk.sized]
          exact chunk.fits
        rw [← chunk.sized]
        exact (lineNumber_iff_plain fits).mpr (plain chunk List.mem_cons_self)
      rcases
          bodyLoop_chunk obliges ready
            (not_mem_of_isLineByte chunk.line.isLineByte) chunk.nonempty
            sized (List.not_mem_nil : lf ∉ []) state
        with ⟨between, shown, readyAgain, first, head⟩
      rcases
          ih
            (fun other member =>
              plain other (List.mem_cons_of_mem chunk member))
            readyAgain shown
        with ⟨after, later, readyAfter, second, tail⟩
      refine ⟨after, later, readyAfter, ?_, ?_⟩
      · rw [second, first, List.flatMap_cons, List.append_assoc]
      · intro fuel drift count rest
        have chunkEq :
            chunk.line.bytes ++ crlf ++ chunk.data ++ [] ++ crlf =
              chunk.bytes := by
          rw [List.append_nil, Chunk.bytes]
        have bytesEq :
            (chunk :: chunks).flatMap Chunk.bytes ++ rest =
              chunk.line.bytes ++ crlf ++
                (chunk.data ++
                  ([] ++ crlf ++ (chunks.flatMap Chunk.bytes ++ rest))) := by
          simp [Chunk.bytes]
        rw [bytesEq, List.length_cons,
          show fuel + 3 * (chunks.length + 1) =
            fuel + 3 * chunks.length + 3 by omega,
          head, tail, chunkEq,
          show
            rest.length + (drift + 2 + 2 * chunks.length) =
              rest.length + (drift + 2 * (chunks.length + 1)) by
            omega,
          List.flatMap_cons, List.length_append, Nat.add_assoc]

/-- The end of a body whose last line is read as it is, without trailers. -/
theorem bodyLoop_end (protoData : HttpProtoData) {bodyEnd : BodyEnd}
    (plain : bodyEnd.line.Plain)
    (noTrailer : bodyEnd.trailer = [])
    {exchange : HttpExchange}
    (ready : AtHeader exchange)
    (state : ReadState) :
    ∃ after,
      after.state = .complete ∧
        ∀ fuel drift count rest,
          bodyLoop (bodyCb protoData) (fuel + 3) state exchange
              ((bodyEnd.bytes ++ rest).length + drift) count
              (bodyEnd.bytes ++ rest) =
            (.took (count + bodyEnd.bytes.length) after, state) := by
  have number : lineNumber 0 bodyEnd.line.bytes = 0 := by
    have fits : bodyEnd.line.size < sizeModulus := by
      rw [bodyEnd.zero]
      decide
    rw [(lineNumber_iff_plain fits).mpr plain, bodyEnd.zero]
  have trailer : (afterSize exchange 0).state = .bodyChunkTrailer := rfl
  refine
    ⟨{ afterSize exchange 0 with
        state := (afterSize exchange 0).nextState }, rfl, ?_⟩
  intro fuel drift count rest
  have bytesEq :
      bodyEnd.bytes ++ rest =
        bodyEnd.line.bytes ++ crlf ++ ([] ++ crlf ++ rest) := by
    simp [BodyEnd.bytes, noTrailer]
  have total : bodyEnd.bytes.length = bodyEnd.line.bytes.length + 4 := by
    simp [BodyEnd.bytes, noTrailer, crlf]
  rw [bytesEq,
    bodyLoop_size ready (not_mem_of_isLineByte bodyEnd.line.isLineByte),
    number, bodyLoop_trailer trailer List.not_mem_nil,
    bodyLoop_complete rfl, total]
  rfl

end Chunks

/-! ## Sizes that are read as something else -/

section Converse

variable
    {protoData : HttpProtoData}
    {callback : RequestView → Bytes → Reaction}

/-- A parser that returned does so with more fuel. -/
theorem bodyLoop_more {exchange : HttpExchange} {len count : Nat}
    {memory : Bytes}
    {taken : Nat}
    (took :
      bodyLoop (bodyCb protoData) fuel state exchange len count memory =
        (.took taken after, final))
    (more : Nat) :
    bodyLoop (bodyCb protoData) (fuel + more) state exchange len count
        memory =
      (.took taken after, final) := by
  apply loop_more took
  intro last same
  cases same

/-- In a piece of the body the callback is shown what there is of it. -/
theorem shown_of_body
    (obliges : Obliges protoData callback)
    {exchange : HttpExchange}
    (inBody : exchange.state = .body)
    (remains : exchange.bodyRemain ≠ 0)
    {len count : Nat}
    {memory : Bytes}
    {taken : Nat}
    (took :
      bodyLoop (bodyCb protoData) fuel state exchange len count memory =
        (.took taken after, final)) :
    ∃ more,
      shownBody final =
        shownBody state ++
          (memory.take (min len exchange.bodyRemain) ++ more) := by
  rcases fuel with _ | fuel
  · cases took
  by_cases readable : min len exchange.bodyRemain ≤ memory.length
  · have piece :=
      bodyLoop_piece inBody remains len memory readable
        ((bodyCb_obliging obliges).eq state exchange
          (memory.take (min len exchange.bodyRemain)))
        fuel count
    have first :=
      shownBody_bodyCb obliges.supplied state exchange
        (memory.take (min len exchange.bodyRemain))
    rw [piece] at took
    split at took
    · cases took
      exact ⟨[], by rw [List.append_nil]; exact first⟩
    · have later :=
        shownBody_extends obliges fuel
          (bodyCb protoData state exchange
            (memory.take (min len exchange.bodyRemain))).2.2
          (bodyTaken
            (bodyCb protoData state exchange
              (memory.take (min len exchange.bodyRemain))).2.1
            exchange.bodyRemain)
          (len - exchange.bodyRemain) (count + exchange.bodyRemain)
          (memory.drop exchange.bodyRemain)
      rw [took, first] at later
      rcases later with ⟨more, shown⟩
      exact ⟨more, by rw [shown, List.append_assoc]⟩
  · rw [bodyLoop_unreadable inBody remains (Nat.lt_of_not_le readable)] at took
    cases took

/-- Only zeros were shown, so no other byte was. -/
theorem eq_zero_of_shown {before final : ReadState} {zeros : Nat}
    (shown : shownBody final = shownBody before ++ List.replicate zeros 0)
    {piece : Bytes}
    (prefix_ : ∃ more, shownBody final = shownBody before ++ (piece ++ more))
    {c : UInt8}
    (member : c ∈ piece) :
    c = 0 := by
  rcases prefix_ with ⟨more, whole⟩
  have same := List.append_cancel_left (whole.symm.trans shown)
  have inside : c ∈ List.replicate zeros 0 := by
    rw [← same]
    exact List.mem_append_left more member
  exact List.eq_of_mem_replicate inside

/-- The first byte behind the last chunk's line is no zero. -/
theorem trailer_cons (bodyEnd : BodyEnd) :
    ∃ c rest,
      bodyEnd.trailer.flatMap (fun field => field.line ++ crlf) ++ crlf =
          c :: rest ∧
        c ≠ 0 := by
  cases bodyEnd.trailer with
  | nil => exact ⟨cr, [lf], rfl, by decide⟩
  | cons field fields =>
      rcases name : field.name.bytes with _ | ⟨c, others⟩
      · exact absurd name field.name.nonempty
      · have first : c ∈ field.name.bytes := by
          rw [name]
          exact List.mem_cons_self
        have lineByte := field.name.isLineByte c first
        refine
          ⟨c,
            others ++ colon :: field.value ++ crlf ++
              fields.flatMap (fun field => field.line ++ crlf) ++ crlf,
            ?_, (ne_of_isLineByte lineByte).2.2⟩
        rw [List.flatMap_cons, TrailerField.line, name]
        rfl

/-- The end of a body that was taken as a whole, with zeros shown at most. -/
theorem end_plain_of_took
    (obliges : Obliges protoData callback)
    {bodyEnd : BodyEnd}
    {exchange : HttpExchange}
    (ready : AtHeader exchange)
    {drift count : Nat}
    (took :
      bodyLoop (bodyCb protoData) fuel state exchange
          (bodyEnd.bytes.length + drift) count bodyEnd.bytes =
        (.took (count + bodyEnd.bytes.length) after, final))
    {zeros : Nat}
    (shown : shownBody final = shownBody state ++ List.replicate zeros 0) :
    zeros = 0 ∧ bodyEnd.line.Plain ∧ bodyEnd.trailer = [] := by
  have enough := bodyLoop_more took 3
  let rest := bodyEnd.trailer.flatMap (fun field => field.line ++ crlf) ++ crlf
  have bytesEq : bodyEnd.bytes = bodyEnd.line.bytes ++ crlf ++ rest :=
    List.append_assoc _ _ _
  have total :
      (bodyEnd.line.bytes ++ crlf ++ rest).length =
        bodyEnd.line.bytes.length + 2 + rest.length := by
    rw [List.length_append, List.length_append]
    rfl
  have fits : bodyEnd.line.size < sizeModulus := by
    rw [bodyEnd.zero]
    decide
  rw [bytesEq,
    bodyLoop_size ready (not_mem_of_isLineByte bodyEnd.line.isLineByte),
    total]
    at enough
  by_cases number : lineNumber 0 bodyEnd.line.bytes = 0
  · rw [number] at enough
    have trailer : (afterSize exchange 0).state = .bodyChunkTrailer := rfl
    rcases fields : bodyEnd.trailer with _ | ⟨field, others⟩
    · have restEq : rest = [] ++ crlf ++ [] := by
        unfold rest
        rw [fields]
        rfl
      rw [restEq, bodyLoop_trailer trailer List.not_mem_nil,
        bodyLoop_complete rfl] at enough
      cases enough
      have none := List.append_cancel_left
        ((List.append_nil (shownBody state)).trans shown)
      refine ⟨?_, (lineNumber_iff_plain fits).mp ?_, rfl⟩
      · have length := congrArg List.length none
        rw [List.length_replicate] at length
        exact length.symm
      · rw [number, bodyEnd.zero]
    · -- The first trailer line ends the body too early.
      let later := others.flatMap (fun field => field.line ++ crlf) ++ crlf
      have restEq : rest = field.line ++ crlf ++ later := by
        unfold rest later
        rw [fields, List.flatMap_cons, List.append_assoc]
      have laterLength : 2 ≤ later.length := by
        unfold later
        rw [List.length_append]
        exact Nat.le_add_left 2 _
      have restLength :
          (field.line ++ crlf ++ later).length =
            field.line.length + 2 + later.length := by
        rw [List.length_append, List.length_append]
        rfl
      rw [restEq,
        bodyLoop_trailer trailer (not_mem_of_isLineByte field.isLineByte),
        bodyLoop_complete rfl, restLength, Prod.mk.injEq,
        Parsed.took.injEq] at enough
      omega
  · exfalso
    rcases afterSize_of_ne exchange number with ⟨inBody, remain⟩
    have piece :=
      shown_of_body obliges inBody (by rw [remain]; exact number) enough
    rcases trailer_cons bodyEnd with ⟨c, others, restEq, notZero⟩
    apply notZero
    apply eq_zero_of_shown shown piece
    have some :
        min (rest.length + (drift + 1))
            (afterSize exchange (lineNumber 0 bodyEnd.line.bytes)).bodyRemain =
          min (rest.length + drift)
              (lineNumber 0 bodyEnd.line.bytes - 1) + 1 := by
      rw [remain]
      omega
    rw [some, show rest = c :: others from restEq, List.take_succ_cons]
    exact List.mem_cons_self

/--
Chunks of zeros and the end of a body that were taken as a whole, with zeros
shown at most: no more zeros were shown than there are, and with as many of them
every line was read as the size it announces.
-/
theorem plain_of_took
    (obliges : Obliges protoData callback)
    {chunks : List Chunk}
    (empty : ∀ chunk ∈ chunks, chunk.data = List.replicate chunk.data.length 0)
    {bodyEnd : BodyEnd}
    {exchange : HttpExchange}
    (ready : AtHeader exchange)
    {fuel : Nat}
    {state : ReadState}
    {drift count : Nat}
    {after : HttpExchange}
    {final : ReadState}
    (took :
      bodyLoop (bodyCb protoData) fuel state exchange
          ((chunks.flatMap Chunk.bytes ++ bodyEnd.bytes).length + drift)
          count (chunks.flatMap Chunk.bytes ++ bodyEnd.bytes) =
        (.took
            (count + (chunks.flatMap Chunk.bytes ++ bodyEnd.bytes).length)
            after,
          final))
    {zeros : Nat}
    (shown : shownBody final = shownBody state ++ List.replicate zeros 0) :
    zeros ≤ (chunks.flatMap Chunk.data).length ∧
      (zeros = (chunks.flatMap Chunk.data).length →
        ({ chunks := chunks, bodyEnd := bodyEnd } : ChunkedBody).Plain) := by
  induction chunks generalizing fuel state exchange drift count zeros with
  | nil =>
      rcases end_plain_of_took obliges ready took shown with
        ⟨none, last, noTrailer⟩
      refine ⟨Nat.le_of_eq none, fun _ => ⟨?_, last, noTrailer⟩⟩
      intro chunk member
      cases member
  | cons chunk chunks ih =>
      have enough := bodyLoop_more took 3
      have noFeed := not_mem_of_isLineByte chunk.line.isLineByte
      have zeroData := empty chunk List.mem_cons_self
      have noFeedData : lf ∉ chunk.data := by
        rw [zeroData]
        intro member
        cases List.eq_of_mem_replicate member
      let rest := chunks.flatMap Chunk.bytes ++ bodyEnd.bytes
      have bytesEq :
          (chunk :: chunks).flatMap Chunk.bytes ++ bodyEnd.bytes =
            chunk.line.bytes ++ crlf ++ (chunk.data ++ crlf ++ rest) := by
        simp [Chunk.bytes, rest]
      have total :
          (chunk.line.bytes ++ crlf ++
              (chunk.data ++ crlf ++ rest)).length =
            chunk.line.bytes.length + 2 + (chunk.data.length + 2 +
              rest.length) := by
        simp only [List.length_append]
        rfl
      have restLength : 2 ≤ rest.length := by
        unfold rest BodyEnd.bytes
        rw [List.length_append, List.length_append]
        rw [show crlf.length = 2 from rfl]
        omega
      rw [bytesEq] at enough
      by_cases number : lineNumber 0 chunk.line.bytes = 0
      · -- The body is over at the end of this chunk.
        have trailer : (afterSize exchange 0).state = .bodyChunkTrailer := rfl
        rw [bodyLoop_size ready noFeed, total, number,
          bodyLoop_trailer trailer noFeedData, bodyLoop_complete rfl,
          Prod.mk.injEq, Parsed.took.injEq] at enough
        omega
      by_cases inside : lineNumber 0 chunk.line.bytes ≤ chunk.data.length
      · -- The parser is at the next line, with as many zeros shown.
        let data := chunk.data.take (lineNumber 0 chunk.line.bytes)
        let skipped := chunk.data.drop (lineNumber 0 chunk.line.bytes)
        have split : chunk.data = data ++ skipped :=
          (List.take_append_drop _ _).symm
        have dataLength : lineNumber 0 chunk.line.bytes = data.length :=
          (List.length_take_of_le inside).symm
        rcases
            bodyLoop_chunk obliges ready noFeed
              (show data ≠ [] by
                intro none
                rw [none] at dataLength
                exact number dataLength)
              dataLength
              (show lf ∉ skipped from
                fun member => noFeedData (List.mem_of_mem_drop member))
              state
          with ⟨between, later, readyAgain, first, head⟩
        have shape :
            chunk.line.bytes ++ crlf ++ (chunk.data ++ crlf ++ rest) =
              chunk.line.bytes ++ crlf ++
                (data ++ (skipped ++ crlf ++ rest)) := by
          rw [split]
          simp only [List.append_assoc]
        have counted :
            count +
                (chunk.line.bytes ++ crlf ++
                  (chunk.data ++ crlf ++ rest)).length =
              count +
                  (chunk.line.bytes ++ crlf ++ data ++ skipped ++
                    crlf).length +
                rest.length := by
          rw [shape]
          simp only [List.length_append]
          omega
        rw [counted, shape, head] at enough
        have extended :=
          shownBody_extends obliges fuel later between
            (rest.length + (drift + 2))
            (count +
              (chunk.line.bytes ++ crlf ++ data ++ skipped ++ crlf).length)
            rest
        rw [enough] at extended
        rcases extended with ⟨more, whole⟩
        have same :=
          List.append_cancel_left
            ((List.append_assoc _ _ _).symm.trans
              ((congrArg (· ++ more) first).symm.trans
                (whole.symm.trans shown)))
        rcases List.append_eq_replicate_iff.mp same with
          ⟨lengths, -, moreEq⟩
        rw [moreEq] at whole
        rcases
            ih
              (fun other member =>
                empty other (List.mem_cons_of_mem chunk member))
              readyAgain enough whole
          with ⟨atMost, exactly⟩
        rw [List.flatMap_cons, List.length_append]
        refine ⟨by omega, ?_⟩
        intro all
        have plain := exactly (by omega)
        refine ⟨?_, plain.last, plain.trailer⟩
        intro other member
        rcases List.mem_cons.mp member with rfl | others
        · have fits : other.line.size < sizeModulus := by
            rw [other.sized]
            exact other.fits
          apply (lineNumber_iff_plain fits).mp
          rw [other.sized]
          omega
        · exact plain.chunks other others
      · -- The callback is shown the line end behind the data.
        exfalso
        rcases afterSize_of_ne exchange number with ⟨inBody, remain⟩
        rw [bodyLoop_size ready noFeed] at enough
        have piece :=
          shown_of_body obliges inBody
            (by rw [remain]; exact number) enough
        have notZero : cr ≠ 0 := by decide
        apply notZero
        apply eq_zero_of_shown shown piece
        rw [remain]
        apply List.mem_of_getElem? (i := chunk.data.length)
        rw [List.getElem?_take_of_lt, List.append_assoc,
          List.getElem?_append_right (Nat.le_refl _), Nat.sub_self]
        · rfl
        · rw [List.length_append, List.length_append,
            show crlf.length = 2 from rfl]
          omega

end Converse

/-! ## Decoding -/

/--
The body is decoded: the parser takes exactly its bytes, is then complete, and
has shown the callback the data of the chunks.
-/
def Decoded (protoData : HttpProtoData) (exchange : HttpExchange)
    (body : ChunkedBody)
    (further : Bytes) : Prop :=
  ∀ state, ∃ after later,
    ymoParseHttpBody (bodyCb protoData) state exchange
        (body.bytes ++ further) (body.bytes ++ further).length =
      (.took body.bytes.length after, later) ∧
      after.state = .complete ∧
        shownBody later = shownBody state ++ body.data

/-- What was read is refused with an error. -/
def Rejected (protoData : HttpProtoData) (exchange : HttpExchange)
    (buffer : Bytes) : Prop :=
  ∀ state, ∃ errno after later,
    ymoParseHttpBody (bodyCb protoData) state exchange buffer
        buffer.length =
      (.failed errno after, later)

section Decoding

variable
    {protoData : HttpProtoData}
    {callback : RequestView → Bytes → Reaction}
    {exchange : HttpExchange}

theorem decoded_of_plain (obliges : Obliges protoData callback)
    (ready : AtHeader exchange)
    {body : ChunkedBody}
    (plain : body.Plain)
    (further : Bytes) :
    Decoded protoData exchange body further := by
  intro state
  rcases bodyLoop_chunks obliges plain.chunks ready state with
    ⟨between, later, readyAgain, shown, chunks⟩
  rcases bodyLoop_end protoData plain.last plain.trailer readyAgain later
    with ⟨after, complete, ended⟩
  refine ⟨after, later, ?_, complete, shown⟩
  have short := length_chunks body.chunks
  let memory := body.bytes ++ further
  let spare := 2 * memory.length - 3 * body.chunks.length
  have long : (body.chunks.flatMap Chunk.bytes).length ≤ memory.length := by
    unfold memory ChunkedBody.bytes
    rw [List.length_append, List.length_append]
    omega
  have whole := chunks (spare + 3) 0 0 (body.bodyEnd.bytes ++ further)
  rw [ended, ← List.append_assoc, Nat.zero_add, ← List.length_append] at whole
  have fuelEq :
      2 * memory.length + 3 = spare + 3 + 3 * body.chunks.length := by
    unfold spare
    omega
  unfold ymoParseHttpBody
  rw [show
      2 * (body.bytes ++ further).length + 3 =
        spare + 3 + 3 * body.chunks.length from fuelEq]
  exact whole

theorem plain_of_decoded (obliges : Obliges protoData callback)
    (ready : AtHeader exchange)
    {body : ChunkedBody}
    (decoded : Decoded protoData exchange body.zeroed []) :
    body.Plain := by
  let start : ReadState := { error := false, effects := [] }
  rcases decoded start with ⟨after, final, took, -, shown⟩
  have empty :
      ∀ chunk ∈ body.zeroed.chunks,
        chunk.data = List.replicate chunk.data.length 0 := by
    intro chunk member
    rcases List.mem_map.mp member with ⟨original, -, rfl⟩
    unfold Chunk.zeroed
    dsimp only
    rw [List.length_replicate]
  have zeros :
      body.zeroed.data = List.replicate body.zeroed.data.length 0 := by
    apply List.eq_replicate_of_mem
    intro c member
    rcases List.mem_flatMap.mp member with ⟨chunk, inside, inData⟩
    rw [empty chunk inside] at inData
    exact List.eq_of_mem_replicate inData
  rw [zeros] at shown
  rw [List.append_nil] at took
  have whole :
      bodyLoop (bodyCb protoData)
          (2 * body.zeroed.bytes.length + 3) start exchange
          (body.zeroed.bytes.length + 0) 0
          body.zeroed.bytes =
        (.took (0 + body.zeroed.bytes.length) after, final) := by
    rw [Nat.zero_add]
    exact took
  have plain := (plain_of_took obliges empty ready whole shown).2 rfl
  exact plain.of_framing_eq body.framing_zeroed.symm

/--
The bodies of one framing, whatever their data and whatever follows them, are
decoded exactly when their lines are plain and there is no trailer field; and no
malformed chunk-size line is rejected.
-/
theorem chunked_decoded (supplied : protoData.bodyCb = some callback)
    (okay : ∀ view data, (callback view data).status = .okay)
    (ready : AtHeader exchange) :
    (∀ body : ChunkedBody,
      (∀ other : ChunkedBody, other.framing = body.framing →
        ∀ further, Decoded protoData exchange other further) ↔
        body.Plain) ∧
      ∀ line, MalformedSize line →
        ∀ further,
          ¬ Rejected protoData exchange (line ++ crlf ++ further) := by
  constructor
  · intro body
    constructor
    · intro decoded
      exact
        plain_of_decoded ⟨supplied, okay⟩ ready
          (decoded _ body.framing_zeroed [])
    · intro plain other same further
      exact
        decoded_of_plain ⟨supplied, okay⟩ ready (plain.of_framing_eq same)
          further
  · intro line _ further rejected
    rcases rejected { error := false, effects := [] } with
      ⟨errno, after, later, failed⟩
    exact not_failed ⟨supplied, okay⟩ _ exchange _ _ errno after later failed

end Decoding

theorem atHeader_afterHead : AtHeader (readyExchange afterHead) :=
  ⟨by decide, by decide, by decide⟩

theorem chunked_decoded_afterHead :
    (∀ body : ChunkedBody,
      (∀ other : ChunkedBody, other.framing = body.framing →
        ∀ further,
          Decoded takingApplication (readyExchange afterHead) other further) ↔
        body.Plain) ∧
      ∀ line, MalformedSize line →
        ∀ further,
          ¬ Rejected takingApplication (readyExchange afterHead)
            (line ++ crlf ++ further) :=
  chunked_decoded rfl (fun _ _ => rfl) atHeader_afterHead

/-- `0`, a trailer field `A: b`, and the empty line. -/
def trailerBody : ChunkedBody where
  chunks := []
  bodyEnd :=
    { line :=
        { digits := bytes "0", extensions := []
          nonempty := by decide, hex := by decide }
      zero := by decide
      trailer :=
        [{ name :=
            { bytes := bytes "A"
              nonempty := by decide, tchars := by decide }
           value := bytes " b", lineBytes := by decide }] }

/-- A trailer field is left to the next request, and `zz` is a size. -/
theorem not_decoded_trailer :
    Reachable takingApplication afterHead ∧
      ¬ Decoded takingApplication (readyExchange afterHead) trailerBody
        [] ∧
        MalformedSize (bytes "zz") ∧
          ¬ Rejected takingApplication (readyExchange afterHead)
            (bytes "zz" ++ crlf) := by
  refine ⟨.read .fresh false (by decide) (by decide), ?_, ?_, ?_⟩
  · intro decoded
    have plain : trailerBody.Plain :=
      plain_of_decoded ⟨rfl, fun _ _ => rfl⟩ atHeader_afterHead decoded
    cases plain.trailer
  · exact Or.inl (by decide)
  · intro rejected
    rcases rejected { error := false, effects := [] } with
      ⟨errno, after, later, failed⟩
    exact not_failed ⟨rfl, fun _ _ => rfl⟩ _ _ _ _ errno after later failed

end Yimmo.Http.ChunkedDecoding
