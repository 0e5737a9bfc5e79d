import Yimmo.Http.ReadProgress

/-!
# The body parser, byte by byte

The body parser moves through a body by bytes, except that body bytes go to the
callback in pieces as long as the read allows.  This module describes the place
in a body by what the parser keeps of it, and unrolls the loop of
`ymo_parse_http_body` by the byte or the piece at its front.

The parser's own count of what is left of the read, `len`, is not decremented
for a line feed.  `drift` is by how much it exceeds what is left.
-/

namespace Yimmo.Http.BodyScan

open Yimmo.Core.StatusCode
open Yimmo.Lib.TurnLoop
open Yimmo.Http.Exchange
open Yimmo.Http.Parse
open Yimmo.Http.Reader

variable {data : Bytes}

/-! ## Places in a body -/

/-- What the parser keeps of its place in a body. -/
structure BodyPlace where
  state : HttpState
  nextState : HttpState
  bodyRemain : Nat
  chunked : Bool
deriving DecidableEq, Repr

def placeOf (exchange : HttpExchange) : BodyPlace where
  state := exchange.state
  nextState := exchange.nextState
  bodyRemain := exchange.bodyRemain
  chunked := exchange.request.flags.requestChunked

namespace BodyPlace

/-- The body has come to its end. -/
def finished (place : BodyPlace) : Bool :=
  match place.state with
  | .bodyChunkHeader => false
  | .bodyChunkTrailer => false
  | .body => place.bodyRemain == 0
  | _ => true

/-- The place is in a line of the chunked coding. -/
def inLine (place : BodyPlace) : Bool :=
  match place.state with
  | .bodyChunkHeader => true
  | .bodyChunkTrailer => true
  | _ => false

/-- The place after body bytes. -/
def taken (place : BodyPlace) (count : Nat) : BodyPlace :=
  let bodyRemain := place.bodyRemain - count
  if bodyRemain = 0 then
    if place.chunked then
      { place with
        bodyRemain := bodyRemain
        state := .bodyChunkTrailer
        nextState := .bodyChunkHeader }
    else { place with bodyRemain := bodyRemain, state := place.nextState }
  else { place with bodyRemain := bodyRemain }

/-- The place after a line feed in a line. -/
def lineFed (place : BodyPlace) : BodyPlace :=
  match place.state with
  | .bodyChunkHeader =>
      if place.bodyRemain ≠ 0 then
        { place with state := .body, nextState := .bodyChunkTrailer }
      else { place with state := .bodyChunkTrailer, nextState := .complete }
  | _ => { place with state := place.nextState }

/-- The place after another byte of a line. -/
def lineByte (place : BodyPlace) (c : UInt8) : BodyPlace :=
  match place.state with
  | .bodyChunkHeader =>
      if c = cr then place
      else { place with bodyRemain := chunkDigit place.bodyRemain c }
  | _ => place

/-- The place after a byte. -/
def next (place : BodyPlace) (c : UInt8) : BodyPlace :=
  match place.state with
  | .body => place.taken 1
  | .bodyChunkHeader => if c = lf then place.lineFed else place.lineByte c
  | .bodyChunkTrailer => if c = lf then place.lineFed else place.lineByte c
  | _ => place

/-- The body ends within the bytes. -/
def bodyEnds (place : BodyPlace) : Bytes → Bool
  | [] => place.finished
  | c :: rest => place.finished || (place.next c).bodyEnds rest

/-- A line of the chunked coding ends within the bytes. -/
def lineEnds (place : BodyPlace) : Bytes → Bool
  | [] => false
  | c :: rest => place.inLine && c == lf || (place.next c).lineEnds rest

end BodyPlace

section Place

variable {place : BodyPlace}

theorem next_of_body (inBody : place.state = .body) (c : UInt8) :
    place.next c = place.taken 1 := by
  unfold BodyPlace.next
  rw [inBody]

theorem next_of_lf (inLine : place.inLine = true) :
    place.next lf = place.lineFed := by
  unfold BodyPlace.inLine at inLine
  unfold BodyPlace.next
  cases state : place.state <;> rw [state] at inLine <;>
    first
      | rfl
      | cases inLine

theorem next_of_inLine (inLine : place.inLine = true) {c : UInt8}
    (noFeed : c ≠ lf) :
    place.next c = place.lineByte c := by
  unfold BodyPlace.inLine at inLine
  unfold BodyPlace.next
  cases state : place.state <;> rw [state] at inLine <;>
    first
      | exact if_neg noFeed
      | cases inLine

theorem lineByte_state (place : BodyPlace) (c : UInt8) :
    (place.lineByte c).state = place.state := by
  unfold BodyPlace.lineByte
  split
  · split_ifs
    · rfl
    · rfl
  · rfl

theorem inLine_lineByte (place : BodyPlace) (c : UInt8) :
    (place.lineByte c).inLine = place.inLine := by
  unfold BodyPlace.inLine
  rw [lineByte_state]

theorem over_of_body (inBody : place.state = .body)
    (left : place.bodyRemain ≠ 0) :
    place.finished = false := by
  unfold BodyPlace.finished
  rw [inBody]
  exact beq_false_of_ne left

theorem inLine_of_body (inBody : place.state = .body) :
    place.inLine = false := by
  unfold BodyPlace.inLine
  rw [inBody]

theorem taken_of_lt {count : Nat} (more : count < place.bodyRemain) :
    place.taken count =
      { place with bodyRemain := place.bodyRemain - count } := by
  unfold BodyPlace.taken
  dsimp only
  rw [if_neg]
  omega

/-- Body bytes are taken one by one or all at once. -/
theorem taken_taken {first second : Nat} (more : first < place.bodyRemain) :
    (place.taken first).taken second = place.taken (first + second) := by
  rw [taken_of_lt more]
  unfold BodyPlace.taken
  dsimp only
  rw [Nat.sub_sub]

theorem bodyEnds_cons (running : place.finished = false) (c : UInt8)
    (rest : Bytes) :
    place.bodyEnds (c :: rest) = (place.next c).bodyEnds rest := by
  rw [BodyPlace.bodyEnds, running, Bool.false_or]

/-- Body bytes that do not exceed what is left of the piece. -/
theorem bodyEnds_taken (inBody : place.state = .body) (some : data ≠ [])
    (fits : data.length ≤ place.bodyRemain)
    (rest : Bytes) :
    place.bodyEnds (data ++ rest) =
      (place.taken data.length).bodyEnds rest := by
  induction data generalizing place with
  | nil => exact absurd rfl some
  | cons c later ih =>
      rw [List.length_cons] at fits ⊢
      have running := over_of_body inBody (by omega)
      rw [List.cons_append, bodyEnds_cons running, next_of_body inBody]
      rcases later with _ | ⟨d, others⟩
      · rfl
      · rw [List.length_cons] at fits
        have more : 1 < place.bodyRemain := by omega
        rw [ih, taken_taken more, Nat.add_comm 1]
        · rw [taken_of_lt more]
          exact inBody
        · exact List.cons_ne_nil d others
        · rw [taken_of_lt more, List.length_cons]
          dsimp only
          omega

theorem lineEnds_taken (inBody : place.state = .body) (some : data ≠ [])
    (fits : data.length ≤ place.bodyRemain)
    (rest : Bytes) :
    place.lineEnds (data ++ rest) =
      (place.taken data.length).lineEnds rest := by
  induction data generalizing place with
  | nil => exact absurd rfl some
  | cons c later ih =>
      rw [List.length_cons] at fits ⊢
      rw [List.cons_append, BodyPlace.lineEnds, inLine_of_body inBody,
        Bool.false_and, Bool.false_or, next_of_body inBody]
      rcases later with _ | ⟨d, others⟩
      · rfl
      · rw [List.length_cons] at fits
        have more : 1 < place.bodyRemain := by omega
        rw [ih, taken_taken more, Nat.add_comm 1]
        · rw [taken_of_lt more]
          exact inBody
        · exact List.cons_ne_nil d others
        · rw [taken_of_lt more, List.length_cons]
          dsimp only
          omega

/-- Fewer bytes than are left of the piece do not end anything. -/
theorem bodyEnds_of_lt (inBody : place.state = .body)
    (more : data.length < place.bodyRemain) :
    place.bodyEnds data = false ∧ place.lineEnds data = false := by
  rcases data with _ | ⟨c, later⟩
  · rw [List.length_nil] at more
    exact ⟨over_of_body inBody (by omega), rfl⟩
  · have some : c :: later ≠ [] := List.cons_ne_nil c later
    have ends := bodyEnds_taken inBody some (Nat.le_of_lt more) []
    have lines := lineEnds_taken inBody some (Nat.le_of_lt more) []
    rw [List.append_nil] at ends lines
    rw [ends, lines, taken_of_lt more]
    refine ⟨?_, rfl⟩
    exact over_of_body inBody (by dsimp only; omega)

theorem bodyEnds_of_over (ended : place.finished = true) (data : Bytes) :
    place.bodyEnds data = true := by
  rcases data with _ | ⟨c, later⟩
  · exact ended
  · rw [BodyPlace.bodyEnds, ended, Bool.true_or]

end Place

/-! ## The parser, unrolled -/

/-- The exchange after a line feed in a line of the chunked coding. -/
def lineFed (exchange : HttpExchange) : HttpExchange :=
  match exchange.state with
  | .bodyChunkHeader =>
      if exchange.bodyRemain ≠ 0 then
        { exchange with state := .body, nextState := .bodyChunkTrailer }
      else { exchange with state := .bodyChunkTrailer, nextState := .complete }
  | _ => { exchange with state := exchange.nextState }

/-- The exchange after another byte of a line. -/
def lineByte (exchange : HttpExchange) (c : UInt8) : HttpExchange :=
  match exchange.state with
  | .bodyChunkHeader =>
      if c = cr then exchange
      else { exchange with bodyRemain := chunkDigit exchange.bodyRemain c }
  | _ => exchange

theorem placeOf_lineFed (exchange : HttpExchange) :
    placeOf (lineFed exchange) = (placeOf exchange).lineFed := by
  unfold lineFed BodyPlace.lineFed placeOf
  dsimp only
  split
  · split_ifs
    · rfl
    · rfl
  · rfl

theorem placeOf_lineByte (exchange : HttpExchange) (c : UInt8) :
    placeOf (lineByte exchange c) = (placeOf exchange).lineByte c := by
  unfold lineByte BodyPlace.lineByte placeOf
  dsimp only
  split
  · split_ifs
    · rfl
    · rfl
  · rfl

theorem placeOf_bodyTaken (exchange : HttpExchange) (count : Nat) :
    placeOf (bodyTaken exchange count) = (placeOf exchange).taken count := by
  unfold bodyTaken BodyPlace.taken placeOf
  dsimp only
  split_ifs
  · rfl
  · rfl
  · rfl

theorem placeOf_framed {left right : HttpExchange}
    (same : framed left = framed right) :
    placeOf left = placeOf right := by
  have place : placeOf (framed left) = placeOf (framed right) :=
    congrArg placeOf same
  exact place

/-- The loop of `ymo_parse_http_body`, from the middle of a read. -/
def bodyLoop {σ : Type} (callback : BodyCallback σ) (fuel : Nat) (state : σ)
    (exchange : HttpExchange)
    (len count : Nat)
    (memory : Bytes) :
    Parsed × σ :=
  loop (bodyTurn callback)
    (fun locals => (.fault locals.exchange, locals.state)) fuel
    { state := state
      exchange := exchange
      cursor := { len := len, count := count, memory := memory } }

/-- The exchange when the loop is left at the end of a body. -/
def bodyOver (exchange : HttpExchange) : HttpExchange :=
  if exchange.state = .body then { exchange with state := .complete }
  else exchange

section Loop

variable
    {σ : Type}
    {callback : BodyCallback σ}
    {exchange : HttpExchange}
    {len : Nat}

theorem inLine_cases (inLine : (placeOf exchange).inLine = true) :
    exchange.state = .bodyChunkHeader ∨
      exchange.state = .bodyChunkTrailer := by
  unfold BodyPlace.inLine placeOf at inLine
  dsimp only at inLine
  cases state : exchange.state <;> rw [state] at inLine <;>
    first
      | exact Or.inl rfl
      | exact Or.inr rfl
      | cases inLine

theorem body_of_running (running : (placeOf exchange).finished = false)
    (noLine : (placeOf exchange).inLine ≠ true) :
    exchange.state = .body ∧ exchange.bodyRemain ≠ 0 := by
  unfold BodyPlace.finished placeOf at running
  unfold BodyPlace.inLine placeOf at noLine
  dsimp only at running noLine
  cases state : exchange.state <;> rw [state] at running noLine <;>
    first
      | exact ⟨rfl, ne_of_beq_false running⟩
      | exact absurd rfl noLine
      | cases running

theorem lineByte_of_header (header : exchange.state = .bodyChunkHeader)
    (c : UInt8) :
    lineByte exchange c =
      if c = cr then exchange
      else
        { exchange with bodyRemain := chunkDigit exchange.bodyRemain c } := by
  unfold lineByte
  split
  · rfl
  · contradiction

theorem lineByte_of_trailer (trailer : exchange.state = .bodyChunkTrailer)
    (c : UInt8) :
    lineByte exchange c = exchange := by
  unfold lineByte
  rw [trailer]

theorem bodyLoop_lineFeed (inLine : (placeOf exchange).inLine = true)
    (left : len ≠ 0)
    (fuel : Nat)
    (state : σ)
    (count : Nat)
    (memory : Bytes) :
    bodyLoop callback (fuel + 1) state exchange len count (lf :: memory) =
      bodyLoop callback fuel state (lineFed exchange) len (count + 1)
        memory := by
  apply loop_of_again
  unfold bodyTurn lineFed
  dsimp only
  rcases inLine_cases inLine with header | trailer
  · rw [header]
    dsimp only
    rw [chunkHeaderLoop, if_pos rfl]
    exact if_pos left
  · rw [trailer]
    dsimp only
    rw [chunkTrailerLoop, if_pos rfl]
    exact if_pos left

theorem bodyLoop_lineByte (inLine : (placeOf exchange).inLine = true)
    {c : UInt8}
    (noFeed : c ≠ lf)
    (left : len ≠ 0)
    (fuel : Nat)
    (state : σ)
    (count : Nat)
    (memory : Bytes) :
    bodyLoop callback (fuel + 1) state exchange (len + 1) count
        (c :: memory) =
      bodyLoop callback (fuel + 1) state (lineByte exchange c) len
        (count + 1) memory := by
  have same :
      bodyTurn callback
          { state := state
            exchange := exchange
            cursor :=
              { len := len + 1, count := count, memory := c :: memory } } =
        bodyTurn callback
          { state := state
            exchange := lineByte exchange c
            cursor :=
              { len := len, count := count + 1, memory := memory } } := by
    have stays : (lineByte exchange c).state = exchange.state := by
      have place := lineByte_state (placeOf exchange) c
      rw [← placeOf_lineByte] at place
      exact place
    unfold bodyTurn
    dsimp only
    rw [stays]
    rcases inLine_cases inLine with header | trailer
    · rw [lineByte_of_header header, header]
      dsimp only
      rw [chunkHeaderLoop, if_neg noFeed, Nat.add_sub_cancel,
        if_neg left, header]
    · rw [lineByte_of_trailer trailer, trailer]
      dsimp only
      rw [chunkTrailerLoop, if_neg noFeed, Nat.add_sub_cancel, if_neg left]
  unfold bodyLoop
  rw [loop, loop, same]

theorem bodyLoop_lineLast (inLine : (placeOf exchange).inLine = true)
    {c : UInt8}
    (noFeed : c ≠ lf)
    (fuel : Nat)
    (state : σ)
    (count : Nat)
    (memory : Bytes) :
    bodyLoop callback (fuel + 1) state exchange 1 count (c :: memory) =
      (.took (count + 1) (lineByte exchange c), state) := by
  apply loop_of_done
  unfold bodyTurn
  dsimp only
  rcases inLine_cases inLine with header | trailer
  · rw [lineByte_of_header header, header]
    dsimp only
    rw [chunkHeaderLoop, if_neg noFeed, header]
    rfl
  · rw [lineByte_of_trailer trailer, trailer]
    dsimp only
    rw [chunkTrailerLoop, if_neg noFeed]
    rfl

theorem bodyLoop_lineNil (inLine : (placeOf exchange).inLine = true)
    (fuel : Nat)
    (state : σ)
    (count : Nat) :
    bodyLoop callback fuel state exchange len count [] =
      (.fault exchange, state) := by
  rcases fuel with _ | fuel
  · rfl
  · apply loop_of_done
    unfold bodyTurn
    dsimp only
    rcases inLine_cases inLine with header | trailer
    · rw [header]
      rfl
    · rw [trailer]
      rfl

theorem bodyLoop_over (ended : (placeOf exchange).finished = true)
    (left : len ≠ 0)
    (fuel : Nat)
    (state : σ)
    (count : Nat)
    (memory : Bytes) :
    bodyLoop callback (fuel + 2) state exchange len count memory =
      (.took count (bodyOver exchange), state) := by
  unfold BodyPlace.finished placeOf at ended
  dsimp only at ended
  unfold bodyOver bodyLoop
  cases at_state : exchange.state with
  | body =>
      rw [at_state] at ended
      have none : exchange.bodyRemain = 0 := eq_of_beq ended
      have turn :
          bodyTurn callback
              { state := state
                exchange := exchange
                cursor := { len := len, count := count, memory := memory } } =
            .again
              { state := state
                exchange := { exchange with state := .complete }
                cursor :=
                  { len := len, count := count, memory := memory } } := by
        unfold bodyTurn
        dsimp only
        rw [at_state]
        dsimp only
        rw [if_pos none]
        exact if_pos left
      rw [if_pos rfl, loop_of_again turn]
      rfl
  | bodyChunkHeader =>
      rw [at_state] at ended
      cases ended
  | bodyChunkTrailer =>
      rw [at_state] at ended
      cases ended
  | _ =>
      rw [if_neg HttpState.noConfusion]
      apply loop_of_done
      unfold bodyTurn
      dsimp only
      rw [at_state]

theorem bodyLoop_complete (complete : exchange.state = .complete) (fuel : Nat)
    (state : σ)
    (count : Nat)
    (memory : Bytes) :
    bodyLoop callback (fuel + 1) state exchange len count memory =
      (.took count exchange, state) := by
  apply loop_of_done
  unfold bodyTurn
  dsimp only
  rw [complete]

/-- A piece of the body goes to the callback, which takes it. -/
theorem bodyLoop_piece
    (inBody : exchange.state = .body)
    (remains : exchange.bodyRemain ≠ 0)
    {state : σ}
    (len : Nat)
    (memory : Bytes)
    (readable : min len exchange.bodyRemain ≤ memory.length)
    {after : HttpExchange}
    {later : σ}
    (okay :
      callback state exchange
          (memory.take (min len exchange.bodyRemain)) =
        (.okay, after, later))
    (fuel count : Nat) :
    bodyLoop callback (fuel + 1) state exchange len count memory =
      if len ≤ exchange.bodyRemain then
        (.took (count + len) (bodyTaken after len), later)
      else
        bodyLoop callback fuel later
          (bodyTaken after exchange.bodyRemain)
          (len - exchange.bodyRemain) (count + exchange.bodyRemain)
          (memory.drop exchange.bodyRemain) := by
  have turn :
      bodyTurn callback
          { state := state
            exchange := exchange
            cursor := { len := len, count := count, memory := memory } } =
        bodyResume later
          (.stopped
            (bodyTaken after (min len exchange.bodyRemain))
            { len := len - min len exchange.bodyRemain
              count := count + min len exchange.bodyRemain
              memory := memory.drop (min len exchange.bodyRemain) }) := by
    unfold bodyTurn
    dsimp only
    rw [inBody]
    dsimp only
    rw [if_neg remains]
    unfold bodyBytesTurn
    dsimp only
    rw [if_neg (Nat.not_lt.mpr readable), okay]
  split_ifs with fits
  · apply loop_of_done
    rw [turn, Nat.min_eq_left fits, Nat.sub_self]
    rfl
  · apply loop_of_again
    rw [turn, Nat.min_eq_right (by omega)]
    exact if_pos (by dsimp only; omega)

theorem bodyLoop_unreadable (inBody : exchange.state = .body)
    (remains : exchange.bodyRemain ≠ 0)
    {memory : Bytes}
    (unreadable : memory.length < min len exchange.bodyRemain)
    (fuel : Nat)
    (state : σ)
    (count : Nat) :
    bodyLoop callback fuel state exchange len count memory =
      (.fault exchange, state) := by
  rcases fuel with _ | fuel
  · rfl
  · apply loop_of_done
    unfold bodyTurn
    dsimp only
    rw [inBody]
    dsimp only
    rw [if_neg remains]
    unfold bodyBytesTurn
    dsimp only
    rw [if_pos unreadable]

end Loop

/-! ## What the parser keeps -/

/--
What holds along a body: every byte of a line, every line end and every piece
that the callback takes keep it.  A callback that fails leaves `broken`.
-/
structure BodyInvariant {σ : Type}
    (callback : BodyCallback σ)
    (kept broken : σ → HttpExchange → Prop) : Prop where
  line :
    ∀ state exchange c,
      kept state exchange → (placeOf exchange).inLine = true → c ≠ lf →
        kept state (lineByte exchange c)
  fed :
    ∀ state exchange,
      kept state exchange → (placeOf exchange).inLine = true →
        kept state (lineFed exchange)
  ends :
    ∀ state exchange,
      kept state exchange → exchange.state = .body →
        exchange.bodyRemain = 0 →
          kept state { exchange with state := .complete }
  taken :
    ∀ state exchange data after later,
      kept state exchange → exchange.state = .body →
        exchange.bodyRemain ≠ 0 → data.length ≤ exchange.bodyRemain →
          callback state exchange data = (.okay, after, later) →
            kept later (bodyTaken after data.length)
  refused :
    ∀ state exchange data errno after later,
      kept state exchange → exchange.state = .body →
        exchange.bodyRemain ≠ 0 → data.length ≤ exchange.bodyRemain →
          callback state exchange data = (.err errno, after, later) →
            broken later after

/-- What a call of the parser leaves. -/
def Leaves {σ : Type} (kept broken : σ → HttpExchange → Prop) :
    Parsed × σ → Prop
  | (.took _ exchange, state) => kept state exchange
  | (.failed _ exchange, state) => broken state exchange
  | (.fault exchange, state) => kept state exchange

/-- What an inner loop of the parser leaves. -/
def StepLeaves {σ : Type} (kept : σ → HttpExchange → Prop) (state : σ) :
    BodyStep → Prop
  | .stopped exchange _ => kept state exchange
  | .fault exchange => kept state exchange

section Invariant

variable
    {σ : Type}
    {callback : BodyCallback σ}
    {kept broken : σ → HttpExchange → Prop}
    {state : σ}
    {exchange : HttpExchange}

theorem inLine_of_header (header : exchange.state = .bodyChunkHeader) :
    (placeOf exchange).inLine = true := by
  unfold BodyPlace.inLine placeOf
  dsimp only
  rw [header]

theorem inLine_of_trailer (trailer : exchange.state = .bodyChunkTrailer) :
    (placeOf exchange).inLine = true := by
  unfold BodyPlace.inLine placeOf
  dsimp only
  rw [trailer]

theorem BodyInvariant.header (invariant : BodyInvariant callback kept broken)
    (held : kept state exchange)
    (header : exchange.state = .bodyChunkHeader)
    (len count : Nat)
    (memory : Bytes) :
    StepLeaves kept state (chunkHeaderLoop exchange len count memory) := by
  induction memory generalizing exchange len count with
  | nil => exact held
  | cons c rest ih =>
      have inLine := inLine_of_header header
      rw [chunkHeaderLoop]
      by_cases feed : c = lf
      · rw [if_pos feed]
        have fed := invariant.fed state exchange held inLine
        unfold lineFed at fed
        rw [header] at fed
        exact fed
      · rw [if_neg feed]
        have byte := invariant.line state exchange c held inLine feed
        have still : (lineByte exchange c).state = .bodyChunkHeader := by
          have place := lineByte_state (placeOf exchange) c
          rw [← placeOf_lineByte] at place
          exact place.trans header
        rw [lineByte_of_header header] at byte still
        dsimp only
        split
        · exact byte
        · exact ih byte still _ _

theorem BodyInvariant.trailer (invariant : BodyInvariant callback kept broken)
    (held : kept state exchange)
    (trailer : exchange.state = .bodyChunkTrailer)
    (len count : Nat)
    (memory : Bytes) :
    StepLeaves kept state (chunkTrailerLoop exchange len count memory) := by
  induction memory generalizing len count with
  | nil => exact held
  | cons c rest ih =>
      rw [chunkTrailerLoop]
      split
      · have fed :=
          invariant.fed state exchange held (inLine_of_trailer trailer)
        unfold lineFed at fed
        rw [trailer] at fed
        exact fed
      · split
        · exact held
        · exact ih _ _

theorem bodyResume_leaves {step : BodyStep}
    (leaves : StepLeaves kept state step) :
    (bodyResume state step).Satisfies
      (fun locals => kept locals.state locals.exchange)
      (Leaves kept broken) := by
  cases step with
  | stopped exchange cursor =>
      rw [bodyResume]
      split
      · exact leaves
      · exact leaves
  | fault exchange => exact leaves

theorem BodyInvariant.turn (invariant : BodyInvariant callback kept broken)
    (locals : BodyState σ)
    (held : kept locals.state locals.exchange) :
    (bodyTurn callback locals).Satisfies
      (fun locals => kept locals.state locals.exchange)
      (Leaves kept broken) := by
  unfold bodyTurn
  dsimp only
  split
  · rename_i header
    exact bodyResume_leaves (invariant.header held header _ _ _)
  · rename_i inBody
    split
    · rename_i none
      have ended := invariant.ends _ _ held inBody none
      exact bodyResume_leaves (show StepLeaves _ _ (.stopped _ _) from ended)
    · rename_i remains
      unfold bodyBytesTurn
      dsimp only
      split
      · exact held
      · rename_i readable
        have length :
            (locals.cursor.memory.take
                (min locals.cursor.len locals.exchange.bodyRemain)).length =
              min locals.cursor.len locals.exchange.bodyRemain :=
          List.length_take_of_le (Nat.not_lt.mp readable)
        have fits :
            (locals.cursor.memory.take
                (min locals.cursor.len locals.exchange.bodyRemain)).length ≤
              locals.exchange.bodyRemain := by
          rw [length]
          exact Nat.min_le_right _ _
        split
        · rename_i after later called
          have taken :=
            invariant.taken _ _ _ after later held inBody remains fits called
          rw [length] at taken
          exact
            bodyResume_leaves (show StepLeaves _ _ (.stopped _ _) from taken)
        · rename_i errno after later called
          exact
            invariant.refused _ _ _ errno after later held inBody remains
              fits called
  · rename_i trailer
    exact bodyResume_leaves (invariant.trailer held trailer _ _ _)
  · exact held

/-- What holds along a body holds of what the parser leaves. -/
theorem BodyInvariant.parsed (invariant : BodyInvariant callback kept broken)
    (held : kept state exchange)
    (memory : Bytes)
    (len : Nat) :
    Leaves kept broken
      (ymoParseHttpBody callback state exchange memory len) := by
  apply loop_satisfies
    (fun locals : BodyState σ => kept locals.state locals.exchange)
    (Leaves kept broken)
  · exact invariant.turn
  · intro locals kept
    exact kept
  · exact held

end Invariant

end Yimmo.Http.BodyScan
