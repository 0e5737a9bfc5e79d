import Yimmo.Http.Reader

/-!
# Every turn of the read loop makes progress, or none does

The loop of `ymo_proto_http_read` goes on while bytes are left.  This module
gives the invariant on the parser's two state bytes that holds of every
exchange a session can have, shows that a turn in any state that the switch
names takes a byte, moves to a later state, or leaves the loop, and derives
that the loop ends.

The states of a query and of a fragment are not named by the switch.  A read may
end in them, and the next one then never leaves the loop.
-/

namespace Yimmo.Http.ReadProgress

open Yimmo.Core.StatusCode
open Yimmo.Lib.TurnLoop
open Yimmo.Http.Exchange
open Yimmo.Http.Parse
open Yimmo.Http.Application
open Yimmo.Http.Reader

variable
    {exchange : HttpExchange}
    {buffer : Bytes}
    {limit : Nat}
    {len : Nat}
    {locals : ReadLocals}
    {session : Option HttpExchange}
    {parsed : Parsed}
    {memory : Bytes}
    (protoData : HttpProtoData)
    (stray : Bytes)

/-! ## The two state bytes -/

/-- The pairs of `state` and `next_state` an exchange can have. -/
def phaseOk : HttpState → HttpState → Bool
  | .expect, _ => false
  | .crlf, next => next == .headerName || next == .headersComplete
  | .body, next =>
      next == .complete || next == .bodyChunkHeader ||
        next == .bodyChunkTrailer
  | .bodyChunkTrailer, next =>
      next == .complete || next == .bodyChunkHeader ||
        next == .bodyChunkTrailer
  | _, _ => true

/-- The parser invariant of an exchange. -/
def ParserOk (exchange : HttpExchange) : Prop :=
  phaseOk exchange.state exchange.nextState = true

/-- The states of the request line parser that its caller does not name. -/
def inQuery (state : HttpState) : Bool :=
  state == .requestQuery || state == .requestFragment

/-- The states of the request line parser. -/
def lineState : HttpState → Bool
  | .requestMethod => true
  | .requestUriPath => true
  | .requestQuery => true
  | .requestFragment => true
  | .requestVersion => true
  | _ => false

theorem phaseOk_of_lineState {state next : HttpState}
    (line : lineState state = true) :
    phaseOk state next = true := by
  cases state <;> first | rfl | exact absurd line (by decide)

/-! ## The parsers of the head -/

/-- What a parser call owes: it keeps the invariant, takes bytes of its read or
moves to a later state, and ends in a query only at the end of the read. -/
def ParsedSound (limit : Nat) (before : HttpState) : Parsed → Prop
  | .took count exchange =>
      ParserOk exchange ∧
        count ≤ limit ∧
          (0 < count ∨ before.rank < exchange.state.rank) ∧
            (inQuery exchange.state = true → count = limit)
  | .failed _ exchange => ParserOk exchange
  | .fault exchange => ParserOk exchange

/-- A call that took some bytes and ended outside a query. -/
theorem parsedSound_of_took {limit count : Nat} {before : HttpState}
    (kept : ParserOk exchange)
    (bound : count ≤ limit)
    (positive : 0 < count)
    (outside : inQuery exchange.state = false) :
    ParsedSound limit before (.took count exchange) :=
  ⟨kept, bound, .inl positive,
    fun inside => absurd inside (by rw [outside]; decide)⟩

/-- The states a step of the request line parser leaves behind. -/
def StepState : LineStep → Prop
  | .more exchange _ => lineState exchange.state = true
  | .line exchange _ =>
      exchange.state = .crlf ∧ exchange.nextState = .headerName
  | .failed _ exchange => lineState exchange.state = true
  | .stop => False

theorem requestLineByte_state (line : lineState exchange.state = true)
    (cursor : Cursor)
    (c : UInt8) :
    StepState (requestLineByte exchange cursor c) := by
  cases state : exchange.state with
  | requestMethod =>
      simp only [requestLineByte, state]
      split
      · exact line
      · split
        · rfl
        · exact line
  | requestUriPath =>
      simp only [requestLineByte, state]
      split
      · rfl
      · split
        · rfl
        · split
          · rfl
          · exact line
  | requestQuery =>
      simp only [requestLineByte, state]
      split
      · rfl
      · split
        · rfl
        · exact line
  | requestFragment =>
      simp only [requestLineByte, state]
      split
      · exact line
      · rfl
  | requestVersion =>
      simp only [requestLineByte, state]
      split
      · exact line
      · split
        · exact ⟨rfl, rfl⟩
        · exact line
  | _ =>
      rw [state] at line
      exact absurd line (by decide)

/-- The request line parser stops at the end of the read or after the line. -/
def LineEnd (count : Nat) (buffer : Bytes) : Parsed → Prop
  | .took taken exchange =>
      taken ≤ count + buffer.length ∧
        (count ≤ taken ∧ (buffer ≠ [] → count < taken)) ∧
          ((lineState exchange.state = true ∧
              taken = count + buffer.length) ∨
            (exchange.state = .crlf ∧ exchange.nextState = .headerName))
  | .failed _ exchange => ParserOk exchange
  | .fault _ => False

theorem parseDone_lineEnd (kept : ParserOk exchange) (cursor : Cursor)
    {count taken : Nat}
    (took : LineEnd count buffer (.took taken (exchange.save cursor))) :
    LineEnd count buffer (parseDone exchange cursor taken) := by
  rw [parseDone]
  split
  · exact took
  · exact kept

theorem requestLineLoop_end (line : lineState exchange.state = true)
    (cursor : Cursor)
    (count : Nat)
    (buffer : Bytes) :
    LineEnd count buffer (requestLineLoop exchange cursor count buffer) := by
  induction buffer generalizing exchange cursor count with
  | nil =>
      rw [requestLineLoop]
      exact
        parseDone_lineEnd (phaseOk_of_lineState line) cursor
          ⟨Nat.le_refl _,
            ⟨Nat.le_refl _, fun nonempty => absurd rfl nonempty⟩,
            .inl ⟨line, rfl⟩⟩
  | cons c rest ih =>
      have step := requestLineByte_state line cursor c
      rw [requestLineLoop]
      cases outcome : requestLineByte exchange cursor c with
      | more later moved =>
          rw [outcome] at step
          have stepLine : lineState later.state = true := step
          dsimp only
          split
          · rename_i full
            rw [parseDone, if_neg (not_not.mpr full)]
            exact phaseOk_of_lineState stepLine
          · have run := ih stepLine moved (count + 1)
            cases final : requestLineLoop later moved (count + 1) rest with
            | took taken last =>
                rw [final] at run
                rcases run with ⟨bound, ⟨above, -⟩, ended⟩
                refine ⟨?_, ⟨?_, fun _ => above⟩, ?_⟩
                · rw [List.length_cons]
                  omega
                · exact Nat.le_of_succ_le above
                · rcases ended with ⟨isLine, all⟩ | completed
                  · refine .inl ⟨isLine, ?_⟩
                    rw [all, List.length_cons]
                    omega
                  · exact .inr completed
            | failed errno last =>
                rw [final] at run
                exact run
            | fault last =>
                rw [final] at run
                exact run
      | line later moved =>
          rw [outcome] at step
          have kept : ParserOk later := by
            rw [ParserOk, step.1, step.2]
            rfl
          exact
            parseDone_lineEnd kept moved
              ⟨by rw [List.length_cons]; omega,
                ⟨Nat.le_succ count, fun _ => Nat.lt_succ_self count⟩,
                .inr step⟩
      | failed errno later =>
          rw [outcome] at step
          exact phaseOk_of_lineState step
      | stop =>
          rw [outcome] at step
          exact step.elim

theorem ymoParseHttpRequestLine_sound (line : lineState exchange.state = true)
    (nonempty : buffer ≠ [])
    (before : HttpState) :
    ParsedSound buffer.length before
      (ymoParseHttpRequestLine exchange buffer) := by
  have ended := requestLineLoop_end line exchange.cursor 0 buffer
  rw [ymoParseHttpRequestLine]
  cases outcome : requestLineLoop exchange exchange.cursor 0 buffer with
  | took taken later =>
      rw [outcome] at ended
      rcases ended with ⟨bound, ⟨-, more⟩, inside | ⟨crlf, next⟩⟩
      · rw [Nat.zero_add] at bound inside
        exact
          ⟨phaseOk_of_lineState inside.1, bound,
            .inl (more nonempty), fun _ => inside.2⟩
      · rw [Nat.zero_add] at bound
        refine parsedSound_of_took ?_ bound (more nonempty) ?_
        · rw [ParserOk, crlf, next]
          rfl
        · rw [crlf]
          rfl
  | failed errno later =>
      rw [outcome] at ended
      exact ended
  | fault later =>
      rw [outcome] at ended
      exact ended.elim

theorem ymoParseHttpCrlf_sound (kept : ParserOk exchange)
    (atLine : exchange.state = .crlf)
    (nonempty : buffer ≠ [])
    (before : HttpState) :
    ParsedSound buffer.length before (ymoParseHttpCrlf exchange buffer) := by
  cases buffer with
  | nil => exact absurd rfl nonempty
  | cons c rest =>
      rw [ymoParseHttpCrlf]
      split
      · exact kept
      · have bound : 1 ≤ (c :: rest).length := by
          rw [List.length_cons]
          exact Nat.succ_le_succ (Nat.zero_le _)
        rw [ParserOk, atLine] at kept
        cases next : exchange.nextState with
        | headerName => exact parsedSound_of_took rfl bound Nat.one_pos rfl
        | headersComplete =>
            exact parsedSound_of_took rfl bound Nat.one_pos rfl
        | _ =>
            rw [next] at kept
            exact absurd kept (by decide)

/-- The states of the header parser. -/
def headerState : HttpState → Bool
  | .headerName => true
  | .headerValueLeadingSpace => true
  | .headerValue => true
  | _ => false

/-- What a call of an inner header parser owes. -/
def HeaderEnd (count : Nat) (buffer : Bytes) : Parsed → Prop
  | .took taken exchange =>
      taken ≤ count + buffer.length ∧
        (count ≤ taken ∧ (buffer ≠ [] → count < taken)) ∧
          (headerState exchange.state = true ∨
            (exchange.state = .crlf ∧
              (exchange.nextState = .headerName ∨
                exchange.nextState = .headersComplete)))
  | .failed _ exchange => ParserOk exchange
  | .fault _ => False

theorem parserOk_of_headerState (header : headerState exchange.state = true) :
    ParserOk exchange := by
  unfold ParserOk
  cases state : exchange.state <;>
    first
      | rfl
      | (rw [state] at header; exact absurd header (by decide))

theorem parserOk_of_headerEnd
    (ended :
      headerState exchange.state = true ∨
        (exchange.state = .crlf ∧
          (exchange.nextState = .headerName ∨
            exchange.nextState = .headersComplete))) :
    ParserOk exchange := by
  rcases ended with header | ⟨crlf, name | complete⟩
  · exact parserOk_of_headerState header
  · rw [ParserOk, crlf, name]
    rfl
  · rw [ParserOk, crlf, complete]
    rfl

/-- The common end of the header parsers. -/
theorem parseDone_headerEnd {cursor : Cursor} {count taken : Nat}
    (bound : taken ≤ count + buffer.length)
    (above : count ≤ taken)
    (more : buffer ≠ [] → count < taken)
    (ended :
      headerState exchange.state = true ∨
        (exchange.state = .crlf ∧
          (exchange.nextState = .headerName ∨
            exchange.nextState = .headersComplete))) :
    HeaderEnd count buffer (parseDone exchange cursor taken) := by
  rw [parseDone]
  split
  · exact ⟨bound, ⟨above, more⟩, ended⟩
  · exact parserOk_of_headerEnd ended

/-- A byte more in front of what an inner header parser has taken. -/
theorem HeaderEnd.cons {count : Nat} {c : UInt8} {rest : Bytes}
    {parsed : Parsed}
    (ended : HeaderEnd (count + 1) rest parsed) :
    HeaderEnd count (c :: rest) parsed := by
  cases parsed with
  | took taken exchange =>
      rcases ended with ⟨bound, ⟨above, -⟩, states⟩
      refine ⟨?_, ⟨Nat.le_of_succ_le above, fun _ => above⟩, states⟩
      rw [List.length_cons]
      omega
  | failed errno exchange => exact ended
  | fault exchange => exact ended

theorem headerNameLoop_end (header : headerState exchange.state = true)
    (cursor : Cursor)
    (count : Nat)
    (buffer : Bytes) :
    HeaderEnd count buffer (headerNameLoop exchange cursor count buffer) := by
  induction buffer generalizing exchange cursor count with
  | nil =>
      rw [headerNameLoop]
      exact
        parseDone_headerEnd (Nat.le_refl _) (Nat.le_refl _)
          (fun nonempty => absurd rfl nonempty) (.inl header)
  | cons c rest ih =>
      have bound : count + 1 ≤ count + (c :: rest).length := by
        rw [List.length_cons]
        omega
      rw [headerNameLoop]
      split
      · split
        · split
          · dsimp only
            split
            · exact
                parseDone_headerEnd bound (Nat.le_succ _)
                  (fun _ => Nat.lt_succ_self _) (.inl header)
            · have noted :
                  headerState
                    { exchange with
                      hId := Headers.ymoHdrHashCh exchange.hId c }.state
                    = true := header
              exact (ih noted _ (count + 1)).cons
          · exact parserOk_of_headerState header
        · exact
            parseDone_headerEnd bound (Nat.le_succ _)
              (fun _ => Nat.lt_succ_self _) (.inr ⟨rfl, .inr rfl⟩)
      · exact
          parseDone_headerEnd bound (Nat.le_succ _)
            (fun _ => Nat.lt_succ_self _) (.inl rfl)

theorem headerValueLoop_end (header : headerState exchange.state = true)
    (cursor : Cursor)
    (count : Nat)
    (buffer : Bytes) :
    HeaderEnd count buffer
      (headerValueLoop stray exchange cursor count buffer) := by
  induction buffer generalizing exchange cursor count with
  | nil =>
      rw [headerValueLoop]
      exact
        parseDone_headerEnd (Nat.le_refl _) (Nat.le_refl _)
          (fun nonempty => absurd rfl nonempty) (.inl header)
  | cons c rest ih =>
      have bound : count + 1 ≤ count + (c :: rest).length := by
        rw [List.length_cons]
        omega
      rw [headerValueLoop]
      split
      · cases rest with
        | nil =>
            exact
              parseDone_headerEnd bound (Nat.le_succ _)
                (fun _ => Nat.lt_succ_self _) (.inl header)
        | cons next others =>
            dsimp only
            split
            · exact
                parseDone_headerEnd bound (Nat.le_succ _)
                  (fun _ => Nat.lt_succ_self _) (.inl header)
            · exact (ih header _ (count + 1)).cons
      · exact
          parseDone_headerEnd bound (Nat.le_succ _)
            (fun _ => Nat.lt_succ_self _) (.inr ⟨rfl, .inl rfl⟩)

/-! ### The loop over the headers -/

/-- The locals of the header loop, inside a read of a given length. -/
structure HeadersInside
    (limit : Nat)
    (locals : HeadersState) : Prop where
  states :
    headerState locals.exchange.state = true ∨
      (locals.exchange.state = .crlf ∧
        (locals.exchange.nextState = .headerName ∨
          locals.exchange.nextState = .headersComplete))
  nonempty : locals.buffer ≠ []
  total : locals.count + locals.buffer.length = limit
  started : headerState locals.exchange.state = true ∨ 0 < locals.count

theorem headersResume_sound {locals : HeadersState}
    (inside : HeadersInside limit locals)
    (before : HttpState)
    (ended : HeaderEnd 0 locals.buffer parsed) :
    (headersResume locals parsed).Satisfies
      (HeadersInside limit) (ParsedSound limit before) := by
  cases parsed with
  | took taken exchange =>
      rcases ended with ⟨bound, ⟨-, more⟩, states⟩
      have positive := more inside.nonempty
      have total := inside.total
      rw [Nat.zero_add] at bound
      rw [headersResume]
      split
      · rename_i left
        refine ⟨states, ?_, ?_, .inr (by dsimp only; omega)⟩
        · intro empty
          have none := congrArg List.length empty
          rw [List.length_drop, List.length_nil] at none
          omega
        · dsimp only
          rw [List.length_drop]
          omega
      · rw [parseDone]
        dsimp only [Turn.Satisfies]
        split
        · refine
            parsedSound_of_took
              (parserOk_of_headerEnd states) (by omega) (by omega) ?_
          rcases states with header | ⟨crlf, -⟩
          · cases state : exchange.state <;>
              first
                | exact congrArg inQuery state
                | (rw [state] at header
                   exact absurd header (by decide))
          · exact congrArg inQuery crlf
        · exact parserOk_of_headerEnd states
  | failed errno exchange => exact ended
  | fault exchange => exact ended.elim

theorem headersTurn_sound (before : HttpState) {locals : HeadersState}
    (inside : HeadersInside limit locals) :
    (headersTurn stray locals).Satisfies
      (HeadersInside limit) (ParsedSound limit before) := by
  have positive : 0 < locals.buffer.length :=
    List.length_pos_iff.mpr inside.nonempty
  unfold headersTurn
  dsimp only
  cases state : locals.exchange.state with
  | headerName =>
      have header : headerState locals.exchange.state = true := by
        rw [state]
        rfl
      exact
        headersResume_sound inside before
          (headerNameLoop_end header _ 0 locals.buffer)
  | headerValueLeadingSpace =>
      have header : headerState locals.exchange.state = true := by
        rw [state]
        rfl
      dsimp only
      split
      · exact
          headersResume_sound inside before
            ⟨by omega, ⟨Nat.zero_le _, fun _ => Nat.one_pos⟩, .inl header⟩
      · exact
          headersResume_sound inside before
            (headerValueLoop_end stray rfl _ 0 locals.buffer)
  | headerValue =>
      have header : headerState locals.exchange.state = true := by
        rw [state]
        rfl
      exact
        headersResume_sound inside before
          (headerValueLoop_end stray header _ 0 locals.buffer)
  | crlf =>
      have started := inside.started
      have total := inside.total
      rw [state] at started
      rcases started with header | counted
      · exact absurd header (by decide)
      · dsimp only [Turn.Satisfies]
        rw [parseDone]
        split
        · refine
            parsedSound_of_took
              (parserOk_of_headerEnd inside.states) (by omega)
              counted ?_
          exact congrArg inQuery state
        · exact parserOk_of_headerEnd inside.states
  | _ =>
      have states := inside.states
      rw [state] at states
      rcases states with header | ⟨crlf, -⟩
      · exact absurd header (by decide)
      · exact absurd crlf HttpState.noConfusion

theorem ymoParseHttpHeaders_sound (header : headerState exchange.state = true)
    (nonempty : buffer ≠ [])
    (before : HttpState) :
    ParsedSound buffer.length before
      (ymoParseHttpHeaders stray exchange buffer) := by
  apply loop_satisfies
    (HeadersInside buffer.length) (ParsedSound buffer.length before)
  · intro locals inside
    exact headersTurn_sound stray before inside
  · intro locals inside
    exact parserOk_of_headerEnd inside.states
  · exact ⟨.inl header, nonempty, Nat.zero_add _, .inl header⟩

/-- Every parser of the head is sound in the states it is called in. -/
theorem parseHead_sound (kept : ParserOk exchange) (nonempty : buffer ≠ [])
    (called : parseHead stray exchange buffer = some parsed) :
    ParsedSound buffer.length exchange.state parsed := by
  have line :
      lineState exchange.state = true →
        ParsedSound buffer.length exchange.state
          (ymoParseHttpRequestLine exchange buffer) :=
    fun inLine => ymoParseHttpRequestLine_sound inLine nonempty _
  have headers :
      headerState exchange.state = true →
        ParsedSound buffer.length exchange.state
          (ymoParseHttpHeaders stray exchange buffer) :=
    fun header => ymoParseHttpHeaders_sound stray header nonempty _
  unfold parseHead at called
  cases state : exchange.state <;> rw [state] at called line headers
  case connected =>
    rw [← Option.some.inj called]
    exact ymoParseHttpRequestLine_sound rfl nonempty _
  case requestMethod =>
    rw [← Option.some.inj called]
    exact line rfl
  case requestUriPath =>
    rw [← Option.some.inj called]
    exact line rfl
  case requestVersion =>
    rw [← Option.some.inj called]
    exact line rfl
  case crlf =>
    rw [← Option.some.inj called]
    exact ymoParseHttpCrlf_sound kept state nonempty _
  case headerName =>
    rw [← Option.some.inj called]
    exact headers rfl
  case headerValueLeadingSpace =>
    rw [← Option.some.inj called]
    exact headers rfl
  case headerValue =>
    rw [← Option.some.inj called]
    exact headers rfl
  all_goals nomatch called

/-! ## The body parser -/

/-- The states of the body parser, and the one it leaves in. -/
def bodyState : HttpState → Bool
  | .bodyChunkHeader => true
  | .body => true
  | .bodyChunkTrailer => true
  | .complete => true
  | _ => false

/-- A callback leaves the two state bytes alone. -/
def KeepsPhase {σ : Type} (callback : BodyCallback σ) : Prop :=
  ∀ state exchange data,
    (callback state exchange data).2.1.state = exchange.state ∧
      (callback state exchange data).2.1.nextState = exchange.nextState

/-- What an inner loop of the body parser owes. -/
def BodyStepSound (count : Nat) (memory : Bytes) :
    BodyStep → Prop
  | .stopped exchange cursor =>
      ParserOk exchange ∧
        bodyState exchange.state = true ∧
          count < cursor.count ∧
            cursor.count + cursor.memory.length = count + memory.length
  | .fault exchange => ParserOk exchange

theorem BodyStepSound.cons {count : Nat} {c : UInt8} {rest : Bytes}
    {step : BodyStep}
    (sound : BodyStepSound (count + 1) rest step) :
    BodyStepSound count (c :: rest) step := by
  cases step with
  | stopped exchange cursor =>
      rcases sound with ⟨kept, states, above, total⟩
      refine ⟨kept, states, Nat.lt_of_succ_lt above, ?_⟩
      rw [List.length_cons]
      omega
  | fault exchange => exact sound

theorem bodyStepSound_stopped (kept : ParserOk exchange)
    (states : bodyState exchange.state = true)
    (len count : Nat)
    (c : UInt8)
    (rest : Bytes) :
    BodyStepSound count (c :: rest)
      (.stopped exchange
        { len := len, count := count + 1, memory := rest }) := by
  refine ⟨kept, states, Nat.lt_succ_self count, ?_⟩
  rw [List.length_cons]
  exact Nat.add_right_comm count 1 rest.length

theorem chunkHeaderLoop_sound (inHeader : exchange.state = .bodyChunkHeader)
    (len count : Nat)
    (memory : Bytes) :
    BodyStepSound count memory
      (chunkHeaderLoop exchange len count memory) := by
  have kept :
      ∀ later : HttpExchange,
        later.state = .bodyChunkHeader → ParserOk later := by
    intro later same
    rw [ParserOk, same]
    rfl
  induction memory generalizing exchange len count with
  | nil => exact kept exchange inHeader
  | cons c rest ih =>
      rw [chunkHeaderLoop]
      split
      · dsimp only
        split
        · have kept :
              ParserOk
                { exchange with
                  state := .body, nextState := .bodyChunkTrailer } :=
            rfl
          exact bodyStepSound_stopped kept rfl len count c rest
        · have kept :
              ParserOk
                { exchange with
                  state := .bodyChunkTrailer, nextState := .complete } :=
            rfl
          exact bodyStepSound_stopped kept rfl len count c rest
      · dsimp only
        have same :
            (if c = cr then exchange
              else
                { exchange with
                  bodyRemain := chunkDigit exchange.bodyRemain c }).state
              = .bodyChunkHeader := by
          split
          · exact inHeader
          · exact inHeader
        split
        · exact
            bodyStepSound_stopped (kept _ same)
              (by rw [same]; rfl) 0 count c rest
        · exact (ih same (len - 1) (count + 1)).cons

/-- After a line of a trailer the parser moves to `next_state`. -/
theorem parserOk_jump (kept : ParserOk exchange)
    (inBody : exchange.state = .body ∨ exchange.state = .bodyChunkTrailer) :
    ParserOk { exchange with state := exchange.nextState } ∧
      bodyState exchange.nextState = true := by
  unfold ParserOk at kept ⊢
  dsimp only
  rcases inBody with body | trailer
  · rw [body] at kept
    cases next : exchange.nextState <;> rw [next] at kept <;>
      first | exact ⟨rfl, rfl⟩ | exact absurd kept (by decide)
  · rw [trailer] at kept
    cases next : exchange.nextState <;> rw [next] at kept <;>
      first | exact ⟨rfl, rfl⟩ | exact absurd kept (by decide)

theorem chunkTrailerLoop_sound (kept : ParserOk exchange)
    (inTrailer : exchange.state = .bodyChunkTrailer)
    (len count : Nat)
    (memory : Bytes) :
    BodyStepSound count memory
      (chunkTrailerLoop exchange len count memory) := by
  induction memory generalizing len count with
  | nil => exact kept
  | cons c rest ih =>
      rw [chunkTrailerLoop]
      split
      · have jumped := parserOk_jump kept (.inr inTrailer)
        exact bodyStepSound_stopped jumped.1 jumped.2 len count c rest
      · split
        · exact
            bodyStepSound_stopped kept (by rw [inTrailer]; rfl) 0 count c rest
        · exact (ih (len - 1) (count + 1)).cons

theorem bodyTaken_sound (kept : ParserOk exchange)
    (inBody : exchange.state = .body)
    (available : Nat) :
    ParserOk (bodyTaken exchange available) ∧
      bodyState (bodyTaken exchange available).state = true := by
  unfold bodyTaken
  dsimp only
  split
  · split
    · exact ⟨rfl, rfl⟩
    · exact parserOk_jump kept (.inl inBody)
  · exact ⟨kept, by dsimp only; rw [inBody]; rfl⟩

/-- The locals of the body loop over a memory of a given length. -/
structure BodyInside {σ : Type}
    (limit : Nat)
    (locals : BodyState σ) : Prop where
  kept : ParserOk locals.exchange
  states : bodyState locals.exchange.state = true
  left : locals.cursor.len ≠ 0
  total : locals.cursor.count + locals.cursor.memory.length = limit

/-- What the body loop owes when it leaves: bytes were taken, or the state is
`complete`. -/
def BodyParsed {σ : Type} (limit : Nat) : Parsed × σ → Prop
  | (.took count exchange, _) =>
      ParserOk exchange ∧
        bodyState exchange.state = true ∧
          count ≤ limit ∧
            (0 < count ∨ exchange.state = .complete)
  | (.failed _ exchange, _) => ParserOk exchange
  | (.fault exchange, _) => ParserOk exchange

theorem bodyResume_sound {σ : Type} (state : σ) {count : Nat}
    (total : count + memory.length = limit)
    {step : BodyStep}
    (sound : BodyStepSound count memory step) :
    (bodyResume state step).Satisfies
      (BodyInside limit) (BodyParsed limit) := by
  cases step with
  | stopped exchange cursor =>
      rcases sound with ⟨kept, states, above, sum⟩
      rw [bodyResume]
      split
      · rename_i left
        exact ⟨kept, states, left, sum.trans total⟩
      · exact ⟨kept, states, by omega, .inl (by omega)⟩
  | fault exchange => exact sound

theorem bodyTurn_sound {σ : Type} {callback : BodyCallback σ}
    (keeps : KeepsPhase callback)
    {locals : BodyState σ}
    (inside : BodyInside limit locals) :
    (bodyTurn callback locals).Satisfies
      (BodyInside limit) (BodyParsed limit) := by
  have total := inside.total
  unfold bodyTurn
  dsimp only
  cases state : locals.exchange.state with
  | bodyChunkHeader =>
      exact
        bodyResume_sound locals.state total (chunkHeaderLoop_sound state _ _ _)
  | bodyChunkTrailer =>
      exact
        bodyResume_sound locals.state total
          (chunkTrailerLoop_sound inside.kept state _ _ _)
  | body =>
      dsimp only
      split
      · rw [bodyResume, if_pos inside.left]
        exact ⟨rfl, rfl, inside.left, total⟩
      · rename_i remaining
        have left := inside.left
        rw [bodyBytesTurn]
        split
        · exact inside.kept
        · rename_i readable
          have phase :=
            keeps locals.state locals.exchange
              (locals.cursor.memory.take
                (min locals.cursor.len locals.exchange.bodyRemain))
          have kept :
              ∀ result, callback locals.state locals.exchange
                  (locals.cursor.memory.take
                    (min locals.cursor.len
                      locals.exchange.bodyRemain)) = result →
                ParserOk result.2.1 ∧ result.2.1.state = .body := by
            intro result equal
            rw [equal] at phase
            refine ⟨?_, phase.1.trans state⟩
            unfold ParserOk
            rw [phase.1, phase.2]
            exact inside.kept
          split
          · rename_i exchange later outcome
            have taken := kept _ outcome
            have sound :=
              bodyTaken_sound taken.1 taken.2
                (min locals.cursor.len locals.exchange.bodyRemain)
            refine bodyResume_sound later total ?_
            refine ⟨sound.1, sound.2, ?_, ?_⟩
            · dsimp only
              omega
            · dsimp only
              rw [List.length_drop]
              omega
          · rename_i errno exchange later outcome
            exact (kept _ outcome).1
  | complete =>
      refine ⟨inside.kept, inside.states, ?_, .inr state⟩
      omega
  | _ =>
      have states := inside.states
      rw [state] at states
      exact absurd states (by decide)

/-- The body parser, in a state it is called in, with bytes left. -/
theorem ymoParseHttpBody_sound {σ : Type} {callback : BodyCallback σ}
    (keeps : KeepsPhase callback)
    (state : σ)
    (kept : ParserOk exchange)
    (states : bodyState exchange.state = true)
    (memory : Bytes)
    (left : len ≠ 0) :
    BodyParsed memory.length
      (ymoParseHttpBody callback state exchange memory len) := by
  apply loop_satisfies (BodyInside memory.length) (BodyParsed memory.length)
  · intro locals inside
    exact bodyTurn_sound keeps inside
  · intro locals inside
    exact inside.kept
  · exact ⟨kept, states, left, Nat.zero_add _⟩

/-- What the loop of the body parser still has to do. -/
def bodyMeasure {σ : Type} (locals : BodyState σ) : Nat :=
  2 * locals.cursor.memory.length +
    if locals.exchange.state = .complete then 0 else 1

theorem bodyMeasure_lt {σ : Type} {locals next : BodyState σ}
    (shorter : next.cursor.memory.length < locals.cursor.memory.length) :
    bodyMeasure next < bodyMeasure locals := by
  unfold bodyMeasure
  split <;> split <;> omega

theorem bodyResume_shorter {σ : Type} {state : σ} {count : Nat}
    {step : BodyStep}
    (sound : BodyStepSound count memory step)
    {next : BodyState σ}
    (goesOn : bodyResume state step = .again next) :
    next.cursor.memory.length < memory.length := by
  cases step with
  | stopped exchange cursor =>
      rcases sound with ⟨-, -, above, total⟩
      rw [bodyResume] at goesOn
      split at goesOn
      · cases goesOn
        dsimp only
        omega
      · nomatch goesOn
  | fault exchange => nomatch goesOn

/-- A turn that goes on takes a byte, or moves to `complete`. -/
theorem bodyTurn_decreases {σ : Type} {callback : BodyCallback σ}
    (keeps : KeepsPhase callback)
    {locals next : BodyState σ}
    (inside : BodyInside limit locals)
    (goesOn : bodyTurn callback locals = .again next) :
    BodyInside limit next ∧ bodyMeasure next < bodyMeasure locals := by
  have sound := bodyTurn_sound keeps inside
  rw [goesOn] at sound
  refine ⟨sound, ?_⟩
  unfold bodyTurn at goesOn
  dsimp only at goesOn
  cases state : locals.exchange.state with
  | bodyChunkHeader =>
      rw [state] at goesOn
      exact
        bodyMeasure_lt
          (bodyResume_shorter (chunkHeaderLoop_sound state _ _ _) goesOn)
  | bodyChunkTrailer =>
      rw [state] at goesOn
      exact
        bodyMeasure_lt
          (bodyResume_shorter
            (chunkTrailerLoop_sound inside.kept state _ _ _) goesOn)
  | body =>
      rw [state] at goesOn
      dsimp only at goesOn
      split at goesOn
      · rw [bodyResume, if_pos inside.left] at goesOn
        cases goesOn
        simp [bodyMeasure, state]
      · rename_i remaining
        have left := inside.left
        unfold bodyBytesTurn at goesOn
        dsimp only at goesOn
        split at goesOn
        · nomatch goesOn
        · split at goesOn
          · rw [bodyResume] at goesOn
            split at goesOn
            · cases goesOn
              apply bodyMeasure_lt
              dsimp only
              rw [List.length_drop]
              omega
            · nomatch goesOn
          · nomatch goesOn
  | _ =>
      rw [state] at goesOn
      nomatch goesOn

/-- The loop of the body parser leaves by a turn of its own. -/
theorem ymoParseHttpBody_ends {σ : Type} {callback : BodyCallback σ}
    (keeps : KeepsPhase callback)
    (state : σ)
    (kept : ParserOk exchange)
    (states : bodyState exchange.state = true)
    (memory : Bytes)
    (left : len ≠ 0) :
    ∃ last,
      Reaches (bodyTurn callback)
          { state := state
            exchange := exchange
            cursor := { len := len, count := 0, memory := memory } }
          last ∧
        bodyTurn callback last =
          .done (ymoParseHttpBody callback state exchange memory len) := by
  have inside :
      BodyInside memory.length
        { state := state
          exchange := exchange
          cursor := { len := len, count := 0, memory := memory } } :=
    ⟨kept, states, left, Nat.zero_add _⟩
  rcases
    loop_ends (BodyInside memory.length) bodyMeasure
      (fun _ _ inside goesOn => bodyTurn_decreases keeps inside goesOn)
      (fun locals : BodyState σ => (.fault locals.exchange, locals.state))
      (2 * memory.length + 3) inside
      (by unfold bodyMeasure; dsimp only; split <;> omega)
    with ⟨last, reaches, -, ended⟩
  exact ⟨last, reaches, ended⟩

/-! ## The callbacks of the reader -/

theorem phase_of_framed {left right : HttpExchange}
    (same : framed left = framed right) :
    left.state = right.state ∧ left.nextState = right.nextState := by
  have states := congrArg HttpExchange.state same
  have nextStates := congrArg HttpExchange.nextState same
  exact ⟨states, nextStates⟩

theorem parserOk_of_framed {left right : HttpExchange}
    (same : framed left = framed right)
    (kept : ParserOk right) :
    ParserOk left := by
  have phase := phase_of_framed same
  rw [ParserOk, phase.1, phase.2]
  exact kept

theorem bodyCb_keepsPhase (protoData : HttpProtoData) :
    KeepsPhase (bodyCb protoData) := by
  intro state exchange data
  unfold bodyCb
  cases protoData.bodyCb with
  | none =>
      simp only [bufferBodyCb]
      split
      · exact ⟨rfl, rfl⟩
      · split
        · exact ⟨rfl, rfl⟩
        · exact ⟨rfl, rfl⟩
  | some callback => exact phase_of_framed (framed_runCalls exchange _ _)

/-! ## The turns of the reader -/

/-- The loop is at its start, with bytes left. -/
structure ReadInside (locals : ReadLocals) : Prop where
  kept : ParserOk locals.exchange
  left : locals.scan.len ≠ 0

/-- A result of the loop's own, whose exchange keeps the invariant. -/
structure ResultOk (result : ReadResult) : Prop where
  ended : result.outcome ≠ .spin
  kept : ∀ exchange, result.exchange = some exchange → ParserOk exchange

/-- A turn takes a byte, moves to a later state, or leaves the loop. -/
def Progresses (before : ReadLocals) :
    Turn ReadLocals ReadResult → Prop
  | .again later =>
      later.scan.memory.length < before.scan.memory.length ∨
        (later.scan.memory = before.scan.memory ∧
          before.exchange.state.rank < later.exchange.state.rank)
  | .done result => result.outcome ≠ .spin

/-- A turn goes on outside a query, if it goes on. -/
def LeavesQuery : Turn ReadLocals ReadResult → Prop
  | .again later => inQuery later.exchange.state = false
  | .done _ => True

/-- What every turn owes, and what it owes when it starts outside a query. -/
structure TurnSound
    (before : ReadLocals)
    (turn : Turn ReadLocals ReadResult) : Prop where
  keeps : turn.Satisfies ReadInside ResultOk
  progresses :
    inQuery before.exchange.state = false →
      Progresses before turn ∧ LeavesQuery turn

theorem turnSound_done {before : ReadLocals} {result : ReadResult}
    (okay : ResultOk result) :
    TurnSound before (.done result) :=
  ⟨okay, fun _ => ⟨okay.ended, trivial⟩⟩

theorem parseComplete_ok (kept : ParserOk exchange) (state : ReadState)
    (taken : Nat) :
    ResultOk (parseComplete protoData exchange state taken) := by
  have framedSame :=
    framed_handlerCallback protoData exchange (state.emit .handler)
  have keptAfter := parserOk_of_framed framedSame kept
  have keptResult :
      ∀ status later,
        (handleCallbackResult status
            (handlerCallback protoData exchange (state.emit .handler)).2.1
            (handlerCallback protoData exchange (state.emit .handler)).2.2).1 =
          some later →
          ParserOk later := by
    intro status later equal
    unfold handleCallbackResult at equal
    split at equal
    · rw [← Option.some.inj equal]
      split
      · rfl
      · exact keptAfter
    · split at equal
      · nomatch equal
      · rw [← Option.some.inj equal]
        exact keptAfter
  unfold parseComplete
  dsimp only
  split
  · refine ⟨?_, keptResult _⟩
    cases (handlerCallback protoData exchange
                (state.emit .handler)).1 <;>
      exact ReadOutcome.noConfusion
  · exact ⟨ReadOutcome.noConfusion, keptResult _⟩

theorem expectBody_state (exchange : HttpExchange) :
    ParserOk (expectBody exchange) ∧
      inQuery (expectBody exchange).state = false ∧
        HttpState.headersComplete.rank < (expectBody exchange).state.rank := by
  have body : HttpState.headersComplete.rank < HttpState.body.rank := by decide
  have chunk :
      HttpState.headersComplete.rank < HttpState.bodyChunkHeader.rank := by
    decide
  have complete :
      HttpState.headersComplete.rank < HttpState.complete.rank := by
    decide
  unfold expectBody
  dsimp only
  split
  · exact ⟨rfl, rfl, body⟩
  · split
    · exact ⟨rfl, rfl, chunk⟩
    · exact ⟨rfl, rfl, complete⟩

theorem headersCompleteTurn_sound {before locals : ReadLocals}
    (fromHead :
      locals.scan.len ≠ 0 →
        locals.scan.memory = before.scan.memory ∧
          before.exchange.state.rank ≤ HttpState.headersComplete.rank) :
    TurnSound before (headersCompleteTurn protoData locals) := by
  have ready := expectBody_state locals.exchange
  have framedSame :=
    framed_headersComplete protoData locals.exchange locals.state
  have phase := phase_of_framed framedSame
  have kept := parserOk_of_framed framedSame ready.1
  rw [← phase.1] at ready
  unfold headersCompleteTurn
  generalize
    headersComplete protoData locals.exchange locals.state = outcome
    at phase kept ready ⊢
  rcases outcome with ⟨status, exchange, state⟩
  cases status with
  | err errno =>
      refine turnSound_done ⟨ReadOutcome.noConfusion, ?_⟩
      intro later equal
      rw [← Option.some.inj equal]
      exact kept
  | okay =>
      dsimp only
      split
      · rename_i left
        have head := fromHead left
        have rank := Nat.lt_of_le_of_lt head.2 ready.2.2
        exact ⟨⟨kept, left⟩, fun _ => ⟨.inr ⟨head.1, rank⟩, ready.2.1⟩⟩
      · split
        · exact turnSound_done (parseComplete_ok protoData kept _ _)
        · refine turnSound_done ⟨ReadOutcome.noConfusion, ?_⟩
          intro later equal
          rw [← Option.some.inj equal]
          exact kept

/-- `while( len )` after a parser call that has taken its bytes. -/
theorem loopTest_sound {before locals : ReadLocals}
    (kept : ParserOk locals.exchange)
    (advanced :
      locals.scan.len ≠ 0 →
        inQuery before.exchange.state = false →
          Progresses before (.again locals) ∧
            inQuery locals.exchange.state = false) :
    TurnSound before (loopTest protoData locals) := by
  have returned : ResultOk (returnTaken locals) := by
    refine ⟨ReadOutcome.noConfusion, ?_⟩
    intro later equal
    rw [← Option.some.inj equal]
    exact kept
  unfold loopTest
  split
  · rename_i left
    exact ⟨⟨kept, left⟩, advanced left⟩
  · rename_i nothing
    split
    · exact turnSound_done (parseComplete_ok protoData kept _ _)
    · exact
        headersCompleteTurn_sound protoData (fun left => absurd left nothing)
    · exact turnSound_done returned

/-- What follows a sound parser call. -/
theorem afterParse_sound {before : ReadLocals}
    (state : ReadState)
    (took :
      ∀ count exchange,
        parsed = .took count exchange →
          ParserOk exchange ∧
            ((before.scan.advance count).len ≠ 0 →
              inQuery before.exchange.state = false →
                Progresses before
                    (.again
                      { exchange := exchange
                        state := state
                        scan := before.scan.advance count }) ∧
                  inQuery exchange.state = false))
    (failed :
      ∀ errno exchange, parsed = .failed errno exchange → ParserOk exchange)
    (fault : ∀ exchange, parsed = .fault exchange → ParserOk exchange) :
    TurnSound before (afterParse protoData before.scan state parsed) := by
  cases parsed with
  | took count exchange =>
      have sound := took count exchange rfl
      exact loopTest_sound protoData sound.1 sound.2
  | failed errno exchange =>
      have kept := failed errno exchange rfl
      refine turnSound_done ⟨?_, ?_⟩
      · unfold ymoProtoHttpHandleError
        dsimp only
        split <;> exact ReadOutcome.noConfusion
      · intro later equal
        unfold ymoProtoHttpHandleError at equal
        dsimp only at equal
        split at equal <;> (rw [← Option.some.inj equal]; exact kept)
  | fault exchange =>
      have kept := fault exchange rfl
      refine turnSound_done ⟨ReadOutcome.noConfusion, ?_⟩
      intro later equal
      rw [← Option.some.inj equal]
      exact kept

/-- The switch of the head misses only the states of a query, `expect`, and
the states it leaves to the rest of the function. -/
theorem inQuery_of_parseHead_eq_none {stray buffer : Bytes}
    (kept : ParserOk exchange)
    (notBody : bodyState exchange.state = false)
    (notHeaders : exchange.state ≠ .headersComplete)
    (missed : parseHead stray exchange buffer = none) :
    inQuery exchange.state = true := by
  unfold parseHead at missed
  unfold ParserOk at kept
  cases state : exchange.state <;> rw [state] at missed kept notBody notHeaders
  case requestQuery => rfl
  case requestFragment => rfl
  case expect => exact absurd kept Bool.false_ne_true
  case headersComplete => exact absurd rfl notHeaders
  case bodyChunkHeader => exact absurd notBody (by decide)
  case body => exact absurd notBody (by decide)
  case bodyChunkTrailer => exact absurd notBody (by decide)
  case complete => exact absurd notBody (by decide)
  all_goals nomatch missed

theorem headTurn_sound (inside : ReadInside locals)
    (notBody : bodyState locals.exchange.state = false)
    (notHeaders : locals.exchange.state ≠ .headersComplete) :
    TurnSound locals (headTurn protoData locals) := by
  have left := inside.left
  unfold headTurn
  dsimp only
  split
  · exact
      afterParse_sound protoData locals.state
        (fun count exchange equal => nomatch equal)
        (fun errno exchange equal => nomatch equal)
        (fun exchange equal => by cases equal; exact inside.kept)
  · rename_i readable
    have length :
        (locals.scan.memory.take locals.scan.len).length =
          locals.scan.len := by
      rw [List.length_take]
      omega
    have nonempty : locals.scan.memory.take locals.scan.len ≠ [] := by
      rw [← List.length_pos_iff, length]
      exact Nat.pos_of_ne_zero left
    split
    · rename_i parsed called
      have sound := parseHead_sound protoData.stray inside.kept nonempty called
      rw [length] at sound
      refine afterParse_sound protoData locals.state ?_ ?_ ?_
      · intro count exchange equal
        subst equal
        rcases sound with ⟨kept, bound, moved, query⟩
        refine ⟨kept, ?_⟩
        intro some outside
        rw [Scan.advance, if_pos bound] at some
        refine ⟨?_, ?_⟩
        · rcases moved with positive | rank
          · refine .inl ?_
            simp only [Scan.advance, List.length_drop]
            omega
          · by_cases none : count = 0
            · subst none
              exact .inr ⟨rfl, rank⟩
            · refine .inl ?_
              simp only [Scan.advance, List.length_drop]
              omega
        · cases inside : inQuery exchange.state with
          | false => rfl
          | true =>
              have all := query inside
              dsimp only at some
              omega
      · intro errno exchange equal
        subst equal
        exact sound
      · intro exchange equal
        subst equal
        exact sound
    · rename_i notCalled
      refine afterParse_sound protoData locals.state ?_ ?_ ?_
      · intro count exchange equal
        cases equal
        refine ⟨inside.kept, ?_⟩
        intro some outside
        have query :=
          inQuery_of_parseHead_eq_none inside.kept notBody notHeaders notCalled
        rw [outside] at query
        exact absurd query Bool.false_ne_true
      · exact fun errno exchange equal => nomatch equal
      · exact fun exchange equal => nomatch equal

theorem bodyStateTurn_sound (inside : ReadInside locals)
    (states : bodyState locals.exchange.state = true)
    (notComplete : locals.exchange.state ≠ .complete) :
    TurnSound locals (bodyStateTurn protoData locals) := by
  have sound :=
    ymoParseHttpBody_sound (bodyCb_keepsPhase protoData) locals.state
      inside.kept states locals.scan.memory inside.left
  unfold bodyStateTurn
  generalize
    ymoParseHttpBody (bodyCb protoData) locals.state locals.exchange
      locals.scan.memory locals.scan.len = outcome at sound ⊢
  rcases outcome with ⟨parsed, state⟩
  refine afterParse_sound protoData state ?_ ?_ ?_
  · intro count exchange equal
    subst equal
    rcases sound with ⟨kept, later, bound, moved⟩
    refine ⟨kept, ?_⟩
    intro some outside
    refine ⟨?_, ?_⟩
    · by_cases none : count = 0
      · subst none
        rcases moved with positive | complete
        · exact absurd positive (Nat.lt_irrefl 0)
        · refine .inr ⟨rfl, ?_⟩
          dsimp only
          rw [complete]
          cases state : locals.exchange.state <;>
            rw [state] at states notComplete <;>
              first
                | decide
                | exact absurd states (by decide)
                | exact absurd rfl notComplete
      · refine .inl ?_
        simp only [Scan.advance, List.length_drop]
        omega
    · cases state : exchange.state <;> rw [state] at later <;>
        first | rfl | exact absurd later (by decide)
  · intro errno exchange equal
    subst equal
    exact sound
  · intro exchange equal
    subst equal
    exact sound

/-- One turn of the loop of `ymo_proto_http_read`. -/
theorem readTurn_sound (inside : ReadInside locals) :
    TurnSound locals (readTurn protoData locals) := by
  unfold readTurn
  split
  · rename_i isComplete
    refine headersCompleteTurn_sound protoData fun left => ⟨rfl, ?_⟩
    rw [isComplete]
  · exact turnSound_done (parseComplete_ok protoData inside.kept _ _)
  · rename_i state
    exact
      bodyStateTurn_sound protoData inside (by rw [state]; rfl)
        (by rw [state]; exact HttpState.noConfusion)
  · rename_i state
    exact
      bodyStateTurn_sound protoData inside (by rw [state]; rfl)
        (by rw [state]; exact HttpState.noConfusion)
  · rename_i state
    exact
      bodyStateTurn_sound protoData inside (by rw [state]; rfl)
        (by rw [state]; exact HttpState.noConfusion)
  · rename_i notHeaders notComplete notChunk notBody notTrailer
    refine headTurn_sound protoData inside ?_ notHeaders
    cases state : locals.exchange.state <;>
      first
        | rfl
        | exact absurd state notHeaders
        | exact absurd state notComplete
        | exact absurd state notChunk
        | exact absurd state notBody
        | exact absurd state notTrailer

/-! ## The sessions a server can have -/

/-- The exchanges a session can have between two calls, by any reads and any
errors of the session in between. -/
inductive Reachable (protoData : HttpProtoData) :
    Option HttpExchange → Prop where
  | fresh : Reachable protoData none
  | read
      {exchange : Option HttpExchange}
      (earlier : Reachable protoData exchange)
      (error : Bool)
      {memory : Bytes}
      {len : Nat}
      (nonempty : 0 < len)
      (readable : len ≤ memory.length) :
      Reachable protoData
        (ymoProtoHttpRead protoData error exchange memory len).exchange

/-- The exchange a call works on: the session's, or a new one. -/
def readyExchange (exchange : Option HttpExchange) : HttpExchange :=
  exchange.getD ymoHttpExchangeCreate

theorem ymoHttpSessionIsReadReady_exchange (exchange : Option HttpExchange)
    (state : ReadState) :
    (ymoHttpSessionIsReadReady exchange state).1 = readyExchange exchange := by
  cases exchange <;> rfl

theorem parserOk_create : ParserOk ymoHttpExchangeCreate :=
  rfl

/-- A call keeps the two state bytes in phase. -/
theorem ymoProtoHttpRead_parserOk (error : Bool)
    (kept : ParserOk (readyExchange session))
    (memory : Bytes)
    (nonempty : 0 < len) :
    ParserOk
      (readyExchange
        (ymoProtoHttpRead protoData error session memory len).exchange) := by
  unfold ymoProtoHttpRead
  dsimp only
  split
  · exact kept
  · have all :
        ∀ later,
          (loop (readTurn protoData) readGiveUp (readFuel memory)
            { exchange :=
                (ymoHttpSessionIsReadReady session
                  { error := error, effects := [] }).1
              state :=
                (ymoHttpSessionIsReadReady session
                  { error := error, effects := [] }).2
              scan :=
                { memory := memory, len := len,
                  taken := 0 } }).exchange = some later →
            ParserOk later := by
      apply loop_satisfies ReadInside
        (fun result : ReadResult =>
          ∀ later, result.exchange = some later → ParserOk later)
      · intro locals inside
        have sound := (readTurn_sound protoData inside).keeps
        cases turn : readTurn protoData locals with
        | again later =>
            rw [turn] at sound
            exact sound
        | done result =>
            rw [turn] at sound
            exact sound.kept
      · intro locals inside later equal
        rw [← Option.some.inj equal]
        exact inside.kept
      · refine ⟨?_, Nat.pos_iff_ne_zero.mp nonempty⟩
        rw [ymoHttpSessionIsReadReady_exchange]
        exact kept
    generalize
      loop (readTurn protoData) readGiveUp (readFuel memory) _ =
        result at all ⊢
    cases last : result.exchange with
    | none => exact parserOk_create
    | some later => exact all later last

theorem Reachable.parserOk {protoData : HttpProtoData}
    (reachable : Reachable protoData session) :
    ParserOk (readyExchange session) := by
  induction reachable with
  | fresh => exact parserOk_create
  | read earlier error nonempty readable held =>
      exact ymoProtoHttpRead_parserOk protoData error held _ nonempty

/-! ## Termination -/

/-- The locals of a call when its loop starts. -/
def readStart (session : Option HttpExchange) (memory : Bytes) (len : Nat) :
    ReadLocals :=
  let ready :=
    ymoHttpSessionIsReadReady session { error := false, effects := [] }
  { exchange := ready.1
    state := ready.2
    scan := { memory := memory, len := len, taken := 0 } }

/--
The loop of a call terminates: every turn of it takes a byte, strictly advances
the exchange state or leaves the loop, and with enough fuel it does leave.
-/
structure ReadTerminates
    (protoData : HttpProtoData)
    (session : Option HttpExchange)
    (memory : Bytes)
    (len : Nat) : Prop where
  progresses :
    ∀ locals,
      Reaches (readTurn protoData) (readStart session memory len)
          locals →
        Progresses locals (readTurn protoData locals)
  ends :
    ∃ fuel,
      (loop (readTurn protoData) readGiveUp fuel
        (readStart session memory len)).outcome ≠ .spin

/-- Inside the loop and outside a query. -/
structure ReadAhead (locals : ReadLocals) : Prop where
  inside : ReadInside locals
  outside : inQuery locals.exchange.state = false

/-- The bytes left, and how far the exchange state can still advance. -/
def readMeasure (locals : ReadLocals) : Nat :=
  17 * locals.scan.memory.length + (16 - locals.exchange.state.rank)

theorem rank_lt (state : HttpState) : state.rank < 16 := by
  cases state <;> decide

theorem readTurn_decreases {locals next : ReadLocals}
    (ahead : ReadAhead locals)
    (goesOn : readTurn protoData locals = .again next) :
    ReadAhead next ∧ readMeasure next < readMeasure locals := by
  have sound := readTurn_sound protoData ahead.inside
  have keeps := sound.keeps
  have moved := sound.progresses ahead.outside
  rw [goesOn] at keeps moved
  refine ⟨⟨keeps, moved.2⟩, ?_⟩
  have nextRank := rank_lt next.exchange.state
  have rank := rank_lt locals.exchange.state
  unfold readMeasure
  rcases moved.1 with shorter | ⟨same, further⟩
  · omega
  · rw [same]
    omega

/-- Outside a query the loop leaves by a turn of its own. -/
theorem readLoop_ends (ahead : ReadAhead locals) {fuel : Nat}
    (enough : readMeasure locals < fuel) :
    (loop (readTurn protoData) readGiveUp fuel locals).outcome ≠ .spin := by
  rcases
    loop_ends ReadAhead readMeasure
      (fun locals next held goesOn => readTurn_decreases protoData held goesOn)
      readGiveUp fuel ahead enough
    with ⟨last, -, held, ended⟩
  have keeps := (readTurn_sound protoData held.inside).keeps
  rw [ended] at keeps
  exact keeps.ended

theorem readMeasure_lt_readFuel (session : Option HttpExchange)
    (memory : Bytes)
    (len : Nat) :
    readMeasure (readStart session memory len) < readFuel memory := by
  have bytes : (readStart session memory len).scan.memory = memory := rfl
  unfold readMeasure readFuel
  rw [bytes]
  omega

/-- With its own fuel the function never gives up outside a query. -/
theorem ymoProtoHttpRead_outcome_ne_spin
    (ahead : ReadAhead (readStart session memory len)) :
    (ymoProtoHttpRead protoData false session memory len).outcome ≠ .spin :=
  readLoop_ends protoData ahead (readMeasure_lt_readFuel session memory len)

/-- A call of `ymo_proto_http_read` starts inside its loop. -/
theorem readStart_inside {protoData : HttpProtoData}
    (reachable : Reachable protoData session)
    (memory : Bytes)
    (nonempty : 0 < len) :
    ReadInside (readStart session memory len) := by
  refine ⟨?_, Nat.pos_iff_ne_zero.mp nonempty⟩
  have exchange :
      (readStart session memory len).exchange = readyExchange session :=
    ymoHttpSessionIsReadReady_exchange session _
  rw [exchange]
  exact reachable.parserOk

/-- In a query the switch calls no parser, and the turn changes nothing. -/
theorem readTurn_inQuery (query : inQuery locals.exchange.state = true)
    (left : locals.scan.len ≠ 0)
    (readable : locals.scan.len ≤ locals.scan.memory.length) :
    readTurn protoData locals = .again locals := by
  have unmoved : locals.scan.advance 0 = locals.scan := by
    simp only [Scan.advance, List.drop_zero, Nat.zero_le, if_true,
      Nat.sub_zero, Nat.add_zero]
  have headTurns : headTurn protoData locals = .again locals := by
    unfold headTurn
    dsimp only
    rw [if_neg (Nat.not_lt.mpr readable)]
    have missed :
        parseHead protoData.stray locals.exchange
          (locals.scan.memory.take locals.scan.len) = none := by
      unfold parseHead
      cases state : locals.exchange.state <;> rw [state] at query <;>
        first | rfl | exact absurd query (by decide)
    rw [missed]
    simp only [afterParse, loopTest, unmoved, if_pos left]
  unfold readTurn
  cases state : locals.exchange.state <;> rw [state] at query <;>
    first | exact headTurns | exact absurd query (by decide)

/--
The loop of `ymo_proto_http_read` terminates, by progress in every turn, exactly
in the calls that do not start in the query or the fragment of a request line.
-/
theorem readTerminates_iff {protoData : HttpProtoData}
    {session : Option HttpExchange}
    (reachable : Reachable protoData session)
    {memory : Bytes}
    {len : Nat}
    (nonempty : 0 < len)
    (readable : len ≤ memory.length) :
    ReadTerminates protoData session memory len ↔
      inQuery (readyExchange session).state = false := by
  have inside := readStart_inside reachable memory nonempty
  have exchange :
      (readStart session memory len).exchange = readyExchange session :=
    ymoHttpSessionIsReadReady_exchange session _
  rw [← exchange]
  constructor
  · intro terminates
    rcases terminates.ends with ⟨fuel, ended⟩
    cases query : inQuery (readStart session memory len).exchange.state
    case false => rfl
    case true =>
      have stuck := readTurn_inQuery protoData query inside.left readable
      rw [loop_stuck stuck] at ended
      exact absurd rfl ended
  · intro outside
    have ahead : ReadAhead (readStart session memory len) := ⟨inside, outside⟩
    constructor
    case progresses =>
      intro locals reaches
      have held :=
        reaches.invariant
          (fun _ _ before goesOn =>
            (readTurn_decreases protoData before goesOn).1)
          ahead
      exact
        ((readTurn_sound protoData held.inside).progresses
          held.outside).1
    case ends =>
      exact
        ⟨_, readLoop_ends protoData ahead
          (readMeasure_lt_readFuel session memory len)⟩

theorem readTerminates_iff_get :
    ReadTerminates quietApplication none (bytes "GET") 3 ↔
      inQuery (readyExchange none).state = false :=
  readTerminates_iff .fresh (by decide) (by decide)

/-- A read that ends in the query, and the byte after it. -/
theorem not_readTerminates_query :
    Reachable quietApplication
        (ymoProtoHttpRead quietApplication false none
          (bytes "GET /?x") 7).exchange ∧
      ¬ ReadTerminates quietApplication
        (ymoProtoHttpRead quietApplication false none
          (bytes "GET /?x") 7).exchange (bytes "y") 1 := by
  have reachable :
      Reachable quietApplication
        (ymoProtoHttpRead quietApplication false none
          (bytes "GET /?x") 7).exchange :=
    .read .fresh false (by decide) (by decide)
  refine ⟨reachable, ?_⟩
  intro terminates
  have inside := readStart_inside reachable (bytes "y") Nat.one_pos
  rcases terminates.ends with ⟨fuel, ended⟩
  have stuck :=
    readTurn_inQuery quietApplication (by decide) inside.left (by decide)
  rw [loop_stuck stuck] at ended
  exact absurd rfl ended

end Yimmo.Http.ReadProgress
