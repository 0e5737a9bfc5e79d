import Yimmo.Http.KeepAlive

/-!
# What a read call does to its response

`ymo_proto_http_read` creates a response when the headers of a request are
complete, calls the application on it, hands it to `ymo_http_handler` when the
request is complete, and then puts it on the session's list or frees it.  This
module follows the response of the exchange through the effects of a call:
`Stage` is the place it has reached, and every call goes from one stage to the
next without leaving any out.

The exchange knows whether it has such a response: it does from the end of the
headers until the response is put on the list.  A call may start anywhere, except
in a request that is complete and whose response is already on the list.
-/

namespace Yimmo.Http.ReadEffects

open Yimmo.Core.StatusCode
open Yimmo.Lib.TurnLoop
open Yimmo.Lib.ByteMemory
open Yimmo.Http.Headers
open Yimmo.Http.Exchange
open Yimmo.Http.Parse
open Yimmo.Http.Application
open Yimmo.Http.Reader
open Yimmo.Http.ReadProgress
open Yimmo.Http.KeepAlive

variable
    {state : ReadState}
    {exchange : HttpExchange}
    {locals : ReadLocals}
    {len : Nat}
    {session : Option HttpExchange}
    (protoData : HttpProtoData)
    (stray : Bytes)

/-! ## Stages -/

/-- The place the response of the exchange has reached. -/
inductive Stage where
  /-- The session has no exchange. -/
  | absent
  /-- The exchange has no response of its own. -/
  | idle
  /-- The head was refused, and the session is in error. -/
  | refused
  /-- The response was created for the request; `100 Continue` was sent for it,
  or may still be. -/
  | answering (continued : Bool)
  /-- `ymo_http_handler` was called. -/
  | handling
  /-- The response has taken the exchange. -/
  | detached
  /-- The response is on the list, and the exchange is the session's. -/
  | settled
  /-- The response is on the list, with the exchange. -/
  | gone
  /-- The response was freed. -/
  | dropped
deriving DecidableEq, Repr

/-- The content the exchange object was given last. -/
def stored (effects : List Effect) : Option HttpExchange :=
  effects.foldl
    (fun content effect =>
      match effect with
      | .store exchange => some exchange
      | _ => content)
    none

/-- The stage after an effect, if the effect is in its place. -/
def Stage.after : Stage → Effect → Option Stage
  | stage, .shown _ => some stage
  | stage, .store _ => some stage
  | stage, .serverState => some stage
  | .absent, .newExchange => some .idle
  | .idle, .initResponse _ => some (.answering false)
  | .idle, .errorResponse status =>
      if 400 ≤ status then some .refused else none
  | .answering false, .sendContinue => some (.answering true)
  | .answering continued, .call _ => some (.answering continued)
  | .answering continued, .errorResponse _ => some (.answering continued)
  | .answering _, .handler => some .handling
  | .handling, .call _ => some .handling
  | .handling, .protoNew _ => some .handling
  | .handling, .detachExchange => some .detached
  | .handling, .addResponse => some .settled
  | .handling, .freeResponse => some .dropped
  | .detached, .addResponse => some .gone
  | _, _ => none

/-- The stage after the effects, if each is in its place. -/
def Stage.follow (stage : Stage) (effects : List Effect) : Option Stage :=
  effects.foldlM Stage.after stage

theorem Stage.follow_append (stage : Stage) (front back : List Effect) :
    stage.follow (front ++ back) =
      (stage.follow front).bind fun later => later.follow back :=
  List.foldlM_append

theorem Stage.follow_emit {start stage later : Stage}
    (reached : start.follow state.effects = some stage)
    {effect : Effect}
    (placed : stage.after effect = some later) :
    start.follow (state.emit effect).effects = some later := by
  rw [ReadState.emit, Stage.follow_append, reached]
  simp only [Option.bind_some, Stage.follow, List.foldlM_cons, placed,
    List.foldlM_nil]
  rfl

/-- The exchange has a response that is not on the list yet. -/
def unanswered (exchange : HttpExchange) : Bool :=
  exchange.response.any fun response => !response.queued

/-- Where reading goes on: in a head, or in a body with its response. -/
inductive Reading
    (start : Stage)
    (exchange : HttpExchange)
    (state : ReadState) : Prop where
  | head
      (phase : HeadPhase exchange)
      (answered : unanswered exchange = false)
      (calm : state.error = false)
      (reached : start.follow state.effects = some .idle)
  | body
      (phase : BodyPhase exchange)
      (waiting : unanswered exchange = true)
      (continued : Bool)
      (reached : start.follow state.effects = some (.answering continued))

/-! ## The parsers of the head -/

/-- The exchange still has this response. -/
def KeepsResponse (response : Option ResponseHandle) : Parsed → Prop
  | .took _ exchange => exchange.response = response
  | .failed _ exchange => exchange.response = response
  | .fault exchange => exchange.response = response

theorem parseDone_keepsResponse (exchange : HttpExchange) (cursor : Cursor)
    (count : Nat) :
    KeepsResponse exchange.response (parseDone exchange cursor count) := by
  unfold parseDone
  split <;> rfl

/-- The same for one byte of the request line. -/
def StepKeepsResponse (response : Option ResponseHandle) : LineStep → Prop
  | .more exchange _ => exchange.response = response
  | .line exchange _ => exchange.response = response
  | .failed _ exchange => exchange.response = response
  | .stop => True

theorem response_checkRequest {exchange checked : HttpExchange}
    {cursor : Cursor}
    {versionLen : Nat}
    (accepted : checkRequest exchange cursor versionLen = some checked) :
    checked.response = exchange.response := by
  unfold checkRequest at accepted
  dsimp only at accepted
  split at accepted
  · split at accepted
    · rw [← Option.some.inj accepted]
    · split at accepted
      · rw [← Option.some.inj accepted]
      · nomatch accepted
  · nomatch accepted

theorem requestLineByte_keepsResponse (exchange : HttpExchange)
    (cursor : Cursor)
    (c : UInt8) :
    StepKeepsResponse exchange.response
      (requestLineByte exchange cursor c) := by
  cases state : exchange.state with
  | requestMethod =>
      simp only [requestLineByte, state]
      split
      · rfl
      · split <;> rfl
  | requestUriPath =>
      simp only [requestLineByte, state]
      split
      · rfl
      · split
        · rfl
        · split <;> rfl
  | requestQuery =>
      simp only [requestLineByte, state]
      split
      · rfl
      · split <;> rfl
  | requestFragment =>
      simp only [requestLineByte, state]
      split <;> rfl
  | requestVersion =>
      simp only [requestLineByte, state]
      split
      · rfl
      · split
        · rename_i checked accepted
          have same : checked.response = exchange.response :=
            response_checkRequest accepted
          exact same
        · rfl
  | _ =>
      simp only [requestLineByte, state]
      trivial

theorem requestLineLoop_keepsResponse (exchange : HttpExchange)
    (cursor : Cursor)
    (count : Nat)
    (buffer : Bytes) :
    KeepsResponse exchange.response
      (requestLineLoop exchange cursor count buffer) := by
  induction buffer generalizing exchange cursor count with
  | nil => exact parseDone_keepsResponse exchange cursor count
  | cons c rest ih =>
      have step := requestLineByte_keepsResponse exchange cursor c
      rw [requestLineLoop]
      cases outcome : requestLineByte exchange cursor c with
      | more later moved =>
          rw [outcome] at step
          have same : later.response = exchange.response := step
          dsimp only
          rw [← same]
          split
          · exact parseDone_keepsResponse later moved _
          · exact ih later moved _
      | line later moved =>
          rw [outcome] at step
          have same : later.response = exchange.response := step
          dsimp only
          rw [← same]
          exact parseDone_keepsResponse later moved _
      | failed errno later =>
          rw [outcome] at step
          exact step
      | stop => exact parseDone_keepsResponse exchange cursor count

theorem headerNameLoop_keepsResponse (exchange : HttpExchange)
    (cursor : Cursor)
    (count : Nat)
    (buffer : Bytes) :
    KeepsResponse exchange.response
      (headerNameLoop exchange cursor count buffer) := by
  induction buffer generalizing exchange cursor count with
  | nil => exact parseDone_keepsResponse exchange cursor count
  | cons c rest ih =>
      rw [headerNameLoop]
      split
      · split
        · split
          · dsimp only
            split
            · exact
                parseDone_keepsResponse
                  { exchange with hId := ymoHdrHashCh exchange.hId c }
                  _ _
            · exact
                ih
                  { exchange with hId := ymoHdrHashCh exchange.hId c }
                  _ _
          · rfl
        · exact
            parseDone_keepsResponse (parserSawCr exchange .headersComplete) _ _
      · exact
          parseDone_keepsResponse
            { exchange with state := .headerValueLeadingSpace } _ _

theorem headerValueLoop_keepsResponse (exchange : HttpExchange)
    (cursor : Cursor)
    (count : Nat)
    (buffer : Bytes) :
    KeepsResponse exchange.response
      (headerValueLoop stray exchange cursor count buffer) := by
  induction buffer generalizing exchange cursor count with
  | nil => exact parseDone_keepsResponse exchange cursor count
  | cons c rest ih =>
      rw [headerValueLoop]
      split
      · dsimp only
        split
        · exact parseDone_keepsResponse exchange _ _
        · split
          · exact parseDone_keepsResponse exchange _ _
          · exact ih exchange _ _
      · exact
          parseDone_keepsResponse
            (parserSawCr
              (httpHeaderGotValue stray exchange _) .headerName)
            _ _

theorem headersResume_keepsResponse {response : Option ResponseHandle}
    (locals : HeadersState)
    {parsed : Parsed}
    (keeps : KeepsResponse response parsed) :
    (headersResume locals parsed).Satisfies
      (fun later => later.exchange.response = response)
      (KeepsResponse response) := by
  cases parsed with
  | took taken exchange =>
      have same : exchange.response = response := keeps
      rw [headersResume]
      split
      · exact same
      · rw [← same]
        exact parseDone_keepsResponse exchange _ _
  | failed errno exchange => exact keeps
  | fault exchange => exact keeps

theorem headersTurn_keepsResponse {response : Option ResponseHandle}
    (locals : HeadersState)
    (same : locals.exchange.response = response) :
    (headersTurn stray locals).Satisfies
      (fun later => later.exchange.response = response)
      (KeepsResponse response) := by
  subst same
  unfold headersTurn
  dsimp only
  split
  · exact
      headersResume_keepsResponse locals (headerNameLoop_keepsResponse _ _ _ _)
  · split
    · exact headersResume_keepsResponse locals rfl
    · exact
        headersResume_keepsResponse locals
          (headerValueLoop_keepsResponse stray
            { locals.exchange with
              hdrValue := some locals.exchange.recvCurrent
              state := .headerValue }
            _ _ _)
  · exact
      headersResume_keepsResponse locals
        (headerValueLoop_keepsResponse stray _ _ _ _)
  · exact parseDone_keepsResponse locals.exchange _ _

theorem ymoParseHttpHeaders_keepsResponse (exchange : HttpExchange)
    (buffer : Bytes) :
    KeepsResponse exchange.response
      (ymoParseHttpHeaders stray exchange buffer) := by
  apply loop_satisfies
    (fun locals : HeadersState => locals.exchange.response = exchange.response)
    (KeepsResponse exchange.response)
  · exact headersTurn_keepsResponse stray
  · exact fun _ same => same
  · rfl

theorem ymoParseHttpCrlf_keepsResponse (exchange : HttpExchange)
    (buffer : Bytes) :
    KeepsResponse exchange.response (ymoParseHttpCrlf exchange buffer) := by
  unfold ymoParseHttpCrlf
  cases buffer with
  | nil => rfl
  | cons c rest =>
      dsimp only
      split
      · rfl
      · cases next : exchange.nextState <;> rfl

/-- The parsers of the head leave the response of the exchange alone. -/
theorem parseHead_keepsResponse (exchange : HttpExchange) (buffer : Bytes)
    {parsed : Parsed}
    (called : parseHead stray exchange buffer = some parsed) :
    KeepsResponse exchange.response parsed := by
  unfold parseHead at called
  split at called
  · rw [← Option.some.inj called]
    exact
      requestLineLoop_keepsResponse
        { exchange with state := .requestMethod } _ _ _
  · rw [← Option.some.inj called]
    exact requestLineLoop_keepsResponse exchange _ _ _
  · rw [← Option.some.inj called]
    exact requestLineLoop_keepsResponse exchange _ _ _
  · rw [← Option.some.inj called]
    exact requestLineLoop_keepsResponse exchange _ _ _
  · rw [← Option.some.inj called]
    exact ymoParseHttpCrlf_keepsResponse exchange buffer
  · rw [← Option.some.inj called]
    exact ymoParseHttpHeaders_keepsResponse stray exchange buffer
  · rw [← Option.some.inj called]
    exact ymoParseHttpHeaders_keepsResponse stray exchange buffer
  · rw [← Option.some.inj called]
    exact ymoParseHttpHeaders_keepsResponse stray exchange buffer
  · nomatch called

/-- A parser of the head that takes bytes ends in the head. -/
theorem parseHead_headPhase (phase : HeadPhase exchange) (buffer : Bytes)
    {count : Nat}
    {later : HttpExchange}
    (called : parseHead stray exchange buffer = some (.took count later)) :
    HeadPhase later := by
  have twins :
      HeadTwins (exchange.request.body, exchange.request.body)
        exchange exchange :=
    ⟨⟨phase, rfl, _, _, _, rfl⟩, fun _ _ => rfl⟩
  rcases parseHead_took_twins twins called with ⟨_, -, hold⟩
  exact hold.same.phase

/-! ## The callbacks -/

/-- The application may call on the response. -/
def Stage.takesCalls : Stage → Bool
  | .answering _ => true
  | .handling => true
  | _ => false

theorem queued_respond (response : ResponseHandle) (calls : List AppCall) :
    (calls.foldl respond response).queued = response.queued := by
  induction calls generalizing response with
  | nil => rfl
  | cons call calls ih =>
      rw [List.foldl_cons, ih]
      cases call <;> rfl

/-- Calls change the response, but not whether it is on the list. -/
theorem unanswered_runCalls (exchange : HttpExchange) (state : ReadState)
    (calls : List AppCall) :
    unanswered (runCalls exchange state calls).1 = unanswered exchange := by
  rcases (called_runCalls exchange state calls).exchange
    with ⟨workspace, equal⟩
  rw [equal]
  unfold unanswered exchangeWith
  dsimp only
  cases exchange.response with
  | none => rfl
  | some response =>
      simp only [Option.map_some, Option.any_some, queued_respond]

theorem follow_runCall {start stage : Stage} (takes : stage.takesCalls = true)
    (exchange : HttpExchange)
    (reached : start.follow state.effects = some stage)
    (call : AppCall) :
    start.follow (runCall exchange state call).2.effects = some stage := by
  unfold runCall
  dsimp only
  split
  · rename_i resolved _
    have called :
        stage.follow
            [.store (resolveCall exchange call).2, .call resolved] =
          some stage := by
      cases stage with
      | answering continued => cases continued <;> rfl
      | handling => rfl
      | _ => nomatch takes
    rw [Stage.follow_append, reached]
    exact called
  · exact reached

theorem follow_runCalls {start stage : Stage} (takes : stage.takesCalls = true)
    (exchange : HttpExchange)
    (reached : start.follow state.effects = some stage)
    (calls : List AppCall) :
    start.follow (runCalls exchange state calls).2.effects = some stage := by
  induction calls generalizing exchange state with
  | nil => exact reached
  | cons call calls ih =>
      exact ih _ (follow_runCall takes exchange reached call)

/-- A callback is shown the request and makes its calls. -/
theorem follow_react {start stage : Stage} (takes : stage.takesCalls = true)
    (exchange : HttpExchange)
    (reached : start.follow state.effects = some stage)
    (event : Shown)
    (reaction : Reaction) :
    start.follow (react exchange state event reaction).2.2.effects =
      some stage := by
  apply follow_runCalls takes
  apply Stage.follow_emit reached
  cases stage <;> rfl

theorem bodyPhase_of_framed {left right : HttpExchange}
    (same : framed left = framed right)
    (phase : BodyPhase right) :
    BodyPhase left := by
  rcases phase_of_framed same with ⟨state, nextState⟩
  unfold BodyPhase
  rw [state, nextState]
  exact phase

/-! ## The body parser -/

/-- The exchange is in a body, with its response. -/
structure Answering
    (start : Stage)
    (exchange : HttpExchange)
    (state : ReadState) : Prop where
  phase : BodyPhase exchange
  waiting : unanswered exchange = true
  reached :
    ∃ continued, start.follow state.effects = some (.answering continued)

variable {start : Stage}

theorem Answering.react (answering : Answering start exchange state)
    (event : Shown)
    (reaction : Reaction) :
    Answering start (react exchange state event reaction).2.1
      (react exchange state event reaction).2.2 := by
  constructor
  · exact
      bodyPhase_of_framed (framed_runCalls exchange _ reaction.calls)
        answering.phase
  · exact
      (unanswered_runCalls exchange _ reaction.calls).trans answering.waiting
  · rcases answering.reached with ⟨continued, reached⟩
    exact ⟨continued, follow_react rfl exchange reached event reaction⟩

theorem Answering.emit
    (answering : Answering start exchange state)
    {effect : Effect}
    (placed :
      ∀ continued,
        (Stage.answering continued).after effect =
          some (.answering continued)) :
    Answering start exchange (state.emit effect) := by
  rcases answering.reached with ⟨continued, reached⟩
  exact
    { answering with
      reached := ⟨continued, Stage.follow_emit reached (placed continued)⟩ }

/-- Other fields of the exchange do not matter. -/
theorem Answering.change {exchange later : HttpExchange}
    (answering : Answering start exchange state)
    (phase : BodyPhase later)
    (same : later.response = exchange.response) :
    Answering start later state := by
  constructor
  · exact phase
  · unfold unanswered
    rw [same]
    exact answering.waiting
  · exact answering.reached

theorem bodyCb_answering (answering : Answering start exchange state)
    (data : Bytes) :
    Answering start (bodyCb protoData state exchange data).2.1
      (bodyCb protoData state exchange data).2.2 := by
  unfold bodyCb
  cases protoData.bodyCb with
  | none =>
    unfold bufferBodyCb
    dsimp only
    split
    · exact answering.emit fun _ => rfl
    · rename_i request _
      have other : ∀ request,
          Answering start { exchange with request := request } state :=
        fun request => answering.change answering.phase rfl
      split
      · exact (other request).emit fun _ => rfl
      · exact (other _).emit fun _ => rfl
  | some callback => exact answering.react _ _

/-- What the body parser returns: a body that fails is not complete. -/
def BodyAnswers (start : Stage) : Parsed × ReadState → Prop
  | (.took _ exchange, state) => Answering start exchange state
  | (.failed _ exchange, state) =>
      Answering start exchange state ∧ exchange.state ≠ .complete
  | (.fault exchange, state) =>
      Answering start exchange state ∧ exchange.state ≠ .complete

/-- The exchange an inner loop of the body parser leaves. -/
def StepAnswers (start : Stage) (state : ReadState) :
    BodyStep → Prop
  | .stopped exchange _ => Answering start exchange state
  | .fault exchange =>
      Answering start exchange state ∧ exchange.state ≠ .complete

theorem chunkHeaderLoop_answers (answering : Answering start exchange state)
    (inHeader : exchange.state = .bodyChunkHeader)
    (len count : Nat)
    (memory : Bytes) :
    StepAnswers start state (chunkHeaderLoop exchange len count memory) := by
  induction memory generalizing exchange len count with
  | nil => exact ⟨answering, by rw [inHeader]; decide⟩
  | cons c rest ih =>
      have bodyRank : 12 ≤ HttpState.body.rank := Nat.le_of_ble_eq_true rfl
      have trailerRank : 12 ≤ HttpState.bodyChunkTrailer.rank :=
        Nat.le_of_ble_eq_true rfl
      have completeRank : 12 ≤ HttpState.complete.rank :=
        Nat.le_of_ble_eq_true rfl
      rw [chunkHeaderLoop]
      split
      · dsimp only
        split
        · exact answering.change ⟨bodyRank, trailerRank⟩ rfl
        · exact answering.change ⟨trailerRank, completeRank⟩ rfl
      · have digit :
            Answering start
              (if c = cr then exchange
              else
                { exchange with
                  bodyRemain := chunkDigit exchange.bodyRemain c })
              state := by
          split
          · exact answering
          · exact answering.change answering.phase rfl
        have sameState :
            (if c = cr then exchange
              else
                { exchange with
                  bodyRemain := chunkDigit exchange.bodyRemain c }).state =
              .bodyChunkHeader := by
          split <;> exact inHeader
        dsimp only
        split
        · exact digit
        · exact ih digit sameState _ _

theorem chunkTrailerLoop_answers (answering : Answering start exchange state)
    (inTrailer : exchange.state = .bodyChunkTrailer)
    (len count : Nat)
    (memory : Bytes) :
    StepAnswers start state (chunkTrailerLoop exchange len count memory) := by
  induction memory generalizing len count with
  | nil => exact ⟨answering, by rw [inTrailer]; decide⟩
  | cons c rest ih =>
      rw [chunkTrailerLoop]
      split
      · exact answering.change ⟨answering.phase.2, answering.phase.2⟩ rfl
      · split
        · exact answering
        · exact ih _ _

theorem bodyTaken_answers (answering : Answering start exchange state)
    (available : Nat) :
    Answering start (bodyTaken exchange available) state := by
  have trailerRank : 12 ≤ HttpState.bodyChunkTrailer.rank :=
    Nat.le_of_ble_eq_true rfl
  have headerRank : 12 ≤ HttpState.bodyChunkHeader.rank :=
    Nat.le_of_ble_eq_true rfl
  unfold bodyTaken
  dsimp only
  split
  · split
    · exact answering.change ⟨trailerRank, headerRank⟩ rfl
    · exact answering.change ⟨answering.phase.2, answering.phase.2⟩ rfl
  · exact answering.change answering.phase rfl

theorem bodyResume_answers {step : BodyStep}
    (answers : StepAnswers start state step) :
    (bodyResume state step).Satisfies
      (fun locals => Answering start locals.exchange locals.state)
      (BodyAnswers start) := by
  cases step with
  | stopped exchange cursor =>
      rw [bodyResume]
      split
      · exact answers
      · exact answers
  | fault exchange => exact answers

theorem bodyTurn_answers (locals : BodyState ReadState)
    (answering : Answering start locals.exchange locals.state) :
    (bodyTurn (bodyCb protoData) locals).Satisfies
      (fun locals => Answering start locals.exchange locals.state)
      (BodyAnswers start) := by
  unfold bodyTurn
  dsimp only
  split
  · rename_i inHeader
    exact bodyResume_answers (chunkHeaderLoop_answers answering inHeader _ _ _)
  · rename_i inBody
    split
    · apply bodyResume_answers
      exact answering.change ⟨Nat.le_of_ble_eq_true rfl, answering.phase.2⟩ rfl
    · unfold bodyBytesTurn
      dsimp only
      split
      · exact ⟨answering, by rw [inBody]; decide⟩
      · rename_i data
        have called :=
          bodyCb_answering protoData answering
            (locals.cursor.memory.take
              (min locals.cursor.len locals.exchange.bodyRemain))
        have sameState :=
          (bodyCb_keepsPhase protoData locals.state locals.exchange
            (locals.cursor.memory.take
              (min locals.cursor.len locals.exchange.bodyRemain))).1
        split
        · rename_i outcome
          rw [outcome] at called
          exact bodyResume_answers (bodyTaken_answers called _)
        · rename_i outcome
          rw [outcome] at called sameState
          refine ⟨called, ?_⟩
          dsimp only at sameState ⊢
          rw [sameState, inBody]
          decide
  · rename_i inTrailer
    exact
      bodyResume_answers (chunkTrailerLoop_answers answering inTrailer _ _ _)
  · exact answering

theorem ymoParseHttpBody_answers (answering : Answering start exchange state)
    (kept : ParserOk exchange)
    (states : bodyState exchange.state = true)
    (memory : Bytes)
    (left : len ≠ 0) :
    BodyAnswers start
      (ymoParseHttpBody (bodyCb protoData) state exchange memory len) := by
  rcases
    ymoParseHttpBody_ends (bodyCb_keepsPhase protoData) state kept
      states memory left
    with ⟨last, reaches, ended⟩
  have preserved :
      ∀ locals next : BodyState ReadState,
        Answering start locals.exchange locals.state →
          bodyTurn (bodyCb protoData) locals = .again next →
            Answering start next.exchange next.state := by
    intro locals next held goesOn
    have turn := bodyTurn_answers protoData locals held
    rw [goesOn] at turn
    exact turn
  have held : Answering start last.exchange last.state :=
    reaches.invariant preserved answering
  have turn := bodyTurn_answers protoData last held
  rw [ended] at turn
  exact turn

/-! ## The handler -/

theorem follow_ymoHttpCheckUpgrade (header : Bytes)
    (handlers : List UpgradeHandler)
    (exchange : HttpExchange)
    (reached : start.follow state.effects = some .handling) :
    start.follow
        (ymoHttpCheckUpgrade header handlers exchange state).state.effects =
      some .handling := by
  induction handlers generalizing exchange state with
  | nil => exact reached
  | cons handler handlers ih =>
      have called :
          ∀ calls,
            start.follow
                (runCalls exchange
                  (state.emit (.shown (.upgrade header (viewOf exchange))))
                  calls).2.effects =
              some .handling :=
        fun calls =>
          follow_runCalls rfl exchange (Stage.follow_emit reached rfl) calls
      simp only [ymoHttpCheckUpgrade]
      split
      · exact ih _ (called _)
      · exact Stage.follow_emit (called _) rfl
      · exact called _
      · exact called _

theorem follow_standardCallback (exchange : HttpExchange)
    (reached : start.follow state.effects = some .handling) :
    start.follow
        (standardCallback protoData exchange state).2.2.effects =
      some .handling :=
  follow_react rfl exchange reached _ _

/-- The application is called while the request is handled. -/
theorem follow_handlerCallback (exchange : HttpExchange)
    (reached : start.follow state.effects = some .handling) :
    start.follow
        (handlerCallback protoData exchange state).2.2.effects =
      some .handling := by
  have upgraded :=
    follow_ymoHttpCheckUpgrade
      ((ymoHttpHdrTableGetId exchange.request.headers
          ymoHttpHidUpgrade).elim [] fun node =>
        node.string (readString exchange.recvBuf exchange.recvCurrent))
      protoData.upgradeHandler exchange reached
  unfold handlerCallback
  split
  · dsimp only
    split
    · exact follow_standardCallback protoData _ upgraded
    · exact upgraded
    · exact upgraded
    · exact follow_runCall rfl _ upgraded _
    · exact follow_standardCallback protoData _ upgraded
  · exact follow_standardCallback protoData exchange reached

/-! ## The end of a call -/

@[simp]
theorem stored_concat (effects : List Effect) (effect : Effect) :
    stored (effects ++ [effect]) =
      match effect with
      | .store exchange => some exchange
      | _ => stored effects := by
  unfold stored
  rw [List.foldl_append]
  rfl

@[simp]
theorem stored_emit_store (state : ReadState) (exchange : HttpExchange) :
    stored (state.emit (.store exchange)).effects = some exchange :=
  stored_concat _ _

/-- What a call leaves, by the place that the response has reached: the result
and the content of the exchange. -/
inductive Leaves
    (result : ReadResult)
    (content : HttpExchange) : Stage → Prop where
  | idle
      (exchange : result.exchange = some content)
      (answered : unanswered content = false)
      (resting : HeadPhase content ∨ result.outcome = .fault) :
      Leaves result content .idle
  | refused
      (exchange : result.exchange = some content)
      (answered : unanswered content = false) :
      Leaves result content .refused
  | answering
      (continued : Bool)
      (exchange : result.exchange = some content)
      (phase : BodyPhase content)
      (waiting : unanswered content = true)
      (incomplete :
        content.state = .complete →
          (∃ errno, result.outcome = .failed errno) ∨ result.outcome = .spin) :
      Leaves result content (.answering continued)
  | settled
      (exchange : result.exchange = some content)
      (answered : unanswered content = false)
      (resting : HeadPhase content ∨ content.state = .complete) :
      Leaves result content .settled
  | gone
      (exchange : result.exchange = none) :
      Leaves result content .gone
  | dropped
      (errno : Errno)
      (outcome : result.outcome = .failed errno)
      (fatal : ymoIsBlocked (.err errno) = false) :
      Leaves result content .dropped

/-- The call went from stage to stage, and leaves what it says. -/
def Ends (start : Stage) (result : ReadResult) : Prop :=
  ∃ stage content,
    start.follow result.state.effects = some stage ∧
      stored result.state.effects = some content ∧
        Leaves result content stage

theorem unanswered_markQueued (exchange : HttpExchange) :
    unanswered (markQueued exchange) = false := by
  unfold unanswered markQueued
  cases exchange.response <;> rfl

/-- The request is handled, and its response is queued or freed. -/
theorem parseComplete_ends (answering : Answering start exchange state)
    (complete : exchange.state = .complete)
    (taken : Nat) :
    Ends start (parseComplete protoData exchange state taken) := by
  rcases answering.reached with ⟨continued, reached⟩
  have called : start.follow (state.emit .handler).effects = some .handling :=
    Stage.follow_emit reached rfl
  have handling := follow_handlerCallback protoData exchange called
  have same :=
    (phase_of_framed
      (framed_handlerCallback protoData exchange
        (state.emit .handler))).1.trans complete
  unfold parseComplete
  dsimp only
  generalize
    handlerCallback protoData exchange (state.emit .handler) = reaction
    at handling same
  rcases reaction with ⟨status, after, later⟩
  dsimp only at handling same ⊢
  unfold handleCallbackResult
  by_cases okay : status = .okay
  · rw [if_neg (fun fails => fails.1 okay), if_pos okay]
    refine ⟨.settled, _, ?_, ?_, .settled rfl ?_ ?_⟩
    · exact
        Stage.follow_emit
          (Stage.follow_emit (Stage.follow_emit handling rfl) rfl) rfl
    · simp only [ReadState.emit, stored_concat]
    · split
      · exact unanswered_markQueued after
      · exact unanswered_markQueued after
    · split
      · exact .inl (headPhase_reset _)
      · exact .inr same
  · rw [if_neg okay]
    cases blocked : ymoIsBlocked status with
    | true =>
        rw [if_neg (fun fails => Bool.noConfusion fails.2), if_pos rfl]
        refine ⟨.gone, after, ?_, ?_, .gone rfl⟩
        · exact
            Stage.follow_emit
              (Stage.follow_emit
                (Stage.follow_emit (Stage.follow_emit handling rfl) rfl)
                rfl)
              rfl
        · simp only [ReadState.emit, stored_concat]
    | false =>
        rw [if_pos ⟨okay, rfl⟩, if_neg Bool.false_ne_true]
        cases status with
        | okay => exact absurd rfl okay
        | err errno =>
            refine ⟨.dropped, after, ?_, ?_, .dropped errno rfl blocked⟩
            · exact Stage.follow_emit (Stage.follow_emit handling rfl) rfl
            · simp only [ReadState.emit, stored_concat]

theorem reading_of_answering (answering : Answering start exchange state) :
    Reading start exchange state := by
  rcases answering.reached with ⟨continued, reached⟩
  exact .body answering.phase answering.waiting continued reached

/-- Reading stops before the request is complete. -/
theorem Reading.ends (reading : Reading start exchange state)
    (outcome : ReadOutcome)
    (incomplete : exchange.state = .complete → outcome = .spin) :
    Ends start
      { outcome := outcome
        exchange := some exchange
        state := state.emit (.store exchange) } := by
  cases reading with
  | head phase answered calm reached =>
      exact
        ⟨.idle, exchange, Stage.follow_emit reached rfl,
          stored_emit_store state exchange,
          .idle rfl answered (.inl phase)⟩
  | body phase waiting continued reached =>
      exact
        ⟨.answering continued, exchange, Stage.follow_emit reached rfl,
          stored_emit_store state exchange,
          .answering continued rfl phase waiting fun complete =>
            .inr (incomplete complete)⟩

theorem unanswered_expectBody (exchange : HttpExchange) :
    unanswered (expectBody exchange) = true := by
  unfold expectBody
  dsimp only
  split
  · rfl
  · split <;> rfl

theorem bodyPhase_expectBody (exchange : HttpExchange) :
    BodyPhase (expectBody exchange) := by
  unfold expectBody
  dsimp only
  split
  · exact ⟨Nat.le_of_ble_eq_true rfl, Nat.le_of_ble_eq_true rfl⟩
  · split
    · exact ⟨Nat.le_of_ble_eq_true rfl, Nat.le_of_ble_eq_true rfl⟩
    · exact ⟨Nat.le_of_ble_eq_true rfl, Nat.le_of_ble_eq_true rfl⟩

/-- The response is created, and the header callback may call on it. -/
theorem headersComplete_answering (exchange : HttpExchange)
    (reached : start.follow state.effects = some .idle) :
    Answering start (headersComplete protoData exchange state).2.1
      (headersComplete protoData exchange state).2.2 := by
  have created :
      start.follow
          (state.emit (.initResponse exchange.request.flags)).effects =
        some (.answering false) :=
    Stage.follow_emit reached rfl
  have ready :
      Answering start (expectBody exchange)
        (if expectsContinue exchange.request then
          ((state.emit (.initResponse exchange.request.flags)).emit
            (.store (expectBody exchange))).emit .sendContinue
        else state.emit (.initResponse exchange.request.flags)) := by
    refine ⟨bodyPhase_expectBody exchange, unanswered_expectBody exchange, ?_⟩
    split
    · exact ⟨true, Stage.follow_emit (Stage.follow_emit created rfl) rfl⟩
    · exact ⟨false, created⟩
  unfold headersComplete
  dsimp only
  split
  · split
    · exact ready
    · exact ready.react _ _
  · exact ready

theorem headersCompleteTurn_reading
    (reached : start.follow locals.state.effects = some .idle) :
    (headersCompleteTurn protoData locals).Satisfies
      (fun later => Reading start later.exchange later.state)
      (Ends start) := by
  have answering := headersComplete_answering protoData locals.exchange reached
  unfold headersCompleteTurn
  generalize
    headersComplete protoData locals.exchange locals.state = outcome
    at answering
  rcases outcome with ⟨status, exchange, state⟩
  dsimp only at answering ⊢
  cases status with
  | err errno =>
      rcases answering.reached with ⟨continued, reached⟩
      exact
        ⟨.answering continued, exchange, Stage.follow_emit reached rfl,
          stored_emit_store state exchange,
          .answering continued rfl answering.phase answering.waiting
            fun _ => .inl ⟨errno, rfl⟩⟩
  | okay =>
      dsimp only
      split
      · exact reading_of_answering answering
      · split
        · rename_i complete
          exact parseComplete_ends protoData answering complete _
        · rename_i incomplete
          exact
            (reading_of_answering answering).ends
              (.took locals.scan.taken)
              fun complete => absurd complete incomplete

theorem Reading.answering (reading : Reading start exchange state)
    (late : 12 ≤ exchange.state.rank) :
    Answering start exchange state := by
  cases reading with
  | head phase answered calm reached =>
      exact absurd (Nat.le_trans late phase.1) (by decide)
  | body phase waiting continued reached =>
      exact ⟨phase, waiting, continued, reached⟩

theorem Reading.idle (reading : Reading start exchange state)
    (early : exchange.state.rank ≤ 11) :
    HeadPhase exchange ∧ unanswered exchange = false ∧
      state.error = false ∧
        start.follow state.effects = some .idle := by
  cases reading with
  | head phase answered calm reached => exact ⟨phase, answered, calm, reached⟩
  | body phase waiting continued reached =>
      exact absurd (Nat.le_trans phase.1 early) (by decide)

theorem loopTest_reading
    (reading : Reading start locals.exchange locals.state) :
    (loopTest protoData locals).Satisfies
      (fun later => Reading start later.exchange later.state)
      (Ends start) := by
  unfold loopTest
  split
  · exact reading
  · split
    · rename_i complete
      have late : 12 ≤ locals.exchange.state.rank := by
        rw [complete]
        exact Nat.le_of_ble_eq_true rfl
      exact parseComplete_ends protoData (reading.answering late) complete _
    · rename_i headers
      have early : locals.exchange.state.rank ≤ 11 := by
        rw [headers]
        exact Nat.le_of_ble_eq_true rfl
      exact headersCompleteTurn_reading protoData (reading.idle early).2.2.2
    · rename_i incomplete _
      exact
        reading.ends (.took locals.scan.taken)
          fun complete => absurd complete incomplete

theorem le_errorStatus (exchange : HttpExchange) (errno : Errno) :
    400 ≤ errorStatus exchange errno := by
  cases errno with
  | efbig =>
      rw [errorStatus]
      split
      · exact Nat.le_of_ble_eq_true rfl
      · exact Nat.le_of_ble_eq_true rfl
  | _ => exact Nat.le_of_ble_eq_true rfl

/-- A parse error gets its response, unless the session has one already. -/
theorem ymoProtoHttpHandleError_ends {start stage : Stage}
    (reached : start.follow state.effects = some stage)
    (errno : Errno)
    {later : Stage}
    (placed :
      ∀ status,
        400 ≤ status → stage.after (.errorResponse status) = some later)
    (stays : state.error = true → later = stage)
    (leaves :
      ∀ result : ReadResult,
        result.exchange = some exchange → Leaves result exchange later) :
    Ends start (ymoProtoHttpHandleError exchange state errno) := by
  have stopped :
      start.follow (state.emit (.store exchange)).effects = some stage := by
    apply Stage.follow_emit reached
    cases stage <;> rfl
  unfold ymoProtoHttpHandleError
  dsimp only
  split
  · rename_i inError
    rw [← stays inError] at stopped
    exact
      ⟨later, exchange, stopped, stored_emit_store state exchange,
        leaves _ rfl⟩
  · refine ⟨later, exchange, ?_, ?_, leaves _ rfl⟩
    · exact Stage.follow_emit stopped (placed _ (le_errorStatus exchange _))
    · simp only [ReadState.emit, stored_concat]

theorem headTurn_reading (phase : HeadPhase locals.exchange)
    (answered : unanswered locals.exchange = false)
    (calm : locals.state.error = false)
    (reached : start.follow locals.state.effects = some .idle) :
    (headTurn protoData locals).Satisfies
      (fun later => Reading start later.exchange later.state)
      (Ends start) := by
  have faults :
      ∀ exchange : HttpExchange,
        unanswered exchange = false →
          Ends start
            { outcome := .fault
              exchange := some exchange
              state := locals.state.emit (.store exchange) } :=
    fun exchange answered =>
      ⟨.idle, exchange, Stage.follow_emit reached rfl,
        stored_emit_store locals.state exchange,
        .idle rfl answered (.inr rfl)⟩
  unfold headTurn
  dsimp only
  split
  · exact faults locals.exchange answered
  · split
    · rename_i parsed called
      have keeps :=
        parseHead_keepsResponse protoData.stray locals.exchange _ called
      have same :
          ∀ exchange : HttpExchange,
            exchange.response = locals.exchange.response →
              unanswered exchange = false := by
        intro exchange equal
        unfold unanswered
        rw [equal]
        exact answered
      cases parsed with
      | took count exchange =>
          exact
            loopTest_reading protoData
              (.head
                (parseHead_headPhase protoData.stray phase _ called)
                (same exchange keeps) calm reached)
      | failed errno exchange =>
          exact
            ymoProtoHttpHandleError_ends reached errno
              (fun _ enough => if_pos enough)
              (fun inError =>
                absurd (calm.symm.trans inError) Bool.false_ne_true)
              fun result kept => .refused kept (same exchange keeps)
      | fault exchange => exact faults exchange (same exchange keeps)
    · exact loopTest_reading protoData (.head phase answered calm reached)

theorem bodyStateTurn_reading
    (answering : Answering start locals.exchange locals.state)
    (inside : ReadInside locals)
    (states : bodyState locals.exchange.state = true) :
    (bodyStateTurn protoData locals).Satisfies
      (fun later => Reading start later.exchange later.state)
      (Ends start) := by
  have answers :=
    ymoParseHttpBody_answers protoData answering inside.kept states
      locals.scan.memory inside.left
  unfold bodyStateTurn
  generalize
    ymoParseHttpBody (bodyCb protoData) locals.state locals.exchange
      locals.scan.memory locals.scan.len = outcome at answers
  rcases outcome with ⟨parsed, state⟩
  dsimp only
  cases parsed with
  | took count exchange =>
      have answering : Answering start exchange state := answers
      exact loopTest_reading protoData (reading_of_answering answering)
  | failed errno exchange =>
      rcases answers with ⟨answering, incomplete⟩
      rcases answering.reached with ⟨continued, reached⟩
      exact
        ymoProtoHttpHandleError_ends reached errno (fun _ _ => rfl)
          (fun _ => rfl)
          fun result kept =>
            .answering continued kept answering.phase answering.waiting
              fun complete => absurd complete incomplete
  | fault exchange =>
      rcases answers with ⟨answering, incomplete⟩
      exact
        (reading_of_answering answering).ends .fault
          fun complete => absurd complete incomplete

theorem readTurn_reading (inside : ReadInside locals)
    (reading : Reading start locals.exchange locals.state) :
    (readTurn protoData locals).Satisfies
      (fun later => Reading start later.exchange later.state)
      (Ends start) := by
  have body :
      bodyState locals.exchange.state = true →
        (bodyStateTurn protoData locals).Satisfies
          (fun later => Reading start later.exchange later.state)
          (Ends start) := by
    intro states
    refine bodyStateTurn_reading protoData (reading.answering ?_) inside states
    cases state : locals.exchange.state <;> rw [state] at states <;>
      first
        | exact Nat.le_of_ble_eq_true rfl
        | exact absurd states (by decide)
  unfold readTurn
  split
  · rename_i headers
    have early : locals.exchange.state.rank ≤ 11 := by
      rw [headers]
      exact Nat.le_of_ble_eq_true rfl
    exact headersCompleteTurn_reading protoData (reading.idle early).2.2.2
  · rename_i complete
    have late : 12 ≤ locals.exchange.state.rank := by
      rw [complete]
      exact Nat.le_of_ble_eq_true rfl
    exact parseComplete_ends protoData (reading.answering late) complete _
  · rename_i state
    exact body (by rw [state]; rfl)
  · rename_i state
    exact body (by rw [state]; rfl)
  · rename_i state
    exact body (by rw [state]; rfl)
  · rename_i notHeaders notComplete notChunk notBody notTrailer
    have early : locals.exchange.state.rank ≤ 11 := by
      cases state : locals.exchange.state <;>
        first
          | exact Nat.le_of_ble_eq_true rfl
          | exact absurd state notHeaders
          | exact absurd state notComplete
          | exact absurd state notChunk
          | exact absurd state notBody
          | exact absurd state notTrailer
    rcases reading.idle early with ⟨phase, answered, calm, reached⟩
    exact headTurn_reading protoData phase answered calm reached

/-- Where a call starts, by the exchange of the session. -/
inductive Starts : Option HttpExchange → Stage → Prop where
  | absent : Starts none .absent
  | head
      {exchange : HttpExchange}
      (phase : HeadPhase exchange)
      (answered : unanswered exchange = false) :
      Starts (some exchange) .idle
  | body
      {exchange : HttpExchange}
      (phase : BodyPhase exchange)
      (waiting : unanswered exchange = true) :
      Starts (some exchange) (.answering true)

theorem Starts.reading (starts : Starts session start) (memory : Bytes)
    (len : Nat) :
    Reading start (readStart session memory len).exchange
      (readStart session memory len).state := by
  cases starts with
  | absent =>
      exact
        .head
          ⟨Nat.le_of_ble_eq_true rfl, Nat.le_of_ble_eq_true rfl⟩ rfl rfl
          rfl
  | head phase answered => exact .head phase answered rfl rfl
  | body phase waiting => exact .body phase waiting true rfl

/-- Every call of `ymo_proto_http_read` takes the response from stage to stage. -/
theorem ymoProtoHttpRead_ends (starts : Starts session start) {memory : Bytes}
    (inside : ReadInside (readStart session memory len)) :
    Ends start (ymoProtoHttpRead protoData false session memory len) := by
  apply loop_satisfies
    (fun locals =>
      ReadInside locals ∧ Reading start locals.exchange locals.state)
    (Ends start)
  · rintro locals ⟨inside, reading⟩
    have sound := (readTurn_sound protoData inside).keeps
    have satisfied := readTurn_reading protoData inside reading
    cases turn : readTurn protoData locals with
    | again later =>
        rw [turn] at sound satisfied
        exact ⟨sound, satisfied⟩
    | done result =>
        rw [turn] at satisfied
        exact satisfied
  · rintro locals ⟨-, reading⟩
    exact reading.ends .spin fun _ => rfl
  · exact ⟨inside, starts.reading memory len⟩

/-- A call that does not end hangs in a query, which is not complete. -/
theorem incomplete_of_spin {memory : Bytes}
    (inside : ReadInside (readStart session memory len))
    (spins :
      (ymoProtoHttpRead protoData false session memory len).outcome = .spin)
    {content : HttpExchange}
    (last :
      stored
          (ymoProtoHttpRead protoData false session memory len).state.effects =
        some content) :
    content.state ≠ .complete := by
  cases query : inQuery (readStart session memory len).exchange.state with
  | false =>
      exact
        absurd spins
          (ymoProtoHttpRead_outcome_ne_spin protoData ⟨inside, query⟩)
  | true =>
      have called :
          ymoProtoHttpRead protoData false session memory len =
            loop (readTurn protoData) readGiveUp (readFuel memory)
              (readStart session memory len) :=
        rfl
      by_cases readable : len ≤ memory.length
      · have stuck := readTurn_inQuery protoData query inside.left readable
        rw [called, loop_stuck stuck] at last
        simp only [readGiveUp, stored_emit_store] at last
        cases last
        intro complete
        rw [complete] at query
        nomatch query
      · have turn :
            readTurn protoData (readStart session memory len) =
              .done
                { outcome := .fault
                  exchange := some (readStart session memory len).exchange
                  state :=
                    (readStart session memory len).state.emit
                      (.store (readStart session memory len).exchange) } := by
          have decided :
              (readStart session memory len).scan.memory.length <
                (readStart session memory len).scan.len :=
            Nat.lt_of_not_le readable
          have faults :
              headTurn protoData (readStart session memory len) =
                .done
                  { outcome := .fault
                    exchange := some (readStart session memory len).exchange
                    state :=
                      (readStart session memory len).state.emit
                        (.store
                          (readStart session memory len).exchange) } := by
            unfold headTurn
            dsimp only
            rw [if_pos decided]
            rfl
          unfold readTurn
          cases state : (readStart session memory len).exchange.state <;>
            rw [state] at query <;> first | exact faults | nomatch query
        rw [called, readFuel, loop_of_done turn] at spins
        nomatch spins

end Yimmo.Http.ReadEffects
