import Yimmo.Http.ReadProgress
import Yimmo.Http.ThirdValues

/-!
# What a kept-alive session remembers

`ymo_http_exchange_reset` prepares an exchange for the next request.  It leaves
the receive buffer, the memory of the workspace, the response and the body of
the request as they are.  This module relates two exchanges that differ in
nothing else, shows that the parsers and the callbacks keep them so, and
concludes what the next request can be shown of the ones before it.

Bytes of the buffer are only read below the write cursor, and the response is
replaced at the end of the headers.  The body is not replaced, and a body that
an earlier request left behind is shown to every later one.  What lies behind the
third value of a header is not the session's to know: the heap has it from whoever
used the block before, and it is another thing on a new session.
-/

namespace Yimmo.Http.KeepAlive

open Yimmo.Core.StatusCode
open Yimmo.Lib.ByteMemory
open Yimmo.Lib.TurnLoop
open Yimmo.Http.Headers
open Yimmo.Http.Exchange
open Yimmo.Http.Parse
open Yimmo.Http.Application
open Yimmo.Http.Reader
open Yimmo.Http.ReadProgress
open Yimmo.Http.ThirdValues

variable
    {exchange : HttpExchange}
    (protoData : HttpProtoData)
    (stray : Bytes)

/-! ## What a request is seen to be -/

/-- What the callbacks were shown, in order. -/
def shownOf (effects : List Effect) : List Shown :=
  effects.filterMap fun effect =>
    match effect with
    | .shown event => some event
    | _ => none

@[simp]
theorem shownOf_append (first second : List Effect) :
    shownOf (first ++ second) = shownOf first ++ shownOf second :=
  List.filterMap_append

/-! ## Exchanges that differ in what a reset leaves behind -/

/-- The exchange with another buffer, workspace, response and body. -/
def exchangeWith (exchange : HttpExchange) (buffer : Memory)
    (workspace : Workspace)
    (response : Option ResponseHandle)
    (body : Option Body) :
    HttpExchange :=
  { exchange with
    request := { exchange.request with ws := workspace, body := body }
    recvBuf := buffer
    response := response }

/-- The states before the end of the headers. -/
def HeadPhase (exchange : HttpExchange) : Prop :=
  exchange.state.rank ≤ 10 ∧ exchange.nextState.rank ≤ 10

/-- The states after the end of the headers. -/
def BodyPhase (exchange : HttpExchange) : Prop :=
  12 ≤ exchange.state.rank ∧ 12 ≤ exchange.nextState.rank

/-- The exchanges agree on the bytes below the write cursor. -/
def Stored (left right : HttpExchange) : Prop :=
  ∀ offset,
    offset < left.recvCurrent → left.recvBuf offset = right.recvBuf offset

/-- In the head of a request: the response may differ, and the bodies are the
given ones. -/
structure HeadSame
    (bodies : Option Body × Option Body)
    (left right : HttpExchange) : Prop where
  phase : HeadPhase left
  body : left.request.body = bodies.1
  same :
    ∃ buffer workspace response,
      right = exchangeWith left buffer workspace response bodies.2

/-- In the body of a request: response and body are the same. -/
structure BodySame (left right : HttpExchange) : Prop where
  phase : BodyPhase left
  same :
    ∃ buffer workspace,
      right =
        exchangeWith left buffer workspace left.response left.request.body

/-- Two heads between the calls of a parser. -/
structure HeadTwins
    (bodies : Option Body × Option Body)
    (left right : HttpExchange) : Prop where
  same : HeadSame bodies left right
  stored : Stored left right

/-- Two bodies between the calls of a parser. -/
structure BodyTwins (left right : HttpExchange) : Prop where
  same : BodySame left right
  stored : Stored left right

/-- Cursors that differ above the position they have reached. -/
structure CursorTwins (left right : Cursor) : Prop where
  same : ∃ buffer, right = { left with recvBuf := buffer }
  stored :
    ∀ offset,
      offset < left.recvCurrent → left.recvBuf offset = right.recvBuf offset

theorem HeadTwins.cursor {bodies : Option Body × Option Body}
    {left right : HttpExchange}
    (twins : HeadTwins bodies left right) :
    CursorTwins left.cursor right.cursor := by
  rcases twins with ⟨⟨-, -, buffer, workspace, response, rfl⟩, stored⟩
  exact ⟨⟨buffer, rfl⟩, stored⟩

theorem CursorTwins.put {left right : Cursor} (twins : CursorTwins left right)
    (byte : UInt8) :
    CursorTwins (left.put byte) (right.put byte) := by
  rcases twins with ⟨⟨buffer, rfl⟩, stored⟩
  refine ⟨⟨_, rfl⟩, ?_⟩
  intro offset below
  rcases Nat.lt_succ_iff_lt_or_eq.mp below with earlier | here
  · have different : offset ≠ left.recvCurrent := Nat.ne_of_lt earlier
    exact
      (store_other left.recvBuf byte different).trans
        ((stored offset earlier).trans
          (store_other buffer byte different).symm)
  · subst here
    exact
      (store_same left.recvBuf left.recvCurrent byte).trans
        (store_same buffer left.recvCurrent byte).symm

theorem CursorTwins.decr {left right : Cursor}
    (twins : CursorTwins left right) :
    CursorTwins left.decr right.decr := by
  rcases twins with ⟨⟨buffer, rfl⟩, stored⟩
  unfold Cursor.decr
  dsimp only
  split
  · exact ⟨⟨buffer, rfl⟩, stored⟩
  · exact ⟨⟨buffer, rfl⟩, stored⟩

/-- Strings below the position of the cursor are the same. -/
theorem CursorTwins.readString {left right : Cursor}
    (twins : CursorTwins left right) :
    readString left.recvBuf left.recvCurrent =
      readString right.recvBuf right.recvCurrent := by
  rcases twins with ⟨⟨buffer, rfl⟩, stored⟩
  funext start
  exact readString_congr stored start

/-! ## What the parsers return for twins -/

/-- The same outcome; a failed request ends the session's reading. -/
inductive ParsedTwins
    (related : HttpExchange → HttpExchange → Prop) :
    Parsed → Parsed → Prop where
  | took
      {left right : HttpExchange}
      (count : Nat)
      (hold : related left right) :
      ParsedTwins related (.took count left) (.took count right)
  | failed
      (errno : Errno)
      (left right : HttpExchange) :
      ParsedTwins related (.failed errno left) (.failed errno right)
  | fault
      (left right : HttpExchange) :
      ParsedTwins related (.fault left) (.fault right)

variable
    {bodies : Option Body × Option Body}
    {left right : HttpExchange}
    {cursor cursor' : Cursor}

theorem parseDone_twins (same : HeadSame bodies left right)
    (cursors : CursorTwins cursor cursor')
    (count : Nat) :
    ParsedTwins (HeadTwins bodies)
      (parseDone left cursor count)
      (parseDone right cursor' count) := by
  rcases same with ⟨phase, body, buffer, workspace, response, rfl⟩
  rcases cursors with ⟨⟨bytes, rfl⟩, stored⟩
  unfold parseDone
  dsimp only
  split
  · exact .took count ⟨⟨phase, body, bytes, workspace, response, rfl⟩, stored⟩
  · exact .failed _ _ _

theorem headPhase_parserSawCr (exchange : HttpExchange) {next : HttpState}
    (early : next.rank ≤ 10) :
    HeadPhase (parserSawCr exchange next) := by
  constructor
  · exact Nat.le_of_ble_eq_true rfl
  · exact early

/-- Corresponding steps of the request line parser. -/
inductive StepTwins (bodies : Option Body × Option Body) :
    LineStep → LineStep → Prop where
  | more
      {left right : HttpExchange}
      {cursor cursor' : Cursor}
      (same : HeadSame bodies left right)
      (cursors : CursorTwins cursor cursor') :
      StepTwins bodies (.more left cursor) (.more right cursor')
  | line
      {left right : HttpExchange}
      {cursor cursor' : Cursor}
      (same : HeadSame bodies left right)
      (cursors : CursorTwins cursor cursor') :
      StepTwins bodies (.line left cursor) (.line right cursor')
  | failed
      (errno : Errno)
      (left right : HttpExchange) :
      StepTwins bodies (.failed errno left) (.failed errno right)
  | stop : StepTwins bodies .stop .stop

/-- The version string lies below the cursor, so it is the same. -/
theorem checkRequest_twins (same : HeadSame bodies left right)
    (cursors : CursorTwins cursor cursor') :
    (checkRequest left cursor
          (cursor.recvCurrent - left.request.version.getD 0) = none ∧
        checkRequest right cursor'
          (cursor'.recvCurrent - right.request.version.getD 0) = none) ∨
      ∃ checked checked',
        checkRequest left cursor
            (cursor.recvCurrent - left.request.version.getD 0) =
          some checked ∧
        checkRequest right cursor'
            (cursor'.recvCurrent - right.request.version.getD 0) =
          some checked' ∧
        HeadSame bodies checked checked' := by
  have whole := same
  rcases same with ⟨phase, body, buffer, workspace, response, rfl⟩
  rcases cursors with ⟨⟨bytes, rfl⟩, stored⟩
  unfold checkRequest
  dsimp only [exchangeWith]
  by_cases length : cursor.recvCurrent - left.request.version.getD 0 = 8
  · have major := stored (left.request.version.getD 0 + 5) (by omega)
    have minor := stored (left.request.version.getD 0 + 7) (by omega)
    dsimp only at major minor
    simp only [if_pos length, major, minor]
    split
    · exact
        .inr ⟨_, _, rfl, rfl, ⟨phase, body, buffer, workspace, response, rfl⟩⟩
    · split
      · exact .inr ⟨_, _, rfl, rfl, whole⟩
      · exact .inl ⟨rfl, rfl⟩
  · exact .inl ⟨if_neg length, if_neg length⟩

theorem requestLineByte_twins (same : HeadSame bodies left right)
    (cursors : CursorTwins cursor cursor')
    (c : UInt8) :
    StepTwins bodies (requestLineByte left cursor c)
      (requestLineByte right cursor' c) := by
  have checked := checkRequest_twins same cursors
  have moved : ∀ byte, CursorTwins (cursor.put byte).decr
      (cursor'.put byte).decr :=
    fun byte => (cursors.put byte).decr
  have positions : cursor'.recvCurrent = cursor.recvCurrent := by
    rcases cursors.same with ⟨bytes, rfl⟩
    rfl
  have whole := same
  rcases same with ⟨phase, body, buffer, workspace, response, rfl⟩
  have next :
      ∀ request state,
        request.body = bodies.1 →
          state.rank ≤ 10 →
            StepTwins bodies
              (statusItemNext left cursor request state)
              (statusItemNext
                (exchangeWith left buffer workspace response bodies.2) cursor'
                { request with ws := workspace, body := bodies.2 }
                state) := by
    intro request state kept early
    exact
      .more
        ⟨⟨early, phase.2⟩, kept, buffer, workspace, response, rfl⟩
        (moved 0)
  have goesOn :
      StepTwins bodies (statusItemContinue left cursor c)
        (statusItemContinue
          (exchangeWith left buffer workspace response bodies.2) cursor' c) :=
    .more whole (moved c)
  have state' :
      (exchangeWith left buffer workspace response bodies.2).state =
        left.state :=
    rfl
  cases state : left.state with
  | requestMethod =>
      simp only [requestLineByte, state', state, positions]
      split
      · exact goesOn
      · split
        · exact next _ _ body (by decide)
        · exact .failed _ _ _
  | requestUriPath =>
      simp only [requestLineByte, state', state, positions]
      split
      · exact next _ _ body (by decide)
      · split
        · exact next _ _ body (by decide)
        · split
          · exact next _ _ body (by decide)
          · exact goesOn
  | requestQuery =>
      simp only [requestLineByte, state', state, positions]
      split
      · exact next _ _ body (by decide)
      · split
        · exact next _ _ body (by decide)
        · exact goesOn
  | requestFragment =>
      simp only [requestLineByte, state', state, positions]
      split
      · exact goesOn
      · exact next _ _ body (by decide)
  | requestVersion =>
      simp only [requestLineByte, state', state]
      split
      · exact goesOn
      · rcases checked with
          ⟨refused, refused'⟩ | ⟨_, _, accepted, accepted', twins⟩
        · rw [refused, refused']
          exact .failed _ _ _
        · rw [accepted, accepted']
          rcases twins with ⟨_, kept, b, w, p, rfl⟩
          exact
            .line
              ⟨headPhase_parserSawCr _ (by decide), kept, b, w, p, rfl⟩
              (cursors.put 0)
  | _ =>
      simp only [requestLineByte, state', state]
      exact .stop

theorem requestLineLoop_twins (same : HeadSame bodies left right)
    (cursors : CursorTwins cursor cursor')
    (count : Nat)
    (buffer : Bytes) :
    ParsedTwins (HeadTwins bodies)
      (requestLineLoop left cursor count buffer)
      (requestLineLoop right cursor' count buffer) := by
  induction buffer generalizing left right cursor cursor' count with
  | nil => exact parseDone_twins same cursors count
  | cons c rest ih =>
      have step := requestLineByte_twins same cursors c
      rw [requestLineLoop, requestLineLoop]
      generalize requestLineByte left cursor c = first at step ⊢
      generalize requestLineByte right cursor' c = second at step ⊢
      cases step with
      | @more later later' moved moved' laterSame laterCursors =>
          have remains : moved'.remain = moved.remain := by
            rcases laterCursors.same with ⟨bytes, rfl⟩
            rfl
          dsimp only
          rw [remains]
          split
          · exact parseDone_twins laterSame laterCursors _
          · exact ih laterSame laterCursors _
      | line laterSame laterCursors =>
          exact parseDone_twins laterSame laterCursors _
      | failed errno _ _ => exact .failed errno _ _
      | stop => exact parseDone_twins same cursors count

theorem ymoParseHttpRequestLine_twins (twins : HeadTwins bodies left right)
    (buffer : Bytes) :
    ParsedTwins (HeadTwins bodies)
      (ymoParseHttpRequestLine left buffer)
      (ymoParseHttpRequestLine right buffer) :=
  requestLineLoop_twins twins.same twins.cursor 0 buffer

theorem ymoParseHttpCrlf_twins (twins : HeadTwins bodies left right)
    (buffer : Bytes) :
    ParsedTwins (HeadTwins bodies)
      (ymoParseHttpCrlf left buffer)
      (ymoParseHttpCrlf right buffer) := by
  cases buffer with
  | nil => exact .fault _ _
  | cons c rest =>
      rcases twins with
        ⟨⟨phase, body, bytes, workspace, response, rfl⟩, stored⟩
      have next :
          (exchangeWith left bytes workspace response bodies.2).nextState =
            left.nextState :=
        rfl
      rw [ymoParseHttpCrlf, ymoParseHttpCrlf]
      split
      · exact .failed _ _ _
      · have early : left.nextState.rank ≤ 10 := phase.2
        dsimp only
        rw [next]
        cases state : left.nextState with
        | bodyChunkHeader =>
            rw [state] at early
            exact absurd early (by decide)
        | body =>
            rw [state] at early
            exact absurd early (by decide)
        | _ =>
            rw [state] at early
            refine .took 1 ⟨⟨⟨early, early⟩, body, ?_⟩, stored⟩
            exact ⟨bytes, workspace, response, rfl⟩

theorem headerNameLoop_twins (same : HeadSame bodies left right)
    (cursors : CursorTwins cursor cursor')
    (count : Nat)
    (buffer : Bytes) :
    ParsedTwins (HeadTwins bodies)
      (headerNameLoop left cursor count buffer)
      (headerNameLoop right cursor' count buffer) := by
  induction buffer generalizing left right cursor cursor' count with
  | nil => exact parseDone_twins same cursors count
  | cons c rest ih =>
      have moved := (cursors.put c).decr
      have remains :
          (cursor'.put c).decr.remain = (cursor.put c).decr.remain := by
        rcases moved.same with ⟨bytes, equal⟩
        rw [equal]
      rcases same with ⟨phase, body, bytes, workspace, response, rfl⟩
      have hashed :
          HeadSame bodies
            { left with hId := ymoHdrHashCh left.hId c }
            { exchangeWith left bytes workspace response bodies.2 with
              hId := ymoHdrHashCh left.hId c } :=
        ⟨phase, body, bytes, workspace, response, rfl⟩
      rw [headerNameLoop, headerNameLoop]
      dsimp only
      split
      · split
        · split
          · rw [remains]
            split
            · exact parseDone_twins hashed moved _
            · exact ih hashed moved _
          · exact .failed _ _ _
        · refine parseDone_twins ⟨?_, ?_, ?_⟩ cursors _
          · exact headPhase_parserSawCr _ (by decide)
          · exact body
          · exact ⟨bytes, workspace, response, rfl⟩
      · refine parseDone_twins ⟨⟨?_, ?_⟩, ?_, ?_⟩ (cursors.put 0).decr _
        · exact Nat.le_of_ble_eq_true rfl
        · exact phase.2
        · exact body
        · exact ⟨bytes, workspace, response, rfl⟩

/-- The value of a header lies below the cursor. -/
theorem CursorTwins.bytesAt (cursors : CursorTwins cursor cursor')
    (start : Nat) :
    bytesAt cursor.recvBuf start (cursor.recvCurrent - start - 1) =
      bytesAt cursor'.recvBuf start (cursor.recvCurrent - start - 1) := by
  apply List.map_congr_left
  intro index member
  have inside := List.mem_range.mp member
  exact cursors.stored _ (by omega)

theorem httpHeaderGotValue_twins (same : HeadSame bodies left right)
    (cursors : CursorTwins cursor cursor') :
    HeadSame bodies
      (httpHeaderGotValue stray left cursor)
      (httpHeaderGotValue stray right cursor') := by
  have strings := cursors.readString
  have values := cursors.bytesAt (left.hdrValue.getD 0)
  have positions : cursor'.recvCurrent = cursor.recvCurrent := by
    rcases cursors.same with ⟨bytes, rfl⟩
    rfl
  rw [positions] at strings
  rcases same with ⟨phase, body, bytes, workspace, response, rfl⟩
  have bodyNoted :
      ∀ (request : HttpRequest) hId value string,
        (noteHeader request hId value string).body = request.body := by
    intro request hId value string
    unfold noteHeader
    dsimp only
    repeat' split
    all_goals rfl
  have noted :
      ∀ (request : HttpRequest) hId value string,
        noteHeader
            { request with ws := workspace, body := bodies.2 }
            hId value string =
          { noteHeader request hId value string with
            ws := workspace, body := bodies.2 } := by
    intro request hId value string
    unfold noteHeader
    dsimp only
    repeat' split
    all_goals rfl
  refine ⟨phase, (bodyNoted _ _ _ _).trans body, ?_⟩
  refine ⟨bytes, workspace, response, ?_⟩
  simp only [httpHeaderGotValue, exchangeWith, positions, ← strings, ← values,
    ← noted]

theorem headerValueLoop_twins (same : HeadSame bodies left right)
    (cursors : CursorTwins cursor cursor')
    (count : Nat)
    (buffer : Bytes) :
    ParsedTwins (HeadTwins bodies)
      (headerValueLoop stray left cursor count buffer)
      (headerValueLoop stray right cursor' count buffer) := by
  induction buffer generalizing cursor cursor' count with
  | nil => exact parseDone_twins same cursors count
  | cons c rest ih =>
      rw [headerValueLoop.eq_def, headerValueLoop.eq_def]
      dsimp only
      split
      · have moved := (cursors.put c).decr
        cases rest with
        | nil => exact parseDone_twins same moved _
        | cons next later =>
            have remains :
                (cursor'.put c).decr.decr.remain =
                  (cursor.put c).decr.decr.remain := by
              rcases moved.decr.same with ⟨bytes, equal⟩
              rw [equal]
            dsimp only
            rw [remains]
            split
            · exact parseDone_twins same moved.decr _
            · exact ih moved.decr _
      · have moved := (cursors.put 0).decr
        have noted := httpHeaderGotValue_twins stray same moved
        rcases noted with ⟨-, body, bytes, workspace, response, equal⟩
        rw [equal]
        refine parseDone_twins ⟨?_, ?_, ?_⟩ moved _
        · exact headPhase_parserSawCr _ (by decide)
        · exact body
        · exact ⟨bytes, workspace, response, rfl⟩

/-- The locals of the header loop correspond. -/
structure HeadersTwins
    (bodies : Option Body × Option Body)
    (left right : HeadersState) : Prop where
  twins : HeadTwins bodies left.exchange right.exchange
  count : right.count = left.count
  buffer : right.buffer = left.buffer

theorem headersResume_twins {locals locals' : HeadersState}
    {parsed parsed' : Parsed}
    (count : locals'.count = locals.count)
    (buffer : locals'.buffer = locals.buffer)
    (called : ParsedTwins (HeadTwins bodies) parsed parsed') :
    Turn.Rel (HeadersTwins bodies) (ParsedTwins (HeadTwins bodies))
      (headersResume locals parsed)
      (headersResume locals' parsed') := by
  cases called with
  | @took later later' taken twins =>
      have remains : later'.remain = later.remain := by
        rcases twins.same.same with ⟨bytes, workspace, response, equal⟩
        rw [equal]
        rfl
      simp only [headersResume, count, buffer, remains]
      split
      · exact .again ⟨twins, rfl, rfl⟩
      · exact .done (parseDone_twins twins.same twins.cursor _)
  | failed errno _ _ => exact .done (.failed errno _ _)
  | fault _ _ => exact .done (.fault _ _)

theorem headersTurn_twins {locals locals' : HeadersState}
    (twins : HeadersTwins bodies locals locals') :
    Turn.Rel (HeadersTwins bodies) (ParsedTwins (HeadTwins bodies))
      (headersTurn stray locals)
      (headersTurn stray locals') := by
  rcases twins with ⟨twins, count, buffer⟩
  have cursors := twins.cursor
  have whole := twins
  rcases locals' with ⟨exchange', count', buffer'⟩
  rcases twins with ⟨⟨phase, body, bytes, workspace, response, same⟩, -⟩
  dsimp only at same count buffer cursors whole
  subst same count buffer
  have state' :
      (exchangeWith locals.exchange bytes workspace response bodies.2).state =
        locals.exchange.state :=
    rfl
  unfold headersTurn
  dsimp only
  rw [state']
  split
  · apply headersResume_twins rfl rfl
    exact headerNameLoop_twins whole.same cursors 0 locals.buffer
  · split
    · exact headersResume_twins rfl rfl (.took 1 whole)
    · apply headersResume_twins rfl rfl
      apply headerValueLoop_twins stray _ cursors 0
      refine ⟨⟨?_, phase.2⟩, body, bytes, workspace, response, rfl⟩
      exact Nat.le_of_ble_eq_true rfl
  · apply headersResume_twins rfl rfl
    exact headerValueLoop_twins stray whole.same cursors 0 locals.buffer
  · exact .done (parseDone_twins whole.same cursors _)

theorem ymoParseHttpHeaders_twins (twins : HeadTwins bodies left right)
    (buffer : Bytes) :
    ParsedTwins (HeadTwins bodies)
      (ymoParseHttpHeaders stray left buffer)
      (ymoParseHttpHeaders stray right buffer) := by
  apply loop_rel (HeadersTwins bodies) (ParsedTwins (HeadTwins bodies))
  · intro locals locals' related
    exact headersTurn_twins stray related
  · intro locals locals' related
    exact .fault _ _
  · exact ⟨twins, rfl, rfl⟩

/-- The head parser of the state does the same to both. -/
theorem parseHead_twins (twins : HeadTwins bodies left right)
    (buffer : Bytes) :
    Option.Rel (ParsedTwins (HeadTwins bodies))
      (parseHead stray left buffer)
      (parseHead stray right buffer) := by
  have whole := twins
  rcases twins with
    ⟨⟨phase, body, bytes, workspace, response, rfl⟩, stored⟩
  have state' :
      (exchangeWith left bytes workspace response bodies.2).state =
        left.state :=
    rfl
  unfold parseHead
  rw [state']
  split
  · refine .some (ymoParseHttpRequestLine_twins ?_ buffer)
    refine ⟨⟨⟨?_, phase.2⟩, body, ?_⟩, stored⟩
    · exact Nat.le_of_ble_eq_true rfl
    · exact ⟨bytes, workspace, response, rfl⟩
  · exact .some (ymoParseHttpRequestLine_twins whole buffer)
  · exact .some (ymoParseHttpRequestLine_twins whole buffer)
  · exact .some (ymoParseHttpRequestLine_twins whole buffer)
  · exact .some (ymoParseHttpCrlf_twins whole buffer)
  · exact .some (ymoParseHttpHeaders_twins stray whole buffer)
  · exact .some (ymoParseHttpHeaders_twins stray whole buffer)
  · exact .some (ymoParseHttpHeaders_twins stray whole buffer)
  · exact .none

/-! ## The calls of a callback on twins -/

/-- The reading states agree on the error and on what was shown. -/
structure StateTwins (left right : ReadState) : Prop where
  error : right.error = left.error
  shown : shownOf right.effects = shownOf left.effects

theorem StateTwins.emit {state state' : ReadState}
    (twins : StateTwins state state')
    (effect : Effect) :
    StateTwins (state.emit effect) (state'.emit effect) := by
  constructor
  · exact twins.error
  · simp only [ReadState.emit, shownOf_append, twins.shown]

theorem StateTwins.store {state state' : ReadState}
    (twins : StateTwins state state')
    (exchange exchange' : HttpExchange) :
    StateTwins (state.emit (.store exchange))
      (state'.emit (.store exchange')) := by
  constructor
  · exact twins.error
  · simp only [ReadState.emit, shownOf_append, twins.shown]
    rfl

/-- What a call does to the response, as far as reading sees it. -/
def respond (response : ResponseHandle) (call : AppCall) : ResponseHandle :=
  match call with
  | .setFlags flags => { response with keepalive := flags.requestKeepalive }
  | _ => response

/-- What a call does to the error state of the session. -/
def raise (error : Bool) (call : AppCall) : Bool :=
  match call with
  | .issue status => error || decide (400 ≤ status)
  | _ => error

/-- What calls do: nothing but the workspace, the response and the error. -/
structure Called
    (exchange : HttpExchange)
    (state : ReadState)
    (calls : List AppCall)
    (after : HttpExchange × ReadState) : Prop where
  exchange :
    ∃ workspace,
      after.1 =
        exchangeWith exchange exchange.recvBuf workspace
          (exchange.response.map fun response => calls.foldl respond response)
          exchange.request.body
  error : after.2.error = calls.foldl raise state.error
  shown : shownOf after.2.effects = shownOf state.effects

/-- Setting a header changes the workspace, if it changes anything. -/
theorem resolveCall_insertHeader (exchange : HttpExchange)
    (header value : StringSource) :
    ∃ workspace, ∃ pointers : Option (HdrPointer × HdrPointer),
      resolveCall exchange (.insertHeader header value) =
        (pointers.map fun pair => .insertHeader pair.1 pair.2,
          exchangeWith exchange exchange.recvBuf workspace exchange.response
            exchange.request.body) := by
  simp only [resolveCall]
  split
  · rename_i name content _ _
    exact ⟨_, some (name, content), rfl⟩
  · exact ⟨_, none, rfl⟩

theorem called_runCall (exchange : HttpExchange) (state : ReadState)
    (call : AppCall) :
    Called exchange state [call] (runCall exchange state call) := by
  have quiet :
      ∀ stored call,
        shownOf (state.effects ++ [.store stored, .call call]) =
          shownOf state.effects := by
    intro stored call
    rw [shownOf_append]
    exact List.append_nil _
  cases call with
  | insertHeader header value =>
      rcases resolveCall_insertHeader exchange header value
        with ⟨workspace, pointers, resolved⟩
      rw [runCall, resolved]
      cases pointers with
      | none =>
          refine ⟨⟨workspace, ?_⟩, rfl, rfl⟩
          exact congrArg (fun response => exchangeWith exchange _ _ response _)
            Option.map_id'.symm
      | some pointers => exact ⟨⟨workspace, rfl⟩, rfl, quiet _ _⟩
  | _ => exact ⟨⟨exchange.request.ws, rfl⟩, rfl, quiet _ _⟩

theorem called_runCalls (exchange : HttpExchange) (state : ReadState)
    (calls : List AppCall) :
    Called exchange state calls (runCalls exchange state calls) := by
  induction calls generalizing exchange state with
  | nil =>
      refine ⟨⟨exchange.request.ws, ?_⟩, rfl, rfl⟩
      exact congrArg (fun response => exchangeWith exchange _ _ response _)
        Option.map_id'.symm
  | cons call calls ih =>
      rcases called_runCall exchange state call
        with ⟨⟨workspace, exchanged⟩, error, shown⟩
      rcases ih (runCall exchange state call).1
          (runCall exchange state call).2
        with ⟨⟨later, exchanged'⟩, error', shown'⟩
      rw [runCalls]
      refine ⟨⟨later, ?_⟩, ?_, shown'.trans shown⟩
      · rw [exchanged', exchanged]
        simp only [exchangeWith, Option.map_map]
        rfl
      · rw [error', error]
        rfl

/-- The callbacks are given the same request. -/
theorem viewOf_twins (twins : BodyTwins left right) :
    viewOf right = viewOf left := by
  rcases twins with ⟨⟨-, buffer, workspace, rfl⟩, stored⟩
  have strings :
      readString left.recvBuf left.recvCurrent =
        readString buffer left.recvCurrent := by
    funext start
    exact readString_congr stored start
  simp only [viewOf, exchangeWith, strings]

theorem runCalls_twins (twins : BodyTwins left right)
    {state state' : ReadState}
    (states : StateTwins state state')
    (calls : List AppCall) :
    BodyTwins (runCalls left state calls).1
        (runCalls right state' calls).1 ∧
      StateTwins (runCalls left state calls).2
        (runCalls right state' calls).2 := by
  rcases twins with ⟨⟨phase, buffer, workspace, rfl⟩, stored⟩
  rcases called_runCalls left state calls
    with ⟨⟨after, exchanged⟩, error, shown⟩
  rcases
    called_runCalls
      (exchangeWith left buffer workspace left.response left.request.body)
      state' calls
    with ⟨⟨after', exchanged'⟩, error', shown'⟩
  constructor
  · rw [exchanged, exchanged']
    exact ⟨⟨phase, buffer, after', rfl⟩, stored⟩
  · constructor
    · rw [error, error', states.error]
    · rw [shown, shown', states.shown]

/-! ## The body parser on twins -/

/-- The same status; exchanges and states correspond. -/
structure ReactionTwins
    (left right : Status × HttpExchange × ReadState) : Prop where
  status : right.1 = left.1
  exchange : BodyTwins left.2.1 right.2.1
  state : StateTwins left.2.2 right.2.2

theorem react_twins (twins : BodyTwins left right) {state state' : ReadState}
    (states : StateTwins state state')
    (event : Shown)
    (reaction : Reaction) :
    ReactionTwins (react left state event reaction)
      (react right state' event reaction) := by
  have called :=
    runCalls_twins twins (states.emit (.shown event)) reaction.calls
  exact ⟨rfl, called.1, called.2⟩

theorem bodyBlock_twins (twins : BodyTwins left right) :
    ∃ workspace,
      bodyBlock right.request =
        (bodyBlock left.request).map fun request =>
          { request with ws := workspace } := by
  rcases twins with ⟨⟨-, buffer, workspace, rfl⟩, -⟩
  refine ⟨workspace, ?_⟩
  simp only [bodyBlock, exchangeWith]
  split
  · rfl
  · by_cases fits : left.request.contentLength ≤ ymoHttpMaxBody
    · rw [if_pos fits]
      exact if_pos fits
    · rw [if_neg fits]
      exact if_neg fits

theorem bufferBodyCb_twins (twins : BodyTwins left right)
    {state state' : ReadState}
    (states : StateTwins state state')
    (data : Bytes) :
    ReactionTwins (bufferBodyCb state left data)
      (bufferBodyCb state' right data) := by
  have whole := twins
  rcases bodyBlock_twins twins with ⟨workspace', block⟩
  rcases twins with ⟨⟨phase, buffer, workspace, rfl⟩, stored⟩
  unfold bufferBodyCb
  rw [block]
  cases bodyBlock left.request with
  | none => exact ⟨rfl, whole, states.emit _⟩
  | some request =>
      dsimp only [Option.map_some]
      split
      · refine ⟨rfl, ⟨⟨phase, ?_⟩, stored⟩, states.emit _⟩
        exact ⟨buffer, workspace', rfl⟩
      · refine ⟨rfl, ⟨⟨phase, ?_⟩, stored⟩, states.emit _⟩
        exact ⟨buffer, workspace', rfl⟩

theorem bodyCb_twins (twins : BodyTwins left right) {state state' : ReadState}
    (states : StateTwins state state')
    (data : Bytes) :
    ReactionTwins (bodyCb protoData state left data)
      (bodyCb protoData state' right data) := by
  unfold bodyCb
  cases protoData.bodyCb with
  | none => exact bufferBodyCb_twins twins states data
  | some callback =>
      dsimp only
      rw [viewOf_twins twins]
      exact react_twins twins states _ _

/-- Corresponding ends of an inner loop of the body parser. -/
inductive BodyStepTwins : BodyStep → BodyStep → Prop where
  | stopped
      {left right : HttpExchange}
      (cursor : BodyCursor)
      (twins : BodyTwins left right) :
      BodyStepTwins (.stopped left cursor) (.stopped right cursor)
  | fault
      (left right : HttpExchange) :
      BodyStepTwins (.fault left) (.fault right)

theorem chunkHeaderLoop_twins (twins : BodyTwins left right) (len count : Nat)
    (memory : Bytes) :
    BodyStepTwins (chunkHeaderLoop left len count memory)
      (chunkHeaderLoop right len count memory) := by
  induction memory generalizing left right len count with
  | nil => exact .fault _ _
  | cons c rest ih =>
      have whole := twins
      rcases twins with ⟨⟨phase, buffer, workspace, rfl⟩, stored⟩
      have remains :
          (exchangeWith left buffer workspace left.response
              left.request.body).bodyRemain =
            left.bodyRemain :=
        rfl
      rw [chunkHeaderLoop, chunkHeaderLoop]
      dsimp only
      rw [remains]
      split
      · split
        · refine .stopped _ ⟨⟨?_, buffer, workspace, rfl⟩, stored⟩
          exact ⟨Nat.le_of_ble_eq_true rfl, Nat.le_of_ble_eq_true rfl⟩
        · refine .stopped _ ⟨⟨?_, buffer, workspace, rfl⟩, stored⟩
          exact ⟨Nat.le_of_ble_eq_true rfl, Nat.le_of_ble_eq_true rfl⟩
      · have stepped :
            BodyTwins
              (if c = cr then left
              else { left with bodyRemain := chunkDigit left.bodyRemain c })
              (if c = cr then
                exchangeWith left buffer workspace left.response
                  left.request.body
              else
                { exchangeWith left buffer workspace left.response
                    left.request.body with
                  bodyRemain := chunkDigit left.bodyRemain c }) := by
          split
          · exact whole
          · exact ⟨⟨phase, buffer, workspace, rfl⟩, stored⟩
        split
        · exact .stopped _ stepped
        · exact ih stepped _ _

theorem chunkTrailerLoop_twins (twins : BodyTwins left right) (len count : Nat)
    (memory : Bytes) :
    BodyStepTwins (chunkTrailerLoop left len count memory)
      (chunkTrailerLoop right len count memory) := by
  induction memory generalizing len count with
  | nil => exact .fault _ _
  | cons c rest ih =>
      rw [chunkTrailerLoop, chunkTrailerLoop]
      split
      · rcases twins with ⟨⟨phase, buffer, workspace, rfl⟩, stored⟩
        refine .stopped _ ⟨⟨?_, buffer, workspace, rfl⟩, stored⟩
        exact ⟨phase.2, phase.2⟩
      · split
        · exact .stopped _ twins
        · exact ih _ _

/-- The states of the body parser correspond. -/
structure BodyStateTwins
    (left right : BodyState ReadState) : Prop where
  state : StateTwins left.state right.state
  exchange : BodyTwins left.exchange right.exchange
  cursor : right.cursor = left.cursor

/-- The results of the body parser correspond. -/
structure BodyParsedTwins
    (left right : Parsed × ReadState) : Prop where
  parsed : ParsedTwins BodyTwins left.1 right.1
  state : StateTwins left.2 right.2

theorem bodyResume_twins {state state' : ReadState}
    (states : StateTwins state state')
    {step step' : BodyStep}
    (steps : BodyStepTwins step step') :
    Turn.Rel BodyStateTwins BodyParsedTwins
      (bodyResume state step) (bodyResume state' step') := by
  cases steps with
  | stopped cursor twins =>
      unfold bodyResume
      dsimp only
      split
      · exact .again ⟨states, twins, rfl⟩
      · exact .done ⟨.took _ twins, states⟩
  | fault _ _ => exact .done ⟨.fault _ _, states⟩

theorem bodyTaken_twins (twins : BodyTwins left right) (available : Nat) :
    BodyTwins (bodyTaken left available) (bodyTaken right available) := by
  rcases twins with ⟨⟨phase, buffer, workspace, rfl⟩, stored⟩
  have remains :
      (exchangeWith left buffer workspace left.response
          left.request.body).bodyRemain =
        left.bodyRemain :=
    rfl
  have flags :
      (exchangeWith left buffer workspace left.response
          left.request.body).request.flags =
        left.request.flags :=
    rfl
  unfold bodyTaken
  dsimp only
  rw [remains, flags]
  split
  · split
    · refine ⟨⟨?_, buffer, workspace, rfl⟩, stored⟩
      exact ⟨Nat.le_of_ble_eq_true rfl, Nat.le_of_ble_eq_true rfl⟩
    · refine ⟨⟨?_, buffer, workspace, rfl⟩, stored⟩
      exact ⟨phase.2, phase.2⟩
  · exact ⟨⟨phase, buffer, workspace, rfl⟩, stored⟩

theorem bodyBytesTurn_twins {locals locals' : BodyState ReadState}
    (twins : BodyStateTwins locals locals') :
    Turn.Rel BodyStateTwins BodyParsedTwins
      (bodyBytesTurn (bodyCb protoData) locals)
      (bodyBytesTurn (bodyCb protoData) locals') := by
  rcases locals' with ⟨state', exchange', cursor'⟩
  rcases twins with ⟨states, exchanges, cursors⟩
  dsimp only at states exchanges cursors
  subst cursors
  have remains : exchange'.bodyRemain = locals.exchange.bodyRemain := by
    rcases exchanges.same with ⟨-, buffer, workspace, rfl⟩
    rfl
  unfold bodyBytesTurn
  dsimp only
  rw [remains]
  split
  · exact .done ⟨.fault _ _, states⟩
  · have called :=
      bodyCb_twins protoData exchanges states
        (locals.cursor.memory.take
          (min locals.cursor.len locals.exchange.bodyRemain))
    generalize bodyCb protoData locals.state locals.exchange _ =
      reaction at called ⊢
    generalize bodyCb protoData state' exchange' _ = reaction' at called ⊢
    rcases reaction with ⟨status, after, later⟩
    rcases reaction' with ⟨status', after', later'⟩
    rcases called with ⟨statuses, afters, laters⟩
    dsimp only at statuses afters laters
    subst statuses
    cases status' with
    | okay =>
        exact bodyResume_twins laters (.stopped _ (bodyTaken_twins afters _))
    | err errno => exact .done ⟨.failed errno _ _, laters⟩

theorem bodyTurn_twins {locals locals' : BodyState ReadState}
    (twins : BodyStateTwins locals locals') :
    Turn.Rel BodyStateTwins BodyParsedTwins
      (bodyTurn (bodyCb protoData) locals)
      (bodyTurn (bodyCb protoData) locals') := by
  have whole := twins
  rcases locals' with ⟨state', exchange', cursor'⟩
  rcases twins with ⟨states, exchanges, cursors⟩
  dsimp only at states exchanges cursors
  subst cursors
  have sameState : exchange'.state = locals.exchange.state := by
    rcases exchanges.same with ⟨-, buffer, workspace, rfl⟩
    rfl
  have remains : exchange'.bodyRemain = locals.exchange.bodyRemain := by
    rcases exchanges.same with ⟨-, buffer, workspace, rfl⟩
    rfl
  unfold bodyTurn
  dsimp only
  rw [sameState, remains]
  split
  · exact bodyResume_twins states (chunkHeaderLoop_twins exchanges _ _ _)
  · split
    · apply bodyResume_twins states
      rcases exchanges with ⟨⟨phase, buffer, workspace, rfl⟩, stored⟩
      refine .stopped _ ⟨⟨?_, buffer, workspace, rfl⟩, stored⟩
      exact ⟨Nat.le_of_ble_eq_true rfl, phase.2⟩
    · exact bodyBytesTurn_twins protoData whole
  · exact bodyResume_twins states (chunkTrailerLoop_twins exchanges _ _ _)
  · exact .done ⟨.took _ exchanges, states⟩

theorem ymoParseHttpBody_twins (twins : BodyTwins left right)
    {state state' : ReadState}
    (states : StateTwins state state')
    (memory : Bytes)
    (len : Nat) :
    BodyParsedTwins
      (ymoParseHttpBody (bodyCb protoData) state left memory len)
      (ymoParseHttpBody (bodyCb protoData) state' right memory len) := by
  apply loop_rel BodyStateTwins BodyParsedTwins
  · intro locals locals' related
    exact bodyTurn_twins protoData related
  · intro locals locals' related
    exact ⟨.fault _ _, related.state⟩
  · exact ⟨states, twins, rfl⟩

/-! ## The reader on twins -/

/-- Exchanges that the same bytes make show the same requests. -/
inductive ExchangeTwins (left right : HttpExchange) : Prop where
  | head
      (twins : HeadTwins (left.request.body, left.request.body) left right)
  | body (twins : BodyTwins left right)

/-- The results of a call correspond; a call that fails ends the reading. -/
structure ResultTwins (left right : ReadResult) : Prop where
  outcome : right.outcome = left.outcome
  state : StateTwins left.state right.state
  exchange :
    ∀ count,
      left.outcome = .took count →
        left.state.error = false →
          ExchangeTwins (readyExchange left.exchange)
            (readyExchange right.exchange)

/-- The locals of the loop correspond. -/
structure LocalsTwins (left right : ReadLocals) : Prop where
  exchange : ExchangeTwins left.exchange right.exchange
  state : StateTwins left.state right.state
  scan : right.scan = left.scan

theorem ymoHttpCheckUpgrade_twins (header : Bytes)
    (handlers : List UpgradeHandler)
    (twins : BodyTwins left right)
    {state state' : ReadState}
    (states : StateTwins state state') :
    (ymoHttpCheckUpgrade header handlers right state').status =
        (ymoHttpCheckUpgrade header handlers left state).status ∧
      BodyTwins
        (ymoHttpCheckUpgrade header handlers left state).exchange
        (ymoHttpCheckUpgrade header handlers right state').exchange ∧
      StateTwins
        (ymoHttpCheckUpgrade header handlers left state).state
        (ymoHttpCheckUpgrade header handlers right state').state := by
  induction handlers generalizing left right state state' with
  | nil => exact ⟨rfl, twins, states⟩
  | cons handler handlers ih =>
      simp only [ymoHttpCheckUpgrade]
      rw [viewOf_twins twins]
      have called :=
        runCalls_twins twins
          (states.emit (.shown (.upgrade header (viewOf left))))
          (handler.cb header (viewOf left)).calls
      cases (handler.cb header (viewOf left)).status with
      | noproto => exact ih called.1 called.2
      | handled => exact ⟨rfl, called.1, called.2.emit _⟩
      | ignore => exact ⟨rfl, called.1, called.2⟩
      | error errno => exact ⟨rfl, called.1, called.2⟩
      | unknown => exact ⟨rfl, called.1, called.2⟩

theorem standardCallback_twins (twins : BodyTwins left right)
    {state state' : ReadState}
    (states : StateTwins state state') :
    ReactionTwins (standardCallback protoData left state)
      (standardCallback protoData right state') := by
  unfold standardCallback
  dsimp only
  rw [viewOf_twins twins]
  exact react_twins twins states _ _

theorem handlerCallback_twins (twins : BodyTwins left right)
    {state state' : ReadState}
    (states : StateTwins state state') :
    ReactionTwins (handlerCallback protoData left state)
      (handlerCallback protoData right state') := by
  have flags : right.request.flags = left.request.flags := by
    rcases twins.same with ⟨-, buffer, workspace, rfl⟩
    rfl
  have strings :
      readString right.recvBuf right.recvCurrent =
        readString left.recvBuf left.recvCurrent := by
    rcases twins with ⟨⟨-, buffer, workspace, rfl⟩, stored⟩
    funext start
    exact (readString_congr stored start).symm
  have headers : right.request.headers = left.request.headers := by
    rcases twins.same with ⟨-, buffer, workspace, rfl⟩
    rfl
  unfold handlerCallback
  dsimp only
  rw [flags, strings, headers]
  split
  · generalize Option.elim _ _ _ = header
    have checked :=
      ymoHttpCheckUpgrade_twins header protoData.upgradeHandler twins states
    rw [checked.1]
    split
    · exact standardCallback_twins protoData checked.2.1 checked.2.2
    · exact ⟨rfl, checked.2.1, checked.2.2⟩
    · exact ⟨rfl, checked.2.1, checked.2.2⟩
    · have refused := runCalls_twins checked.2.1 checked.2.2 [.issue 501]
      exact ⟨rfl, refused.1, refused.2⟩
    · exact standardCallback_twins protoData checked.2.1 checked.2.2
  · exact standardCallback_twins protoData twins states

theorem exchangeTwins_of_head {body : Option Body}
    (twins : HeadTwins (body, body) left right) :
    ExchangeTwins left right := by
  have same : left.request.body = body := twins.same.body
  subst same
  exact .head twins

theorem exchangeTwins_refl_of_head (phase : HeadPhase exchange) :
    ExchangeTwins exchange exchange :=
  .head
    ⟨⟨phase, rfl, exchange.recvBuf, exchange.request.ws,
      exchange.response, rfl⟩, fun _ _ => rfl⟩

theorem headPhase_reset (exchange : HttpExchange) :
    HeadPhase (ymoHttpExchangeReset exchange) :=
  ⟨Nat.le_of_ble_eq_true rfl, Nat.le_of_ble_eq_true rfl⟩

/-- A reset makes heads of twins, whatever their responses are. -/
theorem BodyTwins.reset (twins : BodyTwins left right) :
    ExchangeTwins (ymoHttpExchangeReset left)
      (ymoHttpExchangeReset right) := by
  rcases twins with ⟨⟨-, buffer, workspace, rfl⟩, -⟩
  apply exchangeTwins_of_head
  refine ⟨⟨?_, rfl, buffer, ymoBlallocReset workspace, ?_⟩, ?_⟩
  · exact headPhase_reset left
  · exact ⟨left.response, rfl⟩
  · intro offset below
    exact absurd below (Nat.not_lt_zero offset)

theorem markQueued_twins (twins : BodyTwins left right) :
    BodyTwins (markQueued left) (markQueued right) := by
  rcases twins with ⟨⟨phase, buffer, workspace, rfl⟩, stored⟩
  exact ⟨⟨phase, buffer, workspace, rfl⟩, stored⟩

theorem parseComplete_twins (twins : BodyTwins left right)
    {state state' : ReadState}
    (states : StateTwins state state')
    (taken : Nat) :
    ResultTwins (parseComplete protoData left state taken)
      (parseComplete protoData right state' taken) := by
  have handled := handlerCallback_twins protoData twins (states.emit .handler)
  unfold parseComplete
  generalize
    handlerCallback protoData left (state.emit .handler) = reaction
    at handled ⊢
  generalize
    handlerCallback protoData right (state'.emit .handler) = reaction'
    at handled ⊢
  rcases reaction with ⟨status, after, later⟩
  rcases reaction' with ⟨status', after', later'⟩
  rcases handled with ⟨statuses, afters, laters⟩
  dsimp only at statuses afters laters ⊢
  subst statuses
  have responses : after'.response = after.response := by
    rcases afters.same with ⟨-, buffer, workspace, rfl⟩
    rfl
  have answered :
      StateTwins (handleCallbackResult status' after later).2
          (handleCallbackResult status' after' later').2 ∧
        ((status' = .okay ∨ ymoIsBlocked status' = true) →
          ExchangeTwins
            (readyExchange (handleCallbackResult status' after later).1)
            (readyExchange
              (handleCallbackResult status' after' later').1)) := by
    unfold handleCallbackResult
    dsimp only
    split
    · refine ⟨(laters.emit _).store _ _, fun _ => ?_⟩
      rw [responses]
      have queued := markQueued_twins afters
      cases after.response.elim false (·.keepalive) with
      | false => exact .body queued
      | true => exact queued.reset
    · rename_i notOkay
      split
      · refine ⟨((laters.store _ _).emit _).emit _, fun _ => ?_⟩
        exact exchangeTwins_refl_of_head (headPhase_reset zeroed)
      · rename_i notBlocked
        refine ⟨(laters.store _ _).emit _, ?_⟩
        intro impossible
        rcases impossible with okay | blocked
        · exact absurd okay notOkay
        · exact absurd blocked notBlocked
  split
  · rename_i refused
    refine ⟨rfl, answered.1, ?_⟩
    intro count took
    cases status' with
    | okay => exact absurd rfl refused.1
    | err errno => nomatch took
  · rename_i accepted
    refine ⟨rfl, answered.1.emit _, ?_⟩
    intro count took noError
    apply answered.2
    by_cases okay : status' = .okay
    · exact .inl okay
    · refine .inr ?_
      by_contra notBlocked
      exact accepted ⟨okay, Bool.eq_false_iff.mpr notBlocked⟩

theorem expectBody_twins {body : Option Body}
    (twins : HeadTwins (body, body) left right) :
    BodyTwins (expectBody left) (expectBody right) := by
  rcases twins with
    ⟨⟨phase, same, buffer, workspace, response, rfl⟩, stored⟩
  dsimp only at same
  subst same
  have length :
      (exchangeWith left buffer workspace response
          left.request.body).request.contentLength =
        left.request.contentLength :=
    rfl
  have flags :
      (exchangeWith left buffer workspace response
          left.request.body).request.flags =
        left.request.flags :=
    rfl
  unfold expectBody
  dsimp only
  rw [length, flags]
  split
  · refine ⟨⟨?_, buffer, workspace, rfl⟩, stored⟩
    exact ⟨Nat.le_of_ble_eq_true rfl, Nat.le_of_ble_eq_true rfl⟩
  · split
    · refine ⟨⟨?_, buffer, workspace, rfl⟩, stored⟩
      exact ⟨Nat.le_of_ble_eq_true rfl, Nat.le_of_ble_eq_true rfl⟩
    · refine ⟨⟨?_, buffer, workspace, rfl⟩, stored⟩
      exact ⟨Nat.le_of_ble_eq_true rfl, Nat.le_of_ble_eq_true rfl⟩

theorem headersComplete_twins {body : Option Body}
    (twins : HeadTwins (body, body) left right)
    {state state' : ReadState}
    (states : StateTwins state state') :
    ReactionTwins (headersComplete protoData left state)
      (headersComplete protoData right state') := by
  have ready := expectBody_twins twins
  have flags : right.request.flags = left.request.flags := by
    rcases twins.same.same with ⟨buffer, workspace, response, rfl⟩
    rfl
  have expects :
      expectsContinue right.request = expectsContinue left.request := by
    rcases twins.same.same with ⟨buffer, workspace, response, rfl⟩
    rfl
  unfold headersComplete
  dsimp only
  rw [flags, expects]
  have started :
      StateTwins
        (if expectsContinue left.request = true then
          ((state.emit (.initResponse left.request.flags)).emit
            (.store (expectBody left))).emit .sendContinue
        else state.emit (.initResponse left.request.flags))
        (if expectsContinue left.request = true then
          ((state'.emit (.initResponse left.request.flags)).emit
            (.store (expectBody right))).emit .sendContinue
        else state'.emit (.initResponse left.request.flags)) := by
    split
    · exact ((states.emit _).store _ _).emit _
    · exact states.emit _
  cases protoData.headerCb with
  | none => exact ⟨rfl, ready, started⟩
  | some callback =>
      dsimp only
      split
      · exact ⟨rfl, ready, started⟩
      · rw [viewOf_twins ready]
        exact react_twins ready started _ _

/-! ## The turns of the reader on twins -/

theorem headersCompleteTurn_twins {locals locals' : ReadLocals}
    {body : Option Body}
    (twins : HeadTwins (body, body) locals.exchange locals'.exchange)
    (states : StateTwins locals.state locals'.state)
    (scans : locals'.scan = locals.scan) :
    Turn.Rel LocalsTwins ResultTwins
      (headersCompleteTurn protoData locals)
      (headersCompleteTurn protoData locals') := by
  have completed := headersComplete_twins protoData twins states
  unfold headersCompleteTurn
  rw [scans]
  generalize
    headersComplete protoData locals.exchange locals.state = reaction
    at completed ⊢
  generalize
    headersComplete protoData locals'.exchange locals'.state = reaction'
    at completed ⊢
  rcases reaction with ⟨status, after, later⟩
  rcases reaction' with ⟨status', after', later'⟩
  rcases completed with ⟨statuses, afters, laters⟩
  dsimp only at statuses afters laters ⊢
  subst statuses
  cases status' with
  | err errno =>
      exact .done ⟨rfl, laters.store _ _, fun count took => nomatch took⟩
  | okay =>
      have sameState : after'.state = after.state := by
        rcases afters.same with ⟨-, buffer, workspace, rfl⟩
        rfl
      dsimp only
      rw [sameState]
      split
      · exact .again ⟨.body afters, laters, rfl⟩
      · split
        · exact .done (parseComplete_twins protoData afters laters _)
        · refine .done ⟨rfl, laters.store _ _, ?_⟩
          exact fun _ _ _ => .body afters

theorem loopTest_twins {locals locals' : ReadLocals}
    (twins : LocalsTwins locals locals') :
    Turn.Rel LocalsTwins ResultTwins
      (loopTest protoData locals) (loopTest protoData locals') := by
  rcases locals' with ⟨exchange', state', scan'⟩
  rcases twins with ⟨exchanges, states, scans⟩
  dsimp only at exchanges states scans
  subst scans
  have sameState : exchange'.state = locals.exchange.state := by
    cases exchanges with
    | head twins =>
        rcases twins.same.same with ⟨buffer, workspace, response, rfl⟩
        rfl
    | body twins =>
        rcases twins.same.same with ⟨buffer, workspace, rfl⟩
        rfl
  unfold loopTest
  dsimp only
  rw [sameState]
  split
  · exact .again ⟨exchanges, states, rfl⟩
  · split
    · rename_i complete
      cases exchanges with
      | head twins =>
          have early := twins.same.phase.1
          rw [complete] at early
          exact absurd early (by decide)
      | body twins =>
          exact .done (parseComplete_twins protoData twins states _)
    · rename_i headersComplete
      cases exchanges with
      | head twins =>
          exact headersCompleteTurn_twins protoData twins states rfl
      | body twins =>
          have late := twins.same.phase.1
          rw [headersComplete] at late
          exact absurd late (by decide)
    · refine .done ⟨rfl, states.store _ _, ?_⟩
      exact fun _ _ _ => exchanges

theorem afterParse_twins (scan : Scan) {state state' : ReadState}
    (states : StateTwins state state')
    {related : HttpExchange → HttpExchange → Prop}
    (twins : ∀ left right, related left right → ExchangeTwins left right)
    {parsed parsed' : Parsed}
    (called : ParsedTwins related parsed parsed') :
    Turn.Rel LocalsTwins ResultTwins
      (afterParse protoData scan state parsed)
      (afterParse protoData scan state' parsed') := by
  cases called with
  | took count hold =>
      exact loopTest_twins protoData ⟨twins _ _ hold, states, rfl⟩
  | failed errno left right =>
      apply Turn.Rel.done
      unfold ymoProtoHttpHandleError
      dsimp only [ReadState.emit]
      rw [states.error]
      split
      · refine ⟨rfl, ⟨rfl, ?_⟩, fun count took => nomatch took⟩
        exact (states.store left right).shown
      · refine ⟨rfl, ⟨rfl, ?_⟩, fun count took impossible => ?_⟩
        · simp only [shownOf_append, states.shown]
          rfl
        · nomatch impossible
  | fault left right =>
      exact .done ⟨rfl, states.store _ _, fun count took => nomatch took⟩

theorem headTurn_twins {locals locals' : ReadLocals} {body : Option Body}
    (twins : HeadTwins (body, body) locals.exchange locals'.exchange)
    (states : StateTwins locals.state locals'.state)
    (scans : locals'.scan = locals.scan) :
    Turn.Rel LocalsTwins ResultTwins
      (headTurn protoData locals) (headTurn protoData locals') := by
  unfold headTurn
  rw [scans]
  dsimp only
  split
  · exact
      afterParse_twins protoData locals.scan states
        (fun _ _ => exchangeTwins_of_head)
        (.fault _ _ : ParsedTwins (HeadTwins (body, body)) _ _)
  · have called :=
      parseHead_twins protoData.stray twins
        (locals.scan.memory.take locals.scan.len)
    generalize
      parseHead protoData.stray locals.exchange _ = parsed
      at called ⊢
    generalize
      parseHead protoData.stray locals'.exchange _ = parsed'
      at called ⊢
    cases called with
    | some related =>
        exact
          afterParse_twins protoData locals.scan states
            (fun _ _ => exchangeTwins_of_head) related
    | none =>
        exact
          afterParse_twins protoData locals.scan states
            (fun _ _ => exchangeTwins_of_head) (.took 0 twins)

theorem bodyStateTurn_twins {locals locals' : ReadLocals}
    (twins : BodyTwins locals.exchange locals'.exchange)
    (states : StateTwins locals.state locals'.state)
    (scans : locals'.scan = locals.scan) :
    Turn.Rel LocalsTwins ResultTwins
      (bodyStateTurn protoData locals)
      (bodyStateTurn protoData locals') := by
  have parsed :=
    ymoParseHttpBody_twins protoData twins states
      locals.scan.memory locals.scan.len
  unfold bodyStateTurn
  rw [scans]
  exact
    afterParse_twins protoData locals.scan parsed.state
      (fun _ _ => ExchangeTwins.body) parsed.parsed

/-- One turn of the loop of `ymo_proto_http_read` on twins. -/
theorem readTurn_twins {locals locals' : ReadLocals}
    (twins : LocalsTwins locals locals') :
    Turn.Rel LocalsTwins ResultTwins
      (readTurn protoData locals) (readTurn protoData locals') := by
  rcases twins with ⟨exchanges, states, scans⟩
  cases exchanges with
  | head twins =>
      have sameState : locals'.exchange.state = locals.exchange.state := by
        rcases twins.same.same with ⟨buffer, workspace, response, equal⟩
        rw [equal]
        rfl
      have early := twins.same.phase.1
      unfold readTurn
      rw [sameState]
      split
      · exact headersCompleteTurn_twins protoData twins states scans
      · rename_i state
        rw [state] at early
        exact absurd early (by decide)
      · rename_i state
        rw [state] at early
        exact absurd early (by decide)
      · rename_i state
        rw [state] at early
        exact absurd early (by decide)
      · rename_i state
        rw [state] at early
        exact absurd early (by decide)
      · exact headTurn_twins protoData twins states scans
  | body twins =>
      have sameState : locals'.exchange.state = locals.exchange.state := by
        rcases twins.same.same with ⟨buffer, workspace, equal⟩
        rw [equal]
        rfl
      have late := twins.same.phase.1
      unfold readTurn
      rw [sameState]
      cases state : locals.exchange.state <;> rw [state] at late
      case complete =>
        refine .done ?_
        unfold parseCompleteTurn
        rw [scans]
        exact parseComplete_twins protoData twins states _
      case bodyChunkHeader =>
        exact bodyStateTurn_twins protoData twins states scans
      case body => exact bodyStateTurn_twins protoData twins states scans
      case bodyChunkTrailer =>
        exact bodyStateTurn_twins protoData twins states scans
      all_goals exact absurd late (by decide)

/-- A call of `ymo_proto_http_read` on twins. -/
theorem ymoProtoHttpRead_twins {error : Bool}
    {session session' : Option HttpExchange}
    (twins :
      error = false →
        ExchangeTwins (readyExchange session) (readyExchange session'))
    (memory : Bytes)
    (len : Nat) :
    ResultTwins
      (ymoProtoHttpRead protoData error session memory len)
      (ymoProtoHttpRead protoData error session' memory len) := by
  unfold ymoProtoHttpRead
  dsimp only
  cases error with
  | true =>
      exact ⟨rfl, ⟨rfl, rfl⟩, fun count took impossible => nomatch impossible⟩
  | false =>
      apply loop_rel LocalsTwins ResultTwins
      · intro locals locals' related
        exact readTurn_twins protoData related
      · intro locals locals' related
        exact ⟨rfl, related.state.store _ _, fun count took => nomatch took⟩
      · constructor
        · rw [ymoHttpSessionIsReadReady_exchange,
            ymoHttpSessionIsReadReady_exchange]
          exact twins rfl
        · cases session <;> cases session' <;> exact ⟨rfl, rfl⟩
        · rfl

/-! ## Sessions -/

/-- A read: the memory from its first byte on, and its length. -/
structure Read where
  memory : Bytes
  len : Nat

/-- The bytes of a read with nothing behind them. -/
def Read.of (data : Bytes) : Read where
  memory := data
  len := data.length

/-- The results of a session's reads, up to the first that does not return a
count. -/
def readAll (protoData : HttpProtoData) :
    Bool → Option HttpExchange → List Read → List ReadResult
  | _, _, [] => []
  | error, session, read :: reads =>
      let result :=
        ymoProtoHttpRead protoData error session read.memory read.len
      result ::
        match result.outcome with
        | .took _ => readAll protoData result.state.error result.exchange reads
        | _ => []

/-- What the callbacks are shown in the reads of a session. -/
def shownBy (protoData : HttpProtoData) (session : Option HttpExchange)
    (reads : List Read) :
    List Shown :=
  (readAll protoData false session reads).flatMap fun result =>
    shownOf result.state.effects

/-- The read completed a request that was handled with `YMO_OKAY`, and its
exchange was recycled for the next one. -/
structure KeptAlive
    (result : ReadResult)
    (exchange : HttpExchange) : Prop where
  handled : ∃ taken, result.outcome = .took taken
  noError : result.state.error = false
  queued : .addResponse ∈ result.state.effects
  recycled :
    ∃ answered,
      exchange = ymoHttpExchangeReset answered ∧
        result.exchange = some exchange

/-- No read of the session is of a header's third value. -/
def TwoAtMost (protoData : HttpProtoData) :
    Bool → Option HttpExchange → List Read → Prop
  | _, _, [] => True
  | error, session, read :: reads =>
      let result :=
        ymoProtoHttpRead protoData error session read.memory read.len
      (error = false →
          FewValuesRead protoData session read.memory read.len) ∧
        match result.outcome with
        | .took _ =>
            TwoAtMost protoData result.state.error result.exchange reads
        | _ => True

/-- Without a third value the reads do not depend on what is behind one. -/
theorem readAll_leaving {protoData : HttpProtoData} {error : Bool}
    {session : Option HttpExchange}
    {reads : List Read}
    (few : TwoAtMost protoData error session reads)
    (bytes : Bytes) :
    readAll (leaving protoData bytes) error session reads =
      readAll protoData error session reads := by
  induction reads generalizing error session with
  | nil => rfl
  | cons read reads ih =>
      rcases few with ⟨here, later⟩
      rw [readAll, readAll, ymoProtoHttpRead_eq here bytes]
      congr 1
      split at later
      · exact ih later
      · rfl

/-- A session between requests: new, or after complete requests that were all
handled and kept alive, whatever lay behind their headers. -/
inductive History (protoData : HttpProtoData) :
    Option HttpExchange → Prop where
  | fresh : History protoData none
  | request
      {session : Option HttpExchange}
      {exchange : HttpExchange}
      (earlier : History protoData session)
      (bytes : Bytes)
      (reads : List Read)
      {last : ReadResult}
      (served :
        (readAll (leaving protoData bytes) false session
          reads).getLast? = some last)
      (keptAlive : KeptAlive last exchange) :
      History protoData (some exchange)

/-- The next requests, if none of them has a header with three values, are seen as
they would be on a new session, whatever the heap has for either. -/
def Isolated (protoData : HttpProtoData) (exchange : HttpExchange) : Prop :=
  ∀ reads,
    TwoAtMost protoData false none reads →
      ∀ bytes bytes',
        shownBy (leaving protoData bytes) (some exchange) reads =
          shownBy (leaving protoData bytes') none reads

theorem History.recycled {protoData : HttpProtoData}
    (history : History protoData (some exchange)) :
    ∃ answered, exchange = ymoHttpExchangeReset answered := by
  cases history with
  | request earlier bytes reads served keptAlive =>
      rcases keptAlive.recycled with ⟨answered, recycled, -⟩
      exact ⟨answered, recycled⟩

theorem readAll_twins {error : Bool} {session session' : Option HttpExchange}
    (twins :
      error = false →
        ExchangeTwins (readyExchange session) (readyExchange session'))
    (reads : List Read) :
    ((readAll protoData error session' reads).flatMap fun result =>
        shownOf result.state.effects) =
      (readAll protoData error session reads).flatMap fun result =>
        shownOf result.state.effects := by
  induction reads generalizing error session session' with
  | nil => rfl
  | cons read reads ih =>
      have results :=
        ymoProtoHttpRead_twins protoData twins read.memory read.len
      simp only [readAll, List.flatMap_cons]
      rw [results.state.shown, results.outcome, results.state.error]
      congr 1
      split
      · rename_i count took
        apply ih
        intro noError
        exact results.exchange count took noError
      · rfl

/-- A recycled exchange, and a new one, are heads of the same stream. -/
theorem headTwins_reset (answered : HttpExchange) :
    HeadTwins (none, answered.request.body) ymoHttpExchangeCreate
      (ymoHttpExchangeReset answered) := by
  refine ⟨⟨headPhase_reset zeroed, rfl, ?_⟩, ?_⟩
  · exact
      ⟨answered.recvBuf, ymoBlallocReset answered.request.ws,
        answered.response, rfl⟩
  · intro offset below
    exact absurd below (Nat.not_lt_zero offset)

theorem isolated_of_body_eq_none {answered : HttpExchange}
    (noBody : answered.request.body = none) :
    Isolated protoData (ymoHttpExchangeReset answered) := by
  have twins := headTwins_reset answered
  rw [noBody] at twins
  intro reads few bytes bytes'
  have fresh :
      shownBy (leaving protoData bytes') none reads =
        shownBy (leaving protoData bytes) none reads := by
    rw [shownBy, shownBy, readAll_leaving few, readAll_leaving few]
  rw [fresh]
  apply readAll_twins (leaving protoData bytes)
  intro noError
  exact exchangeTwins_of_head twins

/-! ## What a body that stays behind is shown to -/

/-- A request without headers, in one read. -/
def plainRequest : Read :=
  .of (bytes "GET / HTTP/1.1\r\n\r\n")

/-- The parser calls of the plain request, on the exchange they start from. -/
structure PlainCalls
    (stray : Bytes)
    (exchange line crlf headers last : HttpExchange) : Prop where
  lineTaken :
    parseHead stray exchange plainRequest.memory = some (.took 15 line)
  crlfTaken :
    parseHead stray line (plainRequest.memory.drop 15) = some (.took 1 crlf)
  headersTaken :
    parseHead stray crlf (plainRequest.memory.drop 16) = some (.took 1 headers)
  lastTaken :
    parseHead stray headers (plainRequest.memory.drop 17) = some (.took 1 last)

/-- The end of the headers of a request without a body. -/
structure PlainHead (exchange : HttpExchange) : Prop where
  state : exchange.state = .headersComplete
  contentLength : exchange.request.contentLength = 0
  chunked : exchange.request.flags.requestChunked = false
  upgrade : exchange.request.flags.upgrade = false

theorem plainCalls_create (stray : Bytes) :
    ∃ line crlf headers last,
      PlainCalls stray ymoHttpExchangeCreate line crlf headers
          last ∧
        PlainHead last ∧
          line.state = .crlf ∧
            headers.state = .crlf ∧
              FewInBuffer stray crlf (plainRequest.memory.drop 16) := by
  refine ⟨_, _, _, _, ⟨rfl, rfl, rfl, rfl⟩, ⟨rfl, rfl, rfl, rfl⟩, rfl, rfl, ?_⟩
  apply allTurns_of_again
  · rintro (value | value) <;> cases value
  · rfl
  · apply allTurns_of_done
    · rintro (value | value) <;> cases value
    · rfl

/-- A parser call that took bytes takes them from a twin as well. -/
theorem parseHead_took_twins {stray buffer : Bytes} {count : Nat}
    {later : HttpExchange}
    (twins : HeadTwins bodies left right)
    (called : parseHead stray left buffer = some (.took count later)) :
    ∃ later',
      parseHead stray right buffer =
          some (.took count later') ∧
        HeadTwins bodies later later' := by
  have related := parseHead_twins stray twins buffer
  rw [called] at related
  generalize parseHead stray right buffer = parsed at related ⊢
  cases related with
  | some hold =>
      cases hold with
      | @took _ later' _ hold => exact ⟨later', rfl, hold⟩

theorem PlainCalls.twins {stray : Bytes}
    {line crlf headers last : HttpExchange}
    (calls : PlainCalls stray left line crlf headers last)
    (twins : HeadTwins bodies left right) :
    ∃ line' crlf' headers' last',
      PlainCalls stray right line' crlf' headers' last' ∧
        HeadTwins bodies last last' := by
  rcases parseHead_took_twins twins calls.lineTaken
    with ⟨line', lineTaken, lineTwins⟩
  rcases parseHead_took_twins lineTwins calls.crlfTaken
    with ⟨crlf', crlfTaken, crlfTwins⟩
  rcases parseHead_took_twins crlfTwins calls.headersTaken
    with ⟨headers', headersTaken, headersTwins⟩
  rcases parseHead_took_twins headersTwins calls.lastTaken
    with ⟨last', lastTaken, lastTwins⟩
  exact
    ⟨line', crlf', headers', last',
      ⟨lineTaken, crlfTaken, headersTaken, lastTaken⟩, lastTwins⟩

theorem PlainHead.twins (plain : PlainHead left)
    (twins : HeadTwins bodies left right) :
    PlainHead right := by
  rcases twins.same.same with ⟨buffer, workspace, response, rfl⟩
  exact ⟨plain.state, plain.contentLength, plain.chunked, plain.upgrade⟩

/-- A turn in which a head parser takes bytes. -/
theorem readTurn_took
    (protoData : HttpProtoData)
    {locals : ReadLocals}
    {count : Nat}
    {later : HttpExchange}
    (readable : locals.scan.len ≤ locals.scan.memory.length)
    (called :
      parseHead protoData.stray locals.exchange
          (locals.scan.memory.take locals.scan.len) =
        some (.took count later)) :
    readTurn protoData locals =
      loopTest protoData
        { exchange := later
          state := locals.state
          scan := locals.scan.advance count } := by
  have headTurns :
      headTurn protoData locals =
        loopTest protoData
          { exchange := later
            state := locals.state
            scan := locals.scan.advance count } := by
    unfold headTurn
    dsimp only
    rw [if_neg (Nat.not_lt.mpr readable), called]
    rfl
  unfold readTurn
  unfold parseHead at called
  cases state : locals.exchange.state <;> rw [state] at called <;>
    first | exact headTurns | nomatch called

theorem shownOf_handleCallbackResult (status : Status)
    (exchange : HttpExchange)
    (state : ReadState) :
    shownOf (handleCallbackResult status exchange state).2.effects =
      shownOf state.effects := by
  unfold handleCallbackResult
  dsimp only
  split
  · simp only [ReadState.emit, shownOf_append]
    exact (List.append_nil _).trans (List.append_nil _)
  · split
    · simp only [ReadState.emit, shownOf_append]
      exact
        (List.append_nil _).trans
          ((List.append_nil _).trans (List.append_nil _))
    · simp only [ReadState.emit, shownOf_append]
      exact (List.append_nil _).trans (List.append_nil _)

theorem shownOf_react (exchange : HttpExchange) (state : ReadState)
    (event : Shown)
    (reaction : Reaction) :
    shownOf (react exchange state event reaction).2.2.effects =
      shownOf state.effects ++ [event] := by
  have called :=
    called_runCalls exchange (state.emit (.shown event)) reaction.calls
  refine called.shown.trans ?_
  rw [ReadState.emit, shownOf_append]
  rfl

/-- A request that asks for no upgrade is shown to the request callback. -/
theorem shownOf_parseComplete
    (noUpgrade : exchange.request.flags.upgrade = false)
    (state : ReadState)
    (taken : Nat) :
    shownOf (parseComplete protoData exchange state taken).state.effects =
      shownOf state.effects ++ [.http (viewOf exchange)] := by
  let called : ReadState := state.emit .handler
  have handled :
      handlerCallback protoData exchange called =
        standardCallback protoData exchange called := by
    rw [handlerCallback, noUpgrade]
    rfl
  have quiet : shownOf called.effects = shownOf state.effects := by
    simp only [called, ReadState.emit, shownOf_append]
    exact List.append_nil _
  have shown :
      shownOf
          (standardCallback protoData exchange called).2.2.effects =
        shownOf state.effects ++ [.http (viewOf exchange)] := by
    rw [← quiet]
    exact shownOf_react exchange called _ _
  have answered := fun status =>
    (shownOf_handleCallbackResult status
      (standardCallback protoData exchange called).2.1
      (standardCallback protoData exchange called).2.2).trans shown
  unfold parseComplete
  rw [handled]
  dsimp only
  split
  · exact answered _
  · simp only [ReadState.emit, shownOf_append, answered]
    exact List.append_nil _

/-- The end of the headers, with nothing behind them, of a request without a
body: the request is handled at once. -/
theorem headersCompleteTurn_plain (plain : PlainHead exchange)
    (state : ReadState)
    (nothing : shownOf state.effects = [])
    (taken : Nat) :
    ∃ result,
      headersCompleteTurn protoData
          { exchange := exchange
            state := state
            scan := { memory := [], len := 0, taken := taken } } =
        .done result ∧
      (shownOf result.state.effects).head? =
        some
          (match protoData.headerCb with
          | some _ => .header (viewOf (expectBody exchange))
          | none => .http (viewOf (expectBody exchange))) := by
  have ready :
      (expectBody exchange).state = .complete ∧
        (expectBody exchange).request = exchange.request := by
    unfold expectBody
    dsimp only
    rw [plain.contentLength, plain.chunked]
    exact ⟨rfl, rfl⟩
  have noUpgrade : (expectBody exchange).request.flags.upgrade = false := by
    rw [ready.2]
    exact plain.upgrade
  have expects : expectsContinue exchange.request = false := by
    rw [expectsContinue, plain.contentLength, plain.chunked]
    exact Bool.and_false _
  have started :
      shownOf
          (state.emit (.initResponse exchange.request.flags)).effects =
        [] := by
    rw [ReadState.emit, shownOf_append, nothing]
    rfl
  unfold headersCompleteTurn headersComplete
  rw [expects, plain.upgrade]
  cases protoData.headerCb with
  | none =>
      simp only [Bool.false_eq_true, if_false, ne_eq, not_true_eq_false,
        ready.1, if_true]
      refine ⟨_, rfl, ?_⟩
      rw [parseCompleteTurn, shownOf_parseComplete protoData noUpgrade,
        started]
      rfl
  | some callback =>
      simp only [Bool.false_eq_true, if_false]
      have shown :=
        shownOf_react (expectBody exchange)
          (state.emit (.initResponse exchange.request.flags))
          (.header (viewOf (expectBody exchange)))
          (callback (viewOf (expectBody exchange)))
      have framedSame :
          framed
              (react (expectBody exchange)
                (state.emit (.initResponse exchange.request.flags))
                (.header (viewOf (expectBody exchange)))
                (callback (viewOf (expectBody exchange)))).2.1 =
            framed (expectBody exchange) :=
        framed_runCalls _ _ _
      generalize
        react (expectBody exchange)
            (state.emit (.initResponse exchange.request.flags)) _ _ =
          reaction
        at shown framedSame ⊢
      rcases reaction with ⟨status, after, later⟩
      rw [started, List.nil_append] at shown
      dsimp only at shown framedSame ⊢
      cases status with
      | err errno =>
          refine ⟨_, rfl, ?_⟩
          simp only [ReadState.emit, shownOf_append, shown]
          rfl
      | okay =>
          have complete : after.state = .complete :=
            (congrArg HttpExchange.state framedSame).trans ready.1
          have flags :
              after.request.flags = (expectBody exchange).request.flags :=
            congrArg (fun exchange => exchange.request.flags) framedSame
          rw [← flags] at noUpgrade
          simp only [ne_eq, not_true_eq_false, if_false, complete, if_true]
          refine ⟨_, rfl, ?_⟩
          rw [parseCompleteTurn,
            shownOf_parseComplete protoData noUpgrade, shown]
          rfl

/-- The locals of the loop after some bytes of the plain request. -/
def plainLocals (exchange : HttpExchange) (state : ReadState) (taken : Nat) :
    ReadLocals where
  exchange := exchange
  state := state
  scan :=
    { memory := plainRequest.memory.drop taken
      len := 18 - taken
      taken := taken }

theorem readTurn_plainLocals
    (protoData : HttpProtoData)
    {exchange later : HttpExchange}
    (state : ReadState)
    {taken count : Nat}
    (called :
      parseHead protoData.stray exchange
          (plainRequest.memory.drop taken) =
        some (.took count later))
    (inside : taken + count ≤ 18) :
    readTurn protoData (plainLocals exchange state taken) =
      loopTest protoData (plainLocals later state (taken + count)) := by
  have length : (plainRequest.memory.drop taken).length = 18 - taken :=
    List.length_drop
  have turn :=
    @readTurn_took protoData (plainLocals exchange state taken) count
      later (Nat.le_of_eq length.symm)
      (by
        dsimp only [plainLocals]
        rw [List.take_of_length_le (Nat.le_of_eq length)]
        exact called)
  rw [turn]
  have fits : count ≤ 18 - taken := by omega
  simp only [plainLocals, Scan.advance, List.drop_drop, if_pos fits,
    Nat.sub_sub]

/-- The turns of the plain request, up to the end of its headers. -/
theorem readTurns_plain {exchange line crlf headers last : HttpExchange}
    (calls : PlainCalls protoData.stray exchange line crlf headers last)
    (state : ReadState) :
    readTurn protoData (plainLocals exchange state 0) =
        .again (plainLocals line state 15) ∧
      readTurn protoData (plainLocals line state 15) =
          .again (plainLocals crlf state 16) ∧
        readTurn protoData (plainLocals crlf state 16) =
            .again (plainLocals headers state 17) ∧
          readTurn protoData (plainLocals headers state 17) =
            loopTest protoData (plainLocals last state 18) :=
  ⟨@readTurn_plainLocals protoData _ _ state 0 15 calls.lineTaken
      (by decide),
    readTurn_plainLocals protoData state calls.crlfTaken (by decide),
    readTurn_plainLocals protoData state calls.headersTaken (by decide),
    readTurn_plainLocals protoData state calls.lastTaken (by decide)⟩

theorem loopTest_plain {last : HttpExchange} (plain : PlainHead last)
    (state : ReadState) :
    loopTest protoData (plainLocals last state 18) =
      headersCompleteTurn protoData (plainLocals last state 18) := by
  have none : ¬ (plainLocals last state 18).scan.len ≠ 0 := not_not.mpr rfl
  unfold loopTest
  rw [if_neg none]
  dsimp only [plainLocals]
  rw [plain.state]

/-- The read of the plain request runs up to the end of its headers. -/
theorem ymoProtoHttpRead_plain
    (protoData : HttpProtoData)
    {session : Option HttpExchange}
    {line crlf headers last : HttpExchange}
    (calls :
      PlainCalls protoData.stray (readyExchange session)
        line crlf headers last)
    (plain : PlainHead last) :
    (shownOf
          (ymoProtoHttpRead protoData false session plainRequest.memory
            plainRequest.len).state.effects).head? =
      some
        (match protoData.headerCb with
        | some _ => .header (viewOf (expectBody last))
        | none => .http (viewOf (expectBody last))) := by
  have nothing :
      shownOf
          (ymoHttpSessionIsReadReady session
            { error := false, effects := [] }).2.effects =
        [] := by
    cases session <;> rfl
  have exchange :=
    ymoHttpSessionIsReadReady_exchange session
      { error := false, effects := [] }
  unfold ymoProtoHttpRead
  dsimp only
  generalize
    ymoHttpSessionIsReadReady session { error := false, effects := [] } = ready
    at nothing exchange ⊢
  rcases ready with ⟨start, state⟩
  dsimp only at nothing exchange ⊢
  subst exchange
  rcases headersCompleteTurn_plain protoData plain state nothing 18
    with ⟨result, handled, shown⟩
  rcases readTurns_plain protoData calls state with
    ⟨lineTurn, crlfTurn, headersTurn, lastTurn⟩
  have ended : loopTest protoData (plainLocals last state 18) = .done result :=
    (loopTest_plain protoData plain state).trans handled
  have run :
      loop (readTurn protoData) readGiveUp
          (readFuel plainRequest.memory)
          (plainLocals (readyExchange session) state 0) =
        result := by
    rw [show readFuel plainRequest.memory = 320 + 1 + 1 + 1 + 1 from rfl,
      loop_of_again lineTurn, loop_of_again crlfTurn,
      loop_of_again headersTurn,
      loop_of_done (lastTurn.trans ended)]
  exact
    (congrArg
      (fun result : ReadResult => (shownOf result.state.effects).head?)
      run).trans shown

/-- The plain request has no header. -/
theorem twoAtMost_plain (protoData : HttpProtoData) :
    TwoAtMost protoData false none [plainRequest] := by
  rcases plainCalls_create protoData.stray with
    ⟨line, crlf, headers, last, calls, plain, lineState, headersState, few⟩
  let state : ReadState := { error := false, effects := [.newExchange] }
  rcases readTurns_plain protoData calls state with
    ⟨lineTurn, crlfTurn, headersTurn, lastTurn⟩
  rcases headersCompleteTurn_plain protoData plain state rfl 18 with
    ⟨result, handled, -⟩
  have ended := (loopTest_plain protoData plain state).trans handled
  have elsewhere :
      ∀ locals : ReadLocals,
        (locals.exchange.state = .connected ∨
          locals.exchange.state = .crlf) →
          FewInRead protoData locals := by
    rintro locals (here | here) headers <;> rw [here] at headers <;>
      exact absurd headers (by decide)
  refine ⟨fun _ => ?_, ?_⟩
  · show AllTurns _ _ (320 + 1 + 1 + 1 + 1) (plainLocals _ state 0)
    apply allTurns_of_again (elsewhere _ (Or.inl rfl)) lineTurn
    apply allTurns_of_again (elsewhere _ (Or.inr lineState)) crlfTurn
    apply allTurns_of_again (fun _ => few) headersTurn
    exact
      allTurns_of_done (elsewhere _ (Or.inr headersState))
        (lastTurn.trans ended) _
  · split <;> trivial

/-- With a body left behind, the plain request shows it. -/
theorem not_isolated_of_body {answered : HttpExchange} {body : Body}
    (behind : answered.request.body = some body) :
    ¬ Isolated protoData (ymoHttpExchangeReset answered) := by
  intro isolated
  have twins := headTwins_reset answered
  rw [behind] at twins
  rcases plainCalls_create protoData.stray
    with ⟨line, crlf, headers, last, calls, plain, -⟩
  rcases calls.twins twins
    with ⟨line', crlf', headers', last', calls', lastTwins⟩
  have fresh :=
    @ymoProtoHttpRead_plain protoData none line crlf headers last calls plain
  have kept :=
    @ymoProtoHttpRead_plain protoData
      (some (ymoHttpExchangeReset answered)) line' crlf' headers' last'
      calls' (plain.twins lastTwins)
  have single :
      ∀ session,
        shownBy protoData session [plainRequest] =
          shownOf
            (ymoProtoHttpRead protoData false session
              plainRequest.memory plainRequest.len).state.effects := by
    intro session
    simp only [shownBy, readAll]
    split <;> simp only [List.flatMap_cons, List.flatMap_nil, List.append_nil]
  have same :=
    isolated [plainRequest] (twoAtMost_plain protoData)
      protoData.stray protoData.stray
  have itself : leaving protoData protoData.stray = protoData := rfl
  rw [itself, single, single] at same
  rw [same, fresh] at kept
  have views : viewOf (expectBody last) = viewOf (expectBody last') := by
    have events := Option.some.inj kept
    cases header : protoData.headerCb with
    | none =>
        rw [header] at events
        exact Shown.http.inj events
    | some callback =>
        rw [header] at events
        exact Shown.header.inj events
  have bodyKept :
      ∀ exchange, (expectBody exchange).request = exchange.request := by
    intro exchange
    unfold expectBody
    dsimp only
    split
    · rfl
    · split <;> rfl
  have bodies := congrArg RequestView.body views
  simp only [viewOf, bodyKept] at bodies
  rcases lastTwins.same with ⟨-, empty, buffer, workspace, response, rfl⟩
  rw [empty] at bodies
  nomatch bodies

/-- The exchange of a new session after one read. -/
def exchangeAfter (read : Read) : HttpExchange :=
  readyExchange
    (ymoProtoHttpRead quietApplication false none read.memory
      read.len).exchange

/-- A request with one byte of body. -/
def postRequest : Read :=
  .of (bytes "POST / HTTP/1.1\r\nContent-Length: 1\r\n\r\nx")

/-- The content length a request callback is shown. -/
def lengthShown : Shown → Option Nat
  | .http view => some view.contentLength
  | _ => none

end Yimmo.Http.KeepAlive
