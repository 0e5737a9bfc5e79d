import Yimmo.Http.RequestReads

/-!
# Requests are delivered

From any place in a request a call of `ymo_proto_http_read` either takes its whole read
and stands at a later place, or comes to the end of the request, handles it and leaves
what follows.  So a request is delivered in whatever reads it arrives.

A read may not begin in the query or in the fragment: there the caller knows no parser,
and the loop does not end.
-/

namespace Yimmo.Http.RequestDelivery

open Yimmo.Core.StatusCode
open Yimmo.Lib.TurnLoop
open Yimmo.Http.Exchange
open Yimmo.Http.Parse
open Yimmo.Http.Application
open Yimmo.Http.Reader
open Yimmo.Http.ReceiveSpace
open Yimmo.Http.RequestLines
open Yimmo.Http.HeaderBlock
open Yimmo.Http.KeepAlive
open Yimmo.Http.ChunkedCoding
open Yimmo.Http.LineReads
open Yimmo.Http.ReadProgress
open Yimmo.Http.RequestReads

/-! ## Reads -/

/-- Some of the request was read, and the rest is to come. -/
inductive Underway
    (protoData : HttpProtoData)
    (request : SentRequest)
    (read : HttpExchange)
    (further : Bytes)
    (position : Nat) :
    List Shown → HttpExchange → Bytes → Prop where
  | inHead
      {exchange : HttpExchange}
      {rest : Bytes}
      (heading :
        Heading protoData.stray request read
          (request.body ++ further) position exchange rest) :
      Underway protoData request read further position [] exchange rest
  | inBody
      {exchange : HttpExchange}
      {delivered coming : Bytes}
      {front middle : List Shown}
      (withBody : WithBody protoData request delivered exchange)
      (split : request.body = delivered ++ coming)
      (some : coming ≠ [])
      (shownHead : ShownHead protoData request front)
      (shownBody : ShownBody request middle delivered) :
      Underway protoData request read further position (front ++ middle)
        exchange (coming ++ further)

/-- What a read call returns when the request is answered with a status. -/
def handledOutcome (taken : Nat) (status : Status) : ReadOutcome :=
  if status ≠ .okay ∧ ymoIsBlocked status = false then outcomeOf taken status
  else .took taken

/-- The request was shown as it was sent: its head, its body in order, and the
request at the end. -/
structure Delivered
    (protoData : HttpProtoData)
    (request : SentRequest)
    (events : List Shown)
    (exchange : HttpExchange) : Prop where
  shown :
    ∃ front middle,
      events = front ++ middle ++ [.http (viewOf exchange)] ∧
        ShownHead protoData request front ∧
          ShownBody request middle request.body
  known : HeadKnown request exchange
  length : (viewOf exchange).contentLength = request.body.length
  /-- A buffered body is the one that was sent. -/
  body :
    protoData.bodyCb = none → (viewOf exchange).body.getD [] = request.body

/-- How a read goes: the request is still under way and all was taken, or it is
delivered and what follows it is left. -/
def ReadGoes (protoData : HttpProtoData) (request : SentRequest)
    (read : HttpExchange)
    (further : Bytes)
    (before : List Shown)
    (position : Nat)
    (scan : Scan)
    (rest : Bytes)
    (result : ReadResult) : Prop :=
  (∃ later,
    result.outcome = .took (scan.taken + scan.len) ∧
      result.state.error = false ∧ result.exchange = some later ∧
        Underway protoData request read further position
          (before ++ shownOf result.state.effects) later rest) ∨
    ∃ n exchange,
      n ≤ scan.len ∧ (ahead scan).drop n ++ rest = further ∧
        result.outcome =
            handledOutcome (scan.taken + n)
              (protoData.httpCb (viewOf exchange)).status ∧
          Delivered protoData request
            (before ++ shownOf result.state.effects) exchange

section Reads

variable
    {protoData : HttpProtoData}
    {request : SentRequest}
    {read : HttpExchange}
    {further : Bytes}
    {before : List Shown}
    {position : Nat}

/-- A read goes as it goes when some of it was taken. -/
theorem ReadGoes.of_advance {scan : Scan} {n : Nat} {rest : Bytes}
    {result : ReadResult}
    (within : n ≤ scan.len)
    (goes :
      ReadGoes protoData request read further before position
        (scan.advance n) rest result) :
    ReadGoes protoData request read further before position scan rest
      result := by
  rcases @ahead_advance scan n within with ⟨dropped, left⟩
  have taken : (scan.advance n).taken = scan.taken + n := rfl
  rcases goes with ⟨later, outcome, going⟩ | ⟨m, exchange, fits, goes⟩
  · refine .inl ⟨later, ?_, going⟩
    rw [outcome, taken, left, Nat.add_assoc, Nat.add_sub_cancel' within]
  · rw [dropped, List.drop_drop, taken, Nat.add_assoc] at goes
    exact .inr ⟨n + m, exchange, by omega, goes⟩

/-- A buffered body is what was delivered, and the length is its length. -/
theorem account_complete {body : Bytes} {httpRequest : HttpRequest}
    (account : Account protoData body.length body httpRequest) :
    httpRequest.contentLength = body.length ∧
      (protoData.bodyCb = none →
        (httpRequest.body.map fun block =>
            block.data.take httpRequest.bodyReceived).getD [] =
          body) := by
  by_cases buffers : protoData.bodyCb = none
  · rcases account.buffered buffers with ⟨received, block⟩
    cases block with
    | absent none nothing length =>
        refine ⟨length, fun _ => ?_⟩
        rw [none, nothing]
        rfl
    | present some data length size fits room =>
        refine ⟨length, fun _ => ?_⟩
        rw [some, received]
        show List.take body.length _ = body
        rw [data, List.take_length]
  · exact ⟨(account.shown buffers).2, fun here => absurd here buffers⟩

/-- The request is shown when its body is complete. -/
theorem withBody_delivered (sendable : Sendable request)
    {exchange : HttpExchange}
    (withBody : WithBody protoData request request.body exchange)
    {front middle : List Shown}
    (shownHead : ShownHead protoData request front)
    (shownBody : ShownBody request middle request.body)
    {state : ReadState}
    (shown : before ++ shownOf state.effects = front ++ middle)
    (taken : Nat) :
    (parseComplete protoData exchange state taken).outcome =
        handledOutcome taken (protoData.httpCb (viewOf exchange)).status ∧
      Delivered protoData request
        (before ++
          shownOf (parseComplete protoData exchange state taken).state.effects)
        exchange := by
  have stays : exchange.request.flags.upgrade = false := by
    rw [withBody.known.flags]
    exact sendable.stays
  have complete := account_complete withBody.account
  constructor
  · have handled (called : ReadState) :
        handlerCallback protoData exchange called =
          standardCallback protoData exchange called := by
      rw [handlerCallback, stays]
      rfl
    unfold parseComplete handledOutcome
    dsimp only
    rw [handled]
    split
    · next failed => exact (if_pos failed).symm
    · next accepted => exact (if_neg accepted).symm
  · refine
      ⟨⟨front, middle, ?_, shownHead, shownBody⟩, withBody.known,
        complete.1, complete.2⟩
    rw [shownOf_parseComplete protoData stays, ← List.append_assoc, shown]

/-- A complete request is handled in this turn or the next. -/
theorem readResume_complete {locals : ReadLocals}
    (complete : locals.exchange.state = .complete)
    (fuel : Nat) :
    readResume protoData (fuel + 1) (loopTest protoData locals) =
      parseComplete protoData locals.exchange locals.state
        locals.scan.taken := by
  unfold loopTest
  by_cases left : locals.scan.len ≠ 0
  · rw [if_pos left]
    have turn :
        readTurn protoData locals =
          .done (parseCompleteTurn protoData locals) := by
      unfold readTurn
      rw [complete]
    exact loop_of_done turn fuel
  · rw [if_neg left, complete]
    rfl

theorem shownOf_returnTaken (locals : ReadLocals) :
    shownOf (returnTaken locals).state.effects =
      shownOf locals.state.effects := by
  unfold returnTaken
  rw [ReadState.emit, shownOf_append]
  exact List.append_nil _

/-- Returning shows nothing. -/
theorem Underway.of_returnTaken {exchange : HttpExchange} {rest : Bytes}
    {locals : ReadLocals}
    (underway :
      Underway protoData request read further position
        (before ++ shownOf locals.state.effects) exchange rest) :
    Underway protoData request read further position
      (before ++ shownOf (returnTaken locals).state.effects) exchange
      rest := by
  rw [shownOf_returnTaken]
  exact underway

/-- A read that ends in the body leaves the loop. -/
theorem loopTest_inBody {locals : ReadLocals} {delivered coming rest : Bytes}
    {front middle : List Shown}
    (withBody : WithBody protoData request delivered locals.exchange)
    (split : request.body = delivered ++ coming)
    (some : coming ≠ [])
    (shownHead : ShownHead protoData request front)
    (shownBody : ShownBody request middle delivered)
    (shown : before ++ shownOf locals.state.effects = front ++ middle)
    (nothing : locals.scan.len = 0)
    (covers : coming ++ further = rest) :
    loopTest protoData locals = .done (returnTaken locals) ∧
      Underway protoData request read further position
        (before ++ shownOf (returnTaken locals).state.effects)
        locals.exchange rest := by
  have goesOn : locals.exchange.state = .body := by
    rcases withBody.counted with ⟨-, state, -⟩ | ⟨same, -⟩
    · exact state
    · have total := congrArg List.length split
      have positive := List.length_pos_iff.mpr some
      rw [List.length_append] at total
      omega
  have returned :=
    @loopTest_returns protoData locals nothing
      (by rw [goesOn]; exact HttpState.noConfusion)
      (by rw [goesOn]; exact HttpState.noConfusion)
  have onward :
      Underway protoData request read further position (front ++ middle)
        locals.exchange (coming ++ further) :=
    .inBody withBody split some shownHead shownBody
  rw [← shown, covers] at onward
  exact ⟨returned, onward.of_returnTaken⟩

/-- Of two fronts of one text the shorter one begins the longer one. -/
theorem split_of_append_eq {front rest coming further : Bytes}
    (same : front ++ rest = coming ++ further)
    (within : coming.length ≤ front.length) :
    front.take coming.length = coming ∧
      front.drop coming.length ++ rest = further := by
  rw [← List.take_append_drop coming.length front, List.append_assoc] at same
  exact List.append_inj same (List.length_take_of_le within)

/-- A read that begins in the body. -/
theorem readLoop_inBody (sendable : Sendable request)
    (receptive : Receptive protoData request.body.length)
    {locals : ReadLocals}
    {delivered coming rest : Bytes}
    {front middle : List Shown}
    (withBody : WithBody protoData request delivered locals.exchange)
    (split : request.body = delivered ++ coming)
    (some : coming ≠ [])
    (shownHead : ShownHead protoData request front)
    (shownBody : ShownBody request middle delivered)
    (shown : before ++ shownOf locals.state.effects = front ++ middle)
    (noError : locals.state.error = false)
    (readable : locals.scan.len ≤ locals.scan.memory.length)
    (bytes : locals.scan.len ≠ 0)
    (covers : ahead locals.scan ++ rest = coming ++ further)
    (fuel : Nat) :
    ReadGoes protoData request read further before position locals.scan
      rest (readLoop protoData (fuel + 2) locals) := by
  have total := congrArg List.length split
  rw [List.length_append] at total
  have positive := List.length_pos_iff.mpr some
  rcases withBody.counted with ⟨more, inBody, counted⟩ | ⟨all, -⟩
  · generalize amount :
        min locals.scan.len locals.exchange.bodyRemain = n
    rcases
        readTurn_body sendable receptive withBody inBody counted more
          readable bytes noError amount.symm with
      ⟨after, later, event, turn, taken, calm, shownLater, shownPiece⟩
    have within : n ≤ locals.scan.len := by omega
    rcases @ahead_advance locals.scan n within with ⟨dropped, left⟩
    have length := length_ahead readable
    have shownNow :
        before ++ shownOf later.effects = front ++ (middle ++ [event]) := by
      rw [shownLater, ← List.append_assoc, shown, List.append_assoc]
    rw [readLoop, loop_succ, turn]
    by_cases ends : coming.length ≤ locals.scan.len
    · have whole : n = coming.length := by omega
      rcases split_of_append_eq covers (by omega) with ⟨piece, behind⟩
      rw [← whole] at piece behind
      rw [piece, ← split] at taken
      have shownAll := shownBody.snoc shownPiece
      rw [piece, ← split] at shownAll
      have complete : after.state = .complete := by
        rcases taken.counted with ⟨less, -⟩ | ⟨-, complete⟩
        · exact absurd less (Nat.lt_irrefl _)
        · exact complete
      have handled :=
        @readResume_complete protoData
          { exchange := after
            state := later
            scan := locals.scan.advance n }
          complete fuel
      rw [show resume (readTurn protoData) readGiveUp (fuel + 1) _ = _ from
        handled]
      exact
        .inr
          ⟨n, after, within, behind,
            withBody_delivered sendable taken shownHead shownAll shownNow _⟩
    · have all : n = locals.scan.len := by omega
      subst all
      have piece :
          (ahead locals.scan).take locals.scan.len = ahead locals.scan :=
        List.take_of_length_le (Nat.le_of_eq length)
      rcases split_of_append_eq covers.symm (by omega) with
        ⟨begins, behind⟩
      rw [length] at begins behind
      have split' :
          coming = ahead locals.scan ++ coming.drop locals.scan.len := by
        rw [← begins]
        exact (List.take_append_drop ..).symm
      rw [piece] at taken shownPiece
      have splitNow :
          request.body =
            (delivered ++ ahead locals.scan) ++
              coming.drop locals.scan.len := by
        rw [List.append_assoc, ← split']
        exact split
      have someNow : coming.drop locals.scan.len ≠ [] :=
        fun empty => ends (List.drop_eq_nil_iff.mp empty)
      rcases
          @loopTest_inBody protoData request read further before position
            { exchange := after
              state := later
              scan := locals.scan.advance locals.scan.len }
            _ _ rest _ _ taken splitNow someNow shownHead
            (shownBody.snoc shownPiece) shownNow
            (show (locals.scan.advance _).len = 0 by omega) behind with
        ⟨returned, onward⟩
      rw [returned]
      exact .inl ⟨after, rfl, calm, rfl, onward⟩
  · omega

/-- The end of the headers, and what the read has behind it. -/
theorem readResume_headEnds (sendable : Sendable request)
    (receptive : Receptive protoData request.body.length)
    {locals : ReadLocals}
    {rest : Bytes}
    (done : HeadDone request locals.exchange)
    (nothing : before ++ shownOf locals.state.effects = [])
    (noError : locals.state.error = false)
    (readable : locals.scan.len ≤ locals.scan.memory.length)
    (covers : ahead locals.scan ++ rest = request.body ++ further)
    (fuel : Nat) :
    ReadGoes protoData request read further before position locals.scan
      rest
      (readResume protoData (fuel + 2)
        (headersCompleteTurn protoData locals)) := by
  rcases headersComplete_calm sendable receptive done noError with
    ⟨after, later, front, called, withBody, calm, shown, shownHead⟩
  have shownNow : before ++ shownOf later.effects = front ++ [] := by
    rw [shown, ← List.append_assoc, nothing, List.append_nil]
    rfl
  have nobody : ShownBody request [] [] := ⟨[], .nil, rfl⟩
  have outside : after.state = .body ∨ after.state = .complete := by
    rcases withBody.counted with ⟨-, state, -⟩ | ⟨-, state⟩
    · exact .inl state
    · exact .inr state
  have turn :
      headersCompleteTurn protoData locals =
        loopTest protoData
          { locals with exchange := after, state := later } := by
    unfold headersCompleteTurn loopTest
    rw [called]
    rcases outside with state | state
    · dsimp only
      rw [state]
      rfl
    · dsimp only
      rw [state]
      rfl
  rw [turn]
  rcases withBody.counted with ⟨more, -, -⟩ | ⟨nobytes, complete⟩
  · have some : request.body ≠ [] := List.length_pos_iff.mp more
    by_cases left : locals.scan.len ≠ 0
    · have again :
          loopTest protoData
              { locals with exchange := after, state := later } =
            .again { locals with exchange := after, state := later } :=
        if_pos left
      rw [again]
      exact
        @readLoop_inBody protoData request read further before position
          sendable receptive
          { locals with exchange := after, state := later } [] _ rest
          front [] withBody (List.nil_append _).symm some shownHead
          nobody shownNow calm readable left covers fuel
    · have none : locals.scan.len = 0 := not_not.mp left
      have empty : ahead locals.scan = [] := by
        unfold ahead
        rw [none]
        rfl
      rw [empty, List.nil_append] at covers
      rcases
          @loopTest_inBody protoData request read further before position
            { locals with exchange := after, state := later } _ _ rest
            _ _ withBody (List.nil_append _).symm some shownHead nobody
            shownNow none covers.symm with
        ⟨returned, onward⟩
      rw [returned]
      refine .inl ⟨after, ?_, calm, rfl, onward⟩
      rw [none]
      rfl
  · have empty : request.body = [] :=
      List.eq_nil_of_length_eq_zero nobytes.symm
    rw [empty, List.nil_append] at covers
    rw [← empty] at withBody
    have handled :=
      @readResume_complete protoData
        { locals with exchange := after, state := later } complete
        (fuel + 1)
    rw [handled]
    refine
      .inr
        ⟨0, after, Nat.zero_le _, covers,
          withBody_delivered sendable withBody shownHead ?_ shownNow _⟩
    rw [empty]
    exact ⟨[], .nil, rfl⟩

/-- A read that begins in the head. -/
theorem readLoop_inHead
    (sendable : Sendable request)
    (receptive : Receptive protoData request.body.length)
    {start : HttpExchange}
    (done : LineDone request start read)
    {locals : ReadLocals}
    {rest : Bytes}
    (heading :
      Heading protoData.stray request read
        (request.body ++ further) position locals.exchange
        (ahead locals.scan ++ rest))
    (uncut :
      position < request.line.target.extraStart ∨
        request.line.versionStart ≤ position)
    (nothing : before ++ shownOf locals.state.effects = [])
    (noError : locals.state.error = false)
    (readable : locals.scan.len ≤ locals.scan.memory.length)
    (bytes : locals.scan.len ≠ 0)
    {fuel : Nat}
    (enough : locals.scan.len + 3 ≤ fuel) :
    ReadGoes protoData request read further before
      (position + locals.scan.len) locals.scan rest
      (readLoop protoData fuel locals) := by
  cases headTurns_of_heading sendable done readable bytes uncut heading with
  | midHead later there turns few runs =>
      rcases Nat.exists_eq_add_of_le
          (show turns ≤ fuel by omega) with
        ⟨more, rfl⟩
      have onward :
          Underway protoData request read further
            (position + locals.scan.len) [] later rest :=
        .inHead there
      rw [← nothing] at onward
      rw [runs]
      exact
        .inl
          ⟨later, rfl, noError, rfl,
            @Underway.of_returnTaken _ _ _ _ _ _ _ _
              { exchange := later
                state := locals.state
                scan := locals.scan.advance locals.scan.len }
              onward⟩
  | headEnds n within later there turns few runs =>
      rcases Nat.exists_eq_add_of_le
          (show turns + 2 ≤ fuel by omega) with
        ⟨more, rfl⟩
      rcases there.2.ended there.1 with ⟨ended, covers⟩
      rcases @ahead_advance locals.scan n within with ⟨dropped, left⟩
      rw [← dropped] at covers
      have shorter : (locals.scan.advance n).memory.length =
          locals.scan.memory.length - n :=
        List.length_drop
      rw [Nat.add_assoc, Nat.add_comm 2, runs]
      apply ReadGoes.of_advance within
      exact
        @readResume_headEnds protoData request read further before _
          sendable receptive
          { exchange := later
            state := locals.state
            scan := locals.scan.advance n }
          rest (done.headDone sendable ended) nothing noError
          (show (locals.scan.advance n).len ≤
            (locals.scan.advance n).memory.length by omega)
          covers more

/-- A call of `ymo_proto_http_read` while a request is under way. -/
theorem ymoProtoHttpRead_goes
    (sendable : Sendable request)
    (receptive : Receptive protoData request.body.length)
    {start : HttpExchange}
    (done : LineDone request start read)
    {session : Option HttpExchange}
    {scan : Scan}
    (fresh : scan.taken = 0)
    {rest : Bytes}
    (underway :
      Underway protoData request read further position before
        (readyExchange session) (ahead scan ++ rest))
    (uncut :
      position < request.line.target.extraStart ∨
        request.line.versionStart ≤ position)
    (readable : scan.len ≤ scan.memory.length)
    (bytes : scan.len ≠ 0) :
    ReadGoes protoData request read further before
      (position + scan.len) scan rest
      (ymoProtoHttpRead protoData false session scan.memory scan.len) := by
  have same : { memory := scan.memory, len := scan.len, taken := 0 } =
      scan := by
    rw [← fresh]
  unfold ymoProtoHttpRead
  rw [if_neg Bool.false_ne_true, same]
  have exchange :=
    ymoHttpSessionIsReadReady_exchange session
      { error := false, effects := [] }
  have quiet :
      (ymoHttpSessionIsReadReady session
          { error := false, effects := [] }).2.error = false ∧
        shownOf
            (ymoHttpSessionIsReadReady session
              { error := false, effects := [] }).2.effects =
          [] := by
    cases session <;> exact ⟨rfl, rfl⟩
  generalize
    ymoHttpSessionIsReadReady session { error := false, effects := [] } = ready
    at exchange quiet ⊢
  rcases ready with ⟨here, state⟩
  dsimp only at exchange quiet ⊢
  rw [← exchange] at underway
  have enough : scan.len + 3 ≤ readFuel scan.memory := by
    unfold readFuel
    omega
  generalize coming : ahead scan ++ rest = bytes' at underway
  cases underway with
  | inHead heading =>
      rw [← coming] at heading
      exact
        @readLoop_inHead protoData request read further [] position
          sendable receptive start done
          { exchange := here, state := state, scan := scan } rest heading
          uncut quiet.2 quiet.1 readable bytes _ enough
  | @inBody _ delivered coming' front middle withBody split some shownHead
      shownBody =>
      rcases Nat.exists_eq_add_of_le
          (show 2 ≤ readFuel scan.memory by omega) with
        ⟨more, fuel⟩
      rw [fuel, Nat.add_comm 2]
      have shown :
          front ++ middle ++ shownOf state.effects = front ++ middle := by
        rw [quiet.2, List.append_nil]
      exact
        @readLoop_inBody protoData request read further (front ++ middle)
          _ sendable receptive
          { exchange := here, state := state, scan := scan } delivered
          coming' rest front middle withBody split some shownHead
          shownBody shown quiet.1 readable bytes coming more

theorem length_of_fed {stray unused rest : Bytes}
    {final exchange : HttpExchange}
    (fed : Fed stray final unused exchange rest) :
    unused.length ≤ rest.length ∧
      (exchange.state ≠ .headersComplete → unused.length < rest.length) := by
  have some := fed.ended
  rcases fed with ⟨used, onward, -⟩
  have total := congrArg List.length onward.split
  rw [List.length_append] at total
  refine ⟨by omega, fun goesOn => ?_⟩
  have nonempty : used ≠ [] := by
    intro empty
    have whole := onward.fed
    rw [empty] at whole
    have same : plain exchange = final := Option.some.inj whole
    have complete := onward.complete
    rw [← same] at complete
    exact goesOn complete
  have positive := List.length_pos_iff.mpr nonempty
  omega

/-- While a request is under way, more than what follows it is to come. -/
theorem Underway.more {shown : List Shown} {exchange : HttpExchange}
    {rest : Bytes}
    (underway :
      Underway protoData request read further position shown exchange rest) :
    further.length < rest.length := by
  cases underway with
  | inHead heading =>
      cases heading with
      | @inLine todo tail line split behind =>
          have some := List.length_pos_iff.mpr line.way.ahead.ne_nil
          have longer := (length_of_fed behind).1
          rw [List.length_append] at longer
          rw [split, List.length_append]
          omega
      | inBlock goesOn fed =>
          have longer := (length_of_fed fed).2 goesOn
          rw [List.length_append] at longer
          omega
  | inBody withBody split some shownHead shownBody =>
      have positive := List.length_pos_iff.mpr some
      rw [List.length_append]
      omega

/-- The bytes of some reads. -/
def received (reads : List Read) : Bytes :=
  reads.flatMap fun read => read.memory.take read.len

/-- Every read has bytes. -/
def Readable (reads : List Read) : Prop :=
  ∀ read ∈ reads, read.len ≠ 0 ∧ read.len ≤ read.memory.length

/-- No read begins in the query or the fragment of the line. -/
def Uncut (line : RequestLine) (position : Nat) (reads : List Read) : Prop :=
  ∀ front, front <+: reads →
    position + (received front).length < line.target.extraStart ∨
      line.versionStart ≤ position + (received front).length

/-- The calls for the reads, the last of which has the end of the request. -/
structure Reading
    (protoData : HttpProtoData)
    (request : SentRequest)
    (session : Option HttpExchange)
    (before : List Shown)
    (reads : List Read)
    (last : Read)
    (taken : Nat)
    (exchange : HttpExchange) : Prop where
  outcomes :
    (readAll protoData false session (reads ++ [last])).map
        (fun result => result.outcome) =
      reads.map (fun read => ReadOutcome.took read.len) ++
        [handledOutcome taken (protoData.httpCb (viewOf exchange)).status]
  delivered :
    Delivered protoData request
      (before ++ shownBy protoData session (reads ++ [last])) exchange

theorem readAll_singleton (protoData : HttpProtoData) (error : Bool)
    (session : Option HttpExchange)
    (read : Read) :
    readAll protoData error session [read] =
      [ymoProtoHttpRead protoData error session read.memory read.len] := by
  unfold readAll
  dsimp only
  split <;> rfl

/-- The last call handles the request. -/
theorem reading_last {session : Option HttpExchange} {last : Read}
    {taken : Nat}
    {exchange : HttpExchange}
    (outcome :
      (ymoProtoHttpRead protoData false session last.memory
          last.len).outcome =
        handledOutcome taken (protoData.httpCb (viewOf exchange)).status)
    (delivered :
      Delivered protoData request
        (before ++
          shownOf
            (ymoProtoHttpRead protoData false session last.memory
              last.len).state.effects)
        exchange) :
    Reading protoData request session before [] last taken exchange := by
  refine ⟨?_, ?_⟩
  · rw [List.nil_append, readAll_singleton]
    exact congrArg (fun outcome => [outcome]) outcome
  · unfold shownBy
    rw [List.nil_append, readAll_singleton, List.flatMap_singleton]
    exact delivered

/-- A call that takes its read is followed by the others. -/
theorem Reading.cons {session : Option HttpExchange} {first last : Read}
    {reads : List Read}
    {taken : Nat}
    {later exchange : HttpExchange}
    (outcome :
      (ymoProtoHttpRead protoData false session first.memory
          first.len).outcome =
        .took first.len)
    (calm :
      (ymoProtoHttpRead protoData false session first.memory
          first.len).state.error =
        false)
    (kept :
      (ymoProtoHttpRead protoData false session first.memory
          first.len).exchange =
        some later)
    (reading :
      Reading protoData request (some later)
        (before ++
          shownOf
            (ymoProtoHttpRead protoData false session first.memory
              first.len).state.effects)
        reads last taken exchange) :
    Reading protoData request session before (first :: reads) last taken
      exchange := by
  have next :
      readAll protoData false session (first :: reads ++ [last]) =
        ymoProtoHttpRead protoData false session first.memory first.len ::
          readAll protoData false (some later) (reads ++ [last]) := by
    rw [List.cons_append, readAll, outcome, calm, kept]
  have delivered := reading.delivered
  refine ⟨?_, ?_⟩
  · rw [next, List.map_cons, reading.outcomes, outcome]
    rfl
  · unfold shownBy at delivered ⊢
    rw [next, List.flatMap_cons, ← List.append_assoc]
    exact delivered

theorem length_received_snoc {reads : List Read} {last : Read}
    (readable : Readable (reads ++ [last])) :
    (received (reads ++ [last])).length =
      (received reads).length + last.len := by
  have inside := readable last (List.mem_append_right _ List.mem_cons_self)
  unfold received
  rw [List.flatMap_append, List.flatMap_singleton, List.length_append,
    List.length_take_of_le inside.2]

theorem reading_of_underway
    (sendable : Sendable request)
    (receptive : Receptive protoData request.body.length)
    {start : HttpExchange}
    (done : LineDone request start read)
    {reads : List Read}
    {last : Read}
    {session : Option HttpExchange}
    (readable : Readable (reads ++ [last]))
    (underway :
      Underway protoData request read further position before
        (readyExchange session) (received (reads ++ [last])))
    (uncut : Uncut request.line position reads)
    (ends : further.length < last.len) :
    ∃ exchange,
      Reading protoData request session before reads last
        (last.len - further.length) exchange := by
  induction reads generalizing session position before with
  | nil =>
      rcases readable last List.mem_cons_self with ⟨bytes, inside⟩
      have goes :=
        @ymoProtoHttpRead_goes protoData request read further before
          position sendable receptive start done session
          { memory := last.memory, len := last.len, taken := 0 } rfl []
          underway (uncut [] (List.prefix_refl _)) inside bytes
      rcases goes with ⟨later, -, -, -, onward⟩ |
        ⟨n, exchange, within, behind, outcome, delivered⟩
      · exact absurd onward.more (Nat.not_lt_zero _)
      · have left := congrArg List.length behind
        rw [List.append_nil, List.length_drop,
          length_ahead (show last.len ≤ last.memory.length from inside)]
          at left
        dsimp only at left within outcome
        have taken : last.len - further.length = 0 + n := by omega
        rw [taken]
        exact ⟨exchange, reading_last outcome delivered⟩
  | cons first reads ih =>
      rcases readable first List.mem_cons_self with ⟨bytes, inside⟩
      have rest : Readable (reads ++ [last]) :=
        fun read among => readable read (List.mem_cons_of_mem _ among)
      have length : (first.memory.take first.len).length = first.len :=
        List.length_take_of_le inside
      have goes :=
        @ymoProtoHttpRead_goes protoData request read further before
          position sendable receptive start done session
          { memory := first.memory, len := first.len, taken := 0 } rfl
          (received (reads ++ [last])) underway
          (uncut [] List.nil_prefix) inside bytes
      rcases goes with ⟨later, outcome, calm, kept, onward⟩ |
        ⟨n, exchange, within, behind, -, -⟩
      · dsimp only at outcome calm kept onward
        rw [Nat.zero_add] at outcome
        have uncutLater : Uncut request.line (position + first.len) reads := by
          intro front among
          have here :=
            uncut (first :: front) ((List.prefix_cons_inj first).mpr among)
          unfold received at here
          rw [List.flatMap_cons, List.length_append, length,
            ← Nat.add_assoc] at here
          exact here
        rcases
            @ih (before ++ shownOf _)
              (position + first.len) (some later) rest onward
              uncutLater with
          ⟨exchange, reading⟩
        exact ⟨exchange, reading.cons outcome calm kept⟩
      · exfalso
        have size := congrArg List.length behind
        rw [List.length_append, length_received_snoc rest] at size
        omega

end Reads

/-! ## Delivery -/

theorem post_token : ∀ c ∈ bytes "POST", isHttpMethodToken c = true := by
  decide

/-- `POST / HTTP/1.1`. -/
def postLine : RequestLine :=
  { getLine with
    target :=
      { getLine.target with
        method := bytes "POST"
        method_token := post_token } }

theorem length_tokens :
    ∀ c ∈ bytes "Content-Length", isHttpHdrFieldToken c = true := by
  decide

theorem two_noReturn : cr ∉ bytes "2" := by
  decide

theorem two_opens : (bytes "2").head? ≠ some space := by
  decide

/-- `Content-Length: 2`. -/
def lengthSent : SentLine where
  line :=
    { name := bytes "Content-Length"
      value := bytes "2"
      tokens := length_tokens
      noReturn := two_noReturn }
  spaces := 1
  opens := two_opens

/-- A request with a body of two bytes. -/
def okRequest : SentRequest where
  line := postLine
  lines := [lengthSent]
  body := bytes "ok"

/-- An application that buffers bodies. -/
def bufferingApplication : HttpProtoData where
  headerCb := none
  bodyCb := none
  httpCb _ := { calls := [], status := .okay }
  upgradeHandler := []
  stray := []

theorem sendable_okRequest : Sendable okRequest where
  noZero := by decide
  room := by decide
  announced := by decide
  whole := by decide
  stays := by decide

theorem receptive_bufferingApplication :
    Receptive bufferingApplication okRequest.body.length where
  header _ some := by cases some
  body _ some := by cases some
  buffer _ := by decide

end Yimmo.Http.RequestDelivery
