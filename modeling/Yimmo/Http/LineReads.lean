import Yimmo.Http.HeaderBlock
import Yimmo.Http.ReadProgress
import Yimmo.Http.RequestLines

/-!
# A request line that arrives in pieces

The parser of the request line is the same loop in every call: a call that has taken
its read leaves the exchange in which the loop stands, and the next call goes on from
there.  So a line leads to one exchange, in whatever pieces it arrives, as long as
each call is made: in a query or a fragment no parser is called.

What the line leaves alone is kept here as well, with the space it takes.
-/

namespace Yimmo.Http.LineReads

open Yimmo.Core.StatusCode
open Yimmo.Lib.ByteMemory
open Yimmo.Http.Exchange
open Yimmo.Http.Parse
open Yimmo.Http.ReceiveSpace
open Yimmo.Http.ReadProgress
open Yimmo.Http.HeaderBlock
open Yimmo.Http.RequestLines

variable
    {last : HttpExchange}
    {count taken : Nat}
    {buffer : Bytes}
    {position : Nat}

/-! ## One loop -/

section Loop

variable
    {exchange : HttpExchange}
    {cursor : Cursor}

/-- A parser that succeeds has space left, and saves its cursor. -/
theorem parseDone_took
    (done : parseDone exchange cursor count = .took taken last) :
    cursor.remain ≠ 0 ∧ taken = count ∧ last = exchange.save cursor := by
  unfold parseDone at done
  split at done
  · next left =>
      cases done
      exact ⟨left, rfl, rfl⟩
  · cases done

/-- Behind the end of a line the loop takes nothing. -/
theorem requestLineLoop_crlf (state : exchange.state = .crlf) (count : Nat)
    (buffer : Bytes) :
    requestLineLoop exchange cursor count buffer =
      parseDone exchange cursor count := by
  cases buffer with
  | nil => rfl
  | cons c rest =>
      have stop : requestLineByte exchange cursor c = .stop := by
        unfold requestLineByte
        rw [state]
      rw [requestLineLoop, stop]

/-- A loop that has reached the end of the line ignores what follows. -/
theorem requestLineLoop_ended {front : Bytes}
    (took : requestLineLoop exchange cursor count front = .took taken last)
    (ended : last.state = .crlf)
    (back : Bytes) :
    requestLineLoop exchange cursor count (front ++ back) =
      .took taken last := by
  induction front generalizing exchange cursor count with
  | nil =>
      have done : parseDone exchange cursor count = .took taken last := took
      rcases parseDone_took done with ⟨-, -, rfl⟩
      have state : exchange.state = .crlf := ended
      rw [List.nil_append, requestLineLoop_crlf state]
      exact done
  | cons c front ih =>
      rw [List.cons_append]
      unfold requestLineLoop at took ⊢
      cases step : requestLineByte exchange cursor c with
      | more later moved =>
          rw [step] at took
          dsimp only at took ⊢
          by_cases full : moved.remain = 0
          · rw [if_pos full] at took ⊢
            exact took
          · rw [if_neg full] at took ⊢
            exact ih took
      | line later moved =>
          rw [step] at took
          exact took
      | failed errno later =>
          rw [step] at took
          exact took
      | stop =>
          rw [step] at took
          exact took

/-- The same step, from an exchange that has another copy of the cursor. -/
inductive SavedStep (copy : Cursor) : LineStep → LineStep → Prop where
  | more (later : HttpExchange) (moved : Cursor) :
      SavedStep copy (.more later moved) (.more (later.save copy) moved)
  | line (later : HttpExchange) (moved : Cursor) :
      SavedStep copy (.line later moved) (.line (later.save copy) moved)
  | failed (errno : Errno) (left right : HttpExchange) :
      SavedStep copy (.failed errno left) (.failed errno right)
  | stop : SavedStep copy .stop .stop

theorem checkRequest_save (copy : Cursor) (versionLen : Nat) :
    checkRequest (exchange.save copy) cursor versionLen =
      (checkRequest exchange cursor versionLen).map (·.save copy) := by
  unfold checkRequest
  dsimp only
  split
  · next length =>
      rw [show (exchange.save copy).request = exchange.request from rfl]
      split
      · rfl
      · split
        · rfl
        · rfl
  · rfl

theorem requestLineByte_save (copy : Cursor) (c : UInt8) :
    SavedStep copy (requestLineByte exchange cursor c)
      (requestLineByte (exchange.save copy) cursor c) := by
  have same : (exchange.save copy).state = exchange.state := rfl
  have request : (exchange.save copy).request = exchange.request := rfl
  unfold requestLineByte
  rw [same, request]
  cases exchange.state with
  | requestMethod =>
      dsimp only
      split
      · exact .more _ _
      · split
        · exact .more _ _
        · exact .failed _ _ _
  | requestUriPath =>
      dsimp only
      split
      · exact .more _ _
      · split
        · exact .more _ _
        · split
          · exact .more _ _
          · exact .more _ _
  | requestQuery =>
      dsimp only
      split
      · exact .more _ _
      · split
        · exact .more _ _
        · exact .more _ _
  | requestFragment =>
      dsimp only
      split
      · exact .more _ _
      · exact .more _ _
  | requestVersion =>
      dsimp only
      split
      · exact .more _ _
      · rw [checkRequest_save]
        cases checkRequest exchange cursor
            (cursor.recvCurrent - exchange.request.version.getD 0) with
        | none => exact .failed _ _ _
        | some checked => exact .line _ _
  | _ => exact .stop
/-- The loop reads the cursor, not the copy of it in the exchange. -/
theorem requestLineLoop_save
    (took : requestLineLoop exchange cursor count buffer = .took taken last)
    (copy : Cursor) :
    requestLineLoop (exchange.save copy) cursor count buffer =
      .took taken last := by
  have done {exchange : HttpExchange} {cursor : Cursor} {count : Nat}
      (done : parseDone exchange cursor count = .took taken last) :
      parseDone (exchange.save copy) cursor count = .took taken last := by
    rcases parseDone_took done with ⟨left, rfl, rfl⟩
    exact if_pos left
  induction buffer generalizing exchange cursor count with
  | nil => exact done took
  | cons c buffer ih =>
      have saved := @requestLineByte_save exchange cursor copy c
      rw [requestLineLoop] at took ⊢
      generalize requestLineByte exchange cursor c = step at took saved
      generalize requestLineByte (exchange.save copy) cursor c = step'
        at saved ⊢
      cases saved with
      | more later moved =>
          dsimp only at took ⊢
          by_cases full : moved.remain = 0
          · rw [if_pos full] at took ⊢
            exact done took
          · rw [if_neg full] at took ⊢
            exact ih took
      | line later moved => exact done took
      | failed errno left right => cases took
      | stop => exact done took

/-- The count is only added to. -/
theorem requestLineLoop_shift {count more : Nat}
    (took :
      requestLineLoop exchange cursor count buffer = .took (count + more) last)
    (other : Nat) :
    requestLineLoop exchange cursor other buffer =
      .took (other + more) last := by
  have done {exchange : HttpExchange} {cursor : Cursor} {before after : Nat}
      (done :
        parseDone exchange cursor (count + before) =
          .took (count + after) last) :
      parseDone exchange cursor (other + before) =
        .took (other + after) last := by
    rcases parseDone_took done with ⟨left, same, rfl⟩
    rw [Nat.add_left_cancel same]
    exact if_pos left
  suffices general :
      ∀ before,
        requestLineLoop exchange cursor (count + before) buffer =
            .took (count + more) last →
          requestLineLoop exchange cursor (other + before) buffer =
            .took (other + more) last from
    general 0 took
  clear took
  induction buffer generalizing exchange cursor with
  | nil => exact fun before took => done took
  | cons c buffer ih =>
      intro before took
      unfold requestLineLoop at took ⊢
      cases step : requestLineByte exchange cursor c with
      | more later moved =>
          rw [step] at took
          dsimp only at took ⊢
          by_cases full : moved.remain = 0
          · rw [if_pos full, Nat.add_assoc] at took ⊢
            exact done took
          · rw [if_neg full, Nat.add_assoc] at took ⊢
            exact ih (before + 1) took
      | line later moved =>
          rw [step] at took
          dsimp only at took ⊢
          rw [Nat.add_assoc] at took ⊢
          exact done took
      | failed errno later =>
          rw [step] at took
          cases took
      | stop =>
          rw [step] at took
          exact done took

/-- A loop that has taken its buffer without an end of the line goes on with what
follows. -/
theorem requestLineLoop_goesOn {count taken total : Nat}
    {front back : Bytes}
    {later last : HttpExchange}
    (line : lineState exchange.state = true)
    (took : requestLineLoop exchange cursor count front = .took taken later)
    (midLine : later.state ≠ .crlf)
    (whole :
      requestLineLoop exchange cursor count (front ++ back) =
        .took total last) :
    taken = count + front.length ∧
      requestLineLoop later later.cursor taken back = .took total last := by
  induction front generalizing exchange cursor count with
  | nil =>
      rcases parseDone_took
          (show parseDone exchange cursor count = _ from took) with
        ⟨-, rfl, rfl⟩
      exact ⟨rfl, requestLineLoop_save whole cursor⟩
  | cons c front ih =>
      have stepState := requestLineByte_state line cursor c
      rw [List.cons_append] at whole
      unfold requestLineLoop at took whole
      cases step : requestLineByte exchange cursor c with
      | more next moved =>
          rw [step] at took whole stepState
          dsimp only at took whole
          by_cases full : moved.remain = 0
          · rw [if_pos full] at took
            exact absurd full (parseDone_took took).1
          · rw [if_neg full] at took whole
            rcases ih stepState took whole with
              ⟨all, onward⟩
            refine ⟨?_, onward⟩
            rw [all, List.length_cons]
            omega
      | line next moved =>
          rw [step] at took stepState
          rcases parseDone_took took with ⟨-, -, rfl⟩
          exact absurd stepState.1 midLine
      | failed errno next =>
          rw [step] at took
          cases took
      | stop =>
          rw [step] at stepState
          exact stepState.elim

end Loop

/-! ## What a line leaves alone -/

/-- The exchange without what its request line sets. -/
def lineless (exchange : HttpExchange) : HttpExchange :=
  { exchange with
    request :=
      { exchange.request with
        uri := none, version := none, query := none, fragment := none
        flags := HttpFlags.none }
    state := .connected, nextState := .connected
    recvCurrent := 0, remain := 0, recvBuf := fun _ => 0
    high := 0, wrapped := false }

/-- A string of the request line begins there. -/
def Begins (request : HttpRequest) (pointer : Nat) : Prop :=
  request.method = some pointer ∨ request.uri = some pointer ∨
    request.version = some pointer ∨ request.query = some pointer ∨
      request.fragment = some pointer

/-- What a byte of the line keeps, and the space it takes. -/
inductive StepKeeps (exchange : HttpExchange) (cursor : Cursor) :
    LineStep → Prop where
  | more
      {later : HttpExchange}
      (byte : UInt8)
      (alone : lineless later = lineless exchange)
      (begins :
        ∀ pointer, Begins later.request pointer →
          Begins exchange.request pointer ∨ pointer = cursor.recvCurrent + 1) :
      StepKeeps exchange cursor (.more later (cursor.put byte).decr)
  | line
      {later : HttpExchange}
      (alone : lineless later = lineless exchange)
      (begins : Begins later.request = Begins exchange.request) :
      StepKeeps exchange cursor (.line later (cursor.put 0))
  | failed (errno : Errno) (later : HttpExchange) :
      StepKeeps exchange cursor (.failed errno later)
  | stop : StepKeeps exchange cursor .stop

theorem lineless_checkRequest {exchange checked : HttpExchange}
    {cursor : Cursor}
    {versionLen : Nat}
    (accepted : checkRequest exchange cursor versionLen = some checked) :
    lineless checked = lineless exchange ∧
      Begins checked.request = Begins exchange.request := by
  unfold checkRequest at accepted
  dsimp only at accepted
  split at accepted
  · split at accepted
    · cases accepted
      exact ⟨rfl, rfl⟩
    · split at accepted
      · cases accepted
        exact ⟨rfl, rfl⟩
      · cases accepted
  · cases accepted

theorem requestLineByte_keeps (exchange : HttpExchange) (cursor : Cursor)
    (c : UInt8) :
    StepKeeps exchange cursor (requestLineByte exchange cursor c) := by
  have same :
      StepKeeps exchange cursor (statusItemContinue exchange cursor c) :=
    .more c rfl fun pointer begins => .inl begins
  have next {request : HttpRequest} (state : HttpState)
      (alone :
        lineless { exchange with request := request, state := state } =
          lineless exchange)
      (begins :
        ∀ pointer, Begins request pointer →
          Begins exchange.request pointer ∨ pointer = cursor.recvCurrent + 1) :
      StepKeeps exchange cursor
        (statusItemNext exchange cursor request state) :=
    .more 0 alone begins
  unfold requestLineByte
  cases exchange.state with
  | requestMethod =>
      dsimp only
      split
      · exact same
      · split
        · exact next _ rfl (by grind [Begins])
        · exact .failed _ _
  | requestUriPath =>
      dsimp only
      split
      · exact next _ rfl (by grind [Begins])
      · split
        · exact next _ rfl (by grind [Begins])
        · split
          · exact next _ rfl (by grind [Begins])
          · exact same
  | requestQuery =>
      dsimp only
      split
      · exact next _ rfl (by grind [Begins])
      · split
        · exact next _ rfl (by grind [Begins])
        · exact same
  | requestFragment =>
      dsimp only
      split
      · exact same
      · exact next _ rfl (by grind [Begins])
  | requestVersion =>
      dsimp only
      split
      · exact same
      · split
        · next accepted =>
            rcases lineless_checkRequest accepted with ⟨alone, begins⟩
            exact .line alone begins
        · exact .failed _ _
  | _ => exact .stop

/-- What a line that was read keeps, and the space it took. -/
structure LineKept
    (exchange : HttpExchange)
    (cursor : Cursor)
    (taken : Nat)
    (last : HttpExchange) : Prop where
  alone : lineless last = lineless exchange
  current : last.recvCurrent = cursor.recvCurrent + taken
  remain : last.remain + taken = cursor.remain + 1
  terminated : last.recvBuf (last.recvCurrent - 1) = 0
  inside : ∀ pointer, Begins last.request pointer → pointer < last.recvCurrent

/-- A byte of the line that is put in front. -/
theorem LineKept.put {exchange later last : HttpExchange} {cursor : Cursor}
    {byte : UInt8}
    {more : Nat}
    (left : cursor.remain ≠ 0)
    (alone : lineless later = lineless exchange)
    (kept : LineKept later (cursor.put byte).decr more last) :
    LineKept exchange cursor (1 + more) last := by
  have current : (cursor.put byte).decr.recvCurrent = cursor.recvCurrent + 1 :=
    Cursor.recvCurrent_decr _
  have less : (cursor.put byte).decr.remain = cursor.remain - 1 :=
    @remain_decr (cursor.put byte) left
  have keptCurrent := kept.current
  have keptRemain := kept.remain
  refine ⟨kept.alone.trans alone, ?_, ?_, kept.terminated, kept.inside⟩
  · omega
  · omega

theorem requestLineLoop_kept {exchange : HttpExchange} {cursor : Cursor}
    (line : lineState exchange.state = true)
    (left : cursor.remain ≠ 0)
    (inside :
      ∀ pointer, Begins exchange.request pointer →
        pointer ≤ cursor.recvCurrent)
    (took :
      requestLineLoop exchange cursor count buffer =
        .took (count + taken) last)
    (ended : last.state = .crlf) :
    LineKept exchange cursor taken last := by
  induction buffer generalizing exchange cursor count taken with
  | nil =>
      rcases parseDone_took
          (show parseDone exchange cursor count = _ from took) with
        ⟨-, -, rfl⟩
      have state : exchange.state = .crlf := ended
      rw [state] at line
      cases line
  | cons c buffer ih =>
      have stepState := requestLineByte_state line cursor c
      have keeps := requestLineByte_keeps exchange cursor c
      rw [requestLineLoop] at took
      generalize requestLineByte exchange cursor c = step
        at took stepState keeps
      cases keeps with
      | @more later byte alone begins =>
          dsimp only at took
          by_cases full : (cursor.put byte).decr.remain = 0
          · rw [if_pos full] at took
            exact absurd full (parseDone_took took).1
          · rw [if_neg full] at took
            have bounds :=
              requestLineLoop_end stepState (cursor.put byte).decr
                (count + 1) buffer
            rw [took] at bounds
            rcases Nat.exists_eq_add_of_le bounds.2.1.1 with
              ⟨more, equal⟩
            have one : taken = 1 + more := by omega
            subst one
            have insideLater :
                ∀ pointer, Begins later.request pointer →
                  pointer ≤ (cursor.put byte).decr.recvCurrent := by
              intro pointer begun
              rw [Cursor.recvCurrent_decr]
              rcases begins pointer begun with before | here
              · exact Nat.le_succ_of_le (inside pointer before)
              · exact Nat.le_of_eq here
            rw [← Nat.add_assoc] at took
            exact (ih stepState full insideLater took).put left alone
      | @line later alone begins =>
          rcases parseDone_took took with ⟨-, all, rfl⟩
          have one : taken = 1 := Nat.add_left_cancel all
          subst one
          refine ⟨alone, rfl, rfl, ?_, ?_⟩
          · exact store_same _ _ _
          · intro pointer begun
            rw [show Begins (later.save (cursor.put 0)).request =
              Begins exchange.request from begins] at begun
            exact Nat.lt_succ_of_le (inside pointer begun)
      | failed errno later => cases took
      | stop => exact stepState.elim
/-- As long as the line goes on, what is stored is what is counted. -/
theorem requestLineLoop_sum {exchange : HttpExchange} {cursor : Cursor}
    (line : lineState exchange.state = true)
    (left : cursor.remain ≠ 0)
    (took : requestLineLoop exchange cursor count buffer = .took taken last)
    (midLine : last.state ≠ .crlf) :
    last.recvCurrent + last.remain = cursor.recvCurrent + cursor.remain := by
  induction buffer generalizing exchange cursor count with
  | nil =>
      rcases parseDone_took
          (show parseDone exchange cursor count = _ from took) with
        ⟨-, -, rfl⟩
      rfl
  | cons c buffer ih =>
      have stepState := requestLineByte_state line cursor c
      have keeps := requestLineByte_keeps exchange cursor c
      rw [requestLineLoop] at took
      generalize requestLineByte exchange cursor c = step
        at took stepState keeps
      cases keeps with
      | @more later byte alone begins =>
          dsimp only at took
          by_cases full : (cursor.put byte).decr.remain = 0
          · rw [if_pos full] at took
            exact absurd full (parseDone_took took).1
          · rw [if_neg full] at took
            rw [ih stepState full took,
              Cursor.recvCurrent_decr, @remain_decr (cursor.put byte) left]
            show cursor.recvCurrent + 1 + (cursor.remain - 1) = _
            omega
      | @line later alone begins =>
          rcases parseDone_took took with ⟨-, -, rfl⟩
          exact absurd stepState.1 midLine
      | failed errno later => cases took
      | stop => exact stepState.elim

/-! ## Calls -/

/-- The exchange is in the line: the bytes that are still to come lead to its end. -/
structure InLine
    (line : RequestLine)
    (read : HttpExchange)
    (position : Nat)
    (todo : Bytes)
    (exchange : HttpExchange) : Prop where
  way : OnTheWay line position todo (asParsed exchange) exchange.cursor
  leads :
    requestLineLoop (asParsed exchange) exchange.cursor 0 todo =
      .took todo.length read

theorem OnTheWay.lineState {line : RequestLine} {todo : Bytes}
    {exchange : HttpExchange}
    {cursor : Cursor}
    (way : OnTheWay line position todo exchange cursor) :
    lineState exchange.state = true := by
  have ahead := way.ahead
  generalize exchange.state = state at ahead ⊢
  cases ahead <;> rfl

theorem InLine.notEnded {line : RequestLine} {read exchange : HttpExchange}
    {todo : Bytes}
    (inLine : InLine line read position todo exchange) :
    exchange.state ≠ .headersComplete ∧ exchange.state ≠ .complete := by
  have lineHere := OnTheWay.lineState inLine.way
  unfold asParsed at lineHere
  constructor <;> intro state <;> rw [state] at lineHere <;>
    rw [if_neg HttpState.noConfusion, state] at lineHere <;>
    cases lineHere

/-- A call in the line takes its read, or takes the line to its end. -/
theorem InLine.call {line : RequestLine} {read exchange : HttpExchange}
    {todo buffer beyond later : Bytes}
    (inLine : InLine line read position todo exchange)
    (fits : line.bytes.length < ymoHttpRecvBufSize)
    (ended : read.state = .crlf)
    (uncut : position < line.target.extraStart ∨ line.versionStart ≤ position)
    (nonempty : buffer ≠ [])
    (covers : buffer ++ beyond = todo ++ later)
    (stray : Bytes) :
    ∃ n next,
      parseHead stray exchange buffer = some (.took n next) ∧
        0 < n ∧ n ≤ buffer.length ∧
          ((n = todo.length ∧ next = read) ∨
            (n = buffer.length ∧ n < todo.length ∧
              InLine line read (position + n) (todo.drop n) next)) := by
  rw [parseHead_asParsed (inLine.way.called uncut) stray buffer,
    ymoParseHttpRequestLine, cursor_asParsed]
  have onTheWay := inLine.way
  have leads := inLine.leads
  have ahead := List.length_pos_iff.mpr onTheWay.ahead.ne_nil
  have lineHere := OnTheWay.lineState onTheWay
  by_cases long : todo.length ≤ buffer.length
  · have front : todo <+: buffer :=
      List.prefix_of_prefix_length_le (covers ▸ List.prefix_append _ _)
        (List.prefix_append buffer beyond) long
    rcases front with ⟨back, rfl⟩
    rw [requestLineLoop_ended leads ended]
    exact ⟨_, _, rfl, ahead, long, .inl ⟨rfl, rfl⟩⟩
  · have short : buffer.length < todo.length := Nat.lt_of_not_le long
    have front : buffer <+: todo :=
      List.prefix_of_prefix_length_le (List.prefix_append buffer beyond)
        (covers ▸ List.prefix_append _ _) (Nat.le_of_lt short)
    rcases front with ⟨back, rfl⟩
    have positive := List.length_pos_iff.mpr nonempty
    have run := requestLineLoop_ahead fits onTheWay covers 0
    have bounds := requestLineLoop_end lineHere exchange.cursor 0 buffer
    cases outcome :
        requestLineLoop (asParsed exchange) exchange.cursor 0 buffer with
    | took taken next =>
        rw [outcome] at run bounds
        have within : taken ≤ 0 + buffer.length := bounds.1
        by_cases midLine : next.state = .crlf
        · have whole := requestLineLoop_ended outcome midLine back
          rw [leads, Parsed.took.injEq] at whole
          omega
        · rcases requestLineLoop_goesOn lineHere outcome midLine leads with
            ⟨all, onward⟩
          have counted := onTheWay.counted
          have total := counted.remain
          have current := counted.current
          have place := onTheWay.position
          have spare : exchange.cursor.remain ≠ 0 := by omega
          have sum := requestLineLoop_sum lineHere spare outcome midLine
          rw [Nat.zero_add] at all within run
          rcases run with full | ⟨-, way⟩
          · omega
          · refine
              ⟨taken, next, rfl, by omega, within, .inr ⟨all, by omega, ?_⟩⟩
            have parsed := way.asParsed
            subst all
            constructor
            · rw [parsed]
              exact way
            · rw [parsed, List.drop_left' rfl]
              rw [List.length_append] at onward
              have shifted := requestLineLoop_shift onward 0
              rw [Nat.zero_add] at shifted
              exact shifted
    | failed errno next =>
        rw [outcome] at run
        exact run.elim
    | fault next =>
        rw [outcome] at run
        exact run.elim

/-- A line that fits is ahead of a recycled exchange. -/
theorem inLine_start (exchange : HttpExchange) {line : RequestLine}
    (noZero : 0 ∉ line.bytes)
    (fits : line.bytes.length < ymoHttpRecvBufSize) :
    ∃ read,
      LineRead line read ∧
        LineKept (lineStart exchange) (lineStart exchange).cursor
            (line.bytes.length + 1) read ∧
          InLine line read 0 (line.bytes ++ [cr])
            (ymoHttpExchangeReset exchange) := by
  have parsed :
      asParsed (ymoHttpExchangeReset exchange) = lineStart exchange :=
    if_pos rfl
  rcases requestLine_read exchange noZero fits [] with
    ⟨read, took, lineRead⟩
  refine ⟨read, lineRead, ?_, ?_, ?_⟩
  · have spare : (lineStart exchange).cursor.remain ≠ 0 :=
      Nat.succ_ne_zero 1023
    have inside :
        ∀ pointer, Begins (lineStart exchange).request pointer →
          pointer ≤ (lineStart exchange).cursor.recvCurrent := by
      rintro pointer (method | uri | version | query | fragment)
      · cases method
        exact Nat.le_refl 0
      · cases uri
      · cases version
      · cases query
      · cases fragment
    apply requestLineLoop_kept rfl spare inside _ lineRead.state
    · exact 0
    · exact line.bytes ++ [cr]
    · rw [Nat.zero_add]
      exact took
  · constructor
    · rw [parsed]
      have whole :
          line.bytes ++ [cr] =
            line.target.method ++ space ::
              (line.target.path ++
                (line.target.extra ++ space :: (line.version ++ [cr]))) := by
        simp only [RequestLine.bytes, Target.bytes, List.append_assoc,
          List.cons_append]
      rw [whole]
      exact LineAhead.method line.target.method_token
    · exact (betweenReads_reset exchange).mid.counted
    · rw [List.length_append, List.length_singleton]
      exact Nat.zero_add _
  · rw [parsed, List.length_append, List.length_singleton]
    exact took

end Yimmo.Http.LineReads
