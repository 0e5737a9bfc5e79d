import Yimmo.Http.HeaderOrder
import Yimmo.Http.ReceiveSpace

/-!
# A header block is read the same however it is cut

The parsers of the head take what a read has and go on with the next one.  Here they
are compared with a machine that takes one byte at a time and knows nothing of reads
and of the space left in the receive buffer: as long as there is space, a call of a
parser takes some bytes and leaves what the machine leaves.

The space is what makes the difference: a byte of a value costs one byte of it when it
ends a read, and two otherwise.  `charge` is what a block costs at most.
-/

namespace Yimmo.Http.HeaderBlock

open Yimmo.Lib.ByteMemory
open Yimmo.Lib.TurnLoop
open Yimmo.Http.Headers
open Yimmo.Http.Exchange
open Yimmo.Http.Parse
open Yimmo.Http.HeaderLines
open Yimmo.Http.HeaderOrder
open Yimmo.Http.ReceiveSpace

variable
    {exchange : HttpExchange}
    {c : UInt8}
    {rest : Bytes}
    {locals : HeadersState}

/-! ## One byte at a time -/

/-- The exchange without the account of its buffer. -/
def plain (exchange : HttpExchange) : HttpExchange :=
  { exchange with remain := 0, high := 0, wrapped := false }

/-- A byte is stored at the cursor. -/
def stored (exchange : HttpExchange) (c : UInt8) : HttpExchange :=
  { exchange with
    recvBuf := store exchange.recvBuf exchange.recvCurrent c
    recvCurrent := exchange.recvCurrent + 1 }

/-- A byte of a name, or behind one. -/
def nameByte (exchange : HttpExchange) (c : UInt8) : Option HttpExchange :=
  if c ≠ colon then
    if c ≠ cr then
      if isHttpHdrFieldToken c then
        some { stored exchange c with hId := ymoHdrHashCh exchange.hId c }
      else none
    else some (parserSawCr exchange .headersComplete)
  else some { stored exchange 0 with state := .headerValueLeadingSpace }

/-- A byte of a value, or behind one. -/
def valueByte (stray : Bytes) (exchange : HttpExchange) (c : UInt8) :
    HttpExchange :=
  if c ≠ cr then stored exchange c
  else
    parserSawCr
      (httpHeaderGotValue stray (stored exchange 0)
        (stored exchange 0).cursor)
      .headerName

/-- A value begins. -/
def openValue (exchange : HttpExchange) : HttpExchange :=
  { exchange with
    hdrValue := some exchange.recvCurrent
    state := .headerValue }

/-- The end of a line. -/
def lineFeed (exchange : HttpExchange) : Option HttpExchange :=
  if exchange.nextState = .headerName then
    some
      { exchange with
        state := .headerName
        hdrName := some exchange.recvCurrent }
  else if exchange.nextState = .headersComplete then
    some { exchange with state := .headersComplete }
  else none

/-- What a byte of a header block does. -/
def headByte (stray : Bytes) (exchange : HttpExchange) (c : UInt8) :
    Option HttpExchange :=
  if exchange.state = .headerName then nameByte exchange c
  else if exchange.state = .headerValueLeadingSpace then
    if c = space then some exchange
    else some (valueByte stray (openValue exchange) c)
  else if exchange.state = .headerValue then
    some (valueByte stray exchange c)
  else if exchange.state = .crlf then
    if c = lf then lineFeed exchange else none
  else none

/-- What the bytes of a header block do. -/
def feedHead (stray : Bytes) :
    HttpExchange → Bytes → Option HttpExchange
  | exchange, [] => some exchange
  | exchange, c :: rest =>
      (headByte stray exchange c).bind fun later => feedHead stray later rest

/-- What a byte costs of the space in the buffer. -/
def byteCharge (state : HttpState) (c : UInt8) : Nat :=
  if state = .headerName then if c = cr then 0 else 1
  else if state = .headerValueLeadingSpace then
    if c = space then 0 else if c = cr then 1 else 2
  else if state = .headerValue then if c = cr then 1 else 2
  else 0

/-- What the bytes cost at most. -/
def charge (stray : Bytes) :
    HttpExchange → Bytes → Nat
  | _, [] => 0
  | exchange, c :: rest =>
      byteCharge exchange.state c +
        ((headByte stray exchange c).map fun later =>
          charge stray later rest).getD 0

section Feed

variable {stray : Bytes}

theorem feedHead_cons {exchange later : HttpExchange}
    (byte : headByte stray exchange c = some later)
    (rest : Bytes) :
    feedHead stray exchange (c :: rest) = feedHead stray later rest := by
  rw [feedHead, byte]
  rfl

theorem charge_cons {exchange later : HttpExchange}
    (byte : headByte stray exchange c = some later)
    (rest : Bytes) :
    charge stray exchange (c :: rest) =
      byteCharge exchange.state c + charge stray later rest := by
  rw [charge, byte]
  rfl

theorem feedHead_append {exchange later : HttpExchange} {front : Bytes}
    (fed : feedHead stray exchange front = some later)
    (back : Bytes) :
    feedHead stray exchange (front ++ back) = feedHead stray later back := by
  induction front generalizing exchange with
  | nil =>
      cases fed
      rfl
  | cons c rest ih =>
      cases byte : headByte stray exchange c with
      | none =>
          rw [feedHead, byte] at fed
          cases fed
      | some next =>
          rw [feedHead_cons byte] at fed
          rw [List.cons_append, feedHead_cons byte]
          exact ih fed

theorem charge_append {exchange later : HttpExchange} {front : Bytes}
    (fed : feedHead stray exchange front = some later)
    (back : Bytes) :
    charge stray exchange (front ++ back) =
      charge stray exchange front + charge stray later back := by
  induction front generalizing exchange with
  | nil =>
      cases fed
      rw [List.nil_append, charge, Nat.zero_add]
  | cons c rest ih =>
      cases byte : headByte stray exchange c with
      | none =>
          rw [feedHead, byte] at fed
          cases fed
      | some next =>
          rw [feedHead_cons byte] at fed
          rw [List.cons_append, charge_cons byte, charge_cons byte,
            ih fed, Nat.add_assoc]

end Feed

/-! ## The parsers agree -/

/-- The bytes that are used lead on to the end of the headers. -/
structure Onward
    (stray : Bytes)
    (final later : HttpExchange)
    (unused used rest : Bytes) : Prop where
  complete : final.state = .headersComplete
  split : rest = used ++ unused
  fed : feedHead stray later used = some final

/-- The bytes lead an exchange to the end of the headers and some are left, and
there is space for those that are used. -/
def Fed (stray : Bytes) (final : HttpExchange) (unused : Bytes)
    (exchange : HttpExchange)
    (rest : Bytes) : Prop :=
  ∃ used,
    Onward stray final (plain exchange) unused used rest ∧
      charge stray (plain exchange) used < exchange.remain

section Parsers

variable
    {stray : Bytes}
    {final : HttpExchange}
    {unused : Bytes}

/-- A byte that leads on. -/
theorem Fed.step (fed : Fed stray final unused exchange (c :: rest))
    (goesOn : exchange.state ≠ .headersComplete) :
    ∃ later used,
      headByte stray (plain exchange) c = some later ∧
        Onward stray final later unused used rest ∧
          byteCharge exchange.state c +
              charge stray later used <
            exchange.remain := by
  rcases fed with ⟨used, onward, room⟩
  cases used with
  | nil =>
      have same : plain exchange = final := Option.some.inj onward.fed
      have complete := onward.complete
      rw [← same] at complete
      exact absurd complete goesOn
  | cons d used =>
      rcases List.cons_eq_cons.mp onward.split with ⟨rfl, split⟩
      have whole := onward.fed
      cases byte : headByte stray (plain exchange) c with
      | none =>
          rw [feedHead, byte] at whole
          cases whole
      | some later =>
          rw [feedHead_cons byte] at whole
          rw [charge_cons byte] at room
          exact ⟨later, used, rfl, ⟨onward.complete, split, whole⟩, room⟩

theorem ne_complete {state : HttpState} (here : exchange.state = state)
    (other : state ≠ .headersComplete) :
    exchange.state ≠ .headersComplete := by
  rw [here]
  exact other

/-- Nothing is left of the space only when nothing is left to do. -/
theorem Fed.positive (fed : Fed stray final unused exchange rest) :
    exchange.remain ≠ 0 := by
  rcases fed with ⟨used, -, room⟩
  exact Nat.ne_of_gt (Nat.lt_of_le_of_lt (Nat.zero_le _) room)

theorem parseDone_of_fed {exchange : HttpExchange} {cursor : Cursor}
    {rest : Bytes}
    (fed : Fed stray final unused (exchange.save cursor) rest)
    (count : Nat) :
    parseDone exchange cursor count = .took count (exchange.save cursor) :=
  if_pos fed.positive

/-- What a call of a parser does with some of the bytes. -/
def TakesSome (stray : Bytes) (final : HttpExchange) (unused : Bytes)
    (count : Nat)
    (buffer rest : Bytes)
    (parsed : Parsed) : Prop :=
  ∃ n later,
    parsed = .took (count + n) later ∧ n ≤ buffer.length ∧
      (buffer ≠ [] → 0 < n) ∧
        Fed stray final unused later (buffer.drop n ++ rest)

/-- The byte is dealt with, and at most its cost is gone. -/
theorem Fed.next {exchange later : HttpExchange} {cost space : Nat}
    {used rest : Bytes}
    (onward : Onward stray final later unused used rest)
    (room : cost + charge stray later used < space)
    (same : plain exchange = later)
    (left : space ≤ exchange.remain + cost) :
    Fed stray final unused exchange rest := by
  subst same
  exact ⟨used, onward, by omega⟩

theorem remain_decr {cursor : Cursor} (spare : cursor.remain ≠ 0) :
    cursor.decr.remain = cursor.remain - 1 := by
  unfold Cursor.decr
  rw [if_neg spare]

/-- A byte that is stored takes one from the space. -/
theorem remain_le_put_decr {cursor : Cursor} (byte : UInt8)
    (spare : cursor.remain ≠ 0)
    (more : Nat) :
    cursor.remain ≤ (cursor.put byte).decr.remain + (more + 1) := by
  rw [@remain_decr (cursor.put byte) spare]
  show cursor.remain ≤ cursor.remain - 1 + (more + 1)
  omega

theorem plain_save_decr (exchange : HttpExchange) (cursor : Cursor) :
    plain (exchange.save cursor.decr) = plain (exchange.save cursor) := by
  unfold plain HttpExchange.save
  simp only [Cursor.recvBuf_decr, Cursor.recvCurrent_decr]

theorem takesSome_nameLoop (rest buffer : Bytes) {exchange : HttpExchange}
    {cursor : Cursor}
    (count : Nat)
    (state : exchange.state = .headerName)
    (fed : Fed stray final unused (exchange.save cursor) (buffer ++ rest)) :
    TakesSome stray final unused count buffer rest
      (headerNameLoop exchange cursor count buffer) := by
  induction buffer generalizing exchange cursor count with
  | nil =>
      refine ⟨0, _, parseDone_of_fed fed count, Nat.le_refl 0, ?_, fed⟩
      exact fun nonempty => absurd rfl nonempty
  | cons c buffer ih =>
      rcases fed.step (ne_complete state (by decide)) with
        ⟨later, used, byte, onward, room⟩
      have spare : cursor.remain ≠ 0 := fed.positive
      have named :
          headByte stray (plain (exchange.save cursor)) c =
            nameByte (plain (exchange.save cursor)) c :=
        if_pos state
      have cost : byteCharge (exchange.save cursor).state c =
          if c = cr then 0 else 1 :=
        if_pos state
      rw [named] at byte
      rw [cost] at room
      unfold nameByte at byte
      unfold headerNameLoop
      by_cases isColon : c ≠ colon
      · rw [if_pos isColon] at byte ⊢
        by_cases isReturn : c ≠ cr
        · rw [if_pos isReturn] at byte ⊢
          rw [if_neg isReturn] at room
          by_cases token : isHttpHdrFieldToken c = true
          · rw [if_pos token] at byte ⊢
            cases byte
            have here :
                Fed stray final unused
                  ({ exchange with
                    hId := ymoHdrHashCh exchange.hId c }.save
                      (cursor.put c).decr)
                  (buffer ++ rest) := by
              apply Fed.next onward room
              · rw [plain_save_decr]
                rfl
              · exact remain_le_put_decr c spare 0
            have spared : (cursor.put c).decr.remain ≠ 0 := here.positive
            dsimp only
            rw [if_neg spared]
            rcases
                @ih
                  { exchange with hId := ymoHdrHashCh exchange.hId c }
                  _ (count + 1) state here with
              ⟨n, after, called, within, -, goesOn⟩
            refine ⟨n + 1, after, ?_, Nat.succ_le_succ within, ?_, goesOn⟩
            · rw [called, Nat.add_assoc, Nat.add_comm 1]
            · exact fun _ => Nat.succ_pos n
          · rw [if_neg token] at byte
            cases byte
        · rw [if_neg isReturn] at byte ⊢
          rw [if_pos (not_not.mp isReturn)] at room
          cases byte
          have here :
              Fed stray final unused
                ((parserSawCr exchange .headersComplete).save cursor)
                (buffer ++ rest) :=
            Fed.next onward room rfl (Nat.le_refl _)
          exact
            ⟨1, _, parseDone_of_fed here _,
              Nat.succ_le_succ (Nat.zero_le _), fun _ => Nat.one_pos,
              here⟩
      · rw [if_neg isColon] at byte ⊢
        have notReturn : c ≠ cr := by
          rw [not_not.mp isColon]
          decide
        rw [if_neg notReturn] at room
        cases byte
        have here :
            Fed stray final unused
              ({ exchange with state := .headerValueLeadingSpace }.save
                (cursor.put 0).decr)
              (buffer ++ rest) := by
          apply Fed.next onward room
          · rw [plain_save_decr]
            rfl
          · exact remain_le_put_decr 0 spare 0
        exact
          ⟨1, _, parseDone_of_fed here _,
            Nat.succ_le_succ (Nat.zero_le _), fun _ => Nat.one_pos,
            here⟩

theorem takesSome_valueLoop (rest buffer : Bytes) {exchange : HttpExchange}
    {cursor : Cursor}
    (count : Nat)
    (state : exchange.state = .headerValue)
    (fed : Fed stray final unused (exchange.save cursor) (buffer ++ rest)) :
    TakesSome stray final unused count buffer rest
      (headerValueLoop stray exchange cursor count buffer) := by
  induction buffer generalizing cursor count with
  | nil =>
      refine ⟨0, _, parseDone_of_fed fed count, Nat.le_refl 0, ?_, fed⟩
      exact fun nonempty => absurd rfl nonempty
  | cons c buffer ih =>
      rcases fed.step (ne_complete state (by decide)) with
        ⟨later, used, byte, onward, room⟩
      have spare : cursor.remain ≠ 0 := fed.positive
      have valued :
          headByte stray (plain (exchange.save cursor)) c =
            some
              (valueByte stray (plain (exchange.save cursor)) c) := by
        have here : (plain (exchange.save cursor)).state = .headerValue :=
          state
        unfold headByte
        rw [here]
        rfl
      have cost : byteCharge (exchange.save cursor).state c =
          if c = cr then 1 else 2 := by
        have here : (exchange.save cursor).state = .headerValue := state
        unfold byteCharge
        rw [here]
        rfl
      rw [valued] at byte
      rw [cost] at room
      unfold valueByte at byte
      unfold headerValueLoop
      by_cases isReturn : c ≠ cr
      · rw [if_pos isReturn] at byte ⊢
        rw [if_neg isReturn] at room
        cases byte
        have left := @remain_decr (cursor.put c) spare
        have least : 2 < cursor.remain := by
          have whole : 2 + _ < cursor.remain := room
          omega
        cases buffer with
        | nil =>
            have here :
                Fed stray final unused
                  (exchange.save (cursor.put c).decr) rest := by
              apply Fed.next onward room
              · rw [plain_save_decr]
                rfl
              · exact remain_le_put_decr c spare 1
            exact
              ⟨1, _, parseDone_of_fed here _, Nat.le_refl 1,
                fun _ => Nat.one_pos, here⟩
        | cons d buffer =>
            have spared : (cursor.put c).decr.remain ≠ 0 := by
              rw [left]
              show cursor.remain - 1 ≠ 0
              omega
            have less := remain_decr spared
            have here :
                Fed stray final unused
                  (exchange.save (cursor.put c).decr.decr)
                  ((d :: buffer) ++ rest) := by
              apply Fed.next onward room
              · rw [plain_save_decr, plain_save_decr]
                rfl
              · show cursor.remain ≤ (cursor.put c).decr.decr.remain + 2
                rw [less, left]
                show cursor.remain ≤ cursor.remain - 1 - 1 + 2
                omega
            have more : (cursor.put c).decr.decr.remain ≠ 0 := here.positive
            dsimp only
            rw [if_neg more]
            rcases ih (count + 1) here with
              ⟨n, after, called, within, -, goesOn⟩
            refine ⟨n + 1, after, ?_, Nat.succ_le_succ within, ?_, goesOn⟩
            · rw [called, Nat.add_assoc, Nat.add_comm 1]
            · exact fun _ => Nat.succ_pos n
      · rw [if_neg isReturn] at byte ⊢
        rw [if_pos (not_not.mp isReturn)] at room
        cases byte
        have here :
            Fed stray final unused
              ((parserSawCr
                (httpHeaderGotValue stray exchange (cursor.put 0).decr)
                .headerName).save (cursor.put 0).decr)
              (buffer ++ rest) := by
          apply Fed.next onward room
          · rw [plain_save_decr]
            unfold httpHeaderGotValue
            simp only [Cursor.recvBuf_decr, Cursor.recvCurrent_decr]
            rfl
          · exact remain_le_put_decr 0 spare 0
        exact
          ⟨1, _, parseDone_of_fed here _,
            Nat.succ_le_succ (Nat.zero_le _), fun _ => Nat.one_pos,
            here⟩

theorem takesSome_name {buffer rest : Bytes}
    (state : exchange.state = .headerName)
    (fed : Fed stray final unused exchange (buffer ++ rest)) :
    TakesSome stray final unused 0 buffer rest
      (parseHttpHeaderName exchange buffer) :=
  @takesSome_nameLoop _ _ _ rest buffer exchange exchange.cursor 0 state fed

theorem takesSome_value {buffer rest : Bytes}
    (state : exchange.state = .headerValue)
    (fed : Fed stray final unused exchange (buffer ++ rest)) :
    TakesSome stray final unused 0 buffer rest
      (parseHttpHeaderValue stray exchange buffer) :=
  @takesSome_valueLoop _ _ _ rest buffer exchange exchange.cursor 0 state fed

/-- The states in which `ymo_parse_http_headers` goes on. -/
def InHeaders (state : HttpState) : Prop :=
  state = .headerName ∨ state = .headerValueLeadingSpace ∨ state = .headerValue

/-- A byte that is not a space begins the value. -/
theorem Fed.openValue (fed : Fed stray final unused exchange (c :: rest))
    (state : exchange.state = .headerValueLeadingSpace)
    (notSpace : c ≠ space) :
    Fed stray final unused (openValue exchange) (c :: rest) := by
  rcases fed.step (ne_complete state (by decide)) with
    ⟨later, used, byte, onward, room⟩
  have leading : (plain exchange).state = .headerValueLeadingSpace := state
  have same :
      headByte stray (plain (HeaderBlock.openValue exchange)) c =
        some later := by
    rw [← byte]
    unfold headByte
    rw [leading]
    simp only [reduceCtorEq, if_false, if_true, if_neg notSpace]
    rfl
  have cost :
      byteCharge (HeaderBlock.openValue exchange).state c =
        byteCharge exchange.state c := by
    rw [state]
    unfold byteCharge
    simp only [reduceCtorEq, if_false, if_true, if_neg notSpace]
    rfl
  refine ⟨c :: used, ⟨onward.complete, ?_, ?_⟩, ?_⟩
  · rw [onward.split]
    rfl
  · rw [feedHead_cons same]
    exact onward.fed
  · rw [charge_cons same]
    show byteCharge (HeaderBlock.openValue exchange).state c + _ < _
    rw [cost]
    exact room

theorem headersTurn_name (state : locals.exchange.state = .headerName) :
    headersTurn stray locals =
      headersResume locals
        (parseHttpHeaderName locals.exchange locals.buffer) := by
  unfold headersTurn
  dsimp only
  rw [state]

theorem headersTurn_value (state : locals.exchange.state = .headerValue) :
    headersTurn stray locals =
      headersResume locals
        (parseHttpHeaderValue stray locals.exchange locals.buffer) := by
  unfold headersTurn
  dsimp only
  rw [state]

theorem headersTurn_leading {more : Bytes}
    (state : locals.exchange.state = .headerValueLeadingSpace)
    (buffer : locals.buffer = c :: more) :
    headersTurn stray locals =
      headersResume locals
        (if c = space then .took 1 locals.exchange
        else
          parseHttpHeaderValue stray (openValue locals.exchange)
            locals.buffer) := by
  unfold headersTurn
  dsimp only
  rw [state]
  simp only [buffer, List.head?_cons, Option.some.injEq]
  by_cases isSpace : c = space
  · rw [if_pos isSpace, if_pos isSpace]
  · rw [if_neg isSpace, if_neg isSpace]
    rfl

/-- A turn of the loop of `ymo_parse_http_headers` takes some bytes. -/
theorem headersTurn_of_fed (inHeaders : InHeaders locals.exchange.state)
    (nonempty : locals.buffer ≠ [])
    (fed : Fed stray final unused locals.exchange (locals.buffer ++ rest)) :
    ∃ n later,
      headersTurn stray locals =
          headersResume locals (.took n later) ∧
        n ≤ locals.buffer.length ∧ 0 < n ∧
          Fed stray final unused later (locals.buffer.drop n ++ rest) := by
  rcases inHeaders with state | state | state
  · rcases takesSome_name state fed with
      ⟨n, later, called, within, positive, onward⟩
    rw [Nat.zero_add] at called
    refine ⟨n, later, ?_, within, positive nonempty, onward⟩
    rw [headersTurn_name state, called]
  · cases buffer : locals.buffer with
    | nil => exact absurd buffer nonempty
    | cons c more =>
        rw [buffer] at fed
        rw [headersTurn_leading state buffer]
        by_cases isSpace : c = space
        · rw [if_pos isSpace]
          refine
            ⟨1, locals.exchange, rfl, Nat.succ_le_succ (Nat.zero_le _),
              Nat.one_pos, ?_⟩
          rcases fed.step (ne_complete state (by decide)) with
            ⟨later, used, byte, onward, room⟩
          have leading :
              (plain locals.exchange).state = .headerValueLeadingSpace :=
            state
          unfold headByte at byte
          rw [leading] at byte
          simp only [reduceCtorEq, if_false, if_true, if_pos isSpace,
            Option.some.injEq] at byte
          exact Fed.next onward room byte (Nat.le_add_right _ _)
        · rw [if_neg isSpace, buffer]
          have opened :
              Fed stray final unused (openValue locals.exchange)
                ((c :: more) ++ rest) :=
            fed.openValue state isSpace
          rcases takesSome_value rfl opened with
            ⟨n, later, called, within, positive, onward⟩
          rw [Nat.zero_add] at called
          exact
            ⟨n, later, congrArg _ called, within,
              positive (List.cons_ne_nil _ _), onward⟩
  · rcases takesSome_value state fed with
      ⟨n, later, called, within, positive, onward⟩
    rw [Nat.zero_add] at called
    refine ⟨n, later, ?_, within, positive nonempty, onward⟩
    rw [headersTurn_value state, called]

theorem headersTurn_outside (outside : ¬InHeaders locals.exchange.state) :
    headersTurn stray locals =
      .done
        (parseDone locals.exchange locals.exchange.cursor locals.count) := by
  unfold headersTurn
  dsimp only
  split
  · next state => exact absurd (.inl state) outside
  · next state => exact absurd (.inr (.inl state)) outside
  · next state => exact absurd (.inr (.inr state)) outside
  · rfl

theorem takesSome_headers (rest : Bytes) (fuel : Nat) {locals : HeadersState}
    (enough : locals.buffer.length < fuel)
    (inHeaders : InHeaders locals.exchange.state)
    (nonempty : locals.buffer ≠ [])
    (fed : Fed stray final unused locals.exchange (locals.buffer ++ rest)) :
    TakesSome stray final unused locals.count locals.buffer rest
      (loop (headersTurn stray)
        (fun locals => .fault locals.exchange) fuel locals) := by
  induction fuel generalizing locals with
  | zero => exact absurd enough (Nat.not_lt_zero _)
  | succ fuel ih =>
      rcases headersTurn_of_fed inHeaders nonempty fed with
        ⟨n, later, turn, within, positive, onward⟩
      by_cases more : n < locals.buffer.length
      · have goesOn :
            headersTurn stray locals =
              .again
                { exchange := later
                  count := locals.count + n
                  buffer := locals.buffer.drop n } := by
          rw [turn]
          exact if_pos ⟨more, onward.positive⟩
        rw [loop_of_again goesOn]
        have left : locals.buffer.drop n ≠ [] := by
          intro empty
          exact absurd more (Nat.not_lt.mpr (List.drop_eq_nil_iff.mp empty))
        cases fuel with
        | zero => omega
        | succ fuel =>
            by_cases still : InHeaders later.state
            · have less : (locals.buffer.drop n).length < fuel + 1 := by
                rw [List.length_drop]
                omega
              rcases
                  @ih
                    { exchange := later
                      count := locals.count + n
                      buffer := locals.buffer.drop n }
                    less still left onward with
                ⟨m, after, called, further, -, last⟩
              refine ⟨n + m, after, ?_, ?_, ?_, ?_⟩
              · rw [called, Nat.add_assoc]
              · rw [List.length_drop] at further
                omega
              · exact fun _ =>
                  Nat.lt_of_lt_of_le positive (Nat.le_add_right _ _)
              · rw [List.drop_drop] at last
                exact last
            · rw [loop_of_done (headersTurn_outside still)]
              exact
                ⟨n, later,
                  @parseDone_of_fed _ _ _ _ later.cursor _ onward _,
                  within, fun _ => positive, onward⟩
      · have leaves :
            headersTurn stray locals =
              .done (parseDone later later.cursor (locals.count + n)) := by
          rw [turn]
          exact if_neg fun both => more both.1
        rw [loop_of_done leaves]
        exact
          ⟨n, later,
            @parseDone_of_fed _ _ _ _ later.cursor _ onward _,
            within, fun _ => positive, onward⟩

theorem takesSome_crlf {buffer rest : Bytes} (state : exchange.state = .crlf)
    (fed : Fed stray final unused exchange ((c :: buffer) ++ rest)) :
    TakesSome stray final unused 0 (c :: buffer) rest
      (ymoParseHttpCrlf exchange (c :: buffer)) := by
  rcases fed.step (ne_complete state (by decide)) with
    ⟨later, used, byte, onward, room⟩
  have ended : (plain exchange).state = .crlf := state
  unfold headByte at byte
  rw [ended] at byte
  simp only [reduceCtorEq, if_false, if_true] at byte
  by_cases isFeed : c = lf
  · rw [if_pos isFeed] at byte
    have parsed :
        ∃ next,
          ymoParseHttpCrlf exchange (c :: buffer) = .took 1 next ∧
            plain next = later ∧ next.remain = exchange.remain := by
      dsimp only [ymoParseHttpCrlf]
      rw [if_neg (not_not.mpr isFeed)]
      unfold lineFeed at byte
      by_cases named : exchange.nextState = .headerName
      · have again : (plain exchange).nextState = .headerName := named
        rw [if_pos again] at byte
        cases byte
        rw [named]
        refine ⟨_, rfl, ?_, rfl⟩
        simp only [plain, named]
      · have again : (plain exchange).nextState ≠ .headerName := named
        rw [if_neg again] at byte
        by_cases last : exchange.nextState = .headersComplete
        · have complete : (plain exchange).nextState = .headersComplete := last
          rw [if_pos complete] at byte
          cases byte
          rw [last]
          refine ⟨_, rfl, ?_, rfl⟩
          simp only [plain, last]
        · have other : (plain exchange).nextState ≠ .headersComplete := last
          rw [if_neg other] at byte
          cases byte
    rcases parsed with ⟨next, called, same, still⟩
    refine
      ⟨1, next, called, Nat.succ_le_succ (Nat.zero_le _),
        fun _ => Nat.one_pos, ?_⟩
    apply Fed.next onward room same
    rw [still]
    exact Nat.le_add_right _ _
  · rw [if_neg isFeed] at byte
    cases byte

/-- Before the headers are complete, a line or its end is being read. -/
theorem Fed.inHead (fed : Fed stray final unused exchange rest)
    (goesOn : exchange.state ≠ .headersComplete) :
    InHeaders exchange.state ∨ exchange.state = .crlf := by
  rcases fed with ⟨used, onward, -⟩
  have whole := onward.fed
  cases used with
  | nil =>
      have same : plain exchange = final := Option.some.inj whole
      have complete := onward.complete
      rw [← same] at complete
      exact absurd complete goesOn
  | cons c used =>
      unfold feedHead headByte at whole
      by_cases name : exchange.state = .headerName
      · exact .inl (.inl name)
      · by_cases leading : exchange.state = .headerValueLeadingSpace
        · exact .inl (.inr (.inl leading))
        · by_cases value : exchange.state = .headerValue
          · exact .inl (.inr (.inr value))
          · by_cases ended : exchange.state = .crlf
            · exact .inr ended
            · rw [if_neg (show (plain exchange).state ≠ _ from name),
                if_neg (show (plain exchange).state ≠ _ from leading),
                if_neg (show (plain exchange).state ≠ _ from value),
                if_neg (show (plain exchange).state ≠ _ from ended)]
                at whole
              cases whole

/-- The parser that `ymo_proto_http_read` calls takes some bytes. -/
theorem parseHead_of_fed {buffer rest : Bytes}
    (goesOn : exchange.state ≠ .headersComplete)
    (nonempty : buffer ≠ [])
    (fed : Fed stray final unused exchange (buffer ++ rest)) :
    ∃ n later,
      parseHead stray exchange buffer = some (.took n later) ∧
        n ≤ buffer.length ∧ 0 < n ∧
          Fed stray final unused later (buffer.drop n ++ rest) := by
  by_cases inHeaders : InHeaders exchange.state
  · have selected :
        parseHead stray exchange buffer =
          some (ymoParseHttpHeaders stray exchange buffer) := by
      unfold parseHead
      rcases inHeaders with state | state | state
      · rw [state]
      · rw [state]
      · rw [state]
    rcases
        @takesSome_headers _ _ _ rest (buffer.length + 1)
          { exchange := exchange, count := 0, buffer := buffer }
          (Nat.lt_succ_self _) inHeaders nonempty fed with
      ⟨n, later, called, within, positive, onward⟩
    rw [Nat.zero_add] at called
    refine ⟨n, later, ?_, within, positive nonempty, onward⟩
    rw [selected]
    exact congrArg some called
  · cases buffer with
    | nil => exact absurd rfl nonempty
    | cons c buffer =>
        have ended : exchange.state = .crlf :=
          (fed.inHead goesOn).resolve_left inHeaders
        rcases takesSome_crlf ended fed with
          ⟨n, later, called, within, positive, onward⟩
        rw [Nat.zero_add] at called
        refine ⟨n, later, ?_, within, positive (List.cons_ne_nil _ _), onward⟩
        unfold parseHead
        rw [ended]
        exact congrArg some called

/-- When the headers are complete, no more bytes are used. -/
theorem Fed.ended (fed : Fed stray final unused exchange rest)
    (complete : exchange.state = .headersComplete) :
    plain exchange = final ∧ rest = unused := by
  rcases fed with ⟨used, onward, -⟩
  have whole := onward.fed
  cases used with
  | nil => exact ⟨Option.some.inj whole, onward.split⟩
  | cons c used =>
      have stops : headByte stray (plain exchange) c = none := by
        unfold headByte
        rw [show (plain exchange).state = .headersComplete from complete]
        rfl
      rw [feedHead, stops] at whole
      cases whole

/-- Bytes are used only before the headers are complete. -/
theorem Fed.goesOn (fed : Fed stray final unused exchange rest)
    (more : rest ≠ unused) :
    exchange.state ≠ .headersComplete :=
  fun complete => more (fed.ended complete).2

/-- The calls for one read take all of it. -/
theorem driveRead_of_fed {buffer rest : Bytes} (fuel : Nat)
    (enough : buffer.length ≤ fuel)
    (fed : Fed stray final [] exchange (buffer ++ rest)) :
    ∃ later,
      (driveRead stray fuel exchange buffer).left = some later ∧
        Fed stray final [] later rest := by
  induction fuel generalizing exchange buffer with
  | zero =>
      have empty : buffer = [] :=
        List.length_eq_zero_iff.mp (Nat.le_zero.mp enough)
      subst empty
      exact ⟨exchange, rfl, fed⟩
  | succ fuel ih =>
      by_cases empty : buffer = []
      · subst empty
        rw [driveRead_nil]
        exact ⟨exchange, rfl, fed⟩
      · have goesOn : exchange.state ≠ .headersComplete :=
          fed.goesOn (List.append_ne_nil_of_left_ne_nil empty rest)
        rcases parseHead_of_fed goesOn empty fed with
          ⟨n, later, called, within, positive, onward⟩
        rw [driveRead, if_neg empty, called]
        apply ih _ onward
        rw [List.length_drop]
        omega

end Parsers

/-! ## Reads -/

/-- The exchange after the calls of the head parsers for some reads, if none of them
failed. -/
def afterReads (stray : Bytes) :
    HttpExchange → List Bytes → Option HttpExchange
  | exchange, [] => some exchange
  | exchange, read :: reads =>
      (driveRead stray read.length exchange read).left.bind
        fun later => afterReads stray later reads

theorem afterReads_of_fed {stray : Bytes} {final : HttpExchange}
    (reads : List Bytes)
    (fed : Fed stray final [] exchange reads.flatten) :
    ∃ later,
      afterReads stray exchange reads = some later ∧ plain later = final := by
  induction reads generalizing exchange with
  | nil =>
      rcases fed with ⟨used, onward, -⟩
      have nothing : used = [] :=
        (List.append_eq_nil_iff.mp onward.split.symm).1
      have fed := onward.fed
      rw [nothing] at fed
      exact ⟨exchange, rfl, Option.some.inj fed⟩
  | cons read reads ih =>
      rw [List.flatten_cons] at fed
      rcases driveRead_of_fed read.length (Nat.le_refl _) fed with
        ⟨later, left, onward⟩
      rcases ih onward with ⟨last, called, same⟩
      refine ⟨last, ?_, same⟩
      rw [afterReads, left]
      exact called

/-! ## Lines -/

/-- A header line as it is sent, with some spaces before the value. -/
structure SentLine where
  line : HeaderLine
  spaces : Nat
  opens : line.value.head? ≠ some space

/-- The bytes of the line. -/
def SentLine.text (sent : SentLine) : Bytes :=
  sent.line.name ++
    (colon ::
      (List.replicate sent.spaces space ++ (sent.line.value ++ [cr, lf])))

/-- What the line costs of the space in the receive buffer, at most. -/
def SentLine.charge (sent : SentLine) : Nat :=
  sent.line.name.length + 2 * sent.line.value.length + 2

/-- The lines and the empty line behind them. -/
def blockText (lines : List SentLine) : Bytes :=
  lines.flatMap SentLine.text ++ [cr, lf]

/-- Bytes are stored at the cursor. -/
def storedAll (exchange : HttpExchange) (data : Bytes) : HttpExchange :=
  { exchange with
    recvBuf := storeAll exchange.recvBuf exchange.recvCurrent data
    recvCurrent := exchange.recvCurrent + data.length }

theorem storedAll_stored (exchange : HttpExchange) (c : UInt8) (rest : Bytes) :
    storedAll (stored exchange c) rest = storedAll exchange (c :: rest) := by
  unfold storedAll stored
  rw [List.length_cons, Nat.add_assoc, Nat.add_comm 1]
  rfl

section Line

variable (stray : Bytes)

/-- A name is stored and hashed. -/
theorem feedHead_name {name : Bytes}
    (tokens : ∀ c ∈ name, isHttpHdrFieldToken c = true)
    {exchange : HttpExchange}
    (state : exchange.state = .headerName) :
    feedHead stray exchange name =
        some
          { storedAll exchange name with
            hId := name.foldl ymoHdrHashCh exchange.hId } ∧
      charge stray exchange name = name.length := by
  induction name generalizing exchange with
  | nil => exact ⟨rfl, rfl⟩
  | cons c name ih =>
      have token := tokens c List.mem_cons_self
      have notColon : c ≠ colon := by
        rintro rfl
        cases token
      have notReturn : c ≠ cr := by
        rintro rfl
        cases token
      have byte :
          headByte stray exchange c =
            some
              { stored exchange c with
                hId := ymoHdrHashCh exchange.hId c } := by
        unfold headByte nameByte
        rw [if_pos state, if_pos notColon, if_pos notReturn, if_pos token]
      have cost : byteCharge exchange.state c = 1 := by
        unfold byteCharge
        rw [if_pos state, if_neg notReturn]
      rcases
          @ih
            (fun other inside => tokens other (List.mem_cons_of_mem c inside))
            { stored exchange c with hId := ymoHdrHashCh exchange.hId c }
            state with
        ⟨fed, charged⟩
      constructor
      · rw [feedHead_cons byte, fed]
        exact
          congrArg some
            (congrArg
              (fun moved : HttpExchange =>
                { moved with
                  hId :=
                    name.foldl ymoHdrHashCh (ymoHdrHashCh exchange.hId c) })
              (storedAll_stored exchange c name))
      · rw [charge_cons byte, cost, charged, List.length_cons, Nat.add_comm]

theorem feedHead_spaces (state : exchange.state = .headerValueLeadingSpace)
    (count : Nat) :
    feedHead stray exchange (List.replicate count space) =
        some exchange ∧
      charge stray exchange (List.replicate count space) = 0 := by
  induction count with
  | zero => exact ⟨rfl, rfl⟩
  | succ count ih =>
      have byte : headByte stray exchange space = some exchange := by
        unfold headByte
        rw [state]
        rfl
      have cost : byteCharge exchange.state space = 0 := by
        rw [state]
        rfl
      rw [List.replicate_succ]
      constructor
      · rw [feedHead_cons byte]
        exact ih.1
      · rw [charge_cons byte, cost, ih.2]

/-- A value is stored. -/
theorem feedHead_value {value : Bytes} (noReturn : cr ∉ value)
    {exchange : HttpExchange}
    (state : exchange.state = .headerValue) :
    feedHead stray exchange value =
        some (storedAll exchange value) ∧
      charge stray exchange value = 2 * value.length := by
  induction value generalizing exchange with
  | nil => exact ⟨rfl, rfl⟩
  | cons c value ih =>
      rw [List.mem_cons, not_or] at noReturn
      have notReturn : c ≠ cr := fun same => noReturn.1 same.symm
      have byte : headByte stray exchange c = some (stored exchange c) := by
        unfold headByte
        rw [state]
        exact congrArg some (if_pos notReturn)
      have cost : byteCharge exchange.state c = 2 := by
        rw [state]
        exact if_neg notReturn
      rcases
          @ih noReturn.2 (stored exchange c) state with
        ⟨fed, charged⟩
      constructor
      · rw [feedHead_cons byte, fed, storedAll_stored]
      · rw [charge_cons byte, cost, charged, List.length_cons]
        omega

/-- Behind the spaces a value begins. -/
theorem headByte_openValue (state : exchange.state = .headerValueLeadingSpace)
    (notSpace : c ≠ space) :
    headByte stray exchange c =
        headByte stray (openValue exchange) c ∧
      byteCharge exchange.state c = byteCharge .headerValue c := by
  constructor
  · unfold headByte
    rw [state]
    exact if_neg notSpace
  · rw [state]
    exact if_neg notSpace

/-- A value and the bytes behind it, from the spaces on. -/
theorem feedHead_opened {value : Bytes} (opens : value.head? ≠ some space)
    (state : exchange.state = .headerValueLeadingSpace)
    (rest : Bytes) :
    feedHead stray exchange (value ++ cr :: rest) =
        feedHead stray (openValue exchange) (value ++ cr :: rest) ∧
      charge stray exchange (value ++ cr :: rest) =
        charge stray (openValue exchange) (value ++ cr :: rest) := by
  have begins (c : UInt8) (more : Bytes) (notSpace : c ≠ space) :
      feedHead stray exchange (c :: more) =
          feedHead stray (openValue exchange) (c :: more) ∧
        charge stray exchange (c :: more) =
          charge stray (openValue exchange) (c :: more) := by
    rcases headByte_openValue stray state notSpace with
      ⟨byte, cost⟩
    constructor
    · rw [feedHead, feedHead, byte]
    · rw [charge, charge, byte, cost]
      rfl
  cases value with
  | nil => exact begins cr rest (by decide)
  | cons c value => exact begins c _ fun same => opens (congrArg some same)

/-- The exchange behind a line. -/
def afterLine (exchange : HttpExchange) (line : HeaderLine) : HttpExchange :=
  let got := gotHeader stray exchange line
  { got with
    state := .headerName
    nextState := .headerName
    hdrName := some got.recvCurrent }

/-- The end of a line. -/
theorem feedHead_lineEnd (state : exchange.state = .headerValue) :
    feedHead stray exchange [cr, lf] =
        some
          { httpHeaderGotValue stray (stored exchange 0)
              (stored exchange 0).cursor with
            state := .headerName
            nextState := .headerName
            hdrName := some (stored exchange 0).recvCurrent } ∧
      charge stray exchange [cr, lf] = 1 := by
  have returned :
      headByte stray exchange cr =
        some
          (parserSawCr
            (httpHeaderGotValue stray (stored exchange 0)
              (stored exchange 0).cursor)
            .headerName) := by
    unfold headByte
    rw [state]
    exact congrArg some (if_neg (not_not.mpr rfl))
  have cost : byteCharge exchange.state cr = 1 := by
    rw [state]
    rfl
  constructor
  · rw [feedHead_cons returned]
    rfl
  · rw [charge_cons returned, cost]
    rfl

/-- Behind the name and its colon. -/
def afterColon (exchange : HttpExchange) (name : Bytes) : HttpExchange :=
  { stored (storedAll exchange name) 0 with
    hId := name.foldl ymoHdrHashCh exchange.hId
    state := .headerValueLeadingSpace }

/-- What is stored when the value has ended is what is stored for a line. -/
theorem stored_line (named : exchange.hdrName = some exchange.recvCurrent)
    (fresh : exchange.hId = ymoHttpHdrHashInit)
    (line : HeaderLine) :
    stored
        (storedAll (openValue (afterColon exchange line.name)) line.value)
        0 =
      { headerStored exchange line with state := .headerValue } := by
  have buffer :
      storeAll exchange.recvBuf exchange.recvCurrent line.stored =
        store
          (storeAll
            (store
              (storeAll exchange.recvBuf exchange.recvCurrent line.name)
              (exchange.recvCurrent + line.name.length) 0)
            (exchange.recvCurrent + line.name.length + 1) line.value)
          (exchange.recvCurrent + line.name.length + 1 + line.value.length)
          0 := by
    unfold HeaderLine.stored
    rw [storeAll_append, storeAll_append, storeAll_append,
      List.length_append, List.length_singleton, ← Nat.add_assoc]
    rfl
  have current :
      exchange.recvCurrent + line.stored.length =
        exchange.recvCurrent + line.name.length + 1 +
            line.value.length +
          1 := by
    unfold HeaderLine.stored
    simp only [List.length_append, List.length_singleton]
    omega
  dsimp only [headerStored]
  rw [buffer, current, ← fresh, ← named]
  rfl

/-- A line is read. -/
theorem feedHead_line (state : exchange.state = .headerName)
    (named : exchange.hdrName = some exchange.recvCurrent)
    (fresh : exchange.hId = ymoHttpHdrHashInit)
    (sent : SentLine) :
    feedHead stray exchange sent.text =
        some (afterLine stray exchange sent.line) ∧
      charge stray exchange sent.text = sent.charge := by
  rcases feedHead_name stray sent.line.tokens state with
    ⟨name, nameCost⟩
  have colonByte :
      headByte stray
          { storedAll exchange sent.line.name with
            hId := sent.line.name.foldl ymoHdrHashCh exchange.hId }
          colon =
        some (afterColon exchange sent.line.name) := by
    unfold headByte
    rw [if_pos (show (storedAll exchange sent.line.name).state = _ from state)]
    rfl
  have colonCost :
      byteCharge (storedAll exchange sent.line.name).state colon = 1 := by
    rw [show (storedAll exchange sent.line.name).state = _ from state]
    rfl
  have leading :
      (afterColon exchange sent.line.name).state = .headerValueLeadingSpace :=
    rfl
  rcases feedHead_spaces stray leading sent.spaces with
    ⟨spaces, spacesCost⟩
  rcases feedHead_opened stray sent.opens leading [lf] with
    ⟨opened, openedCost⟩
  have inValue :
      (openValue (afterColon exchange sent.line.name)).state = .headerValue :=
    rfl
  rcases
      feedHead_value stray sent.line.noReturn inValue with
    ⟨value, valueCost⟩
  have still :
      (storedAll (openValue (afterColon exchange sent.line.name))
          sent.line.value).state =
        .headerValue :=
    rfl
  rcases feedHead_lineEnd stray still with ⟨ended, endCost⟩
  constructor
  · unfold SentLine.text
    rw [feedHead_append name, feedHead_cons colonByte,
      feedHead_append spaces, opened, feedHead_append value, ended,
      stored_line named fresh]
    rfl
  · unfold SentLine.text SentLine.charge
    rw [charge_append name, charge_cons colonByte,
      charge_append spaces, openedCost, charge_append value, nameCost,
      spacesCost, valueCost, endCost]
    show _ + (byteCharge (storedAll exchange sent.line.name).state colon + _) =
      _
    rw [colonCost]
    omega

/-- A header line is about to be read. -/
structure AtHeaders (exchange : HttpExchange) : Prop where
  state : exchange.state = .headerName
  named : exchange.hdrName = some exchange.recvCurrent
  fresh : exchange.hId = ymoHttpHdrHashInit

theorem atHeaders_afterLine (exchange : HttpExchange) (line : HeaderLine) :
    AtHeaders (afterLine stray exchange line) :=
  ⟨rfl, rfl, rfl⟩

/-- The exchange behind some lines. -/
def afterLines (exchange : HttpExchange) (lines : List SentLine) :
    HttpExchange :=
  lines.foldl
    (fun exchange sent => afterLine stray exchange sent.line)
    exchange

/-- Lines are read. -/
theorem feedHead_lines (lines : List SentLine) (start : AtHeaders exchange) :
    feedHead stray exchange (lines.flatMap SentLine.text) =
        some (afterLines stray exchange lines) ∧
      charge stray exchange (lines.flatMap SentLine.text) =
          (lines.map SentLine.charge).sum ∧
        AtHeaders (afterLines stray exchange lines) := by
  induction lines generalizing exchange with
  | nil => exact ⟨rfl, rfl, start⟩
  | cons sent lines ih =>
      rcases
          feedHead_line stray start.state start.named start.fresh
            sent with
        ⟨line, cost⟩
      rcases
          ih (atHeaders_afterLine stray exchange sent.line) with
        ⟨fed, charged, ended⟩
      refine ⟨?_, ?_, ended⟩
      · rw [List.flatMap_cons, feedHead_append line, fed]
        rfl
      · rw [List.flatMap_cons, charge_append line, cost, charged,
          List.map_cons, List.sum_cons]

/-- A block is read, and the headers are complete. -/
theorem feedHead_block (lines : List SentLine) (start : AtHeaders exchange) :
    feedHead stray exchange (blockText lines) =
        some
          { afterLines stray exchange lines with
            state := .headersComplete
            nextState := .headersComplete } ∧
      charge stray exchange (blockText lines) =
        (lines.map SentLine.charge).sum := by
  rcases feedHead_lines stray lines start with
    ⟨fed, charged, ended⟩
  have returned :
      headByte stray (afterLines stray exchange lines)
          cr =
        some
          (parserSawCr (afterLines stray exchange lines)
            .headersComplete) := by
    unfold headByte
    rw [if_pos ended.state]
    rfl
  have cost : byteCharge (afterLines stray exchange lines).state cr = 0 := by
    rw [ended.state]
    rfl
  unfold blockText
  constructor
  · rw [feedHead_append fed, feedHead_cons returned]
    rfl
  · rw [charge_append fed, charge_cons returned, charged, cost]
    rfl

/-- The exchanges have the same request and the same bytes. -/
structure Shares (left right : HttpExchange) : Prop where
  request : left.request = right.request
  recvBuf : left.recvBuf = right.recvBuf
  recvCurrent : left.recvCurrent = right.recvCurrent

theorem shares_afterLine {left right : HttpExchange}
    (shares : Shares left right)
    (line : HeaderLine) :
    Shares (afterLine stray left line)
      (gotHeader stray right line) := by
  rcases left with
    ⟨request, hdrName, hdrValue, hId, bodyRemain, state, nextState,
      recvCurrent, remain, recvBuf, response, high, wrapped⟩
  rcases shares with ⟨same, sameBuf, sameCurrent⟩
  dsimp only at same sameBuf sameCurrent
  subst same sameBuf sameCurrent
  exact ⟨rfl, rfl, rfl⟩

theorem shares_afterLines (lines : List SentLine) {left right : HttpExchange}
    (shares : Shares left right) :
    Shares (afterLines stray left lines)
      (gotHeaders stray right (lines.map SentLine.line)) := by
  induction lines generalizing left right with
  | nil => exact shares
  | cons sent lines ih =>
      exact ih (shares_afterLine stray shares sent.line)

end Line

/-! ## Every cut of a block -/

/-- Reads that make up a block leave what its lines do, however they are cut. -/
theorem afterReads_block (stray : Bytes) (start : AtHeaders exchange)
    (lines : List SentLine)
    (room : (lines.map SentLine.charge).sum < exchange.remain)
    {reads : List Bytes}
    (whole : reads.flatten = blockText lines) :
    ∃ after,
      afterReads stray exchange reads = some after ∧
        after.state = .headersComplete ∧
          Shares after
            (gotHeaders stray exchange (lines.map SentLine.line)) := by
  have plainStart : AtHeaders (plain exchange) :=
    ⟨start.state, start.named, start.fresh⟩
  rcases feedHead_block stray lines plainStart with
    ⟨fed, charged⟩
  rw [← whole] at fed charged
  rw [← charged] at room
  have ahead :
      Onward stray _ (plain exchange) [] reads.flatten reads.flatten :=
    ⟨rfl, (List.append_nil _).symm, fed⟩
  rcases afterReads_of_fed reads ⟨_, ahead, room⟩ with
    ⟨after, called, same⟩
  have shares :=
    @shares_afterLines stray lines (plain exchange) exchange
      ⟨rfl, rfl, rfl⟩
  refine ⟨after, called, ?_, ?_, ?_, ?_⟩
  · exact congrArg HttpExchange.state same
  · exact (congrArg HttpExchange.request same).trans shares.request
  · exact (congrArg HttpExchange.recvBuf same).trans shares.recvBuf
  · exact (congrArg HttpExchange.recvCurrent same).trans shares.recvCurrent

/-- From an empty table the headers are those of the lines. -/
theorem contents_of_shares {stray : Bytes} {exchange later : HttpExchange}
    {lines : List HeaderLine}
    (cleared : exchange.request.headers = ymoHttpHdrTableClear)
    (shares : Shares later (gotHeaders stray exchange lines))
    (distinct : Distinct lines) :
    contents later = lines.foldl mapLine fun _ => none := by
  have same : contents later = contents (gotHeaders stray exchange lines) := by
    unfold contents
    rw [shares.request, shares.recvBuf, shares.recvCurrent]
  have nothing : contents exchange = fun _ => none := by
    funext hId
    unfold contents
    rw [cleared]
    rfl
  rw [same,
    contents_gotHeaders stray (kept_of_clear cleared) distinct,
    nothing]
  intro line _
  rw [cleared]
  rfl

/-- What is read of a header block. -/
structure BlockRead
    (flags : HttpFlags)
    (contentLength : Nat)
    (lines : List HeaderLine)
    (after : HttpExchange) : Prop where
  complete : after.state = .headersComplete
  flags : after.request.flags = linesFlags flags lines
  contentLength :
    after.request.contentLength = HeaderLines.lengthAfter contentLength lines
  /-- Each name has its value, and no other has one. -/
  headers : Distinct lines → contents after = lines.foldl mapLine fun _ => none

/--
A block of well-formed header lines is read as these lines by every cut of it into
reads, if the receive buffer has space for what it costs.
-/
theorem block_read (stray : Bytes) {exchange : HttpExchange}
    (start : AtHeaders exchange)
    (cleared : exchange.request.headers = ymoHttpHdrTableClear)
    (lines : List SentLine)
    (room : (lines.map SentLine.charge).sum < exchange.remain)
    {reads : List Bytes}
    (whole : reads.flatten = blockText lines) :
    ∃ after,
      afterReads stray exchange reads = some after ∧
        BlockRead exchange.request.flags exchange.request.contentLength
          (lines.map SentLine.line) after := by
  rcases afterReads_block stray start lines room whole with
    ⟨after, called, complete, shares⟩
  refine ⟨after, called, complete, ?_, ?_, ?_⟩
  · rw [shares.request, flags_gotHeaders]
  · rw [shares.request, contentLength_gotHeaders]
  · exact contents_of_shares cleared shares

/-- An exchange whose first header line is about to be read. -/
def firstLine : HttpExchange :=
  { ymoHttpExchangeCreate with
    state := .headerName
    hdrName := some ymoHttpExchangeCreate.recvCurrent }

theorem hostLine_opens : HeaderOrder.hostLine.value.head? ≠ some space := by
  decide

/-- `Host: a`. -/
def hostSent : SentLine where
  line := HeaderOrder.hostLine
  spaces := 1
  opens := hostLine_opens

theorem closeLine_opens : HeaderOrder.closeLine.value.head? ≠ some space := by
  decide

/-- `Connection:close`. -/
def closeSent : SentLine where
  line := HeaderOrder.closeLine
  spaces := 0
  opens := closeLine_opens

theorem block_read_host :
    ∃ after,
      afterReads [] firstLine
          [bytes "Ho", bytes "st: a\r", bytes "\nConnection:clo",
            bytes "se\r\n\r\n"] =
          some after ∧
        BlockRead firstLine.request.flags firstLine.request.contentLength
          ([hostSent, closeSent].map SentLine.line) after :=
  block_read [] ⟨rfl, rfl, rfl⟩ rfl [hostSent, closeSent] (by decide)
    (by decide)

end Yimmo.Http.HeaderBlock
