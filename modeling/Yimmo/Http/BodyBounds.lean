import Yimmo.Http.BodyScan

/-!
# The body parser and the end of its read

The parser's `len` exceeds what is left of the read by the line feeds that ended
a line of the chunked coding.  So it stays within its read if the body ends there,
or if no such line does; otherwise it goes on past the end.
-/

namespace Yimmo.Http.BodyBounds

open Yimmo.Core.StatusCode
open Yimmo.Lib.TurnLoop
open Yimmo.Http.Exchange
open Yimmo.Http.Parse
open Yimmo.Http.Application
open Yimmo.Http.Reader
open Yimmo.Http.BodyScan
open Yimmo.Http.ReadProgress

variable {memory : Bytes}

/-- The callback takes what it is given and leaves the parser's state alone. -/
structure Obliging {σ : Type} (callback : BodyCallback σ) : Prop where
  okay : ∀ state exchange data, (callback state exchange data).1 = .okay
  framed :
    ∀ state exchange data,
      framed (callback state exchange data).2.1 = framed exchange

section Loop

variable
    {σ : Type}
    {callback : BodyCallback σ}

theorem Obliging.eq (obliging : Obliging callback) (state : σ)
    (exchange : HttpExchange)
    (data : Bytes) :
    callback state exchange data =
      (.okay, (callback state exchange data).2.1,
        (callback state exchange data).2.2) := by
  rw [← obliging.okay state exchange data]

theorem Obliging.placeOf (obliging : Obliging callback) (state : σ)
    (exchange : HttpExchange)
    (data : Bytes) :
    placeOf (callback state exchange data).2.1 = placeOf exchange :=
  placeOf_framed (obliging.framed state exchange data)

/-- A whole piece of the body changes neither what ends within the rest. -/
theorem ends_of_piece (obliging : Obliging callback) {exchange : HttpExchange}
    (inBody : exchange.state = .body)
    (remains : exchange.bodyRemain ≠ 0)
    {rest : Bytes}
    (inside : exchange.bodyRemain ≤ rest.length)
    (state : σ) :
    let later :=
      placeOf
        (bodyTaken
          (callback state exchange (rest.take exchange.bodyRemain)).2.1
          exchange.bodyRemain)
    (placeOf exchange).bodyEnds rest =
        later.bodyEnds (rest.drop exchange.bodyRemain) ∧
      (placeOf exchange).lineEnds rest =
        later.lineEnds (rest.drop exchange.bodyRemain) := by
  have placeBody : (placeOf exchange).state = .body := inBody
  have dataLength :
      (rest.take exchange.bodyRemain).length = exchange.bodyRemain :=
    List.length_take_of_le inside
  have some : rest.take exchange.bodyRemain ≠ [] := by
    intro empty
    rw [empty] at dataLength
    exact remains dataLength.symm
  have place :
      placeOf
          (bodyTaken
            (callback state exchange (rest.take exchange.bodyRemain)).2.1
            exchange.bodyRemain) =
        (placeOf exchange).taken (rest.take exchange.bodyRemain).length := by
    rw [placeOf_bodyTaken, obliging.placeOf, dataLength]
  have ends :=
    bodyEnds_taken placeBody some (Nat.le_of_eq dataLength)
      (rest.drop exchange.bodyRemain)
  have lines :=
    lineEnds_taken placeBody some (Nat.le_of_eq dataLength)
      (rest.drop exchange.bodyRemain)
  rw [← place, List.take_append_drop] at ends lines
  exact ⟨ends, lines⟩

/-- A whole piece of the body, with more of the read behind it. -/
theorem bodyLoop_whole (obliging : Obliging callback) {exchange : HttpExchange}
    (inBody : exchange.state = .body)
    (remains : exchange.bodyRemain ≠ 0)
    (rest : Bytes)
    (drift : Nat)
    (inside : exchange.bodyRemain ≤ rest.length)
    (more : exchange.bodyRemain < rest.length + drift)
    (fuel : Nat)
    (state : σ)
    (count : Nat) :
    let taken := callback state exchange (rest.take exchange.bodyRemain)
    bodyLoop callback (fuel + 1) state exchange (rest.length + drift)
        count rest =
      bodyLoop callback fuel taken.2.2
        (bodyTaken taken.2.1 exchange.bodyRemain)
        ((rest.drop exchange.bodyRemain).length + drift)
        (count + exchange.bodyRemain) (rest.drop exchange.bodyRemain) := by
  have front :
      rest.take (min (rest.length + drift) exchange.bodyRemain) =
        rest.take exchange.bodyRemain := by
    rw [Nat.min_eq_right (by omega)]
  have laterLength :
      (rest.drop exchange.bodyRemain).length =
        rest.length - exchange.bodyRemain :=
    List.length_drop
  have piece :=
    bodyLoop_piece inBody remains (rest.length + drift) rest
      (by omega)
      (by
        rw [front]
        exact obliging.eq state exchange (rest.take exchange.bodyRemain))
      fuel count
  dsimp only
  rw [piece, if_neg (by omega), laterLength,
    show
      rest.length - exchange.bodyRemain + drift =
        rest.length + drift - exchange.bodyRemain by
      omega]

/--
From the middle of a read, `rest` of which is left and `drift` line feeds in:
whatever lies behind the read, the parser takes a part of the rest and shows the
callback pieces of it.
-/
theorem bodyLoop_within
    (obliging : Obliging callback)
    {buffer : Bytes}
    {shown : σ → Prop}
    (shows :
      ∀ state exchange data,
        shown state → data <:+: buffer →
          shown (callback state exchange data).2.2)
    {state : σ}
    {exchange : HttpExchange}
    {drift count : Nat}
    {rest : Bytes}
    (left : rest.length + drift ≠ 0)
    (within :
      (placeOf exchange).bodyEnds rest = true ∨
        drift = 0 ∧ (placeOf exchange).lineEnds rest = false)
    (suffix : rest <:+ buffer)
    (before : shown state) :
    ∃ taken after later,
      taken ≤ rest.length ∧ shown later ∧
        ∀ behind fuel,
          bodyLoop callback (rest.length + 2 + fuel) state exchange
              (rest.length + drift) count (rest ++ behind) =
            (.took (count + taken) after, later) := by
  induction size : rest.length using Nat.strong_induction_on
    generalizing state exchange drift count rest with
  | _ length ih =>
  subst size
  by_cases ended : (placeOf exchange).finished = true
  · refine ⟨0, bodyOver exchange, state, Nat.zero_le _, before, ?_⟩
    intro behind fuel
    rw [show rest.length + 2 + fuel = rest.length + fuel + 2 by omega]
    exact bodyLoop_over ended left (rest.length + fuel) state count _
  rw [Bool.not_eq_true] at ended
  by_cases inLine : (placeOf exchange).inLine = true
  · rcases rest with _ | ⟨c, later⟩
    · rcases within with ends | ⟨none, -⟩
      · rw [BodyPlace.bodyEnds, ended] at ends
        cases ends
      · rw [none] at left
        exact absurd rfl left
    rw [bodyEnds_cons ended, BodyPlace.lineEnds, inLine,
      Bool.true_and] at within
    rw [List.length_cons] at left ⊢
    have suffixLater : later <:+ buffer :=
      (List.suffix_cons c later).trans suffix
    by_cases feed : c = lf
    · rw [feed, next_of_lf inLine, ← placeOf_lineFed] at within
      rcases ih later.length (Nat.lt_succ_self _)
          (show later.length + (drift + 1) ≠ 0 by omega)
          (by
            rcases within with ends | ⟨-, none⟩
            · exact Or.inl ends
            · rw [beq_self_eq_true, Bool.true_or] at none
              cases none)
          suffixLater before rfl with
        ⟨taken, after, final, short, shown, parsed⟩
      refine ⟨taken + 1, after, final, by omega, shown, ?_⟩
      intro behind fuel
      have step := parsed behind fuel
      rw [show later.length + (drift + 1) = later.length + 1 + drift by
        omega] at step
      rw [feed, List.cons_append,
        show later.length + 1 + 2 + fuel = later.length + 2 + fuel + 1 by
          omega,
        bodyLoop_lineFeed inLine (by omega), step]
      congr 2
      omega
    · rw [next_of_inLine inLine feed, ← placeOf_lineByte,
        beq_false_of_ne feed, Bool.false_or] at within
      by_cases last : later.length + drift = 0
      · refine ⟨1, lineByte exchange c, state, by omega, before, ?_⟩
        intro behind fuel
        rw [List.cons_append,
          show later.length + 1 + drift = 1 by omega,
          show later.length + 1 + 2 + fuel = later.length + 2 + fuel + 1 by
            omega]
        exact
          bodyLoop_lineLast inLine feed (later.length + 2 + fuel) state count _
      · have stillLine : (placeOf (lineByte exchange c)).inLine = true := by
          rw [placeOf_lineByte, inLine_lineByte]
          exact inLine
        rcases ih later.length (Nat.lt_succ_self _)
            last within suffixLater before rfl with
          ⟨taken, after, final, short, shown, parsed⟩
        refine ⟨taken + 1, after, final, by omega, shown, ?_⟩
        intro behind fuel
        have step := parsed behind (fuel + 1)
        rw [List.cons_append,
          show later.length + 1 + drift = later.length + drift + 1 by omega,
          show later.length + 1 + 2 + fuel = later.length + 2 + fuel + 1 by
            omega,
          bodyLoop_lineByte inLine feed last]
        refine step.trans ?_
        congr 2
        omega
  · rcases body_of_running ended inLine with ⟨inBody, remains⟩
    have placeBody : (placeOf exchange).state = .body := inBody
    have drifts (short : rest.length < exchange.bodyRemain) : drift = 0 := by
      rcases within with ends | ⟨none, -⟩
      · rw [(bodyEnds_of_lt placeBody short).1] at ends
        cases ends
      · exact none
    by_cases fits : rest.length + drift ≤ exchange.bodyRemain
    · have none : drift = 0 := by
        by_contra some
        exact some (drifts (by omega))
      rw [none, Nat.add_zero] at fits
      refine
        ⟨rest.length, bodyTaken (callback state exchange rest).2.1
            rest.length,
          (callback state exchange rest).2.2, Nat.le_refl _,
          shows state exchange rest before suffix.isInfix, ?_⟩
      intro behind fuel
      have whole :
          (rest ++ behind).take (min rest.length exchange.bodyRemain) =
            rest := by
        rw [Nat.min_eq_left fits]
        exact List.take_left' rfl
      have piece :=
        bodyLoop_piece inBody remains rest.length (rest ++ behind)
          (by rw [List.length_append]; omega)
          (by rw [whole]; exact obliging.eq state exchange rest)
          (rest.length + 1 + fuel) count
      rw [none, Nat.add_zero,
        show rest.length + 2 + fuel = rest.length + 1 + fuel + 1 by omega]
      exact piece.trans (if_pos fits)
    · have inside : exchange.bodyRemain ≤ rest.length := by
        by_contra short
        have none := drifts (by omega)
        omega
      have laterLength :
          (rest.drop exchange.bodyRemain).length =
            rest.length - exchange.bodyRemain :=
        List.length_drop
      let data := rest.take exchange.bodyRemain
      rcases ends_of_piece obliging inBody remains inside state with
        ⟨ends, lines⟩
      rw [ends, lines] at within
      have infix_data : data <:+: buffer :=
        (List.take_prefix _ _).isInfix.trans suffix.isInfix
      rcases ih (rest.drop exchange.bodyRemain).length
          (by omega)
          (show (rest.drop exchange.bodyRemain).length + drift ≠ 0 by omega)
          within ((List.drop_suffix _ _).trans suffix)
          (shows state exchange data before infix_data) rfl with
        ⟨taken, after, final, short, shown, parsed⟩
      refine ⟨exchange.bodyRemain + taken, after, final, by omega, shown, ?_⟩
      intro behind fuel
      have front :
          (rest ++ behind).take
              (min (rest.length + drift) exchange.bodyRemain) =
            data := by
        rw [Nat.min_eq_right (by omega)]
        exact List.take_append_of_le_length inside
      have back :
          (rest ++ behind).drop exchange.bodyRemain =
            rest.drop exchange.bodyRemain ++ behind :=
        List.drop_append_of_le_length inside
      have piece :=
        bodyLoop_piece inBody remains (rest.length + drift)
          (rest ++ behind)
          (by rw [List.length_append]; omega)
          (by rw [front]; exact obliging.eq state exchange data)
          (rest.length + 1 + fuel) count
      have step := parsed behind (exchange.bodyRemain - 1 + fuel)
      rw [show
          (rest.drop exchange.bodyRemain).length + drift =
            rest.length + drift - exchange.bodyRemain by
          omega,
        show
          (rest.drop exchange.bodyRemain).length + 2 +
              (exchange.bodyRemain - 1 + fuel) =
            rest.length + 1 + fuel by
          omega] at step
      rw [show rest.length + 2 + fuel = rest.length + 1 + fuel + 1 by omega]
      refine piece.trans ?_
      rw [if_neg fits, back, step]
      congr 2
      omega

/--
From the middle of a read that the body does not end in, with a line feed in or
to come: the parser goes on past the end.
-/
theorem bodyLoop_beyond (obliging : Obliging callback) {state : σ}
    {exchange : HttpExchange}
    {drift count : Nat}
    {rest : Bytes}
    (open_end : (placeOf exchange).bodyEnds rest = false)
    (fed : 0 < drift ∨ (placeOf exchange).lineEnds rest = true)
    (fuel : Nat) :
    ∃ after later,
      bodyLoop callback fuel state exchange (rest.length + drift) count
          rest =
        (.fault after, later) := by
  induction size : rest.length using Nat.strong_induction_on
    generalizing fuel state exchange drift count rest with
  | _ length ih =>
  subst size
  rcases fuel with _ | fuel
  · exact ⟨exchange, state, rfl⟩
  by_cases ended : (placeOf exchange).finished = true
  · rw [bodyEnds_of_over ended] at open_end
    cases open_end
  rw [Bool.not_eq_true] at ended
  by_cases inLine : (placeOf exchange).inLine = true
  · rcases rest with _ | ⟨c, later⟩
    · exact ⟨exchange, state, bodyLoop_lineNil inLine (fuel + 1) state count⟩
    rw [bodyEnds_cons ended] at open_end
    rw [BodyPlace.lineEnds, inLine, Bool.true_and] at fed
    rw [List.length_cons]
    by_cases feed : c = lf
    · rw [feed, next_of_lf inLine, ← placeOf_lineFed] at open_end
      rw [feed, bodyLoop_lineFeed inLine (by omega) fuel,
        show later.length + 1 + drift = later.length + (drift + 1) by omega]
      exact
        ih later.length (Nat.lt_succ_self _) open_end
          (Or.inl (Nat.succ_pos drift)) fuel rfl
    · rw [next_of_inLine inLine feed, ← placeOf_lineByte] at open_end fed
      rw [beq_false_of_ne feed, Bool.false_or] at fed
      have more : later.length + drift ≠ 0 := by
        rcases fed with drifted | ends
        · omega
        · rcases later with _ | ⟨d, others⟩
          · cases ends
          · rw [List.length_cons]
            omega
      rw [show later.length + 1 + drift = later.length + drift + 1 by
          omega,
        bodyLoop_lineByte inLine feed more fuel]
      exact ih later.length (Nat.lt_succ_self _) open_end fed (fuel + 1) rfl
  · rcases body_of_running ended inLine with ⟨inBody, remains⟩
    have placeBody : (placeOf exchange).state = .body := inBody
    by_cases inside :
        exchange.bodyRemain ≤ rest.length ∧
          exchange.bodyRemain < rest.length + drift
    · rcases inside with ⟨inside, more⟩
      have laterLength :
          (rest.drop exchange.bodyRemain).length =
            rest.length - exchange.bodyRemain :=
        List.length_drop
      rcases ends_of_piece obliging inBody remains inside state with
        ⟨ends, lines⟩
      rw [ends] at open_end
      rw [lines] at fed
      have piece :=
        bodyLoop_whole obliging inBody remains rest drift inside more
          fuel state count
      rcases
          ih (rest.drop exchange.bodyRemain).length
            (by omega) open_end fed fuel rfl
        with ⟨after, final, beyond⟩
      exact ⟨after, final, piece.trans beyond⟩
    · have short :
          rest.length < min (rest.length + drift) exchange.bodyRemain := by
        rcases fed with drifted | ends
        · omega
        · exfalso
          by_cases fits : rest.length < exchange.bodyRemain
          · rw [(bodyEnds_of_lt placeBody fits).2] at ends
            cases ends
          · have whole : rest.length = exchange.bodyRemain := by omega
            have some : rest ≠ [] := by
              intro empty
              rw [empty] at whole
              exact remains whole.symm
            have lines := lineEnds_taken placeBody some (Nat.le_of_eq whole) []
            rw [List.append_nil, ends] at lines
            cases lines
      exact
        ⟨exchange, state,
          bodyLoop_unreadable inBody remains short (fuel + 1) state count⟩

end Loop

/-! ## The count of what is left -/

/--
The parser's `len` is the length of the read less what was taken, and more by
the line feeds it was not decremented for: no decrement went below zero.
-/
def Counted (length : Nat) (cursor : BodyCursor) : Prop :=
  ∃ feeds,
    feeds ≤ cursor.count ∧ cursor.len + cursor.count = length + feeds

/-- A step of the parser that decrements `len` within its bounds. -/
def StepCounted (length : Nat) : BodyStep → Prop
  | .stopped _ cursor => Counted length cursor
  | .fault _ => True

theorem chunkHeaderLoop_counted {exchange : HttpExchange}
    {length len count : Nat}
    (left : 0 < len)
    (counted : Counted length { len := len, count := count, memory := [] }) :
    StepCounted length (chunkHeaderLoop exchange len count memory) := by
  induction memory generalizing exchange len count with
  | nil => exact True.intro
  | cons c rest ih =>
      rcases counted with ⟨feeds, few, total⟩
      dsimp only at few total
      rw [chunkHeaderLoop]
      split
      · refine ⟨feeds + 1, Nat.succ_le_succ few, ?_⟩
        dsimp only
        omega
      · dsimp only
        split
        · exact ⟨feeds, by dsimp only; omega, by dsimp only; omega⟩
        · apply ih
          · omega
          · exact ⟨feeds, by dsimp only; omega, by dsimp only; omega⟩

theorem chunkTrailerLoop_counted {exchange : HttpExchange}
    {length len count : Nat}
    (left : 0 < len)
    (counted : Counted length { len := len, count := count, memory := [] }) :
    StepCounted length (chunkTrailerLoop exchange len count memory) := by
  induction memory generalizing len count with
  | nil => exact True.intro
  | cons c rest ih =>
      rcases counted with ⟨feeds, few, total⟩
      dsimp only at few total
      rw [chunkTrailerLoop]
      split
      · refine ⟨feeds + 1, Nat.succ_le_succ few, ?_⟩
        dsimp only
        omega
      · split
        · exact ⟨feeds, by dsimp only; omega, by dsimp only; omega⟩
        · apply ih
          · omega
          · exact ⟨feeds, by dsimp only; omega, by dsimp only; omega⟩

section Turn

variable
    {σ : Type}
    {callback : BodyCallback σ}
    {length : Nat}

theorem counted_of_bodyResume {state : σ} {step : BodyStep}
    (counted : StepCounted length step)
    {next : BodyState σ}
    (goesOn : bodyResume state step = .again next) :
    0 < next.cursor.len ∧ Counted length next.cursor := by
  cases step with
  | stopped exchange cursor =>
      rw [bodyResume] at goesOn
      split at goesOn
      · cases goesOn
        exact ⟨Nat.pos_of_ne_zero ‹_›, counted⟩
      · cases goesOn
  | fault exchange => cases goesOn

/-- A turn of the parser keeps the count. -/
theorem bodyTurn_counted {locals next : BodyState σ}
    (left : 0 < locals.cursor.len)
    (counted : Counted length locals.cursor)
    (goesOn : bodyTurn callback locals = .again next) :
    0 < next.cursor.len ∧ Counted length next.cursor := by
  unfold bodyTurn at goesOn
  dsimp only at goesOn
  split at goesOn
  · exact counted_of_bodyResume (chunkHeaderLoop_counted left counted) goesOn
  · split at goesOn
    · apply counted_of_bodyResume _ goesOn
      exact counted
    · unfold bodyBytesTurn at goesOn
      dsimp only at goesOn
      split at goesOn
      · cases goesOn
      · split at goesOn
        · apply counted_of_bodyResume _ goesOn
          rcases counted with ⟨feeds, few, total⟩
          exact ⟨feeds, by dsimp only; omega, by dsimp only; omega⟩
        · cases goesOn
  · exact counted_of_bodyResume (chunkTrailerLoop_counted left counted) goesOn
  · cases goesOn

end Turn

/-! ## The body callback of the application -/

/-- The calls of a callback show it nothing. -/
theorem shown_runCalls (exchange : HttpExchange) (state : ReadState)
    (calls : List AppCall)
    (event : Shown) :
    .shown event ∈ (runCalls exchange state calls).2.effects ↔
      .shown event ∈ state.effects := by
  induction calls generalizing exchange state with
  | nil => rfl
  | cons call calls ih =>
      rw [runCalls, ih]
      unfold runCall
      dsimp only
      split
      · simp
      · rfl

/-- Every piece of the body that was shown since is one of the buffer's. -/
def ShownWithin (buffer : Bytes) (before after : ReadState) : Prop :=
  ∀ view data,
    .shown (.body view data) ∈ after.effects →
      .shown (.body view data) ∈ before.effects ∨ data <:+: buffer

section Application

variable
    {protoData : HttpProtoData}
    {callback : RequestView → Bytes → Reaction}

theorem bodyCb_eq (supplied : protoData.bodyCb = some callback) :
    bodyCb protoData =
      fun state exchange data =>
        let view := viewOf exchange
        react exchange state (.body view data) (callback view data) := by
  unfold bodyCb
  rw [supplied]

/-- The callback takes every piece of a body. -/
structure Obliges
    (protoData : HttpProtoData)
    (callback : RequestView → Bytes → Reaction) :
    Prop where
  supplied : protoData.bodyCb = some callback
  okay : ∀ view data, (callback view data).status = .okay

theorem bodyCb_obliging (obliges : Obliges protoData callback) :
    Obliging (bodyCb protoData) := by
  rw [bodyCb_eq obliges.supplied]
  constructor
  · intro state exchange data
    exact obliges.okay _ _
  · intro state exchange data
    exact framed_runCalls _ _ _

theorem bodyCb_shows (supplied : protoData.bodyCb = some callback)
    {buffer : Bytes}
    {before state : ReadState}
    (earlier : ShownWithin buffer before state)
    (exchange : HttpExchange)
    {data : Bytes}
    (piece : data <:+: buffer) :
    ShownWithin buffer before (bodyCb protoData state exchange data).2.2 := by
  intro view shown member
  rw [bodyCb_eq supplied] at member
  unfold react at member
  rw [shown_runCalls, ReadState.emit, List.mem_append,
    List.mem_singleton] at member
  rcases member with old | new
  · exact earlier view shown old
  · cases new
    exact Or.inr piece

end Application

/-! ## The read -/

/-- The locals of `ymo_parse_http_body` when it is called. -/
def bodyStart {σ : Type} (state : σ) (exchange : HttpExchange) (memory : Bytes)
    (len : Nat) :
    BodyState σ where
  state := state
  exchange := exchange
  cursor := { len := len, count := 0, memory := memory }

/--
The body parser stays within its read, whatever lies behind it: its `len` is
never decremented below zero, what it returns and leaves behind depends on the
read only, it takes no more than the read, so that neither does `len -= n` in
its callers, and it shows the callback pieces of the read.
-/
structure StaysWithin
    (protoData : HttpProtoData)
    (exchange : HttpExchange)
    (buffer : Bytes) : Prop where
  counted :
    ∀ state behind locals,
      Reaches (bodyTurn (bodyCb protoData))
          (bodyStart state exchange (buffer ++ behind) buffer.length)
          locals →
        0 < locals.cursor.len ∧ Counted buffer.length locals.cursor
  parsed :
    ∀ state, ∃ taken after later,
      taken ≤ buffer.length ∧ ShownWithin buffer state later ∧
        ∀ behind,
          ymoParseHttpBody (bodyCb protoData) state exchange
              (buffer ++ behind) buffer.length =
            (.took taken after, later)

section Read

variable
    {protoData : HttpProtoData}
    {callback : RequestView → Bytes → Reaction}
    {exchange : HttpExchange}
    {buffer : Bytes}

/-- The count is kept whatever the read holds. -/
theorem counted_of_reaches
    (nonempty : buffer ≠ [])
    {state : ReadState}
    {locals : BodyState ReadState}
    (reaches :
      Reaches (bodyTurn (bodyCb protoData))
        (bodyStart state exchange memory buffer.length) locals) :
    0 < locals.cursor.len ∧ Counted buffer.length locals.cursor := by
  have preserved :
      ∀ locals next : BodyState ReadState,
        0 < locals.cursor.len ∧ Counted buffer.length locals.cursor →
          bodyTurn (bodyCb protoData) locals = .again next →
            0 < next.cursor.len ∧ Counted buffer.length next.cursor := by
    intro locals next held goesOn
    exact bodyTurn_counted held.1 held.2 goesOn
  apply reaches.invariant preserved
  exact ⟨List.length_pos_of_ne_nil nonempty, 0, Nat.le_refl 0, rfl⟩

theorem parsed_within
    (obliges : Obliges protoData callback)
    (nonempty : buffer ≠ [])
    (condition :
      (placeOf exchange).bodyEnds buffer = true ∨
        (placeOf exchange).lineEnds buffer = false)
    (state : ReadState) :
    ∃ taken after later,
      taken ≤ buffer.length ∧ ShownWithin buffer state later ∧
        ∀ behind,
          ymoParseHttpBody (bodyCb protoData) state exchange
              (buffer ++ behind) buffer.length =
            (.took taken after, later) := by
  have within :
      ∃ taken after later,
        taken ≤ buffer.length ∧ ShownWithin buffer state later ∧
          ∀ behind fuel,
            bodyLoop (bodyCb protoData) (buffer.length + 2 + fuel) state
                exchange (buffer.length + 0) 0 (buffer ++ behind) =
              (.took (0 + taken) after, later) := by
    apply bodyLoop_within (bodyCb_obliging obliges)
    · intro state exchange data earlier piece
      exact bodyCb_shows obliges.supplied earlier exchange piece
    · exact Nat.pos_iff_ne_zero.mp (List.length_pos_of_ne_nil nonempty)
    · exact condition.imp_right fun none => ⟨rfl, none⟩
    · exact List.suffix_refl buffer
    · intro view data shown
      exact Or.inl shown
  rcases within with ⟨taken, after, later, short, shown, parsed⟩
  refine ⟨taken, after, later, short, shown, ?_⟩
  intro behind
  have whole := parsed behind (buffer.length + 2 * behind.length + 1)
  rw [Nat.zero_add] at whole
  unfold ymoParseHttpBody
  rw [List.length_append,
    show
      2 * (buffer.length + behind.length) + 3 =
        buffer.length + 2 + (buffer.length + 2 * behind.length + 1) by
      omega]
  exact whole

/-- With a line that ends and a body that does not, the end is passed. -/
theorem parsed_beyond (obliges : Obliges protoData callback)
    (open_end : (placeOf exchange).bodyEnds buffer = false)
    (fed : (placeOf exchange).lineEnds buffer = true)
    (state : ReadState) :
    ∃ after later,
      ymoParseHttpBody (bodyCb protoData) state exchange buffer
          buffer.length =
        (.fault after, later) := by
  have beyond :
      ∃ after later,
        bodyLoop (bodyCb protoData) (2 * buffer.length + 3) state exchange
            (buffer.length + 0) 0 buffer =
          (.fault after, later) :=
    bodyLoop_beyond (bodyCb_obliging obliges) open_end (Or.inr fed) _
  exact beyond

theorem not_staysWithin (obliges : Obliges protoData callback)
    (open_end : (placeOf exchange).bodyEnds buffer = false)
    (fed : (placeOf exchange).lineEnds buffer = true) :
    ¬ StaysWithin protoData exchange buffer := by
  intro within
  let state : ReadState := { error := false, effects := [] }
  rcases within.parsed state with ⟨taken, after, later, -, -, parsed⟩
  rcases parsed_beyond obliges open_end fed state with
    ⟨faulted, final, beyond⟩
  have took := parsed []
  rw [List.append_nil, beyond] at took
  cases took

/--
The body parser stays within its read exactly when the body ends there or no
line of the chunked coding does.
-/
theorem staysWithin_iff (supplied : protoData.bodyCb = some callback)
    (okay : ∀ view data, (callback view data).status = .okay)
    (exchange : HttpExchange)
    (nonempty : buffer ≠ []) :
    StaysWithin protoData exchange buffer ↔
      (placeOf exchange).bodyEnds buffer = true ∨
        (placeOf exchange).lineEnds buffer = false := by
  constructor
  · intro within
    by_contra neither
    rw [not_or, Bool.not_eq_true, Bool.not_eq_false] at neither
    exact not_staysWithin ⟨supplied, okay⟩ neither.1 neither.2 within
  · intro condition
    constructor
    · intro state behind locals reaches
      exact counted_of_reaches nonempty reaches
    · intro state
      exact parsed_within ⟨supplied, okay⟩ nonempty condition state

end Read

/-- An application that takes every piece of a body. -/
def takingApplication : HttpProtoData where
  headerCb := none
  bodyCb := some fun _ _ => { calls := [], status := .okay }
  httpCb := fun _ => { calls := [], status := .okay }
  upgradeHandler := []
  stray := []

/-- The head of a request whose body is chunked. -/
def chunkedHead : Bytes :=
  bytes "POST / HTTP/1.1\r\nTransfer-Encoding: chunked\r\n\r\n"

/-- The session's exchange when the head was read. -/
def afterHead : Option HttpExchange :=
  (ymoProtoHttpRead takingApplication false none chunkedHead
    chunkedHead.length).exchange

/-- A whole body, and the start of another request behind it. -/
theorem staysWithin_iff_chunk :
    StaysWithin takingApplication (readyExchange afterHead)
        (bytes "1\r\nx\r\n0\r\n\r\nGET ") ↔
      (placeOf (readyExchange afterHead)).bodyEnds
          (bytes "1\r\nx\r\n0\r\n\r\nGET ") =
        true ∨
        (placeOf (readyExchange afterHead)).lineEnds
            (bytes "1\r\nx\r\n0\r\n\r\nGET ") =
          false :=
  staysWithin_iff rfl (fun _ _ => rfl) (readyExchange afterHead) (by decide)

/-- A read that ends with the line of a chunk size. -/
theorem not_staysWithin_chunkSize :
    Reachable takingApplication afterHead ∧
      (readyExchange afterHead).state = .bodyChunkHeader ∧
        ¬ StaysWithin takingApplication (readyExchange afterHead)
          (bytes "5\r\n") := by
  refine ⟨.read .fresh false (by decide) (by decide), by decide, ?_⟩
  exact not_staysWithin ⟨rfl, fun _ _ => rfl⟩ (by decide) (by decide)

end Yimmo.Http.BodyBounds
