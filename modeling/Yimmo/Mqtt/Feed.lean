import Yimmo.Mqtt.RemainingLength

/-!
# The reader as a machine on bytes

`feed` takes one byte after the other, so that what it does to a string does not
depend on how the string is cut into reads.

The read callback does the same where no read ends inside a remaining length;
where one does, the reader looks behind the end of the read (`readCbs_spec`).
-/

namespace Yimmo.Mqtt.Feed

open Yimmo.Core.StatusCode
open Yimmo.Lib.TurnLoop
open Yimmo.Lib.Varint
open Yimmo.Mqtt.Session
open Yimmo.Mqtt.RemainingLength

variable
    {session : MqttSession}
    {buffer : Bytes}
    {data : Bytes}
    {digits : Bytes}

/-! ## The machine -/

/-- Goes on with what a parser returned. -/
def bind {Value Result : Type} (parsed : Parsed Value)
    (next : Value → Parsed Result) :
    Parsed Result :=
  match parsed with
  | .okay value => next value
  | .failed errno => .failed errno
  | .fault => .fault

section

variable {Value Result Other : Type}

@[simp]
theorem bind_okay (value : Value) (next : Value → Parsed Result) :
    bind (.okay value) next = next value :=
  rfl

@[simp]
theorem bind_failed (errno : Option Errno) (next : Value → Parsed Result) :
    bind (.failed errno) next = .failed errno :=
  rfl

theorem bind_assoc (parsed : Parsed Value) (next : Value → Parsed Other)
    (after : Other → Parsed Result) :
    bind (bind parsed next) after =
      bind parsed fun value => bind (next value) after := by
  cases parsed with
  | okay value => rfl
  | failed errno => rfl
  | fault => rfl

end

/-- A message that has arrived is parsed. -/
def parsed (session : MqttSession) : Parsed MqttSession :=
  bind (mqttParseVarhdr session) fun result =>
    bind (mqttParsePayload result.1 result.2) fun session =>
      .okay
        { session with
          msgIn := { session.msgIn with parseState := .complete } }

/-- A message that has arrived is parsed and acted on. -/
def finish (session : MqttSession) : Parsed MqttSession :=
  bind (parsed session) fun later => .okay (mqttComplete later)

/-- The first byte of a packet. -/
def feedControl (session : MqttSession) (c : UInt8) : Parsed MqttSession :=
  bind (ymoMqttParseFixedCtrlpack session [c]) fun result => .okay result.2

/-- A byte of the remaining length. -/
def feedDigit (session : MqttSession) (c : UInt8) : Parsed MqttSession :=
  if 128 ≤ c.toNat then
    let later := counted session (c.toNat % 128) 1
    if later.msgIn.remain > lenMaxMult then .failed (some .einval)
    else .okay later
  else .okay (mqttParseVarhdrInit (counted session c.toNat 1))

/-- The session after some bytes of the message. -/
def stored (session : MqttSession) (data : Bytes) : MqttSession :=
  { session with
    msgIn :=
      { session.msgIn with
        varHdr := session.msgIn.varHdr ++ data
        remain := session.msgIn.remain - data.length } }

/-- A byte of the message. -/
def feedBody (session : MqttSession) (c : UInt8) : Parsed MqttSession :=
  let later := stored session [c]
  if later.msgIn.remain = 0 then finish later else .okay later

/-- One byte.  A message without any is finished when the next packet begins. -/
def feed (session : MqttSession) (c : UInt8) : Parsed MqttSession :=
  match session.msgIn.parseState with
  | .fixedLength => feedDigit session c
  | .varhdrPayload =>
      if session.msgIn.remain = 0 then
        bind (finish session) fun later => feedControl later c
      else feedBody session c
  | _ => feedControl session c

/-- Some bytes, one after the other. -/
def feedAll (session : MqttSession) : Bytes → Parsed MqttSession
  | [] => .okay session
  | c :: rest => bind (feed session c) fun later => feedAll later rest

theorem feedAll_append (session : MqttSession) (front back : Bytes) :
    feedAll session (front ++ back) =
      bind (feedAll session front) fun later => feedAll later back := by
  induction front generalizing session with
  | nil => rfl
  | cons c front ih =>
      rw [List.cons_append, feedAll, feedAll, bind_assoc]
      congr 1
      funext later
      exact ih later

/-! ## Where reads may end -/

/-- Some bytes of a remaining length have arrived, and not all of them. -/
def MidLength (session : MqttSession) : Prop :=
  session.msgIn.parseState = .fixedLength ∧ session.msgIn.remain ≠ 1

/-- A read may begin here. -/
structure AtRest (session : MqttSession) : Prop where
  incomplete : session.msgIn.parseState ≠ .complete
  length : session.msgIn.parseState = .fixedLength → session.msgIn.remain = 1

theorem atRest_iff {session : MqttSession} :
    AtRest session ↔
      session.msgIn.parseState ≠ .complete ∧ ¬MidLength session := by
  constructor
  · rintro ⟨incomplete, length⟩
    exact ⟨incomplete, fun mid => mid.2 (length mid.1)⟩
  · rintro ⟨incomplete, notMid⟩
    refine ⟨incomplete, fun state => ?_⟩
    by_contra other
    exact notMid ⟨state, other⟩

theorem parseState_mqttComplete (session : MqttSession) :
    (mqttComplete session).msgIn.parseState = .fixedCtrlpack := by
  unfold mqttComplete
  split
  · rfl
  · rfl

theorem atRest_mqttComplete (session : MqttSession) :
    AtRest (mqttComplete session) := by
  have state := parseState_mqttComplete session
  constructor
  · rw [state]
    decide
  · intro other
    rw [state] at other
    exact absurd other (by decide)

theorem bind_eq_okay {Value Result : Type} {value : Parsed Value}
    {next : Value → Parsed Result}
    {result : Result}
    (bound : bind value next = .okay result) :
    ∃ between, value = .okay between ∧ next between = .okay result := by
  cases value with
  | okay between => exact ⟨between, rfl, bound⟩
  | failed errno => cases bound
  | fault => cases bound

/-- A finished message leaves the session where a packet begins. -/
theorem parseState_finish {session later : MqttSession}
    (finished : finish session = .okay later) :
    later.msgIn.parseState = .fixedCtrlpack := by
  rcases bind_eq_okay finished with ⟨between, _, same⟩
  cases same
  exact parseState_mqttComplete between

theorem feed_of_control (state : session.msgIn.parseState = .fixedCtrlpack)
    (c : UInt8) :
    feed session c = feedControl session c := by
  rw [feed, state]

theorem feed_of_length (state : session.msgIn.parseState = .fixedLength)
    (c : UInt8) :
    feed session c = feedDigit session c := by
  rw [feed, state]

/-! ## The parts of a packet -/

/-- A number that the multiplier lets through is counted. -/
theorem feedAll_field {value : Nat} (field : Field digits value)
    (state : session.msgIn.parseState = .fixedLength)
    (room : Room session.msgIn.remain digits.length)
    (rest : Bytes) :
    feedAll session (digits ++ rest) =
      feedAll
        (mqttParseVarhdrInit (counted session value digits.length))
        rest := by
  induction field generalizing session with
  | @last c ends =>
      rw [List.singleton_append, feedAll, feed_of_length state, feedDigit,
        if_neg (Nat.not_le.mpr ends)]
      rfl
  | @more c digits value continues field ih =>
      have later :
          Room (counted session (c.toNat % 128) 1).msgIn.remain
            digits.length :=
        room.later
      have below :
          (counted session (c.toNat % 128) 1).msgIn.remain ≤ lenMaxMult := by
        have next := later 0 (List.length_pos_iff.mpr field.ne_nil)
        rwa [Nat.pow_zero, Nat.mul_one] at next
      have laterState :
          (counted session (c.toNat % 128) 1).msgIn.parseState =
            .fixedLength :=
        state
      rw [List.cons_append, feedAll, feed_of_length state, feedDigit,
        if_pos continues, if_neg (Nat.not_lt.mpr below), bind_okay,
        ih laterState later, counted_counted,
        List.length_cons, Nat.pow_one, Nat.add_comm 1]

/-- Digits that all continue are counted, up to three of them. -/
theorem feedAll_continues (continues : Continues digits)
    (state : session.msgIn.parseState = .fixedLength)
    (room : Room session.msgIn.remain (digits.length + 1))
    (rest : Bytes) :
    ∃ value,
      feedAll session (digits ++ rest) =
        feedAll (counted session value digits.length) rest := by
  induction digits generalizing session with
  | nil =>
      refine ⟨0, ?_⟩
      simp only [counted, List.nil_append, List.length_nil, Nat.zero_mul,
        Nat.add_zero, Nat.pow_zero, Nat.mul_one]
  | cons c digits ih =>
      have later :
          Room (counted session (c.toNat % 128) 1).msgIn.remain
            (digits.length + 1) :=
        room.later
      have others : Continues digits :=
        fun other member => continues other (List.mem_cons_of_mem c member)
      have laterState :
          (counted session (c.toNat % 128) 1).msgIn.parseState =
            .fixedLength :=
        state
      rcases ih others laterState later with
        ⟨value, goesOn⟩
      refine ⟨c.toNat % 128 + 128 ^ 1 * value, ?_⟩
      rw [List.cons_append, feedAll, feed_of_length state, feedDigit,
        if_pos (continues c List.mem_cons_self),
        if_neg (Nat.not_lt.mpr later.here), bind_okay, goesOn,
        counted_counted, List.length_cons, Nat.add_comm 1]

/-- A fourth digit that continues is refused. -/
theorem feedAll_overlong (continues : Continues digits)
    (four : digits.length = 4)
    (state : session.msgIn.parseState = .fixedLength)
    (first : session.msgIn.remain = 1)
    (rest : Bytes) :
    feedAll session (digits ++ rest) = .failed (some .einval) := by
  obtain ⟨front, last, split⟩ :
      ∃ front last, digits = front ++ [last] := by
    refine ⟨digits.dropLast, digits.getLast ?_, ?_⟩
    · intro empty
      rw [empty] at four
      exact absurd four (by decide)
    · exact (List.dropLast_append_getLast _).symm
  have three : front.length = 3 := by
    rw [split, List.length_append, List.length_singleton] at four
    omega
  have room : Room session.msgIn.remain (front.length + 1) := by
    rw [first]
    exact room_one (by omega)
  have frontContinues : Continues front := by
    intro c member
    apply continues
    rw [split]
    exact List.mem_append_left _ member
  rcases feedAll_continues frontContinues state room (last :: rest) with
    ⟨value, goesOn⟩
  have lastContinues : 128 ≤ last.toNat := by
    apply continues
    rw [split]
    exact List.mem_append_right _ List.mem_cons_self
  have above :
      (counted (counted session value front.length) (last.toNat % 128)
            1).msgIn.remain >
        lenMaxMult := by
    show session.msgIn.remain * 128 ^ front.length * 128 ^ 1 > lenMaxMult
    rw [first, three]
    decide
  have lengthState :
      (counted session value front.length).msgIn.parseState = .fixedLength :=
    state
  rw [split, List.append_assoc, List.singleton_append, goesOn, feedAll,
    feed_of_length lengthState, feedDigit, if_pos lastContinues,
    if_pos above, bind_failed]

theorem stored_stored (session : MqttSession) (front back : Bytes) :
    stored (stored session front) back = stored session (front ++ back) := by
  simp only [stored, List.append_assoc, List.length_append, Nat.sub_sub]

theorem feed_of_body (state : session.msgIn.parseState = .varhdrPayload)
    (positive : 0 < session.msgIn.remain)
    (c : UInt8) :
    feed session c = feedBody session c := by
  rw [feed, state]
  exact if_neg (Nat.ne_of_gt positive)

/-- Less than the message is stored. -/
theorem feedAll_part (state : session.msgIn.parseState = .varhdrPayload)
    (part : data.length < session.msgIn.remain)
    (rest : Bytes) :
    feedAll session (data ++ rest) = feedAll (stored session data) rest := by
  induction data generalizing session with
  | nil =>
      simp only [stored, List.nil_append, List.append_nil, List.length_nil,
        Nat.sub_zero]
  | cons c data ih =>
      rw [List.length_cons] at part
      have remain :
          (stored session [c]).msgIn.remain = session.msgIn.remain - 1 :=
        rfl
      have laterState :
          (stored session [c]).msgIn.parseState = .varhdrPayload :=
        state
      rw [List.cons_append, feedAll, feed_of_body state (by omega),
        feedBody, if_neg (by omega), bind_okay,
        ih laterState (by omega), stored_stored,
        List.singleton_append]

/-- All of the message is finished. -/
theorem feedAll_whole (state : session.msgIn.parseState = .varhdrPayload)
    (nonempty : data ≠ [])
    (whole : data.length = session.msgIn.remain)
    (rest : Bytes) :
    feedAll session (data ++ rest) =
      bind (finish (stored session data)) fun later => feedAll later rest := by
  obtain ⟨front, last, split⟩ :
      ∃ front last, data = front ++ [last] :=
    ⟨data.dropLast, data.getLast nonempty,
      (List.dropLast_append_getLast nonempty).symm⟩
  have count : front.length + 1 = session.msgIn.remain := by
    rw [← whole, split, List.length_append, List.length_singleton]
  have remain :
      (stored session front).msgIn.remain =
        session.msgIn.remain - front.length :=
    rfl
  have ends : (stored (stored session front) [last]).msgIn.remain = 0 := by
    show session.msgIn.remain - front.length - 1 = 0
    omega
  have storedState :
      (stored session front).msgIn.parseState = .varhdrPayload :=
    state
  rw [split, List.append_assoc, List.singleton_append,
    feedAll_part state (by omega), feedAll,
    feed_of_body storedState (by omega), feedBody, if_pos ends,
    stored_stored]

/-- A message without bytes is finished when the next packet begins. -/
theorem feedAll_empty (state : session.msgIn.parseState = .varhdrPayload)
    (empty : session.msgIn.remain = 0)
    (nonempty : data ≠ []) :
    feedAll session data =
      bind (finish session) fun later => feedAll later data := by
  obtain ⟨c, rest, rfl⟩ := List.exists_cons_of_ne_nil nonempty
  rw [feedAll, feed, state]
  dsimp only
  rw [if_pos empty, bind_assoc]
  cases finished : finish session with
  | okay later =>
      rw [bind_okay, bind_okay, feedAll,
        feed_of_control (parseState_finish finished)]
  | failed errno => rfl
  | fault => rfl

/-! ## Parts of a packet that are in front -/

/-- The first byte of a packet is accepted. -/
theorem begins_of_feedControl {session later : MqttSession}
    (new : session.msgIn.msgLen = 0)
    {c : UInt8}
    (fed : feedControl session c = .okay later) :
    Begins later := by
  rcases bind_eq_okay fed with ⟨result, control, same⟩
  cases same
  unfold ymoMqttParseFixedCtrlpack at control
  dsimp only at control
  split at control
  · cases control
  · cases control
    exact ⟨rfl, rfl, new⟩

/-- No remaining length is begun by a part of the message. -/
theorem feedAll_message_not_mid {session later : MqttSession}
    (state : session.msgIn.parseState = .varhdrPayload)
    (inside : data.length ≤ session.msgIn.remain)
    (fed : feedAll session data = .okay later) :
    ¬MidLength later := by
  rintro ⟨length, _⟩
  by_cases part : data.length < session.msgIn.remain
  · have stores := feedAll_part state part []
    rw [List.append_nil, fed] at stores
    cases stores
    rw [show (stored session data).msgIn.parseState = _ from state] at length
    cases length
  · by_cases empty : data = []
    · subst empty
      cases fed
      rw [state] at length
      cases length
    · have all : data.length = session.msgIn.remain := by omega
      have finished := feedAll_whole state empty all []
      rw [List.append_nil, fed] at finished
      rcases bind_eq_okay finished.symm with ⟨between, done, same⟩
      cases same
      rw [parseState_finish done] at length
      cases length

/-- A part of a packet that is taken ends inside the remaining length just where it
has one of its bytes and not all of them. -/
theorem midLength_of_prefix {session started later : MqttSession}
    (new : session.msgIn.msgLen = 0)
    (state : session.msgIn.parseState = .fixedCtrlpack)
    {c : UInt8}
    (control : feedControl session c = .okay started)
    {digits message part : Bytes}
    (field : Field digits message.length)
    (few : digits.length ≤ 4)
    (isPrefix : part <+: c :: (digits ++ message))
    (fed : feedAll session part = .okay later) :
    MidLength later ↔ 1 < part.length ∧ part.length < digits.length + 1 := by
  have begins := begins_of_feedControl new control
  have room {count : Nat} (few : count ≤ 4) :
      Room started.msgIn.remain count := by
    rw [begins.multiplier]
    exact room_one few
  cases part with
  | nil =>
      cases fed
      refine iff_of_false ?_ (by simp)
      rintro ⟨length, _⟩
      rw [state] at length
      cases length
  | cons own part =>
      rcases List.cons_prefix_cons.mp isPrefix with ⟨rfl, rest, split⟩
      rw [feedAll, feed_of_control state, control, bind_okay] at fed
      rcases List.append_eq_append_iff.mp split with
        ⟨back, whole, _⟩ | ⟨front, whole, inMessage⟩
      · by_cases empty : back = []
        · rw [empty, List.append_nil] at whole
          subst whole
          have counts := feedAll_field field begins.state (room few) []
          rw [List.append_nil, fed] at counts
          cases counts
          refine iff_of_false ?_ (by simp)
          rintro ⟨length, _⟩
          cases length
        · -- The part ends in front of the last digit.
          have positive := List.length_pos_iff.mpr empty
          have short : part.length < digits.length := by
            rw [whole, List.length_append]
            omega
          rcases
              feedAll_continues (field.continues_front whole empty)
                begins.state (room (by omega)) [] with
            ⟨value, counts⟩
          rw [List.append_nil, fed] at counts
          cases counts
          rw [List.length_cons]
          constructor
          · rintro ⟨_, remain⟩
            refine ⟨?_, by omega⟩
            by_contra few
            have nothing : part.length = 0 := by omega
            apply remain
            show started.msgIn.remain * 128 ^ part.length = 1
            rw [begins.multiplier, nothing, Nat.pow_zero]
          · rintro ⟨more, _⟩
            refine ⟨begins.state, ?_⟩
            show started.msgIn.remain * 128 ^ part.length ≠ 1
            rw [begins.multiplier, Nat.one_mul]
            exact Nat.ne_of_gt (Nat.one_lt_pow (by omega) (by decide))
      · rw [whole, feedAll_field field begins.state (room few)] at fed
        have remain :
            (mqttParseVarhdrInit
                  (counted started message.length
                    digits.length)).msgIn.remain =
              message.length := by
          show
            started.msgIn.msgLen +
                message.length * started.msgIn.remain =
              message.length
          rw [begins.length, begins.multiplier, Nat.zero_add, Nat.mul_one]
        refine iff_of_false ?_ ?_
        · refine feedAll_message_not_mid rfl ?_ fed
          rw [remain, inMessage, List.length_append]
          exact Nat.le_add_right ..
        · rw [whole, List.length_cons, List.length_append]
          omega

/-- A part of a packet that does not have all of the remaining length is taken. -/
theorem feedAll_of_prefix {session started : MqttSession}
    (new : session.msgIn.msgLen = 0)
    (state : session.msgIn.parseState = .fixedCtrlpack)
    {c : UInt8}
    (control : feedControl session c = .okay started)
    {digits message part : Bytes}
    (field : Field digits message.length)
    (few : digits.length ≤ 4)
    (isPrefix : part <+: c :: (digits ++ message))
    (less : part.length < digits.length + 1) :
    ∃ later, feedAll session part = .okay later := by
  have begins := begins_of_feedControl new control
  cases part with
  | nil => exact ⟨session, rfl⟩
  | cons own part =>
      rcases List.cons_prefix_cons.mp isPrefix with ⟨rfl, isInside⟩
      rw [List.length_cons] at less
      obtain ⟨back, whole⟩ : part <+: digits :=
        List.prefix_of_prefix_length_le isInside (List.prefix_append ..)
          (by omega)
      have positive : back ≠ [] := by
        intro empty
        rw [empty, List.append_nil] at whole
        rw [whole] at less
        omega
      have room : Room started.msgIn.remain (part.length + 1) := by
        rw [begins.multiplier]
        exact room_one (by omega)
      rcases
          feedAll_continues
            (field.continues_front whole.symm positive) begins.state room
            [] with
        ⟨value, counts⟩
      rw [List.append_nil] at counts
      rw [feedAll, feed_of_control state, control, bind_okay, counts]
      exact ⟨_, rfl⟩

/-! ## One call of a parser -/

/-- A message that was completed is acted on. -/
def settled (session : MqttSession) : MqttSession :=
  if session.msgIn.parseState = .complete then mqttComplete session
  else session

/-- What bounds the calls of a parser that consume nothing. -/
def rank (session : MqttSession) : Nat :=
  if session.msgIn.parseState = .complete then 1
  else if
      session.msgIn.parseState = .varhdrPayload ∧ session.msgIn.remain = 0 then
    2
  else 0

/-- What is left to do. -/
def measure (state : MqttSession × Bytes) : Nat :=
  3 * state.2.length + rank state.1

/-- A call of a parser does what the machine does to the bytes it consumes. -/
inductive Agrees
    (session : MqttSession)
    (buffer : Bytes) :
    Parsed (Nat × MqttSession) → Prop where
  | okay
      {n : Nat}
      {later : MqttSession}
      (rest : AtRest (settled later))
      (same : feedAll session buffer = feedAll (settled later) (buffer.drop n))
      (less : measure (later, buffer.drop n) < measure (session, buffer)) :
      Agrees session buffer (.okay (n, later))
  | failed
      {errno : Option Errno}
      (same : feedAll session buffer = .failed errno) :
      Agrees session buffer (.failed errno)
  | broken
      (same : feedAll session buffer = .fault) :
      Agrees session buffer .fault
  | overread
      {later : MqttSession}
      (same : feedAll session buffer = .okay later)
      (mid : MidLength later) :
      Agrees session buffer .fault

theorem settled_of_incomplete
    (incomplete : session.msgIn.parseState ≠ .complete) :
    settled session = session :=
  if_neg incomplete

theorem rank_le (session : MqttSession) : rank session ≤ 2 := by
  unfold rank
  split
  · decide
  · split
    · exact Nat.le_refl 2
    · decide

/-- The first byte of a packet. -/
theorem agrees_control (state : session.msgIn.parseState = .fixedCtrlpack)
    (c : UInt8)
    (rest : Bytes) :
    Agrees session (c :: rest)
      (ymoMqttParseFixedCtrlpack session (c :: rest)) := by
  have fed : feedAll session (c :: rest) =
      bind (feedControl session c) fun later => feedAll later rest := by
    rw [feedAll, feed_of_control state]
  unfold feedControl at fed
  unfold ymoMqttParseFixedCtrlpack at fed ⊢
  dsimp only at fed ⊢
  split at fed
  · next inval =>
      rw [if_pos inval]
      exact .failed fed
  · next valid =>
      rw [if_neg valid]
      refine .okay (n := 1) ⟨?_, fun _ => rfl⟩ fed ?_
      · exact fun other => ParseState.noConfusion other
      · have bound := rank_le session
        show 3 * rest.length + 0 < 3 * (rest.length + 1) + rank session
        omega

/-- A remaining length. -/
theorem agrees_length (state : session.msgIn.parseState = .fixedLength)
    (first : session.msgIn.remain = 1)
    (nonempty : buffer ≠ []) :
    Agrees session buffer (ymoMqttParsedFixedLen session buffer) := by
  have room {count : Nat} (few : count ≤ 4) :
      Room session.msgIn.remain count := by
    rw [first]
    exact room_one few
  unfold ymoMqttParsedFixedLen
  rcases field_cases 4 buffer with
    ⟨digits, value, rest, split, field, few⟩ |
      ⟨digits, rest, split, continues, four⟩ | ⟨continues, few⟩
  · have positive := List.length_pos_iff.mpr field.ne_nil
    rw [split, fixedLenLoop_field field (room few), Nat.zero_add]
    have left :
        settled
            (mqttParseVarhdrInit (counted session value digits.length)) =
          mqttParseVarhdrInit (counted session value digits.length) :=
      settled_of_incomplete fun other => ParseState.noConfusion other
    refine .okay ?_ ?_ ?_
    · rw [left]
      exact
        ⟨fun other => ParseState.noConfusion other,
          fun other => ParseState.noConfusion other⟩
    · rw [left, List.drop_left]
      exact feedAll_field field state (room few) rest
    · have bound :=
        rank_le (mqttParseVarhdrInit (counted session value digits.length))
      rw [List.drop_left]
      unfold measure
      dsimp only
      rw [List.length_append]
      omega
  · rw [split, fixedLenLoop_overlong continues first four 0 rest]
    exact .failed (feedAll_overlong continues four state first rest)
  · rw [fixedLenLoop_cut continues first (by omega) 0]
    rcases feedAll_continues continues state (room (by omega)) [] with
      ⟨value, counts⟩
    rw [List.append_nil] at counts
    refine .overread counts ⟨state, ?_⟩
    show session.msgIn.remain * 128 ^ buffer.length ≠ 1
    have positive := List.length_pos_iff.mpr nonempty
    rw [first, Nat.one_mul]
    exact Nat.ne_of_gt (Nat.one_lt_pow (by omega) (by decide))

/-- The parser of the message stores some bytes, and parses what it has when it has
all of them. -/
theorem parseVarhdrPayload_eq (session : MqttSession) (buffer : Bytes) :
    let toCopy := min buffer.length session.msgIn.remain
    let later := stored session (buffer.take toCopy)
    ymoMqttParseVarhdrPayload session buffer =
      if later.msgIn.remain = 0 then
        bind (parsed later) fun result => .okay (toCopy, result)
      else .okay (toCopy, later) := by
  intro toCopy later
  have length : (buffer.take toCopy).length = toCopy :=
    List.length_take_of_le (Nat.min_le_left ..)
  have same :
      later =
        { session with
          msgIn :=
            { session.msgIn with
              varHdr := session.msgIn.varHdr ++ buffer.take toCopy
              remain := session.msgIn.remain - toCopy } } := by
    show stored session (buffer.take toCopy) = _
    rw [stored, length]
  rw [same]
  unfold ymoMqttParseVarhdrPayload
  dsimp only
  split
  · unfold parsed
    cases mqttParseVarhdr _ with
    | okay result =>
        rw [bind_okay]
        dsimp only
        cases mqttParsePayload result.1 result.2 with
        | okay last => rfl
        | failed errno => rfl
        | fault => rfl
    | failed errno => rfl
    | fault => rfl
  · rfl

theorem parseState_parsed {session later : MqttSession}
    (complete : parsed session = .okay later) :
    later.msgIn.parseState = .complete := by
  rcases bind_eq_okay complete with ⟨result, _, payload⟩
  rcases bind_eq_okay payload with ⟨last, _, same⟩
  cases same
  rfl

/-- A message that has all of its bytes. -/
theorem agrees_parsed {session whole : MqttSession} {n : Nat}
    (same :
      feedAll session buffer =
        bind (finish whole) fun later => feedAll later (buffer.drop n))
    (less : 3 * (buffer.drop n).length + 1 < measure (session, buffer)) :
    Agrees session buffer
      (bind (parsed whole) fun result => .okay (n, result)) := by
  unfold finish at same
  cases done : parsed whole with
  | okay later =>
      have complete := parseState_parsed done
      have acted : settled later = mqttComplete later := if_pos complete
      rw [done, bind_okay, bind_okay] at same
      refine .okay ?_ ?_ ?_
      · rw [acted]
        exact atRest_mqttComplete later
      · rw [acted]
        exact same
      · unfold measure rank
        dsimp only
        rw [if_pos complete]
        exact less
  | failed errno =>
      rw [done] at same
      exact .failed same
  | fault =>
      rw [done] at same
      exact .broken same

/-- Bytes of the message. -/
theorem agrees_body (state : session.msgIn.parseState = .varhdrPayload)
    (nonempty : buffer ≠ []) :
    Agrees session buffer (ymoMqttParseVarhdrPayload session buffer) := by
  have positive := List.length_pos_iff.mpr nonempty
  rw [parseVarhdrPayload_eq]
  by_cases empty : session.msgIn.remain = 0
  · have nothing : stored session [] = session := by
      simp only [stored, List.append_nil, List.length_nil, Nat.sub_zero]
    rw [empty, Nat.min_zero, List.take_zero, nothing, if_pos empty]
    apply agrees_parsed
    · exact feedAll_empty state empty nonempty
    · unfold measure rank
      dsimp only
      rw [state, if_neg (by decide), if_pos ⟨rfl, empty⟩, List.drop_zero]
      omega
  · by_cases part : buffer.length < session.msgIn.remain
    · have remain :
          (stored session buffer).msgIn.remain =
            session.msgIn.remain - buffer.length :=
        rfl
      have storedState :
          (stored session buffer).msgIn.parseState = .varhdrPayload :=
        state
      have left : settled (stored session buffer) = stored session buffer :=
        settled_of_incomplete (by rw [storedState]; decide)
      rw [Nat.min_eq_left (Nat.le_of_lt part), List.take_length,
        if_neg (by omega)]
      refine .okay ?_ ?_ ?_
      · rw [left]
        constructor
        · rw [storedState]
          decide
        · intro other
          rw [storedState] at other
          exact ParseState.noConfusion other
      · rw [left, List.drop_length]
        have fed := feedAll_part state part []
        rw [List.append_nil] at fed
        exact fed
      · have bound := rank_le (stored session buffer)
        unfold measure
        dsimp only
        rw [List.drop_length, List.length_nil]
        omega
    · have long : session.msgIn.remain ≤ buffer.length := Nat.not_lt.mp part
      have length :
          (buffer.take session.msgIn.remain).length = session.msgIn.remain :=
        List.length_take_of_le long
      have ends :
          (stored session
                (buffer.take session.msgIn.remain)).msgIn.remain =
            0 := by
        show session.msgIn.remain - _ = 0
        rw [length, Nat.sub_self]
      rw [Nat.min_eq_right long, if_pos ends]
      apply agrees_parsed
      · have fed :=
          feedAll_whole state
            (List.length_pos_iff.mp (by rw [length]; omega))
            length (buffer.drop session.msgIn.remain)
        rw [List.take_append_drop] at fed
        exact fed
      · unfold measure
        dsimp only
        rw [List.length_drop]
        omega

/-- A call of the parser of a state does what the machine does. -/
theorem agrees_parserOf (rest : AtRest session) (nonempty : buffer ≠ []) :
    Agrees session buffer (parserOf session buffer) := by
  unfold parserOf
  cases state : session.msgIn.parseState with
  | fixedCtrlpack =>
      obtain ⟨c, others, rfl⟩ := List.exists_cons_of_ne_nil nonempty
      exact agrees_control state c others
  | fixedLength => exact agrees_length state (rest.length state) nonempty
  | varhdrPayload => exact agrees_body state nonempty
  | complete => exact absurd state rest.incomplete

/-! ## The loops -/

/-- What a call of the read callback returns, as the machine sees it. -/
inductive Returns
    (fed : Parsed MqttSession)
    (bound : Nat) :
    ReadResult → Prop where
  | consumed
      {later : MqttSession}
      {left : Bytes}
      (rest : AtRest later)
      (same : fed = feedAll later left)
      (less : left ≠ [] → measure (later, left) < bound) :
      Returns fed bound (.consumed later left)
  | failed
      {errno : Option Errno}
      (same : fed = .failed errno) :
      Returns fed bound (.failed errno)
  | broken
      (same : fed = .fault) :
      Returns fed bound .fault
  | overread
      {later : MqttSession}
      (same : fed = .okay later)
      (mid : MidLength later) :
      Returns fed bound .fault

/-- The bytes that are left make of the session what all of them did. -/
structure Reading
    (fed : Parsed MqttSession)
    (bound : Nat)
    (state : MqttSession × Bytes) : Prop where
  rest : AtRest (settled state.1)
  nonempty : state.2 ≠ []
  same : fed = feedAll (settled state.1) state.2
  bounded : measure state ≤ bound

section

variable {fed : Parsed MqttSession} {bound : Nat}

/-- A turn goes on with less, or returns. -/
theorem Reading.turn {state : MqttSession × Bytes}
    (reading : Reading fed bound state) :
    (readTurn state).Satisfies
      (fun next => Reading fed bound next ∧ measure next < measure state)
      (Returns fed bound) := by
  obtain ⟨session, buffer⟩ := state
  have rest := reading.rest
  have same := reading.same
  have bounded := reading.bounded
  unfold readTurn
  dsimp only at rest same ⊢
  by_cases complete : session.msgIn.parseState = .complete
  · rw [if_pos complete]
    rw [settled, if_pos complete] at rest same
    refine Returns.consumed rest same fun _ => ?_
    have acted := parseState_mqttComplete session
    unfold measure rank at bounded ⊢
    dsimp only at bounded ⊢
    rw [if_pos complete] at bounded
    rw [acted, if_neg (by decide), if_neg (by simp)]
    omega
  · rw [if_neg complete]
    rw [settled_of_incomplete complete] at rest same
    have agrees := agrees_parserOf rest reading.nonempty
    cases call : parserOf session buffer with
    | okay value =>
        obtain ⟨n, later⟩ := value
        rw [call] at agrees
        cases agrees with
        | okay laterRest laterSame less =>
            dsimp only
            by_cases all : buffer.drop n = []
            · rw [if_pos all]
              rw [all] at laterSame
              have acted :
                  (if later.msgIn.parseState = .complete then
                      Turn.done (.consumed (mqttComplete later) [])
                    else .done (.consumed later [])) =
                    (.done (.consumed (settled later) []) :
                      Turn (MqttSession × Bytes) ReadResult) := by
                unfold settled
                split
                · rfl
                · rfl
              rw [acted]
              exact Returns.consumed laterRest (same.trans laterSame)
                fun nonempty => absurd rfl nonempty
            · rw [if_neg all]
              exact
                ⟨{ rest := laterRest
                   nonempty := all
                   same := same.trans laterSame
                   bounded := Nat.le_of_lt (Nat.lt_of_lt_of_le less bounded) },
                  less⟩
    | failed errno =>
        rw [call] at agrees
        cases agrees with
        | failed failedSame => exact Returns.failed (same.trans failedSame)
    | fault =>
        rw [call] at agrees
        cases agrees with
        | broken brokenSame => exact Returns.broken (same.trans brokenSame)
        | overread overSame mid =>
            exact Returns.overread (same.trans overSame) mid

/-- The loop of the read callback ends, and does what the machine does. -/
theorem returns_ymoProtoMqttRead (rest : AtRest session)
    (nonempty : buffer ≠ []) :
    Returns (feedAll session buffer) (measure (session, buffer))
      (ymoProtoMqttRead session buffer) := by
  have left := settled_of_incomplete rest.incomplete
  have reading :
      Reading (feedAll session buffer) (measure (session, buffer))
        (session, buffer) := by
    constructor
    · rw [left]
      exact rest
    · exact nonempty
    · rw [left]
    · exact Nat.le_refl _
  have enough : measure (session, buffer) < 3 * buffer.length + 3 := by
    have bound := rank_le session
    unfold measure
    dsimp only
    omega
  exact
    loop_leaves
      (Reading (feedAll session buffer) (measure (session, buffer)))
      measure _ (fun state reading => reading.turn)
      (fun _ => ReadResult.lost) _ reading enough

/-- What the reads of one call of `ymo_read_cb` come to, as the machine sees it. -/
inductive Delivered
    (fed : Parsed MqttSession) :
    ReadResult → Prop where
  | consumed
      {later : MqttSession}
      (rest : AtRest later)
      (same : fed = .okay later) :
      Delivered fed (.consumed later [])
  | failed
      {errno : Option Errno}
      (same : fed = .failed errno) :
      Delivered fed (.failed errno)
  | broken
      (same : fed = .fault) :
      Delivered fed .fault
  | overread
      {later : MqttSession}
      (same : fed = .okay later)
      (mid : MidLength later) :
      Delivered fed .fault

/-- The bytes that are offered again make of the session what all of them did. -/
structure Offering
    (fed : Parsed MqttSession)
    (state : MqttSession × Bytes) : Prop where
  rest : AtRest state.1
  nonempty : state.2 ≠ []
  same : fed = feedAll state.1 state.2

theorem Offering.turn {state : MqttSession × Bytes}
    (offering : Offering fed state) :
    (offerTurn state).Satisfies
      (fun next => Offering fed next ∧ measure next < measure state)
      (Delivered fed) := by
  obtain ⟨session, buffer⟩ := state
  have same := offering.same
  have returns := returns_ymoProtoMqttRead offering.rest offering.nonempty
  unfold offerTurn
  dsimp only at same returns ⊢
  cases call : ymoProtoMqttRead session buffer with
  | consumed later left =>
      rw [call] at returns
      cases returns with
      | consumed laterRest laterSame less =>
          dsimp only
          by_cases all : left = []
          · subst all
            rw [if_pos rfl]
            exact Delivered.consumed laterRest (same.trans laterSame)
          · rw [if_neg all]
            exact ⟨⟨laterRest, all, same.trans laterSame⟩, less all⟩
  | failed errno =>
      rw [call] at returns
      cases returns with
      | failed failedSame => exact Delivered.failed (same.trans failedSame)
  | fault =>
      rw [call] at returns
      cases returns with
      | broken brokenSame => exact Delivered.broken (same.trans brokenSame)
      | overread overSame mid =>
          exact Delivered.overread (same.trans overSame) mid
  | lost =>
      rw [call] at returns
      cases returns

/-- All bytes of a read are taken, or a parser fails; and the machine agrees. -/
theorem delivered_readCb (rest : AtRest session) {received : Bytes}
    (nonempty : received ≠ []) :
    Delivered (feedAll session received) (readCb session received) := by
  have enough : measure (session, received) < 3 * received.length + 3 := by
    have bound := rank_le session
    unfold measure
    dsimp only
    omega
  have offering : Offering (feedAll session received) (session, received) :=
    ⟨rest, nonempty, rfl⟩
  exact
    loop_leaves (Offering (feedAll session received)) measure _
      (fun state offering => offering.turn)
      (fun _ => ReadResult.lost) _ offering enough

end

/-! ## Reads -/

/-- No read that is taken ends inside a remaining length. -/
def Uncut (session : MqttSession) (reads : List Bytes) : Prop :=
  ∀ front,
    front <+: reads →
      ∀ later, feedAll session front.flatten = .okay later → ¬MidLength later

/-- What the reads come to. -/
def resultOf : Parsed MqttSession → ReadResult
  | .okay later => .consumed later []
  | .failed errno => .failed errno
  | .fault => .fault

theorem uncut_cons {session later : MqttSession} {first : Bytes}
    (taken : feedAll session first = .okay later)
    (notMid : ¬MidLength session)
    (reads : List Bytes) :
    Uncut session (first :: reads) ↔ Uncut later reads := by
  constructor
  · intro uncut front isPrefix last fed
    apply uncut (first :: front) (List.cons_prefix_cons.mpr ⟨rfl, isPrefix⟩)
    rw [List.flatten_cons, feedAll_append, taken, bind_okay]
    exact fed
  · intro uncut front isPrefix last fed
    cases front with
    | nil =>
        cases fed
        exact notMid
    | cons own front =>
        rcases List.cons_prefix_cons.mp isPrefix with ⟨rfl, frontPrefix⟩
        rw [List.flatten_cons, feedAll_append, taken, bind_okay] at fed
        exact uncut front frontPrefix last fed

theorem uncut_of_refused {first : Bytes}
    (refused : ∀ later, feedAll session first ≠ .okay later)
    (notMid : ¬MidLength session)
    (reads : List Bytes) :
    Uncut session (first :: reads) := by
  intro front isPrefix last fed
  cases front with
  | nil =>
      cases fed
      exact notMid
  | cons own front =>
      rcases List.cons_prefix_cons.mp isPrefix with ⟨rfl, _⟩
      rw [List.flatten_cons, feedAll_append] at fed
      rcases bind_eq_okay fed with ⟨between, taken, _⟩
      exact absurd taken (refused between)

/-- The reads come to what the machine makes of their bytes, where they are not cut;
and where they are, the reader looks behind the end of a read. -/
theorem readCbs_spec (rest : AtRest session) {reads : List Bytes}
    (nonempty : ∀ received ∈ reads, received ≠ []) :
    (Uncut session reads →
        readCbs session reads = resultOf (feedAll session reads.flatten)) ∧
      (¬Uncut session reads → readCbs session reads = .fault) := by
  have notMid := (atRest_iff.mp rest).2
  induction reads generalizing session with
  | nil =>
      constructor
      · intro _
        rfl
      · intro cut
        refine absurd ?_ cut
        intro front isPrefix later fed
        rw [List.prefix_nil.mp isPrefix] at fed
        cases fed
        exact notMid
  | cons first reads ih =>
      have delivered :=
        delivered_readCb rest (nonempty first List.mem_cons_self)
      rw [readCbs, List.flatten_cons, feedAll_append]
      cases call : readCb session first with
      | consumed later left =>
          rw [call] at delivered
          cases delivered with
          | consumed laterRest same =>
              rw [same, bind_okay, uncut_cons same notMid]
              exact
                ih laterRest
                  (fun received member =>
                    nonempty received (List.mem_cons_of_mem first member))
                  (atRest_iff.mp laterRest).2
      | failed errno =>
          rw [call] at delivered
          cases delivered with
          | failed same =>
              have refused : ∀ later, feedAll session first ≠ .okay later := by
                intro later okay
                rw [same] at okay
                cases okay
              rw [same]
              exact
                ⟨fun _ => rfl,
                  fun cut =>
                    absurd (uncut_of_refused refused notMid reads) cut⟩
      | fault =>
          rw [call] at delivered
          cases delivered with
          | broken same =>
              rw [same]
              exact ⟨fun _ => rfl, fun _ => rfl⟩
          | overread same mid =>
              refine ⟨fun uncut => ?_, fun _ => rfl⟩
              refine absurd mid (uncut [first] ?_ _ ?_)
              · exact List.cons_prefix_cons.mpr ⟨rfl, List.nil_prefix⟩
              · rw [List.flatten_cons, List.flatten_nil, List.append_nil]
                exact same
      | lost =>
          rw [call] at delivered
          cases delivered

end Yimmo.Mqtt.Feed
