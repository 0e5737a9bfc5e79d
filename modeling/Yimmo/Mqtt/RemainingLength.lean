import Yimmo.Lib.ByteMemory
import Yimmo.Lib.Varint
import Yimmo.Mqtt.Session

/-!
# The remaining length

The remaining length of a packet is a number in base 128.  `encode_remain` writes
it in the shortest way, and `ymo_mqtt_parsed_fixed_len` adds up its digits.

The loop of the parser does not count down the bytes it was given, so that the
bytes of one number have to arrive together; and the sender has room for four of
them and writes as many as there are.
-/

namespace Yimmo.Mqtt.RemainingLength

open Yimmo.Core.StatusCode
open Yimmo.Lib.ByteMemory
open Yimmo.Lib.Varint
open Yimmo.Mqtt.Session

variable
    {session : MqttSession}
    {digits : Bytes}

/-! ## Digits -/

set_option maxRecDepth 4000 in
theorem continues_iff : ∀ c : UInt8, c &&& 0x80 ≠ 0 ↔ 128 ≤ c.toNat :=
  forall_byte (by decide)

set_option maxRecDepth 4000 in
theorem toNat_digit : ∀ c : UInt8, (c &&& 0x7f).toNat = c.toNat % 128 :=
  forall_byte (by decide)

set_option maxRecDepth 4000 in
theorem or_continuation :
    ∀ c : UInt8, c.toNat < 128 → c ||| 0x80 = UInt8.ofNat (c.toNat + 128) :=
  forall_byte (by decide)

/-- The sender writes the shortest notation. -/
theorem encodeRemain_eq (len : Nat) : encodeRemain len = encode len := by
  induction len using encode.induct with
  | case1 len small =>
      have shifted : len >>> 7 = 0 := by
        rw [Nat.shiftRight_eq_div_pow]
        omega
      rw [encodeRemain, encode, if_pos small, if_pos shifted,
        Nat.mod_eq_of_lt small]
  | case2 len large ih =>
      have shifted : len >>> 7 = len / 128 := Nat.shiftRight_eq_div_pow len 7
      have nonzero : len / 128 ≠ 0 := by omega
      have byte : (UInt8.ofNat (len % 0x80)).toNat = len % 128 := by
        rw [UInt8.toNat_ofNat']
        omega
      rw [encodeRemain, encode, if_neg large, shifted, if_neg nonzero,
        ih, or_continuation _ (by omega), byte]

/-! ## The parser -/

/-- The session after some digits of a number. -/
def counted (session : MqttSession) (value count : Nat) : MqttSession :=
  { session with
    msgIn :=
      { session.msgIn with
        msgLen := session.msgIn.msgLen + value * session.msgIn.remain
        remain := session.msgIn.remain * 128 ^ count } }

/-- A digit that another one follows. -/
theorem fixedLenLoop_more {c : UInt8} (continues : 128 ≤ c.toNat)
    (below : session.msgIn.remain ≤ lenMaxMult)
    (turns : Nat)
    (rest : Bytes) :
    fixedLenLoop session turns (c :: rest) =
      fixedLenLoop (counted session (c.toNat % 128) 1) (turns + 1) rest := by
  rw [fixedLenLoop, if_neg (Nat.not_lt.mpr below),
    if_pos ((continues_iff c).mpr continues), toNat_digit]
  rfl

/-- The last digit. -/
theorem fixedLenLoop_last {c : UInt8} (ends : c.toNat < 128)
    (below : session.msgIn.remain ≤ lenMaxMult)
    (turns : Nat)
    (rest : Bytes) :
    fixedLenLoop session turns (c :: rest) =
      .okay (turns + 1, mqttParseVarhdrInit (counted session c.toNat 1)) := by
  have last : ¬c &&& 0x80 ≠ 0 :=
    fun continues => absurd ((continues_iff c).mp continues) (by omega)
  rw [fixedLenLoop, if_neg (Nat.not_lt.mpr below), if_neg last,
    toNat_digit, Nat.mod_eq_of_lt ends]
  rfl

theorem counted_counted (session : MqttSession)
    (value count later laterCount : Nat) :
    counted (counted session value count) later laterCount =
      counted session (value + 128 ^ count * later) (count + laterCount) := by
  simp only [counted, MqttSession.mk.injEq, MqttMsg.mk.injEq, and_true,
    true_and]
  constructor
  · rw [Nat.add_mul, Nat.mul_comm (128 ^ count) later, Nat.mul_assoc later,
      Nat.mul_comm (128 ^ count), Nat.add_assoc]
  · rw [Nat.pow_add, Nat.mul_assoc]

/-- The multiplier lets some digits through. -/
def Room (remain count : Nat) : Prop :=
  ∀ index < count, remain * 128 ^ index ≤ lenMaxMult

theorem room_one {count : Nat} (few : count ≤ 4) : Room 1 count := by
  intro index less
  rw [Nat.one_mul]
  exact Nat.pow_le_pow_right (by decide) (show index ≤ 3 by omega)

theorem Room.here {remain count : Nat} (room : Room remain (count + 1)) :
    remain ≤ lenMaxMult := by
  have first := room 0 (Nat.succ_pos count)
  rwa [Nat.pow_zero, Nat.mul_one] at first

theorem Room.later {remain count : Nat} (room : Room remain (count + 1)) :
    Room (remain * 128 ^ 1) count := by
  intro index less
  have next := room (index + 1) (Nat.succ_lt_succ less)
  rwa [Nat.mul_assoc, ← Nat.pow_add, Nat.add_comm 1]

/-- A number that the multiplier lets through is read to its end. -/
theorem fixedLenLoop_field {value : Nat} (field : Field digits value)
    (room : Room session.msgIn.remain digits.length)
    (turns : Nat)
    (rest : Bytes) :
    fixedLenLoop session turns (digits ++ rest) =
      .okay
        (turns + digits.length,
          mqttParseVarhdrInit (counted session value digits.length)) := by
  induction field generalizing session turns with
  | @last c ends => exact fixedLenLoop_last ends room.here turns rest
  | @more c digits value continues field ih =>
      have later :
          Room (counted session (c.toNat % 128) 1).msgIn.remain
            digits.length :=
        room.later
      rw [List.cons_append, fixedLenLoop_more continues room.here,
        ih later, counted_counted, List.length_cons,
        Nat.pow_one, Nat.add_assoc turns, Nat.add_comm 1]

/-- Digits that all continue are counted, and the loop goes on behind them. -/
theorem fixedLenLoop_continues (continues : Continues digits)
    (room : Room session.msgIn.remain digits.length)
    (turns : Nat)
    (rest : Bytes) :
    ∃ value,
      fixedLenLoop session turns (digits ++ rest) =
        fixedLenLoop (counted session value digits.length)
          (turns + digits.length) rest := by
  induction digits generalizing session turns with
  | nil =>
      refine ⟨0, ?_⟩
      simp only [counted, List.nil_append, List.length_nil, Nat.zero_mul,
        Nat.add_zero, Nat.pow_zero, Nat.mul_one]
  | cons c digits ih =>
      have later :
          Room (counted session (c.toNat % 128) 1).msgIn.remain
            digits.length :=
        room.later
      rcases
          ih
            (fun other member =>
              continues other (List.mem_cons_of_mem c member))
            later (turns + 1) with
        ⟨value, goesOn⟩
      refine ⟨c.toNat % 128 + 128 ^ 1 * value, ?_⟩
      rw [List.cons_append,
        fixedLenLoop_more (continues c List.mem_cons_self) room.here,
        goesOn, counted_counted, List.length_cons, Nat.add_assoc turns,
        Nat.add_comm 1]

/-- A buffer that ends before the number does is read past its end. -/
theorem fixedLenLoop_cut (continues : Continues digits)
    (first : session.msgIn.remain = 1)
    (few : digits.length ≤ 3)
    (turns : Nat) :
    fixedLenLoop session turns digits = .fault := by
  have room : Room session.msgIn.remain digits.length := by
    rw [first]
    exact room_one (by omega)
  rcases fixedLenLoop_continues continues room turns [] with
    ⟨value, goesOn⟩
  have below :
      ¬(counted session value digits.length).msgIn.remain >
        lenMaxMult := by
    show ¬session.msgIn.remain * 128 ^ digits.length > lenMaxMult
    rw [first]
    have bound := room_one (Nat.le_refl 4) digits.length (by omega)
    omega
  rw [List.append_nil] at goesOn
  rw [goesOn, fixedLenLoop, if_neg below]

/-- A fourth digit that continues is one too many. -/
theorem fixedLenLoop_overlong (continues : Continues digits)
    (first : session.msgIn.remain = 1)
    (four : digits.length = 4)
    (turns : Nat)
    (rest : Bytes) :
    fixedLenLoop session turns (digits ++ rest) = .failed (some .einval) := by
  have room : Room session.msgIn.remain digits.length := by
    rw [first]
    exact room_one (by omega)
  rcases fixedLenLoop_continues continues room turns rest with
    ⟨value, goesOn⟩
  have above :
      (counted session value digits.length).msgIn.remain > lenMaxMult := by
    show session.msgIn.remain * 128 ^ digits.length > lenMaxMult
    rw [first, four]
    decide
  rw [goesOn]
  cases rest with
  | nil => rw [fixedLenLoop, if_pos above]
  | cons c rest => rw [fixedLenLoop, if_pos above]

/-! ## Both directions -/

/-- The parser is given one buffer after the other until it is done with the number:
how many bytes it has consumed, if it did not fail. -/
def parseLength (session : MqttSession) (consumed : Nat) :
    List Bytes → Option (Nat × MqttSession)
  | [] => some (consumed, session)
  | buffer :: later =>
      match ymoMqttParsedFixedLen session buffer with
      | .okay (n, session) =>
          if session.msgIn.parseState = .fixedLength then
            parseLength session (consumed + n) later
          else some (consumed + n, session)
      | _ => none

/-- The session is where a number begins. -/
structure Begins (session : MqttSession) : Prop where
  state : session.msgIn.parseState = .fixedLength
  multiplier : session.msgIn.remain = 1
  length : session.msgIn.msgLen = 0

/-- The bytes of the number are consumed and no others are looked at, and the number
is the length of the message. -/
def Decodes (session : MqttSession) (n : Nat) (reads : List Bytes) : Prop :=
  ∃ later,
    parseLength session 0 reads = some ((encodeRemain n).length, later) ∧
      later.msgIn.parseState = .varhdrPayload ∧ later.msgIn.msgLen = n

/-- The first of the reads has all of the number. -/
def Together (n : Nat) (reads : List Bytes) : Prop :=
  ∃ first later,
    reads = first :: later ∧ (encodeRemain n).length ≤ first.length

/-- The sender reports an error, and stores within the fixed header. -/
def Refuses (before : Status) (sent : Sent) : Prop :=
  sent.errno ≠ before ∧ sent.fixedHdr.length ≤ fixedHdrSize

/-- A number whose bytes arrive together is decoded. -/
theorem decodes_together {n : Nat} (field : Field digits n)
    (few : digits.length ≤ 4)
    (begins : Begins session)
    (rest : Bytes)
    {first : Bytes}
    (later : List Bytes)
    (whole : first = digits ++ rest) :
    ∃ last,
      parseLength session 0 (first :: later) =
          some (digits.length, last) ∧
        last.msgIn.parseState = .varhdrPayload ∧
          last.msgIn.msgLen = n := by
  have room : Room session.msgIn.remain digits.length := by
    rw [begins.multiplier]
    exact room_one few
  refine ⟨mqttParseVarhdrInit (counted session n digits.length), ?_, rfl, ?_⟩
  · have left : ParseState.varhdrPayload ≠ .fixedLength := by decide
    rw [parseLength, whole, ymoMqttParsedFixedLen,
      fixedLenLoop_field field room]
    dsimp only [mqttParseVarhdrInit]
    rw [if_neg left, Nat.zero_add, Nat.zero_add]
  · show session.msgIn.msgLen + n * session.msgIn.remain = n
    rw [begins.length, begins.multiplier, Nat.zero_add, Nat.mul_one]

theorem decodes_iff {n : Nat} (small : n < 2 ^ 28) (begins : Begins session)
    {reads : List Bytes}
    (nonempty : ∀ buffer ∈ reads, buffer ≠ [])
    {further : Bytes}
    (split : reads.flatten = encodeRemain n ++ further) :
    Decodes session n reads ↔ Together n reads := by
  have field := field_encode n
  have few : (encode n).length ≤ 4 := length_encode_le small
  unfold Decodes Together
  rw [encodeRemain_eq] at split ⊢
  cases reads with
  | nil => exact absurd (List.append_eq_nil_iff.mp split.symm).1 field.ne_nil
  | cons first later =>
      rw [List.flatten_cons] at split
      rcases List.append_eq_append_iff.mp split with
        ⟨back, whole, _⟩ | ⟨rest, whole, _⟩
      · by_cases empty : back = []
        · subst empty
          rw [List.append_nil] at whole
          refine iff_of_true ?_ ⟨first, later, rfl, by rw [whole]⟩
          exact decodes_together field few begins [] later (by simp [whole])
        · -- The first read ends in front of the last digit.
          have short : first.length < (encode n).length := by
            have positive := List.length_pos_iff.mpr empty
            rw [whole, List.length_append]
            omega
          refine iff_of_false ?_ ?_
          · rintro ⟨last, parsed, _⟩
            rw [parseLength, ymoMqttParsedFixedLen,
              fixedLenLoop_cut (field.continues_front whole empty)
                begins.multiplier (by omega) 0] at parsed
            exact absurd parsed (by simp)
          · rintro ⟨other, others, same, long⟩
            rw [← (List.cons.inj same).1] at long
            omega
      · refine iff_of_true ?_ ⟨first, later, rfl, ?_⟩
        · exact decodes_together field few begins rest later whole
        · rw [whole, List.length_append]
          exact Nat.le_add_right ..

/-- What a call stores fits the fixed header just where the length has four
digits. -/
theorem fixedHdr_fits_iff (errno : Status) (session : MqttSession)
    (msgType msgFlags : UInt8)
    (buf : Bytes) :
    (ymoMqttSessionSend errno session msgType msgFlags
          buf).fixedHdr.length ≤
        fixedHdrSize ↔
      buf.length < 2 ^ 28 := by
  show (encodeRemain buf.length).length + 1 ≤ 5 ↔ _
  rw [encodeRemain_eq]
  constructor
  · intro fits
    by_contra large
    have long : 4 < (encode buf.length).length :=
      lt_length_encode (Nat.not_lt.mp large)
    omega
  · intro small
    have few : (encode buf.length).length ≤ 4 := length_encode_le small
    omega

/-- A number is decoded just where the first read has all of it; and a length that
has more than four digits is neither refused nor stored within the header. -/
theorem remaining_length_iff {session : MqttSession} (begins : Begins session)
    (errno : Status) :
    (∀ n < 2 ^ 28,
        ∀ reads : List Bytes,
          (∀ buffer ∈ reads, buffer ≠ []) →
            ∀ further,
              reads.flatten = encodeRemain n ++ further →
                (Decodes session n reads ↔ Together n reads)) ∧
      ∀ msgType msgFlags buf,
        2 ^ 28 ≤ buf.length →
          ¬Refuses errno
              (ymoMqttSessionSend errno session msgType msgFlags buf) := by
  constructor
  · intro n small reads nonempty further split
    exact decodes_iff small begins nonempty split
  · rintro msgType msgFlags buf large ⟨_, fits⟩
    have small :=
      (fixedHdr_fits_iff errno session msgType msgFlags buf).mp fits
    exact absurd large (Nat.not_le.mpr small)

/-- A new session that has had the first byte of a packet. -/
def atLength : MqttSession :=
  { ymoMqttSessionCreate with
    msgIn :=
      { ymoMqttSessionCreate.msgIn with
        remain := 1
        parseState := .fixedLength } }

theorem begins_atLength : Begins atLength where
  state := rfl
  multiplier := rfl
  length := rfl

theorem encodeRemain_321 : encodeRemain 321 = [0xc1, 0x02] := by
  rw [encodeRemain_eq, encode, if_neg (by decide), encode, if_pos (by decide)]
  rfl

theorem remaining_length_321 :
    Decodes atLength 321 [[0xc1, 0x02, 0x00]] ∧
      ¬Refuses .okay
          (ymoMqttSessionSend .okay atLength 0x30 0
            (List.replicate (2 ^ 28) 0)) := by
  have both := remaining_length_iff begins_atLength .okay
  have split : [[0xc1, 0x02, 0x00]].flatten = encodeRemain 321 ++ [0x00] := by
    rw [encodeRemain_321]
    rfl
  refine ⟨(both.1 321 (by decide) _ (by decide) _ split).mpr ?_, ?_⟩
  · refine ⟨_, _, rfl, ?_⟩
    rw [encodeRemain_321]
    decide
  · apply both.2
    rw [List.length_replicate]

/-- The two bytes of 321 in two reads: the second one is looked for behind the
first read.  And a length of 2 ^ 28 is stored in six bytes. -/
theorem cut_length_overread :
    ¬Decodes atLength 321 [[0xc1], [0x02]] ∧
      ¬Refuses .okay
          (ymoMqttSessionSend .okay atLength 0x30 0
            (List.replicate (2 ^ 28) 0)) := by
  constructor
  · rintro ⟨later, parsed, _⟩
    have overread : parseLength atLength 0 [[0xc1], [0x02]] = none := by
      rfl
    rw [overread] at parsed
    exact absurd parsed (Option.some_ne_none _).symm
  · rintro ⟨_, fits⟩
    rw [fixedHdr_fits_iff, List.length_replicate] at fits
    exact absurd fits (Nat.lt_irrefl _)

end Yimmo.Mqtt.RemainingLength
