import Mathlib.Tactic.Ring
import Yimmo.Ws.Encode

/-!
# The frame header there and back

`gen_ws_msg_hdr` writes the length of a message in one, two or eight bytes, and
`ymo_ws_parse_len` and `ymo_ws_parse_len_ext` read it, the latter a few bytes at a
time.  Read up to some byte, the length has the bytes that were read and zeros for
those that were not.

This module feeds a header, with the mask bit set, to the parse functions under any
split into reads, and shows that what comes out is what went in.
-/

namespace Yimmo.Ws.HeaderCodec

open Yimmo.Core.StatusCode
open Yimmo.Ws.Parse
open Yimmo.Ws.Session
open Yimmo.Ws.ReadLoop
open Yimmo.Ws.Congruence
open Yimmo.Ws.Encode

variable
    {flags : UInt8}
    {length : Nat}
    {left : Bytes}

/-! ## Feeding a header -/

/-- A header with the mask bit of its second byte set. -/
def maskedHeader (flags : UInt8) (length : Nat) : Bytes :=
  (genWsMsgHdr flags length).modify 1 fun byte => ymoWsFlagMasked ||| byte

/-- What the parse functions came to so far. -/
structure HeaderParse where
  session : WsSession
  consumed : Nat
  failure : Option Errno

/-- Before the first byte. -/
def HeaderParse.first (session : WsSession) : HeaderParse where
  session := session
  consumed := 0
  failure := none

/-- A byte of the header is next. -/
def HeaderParse.goesOn (parse : HeaderParse) : Bool :=
  (parse.session.frameIn.parseState == .op ||
      parse.session.frameIn.parseState == .len ||
      parse.session.frameIn.parseState == .lenExtended) &&
    parse.failure.isNone

/-- The bytes that a parse function looked at, also where it fails. -/
def bytesRead (before after : WsFrame) : Nat :=
  if before.parseState = .lenExtended then before.idx - after.idx else 1

/-- The call of the parse function of the state. -/
def HeaderParse.next (parse : HeaderParse) (ch : UInt8) (rest : Bytes) :
    HeaderParse :=
  let result := parseByState parse.session ch rest
  { session := result.1
    consumed :=
      parse.consumed + bytesRead parse.session.frameIn result.1.frameIn
    failure :=
      match result.2 with
      | .ok _ => none
      | .error errno => some errno }

/-- The calls for the bytes of one read. -/
def parseRead : Nat → HeaderParse → Bytes → HeaderParse
  | 0, parse, _ => parse
  | _, parse, [] => parse
  | bound + 1, parse, ch :: rest =>
      if parse.goesOn then
        parseRead bound (parse.next ch rest)
          ((ch :: rest).drop
            ((parse.next ch rest).consumed - parse.consumed))
      else parse

/-- The calls for the reads, one after the other. -/
def parseReads (parse : HeaderParse) (reads : List Bytes) : HeaderParse :=
  reads.foldl (fun parse read => parseRead read.length parse read) parse

/-- The frame was reset. -/
def JustReset (session : WsSession) : Prop :=
  session = resetFrame session

/-! ## The bytes of a length -/

/-- The low bytes of a length, the highest first. -/
def lowBytes (length : Nat) : Nat → Bytes
  | 0 => []
  | count + 1 =>
      UInt8.ofNat (length / 2 ^ (8 * count)) :: lowBytes length count

theorem length_lowBytes (length count : Nat) :
    (lowBytes length count).length = count := by
  induction count with
  | zero => rfl
  | succ count ih => rw [lowBytes, List.length_cons, ih]

theorem drop_lowBytes (length : Nat) {count later : Nat}
    (fewer : later ≤ count) :
    (lowBytes length count).drop (count - later) = lowBytes length later := by
  induction count with
  | zero =>
      rw [Nat.le_zero.mp fewer]
      rfl
  | succ count ih =>
      rcases Nat.lt_or_ge count later with whole | within
      · rw [show later = count + 1 by omega, Nat.sub_self]
        rfl
      · rw [show count + 1 - later = count - later + 1 by omega, lowBytes,
          List.drop_succ_cons]
        exact ih within

theorem lowBytes_eq (length count : Nat) :
    ((List.range count).map fun index =>
        UInt8.ofNat (length / 2 ^ (8 * (count - 1 - index)))) =
      lowBytes length count := by
  induction count with
  | zero => rfl
  | succ count ih =>
      rw [List.range_succ_eq_map, List.map_cons, List.map_map, lowBytes, ← ih]
      congr 1
      apply List.map_congr_left
      intro index _
      rw [Function.comp_apply, Nat.succ_eq_add_one,
        show count + 1 - 1 - (index + 1) = count - 1 - index by omega]

/-- The high bytes of a length, with zeros for the low ones. -/
def highPart (length count : Nat) : Nat :=
  length / 2 ^ (8 * count) * 2 ^ (8 * count)

theorem highPart_zero (length : Nat) : highPart length 0 = length := by
  rw [highPart, Nat.mul_zero, Nat.pow_zero, Nat.div_one, Nat.mul_one]

theorem highPart_of_lt {length count : Nat}
    (short : length < 2 ^ (8 * count)) :
    highPart length count = 0 := by
  rw [highPart, Nat.div_eq_of_lt short, Nat.zero_mul]

/-- The next byte is added at its place. -/
theorem highPart_succ (length count : Nat) :
    highPart length (count + 1) +
        (UInt8.ofNat (length / 2 ^ (8 * count))).toNat * 2 ^ (8 * count) =
      highPart length count := by
  have split :
      length / 2 ^ (8 * count) =
        256 * (length / 2 ^ (8 * count) / 256) +
          length / 2 ^ (8 * count) % 256 :=
    (Nat.div_add_mod _ 256).symm
  have power : 2 ^ (8 * (count + 1)) = 2 ^ (8 * count) * 256 := by
    rw [Nat.mul_succ, Nat.pow_add]
  have byte :
      (UInt8.ofNat (length / 2 ^ (8 * count))).toNat =
        length / 2 ^ (8 * count) % 256 :=
    UInt8.toNat_ofNat'
  rw [highPart, highPart, byte, power, ← Nat.div_div_eq_div_mul]
  calc
    length / 2 ^ (8 * count) / 256 * (2 ^ (8 * count) * 256) +
          length / 2 ^ (8 * count) % 256 * 2 ^ (8 * count) =
        (256 * (length / 2 ^ (8 * count) / 256) +
            length / 2 ^ (8 * count) % 256) *
          2 ^ (8 * count) := by
      ring
    _ = length / 2 ^ (8 * count) * 2 ^ (8 * count) := by rw [← split]

/-- The loop over the extended length reads what there is of it. -/
theorem lenExtBytes_lowBytes (length count : Nat) (data more rest : Bytes)
    (split : data ++ more = lowBytes length count ++ rest) :
    lenExtBytes (highPart length count) count data =
      (highPart length (count - data.length), count - data.length) := by
  induction count generalizing data with
  | zero =>
      rw [Nat.zero_sub, lenExtBytes]
      intro idx byte rest absurdity
      cases absurdity
  | succ count ih =>
      cases data with
      | nil => rfl
      | cons byte data =>
          rw [lowBytes, List.cons_append, List.cons_append,
            List.cons.injEq] at split
          rcases split with ⟨rfl, split⟩
          rw [lenExtBytes, highPart_succ, ih data split,
            List.length_cons, Nat.add_sub_add_right]

/-! ## What is left of a header -/

/-- The header was read, and refused if the frame is too long. -/
structure Decoded
    (flags : UInt8)
    (length : Nat)
    (parse : HeaderParse) :
    Prop where
  flags : parse.session.frameIn.flags = flags
  len : parse.session.frameIn.len = length
  fits :
    length ≤ ymoWsFrameMax →
      parse.failure = none ∧
        parse.session.frameIn.parseState = .maskingKey ∧
          parse.session.frameIn.buffer.isSome
  tooLong : ymoWsFrameMax < length → parse.failure = some enobufs

/-- What is left of the header of a data frame. -/
inductive Left
    (flags : UInt8)
    (length : Nat) :
    HeaderParse → Bytes → Prop
  | op
      {parse : HeaderParse}
      (reset : JustReset parse.session)
      (going : parse.failure = none)
      (accepted : ∃ type, opVerdict parse.session.msgType flags = .ok type) :
      Left flags length parse (maskedHeader flags length)
  | len
      {parse : HeaderParse}
      (stands : parse.session.frameIn.parseState = .len)
      (going : parse.failure = none)
      (read : parse.session.frameIn.flags = flags)
      (zero : parse.session.frameIn.len = 0) :
      Left flags length parse (maskedHeader flags length).tail
  | lenExtended
      {parse : HeaderParse}
      {count : Nat}
      (stands : parse.session.frameIn.parseState = .lenExtended)
      (going : parse.failure = none)
      (read : parse.session.frameIn.flags = flags)
      (idx : parse.session.frameIn.idx = count + 1)
      (high : parse.session.frameIn.len = highPart length (count + 1)) :
      Left flags length parse (lowBytes length (count + 1))
  | done
      {parse : HeaderParse}
      (decoded : Decoded flags length parse) :
      Left flags length parse []

/-- The forms of a header. -/
theorem maskedHeader_eq (flags : UInt8) (length : Nat) :
    (length ≤ 125 →
        maskedHeader flags length = [flags, 0x80 ||| UInt8.ofNat length]) ∧
      (125 < length → length ≤ 0xffff →
          maskedHeader flags length = flags :: 0xfe :: lowBytes length 2) ∧
        (0xffff < length →
          maskedHeader flags length = flags :: 0xff :: lowBytes length 8) := by
  rw [maskedHeader, genWsMsgHdr]
  dsimp only
  rw [lowBytes_eq, lowBytes_eq]
  refine ⟨?_, ?_, ?_⟩
  · intro short
    rw [if_pos short]
    rfl
  · intro long medium
    rw [if_neg (Nat.not_le.mpr long), if_pos medium]
    rfl
  · intro huge
    rw [if_neg (by omega), if_neg (Nat.not_le.mpr huge)]
    rfl

theorem two_le_length_maskedHeader (flags : UInt8) (length : Nat) :
    2 ≤ (maskedHeader flags length).length := by
  rw [maskedHeader, List.length_modify, genWsMsgHdr]
  split_ifs
  · exact Nat.le_refl 2
  · exact Nat.le_add_left 2 _
  · exact Nat.le_add_left 2 _

variable {parse : HeaderParse}

/-- Where nothing is left, the header was read. -/
theorem Left.decoded (standing : Left flags length parse left)
    (all : left = []) :
    Decoded flags length parse := by
  have long := two_le_length_maskedHeader flags length
  cases standing with
  | op reset going accepted =>
      rw [all] at long
      nomatch long
  | len stands going read zero =>
      have short := congrArg List.length all
      rw [List.length_tail, List.length_nil] at short
      omega
  | lenExtended stands going read idx high => cases all
  | done decoded => exact decoded

/-- Where something is left, a byte of the header is next. -/
theorem Left.goesOn (some' : Left flags length parse left) (more : left ≠ []) :
    parse.goesOn = true := by
  cases some' with
  | op reset going accepted =>
      have stands : parse.session.frameIn.parseState = .op := by
        rw [reset]
        rfl
      rw [HeaderParse.goesOn, stands, going]
      rfl
  | len stands going read zero =>
      rw [HeaderParse.goesOn, stands, going]
      rfl
  | lenExtended stands going read idx high =>
      rw [HeaderParse.goesOn, stands, going]
      rfl
  | done decoded => exact absurd rfl more

/-- Nothing goes on when the header is read. -/
theorem Decoded.stops (decoded : Decoded flags length parse) :
    parse.goesOn = false := by
  rw [HeaderParse.goesOn]
  rcases Nat.lt_or_ge ymoWsFrameMax length with large | fits
  · rw [decoded.tooLong large]
    exact Bool.and_false _
  · rw [(decoded.fits fits).2.1]
    rfl

/-- A call takes some bytes of what is left. -/
def Takes (flags : UInt8) (length : Nat) (parse later : HeaderParse)
    (left data : Bytes) :
    Prop :=
  ∃ count,
    later.consumed = parse.consumed + count ∧
      0 < count ∧ count ≤ data.length ∧ count ≤ left.length ∧
        Left flags length later (left.drop count)

/-- A frame that is not too long gets a buffer, and another is refused. -/
theorem alloc_cases (session : WsSession) (length : Nat) :
    (length ≤ ymoWsFrameMax ∧
        ∃ buffer bufLen blocks,
          ymoWsSessionAllocFrame session length =
            ({ session with
                frameIn :=
                  { session.frameIn with
                    buffer := some buffer
                    bufLen := bufLen }
                blocks := blocks },
              .okay)) ∨
      (ymoWsFrameMax < length ∧
        ymoWsSessionAllocFrame session length = (session, .err enobufs)) := by
  rcases Nat.lt_or_ge ymoWsFrameMax length with large | fits
  · refine Or.inr ⟨large, ?_⟩
    rw [ymoWsSessionAllocFrame, if_pos large]
  · exact Or.inl ⟨fits, exists_buffer session fits⟩

theorem takes_op (reset : JustReset parse.session)
    (accepted : ∃ type, opVerdict parse.session.msgType flags = .ok type)
    (rest : Bytes) :
    Takes flags length parse (parse.next flags rest)
      (maskedHeader flags length) (flags :: rest) := by
  rcases accepted with ⟨type, accepted⟩
  have stands : parse.session.frameIn.parseState = .op := by
    rw [reset]
    rfl
  have zero : parse.session.frameIn.len = 0 := by
    rw [reset]
    rfl
  have called :
      parseByState parse.session flags rest =
        (opSession parse.session flags type, .ok 1) := by
    simp only [parseByState, stands, ymoWsParseOp_verdict, accepted, opSession]
  have step :
      parse.next flags rest =
        { session := opSession parse.session flags type
          consumed := parse.consumed + 1
          failure := none } := by
    rw [HeaderParse.next, called, bytesRead, stands]
    rfl
  have long := two_le_length_maskedHeader flags length
  refine ⟨1, ?_, Nat.one_pos, Nat.succ_pos _, Nat.le_of_succ_le long, ?_⟩
  · rw [step]
  · rw [step, List.drop_one]
    exact Left.len rfl rfl rfl zero

theorem takes_len_short (stands : parse.session.frameIn.parseState = .len)
    (read : parse.session.frameIn.flags = flags)
    (short : length ≤ 125)
    (rest : Bytes) :
    Takes flags length parse
      (parse.next (0x80 ||| UInt8.ofNat length) rest)
      [0x80 ||| UInt8.ofNat length]
      ((0x80 ||| UInt8.ofNat length) :: rest) := by
  have byte := short_length_byte short
  have fits : length ≤ ymoWsFrameMax := short.trans (by decide)
  have called :
      parseByState parse.session (0x80 ||| UInt8.ofNat length) rest =
        allocParsed
          (ymoWsSessionAllocFrame
            { parse.session with
              frameIn :=
                { parse.session.frameIn with
                  masked := true
                  len := length
                  parseState := .maskingKey } }
            length)
          1 := by
    simp only [parseByState, stands, ymoWsParseLen, byte.1,
      Bool.not_true, Bool.false_eq_true, if_false, byte.2, if_pos short]
  rcases
    exists_buffer
      { parse.session with
        frameIn :=
          { parse.session.frameIn with
            masked := true
            len := length
            parseState := .maskingKey } }
      fits with
    ⟨buffer, bufLen, blocks, allocated⟩
  refine ⟨1, ?_, Nat.one_pos, Nat.succ_pos _, Nat.le_refl 1, ?_⟩
  · rw [HeaderParse.next, called, allocated, bytesRead, stands]
    rfl
  · apply Left.done
    rw [HeaderParse.next, called, allocated]
    exact
      { flags := read
        len := rfl
        fits := fun _ => ⟨rfl, rfl, rfl⟩
        tooLong := fun large => absurd fits (Nat.not_le.mpr large) }

/-- The second byte announces that the length is extended. -/
theorem takes_len_extended {length count : Nat}
    (stands : parse.session.frameIn.parseState = .len)
    (read : parse.session.frameIn.flags = flags)
    (zero : parse.session.frameIn.len = 0)
    (data : flags &&& 0x08 = 0)
    {byte : UInt8}
    (form : byte = 0xfe ∧ count = 1 ∨ byte = 0xff ∧ count = 7)
    (enough : length < 2 ^ (8 * (count + 1)))
    (rest : Bytes) :
    Takes flags length parse (parse.next byte rest)
      (byte :: lowBytes length (count + 1)) (byte :: rest) := by
  have called :
      parseByState parse.session byte rest =
        ({ parse.session with
            frameIn :=
              { parse.session.frameIn with
                masked := true
                idx := count + 1
                parseState := .lenExtended } },
          .ok 1) := by
    rw [parseByState, stands]
    dsimp only
    rw [ymoWsParseLen, read]
    rcases form with ⟨rfl, rfl⟩ | ⟨rfl, rfl⟩
    · rw [if_neg, if_neg, if_neg]
      · rfl
      · exact not_not.mpr data
      · decide
      · decide
    · rw [if_neg, if_neg, if_neg]
      · rfl
      · exact not_not.mpr data
      · decide
      · decide
  refine ⟨1, ?_, Nat.one_pos, Nat.succ_pos _, Nat.succ_pos _, ?_⟩
  · rw [HeaderParse.next, called, bytesRead, stands]
    rfl
  · rw [HeaderParse.next, called]
    refine Left.lenExtended rfl rfl read rfl ?_
    rw [highPart_of_lt enough]
    exact zero

/-- The session after bytes of the extended length. -/
def lenRead (session : WsSession) (len idx : Nat) : WsSession :=
  { session with frameIn := { session.frameIn with len := len, idx := idx } }

theorem ymoWsParseLenExt_eq {session : WsSession} {buffer : Bytes}
    {len idx : Nat}
    (loop :
      lenExtBytes session.frameIn.len session.frameIn.idx buffer =
        (len, idx)) :
    ymoWsParseLenExt session buffer =
      if idx = 0 then
        if len ≥ 2 ^ 63 then (lenRead session len idx, .error .ebadmsg)
        else
          match ymoWsSessionAllocFrame (lenRead session len idx) len with
          | (later, .err errno) => (later, .error errno)
          | (later, .okay) =>
              ({ later with
                  frameIn :=
                    { later.frameIn with parseState := .maskingKey } },
                .ok session.frameIn.idx)
      else (lenRead session len idx, .ok (session.frameIn.idx - idx)) := by
  rw [ymoWsParseLenExt, loop]
  rfl

theorem takes_lenExtended {length count : Nat}
    (stands : parse.session.frameIn.parseState = .lenExtended)
    (read : parse.session.frameIn.flags = flags)
    (idx : parse.session.frameIn.idx = count + 1)
    (high : parse.session.frameIn.len = highPart length (count + 1))
    (small : length < 2 ^ 63)
    {ch : UInt8}
    {rest more after : Bytes}
    (split : ch :: rest ++ more = lowBytes length (count + 1) ++ after) :
    Takes flags length parse (parse.next ch rest)
      (lowBytes length (count + 1)) (ch :: rest) := by
  have loop :=
    lenExtBytes_lowBytes length (count + 1) (ch :: rest) more after split
  rw [← high, ← idx] at loop
  have taken :
      parse.session.frameIn.idx - (ch :: rest).length =
        count - rest.length := by
    rw [idx, List.length_cons]
    omega
  rw [taken] at loop
  have parsed :
      parseByState parse.session ch rest =
        ymoWsParseLenExt parse.session (ch :: rest) := by
    rw [parseByState, stands]
  cases later : count - rest.length with
  | zero =>
      rw [later, highPart_zero] at loop
      rcases alloc_cases (lenRead parse.session length 0) length with
        ⟨fits, buffer, bufLen, blocks, allocated⟩ | ⟨large, refused⟩
      · have called :
            ymoWsParseLenExt parse.session (ch :: rest) =
              ({ parse.session with
                  frameIn :=
                    { parse.session.frameIn with
                      len := length
                      idx := 0
                      buffer := some buffer
                      bufLen := bufLen
                      parseState := .maskingKey }
                  blocks := blocks },
                .ok parse.session.frameIn.idx) := by
          rw [ymoWsParseLenExt_eq loop, if_pos rfl,
            if_neg (Nat.not_le.mpr small), allocated]
          rfl
        refine ⟨count + 1, ?_, Nat.succ_pos _, ?_, ?_, ?_⟩
        · rw [HeaderParse.next, parsed, called, bytesRead, if_pos stands, idx]
          rfl
        · rw [List.length_cons]
          omega
        · rw [length_lowBytes]
        · rw [List.drop_of_length_le (Nat.le_of_eq (length_lowBytes _ _)),
            HeaderParse.next, parsed, called]
          apply Left.done
          exact
            { flags := read
              len := rfl
              fits := fun _ => ⟨rfl, rfl, rfl⟩
              tooLong := fun large => absurd fits (Nat.not_le.mpr large) }
      · have called :
            ymoWsParseLenExt parse.session (ch :: rest) =
              ({ parse.session with
                  frameIn :=
                    { parse.session.frameIn with
                      len := length
                      idx := 0 } },
                .error enobufs) := by
          rw [ymoWsParseLenExt_eq loop, if_pos rfl,
            if_neg (Nat.not_le.mpr small), refused]
          rfl
        refine ⟨count + 1, ?_, Nat.succ_pos _, ?_, ?_, ?_⟩
        · rw [HeaderParse.next, parsed, called, bytesRead, if_pos stands, idx]
          rfl
        · rw [List.length_cons]
          omega
        · rw [length_lowBytes]
        · rw [List.drop_of_length_le (Nat.le_of_eq (length_lowBytes _ _)),
            HeaderParse.next, parsed, called]
          apply Left.done
          exact
            { flags := read
              len := rfl
              fits := fun fits => absurd large (Nat.not_lt.mpr fits)
              tooLong := fun _ => rfl }
  | succ k =>
      rw [later] at loop
      have called :
          ymoWsParseLenExt parse.session (ch :: rest) =
            ({ parse.session with
                frameIn :=
                  { parse.session.frameIn with
                    len := highPart length (k + 1)
                    idx := k + 1 } },
              .ok (parse.session.frameIn.idx - (k + 1))) := by
        rw [ymoWsParseLenExt_eq loop, if_neg (Nat.succ_ne_zero k)]
        rfl
      refine ⟨count + 1 - (k + 1), ?_, ?_, ?_, ?_, ?_⟩
      · rw [HeaderParse.next, parsed, called, bytesRead, if_pos stands, idx]
      · omega
      · rw [List.length_cons]
        omega
      · rw [length_lowBytes]
        exact Nat.sub_le _ _
      · rw [drop_lowBytes length (by omega), HeaderParse.next, parsed, called]
        exact Left.lenExtended stands rfl read rfl rfl

/-- One call takes bytes of what is left, and leaves the others. -/
theorem Left.takes (standing : Left flags length parse left)
    (unread : left ≠ [])
    (data : flags &&& 0x08 = 0)
    (small : length < 2 ^ 63)
    {ch : UInt8}
    {rest more after : Bytes}
    (split : ch :: rest ++ more = left ++ after) :
    Takes flags length parse (parse.next ch rest) left (ch :: rest) := by
  rcases maskedHeader_eq flags length with ⟨short, medium, huge⟩
  cases standing with
  | op reset going accepted =>
      have first : ch = flags := by
        rcases Nat.lt_or_ge 125 length with long | fits
        · rcases Nat.lt_or_ge 0xffff length with large | within
          · rw [huge large] at split
            exact (List.cons.inj split).1
          · rw [medium long within] at split
            exact (List.cons.inj split).1
        · rw [short fits] at split
          exact (List.cons.inj split).1
      rw [first]
      exact takes_op reset accepted rest
  | len stands going read zero =>
      rcases Nat.lt_or_ge 125 length with long | fits
      · rcases Nat.lt_or_ge 0xffff length with large | within
        · rw [huge large] at split ⊢
          rw [(List.cons.inj split).1]
          exact
            takes_len_extended stands read zero data
              (Or.inr ⟨rfl, rfl⟩) (small.trans (by decide)) rest
        · rw [medium long within] at split ⊢
          rw [(List.cons.inj split).1]
          exact
            takes_len_extended stands read zero data
              (Or.inl ⟨rfl, rfl⟩) (Nat.lt_succ_of_le within) rest
      · rw [short fits] at split ⊢
        rw [(List.cons.inj split).1]
        exact takes_len_short stands read fits rest
  | lenExtended stands going read idx high =>
      exact takes_lenExtended stands read idx high small split
  | done decoded => exact absurd rfl unread

/-! ## Any split -/

theorem parseRead_of_stopped (bound : Nat) (stopped : parse.goesOn = false)
    (data : Bytes) :
    parseRead bound parse data = parse := by
  cases bound with
  | zero => rfl
  | succ bound =>
      cases data with
      | nil => rfl
      | cons ch rest =>
          rw [parseRead, stopped]
          rfl

/-- A read takes bytes of what is left until it or the header is at its end. -/
theorem left_parseRead (control : flags &&& 0x08 = 0) (small : length < 2 ^ 63)
    {bound : Nat}
    {left data more after : Bytes}
    (enough : data.length ≤ bound)
    (standing : Left flags length parse left)
    (split : data ++ more = left ++ after) :
    ∃ later,
      Left flags length (parseRead bound parse data) later ∧
        (parseRead bound parse data).consumed + later.length =
            parse.consumed + left.length ∧
          (later = [] ∨ more = later ++ after) := by
  induction bound generalizing parse left data with
  | zero =>
      rw [List.eq_nil_of_length_eq_zero (Nat.le_zero.mp enough)] at split ⊢
      exact ⟨left, standing, rfl, Or.inr split⟩
  | succ bound ih =>
      cases data with
      | nil => exact ⟨left, standing, rfl, Or.inr split⟩
      | cons ch rest =>
          by_cases unread : left = []
          · rw [parseRead_of_stopped _ (standing.decoded unread).stops]
            exact ⟨left, standing, rfl, Or.inl unread⟩
          · rcases standing.takes unread control small split with
              ⟨count, consumed, some', within, enough', next⟩
            have dropped :
                (ch :: rest).drop count ++ more =
                  left.drop count ++ after := by
              rw [← List.drop_append_of_le_length within, split,
                List.drop_append_of_le_length enough']
            have taken :
                (parse.next ch rest).consumed - parse.consumed = count := by
              omega
            have fewer : ((ch :: rest).drop count).length ≤ bound := by
              rw [List.length_drop]
              omega
            rcases ih fewer next dropped with
              ⟨later, stands, counted, rest'⟩
            refine ⟨later, ?_, ?_, rest'⟩
            · rw [parseRead, standing.goesOn unread, if_pos rfl, taken]
              exact stands
            · rw [parseRead, standing.goesOn unread, if_pos rfl, taken,
                counted, consumed, List.length_drop]
              omega

theorem left_parseReads (control : flags &&& 0x08 = 0)
    (small : length < 2 ^ 63)
    {reads : List Bytes}
    {left after : Bytes}
    (standing : Left flags length parse left)
    (split : left = [] ∨ reads.flatten = left ++ after) :
    Decoded flags length (parseReads parse reads) ∧
      (parseReads parse reads).consumed = parse.consumed + left.length := by
  induction reads generalizing parse left with
  | nil =>
      have all : left = [] := by
        rcases split with all | split
        · exact all
        · exact (List.append_eq_nil_iff.mp split.symm).1
      refine ⟨standing.decoded all, ?_⟩
      rw [all]
      rfl
  | cons read reads ih =>
      rw [parseReads, List.foldl_cons]
      rcases split with all | split
      · have stops := (standing.decoded all).stops
        rw [parseRead_of_stopped _ stops]
        exact ih standing (Or.inl all)
      · rw [List.flatten_cons] at split
        rcases
          left_parseRead control small (Nat.le_refl _) standing split with
          ⟨later, stands, counted, rest⟩
        rw [← counted]
        exact ih stands rest

/-! ## The codec -/

theorem no_control_bit_of_accepted {msgType flags type : UInt8}
    (accepted : opVerdict msgType flags = .ok type)
    (data : isControl (opCode flags) = false) :
    flags &&& 0x08 = 0 := by
  apply no_control_bit
  simp only [opVerdict, data, Bool.false_eq_true, if_false] at accepted
  split_ifs at accepted with reserved continued none' named
  · rw [continued]
    rfl
  all_goals
    rcases named with text | binary
    · rw [text]
      rfl
    · rw [binary]
      rfl

/-- **The header codec**: after a reset, the header of a data frame that may begin, with
the mask bit set, is read back under every split into reads: all of it and nothing
behind it is read, the flags and the length are what they were, and the frame is
refused with `ENOBUFS` just where it is longer than `YMO_WS_FRAME_MAX`. -/
theorem header_decoded {session : WsSession} (reset : JustReset session)
    {flags : UInt8}
    (accepted : (ymoWsParseOp session flags).2 = .ok 1)
    (data : isControl (opCode flags) = false)
    {length : Nat}
    (small : length < 2 ^ 63)
    {reads : List Bytes}
    {rest : Bytes}
    (split : reads.flatten = maskedHeader flags length ++ rest) :
    (parseReads (HeaderParse.first session) reads).consumed =
        (maskedHeader flags length).length ∧
      Decoded flags length (parseReads (HeaderParse.first session) reads) := by
  rw [ymoWsParseOp_verdict] at accepted
  cases verdict : opVerdict session.msgType flags with
  | error errno =>
      rw [verdict] at accepted
      cases accepted
  | ok type =>
      have control := no_control_bit_of_accepted verdict data
      have start :
          Left flags length (HeaderParse.first session)
            (maskedHeader flags length) :=
        Left.op reset rfl ⟨type, verdict⟩
      rcases left_parseReads control small start (Or.inr split) with
        ⟨decoded, consumed⟩
      refine ⟨?_, decoded⟩
      rw [consumed]
      exact Nat.zero_add _

theorem text_header_decoded :
    (parseReads
          (HeaderParse.first (ymoWsSessionCreate fun _ _ => 0))
          [[0x81], [0xfe, 0x01], [], [0x2c, 0x07]]).consumed =
        4 ∧
      Decoded 0x81 300
        (parseReads
          (HeaderParse.first (ymoWsSessionCreate fun _ _ => 0))
          [[0x81], [0xfe, 0x01], [], [0x2c, 0x07]]) := by
  have split :
      [[0x81], [0xfe, 0x01], [], [0x2c, 0x07]].flatten =
        maskedHeader 0x81 300 ++ [0x07] := by
    decide
  exact
    header_decoded
      (show JustReset (ymoWsSessionCreate fun _ _ => 0) from rfl)
      (by decide) (by decide) (by decide) split

end Yimmo.Ws.HeaderCodec
