import Mathlib.Tactic.FinCases
import Yimmo.Ws.Unrolled

/-!
# Frames as a client sends them

A client frame is its first byte, a masking key and a payload; `encode` gives its
bytes, with the shortest form of the length.  `readsTo_encode` says what reading
these bytes between two frames comes to: the frame is refused by its first byte or
its length, its payload fails the check, or the frame is complete, with its payload
in the one bucket that it leaves on the receive list.
-/

namespace Yimmo.Ws.Encode

open Yimmo.Core.StatusCode
open Yimmo.Core.Net
open Yimmo.Core.Utf8
open Yimmo.Lib.ByteMemory
open Yimmo.Ws.Parse
open Yimmo.Ws.Session
open Yimmo.Ws.ReadLoop
open Yimmo.Ws.Congruence
open Yimmo.Ws.ChunkIndependence
open Yimmo.Ws.Unrolled

variable
    {App : Type}
    {recvCb : RecvCb App}
    {outcomes : List SendOutcome}
    {session : WsSession}
    {flags : UInt8}
    {length : Nat}
    {endpoint : Endpoint App}
    {type : UInt8}
    (memory : Memory)

/-! ## Frames and their bytes -/

/-- A frame with the key it is masked with. -/
structure ClientFrame extends Frame where
  key : Fin 4 → UInt8

/-- The bytes of a masking key are numbered from 0. -/
instance neZeroKeyBytes : NeZero 4 :=
  ⟨Nat.succ_ne_zero 3⟩

/-- The payload as it is sent, from an index on. -/
def masked (key : Fin 4 → UInt8) : Nat → Bytes → Bytes
  | _, [] => []
  | index, byte :: rest =>
      (byte ^^^ key (Fin.ofNat 4 index)) :: masked key (index + 1) rest

/-- The length of the payload, with the bit that says it is masked. -/
def lengthBytes (length : Nat) : Bytes :=
  let bytes (count : Nat) : Bytes :=
    (List.range count).map fun index =>
      UInt8.ofNat (length / 2 ^ (8 * (count - 1 - index)))
  if length ≤ 125 then [0x80 ||| UInt8.ofNat length]
  else if length ≤ 0xffff then 0xfe :: bytes 2
  else 0xff :: bytes 8

/-- The bytes of a frame. -/
def ClientFrame.encode (frame : ClientFrame) : Bytes :=
  frame.flags ::
    (lengthBytes frame.payload.length ++
      (List.ofFn frame.key ++ masked frame.key 0 frame.payload))

/-- The opcode of a frame. -/
def ClientFrame.op (frame : ClientFrame) : UInt8 :=
  opCode frame.flags

@[simp]
theorem length_masked (key : Fin 4 → UInt8) (index : Nat) (bytes : Bytes) :
    (masked key index bytes).length = bytes.length := by
  induction bytes generalizing index with
  | nil => rfl
  | cons byte rest ih => rw [masked, List.length_cons, List.length_cons, ih]

@[simp]
theorem length_unmask (key : Memory) (maskMod : Nat) (bytes : Bytes) :
    (unmask key maskMod bytes).length = bytes.length := by
  induction bytes generalizing maskMod with
  | nil => rfl
  | cons byte rest ih => rw [unmask, List.length_cons, List.length_cons, ih]

/-- What was masked with the key of the frame is unmasked with it. -/
theorem unmask_masked {memory : Memory} {key : Fin 4 → UInt8}
    (same : ∀ index : Fin 4, memory index = key index)
    (maskMod index : Nat)
    (aligned : maskMod % 4 = index % 4)
    (bytes : Bytes) :
    unmask memory maskMod (masked key index bytes) = bytes := by
  induction bytes generalizing maskMod index with
  | nil => rfl
  | cons byte rest ih =>
      have here : memory (maskMod % 4) = key (Fin.ofNat 4 index) := by
        rw [← same, Fin.val_ofNat, aligned]
      have later : (maskMod + 1) % 4 = (index + 1) % 4 := by omega
      rw [masked, unmask, here, UInt8.xor_assoc, UInt8.xor_self,
        UInt8.xor_zero, ih _ _ later]

/-! ## The header -/

/-- The session after the header of a frame, up to its key. -/
def headerSession (before : WsSession) (flags type : UInt8)
    (length buffer bufLen blocks : Nat) :
    WsSession :=
  { before with
    frameIn :=
      { before.frameIn with
        len := length
        parseState := .maskingKey
        masked := true
        flags := flags
        buffer := some buffer
        bufLen := bufLen
        idx := 0 }
    msgType := type
    blocks := blocks }

/-- Between two frames. -/
structure AtBoundary (endpoint : Endpoint App) : Prop where
  opened : endpoint.conn = .opened
  connected : endpoint.session.state = .connected
  coherent : endpoint.session.utf8State.Coherent
  stands : endpoint.session.frameIn.parseState = .op
  fresh :
    endpoint.session.frameIn.len = 0 ∧
      endpoint.session.frameIn.parsed = 0 ∧
        endpoint.session.frameIn.idx = 0

theorem AtBoundary.sound (boundary : AtBoundary endpoint) :
    Sound endpoint.session := by
  refine ⟨boundary.coherent, Or.inl ⟨boundary.connected, ?_⟩⟩
  rw [WsFrame.Ready, boundary.stands]
  exact boundary.fresh

theorem AtBoundary.safe (boundary : AtBoundary endpoint) :
    ¬ClosesInText endpoint.session := by
  rintro ⟨_, stands, _⟩
  rw [boundary.stands] at stands
  cases stands

/-- The session after the first byte of a frame. -/
def opSession (before : WsSession) (flags type : UInt8) : WsSession :=
  { before with
    frameIn := { before.frameIn with flags := flags, parseState := .len }
    msgType := type }

theorem unrolls_op (boundary : AtBoundary endpoint) {flags type : UInt8}
    (verdict : opVerdict endpoint.session.msgType flags = .ok type)
    (rest : Bytes) :
    Unrolls recvCb outcomes endpoint (flags :: rest)
      { endpoint with session := opSession endpoint.session flags type }
      rest := by
  have parsed :
      parseByState endpoint.session flags rest =
        (opSession endpoint.session flags type, .ok 1) := by
    simp only [parseByState, boundary.stands, ymoWsParseOp_verdict,
      verdict, opSession]
  exact
    unrolls_of_parsed boundary.opened boundary.sound boundary.connected
      boundary.safe parsed rfl rfl

/-- A frame that may not begin here. -/
theorem readsTo_op_refused (boundary : AtBoundary endpoint) {errno : Errno}
    (verdict : opVerdict endpoint.session.msgType flags = .error errno)
    (rest : Bytes) :
    ReadsTo recvCb outcomes endpoint (flags :: rest)
      (wsErrClose
        { endpoint with
          session :=
            { endpoint.session with
              frameIn := { endpoint.session.frameIn with flags := flags } } }
        (reasonFromErrno errno)) := by
  have parsed :
      parseByState endpoint.session flags rest =
        ({ endpoint.session with
            frameIn := { endpoint.session.frameIn with flags := flags } },
          .error errno) := by
    simp only [parseByState, boundary.stands, ymoWsParseOp_verdict, verdict]
  exact
    readsTo_of_refused boundary.opened boundary.sound boundary.connected
      boundary.safe parsed

/-- A frame that is not too long gets a buffer. -/
theorem exists_buffer (session : WsSession) {len : Nat}
    (fits : len ≤ ymoWsFrameMax) :
    ∃ buffer bufLen blocks,
      ymoWsSessionAllocFrame session len =
        ({ session with
            frameIn :=
              { session.frameIn with
                buffer := some buffer
                bufLen := bufLen }
            blocks := blocks },
          .okay) := by
  rcases session with
    ⟨⟨total, parsed, key, parseState, masked, flags, buffer, bufLen,
      idx⟩, recv, send, tail, state, type, utf8, memory, blocks⟩
  rw [ymoWsSessionAllocFrame, if_neg (Nat.not_lt.mpr fits)]
  dsimp only
  split_ifs with kept
  · rcases Option.isSome_iff_exists.mp kept.1 with ⟨block, rfl⟩
    exact ⟨block, bufLen, blocks, rfl⟩
  · exact ⟨blocks, _, _, rfl⟩

set_option maxRecDepth 4000 in
theorem short_length_byte (short : length ≤ 125) :
    ((0x80 ||| UInt8.ofNat length) &&& ymoWsFlagMasked != 0) = true ∧
      ((0x80 ||| UInt8.ofNat length) &&& ymoWsMaskLen).toNat = length := by
  have every :
      ∀ length : Fin 126,
        ((0x80 ||| UInt8.ofNat length) &&& ymoWsFlagMasked != 0) =
            true ∧
          ((0x80 ||| UInt8.ofNat length) &&& ymoWsMaskLen).toNat = length := by
    decide
  exact every ⟨length, Nat.lt_succ_of_le short⟩

/-- The masking key is next. -/
structure AtKey (session : WsSession) : Prop where
  connected : session.state = .connected
  coherent : session.utf8State.Coherent
  stands : session.frameIn.parseState = .maskingKey
  masked : session.frameIn.masked = true
  parsed : session.frameIn.parsed = 0
  idx : session.frameIn.idx = 0
  buffer : session.frameIn.buffer.isSome

theorem atKey_headerSession (boundary : AtBoundary endpoint)
    (flags type : UInt8)
    (length buffer bufLen blocks : Nat) :
    AtKey
      (headerSession endpoint.session flags type length buffer bufLen
        blocks) :=
  ⟨boundary.connected, boundary.coherent, rfl, rfl,
    boundary.fresh.2.1, rfl, rfl⟩

theorem sound_opSession (boundary : AtBoundary endpoint) (flags type : UInt8) :
    Sound (opSession endpoint.session flags type) :=
  ⟨boundary.coherent, Or.inl ⟨boundary.connected, boundary.fresh⟩⟩

/-- The length of a frame is next. -/
structure AtLen (endpoint : Endpoint App) : Prop where
  opened : endpoint.conn = .opened
  sound : Sound endpoint.session
  connected : endpoint.session.state = .connected
  safe : ¬ClosesInText endpoint.session

theorem AtBoundary.atLen (boundary : AtBoundary endpoint)
    (flags type : UInt8) :
    AtLen
      { endpoint with session := opSession endpoint.session flags type } where
  opened := boundary.opened
  sound := sound_opSession boundary flags type
  connected := boundary.connected
  safe := by
    rintro ⟨_, stands, _⟩
    cases stands

theorem unrolls_len_short (boundary : AtBoundary endpoint) (flags type : UInt8)
    (short : length ≤ 125)
    (rest : Bytes) :
    ∃ buffer bufLen blocks,
      Unrolls recvCb outcomes
        { endpoint with session := opSession endpoint.session flags type }
        ((0x80 ||| UInt8.ofNat length) :: rest)
        { endpoint with
          session :=
            headerSession endpoint.session flags type length buffer
              bufLen blocks }
        rest := by
  have byte := short_length_byte short
  have atLen := boundary.atLen flags type
  have fits : length ≤ ymoWsFrameMax := short.trans (by decide)
  rcases
      exists_buffer
        { opSession endpoint.session flags type with
          frameIn :=
            { endpoint.session.frameIn with
              flags := flags
              masked := true
              len := length
              parseState := .maskingKey } }
        fits
    with ⟨buffer, bufLen, blocks, allocated⟩
  have parsed :
      parseByState
          { endpoint with
            session := opSession endpoint.session flags type }.session
          (0x80 ||| UInt8.ofNat length) rest =
        (headerSession endpoint.session flags type length buffer bufLen
            blocks,
          .ok 1) := by
    simp only [parseByState, opSession, ymoWsParseLen, byte.1,
      Bool.not_true, Bool.false_eq_true, if_false, byte.2, if_pos short]
    simp only [opSession] at allocated
    rw [allocated, headerSession, allocParsed, ← boundary.fresh.2.2]
  exact
    ⟨buffer, bufLen, blocks,
      unrolls_of_parsed atLen.opened atLen.sound atLen.connected
        atLen.safe parsed rfl rfl⟩

set_option maxRecDepth 4000 in
/-- The opcodes of data frames are those without the control bit. -/
theorem no_control_bit (data : isData (opCode flags) = true) :
    flags &&& 0x08 = 0 := by
  revert data
  cases flags with
  | ofBitVec bits =>
      revert bits
      decide

set_option maxRecDepth 4000 in
theorem control_bit (control : isControl (opCode flags) = true) :
    flags &&& 0x08 ≠ 0 := by
  revert control
  cases flags with
  | ofBitVec bits =>
      revert bits
      decide

/-- The session when the length of a frame is extended to two bytes. -/
def extendedSession (before : WsSession) (flags type : UInt8) : WsSession :=
  { before with
    frameIn :=
      { before.frameIn with
        parseState := .lenExtended
        masked := true
        flags := flags
        idx := 2 }
    msgType := type }

theorem lengthBytes_medium (long : 125 < length)
    (fits : length ≤ ymoWsFrameMax) :
    lengthBytes length =
      [0xfe, UInt8.ofNat (length / 256), UInt8.ofNat length] := by
  have medium : length ≤ 0xffff := fits.trans (by decide)
  rw [lengthBytes, if_neg (Nat.not_le.mpr long), if_pos medium]
  simp [List.range_succ]

/-- The two bytes are the length. -/
theorem lenExtBytes_medium (fits : length ≤ ymoWsFrameMax) (rest : Bytes) :
    lenExtBytes 0 2
        (UInt8.ofNat (length / 256) :: UInt8.ofNat length :: rest) =
      (length, 0) := by
  have bound : length ≤ 4096 := fits
  have value :
      0 + (UInt8.ofNat (length / 256)).toNat * 2 ^ (8 * 1) +
          (UInt8.ofNat length).toNat * 2 ^ (8 * 0) =
        length := by
    simp only [UInt8.toNat_ofNat']
    omega
  simp only [lenExtBytes, value]

theorem parseByState_len_extended (session : WsSession)
    (data : isData (opCode flags) = true)
    (type : UInt8)
    (rest : Bytes) :
    parseByState (opSession session flags type) 0xfe rest =
      (extendedSession session flags type, .ok 1) := by
  have none : flags &&& 0x08 = 0 := no_control_bit data
  simp only [parseByState, opSession, ymoWsParseLen, none]
  rfl

theorem unrolls_len_medium (boundary : AtBoundary endpoint)
    (data : isData (opCode flags) = true)
    (type : UInt8)
    (long : 125 < length)
    (fits : length ≤ ymoWsFrameMax)
    (rest : Bytes) :
    ∃ buffer bufLen blocks,
      Unrolls recvCb outcomes
        { endpoint with session := opSession endpoint.session flags type }
        (0xfe :: UInt8.ofNat (length / 256) :: UInt8.ofNat length :: rest)
        { endpoint with
          session :=
            headerSession endpoint.session flags type length buffer
              bufLen blocks }
        rest := by
  have atLen := boundary.atLen flags type
  have opened :
      { endpoint with
        session :=
          extendedSession endpoint.session flags type }.conn = .opened :=
    boundary.opened
  have sound :
      Sound
        { endpoint with
          session := extendedSession endpoint.session flags type }.session :=
    ⟨boundary.coherent,
      Or.inl ⟨boundary.connected, rfl, boundary.fresh.2.1, Nat.two_pos⟩⟩
  have safe :
      ¬ClosesInText
          { endpoint with
            session :=
              extendedSession endpoint.session flags type }.session := by
    rintro ⟨_, stands, _⟩
    cases stands
  rcases
      exists_buffer
        { extendedSession endpoint.session flags type with
          frameIn :=
            { (extendedSession endpoint.session flags type).frameIn with
              len := length
              idx := 0 } }
        fits
    with ⟨buffer, bufLen, blocks, allocated⟩
  refine ⟨buffer, bufLen, blocks, ?_⟩
  have extended :
      parseByState
          { endpoint with
            session := extendedSession endpoint.session flags type }.session
          (UInt8.ofNat (length / 256)) (UInt8.ofNat length :: rest) =
        (headerSession endpoint.session flags type length buffer bufLen
            blocks,
          .ok 2) := by
    have bound : ¬length ≥ 2 ^ 63 := by
      have bound : length ≤ 4096 := fits
      omega
    have start :
        lenExtBytes endpoint.session.frameIn.len 2
            (UInt8.ofNat (length / 256) :: UInt8.ofNat length :: rest) =
          (length, 0) := by
      rw [boundary.fresh.1]
      exact lenExtBytes_medium fits rest
    simp only [extendedSession] at allocated
    simp only [parseByState, extendedSession, ymoWsParseLenExt, start,
      if_pos, if_neg bound, allocated, headerSession]
  exact
    (unrolls_of_parsed atLen.opened atLen.sound atLen.connected
      atLen.safe (parseByState_len_extended _ data type _) rfl rfl).trans
      (unrolls_of_parsed opened sound boundary.connected safe extended rfl rfl)

/-- A control frame with an extended length. -/
theorem readsTo_len_control (boundary : AtBoundary endpoint)
    (control : isControl (opCode flags) = true)
    (type : UInt8)
    (rest : Bytes) :
    ReadsTo recvCb outcomes
      { endpoint with session := opSession endpoint.session flags type }
      (0xfe :: rest)
      (wsErrClose
        { endpoint with
          session := extendedSession endpoint.session flags type }
        1002) := by
  have atLen := boundary.atLen flags type
  have bit : flags &&& 0x08 ≠ 0 := control_bit control
  have parsed :
      parseByState
          { endpoint with
            session := opSession endpoint.session flags type }.session
          0xfe rest =
        (extendedSession endpoint.session flags type, .error .ebadmsg) := by
    have masked : ((0xfe : UInt8) &&& ymoWsFlagMasked != 0) = true := by decide
    have two : ((0xfe : UInt8) &&& ymoWsMaskLen).toNat = 126 := by decide
    have long : ¬126 ≤ 125 := by decide
    simp only [parseByState, opSession, ymoWsParseLen, masked, two,
      Bool.not_true, Bool.false_eq_true, if_false, if_neg long,
      if_pos bit, if_pos, extendedSession]
  exact
    readsTo_of_refused atLen.opened atLen.sound atLen.connected
      atLen.safe parsed

/-- A frame that may begin is a data frame or a control frame. -/
theorem opVerdict_kind {msgType flags type : UInt8}
    (verdict : opVerdict msgType flags = .ok type) :
    isData (opCode flags) = true ∨ isControl (opCode flags) = true := by
  by_cases control : isControl (opCode flags) = true
  · exact Or.inr control
  · left
    simp only [opVerdict, if_neg control] at verdict
    simp only [isData, Bool.or_eq_true, beq_iff_eq]
    split_ifs at verdict with reserved continues outside started
    · exact Or.inl (Or.inl continues)
    · rcases started with text | binary
      · exact Or.inl (Or.inr text)
      · exact Or.inr binary
    · rcases started with text | binary
      · exact Or.inl (Or.inr text)
      · exact Or.inr binary

/-- The header of a frame that may begin. -/
theorem unrolls_header (boundary : AtBoundary endpoint) {flags type : UInt8}
    (verdict : opVerdict endpoint.session.msgType flags = .ok type)
    (fits : length ≤ ymoWsFrameMax)
    (short : isControl (opCode flags) = true → length ≤ 125)
    (rest : Bytes) :
    ∃ buffer bufLen blocks,
      Unrolls recvCb outcomes endpoint
        (flags :: (lengthBytes length ++ rest))
        { endpoint with
          session :=
            headerSession endpoint.session flags type length buffer
              bufLen blocks }
        rest := by
  have begun : Unrolls recvCb outcomes _ _ _ _ :=
    unrolls_op boundary verdict (lengthBytes length ++ rest)
  by_cases fewer : length ≤ 125
  · rcases unrolls_len_short boundary flags type fewer rest
      with ⟨buffer, bufLen, blocks, unrolls⟩
    refine ⟨buffer, bufLen, blocks, begun.trans ?_⟩
    rw [lengthBytes, if_pos fewer]
    exact unrolls
  · have data : isData (opCode flags) = true :=
      (opVerdict_kind verdict).resolve_right fun control =>
        fewer (short control)
    have long := Nat.lt_of_not_le fewer
    rcases unrolls_len_medium boundary data type long fits rest
      with ⟨buffer, bufLen, blocks, unrolls⟩
    refine ⟨buffer, bufLen, blocks, begun.trans ?_⟩
    rw [lengthBytes_medium long fits]
    exact unrolls

/-! ## The key and the payload -/

theorem AtKey.sound (atKey : AtKey session) : Sound session := by
  refine ⟨atKey.coherent, Or.inl ⟨atKey.connected, ?_⟩⟩
  rw [WsFrame.Ready, atKey.stands]
  refine ⟨atKey.masked, atKey.parsed, ?_⟩
  rw [atKey.idx]
  exact Nat.zero_lt_succ _

/-- The masking key after its bytes are stored. -/
def storeKey (memory : Memory) (key : Fin 4 → UInt8) : Memory :=
  storeAll memory 0 (List.ofFn key)

theorem storeKey_apply (key : Fin 4 → UInt8) (index : Fin 4) :
    storeKey memory key index = key index := by
  simp only [storeKey, List.ofFn_succ, List.ofFn_zero, storeAll]
  fin_cases index
  · rfl
  · rfl
  · rfl
  · rfl

theorem maskingKeyBytes_whole (key : Fin 4 → UInt8) (rest : Bytes) :
    maskingKeyBytes memory 0 (List.ofFn key ++ rest) =
      (storeKey memory key, 4) := by
  simp only [storeKey, List.ofFn_succ, List.ofFn_zero, List.cons_append,
    List.nil_append, maskingKeyBytes, storeAll]
  rfl

/-- The session after the key of a frame that has a payload. -/
def keySession (before : WsSession) (key : Fin 4 → UInt8) : WsSession :=
  { before with
    frameIn :=
      { before.frameIn with
        maskingKey := storeKey before.frameIn.maskingKey key
        idx := 4
        parseState := .payload } }

/-- The session after the key of a frame that is empty. -/
def emptySession (before : WsSession) (key : Fin 4 → UInt8) : WsSession :=
  WsSession.pushRecv
    { before with
      frameIn :=
        { before.frameIn with
          maskingKey := storeKey before.frameIn.maskingKey key
          idx := 4
          parseState := .complete } }
    none 0

theorem parseByState_key (atKey : AtKey session) (key : Fin 4 → UInt8)
    (rest : Bytes) :
    ∃ ch more,
      List.ofFn key ++ rest = ch :: more ∧
        parseByState session ch more =
          (if session.frameIn.len ≠ 0 then keySession session key
            else emptySession session key,
            .ok 4) := by
  have whole := maskingKeyBytes_whole session.frameIn.maskingKey key rest
  have cut :
      List.ofFn key ++ rest =
        key 0 :: (List.ofFn (fun index : Fin 3 => key index.succ) ++
          rest) := by
    rw [List.ofFn_succ]
    rfl
  rw [cut] at whole
  refine ⟨_, _, cut, ?_⟩
  rw [parseByState, atKey.stands]
  dsimp only
  rw [ymoWsParseMaskingKey]
  simp only [atKey.masked, Bool.not_true, Bool.false_eq_true, if_false,
    atKey.idx, whole, if_pos]
  split_ifs
  · simp only [keySession, atKey.masked, Nat.sub_zero]
  · simp only [emptySession, atKey.masked, Nat.sub_zero]

theorem AtKey.safe (atKey : AtKey session) : ¬ClosesInText session := by
  rintro ⟨_, stands, _⟩
  rw [atKey.stands] at stands
  cases stands

/-- The key of a frame that has a payload. -/
theorem unrolls_key (opened : endpoint.conn = .opened)
    (atKey : AtKey endpoint.session)
    (nonempty : endpoint.session.frameIn.len ≠ 0)
    (key : Fin 4 → UInt8)
    (rest : Bytes) :
    Unrolls recvCb outcomes endpoint (List.ofFn key ++ rest)
      { endpoint with session := keySession endpoint.session key }
      rest := by
  rcases parseByState_key atKey key rest with ⟨ch, more, cut, parsed⟩
  rw [if_pos nonempty] at parsed
  have left : (ch :: more).drop 4 = rest := by
    rw [← cut]
    simp
  rw [cut]
  exact
    unrolls_of_parsed opened atKey.sound atKey.connected atKey.safe
      parsed rfl left

/-- The key of a frame that is empty. -/
theorem unrolls_key_empty (opened : endpoint.conn = .opened)
    (atKey : AtKey endpoint.session)
    (empty : endpoint.session.frameIn.len = 0)
    (key : Fin 4 → UInt8)
    (rest : Bytes) :
    Unrolls recvCb outcomes endpoint (List.ofFn key ++ rest)
      (dispatch recvCb outcomes
        { endpoint with session := emptySession endpoint.session key })
      rest := by
  rcases parseByState_key atKey key rest with ⟨ch, more, cut, parsed⟩
  rw [if_neg (not_not.mpr empty)] at parsed
  have left : (ch :: more).drop 4 = rest := by
    rw [← cut]
    simp
  rw [cut]
  exact
    unrolls_of_parsed opened atKey.sound atKey.connected atKey.safe
      parsed rfl left

/-- The payload is next. -/
structure AtPayload
    (session : WsSession)
    (frame : ClientFrame) :
    Prop where
  connected : session.state = .connected
  coherent : session.utf8State.Coherent
  stands : session.frameIn.parseState = .payload
  parsed : session.frameIn.parsed = 0
  idx : session.frameIn.idx = 4
  len : session.frameIn.len = frame.payload.length
  flags : session.frameIn.flags = frame.flags
  buffer : session.frameIn.buffer.isSome
  key : ∀ index : Fin 4, session.frameIn.maskingKey index = frame.key index
  nonempty : frame.payload ≠ []

variable {frame : ClientFrame}

theorem AtPayload.sound (atPayload : AtPayload session frame) :
    Sound session := by
  refine ⟨atPayload.coherent, Or.inl ⟨atPayload.connected, ?_⟩⟩
  rw [WsFrame.Ready, atPayload.stands]
  dsimp only
  rw [atPayload.parsed, atPayload.len]
  exact List.length_pos_of_ne_nil atPayload.nonempty

/-- What is stored is read back. -/
theorem bytesAt_storeAll (start : Nat) (data : Bytes) :
    bytesAt (storeAll memory start data) start data.length = data := by
  induction data generalizing memory start with
  | nil => rfl
  | cons byte rest ih =>
      rw [List.length_cons, bytesAt_succ, storeAll,
        storeAll_outside _ _ _ (Or.inl (Nat.lt_succ_self start)),
        store_same, ih]

/-- The payload is in the buffer of the frame. -/
theorem AtPayload.stored (atPayload : AtPayload session frame)
    (kept : frame.op ≠ ymoWsOpPong) :
    bytesAt
        ((storePayload session
          (masked frame.key 0 frame.payload)).memory session.frameIn.block)
        0 frame.payload.length =
      frame.payload := by
  have notPong : ¬opCode session.frameIn.flags = ymoWsOpPong := by
    rw [atPayload.flags]
    exact kept
  simp only [storePayload, unmaskPayload, if_neg notPong]
  rw [Function.update_self, atPayload.parsed,
    unmask_masked atPayload.key session.frameIn.idx 0 (by rw [atPayload.idx])]
  exact bytesAt_storeAll _ _ _

/-- The payload of the frame, and no more, is parsed. -/
theorem parseByState_whole (atPayload : AtPayload session frame)
    (rest : Bytes) :
    ∃ ch more,
      masked frame.key 0 frame.payload ++ rest = ch :: more ∧
        parseByState session ch more =
          afterCheck
            (storePayload session (masked frame.key 0 frame.payload))
            frame.payload.length
            (checkPayload
              (storePayload session (masked frame.key 0 frame.payload))
              (checkStart session.frameIn) frame.payload.length) := by
  have length := length_masked frame.key 0 frame.payload
  rcases bytes : masked frame.key 0 frame.payload with _ | ⟨ch, more⟩
  · rw [bytes, List.length_nil] at length
    exact absurd (List.length_eq_zero_iff.mp length.symm) atPayload.nonempty
  · refine ⟨ch, more ++ rest, rfl, ?_⟩
    have piece :
        (ch :: (more ++ rest)).take
            (session.frameIn.len - session.frameIn.parsed) =
          ch :: more := by
      rw [atPayload.len, atPayload.parsed, Nat.sub_zero, ← length,
        bytes, ← List.cons_append, List.take_left']
      rfl
    rw [bytes] at length
    rw [parseByState, atPayload.stands]
    dsimp only
    rw [ymoWsParsePayload_afterCheck]
    dsimp only
    rw [piece, length]

/-- The check of a whole payload. -/
def frameCheck (utf8State : Utf8State) (type : UInt8) (frame : Frame) :
    Except Errno Utf8State :=
  if (opCode frame.flags = ymoWsOpText ∨ type = ymoWsOpText) ∧
      frame.payload ≠ [] then
    ymoCheckUtf8 utf8State frame.payload (fin frame.flags)
  else .ok utf8State

/-- The frame is no control frame with a payload inside a text message. -/
def Plain (type : UInt8) (frame : Frame) : Prop :=
  frame.payload = [] ∨ type ≠ ymoWsOpText ∨ isData (opCode frame.flags) = true

theorem isData_ne {op : UInt8} (data : isData op = true) :
    op ≠ ymoWsOpPong ∧ op ≠ ymoWsOpClose := by
  simp only [isData, Bool.or_eq_true, beq_iff_eq] at data
  rcases data with (rfl | rfl) | rfl
  · decide
  · decide
  · decide

/-- The check of a plain frame sees the payload, the whole of it and no more. -/
theorem AtPayload.checked (atPayload : AtPayload session frame)
    (plain : Plain session.msgType frame.toFrame) :
    checkPayload
        (storePayload session (masked frame.key 0 frame.payload))
        (checkStart session.frameIn) frame.payload.length =
      frameCheck session.utf8State session.msgType frame.toFrame := by
  have stored := stored_storePayload session (masked frame.key 0 frame.payload)
  have length : session.frameIn.len ≠ 0 := by
    rw [atPayload.len]
    exact fun none => atPayload.nonempty (List.length_eq_zero_iff.mp none)
  have textual :
      checksText
            (storePayload session (masked frame.key 0 frame.payload)) =
          true ↔
        opCode frame.flags = ymoWsOpText ∨ session.msgType = ymoWsOpText := by
    rw [checksText_storePayload, checksText, atPayload.flags]
    simp only [Bool.and_eq_true, Bool.or_eq_true, beq_iff_eq,
      bne_iff_ne, ne_eq, length, not_false_eq_true, and_true]
  by_cases text :
      opCode frame.flags = ymoWsOpText ∨ session.msgType = ymoWsOpText
  · have data :
        opCode frame.flags ≠ ymoWsOpPong ∧
          opCode frame.flags ≠ ymoWsOpClose := by
      rcases text with text | inside
      · rw [text]
        decide
      · rcases plain with empty | outside | data
        · exact absurd empty atPayload.nonempty
        · exact absurd inside outside
        · exact isData_ne data
    have start : checkStart session.frameIn = 0 := by
      rw [checkStart, atPayload.flags, atPayload.parsed]
      exact if_neg fun both => data.2 both.1
    have done :
        (storePayload session
          (masked frame.key 0 frame.payload)).frameIn.done = true := by
      rw [WsFrame.done, stored.parsed, stored.len, atPayload.parsed,
        atPayload.len, length_masked, Nat.zero_add, beq_self_eq_true]
    rw [checkPayload, if_pos (textual.mpr text), stored.utf8State,
      stored.block, stored.flags, done, start, atPayload.flags,
      atPayload.stored data.1, frameCheck,
      if_pos ⟨text, atPayload.nonempty⟩, Bool.true_and]
  · rw [checkPayload, if_neg (fun checks => text (textual.mp checks)),
      frameCheck, if_neg (fun both => text both.1), stored.utf8State]

/-! ## Whole frames -/

/-- The payloads of the buckets a complete frame leaves. -/
def leaves (frame : Frame) : List Bytes :=
  if frame.payload = [] then [[]]
  else if opCode frame.flags = ymoWsOpPong then []
  else [frame.payload]

/-- The message type a complete frame leaves. -/
def typeAfter (type : UInt8) (frame : Frame) : UInt8 :=
  if isData (opCode frame.flags) ∧ fin frame.flags ∧
      frame.payload ≠ [] then
    0
  else type

/-- The session has parsed a frame, and it is complete. -/
structure Completed
    (before : WsSession)
    (type : UInt8)
    (frame : Frame)
    (session : WsSession) :
    Prop where
  state : session.state = .connected
  parseState : session.frameIn.parseState = .complete
  flags : session.frameIn.flags = frame.flags
  msgType : session.msgType = typeAfter type frame
  recvList :
    ∃ added,
      session.recvList = before.recvList ++ added ∧
        added.map session.bucketData = leaves frame
  sendList : session.sendList = before.sendList
  sendTail : session.sendTail = before.sendTail

/-- What reading a frame that may begin comes to, after the check. -/
def FrameEnd (recvCb : RecvCb App) (outcomes : List SendOutcome)
    (endpoint : Endpoint App)
    (type : UInt8)
    (frame : Frame)
    (result : Endpoint App) :
    Except Errno Utf8State → Prop
  | .error errno =>
      ∃ session,
        session.state = .connected ∧
          session.frameIn.parseState = .payload ∧
            result =
              wsErrClose { endpoint with session := session }
                (reasonFromErrno errno)
  | .ok utf8State =>
      ∃ session,
        Completed endpoint.session type frame session ∧
          session.utf8State = utf8State ∧
            result =
              dispatch recvCb outcomes { endpoint with session := session }

theorem atPayload_keySession (boundary : AtBoundary endpoint)
    (frame : ClientFrame)
    (nonempty : frame.payload ≠ [])
    (type : UInt8)
    (buffer bufLen blocks : Nat) :
    AtPayload
      (keySession
        (headerSession endpoint.session frame.flags type
          frame.payload.length buffer bufLen blocks)
        frame.key)
      frame :=
  ⟨boundary.connected, boundary.coherent, rfl, boundary.fresh.2.1, rfl,
    rfl, rfl, rfl, storeKey_apply _ frame.key, nonempty⟩

/-- The opcodes whose payload is pushed on the receive list. -/
theorem pushed_iff {op : UInt8}
    (kind : isData op = true ∨ isControl op = true) :
    (isData op = true ∨ op = ymoWsOpClose ∨ op = ymoWsOpPing) ↔
      op ≠ ymoWsOpPong := by
  constructor
  · rintro (data | rfl | rfl)
    · exact (isData_ne data).1
    · decide
    · decide
  · intro kept
    rcases kind with data | control
    · exact Or.inl data
    · simp only [isControl, Bool.or_eq_true, beq_iff_eq] at control
      rcases control with (close | ping) | pong
      · exact Or.inr (Or.inl close)
      · exact Or.inr (Or.inr ping)
      · exact absurd pong kept

/-- The bucket of a frame that has a payload. -/
theorem completed_payload (atPayload : AtPayload session frame)
    (kind : isData frame.op = true ∨ isControl frame.op = true)
    (utf8State : Utf8State) :
    Completed session session.msgType frame.toFrame
      (payloadDone
        (WsSession.withUtf8
          (storePayload session (masked frame.key 0 frame.payload))
          utf8State)) := by
  have stored := stored_storePayload session (masked frame.key 0 frame.payload)
  have kept :
      (storePayload session
        (masked frame.key 0 frame.payload)).recvList =
        session.recvList := by
    rcases
        exists_storePayload session (masked frame.key 0 frame.payload)
      with ⟨idx, memory, whole⟩
    rw [whole]
  have buffer :
      (storePayload session
          (masked frame.key 0 frame.payload)).frameIn.buffer =
        session.frameIn.buffer := by
    rcases
        exists_storePayload session (masked frame.key 0 frame.payload)
      with ⟨idx, memory, whole⟩
    rw [whole]
  have bytes := atPayload.stored
  generalize
    storePayload session (masked frame.key 0 frame.payload) = after
      at stored kept buffer bytes
  have flags : after.frameIn.flags = frame.flags :=
    stored.flags.trans atPayload.flags
  have type :
      (if isData frame.op ∧ fin frame.flags then 0
        else session.msgType) =
        typeAfter session.msgType frame.toFrame := by
    rw [typeAfter]
    split_ifs with ends finished finished
    · rfl
    · exact absurd ⟨ends.1, ends.2, atPayload.nonempty⟩ finished
    · exact absurd ⟨finished.1, finished.2.1⟩ ends
    · rfl
  by_cases pong : frame.op = ymoWsOpPong
  · have unpushed :
        ¬(isData frame.op = true ∨ frame.op = ymoWsOpClose ∨
            frame.op = ymoWsOpPing) :=
      fun pushed => (pushed_iff kind).mp pushed pong
    have done :
        payloadDone (WsSession.withUtf8 after utf8State) =
          { WsSession.withUtf8 after utf8State with
            frameIn := { after.frameIn with parseState := .complete }
            msgType := typeAfter session.msgType frame.toFrame } := by
      rw [← type, ← stored.msgType]
      simp only [payloadDone, WsSession.withUtf8, flags]
      exact if_neg unpushed
    rw [done]
    refine ⟨?_, rfl, flags, rfl, ⟨[], ?_, ?_⟩, ?_, ?_⟩
    · exact stored.state.trans atPayload.connected
    · exact kept.trans (List.append_nil _).symm
    · rw [leaves, if_neg atPayload.nonempty]
      exact (if_pos pong).symm
    · exact stored.sendList
    · exact stored.sendTail
  · have pushed :
        isData frame.op = true ∨ frame.op = ymoWsOpClose ∨
          frame.op = ymoWsOpPing :=
      (pushed_iff kind).mpr pong
    have done :
        payloadDone (WsSession.withUtf8 after utf8State) =
          WsSession.pushRecv
            { WsSession.withUtf8 after utf8State with
              frameIn := { after.frameIn with parseState := .complete }
              msgType := typeAfter session.msgType frame.toFrame }
            after.frameIn.buffer after.frameIn.len := by
      rw [← type, ← stored.msgType]
      simp only [payloadDone, WsSession.withUtf8, flags]
      exact if_pos pushed
    rcases Option.isSome_iff_exists.mp atPayload.buffer with ⟨block, held⟩
    have blockIs : session.frameIn.block = block := by
      rw [WsFrame.block, held, Option.getD_some]
    rw [done]
    refine
      ⟨?_, rfl, flags, rfl,
        ⟨[{ data := after.frameIn.buffer, len := after.frameIn.len }],
          ?_, ?_⟩, ?_, ?_⟩
    · exact stored.state.trans atPayload.connected
    · exact congrArg (· ++ _) kept
    · rw [leaves, if_neg atPayload.nonempty]
      refine Eq.trans ?_ (if_neg pong).symm
      have read := bytes pong
      rw [blockIs] at read
      rw [List.map_singleton, WsSession.bucketData, buffer, held,
        stored.len, atPayload.len]
      exact congrArg (fun bytes => [bytes]) read
    · exact stored.sendList
    · exact stored.sendTail

/-- The payload of a frame is read to the end of the frame. -/
theorem readsTo_payload (opened : endpoint.conn = .opened)
    (atPayload : AtPayload endpoint.session frame)
    (safe : ¬ClosesInText endpoint.session)
    (kind : isData frame.op = true ∨ isControl frame.op = true) :
    ∃ result,
      ReadsTo recvCb outcomes endpoint
          (masked frame.key 0 frame.payload) result ∧
        FrameEnd recvCb outcomes endpoint endpoint.session.msgType
          frame.toFrame result
          (checkPayload
            (storePayload endpoint.session (masked frame.key 0 frame.payload))
            (checkStart endpoint.session.frameIn)
            frame.payload.length) := by
  rcases parseByState_whole atPayload [] with ⟨ch, more, cut, parsed⟩
  rw [List.append_nil] at cut
  have stored :=
    stored_storePayload endpoint.session (masked frame.key 0 frame.payload)
  have completed := completed_payload atPayload kind
  have left : (ch :: more).drop frame.payload.length = [] := by
    rw [← cut]
    refine List.drop_of_length_le ?_
    rw [length_masked]
  have done :
      (storePayload endpoint.session
        (masked frame.key 0 frame.payload)).frameIn.done = true := by
    rw [WsFrame.done, stored.parsed, stored.len, atPayload.parsed,
      atPayload.len, length_masked, Nat.zero_add, beq_self_eq_true]
  rcases checked :
      checkPayload
        (storePayload endpoint.session (masked frame.key 0 frame.payload))
        (checkStart endpoint.session.frameIn) frame.payload.length
    with errno | utf8State
  · rw [checked] at parsed
    refine
      ⟨wsErrClose
          { endpoint with
            session :=
              storePayload endpoint.session
                (masked frame.key 0 frame.payload) }
          (reasonFromErrno errno),
        ?_, ⟨_, ?_, ?_, rfl⟩⟩
    · rw [cut] at parsed ⊢
      exact
        readsTo_of_refused opened atPayload.sound atPayload.connected
          safe parsed
    · exact stored.state.trans atPayload.connected
    · exact stored.parseState.trans atPayload.stands
  · have finished :
        (WsSession.withUtf8
          (storePayload endpoint.session (masked frame.key 0 frame.payload))
          utf8State).frameIn.done = true :=
      done
    rw [checked, afterCheck, if_pos finished] at parsed
    refine ⟨_, ?_, ⟨_, completed utf8State, payloadDone_utf8State _, rfl⟩⟩
    rw [cut]
    refine
      (unrolls_of_parsed opened atPayload.sound atPayload.connected safe
        parsed ?_ left).readsTo
    rw [afterParse, if_pos (completed utf8State).parseState, cut]

/-- The header and the key leave the receive list and the send list alone. -/
theorem FrameEnd.rebase {recvCb : RecvCb App} {outcomes : List SendOutcome}
    {endpoint result : Endpoint App}
    (session : WsSession)
    (recvList : session.recvList = endpoint.session.recvList)
    (sendList : session.sendList = endpoint.session.sendList)
    (sendTail : session.sendTail = endpoint.session.sendTail)
    {frame : Frame}
    {checked : Except Errno Utf8State}
    (ends :
      FrameEnd recvCb outcomes { endpoint with session := session } type
        frame result checked) :
    FrameEnd recvCb outcomes endpoint type frame result checked := by
  rcases checked with errno | utf8State
  · exact ends
  · rcases ends with ⟨later, completed, utf8, same⟩
    refine ⟨later, ?_, utf8, same⟩
    rcases completed.recvList with ⟨added, whole, payloads⟩
    exact
      ⟨completed.state, completed.parseState, completed.flags,
        completed.msgType,
        ⟨added, whole.trans (congrArg (· ++ added) recvList), payloads⟩,
        completed.sendList.trans sendList,
        completed.sendTail.trans sendTail⟩

/--
Reading a frame between two frames.  A frame that may begin here is complete when
its bytes are read, unless its payload fails the check; the check of a plain frame
is that of its payload.
-/
theorem readsTo_encode (boundary : AtBoundary endpoint) (frame : ClientFrame)
    (verdict : opVerdict endpoint.session.msgType frame.flags = .ok type)
    (fits : frame.payload.length ≤ ymoWsFrameMax)
    (short : isControl frame.op = true → frame.payload.length ≤ 125)
    (safe : ¬(frame.op = ymoWsOpClose ∧ type = ymoWsOpText)) :
    ∃ checked result,
      (Plain type frame.toFrame →
          checked = frameCheck endpoint.session.utf8State type frame.toFrame) ∧
        ReadsTo recvCb outcomes endpoint frame.encode result ∧
          FrameEnd recvCb outcomes endpoint type frame.toFrame result
            checked := by
  have kind := opVerdict_kind verdict
  rcases
      unrolls_header boundary verdict fits short
        (List.ofFn frame.key ++ masked frame.key 0 frame.payload)
    with ⟨buffer, bufLen, blocks, header⟩
  have atKey :=
    atKey_headerSession boundary frame.flags type frame.payload.length
      buffer bufLen blocks
  have opened :
      { endpoint with
        session :=
          headerSession endpoint.session frame.flags type
            frame.payload.length buffer bufLen blocks }.conn =
        .opened :=
    boundary.opened
  by_cases empty : frame.payload = []
  · have without :
        { endpoint with
          session :=
            headerSession endpoint.session frame.flags type
              frame.payload.length buffer bufLen
                blocks }.session.frameIn.len = 0 := by
      show frame.payload.length = 0
      rw [empty, List.length_nil]
    have keyed : Unrolls recvCb outcomes _ _ _ _ :=
      unrolls_key_empty opened atKey without frame.key
        (masked frame.key 0 frame.payload)
    have nothing : masked frame.key 0 frame.payload = [] := by
      rw [empty, masked]
    have reads := header.trans keyed
    rw [nothing] at reads
    refine
      ⟨.ok endpoint.session.utf8State,
        dispatch recvCb outcomes
          { endpoint with
            session :=
              emptySession
                (headerSession endpoint.session frame.flags type
                  frame.payload.length buffer bufLen blocks)
                frame.key },
        ?_, ?_, ?_⟩
    · intro _
      rw [frameCheck, if_neg fun both => both.2 empty]
    · rw [ClientFrame.encode, nothing]
      exact reads.readsTo
    · refine
        ⟨emptySession
            (headerSession endpoint.session frame.flags type
              frame.payload.length buffer bufLen blocks)
            frame.key,
          ⟨?_, rfl, rfl, ?_, ⟨[{ data := none, len := 0 }], rfl, ?_⟩,
            rfl, rfl⟩,
          rfl, rfl⟩
      · exact boundary.connected
      · rw [typeAfter, if_neg fun both => both.2.2 empty]
        rfl
      · rw [leaves, if_pos empty]
        rfl
  · have remains :
        { endpoint with
          session :=
            headerSession endpoint.session frame.flags type
              frame.payload.length buffer bufLen
                blocks }.session.frameIn.len ≠ 0 := by
      show frame.payload.length ≠ 0
      exact fun none => empty (List.length_eq_zero_iff.mp none)
    have atPayload :=
      atPayload_keySession boundary frame empty type buffer bufLen blocks
    have keyed : Unrolls recvCb outcomes _ _ _ _ :=
      unrolls_key opened atKey remains frame.key
        (masked frame.key 0 frame.payload)
    have opened' :
        { endpoint with
          session :=
            keySession
              (headerSession endpoint.session frame.flags type
                frame.payload.length buffer bufLen blocks)
              frame.key }.conn = .opened :=
      boundary.opened
    have safe' :
        ¬ClosesInText
            { endpoint with
              session :=
                keySession
                  (headerSession endpoint.session frame.flags type
                    frame.payload.length buffer bufLen blocks)
                  frame.key }.session := by
      rintro ⟨_, _, closes, text⟩
      exact safe ⟨closes, text⟩
    rcases readsTo_payload opened' atPayload safe' kind
      with ⟨result, reads, ends⟩
    refine ⟨_, result, atPayload.checked, header _ (keyed _ reads), ?_⟩
    refine
      FrameEnd.rebase
        (keySession
          (headerSession endpoint.session frame.flags type
            frame.payload.length buffer bufLen blocks)
          frame.key)
        rfl rfl rfl ?_
    exact ends

/-- A control frame that is too long is refused. -/
theorem readsTo_encode_long (boundary : AtBoundary endpoint)
    (frame : ClientFrame)
    (verdict : opVerdict endpoint.session.msgType frame.flags = .ok type)
    (fits : frame.payload.length ≤ ymoWsFrameMax)
    (control : isControl frame.op = true)
    (long : 125 < frame.payload.length) :
    ReadsTo recvCb outcomes endpoint frame.encode
      (wsErrClose
        { endpoint with
          session := extendedSession endpoint.session frame.flags type }
        1002) := by
  have begun : Unrolls recvCb outcomes _ _ _ _ :=
    unrolls_op boundary verdict
      (lengthBytes frame.payload.length ++
        (List.ofFn frame.key ++ masked frame.key 0 frame.payload))
  refine begun _ ?_
  rw [lengthBytes_medium long fits]
  exact readsTo_len_control boundary control type _

end Yimmo.Ws.Encode
