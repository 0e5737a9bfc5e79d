import Yimmo.Ws.Session

/-!
# The read loops

Every call of a parse function consumes a byte, so the loops of
`ymo_proto_ws_read` and `ymo_read_cb` end, and where a read is in a frame is all
that is kept between two reads.  `ymoReadCb_of_parsed` unrolls the two loops by
one call of a parse function: the frame goes on, is dispatched, or fails, and the
rest of the buffer is read as if it had been received by itself.
-/

namespace Yimmo.Ws.ReadLoop

open Yimmo.Core.StatusCode
open Yimmo.Core.Net
open Yimmo.Core.Utf8
open Yimmo.Lib.ByteMemory
open Yimmo.Lib.TurnLoop
open Yimmo.Ws.Parse
open Yimmo.Ws.Session

variable
    {App : Type}
    {session : WsSession}
    {endpoint : Endpoint App}
    {before after : WsSession}
    {buffer : Bytes}
    (recvCb : RecvCb App)
    (outcomes : List SendOutcome)

/-! ## What one call of a parse function does -/

/-- Where the parser can stand between two reads. -/
def WsFrame.Ready (frame : WsFrame) : Prop :=
  match frame.parseState with
  | .op => frame.len = 0 ∧ frame.parsed = 0 ∧ frame.idx = 0
  | .len => frame.len = 0 ∧ frame.parsed = 0 ∧ frame.idx = 0
  | .lenExtended => frame.masked = true ∧ frame.parsed = 0 ∧ 0 < frame.idx
  | .maskingKey => frame.masked = true ∧ frame.parsed = 0 ∧ frame.idx < 4
  | .payload => frame.parsed < frame.len
  | .complete => False

/-- What a call of a parse function on `length` bytes comes to. -/
structure ParseSound
    (before : WsSession)
    (length : Nat)
    (result : WsSession × Parsed) :
    Prop where
  state : result.1.state = before.state
  coherent : result.1.utf8State.Coherent
  progress :
    ∀ count,
      result.2 = .ok count →
        (0 < count ∧ count ≤ length) ∧
          (result.1.frameIn.parseState = .complete ∨
            WsFrame.Ready result.1.frameIn)

theorem ParseSound.failed (state : after.state = before.state)
    (coherent : after.utf8State.Coherent)
    (length : Nat)
    (errno : Errno) :
    ParseSound before length (after, .error errno) where
  state := state
  coherent := coherent
  progress count equality := by cases equality

/-- A frame that goes on. -/
theorem ParseSound.goesOn {length count : Nat}
    (state : after.state = before.state)
    (consumed : 0 < count ∧ count ≤ length)
    (coherent : after.utf8State.Coherent)
    (ready : WsFrame.Ready after.frameIn) :
    ParseSound before length (after, .ok count) where
  state := state
  coherent := coherent
  progress other equality := by
    cases equality
    exact ⟨consumed, Or.inr ready⟩

/-- A frame that is complete. -/
theorem ParseSound.completes {length count : Nat}
    (state : after.state = before.state)
    (consumed : 0 < count ∧ count ≤ length)
    (coherent : after.utf8State.Coherent)
    (complete : after.frameIn.parseState = .complete) :
    ParseSound before length (after, .ok count) where
  state := state
  coherent := coherent
  progress other equality := by
    cases equality
    exact ⟨consumed, Or.inl complete⟩

theorem ymoWsParseOp_sound (coherent : session.utf8State.Coherent)
    (inOp : session.frameIn.parseState = .op)
    (ready : WsFrame.Ready session.frameIn)
    (ch : UInt8)
    (rest : Bytes) :
    ParseSound session (ch :: rest).length (ymoWsParseOp session ch) := by
  have fresh :
      session.frameIn.len = 0 ∧ session.frameIn.parsed = 0 ∧
        session.frameIn.idx = 0 := by
    rw [WsFrame.Ready, inOp] at ready
    exact ready
  have one : 0 < 1 ∧ 1 ≤ (ch :: rest).length :=
    ⟨Nat.one_pos, Nat.succ_le_succ (Nat.zero_le _)⟩
  simp only [ymoWsParseOp]
  split_ifs
  all_goals
    first
      | refine ParseSound.failed ?_ ?_ _ _
        · rfl
        · exact coherent
      | refine ParseSound.goesOn ?_ one ?_ ?_
        · rfl
        · exact coherent
        · exact fresh

/-- The allocation changes the buffer of the frame only. -/
theorem exists_ymoWsSessionAllocFrame (session : WsSession) (len : Nat) :
    ∃ buffer bufLen blocks status,
      ymoWsSessionAllocFrame session len =
        ({ session with
            frameIn :=
              { session.frameIn with
                buffer := buffer
                bufLen := bufLen }
            blocks := blocks },
          status) := by
  simp only [ymoWsSessionAllocFrame]
  split_ifs
  all_goals exact ⟨_, _, _, _, rfl⟩

theorem ymoWsParseLen_sound (coherent : session.utf8State.Coherent)
    (inLen : session.frameIn.parseState = .len)
    (ready : WsFrame.Ready session.frameIn)
    (ch : UInt8)
    (rest : Bytes) :
    ParseSound session (ch :: rest).length (ymoWsParseLen session ch) := by
  have fresh :
      session.frameIn.len = 0 ∧ session.frameIn.parsed = 0 ∧
        session.frameIn.idx = 0 := by
    rw [WsFrame.Ready, inLen] at ready
    exact ready
  have one : 0 < 1 ∧ 1 ≤ (ch :: rest).length :=
    ⟨Nat.one_pos, Nat.succ_le_succ (Nat.zero_le _)⟩
  simp only [ymoWsParseLen]
  split_ifs with unmasked short large control control
  · refine ParseSound.failed ?_ ?_ _ _
    · rfl
    · exact coherent
  · rcases
        exists_ymoWsSessionAllocFrame
          { session with
            frameIn :=
              { session.frameIn with
                masked := ch &&& ymoWsFlagMasked != 0
                len := (ch &&& ymoWsMaskLen).toNat
                parseState := .maskingKey } }
          (ch &&& ymoWsMaskLen).toNat
      with ⟨buffer, bufLen, blocks, status, allocated⟩
    rw [allocated]
    cases status with
    | okay =>
        refine ParseSound.goesOn ?_ one ?_ ?_
        · rfl
        · exact coherent
        · refine ⟨?_, fresh.2.1, ?_⟩
          · simpa using unmasked
          · show session.frameIn.idx < 4
            rw [fresh.2.2]
            exact Nat.zero_lt_succ _
    | err errno =>
        refine ParseSound.failed ?_ ?_ _ _
        · rfl
        · exact coherent
  all_goals
    first
      | refine ParseSound.failed ?_ ?_ _ _
        · rfl
        · exact coherent
      | refine ParseSound.goesOn ?_ one ?_ ?_
        · rfl
        · exact coherent
        · refine ⟨?_, fresh.2.1, ?_⟩
          · simpa using unmasked
          · simp_all

/-- The loop over the extended length takes as many bytes as it can. -/
theorem lenExtBytes_idx (len idx : Nat) (bytes : Bytes) :
    (lenExtBytes len idx bytes).2 = idx - bytes.length := by
  induction bytes generalizing len idx with
  | nil => cases idx <;> rfl
  | cons byte rest ih =>
      cases idx with
      | zero => simp [lenExtBytes]
      | succ idx =>
          rw [lenExtBytes, ih, List.length_cons]
          omega

theorem ymoWsParseLenExt_sound (coherent : session.utf8State.Coherent)
    (inLenExt : session.frameIn.parseState = .lenExtended)
    (ready : WsFrame.Ready session.frameIn)
    (ch : UInt8)
    (rest : Bytes) :
    ParseSound session (ch :: rest).length
      (ymoWsParseLenExt session (ch :: rest)) := by
  have started :
      session.frameIn.masked = true ∧ session.frameIn.parsed = 0 ∧
        0 < session.frameIn.idx := by
    rw [WsFrame.Ready, inLenExt] at ready
    exact ready
  have counted :=
    lenExtBytes_idx session.frameIn.len session.frameIn.idx (ch :: rest)
  rw [List.length_cons] at counted
  rw [List.length_cons]
  simp only [ymoWsParseLenExt]
  generalize
    lenExtBytes session.frameIn.len session.frameIn.idx (ch :: rest) =
      extended at counted
  rcases extended with ⟨len, idx⟩
  dsimp only at counted
  split_ifs with finished large
  · refine ParseSound.failed ?_ ?_ _ _
    · rfl
    · exact coherent
  · rcases
        exists_ymoWsSessionAllocFrame
          { session with
            frameIn := { session.frameIn with len := len, idx := idx } }
          len
      with ⟨buffer, bufLen, blocks, status, allocated⟩
    rw [allocated]
    cases status with
    | okay =>
        refine ParseSound.goesOn ?_ ⟨started.2.2, ?_⟩ ?_ ?_
        · rfl
        · omega
        · exact coherent
        · refine ⟨started.1, started.2.1, ?_⟩
          show idx < 4
          omega
    | err errno =>
        refine ParseSound.failed ?_ ?_ _ _
        · rfl
        · exact coherent
  · refine ParseSound.goesOn ?_ ⟨?_, ?_⟩ ?_ ?_
    · rfl
    · omega
    · omega
    · exact coherent
    · rw [WsFrame.Ready]
      simp only [inLenExt]
      exact ⟨started.1, started.2.1, Nat.pos_of_ne_zero finished⟩

/-- The loop over the masking key takes as many bytes as it can. -/
theorem maskingKeyBytes_idx (key : Memory) {idx : Nat} (inside : idx < 4)
    (bytes : Bytes) :
    (maskingKeyBytes key idx bytes).2 = min 4 (idx + bytes.length) := by
  induction bytes generalizing key idx with
  | nil =>
      rw [maskingKeyBytes, List.length_nil]
      omega
  | cons byte rest ih =>
      rw [maskingKeyBytes, List.length_cons]
      split
      · omega
      · rw [ih _ (by omega)]
        omega

theorem ymoWsParseMaskingKey_sound (coherent : session.utf8State.Coherent)
    (inKey : session.frameIn.parseState = .maskingKey)
    (ready : WsFrame.Ready session.frameIn)
    (ch : UInt8)
    (rest : Bytes) :
    ParseSound session (ch :: rest).length
      (ymoWsParseMaskingKey session (ch :: rest)) := by
  have started :
      session.frameIn.masked = true ∧ session.frameIn.parsed = 0 ∧
        session.frameIn.idx < 4 := by
    rw [WsFrame.Ready, inKey] at ready
    exact ready
  have counted :=
    maskingKeyBytes_idx session.frameIn.maskingKey started.2.2 (ch :: rest)
  rw [List.length_cons] at counted
  rw [List.length_cons]
  simp only [ymoWsParseMaskingKey, started.1, Bool.not_true,
    Bool.false_eq_true, if_false]
  generalize
    maskingKeyBytes session.frameIn.maskingKey session.frameIn.idx
      (ch :: rest) = keyed at counted
  rcases keyed with ⟨key, idx⟩
  dsimp only at counted
  split_ifs with finished nonempty
  · refine ParseSound.goesOn ?_ ⟨?_, ?_⟩ ?_ ?_
    · rfl
    · omega
    · omega
    · exact coherent
    · show session.frameIn.parsed < session.frameIn.len
      omega
  · refine ParseSound.completes ?_ ⟨?_, ?_⟩ ?_ ?_
    · rfl
    · omega
    · omega
    · exact coherent
    · rfl
  · refine ParseSound.goesOn ?_ ⟨?_, ?_⟩ ?_ ?_
    · rfl
    · omega
    · omega
    · exact coherent
    · rw [WsFrame.Ready]
      simp only [inKey]
      refine ⟨trivial, started.2.1, ?_⟩
      omega

/-- Storing changes how far the frame is, and the memory. -/
theorem exists_storePayload (session : WsSession) (piece : Bytes) :
    ∃ idx memory,
      storePayload session piece =
        { session with
          frameIn :=
            { session.frameIn with
              parsed := session.frameIn.parsed + piece.length
              idx := idx }
          memory := memory } := by
  simp only [storePayload, unmaskPayload]
  split
  all_goals exact ⟨_, _, rfl⟩

/-- What stands after a piece is stored. -/
structure Stored
    (before : WsSession)
    (piece : Bytes)
    (after : WsSession) :
    Prop where
  parsed : after.frameIn.parsed = before.frameIn.parsed + piece.length
  len : after.frameIn.len = before.frameIn.len
  flags : after.frameIn.flags = before.frameIn.flags
  block : after.frameIn.block = before.frameIn.block
  parseState : after.frameIn.parseState = before.frameIn.parseState
  msgType : after.msgType = before.msgType
  state : after.state = before.state
  utf8State : after.utf8State = before.utf8State
  sendList : after.sendList = before.sendList
  sendTail : after.sendTail = before.sendTail

theorem stored_storePayload (session : WsSession) (piece : Bytes) :
    Stored session piece (storePayload session piece) := by
  rcases exists_storePayload session piece with ⟨idx, memory, stored⟩
  rw [stored]
  exact ⟨rfl, rfl, rfl, rfl, rfl, rfl, rfl, rfl, rfl, rfl⟩

theorem checksText_storePayload (session : WsSession) (piece : Bytes) :
    checksText (storePayload session piece) = checksText session := by
  have stored := stored_storePayload session piece
  rw [checksText, checksText, stored.flags, stored.msgType, stored.len]

theorem checkPayload_coherent (coherent : session.utf8State.Coherent)
    {start parseLen : Nat}
    {later : Utf8State}
    (checked : checkPayload session start parseLen = .ok later) :
    later.Coherent := by
  simp only [checkPayload] at checked
  split at checked
  · rcases ymoCheckUtf8_cases coherent
        (bytesAt (session.memory session.frameIn.block) start parseLen)
        (session.frameIn.done && fin session.frameIn.flags)
      with ⟨position, last, _, passed, stillCoherent, _, _⟩ | ⟨refused, _⟩
    · rw [passed] at checked
      cases checked
      exact stillCoherent
    · rw [refused] at checked
      cases checked
  · cases checked
    exact coherent

@[simp]
theorem payloadDone_state (session : WsSession) :
    (payloadDone session).state = session.state := by
  simp only [payloadDone]
  split <;> rfl

@[simp]
theorem payloadDone_utf8State (session : WsSession) :
    (payloadDone session).utf8State = session.utf8State := by
  simp only [payloadDone]
  split <;> rfl

@[simp]
theorem payloadDone_frameIn (session : WsSession) :
    (payloadDone session).frameIn =
      { session.frameIn with parseState := .complete } := by
  simp only [payloadDone]
  split <;> rfl

theorem ymoWsParsePayload_sound (coherent : session.utf8State.Coherent)
    (inPayload : session.frameIn.parseState = .payload)
    (ready : WsFrame.Ready session.frameIn)
    (ch : UInt8)
    (rest : Bytes) :
    ParseSound session (ch :: rest).length
      (ymoWsParsePayload session (ch :: rest)) := by
  have started : session.frameIn.parsed < session.frameIn.len := by
    rw [WsFrame.Ready, inPayload] at ready
    exact ready
  simp only [ymoWsParsePayload]
  generalize measured :
    (ch :: rest).take (session.frameIn.len - session.frameIn.parsed) = piece
  have consumed : 0 < piece.length ∧ piece.length ≤ (ch :: rest).length := by
    rw [← measured, List.length_take, List.length_cons]
    omega
  have inside :
      session.frameIn.parsed + piece.length ≤ session.frameIn.len := by
    rw [← measured, List.length_take]
    omega
  rcases exists_storePayload session piece with ⟨idx, memory, stored⟩
  rw [stored]
  split
  · refine ParseSound.failed ?_ ?_ _ _
    · rfl
    · exact coherent
  · next later checked =>
      have stillCoherent : later.Coherent := by
        refine checkPayload_coherent ?_ checked
        exact coherent
      split_ifs with done
      · refine ParseSound.completes ?_ consumed ?_ ?_
        · exact payloadDone_state _
        · rw [payloadDone_utf8State]
          exact stillCoherent
        · rw [payloadDone_frameIn]
      · refine ParseSound.goesOn ?_ consumed ?_ ?_
        · rfl
        · exact stillCoherent
        · rw [WsFrame.Ready]
          simp only [inPayload]
          simp only [WsFrame.done, beq_iff_eq] at done
          omega

/-- Every call of a parse function consumes a byte, or fails. -/
theorem parseByState_sound (coherent : session.utf8State.Coherent)
    (ready : WsFrame.Ready session.frameIn)
    (ch : UInt8)
    (rest : Bytes) :
    ParseSound session (ch :: rest).length (parseByState session ch rest) := by
  rw [parseByState]
  cases stands : session.frameIn.parseState with
  | op => exact ymoWsParseOp_sound coherent stands ready ch rest
  | len => exact ymoWsParseLen_sound coherent stands ready ch rest
  | lenExtended => exact ymoWsParseLenExt_sound coherent stands ready ch rest
  | maskingKey =>
      exact ymoWsParseMaskingKey_sound coherent stands ready ch rest
  | payload => exact ymoWsParsePayload_sound coherent stands ready ch rest
  | complete =>
      rw [WsFrame.Ready, stands] at ready
      exact False.elim ready

/-! ## What a complete frame leads to -/

/-- Between the endpoints frames were queued, and nothing else was done to the
session or the connection. -/
structure OnlySends (before after : Endpoint App) : Prop where
  session :
    after.session =
      { before.session with
        sendList := after.session.sendList
        sendTail := after.session.sendTail }
  conn : after.conn = before.conn

theorem OnlySends.refl (endpoint : Endpoint App) :
    OnlySends endpoint endpoint :=
  ⟨rfl, rfl⟩

theorem OnlySends.trans {first second third : Endpoint App}
    (front : OnlySends first second)
    (back : OnlySends second third) :
    OnlySends first third where
  session := by rw [back.session, front.session]
  conn := back.conn.trans front.conn

theorem OnlySends.state {before after : Endpoint App}
    (sends : OnlySends before after) :
    after.session.state = before.session.state := by
  rw [sends.session]

theorem onlySends_sendNoCheck (endpoint : Endpoint App) (sending : Sending) :
    OnlySends endpoint (ymoWsSessionSendNoCheck endpoint sending) :=
  ⟨rfl, rfl⟩

theorem onlySends_ymoWsSessionSend (endpoint : Endpoint App)
    (sending : Sending) :
    OnlySends endpoint (ymoWsSessionSend endpoint sending).2 := by
  simp only [ymoWsSessionSend]
  split
  · split
    · exact onlySends_sendNoCheck endpoint sending
    all_goals exact OnlySends.refl endpoint
  · exact OnlySends.refl endpoint

theorem onlySends_sendAll (endpoint : Endpoint App) (sends : List Sending) :
    OnlySends endpoint (sendAll endpoint sends) := by
  induction sends generalizing endpoint with
  | nil => exact OnlySends.refl endpoint
  | cons sending rest ih =>
      exact (onlySends_ymoWsSessionSend endpoint sending).trans (ih _)

theorem onlySends_callRecvCb (endpoint : Endpoint App) (flags : UInt8)
    (data : Bytes) :
    OnlySends endpoint (callRecvCb recvCb endpoint flags data).2 := by
  simp only [callRecvCb]
  refine OnlySends.trans ?_ (onlySends_sendAll _ _)
  exact ⟨rfl, rfl⟩

theorem onlySends_wsEchoCb (endpoint : Endpoint App) (flags : UInt8)
    (data : Bytes) :
    OnlySends endpoint (wsEchoCb endpoint flags data).2 :=
  onlySends_sendNoCheck endpoint _

/-- Whatever it is called with, a callback only sends. -/
def Sends (callback : Callback App) : Prop :=
  ∀ endpoint flags data, OnlySends endpoint (callback endpoint flags data).2

theorem onlySends_invokeEach {callback : Callback App} (sends : Sends callback)
    (buckets : List RecvBucket)
    (status : Status)
    (endpoint : Endpoint App) :
    OnlySends endpoint (invokeEach callback buckets status endpoint).2 := by
  induction buckets generalizing status endpoint with
  | nil => exact OnlySends.refl endpoint
  | cons bucket rest ih =>
      have called :=
        sends endpoint endpoint.session.frameIn.flags
          (endpoint.session.bucketData bucket)
      rw [invokeEach]
      generalize
        callback endpoint endpoint.session.frameIn.flags
          (endpoint.session.bucketData bucket) = result at called
      rcases result with ⟨_ | errno, later⟩
      · exact called.trans (ih .okay later)
      · exact called

/-- `invoke_recv_callback` also empties the receive list. -/
theorem session_invokeRecvCallback {callback : Callback App}
    (sends : Sends callback)
    (endpoint : Endpoint App) :
    OnlySends
      { endpoint with session := { endpoint.session with recvList := [] } }
      (invokeRecvCallback callback endpoint).2 := by
  have each :=
    onlySends_invokeEach sends endpoint.session.recvList (.err enoent) endpoint
  constructor
  · simp only [invokeRecvCallback]
    rw [each.session]
  · exact each.conn

/-! ## Sessions between two reads -/

/-- A session that reading has left and goes on from. -/
structure Sound (session : WsSession) : Prop where
  coherent : session.utf8State.Coherent
  standing :
    (session.state = .connected ∧ WsFrame.Ready session.frameIn) ∨
      session.state = .closeReceived ∨ session.state = .error

theorem sound_ymoWsSessionCreate (memory : Nat → Memory) :
    Sound (ymoWsSessionCreate memory) where
  coherent := coherent_ymoUtf8StateReset
  standing := Or.inl ⟨rfl, rfl, rfl, rfl⟩

/-- The session reads no more. -/
def Stopped (session : WsSession) : Prop :=
  session.state = .closeReceived ∨ session.state = .error

theorem Sound.ready (sound : Sound session) (running : ¬Stopped session) :
    session.state = .connected ∧ WsFrame.Ready session.frameIn :=
  sound.standing.resolve_right running

theorem stopped_wsErrClose (endpoint : Endpoint App) (reason : Nat) :
    (wsErrClose endpoint reason).session.state = .error := by
  rw [wsErrClose]
  split_ifs with running
  · rfl
  · exact not_not.mp running

theorem utf8State_wsErrClose (endpoint : Endpoint App) (reason : Nat) :
    (wsErrClose endpoint reason).session.utf8State =
      endpoint.session.utf8State := by
  rw [wsErrClose]
  split_ifs <;> rfl

/-- The outcome of a complete frame on the connection: it is taken and the next
one begins, or the session has stopped and takes everything. -/
structure Dispatched
    (lenIn taken : Nat)
    (before : Endpoint App)
    (result : ReadOutcome × Endpoint App) :
    Prop where
  utf8State : result.2.session.utf8State = before.session.utf8State
  ending :
    (result.1 = .took taken ∧ result.2.session.state = .connected ∧
        WsFrame.Ready result.2.session.frameIn) ∨
      ((result.1 = .took lenIn ∨ result.1 = .failed .eagain) ∧
        Stopped result.2.session)

theorem dispatched_afterCallback {before : Endpoint App}
    (connected : before.session.state = .connected)
    (lenIn taken : Nat)
    {result : Status × Endpoint App}
    (sends :
      OnlySends
        { before with session := { before.session with recvList := [] } }
        result.2 ∨
      OnlySends before result.2) :
    Dispatched lenIn taken before (afterCallback lenIn taken result) := by
  have kept :
      result.2.session.utf8State = before.session.utf8State ∧
        result.2.session.state = .connected := by
    rcases sends with sends | sends
    · rw [sends.session]
      exact ⟨rfl, connected⟩
    · rw [sends.session]
      exact ⟨rfl, connected⟩
  rcases result with ⟨_ | errno, later⟩
  · exact ⟨kept.1, Or.inl ⟨rfl, kept.2, rfl, rfl, rfl⟩⟩
  · refine ⟨?_, Or.inr ⟨Or.inl rfl, Or.inr ?_⟩⟩
    · rw [afterCallback, utf8State_wsErrClose]
      exact kept.1
    · exact stopped_wsErrClose later 1002

theorem session_ymoProtoWsWrite (endpoint : Endpoint App) :
    (ymoProtoWsWrite outcomes endpoint).2.session =
      { endpoint.session with
        sendList := (ymoProtoWsWrite outcomes endpoint).2.session.sendList
        sendTail :=
          (ymoProtoWsWrite outcomes endpoint).2.session.sendTail } := by
  simp only [ymoProtoWsWrite]
  split_ifs
  · rfl
  all_goals split <;> rfl

theorem session_ymoWriteCb (endpoint : Endpoint App) :
    (ymoWriteCb outcomes endpoint).session =
      { endpoint.session with
        sendList := (ymoWriteCb outcomes endpoint).session.sendList
        sendTail := (ymoWriteCb outcomes endpoint).session.sendTail } := by
  have written := session_ymoProtoWsWrite outcomes endpoint
  rw [ymoWriteCb]
  generalize ymoProtoWsWrite outcomes endpoint = result at written
  rcases result with ⟨_ | errno, later⟩
  · exact written
  · dsimp only
    split_ifs
    · exact written
    · exact written

theorem dispatched_handleClientClose (endpoint : Endpoint App)
    (connected : endpoint.session.state = .connected)
    (len taken : Nat) :
    Dispatched len taken endpoint
      (handleClientClose outcomes endpoint len) := by
  have echoed :
      ∀ before : Endpoint App,
        before.session =
            { endpoint.session with state := .closeReceived } →
          Dispatched len taken endpoint
            (ReadOutcome.failed .eagain,
              ymoWriteCb outcomes (invokeRecvCallback wsEchoCb before).2) := by
    intro before entered
    have echo := session_invokeRecvCallback onlySends_wsEchoCb before
    refine ⟨?_, Or.inr ⟨Or.inr rfl, Or.inl ?_⟩⟩
    · show (ymoWriteCb _ _).session.utf8State = _
      rw [session_ymoWriteCb, echo.session, entered]
    · show (ymoWriteCb _ _).session.state = _
      rw [session_ymoWriteCb, echo.session, entered]
  simp only [handleClientClose, connected]
  split
  · next unexpected => exact absurd unexpected (by decide)
  · simp only [answerClose]
    split
    · refine ⟨?_, Or.inr ⟨Or.inl rfl, Or.inr ?_⟩⟩
      · exact utf8State_wsErrClose _ _
      · exact stopped_wsErrClose _ _
    · exact echoed _ rfl

theorem dispatched_wsParseComplete (outcomes : List SendOutcome)
    (endpoint : Endpoint App)
    (connected : endpoint.session.state = .connected)
    (lenIn taken : Nat) :
    Dispatched lenIn taken endpoint
      (wsParseComplete recvCb outcomes endpoint lenIn taken) := by
  simp only [wsParseComplete]
  split_ifs with data close ping pong
  · exact
      dispatched_afterCallback connected lenIn taken
        (Or.inl
          (session_invokeRecvCallback (onlySends_callRecvCb recvCb) endpoint))
  · exact dispatched_handleClientClose outcomes endpoint connected lenIn taken
  · exact
      dispatched_afterCallback connected lenIn taken
        (Or.inl (session_invokeRecvCallback onlySends_wsEchoCb endpoint))
  · exact
      dispatched_afterCallback connected lenIn taken
        (Or.inr (OnlySends.refl endpoint))
  · refine ⟨?_, Or.inr ⟨Or.inl rfl, Or.inr ?_⟩⟩
    · exact utf8State_wsErrClose _ _
    · exact stopped_wsErrClose _ _

/-- The endpoint after a complete frame. -/
def dispatch (recvCb : RecvCb App) (outcomes : List SendOutcome)
    (endpoint : Endpoint App) :
    Endpoint App :=
  (wsParseComplete recvCb outcomes endpoint 0 0).2

theorem snd_afterCallback (lenIn taken : Nat)
    (result : Status × Endpoint App) :
    (afterCallback lenIn taken result).2 = (afterCallback 0 0 result).2 := by
  rcases result with ⟨_ | errno, later⟩ <;> rfl

theorem snd_handleClientClose (endpoint : Endpoint App) (len : Nat) :
    (handleClientClose outcomes endpoint len).2 =
      (handleClientClose outcomes endpoint 0).2 := by
  simp only [handleClientClose, answerClose]
  split_ifs <;> rfl

/-- Where the frame lies in the buffer does not matter to its callbacks. -/
theorem snd_wsParseComplete (outcomes : List SendOutcome)
    (endpoint : Endpoint App)
    (lenIn taken : Nat) :
    (wsParseComplete recvCb outcomes endpoint lenIn taken).2 =
      dispatch recvCb outcomes endpoint := by
  simp only [dispatch, wsParseComplete]
  split_ifs
  · exact snd_afterCallback lenIn taken _
  · rfl
  · exact snd_handleClientClose outcomes endpoint lenIn
  · exact snd_afterCallback lenIn taken _
  · exact snd_afterCallback lenIn taken _
  · rfl

theorem utf8State_dispatch (outcomes : List SendOutcome)
    (connected : endpoint.session.state = .connected) :
    (dispatch recvCb outcomes endpoint).session.utf8State =
      endpoint.session.utf8State :=
  (dispatched_wsParseComplete recvCb outcomes endpoint connected 0 0).utf8State

theorem sound_dispatch (outcomes : List SendOutcome)
    (connected : endpoint.session.state = .connected)
    (coherent : endpoint.session.utf8State.Coherent) :
    Sound (dispatch recvCb outcomes endpoint).session where
  coherent := by
    rw [utf8State_dispatch recvCb outcomes connected]
    exact coherent
  standing := by
    rcases
        (dispatched_wsParseComplete recvCb outcomes endpoint connected 0
          0).ending
      with ⟨_, standing⟩ | ⟨_, stopped⟩
    · exact Or.inl standing
    · exact Or.inr stopped

/-! ## The parse loop -/

/-- What the parse loop keeps. -/
structure Parsing
    (before : WsSession)
    (buffer : Bytes)
    (session : WsSession)
    (left : Bytes) :
    Prop where
  state : session.state = before.state
  coherent : session.utf8State.Coherent
  within : left <:+ buffer
  standing :
    (session.frameIn.parseState = .complete ∧
        left.length < buffer.length) ∨
      WsFrame.Ready session.frameIn

theorem WsFrame.Ready.not_complete {frame : WsFrame}
    (ready : WsFrame.Ready frame) :
    frame.parseState ≠ .complete := by
  intro complete
  rw [WsFrame.Ready, complete] at ready
  exact ready

theorem Parsing.parsed {before session later : WsSession} {buffer rest : Bytes}
    {ch : UInt8}
    {count : Nat}
    (parsing : Parsing before buffer session (ch :: rest))
    (ready : WsFrame.Ready session.frameIn)
    (parsed : parseByState session ch rest = (later, .ok count)) :
    Parsing before buffer later ((ch :: rest).drop count) ∧
      ((ch :: rest).drop count).length < (ch :: rest).length := by
  have sound := parseByState_sound parsing.coherent ready ch rest
  rw [parsed] at sound
  rcases sound.progress count rfl with ⟨consumed, standing⟩
  have shorter : ((ch :: rest).drop count).length < (ch :: rest).length := by
    rw [List.length_drop]
    omega
  refine ⟨⟨?_, sound.coherent, ?_, ?_⟩, shorter⟩
  · exact sound.state.trans parsing.state
  · exact (List.drop_suffix count _).trans parsing.within
  · rcases standing with complete | ready
    · exact
        Or.inl ⟨complete, Nat.lt_of_lt_of_le shorter parsing.within.length_le⟩
    · exact Or.inr ready

theorem parseTurn_again {locals next : WsSession × Bytes}
    (goesOn : parseTurn locals = .again next) :
    ∃ ch rest count,
      locals.2 = ch :: rest ∧
        locals.1.frameIn.parseState ≠ .complete ∧
          parseByState locals.1 ch rest = (next.1, .ok count) ∧
            next.2 = (ch :: rest).drop count := by
  rcases locals with ⟨session, _ | ⟨ch, rest⟩⟩
  · cases goesOn
  · simp only [parseTurn] at goesOn
    split at goesOn
    · cases goesOn
    · next incomplete =>
        split at goesOn
        · cases goesOn
        · next later count parsed =>
            split at goesOn
            · split at goesOn <;> cases goesOn
            · cases goesOn
              exact ⟨ch, rest, count, rfl, incomplete, parsed, rfl⟩

theorem parseTurn_decreases (before : WsSession) (buffer : Bytes)
    (locals next : WsSession × Bytes)
    (parsing : Parsing before buffer locals.1 locals.2)
    (goesOn : parseTurn locals = .again next) :
    Parsing before buffer next.1 next.2 ∧ next.2.length < locals.2.length := by
  rcases parseTurn_again goesOn
    with ⟨ch, rest, count, buffered, incomplete, parsed, left⟩
  rw [left, buffered]
  rw [buffered] at parsing
  have ready :=
    parsing.standing.resolve_left fun complete => incomplete complete.1
  exact parsing.parsed ready parsed

theorem parsing_start (coherent : session.utf8State.Coherent)
    (ready : WsFrame.Ready session.frameIn)
    (buffer : Bytes) :
    Parsing session buffer session buffer :=
  ⟨rfl, coherent, List.suffix_refl buffer, Or.inr ready⟩

theorem parseLoop_nil (session : WsSession) :
    parseLoop session [] = .more session :=
  rfl

/-- The parse loop, unrolled by one call of a parse function. -/
theorem parseLoop_cons (coherent : session.utf8State.Coherent)
    (ready : WsFrame.Ready session.frameIn)
    (ch : UInt8)
    (rest : Bytes) :
    parseLoop session (ch :: rest) =
      match parseByState session ch rest with
      | (later, .error errno) => .failed later errno
      | (later, .ok count) =>
          if later.frameIn.parseState = .complete then
            .complete later ((ch :: rest).drop count)
          else parseLoop later ((ch :: rest).drop count) := by
  have start := parsing_start coherent ready (ch :: rest)
  rcases parsed : parseByState session ch rest with ⟨later, errno | count⟩
  · refine loop_of_done ?_ _
    simp only [parseTurn, if_neg ready.not_complete, parsed]
  · have goesOn := start.parsed ready parsed
    cases left : (ch :: rest).drop count with
    | nil =>
        refine loop_of_done ?_ _
        simp only [parseTurn, if_neg ready.not_complete, parsed, left]
        split_ifs <;> rfl
    | cons next more =>
        rw [left] at goesOn
        have again :
            parseTurn (session, ch :: rest) =
              .again (later, next :: more) := by
          simp only [parseTurn, if_neg ready.not_complete, parsed, left]
        rw [parseLoop, loop_of_again again]
        dsimp only
        split_ifs with complete
        · refine loop_of_done ?_ _
          simp only [parseTurn, if_pos complete, left]
        · rw [left]
          refine
            loop_enough
              (fun locals : WsSession × Bytes =>
                Parsing session (ch :: rest) locals.1 locals.2)
              (fun locals : WsSession × Bytes => locals.2.length)
              (parseTurn_decreases session (ch :: rest))
              ?_ ?_ ?_
          · exact goesOn.1
          · exact Nat.lt_succ_of_lt goesOn.2
          · exact Nat.lt_succ_of_lt (Nat.lt_succ_self _)

/-- What the parse loop ends with; a complete frame leaves a proper suffix of
the buffer. -/
def EndSound (session : WsSession) (buffer : Bytes) :
    ParseEnd → Prop
  | .failed later _ => later.state = session.state ∧ later.utf8State.Coherent
  | .more later =>
      later.state = session.state ∧ later.utf8State.Coherent ∧
        WsFrame.Ready later.frameIn
  | .complete later rest =>
      later.state = session.state ∧ later.utf8State.Coherent ∧
        rest <:+ buffer ∧ rest.length < buffer.length

theorem EndSound.lift {session later : WsSession} {buffer left : Bytes}
    (state : later.state = session.state)
    (within : left <:+ buffer)
    {ended : ParseEnd}
    (sound : EndSound later left ended) :
    EndSound session buffer ended := by
  cases ended with
  | failed last errno => exact ⟨sound.1.trans state, sound.2⟩
  | more last => exact ⟨sound.1.trans state, sound.2⟩
  | complete last rest =>
      exact
        ⟨sound.1.trans state, sound.2.1, sound.2.2.1.trans within,
          Nat.lt_of_lt_of_le sound.2.2.2 within.length_le⟩

theorem endSound_parseLoop (coherent : session.utf8State.Coherent)
    (ready : WsFrame.Ready session.frameIn)
    (buffer : Bytes) :
    EndSound session buffer (parseLoop session buffer) := by
  induction measured : buffer.length using Nat.strong_induction_on
    generalizing session buffer with
  | _ size ih =>
      cases buffer with
      | nil => exact ⟨rfl, coherent, ready⟩
      | cons ch tail =>
          have start := parsing_start coherent ready (ch :: tail)
          have called := parseByState_sound coherent ready ch tail
          rw [parseLoop_cons coherent ready]
          rcases parsed : parseByState session ch tail
            with ⟨middle, errno | count⟩
          · rw [parsed] at called
            exact ⟨called.state, called.coherent⟩
          · rcases start.parsed ready parsed with ⟨goesOn, shorter⟩
            dsimp only
            split_ifs with complete
            · exact ⟨goesOn.state, goesOn.coherent, goesOn.within, shorter⟩
            · have ready' :=
                goesOn.standing.resolve_left fun both => complete both.1
              exact
                EndSound.lift goesOn.state goesOn.within
                  (ih _ (measured ▸ shorter) goesOn.coherent ready' _ rfl)

/-! ## The read loop -/

theorem ymoReadCb_of_conn (outcomes : List SendOutcome)
    (gone : endpoint.conn ≠ .opened)
    (received : Bytes) :
    ymoReadCb recvCb outcomes endpoint received = endpoint :=
  if_neg gone

theorem ymoProtoWsRead_stopped (outcomes : List SendOutcome)
    (stopped : Stopped endpoint.session)
    (buffer : Bytes) :
    ymoProtoWsRead recvCb outcomes endpoint buffer =
      (.took buffer.length, endpoint) :=
  if_pos stopped

theorem readTurn_took_all {recvCb : RecvCb App} {outcomes : List SendOutcome}
    {endpoint later : Endpoint App}
    (took :
      ymoProtoWsRead recvCb outcomes endpoint buffer =
        (.took buffer.length, later)) :
    readTurn recvCb outcomes (endpoint, buffer) = .done later := by
  simp only [readTurn, took, List.drop_length]
  split_ifs <;> rfl

theorem loop_stopped (outcomes : List SendOutcome)
    (stopped : Stopped endpoint.session)
    (buffer : Bytes)
    (fuel : Nat) :
    loop (readTurn recvCb outcomes) (fun locals => locals.1) fuel
      (endpoint, buffer) = endpoint := by
  cases fuel with
  | zero => rfl
  | succ fuel =>
      exact
        loop_of_done
          (readTurn_took_all
            (ymoProtoWsRead_stopped recvCb outcomes stopped buffer))
          fuel

/-- A session that has stopped ignores what it receives. -/
theorem ymoReadCb_of_stopped (outcomes : List SendOutcome)
    (stopped : Stopped endpoint.session)
    (received : Bytes) :
    ymoReadCb recvCb outcomes endpoint received = endpoint := by
  rw [ymoReadCb]
  split_ifs
  · exact loop_stopped recvCb outcomes stopped received _
  · rfl

@[simp]
theorem ymoReadCb_nil (outcomes : List SendOutcome) (endpoint : Endpoint App) :
    ymoReadCb recvCb outcomes endpoint [] = endpoint := by
  rw [ymoReadCb]
  split_ifs
  · refine loop_of_done ?_ _
    refine readTurn_took_all ?_
    simp only [ymoProtoWsRead, parseLoop_nil]
    split_ifs <;> rfl
  · rfl

/-- The endpoint after the parse loop, and the bytes that are left. -/
def finish (recvCb : RecvCb App) (outcomes : List SendOutcome)
    (endpoint : Endpoint App) :
    ParseEnd → Endpoint App × Bytes
  | .complete session rest =>
      (dispatch recvCb outcomes { endpoint with session := session }, rest)
  | .more session => ({ endpoint with session := session }, [])
  | .failed session errno =>
      (wsErrClose { endpoint with session := session }
          (reasonFromErrno errno),
        [])

/-- What the parse loop ends with is sound, and less is left. -/
theorem finish_sound (outcomes : List SendOutcome)
    (sound : Sound endpoint.session)
    (running : ¬Stopped endpoint.session)
    (nonempty : buffer ≠ []) :
    Sound
        (finish recvCb outcomes endpoint
          (parseLoop endpoint.session buffer)).1.session ∧
      (finish recvCb outcomes endpoint
          (parseLoop endpoint.session buffer)).2.length <
        buffer.length := by
  rcases sound.ready running with ⟨connected, ready⟩
  have positive := List.length_pos_of_ne_nil nonempty
  have ends := endSound_parseLoop sound.coherent ready buffer
  cases ended : parseLoop endpoint.session buffer with
  | failed session errno =>
      rw [ended] at ends
      refine ⟨⟨?_, Or.inr (Or.inr (stopped_wsErrClose _ _))⟩, positive⟩
      show (wsErrClose _ _).session.utf8State.Coherent
      rw [utf8State_wsErrClose]
      exact ends.2
  | more session =>
      rw [ended] at ends
      exact ⟨⟨ends.2.1, Or.inl ⟨ends.1.trans connected, ends.2.2⟩⟩, positive⟩
  | complete session rest =>
      rw [ended] at ends
      exact
        ⟨sound_dispatch recvCb outcomes (ends.1.trans connected)
            ends.2.1,
          ends.2.2.2⟩

/-- One turn of the read loop, by the end of the parse loop. -/
theorem readTurn_finish
    (outcomes : List SendOutcome)
    (sound : Sound endpoint.session)
    (running : ¬Stopped endpoint.session)
    (buffer : Bytes)
    {later : Endpoint App}
    {rest : Bytes}
    (finished :
      finish recvCb outcomes endpoint
        (parseLoop endpoint.session buffer) = (later, rest)) :
    (readTurn recvCb outcomes (endpoint, buffer) = .done later ∧
        (Stopped later.session ∨ later.conn ≠ .opened ∨ rest = [])) ∨
      (readTurn recvCb outcomes (endpoint, buffer) =
          .again (later, rest) ∧
        later.conn = .opened ∧ rest ≠ []) := by
  rcases sound.ready running with ⟨connected, ready⟩
  have read : ymoProtoWsRead recvCb outcomes endpoint buffer = _ :=
    if_neg running
  cases ended : parseLoop endpoint.session buffer with
  | failed session errno =>
      rw [ended] at read finished
      cases finished
      exact
        Or.inl
          ⟨readTurn_took_all read, Or.inl (Or.inr (stopped_wsErrClose _ _))⟩
  | more session =>
      rw [ended] at read finished
      cases finished
      exact Or.inl ⟨readTurn_took_all read, Or.inr (Or.inr rfl)⟩
  | complete session left =>
      have ends := endSound_parseLoop sound.coherent ready buffer
      rw [ended] at ends
      rcases ends with ⟨state, coherent, within, shorter⟩
      have called :=
        dispatched_wsParseComplete recvCb outcomes
          { endpoint with session := session }
          (state.trans connected) buffer.length
          (buffer.length - left.length)
      rw [ended] at read finished
      have same :=
        snd_wsParseComplete recvCb outcomes
          { endpoint with session := session } buffer.length
          (buffer.length - left.length)
      cases finished
      rw [← same]
      dsimp only at read
      generalize
        wsParseComplete recvCb outcomes
          { endpoint with session := session } buffer.length
          (buffer.length - rest.length) = result at called read
      rcases result with ⟨outcome, last⟩
      rcases called.ending with ⟨rfl, standing⟩ | ⟨rfl | rfl, stopped⟩
      · have cut : buffer.drop (buffer.length - rest.length) = rest := by
          rcases within with ⟨front, rfl⟩
          simp
        by_cases opened : last.conn = .opened
        · cases rest with
          | nil =>
              refine Or.inl ⟨?_, Or.inr (Or.inr rfl)⟩
              simp only [readTurn, read, opened, cut]
              rfl
          | cons next more =>
              refine Or.inr ⟨?_, opened, List.cons_ne_nil next more⟩
              simp only [readTurn, read, opened, cut]
              rfl
        · refine Or.inl ⟨?_, Or.inr (Or.inl opened)⟩
          simp only [readTurn, read, if_pos opened, ne_eq]
      · exact Or.inl ⟨readTurn_took_all read, Or.inl stopped⟩
      · refine Or.inl ⟨?_, Or.inl stopped⟩
        simp only [readTurn, read]

theorem readLoop_decreases (outcomes : List SendOutcome)
    (locals next : Endpoint App × Bytes)
    (held : Sound locals.1.session ∧ locals.2 ≠ [])
    (goesOn : readTurn recvCb outcomes locals = .again next) :
    (Sound next.1.session ∧ next.2 ≠ []) ∧
      next.2.length < locals.2.length := by
  rcases locals with ⟨endpoint, buffer⟩
  by_cases stopped : Stopped endpoint.session
  · rw [readTurn_took_all
      (ymoProtoWsRead_stopped recvCb outcomes stopped buffer)] at goesOn
    cases goesOn
  · have sound := finish_sound recvCb outcomes held.1 stopped held.2
    rcases finished :
        finish recvCb outcomes endpoint (parseLoop endpoint.session buffer)
      with ⟨later, rest⟩
    rw [finished] at sound
    rcases
        readTurn_finish recvCb outcomes held.1 stopped buffer finished
      with ⟨leaves, _⟩ | ⟨again, _, nonempty⟩
    · rw [leaves] at goesOn
      cases goesOn
    · rw [again] at goesOn
      cases goesOn
      exact ⟨⟨sound.1, nonempty⟩, sound.2⟩

/-- Reading goes on after the frame that the parse loop has ended with. -/
theorem ymoReadCb_finish
    (outcomes : List SendOutcome)
    (opened : endpoint.conn = .opened)
    (sound : Sound endpoint.session)
    (running : ¬Stopped endpoint.session)
    (nonempty : buffer ≠ [])
    {later : Endpoint App}
    {rest : Bytes}
    (finished :
      finish recvCb outcomes endpoint
        (parseLoop endpoint.session buffer) = (later, rest)) :
    ymoReadCb recvCb outcomes endpoint buffer =
      ymoReadCb recvCb outcomes later rest := by
  have less := finish_sound recvCb outcomes sound running nonempty
  rw [finished] at less
  rw [ymoReadCb, if_pos opened]
  rcases readTurn_finish recvCb outcomes sound running buffer finished
    with ⟨leaves, why⟩ | ⟨again, opened, left⟩
  · rw [loop_of_done leaves]
    rcases why with stopped | gone | rfl
    · rw [ymoReadCb_of_stopped recvCb outcomes stopped]
    · rw [ymoReadCb_of_conn recvCb outcomes gone]
    · rw [ymoReadCb_nil]
  · rw [loop_of_again again, ymoReadCb, if_pos opened]
    refine
      loop_enough
        (fun locals : Endpoint App × Bytes =>
          Sound locals.1.session ∧ locals.2 ≠ [])
        (fun locals : Endpoint App × Bytes => locals.2.length)
        (readLoop_decreases recvCb outcomes) ?_ ?_ ?_
    · exact ⟨less.1, left⟩
    · exact less.2
    · exact Nat.lt_succ_self _

/-- The endpoint after a call of a parse function. -/
def afterParse (recvCb : RecvCb App) (outcomes : List SendOutcome)
    (endpoint : Endpoint App)
    (session : WsSession) :
    Endpoint App :=
  if session.frameIn.parseState = .complete then
    dispatch recvCb outcomes { endpoint with session := session }
  else { endpoint with session := session }

/--
The two loops, unrolled by one call of a parse function: the frame fails, or
the rest is read as if it had been received by itself.
-/
theorem ymoReadCb_of_parsed (outcomes : List SendOutcome)
    (opened : endpoint.conn = .opened)
    (sound : Sound endpoint.session)
    (running : ¬Stopped endpoint.session)
    (ch : UInt8)
    (rest : Bytes) :
    ymoReadCb recvCb outcomes endpoint (ch :: rest) =
      match parseByState endpoint.session ch rest with
      | (session, .error errno) =>
          wsErrClose { endpoint with session := session }
            (reasonFromErrno errno)
      | (session, .ok count) =>
          ymoReadCb recvCb outcomes
            (afterParse recvCb outcomes endpoint session)
            ((ch :: rest).drop count) := by
  rcases sound.ready running with ⟨connected, ready⟩
  have start := parsing_start sound.coherent ready (ch :: rest)
  have unrolled := parseLoop_cons sound.coherent ready ch rest
  have goesOn :=
    ymoReadCb_finish recvCb outcomes opened sound running
      (List.cons_ne_nil ch rest) (Prod.mk.eta.symm)
  rw [unrolled] at goesOn
  rw [goesOn]
  rcases parsed : parseByState endpoint.session ch rest
    with ⟨session, errno | count⟩
  · exact ymoReadCb_nil recvCb outcomes _
  · dsimp only
    rw [afterParse]
    split_ifs with complete
    · rfl
    · have parsing := (start.parsed ready parsed).1
      have ready' := parsing.standing.resolve_left fun both => complete both.1
      have sound' : Sound session :=
        ⟨parsing.coherent, Or.inl ⟨parsing.state.trans connected, ready'⟩⟩
      have running' : ¬Stopped session := by
        rw [Stopped, parsing.state, connected]
        decide
      cases left : (ch :: rest).drop count with
      | nil => rfl
      | cons next more =>
          symm
          refine
            ymoReadCb_finish recvCb outcomes ?_ sound' running'
              (List.cons_ne_nil next more) rfl
          exact opened

/-- A sound session stays sound. -/
theorem sound_ymoReadCb (outcomes : List SendOutcome)
    (sound : Sound endpoint.session)
    (received : Bytes) :
    Sound (ymoReadCb recvCb outcomes endpoint received).session := by
  induction measured : received.length using Nat.strong_induction_on
    generalizing endpoint received with
  | _ size ih =>
      by_cases stopped : Stopped endpoint.session
      · rw [ymoReadCb_of_stopped recvCb outcomes stopped]
        exact sound
      by_cases opened : endpoint.conn = .opened
      · cases received with
        | nil =>
            rw [ymoReadCb_nil]
            exact sound
        | cons ch rest =>
            have less :=
              finish_sound recvCb outcomes sound stopped
                (List.cons_ne_nil ch rest)
            rw [ymoReadCb_finish recvCb outcomes opened sound stopped
              (List.cons_ne_nil ch rest) (Prod.mk.eta.symm)]
            exact ih _ (measured ▸ less.2) less.1 _ rfl
      · rw [ymoReadCb_of_conn recvCb outcomes opened]
        exact sound

end Yimmo.Ws.ReadLoop
