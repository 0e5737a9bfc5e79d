import Yimmo.Ws.Frames

/-!
# The closing handshake

A session runs by calls of its read callback, of `ymo_ws_session_send` and of its
write callback, in any order.  `closing_handshake` says that the frame that closes is
the last one to be queued, and that a session that has stopped takes nothing more.

Two things stand in the way.  The application may send a close frame of its own, and
the session goes on as if it had not: `WS_SESSION_EXPECT_CLOSE` is never entered.
And a close frame is answered once for every bucket on the receive list, on which an
empty PONG leaves one.
-/

namespace Yimmo.Ws.Closing

open Yimmo.Core.StatusCode
open Yimmo.Core.Net
open Yimmo.Lib.ByteMemory
open Yimmo.Lib.GuardedRun
open Yimmo.Ws.Parse
open Yimmo.Ws.Session
open Yimmo.Ws.ReadLoop
open Yimmo.Ws.Congruence
open Yimmo.Ws.ChunkIndependence
open Yimmo.Ws.Encode
open Yimmo.Ws.Frames

variable
    {App : Type}
    {endpoint : Endpoint App}
    {recvCb : RecvCb App}
    (session : WsSession)

/-! ## Runs of a session -/

/-- What happens to a session: a call of `ymo_proto_ws_read` on a buffer that is not
empty, of `ymo_ws_session_send`, or of the write callback. -/
inductive Action where
  | read (outcomes : List SendOutcome) (ch : UInt8) (rest : Bytes)
  | send (sending : Sending)
  | write (outcomes : List SendOutcome)

/-- One step of a session. -/
def step (recvCb : RecvCb App) (endpoint : Endpoint App) :
    Action → Endpoint App
  | .read outcomes ch rest =>
      (ymoProtoWsRead recvCb outcomes endpoint (ch :: rest)).2
  | .send sending => (ymoWsSessionSend endpoint sending).2
  | .write outcomes => ymoWriteCb outcomes endpoint

/-- The frame is a close frame. -/
def isClose (frame : Frame) : Bool :=
  opCode frame.flags == ymoWsOpClose

/-- The callback sends no close frame. -/
def NeverCloses (recvCb : RecvCb App) : Prop :=
  ∀ app flags data,
    ∀ sending ∈ (recvCb app flags data).2.sends,
      opCode sending.flags ≠ ymoWsOpClose

/-- Where the frame that is complete closes, the frames before it have left no
bucket. -/
def AnswersOnce (session : WsSession) : ParseEnd → Prop
  | .complete later _ =>
      opCode later.frameIn.flags = ymoWsOpClose → session.recvList = []
  | .more _ => True
  | .failed _ _ => True

/-- While the session is connected, the application sends no close frame, and a
close frame of the peer is answered once. -/
def Orderly (endpoint : Endpoint App) (action : Action) : Prop :=
  endpoint.session.state = .connected →
    match action with
    | .read _ ch rest =>
        AnswersOnce endpoint.session (parseLoop endpoint.session (ch :: rest))
    | .send sending => opCode sending.flags ≠ ymoWsOpClose
    | .write _ => True

instance decidableAnswersOnce
    (session : WsSession) :
    ∀ ended, Decidable (AnswersOnce session ended)
  | .complete _ _ => inferInstanceAs (Decidable (_ → _))
  | .more _ => .isTrue trivial
  | .failed _ _ => .isTrue trivial

instance decidableOrderly
    (endpoint : Endpoint App) :
    ∀ action, Decidable (Orderly endpoint action)
  | .read _ _ _ => inferInstanceAs (Decidable (_ → AnswersOnce _ _))
  | .send _ => inferInstanceAs (Decidable (_ → _ ≠ _))
  | .write _ => inferInstanceAs (Decidable (_ → True))

/-! ## What is queued -/

/-- Frames are queued behind what was there, and none of them closes. -/
def QueuesOpen (before after : Endpoint App) : Prop :=
  ∃ added,
    after.queued = before.queued ++ added ∧
      ∀ frame ∈ added, isClose frame = false

theorem QueuesOpen.refl (endpoint : Endpoint App) :
    QueuesOpen endpoint endpoint :=
  ⟨[], (List.append_nil _).symm, fun _ member => by cases member⟩

theorem QueuesOpen.trans {first second third : Endpoint App}
    (front : QueuesOpen first second)
    (back : QueuesOpen second third) :
    QueuesOpen first third := by
  rcases front with ⟨added, whole, plain⟩
  rcases back with ⟨added', whole', plain'⟩
  refine ⟨added ++ added', ?_, ?_⟩
  · rw [whole', whole, List.append_assoc]
  · intro frame member
    rcases List.mem_append.mp member with member | member
    · exact plain frame member
    · exact plain' frame member

theorem queuesOpen_sendNoCheck (endpoint : Endpoint App) {sending : Sending}
    (goesOn : opCode sending.flags ≠ ymoWsOpClose) :
    QueuesOpen endpoint (ymoWsSessionSendNoCheck endpoint sending) := by
  refine ⟨_, rfl, ?_⟩
  intro frame member
  rw [List.mem_singleton.mp member, isClose]
  exact beq_false_of_ne goesOn

theorem queuesOpen_ymoWsSessionSend (endpoint : Endpoint App)
    {sending : Sending}
    (goesOn : opCode sending.flags ≠ ymoWsOpClose) :
    QueuesOpen endpoint (ymoWsSessionSend endpoint sending).2 := by
  simp only [ymoWsSessionSend]
  split
  · split
    · exact queuesOpen_sendNoCheck endpoint goesOn
    all_goals exact QueuesOpen.refl endpoint
  · exact QueuesOpen.refl endpoint

theorem queuesOpen_sendAll (endpoint : Endpoint App) {sends : List Sending}
    (goesOn : ∀ sending ∈ sends, opCode sending.flags ≠ ymoWsOpClose) :
    QueuesOpen endpoint (sendAll endpoint sends) := by
  induction sends generalizing endpoint with
  | nil => exact QueuesOpen.refl endpoint
  | cons sending rest ih =>
      refine QueuesOpen.trans ?_ (ih _ ?_)
      · exact
          queuesOpen_ymoWsSessionSend endpoint
            (goesOn sending (List.mem_cons_self ..))
      · intro other member
        exact goesOn other (List.mem_cons_of_mem _ member)

theorem queuesOpen_callRecvCb (quiet : NeverCloses recvCb)
    (endpoint : Endpoint App)
    (flags : UInt8)
    (data : Bytes) :
    QueuesOpen endpoint (callRecvCb recvCb endpoint flags data).2 := by
  have sent :=
    queuesOpen_sendAll
      { endpoint with
        app := (recvCb endpoint.app flags data).1
        calls := endpoint.calls ++ [{ flags := flags, payload := data }] }
      (quiet endpoint.app flags data)
  exact sent

/-- The answer to a PING is a PONG. -/
theorem opCode_pong {flags : UInt8} :
    opCode ((flags &&& 0xf0) ||| ymoWsOpPong) = ymoWsOpPong := by
  cases flags with
  | ofBitVec bits =>
      revert bits
      decide +kernel

theorem queuesOpen_wsEchoCb (endpoint : Endpoint App) {flags : UInt8}
    (ping : opCode flags = ymoWsOpPing)
    (data : Bytes) :
    QueuesOpen endpoint (wsEchoCb endpoint flags data).2 := by
  refine queuesOpen_sendNoCheck endpoint ?_
  dsimp only
  rw [if_pos ping, opCode_pong]
  decide

/-- The callbacks of a frame are called with the flags of the frame. -/
theorem queuesOpen_invokeEach {callback : Callback App}
    (sends : Sends callback)
    {flags : UInt8}
    (goesOn :
      ∀ endpoint data, QueuesOpen endpoint (callback endpoint flags data).2)
    (buckets : List RecvBucket)
    (status : Status)
    {endpoint : Endpoint App}
    (standing : endpoint.session.frameIn.flags = flags) :
    QueuesOpen endpoint (invokeEach callback buckets status endpoint).2 := by
  induction buckets generalizing status endpoint with
  | nil => exact QueuesOpen.refl endpoint
  | cons bucket rest ih =>
      have called := goesOn endpoint (endpoint.session.bucketData bucket)
      have kept := sends endpoint flags (endpoint.session.bucketData bucket)
      rw [invokeEach, standing]
      generalize
        callback endpoint flags (endpoint.session.bucketData bucket) =
          result at called kept
      rcases result with ⟨_ | errno, later⟩
      · refine QueuesOpen.trans called (ih .okay ?_)
        rw [kept.session]
        exact standing
      · exact called

theorem queuesOpen_invokeRecvCallback {callback : Callback App}
    (sends : Sends callback)
    (endpoint : Endpoint App)
    (goesOn :
      ∀ before data,
        QueuesOpen before
          (callback before endpoint.session.frameIn.flags data).2) :
    QueuesOpen endpoint (invokeRecvCallback callback endpoint).2 :=
  queuesOpen_invokeEach sends goesOn endpoint.session.recvList
    (.err enoent) rfl

/-! ## What a frame leaves on the receive list -/

/-- A call of a parse function leaves a bucket only where the frame is complete. -/
def Leaves (before after : WsSession) : Prop :=
  after.recvList = before.recvList ∨
    (after.frameIn.parseState = .complete ∧
      ∃ bucket, after.recvList = before.recvList ++ [bucket])

theorem leaves_ymoWsParseOp (ch : UInt8) :
    Leaves session (ymoWsParseOp session ch).1 := by
  rw [ymoWsParseOp_verdict]
  cases opVerdict session.msgType ch with
  | error errno => exact Or.inl rfl
  | ok type => exact Or.inl rfl

theorem recvList_allocParsed (len consumed : Nat) :
    (allocParsed (ymoWsSessionAllocFrame session len)
        consumed).1.recvList =
      session.recvList := by
  rcases exists_ymoWsSessionAllocFrame session len
    with ⟨buffer, bufLen, blocks, status, allocated⟩
  rw [allocated]
  cases status with
  | okay => rfl
  | err errno => rfl

theorem leaves_ymoWsParseLen (ch : UInt8) :
    Leaves session (ymoWsParseLen session ch).1 := by
  refine Or.inl ?_
  simp only [ymoWsParseLen]
  split_ifs
  · rfl
  · exact recvList_allocParsed _ _ _
  all_goals rfl

theorem leaves_ymoWsParseLenExt (buffer : Bytes) :
    Leaves session (ymoWsParseLenExt session buffer).1 := by
  refine Or.inl ?_
  simp only [ymoWsParseLenExt]
  rcases lenExtBytes session.frameIn.len session.frameIn.idx buffer
    with ⟨len, idx⟩
  dsimp only
  split_ifs
  · rfl
  · rcases
        exists_ymoWsSessionAllocFrame
          { session with
            frameIn := { session.frameIn with len := len, idx := idx } }
          len
      with ⟨buffer, bufLen, blocks, status, allocated⟩
    rw [allocated]
    cases status with
    | okay => rfl
    | err errno => rfl
  · rfl

theorem leaves_ymoWsParseMaskingKey (buffer : Bytes) :
    Leaves session (ymoWsParseMaskingKey session buffer).1 := by
  simp only [ymoWsParseMaskingKey]
  rcases
      maskingKeyBytes session.frameIn.maskingKey session.frameIn.idx buffer
    with ⟨key, idx⟩
  dsimp only
  split_ifs
  · exact Or.inl rfl
  · exact Or.inl rfl
  · exact Or.inr ⟨rfl, _, rfl⟩
  · exact Or.inl rfl

theorem leaves_payloadDone (session : WsSession) :
    Leaves session (payloadDone session) := by
  simp only [payloadDone]
  split_ifs
  all_goals
    first
      | exact Or.inl rfl
      | exact Or.inr ⟨rfl, _, rfl⟩

theorem recvList_storePayload (piece : Bytes) :
    (storePayload session piece).recvList = session.recvList := by
  rcases exists_storePayload session piece with ⟨idx, memory, stored⟩
  rw [stored]

theorem leaves_ymoWsParsePayload (buffer : Bytes) :
    Leaves session (ymoWsParsePayload session buffer).1 := by
  have stored :=
    recvList_storePayload session
      (buffer.take (session.frameIn.len - session.frameIn.parsed))
  simp only [ymoWsParsePayload]
  generalize
    storePayload session
      (buffer.take (session.frameIn.len - session.frameIn.parsed)) =
        after at stored
  rcases
      checkPayload after (checkStart session.frameIn)
        (buffer.take (session.frameIn.len - session.frameIn.parsed)).length
    with errno | utf8State
  · exact Or.inl stored
  · dsimp only
    split_ifs
    · rw [Leaves, ← stored]
      exact leaves_payloadDone { after with utf8State := utf8State }
    · exact Or.inl stored

theorem leaves_parseByState (ch : UInt8) (rest : Bytes) :
    Leaves session (parseByState session ch rest).1 := by
  rw [parseByState]
  cases session.frameIn.parseState with
  | op => exact leaves_ymoWsParseOp session ch
  | len => exact leaves_ymoWsParseLen session ch
  | lenExtended => exact leaves_ymoWsParseLenExt session (ch :: rest)
  | maskingKey => exact leaves_ymoWsParseMaskingKey session (ch :: rest)
  | payload => exact leaves_ymoWsParsePayload session (ch :: rest)
  | complete => exact Or.inl rfl

/-- A frame that is complete leaves one bucket at most. -/
theorem recvList_parseLoop {session : WsSession}
    (coherent : session.utf8State.Coherent)
    (ready : WsFrame.Ready session.frameIn)
    (buffer : Bytes)
    {later : WsSession}
    {left : Bytes}
    (ended : parseLoop session buffer = .complete later left) :
    ∃ added,
      later.recvList = session.recvList ++ added ∧ added.length ≤ 1 := by
  induction measured : buffer.length using Nat.strong_induction_on
    generalizing session buffer with
  | _ size ih =>
      cases buffer with
      | nil => cases ended
      | cons ch tail =>
          have start := parsing_start coherent ready (ch :: tail)
          have leaves := leaves_parseByState session ch tail
          rw [parseLoop_cons coherent ready] at ended
          rcases parsed : parseByState session ch tail
            with ⟨middle, errno | count⟩
          · rw [parsed] at ended
            cases ended
          · rw [parsed] at ended leaves
            rcases start.parsed ready parsed with ⟨goesOn, shorter⟩
            dsimp only at ended leaves
            split_ifs at ended with complete
            · cases ended
              rcases leaves with same | ⟨_, bucket, pushed⟩
              · exact ⟨[], by rw [same, List.append_nil], Nat.zero_le 1⟩
              · exact ⟨[bucket], pushed, Nat.le_refl 1⟩
            · have ready' :=
                goesOn.standing.resolve_left fun both => complete both.1
              have same := leaves.resolve_right fun both => complete both.1
              rw [← same]
              exact
                ih _ (measured ▸ shorter) goesOn.coherent ready' _ ended rfl

/-! ## The invariant -/

/-- None of the frames closes, but for the last one. -/
def LastCloses (queued : List Frame) : Prop :=
  ∃ front last,
    queued = front ++ last ∧ (∀ frame ∈ front, isClose frame = false) ∧
      last.length ≤ 1

/-- No frame that closes was queued. -/
def NoneCloses (queued : List Frame) : Prop :=
  ∀ frame ∈ queued, isClose frame = false

/-- While the session is connected no frame that closes is queued; when it has
stopped, one may be, as the last one. -/
def Ordered (endpoint : Endpoint App) : Prop :=
  (endpoint.session.state = .connected ∧ NoneCloses endpoint.queued) ∨
    (Stopped endpoint.session ∧ LastCloses endpoint.queued)

theorem QueuesOpen.noneCloses {before after : Endpoint App}
    (queues : QueuesOpen before after)
    (none : NoneCloses before.queued) :
    NoneCloses after.queued := by
  rcases queues with ⟨added, whole, plain⟩
  intro frame member
  rw [whole] at member
  rcases List.mem_append.mp member with member | member
  · exact none frame member
  · exact plain frame member

theorem LastCloses.noneCloses {queued : List Frame}
    (none : NoneCloses queued) :
    LastCloses queued :=
  ⟨queued, [], (List.append_nil _).symm, none, Nat.zero_le 1⟩

/-- A connection that fails sends a close frame, once. -/
theorem ordered_wsErrClose (none : NoneCloses endpoint.queued) (reason : Nat) :
    Ordered (wsErrClose endpoint reason) := by
  refine Or.inr ⟨Or.inr (stopped_wsErrClose endpoint reason), ?_⟩
  rw [wsErrClose]
  split_ifs
  · exact ⟨endpoint.queued, _, rfl, none, Nat.le_refl 1⟩
  · exact LastCloses.noneCloses none

theorem ordered_afterCallback {result : Status × Endpoint App}
    (connected : result.2.session.state = .connected)
    (none : NoneCloses result.2.queued)
    (lenIn taken : Nat) :
    Ordered (afterCallback lenIn taken result).2 := by
  rcases result with ⟨_ | errno, later⟩
  · exact Or.inl ⟨connected, none⟩
  · exact ordered_wsErrClose none 1002

theorem queued_ymoWriteCb (outcomes : List SendOutcome)
    (endpoint : Endpoint App) :
    (ymoWriteCb outcomes endpoint).queued = endpoint.queued ∧
      (ymoWriteCb outcomes endpoint).calls = endpoint.calls := by
  have written :
      (ymoProtoWsWrite outcomes endpoint).2.queued = endpoint.queued ∧
        (ymoProtoWsWrite outcomes endpoint).2.calls = endpoint.calls := by
    simp only [ymoProtoWsWrite]
    split_ifs
    · exact ⟨rfl, rfl⟩
    all_goals split <;> exact ⟨rfl, rfl⟩
  rw [ymoWriteCb]
  generalize ymoProtoWsWrite outcomes endpoint = result at written
  rcases result with ⟨_ | errno, later⟩
  · exact written
  · dsimp only
    split_ifs
    · exact written
    · exact written

/-- The answer to a close frame that leaves one bucket. -/
theorem ordered_handleClientClose (outcomes : List SendOutcome)
    (connected : endpoint.session.state = .connected)
    (none : NoneCloses endpoint.queued)
    (once : endpoint.session.recvList.length ≤ 1)
    (len : Nat) :
    Ordered (handleClientClose outcomes endpoint len).2 := by
  have unexpected : (endpoint.session.state == .expectClose) = false := by
    rw [connected]
    rfl
  simp only [handleClientClose, unexpected, Bool.false_eq_true, if_false,
    answerClose]
  split_ifs
  · refine ordered_wsErrClose ?_ 1002
    exact none
  · have echo :=
      session_invokeRecvCallback onlySends_wsEchoCb
        { endpoint with
          session := { endpoint.session with state := .closeReceived } }
    refine Or.inr ⟨?_, ?_⟩
    · refine Or.inl ?_
      rw [session_ymoWriteCb, echo.session]
    · rw [(queued_ymoWriteCb outcomes _).1]
      rcases received : endpoint.session.recvList
        with _ | ⟨bucket, _ | ⟨next, more⟩⟩
      · simp only [invokeRecvCallback, invokeEach]
        exact LastCloses.noneCloses none
      · simp only [invokeRecvCallback, invokeEach, wsEchoCb,
          ymoWsSessionSendNoCheck]
        exact ⟨endpoint.queued, _, rfl, none, Nat.le_refl 1⟩
      · rw [received] at once
        exact absurd once (by simp)

/-- What a frame that is complete leads to. -/
theorem ordered_dispatch
    (quiet : NeverCloses recvCb)
    (outcomes : List SendOutcome)
    (connected : endpoint.session.state = .connected)
    (none : NoneCloses endpoint.queued)
    (once :
      opCode endpoint.session.frameIn.flags = ymoWsOpClose →
        endpoint.session.recvList.length ≤ 1) :
    Ordered (dispatch recvCb outcomes endpoint) := by
  simp only [dispatch, wsParseComplete]
  split_ifs with data close ping pong
  · have sends :=
      session_invokeRecvCallback (onlySends_callRecvCb recvCb) endpoint
    have queues :=
      queuesOpen_invokeRecvCallback (onlySends_callRecvCb recvCb)
        endpoint fun before data => queuesOpen_callRecvCb quiet before _ data
    refine ordered_afterCallback ?_ (queues.noneCloses none) 0 0
    exact sends.state.trans connected
  · exact ordered_handleClientClose outcomes connected none (once close) 0
  · have sends := session_invokeRecvCallback onlySends_wsEchoCb endpoint
    have queues :=
      queuesOpen_invokeRecvCallback onlySends_wsEchoCb endpoint
        fun before data => queuesOpen_wsEchoCb before ping data
    refine ordered_afterCallback ?_ (queues.noneCloses none) 0 0
    exact sends.state.trans connected
  · exact ordered_afterCallback connected none 0 0
  · exact ordered_wsErrClose none 1002

/-! ## Steps -/

/-- The read callback goes on where the parse loop has ended. -/
theorem snd_ymoProtoWsRead (recvCb : RecvCb App) (outcomes : List SendOutcome)
    (running : ¬Stopped endpoint.session)
    (buffer : Bytes) :
    (ymoProtoWsRead recvCb outcomes endpoint buffer).2 =
      (finish recvCb outcomes endpoint
        (parseLoop endpoint.session buffer)).1 := by
  have read : ymoProtoWsRead recvCb outcomes endpoint buffer = _ :=
    if_neg running
  rw [read]
  cases parseLoop endpoint.session buffer with
  | failed session errno => rfl
  | more session => rfl
  | complete session left => exact snd_wsParseComplete recvCb outcomes _ _ _

/-- What the runs keep. -/
structure Handshake (endpoint : Endpoint App) : Prop where
  sound : Sound endpoint.session
  ordered : Ordered endpoint

theorem Handshake.connected (handshake : Handshake endpoint)
    (running : ¬Stopped endpoint.session) :
    endpoint.session.state = .connected ∧ NoneCloses endpoint.queued := by
  rcases handshake.ordered with connected | ⟨stopped, _⟩
  · exact connected
  · exact absurd stopped running

theorem handshake_read (quiet : NeverCloses recvCb)
    (outcomes : List SendOutcome)
    (handshake : Handshake endpoint)
    (ch : UInt8)
    (rest : Bytes)
    (orderly : Orderly endpoint (.read outcomes ch rest)) :
    Handshake (step recvCb endpoint (.read outcomes ch rest)) := by
  rw [step]
  by_cases stopped : Stopped endpoint.session
  · rw [ymoProtoWsRead_stopped recvCb outcomes stopped]
    exact handshake
  rcases handshake.connected stopped with ⟨connected, none⟩
  have ready := (handshake.sound.ready stopped).2
  have coherent := handshake.sound.coherent
  have ends := endSound_parseLoop coherent ready (ch :: rest)
  have sound :=
    finish_sound recvCb outcomes handshake.sound stopped
      (List.cons_ne_nil ch rest)
  have once := orderly connected
  rw [snd_ymoProtoWsRead recvCb outcomes stopped]
  refine ⟨sound.1, ?_⟩
  cases ended : parseLoop endpoint.session (ch :: rest) with
  | failed session errno =>
      refine ordered_wsErrClose ?_ _
      exact none
  | more session =>
      rw [ended] at ends
      exact Or.inl ⟨ends.1.trans connected, none⟩
  | complete session left =>
      rw [ended] at ends
      dsimp only at once
      rw [ended] at once
      rcases recvList_parseLoop coherent ready (ch :: rest) ended
        with ⟨added, whole, short⟩
      refine ordered_dispatch quiet outcomes (ends.1.trans connected) none ?_
      intro close
      show session.recvList.length ≤ 1
      rw [whole, once close, List.nil_append]
      exact short

theorem handshake_send (recvCb : RecvCb App) (handshake : Handshake endpoint)
    (sending : Sending)
    (orderly : Orderly endpoint (.send sending)) :
    Handshake (step recvCb endpoint (.send sending)) := by
  rw [step]
  by_cases stopped : Stopped endpoint.session
  · have refused : (ymoWsSessionSend endpoint sending).2 = endpoint := by
      simp only [ymoWsSessionSend]
      rcases stopped with stopped | stopped
      · rw [stopped]
        split <;> rfl
      · rw [stopped]
        split <;> rfl
    rw [refused]
    exact handshake
  rcases handshake.connected stopped with ⟨connected, none⟩
  have sends := onlySends_ymoWsSessionSend endpoint sending
  have queues := queuesOpen_ymoWsSessionSend endpoint (orderly connected)
  refine ⟨?_, Or.inl ⟨sends.state.trans connected, ?_⟩⟩
  · rw [sends.session]
    exact ⟨handshake.sound.coherent, handshake.sound.standing⟩
  · exact queues.noneCloses none

theorem handshake_write (recvCb : RecvCb App) (handshake : Handshake endpoint)
    (outcomes : List SendOutcome) :
    Handshake (step recvCb endpoint (.write outcomes)) := by
  rw [step]
  constructor
  · rw [session_ymoWriteCb]
    exact ⟨handshake.sound.coherent, handshake.sound.standing⟩
  · rw [Ordered, Stopped, (queued_ymoWriteCb outcomes endpoint).1,
      session_ymoWriteCb]
    exact handshake.ordered

/-- A step of a session keeps the handshake. -/
theorem handshake_step (quiet : NeverCloses recvCb) (endpoint : Endpoint App)
    (action : Action)
    (handshake : Handshake endpoint)
    (orderly : Orderly endpoint action) :
    Handshake (step recvCb endpoint action) := by
  cases action with
  | read outcomes ch rest =>
      exact handshake_read quiet outcomes handshake ch rest orderly
  | send sending => exact handshake_send recvCb handshake sending orderly
  | write outcomes => exact handshake_write recvCb handshake outcomes

/-! ## Sessions that have stopped -/

theorem ymoWsSessionSend_stopped (stopped : Stopped endpoint.session)
    (sending : Sending) :
    (ymoWsSessionSend endpoint sending).1 ≠ .okay ∧
      (ymoWsSessionSend endpoint sending).2 = endpoint := by
  simp only [ymoWsSessionSend]
  rcases stopped with stopped | stopped
  all_goals
    rw [stopped]
    split
    · exact ⟨Status.noConfusion, rfl⟩
    · exact ⟨Status.noConfusion, rfl⟩

/-- A session that has stopped calls and queues nothing more. -/
structure Silent (before after : Endpoint App) : Prop where
  stopped : Stopped after.session
  calls : after.calls = before.calls
  queued : after.queued = before.queued

theorem silent_step (recvCb : RecvCb App) (stopped : Stopped endpoint.session)
    (action : Action) :
    Silent endpoint (step recvCb endpoint action) := by
  cases action with
  | read outcomes ch rest =>
      rw [step, ymoProtoWsRead_stopped recvCb outcomes stopped]
      exact ⟨stopped, rfl, rfl⟩
  | send sending =>
      rw [step, (ymoWsSessionSend_stopped stopped sending).2]
      exact ⟨stopped, rfl, rfl⟩
  | write outcomes =>
      rcases queued_ymoWriteCb outcomes endpoint with ⟨queued, calls⟩
      refine ⟨?_, calls, queued⟩
      rw [step, Stopped, session_ymoWriteCb]
      exact stopped

theorem silent_run (recvCb : RecvCb App) (stopped : Stopped endpoint.session)
    (actions : List Action) :
    Silent endpoint (run (step recvCb) endpoint actions) := by
  refine invariant_run_always (Silent endpoint) ?_ ⟨stopped, rfl, rfl⟩ actions
  intro after action silent
  have next := silent_step recvCb silent.stopped action
  exact
    ⟨next.stopped, next.calls.trans silent.calls,
      next.queued.trans silent.queued⟩

/-! ## The handshake -/

theorem LastCloses.atMostOne {queued : List Frame}
    (closes : LastCloses queued) :
    (queued.filter isClose).length ≤ 1 := by
  rcases closes with ⟨front, last, rfl, none, short⟩
  have plain : front.filter isClose = [] := by
    refine List.filter_eq_nil_iff.mpr ?_
    intro frame member
    exact ne_true_of_eq_false (none frame member)
  rw [List.filter_append, plain, List.nil_append]
  exact (List.length_filter_le isClose last).trans short

theorem LastCloses.last {queued front back : List Frame} {frame : Frame}
    (closes : LastCloses queued)
    (whole : queued = front ++ frame :: back)
    (close : isClose frame = true) :
    back = [] := by
  rcases closes with ⟨before, last, rfl, none, short⟩
  rcases List.append_eq_append_iff.mp whole
    with ⟨middle, _, later⟩ | ⟨middle, earlier, later⟩
  · rw [later, List.length_append, List.length_cons] at short
    exact List.length_eq_zero_iff.mp (by omega)
  · cases middle with
    | nil =>
        rw [List.nil_append] at later
        rw [← later] at short
        have none : back.length ≤ 0 := Nat.le_of_succ_le_succ short
        exact List.length_eq_zero_iff.mp (Nat.le_zero.mp none)
    | cons first more =>
        have same : frame = first := (List.cons.inj later).1
        have plain : isClose first = false := by
          refine none first ?_
          rw [earlier]
          exact List.mem_append_right _ (List.mem_cons_self ..)
        rw [same, plain] at close
        cases close

/--
In every run the close frame that is queued is the last frame that is, and a
session that has stopped calls the application no more and takes none of its
frames; where the application sends no close frame, and no bucket is left when the
peer closes.
-/
theorem closing_handshake {recvCb : RecvCb App}
    (quiet : NeverCloses recvCb)
    (memory : Nat → Memory)
    (app : App)
    {actions : List Action}
    (orderly :
      AllAlong (step recvCb) Orderly (Endpoint.create memory app) actions) :
    let endpoint := run (step recvCb) (Endpoint.create memory app) actions
    ((endpoint.queued.filter isClose).length ≤ 1 ∧
        ∀ front frame back,
          endpoint.queued = front ++ frame :: back →
            isClose frame = true → back = []) ∧
      (Stopped endpoint.session →
        ∀ later,
          (run (step recvCb) endpoint later).calls = endpoint.calls ∧
            ∀ sending,
              (ymoWsSessionSend (run (step recvCb) endpoint later)
                  sending).1 ≠
                .okay) := by
  have handshake :
      Handshake (run (step recvCb) (Endpoint.create memory app) actions) :=
    invariant_run Handshake (handshake_step quiet)
      ⟨sound_ymoWsSessionCreate memory,
        Or.inl ⟨rfl, fun _ member => by cases member⟩⟩
      orderly
  have closes :
      LastCloses
        (run (step recvCb) (Endpoint.create memory app) actions).queued := by
    rcases handshake.ordered with ⟨_, none⟩ | ⟨_, closes⟩
    · exact LastCloses.noneCloses none
    · exact closes
  intro endpoint
  refine ⟨⟨closes.atMostOne, ?_⟩, ?_⟩
  · intro front frame back whole close
    exact closes.last whole close
  · intro stopped later
    have silent := silent_run recvCb stopped later
    refine ⟨silent.calls, fun sending => ?_⟩
    exact (ymoWsSessionSend_stopped silent.stopped sending).1

/-- The bytes of a frame as a read. -/
def reads (frame : ClientFrame) : Action :=
  .read [] frame.flags frame.encode.tail

/-- A message is answered, the peer closes, and the application is late. -/
def lateActions : List Action :=
  [reads (keyed 0x81 [0x61]),
    .send { flags := 0x81, payload := [[0x62]] },
    .write [],
    reads (keyed 0x88 [0x03, 0xe8]),
    .send { flags := 0x88, payload := [] },
    reads (keyed 0x81 [0x63])]

theorem closing_handshake_lateActions :
    let endpoint :=
      run (step takesEverything) (Endpoint.create (fun _ _ => 0) ())
        lateActions
    ((endpoint.queued.filter isClose).length ≤ 1 ∧
        ∀ front frame back,
          endpoint.queued = front ++ frame :: back →
            isClose frame = true → back = []) ∧
      (Stopped endpoint.session →
        ∀ later,
          (run (step takesEverything) endpoint later).calls =
              endpoint.calls ∧
            ∀ sending,
              (ymoWsSessionSend
                  (run (step takesEverything) endpoint later)
                  sending).1 ≠
                .okay) :=
  closing_handshake (fun _ _ _ _ member => by cases member)
    (fun _ _ => 0) () (by decide +kernel)

/-- The application closes, and the close frame with which the peer answers is
answered with another one. -/
theorem two_closes :
    ((run (step takesEverything) (Endpoint.create (fun _ _ => 0) ())
        [.send { flags := 0x88, payload := [[0x03, 0xe8]] },
          reads (keyed 0x88 [0x03, 0xe8])]).queued.filter
      isClose).length = 2 := by
  decide +kernel

end Yimmo.Ws.Closing
