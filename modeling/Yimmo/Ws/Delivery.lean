import Yimmo.Ws.Frames

/-!
# Delivery

`deliver` is what the application and the peer are to see of a frame: a data frame
is one call of the receive callback, a PING is answered by one PONG, and a PONG is
nothing.  `frames_delivered` says that a session does this over every sequence of
harmless frames in which no PONG is empty.

An empty PONG leaves a bucket on the receive list that nothing takes off before the
next frame.
-/

namespace Yimmo.Ws.Delivery

open Yimmo.Core.StatusCode
open Yimmo.Core.Net
open Yimmo.Lib.ByteMemory
open Yimmo.Lib.GuardedRun
open Yimmo.Ws.Parse
open Yimmo.Ws.Session
open Yimmo.Ws.ReadLoop
open Yimmo.Ws.ChunkIndependence
open Yimmo.Ws.Encode
open Yimmo.Ws.Frames

variable
    {App : Type}
    {recvCb : RecvCb App}
    {outcomes : List SendOutcome}

/-! ## What is to be seen -/

/-- What the application and the peer see of a session. -/
structure Seen (App : Type) where
  app : App
  /-- The calls of the receive callback. -/
  calls : List Frame
  /-- The frames that are queued. -/
  queued : List Frame

/-- What is seen of an endpoint. -/
def seen (endpoint : Endpoint App) : Seen App where
  app := endpoint.app
  calls := endpoint.calls
  queued := endpoint.queued

/-- The frames that a connected session queues for a callback. -/
def accepted (sends : List Sending) : List Frame :=
  (sends.filter fun sending =>
      isData (opCode sending.flags) || isControl (opCode sending.flags)).map
    fun sending =>
      { flags := sending.flags, payload := sending.payload.flatten }

/-- What is seen after a frame. -/
def deliver (recvCb : RecvCb App) (before : Seen App) (frame : Frame) :
    Seen App :=
  if isData (opCode frame.flags) then
    let (app, reaction) := recvCb before.app frame.flags frame.payload
    { app := app
      calls := before.calls ++ [frame]
      queued := before.queued ++ accepted reaction.sends }
  else if opCode frame.flags = ymoWsOpPing then
    { before with
      queued :=
        before.queued ++
          [{ flags := ymoWsFlagFin ||| ymoWsOpPong
             payload := frame.payload }] }
  else before

/-- The callback is called once for each data frame, in order. -/
theorem calls_deliver (recvCb : RecvCb App) (before : Seen App)
    (frames : List Frame) :
    (frames.foldl (deliver recvCb) before).calls =
      before.calls ++
        frames.filter fun frame => isData (opCode frame.flags) := by
  induction frames generalizing before with
  | nil => exact (List.append_nil before.calls).symm
  | cons frame rest ih =>
      rw [List.foldl_cons, ih, deliver]
      by_cases data : isData (opCode frame.flags) = true
      · rw [if_pos data, List.filter_cons, if_pos data]
        rcases recvCb before.app frame.flags frame.payload with ⟨app, reaction⟩
        exact List.append_assoc before.calls [frame] _
      · rw [if_neg data, List.filter_cons, if_neg data]
        split_ifs <;> rfl

/-! ## What a frame is seen as -/

theorem seen_ymoWsSessionSend {endpoint : Endpoint App}
    (connected : endpoint.session.state = .connected)
    (sending : Sending) :
    seen (ymoWsSessionSend endpoint sending).2 =
      { seen endpoint with
        queued := endpoint.queued ++ accepted [sending] } := by
  simp only [ymoWsSessionSend, connected]
  by_cases known :
      (isData (opCode sending.flags) ||
        isControl (opCode sending.flags)) = true
  · rw [if_pos known, accepted, List.filter_cons, if_pos known]
    rfl
  · rw [if_neg known, accepted, List.filter_cons, if_neg known,
      List.filter_nil, List.map_nil, List.append_nil]
    rfl

theorem seen_sendAll {endpoint : Endpoint App}
    (connected : endpoint.session.state = .connected)
    (sends : List Sending) :
    seen (sendAll endpoint sends) =
      { seen endpoint with queued := endpoint.queued ++ accepted sends } := by
  induction sends generalizing endpoint with
  | nil =>
      rw [accepted, List.filter_nil, List.map_nil, List.append_nil]
      rfl
  | cons sending rest ih =>
      have first := seen_ymoWsSessionSend connected sending
      have still :=
        (onlySends_ymoWsSessionSend endpoint sending).state.trans connected
      have later := ih still
      have queued :
          (ymoWsSessionSend endpoint sending).2.queued =
            endpoint.queued ++ accepted [sending] :=
        congrArg Seen.queued first
      have both :
          accepted (sending :: rest) =
            accepted [sending] ++ accepted rest := by
        simp only [accepted, ← List.map_append, ← List.filter_append,
          List.singleton_append]
      have rest' :
          sendAll endpoint (sending :: rest) =
            sendAll (ymoWsSessionSend endpoint sending).2 rest :=
        rfl
      rw [rest', later, first, queued, both, List.append_assoc]

/-- The bucket of a frame that finds the receive list empty. -/
theorem exists_bucket {before session : WsSession} {type : UInt8}
    {frame : Frame}
    (completed : Completed before type frame session)
    (drained : before.recvList = [])
    (kept : opCode frame.flags ≠ ymoWsOpPong) :
    ∃ bucket,
      session.recvList = [bucket] ∧
        session.bucketData bucket = frame.payload := by
  have one : leaves frame = [frame.payload] := by
    rw [leaves]
    split_ifs with empty
    · rw [empty]
    · rfl
  rcases completed.recvList with ⟨added, whole, payloads⟩
  rw [drained, List.nil_append] at whole
  rw [one] at payloads
  rcases List.map_eq_singleton_iff.mp payloads with ⟨bucket, rfl, payload⟩
  exact ⟨bucket, whole, payload⟩

/-- One bucket is one call. -/
theorem invokeRecvCallback_one (callback : Callback App)
    {endpoint : Endpoint App}
    {bucket : RecvBucket}
    (one : endpoint.session.recvList = [bucket]) :
    invokeRecvCallback callback endpoint =
      let called :=
        callback endpoint endpoint.session.frameIn.flags
          (endpoint.session.bucketData bucket)
      (called.1,
        { called.2 with
          session := { called.2.session with recvList := [] } }) := by
  rw [invokeRecvCallback, one]
  dsimp only
  rw [invokeEach]
  generalize
    callback endpoint endpoint.session.frameIn.flags
      (endpoint.session.bucketData bucket) = called
  rcases called with ⟨_ | errno, later⟩ <;> rfl

/-- The first byte of the answer to a PING. -/
theorem pongFlags {flags : UInt8} (reserved : ymoWsFlagsReserved flags = false)
    (whole : fin flags = true) :
    (flags &&& 0xf0) ||| ymoWsOpPong = ymoWsFlagFin ||| ymoWsOpPong := by
  revert reserved whole
  cases flags with
  | ofBitVec bits =>
      revert bits
      decide +kernel

/-- What is seen of a frame that is complete, when nothing is left from the frames
before it. -/
theorem seen_frameStep (okay : AlwaysOkay recvCb)
    {endpoint result : Endpoint App}
    (drained : endpoint.session.recvList = [])
    {frame : Frame}
    (sendable : Sendable frame)
    (answered : opCode frame.flags = ymoWsOpPong → frame.payload ≠ [])
    {phase : Phase}
    (step : FrameStep recvCb outcomes endpoint frame result (some phase)) :
    result.session.recvList = [] ∧
      seen result = deliver recvCb (seen endpoint) frame := by
  rcases step with ⟨type, session, completed, _, _, _, rfl⟩
  by_cases data : isData (opCode frame.flags) = true
  · rcases exists_bucket completed drained (isData_ne data).1
      with ⟨bucket, one, payload⟩
    rw [dispatch_data endpoint completed data]
    have called :
        invokeRecvCallback (callRecvCb recvCb)
            { endpoint with session := session } = _ :=
      invokeRecvCallback_one (callRecvCb recvCb) one
    dsimp only at called
    rw [called, payload, completed.flags]
    have status :
        (callRecvCb recvCb { endpoint with session := session }
          frame.flags frame.payload).1 = .okay :=
      okay _ _ _
    have shown :
        seen
            (callRecvCb recvCb { endpoint with session := session }
              frame.flags frame.payload).2 =
          deliver recvCb (seen endpoint) frame := by
      rw [deliver, if_pos data]
      exact seen_sendAll completed.state _
    rw [status]
    exact ⟨rfl, shown⟩
  · have control := sendable.kind.resolve_left data
    rw [deliver, if_neg data]
    rcases control with ping | pong
    · have kept : opCode frame.flags ≠ ymoWsOpPong := by
        rw [ping]
        decide
      have whole :=
        sendable.whole
          (by
            rw [ping]
            decide)
      rcases exists_bucket completed drained kept with ⟨bucket, one, payload⟩
      have dispatched :
          dispatch recvCb outcomes
              { endpoint with session := session } =
            (afterCallback 0 0
              (invokeRecvCallback wsEchoCb
                { endpoint with session := session })).2 := by
        simp only [dispatch, wsParseComplete, completed.flags, ping]
        rfl
      have called :
          invokeRecvCallback wsEchoCb
              { endpoint with session := session } = _ :=
        invokeRecvCallback_one wsEchoCb one
      dsimp only at called
      rw [if_pos ping, dispatched, called, payload, completed.flags]
      have answer :
          wsEchoCb { endpoint with session := session } frame.flags
              frame.payload =
            (.okay,
              ymoWsSessionSendNoCheck
                { endpoint with session := session }
                { flags := ymoWsFlagFin ||| ymoWsOpPong
                  payload := [frame.payload] }) := by
        rw [wsEchoCb, if_pos ping, pongFlags sendable.reserved whole]
      rw [answer]
      have one : [frame.payload].flatten = frame.payload := by simp
      refine ⟨rfl, ?_⟩
      simp only [seen, afterCallback, ymoWsSessionSendNoCheck, one]
    · have kept : opCode frame.flags ≠ ymoWsOpPing := by
        rw [pong]
        decide
      have dispatched :
          dispatch recvCb outcomes
              { endpoint with session := session } =
            (afterCallback 0 0
              (.okay, { endpoint with session := session })).2 := by
        simp only [dispatch, wsParseComplete, completed.flags, pong]
        rfl
      have nothing : leaves frame = [] := by
        rw [leaves, if_neg (answered pong), if_pos pong]
      rcases completed.recvList with ⟨added, whole, payloads⟩
      rw [nothing, List.map_eq_nil_iff] at payloads
      rw [drained, payloads] at whole
      rw [if_neg kept, dispatched]
      exact ⟨whole, rfl⟩

/-- What is seen of a run over frames none of which is an empty PONG. -/
theorem seen_walk
    (okay : AlwaysOkay recvCb)
    {endpoint result : Endpoint App}
    {frames : List ClientFrame}
    (walk : Walk recvCb outcomes endpoint frames result)
    (drained : endpoint.session.recvList = [])
    (sendable : ∀ frame ∈ frames, Sendable frame.toFrame)
    (answered :
      ∀ frame ∈ frames, frame.op = ymoWsOpPong → frame.payload ≠ []) :
    seen result =
      (frames.map ClientFrame.toFrame).foldl (deliver recvCb)
        (seen endpoint) := by
  induction walk with
  | nil endpoint => rfl
  | @cons endpoint middle result frame rest phase first step stands
      later ih =>
      rcases
          seen_frameStep okay drained
            (sendable frame (List.mem_cons_self ..))
            (answered frame (List.mem_cons_self ..)) step
        with ⟨drained', shown⟩
      rw [List.map_cons, List.foldl_cons, ← shown]
      refine ih drained' ?_ ?_
      · intro other member
        exact sendable other (List.mem_cons_of_mem _ member)
      · intro other member
        exact answered other (List.mem_cons_of_mem _ member)

theorem seen_of_same {left right : Endpoint App} (same : Same left right) :
    seen left = seen right := by
  rcases same with ⟨utf8State, _, rfl⟩ | same
  · rfl
  · rw [seen, seen, same.app, same.calls, same.queued]

/-- What a client may send: frames without a CLOSE in an order that is allowed,
with texts that are well-formed as far as they go. -/
structure Allowed (frames : List ClientFrame) : Prop where
  sendable : ∀ frame ∈ frames, Sendable frame.toFrame
  follows : (follow .idle (frames.map ClientFrame.toFrame)).isSome

/-- No frame reaches what is wrong with empty PONGs, with control frames inside a
text message, or with empty ends of messages. -/
structure Spared (frames : List ClientFrame) : Prop where
  harmless : HarmlessAlong .idle (frames.map ClientFrame.toFrame)
  answered : ∀ frame ∈ frames, frame.op = ymoWsOpPong → frame.payload ≠ []

/--
What a client sends, in any reads, is delivered: the session stays connected, and
what is seen of it is what is to be seen of the frames, the calls of the receive
callback being the data frames.
-/
theorem frames_delivered {recvCb : RecvCb App} (okay : AlwaysOkay recvCb)
    (outcomes : List SendOutcome)
    (memory : Nat → Memory)
    (app : App)
    {frames : List ClientFrame}
    (allowed : Allowed frames)
    (spared : Spared frames)
    (reads : List Bytes)
    (arrives : reads.flatten = frames.flatMap ClientFrame.encode) :
    let after :=
      run (ymoReadCb recvCb outcomes) (Endpoint.create memory app) reads
    after.session.state = .connected ∧
      seen after =
          (frames.map ClientFrame.toFrame).foldl (deliver recvCb)
            { app := app, calls := [], queued := [] } ∧
        after.calls =
          (frames.map ClientFrame.toFrame).filter fun frame =>
            isData (opCode frame.flags) := by
  have sound : Sound (Endpoint.create memory app).session :=
    sound_ymoWsSessionCreate memory
  rcases Option.isSome_iff_exists.mp allowed.follows with ⟨phase, follows⟩
  rcases
      walk_or_fails okay outcomes (stands_create memory app)
        allowed.sendable spared.harmless
    with ⟨result, after⟩
  rw [follows] at after
  have same := same_of_framesTo sound after.1.framesTo arrives
  have shown := seen_walk okay after.1 rfl allowed.sendable spared.answered
  have whole :
      seen
          (run (ymoReadCb recvCb outcomes)
            (Endpoint.create memory app) reads) =
        (frames.map ClientFrame.toFrame).foldl (deliver recvCb)
          { app := app, calls := [], queued := [] } := by
    exact (seen_of_same same).trans shown
  refine ⟨same.agree.state.trans after.2.boundary.connected, whole, ?_⟩
  have calls :=
    calls_deliver recvCb { app := app, calls := [], queued := [] }
      (frames.map ClientFrame.toFrame)
  rw [← whole] at calls
  exact calls

/-- A text message in two fragments with an empty PING between them, an empty
binary message, a PING and a PONG. -/
def someFrames : List ClientFrame :=
  [keyed 0x01 [0x61], keyed 0x89 [], keyed 0x80 [0x62],
    keyed 0x82 [], keyed 0x89 [1, 2], keyed 0x8a [3]]

theorem frames_delivered_someFrames :
    let after :=
      run (ymoReadCb takesEverything [])
        (Endpoint.create (fun _ _ => 0) ()) (byByte someFrames)
    after.session.state = .connected ∧
      seen after =
          (someFrames.map ClientFrame.toFrame).foldl
            (deliver takesEverything)
            { app := (), calls := [], queued := [] } ∧
        after.calls =
          (someFrames.map ClientFrame.toFrame).filter fun frame =>
            isData (opCode frame.flags) :=
  frames_delivered (fun _ _ _ => rfl) [] (fun _ _ => 0) ()
    ⟨by decide +kernel, by decide +kernel⟩
    ⟨by decide +kernel, by decide +kernel⟩ (byByte someFrames)
    (flatten_byByte someFrames)

/-- A text message after an empty PONG is delivered after an empty call. -/
theorem empty_pong_delivered :
    (run (ymoReadCb takesEverything [])
        (Endpoint.create (fun _ _ => 0) ())
        [[keyed 0x8a [], keyed 0x81 [0x61]].flatMap
          ClientFrame.encode]).calls ≠
      ([keyed 0x8a [], keyed 0x81 [0x61]].map
          ClientFrame.toFrame).filter fun frame =>
        isData (opCode frame.flags) := by
  decide +kernel

end Yimmo.Ws.Delivery
