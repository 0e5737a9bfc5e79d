import Yimmo.Ws.Closing
import Yimmo.Ws.HeaderCodec
import Yimmo.Ws.Unmasking

/-!
# The frame buffer

The frames of a session share one buffer.  `ymo_ws_session_alloc_frame` keeps it where
it is long enough and replaces it otherwise, the reset of a frame carries it over, and
the buckets of the receive list point into it.

This module follows a session through reads, sends and writes, and through the calls of
parse functions within a read.  A payload is parsed into a buffer that is there and long
enough, and a bucket that a callback is given points to the buffer that is there then.
A frame whose payload has failed the check keeps its state, with all of it parsed; the
session has stopped then.
-/

namespace Yimmo.Ws.FrameBuffer

open Yimmo.Core.Net
open Yimmo.Core.StatusCode
open Yimmo.Core.Utf8
open Yimmo.Lib.ByteMemory
open Yimmo.Lib.GuardedRun
open Yimmo.Lib.TurnLoop
open Yimmo.Ws.Parse
open Yimmo.Ws.Session
open Yimmo.Ws.ReadLoop
open Yimmo.Ws.Congruence
open Yimmo.Ws.ChunkIndependence
open Yimmo.Ws.Encode
open Yimmo.Ws.Closing
open Yimmo.Ws.HeaderCodec
open Yimmo.Ws.Unmasking

variable
    {App : Type}
    {session : WsSession}
    {endpoint : Endpoint App}
    (recvCb : RecvCb App)

/-! ## Calls and deliveries of a read -/

/-- The parse loop of a read comes to the session with some bytes left. -/
structure ParsesAt
    (before : WsSession)
    (buffer : Bytes)
    (point : WsSession × Bytes) :
    Prop where
  running : ¬Stopped before
  reached : Reaches parseTurn (before, buffer) point

/-- The buckets that a callback is given, each with the session then. -/
def delivered (callback : Callback App) :
    List RecvBucket → Endpoint App → List (WsSession × RecvBucket)
  | [], _ => []
  | bucket :: rest, endpoint =>
      (endpoint.session, bucket) ::
        match
          callback endpoint endpoint.session.frameIn.flags
            (endpoint.session.bucketData bucket) with
        | (.okay, later) => delivered callback rest later
        | (.err _, _) => []

/-- The buckets that are delivered where a frame is complete. -/
def completeDeliveries (recvCb : RecvCb App) (endpoint : Endpoint App) :
    List (WsSession × RecvBucket) :=
  let session := endpoint.session
  let op := opCode session.frameIn.flags
  if isData op then
    if session.state = .connected then
      delivered (callRecvCb recvCb) session.recvList endpoint
    else []
  else if op = ymoWsOpClose then
    if session.state = .expectClose ∨ refusesClose session then []
    else delivered wsEchoCb session.recvList endpoint
  else if op = ymoWsOpPing then delivered wsEchoCb session.recvList endpoint
  else []

/-- The buckets that are delivered in a read. -/
def readDeliveries (recvCb : RecvCb App) (endpoint : Endpoint App)
    (buffer : Bytes) :
    List (WsSession × RecvBucket) :=
  if endpoint.session.state = .closeReceived ∨
      endpoint.session.state = .error then
    []
  else
    match parseLoop endpoint.session buffer with
    | .complete session _ =>
        completeDeliveries recvCb { endpoint with session := session }
    | .more _ => []
    | .failed _ _ => []

/-! ## The invariant -/

/-- What holds of the frame and the receive list at any time. -/
structure Holding (session : WsSession) : Prop where
  bounded : session.frameIn.bufLen ≤ ymoWsFrameMax
  allocated :
    session.frameIn.parseState = .maskingKey ∨
        session.frameIn.parseState = .payload →
      session.frameIn.buffer.isSome ∧
        session.frameIn.len ≤ session.frameIn.bufLen
  parsed :
    session.frameIn.parseState = .payload →
      session.frameIn.parsed ≤ session.frameIn.len
  buckets :
    ∀ bucket ∈ session.recvList,
      bucket.data.isSome →
        session.frameIn.parseState = .complete ∧
          bucket.data = session.frameIn.buffer ∧
            opCode session.frameIn.flags ≠ ymoWsOpPong

theorem holding_ymoWsSessionCreate (memory : Nat → Memory) :
    Holding (ymoWsSessionCreate memory) where
  bounded := Nat.zero_le _
  allocated := by
    rintro (key | payload)
    · cases key
    · cases payload
  parsed := by
    intro payload
    cases payload
  buckets := by rintro bucket ⟨⟩

/-- Before a frame is complete, no bucket has data. -/
theorem Holding.noData (holding : Holding session)
    (incomplete : session.frameIn.parseState ≠ .complete) :
    ∀ bucket ∈ session.recvList, bucket.data = none := by
  intro bucket member
  cases data : bucket.data with
  | none => rfl
  | some block =>
      have isSome : bucket.data.isSome := by
        rw [data]
        rfl
      exact absurd (holding.buckets bucket member isSome).1 incomplete

theorem holding_of_noData
    (bounded : session.frameIn.bufLen ≤ ymoWsFrameMax)
    (allocated :
      session.frameIn.parseState = .maskingKey ∨
          session.frameIn.parseState = .payload →
        session.frameIn.buffer.isSome ∧
          session.frameIn.len ≤ session.frameIn.bufLen)
    (parsed :
      session.frameIn.parseState = .payload →
        session.frameIn.parsed ≤ session.frameIn.len)
    (noData : ∀ bucket ∈ session.recvList, bucket.data = none) :
    Holding session where
  bounded := bounded
  allocated := allocated
  parsed := parsed
  buckets := by
    intro bucket member data
    rw [noData bucket member] at data
    cases data

/-! ## The parse functions keep it -/

theorem holding_ymoWsParseOp (holding : Holding session)
    (stands : session.frameIn.parseState = .op)
    (ch : UInt8) :
    Holding (ymoWsParseOp session ch).1 := by
  have incomplete : session.frameIn.parseState ≠ .complete := by
    rw [stands]
    exact WsParseState.noConfusion
  rw [ymoWsParseOp_verdict]
  cases opVerdict session.msgType ch with
  | error errno =>
      exact
        holding_of_noData holding.bounded holding.allocated
          holding.parsed (holding.noData incomplete)
  | ok type =>
      refine
        holding_of_noData holding.bounded ?_ ?_ (holding.noData incomplete)
      · rintro (key | payload)
        · cases key
        · cases payload
      · intro payload
        cases payload

/-- What the allocation of a frame comes to. -/
theorem exists_allocated (session : WsSession) (len : Nat)
    (bounded : session.frameIn.bufLen ≤ ymoWsFrameMax) :
    ∃ buffer bufLen blocks status,
      ymoWsSessionAllocFrame session len =
          ({ session with
              frameIn :=
                { session.frameIn with
                  buffer := buffer
                  bufLen := bufLen }
              blocks := blocks },
            status) ∧
        bufLen ≤ ymoWsFrameMax ∧
          (status = .okay → buffer.isSome ∧ len ≤ bufLen) ∧
            (len ≤ ymoWsFrameMax → status = .okay) := by
  by_cases large : len > ymoWsFrameMax
  · refine
      ⟨session.frameIn.buffer, session.frameIn.bufLen, session.blocks,
        .err enobufs, ?_, bounded, Status.noConfusion, ?_⟩
    · rw [ymoWsSessionAllocFrame, if_pos large]
    · intro fits
      exact absurd fits (Nat.not_le.mpr large)
  · by_cases kept :
      session.frameIn.buffer.isSome ∧ session.frameIn.bufLen ≥ len
    · refine
        ⟨session.frameIn.buffer, session.frameIn.bufLen, session.blocks,
          .okay, ?_, bounded, fun _ => kept, fun _ => rfl⟩
      rw [ymoWsSessionAllocFrame, if_neg large, if_pos kept]
    · refine
        ⟨some session.blocks, max ymoWsFrameMin len, session.blocks + 1,
          .okay, ?_, ?_, ?_, fun _ => rfl⟩
      · rw [ymoWsSessionAllocFrame, if_neg large, if_neg kept]
      · exact max_le (by decide) (Nat.not_lt.mp large)
      · intro _
        exact ⟨rfl, Nat.le_max_right _ _⟩

theorem holding_ymoWsParseLen (holding : Holding session)
    (stands : session.frameIn.parseState = .len)
    (ch : UInt8) :
    Holding (ymoWsParseLen session ch).1 := by
  have noData :=
    holding.noData
      (show session.frameIn.parseState ≠ .complete by
        rw [stands]
        exact WsParseState.noConfusion)
  simp only [ymoWsParseLen]
  split_ifs with unmasked short
  · exact
      holding_of_noData holding.bounded holding.allocated holding.parsed noData
  · rcases
      exists_allocated
        { session with
          frameIn :=
            { session.frameIn with
              masked := ch &&& ymoWsFlagMasked != 0
              len := (ch &&& ymoWsMaskLen).toNat
              parseState := .maskingKey } }
        (ch &&& ymoWsMaskLen).toNat holding.bounded with
      ⟨buffer, bufLen, blocks, status, allocated, bounded, granted, fits⟩
    rw [allocated]
    rw [fits (short.trans (by decide))] at granted ⊢
    refine holding_of_noData bounded (fun _ => granted rfl) ?_ noData
    intro payload
    cases payload
  all_goals
    refine holding_of_noData holding.bounded ?_ ?_ noData
    · rintro (key | payload)
      · cases key
      · cases payload
    · intro payload
      cases payload

theorem holding_ymoWsParseLenExt (holding : Holding session)
    (stands : session.frameIn.parseState = .lenExtended)
    (buffer : Bytes) :
    Holding (ymoWsParseLenExt session buffer).1 := by
  have noData :=
    holding.noData
      (show session.frameIn.parseState ≠ .complete by
        rw [stands]
        exact WsParseState.noConfusion)
  rcases loop :
      lenExtBytes session.frameIn.len session.frameIn.idx buffer with
    ⟨len, idx⟩
  have still : Holding (lenRead session len idx) := by
    refine holding_of_noData holding.bounded ?_ ?_ noData
    · rintro (key | payload)
      · cases stands.symm.trans key
      · cases stands.symm.trans payload
    · intro payload
      cases stands.symm.trans payload
  rw [ymoWsParseLenExt_eq loop]
  split_ifs with finished large
  · exact still
  · rcases exists_allocated (lenRead session len idx) len
        holding.bounded with
      ⟨buffer, bufLen, blocks, status, allocated, bounded, granted, -⟩
    rw [allocated]
    cases status with
    | okay =>
        refine holding_of_noData bounded (fun _ => granted rfl) ?_ noData
        intro payload
        cases payload
    | err errno =>
        refine holding_of_noData bounded ?_ ?_ noData
        · rintro (key | payload)
          · cases stands.symm.trans key
          · cases stands.symm.trans payload
        · intro payload
          cases stands.symm.trans payload
  · exact still

theorem holding_ymoWsParseMaskingKey (holding : Holding session)
    (stands : session.frameIn.parseState = .maskingKey)
    (ready : WsFrame.Ready session.frameIn)
    (buffer : Bytes) :
    Holding (ymoWsParseMaskingKey session buffer).1 := by
  have noData :=
    holding.noData
      (show session.frameIn.parseState ≠ .complete by
        rw [stands]
        exact WsParseState.noConfusion)
  have allocated := holding.allocated (Or.inl stands)
  have started :
      session.frameIn.masked = true ∧ session.frameIn.parsed = 0 ∧
        session.frameIn.idx < 4 := by
    rw [WsFrame.Ready, stands] at ready
    exact ready
  simp only [ymoWsParseMaskingKey, started.1, Bool.not_true,
    Bool.false_eq_true, if_false]
  split_ifs with finished nonempty
  · refine holding_of_noData holding.bounded (fun _ => allocated) ?_ noData
    intro _
    show session.frameIn.parsed ≤ session.frameIn.len
    rw [started.2.1]
    exact Nat.zero_le _
  · refine holding_of_noData holding.bounded ?_ ?_ ?_
    · rintro (key | payload)
      · cases key
      · cases payload
    · intro payload
      cases payload
    · intro bucket member
      rcases List.mem_append.mp member with early | new
      · exact noData bucket early
      · rw [List.mem_singleton.mp new]
  · refine holding_of_noData holding.bounded (fun _ => allocated) ?_ noData
    intro payload
    cases stands.symm.trans payload

/-- Where a frame ends its buffer is in the bucket. -/
theorem holding_payloadDone (bounded : session.frameIn.bufLen ≤ ymoWsFrameMax)
    (noData : ∀ bucket ∈ session.recvList, bucket.data = none) :
    Holding (payloadDone session) where
  bounded := by
    rw [payloadDone_frameIn]
    exact bounded
  allocated := by
    rw [payloadDone_frameIn]
    rintro (key | payload)
    · cases key
    · cases payload
  parsed := by
    rw [payloadDone_frameIn]
    intro payload
    cases payload
  buckets := by
    rw [payloadDone_frameIn]
    intro bucket member data
    refine ⟨rfl, ?_⟩
    simp only [payloadDone] at member
    split at member
    · next pushed =>
        rcases List.mem_append.mp member with early | new
        · rw [noData bucket early] at data
          cases data
        · rw [List.mem_singleton.mp new]
          refine ⟨rfl, ?_⟩
          intro pong
          rw [show opCode session.frameIn.flags = _ from pong] at pushed
          revert pushed
          decide
    · rw [noData bucket member] at data
      cases data

theorem holding_ymoWsParsePayload (holding : Holding session)
    (stands : session.frameIn.parseState = .payload)
    (buffer : Bytes) :
    Holding (ymoWsParsePayload session buffer).1 := by
  have noData :=
    holding.noData
      (show session.frameIn.parseState ≠ .complete by
        rw [stands]
        exact WsParseState.noConfusion)
  have allocated := holding.allocated (Or.inr stands)
  have within := holding.parsed stands
  rw [ymoWsParsePayload_stored]
  have fits :
      session.frameIn.parsed +
          (buffer.take (session.frameIn.len - session.frameIn.parsed)).length ≤
        session.frameIn.len := by
    rw [List.length_take]
    omega
  generalize
    buffer.take (session.frameIn.len - session.frameIn.parsed) = data at fits ⊢
  rcases exists_storePayload session data with ⟨idx, memory, stored⟩
  rw [stored, parseStored]
  split
  · exact
      holding_of_noData holding.bounded (fun _ => allocated)
        (fun _ => fits) noData
  · dsimp only
    split
    · exact holding_payloadDone holding.bounded noData
    · exact
        holding_of_noData holding.bounded (fun _ => allocated)
          (fun _ => fits) noData

theorem holding_parseByState (holding : Holding session)
    (ready : WsFrame.Ready session.frameIn)
    (ch : UInt8)
    (rest : Bytes) :
    Holding (parseByState session ch rest).1 := by
  rw [parseByState]
  cases stands : session.frameIn.parseState with
  | op => exact holding_ymoWsParseOp holding stands ch
  | len => exact holding_ymoWsParseLen holding stands ch
  | lenExtended => exact holding_ymoWsParseLenExt holding stands (ch :: rest)
  | maskingKey =>
      exact holding_ymoWsParseMaskingKey holding stands ready (ch :: rest)
  | payload => exact holding_ymoWsParsePayload holding stands (ch :: rest)
  | complete => exact holding

/-! ## Complete frames -/

theorem Holding.of_same {before after : WsSession} (holding : Holding before)
    (frame : after.frameIn = before.frameIn)
    (list : after.recvList = before.recvList) :
    Holding after where
  bounded := by
    rw [frame]
    exact holding.bounded
  allocated := by
    rw [frame]
    exact holding.allocated
  parsed := by
    rw [frame]
    exact holding.parsed
  buckets := by
    rw [frame, list]
    exact holding.buckets

/-- The receive list was emptied. -/
theorem Holding.of_emptied {before after : WsSession}
    (holding : Holding before)
    (frame : after.frameIn = before.frameIn)
    (list : after.recvList = []) :
    Holding after where
  bounded := by
    rw [frame]
    exact holding.bounded
  allocated := by
    rw [frame]
    exact holding.allocated
  parsed := by
    rw [frame]
    exact holding.parsed
  buckets := by
    rw [list]
    rintro bucket ⟨⟩

theorem wsErrClose_frame (endpoint : Endpoint App) (reason : Nat) :
    (wsErrClose endpoint reason).session.frameIn =
        endpoint.session.frameIn ∧
      (wsErrClose endpoint reason).session.recvList =
        endpoint.session.recvList := by
  rw [wsErrClose]
  split
  · exact ⟨rfl, rfl⟩
  · exact ⟨rfl, rfl⟩

theorem Holding.wsErrClose {endpoint : Endpoint App}
    (holding : Holding endpoint.session)
    (reason : Nat) :
    Holding (wsErrClose endpoint reason).session :=
  holding.of_same (wsErrClose_frame endpoint reason).1
    (wsErrClose_frame endpoint reason).2

/-- A frame is reset when no bucket has data. -/
theorem holding_resetFrame (holding : Holding session)
    (noData : ∀ bucket ∈ session.recvList, bucket.data = none) :
    Holding (resetFrame session) := by
  refine holding_of_noData holding.bounded ?_ ?_ noData
  · rintro (key | payload)
    · cases key
    · cases payload
  · intro payload
    cases payload

theorem holding_afterCallback {result : Status × Endpoint App}
    (holding : Holding result.2.session)
    (noData : ∀ bucket ∈ result.2.session.recvList, bucket.data = none)
    (lenIn taken : Nat) :
    Holding (afterCallback lenIn taken result).2.session := by
  rcases result with ⟨_ | errno, later⟩
  · exact holding_resetFrame holding noData
  · exact holding.wsErrClose 1002

theorem holding_invokeRecvCallback {callback : Callback App}
    (sends : Sends callback)
    {endpoint : Endpoint App}
    (holding : Holding endpoint.session) :
    Holding (invokeRecvCallback callback endpoint).2.session ∧
      (invokeRecvCallback callback endpoint).2.session.recvList = [] := by
  have called := session_invokeRecvCallback sends endpoint
  have list :
      (invokeRecvCallback callback endpoint).2.session.recvList = [] := by
    rw [called.session]
  refine ⟨holding.of_emptied ?_ list, list⟩
  rw [called.session]

theorem holding_handleClientClose (outcomes : List SendOutcome)
    (holding : Holding endpoint.session)
    (len : Nat) :
    Holding (handleClientClose outcomes endpoint len).2.session := by
  have entered :
      Holding
        { endpoint with
          session :=
            { endpoint.session with state := .closeReceived } }.session :=
    holding.of_same rfl rfl
  rw [handleClientClose]
  split
  · exact entered
  · rw [answerClose]
    split
    · exact entered.wsErrClose 1002
    · have echoed := holding_invokeRecvCallback onlySends_wsEchoCb entered
      refine echoed.1.of_same ?_ ?_
      · show (ymoWriteCb _ _).session.frameIn = _
        rw [session_ymoWriteCb]
      · show (ymoWriteCb _ _).session.recvList = _
        rw [session_ymoWriteCb]

theorem holding_dispatch (outcomes : List SendOutcome)
    (holding : Holding endpoint.session) :
    Holding (dispatch recvCb outcomes endpoint).session := by
  rw [dispatch, wsParseComplete]
  split
  · split
    · have called :=
        holding_invokeRecvCallback (onlySends_callRecvCb recvCb) holding
      refine holding_afterCallback called.1 ?_ 0 0
      rw [called.2]
      rintro bucket ⟨⟩
    · exact holding
  · split
    · exact holding_handleClientClose outcomes holding 0
    · split
      · have called := holding_invokeRecvCallback onlySends_wsEchoCb holding
        refine holding_afterCallback called.1 ?_ 0 0
        rw [called.2]
        rintro bucket ⟨⟩
      · split
        · next pong =>
            refine holding_afterCallback holding ?_ 0 0
            intro bucket member
            cases data : bucket.data with
            | none => rfl
            | some block =>
                have isSome : bucket.data.isSome := by
                  rw [data]
                  rfl
                exact absurd pong (holding.buckets bucket member isSome).2.2
        · exact holding.wsErrClose 1002

/-! ## The parse loop -/

/-- What stands at a turn of the parse loop. -/
structure AtTurn (session : WsSession) : Prop where
  holding : Holding session
  coherent : session.utf8State.Coherent
  standing :
    session.frameIn.parseState = .complete ∨ WsFrame.Ready session.frameIn

theorem AtTurn.next {session later : WsSession} (atTurn : AtTurn session)
    (incomplete : session.frameIn.parseState ≠ .complete)
    {ch : UInt8}
    {rest : Bytes}
    {count : Nat}
    (parsed : parseByState session ch rest = (later, .ok count)) :
    AtTurn later := by
  have ready := atTurn.standing.resolve_left incomplete
  have sound := parseByState_sound atTurn.coherent ready ch rest
  have holding := holding_parseByState atTurn.holding ready ch rest
  rw [parsed] at sound holding
  exact ⟨holding, sound.coherent, (sound.progress count rfl).2⟩

theorem atTurn_reached {before : WsSession} {buffer : Bytes}
    {point : WsSession × Bytes}
    (reached : Reaches parseTurn (before, buffer) point)
    (start : AtTurn before) :
    AtTurn point.1 := by
  refine
    @Reaches.invariant _ _ parseTurn
      (fun locals : WsSession × Bytes => AtTurn locals.1)
      ?_ _ _ reached start
  intro locals next atTurn goesOn
  rcases parseTurn_again goesOn with
    ⟨ch, rest, count, _, incomplete, parsed, _⟩
  exact atTurn.next incomplete parsed

/-- What stands where the parse loop ends. -/
def EndHolding : ParseEnd → Prop
  | .complete session _ =>
      Holding session ∧ session.frameIn.parseState = .complete
  | .more session => Holding session
  | .failed session _ => Holding session

theorem endHolding_parseLoop (start : AtTurn session) (buffer : Bytes) :
    EndHolding (parseLoop session buffer) := by
  refine
    loop_satisfies
      (fun locals : WsSession × Bytes => AtTurn locals.1)
      EndHolding ?_ ?_ _ start
  case refine_2 =>
    intro locals atTurn
    exact atTurn.holding
  rintro ⟨session, _ | ⟨ch, rest⟩⟩ atTurn
  · exact atTurn.holding
  · rw [parseTurn]
    split
    · next complete => exact ⟨atTurn.holding, complete⟩
    · next incomplete =>
        have ready := atTurn.standing.resolve_left incomplete
        have holding := holding_parseByState atTurn.holding ready ch rest
        split
        · next later errno parsed =>
            rw [parsed] at holding
            exact holding
        · next later count parsed =>
            have next := atTurn.next incomplete parsed
            split
            · split
              · next complete => exact ⟨next.holding, complete⟩
              · exact next.holding
            · exact next

/-! ## Runs -/

/-- What a session keeps. -/
structure Buffered (session : WsSession) : Prop where
  sound : Sound session
  holding : Holding session
  closed :
    session.state = .closeReceived → session.frameIn.parseState = .complete

theorem buffered_ymoWsSessionCreate (memory : Nat → Memory) :
    Buffered (ymoWsSessionCreate memory) where
  sound := sound_ymoWsSessionCreate memory
  holding := holding_ymoWsSessionCreate memory
  closed := by
    intro closed
    cases closed

theorem Buffered.atTurn (buffered : Buffered session)
    (running : ¬Stopped session) :
    AtTurn session :=
  ⟨buffered.holding, buffered.sound.coherent,
    Or.inr (buffered.sound.ready running).2⟩

theorem frameIn_handleClientClose (outcomes : List SendOutcome)
    (endpoint : Endpoint App)
    (len : Nat) :
    (handleClientClose outcomes endpoint len).2.session.frameIn =
      endpoint.session.frameIn := by
  rw [handleClientClose]
  split
  · rfl
  · rw [answerClose]
    split
    · rw [(wsErrClose_frame _ 1002).1]
    · show (ymoWriteCb _ _).session.frameIn = _
      rw [session_ymoWriteCb,
        (session_invokeRecvCallback onlySends_wsEchoCb _).session]

theorem not_closed_afterCallback {result : Status × Endpoint App}
    (connected : result.2.session.state = .connected)
    (lenIn taken : Nat) :
    (afterCallback lenIn taken result).2.session.state ≠ .closeReceived := by
  rcases result with ⟨_ | errno, later⟩
  · intro closed
    cases connected.symm.trans closed
  · intro closed
    cases (stopped_wsErrClose later 1002).symm.trans closed

/-- A complete frame closes the session with the frame as it is. -/
theorem closed_dispatch
    (outcomes : List SendOutcome)
    (connected : endpoint.session.state = .connected)
    (complete : endpoint.session.frameIn.parseState = .complete)
    (closed :
      (dispatch recvCb outcomes endpoint).session.state = .closeReceived) :
    (dispatch recvCb outcomes endpoint).session.frameIn.parseState =
      .complete := by
  have called :
      ∀ callback : Callback App, Sends callback →
        (invokeRecvCallback callback endpoint).2.session.state =
          .connected := by
    intro callback sends
    rw [(session_invokeRecvCallback sends endpoint).session]
    exact connected
  revert closed
  rw [dispatch, wsParseComplete]
  split
  · intro closed
    exact
      absurd closed
        (not_closed_afterCallback (called _ (onlySends_callRecvCb recvCb)) 0 0)
  · split
    · intro _
      rw [frameIn_handleClientClose]
      exact complete
    · split
      · intro closed
        exact
          absurd closed
            (not_closed_afterCallback (called _ onlySends_wsEchoCb) 0 0)
      · split
        · intro closed
          exact absurd closed (not_closed_afterCallback connected 0 0)
        · intro closed
          cases (stopped_wsErrClose endpoint 1002).symm.trans closed

theorem buffered_step (buffered : Buffered endpoint.session)
    (action : Action) :
    Buffered (step recvCb endpoint action).session := by
  cases action with
  | read outcomes ch rest =>
      rw [step]
      by_cases stopped : Stopped endpoint.session
      · rw [ymoProtoWsRead_stopped recvCb outcomes stopped]
        exact buffered
      rw [snd_ymoProtoWsRead recvCb outcomes stopped]
      have connected := (buffered.sound.ready stopped).1
      have sound :=
        finish_sound recvCb outcomes buffered.sound stopped
          (List.cons_ne_nil ch rest)
      have ends :=
        endSound_parseLoop buffered.sound.coherent
          (buffered.sound.ready stopped).2 (ch :: rest)
      have holding :=
        endHolding_parseLoop (buffered.atTurn stopped) (ch :: rest)
      refine ⟨sound.1, ?_, ?_⟩
      · cases ended : parseLoop endpoint.session (ch :: rest) with
        | failed session errno =>
            rw [ended] at holding
            exact
              @Holding.wsErrClose App { endpoint with session := session }
                holding _
        | more session =>
            rw [ended] at holding
            exact holding
        | complete session left =>
            rw [ended] at holding
            exact holding_dispatch recvCb outcomes holding.1
      · cases ended : parseLoop endpoint.session (ch :: rest) with
        | failed session errno =>
            intro closed
            have error :=
              stopped_wsErrClose { endpoint with session := session }
                (reasonFromErrno errno)
            cases error.symm.trans closed
        | more session =>
            rw [ended] at ends
            intro closed
            cases (connected.symm.trans ends.1.symm).trans closed
        | complete session left =>
            rw [ended] at ends holding
            exact
              closed_dispatch recvCb outcomes
                (ends.1.trans connected) holding.2
  | send sending =>
      have sends := onlySends_ymoWsSessionSend endpoint sending
      rw [step, sends.session]
      exact
        ⟨⟨buffered.sound.coherent, buffered.sound.standing⟩,
          buffered.holding.of_same rfl rfl, buffered.closed⟩
  | write outcomes =>
      rw [step, session_ymoWriteCb]
      exact
        ⟨⟨buffered.sound.coherent, buffered.sound.standing⟩,
          buffered.holding.of_same rfl rfl, buffered.closed⟩

/-! ## The buffer over a run -/

/-- A payload that is parsed has a buffer that is there and long enough, and some of it
is missing. -/
structure Parsable (frame : WsFrame) : Prop where
  allocated : frame.buffer.isSome
  missing : frame.parsed < frame.len
  fits : frame.len ≤ frame.bufLen
  bounded : frame.bufLen ≤ ymoWsFrameMax

theorem Holding.parsable (holding : Holding session)
    (payload : session.frameIn.parseState = .payload)
    (ready : WsFrame.Ready session.frameIn) :
    Parsable session.frameIn := by
  have allocated := holding.allocated (Or.inr payload)
  refine ⟨allocated.1, ?_, allocated.2, holding.bounded⟩
  rw [WsFrame.Ready, payload] at ready
  exact ready

/-- What holds of a session between two calls. -/
structure SafeBetween (session : WsSession) : Prop where
  held :
    session.frameIn.parseState = .payload →
      session.frameIn.buffer.isSome ∧
        session.frameIn.parsed ≤ session.frameIn.len ∧
          session.frameIn.len ≤ session.frameIn.bufLen ∧
            session.frameIn.bufLen ≤ ymoWsFrameMax
  missing :
    session.frameIn.parseState = .payload →
      session.state ≠ .error →
        session.frameIn.parsed < session.frameIn.len

theorem Buffered.safeBetween (buffered : Buffered session) :
    SafeBetween session where
  held := by
    intro payload
    have allocated := buffered.holding.allocated (Or.inr payload)
    exact
      ⟨allocated.1, buffered.holding.parsed payload, allocated.2,
        buffered.holding.bounded⟩
  missing := by
    intro payload running
    have going : ¬Stopped session := by
      rintro (closed | error)
      · cases payload.symm.trans (buffered.closed closed)
      · exact running error
    exact
      (buffered.holding.parsable payload
        (buffered.sound.ready going).2).missing

/-- What holds at a turn of the parse loop of a read. -/
structure SafePoint (point : WsSession × Bytes) : Prop where
  parsable : point.1.frameIn.parseState = .payload → Parsable point.1.frameIn
  stores :
    point.1.frameIn.parseState = .payload →
      ∀ piece : Piece,
        ∃ after parsed stores,
          ymoWsParsePayloadAt point.1 piece =
              some (after, parsed, stores) ∧
            ∀ entry ∈ stores, entry.1 < point.1.frameIn.bufLen

theorem AtTurn.safePoint (atTurn : AtTurn session) (left : Bytes) :
    SafePoint (session, left) where
  parsable := by
    intro payload
    refine atTurn.holding.parsable payload ?_
    refine atTurn.standing.resolve_left ?_
    intro complete
    cases payload.symm.trans complete
  stores := by
    intro payload piece
    have allocated := atTurn.holding.allocated (Or.inr payload)
    rcases exists_parsePayloadAt session piece with
      ⟨after, parsed, _, _, called, _⟩
    refine ⟨after, parsed, _, called, ?_⟩
    intro entry member
    exact
      Nat.lt_of_lt_of_le
        (payloadStores_below (atTurn.holding.parsed payload) member)
        allocated.2

/-- A callback runs with the frame that completed. -/
theorem delivered_current {callback : Callback App}
    (sends : Sends callback)
    {buckets : List RecvBucket}
    {endpoint : Endpoint App}
    (current :
      ∀ bucket ∈ buckets,
        bucket.data.isSome → bucket.data = endpoint.session.frameIn.buffer)
    {delivery : WsSession × RecvBucket}
    (member : delivery ∈ delivered callback buckets endpoint)
    (data : delivery.2.data.isSome) :
    delivery.2.data = delivery.1.frameIn.buffer := by
  induction buckets generalizing endpoint with
  | nil => cases member
  | cons bucket rest ih =>
      rw [delivered] at member
      rcases List.mem_cons.mp member with rfl | later
      · exact current bucket (List.mem_cons_self ..) data
      · have called :=
          sends endpoint endpoint.session.frameIn.flags
            (endpoint.session.bucketData bucket)
        split at later
        · next after ran =>
            rw [ran] at called
            refine ih ?_ later
            intro other within present
            rw [called.session]
            exact current other (List.mem_cons_of_mem _ within) present
        · cases later

theorem completeDeliveries_current (recvCb : RecvCb App)
    {endpoint : Endpoint App}
    (holding : Holding endpoint.session)
    {delivery : WsSession × RecvBucket}
    (member : delivery ∈ completeDeliveries recvCb endpoint)
    (data : delivery.2.data.isSome) :
    delivery.2.data = delivery.1.frameIn.buffer := by
  have current :
      ∀ bucket ∈ endpoint.session.recvList,
        bucket.data.isSome →
          bucket.data = endpoint.session.frameIn.buffer := by
    intro bucket within present
    exact (holding.buckets bucket within present).2.1
  rw [completeDeliveries] at member
  split_ifs at member
  · exact delivered_current (onlySends_callRecvCb recvCb) current member data
  · cases member
  · cases member
  · exact delivered_current onlySends_wsEchoCb current member data
  · exact delivered_current onlySends_wsEchoCb current member data
  · cases member

/-- **The frame buffer**: along every run of reads, sends and writes, whenever a payload
is being parsed the buffer is there, the frame fits in it and it is not longer than
`YMO_WS_FRAME_MAX`; some of the payload is missing unless the session is in its error
state, and always where a parse function is called.  What such a call stores is inside
the buffer, and a bucket with data that a callback is given points to the buffer that
is there then. -/
theorem frame_buffer_safe (recvCb : RecvCb App) (memory : Nat → Memory)
    (app : App)
    (actions : List Action) :
    SafeBetween
        (run (step recvCb) (Endpoint.create memory app) actions).session ∧
      ∀ buffer,
        (∀ point,
          ParsesAt
              (run (step recvCb) (Endpoint.create memory app) actions).session
              buffer point →
            SafePoint point) ∧
          ∀ delivery ∈
              readDeliveries recvCb
                (run (step recvCb) (Endpoint.create memory app) actions)
                buffer,
            delivery.2.data.isSome →
              delivery.2.data = delivery.1.frameIn.buffer := by
  have buffered :
      Buffered
        (run (step recvCb) (Endpoint.create memory app) actions).session :=
    invariant_run_always
      (fun endpoint : Endpoint App => Buffered endpoint.session)
      (fun _ action buffered => buffered_step recvCb buffered action)
      (buffered_ymoWsSessionCreate memory) actions
  generalize
    run (step recvCb) (Endpoint.create memory app) actions = endpoint
      at buffered
  refine ⟨buffered.safeBetween, ?_⟩
  intro buffer
  constructor
  · intro point parses
    exact
      (atTurn_reached parses.reached
        (buffered.atTurn parses.running)).safePoint point.2
  · intro delivery member data
    by_cases stopped : Stopped endpoint.session
    · have none' : readDeliveries recvCb endpoint buffer = [] := if_pos stopped
      rw [none'] at member
      cases member
    · have holding := endHolding_parseLoop (buffered.atTurn stopped) buffer
      have read : readDeliveries recvCb endpoint buffer = _ := if_neg stopped
      rw [read] at member
      split at member
      · next session left ended =>
          rw [ended] at holding
          exact
            @completeDeliveries_current App recvCb
              { endpoint with session := session } holding.1 delivery
              member data
      · cases member
      · cases member

/-- A text frame whose one byte is not a character. -/
def brokenText : Action :=
  .read [] 0x81 [0x81, 0, 0, 0, 0, 0xff]

/-- The frame that failed the check has been parsed, and stays where it was. -/
theorem nothing_missing :
    let session :=
      (run (step takesEverything) (Endpoint.create (fun _ _ => 0) ())
        [brokenText]).session
    session.frameIn.parseState = .payload ∧
      session.state = .error ∧
        ¬session.frameIn.parsed < session.frameIn.len := by
  decide

end Yimmo.Ws.FrameBuffer
