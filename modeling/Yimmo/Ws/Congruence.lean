import Yimmo.Ws.ReadLoop

/-!
# What reading does not depend on

The validator's state between two characters keeps flags that no later call looks
at.  Sessions that differ in them only are twins: every function of the session
treats twins alike.
-/

namespace Yimmo.Ws.Congruence

open Yimmo.Core.StatusCode
open Yimmo.Core.Net
open Yimmo.Core.Utf8
open Yimmo.Lib.ByteMemory
open Yimmo.Ws.Parse
open Yimmo.Ws.Session
open Yimmo.Ws.ReadLoop

variable
    {App : Type}
    {session : WsSession}

/-- The session with another state of the validator. -/
def WsSession.withUtf8 (session : WsSession) (utf8State : Utf8State) :
    WsSession :=
  { session with utf8State := utf8State }

/-- The endpoint with another state of the validator. -/
def Endpoint.withUtf8 (endpoint : Endpoint App) (utf8State : Utf8State) :
    Endpoint App :=
  { endpoint with session := WsSession.withUtf8 endpoint.session utf8State }

/-! ## The functions of the endpoint -/

variable (utf8State : Utf8State)

theorem ymoWsSessionSend_withUtf8 (endpoint : Endpoint App)
    (sending : Sending) :
    (ymoWsSessionSend (Endpoint.withUtf8 endpoint utf8State)
        sending).2 =
      Endpoint.withUtf8 (ymoWsSessionSend endpoint sending).2 utf8State := by
  rcases endpoint with
    ⟨⟨frame, recv, send, tail, state, type, utf8, memory, blocks⟩,
      conn, app, calls, queued⟩
  simp only [ymoWsSessionSend, Endpoint.withUtf8, WsSession.withUtf8]
  split_ifs
  · cases state <;> rfl
  · rfl

theorem sendAll_withUtf8 (endpoint : Endpoint App) (sends : List Sending) :
    sendAll (Endpoint.withUtf8 endpoint utf8State) sends =
      Endpoint.withUtf8 (sendAll endpoint sends) utf8State := by
  induction sends generalizing endpoint with
  | nil => rfl
  | cons sending rest ih =>
      simp only [sendAll, List.foldl_cons] at ih ⊢
      rw [ymoWsSessionSend_withUtf8]
      exact ih _

/-- A callback that does not see the validator's state. -/
def Blind (callback : Callback App) : Prop :=
  ∀ endpoint flags data,
    callback (Endpoint.withUtf8 endpoint utf8State) flags data =
      ((callback endpoint flags data).1,
        Endpoint.withUtf8 (callback endpoint flags data).2 utf8State)

theorem blind_callRecvCb (recvCb : RecvCb App) :
    Blind utf8State (callRecvCb recvCb) := by
  intro endpoint flags data
  refine Prod.ext rfl ?_
  exact
    sendAll_withUtf8 utf8State
      { endpoint with
        app := (recvCb endpoint.app flags data).1
        calls := endpoint.calls ++ [{ flags := flags, payload := data }] }
      (recvCb endpoint.app flags data).2.sends

theorem blind_wsEchoCb : Blind utf8State (@wsEchoCb App) := by
  intro endpoint flags data
  rfl

theorem invokeEach_withUtf8 {callback : Callback App}
    (blind : Blind utf8State callback)
    (buckets : List RecvBucket)
    (status : Status)
    (endpoint : Endpoint App) :
    invokeEach callback buckets status
        (Endpoint.withUtf8 endpoint utf8State) =
      ((invokeEach callback buckets status endpoint).1,
        Endpoint.withUtf8
          (invokeEach callback buckets status endpoint).2 utf8State) := by
  induction buckets generalizing status endpoint with
  | nil => rfl
  | cons bucket rest ih =>
      have called :=
        blind endpoint endpoint.session.frameIn.flags
          (endpoint.session.bucketData bucket)
      rw [invokeEach, invokeEach]
      have same :
          callback (Endpoint.withUtf8 endpoint utf8State)
              (Endpoint.withUtf8 endpoint utf8State).session.frameIn.flags
              ((Endpoint.withUtf8 endpoint
                utf8State).session.bucketData bucket) = _ :=
        called
      rw [same]
      rcases
          callback endpoint endpoint.session.frameIn.flags
            (endpoint.session.bucketData bucket)
        with ⟨_ | errno, later⟩
      · exact ih .okay later
      · rfl

theorem invokeRecvCallback_withUtf8 {callback : Callback App}
    (blind : Blind utf8State callback)
    (endpoint : Endpoint App) :
    invokeRecvCallback callback
        (Endpoint.withUtf8 endpoint utf8State) =
      ((invokeRecvCallback callback endpoint).1,
        Endpoint.withUtf8 (invokeRecvCallback callback endpoint).2
          utf8State) := by
  have each :
      invokeEach callback
          (Endpoint.withUtf8 endpoint utf8State).session.recvList
          (.err enoent) (Endpoint.withUtf8 endpoint utf8State) = _ :=
    invokeEach_withUtf8 utf8State blind endpoint.session.recvList
      (.err enoent) endpoint
  simp only [invokeRecvCallback]
  rw [each]
  rfl

theorem wsErrClose_withUtf8 (endpoint : Endpoint App) (reason : Nat) :
    wsErrClose (Endpoint.withUtf8 endpoint utf8State) reason =
      Endpoint.withUtf8 (wsErrClose endpoint reason) utf8State := by
  rcases endpoint with
    ⟨⟨frame, recv, send, tail, state, type, utf8, memory, blocks⟩,
      conn, app, calls, queued⟩
  cases state <;> rfl

theorem ymoProtoWsWrite_withUtf8 (outcomes : List SendOutcome)
    (endpoint : Endpoint App) :
    ymoProtoWsWrite outcomes (Endpoint.withUtf8 endpoint utf8State) =
      ((ymoProtoWsWrite outcomes endpoint).1,
        Endpoint.withUtf8 (ymoProtoWsWrite outcomes endpoint).2
          utf8State) := by
  rcases endpoint with
    ⟨⟨frame, recv, send, tail, state, type, utf8, memory, blocks⟩,
      conn, app, calls, queued⟩
  cases send with
  | nil => rfl
  | cons bucket rest =>
      simp only [ymoProtoWsWrite, Endpoint.withUtf8, WsSession.withUtf8]
      generalize ymoNetSendBuckets outcomes (bucket :: rest) = sent
      rcases sent with ⟨_ | errno, chain, wire, left⟩
      · cases state <;> rfl
      · rfl

theorem ymoWriteCb_withUtf8 (outcomes : List SendOutcome)
    (endpoint : Endpoint App) :
    ymoWriteCb outcomes (Endpoint.withUtf8 endpoint utf8State) =
      Endpoint.withUtf8 (ymoWriteCb outcomes endpoint) utf8State := by
  rw [ymoWriteCb, ymoProtoWsWrite_withUtf8, ymoWriteCb]
  rcases ymoProtoWsWrite outcomes endpoint with ⟨_ | errno, later⟩
  · rfl
  · dsimp only
    split_ifs <;> rfl

theorem afterCallback_withUtf8 (lenIn taken : Nat) (status : Status)
    (endpoint : Endpoint App) :
    (afterCallback lenIn taken
        (status, Endpoint.withUtf8 endpoint utf8State)).2 =
      Endpoint.withUtf8
        (afterCallback lenIn taken (status, endpoint)).2 utf8State := by
  cases status with
  | okay => rfl
  | err errno => exact wsErrClose_withUtf8 utf8State endpoint 1002

theorem answerClose_withUtf8 (outcomes : List SendOutcome)
    (endpoint : Endpoint App)
    (len : Nat) :
    (answerClose outcomes (Endpoint.withUtf8 endpoint utf8State)
        len).2 =
      Endpoint.withUtf8 (answerClose outcomes endpoint len).2 utf8State := by
  have refuses :
      refusesClose (Endpoint.withUtf8 endpoint utf8State).session =
        refusesClose endpoint.session :=
    rfl
  simp only [answerClose, refuses]
  split
  · exact wsErrClose_withUtf8 utf8State endpoint 1002
  · rw [invokeRecvCallback_withUtf8 utf8State (blind_wsEchoCb utf8State)]
    exact ymoWriteCb_withUtf8 utf8State outcomes _

theorem handleClientClose_withUtf8 (outcomes : List SendOutcome)
    (endpoint : Endpoint App)
    (len : Nat) :
    (handleClientClose outcomes
        (Endpoint.withUtf8 endpoint utf8State) len).2 =
      Endpoint.withUtf8 (handleClientClose outcomes endpoint len).2
        utf8State := by
  have expected :
      (Endpoint.withUtf8 endpoint utf8State).session.state =
        endpoint.session.state :=
    rfl
  simp only [handleClientClose, expected]
  split
  · rfl
  · exact
      answerClose_withUtf8 utf8State outcomes
        { endpoint with
          session := { endpoint.session with state := .closeReceived } }
        len

theorem dispatch_withUtf8 (recvCb : RecvCb App) (outcomes : List SendOutcome)
    (endpoint : Endpoint App) :
    dispatch recvCb outcomes (Endpoint.withUtf8 endpoint utf8State) =
      Endpoint.withUtf8 (dispatch recvCb outcomes endpoint) utf8State := by
  have flags :
      (Endpoint.withUtf8 endpoint utf8State).session.frameIn =
        endpoint.session.frameIn :=
    rfl
  have state :
      (Endpoint.withUtf8 endpoint utf8State).session.state =
        endpoint.session.state :=
    rfl
  simp only [dispatch, wsParseComplete, flags, state]
  split_ifs
  · rw [invokeRecvCallback_withUtf8 utf8State
      (blind_callRecvCb utf8State recvCb)]
    exact afterCallback_withUtf8 utf8State 0 0 _ _
  · rfl
  · exact handleClientClose_withUtf8 utf8State outcomes endpoint 0
  · rw [invokeRecvCallback_withUtf8 utf8State (blind_wsEchoCb utf8State)]
    exact afterCallback_withUtf8 utf8State 0 0 _ _
  · exact afterCallback_withUtf8 utf8State 0 0 _ _
  · exact wsErrClose_withUtf8 utf8State _ _

/-! ## The parse functions -/

/-- The function of the session does not see the validator's state. -/
def ParseBlind (parse : WsSession → WsSession × Parsed) (session : WsSession) :
    Prop :=
  (parse session).1.utf8State = session.utf8State ∧
    parse (WsSession.withUtf8 session utf8State) =
      (WsSession.withUtf8 (parse session).1 utf8State, (parse session).2)

/-- Which frames may begin under a message type, and the type they leave. -/
def opVerdict (msgType ch : UInt8) : Except Errno UInt8 :=
  if ymoWsFlagsReserved ch then .error .ebadmsg
  else if isControl (opCode ch) then
    if fin ch then .ok msgType else .error .ebadmsg
  else if opCode ch = ymoWsOpContinuation then
    if msgType = 0 then .error .einval else .ok msgType
  else if opCode ch = ymoWsOpText ∨ opCode ch = ymoWsOpBinary then
    if msgType ≠ 0 then .error .einval
    else if fin ch then .ok msgType
    else .ok (opCode ch)
  else .error .ebadmsg

theorem ymoWsParseOp_verdict (session : WsSession) (ch : UInt8) :
    ymoWsParseOp session ch =
      match opVerdict session.msgType ch with
      | .error errno =>
          ({ session with
              frameIn := { session.frameIn with flags := ch } },
            .error errno)
      | .ok msgType =>
          ({ session with
              frameIn :=
                { session.frameIn with flags := ch, parseState := .len }
              msgType := msgType },
            .ok 1) := by
  simp only [ymoWsParseOp, opVerdict]
  split_ifs <;> rfl

theorem parseBlind_ymoWsParseOp (session : WsSession) (ch : UInt8) :
    ParseBlind utf8State (fun session => ymoWsParseOp session ch) session := by
  simp only [ParseBlind, ymoWsParseOp_verdict, WsSession.withUtf8]
  cases opVerdict session.msgType ch with
  | error errno => exact ⟨rfl, rfl⟩
  | ok msgType => exact ⟨rfl, rfl⟩

theorem ymoWsSessionAllocFrame_withUtf8 (session : WsSession) (len : Nat) :
    ymoWsSessionAllocFrame (WsSession.withUtf8 session utf8State) len =
      (WsSession.withUtf8 (ymoWsSessionAllocFrame session len).1
          utf8State,
        (ymoWsSessionAllocFrame session len).2) := by
  have standing :
      (WsSession.withUtf8 session utf8State).frameIn = session.frameIn :=
    rfl
  unfold ymoWsSessionAllocFrame
  rw [standing]
  split_ifs <;> rfl

theorem utf8State_ymoWsSessionAllocFrame (session : WsSession) (len : Nat) :
    (ymoWsSessionAllocFrame session len).1.utf8State = session.utf8State := by
  rcases exists_ymoWsSessionAllocFrame session len
    with ⟨buffer, bufLen, blocks, status, allocated⟩
  rw [allocated]

theorem parseBlind_ymoWsParseLen (session : WsSession) (ch : UInt8) :
    ParseBlind utf8State (fun session => ymoWsParseLen session ch)
      session := by
  have standing :
      (WsSession.withUtf8 session utf8State).frameIn = session.frameIn :=
    rfl
  unfold ParseBlind ymoWsParseLen
  dsimp only
  rw [standing]
  split_ifs
  · exact ⟨rfl, rfl⟩
  · have allocated :=
      ymoWsSessionAllocFrame_withUtf8 utf8State
        { session with
          frameIn :=
            { session.frameIn with
              masked := ch &&& ymoWsFlagMasked != 0
              len := (ch &&& ymoWsMaskLen).toNat
              parseState := .maskingKey } }
        (ch &&& ymoWsMaskLen).toNat
    have kept :=
      utf8State_ymoWsSessionAllocFrame
        { session with
          frameIn :=
            { session.frameIn with
              masked := ch &&& ymoWsFlagMasked != 0
              len := (ch &&& ymoWsMaskLen).toNat
              parseState := .maskingKey } }
        (ch &&& ymoWsMaskLen).toNat
    simp only [WsSession.withUtf8] at allocated ⊢
    rw [allocated]
    generalize ymoWsSessionAllocFrame _ _ = result at kept
    rcases result with ⟨later, _ | errno⟩
    · exact ⟨kept, rfl⟩
    · exact ⟨kept, rfl⟩
  all_goals exact ⟨rfl, rfl⟩

theorem parseBlind_ymoWsParseLenExt (session : WsSession) (buffer : Bytes) :
    ParseBlind utf8State
      (fun session => ymoWsParseLenExt session buffer) session := by
  have standing :
      (WsSession.withUtf8 session utf8State).frameIn = session.frameIn :=
    rfl
  unfold ParseBlind ymoWsParseLenExt
  dsimp only
  rw [standing]
  generalize
    lenExtBytes session.frameIn.len session.frameIn.idx buffer = extended
  rcases extended with ⟨len, idx⟩
  dsimp only
  split_ifs
  · exact ⟨rfl, rfl⟩
  · have allocated :=
      ymoWsSessionAllocFrame_withUtf8 utf8State
        { session with
          frameIn := { session.frameIn with len := len, idx := idx } }
        len
    have kept :=
      utf8State_ymoWsSessionAllocFrame
        { session with
          frameIn := { session.frameIn with len := len, idx := idx } }
        len
    simp only [WsSession.withUtf8] at allocated ⊢
    rw [allocated]
    generalize ymoWsSessionAllocFrame _ _ = result at kept
    rcases result with ⟨later, _ | errno⟩
    · exact ⟨kept, rfl⟩
    · exact ⟨kept, rfl⟩
  · exact ⟨rfl, rfl⟩

theorem parseBlind_ymoWsParseMaskingKey (session : WsSession)
    (buffer : Bytes) :
    ParseBlind utf8State
      (fun session => ymoWsParseMaskingKey session buffer) session := by
  have standing :
      (WsSession.withUtf8 session utf8State).frameIn = session.frameIn :=
    rfl
  unfold ParseBlind ymoWsParseMaskingKey
  dsimp only
  rw [standing]
  split_ifs
  all_goals exact ⟨rfl, rfl⟩

theorem storePayload_withUtf8 (session : WsSession) (piece : Bytes) :
    storePayload (WsSession.withUtf8 session utf8State) piece =
      WsSession.withUtf8 (storePayload session piece) utf8State := by
  have standing :
      (WsSession.withUtf8 session utf8State).frameIn = session.frameIn :=
    rfl
  unfold storePayload unmaskPayload
  dsimp only
  rw [standing]
  split_ifs <;> rfl

theorem utf8State_storePayload (session : WsSession) (piece : Bytes) :
    (storePayload session piece).utf8State = session.utf8State := by
  rcases exists_storePayload session piece with ⟨idx, memory, stored⟩
  rw [stored]

theorem payloadDone_withUtf8 (session : WsSession) :
    payloadDone (WsSession.withUtf8 session utf8State) =
      WsSession.withUtf8 (payloadDone session) utf8State := by
  have standing :
      (WsSession.withUtf8 session utf8State).frameIn = session.frameIn :=
    rfl
  unfold payloadDone
  dsimp only
  rw [standing]
  split_ifs <;> rfl

/-- Alike states of the validator lead to alike results of the check. -/
theorem checkAlike_checkPayload {utf8State : Utf8State}
    (alike : Alike session.utf8State utf8State)
    (start parseLen : Nat) :
    CheckAlike (checkPayload session start parseLen)
      (checkPayload (WsSession.withUtf8 session utf8State) start
        parseLen) := by
  have text :
      checksText (WsSession.withUtf8 session utf8State) = checksText session :=
    rfl
  unfold checkPayload
  dsimp only
  rw [text]
  split_ifs
  · exact checkAlike_ymoCheckUtf8 alike _ _
  · exact alike

/-- What `ymo_ws_parse_payload` does after the check. -/
def afterCheck (session : WsSession) (parseLen : Nat) :
    Except Errno Utf8State → WsSession × Parsed
  | .error errno => (session, .error errno)
  | .ok utf8State =>
      let session := WsSession.withUtf8 session utf8State
      (if session.frameIn.done then payloadDone session else session,
        .ok parseLen)

theorem ymoWsParsePayload_afterCheck (session : WsSession) (buffer : Bytes) :
    ymoWsParsePayload session buffer =
      let frame := session.frameIn
      let piece := buffer.take (frame.len - frame.parsed)
      afterCheck (storePayload session piece) piece.length
        (checkPayload (storePayload session piece) (checkStart frame)
          piece.length) := by
  unfold ymoWsParsePayload
  dsimp only
  generalize checkPayload _ _ _ = checked
  cases checked <;> rfl

theorem afterCheck_twins {utf8State : Utf8State}
    (alike : Alike session.utf8State utf8State)
    (parseLen : Nat)
    {first second : Except Errno Utf8State}
    (checked : CheckAlike first second) :
    ∃ later,
      Alike (afterCheck session parseLen first).1.utf8State later ∧
        afterCheck (WsSession.withUtf8 session utf8State) parseLen
            second =
          (WsSession.withUtf8 (afterCheck session parseLen first).1
              later,
            (afterCheck session parseLen first).2) := by
  rcases first with errno | first
  · rcases second with errno' | second
    · cases checked
      exact ⟨utf8State, alike, rfl⟩
    · exact False.elim checked
  · rcases second with errno' | second
    · exact False.elim checked
    · refine ⟨second, ?_, ?_⟩
      · simp only [afterCheck]
        split_ifs
        · rw [payloadDone_utf8State]
          exact checked
        · exact checked
      · have finished :=
          payloadDone_withUtf8 second (WsSession.withUtf8 session first)
        simp only [afterCheck]
        split_ifs with done done' done'
        · exact congrArg (·, _) finished
        · exact absurd done done'
        · exact absurd done' done
        · rfl

/-- Twins are parsed to twins. -/
theorem ymoWsParsePayload_twins {utf8State : Utf8State}
    (alike : Alike session.utf8State utf8State)
    (buffer : Bytes) :
    ∃ later,
      Alike (ymoWsParsePayload session buffer).1.utf8State later ∧
        ymoWsParsePayload (WsSession.withUtf8 session utf8State) buffer =
          (WsSession.withUtf8 (ymoWsParsePayload session buffer).1
              later,
            (ymoWsParsePayload session buffer).2) := by
  have standing :
      (WsSession.withUtf8 session utf8State).frameIn = session.frameIn :=
    rfl
  rw [ymoWsParsePayload_afterCheck, ymoWsParsePayload_afterCheck]
  dsimp only
  rw [standing, storePayload_withUtf8]
  generalize buffer.take (session.frameIn.len - session.frameIn.parsed) = piece
  have stored : Alike (storePayload session piece).utf8State utf8State := by
    rw [utf8State_storePayload]
    exact alike
  exact
    afterCheck_twins stored piece.length
      (checkAlike_checkPayload stored (checkStart session.frameIn)
        piece.length)

theorem parseByState_twins {utf8State : Utf8State}
    (alike : Alike session.utf8State utf8State)
    (ch : UInt8)
    (rest : Bytes) :
    ∃ later,
      Alike (parseByState session ch rest).1.utf8State later ∧
        parseByState (WsSession.withUtf8 session utf8State) ch rest =
          (WsSession.withUtf8 (parseByState session ch rest).1 later,
            (parseByState session ch rest).2) := by
  have blind :
      ∀ parse : WsSession → WsSession × Parsed,
        ParseBlind utf8State parse session →
          ∃ later,
            Alike (parse session).1.utf8State later ∧
              parse (WsSession.withUtf8 session utf8State) =
                (WsSession.withUtf8 (parse session).1 later,
                  (parse session).2) := by
    intro parse blind
    refine ⟨utf8State, ?_, blind.2⟩
    rw [blind.1]
    exact alike
  have standing :
      (WsSession.withUtf8 session utf8State).frameIn.parseState =
        session.frameIn.parseState :=
    rfl
  simp only [parseByState, standing]
  cases session.frameIn.parseState with
  | op => exact blind _ (parseBlind_ymoWsParseOp utf8State session ch)
  | len => exact blind _ (parseBlind_ymoWsParseLen utf8State session ch)
  | lenExtended =>
      exact blind _ (parseBlind_ymoWsParseLenExt utf8State session (ch :: rest))
  | maskingKey =>
      exact
        blind _ (parseBlind_ymoWsParseMaskingKey utf8State session (ch :: rest))
  | complete => exact ⟨utf8State, alike, rfl⟩
  | payload => exact ymoWsParsePayload_twins alike (ch :: rest)

end Yimmo.Ws.Congruence
