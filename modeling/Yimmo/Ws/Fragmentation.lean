import Yimmo.Ws.Frames

/-!
# Fragmented messages

`openAfter` keeps account of whether a fragmented message is open, by the first
bytes of the frames alone.  `fragmentation_tracked` says that `msg_type` agrees with
it after every frame that is complete, whatever the frames are, and that the frames
that may begin are the ones that may begin in that account.

An empty continuation that ends its message is not noticed: `msg_type` is cleared
where a payload ends.
-/

namespace Yimmo.Ws.Fragmentation

open Yimmo.Core.StatusCode
open Yimmo.Core.Net
open Yimmo.Lib.ByteMemory
open Yimmo.Lib.GuardedRun
open Yimmo.Ws.Parse
open Yimmo.Ws.Session
open Yimmo.Ws.ReadLoop
open Yimmo.Ws.Congruence
open Yimmo.Ws.ChunkIndependence
open Yimmo.Ws.Unrolled
open Yimmo.Ws.Encode
open Yimmo.Ws.Frames

variable
    {App : Type}
    {recvCb : RecvCb App}
    {outcomes : List SendOutcome}
    {endpoint : Endpoint App}
    {isOpen : Bool}
    {session : WsSession}

/-! ## The account -/

/-- Whether a fragmented message is open after a frame. -/
def openAfter (isOpen : Bool) (frame : Frame) : Bool :=
  let op := opCode frame.flags
  if op = ymoWsOpText ∨ op = ymoWsOpBinary then isOpen || !fin frame.flags
  else if op = ymoWsOpContinuation then isOpen && !fin frame.flags
  else isOpen

/-- Whether a fragmented message is open after the frames. -/
def openMessage (frames : List Frame) : Bool :=
  run openAfter false frames

/-- The frames up to the one that closes. -/
def received : List ClientFrame → List Frame
  | [] => []
  | frame :: rest =>
      if frame.op = ymoWsOpClose then [frame.toFrame]
      else frame.toFrame :: received rest

/-- The frames that may begin: control frames that are whole, continuations of an
open message, and new messages where none is open. -/
def MayBegin (isOpen : Bool) (flags : UInt8) : Prop :=
  ymoWsFlagsReserved flags = false ∧
    (isControl (opCode flags) = true ∧ fin flags = true ∨
      opCode flags = ymoWsOpContinuation ∧ isOpen = true ∨
        (opCode flags = ymoWsOpText ∨ opCode flags = ymoWsOpBinary) ∧
          isOpen = false)

/-- The end of an open message does not go unnoticed. -/
def Noticed (isOpen : Bool) (frame : Frame) : Prop :=
  isOpen = true →
    opCode frame.flags = ymoWsOpContinuation →
      fin frame.flags = true → frame.payload ≠ []

instance
    (isOpen : Bool)
    (frame : Frame) :
    Decidable (Noticed isOpen frame) :=
  inferInstanceAs (Decidable (_ → _ → _ → _))

/-- The message type and the account agree. -/
def Tracks (endpoint : Endpoint App) (isOpen : Bool) : Prop :=
  endpoint.session.msgType ≠ 0 ↔ isOpen = true

/-! ## Which frames may begin -/

theorem isControl_other {op : UInt8} (control : isControl op = true) :
    op ≠ ymoWsOpContinuation ∧ ¬(op = ymoWsOpText ∨ op = ymoWsOpBinary) := by
  simp only [isControl, Bool.or_eq_true, beq_iff_eq] at control
  rcases control with (rfl | rfl) | rfl
  · decide
  · decide
  · decide

/-- The parser lets begin what may begin. -/
theorem opVerdict_iff {msgType flags : UInt8}
    (tracks : msgType ≠ 0 ↔ isOpen = true) :
    (∃ type, opVerdict msgType flags = .ok type) ↔ MayBegin isOpen flags := by
  by_cases reserved : ymoWsFlagsReserved flags = true
  · rw [opVerdict, if_pos reserved, MayBegin, reserved]
    simp
  have plain : ymoWsFlagsReserved flags = false := eq_false_of_ne_true reserved
  by_cases control : isControl (opCode flags) = true
  · have other := isControl_other control
    by_cases whole : fin flags = true
    · rw [opVerdict_control msgType plain control whole]
      exact
        ⟨fun _ => ⟨plain, Or.inl ⟨control, whole⟩⟩, fun _ => ⟨msgType, rfl⟩⟩
    · rw [opVerdict, if_neg reserved, if_pos control, if_neg whole]
      constructor
      · rintro ⟨_, accepted⟩
        cases accepted
      · rintro ⟨_, both | both | both⟩
        · exact absurd both.2 whole
        · exact absurd both.1 other.1
        · exact absurd both.1 other.2
  by_cases continues : opCode flags = ymoWsOpContinuation
  · have other :
        ¬(opCode flags = ymoWsOpText ∨ opCode flags = ymoWsOpBinary) := by
      rw [continues]
      decide
    rw [opVerdict_continuation msgType plain continues]
    constructor
    · rintro ⟨_, accepted⟩
      split_ifs at accepted with none
      exact ⟨plain, Or.inr (Or.inl ⟨continues, tracks.mp none⟩)⟩
    · rintro ⟨_, both | both | both⟩
      · exact absurd both.1 control
      · exact ⟨msgType, if_neg (tracks.mpr both.2)⟩
      · exact absurd both.1 other
  by_cases starts : opCode flags = ymoWsOpText ∨ opCode flags = ymoWsOpBinary
  · rw [opVerdict_starts msgType plain starts]
    constructor
    · rintro ⟨_, accepted⟩
      split_ifs at accepted with inside
      all_goals
        refine ⟨plain, Or.inr (Or.inr ⟨starts, ?_⟩)⟩
        exact eq_false_of_ne_true fun isOpen => inside (tracks.mpr isOpen)
    · rintro ⟨_, both | both | both⟩
      · exact absurd both.1 control
      · exact absurd both.1 continues
      · have outside : ¬msgType ≠ 0 := fun inside => by
          rw [tracks.mp inside] at both
          exact absurd both.2 (by decide)
        rw [if_neg outside]
        split_ifs
        · exact ⟨_, rfl⟩
        · exact ⟨_, rfl⟩
  · rw [opVerdict, if_neg reserved, if_neg control, if_neg continues,
      if_neg starts]
    constructor
    · rintro ⟨_, accepted⟩
      cases accepted
    · rintro ⟨_, both | both | both⟩
      · exact absurd both.1 control
      · exact absurd both.1 continues
      · exact absurd both.1 starts

/-- A frame that is complete leaves the message type the account has. -/
theorem tracks_typeAfter {msgType type : UInt8} {frame : Frame}
    (tracks : msgType ≠ 0 ↔ isOpen = true)
    (verdict : opVerdict msgType frame.flags = .ok type)
    (noticed : Noticed isOpen frame) :
    typeAfter type frame ≠ 0 ↔ openAfter isOpen frame = true := by
  rcases (opVerdict_iff tracks).mp ⟨type, verdict⟩
    with ⟨plain, ⟨control, whole⟩ | ⟨continues, isOpen'⟩ | ⟨starts, isOpen'⟩⟩
  · have other := isControl_other control
    have kept : ¬isData (opCode frame.flags) = true :=
      fun data => isData_not_control data control
    rw [opVerdict_control msgType plain control whole] at verdict
    cases verdict
    rw [typeAfter, if_neg fun both => kept both.1, openAfter,
      if_neg other.2, if_neg other.1]
    exact tracks
  · have inside := tracks.mpr isOpen'
    have data : isData (opCode frame.flags) = true := by
      rw [continues]
      decide
    have other :
        ¬(opCode frame.flags = ymoWsOpText ∨
            opCode frame.flags = ymoWsOpBinary) := by
      rw [continues]
      decide
    rw [opVerdict_continuation msgType plain continues,
      if_neg inside] at verdict
    cases verdict
    rw [openAfter, if_neg other, if_pos continues, isOpen']
    by_cases whole : fin frame.flags = true
    · rw [typeAfter_of_ends _ data whole
        (noticed isOpen' continues whole), whole]
      decide
    · rw [typeAfter_of_not_fin _ whole, eq_false_of_ne_true whole]
      exact ⟨fun _ => rfl, fun _ => inside⟩
  · have outside : msgType = 0 := by
      by_contra inside
      rw [tracks.mp inside] at isOpen'
      exact absurd isOpen' (by decide)
    rw [opVerdict_starts msgType plain starts,
      if_neg (not_not.mpr outside)] at verdict
    rw [openAfter, if_pos starts, isOpen']
    by_cases whole : fin frame.flags = true
    · rw [if_pos whole] at verdict
      cases verdict
      rw [outside, typeAfter_zero, whole]
      decide
    · rw [if_neg whole] at verdict
      cases verdict
      rw [typeAfter_of_not_fin _ whole, eq_false_of_ne_true whole]
      refine ⟨fun _ => rfl, fun _ => ?_⟩
      rcases starts with text | binary
      · rw [text]
        decide
      · rw [binary]
        decide

/-! ## Frames that close -/

theorem msgType_wsErrClose (endpoint : Endpoint App) (reason : Nat) :
    (wsErrClose endpoint reason).session.msgType =
      endpoint.session.msgType := by
  rw [wsErrClose]
  split_ifs <;> rfl

theorem parseState_wsErrClose (endpoint : Endpoint App) (reason : Nat) :
    (wsErrClose endpoint reason).session.frameIn.parseState =
      endpoint.session.frameIn.parseState := by
  rw [wsErrClose]
  split_ifs <;> rfl

/-- The parser is inside the same frame. -/
structure InFrame (before after : WsSession) : Prop where
  flags : after.frameIn.flags = before.frameIn.flags
  msgType : after.msgType = before.msgType
  begun : after.frameIn.parseState ≠ .op

theorem inFrame_ymoWsParseLen (begun : session.frameIn.parseState ≠ .op)
    (ch : UInt8) :
    InFrame session (ymoWsParseLen session ch).1 := by
  simp only [ymoWsParseLen]
  split_ifs
  · exact ⟨rfl, rfl, begun⟩
  · rcases
        exists_ymoWsSessionAllocFrame
          { session with
            frameIn :=
              { session.frameIn with
                masked := ch &&& ymoWsFlagMasked != 0
                len := (ch &&& ymoWsMaskLen).toNat
                parseState := .maskingKey } }
          (ch &&& ymoWsMaskLen).toNat
      with ⟨buffer, bufLen, blocks, status, allocated⟩
    rw [allocated]
    cases status with
    | okay => exact ⟨rfl, rfl, WsParseState.noConfusion⟩
    | err errno => exact ⟨rfl, rfl, WsParseState.noConfusion⟩
  all_goals exact ⟨rfl, rfl, WsParseState.noConfusion⟩

theorem inFrame_ymoWsParseLenExt (begun : session.frameIn.parseState ≠ .op)
    (buffer : Bytes) :
    InFrame session (ymoWsParseLenExt session buffer).1 := by
  simp only [ymoWsParseLenExt]
  rcases lenExtBytes session.frameIn.len session.frameIn.idx buffer
    with ⟨len, idx⟩
  dsimp only
  split_ifs
  · exact ⟨rfl, rfl, begun⟩
  · rcases
        exists_ymoWsSessionAllocFrame
          { session with
            frameIn := { session.frameIn with len := len, idx := idx } }
          len
      with ⟨buffer, bufLen, blocks, status, allocated⟩
    rw [allocated]
    cases status with
    | okay => exact ⟨rfl, rfl, WsParseState.noConfusion⟩
    | err errno => exact ⟨rfl, rfl, begun⟩
  · exact ⟨rfl, rfl, begun⟩

theorem inFrame_ymoWsParseMaskingKey (begun : session.frameIn.parseState ≠ .op)
    (buffer : Bytes) :
    InFrame session (ymoWsParseMaskingKey session buffer).1 := by
  simp only [ymoWsParseMaskingKey]
  rcases
      maskingKeyBytes session.frameIn.maskingKey session.frameIn.idx buffer
    with ⟨key, idx⟩
  dsimp only
  split_ifs
  · exact ⟨rfl, rfl, WsParseState.noConfusion⟩
  · exact ⟨rfl, rfl, WsParseState.noConfusion⟩
  · exact ⟨rfl, rfl, WsParseState.noConfusion⟩
  · exact ⟨rfl, rfl, begun⟩

/-- The payload of a frame that is no data frame leaves the message type. -/
theorem inFrame_ymoWsParsePayload (begun : session.frameIn.parseState ≠ .op)
    (control : ¬isData (opCode session.frameIn.flags) = true)
    (buffer : Bytes) :
    InFrame session (ymoWsParsePayload session buffer).1 := by
  have stored :=
    stored_storePayload session
      (buffer.take (session.frameIn.len - session.frameIn.parsed))
  simp only [ymoWsParsePayload]
  generalize
    storePayload session
      (buffer.take (session.frameIn.len - session.frameIn.parsed)) =
        after at stored
  have begun' : after.frameIn.parseState ≠ .op :=
    fun op => begun (stored.parseState.symm.trans op)
  rcases
      checkPayload after (checkStart session.frameIn)
        (buffer.take (session.frameIn.len - session.frameIn.parsed)).length
    with errno | utf8State
  · exact ⟨stored.flags, stored.msgType, begun'⟩
  · dsimp only
    split_ifs
    · rw [← stored.flags] at control
      refine ⟨?_, ?_, ?_⟩
      · rw [payloadDone_frameIn]
        exact stored.flags
      · refine Eq.trans ?_ stored.msgType
        simp only [payloadDone]
        split_ifs with pushed data data
        · exact absurd data.1 control
        · rfl
        · exact absurd data.1 control
        · rfl
      · rw [payloadDone_frameIn]
        exact WsParseState.noConfusion
    · exact ⟨stored.flags, stored.msgType, begun'⟩

/-- Inside a frame that is no data frame, a call of a parse function stays inside
the frame. -/
theorem inFrame_parseByState (begun : session.frameIn.parseState ≠ .op)
    (control : ¬isData (opCode session.frameIn.flags) = true)
    (ch : UInt8)
    (rest : Bytes) :
    InFrame session (parseByState session ch rest).1 := by
  rw [parseByState]
  cases standing : session.frameIn.parseState with
  | op => exact absurd standing begun
  | len => exact inFrame_ymoWsParseLen begun ch
  | lenExtended => exact inFrame_ymoWsParseLenExt begun (ch :: rest)
  | maskingKey => exact inFrame_ymoWsParseMaskingKey begun (ch :: rest)
  | payload => exact inFrame_ymoWsParsePayload begun control (ch :: rest)
  | complete => exact ⟨rfl, rfl, begun⟩

/-- The answer to a frame that closes leaves the message type. -/
theorem dispatch_close (connected : endpoint.session.state = .connected)
    (close : opCode endpoint.session.frameIn.flags = ymoWsOpClose) :
    Stopped (dispatch recvCb outcomes endpoint).session ∧
      (dispatch recvCb outcomes endpoint).session.msgType =
        endpoint.session.msgType := by
  have control : ¬isData ymoWsOpClose = true := by decide
  have unexpected : (endpoint.session.state == .expectClose) = false := by
    rw [connected]
    rfl
  simp only [dispatch, wsParseComplete, close, if_neg control,
    handleClientClose, unexpected, if_true, Bool.false_eq_true, if_false,
    answerClose]
  split_ifs
  · exact ⟨Or.inr (stopped_wsErrClose _ _), msgType_wsErrClose _ _⟩
  · have echo :=
      session_invokeRecvCallback onlySends_wsEchoCb
        { endpoint with
          session := { endpoint.session with state := .closeReceived } }
    constructor
    · refine Or.inl ?_
      rw [session_ymoWriteCb, echo.session]
    · rw [session_ymoWriteCb, echo.session]

/-- The peer is closing, or the session has stopped; the message type stays. -/
structure Closes (session : WsSession) (msgType : UInt8) : Prop where
  sound : Sound session
  msgType : session.msgType = msgType
  closing :
    Stopped session ∨
      (session.frameIn.parseState ≠ .op ∧
        opCode session.frameIn.flags = ymoWsOpClose)

theorem closes_ymoReadCb (recvCb : RecvCb App) (outcomes : List SendOutcome)
    {msgType : UInt8}
    (closes : Closes endpoint.session msgType)
    (bytes : Bytes) :
    Closes (ymoReadCb recvCb outcomes endpoint bytes).session msgType := by
  induction measured : bytes.length using Nat.strong_induction_on
    generalizing endpoint bytes with
  | _ size ih =>
      by_cases stopped : Stopped endpoint.session
      · rw [ymoReadCb_of_stopped recvCb outcomes stopped]
        exact closes
      by_cases opened : endpoint.conn = .opened
      · cases bytes with
        | nil =>
            rw [ymoReadCb_nil]
            exact closes
        | cons ch rest =>
            rcases closes.closing.resolve_left stopped with ⟨begun, close⟩
            rcases closes.sound.ready stopped with ⟨connected, ready⟩
            have control :
                ¬isData (opCode endpoint.session.frameIn.flags) = true := by
              rw [close]
              decide
            have inFrame := inFrame_parseByState begun control ch rest
            have parsed :=
              parseByState_sound closes.sound.coherent ready ch rest
            rw [ymoReadCb_of_parsed recvCb outcomes opened closes.sound
              stopped]
            generalize
              parseByState endpoint.session ch rest = result at inFrame parsed
            rcases result with ⟨session, errno | count⟩
            · have failed :=
                stopped_wsErrClose { endpoint with session := session }
                  (reasonFromErrno errno)
              refine ⟨⟨?_, Or.inr (Or.inr failed)⟩, ?_, Or.inl (Or.inr failed)⟩
              · rw [utf8State_wsErrClose]
                exact parsed.coherent
              · rw [msgType_wsErrClose]
                exact inFrame.msgType.trans closes.msgType
            · rcases parsed.progress count rfl with ⟨less, goesOn⟩
              have connected' : session.state = .connected :=
                parsed.state.trans connected
              have close' : opCode session.frameIn.flags = ymoWsOpClose := by
                rw [inFrame.flags]
                exact close
              have sound :=
                sound_afterParse recvCb outcomes endpoint connected'
                  parsed.coherent goesOn
              refine ih _ ?_ ⟨sound, ?_, ?_⟩ ((ch :: rest).drop count) rfl
              · rw [List.length_drop, ← measured]
                omega
              · rw [afterParse]
                split_ifs
                · refine Eq.trans (dispatch_close connected' close').2 ?_
                  exact inFrame.msgType.trans closes.msgType
                · exact inFrame.msgType.trans closes.msgType
              · rw [afterParse]
                split_ifs
                · exact Or.inl (dispatch_close connected' close').1
                · exact Or.inr ⟨inFrame.begun, close'⟩
      · rw [ymoReadCb_of_conn recvCb outcomes opened]
        exact closes

/-! ## One frame -/

/-- The session has failed inside a frame. -/
structure Failed (session : WsSession) : Prop where
  error : session.state = .error
  incomplete : session.frameIn.parseState ≠ .complete

theorem failed_wsErrClose
    (incomplete : endpoint.session.frameIn.parseState ≠ .complete)
    (reason : Nat) :
    Failed (wsErrClose endpoint reason).session where
  error := stopped_wsErrClose endpoint reason
  incomplete := by
    rw [parseState_wsErrClose]
    exact incomplete

/-- Where the session stands after a frame that does not close. -/
inductive Tracked (endpoint : Endpoint App) (isOpen : Bool) : Prop where
  | between
      (boundary : AtBoundary endpoint)
      (tracks : Tracks endpoint isOpen)
  | failed (failed : Failed endpoint.session)

/-- The step over a frame that does not close. -/
theorem tracked_encode (okay : AlwaysOkay recvCb) (outcomes : List SendOutcome)
    (boundary : AtBoundary endpoint)
    (tracks : Tracks endpoint isOpen)
    (frame : ClientFrame)
    (fits : frame.payload.length ≤ ymoWsFrameMax)
    (noticed : Noticed isOpen frame.toFrame)
    (goesOn : frame.op ≠ ymoWsOpClose) :
    ∃ result,
      ReadsTo recvCb outcomes endpoint frame.encode result ∧
        Tracked result (openAfter isOpen frame.toFrame) := by
  rcases verdict : opVerdict endpoint.session.msgType frame.flags
    with errno | type
  · refine ⟨_, readsTo_op_refused boundary verdict _, ?_⟩
    refine Tracked.failed (failed_wsErrClose ?_ _)
    exact
      fun complete => absurd (boundary.stands.symm.trans complete) (by decide)
  by_cases long : isControl frame.op = true ∧ 125 < frame.payload.length
  · exact
      ⟨_,
        readsTo_encode_long boundary frame verdict fits long.1 long.2,
        Tracked.failed (failed_wsErrClose WsParseState.noConfusion 1002)⟩
  have short : isControl frame.op = true → frame.payload.length ≤ 125 :=
    fun control => Nat.not_lt.mp fun more => long ⟨control, more⟩
  rcases
      readsTo_encode boundary frame verdict fits short
        fun both => goesOn both.1
    with ⟨checked, result, _, reads, ends⟩
  refine ⟨result, reads, ?_⟩
  rcases checked with errno | utf8State
  · rcases ends with ⟨session, _, stands, rfl⟩
    refine Tracked.failed (failed_wsErrClose ?_ _)
    exact fun complete => absurd (stands.symm.trans complete) (by decide)
  · rcases ends with ⟨session, completed, utf8, rfl⟩
    have coherent : session.utf8State.Coherent := by
      have sound := sound_ymoReadCb recvCb outcomes boundary.sound frame.encode
      have kept :
          (dispatch recvCb outcomes
              { endpoint with session := session }).session.utf8State =
            session.utf8State :=
        utf8State_dispatch recvCb outcomes completed.state
      rw [reads.read] at sound
      rw [← kept]
      exact sound.coherent
    have taken :
        Taken { endpoint with session := session }
          (dispatch recvCb outcomes { endpoint with session := session }) := by
      rcases opVerdict_kind verdict with data | control
      · exact
          taken_dispatch_data okay endpoint boundary.opened coherent
            completed data
      · refine
          taken_dispatch_control endpoint boundary.opened coherent completed ?_
        simp only [isControl, Bool.or_eq_true, beq_iff_eq] at control
        rcases control with (close | ping) | pong
        · exact absurd close goesOn
        · exact Or.inl ping
        · exact Or.inr pong
    refine Tracked.between taken.boundary ?_
    rw [Tracks, taken.msgType]
    show session.msgType ≠ 0 ↔ _
    rw [completed.msgType]
    exact tracks_typeAfter tracks verdict noticed

/-! ## Runs -/

/-- Where the session stands after frames. -/
inductive Reached (endpoint : Endpoint App) (isOpen : Bool) : Prop where
  | between
      (boundary : AtBoundary endpoint)
      (tracks : Tracks endpoint isOpen)
  | failed (failed : Failed endpoint.session)
  | closes
      {msgType : UInt8}
      (closes : Closes endpoint.session msgType)
      (tracks : Tracks endpoint isOpen)

/-- A session that has stopped reads no more. -/
theorem run_stopped (stopped : Stopped endpoint.session) (reads : List Bytes) :
    run (ymoReadCb recvCb outcomes) endpoint reads = endpoint := by
  induction reads with
  | nil => rfl
  | cons bytes rest ih =>
      rw [run_cons, ymoReadCb_of_stopped recvCb outcomes stopped]
      exact ih

/-- The first frame of some reads is read; what is left of the reads comes after
it. -/
theorem same_of_readsTo {endpoint result : Endpoint App}
    (sound : Sound endpoint.session)
    {front back : Bytes}
    (first : ReadsTo recvCb outcomes endpoint front result)
    {reads : List Bytes}
    (cut : reads.flatten = front ++ back) :
    ∃ left,
      left.flatten = back ∧
        Same (run (ymoReadCb recvCb outcomes) endpoint reads)
          (run (ymoReadCb recvCb outcomes) result left) := by
  rcases
      same_reads_append recvCb outcomes sound cut first.along
    with ⟨left, flattened, same⟩
  refine ⟨left, flattened, same.trans ?_⟩
  have whole := same_bytes recvCb outcomes sound first.along
  rw [first.read] at whole
  have soundResult : Sound result.session := by
    rw [← first.read]
    exact sound_ymoReadCb recvCb outcomes sound front
  exact (same_run recvCb outcomes soundResult whole left).symm

/-- A frame that closes, and whatever comes after it. -/
theorem reached_close (boundary : AtBoundary endpoint)
    (tracks : Tracks endpoint isOpen)
    {frame : ClientFrame}
    (close : frame.op = ymoWsOpClose)
    {back : Bytes}
    {reads : List Bytes}
    (cut : reads.flatten = frame.encode ++ back) :
    ∃ last,
      Same (run (ymoReadCb recvCb outcomes) endpoint reads) last ∧
        Reached last isOpen := by
  rcases verdict : opVerdict endpoint.session.msgType frame.flags
    with errno | type
  · have first : ReadsTo recvCb outcomes endpoint frame.encode _ :=
      readsTo_op_refused boundary verdict _
    rcases same_of_readsTo boundary.sound first cut with ⟨left, _, same⟩
    refine ⟨_, same, ?_⟩
    have incomplete : endpoint.session.frameIn.parseState ≠ .complete :=
      fun complete => absurd (boundary.stands.symm.trans complete) (by decide)
    rw [run_stopped (Or.inr (stopped_wsErrClose _ _))]
    refine Reached.failed (failed_wsErrClose ?_ _)
    exact incomplete
  · have control : isControl frame.op = true := by
      rw [close]
      decide
    have type' : type = endpoint.session.msgType := by
      have accepted := ((opVerdict_iff tracks).mp ⟨type, verdict⟩)
      rcases accepted with ⟨plain, both | both | both⟩
      · rw [opVerdict_control _ plain control both.2] at verdict
        cases verdict
        rfl
      · exact absurd both.1 (isControl_other control).1
      · exact absurd both.1 (isControl_other control).2
    have first : Unrolls recvCb outcomes endpoint [frame.flags] _ [] :=
      unrolls_op boundary verdict []
    rw [ClientFrame.encode, List.cons_append, ← List.singleton_append] at cut
    rcases same_of_readsTo boundary.sound first.readsTo cut
      with ⟨left, _, same⟩
    refine ⟨_, same, ?_⟩
    have closes :
        Closes
          (run (ymoReadCb recvCb outcomes)
            { endpoint with
              session := opSession endpoint.session frame.flags type }
            left).session
          endpoint.session.msgType := by
      refine
        invariant_run_always
          (fun endpoint' : Endpoint App =>
            Closes endpoint'.session endpoint.session.msgType)
          (fun _ bytes closes => closes_ymoReadCb recvCb outcomes closes bytes)
          ?_ left
      exact
        ⟨sound_opSession boundary frame.flags type, type',
          Or.inr ⟨WsParseState.noConfusion, close⟩⟩
    refine Reached.closes closes ?_
    rw [Tracks, closes.msgType]
    exact tracks

/-- A run over frames, in any reads. -/
theorem reached_run (okay : AlwaysOkay recvCb) (outcomes : List SendOutcome)
    (boundary : AtBoundary endpoint)
    (tracks : Tracks endpoint isOpen)
    {frames : List ClientFrame}
    (fits : ∀ frame ∈ frames, frame.payload.length ≤ ymoWsFrameMax)
    (noticed : AllAlong openAfter Noticed isOpen (received frames))
    {reads : List Bytes}
    (arrives : reads.flatten = frames.flatMap ClientFrame.encode) :
    ∃ last,
      Same (run (ymoReadCb recvCb outcomes) endpoint reads) last ∧
        Reached last (run openAfter isOpen (received frames)) := by
  induction frames generalizing endpoint isOpen reads with
  | nil =>
      refine ⟨endpoint, ?_, Reached.between boundary tracks⟩
      rw [run_silent recvCb outcomes endpoint arrives]
      exact Same.refl boundary.coherent
  | cons frame rest ih =>
      rw [List.flatMap_cons] at arrives
      by_cases close : frame.op = ymoWsOpClose
      · have kept : openAfter isOpen frame.toFrame = isOpen := by
          have op : opCode frame.flags = ymoWsOpClose := close
          rw [openAfter, op]
          rfl
        rw [received, if_pos close, run_cons, run_nil, kept]
        exact reached_close boundary tracks close arrives
      · rw [received, if_neg close] at noticed ⊢
        rcases
            tracked_encode okay outcomes boundary tracks frame
              (fits frame (List.mem_cons_self ..)) noticed.1 close
          with ⟨middle, first, tracked⟩
        rcases same_of_readsTo boundary.sound first arrives
          with ⟨left, flattened, same⟩
        rw [run_cons]
        cases tracked with
        | between boundary' tracks' =>
            rcases
                ih boundary' tracks'
                  (fun other member =>
                    fits other (List.mem_cons_of_mem _ member))
                  noticed.2 flattened
              with ⟨last, same', reached⟩
            exact ⟨last, same.trans same', reached⟩
        | failed failed =>
            rw [run_stopped (Or.inr failed.error)] at same
            exact ⟨middle, same, Reached.failed failed⟩

/-- The first byte of a frame is accepted if the frame may begin. -/
theorem connected_iff_mayBegin (boundary : AtBoundary endpoint)
    (tracks : Tracks endpoint isOpen)
    (flags : UInt8) :
    (ymoReadCb recvCb outcomes endpoint [flags]).session.state =
        .connected ↔
      MayBegin isOpen flags := by
  rw [← opVerdict_iff tracks]
  rcases verdict : opVerdict endpoint.session.msgType flags with errno | type
  · have refused : ReadsTo recvCb outcomes endpoint [flags] _ :=
      readsTo_op_refused boundary verdict []
    rw [refused.read, stopped_wsErrClose]
    constructor
    · intro connected
      cases connected
    · rintro ⟨_, accepted⟩
      cases accepted
  · have first : Unrolls recvCb outcomes endpoint [flags] _ [] :=
      unrolls_op boundary verdict []
    rw [first.readsTo.read]
    exact ⟨fun _ => ⟨type, rfl⟩, fun _ => boundary.connected⟩

/--
After frames with any opcodes and lengths, in any reads, the message type is set
where a fragmented message is open, and the frames that may begin are accepted;
where an open message ends, it does not end with an empty continuation.
-/
theorem fragmentation_tracked (okay : AlwaysOkay recvCb)
    (outcomes : List SendOutcome)
    (memory : Nat → Memory)
    (app : App)
    {frames : List ClientFrame}
    (fits : ∀ frame ∈ frames, frame.payload.length ≤ ymoWsFrameMax)
    (noticed : AllAlong openAfter Noticed false (received frames))
    {reads : List Bytes}
    (arrives : reads.flatten = frames.flatMap ClientFrame.encode) :
    let endpoint :=
      run (ymoReadCb recvCb outcomes) (Endpoint.create memory app) reads
    ((endpoint.session.state = .connected ∨
          endpoint.session.frameIn.parseState = .complete) →
        (endpoint.session.msgType ≠ 0 ↔
          openMessage (received frames) = true)) ∧
      (endpoint.session.state = .connected →
        endpoint.session.frameIn.parseState = .op →
          ∀ flags,
            (ymoReadCb recvCb outcomes endpoint [flags]).session.state =
                .connected ↔
              MayBegin (openMessage (received frames)) flags) := by
  have start := stands_create memory app
  have tracks : Tracks (Endpoint.create memory app) false := by
    constructor
    · exact fun none => absurd rfl none
    · intro none
      cases none
  rcases
      reached_run okay outcomes start.boundary tracks fits noticed arrives
    with ⟨last, same, reached⟩
  have sound :
      Sound
        (run (ymoReadCb recvCb outcomes) (Endpoint.create memory app)
          reads).session :=
    sound_run recvCb outcomes start.boundary.sound reads
  have agree := same.agree
  intro endpoint
  constructor
  · intro standing
    rw [agree.state, agree.parseState] at standing
    rw [agree.msgType]
    cases reached with
    | between _ tracks' => exact tracks'
    | failed failed =>
        rcases standing with connected | complete
        · rw [failed.error] at connected
          cases connected
        · exact absurd complete failed.incomplete
    | closes _ tracks' => exact tracks'
  · intro connected stands flags
    rw [agree.state] at connected
    rw [agree.parseState] at stands
    have next := (same_ymoReadCb recvCb outcomes sound same [flags]).agree
    rw [next.state]
    cases reached with
    | between boundary tracks' =>
        exact connected_iff_mayBegin boundary tracks' flags
    | failed failed =>
        rw [failed.error] at connected
        cases connected
    | closes closes _ =>
        rcases closes.closing with (stopped | stopped) | ⟨begun, _⟩
        · rw [stopped] at connected
          cases connected
        · rw [stopped] at connected
          cases connected
        · exact absurd stands begun

/-- A binary message in two fragments with an empty PING between them, the first
fragment of a text, and a close frame; what comes after it is not read. -/
def fragmentedFrames : List ClientFrame :=
  [keyed 0x02 [], keyed 0x89 [], keyed 0x80 [0x62], keyed 0x01 [0x61],
    keyed 0x88 [0x03, 0xe8], keyed 0x81 []]

theorem fragmentation_tracked_fragmentedFrames :
    let endpoint :=
      run (ymoReadCb takesEverything [])
        (Endpoint.create (fun _ _ => 0) ()) (byByte fragmentedFrames)
    ((endpoint.session.state = .connected ∨
          endpoint.session.frameIn.parseState = .complete) →
        (endpoint.session.msgType ≠ 0 ↔
          openMessage (received fragmentedFrames) = true)) ∧
      (endpoint.session.state = .connected →
        endpoint.session.frameIn.parseState = .op →
          ∀ flags,
            (ymoReadCb takesEverything [] endpoint
                    [flags]).session.state =
                .connected ↔
              MayBegin (openMessage (received fragmentedFrames)) flags) :=
  fragmentation_tracked (fun _ _ _ => rfl) [] (fun _ _ => 0) ()
    (by decide) (by decide) (flatten_byByte fragmentedFrames)

/-- A text message that an empty continuation ends stays open, and the next
message is refused. -/
theorem empty_end_unnoticed :
    let frames := [keyed 0x01 [0x61], keyed 0x80 []]
    let endpoint :=
      run (ymoReadCb takesEverything [])
        (Endpoint.create (fun _ _ => 0) ())
        [frames.flatMap ClientFrame.encode]
    endpoint.session.state = .connected ∧
      ¬(endpoint.session.msgType ≠ 0 ↔
          openMessage (received frames) = true) ∧
        (ymoReadCb takesEverything [] endpoint [0x81]).session.state ≠
          .connected := by
  decide +kernel

end Yimmo.Ws.Fragmentation
