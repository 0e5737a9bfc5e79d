import Yimmo.Ws.Encode

/-!
# Runs over frames

A sequence of client frames takes a session from one phase to the next: between two
messages, inside a binary message, or inside a text message of which a prefix has
been checked.  `stands_encode` is the step over one frame, and `same_of_framesTo`
says that the reads in which the frames arrive do not matter.
-/

namespace Yimmo.Ws.Frames

open Yimmo.Core.StatusCode
open Yimmo.Core.Net
open Yimmo.Core.Utf8
open Yimmo.Lib.GuardedRun
open Yimmo.Lib.Utf8 (Position)
open Yimmo.Ws.Parse
open Yimmo.Ws.Session
open Yimmo.Ws.ReadLoop
open Yimmo.Ws.Congruence
open Yimmo.Ws.ChunkIndependence
open Yimmo.Ws.Unrolled
open Yimmo.Ws.Encode

variable
    {App : Type}
    {recvCb : RecvCb App}
    {outcomes : List SendOutcome}
    {frame : Frame}
    {type : UInt8}
    {frames : List ClientFrame}
    {endpoint : Endpoint App}
    {session : WsSession}
    {flags : UInt8}

/-! ## Frames in any reads -/

/-- The frames are read one after the other, and each of them may be cut. -/
inductive FramesTo
    (recvCb : RecvCb App)
    (outcomes : List SendOutcome) :
    Endpoint App → List ClientFrame → Endpoint App → Prop where
  | nil (endpoint : Endpoint App) :
      FramesTo recvCb outcomes endpoint [] endpoint
  | cons {endpoint middle result : Endpoint App}
      {frame : ClientFrame}
      {rest : List ClientFrame}
      (first : ReadsTo recvCb outcomes endpoint frame.encode middle)
      (later : FramesTo recvCb outcomes middle rest result) :
      FramesTo recvCb outcomes endpoint (frame :: rest) result

theorem FramesTo.along {endpoint result : Endpoint App}
    (sound : Sound endpoint.session)
    (reads : FramesTo recvCb outcomes endpoint frames result) :
    AllAlong (readByte recvCb outcomes) OutsideText endpoint
        (frames.flatMap ClientFrame.encode) ∧
      Same
        (run (readByte recvCb outcomes) endpoint
          (frames.flatMap ClientFrame.encode))
        result := by
  induction reads with
  | nil endpoint => exact ⟨trivial, Same.refl sound.coherent⟩
  | @cons endpoint middle result frame rest first later
      ih =>
      have cut := same_bytes recvCb outcomes sound first.along
      have soundMiddle : Sound middle.session := by
        rw [← first.read]
        exact sound_ymoReadCb recvCb outcomes sound frame.encode
      rw [first.read] at cut
      rcases ih soundMiddle with ⟨along, same⟩
      rw [List.flatMap_cons, allAlong_append, run_append]
      refine ⟨⟨first.along, ?_⟩, ?_⟩
      · exact allAlong_of_same soundMiddle cut along
      · refine Same.trans ?_ same
        exact (same_runByte recvCb outcomes soundMiddle cut _).symm

/-- The reads in which frames arrive do not matter. -/
theorem same_of_framesTo {endpoint result : Endpoint App}
    (sound : Sound endpoint.session)
    (reads : FramesTo recvCb outcomes endpoint frames result)
    {cut : List Bytes}
    (arrives : cut.flatten = frames.flatMap ClientFrame.encode) :
    Same (run (ymoReadCb recvCb outcomes) endpoint cut) result := by
  rcases reads.along sound with ⟨along, same⟩
  rw [← arrives] at along same
  exact (same_reads recvCb outcomes sound along).trans same

/-- A session that has stopped stays as it is. -/
theorem framesTo_stopped (stopped : Stopped endpoint.session)
    (frames : List ClientFrame) :
    FramesTo recvCb outcomes endpoint frames endpoint := by
  induction frames with
  | nil => exact FramesTo.nil endpoint
  | cons frame rest ih =>
      refine FramesTo.cons ⟨?_, ?_⟩ ih
      · exact ymoReadCb_of_stopped recvCb outcomes stopped _
      · exact allAlong_stopped stopped _

/-! ## Complete frames -/

/-- Every call of the callback takes its frame. -/
def AlwaysOkay (recvCb : RecvCb App) : Prop :=
  ∀ app flags data, (recvCb app flags data).2.status = .okay

theorem invokeEach_okay {callback : Callback App}
    (okay : ∀ endpoint flags data, (callback endpoint flags data).1 = .okay)
    {buckets : List RecvBucket}
    (nonempty : buckets ≠ [])
    (status : Status)
    (endpoint : Endpoint App) :
    (invokeEach callback buckets status endpoint).1 = .okay := by
  induction buckets generalizing status endpoint with
  | nil => exact absurd rfl nonempty
  | cons bucket rest ih =>
      have called :=
        okay endpoint endpoint.session.frameIn.flags
          (endpoint.session.bucketData bucket)
      rw [invokeEach]
      generalize
        callback endpoint endpoint.session.frameIn.flags
          (endpoint.session.bucketData bucket) = result at called
      rcases result with ⟨status', later⟩
      dsimp only at called
      subst called
      cases rest with
      | nil => rfl
      | cons next more => exact ih (List.cons_ne_nil next more) .okay later

/-- The frame is taken, and the next one begins. -/
structure Taken (before after : Endpoint App) : Prop where
  boundary : AtBoundary after
  msgType : after.session.msgType = before.session.msgType
  utf8State : after.session.utf8State = before.session.utf8State

theorem taken_afterCallback
    (before : Endpoint App)
    (opened : before.conn = .opened)
    (connected : before.session.state = .connected)
    (coherent : before.session.utf8State.Coherent)
    {result : Status × Endpoint App}
    (okay : result.1 = .okay)
    (sends :
      OnlySends
        { before with session := { before.session with recvList := [] } }
        result.2 ∨
      OnlySends before result.2) :
    Taken before (afterCallback 0 0 result).2 := by
  rcases result with ⟨status, later⟩
  dsimp only at okay sends
  subst okay
  rcases sends with sends | sends
  all_goals
    have session := sends.session
    have conn := sends.conn
    rw [afterCallback]
    dsimp only
    rw [session]
    exact
      ⟨⟨conn.trans opened, connected, coherent, rfl, rfl, rfl, rfl⟩, rfl, rfl⟩

/-- The callbacks of a frame are called with what it leaves. -/
theorem recvList_ne_nil {before session : WsSession}
    (completed : Completed before type frame session)
    (kept : opCode frame.flags ≠ ymoWsOpPong) :
    session.recvList ≠ [] := by
  rcases completed.recvList with ⟨added, whole, payloads⟩
  intro empty
  rw [empty] at whole
  rcases List.append_eq_nil_iff.mp whole.symm with ⟨_, rfl⟩
  rw [List.map_nil, leaves, if_neg kept] at payloads
  split_ifs at payloads

theorem taken_dispatch_control
    (endpoint : Endpoint App)
    (opened : endpoint.conn = .opened)
    (coherent : session.utf8State.Coherent)
    (completed : Completed endpoint.session type frame session)
    (kind :
      opCode frame.flags = ymoWsOpPing ∨ opCode frame.flags = ymoWsOpPong) :
    Taken { endpoint with session := session }
      (dispatch recvCb outcomes { endpoint with session := session }) := by
  rcases kind with ping | pong
  · have dispatched :
        dispatch recvCb outcomes { endpoint with session := session } =
          (afterCallback 0 0
            (invokeRecvCallback wsEchoCb
              { endpoint with session := session })).2 := by
      simp only [dispatch, wsParseComplete, completed.flags, ping]
      rfl
    rw [dispatched]
    refine
      taken_afterCallback { endpoint with session := session } opened
        completed.state coherent ?_
        (Or.inl (session_invokeRecvCallback onlySends_wsEchoCb _))
    refine
      invokeEach_okay (fun _ _ _ => rfl) (recvList_ne_nil completed ?_) _ _
    rw [ping]
    decide
  · have dispatched :
        dispatch recvCb outcomes { endpoint with session := session } =
          (afterCallback 0 0
            (.okay, { endpoint with session := session })).2 := by
      simp only [dispatch, wsParseComplete, completed.flags, pong]
      rfl
    rw [dispatched]
    exact
      taken_afterCallback { endpoint with session := session } opened
        completed.state coherent rfl
        (Or.inr (OnlySends.refl _))

theorem dispatch_data (endpoint : Endpoint App)
    (completed : Completed endpoint.session type frame session)
    (data : isData (opCode frame.flags) = true) :
    dispatch recvCb outcomes { endpoint with session := session } =
      (afterCallback 0 0
        (invokeRecvCallback (callRecvCb recvCb)
          { endpoint with session := session })).2 := by
  simp only [dispatch, wsParseComplete, completed.flags, data, if_pos,
    completed.state]

theorem taken_dispatch_data (okay : AlwaysOkay recvCb)
    (endpoint : Endpoint App)
    (opened : endpoint.conn = .opened)
    (coherent : session.utf8State.Coherent)
    (completed : Completed endpoint.session type frame session)
    (data : isData (opCode frame.flags) = true) :
    Taken { endpoint with session := session }
      (dispatch recvCb outcomes { endpoint with session := session }) := by
  rw [dispatch_data endpoint completed data]
  refine
    taken_afterCallback { endpoint with session := session } opened
      completed.state coherent ?_
      (Or.inl (session_invokeRecvCallback (onlySends_callRecvCb recvCb) _))
  exact
    invokeEach_okay (fun endpoint _ _ => okay endpoint.app _ _)
      (recvList_ne_nil completed (isData_ne data).1) _ _

/-! ## Phases -/

/-- Where a session stands between two frames. -/
inductive Phase where
  | idle
  | binary
  | text (position : Position)
deriving DecidableEq

/-- `msg_type` in a phase. -/
def Phase.msgType : Phase → UInt8
  | .idle => 0
  | .binary => ymoWsOpBinary
  | .text _ => ymoWsOpText

theorem msgType_ne_zero {phase : Phase} (inside : phase ≠ .idle) :
    phase.msgType ≠ 0 := by
  cases phase with
  | idle => exact absurd rfl inside
  | binary => decide
  | text position =>
      show ymoWsOpText ≠ 0
      decide

/-- Where the check of text stands in a phase. -/
def Phase.position : Phase → Position
  | .idle => .start
  | .binary => .start
  | .text position => position

/-- The phase after a fragment of text. -/
def textAfter (ends : Bool) (ran : Option Position) : Option Phase :=
  ran.bind fun position =>
    if ends then if position = .start then some .idle else none
    else some (.text position)

/-- The phase after a frame; a frame out of place and ill-formed text are
refused. -/
def Phase.next (phase : Phase) (frame : Frame) : Option Phase :=
  let op := opCode frame.flags
  let ends := fin frame.flags
  if isControl op then some phase
  else
    match phase with
    | .idle =>
        if op = ymoWsOpText then
          textAfter ends (Lib.Utf8.run .start frame.payload)
        else if op = ymoWsOpBinary then some (if ends then .idle else .binary)
        else none
    | .binary =>
        if op = ymoWsOpContinuation then some (if ends then .idle else .binary)
        else none
    | .text position =>
        if op = ymoWsOpContinuation then
          textAfter ends (Lib.Utf8.run position frame.payload)
        else none

/-- The session stands in the phase, between two frames. -/
structure Stands (endpoint : Endpoint App) (phase : Phase) : Prop where
  boundary : AtBoundary endpoint
  msgType : endpoint.session.msgType = phase.msgType
  position : endpoint.session.utf8State.position = phase.position

theorem stands_create (memory : Nat → Lib.ByteMemory.Memory) (app : App) :
    Stands (Endpoint.create memory app) .idle :=
  ⟨⟨rfl, rfl, coherent_ymoUtf8StateReset, rfl, rfl, rfl, rfl⟩, rfl, rfl⟩

/-- A frame of a client that does not close, but for the order of its frames. -/
structure Sendable (frame : Frame) : Prop where
  reserved : ymoWsFlagsReserved frame.flags = false
  kind :
    isData (opCode frame.flags) = true ∨
      opCode frame.flags = ymoWsOpPing ∨
        opCode frame.flags = ymoWsOpPong
  whole : isControl (opCode frame.flags) = true → fin frame.flags = true
  short : isControl (opCode frame.flags) = true → frame.payload.length ≤ 125
  fits : frame.payload.length ≤ ymoWsFrameMax

/-- Control frames inside a text message are empty, and a continuation that ends
its message is not. -/
structure Harmless (phase : Phase) (frame : Frame) : Prop where
  control :
    isControl (opCode frame.flags) = true →
      frame.payload = [] ∨ phase.msgType ≠ ymoWsOpText
  ends :
    opCode frame.flags = ymoWsOpContinuation →
      fin frame.flags = true → frame.payload ≠ []

instance
    (frame : Frame) :
    Decidable (Sendable frame) :=
  decidable_of_iff
    (ymoWsFlagsReserved frame.flags = false ∧
      (isData (opCode frame.flags) = true ∨
          opCode frame.flags = ymoWsOpPing ∨
            opCode frame.flags = ymoWsOpPong) ∧
        (isControl (opCode frame.flags) = true →
            fin frame.flags = true) ∧
          (isControl (opCode frame.flags) = true →
              frame.payload.length ≤ 125) ∧
            frame.payload.length ≤ ymoWsFrameMax)
    ⟨fun ⟨reserved, kind, whole, short, fits⟩ =>
        ⟨reserved, kind, whole, short, fits⟩,
      fun sendable =>
        ⟨sendable.reserved, sendable.kind, sendable.whole,
          sendable.short, sendable.fits⟩⟩

instance
    (phase : Phase)
    (frame : Frame) :
    Decidable (Harmless phase frame) :=
  decidable_of_iff
    ((isControl (opCode frame.flags) = true →
        frame.payload = [] ∨ phase.msgType ≠ ymoWsOpText) ∧
      (opCode frame.flags = ymoWsOpContinuation →
        fin frame.flags = true → frame.payload ≠ []))
    ⟨fun ⟨control, ends⟩ => ⟨control, ends⟩,
      fun harmless => ⟨harmless.control, harmless.ends⟩⟩

theorem Sendable.control {frame : Frame} (sendable : Sendable frame)
    (control : isControl (opCode frame.flags) = true) :
    opCode frame.flags = ymoWsOpPing ∨ opCode frame.flags = ymoWsOpPong := by
  rcases sendable.kind with data | kind
  · simp only [isData, Bool.or_eq_true, beq_iff_eq] at data
    rcases data with (data | data) | data
    all_goals
      rw [data] at control
      exact absurd control (by decide)
  · exact kind

theorem Sendable.open_frame (sendable : Sendable frame)
    (kept : ¬isControl (opCode frame.flags) = true) :
    isData (opCode frame.flags) = true := by
  rcases sendable.kind with data | ping | pong
  · exact data
  · rw [ping] at kept
    exact absurd (by decide) kept
  · rw [pong] at kept
    exact absurd (by decide) kept

/-- The check of a fragment of text, by the recogniser. -/
theorem frameCheck_text {utf8State : Utf8State}
    (coherent : utf8State.Coherent)
    (text : opCode frame.flags = ymoWsOpText ∨ type = ymoWsOpText)
    (ends :
      fin frame.flags = true →
        frame.payload = [] → utf8State.position = .start) :
    (∃ later,
        frameCheck utf8State type frame = .ok later ∧ later.Coherent ∧
          Lib.Utf8.run utf8State.position frame.payload =
              some later.position ∧
            (fin frame.flags = true → later.position = .start)) ∨
      ∃ errno,
        frameCheck utf8State type frame = .error errno ∧
          textAfter (fin frame.flags)
              (Lib.Utf8.run utf8State.position frame.payload) =
            none := by
  by_cases empty : frame.payload = []
  · refine Or.inl ⟨utf8State, ?_, coherent, ?_, ?_⟩
    · rw [frameCheck, if_neg fun both => both.2 empty]
    · rw [empty, Lib.Utf8.run_nil]
    · exact fun whole => ends whole empty
  · rw [frameCheck, if_pos ⟨text, empty⟩]
    rcases
        ymoCheckUtf8_cases coherent frame.payload (fin frame.flags)
      with ⟨position, later, ran, checked, stillCoherent, stands,
        finished⟩ | ⟨refused, why⟩
    · refine Or.inl ⟨later, checked, stillCoherent, ?_, ?_⟩
      · rw [ran, stands]
      · rw [stands]
        exact finished
    · refine Or.inr ⟨_, refused, ?_⟩
      rcases ran : Lib.Utf8.run utf8State.position frame.payload
        with _ | position
      · rfl
      · rcases why position ran with ⟨whole, unfinished⟩
        rw [textAfter, Option.bind_some, if_pos whole, if_neg unfinished]

/-- What a frame comes to: the session fails, or the frame is complete and a phase
is reached. -/
def FrameStep (recvCb : RecvCb App) (outcomes : List SendOutcome)
    (endpoint : Endpoint App)
    (frame : Frame)
    (result : Endpoint App) :
    Option Phase → Prop
  | none => result.session.state = .error
  | some phase =>
      ∃ type session,
        Completed endpoint.session type frame session ∧
          session.utf8State.Coherent ∧
            session.msgType = phase.msgType ∧
              session.utf8State.position = phase.position ∧
                result =
                  dispatch recvCb outcomes { endpoint with session := session }

theorem frameStep_refused (boundary : AtBoundary endpoint)
    (frame : ClientFrame)
    {errno : Errno}
    (verdict : opVerdict endpoint.session.msgType frame.flags = .error errno) :
    ∃ result,
      ReadsTo recvCb outcomes endpoint frame.encode result ∧
        FrameStep recvCb outcomes endpoint frame.toFrame result none :=
  ⟨_, readsTo_op_refused boundary verdict _, stopped_wsErrClose _ _⟩

/-- A frame whose payload is no text. -/
theorem frameStep_unchecked
    (boundary : AtBoundary endpoint)
    (frame : ClientFrame)
    (sendable : Sendable frame.toFrame)
    (verdict : opVerdict endpoint.session.msgType frame.flags = .ok type)
    (plain : Plain type frame.toFrame)
    (unchecked :
      frame.payload = [] ∨ ¬(frame.op = ymoWsOpText ∨ type = ymoWsOpText))
    {phase : Phase}
    (msgType : typeAfter type frame.toFrame = phase.msgType)
    (position : endpoint.session.utf8State.position = phase.position) :
    ∃ result,
      ReadsTo recvCb outcomes endpoint frame.encode result ∧
        FrameStep recvCb outcomes endpoint frame.toFrame result
          (some phase) := by
  have open_ : frame.op ≠ ymoWsOpClose := by
    rcases sendable.kind with data | ping | pong
    · exact (isData_ne data).2
    · rw [ClientFrame.op, ping]
      decide
    · rw [ClientFrame.op, pong]
      decide
  rcases
      readsTo_encode boundary frame verdict sendable.fits sendable.short
        fun both => open_ both.1
    with ⟨checked, result, check, reads, ends⟩
  have passed : checked = .ok endpoint.session.utf8State := by
    rw [check plain, frameCheck]
    refine if_neg ?_
    rintro ⟨text, nonempty⟩
    rcases unchecked with empty | other
    · exact nonempty empty
    · exact other text
  rw [passed] at ends
  rcases ends with ⟨session, completed, utf8, same⟩
  refine ⟨result, reads, type, session, completed, ?_, ?_, ?_, same⟩
  · rw [utf8]
    exact boundary.coherent
  · exact completed.msgType.trans msgType
  · rw [utf8]
    exact position

/-- A fragment of text. -/
theorem frameStep_text
    (boundary : AtBoundary endpoint)
    (frame : ClientFrame)
    (sendable : Sendable frame.toFrame)
    (data : isData frame.op = true)
    (verdict : opVerdict endpoint.session.msgType frame.flags = .ok type)
    (text : frame.op = ymoWsOpText ∨ type = ymoWsOpText)
    (msgType :
      typeAfter type frame.toFrame =
        if fin frame.flags then 0 else ymoWsOpText)
    (ends :
      fin frame.flags = true →
        frame.payload = [] →
          endpoint.session.utf8State.position = .start) :
    ∃ result,
      ReadsTo recvCb outcomes endpoint frame.encode result ∧
        FrameStep recvCb outcomes endpoint frame.toFrame result
          (textAfter (fin frame.flags)
            (Lib.Utf8.run endpoint.session.utf8State.position
              frame.payload)) := by
  rcases
      readsTo_encode boundary frame verdict sendable.fits sendable.short
        fun both => (isData_ne data).2 both.1
    with ⟨checked, result, check, reads, completes⟩
  have passed := check (Or.inr (Or.inr data))
  rcases frameCheck_text boundary.coherent text ends
    with ⟨later, checked', coherent, ran, finished⟩ | ⟨errno, refused, after⟩
  · rw [passed, checked'] at completes
    rcases completes with ⟨session, completed, utf8, same⟩
    refine ⟨result, reads, ?_⟩
    rw [ran, textAfter, Option.bind_some]
    by_cases whole : fin frame.flags = true
    · rw [if_pos whole, if_pos (finished whole)]
      refine ⟨type, session, completed, ?_, ?_, ?_, same⟩
      · rw [utf8]
        exact coherent
      · rw [completed.msgType, msgType, if_pos whole]
        rfl
      · rw [utf8]
        exact finished whole
    · rw [if_neg whole]
      refine ⟨type, session, completed, ?_, ?_, ?_, same⟩
      · rw [utf8]
        exact coherent
      · rw [completed.msgType, msgType, if_neg whole]
        rfl
      · rw [utf8]
        rfl
  · rw [passed, refused] at completes
    rcases completes with ⟨session, connected, stands, same⟩
    refine ⟨result, reads, ?_⟩
    rw [after, same]
    exact stopped_wsErrClose _ _

/-! ## Which frames may begin -/

theorem opVerdict_control (msgType : UInt8)
    (reserved : ymoWsFlagsReserved flags = false)
    (control : isControl (opCode flags) = true)
    (whole : fin flags = true) :
    opVerdict msgType flags = .ok msgType := by
  rw [opVerdict, if_neg (ne_true_of_eq_false reserved),
    if_pos control, if_pos whole]

theorem opVerdict_continuation (msgType : UInt8)
    (reserved : ymoWsFlagsReserved flags = false)
    (continues : opCode flags = ymoWsOpContinuation) :
    opVerdict msgType flags =
      if msgType = 0 then .error .einval else .ok msgType := by
  have data : ¬isControl (opCode flags) = true := by
    rw [continues]
    decide
  rw [opVerdict, if_neg (ne_true_of_eq_false reserved), if_neg data,
    if_pos continues]

theorem opVerdict_starts (msgType : UInt8)
    (reserved : ymoWsFlagsReserved flags = false)
    (starts : opCode flags = ymoWsOpText ∨ opCode flags = ymoWsOpBinary) :
    opVerdict msgType flags =
      if msgType ≠ 0 then .error .einval
      else if fin flags then .ok msgType
      else .ok (opCode flags) := by
  have data :
      ¬isControl (opCode flags) = true ∧
        opCode flags ≠ ymoWsOpContinuation := by
    rcases starts with starts | starts
    · rw [starts]
      decide
    · rw [starts]
      decide
  rw [opVerdict, if_neg (ne_true_of_eq_false reserved),
    if_neg data.1, if_neg data.2, if_pos starts]

theorem typeAfter_of_not_fin (type : UInt8)
    (goesOn : ¬fin frame.flags = true) :
    typeAfter type frame = type :=
  if_neg fun both => goesOn both.2.1

theorem typeAfter_of_ends (type : UInt8)
    (data : isData (opCode frame.flags) = true)
    (whole : fin frame.flags = true)
    (nonempty : frame.payload ≠ []) :
    typeAfter type frame = 0 :=
  if_pos ⟨data, whole, nonempty⟩

/-- A frame that ends the message it begins leaves no message open. -/
theorem typeAfter_zero (frame : Frame) : typeAfter 0 frame = 0 := by
  rw [typeAfter]
  split_ifs <;> rfl

/-- The step over a control frame. -/
theorem frameStep_control {phase : Phase} (stands : Stands endpoint phase)
    (frame : ClientFrame)
    (sendable : Sendable frame.toFrame)
    (harmless : Harmless phase frame.toFrame)
    (control : isControl frame.op = true) :
    ∃ result,
      ReadsTo recvCb outcomes endpoint frame.encode result ∧
        FrameStep recvCb outcomes endpoint frame.toFrame result
          (some phase) := by
  have verdict :=
    opVerdict_control endpoint.session.msgType sendable.reserved control
      (sendable.whole control)
  have kind := sendable.control control
  have kept : frame.op ≠ ymoWsOpText ∧ ¬isData frame.op = true := by
    rw [ClientFrame.op]
    rcases kind with kind | kind
    · rw [kind]
      decide
    · rw [kind]
      decide
  have quiet := harmless.control control
  rw [← stands.msgType] at quiet
  refine
    frameStep_unchecked stands.boundary frame sendable verdict ?_ ?_ ?_
      stands.position
  · rcases quiet with empty | outside
    · exact Or.inl empty
    · exact Or.inr (Or.inl outside)
  · rcases quiet with empty | outside
    · exact Or.inl empty
    · refine Or.inr ?_
      rintro (text | text)
      · exact kept.1 text
      · exact outside text
  · rw [← stands.msgType]
    exact if_neg fun both => kept.2 both.1

theorem isData_not_control {op : UInt8} (data : isData op = true) :
    ¬isControl op = true := by
  simp only [isData, Bool.or_eq_true, beq_iff_eq] at data
  rcases data with (rfl | rfl) | rfl
  · decide
  · decide
  · decide

theorem next_text_idle (text : opCode frame.flags = ymoWsOpText) :
    Phase.next .idle frame =
      textAfter (fin frame.flags) (Lib.Utf8.run .start frame.payload) := by
  have control : ¬isControl (opCode frame.flags) = true := by
    rw [text]
    decide
  rw [Phase.next, if_neg control]
  exact if_pos text

theorem next_binary_idle (binary : opCode frame.flags = ymoWsOpBinary) :
    Phase.next .idle frame =
      some (if fin frame.flags then .idle else .binary) := by
  have other :
      ¬isControl (opCode frame.flags) = true ∧
        opCode frame.flags ≠ ymoWsOpText := by
    rw [binary]
    decide
  rw [Phase.next, if_neg other.1]
  exact (if_neg other.2).trans (if_pos binary)

theorem next_continuation_binary
    (continues : opCode frame.flags = ymoWsOpContinuation) :
    Phase.next .binary frame =
      some (if fin frame.flags then .idle else .binary) := by
  have control : ¬isControl (opCode frame.flags) = true := by
    rw [continues]
    decide
  rw [Phase.next, if_neg control]
  exact if_pos continues

theorem next_continuation_text (position : Position)
    (continues : opCode frame.flags = ymoWsOpContinuation) :
    Phase.next (.text position) frame =
      textAfter (fin frame.flags) (Lib.Utf8.run position frame.payload) := by
  have control : ¬isControl (opCode frame.flags) = true := by
    rw [continues]
    decide
  rw [Phase.next, if_neg control]
  exact if_pos continues

/-- Data frames that are out of place. -/
theorem next_out_of_place {phase : Phase}
    (data : isData (opCode frame.flags) = true)
    (misplaced :
      phase = .idle ∧ opCode frame.flags = ymoWsOpContinuation ∨
        phase ≠ .idle ∧ opCode frame.flags ≠ ymoWsOpContinuation) :
    Phase.next phase frame = none := by
  have control := isData_not_control data
  rcases misplaced with ⟨rfl, continues⟩ | ⟨inside, starts⟩
  · have other :
        opCode frame.flags ≠ ymoWsOpText ∧
          opCode frame.flags ≠ ymoWsOpBinary := by
      rw [continues]
      decide
    rw [Phase.next, if_neg control]
    exact (if_neg other.1).trans (if_neg other.2)
  · cases phase with
    | idle => exact absurd rfl inside
    | binary =>
        rw [Phase.next, if_neg control]
        exact if_neg starts
    | text position =>
        rw [Phase.next, if_neg control]
        exact if_neg starts

theorem next_control (phase : Phase)
    (control : isControl (opCode frame.flags) = true) :
    Phase.next phase frame = some phase :=
  if_pos control

/-- The step over a frame that starts a message where none is open. -/
theorem frameStep_starts (stands : Stands endpoint .idle) (frame : ClientFrame)
    (sendable : Sendable frame.toFrame)
    (starts : frame.op = ymoWsOpText ∨ frame.op = ymoWsOpBinary) :
    ∃ result,
      ReadsTo recvCb outcomes endpoint frame.encode result ∧
        FrameStep recvCb outcomes endpoint frame.toFrame result
          (Phase.next .idle frame.toFrame) := by
  have data : isData frame.op = true := by
    rcases starts with starts | starts
    · rw [starts]
      decide
    · rw [starts]
      decide
  have closed : endpoint.session.msgType = 0 := stands.msgType
  have verdict :=
    opVerdict_starts endpoint.session.msgType sendable.reserved starts
  rw [if_neg (not_not.mpr closed)] at verdict
  by_cases text : frame.op = ymoWsOpText
  · have position : endpoint.session.utf8State.position = .start :=
      stands.position
    rw [next_text_idle text, ← position]
    by_cases whole : fin frame.flags = true
    · rw [if_pos whole] at verdict
      refine
        frameStep_text stands.boundary frame sendable data verdict
          (Or.inl text) ?_ fun _ _ => position
      rw [if_pos whole, closed, typeAfter_zero]
    · rw [if_neg whole] at verdict
      refine
        frameStep_text stands.boundary frame sendable data verdict
          (Or.inl text) ?_ fun _ _ => position
      rw [if_neg whole, typeAfter_of_not_fin _ whole]
      exact text
  · have binary := starts.resolve_left text
    rw [next_binary_idle binary]
    by_cases whole : fin frame.flags = true
    · rw [if_pos whole] at verdict ⊢
      refine
        frameStep_unchecked stands.boundary frame sendable verdict
          (Or.inr (Or.inr data)) ?_ ?_ stands.position
      · refine Or.inr ?_
        rw [closed]
        rintro (other | other)
        · exact text other
        · exact absurd other (by decide)
      · rw [closed]
        exact typeAfter_zero _
    · rw [if_neg whole] at verdict ⊢
      refine
        frameStep_unchecked stands.boundary frame sendable verdict
          (Or.inr (Or.inr data)) ?_ ?_ stands.position
      · refine Or.inr ?_
        rintro (other | other)
        · exact text other
        · exact text other
      · rw [typeAfter_of_not_fin _ whole]
        exact binary

/-- The step over a continuation of a message that is open. -/
theorem frameStep_continues {phase : Phase} (stands : Stands endpoint phase)
    (inside : phase ≠ .idle)
    (frame : ClientFrame)
    (sendable : Sendable frame.toFrame)
    (harmless : Harmless phase frame.toFrame)
    (continues : frame.op = ymoWsOpContinuation) :
    ∃ result,
      ReadsTo recvCb outcomes endpoint frame.encode result ∧
        FrameStep recvCb outcomes endpoint frame.toFrame result
          (Phase.next phase frame.toFrame) := by
  have data : isData frame.op = true := by
    rw [continues]
    decide
  have opened : endpoint.session.msgType ≠ 0 := by
    rw [stands.msgType]
    exact msgType_ne_zero inside
  have ends :
      fin frame.flags = true →
        typeAfter endpoint.session.msgType frame.toFrame = 0 :=
    fun whole => typeAfter_of_ends _ data whole (harmless.ends continues whole)
  have verdict :=
    opVerdict_continuation endpoint.session.msgType sendable.reserved continues
  rw [if_neg opened] at verdict
  cases phase with
  | idle => exact absurd rfl inside
  | binary =>
      rw [next_continuation_binary continues]
      have other :
          ¬(frame.op = ymoWsOpText ∨
              endpoint.session.msgType = ymoWsOpText) := by
        rw [continues, stands.msgType]
        decide
      by_cases whole : fin frame.flags = true
      · rw [if_pos whole]
        exact
          frameStep_unchecked stands.boundary frame sendable verdict
            (Or.inr (Or.inr data)) (Or.inr other) (ends whole)
            stands.position
      · rw [if_neg whole]
        refine
          frameStep_unchecked stands.boundary frame sendable verdict
            (Or.inr (Or.inr data)) (Or.inr other) ?_ stands.position
        rw [typeAfter_of_not_fin _ whole]
        exact stands.msgType
  | text position =>
      have checked : endpoint.session.utf8State.position = position :=
        stands.position
      rw [next_continuation_text position continues, ← checked]
      refine
        frameStep_text stands.boundary frame sendable data verdict
          (Or.inr stands.msgType) ?_ fun whole empty =>
            absurd empty (harmless.ends continues whole)
      by_cases whole : fin frame.flags = true
      · rw [if_pos whole]
        exact ends whole
      · rw [if_neg whole, typeAfter_of_not_fin _ whole]
        exact stands.msgType

/--
The step over a frame.  A frame in its place is complete when its bytes are read,
and the phase after it is reached; a frame out of place and ill-formed text make
the session fail.
-/
theorem frameStep_encode {phase : Phase} (stands : Stands endpoint phase)
    (frame : ClientFrame)
    (sendable : Sendable frame.toFrame)
    (harmless : Harmless phase frame.toFrame) :
    ∃ result,
      ReadsTo recvCb outcomes endpoint frame.encode result ∧
        FrameStep recvCb outcomes endpoint frame.toFrame result
          (phase.next frame.toFrame) := by
  by_cases control : isControl frame.op = true
  · rw [next_control phase control]
    exact frameStep_control stands frame sendable harmless control
  have data := sendable.open_frame control
  by_cases continues : frame.op = ymoWsOpContinuation
  · by_cases idle : phase = .idle
    · subst idle
      have verdict :=
        opVerdict_continuation endpoint.session.msgType
          sendable.reserved continues
      rw [if_pos (show endpoint.session.msgType = 0 from
        stands.msgType)] at verdict
      rw [next_out_of_place data (Or.inl ⟨rfl, continues⟩)]
      exact frameStep_refused stands.boundary frame verdict
    · exact frameStep_continues stands idle frame sendable harmless continues
  · have starts : frame.op = ymoWsOpText ∨ frame.op = ymoWsOpBinary := by
      simp only [isData, Bool.or_eq_true, beq_iff_eq] at data
      rcases data with (data | data) | data
      · exact absurd data continues
      · exact Or.inl data
      · exact Or.inr data
    by_cases idle : phase = .idle
    · subst idle
      exact frameStep_starts stands frame sendable starts
    · have opened : endpoint.session.msgType ≠ 0 := by
        rw [stands.msgType]
        exact msgType_ne_zero idle
      have verdict :=
        opVerdict_starts endpoint.session.msgType sendable.reserved starts
      rw [if_pos opened] at verdict
      rw [next_out_of_place data (Or.inr ⟨idle, continues⟩)]
      exact frameStep_refused stands.boundary frame verdict

/-! ## Runs -/

/-- The phase after some frames, if none of them is refused. -/
def follow : Phase → List Frame → Option Phase
  | phase, [] => some phase
  | phase, frame :: rest =>
      (phase.next frame).bind fun later => follow later rest

/-- Every frame is harmless in the phase it arrives in. -/
def HarmlessAlong : Phase → List Frame → Prop
  | _, [] => True
  | phase, frame :: rest =>
      Harmless phase frame ∧
        ∀ later, phase.next frame = some later → HarmlessAlong later rest

instance decidableHarmlessAlong :
    ∀ phase frames, Decidable (HarmlessAlong phase frames)
  | _, [] => .isTrue trivial
  | phase, frame :: rest =>
      have : Decidable
          (∀ later,
            phase.next frame = some later → HarmlessAlong later rest) :=
        match next : phase.next frame with
        | none => .isTrue fun _ goesOn => by cases goesOn
        | some later =>
            have := decidableHarmlessAlong later rest
            decidable_of_iff (HarmlessAlong later rest)
              ⟨fun harmless _ goesOn =>
                  Option.some.inj goesOn ▸ harmless,
                fun harmless => harmless later rfl⟩
      inferInstanceAs (Decidable (_ ∧ _))

theorem follow_append (phase : Phase) (front back : List Frame) :
    follow phase (front ++ back) =
      (follow phase front).bind fun later => follow later back := by
  induction front generalizing phase with
  | nil => rfl
  | cons frame rest ih =>
      rw [List.cons_append, follow, follow, Option.bind_assoc]
      congr 1
      funext later
      exact ih later

theorem HarmlessAlong.append {phase : Phase} {front back : List Frame}
    (harmless : HarmlessAlong phase front)
    (later :
      ∀ middle, follow phase front = some middle → HarmlessAlong middle back) :
    HarmlessAlong phase (front ++ back) := by
  induction front generalizing phase with
  | nil => exact later phase rfl
  | cons frame rest ih =>
      refine ⟨harmless.1, fun next goesOn => ?_⟩
      refine ih (harmless.2 next goesOn) ?_
      intro middle followed
      refine later middle ?_
      rw [follow, goesOn]
      exact followed

/-- The frames are complete one after the other, and each of them is taken. -/
inductive Walk
    (recvCb : RecvCb App)
    (outcomes : List SendOutcome) :
    Endpoint App → List ClientFrame → Endpoint App → Prop where
  | nil (endpoint : Endpoint App) : Walk recvCb outcomes endpoint [] endpoint
  | cons {endpoint middle result : Endpoint App}
      {frame : ClientFrame}
      {rest : List ClientFrame}
      {phase : Phase}
      (first : ReadsTo recvCb outcomes endpoint frame.encode middle)
      (step :
        FrameStep recvCb outcomes endpoint frame.toFrame middle (some phase))
      (stands : Stands middle phase)
      (later : Walk recvCb outcomes middle rest result) :
      Walk recvCb outcomes endpoint (frame :: rest) result

theorem Walk.framesTo {endpoint result : Endpoint App}
    (walk : Walk recvCb outcomes endpoint frames result) :
    FramesTo recvCb outcomes endpoint frames result := by
  induction walk with
  | nil endpoint => exact FramesTo.nil endpoint
  | cons first _ _ _ ih => exact FramesTo.cons first ih

/-- A frame that is complete is taken. -/
theorem stands_of_frameStep (okay : AlwaysOkay recvCb)
    {endpoint result : Endpoint App}
    (opened : endpoint.conn = .opened)
    (sendable : Sendable frame)
    {phase : Phase}
    (step : FrameStep recvCb outcomes endpoint frame result (some phase)) :
    Stands result phase := by
  rcases step with ⟨type, session, completed, coherent, msgType, position, rfl⟩
  have taken :
      Taken { endpoint with session := session }
        (dispatch recvCb outcomes { endpoint with session := session }) := by
    rcases sendable.kind with data | control
    · exact taken_dispatch_data okay endpoint opened coherent completed data
    · exact taken_dispatch_control endpoint opened coherent completed control
  refine ⟨taken.boundary, taken.msgType.trans msgType, ?_⟩
  rw [taken.utf8State]
  exact position

/-- A frame that is complete is taken, unless a callback fails. -/
theorem stands_or_error {endpoint result : Endpoint App}
    (opened : endpoint.conn = .opened)
    (sendable : Sendable frame)
    {phase : Phase}
    (step : FrameStep recvCb outcomes endpoint frame result (some phase)) :
    Stands result phase ∨ result.session.state = .error := by
  rcases step with ⟨type, session, completed, coherent, msgType, position, rfl⟩
  have standing :
      Taken { endpoint with session := session }
          (dispatch recvCb outcomes { endpoint with session := session }) →
        Stands
          (dispatch recvCb outcomes { endpoint with session := session })
          phase := by
    intro taken
    refine ⟨taken.boundary, taken.msgType.trans msgType, ?_⟩
    rw [taken.utf8State]
    exact position
  rcases sendable.kind with data | control
  · have sends :=
      session_invokeRecvCallback (onlySends_callRecvCb recvCb)
        { endpoint with session := session }
    rw [dispatch_data endpoint completed data] at standing ⊢
    rcases called :
        invokeRecvCallback (callRecvCb recvCb)
          { endpoint with session := session }
      with ⟨_ | errno, later⟩
    · rw [called] at sends standing
      exact
        Or.inl
          (standing
            (taken_afterCallback { endpoint with session := session }
              opened completed.state coherent rfl (Or.inl sends)))
    · exact Or.inr (stopped_wsErrClose later 1002)
  · exact
      Or.inl
        (standing
          (taken_dispatch_control endpoint opened coherent completed control))

/-- A run over frames of a client, whatever the callbacks return. -/
theorem framesTo_or_fails (recvCb : RecvCb App) (outcomes : List SendOutcome)
    {phase : Phase}
    (stands : Stands endpoint phase)
    (sendable : ∀ frame ∈ frames, Sendable frame.toFrame)
    (harmless : HarmlessAlong phase (frames.map ClientFrame.toFrame)) :
    ∃ result,
      FramesTo recvCb outcomes endpoint frames result ∧
        (result.session.state = .error ∨
          ∃ later,
            follow phase (frames.map ClientFrame.toFrame) =
                some later ∧
              Stands result later) := by
  induction frames generalizing endpoint phase with
  | nil => exact ⟨endpoint, FramesTo.nil endpoint, Or.inr ⟨phase, rfl, stands⟩⟩
  | cons frame rest ih =>
      have here := sendable frame (List.mem_cons_self ..)
      have later :=
        fun other member => sendable other (List.mem_cons_of_mem _ member)
      rcases frameStep_encode stands frame here harmless.1
        with ⟨middle, reads, step⟩
      have failed :
          middle.session.state = .error →
            ∃ result,
              FramesTo recvCb outcomes endpoint (frame :: rest) result ∧
                (result.session.state = .error ∨
                  ∃ later,
                    follow phase
                        ((frame :: rest).map ClientFrame.toFrame) =
                        some later ∧
                      Stands result later) :=
        fun error =>
          ⟨middle,
            FramesTo.cons reads (framesTo_stopped (Or.inr error) rest),
            Or.inl error⟩
      rcases next : phase.next frame.toFrame with _ | phase'
      · rw [next] at step
        exact failed step
      · rw [next] at step
        rcases stands_or_error stands.boundary.opened here step
          with stands' | error
        · rcases
              ih stands' later (harmless.2 phase' next)
            with ⟨result, reads', after⟩
          refine ⟨result, FramesTo.cons reads reads', ?_⟩
          rw [List.map_cons, follow, next, Option.bind_some]
          exact after
        · exact failed error

/--
A run over frames of a client: the frames lead from phase to phase, or the session
fails.
-/
theorem walk_or_fails (okay : AlwaysOkay recvCb) (outcomes : List SendOutcome)
    {phase : Phase}
    (stands : Stands endpoint phase)
    (sendable : ∀ frame ∈ frames, Sendable frame.toFrame)
    (harmless : HarmlessAlong phase (frames.map ClientFrame.toFrame)) :
    ∃ result,
      match follow phase (frames.map ClientFrame.toFrame) with
      | none =>
          FramesTo recvCb outcomes endpoint frames result ∧
            result.session.state = .error
      | some later =>
          Walk recvCb outcomes endpoint frames result ∧
            Stands result later := by
  induction frames generalizing endpoint phase with
  | nil => exact ⟨endpoint, Walk.nil endpoint, stands⟩
  | cons frame rest ih =>
      have here := sendable frame (List.mem_cons_self ..)
      have later :=
        fun other member => sendable other (List.mem_cons_of_mem _ member)
      rcases frameStep_encode stands frame here harmless.1
        with ⟨middle, reads, step⟩
      rw [List.map_cons, follow]
      rcases next : phase.next frame.toFrame with _ | phase'
      · rw [next] at step
        exact
          ⟨middle,
            FramesTo.cons reads (framesTo_stopped (Or.inr step) rest),
            step⟩
      · rw [next] at step
        have stands' :=
          stands_of_frameStep okay stands.boundary.opened here step
        rcases
            ih stands' later (harmless.2 phase' next)
          with ⟨result, after⟩
        refine ⟨result, ?_⟩
        rw [Option.bind_some]
        rcases followed : follow phase' (rest.map ClientFrame.toFrame)
          with _ | last
        · rw [followed] at after
          exact ⟨FramesTo.cons reads after.1, after.2⟩
        · rw [followed] at after
          exact ⟨Walk.cons reads step stands' after.1, after.2⟩

/-- A frame with a key of its own. -/
def keyed (flags : UInt8) (payload : Bytes) : ClientFrame where
  flags := flags
  payload := payload
  key := fun index => if index = 0 then 0x5a else 0xc3

/-- Every byte of the frames is a read of its own. -/
def byByte (frames : List ClientFrame) : List Bytes :=
  (frames.flatMap ClientFrame.encode).map fun byte => [byte]

theorem flatten_byByte (frames : List ClientFrame) :
    (byByte frames).flatten = frames.flatMap ClientFrame.encode := by
  rw [byByte]
  induction frames.flatMap ClientFrame.encode with
  | nil => rfl
  | cons byte rest ih =>
      rw [List.map_cons, List.flatten_cons, ih]
      rfl

end Yimmo.Ws.Frames
