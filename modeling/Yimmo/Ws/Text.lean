import Yimmo.Ws.Frames

/-!
# Text messages

A text message is the text of its fragments, put together; what stands between the
fragments is not part of it.  `text_accepted` says that a session takes a text
message exactly if it is well-formed, for messages whose control frames are empty
and whose last fragment is not.

A control frame with a payload that comes between two fragments is checked as if it
were text, and the final check is left out when the last fragment is empty.
-/

namespace Yimmo.Ws.Text

open Yimmo.Core.StatusCode
open Yimmo.Core.Net
open Yimmo.Core.Utf8
open Yimmo.Lib.ByteMemory
open Yimmo.Lib.GuardedRun
open Yimmo.Lib.Utf8 (Position WellFormed run_start_iff)
open Yimmo.Ws.Parse
open Yimmo.Ws.Session
open Yimmo.Ws.ReadLoop
open Yimmo.Ws.ChunkIndependence
open Yimmo.Ws.Encode
open Yimmo.Ws.Frames

variable
    {App : Type}
    {text : Bytes}
    {frames : List Frame}

/-! ## Messages -/

/-- The frames of a message after the first one, and the text in them. -/
inductive Continues : List Frame → Bytes → Prop where
  | last {frame : Frame}
      (continues : opCode frame.flags = ymoWsOpContinuation)
      (ends : fin frame.flags = true) :
      Continues [frame] frame.payload
  | more {frame : Frame}
      {rest : List Frame}
      {text : Bytes}
      (continues : opCode frame.flags = ymoWsOpContinuation)
      (goesOn : fin frame.flags = false)
      (later : Continues rest text) :
      Continues (frame :: rest) (frame.payload ++ text)
  | control {frame : Frame}
      {rest : List Frame}
      {text : Bytes}
      (between : isControl (opCode frame.flags) = true)
      (later : Continues rest text) :
      Continues (frame :: rest) text

/-- The frames of a text message, and its text. -/
inductive TextMessage : List Frame → Bytes → Prop where
  | whole {frame : Frame}
      (starts : opCode frame.flags = ymoWsOpText)
      (ends : fin frame.flags = true) :
      TextMessage [frame] frame.payload
  | fragments {frame : Frame}
      {rest : List Frame}
      {text : Bytes}
      (starts : opCode frame.flags = ymoWsOpText)
      (goesOn : fin frame.flags = false)
      (later : Continues rest text) :
      TextMessage (frame :: rest) (frame.payload ++ text)

/-- The frame is no control frame with a payload, and no empty continuation that
ends its message. -/
structure Clean (frame : Frame) : Prop where
  control : isControl (opCode frame.flags) = true → frame.payload = []
  ends :
    opCode frame.flags = ymoWsOpContinuation →
      fin frame.flags = true → frame.payload ≠ []

theorem Clean.harmless {frame : Frame} (clean : Clean frame) (phase : Phase) :
    Harmless phase frame :=
  ⟨fun control => Or.inl (clean.control control), clean.ends⟩

theorem harmlessAlong_of_clean (phase : Phase)
    (clean : ∀ frame ∈ frames, Clean frame) :
    HarmlessAlong phase frames := by
  induction frames generalizing phase with
  | nil => trivial
  | cons frame rest ih =>
      refine ⟨(clean frame (List.mem_cons_self ..)).harmless phase, ?_⟩
      intro later _
      exact
        ih later fun other member =>
          clean other (List.mem_cons_of_mem _ member)

/-! ## Where a message leads -/

/-- The phase when a message has ended. -/
def ended (ran : Option Position) : Option Phase :=
  ran.bind fun position => if position = .start then some .idle else none

theorem textAfter_true (ran : Option Position) :
    textAfter true ran = ended ran :=
  rfl

theorem textAfter_false (ran : Option Position) :
    textAfter false ran = ran.map Phase.text := by
  cases ran <;> rfl

theorem follow_continues (continues : Continues frames text)
    (position : Position) :
    follow (.text position) frames = ended (Lib.Utf8.run position text) := by
  induction continues generalizing position with
  | last continues ends =>
      rw [follow, next_continuation_text position continues, ends,
        textAfter_true]
      cases ended (Lib.Utf8.run position _) <;> rfl
  | more continues goesOn _ ih =>
      rw [follow, next_continuation_text position continues, goesOn,
        textAfter_false, Lib.Utf8.run_append]
      cases Lib.Utf8.run position _ with
      | none => rfl
      | some later => exact ih later
  | control between _ ih =>
      rw [follow, next_control _ between, Option.bind_some]
      exact ih position

/-- A message ends between two characters, or it is refused. -/
theorem follow_message (message : TextMessage frames text) :
    follow .idle frames = ended (Lib.Utf8.run .start text) := by
  cases message with
  | whole starts ends =>
      rw [follow, next_text_idle starts, ends, textAfter_true]
      cases ended (Lib.Utf8.run .start _) <;> rfl
  | fragments starts goesOn later =>
      rw [follow, next_text_idle starts, goesOn, textAfter_false,
        Lib.Utf8.run_append]
      cases Lib.Utf8.run .start _ with
      | none => rfl
      | some position => exact follow_continues later position

theorem ended_of_wellFormed (wellFormed : WellFormed text) :
    ended (Lib.Utf8.run .start text) = some .idle := by
  rw [(run_start_iff text).mpr wellFormed]
  rfl

theorem ended_of_illFormed (illFormed : ¬WellFormed text) :
    ended (Lib.Utf8.run .start text) = none := by
  cases ran : Lib.Utf8.run .start text with
  | none => rfl
  | some position =>
      refine if_neg fun between => illFormed ?_
      rw [← run_start_iff, ran, between]

/-! ## Sessions -/

/-- What a session has been sent: frames up to the end of a message, and then a
text message of clean frames. -/
structure TextSent
    (before message : List ClientFrame)
    (text : Bytes) :
    Prop where
  sendable : ∀ frame ∈ before ++ message, Sendable frame.toFrame
  harmless : HarmlessAlong .idle (before.map ClientFrame.toFrame)
  finished : follow .idle (before.map ClientFrame.toFrame) = some .idle
  isText : TextMessage (message.map ClientFrame.toFrame) text
  clean : ∀ frame ∈ message, Clean frame.toFrame

theorem TextSent.harmlessAlong {before message : List ClientFrame}
    (sent : TextSent before message text) :
    HarmlessAlong .idle ((before ++ message).map ClientFrame.toFrame) := by
  rw [List.map_append]
  refine sent.harmless.append fun phase _ => ?_
  refine harmlessAlong_of_clean phase ?_
  intro frame member
  rcases List.mem_map.mp member with ⟨client, sends, rfl⟩
  exact sent.clean client sends

theorem TextSent.follow {before message : List ClientFrame}
    (sent : TextSent before message text) :
    follow .idle ((before ++ message).map ClientFrame.toFrame) =
      ended (Lib.Utf8.run .start text) := by
  rw [List.map_append, follow_append, sent.finished, Option.bind_some,
    follow_message sent.isText]

/--
A text message after finished ones, in any reads: the session fails no later than
at its last fragment if the text is ill-formed, and stays connected if it is
well-formed and the callbacks take their frames.
-/
theorem text_accepted
    (recvCb : RecvCb App)
    (outcomes : List SendOutcome)
    (memory : Nat → Memory)
    (app : App)
    {before message : List ClientFrame}
    {text : Bytes}
    (sent : TextSent before message text)
    (reads : List Bytes)
    (arrives :
      reads.flatten = (before ++ message).flatMap ClientFrame.encode) :
    (¬WellFormed text →
        (run (ymoReadCb recvCb outcomes) (Endpoint.create memory app)
          reads).session.state = .error) ∧
      (AlwaysOkay recvCb →
        ((run (ymoReadCb recvCb outcomes) (Endpoint.create memory app)
            reads).session.state = .connected ↔
          WellFormed text)) := by
  have sound : Sound (Endpoint.create memory app).session :=
    sound_ymoWsSessionCreate memory
  have follows := sent.follow
  have fails :
      ¬WellFormed text →
        (run (ymoReadCb recvCb outcomes) (Endpoint.create memory app)
          reads).session.state = .error := by
    intro illFormed
    rcases
        framesTo_or_fails recvCb outcomes (stands_create memory app)
          sent.sendable sent.harmlessAlong
      with ⟨result, framesTo, error | ⟨phase, reached, _⟩⟩
    · have same := same_of_framesTo sound framesTo arrives
      exact same.agree.state.trans error
    · rw [follows, ended_of_illFormed illFormed] at reached
      cases reached
  refine ⟨fails, fun okay => ⟨?_, ?_⟩⟩
  · intro connected
    by_contra illFormed
    rw [fails illFormed] at connected
    cases connected
  · intro wellFormed
    rcases
        walk_or_fails okay outcomes (stands_create memory app)
          sent.sendable sent.harmlessAlong
      with ⟨result, after⟩
    rw [follows, ended_of_wellFormed wellFormed] at after
    have same := same_of_framesTo sound after.1.framesTo arrives
    exact same.agree.state.trans after.2.boundary.connected

/-- A message that is cut inside a character, with an empty PING between its
fragments, after another message. -/
def cutCharacter : List ClientFrame × List ClientFrame :=
  ([keyed 0x81 [0x61]], [keyed 0x01 [0xc3], keyed 0x89 [], keyed 0x80 [0xa9]])

theorem textSent_cutCharacter :
    TextSent cutCharacter.1 cutCharacter.2 ([0xc3] ++ [0xa9]) where
  sendable := by decide +kernel
  harmless := by decide +kernel
  finished := by decide
  isText :=
    TextMessage.fragments rfl rfl
      (Continues.control rfl (Continues.last rfl rfl))
  clean := by
    intro frame member
    simp only [cutCharacter, List.mem_cons, List.not_mem_nil,
      or_false] at member
    rcases member with rfl | rfl | rfl
    all_goals exact ⟨by decide, by decide⟩

theorem text_accepted_cutCharacter :
    (run (ymoReadCb takesEverything [])
        (Endpoint.create (fun _ _ => 0) ())
        (byByte (cutCharacter.1 ++ cutCharacter.2))).session.state =
        .connected ↔
      WellFormed ([0xc3] ++ [0xa9]) :=
  (text_accepted takesEverything [] (fun _ _ => 0) ()
    textSent_cutCharacter (byByte (cutCharacter.1 ++ cutCharacter.2))
    (flatten_byByte _)).2 fun _ _ _ => rfl

/-- The payload of a PING between two fragments is checked with them. -/
theorem text_refused_for_ping :
    ¬((run (ymoReadCb takesEverything [])
          (Endpoint.create (fun _ _ => 0) ())
          [[keyed 0x01 [0x61], keyed 0x89 [0xff],
            keyed 0x80 [0x62]].flatMap ClientFrame.encode]).session.state =
          .connected ↔
        WellFormed ([0x61] ++ [0x62])) := by
  intro accepted
  have connected := accepted.mpr ⟨['a', 'b'], by decide +kernel⟩
  exact absurd connected (by decide +kernel)

end Yimmo.Ws.Text
