import Mathlib.Data.List.TakeWhile
import Yimmo.Ws.Frames

/-!
# Buffered messages

This module models `ws_buffer_msg`, which a server with `YMO_WS_SERVER_BUFFERED` has
for its receive callback: data frames are copied into a buffer of
`YMO_WS_MSG_LEN_MAX` bytes, and the callback of the application is called when a
message ends.

`msg_end` moves as the frames are copied and `msg_len` does not, so the application is
called with nothing, and no message is ever too long.  `delivered_iff` says that no
message is delivered as it should be.
-/

namespace Yimmo.Ws.Buffered

open Yimmo.Core.StatusCode
open Yimmo.Lib.ByteMemory
open Yimmo.Ws.Parse
open Yimmo.Ws.Session
open Yimmo.Ws.ChunkIndependence
open Yimmo.Ws.Frames

variable
    {User : Type}
    {frame : Frame}
    (fresh : Memory)

/-! ## The buffer -/

/-- `YMO_WS_MSG_LEN_MAX`, as configured by default. -/
def ymoWsMsgLenMax : Nat :=
  4096

/-- The message buffer of a session, with the state of the application and what
happened: its calls, and where `memcpy` has written. -/
structure MsgBuffer (User : Type) where
  msg : Option Memory
  /-- `msg_end`, from `msg` on. -/
  msgEnd : Nat
  msgLen : Nat
  user : User
  calls : List Frame
  copies : List (Nat × Nat)

/-- The buffer of a new session. -/
def MsgBuffer.create (user : User) : MsgBuffer User where
  msg := none
  msgEnd := 0
  msgLen := 0
  user := user
  calls := []
  copies := []

/-- The difference of two values of type `size_t`. -/
def sizeSub (left right : Nat) : Nat :=
  (left + 2 ^ 64 - right) % 2 ^ 64

/-- The allocation of the message buffer; `fresh` is what stands in it. -/
def allocMsg (fresh : Memory) (buffered : MsgBuffer User) :
    Memory × MsgBuffer User :=
  match buffered.msg with
  | some memory => (memory, buffered)
  | none => (fresh, { buffered with msgEnd := 0, msgLen := 0 })

/-- `ws_buffer_msg`, with `msg_cb`. -/
def wsBufferMsg (fresh : Memory) (msgCb : RecvCb User) :
    RecvCb (MsgBuffer User) :=
  fun buffered flags data =>
    if data.length = 0 then (buffered, { sends := [], status := .okay })
    else
      let (memory, buffered) := allocMsg fresh buffered
      if data.length > sizeSub ymoWsMsgLenMax buffered.msgLen then
        ({ buffered with msg := some memory },
          { sends := [], status := .err .efbig })
      else
        let memory := storeAll memory buffered.msgEnd data
        let buffered :=
          { buffered with
            msg := some memory
            msgEnd := buffered.msgEnd + data.length
            copies := buffered.copies ++ [(buffered.msgEnd, data.length)] }
        if fin flags then
          let msg := bytesAt memory 0 buffered.msgLen
          let (user, reaction) := msgCb buffered.user flags msg
          ({ buffered with
              user := user
              calls := buffered.calls ++ [{ flags := flags, payload := msg }]
              msgEnd := 0
              msgLen := 0 },
            reaction)
        else (buffered, { sends := [], status := .okay })

/-- The calls for some data frames, until one of them fails. -/
def bufferFrames (fresh : Memory) (msgCb : RecvCb User) :
    MsgBuffer User → List Frame → Status × MsgBuffer User
  | buffered, [] => (.okay, buffered)
  | buffered, frame :: rest =>
      match wsBufferMsg fresh msgCb buffered frame.flags frame.payload with
      | (later, reaction) =>
          match reaction.status with
          | .okay => bufferFrames fresh msgCb later rest
          | .err errno => (.err errno, later)

/-! ## Messages -/

/-- A message under a fragmentation: its opcode, its first fragment, and the others. -/
structure Message where
  textual : Bool
  first : Bytes
  rest : List Bytes

/-- The fragments of a message. -/
def Message.fragments (message : Message) : List Bytes :=
  message.first :: message.rest

/-- What a message says. -/
def Message.payload (message : Message) : Bytes :=
  message.fragments.flatten

/-- The frames that continue a message, and end it. -/
def continuations : List Bytes → List Frame
  | [] => []
  | [last] =>
      [{ flags := ymoWsFlagFin ||| ymoWsOpContinuation, payload := last }]
  | fragment :: rest =>
      { flags := ymoWsOpContinuation, payload := fragment } ::
        continuations rest

/-- The data frames of a message. -/
def Message.frames (message : Message) : List Frame :=
  let op := if message.textual then ymoWsOpText else ymoWsOpBinary
  { flags := if message.rest.isEmpty then ymoWsFlagFin ||| op else op
    payload := message.first } ::
    continuations message.rest

/-- The message is not too long for the buffer. -/
def Message.fits (message : Message) : Bool :=
  message.payload.length ≤ ymoWsMsgLenMax

/--
Messages are delivered: the calls are the messages up to one that is too long, which
is refused with `EFBIG`; no copy leaves the buffer, and the buffer is empty between
two messages.
-/
structure Delivered
    (fresh : Memory)
    (msgCb : RecvCb User)
    (user : User)
    (messages : List Message) :
    Prop where
  calls :
    (bufferFrames fresh msgCb (MsgBuffer.create user)
        (messages.flatMap Message.frames)).2.calls.map Frame.payload =
      (messages.takeWhile Message.fits).map Message.payload
  status :
    (bufferFrames fresh msgCb (MsgBuffer.create user)
        (messages.flatMap Message.frames)).1 =
      if messages.all Message.fits then .okay else .err .efbig
  within :
    ∀ copy ∈
      (bufferFrames fresh msgCb (MsgBuffer.create user)
        (messages.flatMap Message.frames)).2.copies,
      copy.1 + copy.2 ≤ ymoWsMsgLenMax
  emptied :
    messages.all Message.fits = true →
      (bufferFrames fresh msgCb (MsgBuffer.create user)
          (messages.flatMap Message.frames)).2.msgEnd = 0

/-! ## Frames -/

/-- The length of the message is not kept, and the calls are with nothing. -/
structure Hollow (buffered : MsgBuffer User) : Prop where
  msgLen : buffered.msgLen = 0
  calls : ∀ call ∈ buffered.calls, call.payload = []

theorem hollow_create (user : User) : Hollow (MsgBuffer.create user) :=
  ⟨rfl, fun _ member => by cases member⟩

theorem sizeSub_zero : sizeSub ymoWsMsgLenMax 0 = ymoWsMsgLenMax := by
  decide

theorem hollow_allocMsg {buffered : MsgBuffer User}
    (hollow : Hollow buffered) :
    Hollow (allocMsg fresh buffered).2 := by
  rw [allocMsg]
  cases buffered.msg with
  | none => exact ⟨rfl, hollow.calls⟩
  | some memory => exact hollow

/-- No frame is refused, and the length stays. -/
theorem hollow_wsBufferMsg {msgCb : RecvCb User} (okay : AlwaysOkay msgCb)
    {buffered : MsgBuffer User}
    (hollow : Hollow buffered)
    (flags : UInt8)
    {data : Bytes}
    (fits : data.length ≤ ymoWsFrameMax) :
    Hollow (wsBufferMsg fresh msgCb buffered flags data).1 ∧
      (wsBufferMsg fresh msgCb buffered flags data).2.status = .okay := by
  have allocated := hollow_allocMsg fresh hollow
  rw [wsBufferMsg]
  generalize allocMsg fresh buffered = result at allocated
  rcases result with ⟨memory, later⟩
  have short : ¬data.length > sizeSub ymoWsMsgLenMax later.msgLen := by
    rw [allocated.msgLen, sizeSub_zero]
    exact Nat.not_lt.mpr fits
  dsimp only
  rw [if_neg short]
  split_ifs
  · exact ⟨hollow, rfl⟩
  · refine ⟨⟨rfl, ?_⟩, okay _ _ _⟩
    intro call member
    rcases List.mem_append.mp member with member | member
    · exact allocated.calls call member
    · rw [List.mem_singleton.mp member, allocated.msgLen]
      rfl
  · exact ⟨⟨allocated.msgLen, allocated.calls⟩, rfl⟩

/-- Over frames of any length that is received, nothing is refused and nothing is
delivered but empty calls. -/
theorem hollow_bufferFrames {msgCb : RecvCb User} (okay : AlwaysOkay msgCb)
    {buffered : MsgBuffer User}
    (hollow : Hollow buffered)
    {frames : List Frame}
    (fits : ∀ frame ∈ frames, frame.payload.length ≤ ymoWsFrameMax) :
    Hollow (bufferFrames fresh msgCb buffered frames).2 ∧
      (bufferFrames fresh msgCb buffered frames).1 = .okay := by
  induction frames generalizing buffered with
  | nil => exact ⟨hollow, rfl⟩
  | cons frame rest ih =>
      rcases
          hollow_wsBufferMsg fresh okay hollow frame.flags
            (fits frame (List.mem_cons_self ..))
        with ⟨hollow', status⟩
      rw [bufferFrames]
      generalize
        wsBufferMsg fresh msgCb buffered frame.flags frame.payload =
          result at hollow' status
      rcases result with ⟨later, reaction⟩
      dsimp only at hollow' status ⊢
      rw [status]
      exact
        ih hollow' fun other member =>
          fits other (List.mem_cons_of_mem _ member)

/-- Empty frames are passed over. -/
theorem bufferFrames_empty (msgCb : RecvCb User) (buffered : MsgBuffer User)
    {frames : List Frame}
    (empty : ∀ frame ∈ frames, frame.payload = []) :
    bufferFrames fresh msgCb buffered frames = (.okay, buffered) := by
  induction frames with
  | nil => rfl
  | cons frame rest ih =>
      have none := empty frame (List.mem_cons_self ..)
      rw [bufferFrames, none]
      exact ih fun other member => empty other (List.mem_cons_of_mem _ member)

/-! ## Messages that are delivered -/

theorem payload_continuations {fragments : List Bytes}
    (member : frame ∈ continuations fragments) :
    frame.payload ∈ fragments := by
  induction fragments with
  | nil => cases member
  | cons fragment rest ih =>
      cases rest with
      | nil =>
          rw [List.mem_singleton.mp member]
          exact List.mem_singleton.mpr rfl
      | cons next more =>
          rcases List.mem_cons.mp member with rfl | later
          · exact List.mem_cons_self ..
          · exact List.mem_cons_of_mem _ (ih later)

/-- The payloads of the frames of a message are its fragments. -/
theorem payload_frames {message : Message} (member : frame ∈ message.frames) :
    frame.payload ∈ message.fragments := by
  rcases List.mem_cons.mp member with rfl | later
  · exact List.mem_cons_self ..
  · exact List.mem_cons_of_mem _ (payload_continuations later)

theorem empty_frames {message : Message} (empty : message.payload = [])
    (member : frame ∈ message.frames) :
    frame.payload = [] :=
  List.flatten_eq_nil_iff.mp empty _ (payload_frames member)

/--
Messages that are received are not delivered as they should be, whatever their
fragmentation, unless there are none.
-/
theorem delivered_iff
    (fresh : Memory)
    {msgCb : RecvCb User}
    (okay : AlwaysOkay msgCb)
    (user : User)
    {messages : List Message}
    (fits :
      ∀ message ∈ messages,
        ∀ fragment ∈ message.fragments, fragment.length ≤ ymoWsFrameMax) :
    Delivered fresh msgCb user messages ↔ messages = [] := by
  constructor
  · intro delivered
    have received :
        ∀ frame ∈ messages.flatMap Message.frames,
          frame.payload.length ≤ ymoWsFrameMax := by
      intro frame member
      rcases List.mem_flatMap.mp member with ⟨message, among, within⟩
      exact fits message among _ (payload_frames within)
    rcases
        hollow_bufferFrames fresh okay (hollow_create user) received
      with ⟨hollow, status⟩
    have every : messages.all Message.fits = true := by
      by_contra long
      have refused := delivered.status
      rw [status, if_neg long] at refused
      cases refused
    have calls := delivered.calls
    have whole : messages.takeWhile Message.fits = messages :=
      List.takeWhile_eq_self_iff.mpr (List.all_eq_true.mp every)
    rw [whole] at calls
    -- Every call is with nothing, so every message would say nothing.
    have empty : ∀ message ∈ messages, message.payload = [] := by
      intro message member
      have called : message.payload ∈ messages.map Message.payload :=
        List.mem_map_of_mem member
      rw [← calls] at called
      rcases List.mem_map.mp called with ⟨call, among, same⟩
      rw [← same]
      exact hollow.calls call among
    have silent :
        ∀ frame ∈ messages.flatMap Message.frames, frame.payload = [] := by
      intro frame member
      rcases List.mem_flatMap.mp member with ⟨message, among, within⟩
      exact empty_frames (empty message among) within
    rw [bufferFrames_empty fresh msgCb (MsgBuffer.create user) silent] at calls
    exact List.map_eq_nil_iff.mp calls.symm
  · rintro rfl
    exact ⟨rfl, rfl, fun _ member => (by cases member), fun _ => rfl⟩

/-- Two binary messages and a text of one fragment. -/
def someMessages : List Message :=
  [{ textual := false, first := [1], rest := [[], [2, 3]] },
    { textual := false, first := [], rest := [] },
    { textual := true, first := [0x61], rest := [] }]

theorem delivered_iff_someMessages :
    Delivered (fun _ => 0) takesEverything () someMessages ↔
      someMessages = [] :=
  delivered_iff (fun _ => 0) (fun _ _ _ => rfl) () (by decide)

/-- A text message of one byte is delivered without the byte. -/
theorem message_lost :
    ¬Delivered (fun _ => 0) takesEverything ()
        [{ textual := true, first := [0x61], rest := [] }] := by
  intro delivered
  exact absurd delivered.calls (by decide)

end Yimmo.Ws.Buffered
