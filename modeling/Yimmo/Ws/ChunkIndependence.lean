import Yimmo.Lib.GuardedRun
import Yimmo.Ws.Congruence

/-!
# Reads of any length

A byte string comes to the same session, in one read or cut into many.  The first
byte of a read may be taken off: the parse function that gets it alone either
decides what it would have decided on the whole buffer, or goes on to where the
rest of the buffer takes up.

The payload of a close frame is the exception.  Inside a text message it is
checked as if it were text, and the check of its first bytes runs two bytes ahead
of the bytes that were stored.
-/

namespace Yimmo.Ws.ChunkIndependence

open Yimmo.Core.StatusCode
open Yimmo.Core.Net
open Yimmo.Core.Utf8
open Yimmo.Lib.ByteMemory
open Yimmo.Lib.GuardedRun
open Yimmo.Ws.Parse
open Yimmo.Ws.Session
open Yimmo.Ws.ReadLoop
open Yimmo.Ws.Congruence

variable
    {App : Type}
    {session : WsSession}
    {endpoint : Endpoint App}
    {left right : Endpoint App}
    (recvCb : RecvCb App)

/-! ## Endpoints that go on alike -/

/-- What is left of a session that has failed, as far as it is looked at. -/
structure FailedAlike (left right : WsSession) : Prop where
  state : left.state = right.state
  parseState : left.frameIn.parseState = right.frameIn.parseState
  msgType : left.msgType = right.msgType
  sendList : left.sendList = right.sendList
  sendTail : left.sendTail = right.sendTail

/-- Endpoints that have stopped after the same history. -/
structure StoppedAlike (left right : Endpoint App) : Prop where
  stopped : Stopped left.session
  session : FailedAlike left.session right.session
  conn : left.conn = right.conn
  app : left.app = right.app
  calls : left.calls = right.calls
  queued : left.queued = right.queued

/-- Endpoints that no later read can tell apart. -/
def Same (left right : Endpoint App) : Prop :=
  (∃ utf8State,
      Alike left.session.utf8State utf8State ∧
        right = Endpoint.withUtf8 left utf8State) ∨
    StoppedAlike left right

theorem Same.refl (coherent : endpoint.session.utf8State.Coherent) :
    Same endpoint endpoint :=
  Or.inl ⟨endpoint.session.utf8State, Alike.refl coherent, rfl⟩

theorem FailedAlike.symm {left right : WsSession}
    (alike : FailedAlike left right) :
    FailedAlike right left :=
  ⟨alike.state.symm, alike.parseState.symm, alike.msgType.symm,
    alike.sendList.symm, alike.sendTail.symm⟩

theorem FailedAlike.trans {first second third : WsSession}
    (front : FailedAlike first second)
    (back : FailedAlike second third) :
    FailedAlike first third where
  state := front.state.trans back.state
  parseState := front.parseState.trans back.parseState
  msgType := front.msgType.trans back.msgType
  sendList := front.sendList.trans back.sendList
  sendTail := front.sendTail.trans back.sendTail

theorem failedAlike_withUtf8 (session : WsSession) (utf8State : Utf8State) :
    FailedAlike session (WsSession.withUtf8 session utf8State) :=
  ⟨rfl, rfl, rfl, rfl, rfl⟩

theorem Same.symm (same : Same left right) : Same right left := by
  rcases same with ⟨utf8State, alike, rfl⟩ | same
  · exact Or.inl ⟨left.session.utf8State, alike.symm, rfl⟩
  · refine
      Or.inr
        ⟨?_, same.session.symm, same.conn.symm, same.app.symm,
          same.calls.symm, same.queued.symm⟩
    rw [Stopped, ← same.session.state]
    exact same.stopped

theorem Same.trans {first second third : Endpoint App}
    (front : Same first second)
    (back : Same second third) :
    Same first third := by
  rcases front with ⟨middle, alike, rfl⟩ | front
  · rcases back with ⟨last, alike', rfl⟩ | back
    · exact Or.inl ⟨last, alike.trans alike', rfl⟩
    · refine Or.inr ⟨back.stopped, ?_, back.conn, back.app, back.calls,
        back.queued⟩
      exact (failedAlike_withUtf8 first.session middle).trans back.session
  · rcases back with ⟨last, alike', rfl⟩ | back
    · refine Or.inr ⟨front.stopped, ?_, front.conn, front.app,
        front.calls, front.queued⟩
      exact front.session.trans (failedAlike_withUtf8 second.session last)
    · exact
        Or.inr
          ⟨front.stopped, front.session.trans back.session,
            front.conn.trans back.conn, front.app.trans back.app,
            front.calls.trans back.calls,
            front.queued.trans back.queued⟩

/-- Sessions that have failed alike are closed alike. -/
theorem same_wsErrClose {first second : WsSession}
    (connected : first.state = .connected)
    (alike : FailedAlike first second)
    (reason : Nat) :
    Same (wsErrClose { endpoint with session := first } reason)
      (wsErrClose { endpoint with session := second } reason) := by
  rcases first with
    ⟨frame, recv, send, tail, state, type, utf8, memory, blocks⟩
  rcases second with
    ⟨frame', recv', send', tail', state', type', utf8', memory', blocks'⟩
  rcases alike with ⟨sameState, stands, sameType, sends, tails⟩
  dsimp only at connected sameState stands sameType sends tails
  subst connected sameState sameType sends tails
  exact Or.inr ⟨Or.inr rfl, ⟨rfl, stands, rfl, rfl, rfl⟩, rfl, rfl, rfl, rfl⟩

theorem afterParse_withUtf8 (utf8State : Utf8State) (recvCb : RecvCb App)
    (outcomes : List SendOutcome)
    (endpoint : Endpoint App)
    (other : Utf8State)
    (session : WsSession) :
    afterParse recvCb outcomes (Endpoint.withUtf8 endpoint other)
        (WsSession.withUtf8 session utf8State) =
      Endpoint.withUtf8 (afterParse recvCb outcomes endpoint session)
        utf8State := by
  have dispatched :=
    dispatch_withUtf8 utf8State recvCb outcomes
      { endpoint with session := session }
  have stands :
      (WsSession.withUtf8 session utf8State).frameIn = session.frameIn :=
    rfl
  simp only [afterParse, stands]
  split_ifs
  · exact dispatched
  · rfl

theorem utf8State_afterParse (outcomes : List SendOutcome)
    (endpoint : Endpoint App)
    (connected : session.state = .connected) :
    (afterParse recvCb outcomes endpoint session).session.utf8State =
      session.utf8State := by
  rw [afterParse]
  split_ifs
  · have connected' :
        { endpoint with session := session }.session.state = .connected :=
      connected
    exact utf8State_dispatch recvCb outcomes connected'
  · rfl

theorem sound_afterParse
    (outcomes : List SendOutcome)
    (endpoint : Endpoint App)
    (connected : session.state = .connected)
    (coherent : session.utf8State.Coherent)
    (standing :
      session.frameIn.parseState = .complete ∨ WsFrame.Ready session.frameIn) :
    Sound (afterParse recvCb outcomes endpoint session).session := by
  rw [afterParse]
  split_ifs with complete
  · have connected' :
        { endpoint with session := session }.session.state = .connected :=
      connected
    exact sound_dispatch recvCb outcomes connected' coherent
  · exact ⟨coherent, Or.inl ⟨connected, standing.resolve_left complete⟩⟩

/-- Twins read the same bytes to twins. -/
theorem ymoReadCb_twins (outcomes : List SendOutcome)
    (sound : Sound endpoint.session)
    {utf8State : Utf8State}
    (alike : Alike endpoint.session.utf8State utf8State)
    (received : Bytes) :
    ∃ later,
      Alike
          (ymoReadCb recvCb outcomes endpoint received).session.utf8State
          later ∧
        ymoReadCb recvCb outcomes (Endpoint.withUtf8 endpoint utf8State)
            received =
          Endpoint.withUtf8
            (ymoReadCb recvCb outcomes endpoint received) later := by
  induction measured : received.length using Nat.strong_induction_on
    generalizing endpoint utf8State received with
  | _ size ih =>
      by_cases stopped : Stopped endpoint.session
      · have stopped' :
            Stopped (Endpoint.withUtf8 endpoint utf8State).session :=
          stopped
        rw [ymoReadCb_of_stopped recvCb outcomes stopped,
          ymoReadCb_of_stopped recvCb outcomes stopped']
        exact ⟨utf8State, alike, rfl⟩
      by_cases opened : endpoint.conn = .opened
      · rcases sound.ready stopped with ⟨connected, ready⟩
        cases received with
        | nil =>
            rw [ymoReadCb_nil, ymoReadCb_nil]
            exact ⟨utf8State, alike, rfl⟩
        | cons ch rest =>
            have sound' :
                Sound (Endpoint.withUtf8 endpoint utf8State).session :=
              ⟨alike.coherent', sound.standing⟩
            have opened' :
                (Endpoint.withUtf8 endpoint utf8State).conn = .opened :=
              opened
            rw [ymoReadCb_of_parsed recvCb outcomes opened sound stopped,
              ymoReadCb_of_parsed recvCb outcomes opened' sound' stopped]
            have parsed := parseByState_sound sound.coherent ready ch rest
            rcases parseByState_twins alike ch rest with ⟨later, alike', twin⟩
            have twin' :
                parseByState
                  (Endpoint.withUtf8 endpoint utf8State).session ch
                  rest = _ :=
              twin
            rw [twin']
            generalize parseByState endpoint.session ch rest = result
              at parsed alike'
            rcases result with ⟨session, errno | count⟩
            · refine ⟨later, ?_, ?_⟩
              · rw [utf8State_wsErrClose]
                exact alike'
              · exact
                  wsErrClose_withUtf8 later
                    { endpoint with session := session }
                    (reasonFromErrno errno)
            · rcases parsed.progress count rfl with ⟨consumed, standing⟩
              have connected' := parsed.state.trans connected
              dsimp only
              rw [afterParse_withUtf8]
              refine ih _ ?_ ?_ ?_ _ rfl
              · rw [List.length_drop]
                omega
              · exact
                  sound_afterParse recvCb outcomes endpoint connected'
                    parsed.coherent standing
              · rw [utf8State_afterParse recvCb outcomes endpoint connected']
                exact alike'
      · have opened' : (Endpoint.withUtf8 endpoint utf8State).conn ≠ .opened :=
          opened
        rw [ymoReadCb_of_conn recvCb outcomes opened,
          ymoReadCb_of_conn recvCb outcomes opened']
        exact ⟨utf8State, alike, rfl⟩

/-- Endpoints that no read can tell apart stay so. -/
theorem same_ymoReadCb (outcomes : List SendOutcome)
    (sound : Sound left.session)
    (same : Same left right)
    (received : Bytes) :
    Same (ymoReadCb recvCb outcomes left received)
      (ymoReadCb recvCb outcomes right received) := by
  rcases same with ⟨utf8State, alike, rfl⟩ | same
  · exact Or.inl (ymoReadCb_twins recvCb outcomes sound alike received)
  · have stopped : Stopped right.session := by
      rw [Stopped, ← same.session.state]
      exact same.stopped
    rw [ymoReadCb_of_stopped recvCb outcomes same.stopped,
      ymoReadCb_of_stopped recvCb outcomes stopped]
    exact Or.inr same

/-! ## Taking the first byte off -/

/-- The byte about to be parsed is payload of a close frame, and a text message
is open. -/
def ClosesInText (session : WsSession) : Prop :=
  session.state = .connected ∧
    session.frameIn.parseState = .payload ∧
      opCode session.frameIn.flags = ymoWsOpClose ∧
        session.msgType = ymoWsOpText

/-- The first result is what parsing comes to on a buffer, the second what it
comes to after the first byte of the buffer. -/
def Extends : WsSession × Parsed → WsSession × Parsed → Prop
  | (whole, .ok count), (rest, .ok left) =>
      count = left + 1 ∧
        ∃ utf8State,
          Alike rest.utf8State utf8State ∧
            whole = WsSession.withUtf8 rest utf8State
  | (whole, .error errno), (rest, .error errno') =>
      errno = errno' ∧ FailedAlike whole rest
  | _, _ => False

/-- How a parse function fares with the first byte of a buffer alone. -/
inductive Peeled
    (session : WsSession)
    (ch : UInt8)
    (next : UInt8)
    (more : Bytes) :
    Prop where
  /-- The byte is refused, as the buffer is. -/
  | refused (first whole : WsSession) (errno : Errno)
      (alone : parseByState session ch [] = (first, .error errno))
      (together :
        parseByState session ch (next :: more) = (whole, .error errno))
      (alike : FailedAlike whole first)
  /-- The parse function takes no more than the byte. -/
  | taken (first : WsSession)
      (alone : parseByState session ch [] = (first, .ok 1))
      (together : parseByState session ch (next :: more) = (first, .ok 1))
  /-- The parse function goes on. -/
  | goesOn (first : WsSession)
      (alone : parseByState session ch [] = (first, .ok 1))
      (incomplete : first.frameIn.parseState ≠ .complete)
      (standing : first.frameIn.parseState = session.frameIn.parseState)
      (flags : first.frameIn.flags = session.frameIn.flags)
      (msgType : first.msgType = session.msgType)
      (together :
        Extends (parseByState session ch (next :: more))
          (parseByState first next more))

/-- A parse function that looks at one byte only. -/
theorem peeled_of_eq
    (coherent : session.utf8State.Coherent)
    (ready : WsFrame.Ready session.frameIn)
    {ch next : UInt8}
    {more : Bytes}
    (same :
      parseByState session ch (next :: more) = parseByState session ch []) :
    Peeled session ch next more := by
  have sound := parseByState_sound coherent ready ch []
  rcases parsed : parseByState session ch [] with ⟨first, errno | count⟩
  · refine Peeled.refused first first errno parsed ?_ ?_
    · rw [same, parsed]
    · exact ⟨rfl, rfl, rfl, rfl, rfl⟩
  · rw [parsed] at sound
    have consumed := (sound.progress count rfl).1
    rw [List.length_singleton] at consumed
    have one : count = 1 := Nat.le_antisymm consumed.2 consumed.1
    subst one
    exact Peeled.taken first parsed (same.trans parsed)

/-- The parse function goes on to the same session. -/
theorem extends_of_eq {whole rest : WsSession × Parsed}
    (coherent : rest.1.utf8State.Coherent)
    (session : whole.1 = rest.1)
    (counts : whole.2 = rest.2.map (· + 1)) :
    Extends whole rest := by
  rcases whole with ⟨first, parsed⟩
  rcases rest with ⟨second, errno | count⟩
  · dsimp only at session counts
    subst session counts
    exact ⟨rfl, rfl, rfl, rfl, rfl, rfl⟩
  · dsimp only at session counts
    subst session counts
    exact ⟨rfl, first.utf8State, Alike.refl coherent, rfl⟩

/-- The session after one byte of the extended length. -/
def lenExtByte (session : WsSession) (idx : Nat) (ch : UInt8) : WsSession :=
  { session with
    frameIn :=
      { session.frameIn with
        len := session.frameIn.len + ch.toNat * 2 ^ (8 * idx)
        idx := idx } }

theorem ymoWsParseLenExt_cons {idx : Nat}
    (counted : session.frameIn.idx = idx + 1)
    (ch : UInt8)
    (rest : Bytes) :
    ymoWsParseLenExt session (ch :: rest) =
      ((ymoWsParseLenExt (lenExtByte session idx ch) rest).1,
        (ymoWsParseLenExt (lenExtByte session idx ch) rest).2.map
          (· + 1)) := by
  have left :=
    lenExtBytes_idx (session.frameIn.len + ch.toNat * 2 ^ (8 * idx)) idx rest
  unfold ymoWsParseLenExt
  dsimp only [lenExtByte]
  rw [counted, lenExtBytes]
  generalize
    lenExtBytes (session.frameIn.len + ch.toNat * 2 ^ (8 * idx)) idx
      rest = extended at left
  rcases extended with ⟨len, idx'⟩
  dsimp only at left ⊢
  split_ifs
  · rfl
  · rcases
        exists_ymoWsSessionAllocFrame
          { session with
            frameIn := { session.frameIn with len := len, idx := idx' } }
          len
      with ⟨buffer, bufLen, blocks, _ | errno, allocated⟩
    · rw [allocated]
      rfl
    · rw [allocated]
      rfl
  · refine Prod.ext rfl ?_
    refine congrArg Except.ok ?_
    show idx + 1 - idx' = idx - idx' + 1
    omega

theorem peeled_lenExt (coherent : session.utf8State.Coherent)
    (ready : WsFrame.Ready session.frameIn)
    (stands : session.frameIn.parseState = .lenExtended)
    (ch next : UInt8)
    (more : Bytes) :
    Peeled session ch next more := by
  have started :
      session.frameIn.masked = true ∧ session.frameIn.parsed = 0 ∧
        0 < session.frameIn.idx := by
    rw [WsFrame.Ready, stands] at ready
    exact ready
  have byState :
      ∀ rest,
        parseByState session ch rest =
          ymoWsParseLenExt session (ch :: rest) := by
    intro rest
    rw [parseByState, stands]
  rcases counted : session.frameIn.idx with _ | idx
  · exact absurd counted (Nat.ne_of_gt started.2.2)
  by_cases last : idx = 0
  · refine peeled_of_eq coherent ready ?_
    rw [byState, byState, ymoWsParseLenExt_cons counted,
      ymoWsParseLenExt_cons counted]
    subst last
    rfl
  · have ready' : WsFrame.Ready (lenExtByte session idx ch).frameIn := by
      rw [WsFrame.Ready]
      simp only [lenExtByte, stands]
      exact ⟨started.1, started.2.1, Nat.pos_of_ne_zero last⟩
    have byState' :
        parseByState (lenExtByte session idx ch) next more =
          ymoWsParseLenExt (lenExtByte session idx ch) (next :: more) := by
      simp only [parseByState, lenExtByte, stands]
    refine Peeled.goesOn (lenExtByte session idx ch) ?_ ?_ rfl rfl rfl ?_
    · rw [byState, ymoWsParseLenExt_cons counted]
      rcases idx with _ | idx
      · exact absurd rfl last
      · simp only [ymoWsParseLenExt, lenExtByte, lenExtBytes,
          if_neg (Nat.succ_ne_zero idx), Nat.sub_self]
        rfl
    · exact ready'.not_complete
    · have coherent' : (lenExtByte session idx ch).utf8State.Coherent :=
        coherent
      have sound := parseByState_sound coherent' ready' next more
      refine extends_of_eq sound.coherent ?_ ?_
      · rw [byState, byState', ymoWsParseLenExt_cons counted]
      · rw [byState, byState', ymoWsParseLenExt_cons counted]

/-- The session after one byte of the masking key. -/
def maskingKeyByte (session : WsSession) (ch : UInt8) : WsSession :=
  { session with
    frameIn :=
      { session.frameIn with
        maskingKey := store session.frameIn.maskingKey session.frameIn.idx ch
        idx := session.frameIn.idx + 1 } }

theorem peeled_maskingKey (coherent : session.utf8State.Coherent)
    (ready : WsFrame.Ready session.frameIn)
    (stands : session.frameIn.parseState = .maskingKey)
    (ch next : UInt8)
    (more : Bytes) :
    Peeled session ch next more := by
  have started :
      session.frameIn.masked = true ∧ session.frameIn.parsed = 0 ∧
        session.frameIn.idx < 4 := by
    rw [WsFrame.Ready, stands] at ready
    exact ready
  have byState :
      ∀ rest,
        parseByState session ch rest =
          ymoWsParseMaskingKey session (ch :: rest) := by
    intro rest
    rw [parseByState, stands]
  by_cases last : session.frameIn.idx + 1 = 4
  · refine peeled_of_eq coherent ready ?_
    rw [byState, byState]
    simp only [ymoWsParseMaskingKey, maskingKeyBytes, if_pos last]
  · have inside : session.frameIn.idx + 1 < 4 := by omega
    have ready' : WsFrame.Ready (maskingKeyByte session ch).frameIn := by
      rw [WsFrame.Ready]
      simp only [maskingKeyByte, stands]
      exact ⟨started.1, started.2.1, inside⟩
    have byState' :
        parseByState (maskingKeyByte session ch) next more =
          ymoWsParseMaskingKey (maskingKeyByte session ch) (next :: more) := by
      simp only [parseByState, maskingKeyByte, stands]
    have counted :=
      maskingKeyBytes_idx
        (store session.frameIn.maskingKey session.frameIn.idx ch)
        inside (next :: more)
    rw [List.length_cons] at counted
    have coherent' : (maskingKeyByte session ch).utf8State.Coherent := coherent
    have sound := parseByState_sound coherent' ready' next more
    refine Peeled.goesOn (maskingKeyByte session ch) ?_ ?_ rfl rfl rfl ?_
    · rw [byState]
      simp only [ymoWsParseMaskingKey, maskingKeyByte, started.1,
        Bool.not_true, Bool.false_eq_true, if_false, maskingKeyBytes,
        if_neg last, Nat.add_sub_cancel_left]
    · exact ready'.not_complete
    · refine extends_of_eq sound.coherent ?_ ?_
      · rw [byState, byState']
        simp only [ymoWsParseMaskingKey, maskingKeyByte, started.1,
          Bool.not_true, Bool.false_eq_true, if_false]
        rw [maskingKeyBytes, if_neg last]
        split_ifs <;> rfl
      · rw [byState, byState']
        simp only [ymoWsParseMaskingKey, maskingKeyByte, started.1,
          Bool.not_true, Bool.false_eq_true, if_false]
        rw [maskingKeyBytes, if_neg last]
        generalize
          maskingKeyBytes
            (store session.frameIn.maskingKey session.frameIn.idx ch)
            (session.frameIn.idx + 1) (next :: more) = keyed at counted
        rcases keyed with ⟨key, idx⟩
        dsimp only at counted ⊢
        split_ifs
        all_goals
          refine congrArg Except.ok ?_
          show idx - session.frameIn.idx = idx - (session.frameIn.idx + 1) + 1
          omega

/-- Storing a piece is storing its first byte and then the others. -/
theorem storePayload_cons (session : WsSession) (ch : UInt8) (piece : Bytes) :
    storePayload session (ch :: piece) =
      storePayload (storePayload session [ch]) piece := by
  have count :
      session.frameIn.parsed + (ch :: piece).length =
        session.frameIn.parsed + 1 + piece.length := by
    rw [List.length_cons, Nat.add_assoc, Nat.add_comm piece.length]
  have index :
      session.frameIn.idx + (ch :: piece).length =
        session.frameIn.idx + 1 + piece.length := by
    rw [List.length_cons, Nat.add_assoc, Nat.add_comm piece.length]
  by_cases pong : opCode session.frameIn.flags = ymoWsOpPong
  · simp only [storePayload, unmaskPayload, if_pos pong,
      List.length_singleton, count]
  · simp only [storePayload, unmaskPayload, if_neg pong,
      List.length_singleton, count, index, WsFrame.block,
      Function.update_self, Function.update_idem]
    rfl

/-- The bytes that were stored earlier are left alone. -/
theorem storePayload_before (session : WsSession) (piece : Bytes)
    {offset : Nat}
    (before : offset < session.frameIn.parsed) :
    (storePayload session piece).memory session.frameIn.block offset =
      session.memory session.frameIn.block offset := by
  simp only [storePayload, unmaskPayload]
  split_ifs
  · rfl
  · dsimp only
    rw [Function.update_self, storeAll_outside _ _ _ (Or.inl before)]

theorem extends_afterCheck (session : WsSession) (utf8State : Utf8State)
    (count : Nat)
    {first second : Except Errno Utf8State}
    (checked : CheckAlike first second) :
    Extends (afterCheck session (count + 1) first)
      (afterCheck (WsSession.withUtf8 session utf8State) count second) := by
  rcases first with errno | first
  · rcases second with errno' | second
    · exact ⟨checked, failedAlike_withUtf8 session utf8State⟩
    · exact False.elim checked
  · rcases second with errno' | second
    · exact False.elim checked
    · have finished :=
        payloadDone_withUtf8 first (WsSession.withUtf8 session second)
      simp only [afterCheck]
      split_ifs with done done' done'
      · refine ⟨rfl, first, ?_, finished⟩
        rw [payloadDone_utf8State]
        exact checked.symm
      · exact absurd done done'
      · exact absurd done' done
      · exact ⟨rfl, first, checked.symm, rfl⟩

/-- The payload function on a buffer that starts inside the payload. -/
theorem parseByState_payload
    (inside : session.frameIn.parsed + 1 < session.frameIn.len)
    (stands : session.frameIn.parseState = .payload)
    (ch : UInt8)
    (rest : Bytes) :
    parseByState session ch rest =
      let piece :=
        rest.take (session.frameIn.len - (session.frameIn.parsed + 1))
      afterCheck (storePayload session (ch :: piece)) (piece.length + 1)
        (checkPayload (storePayload session (ch :: piece))
          (checkStart session.frameIn) (piece.length + 1)) := by
  have count :
      session.frameIn.len - session.frameIn.parsed =
        session.frameIn.len - (session.frameIn.parsed + 1) + 1 := by
    omega
  rw [parseByState, stands]
  dsimp only
  rw [ymoWsParsePayload_afterCheck]
  dsimp only
  rw [count, List.take_succ_cons, List.length_cons]

/-- A piece of payload whose first byte is checked alone. -/
theorem peeled_checked
    (inside : session.frameIn.parsed + 1 < session.frameIn.len)
    (stands : session.frameIn.parseState = .payload)
    (ch next : UInt8)
    (more : Bytes)
    {utf8State : Utf8State}
    (alone :
      checkPayload (storePayload session [ch])
        (checkStart session.frameIn) 1 = .ok utf8State)
    (together :
      ∀ piece,
        CheckAlike
          (checkPayload (storePayload session (ch :: piece))
            (checkStart session.frameIn) (piece.length + 1))
          (checkPayload
            (WsSession.withUtf8 (storePayload session (ch :: piece)) utf8State)
            (session.frameIn.parsed + 1) piece.length)) :
    Peeled session ch next more := by
  have first := stored_storePayload session [ch]
  have unfinished :
      (WsSession.withUtf8 (storePayload session [ch])
        utf8State).frameIn.done ≠ true := by
    show ¬(storePayload session [ch]).frameIn.done = true
    rw [WsFrame.done, first.parsed, first.len, beq_iff_eq]
    exact Nat.ne_of_lt inside
  refine
    Peeled.goesOn
      (WsSession.withUtf8 (storePayload session [ch]) utf8State)
      ?_ ?_ first.parseState first.flags first.msgType ?_
  · rw [parseByState_payload inside stands]
    dsimp only
    rw [List.take_nil, List.length_nil, Nat.zero_add, alone, afterCheck,
      if_neg unfinished]
  · show (storePayload session [ch]).frameIn.parseState ≠ .complete
    rw [first.parseState, stands]
    exact fun equality => WsParseState.noConfusion equality
  · have byState :
        parseByState
            (WsSession.withUtf8 (storePayload session [ch]) utf8State)
            next more =
          ymoWsParsePayload
            (WsSession.withUtf8 (storePayload session [ch]) utf8State)
            (next :: more) := by
      have stands' :
          (WsSession.withUtf8 (storePayload session [ch])
            utf8State).frameIn.parseState = .payload :=
        first.parseState.trans stands
      rw [parseByState, stands']
    have frame :
        (WsSession.withUtf8 (storePayload session [ch])
            utf8State).frameIn =
          (storePayload session [ch]).frameIn :=
      rfl
    have start :
        checkStart (storePayload session [ch]).frameIn =
          session.frameIn.parsed + 1 := by
      rw [checkStart, first.parsed]
      exact if_neg fun both => Nat.succ_ne_zero _ both.2
    rw [parseByState_payload inside stands, byState,
      ymoWsParsePayload_afterCheck]
    dsimp only
    rw [frame, start, first.parsed, first.len, List.length_singleton,
      storePayload_withUtf8, ← storePayload_cons]
    exact extends_afterCheck _ _ _ (together _)

/-- A piece of payload whose first byte is refused. -/
theorem peeled_refused
    (inside : session.frameIn.parsed + 1 < session.frameIn.len)
    (stands : session.frameIn.parseState = .payload)
    (ch next : UInt8)
    (more : Bytes)
    (errno : Errno)
    (refused :
      ∀ piece,
        checkPayload (storePayload session (ch :: piece))
          (checkStart session.frameIn) (piece.length + 1) = .error errno) :
    Peeled session ch next more := by
  have failed :
      ∀ rest,
        parseByState session ch rest =
          (storePayload session
              (ch ::
                rest.take
                  (session.frameIn.len - (session.frameIn.parsed + 1))),
            .error errno) := by
    intro rest
    rw [parseByState_payload inside stands]
    dsimp only
    rw [refused, afterCheck]
  refine Peeled.refused _ _ errno (failed []) (failed _) ?_
  have whole :=
    stored_storePayload session
      (ch ::
        (next :: more).take
          (session.frameIn.len - (session.frameIn.parsed + 1)))
  have first :=
    stored_storePayload session
      (ch ::
        ([] : Bytes).take
          (session.frameIn.len - (session.frameIn.parsed + 1)))
  exact
    ⟨whole.state.trans first.state.symm,
      whole.parseState.trans first.parseState.symm,
      whole.msgType.trans first.msgType.symm,
      whole.sendList.trans first.sendList.symm,
      whole.sendTail.trans first.sendTail.symm⟩

/-- Text is checked from where the bytes are stored. -/
theorem checkStart_of_text (connected : session.state = .connected)
    (stands : session.frameIn.parseState = .payload)
    (safe : ¬ClosesInText session)
    (text : checksText session = true) :
    checkStart session.frameIn = session.frameIn.parsed := by
  rw [checkStart]
  refine if_neg fun both => safe ⟨connected, stands, both.1, ?_⟩
  simp only [checksText, both.1, Bool.and_eq_true, Bool.or_eq_true,
    beq_iff_eq] at text
  exact text.1.resolve_left (by decide)

/-- The check of text that was stored, a byte and the others. -/
theorem bytesAt_storePayload_cons (session : WsSession) (ch : UInt8)
    (piece : Bytes) :
    bytesAt
        ((storePayload session (ch :: piece)).memory
          session.frameIn.block)
        session.frameIn.parsed (piece.length + 1) =
      (storePayload session [ch]).memory session.frameIn.block
          session.frameIn.parsed ::
        bytesAt
          ((storePayload session (ch :: piece)).memory
            session.frameIn.block)
          (session.frameIn.parsed + 1) piece.length := by
  have first := stored_storePayload session [ch]
  have before :
      session.frameIn.parsed < (storePayload session [ch]).frameIn.parsed := by
    rw [first.parsed]
    exact Nat.lt_succ_self _
  have kept := storePayload_before (storePayload session [ch]) piece before
  rw [← storePayload_cons, first.block] at kept
  rw [bytesAt_succ, kept]

theorem peeled_payload (connected : session.state = .connected)
    (coherent : session.utf8State.Coherent)
    (ready : WsFrame.Ready session.frameIn)
    (stands : session.frameIn.parseState = .payload)
    (safe : ¬ClosesInText session)
    (ch next : UInt8)
    (more : Bytes) :
    Peeled session ch next more := by
  have started : session.frameIn.parsed < session.frameIn.len := by
    rw [WsFrame.Ready, stands] at ready
    exact ready
  by_cases last : session.frameIn.parsed + 1 = session.frameIn.len
  · refine peeled_of_eq coherent ready ?_
    have one : session.frameIn.len - session.frameIn.parsed = 1 := by omega
    simp only [parseByState, stands, ymoWsParsePayload, one,
      List.take_succ_cons, List.take_zero]
  have inside : session.frameIn.parsed + 1 < session.frameIn.len := by omega
  have first := stored_storePayload session [ch]
  by_cases text : checksText session = true
  · have start := checkStart_of_text connected stands safe text
    have unfinished : (storePayload session [ch]).frameIn.done = false := by
      rw [WsFrame.done, first.parsed, first.len, beq_eq_false_iff_ne]
      exact Nat.ne_of_lt inside
    have alone :
        checkPayload (storePayload session [ch])
            (checkStart session.frameIn) 1 =
          ymoCheckUtf8 session.utf8State
            [(storePayload session [ch]).memory session.frameIn.block
              session.frameIn.parsed]
            false := by
      rw [checkPayload, checksText_storePayload, if_pos text,
        unfinished, start, first.utf8State, first.block, bytesAt_succ]
      rfl
    have whole :
        ∀ piece,
          checkPayload (storePayload session (ch :: piece))
              (checkStart session.frameIn) (piece.length + 1) =
            ymoCheckUtf8 session.utf8State
              ((storePayload session [ch]).memory session.frameIn.block
                  session.frameIn.parsed ::
                bytesAt
                  ((storePayload session (ch :: piece)).memory
                    session.frameIn.block)
                  (session.frameIn.parsed + 1) piece.length)
              ((storePayload session (ch :: piece)).frameIn.done &&
                fin session.frameIn.flags) := by
      intro piece
      have stored := stored_storePayload session (ch :: piece)
      rw [checkPayload, checksText_storePayload, if_pos text, start,
        stored.utf8State, stored.block, stored.flags,
        bytesAt_storePayload_cons]
    have split :=
      fun piece : Bytes =>
        checkAlike_cons coherent
          ((storePayload session [ch]).memory session.frameIn.block
            session.frameIn.parsed)
          (bytesAt
            ((storePayload session (ch :: piece)).memory
              session.frameIn.block)
            (session.frameIn.parsed + 1) piece.length)
          ((storePayload session (ch :: piece)).frameIn.done &&
            fin session.frameIn.flags)
    rcases checked :
        ymoCheckUtf8 session.utf8State
          [(storePayload session [ch]).memory session.frameIn.block
            session.frameIn.parsed]
          false
      with errno | utf8State
    · refine peeled_refused inside stands ch next more errno fun piece => ?_
      have both := split piece
      rw [checked] at both
      rw [whole]
      generalize ymoCheckUtf8 session.utf8State _ _ = result at both
      rcases result with errno' | utf8State
      · exact congrArg Except.error both
      · exact False.elim both
    · refine
        peeled_checked inside stands ch next more (alone.trans checked)
          fun piece => ?_
      have stored := stored_storePayload session (ch :: piece)
      have after :
          checkPayload
              (WsSession.withUtf8 (storePayload session (ch :: piece))
                utf8State)
              (session.frameIn.parsed + 1) piece.length =
            ymoCheckUtf8 utf8State
              (bytesAt
                ((storePayload session (ch :: piece)).memory
                  session.frameIn.block)
                (session.frameIn.parsed + 1) piece.length)
              ((storePayload session (ch :: piece)).frameIn.done &&
                fin session.frameIn.flags) := by
        have text' :
            checksText
                (WsSession.withUtf8 (storePayload session (ch :: piece))
                  utf8State) = true :=
          (checksText_storePayload session (ch :: piece)).trans text
        rw [checkPayload, if_pos text', ← stored.block, ← stored.flags]
        rfl
      have both := split piece
      rw [checked] at both
      rw [whole, after]
      exact both
  · have unchecked :
        ∀ piece start count,
          checkPayload (storePayload session piece) start count =
            .ok session.utf8State := by
      intro piece start count
      rw [checkPayload, checksText_storePayload, if_neg text,
        (stored_storePayload session piece).utf8State]
    refine
      peeled_checked inside stands ch next more (unchecked _ _ _)
        fun piece => ?_
    have text' :
        ¬checksText
            (WsSession.withUtf8 (storePayload session (ch :: piece))
              session.utf8State) = true := by
      show ¬checksText (storePayload session (ch :: piece)) = true
      rw [checksText_storePayload]
      exact text
    rw [unchecked, checkPayload, if_neg text']
    exact Alike.refl coherent

/-- The first byte of a buffer may be parsed alone. -/
theorem peeled (connected : session.state = .connected)
    (coherent : session.utf8State.Coherent)
    (ready : WsFrame.Ready session.frameIn)
    (safe : ¬ClosesInText session)
    (ch next : UInt8)
    (more : Bytes) :
    Peeled session ch next more := by
  cases stands : session.frameIn.parseState with
  | op =>
      refine peeled_of_eq coherent ready ?_
      simp only [parseByState, stands]
  | len =>
      refine peeled_of_eq coherent ready ?_
      simp only [parseByState, stands]
  | lenExtended => exact peeled_lenExt coherent ready stands ch next more
  | maskingKey => exact peeled_maskingKey coherent ready stands ch next more
  | payload =>
      exact peeled_payload connected coherent ready stands safe ch next more
  | complete => exact absurd stands ready.not_complete

/-- What follows a call of a parse function. -/
def afterParsed (recvCb : RecvCb App) (outcomes : List SendOutcome)
    (endpoint : Endpoint App)
    (buffer : Bytes) :
    WsSession × Parsed → Endpoint App
  | (session, .error errno) =>
      wsErrClose { endpoint with session := session } (reasonFromErrno errno)
  | (session, .ok count) =>
      ymoReadCb recvCb outcomes
        (afterParse recvCb outcomes endpoint session)
        (buffer.drop count)

theorem ymoReadCb_cons (outcomes : List SendOutcome)
    (opened : endpoint.conn = .opened)
    (sound : Sound endpoint.session)
    (running : ¬Stopped endpoint.session)
    (ch : UInt8)
    (rest : Bytes) :
    ymoReadCb recvCb outcomes endpoint (ch :: rest) =
      afterParsed recvCb outcomes endpoint (ch :: rest)
        (parseByState endpoint.session ch rest) := by
  rw [ymoReadCb_of_parsed recvCb outcomes opened sound running]
  rcases parseByState endpoint.session ch rest
    with ⟨session, errno | count⟩ <;> rfl

theorem same_afterParsed (outcomes : List SendOutcome)
    (endpoint : Endpoint App)
    {before : WsSession}
    (connected : before.state = .connected)
    {buffer : Bytes}
    {whole rest : WsSession × Parsed}
    (sound : ParseSound before buffer.length rest)
    (together : Extends whole rest)
    (ch : UInt8) :
    Same (afterParsed recvCb outcomes endpoint (ch :: buffer) whole)
      (afterParsed recvCb outcomes { endpoint with session := before }
        buffer rest) := by
  rcases whole with ⟨first, errno | count⟩
  · rcases rest with ⟨second, errno' | count'⟩
    · rcases together with ⟨rfl, alike⟩
      refine same_wsErrClose ?_ alike (reasonFromErrno errno)
      rw [alike.state]
      exact sound.state.trans connected
    · exact False.elim together
  · rcases rest with ⟨second, errno' | count'⟩
    · exact False.elim together
    · rcases together with ⟨rfl, utf8State, alike, rfl⟩
      have connected' := sound.state.trans connected
      have sound' :=
        sound_afterParse recvCb outcomes endpoint connected'
          sound.coherent (sound.progress count' rfl).2
      rw [← utf8State_afterParse recvCb outcomes endpoint connected'] at alike
      have twins :
          Same
            (Endpoint.withUtf8
              (afterParse recvCb outcomes endpoint second) utf8State)
            (afterParse recvCb outcomes endpoint second) :=
        Or.inl ⟨_, alike.symm, rfl⟩
      have sound'' :
          Sound
            (Endpoint.withUtf8
              (afterParse recvCb outcomes endpoint second)
              utf8State).session :=
        ⟨alike.coherent', sound'.standing⟩
      have read :=
        same_ymoReadCb recvCb outcomes sound'' twins (buffer.drop count')
      rw [afterParsed, List.drop_succ_cons]
      rw [← afterParse_withUtf8 utf8State recvCb outcomes endpoint
        endpoint.session.utf8State second] at read
      exact read

/-- The first byte of a buffer may be received alone. -/
theorem same_ymoReadCb_cons (outcomes : List SendOutcome)
    (sound : Sound endpoint.session)
    (safe : ¬ClosesInText endpoint.session)
    (ch : UInt8)
    (rest : Bytes) :
    Same (ymoReadCb recvCb outcomes endpoint (ch :: rest))
      (ymoReadCb recvCb outcomes
        (ymoReadCb recvCb outcomes endpoint [ch]) rest) := by
  by_cases stopped : Stopped endpoint.session
  · simp only [ymoReadCb_of_stopped recvCb outcomes stopped]
    exact Same.refl sound.coherent
  by_cases opened : endpoint.conn = .opened
  · rcases sound.ready stopped with ⟨connected, ready⟩
    cases rest with
    | nil =>
        rw [ymoReadCb_nil]
        exact Same.refl (sound_ymoReadCb recvCb outcomes sound [ch]).coherent
    | cons next more =>
        have parsed := parseByState_sound sound.coherent ready ch []
        rw [ymoReadCb_cons recvCb outcomes opened sound stopped ch
            (next :: more),
          ymoReadCb_cons recvCb outcomes opened sound stopped ch []]
        rcases peeled connected sound.coherent ready safe ch next more
          with ⟨first, whole, errno, alone, together, alike⟩ |
            ⟨first, alone, together⟩ |
              ⟨first, alone, incomplete, _, _, _, together⟩
        · rw [alone] at parsed ⊢
          rw [together, afterParsed, afterParsed,
            ymoReadCb_of_stopped recvCb outcomes
              (Or.inr (stopped_wsErrClose _ _))]
          refine same_wsErrClose ?_ alike _
          rw [alike.state]
          exact parsed.state.trans connected
        · rw [alone] at parsed ⊢
          have sound' :=
            sound_afterParse recvCb outcomes endpoint
              (parsed.state.trans connected) parsed.coherent
              (parsed.progress 1 rfl).2
          rw [together, afterParsed, afterParsed, List.drop_one,
            List.drop_one, List.tail_cons, List.tail_cons,
            ymoReadCb_nil]
          exact Same.refl (sound_ymoReadCb recvCb outcomes sound' _).coherent
        · rw [alone] at parsed ⊢
          have connected' : first.state = .connected :=
            parsed.state.trans connected
          have ready' : WsFrame.Ready first.frameIn :=
            (parsed.progress 1 rfl).2.resolve_left incomplete
          have running' : ¬Stopped first := by
            rw [Stopped, connected']
            decide
          have sound' : Sound { endpoint with session := first }.session :=
            ⟨parsed.coherent, Or.inl ⟨connected', ready'⟩⟩
          have opened' : { endpoint with session := first }.conn = .opened :=
            opened
          have unrolled :
              ymoReadCb recvCb outcomes { endpoint with session := first }
                  (next :: more) = _ :=
            ymoReadCb_cons recvCb outcomes opened' sound' running' next more
          rw [afterParsed, List.drop_one, List.tail_cons, ymoReadCb_nil,
            afterParse, if_neg incomplete, unrolled]
          exact
            same_afterParsed recvCb outcomes endpoint connected'
              (parseByState_sound parsed.coherent ready' next more)
              together ch
  · simp only [ymoReadCb_of_conn recvCb outcomes opened]
    exact Same.refl sound.coherent

/-! ## Reads -/

/-- A read of one byte. -/
def readByte (recvCb : RecvCb App) (outcomes : List SendOutcome)
    (endpoint : Endpoint App)
    (byte : UInt8) :
    Endpoint App :=
  ymoReadCb recvCb outcomes endpoint [byte]

/-- The byte is not payload of a close frame inside a text message. -/
def OutsideText (endpoint : Endpoint App) (_ : UInt8) : Prop :=
  ¬ClosesInText endpoint.session

instance
    (session : WsSession) :
    Decidable (ClosesInText session) :=
  inferInstanceAs (Decidable (_ ∧ _ ∧ _ ∧ _))

instance
    (endpoint : Endpoint App)
    (byte : UInt8) :
    Decidable (OutsideText endpoint byte) :=
  inferInstanceAs (Decidable (¬_))

theorem sound_run (outcomes : List SendOutcome)
    (sound : Sound endpoint.session)
    (reads : List Bytes) :
    Sound (run (ymoReadCb recvCb outcomes) endpoint reads).session :=
  invariant_run_always
    (fun endpoint : Endpoint App => Sound endpoint.session)
    (fun _ received sound => sound_ymoReadCb recvCb outcomes sound received)
    sound reads

theorem same_run (outcomes : List SendOutcome) (sound : Sound left.session)
    (same : Same left right)
    (reads : List Bytes) :
    Same (run (ymoReadCb recvCb outcomes) left reads)
      (run (ymoReadCb recvCb outcomes) right reads) := by
  induction reads generalizing left right with
  | nil => exact same
  | cons received rest ih =>
      exact
        ih
          (sound_ymoReadCb recvCb outcomes sound received)
          (same_ymoReadCb recvCb outcomes sound same received)

theorem same_runByte (outcomes : List SendOutcome) (sound : Sound left.session)
    (same : Same left right)
    (received : Bytes) :
    Same (run (readByte recvCb outcomes) left received)
      (run (readByte recvCb outcomes) right received) := by
  induction received generalizing left right with
  | nil => exact same
  | cons byte rest ih =>
      exact
        ih
          (sound_ymoReadCb recvCb outcomes sound [byte])
          (same_ymoReadCb recvCb outcomes sound same [byte])

theorem sound_bytes (outcomes : List SendOutcome)
    (sound : Sound endpoint.session)
    (received : Bytes) :
    Sound (run (readByte recvCb outcomes) endpoint received).session :=
  invariant_run_always
    (fun endpoint : Endpoint App => Sound endpoint.session)
    (fun _ byte sound => sound_ymoReadCb recvCb outcomes sound [byte])
    sound received

/-- The first bytes of a read may be received one at a time. -/
theorem same_append (outcomes : List SendOutcome)
    (sound : Sound endpoint.session)
    {front : Bytes}
    (guarded : AllAlong (readByte recvCb outcomes) OutsideText endpoint front)
    (back : Bytes) :
    Same (ymoReadCb recvCb outcomes endpoint (front ++ back))
      (ymoReadCb recvCb outcomes
        (run (readByte recvCb outcomes) endpoint front) back) := by
  induction front generalizing endpoint with
  | nil =>
      exact Same.refl (sound_ymoReadCb recvCb outcomes sound back).coherent
  | cons byte rest ih =>
      exact
        (same_ymoReadCb_cons recvCb outcomes sound guarded.1 byte
          (rest ++ back)).trans
          (ih (sound_ymoReadCb recvCb outcomes sound [byte]) guarded.2)

/-- A read comes to what its bytes come to one at a time. -/
theorem same_bytes
    (outcomes : List SendOutcome)
    (sound : Sound endpoint.session)
    {received : Bytes}
    (guarded :
      AllAlong (readByte recvCb outcomes) OutsideText endpoint received) :
    Same (ymoReadCb recvCb outcomes endpoint received)
      (run (readByte recvCb outcomes) endpoint received) := by
  have same := same_append recvCb outcomes sound guarded []
  rw [List.append_nil, ymoReadCb_nil] at same
  exact same

/-- The first bytes of some reads may be received one at a time; what is left of
the reads comes after them. -/
theorem same_reads_append
    (outcomes : List SendOutcome)
    (sound : Sound endpoint.session)
    {reads : List Bytes}
    {front back : Bytes}
    (cut : reads.flatten = front ++ back)
    (guarded :
      AllAlong (readByte recvCb outcomes) OutsideText endpoint front) :
    ∃ left,
      left.flatten = back ∧
        Same (run (ymoReadCb recvCb outcomes) endpoint reads)
          (run (ymoReadCb recvCb outcomes)
            (run (readByte recvCb outcomes) endpoint front) left) := by
  induction reads generalizing endpoint front with
  | nil =>
      rcases List.append_eq_nil_iff.mp cut.symm with ⟨rfl, rfl⟩
      exact ⟨[], rfl, Same.refl sound.coherent⟩
  | cons received rest ih =>
      rw [List.flatten_cons] at cut
      rcases List.append_eq_append_iff.mp cut
        with ⟨middle, rfl, later⟩ | ⟨middle, rfl, later⟩
      · rw [allAlong_append] at guarded
        rw [run_append]
        rcases
            ih
              (sound_bytes recvCb outcomes sound received) later
              guarded.2
          with ⟨left, flattened, same⟩
        refine ⟨left, flattened, ?_⟩
        exact
          (same_run recvCb outcomes
            (sound_ymoReadCb recvCb outcomes sound received)
            (same_bytes recvCb outcomes sound guarded.1) rest).trans
            same
      · refine ⟨middle :: rest, later.symm, ?_⟩
        exact
          same_run recvCb outcomes
            (sound_ymoReadCb recvCb outcomes sound (front ++ middle))
            (same_append recvCb outcomes sound guarded middle) rest

/-- Reads without bytes do nothing. -/
theorem run_silent (outcomes : List SendOutcome) (endpoint : Endpoint App)
    {reads : List Bytes}
    (silent : reads.flatten = []) :
    run (ymoReadCb recvCb outcomes) endpoint reads = endpoint := by
  induction reads with
  | nil => rfl
  | cons received rest ih =>
      rw [List.flatten_cons] at silent
      rcases List.append_eq_nil_iff.mp silent with ⟨rfl, later⟩
      rw [run_cons, ymoReadCb_nil]
      exact ih later

/-- Reads come to what their bytes come to one at a time. -/
theorem same_reads
    (outcomes : List SendOutcome)
    (sound : Sound endpoint.session)
    {reads : List Bytes}
    (guarded :
      AllAlong (readByte recvCb outcomes) OutsideText endpoint reads.flatten) :
    Same (run (ymoReadCb recvCb outcomes) endpoint reads)
      (run (readByte recvCb outcomes) endpoint reads.flatten) := by
  rcases
      same_reads_append recvCb outcomes sound
        (List.append_nil reads.flatten).symm guarded
    with ⟨left, flattened, same⟩
  rw [run_silent recvCb outcomes _ flattened] at same
  exact same

/-- The callbacks, the frames that were queued, and the states of the session,
the parser and the message. -/
structure Agree (left right : Endpoint App) : Prop where
  calls : left.calls = right.calls
  queued : left.queued = right.queued
  state : left.session.state = right.session.state
  parseState :
    left.session.frameIn.parseState = right.session.frameIn.parseState
  msgType : left.session.msgType = right.session.msgType

theorem Agree.symm (agree : Agree left right) : Agree right left :=
  ⟨agree.calls.symm, agree.queued.symm, agree.state.symm,
    agree.parseState.symm, agree.msgType.symm⟩

theorem Agree.trans {first second third : Endpoint App}
    (front : Agree first second)
    (back : Agree second third) :
    Agree first third :=
  ⟨front.calls.trans back.calls, front.queued.trans back.queued,
    front.state.trans back.state,
    front.parseState.trans back.parseState,
    front.msgType.trans back.msgType⟩

theorem Same.agree (same : Same left right) : Agree left right := by
  rcases same with ⟨utf8State, _, rfl⟩ | same
  · exact ⟨rfl, rfl, rfl, rfl, rfl⟩
  · exact
      ⟨same.calls, same.queued, same.session.state,
        same.session.parseState, same.session.msgType⟩

/--
A byte string that is cut into reads comes to what it comes to in one read,
where no payload of a close frame is parsed inside a text message.
-/
theorem reads_agree
    (recvCb : RecvCb App)
    (outcomes : List SendOutcome)
    (memory : Nat → Memory)
    (app : App)
    (reads : List Bytes)
    (guarded :
      AllAlong (readByte recvCb outcomes) OutsideText
        (Endpoint.create memory app) reads.flatten) :
    Agree
      (run (ymoReadCb recvCb outcomes) (Endpoint.create memory app) reads)
      (ymoReadCb recvCb outcomes (Endpoint.create memory app)
        reads.flatten) := by
  have sound : Sound (Endpoint.create memory app).session :=
    sound_ymoWsSessionCreate memory
  have cut := same_reads recvCb outcomes sound guarded
  have whole := same_bytes recvCb outcomes sound guarded
  exact cut.agree.trans whole.agree.symm

/-- A callback that takes every frame. -/
def takesEverything : RecvCb Unit :=
  fun _ _ _ => ((), { sends := [], status := .okay })

/-- A text message of one frame, cut inside its length, its key and its
payload. -/
theorem reads_agree_of_text :
    Agree
      (run (ymoReadCb takesEverything []) (Endpoint.create (fun _ _ => 0) ())
        [[0x81], [0x82, 1, 2], [3, 4, 0x60], [0x60]])
      (ymoReadCb takesEverything [] (Endpoint.create (fun _ _ => 0) ())
        [0x81, 0x82, 1, 2, 3, 4, 0x60, 0x60]) :=
  reads_agree takesEverything [] (fun _ _ => 0) ()
    [[0x81], [0x82, 1, 2], [3, 4, 0x60], [0x60]] (by decide +kernel)

/-- A text message is open when the peer closes with reason 1000.  In one read the
close frame is answered; cut inside the reason it is an invalid text. -/
theorem cut_in_close_reason :
    ¬Agree
      (run (ymoReadCb takesEverything []) (Endpoint.create (fun _ _ => 0) ())
        [[0x01, 0x81, 0, 0, 0, 0, 0x61, 0x88, 0x82, 0, 0, 0, 0, 0x03], [0xe8]])
      (ymoReadCb takesEverything [] (Endpoint.create (fun _ _ => 0) ())
        [0x01, 0x81, 0, 0, 0, 0, 0x61, 0x88, 0x82, 0, 0, 0, 0, 0x03,
          0xe8]) := by
  intro agree
  exact absurd agree.state (by decide +kernel)

end Yimmo.Ws.ChunkIndependence
