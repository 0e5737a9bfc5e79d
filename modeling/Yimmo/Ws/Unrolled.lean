import Yimmo.Ws.ChunkIndependence

/-!
# Reads by calls of the parse functions

`ReadsTo` says what a read comes to, and that it may be cut anywhere.  A call of a
parse function unrolls a read: it fails, or what is left of the buffer is read from
where the call has left the endpoint.
-/

namespace Yimmo.Ws.Unrolled

open Yimmo.Core.StatusCode
open Yimmo.Core.Net
open Yimmo.Core.Utf8
open Yimmo.Lib.GuardedRun
open Yimmo.Ws.Parse
open Yimmo.Ws.Session
open Yimmo.Ws.ReadLoop
open Yimmo.Ws.Congruence
open Yimmo.Ws.ChunkIndependence

variable
    {App : Type}
    {recvCb : RecvCb App}
    {outcomes : List SendOutcome}
    {endpoint : Endpoint App}

/-- The read comes to the endpoint, and may be cut anywhere. -/
structure ReadsTo
    (recvCb : RecvCb App)
    (outcomes : List SendOutcome)
    (endpoint : Endpoint App)
    (received : Bytes)
    (result : Endpoint App) :
    Prop where
  read : ymoReadCb recvCb outcomes endpoint received = result
  along : AllAlong (readByte recvCb outcomes) OutsideText endpoint received

/-- The read comes to what the rest of it comes to from another endpoint. -/
def Unrolls (recvCb : RecvCb App) (outcomes : List SendOutcome)
    (endpoint : Endpoint App)
    (received : Bytes)
    (later : Endpoint App)
    (rest : Bytes) :
    Prop :=
  ∀ result,
    ReadsTo recvCb outcomes later rest result →
      ReadsTo recvCb outcomes endpoint received result

theorem readsTo_nil (endpoint : Endpoint App) :
    ReadsTo recvCb outcomes endpoint [] endpoint :=
  ⟨ymoReadCb_nil recvCb outcomes endpoint, trivial⟩

theorem Unrolls.trans {first second third : Endpoint App}
    {received middle rest : Bytes}
    (front : Unrolls recvCb outcomes first received second middle)
    (back : Unrolls recvCb outcomes second middle third rest) :
    Unrolls recvCb outcomes first received third rest :=
  fun result reads => front result (back result reads)

/-- A read that is unrolled to its end. -/
theorem Unrolls.readsTo {endpoint later : Endpoint App} {received : Bytes}
    (unrolls : Unrolls recvCb outcomes endpoint received later []) :
    ReadsTo recvCb outcomes endpoint received later :=
  unrolls later (readsTo_nil later)

/-! ## Cutting a call of a parse function -/

/-- What a session that has stopped receives may be cut anywhere. -/
theorem allAlong_stopped (stopped : Stopped endpoint.session)
    (received : Bytes) :
    AllAlong (readByte recvCb outcomes) OutsideText endpoint received := by
  induction received with
  | nil => trivial
  | cons byte rest ih =>
      refine ⟨?_, ?_⟩
      · rintro ⟨connected, _⟩
        rw [Stopped, connected] at stopped
        rcases stopped with stopped | stopped
        · cases stopped
        · cases stopped
      · rw [readByte, ymoReadCb_of_stopped recvCb outcomes stopped]
        exact ih

theorem outsideText_of_same {left right : Endpoint App}
    (same : Same left right)
    {byte : UInt8}
    (outside : OutsideText left byte) :
    OutsideText right byte := by
  rcases same with ⟨utf8State, _, rfl⟩ | same
  · exact outside
  · rintro ⟨connected, _⟩
    have stopped := same.stopped
    rw [Stopped, same.session.state, connected] at stopped
    rcases stopped with stopped | stopped
    · cases stopped
    · cases stopped

theorem allAlong_of_same {left right : Endpoint App}
    (sound : Sound left.session)
    (same : Same left right)
    {received : Bytes}
    (along : AllAlong (readByte recvCb outcomes) OutsideText left received) :
    AllAlong (readByte recvCb outcomes) OutsideText right received := by
  induction received generalizing left right with
  | nil => trivial
  | cons byte rest ih =>
      exact
        ⟨outsideText_of_same same along.1,
          ih
            (sound_ymoReadCb recvCb outcomes sound [byte])
            (same_ymoReadCb recvCb outcomes sound same [byte]) along.2⟩

/-- A call of a parse function may be cut, if what is left may be. -/
theorem allAlong_of_parsed
    (opened : endpoint.conn = .opened)
    (connected : endpoint.session.state = .connected)
    (coherent : endpoint.session.utf8State.Coherent)
    (ready : WsFrame.Ready endpoint.session.frameIn)
    (safe : ¬ClosesInText endpoint.session)
    (ch : UInt8)
    (rest : Bytes)
    (left :
      ∀ session count,
        parseByState endpoint.session ch rest = (session, .ok count) →
          AllAlong (readByte recvCb outcomes) OutsideText
            (afterParse recvCb outcomes endpoint session)
            ((ch :: rest).drop count)) :
    AllAlong (readByte recvCb outcomes) OutsideText endpoint (ch :: rest) := by
  have sound : Sound endpoint.session := ⟨coherent, Or.inl ⟨connected, ready⟩⟩
  have running : ¬Stopped endpoint.session := by
    rw [Stopped, connected]
    decide
  induction rest generalizing endpoint ch with
  | nil => exact ⟨safe, trivial⟩
  | cons next more ih =>
      refine ⟨safe, ?_⟩
      rw [readByte, ymoReadCb_cons recvCb outcomes opened sound running]
      have parsed := parseByState_sound coherent ready ch []
      rcases peeled connected coherent ready safe ch next more
        with ⟨first, whole, errno, alone, together, alike⟩ |
          ⟨first, alone, together⟩ |
            ⟨first, alone, incomplete, standing, flags, msgType, together⟩
      · rw [alone, afterParsed]
        exact allAlong_stopped (Or.inr (stopped_wsErrClose _ _)) _
      · rw [alone, afterParsed, List.drop_one, List.tail_cons, ymoReadCb_nil]
        exact left first 1 together
      · rw [alone] at parsed ⊢
        rw [afterParsed, List.drop_one, List.tail_cons, ymoReadCb_nil,
          afterParse, if_neg incomplete]
        have connected' : first.state = .connected :=
          parsed.state.trans connected
        have ready' : WsFrame.Ready first.frameIn :=
          (parsed.progress 1 rfl).2.resolve_left incomplete
        have safe' : ¬ClosesInText first := by
          rintro ⟨_, stands, closes, text⟩
          rw [standing] at stands
          rw [flags] at closes
          rw [msgType] at text
          exact safe ⟨connected, stands, closes, text⟩
        have running' : ¬Stopped first := by
          rw [Stopped, connected']
          decide
        have goesOn := parseByState_sound parsed.coherent ready' next more
        have opened' : { endpoint with session := first }.conn = .opened :=
          opened
        refine
          ih opened' connected' parsed.coherent ready'
            safe' next ?_ ⟨parsed.coherent, Or.inl ⟨connected', ready'⟩⟩
            running'
        intro session count parsed'
        have parsed'' : parseByState first next more = (session, .ok count) :=
          parsed'
        rw [parsed''] at together goesOn
        rcases together' : parseByState endpoint.session ch (next :: more)
          with ⟨whole, errno | count'⟩
        · rw [together'] at together
          exact False.elim together
        · rw [together'] at together
          rcases together with ⟨rfl, utf8State, alike, rfl⟩
          have along := left _ _ together'
          rw [List.drop_succ_cons] at along
          have connected'' := goesOn.state.trans connected'
          have sound'' :=
            sound_afterParse recvCb outcomes endpoint connected''
              goesOn.coherent (goesOn.progress count rfl).2
          rw [← utf8State_afterParse recvCb outcomes endpoint
            connected''] at alike
          have twins :
              Same
                (Endpoint.withUtf8
                  (afterParse recvCb outcomes endpoint session)
                  utf8State)
                (afterParse recvCb outcomes endpoint session) :=
            Or.inl ⟨_, alike.symm, rfl⟩
          have sound''' :
              Sound
                (Endpoint.withUtf8
                  (afterParse recvCb outcomes endpoint session)
                  utf8State).session :=
            ⟨alike.coherent', sound''.standing⟩
          rw [← afterParse_withUtf8 utf8State recvCb outcomes endpoint
            endpoint.session.utf8State session] at twins sound'''
          exact allAlong_of_same sound''' twins along

/-! ## Unrolling -/

/-- A call of a parse function that succeeds. -/
theorem unrolls_of_parsed {endpoint later : Endpoint App}
    (opened : endpoint.conn = .opened)
    (sound : Sound endpoint.session)
    (connected : endpoint.session.state = .connected)
    (safe : ¬ClosesInText endpoint.session)
    {ch : UInt8}
    {more rest : Bytes}
    {session : WsSession}
    {count : Nat}
    (parsed : parseByState endpoint.session ch more = (session, .ok count))
    (after : afterParse recvCb outcomes endpoint session = later)
    (left : (ch :: more).drop count = rest) :
    Unrolls recvCb outcomes endpoint (ch :: more) later rest := by
  have running : ¬Stopped endpoint.session := by
    rw [Stopped, connected]
    decide
  rintro result ⟨read, along⟩
  constructor
  · rw [ymoReadCb_of_parsed recvCb outcomes opened sound running, parsed]
    dsimp only
    rw [after, left]
    exact read
  · refine
      allAlong_of_parsed opened connected sound.coherent
        (sound.ready running).2 safe ch more fun session' count' same => ?_
    rw [parsed] at same
    cases same
    rw [after, left]
    exact along

/-- A call of a parse function that fails. -/
theorem readsTo_of_refused
    (opened : endpoint.conn = .opened)
    (sound : Sound endpoint.session)
    (connected : endpoint.session.state = .connected)
    (safe : ¬ClosesInText endpoint.session)
    {ch : UInt8}
    {more : Bytes}
    {session : WsSession}
    {errno : Errno}
    (parsed :
      parseByState endpoint.session ch more = (session, .error errno)) :
    ReadsTo recvCb outcomes endpoint (ch :: more)
      (wsErrClose { endpoint with session := session }
        (reasonFromErrno errno)) := by
  have running : ¬Stopped endpoint.session := by
    rw [Stopped, connected]
    decide
  constructor
  · rw [ymoReadCb_of_parsed recvCb outcomes opened sound running, parsed]
  · refine
      allAlong_of_parsed opened connected sound.coherent
        (sound.ready running).2 safe ch more fun session' count' same => ?_
    rw [parsed] at same
    cases same

end Yimmo.Ws.Unrolled
