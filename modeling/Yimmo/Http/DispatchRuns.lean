import Yimmo.Http.DispatchEffects

/-!
# Runs that dispatch once

Every turn of the connection is taken apart here: a read call starts where the
last one left the exchange, and leaves it where the next one can start.  The one
place it cannot start in is a request that is complete and whose response is on
the list already: `ymo_proto_http_read` handles such a request once more, and
hangs its response on the list again.

The connection waits in one of the places of `Between`, and every step that does
not offer bytes to an answered request takes it from one to another.
-/

namespace Yimmo.Http.DispatchRuns

open Yimmo.Core.StatusCode
open Yimmo.Core.Net
open Yimmo.Lib.GuardedRun
open Yimmo.Lib.LinkedList
open Yimmo.Lib.TurnLoop
open Yimmo.Http.Exchange
open Yimmo.Http.Parse
open Yimmo.Http.Application
open Yimmo.Http.Reader
open Yimmo.Http.ReadProgress
open Yimmo.Http.KeepAlive
open Yimmo.Http.ReadEffects
open Yimmo.Http.Session
open Yimmo.Http.SessionQueue
open Yimmo.Http.Dispatch
open Yimmo.Http.DispatchEffects

variable
    {conn : Conn}
    {slot : Nat}
    {before after : Conn}
    {stage : Stage}
    {continued : Bool}
    (protoData : HttpProtoData)

/-! ## Between two calls -/

/-- What the session waits with between two calls. -/
inductive Between (conn : Conn) : Prop where
  | absent
      (exchange : conn.exchange = none)
      (answered : ∀ id ∈ conn.requests, Answered conn id)
  | head
      (slot : Nat)
      (exchange : conn.exchange = some slot)
      (phase : HeadPhase (conn.exchanges slot))
      (parser : ParserOk (conn.exchanges slot))
      (idle : unanswered (conn.exchanges slot) = false)
      (answered : ∀ id ∈ conn.requests, Answered conn id)
  | body
      (slot id : Nat)
      (exchange : conn.exchange = some slot)
      (phase : BodyPhase (conn.exchanges slot))
      (parser : ParserOk (conn.exchanges slot))
      (waiting : unanswered (conn.exchanges slot) = true)
      (current : Current conn slot id)
      (undispatched : id ∉ conn.handled)
  | done
      (slot id : Nat)
      (exchange : conn.exchange = some slot)
      (complete : (conn.exchanges slot).state = .complete)
      (idle : unanswered (conn.exchanges slot) = false)
      (own : conn.exchangeResponse slot = some id)
      (handled : id ∈ conn.handled)
      (answered : ∀ id ∈ conn.requests, Answered conn id)
  | refused
      (slot : Nat)
      (exchange : conn.exchange = some slot)
      (error : conn.error = true)
      (idle : unanswered (conn.exchanges slot) = false)
      (answered : ∀ id ∈ conn.requests, Answered conn id)

/-- A step that touches no request leaves the session as it waits. -/
theorem Between.steady (between : Between before)
    (steady : Steady before after)
    (exchanges : after.exchanges = before.exchanges)
    (attached : Attached after) :
    Between after := by
  have same := (steady.exchange attached).2
  cases between with
  | absent exchange answered =>
      exact .absent (same.trans exchange) (steady.answered answered)
  | head slot exchange phase parser idle answered =>
      rw [← exchanges] at phase parser idle
      exact
        .head slot (same.trans exchange) phase parser idle
          (steady.answered answered)
  | body slot id exchange phase parser waiting current undispatched =>
      rw [← exchanges] at phase parser waiting
      exact
        .body slot id (same.trans exchange) phase parser waiting
          (steady.current current) (steady.handled ▸ undispatched)
  | done slot id exchange complete idle own handled answered =>
      rw [← exchanges] at complete idle
      exact
        .done slot id (same.trans exchange) complete idle
          ((congrFun steady.exchangeResponse slot).trans own)
          (steady.handled ▸ handled) (steady.answered answered)
  | refused slot exchange error idle answered =>
      rw [← exchanges] at idle
      exact
        .refused slot (same.trans exchange) (steady.error error) idle
          (steady.answered answered)

/-- The invariant of every connection whose reads never find an answered
request. -/
structure Dispatching (conn : Conn) : Prop where
  listed : ∃ nodes, Listed conn nodes
  owned : Owned conn
  complete :
    ∀ id ∈ conn.requests,
      (conn.exchanges (conn.origin id)).state = .complete → Answered conn id
  between : conn.live = true → Between conn

theorem dispatching_create : Dispatching Conn.create where
  listed :=
    ⟨[],
      { ends := ⟨.nil, fun _ member => nomatch member⟩
        once := List.nodup_nil
        members := fun _ member => nomatch member
        numbered := fun _ member => nomatch member
        kept := fun _ _ member => nomatch member
        handled := List.nodup_nil
        handledNumbered := fun _ member => nomatch member
        requestsNumbered := fun _ member => nomatch member
        hung := rfl }⟩
  owned :=
    { slots := fun _ _ own => nomatch own
      handled := fun _ member => nomatch member }
  complete _ member := nomatch member
  between _ := .absent rfl fun _ member => nomatch member

theorem attached_of_live (live : conn.live = true) : Attached conn := by
  simp only [Conn.live, Bool.and_eq_true, beq_iff_eq,
    Bool.not_eq_true'] at live
  exact ⟨live.1.1.1, live.1.1.2⟩

theorem Dispatching.steady (dispatching : Dispatching before)
    (live : before.live = true)
    (listed : ∃ nodes, Listed after nodes)
    (steady : Steady before after)
    (exchanges : after.exchanges = before.exchanges) :
    Dispatching after where
  listed := listed
  owned :=
    dispatching.owned.of_books
      ⟨exchanges, steady.exchangeResponse, steady.requests, steady.handled⟩
  complete id member finished := by
    rw [steady.requests] at member
    rw [exchanges, steady.origin] at finished
    exact
      Answered.of_books steady.handled steady.declined
        (dispatching.complete id member finished)
  between attached :=
    (dispatching.between live).steady steady exchanges
      (attached_of_live attached)

theorem Dispatching.rests (dispatching : Dispatching before)
    (live : before.live = true)
    (rests : Rests before after) :
    Dispatching after := by
  rcases dispatching.listed with ⟨nodes, listed⟩
  exact
    dispatching.steady live ⟨nodes, listed.of_rests rests⟩
      (Rests.steady rests) rests.exchanges

theorem Dispatching.disconnect (dispatching : Dispatching conn)
    (live : conn.live = true) :
    Dispatching (closeAndFreeConnection conn) := by
  rcases dispatching.listed with ⟨nodes, listed⟩
  have closed := closed_closeAndFreeConnection listed.ends
  exact
    dispatching.steady live (listed.of_closed closed)
      (Untouched.steady closed.toUntouched fun attached =>
        absurd attached.1 closed.connFrees)
      closed.exchanges

theorem Dispatching.writable (dispatching : Dispatching conn)
    (live : conn.live = true)
    (outcomes : List SendOutcome)
    (transition : Status) :
    Dispatching (ymoWriteCb outcomes transition conn) := by
  rcases dispatching.listed with ⟨nodes, listed⟩
  have outgoing := ymoWriteCb_outgoing outcomes transition listed.ends
  exact
    dispatching.steady live (listed.of_outgoing outgoing)
      (Outgoing.steady outgoing)
      (untouched_ymoWriteCb outcomes transition conn).exchanges

theorem Dispatching.call (dispatching : Dispatching conn)
    (live : conn.live = true)
    (id : Nat)
    (call : ResponseCall) :
    Dispatching (callResponse conn id call) := by
  rcases dispatching.listed with ⟨nodes, listed⟩
  exact
    dispatching.steady live ⟨nodes, listed.call id call⟩
      (steady_callResponse conn id call)
      (books_callResponse conn id call).exchanges

/-! ## A read call -/

/-- The session is not in error, and its exchange is complete and has no response
of its own: the request was answered. -/
def findsAnswered (conn : Conn) : Bool :=
  !conn.error &&
    conn.exchange.any fun slot =>
      decide ((conn.exchanges slot).state = .complete) &&
        !unanswered (conn.exchanges slot)

/-- Where a call starts that does not find an answered request. -/
theorem Between.starts (between : Between conn) (calm : conn.error = false)
    (unfinished : findsAnswered conn = false) :
    ParserOk (readyExchange (conn.exchange.map conn.exchanges)) ∧
      ∃ start,
        Starts (conn.exchange.map conn.exchanges) start ∧
          At conn conn.readExchange start := by
  have slots :
      ∀ slot, conn.exchange = some slot → conn.readExchange = slot := by
    intro slot exchange
    rw [Conn.readExchange, exchange]
    rfl
  cases between with
  | absent exchange answered =>
      rw [exchange]
      refine
        ⟨parserOk_create, .absent, .absent,
          .absent (fun _ => exchange) ?_ answered⟩
      rw [Conn.readExchange, exchange]
      rfl
  | head slot exchange phase parser idle answered =>
      rw [slots slot exchange, exchange]
      exact
        ⟨parser, .idle, .head phase idle, .idle (fun _ => exchange) answered⟩
  | body slot id exchange phase parser waiting current undispatched =>
      rw [slots slot exchange, exchange]
      exact
        ⟨parser, .answering true, .body phase waiting,
          .answering true id (fun _ => exchange) current undispatched⟩
  | done slot id exchange complete idle own handled answered =>
      have found : findsAnswered conn = true := by
        simp only [findsAnswered, calm, exchange, Option.any_some,
          complete, idle, decide_true, Bool.not_false, Bool.and_true]
      exact absurd (found.symm.trans unfinished) (by decide)
  | refused slot exchange error idle answered =>
      exact absurd (error.symm.trans calm) (by decide)

/-- What a call leaves, and where the response is: the session waits again. -/
theorem between_of_leaves {result : ReadResult}
    (place : At conn slot stage)
    (leaves : Leaves result (conn.exchanges slot) stage)
    (parser : ∀ exchange, result.exchange = some exchange → ParserOk exchange)
    (sound : result.outcome ≠ .fault)
    (kept :
      ∀ errno,
        result.outcome = .failed errno → ymoIsBlocked (.err errno) = true)
    (attached : Attached conn) :
    Between conn := by
  cases leaves with
  | idle exchange idle resting =>
      cases place with
      | idle session answered =>
          rcases resting with phase | faults
          · exact
              .head slot (session attached) phase
                (parser _ exchange) idle answered
          · exact absurd faults sound
  | refused exchange idle =>
      cases place with
      | refused session error answered =>
          exact .refused slot (session attached) error idle answered
  | answering continued exchange phase waiting incomplete =>
      cases place with
      | answering _ id session current undispatched =>
          exact
            .body slot id (session attached) phase (parser _ exchange)
              waiting current undispatched
  | settled exchange idle resting =>
      cases place with
      | settled id session own handled answered =>
          rcases resting with phase | complete
          · exact
              .head slot (session attached) phase
                (parser _ exchange) idle answered
          · exact
              .done slot id (session attached) complete idle own handled
                answered
  | gone exchange =>
      cases place with
      | gone session answered => exact .absent (session attached) answered
  | dropped errno outcome fatal =>
      exact absurd ((kept errno outcome).symm.trans fatal) (by decide)

/-- A request that is complete was answered, unless the call failed on it. -/
theorem complete_of_leaves {result : ReadResult} (place : At conn slot stage)
    (leaves : Leaves result (conn.exchanges slot) stage)
    (ends : result.outcome = .spin → (conn.exchanges slot).state ≠ .complete)
    {id : Nat}
    (member : id ∈ conn.requests)
    (finished : (conn.exchanges (conn.origin id)).state = .complete) :
    Answered conn id ∨
      (∃ errno, result.outcome = .failed errno) ∧
        conn.exchangeResponse slot = some id := by
  cases leaves with
  | idle exchange idle resting =>
      cases place with
      | idle session answered => exact .inl (answered id member)
  | refused exchange idle =>
      cases place with
      | refused session error answered => exact .inl (answered id member)
  | answering continued exchange phase waiting incomplete =>
      cases place with
      | answering _ own session current undispatched =>
          rcases current.others id member with same | answered
          · subst same
            rw [current.origin] at finished
            rcases incomplete finished with fails | spins
            · exact .inr ⟨fails, current.own⟩
            · exact absurd finished (ends spins)
          · exact .inl answered
  | settled exchange idle resting =>
      cases place with
      | settled own session owned handled answered =>
          exact .inl (answered id member)
  | gone exchange =>
      cases place with
      | gone session answered => exact .inl (answered id member)
  | dropped errno outcome fatal =>
      cases place with
      | dropped answered => exact .inl (answered id member)

/-- The connection after the effects of a call. -/
def performed (protoData : HttpProtoData) (outcomes : List SendOutcome)
    (transition : Status)
    (conn : Conn) :
    Conn :=
  (conn.read protoData).state.effects.foldl
    (perform outcomes transition conn.readExchange)
    (conn.access [.session])

/-- The rest of the turn of `ymo_read_cb`. -/
def settleRead (outcome : ReadOutcome) (slot : Nat) (conn : Conn) : Conn :=
  match outcome with
  | .took count =>
      let conn := conn.access [.conn]
      { conn with
        pending :=
          if conn.state = .shutdown then drained conn.pending
          else conn.pending.advance count }
  | .failed errno =>
      let conn :=
        { conn with
          pending := drained conn.pending
          declined := conn.declined ++ (conn.exchangeResponse slot).toList }
      if ymoIsBlocked (.err errno) then conn
      else closeAndFreeConnection conn
  | .fault => { conn with lost := true }
  | .spin => { conn with lost := true }

theorem readCbTurn_eq (outcomes : List SendOutcome) (transition : Status)
    (conn : Conn) :
    readCbTurn protoData outcomes transition conn =
      settleRead (conn.read protoData).outcome conn.readExchange
        (performed protoData outcomes transition conn) :=
  rfl

/-- A call that is in order: what holds when its effects are carried out, and
what is to hold for the rest of the turn. -/
structure InOrder
    (outcome : ReadOutcome)
    (slot : Nat)
    (conn : Conn) : Prop where
  listed : ∃ nodes, Listed conn nodes
  owned : Owned conn
  complete :
    ∀ id ∈ conn.requests,
      (conn.exchanges (conn.origin id)).state = .complete →
        Answered conn id ∨
          (∃ errno, outcome = .failed errno) ∧
            conn.exchangeResponse slot = some id
  between :
    outcome ≠ .fault →
      (∀ errno,
        outcome = .failed errno → ymoIsBlocked (.err errno) = true) →
        Attached conn → Between conn

theorem performed_inOrder (outcomes : List SendOutcome) (transition : Status)
    (dispatching : Dispatching conn)
    (live : conn.live = true)
    (left : conn.pending.len ≠ 0)
    (calm : conn.error = false)
    (unfinished : findsAnswered conn = false) :
    InOrder (conn.read protoData).outcome conn.readExchange
      (performed protoData outcomes transition conn) := by
  rcases (dispatching.between live).starts calm unfinished
    with ⟨parser, start, starts, place⟩
  have called :
      conn.read protoData =
        ymoProtoHttpRead protoData false
          (conn.exchange.map conn.exchanges) conn.pending.memory
          conn.pending.len := by
    rw [Conn.read, calm]
  have inside :
      ReadInside
        (readStart (conn.exchange.map conn.exchanges)
          conn.pending.memory conn.pending.len) := by
    refine ⟨?_, left⟩
    rw [readStart, ymoHttpSessionIsReadReady_exchange]
    exact parser
  rcases ymoProtoHttpRead_ends protoData starts inside
    with ⟨stage, content, followed, last, leaves⟩
  have parsers :=
    ymoProtoHttpRead_parserOk protoData false parser
      conn.pending.memory (Nat.pos_of_ne_zero left)
  have stops := incomplete_of_spin protoData inside
  rw [← called] at followed last leaves parsers stops
  have rests := rests_access conn [.session]
  have placed : Placed conn.readExchange start (conn.access [.session]) :=
    Placed.of_rests ⟨dispatching.listed, place⟩ rests
  have arrived :
      Placed conn.readExchange stage
        (performed protoData outcomes transition conn) :=
    placed_follow outcomes transition placed followed
  rcases arrived with ⟨listed, reached⟩
  have stays :
      (performed protoData outcomes transition conn).exchanges
          conn.readExchange =
        content :=
    exchanges_performAll outcomes transition conn.readExchange
      (conn.read protoData).state.effects last (conn.access [.session])
  rw [← stays] at leaves
  constructor
  · exact listed
  · exact
      owned_performAll outcomes transition conn.readExchange
        (conn.read protoData).state.effects
        (dispatching.owned.of_books (Untouched.books rests.toUntouched))
  · intro id member finished
    refine complete_of_leaves reached leaves ?_ member finished
    intro spins
    rw [stays]
    exact stops spins last
  · intro sound kept attached
    refine between_of_leaves reached leaves ?_ sound kept attached
    intro exchange same
    rw [same] at parsers
    exact parsers

/-- The session after a call that failed. -/
def declining (slot : Nat) (conn : Conn) : Conn :=
  { conn with
    pending := drained conn.pending
    declined := conn.declined ++ (conn.exchangeResponse slot).toList }

theorem Between.decline (between : Between conn) (slot : Nat) :
    Between (declining slot conn) := by
  have more : ∀ id, Answered conn id → Answered (declining slot conn) id :=
    fun id answered => answered.imp_right (List.mem_append_left _)
  cases between with
  | absent exchange answered =>
      exact .absent exchange fun id member => more id (answered id member)
  | head slot exchange phase parser idle answered =>
      exact
        .head slot exchange phase parser idle
          fun id member => more id (answered id member)
  | body slot id exchange phase parser waiting current undispatched =>
      exact
        .body slot id exchange phase parser waiting
          { current with
            others := fun other member =>
              (current.others other member).imp_right (more other) }
          undispatched
  | done slot id exchange complete idle own handled answered =>
      exact
        .done slot id exchange complete idle own handled
          fun id member => more id (answered id member)
  | refused slot exchange error idle answered =>
      exact
        .refused slot exchange error idle
          fun id member => more id (answered id member)

theorem InOrder.lost {outcome : ReadOutcome}
    (order : InOrder outcome slot conn)
    (other : ∀ errno, outcome ≠ .failed errno) :
    Dispatching { conn with lost := true } := by
  rcases order.listed with ⟨nodes, listed⟩
  refine
    { listed := ⟨nodes, ?_⟩
      owned := order.owned.of_books ⟨rfl, rfl, rfl, rfl⟩
      complete := ?_
      between := ?_ }
  · exact
      listed.transport rfl (fun _ _ => rfl) (Nat.le_refl _) rfl rfl rfl
        (fun other member => .inl member) rfl (fun attached => attached)
  · intro id member finished
    rcases order.complete id member finished with answered | fails
    · exact answered
    · rcases fails.1 with ⟨errno, failed⟩
      exact absurd failed (other errno)
  · intro live
    simp only [Conn.live, Bool.not_true, Bool.and_false,
      Bool.false_and] at live
    nomatch live

/-- The end of the turn keeps the invariant. -/
theorem InOrder.settleRead {outcome : ReadOutcome}
    (order : InOrder outcome slot conn) :
    Dispatching (settleRead outcome slot conn) := by
  rcases order.listed with ⟨nodes, listed⟩
  cases outcome with
  | took count =>
      have rests :
          Rests conn (DispatchRuns.settleRead (.took count) slot conn) :=
        { rests_access conn [.conn] with }
      refine
        { listed := ⟨nodes, listed.of_rests rests⟩
          owned := order.owned.of_books (Untouched.books rests.toUntouched)
          complete := ?_
          between := ?_ }
      · intro id member finished
        rcases order.complete id member finished with answered | fails
        · exact answered
        · rcases fails.1 with ⟨errno, failed⟩
          nomatch failed
      · intro live
        have attached := attached_of_live live
        refine
          (order.between ReadOutcome.noConfusion
            (fun _ failed => ReadOutcome.noConfusion failed)
            (Rests.attached rests attached)).steady
            (Rests.steady rests) rests.exchanges attached
  | failed errno =>
      have declined :
          ∀ id ∈ conn.requests,
            (conn.exchanges (conn.origin id)).state = .complete →
              Answered (declining slot conn) id := by
        intro id member finished
        rcases order.complete id member finished with answered | fails
        · exact answered.imp_right (List.mem_append_left _)
        · exact .inr (List.mem_append_right _ (Option.mem_toList.mpr fails.2))
      have same : Listed (declining slot conn) nodes :=
        listed.transport rfl (fun _ _ => rfl) (Nat.le_refl _) rfl rfl rfl
          (fun other member => .inl member) rfl
          (fun attached => attached)
      have owned : Owned (declining slot conn) :=
        order.owned.of_books ⟨rfl, rfl, rfl, rfl⟩
      cases blocked : ymoIsBlocked (.err errno) with
      | true =>
          have settled :
              DispatchRuns.settleRead (.failed errno) slot conn =
                declining slot conn := by
            simp only [DispatchRuns.settleRead, blocked]
            rfl
          rw [settled]
          refine ⟨⟨nodes, same⟩, owned, declined, fun live => ?_⟩
          refine
            (order.between ReadOutcome.noConfusion ?_
              (attached_of_live live)).decline slot
          intro other failed
          cases failed
          exact blocked
      | false =>
          have settled :
              DispatchRuns.settleRead (.failed errno) slot conn =
                closeAndFreeConnection (declining slot conn) := by
            simp only [DispatchRuns.settleRead, blocked]
            rfl
          have closed := closed_closeAndFreeConnection same.ends
          rw [settled]
          refine
            { listed := same.of_closed closed
              owned := owned.of_books (Untouched.books closed.toUntouched)
              complete := ?_
              between := ?_ }
          · intro id member finished
            rw [closed.requests] at member
            rw [closed.exchanges, closed.origin] at finished
            exact
              Answered.of_books closed.handled closed.declined
                (declined id member finished)
          · intro live
            exact absurd (attached_of_live live).1 closed.connFrees
  | fault => exact order.lost fun _ => ReadOutcome.noConfusion
  | spin => exact order.lost fun _ => ReadOutcome.noConfusion

/-- A read call of a session in error takes the bytes and does nothing. -/
theorem rests_readCbTurn_of_error (outcomes : List SendOutcome)
    (transition : Status)
    (error : conn.error = true) :
    Rests conn (readCbTurn protoData outcomes transition conn) := by
  have called :
      conn.read protoData =
        { outcome := .took conn.pending.len
          exchange := conn.exchange.map conn.exchanges
          state := { error := true, effects := [] } } := by
    rw [Conn.read, error]
    rfl
  have rests :=
    (rests_access conn [.session]).trans
      (rests_access (conn.access [.session]) [.conn])
  rw [readCbTurn_eq, performed, called]
  exact { rests with }

theorem Dispatching.read (outcomes : List SendOutcome) (transition : Status)
    (dispatching : Dispatching conn)
    (live : conn.live = true)
    (left : conn.pending.len ≠ 0)
    (unfinished : findsAnswered conn = false) :
    Dispatching (readCbTurn protoData outcomes transition conn) := by
  cases error : conn.error with
  | true =>
      exact
        dispatching.rests live
          (rests_readCbTurn_of_error protoData outcomes transition error)
  | false =>
      rw [readCbTurn_eq]
      exact
        (performed_inOrder protoData outcomes transition dispatching live
          left error unfinished).settleRead

/-! ## Runs -/

/-- The step does not offer bytes to a session whose request was answered. -/
def offersAnswered (conn : Conn) : Step → Bool
  | .read _ _ =>
      conn.live && decide (conn.pending.len ≠ 0) && findsAnswered conn
  | _ => false

theorem Dispatching.step (protoData : HttpProtoData)
    (dispatching : Dispatching conn)
    (step : Step)
    (unfinished : offersAnswered conn step = false) :
    Dispatching (connStep protoData conn step) := by
  unfold connStep
  split
  · rename_i live
    split
    · cases step with
      | receive data older =>
          dsimp only
          split
          · exact dispatching.rests live { Rests.refl conn with }
          · exact dispatching
      | read outcomes transition => exact dispatching
      | disconnect => exact dispatching.disconnect live
      | writable outcomes transition =>
          exact dispatching.writable live outcomes transition
      | call id call =>
          dsimp only
          split
          · exact dispatching.call live id call
          · exact dispatching
    · rename_i left
      cases step with
      | read outcomes transition =>
          simp only [offersAnswered, live, left, ne_eq,
            not_false_eq_true, decide_true, Bool.true_and] at unfinished
          exact
            dispatching.read protoData outcomes transition live left unfinished
      | _ => exact dispatching
  · exact dispatching

/-- The exchange of the session waits for the rest of the request. -/
def BeingRead (conn : Conn) (id : Nat) : Prop :=
  ∃ slot,
    conn.exchange = some slot ∧
      conn.exchangeResponse slot = some id ∧
        unanswered (conn.exchanges slot) = true

/-- Every complete request was dispatched once and none before it was complete,
no response was put on the list twice, and the list ends. -/
structure DispatchedOnce (conn : Conn) : Prop where
  once : conn.handled.Nodup
  requests : ∀ id ∈ conn.handled, id ∈ conn.requests
  complete :
    ∀ id ∈ conn.requests,
      (conn.exchanges (conn.origin id)).state = .complete → Answered conn id
  others :
    conn.live = true →
      ∀ id ∈ conn.requests, Answered conn id ∨ BeingRead conn id
  waiting : conn.live = true → ∀ id, BeingRead conn id → id ∉ conn.handled
  added : conn.added.Nodup
  list : ∃ nodes, Linked conn.next conn.response nodes ∧ nodes.Nodup
  ends : conn.hung = false

theorem Dispatching.dispatchedOnce (dispatching : Dispatching conn) :
    DispatchedOnce conn := by
  rcases dispatching.listed with ⟨nodes, listed⟩
  refine
    { once := listed.handled
      requests := dispatching.owned.handled
      complete := dispatching.complete
      others := ?_
      waiting := ?_
      added := listed.once
      list := ⟨nodes, listed.ends.linked, listed.ends.linked.nodup⟩
      ends := listed.hung }
  · intro live id member
    cases dispatching.between live with
    | absent exchange answered => exact .inl (answered id member)
    | head slot exchange phase parser idle answered =>
        exact .inl (answered id member)
    | body slot own exchange phase parser waiting current undispatched =>
        rcases current.others id member with same | answered
        · rw [same]
          exact .inr ⟨slot, exchange, current.own, waiting⟩
        · exact .inl answered
    | done slot own exchange complete idle owned handled answered =>
        exact .inl (answered id member)
    | refused slot exchange error idle answered =>
        exact .inl (answered id member)
  · rintro live id ⟨slot, exchange, own, reading⟩
    have answered :
        ∀ other,
          conn.exchange = some other →
            unanswered (conn.exchanges other) = false → False := by
      intro other same idle
      cases exchange.symm.trans same
      exact absurd (reading.symm.trans idle) (by decide)
    cases dispatching.between live with
    | absent none => exact absurd (exchange.symm.trans none) (by simp)
    | head other same phase parser idle =>
        exact (answered other same idle).elim
    | body other first same phase parser waiting current undispatched =>
        cases exchange.symm.trans same
        cases own.symm.trans current.own
        exact undispatched
    | done other first same complete idle =>
        exact (answered other same idle).elim
    | refused other same error idle => exact (answered other same idle).elim

/-! ## Answered requests that are found -/

theorem handled_performAll (outcomes : List SendOutcome) (transition : Status)
    (slot : Nat)
    (effects : List Effect)
    (conn : Conn) :
    conn.handled <+:
      (effects.foldl (perform outcomes transition slot) conn).handled := by
  induction effects generalizing conn with
  | nil => exact List.prefix_refl _
  | cons effect effects ih =>
      have books := books_perform outcomes transition slot conn effect
      have grows :
          conn.handled <+:
            (perform outcomes transition slot conn effect).handled := by
        rw [books.handled]
        cases effect with
        | handler => exact List.prefix_append _ _
        | _ => exact List.prefix_refl _
      exact grows.trans (ih _)

/-- While the response is answering, nothing but the handler is recorded. -/
theorem after_answering {effect : Effect} {later : Stage}
    (after : (Stage.answering continued).after effect = some later) :
    effect = .handler ∨
      (∃ still, later = .answering still) ∧
        ∀ slot conn,
          (recorded slot conn effect).exchangeResponse =
              conn.exchangeResponse ∧
            (recorded slot conn effect).handled = conn.handled := by
  cases effect with
  | handler => exact .inl rfl
  | sendContinue =>
      cases continued <;> cases after
      exact .inr ⟨⟨true, rfl⟩, fun _ _ => ⟨rfl, rfl⟩⟩
  | _ =>
      first
        | cases after
          exact .inr ⟨⟨continued, rfl⟩, fun _ _ => ⟨rfl, rfl⟩⟩
        | cases after

/-- A response that was handled is handled again. -/
theorem repeated_performAll (outcomes : List SendOutcome) (transition : Status)
    {slot id : Nat}
    {effects : List Effect}
    (followed : (Stage.answering continued).follow effects = some stage)
    (moved : ∀ still, stage ≠ .answering still)
    (own : conn.exchangeResponse slot = some id)
    (handled : id ∈ conn.handled) :
    ¬ (effects.foldl (perform outcomes transition slot)
        conn).handled.Nodup := by
  induction effects generalizing continued conn with
  | nil =>
      cases followed
      exact absurd rfl (moved continued)
  | cons effect effects ih =>
      have books := books_perform outcomes transition slot conn effect
      rw [Stage.follow, List.foldlM_cons] at followed
      cases after : (Stage.answering continued).after effect with
      | none =>
          rw [after] at followed
          cases followed
      | some later =>
          rw [after] at followed
          rcases after_answering after with rfl | ⟨⟨still, rfl⟩, same⟩
          · intro nodup
            have first :
                (perform outcomes transition slot conn
                  .handler).handled.Nodup :=
              (handled_performAll outcomes transition slot effects
                _).sublist.nodup nodup
            rw [books.handled] at first
            simp only [recorded, own, Option.toList_some] at first
            exact
              (List.nodup_append.mp first).2.2 id handled id
                List.mem_cons_self rfl
          · apply ih followed
            · rw [books.exchangeResponse, (same slot conn).1]
              exact own
            · rw [books.handled, (same slot conn).2]
              exact handled

/-- A complete request leaves a call only after the handler was called. -/
theorem follow_parseComplete {start : Stage} (exchange : HttpExchange)
    {state : ReadState}
    (reached : start.follow state.effects = some (.answering continued))
    (taken : Nat) :
    ∃ stage,
      start.follow
          (parseComplete protoData exchange state taken).state.effects =
        some stage ∧
        ∀ still, stage ≠ .answering still := by
  have called : start.follow (state.emit .handler).effects = some .handling :=
    Stage.follow_emit reached rfl
  have handling := follow_handlerCallback protoData exchange called
  unfold parseComplete
  dsimp only
  generalize
    handlerCallback protoData exchange (state.emit .handler) = reaction
    at handling
  rcases reaction with ⟨status, after, later⟩
  dsimp only at handling ⊢
  unfold handleCallbackResult
  by_cases okay : status = .okay
  · rw [if_neg (fun fails => fails.1 okay), if_pos okay]
    refine ⟨.settled, ?_, fun _ => Stage.noConfusion⟩
    exact
      Stage.follow_emit
        (Stage.follow_emit (Stage.follow_emit handling rfl) rfl) rfl
  · rw [if_neg okay]
    cases blocked : ymoIsBlocked status with
    | true =>
        rw [if_neg (fun fails => Bool.noConfusion fails.2), if_pos rfl]
        refine ⟨.gone, ?_, fun _ => Stage.noConfusion⟩
        exact
          Stage.follow_emit
            (Stage.follow_emit
              (Stage.follow_emit (Stage.follow_emit handling rfl) rfl)
              rfl)
            rfl
    | false =>
        rw [if_pos ⟨okay, rfl⟩, if_neg Bool.false_ne_true]
        refine ⟨.dropped, ?_, fun _ => Stage.noConfusion⟩
        exact Stage.follow_emit (Stage.follow_emit handling rfl) rfl

/-- The session is found with an answered request: it is the one that is done. -/
theorem Between.found (between : Between conn)
    (found : findsAnswered conn = true) :
    conn.error = false ∧
      ∃ slot id,
        conn.exchange = some slot ∧
          (conn.exchanges slot).state = .complete ∧
            conn.exchangeResponse slot = some id ∧
              id ∈ conn.handled := by
  have complete :
      ∀ slot,
        conn.exchange = some slot →
          conn.error = false ∧
            (conn.exchanges slot).state = .complete ∧
              unanswered (conn.exchanges slot) = false := by
    intro slot exchange
    simpa only [findsAnswered, exchange, Option.any_some,
      Bool.and_eq_true, Bool.not_eq_true', decide_eq_true_eq] using found
  cases between with
  | absent exchange answered =>
      simp only [findsAnswered, exchange, Option.any_none,
        Bool.and_false] at found
      nomatch found
  | head slot exchange phase parser idle answered =>
      have late := phase.1
      rw [(complete slot exchange).2.1] at late
      exact absurd late (by decide)
  | body slot id exchange phase parser waiting current undispatched =>
      exact
        absurd (waiting.symm.trans (complete slot exchange).2.2) (by decide)
  | done slot id exchange state idle own handled answered =>
      exact
        ⟨(complete slot exchange).1, slot, id, exchange, state, own,
          handled⟩
  | refused slot exchange error idle answered =>
      exact absurd (error.symm.trans (complete slot exchange).1) (by decide)

theorem handled_settleRead (outcome : ReadOutcome) (slot : Nat) (conn : Conn) :
    (settleRead outcome slot conn).handled = conn.handled := by
  cases outcome with
  | failed errno =>
      unfold settleRead
      dsimp only
      split
      · rfl
      · exact (untouched_closeAndFreeConnection _).handled
  | _ => rfl

/-- Bytes that are offered to an answered request dispatch it again. -/
theorem not_dispatchedOnce_of_offersAnswered (dispatching : Dispatching conn)
    {step : Step}
    (found : offersAnswered conn step = true) :
    ¬ DispatchedOnce (connStep protoData conn step) := by
  cases step with
  | read outcomes transition =>
      simp only [offersAnswered, Bool.and_eq_true, decide_eq_true_eq] at found
      rcases found with ⟨⟨live, left⟩, finds⟩
      rcases (dispatching.between live).found finds
        with ⟨calm, slot, id, exchange, complete, own, handled⟩
      have stepped :
          connStep protoData conn (.read outcomes transition) =
            readCbTurn protoData outcomes transition conn := by
        simp only [connStep, live, left, if_true, if_false]
      have slotted : conn.readExchange = slot := by
        rw [Conn.readExchange, exchange]
        rfl
      have called :
          conn.read protoData =
            parseComplete protoData (conn.exchanges slot)
              { error := false, effects := [] } 0 := by
        have turn :
            readTurn protoData
                (readStart (some (conn.exchanges slot))
                  conn.pending.memory conn.pending.len) =
              .done
                (parseComplete protoData (conn.exchanges slot)
                  { error := false, effects := [] } 0) := by
          have state :
              (readStart (some (conn.exchanges slot))
                conn.pending.memory
                conn.pending.len).exchange.state = .complete :=
            complete
          unfold readTurn
          rw [state]
          rfl
        rw [Conn.read, calm, exchange]
        exact loop_of_done turn _
      have start :
          (Stage.answering true).follow
              ({ error := false, effects := [] } : ReadState).effects =
            some (.answering true) :=
        rfl
      rcases
        follow_parseComplete protoData (conn.exchanges slot) start 0
        with ⟨stage, followed, moved⟩
      have again :
          ¬ ((parseComplete protoData (conn.exchanges slot)
                { error := false, effects := [] } 0).state.effects.foldl
              (perform outcomes transition slot)
              (conn.access [.session])).handled.Nodup :=
        repeated_performAll outcomes transition followed moved own handled
      intro dispatched
      have nodup := dispatched.once
      rw [stepped, readCbTurn_eq, handled_settleRead, performed, called,
        slotted] at nodup
      exact again nodup
  | _ => nomatch found

/-- A request that does not keep the connection alive, with one byte more. -/
def requestAndByte : List Step :=
  [.receive (bytes "GET / HTTP/1.0\r\n\r\nX") [], .read [] .okay,
    .read [] .okay]

end Yimmo.Http.DispatchRuns
