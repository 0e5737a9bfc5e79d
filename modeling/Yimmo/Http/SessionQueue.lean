import Yimmo.Http.ReadEffects
import Yimmo.Http.Session

/-!
# The list of responses of a session

The responses of a session hang on `session->response`, linked by `next`.  This
module says what each operation does to that list, and what it leaves alone:
writing and calling on responses never change the links, a response leaves the
list at its head when it was fully sent, and the rest of the list goes when the
session is freed.

`Outgoing` is everything that a write callback can do to the list; the invariants
of later modules are derived from it and from the description of each effect of
a read.
-/

namespace Yimmo.Http.SessionQueue

open Yimmo.Core.StatusCode
open Yimmo.Core.Net
open Yimmo.Lib.LinkedList
open Yimmo.Http.Headers
open Yimmo.Http.Exchange
open Yimmo.Http.Application
open Yimmo.Http.Reader
open Yimmo.Http.Response
open Yimmo.Http.Session

variable
    {conn : Conn}
    {id : Nat}
    {nodes : List Nat}
    {before between after : Conn}
    {behind : List Nat}
    (outcomes : List SendOutcome)
    (memory : HdrMemory)
    (transition : Status)
    (keepalive : Bool)

/-! ## Links -/

/-- What a response points to: the next one, the protocol it changes to, and
the exchange it holds. -/
structure Links where
  next : Option Nat
  protoNew : Option Nat
  exchange : Option Nat
deriving DecidableEq, Repr

def linksOf (response : HttpResponse) : Links where
  next := response.next
  protoNew := response.protoNew
  exchange := response.exchange

theorem linksOf_applyCall (response : HttpResponse) (call : ResponseCall) :
    linksOf (applyCall memory response call) = linksOf response := by
  cases call with
  | bodyAppend data =>
      simp only [applyCall, ymoHttpResponseBodyAppend]
      split <;> rfl
  | issue status =>
      simp only [applyCall, ymoHttpResponseIssue]
      split <;> rfl
  | _ => rfl

theorem linksOf_shouldBufferBody (response : HttpResponse) :
    linksOf (shouldBufferBody memory response).2 = linksOf response := by
  unfold shouldBufferBody
  dsimp only
  split
  · rfl
  · split
    · rfl
    · split <;> rfl

theorem linksOf_ymoHttpResponseStart (response : HttpResponse) :
    linksOf (ymoHttpResponseStart memory response).2 = linksOf response := by
  have decided := linksOf_shouldBufferBody memory response
  unfold ymoHttpResponseStart
  split
  · rfl
  · dsimp only
    split
    · exact decided
    · split
      · exact decided
      · exact decided

/-- Writing does not change where a response points. -/
theorem linksOf_writeResponse (outcomes : List SendOutcome)
    (response : HttpResponse)
    (sendBuffer : List Bucket) :
    linksOf
        (writeResponse memory outcomes response sendBuffer).response =
      linksOf response := by
  have started := linksOf_ymoHttpResponseStart memory response
  unfold writeResponse prepareWrite
  split
  · rename_i prepared
    split at prepared
    · cases prepared
      rfl
    · split at prepared
      · nomatch prepared
      · split at prepared
        · rename_i outcome
          rw [outcome] at started
          cases prepared
          exact started
        · nomatch prepared
  · rename_i prepared
    split at prepared
    · nomatch prepared
    · split at prepared
      · cases prepared
        rfl
      · split at prepared
        · nomatch prepared
        · rename_i outcome
          rw [outcome] at started
          cases prepared
          exact started

/-! ## What writing leaves alone -/

/-- Nothing but the list, the send buffer and the history of sending changes. -/
structure Untouched (before after : Conn) : Prop where
  error : after.error = before.error
  exchanges : after.exchanges = before.exchanges
  exchangeResponse : after.exchangeResponse = before.exchangeResponse
  origin : after.origin = before.origin
  nextExchange : after.nextExchange = before.nextExchange
  nextResponse : after.nextResponse = before.nextResponse
  lost : after.lost = before.lost
  hung : after.hung = before.hung
  requests : after.requests = before.requests
  handled : after.handled = before.handled
  declined : after.declined = before.declined
  added : after.added = before.added
  links : ∀ id, linksOf (after.responses id) = linksOf (before.responses id)

theorem Untouched.refl (conn : Conn) : Untouched conn conn := by
  constructor <;> first | rfl | exact fun _ => rfl

theorem Untouched.trans (first : Untouched before between)
    (second : Untouched between after) :
    Untouched before after where
  error := second.error.trans first.error
  exchanges := second.exchanges.trans first.exchanges
  exchangeResponse := second.exchangeResponse.trans first.exchangeResponse
  origin := second.origin.trans first.origin
  nextExchange := second.nextExchange.trans first.nextExchange
  nextResponse := second.nextResponse.trans first.nextResponse
  lost := second.lost.trans first.lost
  hung := second.hung.trans first.hung
  requests := second.requests.trans first.requests
  handled := second.handled.trans first.handled
  declined := second.declined.trans first.declined
  added := second.added.trans first.added
  links id := (second.links id).trans (first.links id)

theorem Untouched.next {before after : Conn}
    (untouched : Untouched before after) :
    after.next = before.next := by
  funext id
  exact congrArg Links.next (untouched.links id)

theorem Untouched.protoNew {before after : Conn}
    (untouched : Untouched before after)
    (id : Nat) :
    (after.responses id).protoNew = (before.responses id).protoNew :=
  congrArg Links.protoNew (untouched.links id)

/-- The list and its history are as they were, too. -/
structure Rests (before after : Conn) : Prop
    extends Untouched before after where
  response : after.response = before.response
  exchange : after.exchange = before.exchange
  completed : after.completed = before.completed
  freedResponses : after.freedResponses = before.freedResponses
  handedOver : after.handedOver = before.handedOver
  connFrees : after.connFrees = before.connFrees

theorem Rests.refl (conn : Conn) : Rests conn conn :=
  { Untouched.refl conn with
    response := rfl
    exchange := rfl
    completed := rfl
    freedResponses := rfl
    handedOver := rfl
    connFrees := rfl }

theorem Rests.trans (first : Rests before between)
    (second : Rests between after) :
    Rests before after :=
  { first.toUntouched.trans second.toUntouched with
    response := second.response.trans first.response
    exchange := second.exchange.trans first.exchange
    completed := second.completed.trans first.completed
    freedResponses := second.freedResponses.trans first.freedResponses
    handedOver := second.handedOver.trans first.handedOver
    connFrees := second.connFrees.trans first.connFrees }

theorem rests_access (conn : Conn) (objects : List Object) :
    Rests conn (conn.access objects) :=
  { Rests.refl conn with }

/-- A response may change, as long as it points where it did. -/
theorem rests_setResponse (conn : Conn) (id : Nat) {response : HttpResponse}
    (same : linksOf response = linksOf (conn.responses id)) :
    Rests conn (conn.setResponse id response) := by
  refine ⟨?_, rfl, rfl, rfl, rfl, rfl, rfl⟩
  refine { Untouched.refl conn with links := ?_ }
  intro other
  by_cases here : other = id
  · subst here
    simp only [Conn.setResponse, Function.update_self, same]
  · simp only [Conn.setResponse, Function.update_of_ne here]

theorem rests_ymoConnShutdown (conn : Conn) :
    Rests conn (ymoConnShutdown conn) :=
  { Rests.refl conn with }

/-! ## Freeing the session -/

/-- What becomes of the list when the first response leaves it. -/
structure Popped (before : Conn) (id : Nat) (after : Conn) : Prop
    extends Untouched before after where
  response : after.response = before.next id
  exchange : after.exchange = before.exchange
  completed : after.completed = before.completed
  freedResponses : after.freedResponses = before.freedResponses ++ [id]
  handedOver : after.handedOver = before.handedOver
  connFrees : after.connFrees = before.connFrees

theorem popped_ymoHttpSessionCompleteResponse
    (head : conn.response = some id) :
    Popped conn id (ymoHttpSessionCompleteResponse conn) := by
  unfold ymoHttpSessionCompleteResponse
  rw [head]
  exact
    { Rests.refl conn with
      response := rfl
      freedResponses := rfl }

theorem untouched_ymoHttpSessionCompleteResponse (conn : Conn) :
    Untouched conn (ymoHttpSessionCompleteResponse conn) := by
  cases head : conn.response with
  | none =>
      unfold ymoHttpSessionCompleteResponse
      rw [head]
      exact { Untouched.refl conn with }
  | some id => exact (popped_ymoHttpSessionCompleteResponse head).toUntouched

theorem untouched_completeAll (bound : Nat) (conn : Conn) :
    Untouched conn (completeAll bound conn) := by
  induction bound generalizing conn with
  | zero => exact Untouched.refl conn
  | succ bound ih =>
      rw [completeAll]
      split
      · exact (untouched_ymoHttpSessionCompleteResponse conn).trans (ih _)
      · exact Untouched.refl conn

/-- The list is empty: what was on it was freed. -/
structure Emptied
    (before : Conn)
    (nodes : List Nat)
    (after : Conn) : Prop
    extends Untouched before after where
  response : after.response = none
  completed : after.completed = before.completed
  freedResponses : after.freedResponses = before.freedResponses ++ nodes
  handedOver : after.handedOver = before.handedOver
  connFrees : after.connFrees = before.connFrees

theorem emptied_completeAll {bound : Nat}
    (linked : Linked conn.next conn.response nodes)
    (enough : nodes.length ≤ bound) :
    Emptied conn nodes (completeAll bound conn) := by
  have empty :
      ∀ {conn : Conn} {nodes : List Nat},
        Linked conn.next conn.response nodes →
          conn.response = none → Emptied conn nodes conn := by
    intro conn nodes linked none
    rw [none] at linked
    cases linked
    exact ⟨Untouched.refl conn, none, rfl, (List.append_nil _).symm, rfl, rfl⟩
  induction bound generalizing conn nodes with
  | zero =>
      cases nodes with
      | nil =>
          cases head : conn.response with
          | none => exact empty linked head
          | some id =>
              rw [head] at linked
              nomatch linked
      | cons => nomatch enough
  | succ bound ih =>
      rw [completeAll]
      cases head : conn.response with
      | none => exact empty linked head
      | some id =>
          rw [head] at linked
          rcases linked.of_some with ⟨rest, rfl, tail⟩
          have popped := popped_ymoHttpSessionCompleteResponse head
          have goesOn :
              Linked (ymoHttpSessionCompleteResponse conn).next
                (ymoHttpSessionCompleteResponse conn).response rest := by
            rw [popped.next, popped.response]
            exact tail
          have emptied := ih goesOn (Nat.le_of_succ_le_succ enough)
          rw [if_pos (show (some id).isSome = true from rfl)]
          exact
            { popped.toUntouched.trans emptied.toUntouched with
              response := emptied.response
              completed := emptied.completed.trans popped.completed
              freedResponses := by
                rw [emptied.freedResponses, popped.freedResponses,
                  List.append_assoc]
                rfl
              handedOver := emptied.handedOver.trans popped.handedOver
              connFrees := emptied.connFrees.trans popped.connFrees }

theorem completeAll_exchange (bound : Nat) (conn : Conn) :
    (completeAll bound conn).exchange = conn.exchange := by
  induction bound generalizing conn with
  | zero => rfl
  | succ bound ih =>
      rw [completeAll]
      split
      · rw [ih]
        unfold ymoHttpSessionCompleteResponse
        split <;> rfl
      · rfl

theorem untouched_ymoHttpSessionFree (conn : Conn) :
    Untouched conn (ymoHttpSessionFree conn) := by
  let freed := ymoHttpSessionFreeRequest (conn.access [.session, .conn])
  have first : Untouched conn freed := { Untouched.refl conn with }
  have second : Untouched conn (completeAll freed.nextResponse freed) :=
    first.trans (untouched_completeAll freed.nextResponse freed)
  exact { second with }

theorem ymoHttpSessionFree_exchange (conn : Conn) :
    (ymoHttpSessionFree conn).exchange = none :=
  completeAll_exchange _ _

/-- Freeing the session frees every response on the list. -/
theorem emptied_ymoHttpSessionFree
    (linked : Linked conn.next conn.response nodes)
    (enough : nodes.length ≤ conn.nextResponse) :
    Emptied conn nodes (ymoHttpSessionFree conn) := by
  let freed := ymoHttpSessionFreeRequest (conn.access [.session, .conn])
  have emptied : Emptied freed nodes (completeAll conn.nextResponse freed) :=
    emptied_completeAll linked enough
  exact
    { untouched_ymoHttpSessionFree conn with
      response := emptied.response
      completed := emptied.completed
      freedResponses := emptied.freedResponses
      handedOver := emptied.handedOver
      connFrees := emptied.connFrees }

/-! ## Write callbacks -/

/-- The list ends, within the numbers that were given out. -/
structure ListEnds (conn : Conn) (nodes : List Nat) : Prop where
  linked : Linked conn.next conn.response nodes
  bounded : ∀ id ∈ nodes, id < conn.nextResponse

theorem ListEnds.enough (ends : ListEnds conn nodes) :
    nodes.length ≤ conn.nextResponse := by
  have within : nodes ⊆ List.range conn.nextResponse :=
    fun id member => List.mem_range.mpr (ends.bounded id member)
  have shorter := (List.subperm_of_subset ends.linked.nodup within).length_le
  rwa [List.length_range] at shorter

/-- The response at the head was fully sent and has left the list. -/
structure Completed (before : Conn) (id : Nat) (after : Conn) : Prop
    extends Untouched before after where
  response : after.response = before.next id
  exchange : after.exchange = before.exchange
  completed : after.completed = before.completed ++ [id]
  freedResponses : after.freedResponses = before.freedResponses ++ [id]
  handedOver : after.handedOver = before.handedOver
  connFrees : after.connFrees = before.connFrees

/-- It has left the list, and the rest of the list went with the session. -/
structure Transitioned
    (before : Conn)
    (id : Nat)
    (behind : List Nat)
    (after : Conn) : Prop
    extends Untouched before after where
  response : after.response = none
  exchange : after.exchange = none
  completed : after.completed = before.completed ++ [id]
  freedResponses : after.freedResponses = before.freedResponses ++ id :: behind
  handedOver : after.handedOver = true

/-- The connection is freed. -/
structure Closed (before after : Conn) : Prop
    extends Untouched before after where
  response : after.response = none ∨ after.response = before.response
  connFrees : after.connFrees ≠ 0

/-- The write callback completes the response: its last byte is sent. -/
def completes (conn : Conn) (outcomes : List SendOutcome) (id : Nat) : Bool :=
  (writeResponse (conn.memory id) (conn.socket outcomes)
    (conn.responses id) conn.sendBuffer).complete

/-- What a write callback can do to the list. -/
inductive Outgoing
    (outcomes : List SendOutcome)
    (before : Conn)
    (nodes : List Nat)
    (after : Conn) : Prop where
  | rests (same : Rests before after)
  | completes
      (id : Nat)
      (behind : List Nat)
      (split : nodes = id :: behind)
      (sent : completes before outcomes id = true)
      (plain : (before.responses id).protoNew = none)
      (completed : Completed before id after)
  | transitions
      (id : Nat)
      (behind : List Nat)
      (split : nodes = id :: behind)
      (sent : SessionQueue.completes before outcomes id = true)
      (upgrades : (before.responses id).protoNew ≠ none)
      (transitioned : Transitioned before id behind after)
  | closes (closed : Closed before after)

theorem untouched_closeAndFreeConnection (conn : Conn) :
    Untouched conn (closeAndFreeConnection conn) := by
  unfold closeAndFreeConnection
  dsimp only
  split
  · exact { Untouched.refl conn with }
  · have freed :=
      untouched_ymoHttpSessionFree
        { conn.access [.conn] with state := .closed }
    exact { freed with }

theorem closed_closeAndFreeConnection (ends : ListEnds conn nodes) :
    Closed conn (closeAndFreeConnection conn) := by
  refine { untouched_closeAndFreeConnection conn with
    response := ?_
    connFrees := Nat.succ_ne_zero _ }
  unfold closeAndFreeConnection
  dsimp only
  split
  · exact .inr rfl
  · have emptied :
        Emptied { conn.access [.conn] with state := .closed } nodes
          (ymoHttpSessionFree { conn.access [.conn] with state := .closed }) :=
      emptied_ymoHttpSessionFree ends.linked ends.enough
    exact .inl emptied.response

theorem Completed.of_rests (completed : Completed before id between)
    (rests : Rests between after) :
    Completed before id after :=
  { completed.toUntouched.trans rests.toUntouched with
    response := rests.response.trans completed.response
    exchange := rests.exchange.trans completed.exchange
    completed := rests.completed.trans completed.completed
    freedResponses := rests.freedResponses.trans completed.freedResponses
    handedOver := rests.handedOver.trans completed.handedOver
    connFrees := rests.connFrees.trans completed.connFrees }

/-- The response at the head is completed, and asked for its protocol. -/
def completedHead (conn : Conn) (id : Nat) : Conn :=
  (ymoHttpSessionCompleteResponse
      { conn with
        sendBuffer := []
        completed := conn.completed ++ [id] }).access
    [.response id]

theorem completed_completedHead (head : conn.response = some id) :
    Completed conn id (completedHead conn id) := by
  have popped :
      Popped
        { conn with
          sendBuffer := []
          completed := conn.completed ++ [id] }
        id
        (ymoHttpSessionCompleteResponse
          { conn with
            sendBuffer := []
            completed := conn.completed ++ [id] }) :=
    popped_ymoHttpSessionCompleteResponse head
  exact
    { popped with
      response := popped.response
      completed := popped.completed
      freedResponses := popped.freedResponses }

/-- `ymo_conn_shutdown`, and its record. -/
def shutAfter (keepalive : Bool) (conn : Conn) : Conn :=
  { ymoConnShutdown conn with
    shutdowns :=
      conn.shutdowns ++
        [{ keepalive := keepalive, last := conn.response.isNone }] }

/-- The connection once the keep-alive flag of the response was looked at. -/
def keptOpen (keepalive : Bool) (conn : Conn) : Conn :=
  let conn := if keepalive then conn else shutAfter keepalive conn
  conn.access (.session :: conn.response.toList.map .response)

/-- The first response of the list is ready to be sent. -/
def nextReady (conn : Conn) : Bool :=
  conn.response.elim false fun next =>
    (conn.responses next).flags.responseReady

/-- Whether the connection goes on after a response. -/
def settleWrite (keepalive : Bool) (conn : Conn) : Status × Conn :=
  let conn := keptOpen keepalive conn
  if nextReady conn then (ymoWouldblock, conn)
  else if conn.error then (.okay, shutAfter keepalive conn)
  else (.okay, conn)

/-- The parts of what follows a response that was fully sent. -/
theorem completeWrite_eq (id : Nat) (conn : Conn) :
    completeWrite transition id conn =
      if ((completedHead conn id).responses id).protoNew.isSome then
        ymoConnTransitionProto transition (completedHead conn id)
      else
        settleWrite (conn.responses id).flags.requestKeepalive
          (completedHead conn id) := by
  have lasts :
      ∀ conn keepalive,
        (keptOpen keepalive conn).response.isNone = conn.response.isNone := by
    intro conn keepalive
    cases keepalive <;> rfl
  unfold completeWrite settleWrite shutAfter
  dsimp only
  rw [lasts]
  rfl

theorem rests_shutAfter (conn : Conn) :
    Rests conn (shutAfter keepalive conn) :=
  { rests_ymoConnShutdown conn with }

theorem rests_keptOpen (conn : Conn) :
    Rests conn (keptOpen keepalive conn) := by
  unfold keptOpen
  dsimp only
  split
  · exact rests_access conn _
  · exact (rests_shutAfter keepalive conn).trans (rests_access _ _)

/-- The connection stays, or is shut down. -/
theorem rests_settleWrite (conn : Conn) :
    Rests conn (settleWrite keepalive conn).2 ∧
      ((settleWrite keepalive conn).1 = .okay ∨
        (settleWrite keepalive conn).1 = ymoWouldblock) := by
  have kept := rests_keptOpen keepalive conn
  unfold settleWrite
  dsimp only
  split
  · exact ⟨kept, .inr rfl⟩
  · split
    · exact ⟨kept.trans (rests_shutAfter _ _), .inl rfl⟩
    · exact ⟨kept, .inl rfl⟩

/-- A response without another protocol leaves the list. -/
theorem completeWrite_of_plain (head : conn.response = some id)
    (plain : (conn.responses id).protoNew = none) :
    Completed conn id (completeWrite transition id conn).2 ∧
      ((completeWrite transition id conn).1 = .okay ∨
        (completeWrite transition id conn).1 = ymoWouldblock) := by
  have completed := completed_completedHead head
  have same : ((completedHead conn id).responses id).protoNew = none :=
    (completed.protoNew id).trans plain
  have settled :=
    rests_settleWrite (conn.responses id).flags.requestKeepalive
      (completedHead conn id)
  rw [completeWrite_eq, same, if_neg (by decide)]
  exact ⟨completed.of_rests settled.1, settled.2⟩

/-- A response with another protocol: the session is freed, and the rest of the
list with it. -/
theorem completeWrite_of_upgrade (ends : ListEnds conn (id :: behind))
    (head : conn.response = some id)
    (upgrades : (conn.responses id).protoNew ≠ none) :
    Transitioned conn id behind (completeWrite transition id conn).2 := by
  have completed := completed_completedHead head
  have same :
      ((completedHead conn id).responses id).protoNew =
        (conn.responses id).protoNew :=
    completed.protoNew id
  have upgrade : ((completedHead conn id).responses id).protoNew.isSome := by
    rw [same]
    exact Option.isSome_iff_ne_none.mpr upgrades
  have linked := ends.linked
  rw [head] at linked
  rcases linked.of_some with ⟨rest, split, tail⟩
  cases split
  have goesOn :
      Linked (completedHead conn id).next
        (completedHead conn id).response behind := by
    rw [completed.next, completed.response]
    exact tail
  have enough : behind.length ≤ (completedHead conn id).nextResponse := by
    rw [completed.nextResponse]
    exact Nat.le_of_succ_le ends.enough
  have emptied :
      Emptied ((completedHead conn id).access [.conn]) behind
        (ymoHttpSessionFree ((completedHead conn id).access [.conn])) :=
    emptied_ymoHttpSessionFree goesOn enough
  have accessed := (rests_access (completedHead conn id) [.conn]).toUntouched
  rw [completeWrite_eq, if_pos upgrade]
  exact
    { completed.toUntouched.trans
        (accessed.trans emptied.toUntouched) with
      response := emptied.response
      exchange := ymoHttpSessionFree_exchange _
      completed := emptied.completed.trans completed.completed
      freedResponses := by
        show
          (ymoHttpSessionFree
              ((completedHead conn id).access
                [.conn])).freedResponses =
            conn.freedResponses ++ id :: behind
        have all := emptied.freedResponses
        have first := completed.freedResponses
        rw [all]
        show
          (completedHead conn id).freedResponses ++ behind =
            conn.freedResponses ++ id :: behind
        rw [first, List.append_assoc]
        rfl
      handedOver := rfl }

/-- The connection after the send of a write callback. -/
def sentFrom (outcomes : List SendOutcome) (conn : Conn) (id : Nat) : Conn :=
  let written :=
    writeResponse (conn.memory id) (conn.socket outcomes)
      (conn.responses id) conn.sendBuffer
  { (conn.access [.session, .conn]).setResponse id
      written.response with
    sendBuffer := written.sendBuffer
    wire := conn.wire ++ written.wire
    stream :=
      Function.update conn.stream id (conn.stream id ++ streamed conn id)
    heads := conn.heads ++ headRecord conn id }

/-- The parts of a write callback that has a response to work on. -/
theorem ymoProtoHttpWrite_of_head (transition : Status)
    (head : conn.response = some id) :
    ymoProtoHttpWrite outcomes transition conn =
      if completes conn outcomes id then
        completeWrite transition id (sentFrom outcomes conn id)
      else
        ((writeResponse (conn.memory id) (conn.socket outcomes)
            (conn.responses id) conn.sendBuffer).status,
          sentFrom outcomes conn id) := by
  unfold ymoProtoHttpWrite
  rw [head]
  rfl

theorem rests_sentFrom (conn : Conn) (id : Nat) :
    Rests conn (sentFrom outcomes conn id) := by
  have accessed := rests_access conn [.session, .conn]
  have written :=
    rests_setResponse (conn.access [.session, .conn]) id
      (linksOf_writeResponse (conn.memory id) (conn.socket outcomes)
        (conn.responses id) conn.sendBuffer)
  exact { accessed.trans written with }

theorem ListEnds.of_rests {before after : Conn} (ends : ListEnds before nodes)
    (rests : Rests before after) :
    ListEnds after nodes := by
  constructor
  · rw [rests.next, rests.response]
    exact ends.linked
  · rw [rests.nextResponse]
    exact ends.bounded

theorem Closed.of_untouched (rests : Rests before between)
    (closed : Closed between after) :
    Closed before after :=
  { rests.toUntouched.trans closed.toUntouched with
    response := closed.response.imp_right fun same => same.trans rests.response
    connFrees := closed.connFrees }

theorem Completed.rests_of (rests : Rests before between)
    (completed : Completed between id after) :
    Completed before id after :=
  { rests.toUntouched.trans completed.toUntouched with
    response := by rw [completed.response, rests.next]
    exchange := completed.exchange.trans rests.exchange
    completed := by rw [completed.completed, rests.completed]
    freedResponses := by rw [completed.freedResponses, rests.freedResponses]
    handedOver := completed.handedOver.trans rests.handedOver
    connFrees := completed.connFrees.trans rests.connFrees }

theorem Transitioned.rests_of (rests : Rests before between)
    (transitioned : Transitioned between id behind after) :
    Transitioned before id behind after :=
  { rests.toUntouched.trans transitioned.toUntouched with
    response := transitioned.response
    exchange := transitioned.exchange
    completed := by rw [transitioned.completed, rests.completed]
    freedResponses := by rw [transitioned.freedResponses, rests.freedResponses]
    handedOver := transitioned.handedOver }

/-- A connection that was handed over is closed without its session. -/
theorem Transitioned.closed {before between : Conn}
    (transitioned : Transitioned before id behind between) :
    Transitioned before id behind (closeAndFreeConnection between) := by
  have untouched := untouched_closeAndFreeConnection between
  have taken :
      closeAndFreeConnection between =
        { between.access [.conn] with
          state := .closed
          connFrees := between.connFrees + 1 } := by
    unfold closeAndFreeConnection
    dsimp only
    split
    · rfl
    · rename_i own
      exact absurd transitioned.handedOver own
  rw [taken] at untouched ⊢
  exact
    { transitioned.toUntouched.trans untouched with
      response := transitioned.response
      exchange := transitioned.exchange
      completed := transitioned.completed
      freedResponses := transitioned.freedResponses
      handedOver := transitioned.handedOver }

theorem Transitioned.of_rests
    (transitioned : Transitioned before id behind between)
    (rests : Rests between after) :
    Transitioned before id behind after :=
  { transitioned.toUntouched.trans rests.toUntouched with
    response := rests.response.trans transitioned.response
    exchange := rests.exchange.trans transitioned.exchange
    completed := rests.completed.trans transitioned.completed
    freedResponses := rests.freedResponses.trans transitioned.freedResponses
    handedOver := rests.handedOver.trans transitioned.handedOver }

/-- What `ymo_write_cb` does to the list. -/
theorem ymoWriteCb_outgoing (transition : Status)
    (ends : ListEnds conn nodes) :
    Outgoing outcomes conn nodes (ymoWriteCb outcomes transition conn) := by
  have called := rests_access conn [.conn]
  unfold ymoWriteCb
  dsimp only
  cases head : conn.response with
  | none =>
      have idle :
          ymoProtoHttpWrite outcomes transition (conn.access [.conn]) =
            (.okay, (conn.access [.conn]).access [.session]) := by
        unfold ymoProtoHttpWrite
        rw [show (conn.access [.conn]).response = none from head]
      rw [idle, if_neg (fun fails => fails.1 rfl)]
      exact .rests ((called.trans (rests_access _ _)).trans (rests_access _ _))
  | some id =>
      have linked := ends.linked
      rw [head] at linked
      rcases linked.of_some with ⟨behind, split, -⟩
      subst split
      have sent :=
        called.trans (rests_sentFrom outcomes (conn.access [.conn]) id)
      have stillHead := sent.response.trans head
      rw [ymoProtoHttpWrite_of_head outcomes transition
        (show (conn.access [.conn]).response = some id from head)]
      cases last : completes conn outcomes id with
      | false =>
          rw [if_neg
            (show ¬ completes (conn.access [.conn]) outcomes id from
              fun same => nomatch last.symm.trans same)]
          have stays := sent.trans (rests_access _ [.conn])
          split
          · exact
              .closes
                (.of_untouched stays
                  (closed_closeAndFreeConnection (ends.of_rests stays)))
          · exact .rests stays
      | true =>
          rw [if_pos
            (show completes (conn.access [.conn]) outcomes id from last)]
          have same := sent.protoNew id
          cases upgrade : (conn.responses id).protoNew with
          | none =>
              have written :=
                completeWrite_of_plain transition stillHead
                  (same.trans upgrade)
              have goesOn :
                  ∀ status : Status,
                    status = .okay ∨ status = ymoWouldblock →
                      ¬ (status ≠ .okay ∧ ymoIsBlocked status = false) := by
                rintro status (rfl | rfl) ⟨notOkay, notBlocked⟩
                · exact notOkay rfl
                · exact absurd notBlocked (by decide)
              rw [if_neg (goesOn _ written.2)]
              exact
                .completes id behind rfl last upgrade
                  ((written.1.rests_of sent).of_rests
                    (rests_access _ _))
          | some proto =>
              have upgrades :
                  ((sentFrom outcomes (conn.access [.conn])
                    id).responses id).protoNew ≠ none := by
                rw [same, upgrade]
                exact Option.some_ne_none proto
              have written :=
                ((completeWrite_of_upgrade transition
                  (ends.of_rests sent) stillHead
                  upgrades).rests_of sent).of_rests
                  (rests_access _ [.conn])
              have transitions : (conn.responses id).protoNew ≠ none := by
                rw [upgrade]
                exact Option.some_ne_none proto
              split
              · exact
                  .transitions id behind rfl last transitions written.closed
              · exact .transitions id behind rfl last transitions written

theorem untouched_completeWrite (id : Nat) (conn : Conn) :
    Untouched conn (completeWrite transition id conn).2 := by
  have popped : Untouched conn (completedHead conn id) := by
    have left : Untouched conn
        { conn with
          sendBuffer := []
          completed := conn.completed ++ [id] } :=
      { Untouched.refl conn with }
    exact
      (left.trans (untouched_ymoHttpSessionCompleteResponse _)).trans
        (rests_access _ [.response id]).toUntouched
  rw [completeWrite_eq]
  split
  · have freed :=
      (rests_access (completedHead conn id) [.conn]).toUntouched.trans
        (untouched_ymoHttpSessionFree _)
    exact { popped.trans freed with }
  · exact popped.trans (rests_settleWrite _ _).1.toUntouched

theorem untouched_ymoProtoHttpWrite (transition : Status) (conn : Conn) :
    Untouched conn (ymoProtoHttpWrite outcomes transition conn).2 := by
  cases head : conn.response with
  | none =>
      unfold ymoProtoHttpWrite
      rw [head]
      exact (rests_access conn [.session]).toUntouched
  | some id =>
      have sent := (rests_sentFrom outcomes conn id).toUntouched
      rw [ymoProtoHttpWrite_of_head outcomes transition head]
      split
      · exact sent.trans (untouched_completeWrite transition id _)
      · exact sent

/-- A write callback changes the list only, whatever the list is. -/
theorem untouched_ymoWriteCb (transition : Status) (conn : Conn) :
    Untouched conn (ymoWriteCb outcomes transition conn) := by
  have written :=
    (rests_access conn [.conn]).toUntouched.trans
      (untouched_ymoProtoHttpWrite outcomes transition _)
  have called := written.trans (rests_access _ [.conn]).toUntouched
  unfold ymoWriteCb
  dsimp only
  split
  · exact called.trans (untouched_closeAndFreeConnection _)
  · exact called

/-! ## Adding a response -/

/-- What becomes of the list when a response is hung on its end. -/
structure Appended
    (before : Conn)
    (nodes : List Nat)
    (id : Nat)
    (after : Conn) : Prop where
  ends : ListEnds after (nodes ++ [id])
  added : after.added = before.added ++ [id]
  next : ∀ other, other ∉ nodes → after.next other = before.next other
  protoNew :
    ∀ other,
      (after.responses other).protoNew = (before.responses other).protoNew
  error : after.error = before.error
  exchange : after.exchange = before.exchange
  exchanges : after.exchanges = before.exchanges
  exchangeResponse : after.exchangeResponse = before.exchangeResponse
  origin : after.origin = before.origin
  nextExchange : after.nextExchange = before.nextExchange
  nextResponse : after.nextResponse = before.nextResponse
  lost : after.lost = before.lost
  hung : after.hung = before.hung
  requests : after.requests = before.requests
  handled : after.handled = before.handled
  declined : after.declined = before.declined
  completed : after.completed = before.completed
  freedResponses : after.freedResponses = before.freedResponses
  handedOver : after.handedOver = before.handedOver
  connFrees : after.connFrees = before.connFrees

/-- The response is counted as added. -/
def adding (conn : Conn) (id : Nat) : Conn :=
  { conn.access [.session] with added := conn.added ++ [id] }

/-- The successors after a response was hung on the last one. -/
def hangOn (conn : Conn) (nodes : List Nat) (last id : Nat) : Conn :=
  ((adding conn id).access (nodes.map .response)).setResponse last
    { conn.responses last with next := some id }

theorem ymoHttpSessionAddResponse_eq (conn : Conn) (id : Nat) :
    ymoHttpSessionAddResponse conn id =
      match (adding conn id).response with
      | none => { adding conn id with response := some id }
      | some head =>
          match
            walk (adding conn id).next (adding conn id).nextResponse head with
          | none => { adding conn id with hung := true }
          | some nodes => hangOn conn nodes (nodes.getLast?.getD head) id :=
  rfl

theorem ymoHttpSessionAddResponse_of_none (empty : conn.response = none)
    (id : Nat) :
    ymoHttpSessionAddResponse conn id =
      { adding conn id with response := some id } := by
  rw [ymoHttpSessionAddResponse_eq,
    show (adding conn id).response = none from empty]

theorem ymoHttpSessionAddResponse_of_walk {first : Nat}
    (head : conn.response = some first)
    (walked : walk conn.next conn.nextResponse first = some nodes)
    (id : Nat) :
    ymoHttpSessionAddResponse conn id =
      hangOn conn nodes (nodes.getLast?.getD first) id := by
  rw [ymoHttpSessionAddResponse_eq,
    show (adding conn id).response = some first from head]
  dsimp only
  rw [show
    walk (adding conn id).next (adding conn id).nextResponse first =
      some nodes from walked]

theorem next_hangOn (conn : Conn) (nodes : List Nat) (last id : Nat) :
    (hangOn conn nodes last id).next =
      Function.update conn.next last (some id) := by
  funext other
  by_cases here : other = last
  · subst here
    rw [Function.update_self]
    simp only [hangOn, Conn.next, Conn.setResponse, Function.update_self]
  · rw [Function.update_of_ne here]
    simp only [hangOn, Conn.next, Conn.setResponse, Function.update_of_ne here]
    rfl

theorem protoNew_hangOn (conn : Conn) (nodes : List Nat)
    (last id other : Nat) :
    ((hangOn conn nodes last id).responses other).protoNew =
      (conn.responses other).protoNew := by
  by_cases here : other = last
  · subst here
    simp only [hangOn, Conn.setResponse, Function.update_self]
  · simp only [hangOn, Conn.setResponse, Function.update_of_ne here]
    rfl

/-- A response that is not on the list is added to it, and the walk to its end
terminates. -/
theorem appended_ymoHttpSessionAddResponse (ends : ListEnds conn nodes)
    (fresh : id ∉ nodes)
    (numbered : id < conn.nextResponse)
    (last : conn.next id = none) :
    Appended conn nodes id (ymoHttpSessionAddResponse conn id) := by
  have bounded : ∀ other ∈ nodes ++ [id], other < conn.nextResponse := by
    intro other member
    rcases List.mem_append.mp member with old | new
    · exact ends.bounded other old
    · rw [List.mem_singleton.mp new]
      exact numbered
  have linked := ends.linked
  cases head : conn.response with
  | none =>
      rw [head] at linked
      cases linked
      have single : Linked conn.next (some id) [id] := by
        apply Linked.cons
        rw [last]
        exact .nil
      rw [ymoHttpSessionAddResponse_of_none head]
      constructor
      case ends => exact ⟨single, bounded⟩
      all_goals first | rfl | exact fun _ => rfl | exact fun _ _ => rfl
  | some first =>
      rw [head] at linked
      rw [ymoHttpSessionAddResponse_of_walk head (linked.walk ends.enough)]
      rcases linked.of_some with ⟨rest, split, -⟩
      have isLast : nodes.getLast? = some (nodes.getLast?.getD first) := by
        rw [split, List.getLast?_eq_getLast_of_ne_nil
          (List.cons_ne_nil first rest)]
        rfl
      have member := List.mem_of_getLast? isLast
      generalize nodes.getLast?.getD first = final at isLast member ⊢
      constructor
      case ends =>
        refine ⟨?_, bounded⟩
        have still : (hangOn conn nodes final id).response = some first := head
        rw [next_hangOn, still]
        exact linked.concat isLast last fresh
      case next =>
        intro other outside
        rw [next_hangOn, Function.update_of_ne]
        exact fun same => outside (same ▸ member)
      case protoNew => exact protoNew_hangOn conn nodes final id
      all_goals simp only [hangOn, Conn.setResponse, adding, Conn.access]

end Yimmo.Http.SessionQueue
