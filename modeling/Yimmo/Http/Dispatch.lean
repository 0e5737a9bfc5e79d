import Yimmo.Http.SessionQueue

/-!
# Every request is dispatched once

`ymo_http_handler` is called when a request is complete, and puts the response of
the request on the session's list.  Whether that happens once depends on where
the exchange is when the next bytes come: after a request that keeps the
connection alive it was reset, and after one whose handler has blocked the
session has no exchange, but after any other answered request the exchange stays
complete, and the next read finds it so.

The invariant relates the content of the exchange, the response it has and the
list.  `At` says what holds of the connection at each place that the response of
a read can have reached, and every effect of a read takes one to the next.
-/

namespace Yimmo.Http.Dispatch

open Yimmo.Core.StatusCode
open Yimmo.Core.Net
open Yimmo.Lib.GuardedRun
open Yimmo.Lib.LinkedList
open Yimmo.Http.Headers
open Yimmo.Http.Exchange
open Yimmo.Http.Application
open Yimmo.Http.Reader
open Yimmo.Http.ReadProgress
open Yimmo.Http.KeepAlive
open Yimmo.Http.ReadEffects
open Yimmo.Http.Response
open Yimmo.Http.Session
open Yimmo.Http.SessionQueue

variable
    {before after : Conn}
    {nodes : List Nat}
    {id : Nat}
    {conn : Conn}

/-! ## The list of responses -/

/-- The connection is there, and its session is that of HTTP. -/
def Attached (conn : Conn) : Prop :=
  conn.connFrees = 0 ∧ conn.handedOver = false

/-- The handler was called for it, or its request ended the read in an error. -/
def Answered (conn : Conn) (id : Nat) : Prop :=
  id ∈ conn.handled ∨ id ∈ conn.declined

/-- The list of responses, and what was done with the responses so far. -/
structure Listed (conn : Conn) (nodes : List Nat) : Prop where
  ends : ListEnds conn nodes
  once : conn.added.Nodup
  members : ∀ id ∈ nodes, id ∈ conn.added
  numbered : ∀ id ∈ conn.added, id < conn.nextResponse
  kept : Attached conn → ∀ id ∈ conn.added, id ∈ nodes ∨ id ∈ conn.completed
  handled : conn.handled.Nodup
  handledNumbered : ∀ id ∈ conn.handled, id < conn.nextResponse
  requestsNumbered : ∀ id ∈ conn.requests, id < conn.nextResponse
  hung : conn.hung = false

/-- The list is the same list in a connection that agrees on it. -/
theorem Listed.transport
    (listed : Listed before nodes)
    (response : after.response = before.response)
    (next : ∀ id ∈ nodes, after.next id = before.next id)
    (nextResponse : before.nextResponse ≤ after.nextResponse)
    (added : after.added = before.added)
    (completed : after.completed = before.completed)
    (handled : after.handled = before.handled)
    (requests :
      ∀ id ∈ after.requests, id ∈ before.requests ∨ id < after.nextResponse)
    (hung : after.hung = before.hung)
    (attached : Attached after → Attached before) :
    Listed after nodes := by
  have later : ∀ id, id < before.nextResponse → id < after.nextResponse :=
    fun id early => Nat.lt_of_lt_of_le early nextResponse
  constructor
  · constructor
    · rw [response]
      exact listed.ends.linked.congr next
    · exact fun id member => later id (listed.ends.bounded id member)
  · rw [added]
    exact listed.once
  · rw [added]
    exact listed.members
  · rw [added]
    exact fun id member => later id (listed.numbered id member)
  · rw [added, completed]
    exact fun still => listed.kept (attached still)
  · rw [handled]
    exact listed.handled
  · rw [handled]
    exact fun id member => later id (listed.handledNumbered id member)
  · intro id member
    rcases requests id member with old | early
    · exact later id (listed.requestsNumbered id old)
    · exact early
  · rw [hung]
    exact listed.hung

theorem Rests.attached (rests : Rests before after)
    (attached : Attached after) :
    Attached before := by
  rcases attached with ⟨frees, handedOver⟩
  exact
    ⟨rests.connFrees.symm.trans frees, rests.handedOver.symm.trans handedOver⟩

theorem Listed.of_rests (listed : Listed before nodes)
    (rests : Rests before after) :
    Listed after nodes := by
  apply listed.transport rests.response
  · exact fun id _ => congrFun rests.next id
  · exact Nat.le_of_eq rests.nextResponse.symm
  · exact rests.added
  · exact rests.completed
  · exact rests.handled
  · rw [rests.requests]
    exact fun id member => .inl member
  · exact rests.hung
  · exact Rests.attached rests

/-- Nothing changes but the list, which is shorter or gone. -/
theorem Listed.shorten {nodes rest : List Nat}
    (listed : Listed before nodes)
    (untouched : Untouched before after)
    (linked : Linked before.next after.response rest)
    (fewer : ∀ id ∈ rest, id ∈ nodes)
    (kept :
      Attached after → ∀ id ∈ before.added, id ∈ rest ∨ id ∈ after.completed) :
    Listed after rest := by
  have bound := untouched.nextResponse
  constructor
  · constructor
    · rw [untouched.next]
      exact linked
    · rw [bound]
      exact fun id member => listed.ends.bounded id (fewer id member)
  · rw [untouched.added]
    exact listed.once
  · rw [untouched.added]
    exact fun id member => listed.members id (fewer id member)
  · rw [untouched.added, bound]
    exact listed.numbered
  · rw [untouched.added]
    exact kept
  · rw [untouched.handled]
    exact listed.handled
  · rw [untouched.handled, bound]
    exact listed.handledNumbered
  · rw [untouched.requests, bound]
    exact listed.requestsNumbered
  · rw [untouched.hung]
    exact listed.hung

theorem Listed.of_closed (listed : Listed before nodes)
    (closed : Closed before after) :
    ∃ rest, Listed after rest := by
  have never : ¬ Attached after := fun attached => closed.connFrees attached.1
  rcases closed.response with empty | same
  · refine ⟨[], listed.shorten closed.toUntouched ?_ ?_ ?_⟩
    · rw [empty]
      exact .nil
    · exact fun id member => nomatch member
    · exact fun attached => absurd attached never
  · refine ⟨nodes, listed.shorten closed.toUntouched ?_ ?_ ?_⟩
    · rw [same]
      exact listed.ends.linked
    · exact fun id member => member
    · exact fun attached => absurd attached never

/-- A write callback leaves a list. -/
theorem Listed.of_outgoing {outcomes : List SendOutcome}
    (listed : Listed before nodes)
    (outgoing : Outgoing outcomes before nodes after) :
    ∃ rest, Listed after rest := by
  cases outgoing with
  | rests same => exact ⟨nodes, listed.of_rests same⟩
  | completes id behind split sent plain completed =>
      subst split
      refine ⟨behind, listed.shorten completed.toUntouched ?_ ?_ ?_⟩
      · have linked := listed.ends.linked
        cases head : before.response with
        | none =>
            rw [head] at linked
            nomatch linked
        | some first =>
            rw [head] at linked
            rcases linked.of_some with ⟨rest, same, tail⟩
            cases same
            rw [completed.response]
            exact tail
      · exact fun other member => List.mem_cons_of_mem id member
      · intro attached other member
        have before : Attached before :=
          ⟨completed.connFrees.symm.trans attached.1,
            completed.handedOver.symm.trans attached.2⟩
        rw [completed.completed]
        rcases listed.kept before other member with here | sent
        · rcases List.mem_cons.mp here with first | later
          · rw [first]
            exact .inr (List.mem_append_right _ List.mem_cons_self)
          · exact .inl later
        · exact .inr (List.mem_append_left _ sent)
  | transitions id behind split sent upgrades transitioned =>
      refine ⟨[], listed.shorten transitioned.toUntouched ?_ ?_ ?_⟩
      · rw [transitioned.response]
        exact .nil
      · exact fun id member => nomatch member
      · intro attached
        exact
          absurd (attached.2.symm.trans transitioned.handedOver)
            Bool.false_ne_true
  | closes closed => exact listed.of_closed closed

/-- A response that was not added yet is added to the list. -/
theorem Listed.append (listed : Listed before nodes)
    (appended : Appended before nodes id after)
    (fresh : id ∉ before.added)
    (numbered : id < before.nextResponse) :
    Listed after (nodes ++ [id]) := by
  have bound := appended.nextResponse
  constructor
  · exact appended.ends
  · rw [appended.added]
    exact
      List.nodup_append.mpr
        ⟨listed.once, List.nodup_singleton id,
          fun old member new here same =>
            fresh (List.mem_singleton.mp here ▸ same ▸ member)⟩
  · rw [appended.added]
    intro other member
    rcases List.mem_append.mp member with old | new
    · exact List.mem_append_left _ (listed.members other old)
    · exact List.mem_append_right _ new
  · rw [appended.added, bound]
    intro other member
    rcases List.mem_append.mp member with old | new
    · exact listed.numbered other old
    · rw [List.mem_singleton.mp new]
      exact numbered
  · rw [appended.added, appended.completed]
    intro attached other member
    have still : Attached before :=
      ⟨appended.connFrees.symm.trans attached.1,
        appended.handedOver.symm.trans attached.2⟩
    rcases List.mem_append.mp member with old | new
    · exact (listed.kept still other old).imp_left (List.mem_append_left _)
    · exact .inl (List.mem_append_right _ new)
  · rw [appended.handled]
    exact listed.handled
  · rw [appended.handled, bound]
    exact listed.handledNumbered
  · rw [appended.requests, bound]
    exact listed.requestsNumbered
  · rw [appended.hung]
    exact listed.hung

/-! ## The place of the response -/

/-- The response of the exchange, which is not on the list. -/
structure Current (conn : Conn) (slot id : Nat) : Prop where
  own : conn.exchangeResponse slot = some id
  origin : conn.origin id = slot
  numbered : id < conn.nextResponse
  fresh : id ∉ conn.added
  last : conn.next id = none
  others : ∀ other ∈ conn.requests, other = id ∨ Answered conn other

/-- What holds of the connection at each place of a read on an exchange. -/
inductive At (conn : Conn) (slot : Nat) : Stage → Prop where
  | absent
      (exchange : Attached conn → conn.exchange = none)
      (number : conn.nextExchange = slot)
      (answered : ∀ id ∈ conn.requests, Answered conn id) :
      At conn slot .absent
  | idle
      (exchange : Attached conn → conn.exchange = some slot)
      (answered : ∀ id ∈ conn.requests, Answered conn id) :
      At conn slot .idle
  | refused
      (exchange : Attached conn → conn.exchange = some slot)
      (error : conn.error = true)
      (answered : ∀ id ∈ conn.requests, Answered conn id) :
      At conn slot .refused
  | answering
      (continued : Bool)
      (id : Nat)
      (exchange : Attached conn → conn.exchange = some slot)
      (current : Current conn slot id)
      (waiting : id ∉ conn.handled) :
      At conn slot (.answering continued)
  | handling
      (id : Nat)
      (exchange : Attached conn → conn.exchange = some slot)
      (current : Current conn slot id)
      (handled : id ∈ conn.handled) :
      At conn slot .handling
  | detached
      (id : Nat)
      (exchange : Attached conn → conn.exchange = none)
      (current : Current conn slot id)
      (handled : id ∈ conn.handled) :
      At conn slot .detached
  | settled
      (id : Nat)
      (exchange : Attached conn → conn.exchange = some slot)
      (own : conn.exchangeResponse slot = some id)
      (handled : id ∈ conn.handled)
      (answered : ∀ id ∈ conn.requests, Answered conn id) :
      At conn slot .settled
  | gone
      (exchange : Attached conn → conn.exchange = none)
      (answered : ∀ id ∈ conn.requests, Answered conn id) :
      At conn slot .gone
  | dropped
      (answered : ∀ id ∈ conn.requests, Answered conn id) :
      At conn slot .dropped

/-- The connection agrees on what a place depends on. -/
structure Steady (before after : Conn) : Prop where
  error : before.error = true → after.error = true
  exchangeResponse : after.exchangeResponse = before.exchangeResponse
  origin : after.origin = before.origin
  nextExchange : after.nextExchange = before.nextExchange
  requests : after.requests = before.requests
  handled : after.handled = before.handled
  declined : after.declined = before.declined
  nextResponse : before.nextResponse ≤ after.nextResponse
  added : ∀ id, id < before.nextResponse → id ∈ after.added → id ∈ before.added
  next :
    ∀ id,
      id < before.nextResponse →
        id ∉ before.added → after.next id = before.next id
  exchange :
    Attached after → Attached before ∧ after.exchange = before.exchange

theorem Steady.trans {before between after : Conn}
    (first : Steady before between)
    (second : Steady between after) :
    Steady before after where
  error raised := second.error (first.error raised)
  exchangeResponse := second.exchangeResponse.trans first.exchangeResponse
  origin := second.origin.trans first.origin
  nextExchange := second.nextExchange.trans first.nextExchange
  requests := second.requests.trans first.requests
  handled := second.handled.trans first.handled
  declined := second.declined.trans first.declined
  nextResponse := Nat.le_trans first.nextResponse second.nextResponse
  added id early member :=
    first.added id early
      (second.added id (Nat.lt_of_lt_of_le early first.nextResponse) member)
  next id early fresh := by
    have later := Nat.lt_of_lt_of_le early first.nextResponse
    have still : id ∉ between.added :=
      fun member => fresh (first.added id early member)
    rw [second.next id later still, first.next id early fresh]
  exchange attached := by
    rcases second.exchange attached with ⟨middle, same⟩
    rcases first.exchange middle with ⟨start, equal⟩
    exact ⟨start, same.trans equal⟩

theorem Steady.answered (steady : Steady before after)
    (answered : ∀ id ∈ before.requests, Answered before id) :
    ∀ id ∈ after.requests, Answered after id := by
  unfold Answered
  rw [steady.requests, steady.handled, steady.declined]
  exact answered

theorem Steady.current (steady : Steady before after) {slot id : Nat}
    (current : Current before slot id) :
    Current after slot id := by
  constructor
  · rw [steady.exchangeResponse]
    exact current.own
  · rw [steady.origin]
    exact current.origin
  · exact Nat.lt_of_lt_of_le current.numbered steady.nextResponse
  · exact fun member => current.fresh (steady.added id current.numbered member)
  · rw [steady.next id current.numbered current.fresh]
    exact current.last
  · unfold Answered
    rw [steady.requests, steady.handled, steady.declined]
    exact current.others

/-- The response stays where it is. -/
theorem At.steady {slot : Nat} {stage : Stage} (place : At before slot stage)
    (steady : Steady before after) :
    At after slot stage := by
  have stays :
      ∀ {exchange : Option Nat},
        (Attached before → before.exchange = exchange) →
          Attached after → after.exchange = exchange := by
    intro exchange was attached
    rcases steady.exchange attached with ⟨start, same⟩
    exact same.trans (was start)
  cases place with
  | absent exchange number answered =>
      exact
        .absent (stays exchange) (steady.nextExchange.trans number)
          (steady.answered answered)
  | idle exchange answered =>
      exact .idle (stays exchange) (steady.answered answered)
  | refused exchange error answered =>
      exact
        .refused (stays exchange) (steady.error error)
          (steady.answered answered)
  | answering continued id exchange current waiting =>
      exact
        .answering continued id (stays exchange)
          (steady.current current) (steady.handled ▸ waiting)
  | handling id exchange current handled =>
      exact
        .handling id (stays exchange) (steady.current current)
          (steady.handled ▸ handled)
  | detached id exchange current handled =>
      exact
        .detached id (stays exchange) (steady.current current)
          (steady.handled ▸ handled)
  | settled id exchange own handled answered =>
      exact
        .settled id (stays exchange)
          ((congrFun steady.exchangeResponse _).trans own)
          (steady.handled ▸ handled) (steady.answered answered)
  | gone exchange answered =>
      exact .gone (stays exchange) (steady.answered answered)
  | dropped answered => exact .dropped (steady.answered answered)

theorem Untouched.steady
    (untouched : Untouched before after)
    (exchange :
      Attached after → Attached before ∧ after.exchange = before.exchange) :
    Steady before after where
  error raised := untouched.error.trans raised
  exchangeResponse := untouched.exchangeResponse
  origin := untouched.origin
  nextExchange := untouched.nextExchange
  requests := untouched.requests
  handled := untouched.handled
  declined := untouched.declined
  nextResponse := Nat.le_of_eq untouched.nextResponse.symm
  added _ _ member := untouched.added ▸ member
  next id _ _ := congrFun untouched.next id
  exchange := exchange

theorem Rests.steady (rests : Rests before after) : Steady before after :=
  Untouched.steady rests.toUntouched fun attached =>
    ⟨Rests.attached rests attached, rests.exchange⟩

theorem Outgoing.steady {outcomes : List SendOutcome}
    (outgoing : Outgoing outcomes before nodes after) :
    Steady before after := by
  cases outgoing with
  | rests same => exact Rests.steady same
  | completes id behind split sent plain completed =>
      exact
        Untouched.steady completed.toUntouched fun attached =>
          ⟨⟨completed.connFrees.symm.trans attached.1,
              completed.handedOver.symm.trans attached.2⟩,
            completed.exchange⟩
  | transitions id behind split sent upgrades transitioned =>
      exact
        Untouched.steady transitioned.toUntouched fun attached =>
          absurd (attached.2.symm.trans transitioned.handedOver)
            Bool.false_ne_true
  | closes closed =>
      exact
        Untouched.steady closed.toUntouched fun attached =>
          absurd attached.1 closed.connFrees

/-- A response that was created since is added to the list. -/
theorem Steady.append {start before after : Conn}
    (steady : Steady start before)
    (appended : Appended before nodes id after)
    (members : ∀ other ∈ nodes, other ∈ before.added)
    (created : start.nextResponse ≤ id) :
    Steady start after where
  error raised := appended.error.trans (steady.error raised)
  exchangeResponse := appended.exchangeResponse.trans steady.exchangeResponse
  origin := appended.origin.trans steady.origin
  nextExchange := appended.nextExchange.trans steady.nextExchange
  requests := appended.requests.trans steady.requests
  handled := appended.handled.trans steady.handled
  declined := appended.declined.trans steady.declined
  nextResponse :=
    Nat.le_trans steady.nextResponse (Nat.le_of_eq appended.nextResponse.symm)
  added other early member := by
    rw [appended.added] at member
    rcases List.mem_append.mp member with old | new
    · exact steady.added other early old
    · rw [List.mem_singleton.mp new] at early
      exact absurd early (Nat.not_lt.mpr created)
  next other early fresh := by
    have outside : other ∉ nodes :=
      fun member => fresh (steady.added other early (members other member))
    rw [appended.next other outside, steady.next other early fresh]
  exchange attached := by
    have middle : Attached before :=
      ⟨appended.connFrees.symm.trans attached.1,
        appended.handedOver.symm.trans attached.2⟩
    rcases steady.exchange middle with ⟨first, same⟩
    exact ⟨first, appended.exchange.trans same⟩

/-! ## Calls and new responses -/

theorem rests_callResponse (conn : Conn) (id : Nat) (call : ResponseCall) :
    Rests conn { callResponse conn id call with error := conn.error } := by
  let accessed :=
    conn.access
      (if enablesWrites (conn.responses id) call then [.session, .conn]
      else [])
  have called : Rests conn
      (accessed.setResponse id
        (applyCall (conn.memory id) (conn.responses id) call)) :=
    (rests_access conn _).trans
      (rests_setResponse accessed id
        (linksOf_applyCall (conn.memory id) (conn.responses id) call))
  exact { called with }

theorem errorAfter_of_error (call : ResponseCall) {error : Bool}
    (raised : error = true) :
    errorAfter call error = true := by
  rw [raised]
  cases call <;> rfl

/-- A call on a response leaves the list alone. -/
theorem Listed.call (listed : Listed conn nodes) (id : Nat)
    (call : ResponseCall) :
    Listed (callResponse conn id call) nodes := by
  have rests := rests_callResponse conn id call
  exact
    listed.transport rests.response
      (fun other _ => congrFun rests.next other)
      (Nat.le_of_eq rests.nextResponse.symm) rests.added
      rests.completed rests.handled
      (fun other member => .inl (rests.requests ▸ member)) rests.hung
      fun attached => Rests.attached rests attached

theorem steady_callResponse (conn : Conn) (id : Nat) (call : ResponseCall) :
    Steady conn (callResponse conn id call) := by
  have rests := rests_callResponse conn id call
  have steady := Rests.steady rests
  exact
    { steady with
      error := errorAfter_of_error call
      exchange := fun attached =>
        ⟨Rests.attached rests attached, rests.exchange⟩ }

/-- The connection with one more response object. -/
def created (conn : Conn) (response : HttpResponse)
    (headers : HdrTable HdrPointer) :
    Conn :=
  { conn with
    responses := Function.update conn.responses conn.nextResponse response
    meant := Function.update conn.meant conn.nextResponse headers
    nextResponse := conn.nextResponse + 1 }

theorem next_created (conn : Conn) (response : HttpResponse)
    (headers : HdrTable HdrPointer)
    (early : id < conn.nextResponse) :
    (created conn response headers).next id = conn.next id := by
  have other : id ≠ conn.nextResponse := Nat.ne_of_lt early
  simp only [created, Conn.next, Function.update_of_ne other]

theorem Listed.create {conn : Conn} {nodes : List Nat}
    (listed : Listed conn nodes)
    (response : HttpResponse)
    (headers : HdrTable HdrPointer) :
    Listed (created conn response headers) nodes := by
  apply listed.transport
  · rfl
  · intro id member
    exact next_created conn response headers (listed.ends.bounded id member)
  · exact Nat.le_succ _
  · rfl
  · rfl
  · rfl
  · exact fun id member => .inl member
  · rfl
  · exact fun attached => attached

theorem steady_created (conn : Conn) (response : HttpResponse)
    (headers : HdrTable HdrPointer) :
    Steady conn (created conn response headers) where
  error raised := raised
  exchangeResponse := rfl
  origin := rfl
  nextExchange := rfl
  requests := rfl
  handled := rfl
  declined := rfl
  nextResponse := Nat.le_succ _
  added _ _ member := member
  next _ early _ := next_created conn response headers early
  exchange attached := ⟨attached, rfl⟩

/-- A response of the library is hung on the end of the list. -/
theorem issueResponse_listed (listed : Listed conn nodes) (flags : HttpFlags)
    (status : Nat) :
    Listed (issueResponse flags status conn)
        (nodes ++ [conn.nextResponse]) ∧
      Steady conn (issueResponse flags status conn) := by
  let response := { ymoHttpResponseCreate with flags := flags }
  let made := created conn response ymoHttpHdrTableClear
  have listedMade := listed.create response ymoHttpHdrTableClear
  have fresh : conn.nextResponse ∉ made.added :=
    fun member => Nat.lt_irrefl _ (listed.numbered _ member)
  have numbered : conn.nextResponse < made.nextResponse := Nat.lt_succ_self _
  have last : made.next conn.nextResponse = none := by
    simp only [made, created, Conn.next, Function.update_self]
    rfl
  have appended :
      Appended made nodes conn.nextResponse
        (ymoHttpSessionAddResponse made conn.nextResponse) :=
    appended_ymoHttpSessionAddResponse listedMade.ends
      (fun member => fresh (listedMade.members _ member)) numbered last
  have added := listedMade.append appended fresh numbered
  have steady :=
    (steady_created conn response ymoHttpHdrTableClear).append appended
      listedMade.members (Nat.le_refl _)
  exact
    ⟨added.call conn.nextResponse (.issue status),
      steady.trans (steady_callResponse _ conn.nextResponse (.issue status))⟩

theorem issueResponse_error (flags : HttpFlags) {status : Nat}
    (enough : 400 ≤ status)
    (conn : Conn) :
    (issueResponse flags status conn).error = true := by
  unfold issueResponse callResponse errorAfter
  simp only [enough, decide_true, Bool.or_true]

theorem sendContinue_listed (outcomes : List SendOutcome) (transition : Status)
    (listed : Listed conn nodes) :
    (∃ rest, Listed (sendContinue outcomes transition conn) rest) ∧
      Steady conn (sendContinue outcomes transition conn) := by
  rcases
    issueResponse_listed listed
      { HttpFlags.none with requestKeepalive := true } 100
    with ⟨issued, steady⟩
  have outgoing := ymoWriteCb_outgoing outcomes transition issued.ends
  exact ⟨issued.of_outgoing outgoing, steady.trans (Outgoing.steady outgoing)⟩

end Yimmo.Http.Dispatch
