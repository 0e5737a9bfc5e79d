import Yimmo.Http.ResponseOrder

/-!
# The memory of a connection

The session owns the exchange that is being read; a response that was dispatched
owns its exchange, and the list of the session owns the responses.  This module
keeps the account of that ownership: what was freed, what is still owned, and
which accesses met an object that was freed.

While the connection is there, what it freed and what it owns are together the
exchanges that were created, each once; the responses it freed are those that it
has sent.  It goes with everything it owns.  The one access to a freed object is
that of the write callback, which asks a response for its protocol after it has
freed it.
-/

namespace Yimmo.Http.ObjectLife

open Yimmo.Core.StatusCode
open Yimmo.Core.Net
open Yimmo.Lib.LinkedList
open Yimmo.Http.Headers
open Yimmo.Http.Exchange
open Yimmo.Http.Application
open Yimmo.Http.Response
open Yimmo.Http.Session
open Yimmo.Http.SessionQueue
open Yimmo.Http.Dispatch
open Yimmo.Http.ResponseOrder

variable
    {id : Nat}
    {before after : Conn}

/-! ## Accesses -/

/-- Neither the connection nor its session was freed or left. -/
structure Standing (conn : Conn) : Prop where
  attached : Attached conn
  session : conn.sessionFrees = 0

/-- An access to what is there is no fault. -/
theorem Standing.access {conn : Conn} (standing : Standing conn)
    {objects : List Object}
    (fresh : ∀ id, Object.response id ∈ objects → id ∉ conn.freedResponses) :
    conn.access objects = conn := by
  have none : objects.filter conn.freed = [] := by
    rw [List.filter_eq_nil_iff]
    intro object member
    cases object with
    | conn =>
        rw [Conn.freed, standing.attached.1]
        exact Bool.false_ne_true
    | session =>
        rw [Conn.freed, standing.session]
        exact Bool.false_ne_true
    | response id =>
        rw [Conn.freed, List.contains_iff_mem]
        exact fresh id member
  unfold Conn.access
  rw [none, List.append_nil]

theorem access_conn {conn : Conn} (there : conn.connFrees = 0) :
    conn.access [.conn] = conn := by
  have none : [Object.conn].filter conn.freed = [] := by
    rw [List.filter_cons_of_neg, List.filter_nil]
    rw [Conn.freed, there]
    exact Bool.false_ne_true
  unfold Conn.access
  rw [none, List.append_nil]

theorem Standing.access_conn {conn : Conn} (standing : Standing conn) :
    conn.access [.conn] = conn :=
  ObjectLife.access_conn standing.attached.1

theorem Standing.access_session {conn : Conn} (standing : Standing conn) :
    conn.access [.session] = conn := by
  apply standing.access
  intro id member
  cases List.mem_singleton.mp member

/-- The memory is as it was, but for responses that were created. -/
structure Conserved (before after : Conn) : Prop where
  freedExchanges : after.freedExchanges = before.freedExchanges
  freedResponses : after.freedResponses = before.freedResponses
  sessionFrees : after.sessionFrees = before.sessionFrees
  connFrees : after.connFrees = before.connFrees
  handedOver : after.handedOver = before.handedOver
  faults : after.faults = before.faults
  exchange : after.exchange = before.exchange
  completed : after.completed = before.completed
  nextExchange : after.nextExchange = before.nextExchange
  nextResponse : before.nextResponse ≤ after.nextResponse
  held :
    ∀ id,
      id < before.nextResponse →
        (after.responses id).exchange = (before.responses id).exchange

theorem Conserved.refl (conn : Conn) : Conserved conn conn where
  freedExchanges := rfl
  freedResponses := rfl
  sessionFrees := rfl
  connFrees := rfl
  handedOver := rfl
  faults := rfl
  exchange := rfl
  completed := rfl
  nextExchange := rfl
  nextResponse := Nat.le_refl _
  held _ _ := rfl

theorem Conserved.trans {before between after : Conn}
    (first : Conserved before between)
    (second : Conserved between after) :
    Conserved before after where
  freedExchanges := second.freedExchanges.trans first.freedExchanges
  freedResponses := second.freedResponses.trans first.freedResponses
  sessionFrees := second.sessionFrees.trans first.sessionFrees
  connFrees := second.connFrees.trans first.connFrees
  handedOver := second.handedOver.trans first.handedOver
  faults := second.faults.trans first.faults
  exchange := second.exchange.trans first.exchange
  completed := second.completed.trans first.completed
  nextExchange := second.nextExchange.trans first.nextExchange
  nextResponse := Nat.le_trans first.nextResponse second.nextResponse
  held id early :=
    (second.held id
        (Nat.lt_of_lt_of_le early first.nextResponse)).trans
      (first.held id early)

theorem Conserved.standing (conserved : Conserved before after)
    (standing : Standing before) :
    Standing after where
  attached :=
    ⟨conserved.connFrees.trans standing.attached.1,
      conserved.handedOver.trans standing.attached.2⟩
  session := conserved.sessionFrees.trans standing.session

/-! ## Operations that free nothing -/

/-- A response that was not freed changes, and holds the exchange it held. -/
theorem conserved_setResponse {conn : Conn} (fresh : id ∉ conn.freedResponses)
    {response : HttpResponse}
    (same : response.exchange = (conn.responses id).exchange) :
    Conserved conn (conn.setResponse id response) := by
  have alive : ([Object.response id].filter conn.freed) = [] := by
    rw [List.filter_eq_nil_iff]
    intro object member
    rw [List.mem_singleton.mp member, Conn.freed, List.contains_iff_mem]
    exact fresh
  refine
    { Conserved.refl conn with
      faults := ?_
      held := ?_ }
  · rw [Conn.setResponse, alive, List.append_nil]
  · intro other _
    by_cases here : other = id
    · subst here
      simp only [Conn.setResponse, Function.update_self]
      exact same
    · simp only [Conn.setResponse, Function.update_of_ne here]

theorem exchange_applyCall (memory : HdrMemory) (response : HttpResponse)
    (call : ResponseCall) :
    (applyCall memory response call).exchange = response.exchange :=
  congrArg Links.exchange (linksOf_applyCall memory response call)

theorem conserved_callResponse {conn : Conn} (standing : Standing conn)
    (fresh : id ∉ conn.freedResponses)
    (call : ResponseCall) :
    Conserved conn (callResponse conn id call) := by
  have accessed :
      conn.access
          (if enablesWrites (conn.responses id) call then [.session, .conn]
          else []) =
        conn := by
    apply standing.access
    intro other member
    split at member
    · rcases List.mem_cons.mp member with same | member
      · cases same
      · cases List.mem_singleton.mp member
    · cases member
  have set :
      Conserved conn
        (conn.setResponse id
          (applyCall (conn.memory id) (conn.responses id) call)) :=
    conserved_setResponse fresh (exchange_applyCall _ _ call)
  unfold callResponse
  dsimp only
  rw [accessed]
  exact { set with }

theorem conserved_created (conn : Conn) (response : HttpResponse)
    (headers : HdrTable HdrPointer) :
    Conserved conn (created conn response headers) :=
  { Conserved.refl conn with
    nextResponse := Nat.le_succ _
    held := by
      intro id early
      have other : id ≠ conn.nextResponse := Nat.ne_of_lt early
      simp only [created, Function.update_of_ne other] }

/-- A response is hung on the list. -/
theorem conserved_ymoHttpSessionAddResponse {conn : Conn}
    (standing : Standing conn)
    {nodes : List Nat}
    (ends : ListEnds conn nodes)
    (fresh : ∀ id ∈ nodes, id ∉ conn.freedResponses)
    (id : Nat) :
    Conserved conn (ymoHttpSessionAddResponse conn id) := by
  have added : Conserved conn (adding conn id) := by
    unfold adding
    rw [standing.access_session]
    exact { Conserved.refl conn with }
  have linked := ends.linked
  cases head : conn.response with
  | none =>
      rw [ymoHttpSessionAddResponse_of_none head]
      exact { added with }
  | some first =>
      rw [head] at linked
      rw [ymoHttpSessionAddResponse_of_walk head (linked.walk ends.enough)]
      rcases linked.of_some with ⟨rest, split, -⟩
      have isLast : nodes.getLast? = some (nodes.getLast?.getD first) := by
        rw [split, List.getLast?_eq_getLast_of_ne_nil
          (List.cons_ne_nil first rest)]
        rfl
      have member := List.mem_of_getLast? isLast
      generalize nodes.getLast?.getD first = final at member
      have walked :
          (adding conn id).access (nodes.map .response) = adding conn id := by
        apply (added.standing standing).access
        intro other inside
        rw [added.freedResponses]
        rcases List.mem_map.mp inside with ⟨node, here, same⟩
        cases same
        exact fresh other here
      unfold hangOn
      rw [walked]
      refine added.trans (conserved_setResponse ?_ rfl)
      rw [added.freedResponses]
      exact fresh final member

theorem conserved_issueResponse {conn : Conn} (standing : Standing conn)
    {nodes : List Nat}
    (listed : Listed conn nodes)
    (fresh : ∀ id ∈ nodes, id ∉ conn.freedResponses)
    (unused : conn.nextResponse ∉ conn.freedResponses)
    (flags : HttpFlags)
    (status : Nat) :
    Conserved conn (issueResponse flags status conn) := by
  let response := { ymoHttpResponseCreate with flags := flags }
  have made := conserved_created conn response ymoHttpHdrTableClear
  have listedMade := listed.create response ymoHttpHdrTableClear
  have added :=
    conserved_ymoHttpSessionAddResponse (made.standing standing)
      listedMade.ends fresh conn.nextResponse
  have both := made.trans added
  rw [issueResponse_eq]
  refine both.trans (conserved_callResponse (both.standing standing) ?_ _)
  rw [both.freedResponses]
  exact unused

/-- A response of the library holds no exchange. -/
theorem exchange_issueResponse (flags : HttpFlags) (status : Nat) {conn : Conn}
    {nodes : List Nat}
    (listed : Listed conn nodes) :
    ((issueResponse flags status conn).responses
        conn.nextResponse).exchange =
      none := by
  let response := { ymoHttpResponseCreate with flags := flags }
  let made := created conn response ymoHttpHdrTableClear
  have listedMade := listed.create response ymoHttpHdrTableClear
  have empty : (made.responses conn.nextResponse).exchange = none := by
    simp only [made, created, Function.update_self]
    rfl
  have called :
      ((issueResponse flags status conn).responses
          conn.nextResponse).exchange =
        ((ymoHttpSessionAddResponse made conn.nextResponse).responses
          conn.nextResponse).exchange := by
    have rests :=
      rests_callResponse
        (ymoHttpSessionAddResponse made conn.nextResponse)
        conn.nextResponse (.issue status)
    exact congrArg Links.exchange (rests.links conn.nextResponse)
  rw [called]
  have outside : conn.nextResponse ∉ nodes :=
    fun member => Nat.lt_irrefl _ (listed.ends.bounded _ member)
  have linked := listedMade.ends.linked
  cases head : made.response with
  | none =>
      rw [ymoHttpSessionAddResponse_of_none head]
      exact empty
  | some first =>
      rw [show (created conn response ymoHttpHdrTableClear).response =
        some first from head] at linked
      rw [ymoHttpSessionAddResponse_of_walk head
        (linked.walk listedMade.ends.enough)]
      rcases linked.of_some with ⟨rest, split, -⟩
      have isLast : nodes.getLast? = some (nodes.getLast?.getD first) := by
        rw [split, List.getLast?_eq_getLast_of_ne_nil
          (List.cons_ne_nil first rest)]
        rfl
      have other : conn.nextResponse ≠ nodes.getLast?.getD first :=
        fun same => outside (same ▸ List.mem_of_getLast? isLast)
      simp only [hangOn, Conn.setResponse, Function.update_of_ne other]
      exact empty

/-! ## Operations that free -/

/-- The exchanges that the responses hold. -/
def heldBy (conn : Conn) (nodes : List Nat) : List Nat :=
  nodes.flatMap fun id => (conn.responses id).exchange.toList

/-- The first response leaves the list, and is freed. -/
theorem ymoHttpSessionCompleteResponse_of_head {conn : Conn}
    (standing : Standing conn)
    (head : conn.response = some id)
    (fresh : id ∉ conn.freedResponses) :
    ymoHttpSessionCompleteResponse conn =
      { conn with
        response := conn.next id
        freedExchanges :=
          conn.freedExchanges ++ (conn.responses id).exchange.toList
        freedResponses := conn.freedResponses ++ [id] } := by
  have first : conn.access [.session, .response id] = conn := by
    apply standing.access
    intro other member
    rcases List.mem_cons.mp member with same | member
    · cases same
    · cases List.mem_singleton.mp member
      exact fresh
  have again :
      ({ conn with response := conn.next id } : Conn).access
          [.response id] =
        { conn with response := conn.next id } := by
    have still : Standing { conn with response := conn.next id } :=
      ⟨standing.attached, standing.session⟩
    apply still.access
    intro other member
    cases List.mem_singleton.mp member
    exact fresh
  unfold ymoHttpSessionCompleteResponse
  rw [head]
  dsimp only
  rw [first, ymoHttpResponseFree, again]

theorem completeAll_eq {bound : Nat} {conn : Conn} (standing : Standing conn)
    {nodes : List Nat}
    (linked : Linked conn.next conn.response nodes)
    (enough : nodes.length ≤ bound)
    (fresh : ∀ id ∈ nodes, id ∉ conn.freedResponses) :
    completeAll bound conn =
      { conn with
        response := none
        freedExchanges := conn.freedExchanges ++ heldBy conn nodes
        freedResponses := conn.freedResponses ++ nodes } := by
  induction nodes generalizing bound conn with
  | nil =>
      have none : conn.response = none := by
        cases head : conn.response with
        | none => rfl
        | some id =>
            rw [head] at linked
            rcases linked.of_some with ⟨rest, split, -⟩
            cases split
      have same : completeAll bound conn = conn := by
        cases bound with
        | zero => rfl
        | succ bound =>
            rw [completeAll, none]
            rfl
      rw [same, heldBy, List.flatMap_nil, List.append_nil,
        List.append_nil, ← none]
  | cons id rest ih =>
      have once := linked.nodup
      rcases linked.of_cons with ⟨head, tail⟩
      cases bound with
      | zero => cases enough
      | succ bound =>
          rw [completeAll, head,
            if_pos (show (some id).isSome = true from rfl),
            ymoHttpSessionCompleteResponse_of_head standing head
              (fresh id List.mem_cons_self)]
          have others :
              ∀ other ∈ rest, other ∉ conn.freedResponses ++ [id] := by
            intro other member
            rw [List.mem_append, List.mem_singleton, not_or]
            refine ⟨fresh other (List.mem_cons_of_mem id member), ?_⟩
            rintro rfl
            exact (List.nodup_cons.mp once).1 member
          have later :=
            @ih bound
              { conn with
                response := conn.next id
                freedExchanges :=
                  conn.freedExchanges ++ (conn.responses id).exchange.toList
                freedResponses := conn.freedResponses ++ [id] }
              ⟨standing.attached, standing.session⟩ tail
              (Nat.le_of_succ_le_succ enough) others
          rw [later]
          simp only [heldBy, List.flatMap_cons, List.append_assoc,
            List.singleton_append]

/-- The session goes with its exchange and its list. -/
theorem ymoHttpSessionFree_eq {conn : Conn} (standing : Standing conn)
    {nodes : List Nat}
    (ends : ListEnds conn nodes)
    (fresh : ∀ id ∈ nodes, id ∉ conn.freedResponses) :
    ymoHttpSessionFree conn =
      { conn with
        exchange := none
        response := none
        freedExchanges :=
          conn.freedExchanges ++ conn.exchange.toList ++ heldBy conn nodes
        freedResponses := conn.freedResponses ++ nodes
        sendBuffer := []
        sessionFrees := 1 } := by
  have accessed : conn.access [.session, .conn] = conn := by
    apply standing.access
    intro other member
    rcases List.mem_cons.mp member with same | member
    · cases same
    · cases List.mem_singleton.mp member
  unfold ymoHttpSessionFree ymoHttpSessionFreeRequest
  dsimp only
  rw [accessed, standing.access_session]
  have freed :
      Standing
        { conn with
          exchange := none
          freedExchanges := conn.freedExchanges ++ conn.exchange.toList } :=
    ⟨standing.attached, standing.session⟩
  rw [completeAll_eq freed ends.linked ends.enough fresh]
  dsimp only
  rw [standing.session]
  rfl

/-- The connection goes with its session. -/
theorem closeAndFreeConnection_eq {conn : Conn} (standing : Standing conn)
    {nodes : List Nat}
    (ends : ListEnds conn nodes)
    (fresh : ∀ id ∈ nodes, id ∉ conn.freedResponses) :
    closeAndFreeConnection conn =
      { conn with
        state := .closed
        exchange := none
        response := none
        freedExchanges :=
          conn.freedExchanges ++ conn.exchange.toList ++ heldBy conn nodes
        freedResponses := conn.freedResponses ++ nodes
        sendBuffer := []
        sessionFrees := 1
        connFrees := 1 } := by
  have shut : Standing { conn with state := .closed } :=
    ⟨standing.attached, standing.session⟩
  unfold closeAndFreeConnection
  dsimp only
  rw [standing.access_conn, if_neg (by rw [standing.attached.2]; decide),
    ymoHttpSessionFree_eq shut ⟨ends.linked, ends.bounded⟩ fresh]
  dsimp only
  rw [standing.attached.1]
  rfl

/-- A response that was sent is freed, and then asked for its protocol. -/
theorem completedHead_eq {conn : Conn} (standing : Standing conn)
    (head : conn.response = some id)
    (fresh : id ∉ conn.freedResponses) :
    completedHead conn id =
      { conn with
        sendBuffer := []
        completed := conn.completed ++ [id]
        response := conn.next id
        freedExchanges :=
          conn.freedExchanges ++ (conn.responses id).exchange.toList
        freedResponses := conn.freedResponses ++ [id]
        faults := conn.faults ++ [.response id] } := by
  have sent :
      Standing
        { conn with
          sendBuffer := []
          completed := conn.completed ++ [id] } :=
    ⟨standing.attached, standing.session⟩
  have missed :
      ∀ after : Conn,
        id ∈ after.freedResponses →
          after.access [.response id] =
            { after with faults := after.faults ++ [.response id] } := by
    intro after freed
    unfold Conn.access
    rw [List.filter_cons_of_pos, List.filter_nil]
    rw [Conn.freed, List.contains_iff_mem]
    exact freed
  unfold completedHead
  rw [ymoHttpSessionCompleteResponse_of_head sent head fresh, missed]
  · rfl
  · exact List.mem_append_right _ List.mem_cons_self

/-! ## The account -/

/--
What a connection that is there owns: the exchange of the session, those of the
responses on the list, and those in hand; with those it freed they are all that
were created.  It freed the responses that it sent, and those that were dropped.
-/
structure Accounts
    (conn : Conn)
    (nodes hand dropped : List Nat) : Prop where
  standing : Standing conn
  responses : conn.freedResponses = conn.completed ++ dropped
  outside : ∀ id ∈ dropped, id ∉ conn.added
  once : dropped.Nodup
  exchanges :
    (conn.freedExchanges ++
        (conn.exchange.toList ++ (heldBy conn nodes ++ hand))).Perm
      (List.range conn.nextExchange)
  faults : conn.faults = conn.completed.map .response

/-- The connection or its session has gone, with everything it owned. -/
structure Ended (conn : Conn) : Prop where
  left : ¬ Attached conn
  session : conn.sessionFrees = 1
  connection : conn.connFrees ≤ 1
  exchanges : conn.freedExchanges.Perm (List.range conn.nextExchange)
  responses : conn.freedResponses.Nodup
  added : ∀ id ∈ conn.added, id ∈ conn.freedResponses
  faults : conn.faults = conn.completed.map .response

theorem perm_of_count {left right all : List Nat} (perm : left.Perm all)
    (same : ∀ number, right.count number = left.count number) :
    right.Perm all :=
  (List.perm_iff_count.mpr same).trans perm

theorem heldBy_congr {nodes : List Nat}
    (same :
      ∀ id ∈ nodes,
        (after.responses id).exchange = (before.responses id).exchange) :
    heldBy after nodes = heldBy before nodes := by
  unfold heldBy
  apply List.flatMap_congr
  intro id member
  rw [same id member]

theorem Accounts.conserved {nodes hand dropped : List Nat}
    (accounts : Accounts before nodes hand dropped)
    (bounded : ∀ id ∈ nodes, id < before.nextResponse)
    (conserved : Conserved before after)
    (outside : ∀ id ∈ dropped, id ∉ after.added) :
    Accounts after nodes hand dropped where
  standing := conserved.standing accounts.standing
  responses := by
    rw [conserved.freedResponses, conserved.completed]
    exact accounts.responses
  outside := outside
  once := accounts.once
  exchanges := by
    rw [conserved.freedExchanges, conserved.exchange,
      conserved.nextExchange,
      heldBy_congr fun id member => conserved.held id (bounded id member)]
    exact accounts.exchanges
  faults := by
    rw [conserved.faults, conserved.completed]
    exact accounts.faults

section Owned

variable
    {conn : Conn}
    {nodes hand dropped : List Nat}

/-- What is neither sent nor dropped was not freed. -/
theorem Accounts.not_freed (accounts : Accounts conn nodes hand dropped)
    (unsent : id ∉ conn.completed)
    (kept : id ∉ dropped) :
    id ∉ conn.freedResponses := by
  rw [accounts.responses, List.mem_append, not_or]
  exact ⟨unsent, kept⟩

/-- A response that is on the list was not freed. -/
theorem Accounts.fresh (accounts : Accounts conn nodes hand dropped)
    (queued : Queued conn nodes) :
    ∀ id ∈ nodes, id ∉ conn.freedResponses := by
  intro id member
  have order := queued.order accounts.standing.attached
  have once := queued.listed.once
  have inside := queued.listed.members id member
  rw [order] at once
  apply accounts.not_freed
  · intro sent
    exact (List.nodup_append.mp once).2.2 id sent id member rfl
  · intro lost
    exact accounts.outside id lost inside

/-- A response that was not put on the list was not sent. -/
theorem Accounts.not_sent (accounts : Accounts conn nodes hand dropped)
    (queued : Queued conn nodes)
    (unlisted : id ∉ conn.added) :
    id ∉ conn.completed := by
  intro sent
  rw [queued.order accounts.standing.attached] at unlisted
  exact unlisted (List.mem_append_left _ sent)

theorem Accounts.nodup (accounts : Accounts conn nodes hand dropped)
    (queued : Queued conn nodes) :
    (conn.freedResponses ++ nodes).Nodup := by
  have order := queued.order accounts.standing.attached
  have once := queued.listed.once
  have outside := accounts.outside
  rw [order] at once outside
  have apart := List.nodup_append.mp once
  rw [accounts.responses, List.append_assoc, List.nodup_append]
  refine ⟨apart.1, ?_, ?_⟩
  · rw [List.nodup_append]
    refine ⟨accounts.once, apart.2.1, ?_⟩
    intro id lost other member same
    subst same
    exact outside id lost (List.mem_append_right _ member)
  · intro id sent other member same
    subst same
    rcases List.mem_append.mp member with lost | listed
    · exact outside id lost (List.mem_append_left _ sent)
    · exact apart.2.2 id sent id listed rfl

/-- A connection that is freed takes everything with it. -/
theorem Accounts.closed (accounts : Accounts conn nodes [] dropped)
    (queued : Queued conn nodes) :
    Ended (closeAndFreeConnection conn) := by
  rw [closeAndFreeConnection_eq accounts.standing queued.listed.ends
    (accounts.fresh queued)]
  refine
    { left := fun attached => Nat.one_ne_zero attached.1
      session := rfl
      connection := Nat.le_refl 1
      exchanges := ?_
      responses := accounts.nodup queued
      added := ?_
      faults := accounts.faults }
  · apply perm_of_count accounts.exchanges
    intro number
    simp only [List.append_nil, List.append_assoc]
  · intro id member
    dsimp only at member ⊢
    rw [queued.order accounts.standing.attached] at member
    rw [accounts.responses]
    rcases List.mem_append.mp member with sent | listed
    · exact List.mem_append_left _ (List.mem_append_left _ sent)
    · exact List.mem_append_right _ listed

end Owned

/-! ## Write callbacks -/

theorem conserved_sentFrom (outcomes : List SendOutcome) {conn : Conn}
    (standing : Standing conn)
    (fresh : id ∉ conn.freedResponses) :
    Conserved conn (sentFrom outcomes conn id) := by
  have accessed : conn.access [.session, .conn] = conn := by
    apply standing.access
    intro other member
    rcases List.mem_cons.mp member with same | member
    · cases same
    · cases List.mem_singleton.mp member
  have written :
      Conserved conn
        (conn.setResponse id
          (writeResponse (conn.memory id) (conn.socket outcomes)
            (conn.responses id) conn.sendBuffer).response) :=
    conserved_setResponse fresh
      (congrArg Links.exchange
        (linksOf_writeResponse (conn.memory id) (conn.socket outcomes)
          (conn.responses id) conn.sendBuffer))
  unfold sentFrom
  dsimp only
  rw [accessed]
  exact { written with }

theorem conserved_shutAfter (keepalive : Bool) {conn : Conn}
    (standing : Standing conn) :
    Conserved conn (shutAfter keepalive conn) := by
  unfold shutAfter ymoConnShutdown
  rw [standing.access_conn]
  exact { Conserved.refl conn with }

/-- What follows a response that was sent accesses the next one only. -/
theorem conserved_settleWrite (keepalive : Bool) {conn : Conn}
    (standing : Standing conn)
    (fresh : ∀ id ∈ conn.response, id ∉ conn.freedResponses) :
    Conserved conn (settleWrite keepalive conn).2 := by
  have accessed :
      ∀ after : Conn,
        Conserved conn after →
          after.response = conn.response →
            after.access
                (.session :: after.response.toList.map .response) =
              after := by
    intro after conserved response
    apply (conserved.standing standing).access
    intro id member
    rw [conserved.freedResponses]
    rcases List.mem_cons.mp member with same | member
    · cases same
    · rcases List.mem_map.mp member with ⟨next, inside, same⟩
      cases same
      rw [response] at inside
      exact fresh id (Option.mem_toList.mp inside)
  have shut := conserved_shutAfter keepalive standing
  have kept : Conserved conn (keptOpen keepalive conn) := by
    unfold keptOpen
    dsimp only
    split
    · rw [accessed conn (Conserved.refl conn) rfl]
      exact Conserved.refl conn
    · rw [accessed _ shut (rests_shutAfter keepalive conn).response]
      exact shut
  unfold settleWrite
  dsimp only
  split
  · exact kept
  · split
    · exact kept.trans (conserved_shutAfter keepalive (kept.standing standing))
    · exact kept

/-- The account after the first response of the list was sent. -/
theorem Accounts.popped {conn : Conn} {behind : List Nat}
    (accounts : Accounts conn (id :: behind) [] [])
    (queued : Queued conn (id :: behind)) :
    Accounts (completedHead conn id) behind [] [] ∧
      (∀ other ∈ behind,
        other ∉ (completedHead conn id).freedResponses) ∧
        ListEnds (completedHead conn id) behind ∧
          (completedHead conn id).added =
            (completedHead conn id).completed ++ behind := by
  have fresh := accounts.fresh queued
  rcases queued.listed.ends.linked.of_cons with ⟨head, tail⟩
  have once := accounts.nodup queued
  rw [completedHead_eq accounts.standing head (fresh id List.mem_cons_self)]
  refine ⟨?_, ?_, ⟨tail, ?_⟩, ?_⟩
  · refine
      { standing :=
          ⟨accounts.standing.attached, accounts.standing.session⟩
        responses := ?_
        outside := by
          intro other member
          cases member
        once := List.nodup_nil
        exchanges := ?_
        faults := ?_ }
    · dsimp only
      rw [accounts.responses, List.append_nil, List.append_nil]
    · apply perm_of_count accounts.exchanges
      intro number
      simp only [heldBy, List.flatMap_cons, List.count_append]
      omega
    · dsimp only
      rw [accounts.faults, List.map_append, List.map_singleton]
  · intro other member
    dsimp only
    rw [List.mem_append, List.mem_singleton, not_or]
    refine ⟨fresh other (List.mem_cons_of_mem id member), ?_⟩
    rintro rfl
    have apart := (List.nodup_append.mp once).2.1
    exact (List.nodup_cons.mp apart).1 member
  · intro other member
    exact queued.listed.ends.bounded other (List.mem_cons_of_mem id member)
  · dsimp only
    rw [queued.order accounts.standing.attached, List.append_assoc]
    rfl

/-- The session goes over to another protocol: what it owns is freed. -/
theorem ended_transition {conn : Conn} {nodes : List Nat}
    (accounts : Accounts conn nodes [] [])
    (ends : ListEnds conn nodes)
    (fresh : ∀ id ∈ nodes, id ∉ conn.freedResponses)
    (order : conn.added = conn.completed ++ nodes)
    (once : conn.added.Nodup) :
    Ended { ymoHttpSessionFree conn with handedOver := true } := by
  rw [ymoHttpSessionFree_eq accounts.standing ends fresh]
  have freed : conn.freedResponses ++ nodes = conn.added := by
    rw [accounts.responses, List.append_nil, order]
  refine
    { left := fun attached => Bool.noConfusion attached.2
      session := rfl
      connection := by
        rw [accounts.standing.attached.1]
        exact Nat.zero_le 1
      exchanges := ?_
      responses := ?_
      added := ?_
      faults := accounts.faults }
  · apply perm_of_count accounts.exchanges
    intro number
    simp only [List.append_nil, List.append_assoc]
  · dsimp only
    rw [freed]
    exact once
  · dsimp only
    rw [freed]
    exact fun id member => member

/-- The rest of `ymo_write_cb`, after the callback of the protocol. -/
def settleCb (written : Status × Conn) : Conn :=
  let conn := written.2.access [.conn]
  if written.1 ≠ .okay ∧ ymoIsBlocked written.1 = false then
    closeAndFreeConnection conn
  else conn

theorem ymoWriteCb_eq (outcomes : List SendOutcome) (transition : Status)
    (conn : Conn) :
    ymoWriteCb outcomes transition conn =
      settleCb (ymoProtoHttpWrite outcomes transition (conn.access [.conn])) :=
  rfl

/-- A write callback that loses no response keeps the account, or ends it. -/
theorem settleCb_kept {status : Status} {conn : Conn} {nodes : List Nat}
    (accounts : Accounts conn nodes [] [])
    (queued : Queued conn nodes) :
    Ended (settleCb (status, conn)) ∨ settleCb (status, conn) = conn := by
  unfold settleCb
  dsimp only
  rw [accounts.standing.access_conn]
  split
  · exact .inl (accounts.closed queued)
  · exact .inr rfl

/-- A connection that was handed over may be freed, without the session. -/
theorem Ended.settleCb {status : Status} {conn : Conn} (ended : Ended conn)
    (handedOver : conn.handedOver = true)
    (there : conn.connFrees = 0) :
    Ended (settleCb (status, conn)) := by
  unfold ObjectLife.settleCb
  dsimp only
  rw [access_conn there]
  split
  · have freed :
        closeAndFreeConnection conn =
          { conn with state := .closed, connFrees := 1 } := by
      unfold closeAndFreeConnection
      dsimp only
      rw [access_conn there, if_pos handedOver, there]
    rw [freed]
    exact
      { ended with
        left := fun attached => Nat.one_ne_zero attached.1
        connection := Nat.le_refl 1 }
  · exact ended

/-- A write callback keeps the account, or the connection takes everything with
it. -/
theorem Accounts.written {conn : Conn} {nodes : List Nat}
    (accounts : Accounts conn nodes [] [])
    (queued : Queued conn nodes)
    (outcomes : List SendOutcome)
    (transition : Status) :
    Ended (ymoWriteCb outcomes transition conn) ∨
      ∃ rest,
        Queued (ymoWriteCb outcomes transition conn) rest ∧
          Accounts (ymoWriteCb outcomes transition conn) rest [] [] := by
  have standing := accounts.standing
  have after :=
    queued.of_outgoing
      (ymoWriteCb_outgoing outcomes transition queued.listed.ends)
  have settled :
      ∀ rest,
        Linked (ymoWriteCb outcomes transition conn).next
            (ymoWriteCb outcomes transition conn).response rest →
          Accounts (ymoWriteCb outcomes transition conn) rest [] [] →
            ∃ rest,
              Queued (ymoWriteCb outcomes transition conn) rest ∧
                Accounts (ymoWriteCb outcomes transition conn) rest [] [] := by
    intro rest linked kept
    rcases after with ⟨others, listed⟩
    have same := Listed.unique listed.listed linked
    subst same
    exact ⟨others, listed, kept⟩
  rw [ymoWriteCb_eq, standing.access_conn] at settled ⊢
  cases head : conn.response with
  | none =>
      have idle :
          ymoProtoHttpWrite outcomes transition conn = (.okay, conn) := by
        unfold ymoProtoHttpWrite
        rw [head]
        dsimp only
        rw [standing.access_session]
      rw [idle] at settled ⊢
      rcases
          @settleCb_kept .okay conn nodes accounts queued
        with ended | same
      · exact .inl ended
      · rw [same] at settled ⊢
        exact .inr (settled nodes queued.listed.ends.linked accounts)
  | some id =>
      have linked := queued.listed.ends.linked
      rw [head] at linked
      rcases linked.of_some with ⟨behind, split, -⟩
      subst split
      have fresh := accounts.fresh queued id List.mem_cons_self
      have rests := rests_sentFrom outcomes conn id
      have conserved := conserved_sentFrom outcomes standing fresh
      have sent : Queued (sentFrom outcomes conn id) (id :: behind) :=
        queued.same (Rests.sameList rests) ⟨_, queued.listed.of_rests rests⟩
      have kept : Accounts (sentFrom outcomes conn id) (id :: behind) [] [] :=
        accounts.conserved queued.listed.ends.bounded conserved
          fun other member => absurd member List.not_mem_nil
      have stillHead := rests.response.trans head
      rw [ymoProtoHttpWrite_of_head outcomes transition head] at settled ⊢
      cases last : completes conn outcomes id with
      | false =>
          rw [last, if_neg Bool.false_ne_true] at settled
          rw [if_neg Bool.false_ne_true]
          rcases settleCb_kept kept sent with ended | same
          · exact .inl ended
          · rw [same] at settled ⊢
            exact .inr (settled (id :: behind) sent.listed.ends.linked kept)
      | true =>
          rw [last, if_pos rfl, completeWrite_eq] at settled
          rw [if_pos rfl, completeWrite_eq]
          rcases kept.popped sent with
            ⟨popped, others, ends, order⟩
          have once :
              (completedHead (sentFrom outcomes conn id) id).added.Nodup := by
            have completed := completed_completedHead stillHead
            rw [completed.added]
            exact sent.listed.once
          generalize completedHead (sentFrom outcomes conn id) id = next
            at settled popped others ends order once ⊢
          generalize
            ((sentFrom outcomes conn id).responses
              id).flags.requestKeepalive = keepalive at settled ⊢
          by_cases upgrade : (next.responses id).protoNew.isSome = true
          · rw [if_pos upgrade]
            left
            unfold ymoConnTransitionProto
            rw [popped.standing.access_conn]
            apply (ended_transition popped ends others order once).settleCb rfl
            rw [ymoHttpSessionFree_eq popped.standing ends others]
            exact popped.standing.attached.1
          · rw [if_neg upgrade] at settled ⊢
            have nextFresh :
                ∀ other ∈ next.response, other ∉ next.freedResponses := by
              intro other member
              have linked := ends.linked
              rw [Option.mem_def.mp member] at linked
              rcases linked.of_some with ⟨rest, split, -⟩
              exact others other (split ▸ List.mem_cons_self)
            have saved :=
              conserved_settleWrite keepalive popped.standing nextFresh
            have settledWrite := rests_settleWrite keepalive next
            have still :=
              popped.conserved ends.bounded saved
                fun other member => absurd member List.not_mem_nil
            have goesOn :
                settleCb (settleWrite keepalive next) =
                  (settleWrite keepalive next).2 := by
              unfold settleCb
              dsimp only
              rw [still.standing.access_conn, if_neg]
              rintro ⟨notOkay, notBlocked⟩
              rcases settledWrite.2 with okay | blocked
              · exact notOkay okay
              · rw [blocked] at notBlocked
                cases notBlocked
            rw [goesOn] at settled ⊢
            refine .inr (settled behind ?_ still)
            rw [settledWrite.1.next, settledWrite.1.response]
            exact ends.linked

end Yimmo.Http.ObjectLife
