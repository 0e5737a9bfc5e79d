import Yimmo.Http.Dispatch

/-!
# The effects of a read

`ymo_proto_http_read` returns what it does to the connection as a list of effects.
This module carries them out one after the other: each effect that is in its
place takes the response of the exchange from one place to the next, keeps the
list of responses a list, and records what it does to the exchange and to the
requests, and nothing else.
-/

namespace Yimmo.Http.DispatchEffects

open Yimmo.Core.StatusCode
open Yimmo.Core.Net
open Yimmo.Lib.ByteMemory
open Yimmo.Http.Headers
open Yimmo.Http.Exchange
open Yimmo.Http.Application
open Yimmo.Http.Reader
open Yimmo.Http.ReadEffects
open Yimmo.Http.Response
open Yimmo.Http.Session
open Yimmo.Http.SessionQueue
open Yimmo.Http.Dispatch

variable
    {conn : Conn}
    {slot : Nat}
    {stage : Stage}
    {before after : Conn}
    {id : Nat}
    {nodes : List Nat}
    (outcomes : List SendOutcome)

/-! ## What an effect records -/

/-- The requests, their exchanges and what was dispatched are as they were. -/
structure Books (before after : Conn) : Prop where
  exchanges : after.exchanges = before.exchanges
  exchangeResponse : after.exchangeResponse = before.exchangeResponse
  requests : after.requests = before.requests
  handled : after.handled = before.handled

theorem Books.refl (conn : Conn) : Books conn conn :=
  ⟨rfl, rfl, rfl, rfl⟩

theorem Books.trans {before between after : Conn}
    (first : Books before between)
    (second : Books between after) :
    Books before after where
  exchanges := second.exchanges.trans first.exchanges
  exchangeResponse := second.exchangeResponse.trans first.exchangeResponse
  requests := second.requests.trans first.requests
  handled := second.handled.trans first.handled

theorem Untouched.books (untouched : Untouched before after) :
    Books before after :=
  ⟨untouched.exchanges, untouched.exchangeResponse,
    untouched.requests, untouched.handled⟩

theorem books_ymoHttpSessionAddResponse (conn : Conn) (id : Nat) :
    Books conn (ymoHttpSessionAddResponse conn id) := by
  unfold ymoHttpSessionAddResponse
  dsimp only
  split
  · exact ⟨rfl, rfl, rfl, rfl⟩
  · split
    · exact ⟨rfl, rfl, rfl, rfl⟩
    · exact ⟨rfl, rfl, rfl, rfl⟩

theorem books_callResponse (conn : Conn) (id : Nat) (call : ResponseCall) :
    Books conn (callResponse conn id call) :=
  ⟨rfl, rfl, rfl, rfl⟩

theorem books_issueResponse (flags : HttpFlags) (status : Nat) (conn : Conn) :
    Books conn (issueResponse flags status conn) := by
  let made :=
    created conn { ymoHttpResponseCreate with flags := flags }
      ymoHttpHdrTableClear
  have added : Books made
      (ymoHttpSessionAddResponse made conn.nextResponse) :=
    books_ymoHttpSessionAddResponse made conn.nextResponse
  have first : Books conn made := ⟨rfl, rfl, rfl, rfl⟩
  exact
    (first.trans added).trans
      (books_callResponse _ conn.nextResponse (.issue status))

theorem books_fold {slot : List Nat} {operate : Conn → Nat → Conn}
    (kept : ∀ conn id, Books conn (operate conn id))
    (conn : Conn) :
    Books conn (slot.foldl operate conn) := by
  induction slot generalizing conn with
  | nil => exact Books.refl conn
  | cons id rest ih => exact (kept conn id).trans (ih _)

/-- The connection with what an effect records about its exchange. -/
def recorded (slot : Nat) (conn : Conn) : Effect → Conn
  | .newExchange =>
      { conn with
        exchangeResponse := Function.update conn.exchangeResponse slot none }
  | .initResponse _ =>
      { conn with
        exchangeResponse :=
          Function.update conn.exchangeResponse slot (some conn.nextResponse)
        requests := conn.requests ++ [conn.nextResponse] }
  | .handler =>
      { conn with
        handled := conn.handled ++ (conn.exchangeResponse slot).toList }
  | .store content =>
      { conn with exchanges := Function.update conn.exchanges slot content }
  | _ => conn

/-- The other effects leave the records alone. -/
theorem books_perform (transition : Status) (slot : Nat) (conn : Conn)
    (effect : Effect) :
    Books (recorded slot conn effect)
      (perform outcomes transition slot conn effect) := by
  cases effect with
  | sendContinue =>
      exact
        (books_issueResponse _ _ conn).trans
          (Untouched.books (untouched_ymoWriteCb outcomes transition _))
  | call call =>
      apply books_fold
      exact fun conn id => ⟨rfl, rfl, rfl, rfl⟩
  | protoNew proto =>
      apply books_fold
      exact fun conn id => ⟨rfl, rfl, rfl, rfl⟩
  | detachExchange =>
      apply books_fold
      exact fun conn id => ⟨rfl, rfl, rfl, rfl⟩
  | addResponse => exact books_fold books_ymoHttpSessionAddResponse _
  | freeResponse =>
      apply books_fold
      exact fun conn id => ⟨rfl, rfl, rfl, rfl⟩
  | errorResponse status =>
      have issued :=
        books_issueResponse HttpFlags.none status (conn.access [.session])
      exact
        ⟨issued.exchanges, issued.exchangeResponse, issued.requests,
          issued.handled⟩
  | _ => exact ⟨rfl, rfl, rfl, rfl⟩

/-! ## Effects in their place -/

/-- The list is there, and the response is where the stage says. -/
def Placed (slot : Nat) (stage : Stage) (conn : Conn) : Prop :=
  (∃ nodes, Listed conn nodes) ∧ At conn slot stage

theorem Placed.of_rests (placed : Placed slot stage before)
    (rests : Rests before after) :
    Placed slot stage after := by
  rcases placed with ⟨⟨nodes, listed⟩, place⟩
  exact ⟨⟨nodes, listed.of_rests rests⟩, place.steady (Rests.steady rests)⟩

theorem Answered.of_books (handled : after.handled = before.handled)
    (declined : after.declined = before.declined)
    (answered : Answered before id) :
    Answered after id := by
  unfold Answered
  rw [handled, declined]
  exact answered

/-- Everything else of a response may change, as long as its successor stays. -/
theorem Placed.setResponse (placed : Placed slot stage conn)
    {response : HttpResponse}
    (same : response.next = conn.next id) :
    Placed slot stage (conn.setResponse id response) := by
  rcases placed with ⟨⟨nodes, listed⟩, place⟩
  have next : (conn.setResponse id response).next = conn.next := by
    funext other
    by_cases here : other = id
    · subst here
      simp only [Conn.setResponse, Conn.next, Function.update_self]
      exact same
    · simp only [Conn.setResponse, Conn.next, Function.update_of_ne here]
  refine ⟨⟨nodes, ?_⟩, place.steady ?_⟩
  · exact
      listed.transport rfl (fun other _ => congrFun next other)
        (Nat.le_refl _) rfl rfl rfl (fun other member => .inl member)
        rfl (fun attached => attached)
  · exact
      { error := fun raised => raised
        exchangeResponse := rfl
        origin := rfl
        nextExchange := rfl
        requests := rfl
        handled := rfl
        declined := rfl
        nextResponse := Nat.le_refl _
        added := fun _ _ member => member
        next := fun other _ _ => congrFun next other
        exchange := fun attached => ⟨attached, rfl⟩ }

theorem placed_newExchange (transition : Status)
    (placed : Placed slot .absent conn) :
    Placed slot .idle
      (perform outcomes transition slot conn .newExchange) := by
  rcases placed with ⟨⟨nodes, listed⟩, place⟩
  cases place with
  | absent exchange number answered =>
      refine ⟨⟨nodes, ?_⟩, .idle (fun _ => rfl) answered⟩
      exact
        listed.transport rfl (fun _ _ => rfl) (Nat.le_refl _) rfl rfl rfl
          (fun other member => .inl member) rfl
          (fun attached => attached)

theorem next_ymoHttpSessionInitResponse (flags : HttpFlags) :
    (ymoHttpSessionInitResponse flags).next = none := by
  unfold ymoHttpSessionInitResponse
  dsimp only
  split
  · split <;> rfl
  · split <;> rfl

theorem placed_initResponse (transition : Status)
    (placed : Placed slot .idle conn)
    (flags : HttpFlags) :
    Placed slot (.answering false)
      (perform outcomes transition slot conn (.initResponse flags)) := by
  rcases placed with ⟨⟨nodes, listed⟩, place⟩
  have fresh : conn.nextResponse ∉ conn.added :=
    fun member => Nat.lt_irrefl _ (listed.numbered _ member)
  have waiting : conn.nextResponse ∉ conn.handled :=
    fun member => Nat.lt_irrefl _ (listed.handledNumbered _ member)
  have numbered : conn.nextResponse < conn.nextResponse + 1 :=
    Nat.lt_succ_self _
  have early :
      ∀ id, id < conn.nextResponse →
        (perform outcomes transition slot conn
          (.initResponse flags)).next id = conn.next id := by
    intro id early
    simp only [perform, Conn.next, Function.update_of_ne (Nat.ne_of_lt early)]
  cases place with
  | idle exchange answered =>
      refine
        ⟨⟨nodes, ?_⟩,
          .answering false conn.nextResponse exchange
            { own := ?_, origin := ?_, numbered := numbered
              fresh := fresh, last := ?_, others := ?_ }
            waiting⟩
      · refine
          listed.transport rfl ?_ (Nat.le_succ _) rfl rfl rfl ?_ rfl
            (fun attached => attached)
        · exact fun id member => early id (listed.ends.bounded id member)
        · intro id member
          rcases List.mem_append.mp member with old | new
          · exact .inl old
          · rw [List.mem_singleton.mp new]
            exact .inr numbered
      · simp only [perform, Function.update_self]
      · simp only [perform, Function.update_self]
      · simp only [perform, Conn.next, Function.update_self]
        exact next_ymoHttpSessionInitResponse flags
      · intro id member
        rcases List.mem_append.mp member with old | new
        · exact .inr (answered id old)
        · exact .inl (List.mem_singleton.mp new)

theorem placed_errorResponse (transition : Status)
    (placed : Placed slot stage conn)
    (status : Nat) :
    Placed slot stage
      (perform outcomes transition slot conn (.errorResponse status)) := by
  rcases placed.of_rests (rests_access conn [.session])
    with ⟨⟨nodes, listed⟩, place⟩
  rcases issueResponse_listed listed HttpFlags.none status
    with ⟨issued, steady⟩
  exact ⟨⟨_, issued⟩, place.steady steady⟩

theorem placed_refused (transition : Status) (placed : Placed slot .idle conn)
    {status : Nat}
    (enough : 400 ≤ status) :
    Placed slot .refused
      (perform outcomes transition slot conn (.errorResponse status)) := by
  rcases placed_errorResponse outcomes transition placed status
    with ⟨listed, place⟩
  refine ⟨listed, ?_⟩
  cases place with
  | idle exchange answered =>
      exact
        .refused exchange
          (issueResponse_error HttpFlags.none enough _) answered

theorem placed_sendContinue (transition : Status)
    (placed : Placed slot stage conn) :
    Placed slot stage
      (perform outcomes transition slot conn .sendContinue) := by
  rcases placed with ⟨⟨nodes, listed⟩, place⟩
  rcases sendContinue_listed outcomes transition listed with ⟨sent, steady⟩
  exact ⟨sent, place.steady steady⟩

theorem placed_sendContinue_first (transition : Status)
    (placed : Placed slot (.answering false) conn) :
    Placed slot (.answering true)
      (perform outcomes transition slot conn .sendContinue) := by
  rcases placed_sendContinue outcomes transition placed with ⟨listed, place⟩
  refine ⟨listed, ?_⟩
  cases place with
  | answering continued id exchange current waiting =>
      exact .answering true id exchange current waiting

theorem placed_call (transition : Status) (placed : Placed slot stage conn)
    (call : ResponseCall) :
    Placed slot stage
      (perform outcomes transition slot conn (.call call)) := by
  have called :
      ∀ (ids : List Nat) (conn : Conn),
        Placed slot stage conn →
          Placed slot stage
            (ids.foldl (fun conn id => callResponse conn id call) conn) := by
    intro ids
    induction ids with
    | nil => exact fun conn placed => placed
    | cons id ids ih =>
        rintro conn ⟨⟨nodes, listed⟩, place⟩
        exact
          ih _
            ⟨⟨nodes, listed.call id call⟩,
              place.steady (steady_callResponse conn id call)⟩
  exact called _ conn placed

theorem placed_handler (transition : Status) {continued : Bool}
    (placed : Placed slot (.answering continued) conn) :
    Placed slot .handling
      (perform outcomes transition slot conn .handler) := by
  rcases placed with ⟨⟨nodes, listed⟩, place⟩
  cases place with
  | answering _ id exchange current waiting =>
      have called :
          perform outcomes transition slot conn .handler =
            { conn with handled := conn.handled ++ [id] } := by
        simp only [perform, current.own]
        rfl
      rw [called]
      refine
        ⟨⟨nodes, ?_⟩,
          .handling id exchange
            { own := current.own, origin := current.origin
              numbered := current.numbered, fresh := current.fresh
              last := current.last, others := ?_ }
            (List.mem_append_right _ List.mem_cons_self)⟩
      · exact
          { ends := ⟨listed.ends.linked, listed.ends.bounded⟩
            once := listed.once
            members := listed.members
            numbered := listed.numbered
            kept := listed.kept
            handled :=
              List.nodup_append.mpr
                ⟨listed.handled, List.nodup_singleton id,
                  fun old member new here same =>
                    waiting (List.mem_singleton.mp here ▸ same ▸ member)⟩
            handledNumbered := by
              intro other member
              rcases List.mem_append.mp member with old | new
              · exact listed.handledNumbered other old
              · rw [List.mem_singleton.mp new]
                exact current.numbered
            requestsNumbered := listed.requestsNumbered
            hung := listed.hung }
      · intro other member
        exact
          (current.others other member).imp_right fun answered =>
            answered.imp_left (List.mem_append_left _)

theorem placed_protoNew (transition : Status) (placed : Placed slot stage conn)
    (proto : Option Nat) :
    Placed slot stage
      (perform outcomes transition slot conn (.protoNew proto)) := by
  have set :
      ∀ (ids : List Nat) (conn : Conn),
        Placed slot stage conn →
          Placed slot stage
            (ids.foldl
              (fun conn id =>
                conn.setResponse id
                  { conn.responses id with protoNew := proto })
              conn) := by
    intro ids
    induction ids with
    | nil => exact fun conn placed => placed
    | cons id ids ih =>
        intro conn placed
        exact ih _ (placed.setResponse rfl)
  exact set _ conn placed

theorem placed_detachExchange (transition : Status)
    (placed : Placed slot .handling conn) :
    Placed slot .detached
      (perform outcomes transition slot conn .detachExchange) := by
  rcases placed with ⟨listed, place⟩
  cases place with
  | handling id exchange current handled =>
      have called :
          perform outcomes transition slot conn .detachExchange =
            { conn.setResponse id
                { conn.responses id with exchange := conn.exchange } with
              exchange := none } := by
        simp only [perform, current.own]
        rfl
      have set :
          Placed slot .handling
            (conn.setResponse id
              { conn.responses id with exchange := conn.exchange }) :=
        Placed.setResponse ⟨listed, .handling id exchange current handled⟩ rfl
      rw [called]
      rcases set with ⟨⟨nodes, still⟩, place⟩
      refine ⟨⟨nodes, ?_⟩, ?_⟩
      · exact
          still.transport rfl (fun _ _ => rfl) (Nat.le_refl _) rfl rfl
            rfl (fun other member => .inl member) rfl
            (fun attached => attached)
      · cases place with
        | handling other exchange current handled =>
            exact
              .detached other (fun _ => rfl)
                { own := current.own, origin := current.origin
                  numbered := current.numbered, fresh := current.fresh
                  last := current.last, others := current.others }
                handled

/-- The response is hung on the end of the list, where it was not yet. -/
theorem addResponse_listed (transition : Status) {slot id : Nat}
    (listed : Listed conn nodes)
    (current : Current conn slot id) :
    Appended conn nodes id
        (perform outcomes transition slot conn .addResponse) ∧
      Listed (perform outcomes transition slot conn .addResponse)
        (nodes ++ [id]) := by
  have called :
      perform outcomes transition slot conn .addResponse =
        ymoHttpSessionAddResponse conn id := by
    simp only [perform, current.own]
    rfl
  have appended :=
    appended_ymoHttpSessionAddResponse listed.ends
      (fun member => current.fresh (listed.members id member))
      current.numbered current.last
  rw [called]
  exact ⟨appended, listed.append appended current.fresh current.numbered⟩

/-- Every request was answered once the response of the last one was. -/
theorem Current.answered {slot id : Nat} (current : Current conn slot id)
    (handled : id ∈ conn.handled) :
    ∀ other ∈ conn.requests, Answered conn other := by
  intro other member
  rcases current.others other member with same | answered
  · rw [same]
    exact .inl handled
  · exact answered

theorem Appended.attached (appended : Appended before nodes id after)
    (attached : Attached after) :
    Attached before :=
  ⟨appended.connFrees.symm.trans attached.1,
    appended.handedOver.symm.trans attached.2⟩

theorem Appended.answered (appended : Appended before nodes id after)
    (answered : ∀ other ∈ before.requests, Answered before other) :
    ∀ other ∈ after.requests, Answered after other := by
  intro other member
  rw [appended.requests] at member
  exact
    Answered.of_books appended.handled appended.declined
      (answered other member)

theorem placed_addResponse_settled (transition : Status)
    (placed : Placed slot .handling conn) :
    Placed slot .settled
      (perform outcomes transition slot conn .addResponse) := by
  rcases placed with ⟨⟨nodes, listed⟩, place⟩
  cases place with
  | handling id exchange current handled =>
      rcases addResponse_listed outcomes transition listed current
        with ⟨appended, longer⟩
      refine ⟨⟨_, longer⟩, .settled id ?_ ?_ ?_ ?_⟩
      · intro attached
        rw [appended.exchange]
        exact exchange (Appended.attached appended attached)
      · rw [appended.exchangeResponse]
        exact current.own
      · rw [appended.handled]
        exact handled
      · exact Appended.answered appended (Current.answered current handled)

theorem placed_addResponse_gone (transition : Status)
    (placed : Placed slot .detached conn) :
    Placed slot .gone
      (perform outcomes transition slot conn .addResponse) := by
  rcases placed with ⟨⟨nodes, listed⟩, place⟩
  cases place with
  | detached id exchange current handled =>
      rcases addResponse_listed outcomes transition listed current
        with ⟨appended, longer⟩
      refine ⟨⟨_, longer⟩, .gone ?_ ?_⟩
      · intro attached
        rw [appended.exchange]
        exact exchange (Appended.attached appended attached)
      · exact Appended.answered appended (Current.answered current handled)

theorem placed_freeResponse (transition : Status)
    (placed : Placed slot .handling conn) :
    Placed slot .dropped
      (perform outcomes transition slot conn .freeResponse) := by
  rcases placed with ⟨⟨nodes, listed⟩, place⟩
  cases place with
  | handling id exchange current handled =>
      have called :
          perform outcomes transition slot conn .freeResponse =
            ymoHttpResponseFree conn id := by
        simp only [perform, current.own]
        rfl
      have answered := Current.answered current handled
      rw [called]
      refine ⟨⟨nodes, ?_⟩, .dropped answered⟩
      exact
        listed.transport rfl (fun _ _ => rfl) (Nat.le_refl _) rfl rfl rfl
          (fun other member => .inl member) rfl
          (fun attached => attached)

theorem placed_store (transition : Status) (placed : Placed slot stage conn)
    (content : HttpExchange) :
    Placed slot stage
      (perform outcomes transition slot conn (.store content)) := by
  rcases placed with ⟨⟨nodes, listed⟩, place⟩
  refine ⟨⟨nodes, ?_⟩, place.steady ?_⟩
  · exact
      listed.transport rfl (fun _ _ => rfl) (Nat.le_refl _) rfl rfl rfl
        (fun other member => .inl member) rfl (fun attached => attached)
  · exact
      { error := fun raised => raised
        exchangeResponse := rfl
        origin := rfl
        nextExchange := rfl
        requests := rfl
        handled := rfl
        declined := rfl
        nextResponse := Nat.le_refl _
        added := fun _ _ member => member
        next := fun _ _ _ => rfl
        exchange := fun attached => ⟨attached, rfl⟩ }

/-- An effect in its place takes the response to the next one. -/
theorem placed_perform (transition : Status) {stage later : Stage}
    (placed : Placed slot stage conn)
    {effect : Effect}
    (after : stage.after effect = some later) :
    Placed slot later (perform outcomes transition slot conn effect) := by
  cases effect with
  | shown event =>
      have same : stage = later := by
        cases stage <;> exact Option.some.inj after
      exact same ▸ placed
  | store content =>
      have same : stage = later := by
        cases stage <;> exact Option.some.inj after
      exact same ▸ placed_store outcomes transition placed content
  | serverState =>
      have same : stage = later := by
        cases stage <;> exact Option.some.inj after
      exact same ▸ placed.of_rests (rests_access conn [.conn])
  | newExchange =>
      cases stage <;> cases after
      exact placed_newExchange outcomes transition placed
  | initResponse flags =>
      cases stage <;> cases after
      exact placed_initResponse outcomes transition placed flags
  | sendContinue =>
      cases stage with
      | answering continued =>
          cases continued <;> cases after
          exact placed_sendContinue_first outcomes transition placed
      | _ => cases after
  | call call =>
      cases stage <;> cases after
      · exact placed_call outcomes transition placed call
      · exact placed_call outcomes transition placed call
  | errorResponse status =>
      cases stage with
      | idle =>
          simp only [Stage.after] at after
          split at after
          · cases after
            exact placed_refused outcomes transition placed ‹_›
          · cases after
      | answering continued =>
          cases after
          exact placed_errorResponse outcomes transition placed status
      | _ => cases after
  | handler =>
      cases stage <;> cases after
      exact placed_handler outcomes transition placed
  | protoNew proto =>
      cases stage <;> cases after
      exact placed_protoNew outcomes transition placed proto
  | detachExchange =>
      cases stage <;> cases after
      exact placed_detachExchange outcomes transition placed
  | addResponse =>
      cases stage <;> cases after
      · exact placed_addResponse_settled outcomes transition placed
      · exact placed_addResponse_gone outcomes transition placed
  | freeResponse =>
      cases stage <;> cases after
      exact placed_freeResponse outcomes transition placed

/-- The effects of a call, one after the other. -/
theorem placed_follow (transition : Status) {effects : List Effect}
    {start stage : Stage}
    (placed : Placed slot start conn)
    (followed : start.follow effects = some stage) :
    Placed slot stage
      (effects.foldl (perform outcomes transition slot) conn) := by
  induction effects generalizing start conn with
  | nil =>
      cases followed
      exact placed
  | cons effect effects ih =>
      rw [Stage.follow, List.foldlM_cons] at followed
      cases after : start.after effect with
      | none =>
          rw [after] at followed
          cases followed
      | some later =>
          rw [after] at followed
          exact ih (placed_perform outcomes transition placed after) followed

/-- The exchange object has the content that was stored last. -/
theorem exchanges_performAll (transition : Status) (slot : Nat)
    (effects : List Effect)
    {content : HttpExchange}
    (last : stored effects = some content)
    (conn : Conn) :
    (effects.foldl (perform outcomes transition slot) conn).exchanges
        slot =
      content := by
  induction effects using List.reverseRecOn generalizing content with
  | nil => nomatch last
  | append_singleton effects effect ih =>
      have books :=
        books_perform outcomes transition slot
          (effects.foldl (perform outcomes transition slot) conn) effect
      rw [List.foldl_append, List.foldl_cons, List.foldl_nil, books.exchanges]
      rw [stored_concat] at last
      cases effect with
      | store stored =>
          cases last
          simp only [recorded, Function.update_self]
      | _ => exact ih last

/-! ## Responses of requests -/

/-- Every response an exchange has, and every one that was handled, was created
for a request. -/
structure Owned (conn : Conn) : Prop where
  slots : ∀ slot id, conn.exchangeResponse slot = some id → id ∈ conn.requests
  handled : ∀ id ∈ conn.handled, id ∈ conn.requests

theorem Owned.of_books (owned : Owned before) (books : Books before after) :
    Owned after := by
  constructor
  · rw [books.exchangeResponse, books.requests]
    exact owned.slots
  · rw [books.handled, books.requests]
    exact owned.handled

theorem Owned.recorded (owned : Owned conn) (slot : Nat) (effect : Effect) :
    Owned (recorded slot conn effect) := by
  cases effect with
  | newExchange =>
      refine ⟨?_, owned.handled⟩
      intro other id own
      by_cases here : other = slot
      · subst here
        simp only [DispatchEffects.recorded, Function.update_self] at own
        nomatch own
      · simp only [DispatchEffects.recorded, Function.update_of_ne here] at own
        exact owned.slots other id own
  | initResponse flags =>
      constructor
      · intro other id own
        by_cases here : other = slot
        · subst here
          simp only [DispatchEffects.recorded, Function.update_self,
            Option.some.injEq] at own
          subst own
          exact List.mem_append_right _ List.mem_cons_self
        · simp only [DispatchEffects.recorded,
            Function.update_of_ne here] at own
          exact List.mem_append_left _ (owned.slots other id own)
      · intro id member
        exact List.mem_append_left _ (owned.handled id member)
  | handler =>
      refine ⟨owned.slots, ?_⟩
      intro id member
      rcases List.mem_append.mp member with old | new
      · exact owned.handled id old
      · exact owned.slots slot id (Option.mem_toList.mp new)
  | _ => exact ⟨owned.slots, owned.handled⟩

theorem owned_performAll (transition : Status) (slot : Nat)
    (effects : List Effect)
    (owned : Owned conn) :
    Owned (effects.foldl (perform outcomes transition slot) conn) := by
  induction effects generalizing conn with
  | nil => exact owned
  | cons effect effects ih =>
      exact
        ih
          ((owned.recorded slot effect).of_books
            (books_perform outcomes transition slot conn effect))

end Yimmo.Http.DispatchEffects
