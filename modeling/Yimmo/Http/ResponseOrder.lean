import Yimmo.Http.DispatchRuns

/-!
# The order of responses

A session sends its responses in the order in which they were put on its list, and
none is lost: what was put on the list is what was sent followed by what is on the
list.  The responses of requests are put on it in the order of their requests,
since the next request is only read when the response of the last one is on the
list or was dropped; an interim or an error response of the library may stand
between them.
-/

namespace Yimmo.Http.ResponseOrder

open Yimmo.Core.StatusCode
open Yimmo.Core.Net
open Yimmo.Lib.GuardedRun
open Yimmo.Lib.LinkedList
open Yimmo.Http.Headers
open Yimmo.Http.Exchange
open Yimmo.Http.Parse
open Yimmo.Http.Application
open Yimmo.Http.Reader
open Yimmo.Http.ReadProgress
open Yimmo.Http.ReadEffects
open Yimmo.Http.Response
open Yimmo.Http.Session
open Yimmo.Http.SessionQueue
open Yimmo.Http.Dispatch
open Yimmo.Http.DispatchEffects
open Yimmo.Http.DispatchRuns

variable
    {conn : Conn}
    {before after : Conn}
    {slot : Nat}
    {nodes : List Nat}
    {effect : Effect}
    {stage later : Stage}
    (outcomes : List SendOutcome)

/-! ## Calls and their effects -/

/-- What every effect in its place keeps is kept by all of them. -/
theorem follow_invariant
    (transition : Status)
    (holds : Stage → Conn → Prop)
    (kept :
      ∀ stage later conn effect,
        Placed slot stage conn →
          stage.after effect = some later →
            holds stage conn →
              holds later (perform outcomes transition slot conn effect))
    {effects : List Effect}
    {start stage : Stage}
    {conn : Conn}
    (placed : Placed slot start conn)
    (followed : start.follow effects = some stage)
    (held : holds start conn) :
    holds stage (effects.foldl (perform outcomes transition slot) conn) := by
  induction effects generalizing start conn with
  | nil =>
      cases followed
      exact held
  | cons effect effects ih =>
      rw [Stage.follow, List.foldlM_cons] at followed
      cases after : start.after effect with
      | none =>
          rw [after] at followed
          cases followed
      | some later =>
          rw [after] at followed
          exact
            ih
              (placed_perform outcomes transition placed after) followed
              (kept start later conn effect placed after held)

/-- Where a call starts and where it ends. -/
structure CallStages
    (protoData : HttpProtoData)
    (conn : Conn)
    (start stage : Stage)
    (content : HttpExchange) : Prop where
  starts : Starts (conn.exchange.map conn.exchanges) start
  placed : Placed conn.readExchange start (conn.access [.session])
  followed : start.follow (conn.read protoData).state.effects = some stage
  last : stored (conn.read protoData).state.effects = some content
  leaves : Leaves (conn.read protoData) content stage

theorem callStages_of_dispatching (protoData : HttpProtoData)
    (dispatching : Dispatching conn)
    (live : conn.live = true)
    (left : conn.pending.len ≠ 0)
    (calm : conn.error = false)
    (unfinished : findsAnswered conn = false) :
    ∃ start stage content, CallStages protoData conn start stage content := by
  rcases (dispatching.between live).starts calm unfinished
    with ⟨parser, start, starts, place⟩
  have called :
      conn.read protoData =
        ymoProtoHttpRead protoData false
          (conn.exchange.map conn.exchanges) conn.pending.memory
          conn.pending.len := by
    rw [Conn.read, calm]
  have inside :
      ReadInside
        (readStart (conn.exchange.map conn.exchanges)
          conn.pending.memory conn.pending.len) := by
    refine ⟨?_, left⟩
    rw [readStart, ymoHttpSessionIsReadReady_exchange]
    exact parser
  rcases ymoProtoHttpRead_ends protoData starts inside
    with ⟨stage, content, followed, last, leaves⟩
  rw [← called] at followed last leaves
  exact
    ⟨start, stage, content,
      { starts := starts
        placed :=
          Placed.of_rests ⟨dispatching.listed, place⟩
            (rests_access conn [.session])
        followed := followed
        last := last
        leaves := leaves }⟩

/-! ## The list is what was added and not sent -/

/-- The list; what was put on it is what was sent, and what is on it. -/
structure Queued (conn : Conn) (nodes : List Nat) : Prop where
  listed : Listed conn nodes
  order : Attached conn → conn.added = conn.completed ++ nodes

/-- The list and its history are the same. -/
structure SameList (before after : Conn) : Prop where
  response : after.response = before.response
  next : ∀ id ∈ before.added, after.next id = before.next id
  added : after.added = before.added
  completed : after.completed = before.completed
  attached : Attached after → Attached before

theorem SameList.refl (conn : Conn) : SameList conn conn :=
  ⟨rfl, fun _ _ => rfl, rfl, rfl, fun attached => attached⟩

theorem SameList.trans {before between after : Conn}
    (first : SameList before between)
    (second : SameList between after) :
    SameList before after where
  response := second.response.trans first.response
  next id member := by
    rw [second.next id (first.added.symm ▸ member), first.next id member]
  added := second.added.trans first.added
  completed := second.completed.trans first.completed
  attached still := first.attached (second.attached still)

theorem Rests.sameList (rests : Rests before after) :
    SameList before after where
  response := rests.response
  next id _ := congrFun rests.next id
  added := rests.added
  completed := rests.completed
  attached := Rests.attached rests

/-- Two descriptions of one list agree. -/
theorem Listed.unique {left right : List Nat} (first : Listed conn left)
    (second : Linked conn.next conn.response right) :
    left = right :=
  first.ends.linked.unique second

theorem Queued.same (queued : Queued before nodes)
    (same : SameList before after)
    (listed : ∃ rest, Listed after rest) :
    Queued after nodes := by
  rcases listed with ⟨rest, listed⟩
  have linked : Linked after.next after.response nodes := by
    rw [same.response]
    exact
      queued.listed.ends.linked.congr fun id member =>
        same.next id (queued.listed.members id member)
  have equal : rest = nodes := Listed.unique listed linked
  subst equal
  refine ⟨listed, fun attached => ?_⟩
  rw [same.added, same.completed]
  exact queued.order (same.attached attached)

/-- A write callback sends from the head of the list. -/
theorem Queued.of_outgoing {outcomes : List SendOutcome}
    (queued : Queued before nodes)
    (outgoing : Outgoing outcomes before nodes after) :
    ∃ rest, Queued after rest := by
  rcases queued.listed.of_outgoing outgoing with ⟨rest, listed⟩
  cases outgoing with
  | rests same =>
      exact ⟨nodes, queued.same (Rests.sameList same) ⟨rest, listed⟩⟩
  | completes id behind split sent plain completed =>
      subst split
      refine ⟨rest, listed, fun attached => ?_⟩
      have still : Attached before :=
        ⟨completed.connFrees.symm.trans attached.1,
          completed.handedOver.symm.trans attached.2⟩
      have linked : Linked after.next after.response behind := by
        rw [completed.next, completed.response]
        exact (queued.listed.ends.linked.of_cons).2
      have equal : rest = behind := Listed.unique listed linked
      rw [equal, completed.added, completed.completed,
        queued.order still, List.append_assoc]
      rfl
  | transitions id behind split sent upgrades transitioned =>
      refine ⟨rest, listed, fun attached => ?_⟩
      exact
        absurd (attached.2.symm.trans transitioned.handedOver)
          Bool.false_ne_true
  | closes closed =>
      exact ⟨rest, listed, fun attached => absurd attached.1 closed.connFrees⟩

theorem added_ymoHttpSessionAddResponse (conn : Conn) (id : Nat) :
    (ymoHttpSessionAddResponse conn id).added = conn.added ++ [id] := by
  unfold ymoHttpSessionAddResponse
  dsimp only
  split
  · rfl
  · split
    · rfl
    · rfl

/-- What is left alone by hanging a response on the list. -/
theorem completed_ymoHttpSessionAddResponse (conn : Conn) (id : Nat) :
    (ymoHttpSessionAddResponse conn id).completed = conn.completed ∧
      (Attached (ymoHttpSessionAddResponse conn id) ↔ Attached conn) := by
  unfold ymoHttpSessionAddResponse
  dsimp only
  split
  · exact ⟨rfl, Iff.rfl⟩
  · split
    · exact ⟨rfl, Iff.rfl⟩
    · exact ⟨rfl, Iff.rfl⟩

theorem sameList_setResponse (conn : Conn) (id : Nat) {response : HttpResponse}
    (same : response.next = conn.next id) :
    SameList conn (conn.setResponse id response) := by
  refine ⟨rfl, fun other _ => ?_, rfl, rfl, fun attached => attached⟩
  by_cases here : other = id
  · subst here
    simp only [Conn.setResponse, Conn.next, Function.update_self]
    exact same
  · simp only [Conn.setResponse, Conn.next, Function.update_of_ne here]

theorem sameList_callResponse (conn : Conn) (id : Nat) (call : ResponseCall) :
    SameList conn (callResponse conn id call) :=
  have same := Rests.sameList (rests_callResponse conn id call)
  ⟨same.response, same.next, same.added, same.completed, same.attached⟩

/-- The connection of a response that the library issues, before the call. -/
theorem issueResponse_eq (flags : HttpFlags) (status : Nat) (conn : Conn) :
    issueResponse flags status conn =
      callResponse
        (ymoHttpSessionAddResponse
          (created conn { ymoHttpResponseCreate with flags := flags }
            ymoHttpHdrTableClear)
          conn.nextResponse)
        conn.nextResponse (.issue status) :=
  rfl

theorem added_issueResponse (flags : HttpFlags) (status : Nat) (conn : Conn) :
    (issueResponse flags status conn).added =
      conn.added ++ [conn.nextResponse] := by
  rw [issueResponse_eq, (sameList_callResponse _ _ _).added,
    added_ymoHttpSessionAddResponse]
  rfl

theorem queued_issueResponse (queued : Queued conn nodes) (flags : HttpFlags)
    (status : Nat) :
    Queued (issueResponse flags status conn)
      (nodes ++ [conn.nextResponse]) := by
  refine ⟨(issueResponse_listed queued.listed flags status).1, ?_⟩
  intro attached
  rw [issueResponse_eq] at attached
  have kept :=
    completed_ymoHttpSessionAddResponse
      (created conn { ymoHttpResponseCreate with flags := flags }
        ymoHttpHdrTableClear)
      conn.nextResponse
  have still : Attached conn :=
    kept.2.mp ((sameList_callResponse _ _ _).attached attached)
  rw [added_issueResponse, issueResponse_eq,
    (sameList_callResponse _ _ _).completed, kept.1, queued.order still,
    List.append_assoc]
  rfl

theorem sameList_fold {slot : List Nat} {operate : Conn → Nat → Conn}
    (kept : ∀ conn id, SameList conn (operate conn id))
    (conn : Conn) :
    SameList conn (slot.foldl operate conn) := by
  induction slot generalizing conn with
  | nil => exact SameList.refl conn
  | cons id rest ih => exact (kept conn id).trans (ih _)

/-- The effect hangs a response on the list. -/
def hangs : Effect → Bool
  | .sendContinue => true
  | .errorResponse _ => true
  | .addResponse => true
  | _ => false

/-- The other effects leave the list alone. -/
theorem sameList_perform (transition : Status) (slot : Nat)
    (listed : Listed conn nodes)
    (other : hangs effect = false) :
    SameList conn (perform outcomes transition slot conn effect) := by
  cases effect with
  | sendContinue => exact Bool.noConfusion other
  | errorResponse status => exact Bool.noConfusion other
  | addResponse => exact Bool.noConfusion other
  | initResponse flags =>
      refine ⟨rfl, fun id member => ?_, rfl, rfl, fun attached => attached⟩
      have early : id ≠ conn.nextResponse :=
        Nat.ne_of_lt (listed.numbered id member)
      simp only [perform, Conn.next, Function.update_of_ne early]
  | call call =>
      apply sameList_fold
      exact fun conn id => sameList_callResponse conn id call
  | protoNew proto =>
      apply sameList_fold
      exact fun conn id => sameList_setResponse conn id rfl
  | detachExchange =>
      apply sameList_fold
      intro conn id
      have set :=
        sameList_setResponse conn id
          (show
            ({ conn.responses id with
                exchange := conn.exchange } : HttpResponse).next =
              conn.next id from rfl)
      exact ⟨set.response, set.next, set.added, set.completed, set.attached⟩
  | freeResponse =>
      apply sameList_fold
      exact fun conn id =>
        ⟨rfl, fun _ _ => rfl, rfl, rfl, fun attached => attached⟩
  | _ => exact ⟨rfl, fun _ _ => rfl, rfl, rfl, fun attached => attached⟩

/-- Every effect in its place keeps the order. -/
theorem queued_perform (transition : Status) (placed : Placed slot stage conn)
    (after : stage.after effect = some later)
    (queued : ∃ nodes, Queued conn nodes) :
    ∃ nodes, Queued (perform outcomes transition slot conn effect) nodes := by
  rcases queued with ⟨nodes, queued⟩
  have listed := (placed_perform outcomes transition placed after).1
  cases other : hangs effect with
  | false =>
      exact
        ⟨nodes,
          queued.same
            (sameList_perform outcomes transition slot queued.listed other)
            listed⟩
  | true =>
      cases effect with
      | sendContinue =>
          have issued :=
            queued_issueResponse queued
              { HttpFlags.none with requestKeepalive := true } 100
          exact
            issued.of_outgoing
              (ymoWriteCb_outgoing outcomes transition issued.listed.ends)
      | errorResponse status =>
          have accessed : Queued (conn.access [.session]) nodes :=
            queued.same
              (Rests.sameList (rests_access conn [.session]))
              ⟨nodes, queued.listed.of_rests (rests_access _ _)⟩
          exact ⟨_, queued_issueResponse accessed HttpFlags.none status⟩
      | addResponse =>
          have current : ∃ id, Current conn slot id := by
            cases stage <;> cases after
            · cases placed.2 with
              | handling id exchange current handled => exact ⟨id, current⟩
            · cases placed.2 with
              | detached id exchange current handled => exact ⟨id, current⟩
          rcases current with ⟨id, current⟩
          rcases
            addResponse_listed outcomes transition queued.listed current
            with ⟨appended, longer⟩
          refine ⟨nodes ++ [id], longer, fun attached => ?_⟩
          rw [appended.added, appended.completed,
            queued.order (Appended.attached appended attached),
            List.append_assoc]
      | _ => exact Bool.noConfusion other

/-! ## Responses in the order of their requests -/

/-- Of the responses put on the list, those of requests. -/
def answers (conn : Conn) : List Nat :=
  conn.added.filter fun id => decide (id ∈ conn.requests)

/-- The response of the exchange is not on the list yet. -/
def awaits : Stage → Bool
  | .answering _ => true
  | .handling => true
  | .detached => true
  | _ => false

/-- The response of the last request is awaited, and those of earlier ones are in
the order of their requests. -/
def Awaited (slot : Nat) (conn : Conn) : Prop :=
  ∃ id earlier,
    conn.exchangeResponse slot = some id ∧
      conn.requests = earlier ++ [id] ∧
        (answers conn).Sublist earlier

/-- The responses are in the order of their requests, at each place of a read. -/
def InTurn (slot : Nat) (stage : Stage) (conn : Conn) : Prop :=
  if awaits stage then Awaited slot conn
  else (answers conn).Sublist conn.requests

theorem Awaited.sublist (awaited : Awaited slot conn) :
    (answers conn).Sublist conn.requests := by
  rcases awaited with ⟨id, earlier, own, requests, sublist⟩
  rw [requests]
  exact sublist.trans (List.sublist_append_left earlier [id])

theorem InTurn.sublist {stage : Stage} (inTurn : InTurn slot stage conn) :
    (answers conn).Sublist conn.requests := by
  unfold InTurn at inTurn
  split at inTurn
  · exact Awaited.sublist inTurn
  · exact inTurn

/-- The responses of requests are the same ones. -/
theorem answers_congr (added : after.added = before.added)
    (requests : after.requests = before.requests) :
    answers after = answers before := by
  unfold answers
  rw [added, requests]

/-- A response of the library is none of them. -/
theorem answers_append_other {id : Nat}
    (added : after.added = before.added ++ [id])
    (requests : after.requests = before.requests)
    (other : id ∉ before.requests) :
    answers after = answers before := by
  unfold answers
  rw [added, requests, List.filter_append]
  simp only [List.filter_cons, other, decide_false, List.filter_nil,
    Bool.false_eq_true, if_false, List.append_nil]

/-- A new request has no response on the list. -/
theorem answers_request {id : Nat} (added : after.added = before.added)
    (requests : after.requests = before.requests ++ [id])
    (fresh : id ∉ before.added) :
    answers after = answers before := by
  unfold answers
  rw [added, requests]
  apply List.filter_congr
  intro other member
  have different : other ≠ id := fun same => fresh (same ▸ member)
  simp only [List.mem_append, List.mem_singleton, different, or_false]

theorem requests_perform (transition : Status) (slot : Nat) (conn : Conn)
    (other : ∀ flags, effect ≠ .initResponse flags) :
    (perform outcomes transition slot conn effect).requests =
      conn.requests := by
  rw [(books_perform outcomes transition slot conn effect).requests]
  cases effect with
  | initResponse flags => exact absurd rfl (other flags)
  | _ => rfl

theorem exchangeResponse_perform (transition : Status) (slot : Nat)
    (conn : Conn)
    (other : ∀ flags, effect ≠ .initResponse flags)
    (old : effect ≠ .newExchange) :
    (perform outcomes transition slot conn effect).exchangeResponse =
      conn.exchangeResponse := by
  rw [(books_perform outcomes transition slot conn effect).exchangeResponse]
  cases effect with
  | initResponse flags => exact absurd rfl (other flags)
  | newExchange => exact absurd rfl old
  | _ => rfl

/-- A response of the library is hung on the list. -/
theorem answers_perform_library
    (transition : Status)
    (slot : Nat)
    (listed : Listed conn nodes)
    (library :
      effect = .sendContinue ∨ ∃ status, effect = .errorResponse status) :
    answers (perform outcomes transition slot conn effect) = answers conn := by
  have other : conn.nextResponse ∉ conn.requests :=
    fun member => Nat.lt_irrefl _ (listed.requestsNumbered _ member)
  rcases library with rfl | ⟨status, rfl⟩
  · apply answers_append_other _ _ other
    · exact
        (untouched_ymoWriteCb outcomes transition _).added.trans
          (added_issueResponse _ 100 conn)
    · exact
        requests_perform outcomes transition slot conn
          fun _ => Effect.noConfusion
  · apply answers_append_other _ _ other
    · exact added_issueResponse _ status (conn.access [.session])
    · exact
        requests_perform outcomes transition slot conn
          fun _ => Effect.noConfusion

/-- Where nothing is put on the list, the responses stay in turn. -/
theorem InTurn.same
    (inTurn : InTurn slot stage before)
    (answered : answers after = answers before)
    (requests : after.requests = before.requests)
    (own :
      awaits later = true →
        awaits stage = true ∧
          after.exchangeResponse = before.exchangeResponse) :
    InTurn slot later after := by
  have weak := inTurn.sublist
  unfold InTurn at inTurn ⊢
  split
  · rename_i waits
    rcases own waits with ⟨waited, same⟩
    rw [if_pos waited] at inTurn
    rcases inTurn with ⟨id, earlier, owned, split, sublist⟩
    exact ⟨id, earlier, same ▸ owned, requests.trans split, answered ▸ sublist⟩
  · rw [answered, requests]
    exact weak

theorem inTurn_initResponse (transition : Status) {stage : Stage}
    (listed : Listed conn nodes)
    (inTurn : InTurn slot stage conn)
    (flags : HttpFlags) :
    InTurn slot (.answering false)
      (perform outcomes transition slot conn (.initResponse flags)) := by
  have fresh : conn.nextResponse ∉ conn.added :=
    fun member => Nat.lt_irrefl _ (listed.numbered _ member)
  have same :
      answers
          (perform outcomes transition slot conn (.initResponse flags)) =
        answers conn :=
    answers_request rfl rfl fresh
  refine ⟨conn.nextResponse, conn.requests, ?_, rfl, ?_⟩
  · simp only [perform, Function.update_self]
  · rw [same]
    exact inTurn.sublist

theorem inTurn_addResponse (transition : Status) (listed : Listed conn nodes)
    {own : Nat}
    (current : Current conn slot own)
    (waited : awaits stage = true)
    (settled : awaits later = false)
    (inTurn : InTurn slot stage conn) :
    InTurn slot later
      (perform outcomes transition slot conn .addResponse) := by
  have appended := (addResponse_listed outcomes transition listed current).1
  unfold InTurn at inTurn ⊢
  rw [if_pos waited] at inTurn
  rw [if_neg (by rw [settled]; decide)]
  rcases inTurn with ⟨id, earlier, owned, split, sublist⟩
  have same : own = id := Option.some.inj (current.own.symm.trans owned)
  rw [same] at current appended
  have member : id ∈ conn.requests := by
    rw [split]
    exact List.mem_append_right _ List.mem_cons_self
  have longer :
      answers (perform outcomes transition slot conn .addResponse) =
        answers conn ++ [id] := by
    unfold answers
    rw [appended.added, appended.requests, List.filter_append]
    simp only [List.filter_cons, member, decide_true, List.filter_nil, if_true]
  rw [longer, appended.requests, split]
  exact sublist.append (List.Sublist.refl [id])

/-- Every effect in its place keeps the responses in the order of requests. -/
theorem inTurn_perform (transition : Status) (placed : Placed slot stage conn)
    (after : stage.after effect = some later)
    (inTurn : InTurn slot stage conn) :
    InTurn slot later (perform outcomes transition slot conn effect) := by
  rcases placed with ⟨⟨nodes, listed⟩, place⟩
  have requests :
      ∀ {effect : Effect},
        (∀ flags, effect ≠ .initResponse flags) →
          (perform outcomes transition slot conn effect).requests =
            conn.requests :=
    fun other => requests_perform outcomes transition slot conn other
  have own :
      ∀ {effect : Effect},
        (∀ flags, effect ≠ .initResponse flags) →
          effect ≠ .newExchange →
            (perform outcomes transition slot conn
                effect).exchangeResponse =
              conn.exchangeResponse :=
    fun other old =>
      exchangeResponse_perform outcomes transition slot conn other old
  have quiet :
      ∀ {effect : Effect},
        hangs effect = false →
          (∀ flags, effect ≠ .initResponse flags) →
            answers (perform outcomes transition slot conn effect) =
              answers conn := by
    intro effect other plain
    exact
      answers_congr
        (sameList_perform outcomes transition slot listed other).added
        (requests plain)
  cases effect with
  | initResponse flags =>
      cases stage <;> cases after
      exact inTurn_initResponse outcomes transition listed inTurn flags
  | addResponse =>
      cases stage <;> cases after
      · cases place with
        | handling id exchange current handled =>
            exact
              inTurn_addResponse outcomes transition listed current rfl
                rfl inTurn
      · cases place with
        | detached id exchange current handled =>
            exact
              inTurn_addResponse outcomes transition listed current rfl
                rfl inTurn
  | sendContinue =>
      refine
        inTurn.same
          (answers_perform_library outcomes transition slot listed (.inl rfl))
          (requests fun _ => Effect.noConfusion) fun waits => ⟨?_, ?_⟩
      · cases stage with
        | answering continued => rfl
        | _ => cases after
      · exact own (fun _ => Effect.noConfusion) Effect.noConfusion
  | errorResponse status =>
      refine
        inTurn.same
          (answers_perform_library outcomes transition slot listed
            (.inr ⟨status, rfl⟩))
          (requests fun _ => Effect.noConfusion) fun waits => ⟨?_, ?_⟩
      · cases stage with
        | answering continued => rfl
        | idle =>
            simp only [Stage.after] at after
            split at after
            · cases after
              cases waits
            · cases after
        | _ => cases after
      · exact own (fun _ => Effect.noConfusion) Effect.noConfusion
  | newExchange =>
      cases stage <;> cases after
      exact
        inTurn.same (quiet rfl fun _ => Effect.noConfusion)
          (requests fun _ => Effect.noConfusion) fun waits => by cases waits
  | _ =>
      refine
        inTurn.same (quiet rfl fun _ => Effect.noConfusion)
          (requests fun _ => Effect.noConfusion) fun waits => ⟨?_, ?_⟩
      · cases stage <;> cases after <;> first | rfl | exact waits
      · exact own (fun _ => Effect.noConfusion) Effect.noConfusion

/-! ## Runs -/

/-- The list is in order, and the responses of requests are in their order. -/
structure Ordered (conn : Conn) : Prop where
  queued : ∃ nodes, Queued conn nodes
  answered : (answers conn).Sublist conn.requests
  awaited :
    conn.live = true →
      ∀ slot,
        conn.exchange = some slot →
          unanswered (conn.exchanges slot) = true → Awaited slot conn

theorem ordered_create : Ordered Conn.create := by
  rcases dispatching_create.listed with ⟨nodes, listed⟩
  have empty : nodes = [] := Listed.unique listed .nil
  subst empty
  exact
    { queued := ⟨[], listed, fun _ => rfl⟩
      answered := List.Sublist.refl []
      awaited := fun _ _ exchange =>
        absurd exchange.symm (Option.some_ne_none _) }

theorem Awaited.same (awaited : Awaited slot before)
    (exchangeResponse : after.exchangeResponse = before.exchangeResponse)
    (requests : after.requests = before.requests)
    (added : after.added = before.added) :
    Awaited slot after := by
  rcases awaited with ⟨id, earlier, own, split, sublist⟩
  refine ⟨id, earlier, exchangeResponse ▸ own, requests.trans split, ?_⟩
  rw [answers_congr added requests]
  exact sublist

/-- A step that reads nothing keeps the order. -/
theorem Ordered.steady (ordered : Ordered before) (live : before.live = true)
    (queued : ∃ nodes, Queued after nodes)
    (steady : Steady before after)
    (exchanges : after.exchanges = before.exchanges)
    (added : after.added = before.added) :
    Ordered after where
  queued := queued
  answered := by
    rw [answers_congr added steady.requests, steady.requests]
    exact ordered.answered
  awaited still slot exchange waiting := by
    have same := (steady.exchange (attached_of_live still)).2
    rw [same] at exchange
    rw [exchanges] at waiting
    exact
      (ordered.awaited live slot exchange waiting).same
        steady.exchangeResponse steady.requests added

theorem Ordered.rests (ordered : Ordered before) (live : before.live = true)
    (rests : Rests before after) :
    Ordered after := by
  rcases ordered.queued with ⟨nodes, queued⟩
  exact
    ordered.steady live
      ⟨nodes,
        queued.same (Rests.sameList rests)
          ⟨nodes, queued.listed.of_rests rests⟩⟩
      (Rests.steady rests) rests.exchanges rests.added

theorem Ordered.disconnect (ordered : Ordered conn) (live : conn.live = true) :
    Ordered (closeAndFreeConnection conn) := by
  rcases ordered.queued with ⟨nodes, queued⟩
  have closed := closed_closeAndFreeConnection queued.listed.ends
  exact
    ordered.steady live
      (queued.of_outgoing (Outgoing.closes closed : Outgoing [] conn nodes _))
      (Untouched.steady closed.toUntouched fun attached =>
        absurd attached.1 closed.connFrees)
      closed.exchanges closed.added

theorem Ordered.writable (ordered : Ordered conn) (live : conn.live = true)
    (outcomes : List SendOutcome)
    (transition : Status) :
    Ordered (ymoWriteCb outcomes transition conn) := by
  rcases ordered.queued with ⟨nodes, queued⟩
  have outgoing := ymoWriteCb_outgoing outcomes transition queued.listed.ends
  have untouched := untouched_ymoWriteCb outcomes transition conn
  exact
    ordered.steady live (queued.of_outgoing outgoing)
      (Outgoing.steady outgoing) untouched.exchanges untouched.added

theorem Ordered.call (ordered : Ordered conn) (live : conn.live = true)
    (id : Nat)
    (call : ResponseCall) :
    Ordered (callResponse conn id call) := by
  rcases ordered.queued with ⟨nodes, queued⟩
  have same := sameList_callResponse conn id call
  exact
    ordered.steady live
      ⟨nodes, queued.same same ⟨nodes, queued.listed.call id call⟩⟩
      (steady_callResponse conn id call) rfl same.added

/-- What a call leaves: an exchange whose response is awaited is the last one. -/
theorem awaited_of_leaves {stage : Stage} {result : ReadResult}
    (place : At conn slot stage)
    (leaves : Leaves result (conn.exchanges slot) stage)
    (inTurn : InTurn slot stage conn)
    (kept :
      ∀ errno,
        result.outcome = .failed errno → ymoIsBlocked (.err errno) = true)
    (attached : Attached conn)
    {other : Nat}
    (exchange : conn.exchange = some other)
    (waiting : unanswered (conn.exchanges other) = true) :
    Awaited other conn := by
  have contradicts :
      conn.exchange = some slot →
        unanswered (conn.exchanges slot) = false → Awaited other conn := by
    intro same idle
    cases exchange.symm.trans same
    exact absurd (waiting.symm.trans idle) (by decide)
  cases leaves with
  | idle result idle resting =>
      cases place with
      | idle session answered => exact contradicts (session attached) idle
  | refused result idle =>
      cases place with
      | refused session error answered =>
          exact contradicts (session attached) idle
  | answering continued result phase unfinished incomplete =>
      cases place with
      | answering _ id session current undispatched =>
          cases exchange.symm.trans (session attached)
          exact inTurn
  | settled result idle resting =>
      cases place with
      | settled id session own handled answered =>
          exact contradicts (session attached) idle
  | gone result =>
      cases place with
      | gone session answered =>
          exact
            absurd (exchange.symm.trans (session attached))
              (Option.some_ne_none other)
  | dropped errno outcome fatal =>
      exact absurd ((kept errno outcome).symm.trans fatal) (by decide)

/-- The rest of the turn changes neither the order nor the exchanges. -/
structure Settles (before after : Conn) : Prop where
  queued : (∃ nodes, Queued before nodes) → ∃ nodes, Queued after nodes
  added : after.added = before.added
  requests : after.requests = before.requests
  exchangeResponse : after.exchangeResponse = before.exchangeResponse
  exchanges : after.exchanges = before.exchanges
  exchange : Attached after → after.exchange = before.exchange
  attached : Attached after → Attached before

theorem Settles.of_sameList (same : SameList before after)
    (listed : ∀ nodes, Listed before nodes → Listed after nodes)
    (books : Books before after)
    (exchange : after.exchange = before.exchange) :
    Settles before after where
  queued := by
    rintro ⟨nodes, queued⟩
    exact ⟨nodes, queued.same same ⟨nodes, listed nodes queued.listed⟩⟩
  added := same.added
  requests := books.requests
  exchangeResponse := books.exchangeResponse
  exchanges := books.exchanges
  exchange _ := exchange
  attached := same.attached

theorem settles_closeAndFreeConnection (conn : Conn)
    (listed : Listed conn nodes) :
    Settles conn (closeAndFreeConnection conn) := by
  have closed := closed_closeAndFreeConnection listed.ends
  have never : ¬ Attached (closeAndFreeConnection conn) :=
    fun attached => closed.connFrees attached.1
  exact
    { queued := by
        rintro ⟨others, queued⟩
        have shut := closed_closeAndFreeConnection queued.listed.ends
        exact
          queued.of_outgoing (Outgoing.closes shut : Outgoing [] conn others _)
      added := closed.added
      requests := closed.requests
      exchangeResponse := closed.exchangeResponse
      exchanges := closed.exchanges
      exchange := fun attached => absurd attached never
      attached := fun attached => absurd attached never }

theorem Settles.trans {before between after : Conn}
    (first : Settles before between)
    (second : Settles between after) :
    Settles before after where
  queued list := second.queued (first.queued list)
  added := second.added.trans first.added
  requests := second.requests.trans first.requests
  exchangeResponse := second.exchangeResponse.trans first.exchangeResponse
  exchanges := second.exchanges.trans first.exchanges
  exchange attached :=
    (second.exchange attached).trans
      (first.exchange (second.attached attached))
  attached attached := first.attached (second.attached attached)

theorem settles_unlisted (same : SameList before after)
    (books : Books before after)
    (exchange : after.exchange = before.exchange)
    (nextResponse : after.nextResponse = before.nextResponse)
    (hung : after.hung = before.hung) :
    Settles before after := by
  apply Settles.of_sameList same _ books exchange
  intro nodes listed
  exact
    listed.transport same.response
      (fun id member => same.next id (listed.members id member))
      (Nat.le_of_eq nextResponse.symm) same.added same.completed
      books.handled (fun id member => .inl (books.requests ▸ member))
      hung same.attached

/-- The rest of the turn of `ymo_read_cb`, and which calls leave it live. -/
theorem settles_settleRead (outcome : ReadOutcome) (slot : Nat)
    (listed : Listed conn nodes) :
    Settles conn (settleRead outcome slot conn) ∧
      ((settleRead outcome slot conn).live = true →
        ∀ errno,
          outcome = .failed errno → ymoIsBlocked (.err errno) = true) := by
  have list :
      ∀ {after : Conn},
        Books conn after →
          after.response = conn.response →
            after.responses = conn.responses →
              after.added = conn.added →
                after.completed = conn.completed →
                  (Attached after → Attached conn) →
                    SameList conn after := by
    intro after books response responses added completed attached
    refine ⟨response, fun id _ => ?_, added, completed, attached⟩
    rw [Conn.next, responses]
    rfl
  cases outcome with
  | took count =>
      refine ⟨?_, fun _ errno failed => ReadOutcome.noConfusion failed⟩
      exact
        settles_unlisted
          (list ⟨rfl, rfl, rfl, rfl⟩ rfl rfl rfl rfl fun attached => attached)
          ⟨rfl, rfl, rfl, rfl⟩ rfl rfl rfl
  | failed errno =>
      have declined : Settles conn (declining slot conn) :=
        settles_unlisted
          (list ⟨rfl, rfl, rfl, rfl⟩ rfl rfl rfl rfl fun attached => attached)
          ⟨rfl, rfl, rfl, rfl⟩ rfl rfl rfl
      have still : Listed (declining slot conn) nodes :=
        listed.transport rfl (fun _ _ => rfl) (Nat.le_refl _) rfl rfl rfl
          (fun _ member => .inl member) rfl fun attached => attached
      cases blocked : ymoIsBlocked (.err errno) with
      | true =>
          have settled :
              settleRead (.failed errno) slot conn = declining slot conn := by
            simp only [settleRead, blocked]
            rfl
          rw [settled]
          refine ⟨declined, fun _ other same => ?_⟩
          cases same
          exact blocked
      | false =>
          have settled :
              settleRead (.failed errno) slot conn =
                closeAndFreeConnection (declining slot conn) := by
            simp only [settleRead, blocked]
            rfl
          have closed := closed_closeAndFreeConnection still.ends
          rw [settled]
          refine ⟨declined.trans (settles_closeAndFreeConnection _ still), ?_⟩
          intro live
          exact absurd (attached_of_live live).1 closed.connFrees
  | fault =>
      refine ⟨?_, fun _ errno failed => ReadOutcome.noConfusion failed⟩
      exact
        settles_unlisted
          (list ⟨rfl, rfl, rfl, rfl⟩ rfl rfl rfl rfl fun attached => attached)
          ⟨rfl, rfl, rfl, rfl⟩ rfl rfl rfl
  | spin =>
      refine ⟨?_, fun _ errno failed => ReadOutcome.noConfusion failed⟩
      exact
        settles_unlisted
          (list ⟨rfl, rfl, rfl, rfl⟩ rfl rfl rfl rfl fun attached => attached)
          ⟨rfl, rfl, rfl, rfl⟩ rfl rfl rfl

theorem Ordered.read (protoData : HttpProtoData) (outcomes : List SendOutcome)
    (transition : Status)
    (dispatching : Dispatching conn)
    (ordered : Ordered conn)
    (live : conn.live = true)
    (left : conn.pending.len ≠ 0)
    (unfinished : findsAnswered conn = false) :
    Ordered (readCbTurn protoData outcomes transition conn) := by
  cases error : conn.error with
  | true =>
      exact
        ordered.rests live
          (rests_readCbTurn_of_error protoData outcomes transition error)
  | false =>
      rcases
        callStages_of_dispatching protoData dispatching live left error
          unfinished
        with ⟨start, stage, content, call⟩
      rcases ordered.queued with ⟨nodes, queued⟩
      have accessed : Queued (conn.access [.session]) nodes :=
        queued.same (Rests.sameList (rests_access conn [.session]))
          ⟨nodes, queued.listed.of_rests (rests_access _ _)⟩
      have begins : InTurn conn.readExchange start
          (conn.access [.session]) := by
        have starts := call.starts
        cases exchange : conn.exchange with
        | none =>
            rw [exchange] at starts
            cases starts
            exact ordered.answered
        | some slot =>
            have slotted : conn.readExchange = slot := by
              rw [Conn.readExchange, exchange]
              rfl
            rw [exchange] at starts
            rw [slotted]
            generalize same :
              (some slot).map conn.exchanges = session at starts
            cases starts with
            | absent => cases same
            | head phase answered => exact ordered.answered
            | body phase waiting =>
                cases same
                exact ordered.awaited live slot exchange waiting
      have arrived :
          Placed conn.readExchange stage
            (performed protoData outcomes transition conn) :=
        placed_follow outcomes transition call.placed call.followed
      have inTurn :
          InTurn conn.readExchange stage
            (performed protoData outcomes transition conn) :=
        follow_invariant outcomes transition
          (InTurn conn.readExchange)
          (fun _ _ _ _ placed after held =>
            inTurn_perform outcomes transition placed after held)
          call.placed call.followed begins
      have still :
          ∃ nodes,
            Queued (performed protoData outcomes transition conn) nodes :=
        follow_invariant outcomes transition
          (fun _ conn => ∃ nodes, Queued conn nodes)
          (fun _ _ _ _ placed after held =>
            queued_perform outcomes transition placed after held)
          call.placed call.followed ⟨nodes, accessed⟩
      have stays :
          (performed protoData outcomes transition conn).exchanges
              conn.readExchange =
            content :=
        exchanges_performAll outcomes transition conn.readExchange
          (conn.read protoData).state.effects call.last
          (conn.access [.session])
      have leaves := call.leaves
      rw [← stays] at leaves
      rcases arrived with ⟨⟨list, listed⟩, place⟩
      rcases
        settles_settleRead (conn.read protoData).outcome
          conn.readExchange listed
        with ⟨settles, blocked⟩
      rw [readCbTurn_eq]
      refine
        { queued := settles.queued still
          answered := ?_
          awaited := ?_ }
      · rw [answers_congr settles.added settles.requests, settles.requests]
        exact inTurn.sublist
      · intro goesOn slot exchange waiting
        have attached := attached_of_live goesOn
        rw [settles.exchange attached] at exchange
        rw [settles.exchanges] at waiting
        exact
          (awaited_of_leaves place leaves inTurn (blocked goesOn)
            (settles.attached attached) exchange waiting).same
            settles.exchangeResponse settles.requests settles.added

theorem Ordered.step (protoData : HttpProtoData)
    (dispatching : Dispatching conn)
    (ordered : Ordered conn)
    (step : Step)
    (unfinished : offersAnswered conn step = false) :
    Ordered (connStep protoData conn step) := by
  unfold connStep
  split
  · rename_i live
    split
    · cases step with
      | receive data older =>
          dsimp only
          split
          · exact ordered.rests live { Rests.refl conn with }
          · exact ordered
      | read outcomes transition => exact ordered
      | disconnect => exact ordered.disconnect live
      | writable outcomes transition =>
          exact ordered.writable live outcomes transition
      | call id call =>
          dsimp only
          split
          · exact ordered.call live id call
          · exact ordered
    · rename_i left
      cases step with
      | read outcomes transition =>
          simp only [offersAnswered, live, left, ne_eq,
            not_false_eq_true, decide_true, Bool.true_and] at unfinished
          exact
            ordered.read protoData outcomes transition dispatching live
              left unfinished
      | _ => exact ordered
  · exact ordered

/--
While the connection is open and serves HTTP, the responses put on its list are
those that were sent, in the order in which they were sent, followed by those on
the list; and of these the responses of requests are in the order of the
requests.
-/
theorem responses_in_order
    (protoData : HttpProtoData)
    (steps : List Step)
    (once :
      AllAlong (connStep protoData)
        (fun conn step => offersAnswered conn step = false)
        Conn.create steps)
    (attached : Attached (run (connStep protoData) Conn.create steps)) :
    let conn := run (connStep protoData) Conn.create steps
    ∃ nodes,
      Linked conn.next conn.response nodes ∧
        conn.added = conn.completed ++ nodes ∧
          ((conn.completed ++ nodes).filter fun id =>
            decide (id ∈ conn.requests)).Sublist conn.requests := by
  have kept :
      Dispatching (run (connStep protoData) Conn.create steps) ∧
        Ordered (run (connStep protoData) Conn.create steps) := by
    apply
      invariant_run
        (fun conn => Dispatching conn ∧ Ordered conn) _
        ⟨dispatching_create, ordered_create⟩ once
    rintro conn step ⟨dispatching, ordered⟩ unfinished
    exact
      ⟨dispatching.step protoData step unfinished,
        Ordered.step protoData dispatching ordered step unfinished⟩
  rcases kept.2.queued with ⟨nodes, queued⟩
  have order := queued.order attached
  refine ⟨nodes, queued.listed.ends.linked, order, ?_⟩
  rw [← order]
  exact kept.2.answered

/-- An application that answers every request with 204. -/
def answeringApplication : HttpProtoData :=
  { quietApplication with
      httpCb := fun _ => { calls := [.issue 204], status := .okay } }

/-- Two requests in one read; their responses are sent by two write callbacks. -/
def twoAnswers : List Step :=
  [.receive
      (bytes "GET /a HTTP/1.1\r\n\r\nGET /b HTTP/1.1\r\n\r\n") [],
    .read [] .okay,
    .read [] .okay,
    .writable [.accepted 999] .okay]

theorem twoAnswers_inOrder :
    let conn := run (connStep answeringApplication) Conn.create twoAnswers
    ∃ nodes,
      Linked conn.next conn.response nodes ∧
        conn.added = conn.completed ++ nodes ∧
          ((conn.completed ++ nodes).filter fun id =>
            decide (id ∈ conn.requests)).Sublist conn.requests :=
  responses_in_order answeringApplication twoAnswers (by decide)
    ⟨by decide, by decide⟩

end Yimmo.Http.ResponseOrder
