import Yimmo.Wsgi.Progress

/-!
# WSGI exchanges are freed and answered once

Along a run whose steps meet the guard, the accounts and the order of use are
kept (`Accounts`, `Order`), so that references are balanced in every state.
-/

namespace Yimmo.Wsgi.Balance

open Yimmo.Lib.Threads
open Yimmo.Lib.GuardedRun
open Yimmo.Wsgi.Worker
open Yimmo.Wsgi.References
open Yimmo.Wsgi.Accounting
open Yimmo.Wsgi.Pools
open Yimmo.Wsgi.Release
open Yimmo.Wsgi.Steps
open Yimmo.Wsgi.Progress

/-! ## Operations -/

section Operations

variable
    {world : World}
    {thread : Thread}
    {rest : List Op}
    {e : Nat}

/-- A turn of the loop that leaves its exchange as it is. -/
theorem order_skipped
    (order : Order world)
    {after : World}
    {left : List Nat}
    (pending : world.ops thread = .popResponse :: rest)
    (queue : world.queueOut = e :: left)
    (still : Still world after)
    (queueIn : after.queueIn = world.queueIn)
    (queueOut : after.queueOut = left)
    (call : after.call = world.call)
    (contexts : after.contexts = world.contexts)
    (done :
      ∀ other, (after.exchanges other).done = (world.exchanges other).done)
    (skip :
      (world.exchanges e).sent = true ∨ (world.exchanges e).done = false) :
    Order
      (after.begin thread ([.release .queue e, .popResponse] ++ rest)) := by
  have split : world.ops thread = [.popResponse] ++ rest := pending
  apply order.still still split
  case idle =>
    intro other nothing
    have different : other ≠ e := by
      intro same
      unfold busy at nothing
      rw [queue, same, List.count_cons_self] at nothing
      omega
    have less : busy after other ≤ busy world other := by
      unfold busy
      rw [queueIn, call, queueOut, contexts, queue, List.count_cons]
      omega
    have none : weigh (refs other) [.release .queue e, .popResponse] = 0 := by
      show (if e = other then 1 else 0) + 0 = 0
      rw [if_neg (Ne.symm different)]
    omega
  case working =>
    intro other
    left
    unfold workerKept
    rw [queueIn, call]
    exact Nat.le_refl _
  case waiting =>
    rintro other unsent ⟨marked, member⟩
    left
    constructor
    · rw [done]
      exact marked
    · rw [queue] at member
      rw [queueOut]
      rcases List.mem_cons.mp member with same | behind
      · rw [same] at unsent marked
        rcases skip with sent | notDone
        · rw [unsent] at sent
          cases sent
        · rw [marked] at notDone
          cases notDone
      · exact behind
  case done =>
    intro other
    rfl
  case cleaned =>
    intro s
    rfl
  case single =>
    have limit := order.single
    show total control world.ops + 1 ≤ 1 + 1
    omega

/-- `ymo_wsgi_server_queue_responses`. -/
theorem order_popResponse (order : Order world) (accounts : Accounts world)
    (pending : world.ops thread = .popResponse :: rest) :
    Order
      (world.ymoWsgiServerQueueResponse.1.begin thread
        (world.ymoWsgiServerQueueResponse.2 ++ rest)) := by
  unfold World.ymoWsgiServerQueueResponse
  split
  · apply order.goOn (Same.log world false world.faults) pending
    case idle =>
      intro other _
      rfl
    case working =>
      intro other
      exact Nat.le_refl 0
    case done =>
      intro other
      rfl
    case cleaned =>
      intro s
      rfl
    case single => exact Nat.zero_le 1
  · rename_i e left queue
    have inQueue : 0 < mentions world e := by
      unfold mentions
      rw [queue, List.count_cons_self]
      omega
    have present := accounts.present (e := e) (by omega)
    rw [touch_eq present.2.1 present.2.2]
    dsimp only
    have sentIf (exchange : Exchange) (sent : exchange.sent = true)
        (other : Nat) :
        (if other = e then exchange else world.exchanges other).sent =
          if other = e then true else (world.exchanges other).sent := by
      by_cases here : other = e
      · rw [if_pos here, if_pos here, sent]
      · rw [if_neg here, if_neg here]
    split_ifs with closed sent finish
    · exact
        order_skipped order pending queue
          ⟨rfl, rfl, rfl, rfl, rfl, fun _ => rfl, fun _ => rfl,
            fun _ => rfl, fun _ => rfl, fun _ => rfl, fun _ => rfl⟩
          rfl rfl rfl rfl (fun _ => rfl) (Or.inl sent)
    · rw [Bool.not_eq_true] at sent
      exact
        order_marked order pending queue present.1 sent rfl rfl rfl rfl
          (part_setExchange Exchange.session rfl)
          (part_setExchange Exchange.response rfl)
          (part_setExchange Exchange.done rfl) (sentIf _ rfl) rfl rfl rfl rfl
          rfl
          (by
            have ended : (world.sessions (world.owner e)).closed = true :=
              closed
            rw [ended]
            exact (List.append_nil _).symm)
    · have unsent : (world.exchanges e).sent = false := by
        simp only [Bool.and_eq_true, Bool.not_eq_true'] at finish
        exact finish.2
      exact
        order_marked order pending queue present.1 unsent rfl rfl rfl rfl
          (part_setExchange Exchange.session rfl)
          (part_setExchange Exchange.response rfl)
          (part_setExchange Exchange.done rfl) (sentIf _ rfl) rfl rfl rfl rfl
          rfl
          (by
            have opened : (world.sessions (world.owner e)).closed = false := by
              rw [← Bool.not_eq_true]
              exact closed
            rw [opened]
            rfl)
    · have skip :
          (world.exchanges e).sent = true ∨
            (world.exchanges e).done = false := by
        rcases sent : (world.exchanges e).sent with _ | _
        · right
          simp only [sent, Bool.not_false, Bool.and_true,
            Bool.not_eq_true] at finish
          exact finish
        · exact Or.inl rfl
      exact
        order_skipped order pending queue
          ⟨rfl, rfl, rfl, rfl, rfl, part_setExchange Exchange.session rfl,
            part_setExchange Exchange.response rfl,
            part_setExchange Exchange.sent rfl,
            fun _ => rfl, fun _ => rfl, fun _ => rfl⟩
          rfl rfl rfl rfl (part_setExchange Exchange.done rfl) skip

/-- `ymo_wsgi_session_exchange_done`. -/
theorem order_exchangeDone (order : Order world) (accounts : Accounts world)
    (pending : world.ops thread = .exchangeDone e :: rest) :
    Order
      ((world.ymoWsgiSessionExchangeDone e).1.begin thread
        ((world.ymoWsgiSessionExchangeDone e).2 ++ rest)) := by
  have member := mem_pending pending
  have one : refs e (.exchangeDone e) = 1 := if_pos rfl
  have single := le_total (refs e) member
  have present := accounts.ofOp member one
  have handedHere : Handed world e := order.handed present.1 (by omega)
  have isDone : 0 < total (doneWith e) world.ops := by
    have weight : doneWith e (.exchangeDone e) = 1 := if_pos rfl
    have within := le_total (doneWith e) member
    omega
  have sentHere := order.doneSent e isDone
  have only {other : Nat} (some : 0 < doneWith other (.exchangeDone e)) :
      e = other := by
    by_contra different
    have none : doneWith other (.exchangeDone e) = 0 := if_neg different
    omega
  have behind : e ∉ (world.sessions (world.owner e)).list.tail := by
    intro inTail
    rcases order.doneHead e isDone with empty | head
    · rw [empty] at inTail
      cases inTail
    · rcases list : (world.sessions (world.owner e)).list with
        _ | ⟨first, next⟩
      · rw [list] at inTail
        cases inTail
      · rw [list] at inTail
        exact order.tail _ first next list e inTail handedHere
  have lost (head : Nat)
      (first : (world.sessions (world.owner e)).list.head? = some head)
      (_ : (world.sessions (world.owner e)).closed = false) :
      (world.exchanges head).sent = true := by
    rcases order.doneHead e isDone with empty | same
    · rw [empty] at first
      cases first
    · rw [same] at first
      cases first
      exact sentHere
  have unhandedRefs (other : Nat) (notHanded : ¬Handed world other) :
      (if e = other then 1 else 0) = 0 := by
    apply if_neg
    intro same
    rw [same] at handedHere
    exact notHanded handedHere
  unfold World.ymoWsgiSessionExchangeDone
  rw [touch_eq present.2.1 present.2.2]
  dsimp only
  split
  · rename_i empty
    apply order_tail order pending rfl lost
    case gone =>
      intro other some
      rw [← only some]
      exact behind
    case elsewhereDone =>
      intro other some
      rw [only some]
    case refsNew =>
      intro other notHanded
      exact unhandedRefs other notHanded
    case startsOp =>
      intro other
      rfl
    case startsNew =>
      intro other
      rfl
    case doneNew =>
      intro other
      rfl
    case cleaned =>
      intro other
      exact Or.inl rfl
    case controlNew => exact Nat.le_refl 1
    case owner =>
      intro other
      rfl
    case response =>
      intro other
      rfl
    case sent =>
      intro other
      rfl
    case done =>
      intro other marked
      exact marked
    case reading =>
      intro other
      rfl
    case closed =>
      intro other
      rfl
    case list =>
      intro other
      by_cases here : other = world.owner e
      · rw [if_pos here, here, empty]
        rfl
      · rw [if_neg here]
    all_goals rfl
  · rename_i head next list
    have presentHead := present_head accounts list
    rw [touchExchange_eq presentHead.2.1 presentHead.2.2]
    have first : head = e := by
      rcases order.doneHead e isDone with empty | same
      · rw [list] at empty
        cases empty
      · rw [list] at same
        cases same
        rfl
    apply order_tail order pending rfl lost
    case gone =>
      intro other some
      rw [← only some]
      exact behind
    case elsewhereDone =>
      intro other some
      rw [only some]
    case refsNew =>
      intro other notHanded
      have none := unhandedRefs other notHanded
      show (if head = other then 1 else 0) +
        ((if e = other then 1 else 0) + 0) = 0
      rw [first]
      omega
    case startsOp =>
      intro other
      rfl
    case startsNew =>
      intro other
      rfl
    case doneNew =>
      intro other
      rfl
    case cleaned =>
      intro other
      exact Or.inl rfl
    case controlNew => exact Nat.le_refl 1
    case owner =>
      intro other
      rfl
    case response =>
      intro other
      rfl
    case sent =>
      intro other
      rfl
    case done =>
      intro other marked
      exact marked
    case reading => exact part_setSession Session.reading rfl
    case closed => exact part_setSession Session.closed rfl
    case list =>
      intro other
      show (if other = world.owner e then _ else world.sessions other).list = _
      by_cases here : other = world.owner e
      · rw [if_pos here, if_pos here, list]
        rfl
      · rw [if_neg here, if_neg here]
    all_goals rfl

/-- The loop of `ymo_wsgi_session_cleanup`. -/
theorem order_releaseList (order : Order world) (accounts : Accounts world)
    {s : Nat}
    (pending : world.ops thread = .releaseList s :: rest) :
    Order
      ((world.ymoWsgiSessionCleanupNext s).1.begin thread
        ((world.ymoWsgiSessionCleanupNext s).2 ++ rest)) := by
  have member := mem_pending pending
  have present := accounts.ofSessionOp member (if_pos rfl)
  have ended : (world.sessions s).closed = true := by
    apply order.cleaningClosed
    have weight : cleaning s (.releaseList s) = 1 := if_pos rfl
    have within := le_total (cleaning s) member
    omega
  have lost (head : Nat) (_ : (world.sessions s).list.head? = some head)
      (opened : (world.sessions s).closed = false) :
      (world.exchanges head).sent = true := by
    rw [ended] at opened
    cases opened
  unfold World.ymoWsgiSessionCleanupNext
  rw [touchSession_eq present.2]
  dsimp only
  split
  · rename_i empty
    apply order_tail order pending rfl lost
    case gone =>
      intro other some
      cases some
    case elsewhereDone =>
      intro other some
      cases some
    case refsNew =>
      intro other _
      rfl
    case startsOp =>
      intro other
      rfl
    case startsNew =>
      intro other
      rfl
    case doneNew =>
      intro other
      rfl
    case cleaned =>
      intro other
      by_cases here : other = s
      · right
        refine ⟨rfl, ?_⟩
        rw [here]
        exact empty
      · left
        show 0 = if s = other then 1 else 0
        rw [if_neg (Ne.symm here)]
    case controlNew => exact Nat.le_refl 1
    case owner =>
      intro other
      rfl
    case response =>
      intro other
      rfl
    case sent =>
      intro other
      rfl
    case done =>
      intro other marked
      exact marked
    case reading =>
      intro other
      rfl
    case closed =>
      intro other
      rfl
    case list =>
      intro other
      by_cases here : other = s
      · rw [if_pos here, here, empty]
        rfl
      · rw [if_neg here]
    all_goals rfl
  · rename_i head next list
    have presentHead := present_head accounts list
    rw [touchExchange_eq presentHead.2.1 presentHead.2.2]
    have inList : head ∈ (world.sessions s).list := by
      rw [list]
      exact List.mem_cons_self
    have listed := accounts.listed s head inList
    have handedHead : Handed world head := by
      by_contra notHanded
      have opened := (order.unhanded head listed.1 notHanded).1
      rw [listed.2, ended] at opened
      cases opened
    apply order_tail order pending rfl lost
    case gone =>
      intro other some
      cases some
    case elsewhereDone =>
      intro other some
      cases some
    case refsNew =>
      intro other notHanded
      have different : head ≠ other := by
        intro same
        rw [same] at handedHead
        exact notHanded handedHead
      show (if head = other then 1 else 0) + (0 + 0) = 0
      simp only [if_neg different, Nat.add_zero]
    case startsOp =>
      intro other
      rfl
    case startsNew =>
      intro other
      rfl
    case doneNew =>
      intro other
      rfl
    case cleaned =>
      intro other
      left
      exact Nat.zero_add _
    case controlNew => exact Nat.le_refl 1
    case owner => exact part_setExchange Exchange.session rfl
    case response => exact part_setExchange Exchange.response rfl
    case sent => exact part_setExchange Exchange.sent rfl
    case done =>
      intro other marked
      show (if other = head then _ else world.exchanges other).done = true
      by_cases here : other = head
      · rw [if_pos here]
      · rw [if_neg here]
        exact marked
    case reading => exact part_setSession Session.reading rfl
    case closed => exact part_setSession Session.closed rfl
    case list =>
      intro other
      show (if other = s then _ else world.sessions other).list = _
      by_cases here : other = s
      · rw [if_pos here, if_pos here, list]
        rfl
      · rw [if_neg here, if_neg here]
    all_goals rfl

/-- `ymo_wsgi_ctx_update_environ` makes the context. -/
theorem order_makeContext (order : Order world) (accounts : Accounts world)
    {allocated : Bool}
    (pending : world.ops thread = .makeContext e :: rest)
    (guarded : allocated = true ∧ (world.exchanges e).done = false) :
    Order
      ((world.ymoWsgiCtxUpdateEnviron allocated e).1.begin thread
        ((world.ymoWsgiCtxUpdateEnviron allocated e).2 ++ rest)) := by
  have member := mem_pending pending
  have two : refs e (.makeContext e) = 2 := if_pos rfl
  have single := le_total (refs e) member
  have present := accounts.ofOp member two
  have split : world.ops thread = [.makeContext e] ++ rest := pending
  unfold World.ymoWsgiCtxUpdateEnviron
  rw [touchExchange_eq present.2.1 present.2.2]
  dsimp only
  rw [guarded.2, guarded.1]
  simp only [Bool.false_eq_true, if_false, if_true]
  have still : Still world { world with contexts := world.contexts ++ [e] } :=
    ⟨rfl, rfl, rfl, rfl, rfl, fun _ => rfl, fun _ => rfl, fun _ => rfl,
      fun _ => rfl, fun _ => rfl, fun _ => rfl⟩
  apply order.still still split
  case idle =>
    intro other nothing
    have different : e ≠ other := by
      intro same
      rw [← same] at nothing
      omega
    have count :
        (world.contexts ++ [e]).count other = world.contexts.count other := by
      rw [count_concat, if_neg (Ne.symm different), Nat.add_zero]
    unfold busy at nothing ⊢
    show world.queueIn.count other + owed world.call other +
        world.queueOut.count other + (world.contexts ++ [e]).count other +
          ((if e = other then 1 else 0) + 0) = 0
    rw [count, if_neg different]
    omega
  case working =>
    intro other
    exact Or.inl (Nat.le_refl _)
  case waiting =>
    intro other _ waits
    exact Or.inl waits
  case done =>
    intro other
    rfl
  case cleaned =>
    intro s
    rfl
  case single =>
    have limit := order.single
    show total control world.ops + 0 ≤ 1 + 0
    omega

/-- `ymo_wsgi_worker_issue_request` begins. -/
theorem order_issueRequest (order : Order world) (accounts : Accounts world)
    (pending : world.ops thread = .issueRequest e :: rest) :
    Order
      (({ (world.touchExchange e).setExchange e
            { world.exchanges e with done := false } with
          call := some { exchange := e, phase := .calling, owes := true } } :
          World).begin thread ([] ++ rest)) := by
  have member := mem_pending pending
  have one : refs e (.issueRequest e) = 1 := if_pos rfl
  have single := le_total (refs e) member
  have present := accounts.ofOp member one
  have split : world.ops thread = [.issueRequest e] ++ rest := pending
  have idle : world.call = none := by
    by_contra some
    have start := le_total starts member
    have isStart : starts (.issueRequest e) = 1 := rfl
    have bound := accounts.starting
    unfold running at bound
    rw [if_neg some] at bound
    omega
  rw [touchExchange_eq present.2.1 present.2.2]
  have still :
      Still world
        { world.setExchange e
            { world.exchanges e with done := false } with
          call := some { exchange := e, phase := .calling, owes := true } } :=
    ⟨rfl, rfl, rfl, rfl, rfl, part_setExchange Exchange.session rfl,
      part_setExchange Exchange.response rfl,
      part_setExchange Exchange.sent rfl,
      fun _ => rfl, fun _ => rfl, fun _ => rfl⟩
  have owedAfter (other : Nat) :
      owed
          (some { exchange := e, phase := .calling, owes := true })
          other =
        if e = other then 1 else 0 := by
    show (if e = other ∧ true = true then 1 else 0) = _
    simp only [and_true]
  have owedBefore (other : Nat) : owed world.call other = 0 := by
    rw [idle]
    rfl
  apply order.still still split
  case idle =>
    intro other nothing
    have different : e ≠ other := by
      intro same
      rw [← same] at nothing
      omega
    have none := owedBefore other
    unfold busy at nothing ⊢
    show world.queueIn.count other + owed (some _) other +
        world.queueOut.count other + world.contexts.count other + 0 = 0
    rw [owedAfter, if_neg different]
    omega
  case working =>
    intro other
    left
    have none := owedBefore other
    unfold workerKept
    show world.queueIn.count other + owed world.call other +
        ((if e = other then 1 else 0) + 0) ≤
      world.queueIn.count other + owed (some _) other + 0
    rw [owedAfter]
    omega
  case waiting =>
    rintro other - ⟨marked, inQueue⟩
    by_cases here : e = other
    · right
      unfold workerKept
      show 0 < world.queueIn.count other + owed (some _) other + 0
      rw [owedAfter, if_pos here]
      omega
    · left
      refine ⟨?_, inQueue⟩
      show (if other = e then _ else world.exchanges other).done = true
      rw [if_neg (Ne.symm here)]
      exact marked
  case done =>
    intro other
    rfl
  case cleaned =>
    intro s
    rfl
  case single =>
    have limit := order.single
    show total control world.ops + 0 ≤ 1 + 0
    omega

/-- The call goes on to another part. -/
theorem still_setPhase (world : World) (phase : Phase) :
    Still world (world.setPhase phase) :=
  ⟨rfl, rfl, rfl, rfl, rfl, fun _ => rfl, fun _ => rfl, fun _ => rfl,
    fun _ => rfl, fun _ => rfl, fun _ => rfl⟩

/-- The call goes on, and a thread too. -/
theorem order_setPhase (order : Order world) (phase : Phase)
    {old new : List Op}
    (pending : world.ops thread = old ++ rest)
    (idle : ∀ e, weigh (refs e) new = 0)
    (working : ∀ e, weigh (startsFor e) old ≤ weigh (startsFor e) new)
    (done : ∀ e, weigh (doneWith e) new = weigh (doneWith e) old)
    (cleaned : ∀ s, weigh (cleaning s) new = weigh (cleaning s) old)
    (single : weigh control new ≤ weigh control old) :
    Order ((world.setPhase phase).begin thread (new ++ rest)) := by
  have owedSame (e : Nat) :
      owed (world.setPhase phase).call e = owed world.call e :=
    owed_setPhase world.call phase e
  apply order.still (still_setPhase world phase) pending
  case idle =>
    intro e nothing
    have none := idle e
    unfold busy at nothing ⊢
    rw [owedSame]
    show world.queueIn.count e + owed world.call e +
      world.queueOut.count e + world.contexts.count e + _ = 0
    omega
  case working =>
    intro e
    left
    have more := working e
    unfold workerKept
    rw [owedSame]
    show _ ≤ world.queueIn.count e + owed world.call e + _
    omega
  case waiting =>
    intro e _ waits
    exact Or.inl waits
  case done => exact done
  case cleaned => exact cleaned
  case single =>
    have limit := order.single
    omega

/-- `ymo_wsgi_worker_response_body_append`, up to the lock. -/
theorem order_bodyAppend (order : Order world) (accounts : Accounts world)
    {item : Bytes}
    (pending : world.ops thread = .bodyAppend e item :: rest) :
    Order
      ((world.ymoWsgiWorkerResponseBodyAppend e item).1.begin thread
        ((world.ymoWsgiWorkerResponseBodyAppend e item).2 ++ rest)) := by
  have member := mem_pending pending
  have present := accounts.ofUse member (beq_self_eq_true e)
  have split : world.ops thread = [.bodyAppend e item] ++ rest := pending
  unfold World.ymoWsgiWorkerResponseBodyAppend
  rw [touch_eq present.2.1 present.2.2]
  dsimp only
  split_ifs
  · exact
      order_setPhase order .closing split (fun _ => rfl)
        (fun _ => Nat.le_refl 0) (fun _ => rfl) (fun _ => rfl)
        (Nat.le_refl 0)
  · exact
      order.goOn (Same.refl world) pending (fun _ _ => rfl)
        (fun _ => Nat.le_refl 0) (fun _ => rfl) (fun _ => rfl)
        (Nat.le_refl 0)

/-- `ymo_wsgi_worker_response_body_append`, from the lock on. -/
theorem order_queueOut (order : Order world) (accounts : Accounts world)
    {item : Option Bytes}
    {done : Bool}
    (pending : world.ops thread = .queueOut e item done :: rest)
    (owes : owed world.call e = 1) :
    Order
      ((world.ymoWsgiWorkerQueueOut e item done).1.begin thread
        ((world.ymoWsgiWorkerQueueOut e item done).2 ++ rest)) := by
  have inUse : 0 < mentions world e := by
    unfold mentions
    omega
  have present := accounts.present (e := e) (by omega)
  have split : world.ops thread = [.queueOut e item done] ++ rest := pending
  have counted :
      (world.touchSession (world.owner e)).ymoWsgiExchangeIncref e =
        world.setExchange e
          { world.exchanges e with
            refcnt := (world.exchanges e).refcnt + 1 } := by
    rw [touchSession_eq present.2.2]
    exact ymoWsgiExchangeIncref_eq present.2.1 present.2.2
  have queued {other : Nat} (different : e ≠ other) :
      (world.queueOut ++ [e]).count other = world.queueOut.count other := by
    rw [count_concat, if_neg (Ne.symm different), Nat.add_zero]
  have busyOwed {other : Nat}
      (nothing : busy world other + total (refs other) world.ops = 0) :
      e ≠ other := by
    intro same
    rw [← same] at nothing
    unfold busy at nothing
    omega
  unfold World.ymoWsgiWorkerQueueOut
  rw [counted]
  dsimp only
  rw [setExchange_same, setExchange_twice]
  cases done with
  | false =>
      simp only [Bool.false_eq_true, if_false]
      apply order.still _ split
      case idle =>
        intro other nothing
        have different := busyOwed nothing
        have count := queued different
        unfold busy at nothing ⊢
        show world.queueIn.count other + owed world.call other +
            (world.queueOut ++ [e]).count other +
              world.contexts.count other + 0 = 0
        omega
      case working =>
        intro other
        exact Or.inl (Nat.le_refl _)
      case waiting =>
        rintro other - ⟨marked, inQueue⟩
        by_cases here : other = e
        · right
          unfold workerKept
          show 0 < world.queueIn.count other + owed world.call other + 0
          rw [here]
          omega
        · left
          refine ⟨?_, List.mem_append_left [e] inQueue⟩
          show (if other = e then _ else world.exchanges other).done = true
          rw [if_neg here]
          exact marked
      case done =>
        intro other
        rfl
      case cleaned =>
        intro s
        rfl
      case single =>
        have limit := order.single
        show total control world.ops + 0 ≤ 1 + 0
        omega
      exact
        ⟨rfl, rfl, rfl, rfl, rfl, part_setExchange Exchange.session rfl,
          part_setExchange Exchange.response rfl,
          part_setExchange Exchange.sent rfl,
          fun _ => rfl, fun _ => rfl, fun _ => rfl⟩
  | true =>
      simp only [if_true]
      have owedAfter {other : Nat} (different : e ≠ other) :
          owed
              (world.call.map fun call =>
                if call.exchange = e then { call with owes := false }
                else call)
              other =
            owed world.call other := by
        rcases world.call with _ | call
        · rfl
        · show owed (some (if call.exchange = e then _ else call)) other = _
          by_cases here : call.exchange = e
          · rw [if_pos here]
            have before : owed (some call) other = 0 := by
              apply if_neg
              rintro ⟨same, -⟩
              exact different (here.symm.trans same)
            rw [before]
            exact if_neg (fun both => by cases both.2)
          · rw [if_neg here]
      apply order.still _ split
      case idle =>
        intro other nothing
        have different := busyOwed nothing
        have count := queued different
        have same := owedAfter different
        unfold busy at nothing ⊢
        show world.queueIn.count other + owed (world.call.map _) other +
            (world.queueOut ++ [e]).count other +
              world.contexts.count other +
                ((if e = other then 1 else 0) + 0) = 0
        rw [if_neg different]
        omega
      case working =>
        intro other
        by_cases here : other = e
        · right
          constructor
          · show (if other = e then _ else world.exchanges other).done = true
            rw [if_pos here]
          · rw [here]
            exact List.mem_append_right _ List.mem_cons_self
        · left
          have same := owedAfter (Ne.symm here)
          unfold workerKept
          show world.queueIn.count other + owed world.call other + 0 ≤
            world.queueIn.count other + owed (world.call.map _) other + 0
          omega
      case waiting =>
        rintro other - ⟨marked, inQueue⟩
        left
        refine ⟨?_, List.mem_append_left [e] inQueue⟩
        show (if other = e then _ else world.exchanges other).done = true
        by_cases here : other = e
        · rw [if_pos here]
        · rw [if_neg here]
          exact marked
      case done =>
        intro other
        rfl
      case cleaned =>
        intro s
        rfl
      case single =>
        have limit := order.single
        show total control world.ops + 0 ≤ 1 + 0
        omega
      exact
        ⟨rfl, rfl, rfl, rfl, rfl, part_setExchange Exchange.session rfl,
          part_setExchange Exchange.response rfl,
          part_setExchange Exchange.sent rfl,
          fun _ => rfl, fun _ => rfl, fun _ => rfl⟩

end Operations

end Yimmo.Wsgi.Balance
