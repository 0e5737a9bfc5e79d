import Yimmo.Wsgi.Balance

/-!
# The order of use along a run

Every step that meets the guard keeps the order in which exchanges are used.  An
operation moves an exchange on (`order_perform`); a request that arrives is the
newest of its session, and the one that is handed to the worker is the head of the
session's list.
-/

namespace Yimmo.Wsgi.Actions

open Yimmo.Lib.Threads
open Yimmo.Wsgi.Worker
open Yimmo.Wsgi.References
open Yimmo.Wsgi.Accounting
open Yimmo.Wsgi.Pools
open Yimmo.Wsgi.Release
open Yimmo.Wsgi.Steps
open Yimmo.Wsgi.Progress
open Yimmo.Wsgi.Balance

variable
    {e : Nat}
    {s : Nat}

/-! ## Operations -/

section Operations

variable
    {world : World}
    {thread : Thread}
    {rest : List Op}

/-- `WSGI_EXCHANGE_DECREF`. -/
theorem order_release (order : Order world) {holder : Holder}
    (pending : world.ops thread = .release holder e :: rest) :
    Order
      ((world.ymoWsgiExchangeDecref e).1.begin thread
        ((world.ymoWsgiExchangeDecref e).2 ++ rest)) := by
  have same : Same world (world.ymoWsgiExchangeDecref e).1 :=
    Same.touchSet world rfl rfl rfl rfl
  unfold World.ymoWsgiExchangeDecref at same ⊢
  dsimp only at same ⊢
  split_ifs
  · exact
      order.goOn same pending (fun _ _ => rfl) (fun _ => Nat.le_refl 0)
        (fun _ => rfl) (fun _ => rfl) (Nat.le_refl 0)
  · exact
      order.goOn same pending (fun _ _ => rfl) (fun _ => Nat.le_refl 0)
        (fun _ => rfl) (fun _ => rfl) (Nat.le_refl 0)

theorem Same.ymoWsgiSessionDecref (world : World) (s : Nat) :
    Same world (world.ymoWsgiSessionDecref s) :=
  Same.touchSetSession world rfl rfl rfl

theorem Same.ymoWsgiExchangeFree (world : World) (e : Nat) :
    Same world (world.ymoWsgiExchangeFree e).1 := by
  have freed :
      Same world
        ((world.touchExchange e).setExchange e
          { world.exchanges e with
            frees := (world.exchanges e).frees + 1 }) :=
    Same.touchSet world rfl rfl rfl rfl
  unfold World.ymoWsgiExchangeFree
  dsimp only
  split_ifs
  · exact freed
  · apply freed.trans
    apply Same.setSession
    · rfl
    · rfl
    · rfl

theorem Same.returnItem (world : World) (s item : Nat) :
    Same world (world.returnItem s item) :=
  Same.touchSetSession world rfl rfl rfl

/-- What `ymo_wsgi_exchange_free` still has to do holds no references. -/
theorem order_exchangeFree (order : Order world)
    (pending : world.ops thread = .exchangeFree e :: rest) :
    Order
      ((world.ymoWsgiExchangeFree e).1.begin thread
        ((world.ymoWsgiExchangeFree e).2 ++ rest)) := by
  have same := Same.ymoWsgiExchangeFree world e
  have left :
      (world.ymoWsgiExchangeFree e).2 = [] ∨
        ∃ s item, (world.ymoWsgiExchangeFree e).2 = [.returnItem s item] := by
    unfold World.ymoWsgiExchangeFree
    dsimp only
    split_ifs
    · exact Or.inl rfl
    · exact Or.inr ⟨_, _, rfl⟩
  rcases left with none | ⟨s, item, some⟩
  · rw [none]
    exact
      order.goOn same pending (fun _ _ => rfl) (fun _ => Nat.le_refl 0)
        (fun _ => rfl) (fun _ => rfl) (Nat.le_refl 0)
  · rw [some]
    exact
      order.goOn same pending (fun _ _ => rfl) (fun _ => Nat.le_refl 0)
        (fun _ => rfl) (fun _ => rfl) (Nat.le_refl 0)

end Operations

/-! ## Actions that begin or end something -/

section Actions

variable {world after : World}

/-- A step that changes nothing but counts, locks and pools. -/
theorem Order.ofSame (order : Order world) (same : Same world after) :
    Order after := by
  have split : world.ops .server = [] ++ world.ops .server := rfl
  have kept : Order (after.begin .server ([] ++ world.ops .server)) :=
    order.same same split (fun _ _ => rfl) (fun _ => Nat.le_refl 0)
      (fun _ => rfl) (fun _ => rfl) order.single
  rw [List.nil_append, ← same.ops, begin_same] at kept
  exact kept

/-- A thread with nothing to do begins something. -/
theorem order_begin (order : Order world) {thread : Thread} {op : Op}
    (idle : world.ops thread = [])
    (none : ∀ e, refs e op = 0)
    (done : ∀ e, doneWith e op = 0)
    (cleaned : ∀ s, cleaning s op = 0)
    (single : total control world.ops + control op ≤ 1) :
    Order (world.begin thread [op]) := by
  have split : world.ops thread = [] ++ [] := idle
  have kept : Order (world.begin thread ([op] ++ [])) := by
    apply order.same (Same.refl world) split
    case idle =>
      intro e _
      rw [weigh_one, none]
    case working =>
      intro e
      exact Nat.zero_le _
    case done =>
      intro e
      rw [weigh_one, done]
      rfl
    case cleaned =>
      intro s
      rw [weigh_one, cleaned]
      rfl
    case single =>
      rw [weigh_one]
      exact single
  exact kept

/-- While the server's thread has nothing to do, no loop of it is pending. -/
theorem noControl (placed : Placed world) (idle : world.ops .server = []) :
    total control world.ops = 0 := by
  by_contra some
  rcases exists_of_total (Nat.pos_of_ne_zero some) with
    ⟨thread, op, member, weight⟩
  have server : home op = .some .server := by
    cases op with
    | popResponse => rfl
    | exchangeDone e => rfl
    | lockCleanup s => rfl
    | releaseList s => rfl
    | unlockCleanup s => rfl
    | _ => exact absurd weight (Nat.lt_irrefl 0)
  rw [placed.here member server, idle] at member
  cases member

/-- `ymo_wsgi_session_init`. -/
theorem order_sessionInit (order : Order world) (accounts : Accounts world) :
    Order world.ymoWsgiSessionInit := by
  have fresh := (accounts.sessionFresh _ (Nat.le_refl _)).1
  have session :
      Same world
        (world.setSession world.nextSession
          { Session.blank with
            refcnt := 1
            pool := Pool.full }) := by
    apply Same.setSession
    · rw [fresh]
    · rw [fresh]
    · rw [fresh]
  have same : Same world world.ymoWsgiSessionInit :=
    ⟨⟨rfl, rfl, rfl, rfl, rfl, fun _ => rfl, fun _ => rfl, fun _ => rfl,
      session.reading, session.list, session.closed⟩, rfl, rfl, rfl, rfl,
      fun _ => rfl⟩
  exact Order.ofSame order same

/-- `ymo_wsgi_server_queue_responses` begins. -/
theorem order_queueResponses (order : Order world) (placed : Placed world)
    (idle : world.ops .server = []) :
    Order ({ world with lockOut := true }.begin .server [.popResponse]) := by
  have locked := Order.ofSame order (Same.log world true world.faults)
  have none := noControl placed idle
  apply order_begin locked idle (fun _ => rfl) (fun _ => rfl) (fun _ => rfl)
  show total control world.ops + 1 ≤ 1
  omega

/-- The worker takes a request from its queue. -/
theorem order_popRequest (order : Order world) {left : List Nat}
    (queue : world.queueIn = e :: left)
    (idle : world.ops .worker = []) :
    Order
      (({ world with queueIn := left } : World).begin .worker
        [.holdContext e]) := by
  have split : world.ops .worker = [] ++ [] := idle
  have still : Still world { world with queueIn := left } :=
    ⟨rfl, rfl, rfl, rfl, rfl, fun _ => rfl, fun _ => rfl, fun _ => rfl,
      fun _ => rfl, fun _ => rfl, fun _ => rfl⟩
  have taken (other : Nat) :
      world.queueIn.count other =
        left.count other + if e = other then 1 else 0 := by
    rw [queue, List.count_cons]
    simp only [beq_iff_eq]
  have kept :
      Order
        (({ world with queueIn := left } : World).begin .worker
          ([.holdContext e] ++ [])) := by
    apply order.still still split
    case idle =>
      intro other nothing
      have count := taken other
      unfold busy at nothing ⊢
      show left.count other + owed world.call other +
        world.queueOut.count other + world.contexts.count other +
          ((if e = other then 1 else 0) + 0) = 0
      omega
    case working =>
      intro other
      left
      have count := taken other
      unfold workerKept
      show world.queueIn.count other + owed world.call other + 0 ≤
        left.count other + owed world.call other +
          ((if e = other then 1 else 0) + 0)
      omega
    case waiting =>
      intro other _ waits
      exact Or.inl waits
    case done =>
      intro other
      rfl
    case cleaned =>
      intro s
      rfl
    case single => exact order.single
  exact kept

/-- The call ends with its reference given back. -/
theorem order_endCall (order : Order world) (settled : CallSettled world) :
    Order { world with call := none } := by
  have nothing (e : Nat) : owed world.call e = 0 := by
    rcases found : world.call with _ | call
    · rfl
    · apply if_neg
      rintro ⟨-, owes⟩
      rw [settled call found] at owes
      cases owes
  have split : world.ops .server = [] ++ world.ops .server := rfl
  have still : Still world { world with call := none } :=
    ⟨rfl, rfl, rfl, rfl, rfl, fun _ => rfl, fun _ => rfl, fun _ => rfl,
      fun _ => rfl, fun _ => rfl, fun _ => rfl⟩
  have kept :
      Order
        (({ world with call := none } : World).begin .server
          ([] ++ world.ops .server)) := by
    apply order.still still split
    case idle =>
      intro e none
      unfold busy at none ⊢
      show world.queueIn.count e + 0 + world.queueOut.count e +
        world.contexts.count e + 0 = 0
      omega
    case working =>
      intro e
      left
      unfold workerKept
      rw [nothing e]
      exact Nat.le_refl _
    case waiting =>
      intro e _ waits
      exact Or.inl waits
    case done =>
      intro e
      rfl
    case cleaned =>
      intro s
      rfl
    case single => exact order.single
  have ended := begin_same { world with call := none } .server
  rw [List.nil_append] at kept
  rw [← ended]
  exact kept

/-- `yimmo_Context_dealloc`. -/
theorem order_dropContext (order : Order world) {thread : Thread}
    (idle : world.ops thread = [])
    (inside : e ∈ world.contexts) :
    Order
      (({ world with contexts := world.contexts.erase e } : World).begin
        thread [.release .context e]) := by
  have split : world.ops thread = [] ++ [] := idle
  have still : Still world { world with contexts := world.contexts.erase e } :=
    ⟨rfl, rfl, rfl, rfl, rfl, fun _ => rfl, fun _ => rfl, fun _ => rfl,
      fun _ => rfl, fun _ => rfl, fun _ => rfl⟩
  have some := List.count_pos_iff.mpr inside
  have kept :
      Order
        (({ world with contexts := world.contexts.erase e } : World).begin
          thread ([.release .context e] ++ [])) := by
    apply order.still still split
    case idle =>
      intro other nothing
      unfold busy at nothing ⊢
      have different : e ≠ other := by
        intro same
        rw [same] at some
        omega
      have fewer :=
        List.Sublist.count_le other (List.erase_sublist (a := e)
          (l := world.contexts))
      show world.queueIn.count other + owed world.call other +
        world.queueOut.count other +
          (world.contexts.erase e).count other +
            ((if e = other then 1 else 0) + 0) = 0
      rw [if_neg different]
      omega
    case working =>
      intro other
      exact Or.inl (Nat.le_refl _)
    case waiting =>
      intro other _ waits
      exact Or.inl waits
    case done =>
      intro other
      rfl
    case cleaned =>
      intro s
      rfl
    case single => exact order.single
  exact kept

/-- `ymo_wsgi_session_cleanup` begins. -/
theorem order_sessionCleanup
    (order : Order world)
    (accounts : Accounts world)
    (placed : Placed world)
    (idle : world.ops .server = [])
    (below : s < world.nextSession)
    (opened : (world.sessions s).closed = false)
    (guarded :
      ∀ arrival ∈ (world.sessions s).reading, arrival.exchange = none) :
    Order
      (((world.touchSession s).setSession s
        { world.sessions s with closed := true }).begin .server
          [.lockCleanup s]) := by
  rw [touchSession_eq (present_opened accounts below opened)]
  let after := world.setSession s { world.sessions s with closed := true }
  have list (other : Nat) :
      (after.sessions other).list = (world.sessions other).list :=
    part_setSession Session.list (by rfl) other
  have reading (other : Nat) :
      (after.sessions other).reading = (world.sessions other).reading :=
    part_setSession Session.reading (by rfl) other
  have closedHere : (after.sessions s).closed = true := by
    show (if s = s then _ else world.sessions s).closed = true
    rw [if_pos rfl]
  have elsewhere {other : Nat} (different : other ≠ s) :
      after.sessions other = world.sessions other :=
    if_neg different
  have unclosed {other : Nat} (still : (after.sessions other).closed = false) :
      other ≠ s ∧ (world.sessions other).closed = false := by
    have different : other ≠ s := by
      intro same
      rw [same, closedHere] at still
      cases still
    rw [elsewhere different] at still
    exact ⟨different, still⟩
  have balance (weight : Op → Nat) :
      total weight (setOps world.ops .server [.lockCleanup s]) =
        total weight world.ops + weight (.lockCleanup s) := by
    rw [total_begin weight [.lockCleanup s] idle]
    simp only [List.map_cons, List.map_nil, List.sum_cons, List.sum_nil,
      Nat.add_zero]
  show Order (after.begin .server [.lockCleanup s])
  constructor
  case toNumbered =>
    exact
      order.toNumbered.stays
        ⟨rfl, rfl, rfl, fun _ => rfl, fun _ => rfl, reading⟩
  case toFinished =>
    constructor
    case unfinished => exact order.unfinished
    case finishedOnce => exact order.finishedOnce
    case finishedOpen =>
      intro e inside marked isOpen
      exact order.finishedOpen e inside marked (unclosed isOpen).2
    case finishedKnown => exact order.finishedKnown
  case unhanded =>
    intro e inside notHanded
    rcases order.unhanded e inside notHanded with
      ⟨isOpen, read, unsent, nothing⟩
    have different : world.owner e ≠ s := by
      intro same
      rw [same] at read
      have ended := guarded _ read
      cases ended
    refine ⟨?_, ?_, unsent, ?_⟩
    · show (after.sessions (world.owner e)).closed = false
      rw [elsewhere different]
      exact isOpen
    · show (after.sessions (world.owner e)).reading = _
      rw [reading]
      exact read
    · have change := balance (refs e)
      have none : refs e (.lockCleanup s) = 0 := rfl
      show busy world e + total (refs e) (setOps world.ops _ _) = 0
      omega
  case working =>
    intro e inside handed unsent
    have change := balance (startsFor e)
    rcases order.working e inside handed unsent with works | waits
    · left
      show 0 < workerKept world e + total (startsFor e) (setOps world.ops _ _)
      omega
    · exact Or.inr waits
  case nodup =>
    intro other
    show (after.sessions other).list.Nodup
    rw [list]
    exact order.nodup other
  case tail =>
    intro other head others same e member
    have now : (after.sessions other).list = head :: others := same
    rw [list] at now
    exact order.tail other head others now e member
  case sentListed =>
    intro e marked member
    have change := balance (doneWith e)
    have inList : e ∈ (after.sessions (world.owner e)).list := member
    rw [list] at inList
    have some := order.sentListed e marked inList
    show 0 < total (doneWith e) (setOps world.ops _ _)
    omega
  case unsentListed =>
    intro e inside unsent isOpen
    show e ∈ (after.sessions (world.owner e)).list
    rw [list]
    exact order.unsentListed e inside unsent (unclosed isOpen).2
  case doneHead =>
    intro e some
    have change := balance (doneWith e)
    have none : doneWith e (.lockCleanup s) = 0 := rfl
    have now : 0 < total (doneWith e) (setOps world.ops _ _) := some
    show (after.sessions (world.owner e)).list = [] ∨
      (after.sessions (world.owner e)).list.head? = _
    rw [list]
    exact order.doneHead e (by omega)
  case doneSent =>
    intro e some
    have change := balance (doneWith e)
    have none : doneWith e (.lockCleanup s) = 0 := rfl
    have now : 0 < total (doneWith e) (setOps world.ops _ _) := some
    exact order.doneSent e (by omega)
  case cleaningClosed =>
    intro other some
    show (after.sessions other).closed = true
    by_cases here : other = s
    · rw [here]
      exact closedHere
    · rw [elsewhere here]
      have change := balance (cleaning other)
      have none : cleaning other (.lockCleanup s) = 0 := if_neg (Ne.symm here)
      have now : 0 < total (cleaning other) (setOps world.ops _ _) := some
      exact order.cleaningClosed other (by omega)
  case closedEmpty =>
    intro other ended
    have change := balance (cleaning other)
    show (after.sessions other).list = [] ∨
      0 < total (cleaning other) (setOps world.ops _ _)
    by_cases here : other = s
    · have one : cleaning other (.lockCleanup s) = 1 := if_pos here.symm
      exact Or.inr (by omega)
    · have before : (after.sessions other).closed = true := ended
      rw [elsewhere here] at before ⊢
      rcases order.closedEmpty other before with empty | cleans
      · exact Or.inl empty
      · exact Or.inr (by omega)
  case single =>
    have change := balance control
    have none := noControl placed idle
    have one : Progress.control (.lockCleanup s) = 1 := rfl
    show total control (setOps world.ops _ _) ≤ 1
    omega

/-- A request begins, with an exchange of its own or without one. -/
theorem order_arrival
    (order : Order world)
    (placed : Placed world)
    (accounts : Accounts world)
    {new : Option Nat}
    (idle : world.ops .server = [])
    (opened : (world.sessions s).closed = false)
    (unread : (world.sessions s).reading = none)
    (kind : new = none ∨ new = some world.nextExchange)
    (nextExchange :
      after.nextExchange = world.nextExchange + new.toList.length)
    (nextResponse : after.nextResponse = world.nextResponse + 1)
    (requested : after.requested = world.requested)
    (finished : after.finished = world.finished)
    (ops : after.ops = world.ops)
    (queueIn : after.queueIn = world.queueIn)
    (queueOut : after.queueOut = world.queueOut)
    (call : after.call = world.call)
    (contexts : after.contexts = world.contexts)
    (exchanges : ∀ e, new ≠ some e → after.exchanges e = world.exchanges e)
    (created :
      ∀ e, new = some e →
        after.owner e = s ∧
          (after.exchanges e).response = world.nextResponse ∧
            (after.exchanges e).sent = false)
    (elsewhere :
      ∀ other, other ≠ s → after.sessions other = world.sessions other)
    (reading :
      (after.sessions s).reading =
        some { response := world.nextResponse, exchange := new })
    (list : (after.sessions s).list = (world.sessions s).list ++ new.toList)
    (closed : (after.sessions s).closed = false) :
    Order after := by
  have isNext {e : Nat} (new_e : new = some e) : e = world.nextExchange := by
    rcases kind with none | next
    · rw [none] at new_e
      cases new_e
    · rw [next] at new_e
      exact (Option.some.inj new_e).symm
  have old {e : Nat} (below : e < world.nextExchange) : new ≠ some e := by
    intro new_e
    have same := isNext new_e
    omega
  have oldOrNew {e : Nat} (inside : e < after.nextExchange) :
      e < world.nextExchange ∨ new = some e := by
    rw [nextExchange] at inside
    rcases kind with none | next
    · rw [none] at inside
      exact Or.inl inside
    · rw [next] at inside
      have below : e < world.nextExchange + 1 := inside
      rcases Nat.lt_succ_iff_lt_or_eq.mp below with before | last
      · exact Or.inl before
      · right
        rw [next, last]
  have grown {e : Nat} (below : e < world.nextExchange) :
      e < after.nextExchange := by
    rw [nextExchange]
    omega
  have ownerOld {e : Nat} (different : new ≠ some e) :
      after.owner e = world.owner e := by
    unfold World.owner
    rw [exchanges e different]
  have closedSame (other : Nat) :
      (after.sessions other).closed = (world.sessions other).closed := by
    by_cases here : other = s
    · rw [here, closed, opened]
    · rw [elsewhere other here]
  have unasked (other : Nat) :
      (other, world.nextResponse) ∉ world.requested := by
    intro asked
    rcases order.asked _ _ asked with ⟨e, below, -, same⟩
    have small := order.response e below
    omega
  have handedOld {e : Nat} (different : new ≠ some e) :
      Handed after e ↔ Handed world e := by
    unfold Handed
    rw [ownerOld different, exchanges e different, requested]
  have handedNew {e : Nat} (new_e : new = some e) : ¬Handed after e := by
    unfold Handed
    rw [(created e new_e).1, (created e new_e).2.1, requested]
    exact unasked s
  have noDone (e : Nat) : total (doneWith e) after.ops = 0 := by
    have limit := total_mono (doneWith_le_control e) world.ops
    have none := noControl placed idle
    rw [ops]
    omega
  have listed {other e : Nat} (member : e ∈ (after.sessions other).list) :
      new = some e ∧ other = s ∨ e ∈ (world.sessions other).list := by
    by_cases here : other = s
    · rw [here, list] at member
      rcases List.mem_append.mp member with before | last
      · right
        rw [here]
        exact before
      · exact Or.inl ⟨Option.mem_toList.mp last, here⟩
    · rw [elsewhere other here] at member
      exact Or.inr member
  have stays {other e : Nat} (member : e ∈ (world.sessions other).list) :
      e ∈ (after.sessions other).list := by
    by_cases here : other = s
    · rw [here] at member
      rw [here, list]
      exact List.mem_append_left _ member
    · rw [elsewhere other here]
      exact member
  have below {other e : Nat} (member : e ∈ (world.sessions other).list) :
      e < world.nextExchange :=
    (accounts.listed other e member).1
  constructor
  case toNumbered =>
    constructor
    case response =>
      intro e inside
      rw [nextResponse]
      rcases oldOrNew inside with before | new_e
      · rw [exchanges e (old before)]
        exact Nat.lt_succ_of_lt (order.response e before)
      · rw [(created e new_e).2.1]
        exact Nat.lt_succ_self _
    case injective =>
      intro first firstInside second secondInside same
      rcases oldOrNew firstInside with firstOld | firstNew
      · have small := order.response first firstOld
        rw [exchanges first (old firstOld)] at same
        rcases oldOrNew secondInside with secondOld | secondNew
        · rw [exchanges second (old secondOld)] at same
          exact order.injective first firstOld second secondOld same
        · rw [(created second secondNew).2.1] at same
          omega
      · rw [(created first firstNew).2.1] at same
        rcases oldOrNew secondInside with secondOld | secondNew
        · have small := order.response second secondOld
          rw [exchanges second (old secondOld)] at same
          omega
        · rw [isNext firstNew, isNext secondNew]
    case asked =>
      intro other r member
      rw [requested] at member
      rcases order.asked other r member with ⟨e, before, owned, same⟩
      refine ⟨e, grown before, ?_, ?_⟩
      · rw [ownerOld (old before)]
        exact owned
      · rw [exchanges e (old before)]
        exact same
    case reading =>
      intro other arrival same
      by_cases here : other = s
      · rw [here, reading] at same
        obtain rfl := Option.some.inj same
        refine ⟨?_, ?_, ?_, ?_⟩
        · rw [nextResponse]
          exact Nat.lt_succ_self _
        · rw [requested]
          exact unasked
        · intro e inside equal
          rcases oldOrNew inside with before | new_e
          · have small := order.response e before
            rw [exchanges e (old before)] at equal
            dsimp only at equal
            omega
          · exact new_e
        · intro e new_e
          dsimp only at new_e
          refine ⟨?_, ?_, (created e new_e).2.1⟩
          · rw [nextExchange, isNext new_e, new_e]
            exact Nat.lt_succ_self _
          · rw [here]
            exact (created e new_e).1
      · rw [elsewhere other here] at same
        rcases order.reading other arrival same with
          ⟨small, fresh, only, made⟩
        refine ⟨?_, ?_, ?_, ?_⟩
        · rw [nextResponse]
          exact Nat.lt_succ_of_lt small
        · rw [requested]
          exact fresh
        · intro e inside equal
          rcases oldOrNew inside with before | new_e
          · rw [exchanges e (old before)] at equal
            exact only e before equal
          · rw [(created e new_e).2.1] at equal
            omega
        · intro e isMade
          rcases made e isMade with ⟨before, owned, equal⟩
          refine ⟨grown before, ?_, ?_⟩
          · rw [ownerOld (old before)]
            exact owned
          · rw [exchanges e (old before)]
            exact equal
  case toFinished =>
    constructor
    case unfinished =>
      intro e inside unsent
      rw [finished]
      rcases oldOrNew inside with before | new_e
      · rw [exchanges e (old before)] at unsent ⊢
        exact order.unfinished e before unsent
      · rw [(created e new_e).2.1, List.count_eq_zero]
        intro member
        rcases order.finishedKnown _ member with ⟨other, before, same⟩
        have small := order.response other before
        omega
    case finishedOnce =>
      intro e inside
      rw [finished]
      rcases oldOrNew inside with before | new_e
      · rw [exchanges e (old before)]
        exact order.finishedOnce e before
      · have none : world.finished.count world.nextResponse = 0 := by
          rw [List.count_eq_zero]
          intro member
          rcases order.finishedKnown _ member with ⟨other, before, same⟩
          have small := order.response other before
          omega
        rw [(created e new_e).2.1, none]
        exact Nat.zero_le 1
    case finishedOpen =>
      intro e inside marked isOpen
      rcases oldOrNew inside with before | new_e
      · have different := old before
        rw [exchanges e different] at marked ⊢
        rw [ownerOld different, closedSame] at isOpen
        rw [finished]
        exact order.finishedOpen e before marked isOpen
      · rw [(created e new_e).2.2] at marked
        cases marked
    case finishedKnown =>
      intro r member
      rw [finished] at member
      rcases order.finishedKnown r member with ⟨e, before, same⟩
      refine ⟨e, grown before, ?_⟩
      rw [exchanges e (old before)]
      exact same
  case unhanded =>
    intro e inside notHanded
    rcases oldOrNew inside with before | new_e
    · have different := old before
      rcases order.unhanded e before
          (fun was => notHanded ((handedOld different).mpr was)) with
        ⟨isOpen, read, unsent, nothing⟩
      have away : world.owner e ≠ s := by
        intro same
        rw [same, unread] at read
        cases read
      unfold busy at nothing ⊢
      rw [ownerOld different, elsewhere _ away, exchanges e different,
        queueIn, call, queueOut, contexts, ops]
      exact ⟨isOpen, read, unsent, nothing⟩
    · have fresh := accounts.fresh e (Nat.le_of_eq (isNext new_e).symm)
      have nothing := fresh.1
      unfold mentions at nothing
      rw [(created e new_e).1, (created e new_e).2.1, reading, new_e]
      refine ⟨closed, rfl, (created e new_e).2.2, ?_⟩
      unfold busy
      rw [queueIn, call, queueOut, contexts, ops]
      omega
  case working =>
    intro e inside handed unsent
    rcases oldOrNew inside with before | new_e
    · have different := old before
      rw [exchanges e different] at unsent
      unfold workerKept Waiting
      rw [exchanges e different, queueIn, call, queueOut, ops]
      exact order.working e before ((handedOld different).mp handed) unsent
    · exact absurd handed (handedNew new_e)
  case nodup =>
    intro other
    by_cases here : other = s
    · rw [here, list]
      apply (order.nodup s).append
      · rcases new with _ | e
        · exact List.nodup_nil
        · exact List.nodup_singleton e
      · intro e before last
        have new_e := Option.mem_toList.mp last
        exact old (below before) new_e
    · rw [elsewhere other here]
      exact order.nodup other
  case tail =>
    intro other head others same e member handed
    have different : new ≠ some e := fun new_e => handedNew new_e handed
    have was := (handedOld different).mp handed
    by_cases here : other = s
    · rw [here, list] at same
      rcases before : (world.sessions s).list with _ | ⟨first, next⟩
      · rcases new with _ | single
        · rw [before] at same
          cases same
        · rw [before] at same
          cases same
          cases member
      · rw [before] at same
        obtain ⟨-, rfl⟩ := List.cons.inj same
        rcases List.mem_append.mp member with inside | last
        · exact order.tail s first next before e inside was
        · exact different (Option.mem_toList.mp last)
    · rw [elsewhere other here] at same
      exact order.tail other head others same e member was
  case sentListed =>
    intro e marked member
    have different : new ≠ some e := by
      intro new_e
      rw [(created e new_e).2.2] at marked
      cases marked
    rw [ownerOld different] at member
    rw [exchanges e different] at marked
    rcases listed member with ⟨new_e, -⟩ | before
    · exact absurd new_e different
    · rw [ops]
      exact order.sentListed e marked before
  case unsentListed =>
    intro e inside unsent isOpen
    rcases oldOrNew inside with before | new_e
    · have different := old before
      rw [exchanges e different] at unsent
      rw [ownerOld different, closedSame] at isOpen
      rw [ownerOld different]
      exact stays (order.unsentListed e before unsent isOpen)
    · rw [(created e new_e).1, list]
      exact List.mem_append_right _ (Option.mem_toList.mpr new_e)
  case doneHead =>
    intro e some
    rw [noDone] at some
    cases some
  case doneSent =>
    intro e some
    rw [noDone] at some
    cases some
  case cleaningClosed =>
    intro other some
    rw [ops] at some
    rw [closedSame]
    exact order.cleaningClosed other some
  case closedEmpty =>
    intro other ended
    rw [closedSame] at ended
    have away : other ≠ s := by
      intro same
      rw [same, opened] at ended
      cases ended
    rw [elsewhere other away, ops]
    exact order.closedEmpty other ended
  case single =>
    rw [ops]
    exact order.single

/-- `ymo_wsgi_server_header_cb`. -/
theorem order_headerCb (order : Order world) (placed : Placed world)
    (accounts : Accounts world)
    {upgrade : Bool}
    {top : Option (Nat × Option Nat)}
    (idle : world.ops .server = [])
    (below : s < world.nextSession)
    (opened : (world.sessions s).closed = false)
    (unread : (world.sessions s).reading = none)
    (free : ∀ item next, top = some (item, next) → Free world s item) :
    Order (world.ymoWsgiServerHeaderCb s upgrade top) := by
  cases upgrade with
  | true =>
      have kind :
          (none : Option Nat) = none ∨ none = some world.nextExchange :=
        Or.inl rfl
      apply order_arrival order placed accounts idle opened unread kind
      case exchanges =>
        intro e _
        rfl
      case created =>
        intro e new_e
        cases new_e
      case elsewhere =>
        intro other different
        exact if_neg different
      case reading => exact congrArg Session.reading (if_pos rfl)
      case list =>
        exact
          (congrArg Session.list (if_pos rfl)).trans (List.append_nil _).symm
      case closed => exact (congrArg Session.closed (if_pos rfl)).trans opened
      all_goals rfl
  | false =>
      have present := present_opened accounts below opened
      rw [headerCb_eq (creation_eq present free)]
      have kind :
          some world.nextExchange = none ∨
            some world.nextExchange = some world.nextExchange :=
        Or.inr rfl
      apply order_arrival order placed accounts idle opened unread kind
      case exchanges =>
        intro e different
        apply if_neg
        intro same
        exact different (congrArg some same.symm)
      case created =>
        intro e new_e
        cases new_e
        exact
          ⟨congrArg Exchange.session (if_pos rfl),
            congrArg Exchange.response (if_pos rfl),
            congrArg Exchange.sent (if_pos rfl)⟩
      case elsewhere =>
        intro other different
        exact (if_neg different).trans (if_neg different)
      case reading => exact congrArg Session.reading (if_pos rfl)
      case list =>
        have made := created_session world s
        exact
          (congrArg Session.list (if_pos rfl)).trans
            (congrArg Session.list (made _ _))
      case closed =>
        show (if s = s then _ else _ : Session).closed = false
        rw [if_pos rfl]
        show ((created world s _ _).sessions s).closed = false
        rw [created_session]
        exact opened
      all_goals rfl

/-- The exchange at the head of its session's list goes to the worker. -/
theorem order_handedOver
    (order : Order world)
    (accounts : Accounts world)
    {s e : Nat}
    {response : Nat}
    {next : List Nat}
    (read :
      (world.sessions s).reading =
        some { response := response, exchange := some e })
    (first : (world.sessions s).list = e :: next)
    (nextExchange : after.nextExchange = world.nextExchange)
    (nextResponse : after.nextResponse = world.nextResponse)
    (requested : after.requested = world.requested ++ [(s, response)])
    (finished : after.finished = world.finished)
    (ops : after.ops = world.ops)
    (queueIn : after.queueIn = world.queueIn ++ [e])
    (queueOut : after.queueOut = world.queueOut)
    (call : after.call = world.call)
    (contexts : after.contexts = world.contexts)
    (owner : ∀ other, after.owner other = world.owner other)
    (responseSame :
      ∀ other,
        (after.exchanges other).response = (world.exchanges other).response)
    (sent :
      ∀ other, (after.exchanges other).sent = (world.exchanges other).sent)
    (done :
      ∀ other, (after.exchanges other).done = (world.exchanges other).done)
    (list : ∀ other, (after.sessions other).list = (world.sessions other).list)
    (closed :
      ∀ other, (after.sessions other).closed = (world.sessions other).closed)
    (readHere : (after.sessions s).reading = none)
    (readElsewhere :
      ∀ other, other ≠ s →
        (after.sessions other).reading = (world.sessions other).reading) :
    Order after := by
  rcases order.reading s _ read with ⟨small, fresh, only, made⟩
  dsimp only at small fresh only made
  rcases made e rfl with ⟨below, owned, answers⟩
  have isMine {other : Nat} (inside : other < world.nextExchange)
      (same : (world.exchanges other).response = response) :
      other = e :=
    (Option.some.inj (only other inside same)).symm
  have handedHere : Handed after e := by
    unfold Handed
    rw [owner, responseSame, requested, owned, answers]
    exact List.mem_append_right _ List.mem_cons_self
  have handedOther {other : Nat} (inside : other < world.nextExchange)
      (different : other ≠ e) :
      Handed after other ↔ Handed world other := by
    unfold Handed
    rw [owner, responseSame, requested]
    constructor
    · intro member
      rcases List.mem_append.mp member with before | last
      · exact before
      · cases List.mem_singleton.mp last
        exact absurd (isMine inside rfl) different
    · exact List.mem_append_left _
  have queued {other : Nat} (different : other ≠ e) :
      after.queueIn.count other = world.queueIn.count other := by
    rw [queueIn, count_concat, if_neg different, Nat.add_zero]
  constructor
  case toNumbered =>
    constructor
    case response =>
      intro other inside
      rw [responseSame, nextResponse]
      rw [nextExchange] at inside
      exact order.response other inside
    case injective =>
      intro one oneInside two twoInside same
      rw [responseSame, responseSame] at same
      rw [nextExchange] at oneInside twoInside
      exact order.injective one oneInside two twoInside same
    case asked =>
      intro other r member
      rw [requested] at member
      rw [nextExchange]
      rcases List.mem_append.mp member with before | last
      · rcases order.asked other r before with ⟨x, inside, mine, same⟩
        refine ⟨x, inside, (owner x).trans mine, ?_⟩
        rw [responseSame]
        exact same
      · cases List.mem_singleton.mp last
        refine ⟨e, below, (owner e).trans owned, ?_⟩
        rw [responseSame]
        exact answers
    case reading =>
      intro other arrival same
      have away : other ≠ s := by
        intro here
        rw [here, readHere] at same
        cases same
      rw [readElsewhere other away] at same
      rcases order.reading other arrival same with
        ⟨otherSmall, otherFresh, otherOnly, otherMade⟩
      rw [nextResponse, nextExchange]
      refine ⟨otherSmall, ?_, ?_, ?_⟩
      · intro asker member
        rw [requested] at member
        rcases List.mem_append.mp member with before | last
        · exact otherFresh asker before
        · have equal : arrival.response = response :=
            (Prod.mk.inj (List.mem_singleton.mp last)).2
          have mine := otherOnly e below (answers.trans equal.symm)
          have otherOwned := (otherMade e mine).2.1
          exact away (otherOwned.symm.trans owned)
      · intro x inside equal
        rw [responseSame] at equal
        exact otherOnly x inside equal
      · intro x isMade
        rcases otherMade x isMade with ⟨inside, mine, equal⟩
        refine ⟨inside, (owner x).trans mine, ?_⟩
        rw [responseSame]
        exact equal
  case toFinished =>
    exact
      order.toFinished.same nextExchange finished owner responseSame sent
        closed
  case unhanded =>
    intro other inside notHanded
    rw [nextExchange] at inside
    have different : other ≠ e := by
      intro same
      rw [same] at notHanded
      exact notHanded handedHere
    have notBefore : ¬Handed world other := fun before =>
      notHanded ((handedOther inside different).mpr before)
    rcases order.unhanded other inside notBefore with
      ⟨isOpen, reads, unsent, nothing⟩
    have away : world.owner other ≠ s := by
      intro here
      rw [here, read] at reads
      cases reads
      exact different rfl
    have count := queued different
    unfold busy at nothing ⊢
    rw [owner, closed, readElsewhere _ away, responseSame, sent, count,
      call, queueOut, contexts, ops]
    exact ⟨isOpen, reads, unsent, nothing⟩
  case working =>
    intro other inside handed unsent
    rw [nextExchange] at inside
    rw [sent] at unsent
    unfold workerKept Waiting
    rw [call, ops, done, queueOut]
    by_cases here : other = e
    · left
      rw [here, queueIn, List.count_append, List.count_singleton_self]
      omega
    · rw [queued here]
      exact
        order.working other inside ((handedOther inside here).mp handed) unsent
  case nodup =>
    intro other
    rw [list]
    exact order.nodup other
  case tail =>
    intro other head others same x member handed
    rw [list] at same
    have inList : x ∈ (world.sessions other).list := by
      rw [same]
      exact List.mem_cons_of_mem head member
    have listed := accounts.listed other x inList
    by_cases here : x = e
    · have mine : other = s := by
        rw [← listed.2, here]
        exact owned
      have single := order.nodup s
      rw [mine, first] at same
      rw [first] at single
      obtain ⟨-, rfl⟩ := List.cons.inj same
      rw [here] at member
      exact (List.nodup_cons.mp single).1 member
    · exact
        order.tail other head others same x member
          ((handedOther listed.1 here).mp handed)
  case sentListed =>
    intro other marked member
    rw [sent] at marked
    rw [owner, list] at member
    rw [ops]
    exact order.sentListed other marked member
  case unsentListed =>
    intro other inside unsent isOpen
    rw [nextExchange] at inside
    rw [sent] at unsent
    rw [owner, closed] at isOpen
    rw [owner, list]
    exact order.unsentListed other inside unsent isOpen
  case doneHead =>
    intro other some
    rw [ops] at some
    rw [owner, list]
    exact order.doneHead other some
  case doneSent =>
    intro other some
    rw [ops] at some
    rw [sent]
    exact order.doneSent other some
  case cleaningClosed =>
    intro other some
    rw [ops] at some
    rw [closed]
    exact order.cleaningClosed other some
  case closedEmpty =>
    intro other ended
    rw [closed] at ended
    rw [list, ops]
    exact order.closedEmpty other ended
  case single =>
    rw [ops]
    exact order.single

/-- `ymo_wsgi_server_request_cb`, for the exchange at the head of the list. -/
theorem order_requestCb
    (order : Order world)
    (accounts : Accounts world)
    {s e : Nat}
    {response : Nat}
    {next : List Nat}
    (read :
      (world.sessions s).reading =
        some { response := response, exchange := some e })
    (first : (world.sessions s).list = e :: next) :
    Order (world.ymoWsgiServerRequestCb s response) := by
  rcases order.reading s _ read with ⟨-, -, -, made⟩
  have answers : (world.exchanges e).response = response := (made e rfl).2.2
  let prior : World :=
    ({ world.setSession s { world.sessions s with reading := none } with
        requested := world.requested ++ [(s, response)] } :
        World).setExchange e
      { world.exchanges e with response := response }
  have step : world.ymoWsgiServerRequestCb s response =
      { prior.ymoWsgiExchangeIncref e with
        queueIn := (prior.ymoWsgiExchangeIncref e).queueIn ++ [e] } := by
    unfold World.ymoWsgiServerRequestCb
    dsimp only
    split
    · rename_i empty
      rw [first] at empty
      cases empty
    · rename_i head tail same
      rw [first] at same
      cases same
      rfl
  have counted := Same.ymoWsgiExchangeIncref prior e
  have part {Value : Type} (part : Exchange → Value)
      (same :
        part { world.exchanges e with response := response } =
          part (world.exchanges e))
      (other : Nat) :
      part (prior.exchanges other) = part (world.exchanges other) :=
    part_setExchange part same other
  have sessionPart {Value : Type} (part : Session → Value)
      (same :
        part { world.sessions s with reading := none } =
          part (world.sessions s))
      (other : Nat) :
      part (prior.sessions other) = part (world.sessions other) :=
    part_setSession part same other
  rw [step]
  apply order_handedOver order accounts read first
  case nextExchange => exact counted.nextExchange
  case nextResponse => exact counted.nextResponse
  case requested => exact counted.requested
  case finished => exact counted.finished
  case ops => exact counted.ops
  case queueIn => exact congrArg (· ++ [e]) counted.queueIn
  case queueOut => exact counted.queueOut
  case call => exact counted.call
  case contexts => exact counted.contexts
  case owner =>
    intro other
    exact (counted.owner other).trans (part Exchange.session rfl other)
  case responseSame =>
    intro other
    exact
      (counted.response other).trans
        (part Exchange.response answers.symm other)
  case sent =>
    intro other
    exact (counted.sent other).trans (part Exchange.sent rfl other)
  case done =>
    intro other
    exact (counted.done other).trans (part Exchange.done rfl other)
  case list =>
    intro other
    exact (counted.list other).trans (sessionPart Session.list rfl other)
  case closed =>
    intro other
    exact (counted.closed other).trans (sessionPart Session.closed rfl other)
  case readHere =>
    exact (counted.reading s).trans (congrArg Session.reading (if_pos rfl))
  case readElsewhere =>
    intro other different
    exact
      (counted.reading other).trans
        (congrArg Session.reading (if_neg different))

end Actions

/-! ## Performing -/

section Performing

variable
    {world : World}
    {thread : Thread}
    {rest : List Op}

/-- `ymo_wsgi_server_header_cb`, once the pool's head was loaded. -/
theorem order_createExchange (order : Order world) (accounts : Accounts world)
    (placed : Placed world)
    (pooled : Pooled world)
    {top : Option (Nat × Option Nat)}
    (pending : world.ops thread = .createExchange s top :: rest) :
    Order
      ((world.ymoWsgiServerHeaderCb s false top).begin thread
        ([] ++ rest)) := by
  have member := mem_pending pending
  have creating := pooled.creating thread s top member
  have alone := creating.ops
  rw [← creating.server, pending, List.cons.injEq] at alone
  have present := present_opened accounts creating.below creating.opened
  rw [← headerCb_begin present creating.free]
  have left : Order (world.begin thread ([] ++ rest)) :=
    order.goOn (Same.refl world) pending (fun _ _ => rfl)
      (fun _ => Nat.le_refl 0) (fun _ => rfl) (fun _ => rfl)
      (Nat.le_refl 0)
  have counts : Accounts (world.begin thread ([] ++ rest)) :=
    accounts_goOn accounts pending
      (.of_weights fun _ _ => rfl)
  have home : Placed (world.begin thread ([] ++ rest)) := by
    apply placed.begin rfl
    intro op inside
    rw [alone.2] at inside
    cases inside
  have idle : (world.begin thread ([] ++ rest)).ops .server = [] := by
    rw [alone.2, ← creating.server]
    exact setOps_same world.ops thread []
  exact
    order_headerCb left home counts idle creating.below creating.opened
      creating.unread creating.free

/-- Every operation that meets the guard keeps the order of use. -/
theorem order_perform (order : Order world) (accounts : Accounts world)
    (placed : Placed world)
    (pooled : Pooled world)
    {allocated : Bool}
    {op : Op}
    {result : World × List Op}
    (pending : world.ops thread = op :: rest)
    (guarded : OpGuard world allocated op)
    (performed : world.perform allocated op = some result) :
    Order (result.1.begin thread (result.2 ++ rest)) := by
  have member := mem_pending pending
  cases op with
  | release holder e =>
      cases performed
      exact order_release order pending
  | sessionDecref s =>
      cases performed
      exact
        order.goOn (Same.ymoWsgiSessionDecref world s) pending
          (fun _ _ => rfl) (fun _ => Nat.le_refl 0) (fun _ => rfl)
          (fun _ => rfl) (Nat.le_refl 0)
  | exchangeFree e =>
      cases performed
      exact order_exchangeFree order pending
  | returnItem s item =>
      cases performed
      exact
        order.goOn (Same.returnItem world s item) pending
          (fun _ _ => rfl) (fun _ => Nat.le_refl 0) (fun _ => rfl)
          (fun _ => rfl) (Nat.le_refl 0)
  | createExchange s top =>
      cases performed
      exact order_createExchange order accounts placed pooled pending
  | popResponse =>
      cases performed
      exact order_popResponse order accounts pending
  | exchangeDone e =>
      cases performed
      exact order_exchangeDone order accounts pending
  | lockCleanup s =>
      rw [perform_lockCleanup] at performed
      split_ifs at performed
      cases performed
      exact
        order.goOn (Same.setLocked world s true) pending (fun _ _ => rfl)
          (fun _ => Nat.le_refl 0) (fun _ => rfl) (fun _ => rfl)
          (Nat.le_refl 1)
  | releaseList s =>
      cases performed
      exact order_releaseList order accounts pending
  | unlockCleanup s =>
      cases performed
      exact
        order.goOn (Same.setLocked world s false) pending
          (fun _ _ => rfl) (fun _ => Nat.le_refl 0) (fun _ => rfl)
          (fun _ => rfl) (Nat.zero_le 1)
  | holdContext e =>
      cases performed
      apply order.goOn (Same.ymoWsgiExchangeIncref world e) pending
      case idle =>
        intro other none
        have different : e ≠ other := by
          intro same
          have one : refs other (.holdContext e) = 1 := if_pos same
          omega
        show (if e = other then 2 else 0) + 0 = 0
        rw [if_neg different, Nat.add_zero]
      case working =>
        intro other
        exact Nat.le_refl _
      case done =>
        intro other
        rfl
      case cleaned =>
        intro s
        rfl
      case single => exact Nat.le_refl 0
  | checkClosed purpose e =>
      cases performed
      cases purpose with
      | newContext =>
          have present := accounts.ofOp member (if_pos rfl)
          dsimp only
          rw [touch_eq present.2.1 present.2.2]
          have opened : ¬(world.sessions (world.owner e)).closed = true := by
            rw [Bool.not_eq_true]
            exact guarded
          rw [if_neg opened]
          exact
            order.goOn (Same.refl world) pending (fun _ none => none)
              (fun _ => Nat.le_refl _) (fun _ => rfl) (fun _ => rfl)
              (Nat.le_refl 0)
      | startResponse =>
          dsimp only
          split_ifs
          · exact
              order.goOn (Same.touch world e) pending (fun _ _ => rfl)
                (fun _ => Nat.le_refl 0) (fun _ => rfl) (fun _ => rfl)
                (Nat.le_refl 0)
          · exact
              order.goOn (Same.touch world e) pending (fun _ _ => rfl)
                (fun _ => Nat.le_refl 0) (fun _ => rfl) (fun _ => rfl)
                (Nat.le_refl 0)
  | tryLock purpose e =>
      have touched := Same.touchExchange world e
      rw [perform_tryLock] at performed
      cases purpose with
      | newContext =>
          have present := accounts.ofOp member (if_pos rfl)
          have unlocked : ¬(world.sessions (world.owner e)).locked = true := by
            rw [Bool.not_eq_true]
            exact guarded
          rw [touchExchange_eq present.2.1 present.2.2,
            if_neg unlocked] at performed
          cases performed
          exact
            order.goOn (Same.setLocked world _ true) pending
              (fun _ none => none) (fun _ => Nat.le_refl _)
              (fun _ => rfl) (fun _ => rfl) (Nat.le_refl 0)
      | startResponse =>
          split_ifs at performed
          · cases performed
            exact
              order.goOn (touched.trans (Same.touchSession _ _)) pending
                (fun _ _ => rfl) (fun _ => Nat.le_refl 0) (fun _ => rfl)
                (fun _ => rfl) (Nat.le_refl 0)
          · cases performed
            exact
              order.goOn (touched.trans (Same.setLocked _ _ true)) pending
                (fun _ _ => rfl) (fun _ => Nat.le_refl 0) (fun _ => rfl)
                (fun _ => rfl) (Nat.le_refl 0)
  | makeContext e =>
      cases performed
      exact order_makeContext order accounts pending guarded
  | unlockContext e =>
      cases performed
      have touched := Same.touchExchange world e
      exact
        order.goOn (touched.trans (Same.setLocked _ _ false)) pending
          (fun _ none => none) (fun _ => Nat.le_refl _) (fun _ => rfl)
          (fun _ => rfl) (Nat.le_refl 0)
  | issueRequest e =>
      cases performed
      exact order_issueRequest order accounts pending
  | setResponse e =>
      cases performed
      have touched := Same.touchExchange world e
      exact
        order.goOn (touched.trans (Same.setLocked _ _ false)) pending
          (fun _ _ => rfl) (fun _ => Nat.le_refl 0) (fun _ => rfl)
          (fun _ => rfl) (Nat.le_refl 0)
  | bodyAppend e item =>
      cases performed
      exact order_bodyAppend order accounts pending
  | queueOut e item done =>
      rw [perform_queueOut] at performed
      split_ifs at performed
      cases performed
      exact order_queueOut order accounts pending guarded.1

end Performing

/-! ## Steps -/

section Step

variable {world : World}

/-- Every step that meets the guard keeps the order of use. -/
theorem order_step (order : Order world) (accounts : Accounts world)
    (placed : Placed world)
    (pooled : Pooled world)
    (action : Action)
    (guarded : Guard world action) :
    Order (world.step action) := by
  have does := does world action
  generalize world.step action = after at does
  cases does with
  | nothing => exact order
  | sessionInit => exact order_sessionInit order accounts
  | upgrade s possible =>
      apply
        order_headerCb order placed accounts possible.1 possible.2.1
          possible.2.2.1 possible.2.2.2
      intro item next taken
      cases taken
  | headerCb s possible =>
      have present := present_opened accounts possible.2.1 possible.2.2.1
      rw [touchSession_eq present]
      exact
        order_begin order possible.1 (fun _ => rfl) (fun _ => rfl)
          (fun _ => rfl) order.single
  | requestCb s arrival reading =>
      rcases guarded arrival reading with ⟨same, e, created, -⟩
      rcases arrival with ⟨response, exchange⟩
      dsimp only at same created
      rcases list : (world.sessions s).list with _ | ⟨head, next⟩
      · rw [same, list] at created
        cases created
      · rw [same, list] at created reading
        cases created
        exact order_requestCb order accounts reading list
  | sessionCleanup s possible =>
      exact
        order_sessionCleanup order accounts placed possible.1 possible.2.1
          possible.2.2 guarded
  | queueResponses idle => exact order_queueResponses order placed idle
  | popRequest e left queue possible =>
      exact order_popRequest order queue possible.1
  | startResponse thread e possible =>
      exact
        order_begin order possible.1 (fun _ => rfl) (fun _ => rfl)
          (fun _ => rfl) order.single
  | read thread e => exact Order.ofSame order (Same.touchExchange world e)
  | write thread e data possible =>
      exact
        order_begin order possible.1 (fun _ => rfl) (fun _ => rfl)
          (fun _ => rfl) order.single
  | iterates =>
      have split : world.ops .server = [] ++ world.ops .server := rfl
      have kept :
          Order
            ((world.setPhase .iterating).begin .server
              ([] ++ world.ops .server)) :=
        order_setPhase order .iterating split (fun _ => rfl)
          (fun _ => Nat.le_refl 0) (fun _ => rfl) (fun _ => rfl)
          (Nat.le_refl 0)
      have ended := begin_same (world.setPhase .iterating) .server
      rw [List.nil_append] at kept
      rw [← ended]
      exact kept
  | returned => exact order_endCall order guarded
  | yielded item call found waits =>
      exact
        order_begin order waits.1 (fun _ => rfl) (fun _ => rfl)
          (fun _ => rfl) order.single
  | exhausted call found waits =>
      have split : world.ops .worker = [] ++ [] := waits.1
      have kept :
          Order
            ((world.setPhase .closing).begin .worker
              ([.queueOut call.exchange none true] ++ [])) :=
        order_setPhase order .closing split (fun _ => rfl)
          (fun _ => Nat.le_refl 0) (fun _ => rfl) (fun _ => rfl)
          (Nat.le_refl 0)
      exact kept
  | callEnd => exact order_endCall order guarded
  | dropContext thread e possible =>
      exact order_dropContext order possible.1 possible.2.2.1
  | work thread allocated pending performed =>
      exact
        order_perform order accounts placed pooled pending
          (guarded.head pending) performed

theorem order_initial : Order World.initial where
  response e below := by cases below
  injective e below := by cases below
  asked s r member := by cases member
  reading s arrival same := by cases same
  unhanded e below := by cases below
  working e below := by cases below
  nodup _ := List.nodup_nil
  tail s head rest same := by cases same
  sentListed e marked := by cases marked
  unsentListed e below := by cases below
  doneHead _ _ := Or.inl rfl
  doneSent e some := by
    have none : total (doneWith e) World.initial.ops = 0 := rfl
    omega
  cleaningClosed s some := by
    have none : total (cleaning s) World.initial.ops = 0 := rfl
    omega
  closedEmpty _ _ := Or.inl rfl
  single := Nat.zero_le 1
  unfinished e below := by cases below
  finishedOnce e below := by cases below
  finishedOpen e below := by cases below
  finishedKnown r member := by cases member

end Step

end Yimmo.Wsgi.Actions
