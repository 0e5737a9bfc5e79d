import Mathlib.Algebra.Order.BigOperators.Group.Finset
import Mathlib.Data.BitVec
import Yimmo.Lib.GuardedRun
import Yimmo.Wsgi.Worker

/-!
# What the reference counts of WSGI exchanges count

`World.held` is the number of references that a holder has to an exchange: those
it keeps in the data of the world, and those that an operation in progress has yet
to give back.  The invariant `Accounts` says that the counts are the numbers of
holders, that what has no holder has been freed or is about to be, and that
nothing in use has been freed.
-/

namespace Yimmo.Wsgi.References

open Yimmo.Lib.Threads
open Yimmo.Wsgi.Worker

/-! ## Holders -/

/-- The references that an operation gives back, or hands on. -/
def references : Op → List (Holder × Nat)
  | .release holder e => [(holder, e)]
  | .exchangeDone e => [(.queue, e)]
  | .holdContext e => [(.worker, e)]
  | .checkClosed .newContext e => [(.worker, e), (.context, e)]
  | .tryLock .newContext e => [(.worker, e), (.context, e)]
  | .makeContext e => [(.worker, e), (.context, e)]
  | .unlockContext e => [(.worker, e)]
  | .issueRequest e => [(.worker, e)]
  | _ => []

/-- The reference of the worker that runs the request. -/
def owed : Option Call → Nat → Nat
  | none, _ => 0
  | some call, e => if call.exchange = e ∧ call.owes = true then 1 else 0

/-- The references that a holder keeps in the data of the world. -/
def kept (world : World) (e : Nat) : Holder → Nat
  | .server => if (world.exchanges e).sent then 0 else 1
  | .worker => world.queueIn.count e + owed world.call e
  | .queue => world.queueOut.count e
  | .context => world.contexts.count e
  | .sessionList => (world.sessions (world.owner e)).list.count e

/-- The outstanding references of a holder. -/
def held (world : World) (e : Nat) (holder : Holder) : Nat :=
  kept world e holder +
    total (fun op => (references op).count (holder, e)) world.ops

/-- The number of outstanding references to an exchange. -/
def holders (world : World) (e : Nat) : Nat :=
  held world e .server + held world e .worker + held world e .queue +
    held world e .context + held world e .sessionList

/-! ## The claim about a state -/

/-- Nothing is left to do until something arrives. -/
structure Idle (world : World) : Prop where
  ops : ∀ thread, world.ops thread = []
  queueIn : world.queueIn = []
  queueOut : world.queueOut = []
  call : world.call = none

/-- The exchange belongs to a request of an open session that is being read. -/
def BeingRead (world : World) (e : Nat) : Prop :=
  (world.sessions (world.owner e)).closed = false ∧
    ∃ response,
      (world.sessions (world.owner e)).reading =
        some { response := response, exchange := some e }

/--
References are balanced: each count is the number of holders, an exchange is
freed once and after its last holder let go, nothing is touched after it was
freed, and a response is finished once.  What has to happen some time has
happened when nothing is left to do.
-/
structure Balanced (world : World) : Prop where
  counted :
    ∀ e, e < world.nextExchange →
      (world.exchanges e).refcnt.toInt = holders world e
  freedLast :
    ∀ e, e < world.nextExchange →
      (world.exchanges e).frees ≤ 1 ∧
        (0 < (world.exchanges e).frees → holders world e = 0)
  untouched : world.faults = []
  finishedOnce : ∀ response, world.finished.count response ≤ 1
  finished :
    Idle world →
      ∀ s response,
        (s, response) ∈ world.requested →
          (world.sessions s).closed = false →
            world.finished.count response = 1
  freed :
    Idle world →
      world.contexts = [] →
        ∀ e, e < world.nextExchange →
          (world.exchanges e).frees = 1 ∨ BeingRead world e

/-! ## What a step does -/

/-- What an action does, and what makes it possible. -/
inductive Does (world : World) : Action → World → Prop
  | nothing (action : Action) : Does world action world
  | sessionInit : Does world .sessionInit world.ymoWsgiSessionInit
  | upgrade (s : Nat)
      (possible :
        world.ops .server = [] ∧ s < world.nextSession ∧
          (world.sessions s).closed = false ∧
            (world.sessions s).reading = none) :
      Does world (.headerCb s true) (world.ymoWsgiServerHeaderCb s true none)
  | headerCb (s : Nat)
      (possible :
        world.ops .server = [] ∧ s < world.nextSession ∧
          (world.sessions s).closed = false ∧
            (world.sessions s).reading = none) :
      Does world (.headerCb s false)
        ((world.touchSession s).begin .server
          [.createExchange s (world.sessions s).pool.top])
  | requestCb (s : Nat) (arrival : Arrival)
      (reading : (world.sessions s).reading = some arrival)
      (possible : world.ops .server = [] ∧ (world.sessions s).closed = false) :
      Does world (.requestCb s)
        (world.ymoWsgiServerRequestCb s arrival.response)
  | sessionCleanup (s : Nat)
      (possible :
        world.ops .server = [] ∧ s < world.nextSession ∧
          (world.sessions s).closed = false) :
      Does world (.sessionCleanup s)
        (((world.touchSession s).setSession s
          { world.sessions s with closed := true }).begin .server
            [.lockCleanup s])
  | queueResponses (idle : world.ops .server = []) :
      Does world .queueResponses
        ({ world with lockOut := true }.begin .server [.popResponse])
  | popRequest (e : Nat) (left : List Nat)
      (queue : world.queueIn = e :: left)
      (possible : world.ops .worker = [] ∧ world.call = none) :
      Does world .popRequest
        ({ world with queueIn := left }.begin .worker [.holdContext e])
  | startResponse (thread : Thread) (e : Nat)
      (possible : world.MayCall thread e) :
      Does world (.startResponse thread e)
        (world.begin thread [.checkClosed .startResponse e])
  | read (thread : Thread) (e : Nat) (possible : world.MayCall thread e) :
      Does world (.read thread e) (world.touchExchange e)
  | write (thread : Thread) (e : Nat) (data : Bytes)
      (possible : world.MayCall thread e) :
      Does world (.write thread e data)
        (world.begin thread [.queueOut e (some data) true])
  | iterates (waits : world.Waits .calling) :
      Does world (.returned true) (world.setPhase .iterating)
  | returned (waits : world.Waits .calling) :
      Does world (.returned false) { world with call := none }
  | yielded (item : Bytes) (call : Call)
      (found : world.call = some call)
      (waits : world.Waits .iterating) :
      Does world (.yielded item)
        (world.begin .worker [.bodyAppend call.exchange item])
  | exhausted (call : Call)
      (found : world.call = some call)
      (waits : world.Waits .iterating) :
      Does world .exhausted
        ((world.setPhase .closing).begin .worker
          [.queueOut call.exchange none true])
  | callEnd (waits : world.Waits .closing) :
      Does world .callEnd { world with call := none }
  | dropContext (thread : Thread) (e : Nat)
      (possible :
        world.ops thread = [] ∧ thread ≠ .server ∧
          e ∈ world.contexts ∧ ¬world.InUse e) :
      Does world (.dropContext thread e)
        ({ world with contexts := world.contexts.erase e }.begin thread
          [.release .context e])
  | work (thread : Thread) (allocated : Bool)
      {op : Op}
      {rest new : List Op}
      {after : World}
      (pending : world.ops thread = op :: rest)
      (performed : world.perform allocated op = some (after, new)) :
      Does world (.work thread allocated) (after.begin thread (new ++ rest))

theorem does (world : World) (action : Action) :
    Does world action (world.step action) := by
  cases action with
  | headerCb s upgrade =>
      cases upgrade
      all_goals
        dsimp only [World.step]
        split
        · constructor
          assumption
        · exact .nothing _
  | returned iterator =>
      cases iterator
      all_goals
        dsimp only [World.step]
        split
        · constructor
          assumption
        · exact .nothing _
  | _ =>
      dsimp only [World.step]
      repeat' split
      all_goals first
        | exact .nothing _
        | constructor <;> assumption

/-! ## The condition on the steps -/

/-- The count can be incremented. -/
def BelowLimit (refcnt : BitVec 16) : Prop :=
  refcnt.toNat < 2 ^ 15 - 1

instance (refcnt : BitVec 16) : Decidable (BelowLimit refcnt) :=
  inferInstanceAs (Decidable (_ < _))

/-- The operation is about to put an item back into the pool of the session. -/
def ReturnsTo (world : World) (s : Nat) : Op → Prop
  | .exchangeFree e => (world.exchanges e).noPool = false ∧ world.owner e = s
  | .returnItem other _ => other = s
  | _ => False

instance (world : World) (s : Nat) :
    ∀ op, Decidable (ReturnsTo world s op)
  | .exchangeFree _ => inferInstanceAs (Decidable (_ ∧ _))
  | .returnItem _ _ => inferInstanceAs (Decidable (_ = _))
  | .release _ _ | .sessionDecref _ | .createExchange _ _ | .popResponse
  | .exchangeDone _ | .lockCleanup _ | .releaseList _ | .unlockCleanup _
  | .holdContext _
  | .checkClosed _ _ | .tryLock _ _ | .makeContext _ | .unlockContext _
  | .issueRequest _ | .setResponse _ | .bodyAppend _ _
  | .queueOut _ _ _ => .isFalse id

/-- The operation is the store of `pool.head` that ends `exchange_free`. -/
def endsReturn (s : Nat) : Op → Bool
  | .returnItem other _ => other == s
  | _ => false

/-- No thread is between the load and the store of `pool.head` in `exchange_free`. -/
def NoReturn (world : World) (s : Nat) : Prop :=
  ∀ thread, ∀ op ∈ world.ops thread, endsReturn s op = false

instance (world : World) (s : Nat) : Decidable (NoReturn world s) :=
  inferInstanceAs (Decidable (∀ thread, ∀ op ∈ world.ops thread, _))

/-- The operation does what the code expects of it. -/
def OpGuard (world : World) (allocated : Bool) : Op → Prop
  | .createExchange s top =>
      BelowLimit (world.sessions s).refcnt ∧ (top ≠ none → NoReturn world s)
  | .holdContext e => BelowLimit (world.exchanges e).refcnt
  | .checkClosed .newContext e =>
      (world.sessions (world.owner e)).closed = false
  | .tryLock .newContext e => (world.sessions (world.owner e)).locked = false
  | .makeContext e => allocated = true ∧ (world.exchanges e).done = false
  | .queueOut e _ _ =>
      owed world.call e = 1 ∧ BelowLimit (world.exchanges e).refcnt
  | .sessionDecref s =>
      (world.sessions s).refcnt = 1 →
        ∀ thread, ∀ op ∈ world.ops thread, ¬ReturnsTo world s op
  | _ => True

/-- The call that ends has had its reference given back. -/
def CallSettled (world : World) : Prop :=
  ∀ call ∈ world.call, call.owes = false

instance (world : World) : Decidable (CallSettled world) :=
  inferInstanceAs (Decidable (∀ call ∈ world.call, _))

/--
The condition on a step.  The counts stay below their limit; a request callback
comes for the exchange at the head of its session's list; a session does not end
in the middle of a request; a context is made for each request; body data is
appended while the worker has its reference, which has been given back when the
call ends; the last reference to a session is not given back while one of the
session's own pool items still is to be; and an item is not taken from a pool, that
is `head` not stored, while another thread that puts one back has loaded `head` and
not yet stored it.
-/
def Guard (world : World) : Action → Prop
  | .requestCb s =>
      ∀ arrival ∈ (world.sessions s).reading,
        arrival.exchange = (world.sessions s).list.head? ∧
          ∃ e ∈ arrival.exchange, BelowLimit (world.exchanges e).refcnt
  | .sessionCleanup s =>
      ∀ arrival ∈ (world.sessions s).reading, arrival.exchange = none
  | .returned false => CallSettled world
  | .callEnd => CallSettled world
  | .work thread allocated =>
      ∀ op ∈ (world.ops thread).head?, OpGuard world allocated op
  | _ => True

/-- What a thread goes on with is guarded. -/
theorem Guard.head {world : World} {thread : Thread} {allocated : Bool}
    {op : Op}
    {rest : List Op}
    (guarded : Guard world (.work thread allocated))
    (pending : world.ops thread = op :: rest) :
    OpGuard world allocated op := by
  apply guarded op
  rw [pending]
  rfl

instance (world : World) (allocated : Bool) :
    ∀ op, Decidable (OpGuard world allocated op)
  | .createExchange _ _ => inferInstanceAs (Decidable (_ ∧ _))
  | .holdContext _ => inferInstanceAs (Decidable (BelowLimit _))
  | .checkClosed .newContext _ => inferInstanceAs (Decidable (_ = _))
  | .tryLock .newContext _ => inferInstanceAs (Decidable (_ = _))
  | .makeContext _ => inferInstanceAs (Decidable (_ ∧ _))
  | .queueOut _ _ _ => inferInstanceAs (Decidable (_ ∧ _))
  | .sessionDecref s =>
      inferInstanceAs
        (Decidable
          ((world.sessions s).refcnt = 1 →
            ∀ thread, ∀ op ∈ world.ops thread, ¬ReturnsTo world s op))
  | .checkClosed .startResponse _ | .tryLock .startResponse _
  | .release _ _ | .exchangeFree _ | .returnItem _ _ | .popResponse
  | .exchangeDone _ | .lockCleanup _ | .releaseList _ | .unlockCleanup _
  | .unlockContext _ | .issueRequest _ | .setResponse _
  | .bodyAppend _ _ => .isTrue trivial

instance (world : World) : ∀ action, Decidable (Guard world action)
  | .requestCb s =>
      inferInstanceAs
        (Decidable
          (∀ arrival ∈ (world.sessions s).reading,
            arrival.exchange = (world.sessions s).list.head? ∧
              ∃ e ∈ arrival.exchange, BelowLimit (world.exchanges e).refcnt))
  | .sessionCleanup s =>
      inferInstanceAs
        (Decidable
          (∀ arrival ∈ (world.sessions s).reading, arrival.exchange = none))
  | .returned false => inferInstanceAs (Decidable (CallSettled world))
  | .callEnd => inferInstanceAs (Decidable (CallSettled world))
  | .work thread allocated =>
      inferInstanceAs
        (Decidable
          (∀ op ∈ (world.ops thread).head?, OpGuard world allocated op))
  | .headerCb _ _ | .sessionInit | .queueResponses | .popRequest
  | .startResponse _ _ | .read _ _ | .write _ _ _ | .returned true
  | .yielded _ | .exhausted | .dropContext _ _ => .isTrue trivial

/-! ## Counting -/

theorem count_concat (items : List Nat) (e other : Nat) :
    (items ++ [e]).count other =
      items.count other + if other = e then 1 else 0 := by
  rw [List.count_append, List.count_singleton]
  simp only [beq_iff_eq, @eq_comm _ e]

/-- The references of all holders that an operation gives back or hands on. -/
def refs (e : Nat) : Op → Nat
  | .release _ other => if other = e then 1 else 0
  | .exchangeDone other => if other = e then 1 else 0
  | .holdContext other => if other = e then 1 else 0
  | .checkClosed .newContext other => if other = e then 2 else 0
  | .tryLock .newContext other => if other = e then 2 else 0
  | .makeContext other => if other = e then 2 else 0
  | .unlockContext other => if other = e then 1 else 0
  | .issueRequest other => if other = e then 1 else 0
  | _ => 0

theorem refs_eq (e : Nat) (op : Op) :
    refs e op =
      (references op).count (.server, e) +
        (references op).count (.worker, e) +
          (references op).count (.queue, e) +
            (references op).count (.context, e) +
              (references op).count (.sessionList, e) := by
  have single (holder : Holder) (other : Nat) :
      (if other = e then 1 else 0) =
        ([(holder, other)].count (Holder.server, e) +
          [(holder, other)].count (Holder.worker, e) +
            [(holder, other)].count (Holder.queue, e) +
              [(holder, other)].count (Holder.context, e) +
                [(holder, other)].count (Holder.sessionList, e)) := by
    cases holder <;> by_cases same : other = e <;> simp [same]
  have double (other : Nat) :
      (if other = e then 2 else 0) =
        ([(Holder.worker, other), (Holder.context, other)].count
            (Holder.server, e) +
          [(Holder.worker, other), (Holder.context, other)].count
            (Holder.worker, e) +
            [(Holder.worker, other), (Holder.context, other)].count
              (Holder.queue, e) +
              [(Holder.worker, other), (Holder.context, other)].count
                (Holder.context, e) +
                [(Holder.worker, other), (Holder.context, other)].count
                  (Holder.sessionList, e)) := by
    by_cases same : other = e <;> simp [same]
  cases op with
  | release holder other => exact single holder other
  | exchangeDone other => exact single .queue other
  | holdContext other => exact single .worker other
  | checkClosed purpose other =>
      cases purpose with
      | newContext => exact double other
      | startResponse => rfl
  | tryLock purpose other =>
      cases purpose with
      | newContext => exact double other
      | startResponse => rfl
  | makeContext other => exact double other
  | unlockContext other => exact single .worker other
  | issueRequest other => exact single .worker other
  | _ => rfl

/-- The references that are kept, the server's aside. -/
def mentions (world : World) (e : Nat) : Nat :=
  world.queueIn.count e + owed world.call e + world.queueOut.count e +
    world.contexts.count e + (world.sessions (world.owner e)).list.count e

theorem holders_eq (world : World) (e : Nat) :
    holders world e =
      (if (world.exchanges e).sent then 0 else 1) + mentions world e +
        total (refs e) world.ops := by
  have split :
      total (refs e) world.ops =
        total (fun op => (references op).count (.server, e)) world.ops +
          total (fun op => (references op).count (.worker, e)) world.ops +
            total (fun op => (references op).count (.queue, e)) world.ops +
              total (fun op => (references op).count (.context, e))
                world.ops +
                total (fun op => (references op).count (.sessionList, e))
                  world.ops := by
    rw [← total_add, ← total_add, ← total_add, ← total_add]
    congr 1
    funext op
    exact refs_eq e op
  rw [split]
  simp only [holders, held, kept, mentions]
  omega

end Yimmo.Wsgi.References
