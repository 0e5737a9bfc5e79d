import Mathlib.Data.List.FinRange
import Yimmo.Lib.GuardedRun
import Yimmo.Lib.Monitors

/-!
# Requests are handed over to the worker threads

A worker process of the WSGI server has an event loop and a number of threads that
run the application.  The event loop hands an exchange over through `queue_in` of
the thread that its session was assigned, under `lock_in`; the thread sleeps on
`ready_in` while there is nothing to do.  This module models that hand-over, from
`ymo_wsgi_server_request_cb` to the call of the application, and the request to stop
that `ymo_wsgi_stop_workers` makes.  A worker calls the application only if
`ymo_wsgi_ctx_update_environ` makes a context for the exchange, which it does not for
one whose session was closed.

A step is one call that concerns the lock, or one access to `queue_in` or `running`;
the threads take their steps in any order, and a thread may wake without a signal.
A session is its `id`; the exchange of a callback is the head of the session's list,
and what the application does with it is one step.  A context may also be refused
because the session's lock is held, the exchange is done or there is no memory, which
`Worker` models and is left open here.
-/

namespace Yimmo.Wsgi.HandOver

open Yimmo.Lib.GuardedRun
open Yimmo.Lib.Monitors

/-! ## The threads -/

/-- `ymo_wsgi_exchange_t`. -/
structure Exchange where
  session : Nat
  number : Nat
deriving DecidableEq, Repr

/-- Who uses the lock of a worker: the event loop and the worker itself. -/
inductive Party where
  | server
  | worker
deriving DecidableEq, Repr

/-- Where a thread is in `ymo_wsgi_worker_main`. -/
inductive Point where
  /-- Before `pthread_mutex_lock`. -/
  | lock
  /-- At the test of the size of the queue. -/
  | look
  /-- At the test of `running`. -/
  | askRunning
  /-- At the call of `pthread_cond_wait`. -/
  | wait
  /-- In that call. -/
  | waiting
  /-- At the call of `ymo_queue_popfront`. -/
  | pop
  /-- At `pthread_mutex_unlock`, with what was taken. -/
  | unlock (exchange : Option Exchange)
  /-- At the call of `ymo_wsgi_ctx_update_environ`. -/
  | context (exchange : Exchange)
  /-- At the call of the application. -/
  | issue (exchange : Exchange)
  /-- At `pthread_mutex_unlock` before the return. -/
  | leave
  | gone
deriving DecidableEq, Repr

/-- `ymo_wsgi_worker_t`, as far as the hand-over goes, and what it has done. -/
structure Worker where
  /-- `lock_in` and `ready_in`. -/
  lockIn : Monitor Party
  running : Bool
  queueIn : List Exchange
  point : Point
  /-- The exchanges that were dealt with, and whether the application was called. -/
  handled : List (Exchange × Bool)

/-- A worker that has just been started. -/
def ymoWsgiWorkerStart : Worker where
  lockIn := Monitor.free
  running := true
  queueIn := []
  point := .lock
  handled := []

namespace Worker

/-- The lock is taken, if that is possible. -/
def enter (worker : Worker) : Worker :=
  match worker.lockIn.lock .worker with
  | none => worker
  | some locked => { worker with lockIn := locked, point := .look }

/-- One step of `ymo_wsgi_worker_main`, with the exchanges that are granted a
context. -/
def ymoWsgiWorkerMain (worker : Worker) (grants : Exchange → Bool) : Worker :=
  match worker.point with
  | .lock => worker.enter
  | .look =>
      if worker.queueIn = [] then { worker with point := .askRunning }
      else { worker with point := .pop }
  | .askRunning =>
      if worker.running then { worker with point := .wait }
      else { worker with point := .leave }
  | .wait =>
      { worker with
        lockIn := worker.lockIn.wait .worker
        point := .waiting }
  | .waiting => worker.enter
  | .pop =>
      { worker with
        queueIn := worker.queueIn.tail
        point := .unlock worker.queueIn.head? }
  | .unlock exchange =>
      { worker with
        lockIn := worker.lockIn.unlock
        point := exchange.elim .lock .context }
  | .context exchange =>
      if grants exchange then { worker with point := .issue exchange }
      else
        { worker with
          handled := worker.handled ++ [(exchange, false)]
          point := .lock }
  | .issue exchange =>
      { worker with
        handled := worker.handled ++ [(exchange, true)]
        point := .lock }
  | .leave => { worker with lockIn := worker.lockIn.unlock, point := .gone }
  | .gone => worker

end Worker

/-! ## The event loop -/

/-- What the event loop still has to do with one worker. -/
inductive Act where
  /-- `ymo_wsgi_worker_lock_in`. -/
  | lockIn
  /-- `ymo_wsgi_worker_add_exchange`. -/
  | addExchange (exchange : Exchange)
  /-- `ymo_wsgi_worker_notify`. -/
  | notify
  /-- `ymo_wsgi_worker_unlock_in`. -/
  | unlockIn
  /-- `running = 0` in `ymo_wsgi_stop_workers`. -/
  | clearRunning
  /-- `pthread_mutex_trylock` there. -/
  | trylockIn
deriving DecidableEq, Repr

/-- The effect of an act on its worker, and what has to be done next.  There is none
while the lock is not to be had. -/
def Worker.perform (worker : Worker) : Act → Option (Worker × List Act)
  | .lockIn =>
      (worker.lockIn.lock .server).map fun locked =>
        ({ worker with lockIn := locked }, [])
  | .addExchange exchange =>
      some ({ worker with queueIn := worker.queueIn ++ [exchange] }, [])
  | .notify => some ({ worker with lockIn := worker.lockIn.wake .worker }, [])
  | .unlockIn => some ({ worker with lockIn := worker.lockIn.unlock }, [])
  | .clearRunning => some ({ worker with running := false }, [])
  | .trylockIn =>
      match worker.lockIn.lock .server with
      | none => some (worker, [])
      | some locked =>
          some ({ worker with lockIn := locked }, [.notify, .unlockIn])

/-- The number of threads; `ymo_wsgi_proc_assign_worker` divides by it. -/
structure Settings where
  noWsgiThreads : Nat
  positive : 0 < noWsgiThreads

/-- The threads of a worker process. -/
structure Process (settings : Settings) where
  /-- `w_threads`. -/
  workers : Fin settings.noWsgiThreads → Worker
  /-- What the event loop is in the middle of. -/
  pending : List (Fin settings.noWsgiThreads × Act)
  /-- The exchanges of the request callbacks that have begun. -/
  requested : List Exchange
  /-- The sessions that were closed. -/
  closed : List Nat

/-- What may happen next. -/
inductive Action (settings : Settings) where
  /-- `ymo_wsgi_server_header_cb` is called for a session. -/
  | headerCb (session : Nat)
  /-- `ymo_wsgi_server_request_cb` is called. -/
  | requestCb (exchange : Exchange)
  /-- `ymo_wsgi_session_cleanup` is called for a session. -/
  | sessionCleanup (session : Nat)
  /-- `ymo_wsgi_stop_workers` is called. -/
  | stopWorkers
  /-- The event loop goes on. -/
  | server
  /-- A worker goes on; nothing but a closed session stands against a context, or
  something else does. -/
  | worker (thread : Fin settings.noWsgiThreads) (granted : Bool)
  /-- A worker wakes without a signal. -/
  | spurious (thread : Fin settings.noWsgiThreads)
deriving DecidableEq, Repr

namespace Process

variable {settings : Settings}

/-- `ymo_wsgi_init_workers`. -/
def ymoWsgiInitWorkers : Process settings where
  workers := fun _ => ymoWsgiWorkerStart
  pending := []
  requested := []
  closed := []

/-- `ymo_wsgi_proc_assign_worker`. -/
def ymoWsgiProcAssignWorker (settings : Settings) (session : Nat) :
    Fin settings.noWsgiThreads :=
  ⟨session % settings.noWsgiThreads, Nat.mod_lt _ settings.positive⟩

def setWorker (process : Process settings)
    (thread : Fin settings.noWsgiThreads)
    (worker : Worker) :
    Process settings :=
  { process with
    workers := fun other =>
      if other = thread then worker else process.workers other }

/-- `ymo_wsgi_server_header_cb`: the lock is held while the session's exchange is
created. -/
def ymoWsgiServerHeaderCb (process : Process settings) (session : Nat) :
    Process settings :=
  let thread := ymoWsgiProcAssignWorker settings session
  { process with pending := [(thread, .lockIn), (thread, .unlockIn)] }

/-- `ymo_wsgi_server_request_cb`. -/
def ymoWsgiServerRequestCb (process : Process settings) (exchange : Exchange) :
    Process settings :=
  let thread := ymoWsgiProcAssignWorker settings exchange.session
  { process with
    pending :=
      [(thread, .lockIn), (thread, .addExchange exchange),
        (thread, .notify), (thread, .unlockIn)]
    requested := process.requested ++ [exchange] }

/-- `ymo_wsgi_stop_workers`. -/
def ymoWsgiStopWorkers (process : Process settings) : Process settings :=
  { process with
    pending :=
      (List.finRange settings.noWsgiThreads).flatMap fun thread =>
        [(thread, .clearRunning), (thread, .trylockIn)] }

/-- The event loop goes on with what it is in the middle of. -/
def goOn (process : Process settings) : Process settings :=
  match process.pending with
  | [] => process
  | (thread, act) :: rest =>
      match (process.workers thread).perform act with
      | none => process
      | some (worker, new) =>
          { process.setWorker thread worker with
            pending := new.map (Prod.mk thread) ++ rest }

/-- The effect of an action.  One that is not possible has none. -/
def step (process : Process settings) : Action settings → Process settings
  | .headerCb session =>
      if process.pending = [] then process.ymoWsgiServerHeaderCb session
      else process
  | .requestCb exchange =>
      if process.pending = [] then process.ymoWsgiServerRequestCb exchange
      else process
  | .sessionCleanup session =>
      if process.pending = [] then
        { process with closed := session :: process.closed }
      else process
  | .stopWorkers =>
      if process.pending = [] then process.ymoWsgiStopWorkers else process
  | .server => process.goOn
  | .worker thread granted =>
      process.setWorker thread
        ((process.workers thread).ymoWsgiWorkerMain fun exchange =>
          granted && decide (exchange.session ∉ process.closed))
  | .spurious thread =>
      let worker := process.workers thread
      process.setWorker thread
        { worker with lockIn := worker.lockIn.wake .worker }

end Process

/-! ## One worker and what the event loop has to do with it -/

/-- The worker holds its lock. -/
def Point.inside : Point → Bool
  | .look | .askRunning | .wait | .pop | .unlock _ | .leave => true
  | _ => false

/-- The worker holds its lock and has seen that the queue is empty. -/
def Point.looked : Point → Bool
  | .askRunning | .wait | .leave => true
  | _ => false

theorem Point.inside_of_looked {point : Point} (looked : point.looked = true) :
    point.inside = true := by
  cases point with
  | askRunning | wait | leave => rfl
  | lock | look | waiting | pop | unlock | context | issue | gone =>
      cases looked

/-- The worker has seen that it shall stop. -/
def Point.stopping : Point → Bool
  | .leave | .gone => true
  | _ => false

/-- What the worker has taken from the queue and not yet dealt with. -/
def Point.inHand : Point → List Exchange
  | .unlock exchange => exchange.toList
  | .context exchange => [exchange]
  | .issue exchange => [exchange]
  | _ => []

/-- The event loop holds the lock. -/
def Act.inside : Act → Bool
  | .addExchange _ | .notify | .unlockIn => true
  | _ => false

/-- What an act puts into the queue. -/
def Act.adds : Act → List Exchange
  | .addExchange exchange => [exchange]
  | _ => []

/-- What the event loop can be in the middle of with one worker. -/
inductive Plan : List Act → Prop where
  | idle : Plan []
  | header : Plan [.lockIn, .unlockIn]
  | request (exchange : Exchange) :
      Plan [.lockIn, .addExchange exchange, .notify, .unlockIn]
  | add (exchange : Exchange) :
      Plan [.addExchange exchange, .notify, .unlockIn]
  | notify : Plan [.notify, .unlockIn]
  | unlock : Plan [.unlockIn]
  | stop : Plan [.clearRunning, .trylockIn]
  | trylock : Plan [.trylockIn]

/-- A worker and what the event loop has to do with it fit together. -/
structure Sound (worker : Worker) (acts : List Act) : Prop where
  plan : Plan acts
  serverHolds :
    worker.lockIn.holder = some .server ↔ acts.head?.any Act.inside = true
  workerHolds :
    worker.lockIn.holder = some .worker ↔ worker.point.inside = true
  asleep : .worker ∈ worker.lockIn.sleepers → worker.point = .waiting
  awake : .server ∉ worker.lockIn.sleepers
  /-- The worker does not sleep over an exchange for longer than the event loop takes
  to wake it. -/
  attended :
    .worker ∈ worker.lockIn.sleepers →
      worker.queueIn ≠ [] →
        acts = [.notify, .unlockIn]
  found : worker.point = .pop → worker.queueIn ≠ []
  looked : worker.point.looked = true → worker.queueIn = []
  stopped : worker.point.stopping = true → worker.running = false

/-- What was put into the queue and will be, in order, from the first on. -/
def Worker.all (worker : Worker) (acts : List Act) : List Exchange :=
  worker.handled.map Prod.fst ++
    (worker.point.inHand ++ (worker.queueIn ++ acts.flatMap Act.adds))

theorem sound_start : Sound ymoWsgiWorkerStart [] where
  plan := .idle
  serverHolds := by decide
  workerHolds := by decide
  asleep := by decide
  awake := List.not_mem_nil
  attended := by decide
  found := by decide
  looked := by decide
  stopped := by decide

section Worker

variable
    {worker moved : Worker}
    {acts : List Act}

/-! ### The worker takes a step -/

/-- Who takes the lock found it free. -/
theorem Sound.enter (sound : Sound worker acts) : Sound worker.enter acts := by
  unfold Worker.enter
  cases taken : worker.lockIn.lock .worker with
  | none => exact sound
  | some locked =>
      rcases Monitor.lock_eq_some taken with
        ⟨unheld, awake, holder, sleepers⟩
      have unplanned := sound.serverHolds
      rw [unheld] at unplanned
      constructor
      case plan => exact sound.plan
      case serverHolds =>
        rw [holder, ← unplanned]
        decide
      case workerHolds => exact ⟨fun _ => rfl, fun _ => holder⟩
      case asleep =>
        intro inside
        rw [sleepers] at inside
        exact absurd inside awake
      case awake =>
        rw [sleepers]
        exact sound.awake
      case attended =>
        intro inside
        rw [sleepers] at inside
        exact absurd inside awake
      case found => exact Point.noConfusion
      case looked => exact Bool.noConfusion
      case stopped => exact Bool.noConfusion

/-- The worker moves on without a call that concerns the lock. -/
theorem Sound.move (sound : Sound worker acts)
    (awake : worker.point ≠ .waiting)
    (sameLock : moved.lockIn = worker.lockIn)
    (sameSide : moved.point.inside = worker.point.inside)
    (found : moved.point = .pop → moved.queueIn ≠ [])
    (looked : moved.point.looked = true → moved.queueIn = [])
    (stopped : moved.point.stopping = true → moved.running = false) :
    Sound moved acts where
  plan := sound.plan
  serverHolds := by
    rw [sameLock]
    exact sound.serverHolds
  workerHolds := by
    rw [sameLock, sameSide]
    exact sound.workerHolds
  asleep inside := by
    rw [sameLock] at inside
    exact absurd (sound.asleep inside) awake
  awake := by
    rw [sameLock]
    exact sound.awake
  attended inside := by
    rw [sameLock] at inside
    exact absurd (sound.asleep inside) awake
  found := found
  looked := looked
  stopped := stopped

/-- The worker gives the lock back. -/
theorem Sound.release (sound : Sound worker acts)
    (inside : worker.point.inside = true)
    (unlocked : moved.lockIn = worker.lockIn.unlock)
    (outside : moved.point.inside = false)
    (stopped : moved.point.stopping = true → moved.running = false) :
    Sound moved acts := by
  have holds := sound.workerHolds.mpr inside
  have unplanned := sound.serverHolds
  rw [holds] at unplanned
  have never : Party.worker ∉ worker.lockIn.sleepers :=
    worker.lockIn.apart _ holds
  constructor
  case plan => exact sound.plan
  case serverHolds =>
    rw [unlocked, Monitor.holder_unlock, ← unplanned]
    decide
  case workerHolds =>
    rw [unlocked, Monitor.holder_unlock, outside]
    decide
  case asleep =>
    intro asleep
    rw [unlocked] at asleep
    exact absurd asleep never
  case awake =>
    rw [unlocked]
    exact sound.awake
  case attended =>
    intro asleep
    rw [unlocked] at asleep
    exact absurd asleep never
  case found =>
    intro pop
    rw [pop] at outside
    cases outside
  case looked =>
    intro looked
    rw [Point.inside_of_looked looked] at outside
    cases outside
  case stopped => exact stopped

/-- The worker falls asleep over an empty queue. -/
theorem Sound.fallAsleep (sound : Sound worker acts)
    (waits : worker.point = .wait) :
    Sound
      { worker with
        lockIn := worker.lockIn.wait .worker
        point := .waiting }
      acts := by
  have holds : worker.lockIn.holder = some .worker := by
    rw [sound.workerHolds, waits]
    rfl
  have unplanned := sound.serverHolds
  rw [holds] at unplanned
  constructor
  case plan => exact sound.plan
  case serverHolds =>
    rw [Monitor.holder_wait holds, ← unplanned]
    decide
  case workerHolds =>
    rw [Monitor.holder_wait holds]
    constructor
    · intro same
      cases same
    · exact Bool.noConfusion
  case asleep => exact fun _ => rfl
  case awake =>
    rw [Monitor.mem_sleepers_wait holds]
    rintro (before | same)
    · exact sound.awake before
    · cases same
  case attended =>
    intro _ filled
    have empty := sound.looked (by rw [waits]; rfl)
    exact absurd empty filled
  case found => exact Point.noConfusion
  case looked => exact Bool.noConfusion
  case stopped => exact Bool.noConfusion

theorem Sound.ymoWsgiWorkerMain (sound : Sound worker acts)
    (grants : Exchange → Bool) :
    Sound (worker.ymoWsgiWorkerMain grants) acts := by
  unfold Worker.ymoWsgiWorkerMain
  cases located : worker.point with
  | lock => exact sound.enter
  | waiting => exact sound.enter
  | wait => exact sound.fallAsleep located
  | gone => exact sound
  | look =>
      have awake : worker.point ≠ .waiting := by
        rw [located]
        exact Point.noConfusion
      have side : worker.point.inside = true := by
        rw [located]
        rfl
      by_cases empty : worker.queueIn = []
      · rw [if_pos empty]
        exact
          sound.move awake rfl side.symm Point.noConfusion
            (fun _ => empty) Bool.noConfusion
      · rw [if_neg empty]
        exact
          sound.move awake rfl side.symm (fun _ => empty)
            Bool.noConfusion Bool.noConfusion
  | askRunning =>
      have awake : worker.point ≠ .waiting := by
        rw [located]
        exact Point.noConfusion
      have side : worker.point.inside = true := by
        rw [located]
        rfl
      have empty := sound.looked (by rw [located]; rfl)
      cases runs : worker.running with
      | true =>
          exact
            sound.move awake rfl side.symm Point.noConfusion
              (fun _ => empty) Bool.noConfusion
      | false =>
          exact
            sound.move awake rfl side.symm Point.noConfusion
              (fun _ => empty) (fun _ => rfl)
  | pop =>
      refine
        sound.move ?_ rfl ?_ Point.noConfusion Bool.noConfusion
          Bool.noConfusion
      · rw [located]
        exact Point.noConfusion
      · rw [located]
        rfl
  | unlock exchange =>
      refine sound.release (by rw [located]; rfl) rfl ?_ ?_
      · cases exchange <;> rfl
      · cases exchange <;> exact Bool.noConfusion
  | context exchange =>
      have awake : worker.point ≠ .waiting := by
        rw [located]
        exact Point.noConfusion
      have side : worker.point.inside = false := by
        rw [located]
        rfl
      dsimp only
      cases grants exchange with
      | true =>
          exact
            sound.move awake rfl side.symm Point.noConfusion
              Bool.noConfusion Bool.noConfusion
      | false =>
          exact
            sound.move awake rfl side.symm Point.noConfusion
              Bool.noConfusion Bool.noConfusion
  | issue exchange =>
      refine
        sound.move ?_ rfl ?_ Point.noConfusion Bool.noConfusion
          Bool.noConfusion
      · rw [located]
        exact Point.noConfusion
      · rw [located]
        rfl
  | leave =>
      exact
        sound.release (by rw [located]; rfl) rfl rfl
          (fun _ => sound.stopped (by rw [located]; rfl))

/-- A step of the worker moves exchanges on, in order. -/
theorem all_ymoWsgiWorkerMain (worker : Worker) (grants : Exchange → Bool)
    (acts : List Act) :
    (worker.ymoWsgiWorkerMain grants).all acts = worker.all acts := by
  unfold Worker.ymoWsgiWorkerMain Worker.all
  cases located : worker.point with
  | lock | waiting =>
      simp only [Worker.enter]
      cases worker.lockIn.lock .worker with
      | none => simp only [located]
      | some locked => rfl
  | look =>
      by_cases empty : worker.queueIn = []
      · simp only [if_pos empty]
        rfl
      · simp only [if_neg empty]
        rfl
  | askRunning => cases worker.running <;> rfl
  | wait | leave => rfl
  | gone => simp only [located]
  | pop => cases worker.queueIn <;> rfl
  | unlock exchange => cases exchange <;> rfl
  | context exchange =>
      dsimp only
      cases grants exchange with
      | true => rfl
      | false =>
          simp only [Bool.false_eq_true, if_false, Point.inHand,
            List.map_append, List.map_singleton, List.nil_append,
            List.append_assoc, List.singleton_append]
  | issue exchange =>
      simp only [Point.inHand, List.map_append, List.map_singleton,
        List.nil_append, List.append_assoc, List.singleton_append]

/-! ### The event loop takes a step -/

/-- A worker that wakes has yet to take the lock. -/
theorem Sound.wake (sound : Sound worker acts) :
    Sound
      { worker with lockIn := worker.lockIn.wake .worker }
      acts :=
  { sound with
    asleep := fun inside => sound.asleep (Monitor.mem_sleepers_of_wake inside)
    awake := fun inside => sound.awake (Monitor.mem_sleepers_of_wake inside)
    attended := fun inside =>
      absurd inside (Monitor.not_mem_sleepers_wake _ _) }

/-- The event loop begins something. -/
theorem Sound.begin (sound : Sound worker []) (plan : Plan acts)
    (outside : acts.head?.any Act.inside = false) :
    Sound worker acts :=
  { sound with
    plan := plan
    serverHolds := by
      rw [sound.serverHolds, outside]
      rfl
    attended := fun inside filled =>
      absurd (sound.attended inside filled) (List.cons_ne_nil _ _).symm }

/-- The event loop takes the lock. -/
theorem Sound.lock {act : Act} {rest new : List Act} {locked : Monitor Party}
    (sound : Sound worker (act :: rest))
    (taken : worker.lockIn.lock .server = some locked)
    (plan : Plan new)
    (inside : new.head?.any Act.inside = true)
    (attended :
      .worker ∈ worker.lockIn.sleepers →
        worker.queueIn ≠ [] →
          new = [.notify, .unlockIn]) :
    Sound { worker with lockIn := locked } new := by
  rcases Monitor.lock_eq_some taken with
    ⟨unheld, awake, holder, sleepers⟩
  have outside := sound.workerHolds
  rw [unheld] at outside
  exact
    { sound with
      plan := plan
      serverHolds := by
        rw [holder, inside]
        decide
      workerHolds := by
        rw [holder, ← outside]
        decide
      asleep := by
        rw [sleepers]
        exact sound.asleep
      awake := by
        rw [sleepers]
        exact awake
      attended := by
        rw [sleepers]
        exact attended }

/-- The event loop gives the lock back. -/
theorem Sound.unlock (sound : Sound worker [.unlockIn]) :
    Sound { worker with lockIn := worker.lockIn.unlock } [] := by
  have holds := sound.serverHolds.mpr rfl
  have outside := sound.workerHolds
  rw [holds] at outside
  exact
    { sound with
      plan := .idle
      serverHolds := by
        rw [Monitor.holder_unlock]
        decide
      workerHolds := by
        rw [Monitor.holder_unlock, ← outside]
        decide
      attended := fun inside filled => by
        cases sound.attended inside filled }

/-- An exchange is put into the queue while the event loop holds the lock. -/
theorem Sound.add {exchange : Exchange}
    (sound : Sound worker [.addExchange exchange, .notify, .unlockIn]) :
    Sound
      { worker with queueIn := worker.queueIn ++ [exchange] }
      [.notify, .unlockIn] := by
  have holds := sound.serverHolds.mpr rfl
  have outside := sound.workerHolds
  rw [holds] at outside
  exact
    { sound with
      plan := .notify
      attended := fun _ _ => rfl
      found := fun _ empty => by
        cases List.append_eq_nil_iff.mp empty |>.2
      looked := fun looked => by
        cases outside.mpr (Point.inside_of_looked looked) }

theorem Sound.perform {act : Act} {rest new : List Act}
    (sound : Sound worker (act :: rest))
    (performed : worker.perform act = some (moved, new)) :
    Sound moved (new ++ rest) := by
  have plan := sound.plan
  cases act with
  | lockIn =>
      simp only [Worker.perform, Option.map_eq_some_iff] at performed
      rcases performed with ⟨locked, taken, same⟩
      cases same
      have unattended :
          .worker ∈ worker.lockIn.sleepers →
            worker.queueIn ≠ [] →
              rest = [.notify, .unlockIn] := by
        intro inside filled
        cases sound.attended inside filled
      cases plan with
      | header => exact sound.lock taken .unlock rfl unattended
      | request exchange =>
          exact sound.lock taken (.add exchange) rfl unattended
  | addExchange exchange =>
      cases performed
      cases plan
      exact sound.add
  | notify =>
      cases performed
      cases plan
      have woken := sound.wake
      exact
        { woken with
          plan := .unlock
          attended := fun inside =>
            absurd inside (Monitor.not_mem_sleepers_wake _ _) }
  | unlockIn =>
      cases performed
      cases plan
      exact sound.unlock
  | clearRunning =>
      cases performed
      cases plan
      exact
        { sound with
          plan := .trylock
          attended := fun inside filled => by
            cases sound.attended inside filled
          stopped := fun _ => rfl }
  | trylockIn =>
      cases plan
      simp only [Worker.perform] at performed
      cases taken : worker.lockIn.lock .server with
      | none =>
          rw [taken] at performed
          cases performed
          exact
            { sound with
              plan := .idle
              attended := fun inside filled => by
                cases sound.attended inside filled }
      | some locked =>
          rw [taken] at performed
          cases performed
          exact sound.lock taken .notify rfl (fun _ _ => rfl)

/-- An act puts into the queue what it adds. -/
theorem all_perform {act : Act} {rest new : List Act}
    (performed : worker.perform act = some (moved, new)) :
    moved.all (new ++ rest) = worker.all (act :: rest) := by
  cases act with
  | lockIn =>
      simp only [Worker.perform, Option.map_eq_some_iff] at performed
      rcases performed with ⟨locked, taken, same⟩
      cases same
      rfl
  | addExchange exchange =>
      cases performed
      simp only [Worker.all, List.nil_append, List.flatMap_cons,
        Act.adds, List.append_assoc]
  | notify | unlockIn | clearRunning =>
      cases performed
      rfl
  | trylockIn =>
      simp only [Worker.perform] at performed
      cases taken : worker.lockIn.lock .server with
      | none =>
          rw [taken] at performed
          cases performed
          rfl
      | some locked =>
          rw [taken] at performed
          cases performed
          rfl

end Worker

/-! ## The process -/

section Pending

variable
    {Index : Type}
    [DecidableEq Index]

/-- The acts that concern one worker. -/
def actsOf (thread : Index) (pending : List (Index × Act)) : List Act :=
  pending.filterMap fun op => if op.1 = thread then some op.2 else none

@[simp]
theorem actsOf_nil (thread : Index) : actsOf thread [] = [] :=
  rfl

theorem actsOf_append (thread : Index) (front back : List (Index × Act)) :
    actsOf thread (front ++ back) =
      actsOf thread front ++ actsOf thread back :=
  List.filterMap_append

theorem actsOf_cons_same (thread : Index) (act : Act)
    (rest : List (Index × Act)) :
    actsOf thread ((thread, act) :: rest) = act :: actsOf thread rest :=
  List.filterMap_cons_some (if_pos rfl)

theorem actsOf_cons_other {thread other : Index} (different : other ≠ thread)
    (act : Act)
    (rest : List (Index × Act)) :
    actsOf thread ((other, act) :: rest) = actsOf thread rest :=
  List.filterMap_cons_none (if_neg different)

/-- What is done with one worker. -/
theorem actsOf_one (thread other : Index) (acts : List Act) :
    actsOf thread (acts.map (Prod.mk other)) =
      if other = thread then acts else [] := by
  induction acts with
  | nil =>
      rw [ite_self]
      rfl
  | cons act rest ih =>
      by_cases same : other = thread
      · rw [if_pos same] at ih ⊢
        subst same
        rw [List.map_cons, actsOf_cons_same, ih]
      · rw [if_neg same] at ih ⊢
        rw [List.map_cons, actsOf_cons_other same, ih]

/-- What is done with every worker is done with each. -/
theorem actsOf_each (acts : List Act) {threads : List Index}
    (distinct : threads.Nodup)
    (thread : Index) :
    actsOf thread
        (threads.flatMap fun other => acts.map (Prod.mk other)) =
      if thread ∈ threads then acts else [] := by
  induction threads with
  | nil => rfl
  | cons other rest ih =>
      rw [List.nodup_cons] at distinct
      rw [List.flatMap_cons, actsOf_append, ih distinct.2]
      rw [actsOf_one]
      by_cases same : other = thread
      · subst same
        rw [if_pos rfl, if_neg distinct.1, List.append_nil,
          if_pos List.mem_cons_self]
      · have among : thread ∈ other :: rest ↔ thread ∈ rest := by
          rw [List.mem_cons]
          exact or_iff_right fun equal => same equal.symm
        rw [if_neg same, List.nil_append]
        simp only [among]

end Pending

section Process

variable
    {settings : Settings}
    {process : Process settings}

/-- The exchanges that were requested of a worker. -/
def Process.requestedOf (process : Process settings)
    (thread : Fin settings.noWsgiThreads) :
    List Exchange :=
  process.requested.filter fun exchange =>
    Process.ymoWsgiProcAssignWorker settings exchange.session = thread

/-- What holds between any two steps. -/
structure Serving (process : Process settings) : Prop where
  sound :
    ∀ thread, Sound (process.workers thread) (actsOf thread process.pending)
  inOrder :
    ∀ thread,
      process.requestedOf thread =
        (process.workers thread).all (actsOf thread process.pending)

theorem serving_initial :
    Serving (Process.ymoWsgiInitWorkers : Process settings) where
  sound _ := sound_start
  inOrder _ := rfl

/-- The event loop begins something. -/
theorem Serving.begin
    (serving : Serving process)
    (idle : process.pending = [])
    {pending : List (Fin settings.noWsgiThreads × Act)}
    {new : List Exchange}
    (plan : ∀ thread, Plan (actsOf thread pending))
    (outside : ∀ thread, (actsOf thread pending).head?.any Act.inside = false)
    (adds :
      ∀ thread,
        (actsOf thread pending).flatMap Act.adds =
          new.filter fun exchange =>
            Process.ymoWsgiProcAssignWorker settings
              exchange.session = thread) :
    Serving
      { process with
        pending := pending
        requested := process.requested ++ new } where
  sound thread := by
    have sound := serving.sound thread
    rw [idle] at sound
    exact sound.begin (plan thread) (outside thread)
  inOrder thread := by
    have before := serving.inOrder thread
    rw [idle] at before
    unfold Process.requestedOf Worker.all at before ⊢
    rw [List.filter_append, before, adds thread]
    simp only [actsOf_nil, List.flatMap_nil, List.append_nil,
      List.append_assoc]

theorem Serving.headerCb (serving : Serving process)
    (idle : process.pending = [])
    (session : Nat) :
    Serving (process.ymoWsgiServerHeaderCb session) := by
  have acts (thread : Fin settings.noWsgiThreads) :=
    actsOf_one thread
      (Process.ymoWsgiProcAssignWorker settings session)
      [.lockIn, .unlockIn]
  have begun :
      Serving
        { process with
          pending :=
            [.lockIn, .unlockIn].map
              (Prod.mk (Process.ymoWsgiProcAssignWorker settings session))
          requested := process.requested ++ [] } := by
    apply serving.begin idle
    case plan =>
      intro thread
      rw [acts]
      split
      · exact .header
      · exact .idle
    case outside =>
      intro thread
      rw [acts]
      split <;> rfl
    case adds =>
      intro thread
      rw [acts]
      split <;> rfl
  rw [List.append_nil] at begun
  exact begun

theorem Serving.requestCb (serving : Serving process)
    (idle : process.pending = [])
    (exchange : Exchange) :
    Serving (process.ymoWsgiServerRequestCb exchange) := by
  have acts (thread : Fin settings.noWsgiThreads) :=
    actsOf_one thread
      (Process.ymoWsgiProcAssignWorker settings exchange.session)
      [.lockIn, .addExchange exchange, .notify, .unlockIn]
  have begun :
      Serving
        { process with
          pending :=
            [.lockIn, .addExchange exchange, .notify, .unlockIn].map
              (Prod.mk
                (Process.ymoWsgiProcAssignWorker settings exchange.session))
          requested := process.requested ++ [exchange] } := by
    apply serving.begin idle
    case plan =>
      intro thread
      rw [acts]
      split
      · exact .request exchange
      · exact .idle
    case outside =>
      intro thread
      rw [acts]
      split <;> rfl
    case adds =>
      intro thread
      rw [acts, List.filter_singleton]
      by_cases same :
          Process.ymoWsgiProcAssignWorker settings exchange.session = thread
      · rw [if_pos same, decide_eq_true same]
        rfl
      · rw [if_neg same, decide_eq_false same]
        rfl
  exact begun

theorem Serving.stopWorkers (serving : Serving process)
    (idle : process.pending = []) :
    Serving process.ymoWsgiStopWorkers := by
  have acts (thread : Fin settings.noWsgiThreads) :
      actsOf thread process.ymoWsgiStopWorkers.pending =
        [.clearRunning, .trylockIn] := by
    have each :=
      actsOf_each [.clearRunning, .trylockIn]
        (List.nodup_finRange settings.noWsgiThreads) thread
    rw [if_pos (List.mem_finRange thread)] at each
    exact each
  have begun :
      Serving
        { process with
          pending := process.ymoWsgiStopWorkers.pending
          requested := process.requested ++ [] } := by
    apply serving.begin idle
    case plan =>
      intro thread
      rw [acts]
      exact .stop
    case outside =>
      intro thread
      rw [acts]
      rfl
    case adds =>
      intro thread
      rw [acts]
      rfl
  rw [List.append_nil] at begun
  exact begun

/-- Only the worker itself changes. -/
theorem Process.forall_setWorker
    {motive : Fin settings.noWsgiThreads → Worker → Prop}
    {thread : Fin settings.noWsgiThreads}
    {worker : Worker}
    (own : motive thread worker)
    (others : ∀ other, other ≠ thread → motive other (process.workers other))
    (other : Fin settings.noWsgiThreads) :
    motive other ((process.setWorker thread worker).workers other) := by
  show motive other (if other = thread then worker else process.workers other)
  split
  · rename_i same
    rw [same]
    exact own
  · rename_i different
    exact others other different

/-- A worker takes a step that moves nothing out of order. -/
theorem Serving.setWorker
    (serving : Serving process)
    {thread : Fin settings.noWsgiThreads}
    {worker : Worker}
    {pending : List (Fin settings.noWsgiThreads × Act)}
    (sound : Sound worker (actsOf thread pending))
    (same :
      worker.all (actsOf thread pending) =
        (process.workers thread).all (actsOf thread process.pending))
    (others :
      ∀ other, other ≠ thread →
        actsOf other pending = actsOf other process.pending) :
    Serving { process.setWorker thread worker with pending := pending } where
  sound := by
    refine
      Process.forall_setWorker
        (motive := fun other worker => Sound worker (actsOf other pending))
        sound ?_
    intro other different
    rw [others other different]
    exact serving.sound other
  inOrder := by
    refine
      Process.forall_setWorker
        (motive := fun other worker =>
          process.requestedOf other = worker.all (actsOf other pending))
        ?_ ?_
    · rw [same]
      exact serving.inOrder thread
    · intro other different
      rw [others other different]
      exact serving.inOrder other

/-- The event loop goes on if there is something that it can do. -/
theorem Process.goOn_cases (process : Process settings) :
    process.goOn = process ∨
      ∃ thread act rest worker new,
        process.pending = (thread, act) :: rest ∧
          (process.workers thread).perform act = some (worker, new) ∧
            process.goOn =
              { process.setWorker thread worker with
                pending := new.map (Prod.mk thread) ++ rest } := by
  unfold Process.goOn
  cases process.pending with
  | nil => exact Or.inl rfl
  | cons op rest =>
      dsimp only
      cases performed : (process.workers op.1).perform op.2 with
      | none => exact Or.inl rfl
      | some done =>
          exact Or.inr ⟨_, _, _, _, _, rfl, performed, rfl⟩

theorem Serving.goOn (serving : Serving process) : Serving process.goOn := by
  rcases process.goOn_cases with
    same | ⟨thread, act, rest, worker, new, pending, performed, after⟩
  · rw [same]
    exact serving
  · have sound := serving.sound thread
    rw [pending, actsOf_cons_same] at sound
    have own :
        actsOf thread (new.map (Prod.mk thread) ++ rest) =
          new ++ actsOf thread rest := by
      rw [actsOf_append, actsOf_one, if_pos rfl]
    rw [after]
    apply serving.setWorker
    case sound =>
      rw [own]
      exact sound.perform performed
    case same =>
      rw [own, pending, actsOf_cons_same]
      exact all_perform performed
    case others =>
      intro other different
      rw [pending, actsOf_append, actsOf_one,
        if_neg different.symm, actsOf_cons_other different.symm]
      rfl

/-- What a step can do: it begins something if the event loop is idle, or the event
loop or a worker goes on. -/
theorem Process.step_cases {motive : Process settings → Prop}
    (stays : motive process)
    (headerCb :
      process.pending = [] →
        ∀ session, motive (process.ymoWsgiServerHeaderCb session))
    (requestCb :
      process.pending = [] →
        ∀ exchange, motive (process.ymoWsgiServerRequestCb exchange))
    (sessionCleanup :
      ∀ session, motive { process with closed := session :: process.closed })
    (stopWorkers : process.pending = [] → motive process.ymoWsgiStopWorkers)
    (action : Action settings)
    (server : action = .server → motive process.goOn)
    (worker :
      ∀ thread granted, action = .worker thread granted →
        motive
          (process.setWorker thread
            ((process.workers thread).ymoWsgiWorkerMain fun exchange =>
              granted && decide (exchange.session ∉ process.closed))))
    (spurious :
      ∀ thread,
        motive
          (process.setWorker thread
            { process.workers thread with
              lockIn := (process.workers thread).lockIn.wake .worker })) :
    motive (process.step action) := by
  have begins {after : Process settings}
      (begun : process.pending = [] → motive after) :
      motive (if process.pending = [] then after else process) := by
    split
    · rename_i idle
      exact begun idle
    · exact stays
  cases action with
  | headerCb session => exact begins fun idle => headerCb idle session
  | requestCb exchange => exact begins fun idle => requestCb idle exchange
  | sessionCleanup session => exact begins fun _ => sessionCleanup session
  | stopWorkers => exact begins stopWorkers
  | server => exact server rfl
  | worker thread granted => exact worker thread granted rfl
  | spurious thread => exact spurious thread

theorem Serving.step (serving : Serving process) (action : Action settings) :
    Serving (process.step action) := by
  apply Process.step_cases serving
  case headerCb => exact serving.headerCb
  case requestCb => exact serving.requestCb
  case sessionCleanup =>
    exact fun _ => { sound := serving.sound, inOrder := serving.inOrder }
  case stopWorkers => exact serving.stopWorkers
  case server => exact fun _ => serving.goOn
  case worker =>
    intro thread granted _
    exact
      serving.setWorker ((serving.sound thread).ymoWsgiWorkerMain _)
        (all_ymoWsgiWorkerMain _ _ _) (fun _ _ => rfl)
  case spurious =>
    intro thread
    exact serving.setWorker (serving.sound thread).wake rfl (fun _ _ => rfl)

/-! ### What comes next -/

/-- The acts of `ymo_wsgi_stop_workers` for the threads it has not come to. -/
def stopActs (threads : List (Fin settings.noWsgiThreads)) :
    List (Fin settings.noWsgiThreads × Act) :=
  threads.flatMap fun thread => [(thread, .clearRunning), (thread, .trylockIn)]

/-- The event loop deals with one worker at a time. -/
def Focused (process : Process settings) : Prop :=
  ∃ thread acts threads,
    process.pending = List.map (Prod.mk thread) acts ++ stopActs threads

theorem focused_initial :
    Focused (Process.ymoWsgiInitWorkers : Process settings) :=
  ⟨⟨0, settings.positive⟩, [], [], rfl⟩

theorem Focused.goOn (focused : Focused process) : Focused process.goOn := by
  rcases process.goOn_cases with
    same | ⟨other, act, rest, worker, new, head, -, after⟩
  · rw [same]
    exact focused
  · rcases focused with ⟨thread, acts, threads, pending⟩
    have onward {thread : Fin settings.noWsgiThreads} {front : Act}
        {acts : List Act}
        {threads : List (Fin settings.noWsgiThreads)}
        (pending :
          process.pending =
            (thread, front) ::
              (List.map (Prod.mk thread) acts ++ stopActs threads)) :
        Focused process.goOn := by
      cases head.symm.trans pending
      refine ⟨other, new ++ acts, threads, ?_⟩
      rw [after, List.map_append, List.append_assoc]
    rcases acts with _ | ⟨front, acts⟩
    · rcases threads with _ | ⟨next, threads⟩
      · cases head.symm.trans pending
      · exact @onward next .clearRunning [.trylockIn] threads pending
    · exact onward pending

theorem Focused.step (focused : Focused process) (action : Action settings) :
    Focused (process.step action) := by
  apply Process.step_cases focused
  case headerCb => exact fun _ _ => ⟨_, [.lockIn, .unlockIn], [], rfl⟩
  case requestCb =>
    intro _ exchange
    exact ⟨_, [.lockIn, .addExchange exchange, .notify, .unlockIn], [], rfl⟩
  case sessionCleanup => exact fun _ => focused
  case stopWorkers => exact fun _ => ⟨⟨0, settings.positive⟩, [], _, rfl⟩
  case server => exact fun _ => focused.goOn
  case worker => exact fun _ _ _ => focused
  case spurious => exact fun _ => focused

/-- Stopping begins with no call that a worker waits for. -/
theorem notify_not_mem_stopActs (thread : Fin settings.noWsgiThreads)
    (threads : List (Fin settings.noWsgiThreads)) :
    .notify ∉ actsOf thread (stopActs threads) := by
  intro inside
  rcases List.mem_filterMap.mp inside with ⟨op, member, same⟩
  rcases List.mem_flatMap.mp member with ⟨other, _, among⟩
  simp only [List.mem_cons, List.not_mem_nil, or_false] at among
  rcases among with rfl | rfl
  all_goals
    split at same
    · cases same
    · cases same

/-- The event loop is about to wake the worker, and does so in its next step. -/
theorem Focused.next (focused : Focused process)
    {thread : Fin settings.noWsgiThreads}
    (notified : actsOf thread process.pending = [.notify, .unlockIn]) :
    ∃ rest, process.pending = (thread, .notify) :: rest := by
  rcases focused with ⟨other, acts, threads, pending⟩
  rw [pending, actsOf_append, actsOf_one] at notified
  have away := notify_not_mem_stopActs thread threads
  by_cases same : other = thread
  · rw [if_pos same] at notified
    subst same
    cases acts with
    | nil =>
        rw [List.nil_append] at notified
        rw [notified] at away
        exact absurd List.mem_cons_self away
    | cons act acts =>
        rw [List.cons_append, List.cons.injEq] at notified
        rw [notified.1] at pending
        exact ⟨_, pending⟩
  · rw [if_neg same, List.nil_append] at notified
    rw [notified] at away
    exact absurd List.mem_cons_self away

/-! ### Every run -/

/-- The exchanges that the application was called for. -/
def Worker.issued (worker : Worker) : List Exchange :=
  (worker.handled.filter Prod.snd).map Prod.fst

/-- How requests get to the application. -/
structure HandedOver (process : Process settings) : Prop where
  /-- What was requested of a worker: the application was called for it or it was
  refused a context, or the worker has it in hand, or it is in the queue, or is about
  to be. -/
  inOrder :
    ∀ thread,
      process.requestedOf thread =
        (process.workers thread).handled.map Prod.fst ++
          ((process.workers thread).point.inHand ++
            ((process.workers thread).queueIn ++
              (actsOf thread process.pending).flatMap Act.adds))
  /-- The application is called for a session's requests in their order. -/
  sessions :
    ∀ session,
      List.Sublist
        ((process.workers
            (Process.ymoWsgiProcAssignWorker settings session)).issued.filter
          fun exchange => exchange.session = session)
        (process.requested.filter fun exchange => exchange.session = session)
  /-- The event loop and the worker are not in the queue together. -/
  exclusive :
    ∀ thread,
      (process.workers thread).point.inside = true →
        (actsOf thread process.pending).head?.any Act.inside = false
  /-- No exchange waits for a worker that sleeps. -/
  attended :
    ∀ thread,
      .worker ∈ (process.workers thread).lockIn.sleepers →
        (process.workers thread).queueIn ≠ [] →
          ∃ rest, process.pending = (thread, .notify) :: rest
  /-- A worker that leaves was told to and leaves nothing behind. -/
  leaves :
    ∀ thread,
      (process.workers thread).point = .leave →
        (process.workers thread).running = false ∧
          (process.workers thread).queueIn = []

theorem Serving.handedOver (serving : Serving process)
    (focused : Focused process) :
    HandedOver process where
  inOrder := serving.inOrder
  sessions session := by
    have whole :=
      serving.inOrder (Process.ymoWsgiProcAssignWorker settings session)
    have among :
        (process.requestedOf
              (Process.ymoWsgiProcAssignWorker settings session)).filter
            (fun exchange => exchange.session = session) =
          process.requested.filter fun exchange =>
            exchange.session = session := by
      unfold Process.requestedOf
      rw [List.filter_filter]
      congr 1
      funext exchange
      by_cases own : exchange.session = session
      · rw [own]
        simp
      · simp [own]
    rw [← among, whole, Worker.all, List.filter_append]
    have called :
        (process.workers
              (Process.ymoWsgiProcAssignWorker settings
                session)).issued.Sublist
          ((process.workers
              (Process.ymoWsgiProcAssignWorker settings
                session)).handled.map Prod.fst) :=
      List.filter_sublist.map Prod.fst
    exact (called.filter _).trans (List.sublist_append_left _ _)
  exclusive thread inside := by
    have sound := serving.sound thread
    rw [← Bool.not_eq_true, ← sound.serverHolds, sound.workerHolds.mpr inside]
    decide
  attended thread asleep filled :=
    focused.next ((serving.sound thread).attended asleep filled)
  leaves thread leave := by
    have sound := serving.sound thread
    constructor
    · apply sound.stopped
      rw [leave]
      rfl
    · apply sound.looked
      rw [leave]
      rfl

/-! ### Refusals -/

/-- The step refuses no context but to an exchange of a closed session. -/
def Grants : Action settings → Prop
  | .worker _ granted => granted = true
  | _ => True

/-- Who was refused a context had its session closed. -/
def RefusedClosed (process : Process settings) : Prop :=
  ∀ thread exchange,
    (exchange, false) ∈ (process.workers thread).handled →
      exchange.session ∈ process.closed

theorem mem_handled_ymoWsgiWorkerMain {worker : Worker}
    {grants : Exchange → Bool}
    {exchange : Exchange}
    (refused : (exchange, false) ∈ (worker.ymoWsgiWorkerMain grants).handled) :
    (exchange, false) ∈ worker.handled ∨ grants exchange = false := by
  unfold Worker.ymoWsgiWorkerMain at refused
  cases located : worker.point with
  | lock | waiting =>
      rw [located] at refused
      simp only [Worker.enter] at refused
      cases taken : worker.lockIn.lock .worker <;> rw [taken] at refused <;>
        exact Or.inl refused
  | look | askRunning =>
      rw [located] at refused
      simp only at refused
      split at refused <;> exact Or.inl refused
  | wait | pop | unlock | leave | gone =>
      rw [located] at refused
      exact Or.inl refused
  | context taken =>
      rw [located] at refused
      simp only at refused
      split at refused
      · exact Or.inl refused
      · rename_i denied
        rcases List.mem_append.mp refused with before | new
        · exact Or.inl before
        · cases List.mem_singleton.mp new
          exact Or.inr (eq_false_of_ne_true denied)
  | issue taken =>
      rw [located] at refused
      rcases List.mem_append.mp refused with before | new
      · exact Or.inl before
      · cases List.mem_singleton.mp new

theorem handled_perform {worker moved : Worker} {act : Act} {new : List Act}
    (performed : worker.perform act = some (moved, new)) :
    moved.handled = worker.handled := by
  cases act with
  | lockIn =>
      simp only [Worker.perform, Option.map_eq_some_iff] at performed
      rcases performed with ⟨locked, -, same⟩
      cases same
      rfl
  | addExchange | notify | unlockIn | clearRunning =>
      cases performed
      rfl
  | trylockIn =>
      simp only [Worker.perform] at performed
      cases taken : worker.lockIn.lock .server <;>
        rw [taken] at performed <;> cases performed <;> rfl

theorem RefusedClosed.setWorker
    (refusals : RefusedClosed process)
    {thread : Fin settings.noWsgiThreads}
    {worker : Worker}
    (kept :
      ∀ exchange, (exchange, false) ∈ worker.handled →
        exchange.session ∈ process.closed) :
    RefusedClosed (process.setWorker thread worker) :=
  Process.forall_setWorker
    (motive := fun _ worker =>
      ∀ exchange, (exchange, false) ∈ worker.handled →
        exchange.session ∈ process.closed)
    kept fun other _ => refusals other

theorem RefusedClosed.step (refusals : RefusedClosed process)
    (action : Action settings)
    (grants : Grants action) :
    RefusedClosed (process.step action) := by
  apply Process.step_cases refusals
  case headerCb => exact fun _ _ => refusals
  case requestCb => exact fun _ _ => refusals
  case sessionCleanup =>
    intro session thread exchange refused
    exact List.mem_cons_of_mem session (refusals thread exchange refused)
  case stopWorkers => exact fun _ => refusals
  case server =>
    intro _
    rcases process.goOn_cases with
      same | ⟨thread, act, rest, worker, new, -, performed, after⟩
    · rw [same]
      exact refusals
    · rw [after]
      apply refusals.setWorker
      intro exchange refused
      rw [handled_perform performed] at refused
      exact refusals thread exchange refused
  case worker =>
    rintro thread granted rfl
    cases grants
    apply refusals.setWorker
    intro exchange refused
    rcases mem_handled_ymoWsgiWorkerMain refused with before | denied
    · exact refusals thread exchange before
    · rw [Bool.true_and, decide_eq_false_iff_not, not_not] at denied
      exact denied
  case spurious =>
    intro thread
    exact refusals.setWorker (refusals thread)

end Process

/-- The worker sleeps, or has looked at `running` and is about to. -/
def Worker.Sleepy (worker : Worker) : Prop :=
  worker.point = .wait ∨ .worker ∈ worker.lockIn.sleepers

instance (worker : Worker) : Decidable worker.Sleepy :=
  inferInstanceAs (Decidable (_ ∨ _))

/-- The steps before the end, with an empty queue. -/
def Point.stepsLeft : Point → Nat
  | .gone => 0
  | .leave => 1
  | .askRunning | .pop => 2
  | .look => 3
  | .lock | .waiting => 4
  | .issue _ => 5
  | .context _ => 6
  | .unlock _ => 7
  | .wait => 0

/-- The steps before the end of a worker that was told to stop. -/
def Worker.stepsLeft (worker : Worker) : Nat :=
  6 * worker.queueIn.length + worker.point.stepsLeft

section Stopping

variable
    {worker moved : Worker}
    {acts : List Act}

/-- The lock of a worker that is outside is free while the event loop is idle. -/
theorem Sound.unheld (sound : Sound worker [])
    (outside : worker.point.inside = false) :
    worker.lockIn.holder = none := by
  cases holder : worker.lockIn.holder with
  | none => rfl
  | some party =>
      cases party with
      | server => cases sound.serverHolds.mp holder
      | worker =>
          rw [sound.workerHolds.mp holder] at outside
          cases outside

/-- A worker takes the lock while the event loop is idle. -/
theorem Sound.enters (sound : Sound worker [])
    (outside : worker.point.inside = false)
    (awake : .worker ∉ worker.lockIn.sleepers) :
    ∃ locked : Monitor Party,
      worker.enter = { worker with lockIn := locked, point := .look } := by
  rcases Monitor.exists_lock (sound.unheld outside) awake with
    ⟨locked, taken, -⟩
  refine ⟨locked, ?_⟩
  unfold Worker.enter
  rw [taken]

theorem running_ymoWsgiWorkerMain (worker : Worker)
    (grants : Exchange → Bool) :
    (worker.ymoWsgiWorkerMain grants).running = worker.running := by
  unfold Worker.ymoWsgiWorkerMain
  cases worker.point with
  | lock | waiting =>
      simp only [Worker.enter]
      cases worker.lockIn.lock .worker <;> rfl
  | look =>
      simp only
      split <;> rfl
  | askRunning | context =>
      simp only
      split <;> rfl
  | wait | pop | unlock | issue | leave | gone => rfl

theorem Worker.Sleepy.of_same (sleepy : moved.Sleepy)
    (goes : moved.point ≠ .wait)
    (sleepers : moved.lockIn.sleepers = worker.lockIn.sleepers) :
    worker.Sleepy := by
  rcases sleepy with wait | asleep
  · exact absurd wait goes
  · rw [sleepers] at asleep
    exact .inr asleep

/-- A worker that was told to stop does not go to sleep. -/
theorem sleepy_of_ymoWsgiWorkerMain (stopped : worker.running = false)
    {grants : Exchange → Bool}
    (sleepy : (worker.ymoWsgiWorkerMain grants).Sleepy) :
    worker.Sleepy := by
  unfold Worker.ymoWsgiWorkerMain at sleepy
  cases located : worker.point with
  | lock | waiting =>
      rw [located] at sleepy
      simp only [Worker.enter] at sleepy
      cases taken : worker.lockIn.lock .worker with
      | none =>
          rw [taken] at sleepy
          exact sleepy
      | some locked =>
          rw [taken] at sleepy
          exact
            sleepy.of_same Point.noConfusion
              (Monitor.lock_eq_some taken).2.2.2
  | look | context =>
      rw [located] at sleepy
      simp only at sleepy
      split at sleepy <;> exact sleepy.of_same Point.noConfusion rfl
  | askRunning =>
      rw [located] at sleepy
      simp only [stopped, Bool.false_eq_true, if_false] at sleepy
      exact sleepy.of_same Point.noConfusion rfl
  | wait => exact .inl located
  | unlock exchange =>
      rw [located] at sleepy
      refine sleepy.of_same ?_ rfl
      cases exchange <;> exact Point.noConfusion
  | pop | issue exchange | leave =>
      rw [located] at sleepy
      exact sleepy.of_same Point.noConfusion rfl
  | gone =>
      rw [located] at sleepy
      exact sleepy

/-- A worker that was told to stop and does not sleep gets nearer to its end, and
leaves no exchange behind. -/
theorem Sound.nearer (sound : Sound worker [])
    (stopped : worker.running = false)
    (awake : ¬worker.Sleepy)
    (here : worker.point ≠ .gone)
    (grants : Exchange → Bool) :
    (worker.ymoWsgiWorkerMain grants).stepsLeft < worker.stepsLeft ∧
      ((worker.ymoWsgiWorkerMain grants).point = .gone →
        (worker.ymoWsgiWorkerMain grants).queueIn = []) := by
  unfold Worker.ymoWsgiWorkerMain Worker.stepsLeft
  cases located : worker.point with
  | lock | waiting =>
      rcases
          sound.enters (by rw [located]; rfl)
            (fun asleep => awake (.inr asleep)) with
        ⟨locked, entered⟩
      simp only [entered]
      exact ⟨Nat.lt_succ_self _, Point.noConfusion⟩
  | look =>
      simp only
      split <;> exact ⟨Nat.lt_succ_self _, Point.noConfusion⟩
  | askRunning =>
      simp only [stopped, Bool.false_eq_true, if_false]
      exact ⟨Nat.lt_succ_self _, Point.noConfusion⟩
  | wait => exact absurd (.inl located) awake
  | pop =>
      cases queue : worker.queueIn with
      | nil => exact absurd queue (sound.found located)
      | cons exchange rest =>
          refine ⟨?_, Point.noConfusion⟩
          simp only [List.tail_cons, List.length_cons, Point.stepsLeft]
          omega
  | unlock exchange =>
      cases exchange with
      | none =>
          refine ⟨?_, Point.noConfusion⟩
          simp only [Option.elim, Point.stepsLeft]
          omega
      | some exchange => exact ⟨Nat.lt_succ_self _, Point.noConfusion⟩
  | context exchange =>
      simp only
      split
      · exact ⟨Nat.lt_succ_self _, Point.noConfusion⟩
      · refine ⟨?_, Point.noConfusion⟩
        simp only [Point.stepsLeft]
        omega
  | issue exchange => exact ⟨Nat.lt_succ_self _, Point.noConfusion⟩
  | leave =>
      exact
        ⟨Nat.lt_succ_self _,
          fun _ => sound.looked (by rw [located]; rfl)⟩
  | gone => exact absurd located here

/-- The worker after some of its own steps, whatever is granted a context. -/
def Worker.goesOn (grants : Nat → Exchange → Bool) (worker : Worker) :
    Nat → Worker
  | 0 => worker
  | count + 1 =>
      goesOn (fun step => grants (step + 1))
        (worker.ymoWsgiWorkerMain (grants 0)) count

/-- The worker comes to its end by its own steps, and has dealt with all there is
before that. -/
def Worker.Ends (worker : Worker) (all : List Exchange) : Prop :=
  ∀ grants,
    ∃ count,
      (worker.goesOn grants count).point = .gone ∧
        (worker.point ≠ .gone →
          (worker.goesOn grants count).handled.map Prod.fst = all)

/-- A worker that is gone takes no step. -/
theorem goesOn_of_gone (gone : worker.point = .gone)
    (grants : Nat → Exchange → Bool)
    (count : Nat) :
    worker.goesOn grants count = worker := by
  induction count generalizing grants with
  | zero => rfl
  | succ count ih =>
      have still : worker.ymoWsgiWorkerMain (grants 0) = worker := by
        unfold Worker.ymoWsgiWorkerMain
        rw [gone]
      rw [Worker.goesOn, still, ih]

theorem Sound.ends (sound : Sound worker []) (stopped : worker.running = false)
    (awake : ¬worker.Sleepy) :
    worker.Ends (worker.all []) := by
  induction left : worker.stepsLeft using Nat.strong_induction_on
    generalizing worker with
  | _ steps ih =>
      intro grants
      by_cases here : worker.point = .gone
      · exact ⟨0, here, fun away => absurd here away⟩
      · rcases sound.nearer stopped awake here (grants 0) with
          ⟨fewer, empty⟩
        rw [left] at fewer
        have still :=
          (running_ymoWsgiWorkerMain worker (grants 0)).trans stopped
        rcases
            ih _ fewer (sound.ymoWsgiWorkerMain _) still
              (fun sleepy => awake (sleepy_of_ymoWsgiWorkerMain stopped sleepy))
              rfl (fun step => grants (step + 1)) with
          ⟨count, gone, handled⟩
        refine ⟨count + 1, gone, fun _ => ?_⟩
        rw [all_ymoWsgiWorkerMain] at handled
        by_cases there : (worker.ymoWsgiWorkerMain (grants 0)).point = .gone
        · rw [Worker.goesOn, goesOn_of_gone there,
            ← all_ymoWsgiWorkerMain worker (grants 0), Worker.all, there,
            empty there]
          exact (List.append_nil _).symm
        · exact handled there

/-- A worker that was told to stop and sleeps is going to be woken. -/
def Called (worker : Worker) (acts : List Act) : Prop :=
  worker.running = false →
    worker.Sleepy →
      .trylockIn ∈ acts ∨ .notify ∈ acts

theorem Called.ymoWsgiWorkerMain (called : Called worker acts)
    (grants : Exchange → Bool) :
    Called (worker.ymoWsgiWorkerMain grants) acts := by
  intro stopped sleepy
  rw [running_ymoWsgiWorkerMain] at stopped
  exact called stopped (sleepy_of_ymoWsgiWorkerMain stopped sleepy)

theorem Called.wake (called : Called worker acts) :
    Called
      { worker with lockIn := worker.lockIn.wake .worker }
      acts := by
  rintro stopped (wait | asleep)
  · exact called stopped (.inl wait)
  · exact absurd asleep (Monitor.not_mem_sleepers_wake _ _)

/-- A worker whose lock is held by the event loop is not about to sleep. -/
theorem Sound.point_ne_wait (sound : Sound worker acts)
    (inside : acts.head?.any Act.inside = true) :
    worker.point ≠ .wait := by
  intro wait
  have holds := sound.workerHolds
  rw [sound.serverHolds.mpr inside, wait] at holds
  cases holds.mpr rfl

/-- A lock that the event loop is refused is held by a worker that is awake. -/
theorem Sound.awake_of_refused (sound : Sound worker acts)
    (outside : acts.head?.any Act.inside = false)
    (refused : worker.lockIn.lock .server = none) :
    .worker ∉ worker.lockIn.sleepers := by
  rcases Monitor.lock_eq_none sound.awake refused with
    ⟨party, holder⟩
  cases party with
  | server =>
      rw [sound.serverHolds.mp holder] at outside
      cases outside
  | worker => exact worker.lockIn.apart _ holder

theorem Called.perform {act : Act} {rest new : List Act}
    (called : Called worker (act :: rest))
    (sound : Sound worker (act :: rest))
    (inTime : act = .trylockIn → worker.point ≠ .wait)
    (performed : worker.perform act = some (moved, new)) :
    Called moved (new ++ rest) := by
  have plan := sound.plan
  cases act with
  | lockIn =>
      simp only [Worker.perform, Option.map_eq_some_iff] at performed
      rcases performed with ⟨locked, taken, same⟩
      cases same
      intro stopped sleepy
      have before : worker.Sleepy := by
        rcases sleepy with wait | asleep
        · exact .inl wait
        · simp only [(Monitor.lock_eq_some taken).2.2.2] at asleep
          exact .inr asleep
      rcases called stopped before with trylock | notify
      · exact .inl (List.mem_of_ne_of_mem Act.noConfusion trylock)
      · exact .inr (List.mem_of_ne_of_mem Act.noConfusion notify)
  | addExchange exchange =>
      cases performed
      intro stopped sleepy
      rcases called stopped sleepy with trylock | notify
      · exact .inl (List.mem_of_ne_of_mem Act.noConfusion trylock)
      · exact .inr (List.mem_of_ne_of_mem Act.noConfusion notify)
  | notify =>
      cases performed
      rintro - (wait | asleep)
      · exact absurd wait (sound.point_ne_wait rfl)
      · exact absurd asleep (Monitor.not_mem_sleepers_wake _ _)
  | unlockIn =>
      cases performed
      intro stopped sleepy
      rcases called stopped sleepy with trylock | notify
      · exact .inl (List.mem_of_ne_of_mem Act.noConfusion trylock)
      · exact .inr (List.mem_of_ne_of_mem Act.noConfusion notify)
  | clearRunning =>
      cases performed
      cases plan
      exact fun _ _ => .inl List.mem_cons_self
  | trylockIn =>
      simp only [Worker.perform] at performed
      cases taken : worker.lockIn.lock .server with
      | none =>
          rw [taken] at performed
          cases performed
          rintro - (wait | asleep)
          · exact absurd wait (inTime rfl)
          · exact absurd asleep (sound.awake_of_refused rfl taken)
      | some locked =>
          rw [taken] at performed
          cases performed
          exact fun _ _ => .inr List.mem_cons_self

end Stopping

section Process

variable
    {settings : Settings}
    {process : Process settings}

/-- `pthread_mutex_trylock` does not fall between a worker's look at `running` and its
call of `pthread_cond_wait`. -/
def InTime (process : Process settings) : Action settings → Prop
  | .server =>
      ∀ thread,
        process.pending.head? = some (thread, .trylockIn) →
          (process.workers thread).point ≠ .wait
  | _ => True

instance decidableInTime (process : Process settings) :
    ∀ action, Decidable (InTime process action)
  | .server =>
      inferInstanceAs
        (Decidable
          (∀ thread,
            process.pending.head? = some (thread, .trylockIn) →
              (process.workers thread).point ≠ .wait))
  | .headerCb _ => isTrue trivial
  | .requestCb _ => isTrue trivial
  | .sessionCleanup _ => isTrue trivial
  | .stopWorkers => isTrue trivial
  | .worker _ _ => isTrue trivial
  | .spurious _ => isTrue trivial

/-- Every worker that was told to stop and sleeps is going to be woken. -/
def CalledAll (process : Process settings) : Prop :=
  ∀ thread, Called (process.workers thread) (actsOf thread process.pending)

theorem CalledAll.begin (called : CalledAll process)
    (idle : process.pending = [])
    {after : Process settings}
    (same : after.workers = process.workers) :
    CalledAll after := by
  intro thread stopped sleepy
  rw [same] at stopped sleepy
  have promised := called thread stopped sleepy
  rw [idle] at promised
  rcases promised with trylock | notify
  · cases trylock
  · cases notify

theorem CalledAll.goOn (called : CalledAll process) (serving : Serving process)
    (inTime : InTime process .server) :
    CalledAll process.goOn := by
  rcases process.goOn_cases with
    same | ⟨thread, act, rest, worker, new, pending, performed, after⟩
  · rw [same]
    exact called
  · rw [after]
    refine
      Process.forall_setWorker
        (motive := fun other worker =>
          Called worker
            (actsOf other (new.map (Prod.mk thread) ++ rest)))
        ?_ ?_
    · have before := called thread
      have sound := serving.sound thread
      rw [pending, actsOf_cons_same] at before sound
      rw [actsOf_append, actsOf_one, if_pos rfl]
      refine before.perform sound ?_ performed
      rintro rfl
      apply inTime
      rw [pending]
      rfl
    · intro other different
      have before := called other
      rw [pending, actsOf_cons_other different.symm] at before
      rw [actsOf_append, actsOf_one, if_neg different.symm]
      exact before

theorem CalledAll.setWorker (called : CalledAll process)
    {thread : Fin settings.noWsgiThreads}
    {worker : Worker}
    (kept : Called worker (actsOf thread process.pending)) :
    CalledAll (process.setWorker thread worker) :=
  Process.forall_setWorker
    (motive := fun other worker =>
      Called worker (actsOf other process.pending))
    kept fun other _ => called other

theorem CalledAll.step (called : CalledAll process) (serving : Serving process)
    (action : Action settings)
    (inTime : InTime process action) :
    CalledAll (process.step action) := by
  apply Process.step_cases called
  case headerCb => exact fun idle _ => called.begin idle rfl
  case requestCb => exact fun idle _ => called.begin idle rfl
  case sessionCleanup => exact fun _ => called
  case stopWorkers => exact fun idle => called.begin idle rfl
  case server =>
    rintro rfl
    exact called.goOn serving inTime
  case worker =>
    intro thread _ _
    exact called.setWorker ((called thread).ymoWsgiWorkerMain _)
  case spurious =>
    intro thread
    exact called.setWorker (called thread).wake

end Process

def twoThreads : Settings where
  noWsgiThreads := 2
  positive := by decide

/-- The worker of every second session. -/
def oddWorker : Fin twoThreads.noWsgiThreads :=
  Process.ymoWsgiProcAssignWorker twoThreads 1

/-- A worker sleeps, is woken for a request and calls the application; it has another
in hand, whose session is closed, when both are told to stop. -/
def stoppedAfterRequest : List (Action twoThreads) :=
  List.replicate 4 (.worker oddWorker true) ++
    [.requestCb { session := 1, number := 0 }] ++
    List.replicate 4 .server ++
    List.replicate 6 (.worker oddWorker true) ++
    [.requestCb { session := 3, number := 1 }] ++
    List.replicate 4 .server ++
    [.sessionCleanup 3] ++
    List.replicate 3 (.worker oddWorker true) ++
    [.stopWorkers] ++ List.replicate 7 .server

/-- A worker that is told to stop just before it falls asleep sleeps on. -/
example :
    ((run Process.step Process.ymoWsgiInitWorkers
        (List.replicate 3 (.worker oddWorker true) ++ [.stopWorkers] ++
          List.replicate 7 .server ++
          [.worker oddWorker true])).workers oddWorker).Sleepy := by
  decide +kernel

end Yimmo.Wsgi.HandOver
