import Mathlib.Logic.Function.Basic
import Yimmo.Core.Characters
import Yimmo.Lib.Threads

/-!
# WSGI exchanges and the threads that share them

This module models the exchanges of the WSGI server, from
`ymo_wsgi_server_header_cb` to `ymo_wsgi_exchange_free`: the event loop's thread
(request callbacks, `ymo_wsgi_server_queue_responses`, session cleanup), the
worker's thread (`ymo_wsgi_worker_main` and the application it calls) and the
Python code that runs beside it and may still hold a context.  A session keeps the
worker it was given, so one worker and its sessions are a closed system.

A step is one access to data that another thread may touch at the same time: an
atomic operation on a count, a load of `closed`, a try at a lock, or what is done
between the taking and the release of a lock.  The threads take their steps in any
order.  A Python method that has begun keeps its context.  The free list of a
session's pool is read and written without a lock, so that taking an item from it
and putting one back are two steps each: the load of `head` and its store.

Exchanges and sessions are numbered in the order of their creation, so that a
recycled pool item is not taken for the exchange it was before.  Each counts how
often it was freed; `faults` collects the accesses to freed memory, and the items
that were handed out while an exchange was still using them.
-/

namespace Yimmo.Wsgi.Worker

open Yimmo.Lib.Threads

/-! ## Data -/

/-- Who holds a reference to an exchange. -/
inductive Holder where
  | server
  | worker
  | queue
  | context
  | sessionList
deriving DecidableEq, Repr

/-- `ymo_wsgi_exchange_t`, and how often it was freed. -/
structure Exchange where
  session : Nat
  response : Nat
  bodyData : List Bytes
  done : Bool
  sent : Bool
  noPool : Bool
  /-- Which item of the session's pool it is, without `noPool`. -/
  item : Nat
  /-- `atomic_int_least16_t`. -/
  refcnt : BitVec 16
  frees : Nat
deriving DecidableEq, Repr

/-- A request between its header callback and its request callback. -/
structure Arrival where
  response : Nat
  /-- What `ymo_wsgi_server_header_cb` created for it. -/
  exchange : Option Nat
deriving DecidableEq, Repr

/-- `ymo_wsgi_exchange_pool_t`. -/
structure Pool where
  head : Option Nat
  /-- `next` of the items that are free. -/
  next : Nat → Option Nat
  /-- The exchanges that the items were last handed out for. -/
  exchange : Nat → Option Nat

/-- `ymo_wsgi_session_t`, with the request that the HTTP session is reading. -/
structure Session where
  /-- `head` and the exchanges linked from it. -/
  list : List Nat
  closed : Bool
  locked : Bool
  /-- `atomic_int_least16_t`. -/
  refcnt : BitVec 16
  pool : Pool
  reading : Option Arrival
  frees : Nat

/-- The threads. -/
inductive Thread where
  | server
  | worker
  | python
deriving DecidableEq, Repr

instance : Fintype Thread where
  elems := {.server, .worker, .python}
  complete := by
    intro thread
    cases thread <;> decide

/-- Why the session is locked by a Python thread. -/
inductive Purpose where
  | newContext
  | startResponse
deriving DecidableEq, Repr

/-- The operations in which a thread can be interrupted. -/
inductive Op where
  /-- `WSGI_EXCHANGE_DECREF`, on behalf of a holder. -/
  | release (holder : Holder) (exchange : Nat)
  /-- `ymo_wsgi_session_decref`. -/
  | sessionDecref (session : Nat)
  /-- `ymo_wsgi_exchange_free`, up to the load of `pool.head`. -/
  | exchangeFree (exchange : Nat)
  /-- The store of `pool.head` that ends it. -/
  | returnItem (session item : Nat)
  /--
  `ymo_wsgi_server_header_cb`, from the store of `pool.head` on, with the item that
  was at the head and its `next`.
  -/
  | createExchange (session : Nat) (top : Option (Nat × Option Nat))
  /-- The loop of `ymo_wsgi_server_queue_responses`. -/
  | popResponse
  /-- `ymo_wsgi_session_exchange_done`, and the end of the loop's body. -/
  | exchangeDone (exchange : Nat)
  /-- `ymo_wsgi_session_cleanup`, from the lock on. -/
  | lockCleanup (session : Nat)
  /-- Its loop. -/
  | releaseList (session : Nat)
  /-- Its end. -/
  | unlockCleanup (session : Nat)
  /-- `ymo_wsgi_ctx_update_environ`. -/
  | holdContext (exchange : Nat)
  /-- `ymo_wsgi_session_trylock`: the load of `closed`. -/
  | checkClosed (purpose : Purpose) (exchange : Nat)
  /-- `ymo_wsgi_session_trylock`: `pthread_mutex_trylock`. -/
  | tryLock (purpose : Purpose) (exchange : Nat)
  /-- `ymo_wsgi_ctx_update_environ`, after the lock was taken. -/
  | makeContext (exchange : Nat)
  /-- Its end. -/
  | unlockContext (exchange : Nat)
  /-- The beginning of `ymo_wsgi_worker_issue_request`. -/
  | issueRequest (exchange : Nat)
  /-- `yimmo_Context_start_response`, under the lock. -/
  | setResponse (exchange : Nat)
  /-- `ymo_wsgi_worker_response_body_append` with `done = 0`. -/
  | bodyAppend (exchange : Nat) (item : Bytes)
  /-- The same function under `lock_out`. -/
  | queueOut (exchange : Nat) (item : Option Bytes) (done : Bool)
deriving DecidableEq, Repr

/-- How far `ymo_wsgi_worker_issue_request` is. -/
inductive Phase where
  /-- In the call of the application. -/
  | calling
  /-- In the loop over what it returned. -/
  | iterating
  /-- After the loop, with `close` to call. -/
  | closing
deriving DecidableEq, Repr

/-- A running `ymo_wsgi_worker_issue_request`. -/
structure Call where
  exchange : Nat
  phase : Phase
  /-- The worker still has its own reference to the exchange. -/
  owes : Bool
deriving DecidableEq, Repr

/-- An access to memory that is not there. -/
inductive Fault where
  | freedExchange (exchange : Nat)
  | freedSession (session : Nat)
  /-- `wsgi_session->head` is null. -/
  | noExchange (session : Nat)
  /-- The item of an exchange is handed out while the exchange has it. -/
  | usedExchange (exchange : Nat)
deriving DecidableEq, Repr

/-- The worker, its sessions and its exchanges. -/
structure World where
  sessions : Nat → Session
  nextSession : Nat
  exchanges : Nat → Exchange
  nextExchange : Nat
  nextResponse : Nat
  queueIn : List Nat
  queueOut : List Nat
  /-- `lock_out` is held by the server's thread. -/
  lockOut : Bool
  ops : Thread → List Op
  call : Option Call
  /-- The exchanges of the contexts that exist. -/
  contexts : List Nat
  /-- The body data of the responses. -/
  responseBody : Nat → List Bytes
  /-- The responses for which the request callback ran, with their session. -/
  requested : List (Nat × Nat)
  /-- The calls of `ymo_http_response_finish`. -/
  finished : List Nat
  faults : List Fault

/-- `YMO_WSGI_EXCHANGE_POOL_SIZE`. -/
def ymoWsgiExchangePoolSize : Nat := 2

namespace Pool

def blank : Pool where
  head := none
  next := fun _ => none
  exchange := fun _ => none

/-- The pool as `ymo_wsgi_session_init` leaves it, each item linked to the next. -/
def full : Pool where
  head := some 0
  next := fun item =>
    if item + 1 < ymoWsgiExchangePoolSize then some (item + 1) else none
  exchange := fun _ => none

/-- The item at the head, and its `next`. -/
def top (pool : Pool) : Option (Nat × Option Nat) :=
  pool.head.map fun item => (item, pool.next item)

/-- The item that was at the head is handed out for an exchange. -/
def take (pool : Pool) (top : Option (Nat × Option Nat)) (e : Nat) : Pool :=
  match top with
  | none => pool
  | some (item, next) =>
      { pool with
        head := next
        exchange := Function.update pool.exchange item (some e) }

/-- An item is linked to the head. -/
def link (pool : Pool) (item : Nat) : Pool :=
  { pool with next := Function.update pool.next item pool.head }

end Pool

def Session.blank : Session where
  list := []
  closed := false
  locked := false
  refcnt := 0
  pool := Pool.blank
  reading := none
  frees := 0

def Exchange.blank : Exchange where
  session := 0
  response := 0
  bodyData := []
  done := false
  sent := false
  noPool := false
  item := 0
  refcnt := 0
  frees := 0

/-- A worker that has just been started. -/
def World.initial : World where
  sessions := fun _ => Session.blank
  nextSession := 0
  exchanges := fun _ => Exchange.blank
  nextExchange := 0
  nextResponse := 0
  queueIn := []
  queueOut := []
  lockOut := false
  ops := fun _ => []
  call := none
  contexts := []
  responseBody := fun _ => []
  requested := []
  finished := []
  faults := []

namespace World

def setExchange (world : World) (e : Nat) (exchange : Exchange) : World :=
  { world with
    exchanges := fun other =>
      if other = e then exchange else world.exchanges other }

def setSession (world : World) (s : Nat) (session : Session) : World :=
  { world with
    sessions := fun other =>
      if other = s then session else world.sessions other }

/-- The session that owns an exchange. -/
def owner (world : World) (e : Nat) : Nat :=
  (world.exchanges e).session

/-- The items of the pool are part of their session. -/
def Gone (world : World) (e : Nat) : Prop :=
  0 < (world.exchanges e).frees ∨
    (world.exchanges e).noPool = false ∧
      0 < (world.sessions (world.owner e)).frees

instance (world : World) (e : Nat) : Decidable (world.Gone e) :=
  inferInstanceAs (Decidable (_ ∨ _))

/-- An access to an exchange. -/
def touchExchange (world : World) (e : Nat) : World :=
  if world.Gone e then
    { world with faults := world.faults ++ [.freedExchange e] }
  else world

/-- An access to a session. -/
def touchSession (world : World) (s : Nat) : World :=
  if 0 < (world.sessions s).frees then
    { world with faults := world.faults ++ [.freedSession s] }
  else world

/-- An item is handed out that an exchange may still have. -/
def touchItem (world : World) (s : Nat) (top : Option (Nat × Option Nat)) :
    World :=
  match top.bind fun taken => (world.sessions s).pool.exchange taken.1 with
  | none => world
  | some e =>
      if (world.exchanges e).frees = 0 then
        { world with faults := world.faults ++ [.usedExchange e] }
      else world

/-- An access to an exchange and to the session it points to. -/
def touch (world : World) (e : Nat) : World :=
  (world.touchExchange e).touchSession (world.owner e)

/-! ## References -/

/-- `WSGI_EXCHANGE_INCREF`. -/
def ymoWsgiExchangeIncref (world : World) (e : Nat) : World :=
  let exchange := world.exchanges e
  (world.touchExchange e).setExchange e
    { exchange with refcnt := exchange.refcnt + 1 }

/-- `ymo_wsgi_exchange_decref`, and what it still has to do. -/
def ymoWsgiExchangeDecref (world : World) (e : Nat) : World × List Op :=
  let exchange := world.exchanges e
  let refcnt := exchange.refcnt - 1
  ((world.touchExchange e).setExchange e
      { exchange with refcnt := refcnt },
    if refcnt = 0 then [.sessionDecref exchange.session, .exchangeFree e]
    else [])

/-- `ymo_wsgi_session_decref`. -/
def ymoWsgiSessionDecref (world : World) (s : Nat) : World :=
  let session := world.sessions s
  let refcnt := session.refcnt - 1
  (world.touchSession s).setSession s
    { session with
      refcnt := refcnt
      frees := if refcnt = 0 then session.frees + 1 else session.frees }

/-- `ymo_wsgi_exchange_free`, and what it still has to do. -/
def ymoWsgiExchangeFree (world : World) (e : Nat) : World × List Op :=
  let exchange := world.exchanges e
  let freed :=
    (world.touchExchange e).setExchange e
      { exchange with frees := exchange.frees + 1 }
  if exchange.noPool then (freed, [])
  else
    let session := freed.sessions exchange.session
    (freed.setSession exchange.session
        { session with pool := session.pool.link exchange.item },
      [.returnItem exchange.session exchange.item])

/-- The store of `pool.head` in `ymo_wsgi_exchange_free`. -/
def returnItem (world : World) (s item : Nat) : World :=
  let session := world.sessions s
  (world.touchSession s).setSession s
    { session with pool := { session.pool with head := some item } }

/-! ## The server's thread -/

/-- `ymo_wsgi_session_init`. -/
def ymoWsgiSessionInit (world : World) : World :=
  { world.setSession world.nextSession
      { Session.blank with
        refcnt := 1
        pool := Pool.full } with
    nextSession := world.nextSession + 1 }

/--
`ymo_wsgi_session_create_exchange` after the loads of `pool.head` and of the item's
`next`, with `ymo_wsgi_exchange_init`.
-/
def ymoWsgiSessionCreateExchange (world : World) (s response : Nat)
    (top : Option (Nat × Option Nat)) :
    World :=
  let session := world.sessions s
  let e := world.nextExchange
  { (((world.touchSession s).touchItem s top).setExchange e
        { Exchange.blank with
          session := s
          response := response
          noPool := top.isNone
          item := (top.map Prod.fst).getD 0
          refcnt := 1 }).setSession s
      { session with
        refcnt := session.refcnt + 1
        pool := session.pool.take top e
        list := session.list ++ [e] } with
    nextExchange := e + 1 }

/--
`ymo_wsgi_server_header_cb`, after the loads of `pool.head` and of the item's
`next`.  It leaves requests for an upgrade alone where WebSockets are built in.
-/
def ymoWsgiServerHeaderCb (world : World) (s : Nat) (upgrade : Bool)
    (top : Option (Nat × Option Nat)) :
    World :=
  let response := world.nextResponse
  let e := world.nextExchange
  let after :=
    if upgrade then world
    else
      (world.ymoWsgiSessionCreateExchange s response
        top).ymoWsgiExchangeIncref e
  { after.setSession s
      { after.sessions s with
        reading :=
          some
            { response := response
              exchange := if upgrade then none else some e } } with
    nextResponse := response + 1 }

/-- `ymo_wsgi_server_request_cb`, with `ymo_wsgi_worker_add_exchange`. -/
def ymoWsgiServerRequestCb (world : World) (s response : Nat) : World :=
  let session := world.sessions s
  let read :=
    { world.setSession s { session with reading := none } with
      requested := world.requested ++ [(s, response)] }
  match session.list with
  | [] => { read with faults := read.faults ++ [.noExchange s] }
  | head :: _ =>
      let given :=
        (read.setExchange head
          { read.exchanges head with
            response := response }).ymoWsgiExchangeIncref head
      { given with queueIn := given.queueIn ++ [head] }

/-- One turn of the loop of `ymo_wsgi_server_queue_responses`. -/
def ymoWsgiServerQueueResponse (world : World) : World × List Op :=
  match world.queueOut with
  | [] => ({ world with lockOut := false }, [])
  | e :: rest =>
      let world := { world.touch e with queueOut := rest }
      let exchange := world.exchanges e
      let markSent : List Op := [.release .server e, .exchangeDone e]
      let skip : List Op := [.release .queue e, .popResponse]
      if (world.sessions exchange.session).closed then
        if exchange.sent then (world, skip)
        else (world.setExchange e { exchange with sent := true }, markSent)
      else
        let response := exchange.response
        let appended :=
          { world with
            responseBody := fun other =>
              if other = response then
                world.responseBody other ++ exchange.bodyData
              else world.responseBody other }
        if exchange.done && !exchange.sent then
          ({ appended.setExchange e
                { exchange with bodyData := [], sent := true } with
              finished := world.finished ++ [response] },
            markSent)
        else (appended.setExchange e { exchange with bodyData := [] }, skip)

/-- `ymo_wsgi_session_exchange_done`, and the end of the loop's body. -/
def ymoWsgiSessionExchangeDone (world : World) (e : Nat) : World × List Op :=
  let world := world.touch e
  let session := world.sessions (world.owner e)
  match session.list with
  | [] => (world, [.release .queue e, .popResponse])
  | head :: next =>
      ((world.touchExchange head).setSession (world.owner e)
          { session with list := next },
        [.release .sessionList head, .release .queue e, .popResponse])

/-- One turn of the loop of `ymo_wsgi_session_cleanup`. -/
def ymoWsgiSessionCleanupNext (world : World) (s : Nat) : World × List Op :=
  let world := world.touchSession s
  let session := world.sessions s
  match session.list with
  | [] => (world, [.unlockCleanup s])
  | head :: next =>
      (((world.touchExchange head).setExchange head
            { world.exchanges head with done := true }).setSession s
          { session with list := next },
        [.release .sessionList head, .releaseList s])

/-- The session's lock is taken or given back. -/
def setLocked (world : World) (s : Nat) (locked : Bool) : World :=
  (world.touchSession s).setSession s
    { world.sessions s with locked := locked }

/-! ## The worker's thread and Python -/

/-- What follows a lock that was not taken. -/
def failed : Purpose → Nat → List Op
  | .newContext, e => [.release .context e, .release .worker e]
  | .startResponse, _ => []

/-- What follows a lock that was taken. -/
def entered : Purpose → Nat → Op
  | .newContext, e => .makeContext e
  | .startResponse, e => .setResponse e

/--
`ymo_wsgi_ctx_update_environ` once it has the session's lock.  The lock is not
given back where it returns early.
-/
def ymoWsgiCtxUpdateEnviron (world : World) (allocated : Bool) (e : Nat) :
    World × List Op :=
  let world := world.touchExchange e
  if (world.exchanges e).done then (world, failed .newContext e)
  else if allocated then
    ({ world with contexts := world.contexts ++ [e] }, [.unlockContext e])
  else (world, failed .newContext e)

/-- `ymo_wsgi_worker_response_body_append`: the test for a closed session. -/
def ymoWsgiWorkerResponseBodyAppend (world : World) (e : Nat) (item : Bytes) :
    World × List Op :=
  let world := world.touch e
  if (world.sessions (world.owner e)).closed then
    ({ world with
        call := world.call.map fun call => { call with phase := .closing } },
      [.queueOut e none true])
  else (world, [.queueOut e (some item) false])

/-- `ymo_wsgi_worker_response_body_append`, from the lock on. -/
def ymoWsgiWorkerQueueOut (world : World) (e : Nat) (item : Option Bytes)
    (done : Bool) :
    World × List Op :=
  let counted := (world.touchSession (world.owner e)).ymoWsgiExchangeIncref e
  let exchange := counted.exchanges e
  let queued :=
    { counted.setExchange e
        { exchange with
          bodyData := exchange.bodyData ++ item.toList
          done := done } with
      queueOut := counted.queueOut ++ [e] }
  if done then
    ({ queued with
        call := queued.call.map fun call =>
          if call.exchange = e then { call with owes := false } else call },
      [.release .worker e])
  else (queued, [])

/-! ## Steps -/

/--
Perform an operation: what it does, and what the thread has to do next.  An
operation that has to wait for a lock does nothing.
-/
def perform (world : World) (allocated : Bool) :
    Op → Option (World × List Op)
  | .release _ e => some (world.ymoWsgiExchangeDecref e)
  | .sessionDecref s => some (world.ymoWsgiSessionDecref s, [])
  | .exchangeFree e => some (world.ymoWsgiExchangeFree e)
  | .returnItem s item => some (world.returnItem s item, [])
  | .createExchange s top => some (world.ymoWsgiServerHeaderCb s false top, [])
  | .popResponse => some world.ymoWsgiServerQueueResponse
  | .exchangeDone e => some (world.ymoWsgiSessionExchangeDone e)
  | .lockCleanup s =>
      if (world.sessions s).locked then none
      else some (world.setLocked s true, [.releaseList s])
  | .releaseList s => some (world.ymoWsgiSessionCleanupNext s)
  | .unlockCleanup s => some (world.setLocked s false, [.sessionDecref s])
  | .holdContext e =>
      some (world.ymoWsgiExchangeIncref e, [.checkClosed .newContext e])
  | .checkClosed purpose e =>
      let world := world.touch e
      some
        (world,
          if (world.sessions (world.owner e)).closed then failed purpose e
          else [.tryLock purpose e])
  | .tryLock purpose e =>
      let world := world.touchExchange e
      if (world.sessions (world.owner e)).locked then
        some (world.touchSession (world.owner e), failed purpose e)
      else some (world.setLocked (world.owner e) true, [entered purpose e])
  | .makeContext e => some (world.ymoWsgiCtxUpdateEnviron allocated e)
  | .unlockContext e =>
      let world := world.touchExchange e
      some (world.setLocked (world.owner e) false, [.issueRequest e])
  | .issueRequest e =>
      some
        ({ (world.touchExchange e).setExchange e
              { world.exchanges e with done := false } with
            call := some { exchange := e, phase := .calling, owes := true } },
          [])
  | .setResponse e =>
      let world := world.touchExchange e
      some (world.setLocked (world.owner e) false, [])
  | .bodyAppend e item => some (world.ymoWsgiWorkerResponseBodyAppend e item)
  | .queueOut e item done =>
      if world.lockOut then none
      else some (world.ymoWsgiWorkerQueueOut e item done)

end World

/-- The operation is about to use the context of an exchange. -/
def Op.usedBy : Op → Nat → Bool
  | .unlockContext e, other => e == other
  | .issueRequest e, other => e == other
  | .checkClosed .startResponse e, other => e == other
  | .tryLock .startResponse e, other => e == other
  | .setResponse e, other => e == other
  | .bodyAppend e _, other => e == other
  | .queueOut e _ _, other => e == other
  | _, _ => false

namespace World

/-- A thread begins something. -/
def begin (world : World) (thread : Thread) (ops : List Op) : World :=
  { world with ops := setOps world.ops thread ops }

/-- The context is in use by the worker or by a method that has begun. -/
def InUse (world : World) (e : Nat) : Prop :=
  (∃ call ∈ world.call, call.exchange = e) ∨
    ∃ thread, ∃ op ∈ world.ops thread, op.usedBy e = true

instance (world : World) (e : Nat) : Decidable (world.InUse e) :=
  inferInstanceAs (Decidable (_ ∨ _))

/-- A thread of Python code is free to call a method of a context. -/
def MayCall (world : World) (thread : Thread) (e : Nat) : Prop :=
  world.ops thread = [] ∧ e ∈ world.contexts ∧
    (thread = .python ∨ thread = .worker ∧ world.call ≠ none)

instance (world : World) (thread : Thread) (e : Nat) :
    Decidable (world.MayCall thread e) :=
  inferInstanceAs (Decidable (_ ∧ _))

/-- The worker waits for the application, in the given part of the request. -/
def Waits (world : World) (phase : Phase) : Prop :=
  world.ops .worker = [] ∧ ∃ call ∈ world.call, call.phase = phase

instance (world : World) (phase : Phase) : Decidable (world.Waits phase) :=
  inferInstanceAs (Decidable (_ ∧ _))

def setPhase (world : World) (phase : Phase) : World :=
  { world with
    call := world.call.map fun call => { call with phase := phase } }

end World

/-- What may happen next. -/
inductive Action where
  /-- A connection is accepted. -/
  | sessionInit
  | headerCb (session : Nat) (upgrade : Bool)
  | requestCb (session : Nat)
  /-- The HTTP session ends. -/
  | sessionCleanup (session : Nat)
  /-- A watcher of the event loop runs. -/
  | queueResponses
  /-- The worker takes the next request. -/
  | popRequest
  /-- The application calls `start_response`. -/
  | startResponse (thread : Thread) (exchange : Nat)
  /-- The application reads the body of the request. -/
  | read (thread : Thread) (exchange : Nat)
  /-- The application calls `write` with bytes. -/
  | write (thread : Thread) (exchange : Nat) (data : Bytes)
  /-- The application returns an iterator, or something else, or raises. -/
  | returned (iterator : Bool)
  /-- The iterator yields bytes. -/
  | yielded (item : Bytes)
  /-- The iterator is exhausted, or raises. -/
  | exhausted
  /-- The call of `close` has returned. -/
  | callEnd
  /-- The last reference to a context is dropped. -/
  | dropContext (thread : Thread) (exchange : Nat)
  /-- A thread goes on; the next allocation fails or not. -/
  | work (thread : Thread) (allocated : Bool)
deriving DecidableEq, Repr

namespace World

/-- The effect of an action.  One that is not possible has none. -/
def step (world : World) : Action → World
  | .sessionInit => world.ymoWsgiSessionInit
  | .headerCb s upgrade =>
      if world.ops .server = [] ∧ s < world.nextSession ∧
          (world.sessions s).closed = false ∧
            (world.sessions s).reading = none then
        if upgrade then world.ymoWsgiServerHeaderCb s true none
        else
          (world.touchSession s).begin .server
            [.createExchange s (world.sessions s).pool.top]
      else world
  | .requestCb s =>
      match (world.sessions s).reading with
      | none => world
      | some arrival =>
          if world.ops .server = [] ∧ (world.sessions s).closed = false then
            world.ymoWsgiServerRequestCb s arrival.response
          else world
  | .sessionCleanup s =>
      if world.ops .server = [] ∧ s < world.nextSession ∧
          (world.sessions s).closed = false then
        ((world.touchSession s).setSession s
          { world.sessions s with closed := true }).begin .server
            [.lockCleanup s]
      else world
  | .queueResponses =>
      if world.ops .server = [] then
        { world with lockOut := true }.begin .server [.popResponse]
      else world
  | .popRequest =>
      match world.queueIn with
      | [] => world
      | e :: rest =>
          if world.ops .worker = [] ∧ world.call = none then
            { world with queueIn := rest }.begin .worker [.holdContext e]
          else world
  | .startResponse thread e =>
      if world.MayCall thread e then
        world.begin thread [.checkClosed .startResponse e]
      else world
  | .read thread e =>
      if world.MayCall thread e then world.touchExchange e else world
  | .write thread e data =>
      if world.MayCall thread e then
        world.begin thread [.queueOut e (some data) true]
      else world
  | .returned iterator =>
      if world.Waits .calling then
        if iterator then world.setPhase .iterating
        else { world with call := none }
      else world
  | .yielded item =>
      match world.call with
      | none => world
      | some call =>
          if world.Waits .iterating then
            world.begin .worker [.bodyAppend call.exchange item]
          else world
  | .exhausted =>
      match world.call with
      | none => world
      | some call =>
          if world.Waits .iterating then
            (world.setPhase .closing).begin .worker
              [.queueOut call.exchange none true]
          else world
  | .callEnd =>
      if world.Waits .closing then { world with call := none } else world
  | .dropContext thread e =>
      if world.ops thread = [] ∧ thread ≠ .server ∧
          e ∈ world.contexts ∧ ¬world.InUse e then
        { world with contexts := world.contexts.erase e }.begin thread
          [.release .context e]
      else world
  | .work thread allocated =>
      match world.ops thread with
      | [] => world
      | op :: rest =>
          match world.perform allocated op with
          | none => world
          | some (after, new) => after.begin thread (new ++ rest)

end World

end Yimmo.Wsgi.Worker
