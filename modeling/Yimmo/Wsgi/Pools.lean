import Yimmo.Lib.LinkedList
import Yimmo.Wsgi.Release

/-!
# The free lists of WSGI exchanges

The items of a session's pool are linked from `pool.head` while they are free.  The
server's thread takes them and any thread puts them back, and neither locks the
list.  `Pooled` is what holds where no `head` is stored for a taken item while
another thread is about to store it for one that is put back: whatever is linked
from `head`, or from an item that is about to become the head, is a list that ends,
and the exchanges that its items were handed out for have been freed.
-/

namespace Yimmo.Wsgi.Pools

open Yimmo.Lib.LinkedList
open Yimmo.Lib.Threads
open Yimmo.Wsgi.Worker
open Yimmo.Wsgi.References
open Yimmo.Wsgi.Accounting
open Yimmo.Wsgi.Release

variable {new : List Op}

/-! ## The invariant -/

/-- No exchange has the item. -/
def Free (world : World) (s item : Nat) : Prop :=
  ∀ e ∈ (world.sessions s).pool.exchange item, 0 < (world.exchanges e).frees

/-- What is linked from here ends, and is free. -/
def Stored (world : World) (s : Nat) (head : Option Nat) : Prop :=
  ∃ items,
    Linked (world.sessions s).pool.next head items ∧
      ∀ item ∈ items, Free world s item

/-- The server's thread is in the middle of `ymo_wsgi_server_header_cb`. -/
structure Creating
    (world : World)
    (thread : Thread)
    (s : Nat)
    (top : Option (Nat × Option Nat)) :
    Prop where
  server : thread = .server
  ops : world.ops .server = [.createExchange s top]
  below : s < world.nextSession
  opened : (world.sessions s).closed = false
  unread : (world.sessions s).reading = none
  stored :
    ∀ item next, top = some (item, next) →
      (world.sessions s).pool.next item = next ∧ Stored world s (some item)

structure Pooled (world : World) : Prop where
  stored : ∀ s, Stored world s (world.sessions s).pool.head
  known :
    ∀ s item, ∀ e ∈ (world.sessions s).pool.exchange item,
      e < world.nextExchange
  handedOut :
    ∀ e, e < world.nextExchange → (world.exchanges e).frees = 0 →
      (world.exchanges e).noPool = false →
        (world.sessions (world.owner e)).pool.exchange
          (world.exchanges e).item = some e
  returning :
    ∀ thread s item, .returnItem s item ∈ world.ops thread →
      s < world.nextSession ∧ (world.sessions s).frees = 0 ∧
        Stored world s (some item)
  creating :
    ∀ thread s top, .createExchange s top ∈ world.ops thread →
      Creating world thread s top

theorem pooled_initial : Pooled World.initial where
  stored _ := ⟨[], .nil, fun _ member => by cases member⟩
  known _ _ _ same := by cases same
  handedOut _ below := by cases below
  returning _ _ _ member := by cases member
  creating _ _ _ member := by cases member

/-! ## Steps that keep what is free -/

/-- The operation is one of the two that store `pool.head`. -/
def storesHead : Op → Bool
  | .returnItem _ _ => true
  | .createExchange _ _ => true
  | _ => false

/-- Free items stay free and linked as they are. -/
structure Moves (world after : World) : Prop where
  nextExchange : after.nextExchange = world.nextExchange
  nextSession : world.nextSession ≤ after.nextSession
  owner : ∀ e, after.owner e = world.owner e
  noPool : ∀ e, (after.exchanges e).noPool = (world.exchanges e).noPool
  item : ∀ e, (after.exchanges e).item = (world.exchanges e).item
  exchangeFrees : ∀ e, (world.exchanges e).frees ≤ (after.exchanges e).frees
  next :
    ∀ s item, Free world s item →
      (after.sessions s).pool.next item = (world.sessions s).pool.next item
  exchange :
    ∀ s, (after.sessions s).pool.exchange = (world.sessions s).pool.exchange

section Moves

variable {world after : World}

theorem Moves.free (moves : Moves world after) {s item : Nat}
    (free : Free world s item) :
    Free after s item := by
  intro e same
  rw [moves.exchange] at same
  exact Nat.lt_of_lt_of_le (free e same) (moves.exchangeFrees e)

theorem Moves.stored (moves : Moves world after) {s : Nat} {head : Option Nat}
    (stored : Stored world s head) :
    Stored after s head := by
  rcases stored with ⟨items, linked, free⟩
  exact
    ⟨items,
      linked.congr fun item member => moves.next s item (free item member),
      fun item member => moves.free (free item member)⟩

/-- The invariant only depends on what is free, and on what is pending. -/
theorem Pooled.moves
    (pooled : Pooled world)
    (moves : Moves world after)
    (heads : ∀ s, Stored after s (after.sessions s).pool.head)
    (returning :
      ∀ thread s item, .returnItem s item ∈ after.ops thread →
        s < after.nextSession ∧ (after.sessions s).frees = 0 ∧
          Stored after s (some item))
    (creating :
      ∀ thread s top, .createExchange s top ∈ after.ops thread →
        .createExchange s top ∈ world.ops thread ∧
          (thread = .server →
            after.ops .server = world.ops .server ∧
              (after.sessions s).closed = (world.sessions s).closed ∧
                (after.sessions s).reading = (world.sessions s).reading)) :
    Pooled after := by
  constructor
  case stored => exact heads
  case known =>
    intro s item e same
    rw [moves.exchange] at same
    rw [moves.nextExchange]
    exact pooled.known s item e same
  case handedOut =>
    intro e below free pool
    have more := moves.exchangeFrees e
    rw [moves.nextExchange] at below
    rw [moves.noPool] at pool
    rw [moves.owner, moves.exchange, moves.item]
    exact pooled.handedOut e below (by omega) pool
  case returning => exact returning
  case creating =>
    intro thread s top member
    have before := creating thread s top member
    have was := pooled.creating thread s top before.1
    have same := before.2 was.server
    constructor
    case server => exact was.server
    case ops =>
      rw [same.1]
      exact was.ops
    case below => exact Nat.lt_of_lt_of_le was.below moves.nextSession
    case opened =>
      rw [same.2.1]
      exact was.opened
    case unread =>
      rw [same.2.2]
      exact was.unread
    case stored =>
      intro item next taken
      have link := was.stored item next taken
      rcases link.2 with ⟨items, linked, free⟩
      rcases linked.of_some with ⟨rest, rfl, -⟩
      rw [moves.next s item (free item List.mem_cons_self)]
      exact ⟨link.1, moves.stored link.2⟩

end Moves

/-! ## Steps that leave the pools alone -/

/-- What the pools know of an exchange. -/
def placeOf (exchange : Exchange) : Nat × Bool × Nat × Nat :=
  (exchange.session, exchange.noPool, exchange.item, exchange.frees)

/-- Nothing changes in the pools. -/
structure Leaves (world after : World) : Prop where
  nextExchange : after.nextExchange = world.nextExchange
  nextSession : world.nextSession ≤ after.nextSession
  place : ∀ e, placeOf (after.exchanges e) = placeOf (world.exchanges e)
  pool : ∀ s, (after.sessions s).pool = (world.sessions s).pool

/-- Nor in the state of a session, nor in what is pending. -/
structure Quiet (world after : World) : Prop extends Leaves world after where
  ops : after.ops = world.ops
  closed : ∀ s, (after.sessions s).closed = (world.sessions s).closed
  reading : ∀ s, (after.sessions s).reading = (world.sessions s).reading
  frees : ∀ s, (after.sessions s).frees = (world.sessions s).frees

section Leaves

variable {world after : World}

theorem Leaves.moves (leaves : Leaves world after) : Moves world after where
  nextExchange := leaves.nextExchange
  nextSession := leaves.nextSession
  owner e := congrArg Prod.fst (leaves.place e)
  noPool e := congrArg (fun place => place.2.1) (leaves.place e)
  item e := congrArg (fun place => place.2.2.1) (leaves.place e)
  exchangeFrees e :=
    Nat.le_of_eq (congrArg (fun place => place.2.2.2) (leaves.place e)).symm
  next s item _ := by rw [leaves.pool]
  exchange s := by rw [leaves.pool]

theorem Leaves.stored (leaves : Leaves world after) (pooled : Pooled world)
    (s : Nat) :
    Stored after s (after.sessions s).pool.head := by
  rw [leaves.pool]
  exact leaves.moves.stored (pooled.stored s)

theorem Quiet.refl (world : World) : Quiet world world :=
  ⟨⟨rfl, Nat.le_refl _, fun _ => rfl, fun _ => rfl⟩, rfl, fun _ => rfl,
    fun _ => rfl, fun _ => rfl⟩

theorem Quiet.trans {first second third : World} (front : Quiet first second)
    (back : Quiet second third) :
    Quiet first third where
  nextExchange := back.nextExchange.trans front.nextExchange
  nextSession := front.nextSession.trans back.nextSession
  place e := (back.place e).trans (front.place e)
  pool s := (back.pool s).trans (front.pool s)
  ops := back.ops.trans front.ops
  closed s := (back.closed s).trans (front.closed s)
  reading s := (back.reading s).trans (front.reading s)
  frees s := (back.frees s).trans (front.frees s)

/-- The pools are in the sessions and the exchanges. -/
theorem Quiet.of_world (exchanges : after.exchanges = world.exchanges)
    (sessions : after.sessions = world.sessions)
    (nextExchange : after.nextExchange = world.nextExchange)
    (nextSession : after.nextSession = world.nextSession)
    (ops : after.ops = world.ops) :
    Quiet world after where
  nextExchange := nextExchange
  nextSession := Nat.le_of_eq nextSession.symm
  place e := by rw [exchanges]
  pool s := by rw [sessions]
  ops := ops
  closed s := by rw [sessions]
  reading s := by rw [sessions]
  frees s := by rw [sessions]

theorem Quiet.setExchange (world : World) {e : Nat} {exchange : Exchange}
    (same : placeOf exchange = placeOf (world.exchanges e)) :
    Quiet world (world.setExchange e exchange) where
  nextExchange := rfl
  nextSession := Nat.le_refl _
  place := part_setExchange placeOf same
  pool _ := rfl
  ops := rfl
  closed _ := rfl
  reading _ := rfl
  frees _ := rfl

theorem Quiet.of_exchange (e : Nat) {exchange : Exchange}
    (exchanges : after.exchanges = (world.setExchange e exchange).exchanges)
    (sessions : after.sessions = world.sessions)
    (nextExchange : after.nextExchange = world.nextExchange)
    (nextSession : after.nextSession = world.nextSession)
    (ops : after.ops = world.ops)
    (same : placeOf exchange = placeOf (world.exchanges e)) :
    Quiet world after :=
  (Quiet.setExchange world same).trans
    (Quiet.of_world exchanges sessions nextExchange nextSession ops)

theorem Quiet.setSession (world : World) {s : Nat} {session : Session}
    (pool : session.pool = (world.sessions s).pool)
    (closed : session.closed = (world.sessions s).closed)
    (reading : session.reading = (world.sessions s).reading)
    (frees : session.frees = (world.sessions s).frees) :
    Quiet world (world.setSession s session) :=
  ⟨⟨rfl, Nat.le_refl _, fun _ => rfl, part_setSession Session.pool pool⟩,
    rfl, part_setSession Session.closed closed,
    part_setSession Session.reading reading,
    part_setSession Session.frees frees⟩

theorem Quiet.touchExchange (world : World) (e : Nat) :
    Quiet world (world.touchExchange e) := by
  unfold World.touchExchange
  split_ifs
  · exact Quiet.of_world rfl rfl rfl rfl rfl
  · exact Quiet.refl world

theorem Quiet.touchSession (world : World) (s : Nat) :
    Quiet world (world.touchSession s) := by
  unfold World.touchSession
  split_ifs
  · exact Quiet.of_world rfl rfl rfl rfl rfl
  · exact Quiet.refl world

theorem Quiet.touch (world : World) (e : Nat) : Quiet world (world.touch e) :=
  (Quiet.touchExchange world e).trans (Quiet.touchSession _ _)

theorem touchExchange_exchanges (world : World) (e : Nat) :
    (world.touchExchange e).exchanges = world.exchanges := by
  unfold World.touchExchange
  split_ifs <;> rfl

theorem touchExchange_sessions (world : World) (e : Nat) :
    (world.touchExchange e).sessions = world.sessions := by
  unfold World.touchExchange
  split_ifs <;> rfl

theorem touchSession_sessions (world : World) (s : Nat) :
    (world.touchSession s).sessions = world.sessions := by
  unfold World.touchSession
  split_ifs <;> rfl

/-- An access to an exchange, and a change to what the pools do not know of it. -/
theorem Quiet.touchSet (world : World) {touched e : Nat} {exchange : Exchange}
    (same : placeOf exchange = placeOf (world.exchanges e)) :
    Quiet world ((world.touchExchange touched).setExchange e exchange) := by
  apply (Quiet.touchExchange world touched).trans
  apply Quiet.setExchange
  rw [touchExchange_exchanges]
  exact same

theorem Quiet.setLocked (world : World) (s : Nat) (locked : Bool) :
    Quiet world (world.setLocked s locked) := by
  apply (Quiet.touchSession world s).trans
  apply Quiet.setSession
  all_goals rw [touchSession_sessions]

theorem Quiet.incref (world : World) (e : Nat) :
    Quiet world (world.ymoWsgiExchangeIncref e) :=
  Quiet.touchSet world rfl

end Leaves

/-! ## Operations -/

section Operations

variable
    {world : World}
    {thread : Thread}
    {op : Op}
    {rest : List Op}

/-- The operations that leave the pools and the sessions alone. -/
def quiet : Op → Bool
  | .sessionDecref _ => false
  | .exchangeFree _ => false
  | .returnItem _ _ => false
  | .createExchange _ _ => false
  | _ => true

theorem quiet_popResponse (world : World) :
    Quiet world world.ymoWsgiServerQueueResponse.1 ∧
      ∀ next ∈ world.ymoWsgiServerQueueResponse.2,
        storesHead next = false := by
  unfold World.ymoWsgiServerQueueResponse
  split
  · exact ⟨Quiet.of_world rfl rfl rfl rfl rfl, fun _ member => by cases member⟩
  · rename_i e rest _
    have touched : Quiet world { world.touch e with queueOut := rest } :=
      (Quiet.touch world e).trans (Quiet.of_world rfl rfl rfl rfl rfl)
    dsimp only
    split_ifs
    · exact ⟨touched, by simp [storesHead]⟩
    · exact ⟨touched.trans (Quiet.setExchange _ rfl), by simp [storesHead]⟩
    · exact
        ⟨touched.trans (Quiet.of_exchange e rfl rfl rfl rfl rfl rfl),
          by simp [storesHead]⟩
    · exact
        ⟨touched.trans (Quiet.of_exchange e rfl rfl rfl rfl rfl rfl),
          by simp [storesHead]⟩

theorem quiet_failed (purpose : Purpose) (e : Nat) :
    ∀ next ∈ World.failed purpose e, storesHead next = false := by
  cases purpose <;> simp [World.failed, storesHead]

theorem quiet_exchangeDone (world : World) (e : Nat) :
    Quiet world (world.ymoWsgiSessionExchangeDone e).1 ∧
      ∀ next ∈ (world.ymoWsgiSessionExchangeDone e).2,
        storesHead next = false := by
  have touched := Quiet.touch world e
  unfold World.ymoWsgiSessionExchangeDone
  dsimp only
  split
  · exact ⟨touched, by simp [storesHead]⟩
  · rename_i head next _
    refine ⟨touched.trans ?_, by simp [storesHead]⟩
    apply (Quiet.touchExchange _ head).trans
    apply Quiet.setSession
    all_goals rw [touchExchange_sessions]

theorem quiet_releaseList (world : World) (s : Nat) :
    Quiet world (world.ymoWsgiSessionCleanupNext s).1 ∧
      ∀ next ∈ (world.ymoWsgiSessionCleanupNext s).2,
        storesHead next = false := by
  have touched := Quiet.touchSession world s
  unfold World.ymoWsgiSessionCleanupNext
  dsimp only
  split
  · exact ⟨touched, by simp [storesHead]⟩
  · rename_i head next _
    refine ⟨touched.trans ?_, by simp [storesHead]⟩
    have marked :
        Quiet (world.touchSession s)
          (((world.touchSession s).touchExchange head).setExchange head
            { (world.touchSession s).exchanges head with done := true }) :=
      Quiet.touchSet _ rfl
    apply marked.trans
    apply Quiet.setSession
    all_goals simp only [World.setExchange, touchExchange_sessions]

/-- Such operations leave the pools alone, and so does what follows them. -/
theorem perform_quiet {allocated : Bool} {result : World × List Op}
    (performed : world.perform allocated op = some result)
    (still : quiet op = true) :
    Quiet world result.1 ∧ ∀ next ∈ result.2, storesHead next = false := by
  cases op with
  | release holder e =>
      cases performed
      refine ⟨Quiet.touchSet world rfl, ?_⟩
      unfold World.ymoWsgiExchangeDecref
      dsimp only
      split_ifs <;> simp [storesHead]
  | sessionDecref s => cases still
  | exchangeFree e => cases still
  | returnItem s item => cases still
  | createExchange s top => cases still
  | popResponse =>
      cases performed
      exact quiet_popResponse world
  | exchangeDone e =>
      cases performed
      exact quiet_exchangeDone world e
  | lockCleanup s =>
      simp only [World.perform] at performed
      split_ifs at performed
      cases performed
      exact ⟨Quiet.setLocked world s true, by simp [storesHead]⟩
  | releaseList s =>
      cases performed
      exact quiet_releaseList world s
  | unlockCleanup s =>
      cases performed
      exact ⟨Quiet.setLocked world s false, by simp [storesHead]⟩
  | holdContext e =>
      cases performed
      exact ⟨Quiet.incref world e, by simp [storesHead]⟩
  | checkClosed purpose e =>
      cases performed
      refine ⟨Quiet.touch world e, ?_⟩
      dsimp only
      split_ifs
      · exact quiet_failed purpose e
      · simp [storesHead]
  | tryLock purpose e =>
      simp only [World.perform] at performed
      split_ifs at performed
      · cases performed
        exact
          ⟨(Quiet.touchExchange world e).trans (Quiet.touchSession _ _),
            quiet_failed purpose e⟩
      · cases performed
        refine
          ⟨(Quiet.touchExchange world e).trans (Quiet.setLocked _ _ true),
            ?_⟩
        cases purpose <;> simp [World.entered, storesHead]
  | makeContext e =>
      cases performed
      have touched := Quiet.touchExchange world e
      unfold World.ymoWsgiCtxUpdateEnviron
      dsimp only
      split_ifs
      · exact ⟨touched, quiet_failed .newContext e⟩
      · exact
          ⟨touched.trans (Quiet.of_world rfl rfl rfl rfl rfl),
            by simp [storesHead]⟩
      · exact ⟨touched, quiet_failed .newContext e⟩
  | unlockContext e =>
      cases performed
      exact
        ⟨(Quiet.touchExchange world e).trans (Quiet.setLocked _ _ false),
          by simp [storesHead]⟩
  | issueRequest e =>
      cases performed
      have marked :
          Quiet world
            ((world.touchExchange e).setExchange e
              { world.exchanges e with done := false }) :=
        Quiet.touchSet world rfl
      exact
        ⟨marked.trans (Quiet.of_world rfl rfl rfl rfl rfl),
          fun _ member => by cases member⟩
  | setResponse e =>
      cases performed
      exact
        ⟨(Quiet.touchExchange world e).trans (Quiet.setLocked _ _ false),
          fun _ member => by cases member⟩
  | bodyAppend e item =>
      cases performed
      have touched := Quiet.touch world e
      unfold World.ymoWsgiWorkerResponseBodyAppend
      dsimp only
      split_ifs
      · exact
          ⟨touched.trans (Quiet.of_world rfl rfl rfl rfl rfl),
            by simp [storesHead]⟩
      · exact ⟨touched, by simp [storesHead]⟩
  | queueOut e item done =>
      simp only [World.perform] at performed
      split_ifs at performed
      cases performed
      have counted :=
        (Quiet.touchSession world (world.owner e)).trans (Quiet.incref _ e)
      unfold World.ymoWsgiWorkerQueueOut
      dsimp only
      split_ifs
      · exact
          ⟨counted.trans (Quiet.of_exchange e rfl rfl rfl rfl rfl rfl),
            by simp [storesHead]⟩
      · exact
          ⟨counted.trans (Quiet.of_exchange e rfl rfl rfl rfl rfl rfl),
            fun _ member => by cases member⟩

/-- What is pending after an operation was before, or follows it. -/
theorem mem_begin {after : World} (ops : after.ops = world.ops)
    (pending : world.ops thread = op :: rest)
    {other : Thread}
    {next : Op}
    (member : next ∈ (after.begin thread (new ++ rest)).ops other) :
    next ∈ new ∨ next ∈ world.ops other ∧ (other = thread → next ∈ rest) := by
  have inside : next ∈ setOps world.ops thread (new ++ rest) other := by
    rw [← ops]
    exact member
  by_cases here : other = thread
  · rw [here, setOps_same] at inside
    rcases List.mem_append.mp inside with fresh | old
    · exact Or.inl fresh
    · rw [here, pending]
      exact Or.inr ⟨List.mem_cons_of_mem _ old, fun _ => old⟩
  · rw [setOps_other _ _ here] at inside
    exact Or.inr ⟨inside, fun same => absurd same here⟩

/-- Nothing else is pending on the server's thread while a request begins. -/
theorem Pooled.elsewhere
    (pooled : Pooled world)
    (pending : world.ops thread = op :: rest)
    {other : Thread}
    {s : Nat}
    {top : Option (Nat × Option Nat)}
    (member : .createExchange s top ∈ world.ops other)
    (behind : other = thread → .createExchange s top ∈ rest) :
    other ≠ thread := by
  intro here
  have alone := pooled.creating other s top member
  have later := behind here
  have ops := alone.ops
  rw [← alone.server, here, pending, List.cons.injEq] at ops
  rw [ops.2] at later
  cases later

theorem not_noReturn {s item : Nat}
    (member : .returnItem s item ∈ world.ops thread) :
    ¬NoReturn world s := by
  intro none
  have returns := none thread _ member
  simp only [endsReturn, beq_self_eq_true] at returns
  cases returns

/-- A step of a thread that keeps what is free. -/
theorem Pooled.goOn
    (pooled : Pooled world)
    {after : World}
    (pending : world.ops thread = op :: rest)
    (moves : Moves world after)
    (heads : ∀ s, Stored after s (after.sessions s).pool.head)
    (ops : after.ops = world.ops)
    (returned :
      ∀ next ∈ new, storesHead next = true →
        ∃ s item, next = .returnItem s item ∧ s < after.nextSession ∧
          (after.sessions s).frees = 0 ∧ Stored after s (some item))
    (kept :
      ∀ s, ¬NoReturn world s →
        (world.sessions s).frees = 0 → (after.sessions s).frees = 0)
    (closed : ∀ s, (after.sessions s).closed = (world.sessions s).closed)
    (reading : ∀ s, (after.sessions s).reading = (world.sessions s).reading) :
    Pooled (after.begin thread (new ++ rest)) := by
  have moved : Moves world (after.begin thread (new ++ rest)) :=
    ⟨moves.nextExchange, moves.nextSession, moves.owner, moves.noPool,
      moves.item, moves.exchangeFrees, moves.next, moves.exchange⟩
  apply pooled.moves moved heads
  case returning =>
    intro other s item member
    rcases mem_begin ops pending member with fresh | ⟨old, -⟩
    · rcases returned _ fresh rfl with ⟨_, _, same, holds⟩
      cases same
      exact holds
    · have before := pooled.returning other s item old
      exact
        ⟨Nat.lt_of_lt_of_le before.1 moves.nextSession,
          kept s (not_noReturn old) before.2.1, moved.stored before.2.2⟩
  case creating =>
    intro other s top member
    rcases mem_begin ops pending member with fresh | ⟨old, behind⟩
    · rcases returned _ fresh rfl with ⟨_, _, same, -⟩
      cases same
    · refine ⟨old, ?_⟩
      intro server
      have apart := pooled.elsewhere pending old behind
      refine ⟨?_, closed s, reading s⟩
      show setOps after.ops thread _ .server = _
      rw [server] at apart
      rw [setOps_other _ _ apart, ops]

/-- A step of a thread that changes neither pools nor sessions. -/
theorem Pooled.quiet (pooled : Pooled world) {after : World}
    (pending : world.ops thread = op :: rest)
    (quiet : Quiet world after)
    (plain : ∀ next ∈ new, storesHead next = false) :
    Pooled (after.begin thread (new ++ rest)) := by
  apply pooled.goOn pending quiet.moves (quiet.stored pooled) quiet.ops
  case returned =>
    intro next member stores
    rw [plain next member] at stores
    cases stores
  case kept => exact fun s _ free => (quiet.frees s).trans free
  case closed => exact quiet.closed
  case reading => exact quiet.reading

/-- `ymo_wsgi_session_decref`. -/
theorem pooled_sessionDecref (pooled : Pooled world)
    (accounts : Accounts world)
    {s : Nat}
    (pending : world.ops thread = .sessionDecref s :: rest)
    (guarded : OpGuard world true (.sessionDecref s)) :
    Pooled ((world.ymoWsgiSessionDecref s).begin thread ([] ++ rest)) := by
  have member := mem_pending pending
  have present := accounts.ofSessionOp member (if_pos rfl)
  unfold World.ymoWsgiSessionDecref
  rw [touchSession_eq present.2]
  dsimp only
  generalize made :
      ({ world.sessions s with
        refcnt := (world.sessions s).refcnt - 1
        frees :=
          if (world.sessions s).refcnt - 1 = 0 then
            (world.sessions s).frees + 1
          else (world.sessions s).frees } : Session) = session
  have leaves : Leaves world (world.setSession s session) :=
    ⟨rfl, Nat.le_refl _, fun _ => rfl,
      part_setSession Session.pool (by rw [← made])⟩
  apply pooled.goOn pending leaves.moves (leaves.stored pooled) rfl
  case returned =>
    intro next member
    cases member
  case kept =>
    intro other returns free
    show (if other = s then session else world.sessions other).frees = 0
    by_cases here : other = s
    · rw [here] at returns free
      rw [if_pos here, ← made]
      show (if (world.sessions s).refcnt - 1 = 0 then _ else _) = 0
      rw [if_neg]
      · exact free
      · intro last
        have single : (world.sessions s).refcnt = 1 := by
          rw [← BitVec.sub_add_cancel (world.sessions s).refcnt 1, last]
          rfl
        apply returns
        intro any op inside
        have spared := guarded single any op inside
        rw [← Bool.not_eq_true]
        intro ends
        apply spared
        cases op with
        | returnItem other item => exact beq_iff_eq.mp ends
        | _ => cases ends
    · rw [if_neg here]
      exact free
  case closed => exact part_setSession Session.closed (by rw [← made])
  case reading => exact part_setSession Session.reading (by rw [← made])

/-- An exchange of the pool has been freed, and its item linked to the head. -/
def linked (world : World) (e : Nat) : World :=
  (world.setExchange e
      { world.exchanges e with
        frees := (world.exchanges e).frees + 1 }).setSession
    (world.owner e)
    { world.sessions (world.owner e) with
      pool :=
        (world.sessions (world.owner e)).pool.link (world.exchanges e).item }

section Freed

variable {e : Nat}

theorem frees_freed (other : Nat) :
    (world.exchanges other).frees ≤
      ((world.setExchange e
        { world.exchanges e with
          frees := (world.exchanges e).frees + 1 }).exchanges
            other).frees := by
  show _ ≤ (if other = e then _ else world.exchanges other).frees
  by_cases here : other = e
  · rw [if_pos here, here]
    exact Nat.le_succ _
  · rw [if_neg here]

theorem moves_freed :
    Moves world
      (world.setExchange e
        { world.exchanges e with
          frees := (world.exchanges e).frees + 1 }) where
  nextExchange := rfl
  nextSession := Nat.le_refl _
  owner := part_setExchange Exchange.session rfl
  noPool := part_setExchange Exchange.noPool rfl
  item := part_setExchange Exchange.item rfl
  exchangeFrees := frees_freed
  next _ _ _ := rfl
  exchange _ := rfl

/-- The item of an exchange that has not been freed is not free. -/
theorem moves_linked
    (has :
      (world.sessions (world.owner e)).pool.exchange
        (world.exchanges e).item = some e)
    (kept : (world.exchanges e).frees = 0) :
    Moves world (linked world e) where
  nextExchange := rfl
  nextSession := Nat.le_refl _
  owner := part_setExchange Exchange.session rfl
  noPool := part_setExchange Exchange.noPool rfl
  item := part_setExchange Exchange.item rfl
  exchangeFrees := frees_freed
  next s item free := by
    show (if s = world.owner e then _ else world.sessions s).pool.next item = _
    by_cases here : s = world.owner e
    · rw [if_pos here, here]
      apply Function.update_of_ne
      intro same
      rw [here, same] at free
      have freed := free e has
      omega
    · rw [if_neg here]
  exchange := part_setSession (fun session => session.pool.exchange) rfl

end Freed

/-- The first half of `ymo_wsgi_exchange_free` links the item to the head. -/
theorem pooled_exchangeFree (pooled : Pooled world) (accounts : Accounts world)
    {e : Nat}
    (pending : world.ops thread = .exchangeFree e :: rest) :
    Pooled
      ((world.ymoWsgiExchangeFree e).1.begin thread
        ((world.ymoWsgiExchangeFree e).2 ++ rest)) := by
  rcases freeing accounts pending with ⟨below, kept, alive, touched⟩
  unfold World.ymoWsgiExchangeFree
  simp only [touched]
  by_cases pool : (world.exchanges e).noPool = true
  · rw [if_pos pool]
    have moves : Moves world _ := moves_freed (e := e)
    apply pooled.goOn pending moves
    case heads => exact fun s => moves.stored (pooled.stored s)
    case ops => rfl
    case returned =>
      intro next member
      cases member
    case kept => exact fun _ _ free => free
    case closed => exact fun _ => rfl
    case reading => exact fun _ => rfl
  · rw [if_neg pool]
    rw [Bool.not_eq_true] at pool
    have has := pooled.handedOut e below kept pool
    have moves := moves_linked has kept
    have heads (s : Nat) :
        Stored (linked world e) s ((linked world e).sessions s).pool.head := by
      have head :
          ((linked world e).sessions s).pool.head =
            (world.sessions s).pool.head :=
        part_setSession (fun session => session.pool.head) (by rfl) s
      rw [head]
      exact moves.stored (pooled.stored s)
    have frees (s : Nat) :
        ((linked world e).sessions s).frees = (world.sessions s).frees :=
      part_setSession Session.frees (by rfl) s
    apply pooled.goOn pending moves heads
    case ops => rfl
    case returned =>
      intro next member _
      refine
        ⟨world.owner e, (world.exchanges e).item,
          List.mem_singleton.mp member, ?_, ?_, ?_⟩
      · exact accounts.owner e below
      · exact (frees _).trans (alive pool)
      · rcases moves.stored (pooled.stored (world.owner e))
          with ⟨items, chain, free⟩
        have head :
            ((linked world e).sessions (world.owner e)).pool.next
                (world.exchanges e).item =
              (world.sessions (world.owner e)).pool.head := by
          show (if world.owner e = world.owner e then _
            else world.sessions _).pool.next _ = _
          rw [if_pos rfl]
          exact Function.update_self _ _ _
        refine ⟨(world.exchanges e).item :: items, ?_, ?_⟩
        · apply Linked.cons
          rw [head]
          exact chain
        · intro item inside
          rcases List.mem_cons.mp inside with rfl | behind
          · intro other same
            rw [moves.exchange, has] at same
            cases same
            show 0 < (if e = e then _ else world.exchanges e).frees
            rw [if_pos rfl]
            exact Nat.succ_pos _
          · exact free item behind
    case kept => exact fun s _ free => (frees s).trans free
    case closed => exact part_setSession Session.closed rfl
    case reading => exact part_setSession Session.reading rfl

/-- Its second half makes the item the head. -/
theorem pooled_returnItem (pooled : Pooled world) {s item : Nat}
    (pending : world.ops thread = .returnItem s item :: rest) :
    Pooled ((world.returnItem s item).begin thread ([] ++ rest)) := by
  have member := mem_pending pending
  rcases pooled.returning thread s item member with ⟨-, kept, stored⟩
  have made :
      world.returnItem s item =
        world.setSession s
          { world.sessions s with
            pool := { (world.sessions s).pool with head := some item } } := by
    unfold World.returnItem
    rw [touchSession_eq kept]
  rw [made]
  have moves :
      Moves world
        (world.setSession s
          { world.sessions s with
            pool := { (world.sessions s).pool with head := some item } }) :=
    ⟨rfl, Nat.le_refl _, fun _ => rfl, fun _ => rfl, fun _ => rfl,
      fun _ => Nat.le_refl _,
      fun other free _ =>
        congrFun
          (part_setSession (fun session => session.pool.next) (by rfl) other)
          free,
      part_setSession (fun session => session.pool.exchange) rfl⟩
  apply pooled.goOn pending moves
  case heads =>
    intro other
    by_cases here : other = s
    · rw [here]
      show Stored _ s (if s = s then _ else world.sessions s).pool.head
      rw [if_pos rfl]
      exact moves.stored stored
    · show Stored _ other
        (if other = s then _ else world.sessions other).pool.head
      rw [if_neg here]
      exact moves.stored (pooled.stored other)
  case ops => rfl
  case returned =>
    intro next inside
    cases inside
  case kept =>
    intro other _ free
    exact (part_setSession Session.frees (by rfl) other).trans free
  case closed => exact part_setSession Session.closed rfl
  case reading => exact part_setSession Session.reading rfl

end Operations

/-! ## A request begins -/

section Creation

variable
    {world : World}
    {s : Nat}
    {top : Option (Nat × Option Nat)}

theorem ymoWsgiExchangeIncref_eq {e : Nat}
    (kept : (world.exchanges e).frees = 0)
    (sessionKept : (world.sessions (world.owner e)).frees = 0) :
    world.ymoWsgiExchangeIncref e =
      world.setExchange e
        { world.exchanges e with
          refcnt := (world.exchanges e).refcnt + 1 } := by
  unfold World.ymoWsgiExchangeIncref
  rw [touchExchange_eq kept sessionKept]

/-- A free item is handed out without a fault. -/
theorem touchItem_eq
    (free : ∀ item next, top = some (item, next) → Free world s item) :
    world.touchItem s top = world := by
  unfold World.touchItem
  split
  · rfl
  · rename_i e found
    rcases top with _ | ⟨item, next⟩
    · cases found
    · have freed := free item next rfl e found
      exact if_neg (Nat.ne_of_gt freed)

theorem Creating.free {thread : Thread}
    (creating : Creating world thread s top)
    (item : Nat)
    (next : Option Nat)
    (taken : top = some (item, next)) :
    Free world s item := by
  rcases (creating.stored item next taken).2 with ⟨items, linked, free⟩
  rcases linked.of_some with ⟨rest, rfl, -⟩
  exact free item List.mem_cons_self

/-- A session that has not been closed has not been freed. -/
theorem present_opened (accounts : Accounts world)
    (below : s < world.nextSession)
    (opened : (world.sessions s).closed = false) :
    (world.sessions s).frees = 0 := by
  apply accounts.ofSession _ below
  unfold ownRef
  rw [opened]
  exact Nat.lt_of_lt_of_le Nat.one_pos (Nat.le_add_right _ _)

/-- What `ymo_wsgi_server_header_cb` creates, with both its references. -/
theorem creation_eq (present : (world.sessions s).frees = 0)
    (free : ∀ item next, top = some (item, next) → Free world s item) :
    (world.ymoWsgiSessionCreateExchange s world.nextResponse
        top).ymoWsgiExchangeIncref world.nextExchange =
      created world s
        { Exchange.blank with
          session := s
          response := world.nextResponse
          noPool := top.isNone
          item := (top.map Prod.fst).getD 0
          refcnt := 1 + 1 }
        { world.sessions s with
          refcnt := (world.sessions s).refcnt + 1
          pool := (world.sessions s).pool.take top world.nextExchange
          list := (world.sessions s).list ++ [world.nextExchange] } := by
  have made :
      world.ymoWsgiSessionCreateExchange s world.nextResponse top =
        created world s
          { Exchange.blank with
            session := s
            response := world.nextResponse
            noPool := top.isNone
            item := (top.map Prod.fst).getD 0
            refcnt := 1 }
          { world.sessions s with
            refcnt := (world.sessions s).refcnt + 1
            pool := (world.sessions s).pool.take top world.nextExchange
            list := (world.sessions s).list ++ [world.nextExchange] } := by
    unfold World.ymoWsgiSessionCreateExchange
    rw [touchSession_eq present, touchItem_eq free]
    rfl
  rw [made, ymoWsgiExchangeIncref_eq, created_exchange, created_setExchange]
  · rw [created_exchange]
    rfl
  · unfold World.owner
    rw [created_exchange, created_session]
    exact present

/-- The world after `ymo_wsgi_server_header_cb`, with the exchange it created. -/
theorem headerCb_eq {made : World}
    (same :
      (world.ymoWsgiSessionCreateExchange s world.nextResponse
        top).ymoWsgiExchangeIncref world.nextExchange = made) :
    world.ymoWsgiServerHeaderCb s false top =
      { made.setSession s
          { made.sessions s with
            reading :=
              some
                { response := world.nextResponse
                  exchange := some world.nextExchange } } with
        nextResponse := world.nextResponse + 1 } := by
  rw [← same]
  rfl

/-- It does not depend on what is pending. -/
theorem headerCb_begin (present : (world.sessions s).frees = 0)
    (free : ∀ item next, top = some (item, next) → Free world s item)
    (thread : Thread)
    (ops : List Op) :
    (world.begin thread ops).ymoWsgiServerHeaderCb s false top =
      (world.ymoWsgiServerHeaderCb s false top).begin thread ops := by
  have later : ((world.begin thread ops).sessions s).frees = 0 := present
  rw [headerCb_eq (creation_eq present free),
    headerCb_eq (creation_eq later free)]
  rfl

/-- What the pools see of it. -/
structure Begun
    (world after : World)
    (s : Nat)
    (top : Option (Nat × Option Nat)) :
    Prop where
  ops : after.ops = world.ops
  nextSession : after.nextSession = world.nextSession
  nextExchange : after.nextExchange = world.nextExchange + 1
  older : ∀ e, e ≠ world.nextExchange → after.exchanges e = world.exchanges e
  newest :
    after.owner world.nextExchange = s ∧
      (after.exchanges world.nextExchange).noPool = top.isNone ∧
        (after.exchanges world.nextExchange).item = (top.map Prod.fst).getD 0
  pool :
    (after.sessions s).pool =
      (world.sessions s).pool.take top world.nextExchange
  frees : (after.sessions s).frees = (world.sessions s).frees
  elsewhere : ∀ other, other ≠ s → after.sessions other = world.sessions other

theorem Creating.begun {thread : Thread}
    (creating : Creating world thread s top)
    (accounts : Accounts world) :
    Begun world (world.ymoWsgiServerHeaderCb s false top) s top := by
  have present := present_opened accounts creating.below creating.opened
  rw [headerCb_eq (creation_eq present creating.free)]
  constructor
  case older => exact fun e different => if_neg different
  case newest =>
    exact
      ⟨congrArg Exchange.session (if_pos rfl),
        congrArg Exchange.noPool (if_pos rfl),
        congrArg Exchange.item (if_pos rfl)⟩
  case pool =>
    apply (congrArg Session.pool (if_pos rfl)).trans
    show ((created world s _ _).sessions s).pool = _
    rw [created_session]
  case frees =>
    apply (congrArg Session.frees (if_pos rfl)).trans
    show ((created world s _ _).sessions s).frees = _
    rw [created_session]
  case elsewhere =>
    exact fun other different => (if_neg different).trans (if_neg different)
  all_goals rfl

section Begun

variable {after : World}

theorem Begun.next (begun : Begun world after s top) (other : Nat) :
    (after.sessions other).pool.next = (world.sessions other).pool.next := by
  by_cases here : other = s
  · rw [here, begun.pool]
    cases top <;> rfl
  · rw [begun.elsewhere other here]

/-- Only the item that was taken is handed out. -/
theorem Begun.exchange (begun : Begun world after s top) {other item : Nat}
    (spared : other = s → ∀ next, top ≠ some (item, next)) :
    (after.sessions other).pool.exchange item =
      (world.sessions other).pool.exchange item := by
  by_cases here : other = s
  · rw [here, begun.pool]
    rcases top with _ | ⟨taken, next⟩
    · rfl
    · apply Function.update_of_ne
      intro same
      exact spared here next (by rw [same])
  · rw [begun.elsewhere other here]

theorem Begun.stored (begun : Begun world after s top) (pooled : Pooled world)
    {other : Nat}
    {head : Option Nat}
    {items : List Nat}
    (linked : Linked (world.sessions other).pool.next head items)
    (free : ∀ item ∈ items, Free world other item)
    (spared : other = s → ∀ item ∈ items, ∀ next, top ≠ some (item, next)) :
    Stored after other head := by
  refine ⟨items, ?_, ?_⟩
  · rw [begun.next]
    exact linked
  · intro item member e same
    rw [begun.exchange fun here => spared here item member] at same
    have below := pooled.known other item e same
    rw [begun.older e (by omega)]
    exact free item member e same

end Begun

/-- The rest of `ymo_wsgi_server_header_cb`, once it has loaded the pool's head. -/
theorem pooled_createExchange (pooled : Pooled world)
    (accounts : Accounts world)
    {thread : Thread}
    {rest : List Op}
    (pending : world.ops thread = .createExchange s top :: rest)
    (alone : top ≠ none → NoReturn world s) :
    Pooled
      ((world.ymoWsgiServerHeaderCb s false top).begin thread
        ([] ++ rest)) := by
  have member := mem_pending pending
  have creating := pooled.creating thread s top member
  have begun := creating.begun accounts
  generalize world.ymoWsgiServerHeaderCb s false top = after at begun
  have left : rest = [] := by
    have ops := creating.ops
    rw [← creating.server, pending, List.cons.injEq] at ops
    exact ops.2
  have before {other : Thread} {op : Op}
      (inside : op ∈ (after.begin thread ([] ++ rest)).ops other) :
      other ≠ thread ∧ op ∈ world.ops other := by
    have moved : op ∈ setOps world.ops thread [] other := by
      rw [left] at inside
      rw [← begun.ops]
      exact inside
    by_cases here : other = thread
    · rw [here, setOps_same] at moved
      cases moved
    · rw [setOps_other _ _ here] at moved
      exact ⟨here, moved⟩
  constructor
  case stored =>
    intro other
    show Stored after other (after.sessions other).pool.head
    by_cases here : other = s
    · rw [here, begun.pool]
      rcases top with _ | ⟨item, next⟩
      · rcases pooled.stored s with ⟨items, linked, free⟩
        refine begun.stored pooled linked free ?_
        intro _ item _ next taken
        cases taken
      · rcases creating.stored item next rfl with ⟨rfl, items, linked, free⟩
        have distinct := linked.nodup
        rcases linked.of_some with ⟨behind, rfl, tail⟩
        refine
          begun.stored pooled tail
            (fun other inside => free other (List.mem_cons_of_mem _ inside))
            ?_
        intro _ other inside next taken
        cases taken
        exact (List.nodup_cons.mp distinct).1 inside
    · rw [begun.elsewhere other here]
      rcases pooled.stored other with ⟨items, linked, free⟩
      exact begun.stored pooled linked free fun same => absurd same here
  case known =>
    intro other item e same
    show e < after.nextExchange
    change e ∈ (after.sessions other).pool.exchange item at same
    rw [begun.nextExchange]
    by_cases taken : other = s ∧ ∃ next, top = some (item, next)
    · rcases taken with ⟨rfl, next, rfl⟩
      rw [begun.pool] at same
      change
        e ∈ Function.update (world.sessions other).pool.exchange item
          (some world.nextExchange) item at same
      rw [Function.update_self] at same
      cases same
      exact Nat.lt_succ_self _
    · rw [begun.exchange fun here next found =>
        taken ⟨here, next, found⟩] at same
      exact Nat.lt_succ_of_lt (pooled.known other item e same)
  case handedOut =>
    intro e below unfreed pool
    show (after.sessions (after.owner e)).pool.exchange
      (after.exchanges e).item = some e
    change e < after.nextExchange at below
    change (after.exchanges e).frees = 0 at unfreed
    change (after.exchanges e).noPool = false at pool
    rw [begun.nextExchange] at below
    by_cases new : e = world.nextExchange
    · rcases begun.newest with ⟨owner, noPool, item⟩
      rw [new, noPool] at pool
      rw [new, owner, item, begun.pool]
      rcases top with _ | ⟨taken, next⟩
      · cases pool
      · exact Function.update_self _ _ _
    · have older := begun.older e new
      have owner : after.owner e = world.owner e :=
        congrArg Exchange.session older
      rw [older] at unfreed pool
      have has := pooled.handedOut e (by omega) unfreed pool
      rw [owner, older, begun.exchange]
      · exact has
      · intro here next taken
        rcases creating.stored _ next taken with ⟨-, items, linked, free⟩
        rcases linked.of_some with ⟨behind, rfl, -⟩
        rw [here] at has
        have freed := free _ List.mem_cons_self e has
        omega
  case returning =>
    intro other t item inside
    have was := (before inside).2
    have held := pooled.returning other t item was
    refine ⟨?_, ?_, ?_⟩
    · show t < after.nextSession
      rw [begun.nextSession]
      exact held.1
    · show (after.sessions t).frees = 0
      by_cases here : t = s
      · rw [here, begun.frees, ← here]
        exact held.2.1
      · rw [begun.elsewhere t here]
        exact held.2.1
    · rcases held.2.2 with ⟨items, linked, free⟩
      refine begun.stored pooled linked free ?_
      intro here _ _ next taken
      rw [here] at was
      have some : top ≠ none := by
        rw [taken]
        exact Option.some_ne_none _
      exact not_noReturn was (alone some)
  case creating =>
    intro other t taken inside
    have was := before inside
    have same := (pooled.creating other t taken was.2).server
    exact absurd (same.trans creating.server.symm) was.1

end Creation

/-! ## Steps -/

section Steps

variable {world : World}

/-- Every operation that meets the guard keeps what the pools are. -/
theorem pooled_perform (pooled : Pooled world) (accounts : Accounts world)
    {allocated : Bool}
    {thread : Thread}
    {op : Op}
    {rest : List Op}
    {result : World × List Op}
    (pending : world.ops thread = op :: rest)
    (guarded : OpGuard world allocated op)
    (performed : world.perform allocated op = some result) :
    Pooled (result.1.begin thread (result.2 ++ rest)) := by
  cases still : quiet op with
  | true =>
      have kept := perform_quiet performed still
      exact pooled.quiet pending kept.1 kept.2
  | false =>
      cases op with
      | sessionDecref s =>
          cases performed
          exact pooled_sessionDecref pooled accounts pending guarded
      | exchangeFree e =>
          cases performed
          exact pooled_exchangeFree pooled accounts pending
      | returnItem s item =>
          cases performed
          exact pooled_returnItem pooled pending
      | createExchange s top =>
          cases performed
          exact pooled_createExchange pooled accounts pending guarded.2
      | _ => cases still

/-- A step that is not one of an operation. -/
theorem Pooled.data (pooled : Pooled world) {after : World}
    (quiet : Quiet world after) :
    Pooled after := by
  apply pooled.moves quiet.moves (quiet.stored pooled)
  case returning =>
    intro thread s item member
    rw [quiet.ops] at member
    have held := pooled.returning thread s item member
    rw [quiet.frees]
    exact
      ⟨Nat.lt_of_lt_of_le held.1 quiet.nextSession, held.2.1,
        quiet.moves.stored held.2.2⟩
  case creating =>
    intro thread s top member
    rw [quiet.ops] at member ⊢
    exact ⟨member, fun _ => ⟨rfl, quiet.closed s, quiet.reading s⟩⟩

/-- The state of a session changes while the server's thread is free. -/
theorem Pooled.idle (pooled : Pooled world) {after : World}
    (leaves : Leaves world after)
    (free : world.ops .server = [])
    (ops : after.ops = world.ops)
    (frees : ∀ s, (after.sessions s).frees = (world.sessions s).frees) :
    Pooled after := by
  apply pooled.moves leaves.moves (leaves.stored pooled)
  case returning =>
    intro thread s item member
    rw [ops] at member
    have held := pooled.returning thread s item member
    rw [frees]
    exact
      ⟨Nat.lt_of_lt_of_le held.1 leaves.nextSession, held.2.1,
        leaves.moves.stored held.2.2⟩
  case creating =>
    intro thread s top member
    rw [ops] at member
    have server := (pooled.creating thread s top member).server
    rw [server, free] at member
    cases member

/-- A thread begins something else than a request. -/
theorem Pooled.begins (pooled : Pooled world) {thread : Thread} {new : Op}
    (plain : storesHead new = false) :
    Pooled (world.begin thread [new]) := by
  have before {other : Thread} {op : Op}
      (member : op ∈ (world.begin thread [new]).ops other)
      (stores : storesHead op = true) :
      other ≠ thread ∧ op ∈ world.ops other := by
    have inside : op ∈ setOps world.ops thread [new] other := member
    by_cases here : other = thread
    · rw [here, setOps_same] at inside
      rw [List.mem_singleton.mp inside, plain] at stores
      cases stores
    · rw [setOps_other _ _ here] at inside
      exact ⟨here, inside⟩
  have moves : Moves world (world.begin thread [new]) :=
    ⟨rfl, Nat.le_refl _, fun _ => rfl, fun _ => rfl, fun _ => rfl,
      fun _ => Nat.le_refl _, fun _ _ _ => rfl, fun _ => rfl⟩
  apply pooled.moves moves pooled.stored
  case returning =>
    intro other s item member
    exact pooled.returning other s item (before member rfl).2
  case creating =>
    intro other s top member
    have was := before member rfl
    refine ⟨was.2, ?_⟩
    intro server
    rw [server] at was
    exact ⟨setOps_other _ _ was.1, rfl, rfl⟩

/-- The server's thread loads the pool's head for a request. -/
theorem pooled_loads (pooled : Pooled world) {s : Nat}
    (_ : world.ops .server = [])
    (below : s < world.nextSession)
    (opened : (world.sessions s).closed = false)
    (unread : (world.sessions s).reading = none) :
    Pooled
      (world.begin .server
        [.createExchange s (world.sessions s).pool.top]) := by
  have before {other : Thread} {op : Op}
      (member :
        op ∈ (world.begin .server
          [.createExchange s (world.sessions s).pool.top]).ops other) :
      other = .server ∧
          op = .createExchange s (world.sessions s).pool.top ∨
        other ≠ .server ∧ op ∈ world.ops other := by
    have inside :
        op ∈ setOps world.ops .server
          [.createExchange s (world.sessions s).pool.top] other :=
      member
    by_cases here : other = .server
    · rw [here, setOps_same] at inside
      exact Or.inl ⟨here, List.mem_singleton.mp inside⟩
    · rw [setOps_other _ _ here] at inside
      exact Or.inr ⟨here, inside⟩
  constructor
  case stored => exact pooled.stored
  case known => exact pooled.known
  case handedOut => exact pooled.handedOut
  case returning =>
    intro other t item member
    rcases before member with ⟨-, same⟩ | ⟨-, was⟩
    · cases same
    · exact pooled.returning other t item was
  case creating =>
    intro other t top member
    rcases before member with ⟨here, same⟩ | ⟨there, was⟩
    · cases same
      refine ⟨here, ?_, below, opened, unread, ?_⟩
      · exact setOps_same world.ops .server _
      intro item next top
      unfold Pool.top at top
      rcases head : (world.sessions s).pool.head with _ | first
      · rw [head] at top
        cases top
      · rw [head] at top
        cases top
        refine ⟨rfl, ?_⟩
        rw [← head]
        exact pooled.stored s
    · exact absurd (pooled.creating other t top was).server there

/-- `ymo_wsgi_session_init`. -/
theorem pooled_sessionInit (pooled : Pooled world)
    (accounts : Accounts world) :
    Pooled world.ymoWsgiSessionInit := by
  have at_next :
      world.ymoWsgiSessionInit.sessions world.nextSession =
        { Session.blank with
          refcnt := 1
          pool := Pool.full } :=
    if_pos rfl
  have elsewhere {s : Nat} (different : s ≠ world.nextSession) :
      world.ymoWsgiSessionInit.sessions s = world.sessions s :=
    if_neg different
  have older {s : Nat} {head : Option Nat} (different : s ≠ world.nextSession)
      (stored : Stored world s head) :
      Stored world.ymoWsgiSessionInit s head := by
    rcases stored with ⟨items, linked, free⟩
    refine ⟨items, ?_, ?_⟩
    · rw [elsewhere different]
      exact linked
    · intro item member e same
      rw [elsewhere different] at same
      exact free item member e same
  constructor
  case stored =>
    intro s
    by_cases here : s = world.nextSession
    · rw [here, at_next]
      refine ⟨[0, 1], ?_, ?_⟩
      · rw [at_next]
        exact .cons (.cons .nil)
      · intro item _ e same
        rw [at_next] at same
        cases same
    · rw [elsewhere here]
      exact older here (pooled.stored s)
  case known =>
    intro s item e same
    by_cases here : s = world.nextSession
    · rw [here, at_next] at same
      cases same
    · rw [elsewhere here] at same
      exact pooled.known s item e same
  case handedOut =>
    intro e below unfreed pool
    have owned := accounts.owner e below
    have different : world.owner e ≠ world.nextSession := Nat.ne_of_lt owned
    show (world.ymoWsgiSessionInit.sessions
      (world.owner e)).pool.exchange _ = _
    rw [elsewhere different]
    exact pooled.handedOut e below unfreed pool
  case returning =>
    intro thread s item member
    have held := pooled.returning thread s item member
    have different : s ≠ world.nextSession := Nat.ne_of_lt held.1
    rw [elsewhere different]
    exact ⟨Nat.lt_succ_of_lt held.1, held.2.1, older different held.2.2⟩
  case creating =>
    intro thread s top member
    have held := pooled.creating thread s top member
    have different : s ≠ world.nextSession := Nat.ne_of_lt held.below
    have same := elsewhere different
    constructor
    case server => exact held.server
    case ops => exact held.ops
    case below => exact Nat.lt_succ_of_lt held.below
    case opened =>
      rw [same]
      exact held.opened
    case unread =>
      rw [same]
      exact held.unread
    case stored =>
      intro item next taken
      have link := held.stored item next taken
      rw [same]
      exact ⟨link.1, older different link.2⟩

/-- The effect of an action on the state of a session. -/
theorem Pooled.setSession (pooled : Pooled world) {s : Nat} {session : Session}
    (idle : world.ops .server = [])
    (pool : session.pool = (world.sessions s).pool)
    (frees : session.frees = (world.sessions s).frees) :
    Pooled (world.setSession s session) := by
  have leaves : Leaves world (world.setSession s session) :=
    ⟨rfl, Nat.le_refl _, fun _ => rfl, part_setSession Session.pool pool⟩
  exact pooled.idle leaves idle rfl (part_setSession Session.frees frees)

/-- `ymo_wsgi_server_request_cb`. -/
theorem pooled_requestCb (pooled : Pooled world) (s response : Nat)
    (idle : world.ops .server = []) :
    Pooled (world.ymoWsgiServerRequestCb s response) := by
  have unread :
      Pooled (world.setSession s { world.sessions s with reading := none }) :=
    pooled.setSession idle rfl rfl
  have read :
      Pooled
        { world.setSession s
            { world.sessions s with reading := none } with
          requested := world.requested ++ [(s, response)] } :=
    unread.data (Quiet.of_world rfl rfl rfl rfl rfl)
  unfold World.ymoWsgiServerRequestCb
  dsimp only
  split
  · exact read.data (Quiet.of_world rfl rfl rfl rfl rfl)
  · rename_i head _ _
    have given :
        Pooled
          (World.setExchange
            { world.setSession s
                { world.sessions s with reading := none } with
              requested := world.requested ++ [(s, response)] }
            head
            { world.exchanges head with response := response }) :=
      read.data (Quiet.setExchange _ rfl)
    have counted := given.data (Quiet.incref _ head)
    exact counted.data (Quiet.of_world rfl rfl rfl rfl rfl)

/-- Every step that meets the guard keeps what the pools are. -/
theorem pooled_step (pooled : Pooled world) (accounts : Accounts world)
    (action : Action)
    (guarded : Guard world action) :
    Pooled (world.step action) := by
  have does := does world action
  generalize world.step action = after at does
  cases does with
  | nothing => exact pooled
  | sessionInit => exact pooled_sessionInit pooled accounts
  | upgrade s possible =>
      have marked :
          Pooled
            (world.setSession s
              { world.sessions s with
                reading :=
                  some
                    { response := world.nextResponse
                      exchange := none } }) :=
        pooled.setSession possible.1 rfl rfl
      exact marked.data (Quiet.of_world rfl rfl rfl rfl rfl)
  | headerCb s possible =>
      have present := present_opened accounts possible.2.1 possible.2.2.1
      rw [touchSession_eq present]
      exact
        pooled_loads pooled possible.1 possible.2.1 possible.2.2.1
          possible.2.2.2
  | requestCb s arrival _ possible =>
      exact pooled_requestCb pooled s _ possible.1
  | sessionCleanup s possible =>
      have touched := Quiet.touchSession world s
      have idle : (world.touchSession s).ops .server = [] := by
        rw [touched.ops]
        exact possible.1
      apply Pooled.begins _ rfl
      apply (pooled.data touched).setSession idle
      · exact (touched.pool s).symm
      · exact (touched.frees s).symm
  | startResponse => exact pooled.begins rfl
  | read _ e => exact pooled.data (Quiet.touchExchange world e)
  | write => exact pooled.begins rfl
  | iterates => exact pooled.data (Quiet.of_world rfl rfl rfl rfl rfl)
  | returned => exact pooled.data (Quiet.of_world rfl rfl rfl rfl rfl)
  | yielded => exact pooled.begins rfl
  | callEnd => exact pooled.data (Quiet.of_world rfl rfl rfl rfl rfl)
  | work thread allocated pending performed =>
      exact
        pooled_perform pooled accounts pending (guarded.head pending) performed
  | _ =>
      apply Pooled.begins _ rfl
      exact pooled.data (Quiet.of_world rfl rfl rfl rfl rfl)

end Steps

end Yimmo.Wsgi.Pools
