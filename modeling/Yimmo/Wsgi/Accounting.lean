import Yimmo.Wsgi.References

/-!
# The accounts of WSGI exchanges

`Accounts` is the invariant of the reference counts: a count is the number of
holders, and what has no holder left has been freed or is about to be.  Most
operations only move references from one holder to another, or take one more
(`Keeps`); those that give one back, free something or create something are treated
one by one.
-/

namespace Yimmo.Wsgi.Accounting

open Yimmo.Lib.Threads
open Yimmo.Wsgi.Worker
open Yimmo.Wsgi.References

variable
    {e : Nat}
    {s : Nat}
    {op : Op}

/-! ## Weights of operations -/

/-- The operation is about to free the exchange. -/
def pendingFree (e : Nat) : Op → Nat
  | .exchangeFree other => if other = e then 1 else 0
  | _ => 0

/-- The operation has the HTTP session's reference, or that of an exchange. -/
def sessionRefs (s : Nat) : Op → Nat
  | .sessionDecref other => if other = s then 1 else 0
  | .lockCleanup other => if other = s then 1 else 0
  | .releaseList other => if other = s then 1 else 0
  | .unlockCleanup other => if other = s then 1 else 0
  | _ => 0

/-- The operation uses the context of the exchange. -/
def uses (e : Nat) (op : Op) : Nat :=
  if op.usedBy e then 1 else 0

/-- The operation is part of the start of a request by the worker. -/
def starts : Op → Nat
  | .holdContext _ => 1
  | .checkClosed .newContext _ => 1
  | .tryLock .newContext _ => 1
  | .makeContext _ => 1
  | .unlockContext _ => 1
  | .issueRequest _ => 1
  | _ => 0

/-- The weight of a list of operations. -/
def weigh (weight : Op → Nat) (ops : List Op) : Nat :=
  (ops.map weight).sum

@[simp]
theorem weigh_nil (weight : Op → Nat) : weigh weight [] = 0 :=
  rfl

@[simp]
theorem weigh_cons (weight : Op → Nat) (op : Op) (ops : List Op) :
    weigh weight (op :: ops) = weight op + weigh weight ops :=
  List.sum_cons

theorem weigh_one (weight : Op → Nat) (op : Op) :
    weigh weight [op] = weight op := by
  rw [weigh_cons, weigh_nil, Nat.add_zero]

theorem total_replace (weight : Op → Nat) {ops : Thread → List Op}
    {thread : Thread}
    {old rest : List Op}
    (new : List Op)
    (pending : ops thread = old ++ rest) :
    total weight (setOps ops thread (new ++ rest)) + weigh weight old =
      total weight ops + weigh weight new := by
  have change := total_setOps weight ops thread (new ++ rest)
  rw [pending, List.map_append, List.sum_append, List.map_append,
    List.sum_append] at change
  unfold weigh
  omega

theorem mem_pending {world : World} {thread : Thread} {rest : List Op}
    (pending : world.ops thread = op :: rest) :
    op ∈ world.ops thread := by
  rw [pending]
  exact List.mem_cons_self

theorem setExchange_same (world : World) (e : Nat) (exchange : Exchange) :
    (world.setExchange e exchange).exchanges e = exchange :=
  if_pos rfl

theorem setExchange_twice (world : World) (e : Nat) (first second : Exchange) :
    (world.setExchange e first).setExchange e second =
      world.setExchange e second := by
  unfold World.setExchange
  congr 1
  funext other
  by_cases here : other = e
  · rw [if_pos here, if_pos here]
  · simp only [if_neg here]

/-- An update leaves what the exchanges agree on. -/
theorem part_setExchange {Value : Type} {world : World} {exchange : Exchange}
    (part : Exchange → Value)
    (same : part exchange = part (world.exchanges e))
    (other : Nat) :
    part ((world.setExchange e exchange).exchanges other) =
      part (world.exchanges other) := by
  show part (if other = e then exchange else world.exchanges other) = _
  by_cases here : other = e
  · rw [if_pos here, here, same]
  · rw [if_neg here]

/-- The same for a session. -/
theorem part_setSession {Value : Type} {world : World} {session : Session}
    (part : Session → Value)
    (same : part session = part (world.sessions s))
    (other : Nat) :
    part ((world.setSession s session).sessions other) =
      part (world.sessions other) := by
  show part (if other = s then session else world.sessions other) = _
  by_cases here : other = s
  · rw [if_pos here, here, same]
  · rw [if_neg here]

/-! ## The invariant -/

/-- The references to an exchange that no operation has. -/
def keptAll (world : World) (e : Nat) : Nat :=
  (if (world.exchanges e).sent then 0 else 1) + mentions world e

theorem holders_keptAll (world : World) (e : Nat) :
    holders world e = keptAll world e + total (refs e) world.ops :=
  holders_eq world e

/-- The exchanges of a session that have holders. -/
def alive (world : World) (s : Nat) : Finset Nat :=
  (Finset.range world.nextExchange).filter fun e =>
    world.owner e = s ∧ holders world e ≠ 0

/-- The HTTP session has a reference until it ends. -/
def ownRef (world : World) (s : Nat) : Nat :=
  if (world.sessions s).closed then 0 else 1

theorem ownRef_setSession {world : World} {session : Session}
    (closed : session.closed = (world.sessions s).closed)
    (other : Nat) :
    ownRef (world.setSession s session) other = ownRef world other := by
  unfold ownRef
  rw [part_setSession Session.closed closed]

/-- The number of outstanding references to a session. -/
def sessionHolders (world : World) (s : Nat) : Nat :=
  ownRef world s + (alive world s).card + total (sessionRefs s) world.ops

/-- The number of calls that run. -/
def running (call : Option Call) : Nat :=
  if call = none then 0 else 1

structure Accounts (world : World) : Prop where
  exchange :
    ∀ e, e < world.nextExchange →
      (world.exchanges e).refcnt = BitVec.ofNat 16 (holders world e) ∧
        holders world e < 2 ^ 15
  freed :
    ∀ e, e < world.nextExchange →
      (world.exchanges e).frees + total (pendingFree e) world.ops =
        if holders world e = 0 then 1 else 0
  fresh :
    ∀ e, world.nextExchange ≤ e →
      mentions world e = 0 ∧ total (refs e) world.ops = 0 ∧
        total (pendingFree e) world.ops = 0
  session :
    ∀ s, s < world.nextSession →
      (world.sessions s).refcnt =
          BitVec.ofNat 16 (sessionHolders world s) ∧
        sessionHolders world s < 2 ^ 15
  sessionFreed :
    ∀ s, s < world.nextSession →
      (world.sessions s).frees = if sessionHolders world s = 0 then 1 else 0
  sessionFresh :
    ∀ s, world.nextSession ≤ s →
      world.sessions s = Session.blank ∧ total (sessionRefs s) world.ops = 0
  owner : ∀ e, e < world.nextExchange → world.owner e < world.nextSession
  listed :
    ∀ s e, e ∈ (world.sessions s).list →
      e < world.nextExchange ∧ world.owner e = s
  used : ∀ e, 0 < total (uses e) world.ops → e ∈ world.contexts
  calling : ∀ call, world.call = some call → call.exchange ∈ world.contexts
  starting : total starts world.ops + running world.call ≤ 1
  pooled :
    ∀ e, 0 < total (pendingFree e) world.ops →
      (world.exchanges e).noPool = false →
        (world.sessions (world.owner e)).frees = 0
  untouched : world.faults = []

/-- A step that gives no reference back and frees nothing. -/
structure Keeps
    (world after : World)
    (old new : List Op)
    (added : Nat → Nat) :
    Prop where
  nextExchange : after.nextExchange = world.nextExchange
  nextSession : after.nextSession = world.nextSession
  ops : after.ops = world.ops
  faults : after.faults = world.faults
  owner : ∀ e, after.owner e = world.owner e
  frees : ∀ e, (after.exchanges e).frees = (world.exchanges e).frees
  noPool : ∀ e, (after.exchanges e).noPool = (world.exchanges e).noPool
  refcnt :
    ∀ e,
      (after.exchanges e).refcnt =
        (world.exchanges e).refcnt + BitVec.ofNat 16 (added e)
  addedOnce :
    ∀ e, 0 < added e →
      added e = 1 ∧ e < world.nextExchange ∧ holders world e ≠ 0 ∧
        BelowLimit (world.exchanges e).refcnt
  kept :
    ∀ e,
      keptAll after e + weigh (refs e) new =
        keptAll world e + weigh (refs e) old + added e
  sent :
    ∀ e, world.nextExchange ≤ e →
      (after.exchanges e).sent = (world.exchanges e).sent
  freeing : ∀ e, weigh (pendingFree e) new = weigh (pendingFree e) old
  sessionRefcnt : ∀ s, (after.sessions s).refcnt = (world.sessions s).refcnt
  sessionFrees : ∀ s, (after.sessions s).frees = (world.sessions s).frees
  sessionKept :
    ∀ s,
      ownRef after s + weigh (sessionRefs s) new =
        ownRef world s + weigh (sessionRefs s) old
  sessionFresh :
    ∀ s, world.nextSession ≤ s → after.sessions s = world.sessions s
  listed : ∀ s e, e ∈ (after.sessions s).list → e ∈ (world.sessions s).list
  used :
    ∀ e, e ∉ after.contexts →
      total (uses e) world.ops + weigh (uses e) new = weigh (uses e) old
  calling : ∀ call, after.call = some call → call.exchange ∈ after.contexts
  starting :
    weigh starts new + total starts world.ops + running after.call ≤
      1 + weigh starts old


section Keeps

variable
    {world after : World}
    {thread : Thread}
    {old new rest : List Op}
    {added : Nat → Nat}

/-- The world after a step, with what the thread has to do next. -/
theorem Keeps.holders (keeps : Keeps world after old new added)
    (pending : world.ops thread = old ++ rest)
    (e : Nat) :
    holders (after.begin thread (new ++ rest)) e =
      holders world e + added e := by
  have change := total_replace (refs e) new pending
  have kept := keeps.kept e
  rw [holders_keptAll, holders_keptAll]
  have same : keptAll (after.begin thread (new ++ rest)) e =
      keptAll after e := rfl
  have moved : (after.begin thread (new ++ rest)).ops =
      setOps world.ops thread (new ++ rest) := by
    rw [← keeps.ops]
    rfl
  rw [same, moved]
  omega

theorem Keeps.alive (keeps : Keeps world after old new added)
    (pending : world.ops thread = old ++ rest)
    (s : Nat) :
    alive (after.begin thread (new ++ rest)) s = alive world s := by
  unfold Accounting.alive
  have range : (after.begin thread (new ++ rest)).nextExchange =
      world.nextExchange :=
    keeps.nextExchange
  rw [range]
  apply Finset.filter_congr
  intro e _
  have owner : (after.begin thread (new ++ rest)).owner e =
      world.owner e :=
    keeps.owner e
  rw [owner, keeps.holders pending e]
  have once := keeps.addedOnce e
  constructor
  · rintro ⟨same, some⟩
    refine ⟨same, ?_⟩
    intro zero
    by_cases more : 0 < added e
    · exact (once more).2.2.1 zero
    · omega
  · rintro ⟨same, some⟩
    exact ⟨same, by omega⟩

theorem Keeps.sessionHolders (keeps : Keeps world after old new added)
    (pending : world.ops thread = old ++ rest)
    (s : Nat) :
    sessionHolders (after.begin thread (new ++ rest)) s =
      sessionHolders world s := by
  have change := total_replace (sessionRefs s) new pending
  have kept := keeps.sessionKept s
  have own : ownRef (after.begin thread (new ++ rest)) s =
      ownRef after s := rfl
  have moved : (after.begin thread (new ++ rest)).ops =
      setOps world.ops thread (new ++ rest) := by
    rw [← keeps.ops]
    rfl
  unfold Accounting.sessionHolders
  rw [keeps.alive pending s, own, moved]
  omega

/-- Such a step keeps the accounts. -/
theorem Accounts.keeps (accounts : Accounts world)
    (pending : world.ops thread = old ++ rest)
    (keeps : Keeps world after old new added) :
    Accounts (after.begin thread (new ++ rest)) := by
  have moved : (after.begin thread (new ++ rest)).ops =
      setOps world.ops thread (new ++ rest) := by
    rw [← keeps.ops]
    rfl
  have balance (weight : Op → Nat) := total_replace weight new pending
  have within (weight : Op → Nat) :
      weigh weight old ≤ total weight world.ops := by
    have change := total_setOps weight world.ops thread rest
    rw [pending, List.map_append, List.sum_append] at change
    unfold weigh
    omega
  constructor
  case exchange =>
    intro e below
    rw [keeps.holders pending e]
    have inside : e < world.nextExchange := by
      rw [← keeps.nextExchange]
      exact below
    have before := accounts.exchange e inside
    constructor
    · show (after.exchanges e).refcnt = _
      rw [keeps.refcnt e, before.1, BitVec.ofNat_add]
    · by_cases more : 0 < added e
      · have once := keeps.addedOnce e more
        have limit := once.2.2.2
        unfold BelowLimit at limit
        rw [before.1, BitVec.toNat_ofNat] at limit
        omega
      · omega
  case freed =>
    intro e below
    rw [keeps.holders pending e, moved]
    have inside : e < world.nextExchange := by
      rw [← keeps.nextExchange]
      exact below
    have before := accounts.freed e inside
    have change := balance (pendingFree e)
    have same := keeps.freeing e
    have frees : ((after.begin thread (new ++ rest)).exchanges e).frees =
        (world.exchanges e).frees :=
      keeps.frees e
    have crossing :
        (if holders world e + added e = 0 then 1 else 0) =
          if holders world e = 0 then 1 else 0 := by
      by_cases more : 0 < added e
      · have some := (keeps.addedOnce e more).2.2.1
        rw [if_neg some, if_neg (by omega)]
      · have none : added e = 0 := by omega
        rw [none, Nat.add_zero]
    rw [frees, crossing]
    omega
  case fresh =>
    intro e beyond
    have outside : world.nextExchange ≤ e := by
      rw [← keeps.nextExchange]
      exact beyond
    have before := accounts.fresh e outside
    have total := keeps.holders pending e
    have change := balance (refs e)
    have limit := within (refs e)
    have kept := keeps.kept e
    have none : added e = 0 := by
      by_contra some
      have inside := (keeps.addedOnce e (by omega)).2.1
      omega
    have sent := keeps.sent e outside
    have mentioned : mentions (after.begin thread (new ++ rest)) e =
        mentions after e := rfl
    unfold keptAll at kept
    rw [sent] at kept
    rw [mentioned, moved]
    have freeingChange := balance (pendingFree e)
    have same := keeps.freeing e
    omega
  case session =>
    intro s below
    have inside : s < world.nextSession := by
      rw [← keeps.nextSession]
      exact below
    rw [keeps.sessionHolders pending s]
    have refcnt : ((after.begin thread (new ++ rest)).sessions s).refcnt =
        (world.sessions s).refcnt :=
      keeps.sessionRefcnt s
    rw [refcnt]
    exact accounts.session s inside
  case sessionFreed =>
    intro s below
    have inside : s < world.nextSession := by
      rw [← keeps.nextSession]
      exact below
    rw [keeps.sessionHolders pending s]
    have frees : ((after.begin thread (new ++ rest)).sessions s).frees =
        (world.sessions s).frees :=
      keeps.sessionFrees s
    rw [frees]
    exact accounts.sessionFreed s inside
  case sessionFresh =>
    intro s beyond
    have outside : world.nextSession ≤ s := by
      rw [← keeps.nextSession]
      exact beyond
    have before := accounts.sessionFresh s outside
    have same : (after.begin thread (new ++ rest)).sessions s =
        world.sessions s :=
      keeps.sessionFresh s outside
    have change := balance (sessionRefs s)
    have limit := within (sessionRefs s)
    have kept := keeps.sessionKept s
    have own : ownRef after s = ownRef world s := by
      unfold ownRef
      rw [keeps.sessionFresh s outside]
    rw [same, moved]
    exact ⟨before.1, by omega⟩
  case owner =>
    intro e below
    have inside : e < world.nextExchange := by
      rw [← keeps.nextExchange]
      exact below
    have owner : (after.begin thread (new ++ rest)).owner e =
        world.owner e :=
      keeps.owner e
    have count : (after.begin thread (new ++ rest)).nextSession =
        world.nextSession :=
      keeps.nextSession
    rw [owner, count]
    exact accounts.owner e inside
  case listed =>
    intro s e member
    have before := accounts.listed s e (keeps.listed s e member)
    have owner : (after.begin thread (new ++ rest)).owner e =
        world.owner e :=
      keeps.owner e
    have count : (after.begin thread (new ++ rest)).nextExchange =
        world.nextExchange :=
      keeps.nextExchange
    rw [owner, count]
    exact before
  case used =>
    intro e some
    rw [moved] at some
    have change := balance (uses e)
    by_contra absent
    have none := keeps.used e absent
    omega
  case calling =>
    intro call same
    exact keeps.calling call same
  case starting =>
    have change := balance starts
    have limit := keeps.starting
    have same : (after.begin thread (new ++ rest)).call = after.call := rfl
    rw [moved, same]
    omega
  case pooled =>
    intro e some pool
    rw [moved] at some
    have change := balance (pendingFree e)
    have same := keeps.freeing e
    have noPool : (world.exchanges e).noPool = false := by
      rw [← keeps.noPool e]
      exact pool
    have owner : (after.begin thread (new ++ rest)).owner e =
        world.owner e :=
      keeps.owner e
    have frees :
        ((after.begin thread (new ++ rest)).sessions
            (world.owner e)).frees =
          (world.sessions (world.owner e)).frees :=
      keeps.sessionFrees (world.owner e)
    rw [owner, frees]
    exact accounts.pooled e (by omega) noPool
  case untouched =>
    show after.faults = []
    rw [keeps.faults]
    exact accounts.untouched

end Keeps

/-! ## What is in use has not been freed -/

theorem Accounts.present {world : World} (accounts : Accounts world) {e : Nat}
    (used : 0 < mentions world e + total (refs e) world.ops) :
    e < world.nextExchange ∧ (world.exchanges e).frees = 0 ∧
      (world.sessions (world.owner e)).frees = 0 := by
  have below : e < world.nextExchange := by
    by_contra beyond
    have fresh := accounts.fresh e (by omega)
    omega
  have some : holders world e ≠ 0 := by
    rw [holders_eq]
    omega
  refine ⟨below, ?_, ?_⟩
  · have freed := accounts.freed e below
    rw [if_neg some] at freed
    omega
  · have freed :=
      accounts.sessionFreed (world.owner e) (accounts.owner e below)
    have member : e ∈ alive world (world.owner e) := by
      simp only [alive, Finset.mem_filter, Finset.mem_range, true_and]
      exact ⟨below, some⟩
    have card := Finset.card_pos.mpr ⟨e, member⟩
    rw [freed]
    apply if_neg
    unfold sessionHolders
    omega

theorem Accounts.ofOp {world : World} (accounts : Accounts world)
    {thread : Thread}
    (member : op ∈ world.ops thread)
    {count : Nat}
    (used : refs e op = count + 1) :
    e < world.nextExchange ∧ (world.exchanges e).frees = 0 ∧
      (world.sessions (world.owner e)).frees = 0 := by
  have single := le_total (refs e) member
  exact accounts.present (by omega)

theorem Accounts.ofContext {world : World} (accounts : Accounts world)
    (member : e ∈ world.contexts) :
    e < world.nextExchange ∧ (world.exchanges e).frees = 0 ∧
      (world.sessions (world.owner e)).frees = 0 := by
  have some := List.count_pos_iff.mpr member
  apply accounts.present
  unfold mentions
  omega

theorem Accounts.ofUse {world : World} (accounts : Accounts world)
    {thread : Thread}
    (member : op ∈ world.ops thread)
    (used : op.usedBy e = true) :
    e < world.nextExchange ∧ (world.exchanges e).frees = 0 ∧
      (world.sessions (world.owner e)).frees = 0 := by
  have single := le_total (uses e) member
  have one : uses e op = 1 := if_pos used
  exact accounts.ofContext (accounts.used e (by omega))

theorem Accounts.unused {world : World} (accounts : Accounts world)
    (absent : e ∉ world.contexts) :
    total (uses e) world.ops = 0 := by
  by_contra some
  exact absent (accounts.used e (by omega))

theorem touchExchange_eq {world : World} (kept : (world.exchanges e).frees = 0)
    (sessionKept : (world.sessions (world.owner e)).frees = 0) :
    world.touchExchange e = world := by
  unfold World.touchExchange
  rw [if_neg]
  rintro (freed | ⟨-, freed⟩) <;> omega

theorem touchSession_eq {world : World} (kept : (world.sessions s).frees = 0) :
    world.touchSession s = world := by
  unfold World.touchSession
  rw [if_neg]
  omega

theorem touch_eq {world : World} (kept : (world.exchanges e).frees = 0)
    (sessionKept : (world.sessions (world.owner e)).frees = 0) :
    world.touch e = world := by
  unfold World.touch
  rw [touchExchange_eq kept sessionKept, touchSession_eq sessionKept]

/-- A session with a holder has not been freed. -/
theorem Accounts.ofSession {world : World} (accounts : Accounts world)
    (held : 0 < ownRef world s + total (sessionRefs s) world.ops)
    (below : s < world.nextSession) :
    (world.sessions s).frees = 0 := by
  rw [accounts.sessionFreed s below]
  apply if_neg
  unfold sessionHolders
  omega

theorem Accounts.ofSessionOp {world : World} (accounts : Accounts world)
    {thread : Thread}
    (member : op ∈ world.ops thread)
    (used : sessionRefs s op = 1) :
    s < world.nextSession ∧ (world.sessions s).frees = 0 := by
  have single := le_total (sessionRefs s) member
  have below : s < world.nextSession := by
    by_contra beyond
    have fresh := accounts.sessionFresh s (by omega)
    omega
  exact ⟨below, accounts.ofSession (by omega) below⟩

/-! ## Steps that keep the counts -/

section Moves

variable
    {world after : World}
    {old new : List Op}

/-- Nothing but exchanges, queues and the call changes. -/
structure Steady (world after : World) : Prop where
  sessions : after.sessions = world.sessions
  nextExchange : after.nextExchange = world.nextExchange
  nextSession : after.nextSession = world.nextSession
  ops : after.ops = world.ops
  faults : after.faults = world.faults

/-- The new operations free what the old ones did, and hold the sessions they did. -/
structure Neutral (old new : List Op) : Prop where
  freeing : ∀ e, weigh (pendingFree e) new = weigh (pendingFree e) old
  sessionKept : ∀ s, weigh (sessionRefs s) new = weigh (sessionRefs s) old

/-- Nor do they hold or use other exchanges. -/
structure Alike (contexts : List Nat) (old new : List Op) : Prop
    extends Neutral old new where
  kept : ∀ e, weigh (refs e) new = weigh (refs e) old
  used : ∀ e, e ∉ contexts → weigh (uses e) new ≤ weigh (uses e) old
  starting : weigh starts new ≤ weigh starts old

/-- All that counts in operations, for an exchange and a session. -/
def weights (ops : List Op) (e s : Nat) : Nat × Nat × Nat × Nat × Nat :=
  (weigh (pendingFree e) ops, weigh (sessionRefs s) ops, weigh (refs e) ops,
    weigh (uses e) ops, weigh starts ops)

theorem Alike.of_weights {contexts : List Nat} {old new : List Op}
    (same : ∀ e s, weights new e s = weights old e s) :
    Alike contexts old new where
  freeing e := congrArg Prod.fst (same e 0)
  sessionKept s := congrArg (fun weights => weights.2.1) (same 0 s)
  kept e := congrArg (fun weights => weights.2.2.1) (same e 0)
  used e _ :=
    Nat.le_of_eq (congrArg (fun weights => weights.2.2.2.1) (same e 0))
  starting :=
    Nat.le_of_eq (congrArg (fun weights => weights.2.2.2.2) (same 0 0))

/-- A step that changes neither an exchange nor a session. -/
theorem Keeps.of_world
    (exchanges : after.exchanges = world.exchanges)
    (steady : Steady world after)
    (neutral : Neutral old new)
    (kept :
      ∀ e,
        mentions after e + weigh (refs e) new =
          mentions world e + weigh (refs e) old)
    (used :
      ∀ e, e ∉ after.contexts →
        total (uses e) world.ops + weigh (uses e) new = weigh (uses e) old)
    (calling : ∀ call, after.call = some call → call.exchange ∈ after.contexts)
    (starting :
      weigh starts new + total starts world.ops + running after.call ≤
        1 + weigh starts old) :
    Keeps world after old new fun _ => 0 where
  nextExchange := steady.nextExchange
  nextSession := steady.nextSession
  ops := steady.ops
  faults := steady.faults
  owner e := by
    unfold World.owner
    rw [exchanges]
  frees e := by rw [exchanges]
  noPool e := by rw [exchanges]
  refcnt e := by
    rw [exchanges]
    exact (BitVec.add_zero _).symm
  addedOnce e some := by omega
  kept e := by
    have move := kept e
    unfold keptAll
    rw [exchanges]
    omega
  sent e _ := by rw [exchanges]
  freeing := neutral.freeing
  sessionRefcnt s := by rw [steady.sessions]
  sessionFrees s := by rw [steady.sessions]
  sessionKept s := by
    have move := neutral.sessionKept s
    unfold ownRef
    rw [steady.sessions]
    omega
  sessionFresh s _ := by rw [steady.sessions]
  listed s e member := by
    rw [← steady.sessions]
    exact member
  used := used
  calling := calling
  starting := starting

/-- A step that changes a session, but not its counts. -/
theorem Keeps.of_session
    (accounts : Accounts world)
    {session : Session}
    (below : s < world.nextSession)
    (refcnt : session.refcnt = (world.sessions s).refcnt)
    (frees : session.frees = (world.sessions s).frees)
    (listed : ∀ e, e ∈ session.list → e ∈ (world.sessions s).list)
    (kept :
      ∀ e,
        session.list.count e + weigh (refs e) new =
          (world.sessions s).list.count e + weigh (refs e) old)
    (freeing : ∀ e, weigh (pendingFree e) new = weigh (pendingFree e) old)
    (sessionKept :
      ∀ other,
        ownRef (world.setSession s session) other +
            weigh (sessionRefs other) new =
          ownRef world other + weigh (sessionRefs other) old)
    (used : ∀ e, weigh (uses e) new = weigh (uses e) old)
    (starting : weigh starts new ≤ weigh starts old) :
    Keeps world (world.setSession s session) old new fun _ => 0 where
  nextExchange := rfl
  nextSession := rfl
  ops := rfl
  faults := rfl
  owner _ := rfl
  frees _ := rfl
  noPool _ := rfl
  refcnt e := (BitVec.add_zero (world.exchanges e).refcnt).symm
  addedOnce e some := by omega
  kept e := by
    have move := kept e
    have stays :
        mentions (world.setSession s session) e + weigh (refs e) new =
          mentions world e + weigh (refs e) old := by
      show world.queueIn.count e + owed world.call e +
          world.queueOut.count e + world.contexts.count e +
            ((if world.owner e = s then session
                else world.sessions (world.owner e)).list.count e) +
              weigh (refs e) new = _
      unfold mentions
      by_cases here : world.owner e = s
      · rw [if_pos here, here]
        omega
      · rw [if_neg here]
        have absent : (world.sessions s).list.count e = 0 := by
          apply List.count_eq_zero.mpr
          intro member
          exact here (accounts.listed s e member).2
        have absentAfter : session.list.count e = 0 := by
          apply List.count_eq_zero.mpr
          intro member
          exact here (accounts.listed s e (listed e member)).2
        omega
    have same : keptAll (world.setSession s session) e =
        (if (world.exchanges e).sent then 0 else 1) +
          mentions (world.setSession s session) e := rfl
    rw [same]
    unfold keptAll
    omega
  sent _ _ := rfl
  freeing := freeing
  sessionRefcnt := part_setSession Session.refcnt refcnt
  sessionFrees := part_setSession Session.frees frees
  sessionKept := sessionKept
  sessionFresh other beyond := by
    show (if other = s then session else world.sessions other) = _
    rw [if_neg]
    omega
  listed other e member := by
    have inside :
        e ∈ (if other = s then session else world.sessions other).list :=
      member
    by_cases here : other = s
    · rw [if_pos here] at inside
      rw [here]
      exact listed e inside
    · rw [if_neg here] at inside
      exact inside
  used e absent := by
    have none := accounts.unused absent
    have move := used e
    omega
  calling := accounts.calling
  starting := by
    have limit := accounts.starting
    show weigh starts new + total starts world.ops +
        running world.call ≤ 1 + weigh starts old
    omega

/-- A step that changes an exchange, and may take another reference to it. -/
theorem Keeps.of_exchange {e more : Nat} {exchange : Exchange}
    (below : e < world.nextExchange)
    (owner : exchange.session = world.owner e)
    (frees : exchange.frees = (world.exchanges e).frees)
    (noPool : exchange.noPool = (world.exchanges e).noPool)
    (refcnt :
      exchange.refcnt = (world.exchanges e).refcnt + BitVec.ofNat 16 more)
    (moreOnce :
      0 < more →
        more = 1 ∧ References.holders world e ≠ 0 ∧
          BelowLimit (world.exchanges e).refcnt)
    (exchanges : after.exchanges = (world.setExchange e exchange).exchanges)
    (steady : Steady world after)
    (neutral : Neutral old new)
    (kept :
      ∀ other,
        keptAll after other + weigh (refs other) new =
          keptAll world other + weigh (refs other) old +
            if other = e then more else 0)
    (used :
      ∀ other, other ∉ after.contexts →
        total (uses other) world.ops + weigh (uses other) new =
          weigh (uses other) old)
    (calling : ∀ call, after.call = some call → call.exchange ∈ after.contexts)
    (starting :
      weigh starts new + total starts world.ops + running after.call ≤
        1 + weigh starts old) :
    Keeps world after old new fun other => if other = e then more else 0 := by
  have at_e : after.exchanges e = exchange := by
    rw [exchanges]
    exact if_pos rfl
  have elsewhere {other : Nat} (different : other ≠ e) :
      after.exchanges other = world.exchanges other := by
    rw [exchanges]
    exact if_neg different
  constructor
  case nextExchange => exact steady.nextExchange
  case nextSession => exact steady.nextSession
  case ops => exact steady.ops
  case faults => exact steady.faults
  case owner =>
    intro other
    unfold World.owner
    rw [exchanges]
    exact part_setExchange Exchange.session owner other
  case frees =>
    rw [exchanges]
    exact part_setExchange Exchange.frees frees
  case noPool =>
    rw [exchanges]
    exact part_setExchange Exchange.noPool noPool
  case refcnt =>
    intro other
    by_cases here : other = e
    · rw [here, at_e, refcnt, if_pos rfl]
    · rw [elsewhere here, if_neg here]
      exact (BitVec.add_zero _).symm
  case addedOnce =>
    intro other some
    by_cases here : other = e
    · rw [if_pos here] at some
      rw [here, if_pos rfl]
      have once := moreOnce some
      exact ⟨once.1, below, once.2.1, once.2.2⟩
    · rw [if_neg here] at some
      omega
  case kept => exact kept
  case sent =>
    intro other beyond
    rw [elsewhere (by omega)]
  case freeing => exact neutral.freeing
  case sessionRefcnt =>
    intro s
    rw [steady.sessions]
  case sessionFrees =>
    intro s
    rw [steady.sessions]
  case sessionKept =>
    intro s
    have move := neutral.sessionKept s
    unfold ownRef
    rw [steady.sessions]
    omega
  case sessionFresh =>
    intro s _
    rw [steady.sessions]
  case listed =>
    intro s other member
    rw [← steady.sessions]
    exact member
  case used => exact used
  case calling => exact calling
  case starting => exact starting

end Moves

theorem begin_same (world : World) (thread : Thread) :
    world.begin thread (world.ops thread) = world := by
  have unchanged : setOps world.ops thread (world.ops thread) = world.ops := by
    funext other
    unfold setOps
    by_cases here : other = thread
    · rw [if_pos here, here]
    · rw [if_neg here]
  unfold World.begin
  rw [unchanged]

theorem begin_twice (world : World) (thread : Thread)
    (first second : List Op) :
    (world.begin thread first).begin thread second =
      world.begin thread second := by
  have replaced :
      setOps (setOps world.ops thread first) thread second =
        setOps world.ops thread second := by
    funext other
    unfold setOps
    by_cases here : other = thread
    · rw [if_pos here, if_pos here]
    · rw [if_neg here, if_neg here, if_neg here]
  unfold World.begin
  dsimp only
  rw [replaced]

/-- A step that is not one of an operation. -/
theorem Accounts.data {world after : World} (accounts : Accounts world)
    {added : Nat → Nat}
    (keeps : Keeps world after [] [] added) :
    Accounts after := by
  have same : after.begin .server ([] ++ world.ops .server) = after := by
    rw [List.nil_append, ← keeps.ops]
    exact begin_same after .server
  have pending : world.ops .server = [] ++ world.ops .server := rfl
  rw [← same]
  exact accounts.keeps pending keeps

/-- A thread goes on without a change to anything that counts. -/
theorem Accounts.alike {world : World} (accounts : Accounts world)
    {thread : Thread}
    {old new rest : List Op}
    (pending : world.ops thread = old ++ rest)
    (alike : Alike world.contexts old new) :
    Accounts (world.begin thread (new ++ rest)) := by
  have keeps : Keeps world world old new fun _ => 0 := by
    apply Keeps.of_world rfl ⟨rfl, rfl, rfl, rfl, rfl⟩ alike.toNeutral
    case kept =>
      intro e
      rw [alike.kept e]
    case used =>
      intro e absent
      have change := total_setOps (uses e) world.ops thread rest
      have none := accounts.unused absent
      have limit := alike.used e absent
      rw [pending, List.map_append, List.sum_append] at change
      unfold weigh at limit ⊢
      omega
    case calling => exact accounts.calling
    case starting =>
      have bound := accounts.starting
      have limit := alike.starting
      omega
  exact accounts.keeps pending keeps

/-- A thread that has just been left with the rest has something else to do. -/
theorem Accounts.next {world : World} {thread : Thread} {rest : List Op}
    (accounts : Accounts (world.begin thread rest))
    (op : Op)
    (alike : Alike world.contexts [] [op]) :
    Accounts (world.begin thread (op :: rest)) := by
  have left : (world.begin thread rest).ops thread = [] ++ rest :=
    setOps_same world.ops thread rest
  have followed := accounts.alike left alike
  rw [begin_twice] at followed
  exact followed

/-- The accounts do not depend on the other fields of an exchange. -/
theorem Accounts.mark {world : World} (accounts : Accounts world)
    {exchange : Exchange}
    (below : e < world.nextExchange)
    (owner : exchange.session = world.owner e)
    (frees : exchange.frees = (world.exchanges e).frees)
    (noPool : exchange.noPool = (world.exchanges e).noPool)
    (refcnt : exchange.refcnt = (world.exchanges e).refcnt)
    (sent : exchange.sent = (world.exchanges e).sent) :
    Accounts (world.setExchange e exchange) := by
  have ownerSame (other : Nat) :
      (world.setExchange e exchange).owner other = world.owner other :=
    part_setExchange Exchange.session owner other
  have keeps :
      Keeps world (world.setExchange e exchange) [] [] fun other =>
        if other = e then 0 else 0 := by
    apply Keeps.of_exchange below owner frees noPool
    case refcnt =>
      rw [refcnt]
      exact (BitVec.add_zero _).symm
    case moreOnce =>
      intro impossible
      omega
    case exchanges => rfl
    case steady => exact ⟨rfl, rfl, rfl, rfl, rfl⟩
    case neutral => exact ⟨fun _ => rfl, fun _ => rfl⟩
    case kept =>
      intro other
      have mentioned :
          mentions (world.setExchange e exchange) other =
            mentions world other := by
        unfold mentions
        rw [ownerSame other]
        rfl
      unfold keptAll
      rw [mentioned, part_setExchange Exchange.sent sent, ite_self,
        Nat.add_zero]
    case used =>
      intro other absent
      rw [accounts.unused absent, Nat.zero_add]
    case calling => exact accounts.calling
    case starting =>
      have limit := accounts.starting
      show 0 + total starts world.ops + running world.call ≤ 1 + 0
      omega
  exact accounts.data keeps

/-- The accounts do not depend on the other fields of a session. -/
theorem Accounts.markSession {world : World} (accounts : Accounts world)
    {session : Session}
    (below : s < world.nextSession)
    (refcnt : session.refcnt = (world.sessions s).refcnt)
    (frees : session.frees = (world.sessions s).frees)
    (list : session.list = (world.sessions s).list)
    (closed : session.closed = (world.sessions s).closed) :
    Accounts (world.setSession s session) := by
  have keeps : Keeps world (world.setSession s session) [] [] fun _ => 0 := by
    apply Keeps.of_session accounts below refcnt frees
    case listed =>
      intro e member
      rw [← list]
      exact member
    case kept =>
      intro e
      rw [list]
    case freeing =>
      intro e
      rfl
    case sessionKept =>
      intro other
      rw [ownRef_setSession closed]
    case used =>
      intro e
      rfl
    case starting => exact Nat.le_refl 0
  exact accounts.data keeps

end Yimmo.Wsgi.Accounting
