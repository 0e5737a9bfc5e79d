import Yimmo.Wsgi.Pools

/-!
# The accounts along a run

Every step that meets the guard keeps the accounts.
-/

namespace Yimmo.Wsgi.Steps

open Yimmo.Lib.Threads
open Yimmo.Wsgi.Worker
open Yimmo.Wsgi.References
open Yimmo.Wsgi.Accounting
open Yimmo.Wsgi.Release
open Yimmo.Wsgi.Pools

variable
    {op : Op}
    {new : List Op}
    {s : Nat}
    {allocated : Bool}
    {next : List Nat}

/-! ## Where operations are pending -/

/-- The thread that an operation belongs to, if only one can perform it. -/
def home : Op → Option Thread
  | .popResponse => some .server
  | .exchangeDone _ => some .server
  | .lockCleanup _ => some .server
  | .releaseList _ => some .server
  | .unlockCleanup _ => some .server
  | .createExchange _ _ => some .server
  | .holdContext _ => some .worker
  | .checkClosed .newContext _ => some .worker
  | .tryLock .newContext _ => some .worker
  | .makeContext _ => some .worker
  | .unlockContext _ => some .worker
  | .issueRequest _ => some .worker
  | _ => none

/-- Every operation is pending where it belongs. -/
def Placed (world : World) : Prop :=
  ∀ thread, ∀ op ∈ world.ops thread, home op = none ∨ home op = some thread

theorem Placed.here {world : World} (placed : Placed world)
    {thread other : Thread}
    (member : op ∈ world.ops thread)
    (belongs : home op = some other) :
    thread = other := by
  rcases placed thread op member with anywhere | same
  · rw [belongs] at anywhere
    cases anywhere
  · rw [belongs] at same
    cases same
    rfl

@[simp]
theorem touchExchange_ops (world : World) (e : Nat) :
    (world.touchExchange e).ops = world.ops := by
  unfold World.touchExchange
  split_ifs <;> rfl

@[simp]
theorem touchSession_ops (world : World) (s : Nat) :
    (world.touchSession s).ops = world.ops := by
  unfold World.touchSession
  split_ifs <;> rfl

@[simp]
theorem touch_ops (world : World) (e : Nat) :
    (world.touch e).ops = world.ops := by
  unfold World.touch
  rw [touchSession_ops, touchExchange_ops]

@[simp]
theorem setExchange_ops (world : World) (e : Nat) (exchange : Exchange) :
    (world.setExchange e exchange).ops = world.ops :=
  rfl

@[simp]
theorem setSession_ops (world : World) (s : Nat) (session : Session) :
    (world.setSession s session).ops = world.ops :=
  rfl

@[simp]
theorem setLocked_ops (world : World) (s : Nat) (locked : Bool) :
    (world.setLocked s locked).ops = world.ops := by
  unfold World.setLocked
  rw [setSession_ops, touchSession_ops]

@[simp]
theorem ymoWsgiExchangeIncref_ops (world : World) (e : Nat) :
    (world.ymoWsgiExchangeIncref e).ops = world.ops := by
  unfold World.ymoWsgiExchangeIncref
  rw [setExchange_ops, touchExchange_ops]

/-- Operations that have no thread of their own, or that of another. -/
def Follow (op : Op) (new : List Op) : Prop :=
  ∀ next ∈ new, home next = none ∨ home next = home op

theorem follow_nil (op : Op) : Follow op [] := by
  intro next member
  cases member

theorem follow_cons {next : Op} {rest : List Op}
    (first : home next = none ∨ home next = home op)
    (others : Follow op rest) :
    Follow op (next :: rest) := by
  intro other member
  rcases List.mem_cons.mp member with rfl | behind
  · exact first
  · exact others other behind

theorem follow_failed (purpose : Purpose) (e : Nat) (op : Op) :
    Follow op (World.failed purpose e) := by
  cases purpose with
  | newContext =>
      exact follow_cons (.inl rfl) (follow_cons (.inl rfl) (follow_nil op))
  | startResponse => exact follow_nil op

theorem perform_lockCleanup (world : World) (allocated : Bool) (s : Nat) :
    world.perform allocated (.lockCleanup s) =
      if (world.sessions s).locked then none
      else some (world.setLocked s true, [.releaseList s]) :=
  rfl

theorem perform_tryLock (world : World) (allocated : Bool) (purpose : Purpose)
    (e : Nat) :
    world.perform allocated (.tryLock purpose e) =
      if ((world.touchExchange e).sessions
          ((world.touchExchange e).owner e)).locked then
        some
          ((world.touchExchange e).touchSession
              ((world.touchExchange e).owner e),
            World.failed purpose e)
      else
        some
          ((world.touchExchange e).setLocked
              ((world.touchExchange e).owner e) true,
            [World.entered purpose e]) :=
  rfl

theorem perform_queueOut (world : World) (allocated : Bool) (e : Nat)
    (item : Option Bytes)
    (done : Bool) :
    world.perform allocated (.queueOut e item done) =
      if world.lockOut then none
      else some (world.ymoWsgiWorkerQueueOut e item done) :=
  rfl

theorem headerCb_ops (world : World) (s : Nat) (upgrade : Bool)
    (top : Option (Nat × Option Nat)) :
    (world.ymoWsgiServerHeaderCb s upgrade top).ops = world.ops := by
  cases upgrade with
  | true => rfl
  | false =>
      have free :
          ((world.touchSession s).touchItem s top).ops = world.ops := by
        rw [← touchSession_ops world s]
        unfold World.touchItem
        split
        · rfl
        · split_ifs <;> rfl
      show ((world.ymoWsgiSessionCreateExchange s world.nextResponse
        top).ymoWsgiExchangeIncref world.nextExchange).ops = _
      rw [ymoWsgiExchangeIncref_ops]
      exact free

/-- What an operation does itself is not to begin another. -/
theorem perform_ops {world : World} {result : World × List Op}
    (performed : world.perform allocated op = some result) :
    result.1.ops = world.ops := by
  cases still : quiet op with
  | true => exact (perform_quiet performed still).1.ops
  | false =>
      cases op with
      | sessionDecref s =>
          cases performed
          exact touchSession_ops world s
      | exchangeFree e =>
          cases performed
          unfold World.ymoWsgiExchangeFree
          dsimp only
          split_ifs
          · rw [setExchange_ops, touchExchange_ops]
          · rw [setSession_ops, setExchange_ops, touchExchange_ops]
      | returnItem s item =>
          cases performed
          exact touchSession_ops world s
      | createExchange s top =>
          cases performed
          exact headerCb_ops world s false top
      | _ => cases still

/-- An operation leaves its thread with operations that belong there. -/
theorem perform_follow {world : World} {result : World × List Op}
    (performed : world.perform allocated op = some result) :
    Follow op result.2 := by
  have one {next : Op} (first : home next = none ∨ home next = home op) :
      Follow op [next] :=
    follow_cons first (follow_nil op)
  cases op with
  | release holder e =>
      cases performed
      unfold World.ymoWsgiExchangeDecref
      dsimp only
      split_ifs
      · exact follow_cons (.inl rfl) (one (.inl rfl))
      · exact follow_nil _
  | exchangeFree e =>
      cases performed
      unfold World.ymoWsgiExchangeFree
      dsimp only
      split_ifs
      · exact follow_nil _
      · exact one (.inl rfl)
  | popResponse =>
      cases performed
      unfold World.ymoWsgiServerQueueResponse
      split
      · exact follow_nil _
      · dsimp only
        split_ifs
        all_goals exact follow_cons (.inl rfl) (one (.inr rfl))
  | exchangeDone e =>
      cases performed
      unfold World.ymoWsgiSessionExchangeDone
      dsimp only
      split
      · exact follow_cons (.inl rfl) (one (.inr rfl))
      · exact follow_cons (.inl rfl) (follow_cons (.inl rfl) (one (.inr rfl)))
  | lockCleanup s =>
      rw [perform_lockCleanup] at performed
      split_ifs at performed
      cases performed
      exact one (.inr rfl)
  | releaseList s =>
      cases performed
      unfold World.ymoWsgiSessionCleanupNext
      dsimp only
      split
      · exact one (.inr rfl)
      · exact follow_cons (.inl rfl) (one (.inr rfl))
  | checkClosed purpose e =>
      cases performed
      dsimp only
      split_ifs
      · exact follow_failed purpose e _
      · cases purpose <;> exact one (.inr rfl)
  | tryLock purpose e =>
      rw [perform_tryLock] at performed
      split_ifs at performed
      · cases performed
        exact follow_failed purpose e _
      · cases performed
        cases purpose <;> exact one (.inr rfl)
  | makeContext e =>
      cases performed
      unfold World.ymoWsgiCtxUpdateEnviron
      dsimp only
      split_ifs
      · exact follow_failed .newContext e _
      · exact one (.inr rfl)
      · exact follow_failed .newContext e _
  | bodyAppend e item =>
      cases performed
      unfold World.ymoWsgiWorkerResponseBodyAppend
      dsimp only
      split_ifs
      all_goals exact one (.inl rfl)
  | queueOut e item done =>
      rw [perform_queueOut] at performed
      split_ifs at performed
      cases performed
      unfold World.ymoWsgiWorkerQueueOut
      dsimp only
      split_ifs
      · exact one (.inl rfl)
      · exact follow_nil _
  | unlockCleanup s =>
      cases performed
      exact one (.inl rfl)
  | holdContext e =>
      cases performed
      exact one (.inr rfl)
  | unlockContext e =>
      cases performed
      exact one (.inr rfl)
  | _ =>
      cases performed
      exact follow_nil _

theorem mem_setOps_begin {ops : Thread → List Op} {thread other : Thread}
    (member : op ∈ setOps ops thread new other) :
    other = thread ∧ op ∈ new ∨ op ∈ ops other := by
  by_cases here : other = thread
  · rw [here, setOps_same] at member
    exact Or.inl ⟨here, member⟩
  · rw [setOps_other ops new here] at member
    exact Or.inr member

/-- A thread that begins something that belongs to it. -/
theorem Placed.begin {world after : World} (placed : Placed world)
    (ops : after.ops = world.ops)
    {thread : Thread}
    (belong : ∀ op ∈ new, home op = none ∨ home op = some thread) :
    Placed (after.begin thread new) := by
  intro other op member
  have moved : op ∈ setOps world.ops thread new other := by
    rw [← ops]
    exact member
  rcases mem_setOps_begin moved with ⟨here, inside⟩ | before
  · rw [here]
    exact belong op inside
  · exact placed other op before

theorem Placed.one {world after : World} (placed : Placed world)
    (ops : after.ops = world.ops)
    {thread : Thread}
    (belongs : home op = none ∨ home op = some thread) :
    Placed (after.begin thread [op]) := by
  apply placed.begin ops
  intro other member
  rw [List.mem_singleton.mp member]
  exact belongs

theorem Placed.of_ops {world after : World} (placed : Placed world)
    (ops : after.ops = world.ops) :
    Placed after := by
  unfold Placed
  rw [ops]
  exact placed

theorem requestCb_ops (world : World) (s response : Nat) :
    (world.ymoWsgiServerRequestCb s response).ops = world.ops := by
  unfold World.ymoWsgiServerRequestCb
  dsimp only
  split
  · rfl
  · rw [ymoWsgiExchangeIncref_ops]
    rfl

/-- Every step leaves the operations where they belong. -/
theorem Placed.step {world : World} (placed : Placed world) (action : Action) :
    Placed (world.step action) := by
  have does := does world action
  generalize world.step action = after at does
  cases does with
  | nothing => exact placed
  | sessionInit => exact placed.of_ops rfl
  | upgrade s => exact placed.of_ops (headerCb_ops world s true none)
  | headerCb s => exact placed.one (touchSession_ops world s) (.inr rfl)
  | requestCb s => exact placed.of_ops (requestCb_ops world s _)
  | sessionCleanup s =>
      apply placed.one _ (.inr rfl)
      rw [setSession_ops, touchSession_ops]
  | queueResponses => exact placed.one rfl (.inr rfl)
  | popRequest => exact placed.one rfl (.inr rfl)
  | startResponse => exact placed.one rfl (.inl rfl)
  | read _ e => exact placed.of_ops (touchExchange_ops world e)
  | write => exact placed.one rfl (.inl rfl)
  | iterates => exact placed.of_ops rfl
  | returned => exact placed.of_ops rfl
  | yielded => exact placed.one rfl (.inl rfl)
  | exhausted => exact placed.one rfl (.inl rfl)
  | callEnd => exact placed.of_ops rfl
  | dropContext => exact placed.one rfl (.inl rfl)
  | @work thread allocated op rest new after pending performed =>
      have here := placed thread op (by
        rw [pending]
        exact List.mem_cons_self)
      apply placed.begin (perform_ops performed)
      intro next member
      rcases List.mem_append.mp member with pushed | left
      · rcases perform_follow performed next pushed with anywhere | same
        · exact Or.inl anywhere
        · rw [same]
          exact here
      · apply placed thread next
        rw [pending]
        exact List.mem_cons_of_mem op left

/-! ## The server's operations -/

section Server

variable
    {world : World}
    {thread : Thread}
    {rest : List Op}

/-- A thread goes on without a change to anything that counts. -/
theorem accounts_goOn (accounts : Accounts world)
    (pending : world.ops thread = op :: rest)
    (alike : Alike world.contexts [op] new) :
    Accounts (world.begin thread (new ++ rest)) :=
  accounts.alike pending alike

/-- A thread goes on with a change to a session that does not count. -/
theorem accounts_goOnSession (accounts : Accounts world) {session : Session}
    (pending : world.ops thread = op :: rest)
    (below : s < world.nextSession)
    (refcnt : session.refcnt = (world.sessions s).refcnt)
    (frees : session.frees = (world.sessions s).frees)
    (list : session.list = (world.sessions s).list)
    (closed : session.closed = (world.sessions s).closed)
    (alike : Alike world.contexts [op] new) :
    Accounts ((world.setSession s session).begin thread (new ++ rest)) := by
  have marked := accounts.markSession below refcnt frees list closed
  exact accounts_goOn marked pending alike

/-- The lock of a session that is in use. -/
theorem accounts_setLocked (accounts : Accounts world) (locked : Bool)
    (pending : world.ops thread = op :: rest)
    (below : s < world.nextSession)
    (present : (world.sessions s).frees = 0)
    (alike : Alike world.contexts [op] new) :
    Accounts ((world.setLocked s locked).begin thread (new ++ rest)) := by
  unfold World.setLocked
  rw [touchSession_eq present]
  exact accounts_goOnSession accounts pending below rfl rfl rfl rfl alike

theorem weigh_failed_refs (e other : Nat) :
    weigh (refs other) (World.failed .newContext e) =
      if e = other then 2 else 0 := by
  show (if e = other then 1 else 0) + ((if e = other then 1 else 0) + 0) = _
  split_ifs <;> rfl

/-- The exchange at the head of the list of a session. -/
theorem present_head (accounts : Accounts world) {s head : Nat}
    (list : (world.sessions s).list = head :: next) :
    head < world.nextExchange ∧ (world.exchanges head).frees = 0 ∧
      (world.sessions (world.owner head)).frees = 0 := by
  have inList : head ∈ (world.sessions s).list := by
    rw [list]
    exact List.mem_cons_self
  have listed := accounts.listed s head inList
  have count := List.count_pos_iff.mpr inList
  rw [← listed.2] at count
  apply accounts.present
  unfold mentions
  omega

/-- The list's reference goes to an operation. -/
theorem accounts_popHead (accounts : Accounts world) {s head : Nat}
    (pending : world.ops thread = op :: rest)
    (below : s < world.nextSession)
    (list : (world.sessions s).list = head :: next)
    (kept : ∀ e, weigh (refs e) new = refs e op + if head = e then 1 else 0)
    (neutral : Neutral [op] new)
    (used : ∀ e, weigh (uses e) new = uses e op)
    (starting : weigh starts new ≤ starts op) :
    Accounts
      ((world.setSession s
          { world.sessions s with list := next }).begin thread
        (new ++ rest)) := by
  have split : world.ops thread = [op] ++ rest := pending
  have keeps :
      Keeps world
        (world.setSession s { world.sessions s with list := next })
        [op] new fun _ => 0 := by
    apply Keeps.of_session accounts below
    case refcnt => rfl
    case frees => rfl
    case listed =>
      intro e inside
      rw [list]
      exact List.mem_cons_of_mem head inside
    case kept =>
      intro e
      rw [list, List.count_cons, weigh_one, kept e]
      show next.count e + _ = _
      simp only [beq_iff_eq]
      omega
    case freeing => exact neutral.freeing
    case sessionKept =>
      intro other
      rw [ownRef_setSession, neutral.sessionKept other]
      rfl
    case used =>
      intro e
      rw [weigh_one, used e]
    case starting =>
      rw [weigh_one]
      exact starting
  exact accounts.keeps split keeps

/-- `ymo_wsgi_session_exchange_done`. -/
theorem accounts_exchangeDone (accounts : Accounts world) {e : Nat}
    (pending : world.ops thread = .exchangeDone e :: rest) :
    Accounts
      ((world.ymoWsgiSessionExchangeDone e).1.begin thread
        ((world.ymoWsgiSessionExchangeDone e).2 ++ rest)) := by
  have member := mem_pending pending
  have present := accounts.ofOp member (if_pos rfl)
  have known := accounts.owner e present.1
  unfold World.ymoWsgiSessionExchangeDone
  rw [touch_eq present.2.1 present.2.2]
  dsimp only
  split
  · exact accounts_goOn accounts pending (.of_weights fun _ _ => rfl)
  · rename_i head next list
    have presentHead := present_head accounts list
    rw [touchExchange_eq presentHead.2.1 presentHead.2.2]
    apply accounts_popHead accounts pending known list
    case kept =>
      intro other
      show (if head = other then 1 else 0) +
          ((if e = other then 1 else 0) + 0) =
        (if e = other then 1 else 0) + (if head = other then 1 else 0)
      omega
    case neutral => exact ⟨fun _ => rfl, fun _ => rfl⟩
    case used =>
      intro other
      rfl
    case starting => exact Nat.le_refl 0

/-- The loop of `ymo_wsgi_session_cleanup`. -/
theorem accounts_releaseList (accounts : Accounts world)
    (pending : world.ops thread = .releaseList s :: rest) :
    Accounts
      ((world.ymoWsgiSessionCleanupNext s).1.begin thread
        ((world.ymoWsgiSessionCleanupNext s).2 ++ rest)) := by
  have member := mem_pending pending
  have present := accounts.ofSessionOp member (if_pos rfl)
  unfold World.ymoWsgiSessionCleanupNext
  rw [touchSession_eq present.2]
  dsimp only
  split
  · exact accounts_goOn accounts pending (.of_weights fun _ _ => rfl)
  · rename_i head next list
    have presentHead := present_head accounts list
    rw [touchExchange_eq presentHead.2.1 presentHead.2.2]
    have moved :
        Accounts
          ((world.setSession s
              { world.sessions s with list := next }).begin thread
            ([.release .sessionList head, .releaseList s] ++ rest)) := by
      apply accounts_popHead accounts pending present.1 list
      case kept =>
        intro other
        show (if head = other then 1 else 0) + (0 + 0) =
          0 + if head = other then 1 else 0
        omega
      case neutral => exact ⟨fun _ => rfl, fun _ => Nat.zero_add _⟩
      case used =>
        intro other
        rfl
      case starting => exact Nat.le_refl 0
    have marked :
        Accounts
          (((world.setSession s
              { world.sessions s with list := next }).begin thread
            ([.release .sessionList head, .releaseList s] ++
              rest)).setExchange head
                { world.exchanges head with done := true }) :=
      moved.mark presentHead.1 rfl rfl rfl rfl rfl
    exact marked

/-- What a turn of the loop changes in its exchange. -/
theorem accounts_popped
    (accounts : Accounts world)
    {after : World}
    {e : Nat}
    {left : List Nat}
    (exchange : Exchange)
    (pending : world.ops thread = .popResponse :: rest)
    (queue : world.queueOut = e :: left)
    (owner : exchange.session = world.owner e)
    (frees : exchange.frees = (world.exchanges e).frees)
    (noPool : exchange.noPool = (world.exchanges e).noPool)
    (refcnt : exchange.refcnt = (world.exchanges e).refcnt)
    (kept :
      weigh (refs e) new + (if exchange.sent then 0 else 1) =
        (if (world.exchanges e).sent then 0 else 1) + 1)
    (others : ∀ other, other ≠ e → weigh (refs other) new = 0)
    (neutral : Neutral [.popResponse] new)
    (used : ∀ other, weigh (uses other) new = 0)
    (starting : weigh starts new = 0)
    (exchanges : after.exchanges = (world.setExchange e exchange).exchanges)
    (steady : Steady world after)
    (queueIn : after.queueIn = world.queueIn)
    (queueOut : after.queueOut = left)
    (call : after.call = world.call)
    (contexts : after.contexts = world.contexts) :
    Accounts (after.begin thread (new ++ rest)) := by
  have split : world.ops thread = [.popResponse] ++ rest := pending
  have inQueue : 0 < mentions world e := by
    unfold mentions
    rw [queue, List.count_cons_self]
    omega
  have present := accounts.present (e := e) (by omega)
  have at_e : after.exchanges e = exchange := by
    rw [exchanges]
    exact if_pos rfl
  have elsewhere {other : Nat} (different : other ≠ e) :
      after.exchanges other = world.exchanges other := by
    rw [exchanges]
    exact if_neg different
  have ownerSame (other : Nat) : after.owner other = world.owner other := by
    unfold World.owner
    by_cases here : other = e
    · rw [here, at_e]
      exact owner
    · rw [elsewhere here]
  have keeps :
      Keeps world after [.popResponse] new fun other =>
        if other = e then 0 else 0 := by
    apply Keeps.of_exchange present.1 owner frees noPool
    case refcnt =>
      rw [refcnt]
      exact (BitVec.add_zero _).symm
    case moreOnce =>
      intro impossible
      omega
    case exchanges => exact exchanges
    case steady => exact steady
    case neutral => exact neutral
    case kept =>
      intro other
      have none : weigh (refs other) [.popResponse] = 0 := rfl
      have mentioned :
          mentions after other + (if other = e then 1 else 0) =
            mentions world other := by
        unfold mentions
        rw [ownerSame, steady.sessions, queueIn, queueOut, call, contexts,
          queue, List.count_cons]
        have flip :
            (if e = other then 1 else 0) = if other = e then 1 else 0 := by
          simp only [eq_comm]
        simp only [beq_iff_eq]
        omega
      unfold keptAll
      rw [none, ite_self]
      by_cases here : other = e
      · rw [here, if_pos rfl] at mentioned
        rw [here, at_e]
        omega
      · rw [if_neg here] at mentioned
        rw [elsewhere here, others other here]
        omega
    case used =>
      intro other absent
      rw [contexts] at absent
      rw [used, accounts.unused absent]
      rfl
    case calling =>
      intro running same
      rw [call] at same
      rw [contexts]
      exact accounts.calling running same
    case starting =>
      have limit := accounts.starting
      have none : weigh starts [.popResponse] = 0 := rfl
      rw [starting, none, call]
      omega
  exact accounts.keeps split keeps

/-- `ymo_wsgi_server_queue_responses`. -/
theorem accounts_popResponse (accounts : Accounts world)
    (pending : world.ops thread = .popResponse :: rest) :
    Accounts
      (world.ymoWsgiServerQueueResponse.1.begin thread
        (world.ymoWsgiServerQueueResponse.2 ++ rest)) := by
  unfold World.ymoWsgiServerQueueResponse
  split
  · have unlocked : Accounts { world with lockOut := false } :=
      ⟨accounts.exchange, accounts.freed, accounts.fresh,
        accounts.session, accounts.sessionFreed, accounts.sessionFresh,
        accounts.owner, accounts.listed, accounts.used,
        accounts.calling, accounts.starting, accounts.pooled,
        accounts.untouched⟩
    exact accounts_goOn unlocked pending (.of_weights fun _ _ => rfl)
  · rename_i e left queue
    have inQueue : 0 < mentions world e := by
      unfold mentions
      rw [queue, List.count_cons_self]
      omega
    have present := accounts.present (e := e) (by omega)
    have skipRefs (other : Nat) :
        weigh (refs other) [.release .queue e, .popResponse] =
          if e = other then 1 else 0 :=
      rfl
    have sentRefs (other : Nat) :
        weigh (refs other) [.release .server e, .exchangeDone e] =
          if e = other then 2 else 0 := by
      show (if e = other then 1 else 0) +
        ((if e = other then 1 else 0) + 0) = _
      split_ifs <;> rfl
    rw [touch_eq present.2.1 present.2.2]
    dsimp only
    split_ifs with closed sent finish
    · have unchanged :
          (world.setExchange e (world.exchanges e)).exchanges =
            world.exchanges := by
        funext other
        show (if other = e then world.exchanges e
          else world.exchanges other) = _
        by_cases here : other = e
        · rw [if_pos here, here]
        · rw [if_neg here]
      exact
        accounts_popped accounts
          (world.exchanges e)
          pending queue rfl rfl rfl rfl
          (by
            rw [skipRefs, if_pos rfl]
            exact Nat.add_comm _ _)
          (fun other different => by rw [skipRefs, if_neg (Ne.symm different)])
          ⟨fun _ => rfl, fun _ => rfl⟩ (fun _ => rfl) rfl unchanged.symm
          ⟨rfl, rfl, rfl, rfl, rfl⟩ rfl rfl rfl rfl
    · exact
        accounts_popped accounts
          { world.exchanges e with sent := true }
          pending queue rfl rfl rfl rfl
          (by rw [sentRefs, if_pos rfl, if_neg sent]; rfl)
          (fun other different => by rw [sentRefs, if_neg (Ne.symm different)])
          ⟨fun _ => rfl, fun _ => rfl⟩ (fun _ => rfl) rfl rfl
          ⟨rfl, rfl, rfl, rfl, rfl⟩ rfl rfl rfl rfl
    · have unsent : ¬(world.exchanges e).sent = true := by
        simp only [Bool.and_eq_true, Bool.not_eq_true'] at finish
        rw [Bool.not_eq_true]
        exact finish.2
      exact
        accounts_popped accounts
          { world.exchanges e with bodyData := [], sent := true }
          pending queue rfl rfl rfl rfl
          (by rw [sentRefs, if_pos rfl, if_neg unsent]; rfl)
          (fun other different => by rw [sentRefs, if_neg (Ne.symm different)])
          ⟨fun _ => rfl, fun _ => rfl⟩ (fun _ => rfl) rfl rfl
          ⟨rfl, rfl, rfl, rfl, rfl⟩ rfl rfl rfl rfl
    · exact
        accounts_popped accounts
          { world.exchanges e with bodyData := [] }
          pending queue rfl rfl rfl rfl
          (by
            rw [skipRefs, if_pos rfl]
            exact Nat.add_comm _ _)
          (fun other different => by rw [skipRefs, if_neg (Ne.symm different)])
          ⟨fun _ => rfl, fun _ => rfl⟩ (fun _ => rfl) rfl rfl
          ⟨rfl, rfl, rfl, rfl, rfl⟩ rfl rfl rfl rfl

end Server

/-! ## The operations of the worker and of Python -/

section Python

variable
    {world : World}
    {thread : Thread}
    {rest : List Op}
    {e : Nat}

/-- A thread takes a reference, and has it or keeps it in the world. -/
theorem accounts_incref
    (accounts : Accounts world)
    {after : World}
    {old new : List Op}
    (exchange : Exchange)
    (pending : world.ops thread = old ++ rest)
    (below : e < world.nextExchange)
    (present : holders world e ≠ 0)
    (limit : BelowLimit (world.exchanges e).refcnt)
    (owner : exchange.session = world.owner e)
    (frees : exchange.frees = (world.exchanges e).frees)
    (noPool : exchange.noPool = (world.exchanges e).noPool)
    (refcnt : exchange.refcnt = (world.exchanges e).refcnt + 1)
    (sent : exchange.sent = (world.exchanges e).sent)
    (kept :
      ∀ other,
        after.queueIn.count other + owed after.call other +
              after.queueOut.count other + weigh (refs other) new =
          world.queueIn.count other + owed world.call other +
                world.queueOut.count other + weigh (refs other) old +
            if other = e then 1 else 0)
    (neutral : Neutral old new)
    (used : ∀ other, weigh (uses other) new ≤ weigh (uses other) old)
    (starting : weigh starts new ≤ weigh starts old)
    (exchanges : after.exchanges = (world.setExchange e exchange).exchanges)
    (steady : Steady world after)
    (contexts : after.contexts = world.contexts)
    (calling : ∀ call, after.call = some call → call.exchange ∈ world.contexts)
    (runs : running after.call = running world.call) :
    Accounts (after.begin thread (new ++ rest)) := by
  have within (weight : Op → Nat) :
      weigh weight old ≤ total weight world.ops := by
    have change := total_setOps weight world.ops thread rest
    rw [pending, List.map_append, List.sum_append] at change
    unfold weigh
    omega
  have keeps :
      Keeps world after old new fun other => if other = e then 1 else 0 := by
    apply Keeps.of_exchange below owner frees noPool
    case refcnt => exact refcnt
    case moreOnce =>
      intro _
      exact ⟨rfl, present, limit⟩
    case exchanges => exact exchanges
    case steady => exact steady
    case neutral => exact neutral
    case kept =>
      intro other
      have move := kept other
      have ownerSame : after.owner other = world.owner other := by
        unfold World.owner
        rw [exchanges]
        exact part_setExchange Exchange.session owner other
      unfold keptAll mentions
      rw [ownerSame, exchanges, part_setExchange Exchange.sent sent,
        steady.sessions, contexts]
      omega
    case used =>
      intro other absent
      rw [contexts] at absent
      have none := accounts.unused absent
      have bound := used other
      have limit := within (uses other)
      omega
    case calling =>
      intro call same
      rw [contexts]
      exact calling call same
    case starting =>
      have bound := accounts.starting
      rw [runs]
      omega
  exact accounts.keeps pending keeps

/-- `ymo_wsgi_ctx_update_environ` takes the context's reference. -/
theorem accounts_holdContext (accounts : Accounts world)
    (pending : world.ops thread = .holdContext e :: rest)
    (limit : BelowLimit (world.exchanges e).refcnt) :
    Accounts
      ((world.ymoWsgiExchangeIncref e).begin thread
        ([.checkClosed .newContext e] ++ rest)) := by
  have member := mem_pending pending
  have one : refs e (.holdContext e) = 1 := if_pos rfl
  have single := le_total (refs e) member
  have present := accounts.ofOp member one
  have some : holders world e ≠ 0 := by
    rw [holders_eq]
    omega
  have split : world.ops thread = [.holdContext e] ++ rest := pending
  rw [ymoWsgiExchangeIncref_eq present.2.1 present.2.2]
  apply accounts_incref accounts
    { world.exchanges e with refcnt := (world.exchanges e).refcnt + 1 }
    split present.1 some limit
  case kept =>
    intro other
    show _ + ((if e = other then 2 else 0) + 0) =
      _ + ((if e = other then 1 else 0) + 0) + if other = e then 1 else 0
    by_cases here : other = e
    · rw [if_pos here, if_pos here.symm, if_pos here.symm]
      rfl
    · rw [if_neg here, if_neg (Ne.symm here), if_neg (Ne.symm here)]
      rfl
  case neutral => exact ⟨fun _ => rfl, fun _ => rfl⟩
  case used =>
    intro other
    exact Nat.le_refl 0
  case starting => exact Nat.le_refl 1
  case steady => exact ⟨rfl, rfl, rfl, rfl, rfl⟩
  case calling => exact accounts.calling
  all_goals rfl

/-- `ymo_wsgi_worker_response_body_append`, from the lock on. -/
theorem accounts_queueOut (accounts : Accounts world) {item : Option Bytes}
    {done : Bool}
    (pending : world.ops thread = .queueOut e item done :: rest)
    (owes : owed world.call e = 1)
    (limit : BelowLimit (world.exchanges e).refcnt) :
    Accounts
      ((world.ymoWsgiWorkerQueueOut e item done).1.begin thread
        ((world.ymoWsgiWorkerQueueOut e item done).2 ++ rest)) := by
  have inUse : 0 < mentions world e := by
    unfold mentions
    omega
  have present := accounts.present (e := e) (by omega)
  have positive : holders world e ≠ 0 := by
    rw [holders_eq]
    omega
  have split : world.ops thread = [.queueOut e item done] ++ rest := pending
  have counted :
      (world.touchSession (world.owner e)).ymoWsgiExchangeIncref e =
        world.setExchange e
          { world.exchanges e with
            refcnt := (world.exchanges e).refcnt + 1 } := by
    rw [touchSession_eq present.2.2]
    exact ymoWsgiExchangeIncref_eq present.2.1 present.2.2
  unfold World.ymoWsgiWorkerQueueOut
  rw [counted]
  dsimp only
  rw [setExchange_same, setExchange_twice]
  cases done with
  | false =>
      apply accounts_incref accounts
        { world.exchanges e with
          refcnt := (world.exchanges e).refcnt + 1
          bodyData := (world.exchanges e).bodyData ++ item.toList
          done := false }
        split present.1 positive limit
      case kept =>
        intro other
        have count := count_concat world.queueOut e other
        show world.queueIn.count other + owed world.call other +
            (world.queueOut ++ [e]).count other + 0 =
          world.queueIn.count other + owed world.call other +
            world.queueOut.count other + 0 + _
        omega
      case neutral => exact ⟨fun _ => rfl, fun _ => rfl⟩
      case used =>
        intro other
        exact Nat.zero_le _
      case starting => exact Nat.zero_le _
      case steady => exact ⟨rfl, rfl, rfl, rfl, rfl⟩
      case calling => exact accounts.calling
      all_goals rfl
  | true =>
      rcases found : world.call with _ | call
      · rw [found] at owes
        cases owes
      · have settled : call.exchange = e ∧ call.owes = true := by
          rw [found] at owes
          by_contra other
          rw [owed, if_neg other] at owes
          cases owes
        apply accounts_incref accounts
          { world.exchanges e with
            refcnt := (world.exchanges e).refcnt + 1
            bodyData := (world.exchanges e).bodyData ++ item.toList
            done := true }
          split present.1 positive limit
        case kept =>
          intro other
          have count := count_concat world.queueOut e other
          have after :
              owed
                  (world.call.map fun call =>
                    if call.exchange = e then { call with owes := false }
                    else call)
                  other = 0 := by
            rw [found]
            show owed (some (if call.exchange = e then _ else call)) other = 0
            rw [if_pos settled.1]
            exact if_neg (fun both => by cases both.2)
          have before :
              owed world.call other = if other = e then 1 else 0 := by
            rw [found]
            show (if call.exchange = other ∧ call.owes = true then 1
              else 0) = _
            rw [settled.1, settled.2]
            simp only [and_true, eq_comm]
          have release :
              weigh (refs other) [.release .worker e] =
                if other = e then 1 else 0 := by
            show (if e = other then 1 else 0) + 0 = _
            simp only [eq_comm, Nat.add_zero]
          have none : weigh (refs other) [.queueOut e item true] = 0 := rfl
          show world.queueIn.count other + owed (world.call.map _) other +
                (world.queueOut ++ [e]).count other +
              weigh (refs other) [.release .worker e] =
            world.queueIn.count other + owed world.call other +
                world.queueOut.count other +
              weigh (refs other) [.queueOut e item true] + _
          rw [after, release, none, before]
          omega
        case neutral => exact ⟨fun _ => rfl, fun _ => rfl⟩
        case used =>
          intro other
          exact Nat.zero_le _
        case starting => exact Nat.zero_le _
        case steady => exact ⟨rfl, rfl, rfl, rfl, rfl⟩
        case calling =>
          intro next same
          have mapped :
              world.call.map
                  (fun call =>
                    if call.exchange = e then { call with owes := false }
                    else call) =
                some next :=
            same
          rw [found] at mapped
          cases mapped
          show (if call.exchange = e then { call with owes := false }
            else call).exchange ∈ world.contexts
          rw [if_pos settled.1]
          exact accounts.calling call found
        case runs =>
          show running (world.call.map _) = running world.call
          rw [found]
          rfl
        all_goals rfl

/-- `ymo_wsgi_ctx_update_environ` makes the context. -/
theorem accounts_makeContext (accounts : Accounts world) (allocated : Bool)
    (pending : world.ops thread = .makeContext e :: rest) :
    Accounts
      ((world.ymoWsgiCtxUpdateEnviron allocated e).1.begin thread
        ((world.ymoWsgiCtxUpdateEnviron allocated e).2 ++ rest)) := by
  have member := mem_pending pending
  have present := accounts.ofOp member (if_pos rfl)
  have failing :
      Accounts (world.begin thread (World.failed .newContext e ++ rest)) := by
    apply accounts_goOn accounts pending
    exact
      ⟨⟨fun _ => rfl, fun _ => rfl⟩, weigh_failed_refs e,
        fun _ _ => Nat.le_refl 0, Nat.zero_le _⟩
  unfold World.ymoWsgiCtxUpdateEnviron
  rw [touchExchange_eq present.2.1 present.2.2]
  dsimp only
  split_ifs
  · exact failing
  · have split : world.ops thread = [.makeContext e] ++ rest := pending
    have keeps :
        Keeps world { world with contexts := world.contexts ++ [e] }
          [.makeContext e] [.unlockContext e] fun _ => 0 := by
      apply Keeps.of_world
      case exchanges => rfl
      case steady => exact ⟨rfl, rfl, rfl, rfl, rfl⟩
      case kept =>
        intro other
        have count :
            (world.contexts ++ [e]).count other =
              world.contexts.count other + if e = other then 1 else 0 := by
          rw [List.count_append, List.count_singleton]
          simp only [beq_iff_eq]
        have mentioned :
            mentions { world with contexts := world.contexts ++ [e] }
                other =
              mentions world other + if e = other then 1 else 0 := by
          unfold mentions
          show world.queueIn.count other + owed world.call other +
              world.queueOut.count other +
                (world.contexts ++ [e]).count other + _ = _
          rw [count]
          show _ + _ + (world.sessions (world.owner other)).list.count
            other = _
          omega
        rw [mentioned]
        show mentions world other + (if e = other then 1 else 0) +
            ((if e = other then 1 else 0) + 0) =
          mentions world other + ((if e = other then 2 else 0) + 0)
        split_ifs <;> rfl
      case neutral => exact ⟨fun _ => rfl, fun _ => rfl⟩
      case used =>
        intro other absent
        have before : other ∉ world.contexts := by
          intro inside
          exact absent (List.mem_append_left [e] inside)
        have different : other ≠ e := by
          intro same
          apply absent
          rw [same]
          exact List.mem_append_right _ List.mem_cons_self
        have none : uses other (.unlockContext e) = 0 := by
          apply if_neg
          simp only [Op.usedBy, beq_iff_eq]
          exact Ne.symm different
        rw [accounts.unused before, weigh_cons, none]
        rfl
      case calling =>
        intro call same
        exact List.mem_append_left [e] (accounts.calling call same)
      case starting =>
        have limit := accounts.starting
        show 1 + total starts world.ops + running world.call ≤ 1 + 1
        omega
    exact accounts.keeps split keeps
  · exact failing

/-- `ymo_wsgi_worker_issue_request` begins. -/
theorem accounts_issueRequest (accounts : Accounts world)
    (pending : world.ops thread = .issueRequest e :: rest) :
    Accounts
      (({ (world.touchExchange e).setExchange e
            { world.exchanges e with done := false } with
          call := some { exchange := e, phase := .calling, owes := true } } :
          World).begin thread rest) := by
  have member := mem_pending pending
  have present := accounts.ofOp member (if_pos rfl)
  have start := le_total starts member
  have isStart : starts (.issueRequest e) = 1 := rfl
  have bound := accounts.starting
  have idle : world.call = none := by
    by_contra some
    unfold running at bound
    rw [if_neg some] at bound
    omega
  have inUse : e ∈ world.contexts := by
    apply accounts.used e
    have single := le_total (uses e) member
    have used : uses e (.issueRequest e) = 1 := by
      apply if_pos
      simp only [Op.usedBy, beq_self_eq_true]
    omega
  have split : world.ops thread = [.issueRequest e] ++ rest := pending
  have called :
      Accounts
        (({ world with
            call := some { exchange := e, phase := .calling, owes := true } } :
            World).begin thread ([] ++ rest)) := by
    have keeps :
        Keeps world
          { world with
            call := some { exchange := e, phase := .calling, owes := true } }
          [.issueRequest e] [] fun _ => 0 := by
      apply Keeps.of_world
      case exchanges => rfl
      case steady => exact ⟨rfl, rfl, rfl, rfl, rfl⟩
      case kept =>
        intro other
        have before : owed world.call other = 0 := by
          rw [idle]
          rfl
        have mentioned :
            mentions
                { world with
                  call :=
                    some
                      { exchange := e
                        phase := .calling
                        owes := true } }
                other =
              mentions world other + if e = other then 1 else 0 := by
          unfold mentions
          rw [before]
          show world.queueIn.count other +
              (if e = other ∧ true = true then 1 else 0) +
                world.queueOut.count other +
                  world.contexts.count other +
                    (world.sessions (world.owner other)).list.count other = _
          simp only [and_true]
          omega
        rw [mentioned]
        rfl
      case neutral => exact ⟨fun _ => rfl, fun _ => rfl⟩
      case used =>
        intro other absent
        have none := accounts.unused absent
        have single := le_total (uses other) member
        have zero : uses other (.issueRequest e) = 0 := by
          have everywhere : total (uses other) world.ops = 0 := none
          omega
        rw [weigh_cons, zero]
        show total (uses other) world.ops + 0 = 0 + 0
        rw [none]
      case calling =>
        intro call same
        cases same
        exact inUse
      case starting =>
        show 0 + total starts world.ops + 1 ≤ 1 + (1 + 0)
        omega
    exact accounts.keeps split keeps
  rw [touchExchange_eq present.2.1 present.2.2]
  have marked :
      Accounts
        ((({ world with
            call := some { exchange := e, phase := .calling, owes := true } } :
            World).begin thread ([] ++ rest)).setExchange e
              { world.exchanges e with done := false }) :=
    called.mark present.1 rfl rfl rfl rfl rfl
  exact marked

theorem owed_setPhase (call : Option Call) (phase : Phase) (other : Nat) :
    owed (call.map fun call => { call with phase := phase }) other =
      owed call other := by
  cases call <;> rfl

/-- The call goes on to another part. -/
theorem accounts_setPhase (accounts : Accounts world) (phase : Phase) :
    Accounts (world.setPhase phase) := by
  have keeps : Keeps world (world.setPhase phase) [] [] fun _ => 0 := by
    apply Keeps.of_world
    case exchanges => rfl
    case steady => exact ⟨rfl, rfl, rfl, rfl, rfl⟩
    case kept =>
      intro other
      unfold mentions
      show world.queueIn.count other + owed (world.call.map _) other +
          _ + _ + _ + _ = _
      rw [owed_setPhase]
      rfl
    case neutral => exact ⟨fun _ => rfl, fun _ => rfl⟩
    case used =>
      intro other absent
      rw [accounts.unused absent]
      rfl
    case calling =>
      intro call same
      have mapped :
          world.call.map (fun call => { call with phase := phase }) =
            some call :=
        same
      rcases found : world.call with _ | before
      · rw [found] at mapped
        cases mapped
      · rw [found] at mapped
        cases mapped
        exact accounts.calling before found
    case starting =>
      have limit := accounts.starting
      have runs :
          running
              (world.call.map fun call => { call with phase := phase }) =
            running world.call := by
        cases world.call <;> rfl
      show 0 + total starts world.ops + running (world.call.map _) ≤ 1 + 0
      rw [runs]
      omega
  exact accounts.data keeps

/-- `ymo_wsgi_worker_response_body_append`, up to the lock. -/
theorem accounts_bodyAppend (accounts : Accounts world) {item : Bytes}
    (pending : world.ops thread = .bodyAppend e item :: rest) :
    Accounts
      ((world.ymoWsgiWorkerResponseBodyAppend e item).1.begin thread
        ((world.ymoWsgiWorkerResponseBodyAppend e item).2 ++ rest)) := by
  have member := mem_pending pending
  have present := accounts.ofUse member (beq_self_eq_true e)
  unfold World.ymoWsgiWorkerResponseBodyAppend
  rw [touch_eq present.2.1 present.2.2]
  dsimp only
  split_ifs
  · have closing := accounts_setPhase accounts .closing
    exact accounts_goOn closing pending (.of_weights fun _ _ => rfl)
  · exact accounts_goOn accounts pending (.of_weights fun _ _ => rfl)

/-- The accounts do not depend on what has been answered. -/
theorem accounts_log (accounts : Accounts world) (nextResponse : Nat)
    (lockOut : Bool)
    (requested : List (Nat × Nat)) :
    Accounts
      { world with
        nextResponse := nextResponse
        lockOut := lockOut
        requested := requested } :=
  ⟨accounts.exchange, accounts.freed, accounts.fresh, accounts.session,
    accounts.sessionFreed, accounts.sessionFresh, accounts.owner,
    accounts.listed, accounts.used, accounts.calling, accounts.starting,
    accounts.pooled, accounts.untouched⟩

/-- `ymo_wsgi_server_header_cb`. -/
theorem accounts_headerCb (accounts : Accounts world) {upgrade : Bool}
    {top : Option (Nat × Option Nat)}
    (below : s < world.nextSession)
    (opened : (world.sessions s).closed = false)
    (limit : upgrade = false → BelowLimit (world.sessions s).refcnt)
    (free : ∀ item next, top = some (item, next) → Free world s item) :
    Accounts (world.ymoWsgiServerHeaderCb s upgrade top) := by
  have present := present_opened accounts below opened
  have marked {after : World} (kept : Accounts after)
      (known : s < after.nextSession)
      (arrival : Arrival) :
      Accounts
        { after.setSession s
            { after.sessions s with reading := some arrival } with
          nextResponse := world.nextResponse + 1 } := by
    have session :
        Accounts
          (after.setSession s
            { after.sessions s with reading := some arrival }) :=
      kept.markSession known rfl rfl rfl rfl
    exact
      accounts_log session (world.nextResponse + 1) after.lockOut
        after.requested
  cases upgrade with
  | true => exact marked accounts below _
  | false =>
      have kept :=
        accounts_created accounts
          { Exchange.blank with
            session := s
            response := world.nextResponse
            noPool := top.isNone
            item := (top.map Prod.fst).getD 0
            refcnt := 1 + 1 }
          { world.sessions s with
            refcnt := (world.sessions s).refcnt + 1
            pool := (world.sessions s).pool.take top world.nextExchange
            list := (world.sessions s).list ++ [world.nextExchange] }
          below opened (limit rfl) rfl rfl rfl rfl rfl rfl rfl rfl
      rw [headerCb_eq (creation_eq present free)]
      exact marked kept below _

/-- The same, once the server's thread has loaded the pool's head. -/
theorem accounts_createExchange (accounts : Accounts world)
    (pooled : Pooled world)
    {top : Option (Nat × Option Nat)}
    (pending : world.ops thread = .createExchange s top :: rest)
    (limit : BelowLimit (world.sessions s).refcnt) :
    Accounts
      ((world.ymoWsgiServerHeaderCb s false top).begin thread
        ([] ++ rest)) := by
  have member := mem_pending pending
  have creating := pooled.creating thread s top member
  have left : Accounts (world.begin thread ([] ++ rest)) :=
    accounts_goOn accounts pending
      (.of_weights fun _ _ => rfl)
  have created :
      Accounts
        ((world.begin thread ([] ++ rest)).ymoWsgiServerHeaderCb s false
          top) :=
    accounts_headerCb left creating.below creating.opened (fun _ => limit)
      creating.free
  have present := present_opened accounts creating.below creating.opened
  rw [headerCb_begin present creating.free] at created
  exact created

/-- Every operation that meets the guard keeps the accounts. -/
theorem accounts_perform (accounts : Accounts world) (pooled : Pooled world)
    {result : World × List Op}
    (pending : world.ops thread = op :: rest)
    (guarded : OpGuard world allocated op)
    (performed : world.perform allocated op = some result) :
    Accounts (result.1.begin thread (result.2 ++ rest)) := by
  have member := mem_pending pending
  cases op with
  | release holder e =>
      cases performed
      exact accounts_release accounts pending
  | sessionDecref s =>
      cases performed
      exact accounts_sessionDecref accounts pending guarded
  | exchangeFree e =>
      cases performed
      exact accounts_exchangeFree accounts pending
  | returnItem s item =>
      cases performed
      have held := pooled.returning thread s item member
      have left : Accounts (world.begin thread ([] ++ rest)) :=
        accounts_goOn accounts pending
          (.of_weights fun _ _ => rfl)
      unfold World.returnItem
      rw [touchSession_eq held.2.1]
      exact left.markSession held.1 rfl rfl rfl rfl
  | createExchange s top =>
      cases performed
      exact accounts_createExchange accounts pooled pending guarded.1
  | popResponse =>
      cases performed
      exact accounts_popResponse accounts pending
  | exchangeDone e =>
      cases performed
      exact accounts_exchangeDone accounts pending
  | lockCleanup s =>
      have one : sessionRefs s (.lockCleanup s) = 1 := if_pos rfl
      have present := accounts.ofSessionOp member one
      rw [perform_lockCleanup] at performed
      split_ifs at performed
      cases performed
      exact
        accounts_setLocked accounts true pending present.1 present.2
          (.of_weights fun _ _ => rfl)
  | releaseList s =>
      cases performed
      exact accounts_releaseList accounts pending
  | unlockCleanup s =>
      have one : sessionRefs s (.unlockCleanup s) = 1 := if_pos rfl
      have present := accounts.ofSessionOp member one
      cases performed
      exact
        accounts_setLocked accounts false pending present.1 present.2
          (.of_weights fun _ _ => rfl)
  | holdContext e =>
      cases performed
      exact accounts_holdContext accounts pending guarded
  | checkClosed purpose e =>
      cases performed
      cases purpose with
      | newContext =>
          have present := accounts.ofOp member (if_pos rfl)
          dsimp only
          rw [touch_eq present.2.1 present.2.2]
          have opened : ¬(world.sessions (world.owner e)).closed = true := by
            rw [Bool.not_eq_true]
            exact guarded
          rw [if_neg opened]
          exact accounts_goOn accounts pending (.of_weights fun _ _ => rfl)
      | startResponse =>
          have present := accounts.ofUse member (beq_self_eq_true e)
          dsimp only
          rw [touch_eq present.2.1 present.2.2]
          split_ifs
          · exact
              accounts_goOn accounts pending
                ⟨⟨fun _ => rfl, fun _ => rfl⟩, fun _ => rfl,
                  fun _ _ => Nat.zero_le _, Nat.le_refl 0⟩
          · exact accounts_goOn accounts pending (.of_weights fun _ _ => rfl)
  | tryLock purpose e =>
      rw [perform_tryLock] at performed
      cases purpose with
      | newContext =>
          have present := accounts.ofOp member (if_pos rfl)
          have known := accounts.owner e present.1
          rw [touchExchange_eq present.2.1 present.2.2] at performed
          have unlocked : ¬(world.sessions (world.owner e)).locked = true := by
            rw [Bool.not_eq_true]
            exact guarded
          rw [if_neg unlocked] at performed
          cases performed
          exact
            accounts_setLocked accounts true pending known present.2.2
              (.of_weights fun _ _ => rfl)
      | startResponse =>
          have present := accounts.ofUse member (beq_self_eq_true e)
          have known := accounts.owner e present.1
          rw [touchExchange_eq present.2.1 present.2.2,
            touchSession_eq present.2.2] at performed
          split_ifs at performed
          · cases performed
            exact
              accounts_goOn accounts pending
                ⟨⟨fun _ => rfl, fun _ => rfl⟩, fun _ => rfl,
                  fun _ _ => Nat.zero_le _, Nat.le_refl 0⟩
          · cases performed
            exact
              accounts_setLocked accounts true pending known present.2.2
                (.of_weights fun _ _ => rfl)
  | makeContext e =>
      cases performed
      exact accounts_makeContext accounts allocated pending
  | unlockContext e =>
      cases performed
      have one : refs e (.unlockContext e) = 1 := if_pos rfl
      have present := accounts.ofOp member one
      have known := accounts.owner e present.1
      dsimp only
      rw [touchExchange_eq present.2.1 present.2.2]
      exact
        accounts_setLocked accounts false pending known present.2.2
          (.of_weights fun _ _ => rfl)
  | issueRequest e =>
      cases performed
      exact accounts_issueRequest accounts pending
  | setResponse e =>
      cases performed
      have present := accounts.ofUse member (beq_self_eq_true e)
      have known := accounts.owner e present.1
      dsimp only
      rw [touchExchange_eq present.2.1 present.2.2]
      exact
        accounts_setLocked accounts false pending known present.2.2
          ⟨⟨fun _ => rfl, fun _ => rfl⟩, fun _ => rfl,
            fun _ _ => Nat.zero_le _, Nat.le_refl 0⟩
  | bodyAppend e item =>
      cases performed
      exact accounts_bodyAppend accounts pending
  | queueOut e item done =>
      rw [perform_queueOut] at performed
      split_ifs at performed
      cases performed
      exact accounts_queueOut accounts pending guarded.1 guarded.2

end Python

/-! ## Steps -/

section Step

variable {world : World}

/-- A thread with nothing to do begins something. -/
theorem accounts_begin (accounts : Accounts world) {thread : Thread}
    (idle : world.ops thread = [])
    (alike : Alike world.contexts [] new) :
    Accounts (world.begin thread new) := by
  have left : world.ops thread = [] ++ [] := idle
  have begun := accounts.alike left alike
  rw [List.append_nil] at begun
  exact begun

/-- A method of a context begins. -/
theorem accounts_method (accounts : Accounts world) {thread : Thread} {e : Nat}
    (idle : world.ops thread = [])
    (inUse : e ∈ world.contexts)
    (neutral : Neutral [] [op])
    (kept : ∀ other, weigh (refs other) [op] = 0)
    (used : ∀ other, op.usedBy other = (e == other))
    (starting : weigh starts [op] = 0) :
    Accounts (world.begin thread [op]) := by
  apply accounts_begin accounts idle
  refine ⟨neutral, kept, ?_, Nat.le_of_eq starting⟩
  intro other absent
  have none : uses other op = 0 := by
    apply if_neg
    rw [used, beq_iff_eq]
    intro same
    rw [same] at inUse
    exact absent inUse
  rw [weigh_cons, none]
  exact Nat.le_refl 0

/-- The call ends with its reference given back. -/
theorem accounts_endCall (accounts : Accounts world)
    (settled : CallSettled world) :
    Accounts { world with call := none } := by
  have nothing (e : Nat) : owed world.call e = 0 := by
    rcases found : world.call with _ | call
    · rfl
    · apply if_neg
      rintro ⟨-, owes⟩
      rw [settled call found] at owes
      cases owes
  have keeps : Keeps world { world with call := none } [] [] fun _ => 0 := by
    apply Keeps.of_world
    case exchanges => rfl
    case steady => exact ⟨rfl, rfl, rfl, rfl, rfl⟩
    case kept =>
      intro e
      unfold mentions
      rw [nothing e]
      rfl
    case neutral => exact ⟨fun _ => rfl, fun _ => rfl⟩
    case used =>
      intro e absent
      rw [accounts.unused absent]
      rfl
    case calling =>
      intro call same
      cases same
    case starting =>
      have limit := accounts.starting
      show 0 + total starts world.ops + 0 ≤ 1 + 0
      omega
  exact accounts.data keeps

/-- `ymo_wsgi_server_request_cb`, for the exchange at the head of the list. -/
theorem accounts_requestCb (accounts : Accounts world) {s response e : Nat}
    (below : s < world.nextSession)
    (list : (world.sessions s).list = e :: next)
    (limit : BelowLimit (world.exchanges e).refcnt) :
    Accounts (world.ymoWsgiServerRequestCb s response) := by
  have present := present_head accounts list
  have session :
      Accounts
        (world.setSession s { world.sessions s with reading := none }) :=
    accounts.markSession below rfl rfl rfl rfl
  have read :
      Accounts
        { world.setSession s
            { world.sessions s with reading := none } with
          requested := world.requested ++ [(s, response)] } :=
    accounts_log session world.nextResponse world.lockOut
      (world.requested ++ [(s, response)])
  have answered :
      Accounts
        (({ world.setSession s
              { world.sessions s with reading := none } with
            requested := world.requested ++ [(s, response)] } :
            World).setExchange e
          { world.exchanges e with response := response }) :=
    read.mark present.1 rfl rfl rfl rfl rfl
  have gone :
      World.owner
          (({ world.setSession s
                { world.sessions s with reading := none } with
              requested := world.requested ++ [(s, response)] } :
              World).setExchange e
            { world.exchanges e with response := response }) e =
        world.owner e := by
    unfold World.owner
    rw [setExchange_same]
  have sessionKept (other : Nat) :
      ((world.setSession s
          { world.sessions s with reading := none }).sessions other).frees =
        (world.sessions other).frees :=
    part_setSession Session.frees (by rfl) other
  have sessionList (other : Nat) :
      ((world.setSession s
          { world.sessions s with reading := none }).sessions other).list =
        (world.sessions other).list :=
    part_setSession Session.list (by rfl) other
  generalize before :
      (({ world.setSession s
            { world.sessions s with reading := none } with
          requested := world.requested ++ [(s, response)] } :
          World).setExchange e
        { world.exchanges e with response := response }) = prior
      at answered gone
  have at_e : prior.exchanges e =
      { world.exchanges e with response := response } := by
    rw [← before]
    exact setExchange_same _ _ _
  have priorNext : prior.nextExchange = world.nextExchange := by
    rw [← before]
    rfl
  have priorSession : prior.sessions =
      (world.setSession s
        { world.sessions s with reading := none }).sessions := by
    rw [← before]
    rfl
  have frees : (prior.exchanges e).frees = 0 := by
    rw [at_e]
    exact present.2.1
  have sessionFrees : (prior.sessions (prior.owner e)).frees = 0 := by
    rw [gone, priorSession, sessionKept]
    exact present.2.2
  have step : world.ymoWsgiServerRequestCb s response =
      { prior.setExchange e
          { prior.exchanges e with
            refcnt := (prior.exchanges e).refcnt + 1 } with
        queueIn := prior.queueIn ++ [e] } := by
    unfold World.ymoWsgiServerRequestCb
    dsimp only
    split
    · rename_i empty
      rw [list] at empty
      cases empty
    · rename_i head tail same
      rw [list] at same
      cases same
      have increased := ymoWsgiExchangeIncref_eq frees sessionFrees
      rw [← before] at increased ⊢
      exact
        congrArg
          (fun given : World => { given with queueIn := given.queueIn ++ [e] })
          increased
  have positive : holders prior e ≠ 0 := by
    have count : 0 <
        (prior.sessions (prior.owner e)).list.count e := by
      have owner : prior.owner e = s := by
        have listed := accounts.listed s e (by
          rw [list]
          exact List.mem_cons_self)
        rw [gone, listed.2]
      rw [owner, priorSession, sessionList, list, List.count_cons_self]
      omega
    rw [holders_eq]
    unfold mentions
    omega
  have pending : prior.ops .server = [] ++ prior.ops .server := rfl
  have moved :
      Accounts
        (({ prior.setExchange e
              { prior.exchanges e with
                refcnt := (prior.exchanges e).refcnt + 1 } with
            queueIn := prior.queueIn ++ [e] } : World).begin .server
              ([] ++ prior.ops .server)) := by
    apply accounts_incref answered
      { prior.exchanges e with refcnt := (prior.exchanges e).refcnt + 1 }
      pending
    case below =>
      rw [priorNext]
      exact present.1
    case present => exact positive
    case limit =>
      rw [at_e]
      exact limit
    case kept =>
      intro other
      have count := count_concat prior.queueIn e other
      show (prior.queueIn ++ [e]).count other + owed prior.call other +
          prior.queueOut.count other + 0 =
        prior.queueIn.count other + owed prior.call other +
          prior.queueOut.count other + 0 + _
      omega
    case neutral => exact ⟨fun _ => rfl, fun _ => rfl⟩
    case used =>
      intro other
      exact Nat.le_refl 0
    case starting => exact Nat.le_refl 0
    case steady => exact ⟨rfl, rfl, rfl, rfl, rfl⟩
    case calling => exact answered.calling
    all_goals rfl
  rw [step]
  rw [List.nil_append] at moved
  have same :=
    begin_same
      { prior.setExchange e
          { prior.exchanges e with
            refcnt := (prior.exchanges e).refcnt + 1 } with
        queueIn := prior.queueIn ++ [e] }
      .server
  rw [← same]
  exact moved

/-- `ymo_wsgi_session_cleanup` begins. -/
theorem accounts_sessionCleanup (accounts : Accounts world)
    (idle : world.ops .server = [])
    (below : s < world.nextSession)
    (opened : (world.sessions s).closed = false) :
    Accounts
      (((world.touchSession s).setSession s
        { world.sessions s with closed := true }).begin .server
          [.lockCleanup s]) := by
  have present := present_opened accounts below opened
  have split : world.ops .server = [] ++ [] := idle
  have keeps :
      Keeps world
        (world.setSession s { world.sessions s with closed := true })
        [] [.lockCleanup s] fun _ => 0 := by
    apply Keeps.of_session accounts below
    case refcnt => rfl
    case frees => rfl
    case listed =>
      intro e member
      exact member
    case kept =>
      intro e
      rfl
    case freeing =>
      intro e
      rfl
    case sessionKept =>
      intro other
      have flip :
          (if s = other then 1 else 0) = if other = s then 1 else 0 := by
        simp only [eq_comm]
      show (if (if other = s then _ else world.sessions other).closed then 0
          else 1) + ((if s = other then 1 else 0) + 0) =
        ownRef world other + 0
      rw [flip]
      unfold ownRef
      by_cases here : other = s
      · rw [if_pos here, if_pos here, here, opened]
        rfl
      · rw [if_neg here, if_neg here]
    case used =>
      intro e
      rfl
    case starting => exact Nat.le_refl 0
  have moved := accounts.keeps split keeps
  rw [touchSession_eq present]
  exact moved

/-- The worker takes a request from its queue. -/
theorem accounts_popRequest (accounts : Accounts world) (placed : Placed world)
    {e : Nat}
    {left : List Nat}
    (queue : world.queueIn = e :: left)
    (idle : world.ops .worker = [])
    (free : world.call = none) :
    Accounts
      (({ world with queueIn := left } : World).begin .worker
        [.holdContext e]) := by
  have none : total starts world.ops = 0 := by
    by_contra some
    rcases exists_of_total (Nat.pos_of_ne_zero some) with
      ⟨thread, op, member, weight⟩
    have worker : home op = .some .worker := by
      cases op with
      | holdContext e => rfl
      | checkClosed purpose e =>
          cases purpose with
          | newContext => rfl
          | startResponse => exact absurd weight (Nat.lt_irrefl 0)
      | tryLock purpose e =>
          cases purpose with
          | newContext => rfl
          | startResponse => exact absurd weight (Nat.lt_irrefl 0)
      | makeContext e => rfl
      | unlockContext e => rfl
      | issueRequest e => rfl
      | _ => exact absurd weight (Nat.lt_irrefl 0)
    rw [placed.here member worker, idle] at member
    cases member
  have split : world.ops .worker = [] ++ [] := idle
  have keeps :
      Keeps world { world with queueIn := left } [] [.holdContext e]
        fun _ => 0 := by
    apply Keeps.of_world
    case exchanges => rfl
    case steady => exact ⟨rfl, rfl, rfl, rfl, rfl⟩
    case kept =>
      intro other
      have count :
          world.queueIn.count other =
            left.count other + if e = other then 1 else 0 := by
        rw [queue, List.count_cons]
        simp only [beq_iff_eq]
      have mentioned :
          mentions { world with queueIn := left } other +
              (if e = other then 1 else 0) =
            mentions world other := by
        unfold mentions
        show left.count other + owed world.call other +
            world.queueOut.count other + world.contexts.count other +
              (world.sessions (world.owner other)).list.count other + _ = _
        omega
      exact mentioned
    case neutral => exact ⟨fun _ => rfl, fun _ => rfl⟩
    case used =>
      intro other absent
      rw [accounts.unused absent]
      rfl
    case calling => exact accounts.calling
    case starting =>
      show 1 + total starts world.ops + running world.call ≤ 1 + 0
      rw [none, free]
      exact Nat.le_refl 1
  exact accounts.keeps split keeps

/-- `yimmo_Context_dealloc`. -/
theorem accounts_dropContext (accounts : Accounts world) {thread : Thread}
    {e : Nat}
    (idle : world.ops thread = [])
    (inside : e ∈ world.contexts)
    (unused : ¬world.InUse e) :
    Accounts
      (({ world with contexts := world.contexts.erase e } : World).begin
        thread [.release .context e]) := by
  have split : world.ops thread = [] ++ [] := idle
  have noUse : total (uses e) world.ops = 0 := by
    by_contra some
    rcases exists_of_total (Nat.pos_of_ne_zero some) with
      ⟨other, op, member, weight⟩
    apply unused
    right
    refine ⟨other, op, member, ?_⟩
    by_contra notUsed
    unfold uses at weight
    rw [if_neg notUsed] at weight
    exact Nat.lt_irrefl 0 weight
  have keeps :
      Keeps world { world with contexts := world.contexts.erase e }
        [] [.release .context e] fun _ => 0 := by
    apply Keeps.of_world
    case exchanges => rfl
    case steady => exact ⟨rfl, rfl, rfl, rfl, rfl⟩
    case kept =>
      intro other
      have count :
          (world.contexts.erase e).count other +
              (if e = other then 1 else 0) =
            world.contexts.count other := by
        by_cases same : e = other
        · rw [← same, List.count_erase_self, if_pos rfl]
          have positive := List.count_pos_iff.mpr inside
          omega
        · rw [List.count_erase_of_ne (Ne.symm same), if_neg same, Nat.add_zero]
      have mentioned :
          mentions { world with contexts := world.contexts.erase e }
                other +
              (if e = other then 1 else 0) =
            mentions world other := by
        unfold mentions
        show world.queueIn.count other + owed world.call other +
            world.queueOut.count other +
              (world.contexts.erase e).count other +
                (world.sessions (world.owner other)).list.count other +
                  _ = _
        omega
      exact mentioned
    case neutral => exact ⟨fun _ => rfl, fun _ => rfl⟩
    case used =>
      intro other absent
      have none : total (uses other) world.ops = 0 := by
        by_cases same : other = e
        · rw [same]
          exact noUse
        · apply accounts.unused
          intro member
          exact absent ((List.mem_erase_of_ne same).mpr member)
      rw [none]
      rfl
    case calling =>
      intro call same
      have different : call.exchange ≠ e := by
        intro equal
        exact unused (Or.inl ⟨call, same, equal⟩)
      exact (List.mem_erase_of_ne different).mpr (accounts.calling call same)
    case starting =>
      have limit := accounts.starting
      show 0 + total starts world.ops + running world.call ≤ 1 + 0
      omega
  exact accounts.keeps split keeps

/-- Every step that meets the guard keeps the accounts. -/
theorem accounts_step (accounts : Accounts world) (placed : Placed world)
    (pooled : Pooled world)
    (action : Action)
    (guarded : Guard world action) :
    Accounts (world.step action) := by
  have does := does world action
  generalize world.step action = after at does
  cases does with
  | nothing => exact accounts
  | sessionInit => exact accounts_sessionInit accounts
  | upgrade s possible =>
      apply accounts_headerCb accounts possible.2.1 possible.2.2.1
      · intro plain
        cases plain
      · intro item next taken
        cases taken
  | headerCb s possible =>
      have present := present_opened accounts possible.2.1 possible.2.2.1
      rw [touchSession_eq present]
      exact accounts_begin accounts possible.1 (.of_weights fun _ _ => rfl)
  | requestCb s arrival reading =>
      have below : s < world.nextSession := by
        by_contra beyond
        have fresh := accounts.sessionFresh s (by omega)
        rw [fresh.1] at reading
        cases reading
      rcases guarded arrival reading with ⟨same, e, created, limit⟩
      rcases list : (world.sessions s).list with _ | ⟨head, next⟩
      · rw [same, list] at created
        cases created
      · rw [same, list] at created
        cases created
        exact accounts_requestCb accounts below list limit
  | sessionCleanup s possible =>
      exact
        accounts_sessionCleanup accounts possible.1 possible.2.1 possible.2.2
  | queueResponses idle =>
      have locked :=
        accounts_log accounts world.nextResponse true world.requested
      exact accounts_begin locked idle (.of_weights fun _ _ => rfl)
  | popRequest e left queue possible =>
      exact accounts_popRequest accounts placed queue possible.1 possible.2
  | startResponse thread e possible =>
      exact
        accounts_method accounts possible.1 possible.2.1
          ⟨fun _ => rfl, fun _ => rfl⟩ (fun _ => rfl) (fun _ => rfl) rfl
  | read thread e possible =>
      have present := accounts.ofContext possible.2.1
      rw [touchExchange_eq present.2.1 present.2.2]
      exact accounts
  | write thread e data possible =>
      exact
        accounts_method accounts possible.1 possible.2.1
          ⟨fun _ => rfl, fun _ => rfl⟩ (fun _ => rfl) (fun _ => rfl) rfl
  | iterates => exact accounts_setPhase accounts .iterating
  | returned => exact accounts_endCall accounts guarded
  | yielded item call found waits =>
      exact
        accounts_method accounts waits.1 (accounts.calling call found)
          ⟨fun _ => rfl, fun _ => rfl⟩ (fun _ => rfl) (fun _ => rfl) rfl
  | exhausted call found waits =>
      have closing := accounts_setPhase accounts .closing
      exact
        accounts_method closing waits.1 (accounts.calling call found)
          ⟨fun _ => rfl, fun _ => rfl⟩ (fun _ => rfl) (fun _ => rfl) rfl
  | callEnd => exact accounts_endCall accounts guarded
  | dropContext thread e possible =>
      exact
        accounts_dropContext accounts possible.1 possible.2.2.1 possible.2.2.2
  | work thread allocated pending performed =>
      exact
        accounts_perform accounts pooled pending (guarded.head pending)
          performed

theorem accounts_initial : Accounts World.initial where
  exchange e below := by cases below
  freed e below := by cases below
  fresh _ _ := ⟨rfl, rfl, rfl⟩
  session s below := by cases below
  sessionFreed s below := by cases below
  sessionFresh _ _ := ⟨rfl, rfl⟩
  owner e below := by cases below
  listed s e member := by cases member
  used e some := by
    have none : total (uses e) World.initial.ops = 0 := rfl
    omega
  calling call same := by cases same
  starting := Nat.zero_le 1
  pooled e some := by
    have none : total (pendingFree e) World.initial.ops = 0 := rfl
    omega
  untouched := rfl

theorem placed_initial : Placed World.initial := by
  intro thread op member
  cases member

end Step

end Yimmo.Wsgi.Steps
