import Yimmo.Wsgi.Accounting

/-!
# Giving references back

`ymo_wsgi_exchange_decref`, `ymo_wsgi_session_decref` and
`ymo_wsgi_exchange_free` keep the accounts, and so does the creation of sessions
and exchanges.
-/

namespace Yimmo.Wsgi.Release

open Yimmo.Lib.Threads
open Yimmo.Wsgi.Worker
open Yimmo.Wsgi.References
open Yimmo.Wsgi.Accounting

/-! ## Counts of sixteen bits -/

theorem ofNat_sub_one {count : Nat} (some : 0 < count) :
    BitVec.ofNat 16 count - 1 = BitVec.ofNat 16 (count - 1) := by
  have split : count = count - 1 + 1 := by omega
  have sum : BitVec.ofNat 16 count = BitVec.ofNat 16 (count - 1) + 1 := by
    rw [split, BitVec.ofNat_add]
    rfl
  rw [sum]
  exact BitVec.add_sub_cancel _ _

theorem ofNat_eq_zero {count : Nat} (small : count < 2 ^ 15) :
    BitVec.ofNat 16 count = 0 ↔ count = 0 := by
  constructor
  · intro zero
    have value := congrArg BitVec.toNat zero
    rw [BitVec.toNat_ofNat] at value
    change count % 2 ^ 16 = 0 at value
    omega
  · rintro rfl
    rfl

/-! ## Exchanges -/

/-- One exchange of a session less has holders. -/
theorem alive_erase (world after : World) {e : Nat}
    (next : after.nextExchange = world.nextExchange)
    (owner : ∀ other, after.owner other = world.owner other)
    (below : e < world.nextExchange)
    (before : holders world e ≠ 0)
    (last : holders after e = 0)
    (others : ∀ other, other ≠ e → holders after other = holders world other)
    (s : Nat) :
    (alive after s).card + (if world.owner e = s then 1 else 0) =
      (alive world s).card := by
  have erase : alive after s = (alive world s).erase e := by
    ext other
    simp only [alive, Finset.mem_filter, Finset.mem_range,
      Finset.mem_erase, next, owner]
    by_cases here : other = e
    · rw [here]
      simp only [last, ne_eq, not_true_eq_false, and_false, false_and]
    · rw [others other here]
      simp only [here, ne_eq, not_false_eq_true, true_and]
  rw [erase]
  by_cases owned : world.owner e = s
  · have member : e ∈ alive world s := by
      simp only [alive, Finset.mem_filter, Finset.mem_range]
      exact ⟨below, owned, before⟩
    rw [if_pos owned, Finset.card_erase_of_mem member]
    have positive := Finset.card_pos.mpr ⟨e, member⟩
    omega
  · have absent : e ∉ alive world s := by
      simp only [alive, Finset.mem_filter, Finset.mem_range]
      rintro ⟨-, same, -⟩
      exact owned same
    rw [if_neg owned, Finset.erase_eq_of_notMem absent]
    omega

/-- What is left to do when the last reference is given back. -/
def lastRelease (world : World) (e : Nat) : List Op :=
  if holders world e = 1 then [.sessionDecref (world.owner e), .exchangeFree e]
  else []

theorem weigh_lastRelease (world : World) (e : Nat) (weight : Op → Nat) :
    weigh weight (lastRelease world e) =
      if holders world e = 1 then
        weight (.sessionDecref (world.owner e)) + weight (.exchangeFree e)
      else 0 := by
  unfold lastRelease
  by_cases last : holders world e = 1
  · rw [if_pos last, if_pos last]
    rfl
  · rw [if_neg last, if_neg last]
    rfl

/-- The world after a reference was given back. -/
def afterRelease (world : World) (thread : Thread) (rest : List Op) (e : Nat) :
    World :=
  (world.setExchange e
      { world.exchanges e with
        refcnt := (world.exchanges e).refcnt - 1 }).begin thread
    (lastRelease world e ++ rest)

section Release

variable
    {world : World}
    {thread : Thread}
    {rest : List Op}
    {holder : Holder}
    {e : Nat}

theorem afterRelease_exchange {Value : Type}
    (part : Exchange → Value)
    (same :
      part
          { world.exchanges e with refcnt := (world.exchanges e).refcnt - 1 } =
        part (world.exchanges e))
    (other : Nat) :
    part ((afterRelease world thread rest e).exchanges other) =
      part (world.exchanges other) :=
  part_setExchange part same other

theorem total_afterRelease
    (pending : world.ops thread = .release holder e :: rest)
    (weight : Op → Nat) :
    total weight (afterRelease world thread rest e).ops +
        weight (.release holder e) =
      total weight world.ops +
        if holders world e = 1 then
          weight (.sessionDecref (world.owner e)) + weight (.exchangeFree e)
        else 0 := by
  rw [← weigh_lastRelease world e weight]
  exact total_perform weight (lastRelease world e) pending

/-- A reference less. -/
theorem holders_afterRelease
    (pending : world.ops thread = .release holder e :: rest)
    (other : Nat) :
    holders (afterRelease world thread rest e) other +
        (if other = e then 1 else 0) =
      holders world other := by
  have change := total_afterRelease pending (refs other)
  have weight :
      refs other (.release holder e) = if other = e then 1 else 0 := by
    show (if e = other then 1 else 0) = _
    simp only [eq_comm]
  have fromSession : refs other (.sessionDecref (world.owner e)) = 0 := rfl
  have fromFree : refs other (.exchangeFree e) = 0 := rfl
  rw [fromSession, fromFree, Nat.add_zero, ite_self] at change
  have owner :
      (afterRelease world thread rest e).owner other = world.owner other :=
    afterRelease_exchange Exchange.session rfl other
  have sent :
      ((afterRelease world thread rest e).exchanges other).sent =
        (world.exchanges other).sent :=
    afterRelease_exchange Exchange.sent rfl other
  have mentioned :
      mentions (afterRelease world thread rest e) other =
        mentions world other := by
    unfold mentions
    rw [owner]
    rfl
  rw [holders_eq, holders_eq world, sent, mentioned]
  omega

/-- The sessions keep their holders, the operations that are left included. -/
theorem sessionHolders_afterRelease
    (pending : world.ops thread = .release holder e :: rest)
    (below : e < world.nextExchange)
    (some : 1 ≤ holders world e)
    (s : Nat) :
    sessionHolders (afterRelease world thread rest e) s =
      sessionHolders world s := by
  have fewer := holders_afterRelease pending
  have owner (other : Nat) :
      (afterRelease world thread rest e).owner other = world.owner other :=
    afterRelease_exchange Exchange.session rfl other
  have change := total_afterRelease pending (sessionRefs s)
  have fromSession :
      sessionRefs s (.sessionDecref (world.owner e)) =
        if world.owner e = s then 1 else 0 :=
    rfl
  have fromFree : sessionRefs s (.exchangeFree e) = 0 := rfl
  have fromRelease : sessionRefs s (.release holder e) = 0 := rfl
  have own : ownRef (afterRelease world thread rest e) s = ownRef world s :=
    rfl
  unfold sessionHolders
  rw [own]
  by_cases last : holders world e = 1
  · rw [if_pos last] at change
    have none : holders (afterRelease world thread rest e) e = 0 := by
      have here := fewer e
      rw [if_pos rfl] at here
      omega
    have others (other : Nat) (different : other ≠ e) :
        holders (afterRelease world thread rest e) other =
          holders world other := by
      have there := fewer other
      rw [if_neg different] at there
      exact there
    have card :=
      alive_erase world (afterRelease world thread rest e) rfl owner below
        (by omega) none others s
    omega
  · rw [if_neg last] at change
    have same :
        alive (afterRelease world thread rest e) s = alive world s := by
      unfold alive
      apply Finset.filter_congr
      intro other _
      rw [owner]
      have there := fewer other
      by_cases here : other = e
      · rw [here, if_pos rfl] at there
        rw [here]
        constructor
        · rintro ⟨owned, -⟩
          exact ⟨owned, by omega⟩
        · rintro ⟨owned, -⟩
          exact ⟨owned, by omega⟩
      · rw [if_neg here] at there
        rw [← there]
        rfl
    rw [same]
    omega

/-- `WSGI_EXCHANGE_DECREF`. -/
theorem accounts_release (accounts : Accounts world)
    (pending : world.ops thread = .release holder e :: rest) :
    Accounts
      ((world.ymoWsgiExchangeDecref e).1.begin thread
        ((world.ymoWsgiExchangeDecref e).2 ++ rest)) := by
  have member := mem_pending pending
  have one : refs e (.release holder e) = 1 := if_pos rfl
  have present := accounts.ofOp member one
  have below := present.1
  have some : 1 ≤ holders world e := by
    have single := le_total (refs e) member
    rw [holders_eq]
    omega
  have count := accounts.exchange e below
  have reduced : (world.exchanges e).refcnt - 1 =
      BitVec.ofNat 16 (holders world e - 1) := by
    rw [count.1]
    exact ofNat_sub_one some
  have zeroIff : (world.exchanges e).refcnt - 1 = 0 ↔ holders world e = 1 := by
    rw [reduced, ofNat_eq_zero (by omega)]
    omega
  have step :
      (world.ymoWsgiExchangeDecref e).1.begin thread
          ((world.ymoWsgiExchangeDecref e).2 ++ rest) =
        afterRelease world thread rest e := by
    have left : (world.ymoWsgiExchangeDecref e).2 =
        lastRelease world e := by
      show (if (world.exchanges e).refcnt - 1 = 0 then _ else _) = _
      simp only [zeroIff]
      rfl
    rw [left]
    show ((world.touchExchange e).setExchange e _).begin thread _ = _
    rw [touchExchange_eq present.2.1 present.2.2]
    rfl
  rw [step]
  have fewer := holders_afterRelease pending
  have sessions := sessionHolders_afterRelease pending below some
  have moved := total_afterRelease pending
  have frees (other : Nat) :
      ((afterRelease world thread rest e).exchanges other).frees =
        (world.exchanges other).frees :=
    afterRelease_exchange Exchange.frees rfl other
  have owner (other : Nat) :
      (afterRelease world thread rest e).owner other = world.owner other :=
    afterRelease_exchange Exchange.session rfl other
  constructor
  case exchange =>
    intro other inside
    have before := accounts.exchange other inside
    have there := fewer other
    by_cases here : other = e
    · rw [here, if_pos rfl] at there
      rw [here]
      constructor
      · show (if e = e then _ else world.exchanges e).refcnt = _
        rw [if_pos rfl]
        show (world.exchanges e).refcnt - 1 = _
        rw [reduced]
        congr 1
        omega
      · omega
    · rw [if_neg here] at there
      constructor
      · show (if other = e then _ else world.exchanges other).refcnt = _
        rw [if_neg here, before.1, ← there]
        rfl
      · omega
  case freed =>
    intro other inside
    have before := accounts.freed other inside
    have there := fewer other
    have change := moved (pendingFree other)
    have fromRelease : pendingFree other (.release holder e) = 0 := rfl
    have fromSession :
        pendingFree other (.sessionDecref (world.owner e)) = 0 :=
      rfl
    have fromFree : pendingFree other (.exchangeFree e) =
        if e = other then 1 else 0 :=
      rfl
    rw [frees]
    by_cases here : other = e
    · rw [here] at there before change fromFree fromRelease fromSession ⊢
      rw [if_pos rfl] at there fromFree
      rw [if_neg (by omega)] at before
      by_cases last : holders world e = 1
      · rw [if_pos last] at change
        rw [if_pos (by omega)]
        omega
      · rw [if_neg last] at change
        rw [if_neg (by omega)]
        omega
    · rw [if_neg here] at there
      rw [if_neg (Ne.symm here)] at fromFree
      rw [fromSession, fromFree, Nat.add_zero, ite_self] at change
      have same :
          holders (afterRelease world thread rest e) other =
            holders world other := by
        omega
      rw [same]
      omega
  case fresh =>
    intro other beyond
    have before := accounts.fresh other beyond
    have different : other ≠ e := by
      have outside : world.nextExchange ≤ other := beyond
      omega
    have refsChange := moved (refs other)
    have freeChange := moved (pendingFree other)
    have fromFree : pendingFree other (.exchangeFree e) = 0 :=
      if_neg (Ne.symm different)
    have fromSession :
        pendingFree other (.sessionDecref (world.owner e)) = 0 :=
      rfl
    have noRefs :
        refs other (.sessionDecref (world.owner e)) +
          refs other (.exchangeFree e) = 0 :=
      rfl
    rw [noRefs, ite_self] at refsChange
    rw [fromSession, fromFree, Nat.add_zero, ite_self] at freeChange
    have mentioned :
        mentions (afterRelease world thread rest e) other =
          mentions world other := by
      unfold mentions
      rw [owner]
      rfl
    rw [mentioned]
    omega
  case session =>
    intro s inside
    rw [sessions]
    exact accounts.session s inside
  case sessionFreed =>
    intro s inside
    rw [sessions]
    exact accounts.sessionFreed s inside
  case sessionFresh =>
    intro s beyond
    have before := accounts.sessionFresh s beyond
    have change := moved (sessionRefs s)
    have known := accounts.owner e below
    have outside : world.nextSession ≤ s := beyond
    have fromSession : sessionRefs s (.sessionDecref (world.owner e)) = 0 :=
      if_neg (by omega)
    have fromFree : sessionRefs s (.exchangeFree e) = 0 := rfl
    rw [fromSession, fromFree, Nat.add_zero, ite_self] at change
    exact ⟨before.1, by omega⟩
  case owner =>
    intro other inside
    rw [owner]
    exact accounts.owner other inside
  case listed =>
    intro s other member
    rw [owner]
    exact accounts.listed s other member
  case used =>
    intro other inUse
    have change := moved (uses other)
    have fromSession : uses other (.sessionDecref (world.owner e)) = 0 := rfl
    have fromFree : uses other (.exchangeFree e) = 0 := rfl
    rw [fromSession, fromFree, Nat.add_zero, ite_self] at change
    exact accounts.used other (by omega)
  case calling => exact accounts.calling
  case starting =>
    have change := moved starts
    have fromSession : starts (.sessionDecref (world.owner e)) = 0 := rfl
    have fromFree : starts (.exchangeFree e) = 0 := rfl
    rw [fromSession, fromFree, Nat.add_zero, ite_self] at change
    have limit := accounts.starting
    show _ + running world.call ≤ 1
    omega
  case pooled =>
    intro other freeing pool
    have noPool : (world.exchanges other).noPool = false := by
      rw [← pool]
      exact (afterRelease_exchange Exchange.noPool rfl other).symm
    rw [owner]
    show (world.sessions (world.owner other)).frees = 0
    by_cases here : other = e
    · rw [here]
      exact present.2.2
    · have change := moved (pendingFree other)
      have fromFree : pendingFree other (.exchangeFree e) = 0 :=
        if_neg (Ne.symm here)
      have fromSession :
          pendingFree other (.sessionDecref (world.owner e)) = 0 :=
        rfl
      rw [fromSession, fromFree, Nat.add_zero, ite_self] at change
      exact accounts.pooled other (by omega) noPool
  case untouched => exact accounts.untouched

end Release

/-! ## Sessions -/

section Sessions

variable
    {world : World}
    {thread : Thread}
    {rest : List Op}

/-- `ymo_wsgi_session_decref`. -/
theorem accounts_sessionDecref
    (accounts : Accounts world)
    {s : Nat}
    (pending : world.ops thread = .sessionDecref s :: rest)
    (guarded :
      (world.sessions s).refcnt = 1 →
        ∀ other, ∀ op ∈ world.ops other, ¬ReturnsTo world s op) :
    Accounts ((world.ymoWsgiSessionDecref s).begin thread rest) := by
  have member := mem_pending pending
  have one : sessionRefs s (.sessionDecref s) = 1 := if_pos rfl
  have present := accounts.ofSessionOp member one
  have some : 1 ≤ sessionHolders world s := by
    have single := le_total (sessionRefs s) member
    unfold sessionHolders
    omega
  have count := accounts.session s present.1
  have reduced : (world.sessions s).refcnt - 1 =
      BitVec.ofNat 16 (sessionHolders world s - 1) := by
    rw [count.1]
    exact ofNat_sub_one some
  have zeroIff :
      (world.sessions s).refcnt - 1 = 0 ↔ sessionHolders world s = 1 := by
    rw [reduced, ofNat_eq_zero (by omega)]
    omega
  have oneIff :
      sessionHolders world s = 1 → (world.sessions s).refcnt = 1 := by
    intro last
    rw [count.1, last]
    rfl
  have after_eq : world.ymoWsgiSessionDecref s =
      world.setSession s
        { world.sessions s with
          refcnt := (world.sessions s).refcnt - 1
          frees :=
            if sessionHolders world s = 1 then (world.sessions s).frees + 1
            else (world.sessions s).frees } := by
    show (world.touchSession s).setSession s _ = _
    rw [touchSession_eq present.2]
    simp only [zeroIff]
  rw [after_eq]
  generalize made :
      ({ world.sessions s with
        refcnt := (world.sessions s).refcnt - 1
        frees :=
          if sessionHolders world s = 1 then (world.sessions s).frees + 1
          else (world.sessions s).frees } : Session) = session
  have list : session.list = (world.sessions s).list := by rw [← made]
  have closed : session.closed = (world.sessions s).closed := by rw [← made]
  have refcnt : session.refcnt = (world.sessions s).refcnt - 1 := by
    rw [← made]
  have frees : session.frees =
      if sessionHolders world s = 1 then 1 else 0 := by
    rw [← made]
    show (if sessionHolders world s = 1 then
      (world.sessions s).frees + 1 else (world.sessions s).frees) = _
    rw [present.2]
  have lists (other : Nat) :
      (((world.setSession s session).begin thread rest).sessions
          other).list =
        (world.sessions other).list :=
    part_setSession Session.list list other
  have moved (weight : Op → Nat) :
      total weight ((world.setSession s session).begin thread rest).ops +
          weight (.sessionDecref s) =
        total weight world.ops :=
    total_perform weight [] pending
  have mentioned (e : Nat) :
      mentions ((world.setSession s session).begin thread rest) e =
        mentions world e := by
    unfold mentions
    rw [lists]
    rfl
  have holdersSame (e : Nat) :
      holders ((world.setSession s session).begin thread rest) e =
        holders world e := by
    have change := moved (refs e)
    have none : refs e (.sessionDecref s) = 0 := rfl
    rw [holders_eq, holders_eq world, mentioned]
    show (if (world.exchanges e).sent then 0 else 1) + _ + _ = _
    omega
  have fewer (other : Nat) :
      sessionHolders ((world.setSession s session).begin thread rest)
            other +
          (if other = s then 1 else 0) =
        sessionHolders world other := by
    have change := moved (sessionRefs other)
    have weight : sessionRefs other (.sessionDecref s) =
        if other = s then 1 else 0 := by
      show (if s = other then 1 else 0) = _
      simp only [eq_comm]
    have own :
        ownRef ((world.setSession s session).begin thread rest) other =
          ownRef world other :=
      ownRef_setSession closed other
    have aliveSame :
        alive ((world.setSession s session).begin thread rest) other =
          alive world other := by
      unfold alive
      apply Finset.filter_congr
      intro e _
      rw [holdersSame]
      rfl
    unfold sessionHolders
    rw [own, aliveSame]
    omega
  constructor
  case exchange =>
    intro e inside
    rw [holdersSame]
    exact accounts.exchange e inside
  case freed =>
    intro e inside
    have change := moved (pendingFree e)
    have none : pendingFree e (.sessionDecref s) = 0 := rfl
    have before := accounts.freed e inside
    rw [holdersSame]
    show (world.exchanges e).frees + _ = _
    omega
  case fresh =>
    intro e beyond
    have before := accounts.fresh e beyond
    have refsChange := moved (refs e)
    have freeChange := moved (pendingFree e)
    rw [mentioned]
    omega
  case session =>
    intro other inside
    have before := accounts.session other inside
    have there := fewer other
    by_cases here : other = s
    · rw [here, if_pos rfl] at there
      rw [here]
      constructor
      · show (if s = s then session else world.sessions s).refcnt = _
        rw [if_pos rfl, refcnt, reduced]
        congr 1
        omega
      · omega
    · rw [if_neg here] at there
      constructor
      · show (if other = s then session else world.sessions other).refcnt = _
        rw [if_neg here, before.1, ← there]
        rfl
      · omega
  case sessionFreed =>
    intro other inside
    have before := accounts.sessionFreed other inside
    have there := fewer other
    show (if other = s then session else world.sessions other).frees = _
    by_cases here : other = s
    · rw [here, if_pos rfl] at there
      rw [here, if_pos rfl, frees]
      by_cases last : sessionHolders world s = 1
      · rw [if_pos last, if_pos (by omega)]
      · rw [if_neg last, if_neg (by omega)]
    · rw [if_neg here] at there
      rw [if_neg here, before, ← there]
      rfl
  case sessionFresh =>
    intro other beyond
    have outside : world.nextSession ≤ other := beyond
    have before := accounts.sessionFresh other outside
    have change := moved (sessionRefs other)
    constructor
    · show (if other = s then session else world.sessions other) = _
      rw [if_neg (by omega)]
      exact before.1
    · omega
  case owner => exact accounts.owner
  case listed =>
    intro other e inside
    rw [lists] at inside
    exact accounts.listed other e inside
  case used =>
    intro e inUse
    have change := moved (uses e)
    exact accounts.used e (by omega)
  case calling => exact accounts.calling
  case starting =>
    have change := moved starts
    have limit := accounts.starting
    show _ + running world.call ≤ 1
    omega
  case pooled =>
    intro e freeing pool
    have change := moved (pendingFree e)
    have before : 0 < total (pendingFree e) world.ops := by omega
    have stays := accounts.pooled e before pool
    show (if world.owner e = s then session
      else world.sessions (world.owner e)).frees = 0
    by_cases here : world.owner e = s
    · rw [if_pos here, frees]
      apply if_neg
      intro last
      rcases exists_of_total before with ⟨other, op, inside, weight⟩
      apply guarded (oneIff last) other op inside
      cases op with
      | exchangeFree freed =>
          have same : freed = e := by
            by_contra different
            have zero : pendingFree e (.exchangeFree freed) = 0 :=
              if_neg different
            omega
          rw [same]
          exact ⟨pool, here⟩
      | _ => exact absurd weight (Nat.lt_irrefl 0)
    · rw [if_neg here]
      exact stays
  case untouched => exact accounts.untouched

end Sessions

/-! ## Freeing -/

section Freeing

variable
    {world : World}
    {thread : Thread}
    {rest : List Op}
    {e : Nat}

/-- The exchange that is about to be freed is there. -/
theorem freeing (accounts : Accounts world)
    (pending : world.ops thread = .exchangeFree e :: rest) :
    e < world.nextExchange ∧ (world.exchanges e).frees = 0 ∧
      ((world.exchanges e).noPool = false →
        (world.sessions (world.owner e)).frees = 0) ∧
        world.touchExchange e = world := by
  have one : pendingFree e (.exchangeFree e) = 1 := if_pos rfl
  have single := le_total (pendingFree e) (mem_pending pending)
  have below : e < world.nextExchange := by
    by_contra beyond
    have fresh := accounts.fresh e (by omega)
    omega
  have freed := accounts.freed e below
  have kept : (world.exchanges e).frees = 0 := by split_ifs at freed <;> omega
  have pool := accounts.pooled e (by omega)
  refine ⟨below, kept, pool, ?_⟩
  unfold World.touchExchange
  rw [if_neg]
  rintro (before | ⟨noPool, before⟩)
  · omega
  · have stays := pool noPool
    omega

/-- The freed exchange, before it is put back into the pool. -/
theorem accounts_free (accounts : Accounts world)
    (pending : world.ops thread = .exchangeFree e :: rest) :
    Accounts
      ((world.setExchange e
        { world.exchanges e with
          frees := (world.exchanges e).frees + 1 }).begin thread rest) := by
  have one : pendingFree e (.exchangeFree e) = 1 := if_pos rfl
  have single := le_total (pendingFree e) (mem_pending pending)
  have below := (freeing accounts pending).1
  have part {Value : Type} (part : Exchange → Value)
      (same :
        part
            { world.exchanges e with frees := (world.exchanges e).frees + 1 } =
          part (world.exchanges e))
      (other : Nat) :
      part
          (((world.setExchange e
            { world.exchanges e with
              frees := (world.exchanges e).frees + 1 }).begin thread
                rest).exchanges other) =
        part (world.exchanges other) :=
    part_setExchange part same other
  generalize made :
      ({ world.exchanges e with
        frees := (world.exchanges e).frees + 1 } : Exchange) =
      exchange at part
  have frees : exchange.frees = (world.exchanges e).frees + 1 := by rw [← made]
  have owner := part Exchange.session (by rw [← made])
  have sent := part Exchange.sent (by rw [← made])
  have refcnt := part Exchange.refcnt (by rw [← made])
  have noPool := part Exchange.noPool (by rw [← made])
  have moved (weight : Op → Nat) :
      total weight
            ((world.setExchange e exchange).begin thread rest).ops +
          weight (.exchangeFree e) =
        total weight world.ops :=
    total_perform weight [] pending
  have mentioned (other : Nat) :
      mentions ((world.setExchange e exchange).begin thread rest)
          other =
        mentions world other := by
    have same :
        ((world.setExchange e exchange).begin thread rest).owner other =
          world.owner other :=
      owner other
    unfold mentions
    rw [same]
    rfl
  have holdersSame (other : Nat) :
      holders ((world.setExchange e exchange).begin thread rest) other =
        holders world other := by
    have change := moved (refs other)
    have none : refs other (.exchangeFree e) = 0 := rfl
    rw [holders_eq, holders_eq world, mentioned, sent]
    omega
  have sessionsSame (s : Nat) :
      sessionHolders ((world.setExchange e exchange).begin thread rest)
          s =
        sessionHolders world s := by
    have change := moved (sessionRefs s)
    have none : sessionRefs s (.exchangeFree e) = 0 := rfl
    have own :
        ownRef ((world.setExchange e exchange).begin thread rest) s =
          ownRef world s :=
      rfl
    have aliveSame :
        alive ((world.setExchange e exchange).begin thread rest) s =
          alive world s := by
      unfold alive
      apply Finset.filter_congr
      intro other _
      have same :
          ((world.setExchange e exchange).begin thread rest).owner
              other =
            world.owner other :=
        owner other
      rw [holdersSame, same]
    unfold sessionHolders
    rw [own, aliveSame]
    omega
  constructor
  case exchange =>
    intro other inside
    rw [holdersSame, refcnt]
    exact accounts.exchange other inside
  case freed =>
    intro other inside
    have before := accounts.freed other inside
    have change := moved (pendingFree other)
    rw [holdersSame]
    show (if other = e then exchange else world.exchanges other).frees + _ = _
    by_cases here : other = e
    · rw [here] at before change ⊢
      rw [if_pos rfl, frees]
      omega
    · have none : pendingFree other (.exchangeFree e) = 0 :=
        if_neg (Ne.symm here)
      rw [if_neg here]
      omega
  case fresh =>
    intro other beyond
    have before := accounts.fresh other beyond
    have refsChange := moved (refs other)
    have freeChange := moved (pendingFree other)
    rw [mentioned]
    omega
  case session =>
    intro s inside
    rw [sessionsSame]
    exact accounts.session s inside
  case sessionFreed =>
    intro s inside
    rw [sessionsSame]
    exact accounts.sessionFreed s inside
  case sessionFresh =>
    intro s beyond
    have before := accounts.sessionFresh s beyond
    have change := moved (sessionRefs s)
    exact ⟨before.1, by omega⟩
  case owner =>
    intro other inside
    have same := owner other
    unfold World.owner
    rw [same]
    exact accounts.owner other inside
  case listed =>
    intro s other inside
    have same := owner other
    unfold World.owner
    rw [same]
    exact accounts.listed s other inside
  case used =>
    intro other inUse
    have change := moved (uses other)
    exact accounts.used other (by omega)
  case calling => exact accounts.calling
  case starting =>
    have change := moved starts
    have limit := accounts.starting
    show _ + running world.call ≤ 1
    omega
  case pooled =>
    intro other freeing pool
    have change := moved (pendingFree other)
    rw [noPool] at pool
    have same := owner other
    unfold World.owner
    rw [same]
    exact accounts.pooled other (by omega) pool
  case untouched => exact accounts.untouched

/-- `ymo_wsgi_exchange_free`. -/
theorem accounts_exchangeFree (accounts : Accounts world)
    (pending : world.ops thread = .exchangeFree e :: rest) :
    Accounts
      ((world.ymoWsgiExchangeFree e).1.begin thread
        ((world.ymoWsgiExchangeFree e).2 ++ rest)) := by
  rcases freeing accounts pending with ⟨below, -, -, here⟩
  have known := accounts.owner e below
  have free := accounts_free accounts pending
  unfold World.ymoWsgiExchangeFree
  simp only [here]
  by_cases pool : (world.exchanges e).noPool = true
  · rw [if_pos pool]
    exact free
  · rw [if_neg pool]
    have linked :
        Accounts
          (((world.setExchange e
              { world.exchanges e with
                frees := (world.exchanges e).frees + 1 }).setSession
              (world.owner e)
              { world.sessions (world.owner e) with
                pool :=
                  (world.sessions (world.owner e)).pool.link
                    (world.exchanges e).item }).begin thread rest) :=
      free.markSession known rfl rfl rfl rfl
    exact
      linked.next _
        (.of_weights fun _ _ => rfl)

end Freeing

/-! ## Creation -/

section Creation

variable {world : World}

/-- `ymo_wsgi_session_init`. -/
theorem accounts_sessionInit (accounts : Accounts world) :
    Accounts world.ymoWsgiSessionInit := by
  have fresh := accounts.sessionFresh world.nextSession (Nat.le_refl _)
  have at_next :
      world.ymoWsgiSessionInit.sessions world.nextSession =
        { Session.blank with
          refcnt := 1
          pool := Pool.full } :=
    if_pos rfl
  have elsewhere {s : Nat} (different : s ≠ world.nextSession) :
      world.ymoWsgiSessionInit.sessions s = world.sessions s :=
    if_neg different
  have lists (s : Nat) :
      (world.ymoWsgiSessionInit.sessions s).list =
        (world.sessions s).list := by
    by_cases here : s = world.nextSession
    · rw [here, at_next, fresh.1]
    · rw [elsewhere here]
  have holdersSame (e : Nat) :
      holders world.ymoWsgiSessionInit e = holders world e := by
    have mentioned :
        mentions world.ymoWsgiSessionInit e = mentions world e := by
      unfold mentions
      rw [lists]
      rfl
    rw [holders_eq, holders_eq world, mentioned]
    rfl
  have aliveSame (s : Nat) :
      alive world.ymoWsgiSessionInit s = alive world s := by
    unfold alive
    apply Finset.filter_congr
    intro e _
    rw [holdersSame]
    rfl
  have none : (alive world world.nextSession).card = 0 := by
    rw [Finset.card_eq_zero]
    apply Finset.filter_eq_empty_iff.mpr
    rintro e member ⟨owned, -⟩
    have known := accounts.owner e (Finset.mem_range.mp member)
    omega
  have ownNext : ownRef world.ymoWsgiSessionInit world.nextSession = 1 := by
    unfold ownRef
    rw [at_next]
    rfl
  have first :
      sessionHolders world.ymoWsgiSessionInit world.nextSession = 1 := by
    have empty : total (sessionRefs world.nextSession)
        world.ymoWsgiSessionInit.ops = 0 :=
      fresh.2
    unfold sessionHolders
    rw [aliveSame, none, ownNext, empty]
  have others {s : Nat} (different : s ≠ world.nextSession) :
      sessionHolders world.ymoWsgiSessionInit s = sessionHolders world s := by
    have own : ownRef world.ymoWsgiSessionInit s = ownRef world s := by
      unfold ownRef
      rw [elsewhere different]
    unfold sessionHolders
    rw [own, aliveSame]
    rfl
  constructor
  case exchange =>
    intro e inside
    rw [holdersSame]
    exact accounts.exchange e inside
  case freed =>
    intro e inside
    rw [holdersSame]
    exact accounts.freed e inside
  case fresh =>
    intro e beyond
    have mentioned :
        mentions world.ymoWsgiSessionInit e = mentions world e := by
      unfold mentions
      rw [lists]
      rfl
    rw [mentioned]
    exact accounts.fresh e beyond
  case session =>
    intro s inside
    by_cases here : s = world.nextSession
    · rw [here, at_next, first]
      exact ⟨rfl, by omega⟩
    · rw [elsewhere here, others here]
      have below : s < world.nextSession + 1 := inside
      exact accounts.session s (by omega)
  case sessionFreed =>
    intro s inside
    by_cases here : s = world.nextSession
    · rw [here, at_next, first]
      rfl
    · rw [elsewhere here, others here]
      have below : s < world.nextSession + 1 := inside
      exact accounts.sessionFreed s (by omega)
  case sessionFresh =>
    intro s beyond
    have outside : world.nextSession + 1 ≤ s := beyond
    rw [elsewhere (by omega)]
    exact accounts.sessionFresh s (by omega)
  case owner =>
    intro e inside
    exact Nat.lt_succ_of_lt (accounts.owner e inside)
  case listed =>
    intro s e inside
    rw [lists] at inside
    exact accounts.listed s e inside
  case used => exact accounts.used
  case calling => exact accounts.calling
  case starting => exact accounts.starting
  case pooled =>
    intro e freeing pool
    have stays := accounts.pooled e freeing pool
    have below : e < world.nextExchange := by
      by_contra beyond
      have zero := accounts.fresh e (by omega)
      have some : 0 < total (pendingFree e) world.ops := freeing
      omega
    have known := accounts.owner e below
    show (world.ymoWsgiSessionInit.sessions (world.owner e)).frees = 0
    rw [elsewhere (by omega)]
    exact stays
  case untouched => exact accounts.untouched

/-- A new exchange, at the end of the list of its session. -/
def created (world : World) (s : Nat) (exchange : Exchange)
    (session : Session) : World :=
  { (world.setExchange world.nextExchange exchange).setSession s
      session with
    nextExchange := world.nextExchange + 1 }

theorem created_exchange (world : World) (s : Nat) (exchange : Exchange)
    (session : Session) :
    (created world s exchange session).exchanges world.nextExchange =
      exchange :=
  if_pos rfl

theorem created_session (world : World) (s : Nat) (exchange : Exchange)
    (session : Session) :
    (created world s exchange session).sessions s = session :=
  if_pos rfl

theorem created_setExchange (world : World) (s : Nat) (first second : Exchange)
    (session : Session) :
    (created world s first session).setExchange world.nextExchange
        second =
      created world s second session := by
  have twice := setExchange_twice world world.nextExchange first second
  unfold created
  rw [← twice]
  rfl

theorem accounts_created (accounts : Accounts world) {s : Nat}
    (exchange : Exchange)
    (session : Session)
    (below : s < world.nextSession)
    (opened : (world.sessions s).closed = false)
    (limit : BelowLimit (world.sessions s).refcnt)
    (owner : exchange.session = s)
    (exchangeRefcnt : exchange.refcnt = 2)
    (exchangeFrees : exchange.frees = 0)
    (unsent : exchange.sent = false)
    (refcnt : session.refcnt = (world.sessions s).refcnt + 1)
    (frees : session.frees = (world.sessions s).frees)
    (list : session.list = (world.sessions s).list ++ [world.nextExchange])
    (closed : session.closed = (world.sessions s).closed) :
    Accounts (created world s exchange session) := by
  have fresh := accounts.fresh world.nextExchange (Nat.le_refl _)
  have at_e :
      (created world s exchange session).exchanges world.nextExchange =
        exchange :=
    if_pos rfl
  have others {e : Nat} (different : e ≠ world.nextExchange) :
      (created world s exchange session).exchanges e = world.exchanges e :=
    if_neg different
  have at_s : (created world s exchange session).sessions s = session :=
    if_pos rfl
  have elsewhere {other : Nat} (different : other ≠ s) :
      (created world s exchange session).sessions other =
        world.sessions other :=
    if_neg different
  have unlisted (other : Nat) :
      world.nextExchange ∉ (world.sessions other).list := by
    intro member
    exact Nat.lt_irrefl _ (accounts.listed other _ member).1
  have ownerNew :
      (created world s exchange session).owner world.nextExchange = s := by
    unfold World.owner
    rw [at_e, owner]
  have ownerOld {e : Nat} (different : e ≠ world.nextExchange) :
      (created world s exchange session).owner e = world.owner e := by
    unfold World.owner
    rw [others different]
  have mentionedNew :
      mentions (created world s exchange session) world.nextExchange = 1 := by
    have zero := fresh.1
    have count : session.list.count world.nextExchange = 1 := by
      rw [list, List.count_append,
        List.count_eq_zero.mpr (unlisted s), List.count_singleton_self]
    unfold mentions at zero ⊢
    rw [ownerNew, at_s, count]
    show world.queueIn.count _ + owed world.call _ +
      world.queueOut.count _ + world.contexts.count _ + 1 = 1
    omega
  have mentionedOld {e : Nat} (different : e ≠ world.nextExchange) :
      mentions (created world s exchange session) e = mentions world e := by
    have count :
        ((created world s exchange session).sessions
            (world.owner e)).list.count e =
          (world.sessions (world.owner e)).list.count e := by
      by_cases here : world.owner e = s
      · rw [here, at_s, list, List.count_append, List.count_singleton]
        simp only [beq_iff_eq, Ne.symm different, if_false, Nat.add_zero]
      · rw [elsewhere here]
    unfold mentions
    rw [ownerOld different, count]
    rfl
  have holdersNew :
      holders (created world s exchange session) world.nextExchange = 2 := by
    have none :
        total (refs world.nextExchange)
          (created world s exchange session).ops = 0 :=
      fresh.2.1
    rw [holders_eq, mentionedNew, at_e, unsent, none]
    rfl
  have holdersOld {e : Nat} (different : e ≠ world.nextExchange) :
      holders (created world s exchange session) e = holders world e := by
    rw [holders_eq, holders_eq world, mentionedOld different, others different]
    rfl
  have aliveCard (other : Nat) :
      (alive (created world s exchange session) other).card =
        (alive world other).card + if other = s then 1 else 0 := by
    have absent : world.nextExchange ∉ alive world other := by
      intro member
      have inside := (Finset.mem_filter.mp member).1
      exact Nat.lt_irrefl _ (Finset.mem_range.mp inside)
    have old (e : Nat) (different : e ≠ world.nextExchange) :
        e ∈ alive (created world s exchange session) other ↔
          e ∈ alive world other := by
      have range :
          (created world s exchange session).nextExchange =
            world.nextExchange + 1 :=
        rfl
      simp only [alive, Finset.mem_filter, Finset.mem_range,
        ownerOld different, holdersOld different, range]
      constructor
      · rintro ⟨inside, facts⟩
        exact ⟨by omega, facts⟩
      · rintro ⟨inside, facts⟩
        exact ⟨by omega, facts⟩
    by_cases here : other = s
    · have grown :
          alive (created world s exchange session) other =
            insert world.nextExchange (alive world other) := by
        ext e
        rw [Finset.mem_insert]
        by_cases same : e = world.nextExchange
        · rw [same]
          simp only [alive, Finset.mem_filter, Finset.mem_range,
            ownerNew, holdersNew, here, true_or, iff_true]
          exact ⟨Nat.lt_succ_self _, trivial, by omega⟩
        · rw [old e same]
          simp only [same, false_or]
      rw [grown, Finset.card_insert_of_notMem absent, if_pos here]
    · have same :
          alive (created world s exchange session) other =
            alive world other := by
        ext e
        by_cases same : e = world.nextExchange
        · rw [same]
          constructor
          · intro member
            have owned := (Finset.mem_filter.mp member).2.1
            rw [ownerNew] at owned
            exact absurd owned.symm here
          · intro member
            exact absurd member absent
        · exact old e same
      rw [same, if_neg here, Nat.add_zero]
  have sessionCount (other : Nat) :
      sessionHolders (created world s exchange session) other =
        sessionHolders world other + if other = s then 1 else 0 := by
    have own :
        ownRef (created world s exchange session) other =
          ownRef world other := by
      unfold ownRef
      by_cases here : other = s
      · rw [here, at_s, closed]
      · rw [elsewhere here]
    unfold sessionHolders
    rw [own, aliveCard]
    show _ + _ + total (sessionRefs other) world.ops = _
    omega
  constructor
  case exchange =>
    intro e inside
    by_cases here : e = world.nextExchange
    · rw [here, at_e, holdersNew, exchangeRefcnt]
      exact ⟨rfl, by omega⟩
    · rw [others here, holdersOld here]
      have range : e < world.nextExchange + 1 := inside
      exact accounts.exchange e (by omega)
  case freed =>
    intro e inside
    by_cases here : e = world.nextExchange
    · have none :
          total (pendingFree world.nextExchange)
            (created world s exchange session).ops = 0 :=
        fresh.2.2
      rw [here, at_e, holdersNew, exchangeFrees, none]
      rfl
    · rw [others here, holdersOld here]
      have range : e < world.nextExchange + 1 := inside
      exact accounts.freed e (by omega)
  case fresh =>
    intro e beyond
    have outside : world.nextExchange + 1 ≤ e := beyond
    rw [mentionedOld (by omega)]
    exact accounts.fresh e (by omega)
  case session =>
    intro other inside
    have before := accounts.session other inside
    rw [sessionCount]
    by_cases here : other = s
    · rw [here] at before ⊢
      unfold BelowLimit at limit
      rw [before.1, BitVec.toNat_ofNat] at limit
      rw [at_s, refcnt, before.1, if_pos rfl, BitVec.ofNat_add]
      exact ⟨rfl, by omega⟩
    · rw [elsewhere here, if_neg here]
      exact before
  case sessionFreed =>
    intro other inside
    have before := accounts.sessionFreed other inside
    rw [sessionCount]
    by_cases here : other = s
    · have open_s : ownRef world s = 1 := by
        unfold ownRef
        rw [opened]
        rfl
      rw [here] at before ⊢
      rw [at_s, frees, before, if_pos rfl]
      unfold sessionHolders
      rw [if_neg (by omega), if_neg (by omega)]
    · rw [elsewhere here, if_neg here]
      exact before
  case sessionFresh =>
    intro other beyond
    have outside : world.nextSession ≤ other := beyond
    rw [elsewhere (by omega)]
    exact accounts.sessionFresh other outside
  case owner =>
    intro e inside
    by_cases here : e = world.nextExchange
    · rw [here, ownerNew]
      exact below
    · rw [ownerOld here]
      have range : e < world.nextExchange + 1 := inside
      exact accounts.owner e (by omega)
  case listed =>
    intro other e member
    by_cases here : other = s
    · rw [here, at_s, list] at member
      rcases List.mem_append.mp member with old | new
      · have before := accounts.listed s e old
        rw [ownerOld (by omega), here]
        exact ⟨Nat.lt_succ_of_lt before.1, before.2⟩
      · rw [List.mem_singleton.mp new, ownerNew, here]
        exact ⟨Nat.lt_succ_self _, rfl⟩
    · rw [elsewhere here] at member
      have before := accounts.listed other e member
      rw [ownerOld (by omega)]
      exact ⟨Nat.lt_succ_of_lt before.1, before.2⟩
  case used => exact accounts.used
  case calling => exact accounts.calling
  case starting => exact accounts.starting
  case pooled =>
    intro e freeing pool
    have different : e ≠ world.nextExchange := by
      intro same
      have some : 0 < total (pendingFree e) world.ops := freeing
      rw [same] at some
      omega
    rw [others different] at pool
    have stays := accounts.pooled e freeing pool
    rw [ownerOld different]
    by_cases here : world.owner e = s
    · rw [here] at stays ⊢
      rw [at_s, frees]
      exact stays
    · rw [elsewhere here]
      exact stays
  case untouched => exact accounts.untouched

end Creation

end Yimmo.Wsgi.Release
