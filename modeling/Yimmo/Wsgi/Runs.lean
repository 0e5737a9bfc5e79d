import Yimmo.Wsgi.Actions

/-!
# References are balanced in every run

The accounts, the free lists of the pools and the order of use are invariants of
the runs whose steps meet the guard.  Together they say that references are
balanced, and that a worker with nothing left to do has answered and freed what it
was given.
-/

namespace Yimmo.Wsgi.Runs

open Yimmo.Lib.Threads
open Yimmo.Lib.GuardedRun
open Yimmo.Wsgi.Worker
open Yimmo.Wsgi.References
open Yimmo.Wsgi.Accounting
open Yimmo.Wsgi.Pools
open Yimmo.Wsgi.Steps
open Yimmo.Wsgi.Progress
open Yimmo.Wsgi.Actions

section Idle

variable {world : World}

/-- With nothing left to do, what was handed to the worker has been sent. -/
theorem sent_of_idle (order : Order world) (idle : Idle world) {e : Nat}
    (below : e < world.nextExchange)
    (handed : Handed world e) :
    (world.exchanges e).sent = true := by
  rw [← Bool.not_eq_false]
  intro unsent
  have noStart : total (startsFor e) world.ops = 0 := total_eq_zero idle.ops
  rcases order.working e below handed unsent with works | waits
  · unfold workerKept at works
    rw [idle.queueIn, idle.call, noStart] at works
    exact Nat.lt_irrefl 0 works
  · have queued := waits.2
    rw [idle.queueOut] at queued
    cases queued

/-- What has been sent has no holder left but the contexts of the application. -/
theorem holders_of_idle (order : Order world) (idle : Idle world)
    (noContext : world.contexts = [])
    {e : Nat}
    (sent : (world.exchanges e).sent = true) :
    holders world e = 0 := by
  have noRefs : total (refs e) world.ops = 0 := total_eq_zero idle.ops
  have unlisted : e ∉ (world.sessions (world.owner e)).list := by
    intro member
    have some := order.sentListed e sent member
    have none : total (doneWith e) world.ops = 0 := total_eq_zero idle.ops
    omega
  rw [holders_eq, noRefs, sent]
  unfold mentions
  rw [idle.queueIn, idle.call, idle.queueOut, noContext,
    List.count_eq_zero.mpr unlisted]
  rfl

end Idle

theorem balanced_of_order {world : World} (accounts : Accounts world)
    (order : Order world) :
    Balanced world := by
  constructor
  case counted =>
    intro e below
    have count := accounts.exchange e below
    rw [count.1, BitVec.toInt_ofNat', Int.bmod_eq_of_le] <;> omega
  case freedLast =>
    intro e below
    have count := accounts.freed e below
    by_cases none : holders world e = 0
    · rw [if_pos none] at count
      exact ⟨by omega, fun _ => none⟩
    · rw [if_neg none] at count
      exact ⟨by omega, by omega⟩
  case untouched => exact accounts.untouched
  case finishedOnce =>
    intro response
    by_cases member : response ∈ world.finished
    · rcases order.finishedKnown response member with ⟨e, below, rfl⟩
      exact order.finishedOnce e below
    · rw [List.count_eq_zero.mpr member]
      exact Nat.zero_le 1
  case finished =>
    intro idle s response asked opened
    rcases order.asked s response asked with ⟨e, below, rfl, rfl⟩
    have sent := sent_of_idle order idle below asked
    exact order.finishedOpen e below sent opened
  case freed =>
    intro idle noContext e below
    by_cases handed : Handed world e
    · left
      have sent := sent_of_idle order idle below handed
      have none := holders_of_idle order idle noContext sent
      have count := accounts.freed e below
      have noFree : total (pendingFree e) world.ops = 0 :=
        total_eq_zero idle.ops
      rw [if_pos none, noFree] at count
      exact count
    · right
      rcases order.unhanded e below handed with ⟨opened, read, -, -⟩
      exact ⟨opened, _, read⟩

/--
In every interleaving whose steps meet the condition, the references to the
exchanges are balanced.
-/
theorem exchangeReferences_balanced (actions : List Action)
    (guarded : AllAlong World.step Guard World.initial actions) :
    Balanced (run World.step World.initial actions) := by
  have kept :=
    invariant_run
      (fun world => Accounts world ∧ Placed world ∧ Pooled world ∧ Order world)
      (fun world action ⟨accounts, placed, pooled, order⟩ condition =>
        ⟨accounts_step accounts placed pooled action condition,
          placed.step action,
          pooled_step pooled accounts action condition,
          order_step order accounts placed pooled action condition⟩)
      ⟨accounts_initial, placed_initial, pooled_initial, order_initial⟩
      guarded
  exact balanced_of_order kept.1 kept.2.2.2

/-- A request that is read, answered with one item and sent. -/
def answeredRequest : List Action :=
  [.sessionInit, .headerCb 0 false, .work .server true, .requestCb 0,
      .popRequest] ++
    List.replicate 6 (.work .worker true) ++
    [.returned true, .yielded [1]] ++
    List.replicate 2 (.work .worker true) ++
    [.exhausted] ++
    List.replicate 2 (.work .worker true) ++
    [.callEnd, .dropContext .worker 0, .work .worker true, .queueResponses] ++
    List.replicate 11 (.work .server true)

theorem exchangeReferences_balanced_answered :
    AllAlong World.step Guard World.initial answeredRequest ∧
      (run World.step World.initial answeredRequest).finished = [0] ∧
        Balanced (run World.step World.initial answeredRequest) :=
  ⟨by decide +kernel, by decide +kernel,
    exchangeReferences_balanced answeredRequest (by decide +kernel)⟩

/--
The worker puts an item back while the server's thread takes the other one, so
that the other is the head again once the first has been taken.
-/
def takenWhileReturned : List Action :=
  [.sessionInit, .headerCb 0 false, .work .server true, .requestCb 0,
      .popRequest] ++
    List.replicate 6 (.work .worker true) ++
    [.returned true, .exhausted] ++
    List.replicate 2 (.work .worker true) ++
    [.callEnd, .queueResponses] ++
    List.replicate 10 (.work .server true) ++
    [.dropContext .worker 0] ++
    List.replicate 3 (.work .worker true) ++
    [.headerCb 0 false, .work .server true, .work .worker true,
      .requestCb 0, .headerCb 0 false, .work .server true, .requestCb 0,
      .headerCb 0 false, .work .server true]

example :
    (run World.step World.initial takenWhileReturned).faults =
      [.usedExchange 1] := by
  decide +kernel

/-- A request that the application answers by two calls of `write`. -/
def writtenTwice : List Action :=
  [.sessionInit, .headerCb 0 false, .work .server true, .requestCb 0,
      .popRequest] ++
    List.replicate 6 (.work .worker true) ++
    [.write .worker 0 [1], .work .worker true, .work .worker true,
      .write .worker 0 [2], .work .worker true, .work .worker true,
      .returned false, .dropContext .worker 0, .work .worker true,
      .queueResponses] ++
    List.replicate 13 (.work .server true)

theorem exchangeReferences_not_always_balanced :
    ¬∀ actions, Balanced (run World.step World.initial actions) := by
  intro balanced
  have untouched := (balanced writtenTwice).untouched
  revert untouched
  decide +kernel

end Yimmo.Wsgi.Runs
