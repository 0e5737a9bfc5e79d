import Mathlib.Algebra.GroupWithZero.Nat
import Mathlib.Algebra.Order.BigOperators.Group.Finset
import Mathlib.Algebra.Order.BigOperators.Group.List

/-!
# Threads with pending operations

A thread that is in the middle of something is the list of the operations it
still has to perform.  One step takes the first of them, and may put others in
its place; the threads take their steps in any order.

What the pending operations hold, such as the references that they are going to
give back, is a sum over all of them (`total`).  `total_perform` says how one
step changes every such sum.
-/

namespace Yimmo.Lib.Threads

variable
    {Thread Op : Type*}
    [DecidableEq Thread]
    {thread : Thread}

/-- A thread replaces what it has to do. -/
def setOps (ops : Thread → List Op) (thread : Thread) (pending : List Op) :
    Thread → List Op :=
  fun other => if other = thread then pending else ops other

@[simp]
theorem setOps_same (ops : Thread → List Op) (thread : Thread)
    (pending : List Op) :
    setOps ops thread pending thread = pending :=
  if_pos rfl

theorem setOps_other (ops : Thread → List Op) {thread other : Thread}
    (pending : List Op)
    (different : other ≠ thread) :
    setOps ops thread pending other = ops other :=
  if_neg different

variable [Fintype Thread]

/-- The sum of a weight over all pending operations. -/
def total (weight : Op → Nat) (ops : Thread → List Op) : Nat :=
  ∑ thread, ((ops thread).map weight).sum

theorem total_setOps (weight : Op → Nat) (ops : Thread → List Op)
    (thread : Thread)
    (pending : List Op) :
    total weight (setOps ops thread pending) +
        ((ops thread).map weight).sum =
      total weight ops + (pending.map weight).sum := by
  have elsewhere :
      ∑ other ∈ Finset.univ.erase thread,
          ((setOps ops thread pending other).map weight).sum =
        ∑ other ∈ Finset.univ.erase thread, ((ops other).map weight).sum := by
    apply Finset.sum_congr rfl
    intro other member
    rw [setOps_other ops pending (Finset.ne_of_mem_erase member)]
  have after :=
    Finset.add_sum_erase Finset.univ
      (fun other => ((setOps ops thread pending other).map weight).sum)
      (Finset.mem_univ thread)
  have before :=
    Finset.add_sum_erase Finset.univ
      (fun other => ((ops other).map weight).sum)
      (Finset.mem_univ thread)
  simp only [setOps_same] at after
  unfold total
  omega

/-- The first pending operation of a thread is replaced by others. -/
theorem total_perform (weight : Op → Nat) {ops : Thread → List Op} {op : Op}
    {rest : List Op}
    (new : List Op)
    (pending : ops thread = op :: rest) :
    total weight (setOps ops thread (new ++ rest)) + weight op =
      total weight ops + (new.map weight).sum := by
  have change := total_setOps weight ops thread (new ++ rest)
  rw [pending, List.map_append, List.sum_append, List.map_cons,
    List.sum_cons] at change
  omega

/-- A thread with nothing to do starts something. -/
theorem total_begin (weight : Op → Nat) {ops : Thread → List Op}
    (new : List Op)
    (idle : ops thread = []) :
    total weight (setOps ops thread new) =
      total weight ops + (new.map weight).sum := by
  have change := total_setOps weight ops thread new
  rw [idle] at change
  exact change

omit [DecidableEq Thread] in
theorem le_total (weight : Op → Nat) {ops : Thread → List Op} {op : Op}
    (member : op ∈ ops thread) :
    weight op ≤ total weight ops := by
  have within : weight op ≤ ((ops thread).map weight).sum :=
    List.single_le_sum (fun _ _ => Nat.zero_le _) _
      (List.mem_map_of_mem member)
  have single : ((ops thread).map weight).sum ≤ total weight ops :=
    Finset.single_le_sum
      (f := fun other => ((ops other).map weight).sum)
      (fun _ _ => Nat.zero_le _) (Finset.mem_univ thread)
  exact Nat.le_trans within single

omit [DecidableEq Thread] in
theorem exists_of_total {weight : Op → Nat} {ops : Thread → List Op}
    (positive : 0 < total weight ops) :
    ∃ thread, ∃ op ∈ ops thread, 0 < weight op := by
  by_contra none
  have zero (thread : Thread) (_ : thread ∈ Finset.univ) :
      ((ops thread).map weight).sum = 0 := by
    apply List.sum_eq_zero
    intro value member
    rcases List.mem_map.mp member with ⟨op, inside, rfl⟩
    by_contra some
    exact none ⟨thread, op, inside, Nat.pos_of_ne_zero some⟩
  unfold total at positive
  rw [Finset.sum_eq_zero zero] at positive
  exact Nat.lt_irrefl 0 positive

omit [DecidableEq Thread] in
theorem total_eq_zero {weight : Op → Nat} {ops : Thread → List Op}
    (idle : ∀ thread, ops thread = []) :
    total weight ops = 0 := by
  unfold total
  simp only [idle, List.map_nil, List.sum_nil, Finset.sum_const_zero]

omit [DecidableEq Thread] in
theorem total_mono {first second : Op → Nat}
    (below : ∀ op, first op ≤ second op)
    (ops : Thread → List Op) :
    total first ops ≤ total second ops := by
  apply Finset.sum_le_sum
  intro thread _
  exact List.sum_le_sum fun op _ => below op

omit [DecidableEq Thread] in
theorem total_add (first second : Op → Nat) (ops : Thread → List Op) :
    total (fun op => first op + second op) ops =
      total first ops + total second ops := by
  unfold total
  rw [← Finset.sum_add_distrib]
  apply Finset.sum_congr rfl
  intro thread _
  exact List.sum_map_add

end Yimmo.Lib.Threads
