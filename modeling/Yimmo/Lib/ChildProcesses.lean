import Mathlib.Data.List.Nodup

/-!
# The children of a process

The kernel keeps a table of the children of a process.  A child is in it from its
fork until it is waited for; between its end and that it is not running.  The
numbers of the children in the table are positive and no two are the same, which
the table carries as fields; a number may be given to a new child once the old one
was waited for.

Waiting is the kind that does not block, for one child or, with `-1`, for any.
-/

namespace Yimmo.Lib.ChildProcesses

variable {pid other : Int}

/-- A child that was not waited for. -/
structure Process where
  pid : Int
  running : Bool
deriving DecidableEq

/-- The children that were not waited for. -/
structure Children where
  list : List Process
  distinct : (list.map Process.pid).Nodup
  positive : ∀ child ∈ list, 0 < child.pid

variable {children : Children}

namespace Children

def empty : Children where
  list := []
  distinct := List.nodup_nil
  positive := fun _ inside => nomatch inside

/-- The child is running. -/
def Running (children : Children) (pid : Int) : Prop :=
  { pid := pid, running := true } ∈ children.list

instance decidableRunning
    (children : Children)
    (pid : Int) :
    Decidable (children.Running pid) :=
  inferInstanceAs (Decidable (_ ∈ _))

/-- The number is one of a child in the table. -/
def Has (children : Children) (pid : Int) : Prop :=
  pid ∈ children.list.map Process.pid

instance decidableHas
    (children : Children)
    (pid : Int) :
    Decidable (children.Has pid) :=
  inferInstanceAs (Decidable (_ ∈ _))

/-- Two children of one number are the same. -/
theorem eq_of_pid {left right : Process} (first : left ∈ children.list)
    (second : right ∈ children.list)
    (same : left.pid = right.pid) :
    left = right :=
  List.inj_on_of_nodup_map children.distinct first second same

/-! ## The operations -/

/-- A new child of the number the kernel chose, or `-1` when it has none. -/
def fork (children : Children) (pid : Int) : Int × Children :=
  if free : 0 < pid ∧ ¬ children.Has pid then
    (pid,
      { list := children.list ++ [{ pid := pid, running := true }]
        distinct := by
          rw [List.map_append, List.nodup_append]
          refine ⟨children.distinct, List.nodup_singleton pid, ?_⟩
          intro other inside new equal same
          rw [List.mem_singleton.mp equal] at same
          rw [show other = pid from same] at inside
          exact free.2 inside
        positive := by
          intro child inside
          rcases List.mem_append.mp inside with before | new
          · exact children.positive child before
          · rw [List.mem_singleton.mp new]
            exact free.1 })
  else (-1, children)

/-- The process of a child ends. -/
def ending (pid : Int) (child : Process) : Process :=
  if child.pid = pid then { child with running := false } else child

@[simp]
theorem pid_ending (pid : Int) (child : Process) :
    (ending pid child).pid = child.pid := by
  unfold ending
  split
  · rfl
  · rfl

/-- A child ends. -/
def exits (children : Children) (pid : Int) : Children where
  list := children.list.map (ending pid)
  distinct := by
    rw [List.map_map]
    have same : Process.pid ∘ ending pid = Process.pid :=
      funext (pid_ending pid)
    rw [same]
    exact children.distinct
  positive := by
    intro child inside
    rcases List.mem_map.mp inside with ⟨before, member, rfl⟩
    rw [pid_ending]
    exact children.positive before member

/-- A child that ended is taken from the table. -/
def reap (children : Children) (pid : Int) : Children where
  list :=
    children.list.filter fun child =>
      decide (child ≠ { pid := pid, running := false })
  distinct := children.distinct.sublist (List.filter_sublist.map Process.pid)
  positive child inside :=
    children.positive child (List.mem_of_mem_filter inside)

/-- The argument of `waitpid` stands for the child. -/
def selects (pid : Int) (child : Process) : Bool :=
  decide (pid = -1) || decide (child.pid = pid)

/-- `waitpid(pid, &status, WNOHANG)`. -/
def waitpid (children : Children) (pid : Int) : Int × Children :=
  match children.list.find? fun child => selects pid child && !child.running
  with
  | some child => (child.pid, children.reap child.pid)
  | none =>
      if children.list.any (selects pid) then (0, children)
      else (-1, children)

/-! ## What runs after an operation -/

theorem fork_of_free {pid : Int} (positive : 0 < pid)
    (free : ¬ children.Has pid) :
    (children.fork pid).1 = pid ∧
      (children.fork pid).2.list =
        children.list ++ [{ pid := pid, running := true }] := by
  rw [fork, dif_pos ⟨positive, free⟩]
  exact ⟨rfl, rfl⟩

theorem running_fork (positive : 0 < pid) (free : ¬ children.Has pid) :
    (children.fork pid).2.Running other ↔
      children.Running other ∨ other = pid := by
  rw [Running, (fork_of_free positive free).2, List.mem_append,
    List.mem_singleton, Process.mk.injEq]
  exact or_congr_right ⟨And.left, fun same => ⟨same, rfl⟩⟩

theorem has_fork (positive : 0 < pid) (free : ¬ children.Has pid) :
    (children.fork pid).2.Has other ↔ children.Has other ∨ other = pid := by
  rw [Has, (fork_of_free positive free).2, List.map_append, List.mem_append]
  exact or_congr_right List.mem_singleton

theorem running_exits {pid other : Int} :
    (children.exits pid).Running other ↔
      children.Running other ∧ other ≠ pid := by
  constructor
  · intro running
    rcases List.mem_map.mp running with ⟨child, inside, ended⟩
    by_cases here : child.pid = pid
    · rw [ending, if_pos here] at ended
      exact absurd (congrArg Process.running ended) Bool.false_ne_true
    · rw [ending, if_neg here] at ended
      subst ended
      exact ⟨inside, here⟩
  · rintro ⟨running, apart⟩
    exact List.mem_map.mpr ⟨_, running, by rw [ending, if_neg apart]⟩

@[simp]
theorem running_reap {pid other : Int} :
    (children.reap pid).Running other ↔ children.Running other := by
  constructor
  · exact List.mem_of_mem_filter
  · intro running
    refine List.mem_filter.mpr ⟨running, decide_eq_true ?_⟩
    intro same
    exact absurd (congrArg Process.running same) (Ne.symm Bool.false_ne_true)

theorem Has.of_reap (has : (children.reap pid).Has other) :
    children.Has other :=
  (List.filter_sublist.map Process.pid).subset has

/-- Waiting changes nothing for the children that run. -/
@[simp]
theorem running_waitpid {pid other : Int} :
    (children.waitpid pid).2.Running other ↔ children.Running other := by
  unfold waitpid
  split
  · exact running_reap
  · split
    · exact Iff.rfl
    · exact Iff.rfl

theorem Has.of_waitpid (has : (children.waitpid pid).2.Has other) :
    children.Has other := by
  unfold waitpid at has
  split at has
  · exact has.of_reap
  · split at has
    · exact has
    · exact has

/-- Waiting for one child says that nothing has changed just when it runs. -/
theorem waitpid_eq_zero_iff {pid : Int} (positive : 0 < pid) :
    (children.waitpid pid).1 = 0 ↔ children.Running pid := by
  have named : ∀ child, selects pid child = true ↔ child.pid = pid := by
    intro child
    have apart : pid ≠ -1 := by omega
    rw [selects, decide_eq_false apart, Bool.false_or, decide_eq_true_iff]
  unfold waitpid
  split
  · rename_i child found
    have inside := List.mem_of_find?_eq_some found
    have ended := List.find?_some found
    rw [Bool.and_eq_true, named, Bool.not_eq_true'] at ended
    constructor
    · intro zero
      have := children.positive child inside
      omega
    · intro running
      have same := eq_of_pid inside running ended.1
      rw [same] at ended
      exact absurd ended.2 (Ne.symm Bool.false_ne_true)
  · rename_i missing
    rw [List.find?_eq_none] at missing
    split
    · rename_i some
      refine ⟨fun _ => ?_, fun _ => rfl⟩
      rcases List.any_eq_true.mp some with ⟨child, inside, selected⟩
      have here := (named child).mp selected
      have still := missing child inside
      rw [selected, Bool.true_and, Bool.not_eq_true', Bool.not_eq_false]
        at still
      have same : child = { pid := pid, running := true } := by
        cases child
        cases here
        cases still
        rfl
      rw [same] at inside
      exact inside
    · rename_i gone
      constructor
      · intro minus
        exact absurd (show (-1 : Int) = 0 from minus) (by decide)
      · intro running
        exact
          absurd
            (List.any_eq_true.mpr ⟨_, running, (named _).mpr rfl⟩)
            gone

/-- Waiting for any child fails just when there is none. -/
theorem waitpid_any_eq_iff {children : Children} :
    (children.waitpid (-1)).1 = -1 ↔ children.list = [] := by
  unfold waitpid
  split
  · rename_i child found
    have inside := List.mem_of_find?_eq_some found
    constructor
    · intro minus
      have := children.positive child inside
      omega
    · intro none
      rw [none] at inside
      cases inside
  · split
    · rename_i some
      constructor
      · intro minus
        exact absurd (show (0 : Int) = -1 from minus) (by decide)
      · intro none
        rw [none] at some
        cases some
    · rename_i gone
      refine ⟨fun _ => ?_, fun _ => rfl⟩
      rw [List.eq_nil_iff_forall_not_mem]
      intro child inside
      exact gone (List.any_eq_true.mpr ⟨child, inside, rfl⟩)

end Children

end Yimmo.Lib.ChildProcesses
