import Mathlib.Data.List.Nodup

/-!
# A mutex with a condition variable

A monitor is a mutex and the condition variable that goes with it: who holds the
mutex, and who sleeps on the condition.  A thread falls asleep only while it holds
the mutex, which it gives up in the same moment, so the holder never sleeps and no
thread sleeps twice; the monitor carries this as fields.

A thread that was woken, by a signal or without one, takes the mutex as any other
thread does.  `lock` has no result while the thread has to go on waiting, be it for
the mutex or for a signal.
-/

namespace Yimmo.Lib.Monitors

/-- A mutex and its condition variable. -/
structure Monitor (Thread : Type*) where
  holder : Option Thread
  sleepers : List Thread
  distinct : sleepers.Nodup
  apart : ∀ thread ∈ holder, thread ∉ sleepers

namespace Monitor

variable {Thread : Type*}

/-- Nobody holds the mutex and nobody sleeps. -/
def free : Monitor Thread where
  holder := none
  sleepers := []
  distinct := List.nodup_nil
  apart := by
    intro thread holds
    cases holds

/-- The mutex is given back. -/
def unlock (monitor : Monitor Thread) : Monitor Thread where
  holder := none
  sleepers := monitor.sleepers
  distinct := monitor.distinct
  apart := by
    intro thread holds
    cases holds

@[simp]
theorem holder_unlock (monitor : Monitor Thread) :
    monitor.unlock.holder = none :=
  rfl

@[simp]
theorem sleepers_unlock (monitor : Monitor Thread) :
    monitor.unlock.sleepers = monitor.sleepers :=
  rfl

variable [DecidableEq Thread]

/-- The mutex is taken, unless another thread has it or the thread sleeps. -/
def lock (monitor : Monitor Thread) (thread : Thread) :
    Option (Monitor Thread) :=
  if opened : monitor.holder = none ∧ thread ∉ monitor.sleepers then
    some
      { holder := some thread
        sleepers := monitor.sleepers
        distinct := monitor.distinct
        apart := by
          intro other holds
          rw [← Option.some.inj holds]
          exact opened.2 }
  else none

/-- The holder falls asleep on the condition and gives the mutex back. -/
def wait (monitor : Monitor Thread) (thread : Thread) : Monitor Thread :=
  if holds : monitor.holder = some thread then
    { holder := none
      sleepers := monitor.sleepers ++ [thread]
      distinct := by
        rw [← List.concat_eq_append]
        exact monitor.distinct.concat (monitor.apart thread holds)
      apart := by
        intro other holds
        cases holds }
  else monitor

/-- A sleeper is woken; it has yet to take the mutex. -/
def wake (monitor : Monitor Thread) (thread : Thread) : Monitor Thread where
  holder := monitor.holder
  sleepers := monitor.sleepers.erase thread
  distinct := monitor.distinct.erase thread
  apart other holds inside :=
    monitor.apart other holds (List.mem_of_mem_erase inside)

/-! ## What the operations leave -/

@[simp]
theorem holder_wake (monitor : Monitor Thread) (thread : Thread) :
    (monitor.wake thread).holder = monitor.holder :=
  rfl

@[simp]
theorem sleepers_wake (monitor : Monitor Thread) (thread : Thread) :
    (monitor.wake thread).sleepers = monitor.sleepers.erase thread :=
  rfl

/-- A thread that was woken does not sleep. -/
theorem not_mem_sleepers_wake (monitor : Monitor Thread) (thread : Thread) :
    thread ∉ (monitor.wake thread).sleepers :=
  monitor.distinct.not_mem_erase

/-- Waking one thread puts no other to sleep. -/
theorem mem_sleepers_of_wake {monitor : Monitor Thread} {thread other : Thread}
    (asleep : other ∈ (monitor.wake thread).sleepers) :
    other ∈ monitor.sleepers :=
  List.mem_of_mem_erase asleep

theorem lock_eq_some {monitor locked : Monitor Thread} {thread : Thread}
    (taken : monitor.lock thread = some locked) :
    monitor.holder = none ∧ thread ∉ monitor.sleepers ∧
      locked.holder = some thread ∧
        locked.sleepers = monitor.sleepers := by
  unfold lock at taken
  split at taken
  case isTrue opened =>
    cases taken
    exact ⟨opened.1, opened.2, rfl, rfl⟩
  case isFalse => cases taken

theorem lock_eq_none {monitor : Monitor Thread} {thread : Thread}
    (awake : thread ∉ monitor.sleepers)
    (refused : monitor.lock thread = none) :
    ∃ other, monitor.holder = some other := by
  unfold lock at refused
  split at refused
  case isTrue => cases refused
  case isFalse shut =>
    cases held : monitor.holder with
    | none => exact absurd ⟨held, awake⟩ shut
    | some other => exact ⟨other, rfl⟩

/-- A thread that is awake gets a mutex that is free. -/
theorem exists_lock {monitor : Monitor Thread} {thread : Thread}
    (unheld : monitor.holder = none)
    (awake : thread ∉ monitor.sleepers) :
    ∃ locked, monitor.lock thread = some locked ∧
      locked.holder = some thread ∧
        locked.sleepers = monitor.sleepers := by
  refine ⟨_, dif_pos ⟨unheld, awake⟩, rfl, rfl⟩

theorem holder_wait {monitor : Monitor Thread} {thread : Thread}
    (holds : monitor.holder = some thread) :
    (monitor.wait thread).holder = none := by
  unfold wait
  rw [dif_pos holds]

theorem mem_sleepers_wait {monitor : Monitor Thread} {thread : Thread}
    (holds : monitor.holder = some thread)
    {other : Thread} :
    other ∈ (monitor.wait thread).sleepers ↔
      other ∈ monitor.sleepers ∨ other = thread := by
  unfold wait
  rw [dif_pos holds, List.mem_append, List.mem_singleton]

end Monitor

end Yimmo.Lib.Monitors
