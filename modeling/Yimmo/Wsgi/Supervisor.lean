import Mathlib.Data.List.GetD
import Yimmo.Lib.ChildProcesses
import Yimmo.Lib.GuardedRun

/-!
# The main process and its workers

In multi-processing mode the main process forks its workers, waits in its event
loop, replaces a worker that has ended, and tells the workers to end when it is told
to.  This module models `ymo_wsgi_proc.c` and `ymo_wsgi_proc_main.h` on the side of
the main process, over the kernel's table of its children.

The handler of SIGCHLD stops the watchers of the signals for its loop.  While no
watcher of SIGTERM is active that signal has its default action, so the main process
does not come back from sending it to itself.

libev waits for the children of its default loop too; a worker that ended may be gone
from the table before the handler asks for it.
-/

namespace Yimmo.Wsgi.Supervisor

open Yimmo.Lib.ChildProcesses
open Yimmo.Lib.GuardedRun

variable
    {noWsgiProc : Nat}
    {pids : List Int}
    {i : Nat}

/-! ## The main process -/

/-- `YMO_WSGI_PROC_MAX_RESTARTS`. -/
def ymoWsgiProcMaxRestarts : Nat := 2

/-- The signals that the main process sends. -/
inductive Signal where
  | sigterm
  | sigkill
deriving DecidableEq

/-- The fields of `ymo_wsgi_proc_t` that the main process uses. -/
structure WsgiProc where
  noWsgiProc : Int
  restartCount : Nat
  term : Bool
  children : List Int
  sigintWatcher : Bool
  sigchldWatcher : Bool
  sigtermWatcher : Bool
  /-- `pkill_timer` is active. -/
  pkillTimer : Bool
  /-- The `data` of `pkill_timer` is set. -/
  pkillData : Bool
deriving DecidableEq

/-- Where the main process is. -/
inductive Phase where
  | loop
  | teardown
  | exited
  /-- It was ended by a signal. -/
  | killed
deriving DecidableEq

/-- The main process, its children, and what it did. -/
structure MainProc where
  proc : WsgiProc
  phase : Phase
  /-- `ev_break` was called. -/
  broken : Bool
  kernel : Children
  /-- SIGCHLD was raised and not handled. -/
  raised : Bool
  /-- The results of `fork`. -/
  forks : List Int
  /-- The calls of `kill` for other processes. -/
  kills : List (Int × Signal)
  /-- `pkill_timer` has fired. -/
  fired : Bool

/-- `fork` in `ymo_wsgi_proc_fork_new`, on the side of the parent. -/
def ymoWsgiProcForkNew (main : MainProc) (pid : Int) : MainProc :=
  { main with
    kernel := (main.kernel.fork pid).2
    forks := main.forks ++ [(main.kernel.fork pid).1] }

/-- `w_proc->children[i] = ymo_wsgi_proc_fork_new(w_proc, i+1)`. -/
def forkChild (pids : List Int) (main : MainProc) (i : Nat) : MainProc :=
  let forked := ymoWsgiProcForkNew main (pids.getD i 0)
  { forked with
    proc.children :=
      main.proc.children.set i (main.kernel.fork (pids.getD i 0)).1 }

/-- `w_proc` and its processes, before `main` forks. -/
def create (noWsgiProc : Nat) : MainProc where
  proc :=
    { noWsgiProc := noWsgiProc
      restartCount := 0
      term := false
      children := List.replicate noWsgiProc 0
      sigintWatcher := false
      sigchldWatcher := false
      sigtermWatcher := false
      pkillTimer := false
      pkillData := false }
  phase := .loop
  broken := false
  kernel := Children.empty
  raised := false
  forks := []
  kills := []
  fired := false

/-- The watchers that `ymo_wsgi_proc_main` and `main_proc_init` start, and that the
handler of SIGCHLD stops and starts. -/
def watch (main : MainProc) (active : Bool) : MainProc :=
  { main with
    proc.sigintWatcher := active
    proc.sigchldWatcher := active
    proc.sigtermWatcher := active }

/-- `main` up to the event loop. -/
def start (noWsgiProc : Nat) (pids : List Int) : MainProc :=
  watch
    ((List.range noWsgiProc).foldl (forkChild pids) (create noWsgiProc))
    true

/-- `kill(getpid(), SIGTERM)`: with no watcher the process ends. -/
def killSelf (main : MainProc) : MainProc :=
  if main.proc.sigtermWatcher = true then main
  else { main with phase := .killed }

/-- A turn of the loop of `ymo_wsgi_proc_sigchld`. -/
def checkChild (pids : List Int) (main : MainProc) (i : Nat) : MainProc :=
  if main.phase = .killed then main
  else
    let waited := main.kernel.waitpid (main.proc.children.getD i 0)
    let main := { main with kernel := waited.2 }
    if waited.1 ≠ 0 then
      if main.proc.restartCount < ymoWsgiProcMaxRestarts then
        forkChild pids
          { main with proc.restartCount := main.proc.restartCount + 1 } i
      else killSelf main
    else main

/-- `ymo_wsgi_proc_sigchld`; `pids` are the numbers the kernel has for the forks. -/
def ymoWsgiProcSigchld (pids : List Int) (main : MainProc) : MainProc :=
  if main.proc.term = true then
    let main := { main with proc.noWsgiProc := main.proc.noWsgiProc - 1 }
    if main.proc.noWsgiProc = 1 then { main with broken := true } else main
  else
    let checked :=
      (List.range main.proc.noWsgiProc.toNat).foldl (checkChild pids)
        (watch main false)
    if checked.phase = .killed then checked else watch checked true

/-- `kill` for the children in front. -/
def killChildren (main : MainProc) (signal : Signal) : MainProc :=
  { main with
    kills :=
      main.kills ++
        (main.proc.children.take main.proc.noWsgiProc.toNat).map
          fun pid => (pid, signal) }

/-- `ymo_wsgi_main_shutdown`. -/
def ymoWsgiMainShutdown (main : MainProc) : MainProc :=
  { killChildren main .sigterm with proc.pkillTimer := true }

/-- `ymo_wsgi_sig_shutdown`, of the main process. -/
def ymoWsgiSigShutdown (main : MainProc) : MainProc :=
  ymoWsgiMainShutdown { main with proc.term := true }

/-- The event loop is broken when `pkill_timer` fires. -/
def breakLoop (main : MainProc) : MainProc :=
  { main with
    broken := true
    fired := true
    proc.pkillTimer := false }

/-- `ymo_wsgi_main_pkill`. -/
def ymoWsgiMainPkill (main : MainProc) : MainProc :=
  if main.proc.pkillData = true then killChildren (breakLoop main) .sigkill
  else breakLoop main

/-- A turn of the loop of `main_proc_teardown`, when its `waitpid` comes back. -/
def mainProcTeardown (main : MainProc) : MainProc :=
  let waited := main.kernel.waitpid (-1)
  if waited.1 = -1 then { main with phase := .exited }
  else { main with kernel := waited.2 }

/-! ## Its runs -/

/-- What happens to the main process and to its children. -/
inductive Step where
  /-- A child ends. -/
  | exits (pid : Int)
  /-- libev waits for a child. -/
  | reaps (pid : Int)
  | sigchld (pids : List Int)
  | sigint
  | sigterm
  /-- The time of `pkill_timer` is over. -/
  | pkill
  /-- `ev_run` returns. -/
  | returns
  /-- `waitpid` returns in `main_proc_teardown`. -/
  | waits
deriving DecidableEq

/-- A step, if it can be taken. -/
def mainStep (main : MainProc) : Step → MainProc
  | .exits pid =>
      if main.kernel.Running pid then
        { main with kernel := main.kernel.exits pid, raised := true }
      else main
  | .reaps pid =>
      if main.phase = .loop then { main with kernel := main.kernel.reap pid }
      else main
  | .sigchld pids =>
      if main.phase = .loop ∧ main.proc.sigchldWatcher = true then
        ymoWsgiProcSigchld pids { main with raised := false }
      else main
  | .sigint =>
      if main.phase = .loop ∧ main.proc.sigintWatcher = true then
        ymoWsgiSigShutdown main
      else main
  | .sigterm =>
      if main.phase = .loop ∧ main.proc.sigtermWatcher = true then
        ymoWsgiSigShutdown main
      else main
  | .pkill =>
      if main.phase = .loop ∧ main.proc.pkillTimer = true then
        ymoWsgiMainPkill main
      else main
  | .returns =>
      if main.phase = .loop ∧ main.broken = true then
        { main with phase := .teardown }
      else main
  | .waits => if main.phase = .teardown then mainProcTeardown main else main

/-- The kernel has a number for each worker that may have to be forked: none that
is in use, and none that `children` still holds. -/
def Fresh (main : MainProc) (pids : List Int) : Prop :=
  pids.Nodup ∧
    main.proc.noWsgiProc ≤ pids.length ∧
      ∀ pid ∈ pids, 0 < pid ∧ pid ∉ main.proc.children ∧ ¬ main.kernel.Has pid

instance decidableFresh
    (main : MainProc)
    (pids : List Int) :
    Decidable (Fresh main pids) :=
  inferInstanceAs (Decidable (_ ∧ _ ∧ _))

/-- The forks of the step succeed, with numbers of their own. -/
def forksFresh (main : MainProc) : Step → Prop
  | .sigchld pids => main.proc.term = false → Fresh main pids
  | _ => True

instance decidableForksFresh
    (main : MainProc) :
    ∀ step, Decidable (forksFresh main step)
  | .sigchld _ => inferInstanceAs (Decidable (_ → _))
  | .exits _ | .reaps _ | .sigint | .sigterm | .pkill | .returns | .waits =>
      .isTrue trivial

/-! ## The slots of the workers -/

/-- What is always so of the slots, of the children and of the forks. -/
structure Slots (noWsgiProc : Nat) (main : MainProc) : Prop where
  length : main.proc.children.length = noWsgiProc
  distinct : main.proc.children.Nodup
  positive : ∀ pid ∈ main.proc.children, 0 < pid
  named : ∀ pid, main.kernel.Running pid → pid ∈ main.proc.children
  own : ∀ pid ∈ main.proc.children, pid ∈ main.forks
  forked : main.forks.length = noWsgiProc + main.proc.restartCount
  budget : main.proc.restartCount ≤ ymoWsgiProcMaxRestarts

/-- Every worker runs. -/
def AllRunning (main : MainProc) : Prop :=
  ∀ pid ∈ main.proc.children, main.kernel.Running pid

/-- The numbers of the slots from one on are not in use. -/
def Unused (noWsgiProc : Nat) (pids : List Int) (i : Nat) (main : MainProc) :
    Prop :=
  ∀ k, i ≤ k → k < noWsgiProc →
    0 < pids.getD k 0 ∧
      pids.getD k 0 ∉ main.proc.children ∧
        ¬ main.kernel.Has (pids.getD k 0)

theorem getD_mem {k : Nat} (inside : k < pids.length) :
    pids.getD k 0 ∈ pids := by
  rw [List.getD_eq_getElem pids 0 inside]
  exact List.getElem_mem inside

theorem getD_ne (distinct : pids.Nodup) {i k : Nat} (first : i < pids.length)
    (second : k < pids.length)
    (apart : i ≠ k) :
    pids.getD i 0 ≠ pids.getD k 0 := by
  rw [List.getD_eq_getElem pids 0 first, List.getD_eq_getElem pids 0 second]
  intro same
  exact apart ((List.Nodup.getElem_inj_iff distinct).mp same)

/-- A slot that is set holds its value, and the others what they held. -/
theorem getD_set {children : List Int} {i j : Nat} (value : Int)
    (inside : i < children.length) :
    (children.set i value).getD j 0 =
      if i = j then value else children.getD j 0 := by
  rw [List.getD_eq_getElem?_getD, List.getElem?_set,
    List.getD_eq_getElem?_getD]
  split
  · rfl
  · rfl

/-! ## A fork for a slot -/

variable {main : MainProc}

/-- A child of a number of its own takes the place of one that has ended. -/
theorem Slots.forkChild (slots : Slots noWsgiProc main)
    (inside : i < noWsgiProc)
    (unused : Unused noWsgiProc pids i main)
    (ended : ¬ main.kernel.Running (main.proc.children.getD i 0))
    (below : main.proc.restartCount < ymoWsgiProcMaxRestarts) :
    Slots noWsgiProc
      (forkChild pids
        { main with proc.restartCount := main.proc.restartCount + 1 }
        i) := by
  have here : i < main.proc.children.length := slots.length ▸ inside
  rcases unused i (Nat.le_refl i) inside with ⟨positive, apart, free⟩
  have forked := Children.fork_of_free positive free
  have held : main.proc.children.getD i 0 = main.proc.children[i] :=
    List.getD_eq_getElem _ 0 here
  have members :
      ∀ pid,
        pid ∈ main.proc.children.set i (pids.getD i 0) →
          pid = pids.getD i 0 ∨ pid ∈ main.proc.children := by
    intro pid member
    exact (List.mem_or_eq_of_mem_set member).symm
  constructor
  · show (main.proc.children.set i _).length = noWsgiProc
    rw [List.length_set, slots.length]
  · show (main.proc.children.set i (main.kernel.fork _).1).Nodup
    rw [forked.1]
    exact slots.distinct.set apart
  · intro pid member
    change pid ∈ main.proc.children.set i (main.kernel.fork _).1 at member
    rw [forked.1] at member
    rcases members pid member with rfl | before
    · exact positive
    · exact slots.positive pid before
  · intro pid running
    change (main.kernel.fork _).2.Running pid at running
    rw [Children.running_fork positive free] at running
    show pid ∈ main.proc.children.set i (main.kernel.fork _).1
    rw [forked.1]
    rcases running with before | rfl
    · rcases List.getElem_of_mem (slots.named pid before) with ⟨j, bound, same⟩
      have other : i ≠ j := by
        rintro rfl
        rw [held, same] at ended
        exact ended before
      refine List.mem_iff_getElem.mpr ⟨j, ?_, ?_⟩
      · rw [List.length_set]
        exact bound
      · rw [List.getElem_set_ne other]
        exact same
    · exact List.mem_set here _
  · intro pid member
    change pid ∈ main.proc.children.set i (main.kernel.fork _).1 at member
    rw [forked.1] at member
    show pid ∈ main.forks ++ [(main.kernel.fork _).1]
    rw [forked.1]
    rcases members pid member with rfl | before
    · exact List.mem_append_right _ List.mem_cons_self
    · exact List.mem_append_left _ (slots.own pid before)
  · show
      (main.forks ++ [(main.kernel.fork _).1]).length =
        noWsgiProc + (main.proc.restartCount + 1)
    rw [List.length_append, slots.forked]
    rfl
  · exact below

/-- Each slot that holds a running child is one of them after a fork. -/
theorem running_forkChild {i j : Nat}
    (length : main.proc.children.length = noWsgiProc)
    (inside : i < noWsgiProc)
    (unused : Unused noWsgiProc pids i main)
    (held : j ≠ i → main.kernel.Running (main.proc.children.getD j 0)) :
    (forkChild pids main i).kernel.Running
      ((forkChild pids main i).proc.children.getD j 0) := by
  have here : i < main.proc.children.length := length ▸ inside
  rcases unused i (Nat.le_refl i) inside with ⟨positive, -, free⟩
  show
    (main.kernel.fork (pids.getD i 0)).2.Running
      ((main.proc.children.set i
        (main.kernel.fork (pids.getD i 0)).1).getD j 0)
  rw [(Children.fork_of_free positive free).1, getD_set _ here,
    Children.running_fork positive free]
  by_cases same : i = j
  · rw [if_pos same]
    exact .inr rfl
  · rw [if_neg same]
    exact .inl (held (Ne.symm same))

/-- The numbers of the later slots stay out of use. -/
theorem Unused.forkChild (unused : Unused noWsgiProc pids i main)
    (inside : i < noWsgiProc)
    (distinct : pids.Nodup)
    (enough : noWsgiProc ≤ pids.length) :
    Unused noWsgiProc pids (i + 1) (forkChild pids main i) := by
  rcases unused i (Nat.le_refl i) inside with ⟨positive, -, free⟩
  intro k later bound
  rcases unused k (Nat.le_of_succ_le later) bound with ⟨other, apart, unknown⟩
  have differ : pids.getD k 0 ≠ pids.getD i 0 :=
    getD_ne distinct (by omega) (by omega) (by omega)
  refine ⟨other, ?_, ?_⟩
  · intro member
    change pids.getD k 0 ∈ main.proc.children.set i _ at member
    rw [(Children.fork_of_free positive free).1] at member
    rcases List.mem_or_eq_of_mem_set member with before | same
    · exact apart before
    · exact differ same
  · intro has
    change (main.kernel.fork _).2.Has _ at has
    rw [Children.has_fork positive free] at has
    exact has.elim unknown differ

/-! ## The loop over the children -/

/-- What the loop leaves alone. -/
structure Undisturbed (before after : MainProc) : Prop where
  noWsgiProc : after.proc.noWsgiProc = before.proc.noWsgiProc
  term : after.proc.term = before.proc.term
  pkillTimer : after.proc.pkillTimer = before.proc.pkillTimer
  pkillData : after.proc.pkillData = before.proc.pkillData
  broken : after.broken = before.broken
  raised : after.raised = before.raised
  kills : after.kills = before.kills
  sigtermWatcher : after.proc.sigtermWatcher = before.proc.sigtermWatcher
  forks : before.forks <+: after.forks
  phase : after.phase = before.phase ∨ after.phase = .killed

theorem Undisturbed.refl (main : MainProc) : Undisturbed main main :=
  ⟨rfl, rfl, rfl, rfl, rfl, rfl, rfl, rfl, List.prefix_rfl, .inl rfl⟩

theorem Undisturbed.trans {before between after : MainProc}
    (first : Undisturbed before between)
    (second : Undisturbed between after) :
    Undisturbed before after where
  noWsgiProc := second.noWsgiProc.trans first.noWsgiProc
  term := second.term.trans first.term
  pkillTimer := second.pkillTimer.trans first.pkillTimer
  pkillData := second.pkillData.trans first.pkillData
  broken := second.broken.trans first.broken
  raised := second.raised.trans first.raised
  kills := second.kills.trans first.kills
  sigtermWatcher := second.sigtermWatcher.trans first.sigtermWatcher
  forks := first.forks.trans second.forks
  phase := by
    rcases second.phase with same | killed
    · rw [same]
      exact first.phase
    · exact .inr killed

theorem undisturbed_checkChild (pids : List Int) (main : MainProc) (i : Nat) :
    Undisturbed main (checkChild pids main i) := by
  unfold checkChild
  dsimp only
  split
  · exact Undisturbed.refl main
  · split
    · split
      · exact
          ⟨rfl, rfl, rfl, rfl, rfl, rfl, rfl, rfl,
            List.prefix_append _ _, .inl rfl⟩
      · unfold killSelf
        split
        · exact
            ⟨rfl, rfl, rfl, rfl, rfl, rfl, rfl, rfl, List.prefix_rfl, .inl rfl⟩
        · exact
            ⟨rfl, rfl, rfl, rfl, rfl, rfl, rfl, rfl, List.prefix_rfl, .inr rfl⟩
    · exact ⟨rfl, rfl, rfl, rfl, rfl, rfl, rfl, rfl, List.prefix_rfl, .inl rfl⟩

/-- The slots in front of one are checked. -/
structure Checked
    (noWsgiProc : Nat)
    (pids : List Int)
    (i : Nat)
    (main : MainProc) :
    Prop where
  slots : Slots noWsgiProc main
  unused : Unused noWsgiProc pids i main
  unwatched : main.proc.sigtermWatcher = false
  held :
    main.phase ≠ .killed →
      ∀ j < i, main.kernel.Running (main.proc.children.getD j 0)
  exhausted :
    main.phase = .killed → main.proc.restartCount = ymoWsgiProcMaxRestarts

/-- Waiting for a child leaves the slots as they are. -/
theorem Slots.waitpid (slots : Slots noWsgiProc main) (pid : Int) :
    Slots noWsgiProc { main with kernel := (main.kernel.waitpid pid).2 } where
  length := slots.length
  distinct := slots.distinct
  positive := slots.positive
  named other running :=
    slots.named other (Children.running_waitpid.mp running)
  own := slots.own
  forked := slots.forked
  budget := slots.budget

theorem Checked.turn (checked : Checked noWsgiProc pids i main)
    (distinct : pids.Nodup)
    (enough : noWsgiProc ≤ pids.length)
    (inside : i < noWsgiProc) :
    Checked noWsgiProc pids (i + 1) (checkChild pids main i) := by
  have here : i < main.proc.children.length := checked.slots.length ▸ inside
  have positive : 0 < main.proc.children.getD i 0 :=
    checked.slots.positive _ (getD_mem here)
  have later :
      ∀ {other : MainProc},
        other.proc.children = main.proc.children →
          (∀ pid, other.kernel.Has pid → main.kernel.Has pid) →
            Unused noWsgiProc pids (i + 1) other := by
    intro other same has k bound below
    rcases checked.unused k (Nat.le_of_succ_le bound) below
      with ⟨some, apart, free⟩
    exact ⟨some, same ▸ apart, fun used => free (has _ used)⟩
  unfold checkChild
  dsimp only
  split
  · rename_i killed
    exact
      { slots := checked.slots
        unused := later rfl fun _ has => has
        unwatched := checked.unwatched
        held := fun alive => absurd killed alive
        exhausted := checked.exhausted }
  · rename_i alive
    have waited := checked.slots.waitpid (main.proc.children.getD i 0)
    split
    · rename_i ended
      rw [ne_eq, Children.waitpid_eq_zero_iff positive] at ended
      have gone :
          ¬ (main.kernel.waitpid
              (main.proc.children.getD i 0)).2.Running
            (main.proc.children.getD i 0) :=
        fun running => ended (Children.running_waitpid.mp running)
      have free :
          Unused noWsgiProc pids i
            { main with
              kernel := (main.kernel.waitpid (main.proc.children.getD i 0)).2
              proc.restartCount := main.proc.restartCount + 1 } := by
        intro k bound below
        rcases checked.unused k bound below with ⟨some, apart, unknown⟩
        exact ⟨some, apart, fun has => unknown has.of_waitpid⟩
      split
      · rename_i below
        refine
          { slots := waited.forkChild inside free gone below
            unused := free.forkChild inside distinct enough
            unwatched := checked.unwatched
            held := ?_
            exhausted := fun killed => absurd killed alive }
        intro _ j bound
        refine running_forkChild ?_ inside free ?_
        · exact checked.slots.length
        intro other
        exact Children.running_waitpid.mpr (checked.held alive j (by omega))
      · rename_i spent
        have watcher := checked.unwatched
        unfold killSelf
        rw [if_neg (by rw [watcher]; exact Bool.false_ne_true)]
        refine
          { slots := { waited with }
            unused := later rfl fun _ has => has.of_waitpid
            unwatched := checked.unwatched
            held := fun alive => absurd rfl alive
            exhausted := fun _ => ?_ }
        have budget := checked.slots.budget
        show main.proc.restartCount = _
        have bound : ¬ main.proc.restartCount < _ := spent
        omega
    · rename_i nothing
      have running : main.kernel.Running (main.proc.children.getD i 0) := by
        rw [← Children.waitpid_eq_zero_iff positive]
        exact not_not.mp nothing
      refine
        { slots := waited
          unused := later rfl fun _ has => has.of_waitpid
          unwatched := checked.unwatched
          held := ?_
          exhausted := fun killed => absurd killed alive }
      intro _ j bound
      refine Children.running_waitpid.mpr ?_
      rcases Nat.lt_succ_iff_lt_or_eq.mp bound with before | rfl
      · exact checked.held alive j before
      · exact running

/-- The loop, up to a slot. -/
theorem checked_loop (checked : Checked noWsgiProc pids 0 main)
    (distinct : pids.Nodup)
    (enough : noWsgiProc ≤ pids.length)
    (bound : i ≤ noWsgiProc) :
    Checked noWsgiProc pids i
        ((List.range i).foldl (checkChild pids) main) ∧
      Undisturbed main ((List.range i).foldl (checkChild pids) main) := by
  induction i with
  | zero => exact ⟨checked, Undisturbed.refl main⟩
  | succ i ih =>
      rcases ih (Nat.le_of_succ_le bound) with ⟨before, same⟩
      rw [List.range_succ, List.foldl_append]
      exact
        ⟨before.turn distinct enough bound,
          same.trans (undisturbed_checkChild pids _ i)⟩

/-! ## The invariant -/

/-- What is so of the main process in every state. -/
structure Supervising (noWsgiProc : Nat) (main : MainProc) : Prop where
  slots : Slots noWsgiProc main
  count : main.proc.noWsgiProc ≤ noWsgiProc
  all : main.proc.term = false → main.proc.noWsgiProc = noWsgiProc
  watching :
    main.phase = .loop →
      main.proc.sigintWatcher = true ∧
        main.proc.sigchldWatcher = true ∧
          main.proc.sigtermWatcher = true
  /-- An end that was not handled is announced. -/
  held :
    main.phase = .loop →
      main.proc.term = false → main.raised = false → AllRunning main
  exhausted :
    main.phase = .killed → main.proc.restartCount = ymoWsgiProcMaxRestarts
  told :
    main.proc.term = true →
      ∀ pid ∈ main.proc.children, (pid, .sigterm) ∈ main.kills
  kills : ∀ sent ∈ main.kills, sent.2 = .sigterm ∧ sent.1 ∈ main.forks
  data : main.proc.pkillData = false
  stopped :
    main.broken = true →
      main.proc.term = true ∧ (main.fired = true ∨ main.proc.noWsgiProc ≤ 1)
  timer : main.proc.pkillTimer = true → main.proc.term = true
  ending : main.phase = .teardown ∨ main.phase = .exited → main.broken = true
  left : main.phase = .exited → main.kernel.list = []

/-- Before the main process is told to end. -/
theorem Supervising.of_slots
    (slots : Slots noWsgiProc main)
    (count : main.proc.noWsgiProc = noWsgiProc)
    (goes : main.proc.term = false)
    (timer : main.proc.pkillTimer = false)
    (data : main.proc.pkillData = false)
    (broken : main.broken = false)
    (kills : ∀ sent ∈ main.kills, sent.2 = .sigterm ∧ sent.1 ∈ main.forks)
    (phase :
      main.phase = .loop ∧
          main.proc.sigintWatcher = true ∧
            main.proc.sigchldWatcher = true ∧
              main.proc.sigtermWatcher = true ∧ AllRunning main ∨
        main.phase = .killed ∧
          main.proc.restartCount = ymoWsgiProcMaxRestarts) :
    Supervising noWsgiProc main := by
  have notTerm : main.proc.term ≠ true := by
    rw [goes]
    exact Bool.false_ne_true
  have notBroken : main.broken ≠ true := by
    rw [broken]
    exact Bool.false_ne_true
  have stays : main.phase = .loop ∨ main.phase = .killed :=
    phase.imp And.left And.left
  refine
    { slots := slots
      count := Int.le_of_eq count
      all := fun _ => count
      watching := ?_
      held := ?_
      exhausted := ?_
      told := fun term => absurd term notTerm
      kills := kills
      data := data
      stopped := fun stops => absurd stops notBroken
      timer := fun busy => absurd (timer.symm.trans busy) Bool.false_ne_true
      ending := ?_
      left := ?_ }
  · intro loop
    rcases phase with ⟨-, int, chld, term, -⟩ | ⟨killed, -⟩
    · exact ⟨int, chld, term⟩
    · rw [killed] at loop
      cases loop
  · intro loop _ _
    rcases phase with ⟨-, -, -, -, running⟩ | ⟨killed, -⟩
    · exact running
    · rw [killed] at loop
      cases loop
  · intro killed
    rcases phase with ⟨loop, -⟩ | ⟨-, exhausted⟩
    · rw [loop] at killed
      cases killed
    · exact exhausted
  · rintro (teardown | exited)
    · rw [teardown] at stays
      rcases stays with other | other
      · cases other
      · cases other
    · rw [exited] at stays
      rcases stays with other | other
      · cases other
      · cases other
  · intro exited
    rw [exited] at stays
    rcases stays with other | other
    · cases other
    · cases other

/-- Fewer children run, and if none more was announced, the same. -/
theorem Supervising.kernel
    (supervising : Supervising noWsgiProc main)
    {kernel : Children}
    {raised : Bool}
    (fewer : ∀ pid, kernel.Running pid → main.kernel.Running pid)
    (kept :
      raised = false →
        main.raised = false ∧
          ∀ pid, main.kernel.Running pid → kernel.Running pid)
    (empty : main.kernel.list = [] → kernel.list = []) :
    Supervising noWsgiProc
      { main with kernel := kernel, raised := raised } where
  slots :=
    { supervising.slots with
      named := fun pid running =>
        supervising.slots.named pid (fewer pid running) }
  count := supervising.count
  all := supervising.all
  watching := supervising.watching
  held loop goes quiet pid member :=
    (kept quiet).2 pid (supervising.held loop goes (kept quiet).1 pid member)
  exhausted := supervising.exhausted
  told := supervising.told
  kills := supervising.kills
  data := supervising.data
  stopped := supervising.stopped
  timer := supervising.timer
  ending := supervising.ending
  left exited := empty (supervising.left exited)

theorem Supervising.exits (supervising : Supervising noWsgiProc main)
    (pid : Int) :
    Supervising noWsgiProc
      { main with
        kernel := main.kernel.exits pid
        raised := true } := by
  apply supervising.kernel
  · exact fun _ running => (Children.running_exits.mp running).1
  · exact fun quiet => absurd quiet (Ne.symm Bool.false_ne_true)
  · intro none
    show main.kernel.list.map _ = []
    rw [none]
    rfl

theorem Supervising.reap (supervising : Supervising noWsgiProc main)
    (pid : Int) :
    Supervising noWsgiProc { main with kernel := main.kernel.reap pid } := by
  apply supervising.kernel
  · exact fun _ running => Children.running_reap.mp running
  · exact fun quiet =>
      ⟨quiet, fun _ running => Children.running_reap.mpr running⟩
  · intro none
    show main.kernel.list.filter _ = []
    rw [none]
    rfl

/-- A SIGCHLD that comes while the processes shut down. -/
theorem Supervising.countDown (supervising : Supervising noWsgiProc main)
    (loop : main.phase = .loop)
    (term : main.proc.term = true)
    (pids : List Int) :
    Supervising noWsgiProc
      (ymoWsgiProcSigchld pids { main with raised := false }) := by
  have counted :
      ∀ broken,
        (broken = true →
          main.broken = true ∨ main.proc.noWsgiProc - 1 = 1) →
          Supervising noWsgiProc
            { main with
              raised := false
              proc.noWsgiProc := main.proc.noWsgiProc - 1
              broken := broken } := by
    intro broken reason
    have count := supervising.count
    exact
      { slots := { supervising.slots with }
        count := by
          show main.proc.noWsgiProc - 1 ≤ _
          omega
        all := fun goes =>
          absurd (term.symm.trans goes) (Ne.symm Bool.false_ne_true)
        watching := supervising.watching
        held := fun _ goes =>
          absurd (term.symm.trans goes) (Ne.symm Bool.false_ne_true)
        exhausted := supervising.exhausted
        told := supervising.told
        kills := supervising.kills
        data := supervising.data
        stopped := by
          intro stops
          refine ⟨term, ?_⟩
          show _ ∨ main.proc.noWsgiProc - 1 ≤ 1
          rcases reason stops with before | one
          · rcases (supervising.stopped before).2 with fired | few
            · exact .inl fired
            · exact .inr (by omega)
          · exact .inr (by omega)
        timer := supervising.timer
        ending := by
          rintro (teardown | exited)
          · exact absurd (loop.symm.trans teardown) (by decide)
          · exact absurd (loop.symm.trans exited) (by decide)
        left := supervising.left }
  unfold ymoWsgiProcSigchld
  rw [if_pos term]
  dsimp only
  split
  · rename_i one
    exact counted true fun _ => .inr one
  · exact counted main.broken fun stops => .inl stops

/-- The handler of SIGCHLD leaves every worker running, or runs out of restarts. -/
theorem Supervising.replace (supervising : Supervising noWsgiProc main)
    (loop : main.phase = .loop)
    (goes : main.proc.term = false)
    (fresh : Fresh main pids) :
    Supervising noWsgiProc
      (ymoWsgiProcSigchld pids { main with raised := false }) := by
  rcases fresh with ⟨distinct, enough, free⟩
  have count := supervising.all goes
  have length : noWsgiProc ≤ pids.length := by omega
  have initially :
      Checked noWsgiProc pids 0 (watch { main with raised := false } false) :=
    { slots := { supervising.slots with }
      unused := fun k _ bound =>
        free _ (getD_mem (Nat.lt_of_lt_of_le bound length))
      unwatched := rfl
      held := fun _ _ below => absurd below (Nat.not_lt_zero _)
      exhausted := supervising.exhausted }
  rcases checked_loop initially distinct length (Nat.le_refl noWsgiProc)
    with ⟨checked, same⟩
  have turns : main.proc.noWsgiProc.toNat = noWsgiProc := by
    rw [count]
    rfl
  have unbroken : main.broken = false := by
    cases broken : main.broken with
    | false => rfl
    | true =>
        exact
          absurd
            ((supervising.stopped broken).1.symm.trans goes)
            (Ne.symm Bool.false_ne_true)
  have idle : main.proc.pkillTimer = false := by
    cases busy : main.proc.pkillTimer with
    | false => rfl
    | true =>
        exact
          absurd ((supervising.timer busy).symm.trans goes)
            (Ne.symm Bool.false_ne_true)
  unfold ymoWsgiProcSigchld
  rw [if_neg (by rw [goes]; exact Bool.false_ne_true)]
  dsimp only
  rw [turns]
  generalize
    (List.range noWsgiProc).foldl (checkChild pids)
      (watch { main with raised := false } false) = after at checked same
  have kills :
      ∀ sent ∈ after.kills, sent.2 = .sigterm ∧ sent.1 ∈ after.forks := by
    intro sent member
    rw [same.kills] at member
    rcases supervising.kills sent member with ⟨signal, forked⟩
    exact ⟨signal, same.forks.subset forked⟩
  split
  · rename_i killed
    exact
      Supervising.of_slots checked.slots (same.noWsgiProc.trans count)
        (same.term.trans goes) (same.pkillTimer.trans idle)
        (same.pkillData.trans supervising.data)
        (same.broken.trans unbroken) kills
        (.inr ⟨killed, checked.exhausted killed⟩)
  · rename_i alive
    have stays : after.phase = .loop := by
      rcases same.phase with before | killed
      · exact before.trans loop
      · exact absurd killed alive
    have running : AllRunning after := by
      intro pid member
      rcases List.getElem_of_mem member with ⟨j, bound, here⟩
      have held := checked.held alive j (checked.slots.length ▸ bound)
      rw [List.getD_eq_getElem _ 0 bound, here] at held
      exact held
    exact
      Supervising.of_slots { checked.slots with }
        (same.noWsgiProc.trans count)
        (same.term.trans goes) (same.pkillTimer.trans idle)
        (same.pkillData.trans supervising.data)
        (same.broken.trans unbroken) kills
        (.inl ⟨stays, rfl, rfl, rfl, running⟩)

/-! ## Shutting down -/

/-- Telling the workers to end. -/
theorem Supervising.sigShutdown (supervising : Supervising noWsgiProc main)
    (loop : main.phase = .loop) :
    Supervising noWsgiProc (ymoWsgiSigShutdown main) where
  slots := { supervising.slots with }
  count := supervising.count
  all goes := absurd goes (Ne.symm Bool.false_ne_true)
  watching := supervising.watching
  held _ goes := absurd goes (Ne.symm Bool.false_ne_true)
  exhausted := supervising.exhausted
  told := by
    intro _ pid member
    cases term : main.proc.term with
    | true => exact List.mem_append_left _ (supervising.told term pid member)
    | false =>
        -- the first time `no_wsgi_proc` still counts every child
        apply List.mem_append_right
        refine List.mem_map.mpr ⟨pid, ?_, rfl⟩
        show pid ∈ main.proc.children.take main.proc.noWsgiProc.toNat
        rw [supervising.all term, Int.toNat_natCast,
          ← supervising.slots.length, List.take_length]
        exact member
  kills := by
    intro sent member
    rcases List.mem_append.mp member with before | new
    · exact supervising.kills sent before
    · rcases List.mem_map.mp new with ⟨pid, inside, rfl⟩
      exact ⟨rfl, supervising.slots.own pid (List.mem_of_mem_take inside)⟩
  data := supervising.data
  stopped stops := ⟨rfl, (supervising.stopped stops).2⟩
  timer _ := rfl
  ending := by
    rintro (teardown | exited)
    · exact absurd (loop.symm.trans teardown) (by decide)
    · exact absurd (loop.symm.trans exited) (by decide)
  left := supervising.left

/-- The timer ends the loop, and signals nobody: its `data` is not set. -/
theorem Supervising.mainPkill (supervising : Supervising noWsgiProc main)
    (active : main.proc.pkillTimer = true) :
    Supervising noWsgiProc (ymoWsgiMainPkill main) := by
  have term := supervising.timer active
  unfold ymoWsgiMainPkill
  rw [if_neg (by rw [supervising.data]; exact Bool.false_ne_true)]
  exact
    { slots := { supervising.slots with }
      count := supervising.count
      all := supervising.all
      watching := supervising.watching
      held := supervising.held
      exhausted := supervising.exhausted
      told := supervising.told
      kills := supervising.kills
      data := supervising.data
      stopped := fun _ => ⟨term, .inl rfl⟩
      timer := fun _ => term
      ending := fun _ => rfl
      left := supervising.left }

/-- A later phase. -/
theorem Supervising.goesOn (supervising : Supervising noWsgiProc main)
    (broken : main.broken = true)
    {phase : Phase}
    (later : phase = .teardown ∨ phase = .exited)
    (left : phase = .exited → main.kernel.list = []) :
    Supervising noWsgiProc { main with phase := phase } where
  slots := { supervising.slots with }
  count := supervising.count
  all := supervising.all
  watching := by
    rintro rfl
    rcases later with other | other
    · cases other
    · cases other
  held := by
    rintro rfl
    rcases later with other | other
    · cases other
    · cases other
  exhausted := by
    rintro rfl
    rcases later with other | other
    · cases other
    · cases other
  told := supervising.told
  kills := supervising.kills
  data := supervising.data
  stopped := supervising.stopped
  timer := supervising.timer
  ending _ := broken
  left := left

theorem Supervising.teardown (supervising : Supervising noWsgiProc main)
    (teardown : main.phase = .teardown) :
    Supervising noWsgiProc (mainProcTeardown main) := by
  unfold mainProcTeardown
  dsimp only
  split
  · rename_i none
    exact
      supervising.goesOn (supervising.ending (.inl teardown)) (.inr rfl)
        fun _ => Children.waitpid_any_eq_iff.mp none
  · apply supervising.kernel
    · exact fun _ running => Children.running_waitpid.mp running
    · exact fun quiet =>
        ⟨quiet, fun _ running => Children.running_waitpid.mpr running⟩
    · intro none
      rename_i some
      exact absurd (Children.waitpid_any_eq_iff.mpr none) some

/-- Every step keeps the invariant. -/
theorem Supervising.step (supervising : Supervising noWsgiProc main)
    (step : Step)
    (fresh : forksFresh main step) :
    Supervising noWsgiProc (mainStep main step) := by
  unfold mainStep
  cases step with
  | exits pid =>
      dsimp only
      split
      · exact supervising.exits pid
      · exact supervising
  | reaps pid =>
      dsimp only
      split
      · exact supervising.reap pid
      · exact supervising
  | sigchld pids =>
      dsimp only
      split
      · rename_i taken
        cases term : main.proc.term with
        | true => exact supervising.countDown taken.1 term pids
        | false => exact supervising.replace taken.1 term (fresh term)
      · exact supervising
  | sigint =>
      dsimp only
      split
      · rename_i taken
        exact supervising.sigShutdown taken.1
      · exact supervising
  | sigterm =>
      dsimp only
      split
      · rename_i taken
        exact supervising.sigShutdown taken.1
      · exact supervising
  | pkill =>
      dsimp only
      split
      · rename_i taken
        exact supervising.mainPkill taken.2
      · exact supervising
  | returns =>
      dsimp only
      split
      · rename_i taken
        exact
          supervising.goesOn taken.2 (.inl rfl)
            fun other => Phase.noConfusion other
      · exact supervising
  | waits =>
      dsimp only
      split
      · rename_i teardown
        exact supervising.teardown teardown
      · exact supervising

/-! ## The first workers -/

/-- The slots in front of one have their first workers. -/
structure Started
    (noWsgiProc : Nat)
    (pids : List Int)
    (i : Nat)
    (main : MainProc) :
    Prop where
  children :
    main.proc.children = pids.take i ++ List.replicate (noWsgiProc - i) 0
  list :
    main.kernel.list =
      (pids.take i).map fun pid => { pid := pid, running := true }
  forks : main.forks = pids.take i
  restartCount : main.proc.restartCount = 0
  phase : main.phase = .loop
  undisturbed : Undisturbed (create noWsgiProc) main

theorem Started.turn (started : Started noWsgiProc pids i main)
    (distinct : pids.Nodup)
    (positive : ∀ pid ∈ pids, 0 < pid)
    (enough : noWsgiProc ≤ pids.length)
    (inside : i < noWsgiProc) :
    Started noWsgiProc pids (i + 1) (forkChild pids main i) := by
  have bound : i < pids.length := Nat.lt_of_lt_of_le inside enough
  have number : pids.getD i 0 = pids[i] := List.getD_eq_getElem pids 0 bound
  have taken : pids.take (i + 1) = pids.take i ++ [pids[i]] :=
    List.take_succ_eq_append_getElem bound
  have free : ¬ main.kernel.Has (pids.getD i 0) := by
    rw [Children.Has, started.list, List.map_map, number]
    have names :
        (Process.pid ∘
            fun pid : Int => ({ pid := pid, running := true } : Process)) =
          id :=
      rfl
    rw [names, List.map_id]
    intro before
    rw [List.mem_take_iff_getElem] at before
    rcases before with ⟨j, less, same⟩
    have equal := (List.Nodup.getElem_inj_iff distinct).mp same
    omega
  have forked := Children.fork_of_free (positive _ (getD_mem bound)) free
  have length : (pids.take i).length = i := by
    rw [List.length_take]
    omega
  have more : noWsgiProc - i = noWsgiProc - (i + 1) + 1 := by omega
  refine
    { children := ?_
      list := ?_
      forks := ?_
      restartCount := started.restartCount
      phase := started.phase
      undisturbed :=
        started.undisturbed.trans
          ⟨rfl, rfl, rfl, rfl, rfl, rfl, rfl, rfl,
            List.prefix_append _ _, .inl rfl⟩ }
  · show main.proc.children.set i (main.kernel.fork (pids.getD i 0)).1 = _
    rw [forked.1, started.children,
      List.set_append_right _ _ (Nat.le_of_eq length), length,
      Nat.sub_self, more, List.replicate_succ, List.set_cons_zero,
      taken, List.append_assoc, number]
    rfl
  · show (main.kernel.fork (pids.getD i 0)).2.list = _
    rw [forked.2, started.list, taken, List.map_append, number]
    rfl
  · show main.forks ++ [(main.kernel.fork (pids.getD i 0)).1] = _
    rw [forked.1, started.forks, taken, number]

theorem started_loop (distinct : pids.Nodup) (positive : ∀ pid ∈ pids, 0 < pid)
    (enough : noWsgiProc ≤ pids.length)
    (bound : i ≤ noWsgiProc) :
    Started noWsgiProc pids i
      ((List.range i).foldl (forkChild pids) (create noWsgiProc)) := by
  induction i with
  | zero =>
      exact
        { children := rfl
          list := rfl
          forks := rfl
          restartCount := rfl
          phase := rfl
          undisturbed := Undisturbed.refl _ }
  | succ i ih =>
      rw [List.range_succ, List.foldl_append]
      exact (ih (Nat.le_of_succ_le bound)).turn distinct positive enough bound

/-- The event loop starts with every worker running. -/
theorem supervising_start (fresh : Fresh (create noWsgiProc) pids) :
    Supervising noWsgiProc (start noWsgiProc pids) := by
  rcases fresh with ⟨distinct, enough, free⟩
  have enough : noWsgiProc ≤ pids.length := Int.ofNat_le.mp enough
  have started :=
    started_loop distinct (fun pid inside => (free pid inside).1) enough
      (Nat.le_refl noWsgiProc)
  unfold start
  generalize
    (List.range noWsgiProc).foldl (forkChild pids) (create noWsgiProc) =
      main at started
  have children : main.proc.children = pids.take noWsgiProc := by
    rw [started.children, Nat.sub_self, List.replicate_zero, List.append_nil]
  have running :
      ∀ pid, main.kernel.Running pid ↔ pid ∈ main.proc.children := by
    intro pid
    rw [Children.Running, started.list, children, List.mem_map]
    constructor
    · rintro ⟨other, member, same⟩
      rw [show pid = other from (congrArg Process.pid same).symm]
      exact member
    · intro member
      exact ⟨pid, member, rfl⟩
  have same := started.undisturbed
  apply Supervising.of_slots
  · exact
      { length := by
          show main.proc.children.length = noWsgiProc
          rw [children, List.length_take]
          omega
        distinct := by
          show main.proc.children.Nodup
          rw [children]
          exact distinct.sublist (List.take_sublist _ _)
        positive := by
          intro pid member
          change pid ∈ main.proc.children at member
          rw [children] at member
          exact (free pid (List.mem_of_mem_take member)).1
        named := fun pid => (running pid).mp
        own := by
          intro pid member
          change pid ∈ main.proc.children at member
          rw [children, ← started.forks] at member
          exact member
        forked := by
          show main.forks.length = noWsgiProc + main.proc.restartCount
          rw [started.forks, started.restartCount, List.length_take]
          omega
        budget := by
          show main.proc.restartCount ≤ _
          rw [started.restartCount]
          exact Nat.zero_le _ }
  · exact same.noWsgiProc
  · exact same.term
  · exact same.pkillTimer
  · exact same.pkillData
  · exact same.broken
  · intro sent member
    change sent ∈ main.kills at member
    rw [same.kills] at member
    cases member
  · exact .inl ⟨started.phase, rfl, rfl, rfl, fun pid => (running pid).mpr⟩

/-! ## Every run -/

theorem supervising_run {steps : List Step}
    (fresh : Fresh (create noWsgiProc) pids)
    (along : AllAlong mainStep forksFresh (start noWsgiProc pids) steps) :
    Supervising noWsgiProc (run mainStep (start noWsgiProc pids) steps) :=
  invariant_run (Supervising noWsgiProc)
    (fun _ step supervising fresh => supervising.step step fresh)
    (supervising_start fresh) along

/--
As long as the main process is in its event loop and was not told to end, each
worker runs, unless a SIGCHLD is still to be handled; nobody else does.  No more
than `YMO_WSGI_PROC_MAX_RESTARTS` workers are ever replaced, and the main process is
ended by its own signal only when that many were.
-/
theorem workers_supervised (noWsgiProc : Nat) (pids : List Int)
    (steps : List Step)
    (fresh : Fresh (create noWsgiProc) pids)
    (along : AllAlong mainStep forksFresh (start noWsgiProc pids) steps) :
    let main := run mainStep (start noWsgiProc pids) steps
    (main.phase = .loop →
        main.proc.term = false →
          main.raised = false →
            main.proc.children.length = noWsgiProc ∧
              main.proc.children.Nodup ∧
                ∀ pid,
                  main.kernel.Running pid ↔ pid ∈ main.proc.children) ∧
      main.forks.length = noWsgiProc + main.proc.restartCount ∧
        main.proc.restartCount ≤ ymoWsgiProcMaxRestarts ∧
          (main.phase = .killed →
            main.proc.restartCount = ymoWsgiProcMaxRestarts) := by
  have supervising := supervising_run fresh along
  refine
    ⟨fun loop goes quiet => ?_, supervising.slots.forked,
      supervising.slots.budget, supervising.exhausted⟩
  have running := supervising.held loop goes quiet
  exact
    ⟨supervising.slots.length, supervising.slots.distinct,
      fun pid => ⟨supervising.slots.named pid, running pid⟩⟩

/-- One of two workers ends and is replaced. -/
def replaced : List Step :=
  [.exits 11, .reaps 11, .sigchld [21, 22]]

theorem workers_supervised_replaced :
    let main := run mainStep (start 2 [11, 12]) replaced
    (main.phase = .loop →
        main.proc.term = false →
          main.raised = false →
            main.proc.children.length = 2 ∧
              main.proc.children.Nodup ∧
                ∀ pid,
                  main.kernel.Running pid ↔ pid ∈ main.proc.children) ∧
      main.forks.length = 2 + main.proc.restartCount ∧
        main.proc.restartCount ≤ ymoWsgiProcMaxRestarts ∧
          (main.phase = .killed →
            main.proc.restartCount = ymoWsgiProcMaxRestarts) :=
  workers_supervised 2 [11, 12] replaced (by decide) (by decide)

/-- Of three workers that end, two are replaced. -/
example :
    (run mainStep (start 2 [11, 12])
      [.exits 11, .sigchld [21, 22], .exits 12, .sigchld [31, 32],
        .exits 21, .sigchld [41, 42]]).phase =
      .killed := by
  decide

/-- Once told to end, the main process forks no more. -/
theorem forks_of_term (term : main.proc.term = true) (step : Step) :
    (mainStep main step).forks = main.forks ∧
      (mainStep main step).proc.term = true := by
  unfold mainStep
  cases step with
  | sigchld pids =>
      dsimp only
      split
      · unfold ymoWsgiProcSigchld
        rw [if_pos term]
        dsimp only
        split
        · exact ⟨rfl, term⟩
        · exact ⟨rfl, term⟩
      · exact ⟨rfl, term⟩
  | sigint =>
      dsimp only
      split
      · exact ⟨rfl, rfl⟩
      · exact ⟨rfl, term⟩
  | sigterm =>
      dsimp only
      split
      · exact ⟨rfl, rfl⟩
      · exact ⟨rfl, term⟩
  | pkill =>
      dsimp only
      split
      · unfold ymoWsgiMainPkill
        split
        · exact ⟨rfl, term⟩
        · exact ⟨rfl, term⟩
      · exact ⟨rfl, term⟩
  | waits =>
      dsimp only
      split
      · unfold mainProcTeardown
        dsimp only
        split
        · exact ⟨rfl, term⟩
        · exact ⟨rfl, term⟩
      · exact ⟨rfl, term⟩
  | _ =>
      dsimp only
      split
      · exact ⟨rfl, term⟩
      · exact ⟨rfl, term⟩

theorem forks_run_of_term {main : MainProc} (term : main.proc.term = true)
    (steps : List Step) :
    (run mainStep main steps).forks = main.forks ∧
      (run mainStep main steps).proc.term = true := by
  apply
    invariant_run_always
      (fun later : MainProc =>
        later.forks = main.forks ∧ later.proc.term = true)
  · rintro later step ⟨same, still⟩
    have next := forks_of_term still step
    exact ⟨next.1.trans same, next.2⟩
  · exact ⟨rfl, term⟩

/--
Once the main process was told to end, every worker that still runs was sent
SIGTERM, and no other is forked.  It never sends anything else, to nobody but its
children; it leaves its event loop only when the timer fired or one worker was left
to end, and it exits with no child left.
-/
theorem workers_shutDown
    (noWsgiProc : Nat)
    (pids : List Int)
    (front back : List Step)
    (fresh : Fresh (create noWsgiProc) pids)
    (along :
      AllAlong mainStep forksFresh (start noWsgiProc pids) (front ++ back)) :
    let main := run mainStep (start noWsgiProc pids) front
    let later := run mainStep (start noWsgiProc pids) (front ++ back)
    (main.proc.term = true →
        later.forks = main.forks ∧
          ∀ pid, later.kernel.Running pid →
            (pid, Signal.sigterm) ∈ later.kills) ∧
      (∀ sent ∈ later.kills,
          sent.2 = .sigterm ∧ sent.1 ∈ later.forks) ∧
        (later.phase = .teardown ∨ later.phase = .exited →
          later.proc.term = true ∧
            (later.fired = true ∨ later.proc.noWsgiProc ≤ 1)) ∧
          (later.phase = .exited → later.kernel.list = []) := by
  have supervising := supervising_run fresh along
  refine
    ⟨fun term => ?_, supervising.kills, fun ending => ?_, supervising.left⟩
  · have kept :=
      @forks_run_of_term (run mainStep (start noWsgiProc pids) front) term back
    rw [← run_append] at kept
    exact
      ⟨kept.1, fun pid running =>
        supervising.told kept.2 pid (supervising.slots.named pid running)⟩
  · exact supervising.stopped (supervising.ending ending)

/-- After that, the main process is told to end. -/
def toldToEnd : List Step :=
  replaced ++ [.sigterm]

/-- The workers end, one of them only after the event loop. -/
def shutDown : List Step :=
  [.exits 12, .sigchld [], .returns, .waits, .exits 21, .waits, .waits]

theorem workers_shutDown_replaced :
    let main := run mainStep (start 2 [11, 12]) toldToEnd
    let later := run mainStep (start 2 [11, 12]) (toldToEnd ++ shutDown)
    (main.proc.term = true →
        later.forks = main.forks ∧
          ∀ pid, later.kernel.Running pid →
            (pid, Signal.sigterm) ∈ later.kills) ∧
      (∀ sent ∈ later.kills,
          sent.2 = .sigterm ∧ sent.1 ∈ later.forks) ∧
        (later.phase = .teardown ∨ later.phase = .exited →
          later.proc.term = true ∧
            (later.fired = true ∨ later.proc.noWsgiProc ≤ 1)) ∧
          (later.phase = .exited → later.kernel.list = []) :=
  workers_shutDown 2 [11, 12] toldToEnd shutDown (by decide) (by decide)

end Yimmo.Wsgi.Supervisor
