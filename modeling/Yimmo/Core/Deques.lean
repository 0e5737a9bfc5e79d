import Yimmo.Core.Queues

/-!
# Deques

A queue is meant to be a deque.  This module runs any sequence of operations on a
created queue and on a list, and `queue_refines_deque` says that the queue has the
answers of the list and holds its items.

A queue is also to be appended to another one, which takes its items over and
leaves it empty.  That is never what `ymo_queue_append_queue` does: it needs a tail
to hang the nodes on, it takes over the tail of an empty queue as well, and the
queue it empties keeps the tail it had.
-/

namespace Yimmo.Core.Deques

open Yimmo.Lib.LinkedList
open Yimmo.Lib.DoublyLinked
open Yimmo.Core.Queues

variable {Item : Type}

/-! ## Created queues -/

/-- A queue is created plain, or with a pool. -/
inductive Creation where
  | plain
  | pool (count : Nat) (atLeastTwo : 2 ≤ count)

/-- The number of nodes in the pool. -/
def Creation.count : Creation → Nat
  | .plain => 0
  | .pool count _ => count

/-- Nothing was allocated. -/
def initial (null : Item) : World Item where
  queues := fun _ => World.emptyQueue
  nodes := fun _ => ⟨none, none, none, null⟩
  live := []
  fresh := 0

/-- The world in which the queue was created. -/
def Creation.world (null : Item) (queue : QueueRef) :
    Creation → World Item
  | .plain => (initial null).ymoQueueCreate queue
  | .pool count _ => (initial null).ymoQueueCreatePool queue count

section

variable (null : Item) (queue : QueueRef)

/-- The field of the nodes of a new pool. -/
theorem nodes_poolInit (world : World Item) {count index : Nat}
    (below : index < count) :
    (world.ymoQueuePoolInit queue count).nodes (.pool queue index) =
      { world.nodes (.pool queue index) with
        queue := some queue
        next :=
          if index = count - 1 then none
          else some (.pool queue (index + 1))
        prev := if index = 0 then none else some (.pool queue (index - 1)) } :=
  if_pos ⟨rfl, below⟩

/-- The nodes of a new pool are linked in their order. -/
theorem linked_poolInit (world : World Item) (count : Nat) :
    ∀ later start,
      start + later = count →
        Linked (world.ymoQueuePoolInit queue count).next
          (if start = count then none else some (.pool queue start))
          ((List.range' start later).map (NodeRef.pool queue)) := by
  intro later
  induction later with
  | zero =>
      intro start reached
      rw [if_pos (show start = count from reached)]
      exact .nil
  | succ later ih =>
      intro start reached
      rw [if_neg (by omega)]
      apply Linked.cons
      have goesOn := ih (start + 1) (by omega)
      have link :
          (world.ymoQueuePoolInit queue count).next (.pool queue start) =
            if start + 1 = count then none
            else some (.pool queue (start + 1)) := by
        rw [World.next, nodes_poolInit queue world (by omega)]
        exact if_congr (by omega) rfl rfl
      rw [link]
      exact goesOn

/-- A queue without nodes whose pool is on the stack holds nothing. -/
theorem holds_nil {world : World Item} {count : Nat} (free : List NodeRef)
    (head : (world.queues queue).head = none)
    (tail : (world.queues queue).tail = none)
    (noItems : (world.queues queue).noItems = 0)
    (linked : Linked world.next (world.queues queue).pstack free)
    (pool : ∀ node, node ∈ free ↔ InPool queue count node)
    (owned : ∀ node, InPool queue count node → world.owner node = some queue)
    (live : world.live = []) :
    Holds world queue count [] := by
  refine
    ⟨[], free, ⟨chained_nil, head, tail, noItems⟩,
      ⟨linked, ?_, ?_, ?_, owned, ?_, ?_, ?_⟩, rfl⟩
  · intro node member
    exact (pool node).mp member
  · intro node member
    nomatch member
  · intro node inPool
    exact Or.inr ((pool node).mpr inPool)
  · intro node member
    nomatch member
  · intro id member
    rw [live] at member
    nomatch member
  · rw [live]
    exact List.nodup_nil

/-- A created queue holds nothing. -/
theorem holds_created (creation : Creation) :
    Holds (creation.world null queue) queue creation.count [] := by
  cases creation with
  | plain =>
      have fields :
          ((initial null).ymoQueueCreate queue).queues queue =
            World.emptyQueue :=
        World.queues_setQueue ..
      refine
        holds_nil queue [] (congrArg Queue.head fields)
          (congrArg Queue.tail fields) (congrArg Queue.noItems fields)
          ?_ ?_ ?_ rfl
      · rw [Creation.world, fields]
        exact .nil
      · intro node
        constructor
        · intro member
          nomatch member
        · rintro ⟨index, below, _⟩
          exact absurd below (Nat.not_lt_zero index)
      · rintro node ⟨index, below, _⟩
        exact absurd below (Nat.not_lt_zero index)
  | pool count atLeastTwo =>
      let created := (initial null).ymoQueueCreate queue
      have fields :
          (created.ymoQueuePoolInit queue count).queues queue =
            { World.emptyQueue with pstack := some (.pool queue 0) } := by
        rw [World.ymoQueuePoolInit, World.queues_setQueue]
        exact
          congrArg
            (fun before : Queue =>
              { before with pstack := some (NodeRef.pool queue 0) })
            (World.queues_setQueue ..)
      have linked :=
        linked_poolInit queue created count count 0 (Nat.zero_add count)
      rw [if_neg (by omega)] at linked
      refine
        holds_nil queue ((List.range' 0 count).map (NodeRef.pool queue))
          (congrArg Queue.head fields) (congrArg Queue.tail fields)
          (congrArg Queue.noItems fields) ?_ ?_ ?_ rfl
      · rw [Creation.world, World.ymoQueueCreatePool, fields]
        exact linked
      · intro node
        constructor
        · intro member
          rcases List.mem_map.mp member with ⟨index, inRange, rfl⟩
          rw [List.mem_range'_1, Nat.zero_add] at inRange
          exact ⟨index, inRange.2, rfl⟩
        · rintro ⟨index, below, rfl⟩
          apply List.mem_map_of_mem
          rw [List.mem_range'_1, Nat.zero_add]
          exact ⟨Nat.zero_le index, below⟩
      · rintro node ⟨index, below, rfl⟩
        exact congrArg QueueNode.queue (nodes_poolInit queue created below)

end

/-! ## Runs -/

/-- An operation; a member is removed by its place in the queue. -/
inductive QueueOp (Item : Type) where
  | append (item : Item)
  | prepend (item : Item)
  | popfront
  | popback
  | remove (index : Nat)

/-- What an operation returns. -/
inductive Answer (Item : Type) where
  | status (status : Status)
  | item (item : Item)

/-- The node that is reached from another one by following `next`. -/
def nodeAt (next : NodeRef → Option NodeRef) :
    Option NodeRef → Nat → Option NodeRef
  | none, _ => none
  | some node, 0 => some node
  | some node, index + 1 => nodeAt next (next node) index

/-- The operation on the queue. -/
def queueStep (null : Item) (queue : QueueRef) (world : World Item) :
    QueueOp Item → Answer Item × World Item
  | .append item => (.status .okay, world.ymoQueueAppend queue item)
  | .prepend item => (.status .okay, world.ymoQueuePrepend queue item)
  | .popfront => (world.ymoQueuePopfront null queue).map .item id
  | .popback => (world.ymoQueuePopback null queue).map .item id
  | .remove index =>
      let node := nodeAt world.next (world.queues queue).head index
      (world.ymoQueueRemove queue node).map .status id

/-- The operation on a deque. -/
def dequeStep (null : Item) (items : List Item) :
    QueueOp Item → Answer Item × List Item
  | .append item => (.status .okay, items ++ [item])
  | .prepend item => (.status .okay, item :: items)
  | .popfront => (.item (items.head?.getD null), items.tail)
  | .popback => (.item (items.getLast?.getD null), items.dropLast)
  | .remove index =>
      (.status (if index < items.length then .okay else .einval),
        items.eraseIdx index)

/-- The answers of the operations, and the state after them. -/
def answers {State : Type}
    (step : State → QueueOp Item → Answer Item × State) :
    State → List (QueueOp Item) → List (Answer Item) × State
  | state, [] => ([], state)
  | state, op :: ops =>
      let result := step state op
      let rest := answers step result.2 ops
      (result.1 :: rest.1, rest.2)

/-- The members are reached from the head. -/
theorem nodeAt_linked {next : NodeRef → Option NodeRef} {head : Option NodeRef}
    {nodes : List NodeRef}
    (linked : Linked next head nodes) :
    ∀ index, nodeAt next head index = nodes[index]? := by
  induction linked with
  | nil =>
      intro index
      cases index <;> rfl
  | @cons node rest tail ih =>
      intro index
      cases index with
      | zero => rfl
      | succ index => exact ih index

section

variable
  {world : World Item}
  {queue : QueueRef}
  {count : Nat}
  {items : List Item}

/-- One operation has the answer of the deque, and the queue holds what the
deque does. -/
theorem holds_step (null : Item) (holds : Holds world queue count items)
    (op : QueueOp Item) :
    (queueStep null queue world op).1 = (dequeStep null items op).1 ∧
      Holds (queueStep null queue world op).2 queue count
        (dequeStep null items op).2 := by
  cases op with
  | append item => exact ⟨rfl, holds_append holds item⟩
  | prepend item => exact ⟨rfl, holds_prepend holds item⟩
  | popfront =>
      have popped := holds_popfront null holds
      exact ⟨congrArg Answer.item popped.1, popped.2⟩
  | popback =>
      have popped := holds_popback null holds
      exact ⟨congrArg Answer.item popped.1, popped.2⟩
  | remove index =>
      rcases holds with ⟨nodes, free, queued, pooled, rfl⟩
      have linked := queued.chained.forward
      rw [← queued.head] at linked
      rw [queueStep, dequeStep, nodeAt_linked linked index, List.length_map]
      by_cases member : index < nodes.length
      · have split :
            nodes =
              nodes.take index ++ nodes[index] :: nodes.drop (index + 1) := by
          rw [List.getElem_cons_drop, List.take_append_drop]
        have removed := holds_remove (split ▸ queued) (split ▸ pooled)
        rw [List.getElem?_eq_getElem member, if_pos member]
        refine ⟨congrArg Answer.status removed.1, ?_⟩
        have result := removed.2
        rw [List.map_take, List.map_drop,
          ← List.eraseIdx_eq_take_drop_succ] at result
        exact result
      · have outside := Nat.le_of_not_lt member
        rw [List.getElem?_eq_none outside, if_neg member,
          List.eraseIdx_of_length_le (by rw [List.length_map]; exact outside)]
        exact ⟨rfl, nodes, free, queued, pooled, rfl⟩

/-- All operations have the answers of the deque. -/
theorem holds_answers (null : Item) (holds : Holds world queue count items)
    (ops : List (QueueOp Item)) :
    (answers (queueStep null queue) world ops).1 =
        (answers (dequeStep null) items ops).1 ∧
      Holds (answers (queueStep null queue) world ops).2 queue count
        (answers (dequeStep null) items ops).2 := by
  induction ops generalizing world items with
  | nil => exact ⟨rfl, holds⟩
  | cons op ops ih =>
      have stepped := holds_step null holds op
      have rest := ih stepped.2
      refine ⟨?_, rest.2⟩
      rw [answers, answers, stepped.1, rest.1]

end

/-- A queue is a deque: whatever the operations are, they have its answers, the
nodes from the head hold its items, those from the tail are the same ones from
behind, and each node of the pool is either in the queue or free. -/
theorem queue_refines_deque (null : Item) (queue : QueueRef)
    (creation : Creation)
    (ops : List (QueueOp Item)) :
    let run := answers (queueStep null queue) (creation.world null queue) ops
    let deque := answers (dequeStep null) [] ops
    let state := run.2.queues queue
    run.1 = deque.1 ∧
      ∃ nodes free,
        Linked run.2.next state.head nodes ∧
          Linked run.2.prev state.tail nodes.reverse ∧
            nodes.map run.2.data = deque.2 ∧
              state.noItems = deque.2.length ∧
                Linked run.2.next state.pstack free ∧
                  ∀ node, InPool queue creation.count node →
                    (node ∈ nodes ↔ node ∉ free) := by
  have ran := holds_answers null (holds_created null queue creation) ops
  rcases ran with ⟨same, nodes, free, queued, pooled, contents⟩
  refine ⟨same, nodes, free, ?_, ?_, contents, ?_, pooled.freeLinked, ?_⟩
  · rw [queued.head]
    exact queued.chained.forward
  · rw [queued.tail]
    exact queued.chained.backward
  · rw [queued.noItems, ← contents, List.length_map]
  · intro node inPool
    constructor
    · exact pooled.apart node
    · intro notFree
      exact (pooled.kept node inPool).resolve_right notFree

/-! ## Appending a queue -/

/-- The queue represents these items. -/
def Represents (world : World Item) (queue : QueueRef)
    (items : List Item) : Prop :=
  ∃ nodes, Queued world queue nodes ∧ nodes.map world.data = items

/-- The items of `src` are appended to those of `dst`, and `src` is cleared. -/
def Concatenates (world : World Item) (dst src : QueueRef)
    (items others : List Item) : Prop :=
  ∃ later,
    world.ymoQueueAppendQueue dst src = some later ∧
      Represents later dst (items ++ others) ∧ Represents later src []

section

variable
  {world later : World Item}
  {queue dst src : QueueRef}
  {items others : List Item}

/-- A queue that represents items has both ends, or is empty. -/
theorem Represents.ends (represents : Represents world queue items) :
    ((world.queues queue).head = none ↔ items = []) ∧
      ((world.queues queue).tail = none ↔ items = []) := by
  rcases represents with ⟨nodes, queued, rfl⟩
  rw [queued.head, queued.tail, List.head?_eq_none_iff,
    List.getLast?_eq_none_iff, List.map_eq_nil_iff]
  exact ⟨Iff.rfl, Iff.rfl⟩

/-- There is a tail to hang the nodes on. -/
theorem tail_of_appendQueue
    (appended : world.ymoQueueAppendQueue dst src = some later) :
    (world.queues dst).tail ≠ none := by
  intro tail
  rw [World.ymoQueueAppendQueue, tail] at appended
  nomatch appended

/-- Another queue is left as it is. -/
theorem queues_setQueue_other (world : World Item) (changed : Queue)
    {other : QueueRef}
    (different : other ≠ queue) :
    (world.setQueue queue changed).queues other = world.queues other :=
  Function.update_of_ne different ..

/-- Both queues have the tail of `src`. -/
theorem tails_of_appendQueue (distinct : dst ≠ src)
    (appended : world.ymoQueueAppendQueue dst src = some later) :
    (later.queues dst).tail = (world.queues src).tail ∧
      (later.queues src).tail = (world.queues src).tail := by
  rw [World.ymoQueueAppendQueue] at appended
  cases tail : (world.queues dst).tail with
  | none =>
      rw [tail] at appended
      nomatch appended
  | some node =>
      rw [tail] at appended
      rw [← Option.some.inj appended]
      constructor
      · rw [queues_setQueue_other _ _ distinct, World.queues_setQueue,
          World.queues_setNext]
      · rw [World.queues_setQueue, queues_setQueue_other _ _ distinct.symm,
          World.queues_setNext]

end

/-- No queue is appended to another one: one of them has the wrong tail, or NULL
was followed. -/
theorem append_queue_never {world : World Item} {dst src : QueueRef}
    {items others : List Item}
    (distinct : dst ≠ src)
    (first : Represents world dst items)
    (second : Represents world src others) :
    ¬Concatenates world dst src items others := by
  rintro ⟨later, appended, joined, cleared⟩
  have tails := tails_of_appendQueue distinct appended
  have noOthers : others = [] := by
    rw [← second.ends.2, ← tails.2, cleared.ends.2]
  have noItems : items = [] := by
    subst noOthers
    rw [← List.append_nil items, ← joined.ends.2, tails.1, second.ends.2]
  exact tail_of_appendQueue appended (first.ends.2.mpr noItems)

/-- A queue of one item, and an empty one. -/
theorem one_and_none :
    let world := ((initial 0).ymoQueueCreate 0).ymoQueueAppend 0 7
    Represents world 0 [7] ∧ Represents world 1 [] := by
  constructor
  · rcases holds_append (holds_created 0 0 .plain) 7
      with ⟨nodes, free, queued, _, contents⟩
    exact ⟨nodes, queued, contents⟩
  · exact ⟨[], ⟨chained_nil, rfl, rfl, rfl⟩, rfl⟩

theorem one_and_none_never :
    ¬Concatenates (((initial 0).ymoQueueCreate 0).ymoQueueAppend 0 7) 0 1
      [7] [] :=
  append_queue_never (by decide) one_and_none.1 one_and_none.2

/-- Appending an empty queue loses the tail of the other one. -/
theorem tail_lost :
    let world := ((initial 0).ymoQueueCreate 0).ymoQueueAppend 0 7
    (0 : QueueRef) ≠ 1 ∧ Represents world 0 [7] ∧ Represents world 1 [] ∧
      ¬Concatenates world 0 1 [7] [] := by
  refine ⟨by decide, one_and_none.1, one_and_none.2, ?_⟩
  rintro ⟨later, appended, joined, _⟩
  have lost : (later.queues 0).tail = none :=
    (tails_of_appendQueue (by decide) appended).1
  nomatch joined.ends.2.mp lost

end Yimmo.Core.Deques
