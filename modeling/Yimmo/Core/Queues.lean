import Yimmo.Lib.DoublyLinked

/-!
# Queues

This module models `ymo_queue.c`: doubly linked queues whose nodes come from a
pool, as long as it has free ones, and from the heap after that.  A node of a
pool knows the queue it belongs to and returns to that queue's stack of free
nodes, which is linked by the same field as the queue.

The world holds the nodes and the queues; `YMO_NEW` yields a node that was never
used before.  `Holds` says that a queue represents a list of items: its nodes are
chained in both directions, and the nodes of its pool are in it or free.  Each
operation keeps the representation, and its result is read from the list.
-/

namespace Yimmo.Core.Queues

open Yimmo.Lib.LinkedList
open Yimmo.Lib.DoublyLinked

/-- A queue, by the number of its allocation. -/
abbrev QueueRef : Type :=
  Nat

/-- A node: one of the pool of a queue, or one from the heap. -/
inductive NodeRef where
  | pool (queue : QueueRef) (index : Nat)
  | heap (id : Nat)
deriving DecidableEq

/-- `ymo_queue_node_t`. -/
structure QueueNode (Item : Type) where
  /-- The queue whose pool the node is in. -/
  queue : Option QueueRef
  next : Option NodeRef
  prev : Option NodeRef
  data : Item

/-- `ymo_queue_t`, without `pool`, which is only freed. -/
structure Queue where
  head : Option NodeRef
  tail : Option NodeRef
  noItems : Nat
  pstack : Option NodeRef

/-- The queues and their nodes. -/
structure World (Item : Type) where
  queues : QueueRef → Queue
  nodes : NodeRef → QueueNode Item
  /-- The nodes from the heap that were not given back. -/
  live : List Nat
  /-- The next node from the heap. -/
  fresh : Nat

/-- The status of an operation; the heap has nodes. -/
inductive Status where
  | okay
  | einval
deriving DecidableEq

variable {Item : Type}

namespace World

/-- The links by a field of the nodes. -/
def next (world : World Item) (node : NodeRef) : Option NodeRef :=
  (world.nodes node).next

def prev (world : World Item) (node : NodeRef) : Option NodeRef :=
  (world.nodes node).prev

def data (world : World Item) (node : NodeRef) : Item :=
  (world.nodes node).data

/-- The world after a queue was changed. -/
def setQueue (world : World Item) (queue : QueueRef) (changed : Queue) :
    World Item :=
  { world with queues := Function.update world.queues queue changed }

/-- The world after a node was changed. -/
def setNode (world : World Item) (node : NodeRef) (changed : QueueNode Item) :
    World Item :=
  { world with nodes := Function.update world.nodes node changed }

/-- `node->next = target`, if there is a node. -/
def setNext (world : World Item) :
    Option NodeRef → Option NodeRef → World Item
  | some node, target =>
      world.setNode node { world.nodes node with next := target }
  | none, _ => world

/-- `node->prev = target`, if there is a node. -/
def setPrev (world : World Item) :
    Option NodeRef → Option NodeRef → World Item
  | some node, target =>
      world.setNode node { world.nodes node with prev := target }
  | none, _ => world

/-! ## Nodes -/

/-- `delete_node`. -/
def deleteNode (world : World Item) (node : NodeRef) : World Item :=
  match (world.nodes node).queue with
  | some owner =>
      let linked :=
        world.setNode node
          { world.nodes node with
            prev := none
            next := (world.queues owner).pstack }
      linked.setQueue owner { linked.queues owner with pstack := some node }
  | none =>
      match node with
      | .heap id => { world with live := world.live.erase id }
      | .pool _ _ => world

/-- `create_node`; the heap has a node. -/
def createNode (world : World Item) (queue : QueueRef) :
    NodeRef × World Item :=
  match (world.queues queue).pstack with
  | none =>
      let node := NodeRef.heap world.fresh
      (node,
        { world.setNode node { world.nodes node with queue := none } with
          live := world.fresh :: world.live
          fresh := world.fresh + 1 })
  | some node =>
      let popped :=
        world.setQueue queue
          { world.queues queue with pstack := world.next node }
      (node,
        popped.setNode node
          { popped.nodes node with next := none, prev := none })

/-! ## Creation -/

/-- The queue of `YMO_NEW0`. -/
def emptyQueue : Queue where
  head := none
  tail := none
  noItems := 0
  pstack := none

/-- `ymo_queue_create`. -/
def ymoQueueCreate (world : World Item) (queue : QueueRef) : World Item :=
  world.setQueue queue emptyQueue

/-- `ymo_queue_pool_init`: the links of a pool of `count` nodes. -/
def ymoQueuePoolInit (world : World Item) (queue : QueueRef) (count : Nat) :
    World Item :=
  let last := count - 1
  let linked : World Item :=
    { world with
      nodes := fun node =>
        match node with
        | .pool owner index =>
            if owner = queue ∧ index < count then
              { world.nodes node with
                queue := some queue
                next :=
                  if index = last then none
                  else some (.pool queue (index + 1))
                prev :=
                  if index = 0 then none
                  else some (.pool queue (index - 1)) }
            else world.nodes node
        | .heap _ => world.nodes node }
  linked.setQueue queue
    { linked.queues queue with pstack := some (.pool queue 0) }

/-- `ymo_queue_create_pool`. -/
def ymoQueueCreatePool (world : World Item) (queue : QueueRef) (count : Nat) :
    World Item :=
  (world.ymoQueueCreate queue).ymoQueuePoolInit queue count

/-! ## Operations -/

/-- `ymo_queue_append`. -/
def ymoQueueAppend (world : World Item) (queue : QueueRef) (item : Item) :
    World Item :=
  let created := world.createNode queue
  let node := created.1
  let world := created.2
  let tail := (world.queues queue).tail
  let filled :=
    world.setNode node
      { world.nodes node with data := item, next := none, prev := tail }
  let linked := filled.setNext tail (some node)
  linked.setQueue queue
    { linked.queues queue with
      head := if tail.isSome then (linked.queues queue).head else some node
      tail := some node
      noItems := (linked.queues queue).noItems + 1 }

/-- `ymo_queue_append_queue`; without a tail of `dst`, NULL is followed. -/
def ymoQueueAppendQueue (world : World Item) (dst src : QueueRef) :
    Option (World Item) :=
  match (world.queues dst).tail with
  | none => none
  | some tail =>
      let linked := world.setNext (some tail) (world.queues src).head
      let spliced :=
        linked.setQueue dst
          { linked.queues dst with
            tail := (linked.queues src).tail
            noItems :=
              (linked.queues dst).noItems + (linked.queues src).noItems }
      some
        (spliced.setQueue src
          { spliced.queues src with head := none, noItems := 0 })

/-- `ymo_queue_prepend`. -/
def ymoQueuePrepend (world : World Item) (queue : QueueRef) (item : Item) :
    World Item :=
  let created := world.createNode queue
  let node := created.1
  let world := created.2
  let head := (world.queues queue).head
  let filled :=
    world.setNode node
      { world.nodes node with data := item, next := head, prev := none }
  let linked := filled.setPrev head (some node)
  linked.setQueue queue
    { linked.queues queue with
      tail := if head.isSome then (linked.queues queue).tail else some node
      head := some node
      noItems := (linked.queues queue).noItems + 1 }

/-- `ymo_queue_popfront`. -/
def ymoQueuePopfront (null : Item) (world : World Item) (queue : QueueRef) :
    Item × World Item :=
  match (world.queues queue).head with
  | none => (null, world)
  | some node =>
      let head := world.next node
      let tail := (world.queues queue).tail
      let moved :=
        world.setQueue queue
          { world.queues queue with
            head := head
            tail := if tail = some node then none else tail
            noItems := (world.queues queue).noItems - 1 }
      let linked := moved.setPrev head none
      (linked.data node, linked.deleteNode node)

/-- `ymo_queue_popback`. -/
def ymoQueuePopback (null : Item) (world : World Item) (queue : QueueRef) :
    Item × World Item :=
  match (world.queues queue).tail with
  | none => (null, world)
  | some node =>
      let tail := world.prev node
      let head := (world.queues queue).head
      let moved :=
        world.setQueue queue
          { world.queues queue with
            tail := tail
            head := if head = some node then none else head
            noItems := (world.queues queue).noItems - 1 }
      let linked := moved.setNext tail none
      (linked.data node, linked.deleteNode node)

/-- `ymo_queue_remove` of the node that `node_ptr` points to. -/
def ymoQueueRemove (world : World Item) (queue : QueueRef) :
    Option NodeRef → Status × World Item
  | none => (.einval, world)
  | some node =>
      let next := world.next node
      let prev := world.prev node
      let head := (world.queues queue).head
      let tail := (world.queues queue).tail
      if prev = next ∧ head ≠ some node then (.einval, world)
      else
        let linked := (world.setNext prev next).setPrev next prev
        let moved :=
          linked.setQueue queue
            { linked.queues queue with
              head := if head = some node then next else head
              tail := if tail = some node then prev else tail
              noItems := (linked.queues queue).noItems - 1 }
        (.okay, moved.deleteNode node)

/-! ## Fields after a change -/

/-- The queue whose pool a node is in. -/
def owner (world : World Item) (node : NodeRef) : Option QueueRef :=
  (world.nodes node).queue

/-- A node of a pool is put on the stack of free nodes. -/
theorem deleteNode_pool {world : World Item} {node : NodeRef}
    {queue : QueueRef}
    (owned : world.owner node = some queue) :
    world.deleteNode node =
      (world.setNode node
          { world.nodes node with
            prev := none
            next := (world.queues queue).pstack }).setQueue queue
        { (world.setNode node
            { world.nodes node with
              prev := none
              next := (world.queues queue).pstack }).queues queue with
          pstack := some node } := by
  unfold deleteNode
  rw [show (world.nodes node).queue = some queue from owned]

/-- A node of the heap is given back. -/
theorem deleteNode_heap {world : World Item} {id : Nat}
    (owned : world.owner (.heap id) = none) :
    world.deleteNode (.heap id) =
      { world with live := world.live.erase id } := by
  unfold deleteNode
  rw [show (world.nodes (.heap id)).queue = none from owned]

section

variable
  (world : World Item)
  (node : NodeRef)
  (place target : Option NodeRef)
  (queue : QueueRef)
  (changedNode : QueueNode Item)
  (changed : Queue)

@[simp]
theorem next_setQueue : (world.setQueue queue changed).next = world.next :=
  rfl

@[simp]
theorem prev_setQueue : (world.setQueue queue changed).prev = world.prev :=
  rfl

@[simp]
theorem data_setQueue : (world.setQueue queue changed).data = world.data :=
  rfl

@[simp]
theorem owner_setQueue : (world.setQueue queue changed).owner = world.owner :=
  rfl

@[simp]
theorem queues_setQueue :
    (world.setQueue queue changed).queues queue = changed :=
  Function.update_self ..

@[simp]
theorem queues_setNode :
    (world.setNode node changedNode).queues = world.queues :=
  rfl

@[simp]
theorem next_setNode :
    (world.setNode node changedNode).next =
      Function.update world.next node changedNode.next := by
  funext other
  exact Function.apply_update (fun _ => QueueNode.next) ..

@[simp]
theorem prev_setNode :
    (world.setNode node changedNode).prev =
      Function.update world.prev node changedNode.prev := by
  funext other
  exact Function.apply_update (fun _ => QueueNode.prev) ..

@[simp]
theorem data_setNode :
    (world.setNode node changedNode).data =
      Function.update world.data node changedNode.data := by
  funext other
  exact Function.apply_update (fun _ => QueueNode.data) ..

@[simp]
theorem owner_setNode :
    (world.setNode node changedNode).owner =
      Function.update world.owner node changedNode.queue := by
  funext other
  exact Function.apply_update (fun _ => QueueNode.queue) ..

@[simp]
theorem queues_setNext :
    (world.setNext place target).queues = world.queues := by
  cases place <;> rfl

@[simp]
theorem queues_setPrev :
    (world.setPrev place target).queues = world.queues := by
  cases place <;> rfl

@[simp]
theorem next_setNext :
    (world.setNext place target).next = setLink world.next place target := by
  cases place with
  | none => rfl
  | some node => exact next_setNode ..

@[simp]
theorem prev_setNext : (world.setNext place target).prev = world.prev := by
  cases place with
  | none => rfl
  | some node =>
      rw [setNext, prev_setNode]
      exact Function.update_eq_self node world.prev

@[simp]
theorem data_setNext : (world.setNext place target).data = world.data := by
  cases place with
  | none => rfl
  | some node =>
      rw [setNext, data_setNode]
      exact Function.update_eq_self node world.data

@[simp]
theorem owner_setNext : (world.setNext place target).owner = world.owner := by
  cases place with
  | none => rfl
  | some node =>
      rw [setNext, owner_setNode]
      exact Function.update_eq_self node world.owner

@[simp]
theorem next_setPrev : (world.setPrev place target).next = world.next := by
  cases place with
  | none => rfl
  | some node =>
      rw [setPrev, next_setNode]
      exact Function.update_eq_self node world.next

@[simp]
theorem prev_setPrev :
    (world.setPrev place target).prev = setLink world.prev place target := by
  cases place with
  | none => rfl
  | some node => exact prev_setNode ..

@[simp]
theorem data_setPrev : (world.setPrev place target).data = world.data := by
  cases place with
  | none => rfl
  | some node =>
      rw [setPrev, data_setNode]
      exact Function.update_eq_self node world.data

@[simp]
theorem owner_setPrev : (world.setPrev place target).owner = world.owner := by
  cases place with
  | none => rfl
  | some node =>
      rw [setPrev, owner_setNode]
      exact Function.update_eq_self node world.owner

end

/-- The nodes of the heap that are in use, and the next one. -/
def heap (world : World Item) : List Nat × Nat :=
  (world.live, world.fresh)

@[simp]
theorem heap_setNext (world : World Item) (place target : Option NodeRef) :
    (world.setNext place target).heap = world.heap := by
  cases place <;> rfl

@[simp]
theorem heap_setPrev (world : World Item) (place target : Option NodeRef) :
    (world.setPrev place target).heap = world.heap := by
  cases place <;> rfl

@[simp]
theorem heap_setQueue (world : World Item) (queue : QueueRef)
    (changed : Queue) :
    (world.setQueue queue changed).heap = world.heap :=
  rfl

@[simp]
theorem heap_setNode (world : World Item) (node : NodeRef)
    (changed : QueueNode Item) :
    (world.setNode node changed).heap = world.heap :=
  rfl

end World

/-! ## Representation -/

/-- The queue holds these nodes: they are chained, `head` and `tail` are the ends,
and `no_items` is their number. -/
structure Queued
    (world : World Item)
    (queue : QueueRef)
    (nodes : List NodeRef) : Prop where
  chained : Chained world.next world.prev nodes
  head : (world.queues queue).head = nodes.head?
  tail : (world.queues queue).tail = nodes.getLast?
  noItems : (world.queues queue).noItems = nodes.length

/-- The node is in the queue's pool of `count` nodes. -/
def InPool (queue : QueueRef) (count : Nat) (node : NodeRef) : Prop :=
  ∃ index < count, node = .pool queue index

/-- The nodes in use and those on the stack of free nodes: every node of the pool
is among one of them, and the others in use are the live ones of the heap. -/
structure Pooled
    (world : World Item)
    (queue : QueueRef)
    (count : Nat)
    (used free : List NodeRef) : Prop where
  freeLinked : Linked world.next (world.queues queue).pstack free
  freePool : ∀ node ∈ free, InPool queue count node
  apart : ∀ node ∈ used, node ∉ free
  kept : ∀ node, InPool queue count node → node ∈ used ∨ node ∈ free
  owned : ∀ node, InPool queue count node → world.owner node = some queue
  usedHeap :
    ∀ node ∈ used,
      InPool queue count node ∨
        ∃ id ∈ world.live, node = .heap id ∧ world.owner node = none
  liveUsed : ∀ id ∈ world.live, NodeRef.heap id ∈ used ∧ id < world.fresh
  liveOnce : world.live.Nodup

/-- Only one node changed, and the queue still has the same ends. -/
structure Aside
    (world : World Item)
    (queue : QueueRef)
    (node : NodeRef)
    (later : World Item) : Prop where
  next : ∀ other, other ≠ node → later.next other = world.next other
  prev : ∀ other, other ≠ node → later.prev other = world.prev other
  data : ∀ other, other ≠ node → later.data other = world.data other
  head : (later.queues queue).head = (world.queues queue).head
  tail : (later.queues queue).tail = (world.queues queue).tail
  noItems : (later.queues queue).noItems = (world.queues queue).noItems

section

variable
  {world later : World Item}
  {queue : QueueRef}
  {count : Nat}
  {node : NodeRef}
  {nodes used free : List NodeRef}

/-- A node that is not in the queue may change. -/
theorem Queued.aside (queued : Queued world queue nodes)
    (outside : node ∉ nodes)
    (aside : Aside world queue node later) :
    Queued later queue nodes where
  chained :=
    queued.chained.congr
      (fun other member => aside.next other fun same => outside (same ▸ member))
      (fun other member => aside.prev other fun same => outside (same ▸ member))
  head := aside.head.trans queued.head
  tail := aside.tail.trans queued.tail
  noItems := aside.noItems.trans queued.noItems

theorem Aside.map_data (aside : Aside world queue node later)
    (outside : node ∉ nodes) :
    nodes.map later.data = nodes.map world.data :=
  List.map_congr_left fun other member =>
    aside.data other fun same => outside (same ▸ member)

/-- The pool only depends on the links of the free nodes, on the owners, and on
what is known of the heap. -/
theorem Pooled.congr (pooled : Pooled world queue count used free)
    {others : List NodeRef}
    (same : ∀ other, other ∈ others ↔ other ∈ used)
    (pstack : (later.queues queue).pstack = (world.queues queue).pstack)
    (next : ∀ other ∈ free, later.next other = world.next other)
    (owner : later.owner = world.owner)
    (heap : later.heap = world.heap) :
    Pooled later queue count others free := by
  have live : later.live = world.live := congrArg Prod.fst heap
  have fresh : later.fresh = world.fresh := congrArg Prod.snd heap
  constructor
  · rw [pstack]
    exact pooled.freeLinked.congr next
  · exact pooled.freePool
  · intro other member
    exact pooled.apart other ((same other).mp member)
  · intro other inPool
    rw [same]
    exact pooled.kept other inPool
  · rw [owner]
    exact pooled.owned
  · intro other member
    rw [owner, live]
    exact pooled.usedHeap other ((same other).mp member)
  · intro id member
    rw [same, fresh]
    rw [live] at member
    exact pooled.liveUsed id member
  · rw [live]
    exact pooled.liveOnce

theorem Aside.refl (world : World Item) (queue : QueueRef) (node : NodeRef) :
    Aside world queue node world := by
  constructor <;> intros <;> rfl

theorem Aside.setNode (aside : Aside world queue node later)
    (changed : QueueNode Item) :
    Aside world queue node (later.setNode node changed) where
  next other different := by
    rw [World.next_setNode, Function.update_of_ne different,
      aside.next other different]
  prev other different := by
    rw [World.prev_setNode, Function.update_of_ne different,
      aside.prev other different]
  data other different := by
    rw [World.data_setNode, Function.update_of_ne different,
      aside.data other different]
  head := by rw [World.queues_setNode, aside.head]
  tail := by rw [World.queues_setNode, aside.tail]
  noItems := by rw [World.queues_setNode, aside.noItems]

/-- The stack of free nodes is not one of the ends. -/
theorem Aside.setPstack (aside : Aside world queue node later)
    (pstack : Option NodeRef) :
    Aside world queue node
      (later.setQueue queue { later.queues queue with pstack := pstack }) where
  next other different := by
    rw [World.next_setQueue, aside.next other different]
  prev other different := by
    rw [World.prev_setQueue, aside.prev other different]
  data other different := by
    rw [World.data_setQueue, aside.data other different]
  head := by rw [World.queues_setQueue, aside.head]
  tail := by rw [World.queues_setQueue, aside.tail]
  noItems := by rw [World.queues_setQueue, aside.noItems]

/-- The node that the heap gives. -/
theorem Pooled.newNode (pooled : Pooled world queue count used [])
    (isNew : NodeRef.heap world.fresh ∉ used)
    (changed : QueueNode Item)
    (noQueue : changed.queue = none) :
    Pooled
      { world.setNode (.heap world.fresh) changed with
        live := world.fresh :: world.live
        fresh := world.fresh + 1 }
      queue count (.heap world.fresh :: used) [] := by
  have owner :
      ∀ other, other ≠ NodeRef.heap world.fresh →
        (world.setNode (.heap world.fresh) changed).owner other =
          world.owner other := by
    intro other different
    rw [World.owner_setNode, Function.update_of_ne different]
  constructor
  · have linked := pooled.freeLinked
    cases stack : (world.queues queue).pstack with
    | none =>
        show Linked _ (world.queues queue).pstack []
        rw [stack]
        exact .nil
    | some free =>
        rw [stack] at linked
        nomatch linked
  · intro other member
    nomatch member
  · intro other _ member
    nomatch member
  · intro other inPool
    rcases pooled.kept other inPool with member | member
    · exact Or.inl (List.mem_cons_of_mem _ member)
    · exact Or.inr member
  · intro other inPool
    have different : other ≠ NodeRef.heap world.fresh := by
      rcases inPool with ⟨index, _, rfl⟩
      exact NodeRef.noConfusion
    exact (owner other different).trans (pooled.owned other inPool)
  · intro other member
    rcases List.mem_cons.mp member with here | before
    · right
      refine ⟨world.fresh, List.mem_cons_self, here, ?_⟩
      show World.owner (World.setNode _ _ _) other = none
      rw [here, World.owner_setNode, Function.update_self, noQueue]
    · have different : other ≠ NodeRef.heap world.fresh :=
        fun same => isNew (same ▸ before)
      rcases pooled.usedHeap other before with inPool | ⟨id, live, same, heap⟩
      · exact Or.inl inPool
      · right
        exact
          ⟨id, List.mem_cons_of_mem _ live, same,
            (owner other different).trans heap⟩
  · intro id member
    rcases List.mem_cons.mp member with here | before
    · rw [here]
      exact ⟨List.mem_cons_self, Nat.lt_succ_self world.fresh⟩
    · have old := pooled.liveUsed id before
      exact ⟨List.mem_cons_of_mem _ old.1, Nat.lt_succ_of_lt old.2⟩
  · refine List.nodup_cons.mpr ⟨?_, pooled.liveOnce⟩
    intro member
    exact Nat.lt_irrefl _ (pooled.liveUsed _ member).2

/-- The node on top of the stack of free nodes. -/
theorem Pooled.popNode (pooled : Pooled world queue count used (node :: free))
    {changed : QueueNode Item}
    (sameQueue : changed.queue = (world.nodes node).queue) :
    Pooled
      ((world.setQueue queue
          { world.queues queue with pstack := world.next node }).setNode node
        changed)
      queue count (node :: used) free := by
  have linked := pooled.freeLinked
  rcases linked.of_cons with ⟨-, later⟩
  have outside : node ∉ free := (List.nodup_cons.mp linked.nodup).1
  have owner :
      ((world.setQueue queue
          { world.queues queue with
            pstack := world.next node }).setNode node changed).owner =
        world.owner := by
    rw [World.owner_setNode, World.owner_setQueue, sameQueue]
    exact Function.update_eq_self node world.owner
  constructor
  · rw [World.queues_setNode, World.queues_setQueue, World.next_setNode,
      World.next_setQueue]
    refine later.congr ?_
    intro other member
    have different : other ≠ node := fun same => outside (same ▸ member)
    exact Function.update_of_ne different ..
  · intro other member
    exact pooled.freePool other (List.mem_cons_of_mem node member)
  · intro other member inRest
    rcases List.mem_cons.mp member with here | before
    · exact outside (here ▸ inRest)
    · exact pooled.apart other before (List.mem_cons_of_mem node inRest)
  · intro other pool
    rcases pooled.kept other pool with before | onStack
    · exact Or.inl (List.mem_cons_of_mem node before)
    · rcases List.mem_cons.mp onStack with here | inRest
      · exact Or.inl (here ▸ List.mem_cons_self)
      · exact Or.inr inRest
  · rw [owner]
    exact pooled.owned
  · rw [owner]
    intro other member
    rcases List.mem_cons.mp member with here | before
    · rw [here]
      exact Or.inl (pooled.freePool node List.mem_cons_self)
    · exact pooled.usedHeap other before
  · intro id member
    have old := pooled.liveUsed id member
    exact ⟨List.mem_cons_of_mem node old.1, old.2⟩
  · exact pooled.liveOnce

/-- A node that is created was not in use. -/
theorem Pooled.createNode (pooled : Pooled world queue count used free) :
    (world.createNode queue).1 ∉ used ∧
      Aside world queue (world.createNode queue).1
          (world.createNode queue).2 ∧
        ∃ rest,
          Pooled (world.createNode queue).2 queue count
            ((world.createNode queue).1 :: used) rest := by
  have linked := pooled.freeLinked
  rw [World.createNode]
  cases stack : (world.queues queue).pstack with
  | none =>
      rw [stack] at linked
      cases linked
      have isNew : NodeRef.heap world.fresh ∉ used := by
        intro member
        rcases pooled.usedHeap _ member with ⟨_, _, same⟩ | ⟨id, live, same, _⟩
        · nomatch same
        · have here := (pooled.liveUsed id live).2
          rw [NodeRef.heap.inj same] at here
          exact Nat.lt_irrefl id here
      have aside :=
        (Aside.refl world queue (.heap world.fresh)).setNode
          { world.nodes (.heap world.fresh) with queue := none }
      refine ⟨isNew, ?_, [], pooled.newNode isNew _ rfl⟩
      exact
        ⟨aside.next, aside.prev, aside.data, aside.head, aside.tail,
          aside.noItems⟩
  | some node =>
      rw [stack] at linked
      rcases linked.of_some with ⟨rest, rfl, -⟩
      have isNew : node ∉ used :=
        fun member => pooled.apart node member List.mem_cons_self
      exact
        ⟨isNew, ((Aside.refl world queue node).setPstack _).setNode _, rest,
          pooled.popNode rfl⟩

/-- A node of the pool goes to the top of the stack. -/
theorem Pooled.pushNode (pooled : Pooled world queue count (node :: used) free)
    (outside : node ∉ used)
    (inPool : InPool queue count node)
    {changed : QueueNode Item}
    (next : changed.next = (world.queues queue).pstack)
    (sameQueue : changed.queue = (world.nodes node).queue) :
    Pooled
      ((world.setNode node changed).setQueue queue
        { (world.setNode node changed).queues queue with pstack := some node })
      queue count used (node :: free) := by
  have notFree := pooled.apart node List.mem_cons_self
  have owner : (world.setNode node changed).owner = world.owner := by
    rw [World.owner_setNode, sameQueue]
    exact Function.update_eq_self node world.owner
  constructor
  · rw [World.queues_setQueue, World.next_setQueue, World.next_setNode]
    apply Linked.cons
    rw [Function.update_self, next]
    refine pooled.freeLinked.congr ?_
    intro other member
    have different : other ≠ node := fun same => notFree (same ▸ member)
    exact Function.update_of_ne different ..
  · intro other member
    rcases List.mem_cons.mp member with here | before
    · exact here ▸ inPool
    · exact pooled.freePool other before
  · intro other member onStack
    rcases List.mem_cons.mp onStack with here | before
    · exact outside (here ▸ member)
    · exact pooled.apart other (List.mem_cons_of_mem node member) before
  · intro other pool
    rcases pooled.kept other pool with inUse | onStack
    · rcases List.mem_cons.mp inUse with here | before
      · exact Or.inr (here ▸ List.mem_cons_self)
      · exact Or.inl before
    · exact Or.inr (List.mem_cons_of_mem node onStack)
  · rw [World.owner_setQueue, owner]
    exact pooled.owned
  · rw [World.owner_setQueue, owner]
    intro other member
    exact pooled.usedHeap other (List.mem_cons_of_mem node member)
  · intro id member
    have old := pooled.liveUsed id member
    refine ⟨?_, old.2⟩
    rcases List.mem_cons.mp old.1 with here | before
    · rw [← here] at inPool
      rcases inPool with ⟨index, _, same⟩
      nomatch same
    · exact before
  · exact pooled.liveOnce

/-- A node of the heap is given back. -/
theorem Pooled.dropNode {id : Nat}
    (pooled : Pooled world queue count (.heap id :: used) free)
    (outside : NodeRef.heap id ∉ used) :
    Pooled { world with live := world.live.erase id } queue count used
      free := by
  constructor
  · exact pooled.freeLinked
  · exact pooled.freePool
  · intro other member
    exact pooled.apart other (List.mem_cons_of_mem _ member)
  · intro other pool
    rcases pooled.kept other pool with inUse | onStack
    · rcases List.mem_cons.mp inUse with here | before
      · rcases pool with ⟨index, _, same⟩
        rw [same] at here
        nomatch here
      · exact Or.inl before
    · exact Or.inr onStack
  · exact pooled.owned
  · intro other member
    rcases pooled.usedHeap other (List.mem_cons_of_mem _ member)
      with inPool | ⟨otherId, otherLive, same, otherHeap⟩
    · exact Or.inl inPool
    · right
      refine ⟨otherId, ?_, same, otherHeap⟩
      show otherId ∈ world.live.erase id
      rw [List.Nodup.mem_erase_iff pooled.liveOnce]
      refine ⟨?_, otherLive⟩
      rintro rfl
      exact outside (same ▸ member)
  · intro otherId member
    have inLive : otherId ∈ world.live := List.mem_of_mem_erase member
    have different : otherId ≠ id := by
      rintro rfl
      exact List.Nodup.not_mem_erase pooled.liveOnce member
    have old := pooled.liveUsed otherId inLive
    refine ⟨?_, old.2⟩
    rcases List.mem_cons.mp old.1 with here | before
    · exact absurd (NodeRef.heap.inj here) different
    · exact before
  · exact pooled.liveOnce.erase id

/-- A node that is deleted is free, or given back to the heap. -/
theorem Pooled.deleteNode
    (pooled : Pooled world queue count (node :: used) free)
    (outside : node ∉ used) :
    Aside world queue node (world.deleteNode node) ∧
      ∃ rest, Pooled (world.deleteNode node) queue count used rest := by
  rcases pooled.usedHeap node List.mem_cons_self
    with inPool | ⟨id, live, rfl, heap⟩
  · rw [World.deleteNode_pool (pooled.owned node inPool)]
    exact
      ⟨((Aside.refl world queue node).setNode _).setPstack _, node :: free,
        pooled.pushNode outside inPool rfl rfl⟩
  · rw [World.deleteNode_heap heap]
    refine ⟨?_, free, pooled.dropNode outside⟩
    constructor <;> intros <;> rfl

end

/-! ## Operations on the representation -/

/-- The queue holds these items, in this order. -/
def Holds (world : World Item) (queue : QueueRef) (count : Nat)
    (items : List Item) : Prop :=
  ∃ nodes free,
    Queued world queue nodes ∧
      Pooled world queue count nodes free ∧
        nodes.map world.data = items

section

variable
  {world later : World Item}
  {queue : QueueRef}
  {count : Nat}
  {node : NodeRef}
  {front back free : List NodeRef}

/-- A new node is linked in. -/
theorem holds_inserted {item : Item}
    (queued : Queued world queue (front ++ back))
    (pooled : Pooled world queue count (node :: (front ++ back)) free)
    (isNew : node ∉ front ++ back)
    (next :
      later.next =
        Function.update (setLink world.next front.getLast? (some node))
          node back.head?)
    (prev :
      later.prev =
        Function.update (setLink world.prev back.head? (some node)) node
          front.getLast?)
    (data : later.data = Function.update world.data node item)
    (owner : later.owner = world.owner)
    (heap : later.heap = world.heap)
    (pstack : (later.queues queue).pstack = (world.queues queue).pstack)
    (head : (later.queues queue).head = (front ++ node :: back).head?)
    (tail : (later.queues queue).tail = (front ++ node :: back).getLast?)
    (noItems :
      (later.queues queue).noItems = (world.queues queue).noItems + 1) :
    Holds later queue count
      (front.map world.data ++ item :: back.map world.data) := by
  have others :
      ∀ nodes : List NodeRef,
        node ∉ nodes → nodes.map later.data = nodes.map world.data := by
    intro nodes outside
    apply List.map_congr_left
    intro other member
    have different : other ≠ node := fun same => outside (same ▸ member)
    rw [data, Function.update_of_ne different]
  refine ⟨front ++ node :: back, free, ⟨?_, head, tail, ?_⟩, ?_, ?_⟩
  · rw [next, prev]
    exact queued.chained.link isNew
  · rw [noItems, queued.noItems, List.length_append, List.length_append,
      List.length_cons]
    rfl
  · refine pooled.congr ?_ pstack ?_ owner heap
    · intro other
      simp only [List.mem_append, List.mem_cons]
      tauto
    · intro other member
      have different : other ≠ node := by
        rintro rfl
        exact pooled.apart other List.mem_cons_self member
      rw [next, Function.update_of_ne different, setLink_other]
      intro isLast
      have inFront := List.mem_of_getLast? isLast
      exact
        pooled.apart other
          (List.mem_cons_of_mem node (List.mem_append_left back inFront))
          member
  · rw [List.map_append, List.map_cons,
      others front fun member => isNew (List.mem_append_left back member),
      others back fun member => isNew (List.mem_append_right front member),
      data, Function.update_self]

/-- A node is linked out and deleted. -/
theorem holds_removed
    (queued : Queued world queue (front ++ node :: back))
    (pooled : Pooled world queue count (front ++ node :: back) free)
    (next : later.next = setLink world.next front.getLast? back.head?)
    (prev : later.prev = setLink world.prev back.head? front.getLast?)
    (data : later.data = world.data)
    (owner : later.owner = world.owner)
    (heap : later.heap = world.heap)
    (pstack : (later.queues queue).pstack = (world.queues queue).pstack)
    (head : (later.queues queue).head = (front ++ back).head?)
    (tail : (later.queues queue).tail = (front ++ back).getLast?)
    (noItems :
      (later.queues queue).noItems = (world.queues queue).noItems - 1) :
    Holds (later.deleteNode node) queue count
      (front.map world.data ++ back.map world.data) := by
  have distinct := queued.chained.nodup
  have outside : node ∉ front ++ back := by
    have middle := List.nodup_middle.mp distinct
    exact (List.nodup_cons.mp middle).1
  have without : Queued later queue (front ++ back) := by
    refine ⟨?_, head, tail, ?_⟩
    · rw [next, prev]
      exact queued.chained.unlink
    · rw [noItems, queued.noItems, List.length_append, List.length_append,
        List.length_cons]
      rfl
  have inUse : Pooled later queue count (node :: (front ++ back)) free := by
    refine pooled.congr ?_ pstack ?_ owner heap
    · intro other
      simp only [List.mem_append, List.mem_cons]
      tauto
    · intro other member
      rw [next, setLink_other]
      intro isLast
      have inFront := List.mem_of_getLast? isLast
      exact
        pooled.apart other (List.mem_append_left (node :: back) inFront) member
  rcases inUse.deleteNode outside with ⟨aside, rest, given⟩
  refine ⟨front ++ back, rest, without.aside outside aside, given, ?_⟩
  rw [aside.map_data outside, data, List.map_append]

end

section

variable
  {world : World Item}
  {queue : QueueRef}
  {count : Nat}
  {items : List Item}

theorem holds_append (holds : Holds world queue count items) (item : Item) :
    Holds (world.ymoQueueAppend queue item) queue count (items ++ [item]) := by
  rcases holds with ⟨nodes, free, queued, pooled, rfl⟩
  rcases pooled.createNode with ⟨isNew, aside, rest, inHand⟩
  have before := queued.aside isNew aside
  have same := aside.map_data isNew
  unfold World.ymoQueueAppend
  dsimp only
  revert isNew aside inHand before same
  generalize world.createNode queue = created
  rcases created with ⟨node, world'⟩
  intro isNew aside inHand before same
  dsimp only at isNew aside inHand before same ⊢
  have notTail : nodes.getLast? ≠ some node :=
    fun isLast => isNew (List.mem_of_getLast? isLast)
  rw [before.tail, ← same]
  rw [← List.append_nil nodes] at before inHand isNew
  refine holds_inserted before inHand isNew ?_ ?_ ?_ ?_ ?_ ?_ ?_ ?_ ?_
  · rw [World.next_setQueue, World.next_setNext, World.next_setNode,
      setLink_update _ notTail]
    rfl
  · rw [World.prev_setQueue, World.prev_setNext, World.prev_setNode]
    rfl
  · rw [World.data_setQueue, World.data_setNext, World.data_setNode]
  · rw [World.owner_setQueue, World.owner_setNext, World.owner_setNode]
    exact Function.update_eq_self node world'.owner
  · rw [World.heap_setQueue, World.heap_setNext, World.heap_setNode]
  · rw [World.queues_setQueue, World.queues_setNext, World.queues_setNode]
  · rw [World.queues_setQueue, World.queues_setNext,
      World.queues_setNode, before.head, List.append_nil]
    cases nodes with
    | nil => rfl
    | cons first nodes =>
        rw [if_pos (by rw [List.getLast?_cons]; rfl)]
        rfl
  · rw [World.queues_setQueue, List.getLast?_concat]
  · rw [World.queues_setQueue, World.queues_setNext, World.queues_setNode]

theorem holds_prepend (holds : Holds world queue count items) (item : Item) :
    Holds (world.ymoQueuePrepend queue item) queue count (item :: items) := by
  rcases holds with ⟨nodes, free, queued, pooled, rfl⟩
  rcases pooled.createNode with ⟨isNew, aside, rest, inHand⟩
  have before := queued.aside isNew aside
  have same := aside.map_data isNew
  unfold World.ymoQueuePrepend
  dsimp only
  revert isNew aside inHand before same
  generalize world.createNode queue = created
  rcases created with ⟨node, world'⟩
  intro isNew aside inHand before same
  dsimp only at isNew aside inHand before same ⊢
  have notHead : nodes.head? ≠ some node :=
    fun isHead => isNew (List.mem_of_head? isHead)
  rw [before.head, ← same]
  refine
    @holds_inserted Item world' _ queue count node [] nodes rest item
      before inHand isNew ?_ ?_ ?_ ?_ ?_ ?_ ?_ ?_ ?_
  · rw [World.next_setQueue, World.next_setPrev, World.next_setNode]
    rfl
  · rw [World.prev_setQueue, World.prev_setPrev, World.prev_setNode,
      setLink_update _ notHead]
    rfl
  · rw [World.data_setQueue, World.data_setPrev, World.data_setNode]
  · rw [World.owner_setQueue, World.owner_setPrev, World.owner_setNode]
    exact Function.update_eq_self node world'.owner
  · rw [World.heap_setQueue, World.heap_setPrev, World.heap_setNode]
  · rw [World.queues_setQueue, World.queues_setPrev, World.queues_setNode]
  · rw [World.queues_setQueue]
    rfl
  · rw [World.queues_setQueue, World.queues_setPrev,
      World.queues_setNode, before.tail, List.nil_append]
    cases nodes with
    | nil => rfl
    | cons first nodes =>
        rw [List.getLast?_cons_cons]
        rfl
  · rw [World.queues_setQueue, World.queues_setPrev, World.queues_setNode]

theorem holds_popfront (null : Item) (holds : Holds world queue count items) :
    (world.ymoQueuePopfront null queue).1 = items.head?.getD null ∧
      Holds (world.ymoQueuePopfront null queue).2 queue count items.tail := by
  rcases holds with ⟨nodes, free, queued, pooled, rfl⟩
  cases nodes with
  | nil =>
      rw [World.ymoQueuePopfront, queued.head]
      exact ⟨rfl, [], free, queued, pooled, rfl⟩
  | cons node back =>
      have links := queued.chained [] node back rfl
      have distinct := List.nodup_cons.mp queued.chained.nodup
      rw [World.ymoQueuePopfront, queued.head]
      dsimp only [List.head?_cons]
      rw [queued.tail, links.1]
      constructor
      · rw [World.data_setPrev, World.data_setQueue]
        rfl
      · refine
          @holds_removed Item world _ queue count node [] back free queued
            pooled ?_ ?_ ?_ ?_ ?_ ?_ ?_ ?_ ?_
        · rw [World.next_setPrev, World.next_setQueue]
          rfl
        · rw [World.prev_setPrev, World.prev_setQueue]
          rfl
        · rw [World.data_setPrev, World.data_setQueue]
        · rw [World.owner_setPrev, World.owner_setQueue]
        · rw [World.heap_setPrev, World.heap_setQueue]
        · rw [World.queues_setPrev, World.queues_setQueue]
        · rw [World.queues_setPrev, World.queues_setQueue]
          rfl
        · rw [World.queues_setPrev, World.queues_setQueue]
          cases back with
          | nil => exact if_pos rfl
          | cons second back =>
              rw [List.getLast?_cons_cons, if_neg]
              · rfl
              · intro isLast
                exact distinct.1 (List.mem_of_getLast? isLast)
        · rw [World.queues_setPrev, World.queues_setQueue]

theorem holds_popback (null : Item) (holds : Holds world queue count items) :
    (world.ymoQueuePopback null queue).1 = items.getLast?.getD null ∧
      Holds (world.ymoQueuePopback null queue).2 queue count
        items.dropLast := by
  rcases holds with ⟨nodes, free, queued, pooled, rfl⟩
  rcases List.eq_nil_or_concat nodes with empty | ⟨front, node, split⟩
  · subst empty
    rw [World.ymoQueuePopback, queued.tail]
    exact ⟨rfl, [], free, queued, pooled, rfl⟩
  · rw [List.concat_eq_append] at split
    subst split
    have links := queued.chained front node [] rfl
    have distinct := queued.chained.nodup
    rw [World.ymoQueuePopback, queued.tail, List.getLast?_concat]
    dsimp only
    rw [queued.head, links.2]
    constructor
    · rw [World.data_setNext, World.data_setQueue, List.map_append,
        List.map_cons, List.map_nil, List.getLast?_concat]
      rfl
    · have removed :
          Holds
            (((world.setQueue queue
                { world.queues queue with
                  tail := front.getLast?
                  head :=
                    if (front ++ [node]).head? = some node then none
                    else (front ++ [node]).head?
                  noItems := (world.queues queue).noItems - 1 }).setNext
              front.getLast? none).deleteNode node)
            queue count
            (front.map world.data ++ ([] : List NodeRef).map world.data) := by
        refine holds_removed queued pooled ?_ ?_ ?_ ?_ ?_ ?_ ?_ ?_ ?_
        · rw [World.next_setNext, World.next_setQueue]
          rfl
        · rw [World.prev_setNext, World.prev_setQueue]
          rfl
        · rw [World.data_setNext, World.data_setQueue]
        · rw [World.owner_setNext, World.owner_setQueue]
        · rw [World.heap_setNext, World.heap_setQueue]
        · rw [World.queues_setNext, World.queues_setQueue]
        · rw [World.queues_setNext, World.queues_setQueue, List.append_nil]
          cases front with
          | nil => exact if_pos rfl
          | cons first front =>
              rw [if_neg]
              · rfl
              · intro isHead
                have here : first = node := Option.some.inj isHead
                subst here
                have outside := (List.nodup_cons.mp distinct).1
                exact outside (List.mem_append_right front List.mem_cons_self)
        · rw [World.queues_setNext, World.queues_setQueue, List.append_nil]
        · rw [World.queues_setNext, World.queues_setQueue]
      rw [List.map_nil, List.append_nil] at removed
      rw [List.map_append, List.map_cons, List.map_nil, List.dropLast_concat]
      exact removed

/-- A member of the queue is removed from its place. -/
theorem holds_remove {front back free : List NodeRef} {node : NodeRef}
    (queued : Queued world queue (front ++ node :: back))
    (pooled : Pooled world queue count (front ++ node :: back) free) :
    (world.ymoQueueRemove queue (some node)).1 = .okay ∧
      Holds (world.ymoQueueRemove queue (some node)).2 queue count
        (front.map world.data ++ back.map world.data) := by
  have links := queued.chained front node back rfl
  have distinct := queued.chained.nodup
  have middle := List.nodup_cons.mp (List.nodup_middle.mp distinct)
  have inside :
      ¬(front.getLast? = back.head? ∧
        (front ++ node :: back).head? ≠ some node) := by
    rintro ⟨same, notHead⟩
    cases last : front.getLast? with
    | none =>
        rw [List.getLast?_eq_none_iff] at last
        subst last
        exact notHead rfl
    | some other =>
        rw [last] at same
        exact
          (List.nodup_append.mp middle.2).2.2 other
            (List.mem_of_getLast? last) other
            (List.mem_of_head? same.symm) rfl
  rw [World.ymoQueueRemove, links.1, links.2, queued.head, queued.tail]
  dsimp only
  rw [if_neg inside]
  refine ⟨rfl, ?_⟩
  refine holds_removed queued pooled ?_ ?_ ?_ ?_ ?_ ?_ ?_ ?_ ?_
  · rw [World.next_setQueue, World.next_setPrev, World.next_setNext]
  · rw [World.prev_setQueue, World.prev_setPrev, World.prev_setNext]
  · rw [World.data_setQueue, World.data_setPrev, World.data_setNext]
  · rw [World.owner_setQueue, World.owner_setPrev, World.owner_setNext]
  · rw [World.heap_setQueue, World.heap_setPrev, World.heap_setNext]
  · rw [World.queues_setQueue, World.queues_setPrev, World.queues_setNext]
  · rw [World.queues_setQueue]
    cases front with
    | nil => exact if_pos rfl
    | cons first front =>
        rw [if_neg]
        · rfl
        · intro isHead
          have here : first = node := Option.some.inj isHead
          exact middle.1 (here ▸ List.mem_cons_self)
  · rw [World.queues_setQueue]
    rcases List.eq_nil_or_concat back with empty | ⟨back, last, split⟩
    · subst empty
      rw [List.getLast?_concat, if_pos rfl, List.append_nil]
    · rw [List.concat_eq_append] at split
      subst split
      have whole :
          (front ++ node :: (back ++ [last])).getLast? = some last := by
        rw [← List.cons_append, ← List.append_assoc, List.getLast?_concat]
      have rest : (front ++ (back ++ [last])).getLast? = some last := by
        rw [← List.append_assoc, List.getLast?_concat]
      rw [whole, rest]
      refine if_neg ?_
      intro isLast
      have here : last = node := Option.some.inj isLast
      subst here
      exact
        middle.1
          (List.mem_append_right front
            (List.mem_append_right back List.mem_cons_self))
  · rw [World.queues_setQueue, World.queues_setPrev, World.queues_setNext]

end

end Yimmo.Core.Queues
