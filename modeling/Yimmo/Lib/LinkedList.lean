import Mathlib.Data.List.Nodup
import Mathlib.Logic.Function.Basic

/-!
# Singly linked lists of nodes

A node is anything that has an optional successor.  `Linked next head nodes`
says that following `next` from `head` visits exactly `nodes` and then ends, so a
linked list is finite by definition; that it never visits a node twice is a
theorem, since a node determines everything that follows it.

The operations are the two a queue needs.  `walk` visits the nodes with a bound
on their number, and a walk that does not end is told from one that does;
`Linked.concat` hangs a new node on the last one.
-/

namespace Yimmo.Lib.LinkedList

variable
    {Node : Type*}
    {head : Option Node}
    {nodes : List Node}
    {node : Node}

/-- Following `next` from the head visits these nodes and ends. -/
inductive Linked (next : Node → Option Node) :
    Option Node → List Node → Prop where
  | nil : Linked next none []
  | cons
      {node : Node}
      {rest : List Node}
      (tail : Linked next (next node) rest) :
      Linked next (some node) (node :: rest)

/-- The nodes of the list that starts here, if it ends within the bound. -/
def walk (next : Node → Option Node) : Nat → Node → Option (List Node)
  | 0, _ => none
  | bound + 1, node =>
      match next node with
      | none => some [node]
      | some later => (walk next bound later).map (node :: ·)

variable {next : Node → Option Node}

theorem Linked.of_some (linked : Linked next (some node) nodes) :
    ∃ rest, nodes = node :: rest ∧ Linked next (next node) rest := by
  cases linked with
  | cons tail => exact ⟨_, rfl, tail⟩

theorem Linked.of_cons {rest : List Node}
    (linked : Linked next head (node :: rest)) :
    head = some node ∧ Linked next (next node) rest := by
  cases linked with
  | cons tail => exact ⟨rfl, tail⟩

/-- The head determines the list. -/
theorem Linked.unique {nodes others : List Node}
    (linked : Linked next head nodes)
    (other : Linked next head others) :
    nodes = others := by
  induction linked generalizing others with
  | nil =>
      cases other
      rfl
  | cons tail ih =>
      rcases other.of_some with ⟨rest, rfl, others⟩
      rw [ih others]

/-- The list goes on in the same way from each of its nodes. -/
theorem Linked.suffix (linked : Linked next head nodes)
    (member : node ∈ nodes) :
    ∃ front back,
      nodes = front ++ node :: back ∧
        Linked next (some node) (node :: back) := by
  induction linked with
  | nil => nomatch member
  | @cons first rest tail ih =>
      rcases List.mem_cons.mp member with here | later
      · rw [here]
        exact ⟨[], rest, rfl, .cons tail⟩
      · rcases ih later with ⟨front, back, split, goesOn⟩
        exact ⟨first :: front, back, by rw [split]; rfl, goesOn⟩

/-- No node is visited twice. -/
theorem Linked.nodup (linked : Linked next head nodes) : nodes.Nodup := by
  induction linked with
  | nil => exact List.nodup_nil
  | @cons node rest tail ih =>
      apply List.nodup_cons.mpr
      constructor
      · intro again
        rcases tail.suffix again with ⟨front, back, split, goesOn⟩
        have same := goesOn.unique (.cons tail)
        have shorter := congrArg List.length split
        have equal := congrArg List.length same
        simp only [List.length_append, List.length_cons] at shorter equal
        omega
      · exact ih

/-- The list only depends on the successors of its nodes. -/
theorem Linked.congr (linked : Linked next head nodes)
    {later : Node → Option Node}
    (same : ∀ node ∈ nodes, later node = next node) :
    Linked later head nodes := by
  induction linked with
  | nil => exact .nil
  | @cons node rest tail ih =>
      apply Linked.cons
      rw [same node List.mem_cons_self]
      exact
        ih fun other member => same other (List.mem_cons_of_mem node member)

/-- What is left of the list when some nodes are passed. -/
theorem Linked.drop (linked : Linked next head nodes) (count : Nat) :
    Linked next (nodes.drop count).head? (nodes.drop count) := by
  induction linked generalizing count with
  | nil =>
      rw [List.drop_nil]
      exact .nil
  | @cons node rest tail ih =>
      cases count with
      | zero => exact .cons tail
      | succ count => exact ih count

/-- A bound on the length is enough for the walk to visit the list. -/
theorem Linked.walk (linked : Linked next (some node) nodes) {bound : Nat}
    (enough : nodes.length ≤ bound) :
    walk next bound node = some nodes := by
  induction bound generalizing node nodes with
  | zero =>
      rcases linked.of_some with ⟨rest, rfl, -⟩
      nomatch enough
  | succ bound ih =>
      rcases linked.of_some with ⟨rest, rfl, tail⟩
      unfold LinkedList.walk
      cases successor : next node with
      | none =>
          rw [successor] at tail
          cases tail
          rfl
      | some later =>
          rw [successor] at tail
          dsimp only
          rw [ih tail (Nat.le_of_succ_le_succ enough)]
          rfl

/-- Another list is hung on the last node. -/
theorem Linked.append [DecidableEq Node] {nodes others : List Node}
    (linked : Linked next head nodes)
    {last first : Node}
    (isLast : nodes.getLast? = some last)
    (more : Linked next (some first) others)
    (apart : last ∉ others) :
    Linked (Function.update next last (some first)) head
      (nodes ++ others) := by
  have distinct := linked.nodup
  induction linked with
  | nil => nomatch isLast
  | @cons node rest tail ih =>
      rcases List.nodup_cons.mp distinct with ⟨outside, restDistinct⟩
      apply Linked.cons
      cases successor : next node with
      | none =>
          rw [successor] at tail
          cases tail
          have here : node = last := Option.some.inj isLast
          rw [here, Function.update_self]
          show Linked _ (some first) others
          refine more.congr ?_
          intro other member
          have different : other ≠ last := fun same => apart (same ▸ member)
          rw [Function.update_of_ne different]
      | some later =>
          have lastInRest : rest.getLast? = some last := by
            rw [successor] at tail
            rcases tail.of_some with ⟨others, rfl, -⟩
            rw [List.getLast?_cons_cons] at isLast
            exact isLast
          have member := List.mem_of_getLast? lastInRest
          have other : node ≠ last := fun same => outside (same ▸ member)
          rw [Function.update_of_ne other]
          exact ih lastInRest restDistinct

/-- A new node is hung on the last one. -/
theorem Linked.concat [DecidableEq Node] (linked : Linked next head nodes)
    {last fresh : Node}
    (isLast : nodes.getLast? = some last)
    (ends : next fresh = none)
    (isNew : fresh ∉ nodes) :
    Linked (Function.update next last (some fresh)) head
      (nodes ++ [fresh]) := by
  have single : Linked next (some fresh) [fresh] := by
    apply Linked.cons
    rw [ends]
    exact .nil
  refine linked.append isLast single ?_
  intro same
  rw [← List.mem_singleton.mp same] at isNew
  exact isNew (List.mem_of_getLast? isLast)

/-- The last node has no successor. -/
theorem Linked.next_last (linked : Linked next head nodes) {last : Node}
    (isLast : nodes.getLast? = some last) :
    next last = none := by
  induction linked with
  | nil => nomatch isLast
  | @cons node rest tail ih =>
      cases rest with
      | nil =>
          have here : node = last := Option.some.inj isLast
          rw [← here]
          cases successor : next node with
          | none => rfl
          | some later =>
              rw [successor] at tail
              nomatch tail
      | cons second rest =>
          rw [List.getLast?_cons_cons] at isLast
          exact ih isLast

end Yimmo.Lib.LinkedList
