import Mathlib.Data.List.Nodup
import Mathlib.Data.List.Perm.Basic

/-!
# Forests by first child and next sibling

A node has an optional first child and an optional next sibling.  `Forest` says
that the nodes that are reached from one are these, in the order of a traversal
that visits a node, what is below it and then its siblings; so such a forest is
finite by definition.

`release` gives the nodes of a forest back, each after what is below it.  It reads
the links of a node only before the node is given back, and has no result when one
that was given back is read, or given back again.
-/

namespace Yimmo.Lib.SiblingForest

variable {Node : Type*}

/-- These are the nodes from the head on. -/
inductive Forest (child next : Node → Option Node) :
    Option Node → List Node → Prop where
  | nil : Forest child next none []
  | cons
      {node : Node}
      {below later : List Node}
      (inner : Forest child next (child node) below)
      (rest : Forest child next (next node) later) :
      Forest child next (some node) (node :: (below ++ later))

/-- The nodes that are given back, in their order, with a bound on the depth of the
calls. -/
def release [DecidableEq Node] (child next : Node → Option Node) :
    Nat → Option Node → List Node → Option (List Node)
  | _, none, released => some released
  | 0, some _, _ => none
  | bound + 1, some node, released =>
      if node ∈ released then none
      else
        match release child next bound (child node) released with
        | none => none
        | some released =>
            if node ∈ released then none
            else release child next bound (next node) (released ++ [node])

variable {child next : Node → Option Node}

/-- Each node of a forest is given back once. -/
theorem Forest.release [DecidableEq Node] {head : Option Node}
    {nodes : List Node}
    (forest : Forest child next head nodes)
    (distinct : nodes.Nodup)
    {bound : Nat}
    (enough : nodes.length ≤ bound)
    {released : List Node}
    (fresh : ∀ node ∈ nodes, node ∉ released) :
    ∃ order,
      SiblingForest.release child next bound head released =
          some (released ++ order) ∧
        order.Perm nodes := by
  induction forest generalizing bound released with
  | nil =>
      refine ⟨[], ?_, List.Perm.refl []⟩
      rw [SiblingForest.release.eq_def, List.append_nil]
  | @cons node below later inner rest innerHypothesis restHypothesis =>
      obtain ⟨apart, both⟩ := List.nodup_cons.mp distinct
      obtain ⟨first, second, between⟩ := List.nodup_append.mp both
      rw [List.length_cons, List.length_append] at enough
      obtain ⟨bound, rfl⟩ : ∃ more, bound = more + 1 := ⟨bound - 1, by omega⟩
      have roomBelow : below.length ≤ bound := by omega
      have roomLater : later.length ≤ bound := by omega
      have here : node ∉ released := fresh node List.mem_cons_self
      have notBelow : node ∉ below := fun member =>
        apart (List.mem_append_left later member)
      have notLater : node ∉ later := fun member =>
        apart (List.mem_append_right below member)
      obtain ⟨front, goes, isBelow⟩ :=
        innerHypothesis first roomBelow fun other member =>
          fresh other
            (List.mem_cons_of_mem node (List.mem_append_left later member))
      have still : node ∉ released ++ front := by
        rw [List.mem_append]
        rintro (before | inside)
        · exact here before
        · exact notBelow (isBelow.mem_iff.mp inside)
      have unread : ∀ other ∈ later, other ∉ released ++ front ++ [node] := by
        intro other member
        rw [List.mem_append, List.mem_append, List.mem_singleton]
        rintro ((before | inside) | rfl)
        · exact
            fresh other
              (List.mem_cons_of_mem node (List.mem_append_right below member))
              before
        · exact between other (isBelow.mem_iff.mp inside) other member rfl
        · exact notLater member
      obtain ⟨back, ends, isLater⟩ := restHypothesis second roomLater unread
      refine ⟨front ++ node :: back, ?_, ?_⟩
      · rw [SiblingForest.release, if_neg here, goes]
        dsimp only
        rw [if_neg still, ends]
        simp only [List.append_assoc, List.cons_append, List.nil_append]
      · exact
          List.perm_middle.trans (List.Perm.cons node (isBelow.append isLater))

end Yimmo.Lib.SiblingForest
