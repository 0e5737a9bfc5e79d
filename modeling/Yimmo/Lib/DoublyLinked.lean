import Yimmo.Lib.LinkedList

/-!
# Doubly linked lists of nodes

`Chained next prev nodes` says that the successor and the predecessor of each
node are its neighbours in the list.  From the front the nodes are then a linked
list by `next`, and from the back by `prev`.

A node is linked in or out between the nodes `front` in front of it and the nodes
`back` behind it; the links that change are those of the last node of `front` and
of the first one of `back`, where there are such nodes.
-/

namespace Yimmo.Lib.DoublyLinked

open Yimmo.Lib.LinkedList

variable
    {Node : Type*}
    {node : Node}

/-- The neighbours in the list are the successors and the predecessors. -/
def Chained (next prev : Node → Option Node) (nodes : List Node) : Prop :=
  ∀ front node back,
    nodes = front ++ node :: back →
      next node = back.head? ∧ prev node = front.getLast?

section

variable
  {next prev : Node → Option Node}
  {nodes : List Node}

theorem chained_nil : Chained next prev [] := by
  intro front node back split
  cases front with
  | nil => nomatch split
  | cons first front => nomatch split

/-- From the front, the nodes are linked by their successors. -/
theorem Chained.forward (chained : Chained next prev nodes) :
    Linked next nodes.head? nodes := by
  have goesOn :
      ∀ back front, nodes = front ++ back → Linked next back.head? back := by
    intro back
    induction back with
    | nil =>
        intro front split
        exact .nil
    | cons node back ih =>
        intro front split
        apply Linked.cons
        rw [(chained front node back split).1]
        apply ih (front ++ [node])
        rw [split, List.append_assoc]
        rfl
  exact goesOn nodes [] rfl

/-- From the back, they are linked by their predecessors. -/
theorem Chained.backward (chained : Chained next prev nodes) :
    Linked prev nodes.getLast? nodes.reverse := by
  have mirrored : Chained prev next nodes.reverse := by
    intro front node back split
    have straight : nodes = back.reverse ++ node :: front.reverse := by
      rw [← List.reverse_reverse nodes, split, List.reverse_append,
        List.reverse_cons, List.append_assoc]
      rfl
    have links := chained back.reverse node front.reverse straight
    rw [List.head?_reverse, List.getLast?_reverse] at links
    exact ⟨links.2, links.1⟩
  have linked := mirrored.forward
  rw [List.head?_reverse] at linked
  exact linked

theorem Chained.nodup (chained : Chained next prev nodes) : nodes.Nodup :=
  chained.forward.nodup

/-- The chain only depends on the links of its nodes. -/
theorem Chained.congr (chained : Chained next prev nodes)
    {laterNext laterPrev : Node → Option Node}
    (sameNext : ∀ node ∈ nodes, laterNext node = next node)
    (samePrev : ∀ node ∈ nodes, laterPrev node = prev node) :
    Chained laterNext laterPrev nodes := by
  intro front node back split
  have member : node ∈ nodes := by
    rw [split]
    exact List.mem_append_right front List.mem_cons_self
  rw [sameNext node member, samePrev node member]
  exact chained front node back split

end

/-! ## Changing a link -/

variable [DecidableEq Node]

/-- The links after the one of a node is set, if there is a node. -/
def setLink (links : Node → Option Node) :
    Option Node → Option Node → Node → Option Node
  | some node, target => Function.update links node target
  | none, _ => links

theorem setLink_other (links : Node → Option Node) {place : Option Node}
    (target : Option Node)
    (other : place ≠ some node) :
    setLink links place target node = links node := by
  cases place with
  | none => rfl
  | some changed =>
      rw [setLink, Function.update_of_ne]
      intro same
      exact other (congrArg some same.symm)

theorem setLink_same (links : Node → Option Node) (node : Node)
    (target : Option Node) :
    setLink links (some node) target node = target := by
  rw [setLink, Function.update_self]

/-- Links of different nodes are set in any order. -/
theorem setLink_update (links : Node → Option Node) {place : Option Node}
    (other : place ≠ some node)
    (target link : Option Node) :
    setLink (Function.update links node link) place target =
      Function.update (setLink links place target) node link := by
  cases place with
  | none => rfl
  | some changed =>
      have different : changed ≠ node := fun same => other (congrArg some same)
      exact Function.update_comm different.symm link target links

/-- The link of the last node is the one that is set. -/
theorem setLink_last (links : Node → Option Node) (target : Option Node)
    {before rest : List Node}
    (distinct : (before ++ node :: rest).Nodup) :
    setLink links (before ++ node :: rest).getLast? target node =
      if rest = [] then target else links node := by
  cases rest with
  | nil => rw [List.getLast?_concat, setLink_same, if_pos rfl]
  | cons first rest =>
      rw [if_neg (List.cons_ne_nil first rest)]
      apply setLink_other
      intro isLast
      rw [List.getLast?_append_cons, List.getLast?_cons_cons] at isLast
      have alone := (List.nodup_append.mp distinct).2.1
      exact (List.nodup_cons.mp alone).1 (List.mem_of_getLast? isLast)

/-- The link of the first node is the one that is set. -/
theorem setLink_head (links : Node → Option Node) (target : Option Node)
    {rest after : List Node}
    (distinct : (rest ++ node :: after).Nodup) :
    setLink links (rest ++ node :: after).head? target node =
      if rest = [] then target else links node := by
  cases rest with
  | nil => rw [List.nil_append, List.head?_cons, setLink_same, if_pos rfl]
  | cons first rest =>
      rw [if_neg (List.cons_ne_nil first rest)]
      apply setLink_other
      intro isHead
      have here : first = node := Option.some.inj isHead
      subst here
      have outside := (List.nodup_cons.mp distinct).1
      exact outside (List.mem_append_right rest List.mem_cons_self)

/-! ## Linking a node in and out -/

section

variable
  {next prev : Node → Option Node}
  {front back : List Node}
  {node : Node}

omit [DecidableEq Node] in
/-- A node of a list of two parts stands in one of them. -/
theorem split_append {other : Node} {before after : List Node}
    (split : front ++ back = before ++ other :: after) :
    (∃ rest, front = before ++ other :: rest ∧ after = rest ++ back) ∨
      ∃ rest, back = rest ++ other :: after ∧ before = front ++ rest := by
  rcases List.append_eq_append_iff.mp split
    with ⟨rest, beforeEq, backEq⟩ | ⟨rest, frontEq, afterEq⟩
  · exact Or.inr ⟨rest, backEq, beforeEq⟩
  · cases rest with
    | nil =>
        refine Or.inr ⟨[], ?_, ?_⟩
        · exact afterEq.symm
        · rw [List.append_nil] at frontEq ⊢
          exact frontEq.symm
    | cons first rest =>
        rcases List.cons.inj afterEq with ⟨same, others⟩
        subst same
        exact Or.inl ⟨rest, frontEq, others⟩

/-- The node between the parts is linked out. -/
theorem Chained.unlink (chained : Chained next prev (front ++ node :: back)) :
    Chained
      (setLink next front.getLast? back.head?)
      (setLink prev back.head? front.getLast?)
      (front ++ back) := by
  have distinct := chained.nodup
  rw [List.nodup_append] at distinct
  rcases distinct with ⟨frontDistinct, backDistinct, apart⟩
  rcases List.nodup_cons.mp backDistinct with ⟨-, backDistinct⟩
  have apart : ∀ other ∈ front, other ∉ back := by
    intro other inFront inBack
    exact apart other inFront other (List.mem_cons_of_mem node inBack) rfl
  intro before other after split
  rcases split_append split with ⟨rest, rfl, rfl⟩ | ⟨rest, rfl, rfl⟩
  · have links :=
      chained before other (rest ++ node :: back) (by
        rw [List.append_assoc]
        rfl)
    constructor
    · rw [setLink_last next _ frontDistinct, links.1]
      cases rest with
      | nil => rfl
      | cons first rest => rfl
    · rw [setLink_other _ _ ?_, links.2]
      intro isHead
      exact
        apart other (List.mem_append_right before List.mem_cons_self)
          (List.mem_of_head? isHead)
  · have links :=
      chained (front ++ node :: rest) other after (by
        rw [List.append_assoc]
        rfl)
    constructor
    · rw [setLink_other _ _ ?_, links.1]
      intro isLast
      exact
        apart other (List.mem_of_getLast? isLast)
          (List.mem_append_right rest List.mem_cons_self)
    · rw [setLink_head prev _ backDistinct, links.2]
      cases rest with
      | nil => rw [if_pos rfl, List.append_nil]
      | cons first rest =>
          rw [if_neg (List.cons_ne_nil first rest),
            List.getLast?_append_cons, List.getLast?_cons_cons,
            List.getLast?_append_cons]

/-- A new node is linked in between the parts. -/
theorem Chained.link (chained : Chained next prev (front ++ back))
    (isNew : node ∉ front ++ back) :
    Chained
      (Function.update (setLink next front.getLast? (some node)) node
        back.head?)
      (Function.update (setLink prev back.head? (some node)) node
        front.getLast?)
      (front ++ node :: back) := by
  have distinct := chained.nodup
  rw [List.nodup_append] at distinct
  rcases distinct with ⟨frontDistinct, backDistinct, apart⟩
  have apart : ∀ other ∈ front, other ∉ back :=
    fun other inFront inBack => apart other inFront other inBack rfl
  have outFront : node ∉ front :=
    fun member => isNew (List.mem_append_left back member)
  have outBack : node ∉ back :=
    fun member => isNew (List.mem_append_right front member)
  intro before other after split
  rcases split_append split with ⟨rest, rfl, rfl⟩ | ⟨rest, behind, rfl⟩
  · have inFront : other ∈ before ++ other :: rest :=
      List.mem_append_right before List.mem_cons_self
    have different : other ≠ node := fun same => outFront (same ▸ inFront)
    have links :=
      chained before other (rest ++ back) (by
        rw [List.append_assoc]
        rfl)
    rw [Function.update_of_ne different, Function.update_of_ne different]
    constructor
    · rw [setLink_last next _ frontDistinct, links.1]
      cases rest with
      | nil => rfl
      | cons first rest => rfl
    · rw [setLink_other _ _ ?_, links.2]
      intro isHead
      exact apart other inFront (List.mem_of_head? isHead)
  · cases rest with
    | nil =>
        rcases List.cons.inj behind with ⟨rfl, rfl⟩
        rw [Function.update_self, Function.update_self, List.append_nil]
        exact ⟨rfl, rfl⟩
    | cons first rest =>
        rw [List.cons_append] at behind
        rcases List.cons.inj behind with ⟨rfl, rfl⟩
        have member : other ∈ rest ++ other :: after :=
          List.mem_append_right rest List.mem_cons_self
        have different : other ≠ node := fun same => outBack (same ▸ member)
        have links :=
          chained (front ++ rest) other after
            (List.append_assoc front rest _).symm
        rw [Function.update_of_ne different, Function.update_of_ne different]
        constructor
        · rw [setLink_other _ _ ?_, links.1]
          intro isLast
          exact apart other (List.mem_of_getLast? isLast) member
        · rw [setLink_head prev _ backDistinct, links.2]
          cases rest with
          | nil => rw [if_pos rfl, List.getLast?_concat]
          | cons second rest =>
              rw [if_neg (List.cons_ne_nil second rest),
                List.getLast?_append_cons, List.getLast?_append_cons,
                List.getLast?_cons_cons]

end

end Yimmo.Lib.DoublyLinked
