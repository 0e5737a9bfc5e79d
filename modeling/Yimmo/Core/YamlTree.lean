import Mathlib.Data.List.Nodup
import Yimmo.Core.YamlDocuments
import Yimmo.Lib.LinkedList

/-!
# The tree of a YAML document

`Mirrors` says that a node and the nodes below it are a value: the children of a
sequence are its items, the children of a mapping are its keys, and the only child
of a key is its value.  It lists the nodes of the tree in the order of the
document, so that a tree without sharing is one whose list has no node twice.

A new node only changes the links of its parent and of its siblings.  `Grown` is
what is left of a document after more nodes have been created below one node, and
a tree that does not hold this node is still there.
-/

namespace Yimmo.Core.YamlTree

open Yimmo.Core.Yaml
open Yimmo.Core.YamlDocuments
open Yimmo.Lib.ByteMemory
open Yimmo.Lib.LinkedList

variable
    {yaml : YamlState}
    {id : Nat}

/-! ## Children -/

/-- The successors of the nodes in their lists. -/
def nextOf (nodes : Nat → YamlNode) (id : Nat) : Option Nat :=
  (nodes id).next

/-- The list of the children of a node. -/
structure Children
    (nodes : Nat → YamlNode)
    (id : Nat)
    (kids : List Nat) : Prop where
  linked : Linked (nextOf nodes) (nodes id).child kids
  parents : ∀ kid ∈ kids, (nodes kid).parent = some id

/-- A created node with its children. -/
structure Owner
    (yaml : YamlState)
    (id : Nat)
    (kids : List Nat) : Prop where
  inside : id < yaml.created
  kidsInside : ∀ kid ∈ kids, kid < yaml.created
  children : Children yaml.nodes id kids

/-- What is left after more nodes are created below a place. -/
structure Grown
    (before after : YamlState)
    (place : Option Nat) : Prop where
  created : before.created ≤ after.created
  kept : ∀ id < before.created, Kept (before.nodes id) (after.nodes id)
  child :
    ∀ id < before.created, some id ≠ place →
      (after.nodes id).child = (before.nodes id).child
  next :
    ∀ id < before.created, (before.nodes id).parent ≠ place →
      (after.nodes id).next = (before.nodes id).next
  endAt : before.doc.endAt ≤ after.doc.endAt
  buffer :
    ∀ offset < before.doc.endAt,
      after.doc.buffer offset = before.doc.buffer offset
  len : after.doc.len = before.doc.len
  root : ∀ id, before.doc.root = some id → after.doc.root = some id

section

variable
  {before between after : YamlState}
  {place : Option Nat}

theorem Grown.refl (yaml : YamlState) (place : Option Nat) :
    Grown yaml yaml place where
  created := Nat.le_refl _
  kept _ _ := ⟨rfl, rfl, rfl⟩
  child _ _ _ := rfl
  next _ _ _ := rfl
  endAt := Nat.le_refl _
  buffer _ _ := rfl
  len := rfl
  root _ isRoot := isRoot

/-- Nodes below a new node are nodes below its place, if parents are older. -/
theorem Grown.trans {later : Option Nat}
    (grown : Grown before between place)
    (more : Grown between after later)
    (below :
      ∀ id < before.created,
        (some id = later → some id = place) ∧
          ((before.nodes id).parent = later →
            (before.nodes id).parent = place)) :
    Grown before after place where
  created := Nat.le_trans grown.created more.created
  kept id inside :=
    (grown.kept id inside).trans
      (more.kept id (Nat.lt_of_lt_of_le inside grown.created))
  child id inside other := by
    have created := Nat.lt_of_lt_of_le inside grown.created
    rw [more.child id created fun same => other ((below id inside).1 same),
      grown.child id inside other]
  next id inside other := by
    have created := Nat.lt_of_lt_of_le inside grown.created
    have parent := (grown.kept id inside).parent
    rw [more.next id created, grown.next id inside other]
    rw [parent]
    exact fun same => other ((below id inside).2 same)
  endAt := Nat.le_trans grown.endAt more.endAt
  buffer offset inFront := by
    rw [more.buffer offset (Nat.lt_of_lt_of_le inFront grown.endAt),
      grown.buffer offset inFront]
  len := more.len.trans grown.len
  root id isRoot := more.root id (grown.root id isRoot)

theorem Grown.trans_same (grown : Grown before between place)
    (more : Grown between after place) :
    Grown before after place :=
  grown.trans more fun _ _ => ⟨id, id⟩

theorem Children.grown {id : Nat} {kids : List Nat}
    (children : Children before.nodes id kids)
    (grown : Grown before after place)
    (inside : id < before.created)
    (kidsInside : ∀ kid ∈ kids, kid < before.created)
    (other : some id ≠ place) :
    Children after.nodes id kids where
  linked := by
    rw [grown.child id inside other]
    refine children.linked.congr fun kid member => ?_
    have parent := children.parents kid member
    exact grown.next kid (kidsInside kid member) (by rwa [parent])
  parents kid member := by
    rw [(grown.kept kid (kidsInside kid member)).parent]
    exact children.parents kid member

theorem Owner.grown {id : Nat} {kids : List Nat} (owner : Owner before id kids)
    (grown : Grown before after place)
    (other : some id ≠ place) :
    Owner after id kids where
  inside := Nat.lt_of_lt_of_le owner.inside grown.created
  kidsInside kid member :=
    Nat.lt_of_lt_of_le (owner.kidsInside kid member) grown.created
  children := owner.children.grown grown owner.inside owner.kidsInside other

end

/-! ## A new node -/

theorem ymoListAppend_child (nodes : Nat → YamlNode) (last current id : Nat) :
    (ymoListAppend nodes last current id).child = (nodes id).child := by
  unfold ymoListAppend
  by_cases new : id = current
  · rw [new, Function.update_self]
    by_cases here : current = last
    · rw [here, Function.update_self]
    · rw [Function.update_of_ne here]
  · rw [Function.update_of_ne new]
    by_cases here : id = last
    · rw [here, Function.update_self]
    · rw [Function.update_of_ne here]

theorem ymoListAppend_next_other (nodes : Nat → YamlNode)
    {last current id : Nat}
    (notLast : id ≠ last)
    (notNew : id ≠ current) :
    (ymoListAppend nodes last current id).next = (nodes id).next := by
  rw [ymoListAppend, Function.update_of_ne notNew,
    Function.update_of_ne notLast]

/-- The appended node follows the last one, and nothing follows it. -/
theorem nextOf_ymoListAppend {nodes : Nat → YamlNode} {last current : Nat}
    (apart : last ≠ current)
    (leaf : (nodes current).next = none) :
    nextOf (ymoListAppend nodes last current) =
      Function.update (nextOf nodes) last (some current) := by
  funext id
  by_cases new : id = current
  · subst new
    rw [Function.update_of_ne apart.symm, nextOf, nextOf, leaf,
      ymoListAppend, Function.update_self]
  · by_cases here : id = last
    · subst here
      rw [Function.update_self, nextOf, ymoListAppend,
        Function.update_of_ne new, Function.update_self]
    · rw [Function.update_of_ne here]
      exact ymoListAppend_next_other nodes here new

/-- With enough steps, the loop finds the last node of a list. -/
theorem ymoListLast_eq {nodes : Nat → YamlNode} {bound head : Nat}
    {kids : List Nat}
    (linked : Linked (nextOf nodes) (some head) kids)
    (enough : kids.length ≤ bound + 1) :
    kids.getLast? = some (ymoListLast nodes bound head) := by
  induction bound generalizing head kids with
  | zero =>
      obtain ⟨rest, rfl, -⟩ := linked.of_some
      have none : rest = [] := List.length_eq_zero_iff.mp (by
        rw [List.length_cons] at enough
        omega)
      rw [none, ymoListLast]
      rfl
  | succ bound ih =>
      obtain ⟨rest, rfl, tail⟩ := linked.of_some
      unfold nextOf at tail
      cases later : (nodes head).next with
      | none =>
          rw [later] at tail
          cases tail
          rw [ymoListLast, later]
          rfl
      | some next =>
          rw [later] at tail
          rw [ymoListLast, later]
          dsimp only
          rw [← ih tail (Nat.le_of_succ_le_succ enough)]
          obtain ⟨others, rfl, -⟩ := tail.of_some
          exact List.getLast?_cons_cons

theorem length_le_of_inside {ids : List Nat} {count : Nat}
    (distinct : ids.Nodup)
    (inside : ∀ id ∈ ids, id < count) :
    ids.length ≤ count := by
  have subset : ids ⊆ List.range count := fun id member =>
    List.mem_range.mpr (inside id member)
  have := (List.subperm_of_subset distinct subset).length_le
  rwa [List.length_range] at this

section

variable
  {yaml : YamlState}
  {parent : Nat}
  {kids : List Nat}

/-- The links that a new node changes. -/
theorem linkChild_links (owner : Owner yaml parent kids) (node : YamlNode)
    (leaf : node.next = none ∧ node.child = none) :
    let nodes := Function.update yaml.nodes yaml.created node
    let later := linkChild nodes yaml.created (some parent) yaml.created
    Linked (nextOf later) (later parent).child (kids ++ [yaml.created]) ∧
      Linked (nextOf later) (later yaml.created).child [] ∧
      ∀ id < yaml.created,
        (id ≠ parent → (later id).child = (yaml.nodes id).child) ∧
          (id ∉ kids → (later id).next = (yaml.nodes id).next) := by
  intro nodes later
  have isNew : parent ≠ yaml.created := Nat.ne_of_lt owner.inside
  have old (id : Nat) (inside : id < yaml.created) :
      nodes id = yaml.nodes id :=
    Function.update_of_ne (Nat.ne_of_lt inside) ..
  have new : nodes yaml.created = node := Function.update_self ..
  have linked : Linked (nextOf nodes) (yaml.nodes parent).child kids :=
    owner.children.linked.congr fun kid member => by
      rw [nextOf, old kid (owner.kidsInside kid member)]
      rfl
  cases child : (yaml.nodes parent).child with
  | none =>
      rw [child] at linked
      cases linked
      have isLater : later =
          Function.update nodes parent
            { nodes parent with child := some yaml.created } := by
        simp only [later, linkChild, old parent owner.inside, child]
      have laterNew : later yaml.created = node := by
        rw [isLater, Function.update_of_ne isNew.symm, new]
      refine ⟨?_, ?_, ?_⟩
      · rw [isLater, Function.update_self, ← isLater]
        refine .cons ?_
        rw [nextOf, laterNew, leaf.1]
        exact .nil
      · rw [laterNew, leaf.2]
        exact .nil
      · intro id inside
        rw [isLater]
        by_cases here : id = parent
        · subst here
          rw [Function.update_self, old id inside]
          exact ⟨fun other => absurd rfl other, fun _ => rfl⟩
        · rw [Function.update_of_ne here, old id inside]
          exact ⟨fun _ => rfl, fun _ => rfl⟩
  | some head =>
      rw [child] at linked
      have enough := length_le_of_inside linked.nodup owner.kidsInside
      have isLast := ymoListLast_eq linked (Nat.le_succ_of_le enough)
      have isLater : later =
          ymoListAppend nodes (ymoListLast nodes yaml.created head)
            yaml.created := by
        simp only [later, linkChild, old parent owner.inside, child]
      generalize ymoListLast nodes yaml.created head = last at isLast isLater
      have member : last ∈ kids := List.mem_of_getLast? isLast
      have lastOld : last ≠ yaml.created :=
        Nat.ne_of_lt (owner.kidsInside last member)
      have nextNew : (nodes yaml.created).next = none := by rw [new, leaf.1]
      have notKid : yaml.created ∉ kids := fun wrong =>
        Nat.lt_irrefl _ (owner.kidsInside _ wrong)
      rw [isLater]
      refine ⟨?_, ?_, ?_⟩
      · rw [nextOf_ymoListAppend lastOld nextNew, ymoListAppend_child,
          old parent owner.inside, child]
        exact linked.concat isLast nextNew notKid
      · rw [ymoListAppend_child, new, leaf.2]
        exact .nil
      · intro id inside
        refine ⟨fun _ => ?_, fun outside => ?_⟩
        · rw [ymoListAppend_child, old id inside]
        · have notLast : id ≠ last := fun same => outside (same ▸ member)
          rw [ymoListAppend_next_other nodes notLast (Nat.ne_of_lt inside),
            old id inside]

/-- What `ymo_yaml_node_create` does to the nodes, for a parent with children. -/
structure Attached
    (yaml : YamlState)
    (parent : Nat)
    (kids : List Nat)
    (node : YamlNode)
    (later : YamlState) : Prop where
  created : later.created = yaml.created + 1
  owner : Owner later parent (kids ++ [yaml.created])
  new : Owner later yaml.created []
  kept : Kept node (later.nodes yaml.created)
  grown : Grown yaml later (some parent)

theorem attach_attached (owner : Owner yaml parent kids) {node : YamlNode}
    (leaf : node.next = none ∧ node.child = none)
    (isParent : node.parent = some parent)
    {endAt : Nat}
    (moves : yaml.doc.endAt ≤ endAt)
    (rNode : Option Nat) :
    Attached yaml parent kids node (attach yaml node endAt rNode).yaml := by
  have links := linkChild_links owner node leaf
  rw [← isParent] at links
  obtain ⟨ofParent, ofNew, others⟩ := links
  have keptNew := attach_kept_new yaml node endAt rNode
  have keptOld (id : Nat) := @attach_kept_old yaml node endAt rNode id
  have isNew : Owner (attach yaml node endAt rNode).yaml yaml.created [] :=
    ⟨Nat.lt_succ_self _, nofun, ofNew, nofun⟩
  refine ⟨rfl, ⟨?_, ?_, ofParent, ?_⟩, isNew, keptNew, ?_⟩
  · exact Nat.lt_succ_of_lt owner.inside
  · intro kid member
    rcases List.mem_append.mp member with old | new
    · exact Nat.lt_succ_of_lt (owner.kidsInside kid old)
    · rw [List.mem_singleton.mp new]
      exact Nat.lt_succ_self _
  · intro kid member
    rcases List.mem_append.mp member with old | new
    · rw [(keptOld kid (owner.kidsInside kid old)).parent]
      exact owner.children.parents kid old
    · rw [List.mem_singleton.mp new, ← isParent]
      exact keptNew.parent
  · refine ⟨Nat.le_succ _, keptOld, ?_, ?_, moves, fun _ _ => rfl, rfl, ?_⟩
    · intro id inside other
      exact (others id inside).1 fun same => other (congrArg some same)
    · intro id inside other
      refine (others id inside).2 fun member => ?_
      exact other (owner.children.parents id member)
    · intro id isRoot
      simp only [attach, isRoot, Option.some_or]

end

/-! ## Mirroring a value -/

/-- A node is a scalar with a text, up to a limit of the buffer. -/
structure IsText
    (yaml : YamlState)
    (limit id : Nat)
    (text : Bytes) : Prop where
  yType : (yaml.nodes id).yType = .scalar
  value :
    ∃ offset, (yaml.nodes id).value = .text offset ∧
      Terminated yaml.doc.buffer limit offset text
  noZero : 0 ∉ text

mutual

/-- The node and what is below it are the value, and these are the nodes. -/
def Mirrors (yaml : YamlState) (limit : Nat) :
    Value → Nat → List Nat → Prop
  | .scalar text, id, ids =>
      IsText yaml limit id text ∧ Children yaml.nodes id [] ∧ ids = [id]
  | .sequence items, id, ids =>
      (yaml.nodes id).yType = .sequence ∧
        ∃ kids below,
          Children yaml.nodes id kids ∧
            MirrorsItems yaml limit items kids below ∧ ids = id :: below
  | .mapping entries, id, ids =>
      (yaml.nodes id).yType = .object ∧
        ∃ kids below,
          Children yaml.nodes id kids ∧
            MirrorsEntries yaml limit entries kids below ∧ ids = id :: below

/-- The nodes are the items, in their order. -/
def MirrorsItems (yaml : YamlState) (limit : Nat) :
    Values → List Nat → List Nat → Prop
  | .nil, kids, ids => kids = [] ∧ ids = []
  | .cons item items, kids, ids =>
      ∃ kid others front back,
        kids = kid :: others ∧ ids = front ++ back ∧
          Mirrors yaml limit item kid front ∧
            MirrorsItems yaml limit items others back

/-- The nodes are the keys, in their order, each with its value. -/
def MirrorsEntries (yaml : YamlState) (limit : Nat) :
    Entries → List Nat → List Nat → Prop
  | .nil, kids, ids => kids = [] ∧ ids = []
  | .cons key value entries, kids, ids =>
      ∃ kid vNode others front back,
        kids = kid :: others ∧ ids = kid :: (front ++ back) ∧
          IsText yaml limit kid key ∧
            Children yaml.nodes kid [vNode] ∧
              Mirrors yaml limit value vNode front ∧
                MirrorsEntries yaml limit entries others back

end

/-! ## Trees that stay -/

theorem Mirrors.root_mem {limit : Nat} {value : Value} {ids : List Nat}
    (mirrors : Mirrors yaml limit value id ids) :
    id ∈ ids := by
  cases value with
  | scalar text =>
      rw [mirrors.2.2]
      exact List.mem_singleton_self id
  | sequence items =>
      obtain ⟨-, kids, below, -, -, rfl⟩ := mirrors
      exact List.mem_cons_self
  | mapping entries =>
      obtain ⟨-, kids, below, -, -, rfl⟩ := mirrors
      exact List.mem_cons_self

theorem MirrorsItems.kids_subset {yaml : YamlState} {limit : Nat}
    {items : Values}
    {kids ids : List Nat}
    (mirrors : MirrorsItems yaml limit items kids ids) :
    kids ⊆ ids := by
  match items with
  | .nil =>
      rw [mirrors.1]
      exact List.nil_subset _
  | .cons item items =>
      obtain ⟨kid, others, front, back, rfl, rfl, first, rest⟩ := mirrors
      rintro other (_ | ⟨_, member⟩)
      · exact List.mem_append_left back first.root_mem
      · exact List.mem_append_right front (rest.kids_subset member)

theorem MirrorsEntries.kids_subset {yaml : YamlState} {limit : Nat}
    {entries : Entries}
    {kids ids : List Nat}
    (mirrors : MirrorsEntries yaml limit entries kids ids) :
    kids ⊆ ids := by
  match entries with
  | .nil =>
      rw [mirrors.1]
      exact List.nil_subset _
  | .cons key value entries =>
      obtain ⟨kid, vNode, others, front, back, rfl, rfl, -, -, -, rest⟩ :=
        mirrors
      rintro other (_ | ⟨_, member⟩)
      · exact List.mem_cons_self
      · refine List.mem_cons_of_mem kid ?_
        exact List.mem_append_right front (rest.kids_subset member)

section

variable
  {before after : YamlState}
  {place : Option Nat}
  {limit higher : Nat}

theorem IsText.grown {id : Nat} {text : Bytes}
    (isText : IsText before limit id text)
    (grown : Grown before after place)
    (inside : id < before.created)
    (below : limit ≤ before.doc.endAt)
    (rises : limit ≤ higher) :
    IsText after higher id text := by
  obtain ⟨yType, ⟨offset, value, terminated⟩, noZero⟩ := isText
  have kept := grown.kept id inside
  refine ⟨by rw [kept.yType, yType], ⟨offset, ?_, ?_⟩, noZero⟩
  · rw [kept.value, value]
  · refine terminated.later (fun other inFront => ?_) rises
    exact grown.buffer other (Nat.lt_of_lt_of_le inFront below)

/-- The nodes of a tree are created, and none of them is the place. -/
def Away (yaml : YamlState) (place : Option Nat) (ids : List Nat) : Prop :=
  ∀ id ∈ ids, id < yaml.created ∧ some id ≠ place

theorem Away.of_subset {ids others : List Nat} (away : Away before place ids)
    (subset : others ⊆ ids) :
    Away before place others :=
  fun id member => away id (subset member)

mutual

/-- A tree is still there when nodes are created elsewhere. -/
theorem Mirrors.grown {value : Value} {id : Nat} {ids : List Nat}
    (mirrors : Mirrors before limit value id ids)
    (grown : Grown before after place)
    (away : Away before place ids)
    (below : limit ≤ before.doc.endAt)
    (rises : limit ≤ higher) :
    Mirrors after higher value id ids := by
  have here := away id mirrors.root_mem
  match value with
  | .scalar text =>
      obtain ⟨isText, children, rfl⟩ := mirrors
      refine ⟨isText.grown grown here.1 below rises, ?_, rfl⟩
      exact children.grown grown here.1 nofun here.2
  | .sequence items =>
      obtain ⟨yType, kids, rest, children, inner, rfl⟩ := mirrors
      have awayRest := away.of_subset (List.subset_cons_self id rest)
      refine ⟨by rw [(grown.kept id here.1).yType, yType],
        kids, rest, ?_, inner.grown grown awayRest below rises, rfl⟩
      refine children.grown grown here.1 (fun kid member => ?_) here.2
      exact (awayRest kid (inner.kids_subset member)).1
  | .mapping entries =>
      obtain ⟨yType, kids, rest, children, inner, rfl⟩ := mirrors
      have awayRest := away.of_subset (List.subset_cons_self id rest)
      refine ⟨by rw [(grown.kept id here.1).yType, yType],
        kids, rest, ?_, inner.grown grown awayRest below rises, rfl⟩
      refine children.grown grown here.1 (fun kid member => ?_) here.2
      exact (awayRest kid (inner.kids_subset member)).1

theorem MirrorsItems.grown {items : Values} {kids ids : List Nat}
    (mirrors : MirrorsItems before limit items kids ids)
    (grown : Grown before after place)
    (away : Away before place ids)
    (below : limit ≤ before.doc.endAt)
    (rises : limit ≤ higher) :
    MirrorsItems after higher items kids ids := by
  match items with
  | .nil => exact mirrors
  | .cons item items =>
      obtain ⟨kid, others, front, back, rfl, rfl, first, rest⟩ := mirrors
      have awayFront := away.of_subset (List.subset_append_left front back)
      have awayBack := away.of_subset (List.subset_append_right front back)
      exact ⟨kid, others, front, back, rfl, rfl,
        first.grown grown awayFront below rises,
        rest.grown grown awayBack below rises⟩

theorem MirrorsEntries.grown {entries : Entries} {kids ids : List Nat}
    (mirrors : MirrorsEntries before limit entries kids ids)
    (grown : Grown before after place)
    (away : Away before place ids)
    (below : limit ≤ before.doc.endAt)
    (rises : limit ≤ higher) :
    MirrorsEntries after higher entries kids ids := by
  match entries with
  | .nil => exact mirrors
  | .cons key value entries =>
      obtain ⟨kid, vNode, others, front, back, rfl, rfl, isText, children,
        first, rest⟩ := mirrors
      have here := away kid List.mem_cons_self
      have awayBoth := away.of_subset (List.subset_cons_self kid _)
      have awayFront := awayBoth.of_subset (List.subset_append_left front back)
      have awayBack := awayBoth.of_subset (List.subset_append_right front back)
      have vInside : ∀ node ∈ [vNode], node < before.created := by
        intro node member
        rw [List.mem_singleton.mp member]
        exact (awayFront vNode first.root_mem).1
      exact ⟨kid, vNode, others, front, back, rfl, rfl,
        isText.grown grown here.1 below rises,
        children.grown grown here.1 vInside here.2,
        first.grown grown awayFront below rises,
        rest.grown grown awayBack below rises⟩

end

end

/-! ## Counting the nodes -/

section

variable
  {yaml : YamlState}
  {limit : Nat}

mutual

/-- The tree has one node for each part of the value. -/
theorem Mirrors.length_eq {value : Value} {id : Nat} {ids : List Nat}
    (mirrors : Mirrors yaml limit value id ids) :
    ids.length = value.size := by
  match value with
  | .scalar text =>
      rw [mirrors.2.2]
      rfl
  | .sequence items =>
      obtain ⟨-, kids, rest, -, inner, rfl⟩ := mirrors
      rw [List.length_cons, inner.length_eq, Value.size]
  | .mapping entries =>
      obtain ⟨-, kids, rest, -, inner, rfl⟩ := mirrors
      rw [List.length_cons, inner.length_eq, Value.size]

theorem MirrorsItems.length_eq {items : Values} {kids ids : List Nat}
    (mirrors : MirrorsItems yaml limit items kids ids) :
    ids.length = items.size := by
  match items with
  | .nil =>
      rw [mirrors.2]
      rfl
  | .cons item items =>
      obtain ⟨kid, others, front, back, rfl, rfl, first, rest⟩ := mirrors
      rw [List.length_append, first.length_eq, rest.length_eq, Values.size]

theorem MirrorsEntries.length_eq {entries : Entries} {kids ids : List Nat}
    (mirrors : MirrorsEntries yaml limit entries kids ids) :
    ids.length = entries.size := by
  match entries with
  | .nil =>
      rw [mirrors.2]
      rfl
  | .cons key value entries =>
      obtain ⟨kid, vNode, others, front, back, rfl, rfl, -, -, first, rest⟩ :=
        mirrors
      rw [List.length_cons, List.length_append, first.length_eq,
        rest.length_eq, Entries.size]
      omega

end

mutual

/-- A text that is read from the buffer has no zero byte. -/
theorem Mirrors.noZero {value : Value} {id : Nat} {ids : List Nat}
    (mirrors : Mirrors yaml limit value id ids) :
    ∀ text ∈ value.texts, 0 ∉ text := by
  match value with
  | .scalar text => exact List.forall_mem_singleton.mpr mirrors.1.noZero
  | .sequence items =>
      obtain ⟨-, kids, rest, -, inner, -⟩ := mirrors
      exact inner.noZero
  | .mapping entries =>
      obtain ⟨-, kids, rest, -, inner, -⟩ := mirrors
      exact inner.noZero

theorem MirrorsItems.noZero {items : Values} {kids ids : List Nat}
    (mirrors : MirrorsItems yaml limit items kids ids) :
    ∀ text ∈ items.texts, 0 ∉ text := by
  match items with
  | .nil => exact nofun
  | .cons item items =>
      obtain ⟨kid, others, front, back, -, -, first, rest⟩ := mirrors
      exact List.forall_mem_append.mpr ⟨first.noZero, rest.noZero⟩

theorem MirrorsEntries.noZero {entries : Entries} {kids ids : List Nat}
    (mirrors : MirrorsEntries yaml limit entries kids ids) :
    ∀ text ∈ entries.texts, 0 ∉ text := by
  match entries with
  | .nil => exact nofun
  | .cons key value entries =>
      obtain ⟨kid, vNode, others, front, back, -, -, isText, -, first, rest⟩ :=
        mirrors
      refine List.forall_mem_append.mpr
        ⟨List.forall_mem_singleton.mpr isText.noZero, ?_⟩
      exact List.forall_mem_append.mpr ⟨first.noZero, rest.noZero⟩

end

end

/-! ## Looking up a key -/

/-- There is a tree of the value at the node: its nodes are created ones, and none
of them has two places. -/
def TreeAt (yaml : YamlState) (value : Value) (id : Nat) : Prop :=
  ∃ ids,
    Mirrors yaml yaml.doc.len.toNat value id ids ∧ ids.Nodup ∧
      ∀ node ∈ ids, node < yaml.created

theorem IsText.keyMatches_eq {text : Bytes}
    (isText : IsText yaml yaml.doc.len.toNat id text)
    (key : Bytes) :
    keyMatches yaml id key = strcaseEqual text key := by
  obtain ⟨-, ⟨offset, value, terminated⟩, noZero⟩ := isText
  simp only [keyMatches, value, nodeString, terminated.readString,
    cString_of_not_mem noZero]

/-- The loop finds the value of the first key that is the wanted one. -/
theorem MirrorsEntries.loop {yaml : YamlState} {entries : Entries}
    {kids ids : List Nat}
    (mirrors : MirrorsEntries yaml yaml.doc.len.toNat entries kids ids)
    {head : Option Nat}
    (linked : Linked (nextOf yaml.nodes) head kids)
    (distinct : ids.Nodup)
    (inside : ∀ node ∈ ids, node < yaml.created)
    {bound : Nat}
    (enough : kids.length ≤ bound)
    (key : Bytes) :
    Option.Rel (TreeAt yaml) (entries.get key)
      (objectGetLoop yaml key bound head).node := by
  match entries with
  | .nil =>
      rw [mirrors.1] at linked
      cases linked
      cases bound <;> exact .none
  | .cons text value entries =>
      obtain ⟨kid, vNode, others, front, back, rfl, rfl, isText, children,
        first, rest⟩ := mirrors
      obtain ⟨rfl, tail⟩ := linked.of_cons
      obtain ⟨bound, rfl⟩ : ∃ more, bound = more + 1 :=
        ⟨bound - 1, by rw [List.length_cons] at enough; omega⟩
      have both := (List.nodup_cons.mp distinct).2
      rw [List.nodup_append] at both
      rw [objectGetLoop, if_pos isText.yType, isText.keyMatches_eq,
        Entries.get]
      by_cases found : strcaseEqual text key = true
      · rw [if_pos found, if_pos found, children.linked.of_cons.1]
        refine .some ⟨front, first, both.1, fun node member => ?_⟩
        refine inside node (List.mem_cons_of_mem kid ?_)
        exact List.mem_append_left back member
      · rw [if_neg found, if_neg found]
        refine rest.loop tail both.2.1 (fun node member => ?_)
          (Nat.le_of_succ_le_succ enough) key
        refine inside node (List.mem_cons_of_mem kid ?_)
        exact List.mem_append_right front member

theorem MirrorsEntries.length_le {yaml : YamlState} {limit : Nat}
    {entries : Entries}
    {kids ids : List Nat}
    (mirrors : MirrorsEntries yaml limit entries kids ids) :
    kids.length ≤ ids.length := by
  match entries with
  | .nil =>
      rw [mirrors.1]
      exact Nat.zero_le _
  | .cons key value entries =>
      obtain ⟨kid, vNode, others, front, back, rfl, rfl, -, -, -, rest⟩ :=
        mirrors
      have := rest.length_le
      simp only [List.length_cons, List.length_append]
      omega

/-- In a tree, a key of a mapping has exactly its own value. -/
theorem TreeAt.object_get {entries : Entries}
    (tree : TreeAt yaml (.mapping entries) id)
    (key : Bytes) :
    Option.Rel (TreeAt yaml) (entries.get key)
      (ymoYamlObjectGet yaml (some id) key).node := by
  obtain ⟨ids, ⟨yType, kids, below, children, inner, rfl⟩, distinct,
    inside⟩ := tree
  have isObject : ¬(yaml.nodes id).yType ≠ .object := not_not_intro yType
  have belowInside (node : Nat) (member : node ∈ below) :
      node < yaml.created :=
    inside node (List.mem_cons_of_mem id member)
  have belowDistinct := (List.nodup_cons.mp distinct).2
  rw [ymoYamlObjectGet, if_neg isObject]
  refine inner.loop children.linked belowDistinct belowInside ?_ key
  exact Nat.le_trans inner.length_le
    (length_le_of_inside belowDistinct belowInside)

end Yimmo.Core.YamlTree
