import Yimmo.Core.YamlParse
import Yimmo.Lib.SiblingForest

/-!
# The shape of the nodes of a YAML document

Whatever the events are, and wherever parsing ends, the children of a node are the
nodes created with it as their parent, in the order of their creation; a node
without a parent has no sibling; and the strings that a node is printed with go by
its type and its parent's.

So the nodes below the root are a forest, and `ymo_yaml_doc_free` gives each of
them back once.  A stream with a second document has a second node without a parent,
which the document does not know and which is not given back.
-/

namespace Yimmo.Core.YamlShape

open Yimmo.Core.StatusCode
open Yimmo.Core.Yaml
open Yimmo.Core.YamlRuns
open Yimmo.Core.YamlTree
open Yimmo.Core.YamlParse
open Yimmo.Lib.ByteMemory
open Yimmo.Lib.LinkedList
open Yimmo.Lib.SiblingForest

variable
    {yaml : YamlState}
    {parent : Option Nat}
    {endAt : Nat}

/-! ## The shape -/

/-- The nodes that were created with this one as their parent. -/
def kidsOf (yaml : YamlState) (id : Nat) : List Nat :=
  (List.range yaml.created).filter fun kid =>
    decide ((yaml.nodes kid).parent = some id)

/-- The strings that a node is printed with. -/
structure Marked (nodes : Nat → YamlNode) (node : YamlNode) : Prop where
  scalar :
    node.yType = .scalar →
      ∀ parent, node.parent = some parent →
        node.terminal = if (nodes parent).yType = .object then ":" else ""
  sequence :
    node.yType = .sequence → node.value = .literal "[" ∧ node.terminal = "]"
  object :
    node.yType = .object →
      node.value = .literal "\x7b" ∧ node.terminal = "\x7d"

/-- The nodes that were created are linked and marked as they should be. -/
structure Shaped (yaml : YamlState) : Prop where
  sound : Sound yaml
  owner : ∀ id < yaml.created, Owner yaml id (kidsOf yaml id)
  alone :
    ∀ id < yaml.created,
      (yaml.nodes id).parent = none → (yaml.nodes id).next = none
  marked : ∀ id < yaml.created, Marked yaml.nodes (yaml.nodes id)
  root : yaml.doc.root = if yaml.created = 0 then none else some 0

theorem mem_kidsOf {id kid : Nat} :
    kid ∈ kidsOf yaml id ↔
      kid < yaml.created ∧ (yaml.nodes kid).parent = some id := by
  rw [kidsOf, List.mem_filter, List.mem_range, decide_eq_true_iff]

/-- A new node is the last one created with its parent. -/
theorem kidsOf_attach (node : YamlNode) (endAt : Nat) (rNode : Option Nat)
    (id : Nat) :
    kidsOf (attach yaml node endAt rNode).yaml id =
      kidsOf yaml id ++
        if node.parent = some id then [yaml.created] else [] := by
  have new := (attach_kept_new yaml node endAt rNode).parent
  have old (kid : Nat) (inside : kid < yaml.created) :=
    (attach_kept_old yaml node endAt rNode inside).parent
  unfold kidsOf
  rw [show (attach yaml node endAt rNode).yaml.created =
    yaml.created + 1 from rfl, List.range_succ, List.filter_append]
  congr 1
  · apply List.filter_congr
    intro kid member
    rw [old kid (List.mem_range.mp member)]
  · rw [List.filter_singleton, new]
    by_cases here : node.parent = some id
    · rw [if_pos here, decide_eq_true here]
      rfl
    · rw [if_neg here, decide_eq_false here]
      rfl

/-- A node keeps the string that is printed after it. -/
theorem linkChild_terminal (nodes : Nat → YamlNode) (bound : Nat)
    (parent : Option Nat)
    (node id : Nat) :
    (linkChild nodes bound parent node id).terminal = (nodes id).terminal := by
  have update :
      ∀ (nodes : Nat → YamlNode) (changed : Nat) (new : YamlNode),
        new.terminal = (nodes changed).terminal →
          (Function.update nodes changed new id).terminal =
            (nodes id).terminal := by
    intro nodes changed new same
    by_cases here : id = changed
    · rw [here, Function.update_self, same]
    · rw [Function.update_of_ne here]
  cases parent with
  | none => rfl
  | some owner =>
      cases child : (nodes owner).child with
      | none =>
          simp only [linkChild, child]
          exact update nodes owner _ rfl
      | some head =>
          simp only [linkChild, child, ymoListAppend]
          refine (update _ node _ ?_).trans (update nodes _ _ ?_)
          · rfl
          · rfl

section

variable
  {yaml : YamlState}
  {node : YamlNode}

/-- A node without a parent changes no link. -/
theorem nodes_attach_of_none (isParent : node.parent = none) (endAt : Nat)
    (rNode : Option Nat) :
    (attach yaml node endAt rNode).yaml.nodes =
      Function.update yaml.nodes yaml.created node := by
  simp only [attach, isParent, linkChild]

/-- The links after a node was created. -/
theorem Shaped.links (shaped : Shaped yaml) (valid : Valid yaml node.parent)
    (leaf : node.next = none ∧ node.child = none)
    (moves : yaml.doc.endAt ≤ endAt)
    (rNode : Option Nat) :
    (∀ id ≤ yaml.created,
        Owner (attach yaml node endAt rNode).yaml id
          (kidsOf (attach yaml node endAt rNode).yaml id)) ∧
      ∀ id ≤ yaml.created,
        ((attach yaml node endAt rNode).yaml.nodes id).parent = none →
          ((attach yaml node endAt rNode).yaml.nodes id).next = none := by
  have new := attach_kept_new yaml node endAt rNode
  have old (id : Nat) := @attach_kept_old yaml node endAt rNode id
  have childless : kidsOf yaml yaml.created = [] := by
    rw [List.eq_nil_iff_forall_not_mem]
    intro kid member
    rw [mem_kidsOf] at member
    exact Nat.lt_asymm member.1 (shaped.sound.older kid member.1 _ member.2)
  cases isParent : node.parent with
  | none =>
      have nodes :
          (attach yaml node endAt rNode).yaml.nodes =
            Function.update yaml.nodes yaml.created node :=
        nodes_attach_of_none isParent endAt rNode
      constructor
      · intro id bound
        rw [kidsOf_attach, isParent, if_neg (Option.some_ne_none id).symm,
          List.append_nil]
        rcases Nat.lt_or_eq_of_le bound with before | rfl
        · have owner := shaped.owner id before
          refine
            ⟨Nat.lt_succ_of_lt before,
              fun kid member =>
                Nat.lt_succ_of_lt (owner.kidsInside kid member),
              ?_, fun kid member => ?_⟩
          · rw [nodes, Function.update_of_ne (Nat.ne_of_lt before)]
            refine owner.children.linked.congr fun kid member => ?_
            have inside := owner.kidsInside kid member
            rw [nextOf, Function.update_of_ne (Nat.ne_of_lt inside)]
            rfl
          · rw [(old kid (owner.kidsInside kid member)).parent]
            exact owner.children.parents kid member
        · rw [childless]
          have no (kid : Nat) : kid ∉ [] := List.not_mem_nil
          refine
            ⟨Nat.lt_succ_self _, fun kid member => absurd member (no kid),
              ?_, fun kid member => absurd member (no kid)⟩
          rw [nodes, Function.update_self, leaf.2]
          exact .nil
      · intro id bound isNone
        rcases Nat.lt_or_eq_of_le bound with before | rfl
        · rw [nodes, Function.update_of_ne (Nat.ne_of_lt before)] at isNone ⊢
          exact shaped.alone id before isNone
        · rw [nodes, Function.update_self]
          exact leaf.1
  | some parent =>
      have inside := valid parent isParent
      have attached :=
        attach_attached (shaped.owner parent inside) leaf isParent moves rNode
      constructor
      · intro id bound
        rw [kidsOf_attach, isParent]
        rcases Nat.lt_or_eq_of_le bound with before | rfl
        · by_cases here : parent = id
          · subst here
            rw [if_pos rfl]
            exact attached.owner
          · rw [if_neg fun same => here (Option.some.inj same),
              List.append_nil]
            exact
              (shaped.owner id before).grown attached.grown
                fun same => here (Option.some.inj same).symm
        · rw [if_neg fun same =>
            Nat.ne_of_lt inside (Option.some.inj same), childless]
          exact attached.new
      · intro id bound isNone
        rcases Nat.lt_or_eq_of_le bound with before | rfl
        · rw [(old id before).parent] at isNone
          rw [attached.grown.next id before
            (by rw [isNone]; exact (Option.some_ne_none parent).symm)]
          exact shaped.alone id before isNone
        · rw [new.parent, isParent] at isNone
          cases isNone

/-- Creating a node keeps the shape. -/
theorem Shaped.attach (shaped : Shaped yaml) (valid : Valid yaml node.parent)
    (ordinary : node.yType ≠ .error)
    (leaf : node.next = none ∧ node.child = none)
    (marked : Marked yaml.nodes node)
    (moves : yaml.doc.endAt ≤ endAt)
    {rNode : Option Nat}
    (first : yaml.created = 0 → rNode = some 0) :
    Shaped (Yaml.attach yaml node endAt rNode).yaml := by
  have new := attach_kept_new yaml node endAt rNode
  have old (id : Nat) := @attach_kept_old yaml node endAt rNode id
  have links := shaped.links valid leaf moves rNode
  have terminal (id : Nat) :=
    linkChild_terminal
      (Function.update yaml.nodes yaml.created node) yaml.created
      node.parent yaml.created id
  refine
    { sound := shaped.sound.attach valid ordinary endAt rNode
      owner := fun id inside => links.1 id (Nat.le_of_lt_succ inside)
      alone := fun id inside => links.2 id (Nat.le_of_lt_succ inside)
      marked := ?_
      root := ?_ }
  · intro id inside
    -- a parent is an older node, and keeps its type
    have parents :
        ∀ {before after : YamlNode},
          Kept before after →
            after.terminal = before.terminal →
              Valid yaml before.parent →
                Marked yaml.nodes before →
                  Marked (Yaml.attach yaml node endAt rNode).yaml.nodes
                    after := by
      intro before after kept same created marked
      refine ⟨?_, ?_, ?_⟩
      · intro yType parent isParent
        rw [kept.yType] at yType
        rw [kept.parent] at isParent
        rw [same, (old parent (created parent isParent)).yType]
        exact marked.scalar yType parent isParent
      · intro yType
        rw [kept.yType] at yType
        rw [same, kept.value]
        exact marked.sequence yType
      · intro yType
        rw [kept.yType] at yType
        rw [same, kept.value]
        exact marked.object yType
    rcases Nat.lt_succ_iff_lt_or_eq.mp inside with before | rfl
    · refine parents (old id before) ?_ ?_ (shaped.marked id before)
      · refine (terminal id).trans ?_
        rw [Function.update_of_ne (Nat.ne_of_lt before)]
      · intro parent isParent
        exact
          Nat.lt_trans (shaped.sound.older id before parent isParent) before
    · refine parents new ?_ valid marked
      refine (terminal yaml.created).trans ?_
      rw [Function.update_self]
  · show yaml.doc.root.or rNode = if yaml.created + 1 = 0 then none else some 0
    rw [if_neg (Nat.succ_ne_zero _), shaped.root]
    by_cases empty : yaml.created = 0
    · rw [if_pos empty, Option.none_or, first empty]
    · rw [if_neg empty]
      rfl

end

/-! ## Every run of the parser -/

/-- The result of popping is a node that was created. -/
theorem valid_popScalars (sound : Sound yaml) {node : Option Nat}
    (valid : Valid yaml node)
    (bound : Nat) :
    Valid yaml (popScalars yaml.nodes bound node) := by
  induction bound generalizing node with
  | zero => exact valid
  | succ bound ih =>
      cases node with
      | none => exact valid
      | some id =>
          have inside := valid id rfl
          rw [popScalars]
          split
          · apply ih
            intro parent isParent
            exact Nat.lt_trans (sound.older id inside parent isParent) inside
          · exact valid

/-- A node, its result and what it leaves, when a node is created. -/
structure Makes (yaml : YamlState) (result : Created) : Prop where
  shaped : Shaped result.yaml
  valid : Valid result.yaml result.node

theorem Shaped.bail (shaped : Shaped yaml) (errno : Errno) :
    Makes yaml (Yaml.bail yaml errno) :=
  ⟨shaped, fun _ same => absurd same.symm (Option.some_ne_none _)⟩

theorem Shaped.stored (shaped : Shaped yaml) (text : Scalar) :
    Shaped (YamlRuns.stored yaml text) where
  sound := ⟨shaped.sound.older, shaped.sound.ordinary⟩
  owner id inside :=
    have owner := shaped.owner id inside
    ⟨owner.inside, owner.kidsInside, owner.children⟩
  alone := shaped.alone
  marked := shaped.marked
  root := shaped.root

theorem valid_attach {node : YamlNode} {rNode : Option Nat}
    (valid : ∀ id, rNode = some id → id ≤ yaml.created) :
    Valid (attach yaml node endAt rNode).yaml rNode :=
  fun id same => Nat.lt_succ_of_le (valid id same)

theorem Shaped.createScalar (shaped : Shaped yaml) (valid : Valid yaml parent)
    (text : Scalar) :
    Makes yaml (Yaml.createScalar yaml parent text) := by
  cases parent with
  | none => exact shaped.bail .einval
  | some owner =>
      have inside := valid owner rfl
      have ordinary := shaped.sound.ordinary owner inside
      by_cases small : text.length + 1 < yaml.doc.remain
      · rw [createScalar_eq ordinary small]
        refine ⟨?_, ?_⟩
        · apply (shaped.stored text).attach
          · exact valid
          · exact YamlType.noConfusion
          · exact ⟨rfl, rfl⟩
          · refine ⟨?_, ?_, ?_⟩
            · intro _ parent isParent
              cases isParent
              rfl
            · intro yType
              cases yType
            · intro yType
              cases yType
          · exact Nat.le_trans (Nat.le_add_right _ _) (Nat.le_succ _)
          · intro empty
            change yaml.created = 0 at empty
            omega
        · apply valid_attach
          intro id same
          show id ≤ yaml.created
          change scalarReturn yaml owner = some id at same
          unfold scalarReturn at same
          cases yType : (yaml.nodes owner).yType with
          | error => exact absurd yType ordinary
          | scalar =>
              rw [yType] at same
              exact
                Nat.le_of_lt
                  (valid_popScalars shaped.sound valid yaml.created id same)
          | sequence =>
              rw [yType] at same
              cases same
              exact Nat.le_of_lt inside
          | object =>
              rw [yType] at same
              cases same
              exact Nat.le_refl _
      · rw [Yaml.createScalar]
        dsimp only
        rw [if_neg small]
        exact shaped.bail .efbig

/-- Every event keeps the shape. -/
theorem Shaped.nodeCreate (shaped : Shaped yaml) (valid : Valid yaml parent)
    (event : YamlEvent) :
    Makes yaml (ymoYamlNodeCreate yaml parent event) := by
  have collection :
      ∀ node : YamlNode,
        node.parent = parent →
          node.yType ≠ .error →
            node.next = none ∧ node.child = none →
              Marked yaml.nodes node →
                Makes yaml
                  (Yaml.attach yaml node yaml.doc.endAt
                    (some yaml.created)) := by
    intro node isParent ordinary leaf marked
    refine ⟨?_, ?_⟩
    · apply shaped.attach (isParent ▸ valid) ordinary leaf marked
      · exact Nat.le_refl _
      · exact congrArg some
    · apply valid_attach
      intro id same
      cases same
      exact Nat.le_refl _
  cases event with
  | scalar anchor text => exact shaped.createScalar valid text
  | mappingStart anchor =>
      apply collection _ rfl YamlType.noConfusion ⟨rfl, rfl⟩
      refine ⟨?_, ?_, fun _ => ⟨rfl, rfl⟩⟩
      · intro yType
        cases yType
      · intro yType
        cases yType
  | sequenceStart anchor =>
      apply collection _ rfl YamlType.noConfusion ⟨rfl, rfl⟩
      refine ⟨?_, fun _ => ⟨rfl, rfl⟩, ?_⟩
      · intro yType
        cases yType
      · intro yType
        cases yType
  | _ => exact shaped.bail .einval

/-- Parsing ends where a node cannot be created. -/
theorem parseLoop_of_none {event : YamlEvent} (begins : Begins event)
    (failed : (ymoYamlNodeCreate yaml parent event).node = none)
    (events : List YamlEvent) :
    parseLoop (event :: events) yaml parent =
      .returned (ymoYamlNodeCreate yaml parent event).yaml
        (ymoYamlNodeCreate yaml parent event).errno := by
  cases event with
  | scalar anchor text | sequenceStart anchor | mappingStart anchor =>
      simp only [parseLoop, failed]
  | _ => exact begins.elim

theorem shaped_parseLoop {events : List YamlEvent} {yaml later : YamlState}
    {status : Status}
    (shaped : Shaped yaml)
    (valid : Valid yaml parent)
    (parsed : parseLoop events yaml parent = .returned later status) :
    Shaped later := by
  induction events generalizing yaml parent with
  | nil =>
      cases parsed
      exact shaped
  | cons event events ih =>
      have create (begins : Begins event) : Shaped later := by
        have makes := shaped.nodeCreate valid event
        cases node : (ymoYamlNodeCreate yaml parent event).node with
        | none =>
            rw [parseLoop_of_none begins node] at parsed
            cases parsed
            exact makes.shaped
        | some id =>
            have goesOn := runs_create begins node events
            rw [List.singleton_append, parsed] at goesOn
            exact ih makes.shaped (node ▸ makes.valid) goesOn.symm
      have pop (ends : Ends event)
          (fault :
            parent = none → parseLoop (event :: events) yaml parent = .fault) :
          Shaped later := by
        cases parent with
        | none =>
            rw [fault rfl] at parsed
            cases parsed
        | some id =>
            have inside := valid id rfl
            have goesOn := @runs_end yaml event ends id events
            rw [List.singleton_append, parsed] at goesOn
            refine ih shaped ?_ goesOn.symm
            apply valid_popScalars shaped.sound
            intro parent isParent
            exact
              Nat.lt_trans
                (shaped.sound.older id inside parent isParent) inside
      cases event with
      | streamEnd =>
          cases parsed
          exact shaped
      | scalar anchor text | sequenceStart anchor | mappingStart anchor =>
          exact create trivial
      | sequenceEnd | mappingEnd =>
          refine pop trivial fun none => ?_
          rw [none]
          rfl
      | _ => exact ih shaped valid parsed

theorem shaped_start {doc : YamlDoc} (noRoot : doc.root = none) :
    Shaped (start doc) where
  sound := sound_start doc
  owner id inside := absurd inside (Nat.not_lt_zero id)
  alone id inside := absurd inside (Nat.not_lt_zero id)
  marked id inside := absurd inside (Nat.not_lt_zero id)
  root := noRoot

/-- Whatever is parsed, its nodes have their shape where parsing ends. -/
theorem shaped_parse {fresh : Memory} {fSize : UInt64} {doc : YamlDoc}
    {events : List YamlEvent}
    {status : Status}
    (isDoc : ymoYamlDocCreate fresh fSize = some doc)
    (parsed : ymoYamlParse events doc = .returned yaml status) :
    Shaped yaml := by
  have noRoot : doc.root = none := by
    unfold ymoYamlDocCreate at isDoc
    split at isDoc
    · cases isDoc
    · cases isDoc
      rfl
  apply shaped_parseLoop (shaped_start noRoot) _ parsed
  exact fun _ same => absurd same.symm (Option.some_ne_none _)

/-! ## Giving the nodes back -/

/-- The first children of the nodes. -/
def childOf (nodes : Nat → YamlNode) (id : Nat) : Option Nat :=
  (nodes id).child

/-- `ymo_yaml_node_free`: the nodes that are freed. -/
def ymoYamlNodeFree (yaml : YamlState) (node : Option Nat) :
    Option (List Nat) :=
  release (childOf yaml.nodes) (nextOf yaml.nodes) yaml.created node []

/-- `ymo_yaml_doc_free`, for the nodes. -/
def ymoYamlDocFree (yaml : YamlState) : Option (List Nat) :=
  match yaml.doc.root with
  | none => some []
  | some root => ymoYamlNodeFree yaml (some root)

/-- A node is another one or is below it. -/
inductive Within (nodes : Nat → YamlNode) (top : Nat) : Nat → Prop where
  | self : Within nodes top top
  | under
      {id parent : Nat}
      (isParent : (nodes id).parent = some parent)
      (up : Within nodes top parent) :
      Within nodes top id

section

variable
  {yaml : YamlState}
  {top id : Nat}

theorem Within.le (within : Within yaml.nodes top id) (shaped : Shaped yaml)
    (inside : id < yaml.created) :
    top ≤ id := by
  induction within with
  | self => exact Nat.le_refl top
  | @under id parent isParent up ih =>
      have older := shaped.sound.older id inside parent isParent
      exact Nat.le_trans (ih (Nat.lt_trans older inside)) (Nat.le_of_lt older)

theorem Within.trans {other : Nat} (within : Within yaml.nodes top id)
    (further : Within yaml.nodes id other) :
    Within yaml.nodes top other := by
  induction further with
  | self => exact within
  | under isParent up ih => exact .under isParent ih

/-- Of two nodes that are both above a node, one is above the other. -/
theorem Within.comparable {other : Nat} (first : Within yaml.nodes top id)
    (second : Within yaml.nodes other id) :
    Within yaml.nodes top other ∨ Within yaml.nodes other top := by
  induction first with
  | self => exact .inr second
  | @under id parent isParent up ih =>
      cases second with
      | self => exact .inl (.under isParent up)
      | @under _ _ isOther upOther =>
          rw [isParent] at isOther
          cases isOther
          exact ih upOther

/-- Nothing is below two different children of one node. -/
theorem siblings_apart {left right parent : Nat} (shaped : Shaped yaml)
    (first : left ∈ kidsOf yaml parent)
    (second : right ∈ kidsOf yaml parent)
    (above : Within yaml.nodes left id)
    (other : Within yaml.nodes right id) :
    left = right := by
  have no :
      ∀ {one two : Nat},
        one ∈ kidsOf yaml parent →
          two ∈ kidsOf yaml parent →
            Within yaml.nodes one two → one = two := by
    intro one two kid sibling within
    rw [mem_kidsOf] at kid sibling
    cases within with
    | self => rfl
    | under isParent up =>
        rw [sibling.2] at isParent
        cases isParent
        have older := shaped.sound.older one kid.1 parent kid.2
        have bound := up.le shaped (Nat.lt_trans older kid.1)
        omega
  rcases above.comparable other with within | within
  · exact no first second within
  · exact (no second first within).symm

/-- What is below a node is one of its children or below one of them. -/
theorem within_iff_kid (inside : id < yaml.created) (shaped : Shaped yaml) :
    (∃ kid ∈ kidsOf yaml top, Within yaml.nodes kid id) ↔
      Within yaml.nodes top id ∧ id ≠ top := by
  constructor
  · rintro ⟨kid, member, within⟩
    have isKid := mem_kidsOf.mp member
    refine ⟨Within.trans (.under isKid.2 .self) within, ?_⟩
    rintro rfl
    have older := shaped.sound.older kid isKid.1 _ isKid.2
    have bound := within.le shaped inside
    omega
  · rintro ⟨within, other⟩
    induction within with
    | self => exact absurd rfl other
    | @under id parent isParent up ih =>
        have older := shaped.sound.older id inside parent isParent
        have before := Nat.lt_trans older inside
        by_cases same : parent = top
        · subst same
          exact ⟨id, mem_kidsOf.mpr ⟨inside, isParent⟩, .self⟩
        · rcases ih before same with ⟨kid, member, above⟩
          exact ⟨kid, member, .under isParent above⟩

/-- The nodes from a node on are these, without repetition. -/
def Holds (yaml : YamlState) (head : Option Nat) (among : Nat → Prop) : Prop :=
  ∃ nodes,
    Forest (childOf yaml.nodes) (nextOf yaml.nodes) head nodes ∧
      nodes.Nodup ∧ ∀ id, id ∈ nodes ↔ id < yaml.created ∧ among id

/-- The children of a node, when what is below each of them is known. -/
theorem holds_kids {parent : Nat} {head : Option Nat} {kids : List Nat}
    (shaped : Shaped yaml)
    (linked : Linked (nextOf yaml.nodes) head kids)
    (distinct : kids.Nodup)
    (are : ∀ kid ∈ kids, kid ∈ kidsOf yaml parent)
    (below :
      ∀ kid ∈ kids,
        Holds yaml (childOf yaml.nodes kid) fun id =>
          Within yaml.nodes kid id ∧ id ≠ kid) :
    Holds yaml head fun id => ∃ kid ∈ kids, Within yaml.nodes kid id := by
  induction linked with
  | nil =>
      refine ⟨[], .nil, List.nodup_nil, fun id => ?_⟩
      constructor
      · exact fun member => absurd member List.not_mem_nil
      · rintro ⟨-, kid, member, -⟩
        exact absurd member List.not_mem_nil
  | @cons kid rest tail ih =>
      obtain ⟨apart, others⟩ := List.nodup_cons.mp distinct
      have isKid := are kid List.mem_cons_self
      have created := (mem_kidsOf.mp isKid).1
      rcases below kid List.mem_cons_self
        with ⟨front, inner, frontDistinct, frontIs⟩
      rcases
        ih others
          (fun other member => are other (List.mem_cons_of_mem kid member))
          fun other member => below other (List.mem_cons_of_mem kid member)
        with ⟨back, later, backDistinct, backIs⟩
      have none : ∀ id, Within yaml.nodes kid id → id ∉ back := by
        intro id within member
        rcases ((backIs id).mp member).2 with ⟨other, inRest, above⟩
        have same :=
          siblings_apart shaped isKid
            (are other (List.mem_cons_of_mem kid inRest)) within above
        exact apart (same ▸ inRest)
      refine ⟨kid :: (front ++ back), .cons inner later, ?_, fun id => ?_⟩
      · rw [List.nodup_cons, List.nodup_append]
        refine ⟨?_, frontDistinct, backDistinct, ?_⟩
        · rw [List.mem_append]
          rintro (member | member)
          · exact ((frontIs kid).mp member).2.2 rfl
          · exact none kid .self member
        · rintro id member other inBack rfl
          exact none id ((frontIs id).mp member).2.1 inBack
      · rw [List.mem_cons, List.mem_append, frontIs, backIs]
        constructor
        · rintro (rfl | ⟨inside, within, -⟩ | ⟨inside, other, member, above⟩)
          · exact ⟨created, id, List.mem_cons_self, .self⟩
          · exact ⟨inside, kid, List.mem_cons_self, within⟩
          · exact ⟨inside, other, List.mem_cons_of_mem kid member, above⟩
        · rintro ⟨inside, other, member, above⟩
          rcases List.mem_cons.mp member with rfl | inRest
          · by_cases same : id = other
            · exact .inl same
            · exact .inr (.inl ⟨inside, above, same⟩)
          · exact .inr (.inr ⟨inside, other, inRest, above⟩)

/-- What is below a node, youngest nodes first. -/
theorem holds_below {id : Nat} (shaped : Shaped yaml)
    (inside : id < yaml.created) :
    Holds yaml (childOf yaml.nodes id) fun other =>
      Within yaml.nodes id other ∧ other ≠ id := by
  have owner := shaped.owner id inside
  have kids :=
    holds_kids shaped owner.children.linked owner.children.linked.nodup
      (fun _ member => member)
      fun kid member => by
        have isKid := mem_kidsOf.mp member
        have older := shaped.sound.older kid isKid.1 id isKid.2
        exact holds_below shaped isKid.1
  rcases kids with ⟨nodes, forest, distinct, are⟩
  refine ⟨nodes, forest, distinct, fun other => ?_⟩
  rw [are other]
  exact and_congr_right fun created => within_iff_kid created shaped
termination_by yaml.created - id

/-- Giving the nodes of a document back: nodes that were created, at most once. -/
theorem docFree_of_shaped (shaped : Shaped yaml) :
    ∃ freed,
      ymoYamlDocFree yaml = some freed ∧ freed.Nodup ∧
        ∀ id,
          id ∈ freed ↔ id < yaml.created ∧ Within yaml.nodes 0 id := by
  by_cases empty : yaml.created = 0
  · refine ⟨[], ?_, List.nodup_nil, fun id => ?_⟩
    · rw [ymoYamlDocFree, shaped.root, if_pos empty]
    · rw [empty]
      constructor
      · exact fun member => absurd member List.not_mem_nil
      · exact fun created => absurd created.1 (Nat.not_lt_zero id)
  · have first : 0 < yaml.created := Nat.pos_of_ne_zero empty
    have parentless : (yaml.nodes 0).parent = none := by
      cases isParent : (yaml.nodes 0).parent with
      | none => rfl
      | some parent =>
          exact
            absurd (shaped.sound.older 0 first parent isParent)
              (Nat.not_lt_zero parent)
    rcases holds_below shaped first with ⟨below, inner, distinct, are⟩
    have last : Forest (childOf yaml.nodes) (nextOf yaml.nodes)
        (nextOf yaml.nodes 0) [] := by
      rw [nextOf, shaped.alone 0 first parentless]
      exact .nil
    have forest := Forest.cons inner last
    rw [List.append_nil] at forest
    have all : (0 :: below).Nodup := by
      refine List.nodup_cons.mpr ⟨fun member => ?_, distinct⟩
      exact ((are 0).mp member).2.2 rfl
    have bound : ∀ id ∈ 0 :: below, id < yaml.created := by
      intro id member
      rcases List.mem_cons.mp member with rfl | inBelow
      · exact first
      · exact ((are id).mp inBelow).1
    rcases
      forest.release all (length_le_of_inside all bound)
        fun _ _ => List.not_mem_nil
      with ⟨freed, released, same⟩
    refine ⟨freed, ?_, same.nodup_iff.mpr all, fun id => ?_⟩
    · rw [ymoYamlDocFree, shaped.root, if_neg empty]
      exact released
    · rw [same.mem_iff, List.mem_cons, are]
      constructor
      · rintro (rfl | ⟨inside, within, -⟩)
        · exact ⟨first, .self⟩
        · exact ⟨inside, within⟩
      · rintro ⟨inside, within⟩
        by_cases top : id = 0
        · exact .inl top
        · exact .inr ⟨inside, within, top⟩

/-- With one node without a parent, everything is below it. -/
theorem within_root {id : Nat}
    (shaped : Shaped yaml)
    (single :
      ∀ other < yaml.created, (yaml.nodes other).parent = none → other = 0)
    (inside : id < yaml.created) :
    Within yaml.nodes 0 id := by
  cases isParent : (yaml.nodes id).parent with
  | none =>
      rw [single id inside isParent]
      exact .self
  | some parent =>
      have older := shaped.sound.older id inside parent isParent
      exact
        .under isParent (within_root shaped single (Nat.lt_trans older inside))
termination_by id

end

/--
Whatever the parser library delivers and however parsing ends, freeing the document
reads no node that was freed and frees no node twice; it frees the nodes below the
first one, and these are all nodes if only the first one has no parent.
-/
theorem docFree_once (fresh : Memory) (fSize : UInt64) (doc : YamlDoc)
    (events : List YamlEvent)
    (yaml : YamlState)
    (status : Status)
    (isDoc : ymoYamlDocCreate fresh fSize = some doc)
    (parsed : ymoYamlParse events doc = .returned yaml status) :
    ∃ freed,
      ymoYamlDocFree yaml = some freed ∧ freed.Nodup ∧
        (∀ id,
          id ∈ freed ↔ id < yaml.created ∧ Within yaml.nodes 0 id) ∧
          ((∀ id < yaml.created,
              (yaml.nodes id).parent = none → id = 0) →
            freed.Perm (List.range yaml.created)) := by
  have shaped := shaped_parse isDoc parsed
  rcases docFree_of_shaped shaped with ⟨freed, released, distinct, are⟩
  refine ⟨freed, released, distinct, are, fun single => ?_⟩
  apply (List.perm_ext_iff_of_nodup distinct List.nodup_range).mpr
  intro id
  rw [are, List.mem_range]
  exact ⟨And.left, fun inside => ⟨inside, within_root shaped single inside⟩⟩

/-- The nodes where parsing ends. -/
def parsedNodes (events : List YamlEvent) (doc : YamlDoc) : YamlState :=
  match ymoYamlParse events doc with
  | .returned yaml _ => yaml
  | .fault => start doc

theorem docFree_once_path :
    let yaml := parsedNodes pathDocument.events (newDoc 20)
    ∃ freed,
      ymoYamlDocFree yaml = some freed ∧ freed.Nodup ∧
        (∀ id,
          id ∈ freed ↔ id < yaml.created ∧ Within yaml.nodes 0 id) ∧
          ((∀ id < yaml.created,
              (yaml.nodes id).parent = none → id = 0) →
            freed.Perm (List.range yaml.created)) :=
  docFree_once (fun _ => 0) 20 (newDoc 20) pathDocument.events
    (parsedNodes pathDocument.events (newDoc 20)) .okay rfl rfl

/-- The node of a second document is not given back. -/
example :
    ymoYamlDocFree
        (parsedNodes
          [.sequenceStart none, .sequenceEnd, .sequenceStart none,
            .sequenceEnd, .streamEnd]
          (newDoc 3)) =
      some [0] := by
  decide

end Yimmo.Core.YamlShape
