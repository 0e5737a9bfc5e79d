import Yimmo.Core.YamlShape
import Yimmo.Lib.JsonTexts

/-!
# Printing a YAML document, and looking up a path in it

This module models `ymo_yaml_print_node`, which prints a document as JSON, and
`ymo_yaml_doc_vget`, which follows keys from the root.  The indentation is always
zero, so nothing is printed for it.

A document without aliases is printed as the JSON text of its value.  Strings are
printed as they are, so the text can be read back if no string needs an escape.
-/

namespace Yimmo.Core.YamlPrint

open Yimmo.Core.Characters
open Yimmo.Core.Yaml
open Yimmo.Core.YamlDocuments
open Yimmo.Core.YamlRuns
open Yimmo.Core.YamlTree
open Yimmo.Core.YamlParse
open Yimmo.Core.YamlShape
open Yimmo.Lib.ByteMemory
open Yimmo.Lib.LinkedList
open Yimmo.Lib.JsonTexts

variable {id : Nat}

/-! ## The functions -/

/-- What `ymo_yaml_print_node` prints for a node, around what is below it. -/
def printedNode (node : YamlNode) (value below : Bytes) : Bytes :=
  if node.yType = .scalar then
    bytes "\"" ++ value ++ bytes "\"" ++
      bytes node.terminal ++ below
  else value ++ below ++ bytes node.terminal

/-- `ymo_yaml_print_node`, with a bound on the depth of its calls. -/
def ymoYamlPrintNode (yaml : YamlState) :
    Nat → Option Nat → Option Bytes
  | _, none => some []
  | 0, some _ => none
  | bound + 1, some id =>
      (nodeString yaml (yaml.nodes id).value).bind fun value =>
        (ymoYamlPrintNode yaml bound (yaml.nodes id).child).bind
          fun below =>
            let printed := printedNode (yaml.nodes id) value below
            match (yaml.nodes id).next with
            | none => some printed
            | some next =>
                (ymoYamlPrintNode yaml bound (some next)).map fun later =>
                  printed ++ bytes ", " ++ later

/-- `ymo_yaml_doc_print_json_hack`. -/
def ymoYamlDocPrintJsonHack (yaml : YamlState) : Option Bytes :=
  ymoYamlPrintNode yaml yaml.created yaml.doc.root

/-- The loop of `ymo_yaml_doc_vget`. -/
def vgetLoop (yaml : YamlState) :
    Option Nat → List Bytes → Option Nat
  | node, [] => node
  | none, _ :: _ => none
  | some id, term :: terms =>
      vgetLoop yaml (ymoYamlObjectGet yaml (some id) term).node terms

/-- `ymo_yaml_doc_vget`. -/
def ymoYamlDocVget (yaml : YamlState) (args : List Bytes) : Option Nat :=
  vgetLoop yaml yaml.doc.root args

/-- `ymo_yaml_node_as_str`. -/
def ymoYamlNodeAsStr (yaml : YamlState) (node : Option Nat) : Option Bytes :=
  match node with
  | none => none
  | some id => nodeString yaml (yaml.nodes id).value

/-! ## What is printed of a value -/

mutual

/-- A value as JSON. -/
def valueJson : Value → Json
  | .scalar text => .string text
  | .sequence items => .array (itemsJson items)
  | .mapping entries => .object (membersJson entries)

def itemsJson : Values → Items
  | .nil => .nil
  | .cons item items => .cons (valueJson item) (itemsJson items)

def membersJson : Entries → Members
  | .nil => .nil
  | .cons key value entries =>
      .cons key (valueJson value) (membersJson entries)

end

theorem nodeString_text {yaml : YamlState} {text : Bytes}
    (isText : IsText yaml yaml.doc.len.toNat id text) :
    nodeString yaml (yaml.nodes id).value = some text := by
  obtain ⟨-, ⟨offset, value, terminated⟩, noZero⟩ := isText
  rw [value, nodeString, terminated.readString, cString_of_not_mem noZero]

/-- A node is printed, and then what follows it in its list. -/
theorem ymoYamlPrintNode_eq {yaml : YamlState} {value below : Bytes}
    {bound : Nat}
    (string : nodeString yaml (yaml.nodes id).value = some value)
    (inner : ymoYamlPrintNode yaml bound (yaml.nodes id).child = some below) :
    ymoYamlPrintNode yaml (bound + 1) (some id) =
      match (yaml.nodes id).next with
      | none => some (printedNode (yaml.nodes id) value below)
      | some next =>
          (ymoYamlPrintNode yaml bound (some next)).map fun later =>
            printedNode (yaml.nodes id) value below ++
              bytes ", " ++ later := by
  rw [ymoYamlPrintNode, string, Option.bind_some, inner, Option.bind_some]

theorem ymoYamlPrintNode_none (yaml : YamlState) (bound : Nat) :
    ymoYamlPrintNode yaml bound none = some [] := by
  cases bound with
  | zero => rfl
  | succ bound => rfl

/-- What is printed for a node and what is below it, when that is a text. -/
structure Prints
    (yaml : YamlState)
    (bound id : Nat)
    (text : Bytes) : Prop where
  printed :
    ∃ value below,
      nodeString yaml (yaml.nodes id).value = some value ∧
        ymoYamlPrintNode yaml bound (yaml.nodes id).child = some below ∧
          printedNode (yaml.nodes id) value below = text

/-- The last node of a list is printed as its text. -/
theorem Prints.last {yaml : YamlState} {bound id : Nat} {text : Bytes}
    (prints : Prints yaml bound id text)
    (last : (yaml.nodes id).next = none) :
    ymoYamlPrintNode yaml (bound + 1) (some id) = some text := by
  obtain ⟨value, below, string, inner, rfl⟩ := prints.printed
  rw [ymoYamlPrintNode_eq string inner, last]

/-- A node in front of another one is printed with a comma. -/
theorem Prints.followed {yaml : YamlState} {bound id next : Nat}
    {text later : Bytes}
    (prints : Prints yaml bound id text)
    (follows : (yaml.nodes id).next = some next)
    (rest : ymoYamlPrintNode yaml bound (some next) = some later) :
    ymoYamlPrintNode yaml (bound + 1) (some id) =
      some (text ++ 0x2c :: 0x20 :: later) := by
  obtain ⟨value, below, string, inner, rfl⟩ := prints.printed
  rw [ymoYamlPrintNode_eq string inner, follows]
  dsimp only
  rw [rest, Option.map_some, List.append_assoc]
  rfl

/-- The string after a node whose parent is no mapping. -/
theorem terminal_of_parent {yaml : YamlState} {id parent : Nat}
    (shaped : Shaped yaml)
    (inside : id < yaml.created)
    (isParent : (yaml.nodes id).parent = some parent)
    (other : (yaml.nodes parent).yType ≠ .object)
    (yType : (yaml.nodes id).yType = .scalar) :
    (yaml.nodes id).terminal = "" := by
  rw [(shaped.marked id inside).scalar yType parent isParent, if_neg other]

/-- Nothing follows the last node of a list. -/
theorem next_of_linked_nil {nodes : Nat → YamlNode}
    (tail : Linked (nextOf nodes) (nextOf nodes id) []) :
    (nodes id).next = none := by
  generalize same : nextOf nodes id = next at tail
  cases tail
  exact same

section

variable {yaml : YamlState}

mutual

/-- A tree is printed as the JSON text of its value. -/
theorem prints_of_mirrors {value : Value} {id : Nat} {ids : List Nat}
    (shaped : Shaped yaml)
    (mirrors : Mirrors yaml yaml.doc.len.toNat value id ids)
    (inside : ∀ node ∈ ids, node < yaml.created)
    (unmarked :
      (yaml.nodes id).yType = .scalar → (yaml.nodes id).terminal = "")
    {bound : Nat}
    (enough : ids.length ≤ bound + 1) :
    Prints yaml bound id (valueJson value).text := by
  match value with
  | .scalar text =>
      obtain ⟨isText, children, rfl⟩ := mirrors
      refine ⟨text, [], nodeString_text isText, ?_, ?_⟩
      · have leaf := children.linked
        generalize (yaml.nodes id).child = child at leaf
        cases leaf
        exact ymoYamlPrintNode_none yaml bound
      · rw [printedNode, if_pos isText.yType, unmarked isText.yType]
        show _ = quoted text
        rw [List.append_nil]
        exact List.append_nil _
  | .sequence items =>
      obtain ⟨yType, kids, below, children, inner, rfl⟩ := mirrors
      have here := inside id List.mem_cons_self
      have belowInside (node : Nat) (member : node ∈ below) :
          node < yaml.created :=
        inside node (List.mem_cons_of_mem id member)
      have marked := (shaped.marked id here).sequence yType
      have printed :=
        print_of_mirrorsItems shaped inner children.linked belowInside
          (fun kid member =>
            terminal_of_parent shaped
              (belowInside kid (inner.kids_subset member))
              (children.parents kid member)
              (by rw [yType]; exact YamlType.noConfusion))
          (Nat.le_of_succ_le_succ enough)
      refine ⟨bytes "[", _, by rw [marked.1]; rfl, printed, ?_⟩
      rw [printedNode, if_neg (by rw [yType]; exact YamlType.noConfusion),
        marked.2]
      rfl
  | .mapping entries =>
      obtain ⟨yType, kids, below, children, inner, rfl⟩ := mirrors
      have here := inside id List.mem_cons_self
      have belowInside (node : Nat) (member : node ∈ below) :
          node < yaml.created :=
        inside node (List.mem_cons_of_mem id member)
      have marked := (shaped.marked id here).object yType
      have printed :=
        print_of_mirrorsEntries shaped inner children.linked belowInside
          (fun kid member => ⟨id, children.parents kid member, yType⟩)
          (Nat.le_of_succ_le_succ enough)
      refine ⟨bytes "\x7b", _, by rw [marked.1]; rfl, printed, ?_⟩
      rw [printedNode, if_neg (by rw [yType]; exact YamlType.noConfusion),
        marked.2]
      rfl

theorem print_of_mirrorsItems {items : Values} {kids ids : List Nat}
    {head : Option Nat}
    (shaped : Shaped yaml)
    (mirrors : MirrorsItems yaml yaml.doc.len.toNat items kids ids)
    (linked : Linked (nextOf yaml.nodes) head kids)
    (inside : ∀ node ∈ ids, node < yaml.created)
    (unmarked :
      ∀ kid ∈ kids,
        (yaml.nodes kid).yType = .scalar → (yaml.nodes kid).terminal = "")
    {bound : Nat}
    (enough : ids.length ≤ bound) :
    ymoYamlPrintNode yaml bound head = some (itemsJson items).text := by
  match items with
  | .nil =>
      rw [mirrors.1] at linked
      cases linked
      exact ymoYamlPrintNode_none yaml bound
  | .cons item items =>
      obtain ⟨kid, others, front, back, rfl, rfl, first, rest⟩ := mirrors
      obtain ⟨rfl, tail⟩ := linked.of_cons
      rw [List.length_append] at enough
      have positive : 0 < front.length := List.length_pos_of_mem first.root_mem
      obtain ⟨bound, rfl⟩ : ∃ more, bound = more + 1 := ⟨bound - 1, by omega⟩
      have prints : Prints yaml bound kid (valueJson item).text :=
        prints_of_mirrors shaped first
          (fun node member => inside node (List.mem_append_left back member))
          (unmarked kid List.mem_cons_self) (by omega)
      have later :
          ymoYamlPrintNode yaml bound (nextOf yaml.nodes kid) =
            some (itemsJson items).text :=
        print_of_mirrorsItems shaped rest tail
          (fun node member => inside node (List.mem_append_right front member))
          (fun other member =>
            unmarked other (List.mem_cons_of_mem kid member))
          (by omega)
      match items with
      | .nil =>
          rw [rest.1] at tail
          rw [prints.last (next_of_linked_nil tail)]
          show some _ = some ((valueJson item).text ++ [])
          rw [List.append_nil]
      | .cons second items =>
          obtain ⟨next, more, -, -, rfl, -, -, -⟩ := rest
          have follows : (yaml.nodes kid).next = some next := tail.of_cons.1
          rw [nextOf, follows] at later
          rw [prints.followed follows later]
          rfl

theorem print_of_mirrorsEntries {entries : Entries} {kids ids : List Nat}
    {head : Option Nat}
    (shaped : Shaped yaml)
    (mirrors : MirrorsEntries yaml yaml.doc.len.toNat entries kids ids)
    (linked : Linked (nextOf yaml.nodes) head kids)
    (inside : ∀ node ∈ ids, node < yaml.created)
    (keys :
      ∀ kid ∈ kids,
        ∃ parent,
          (yaml.nodes kid).parent = some parent ∧
            (yaml.nodes parent).yType = .object)
    {bound : Nat}
    (enough : ids.length ≤ bound) :
    ymoYamlPrintNode yaml bound head = some (membersJson entries).text := by
  match entries with
  | .nil =>
      rw [mirrors.1] at linked
      cases linked
      exact ymoYamlPrintNode_none yaml bound
  | .cons key value entries =>
      obtain ⟨kid, vNode, others, front, back, rfl, rfl, isText, children,
        first, rest⟩ := mirrors
      obtain ⟨rfl, tail⟩ := linked.of_cons
      obtain ⟨isChild, single⟩ := children.linked.of_cons
      rw [List.length_cons, List.length_append] at enough
      have positive : 0 < front.length := List.length_pos_of_mem first.root_mem
      obtain ⟨bound, rfl⟩ : ∃ more, bound = more + 2 := ⟨bound - 2, by omega⟩
      have here := inside kid List.mem_cons_self
      have frontInside (node : Nat) (member : node ∈ front) :
          node < yaml.created :=
        inside node
          (List.mem_cons_of_mem kid (List.mem_append_left back member))
      have inner : Prints yaml bound vNode (valueJson value).text :=
        prints_of_mirrors shaped first frontInside
          (terminal_of_parent shaped
            (frontInside vNode first.root_mem)
            (children.parents vNode (List.mem_singleton_self vNode))
            (by rw [isText.yType]; exact YamlType.noConfusion))
          (by omega)
      have prints :
          Prints yaml (bound + 1) kid
            (quoted key ++ 0x3a :: (valueJson value).text) := by
        obtain ⟨parent, isParent, isObject⟩ := keys kid List.mem_cons_self
        have mark :=
          (shaped.marked kid here).scalar isText.yType parent isParent
        rw [if_pos isObject] at mark
        refine ⟨key, (valueJson value).text, nodeString_text isText, ?_, ?_⟩
        · rw [isChild]
          exact inner.last (next_of_linked_nil single)
        · rw [printedNode, if_pos isText.yType, mark, List.append_assoc]
          rfl
      have later :
          ymoYamlPrintNode yaml (bound + 1) (nextOf yaml.nodes kid) =
            some (membersJson entries).text :=
        print_of_mirrorsEntries shaped rest tail
          (fun node member =>
            inside node
              (List.mem_cons_of_mem kid (List.mem_append_right front member)))
          (fun other member => keys other (List.mem_cons_of_mem kid member))
          (by omega)
      match entries with
      | .nil =>
          rw [rest.1] at tail
          rw [prints.last (next_of_linked_nil tail)]
          show
            some _ =
              some (quoted key ++ 0x3a :: ((valueJson value).text ++ []))
          rw [List.append_nil]
      | .cons second below entries =>
          obtain ⟨next, _, more, -, -, rfl, -, -, -, -, -⟩ := rest
          have follows : (yaml.nodes kid).next = some next := tail.of_cons.1
          rw [nextOf, follows] at later
          rw [prints.followed follows later, List.append_assoc]
          rfl

end

end

/-! ## Following a path -/

/-- What a path of keys leads to. -/
def valueAt : Value → List Bytes → Option Value
  | value, [] => some value
  | .mapping entries, key :: path =>
      (entries.get key).bind fun value => valueAt value path
  | _, _ :: _ => none

/-- The string that a node of a value has. -/
def valueStr : Value → Bytes
  | .scalar text => text
  | .sequence _ => bytes "["
  | .mapping _ => bytes "\x7b"

theorem vgetLoop_none (yaml : YamlState) (path : List Bytes) :
    vgetLoop yaml none path = none := by
  cases path with
  | nil => rfl
  | cons key path => rfl

/-- A path in a tree leads to where it leads in the value. -/
theorem TreeAt.vget {yaml : YamlState} {value : Value}
    (tree : TreeAt yaml value id)
    (path : List Bytes) :
    Option.Rel (TreeAt yaml) (valueAt value path)
      (vgetLoop yaml (some id) path) := by
  induction path generalizing value id with
  | nil =>
      cases value with
      | scalar text => exact .some tree
      | sequence items => exact .some tree
      | mapping entries => exact .some tree
  | cons key path ih =>
      rw [vgetLoop]
      have other :
          (yaml.nodes id).yType ≠ .object →
            (ymoYamlObjectGet yaml (some id) key).node = none := by
        intro notObject
        rw [ymoYamlObjectGet, if_pos notObject]
      cases value with
      | scalar text =>
          obtain ⟨ids, mirrors, -⟩ := tree
          rw [other (by rw [mirrors.1.yType]; exact YamlType.noConfusion),
            vgetLoop_none]
          exact .none
      | sequence items =>
          obtain ⟨ids, mirrors, -⟩ := tree
          rw [other (by rw [mirrors.1]; exact YamlType.noConfusion),
            vgetLoop_none]
          exact .none
      | mapping entries =>
          have found := tree.object_get key
          rw [valueAt]
          generalize entries.get key = value at found ⊢
          generalize (ymoYamlObjectGet yaml (some id) key).node = node
            at found ⊢
          cases found with
          | some below => exact ih below
          | none =>
              rw [vgetLoop_none]
              exact .none

/-- The string of the node of a tree. -/
theorem TreeAt.asStr {yaml : YamlState} {value : Value}
    (tree : TreeAt yaml value id)
    (shaped : Shaped yaml) :
    nodeString yaml (yaml.nodes id).value = some (valueStr value) := by
  obtain ⟨ids, mirrors, -, inside⟩ := tree
  have here := inside id mirrors.root_mem
  cases value with
  | scalar text => exact nodeString_text mirrors.1
  | sequence items =>
      rw [((shaped.marked id here).sequence mirrors.1).1]
      rfl
  | mapping entries =>
      rw [((shaped.marked id here).object mirrors.1).1]
      rfl

/-! ## Documents -/

/-- The value of a document is a sequence or a mapping. -/
theorem ne_scalar_of_document {document : Document} {value : Value}
    (isValue : document.value = some value)
    (text : Bytes) :
    value ≠ .scalar text := by
  obtain ⟨root, collection⟩ := document
  rintro rfl
  rw [Document.value, Option.map_eq_some_iff] at isValue
  obtain ⟨⟨_, anchors⟩, resolves, rfl⟩ := isValue
  rcases root with
    ⟨anchor, text⟩ | ⟨anchor⟩ | ⟨anchor, items⟩ | ⟨anchor, entries⟩
  · exact collection.elim
  · exact collection.elim
  · rw [Written.resolve, Option.map_eq_some_iff] at resolves
    obtain ⟨⟨inner, later⟩, -, same⟩ := resolves
    cases same
  · rw [Written.resolve, Option.map_eq_some_iff] at resolves
    obtain ⟨⟨inner, later⟩, -, same⟩ := resolves
    cases same

/-- A document that is parsed, with the value that its nodes are a tree of. -/
structure Parsed
    (document : Document)
    (doc : YamlDoc)
    (yaml : YamlState)
    (value : Value) : Prop where
  parse : ymoYamlParse document.events doc = .returned yaml .okay
  isValue : document.value = some value
  root : yaml.doc.root = some 0
  tree : TreeAt yaml value 0
  shaped : Shaped yaml

/-- A document without aliases is parsed, if its strings fit. -/
theorem exists_parsed {fresh : Memory} {fSize : UInt64} {doc : YamlDoc}
    {document : Document}
    (isDoc : ymoYamlDocCreate fresh fSize = some doc)
    (fits : Room doc document.root.texts)
    (plain : document.root.aliases = 0)
    (strings : Strings document.root.texts) :
    ∃ yaml value, Parsed document doc yaml value := by
  have noRoot : doc.root = none := by
    unfold ymoYamlDocCreate at isDoc
    split at isDoc
    · cases isDoc
    · cases isDoc
      rfl
  obtain ⟨yaml, value, isValue, runs, isRoot, tree⟩ :=
    builds_root fits noRoot plain strings
  have parse := parse_of_runs runs
  exact ⟨yaml, value, parse, isValue, isRoot, tree, shaped_parse isDoc parse⟩

/--
A document without aliases whose strings fit is printed as the JSON text of its
value, and that text is read as this value if no string in it needs an escape.
-/
theorem printed_as_json (fresh : Memory) (fSize : UInt64) (doc : YamlDoc)
    (document : Document)
    (isDoc : ymoYamlDocCreate fresh fSize = some doc)
    (fits : Room doc document.root.texts)
    (plain : document.root.aliases = 0)
    (strings : Strings document.root.texts) :
    ∃ yaml value printed,
      ymoYamlParse document.events doc = .returned yaml .okay ∧
        document.value = some value ∧
          ymoYamlDocPrintJsonHack yaml = some printed ∧
            printed = (valueJson value).text ∧
              ((valueJson value).Clean →
                read printed = some (valueJson value)) := by
  obtain ⟨yaml, value, parsed⟩ := exists_parsed isDoc fits plain strings
  obtain ⟨ids, mirrors, distinct, inside⟩ := parsed.tree
  have collection : (yaml.nodes 0).yType ≠ .scalar := by
    have noScalar := ne_scalar_of_document parsed.isValue
    cases value with
    | scalar text => exact absurd rfl (noScalar text)
    | sequence items =>
        rw [mirrors.1]
        exact YamlType.noConfusion
    | mapping entries =>
        rw [mirrors.1]
        exact YamlType.noConfusion
  have first := inside 0 mirrors.root_mem
  have count := length_le_of_inside distinct inside
  obtain ⟨bound, isBound⟩ : ∃ more, yaml.created = more + 1 :=
    ⟨yaml.created - 1, by omega⟩
  have prints : Prints yaml bound 0 (valueJson value).text :=
    prints_of_mirrors parsed.shaped mirrors inside
      (fun scalar => absurd scalar collection)
      (by omega)
  have alone : (yaml.nodes 0).next = none := by
    apply parsed.shaped.alone 0 first
    cases isParent : (yaml.nodes 0).parent with
    | none => rfl
    | some parent =>
        exact
          absurd (parsed.shaped.sound.older 0 first parent isParent)
            (Nat.not_lt_zero parent)
  refine ⟨yaml, value, _, parsed.parse, parsed.isValue, ?_, rfl, read_text _⟩
  rw [ymoYamlDocPrintJsonHack, parsed.root, isBound]
  exact prints.last alone

theorem printed_as_json_path :
    ∃ yaml value printed,
      ymoYamlParse pathDocument.events (newDoc 20) =
          .returned yaml .okay ∧
        pathDocument.value = some value ∧
          ymoYamlDocPrintJsonHack yaml = some printed ∧
            printed = (valueJson value).text ∧
              ((valueJson value).Clean →
                read printed = some (valueJson value)) :=
  printed_as_json (fun _ => 0) 20 (newDoc 20) pathDocument rfl
    room_pathDocument rfl strings_pathDocument

/-- `{"a":["b", "c"], "d":"e"}`. -/
example :
    ymoYamlDocPrintJsonHack
        (parsedNodes pathDocument.events (newDoc 20)) =
      some (bytes "\x7b\"a\":[\"b\", \"c\"], \"d\":\"e\"\x7d") := by
  decide

/--
In a document without aliases whose strings fit, the string that is found at a path
of keys is the one at this path of the document's value.
-/
theorem strings_at_paths (fresh : Memory) (fSize : UInt64) (doc : YamlDoc)
    (document : Document)
    (isDoc : ymoYamlDocCreate fresh fSize = some doc)
    (fits : Room doc document.root.texts)
    (plain : document.root.aliases = 0)
    (strings : Strings document.root.texts) :
    ∃ yaml value,
      ymoYamlParse document.events doc = .returned yaml .okay ∧
        document.value = some value ∧
          ∀ path,
            ymoYamlNodeAsStr yaml (ymoYamlDocVget yaml path) =
              (valueAt value path).map valueStr := by
  obtain ⟨yaml, value, parsed⟩ := exists_parsed isDoc fits plain strings
  refine ⟨yaml, value, parsed.parse, parsed.isValue, fun path => ?_⟩
  have found := TreeAt.vget parsed.tree path
  rw [ymoYamlDocVget, parsed.root]
  generalize valueAt value path = below at found ⊢
  generalize vgetLoop yaml (some 0) path = node at found ⊢
  cases found with
  | some tree => exact TreeAt.asStr tree parsed.shaped
  | none => rfl

theorem strings_at_paths_path :
    ∃ yaml value,
      ymoYamlParse pathDocument.events (newDoc 20) =
          .returned yaml .okay ∧
        pathDocument.value = some value ∧
          ∀ path,
            ymoYamlNodeAsStr yaml (ymoYamlDocVget yaml path) =
              (valueAt value path).map valueStr :=
  strings_at_paths (fun _ => 0) 20 (newDoc 20) pathDocument rfl
    room_pathDocument rfl strings_pathDocument

end Yimmo.Core.YamlPrint
