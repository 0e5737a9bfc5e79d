import Mathlib.Algebra.GroupWithZero.Nat
import Mathlib.Data.List.Basic
import Mathlib.Data.UInt
import Yimmo.Core.StatusCode
import Yimmo.Lib.ByteMemory
import Yimmo.Lib.LinkedList
import Yimmo.Core.Characters

/-!
# YAML documents

This module models `ymo_yaml_doc_create`, `ymo_yaml_node_create`,
`ymo_yaml_parse` and `ymo_yaml_object_get`.  Nodes are numbered in the order of
their creation, and the document's buffer is a region of memory in which `end` is
an offset; `size_t` is 64 bits wide.

The events are those that the parser library delivers, and a list of them that
ends before the end of the stream stands for a parser that fails.  A loop along
the list of children or up the chain of parents has the number of nodes for a
bound, which it never reaches: a parent is older than its children, and a list of
children has no node twice.
-/

namespace Yimmo.Core.Yaml

open Yimmo.Core.Characters
open Yimmo.Core.StatusCode
open Yimmo.Lib.ByteMemory
open Yimmo.Lib.LinkedList

/-! ## Data -/

/-- `ymo_yaml_type_t`. -/
inductive YamlType where
  | error
  | object
  | scalar
  | sequence
deriving DecidableEq, Repr

/-- What the field `value` of a node points to. -/
inductive NodeValue where
  | null
  | literal (string : String)
  | text (offset : Nat)
deriving DecidableEq, Repr

/-- `ymo_yaml_node_t`. -/
structure YamlNode where
  next : Option Nat
  prev : Option Nat
  yType : YamlType
  value : NodeValue
  terminal : String
  parent : Option Nat
  child : Option Nat
deriving DecidableEq, Repr

/-- `ymo_yaml_doc_t`. -/
structure YamlDoc where
  len : UInt64
  buffer : Memory
  root : Option Nat
  remain : UInt64
  /-- The offset of `end` in the buffer. -/
  endAt : Nat

/-- A document and the nodes created for it. -/
structure YamlState where
  doc : YamlDoc
  nodes : Nat → YamlNode
  created : Nat

/-- The text of a scalar event; the parser library keeps it in memory with a zero
byte behind it. -/
structure Scalar where
  bytes : Bytes
  addressable : bytes.length + 1 < 2 ^ 64
deriving DecidableEq

theorem one_addressable (byte : UInt8) : [byte].length + 1 < 2 ^ 64 := by
  rw [List.length_singleton]
  decide

/-- The text of one byte. -/
def Scalar.single (byte : UInt8) : Scalar where
  bytes := [byte]
  addressable := one_addressable byte

/-- `event->data.scalar.length`. -/
def Scalar.length (scalar : Scalar) : UInt64 :=
  UInt64.ofNat scalar.bytes.length

theorem Scalar.length_toNat (text : Scalar) :
    text.length.toNat = text.bytes.length := by
  rw [Scalar.length, UInt64.toNat_ofNat_of_lt']
  exact Nat.lt_of_succ_lt text.addressable

theorem Scalar.size_toNat (text : Scalar) :
    (text.length + 1).toNat = text.bytes.length + 1 := by
  have := text.addressable
  rw [UInt64.toNat_add, Scalar.length_toNat]
  exact Nat.mod_eq_of_lt this

/-- `yaml_event_t`. -/
inductive YamlEvent where
  | noEvent
  | streamStart
  | streamEnd
  | documentStart
  | documentEnd
  | alias (anchor : Bytes)
  | scalar (anchor : Option Bytes) (text : Scalar)
  | sequenceStart (anchor : Option Bytes)
  | sequenceEnd
  | mappingStart (anchor : Option Bytes)
  | mappingEnd
deriving DecidableEq

/-! ## The document -/

/-- `YMO_YAML_DOC_MAX_SIZE`. -/
def ymoYamlDocMaxSize : UInt64 :=
  8192

/-- `ymo_yaml_doc_create`, with the bytes that the new buffer has. -/
def ymoYamlDocCreate (fresh : Memory) (fSize : UInt64) : Option YamlDoc :=
  if fSize + 1 > ymoYamlDocMaxSize then none
  else
    some
      { len := fSize + 1
        buffer := store fresh fSize.toNat 0
        root := none
        remain := fSize + 1
        endAt := 0 }

/-! ## Creating a node -/

/-- `ymo_list_last`. -/
def ymoListLast (nodes : Nat → YamlNode) : Nat → Nat → Nat
  | 0, current => current
  | bound + 1, current =>
      match (nodes current).next with
      | none => current
      | some later => ymoListLast nodes bound later

/-- `YMO_LIST_APPEND`. -/
def ymoListAppend (nodes : Nat → YamlNode) (last current : Nat) :
    Nat → YamlNode :=
  let nodes :=
    Function.update nodes last { nodes last with next := some current }
  Function.update nodes current
    { nodes current with prev := some last, next := none }

/-- The loop that pops runs of scalars, in `ymo_yaml_node_create` and in
`ymo_yaml_parse`. -/
def popScalars (nodes : Nat → YamlNode) : Nat → Option Nat → Option Nat
  | 0, current => current
  | _ + 1, none => none
  | bound + 1, some id =>
      if (nodes id).yType = .scalar then
        popScalars nodes bound (nodes id).parent
      else some id

/-- `snprintf(end, buf_len, "%s", value)`. -/
def snprintf (buffer : Memory) (offset : Nat) (bufLen : UInt64)
    (value : Bytes) :
    Memory :=
  if bufLen = 0 then buffer
  else storeAll buffer offset ((cString value).take (bufLen.toNat - 1) ++ [0])

/-- The string of a scalar is stored whole. -/
theorem snprintf_scalar (buffer : Memory) (offset : Nat) (text : Scalar) :
    snprintf buffer offset (text.length + 1) text.bytes =
      storeAll buffer offset (cString text.bytes ++ [0]) := by
  have notEmpty : text.length + 1 ≠ 0 := by
    intro empty
    have := congrArg UInt64.toNat empty
    rw [Scalar.size_toNat] at this
    exact Nat.succ_ne_zero _ this
  have whole :
      (cString text.bytes).take ((text.length + 1).toNat - 1) =
        cString text.bytes := by
    rw [Scalar.size_toNat, Nat.add_sub_cancel]
    exact List.take_of_length_le (List.takeWhile_prefix _).length_le
  rw [snprintf, if_neg notEmpty, whole]

/-- What `ymo_yaml_node_create` leaves: the node that it returns, and `errno`. -/
structure Created where
  yaml : YamlState
  node : Option Nat
  errno : Status

/-- `yaml_parse_node_bail`. -/
def bail (yaml : YamlState) (errno : Errno) : Created where
  yaml := yaml
  node := none
  errno := .err errno

/-- The new node becomes the last child of its parent. -/
def linkChild (nodes : Nat → YamlNode) (bound : Nat) (parent : Option Nat)
    (node : Nat) :
    Nat → YamlNode :=
  match parent with
  | none => nodes
  | some parent =>
      match (nodes parent).child with
      | none =>
          Function.update nodes parent { nodes parent with child := some node }
      | some head => ymoListAppend nodes (ymoListLast nodes bound head) node

/-- The fields that a node keeps from its creation on. -/
structure Kept (old new : YamlNode) : Prop where
  yType : new.yType = old.yType
  value : new.value = old.value
  parent : new.parent = old.parent

/-- A change of the links keeps these fields. -/
theorem kept_update {nodes : Nat → YamlNode} {changed : Nat} {node : YamlNode}
    (kept : Kept (nodes changed) node)
    (id : Nat) :
    Kept (nodes id) (Function.update nodes changed node id) := by
  by_cases here : id = changed
  · subst here
    rwa [Function.update_self]
  · rw [Function.update_of_ne here]
    exact ⟨rfl, rfl, rfl⟩

theorem Kept.trans {first second third : YamlNode} (kept : Kept first second)
    (later : Kept second third) :
    Kept first third where
  yType := later.yType.trans kept.yType
  value := later.value.trans kept.value
  parent := later.parent.trans kept.parent

theorem ymoListAppend_kept (nodes : Nat → YamlNode) (last current id : Nat) :
    Kept (nodes id) (ymoListAppend nodes last current id) := by
  unfold ymoListAppend
  refine Kept.trans (kept_update ?_ id) (kept_update ?_ id)
  · exact ⟨rfl, rfl, rfl⟩
  · exact ⟨rfl, rfl, rfl⟩

theorem linkChild_kept (nodes : Nat → YamlNode) (bound : Nat)
    (parent : Option Nat)
    (node id : Nat) :
    Kept (nodes id) (linkChild nodes bound parent node id) := by
  cases parent with
  | none => exact ⟨rfl, rfl, rfl⟩
  | some owner =>
      cases child : (nodes owner).child with
      | none =>
          simp only [linkChild, child]
          refine kept_update ?_ id
          exact ⟨rfl, rfl, rfl⟩
      | some head =>
          simp only [linkChild, child]
          exact ymoListAppend_kept nodes _ node id

/-- `ymo_yaml_node_create` after its `switch`. -/
def attach (yaml : YamlState) (node : YamlNode) (endAt : Nat)
    (rNode : Option Nat) :
    Created where
  yaml :=
    { doc :=
        { yaml.doc with
          endAt := endAt
          root := yaml.doc.root.or rNode }
      nodes :=
        linkChild (Function.update yaml.nodes yaml.created node) yaml.created
          node.parent yaml.created
      created := yaml.created + 1 }
  node := rNode
  errno := .okay

section

variable
  (yaml : YamlState)
  (node : YamlNode)
  (endAt : Nat)
  (rNode : Option Nat)

theorem attach_kept_new :
    Kept node ((attach yaml node endAt rNode).yaml.nodes yaml.created) := by
  have kept := linkChild_kept
    (Function.update yaml.nodes yaml.created node) yaml.created node.parent
    yaml.created yaml.created
  rwa [Function.update_self] at kept

theorem attach_kept_old {id : Nat} (inside : id < yaml.created) :
    Kept (yaml.nodes id) ((attach yaml node endAt rNode).yaml.nodes id) := by
  have kept := linkChild_kept
    (Function.update yaml.nodes yaml.created node) yaml.created node.parent
    yaml.created id
  rwa [Function.update_of_ne (Nat.ne_of_lt inside)] at kept

end

/-- A node of zeros. -/
def newNode (parent : Option Nat) : YamlNode where
  next := none
  prev := none
  yType := .error
  value := .null
  terminal := ""
  parent := parent
  child := none

/-- The string and the accounts of the buffer, when a scalar is stored. -/
def storeScalar (doc : YamlDoc) (text : Scalar) : YamlDoc :=
  { doc with
    buffer := snprintf doc.buffer doc.endAt (text.length + 1) text.bytes
    remain := doc.remain - (text.length + 1) }

/-- The case `YAML_SCALAR_EVENT` of `ymo_yaml_node_create`. -/
def createScalar (yaml : YamlState) (parent : Option Nat) (text : Scalar) :
    Created :=
  match parent with
  | none => bail yaml .einval
  | some owner =>
      if text.length + 1 < yaml.doc.remain then
        let node :=
          { newNode parent with
            yType := .scalar
            value := .text yaml.doc.endAt }
        let endAt := yaml.doc.endAt + (text.length + 1).toNat + 1
        let stored := { yaml with doc := storeScalar yaml.doc text }
        match (yaml.nodes owner).yType with
        | .error => bail stored .einval
        | .scalar =>
            attach stored { node with terminal := "" } endAt
              (popScalars yaml.nodes yaml.created parent)
        | .sequence => attach stored { node with terminal := "" } endAt parent
        | .object =>
            attach stored { node with terminal := ":" } endAt
              (some yaml.created)
      else bail yaml .efbig

/-- `ymo_yaml_node_create`. -/
def ymoYamlNodeCreate (yaml : YamlState) (parent : Option Nat) :
    YamlEvent → Created
  | .scalar _ text => createScalar yaml parent text
  | .mappingStart _ =>
      attach yaml
        { newNode parent with
          yType := .object
          value := .literal "\x7b"
          terminal := "\x7d" }
        yaml.doc.endAt (some yaml.created)
  | .sequenceStart _ =>
      attach yaml
        { newNode parent with
          yType := .sequence
          value := .literal "["
          terminal := "]" }
        yaml.doc.endAt (some yaml.created)
  | _ => bail yaml .einval

/-! ## Parsing -/

/-- How `ymo_yaml_parse` ends: it returns, or it reads through a null pointer. -/
inductive Parsed where
  | returned (yaml : YamlState) (status : Status)
  | fault

/-- The loop of `ymo_yaml_parse`. -/
def parseLoop : List YamlEvent → YamlState → Option Nat → Parsed
  | [], yaml, _ => .returned yaml (.err .einval)
  | event :: events, yaml, parent =>
      match event with
      | .noEvent | .streamStart | .documentStart | .documentEnd
      | .alias _ => parseLoop events yaml parent
      | .streamEnd => .returned yaml .okay
      | .scalar _ _ | .sequenceStart _ | .mappingStart _ =>
          let result := ymoYamlNodeCreate yaml parent event
          match result.node with
          | none => .returned result.yaml result.errno
          | some node => parseLoop events result.yaml (some node)
      | .sequenceEnd | .mappingEnd =>
          match parent with
          | none => .fault
          | some id =>
              parseLoop events yaml
                (popScalars yaml.nodes yaml.created (yaml.nodes id).parent)

/-- `ymo_yaml_parse`, for a document without nodes. -/
def ymoYamlParse (events : List YamlEvent) (doc : YamlDoc) : Parsed :=
  parseLoop events
    { doc := doc
      nodes := fun _ => newNode none
      created := 0 }
    none

/-! ## Looking up a key -/

/-- `!strcasecmp(..)`. -/
def strcaseEqual (left right : Bytes) : Bool :=
  left.map asciiLower == right.map asciiLower

/-- The string that the value of a node is, if it is not null. -/
def nodeString (yaml : YamlState) : NodeValue → Option Bytes
  | .null => none
  | .literal string => some (bytes string)
  | .text offset => some (readString yaml.doc.buffer yaml.doc.len.toNat offset)

/-- What `ymo_yaml_object_get` returns, and `errno` where it is set. -/
structure Lookup where
  node : Option Nat
  errno : Option Errno
deriving DecidableEq

/-- The key of a node is the wanted one. -/
def keyMatches (yaml : YamlState) (kNode : Nat) (key : Bytes) : Bool :=
  match nodeString yaml (yaml.nodes kNode).value with
  | none => false
  | some string => strcaseEqual string key

/-- The loop of `ymo_yaml_object_get`. -/
def objectGetLoop (yaml : YamlState) (key : Bytes) :
    Nat → Option Nat → Lookup
  | 0, _ => { node := none, errno := none }
  | _ + 1, none => { node := none, errno := none }
  | bound + 1, some kNode =>
      if (yaml.nodes kNode).yType = .scalar then
        if keyMatches yaml kNode key = true then
          { node := (yaml.nodes kNode).child, errno := none }
        else objectGetLoop yaml key bound (yaml.nodes kNode).next
      else { node := none, errno := some .einval }

/-- `ymo_yaml_object_get`. -/
def ymoYamlObjectGet (yaml : YamlState) (node : Option Nat) (key : Bytes) :
    Lookup :=
  match node with
  | none => { node := none, errno := none }
  | some id =>
      if (yaml.nodes id).yType ≠ .object then
        { node := none, errno := some .einval }
      else objectGetLoop yaml key yaml.created (yaml.nodes id).child

end Yimmo.Core.Yaml
