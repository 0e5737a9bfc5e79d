import Yimmo.Core.StatusCode
import Yimmo.Core.Characters

/-!
# Tries and offset-indexed tries

This module models `ymo_trie.c`: strings are added to a trie, which is annotated with
the indices of its nodes in preorder and flattened into an array, where the first
child of a node follows it and the next sibling is an offset away.

The array of the children of a node is modelled by its entries that are not `NULL`,
in the order of their characters.  `max_offset`, which is only logged, is left out,
and allocation does not fail.
-/

namespace Yimmo.Core.Trie

open Yimmo.Core.Characters
open Yimmo.Core.StatusCode

/-! ## Characters -/

/-- A string that ends with its first `NUL`. -/
structure CString where
  chars : Bytes
  terminated : 0 ∉ chars

/-- The string in lower case. -/
def CString.lower (string : CString) : Bytes :=
  string.chars.map ymoTolower

/-- `ymo_tolower(*(str_in++))`: the next character, and what follows it. -/
def nextChar : Bytes → UInt8 × Bytes
  | [] => (ymoTolower 0, [])
  | c :: rest => (ymoTolower c, rest)

/-! ## Tries -/

/-- `children` of a node: each entry is a character and the node it leads to, with
the fields of the node and its own children. -/
inductive Children where
  | none
  | entry
      (c : UInt8)
      (value : Bool)
      (index valueId : Nat)
      (below next : Children)
deriving DecidableEq

/-- A node, without its annotation. -/
structure TrieNode where
  value : Bool
  children : Children
deriving DecidableEq

/-- `ymo_trie_node_create`. -/
def ymoTrieNodeCreate : TrieNode where
  value := false
  children := .none

/-- The entry of a character: the node, and its `value_id`. -/
def Children.get (c : UInt8) : Children → Option (TrieNode × Nat)
  | .none => .none
  | .entry d value _ valueId below next =>
      if c = d then some ({ value := value, children := below }, valueId)
      else next.get c

/-- The children with a node for a character. -/
def Children.put (c : UInt8) (node : TrieNode) : Children → Children
  | .none => .entry c node.value 0 0 node.children .none
  | .entry d value index valueId below next =>
      if c < d then
        .entry c node.value 0 0 node.children
          (.entry d value index valueId below next)
      else if c = d then .entry d node.value index valueId node.children next
      else .entry d value index valueId below (next.put c node)

/-- The loop of `ymo_trie_add_string` from a node on, and how many nodes it creates. -/
def addChars : Bytes → TrieNode → TrieNode × Nat
  | [], node => ({ node with value := true }, 0)
  | c :: rest, node =>
      let c := ymoTolower c
      match node.children.get c with
      | some (child, _) =>
          let (child, created) := addChars rest child
          ({ node with children := node.children.put c child }, created)
      | none =>
          let (child, created) := addChars rest ymoTrieNodeCreate
          ({ node with children := node.children.put c child }, created + 1)

/-- `ymo_trie_t`. -/
structure YmoTrie where
  root : TrieNode
  noNodes : Nat
  noValues : Nat

/-- `ymo_trie_create`. -/
def ymoTrieCreate : YmoTrie where
  root := ymoTrieNodeCreate
  noNodes := 0
  noValues := 0

/-- `ymo_trie_add_string`. -/
def ymoTrieAddString (trie : YmoTrie) (strIn : CString) : YmoTrie :=
  let (root, created) := addChars strIn.chars trie.root
  { root := root
    noNodes := trie.noNodes + created
    noValues := trie.noValues + 1 }

/-- `trie_node_annotate`, on `node_id` and `value_id`. -/
def trieNodeAnnotate :
    Children → Nat → Nat → Children × Nat × Nat
  | .none, nodeId, valueId => (.none, nodeId, valueId)
  | .entry c value _ oldId below next, nodeId, valueId =>
      let own := if value then valueId else oldId
      let (below, nodeId', valueId) :=
        trieNodeAnnotate below (nodeId + 1)
          (if value then valueId + 1 else valueId)
      let (next, nodeId', valueId) := trieNodeAnnotate next nodeId' valueId
      (.entry c value nodeId own below next, nodeId', valueId)

/-! ## Offset-indexed tries -/

/-- `OITRIE_HAS_CHILD`. -/
def oitrieHasChild : UInt8 :=
  0x01

/-- `OITRIE_IS_TERMINAL`. -/
def oitrieIsTerminal : UInt8 :=
  0x10

/-- `YMO_OITRIE_MAX_OFFSET`. -/
def ymoOitrieMaxOffset : Nat :=
  0xff

/-- `EOVERFLOW`. -/
def eoverflow : Errno :=
  .other 75

/-- `ymo_oitrie_node_t`. -/
structure OitrieNode where
  flags : UInt8
  hdrId : UInt8
  offset : UInt8
  value : UInt8
deriving DecidableEq

/-- A node after `calloc`. -/
def OitrieNode.zero : OitrieNode where
  flags := 0
  hdrId := 0
  offset := 0
  value := 0

/-- `root` of a flattened trie. -/
abbrev Flat : Type :=
  Nat → OitrieNode

/-- The stores to one node. -/
def Flat.modify (flat : Flat) (index : Nat)
    (change : OitrieNode → OitrieNode) :
    Flat :=
  fun other => if other = index then change (flat index) else flat other

/-- The index of the first node of the children. -/
def Children.firstIndex : Children → Option Nat
  | .none => .none
  | .entry _ _ index _ _ _ => some index

/-- What `oitrie_node_create` stores in a node, but for the offset. -/
def storeNode (c : UInt8) (value : Bool) (valueId : Nat) (below : Children)
    (node : OitrieNode) :
    OitrieNode :=
  let node := { node with value := c }
  let node :=
    if below = .none then node
    else { node with flags := node.flags ||| oitrieHasChild }
  if value then
    { node with
      flags := node.flags ||| oitrieIsTerminal
      hdrId := UInt8.ofNat valueId }
  else node

/--
`oitrie_node_create`, if it returns.  After the last child `i = --t` goes back to
the entry of `0xff`; where that is the child itself, it is visited again for ever.
-/
def oitrieNodeCreate : Children → Flat → Option (Status × Flat)
  | .none, oitrie => some (.okay, oitrie)
  | .entry c value index valueId below next, oitrie =>
      let oitrie := Flat.modify oitrie index (storeNode c value valueId below)
      match next.firstIndex with
      | some right =>
          let offset := right - index
          if offset > ymoOitrieMaxOffset then some (.err eoverflow, oitrie)
          else
            let oitrie :=
              Flat.modify oitrie index fun node =>
                { node with offset := UInt8.ofNat offset }
            match oitrieNodeCreate below oitrie with
            | some (.okay, oitrie) => oitrieNodeCreate next oitrie
            | result => result
      | none =>
          match oitrieNodeCreate below oitrie with
          | some (.okay, oitrie) =>
              if c = 0xff then none else some (.okay, oitrie)
          | result => result

/-- `ymo_oitrie_t`. -/
structure YmoOitrie where
  root : Flat
  noNodes : Nat
  noValues : Nat

/-- The trie after `trie_node_annotate` from the root. -/
def annotated (trie : YmoTrie) : Children :=
  (trieNodeAnnotate trie.root.children 0 0).1

/-- `ymo_oitrie_create`, with what `oitrie_node_create` returns in it. -/
def ymoOitrieCreate (trie : YmoTrie) : Option (Status × YmoOitrie) :=
  (oitrieNodeCreate (annotated trie) fun _ => .zero).map
    fun (status, root) =>
      (status,
        { root := root
          noNodes := trie.noNodes
          noValues := trie.noValues })

/-- How a lookup ends. -/
inductive Lookup where
  | found (hdrId : UInt8)
  | missing
  /-- The node pointer has left the array. -/
  | outside
deriving DecidableEq

/--
The loop of `ymo_oitrie_get_id`.  Every turn moves the pointer on, so after as many
turns as there are nodes it has left the array.
-/
def getIdLoop (oitrie : YmoOitrie) :
    Nat → Nat → UInt8 × Bytes → Lookup
  | 0, _, _ => .outside
  | turns + 1, current, (c, strIn) =>
      if current ≥ oitrie.noNodes then .outside
      else
        let node := oitrie.root current
        if c = node.value then
          let (c, strIn) := nextChar strIn
          if c = 0 ∧ node.flags &&& oitrieIsTerminal ≠ 0 then .found node.hdrId
          else if node.flags &&& oitrieHasChild ≠ 0 then
            getIdLoop oitrie turns (current + 1) (c, strIn)
          else .missing
        else if node.offset ≠ 0 then
          getIdLoop oitrie turns (current + node.offset.toNat) (c, strIn)
        else .missing

/-- `ymo_oitrie_get_id`. -/
def ymoOitrieGetId (oitrie : YmoOitrie) (strIn : CString) : Lookup :=
  getIdLoop oitrie oitrie.noNodes 0 (nextChar strIn.chars)

end Yimmo.Core.Trie
