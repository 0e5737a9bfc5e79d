import Mathlib.Data.List.Nodup
import Yimmo.Http.Headers
import Yimmo.Lib.GuardedRun
import Yimmo.Lib.LinkedList

/-!
# The nodes of the header table

`Headers` takes the buckets of a header table for lists.  In the source they are
chains of nodes: four nodes are part of the table and stand on a free list when they
are not in use, and the others come from the heap and carry a flag that says so.  The
joined values of a name are in a buffer, which comes from the same heap.  This module
models the table with its chains and its blocks, and each operation as the loops over
them that it is.

A block is known by its address, and an address that was given back may be offered
again.  An insertion over a name with joined values frees their buffer and leaves the
node with its address, so that a later one frees whatever is there by then
(`node_twice`).  `Represents` ties the chains to a table of lists for as long as that
does not happen: what is proved about the lists then holds of the chains.

Loops run with a bound on the number of nodes; a loop that does not end within it,
and a block that is freed when it is not in use, yield `none`.
-/

namespace Yimmo.Http.HeaderNodes

open Yimmo.Lib.LinkedList
open Yimmo.Lib.GuardedRun
open Yimmo.Http.Headers

variable
    {hId : HdrId}
    {address : Nat}

/-! ## The table -/

/-- A node: one of the table's own, or one from the heap. -/
inductive NodeRef where
  | item (index : Fin 4)
  | heap (address : Nat)
deriving DecidableEq

/-- The node is from the heap. -/
def NodeRef.isHeap : NodeRef → Bool
  | .item _ => false
  | .heap _ => true

/-- `ymo_http_hdr_table_t`, with the fields of its nodes and the blocks in use. -/
structure NodeTable (Pointer : Type) where
  bucket : Fin 8 → Option NodeRef
  /-- `pool.head`. -/
  head : Option NodeRef
  next : NodeRef → Option NodeRef
  /-- The other fields; joined values are what was last written to the buffer. -/
  content : NodeRef → HdrNode Pointer
  /-- The address in `buffer`. -/
  block : NodeRef → Option Nat
  /-- `YMO_HDR_FLAG_NOPOOL`. -/
  noPool : NodeRef → Bool
  /-- The nodes from the heap that were not given back. -/
  live : List Nat
  /-- The buffers that were not given back. -/
  buffers : List Nat

variable {Pointer : Type}

namespace NodeTable

/-- `ymo_http_hdr_table_init` on zeroed memory. -/
def ymoHttpHdrTableInit (null : Pointer) : NodeTable Pointer where
  bucket _ := none
  head := some (.item ⟨0, by decide⟩)
  next
    | .item ⟨0, _⟩ => some (.item ⟨1, by decide⟩)
    | .item ⟨1, _⟩ => some (.item ⟨2, by decide⟩)
    | .item ⟨2, _⟩ => some (.item ⟨3, by decide⟩)
    | _ => none
  content _ :=
    { hId := 0, hdr := null, hdrLen := 0, value := null, buffer := none }
  block _ := none
  noPool _ := false
  live := []
  buffers := []

/-- More nodes than the table can have in one chain. -/
def bound (table : NodeTable Pointer) : Nat :=
  4 + table.live.length + 1

/-- `malloc`, which may be offered any address that is not in use, or none. -/
def malloc (table : NodeTable Pointer) : Option Nat → Option Nat
  | some address =>
      if address ∈ table.live ∨ address ∈ table.buffers then none
      else some address
  | none => none

/-- `free`, whatever the block is in use for. -/
def free (table : NodeTable Pointer) (address : Nat) :
    Option (NodeTable Pointer) :=
  if address ∈ table.live then
    some { table with live := table.live.erase address }
  else if address ∈ table.buffers then
    some { table with buffers := table.buffers.erase address }
  else none

/-- `ymo_http_hdr_table_node_create`; the heap may have no node. -/
def nodeCreate (table : NodeTable Pointer) (offer : Option Nat) :
    Option (NodeRef × NodeTable Pointer) :=
  match table.head with
  | some node =>
      some
        (node,
          { table with
            head := table.next node
            noPool := Function.update table.noPool node false })
  | none =>
      match table.malloc offer with
      | some address =>
          some
            (.heap address,
              { table with
                noPool := Function.update table.noPool (.heap address) true
                live := address :: table.live })
      | none => none

/-- `YMO_DELETE` of a node. -/
def delete (table : NodeTable Pointer) :
    NodeRef → Option (NodeTable Pointer)
  | .item _ => none
  | .heap address => table.free address

/-- `if( node->buffer ) free(node->buffer)`. -/
def freeBuffer (table : NodeTable Pointer) (node : NodeRef) :
    Option (NodeTable Pointer) :=
  match table.block node with
  | some address => table.free address
  | none => some table

/-- `ymo_http_hdr_table_node_free`. -/
def nodeFree (table : NodeTable Pointer) (node : NodeRef) :
    Option (NodeTable Pointer) :=
  match table.freeBuffer node with
  | some freed =>
      let unbuffered :=
        { freed with
          content :=
            Function.update freed.content node
              { freed.content node with buffer := none }
          block := Function.update freed.block node none }
      if freed.noPool node then unbuffered.delete node
      else
        some
          { unbuffered with
            next := Function.update freed.next node freed.head
            head := some node }
  | none => none

/-- `table_insert_first`. -/
def tableInsertFirst (table : NodeTable Pointer) (offer : Option Nat)
    (index : Fin 8)
    (content : HdrNode Pointer) :
    NodeTable Pointer :=
  match table.nodeCreate offer with
  | some (node, table) =>
      { table with
        content := Function.update table.content node content
        block := Function.update table.block node none
        next := Function.update table.next node (table.bucket index)
        bucket := Function.update table.bucket index (some node) }
  | none => table

/-- The loop over a bucket that ends at the node with the hash. -/
def findFrom (table : NodeTable Pointer) (hId : HdrId) :
    Nat → Option NodeRef → Option (Option NodeRef)
  | 0, _ => none
  | _ + 1, none => some none
  | bound + 1, some current =>
      if (table.content current).hId = hId then some (some current)
      else findFrom table hId bound (table.next current)

/-- The node of the bucket with the hash. -/
def find (table : NodeTable Pointer) (hId : HdrId) : Option (Option NodeRef) :=
  table.findFrom hId table.bound (table.bucket (bucketIndex hId))

/-- Writes the fields of a node. -/
def write (table : NodeTable Pointer) (node : NodeRef)
    (update : HdrNode Pointer → HdrNode Pointer) :
    NodeTable Pointer :=
  { table with
    content :=
      Function.update table.content node (update (table.content node)) }

/-- `ymo_http_hdr_table_insert_precompute`; the node keeps the address. -/
def ymoHttpHdrTableInsertPrecompute (table : NodeTable Pointer)
    (offer : Option Nat)
    (hId : HdrId)
    (hdr : Pointer)
    (hdrLen : Nat)
    (value : Pointer) :
    Option (NodeTable Pointer) :=
  match table.find hId with
  | some (some current) =>
      (table.freeBuffer current).map fun freed =>
        freed.write current fun node =>
          { node with hdr := hdr, hdrLen := hdrLen, value := value }
  | some none =>
      some
        (table.tableInsertFirst offer (bucketIndex hId)
          { hId := hId, hdr := hdr, hdrLen := hdrLen, value := value,
            buffer := none })
  | none => none

/-- `ymo_http_hdr_table_insert`. -/
def ymoHttpHdrTableInsert (read : Pointer → Bytes) (table : NodeTable Pointer)
    (offer : Option Nat)
    (hdr value : Pointer) :
    Option (NodeTable Pointer) :=
  table.ymoHttpHdrTableInsertPrecompute offer
    (ymoHttpHdrHash (read hdr)) hdr (read hdr).length value

/--
Another value for a node that was found: `malloc` of its buffer, or `realloc`, which
frees the old one unless there is no memory.  Either way the node gets the result.
-/
def joinBuffer (read : Pointer → Bytes) (stray : Bytes)
    (table : NodeTable Pointer)
    (offer : Option Nat)
    (current : NodeRef)
    (value : Pointer) :
    Option (NodeTable Pointer) :=
  match table.freeBuffer current with
  | some freed =>
      match freed.malloc offer with
      | some address =>
          some
            { freed.write current (joinValue read stray value) with
              block := Function.update freed.block current (some address)
              buffers := address :: freed.buffers }
      | none =>
          some
            { table.write current fun node =>
                { node with buffer := none } with
              block := Function.update table.block current none }
  | none => none

/-- `ymo_http_hdr_table_add_precompute`. -/
def ymoHttpHdrTableAddPrecompute (read : Pointer → Bytes) (stray : Bytes)
    (table : NodeTable Pointer)
    (offer : Option Nat)
    (hId : HdrId)
    (hdr : Pointer)
    (hdrLen : Nat)
    (value : Pointer) :
    Option (NodeTable Pointer) :=
  match table.find hId with
  | some (some current) =>
      joinBuffer read stray table offer current value
  | some none =>
      some
        (table.tableInsertFirst offer (bucketIndex hId)
          { hId := hId, hdr := hdr, hdrLen := hdrLen, value := value,
            buffer := none })
  | none => none

/-- `ymo_http_hdr_table_add`. -/
def ymoHttpHdrTableAdd (read : Pointer → Bytes) (stray : Bytes)
    (table : NodeTable Pointer)
    (offer : Option Nat)
    (hdr value : Pointer) :
    Option (NodeTable Pointer) :=
  let hId := ymoHttpHdrHash (read hdr)
  let hdrLen := (read hdr).length
  match table.find hId with
  | some (some current) =>
      if (table.content current).hId = ymoHttpHidSetCookie then
        some
          (table.tableInsertFirst offer (bucketIndex hId)
            { hId := ymoHttpHidSetCookie, hdr := hdr, hdrLen := hdrLen,
              value := value, buffer := none })
      else joinBuffer read stray table offer current value
  | some none =>
      some
        (table.tableInsertFirst offer (bucketIndex hId)
          { hId := hId, hdr := hdr, hdrLen := hdrLen, value := value,
            buffer := none })
  | none => none

/-- The loop over a bucket that frees its nodes. -/
def clearFrom :
    Nat → NodeTable Pointer → Option NodeRef → Option (NodeTable Pointer)
  | 0, _, _ => none
  | _ + 1, table, none => some table
  | bound + 1, table, some current =>
      match table.nodeFree current with
      | some later => clearFrom bound later (table.next current)
      | none => none

/-- The loop over the buckets. -/
def clearBuckets :
    List (Fin 8) → NodeTable Pointer → Option (NodeTable Pointer)
  | [], table => some table
  | index :: rest, table =>
      match clearFrom table.bound table (table.bucket index) with
      | some later =>
          clearBuckets rest
            { later with bucket := Function.update later.bucket index none }
      | none => none

/-- `ymo_http_hdr_table_clear`. -/
def ymoHttpHdrTableClear (table : NodeTable Pointer) :
    Option (NodeTable Pointer) :=
  clearBuckets (List.finRange 8) table

/-- The first node of the buckets from an index on. -/
def firstFrom (table : NodeTable Pointer) (start : Nat) : Option NodeRef :=
  ((List.finRange 8).drop start).findSome? table.bucket

/-- `ymo_http_hdr_table_next`: the node that comes after the cursor. -/
def ymoHttpHdrTableNext (table : NodeTable Pointer) :
    Option NodeRef → Option NodeRef
  | some current =>
      match table.next current with
      | some later => some later
      | none =>
          table.firstFrom ((bucketIndex (table.content current).hId).val + 1)
  | none => table.firstFrom 0

end NodeTable

/-! ## Chains and lists -/

/--
Of the nodes `inside`, those with joined values have a buffer each, which is in use,
and by no other of them.
-/
structure Owns
    (table : NodeTable Pointer)
    (inside : NodeRef → Prop) :
    Prop where
  joined :
    ∀ node, inside node →
      (table.content node).buffer.isSome = (table.block node).isSome
  owned :
    ∀ node, inside node → ∀ address ∈ table.block node, address ∈ table.buffers
  once :
    ∀ node other, inside node → inside other →
      ∀ address ∈ table.block node, address ∈ table.block other →
        node = other
  buffersNodup : table.buffers.Nodup
  kinds : ∀ address ∈ table.live, address ∉ table.buffers

/-- The buffers without that of a node. -/
def NodeTable.otherBuffers (table : NodeTable Pointer) (node : NodeRef) :
    List Nat :=
  match table.block node with
  | some address => table.buffers.erase address
  | none => table.buffers

section

variable
    {table : NodeTable Pointer}
    {inside : NodeRef → Prop}
    {node : NodeRef}

/-- What `malloc` returns was not in use. -/
theorem not_used_of_malloc {offer : Option Nat}
    (allocated : table.malloc offer = some address) :
    address ∉ table.live ∧ address ∉ table.buffers := by
  cases offer with
  | none => cases allocated
  | some offered =>
      rw [NodeTable.malloc] at allocated
      split at allocated
      · cases allocated
      · rename_i unused
        cases allocated
        exact not_or.mp unused

theorem mem_of_mem_otherBuffers (other : address ∈ table.otherBuffers node) :
    address ∈ table.buffers := by
  rw [NodeTable.otherBuffers] at other
  split at other
  · exact List.mem_of_mem_erase other
  · exact other

namespace Owns

/-- A node's buffer can be freed. -/
theorem freeBuffer (owns : Owns table inside) (here : inside node) :
    table.freeBuffer node =
      some { table with buffers := table.otherBuffers node } := by
  rw [NodeTable.freeBuffer, NodeTable.otherBuffers]
  cases block : table.block node with
  | none => rfl
  | some address =>
      have used := owns.owned node here address block
      have apart : address ∉ table.live :=
        fun live => owns.kinds address live used
      show table.free address = _
      rw [NodeTable.free, if_neg apart, if_pos used]

theorem nodup_otherBuffers (owns : Owns table inside) :
    (table.otherBuffers node).Nodup := by
  rw [NodeTable.otherBuffers]
  split
  · exact owns.buffersNodup.erase _
  · exact owns.buffersNodup

/-- The buffers of the other nodes stay in use. -/
theorem mem_otherBuffers (owns : Owns table inside) (here : inside node)
    {other : NodeRef}
    (there : inside other)
    (different : other ≠ node)
    (block : address ∈ table.block other) :
    address ∈ table.otherBuffers node := by
  have used := owns.owned other there address block
  rw [NodeTable.otherBuffers]
  cases own : table.block node with
  | none => exact used
  | some freed =>
      refine (List.mem_erase_of_ne ?_).mpr used
      rintro rfl
      exact different (owns.once other node there here _ block own)

/-- A node is given another buffer, or none. -/
theorem setBuffer
    (owns : Owns table inside)
    (here : inside node)
    {later : NodeTable Pointer}
    {block : Option Nat}
    (content :
      ∀ other, other ≠ node →
        (later.content other).buffer = (table.content other).buffer)
    (blocks : later.block = Function.update table.block node block)
    (live : ∀ address ∈ later.live, address ∈ table.live)
    (joined : (later.content node).buffer.isSome = block.isSome)
    (nodup : later.buffers.Nodup)
    (grown :
      ∀ address, address ∈ later.buffers →
        address ∈ table.buffers ∨ address ∉ table.live)
    (kept : ∀ address ∈ table.otherBuffers node, address ∈ later.buffers)
    (owned : ∀ address ∈ block, address ∈ later.buffers)
    (apart : ∀ address ∈ block, address ∉ table.otherBuffers node) :
    Owns later inside := by
  have own : later.block node = block := by rw [blocks, Function.update_self]
  have old : ∀ other, other ≠ node → later.block other = table.block other := by
    intro other different
    rw [blocks, Function.update_of_ne different]
  have others :
      ∀ other, inside other → other ≠ node →
        ∀ address ∈ later.block other, address ∈ table.otherBuffers node := by
    intro other there different address held
    rw [old other different] at held
    exact owns.mem_otherBuffers here there different held
  refine
    { joined := ?_, owned := ?_, once := ?_, buffersNodup := nodup,
      kinds := ?_ }
  · intro other there
    by_cases same : other = node
    · rw [same, own, joined]
    · rw [old other same, content other same, owns.joined other there]
  · intro other there address held
    by_cases same : other = node
    · rw [same, own] at held
      exact owned address held
    · exact kept address (others other there same address held)
  · intro left right isLeft isRight address first second
    by_cases leftHere : left = node
    · by_cases rightHere : right = node
      · rw [leftHere, rightHere]
      · rw [leftHere, own] at first
        exact
          absurd (others right isRight rightHere address second)
            (apart address first)
    · by_cases rightHere : right = node
      · rw [rightHere, own] at second
        exact
          absurd (others left isLeft leftHere address first)
            (apart address second)
      · rw [old left leftHere] at first
        rw [old right rightHere] at second
        exact owns.once left right isLeft isRight address first second
  · intro address isLive held
    rcases grown address held with before | fresh
    · exact owns.kinds address (live address isLive) before
    · exact fresh (live address isLive)

/-- A node loses its buffer, and some nodes are no longer looked at. -/
theorem shrink
    (owns : Owns table inside)
    (here : inside node)
    {later : NodeTable Pointer}
    (content :
      later.content =
        Function.update table.content node
          { table.content node with buffer := none })
    (blocks : later.block = Function.update table.block node none)
    (buffers : later.buffers = table.otherBuffers node)
    (live : ∀ address ∈ later.live, address ∈ table.live)
    {fewer : NodeRef → Prop}
    (among : ∀ other, fewer other → inside other) :
    Owns later fewer := by
  have whole : Owns later inside := by
    apply owns.setBuffer here _ blocks live
    · rw [content, Function.update_self]
      rfl
    · rw [buffers]
      exact owns.nodup_otherBuffers
    · intro address held
      rw [buffers] at held
      exact Or.inl (mem_of_mem_otherBuffers held)
    · intro address held
      rw [buffers]
      exact held
    · intro address absurdity
      cases absurdity
    · intro address absurdity
      cases absurdity
    · intro other different
      rw [content, Function.update_of_ne different]
  exact
    { joined := fun other there => whole.joined other (among other there)
      owned := fun other there => whole.owned other (among other there)
      once := fun left right isLeft isRight =>
        whole.once left right (among left isLeft) (among right isRight)
      buffersNodup := whole.buffersNodup
      kinds := whole.kinds }

/-- A node without a buffer is looked at as well. -/
theorem grow
    (owns : Owns table inside)
    {later : NodeTable Pointer}
    (own : later.block node = none)
    (plain : (later.content node).buffer = none)
    (old :
      ∀ kept, inside kept →
        later.block kept = table.block kept ∧
          later.content kept = table.content kept)
    (buffers : later.buffers = table.buffers)
    (kinds : ∀ address ∈ later.live, address ∉ table.buffers)
    {more : NodeRef → Prop}
    (among : ∀ kept, more kept → kept = node ∨ inside kept) :
    Owns later more := by
  refine
    { joined := ?_, owned := ?_, once := ?_, buffersNodup := ?_,
      kinds := ?_ }
  · intro kept there
    rcases among kept there with rfl | before
    · rw [own, plain]
      rfl
    · rw [(old kept before).1, (old kept before).2]
      exact owns.joined kept before
  · intro kept there address held
    rw [buffers]
    rcases among kept there with rfl | before
    · rw [own] at held
      cases held
    · rw [(old kept before).1] at held
      exact owns.owned kept before address held
  · intro left right isLeft isRight address first second
    rcases among left isLeft with rfl | leftBefore
    · rw [own] at first
      cases first
    · rcases among right isRight with rfl | rightBefore
      · rw [own] at second
        cases second
      · rw [(old left leftBefore).1] at first
        rw [(old right rightBefore).1] at second
        exact owns.once left right leftBefore rightBefore address first second
  · rw [buffers]
    exact owns.buffersNodup
  · rw [buffers]
    exact kinds

end Owns

end

/--
The chains from `heads` are the lists, which hold the nodes of a table of lists; the
free list holds the rest of the table's own nodes, and the nodes from the heap that
were not given back are those in the lists.
-/
structure Represents
    (table : NodeTable Pointer)
    (heads : Fin 8 → Option NodeRef)
    (free : List NodeRef)
    (lists : Fin 8 → List NodeRef)
    (abstract : HdrTable Pointer) :
    Prop where
  freeLinked : Linked table.next table.head free
  linked : ∀ index, Linked table.next (heads index) (lists index)
  contents : ∀ index, (lists index).map table.content = abstract.bucket index
  placed : abstract.Placed
  apart : ∀ index, ∀ node ∈ lists index, node ∉ free
  freeItems : ∀ node ∈ free, node.isHeap = false
  items :
    ∀ item, NodeRef.item item ∈ free ∨ ∃ index, NodeRef.item item ∈ lists index
  flagged : ∀ index, ∀ node ∈ lists index, table.noPool node = node.isHeap
  live : ∀ id, id ∈ table.live ↔ ∃ index, NodeRef.heap id ∈ lists index
  liveNodup : table.live.Nodup
  owns : Owns table fun node => ∃ index, node ∈ lists index

variable
    {node : NodeRef}
    {rest : List NodeRef}

namespace Represents

variable
    {table : NodeTable Pointer}
    {heads : Fin 8 → Option NodeRef}
    {free : List NodeRef}
    {lists : Fin 8 → List NodeRef}
    {abstract : HdrTable Pointer}

/-- Every node in a list has the index of the list. -/
theorem bucketIndex_eq
    (represents : Represents table heads free lists abstract)
    {index : Fin 8}
    (member : node ∈ lists index) :
    bucketIndex (table.content node).hId = index := by
  apply represents.placed index
  rw [← represents.contents index]
  exact List.mem_map_of_mem member

/-- No node is in two lists. -/
theorem separate (represents : Represents table heads free lists abstract)
    {index other : Fin 8}
    (different : other ≠ index)
    (member : node ∈ lists index) :
    node ∉ lists other := by
  intro again
  exact
    different
      ((represents.bucketIndex_eq again).symm.trans
        (represents.bucketIndex_eq member))

/-- No list is as long as the bound. -/
theorem length_lt_bound
    (represents : Represents table heads free lists abstract)
    (index : Fin 8) :
    (lists index).length < table.bound := by
  have known :
      lists index ⊆
        (List.finRange 4).map NodeRef.item ++ table.live.map NodeRef.heap := by
    intro node member
    cases node with
    | item item =>
        exact
          List.mem_append_left _ (List.mem_map_of_mem (List.mem_finRange item))
    | heap id =>
        exact
          List.mem_append_right _
            (List.mem_map_of_mem ((represents.live id).mpr ⟨index, member⟩))
  have most := ((represents.linked index).nodup.subperm known).length_le
  rw [List.length_append, List.length_map, List.length_map,
    List.length_finRange] at most
  rw [NodeTable.bound]
  omega

/-! ## Freeing nodes -/

/-- The lists without the first node of one of them. -/
theorem mem_of_mem_shrunk {index : Fin 8} (first : lists index = node :: rest)
    {other : Fin 8}
    {kept : NodeRef}
    (inside : kept ∈ Function.update lists index rest other) :
    kept ∈ lists other := by
  by_cases same : other = index
  · rw [same, Function.update_self] at inside
    rw [same, first]
    exact List.mem_cons_of_mem node inside
  · rw [Function.update_of_ne same] at inside
    exact inside

theorem mem_shrunk {index : Fin 8} (first : lists index = node :: rest)
    {other : Fin 8}
    {kept : NodeRef}
    (inside : kept ∈ lists other)
    (different : kept ≠ node) :
    kept ∈ Function.update lists index rest other := by
  by_cases same : other = index
  · rw [same, first] at inside
    rw [same, Function.update_self]
    exact List.mem_of_ne_of_mem different inside
  · rw [Function.update_of_ne same]
    exact inside

theorem not_mem_shrunk
    (represents : Represents table heads free lists abstract)
    {index : Fin 8}
    (first : lists index = node :: rest)
    (other : Fin 8) :
    node ∉ Function.update lists index rest other := by
  by_cases same : other = index
  · rw [same, Function.update_self]
    have distinct := (represents.linked index).nodup
    rw [first] at distinct
    exact (List.nodup_cons.mp distinct).1
  · rw [Function.update_of_ne same]
    apply represents.separate same
    rw [first]
    exact List.mem_cons_self

theorem linked_shrunk (represents : Represents table heads free lists abstract)
    {index : Fin 8}
    (first : lists index = node :: rest)
    (other : Fin 8) :
    Linked table.next
      (Function.update heads index (table.next node) other)
      (Function.update lists index rest other) := by
  by_cases same : other = index
  · have whole := represents.linked index
    rw [first] at whole
    rw [same, Function.update_self, Function.update_self]
    exact whole.of_cons.2
  · rw [Function.update_of_ne same, Function.update_of_ne same]
    exact represents.linked other

/-- The table of lists without the first node of a bucket. -/
def shrink (abstract : HdrTable Pointer) (index : Fin 8) :
    HdrTable Pointer where
  bucket := Function.update abstract.bucket index (abstract.bucket index).tail

theorem placed_shrink (placed : abstract.Placed) (index : Fin 8) :
    (shrink abstract index).Placed := by
  intro other content inside
  rw [shrink] at inside
  dsimp only at inside
  by_cases same : other = index
  · rw [same, Function.update_self] at inside
    rw [same]
    exact placed index content (List.mem_of_mem_tail inside)
  · rw [Function.update_of_ne same] at inside
    exact placed other content inside

theorem contents_shrunk
    (represents : Represents table heads free lists abstract)
    {index : Fin 8}
    (first : lists index = node :: rest)
    (content : HdrNode Pointer)
    (other : Fin 8) :
    (Function.update lists index rest other).map
        (Function.update table.content node content) =
      (shrink abstract index).bucket other := by
  have unchanged :
      (Function.update lists index rest other).map
          (Function.update table.content node content) =
        (Function.update lists index rest other).map table.content := by
    apply List.map_congr_left
    intro kept inside
    exact
      Function.update_of_ne
        (ne_of_mem_of_not_mem inside
          (represents.not_mem_shrunk first other)) _ _
  rw [unchanged, shrink]
  dsimp only
  by_cases same : other = index
  · rw [same, Function.update_self, Function.update_self,
      ← represents.contents index, first]
    rfl
  · rw [Function.update_of_ne same, Function.update_of_ne same]
    exact represents.contents other

/-- A node of the table goes back to the free list. -/
theorem nodeFree_item (represents : Represents table heads free lists abstract)
    {index : Fin 8}
    {item : Fin 4}
    (first : lists index = .item item :: rest) :
    ∃ later,
      table.nodeFree (.item item) = some later ∧
        later.bucket = table.bucket ∧
          Represents later
            (Function.update heads index (table.next (.item item)))
            (.item item :: free)
            (Function.update lists index rest)
            (shrink abstract index) := by
  have member : NodeRef.item item ∈ lists index := by
    rw [first]
    exact List.mem_cons_self
  have pooled : table.noPool (.item item) = false :=
    represents.flagged index (.item item) member
  have inside : ∃ index, NodeRef.item item ∈ lists index := ⟨index, member⟩
  rw [NodeTable.nodeFree, represents.owns.freeBuffer inside]
  dsimp only
  rw [pooled]
  refine ⟨_, rfl, rfl, ?_⟩
  exact
    { freeLinked := by
        apply Linked.cons
        show
          Linked (Function.update table.next (.item item) table.head)
            (Function.update table.next (.item item) table.head (.item item))
            free
        rw [Function.update_self]
        apply represents.freeLinked.congr
        intro other inside
        exact
          Function.update_of_ne
            (ne_of_mem_of_not_mem inside (represents.apart index _ member)) _ _
      linked := by
        intro other
        apply (represents.linked_shrunk first other).congr
        intro kept inside
        exact
          Function.update_of_ne
            (ne_of_mem_of_not_mem inside
              (represents.not_mem_shrunk first other)) _ _
      contents := represents.contents_shrunk first _
      placed := placed_shrink represents.placed index
      apart := by
        intro other kept inside
        rw [List.mem_cons, not_or]
        exact
          ⟨ne_of_mem_of_not_mem inside
              (represents.not_mem_shrunk first other),
            represents.apart other kept (mem_of_mem_shrunk first inside)⟩
      freeItems := by
        intro freed inside
        rcases List.mem_cons.mp inside with rfl | before
        · rfl
        · exact represents.freeItems freed before
      items := by
        intro other
        by_cases same : NodeRef.item other = .item item
        · rw [same]
          exact Or.inl List.mem_cons_self
        · rcases represents.items other with before | ⟨list, inside⟩
          · exact Or.inl (List.mem_cons_of_mem _ before)
          · exact Or.inr ⟨list, mem_shrunk first inside same⟩
      flagged := fun other kept inside =>
        represents.flagged other kept (mem_of_mem_shrunk first inside)
      live := by
        intro id
        show id ∈ table.live ↔ _
        rw [represents.live id]
        constructor
        · rintro ⟨list, inside⟩
          exact ⟨list, mem_shrunk first inside NodeRef.noConfusion⟩
        · rintro ⟨list, inside⟩
          exact ⟨list, mem_of_mem_shrunk first inside⟩
      liveNodup := represents.liveNodup
      owns := by
        apply represents.owns.shrink inside
        · rfl
        · rfl
        · rfl
        · exact fun _ held => held
        · rintro _ ⟨list, kept⟩
          exact ⟨list, mem_of_mem_shrunk first kept⟩ }

/-- A node from the heap is given back. -/
theorem nodeFree_heap (represents : Represents table heads free lists abstract)
    {index : Fin 8}
    {id : Nat}
    (first : lists index = .heap id :: rest) :
    ∃ later,
      table.nodeFree (.heap id) = some later ∧
        later.bucket = table.bucket ∧
          Represents later
            (Function.update heads index (table.next (.heap id)))
            free
            (Function.update lists index rest)
            (shrink abstract index) := by
  have member : NodeRef.heap id ∈ lists index := by
    rw [first]
    exact List.mem_cons_self
  have foreign : table.noPool (.heap id) = true :=
    represents.flagged index (.heap id) member
  have inside : ∃ index, NodeRef.heap id ∈ lists index := ⟨index, member⟩
  have used : id ∈ table.live := (represents.live id).mpr inside
  rw [NodeTable.nodeFree, represents.owns.freeBuffer inside]
  dsimp only
  rw [foreign, if_pos rfl, NodeTable.delete, NodeTable.free, if_pos used]
  refine ⟨_, rfl, rfl, ?_⟩
  exact
    { freeLinked := represents.freeLinked
      linked := represents.linked_shrunk first
      contents := represents.contents_shrunk first _
      placed := placed_shrink represents.placed index
      apart := fun other kept inside =>
        represents.apart other kept (mem_of_mem_shrunk first inside)
      freeItems := represents.freeItems
      items := by
        intro item
        rcases represents.items item with before | ⟨list, inside⟩
        · exact Or.inl before
        · exact Or.inr ⟨list, mem_shrunk first inside NodeRef.noConfusion⟩
      flagged := fun other kept inside =>
        represents.flagged other kept (mem_of_mem_shrunk first inside)
      live := by
        intro other
        show other ∈ table.live.erase id ↔ _
        rw [represents.liveNodup.mem_erase_iff, represents.live other]
        constructor
        · rintro ⟨different, list, inside⟩
          refine ⟨list, mem_shrunk first inside ?_⟩
          intro same
          exact different (NodeRef.heap.inj same)
        · rintro ⟨list, inside⟩
          refine ⟨?_, list, mem_of_mem_shrunk first inside⟩
          intro same
          rw [same] at inside
          exact represents.not_mem_shrunk first list inside
      liveNodup := represents.liveNodup.erase id
      owns := by
        apply represents.owns.shrink inside
        · rfl
        · rfl
        · rfl
        · exact fun _ held => List.mem_of_mem_erase held
        · rintro _ ⟨list, kept⟩
          exact ⟨list, mem_of_mem_shrunk first kept⟩ }

/-- The loop over a bucket frees all of its nodes. -/
theorem clearFrom {bound : Nat}
    (represents : Represents table heads free lists abstract)
    {index : Fin 8}
    (enough : (lists index).length < bound) :
    ∃ later free',
      NodeTable.clearFrom bound table (heads index) = some later ∧
        later.bucket = table.bucket ∧
          Represents later (Function.update heads index none) free'
            (Function.update lists index [])
            { bucket := Function.update abstract.bucket index [] } := by
  induction bound generalizing table heads free lists abstract with
  | zero => nomatch enough
  | succ bound ih =>
      have chain := represents.linked index
      cases list : lists index with
      | nil =>
          rw [list] at chain
          cases head : heads index with
          | some node =>
              rw [head] at chain
              cases chain
          | none =>
              have empty : abstract.bucket index = [] := by
                rw [← represents.contents index, list]
                rfl
              refine ⟨table, free, rfl, rfl, ?_⟩
              rw [← head, ← list, ← empty, Function.update_eq_self,
                Function.update_eq_self, Function.update_eq_self]
              exact represents
      | cons node rest =>
          rw [list] at chain
          rw [chain.of_cons.1, NodeTable.clearFrom]
          have freed :
              ∃ later free',
                table.nodeFree node = some later ∧
                  later.bucket = table.bucket ∧
                    Represents later
                      (Function.update heads index (table.next node)) free'
                      (Function.update lists index rest)
                      (shrink abstract index) := by
            cases node with
            | item item =>
                rcases represents.nodeFree_item list with
                  ⟨later, frees, same, freed⟩
                exact ⟨later, _, frees, same, freed⟩
            | heap id =>
                rcases represents.nodeFree_heap list with
                  ⟨later, frees, same, freed⟩
                exact ⟨later, _, frees, same, freed⟩
          rcases freed with ⟨next, free', frees, same', freed⟩
          have shorter :
              (Function.update lists index rest index).length < bound := by
            rw [list] at enough
            rw [Function.update_self]
            exact Nat.lt_of_succ_lt_succ enough
          rcases ih freed shorter with
            ⟨later, final, ends, same, done⟩
          rw [Function.update_self] at ends
          rw [frees]
          refine ⟨later, final, ends, same.trans same', ?_⟩
          · rw [shrink, Function.update_idem, Function.update_idem] at done
            dsimp only at done
            rw [Function.update_idem] at done
            exact done

/-- The heads do not have to be the table's own. -/
theorem withBucket (represents : Represents table heads free lists abstract)
    (bucket : Fin 8 → Option NodeRef) :
    Represents { table with bucket := bucket } heads free lists abstract where
  freeLinked := represents.freeLinked
  linked := represents.linked
  contents := represents.contents
  placed := represents.placed
  apart := represents.apart
  freeItems := represents.freeItems
  items := represents.items
  flagged := represents.flagged
  live := represents.live
  liveNodup := represents.liveNodup
  owns :=
    { joined := represents.owns.joined
      owned := represents.owns.owned
      once := represents.owns.once
      buffersNodup := represents.owns.buffersNodup
      kinds := represents.owns.kinds }

/-- The loop over the buckets empties them. -/
theorem clearBuckets
    (represents : Represents table table.bucket free lists abstract)
    (indices : List (Fin 8)) :
    ∃ later free' lists' abstract',
      NodeTable.clearBuckets indices table = some later ∧
        Represents later later.bucket free' lists' abstract' ∧
          ∀ index, index ∈ indices ∨ lists index = [] → lists' index = [] := by
  induction indices generalizing table free lists abstract with
  | nil =>
      refine ⟨table, free, lists, abstract, rfl, represents, ?_⟩
      rintro index (absurdity | empty)
      · cases absurdity
      · exact empty
  | cons first rest ih =>
      rcases represents.clearFrom (represents.length_lt_bound first) with
        ⟨cleared, free', ends, same, done⟩
      have next := done.withBucket (Function.update cleared.bucket first none)
      rw [← same] at next
      rcases ih next with
        ⟨later, final, lists', abstract', cleared', represents', empty⟩
      refine ⟨later, final, lists', abstract', ?_, represents', ?_⟩
      · rw [NodeTable.clearBuckets, ends]
        exact cleared'
      · intro index among
        apply empty
        by_cases here : index = first
        · rw [here, Function.update_self]
          exact Or.inr rfl
        · rw [Function.update_of_ne here]
          rcases among with member | before
          · exact Or.inl (List.mem_of_ne_of_mem here member)
          · exact Or.inr before

/-- `ymo_http_hdr_table_clear` ends, and leaves no node in the buckets. -/
theorem ymoHttpHdrTableClear
    (represents : Represents table table.bucket free lists abstract) :
    ∃ later free',
      table.ymoHttpHdrTableClear = some later ∧
        Represents later later.bucket free' (fun _ => [])
          Headers.ymoHttpHdrTableClear := by
  rcases represents.clearBuckets (List.finRange 8) with
    ⟨later, free', lists', abstract', ends, represents', empty⟩
  have none : lists' = fun _ => [] := by
    funext index
    exact empty index (Or.inl (List.mem_finRange index))
  subst none
  have cleared : abstract' = Headers.ymoHttpHdrTableClear := by
    cases abstract' with
    | mk bucket =>
        rw [Headers.ymoHttpHdrTableClear]
        congr 1
        funext index
        exact (represents'.contents index).symm
  rw [cleared] at represents'
  exact ⟨later, free', ends, represents'⟩

end Represents

/-! ## Inserting nodes -/

/-- What `ymo_http_hdr_table_node_create` does when it has a node. -/
structure Created
    (table created : NodeTable Pointer)
    (node : NodeRef)
    (free free' : List NodeRef) :
    Prop where
  bucket : created.bucket = table.bucket
  next : created.next = table.next
  content : created.content = table.content
  block : created.block = table.block
  noPool : created.noPool = Function.update table.noPool node node.isHeap
  freeLinked : Linked table.next created.head free'
  taken : node ∉ free'
  among : ∀ other, other ∈ free' → other ∈ free
  rest : ∀ other, other ∈ free → other = node ∨ other ∈ free'
  live : ∀ id, id ∈ created.live ↔ NodeRef.heap id = node ∨ id ∈ table.live
  liveNodup : created.live.Nodup
  buffers : created.buffers = table.buffers
  kinds : ∀ address ∈ created.live, address ∉ table.buffers

namespace Represents

variable
    {table : NodeTable Pointer}
    {heads : Fin 8 → Option NodeRef}
    {free : List NodeRef}
    {lists : Fin 8 → List NodeRef}
    {abstract : HdrTable Pointer}

/-- A node comes from the free list, or from the heap, or there is none. -/
theorem nodeCreate (represents : Represents table heads free lists abstract)
    (offer : Option Nat) :
    (∃ node created free',
        table.nodeCreate offer = some (node, created) ∧
          Created table created node free free' ∧
            ∀ index, node ∉ lists index) ∨
      (table.nodeCreate offer = none ∧ table.malloc offer = none) := by
  rw [NodeTable.nodeCreate]
  cases head : table.head with
  | some node =>
      have chain := represents.freeLinked
      rw [head] at chain
      rcases chain.of_some with ⟨rest, list, tail⟩
      have distinct := represents.freeLinked.nodup
      rw [list] at distinct
      rcases List.nodup_cons.mp distinct with ⟨taken, -⟩
      have member : node ∈ free := by
        rw [list]
        exact List.mem_cons_self
      have pooled := represents.freeItems node member
      refine Or.inl ⟨node, _, rest, rfl, ?_, ?_⟩
      · exact
          { bucket := rfl
            next := rfl
            content := rfl
            block := rfl
            noPool := by rw [pooled]
            freeLinked := tail
            taken := taken
            among := by
              intro other inside
              rw [list]
              exact List.mem_cons_of_mem node inside
            rest := by
              intro other inside
              rw [list] at inside
              exact List.mem_cons.mp inside
            live := by
              intro id
              constructor
              · exact Or.inr
              · rintro (same | live)
                · rw [← same] at pooled
                  cases pooled
                · exact live
            liveNodup := represents.liveNodup
            buffers := rfl
            kinds := represents.owns.kinds }
      · intro index inside
        exact represents.apart index node inside member
  | none =>
      have empty : free = [] := by
        have chain := represents.freeLinked
        rw [head] at chain
        cases chain
        rfl
      cases allocated : table.malloc offer with
      | none => exact Or.inr ⟨rfl, rfl⟩
      | some address =>
          have unused := not_used_of_malloc allocated
          refine Or.inl ⟨.heap address, _, [], rfl, ?_, ?_⟩
          · exact
              { bucket := rfl
                next := rfl
                content := rfl
                block := rfl
                noPool := rfl
                freeLinked := .nil
                taken := List.not_mem_nil
                among := fun _ inside => absurd inside List.not_mem_nil
                rest := by
                  intro other inside
                  rw [empty] at inside
                  cases inside
                live := by
                  intro id
                  show id ∈ address :: table.live ↔ _
                  rw [List.mem_cons, NodeRef.heap.injEq]
                liveNodup := List.nodup_cons.mpr
                  ⟨unused.1, represents.liveNodup⟩
                buffers := rfl
                kinds := by
                  intro id inside
                  rcases List.mem_cons.mp inside with rfl | before
                  · exact unused.2
                  · exact represents.owns.kinds id before }
          · intro index inside
            exact unused.1 ((represents.live address).mpr ⟨index, inside⟩)

/-- A new node in front of a bucket. -/
theorem push (represents : Represents table table.bucket free lists abstract)
    {created : NodeTable Pointer}
    {free' : List NodeRef}
    (create : Created table created node free free')
    (absent : ∀ index, node ∉ lists index)
    (content : HdrNode Pointer)
    (plain : content.buffer = none) :
    let index := bucketIndex content.hId
    let later : NodeTable Pointer :=
      { created with
        content := Function.update created.content node content
        block := Function.update created.block node none
        next := Function.update created.next node (created.bucket index)
        bucket := Function.update created.bucket index (some node) }
    Represents later later.bucket free'
      (Function.update lists index (node :: lists index))
      (Headers.tableInsertFirst abstract content) := by
  intro index later
  have grown :
      ∀ other, ∀ kept,
        kept ∈ Function.update lists index (node :: lists index) other ↔
          (other = index ∧ kept = node) ∨ kept ∈ lists other := by
    intro other kept
    by_cases same : other = index
    · rw [same, Function.update_self, List.mem_cons]
      simp only [true_and]
    · rw [Function.update_of_ne same]
      simp only [same, false_and, false_or]
  have old :
      ∀ other, Linked later.next (table.bucket other) (lists other) := by
    intro other
    apply (represents.linked other).congr
    intro kept inside
    show Function.update created.next node _ kept = table.next kept
    rw [Function.update_of_ne
      (ne_of_mem_of_not_mem inside (absent other)), create.next]
  have same :
      ∀ other, (lists other).map later.content = abstract.bucket other := by
    intro other
    rw [← represents.contents other]
    apply List.map_congr_left
    intro kept inside
    show Function.update created.content node _ kept = table.content kept
    rw [Function.update_of_ne
      (ne_of_mem_of_not_mem inside (absent other)), create.content]
  exact
    { freeLinked := by
        apply create.freeLinked.congr
        intro other inside
        show Function.update created.next node _ other = table.next other
        rw [Function.update_of_ne
          (ne_of_mem_of_not_mem inside create.taken), create.next]
      linked := by
        intro other
        show
          Linked later.next
            (Function.update created.bucket index (some node) other) _
        by_cases here : other = index
        · rw [here, Function.update_self, Function.update_self]
          apply Linked.cons
          show
            Linked later.next
              (Function.update created.next node (created.bucket index) node) _
          rw [Function.update_self, create.bucket]
          exact old index
        · rw [Function.update_of_ne here, Function.update_of_ne here,
            create.bucket]
          exact old other
      contents := by
        intro other
        rw [Headers.tableInsertFirst]
        dsimp only
        by_cases here : other = index
        · rw [here, Function.update_self, Function.update_self,
            List.map_cons, same index]
          show Function.update created.content node content node :: _ = _
          rw [Function.update_self]
        · rw [Function.update_of_ne here, Function.update_of_ne here]
          exact same other
      placed := represents.placed.tableInsertFirst content
      apart := by
        intro other kept inside
        rcases (grown other kept).mp inside with ⟨-, rfl⟩ | before
        · exact create.taken
        · exact
            fun again =>
              represents.apart other kept before (create.among kept again)
      freeItems := fun other inside =>
        represents.freeItems other (create.among other inside)
      items := by
        intro item
        rcases represents.items item with before | ⟨list, inside⟩
        · rcases create.rest _ before with here | after
          · exact Or.inr ⟨index, (grown index _).mpr (Or.inl ⟨rfl, here⟩)⟩
          · exact Or.inl after
        · exact Or.inr ⟨list, (grown list _).mpr (Or.inr inside)⟩
      flagged := by
        intro other kept inside
        show created.noPool kept = kept.isHeap
        rw [create.noPool]
        rcases (grown other kept).mp inside with ⟨-, rfl⟩ | before
        · exact Function.update_self _ _ _
        · rw [Function.update_of_ne
            (ne_of_mem_of_not_mem before (absent other))]
          exact represents.flagged other kept before
      live := by
        intro id
        show id ∈ created.live ↔ _
        rw [create.live id, represents.live id]
        constructor
        · rintro (here | ⟨list, inside⟩)
          · exact ⟨index, (grown index _).mpr (Or.inl ⟨rfl, here⟩)⟩
          · exact ⟨list, (grown list _).mpr (Or.inr inside)⟩
        · rintro ⟨list, inside⟩
          rcases (grown list _).mp inside with ⟨-, here⟩ | before
          · exact Or.inl here
          · exact Or.inr ⟨list, before⟩
      liveNodup := create.liveNodup
      owns := by
        apply @Owns.grow _ table _ node represents.owns later
        · exact Function.update_self _ _ _
        · show (Function.update created.content node _ node).buffer = none
          rw [Function.update_self, plain]
        · rintro kept ⟨other, inside⟩
          have apart := ne_of_mem_of_not_mem inside (absent other)
          constructor
          · show Function.update created.block node none kept = _
            rw [Function.update_of_ne apart, create.block]
          · show Function.update created.content node content kept = _
            rw [Function.update_of_ne apart, create.content]
        · exact create.buffers
        · exact create.kinds
        · rintro kept ⟨other, inside⟩
          rcases (grown other kept).mp inside with ⟨-, same⟩ | before
          · exact Or.inl same
          · exact Or.inr ⟨other, before⟩ }

/-- `table_insert_first` puts a node in front, or finds no memory for one. -/
theorem tableInsertFirst
    (represents : Represents table table.bucket free lists abstract)
    (offer : Option Nat)
    (content : HdrNode Pointer)
    (plain : content.buffer = none) :
    let later := table.tableInsertFirst offer (bucketIndex content.hId) content
    (∃ free' lists',
        Represents later later.bucket free' lists'
          (Headers.tableInsertFirst abstract content)) ∨
      (later = table ∧ table.malloc offer = none) := by
  intro later
  have unfolded :
      later = table.tableInsertFirst offer (bucketIndex content.hId) content :=
    rfl
  rw [NodeTable.tableInsertFirst] at unfolded
  rcases represents.nodeCreate offer with
    ⟨node, created, free', creates, create, absent⟩ | ⟨fails, none⟩
  · rw [creates] at unfolded
    dsimp only at unfolded
    rw [unfolded]
    exact Or.inl ⟨free', _, represents.push create absent content plain⟩
  · rw [fails] at unfolded
    exact Or.inr ⟨unfolded, none⟩

/-! ## Finding nodes -/

/-- The loop over a bucket finds the first node of the list with the hash. -/
theorem findFrom_eq {bound : Nat} {current : Option NodeRef}
    {nodes : List NodeRef}
    (chain : Linked table.next current nodes)
    (enough : nodes.length < bound) :
    table.findFrom hId bound current =
      some (nodes.find? fun node => (table.content node).hId = hId) := by
  induction bound generalizing current nodes with
  | zero => nomatch enough
  | succ bound ih =>
      cases chain with
      | nil => rfl
      | @cons node rest tail =>
          rw [NodeTable.findFrom, List.find?_cons]
          by_cases here : (table.content node).hId = hId
          · rw [if_pos here, decide_eq_true here]
          · rw [if_neg here, decide_eq_false here]
            exact ih tail (Nat.lt_of_succ_lt_succ enough)

theorem find_eq
    (represents : Represents table table.bucket free lists abstract)
    (hId : HdrId) :
    table.find hId =
      some
        ((lists (bucketIndex hId)).find?
          fun node => (table.content node).hId = hId) :=
  findFrom_eq (represents.linked (bucketIndex hId))
    (represents.length_lt_bound (bucketIndex hId))

/-- Writing to the first node with the hash is an update of the list. -/
theorem updateNode_contents {hId : HdrId}
    (update : HdrNode Pointer → HdrNode Pointer)
    (content : NodeRef → HdrNode Pointer)
    {nodes : List NodeRef}
    (distinct : nodes.Nodup) :
    updateNode hId update (nodes.map content) =
      (nodes.find? fun node => (content node).hId = hId).map
        fun node =>
          nodes.map
            (Function.update content node (update (content node))) := by
  induction nodes with
  | nil => rfl
  | cons node rest ih =>
      rcases List.nodup_cons.mp distinct with ⟨outside, restDistinct⟩
      rw [List.map_cons, updateNode, List.find?_cons]
      by_cases here : (content node).hId = hId
      · have unchanged :
            rest.map
                (Function.update content node (update (content node))) =
              rest.map content := by
          apply List.map_congr_left
          intro other inside
          exact Function.update_of_ne (ne_of_mem_of_not_mem inside outside) _ _
        rw [if_pos here, decide_eq_true here]
        dsimp only
        rw [Option.map_some, List.map_cons, Function.update_self, unchanged]
      · rw [if_neg here, decide_eq_false here, ih restDistinct, Option.map_map]
        dsimp only
        cases found : rest.find? fun other => (content other).hId = hId with
        | none => rfl
        | some other =>
            have member := List.mem_of_find?_eq_some found
            have different : node ≠ other := by
              rintro rfl
              exact outside member
            rw [Option.map_some, Option.map_some, List.map_cons,
              Function.update_of_ne different]
            rfl

/-- Writing to a node that was found, whose buffer may be another one then. -/
theorem write
    (represents : Represents table table.bucket free lists abstract)
    {update : HdrNode Pointer → HdrNode Pointer}
    (keeps : ∀ content, (update content).hId = content.hId)
    (found : table.find hId = some (some node))
    (content : HdrNode Pointer)
    (same : content.hId = hId)
    {block : NodeRef → Option Nat}
    {buffers : List Nat}
    (owns :
      Owns
        { table.write node update with block := block, buffers := buffers }
        fun node => ∃ index, node ∈ lists index) :
    Represents
      { table.write node update with block := block, buffers := buffers }
      table.bucket free lists
      (abstract.upsert content.hId update content) := by
  rw [represents.find_eq, Option.some.injEq] at found
  have member := List.mem_of_find?_eq_some found
  have contents :
      ∀ index,
        (lists index).map
            (Function.update table.content node
              (update (table.content node))) =
          (abstract.upsert content.hId update content).bucket index := by
    intro index
    rw [HdrTable.upsert, same]
    dsimp only
    by_cases here : index = bucketIndex hId
    · rw [here, Function.update_self,
        ← represents.contents (bucketIndex hId),
        updateNode_contents update table.content
          (represents.linked (bucketIndex hId)).nodup, found]
      rfl
    · rw [Function.update_of_ne here, ← represents.contents index]
      apply List.map_congr_left
      intro other inside
      exact
        Function.update_of_ne
          (ne_of_mem_of_not_mem inside (represents.separate here member)) _ _
  exact
    { freeLinked := represents.freeLinked
      linked := represents.linked
      contents := contents
      placed := represents.placed.upsert keeps content
      apart := represents.apart
      freeItems := represents.freeItems
      items := represents.items
      flagged := represents.flagged
      live := represents.live
      liveNodup := represents.liveNodup
      owns := owns }

/-- Another value is joined; without memory for it, those before it are lost. -/
theorem joinBuffer
    (represents : Represents table table.bucket free lists abstract)
    (found : table.find hId = some (some node))
    (read : Pointer → Bytes)
    (stray : Bytes)
    (offer : Option Nat)
    (value : Pointer)
    (content : HdrNode Pointer)
    (same : content.hId = hId) :
    ∃ later update,
      NodeTable.joinBuffer read stray table offer node value =
          some later ∧
        Represents later later.bucket free lists
          (abstract.upsert content.hId update content) ∧
          (update = joinValue read stray value ∨
            { table with buffers := table.otherBuffers node }.malloc offer =
              none) := by
  have finds := found
  rw [represents.find_eq, Option.some.injEq] at finds
  have inside : ∃ index, node ∈ lists index :=
    ⟨_, List.mem_of_find?_eq_some finds⟩
  have owns := represents.owns
  have others :
      ∀ update : HdrNode Pointer → HdrNode Pointer,
        ∀ other, other ≠ node →
          (Function.update table.content node
              (update (table.content node)) other).buffer =
            (table.content other).buffer := by
    intro update other different
    rw [Function.update_of_ne different]
  rw [NodeTable.joinBuffer, owns.freeBuffer inside]
  dsimp only
  cases allocated :
      { table with buffers := table.otherBuffers node }.malloc offer with
  | some address =>
      have unused := not_used_of_malloc allocated
      refine ⟨_, joinValue read stray value, rfl, ?_, Or.inl rfl⟩
      apply
        represents.write (hId_joinValue read stray value) found
          content same
      apply owns.setBuffer inside (others _)
      · rfl
      · exact fun _ held => held
      · show (Function.update table.content node _ node).buffer.isSome = true
        rw [Function.update_self, joinValue]
        split <;> rfl
      · exact List.nodup_cons.mpr ⟨unused.2, owns.nodup_otherBuffers⟩
      · intro other held
        rcases List.mem_cons.mp held with rfl | before
        · exact Or.inr unused.1
        · exact Or.inl (mem_of_mem_otherBuffers before)
      · intro other held
        exact List.mem_cons_of_mem address held
      · rintro _ ⟨⟩
        exact List.mem_cons_self
      · rintro _ ⟨⟩
        exact unused.2
  | none =>
      refine ⟨_, fun node => { node with buffer := none }, rfl, ?_, Or.inr rfl⟩
      have keeps :
          ∀ node : HdrNode Pointer,
            ({ node with buffer := none } : HdrNode Pointer).hId = node.hId :=
        fun _ => rfl
      apply represents.write keeps found content same
      apply
        owns.setBuffer inside (others fun node => { node with buffer := none })
      · rfl
      · exact fun _ held => held
      · show (Function.update table.content node _ node).buffer.isSome = false
        rw [Function.update_self]
        rfl
      · exact owns.buffersNodup
      · exact fun _ held => Or.inl held
      · intro address held
        have used : address ∈ table.buffers := mem_of_mem_otherBuffers held
        exact used
      · intro address absurdity
        cases absurdity
      · intro address absurdity
        cases absurdity

/-- When no node is found, the table of lists has none either. -/
theorem upsert_of_absent
    (represents : Represents table table.bucket free lists abstract)
    {content : HdrNode Pointer}
    (update : HdrNode Pointer → HdrNode Pointer)
    (absent : table.find content.hId = some none) :
    abstract.upsert content.hId update content =
      Headers.tableInsertFirst abstract content := by
  rw [represents.find_eq, Option.some.injEq] at absent
  have missing :=
    @updateNode_contents _ content.hId update table.content _
      (represents.linked (bucketIndex content.hId)).nodup
  rw [absent, represents.contents] at missing
  rw [HdrTable.upsert, Headers.tableInsertFirst, missing]
  rfl

/-- What is found in the chains is found in the lists. -/
theorem getId_eq
    (represents : Represents table table.bucket free lists abstract)
    {found : Option NodeRef}
    (finds : table.find hId = some found) :
    ymoHttpHdrTableGetId abstract hId = found.map table.content := by
  rw [represents.find_eq, Option.some.injEq] at finds
  rw [ymoHttpHdrTableGetId, ← represents.contents, List.find?_map, ← finds]
  rfl

/-! ## Iterating -/

/-- A bucket is visited to its end, and then the buckets after it. -/
theorem next_append
    (represents : Represents table table.bucket free lists abstract)
    {index : Fin 8}
    {current : Option NodeRef}
    {nodes rest : List NodeRef}
    (chain : Linked table.next current nodes)
    (inside : ∀ node ∈ nodes, node ∈ lists index)
    (nonempty : nodes ≠ [])
    (later :
      Linked (fun node => table.ymoHttpHdrTableNext (some node))
        (table.firstFrom (index.val + 1)) rest) :
    Linked (fun node => table.ymoHttpHdrTableNext (some node)) current
      (nodes ++ rest) := by
  induction chain with
  | nil => exact absurd rfl nonempty
  | @cons node nodes tail ih =>
      have own := represents.bucketIndex_eq (inside node List.mem_cons_self)
      apply Linked.cons
      show Linked _ (table.ymoHttpHdrTableNext (some node)) _
      cases successor : table.next node with
      | none =>
          rw [successor] at tail
          cases tail
          rw [NodeTable.ymoHttpHdrTableNext, successor]
          dsimp only
          rw [own]
          exact later
      | some other =>
          have goesOn :
              table.ymoHttpHdrTableNext (some node) = some other := by
            rw [NodeTable.ymoHttpHdrTableNext, successor]
          have more : nodes ≠ [] := by
            rintro rfl
            rw [successor] at tail
            cases tail
          rw [goesOn, ← successor]
          exact
            ih
              (fun kept member =>
                inside kept (List.mem_cons_of_mem node member))
              more

/-- From an index on, the iteration visits the lists one after the other. -/
theorem next_from
    (represents : Represents table table.bucket free lists abstract)
    (indices : List (Fin 8))
    (start : Nat)
    (suffix : (List.finRange 8).drop start = indices) :
    Linked (fun node => table.ymoHttpHdrTableNext (some node))
      (table.firstFrom start) (indices.flatMap lists) := by
  induction indices generalizing start with
  | nil =>
      rw [NodeTable.firstFrom, suffix]
      exact .nil
  | cons index rest ih =>
      have inBounds : start < (List.finRange 8).length := by
        rcases Nat.lt_or_ge start (List.finRange 8).length with less | most
        · exact less
        · rw [List.drop_of_length_le most] at suffix
          cases suffix
      rw [List.drop_eq_getElem_cons inBounds] at suffix
      rcases List.cons.inj suffix with ⟨here, after⟩
      have position : index.val = start := by
        rw [← here, List.getElem_finRange]
        rfl
      have later := ih (start + 1) after
      have first :
          table.firstFrom start =
            match table.bucket index with
            | some node => some node
            | none => table.firstFrom (start + 1) := by
        rw [NodeTable.firstFrom, List.drop_eq_getElem_cons inBounds, here,
          List.findSome?_cons]
        cases table.bucket index with
        | none => rfl
        | some node => rfl
      rw [first, List.flatMap_cons]
      have chain := represents.linked index
      cases head : table.bucket index with
      | none =>
          rw [head] at chain
          have empty : lists index = [] := by
            cases list : lists index with
            | nil => rfl
            | cons node nodes =>
                rw [list] at chain
                cases chain
          rw [empty]
          exact later
      | some node =>
          have nonempty : lists index ≠ [] := by
            intro empty
            rw [head, empty] at chain
            cases chain
          rw [← position] at later
          rw [head] at chain
          exact
            represents.next_append chain (fun _ member => member)
              nonempty later

/-- The iteration visits the nodes in the order of the table of lists. -/
theorem contents_nodes
    (represents : Represents table table.bucket free lists abstract) :
    ((List.finRange 8).flatMap lists).map table.content = abstract.nodes := by
  rw [HdrTable.nodes, List.map_flatMap]
  congr 1
  funext index
  exact represents.contents index

end Represents

/-! ## The structure of a table -/

/--
The free list and the buckets are chains that end, and no node is in two of them or
twice in one; the table's own nodes are those on the free list and those of them in
the buckets, and the others in the buckets are those of the heap that were not given
back; nodes are where their hashes belong; and the iteration visits each node in a
bucket once and ends.
-/
structure Structured
    (table : NodeTable Pointer)
    (free : List NodeRef)
    (lists : Fin 8 → List NodeRef) :
    Prop where
  freeList : Linked table.next table.head free
  buckets : ∀ index, Linked table.next (table.bucket index) (lists index)
  disjoint : (free ++ (List.finRange 8).flatMap lists).Nodup
  pool :
    ((free ++ (List.finRange 8).flatMap lists).filter
        fun node => !node.isHeap).Perm
      ((List.finRange 4).map NodeRef.item)
  freePool : ∀ node ∈ free, node.isHeap = false
  heap :
    ∀ id, NodeRef.heap id ∈ (List.finRange 8).flatMap lists ↔ id ∈ table.live
  filed :
    ∀ index, ∀ node ∈ lists index,
      (table.content node).hId.toNat % 8 = index.val
  iteration :
    Linked (fun node => table.ymoHttpHdrTableNext (some node))
      (table.ymoHttpHdrTableNext none)
      ((List.finRange 8).flatMap lists)

theorem Represents.structured {table : NodeTable Pointer} {free : List NodeRef}
    {lists : Fin 8 → List NodeRef}
    {abstract : HdrTable Pointer}
    (represents : Represents table table.bucket free lists abstract) :
    Structured table free lists := by
  have iteration :=
    represents.next_from (List.finRange 8) 0 (List.drop_zero ..)
  have disjoint : (free ++ (List.finRange 8).flatMap lists).Nodup := by
    apply List.nodup_append.mpr
    refine ⟨represents.freeLinked.nodup, iteration.nodup, ?_⟩
    rintro node onFree other inBucket rfl
    rcases List.mem_flatMap.mp inBucket with ⟨index, -, inside⟩
    exact represents.apart index node inside onFree
  have pool :
      ((free ++ (List.finRange 8).flatMap lists).filter
          fun node => !node.isHeap).Perm
        ((List.finRange 4).map NodeRef.item) := by
    apply (List.perm_ext_iff_of_nodup (disjoint.filter _) ?_).mpr
    · intro node
      rw [List.mem_filter, List.mem_append, List.mem_flatMap, List.mem_map]
      cases node with
      | heap id =>
          constructor
          · rintro ⟨-, own⟩
            cases own
          · rintro ⟨item, -, same⟩
            cases same
      | item item =>
          constructor
          · intro _
            exact ⟨item, List.mem_finRange item, rfl⟩
          · intro _
            refine ⟨?_, rfl⟩
            rcases represents.items item with onFree | ⟨index, inside⟩
            · exact Or.inl onFree
            · exact Or.inr ⟨index, List.mem_finRange index, inside⟩
    · exact
        (List.nodup_finRange 4).map fun left right same =>
          NodeRef.item.inj same
  exact
    { freeList := represents.freeLinked
      buckets := represents.linked
      disjoint := disjoint
      pool := pool
      freePool := represents.freeItems
      heap := by
        intro id
        rw [represents.live id, List.mem_flatMap]
        constructor
        · rintro ⟨index, -, inside⟩
          exact ⟨index, inside⟩
        · rintro ⟨index, inside⟩
          exact ⟨index, List.mem_finRange index, inside⟩
      filed := by
        intro index node inside
        rw [← represents.bucketIndex_eq inside]
        rfl
      iteration := iteration }

/-! ## Runs -/

/-- An operation on the table. -/
inductive NodeOp (Pointer : Type) where
  | insert (hdr value : Pointer)
  | insertPrecompute
      (hId : HdrId)
      (hdr : Pointer)
      (hdrLen : Nat)
      (value : Pointer)
  | add (stray : Bytes) (hdr value : Pointer)
  | addPrecompute
      (stray : Bytes)
      (hId : HdrId)
      (hdr : Pointer)
      (hdrLen : Nat)
      (value : Pointer)
  | clear

/-- One operation, and the address that the heap offers. -/
def nodeStep (read : Pointer → Bytes) (table : NodeTable Pointer)
    (offer : Option Nat) :
    NodeOp Pointer → Option (NodeTable Pointer)
  | .insert hdr value => table.ymoHttpHdrTableInsert read offer hdr value
  | .insertPrecompute hId hdr hdrLen value =>
      table.ymoHttpHdrTableInsertPrecompute offer hId hdr hdrLen value
  | .add stray hdr value =>
      NodeTable.ymoHttpHdrTableAdd read stray table offer hdr value
  | .addPrecompute stray hId hdr hdrLen value =>
      NodeTable.ymoHttpHdrTableAddPrecompute read stray table offer
        hId hdr hdrLen value
  | .clear => table.ymoHttpHdrTableClear

/-- The same operation on the table of lists. -/
def listStep (read : Pointer → Bytes) (table : HdrTable Pointer) :
    NodeOp Pointer → HdrTable Pointer
  | .insert hdr value => Headers.ymoHttpHdrTableInsert read table hdr value
  | .insertPrecompute hId hdr hdrLen value =>
      Headers.ymoHttpHdrTableInsertPrecompute table hId hdr hdrLen value
  | .add stray hdr value =>
      Headers.ymoHttpHdrTableAdd read stray table hdr value
  | .addPrecompute stray hId hdr hdrLen value =>
      Headers.ymoHttpHdrTableAddPrecompute read stray table hId hdr
        hdrLen value
  | .clear => Headers.ymoHttpHdrTableClear

/-- A run stops where an operation has no result. -/
def nodeRun (read : Pointer → Bytes) (state : Option (NodeTable Pointer))
    (step : Option Nat × NodeOp Pointer) :
    Option (NodeTable Pointer) :=
  state.bind fun table => nodeStep read table step.1 step.2

/-- The hash of the name that is looked up. -/
def NodeOp.target (read : Pointer → Bytes) :
    NodeOp Pointer → Option HdrId
  | .insert hdr _ => some (ymoHttpHdrHash (read hdr))
  | .insertPrecompute hId _ _ _ => some hId
  | .add _ hdr _ => some (ymoHttpHdrHash (read hdr))
  | .addPrecompute _ hId _ _ _ => some hId
  | .clear => none

/-- The operation inserts. -/
def NodeOp.inserts : NodeOp Pointer → Bool
  | .insert _ _ => true
  | .insertPrecompute _ _ _ _ => true
  | _ => false

/-- The buffer of the node with the hash. -/
def NodeTable.joined (table : NodeTable Pointer) (hId : HdrId) : Option Nat :=
  match table.find hId with
  | some (some current) => table.block current
  | _ => none

/-- The step is no insertion over a name with joined values. -/
def SparesBuffers (read : Pointer → Bytes) (state : Option (NodeTable Pointer))
    (step : Option Nat × NodeOp Pointer) :
    Prop :=
  ∀ table ∈ state, step.2.inserts = true →
    ∀ hId ∈ step.2.target read, table.joined hId = none

/-- The buffer that the operation makes larger. -/
def NodeOp.grown (read : Pointer → Bytes) (table : NodeTable Pointer) :
    NodeOp Pointer → Option Nat
  | .add _ hdr _ =>
      if ymoHttpHdrHash (read hdr) = ymoHttpHidSetCookie then none
      else table.joined (ymoHttpHdrHash (read hdr))
  | .addPrecompute _ hId _ _ _ => table.joined hId
  | _ => none

/-- The address is not in use, except by the buffer, which may grow in its place. -/
def Spare (table : NodeTable Pointer) (grown offer : Option Nat) : Prop :=
  ∃ address ∈ offer, address ∉ table.live ∧
    (address ∈ table.buffers → grown = some address)

/-- The heap has memory for the step. -/
def Offered (read : Pointer → Bytes) (state : Option (NodeTable Pointer))
    (step : Option Nat × NodeOp Pointer) :
    Prop :=
  ∀ table ∈ state, Spare table (step.2.grown read table) step.1

instance
    (read : Pointer → Bytes)
    (state : Option (NodeTable Pointer))
    (step : Option Nat × NodeOp Pointer) :
    Decidable (SparesBuffers read state step) :=
  haveI (table : NodeTable Pointer) :
      Decidable (∀ hId ∈ step.2.target read, table.joined hId = none) :=
    Option.decidableForallMem _
  inferInstanceAs (Decidable (∀ table ∈ state, _ → ∀ hId ∈ _, _))

instance
    (table : NodeTable Pointer)
    (grown offer : Option Nat) :
    Decidable (Spare table grown offer) :=
  inferInstanceAs (Decidable (∃ address ∈ offer, _))

instance
    (read : Pointer → Bytes)
    (state : Option (NodeTable Pointer))
    (step : Option Nat × NodeOp Pointer) :
    Decidable (Offered read state step) :=
  inferInstanceAs (Decidable (∀ table ∈ state, Spare _ _ _))

/-- A table that holds the nodes of a table of lists. -/
def Holds (table : NodeTable Pointer) (abstract : HdrTable Pointer) : Prop :=
  ∃ free lists, Represents table table.bucket free lists abstract

/-- What an operation leaves: the table of lists after it, or, when there is no
memory, another one. -/
def Follows (later : NodeTable Pointer) (offered : Prop)
    (abstract : HdrTable Pointer) :
    Prop :=
  ∃ reached, Holds later reached ∧ (offered → reached = abstract)

section

variable
    {table : NodeTable Pointer}
    {abstract : HdrTable Pointer}
    {offer : Option Nat}
    {offered : Prop}

/-- An address that is not in use is given out. -/
theorem malloc_of_unused {address : Nat} (live : address ∉ table.live)
    (buffers : address ∉ table.buffers) :
    table.malloc (some address) = some address := by
  rw [NodeTable.malloc, if_neg (not_or.mpr ⟨live, buffers⟩)]

theorem insertFirst_follows (holds : Holds table abstract)
    (content : HdrNode Pointer)
    (plain : content.buffer = none)
    (serves : offered → Spare table none offer) :
    Follows
      (table.tableInsertFirst offer (bucketIndex content.hId) content)
      offered (Headers.tableInsertFirst abstract content) := by
  rcases holds with ⟨free, lists, represents⟩
  rcases represents.tableInsertFirst offer content plain with
    ⟨free', lists', inserted⟩ | ⟨same, fails⟩
  · exact ⟨_, ⟨free', lists', inserted⟩, fun _ => rfl⟩
  · rw [same]
    refine ⟨_, ⟨free, lists, represents⟩, fun has => ?_⟩
    rcases serves has with ⟨address, ⟨⟩, live, buffers⟩
    have unused : address ∉ table.buffers := by
      intro used
      cases buffers used
    rw [malloc_of_unused live unused] at fails
    cases fails

theorem insertPrecompute_follows (holds : Holds table abstract) (hId : HdrId)
    (hdr : Pointer)
    (hdrLen : Nat)
    (value : Pointer)
    (alone : table.joined hId = none)
    (serves : offered → Spare table none offer) :
    ∃ later,
      table.ymoHttpHdrTableInsertPrecompute offer hId hdr hdrLen value =
          some later ∧
        Follows later offered
          (Headers.ymoHttpHdrTableInsertPrecompute abstract hId hdr hdrLen
            value) := by
  have holds' := holds
  rcases holds with ⟨free, lists, represents⟩
  rw [NodeTable.ymoHttpHdrTableInsertPrecompute,
    Headers.ymoHttpHdrTableInsertPrecompute]
  have keeps :
      ∀ node : HdrNode Pointer,
        ({ node with
            hdr := hdr, hdrLen := hdrLen, value := value } :
          HdrNode Pointer).hId =
          node.hId :=
    fun _ => rfl
  let content : HdrNode Pointer :=
    { hId := hId, hdr := hdr, hdrLen := hdrLen, value := value,
      buffer := none }
  cases found : table.find hId with
  | none =>
      rw [represents.find_eq] at found
      cases found
  | some node =>
      cases node with
      | some current =>
          have plain : table.block current = none := by
            rw [NodeTable.joined, found] at alone
            exact alone
          dsimp only
          rw [NodeTable.freeBuffer, plain]
          refine ⟨_, rfl, _, ⟨free, lists, ?_⟩, fun _ => rfl⟩
          apply represents.write keeps found content rfl
          have unchanged :
              ∀ node,
                (Function.update table.content current
                    { table.content current with
                      hdr := hdr, hdrLen := hdrLen, value := value }
                    node).buffer =
                  (table.content node).buffer := by
            intro node
            by_cases same : node = current
            · rw [same, Function.update_self]
            · rw [Function.update_of_ne same]
          exact
            { joined := fun node inside => by
                rw [← represents.owns.joined node inside]
                exact congrArg Option.isSome (unchanged node)
              owned := represents.owns.owned
              once := represents.owns.once
              buffersNodup := represents.owns.buffersNodup
              kinds := represents.owns.kinds }
      | none =>
          have absent : table.find content.hId = some none := found
          have inserted := insertFirst_follows holds' content rfl serves
          rw [← represents.upsert_of_absent
            (fun node =>
              { node with hdr := hdr, hdrLen := hdrLen, value := value })
            absent] at inserted
          exact ⟨_, rfl, inserted⟩

theorem joinBuffer_follows (holds : Holds table abstract) {current : NodeRef}
    (read : Pointer → Bytes)
    (stray : Bytes)
    (value : Pointer)
    (content : HdrNode Pointer)
    (found : table.find content.hId = some (some current))
    (serves : offered → Spare table (table.joined content.hId) offer) :
    ∃ later,
      NodeTable.joinBuffer read stray table offer current value =
          some later ∧
        Follows later offered
          (abstract.upsert content.hId (joinValue read stray value)
            content) := by
  rcases holds with ⟨free, lists, represents⟩
  rcases
      represents.joinBuffer found read stray offer value content rfl
    with ⟨later, update, joins, represents', joined | fails⟩
  · rw [joined] at represents'
    exact ⟨later, joins, _, ⟨free, lists, represents'⟩, fun _ => rfl⟩
  · refine ⟨later, joins, _, ⟨free, lists, represents'⟩, fun has => ?_⟩
    rcases serves has with ⟨address, ⟨⟩, live, buffers⟩
    have unused : address ∉ table.otherBuffers current := by
      intro held
      have own := buffers (mem_of_mem_otherBuffers held)
      rw [NodeTable.joined, found] at own
      dsimp only at own
      rw [NodeTable.otherBuffers, own] at held
      exact ((represents.owns.buffersNodup.mem_erase_iff).mp held).1 rfl
    have given :=
      @malloc_of_unused _
        { table with buffers := table.otherBuffers current } address live
        unused
    rw [given] at fails
    cases fails

theorem joined_of_absent (absent : table.find hId = some none) :
    table.joined hId = none := by
  rw [NodeTable.joined, absent]

theorem addPrecompute_follows (holds : Holds table abstract)
    (read : Pointer → Bytes)
    (stray : Bytes)
    (hId : HdrId)
    (hdr : Pointer)
    (hdrLen : Nat)
    (value : Pointer)
    (serves : offered → Spare table (table.joined hId) offer) :
    ∃ later,
      NodeTable.ymoHttpHdrTableAddPrecompute read stray table offer
          hId hdr hdrLen value =
        some later ∧
      Follows later offered
        (Headers.ymoHttpHdrTableAddPrecompute read stray abstract
          hId hdr hdrLen value) := by
  have holds' := holds
  rcases holds with ⟨free, lists, represents⟩
  rw [NodeTable.ymoHttpHdrTableAddPrecompute,
    Headers.ymoHttpHdrTableAddPrecompute]
  let content : HdrNode Pointer :=
    { hId := hId, hdr := hdr, hdrLen := hdrLen, value := value,
      buffer := none }
  cases found : table.find hId with
  | none =>
      rw [represents.find_eq] at found
      cases found
  | some node =>
      cases node with
      | some current =>
          exact
            joinBuffer_follows holds' read stray value content found
              serves
      | none =>
          have absent : table.find content.hId = some none := found
          rw [joined_of_absent absent] at serves
          have inserted := insertFirst_follows holds' content rfl serves
          rw [← represents.upsert_of_absent
            (joinValue read stray value) absent] at inserted
          exact ⟨_, rfl, inserted⟩

theorem add_follows
    (holds : Holds table abstract)
    (read : Pointer → Bytes)
    (stray : Bytes)
    (hdr value : Pointer)
    (serves :
      offered →
        Spare table
          (NodeOp.grown read table (.add stray hdr value)) offer) :
    ∃ later,
      NodeTable.ymoHttpHdrTableAdd read stray table offer hdr
          value =
        some later ∧
      Follows later offered
        (Headers.ymoHttpHdrTableAdd read stray abstract hdr value) := by
  have holds' := holds
  rcases holds with ⟨free, lists, represents⟩
  rw [NodeTable.ymoHttpHdrTableAdd, Headers.ymoHttpHdrTableAdd]
  let content : HdrNode Pointer :=
    { hId := ymoHttpHdrHash (read hdr), hdr := hdr,
      hdrLen := (read hdr).length, value := value, buffer := none }
  cases found : table.find (ymoHttpHdrHash (read hdr)) with
  | none =>
      rw [represents.find_eq] at found
      cases found
  | some node =>
      rw [represents.getId_eq found]
      cases node with
      | none =>
          rw [NodeOp.grown, joined_of_absent found, ite_self] at serves
          exact ⟨_, rfl, insertFirst_follows holds' content rfl serves⟩
      | some current =>
          dsimp only
          rw [Option.map_some]
          dsimp only
          have own :
              (table.content current).hId = ymoHttpHdrHash (read hdr) := by
            rw [represents.find_eq, Option.some.injEq] at found
            have holds := List.find?_some found
            exact of_decide_eq_true holds
          by_cases cookie : (table.content current).hId = ymoHttpHidSetCookie
          · rw [NodeOp.grown, if_pos (own.symm.trans cookie)] at serves
            rw [if_pos cookie, if_pos cookie, ← own, cookie]
            exact
              ⟨_, rfl,
                insertFirst_follows holds'
                  { hId := ymoHttpHidSetCookie, hdr := hdr,
                    hdrLen := (read hdr).length, value := value,
                    buffer := none }
                  rfl serves⟩
          · rw [NodeOp.grown,
              if_neg fun same => cookie (own.trans same)] at serves
            rw [if_neg cookie, if_neg cookie]
            exact
              joinBuffer_follows holds' read stray value content
                found serves

/-- One operation ends, and does to the chains what it does to the lists. -/
theorem step_follows (read : Pointer → Bytes) (holds : Holds table abstract)
    (step : Option Nat × NodeOp Pointer)
    (spares : SparesBuffers read (some table) step) :
    ∃ later,
      nodeRun read (some table) step = some later ∧
        Follows later (Offered read (some table) step)
          (listStep read abstract step.2) := by
  rcases step with ⟨offer, op⟩
  have serves :
      Offered read (some table) (offer, op) →
        Spare table (op.grown read table) offer :=
    fun has => has table rfl
  cases op with
  | insert hdr value =>
      exact
        insertPrecompute_follows holds _ hdr _ value
          (spares table rfl rfl _ rfl) serves
  | insertPrecompute hId hdr hdrLen value =>
      exact
        insertPrecompute_follows holds hId hdr hdrLen value
          (spares table rfl rfl _ rfl) serves
  | add stray hdr value =>
      exact add_follows holds read stray hdr value serves
  | addPrecompute stray hId hdr hdrLen value =>
      exact
        addPrecompute_follows holds read stray hId hdr hdrLen value
          serves
  | clear =>
      rcases holds with ⟨free, lists, represents⟩
      rcases represents.ymoHttpHdrTableClear with
        ⟨later, free', ends, cleared⟩
      exact ⟨later, ends, _, ⟨free', _, cleared⟩, fun _ => rfl⟩

/-- A run ends, and while the heap has memory it does what the run of the lists
does. -/
theorem run_holds
    (read : Pointer → Bytes)
    (holds : Holds table abstract)
    (steps : List (Option Nat × NodeOp Pointer))
    (spares :
      AllAlong (nodeRun read) (SparesBuffers read) (some table) steps) :
    ∃ later,
      run (nodeRun read) (some table) steps = some later ∧
        Follows later
          (AllAlong (nodeRun read) (Offered read) (some table) steps)
          (run (listStep read) abstract (steps.map Prod.snd)) := by
  induction steps generalizing table abstract with
  | nil => exact ⟨table, rfl, abstract, holds, fun _ => rfl⟩
  | cons step rest ih =>
      rcases step_follows read holds step spares.1 with
        ⟨later, steps, reached, holds', exact'⟩
      have further := spares.2
      rw [steps] at further
      rcases ih holds' further with
        ⟨final, ends, last, holds'', exact''⟩
      refine ⟨final, ?_, last, holds'', ?_⟩
      · rw [run_cons, steps]
        exact ends
      · rintro ⟨here, offered⟩
        rw [steps] at offered
        rw [exact'' offered, exact' here]
        rfl

end

theorem init_holds (null : Pointer) :
    Holds (NodeTable.ymoHttpHdrTableInit null)
      Headers.ymoHttpHdrTableClear := by
  refine ⟨[.item 0, .item 1, .item 2, .item 3], fun _ => [], ?_⟩
  exact
    { freeLinked := .cons (.cons (.cons (.cons .nil)))
      linked := fun _ => .nil
      contents := fun _ => rfl
      placed := placed_clear
      apart := fun _ _ inside => absurd inside List.not_mem_nil
      freeItems := by decide
      items := by
        intro item
        left
        revert item
        decide
      flagged := fun _ _ inside => absurd inside List.not_mem_nil
      live := by
        intro id
        constructor
        · intro inside
          cases inside
        · rintro ⟨_, inside⟩
          cases inside
      liveNodup := List.nodup_nil
      owns :=
        { joined := fun _ _ => rfl
          owned := fun _ ⟨_, inside⟩ => absurd inside List.not_mem_nil
          once := fun _ _ ⟨_, inside⟩ => absurd inside List.not_mem_nil
          buffersNodup := List.nodup_nil
          kinds := fun _ inside => absurd inside List.not_mem_nil } }

/-- Every run on an initialised table in which no insertion meets a name with
joined values ends, whatever addresses the heap offers, and the table is structured
all along. -/
theorem run_structured
    (read : Pointer → Bytes)
    (null : Pointer)
    (steps : List (Option Nat × NodeOp Pointer))
    (spares :
      AllAlong (nodeRun read) (SparesBuffers read)
        (some (NodeTable.ymoHttpHdrTableInit null)) steps)
    (front back : List (Option Nat × NodeOp Pointer))
    (split : steps = front ++ back) :
    ∃ table,
      run (nodeRun read) (some (NodeTable.ymoHttpHdrTableInit null))
          front =
        some table ∧
      ∃ free lists, Structured table free lists := by
  rw [split, allAlong_append] at spares
  rcases run_holds read (init_holds null) front spares.1 with
    ⟨table, ends, _, ⟨free, lists, represents⟩, -⟩
  exact ⟨table, ends, free, lists, represents.structured⟩

set_option maxRecDepth 4000 in
/-- A buffer that grows in its place, and its block taken for a node after a
clearing. -/
theorem run_structured_reused :
    let value : Bytes := List.replicate 24 120
    let steps : List (Option Nat × NodeOp Bytes) :=
      [(none, .add [] [75] value), (some 4096, .add [] [75] value),
        (some 4096, .add [1, 2] [75] value), (none, .insert [66] value),
        (none, .insert [66] value), (none, .clear),
        (none, .insert [75] value), (none, .insert [66] value),
        (none, .insert [67] value), (none, .insert [68] value),
        (some 4096, .insert [65] value)]
    ∃ table,
      run (nodeRun id) (some (NodeTable.ymoHttpHdrTableInit [])) steps =
        some table ∧
      ∃ free lists, Structured table free lists := by
  intro value steps
  have spares :
      AllAlong (nodeRun id) (SparesBuffers id)
        (some (NodeTable.ymoHttpHdrTableInit [])) steps := by
    decide
  exact run_structured id [] steps spares steps [] (List.append_nil steps).symm

set_option maxRecDepth 4000 in
/-- The second of two insertions over joined values frees a node that was given
their block in between; the next new node is the same one, and follows itself. -/
theorem node_twice :
    let value : Bytes := List.replicate 24 120
    let steps : List (Option Nat × NodeOp Bytes) :=
      [(none, .add [] [75] value), (some 4096, .add [] [75] value),
        (none, .insert [66] value), (none, .insert [67] value),
        (none, .insert [68] value), (none, .insert [75] value),
        (some 4096, .insert [65] value), (none, .insert [75] value),
        (some 4096, .insert [73] value)]
    ¬∃ table,
      run (nodeRun id) (some (NodeTable.ymoHttpHdrTableInit [])) steps =
        some table ∧
      ∃ free lists, Structured table free lists := by
  intro value steps
  rintro ⟨table, ends, free, lists, structured⟩
  have cyclic :
      (run (nodeRun id) (some (NodeTable.ymoHttpHdrTableInit []))
          steps).map
          (fun table => (table.bucket 0, table.next (.heap 4096))) =
        some (some (.heap 4096), some (.heap 4096)) := by
    decide
  rw [ends, Option.map_some, Option.some.injEq, Prod.mk.injEq] at cyclic
  have chain := structured.buckets 0
  rw [cyclic.1] at chain
  rcases chain.of_some with ⟨rest, first, tail⟩
  rw [cyclic.2] at tail
  have again := congrArg List.length (first.symm.trans (chain.unique tail))
  rw [List.length_cons] at again
  omega

/-- While the heap has memory, the iteration over the chains yields the nodes of
the table of lists after the same operations. -/
theorem run_refines
    (read : Pointer → Bytes)
    (null : Pointer)
    (steps : List (Option Nat × NodeOp Pointer))
    (spares :
      AllAlong (nodeRun read) (SparesBuffers read)
        (some (NodeTable.ymoHttpHdrTableInit null)) steps)
    (offered :
      AllAlong (nodeRun read) (Offered read)
        (some (NodeTable.ymoHttpHdrTableInit null)) steps) :
    ∃ table visited,
      run (nodeRun read) (some (NodeTable.ymoHttpHdrTableInit null))
          steps =
        some table ∧
      Linked (fun node => table.ymoHttpHdrTableNext (some node))
          (table.ymoHttpHdrTableNext none) visited ∧
        visited.map table.content =
          (run (listStep read) Headers.ymoHttpHdrTableClear
            (steps.map Prod.snd)).nodes := by
  rcases run_holds read (init_holds null) steps spares with
    ⟨table, ends, _, ⟨free, lists, represents⟩, follows⟩
  refine ⟨table, _, ends, represents.structured.iteration, ?_⟩
  rw [represents.contents_nodes, follows offered]

end Yimmo.Http.HeaderNodes
