import Yimmo.Http.Headers
import Yimmo.Lib.HeapBlocks
import Yimmo.Lib.GuardedRun

/-!
# The buffers of joined values

The value of a header is the caller's string until a second value is added; then the
node has a buffer on the heap with both, and a later addition makes it larger.  This
module models the header table with those buffers: what is written to them, when
they are freed, and which node points to which.

Two slips are in the source.  A value that is added to a buffer is copied without
its end, and the node of a header that is inserted anew keeps the buffer that was
just freed.  `readsRight_iff` says which runs meet neither.
-/

namespace Yimmo.Http.HeaderBuffers

open Yimmo.Lib.HeapBlocks
open Yimmo.Lib.GuardedRun
open Yimmo.Http.Headers

variable {buffer : Nat}

/-! ## The table -/

/-- The bytes of a C string. -/
structure Text where
  bytes : Bytes
  noZero : ∀ c ∈ bytes, c ≠ 0

/-- `ymo_http_hdr_table_node_t`, with the strings its pointers lead to. -/
structure BufferNode where
  hId : HdrId
  hdr : Bytes
  hdrLen : Nat
  value : Text
  buffer : Option Nat

/-- The table, and the heap its buffers are on. -/
structure BufferTable where
  bucket : Fin 8 → List BufferNode
  heap : Heap

namespace BufferTable

/-- `ymo_http_hdr_table_init` on zeroed memory. -/
def ymoHttpHdrTableInit : BufferTable where
  bucket _ := []
  heap := []

/-- The node of a bucket that the loops stop at. -/
def lookup (table : BufferTable) (hId : HdrId) : Option BufferNode :=
  (table.bucket (bucketIndex hId)).find? fun node => node.hId = hId

/-- A list with a node in the place of the first one with its hash. -/
def overwrite (node : BufferNode) : List BufferNode → List BufferNode
  | [] => []
  | current :: rest =>
      if current.hId = node.hId then node :: rest
      else current :: overwrite node rest

/-- The fields of the node with the hash. -/
def setNode (table : BufferTable) (node : BufferNode) : BufferTable :=
  let index := bucketIndex node.hId
  { table with
    bucket :=
      Function.update table.bucket index
        (overwrite node (table.bucket index)) }

/-- `table_insert_first`. -/
def tableInsertFirst (table : BufferTable) (hId : HdrId) (hdrLen : Nat)
    (hdr : Bytes)
    (value : Text) :
    BufferTable :=
  let index := bucketIndex hId
  let node : BufferNode :=
    { hId := hId, hdr := hdr, hdrLen := hdrLen, value := value,
      buffer := none }
  { table with
    bucket := Function.update table.bucket index (node :: table.bucket index) }

/-- `if( current->buffer ) free(current->buffer)`. -/
def freeBuffer (heap : Heap) : Option Nat → Option Heap
  | some buffer => free heap buffer
  | none => some heap

/-- `ymo_http_hdr_table_insert_precompute`; the node keeps its buffer. -/
def ymoHttpHdrTableInsertPrecompute (table : BufferTable) (hId : HdrId)
    (hdr : Bytes)
    (hdrLen : Nat)
    (value : Text) :
    Option BufferTable :=
  match table.lookup hId with
  | some current =>
      match freeBuffer table.heap current.buffer with
      | some heap =>
          some
            ({ table with heap := heap }.setNode
              { current with hdr := hdr, value := value, hdrLen := hdrLen })
      | none => none
  | none => some (table.tableInsertFirst hId hdrLen hdr value)

/-- `ymo_http_hdr_table_insert`. -/
def ymoHttpHdrTableInsert (table : BufferTable) (hdr : Bytes) (value : Text) :
    Option BufferTable :=
  table.ymoHttpHdrTableInsertPrecompute (ymoHttpHdrHash hdr) hdr hdr.length
    value

/--
Another value for a node that was found.  `snprintf` ends the string that it writes
into a new buffer; `strncpy` copies the value into a larger one without its end.
-/
def joinBuffer (table : BufferTable) (current : BufferNode) (value : Text) :
    Option BufferTable :=
  match current.buffer with
  | none =>
      let joined := current.value.bytes ++ [44] ++ value.bytes
      let buffSize := current.value.bytes.length + value.bytes.length + 2
      let allocated := malloc table.heap buffSize
      some
        ({ table with
            heap :=
              write allocated.1 allocated.2 0
                (joined.take (buffSize - 1) ++ [0]) }.setNode
          { current with buffer := some allocated.2 })
  | some buffer =>
      match readString table.heap buffer with
      | some before =>
          let buffLen := before.length
          let buffSize := buffLen + value.bytes.length + 2
          match realloc table.heap buffer buffSize with
          | some (heap, buffer) =>
              some
                ({ table with
                    heap :=
                      write (write heap buffer buffLen [44]) buffer
                        (buffLen + 1) value.bytes }.setNode
                  { current with buffer := some buffer })
          | none => none
      | none => none

/-- `ymo_http_hdr_table_add_precompute`. -/
def ymoHttpHdrTableAddPrecompute (table : BufferTable) (hId : HdrId)
    (hdr : Bytes)
    (hdrLen : Nat)
    (value : Text) :
    Option BufferTable :=
  match table.lookup hId with
  | some current => table.joinBuffer current value
  | none => some (table.tableInsertFirst hId hdrLen hdr value)

/-- `ymo_http_hdr_table_add`. -/
def ymoHttpHdrTableAdd (table : BufferTable) (hdr : Bytes) (value : Text) :
    Option BufferTable :=
  let hId := ymoHttpHdrHash hdr
  match table.lookup hId with
  | some current =>
      if current.hId = ymoHttpHidSetCookie then
        some (table.tableInsertFirst ymoHttpHidSetCookie hdr.length hdr value)
      else table.joinBuffer current value
  | none => some (table.tableInsertFirst hId hdr.length hdr value)

/-- What a caller finds at the pointer that `ymo_http_hdr_table_get` returns. -/
inductive Got where
  /-- `NULL`. -/
  | null
  | string (bytes : Bytes)
  /-- A buffer that was freed, or bytes that do not end. -/
  | undefined
deriving DecidableEq

/-- `ymo_http_hdr_table_get`. -/
def ymoHttpHdrTableGet (table : BufferTable) (hdr : Bytes) : Got :=
  match table.lookup (ymoHttpHdrHash hdr) with
  | some current =>
      match current.buffer with
      | none => .string current.value.bytes
      | some buffer =>
          match readString table.heap buffer with
          | some bytes => .string bytes
          | none => .undefined
  | none => .null

/-- The buffers of the nodes are freed one after the other. -/
def freeNodes : Heap → List BufferNode → Option Heap
  | heap, [] => some heap
  | heap, node :: rest =>
      match freeBuffer heap node.buffer with
      | some later => freeNodes later rest
      | none => none

/-- `ymo_http_hdr_table_clear`. -/
def ymoHttpHdrTableClear (table : BufferTable) : Option BufferTable :=
  match freeNodes table.heap ((List.finRange 8).flatMap table.bucket) with
  | some heap => some { bucket := fun _ => [], heap := heap }
  | none => none

end BufferTable

/-! ## Operations -/

/-- Names that the table can tell apart; `Set-Cookie` is not among them. -/
structure Names where
  all : Set Bytes
  distinct :
    ∀ left ∈ all, ∀ right ∈ all,
      ymoHttpHdrHash left = ymoHttpHdrHash right → left = right
  noCookie : ∀ name ∈ all, ymoHttpHdrHash name ≠ ymoHttpHidSetCookie

/-- One of the names. -/
abbrev Names.Name (names : Names) : Type :=
  { name // name ∈ names.all }

/-- The hash of a name. -/
def Names.hId {names : Names} (name : names.Name) : HdrId :=
  ymoHttpHdrHash name.val

/-- An operation on one of the names. -/
inductive BufferOp (names : Names) where
  | insert (name : names.Name) (value : Text)
  | insertPrecompute (name : names.Name) (value : Text)
  | add (name : names.Name) (value : Text)
  | addPrecompute (name : names.Name) (value : Text)
  | get (name : names.Name)
  | clear

variable {names : Names}

/-- One operation.  It has no result when it reads a buffer that was freed, frees
it again, or reads bytes that do not end. -/
def bufferStep (table : BufferTable) :
    BufferOp names → Option BufferTable
  | .insert name value => table.ymoHttpHdrTableInsert name.val value
  | .insertPrecompute name value =>
      table.ymoHttpHdrTableInsertPrecompute (Names.hId name) name.val
        name.val.length value
  | .add name value => table.ymoHttpHdrTableAdd name.val value
  | .addPrecompute name value =>
      table.ymoHttpHdrTableAddPrecompute (Names.hId name) name.val
        name.val.length value
  | .get name =>
      if table.ymoHttpHdrTableGet name.val = .undefined then none
      else some table
  | .clear => table.ymoHttpHdrTableClear

/-- The table after the operations. -/
def runBuffers :
    BufferTable → List (BufferOp names) → Option BufferTable
  | table, [] => some table
  | table, op :: rest =>
      match bufferStep table op with
      | some later => runBuffers later rest
      | none => none

/-! ## Values -/

/-- The values of each name: the last that was inserted, or the first that was
added, since the table was cleared, and those that were added to it. -/
abbrev Values (names : Names) : Type :=
  names.Name → List Text

/-- One operation on the values. -/
def valueStep (values : Values names) :
    BufferOp names → Values names
  | .insert name value => Function.update values name [value]
  | .insertPrecompute name value => Function.update values name [value]
  | .add name value => Function.update values name (values name ++ [value])
  | .addPrecompute name value =>
      Function.update values name (values name ++ [value])
  | .get _ => values
  | .clear => fun _ => []

/-- What is to be read when a name has these values. -/
def commaJoined : List Text → BufferTable.Got
  | [] => .null
  | values => .string ([44].intercalate (values.map Text.bytes))

/-- Every name reads as its values. -/
def Reads (table : BufferTable) (values : Values names) : Prop :=
  ∀ name, table.ymoHttpHdrTableGet name.val = commaJoined (values name)

/-- Every operation has a result, and in each state that is reached every name reads
as its values. -/
def ReadsRight (table : BufferTable) (values : Values names)
    (ops : List (BufferOp names)) :
    Prop :=
  ∀ front, front <+: ops →
    ∃ later,
      runBuffers table front = some later ∧
        Reads later (run valueStep values front)

/-- The name that an operation gives a value. -/
def BufferOp.target : BufferOp names → Option names.Name
  | .insert name _ => some name
  | .insertPrecompute name _ => some name
  | .add name _ => some name
  | .addPrecompute name _ => some name
  | .get _ => none
  | .clear => none

/-- The operation does not give a value to a name that has two. -/
def AtMostTwo (values : Values names) (op : BufferOp names) : Prop :=
  ∀ name ∈ op.target, (values name).length ≤ 1

/-! ## Looking up -/

theorem find_overwrite (node : BufferNode) (nodes : List BufferNode)
    (present : ∃ other ∈ nodes, other.hId = node.hId)
    (hId : HdrId) :
    (BufferTable.overwrite node nodes).find? (fun other => other.hId = hId) =
      if hId = node.hId then some node
      else nodes.find? fun other => other.hId = hId := by
  induction nodes with
  | nil =>
      rcases present with ⟨other, inside, -⟩
      cases inside
  | cons current rest ih =>
      rw [BufferTable.overwrite]
      by_cases here : current.hId = node.hId
      · rw [if_pos here, List.find?_cons, List.find?_cons]
        by_cases same : hId = node.hId
        · rw [if_pos same, decide_eq_true same.symm]
        · rw [if_neg same, decide_eq_false (fun equal => same equal.symm),
            decide_eq_false (fun equal => same (equal.symm.trans here))]
      · rw [if_neg here, List.find?_cons, List.find?_cons]
        have later : ∃ other ∈ rest, other.hId = node.hId := by
          rcases present with ⟨other, inside, equal⟩
          rcases List.mem_cons.mp inside with rfl | further
          · exact absurd equal here
          · exact ⟨other, further, equal⟩
        rw [ih later]
        by_cases own : current.hId = hId
        · have other : ¬hId = node.hId := fun same => here (own.trans same)
          rw [decide_eq_true own]
          dsimp only
          rw [if_neg other]
        · rw [decide_eq_false own]

theorem hIds_overwrite (node : BufferNode) (nodes : List BufferNode) :
    (BufferTable.overwrite node nodes).map BufferNode.hId =
      nodes.map BufferNode.hId := by
  induction nodes with
  | nil => rfl
  | cons current rest ih =>
      rw [BufferTable.overwrite]
      split
      · rename_i here
        rw [List.map_cons, List.map_cons, here]
      · rw [List.map_cons, List.map_cons, ih]

/-- The hashes in the buckets: each once, in its own bucket, and only those of the
names. -/
structure Hashed (names : Names) (table : BufferTable) : Prop where
  placed :
    ∀ index, ∀ hId ∈ (table.bucket index).map BufferNode.hId,
      bucketIndex hId = index
  unique : ∀ index, ((table.bucket index).map BufferNode.hId).Nodup
  known :
    ∀ index, ∀ hId ∈ (table.bucket index).map BufferNode.hId,
      ∃ name : names.Name, hId = Names.hId name

variable
    {table : BufferTable}
    {node : BufferNode}

theorem lookup_hId {hId : HdrId} (found : table.lookup hId = some node) :
    node.hId = hId ∧ node ∈ table.bucket (bucketIndex hId) := by
  rw [BufferTable.lookup] at found
  have holds := List.find?_some found
  exact ⟨of_decide_eq_true holds, List.mem_of_find?_eq_some found⟩

theorem lookup_setNode {table : BufferTable} {node current : BufferNode}
    (found : table.lookup node.hId = some current)
    (hId : HdrId) :
    (table.setNode node).lookup hId =
      if hId = node.hId then some node else table.lookup hId := by
  rcases lookup_hId found with ⟨same, inside⟩
  rw [BufferTable.lookup, BufferTable.setNode, BufferTable.lookup]
  dsimp only
  by_cases bucket : bucketIndex hId = bucketIndex node.hId
  · rw [bucket, Function.update_self]
    exact find_overwrite node _ ⟨current, inside, same⟩ hId
  · rw [Function.update_of_ne bucket, if_neg]
    rintro rfl
    exact bucket rfl

theorem Hashed.setNode {table : BufferTable} (hashed : Hashed names table)
    (node : BufferNode) :
    Hashed names (table.setNode node) := by
  have same :
      ∀ index,
        ((table.setNode node).bucket index).map BufferNode.hId =
          (table.bucket index).map BufferNode.hId := by
    intro index
    rw [BufferTable.setNode]
    dsimp only
    by_cases here : index = bucketIndex node.hId
    · rw [here, Function.update_self, hIds_overwrite]
    · rw [Function.update_of_ne here]
  refine ⟨?_, ?_, ?_⟩
  · intro index
    rw [same index]
    exact hashed.placed index
  · intro index
    rw [same index]
    exact hashed.unique index
  · intro index
    rw [same index]
    exact hashed.known index

/-- The node that `table_insert_first` makes. -/
def firstNode (hId : HdrId) (hdrLen : Nat) (hdr : Bytes) (value : Text) :
    BufferNode where
  hId := hId
  hdr := hdr
  hdrLen := hdrLen
  value := value
  buffer := none

theorem lookup_tableInsertFirst (table : BufferTable) (hId : HdrId)
    (hdrLen : Nat)
    (hdr : Bytes)
    (value : Text)
    (other : HdrId) :
    (table.tableInsertFirst hId hdrLen hdr value).lookup other =
      if other = hId then some (firstNode hId hdrLen hdr value)
      else table.lookup other := by
  rw [BufferTable.lookup, BufferTable.tableInsertFirst, BufferTable.lookup]
  dsimp only
  by_cases same : other = hId
  · rw [if_pos same, same, Function.update_self, List.find?_cons,
      decide_eq_true rfl]
    rfl
  · rw [if_neg same]
    by_cases bucket : bucketIndex other = bucketIndex hId
    · rw [bucket, Function.update_self, List.find?_cons,
        decide_eq_false fun equal => same equal.symm]
    · rw [Function.update_of_ne bucket]

theorem Hashed.tableInsertFirst (hashed : Hashed names table)
    (name : names.Name)
    (absent : table.lookup (Names.hId name) = none)
    (hdrLen : Nat)
    (hdr : Bytes)
    (value : Text) :
    Hashed names
      (table.tableInsertFirst (Names.hId name) hdrLen hdr value) := by
  have fresh :
      Names.hId name ∉
        (table.bucket (bucketIndex (Names.hId name))).map BufferNode.hId := by
    intro inside
    rcases List.mem_map.mp inside with ⟨node, member, same⟩
    have missing := List.find?_eq_none.mp absent node member
    exact missing (decide_eq_true same)
  have bucket :
      ∀ index,
        ((table.tableInsertFirst (Names.hId name) hdrLen hdr
            value).bucket index).map BufferNode.hId =
          if index = bucketIndex (Names.hId name) then
            Names.hId name :: (table.bucket index).map BufferNode.hId
          else (table.bucket index).map BufferNode.hId := by
    intro index
    rw [BufferTable.tableInsertFirst]
    dsimp only
    by_cases here : index = bucketIndex (Names.hId name)
    · rw [if_pos here, here, Function.update_self]
      rfl
    · rw [if_neg here, Function.update_of_ne here]
  refine ⟨?_, ?_, ?_⟩
  · intro index hId inside
    rw [bucket index] at inside
    split at inside
    · rename_i here
      rcases List.mem_cons.mp inside with rfl | before
      · exact here.symm
      · exact hashed.placed index hId before
    · exact hashed.placed index hId inside
  · intro index
    rw [bucket index]
    split
    · rename_i here
      rw [here]
      exact List.nodup_cons.mpr ⟨fresh, hashed.unique _⟩
    · exact hashed.unique index
  · intro index hId inside
    rw [bucket index] at inside
    split at inside
    · rcases List.mem_cons.mp inside with rfl | before
      · exact ⟨name, rfl⟩
      · exact hashed.known index hId before
    · exact hashed.known index hId inside

/-- Every node is the one that is found under its hash. -/
theorem Hashed.lookup_of_mem (hashed : Hashed names table) {index : Fin 8}
    (inside : node ∈ table.bucket index) :
    table.lookup node.hId = some node := by
  have placed := hashed.placed index node.hId (List.mem_map_of_mem inside)
  have unique := hashed.unique index
  rw [BufferTable.lookup, placed]
  clear placed
  generalize table.bucket index = nodes at inside unique
  induction nodes with
  | nil => cases inside
  | cons first rest ih =>
      rw [List.map_cons] at unique
      rcases List.nodup_cons.mp unique with ⟨outside, restUnique⟩
      rw [List.find?_cons]
      rcases List.mem_cons.mp inside with rfl | later
      · rw [decide_eq_true rfl]
      · have different : first.hId ≠ node.hId := by
          intro same
          rw [same] at outside
          exact outside (List.mem_map_of_mem later)
        rw [decide_eq_false different]
        exact ih later restUnique

/-! ## The invariant -/

/-- A node with the values of a name, which are two at most: the first is the
caller's string, and both are in a buffer of the node's own. -/
def NodeHolds (heap : Heap) : Option BufferNode → List Text → Prop
  | none, [] => True
  | some node, [value] => node.value = value ∧ node.buffer = none
  | some node, [first, second] =>
      ∃ buffer,
        node.buffer = some buffer ∧
          Live heap buffer
            ((first.bytes ++ [44] ++ second.bytes ++ [0]).map some)
  | _, _ => False

/-- The table holds the values, and no two nodes have one buffer. -/
structure Kept (table : BufferTable) (values : Values names) : Prop where
  hashed : Hashed names table
  holds :
    ∀ name, NodeHolds table.heap (table.lookup (Names.hId name)) (values name)
  apart :
    ∀ left right leftNode rightNode buffer,
      table.lookup left = some leftNode →
        table.lookup right = some rightNode →
          leftNode.buffer = some buffer →
            rightNode.buffer = some buffer → left = right

theorem kept_init :
    Kept BufferTable.ymoHttpHdrTableInit (fun _ => [] : Values names) where
  hashed :=
    ⟨fun _ _ inside => absurd inside List.not_mem_nil,
      fun _ => List.nodup_nil,
      fun _ _ inside => absurd inside List.not_mem_nil⟩
  holds := fun _ => trivial
  apart := by
    intro left right leftNode rightNode buffer found
    cases found

theorem noZero_joined (first second : Text) :
    ∀ c ∈ first.bytes ++ [44] ++ second.bytes, c ≠ 0 := by
  intro c inside
  rcases List.mem_append.mp inside with front | back
  · rcases List.mem_append.mp front with inFirst | comma
    · exact first.noZero c inFirst
    · rw [List.mem_singleton] at comma
      rw [comma]
      decide
  · exact second.noZero c back

/-- A buffer of joined values reads as them. -/
theorem readString_joined {heap : Heap} {first second : Text}
    (live :
      Live heap buffer
        ((first.bytes ++ [44] ++ second.bytes ++ [0]).map some)) :
    readString heap buffer = some (first.bytes ++ [44] ++ second.bytes) := by
  rw [live.readString, List.map_append]
  exact stringIn_terminated (noZero_joined first second) []

theorem commaJoined_single (value : Text) :
    commaJoined [value] = .string value.bytes := by
  show BufferTable.Got.string _ = _
  rw [List.map_cons, List.map_nil, List.intercalate_singleton]

theorem commaJoined_pair (first second : Text) :
    commaJoined [first, second] =
      .string (first.bytes ++ [44] ++ second.bytes) := by
  show BufferTable.Got.string _ = _
  rw [List.map_cons, List.map_cons, List.map_nil,
    List.intercalate_cons_cons, List.intercalate_singleton]

variable {values : Values names}

/-- A table that holds the values reads as them. -/
theorem Kept.reads (kept : Kept table values) : Reads table values := by
  intro name
  have holds := kept.holds name
  rw [BufferTable.ymoHttpHdrTableGet]
  change
    (match table.lookup (Names.hId name) with
      | some current =>
          match current.buffer with
          | none => BufferTable.Got.string current.value.bytes
          | some buffer =>
              match readString table.heap buffer with
              | some bytes => .string bytes
              | none => .undefined
      | none => .null) = _
  cases found : table.lookup (Names.hId name) with
  | none =>
      rw [found] at holds
      cases list : values name with
      | nil => rfl
      | cons first rest =>
          rw [list] at holds
          cases holds
  | some node =>
      rw [found] at holds
      match list : values name, holds with
      | [value], holds =>
          rcases holds with ⟨same, unjoined⟩
          dsimp only
          rw [unjoined, same]
          dsimp only
          rw [commaJoined_single]
      | [first, second], holds =>
          rcases holds with ⟨buffer, joined, live⟩
          dsimp only
          rw [joined]
          dsimp only
          rw [readString_joined live, commaJoined_pair]

/-! ## Operations that keep the invariant -/

theorem update_name {name : names.Name} {new : List Text}
    {other : names.Name} :
    Function.update values name new other =
      if Names.hId other = Names.hId name then new else values other := by
  by_cases same : other = name
  · rw [same, Function.update_self, if_pos rfl]
  · have apart : ¬Names.hId other = Names.hId name := by
      intro equal
      exact
        same
          (Subtype.ext
            (names.distinct other.val other.property name.val
              name.property equal))
    rw [Function.update_of_ne same, if_neg apart]

/-- A node without a buffer is made for a name that has no value. -/
theorem Kept.tableInsertFirst (kept : Kept table values) (name : names.Name)
    (absent : table.lookup (Names.hId name) = none)
    (hdrLen : Nat)
    (hdr : Bytes)
    (value : Text) :
    Kept
      (table.tableInsertFirst (Names.hId name) hdrLen hdr value)
      (Function.update values name [value]) where
  hashed := kept.hashed.tableInsertFirst name absent hdrLen hdr value
  holds := by
    intro other
    rw [lookup_tableInsertFirst, update_name]
    by_cases same : Names.hId other = Names.hId name
    · rw [if_pos same, if_pos same]
      exact ⟨rfl, rfl⟩
    · rw [if_neg same, if_neg same]
      exact kept.holds other
  apart := by
    intro left right leftNode rightNode buffer foundLeft foundRight
      leftBuffer rightBuffer
    rw [lookup_tableInsertFirst] at foundLeft foundRight
    split at foundLeft
    · rw [← Option.some.inj foundLeft] at leftBuffer
      cases leftBuffer
    · split at foundRight
      · rw [← Option.some.inj foundRight] at rightBuffer
        cases rightBuffer
      · exact
          kept.apart left right leftNode rightNode buffer foundLeft
            foundRight leftBuffer rightBuffer

/-- The node of a name is given another value, and no buffer. -/
theorem Kept.setValue {table : BufferTable} {values : Values names}
    (kept : Kept table values)
    (name : names.Name)
    {current node : BufferNode}
    (found : table.lookup (Names.hId name) = some current)
    (same : node.hId = Names.hId name)
    (unjoined : node.buffer = none) :
    Kept (table.setNode node) (Function.update values name [node.value]) where
  hashed := kept.hashed.setNode node
  holds := by
    intro other
    rw [← same] at found
    rw [lookup_setNode found, update_name, ← same]
    by_cases here : Names.hId other = node.hId
    · rw [if_pos here, if_pos here]
      exact ⟨rfl, unjoined⟩
    · rw [if_neg here, if_neg here]
      exact kept.holds other
  apart := by
    intro left right leftNode rightNode buffer foundLeft foundRight
      leftBuffer rightBuffer
    rw [← same] at found
    rw [lookup_setNode found] at foundLeft foundRight
    split at foundLeft
    · rw [← Option.some.inj foundLeft, unjoined] at leftBuffer
      cases leftBuffer
    · split at foundRight
      · rw [← Option.some.inj foundRight, unjoined] at rightBuffer
        cases rightBuffer
      · exact
          kept.apart left right leftNode rightNode buffer foundLeft
            foundRight leftBuffer rightBuffer

/-- Buffers that are in use stay so when the heap gets a new block. -/
theorem NodeHolds.later {heap later : Heap}
    (stays : ∀ block cells, Live heap block cells → Live later block cells)
    {node : Option BufferNode}
    {values : List Text}
    (holds : NodeHolds heap node values) :
    NodeHolds later node values := by
  match node, values, holds with
  | none, [], holds => exact holds
  | some node, [value], holds => exact holds
  | some node, [first, second], ⟨buffer, joined, live⟩ =>
      exact ⟨buffer, joined, stays buffer _ live⟩

/-- A node that holds values has a buffer that is in use, or none. -/
theorem NodeHolds.live {heap : Heap} {values : List Text}
    (holds : NodeHolds heap (some node) values)
    (has : node.buffer = some buffer) :
    ∃ cells, Live heap buffer cells := by
  match values, holds with
  | [value], ⟨_, unjoined⟩ =>
      rw [unjoined] at has
      cases has
  | [first, second], ⟨other, joined, live⟩ =>
      rw [joined] at has
      cases has
      exact ⟨_, live⟩

/-- Every node is the node of a name. -/
theorem Kept.nameOf (kept : Kept table values) {hId : HdrId}
    (found : table.lookup hId = some node) :
    ∃ name : names.Name, hId = Names.hId name := by
  rcases lookup_hId found with ⟨same, inside⟩
  rw [← same]
  exact
    kept.hashed.known (bucketIndex hId) node.hId (List.mem_map_of_mem inside)

theorem Kept.live (kept : Kept table values) {hId : HdrId}
    (found : table.lookup hId = some node)
    (has : node.buffer = some buffer) :
    ∃ cells, Live table.heap buffer cells := by
  rcases kept.nameOf found with ⟨name, rfl⟩
  have holds := kept.holds name
  rw [found] at holds
  exact holds.live has

/-- Bytes in the place of others. -/
theorem put_append (front middle back : List (Option UInt8)) {data : Bytes}
    (same : middle.length = data.length) :
    put (front ++ middle ++ back) front.length data =
      front ++ data.map some ++ back := by
  have before : (front ++ middle ++ back).take front.length = front := by
    rw [List.append_assoc, List.take_left]
  have after :
      (front ++ middle ++ back).drop (front.length + data.length) = back := by
    rw [← same, ← List.length_append, List.drop_left]
  rw [put, before, after]

/-- `snprintf` into a new buffer. -/
theorem live_snprintf (heap : Heap) (first second : Text) :
    let allocated := malloc heap (first.bytes.length + second.bytes.length + 2)
    let joined := first.bytes ++ [44] ++ second.bytes
    let text :=
      joined.take (first.bytes.length + second.bytes.length + 2 - 1) ++ [0]
    Live (write allocated.1 allocated.2 0 text) heap.length
        ((joined ++ [0]).map some) ∧
      ∀ block cells, Live heap block cells →
        Live (write allocated.1 allocated.2 0 text) block cells := by
  intro allocated joined text
  have length :
      joined.length = first.bytes.length + second.bytes.length + 1 := by
    simp only [joined, List.length_append, List.length_cons, List.length_nil]
    omega
  have whole : text = joined ++ [0] := by
    show joined.take _ ++ [0] = joined ++ [0]
    rw [List.take_of_length_le]
    omega
  constructor
  · have new :=
      (live_malloc heap
        (first.bytes.length + second.bytes.length + 2)).write 0 text
    have fills :
        (List.replicate (first.bytes.length + second.bytes.length + 2)
            (none : Option UInt8)).length =
          text.length := by
      rw [List.length_replicate, whole, List.length_append, length]
      rfl
    have filled := put_append [] _ [] fills
    rw [List.append_nil, List.nil_append, List.nil_append, List.append_nil]
      at filled
    have cells : text.map some = (joined ++ [0]).map some := by rw [whole]
    rw [show put _ 0 text = _ from filled, cells] at new
    exact new
  · intro block cells live
    exact (live.append _).write_other (Nat.ne_of_lt live.lt) 0 text

/-- A second value is joined to the first, in a buffer of its own. -/
theorem Kept.joinFirst (kept : Kept table values) {name : names.Name}
    {current : BufferNode}
    (found : table.lookup (Names.hId name) = some current)
    {first : Text}
    (one : values name = [first])
    (value : Text) :
    ∃ later,
      table.joinBuffer current value = some later ∧
        Kept later (Function.update values name [first, value]) := by
  have holds := kept.holds name
  rw [found, one] at holds
  rcases holds with ⟨same, unjoined⟩
  have own := (lookup_hId found).1
  rw [BufferTable.joinBuffer, unjoined]
  dsimp only
  rcases live_snprintf table.heap first value with ⟨new, stays⟩
  rw [← same] at new stays
  refine ⟨_, rfl, ?_⟩
  generalize
    write (malloc table.heap _).1 (malloc table.heap _).2 0 _ = heap
    at new stays ⊢
  have found' :
      BufferTable.lookup { table with heap := heap } current.hId =
        some current := by
    rw [own]
    exact found
  change
    Kept
      (BufferTable.setNode { table with heap := heap }
        { current with buffer := some table.heap.length })
      _
  have lookups :
      ∀ hId,
        (BufferTable.setNode { table with heap := heap }
              { current with buffer := some table.heap.length }).lookup
            hId =
          if hId = current.hId then
            some { current with buffer := some table.heap.length }
          else table.lookup hId :=
    fun hId =>
      @lookup_setNode { table with heap := heap }
        { current with buffer := some table.heap.length } current found' hId
  exact
    { hashed :=
        @Hashed.setNode names { table with heap := heap }
          ⟨kept.hashed.placed, kept.hashed.unique, kept.hashed.known⟩ _
      holds := by
        intro other
        rw [lookups, update_name, ← own]
        by_cases here : Names.hId other = current.hId
        · rw [if_pos here, if_pos here]
          refine ⟨table.heap.length, rfl, ?_⟩
          rw [← same]
          exact new
        · rw [if_neg here, if_neg here]
          exact (kept.holds other).later stays
      apart := by
        intro left right leftNode rightNode buffer foundLeft foundRight
          leftBuffer rightBuffer
        rw [lookups] at foundLeft foundRight
        split at foundLeft
        · rename_i here
          rw [← Option.some.inj foundLeft] at leftBuffer
          split at foundRight
          · rename_i there
            rw [here, there]
          · rcases kept.live foundRight rightBuffer with ⟨cells, live⟩
            rw [← Option.some.inj leftBuffer] at live
            exact absurd live.lt (Nat.lt_irrefl _)
        · rcases kept.live foundLeft leftBuffer with ⟨cells, live⟩
          split at foundRight
          · rw [← Option.some.inj foundRight] at rightBuffer
            rw [← Option.some.inj rightBuffer] at live
            exact absurd live.lt (Nat.lt_irrefl _)
          · exact
              kept.apart left right leftNode rightNode buffer foundLeft
                foundRight leftBuffer rightBuffer }

/-- What the table has for a name that does not have two values. -/
theorem Kept.lookup_cases (kept : Kept table values) (name : names.Name) :
    (table.lookup (Names.hId name) = none ∧ values name = []) ∨
      (∃ current first,
        table.lookup (Names.hId name) = some current ∧
          values name = [first] ∧
            current.value = first ∧ current.buffer = none) ∨
        ∃ current first second buffer,
          table.lookup (Names.hId name) = some current ∧
            values name = [first, second] ∧
              current.buffer = some buffer ∧
                Live table.heap buffer
                  ((first.bytes ++ [44] ++ second.bytes ++ [0]).map
                    some) := by
  have holds := kept.holds name
  match found : table.lookup (Names.hId name), list : values name with
  | none, [] => exact Or.inl ⟨rfl, rfl⟩
  | some current, [first] =>
      rw [found, list] at holds
      exact Or.inr (Or.inl ⟨current, first, rfl, rfl, holds⟩)
  | some current, [first, second] =>
      rw [found, list] at holds
      rcases holds with ⟨buffer, joined, live⟩
      exact
        Or.inr
          (Or.inr ⟨current, first, second, buffer, rfl, rfl, joined, live⟩)
  | none, _ :: _ =>
      rw [found, list] at holds
      cases holds
  | some _, [] =>
      rw [found, list] at holds
      cases holds
  | some _, _ :: _ :: _ :: _ =>
      rw [found, list] at holds
      cases holds

/-- `ymo_http_hdr_table_insert_precompute` on a name with one value at most. -/
theorem Kept.insert (kept : Kept table values) {name : names.Name}
    (few : (values name).length ≤ 1)
    (hdrLen : Nat)
    (value : Text) :
    ∃ later,
      table.ymoHttpHdrTableInsertPrecompute (Names.hId name) name.val
            hdrLen value =
          some later ∧
        Kept later (Function.update values name [value]) := by
  rw [BufferTable.ymoHttpHdrTableInsertPrecompute]
  rcases kept.lookup_cases name with
    ⟨absent, -⟩ | ⟨current, first, found, -, -, unjoined⟩ |
      ⟨current, first, second, buffer, -, two, -⟩
  · rw [absent]
    exact ⟨_, rfl, kept.tableInsertFirst name absent hdrLen name.val value⟩
  · have own := (lookup_hId found).1
    have nothing :
        BufferTable.freeBuffer table.heap current.buffer =
          some table.heap := by
      rw [unjoined]
      rfl
    rw [found]
    dsimp only
    rw [nothing]
    exact
      ⟨_, rfl,
        @Kept.setValue names table values kept name current
          { current with hdr := name.val, value := value, hdrLen := hdrLen }
          found own unjoined⟩
  · rw [two] at few
    nomatch few

/-- `ymo_http_hdr_table_add_precompute` on a name with one value at most. -/
theorem Kept.addPrecompute (kept : Kept table values) {name : names.Name}
    (few : (values name).length ≤ 1)
    (hdrLen : Nat)
    (value : Text) :
    ∃ later,
      table.ymoHttpHdrTableAddPrecompute (Names.hId name) name.val hdrLen
            value =
          some later ∧
        Kept later (Function.update values name (values name ++ [value])) := by
  rw [BufferTable.ymoHttpHdrTableAddPrecompute]
  rcases kept.lookup_cases name with
    ⟨absent, empty⟩ | ⟨current, first, found, one, -⟩ |
      ⟨current, first, second, buffer, -, two, -⟩
  · rw [absent, empty]
    exact ⟨_, rfl, kept.tableInsertFirst name absent hdrLen name.val value⟩
  · rw [found, one]
    exact kept.joinFirst found one value
  · rw [two] at few
    nomatch few

/-- For a name that is not `Set-Cookie`, adding is adding with the hash. -/
theorem add_eq_addPrecompute (table : BufferTable) (name : names.Name)
    (value : Text) :
    table.ymoHttpHdrTableAdd name.val value =
      table.ymoHttpHdrTableAddPrecompute (Names.hId name) name.val
        name.val.length value := by
  rw [BufferTable.ymoHttpHdrTableAdd, BufferTable.ymoHttpHdrTableAddPrecompute]
  change
    (match table.lookup (Names.hId name) with
      | some current => _
      | none => _) = _
  cases found : table.lookup (Names.hId name) with
  | none => rfl
  | some current =>
      have other : current.hId ≠ ymoHttpHidSetCookie := by
        rw [(lookup_hId found).1]
        exact names.noCookie name.val name.property
      dsimp only
      rw [if_neg other]

/-- Buffers that are in use, each of one node, can be freed one after the other. -/
theorem freeNodes_of_live
    (nodes : List BufferNode)
    {heap : Heap}
    (live :
      ∀ node ∈ nodes, ∀ buffer, node.buffer = some buffer →
        ∃ cells, Live heap buffer cells)
    (apart :
      nodes.Pairwise fun left right =>
        ∀ buffer, left.buffer = some buffer → right.buffer ≠ some buffer) :
    ∃ later, BufferTable.freeNodes heap nodes = some later := by
  induction nodes generalizing heap with
  | nil => exact ⟨heap, rfl⟩
  | cons node rest ih =>
      rcases List.pairwise_cons.mp apart with ⟨others, restApart⟩
      rw [BufferTable.freeNodes, BufferTable.freeBuffer.eq_def]
      cases has : node.buffer with
      | none =>
          exact
            ih
              (fun other inside =>
                live other (List.mem_cons_of_mem node inside))
              restApart
      | some buffer =>
          rcases live node List.mem_cons_self buffer has with
            ⟨cells, here⟩
          rcases here.free with ⟨later, frees, -, -, stays⟩
          dsimp only
          rw [frees]
          apply ih _ restApart
          intro other inside otherBuffer otherHas
          rcases live other (List.mem_cons_of_mem node inside) otherBuffer
            otherHas with ⟨kept, there⟩
          refine ⟨kept, stays otherBuffer kept ?_ there⟩
          rintro rfl
          exact others other inside otherBuffer has otherHas

/-- `ymo_http_hdr_table_clear`. -/
theorem Kept.clear (kept : Kept table values) :
    ∃ later,
      table.ymoHttpHdrTableClear = some later ∧
        Kept later (fun _ => [] : Values names) := by
  have inBucket :
      ∀ node ∈ (List.finRange 8).flatMap table.bucket,
        table.lookup node.hId = some node := by
    intro node inside
    rcases List.mem_flatMap.mp inside with ⟨index, -, member⟩
    exact kept.hashed.lookup_of_mem member
  have distinct :
      ((List.finRange 8).flatMap table.bucket).Pairwise
        fun left right => left.hId ≠ right.hId := by
    apply List.pairwise_flatMap.mpr
    constructor
    · intro index _
      exact List.pairwise_map.mp (kept.hashed.unique index)
    · apply (List.nodup_finRange 8).imp
      intro index other different left inLeft right inRight same
      have here :=
        kept.hashed.placed index left.hId (List.mem_map_of_mem inLeft)
      have there :=
        kept.hashed.placed other right.hId (List.mem_map_of_mem inRight)
      rw [same] at here
      exact different (here.symm.trans there)
  have freed :
      ∃ later,
        BufferTable.freeNodes table.heap
            ((List.finRange 8).flatMap table.bucket) =
          some later := by
    apply freeNodes_of_live
    · intro node inside buffer has
      exact kept.live (inBucket node inside) has
    · apply distinct.imp_of_mem
      intro left right inLeft inRight different buffer leftHas rightHas
      exact
        different
          (kept.apart left.hId right.hId left right buffer
            (inBucket left inLeft) (inBucket right inRight) leftHas
            rightHas)
  rcases freed with ⟨heap, frees⟩
  refine ⟨{ bucket := fun _ => [], heap := heap }, ?_, ?_⟩
  · rw [BufferTable.ymoHttpHdrTableClear, frees]
  · exact
      { hashed :=
          ⟨fun _ _ inside => absurd inside List.not_mem_nil,
            fun _ => List.nodup_nil,
            fun _ _ inside => absurd inside List.not_mem_nil⟩
        holds := fun _ => trivial
        apart := by
          intro left right leftNode rightNode buffer found
          cases found }

/-- One operation that gives no third value keeps the invariant. -/
theorem Kept.step (kept : Kept table values) {op : BufferOp names}
    (few : AtMostTwo values op) :
    ∃ later,
      bufferStep table op = some later ∧ Kept later (valueStep values op) := by
  cases op with
  | insert name value => exact kept.insert (few name rfl) name.val.length value
  | insertPrecompute name value =>
      exact kept.insert (few name rfl) name.val.length value
  | add name value =>
      rw [bufferStep, add_eq_addPrecompute]
      exact kept.addPrecompute (few name rfl) name.val.length value
  | addPrecompute name value =>
      exact kept.addPrecompute (few name rfl) name.val.length value
  | get name =>
      refine ⟨table, ?_, kept⟩
      have reads := kept.reads name
      have defined : table.ymoHttpHdrTableGet name.val ≠ .undefined := by
        rw [reads]
        cases values name with
        | nil => exact BufferTable.Got.noConfusion
        | cons first rest => exact BufferTable.Got.noConfusion
      rw [bufferStep, if_neg defined]
  | clear => exact kept.clear

/-! ## Operations that do not -/

/-- A buffer that cannot be read is what a name with two values is left with. -/
theorem not_reads {name : names.Name}
    (found : table.lookup (Names.hId name) = some node)
    (has : node.buffer = some buffer)
    (unreadable : readString table.heap buffer = none)
    (valued : values name ≠ []) :
    ¬Reads table values := by
  intro reads
  have here := reads name
  have got : table.ymoHttpHdrTableGet name.val = .undefined := by
    rw [BufferTable.ymoHttpHdrTableGet]
    change
      (match table.lookup (Names.hId name) with
        | some current => _
        | none => _) = _
    rw [found]
    dsimp only
    rw [has]
    dsimp only
    rw [unreadable]
  rw [got] at here
  cases list : values name with
  | nil => exact valued list
  | cons first rest =>
      rw [list] at here
      cases here

/-- Inserting frees the buffer of joined values, which the node goes on to be read
from. -/
theorem Kept.not_insert (kept : Kept table values) {name : names.Name}
    (many : ¬(values name).length ≤ 1)
    (hdrLen : Nat)
    (value : Text) :
    ∀ later,
      table.ymoHttpHdrTableInsertPrecompute (Names.hId name) name.val
            hdrLen value =
          some later →
        ¬Reads later (Function.update values name [value]) := by
  intro later inserts
  rcases kept.lookup_cases name with
    ⟨-, empty⟩ | ⟨_, first, -, one, -⟩ |
      ⟨current, first, second, buffer, found, -, joined, live⟩
  · rw [empty] at many
    exact absurd (Nat.zero_le 1) many
  · rw [one] at many
    exact absurd (Nat.le_refl 1) many
  · rcases live.free with ⟨heap, frees, -, unreadable, -⟩
    have freed :
        BufferTable.freeBuffer table.heap current.buffer = some heap := by
      rw [joined]
      exact frees
    rw [BufferTable.ymoHttpHdrTableInsertPrecompute, found] at inserts
    dsimp only at inserts
    rw [freed] at inserts
    rw [← Option.some.inj inserts]
    have own := (lookup_hId found).1
    have found' :
        BufferTable.lookup { table with heap := heap } current.hId =
          some current := by
      rw [own]
      exact found
    have kept' :=
      @lookup_setNode { table with heap := heap }
        { current with hdr := name.val, value := value, hdrLen := hdrLen }
        current found' (Names.hId name)
    rw [if_pos own.symm] at kept'
    apply not_reads kept' joined unreadable
    rw [Function.update_self]
    exact List.cons_ne_nil _ _

/-- What `realloc` and `strncpy` leave of a buffer of joined values. -/
theorem readString_strncpy {heap : Heap} {text : Bytes}
    (noZero : ∀ c ∈ text, c ≠ 0)
    (live : Live heap buffer ((text ++ [0]).map some))
    (value : Text) :
    ∃ later fresh,
      realloc heap buffer (text.length + value.bytes.length + 2) =
          some (later, fresh) ∧
        readString
            (write (write later fresh text.length [44]) fresh
              (text.length + 1) value.bytes)
            fresh =
          none := by
  rcases live.realloc (text.length + value.bytes.length + 2) with
    ⟨later, fresh, reallocs, grown⟩
  refine ⟨later, fresh, reallocs, ?_⟩
  have length : ((text ++ [0]).map (some : UInt8 → _)).length =
      text.length + 1 := by
    rw [List.length_map, List.length_append, List.length_singleton]
  have more :
      text.length + value.bytes.length + 2 - (text.length + 1) =
        value.bytes.length + 1 := by
    omega
  have comma :=
    @put_append (text.map some) ([0].map some)
      (List.replicate (value.bytes.length + 1) none) [44] rfl
  have tail :=
    @put_append ((text ++ [44]).map some)
      (List.replicate value.bytes.length none) [none] value.bytes
      List.length_replicate
  rw [List.length_map] at comma
  rw [List.length_map, List.length_append, List.length_singleton] at tail
  rw [length, more, List.take_of_length_le (by rw [length]; omega),
    List.map_append] at grown
  have written := (grown.write text.length [44]).write
    (text.length + 1) value.bytes
  rw [comma, List.replicate_succ', ← List.append_assoc,
    ← List.map_append, tail, ← List.map_append] at written
  rw [written.readString]
  apply stringIn_unwritten
  intro c inside
  rcases List.mem_append.mp inside with front | back
  · rcases List.mem_append.mp front with inText | comma
    · exact noZero c inText
    · rw [List.mem_singleton] at comma
      rw [comma]
      decide
  · exact value.noZero c back

/-- A third value is joined without its end. -/
theorem Kept.not_add (kept : Kept table values) {name : names.Name}
    (many : ¬(values name).length ≤ 1)
    (hdrLen : Nat)
    (value : Text) :
    ∀ later,
      table.ymoHttpHdrTableAddPrecompute (Names.hId name) name.val hdrLen
            value =
          some later →
        ¬Reads later
          (Function.update values name (values name ++ [value])) := by
  intro later adds
  rcases kept.lookup_cases name with
    ⟨-, empty⟩ | ⟨_, first, -, one, -⟩ |
      ⟨current, first, second, buffer, found, -, joined, live⟩
  · rw [empty] at many
    exact absurd (Nat.zero_le 1) many
  · rw [one] at many
    exact absurd (Nat.le_refl 1) many
  · rcases readString_strncpy (noZero_joined first second) live value with
      ⟨heap, fresh, reallocs, unreadable⟩
    rw [BufferTable.ymoHttpHdrTableAddPrecompute, found] at adds
    dsimp only at adds
    rw [BufferTable.joinBuffer, joined] at adds
    dsimp only at adds
    rw [readString_joined live] at adds
    dsimp only at adds
    rw [reallocs] at adds
    rw [← Option.some.inj adds]
    have own := (lookup_hId found).1
    generalize write (write heap fresh _ _) fresh _ _ = written at unreadable ⊢
    have found' :
        BufferTable.lookup { table with heap := written } current.hId =
          some current := by
      rw [own]
      exact found
    have kept' :=
      @lookup_setNode { table with heap := written }
        { current with buffer := some fresh } current found'
        (Names.hId name)
    rw [if_pos own.symm] at kept'
    apply not_reads kept' rfl unreadable
    rw [Function.update_self]
    exact List.append_ne_nil_of_right_ne_nil _ (List.cons_ne_nil _ _)

/-- After an operation that gives a third value, names do not read as their
values. -/
theorem Kept.not_step (kept : Kept table values) {op : BufferOp names}
    (many : ¬AtMostTwo values op) :
    ∀ later,
      bufferStep table op = some later →
        ¬Reads later (valueStep values op) := by
  rw [AtMostTwo] at many
  push Not at many
  rcases many with ⟨name, target, more⟩
  rw [← Nat.not_le] at more
  cases op with
  | insert other value =>
      cases target
      exact kept.not_insert more _ value
  | insertPrecompute other value =>
      cases target
      exact kept.not_insert more _ value
  | add other value =>
      cases target
      rw [bufferStep, add_eq_addPrecompute]
      exact kept.not_add more _ value
  | addPrecompute other value =>
      cases target
      exact kept.not_add more _ value
  | get other => cases target
  | clear => cases target

/-! ## Runs -/

theorem readsRight_cons (table : BufferTable) (values : Values names)
    (op : BufferOp names)
    (rest : List (BufferOp names)) :
    ReadsRight table values (op :: rest) ↔
      Reads table values ∧
        ∃ later,
          bufferStep table op = some later ∧
            ReadsRight later (valueStep values op) rest := by
  constructor
  · intro right
    rcases right [] List.nil_prefix with ⟨same, ends, reads⟩
    cases ends
    refine ⟨reads, ?_⟩
    rcases right [op] (List.prefix_cons_inj op |>.mpr List.nil_prefix)
      with ⟨_, ends, -⟩
    cases steps : bufferStep table op with
    | none =>
        rw [runBuffers, steps] at ends
        cases ends
    | some later =>
        refine ⟨later, rfl, ?_⟩
        intro front isPrefix
        have whole :=
          right (op :: front) ((List.prefix_cons_inj op).mpr isPrefix)
        rw [runBuffers, steps] at whole
        exact whole
  · rintro ⟨reads, later, steps, right⟩ front isPrefix
    rcases List.prefix_cons_iff.mp isPrefix with rfl | ⟨tail, rfl, within⟩
    · exact ⟨table, rfl, reads⟩
    · rw [runBuffers, steps]
      exact right tail within

theorem Kept.readsRight_from (kept : Kept table values)
    (ops : List (BufferOp names)) :
    ReadsRight table values ops ↔ AllAlong valueStep AtMostTwo values ops := by
  induction ops generalizing table values with
  | nil =>
      constructor
      · intro _
        trivial
      · intro _ front isPrefix
        rw [List.prefix_nil] at isPrefix
        rw [isPrefix]
        exact ⟨table, rfl, kept.reads⟩
  | cons op rest ih =>
      rw [readsRight_cons, allAlong_cons]
      constructor
      · rintro ⟨-, later, steps, right⟩
        by_cases few : AtMostTwo values op
        · rcases kept.step few with ⟨next, also, kept'⟩
          cases steps.symm.trans also
          exact ⟨few, (ih kept').mp right⟩
        · rcases right [] List.nil_prefix with ⟨same, ends, reads⟩
          cases ends
          exact absurd reads (kept.not_step few later steps)
      · rintro ⟨few, all⟩
        rcases kept.step few with ⟨next, steps, kept'⟩
        exact ⟨kept.reads, next, steps, (ih kept').mpr all⟩

/-- Every operation of a run has a result, and every name reads as its values in each
state, exactly when no name that has two values is given another one before the table
is cleared. -/
theorem readsRight_iff (ops : List (BufferOp names)) :
    ReadsRight BufferTable.ymoHttpHdrTableInit (fun _ => []) ops ↔
      AllAlong valueStep AtMostTwo (fun _ => []) ops :=
  kept_init.readsRight_from ops

set_option maxRecDepth 4000 in
/-- `Key` alone. -/
def keyNames : Names where
  all := {[75, 101, 121]}
  distinct := by
    rintro left rfl right rfl -
    rfl
  noCookie := by
    rintro name rfl
    decide

/-- A string of one character. -/
def letter (c : UInt8) (noZero : c ≠ 0) : Text where
  bytes := [c]
  noZero := by
    intro d inside
    rw [List.mem_singleton] at inside
    rw [inside]
    exact noZero

/-- A third value is added to one name. -/
def threeAdds : List (BufferOp keyNames) :=
  [.add ⟨[75, 101, 121], rfl⟩ (letter 97 (by decide)),
    .add ⟨[75, 101, 121], rfl⟩ (letter 98 (by decide)),
    .add ⟨[75, 101, 121], rfl⟩ (letter 99 (by decide))]

set_option maxRecDepth 4000 in
theorem not_readsRight_threeAdds :
    ¬ReadsRight BufferTable.ymoHttpHdrTableInit (fun _ => []) threeAdds := by
  intro right
  rcases right threeAdds (List.prefix_refl _) with ⟨later, ends, reads⟩
  have got :
      (runBuffers BufferTable.ymoHttpHdrTableInit threeAdds).map
          (fun table => table.ymoHttpHdrTableGet [75, 101, 121]) =
        some .undefined := by
    decide
  rw [ends, Option.map_some] at got
  have string := reads ⟨[75, 101, 121], rfl⟩
  rw [Option.some.inj got] at string
  revert string
  decide

end Yimmo.Http.HeaderBuffers
