import Mathlib.Data.Fintype.Basic
import Mathlib.Data.List.FinRange
import Mathlib.Logic.Function.Basic
import Yimmo.Core.Characters

/-!
# The header table

`ymo_http_hdr_table_t` is a table of eight bucket lists of nodes.  A node keeps
pointers to the name and the value, so the model is generic in the type of
pointers and takes the function that reads a string through one.  Headers are
identified by the 15-bit hash of their name alone (`ymo_http_hdr_cmp`).

The node pool only decides where nodes live and is left out, and so are the blocks of
the joined values: this is the table of the runs in which no insertion meets a name
whose values have been joined, which `HeaderNodes` connects to the chains of the
source (`run_refines`).  The functions are those of the default build, where the hash
cannot be overridden.
-/

namespace Yimmo.Http.Headers

/-- `ymo_http_hdr_id_t`. -/
abbrev HdrId : Type :=
  UInt16

/-- `YMO_HDR_TABLE_MASK`. -/
def ymoHdrTableMask : HdrId :=
  0x7fff

/-- `YMO_HTTP_HDR_HASH_INIT`. -/
def ymoHttpHdrHashInit : HdrId :=
  5

/-- `YMO_HDR_HASH_CH`. -/
def ymoHdrHashCh (hId : HdrId) (c : UInt8) : HdrId :=
  hId * 283 + (c &&& 0xdf).toUInt16

/-- `ymo_http_hdr_hash_283_5`, which is `YMO_HDR_HASH_FN`. -/
def ymoHttpHdrHash (name : Bytes) : HdrId :=
  name.foldl ymoHdrHashCh ymoHttpHdrHashInit &&& ymoHdrTableMask

def ymoHttpHidConnection : HdrId := 31919

def ymoHttpHidContentLength : HdrId := 12647

def ymoHttpHidExpect : HdrId := 20206

def ymoHttpHidSetCookie : HdrId := 10316

def ymoHttpHidTransferEncoding : HdrId := 15812

def ymoHttpHidUpgrade : HdrId := 17987

/-- `ymo_http_hdr_table_node_t`. -/
structure HdrNode (Pointer : Type) where
  hId : HdrId
  hdr : Pointer
  hdrLen : Nat
  value : Pointer
  /-- The joined values of a repeated header, on the heap. -/
  buffer : Option Bytes
deriving DecidableEq

/-- `YMO_HDR_TABLE_BUCKET_SIZE` lists of nodes. -/
structure HdrTable (Pointer : Type) where
  bucket : Fin 8 → List (HdrNode Pointer)
deriving DecidableEq

variable {Pointer : Type}

/-- `ymo_http_hdr_table_init` on zeroed memory, and `ymo_http_hdr_table_clear`. -/
def ymoHttpHdrTableClear : HdrTable Pointer where
  bucket _ := []

/-- `h_id % YMO_HDR_TABLE_BUCKET_SIZE`. -/
def bucketIndex (hId : HdrId) : Fin 8 :=
  Fin.ofNat 8 hId.toNat

/-- The value a node stands for: the joined buffer if there is one. -/
def HdrNode.string (node : HdrNode Pointer) (read : Pointer → Bytes) : Bytes :=
  match node.buffer with
  | some buffer => buffer
  | none => read node.value

/-- Applies an update to the first node of the list that has the id. -/
def updateNode (hId : HdrId) (update : HdrNode Pointer → HdrNode Pointer) :
    List (HdrNode Pointer) → Option (List (HdrNode Pointer))
  | [] => none
  | node :: rest =>
      if node.hId = hId then some (update node :: rest)
      else (updateNode hId update rest).map (node :: ·)

/-- Updates the node with the id, or inserts a new one in front of its bucket. -/
def HdrTable.upsert (table : HdrTable Pointer) (hId : HdrId)
    (update : HdrNode Pointer → HdrNode Pointer)
    (node : HdrNode Pointer) :
    HdrTable Pointer :=
  let index := bucketIndex hId
  { bucket :=
      Function.update table.bucket index
        ((updateNode hId update (table.bucket index)).getD
          (node :: table.bucket index)) }

/-- `ymo_http_hdr_table_insert_precompute`, on a name whose values are not joined. -/
def ymoHttpHdrTableInsertPrecompute (table : HdrTable Pointer) (hId : HdrId)
    (hdr : Pointer)
    (hdrLen : Nat)
    (value : Pointer) :
    HdrTable Pointer :=
  table.upsert hId
    (fun node => { node with hdr := hdr, hdrLen := hdrLen, value := value })
    { hId := hId, hdr := hdr, hdrLen := hdrLen, value := value,
      buffer := none }

/-- `ymo_http_hdr_table_insert`. -/
def ymoHttpHdrTableInsert (read : Pointer → Bytes) (table : HdrTable Pointer)
    (hdr value : Pointer) :
    HdrTable Pointer :=
  ymoHttpHdrTableInsertPrecompute table
    (ymoHttpHdrHash (read hdr)) hdr (read hdr).length value

/--
The buffer of a node after one more value is joined to it.  The first join is
terminated by `snprintf`; a later one copies the value with `strncpy` and never
terminates the buffer, so a reader also sees `stray`, the bytes that
happen to follow it.
-/
def joinValue (read : Pointer → Bytes) (stray : Bytes) (value : Pointer)
    (node : HdrNode Pointer) :
    HdrNode Pointer :=
  match node.buffer with
  | none =>
      { node with buffer := some (read node.value ++ [44] ++ read value) }
  | some buffer =>
      { node with
        buffer := some (buffer ++ [44] ++ read value ++ stray) }

/-- A node keeps its id when a value is joined to it. -/
theorem hId_joinValue (read : Pointer → Bytes) (stray : Bytes)
    (value : Pointer)
    (node : HdrNode Pointer) :
    (joinValue read stray value node).hId = node.hId := by
  rw [joinValue]
  split
  · rfl
  · rfl

/-- `ymo_http_hdr_table_add_precompute`. -/
def ymoHttpHdrTableAddPrecompute (read : Pointer → Bytes) (stray : Bytes)
    (table : HdrTable Pointer)
    (hId : HdrId)
    (hdr : Pointer)
    (hdrLen : Nat)
    (value : Pointer) :
    HdrTable Pointer :=
  table.upsert hId (joinValue read stray value)
    { hId := hId, hdr := hdr, hdrLen := hdrLen, value := value,
      buffer := none }

/-- `ymo_http_hdr_table_get_id`: the node that carries the id. -/
def ymoHttpHdrTableGetId (table : HdrTable Pointer) (hId : HdrId) :
    Option (HdrNode Pointer) :=
  (table.bucket (bucketIndex hId)).find? fun node => node.hId = hId

/-- `table_insert_first`. -/
def tableInsertFirst (table : HdrTable Pointer) (node : HdrNode Pointer) :
    HdrTable Pointer :=
  let index := bucketIndex node.hId
  { bucket := Function.update table.bucket index (node :: table.bucket index) }

/-- `ymo_http_hdr_table_add`, where cookies are not joined. -/
def ymoHttpHdrTableAdd (read : Pointer → Bytes) (stray : Bytes)
    (table : HdrTable Pointer)
    (hdr value : Pointer) :
    HdrTable Pointer :=
  let hId := ymoHttpHdrHash (read hdr)
  let hdrLen := (read hdr).length
  match ymoHttpHdrTableGetId table hId with
  | some node =>
      if node.hId = ymoHttpHidSetCookie then
        tableInsertFirst table
          { hId := ymoHttpHidSetCookie, hdr := hdr, hdrLen := hdrLen,
            value := value, buffer := none }
      else
        ymoHttpHdrTableAddPrecompute read stray table hId hdr
          hdrLen value
  | none =>
      tableInsertFirst table
        { hId := hId, hdr := hdr, hdrLen := hdrLen, value := value,
          buffer := none }

/-- `ymo_http_hdr_table_get`. -/
def ymoHttpHdrTableGet (read : Pointer → Bytes) (table : HdrTable Pointer)
    (hdr : Pointer) :
    Option Bytes :=
  (ymoHttpHdrTableGetId table (ymoHttpHdrHash (read hdr))).map
    fun node => node.string read

/-- The nodes in the order in which `ymo_http_hdr_table_next` visits them. -/
def HdrTable.nodes (table : HdrTable Pointer) : List (HdrNode Pointer) :=
  (List.finRange 8).flatMap table.bucket

/-! ## Where nodes stand -/

/-- Every node stands in the bucket of its id. -/
def HdrTable.Placed (table : HdrTable Pointer) : Prop :=
  ∀ index, ∀ node ∈ table.bucket index, bucketIndex node.hId = index

theorem placed_clear : (ymoHttpHdrTableClear : HdrTable Pointer).Placed :=
  fun _ _ member => absurd member List.not_mem_nil

variable {hId : HdrId}

theorem updateNode_eq_none (update : HdrNode Pointer → HdrNode Pointer)
    {nodes : List (HdrNode Pointer)}
    (absent : ∀ node ∈ nodes, node.hId ≠ hId) :
    updateNode hId update nodes = none := by
  induction nodes with
  | nil => rfl
  | cons node rest ih =>
      have here := absent node List.mem_cons_self
      have later : ∀ other ∈ rest, other.hId ≠ hId :=
        fun other member => absent other (List.mem_cons_of_mem node member)
      rw [updateNode, if_neg here, ih later]
      rfl

/-- An update that keeps the ids keeps the ids of the list. -/
theorem mem_updateNode {update : HdrNode Pointer → HdrNode Pointer}
    (keeps : ∀ node, (update node).hId = node.hId)
    {nodes updated : List (HdrNode Pointer)}
    (found : updateNode hId update nodes = some updated)
    {node : HdrNode Pointer}
    (member : node ∈ updated) :
    ∃ before ∈ nodes, before.hId = node.hId := by
  induction nodes generalizing updated with
  | nil => nomatch found
  | cons first rest ih =>
      rw [updateNode] at found
      split at found
      · rw [← Option.some.inj found] at member
        rcases List.mem_cons.mp member with equal | later
        · rw [equal]
          exact ⟨first, List.mem_cons_self, (keeps first).symm⟩
        · exact ⟨node, List.mem_cons_of_mem first later, rfl⟩
      · rcases Option.map_eq_some_iff.mp found with ⟨others, rest, equal⟩
        rw [← equal] at member
        rcases List.mem_cons.mp member with here | later
        · rw [here]
          exact ⟨first, List.mem_cons_self, rfl⟩
        · rcases ih rest later with ⟨before, inside, same⟩
          exact ⟨before, List.mem_cons_of_mem first inside, same⟩

theorem HdrTable.Placed.upsert {table : HdrTable Pointer}
    (placed : table.Placed)
    {update : HdrNode Pointer → HdrNode Pointer}
    (keeps : ∀ node, (update node).hId = node.hId)
    (node : HdrNode Pointer) :
    (table.upsert node.hId update node).Placed := by
  intro index other member
  by_cases same : index = bucketIndex node.hId
  · subst same
    simp only [HdrTable.upsert, Function.update_self] at member
    cases found :
        updateNode node.hId update (table.bucket (bucketIndex node.hId)) with
    | none =>
        rw [found] at member
        rcases List.mem_cons.mp member with here | later
        · rw [here]
        · exact placed _ other later
    | some updated =>
        rw [found] at member
        rcases mem_updateNode keeps found member with ⟨before, inside, equal⟩
        rw [← equal]
        exact placed _ before inside
  · simp only [HdrTable.upsert, Function.update_of_ne same] at member
    exact placed index other member

variable {table : HdrTable Pointer}

theorem HdrTable.Placed.tableInsertFirst (placed : table.Placed)
    (node : HdrNode Pointer) :
    (Headers.tableInsertFirst table node).Placed := by
  intro index other member
  by_cases same : index = bucketIndex node.hId
  · subst same
    simp only [Headers.tableInsertFirst, Function.update_self] at member
    rcases List.mem_cons.mp member with here | later
    · rw [here]
    · exact placed _ other later
  · simp only [Headers.tableInsertFirst, Function.update_of_ne same] at member
    exact placed index other member

theorem HdrTable.Placed.insertPrecompute (placed : table.Placed) (hId : HdrId)
    (hdr : Pointer)
    (hdrLen : Nat)
    (value : Pointer) :
    (ymoHttpHdrTableInsertPrecompute table hId hdr hdrLen value).Placed := by
  have keeps :
      ∀ node : HdrNode Pointer,
        ({ node with
            hdr := hdr, hdrLen := hdrLen, value := value } :
          HdrNode Pointer).hId =
          node.hId :=
    fun _ => rfl
  exact
    placed.upsert keeps
      { hId := hId, hdr := hdr, hdrLen := hdrLen, value := value,
        buffer := none }

/-- A header that is not found is nowhere in the table. -/
theorem HdrTable.Placed.absent (placed : table.Placed)
    (missing : ymoHttpHdrTableGetId table hId = none)
    {index : Fin 8}
    {node : HdrNode Pointer}
    (member : node ∈ table.bucket index) :
    node.hId ≠ hId := by
  intro same
  have here := placed index node member
  rw [same] at here
  subst here
  have different := List.find?_eq_none.mp missing node member
  rw [same] at different
  exact different (decide_eq_true rfl)

/-- Where all lists but one are empty, that one is all there is. -/
theorem flatMap_only {Index Value : Type} {content : Index → List Value}
    {index : Index}
    {indices : List Index}
    (distinct : indices.Nodup)
    (member : index ∈ indices)
    (nothing : ∀ other, other ≠ index → content other = []) :
    indices.flatMap content = content index := by
  induction indices with
  | nil => nomatch member
  | cons first rest ih =>
      rcases List.nodup_cons.mp distinct with ⟨outside, restDistinct⟩
      rw [List.flatMap_cons]
      by_cases same : first = index
      · subst same
        have later : rest.flatMap content = [] := by
          apply List.flatMap_eq_nil_iff.mpr
          intro other inside
          apply nothing
          intro equal
          rw [equal] at inside
          exact outside inside
        rw [later, List.append_nil]
      · rw [nothing first same, List.nil_append]
        apply ih restDistinct
        rcases List.mem_cons.mp member with here | later
        · exact absurd here.symm same
        · exact later

/-- Among the headers of a kind that the table has none of, the one inserted is
the only one afterwards. -/
theorem filter_nodes_upsert {kind : HdrNode Pointer → Bool}
    (noneYet : ∀ index, ∀ node ∈ table.bucket index, kind node = false)
    {update : HdrNode Pointer → HdrNode Pointer}
    {node : HdrNode Pointer}
    (absent :
      ∀ other ∈ table.bucket (bucketIndex node.hId), other.hId ≠ node.hId)
    (isKind : kind node = true) :
    (table.upsert node.hId update node).nodes.filter kind = [node] := by
  have nothing : ∀ index, (table.bucket index).filter kind = [] := by
    intro index
    apply List.filter_eq_nil_iff.mpr
    intro other member
    rw [noneYet index other member]
    exact Bool.false_ne_true
  rw [HdrTable.nodes, List.filter_flatMap,
    flatMap_only (List.nodup_finRange 8)
      (List.mem_finRange (bucketIndex node.hId))]
  · simp only [HdrTable.upsert, Function.update_self,
      updateNode_eq_none update absent, Option.getD_none]
    rw [List.filter_cons_of_pos isKind, nothing]
  · intro index different
    simp only [HdrTable.upsert, Function.update_of_ne different]
    exact nothing index

end Yimmo.Http.Headers
