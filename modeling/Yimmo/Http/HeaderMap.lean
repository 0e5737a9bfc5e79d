import Yimmo.Http.Headers
import Yimmo.Lib.GuardedRun

/-!
# The header table as a map

The header table is a map whose keys are the hashes of the names.  `HdrMap` is that
map, with the values as an application reads them, and `headers_keyed_by_hash` says
that the table behaves as it does: names that are equal but for the case of their
letters have one hash, and names that have different hashes do not meet.

Names that are not case variants of each other may have one hash too, and then they
are one header (`names_collide`).
-/

namespace Yimmo.Http.HeaderMap

open Yimmo.Core.Characters
open Yimmo.Http.Headers
open Yimmo.Lib.GuardedRun

variable
    {Pointer : Type}
    {read : Pointer → Bytes}
    {table : HdrTable Pointer}

/-! ## Names -/

/-- The names are equal but for the case of their letters. -/
def CaseVariant (left right : Bytes) : Prop :=
  left.map asciiLower = right.map asciiLower

instance
    (left right : Bytes) :
    Decidable (CaseVariant left right) :=
  inferInstanceAs (Decidable (_ = _))

theorem asciiLower_mask (c : UInt8) : asciiLower c &&& 0xdf = c &&& 0xdf := by
  cases c with
  | ofBitVec bits =>
      revert bits
      decide +kernel

theorem ymoHttpHdrHash_lower (name : Bytes) :
    ymoHttpHdrHash (name.map asciiLower) = ymoHttpHdrHash name := by
  have same :
      ∀ hId : HdrId,
        (name.map asciiLower).foldl ymoHdrHashCh hId =
          name.foldl ymoHdrHashCh hId := by
    induction name with
    | nil =>
        intro hId
        rfl
    | cons c rest ih =>
        intro hId
        have here : ymoHdrHashCh hId (asciiLower c) = ymoHdrHashCh hId c := by
          rw [ymoHdrHashCh, ymoHdrHashCh, asciiLower_mask]
        rw [List.map_cons, List.foldl_cons, List.foldl_cons, here, ih]
  rw [ymoHttpHdrHash, ymoHttpHdrHash, same]

/-- The case of letters does not enter the hash. -/
theorem hash_of_caseVariant {left right : Bytes}
    (variants : CaseVariant left right) :
    ymoHttpHdrHash left = ymoHttpHdrHash right := by
  rw [← ymoHttpHdrHash_lower left, ← ymoHttpHdrHash_lower right, variants]

/-! ## Operations -/

/-- An operation on the table; an `add` comes with the bytes that happen to follow
a buffer that is not terminated. -/
inductive HdrOp (Pointer : Type) where
  | insert (hdr value : Pointer)
  | add (stray : Bytes) (hdr value : Pointer)
  /-- `ymo_http_hdr_table_add_precompute`, as the parser calls it. -/
  | addPrecompute (stray : Bytes) (hdr value : Pointer)
  | clear

/-- One operation. -/
def hdrStep (read : Pointer → Bytes) (table : HdrTable Pointer) :
    HdrOp Pointer → HdrTable Pointer
  | .insert hdr value => ymoHttpHdrTableInsert read table hdr value
  | .add stray hdr value =>
      ymoHttpHdrTableAdd read stray table hdr value
  | .addPrecompute stray hdr value =>
      ymoHttpHdrTableAddPrecompute read stray table
        (ymoHttpHdrHash (read hdr)) hdr (read hdr).length value
  | .clear => ymoHttpHdrTableClear

/-- The hash of the name an operation is on. -/
def HdrOp.hId (read : Pointer → Bytes) :
    HdrOp Pointer → Option HdrId
  | .insert hdr _ => some (ymoHttpHdrHash (read hdr))
  | .add _ hdr _ => some (ymoHttpHdrHash (read hdr))
  | .addPrecompute _ hdr _ => some (ymoHttpHdrHash (read hdr))
  | .clear => none

/-- The operation does not meet a header whose values have been joined. -/
def Unjoined (read : Pointer → Bytes) (table : HdrTable Pointer)
    (op : HdrOp Pointer) :
    Prop :=
  ∀ hId ∈ op.hId read,
    ∀ node ∈ ymoHttpHdrTableGetId table hId, node.buffer = none

instance
    (table : HdrTable Pointer)
    (op : HdrOp Pointer) :
    Decidable (Unjoined read table op) :=
  @Option.decidableForallMem _ _ (fun _ => Option.decidableForallMem _)
    (op.hId read)

/-! ## The map -/

/-- What the names with a hash are mapped to. -/
abbrev HdrMap : Type :=
  HdrId → Option Bytes

/-- A value behind the one that is there. -/
def joined (value : Bytes) : Option Bytes → Bytes
  | none => value
  | some before => before ++ [44] ++ value

/-- One operation on the map; `add` keeps the last cookie only. -/
def mapStep (read : Pointer → Bytes) (map : HdrMap) :
    HdrOp Pointer → HdrMap
  | .insert hdr value =>
      Function.update map (ymoHttpHdrHash (read hdr)) (some (read value))
  | .add _ hdr value =>
      let hId := ymoHttpHdrHash (read hdr)
      Function.update map hId
        (some
          (if hId = ymoHttpHidSetCookie then read value
            else joined (read value) (map hId)))
  | .addPrecompute _ hdr value =>
      let hId := ymoHttpHdrHash (read hdr)
      Function.update map hId (some (joined (read value) (map hId)))
  | .clear => fun _ => none

/-- The operations since the table was cleared. -/
def sinceClear (before : List (HdrOp Pointer)) :
    HdrOp Pointer → List (HdrOp Pointer)
  | .clear => []
  | op => before ++ [op]

/-! ## What an operation leaves -/

/-- The first node of the list with the hash. -/
def firstNode (hId : HdrId) (nodes : List (HdrNode Pointer)) :
    Option (HdrNode Pointer) :=
  nodes.find? fun node => node.hId = hId

theorem firstNode_cons (hId : HdrId) (node : HdrNode Pointer)
    (rest : List (HdrNode Pointer)) :
    firstNode hId (node :: rest) =
      if node.hId = hId then some node else firstNode hId rest := by
  rw [firstNode, List.find?_cons]
  by_cases same : node.hId = hId
  · rw [if_pos same, decide_eq_true same]
  · rw [if_neg same, decide_eq_false same]
    rfl

/-- An update is seen under its own hash. -/
theorem firstNode_updateNode (hId : HdrId)
    {update : HdrNode Pointer → HdrNode Pointer}
    (keeps : ∀ node, (update node).hId = node.hId)
    (nodes : List (HdrNode Pointer))
    (other : HdrId) :
    match updateNode hId update nodes with
    | none => firstNode hId nodes = none
    | some updated =>
        (firstNode hId nodes).isSome ∧
          firstNode other updated =
            if other = hId then (firstNode hId nodes).map update
            else firstNode other nodes := by
  induction nodes with
  | nil => rfl
  | cons node rest ih =>
      rw [updateNode]
      by_cases here : node.hId = hId
      · rw [if_pos here]
        dsimp only
        rw [firstNode_cons, firstNode_cons, firstNode_cons, keeps, if_pos here]
        refine ⟨rfl, ?_⟩
        by_cases same : other = hId
        · rw [if_pos (here.trans same.symm), if_pos same]
          rfl
        · have apart : ¬node.hId = other :=
            fun equal => same (equal.symm.trans here)
          rw [if_neg apart, if_neg same, if_neg apart]
      · rw [if_neg here]
        cases found : updateNode hId update rest with
        | none =>
            rw [found] at ih
            rw [Option.map_none]
            dsimp only
            rw [firstNode_cons, if_neg here]
            exact ih
        | some updated =>
            rw [found] at ih
            rw [Option.map_some]
            dsimp only at ih ⊢
            rw [firstNode_cons, if_neg here, firstNode_cons, firstNode_cons]
            refine ⟨ih.1, ?_⟩
            by_cases own : node.hId = other
            · have apart : ¬other = hId := fun equal => here (own.trans equal)
              rw [if_pos own, if_neg apart, if_pos own]
            · rw [if_neg own, if_neg own]
              exact ih.2

theorem getId_firstNode (table : HdrTable Pointer) (hId : HdrId) :
    ymoHttpHdrTableGetId table hId =
      firstNode hId (table.bucket (bucketIndex hId)) :=
  rfl

/-- A node in front of its bucket is found first. -/
theorem getId_tableInsertFirst (table : HdrTable Pointer)
    (node : HdrNode Pointer)
    (other : HdrId) :
    ymoHttpHdrTableGetId (tableInsertFirst table node) other =
      if other = node.hId then some node
      else ymoHttpHdrTableGetId table other := by
  rw [getId_firstNode, getId_firstNode, tableInsertFirst]
  by_cases same : other = node.hId
  · subst same
    dsimp only
    rw [Function.update_self, firstNode_cons, if_pos rfl]
  · have apart : ¬node.hId = other := fun equal => same equal.symm
    rw [if_neg same]
    dsimp only
    by_cases bucket : bucketIndex other = bucketIndex node.hId
    · rw [bucket, Function.update_self, firstNode_cons, if_neg apart]
    · rw [Function.update_of_ne bucket]

/-- What is found after an update or an insertion. -/
theorem getId_upsert (table : HdrTable Pointer)
    {update : HdrNode Pointer → HdrNode Pointer}
    (keeps : ∀ node, (update node).hId = node.hId)
    (node : HdrNode Pointer)
    (other : HdrId) :
    ymoHttpHdrTableGetId (table.upsert node.hId update node) other =
      if other = node.hId then
        some (((ymoHttpHdrTableGetId table node.hId).map update).getD node)
      else ymoHttpHdrTableGetId table other := by
  have updated :=
    firstNode_updateNode node.hId keeps
      (table.bucket (bucketIndex node.hId)) other
  rw [getId_firstNode, getId_firstNode, getId_firstNode, HdrTable.upsert]
  dsimp only
  cases found :
      updateNode node.hId update (table.bucket (bucketIndex node.hId)) with
  | none =>
      have inserted := getId_tableInsertFirst table node other
      rw [found] at updated
      dsimp only at updated
      rw [getId_firstNode, getId_firstNode, tableInsertFirst] at inserted
      rw [Option.getD_none, updated, inserted]
      rfl
  | some nodes =>
      rw [found] at updated
      dsimp only at updated
      rw [Option.getD_some]
      by_cases same : other = node.hId
      · subst same
        rw [if_pos rfl, Function.update_self, updated.2, if_pos rfl]
        rcases Option.isSome_iff_exists.mp updated.1 with ⟨before, first⟩
        rw [first]
        rfl
      · rw [if_neg same]
        by_cases bucket : bucketIndex other = bucketIndex node.hId
        · rw [if_neg same] at updated
          rw [bucket, Function.update_self]
          exact updated.2
        · rw [Function.update_of_ne bucket]

/-- What is read under a hash. -/
def readId (read : Pointer → Bytes) (table : HdrTable Pointer) (hId : HdrId) :
    Option Bytes :=
  (ymoHttpHdrTableGetId table hId).map fun node => node.string read

theorem readId_tableInsertFirst (table : HdrTable Pointer)
    (node : HdrNode Pointer) :
    readId read (tableInsertFirst table node) =
      Function.update (readId read table) node.hId
        (some (node.string read)) := by
  funext other
  rw [readId, getId_tableInsertFirst]
  by_cases same : other = node.hId
  · rw [if_pos same, same, Function.update_self]
    rfl
  · rw [if_neg same, Function.update_of_ne same]
    rfl

theorem readId_insertPrecompute {table : HdrTable Pointer} {hId : HdrId}
    (plain : ∀ node ∈ ymoHttpHdrTableGetId table hId, node.buffer = none)
    (hdr : Pointer)
    (hdrLen : Nat)
    (value : Pointer) :
    readId read
        (ymoHttpHdrTableInsertPrecompute table hId hdr hdrLen value) =
      Function.update (readId read table) hId (some (read value)) := by
  have keeps :
      ∀ node : HdrNode Pointer,
        ({ node with
            hdr := hdr, hdrLen := hdrLen, value := value } :
          HdrNode Pointer).hId =
          node.hId :=
    fun _ => rfl
  funext other
  have found :=
    getId_upsert table keeps
      { hId := hId, hdr := hdr, hdrLen := hdrLen, value := value,
        buffer := none }
      other
  rw [readId, ymoHttpHdrTableInsertPrecompute, found]
  dsimp only
  by_cases same : other = hId
  · rw [if_pos same, same, Function.update_self]
    cases first : ymoHttpHdrTableGetId table hId with
    | none => rfl
    | some node =>
        have unjoined := plain node first
        show
          some
              (HdrNode.string
                { node with hdr := hdr, hdrLen := hdrLen, value := value }
                read) =
            some (read value)
        rw [HdrNode.string]
        dsimp only
        rw [unjoined]
  · rw [if_neg same, Function.update_of_ne same]
    rfl

theorem readId_addPrecompute (stray : Bytes) {hId : HdrId}
    (plain : ∀ node ∈ ymoHttpHdrTableGetId table hId, node.buffer = none)
    (hdr : Pointer)
    (hdrLen : Nat)
    (value : Pointer) :
    readId read
        (ymoHttpHdrTableAddPrecompute read stray table hId hdr
          hdrLen value) =
      Function.update (readId read table) hId
        (some (joined (read value) (readId read table hId))) := by
  funext other
  have found :=
    getId_upsert table (hId_joinValue read stray value)
      { hId := hId, hdr := hdr, hdrLen := hdrLen, value := value,
        buffer := none }
      other
  rw [readId, ymoHttpHdrTableAddPrecompute, found]
  dsimp only
  by_cases same : other = hId
  · rw [if_pos same, same, Function.update_self, readId]
    cases first : ymoHttpHdrTableGetId table hId with
    | none => rfl
    | some node =>
        have unjoined := plain node first
        show
          some
              (HdrNode.string (joinValue read stray value node) read) =
            some (node.string read ++ [44] ++ read value)
        rw [joinValue, HdrNode.string, HdrNode.string, unjoined]
  · rw [if_neg same, Function.update_of_ne same]
    rfl

theorem readId_add
    (stray : Bytes)
    {hdr : Pointer}
    (plain :
      ∀ node ∈
          ymoHttpHdrTableGetId table (ymoHttpHdrHash (read hdr)),
        node.buffer = none)
    (value : Pointer) :
    readId read
        (ymoHttpHdrTableAdd read stray table hdr value) =
      mapStep read (readId read table) (.add stray hdr value) := by
  rw [ymoHttpHdrTableAdd, mapStep]
  cases first : ymoHttpHdrTableGetId table (ymoHttpHdrHash (read hdr)) with
  | none =>
      dsimp only
      rw [readId_tableInsertFirst, readId, first]
      split_ifs <;> rfl
  | some node =>
      have found : node.hId = ymoHttpHdrHash (read hdr) := by
        have holds := List.find?_some first
        exact of_decide_eq_true holds
      dsimp only
      rw [found]
      by_cases cookie : ymoHttpHdrHash (read hdr) = ymoHttpHidSetCookie
      · rw [if_pos cookie, if_pos cookie, readId_tableInsertFirst, cookie]
        rfl
      · rw [if_neg cookie, if_neg cookie]
        exact readId_addPrecompute stray plain hdr _ value

theorem readId_clear :
    readId read (ymoHttpHdrTableClear : HdrTable Pointer) = fun _ => none :=
  rfl

/-- The table follows the map, over one operation. -/
theorem readId_hdrStep {op : HdrOp Pointer}
    (unjoined : Unjoined read table op) :
    readId read (hdrStep read table op) =
      mapStep read (readId read table) op := by
  cases op with
  | insert hdr value =>
      exact
        readId_insertPrecompute (unjoined _ rfl) hdr (read hdr).length value
  | add stray hdr value =>
      exact readId_add stray (unjoined _ rfl) value
  | addPrecompute stray hdr value =>
      exact
        readId_addPrecompute stray (unjoined _ rfl) hdr
          (read hdr).length value
  | clear => exact readId_clear

/-! ## Runs -/

/-- The table follows the map. -/
theorem readId_run {ops : List (HdrOp Pointer)}
    (unjoined : AllAlong (hdrStep read) (Unjoined read) table ops) :
    readId read (run (hdrStep read) table ops) =
      run (mapStep read) (readId read table) ops := by
  induction ops generalizing table with
  | nil => rfl
  | cons op rest ih =>
      rw [run_cons, run_cons, ih unjoined.2, readId_hdrStep unjoined.1]

/-- The map has a value where there was an operation since it was cleared. -/
def Occupies (read : Pointer → Bytes) (map : HdrMap)
    (since : List (HdrOp Pointer)) :
    Prop :=
  ∀ hId, (map hId).isSome ↔ ∃ op ∈ since, op.hId read = some hId

variable {map : HdrMap}

theorem occupies_update {since : List (HdrOp Pointer)}
    (occupies : Occupies read map since)
    {op : HdrOp Pointer}
    {hId : HdrId}
    (here : op.hId read = some hId)
    (value : Bytes) :
    Occupies read (Function.update map hId (some value)) (since ++ [op]) := by
  intro other
  constructor
  · intro present
    by_cases same : other = hId
    · exact
        ⟨op, List.mem_append_right _ (List.mem_singleton.mpr rfl),
          here.trans (congrArg some same.symm)⟩
    · rw [Function.update_of_ne same] at present
      rcases (occupies other).mp present with ⟨before, member, equal⟩
      exact ⟨before, List.mem_append_left _ member, equal⟩
  · rintro ⟨before, member, equal⟩
    by_cases same : other = hId
    · rw [same, Function.update_self]
      rfl
    · rw [Function.update_of_ne same]
      refine (occupies other).mpr ⟨before, ?_, equal⟩
      rcases List.mem_append.mp member with earlier | last
      · exact earlier
      · rw [List.mem_singleton.mp last, here] at equal
        exact absurd (Option.some.inj equal).symm same

theorem occupies_step {since : List (HdrOp Pointer)}
    (occupies : Occupies read map since)
    (op : HdrOp Pointer) :
    Occupies read (mapStep read map op) (sinceClear since op) := by
  cases op with
  | insert hdr value => exact occupies_update occupies rfl _
  | add stray hdr value => exact occupies_update occupies rfl _
  | addPrecompute stray hdr value =>
      exact occupies_update occupies rfl _
  | clear =>
      intro hId
      constructor
      · intro present
        cases present
      · rintro ⟨_, member, _⟩
        cases member

theorem occupies_run {since : List (HdrOp Pointer)}
    (occupies : Occupies read map since)
    (ops : List (HdrOp Pointer)) :
    Occupies read (run (mapStep read) map ops) (run sinceClear since ops) := by
  induction ops generalizing map since with
  | nil => exact occupies
  | cons op rest ih => exact ih (occupies_step occupies op)

/-- An operation on one hash leaves the others. -/
theorem mapStep_other (map : HdrMap) {op : HdrOp Pointer} {hId other : HdrId}
    (here : op.hId read = some hId)
    (apart : other ≠ hId) :
    mapStep read map op other = map other := by
  cases op with
  | insert hdr value =>
      cases here
      exact Function.update_of_ne apart _ _
  | add stray hdr value =>
      cases here
      exact Function.update_of_ne apart _ _
  | addPrecompute stray hdr value =>
      cases here
      exact Function.update_of_ne apart _ _
  | clear => cases here

/--
The table behaves as a map whose keys are the hashes of the names: what is read is
what the map has, it is there if a name with the hash was inserted or added since the
table was cleared, names with other hashes do not change it, and the case of letters
does not matter; where no values are joined to values that have been joined, or
replace them.
-/
theorem headers_keyed_by_hash
    (read : Pointer → Bytes)
    {ops : List (HdrOp Pointer)}
    (unjoined :
      AllAlong (hdrStep read) (Unjoined read) ymoHttpHdrTableClear ops) :
    let table := run (hdrStep read) ymoHttpHdrTableClear ops
    (∀ name,
        ymoHttpHdrTableGet read table name =
          run (mapStep read) (fun _ => none) ops
            (ymoHttpHdrHash (read name))) ∧
      (∀ name,
          (ymoHttpHdrTableGet read table name).isSome ↔
            ∃ op ∈ run sinceClear [] ops,
              op.hId read = some (ymoHttpHdrHash (read name))) ∧
        (∀ name op hId,
            Unjoined read table op →
              op.hId read = some hId →
                ymoHttpHdrHash (read name) ≠ hId →
                  ymoHttpHdrTableGet read (hdrStep read table op) name =
                    ymoHttpHdrTableGet read table name) ∧
          ∀ name variant,
            CaseVariant (read name) (read variant) →
              ymoHttpHdrTableGet read table variant =
                ymoHttpHdrTableGet read table name := by
  intro table
  have follows := readId_run unjoined
  have reads :
      ∀ (table : HdrTable Pointer) name,
        ymoHttpHdrTableGet read table name =
          readId read table (ymoHttpHdrHash (read name)) :=
    fun _ _ => rfl
  refine ⟨?_, ?_, ?_, ?_⟩
  · intro name
    rw [reads, follows]
    rfl
  · intro name
    rw [reads, follows]
    have nothing :
        Occupies read (readId read ymoHttpHdrTableClear)
          ([] : List (HdrOp Pointer)) := by
      intro hId
      constructor
      · intro present
        cases present
      · rintro ⟨_, member, _⟩
        cases member
    exact occupies_run nothing ops (ymoHttpHdrHash (read name))
  · intro name op hId plain here apart
    rw [reads, reads, readId_hdrStep plain]
    exact mapStep_other (readId read table) here apart
  · intro name variant variants
    rw [reads, reads, hash_of_caseVariant variants]

/-- Headers are inserted, one of them twice, and joined, and cleared away. -/
def someOps : List (HdrOp Bytes) :=
  [.addPrecompute [] (bytes "Host") (bytes "a"),
    .clear,
    .insert (bytes "Accept") (bytes "b"),
    .insert (bytes "accept") (bytes "c"),
    .add [] (bytes "ACCEPT") (bytes "d")]

theorem headers_keyed_by_hash_someOps :
    let table := run (hdrStep id) ymoHttpHdrTableClear someOps
    (∀ name,
        ymoHttpHdrTableGet id table name =
          run (mapStep id) (fun _ => none) someOps (ymoHttpHdrHash name)) ∧
      (∀ name,
          (ymoHttpHdrTableGet id table name).isSome ↔
            ∃ op ∈ run sinceClear [] someOps,
              op.hId id = some (ymoHttpHdrHash name)) ∧
        (∀ name op hId,
            Unjoined id table op →
              op.hId id = some hId →
                ymoHttpHdrHash name ≠ hId →
                  ymoHttpHdrTableGet id (hdrStep id table op) name =
                    ymoHttpHdrTableGet id table name) ∧
          ∀ name variant,
            CaseVariant name variant →
              ymoHttpHdrTableGet id table variant =
                ymoHttpHdrTableGet id table name :=
  headers_keyed_by_hash id (by decide +kernel)

/-- A header whose name has the hash of `Content-Length` changes what is read of
`Content-Length`. -/
theorem names_collide :
    let before :=
      hdrStep id ymoHttpHdrTableClear
        (.insert (bytes "Content-Length") (bytes "5"))
    let after := hdrStep id before (.add [] (bytes "wyaa") (bytes "7"))
    ¬CaseVariant (bytes "Content-Length") (bytes "wyaa") ∧
      ymoHttpHdrTableGet id before (bytes "content-length") =
          some (bytes "5") ∧
        ymoHttpHdrTableGet id after (bytes "content-length") =
          some (bytes "5,7") := by
  decide +kernel

end Yimmo.Http.HeaderMap
