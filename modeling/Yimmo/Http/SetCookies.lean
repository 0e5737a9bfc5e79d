import Mathlib.Data.List.Perm.Basic
import Yimmo.Http.HeaderMap
import Yimmo.Http.HeaderNodes
import Yimmo.Http.Response

/-!
# Cookies of a response

`Set-Cookie` is the header that is not joined: each value that is added has a node
of its own.  Only `ymo_http_hdr_table_add` knows this.  The other operations on the
table of a response, `ymo_http_response_add_header` among them, insert, and what is
inserted replaces the node that was made last.

The nodes with the hash of `Set-Cookie` are a stack: an addition pushes a node, and
an insertion changes the top.  `cookiesKept_iff` says when no cookie is lost, of the
chains that `HeaderNodes` models, for as long as no insertion frees the joined values
of another header and leaves their address behind.
-/

namespace Yimmo.Http.SetCookies

open Yimmo.Http.Headers
open Yimmo.Http.HeaderMap
open Yimmo.Http.HeaderNodes
open Yimmo.Http.Exchange
open Yimmo.Http.Parse
open Yimmo.Http.Application
open Yimmo.Http.Response
open Yimmo.Lib.GuardedRun
open Yimmo.Lib.LinkedList

variable {table : HdrTable HdrPointer}

/-! ## Calls -/

/-- An operation on the table of a response. -/
inductive HeaderCall where
  /-- `ymo_http_hdr_table_insert`. -/
  | tableInsert (header value : HdrPointer)
  /-- `ymo_http_hdr_table_add`. -/
  | tableAdd
      (stray : Bytes)
      (header value : HdrPointer)
  /-- `ymo_http_response_add_header`. -/
  | addHeader (header value : HdrPointer)
  /-- `ymo_http_response_insert_header`. -/
  | insertHeader (header value : HdrPointer)

/-- The name that is passed. -/
def HeaderCall.header : HeaderCall → HdrPointer
  | tableInsert header _ => header
  | tableAdd _ header _ => header
  | addHeader header _ => header
  | insertHeader header _ => header

/-- The value that is passed. -/
def HeaderCall.value : HeaderCall → HdrPointer
  | tableInsert _ value => value
  | tableAdd _ _ value => value
  | addHeader _ value => value
  | insertHeader _ value => value

/-- The call inserts. -/
def HeaderCall.inserts : HeaderCall → Bool
  | tableAdd _ _ _ => false
  | _ => true

/-- The operation that a call comes to; both functions on a response insert. -/
def HeaderCall.op : HeaderCall → NodeOp HdrPointer
  | tableInsert header value => .insert header value
  | tableAdd stray header value => .add stray header value
  | addHeader header value => .insert header value
  | insertHeader header value => .insert header value

/-- What `ymo_http_session_init_response` does to the table of a response. -/
def initialOps (flags : HttpFlags) : List (NodeOp HdrPointer) :=
  let insert (value : String) : List (NodeOp HdrPointer) :=
    [.insertPrecompute ymoHttpHidConnection
      (.literal (bytes "Connection")) 10 (.literal (bytes value))]
  if flags.requestKeepalive then
    if flags.version11 then [] else insert "Keep-alive"
  else if flags.version11 then insert "close"
  else []

/-- The table of the response; its own nodes are enough. -/
def initialTable (read : HdrPointer → Bytes) (null : HdrPointer)
    (flags : HttpFlags) :
    Option (NodeTable HdrPointer) :=
  run (nodeRun read) (some (NodeTable.ymoHttpHdrTableInit null))
    ((initialOps flags).map fun op => (none, op))

/-! ## What is passed and what is there -/

/-- The name is `Set-Cookie`, in any case. -/
def isSetCookie (name : Bytes) : Bool :=
  decide (CaseVariant name (bytes "Set-Cookie"))

set_option maxRecDepth 4000 in
theorem hash_of_isSetCookie {name : Bytes} (cookie : isSetCookie name = true) :
    ymoHttpHdrHash name = ymoHttpHidSetCookie := by
  rw [hash_of_caseVariant (of_decide_eq_true cookie)]
  decide

variable (read : HdrPointer → Bytes)

/-- The cookies that are passed. -/
def passedCookies (calls : List HeaderCall) : List Bytes :=
  (calls.filter fun call => isSetCookie (read call.header)).map
    fun call => read call.value

/-- The cookies among the nodes that an iteration visits. -/
def cookiesOf (nodes : List (HdrNode HdrPointer)) : List Bytes :=
  (nodes.filter fun node => isSetCookie (read node.hdr)).map
    fun node => node.string read

/-- `ymo_http_hdr_table_next` visits the nodes of a table from `NULL` to `NULL`, and
the cookies among them are those that were passed. -/
def Kept (state : Option (NodeTable HdrPointer)) (passed : List Bytes) :
    Prop :=
  ∃ table visited,
    state = some table ∧
      Linked (fun node => table.ymoHttpHdrTableNext (some node))
          (table.ymoHttpHdrTableNext none) visited ∧
        (cookiesOf read (visited.map table.content)).Perm passed

/-- The call is on a name with the hash of `Set-Cookie`. -/
def OnCookies (call : HeaderCall) : Prop :=
  ymoHttpHdrHash (read call.header) = ymoHttpHidSetCookie

instance (call : HeaderCall) : Decidable (OnCookies read call) :=
  inferInstanceAs (Decidable (_ = _))

/-- The last name with the hash of `Set-Cookie`. -/
def lastName (last : Option HdrPointer) (call : HeaderCall) :
    Option HdrPointer :=
  if OnCookies read call then some call.header else last

/-- The call does not insert over a cookie. -/
def Spares (last : Option HdrPointer) (call : HeaderCall) : Prop :=
  call.inserts = true →
    OnCookies read call →
      ∀ name ∈ last, isSetCookie (read name) = false

instance
    (last : Option HdrPointer)
    (call : HeaderCall) :
    Decidable (Spares read last call) :=
  inferInstanceAs (Decidable (_ → _ → ∀ name ∈ last, _))

/-! ## The nodes with a hash -/

variable {read}

/-- The nodes of a bucket that have the hash. -/
def ofId (hId : HdrId) (nodes : List (HdrNode HdrPointer)) :
    List (HdrNode HdrPointer) :=
  nodes.filter fun node => node.hId = hId

/-- An update changes the first of the nodes with the hash, and no other. -/
theorem ofId_updateNode (hId : HdrId)
    {update : HdrNode HdrPointer → HdrNode HdrPointer}
    (keeps : ∀ node, (update node).hId = node.hId)
    (nodes : List (HdrNode HdrPointer)) :
    match updateNode hId update nodes with
    | none => ofId hId nodes = []
    | some updated =>
        (∃ first rest,
          ofId hId nodes = first :: rest ∧
            ofId hId updated = update first :: rest) ∧
        ∀ other, other ≠ hId → ofId other updated = ofId other nodes := by
  induction nodes with
  | nil => rfl
  | cons node rest ih =>
      rw [updateNode]
      by_cases here : node.hId = hId
      · rw [if_pos here]
        refine ⟨⟨node, ofId hId rest, ?_, ?_⟩, ?_⟩
        · exact List.filter_cons_of_pos (decide_eq_true here)
        · exact
            List.filter_cons_of_pos (decide_eq_true ((keeps node).trans here))
        · intro other apart
          have before : ¬node.hId = other :=
            fun same => apart (same.symm.trans here)
          have after : ¬(update node).hId = other :=
            fun same => before ((keeps node).symm.trans same)
          rw [ofId, ofId, List.filter_cons_of_neg, List.filter_cons_of_neg]
          · exact fun same => before (of_decide_eq_true same)
          · exact fun same => after (of_decide_eq_true same)
      · rw [if_neg here]
        have skipped : ofId hId (node :: rest) = ofId hId rest :=
          List.filter_cons_of_neg fun same => here (of_decide_eq_true same)
        cases found : updateNode hId update rest with
        | none =>
            rw [found] at ih
            exact skipped.trans ih
        | some updated =>
            rw [found] at ih
            rcases ih with
              ⟨⟨first, others, before, after⟩, elsewhere⟩
            refine ⟨⟨first, others, skipped.trans before, ?_⟩, ?_⟩
            · have kept : ofId hId (node :: updated) = ofId hId updated :=
                List.filter_cons_of_neg
                  fun same => here (of_decide_eq_true same)
              exact kept.trans after
            · intro other apart
              have same := elsewhere other apart
              rw [ofId] at same ⊢
              rw [List.filter_cons, same, ofId, ofId, List.filter_cons]

/-- The nodes of the table with the hash. -/
def withId (table : HdrTable HdrPointer) (hId : HdrId) :
    List (HdrNode HdrPointer) :=
  ofId hId (table.bucket (bucketIndex hId))

theorem ofId_tableInsertFirst (table : HdrTable HdrPointer)
    (node : HdrNode HdrPointer)
    (hId : HdrId) :
    withId (tableInsertFirst table node) hId =
      if hId = node.hId then node :: withId table hId
      else withId table hId := by
  rw [withId, withId, tableInsertFirst]
  dsimp only
  by_cases same : hId = node.hId
  · rw [if_pos same, same, Function.update_self]
    exact List.filter_cons_of_pos (decide_eq_true rfl)
  · rw [if_neg same]
    by_cases bucket : bucketIndex hId = bucketIndex node.hId
    · rw [bucket, Function.update_self]
      exact
        List.filter_cons_of_neg
          fun equal => same (of_decide_eq_true equal).symm
    · rw [Function.update_of_ne bucket]

theorem ofId_upsert (table : HdrTable HdrPointer)
    {update : HdrNode HdrPointer → HdrNode HdrPointer}
    (keeps : ∀ node, (update node).hId = node.hId)
    (node : HdrNode HdrPointer)
    (hId : HdrId) :
    withId (table.upsert node.hId update node) hId =
      if hId = node.hId then
        ((withId table hId).head?.map update).getD node ::
          (withId table hId).tail
      else withId table hId := by
  have updated :=
    ofId_updateNode node.hId keeps (table.bucket (bucketIndex node.hId))
  cases found :
      updateNode node.hId update (table.bucket (bucketIndex node.hId)) with
  | none =>
      have inserted := ofId_tableInsertFirst table node hId
      rw [found] at updated
      dsimp only at updated
      rw [withId, withId, tableInsertFirst] at inserted
      rw [withId, withId, HdrTable.upsert]
      dsimp only at inserted ⊢
      rw [found, Option.getD_none, inserted]
      by_cases same : hId = node.hId
      · rw [if_pos same, if_pos same, same, updated]
        rfl
      · rw [if_neg same, if_neg same]
  | some nodes =>
      rw [found] at updated
      rcases updated with ⟨⟨first, rest, before, after⟩, elsewhere⟩
      rw [withId, withId, HdrTable.upsert]
      dsimp only
      rw [found, Option.getD_some]
      by_cases same : hId = node.hId
      · rw [if_pos same, same, Function.update_self, after, before]
        rfl
      · rw [if_neg same]
        by_cases bucket : bucketIndex hId = bucketIndex node.hId
        · rw [bucket, Function.update_self]
          exact elsewhere hId same
        · rw [Function.update_of_ne bucket]

/-! ## The stack -/

/-- Nodes stand where their names belong, and no cookie is joined. -/
structure Filed
    (read : HdrPointer → Bytes)
    (table : HdrTable HdrPointer) :
    Prop where
  placed : table.Placed
  hashed :
    ∀ hId, ∀ node ∈ withId table hId, ymoHttpHdrHash (read node.hdr) = hId
  plain : ∀ node ∈ withId table ymoHttpHidSetCookie, node.buffer = none

/-- The names and values with the hash of `Set-Cookie`, the newest first. -/
def entries (table : HdrTable HdrPointer) : List (HdrPointer × HdrPointer) :=
  (withId table ymoHttpHidSetCookie).map fun node => (node.hdr, node.value)

/-- A node in front of its bucket. -/
theorem Filed.tableInsertFirst (filed : Filed read table)
    {node : HdrNode HdrPointer}
    (hashed : ymoHttpHdrHash (read node.hdr) = node.hId)
    (plain : node.buffer = none) :
    Filed read (Headers.tableInsertFirst table node) where
  placed := filed.placed.tableInsertFirst node
  hashed := by
    intro hId other member
    rw [ofId_tableInsertFirst] at member
    split at member
    · rename_i same
      rcases List.mem_cons.mp member with here | later
      · rw [here, same]
        exact hashed
      · exact filed.hashed hId other later
    · exact filed.hashed hId other member
  plain := by
    intro other member
    rw [ofId_tableInsertFirst] at member
    split at member
    · rcases List.mem_cons.mp member with here | later
      · rw [here]
        exact plain
      · exact filed.plain other later
    · exact filed.plain other member

/-- An update that keeps names where they belong, and cookies apart. -/
theorem Filed.upsert {table : HdrTable HdrPointer}
    (filed : Filed read table)
    {update : HdrNode HdrPointer → HdrNode HdrPointer}
    {node : HdrNode HdrPointer}
    (keeps : ∀ other, (update other).hId = other.hId)
    (hashed : ymoHttpHdrHash (read node.hdr) = node.hId)
    (rehashed :
      ∀ other,
        ymoHttpHdrHash (read other.hdr) = node.hId →
          ymoHttpHdrHash (read (update other).hdr) = node.hId)
    (plain : node.hId = ymoHttpHidSetCookie → node.buffer = none)
    (unjoined :
      node.hId = ymoHttpHidSetCookie →
        ∀ other, other.buffer = none → (update other).buffer = none) :
    Filed read (table.upsert node.hId update node) where
  placed := filed.placed.upsert keeps node
  hashed := by
    intro hId other member
    rw [ofId_upsert table keeps] at member
    split at member
    · rename_i same
      rcases List.mem_cons.mp member with here | later
      · rw [here, same]
        cases first : (withId table node.hId).head? with
        | none => exact hashed
        | some before =>
            exact
              rehashed before
                (filed.hashed node.hId before (List.mem_of_head? first))
      · exact filed.hashed hId other (List.mem_of_mem_tail later)
    · exact filed.hashed hId other member
  plain := by
    intro other member
    rw [ofId_upsert table keeps] at member
    split at member
    · rename_i same
      rcases List.mem_cons.mp member with here | later
      · rw [here]
        cases first : (withId table ymoHttpHidSetCookie).head? with
        | none => exact plain same.symm
        | some before =>
            exact
              unjoined same.symm before
                (filed.plain before (List.mem_of_head? first))
      · exact filed.plain other (List.mem_of_mem_tail later)
    · exact filed.plain other member

/-- One call on the stack. -/
def entriesStep (read : HdrPointer → Bytes)
    (stack : List (HdrPointer × HdrPointer))
    (call : HeaderCall) :
    List (HdrPointer × HdrPointer) :=
  if OnCookies read call then
    (call.header, call.value) :: if call.inserts then stack.tail else stack
  else stack

theorem insert_entries (filed : Filed read table) (header value : HdrPointer) :
    Filed read (ymoHttpHdrTableInsert read table header value) ∧
      entries (ymoHttpHdrTableInsert read table header value) =
        if ymoHttpHdrHash (read header) = ymoHttpHidSetCookie then
          (header, value) :: (entries table).tail
        else entries table := by
  have keeps :
      ∀ node : HdrNode HdrPointer,
        ({ node with
            hdr := header
            hdrLen := (read header).length
            value := value } :
          HdrNode HdrPointer).hId =
          node.hId :=
    fun _ => rfl
  rw [ymoHttpHdrTableInsert, ymoHttpHdrTableInsertPrecompute]
  constructor
  · exact
      @Filed.upsert read table filed _
        { hId := ymoHttpHdrHash (read header)
          hdr := header
          hdrLen := (read header).length
          value := value
          buffer := none }
        keeps rfl (fun _ _ => rfl) (fun _ => rfl) (fun _ _ same => same)
  · have updated :=
      ofId_upsert table keeps
        { hId := ymoHttpHdrHash (read header)
          hdr := header
          hdrLen := (read header).length
          value := value
          buffer := none }
        ymoHttpHidSetCookie
    rw [entries, updated, entries]
    dsimp only
    by_cases cookie : ymoHttpHdrHash (read header) = ymoHttpHidSetCookie
    · rw [if_pos cookie.symm, if_pos cookie, List.map_cons, List.map_tail]
      cases (withId table ymoHttpHidSetCookie).head? with
      | none => rfl
      | some before => rfl
    · rw [if_neg (fun same => cookie same.symm), if_neg cookie]

theorem add_entries (filed : Filed read table) (stray : Bytes)
    (header value : HdrPointer) :
    Filed read
        (ymoHttpHdrTableAdd read stray table header value) ∧
      entries (ymoHttpHdrTableAdd read stray table header value) =
        if ymoHttpHdrHash (read header) = ymoHttpHidSetCookie then
          (header, value) :: entries table
        else entries table := by
  have pushed :
      ∀ hId,
        ymoHttpHdrHash (read header) = hId →
          let node : HdrNode HdrPointer :=
            { hId := hId
              hdr := header
              hdrLen := (read header).length
              value := value
              buffer := none }
          Filed read (tableInsertFirst table node) ∧
            entries (tableInsertFirst table node) =
              if hId = ymoHttpHidSetCookie then
                (header, value) :: entries table
              else entries table := by
    intro hId hashed node
    refine ⟨filed.tableInsertFirst hashed rfl, ?_⟩
    rw [entries, ofId_tableInsertFirst, entries]
    by_cases cookie : hId = ymoHttpHidSetCookie
    · rw [if_pos cookie.symm, if_pos cookie]
      rfl
    · rw [if_neg (fun same => cookie same.symm), if_neg cookie]
  rw [ymoHttpHdrTableAdd]
  cases found : ymoHttpHdrTableGetId table (ymoHttpHdrHash (read header)) with
  | none => exact pushed _ rfl
  | some node =>
      have same : node.hId = ymoHttpHdrHash (read header) := by
        have holds := List.find?_some found
        exact of_decide_eq_true holds
      dsimp only
      rw [same]
      by_cases cookie : ymoHttpHdrHash (read header) = ymoHttpHidSetCookie
      · rw [if_pos cookie]
        have first := pushed ymoHttpHidSetCookie cookie
        rw [if_pos rfl] at first
        rw [if_pos cookie]
        exact first
      · have keeps := hId_joinValue read stray value
        have name :
            ∀ other : HdrNode HdrPointer,
              (joinValue read stray value other).hdr = other.hdr := by
          intro other
          rw [joinValue]
          split <;> rfl
        rw [if_neg cookie, if_neg cookie, ymoHttpHdrTableAddPrecompute]
        constructor
        · exact
            @Filed.upsert read table filed _
              { hId := ymoHttpHdrHash (read header)
                hdr := header
                hdrLen := (read header).length
                value := value
                buffer := none }
              keeps rfl
              (fun other hashed => by rw [name other]; exact hashed)
              (fun same => absurd same cookie)
              (fun same => absurd same cookie)
        · have updated :=
            ofId_upsert table keeps
              { hId := ymoHttpHdrHash (read header)
                hdr := header
                hdrLen := (read header).length
                value := value
                buffer := none }
              ymoHttpHidSetCookie
          rw [entries, updated, if_neg (fun same => cookie same.symm), entries]

/-- One call follows the stack. -/
theorem step_entries (filed : Filed read table) (call : HeaderCall) :
    Filed read (listStep read table call.op) ∧
      entries (listStep read table call.op) =
        entriesStep read (entries table) call := by
  cases call with
  | tableInsert header value => exact insert_entries filed header value
  | tableAdd stray header value =>
      exact add_entries filed stray header value
  | addHeader header value => exact insert_entries filed header value
  | insertHeader header value => exact insert_entries filed header value

theorem run_entries (filed : Filed read table) (calls : List HeaderCall) :
    let later := run (listStep read) table (calls.map HeaderCall.op)
    Filed read later ∧
      entries later = run (entriesStep read) (entries table) calls := by
  induction calls generalizing table with
  | nil => exact ⟨filed, rfl⟩
  | cons call calls ih =>
      rcases step_entries filed call with ⟨later, stack⟩
      have rest := ih later
      rw [stack] at rest
      exact rest

/-! ## What the table yields -/

/-- The cookies on the stack. -/
def stackCookies (read : HdrPointer → Bytes)
    (stack : List (HdrPointer × HdrPointer)) :
    List Bytes :=
  (stack.filter fun entry => isSetCookie (read entry.1)).map
    fun entry => read entry.2

/-- A node whose name is `Set-Cookie` is one of the nodes with its hash. -/
theorem Filed.mem_withId (filed : Filed read table) {index : Fin 8}
    {node : HdrNode HdrPointer}
    (member : node ∈ table.bucket index)
    (cookie : isSetCookie (read node.hdr) = true) :
    node.hId = ymoHttpHidSetCookie ∧
      index = bucketIndex ymoHttpHidSetCookie := by
  have index' := filed.placed index node member
  subst index'
  have inside : node ∈ withId table node.hId :=
    List.mem_filter.mpr ⟨member, decide_eq_true rfl⟩
  have same : node.hId = ymoHttpHidSetCookie :=
    (filed.hashed node.hId node inside).symm.trans (hash_of_isSetCookie cookie)
  exact ⟨same, by rw [same]⟩

/-- An iteration over the table yields the cookies on the stack. -/
theorem Filed.cookiesOf_eq (filed : Filed read table) :
    cookiesOf read table.nodes = stackCookies read (entries table) := by
  have nodes :
      (table.nodes.filter fun node => isSetCookie (read node.hdr)) =
        (withId table ymoHttpHidSetCookie).filter
          fun node => isSetCookie (read node.hdr) := by
    rw [HdrTable.nodes, List.filter_flatMap, withId, ofId, List.filter_filter]
    rw [flatMap_only (List.nodup_finRange 8)
      (List.mem_finRange (bucketIndex ymoHttpHidSetCookie))]
    · apply List.filter_congr
      intro node member
      cases cookie : isSetCookie (read node.hdr) with
      | false => rfl
      | true => exact (decide_eq_true (filed.mem_withId member cookie).1).symm
    · intro other apart
      apply List.filter_eq_nil_iff.mpr
      intro node member cookie
      exact apart (filed.mem_withId member cookie).2
  have values :
      ∀ node ∈
          (withId table ymoHttpHidSetCookie).filter
            fun node => isSetCookie (read node.hdr),
        node.string read = read node.value := by
    intro node member
    rw [HdrNode.string, filed.plain node (List.mem_filter.mp member).1]
  rw [cookiesOf, nodes, List.map_congr_left values, stackCookies,
    entries, List.filter_map, List.map_map]
  rfl

/-! ## What is lost -/

/-- The cookie that a call passes. -/
def passedCookie (read : HdrPointer → Bytes) (call : HeaderCall) :
    List Bytes :=
  if isSetCookie (read call.header) then [read call.value] else []

theorem passedCookies_cons (call : HeaderCall) (calls : List HeaderCall) :
    passedCookies read (call :: calls) =
      passedCookie read call ++ passedCookies read calls := by
  rw [passedCookies, passedCookie, List.filter_cons]
  split
  · rfl
  · rfl

theorem stackCookies_cons (header value : HdrPointer)
    (stack : List (HdrPointer × HdrPointer)) :
    stackCookies read ((header, value) :: stack) =
      (if isSetCookie (read header) then [read value] else []) ++
        stackCookies read stack := by
  rw [stackCookies, List.filter_cons]
  dsimp only
  split
  · rfl
  · rfl

/-- The name on the top of the stack is the last one. -/
theorem lastName_step (stack : List (HdrPointer × HdrPointer))
    (call : HeaderCall) :
    (entriesStep read stack call).head?.map Prod.fst =
      lastName read (stack.head?.map Prod.fst) call := by
  rw [entriesStep, lastName]
  split
  · rfl
  · rfl

/-- A call that spares the cookies adds its own to them. -/
theorem stackCookies_of_spares {stack : List (HdrPointer × HdrPointer)}
    {call : HeaderCall}
    (spares : Spares read (stack.head?.map Prod.fst) call) :
    stackCookies read (entriesStep read stack call) =
      passedCookie read call ++ stackCookies read stack := by
  rw [entriesStep]
  by_cases on : OnCookies read call
  · rw [if_pos on, stackCookies_cons, passedCookie]
    cases inserts : call.inserts with
    | false => rfl
    | true =>
        have other := spares inserts on
        cases stack with
        | nil => rfl
        | cons top rest =>
            have apart : isSetCookie (read top.1) = false := other top.1 rfl
            rw [stackCookies_cons top.1 top.2 rest, apart]
            rfl
  · have apart : isSetCookie (read call.header) = false := by
      cases cookie : isSetCookie (read call.header) with
      | false => rfl
      | true => exact absurd (hash_of_isSetCookie cookie) on
    rw [if_neg on, passedCookie, apart]
    rfl

/-- A call that does not loses one. -/
theorem length_of_not_spares {stack : List (HdrPointer × HdrPointer)}
    {call : HeaderCall}
    (spares : ¬Spares read (stack.head?.map Prod.fst) call) :
    (stackCookies read (entriesStep read stack call)).length + 1 =
      (passedCookie read call).length + (stackCookies read stack).length := by
  rw [Spares] at spares
  push Not at spares
  rcases spares with ⟨inserts, on, name, top, cookie⟩
  replace cookie := eq_true_of_ne_false cookie
  cases stack with
  | nil => cases top
  | cons entry rest =>
      cases top
      rw [entriesStep, if_pos on, inserts, stackCookies_cons,
        stackCookies_cons entry.1 entry.2 rest, cookie, passedCookie]
      simp only [if_true, List.length_append, List.length_cons,
        List.length_nil, List.tail_cons]
      omega

/-- When all calls spare the cookies, those that were passed are there. -/
theorem perm_of_spares {stack : List (HdrPointer × HdrPointer)}
    {calls : List HeaderCall}
    (spares :
      AllAlong (lastName read) (Spares read)
        (stack.head?.map Prod.fst) calls) :
    (stackCookies read (run (entriesStep read) stack calls)).Perm
      (passedCookies read calls ++ stackCookies read stack) := by
  induction calls generalizing stack with
  | nil => exact List.Perm.refl _
  | cons call calls ih =>
      have later := spares.2
      rw [← lastName_step] at later
      have rest := ih later
      rw [stackCookies_of_spares spares.1] at rest
      rw [run_cons, passedCookies_cons]
      refine rest.trans ?_
      rw [← List.append_assoc]
      exact List.perm_append_comm.append_right _

/-- There are never more cookies than were passed; if there are as many, all calls
spared them. -/
theorem length_run (stack : List (HdrPointer × HdrPointer))
    (calls : List HeaderCall) :
    let kept := stackCookies read (run (entriesStep read) stack calls)
    let passed := passedCookies read calls ++ stackCookies read stack
    kept.length ≤ passed.length ∧
      (kept.length = passed.length →
        AllAlong (lastName read) (Spares read)
          (stack.head?.map Prod.fst) calls) := by
  induction calls generalizing stack with
  | nil => exact ⟨Nat.le_refl _, fun _ => trivial⟩
  | cons call calls ih =>
      have later := ih (entriesStep read stack call)
      dsimp only at later ⊢
      rw [run_cons, passedCookies_cons]
      rw [lastName_step] at later
      simp only [List.length_append] at later ⊢
      by_cases spares : Spares read (stack.head?.map Prod.fst) call
      · rw [stackCookies_of_spares spares, List.length_append] at later
        refine ⟨by omega, ?_⟩
        intro same
        exact ⟨spares, later.2 (by omega)⟩
      · have lost := length_of_not_spares spares
        refine ⟨by omega, ?_⟩
        intro same
        omega

/-! ## Responses -/

theorem filed_clear :
    Filed read (ymoHttpHdrTableClear : HdrTable HdrPointer) where
  placed := placed_clear
  hashed := fun _ _ member => absurd member List.not_mem_nil
  plain := fun _ member => absurd member List.not_mem_nil

set_option maxRecDepth 4000 in
/-- A response starts without a cookie. -/
theorem filed_init (memory : HdrMemory) (flags : HttpFlags) :
    let response := ymoHttpSessionInitResponse flags
    Filed (memory.string response.contentLenStr) response.headers ∧
      entries response.headers = [] := by
  have name :
      memory.string [] (.literal (bytes "Connection")) =
        bytes "Connection" := by
    rw [HdrMemory.string]
    decide
  have hashed :
      ymoHttpHdrHash (bytes "Connection") = ymoHttpHidConnection := by
    decide
  have apart : ymoHttpHidConnection ≠ ymoHttpHidSetCookie := by decide
  have inserted :
      ∀ value : Bytes,
        Filed (memory.string [])
            (ymoHttpHdrTableInsertPrecompute ymoHttpHdrTableClear
              ymoHttpHidConnection (.literal (bytes "Connection")) 10
              (.literal value)) ∧
          entries
              (ymoHttpHdrTableInsertPrecompute ymoHttpHdrTableClear
                ymoHttpHidConnection (.literal (bytes "Connection")) 10
                (.literal value)) =
            [] := by
    intro value
    have step :=
      insert_entries (@filed_clear (memory.string []))
        (.literal (bytes "Connection")) (.literal value)
    rw [ymoHttpHdrTableInsert, name, hashed, if_neg apart] at step
    exact step
  cases keepalive : flags.requestKeepalive with
  | true =>
      cases version : flags.version11 with
      | true =>
          simp only [ymoHttpSessionInitResponse, keepalive, version, if_true]
          exact ⟨filed_clear, rfl⟩
      | false =>
          simp only [ymoHttpSessionInitResponse, keepalive, version, if_true,
            Bool.false_eq_true, if_false]
          exact inserted (bytes "Keep-alive")
  | false =>
      cases version : flags.version11 with
      | true =>
          simp only [ymoHttpSessionInitResponse, keepalive, version, if_true,
            Bool.false_eq_true, if_false]
          exact inserted (bytes "close")
      | false =>
          simp only [ymoHttpSessionInitResponse, keepalive, version,
            Bool.false_eq_true, if_false]
          exact ⟨filed_clear, rfl⟩

/-- The table of a response starts as the chains of the same lists. -/
theorem initialTable_holds (read : HdrPointer → Bytes) (null : HdrPointer)
    (flags : HttpFlags) :
    ∃ table,
      initialTable read null flags = some table ∧
        Holds table (ymoHttpSessionInitResponse flags).headers := by
  let initial : NodeTable HdrPointer := NodeTable.ymoHttpHdrTableInit null
  have plain : Holds initial ymoHttpHdrTableClear := init_holds null
  have inserted :
      ∀ value : Bytes,
        ∃ table,
          initial.ymoHttpHdrTableInsertPrecompute none
              ymoHttpHidConnection (.literal (bytes "Connection")) 10
              (.literal value) =
            some table ∧
          Holds table
            (ymoHttpHdrTableInsertPrecompute ymoHttpHdrTableClear
              ymoHttpHidConnection (.literal (bytes "Connection")) 10
              (.literal value)) := by
    intro value
    -- The pool has a node, so an offer makes no difference.
    have serves : True → Spare initial none (some 0) := fun _ =>
      ⟨0, rfl, List.not_mem_nil, fun used => absurd used List.not_mem_nil⟩
    rcases
        insertPrecompute_follows plain ymoHttpHidConnection
          (.literal (bytes "Connection")) 10 (.literal value) rfl serves
      with ⟨later, inserts, reached, holds, same⟩
    rw [same trivial] at holds
    exact ⟨later, inserts, holds⟩
  rw [initialTable, initialOps, ymoHttpSessionInitResponse]
  cases flags.requestKeepalive with
  | true =>
      cases flags.version11 with
      | true => exact ⟨initial, rfl, plain⟩
      | false => exact inserted (bytes "Keep-alive")
  | false =>
      cases flags.version11 with
      | true => exact inserted (bytes "close")
      | false => exact ⟨initial, rfl, plain⟩

/-- The lists after the calls hold every cookie that was passed once exactly when
each call spared those before it. -/
theorem listCookies_iff (memory : HdrMemory) (flags : HttpFlags)
    (calls : List HeaderCall) :
    let initial := ymoHttpSessionInitResponse flags
    let read := memory.string initial.contentLenStr
    (cookiesOf read
        (run (listStep read) initial.headers
          (calls.map HeaderCall.op)).nodes).Perm
        (passedCookies read calls) ↔
      AllAlong (lastName read) (Spares read) none calls := by
  intro initial read
  rcases filed_init memory flags with ⟨filed, empty⟩
  rcases run_entries filed calls with ⟨later, stack⟩
  rw [later.cookiesOf_eq, stack, empty]
  constructor
  · intro same
    refine (length_run [] calls).2 ?_
    rw [same.length_eq]
    exact congrArg List.length (List.append_nil _).symm
  · intro spares
    have kept := @perm_of_spares read [] calls spares
    have nothing : stackCookies read [] = [] := rfl
    rw [nothing, List.append_nil] at kept
    exact kept

/-- While no insertion meets a name with joined values and the heap has memory, an
iteration over the table of a response yields every cookie that was passed once
exactly when no call inserted a header with the hash of `Set-Cookie` while the last
header with that hash was a cookie. -/
theorem cookiesKept_iff (memory : HdrMemory) (null : HdrPointer)
    (flags : HttpFlags)
    (calls : List (Option Nat × HeaderCall)) :
    let read := memory.string (ymoHttpSessionInitResponse flags).contentLenStr
    let start := initialTable read null flags
    let steps := calls.map fun call => (call.1, call.2.op)
    AllAlong (nodeRun read) (SparesBuffers read) start steps →
      AllAlong (nodeRun read) (Offered read) start steps →
        (Kept read (run (nodeRun read) start steps)
            (passedCookies read (calls.map Prod.snd)) ↔
          AllAlong (lastName read) (Spares read) none
            (calls.map Prod.snd)) := by
  intro read start steps unjoined offered
  rcases initialTable_holds read null flags with ⟨table, starts, holds⟩
  have starts' : start = some table := starts
  rw [starts'] at unjoined offered ⊢
  rcases run_holds read holds steps unjoined with
    ⟨later, ends, reached, ⟨free, lists, represents⟩, follows⟩
  have ops : steps.map Prod.snd = (calls.map Prod.snd).map HeaderCall.op := by
    rw [List.map_map, List.map_map]
    rfl
  have lists' := follows offered
  rw [ops] at lists'
  have visits := represents.structured.iteration
  have contents := represents.contents_nodes
  rw [lists'] at contents
  refine Iff.trans ?_ (listCookies_iff memory flags (calls.map Prod.snd))
  show
    _ ↔
      (cookiesOf read
        (run (listStep read) (ymoHttpSessionInitResponse flags).headers
          ((calls.map Prod.snd).map HeaderCall.op)).nodes).Perm _
  rw [← contents, ends]
  constructor
  · rintro ⟨_, visited, ⟨⟩, linked, same⟩
    rw [linked.unique visits] at same
    exact same
  · intro same
    exact ⟨later, _, rfl, visits, same⟩

set_option maxRecDepth 8000 in
/-- Two cookies that are added to the table, beside a header that is joined. -/
theorem cookiesKept_added :
    let memory : HdrMemory :=
      { recvBuf := fun _ => 0, workspace := fun _ => 0 }
    let read :=
      memory.string (ymoHttpSessionInitResponse HttpFlags.none).contentLenStr
    let value : HdrPointer := .literal (bytes "a=1")
    let calls : List (Option Nat × HeaderCall) :=
      [(some 64, .tableAdd [] (.literal (bytes "Via")) value),
        (some 64, .tableAdd [] (.literal (bytes "Via")) value),
        (some 64, .tableAdd [7] (.literal (bytes "Via")) value),
        (some 96, .tableAdd [] (.literal (bytes "Set-Cookie")) value),
        (some 96, .tableAdd [] (.literal (bytes "set-cookie"))
          (.literal (bytes "b=2"))),
        (some 96, .addHeader (.literal (bytes "Date")) value)]
    Kept read
      (run (nodeRun read)
        (initialTable read (.literal []) HttpFlags.none)
        (calls.map fun call => (call.1, call.2.op)))
      (passedCookies read (calls.map Prod.snd)) := by
  intro memory read value calls
  apply (cookiesKept_iff memory (.literal []) HttpFlags.none calls _ _).mpr
  · decide +kernel
  · decide +kernel
  · decide +kernel

set_option maxRecDepth 4000 in
/-- The second of two cookies that are added to a response replaces the first. -/
theorem cookie_replaced :
    let memory : HdrMemory :=
      { recvBuf := fun _ => 0, workspace := fun _ => 0 }
    let read :=
      memory.string (ymoHttpSessionInitResponse HttpFlags.none).contentLenStr
    let calls : List HeaderCall :=
      [.addHeader (.literal (bytes "Set-Cookie")) (.literal (bytes "a=1")),
        .addHeader (.literal (bytes "Set-Cookie")) (.literal (bytes "b=2"))]
    ¬Kept read
      (run (nodeRun read)
        (initialTable read (.literal []) HttpFlags.none)
        (calls.map fun call => (some 64, call.op)))
      (passedCookies read calls) := by
  intro memory read calls
  rintro ⟨table, visited, ends, linked, same⟩
  have found :
      (run (nodeRun read)
          (initialTable read (.literal []) HttpFlags.none)
          (calls.map fun call => (some 64, call.op))).map
          (fun table =>
            (table.ymoHttpHdrTableNext none,
              table.ymoHttpHdrTableNext (some (.item 0)),
              cookiesOf read [table.content (.item 0)])) =
        some (some (.item 0), none, [bytes "b=2"]) := by
    decide
  rw [ends, Option.map_some, Option.some.injEq, Prod.mk.injEq,
    Prod.mk.injEq] at found
  rcases found with ⟨first, last, cookies⟩
  have only :
      Linked (fun node => table.ymoHttpHdrTableNext (some node))
        (table.ymoHttpHdrTableNext none) [.item 0] := by
    rw [first]
    apply Linked.cons
    show Linked _ (table.ymoHttpHdrTableNext (some (.item 0))) _
    rw [last]
    exact .nil
  rw [linked.unique only] at same
  have count := same.length_eq
  rw [List.map_singleton, cookies] at count
  exact absurd count (by decide)

end Yimmo.Http.SetCookies
