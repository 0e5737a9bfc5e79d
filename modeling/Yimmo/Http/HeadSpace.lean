import Yimmo.Http.Response

/-!
# Space for the head of a response

`ymo_http_response_start` serializes the status line and the headers into a
buffer of `YMO_HTTP_SEND_BUF_SIZE` bytes and tests the space before each piece.
The test before a name is `key_len < remain + 2`, where the name and the two
bytes behind it need `key_len + 2 <= remain`.

`HeadRun` follows the serialization store by store and keeps each `remain` that
was the bound of a copy.  The names that the test wrongly admits are those whose
length differs from the space that is left by less than two.
-/

namespace Yimmo.Http.HeadSpace

open Yimmo.Core.StatusCode
open Yimmo.Core.Net
open Yimmo.Lib.ByteMemory
open Yimmo.Http.Headers
open Yimmo.Http.Exchange
open Yimmo.Http.Parse
open Yimmo.Http.Application
open Yimmo.Http.Response

/-! ## The serialization, store by store -/

/-- A serialization under way. -/
structure HeadRun where
  /-- `insert - response_buf`. -/
  insert : Nat
  remain : Int
  /-- The stores so far: where each begins, and how many bytes it is. -/
  stores : List (Nat × Nat)
  /-- The values of `remain` that bounded a copy. -/
  bounds : List Int
  /-- It went to `serialize_nomem`. -/
  nomem : Bool

/-- The buffer is allocated. -/
def HeadRun.start : HeadRun where
  insert := 0
  remain := ymoHttpSendBufSize
  stores := []
  bounds := []
  nomem := false

/-- `goto serialize_nomem`. -/
def HeadRun.fail (run : HeadRun) : HeadRun :=
  { run with nomem := true }

/-- Bytes are stored at `insert`, which moves behind them. -/
def HeadRun.put (run : HeadRun) (count : Nat) : HeadRun :=
  { run with
    insert := run.insert + count
    stores := run.stores ++ [(run.insert, count)] }

/-- `remain -= count`. -/
def HeadRun.spend (run : HeadRun) (count : Nat) : HeadRun :=
  { run with remain := run.remain - count }

/-- The status line. -/
def putStatusLine (statusLen : Nat) (run : HeadRun) : HeadRun :=
  if run.remain < ((statusLen + 11 : Nat) : Int) then run.fail
  else ((((run.put 9).put statusLen).put 1).put 1).spend (11 + statusLen)

/-- The name of a header, a colon and a space. -/
def putName (hdrLen : Nat) (run : HeadRun) : HeadRun :=
  (((run.put hdrLen).spend hdrLen).put 1).put 1 |>.spend 2

/--
`memccpy` of a value: it stores no more than its bound and stops behind the
terminal zero, which is not counted.
-/
def putValue (value : Bytes) (run : HeadRun) : HeadRun :=
  let bound := sizeOfLong run.remain
  let copied :=
    { run with
      stores := run.stores ++ [(run.insert, min (value.length + 1) bound)]
      bounds := run.bounds ++ [run.remain] }
  if value.length < bound then
    { copied with
      insert := run.insert + value.length
      remain := run.remain - value.length }
  else copied.fail

/-- The end of a line. -/
def putLineEnd (run : HeadRun) : HeadRun :=
  if run.nomem then run
  else if 2 ≤ run.remain then ((run.put 1).put 1).spend 2
  else run.fail

/-- One header line. -/
def putHeader (memory : HdrMemory) (contentLenStr : Bytes) (run : HeadRun)
    (node : HdrNode HdrPointer) :
    HeadRun :=
  if (node.hdrLen : Int) < run.remain + 2 then
    putLineEnd
      (putValue (node.string (memory.string contentLenStr))
        (putName node.hdrLen run))
  else run.fail

/-- The lines of the headers, until one goes to `serialize_nomem`. -/
def putHeaders (memory : HdrMemory) (contentLenStr : Bytes) :
    HeadRun → List (HdrNode HdrPointer) → HeadRun
  | run, [] => run
  | run, node :: nodes =>
      if run.nomem then run
      else
        putHeaders memory contentLenStr
          (putHeader memory contentLenStr run node) nodes

/-- The serialization of a head. -/
def serializeRun (memory : HdrMemory) (response : HttpResponse) : HeadRun :=
  putLineEnd
    (putHeaders memory response.contentLenStr
      (putStatusLine response.statusLen HeadRun.start)
      response.headers.nodes)

/-- What `ymo_http_response_start` stores, if it gets to the head at all. -/
def headRun (memory : HdrMemory) (response : HttpResponse) : HeadRun :=
  if response.statusStr = [] ∨ response.statusLen = 0 then HeadRun.start
  else
    let decided := shouldBufferBody memory response
    if decided.1 then HeadRun.start else serializeRun memory decided.2

/-! ## The property -/

/-- Every store lies in the buffer, and no bound of a copy is negative. -/
structure HeadRun.Safe (run : HeadRun) : Prop where
  inside : ∀ store ∈ run.stores, store.1 + store.2 ≤ ymoHttpSendBufSize
  bounded : ∀ bound ∈ run.bounds, 0 ≤ bound

/-- A status string of valid length. -/
structure ValidStatus (response : HttpResponse) : Prop where
  present : response.statusStr ≠ []
  length : response.statusLen = response.statusStr.length
  short : response.statusLen ≤ statusStrMaxLen

/-- The line of a header. -/
def headerLine (memory : HdrMemory) (contentLenStr : Bytes)
    (node : HdrNode HdrPointer) :
    Bytes :=
  memory.raw contentLenStr node.hdrLen node.hdr ++ [colon, space] ++
    node.string (memory.string contentLenStr) ++ [cr, lf]

/-- The head of a response: the status line, the line of every node of the table
once, and an empty line. -/
def headBytes (memory : HdrMemory) (response : HttpResponse) : Bytes :=
  bytes "HTTP/1.1 " ++ response.statusStr ++ [cr, lf] ++
    response.headers.nodes.flatMap
      (headerLine memory response.contentLenStr) ++
    [cr, lf]

/--
The outcome is the head in a bucket or NULL with `ENOMEM`; no byte is stored
outside the buffer, and `remain` is never negative as the bound of a copy.
-/
structure SerializesSafely
    (memory : HdrMemory)
    (response : HttpResponse) : Prop where
  outcome :
    (ymoHttpResponseStart memory response).1 =
        .bucket
          (Bucket.fresh
            (headBytes memory (shouldBufferBody memory response).2)) ∨
      (ymoHttpResponseStart memory response).1 = .null (.err .enomem)
  safe : (headRun memory response).Safe

/-! ## The conditions -/

/--
The body has to be buffered first: its length is neither set nor known, and it
cannot be sent in chunks.
-/
structure MustBuffer (response : HttpResponse) : Prop where
  noContentLength :
    ymoHttpHdrTableGetId response.headers ymoHttpHidContentLength = none
  noTransferEncoding :
    ymoHttpHdrTableGetId response.headers ymoHttpHidTransferEncoding = none
  incomplete : response.flags.responseComplete = false
  unchunked : response.flags.supportsChunked = false

/-- The length of a header's line. -/
def lineLength (memory : HdrMemory) (contentLenStr : Bytes)
    (node : HdrNode HdrPointer) :
    Nat :=
  node.hdrLen + (node.string (memory.string contentLenStr)).length + 4

/-- The length of the lines of some headers. -/
def linesLength (memory : HdrMemory) (contentLenStr : Bytes)
    (nodes : List (HdrNode HdrPointer)) :
    Nat :=
  (nodes.map (lineLength memory contentLenStr)).sum

/--
With so much space, the lines of some nodes fit, and the name of the next one is
neither two bytes shorter than the space left nor two bytes longer.
-/
def OverrunsFrom (memory : HdrMemory) (contentLenStr : Bytes) (space : Nat)
    (nodes : List (HdrNode HdrPointer)) : Prop :=
  ∃ front node back,
    nodes = front ++ node :: back ∧
      linesLength memory contentLenStr front ≤ space ∧
      space < linesLength memory contentLenStr front + node.hdrLen + 2 ∧
      linesLength memory contentLenStr front + node.hdrLen < space + 2

/-- A name of the response is one that the test wrongly admits. -/
def Overruns (memory : HdrMemory) (response : HttpResponse) : Prop :=
  let decided := (shouldBufferBody memory response).2
  OverrunsFrom memory decided.contentLenStr
    (ymoHttpSendBufSize - (11 + response.statusLen))
    decided.headers.nodes

/-! ## The bytes of the head -/

section

variable
  {memory : HdrMemory}
  {contentLenStr : Bytes}
  {node : HdrNode HdrPointer}
  {nodes : List (HdrNode HdrPointer)}

/-- A small bound that is not negative is what it says. -/
theorem sizeOfLong_natCast {space : Nat} (small : space ≤ ymoHttpSendBufSize) :
    sizeOfLong (space : Int) = space := by
  rw [ymoHttpSendBufSize] at small
  rw [sizeOfLong, sizeModulus]
  omega

theorem linesLength_cons :
    linesLength memory contentLenStr (node :: nodes) =
      lineLength memory contentLenStr node +
        linesLength memory contentLenStr nodes := by
  rw [linesLength, List.map_cons, List.sum_cons]
  rfl

/-- A line is written exactly when it fits. -/
theorem serializeHeader_eq {cursor : HeadCursor} {space : Nat}
    (remain : cursor.remain = space)
    (small : space ≤ ymoHttpSendBufSize) :
    serializeHeader memory contentLenStr cursor node =
      if lineLength memory contentLenStr node ≤ space then
        some
          { written :=
              cursor.written ++ headerLine memory contentLenStr node
            remain :=
              ((space - lineLength memory contentLenStr node : Nat) : Int) }
      else none := by
  rw [serializeHeader, remain]
  generalize length :
    (node.string (memory.string contentLenStr)).length = valueLen
  have total :
      lineLength memory contentLenStr node = node.hdrLen + valueLen + 4 := by
    rw [lineLength, length]
  rw [total]
  by_cases fits : node.hdrLen + valueLen + 4 ≤ space
  · have left :
        (space : Int) - node.hdrLen - 2 =
          ((space - node.hdrLen - 2 : Nat) : Int) := by
      omega
    have bound :
        sizeOfLong ((space : Int) - node.hdrLen - 2) =
          space - node.hdrLen - 2 := by
      rw [left]
      exact sizeOfLong_natCast (by omega)
    rw [if_pos fits, if_pos (by omega)]
    simp only [bound, length]
    rw [if_pos (by omega), if_pos (by omega)]
    simp only [headerLine, List.append_assoc, Option.some.injEq,
      HeadCursor.mk.injEq, true_and]
    omega
  · rw [if_neg fits]
    by_cases admitted : (node.hdrLen : Int) < (space : Int) + 2
    · rw [if_pos admitted]
      by_cases named : node.hdrLen + 2 ≤ space
      · have left :
            (space : Int) - node.hdrLen - 2 =
              ((space - node.hdrLen - 2 : Nat) : Int) := by
          omega
        have bound :
            sizeOfLong ((space : Int) - node.hdrLen - 2) =
              space - node.hdrLen - 2 := by
          rw [left]
          exact sizeOfLong_natCast (by omega)
        simp only [bound, length]
        split
        · rw [if_neg (by omega)]
        · rfl
      · simp only [length]
        split
        · rw [if_neg (by omega)]
        · rfl
    · rw [if_neg admitted]

/-- The lines are written exactly when all of them fit. -/
theorem serializeHeaders_eq {cursor : HeadCursor} {space : Nat}
    (remain : cursor.remain = space)
    (small : space ≤ ymoHttpSendBufSize) :
    serializeHeaders memory contentLenStr cursor nodes =
      if linesLength memory contentLenStr nodes ≤ space then
        some
          { written :=
              cursor.written ++ nodes.flatMap (headerLine memory contentLenStr)
            remain :=
              ((space - linesLength memory contentLenStr nodes : Nat) : Int) }
      else none := by
  induction nodes generalizing cursor space with
  | nil =>
      have nothing : linesLength memory contentLenStr [] = 0 := rfl
      rw [serializeHeaders, nothing, if_pos (Nat.zero_le space),
        List.flatMap_nil, List.append_nil, Nat.sub_zero, ← remain]
  | cons node nodes ih =>
      rw [serializeHeaders, serializeHeader_eq remain small, linesLength_cons]
      by_cases fits : lineLength memory contentLenStr node ≤ space
      · rw [if_pos fits]
        dsimp only
        rw [ih rfl (by omega)]
        by_cases rest :
            linesLength memory contentLenStr nodes ≤
              space - lineLength memory contentLenStr node
        · rw [if_pos rest, if_pos (by omega)]
          rw [List.flatMap_cons, List.append_assoc, Nat.sub_sub]
        · rw [if_neg rest, if_neg (by omega)]
      · rw [if_neg fits, if_neg (by omega)]

end

/-- A status of valid length is copied as it is. -/
theorem ValidStatus.statusBytes_eq {response : HttpResponse}
    (valid : ValidStatus response) :
    statusBytes response = response.statusStr := by
  rw [statusBytes, valid.length, Nat.sub_self, List.replicate_zero,
    List.append_nil]

/-- The head is serialized exactly when it fits into the buffer. -/
theorem serializeHead_eq {memory : HdrMemory} {response : HttpResponse}
    (valid : ValidStatus response) :
    serializeHead memory response =
      if 11 + response.statusLen +
            linesLength memory response.contentLenStr
              response.headers.nodes + 2 ≤
          ymoHttpSendBufSize then
        some (headBytes memory response)
      else none := by
  have short := valid.short
  have size : ymoHttpSendBufSize = 1024 := rfl
  have most : statusStrMaxLen = 31 := rfl
  have remain :
      ((ymoHttpSendBufSize : Int) - (11 + response.statusLen)) =
        ((ymoHttpSendBufSize - (11 + response.statusLen) : Nat) : Int) := by
    omega
  rw [serializeHead, if_neg (by omega)]
  dsimp only
  rw [serializeHeaders_eq remain (Nat.sub_le _ _)]
  by_cases fits :
      linesLength memory response.contentLenStr response.headers.nodes ≤
        ymoHttpSendBufSize - (11 + response.statusLen)
  · rw [if_pos fits]
    dsimp only
    by_cases ends :
        11 + response.statusLen +
            linesLength memory response.contentLenStr
              response.headers.nodes + 2 ≤
          ymoHttpSendBufSize
    · rw [if_pos ends, if_neg (by omega), valid.statusBytes_eq]
      rfl
    · rw [if_neg ends, if_pos (by omega)]
  · rw [if_neg fits, if_neg (by omega)]

/-! ## Stores -/

/-- A serialization that goes on with so much space left. -/
structure HeadRun.Ready (run : HeadRun) (space : Nat) : Prop where
  goesOn : run.nomem = false
  left : run.remain = space
  position : run.insert + space = ymoHttpSendBufSize
  safe : run.Safe

/-- A serialization that stopped, and did no harm before. -/
structure HeadRun.Stopped (run : HeadRun) : Prop where
  nomem : run.nomem = true
  safe : run.Safe

namespace HeadRun

variable {run : HeadRun} {space count : Nat}

theorem ready_start : HeadRun.start.Ready ymoHttpSendBufSize where
  goesOn := rfl
  left := rfl
  position := Nat.zero_add _
  safe :=
    { inside := fun _ member => absurd member List.not_mem_nil
      bounded := fun _ member => absurd member List.not_mem_nil }

theorem Ready.small (ready : run.Ready space) :
    space ≤ ymoHttpSendBufSize := by
  have position := ready.position
  omega

theorem Ready.stopped (ready : run.Ready space) : run.fail.Stopped where
  nomem := rfl
  safe := ⟨ready.safe.inside, ready.safe.bounded⟩

theorem Safe.put (safe : run.Safe)
    (fits : run.insert + count ≤ ymoHttpSendBufSize) :
    (run.put count).Safe := by
  refine ⟨?_, safe.bounded⟩
  intro store member
  rcases List.mem_append.mp member with before | here
  · exact safe.inside store before
  · rw [List.mem_singleton.mp here]
    exact fits

/-- Bytes that fit are stored, and the space is theirs. -/
theorem Ready.put (ready : run.Ready space) (count : Nat)
    (fits : count ≤ space) :
    ((run.put count).spend count).Ready (space - count) := by
  have position := ready.position
  have left := ready.left
  have safe : (run.put count).Safe := ready.safe.put (by omega)
  constructor
  · exact ready.goesOn
  · show run.remain - count = _
    omega
  · show run.insert + count + _ = _
    omega
  · exact ⟨safe.inside, safe.bounded⟩

/-- Two bytes are stored one after the other. -/
theorem Ready.putTwo (ready : run.Ready space) (fits : 2 ≤ space) :
    (((run.put 1).put 1).spend 2).Ready (space - 2) := by
  have first := ready.put 1 (by omega)
  have second := first.put 1 (by omega)
  have left := ready.left
  constructor
  · exact ready.goesOn
  · show run.remain - 2 = _
    omega
  · have position := second.position
    rw [Nat.sub_sub] at position
    exact position
  · exact ⟨second.safe.inside, second.safe.bounded⟩

theorem Ready.putStatusLine (ready : run.Ready space) {statusLen : Nat}
    (fits : 11 + statusLen ≤ space) :
    (HeadSpace.putStatusLine statusLen run).Ready
      (space - (11 + statusLen)) := by
  have version := ready.put 9 (by omega)
  have status := version.put statusLen (by omega)
  have ended := status.putTwo (by omega)
  have left := ready.left
  rw [HeadSpace.putStatusLine, if_neg (by omega)]
  constructor
  · exact ready.goesOn
  · show run.remain - ((11 + statusLen : Nat) : Int) = _
    omega
  · have position := ended.position
    have size : space - 9 - statusLen - 2 = space - (11 + statusLen) := by
      omega
    rw [size] at position
    exact position
  · exact ⟨ended.safe.inside, ended.safe.bounded⟩

theorem Ready.putName (ready : run.Ready space) (hdrLen : Nat)
    (fits : hdrLen + 2 ≤ space) :
    (HeadSpace.putName hdrLen run).Ready (space - hdrLen - 2) :=
  (ready.put hdrLen (by omega)).putTwo (by omega)

theorem Ready.bound_eq (ready : run.Ready space) :
    sizeOfLong run.remain = space := by
  rw [ready.left]
  exact sizeOfLong_natCast ready.small

/-- A copy within its bound is safe. -/
theorem Ready.copied (ready : run.Ready space) (value : Bytes) :
    Safe
      { run with
        stores :=
          run.stores ++
            [(run.insert,
              min (value.length + 1) (sizeOfLong run.remain))]
        bounds := run.bounds ++ [run.remain] } := by
  have position := ready.position
  have left := ready.left
  rw [ready.bound_eq]
  constructor
  · intro store member
    rcases List.mem_append.mp member with before | here
    · exact ready.safe.inside store before
    · rw [List.mem_singleton.mp here]
      show run.insert + min (value.length + 1) space ≤ _
      omega
  · intro bound member
    rcases List.mem_append.mp member with before | here
    · exact ready.safe.bounded bound before
    · rw [List.mem_singleton.mp here, left]
      exact Int.natCast_nonneg space

theorem Ready.putValue (ready : run.Ready space) (value : Bytes)
    (fits : value.length < space) :
    (HeadSpace.putValue value run).Ready (space - value.length) := by
  have position := ready.position
  have left := ready.left
  have safe := ready.copied value
  rw [HeadSpace.putValue]
  dsimp only
  rw [if_pos (by rw [ready.bound_eq]; exact fits)]
  constructor
  · exact ready.goesOn
  · show run.remain - value.length = _
    omega
  · show run.insert + value.length + _ = _
    omega
  · exact ⟨safe.inside, safe.bounded⟩

/-- Without a terminal zero before the bound there is no line. -/
theorem Ready.putValue_stops (ready : run.Ready space) {value : Bytes}
    (long : space ≤ value.length) :
    (HeadSpace.putValue value run).Stopped := by
  have safe := ready.copied value
  rw [HeadSpace.putValue]
  dsimp only
  rw [if_neg (by rw [ready.bound_eq]; omega)]
  exact ⟨rfl, safe.inside, safe.bounded⟩

theorem Ready.putLineEnd (ready : run.Ready space) (fits : 2 ≤ space) :
    (HeadSpace.putLineEnd run).Ready (space - 2) := by
  have left := ready.left
  have goesOn : ¬run.nomem = true := by
    rw [ready.goesOn]
    exact Bool.false_ne_true
  rw [HeadSpace.putLineEnd, if_neg goesOn, if_pos (by omega)]
  exact ready.putTwo fits

theorem Ready.putLineEnd_stops (ready : run.Ready space) (few : space < 2) :
    (HeadSpace.putLineEnd run).Stopped := by
  have left := ready.left
  have goesOn : ¬run.nomem = true := by
    rw [ready.goesOn]
    exact Bool.false_ne_true
  rw [HeadSpace.putLineEnd, if_neg goesOn, if_neg (by omega)]
  exact ready.stopped

theorem putLineEnd_of_nomem (nomem : run.nomem = true) :
    HeadSpace.putLineEnd run = run := by
  rw [HeadSpace.putLineEnd, if_pos nomem]

theorem Ready.putLineEnd_safe (ready : run.Ready space) :
    (HeadSpace.putLineEnd run).Safe := by
  rcases Nat.lt_or_ge space 2 with few | fits
  · exact (ready.putLineEnd_stops few).safe
  · exact (ready.putLineEnd fits).safe

theorem bounds_putLineEnd :
    (HeadSpace.putLineEnd run).bounds = run.bounds := by
  rw [HeadSpace.putLineEnd]
  split
  · rfl
  · split
    · rfl
    · rfl

theorem bounds_putValue (value : Bytes) :
    (HeadSpace.putValue value run).bounds = run.bounds ++ [run.remain] := by
  rw [HeadSpace.putValue]
  dsimp only
  split
  · rfl
  · rfl

end HeadRun

/-! ## Lines -/

section

variable
  {memory : HdrMemory}
  {contentLenStr : Bytes}
  {run : HeadRun}
  {space : Nat}
  {node : HdrNode HdrPointer}
  {nodes : List (HdrNode HdrPointer)}

/-- The name is admitted, and does not fit. -/
def WronglyAdmitted (space : Nat) (node : HdrNode HdrPointer) : Prop :=
  space < node.hdrLen + 2 ∧ node.hdrLen < space + 2

theorem HeadRun.Ready.putHeader (ready : run.Ready space)
    (fits : lineLength memory contentLenStr node ≤ space) :
    (HeadSpace.putHeader memory contentLenStr run node).Ready
      (space - lineLength memory contentLenStr node) := by
  rw [lineLength] at fits ⊢
  have left := ready.left
  have named := ready.putName node.hdrLen (by omega)
  have valued :=
    named.putValue (node.string (memory.string contentLenStr)) (by omega)
  have ended := valued.putLineEnd (by omega)
  rw [HeadSpace.putHeader, if_pos (by omega)]
  have size :
      space -
          (node.hdrLen +
            (node.string (memory.string contentLenStr)).length + 4) =
        space - node.hdrLen - 2 -
          (node.string (memory.string contentLenStr)).length - 2 := by
    omega
  rw [size]
  exact ended

/-- A line that does not fit stops the serialization in time, unless its name is
wrongly admitted. -/
theorem HeadRun.Ready.putHeader_stops (ready : run.Ready space)
    (long : space < lineLength memory contentLenStr node)
    (right : ¬WronglyAdmitted space node) :
    (HeadSpace.putHeader memory contentLenStr run node).Stopped := by
  have left := ready.left
  rw [lineLength] at long
  rw [HeadSpace.putHeader]
  by_cases admitted : (node.hdrLen : Int) < run.remain + 2
  · have fits : node.hdrLen + 2 ≤ space := by
      rw [WronglyAdmitted] at right
      omega
    have named := ready.putName node.hdrLen fits
    rw [if_pos admitted]
    by_cases ends :
        (node.string (memory.string contentLenStr)).length <
          space - node.hdrLen - 2
    · exact (named.putValue _ ends).putLineEnd_stops (by omega)
    · have stopped := named.putValue_stops (Nat.le_of_not_lt ends)
      rw [HeadRun.putLineEnd_of_nomem stopped.nomem]
      exact stopped
  · rw [if_neg admitted]
    exact ready.stopped

/-- Behind a name that is wrongly admitted, `remain` is negative and the bound of
the next copy. -/
theorem HeadRun.Ready.putHeader_overruns (memory : HdrMemory)
    (contentLenStr : Bytes)
    (ready : run.Ready space)
    (wrong : WronglyAdmitted space node) :
    (HeadSpace.putHeader memory contentLenStr run node).nomem = true ∧
      ¬(HeadSpace.putHeader memory contentLenStr run node).Safe := by
  rcases wrong with ⟨tooLong, admitted⟩
  have left := ready.left
  have negative : (HeadSpace.putName node.hdrLen run).remain < 0 := by
    show run.remain - node.hdrLen - 2 < 0
    omega
  rw [HeadSpace.putHeader, if_pos (by omega)]
  constructor
  · rw [HeadSpace.putLineEnd]
    split
    next stopped => exact stopped
    next goesOn =>
      have short :
          ¬2 ≤
            (HeadSpace.putValue
              (node.string (memory.string contentLenStr))
              (HeadSpace.putName node.hdrLen run)).remain := by
        rw [HeadSpace.putValue]
        dsimp only
        split
        · show ¬2 ≤ (HeadSpace.putName node.hdrLen run).remain - _
          omega
        · show ¬2 ≤ (HeadSpace.putName node.hdrLen run).remain
          omega
      rw [if_neg short]
      rfl
  · intro safe
    have member :
        (HeadSpace.putName node.hdrLen run).remain ∈
          (HeadSpace.putLineEnd
            (HeadSpace.putValue
              (node.string (memory.string contentLenStr))
              (HeadSpace.putName node.hdrLen run))).bounds := by
      rw [HeadRun.bounds_putLineEnd, HeadRun.bounds_putValue]
      exact List.mem_append_right _ List.mem_cons_self
    have nonnegative := safe.bounded _ member
    omega

theorem putHeaders_of_nomem (nomem : run.nomem = true)
    (nodes : List (HdrNode HdrPointer)) :
    putHeaders memory contentLenStr run nodes = run := by
  cases nodes with
  | nil => rfl
  | cons node nodes => rw [putHeaders, if_pos nomem]

theorem putHeaders_cons (ready : run.Ready space) :
    putHeaders memory contentLenStr run (node :: nodes) =
      putHeaders memory contentLenStr
        (putHeader memory contentLenStr run node) nodes := by
  have goesOn : ¬run.nomem = true := by
    rw [ready.goesOn]
    exact Bool.false_ne_true
  rw [putHeaders, if_neg goesOn]

theorem overrunsFrom_nil : ¬OverrunsFrom memory contentLenStr space [] := by
  rintro ⟨front, node, back, split, rest⟩
  cases front with
  | nil => nomatch split
  | cons first front => nomatch split

/-- The name that is wrongly admitted is the first one, or the first line fits
and it is among the others. -/
theorem overrunsFrom_cons :
    OverrunsFrom memory contentLenStr space (node :: nodes) ↔
      WronglyAdmitted space node ∨
        (lineLength memory contentLenStr node ≤ space ∧
          OverrunsFrom memory contentLenStr
            (space - lineLength memory contentLenStr node) nodes) := by
  constructor
  · rintro ⟨front, named, back, split, fits, tooLong, admitted⟩
    cases front with
    | nil =>
        rcases List.cons.inj split with ⟨same, _⟩
        have nothing : linesLength memory contentLenStr [] = 0 := rfl
        rw [nothing] at tooLong admitted
        left
        rw [same]
        constructor
        · omega
        · omega
    | cons first front =>
        rcases List.cons.inj split with ⟨same, others⟩
        subst same
        rw [linesLength_cons] at fits tooLong admitted
        right
        refine ⟨by omega, front, named, back, others, ?_, ?_, ?_⟩
        · omega
        · omega
        · omega
  · intro either
    rcases either with ⟨tooLong, admitted⟩ | ⟨fits, later⟩
    · have nothing : linesLength memory contentLenStr [] = 0 := rfl
      refine ⟨[], node, nodes, rfl, ?_, ?_, ?_⟩
      · rw [nothing]
        exact Nat.zero_le space
      · rw [nothing]
        omega
      · rw [nothing]
        omega
    · rcases later
        with ⟨front, named, back, split, frontFits, tooLong, admitted⟩
      refine ⟨node :: front, named, back, ?_, ?_, ?_, ?_⟩
      · rw [split, List.cons_append]
      · rw [linesLength_cons]
        omega
      · rw [linesLength_cons]
        omega
      · rw [linesLength_cons]
        omega

/-- A run over the headers, ended like a line, is safe exactly when no name is
wrongly admitted. -/
theorem safe_putHeaders (ready : run.Ready space) :
    (putLineEnd (putHeaders memory contentLenStr run nodes)).Safe ↔
      ¬OverrunsFrom memory contentLenStr space nodes := by
  induction nodes generalizing run space with
  | nil =>
      rw [putHeaders]
      exact iff_of_true ready.putLineEnd_safe overrunsFrom_nil
  | cons node nodes ih =>
      rw [putHeaders_cons ready, overrunsFrom_cons]
      by_cases wrong : WronglyAdmitted space node
      · rcases ready.putHeader_overruns memory contentLenStr
          wrong
          with ⟨nomem, harm⟩
        rw [putHeaders_of_nomem nomem, HeadRun.putLineEnd_of_nomem nomem]
        exact iff_of_false harm fun right => right (Or.inl wrong)
      · by_cases fits : lineLength memory contentLenStr node ≤ space
        · rw [ih (ready.putHeader fits)]
          constructor
          · rintro right (here | ⟨_, later⟩)
            · exact wrong here
            · exact right later
          · intro right later
            exact right (Or.inr ⟨fits, later⟩)
        · have stopped := ready.putHeader_stops (Nat.lt_of_not_le fits) wrong
          rw [putHeaders_of_nomem stopped.nomem,
            HeadRun.putLineEnd_of_nomem stopped.nomem]
          refine iff_of_true stopped.safe ?_
          rintro (here | ⟨first, _⟩)
          · exact wrong here
          · exact fits first

/-- The run over the headers goes on exactly when their lines fit. -/
theorem putHeaders_follows (memory : HdrMemory) (contentLenStr : Bytes)
    (ready : run.Ready space)
    (nodes : List (HdrNode HdrPointer)) :
    (linesLength memory contentLenStr nodes ≤ space →
        (putHeaders memory contentLenStr run nodes).Ready
          (space - linesLength memory contentLenStr nodes)) ∧
      (space < linesLength memory contentLenStr nodes →
        (putHeaders memory contentLenStr run nodes).nomem = true) := by
  induction nodes generalizing run space with
  | nil => exact ⟨fun _ => ready, fun long => absurd long (Nat.not_lt_zero _)⟩
  | cons node nodes ih =>
      rw [putHeaders_cons ready, linesLength_cons]
      by_cases fits : lineLength memory contentLenStr node ≤ space
      · have later := ih (ready.putHeader fits)
        rw [Nat.sub_sub] at later
        refine ⟨fun _ => later.1 (by omega), fun long => later.2 ?_⟩
        omega
      · have stopped :
            (putHeader memory contentLenStr run node).nomem = true := by
          by_cases wrong : WronglyAdmitted space node
          · exact (ready.putHeader_overruns memory contentLenStr wrong).1
          · exact (ready.putHeader_stops (Nat.lt_of_not_le fits) wrong).nomem
        rw [putHeaders_of_nomem stopped]
        exact ⟨fun _ => by omega, fun _ => stopped⟩

end

/-! ## Calls -/

/-- The status is left alone when the framing is chosen. -/
theorem ValidStatus.decided {response : HttpResponse}
    (valid : ValidStatus response)
    (memory : HdrMemory) :
    ValidStatus (shouldBufferBody memory response).2 ∧
      (shouldBufferBody memory response).2.statusLen = response.statusLen := by
  rw [shouldBufferBody]
  dsimp only
  split
  · exact ⟨valid, rfl⟩
  · split
    · exact ⟨⟨valid.present, valid.length, valid.short⟩, rfl⟩
    · split
      · exact ⟨⟨valid.present, valid.length, valid.short⟩, rfl⟩
      · exact ⟨valid, rfl⟩

/-- The run goes to `serialize_nomem` exactly when there is no head, and else it
stops right behind the head. -/
theorem serializeRun_follows {memory : HdrMemory} {response : HttpResponse}
    (valid : ValidStatus response) :
    match serializeHead memory response with
    | some _ =>
        (serializeRun memory response).nomem = false ∧
          (serializeRun memory response).insert =
            11 + response.statusLen +
              linesLength memory response.contentLenStr
                response.headers.nodes + 2
    | none => (serializeRun memory response).nomem = true := by
  have short := valid.short
  have most : statusStrMaxLen = 31 := rfl
  have size : ymoHttpSendBufSize = 1024 := rfl
  have ready :
      (putStatusLine response.statusLen HeadRun.start).Ready
        (ymoHttpSendBufSize - (11 + response.statusLen)) :=
    HeadRun.ready_start.putStatusLine (by omega)
  have follows :=
    putHeaders_follows memory response.contentLenStr ready
      response.headers.nodes
  rw [serializeHead_eq valid, serializeRun]
  split
  next head found =>
    split at found
    next fits =>
      have lined := follows.1 (by omega)
      have ended := lined.putLineEnd (by omega)
      have position := ended.position
      exact ⟨ended.goesOn, by omega⟩
    next long => nomatch found
  next missing =>
    split at missing
    next fits => nomatch missing
    next long =>
      rcases Nat.lt_or_ge
          (ymoHttpSendBufSize - (11 + response.statusLen))
          (linesLength memory response.contentLenStr
            response.headers.nodes) with more | less
      · have stopped := follows.2 more
        rw [HeadRun.putLineEnd_of_nomem stopped]
        exact stopped
      · exact ((follows.1 less).putLineEnd_stops (by omega)).nomem

theorem mustBuffer_iff (memory : HdrMemory) (response : HttpResponse) :
    (shouldBufferBody memory response).1 = true ↔ MustBuffer response := by
  rw [shouldBufferBody]
  dsimp only
  split
  next set =>
    refine iff_of_false Bool.false_ne_true ?_
    rintro ⟨noContentLength, noTransferEncoding, _, _⟩
    rw [noContentLength, noTransferEncoding] at set
    nomatch set
  next unset =>
    have neither := Bool.or_eq_false_iff.mp (Bool.eq_false_iff.mpr unset)
    split
    next complete =>
      refine iff_of_false Bool.false_ne_true ?_
      rintro ⟨_, _, incomplete, _⟩
      rw [incomplete] at complete
      nomatch complete
    next incomplete =>
      split
      next chunked =>
        refine iff_of_false Bool.false_ne_true ?_
        rintro ⟨_, _, _, unchunked⟩
        rw [unchunked] at chunked
        nomatch chunked
      next unchunked =>
        refine iff_of_true rfl ?_
        exact
          ⟨Option.not_isSome_iff_eq_none.mp
              (Bool.eq_false_iff.mp neither.1),
            Option.not_isSome_iff_eq_none.mp (Bool.eq_false_iff.mp neither.2),
            Bool.eq_false_iff.mpr incomplete,
            Bool.eq_false_iff.mpr unchunked⟩

section

variable {memory : HdrMemory} {response : HttpResponse}

theorem ValidStatus.absent (valid : ValidStatus response) :
    ¬(response.statusStr = [] ∨ response.statusLen = 0) := by
  rintro (empty | zero)
  · exact valid.present empty
  · rw [valid.length] at zero
    exact valid.present (List.length_eq_zero_iff.mp zero)

/-- A head that is not held back is in the bucket, or does not fit. -/
theorem start_outcome (valid : ValidStatus response)
    (decided : ¬MustBuffer response) :
    (ymoHttpResponseStart memory response).1 =
        .bucket
          (Bucket.fresh
            (headBytes memory (shouldBufferBody memory response).2)) ∨
      (ymoHttpResponseStart memory response).1 = .null (.err .enomem) := by
  have serializes : ¬(shouldBufferBody memory response).1 = true :=
    fun buffers => decided ((mustBuffer_iff memory response).mp buffers)
  rw [ymoHttpResponseStart, if_neg valid.absent]
  dsimp only
  rw [if_neg serializes, serializeHead_eq (valid.decided memory).1]
  split
  next head found =>
    split at found
    · rw [← Option.some.inj found]
      exact Or.inl rfl
    · nomatch found
  next missing => exact Or.inr rfl

/-- A response that is held back is neither serialized nor refused. -/
theorem start_buffers (valid : ValidStatus response)
    (buffers : MustBuffer response) :
    (ymoHttpResponseStart memory response).1 = .null .okay := by
  rw [ymoHttpResponseStart, if_neg valid.absent]
  dsimp only
  rw [if_pos ((mustBuffer_iff memory response).mpr buffers)]

theorem safe_headRun_iff (valid : ValidStatus response)
    (decided : ¬MustBuffer response) :
    (headRun memory response).Safe ↔ ¬Overruns memory response := by
  have serializes : ¬(shouldBufferBody memory response).1 = true :=
    fun buffers => decided ((mustBuffer_iff memory response).mp buffers)
  have short := valid.short
  have most : statusStrMaxLen = 31 := rfl
  have size : ymoHttpSendBufSize = 1024 := rfl
  rw [headRun, if_neg valid.absent]
  dsimp only
  rw [if_neg serializes, serializeRun, (valid.decided memory).2]
  exact safe_putHeaders (HeadRun.ready_start.putStatusLine (by omega))

end

/-! ## Responses that overrun the buffer -/

/-- Memory that no header of the responses below leads to. -/
def noMemory : HdrMemory where
  recvBuf _ := 0
  workspace _ := 0

/-- A finished response without headers. -/
def plainResponse : HttpResponse :=
  ymoHttpResponseFinish (ymoHttpResponseSetStatus ymoHttpResponseCreate 200)

/-- A finished response whose cookie leaves 14 bytes of the buffer. -/
def cookieResponse : HttpResponse :=
  ymoHttpResponseFinish
    (ymoHttpResponseInsertHeader noMemory
      (ymoHttpResponseSetStatus ymoHttpResponseCreate 200)
      (.literal (bytes "Set-Cookie"))
      (.literal (List.replicate 979 97)))

/-- The cookie leaves no room for `Content-Length` and the two bytes behind it,
and `remain` is -2 when it bounds the copy of the value. -/
theorem cookie_overruns :
    ValidStatus cookieResponse ∧
      ¬MustBuffer cookieResponse ∧
      (1024, 1) ∈ (headRun noMemory cookieResponse).stores ∧
      -2 ∈ (headRun noMemory cookieResponse).bounds ∧
      ¬SerializesSafely noMemory cookieResponse := by
  have bound : -2 ∈ (headRun noMemory cookieResponse).bounds := by
    decide +kernel
  refine
    ⟨⟨by decide +kernel, by decide +kernel, by decide +kernel⟩, ?_,
      by decide +kernel, bound, ?_⟩
  · rintro ⟨_, _, incomplete, _⟩
    nomatch incomplete
  · intro safely
    exact absurd (safely.safe.bounded (-2) bound) (by decide)

/--
The head is serialized as it should be exactly when the response is not held
back and no name is wrongly admitted.
-/
theorem serializes_safely_iff {memory : HdrMemory} {response : HttpResponse}
    (valid : ValidStatus response) :
    SerializesSafely memory response ↔
      ¬MustBuffer response ∧ ¬Overruns memory response := by
  constructor
  · rintro ⟨outcome, safe⟩
    have decided : ¬MustBuffer response := by
      intro buffers
      rw [start_buffers valid buffers] at outcome
      rcases outcome with bucket | enomem
      · nomatch bucket
      · nomatch enomem
    exact ⟨decided, (safe_headRun_iff valid decided).mp safe⟩
  · rintro ⟨decided, right⟩
    exact
      ⟨start_outcome valid decided, (safe_headRun_iff valid decided).mpr right⟩

/-- A response with no header but its length. -/
theorem plain_serializes_safely : SerializesSafely noMemory plainResponse := by
  have valid : ValidStatus plainResponse :=
    ⟨by decide +kernel, by decide +kernel, by decide +kernel⟩
  have nodes :
      (shouldBufferBody noMemory plainResponse).2.headers.nodes =
        [{ hId := ymoHttpHidContentLength
           hdr := .literal (bytes "Content-Length")
           hdrLen := 14
           value := .contentLenStr
           buffer := none }] := by
    decide +kernel
  refine (serializes_safely_iff valid).mpr ⟨?_, ?_⟩
  · rintro ⟨_, _, incomplete, _⟩
    nomatch incomplete
  · show ¬OverrunsFrom noMemory _ _ _
    rw [nodes, overrunsFrom_cons]
    rintro (⟨tooLong, _⟩ | ⟨_, later⟩)
    · exact absurd tooLong (by decide +kernel)
    · exact overrunsFrom_nil later

end Yimmo.Http.HeadSpace
