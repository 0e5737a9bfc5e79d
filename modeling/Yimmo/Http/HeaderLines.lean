import Mathlib.Data.List.TakeWhile
import Yimmo.Http.HeaderMap
import Yimmo.Http.Parse

/-!
# Header lines

What `http_header_got_value` makes of a header line, and of a list of lines:
the flags, the content length, and what the table maps a header id to.  The
name and the value of a line were stored in the receive buffer, each with a
zero byte behind it; the table points to them there.

The accounting of `remain` is not part of a line here.
-/

namespace Yimmo.Http.HeaderLines

open Yimmo.Lib.ByteMemory
open Yimmo.Http.Headers
open Yimmo.Http.HeaderMap
open Yimmo.Http.Exchange
open Yimmo.Http.Parse

/-- A complete header line, as the parser takes it apart. -/
structure HeaderLine where
  name : Bytes
  value : Bytes
  tokens : ∀ c ∈ name, isHttpHdrFieldToken c = true
  noReturn : cr ∉ value
deriving DecidableEq

/-- `Transfer-Encoding: chunked`. -/
def chunkedLine : HeaderLine where
  name := bytes "Transfer-Encoding"
  value := bytes "chunked"
  tokens := by decide
  noReturn := by decide

/-- The id of the line's name. -/
def HeaderLine.hId (line : HeaderLine) : HdrId :=
  ymoHttpHdrHash line.name

/-- The bytes that are stored for a line. -/
def HeaderLine.stored (line : HeaderLine) : Bytes :=
  (line.name ++ [0]) ++ (line.value ++ [0])

/-- The exchange when a header line was stored. -/
def headerStored (exchange : HttpExchange) (line : HeaderLine) :
    HttpExchange :=
  let start := exchange.recvCurrent
  { exchange with
    recvBuf := storeAll exchange.recvBuf start line.stored
    recvCurrent := start + line.stored.length
    hdrName := some start
    hdrValue := some (start + line.name.length + 1)
    hId := line.name.foldl ymoHdrHashCh ymoHttpHdrHashInit }

/-- The exchange when the line has gone through `http_header_got_value`. -/
def gotHeader (stray : Bytes) (exchange : HttpExchange) (line : HeaderLine) :
    HttpExchange :=
  let stored := headerStored exchange line
  httpHeaderGotValue stray stored stored.cursor

/-- The exchange after a list of lines. -/
def gotHeaders (stray : Bytes) (exchange : HttpExchange)
    (lines : List HeaderLine) :
    HttpExchange :=
  lines.foldl (gotHeader stray) exchange

/-! ## The flags and the length -/

/-- The flags after a header. -/
def headerFlags (hId : HdrId) (value : Bytes) (flags : HttpFlags) :
    HttpFlags :=
  if hId = ymoHttpHidConnection then
    if flags.version11 then
      if ymoStrcaseEqual value (bytes "close") then flags.requestClose
      else flags
    else if ymoStrcaseEqual value (bytes "keep-alive") then
      { flags with requestKeepalive := true }
    else flags
  else if hId = ymoHttpHidExpect then
    if ymoStrcaseEqual value (bytes "100-continue") then
      { flags with expect := true }
    else flags
  else if hId = ymoHttpHidUpgrade then { flags with upgrade := true }
  else if hId = ymoHttpHidTransferEncoding then
    if ymoStrcaseEqual value (bytes "chunked") then
      { flags with requestChunked := true }
    else flags
  else flags

theorem version_headerFlags (hId : HdrId) (value : Bytes) (flags : HttpFlags) :
    (headerFlags hId value flags).version11 = flags.version11 := by
  unfold headerFlags
  split_ifs <;> rfl

/-- The content length after a header. -/
def headerLength (hId : HdrId) (string : Bytes) (length : Nat) : Nat :=
  if hId = ymoHttpHidContentLength then
    if (strtol string).2 = [] then sizeOfLong (strtol string).1
    else length
  else length

theorem noteHeader_eq (request : HttpRequest) (hId : HdrId)
    (value string : Bytes) :
    noteHeader request hId value string =
      { request with
        flags := headerFlags hId value request.flags
        contentLength := headerLength hId string request.contentLength } := by
  unfold noteHeader headerFlags headerLength
  dsimp only
  by_cases connection : hId = ymoHttpHidConnection
  · have other : hId ≠ ymoHttpHidContentLength := by
      rw [connection]
      decide
    rw [if_pos connection, if_pos connection, if_neg other]
    split_ifs <;> rfl
  rw [if_neg connection, if_neg connection]
  by_cases contentLength : hId = ymoHttpHidContentLength
  · rw [if_pos contentLength, if_pos contentLength, contentLength]
    split_ifs <;> first | rfl | contradiction
  rw [if_neg contentLength, if_neg contentLength]
  split_ifs <;> rfl

section Line

variable
    (stray : Bytes)
    (exchange : HttpExchange)
    (line : HeaderLine)

theorem holds_headerStored :
    Holds (headerStored exchange line).recvBuf exchange.recvCurrent
      line.stored :=
  holds_storeAll _ _ _

theorem terminated_name :
    Terminated (headerStored exchange line).recvBuf
      (headerStored exchange line).recvCurrent exchange.recvCurrent
      line.name := by
  refine ⟨(holds_append.mp (holds_headerStored exchange line)).1, ?_⟩
  show
    exchange.recvCurrent + line.name.length <
      exchange.recvCurrent + line.stored.length
  unfold HeaderLine.stored
  simp only [List.length_append, List.length_singleton]
  omega

theorem terminated_value :
    Terminated (headerStored exchange line).recvBuf
      (headerStored exchange line).recvCurrent
      (exchange.recvCurrent + line.name.length + 1) line.value := by
  have holds := (holds_append.mp (holds_headerStored exchange line)).2
  rw [List.length_append, List.length_singleton, ← Nat.add_assoc] at holds
  refine ⟨holds, ?_⟩
  show
    exchange.recvCurrent + line.name.length + 1 + line.value.length <
      exchange.recvCurrent + line.stored.length
  unfold HeaderLine.stored
  simp only [List.length_append, List.length_singleton]
  omega

/-- What reads the strings of a line after it was stored. -/
def readStored : Nat → Bytes :=
  readString (headerStored exchange line).recvBuf
    (headerStored exchange line).recvCurrent

theorem cString_name : cString line.name = line.name := by
  apply cString_of_not_mem
  intro member
  cases line.tokens 0 member

theorem readStored_name :
    readStored exchange line exchange.recvCurrent = line.name := by
  unfold readStored
  rw [(terminated_name exchange line).readString, cString_name]

theorem readStored_value :
    readStored exchange line
        (exchange.recvCurrent + line.name.length + 1) =
      cString line.value := by
  unfold readStored
  exact (terminated_value exchange line).readString

/-- The request after a line. -/
theorem request_gotHeader :
    (gotHeader stray exchange line).request =
      { exchange.request with
        headers :=
          ymoHttpHdrTableAddPrecompute (readStored exchange line)
            stray exchange.request.headers line.hId
            exchange.recvCurrent line.name.length
            (exchange.recvCurrent + line.name.length + 1)
        flags := headerFlags line.hId line.value exchange.request.flags
        contentLength :=
          headerLength line.hId (cString line.value)
            exchange.request.contentLength } := by
  have valueLen :
      exchange.recvCurrent + line.stored.length -
            (exchange.recvCurrent + line.name.length + 1) -
          1 =
        line.value.length := by
    unfold HeaderLine.stored
    simp only [List.length_append, List.length_singleton]
    omega
  have nameLen :
      exchange.recvCurrent + line.name.length + 1 -
            exchange.recvCurrent -
          1 =
        line.name.length := by
    omega
  have value :
      bytesAt (storeAll exchange.recvBuf exchange.recvCurrent line.stored)
          (exchange.recvCurrent + line.name.length + 1)
          line.value.length =
        line.value :=
    (holds_append.mp (terminated_value exchange line).holds).1.bytesAt
  have string := readStored_value exchange line
  unfold readStored headerStored at string
  unfold gotHeader httpHeaderGotValue readStored headerStored
    HttpExchange.cursor HeaderLine.hId ymoHttpHdrHash
  dsimp only at string ⊢
  rw [Option.getD_some, Option.getD_some, valueLen, nameLen, value,
    string, noteHeader_eq]

theorem flags_gotHeader :
    (gotHeader stray exchange line).request.flags =
      headerFlags line.hId line.value exchange.request.flags := by
  rw [request_gotHeader]

theorem contentLength_gotHeader :
    (gotHeader stray exchange line).request.contentLength =
      headerLength line.hId (cString line.value)
        exchange.request.contentLength := by
  rw [request_gotHeader]

end Line

/-- A line with the id of `Connection` and the value `close`. -/
def isClose (line : HeaderLine) : Bool :=
  line.hId == ymoHttpHidConnection &&
    ymoStrcaseEqual line.value (bytes "close")

/-- A line with the id of `Transfer-Encoding` and the value `chunked`. -/
def isChunked (line : HeaderLine) : Bool :=
  line.hId == ymoHttpHidTransferEncoding &&
    ymoStrcaseEqual line.value (bytes "chunked")

theorem isClose_iff {line : HeaderLine} :
    isClose line = true ↔
      line.hId = ymoHttpHidConnection ∧
        ymoStrcaseEqual line.value (bytes "close") = true := by
  rw [isClose, Bool.and_eq_true, beq_iff_eq]

theorem isChunked_iff {line : HeaderLine} :
    isChunked line = true ↔
      line.hId = ymoHttpHidTransferEncoding ∧
        ymoStrcaseEqual line.value (bytes "chunked") = true := by
  rw [isChunked, Bool.and_eq_true, beq_iff_eq]

/-- The flags after a list of lines. -/
def linesFlags (flags : HttpFlags) (lines : List HeaderLine) : HttpFlags :=
  lines.foldl (fun flags line => headerFlags line.hId line.value flags) flags

/-- The content length after a list of lines. -/
def lengthAfter (length : Nat) (lines : List HeaderLine) : Nat :=
  lines.foldl
    (fun length line => headerLength line.hId (cString line.value) length)
    length

theorem flags_gotHeaders (stray : Bytes) (exchange : HttpExchange)
    (lines : List HeaderLine) :
    (gotHeaders stray exchange lines).request.flags =
      linesFlags exchange.request.flags lines := by
  induction lines generalizing exchange with
  | nil => rfl
  | cons line lines ih =>
      rw [gotHeaders, List.foldl_cons, ← gotHeaders, ih, flags_gotHeader]
      rfl

theorem contentLength_gotHeaders (stray : Bytes) (exchange : HttpExchange)
    (lines : List HeaderLine) :
    (gotHeaders stray exchange lines).request.contentLength =
      lengthAfter exchange.request.contentLength lines := by
  induction lines generalizing exchange with
  | nil => rfl
  | cons line lines ih =>
      rw [gotHeaders, List.foldl_cons, ← gotHeaders,
        ih, contentLength_gotHeader]
      rfl

/-! ## The table -/

/-- The name and the value that the table has under an id. -/
def contents (exchange : HttpExchange) (hId : HdrId) :
    Option (Bytes × Bytes) :=
  let read := readString exchange.recvBuf exchange.recvCurrent
  (ymoHttpHdrTableGetId exchange.request.headers hId).map fun node =>
    (read node.hdr, node.string read)

/-- The strings of a node are stored below the write cursor. -/
structure NodeKept
    (exchange : HttpExchange)
    (node : HdrNode Nat) : Prop where
  hdr : ∃ name, Terminated exchange.recvBuf exchange.recvCurrent node.hdr name
  value :
    ∃ value, Terminated exchange.recvBuf exchange.recvCurrent node.value value

/-- So are all that can be found in the table. -/
def Kept (exchange : HttpExchange) : Prop :=
  ∀ hId, ∀ node ∈ ymoHttpHdrTableGetId exchange.request.headers hId,
    NodeKept exchange node

theorem kept_of_clear {exchange : HttpExchange}
    (cleared : exchange.request.headers = ymoHttpHdrTableClear) :
    Kept exchange := by
  intro hId node found
  rw [cleared] at found
  cases found

/-- A repeated header is joined to what is there. -/
def joinedContents (line : HeaderLine) :
    Option (Bytes × Bytes) → Bytes × Bytes
  | none => (line.name, cString line.value)
  | some (name, value) => (name, value ++ [44] ++ cString line.value)

section Table

variable
    {stray : Bytes}
    {exchange : HttpExchange}
    {line : HeaderLine}

theorem agree_headerStored :
    ∀ offset,
      offset < exchange.recvCurrent →
        (headerStored exchange line).recvBuf offset =
          exchange.recvBuf offset := by
  intro offset below
  exact storeAll_outside _ _ _ (Or.inl below)

theorem le_headerStored :
    exchange.recvCurrent ≤ (headerStored exchange line).recvCurrent :=
  Nat.le_add_right _ _

theorem NodeKept.later {node : HdrNode Nat} (kept : NodeKept exchange node) :
    NodeKept (gotHeader stray exchange line) node := by
  rcases kept with ⟨⟨name, hdr⟩, ⟨string, value⟩⟩
  exact
    ⟨⟨name, hdr.later agree_headerStored le_headerStored⟩,
      ⟨string, value.later agree_headerStored le_headerStored⟩⟩

theorem NodeKept.read {node : HdrNode Nat} (kept : NodeKept exchange node) :
    readStored exchange line node.hdr =
        readString exchange.recvBuf exchange.recvCurrent node.hdr ∧
      readStored exchange line node.value =
        readString exchange.recvBuf exchange.recvCurrent node.value := by
  rcases kept with ⟨⟨name, hdr⟩, ⟨string, value⟩⟩
  exact
    ⟨hdr.readString_later agree_headerStored le_headerStored,
      value.readString_later agree_headerStored le_headerStored⟩

/-- What stands for a node does not change while others are stored. -/
theorem NodeKept.string {node : HdrNode Nat} (kept : NodeKept exchange node) :
    node.string (readStored exchange line) =
      node.string (readString exchange.recvBuf exchange.recvCurrent) := by
  unfold HdrNode.string
  split
  · rfl
  · exact kept.read.2

/-- What is found after a line. -/
theorem getId_gotHeader (hId : HdrId) :
    ymoHttpHdrTableGetId
        (gotHeader stray exchange line).request.headers hId =
      if hId = line.hId then
        some
          (((ymoHttpHdrTableGetId exchange.request.headers
              line.hId).map
            (joinValue (readStored exchange line) stray
              (exchange.recvCurrent + line.name.length + 1))).getD
            { hId := line.hId
              hdr := exchange.recvCurrent
              hdrLen := line.name.length
              value := exchange.recvCurrent + line.name.length + 1
              buffer := none })
      else ymoHttpHdrTableGetId exchange.request.headers hId := by
  rw [request_gotHeader]
  exact
    getId_upsert exchange.request.headers (hId_joinValue _ _ _)
      { hId := line.hId
        hdr := exchange.recvCurrent
        hdrLen := line.name.length
        value := exchange.recvCurrent + line.name.length + 1
        buffer := none }
      hId

theorem Kept.gotHeader (kept : Kept exchange) :
    Kept (gotHeader stray exchange line) := by
  intro hId node found
  rw [getId_gotHeader] at found
  split at found
  · rw [Option.mem_some_iff] at found
    cases first : ymoHttpHdrTableGetId exchange.request.headers line.hId with
    | none =>
        rw [first] at found
        rw [← found]
        exact
          ⟨⟨line.name, terminated_name exchange line⟩,
            ⟨line.value, terminated_value exchange line⟩⟩
    | some before =>
        rw [first] at found
        have same : NodeKept exchange node := by
          have old := kept line.hId before first
          rw [← found]
          show NodeKept exchange (joinValue _ _ _ before)
          unfold joinValue
          split
          · exact ⟨old.hdr, old.value⟩
          · exact ⟨old.hdr, old.value⟩
        exact same.later
  · exact (kept hId node found).later

/-- The table after a line, if nothing is left stray. -/
theorem contents_gotHeader
    (kept : Kept exchange)
    (plain :
      ∀ node ∈ ymoHttpHdrTableGetId exchange.request.headers line.hId,
        node.buffer = none ∨ stray = []) :
    contents (gotHeader stray exchange line) =
      Function.update (contents exchange) line.hId
        (some (joinedContents line (contents exchange line.hId))) := by
  funext hId
  have read :
      readString (gotHeader stray exchange line).recvBuf
          (gotHeader stray exchange line).recvCurrent =
        readStored exchange line :=
    rfl
  unfold contents
  rw [read, getId_gotHeader]
  by_cases here : hId = line.hId
  · rw [if_pos here, here, Function.update_self, Option.map_some]
    cases first : ymoHttpHdrTableGetId exchange.request.headers line.hId with
    | none =>
        show some (_, _) = some (_, _)
        rw [Option.map_none, Option.getD_none, readStored_name]
        unfold HdrNode.string
        dsimp only
        rw [readStored_value]
    | some before =>
        have old := kept line.hId before first
        rw [Option.map_some, Option.getD_some, Option.map_some]
        unfold joinedContents
        dsimp only
        have string :
            before.string (readStored exchange line) =
              before.string
                (readString exchange.recvBuf exchange.recvCurrent) :=
          old.string
        unfold joinValue
        cases buffer : before.buffer with
        | none =>
            unfold HdrNode.string at string ⊢
            rw [buffer] at string ⊢
            dsimp only at string ⊢
            rw [string, old.read.1, readStored_value]
        | some joined =>
            rcases plain before first with none | ended
            · rw [buffer] at none
              cases none
            · unfold HdrNode.string
              rw [buffer]
              dsimp only
              rw [old.read.1, readStored_value, ended, List.append_nil]
  · rw [if_neg here, Function.update_of_ne here]
    cases first : ymoHttpHdrTableGetId exchange.request.headers hId with
    | none => rfl
    | some node =>
        have old := kept hId node first
        rw [Option.map_some, Option.map_some, old.read.1, old.string]

end Table

end Yimmo.Http.HeaderLines
