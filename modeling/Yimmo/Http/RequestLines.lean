import Yimmo.Http.ReceiveSpace
import Yimmo.Http.Reader
import Yimmo.Http.ChunkedCoding

/-!
# The request line

The request line parser and `ymo_parse_http_crlf` after it, on a line that is
given to them at once, compared with the grammar of a request line.

What the parser accepts is determined exactly.  It stores every item of the line
with a zero byte behind it and points to it; a line of the grammar is always
accepted.  It does not check that the method and the target are there, that the
target has no line end, or more of the version than two of its digits; and a
line that ends in its target is not refused: the parser waits for more.
-/

namespace Yimmo.Http.RequestLines

open Yimmo.Core.StatusCode
open Yimmo.Lib.ByteMemory
open Yimmo.Http.Headers
open Yimmo.Http.Exchange
open Yimmo.Http.Parse
open Yimmo.Http.Application
open Yimmo.Http.ChunkedCoding
open Yimmo.Http.ReceiveSpace

variable {item : Bytes}

/-! ## The grammar -/

/-- What stands between the first `?` and the next `#`. -/
def Target.query (target : Target) : Option Bytes :=
  if target.extra.head? = some question then
    some (target.extra.tail.takeWhile (· != hash))
  else none

/-- What follows the first `#`. -/
def Target.fragment (target : Target) : Option Bytes :=
  match target.extra.dropWhile (· != hash) with
  | [] => none
  | _ :: fragment => some fragment

/-- A request line of the grammar, among the lines the parser accepts. -/
structure Standard (line : RequestLine) : Prop where
  method : line.target.method ≠ []
  target : line.target.path ++ line.target.extra ≠ []
  noReturn : cr ∉ line.target.path ++ line.target.extra
  noFeed : lf ∉ line.target.path ++ line.target.extra
  version : line.version = bytes "HTTP/1.0" ∨ line.version = bytes "HTTP/1.1"

/-- The bytes are a request line of the grammar and its `CRLF`. -/
def InGrammar (data : Bytes) : Prop :=
  ∃ line : RequestLine, Standard line ∧ data = line.bytes ++ crlf

/-- The bytes are a line: they end with their first `CRLF`. -/
def IsLine (data : Bytes) : Prop :=
  ∃ content, data = content ++ crlf ∧ ¬ crlf <:+: content ++ [cr]

/-! ## Reading a line -/

/-- An exchange that is about to read its request line. -/
def lineStart (exchange : HttpExchange) : HttpExchange :=
  { ymoHttpExchangeReset exchange with state := .requestMethod }

/-- The request line parser, and the end of the line if it gets there. -/
def readLine (exchange : HttpExchange) (data : Bytes) : Parsed :=
  match ymoParseHttpRequestLine (lineStart exchange) data with
  | .took count read =>
      if read.state = .crlf ∧ count < data.length then
        match ymoParseHttpCrlf read (data.drop count) with
        | .took more after => .took (count + more) after
        | stopped => stopped
      else .took count read
  | stopped => stopped

/-- The bytes are accepted as one line, after which headers are read. -/
def Accepts (exchange : HttpExchange) (data : Bytes)
    (after : HttpExchange) : Prop :=
  readLine exchange data = .took data.length after ∧ after.state = .headerName

/-- The bytes are refused with an error. -/
def Refuses (exchange : HttpExchange) (data : Bytes) : Prop :=
  ∃ errno after, readLine exchange data = .failed errno after

/-- The strings of the request are the parts of the line. -/
structure PartsOf
    (line : RequestLine)
    (view : RequestView) : Prop where
  method : view.method = some line.target.method
  uri : view.uri = some line.target.path
  query : view.query = Target.query line.target
  fragment : view.fragment = Target.fragment line.target
  version : view.version = some line.version

/-- The request is the line: its strings, and the flags of its version. -/
structure RequestIs
    (line : RequestLine)
    (view : RequestView) : Prop where
  parts : PartsOf line view
  version11 : view.flags.version11 = decide (line.version = bytes "HTTP/1.1")
  supportsChunked :
    view.flags.supportsChunked = decide (line.version = bytes "HTTP/1.1")
  requestKeepalive :
    view.flags.requestKeepalive = decide (line.version = bytes "HTTP/1.1")

/--
The bytes are read as they should: accepted as one line exactly if they are in
the grammar, with the parts of the line, and refused if they are another line.
-/
structure ReadRight
    (exchange : HttpExchange)
    (data : Bytes) : Prop where
  accepted : (∃ after, Accepts exchange data after) ↔ InGrammar data
  parts :
    ∀ after, Accepts exchange data after →
      ∃ line, data = line.bytes ++ crlf ∧ Standard line ∧
        RequestIs line (viewOf after)
  refused : IsLine data → ¬ InGrammar data → Refuses exchange data

/-! ## Storing the items -/

/-- The cursor when the bytes have been stored in an empty buffer. -/
def storedCursor (memory : Memory) (stored : Bytes) : Cursor where
  recvCurrent := stored.length
  remain := ymoHttpRecvBufSize - stored.length
  recvBuf := storeAll memory 0 stored
  high := stored.length
  wrapped := false

/-- An item and the zero byte behind it. -/
def closed (item : Bytes) : Bytes :=
  item ++ [0]

@[simp]
theorem length_closed (item : Bytes) :
    (closed item).length = item.length + 1 := by
  rw [closed, List.length_append, List.length_singleton]

/-- The item is stored where the pointer points, with a zero byte behind it. -/
def PointsTo (stored : Bytes) (pointer : Option Nat) (item : Bytes) : Prop :=
  ∃ front back,
    stored = front ++ closed item ++ back ∧ pointer = some front.length

/-- The pointer to an item that may be absent. -/
def MayPointTo (stored : Bytes) (pointer : Option Nat) :
    Option Bytes → Prop
  | none => pointer = none
  | some item => PointsTo stored pointer item

section Stored

variable
    {memory : Memory}
    {stored : Bytes}
    {pointer : Option Nat}

theorem PointsTo.append (points : PointsTo stored pointer item)
    (more : Bytes) :
    PointsTo (stored ++ more) pointer item := by
  rcases points with ⟨front, back, split, here⟩
  exact ⟨front, back ++ more, by rw [split, List.append_assoc], here⟩

theorem MayPointTo.append {item : Option Bytes}
    (points : MayPointTo stored pointer item)
    (more : Bytes) :
    MayPointTo (stored ++ more) pointer item := by
  cases item with
  | none => exact points
  | some item => exact PointsTo.append points more

/-- The pointer to an item behind what was stored. -/
theorem pointsTo_end (stored item : Bytes) :
    PointsTo (stored ++ closed item) (some stored.length) item :=
  ⟨stored, [], (List.append_nil _).symm, rfl⟩

theorem mayPointTo_end (stored item : Bytes) :
    MayPointTo (stored ++ closed item) (some stored.length) (some item) :=
  pointsTo_end stored item

/-- The string an item is read as. -/
theorem PointsTo.read (points : PointsTo stored pointer item)
    (noZero : 0 ∉ item) :
    pointer.map
        (readString (storeAll memory 0 stored) stored.length) =
      some item := by
  rcases points with ⟨front, back, split, rfl⟩
  have holds := holds_storeAll memory 0 stored
  rw [split, List.append_assoc, holds_append, holds_append,
    Nat.zero_add, closed] at holds
  have terminated :
      Terminated (storeAll memory 0 stored) stored.length front.length
        item := by
    refine ⟨?_, ?_⟩
    · rw [split, List.append_assoc, closed]
      exact holds.2.1
    · rw [split]
      simp only [List.length_append, length_closed]
      omega
  rw [Option.map_some, terminated.readString, cString_of_not_mem noZero]

theorem put_storedCursor (memory : Memory) (stored : Bytes) (c : UInt8) :
    (storedCursor memory stored).put c =
      { storedCursor memory (stored ++ [c]) with
        remain := ymoHttpRecvBufSize - stored.length } := by
  unfold storedCursor Cursor.put
  dsimp only
  rw [storeAll_append, List.length_append, List.length_singleton,
    Nat.max_eq_right (Nat.le_succ _), Nat.zero_add]
  rfl

theorem decr_put_storedCursor (room : stored.length < ymoHttpRecvBufSize)
    (c : UInt8) :
    ((storedCursor memory stored).put c).decr =
      storedCursor memory (stored ++ [c]) := by
  rw [put_storedCursor]
  unfold Cursor.decr
  dsimp only
  rw [if_neg (by omega)]
  unfold storedCursor
  dsimp only
  rw [List.length_append, List.length_singleton, Nat.sub_sub]

end Stored

/-! ## The loop, unrolled -/

section Loop

variable
    {memory : Memory}
    {exchange : HttpExchange}
    {stored : Bytes}

/-- A byte of an item is stored as it is, a separator as a zero byte. -/
theorem loop_byte {later : HttpExchange} {c byte : UInt8}
    (step :
      requestLineByte exchange (storedCursor memory stored) c =
        .more later ((storedCursor memory stored).put byte).decr)
    (room : stored.length + 1 < ymoHttpRecvBufSize)
    (count : Nat)
    (rest : Bytes) :
    requestLineLoop exchange (storedCursor memory stored) count
        (c :: rest) =
      requestLineLoop later (storedCursor memory (stored ++ [byte]))
        (count + 1) rest := by
  have left : (storedCursor memory (stored ++ [byte])).remain ≠ 0 := by
    show ymoHttpRecvBufSize - (stored ++ [byte]).length ≠ 0
    rw [List.length_append, List.length_singleton]
    omega
  rw [requestLineLoop, step, decr_put_storedCursor (by omega)]
  dsimp only
  rw [if_neg left]

/-- The bytes of an item are stored one by one. -/
theorem loop_item
    (step :
      ∀ cursor, ∀ c ∈ item,
        requestLineByte exchange cursor c = .more exchange (cursor.put c).decr)
    (room : stored.length + item.length < ymoHttpRecvBufSize)
    (count : Nat)
    (rest : Bytes) :
    requestLineLoop exchange (storedCursor memory stored) count
        (item ++ rest) =
      requestLineLoop exchange (storedCursor memory (stored ++ item))
        (count + item.length) rest := by
  induction item generalizing stored count with
  | nil =>
      rw [List.append_nil]
      rfl
  | cons c item ih =>
      rw [List.length_cons] at room
      have later :
          ∀ cursor, ∀ other ∈ item,
            requestLineByte exchange cursor other =
              .more exchange (cursor.put other).decr :=
        fun cursor other member =>
          step cursor other (List.mem_cons_of_mem c member)
      have roomLater :
          (stored ++ [c]).length + item.length < ymoHttpRecvBufSize := by
        rw [List.length_append, List.length_singleton]
        omega
      rw [List.cons_append,
        loop_byte (step _ c List.mem_cons_self) (by omega),
        ih later roomLater, List.append_assoc,
        List.length_cons, Nat.add_assoc, Nat.add_comm 1]
      rfl

end Loop

/-! ## The bytes of an item -/

/-- The byte belongs to the item that is read in the state. -/
def Plain : HttpState → UInt8 → Prop
  | .requestMethod, c => isHttpMethodToken c = true
  | .requestUriPath, c => c ≠ question ∧ c ≠ hash ∧ c ≠ space
  | .requestQuery, c => c ≠ hash ∧ c ≠ space
  | .requestFragment, c => c ≠ space
  | .requestVersion, c => c ≠ cr
  | _, _ => False

/-- The byte ends the item of a state: which pointers are set, and the state of
the next item. -/
inductive Separates :
    HttpState → UInt8 → (HttpRequest → Option Nat → HttpRequest) →
      HttpState → Prop where
  | method :
      Separates .requestMethod space
        (fun request next => { request with uri := next })
        .requestUriPath
  | pathQuestion :
      Separates .requestUriPath question
        (fun request next => { request with query := next })
        .requestQuery
  | pathHash :
      Separates .requestUriPath hash
        (fun request next => { request with query := none, fragment := next })
        .requestFragment
  | pathSpace :
      Separates .requestUriPath space
        (fun request next =>
          { request with query := none, fragment := none, version := next })
        .requestVersion
  | queryHash :
      Separates .requestQuery hash
        (fun request next => { request with fragment := next })
        .requestFragment
  | querySpace :
      Separates .requestQuery space
        (fun request next =>
          { request with fragment := none, version := next })
        .requestVersion
  | fragmentSpace :
      Separates .requestFragment space
        (fun request next => { request with version := next })
        .requestVersion

section Byte

variable
    {exchange : HttpExchange}
    {c : UInt8}

theorem byte_plain (plain : Plain exchange.state c) (cursor : Cursor) :
    requestLineByte exchange cursor c =
      .more exchange (cursor.put c).decr := by
  unfold requestLineByte
  cases state : exchange.state <;> rw [state] at plain
  case requestMethod => exact if_pos plain
  case requestUriPath =>
    dsimp only
    rw [if_neg plain.1, if_neg plain.2.1, if_neg plain.2.2]
    rfl
  case requestQuery =>
    dsimp only
    rw [if_neg plain.1, if_neg plain.2]
    rfl
  case requestFragment => exact if_pos plain
  case requestVersion => exact if_pos plain
  all_goals exact plain.elim

theorem byte_separator {note : HttpRequest → Option Nat → HttpRequest}
    {next : HttpState}
    (separates : Separates exchange.state c note next)
    (cursor : Cursor) :
    requestLineByte exchange cursor c =
      .more
        { exchange with
          request := note exchange.request (some (cursor.recvCurrent + 1))
          state := next }
        (cursor.put 0).decr := by
  generalize state : exchange.state = current at separates
  unfold requestLineByte
  rw [state]
  cases separates <;> rfl

/-- An item and the separator behind it. -/
theorem loop_part (memory : Memory) (stored item : Bytes)
    {current next : HttpState}
    {note : HttpRequest → Option Nat → HttpRequest}
    (state : exchange.state = current)
    (separates : Separates current c note next)
    (plain : ∀ other ∈ item, Plain current other)
    (room : stored.length + item.length + 1 < ymoHttpRecvBufSize)
    (count : Nat)
    (rest : Bytes) :
    requestLineLoop exchange (storedCursor memory stored) count
        (item ++ c :: rest) =
      requestLineLoop
        { exchange with
          request :=
            note exchange.request (some (stored ++ closed item).length)
          state := next }
        (storedCursor memory (stored ++ closed item))
        (count + (closed item).length) rest := by
  subst state
  have ordinary :
      ∀ cursor, ∀ other ∈ item,
        requestLineByte exchange cursor other =
          .more exchange (cursor.put other).decr :=
    fun cursor other member => byte_plain (plain other member) cursor
  have length : (stored ++ item).length + 1 < ymoHttpRecvBufSize := by
    rw [List.length_append]
    exact room
  have position :
      (storedCursor memory (stored ++ item)).recvCurrent + 1 =
        (stored ++ closed item).length := by
    rw [closed, ← List.append_assoc, List.length_append]
    rfl
  rw [loop_item ordinary (by omega),
    loop_byte (byte_separator separates _) length, position,
    List.append_assoc, Nat.add_assoc, length_closed]
  rfl

end Byte

/-! ## The target -/

/-- What follows the path: a query, a fragment, both or neither. -/
inductive Extra :
    Bytes → Option Bytes → Option Bytes → Prop where
  | neither : Extra [] none none
  | query
      {query : Bytes}
      (noHash : hash ∉ query) :
      Extra (question :: query) (some query) none
  | fragment
      (fragment : Bytes) :
      Extra (hash :: fragment) none (some fragment)
  | both
      {query : Bytes}
      (noHash : hash ∉ query)
      (fragment : Bytes) :
      Extra (question :: (query ++ hash :: fragment)) (some query)
        (some fragment)

theorem extra_of_target (target : Target) :
    Extra target.extra (Target.query target) (Target.fragment target) := by
  unfold Target.query Target.fragment
  have plain {data : Bytes} (noHash : hash ∉ data) :
      ∀ c ∈ data, (c != hash) = true := by
    intro c member
    rw [bne_iff_ne]
    rintro rfl
    exact noHash member
  rcases extra : target.extra with _ | ⟨marker, rest⟩
  · exact .neither
  · have marked := target.extra_marked
    rw [extra] at marked
    rcases marked with none | isQuestion | isFragment
    · cases none
    · cases isQuestion
      by_cases present : hash ∈ rest
      · rcases List.eq_append_cons_of_mem present with
          ⟨query, fragment, rfl, noHash⟩
        have front : ∀ c ∈ question :: query, (c != hash) = true := by
          intro c member
          rcases List.mem_cons.mp member with rfl | later
          · decide
          · exact plain noHash c later
        rw [List.head?_cons, if_pos rfl, List.tail_cons,
          List.takeWhile_append_of_pos (plain noHash), ← List.cons_append,
          List.dropWhile_append_of_pos front]
        simp [Extra.both noHash fragment]
      · have all : ∀ c ∈ question :: rest, (c != hash) = true := by
          intro c member
          rcases List.mem_cons.mp member with rfl | later
          · decide
          · exact plain present c later
        rw [List.head?_cons, if_pos rfl, List.tail_cons,
          List.takeWhile_eq_self_iff.mpr (plain present),
          List.dropWhile_eq_nil_iff.mpr all]
        exact .query present
    · cases isFragment
      have noQuery : some hash ≠ some question := by decide
      rw [List.head?_cons, if_neg noQuery]
      simp [Extra.fragment rest]

/-- The bytes of a query or a fragment are bytes of what follows the path. -/
theorem Extra.mem {extra : Bytes} {query fragment : Option Bytes}
    (shape : Extra extra query fragment)
    {data : Bytes}
    (part : data ∈ query ∨ data ∈ fragment)
    {c : UInt8}
    (member : c ∈ data) :
    c ∈ extra := by
  cases shape with
  | neither => rcases part with found | found <;> cases found
  | query noHash =>
      rcases part with found | found <;> cases found
      exact List.mem_cons_of_mem question member
  | fragment fragment =>
      rcases part with found | found <;> cases found
      exact List.mem_cons_of_mem hash member
  | both noHash fragment =>
      apply List.mem_cons_of_mem question
      rcases part with found | found <;> cases found
      · exact List.mem_append_left _ member
      · exact List.mem_append_right _ (List.mem_cons_of_mem hash member)

/-- The target was read: what the request points to, and the version next. -/
structure TargetRead
    (path : Bytes)
    (query fragment : Option Bytes)
    (stored : Bytes)
    (start : Nat)
    (before after : HttpExchange) : Prop where
  state : after.state = .requestVersion
  version : after.request.version = some stored.length
  method : after.request.method = before.request.method
  uri : after.request.uri = before.request.uri
  flags : after.request.flags = before.request.flags
  path : PointsTo stored (some start) path
  query : MayPointTo stored after.request.query query
  fragment : MayPointTo stored after.request.fragment fragment

section Target

variable
    {memory : Memory}
    {exchange : HttpExchange}
    {stored : Bytes}

/-- The rest of a target, from its path on, and the space behind it. -/
theorem loop_target
    (memory : Memory)
    (state : exchange.state = .requestUriPath)
    (target : Target)
    (room :
      stored.length + target.path.length + target.extra.length + 1 <
        ymoHttpRecvBufSize)
    (count : Nat)
    (rest : Bytes) :
    ∃ later after,
      requestLineLoop exchange (storedCursor memory stored) count
          (target.path ++ (target.extra ++ space :: rest)) =
        requestLineLoop after (storedCursor memory later)
          (count + (target.path.length + target.extra.length + 1))
          rest ∧
        later.length =
            stored.length + (target.path.length + target.extra.length + 1) ∧
          stored <+: later ∧
            TargetRead target.path (Target.query target)
              (Target.fragment target) later stored.length exchange
              after := by
  have path :
      ∀ {c next note} rest,
        Separates .requestUriPath c note next →
          requestLineLoop exchange (storedCursor memory stored) count
              (target.path ++ c :: rest) =
            requestLineLoop
              { exchange with
                request :=
                  note exchange.request
                    (some (stored ++ closed target.path).length)
                state := next }
              (storedCursor memory (stored ++ closed target.path))
              (count + (closed target.path).length) rest :=
    fun rest separates =>
      loop_part memory stored target.path state separates
        target.path_plain (by omega) count rest
  have pathAt := pointsTo_end stored target.path
  have plain := target.extra_plain
  have extra := extra_of_target target
  have length : (stored ++ closed target.path).length =
      stored.length + target.path.length + 1 := by
    rw [List.length_append, length_closed, Nat.add_assoc]
  generalize Target.query target = query at extra ⊢
  generalize Target.fragment target = fragment at extra ⊢
  generalize target.extra = tail at extra plain room ⊢
  cases extra with
  | neither =>
      have first := path rest .pathSpace
      rw [length_closed] at first
      refine ⟨_, _, first, length, List.prefix_append _ _, ?_⟩
      exact ⟨rfl, rfl, rfl, rfl, rfl, pathAt, rfl, rfl⟩
  | @query query noHash =>
      have plainQuery : ∀ c ∈ query, Plain .requestQuery c := by
        intro c member
        refine ⟨?_, plain c (List.mem_cons_of_mem question member)⟩
        rintro rfl
        exact noHash member
      have first := path (query ++ space :: rest) .pathQuestion
      rw [List.length_cons] at room
      rw [loop_part memory (stored ++ closed target.path) query rfl .querySpace
          plainQuery (by rw [length]; omega),
        Nat.add_assoc, length_closed, length_closed,
        show
          target.path.length + 1 + (query.length + 1) =
            target.path.length + (question :: query).length + 1 by
          rw [List.length_cons]; omega] at first
      refine ⟨_, _, first, ?_, ?_, ?_⟩
      · rw [List.length_append, length, length_closed, List.length_cons]
        omega
      · rw [List.append_assoc]
        exact List.prefix_append _ _
      · exact
          ⟨rfl, rfl, rfl, rfl, rfl, pathAt.append _, mayPointTo_end _ _, rfl⟩
  | fragment fragment =>
      have plainFragment : ∀ c ∈ fragment, Plain .requestFragment c :=
        fun c member => plain c (List.mem_cons_of_mem hash member)
      have first := path (fragment ++ space :: rest) .pathHash
      rw [List.length_cons] at room
      rw [loop_part memory (stored ++ closed target.path) fragment rfl
          .fragmentSpace plainFragment (by rw [length]; omega),
        Nat.add_assoc, length_closed, length_closed,
        show
          target.path.length + 1 + (fragment.length + 1) =
            target.path.length + (hash :: fragment).length + 1 by
          rw [List.length_cons]; omega] at first
      refine ⟨_, _, first, ?_, ?_, ?_⟩
      · rw [List.length_append, length, length_closed, List.length_cons]
        omega
      · rw [List.append_assoc]
        exact List.prefix_append _ _
      · exact
          ⟨rfl, rfl, rfl, rfl, rfl, pathAt.append _, rfl, mayPointTo_end _ _⟩
  | @both query noHash fragment =>
      have plainQuery : ∀ c ∈ query, Plain .requestQuery c := by
        intro c member
        refine
          ⟨?_,
            plain c
              (List.mem_cons_of_mem question (List.mem_append_left _ member))⟩
        rintro rfl
        exact noHash member
      have plainFragment : ∀ c ∈ fragment, Plain .requestFragment c :=
        fun c member =>
          plain c
            (List.mem_cons_of_mem question
              (List.mem_append_right _ (List.mem_cons_of_mem hash member)))
      have shape :
          question :: (query ++ hash :: fragment) ++ space :: rest =
            question :: (query ++ hash :: (fragment ++ space :: rest)) := by
        rw [List.cons_append, List.append_assoc, List.cons_append]
      have lengthExtra :
          (question :: (query ++ hash :: fragment)).length =
            query.length + fragment.length + 2 := by
        rw [List.length_cons, List.length_append, List.length_cons]
        rfl
      have first :=
        path (query ++ hash :: (fragment ++ space :: rest)) .pathQuestion
      rw [lengthExtra] at room ⊢
      have lengthQuery :
          (stored ++ closed target.path ++ closed query).length =
            stored.length + target.path.length + query.length + 2 := by
        rw [List.length_append, length, length_closed]
        omega
      rw [loop_part memory (stored ++ closed target.path) query rfl .queryHash
          plainQuery (by rw [length]; omega),
        loop_part memory (stored ++ closed target.path ++ closed query) fragment
          rfl .fragmentSpace plainFragment (by rw [lengthQuery]; omega),
        Nat.add_assoc, Nat.add_assoc, length_closed, length_closed,
        length_closed,
        show
          target.path.length + 1 +
              (query.length + 1 + (fragment.length + 1)) =
            target.path.length + (query.length + fragment.length + 2) + 1 by
          omega,
        ← shape] at first
      refine ⟨_, _, first, ?_, ?_, ?_⟩
      · rw [List.length_append, lengthQuery, length_closed]
        omega
      · rw [List.append_assoc, List.append_assoc]
        exact List.prefix_append _ _
      · exact
          ⟨rfl, rfl, rfl, rfl, rfl, (pathAt.append _).append _,
            (mayPointTo_end _ _).append _, mayPointTo_end _ _⟩

end Target

/-! ## The whole line -/

/-- The request when `check_request` has accepted the version. -/
def checkedRequest (request : HttpRequest) (version : Bytes) : HttpRequest :=
  if version[7]? = some 49 then
    { request with
      flags :=
        { request.flags with
          version11 := true
          supportsChunked := true
          requestKeepalive := true } }
  else request

section Line

variable
    {exchange : HttpExchange}
    {line : RequestLine}

/-- The version and the carriage return behind it. -/
theorem loop_version {stored : Bytes} (memory : Memory)
    (state : exchange.state = .requestVersion)
    (here : exchange.request.version = some stored.length)
    (line : RequestLine)
    (room : stored.length + line.version.length < ymoHttpRecvBufSize)
    (count : Nat)
    (rest : Bytes) :
    ∃ after,
      requestLineLoop exchange (storedCursor memory stored) count
          (line.version ++ cr :: rest) =
        .took (count + line.version.length + 1) after ∧
        after.state = .crlf ∧ after.nextState = .headerName ∧
          after.recvCurrent = (stored ++ closed line.version).length ∧
            after.recvBuf =
                storeAll memory 0 (stored ++ closed line.version) ∧
              after.request =
                checkedRequest exchange.request line.version := by
  have ordinary :
      ∀ cursor, ∀ c ∈ line.version,
        requestLineByte exchange cursor c =
          .more exchange (cursor.put c).decr := by
    intro cursor c member
    apply byte_plain
    rw [state]
    exact line.version_plain c member
  have holds :
      VersionStored exchange.request
        (storedCursor memory (stored ++ line.version)).recvBuf
        stored.length line.version := by
    refine ⟨here, ?_⟩
    have all := holds_storeAll memory 0 (stored ++ line.version)
    rw [holds_append, Nat.zero_add] at all
    exact all.2
  have start : exchange.request.version.getD 0 = stored.length := by
    rw [here]
    rfl
  have checked :
      checkRequest exchange
          (storedCursor memory (stored ++ line.version))
          line.version.length =
        some
          { exchange with
            request := checkedRequest exchange.request line.version } := by
    have major := holds.stored 5 49 line.major_one
    unfold checkRequest checkedRequest
    rw [start, line.version_length, if_pos rfl]
    dsimp only
    rcases line.minor_known with zero | one
    · have minor := holds.stored 7 48 zero
      rw [major, minor, if_neg (by decide), if_pos ⟨rfl, rfl⟩, zero,
        if_neg (by decide)]
    · have minor := holds.stored 7 49 one
      rw [major, minor, if_pos ⟨rfl, rfl⟩, one, if_pos rfl]
  have length :
      (storedCursor memory (stored ++ line.version)).recvCurrent -
          exchange.request.version.getD 0 =
        line.version.length := by
    show (stored ++ line.version).length - _ = _
    rw [start, List.length_append, Nat.add_sub_cancel_left]
  have last :
      requestLineByte exchange
          (storedCursor memory (stored ++ line.version)) cr =
        .line
          (parserSawCr
            { exchange with
              request := checkedRequest exchange.request line.version }
            .headerName)
          ((storedCursor memory (stored ++ line.version)).put 0) := by
    generalize
      { exchange with
        request := checkedRequest exchange.request line.version } =
        next at checked ⊢
    unfold requestLineByte
    rw [state]
    dsimp only
    rw [if_neg (not_not.mpr rfl), length, checked]
  have left :
      ((storedCursor memory (stored ++ line.version)).put 0).remain ≠
        0 := by
    show ymoHttpRecvBufSize - (stored ++ line.version).length ≠ 0
    rw [List.length_append]
    omega
  have run :
      requestLineLoop exchange (storedCursor memory stored) count
          (line.version ++ cr :: rest) =
        .took (count + line.version.length + 1)
          ((parserSawCr
              { exchange with
                request := checkedRequest exchange.request line.version }
              .headerName).save
            ((storedCursor memory (stored ++ line.version)).put 0)) := by
    rw [loop_item ordinary room, requestLineLoop, last]
    dsimp only
    rw [parseDone_of_remain left]
  refine ⟨_, run, rfl, rfl, ?_, ?_, rfl⟩
  · show (stored ++ line.version).length + 1 = _
    rw [List.length_append, List.length_append, length_closed, Nat.add_assoc]
  · rw [put_storedCursor]
    show storeAll memory 0 (stored ++ line.version ++ [0]) = _
    rw [List.append_assoc]
    rfl

/-- The parser stands at the end of the line, which it has stored. -/
structure LineRead
    (line : RequestLine)
    (read : HttpExchange) : Prop where
  state : read.state = .crlf
  next : read.nextState = .headerName
  parts : PartsOf line (viewOf read)
  flags :
    read.request.flags =
      if line.version[7]? = some 49 then
        { HttpFlags.none with
          version11 := true
          supportsChunked := true
          requestKeepalive := true }
      else HttpFlags.none

theorem checkedRequest_eq (request : HttpRequest) (version : Bytes) :
    checkedRequest request version =
      { request with flags := (checkedRequest request version).flags } := by
  unfold checkedRequest
  split <;> rfl

theorem zero_not_mem_parts (noZero : 0 ∉ line.bytes) :
    0 ∉ line.target.method ∧ 0 ∉ line.target.path ∧
      0 ∉ line.target.extra ∧ 0 ∉ line.version := by
  unfold RequestLine.bytes Target.bytes at noZero
  simp only [List.mem_append, List.mem_cons, not_or] at noZero
  exact ⟨noZero.1.1.1, noZero.1.1.2.2, noZero.1.2, noZero.2.2⟩

theorem MayPointTo.read {memory : Memory} {stored : Bytes}
    {pointer : Option Nat}
    {item : Option Bytes}
    (points : MayPointTo stored pointer item)
    (noZero : ∀ data ∈ item, 0 ∉ data) :
    pointer.map
        (readString (storeAll memory 0 stored) stored.length) =
      item := by
  cases item with
  | none =>
      rw [show pointer = none from points]
      rfl
  | some item => exact PointsTo.read points (noZero item rfl)

/-- The exchange when the method has been read. -/
def targetStart (exchange : HttpExchange) (method : Bytes) : HttpExchange :=
  { lineStart exchange with
    request :=
      { (lineStart exchange).request with uri := some (closed method).length }
    state := .requestUriPath }

theorem loop_opens (exchange : HttpExchange) {method : Bytes}
    (tokens : ∀ c ∈ method, isHttpMethodToken c = true)
    (room : method.length + 1 < ymoHttpRecvBufSize)
    (rest : Bytes) :
    ymoParseHttpRequestLine (lineStart exchange)
        (method ++ space :: rest) =
      requestLineLoop (targetStart exchange method)
        (storedCursor exchange.recvBuf (closed method))
        (0 + (closed method).length) rest :=
  loop_part exchange.recvBuf [] method
    (show (lineStart exchange).state = .requestMethod from rfl) .method
    tokens (by rw [List.length_nil]; omega) 0 rest

/-- The parser takes a line to its carriage return. -/
theorem requestLine_read (exchange : HttpExchange) (noZero : 0 ∉ line.bytes)
    (fits : line.bytes.length < ymoHttpRecvBufSize)
    (rest : Bytes) :
    ∃ read,
      ymoParseHttpRequestLine (lineStart exchange)
          (line.bytes ++ cr :: rest) =
        .took (line.bytes.length + 1) read ∧
        LineRead line read := by
  have length :
      line.bytes.length =
        line.target.method.length + line.target.path.length +
          line.target.extra.length + line.version.length + 2 := by
    unfold RequestLine.bytes
    rw [List.length_append, Target.length_bytes, List.length_cons]
    omega
  have shape :
      line.bytes ++ cr :: rest =
        line.target.method ++ space ::
          (line.target.path ++
            (line.target.extra ++ space :: (line.version ++ cr :: rest))) := by
    unfold RequestLine.bytes Target.bytes
    simp only [List.append_assoc, List.cons_append]
  have first (tail : Bytes) :=
    loop_opens exchange line.target.method_token (by omega) tail
  rcases
      loop_target exchange.recvBuf
        (show (targetStart exchange line.target.method).state =
          .requestUriPath from rfl)
        line.target
        (show
          (closed line.target.method).length + line.target.path.length +
              line.target.extra.length + 1 <
            ymoHttpRecvBufSize by
          rw [length_closed]
          omega)
        (0 + (closed line.target.method).length)
        (line.version ++ cr :: rest)
    with ⟨later, named, second, laterLength, ⟨more, rfl⟩, target⟩
  rw [length_closed] at laterLength
  rcases
      loop_version exchange.recvBuf target.state target.version line
        (by rw [laterLength]; omega)
        (0 + (closed line.target.method).length +
          (line.target.path.length + line.target.extra.length + 1))
        rest
    with ⟨read, third, state, next, current, buffer, request⟩
  rcases zero_not_mem_parts noZero with
    ⟨noMethod, noPath, noExtra, noVersion⟩
  have flags := congrArg HttpRequest.flags request
  rw [checkedRequest_eq] at request
  refine ⟨read, ?_, state, next, ?_, ?_⟩
  · rw [shape]
    refine (first _).trans (second.trans ?_)
    rw [third, length, length_closed]
    congr 1
    omega
  · unfold viewOf
    dsimp only
    rw [request, current, buffer]
    constructor
    · have method :
          PointsTo
            (closed line.target.method ++ more ++ closed line.version)
            named.request.method line.target.method := by
        rw [target.method]
        exact ⟨[], more ++ closed line.version, List.append_assoc _ _ _, rfl⟩
      exact method.read noMethod
    · have uri :
          PointsTo
            (closed line.target.method ++ more ++ closed line.version)
            named.request.uri line.target.path := by
        rw [target.uri]
        exact target.path.append _
      exact uri.read noPath
    · apply (target.query.append _).read
      intro data found member
      exact noExtra ((extra_of_target line.target).mem (Or.inl found) member)
    · apply (target.fragment.append _).read
      intro data found member
      exact noExtra ((extra_of_target line.target).mem (Or.inr found) member)
    · have version :
          PointsTo
            (closed line.target.method ++ more ++ closed line.version)
            named.request.version line.version := by
        rw [target.version]
        exact pointsTo_end _ _
      exact version.read noVersion
  · rw [flags]
    unfold checkedRequest
    split
    · rw [target.flags]
      rfl
    · exact target.flags

/-- The strings and the flags of a line of the grammar. -/
theorem LineRead.requestIs {read : HttpExchange}
    (lineRead : LineRead line read)
    (standard : Standard line) :
    RequestIs line (viewOf read) := by
  have flags : (viewOf read).flags = _ := lineRead.flags
  rcases standard.version with zero | one
  · rw [zero] at flags
    refine ⟨lineRead.parts, ?_, ?_, ?_⟩ <;> rw [flags, zero] <;> decide
  · rw [one] at flags
    refine ⟨lineRead.parts, ?_, ?_, ?_⟩ <;> rw [flags, one] <;> decide

end Line

/-! ## Lines that are accepted -/

section Accepted

variable
    {exchange : HttpExchange}
    {data : Bytes}

/-- The exchange behind the end of the line. -/
def afterLine (read : HttpExchange) : HttpExchange :=
  { read with state := .headerName, hdrName := some read.recvCurrent }

/-- What follows the carriage return of a line decides. -/
theorem readLine_completed (exchange : HttpExchange) {line : RequestLine}
    (noZero : 0 ∉ line.bytes)
    (fits : line.bytes.length < ymoHttpRecvBufSize)
    (beyond : Bytes) :
    ∃ read,
      LineRead line read ∧
        readLine exchange (line.bytes ++ cr :: beyond) =
          match beyond with
          | [] => .took (line.bytes.length + 1) read
          | c :: _ =>
              if c = lf then .took (line.bytes.length + 1 + 1) (afterLine read)
              else .failed .ebadmsg read := by
  rcases requestLine_read exchange noZero fits beyond with
    ⟨read, parsed, lineRead⟩
  refine ⟨read, lineRead, ?_⟩
  have length :
      (line.bytes ++ cr :: beyond).length =
        line.bytes.length + 1 + beyond.length := by
    rw [List.length_append, List.length_cons]
    omega
  have rest :
      (line.bytes ++ cr :: beyond).drop (line.bytes.length + 1) = beyond := by
    rw [← List.drop_drop, List.drop_left' rfl]
    rfl
  unfold readLine
  rw [parsed]
  dsimp only
  rw [length, rest]
  cases beyond with
  | nil => exact if_neg (fun both => Nat.lt_irrefl _ both.2)
  | cons c more =>
      rw [List.length_cons,
        if_pos ⟨lineRead.state, Nat.lt_add_of_pos_right (Nat.succ_pos _)⟩]
      unfold ymoParseHttpCrlf afterLine
      dsimp only
      by_cases feed : c = lf
      · rw [if_neg (not_not.mpr feed), if_pos feed, lineRead.next]
      · rw [if_pos feed, if_neg feed]

/-- A line that the parser takes is accepted with its `CRLF`. -/
theorem accepts_line (exchange : HttpExchange) {line : RequestLine}
    (noZero : 0 ∉ line.bytes)
    (fits : line.bytes.length < ymoHttpRecvBufSize) :
    ∃ read,
      LineRead line read ∧
        Accepts exchange (line.bytes ++ crlf) (afterLine read) := by
  rcases readLine_completed exchange noZero fits [lf] with
    ⟨read, lineRead, accepted⟩
  refine ⟨read, lineRead, ?_, rfl⟩
  dsimp only at accepted
  rw [if_pos rfl] at accepted
  rw [List.length_append]
  exact accepted

/-- What is accepted twice is accepted with one result. -/
theorem Accepts.unique {first second : HttpExchange}
    (one : Accepts exchange data first)
    (two : Accepts exchange data second) :
    first = second := by
  have same := one.1.symm.trans two.1
  cases same
  rfl

/-- The reader stands at the start of a line. -/
theorem midLine_start (exchange : HttpExchange) :
    MidLine [] [] (lineStart exchange) (lineStart exchange).cursor := by
  constructor
  · apply LinePrefix.method
    · simp
    · simp
  · exact ⟨rfl, rfl, rfl, rfl⟩
  · show ymoHttpRecvBufSize ≠ 0
    decide

/-- What the request line parser makes of any bytes. -/
inductive Outcome
    (exchange : HttpExchange)
    (data : Bytes) : Prop where
  | completed
      (line : RequestLine)
      (beyond : Bytes)
      (split : data = line.bytes ++ cr :: beyond)
      (fits : line.bytes.length < ymoHttpRecvBufSize)
  | waiting
      {read : HttpExchange}
      (took :
        ymoParseHttpRequestLine (lineStart exchange) data =
          .took data.length read)
      (shape : LinePrefix read.request read.recvBuf [] read.state data)
      (room : data.length < ymoHttpRecvBufSize)
  | refused
      {errno : Errno}
      {read : HttpExchange}
      (failed :
        ymoParseHttpRequestLine (lineStart exchange) data = .failed errno read)

theorem outcome (exchange : HttpExchange) (data : Bytes) :
    Outcome exchange data := by
  have sound := requestLineLoop_sound (midLine_start exchange) 0 data
  cases result : ymoParseHttpRequestLine (lineStart exchange) data with
  | took count read =>
      rw [show
          requestLineLoop (lineStart exchange) (lineStart exchange).cursor
              0 data =
            .took count read from result] at sound
      rcases sound with
        ⟨all, mid⟩ | ⟨line, inside, beyond, split, whole, fits, -⟩
      · rw [Nat.zero_add] at all
        rw [all] at result
        exact .waiting result mid.shape (mid.counted.room mid.left)
      · rw [List.nil_append] at whole
        rw [← whole] at split
        exact .completed line beyond split fits
  | failed errno read => exact .refused result
  | fault read =>
      rw [show
          requestLineLoop (lineStart exchange) (lineStart exchange).cursor
              0 data =
            .fault read from result] at sound
      exact sound.elim

theorem linePrefix_state_ne {request : HttpRequest} {memory : Memory}
    {cuts : List Nat}
    {state : HttpState}
    (shape : LinePrefix request memory cuts state data) :
    state ≠ .crlf ∧ state ≠ .headerName := by
  cases shape <;> exact ⟨HttpState.noConfusion, HttpState.noConfusion⟩

/-- What is accepted is a line the parser takes, and its `CRLF`. -/
theorem line_of_accepts {after : HttpExchange} (noZero : 0 ∉ data)
    (accepts : Accepts exchange data after) :
    ∃ line : RequestLine, data = line.bytes ++ crlf := by
  rcases accepts with ⟨took, state⟩
  cases outcome exchange data with
  | completed line beyond split fits =>
      subst split
      have noZeroLine : 0 ∉ line.bytes :=
        fun member => noZero (List.mem_append_left _ member)
      rcases readLine_completed exchange noZeroLine fits beyond with
        ⟨read, lineRead, result⟩
      rw [took] at result
      rcases beyond with _ | ⟨c, more⟩
      · rw [Parsed.took.injEq] at result
        rw [result.2, lineRead.state] at state
        cases state
      · dsimp only at result
        split at result
        · rename_i feed
          rw [Parsed.took.injEq, List.length_append, List.length_cons,
            List.length_cons] at result
          have none : more = [] := List.eq_nil_of_length_eq_zero (by omega)
          rw [feed, none]
          exact ⟨line, rfl⟩
        · cases result
  | waiting read shape room =>
      unfold readLine at took
      rw [read] at took
      dsimp only at took
      rw [if_neg (fun both => (linePrefix_state_ne shape).1 both.1)] at took
      cases took
      exact absurd state (linePrefix_state_ne shape).2
  | refused failed =>
      unfold readLine at took
      rw [failed] at took
      cases took

/-! ## Lines that end in their target -/

/-- The bytes have no second space: they end in the target. -/
def EndsInTarget (data : Bytes) : Prop :=
  ∃ method target,
    (∀ c ∈ method, isHttpMethodToken c = true) ∧ space ∉ target ∧
      data = method ++ space :: target

/-- The states of a target. -/
def inTarget : HttpState → Bool
  | .requestUriPath => true
  | .requestQuery => true
  | .requestFragment => true
  | _ => false

/-- In a target every byte but a space keeps the parser there. -/
theorem byte_inTarget (here : inTarget exchange.state = true) {c : UInt8}
    (noSpace : c ≠ space)
    (cursor : Cursor) :
    ∃ later byte,
      requestLineByte exchange cursor c =
        .more later (cursor.put byte).decr ∧
        inTarget later.state = true := by
  cases state : exchange.state <;> rw [state] at here <;> try cases here
  case requestUriPath =>
    by_cases isQuestion : c = question
    · subst isQuestion
      have separates := Separates.pathQuestion
      rw [← state] at separates
      exact ⟨_, 0, byte_separator separates cursor, rfl⟩
    by_cases isHash : c = hash
    · subst isHash
      have separates := Separates.pathHash
      rw [← state] at separates
      exact ⟨_, 0, byte_separator separates cursor, rfl⟩
    have plain : Plain exchange.state c := by
      rw [state]
      exact ⟨isQuestion, isHash, noSpace⟩
    exact ⟨_, c, byte_plain plain cursor, by rw [state]; rfl⟩
  case requestQuery =>
    by_cases isHash : c = hash
    · subst isHash
      have separates := Separates.queryHash
      rw [← state] at separates
      exact ⟨_, 0, byte_separator separates cursor, rfl⟩
    have plain : Plain exchange.state c := by
      rw [state]
      exact ⟨isHash, noSpace⟩
    exact ⟨_, c, byte_plain plain cursor, by rw [state]; rfl⟩
  case requestFragment =>
    have plain : Plain exchange.state c := by
      rw [state]
      exact noSpace
    exact ⟨_, c, byte_plain plain cursor, by rw [state]; rfl⟩

/-- The parser takes the rest of a target and waits for more. -/
theorem loop_inTarget (here : inTarget exchange.state = true)
    {target stored : Bytes}
    (memory : Memory)
    (noSpace : space ∉ target)
    (room : stored.length + target.length < ymoHttpRecvBufSize)
    (count : Nat) :
    ∃ read,
      requestLineLoop exchange (storedCursor memory stored) count target =
        .took (count + target.length) read ∧
        inTarget read.state = true := by
  induction target generalizing exchange stored count with
  | nil =>
      refine ⟨_, parseDone_of_remain ?_ _ _, here⟩
      show ymoHttpRecvBufSize - stored.length ≠ 0
      rw [List.length_nil] at room
      omega
  | cons c target ih =>
      rw [List.mem_cons, not_or] at noSpace
      rw [List.length_cons] at room
      rcases byte_inTarget here (Ne.symm noSpace.1)
          (storedCursor memory stored)
        with ⟨later, byte, step, still⟩
      have roomLater :
          (stored ++ [byte]).length + target.length < ymoHttpRecvBufSize := by
        rw [List.length_append, List.length_singleton]
        omega
      rcases
          ih still noSpace.2 roomLater (count + 1)
        with ⟨read, took, final⟩
      refine ⟨read, ?_, final⟩
      rw [loop_byte step (by omega), took, List.length_cons,
        Nat.add_assoc, Nat.add_comm 1]

/-- A line that ends in its target is neither accepted nor refused. -/
theorem readLine_inTarget (exchange : HttpExchange) (ends : EndsInTarget data)
    (fits : data.length < ymoHttpRecvBufSize) :
    ∃ read,
      readLine exchange data = .took data.length read ∧
        inTarget read.state = true := by
  rcases ends with ⟨method, target, tokens, noSpace, rfl⟩
  rw [List.length_append, List.length_cons] at fits
  rcases
      loop_inTarget
        (show inTarget (targetStart exchange method).state = true from rfl)
        exchange.recvBuf noSpace
        (show (closed method).length + target.length <
            ymoHttpRecvBufSize by
          rw [length_closed]
          omega)
        (0 + (closed method).length)
    with ⟨read, took, here⟩
  refine ⟨read, ?_, here⟩
  have noLineEnd : read.state ≠ .crlf := by
    intro state
    rw [state] at here
    cases here
  unfold readLine
  rw [loop_opens exchange tokens (by omega) target, took]
  dsimp only
  rw [if_neg (fun both => noLineEnd both.1), length_closed,
    List.length_append, List.length_cons]
  congr 1
  omega

end Accepted

/-! ## Lines that are read as they should -/

section Right

variable
    {exchange : HttpExchange}
    {data : Bytes}

theorem Target.ext_of_parts {left right : Target}
    (method : left.method = right.method)
    (path : left.path = right.path)
    (extra : left.extra = right.extra) :
    left = right := by
  cases left
  cases right
  cases method
  cases path
  cases extra
  rfl

/-- The parts of a line determine it, given its bytes. -/
theorem line_ext {left right : RequestLine} (same : left.bytes = right.bytes)
    {view : RequestView}
    (one : PartsOf left view)
    (two : PartsOf right view) :
    left = right := by
  have method := Option.some.inj (one.method.symm.trans two.method)
  have path := Option.some.inj (one.uri.symm.trans two.uri)
  have version := Option.some.inj (one.version.symm.trans two.version)
  unfold RequestLine.bytes Target.bytes at same
  rw [method, path, version] at same
  have extra := List.append_cancel_left (List.append_cancel_right same)
  have target := Target.ext_of_parts method path extra
  cases left
  cases right
  cases target
  cases version
  rfl

/-- The bytes hold no zero byte, and fit the receive buffer. -/
structure Fits (data : Bytes) : Prop where
  noZero : 0 ∉ data
  room : data.length ≤ ymoHttpRecvBufSize

theorem Fits.line {line : RequestLine} {beyond : Bytes}
    (fits : Fits (line.bytes ++ beyond))
    (some : beyond ≠ []) :
    0 ∉ line.bytes ∧ line.bytes.length < ymoHttpRecvBufSize := by
  have room := fits.room
  have more := List.length_pos_iff.mpr some
  rw [List.length_append] at room
  exact ⟨fun member => fits.noZero (List.mem_append_left _ member), by omega⟩

/-- If one reading of the bytes as a line is in the grammar, each is. -/
theorem standard_of_inGrammar (exchange : HttpExchange) (fits : Fits data)
    (inGrammar : InGrammar data)
    {line : RequestLine}
    (whole : data = line.bytes ++ crlf) :
    Standard line := by
  rcases inGrammar with ⟨other, standard, otherWhole⟩
  have bounds := Fits.line (whole ▸ fits) (List.cons_ne_nil cr [lf])
  have otherBounds := Fits.line (otherWhole ▸ fits) (List.cons_ne_nil cr [lf])
  rcases accepts_line exchange bounds.1 bounds.2 with
    ⟨read, lineRead, accepts⟩
  rcases accepts_line exchange otherBounds.1 otherBounds.2 with
    ⟨otherRead, otherLineRead, otherAccepts⟩
  rw [← whole] at accepts
  rw [← otherWhole] at otherAccepts
  have views := congrArg viewOf (Accepts.unique accepts otherAccepts)
  have parts : PartsOf line (viewOf (afterLine read)) := lineRead.parts
  rw [views] at parts
  have bytes : line.bytes = other.bytes :=
    List.append_cancel_right (whole.symm.trans otherWhole)
  rw [line_ext bytes parts otherLineRead.parts]
  exact standard

/-- A line the parser waits in ends in its target. -/
theorem linePrefix_isLine {request : HttpRequest} {memory : Memory}
    {cuts : List Nat}
    {state : HttpState}
    {content : Bytes}
    (shape : LinePrefix request memory cuts state (content ++ crlf)) :
    EndsInTarget (content ++ crlf) := by
  have endsInTarget (target : Target) : EndsInTarget target.bytes := by
    refine
      ⟨target.method, target.path ++ target.extra, target.method_token,
        ?_, List.append_assoc _ _ _⟩
    intro member
    rcases List.mem_append.mp member with inPath | inExtra
    · exact (target.path_plain space inPath).2.2 rfl
    · exact target.extra_plain space inExtra rfl
  generalize whole : content ++ crlf = data at shape ⊢
  cases shape with
  | method tokens uncut =>
      exfalso
      have member : lf ∈ content ++ crlf :=
        List.mem_append_right content (by decide)
      rw [whole] at member
      cases tokens lf member
  | path target plain uncut => exact endsInTarget target
  | query target marked uncut => exact endsInTarget target
  | fragment target marked uncut => exact endsInTarget target
  | @version target version plain held uncut =>
      exfalso
      rcases List.append_eq_append_iff.mp whole with
        ⟨middle, split, ends⟩ | ⟨middle, split, ends⟩
      · have member : space ∈ crlf := by
          rw [ends]
          exact List.mem_append_right middle List.mem_cons_self
        exact absurd member (by decide)
      · rcases middle with _ | ⟨first, middle⟩
        · cases ends
        · have later := (List.cons_eq_cons.mp ends).2
          have member : cr ∈ version := by
            rw [later]
            exact List.mem_append_right middle List.mem_cons_self
          exact plain cr member rfl

/-- A line that the parser neither takes nor waits in is refused. -/
theorem refuses_line (exchange : HttpExchange) (fits : Fits data)
    (isLine : IsLine data)
    (notTaken : ∀ line : RequestLine, data ≠ line.bytes ++ crlf)
    (goesOn : ¬ (EndsInTarget data ∧ data.length < ymoHttpRecvBufSize)) :
    Refuses exchange data := by
  rcases isLine with ⟨content, rfl, first⟩
  cases outcome exchange (content ++ crlf) with
  | completed line beyond split room =>
      rw [split] at fits
      have bounds := fits.line (List.cons_ne_nil cr beyond)
      rcases readLine_completed exchange bounds.1 bounds.2 beyond with
        ⟨read, lineRead, result⟩
      rw [← split] at result
      rcases beyond with _ | ⟨c, more⟩
      · exfalso
        have last : (content ++ [cr]) ++ [lf] = line.bytes ++ [cr] := by
          rw [List.append_assoc]
          exact split
        cases List.append_inj_right' last rfl
      · dsimp only at result
        by_cases feed : c = lf
        · exfalso
          rcases more with _ | ⟨d, others⟩
          · rw [feed] at split
            exact notTaken line split
          · apply first
            have whole :
                (content ++ [cr]) ++ [lf] =
                  (line.bytes ++ crlf) ++ d :: others := by
              rw [List.append_assoc, List.append_assoc]
              rw [feed] at split
              exact split
            have front := congrArg List.dropLast whole
            rw [List.dropLast_concat,
              List.dropLast_append_of_ne_nil (List.cons_ne_nil d others)]
              at front
            rw [front, List.append_assoc]
            exact ⟨line.bytes, _, List.append_assoc _ _ _⟩
        · rw [if_neg feed] at result
          exact ⟨_, _, result⟩
  | waiting took shape room =>
      exact absurd ⟨linePrefix_isLine shape, room⟩ goesOn
  | refused failed =>
      unfold Refuses readLine
      rw [failed]
      exact ⟨_, _, rfl⟩

/-- What the parser takes for a line is in the grammar. -/
theorem ReadRight.standard (right : ReadRight exchange data) (fits : Fits data)
    {line : RequestLine}
    (whole : data = line.bytes ++ crlf) :
    Standard line := by
  have bounds := Fits.line (whole ▸ fits) (List.cons_ne_nil cr [lf])
  rcases accepts_line exchange bounds.1 bounds.2 with
    ⟨read, lineRead, accepts⟩
  rw [← whole] at accepts
  exact
    standard_of_inGrammar exchange fits (right.accepted.mp ⟨_, accepts⟩) whole

/-- The parser does not wait in a line. -/
theorem ReadRight.goesOn (right : ReadRight exchange data) :
    ¬ (IsLine data ∧ EndsInTarget data ∧
      data.length < ymoHttpRecvBufSize) := by
  rintro ⟨isLine, ends, room⟩
  rcases readLine_inTarget exchange ends room with ⟨read, took, here⟩
  have notGrammar : ¬ InGrammar data := by
    intro inGrammar
    rcases right.accepted.mpr inGrammar with ⟨after, accepted, state⟩
    rw [took, Parsed.took.injEq] at accepted
    rw [← accepted.2] at state
    rw [state] at here
    cases here
  rcases right.refused isLine notGrammar with ⟨errno, after, failed⟩
  rw [took] at failed
  cases failed

/--
Bytes are read as they should exactly when no line that the parser takes them
for falls short of the grammar, and they are no line that ends in its target
before the buffer is full.
-/
theorem readRight_iff (exchange : HttpExchange) (fits : Fits data) :
    ReadRight exchange data ↔
      (∀ line : RequestLine, data = line.bytes ++ crlf → Standard line) ∧
        ¬ (IsLine data ∧ EndsInTarget data ∧
          data.length < ymoHttpRecvBufSize) := by
  constructor
  · intro right
    exact ⟨fun line whole => right.standard fits whole, right.goesOn⟩
  · rintro ⟨standard, goesOn⟩
    have grammar {after : HttpExchange}
        (accepts : Accepts exchange data after) :
        ∃ line, data = line.bytes ++ crlf ∧ Standard line := by
      rcases line_of_accepts fits.noZero accepts with ⟨line, whole⟩
      exact ⟨line, whole, standard line whole⟩
    constructor
    · constructor
      · rintro ⟨after, accepts⟩
        rcases grammar accepts with ⟨line, whole, standardLine⟩
        exact ⟨line, standardLine, whole⟩
      · rintro ⟨line, -, whole⟩
        have bounds := Fits.line (whole ▸ fits) (List.cons_ne_nil cr [lf])
        rcases accepts_line exchange bounds.1 bounds.2 with
          ⟨read, -, accepts⟩
        rw [← whole] at accepts
        exact ⟨_, accepts⟩
    · intro after accepts
      rcases grammar accepts with ⟨line, whole, standardLine⟩
      refine ⟨line, whole, standardLine, ?_⟩
      have bounds := Fits.line (whole ▸ fits) (List.cons_ne_nil cr [lf])
      rcases accepts_line exchange bounds.1 bounds.2 with
        ⟨read, lineRead, taken⟩
      rw [← whole] at taken
      rw [Accepts.unique accepts taken]
      exact lineRead.requestIs standardLine
    · intro isLine notGrammar
      apply refuses_line exchange fits isLine
      · intro line whole
        exact notGrammar ⟨line, standard line whole, whole⟩
      · rintro ⟨ends, room⟩
        exact goesOn ⟨isLine, ends, room⟩

end Right

theorem nothing_marked :
    ([] : Bytes).head? = none ∨
      ([] : Bytes).head? = some question ∨
        ([] : Bytes).head? = some hash :=
  .inl rfl

/-- `GET / HTTP/1.1`. -/
def getLine : RequestLine where
  target :=
    { method := bytes "GET", path := bytes "/", extra := []
      method_token := by decide, path_plain := by decide
      extra_marked := nothing_marked, extra_plain := by decide }
  version := bytes "HTTP/1.1"
  version_plain := by decide
  version_length := by decide
  major_one := by decide
  minor_known := by decide

theorem readRight_iff_get :
    ReadRight ymoHttpExchangeCreate (getLine.bytes ++ crlf) ↔
      (∀ line : RequestLine,
        getLine.bytes ++ crlf = line.bytes ++ crlf → Standard line) ∧
        ¬ (IsLine (getLine.bytes ++ crlf) ∧
          EndsInTarget (getLine.bytes ++ crlf) ∧
            (getLine.bytes ++ crlf).length < ymoHttpRecvBufSize) :=
  readRight_iff ymoHttpExchangeCreate ⟨by decide, by decide⟩

/-- A version that only has the digits that are checked. -/
def oddLine : RequestLine where
  target :=
    { method := [], path := [], extra := []
      method_token := by decide, path_plain := by decide
      extra_marked := nothing_marked, extra_plain := by decide }
  version := bytes "xxxxx1x1"
  version_plain := by decide
  version_length := by decide
  major_one := by decide
  minor_known := by decide

/-- No method, no target and no version are accepted as a line; and a line with
its target last is not refused. -/
theorem not_readRight_odd :
    ¬ ReadRight ymoHttpExchangeCreate (bytes "  xxxxx1x1\r\n") ∧
      ¬ ReadRight ymoHttpExchangeCreate (bytes "GET /\r\n") := by
  constructor
  · intro right
    have standard : Standard oddLine :=
      right.standard ⟨by decide, by decide⟩ (by decide)
    exact standard.method rfl
  · intro right
    apply right.goesOn
    refine
      ⟨⟨bytes "GET /", by decide, by decide⟩,
        ⟨bytes "GET", bytes "/\r\n", by decide, by decide, by decide⟩,
        by decide⟩

end Yimmo.Http.RequestLines
