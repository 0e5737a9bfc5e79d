import Yimmo.Http.Parse

/-!
# The space of the receive buffer

The parsers of the head share one cursor and one counter.  This module drives
them over a sequence of reads the way `ymo_proto_http_read` does, states what
the cursor and the counter owe to the buffer after every call, and determines
when they keep it.

The request line parser keeps the account exactly, byte for byte, until it
accepts a line: the terminator it stores for the carriage return is not counted.
A parser run therefore keeps the account exactly when the reads complete no
acceptable request line.
-/

namespace Yimmo.Http.ReceiveSpace

open Yimmo.Core.StatusCode
open Yimmo.Lib.ByteMemory
open Yimmo.Http.Exchange
open Yimmo.Http.Parse

variable
    {exchange : HttpExchange}
    {cursor : Cursor}
    {count : Nat}
    {cuts : List Nat}
    {consumed : Bytes}
    {request : HttpRequest}
    {todo : Bytes}
    {stray read : Bytes}
    {memory : Memory}
    {start : Nat}

/-! ## Driving the parsers -/

/-- The calls of a drive, and the exchange it can go on with, if any. -/
structure Drive where
  calls : List Parsed
  left : Option HttpExchange

/--
The calls made for one read.  Each call takes at least a byte, so the length of
the read bounds them; a failed call ends the drive, and so does a state that no
parser of the head is called in.
-/
def driveRead (stray : Bytes) :
    Nat → HttpExchange → Bytes → Drive
  | 0, exchange, _ => { calls := [], left := some exchange }
  | fuel + 1, exchange, buffer =>
      if buffer = [] then { calls := [], left := some exchange }
      else
        match parseHead stray exchange buffer with
        | none => { calls := [], left := none }
        | some (.took count later) =>
            let rest := driveRead stray fuel later (buffer.drop count)
            { rest with calls := .took count later :: rest.calls }
        | some stopped => { calls := [stopped], left := none }

/-- The calls made for a sequence of reads. -/
def driveReads (stray : Bytes) :
    HttpExchange → List Bytes → List Parsed
  | _, [] => []
  | exchange, read :: reads =>
      let drive := driveRead stray read.length exchange read
      match drive.left with
      | none => drive.calls
      | some later => drive.calls ++ driveReads stray later reads

/--
What a call owes to the buffer.  After a success the cursor and the counter add
up to its size; never is the counter decremented below zero, a byte stored past
the end, or a full buffer answered with anything but `EFBIG`.
-/
def KeepsAccount : Parsed → Prop
  | .took _ exchange =>
      exchange.recvCurrent + exchange.remain = ymoHttpRecvBufSize ∧
        exchange.wrapped = false ∧
          exchange.high < ymoHttpRecvBufSize
  | .failed errno exchange =>
      exchange.wrapped = false ∧
        exchange.high ≤ ymoHttpRecvBufSize ∧
          (exchange.high = ymoHttpRecvBufSize → errno = .efbig)
  | .fault _ => False

/-- Every call of a drive over the reads keeps the account. -/
def AccountKept (stray : Bytes) (exchange : HttpExchange)
    (reads : List Bytes) :
    Prop :=
  ∀ call ∈ driveReads stray exchange reads, KeepsAccount call

theorem driveRead_nil (stray : Bytes) (fuel : Nat) (exchange : HttpExchange) :
    driveRead stray fuel exchange [] =
      { calls := [], left := some exchange } := by
  cases fuel <;> rfl

/-- The first call for a read is among the calls. -/
theorem mem_driveReads {call : Parsed} (nonempty : read ≠ [])
    (called : parseHead stray exchange read = some call)
    (reads : List Bytes) :
    call ∈ driveReads stray exchange (read :: reads) := by
  cases read with
  | nil => exact absurd rfl nonempty
  | cons c rest =>
      have first :
          call ∈
            (driveRead stray (c :: rest).length exchange
              (c :: rest)).calls := by
        rw [List.length_cons, driveRead, if_neg nonempty, called]
        cases call <;> exact List.mem_cons_self
      rw [driveReads]
      split
      · exact first
      · exact List.mem_append_left _ first

/-- A call that takes its whole read is followed by the calls of the rest. -/
theorem driveReads_took {exchange later : HttpExchange} (nonempty : read ≠ [])
    (called : parseHead stray exchange read = some (.took read.length later))
    (reads : List Bytes) :
    driveReads stray exchange (read :: reads) =
      .took read.length later :: driveReads stray later reads := by
  cases read with
  | nil => exact absurd rfl nonempty
  | cons c rest =>
      rw [driveReads, List.length_cons, driveRead, if_neg nonempty, called]
      simp only [List.length_cons, List.drop_succ_cons,
        List.drop_length, driveRead_nil, List.singleton_append]

/-- A call that fails is the last one. -/
theorem driveReads_failed {exchange later : HttpExchange} {errno : Errno}
    (nonempty : read ≠ [])
    (called : parseHead stray exchange read = some (.failed errno later))
    (reads : List Bytes) :
    driveReads stray exchange (read :: reads) = [.failed errno later] := by
  cases read with
  | nil => exact absurd rfl nonempty
  | cons c rest =>
      rw [driveReads, List.length_cons, driveRead, if_neg nonempty, called]

/-! ## Acceptable request lines -/

/-- The part of a request line before the version: method, path, and what
follows a `?` or a `#`. -/
structure Target where
  method : Bytes
  path : Bytes
  extra : Bytes
  method_token : ∀ c ∈ method, isHttpMethodToken c = true
  path_plain : ∀ c ∈ path, c ≠ question ∧ c ≠ hash ∧ c ≠ space
  extra_marked :
    extra.head? = none ∨ extra.head? = some question ∨ extra.head? = some hash
  extra_plain : ∀ c ∈ extra, c ≠ space

def Target.bytes (target : Target) : Bytes :=
  target.method ++ space :: target.path ++ target.extra

/-- Where the bytes of the query or fragment start, after their marker. -/
def Target.extraStart (target : Target) : Nat :=
  target.method.length + target.path.length + 2

/-- A request line whose version is `HTTP/1.0` or `HTTP/1.1`, as far as it is
checked. -/
structure RequestLine where
  target : Target
  version : Bytes
  version_plain : ∀ c ∈ version, c ≠ cr
  version_length : version.length = 8
  major_one : version[5]? = some 49
  minor_known : version[7]? = some 48 ∨ version[7]? = some 49

/-- The line, without its terminator. -/
def RequestLine.bytes (line : RequestLine) : Bytes :=
  line.target.bytes ++ space :: line.version

/-- Where the version starts. -/
def RequestLine.versionStart (line : RequestLine) : Nat :=
  line.target.bytes.length + 1

/--
The reads complete the line: they start with it, it fits the buffer, and no
read ends inside its query or fragment.
-/
structure RequestLine.Completes
    (line : RequestLine)
    (reads : List Bytes) : Prop where
  starts : line.bytes ++ [cr] <+: reads.flatten
  fits : line.bytes.length < ymoHttpRecvBufSize
  uncut :
    ∀ front,
      front <+: reads →
        front.flatten.length < line.target.extraStart ∨
          line.versionStart ≤ front.flatten.length

/-! ## The request line parser, byte by byte -/

/-- The account of the request line parser after `count` bytes. -/
structure Counted (cursor : Cursor) (count : Nat) : Prop where
  current : cursor.recvCurrent = count
  remain : cursor.remain + count = ymoHttpRecvBufSize
  high : cursor.high = count
  wrapped : cursor.wrapped = false

theorem Counted.put_decr (counted : Counted cursor count)
    (space : count < ymoHttpRecvBufSize)
    (c : UInt8) :
    Counted (cursor.put c).decr (count + 1) := by
  have positive : cursor.remain ≠ 0 := by
    have total := counted.remain
    omega
  have decremented :
      (cursor.put c).decr =
        { cursor.put c with remain := cursor.remain - 1 } :=
    if_neg positive
  rw [decremented]
  constructor
  · exact congrArg (· + 1) counted.current
  · have total := counted.remain
    dsimp only
    omega
  · dsimp only [Cursor.put]
    rw [counted.high, counted.current]
    exact Nat.max_eq_right (Nat.le_succ count)
  · exact counted.wrapped

theorem Counted.room (counted : Counted cursor count)
    (left : cursor.remain ≠ 0) :
    count < ymoHttpRecvBufSize := by
  have total := counted.remain
  omega

/-- The version string read so far is in the buffer, where `version` points. -/
structure VersionStored
    (request : HttpRequest)
    (memory : Memory)
    (start : Nat)
    (version : Bytes) : Prop where
  pointer : request.version = some start
  stored : ∀ index c, version[index]? = some c → memory (start + index) = c

theorem VersionStored.snoc {version : Bytes}
    (held : VersionStored request memory start version)
    (c : UInt8) :
    VersionStored request
      (store memory (start + version.length) c) start
      (version ++ [c]) where
  pointer := held.pointer
  stored := by
    intro index other found
    by_cases last : index = version.length
    · subst last
      rw [List.getElem?_concat_length] at found
      rw [store_same]
      exact Option.some.inj found
    · have inside : index < version.length := by
        have bound := (List.getElem?_eq_some_iff.mp found).1
        rw [List.length_append, List.length_singleton] at bound
        omega
      rw [List.getElem?_append_left inside] at found
      rw [store_other memory c (by omega)]
      exact held.stored index other found

/-- The lines `check_request` accepts are those of `RequestLine`. -/
theorem checkRequest_isSome_iff {version : Bytes}
    (held : VersionStored exchange.request cursor.recvBuf start version) :
    (checkRequest exchange cursor version.length).isSome = true ↔
      version.length = 8 ∧
        version[5]? = some 49 ∧
          (version[7]? = some 48 ∨ version[7]? = some 49) := by
  by_cases length : version.length = 8
  · have major : version[5]? = some (cursor.recvBuf (start + 5)) := by
      have found : version[5]? = some version[5] :=
        List.getElem?_eq_getElem (by omega)
      rw [found, held.stored 5 _ found]
    have minor : version[7]? = some (cursor.recvBuf (start + 7)) := by
      have found : version[7]? = some version[7] :=
        List.getElem?_eq_getElem (by omega)
      rw [found, held.stored 7 _ found]
    rw [major, minor, checkRequest, held.pointer, if_pos length]
    simp only [Option.getD_some, Option.some.injEq]
    split
    · rename_i one
      simp [length, one]
    · split
      · rename_i one
        simp [length, one]
      · rename_i notOne notZero
        simp only [Option.isSome_none, Bool.false_eq_true, false_iff]
        rintro ⟨-, one, zero | one'⟩
        · exact notZero ⟨one, zero⟩
        · exact notOne ⟨one, one'⟩
  · rw [checkRequest, if_neg length]
    simp [length]

/-! ### What has been consumed -/

/--
What the parser has consumed of a line, by its state, and that no earlier read
ended inside the query or fragment.
-/
inductive LinePrefix
    (request : HttpRequest)
    (memory : Memory)
    (cuts : List Nat) :
    HttpState → Bytes → Prop where
  | method
      {consumed : Bytes}
      (tokens : ∀ c ∈ consumed, isHttpMethodToken c = true)
      (uncut : ∀ cut ∈ cuts, cut ≤ consumed.length) :
      LinePrefix request memory cuts .requestMethod consumed
  | path
      (target : Target)
      (plain : target.extra = [])
      (uncut : ∀ cut ∈ cuts, cut < target.extraStart) :
      LinePrefix request memory cuts .requestUriPath target.bytes
  | query
      (target : Target)
      (marked : target.extra ≠ [])
      (uncut : ∀ cut ∈ cuts, cut < target.extraStart) :
      LinePrefix request memory cuts .requestQuery target.bytes
  | fragment
      (target : Target)
      (marked : target.extra ≠ [])
      (uncut : ∀ cut ∈ cuts, cut < target.extraStart) :
      LinePrefix request memory cuts .requestFragment target.bytes
  | version
      (target : Target)
      {version : Bytes}
      (plain : ∀ c ∈ version, c ≠ cr)
      (held : VersionStored request memory (target.bytes.length + 1) version)
      (uncut :
        ∀ cut ∈ cuts,
          cut < target.extraStart ∨ target.bytes.length + 1 ≤ cut) :
      LinePrefix request memory cuts .requestVersion
        (target.bytes ++ space :: version)

/-- The target that a method and a space open. -/
def Target.open (method : Bytes)
    (tokens : ∀ c ∈ method, isHttpMethodToken c = true) :
    Target where
  method := method
  path := []
  extra := []
  method_token := tokens
  path_plain := by simp
  extra_marked := .inl rfl
  extra_plain := by simp

/-- The target with one more byte of its path. -/
def Target.snocPath (target : Target) (c : UInt8)
    (plain : c ≠ question ∧ c ≠ hash ∧ c ≠ space) :
    Target where
  method := target.method
  path := target.path ++ [c]
  extra := []
  method_token := target.method_token
  path_plain := by
    intro other member
    rcases List.mem_append.mp member with earlier | last
    · exact target.path_plain other earlier
    · rw [List.mem_singleton.mp last]
      exact plain
  extra_marked := .inl rfl
  extra_plain := by simp

/-- The target whose path is ended by a marker. -/
def Target.mark (target : Target) (c : UInt8)
    (marker : c = question ∨ c = hash) :
    Target where
  method := target.method
  path := target.path
  extra := [c]
  method_token := target.method_token
  path_plain := target.path_plain
  extra_marked := by
    rcases marker with rfl | rfl
    · exact .inr (.inl rfl)
    · exact .inr (.inr rfl)
  extra_plain := by
    intro other member
    rw [List.mem_singleton.mp member]
    rcases marker with rfl | rfl <;> decide

/-- The target with one more byte of its query or fragment. -/
def Target.snocExtra (target : Target) (marked : target.extra ≠ []) (c : UInt8)
    (plain : c ≠ space) :
    Target where
  method := target.method
  path := target.path
  extra := target.extra ++ [c]
  method_token := target.method_token
  path_plain := target.path_plain
  extra_marked := by
    rw [List.head?_append_of_ne_nil target.extra marked]
    exact target.extra_marked
  extra_plain := by
    intro other member
    rcases List.mem_append.mp member with earlier | last
    · exact target.extra_plain other earlier
    · rw [List.mem_singleton.mp last]
      exact plain

theorem Target.length_bytes (target : Target) :
    target.bytes.length =
      target.method.length + target.path.length + target.extra.length + 1 := by
  simp only [Target.bytes, List.length_append, List.length_cons]
  omega

theorem Target.bytes_open (method : Bytes)
    (tokens : ∀ c ∈ method, isHttpMethodToken c = true) :
    (Target.open method tokens).bytes = method ++ [space] := by
  simp [Target.bytes, Target.open]

variable (target : Target)

theorem Target.bytes_snocPath (plainExtra : target.extra = []) (c : UInt8)
    (plain : c ≠ question ∧ c ≠ hash ∧ c ≠ space) :
    (target.snocPath c plain).bytes = target.bytes ++ [c] := by
  simp [Target.bytes, Target.snocPath, plainExtra]

theorem Target.bytes_mark (plainExtra : target.extra = []) (c : UInt8)
    (marker : c = question ∨ c = hash) :
    (target.mark c marker).bytes = target.bytes ++ [c] := by
  simp [Target.bytes, Target.mark, plainExtra]

theorem Target.bytes_snocExtra (marked : target.extra ≠ []) (c : UInt8)
    (plain : c ≠ space) :
    (target.snocExtra marked c plain).bytes = target.bytes ++ [c] := by
  simp [Target.bytes, Target.snocExtra]

theorem Target.snocExtra_ne_nil (marked : target.extra ≠ []) (c : UInt8)
    (plain : c ≠ space) :
    (target.snocExtra marked c plain).extra ≠ [] :=
  List.append_ne_nil_of_right_ne_nil target.extra (List.cons_ne_nil c [])

/-- The version starts where the space after the target was stored. -/
theorem versionStored_nil (pointer : request.version = some start) :
    VersionStored request memory start [] where
  pointer := pointer
  stored := by simp

/-- What a step of the parser owes, given what was consumed before it. -/
def StepSound (cuts : List Nat) (consumed : Bytes) (c : UInt8) :
    LineStep → Prop
  | .more exchange cursor =>
      LinePrefix exchange.request cursor.recvBuf cuts
          exchange.state (consumed ++ [c]) ∧
        Counted cursor (consumed.length + 1)
  | .line _ cursor =>
      c = cr ∧
        (∃ line : RequestLine,
          line.bytes = consumed ∧
            ∀ cut ∈ cuts,
              cut < line.target.extraStart ∨ line.versionStart ≤ cut) ∧
          cursor.recvCurrent = consumed.length + 1 ∧
            cursor.remain + consumed.length = ymoHttpRecvBufSize
  | .failed _ exchange =>
      exchange.wrapped = false ∧ exchange.high = consumed.length
  | .stop => False

theorem requestLineByte_sound
    (shape :
      LinePrefix exchange.request cursor.recvBuf cuts exchange.state consumed)
    (counted : Counted cursor consumed.length)
    (room : consumed.length < ymoHttpRecvBufSize)
    (c : UInt8) :
    StepSound cuts consumed c (requestLineByte exchange cursor c) := by
  have next : ∀ byte, Counted (cursor.put byte).decr
      (consumed.length + 1) :=
    counted.put_decr room
  have versionOpens :
      some (cursor.recvCurrent + 1) = some (consumed.length + 1) := by
    rw [counted.current]
  generalize stateIs : exchange.state = state at shape
  cases shape with
  | method tokens uncut =>
      simp only [requestLineByte, stateIs]
      split
      · rename_i token
        refine ⟨?_, next c⟩
        rw [stateIs]
        apply LinePrefix.method
        · intro other member
          rcases List.mem_append.mp member with earlier | last
          · exact tokens other earlier
          · rw [List.mem_singleton.mp last]
            exact token
        · intro cut member
          have bound := uncut cut member
          rw [List.length_append]
          omega
      · split
        · rename_i isSpace
          subst isSpace
          refine ⟨?_, next 0⟩
          rw [← Target.bytes_open consumed tokens]
          refine LinePrefix.path _ rfl ?_
          intro cut member
          have bound := uncut cut member
          simp only [Target.extraStart, Target.open]
          omega
        · exact ⟨counted.wrapped, counted.high⟩
  | path target plain uncut =>
      simp only [requestLineByte, stateIs]
      split
      · rename_i marker
        refine ⟨?_, next 0⟩
        rw [← Target.bytes_mark target plain c (.inl marker)]
        exact LinePrefix.query _ (List.cons_ne_nil c []) uncut
      · split
        · rename_i marker
          refine ⟨?_, next 0⟩
          rw [← Target.bytes_mark target plain c (.inr marker)]
          exact LinePrefix.fragment _ (List.cons_ne_nil c []) uncut
        · split
          · rename_i isSpace
            subst isSpace
            refine ⟨?_, next 0⟩
            exact
              LinePrefix.version target (by simp)
                (versionStored_nil versionOpens)
                (fun cut member => .inl (uncut cut member))
          · rename_i notQuestion notHash notSpace
            have ordinary : c ≠ question ∧ c ≠ hash ∧ c ≠ space :=
              ⟨notQuestion, notHash, notSpace⟩
            refine ⟨?_, next c⟩
            rw [stateIs, ← Target.bytes_snocPath target plain c ordinary]
            refine LinePrefix.path _ rfl ?_
            intro cut member
            have bound := uncut cut member
            simp only [Target.extraStart, Target.snocPath,
              List.length_append] at bound ⊢
            omega
  | query target marked uncut =>
      simp only [requestLineByte, stateIs]
      split
      · rename_i isHash
        have ordinary : c ≠ space := by
          rw [isHash]
          decide
        refine ⟨?_, next 0⟩
        rw [← Target.bytes_snocExtra target marked c ordinary]
        exact
          LinePrefix.fragment _
            (target.snocExtra_ne_nil marked c ordinary) uncut
      · split
        · rename_i isSpace
          subst isSpace
          refine ⟨?_, next 0⟩
          exact
            LinePrefix.version target (by simp)
              (versionStored_nil versionOpens)
              (fun cut member => .inl (uncut cut member))
        · rename_i ordinary
          refine ⟨?_, next c⟩
          rw [stateIs, ← Target.bytes_snocExtra target marked c ordinary]
          exact
            LinePrefix.query _
              (target.snocExtra_ne_nil marked c ordinary) uncut
  | fragment target marked uncut =>
      simp only [requestLineByte, stateIs]
      split
      · rename_i ordinary
        refine ⟨?_, next c⟩
        rw [stateIs, ← Target.bytes_snocExtra target marked c ordinary]
        exact
          LinePrefix.fragment _
            (target.snocExtra_ne_nil marked c ordinary) uncut
      · rename_i notOrdinary
        have isSpace : c = space := not_not.mp notOrdinary
        subst isSpace
        refine ⟨?_, next 0⟩
        exact
          LinePrefix.version target (by simp)
            (versionStored_nil versionOpens)
            (fun cut member => .inl (uncut cut member))
  | @version target version plain held uncut =>
      have start :
          (target.bytes ++ space :: version).length =
            target.bytes.length + 1 + version.length := by
        simp only [List.length_append, List.length_cons]
        omega
      simp only [requestLineByte, stateIs]
      split
      · rename_i ordinary
        refine ⟨?_, next c⟩
        rw [stateIs, List.append_assoc, List.cons_append]
        refine LinePrefix.version target ?_ ?_ uncut
        · intro other member
          rcases List.mem_append.mp member with earlier | last
          · exact plain other earlier
          · rw [List.mem_singleton.mp last]
            exact ordinary
        · have stored := held.snoc c
          rw [← start, ← counted.current] at stored
          rw [Cursor.recvBuf_decr]
          exact stored
      · rename_i notOrdinary
        have isCr : c = cr := not_not.mp notOrdinary
        have versionLen :
            cursor.recvCurrent - exchange.request.version.getD 0 =
              version.length := by
          rw [held.pointer, counted.current, start, Option.getD_some]
          omega
        rw [versionLen]
        split
        · rename_i checked accepted
          have supported :=
            (checkRequest_isSome_iff held).mp
              (Option.isSome_of_eq_some accepted)
          refine ⟨isCr, ?_, ?_, counted.remain⟩
          · exact
              ⟨{ target := target
                 version := version
                 version_plain := plain
                 version_length := supported.1
                 major_one := supported.2.1
                 minor_known := supported.2.2 },
                rfl, uncut⟩
          · exact congrArg (· + 1) counted.current
        · exact ⟨counted.wrapped, counted.high⟩

/-! ### Runs of the request line parser -/

@[simp]
theorem cursor_save (exchange : HttpExchange) (cursor : Cursor) :
    (exchange.save cursor).cursor = cursor :=
  rfl

theorem parseDone_of_remain (left : cursor.remain ≠ 0)
    (exchange : HttpExchange)
    (count : Nat) :
    parseDone exchange cursor count = .took count (exchange.save cursor) :=
  if_pos left

theorem parseDone_of_no_remain (full : cursor.remain = 0)
    (exchange : HttpExchange)
    (count : Nat) :
    parseDone exchange cursor count =
      .failed .efbig (exchange.abandon cursor) :=
  if_neg (not_not.mpr full)

/-- The reader stands inside a line of which it has consumed some bytes. -/
structure MidLine
    (cuts : List Nat)
    (consumed : Bytes)
    (exchange : HttpExchange)
    (cursor : Cursor) : Prop where
  shape :
    LinePrefix exchange.request cursor.recvBuf cuts exchange.state consumed
  counted : Counted cursor consumed.length
  left : cursor.remain ≠ 0

/-- A line is completed by bytes that follow what was consumed. -/
def LineCompleted (cuts : List Nat) (consumed buffer : Bytes) : Prop :=
  ∃ (line : RequestLine) (inside beyond : Bytes),
    buffer = inside ++ cr :: beyond ∧
      line.bytes = consumed ++ inside ∧
        line.bytes.length < ymoHttpRecvBufSize ∧
          ∀ cut ∈ cuts, cut < line.target.extraStart ∨ line.versionStart ≤ cut

/-- What a call of the parser owes, given what was consumed before it. -/
def CallSound (cuts : List Nat) (consumed buffer : Bytes) (count : Nat) :
    Parsed → Prop
  | .took taken exchange =>
      (taken = count + buffer.length ∧
          MidLine cuts (consumed ++ buffer) exchange exchange.cursor) ∨
        LineCompleted cuts consumed buffer
  | stopped => KeepsAccount stopped

theorem LineCompleted.cons {consumed rest : Bytes} {c : UInt8}
    (completed : LineCompleted cuts (consumed ++ [c]) rest) :
    LineCompleted cuts consumed (c :: rest) := by
  rcases completed with ⟨line, inside, beyond, split, whole, others⟩
  refine ⟨line, c :: inside, beyond, ?_, ?_, others⟩
  · rw [split, List.cons_append]
  · rw [whole, List.append_assoc]
    rfl

theorem requestLineLoop_sound (mid : MidLine cuts consumed exchange cursor)
    (count : Nat)
    (buffer : Bytes) :
    CallSound cuts consumed buffer count
      (requestLineLoop exchange cursor count buffer) := by
  induction buffer generalizing consumed exchange cursor count with
  | nil =>
      rw [requestLineLoop, parseDone_of_remain mid.left]
      refine .inl ⟨rfl, ?_⟩
      rw [List.append_nil, cursor_save]
      exact ⟨mid.shape, mid.counted, mid.left⟩
  | cons c rest ih =>
      have room := mid.counted.room mid.left
      have sound := requestLineByte_sound mid.shape mid.counted room c
      rw [requestLineLoop]
      cases step : requestLineByte exchange cursor c with
      | more later moved =>
          rw [step] at sound
          have counted := sound.2
          dsimp only
          split
          · rename_i full
            have total := counted.remain
            have high := counted.high
            rw [parseDone_of_no_remain full]
            refine ⟨counted.wrapped, ?_, fun _ => rfl⟩
            simp only [HttpExchange.abandon]
            omega
          · rename_i left
            have moveOn : MidLine cuts (consumed ++ [c]) later moved := by
              refine ⟨sound.1, ?_, left⟩
              rw [List.length_append]
              exact counted
            have run := ih moveOn (count + 1)
            cases outcome : requestLineLoop later moved (count + 1) rest with
            | took taken final =>
                rw [outcome] at run
                rcases run with ⟨all, middle⟩ | completed
                · refine .inl ⟨?_, ?_⟩
                  · rw [all, List.length_cons]
                    omega
                  · rw [List.append_assoc] at middle
                    exact middle
                · exact .inr completed.cons
            | failed errno final =>
                rw [outcome] at run
                exact run
            | fault final =>
                rw [outcome] at run
                exact run
      | line later moved =>
          rw [step] at sound
          rcases sound with ⟨isCr, ⟨line, whole, uncut⟩, -, total⟩
          have left : moved.remain ≠ 0 := by omega
          dsimp only
          rw [parseDone_of_remain left]
          refine .inr ⟨line, [], rest, ?_, ?_, ?_, uncut⟩
          · rw [isCr]
            rfl
          · rw [whole, List.append_nil]
          · rw [whole]
            exact room
      | failed errno later =>
          rw [step] at sound
          have high := sound.2
          exact ⟨sound.1, by omega, by omega⟩
      | stop =>
          rw [step] at sound
          exact sound.elim

/-! ### Reads that complete no line -/

/-- Where the reads so far have been cut. -/
def cutsOf (reads : List Bytes) : List Nat :=
  reads.inits.map fun front => front.flatten.length

theorem mem_cutsOf {reads front : List Bytes} (isPrefix : front <+: reads) :
    front.flatten.length ∈ cutsOf reads :=
  List.mem_map.mpr ⟨front, (List.mem_inits front reads).mpr isPrefix, rfl⟩

theorem prefix_of_mem_cutsOf {reads : List Bytes} {cut : Nat}
    (member : cut ∈ cutsOf reads) :
    ∃ front, front <+: reads ∧ front.flatten.length = cut := by
  rcases List.mem_map.mp member with ⟨front, among, equal⟩
  exact ⟨front, (List.mem_inits front reads).mp among, equal⟩

theorem mem_cutsOf_concat {prior : List Bytes} {read : Bytes} {cut : Nat}
    (member : cut ∈ cutsOf (prior ++ [read])) :
    cut ∈ cutsOf prior ∨ cut = (prior.flatten ++ read).length := by
  rcases prefix_of_mem_cutsOf member with ⟨front, isPrefix, rfl⟩
  rcases List.prefix_concat_iff.mp isPrefix with whole | earlier
  · refine .inr ?_
    rw [whole, List.flatten_append, List.flatten_singleton]
  · exact .inl (mem_cutsOf earlier)

/-- A read may end wherever the parser is not in a query or fragment. -/
theorem LinePrefix.cut {cuts later : List Nat} {state : HttpState}
    (shape : LinePrefix request memory cuts state consumed)
    (notQuery : state ≠ .requestQuery)
    (notFragment : state ≠ .requestFragment)
    (added : ∀ cut ∈ later, cut ∈ cuts ∨ cut = consumed.length) :
    LinePrefix request memory later state consumed := by
  cases shape with
  | method tokens uncut =>
      refine LinePrefix.method tokens ?_
      intro cut member
      rcases added cut member with earlier | here
      · exact uncut cut earlier
      · exact here.le
  | path target plain uncut =>
      refine LinePrefix.path target plain ?_
      intro cut member
      rcases added cut member with earlier | here
      · exact uncut cut earlier
      · rw [here, target.length_bytes, plain, Target.extraStart,
          List.length_nil]
        omega
  | query target marked uncut => exact absurd rfl notQuery
  | fragment target marked uncut => exact absurd rfl notFragment
  | version target plain held uncut =>
      refine LinePrefix.version target plain held ?_
      intro cut member
      rcases added cut member with earlier | here
      · exact uncut cut earlier
      · refine .inr ?_
        rw [here, List.length_append, List.length_cons]
        omega

/-- The exchange as the request line parser gets it. -/
def asParsed (exchange : HttpExchange) : HttpExchange :=
  if exchange.state = .connected then { exchange with state := .requestMethod }
  else exchange

@[simp]
theorem cursor_asParsed (exchange : HttpExchange) :
    (asParsed exchange).cursor = exchange.cursor := by
  unfold asParsed
  split <;> rfl

/-- The exchange between two reads, before its request line is complete. -/
structure BetweenReads
    (prior : List Bytes)
    (exchange : HttpExchange) : Prop where
  mid :
    MidLine (cutsOf prior) prior.flatten (asParsed exchange) exchange.cursor
  notQuery : exchange.state ≠ .requestQuery
  notFragment : exchange.state ≠ .requestFragment

theorem asParsed_of_midLine
    (mid : MidLine cuts consumed exchange exchange.cursor) :
    asParsed exchange = exchange := by
  refine if_neg ?_
  intro connected
  have shape := mid.shape
  rw [connected] at shape
  cases shape

theorem BetweenReads.next {prior : List Bytes} {read : Bytes}
    (mid :
      MidLine (cutsOf prior) (prior.flatten ++ read) exchange exchange.cursor)
    (notQuery : exchange.state ≠ .requestQuery)
    (notFragment : exchange.state ≠ .requestFragment) :
    BetweenReads (prior ++ [read]) exchange where
  mid := by
    have flat : (prior ++ [read]).flatten = prior.flatten ++ read := by
      rw [List.flatten_append, List.flatten_singleton]
    rw [asParsed_of_midLine mid, flat]
    exact
      ⟨mid.shape.cut notQuery notFragment
          (fun cut member => mem_cutsOf_concat member),
        mid.counted, mid.left⟩
  notQuery := notQuery
  notFragment := notFragment

/-- The states in which the request line parser is called. -/
theorem parseHead_asParsed
    (called :
      (asParsed exchange).state = .requestMethod ∨
        (asParsed exchange).state = .requestUriPath ∨
          (asParsed exchange).state = .requestVersion)
    (stray buffer : Bytes) :
    parseHead stray exchange buffer =
      some (ymoParseHttpRequestLine (asParsed exchange) buffer) := by
  by_cases connected : exchange.state = .connected
  · rw [asParsed, if_pos connected, parseHead, connected]
  · rw [asParsed, if_neg connected] at called ⊢
    rcases called with method | path | version
    · rw [parseHead, method]
    · rw [parseHead, path]
    · rw [parseHead, version]

theorem BetweenReads.parseHead {prior : List Bytes}
    (between : BetweenReads prior exchange)
    (stray buffer : Bytes) :
    parseHead stray exchange buffer =
      some (ymoParseHttpRequestLine (asParsed exchange) buffer) := by
  apply parseHead_asParsed
  have shape := between.mid.shape
  have notQuery := between.notQuery
  have notFragment := between.notFragment
  unfold asParsed at shape ⊢
  split at shape
  · rename_i connected
    exact .inl (by rw [if_pos connected])
  · rename_i connected
    rw [if_neg connected]
    cases state : exchange.state <;> rw [state] at shape
    case requestMethod => exact .inl rfl
    case requestUriPath => exact .inr (.inl rfl)
    case requestVersion => exact .inr (.inr rfl)
    case requestQuery => exact absurd state notQuery
    case requestFragment => exact absurd state notFragment
    all_goals cases shape

/-- A line completed within a read is completed by the reads. -/
theorem LineCompleted.completes {prior reads : List Bytes} {read : Bytes}
    (completed : LineCompleted (cutsOf prior) prior.flatten read) :
    ∃ line : RequestLine, line.Completes (prior ++ read :: reads) := by
  rcases completed with
    ⟨line, inside, beyond, split, whole, fits, uncut⟩
  refine ⟨line, ?_, fits, ?_⟩
  · refine ⟨beyond ++ reads.flatten, ?_⟩
    rw [whole, List.flatten_append, List.flatten_cons, split]
    simp only [List.append_assoc, List.cons_append, List.nil_append]
  · intro front isPrefix
    have upTo : prior ++ [read] <+: prior ++ read :: reads := ⟨reads, by simp⟩
    rcases List.prefix_or_prefix_of_prefix isPrefix upTo with
      within | beyondRead
    · rcases List.prefix_concat_iff.mp within with all | earlier
      · refine .inr ?_
        rw [all, List.flatten_append, List.flatten_singleton, split,
          List.length_append, List.length_append, List.length_cons]
        have length := congrArg List.length whole
        rw [RequestLine.bytes, List.length_append, List.length_cons,
          List.length_append] at length
        rw [RequestLine.versionStart]
        omega
      · exact uncut _ (mem_cutsOf earlier)
    · refine .inr ?_
      have longer :
          (prior ++ [read]).flatten.length ≤ front.flatten.length := by
        rcases beyondRead with ⟨tail, rfl⟩
        have extended :
            (prior ++ [read]).flatten <+: (prior ++ [read] ++ tail).flatten :=
          ⟨tail.flatten, by simp⟩
        exact extended.length_le
      rw [List.flatten_append, List.flatten_singleton, split,
        List.length_append, List.length_append, List.length_cons]
        at longer
      have length := congrArg List.length whole
      rw [RequestLine.bytes, List.length_append, List.length_cons,
        List.length_append] at length
      rw [RequestLine.versionStart]
      omega

theorem MidLine.keepsAccount
    (mid : MidLine cuts consumed exchange exchange.cursor)
    (count : Nat) :
    KeepsAccount (.took count exchange) := by
  have current := mid.counted.current
  have total := mid.counted.remain
  have high := mid.counted.high
  have left := mid.left
  simp only [HttpExchange.cursor] at current total high left
  refine ⟨by omega, mid.counted.wrapped, by omega⟩

/-- No parser of the head is called for a read that starts in a query. -/
theorem driveReads_stuck
    (stray : Bytes)
    (inside :
      exchange.state = .requestQuery ∨ exchange.state = .requestFragment)
    (reads : List Bytes) :
    driveReads stray exchange reads = [] := by
  induction reads with
  | nil => rfl
  | cons read reads ih =>
      cases read with
      | nil => exact ih
      | cons c rest =>
          rcases inside with query | fragment
          · simp [driveReads, driveRead, Parse.parseHead, query]
          · simp [driveReads, driveRead, Parse.parseHead, fragment]

theorem keepsAccount_driveReads (stray : Bytes) {prior : List Bytes}
    (between : BetweenReads prior exchange)
    {reads : List Bytes}
    (noLine : ¬ ∃ line : RequestLine, line.Completes (prior ++ reads)) :
    AccountKept stray exchange reads := by
  induction reads generalizing prior exchange with
  | nil =>
      intro call member
      exact absurd member List.not_mem_nil
  | cons read reads ih =>
      have noLater :
          ¬ ∃ line : RequestLine,
            line.Completes ((prior ++ [read]) ++ reads) := by
        rw [List.append_assoc]
        exact noLine
      cases read with
      | nil =>
          have again : BetweenReads (prior ++ [[]]) exchange := by
            have mid := between.mid
            have flat : (prior ++ [[]]).flatten = prior.flatten := by simp
            refine ⟨?_, between.notQuery, between.notFragment⟩
            rw [flat]
            refine ⟨?_, mid.counted, mid.left⟩
            refine mid.shape.cut ?_ ?_ ?_
            · unfold asParsed
              split
              · exact HttpState.noConfusion
              · exact between.notQuery
            · unfold asParsed
              split
              · exact HttpState.noConfusion
              · exact between.notFragment
            · intro cut member
              have either := mem_cutsOf_concat member
              rw [List.append_nil] at either
              exact either
          exact ih again noLater
      | cons c rest =>
          have nonempty : c :: rest ≠ [] := List.cons_ne_nil c rest
          have called := between.parseHead stray (c :: rest)
          have sound := requestLineLoop_sound between.mid 0 (c :: rest)
          rw [← cursor_asParsed] at sound
          cases outcome :
              ymoParseHttpRequestLine (asParsed exchange) (c :: rest) with
          | took taken later =>
              rw [ymoParseHttpRequestLine] at outcome
              rw [outcome] at sound
              rcases sound with ⟨all, mid⟩ | completed
              · rw [Nat.zero_add] at all
                rw [all] at outcome
                rw [ymoParseHttpRequestLine, outcome] at called
                rw [AccountKept, driveReads_took nonempty called]
                intro call member
                rcases List.mem_cons.mp member with here | after
                · rw [here]
                  exact mid.keepsAccount _
                · by_cases inside :
                      later.state = .requestQuery ∨
                        later.state = .requestFragment
                  · rw [driveReads_stuck stray inside] at after
                    exact absurd after List.not_mem_nil
                  · rcases not_or.mp inside with
                      ⟨notQuery, notFragment⟩
                    exact
                      ih
                        (BetweenReads.next mid notQuery notFragment)
                        noLater call after
              · exact absurd completed.completes noLine
          | failed errno later =>
              rw [outcome] at called
              rw [ymoParseHttpRequestLine] at outcome
              rw [outcome] at sound
              rw [AccountKept, driveReads_failed nonempty called]
              intro call member
              rw [List.mem_singleton.mp member]
              exact sound
          | fault later =>
              rw [ymoParseHttpRequestLine] at outcome
              rw [outcome] at sound
              exact sound.elim

/-! ### Reads that complete a line -/

/-- What is still to come of a line that will be completed. -/
inductive LineAhead
    (line : RequestLine)
    (request : HttpRequest)
    (cursor : Cursor) :
    HttpState → Bytes → Prop where
  | method
      {method : Bytes}
      (tokens : ∀ c ∈ method, isHttpMethodToken c = true) :
      LineAhead line request cursor .requestMethod
        (method ++ space ::
          (line.target.path ++
            (line.target.extra ++ space :: (line.version ++ [cr]))))
  | path
      {path : Bytes}
      (plain : ∀ c ∈ path, c ≠ question ∧ c ≠ hash ∧ c ≠ space) :
      LineAhead line request cursor .requestUriPath
        (path ++ (line.target.extra ++ space :: (line.version ++ [cr])))
  | query
      {extra : Bytes}
      (plain : ∀ c ∈ extra, c ≠ space)
      (shorter : extra.length < line.target.extra.length) :
      LineAhead line request cursor .requestQuery
        (extra ++ space :: (line.version ++ [cr]))
  | fragment
      {extra : Bytes}
      (plain : ∀ c ∈ extra, c ≠ space)
      (shorter : extra.length < line.target.extra.length) :
      LineAhead line request cursor .requestFragment
        (extra ++ space :: (line.version ++ [cr]))
  | version
      {read ahead : Bytes}
      {start : Nat}
      (split : line.version = read ++ ahead)
      (held : VersionStored request cursor.recvBuf start read)
      (current : start + read.length = cursor.recvCurrent) :
      LineAhead line request cursor .requestVersion (ahead ++ [cr])

/-- What a step owes when the line will be completed. -/
def StepAhead (line : RequestLine) (count : Nat) (todo : Bytes) :
    LineStep → Prop
  | .more exchange cursor =>
      LineAhead line exchange.request cursor exchange.state todo ∧
        Counted cursor (count + 1)
  | .line _ cursor =>
      cursor.remain ≠ 0 ∧
        cursor.recvCurrent + cursor.remain = ymoHttpRecvBufSize + 1
  | _ => False

variable {line : RequestLine}

theorem requestLineByte_ahead {c : UInt8}
    (shape : LineAhead line exchange.request cursor exchange.state (c :: todo))
    (counted : Counted cursor count)
    (room : count < ymoHttpRecvBufSize) :
    StepAhead line count todo (requestLineByte exchange cursor c) := by
  have next : ∀ byte, Counted (cursor.put byte).decr (count + 1) :=
    counted.put_decr room
  have moved :
      ∀ byte, (cursor.put byte).decr.recvCurrent = cursor.recvCurrent + 1 := by
    intro byte
    rw [Cursor.recvCurrent_decr]
    rfl
  generalize stateIs : exchange.state = state at shape
  generalize whole : c :: todo = ahead at shape
  cases shape with
  | @method method tokens =>
      cases method with
      | nil =>
          rcases List.cons_eq_cons.mp whole with ⟨isSpace, rest⟩
          subst isSpace rest
          simp only [requestLineByte, stateIs]
          exact ⟨LineAhead.path line.target.path_plain, next 0⟩
      | cons first method =>
          rcases List.cons_eq_cons.mp whole with ⟨isFirst, rest⟩
          subst isFirst rest
          have token : isHttpMethodToken c = true :=
            tokens c List.mem_cons_self
          simp only [requestLineByte, stateIs, if_pos token]
          refine ⟨?_, next c⟩
          rw [stateIs]
          exact
            LineAhead.method fun other member =>
              tokens other (List.mem_cons_of_mem c member)
  | @path path plain =>
      cases path with
      | nil =>
          cases extra : line.target.extra with
          | nil =>
              rw [extra] at whole
              rcases List.cons_eq_cons.mp whole with ⟨isSpace, rest⟩
              subst isSpace rest
              simp only [requestLineByte, stateIs]
              exact
                ⟨LineAhead.version (List.nil_append _).symm
                  (versionStored_nil rfl) (moved 0).symm, next 0⟩
          | cons marker later =>
              rw [extra] at whole
              rcases List.cons_eq_cons.mp whole with ⟨isMarker, rest⟩
              subst isMarker rest
              have plainLater : ∀ other ∈ later, other ≠ space := by
                intro other member
                apply line.target.extra_plain other
                rw [extra]
                exact List.mem_cons_of_mem c member
              have shorter : later.length < line.target.extra.length := by
                rw [extra]
                exact Nat.lt_succ_self _
              have marked := line.target.extra_marked
              rw [extra] at marked
              rcases marked with none | isQuestion | isHash
              · exact absurd none (Option.some_ne_none c)
              · have equal : c = question := Option.some.inj isQuestion
                subst equal
                simp only [requestLineByte, stateIs]
                exact ⟨LineAhead.query plainLater shorter, next 0⟩
              · have equal : c = hash := Option.some.inj isHash
                subst equal
                simp only [requestLineByte, stateIs]
                exact ⟨LineAhead.fragment plainLater shorter, next 0⟩
      | cons first path =>
          rcases List.cons_eq_cons.mp whole with ⟨isFirst, rest⟩
          subst isFirst rest
          have ordinary := plain c List.mem_cons_self
          simp only [requestLineByte, stateIs, if_neg ordinary.1,
            if_neg ordinary.2.1, if_neg ordinary.2.2]
          refine ⟨?_, next c⟩
          rw [stateIs]
          exact
            LineAhead.path fun other member =>
              plain other (List.mem_cons_of_mem c member)
  | @query extra plain shorter =>
      cases extra with
      | nil =>
          rcases List.cons_eq_cons.mp whole with ⟨isSpace, rest⟩
          subst isSpace rest
          simp only [requestLineByte, stateIs]
          exact
            ⟨LineAhead.version (List.nil_append _).symm
              (versionStored_nil rfl) (moved 0).symm, next 0⟩
      | cons first extra =>
          rcases List.cons_eq_cons.mp whole with ⟨isFirst, rest⟩
          subst isFirst rest
          have ordinary : c ≠ space := plain c List.mem_cons_self
          have plainLater : ∀ other ∈ extra, other ≠ space :=
            fun other member => plain other (List.mem_cons_of_mem c member)
          have shorterLater : extra.length < line.target.extra.length :=
            Nat.lt_of_succ_lt shorter
          simp only [requestLineByte, stateIs]
          split
          · exact ⟨LineAhead.fragment plainLater shorterLater, next 0⟩
          · refine ⟨?_, next c⟩
            rw [stateIs]
            exact LineAhead.query plainLater shorterLater
  | @fragment extra plain shorter =>
      cases extra with
      | nil =>
          rcases List.cons_eq_cons.mp whole with ⟨isSpace, rest⟩
          subst isSpace rest
          simp only [requestLineByte, stateIs]
          exact
            ⟨LineAhead.version (List.nil_append _).symm
              (versionStored_nil rfl) (moved 0).symm, next 0⟩
      | cons first extra =>
          rcases List.cons_eq_cons.mp whole with ⟨isFirst, rest⟩
          subst isFirst rest
          have ordinary : c ≠ space := plain c List.mem_cons_self
          simp only [requestLineByte, stateIs, if_pos ordinary]
          refine ⟨?_, next c⟩
          rw [stateIs]
          exact
            LineAhead.fragment
              (fun other member => plain other (List.mem_cons_of_mem c member))
              (Nat.lt_of_succ_lt shorter)
  | @version read ahead start split held current =>
      cases ahead with
      | nil =>
          rcases List.cons_eq_cons.mp whole with ⟨isCr, rest⟩
          subst isCr rest
          rw [List.append_nil] at split
          have versionLen :
              cursor.recvCurrent - exchange.request.version.getD 0 =
                read.length := by
            rw [held.pointer, ← current, Option.getD_some]
            omega
          have accepted :
              (checkRequest exchange cursor read.length).isSome = true := by
            rw [checkRequest_isSome_iff held, ← split]
            exact ⟨line.version_length, line.major_one, line.minor_known⟩
          rcases Option.isSome_iff_exists.mp accepted with
            ⟨checked, equal⟩
          have total := counted.remain
          have position := counted.current
          simp only [requestLineByte, stateIs, versionLen, equal]
          refine ⟨?_, ?_⟩
          · simp only [Cursor.put]
            omega
          · simp only [Cursor.put]
            omega
      | cons first ahead =>
          rcases List.cons_eq_cons.mp whole with ⟨isFirst, rest⟩
          subst isFirst rest
          have ordinary : c ≠ cr := by
            apply line.version_plain c
            rw [split]
            exact List.mem_append_right read List.mem_cons_self
          simp only [requestLineByte, stateIs, if_pos ordinary]
          refine ⟨?_, next c⟩
          rw [stateIs]
          have stored :
              VersionStored exchange.request
                (cursor.put c).decr.recvBuf start (read ++ [c]) := by
            rw [Cursor.recvBuf_decr, Cursor.put, ← current]
            exact held.snoc c
          refine LineAhead.version ?_ stored ?_
          · rw [split, List.append_assoc]
            rfl
          · rw [moved, ← current, List.length_append, List.length_singleton]
            omega

/-- The reader stands inside a line that will be completed. -/
structure OnTheWay
    (line : RequestLine)
    (count : Nat)
    (todo : Bytes)
    (exchange : HttpExchange)
    (cursor : Cursor) : Prop where
  ahead : LineAhead line exchange.request cursor exchange.state todo
  counted : Counted cursor count
  position : count + todo.length = line.bytes.length + 1

theorem LineAhead.ne_nil {state : HttpState}
    (ahead : LineAhead line request cursor state todo) :
    todo ≠ [] := by
  cases ahead <;> simp

/-- What a call owes when the line will be completed. -/
def CallAhead (line : RequestLine) (total position : Nat) (todo : Bytes) :
    Parsed → Prop
  | .took taken exchange =>
      exchange.recvCurrent + exchange.remain =
          ymoHttpRecvBufSize + 1 ∨
        (taken = total ∧ OnTheWay line position todo exchange exchange.cursor)
  | _ => False

/--
A call on the way to the end of the line either completes it or takes the whole
read and is still on the way.
-/
theorem requestLineLoop_ahead (fits : line.bytes.length < ymoHttpRecvBufSize)
    {position : Nat}
    {buffer beyond todo later : Bytes}
    (onTheWay : OnTheWay line position todo exchange cursor)
    (covers : buffer ++ beyond = todo ++ later)
    (count : Nat) :
    CallAhead line (count + buffer.length)
      (position + buffer.length) (todo.drop buffer.length)
      (requestLineLoop exchange cursor count buffer) := by
  induction buffer generalizing position exchange cursor todo count with
  | nil =>
      have ahead := onTheWay.ahead.ne_nil
      have total := onTheWay.counted.remain
      have here := onTheWay.position
      have some : 0 < todo.length := List.length_pos_iff.mpr ahead
      rw [requestLineLoop, parseDone_of_remain (by omega)]
      exact .inr ⟨rfl, onTheWay.ahead, onTheWay.counted, onTheWay.position⟩
  | cons c rest ih =>
      cases todo with
      | nil => exact absurd rfl onTheWay.ahead.ne_nil
      | cons first todo =>
          rw [List.cons_append, List.cons_append] at covers
          rcases List.cons_eq_cons.mp covers with ⟨isFirst, restCovers⟩
          subst isFirst
          have here := onTheWay.position
          rw [List.length_cons] at here
          have room : position < ymoHttpRecvBufSize := by omega
          have step :=
            requestLineByte_ahead onTheWay.ahead onTheWay.counted room
          rw [requestLineLoop]
          cases outcome : requestLineByte exchange cursor c with
          | more next moved =>
              rw [outcome] at step
              have some : 0 < todo.length :=
                List.length_pos_iff.mpr step.1.ne_nil
              have total := step.2.remain
              have left : moved.remain ≠ 0 := by omega
              have moveOn : OnTheWay line (position + 1) todo next moved :=
                ⟨step.1, step.2, by omega⟩
              have run := ih moveOn restCovers (count + 1)
              have shift :
                  ∀ start : Nat,
                    start + (c :: rest).length = start + 1 + rest.length := by
                intro start
                rw [List.length_cons]
                omega
              dsimp only
              rw [if_neg left, shift count, shift position,
                List.length_cons, List.drop_succ_cons]
              exact run
          | line next moved =>
              rw [outcome] at step
              dsimp only
              rw [parseDone_of_remain step.1]
              exact .inl step.2
          | failed errno next =>
              rw [outcome] at step
              exact step.elim
          | stop =>
              rw [outcome] at step
              exact step.elim

/-- The states in which a read may end on the way. -/
theorem OnTheWay.called (onTheWay : OnTheWay line count todo exchange cursor)
    (uncut : count < line.target.extraStart ∨ line.versionStart ≤ count) :
    exchange.state = .requestMethod ∨
      exchange.state = .requestUriPath ∨
        exchange.state = .requestVersion := by
  have ahead := onTheWay.ahead
  have position := onTheWay.position
  have outside :
      ∀ extra : Bytes,
        extra.length < line.target.extra.length →
          todo = extra ++ space :: (line.version ++ [cr]) →
            False := by
    intro extra shorter equal
    have lineLength :
        line.bytes.length =
          line.target.bytes.length + (line.version.length + 1) := by
      rw [RequestLine.bytes, List.length_append, List.length_cons]
    have targetLength := line.target.length_bytes
    rw [equal, List.length_append, List.length_cons,
      List.length_append, List.length_singleton] at position
    rw [Target.extraStart, RequestLine.versionStart] at uncut
    omega
  generalize state : exchange.state = stateNow at ahead ⊢
  cases ahead with
  | method tokens => exact .inl rfl
  | path plain => exact .inr (.inl rfl)
  | query plain shorter => exact (outside _ shorter rfl).elim
  | fragment plain shorter => exact (outside _ shorter rfl).elim
  | version split held current => exact .inr (.inr rfl)

theorem OnTheWay.asParsed
    (onTheWay : OnTheWay line count todo exchange cursor) :
    asParsed exchange = exchange := by
  refine if_neg ?_
  intro connected
  have ahead := onTheWay.ahead
  rw [connected] at ahead
  cases ahead

theorem driveReads_not_account
    (stray : Bytes)
    (fits : line.bytes.length < ymoHttpRecvBufSize)
    {prior reads : List Bytes}
    {todo later : Bytes}
    (onTheWay :
      OnTheWay line prior.flatten.length todo (asParsed exchange)
        exchange.cursor)
    (covers : reads.flatten = todo ++ later)
    (uncut :
      ∀ front,
        front <+: prior ++ reads →
          front.flatten.length < line.target.extraStart ∨
            line.versionStart ≤ front.flatten.length) :
    ¬ AccountKept stray exchange reads := by
  induction reads generalizing prior exchange todo with
  | nil =>
      have nothing : todo = [] := (List.append_eq_nil_iff.mp covers.symm).1
      exact absurd nothing onTheWay.ahead.ne_nil
  | cons read reads ih =>
      have uncutLater :
          ∀ front,
            front <+: (prior ++ [read]) ++ reads →
              front.flatten.length < line.target.extraStart ∨
                line.versionStart ≤ front.flatten.length := by
        rw [List.append_assoc]
        exact uncut
      have flat :
          (prior ++ [read]).flatten.length =
            prior.flatten.length + read.length := by
        rw [List.flatten_append, List.flatten_singleton, List.length_append]
      cases read with
      | nil =>
          rw [List.length_nil, Nat.add_zero] at flat
          rw [← flat] at onTheWay
          exact ih onTheWay covers uncutLater
      | cons c rest =>
          intro kept
          have called := onTheWay.called (uncut prior (List.prefix_append _ _))
          have nonempty : c :: rest ≠ [] := List.cons_ne_nil c rest
          have head := parseHead_asParsed called stray (c :: rest)
          have run := requestLineLoop_ahead fits onTheWay covers 0
          rw [← cursor_asParsed] at run
          rw [ymoParseHttpRequestLine] at head
          cases outcome :
              requestLineLoop (ReceiveSpace.asParsed exchange)
                (ReceiveSpace.asParsed exchange).cursor 0
                (c :: rest) with
          | took taken next =>
              rw [outcome] at run head
              rcases run with ended | ⟨all, onward⟩
              · have sum := (kept _ (mem_driveReads nonempty head reads)).1
                omega
              · rw [Nat.zero_add] at all
                rw [all] at head
                rw [AccountKept, driveReads_took nonempty head] at kept
                have laterKept : AccountKept stray next reads :=
                  fun call member => kept call (List.mem_cons_of_mem _ member)
                have some := List.length_pos_iff.mpr onward.ahead.ne_nil
                rw [List.length_drop] at some
                have restCovers :
                    reads.flatten = todo.drop (c :: rest).length ++ later := by
                  have dropped :=
                    congrArg (List.drop (c :: rest).length) covers
                  rw [List.flatten_cons, List.drop_left,
                    List.drop_append_of_le_length (by omega)]
                    at dropped
                  exact dropped
                have onwardParsed :
                    OnTheWay line (prior ++ [c :: rest]).flatten.length
                      (todo.drop (c :: rest).length)
                      (ReceiveSpace.asParsed next) next.cursor := by
                  rw [onward.asParsed, flat]
                  exact onward
                exact ih onwardParsed restCovers uncutLater laterKept
          | failed errno next =>
              rw [outcome] at run
              exact run.elim
          | fault next =>
              rw [outcome] at run
              exact run.elim

/-! ## The account of a drive from a reset exchange -/

theorem betweenReads_reset (exchange : HttpExchange) :
    BetweenReads [] (ymoHttpExchangeReset exchange) where
  mid := by
    refine ⟨?_, ⟨rfl, rfl, rfl, rfl⟩, Nat.succ_ne_zero 1023⟩
    refine LinePrefix.method (by simp) ?_
    intro cut member
    rcases prefix_of_mem_cutsOf member with ⟨front, isPrefix, rfl⟩
    rw [List.prefix_nil.mp isPrefix]
  notQuery := HttpState.noConfusion
  notFragment := HttpState.noConfusion

/--
The account of the receive buffer is kept over every call exactly when the
reads complete no acceptable request line: the terminator of an accepted line
is the one byte that is stored without being counted.
-/
theorem accountKept_iff (stray : Bytes) (exchange : HttpExchange)
    (reads : List Bytes) :
    AccountKept stray (ymoHttpExchangeReset exchange) reads ↔
      ¬ ∃ line : RequestLine, line.Completes reads := by
  constructor
  · rintro kept ⟨line, completes⟩
    rcases completes.starts with ⟨later, covers⟩
    have onTheWay :
        OnTheWay line ([] : List Bytes).flatten.length
          (line.bytes ++ [cr])
          (asParsed (ymoHttpExchangeReset exchange))
          (ymoHttpExchangeReset exchange).cursor := by
      refine ⟨?_, (betweenReads_reset exchange).mid.counted, ?_⟩
      · have whole :
            line.bytes ++ [cr] =
              line.target.method ++ space ::
                (line.target.path ++
                  (line.target.extra ++ space :: (line.version ++ [cr]))) := by
          simp [RequestLine.bytes, Target.bytes]
        rw [whole]
        exact LineAhead.method line.target.method_token
      · rw [List.length_append, List.length_singleton]
        exact Nat.zero_add _
    exact
      driveReads_not_account stray completes.fits onTheWay
        covers.symm completes.uncut kept
  · intro noLine
    exact keepsAccount_driveReads stray (betweenReads_reset exchange) noLine

/-- After `GET / HTTP/1.1` and a carriage return, 15 bytes are stored and 1010
of 1024 are left. -/
theorem not_accountKept_get :
    ¬ AccountKept [] ymoHttpExchangeCreate [bytes "GET / HTTP/1.1\r\n"] := by
  intro kept
  have head :
      ∃ later,
        parseHead [] ymoHttpExchangeCreate
            (bytes "GET / HTTP/1.1\r\n") =
          some (.took 15 later) ∧
          later.recvCurrent = 15 ∧ later.remain = 1010 :=
    ⟨_, rfl, rfl, rfl⟩
  rcases head with ⟨later, called, current, remain⟩
  have sum := (kept _ (mem_driveReads (by decide) called [])).1
  rw [current, remain] at sum
  exact absurd sum (by decide)

end Yimmo.Http.ReceiveSpace
