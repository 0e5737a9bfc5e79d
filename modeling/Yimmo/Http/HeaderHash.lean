import Yimmo.Http.HeaderLines
import Yimmo.Http.ReadProgress
import Yimmo.Http.ReceiveSpace

/-!
# The hash of a header name

The parser adds the characters of a name to a hash as they come, over as many reads
as it takes; the functions of the table hash the name as a string.  This module
follows the running hash through the parsers of the head: `NameState` says what it is
in every state that they leave behind, and `header_ids_agree` that a header is stored
under the id that the table computes for its name, in whatever case.

The hash begins anew with every name.  What is left of it where a line feed is
missing in front of the end of the headers is not used.
-/

namespace Yimmo.Http.HeaderHash

open Yimmo.Lib.ByteMemory
open Yimmo.Lib.TurnLoop
open Yimmo.Http.Headers
open Yimmo.Http.HeaderMap
open Yimmo.Http.Exchange
open Yimmo.Http.Parse
open Yimmo.Http.HeaderLines
open Yimmo.Http.ReadProgress
open Yimmo.Http.ReceiveSpace

variable
    {start : Nat}
    {name : Bytes}

/-! ## Ids -/

/-- The hash of the characters so far. -/
def runningHash (name : Bytes) : HdrId :=
  name.foldl ymoHdrHashCh ymoHttpHdrHashInit

theorem runningHash_snoc (name : Bytes) (c : UInt8) :
    runningHash (name ++ [c]) = ymoHdrHashCh (runningHash name) c := by
  rw [runningHash, List.foldl_append]
  rfl

theorem runningHash_mask (name : Bytes) :
    runningHash name &&& ymoHdrTableMask = ymoHttpHdrHash name :=
  rfl

/-- The operations on the table use the id for a name. -/
structure IdOf (hId : HdrId) (name : Bytes) : Prop where
  insert
    {Pointer : Type}
    {read : Pointer → Bytes}
    {hdr : Pointer}
    (same : read hdr = name)
    (table : HdrTable Pointer)
    (value : Pointer) :
    ymoHttpHdrTableInsert read table hdr value =
      ymoHttpHdrTableInsertPrecompute table hId hdr name.length value
  add
    {Pointer : Type}
    {read : Pointer → Bytes}
    {hdr : Pointer}
    (same : read hdr = name)
    (stray : Bytes)
    (table : HdrTable Pointer)
    (value : Pointer) :
    ymoHttpHdrTableAdd read stray table hdr value =
      match ymoHttpHdrTableGetId table hId with
      | some node =>
          if node.hId = ymoHttpHidSetCookie then
            tableInsertFirst table
              { hId := ymoHttpHidSetCookie, hdr := hdr,
                hdrLen := name.length, value := value, buffer := none }
          else
            ymoHttpHdrTableAddPrecompute read stray table hId hdr
              name.length value
      | none =>
          tableInsertFirst table
            { hId := hId, hdr := hdr, hdrLen := name.length,
              value := value, buffer := none }
  get
    {Pointer : Type}
    {read : Pointer → Bytes}
    {hdr : Pointer}
    (same : read hdr = name)
    (table : HdrTable Pointer) :
    ymoHttpHdrTableGet read table hdr =
      (ymoHttpHdrTableGetId table hId).map fun node => node.string read

theorem idOf_hash (name : Bytes) : IdOf (ymoHttpHdrHash name) name where
  insert same table value := by
    subst same
    rfl
  add same stray table value := by
    subst same
    rfl
  get same table := by
    subst same
    rfl

/-- Names that differ in case have one id. -/
theorem idOf_variant {variant name : Bytes}
    (variants : CaseVariant variant name) :
    IdOf (ymoHttpHdrHash name) variant := by
  rw [← hash_of_caseVariant variants]
  exact idOf_hash variant

/-! ## The running hash -/

/-- A name is being stored. -/
structure Naming
    (exchange : HttpExchange)
    (cursor : Cursor)
    (start : Nat)
    (name : Bytes) : Prop where
  tokens : ∀ c ∈ name, isHttpHdrFieldToken c = true
  hdrName : exchange.hdrName = some start
  holds : Holds cursor.recvBuf start name
  here : cursor.recvCurrent = start + name.length
  hId : exchange.hId = runningHash name

/-- A name has been stored, and ended. -/
structure Named
    (exchange : HttpExchange)
    (cursor : Cursor)
    (start : Nat)
    (name : Bytes) : Prop where
  tokens : ∀ c ∈ name, isHttpHdrFieldToken c = true
  hdrName : exchange.hdrName = some start
  stored : Terminated cursor.recvBuf cursor.recvCurrent start name
  hId : exchange.hId = runningHash name

/-- The parser is at the value of a header with this name. -/
structure AtValue
    (exchange : HttpExchange)
    (cursor : Cursor)
    (start : Nat)
    (name : Bytes) : Prop
    extends Named exchange cursor start name where
  hdrValue : exchange.hdrValue = some (start + name.length + 1)

/-- What the running hash is, in the states of the head. -/
def NameState (exchange : HttpExchange) : Prop :=
  match exchange.state with
  | .headerName => ∃ start name, Naming exchange exchange.cursor start name
  | .headerValueLeadingSpace =>
      ∃ start name,
        Named exchange exchange.cursor start name ∧
          exchange.recvCurrent = start + name.length + 1
  | .headerValue => ∃ start name, AtValue exchange exchange.cursor start name
  | .crlf =>
      (exchange.nextState = .headerName ∧
          exchange.hId = ymoHttpHdrHashInit) ∨
        exchange.nextState = .headersComplete
  | state =>
      state = .connected ∨ lineState state = true →
        exchange.hId = ymoHttpHdrHashInit

/-- A header was stored under the id of its name. -/
def Stored (stray : Bytes) (before after : HttpExchange) : Prop :=
  ∃ start name value hId,
    (∀ c ∈ name, isHttpHdrFieldToken c = true) ∧
      readString after.recvBuf after.recvCurrent start = name ∧
      after.request.headers =
        ymoHttpHdrTableAddPrecompute
          (readString after.recvBuf after.recvCurrent) stray
          before.request.headers hId start name.length value ∧
      (∀ variant, CaseVariant variant name → IdOf hId variant) ∧
      after.hId = ymoHttpHdrHashInit

/-- A call of a parser stores a header under the id of its name, if it stores one;
and the hash is what it was at first when a name begins. -/
structure Agrees
    (stray : Bytes)
    (before after : HttpExchange) : Prop where
  stored :
    after.request.headers = before.request.headers ∨ Stored stray before after
  fresh :
    after.state = .headerName → after.hdrName = some after.recvCurrent →
      after.hId = ymoHttpHdrHashInit

/-- The calls that take bytes are each in relation to what was before. -/
def Follow (relation : HttpExchange → HttpExchange → Prop) :
    HttpExchange → List Parsed → Prop
  | before, .took _ after :: calls =>
      relation before after ∧ Follow relation after calls
  | _, _ => True

/-! ## The parsers -/

/-- What a call leaves behind. -/
def CallKeeps (stray : Bytes) (before : HttpExchange) :
    Parsed → Prop
  | .took _ after =>
      NameState after ∧
        (after.request.headers = before.request.headers ∨
          (after.state = .crlf ∧ Stored stray before after))
  | _ => True

section

variable
  {stray : Bytes}
  {before exchange : HttpExchange}
  {cursor : Cursor}

theorem parseDone_keeps
    (keeps :
      NameState (exchange.save cursor) ∧
        (exchange.request.headers = before.request.headers ∨
          (exchange.state = .crlf ∧
            Stored stray before (exchange.save cursor))))
    (count : Nat) :
    CallKeeps stray before (parseDone exchange cursor count) := by
  unfold parseDone
  split
  · exact keeps
  · trivial

/-- One more character of a name. -/
theorem Naming.put (naming : Naming exchange cursor start name) {c : UInt8}
    (token : isHttpHdrFieldToken c = true) :
    Naming { exchange with hId := ymoHdrHashCh exchange.hId c }
      (cursor.put c).decr start (name ++ [c]) where
  tokens := by
    intro other member
    rcases List.mem_append.mp member with inName | last
    · exact naming.tokens other inName
    · rw [List.mem_singleton.mp last]
      exact token
  hdrName := naming.hdrName
  holds := by
    rw [Cursor.recvBuf_decr, holds_append, holds_cons]
    refine ⟨naming.holds.of_agree (Nat.le_of_eq naming.here.symm) ?_, ?_, ?_⟩
    · intro offset below
      exact store_other _ _ (Nat.ne_of_lt below)
    · rw [← naming.here]
      exact store_same ..
    · intro index byte found
      cases found
  here := by
    rw [List.length_append, List.length_singleton, ← Nat.add_assoc,
      ← naming.here]
    unfold Cursor.decr
    split
    · rfl
    · rfl
  hId := by rw [runningHash_snoc, ← naming.hId]

/-- The end of a name. -/
theorem Naming.close (naming : Naming exchange cursor start name)
    (state : HttpState) :
    Named { exchange with state := state } (cursor.put 0).decr start name where
  tokens := naming.tokens
  hdrName := naming.hdrName
  stored := by
    constructor
    · rw [Cursor.recvBuf_decr, holds_append, holds_cons]
      refine ⟨naming.holds.of_agree (Nat.le_of_eq naming.here.symm) ?_, ?_, ?_⟩
      · intro offset below
        exact store_other _ _ (Nat.ne_of_lt below)
      · rw [← naming.here]
        exact store_same ..
      · intro index byte found
        cases found
    · rw [Cursor.recvCurrent_decr]
      show start + name.length < cursor.recvCurrent + 1
      rw [naming.here]
      exact Nat.lt_succ_self _
  hId := naming.hId

/-- Stores behind the name leave it alone. -/
theorem Named.put (named : Named exchange cursor start name) (c : UInt8) :
    Named exchange (cursor.put c).decr start name where
  tokens := named.tokens
  hdrName := named.hdrName
  stored := by
    apply named.stored.later
    · intro offset below
      rw [Cursor.recvBuf_decr]
      exact store_other _ _ (Nat.ne_of_lt below)
    · rw [Cursor.recvCurrent_decr]
      exact Nat.le_succ _
  hId := named.hId

theorem Named.decr (named : Named exchange cursor start name) :
    Named exchange cursor.decr start name where
  tokens := named.tokens
  hdrName := named.hdrName
  stored := by
    rw [Cursor.recvBuf_decr, Cursor.recvCurrent_decr]
    exact named.stored
  hId := named.hId

theorem token_ne_zero_of_named (named : Named exchange cursor start name) :
    0 ∉ name := by
  intro member
  have token := named.tokens 0 member
  exact absurd token (by decide)

/-- The name is read as it was stored. -/
theorem Named.read (named : Named exchange cursor start name) :
    readString cursor.recvBuf cursor.recvCurrent start = name := by
  rw [named.stored.readString,
    cString_of_not_mem (token_ne_zero_of_named named)]

theorem nameState_of_naming (state : exchange.state = .headerName)
    (naming : Naming exchange cursor start name) :
    NameState (exchange.save cursor) := by
  unfold NameState
  rw [show (exchange.save cursor).state = .headerName from state]
  exact
    ⟨start, name, naming.tokens, naming.hdrName, naming.holds, naming.here,
      naming.hId⟩

theorem nameState_of_named (state : exchange.state = .headerValueLeadingSpace)
    (named : Named exchange cursor start name)
    (here : cursor.recvCurrent = start + name.length + 1) :
    NameState (exchange.save cursor) := by
  unfold NameState
  rw [show (exchange.save cursor).state = .headerValueLeadingSpace from state]
  exact
    ⟨start, name, ⟨named.tokens, named.hdrName, named.stored, named.hId⟩, here⟩

theorem nameState_of_atValue (state : exchange.state = .headerValue)
    (atValue : AtValue exchange cursor start name) :
    NameState (exchange.save cursor) := by
  unfold NameState
  rw [show (exchange.save cursor).state = .headerValue from state]
  exact
    ⟨start, name,
      ⟨atValue.tokens, atValue.hdrName, atValue.stored, atValue.hId⟩,
      atValue.hdrValue⟩

theorem nameState_of_crlf
    (state : exchange.state = .crlf)
    (ends :
      (exchange.nextState = .headerName ∧
          exchange.hId = ymoHttpHdrHashInit) ∨
        exchange.nextState = .headersComplete) :
    NameState (exchange.save cursor) := by
  unfold NameState
  rw [show (exchange.save cursor).state = .crlf from state]
  exact ends

theorem headerNameLoop_keeps (state : exchange.state = .headerName)
    (same : exchange.request.headers = before.request.headers)
    (naming : Naming exchange cursor start name)
    (count : Nat)
    (buffer : Bytes) :
    CallKeeps stray before
      (headerNameLoop exchange cursor count buffer) := by
  induction buffer generalizing exchange cursor count name with
  | nil =>
      exact
        parseDone_keeps ⟨nameState_of_naming state naming, Or.inl same⟩ count
  | cons c rest ih =>
      rw [headerNameLoop]
      split
      · split
        · split
          · next token =>
            let later := { exchange with hId := ymoHdrHashCh exchange.hId c }
            have laterState : later.state = .headerName := state
            have laterSame : later.request.headers = before.request.headers :=
              same
            dsimp only
            split
            · exact
                parseDone_keeps
                  ⟨nameState_of_naming laterState (naming.put token),
                    Or.inl laterSame⟩
                  _
            · exact ih laterState laterSame (naming.put token) _
          · trivial
        · have ended :
              NameState
                ((parserSawCr exchange .headersComplete).save cursor) :=
            nameState_of_crlf rfl (Or.inr rfl)
          exact parseDone_keeps ⟨ended, Or.inl same⟩ _
      · have closed := naming.close .headerValueLeadingSpace
        have here :
            (cursor.put 0).decr.recvCurrent = start + name.length + 1 := by
          rw [Cursor.recvCurrent_decr, ← naming.here]
          rfl
        exact
          parseDone_keeps ⟨nameState_of_named rfl closed here, Or.inl same⟩ _

theorem headers_gotValue :
    (httpHeaderGotValue stray exchange cursor).request.headers =
      ymoHttpHdrTableAddPrecompute
        (readString cursor.recvBuf cursor.recvCurrent) stray
        exchange.request.headers (exchange.hId &&& ymoHdrTableMask)
        (exchange.hdrName.getD 0)
        (exchange.hdrValue.getD 0 - exchange.hdrName.getD 0 - 1)
        (exchange.hdrValue.getD 0) := by
  unfold httpHeaderGotValue
  dsimp only
  rw [noteHeader_eq]

/-- The value is stored under the id of the name. -/
theorem stored_gotValue
    (same : exchange.request.headers = before.request.headers)
    (atValue : AtValue exchange cursor start name) :
    Stored stray before
      ((parserSawCr (httpHeaderGotValue stray exchange cursor)
        .headerName).save cursor) := by
  have length : start + name.length + 1 - start - 1 = name.length := by omega
  refine
    ⟨start, name, start + name.length + 1, ymoHttpHdrHash name,
      atValue.tokens, atValue.read, ?_, fun _ => idOf_variant, rfl⟩
  refine headers_gotValue.trans ?_
  rw [atValue.hId, atValue.hdrName, atValue.hdrValue, runningHash_mask, same]
  dsimp only [Option.getD_some]
  rw [length]
  rfl

theorem headerValueLoop_keeps (state : exchange.state = .headerValue)
    (same : exchange.request.headers = before.request.headers)
    (atValue : AtValue exchange cursor start name)
    (count : Nat)
    (buffer : Bytes) :
    CallKeeps stray before
      (headerValueLoop stray exchange cursor count buffer) := by
  have goesOn {moved : Cursor} (named : Named exchange moved start name)
      (laterCount : Nat) :
      CallKeeps stray before (parseDone exchange moved laterCount) :=
    parseDone_keeps
      ⟨nameState_of_atValue state ⟨named, atValue.hdrValue⟩, Or.inl same⟩
      laterCount
  induction buffer generalizing cursor count with
  | nil => exact goesOn atValue.toNamed count
  | cons c rest ih =>
      have put := atValue.toNamed.put
      rw [headerValueLoop]
      split
      · dsimp only
        split
        · exact goesOn (put c) _
        · split
          · exact goesOn (put c).decr _
          · exact ih ⟨(put c).decr, atValue.hdrValue⟩ _
      · have ended : AtValue exchange (cursor.put 0).decr start name :=
          ⟨put 0, atValue.hdrValue⟩
        exact
          parseDone_keeps
            ⟨nameState_of_crlf rfl (Or.inl ⟨rfl, rfl⟩),
              Or.inr ⟨rfl, stored_gotValue same ended⟩⟩
            _

/-- What holds of the exchange in front of every turn of the loop. -/
def HeadersKeep (stray : Bytes) (before exchange : HttpExchange) : Prop :=
  NameState exchange ∧
    (exchange.request.headers = before.request.headers ∨
      (exchange.state = .crlf ∧ Stored stray before exchange))

theorem HeadersKeep.same (keep : HeadersKeep stray before exchange)
    (other : exchange.state ≠ .crlf) :
    exchange.request.headers = before.request.headers :=
  keep.2.resolve_right fun stored => other stored.1

theorem parseDone_cursor_keeps (keep : HeadersKeep stray before exchange)
    (count : Nat) :
    CallKeeps stray before
      (parseDone exchange exchange.cursor count) := by
  unfold parseDone
  split
  · exact keep
  · trivial

theorem headersResume_keeps (locals : HeadersState) {parsed : Parsed}
    (keeps : CallKeeps stray before parsed) :
    (headersResume locals parsed).Satisfies
      (fun later => HeadersKeep stray before later.exchange)
      (CallKeeps stray before) := by
  cases parsed with
  | took taken later =>
      rw [headersResume]
      split
      · exact keeps
      · exact parseDone_cursor_keeps keeps _
  | failed errno later => trivial
  | fault later => trivial

theorem headersTurn_keeps {locals : HeadersState}
    (keep : HeadersKeep stray before locals.exchange) :
    (headersTurn stray locals).Satisfies
      (fun later => HeadersKeep stray before later.exchange)
      (CallKeeps stray before) := by
  have named := keep.1
  unfold NameState at named
  unfold headersTurn
  dsimp only
  cases state : locals.exchange.state with
  | headerName =>
      rw [state] at named
      rcases named with ⟨start, name, naming⟩
      have same := keep.same (by rw [state]; decide)
      exact
        headersResume_keeps locals
          (headerNameLoop_keeps state same naming 0 locals.buffer)
  | headerValueLeadingSpace =>
      rw [state] at named
      rcases named with ⟨start, name, named, here⟩
      have same := keep.same (by rw [state]; decide)
      dsimp only
      split
      · exact headersResume_keeps locals keep
      · let later :=
          { locals.exchange with
            hdrValue := some locals.exchange.recvCurrent
            state := .headerValue }
        have atValue : AtValue later later.cursor start name :=
          ⟨⟨named.tokens, named.hdrName, named.stored, named.hId⟩,
            congrArg some here⟩
        have laterSame : later.request.headers = before.request.headers := same
        exact
          headersResume_keeps locals
            (headerValueLoop_keeps rfl laterSame atValue 0 locals.buffer)
  | headerValue =>
      rw [state] at named
      rcases named with ⟨start, name, atValue⟩
      have same := keep.same (by rw [state]; decide)
      exact
        headersResume_keeps locals
          (headerValueLoop_keeps state same atValue 0 locals.buffer)
  | _ => exact parseDone_cursor_keeps keep _

theorem ymoParseHttpHeaders_keeps (named : NameState exchange)
    (buffer : Bytes) :
    CallKeeps stray exchange
      (ymoParseHttpHeaders stray exchange buffer) := by
  apply loop_satisfies
    (fun locals : HeadersState =>
      HeadersKeep stray exchange locals.exchange)
    (CallKeeps stray exchange)
  · exact fun _ keep => headersTurn_keeps keep
  · exact fun _ _ => trivial
  · exact ⟨named, Or.inl rfl⟩

end

/-! ## The request line -/

/-- The exchange has the hash and the headers of another. -/
def SameHash (before exchange : HttpExchange) : Prop :=
  exchange.hId = before.hId ∧ exchange.request.headers = before.request.headers

/-- The same for one byte of the request line. -/
def StepSameHash (before : HttpExchange) : LineStep → Prop
  | .more exchange _ => SameHash before exchange
  | .line exchange _ => SameHash before exchange
  | _ => True

/-- The same for what a parser takes. -/
def CallSameHash (before : HttpExchange) : Parsed → Prop
  | .took _ exchange => SameHash before exchange
  | _ => True

section

variable {before exchange : HttpExchange}

theorem sameHash_checkRequest {checked : HttpExchange} {cursor : Cursor}
    {versionLen : Nat}
    (accepted : checkRequest exchange cursor versionLen = some checked) :
    SameHash exchange checked := by
  unfold checkRequest at accepted
  dsimp only at accepted
  split at accepted
  · split at accepted
    · rw [← Option.some.inj accepted]
      exact ⟨rfl, rfl⟩
    · split at accepted
      · rw [← Option.some.inj accepted]
        exact ⟨rfl, rfl⟩
      · cases accepted
  · cases accepted

theorem requestLineByte_sameHash (exchange : HttpExchange) (cursor : Cursor)
    (c : UInt8) :
    StepSameHash exchange (requestLineByte exchange cursor c) := by
  cases state : exchange.state with
  | requestMethod =>
      simp only [requestLineByte, state]
      split
      · exact ⟨rfl, rfl⟩
      · split
        · exact ⟨rfl, rfl⟩
        · trivial
  | requestUriPath =>
      simp only [requestLineByte, state]
      split
      · exact ⟨rfl, rfl⟩
      · split
        · exact ⟨rfl, rfl⟩
        · split
          · exact ⟨rfl, rfl⟩
          · exact ⟨rfl, rfl⟩
  | requestQuery =>
      simp only [requestLineByte, state]
      split
      · exact ⟨rfl, rfl⟩
      · split
        · exact ⟨rfl, rfl⟩
        · exact ⟨rfl, rfl⟩
  | requestFragment =>
      simp only [requestLineByte, state]
      split
      · exact ⟨rfl, rfl⟩
      · exact ⟨rfl, rfl⟩
  | requestVersion =>
      simp only [requestLineByte, state]
      split
      · exact ⟨rfl, rfl⟩
      · split
        · next checked accepted =>
          have same : SameHash exchange checked :=
            sameHash_checkRequest accepted
          exact same
        · trivial
  | _ =>
      simp only [requestLineByte, state]
      trivial

theorem parseDone_sameHash {cursor : Cursor} (same : SameHash before exchange)
    (count : Nat) :
    CallSameHash before (parseDone exchange cursor count) := by
  unfold parseDone
  split
  · exact same
  · trivial

theorem requestLineLoop_sameHash (same : SameHash before exchange)
    (cursor : Cursor)
    (count : Nat)
    (buffer : Bytes) :
    CallSameHash before (requestLineLoop exchange cursor count buffer) := by
  induction buffer generalizing exchange cursor count with
  | nil => exact parseDone_sameHash same count
  | cons c rest ih =>
      have step := requestLineByte_sameHash exchange cursor c
      rw [requestLineLoop]
      cases outcome : requestLineByte exchange cursor c with
      | more later moved =>
          rw [outcome] at step
          have laterSame : SameHash before later :=
            ⟨step.1.trans same.1, step.2.trans same.2⟩
          dsimp only
          split
          · exact parseDone_sameHash laterSame _
          · exact ih laterSame moved _
      | line later moved =>
          rw [outcome] at step
          exact parseDone_sameHash ⟨step.1.trans same.1, step.2.trans same.2⟩ _
      | failed errno later => trivial
      | stop => exact parseDone_sameHash same count

/-- The request line leaves the hash at its initial value. -/
theorem ymoParseHttpRequestLine_keeps {stray : Bytes}
    (line : lineState exchange.state = true)
    (initial : exchange.hId = ymoHttpHdrHashInit)
    (same : exchange.request.headers = before.request.headers)
    (buffer : Bytes) :
    CallKeeps stray before
      (ymoParseHttpRequestLine exchange buffer) := by
  have ended := requestLineLoop_end line exchange.cursor 0 buffer
  have itself : SameHash exchange exchange := ⟨rfl, rfl⟩
  have hashes := requestLineLoop_sameHash itself exchange.cursor 0 buffer
  rw [ymoParseHttpRequestLine]
  cases outcome : requestLineLoop exchange exchange.cursor 0 buffer with
  | took taken later =>
      rw [outcome] at ended hashes
      have laterInitial : later.hId = ymoHttpHdrHashInit :=
        hashes.1.trans initial
      refine ⟨?_, Or.inl (hashes.2.trans same)⟩
      rcases ended.2.2 with ⟨laterLine, _⟩ | ⟨crlf, next⟩
      · unfold NameState
        cases state : later.state <;>
          first
            | exact fun _ => laterInitial
            | (rw [state] at laterLine
               exact absurd laterLine (by decide))
      · unfold NameState
        rw [crlf]
        exact Or.inl ⟨next, laterInitial⟩
  | failed errno later => trivial
  | fault later => trivial

/-- The line feed behind a line: a name begins, or the headers are complete. -/
theorem ymoParseHttpCrlf_keeps {stray : Bytes} (named : NameState exchange)
    (state : exchange.state = .crlf)
    (buffer : Bytes) :
    CallKeeps stray exchange (ymoParseHttpCrlf exchange buffer) := by
  unfold NameState at named
  rw [state] at named
  unfold ymoParseHttpCrlf
  cases buffer with
  | nil => trivial
  | cons c rest =>
      dsimp only
      split
      · trivial
      · rcases named with ⟨next, initial⟩ | next
        · rw [next]
          refine ⟨?_, Or.inl rfl⟩
          have nothing : ∀ c ∈ ([] : Bytes), isHttpHdrFieldToken c :=
            fun c member => absurd member List.not_mem_nil
          refine ⟨exchange.recvCurrent, [], nothing, rfl, ?_, rfl, initial⟩
          intro index byte found
          cases found
        · rw [next]
          refine ⟨?_, Or.inl rfl⟩
          rintro (same | line)
          · cases same
          · cases line

theorem initial_of_line (named : NameState exchange)
    (line : exchange.state = .connected ∨ lineState exchange.state = true) :
    exchange.hId = ymoHttpHdrHashInit := by
  unfold NameState at named
  cases state : exchange.state <;> rw [state] at named line <;>
    first
      | exact named line
      | exact absurd line (by decide)

/-- The parsers of the head keep the running hash. -/
theorem parseHead_keeps {stray buffer : Bytes} (named : NameState exchange)
    {parsed : Parsed}
    (called : parseHead stray exchange buffer = some parsed) :
    CallKeeps stray exchange parsed := by
  unfold parseHead at called
  have line :
      lineState exchange.state = true →
        CallKeeps stray exchange
          (ymoParseHttpRequestLine exchange buffer) := by
    intro line
    have initial := initial_of_line named (Or.inr line)
    exact ymoParseHttpRequestLine_keeps line initial rfl buffer
  cases state : exchange.state with
  | connected =>
      rw [state] at called
      cases called
      let started : HttpExchange := { exchange with state := .requestMethod }
      have initial : exchange.hId = ymoHttpHdrHashInit :=
        initial_of_line named (Or.inl state)
      have line : lineState started.state = true := rfl
      exact ymoParseHttpRequestLine_keeps line initial rfl buffer
  | crlf =>
      rw [state] at called
      cases called
      exact ymoParseHttpCrlf_keeps named state buffer
  | requestMethod =>
      rw [state] at called
      cases called
      exact line (by rw [state]; rfl)
  | requestUriPath =>
      rw [state] at called
      cases called
      exact line (by rw [state]; rfl)
  | requestVersion =>
      rw [state] at called
      cases called
      exact line (by rw [state]; rfl)
  | headerName =>
      rw [state] at called
      cases called
      exact ymoParseHttpHeaders_keeps named buffer
  | headerValueLeadingSpace =>
      rw [state] at called
      cases called
      exact ymoParseHttpHeaders_keeps named buffer
  | headerValue =>
      rw [state] at called
      cases called
      exact ymoParseHttpHeaders_keeps named buffer
  | _ =>
      rw [state] at called
      cases called

/-! ## Runs -/

variable {stray : Bytes}

theorem agrees_of_keeps {after : HttpExchange} {taken : Nat}
    (keeps : CallKeeps stray before (.took taken after)) :
    Agrees stray before after where
  stored := keeps.2.imp_right And.right
  fresh state begins := by
    have named := keeps.1
    unfold NameState at named
    rw [state] at named
    rcases named with ⟨start, name, naming⟩
    have same : start = after.recvCurrent :=
      Option.some.inj (naming.hdrName.symm.trans begins)
    have here : after.recvCurrent = start + name.length := naming.here
    have empty : name = [] := List.length_eq_zero_iff.mp (by omega)
    rw [naming.hId, empty]
    rfl

/-- The calls for one read, and then others. -/
theorem follow_driveRead
    (fuel : Nat)
    (named : NameState exchange)
    (buffer : Bytes)
    (more : List Parsed)
    (ends : (driveRead stray fuel exchange buffer).left = none → more = [])
    (goesOn :
      ∀ later,
        (driveRead stray fuel exchange buffer).left = some later →
          NameState later → Follow (Agrees stray) later more) :
    Follow (Agrees stray) exchange
      ((driveRead stray fuel exchange buffer).calls ++ more) := by
  induction fuel generalizing exchange buffer with
  | zero => exact goesOn exchange rfl named
  | succ fuel ih =>
      rw [driveRead] at ends goesOn ⊢
      by_cases empty : buffer = []
      · rw [if_pos empty] at goesOn ⊢
        exact goesOn exchange rfl named
      · rw [if_neg empty] at ends goesOn ⊢
        cases called : parseHead stray exchange buffer with
        | none =>
            rw [called] at ends
            rw [ends rfl]
            trivial
        | some parsed =>
            have keeps := parseHead_keeps named called
            rw [called] at ends goesOn
            cases parsed with
            | took count later =>
                exact ⟨agrees_of_keeps keeps, ih keeps.1 _ ends goesOn⟩
            | failed errno later => trivial
            | fault later => trivial

theorem follow_driveReads (named : NameState exchange) (reads : List Bytes) :
    Follow (Agrees stray) exchange
      (driveReads stray exchange reads) := by
  induction reads generalizing exchange with
  | nil => trivial
  | cons read reads ih =>
      rw [driveReads]
      cases left : (driveRead stray read.length exchange read).left with
      | none =>
          have all :=
            follow_driveRead read.length named read []
              (fun _ => rfl) fun later some => absurd (left.symm.trans some)
                (Option.some_ne_none later).symm
          rw [List.append_nil] at all
          exact all
      | some later =>
          refine
            follow_driveRead read.length named read _
              (fun none => absurd (left.symm.trans none)
                (Option.some_ne_none later))
              fun other some laterNamed => ?_
          cases left.symm.trans some
          exact ih laterNamed

theorem nameState_reset (exchange : HttpExchange) :
    NameState (ymoHttpExchangeReset exchange) := by
  unfold NameState
  exact fun _ => rfl

/-- However the head of a request is cut into reads, every header is stored under the
id that the table computes for its name in any case, and the running hash is what it
was at first when the next name begins. -/
theorem header_ids_agree (stray : Bytes) (exchange : HttpExchange)
    (reads : List Bytes) :
    Follow (Agrees stray) (ymoHttpExchangeReset exchange)
      (driveReads stray (ymoHttpExchangeReset exchange) reads) :=
  follow_driveReads (nameState_reset exchange) reads

end

end Yimmo.Http.HeaderHash
