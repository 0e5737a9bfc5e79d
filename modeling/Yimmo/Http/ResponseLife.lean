import Yimmo.Core.SendBuffer
import Yimmo.Http.Response
import Yimmo.Lib.GuardedRun

/-!
# The life of a response

An application prepares a response, appends to its body, marks it ready and
finishes it; the server calls the write callback in between, whenever it likes.
This module follows one response at the head of the session's list through such
a run: how it is framed, that a write callback leaves the connection open, and
that it is completed once.

A write callback that has nothing to send fails with `EBADMSG`, and a head that
does not fit fails with `ENOMEM`; both close the connection.  The results hold
in every run in which no write callback meets either.
-/

namespace Yimmo.Http.ResponseLife

open Yimmo.Core.StatusCode
open Yimmo.Core.Net
open Yimmo.Core.SendBuffer
open Yimmo.Lib.ByteMemory
open Yimmo.Lib.GuardedRun
open Yimmo.Http.Headers
open Yimmo.Http.Exchange
open Yimmo.Http.Parse
open Yimmo.Http.Application
open Yimmo.Http.Response

variable
    {memory : HdrMemory}
    {response : HttpResponse}
    {sendBuffer : List Bucket}
    {outcomes : List SendOutcome}
    {chain : List Bucket}

/-! ## The framing of a response -/

/-- The headers that say where the body ends. -/
def isFraming (node : HdrNode HdrPointer) : Bool :=
  node.hId == ymoHttpHidContentLength || node.hId == ymoHttpHidTransferEncoding

/-- The framing headers of a response, as they are serialized. -/
def framingHeaders (memory : HdrMemory) (response : HttpResponse) :
    List (HdrId × Bytes) :=
  (response.headers.nodes.filter isFraming).map fun node =>
    (node.hId, node.string (memory.string response.contentLenStr))

/--
The framing that the guide documents: the application's own, or else the length
of a finished body, or else chunks where the client takes them; without any of
these the response has to wait until it is finished.
-/
def documentedFraming (own : List (HdrId × Bytes)) (chunks finished : Bool)
    (total : Nat) :
    Option (List (HdrId × Bytes)) :=
  if own ≠ [] then some own
  else if finished then some [(ymoHttpHidContentLength, decimalDigits total)]
  else if chunks then some [(ymoHttpHidTransferEncoding, bytes "Chunked")]
  else none

/-! ## Runs -/

/-- A response as its handler gets it, with headers and a status set. -/
inductive Begun (memory : HdrMemory) : HttpResponse → Prop where
  | create
      {flags : HttpFlags}
      (notReady : flags.responseReady = false)
      (notStarted : flags.responseStarted = false)
      (notComplete : flags.responseComplete = false)
      (notChunked : flags.responseChunked = false)
      (notTerminated : flags.responseChunkTerm = false) :
      Begun memory (ymoHttpSessionInitResponse flags)
  | insertHeader
      {response : HttpResponse}
      (begun : Begun memory response)
      (header value : HdrPointer) :
      Begun memory (ymoHttpResponseInsertHeader memory response header value)
  | setStatus
      {response : HttpResponse}
      (begun : Begun memory response)
      (status : Nat) :
      Begun memory (ymoHttpResponseSetStatus response status)
  | setStatusStr
      {response : HttpResponse}
      (begun : Begun memory response)
      (status : Bytes) :
      Begun memory (ymoHttpResponseSetStatusStr response status)

/-- What happens to a response that has a status. -/
inductive Step where
  | append (data : Bytes) (nonempty : data ≠ [])
  | ready
  | finish
  | write (outcomes : List SendOutcome) (willing : Willing outcomes)

/-- A response at the head of the list, and what has become of it. -/
structure Talk where
  /-- The response, until it is completed. -/
  response : Option HttpResponse
  sendBuffer : List Bucket
  wire : Bytes
  /-- How often it was completed. -/
  completed : Nat
  /-- A write callback has failed the connection. -/
  closed : Bool
  finished : Bool
  /-- The length of what was appended. -/
  appended : Nat
  /-- The response as the callback left it that serialized its head. -/
  serialized : Option HttpResponse

def Talk.start (response : HttpResponse) : Talk where
  response := some response
  sendBuffer := []
  wire := []
  completed := 0
  closed := false
  finished := false
  appended := 0
  serialized := none

/-- `ymo_write_cb` closes the connection on this status. -/
def closes (status : Status) : Bool :=
  decide (status ≠ .okay) && !ymoIsBlocked status

/-- A write callback. -/
def writeTalk (memory : HdrMemory) (outcomes : List SendOutcome)
    (talk : Talk) :
    Talk :=
  match talk.response with
  | none => talk
  | some response =>
      let written := writeResponse memory outcomes response talk.sendBuffer
      { talk with
        response := if written.complete then none else some written.response
        sendBuffer := if written.complete then [] else written.sendBuffer
        wire := talk.wire ++ written.wire
        completed :=
          if written.complete then talk.completed + 1
          else talk.completed
        closed := closes written.status
        serialized :=
          if response.flags.responseStarted then talk.serialized
          else if written.response.flags.responseStarted then
            some written.response
          else none }

/-- A call of the application, which makes none after `finish`. -/
def callTalk (call : HttpResponse → HttpResponse) (length : Nat) (last : Bool)
    (talk : Talk) :
    Talk :=
  if talk.finished then talk
  else
    { talk with
      response := talk.response.map call
      appended := talk.appended + length
      finished := last }

/-- One step, on a connection that is still open. -/
def talkStep (memory : HdrMemory) (talk : Talk) (step : Step) : Talk :=
  if talk.closed then talk
  else
    match step with
    | .append data _ =>
        callTalk (ymoHttpResponseBodyAppend · data) data.length false talk
    | .ready => callTalk ymoHttpResponseReady 0 false talk
    | .finish => callTalk ymoHttpResponseFinish 0 true talk
    | .write outcomes _ => writeTalk memory outcomes talk

/--
A write callback finds work: a started response has bytes left, a body, or the
terminal chunk to send, and a head that is serialized fits.
-/
structure Finds
    (memory : HdrMemory)
    (response : HttpResponse)
    (sendBuffer : List Bucket) : Prop where
  something :
    response.flags.responseReady = true →
      response.flags.responseStarted = true →
        unsentAll sendBuffer ≠ [] ∨
          response.body ≠ [] ∨ chunkTerm response.flags ≠ []
  fits :
    response.flags.responseReady = true →
      response.flags.responseStarted = false →
        (shouldBufferBody memory response).1 = false →
          (serializeHead memory (shouldBufferBody memory response).2).isSome

/-- Every write callback of the run finds work. -/
def FindsWork (memory : HdrMemory) (talk : Talk) :
    Step → Prop
  | .write _ _ =>
      ∀ response,
        talk.response = some response → Finds memory response talk.sendBuffer
  | _ => True

/-! ## What is promised -/

/-- What holds of a response at any point of its life. -/
structure KeepsPromises
    (memory : HdrMemory)
    (start : HttpResponse)
    (talk : Talk) : Prop where
  /-- The head that was serialized is framed as documented. -/
  framing :
    ∀ head,
      talk.serialized = some head →
        documentedFraming (framingHeaders memory start)
            start.flags.supportsChunked head.flags.responseComplete
            talk.appended =
          some (framingHeaders memory head)
  /-- The framing does not change after that. -/
  unchanging :
    ∀ head response,
      talk.serialized = some head →
        talk.response = some response →
          framingHeaders memory response = framingHeaders memory head ∧
            response.flags.responseChunked = head.flags.responseChunked
  /-- Chunks are sent where the library announced them. -/
  chunks :
    ∀ head,
      talk.serialized = some head →
        (head.flags.responseChunked = true ↔
          framingHeaders memory start = [] ∧
            head.flags.responseComplete = false)
  /-- Without a framing nothing is sent before the body is finished. -/
  quiet :
    framingHeaders memory start = [] →
      start.flags.supportsChunked = false →
        talk.finished = false → talk.wire = []
  /-- No write callback has failed the connection. -/
  stillOpen : talk.closed = false
  /-- The response is in the list or was completed, once. -/
  once :
    (talk.response.isSome ∧ talk.completed = 0) ∨
      (talk.response = none ∧ talk.completed = 1)

/-! ## The parts of a write callback -/

theorem chunkHeader_ne_nil (len : Nat) : chunkHeader len ≠ [] := by
  intro empty
  have length := congrArg List.length empty
  simp only [chunkHeader, List.length_append, List.length_take,
    List.length_replicate, List.length_cons, List.length_nil] at length
  omega

theorem pending_chunkTerm (flags : HttpFlags) : Pending (chunkTerm flags) := by
  unfold chunkTerm
  split
  · exact pending_fresh (by decide)
  · exact fun bucket member => absurd member List.not_mem_nil

theorem pending_bodyGet (pending : Pending response.body) :
    Pending (ymoHttpResponseBodyGet response).1 := by
  unfold ymoHttpResponseBodyGet
  dsimp only
  split
  · intro bucket member
    rcases List.mem_flatMap.mp member with ⟨data, inside, parts⟩
    rcases List.mem_cons.mp parts with header | others
    · exact
        pending_fresh (chunkHeader_ne_nil data.len) bucket
          (List.mem_singleton.mpr header)
    · rcases List.mem_cons.mp others with body | tail
      · rw [body]
        exact pending data inside
      · exact pending_fresh (by decide) bucket tail
  · exact pending

theorem pending_prepareBody (buffer : Pending sendBuffer)
    (body : Pending response.body) :
    Pending (prepareBody response sendBuffer).2 :=
  pending_append.mpr
    ⟨pending_append.mpr ⟨buffer, pending_bodyGet body⟩,
      pending_chunkTerm response.flags⟩

theorem prepareBody_ne_nil
    (something :
      unsentAll sendBuffer ≠ [] ∨
        response.body ≠ [] ∨ chunkTerm response.flags ≠ []) :
    (prepareBody response sendBuffer).2 ≠ [] := by
  intro empty
  rcases List.append_eq_nil_iff.mp empty with ⟨front, terminal⟩
  rcases List.append_eq_nil_iff.mp front with ⟨buffer, body⟩
  rcases something with unsent | appended | terminated
  · rw [buffer] at unsent
    exact unsent rfl
  · apply appended
    unfold ymoHttpResponseBodyGet at body
    dsimp only at body
    split at body
    · cases parts : response.body with
      | nil => rfl
      | cons data rest =>
          rw [parts] at body
          nomatch body
    · exact body
  · exact terminated terminal

/-- What a send does that has a byte to send. -/
structure Sent
    (outcomes : List SendOutcome)
    (complete : Bool)
    (chain : List Bucket)
    (written : Written) : Prop where
  pending : Pending written.sendBuffer
  stillOpen : closes written.status = false
  completes : written.complete = true → complete = true
  waits :
    complete = true →
      written.complete = false →
        unsentAll written.sendBuffer ≠ [] ∧
          (unsentAll written.sendBuffer).length + granted outcomes ≤
            (unsentAll chain).length

theorem sent_of_sends {response later : HttpResponse}
    {sendBuffer chain : List Bucket}
    (sends : prepareWrite memory response sendBuffer = .sends later chain)
    (pending : Pending chain)
    (nonempty : chain ≠ [])
    {outcomes : List SendOutcome}
    (willing : Willing outcomes) :
    (writeResponse memory outcomes response sendBuffer).response =
        later ∧
      Sent outcomes response.flags.responseComplete chain
        (writeResponse memory outcomes response sendBuffer) := by
  have ends :=
    ymoNetSendBuckets_continues willing pending.unspent
      pending.deliverable (pending.unsentAll_ne_nil nonempty)
  unfold writeResponse
  rw [sends]
  refine ⟨rfl, pending.send outcomes, ?_, ?_, ?_⟩
  · rcases ends with okay | ⟨blocked, -⟩
    · dsimp only
      rw [okay]
      rfl
    · dsimp only
      rw [blocked]
      rfl
  · intro completed
    exact (Bool.and_eq_true_iff.mp completed).2
  · intro complete notCompleted
    dsimp only at notCompleted
    rw [complete, Bool.and_true] at notCompleted
    rcases ends with okay | ⟨-, left⟩
    · exact absurd okay (of_decide_eq_false notCompleted)
    · exact ⟨left, granted_le_of_blocked outcomes pending.deliverable left⟩

/-! ## The choice of the framing -/

/-- What the calls before the first write leave as it was created. -/
structure Unsent (response : HttpResponse) : Prop where
  placed : response.headers.Placed
  notReady : response.flags.responseReady = false
  notStarted : response.flags.responseStarted = false
  notComplete : response.flags.responseComplete = false
  notChunked : response.flags.responseChunked = false
  notTerminated : response.flags.responseChunkTerm = false
  body : response.body = []
  contentLen : response.contentLen = 0

theorem ymoHttpSessionInitResponse_cases (flags : HttpFlags) :
    ∃ headers : HdrTable HdrPointer,
      headers.Placed ∧
        ymoHttpSessionInitResponse flags =
          { ymoHttpResponseCreate with
            flags := flags, headers := headers } := by
  have inserted := fun value : HdrPointer =>
    (placed_clear : (ymoHttpHdrTableClear : HdrTable HdrPointer).Placed)
      |>.insertPrecompute ymoHttpHidConnection
        (.literal (bytes "Connection")) 10 value
  unfold ymoHttpSessionInitResponse
  dsimp only
  split
  · split
    · exact ⟨_, placed_clear, rfl⟩
    · exact ⟨_, inserted _, rfl⟩
  · split
    · exact ⟨_, inserted _, rfl⟩
    · exact ⟨_, placed_clear, rfl⟩

theorem Begun.unsent (begun : Begun memory response) : Unsent response := by
  induction begun with
  | @create flags notReady notStarted notComplete notChunked
      notTerminated =>
      rcases ymoHttpSessionInitResponse_cases flags
        with ⟨headers, placed, equal⟩
      rw [equal]
      exact
        ⟨placed, notReady, notStarted, notComplete, notChunked,
          notTerminated, rfl, rfl⟩
  | insertHeader begun header value unsent =>
      exact
        { unsent with
          placed := unsent.placed.insertPrecompute _ header _ value }
  | setStatus begun status unsent => exact { unsent with }
  | setStatusStr begun status unsent => exact { unsent with }

theorem isFraming_eq_false {table : HdrTable HdrPointer}
    (placed : table.Placed)
    (noLength : ymoHttpHdrTableGetId table ymoHttpHidContentLength = none)
    (noEncoding :
      ymoHttpHdrTableGetId table ymoHttpHidTransferEncoding = none) :
    ∀ index, ∀ node ∈ table.bucket index, isFraming node = false := by
  intro index node member
  have length := placed.absent noLength member
  have encoding := placed.absent noEncoding member
  rw [isFraming, beq_eq_false_iff_ne.mpr length,
    beq_eq_false_iff_ne.mpr encoding]
  rfl

theorem filter_isFraming_ne_nil {table : HdrTable HdrPointer} {hId : HdrId}
    (framing :
      ∀ node : HdrNode HdrPointer, node.hId = hId → isFraming node = true)
    (found : (ymoHttpHdrTableGetId table hId).isSome = true) :
    table.nodes.filter isFraming ≠ [] := by
  rcases Option.isSome_iff_exists.mp found with ⟨node, get⟩
  have member : node ∈ table.bucket (bucketIndex hId) :=
    List.mem_of_find?_eq_some get
  have same : node.hId = hId := by
    have found := List.find?_some get
    exact of_decide_eq_true found
  have listed : node ∈ table.nodes.filter isFraming := by
    apply List.mem_filter.mpr
    constructor
    · exact List.mem_flatMap.mpr ⟨bucketIndex hId, List.mem_finRange _, member⟩
    · exact framing node same
  exact List.ne_nil_of_mem listed

/-- `should_buffer_body` looks for the framing headers, and finds them all. -/
theorem ownFraming_iff (memory : HdrMemory)
    (placed : response.headers.Placed) :
    ((ymoHttpHdrTableGetId response.headers
            ymoHttpHidContentLength).isSome ||
          (ymoHttpHdrTableGetId response.headers
            ymoHttpHidTransferEncoding).isSome) =
        true ↔
      framingHeaders memory response ≠ [] := by
  have filtered :
      framingHeaders memory response = [] ↔
        response.headers.nodes.filter isFraming = [] :=
    List.map_eq_nil_iff
  rw [Ne, filtered, Bool.or_eq_true]
  constructor
  · intro found
    rcases found with length | encoding
    · refine filter_isFraming_ne_nil ?_ length
      intro node same
      rw [isFraming, beq_iff_eq.mpr same, Bool.true_or]
    · refine filter_isFraming_ne_nil ?_ encoding
      intro node same
      rw [isFraming, beq_iff_eq.mpr same, Bool.or_true]
  · intro listed
    by_contra missing
    rcases not_or.mp missing with ⟨noLength, noEncoding⟩
    apply listed
    apply List.filter_eq_nil_iff.mpr
    intro node member
    rcases List.mem_flatMap.mp member with ⟨index, -, inside⟩
    rw [isFraming_eq_false placed
      (Option.not_isSome_iff_eq_none.mp noLength)
      (Option.not_isSome_iff_eq_none.mp noEncoding) index node inside]
    exact Bool.false_ne_true

/-- What `should_buffer_body` decides, in the terms of the guide. -/
structure Decides
    (memory : HdrMemory)
    (response : HttpResponse)
    (total : Nat) : Prop where
  waits :
    (shouldBufferBody memory response).1 = true →
      (shouldBufferBody memory response).2 = response ∧
        framingHeaders memory response = [] ∧
          response.flags.responseComplete = false ∧
            response.flags.supportsChunked = false
  frames :
    (shouldBufferBody memory response).1 = false →
      documentedFraming (framingHeaders memory response)
          response.flags.supportsChunked
          response.flags.responseComplete total =
        some (framingHeaders memory (shouldBufferBody memory response).2)
  chunks :
    (shouldBufferBody memory response).1 = false →
      ((shouldBufferBody memory response).2.flags.responseChunked =
          true ↔
        framingHeaders memory response = [] ∧
          response.flags.responseComplete = false)
  keeps :
    ∃ headers contentLen contentLenStr chunked,
      (shouldBufferBody memory response).2 =
        { response with
          headers := headers
          contentLen := contentLen
          contentLenStr := contentLenStr
          flags := { response.flags with responseChunked := chunked } }

/-- The only framing header of a response that had none. -/
theorem framingHeaders_inserted {memory : HdrMemory} {response : HttpResponse}
    (placed : response.headers.Placed)
    (none : framingHeaders memory response = [])
    (hId : HdrId)
    (isKind : hId = ymoHttpHidContentLength ∨ hId = ymoHttpHidTransferEncoding)
    (hdr : HdrPointer)
    (hdrLen : Nat)
    (value : HdrPointer)
    {later : HttpResponse}
    (headers :
      later.headers =
        ymoHttpHdrTableInsertPrecompute response.headers hId hdr hdrLen
          value) :
    framingHeaders memory later =
      [(hId, memory.string later.contentLenStr value)] := by
  have missing :=
    (not_congr (ownFraming_iff memory placed)).mpr (not_not.mpr none)
  rw [Bool.or_eq_true] at missing
  rcases not_or.mp missing with ⟨noLength, noEncoding⟩
  have noneYet :=
    isFraming_eq_false placed
      (Option.not_isSome_iff_eq_none.mp noLength)
      (Option.not_isSome_iff_eq_none.mp noEncoding)
  have framing :
      ∀ node : HdrNode HdrPointer, node.hId = hId → isFraming node = true := by
    intro node same
    rw [isFraming, same]
    rcases isKind with length | encoding
    · rw [beq_iff_eq.mpr length, Bool.true_or]
    · rw [beq_iff_eq.mpr encoding, Bool.or_true]
  let node : HdrNode HdrPointer :=
    { hId := hId, hdr := hdr, hdrLen := hdrLen, value := value,
      buffer := Option.none }
  have absent :
      ∀ other ∈ response.headers.bucket (bucketIndex node.hId),
        other.hId ≠ node.hId := by
    intro other member same
    have kind := framing other same
    rw [noneYet _ other member] at kind
    exact Bool.false_ne_true kind
  have only : later.headers.nodes.filter isFraming = [node] := by
    rw [headers]
    exact filter_nodes_upsert noneYet absent (framing node rfl)
  rw [framingHeaders, only]
  rfl

theorem shouldBufferBody_decides (memory : HdrMemory)
    (placed : response.headers.Placed)
    (notChunked : response.flags.responseChunked = false)
    (noLength : response.contentLen = 0) :
    Decides memory response (response.body.map Bucket.len).sum := by
  by_cases own : framingHeaders memory response = []
  · have missing :=
      Bool.eq_false_iff.mpr
        ((not_congr (ownFraming_iff memory placed)).mpr
          (not_not.mpr own))
    cases complete : response.flags.responseComplete with
    | true =>
        have decided :
            shouldBufferBody memory response =
              (false,
                { response with
                  contentLen :=
                    response.contentLen + (response.body.map Bucket.len).sum
                  contentLenStr :=
                    decimalDigits
                      (response.contentLen +
                        (response.body.map Bucket.len).sum)
                  headers :=
                    ymoHttpHdrTableInsertPrecompute response.headers
                      ymoHttpHidContentLength
                      (.literal (bytes "Content-Length")) 14
                      .contentLenStr }) := by
          unfold shouldBufferBody
          dsimp only
          rw [missing, complete]
          rfl
        have framing :=
          @framingHeaders_inserted memory response placed own
            ymoHttpHidContentLength (.inl rfl) _ 14 .contentLenStr
            (shouldBufferBody memory response).2
            (by rw [decided])
        rw [decided, noLength, Nat.zero_add] at framing
        constructor
        · intro waits
          rw [decided] at waits
          nomatch waits
        · intro _
          rw [decided, noLength, Nat.zero_add, framing, own, complete]
          rfl
        · intro _
          rw [decided, complete]
          constructor
          · intro chunked
            rw [notChunked] at chunked
            nomatch chunked
          · intro impossible
            nomatch impossible.2
        · rw [decided]
          exact ⟨_, _, _, false, by rw [← notChunked]⟩
    | false =>
        cases chunks : response.flags.supportsChunked with
        | true =>
            let inserted :=
              ymoHttpResponseInsertHeader memory response
                (.literal (bytes "Transfer-Encoding"))
                (.literal (bytes "Chunked"))
            have decided :
                shouldBufferBody memory response =
                  (false,
                    { inserted with
                      flags :=
                        { response.flags with
                          responseChunked := true } }) := by
              unfold shouldBufferBody
              dsimp only
              rw [missing, complete, chunks]
              rfl
            have known :
                ymoHttpHdrHash (cString (bytes "Transfer-Encoding")) =
                  ymoHttpHidTransferEncoding := by
              decide
            have headers :
                (shouldBufferBody memory response).2.headers =
                  ymoHttpHdrTableInsertPrecompute response.headers
                    ymoHttpHidTransferEncoding
                    (.literal (bytes "Transfer-Encoding"))
                    (memory.string response.contentLenStr
                      (.literal (bytes "Transfer-Encoding"))).length
                    (.literal (bytes "Chunked")) := by
              rw [decided, ← known]
              rfl
            have framing :=
              framingHeaders_inserted placed own _ (.inr rfl) _ _ _ headers
            constructor
            · intro waits
              rw [decided] at waits
              nomatch waits
            · intro _
              rw [framing, own, complete, chunks]
              rfl
            · intro _
              rw [decided]
              exact ⟨fun _ => ⟨own, complete⟩, fun _ => rfl⟩
            · rw [decided]
              exact ⟨_, _, _, true, rfl⟩
        | false =>
            have decided :
                shouldBufferBody memory response = (true, response) := by
              unfold shouldBufferBody
              dsimp only
              rw [missing, complete, chunks]
              rfl
            constructor
            · intro _
              rw [decided]
              exact ⟨rfl, own, complete, chunks⟩
            · intro frames
              rw [decided] at frames
              nomatch frames
            · intro frames
              rw [decided] at frames
              nomatch frames
            · rw [decided]
              exact ⟨_, _, _, false, by rw [← notChunked]⟩
  · have found := (ownFraming_iff memory placed).mpr own
    have decided : shouldBufferBody memory response = (false, response) := by
      unfold shouldBufferBody
      dsimp only
      rw [found]
      rfl
    constructor
    · intro waits
      rw [decided] at waits
      nomatch waits
    · intro _
      rw [decided, documentedFraming, if_pos own]
    · intro _
      rw [decided, notChunked]
      constructor
      · intro chunked
        nomatch chunked
      · intro documented
        exact absurd documented.1 own
    · rw [decided]
      exact ⟨_, _, _, false, by rw [← notChunked]⟩

/-! ## What a run keeps -/

/-- A response whose head is not serialized yet. -/
structure Waiting
    (memory : HdrMemory)
    (start : HttpResponse)
    (talk : Talk)
    (response : HttpResponse) : Prop where
  present : talk.response = some response
  sameFraming : framingHeaders memory response = framingHeaders memory start
  placed : response.headers.Placed
  status : ¬(response.statusStr = [] ∨ response.statusLen = 0)
  noLength : response.contentLen = 0
  sameSupport : response.flags.supportsChunked = start.flags.supportsChunked
  notStarted : response.flags.responseStarted = false
  notChunked : response.flags.responseChunked = false
  complete : response.flags.responseComplete = talk.finished
  finishedReady : talk.finished = true → response.flags.responseReady = true
  body : Pending response.body
  total : (response.body.map Bucket.len).sum = talk.appended
  nothingBuffered : talk.sendBuffer = []
  nothingSent : talk.wire = []
  notCompleted : talk.completed = 0
  notSerialized : talk.serialized = none
  stillOpen : talk.closed = false

/-- A head that was serialized, and the framing it announced. -/
structure Framed
    (memory : HdrMemory)
    (start : HttpResponse)
    (talk : Talk)
    (head : HttpResponse) : Prop where
  serialized : talk.serialized = some head
  rule :
    documentedFraming (framingHeaders memory start)
        start.flags.supportsChunked head.flags.responseComplete
        talk.appended =
      some (framingHeaders memory head)
  chunks :
    head.flags.responseChunked = true ↔
      framingHeaders memory start = [] ∧ head.flags.responseComplete = false
  finished : head.flags.responseComplete = true → talk.finished = true
  stillOpen : talk.closed = false

/-- A response whose head is on its way. -/
structure Sending
    (memory : HdrMemory)
    (talk : Talk)
    (head response : HttpResponse) : Prop where
  present : talk.response = some response
  sameFraming : framingHeaders memory response = framingHeaders memory head
  sameChunks : response.flags.responseChunked = head.flags.responseChunked
  ready : response.flags.responseReady = true
  started : response.flags.responseStarted = true
  complete : response.flags.responseComplete = talk.finished
  buffer : Pending talk.sendBuffer
  body : Pending response.body
  notCompleted : talk.completed = 0

/-- What becomes of a response. -/
inductive Life
    (memory : HdrMemory)
    (start : HttpResponse)
    (talk : Talk) : Prop where
  | waiting
      (response : HttpResponse)
      (waiting : Waiting memory start talk response)
  | sending
      (head response : HttpResponse)
      (framed : Framed memory start talk head)
      (sending : Sending memory talk head response)
  | done
      (head : HttpResponse)
      (framed : Framed memory start talk head)
      (finished : talk.finished = true)
      (gone : talk.response = none)
      (completed : talk.completed = 1)

theorem life_start {start : HttpResponse} (begun : Begun memory start)
    (status : ¬(start.statusStr = [] ∨ start.statusLen = 0)) :
    Life memory start (Talk.start start) := by
  have unsent := begun.unsent
  apply Life.waiting start
  constructor
  · rfl
  · rfl
  · exact unsent.placed
  · exact status
  · exact unsent.contentLen
  · rfl
  · exact unsent.notStarted
  · exact unsent.notChunked
  · exact unsent.notComplete
  · exact fun finished => nomatch finished
  · rw [unsent.body]
    exact fun bucket member => absurd member List.not_mem_nil
  · rw [unsent.body]
    rfl
  all_goals rfl

/-! ### Calls -/

/-- What a call of the application does to an unfinished response. -/
def Extends (call : HttpResponse → HttpResponse) (length : Nat)
    (last : Bool) : Prop :=
  ∀ response : HttpResponse,
    response.flags.responseComplete = false →
      ∃ extra ready,
        Pending extra ∧
          (extra.map Bucket.len).sum = length ∧
            (response.flags.responseReady = true → ready = true) ∧
              (last = true → ready = true) ∧
                call response =
                  { response with
                    body := response.body ++ extra
                    flags :=
                      { response.flags with
                        responseReady := ready
                        responseComplete := last } }

theorem pending_nil : Pending [] :=
  fun _ member => absurd member List.not_mem_nil

theorem extends_append {data : Bytes} (nonempty : data ≠ []) :
    Extends (ymoHttpResponseBodyAppend · data) data.length false := by
  intro response unfinished
  have pending := pending_fresh nonempty
  cases chunks : response.flags.supportsChunked with
  | true =>
      refine
        ⟨[Bucket.fresh data], true, pending, rfl, fun _ => rfl,
          fun _ => rfl, ?_⟩
      simp only [ymoHttpResponseBodyAppend, if_pos chunks, ← unfinished]
  | false =>
      refine
        ⟨[Bucket.fresh data], response.flags.responseReady, pending, rfl,
          id, (fun last => nomatch last), ?_⟩
      simp only [ymoHttpResponseBodyAppend,
        if_neg (Bool.eq_false_iff.mp chunks), ← unfinished]

theorem extends_ready : Extends ymoHttpResponseReady 0 false := by
  intro response unfinished
  refine ⟨[], true, pending_nil, rfl, fun _ => rfl, fun _ => rfl, ?_⟩
  rw [List.append_nil, ← unfinished]
  rfl

theorem extends_finish : Extends ymoHttpResponseFinish 0 true := by
  intro response _
  refine ⟨[], true, pending_nil, rfl, fun _ => rfl, fun _ => rfl, ?_⟩
  rw [List.append_nil]
  rfl

theorem documentedFraming_unfinished {own framing : List (HdrId × Bytes)}
    {chunks finished : Bool}
    {total : Nat}
    (rule : documentedFraming own chunks finished total = some framing)
    (unfinished : finished = false)
    (later : Nat) :
    documentedFraming own chunks finished later = some framing := by
  rw [unfinished] at rule ⊢
  exact rule

variable {talk : Talk}

theorem Framed.call {start head : HttpResponse}
    (framed : Framed memory start talk head)
    (call : HttpResponse → HttpResponse)
    (length : Nat)
    (last : Bool) :
    Framed memory start (callTalk call length last talk) head := by
  cases finished : talk.finished with
  | true =>
      rw [callTalk, if_pos finished]
      exact framed
  | false =>
      have headUnfinished : head.flags.responseComplete = false := by
        cases complete : head.flags.responseComplete with
        | true =>
            have ended := framed.finished complete
            rw [finished] at ended
            nomatch ended
        | false => rfl
      simp only [callTalk, finished, Bool.false_eq_true, if_false]
      exact
        { serialized := framed.serialized
          rule := documentedFraming_unfinished framed.rule headUnfinished _
          chunks := framed.chunks
          finished := by
            intro complete
            rw [headUnfinished] at complete
            nomatch complete
          stillOpen := framed.stillOpen }

theorem Life.call {start : HttpResponse} (life : Life memory start talk)
    {call : HttpResponse → HttpResponse}
    {length : Nat}
    {last : Bool}
    (extend : Extends call length last) :
    Life memory start (callTalk call length last talk) := by
  cases finished : talk.finished with
  | true =>
      rw [callTalk, if_pos finished]
      exact life
  | false =>
      have called :
          callTalk call length last talk =
            { talk with
              response := talk.response.map call
              appended := talk.appended + length
              finished := last } := by
        simp only [callTalk, finished, Bool.false_eq_true, if_false]
      cases life with
      | waiting response waiting =>
          rcases extend response (waiting.complete.trans finished)
            with ⟨extra, ready, pending, sum, keeps, readies, equal⟩
          rw [called]
          apply Life.waiting (call response)
          rw [equal]
          exact
            { present := by
                rw [waiting.present, Option.map_some, equal]
              sameFraming := waiting.sameFraming
              placed := waiting.placed
              status := waiting.status
              noLength := waiting.noLength
              sameSupport := waiting.sameSupport
              notStarted := waiting.notStarted
              notChunked := waiting.notChunked
              complete := rfl
              finishedReady := readies
              body := pending_append.mpr ⟨waiting.body, pending⟩
              total := by
                rw [List.map_append, List.sum_append, waiting.total, sum]
              nothingBuffered := waiting.nothingBuffered
              nothingSent := waiting.nothingSent
              notCompleted := waiting.notCompleted
              notSerialized := waiting.notSerialized
              stillOpen := waiting.stillOpen }
      | sending head response framed sending =>
          have later := framed.call call length last
          rcases extend response (sending.complete.trans finished)
            with ⟨extra, ready, pending, -, keeps, -, equal⟩
          apply Life.sending head (call response) later
          rw [called, equal]
          exact
            { present := by
                rw [sending.present, Option.map_some, equal]
              sameFraming := sending.sameFraming
              sameChunks := sending.sameChunks
              ready := keeps sending.ready
              started := sending.started
              complete := rfl
              buffer := sending.buffer
              body := pending_append.mpr ⟨sending.body, pending⟩
              notCompleted := sending.notCompleted }
      | done head framed ended gone completed =>
          rw [finished] at ended
          nomatch ended

/-! ### Write callbacks -/

/-- What a write callback sends: the response as it leaves it, and the chain. -/
structure Sends
    (memory : HdrMemory)
    (response : HttpResponse)
    (sendBuffer : List Bucket)
    (later : HttpResponse)
    (chain : List Bucket) : Prop where
  prepared : prepareWrite memory response sendBuffer = .sends later chain
  pending : Pending chain
  nonempty : chain ≠ []

theorem sends_of_started (ready : response.flags.responseReady = true)
    (started : response.flags.responseStarted = true)
    (buffer : Pending sendBuffer)
    (body : Pending response.body)
    (finds : Finds memory response sendBuffer) :
    Sends memory response sendBuffer (prepareBody response sendBuffer).1
      (prepareBody response sendBuffer).2 := by
  constructor
  · unfold prepareWrite
    rw [ready, started]
    rfl
  · exact pending_prepareBody buffer body
  · exact prepareBody_ne_nil (finds.something ready started)

theorem serializeHead_ne_nil {head : Bytes}
    (serialized : serializeHead memory response = some head) :
    head ≠ [] := by
  unfold serializeHead at serialized
  split at serialized
  · nomatch serialized
  · dsimp only at serialized
    split at serialized
    · split at serialized
      · nomatch serialized
      · rw [← Option.some.inj serialized]
        intro empty
        exact nomatch (List.append_eq_nil_iff.mp empty).2
    · nomatch serialized

/-- A write callback that waits for the body to be finished. -/
theorem prepareWrite_of_waits (ready : response.flags.responseReady = true)
    (notStarted : response.flags.responseStarted = false)
    (status : ¬(response.statusStr = [] ∨ response.statusLen = 0))
    (decided : shouldBufferBody memory response = (true, response))
    (sendBuffer : List Bucket) :
    prepareWrite memory response sendBuffer = .returns .okay response [] := by
  have start :
      ymoHttpResponseStart memory response = (.null .okay, response) := by
    unfold ymoHttpResponseStart
    rw [if_neg status, decided]
    rfl
  unfold prepareWrite
  rw [ready, notStarted, start]
  rfl

/-- The response of a write callback that has serialized the head. -/
def startedResponse (memory : HdrMemory) (response : HttpResponse) :
    HttpResponse :=
  let decided := (shouldBufferBody memory response).2
  { decided with flags := { decided.flags with responseStarted := true } }

theorem sends_of_notStarted
    (ready : response.flags.responseReady = true)
    (notStarted : response.flags.responseStarted = false)
    (status : ¬(response.statusStr = [] ∨ response.statusLen = 0))
    (decided : (shouldBufferBody memory response).1 = false)
    (body : Pending (shouldBufferBody memory response).2.body)
    {head : Bytes}
    (serialized :
      serializeHead memory (shouldBufferBody memory response).2 = some head)
    (sendBuffer : List Bucket) :
    Sends memory response sendBuffer
      (prepareBody (startedResponse memory response) [Bucket.fresh head]).1
      (prepareBody (startedResponse memory response)
        [Bucket.fresh head]).2 := by
  have start :
      ymoHttpResponseStart memory response =
        (.bucket (Bucket.fresh head),
          (shouldBufferBody memory response).2) := by
    unfold ymoHttpResponseStart
    rw [if_neg status]
    dsimp only
    rw [decided, serialized]
    rfl
  have buffer := pending_fresh (serializeHead_ne_nil serialized)
  constructor
  · unfold prepareWrite
    rw [ready, notStarted, start]
    rfl
  · exact pending_prepareBody buffer body
  · apply prepareBody_ne_nil
    exact .inl (buffer.unsentAll_ne_nil (List.cons_ne_nil _ _))

/-- The talk after a write callback that sent what it had prepared. -/
theorem writeTalk_of_sends {response later : HttpResponse}
    (present : talk.response = some response)
    (sends : Sends memory response talk.sendBuffer later chain)
    (willing : Willing outcomes) :
    (writeTalk memory outcomes talk).closed = false ∧
      (((writeTalk memory outcomes talk).response = none ∧
          (writeTalk memory outcomes talk).completed = talk.completed + 1 ∧
          response.flags.responseComplete = true) ∨
        ((writeTalk memory outcomes talk).response = some later ∧
          (writeTalk memory outcomes talk).completed = talk.completed ∧
          Pending (writeTalk memory outcomes talk).sendBuffer ∧
          (response.flags.responseComplete = true →
            unsentAll (writeTalk memory outcomes talk).sendBuffer ≠ [] ∧
              (unsentAll
                  (writeTalk memory outcomes talk).sendBuffer).length +
                  granted outcomes ≤
                (unsentAll chain).length))) := by
  rcases sent_of_sends sends.prepared sends.pending sends.nonempty willing
    with ⟨same, sent⟩
  unfold writeTalk
  rw [present]
  dsimp only
  refine ⟨sent.stillOpen, ?_⟩
  cases complete :
      (writeResponse memory outcomes response talk.sendBuffer).complete with
  | true => exact .inl ⟨rfl, rfl, sent.completes complete⟩
  | false =>
      rw [same]
      exact
        .inr
          ⟨rfl, rfl, sent.pending,
            fun finished => sent.waits finished complete⟩

@[simp]
theorem writeTalk_finished (memory : HdrMemory) (outcomes : List SendOutcome)
    (talk : Talk) :
    (writeTalk memory outcomes talk).finished = talk.finished := by
  unfold writeTalk
  split <;> rfl

@[simp]
theorem writeTalk_appended (memory : HdrMemory) (outcomes : List SendOutcome)
    (talk : Talk) :
    (writeTalk memory outcomes talk).appended = talk.appended := by
  unfold writeTalk
  split <;> rfl

theorem writeTalk_serialized_of_started
    (present : talk.response = some response)
    (started : response.flags.responseStarted = true)
    (outcomes : List SendOutcome) :
    (writeTalk memory outcomes talk).serialized = talk.serialized := by
  unfold writeTalk
  rw [present]
  exact if_pos started

theorem writeTalk_serialized_of_sends {response later : HttpResponse}
    (present : talk.response = some response)
    (notStarted : response.flags.responseStarted = false)
    (prepared :
      prepareWrite memory response talk.sendBuffer = .sends later chain)
    (started : later.flags.responseStarted = true)
    (outcomes : List SendOutcome) :
    (writeTalk memory outcomes talk).serialized = some later := by
  have left :
      (writeResponse memory outcomes response
          talk.sendBuffer).response =
        later := by
    unfold writeResponse
    rw [prepared]
  unfold writeTalk
  rw [present]
  simp only [notStarted, Bool.false_eq_true, if_false, left, started, if_true]

/-- A write callback on a response whose head is on its way. -/
theorem Life.write_of_sending {start head response : HttpResponse}
    (framed : Framed memory start talk head)
    (sending : Sending memory talk head response)
    (finds : Finds memory response talk.sendBuffer)
    (willing : Willing outcomes) :
    Life memory start (writeTalk memory outcomes talk) := by
  have sends :=
    sends_of_started sending.ready sending.started sending.buffer
      sending.body finds
  rcases writeTalk_of_sends sending.present sends willing
    with ⟨stillOpen, ended⟩
  have framedLater :
      Framed memory start (writeTalk memory outcomes talk) head :=
    { serialized := by
        rw [writeTalk_serialized_of_started sending.present sending.started]
        exact framed.serialized
      rule := by
        rw [writeTalk_appended]
        exact framed.rule
      chunks := framed.chunks
      finished := by
        rw [writeTalk_finished]
        exact framed.finished
      stillOpen := stillOpen }
  rcases ended with ⟨gone, completed, complete⟩ | ⟨kept, same, left, -⟩
  · apply Life.done head framedLater
    · rw [writeTalk_finished, ← sending.complete]
      exact complete
    · exact gone
    · rw [completed, sending.notCompleted]
  · apply Life.sending head _ framedLater
    exact
      { present := kept
        sameFraming := sending.sameFraming
        sameChunks := sending.sameChunks
        ready := sending.ready
        started := sending.started
        complete := by
          rw [writeTalk_finished]
          exact sending.complete
        buffer := left
        body := pending_nil
        notCompleted := same.trans sending.notCompleted }

/-- The write callback that serializes the head. -/
theorem Life.write_of_framed {start response : HttpResponse}
    (waiting : Waiting memory start talk response)
    (ready : response.flags.responseReady = true)
    (decided : (shouldBufferBody memory response).1 = false)
    (finds : Finds memory response talk.sendBuffer)
    (willing : Willing outcomes) :
    Life memory start (writeTalk memory outcomes talk) := by
  have decides :=
    shouldBufferBody_decides memory waiting.placed waiting.notChunked
      waiting.noLength
  rcases decides.keeps with ⟨headers, length, string, chunked, keeps⟩
  have fits := finds.fits ready waiting.notStarted decided
  rcases Option.isSome_iff_exists.mp fits with ⟨bytes, serialized⟩
  have body : Pending (shouldBufferBody memory response).2.body := by
    rw [keeps]
    exact waiting.body
  have sends :=
    sends_of_notStarted ready waiting.notStarted waiting.status decided
      body serialized talk.sendBuffer
  rcases writeTalk_of_sends waiting.present sends willing
    with ⟨stillOpen, ended⟩
  let head : HttpResponse :=
    (prepareBody (startedResponse memory response) [Bucket.fresh bytes]).1
  have headReady : head.flags.responseReady = true := by
    change (shouldBufferBody memory response).2.flags.responseReady = true
    rw [keeps]
    exact ready
  have headComplete :
      head.flags.responseComplete = response.flags.responseComplete := by
    change (shouldBufferBody memory response).2.flags.responseComplete = _
    rw [keeps]
  have framedLater :
      Framed memory start (writeTalk memory outcomes talk) head :=
    { serialized :=
        writeTalk_serialized_of_sends waiting.present waiting.notStarted
          sends.prepared rfl outcomes
      rule := by
        have rule := decides.frames decided
        rw [waiting.total, waiting.sameFraming, waiting.sameSupport] at rule
        rw [writeTalk_appended, headComplete]
        exact rule
      chunks := by
        have chunks := decides.chunks decided
        rw [waiting.sameFraming] at chunks
        rw [headComplete]
        exact chunks
      finished := by
        rw [writeTalk_finished, headComplete, waiting.complete]
        exact id
      stillOpen := stillOpen }
  rcases ended with ⟨gone, completed, complete⟩ | ⟨kept, same, left, -⟩
  · apply Life.done head framedLater
    · rw [writeTalk_finished, ← waiting.complete]
      exact complete
    · exact gone
    · rw [completed, waiting.notCompleted]
  · apply Life.sending head head framedLater
    exact
      { present := kept
        sameFraming := rfl
        sameChunks := rfl
        ready := headReady
        started := rfl
        complete := by
          rw [writeTalk_finished, headComplete]
          exact waiting.complete
        buffer := left
        body := pending_nil
        notCompleted := same.trans waiting.notCompleted }

/-- A write callback that only looks at the response. -/
theorem Life.write_of_returns {start response : HttpResponse}
    (waiting : Waiting memory start talk response)
    (returns :
      prepareWrite memory response talk.sendBuffer =
        .returns .okay response [])
    (outcomes : List SendOutcome) :
    Life memory start (writeTalk memory outcomes talk) := by
  have written :
      writeResponse memory outcomes response talk.sendBuffer =
        { status := .okay
          response := response
          sendBuffer := []
          wire := []
          outcomes := outcomes
          complete := false } := by
    unfold writeResponse
    rw [returns]
  have same : writeTalk memory outcomes talk = talk := by
    unfold writeTalk
    rw [waiting.present]
    dsimp only
    rw [written]
    simp only [waiting.notStarted, Bool.false_eq_true, if_false,
      List.append_nil]
    rw [← waiting.notSerialized, ← waiting.present, ← waiting.nothingBuffered]
    have stillOpen : closes .okay = talk.closed := by
      rw [waiting.stillOpen]
      rfl
    rw [stillOpen]
  rw [same]
  exact Life.waiting response waiting

theorem Life.write {start : HttpResponse}
    (life : Life memory start talk)
    (finds :
      ∀ response,
        talk.response = some response → Finds memory response talk.sendBuffer)
    {outcomes : List SendOutcome}
    (willing : Willing outcomes) :
    Life memory start (writeTalk memory outcomes talk) := by
  cases life with
  | waiting response waiting =>
      cases ready : response.flags.responseReady with
      | false =>
          apply Life.write_of_returns waiting
          unfold prepareWrite
          rw [if_pos ready, waiting.nothingBuffered]
      | true =>
          cases decided : (shouldBufferBody memory response).1 with
          | true =>
              have decides :=
                shouldBufferBody_decides memory waiting.placed
                  waiting.notChunked waiting.noLength
              apply Life.write_of_returns waiting
              exact
                prepareWrite_of_waits ready waiting.notStarted
                  waiting.status
                  (Prod.ext decided (decides.waits decided).1)
                  talk.sendBuffer
          | false =>
              exact
                Life.write_of_framed waiting ready decided
                  (finds response waiting.present) willing
  | sending head response framed sending =>
      exact
        Life.write_of_sending framed sending
          (finds response sending.present) willing
  | done head framed finished gone completed =>
      have same : writeTalk memory outcomes talk = talk := by
        unfold writeTalk
        rw [gone]
      rw [same]
      exact Life.done head framed finished gone completed

theorem Life.stillOpen {start : HttpResponse} (life : Life memory start talk) :
    talk.closed = false := by
  cases life with
  | waiting response waiting => exact waiting.stillOpen
  | sending head response framed sending => exact framed.stillOpen
  | done head framed finished gone completed => exact framed.stillOpen

/-- A step that finds work keeps the response alive. -/
theorem life_step {start : HttpResponse} (talk : Talk) (step : Step)
    (life : Life memory start talk)
    (finds : FindsWork memory talk step) :
    Life memory start (talkStep memory talk step) := by
  unfold talkStep
  rw [if_neg (Bool.eq_false_iff.mp life.stillOpen)]
  cases step with
  | append data nonempty => exact life.call (extends_append nonempty)
  | ready => exact life.call extends_ready
  | finish => exact life.call extends_finish
  | write outcomes willing => exact life.write finds willing

/-! ## The promises -/

theorem Framed.quiet {start head : HttpResponse}
    (framed : Framed memory start talk head)
    (none : framingHeaders memory start = [])
    (noChunks : start.flags.supportsChunked = false) :
    talk.finished = true := by
  apply framed.finished
  have rule := framed.rule
  rw [none, noChunks] at rule
  cases complete : head.flags.responseComplete with
  | true => rfl
  | false =>
      rw [complete] at rule
      nomatch rule

theorem Framed.promises {start head : HttpResponse}
    (framed : Framed memory start talk head)
    (unchanging :
      ∀ response,
        talk.response = some response →
          framingHeaders memory response = framingHeaders memory head ∧
            response.flags.responseChunked = head.flags.responseChunked)
    (once :
      (talk.response.isSome ∧ talk.completed = 0) ∨
        (talk.response = none ∧ talk.completed = 1)) :
    KeepsPromises memory start talk := by
  have only : ∀ other, talk.serialized = some other → other = head :=
    fun other serialized =>
      Option.some.inj (serialized.symm.trans framed.serialized)
  constructor
  · intro other serialized
    rw [only other serialized]
    exact framed.rule
  · intro other response serialized present
    rw [only other serialized]
    exact unchanging response present
  · intro other serialized
    rw [only other serialized]
    exact framed.chunks
  · intro none noChunks unfinished
    rw [framed.quiet none noChunks] at unfinished
    nomatch unfinished
  · exact framed.stillOpen
  · exact once

theorem Life.promises {start : HttpResponse} (life : Life memory start talk) :
    KeepsPromises memory start talk := by
  cases life with
  | waiting response waiting =>
      have notYet : ∀ head : HttpResponse, talk.serialized ≠ some head := by
        intro head serialized
        rw [waiting.notSerialized] at serialized
        nomatch serialized
      constructor
      · exact fun head serialized => absurd serialized (notYet head)
      · exact fun head _ serialized => absurd serialized (notYet head)
      · exact fun head serialized => absurd serialized (notYet head)
      · exact fun _ _ _ => waiting.nothingSent
      · exact waiting.stillOpen
      · rw [waiting.present]
        exact .inl ⟨rfl, waiting.notCompleted⟩
  | sending head response framed sending =>
      apply framed.promises
      · intro other present
        rw [sending.present] at present
        rw [← Option.some.inj present]
        exact ⟨sending.sameFraming, sending.sameChunks⟩
      · rw [sending.present]
        exact .inl ⟨rfl, sending.notCompleted⟩
  | done head framed finished gone completed =>
      apply framed.promises
      · intro other present
        rw [gone] at present
        nomatch present
      · exact .inr ⟨gone, completed⟩

/-! ## The end of a finished response -/

/-- The sends that succeed in a run. -/
def sends : List Step → Nat
  | [] => 0
  | .write outcomes _ :: rest => granted outcomes + sends rest
  | _ :: rest => sends rest

/-- The bytes the next write callback has to send. -/
def remaining (memory : HdrMemory) (talk : Talk) : Nat :=
  match talk.response with
  | none => 0
  | some response =>
      match prepareWrite memory response talk.sendBuffer with
      | .sends _ chain => (unsentAll chain).length
      | .returns _ _ _ => 0

theorem remaining_of_sends {response later : HttpResponse}
    (present : talk.response = some response)
    (prepared :
      prepareWrite memory response talk.sendBuffer = .sends later chain) :
    remaining memory talk = (unsentAll chain).length := by
  unfold remaining
  rw [present]
  dsimp only
  rw [prepared]

/-- After `finish` one write callback has put everything on the chain. -/
theorem remaining_prepareBody (ready : response.flags.responseReady = true)
    (started : response.flags.responseStarted = true)
    (complete : response.flags.responseComplete = true)
    (present : talk.response = some (prepareBody response sendBuffer).1) :
    remaining memory talk = (unsentAll talk.sendBuffer).length := by
  let later : HttpResponse := (prepareBody response sendBuffer).1
  have bodyGet : (ymoHttpResponseBodyGet later).1 = [] := by
    unfold ymoHttpResponseBodyGet
    dsimp only
    split <;> rfl
  have terminated : chunkTerm later.flags = [] := by
    change
      chunkTerm
          { response.flags with
            responseChunkTerm :=
              response.flags.responseChunkTerm ||
                (response.flags.responseComplete &&
                  response.flags.responseChunked) } =
        []
    unfold chunkTerm
    dsimp only
    rw [complete]
    cases response.flags.responseChunked
    · rfl
    · rw [Bool.and_true, Bool.or_true]
      rfl
  have chain : (prepareBody later talk.sendBuffer).2 = talk.sendBuffer := by
    change
      talk.sendBuffer ++ (ymoHttpResponseBodyGet later).1 ++
          chunkTerm later.flags =
        talk.sendBuffer
    rw [bodyGet, terminated, List.append_nil, List.append_nil]
  have prepared :
      prepareWrite memory later talk.sendBuffer =
        .sends (prepareBody later talk.sendBuffer).1
          (prepareBody later talk.sendBuffer).2 := by
    have laterReady : later.flags.responseReady = true := ready
    have laterStarted : later.flags.responseStarted = true := started
    unfold prepareWrite
    rw [laterReady, laterStarted]
    rfl
  rw [remaining_of_sends present prepared, chain]

/-- A write callback after `finish` completes the response, or leaves less. -/
theorem write_of_finished {start response : HttpResponse}
    (life : Life memory start talk)
    (finished : talk.finished = true)
    (present : talk.response = some response)
    (finds : Finds memory response talk.sendBuffer)
    (willing : Willing outcomes) :
    (writeTalk memory outcomes talk).response = none ∨
      remaining memory (writeTalk memory outcomes talk) +
          granted outcomes ≤
        remaining memory talk := by
  cases life with
  | waiting other waiting =>
      have same : other = response :=
        Option.some.inj (waiting.present.symm.trans present)
      subst same
      have ready := waiting.finishedReady finished
      have decides :=
        shouldBufferBody_decides memory waiting.placed
          waiting.notChunked waiting.noLength
      have complete := waiting.complete.trans finished
      have decided : (shouldBufferBody memory other).1 = false := by
        cases waits : (shouldBufferBody memory other).1 with
        | false => rfl
        | true =>
            have unfinished := (decides.waits waits).2.2.1
            rw [complete] at unfinished
            nomatch unfinished
      rcases decides.keeps with ⟨headers, length, string, chunked, keeps⟩
      have body : Pending (shouldBufferBody memory other).2.body := by
        rw [keeps]
        exact waiting.body
      rcases Option.isSome_iff_exists.mp
          (finds.fits ready waiting.notStarted decided)
        with ⟨bytes, serialized⟩
      have sends :=
        sends_of_notStarted ready waiting.notStarted waiting.status
          decided body serialized talk.sendBuffer
      rcases writeTalk_of_sends present sends willing
        with ⟨-, ⟨gone, -, -⟩ | ⟨kept, -, -, fewer⟩⟩
      · exact .inl gone
      · have startedReady :
            (startedResponse memory other).flags.responseReady = true := by
          change (shouldBufferBody memory other).2.flags.responseReady = true
          rw [keeps]
          exact ready
        have startedComplete :
            (startedResponse memory other).flags.responseComplete = true := by
          change
            (shouldBufferBody memory other).2.flags.responseComplete = true
          rw [keeps]
          exact complete
        rw [remaining_prepareBody startedReady rfl startedComplete kept,
          remaining_of_sends present sends.prepared]
        exact .inr (fewer complete).2
  | sending head other framed sending =>
      have same : other = response :=
        Option.some.inj (sending.present.symm.trans present)
      subst same
      have complete := sending.complete.trans finished
      have sends :=
        sends_of_started sending.ready sending.started sending.buffer
          sending.body finds
      rcases writeTalk_of_sends present sends willing
        with ⟨-, ⟨gone, -, -⟩ | ⟨kept, -, -, fewer⟩⟩
      · exact .inl gone
      · rw [remaining_prepareBody sending.ready sending.started complete
            kept,
          remaining_of_sends present sends.prepared]
        exact .inr (fewer complete).2
  | done head framed ended gone completed =>
      rw [gone] at present
      nomatch present

theorem callTalk_of_finished (finished : talk.finished = true)
    (call : HttpResponse → HttpResponse)
    (length : Nat)
    (last : Bool) :
    callTalk call length last talk = talk :=
  if_pos finished

theorem gone_step (memory : HdrMemory) (talk : Talk) (step : Step)
    (gone : talk.response = none) :
    (talkStep memory talk step).response = none := by
  have called :
      ∀ call length last,
        (callTalk call length last talk).response = none := by
    intro call length last
    unfold callTalk
    split
    · exact gone
    · rw [gone]
      rfl
  unfold talkStep
  split
  · exact gone
  · cases step with
    | append data nonempty => exact called _ _ _
    | ready => exact called _ _ _
    | finish => exact called _ _ _
    | write outcomes willing =>
        dsimp only
        unfold writeTalk
        rw [gone]
        exact gone

/-- The sends of a run after `finish` are paid for by what was left to send. -/
theorem gone_or_remaining {start : HttpResponse} {steps : List Step}
    (life : Life memory start talk)
    (finished : talk.finished = true)
    (guarded : AllAlong (talkStep memory) (FindsWork memory) talk steps) :
    (run (talkStep memory) talk steps).response = none ∨
      remaining memory (run (talkStep memory) talk steps) +
          sends steps ≤
        remaining memory talk := by
  induction steps generalizing talk with
  | nil => exact .inr (Nat.le_refl _)
  | cons step rest ih =>
      have later := life_step talk step life guarded.1
      have stillOpen : ¬talk.closed = true :=
        Bool.eq_false_iff.mp life.stillOpen
      have idle :
          talkStep memory talk step = talk →
            sends (step :: rest) = sends rest →
              (run (talkStep memory) talk (step :: rest)).response =
                  none ∨
                remaining memory
                    (run (talkStep memory) talk (step :: rest)) +
                    sends (step :: rest) ≤
                  remaining memory talk := by
        intro same nothing
        have guardedRest := guarded.2
        rw [same] at guardedRest
        rw [run_cons, same, nothing]
        exact ih life finished guardedRest
      cases step with
      | write outcomes willing =>
          have written :
              talkStep memory talk (.write outcomes willing) =
                writeTalk memory outcomes talk := by
            rw [talkStep, if_neg stillOpen]
          have laterFinished :
              (talkStep memory talk
                (.write outcomes willing)).finished = true := by
            rw [written, writeTalk_finished]
            exact finished
          have gone :
              (talkStep memory talk
                  (.write outcomes willing)).response = none →
                (run (talkStep memory) talk
                  (.write outcomes willing :: rest)).response =
                  none := by
            intro gone
            exact
              invariant_run_always
                (fun talk : Talk => talk.response = none)
                (gone_step memory) gone rest
          cases present : talk.response with
          | none => exact .inl (gone (gone_step memory talk _ present))
          | some response =>
              rcases write_of_finished life finished present
                  (guarded.1 response present) willing
                with completed | fewer
              · rw [← written] at completed
                exact .inl (gone completed)
              · rcases ih later laterFinished
                    guarded.2
                  with ended | paid
                · exact .inl ended
                · rw [run_cons]
                  rw [written] at paid ⊢
                  unfold sends
                  exact .inr (by omega)
      | append data nonempty =>
          apply idle ?_ rfl
          rw [talkStep, if_neg stillOpen]
          exact callTalk_of_finished finished _ _ _
      | ready =>
          apply idle ?_ rfl
          rw [talkStep, if_neg stillOpen]
          exact callTalk_of_finished finished _ _ _
      | finish =>
          apply idle ?_ rfl
          rw [talkStep, if_neg stillOpen]
          exact callTalk_of_finished finished _ _ _

/-- A finished response is completed once enough sends have succeeded. -/
def Completes (memory : HdrMemory) (talk : Talk) : Prop :=
  talk.finished = true →
    ∃ enough,
      ∀ further,
        AllAlong (talkStep memory) (FindsWork memory) talk further →
          enough ≤ sends further →
            (run (talkStep memory) talk further).completed = 1

theorem Life.completes {start : HttpResponse} (life : Life memory start talk) :
    Completes memory talk := by
  intro finished
  refine ⟨remaining memory talk + 1, ?_⟩
  intro further guarded enough
  have ends : Life memory start (run (talkStep memory) talk further) :=
    invariant_run (Life memory start) life_step life guarded
  rcases gone_or_remaining life finished guarded with gone | paid
  · rcases ends.promises.once with ⟨present, -⟩ | ⟨-, completed⟩
    · rw [gone] at present
      nomatch present
    · exact completed
  · omega

/--
In a run whose write callbacks all find work, a response is framed as
documented and keeps its framing, its connection stays open, and it is completed
exactly once, after `finish` and as many sends as it takes.
-/
theorem keepsPromises_of_findsWork
    (memory : HdrMemory)
    {start : HttpResponse}
    (begun : Begun memory start)
    (status : start.statusStr ≠ [] ∧ start.statusLen ≠ 0)
    (steps : List Step)
    (guarded :
      AllAlong (talkStep memory) (FindsWork memory) (Talk.start start) steps) :
    KeepsPromises memory start
        (run (talkStep memory) (Talk.start start) steps) ∧
      Completes memory (run (talkStep memory) (Talk.start start) steps) := by
  have initially := life_start begun (not_or.mpr status)
  have life :
      Life memory start (run (talkStep memory) (Talk.start start) steps) :=
    invariant_run (Life memory start) life_step initially guarded
  exact ⟨life.promises, life.completes⟩

/-! ### Runs on a fixed response -/

def noMemory : HdrMemory where
  recvBuf := fun _ => 0
  workspace := fun _ => 0

/-- The flags that a keep-alive request of HTTP/1.1 gives its response. -/
def version11Flags : HttpFlags :=
  { HttpFlags.none with
    version11 := true
    requestKeepalive := true
    supportsChunked := true }

def okayResponse : HttpResponse :=
  ymoHttpResponseSetStatus (ymoHttpSessionInitResponse version11Flags) 200

theorem begun_okayResponse (memory : HdrMemory) : Begun memory okayResponse :=
  (Begun.create rfl rfl rfl rfl rfl).setStatus 200

theorem willing_accepted (room : Nat) : Willing [.accepted room] := by
  intro errno member
  nomatch List.mem_singleton.mp member

theorem willing_blocked (room : Nat) : Willing [.accepted room, .blocked] := by
  intro errno member
  rcases List.mem_cons.mp member with accepted | blocked
  · nomatch accepted
  · nomatch List.mem_singleton.mp blocked

/-- A write callback to a socket that takes some bytes and then blocks. -/
def writeSome (room : Nat) : Step :=
  .write [.accepted room, .blocked] (willing_blocked room)

/-- A write callback to a socket that takes this many bytes. -/
def writeAll (room : Nat) : Step :=
  .write [.accepted room] (willing_accepted room)

/-- A head that is cut off by a blocked socket, and then the rest. -/
def chunkedSteps : List Step :=
  [.append [104, 105] (by decide), writeSome 9, .finish, writeAll 4096]

theorem findsWork_chunkedSteps :
    AllAlong (talkStep noMemory) (FindsWork noMemory)
      (Talk.start okayResponse) chunkedSteps := by
  refine ⟨trivial, ?_, trivial, ?_, trivial⟩
  · intro response present
    have same := Option.some.inj present
    rw [← same]
    constructor
    · intro _ started
      exact absurd started (by decide)
    · intro _ _ _
      decide
  · intro response present
    have unsent :
        unsentAll
            (run (talkStep noMemory) (Talk.start okayResponse)
              (chunkedSteps.take 3)).sendBuffer ≠
          [] := by
      decide
    have started :
        ((run (talkStep noMemory) (Talk.start okayResponse)
              (chunkedSteps.take 3)).response.map fun response =>
            response.flags.responseStarted) =
          some true := by
      decide
    constructor
    · intro _ _
      exact .inl unsent
    · intro _ notStarted
      have sameFlag :=
        started.symm.trans
          (congrArg
            (Option.map fun response : HttpResponse =>
              response.flags.responseStarted)
            present)
      rw [Option.map_some, notStarted] at sameFlag
      nomatch sameFlag

theorem keepsPromises_chunkedSteps :
    KeepsPromises noMemory okayResponse
        (run (talkStep noMemory) (Talk.start okayResponse) chunkedSteps) ∧
      Completes noMemory
        (run (talkStep noMemory) (Talk.start okayResponse) chunkedSteps) :=
  keepsPromises_of_findsWork noMemory (begun_okayResponse noMemory)
    (by decide) chunkedSteps findsWork_chunkedSteps

/-- `ready` is called a second time when everything has been sent. -/
def readyTwice : List Step :=
  [.ready, writeAll 4096, .ready, writeAll 4096]

theorem not_keepsPromises_readyTwice :
    Begun noMemory okayResponse ∧
      (okayResponse.statusStr ≠ [] ∧ okayResponse.statusLen ≠ 0) ∧
        ¬KeepsPromises noMemory okayResponse
          (run (talkStep noMemory) (Talk.start okayResponse) readyTwice) := by
  refine ⟨begun_okayResponse noMemory, by decide, ?_⟩
  intro keeps
  have closed :
      (run (talkStep noMemory) (Talk.start okayResponse)
        readyTwice).closed = true := by
    decide
  rw [keeps.stillOpen] at closed
  nomatch closed

end Yimmo.Http.ResponseLife
