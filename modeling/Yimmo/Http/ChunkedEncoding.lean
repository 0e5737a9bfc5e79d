import Yimmo.Http.ChunkedCoding
import Yimmo.Http.Response

/-!
# The chunked coding of a response

An application appends buckets to a chunked response while write callbacks take
what was appended; when the response is finished, one more write callback takes
the rest and adds the terminal chunk.  This module compares the bytes that are
sent with the chunked coding.

The header of a chunk is printed by `snprintf` with a limit of seven, so the
line of a chunk from 65536 bytes on loses its end.  A bucket without data is
sent as a chunk of size zero, which ends the body.
-/

namespace Yimmo.Http.ChunkedEncoding

open Yimmo.Core.Net
open Yimmo.Http.Exchange
open Yimmo.Http.Parse
open Yimmo.Http.Response
open Yimmo.Http.ChunkedCoding

variable
    {number : Nat}
    {body : ChunkedBody}

/-! ## Runs -/

/-- What happens to the body of a response that was started. -/
inductive BodyStep where
  /-- The application appends a bucket. -/
  | append (data : Bytes)
  /-- A write callback takes the body. -/
  | get

/-- The data of the buckets that are appended. -/
def appended : List BodyStep → List Bytes
  | [] => []
  | .append data :: steps => data :: appended steps
  | .get :: steps => appended steps

/-- The response after the steps, and the chains that were taken. -/
def runSteps (response : HttpResponse) :
    List BodyStep → HttpResponse × List Bucket
  | [] => (response, [])
  | .append data :: steps =>
      runSteps (ymoHttpResponseBodyAppend response data) steps
  | .get :: steps =>
      let got := ymoHttpResponseBodyGet response
      let later := runSteps got.2 steps
      (later.1, got.1 ++ later.2)

/-- The bytes of all the chains when the response is finished after the steps
and written once more. -/
def encoded (response : HttpResponse) (steps : List BodyStep) : Bytes :=
  let run := runSteps response steps
  let last := prepareBody (ymoHttpResponseFinish run.1) []
  unsentAll (run.2 ++ last.2)

/-- The response is chunked; its terminal chunk was not sent, and it holds no
data. -/
structure Chunked (response : HttpResponse) : Prop where
  chunked : response.flags.responseChunked = true
  unterminated : response.flags.responseChunkTerm = false
  body : response.body = []

/-- The bytes sent for a bucket. -/
def chunkOf (data : Bytes) : Bytes :=
  chunkHeader data.length ++ data ++ crlf

/-- The terminal chunk. -/
def terminal : Bytes :=
  bytes "0\r\n\r\n"

/-- The bytes that a body in the response will be sent as. -/
def pending (body : List Bucket) : Bytes :=
  body.flatMap fun bucket => chunkHeader bucket.len ++ bucket.unsent ++ crlf

theorem unsent_fresh (data : Bytes) : (Bucket.fresh data).unsent = data :=
  rfl

theorem unsentAll_bodyGet {response : HttpResponse}
    (chunked : response.flags.responseChunked = true) :
    unsentAll (ymoHttpResponseBodyGet response).1 = pending response.body := by
  rw [ymoHttpResponseBodyGet]
  dsimp only
  rw [if_pos chunked, unsentAll, List.flatMap_assoc, pending]
  congr 1
  funext bucket
  simp only [List.flatMap_cons, List.flatMap_nil, unsent_fresh,
    List.append_nil, List.append_assoc]
  rfl

theorem pending_append (body : List Bucket) (data : Bytes) :
    pending (body ++ [Bucket.fresh data]) = pending body ++ chunkOf data := by
  rw [pending, List.flatMap_append, List.flatMap_singleton]
  rfl

/-- Neither appending a bucket nor taking the body changes whether the response
is chunked, or whether its terminal chunk was sent. -/
theorem flags_bodyAppend (response : HttpResponse) (data : Bytes) :
    (ymoHttpResponseBodyAppend response data).flags.responseChunked =
        response.flags.responseChunked ∧
      (ymoHttpResponseBodyAppend response data).flags.responseChunkTerm =
        response.flags.responseChunkTerm ∧
      (ymoHttpResponseBodyAppend response data).body =
        response.body ++ [Bucket.fresh data] := by
  rw [ymoHttpResponseBodyAppend]
  dsimp only
  split
  · exact ⟨rfl, rfl, rfl⟩
  · exact ⟨rfl, rfl, rfl⟩

/-- What is sent does not depend on when the write callbacks come. -/
theorem unsentAll_runSteps {response : HttpResponse}
    (chunked : response.flags.responseChunked = true)
    (unterminated : response.flags.responseChunkTerm = false)
    (steps : List BodyStep) :
    encoded response steps =
      pending response.body ++ (appended steps).flatMap chunkOf ++
        terminal := by
  unfold encoded
  dsimp only
  induction steps generalizing response with
  | nil =>
      have finished :
          (ymoHttpResponseFinish response).flags.responseChunked = true :=
        chunked
      have term :
          chunkTerm (ymoHttpResponseFinish response).flags =
            [Bucket.fresh (bytes "0\r\n\r\n")] := by
        simp only [chunkTerm, ymoHttpResponseFinish, chunked, unterminated,
          Bool.not_false, Bool.and_self, if_true]
      rw [runSteps, prepareBody]
      dsimp only
      rw [List.nil_append, List.nil_append, unsentAll_append,
        unsentAll_bodyGet finished, term, appended, List.flatMap_nil,
        List.append_nil, unsentAll_cons]
      rfl
  | cons step steps ih =>
      cases step with
      | append data =>
          rcases flags_bodyAppend response data with
            ⟨sameChunked, sameTerm, body⟩
          rw [runSteps,
            ih (sameChunked.trans chunked) (sameTerm.trans unterminated),
            body, pending_append, appended, List.flatMap_cons]
          simp only [List.append_assoc]
      | get =>
          have later :=
            @ih (ymoHttpResponseBodyGet response).2 chunked unterminated
          have taken : pending (ymoHttpResponseBodyGet response).2.body = [] :=
            rfl
          rw [runSteps]
          dsimp only
          rw [List.append_assoc, unsentAll_append, later, taken,
            unsentAll_bodyGet chunked, appended, List.nil_append,
            List.append_assoc]

theorem Chunked.encoded_eq {response : HttpResponse}
    (chunked : Chunked response)
    (steps : List BodyStep) :
    encoded response steps = (appended steps).flatMap chunkOf ++ terminal := by
  rw [unsentAll_runSteps chunked.chunked chunked.unterminated, chunked.body]
  rfl

/-! ## The line of a chunk -/

/-- Two lines of one text that end where the same kind of byte ends are the
same. -/
theorem split_unique (kind : UInt8 → Bool) {front front' back back' : Bytes}
    (inFront : ∀ c ∈ front, kind c = true)
    (inFront' : ∀ c ∈ front', kind c = true)
    (stop : ∀ c ∈ back.head?, kind c = false)
    (stop' : ∀ c ∈ back'.head?, kind c = false)
    (same : front ++ back = front' ++ back') :
    front = front' ∧ back = back' := by
  have ends :
      ∀ rest : Bytes,
        (∀ c ∈ rest.head?, kind c = false) → rest.takeWhile kind = [] := by
    intro rest other
    cases rest with
    | nil => rfl
    | cons c rest =>
        rw [List.takeWhile_cons, other c rfl]
        rfl
  have fronts : front = front' := by
    have taken := congrArg (List.takeWhile kind) same
    rw [List.takeWhile_append_of_pos inFront,
      List.takeWhile_append_of_pos inFront', ends back stop,
      ends back' stop', List.append_nil, List.append_nil] at taken
    exact taken
  rw [fronts] at same
  exact ⟨fronts, List.append_cancel_left same⟩

/-- `%zx` prints digits, and they stand for the number. -/
theorem hexDigits_digit {digit : Nat} (small : digit < 16) :
    isHexDigit (UInt8.ofNat digit.digitChar.toNat) = true ∧
      hexDigit (UInt8.ofNat digit.digitChar.toNat) = digit := by
  revert digit
  decide

theorem hexDigits_step {number : Nat} (large : 16 ≤ number) :
    hexDigits number =
      hexDigits (number / 16) ++
        [UInt8.ofNat (number % 16).digitChar.toNat] := by
  rw [hexDigits, Nat.toDigits_of_base_le (by omega) large, List.map_append]
  rfl

theorem hexDigits_small {number : Nat} (small : number < 16) :
    hexDigits number = [UInt8.ofNat number.digitChar.toNat] := by
  rw [hexDigits, Nat.toDigits_of_lt_base small]
  rfl

theorem isHexDigit_hexDigits (number : Nat) :
    ∀ c ∈ hexDigits number, isHexDigit c = true := by
  induction number using Nat.strongRecOn with
  | ind number ih =>
      intro c member
      rcases Nat.lt_or_ge number 16 with small | large
      · rw [hexDigits_small small, List.mem_singleton] at member
        rw [member]
        exact (hexDigits_digit small).1
      · rw [hexDigits_step large, List.mem_append, List.mem_singleton]
          at member
        rcases member with before | last
        · exact ih (number / 16) (by omega) c before
        · rw [last]
          exact (hexDigits_digit (Nat.mod_lt number (by omega))).1

theorem hexValue_hexDigits (number : Nat) :
    hexValue 0 (hexDigits number) = number := by
  induction number using Nat.strongRecOn with
  | ind number ih =>
      rcases Nat.lt_or_ge number 16 with small | large
      · rw [hexDigits_small small, hexValue, List.foldl_cons,
          List.foldl_nil, (hexDigits_digit small).2]
        omega
      · have front := ih (number / 16) (by omega)
        rw [hexValue] at front
        rw [hexDigits_step large, hexValue, List.foldl_append, front,
          List.foldl_cons, List.foldl_nil,
          (hexDigits_digit (Nat.mod_lt number (by omega))).2]
        omega

theorem hexDigits_ne_nil (number : Nat) : hexDigits number ≠ [] := by
  intro none
  exact Nat.toDigits_ne_nil (List.map_eq_nil_iff.mp none)

theorem length_hexDigits_le_iff (number : Nat) :
    (hexDigits number).length ≤ 4 ↔ number < 65536 := by
  rw [hexDigits, List.length_map]
  exact Nat.length_toDigits_le_iff (by omega) (by omega)

/-- The line that announces a number of bytes. -/
def sizeLine (number : Nat) : SizeLine where
  digits := hexDigits number
  extensions := []
  nonempty := hexDigits_ne_nil number
  hex := isHexDigit_hexDigits number

theorem sizeLine_bytes (number : Nat) :
    (sizeLine number).bytes = hexDigits number := by
  rw [SizeLine.bytes, sizeLine, List.flatMap_nil, List.append_nil]

theorem sizeLine_size (number : Nat) : (sizeLine number).size = number :=
  hexValue_hexDigits number

/-- A line that reads like the one printed for a number announces it. -/
theorem size_of_bytes {line : SizeLine}
    (printed : line.bytes = hexDigits number) :
    line.size = number := by
  have bytes : line.digits ++ line.extensions.flatMap Extension.bytes =
      hexDigits number ++ [] := by
    rw [List.append_nil]
    exact printed
  have semicolon :
      ∀ c ∈ (line.extensions.flatMap Extension.bytes).head?,
        isHexDigit c = false := by
    intro c first
    cases present : line.extensions with
    | nil =>
        rw [present] at first
        cases first
    | cons extension extensions =>
        rw [present] at first
        cases first
        rfl
  have digits :=
    (split_unique isHexDigit line.hex (isHexDigit_hexDigits number)
      semicolon (by intro c first; cases first) bytes).1
  rw [SizeLine.size, digits]
  exact hexValue_hexDigits number

/-- Up to four digits leave room for the end of the line. -/
theorem chunkHeader_of_lt {number : Nat} (fits : number < 65536) :
    chunkHeader number = hexDigits number ++ crlf := by
  have short := (length_hexDigits_le_iff number).mpr fits
  have printed : (hexDigits number ++ crlf).length ≤ 6 := by
    rw [List.length_append, show crlf.length = 2 from rfl]
    omega
  have none : (hexDigits number ++ crlf).length - 6 = 0 := by omega
  rw [chunkHeader]
  change
    (hexDigits number ++ crlf).take 6 ++
        List.replicate ((hexDigits number ++ crlf).length - 6) 0 =
      hexDigits number ++ crlf
  rw [none, List.replicate_zero, List.append_nil,
    List.take_of_length_le printed]

/-- More digits do not: the line is cut, and the byte that `snprintf` ends its
string with is part of what is sent. -/
theorem chunkHeader_of_ge {number : Nat} (long : 65536 ≤ number) :
    ∃ more,
      chunkHeader number =
          (hexDigits number).take 6 ++ more ∧
        (more = [cr, 0] ∨ ∃ zeros, more = 0 :: zeros) := by
  have digits : 5 ≤ (hexDigits number).length := by
    have short := length_hexDigits_le_iff number
    omega
  refine ⟨[cr, lf].take (6 - (hexDigits number).length) ++
    List.replicate ((hexDigits number).length - 4) 0, ?_, ?_⟩
  · rw [chunkHeader, List.take_append, List.append_assoc, List.length_append,
      show [cr, lf].length = 2 from rfl]
    congr 3
  · rcases Nat.eq_or_lt_of_le digits with five | six
    · rw [← five]
      exact Or.inl rfl
    · refine Or.inr ⟨List.replicate ((hexDigits number).length - 5) 0, ?_⟩
      have zeros :
          (hexDigits number).length - 4 =
            (hexDigits number).length - 5 + 1 := by
        omega
      rw [show 6 - (hexDigits number).length = 0 by omega, zeros,
        List.replicate_succ]
      rfl

/-! ## One chunk -/

/-- Every body begins with a line and its end. -/
theorem exists_line (body : ChunkedBody) :
    ∃ (line : SizeLine) (more : Bytes),
      body.bytes = line.bytes ++ (crlf ++ more) := by
  cases body with
  | mk chunks bodyEnd =>
      cases chunks with
      | nil =>
          refine
            ⟨bodyEnd.line,
              bodyEnd.trailer.flatMap (fun field => field.line ++ crlf) ++
                crlf, ?_⟩
          rw [ChunkedBody.bytes, List.flatMap_nil, List.nil_append,
            BodyEnd.bytes]
          simp only [List.append_assoc]
      | cons chunk chunks =>
          refine
            ⟨chunk.line,
              chunk.data ++
                (crlf ++ (chunks.flatMap Chunk.bytes ++ bodyEnd.bytes)),
              ?_⟩
          rw [ChunkedBody.bytes, List.flatMap_cons, Chunk.bytes]
          simp only [List.append_assoc]

/-- No body begins with a line that was cut. -/
theorem lt_of_bytes {rest : Bytes}
    (sent : body.bytes = chunkHeader number ++ rest) :
    number < 65536 := by
  rcases Nat.lt_or_ge number 65536 with fits | long
  · exact fits
  · exfalso
    rcases chunkHeader_of_ge long with ⟨more, header, cut⟩
    rcases exists_line body with ⟨line, later, starts⟩
    rw [header, List.append_assoc, starts] at sent
    have digits : ∀ c ∈ (hexDigits number).take 6, isLineByte c = true := by
      intro c member
      exact
        isLineByte_of_isHexDigit
          (isHexDigit_hexDigits number c (List.mem_of_mem_take member))
    have stop : ∀ c ∈ (crlf ++ later).head?, isLineByte c = false := by
      intro c first
      cases first
      rfl
    have stop' : ∀ c ∈ (more ++ rest).head?, isLineByte c = false := by
      intro c first
      rcases cut with rfl | ⟨zeros, rfl⟩
      · cases first
        rfl
      · cases first
        rfl
    have ends :=
      (split_unique isLineByte line.isLineByte digits stop stop' sent).2
    rcases cut with rfl | ⟨zeros, rfl⟩
    · cases ends
    · cases ends

/-- The line of a chunk that was not cut is the first line of the body. -/
theorem line_of_bytes {line : SizeLine} {later rest : Bytes}
    (fits : number < 65536)
    (sent : line.bytes ++ (crlf ++ later) = chunkHeader number ++ rest) :
    line.size = number ∧ later = rest := by
  have stop :
      ∀ more : Bytes, ∀ c ∈ (crlf ++ more).head?,
        isLineByte c = false := by
    intro more c first
    cases first
    rfl
  rw [chunkHeader_of_lt fits, List.append_assoc] at sent
  rcases
    split_unique isLineByte line.isLineByte
      (fun c member =>
        isLineByte_of_isHexDigit (isHexDigit_hexDigits number c member))
      (stop later) (stop rest) sent with
    ⟨lines, ends⟩
  exact ⟨size_of_bytes lines, List.append_cancel_left ends⟩

/-- A bucket that is sent as a chunk has data, and not too many; what follows
the chunk is a body. -/
theorem chunk_of_bytes {data rest : Bytes} (more : rest ≠ [])
    (sent : body.bytes = chunkOf data ++ rest) :
    (data ≠ [] ∧ data.length < 65536) ∧
      ∃ later : ChunkedBody, later.bytes = rest := by
  have split :
      body.bytes = chunkHeader data.length ++ (data ++ (crlf ++ rest)) := by
    rw [sent, chunkOf]
    simp only [List.append_assoc]
  have fits := lt_of_bytes split
  cases body with
  | mk chunks bodyEnd =>
      cases chunks with
      | nil =>
          exfalso
          rw [ChunkedBody.bytes, List.flatMap_nil, List.nil_append,
            BodyEnd.bytes] at split
          simp only [List.append_assoc] at split
          rcases line_of_bytes fits split with ⟨size, trailer⟩
          have empty : data = [] := by
            rw [bodyEnd.zero] at size
            exact List.length_eq_zero_iff.mp size.symm
          rw [empty, List.nil_append] at trailer
          cases fields : bodyEnd.trailer with
          | nil =>
              rw [fields, List.flatMap_nil, List.nil_append] at trailer
              have none : [] = rest :=
                List.append_cancel_left ((List.append_nil crlf).trans trailer)
              exact more none.symm
          | cons field fields' =>
              rw [fields] at trailer
              cases name : field.name.bytes with
              | nil => exact field.name.nonempty name
              | cons c name' =>
                  have first : c = cr := by
                    rw [List.flatMap_cons, TrailerField.line, name] at trailer
                    exact (List.cons.inj trailer).1
                  have tchar :=
                    field.name.tchars c (by rw [name]; exact List.mem_cons_self)
                  rw [first] at tchar
                  cases tchar
      | cons chunk chunks =>
          rw [ChunkedBody.bytes, List.flatMap_cons, Chunk.bytes] at split
          simp only [List.append_assoc] at split
          rcases line_of_bytes fits split with ⟨size, later⟩
          rw [chunk.sized] at size
          rcases List.append_inj later size with ⟨same, rest'⟩
          refine ⟨⟨?_, fits⟩, ⟨⟨chunks, bodyEnd⟩, ?_⟩⟩
          · rw [← same]
            exact chunk.nonempty
          · rw [ChunkedBody.bytes]
            exact List.append_cancel_left rest'

/-- The chunk that a bucket is sent as. -/
def chunk (data : Bytes) (nonempty : data ≠ []) (fits : data.length < 65536) :
    Chunk where
  line := sizeLine data.length
  data := data
  sized := sizeLine_size data.length
  nonempty := nonempty
  fits := Nat.lt_trans fits (by decide)

theorem chunk_bytes (data : Bytes) (nonempty : data ≠ [])
    (fits : data.length < 65536) :
    (chunk data nonempty fits).bytes = chunkOf data := by
  have line : (chunk data nonempty fits).line = sizeLine data.length := rfl
  rw [Chunk.bytes, chunkOf, chunkHeader_of_lt fits, line, sizeLine_bytes]
  rfl

/-! ## Whole bodies -/

/-- The body of a finished response: the chunks, and the last one. -/
def terminalBody : ChunkedBody where
  chunks := []
  bodyEnd :=
    { line := sizeLine 0
      zero := sizeLine_size 0
      trailer := [] }

theorem terminalBody_bytes : terminalBody.bytes = terminal := by
  decide

/-- The bytes are one chunked body, and it carries the data. -/
def Decodes (sent data : Bytes) : Prop :=
  ∃ body : ChunkedBody, body.bytes = sent ∧ body.data = data

/-- What an application can append without breaking the coding. -/
def Encodable (data : Bytes) : Prop :=
  data ≠ [] ∧ data.length < 65536

theorem Decodes.chunk {sent payload data : Bytes}
    (decodes : Decodes sent payload)
    (encodable : Encodable data) :
    Decodes (chunkOf data ++ sent) (data ++ payload) := by
  rcases decodes with ⟨body, bytes, carries⟩
  refine
    ⟨⟨ChunkedEncoding.chunk data encodable.1 encodable.2 :: body.chunks,
      body.bodyEnd⟩, ?_, ?_⟩
  · rw [ChunkedBody.bytes, List.flatMap_cons, chunk_bytes,
      List.append_assoc, ← bytes]
    rfl
  · rw [ChunkedBody.data, List.flatMap_cons, ← carries]
    rfl

theorem decodes_of_encodable {buckets : List Bytes}
    (encodable : ∀ data ∈ buckets, Encodable data) :
    Decodes (buckets.flatMap chunkOf ++ terminal) buckets.flatten := by
  induction buckets with
  | nil => exact ⟨terminalBody, terminalBody_bytes, rfl⟩
  | cons data buckets ih =>
      have later :=
        ih
          (fun other member => encodable other (List.mem_cons_of_mem _ member))
      rw [List.flatMap_cons, List.append_assoc, List.flatten_cons]
      exact later.chunk (encodable data List.mem_cons_self)

theorem encodable_of_bytes {buckets : List Bytes}
    (sent : body.bytes = buckets.flatMap chunkOf ++ terminal) :
    ∀ data ∈ buckets, Encodable data := by
  induction buckets generalizing body with
  | nil =>
      intro data member
      cases member
  | cons first buckets ih =>
      have more : buckets.flatMap chunkOf ++ terminal ≠ [] := by
        intro none
        cases (List.append_eq_nil_iff.mp none).2
      rw [List.flatMap_cons, List.append_assoc] at sent
      rcases chunk_of_bytes more sent with ⟨encodable, later, rest⟩
      intro data member
      rcases List.mem_cons.mp member with rfl | inside
      · exact encodable
      · exact ih rest data inside

theorem decodes_iff_encodable (buckets : List Bytes) :
    Decodes (buckets.flatMap chunkOf ++ terminal) buckets.flatten ↔
      ∀ data ∈ buckets, Encodable data := by
  constructor
  · rintro ⟨body, sent, -⟩
    exact encodable_of_bytes sent
  · exact decodes_of_encodable

/-! ## Responses -/

/-- The chains that are sent for a chunked response are one chunked body of the
data that was appended exactly when every bucket that was appended has data, and
fewer than 65536 bytes. -/
theorem encodes_iff {response : HttpResponse} (chunked : Chunked response)
    (steps : List BodyStep) :
    Decodes (encoded response steps) (appended steps).flatten ↔
      ∀ data ∈ appended steps, data ≠ [] ∧ data.length < 65536 := by
  rw [chunked.encoded_eq]
  exact decodes_iff_encodable (appended steps)

/-- A response that is chunked from the start. -/
def chunkedResponse : HttpResponse :=
  { ymoHttpResponseCreate with
    flags := { HttpFlags.none with responseChunked := true } }

theorem chunked_chunkedResponse : Chunked chunkedResponse :=
  ⟨rfl, rfl, rfl⟩

theorem encodes_iff_chunkedResponse :
    Decodes
        (encoded chunkedResponse
          [.append (bytes "ab"), .get, .append (bytes "c")])
        (appended [.append (bytes "ab"), .get, .append (bytes "c")]).flatten ↔
      ∀ data ∈
          appended [.append (bytes "ab"), .get, .append (bytes "c")],
        data ≠ [] ∧ data.length < 65536 :=
  encodes_iff chunked_chunkedResponse
    [.append (bytes "ab"), .get, .append (bytes "c")]

/-- A bucket without data ends the body before the one that follows it. -/
theorem not_decodes_empty :
    Chunked chunkedResponse ∧
      ¬Decodes
        (encoded chunkedResponse [.append [], .append (bytes "a")])
        (bytes "a") := by
  refine ⟨chunked_chunkedResponse, ?_⟩
  intro decodes
  rw [chunked_chunkedResponse.encoded_eq] at decodes
  have encodable :=
    (decodes_iff_encodable [[], bytes "a"]).mp decodes [] List.mem_cons_self
  exact encodable.1 rfl

end Yimmo.Http.ChunkedEncoding
