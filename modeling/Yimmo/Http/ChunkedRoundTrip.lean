import Yimmo.Http.ChunkedDecoding
import Yimmo.Http.ChunkedEncoding

/-!
# What one side sends chunked, the other side reads

The library writes the chunked coding for responses and reads it for requests.
This module lets its own body parser read what it wrote: it finds the data that
was appended, whenever the write callbacks came.

A bucket without data is written as the last chunk is, so the parser ends the
body there and leaves what follows to the next message.
-/

namespace Yimmo.Http.ChunkedRoundTrip

open Yimmo.Http.Exchange
open Yimmo.Http.Parse
open Yimmo.Http.Application
open Yimmo.Http.Reader
open Yimmo.Http.BodyBounds
open Yimmo.Http.ReadProgress
open Yimmo.Http.Response
open Yimmo.Http.ChunkedCoding
open Yimmo.Http.ChunkedDecoding
open Yimmo.Http.ChunkedEncoding

/-! ## What was written up to the first empty bucket -/

/-- The buckets in front of the first one that has no data. -/
def untilEmpty (buckets : List Bytes) : List Bytes :=
  buckets.takeWhile fun data => !data.isEmpty

theorem ne_nil_of_mem_untilEmpty {buckets : List Bytes} {data : Bytes}
    (member : data ∈ untilEmpty buckets) :
    data ≠ [] := by
  have some := List.mem_takeWhile_imp member
  rintro rfl
  cases some

/-- A bucket without data is written as the end of a body. -/
theorem chunkOf_nil : chunkOf [] = terminal := by
  decide

/-- What is written begins with the buckets that have data, and an end. -/
theorem written_untilEmpty (buckets : List Bytes) :
    ∃ more,
      buckets.flatMap chunkOf ++ terminal =
        (untilEmpty buckets).flatMap chunkOf ++ terminal ++ more ∧
      (more = [] ↔ ∀ data ∈ buckets, data ≠ []) := by
  induction buckets with
  | nil =>
      refine ⟨[], rfl, ?_⟩
      constructor
      · intro _ data member
        cases member
      · intro _
        rfl
  | cons data buckets ih =>
      cases data with
      | nil =>
          refine ⟨buckets.flatMap chunkOf ++ terminal, ?_, ?_⟩
          · rw [List.flatMap_cons, chunkOf_nil, List.append_assoc]
            rfl
          · constructor
            · intro none
              cases (List.append_eq_nil_iff.mp none).2
            · intro some
              exact absurd rfl (some [] List.mem_cons_self)
      | cons c data =>
          rcases ih with ⟨more, written, whole⟩
          refine ⟨more, ?_, ?_⟩
          · have front :
                untilEmpty ((c :: data) :: buckets) =
                  (c :: data) :: untilEmpty buckets :=
              rfl
            rw [front, List.flatMap_cons, List.flatMap_cons,
              List.append_assoc, written]
            simp only [List.append_assoc]
          · rw [whole, List.forall_mem_cons]
            constructor
            · intro others
              exact ⟨List.cons_ne_nil c data, others⟩
            · intro all
              exact all.2

/-! ## The body that is read -/

theorem plain_chunk (data : Bytes) (nonempty : data ≠ [])
    (fits : data.length < 65536) :
    (chunk data nonempty fits).line.Plain :=
  Or.inl rfl

/-- What is written for buckets that can be encoded is a plain body. -/
theorem exists_plain {buckets : List Bytes}
    (encodable : ∀ data ∈ buckets, Encodable data) :
    ∃ body : ChunkedBody,
      body.Plain ∧
        body.bytes = buckets.flatMap chunkOf ++ terminal ∧
          body.data = buckets.flatten := by
  induction buckets with
  | nil =>
      exact
        ⟨terminalBody,
          { chunks := by
              intro chunk member
              cases member
            last := Or.inl rfl
            trailer := rfl },
          terminalBody_bytes, rfl⟩
  | cons data buckets ih =>
      rw [List.forall_mem_cons] at encodable
      rcases encodable with ⟨⟨nonempty, fits⟩, others⟩
      rcases ih others with
        ⟨body, plain, written, carried⟩
      refine
        ⟨⟨chunk data nonempty fits :: body.chunks, body.bodyEnd⟩, ?_, ?_, ?_⟩
      · refine ⟨?_, plain.last, plain.trailer⟩
        intro other member
        rcases List.mem_cons.mp member with rfl | inside
        · exact plain_chunk data nonempty fits
        · exact plain.chunks other inside
      · rw [ChunkedBody.bytes, List.flatMap_cons, chunk_bytes,
          List.flatMap_cons, List.append_assoc, List.append_assoc,
          ← written]
        rfl
      · rw [ChunkedBody.data, List.flatMap_cons, List.flatten_cons, ← carried]
        rfl

section RoundTrip

variable
    {protoData : HttpProtoData}
    {callback : RequestView → Bytes → Reaction}
    {exchange : HttpExchange}
    {response : HttpResponse}

/--
A chunked response is read as the data of the buckets that were appended in
front of the first empty one, if each has fewer than 65536 bytes, whatever write
callbacks came in between and whatever follows the response.  The parser is then
complete, and it took all of the response exactly when no bucket was empty.
-/
theorem read_as_appended (supplied : protoData.bodyCb = some callback)
    (okay : ∀ view data, (callback view data).status = .okay)
    (ready : AtHeader exchange)
    (chunked : Chunked response)
    (steps : List ChunkedEncoding.BodyStep)
    (fits : ∀ data ∈ untilEmpty (appended steps), data.length < 65536)
    (state : ReadState)
    (further : Bytes) :
    ∃ count after later,
      ymoParseHttpBody (bodyCb protoData) state exchange
          (encoded response steps ++ further)
          (encoded response steps ++ further).length =
        (.took count after, later) ∧
      after.state = .complete ∧
      shownBody later =
        shownBody state ++ (untilEmpty (appended steps)).flatten ∧
      (count = (encoded response steps).length ↔
        ∀ data ∈ appended steps, data ≠ []) := by
  rcases written_untilEmpty (appended steps) with ⟨more, written, whole⟩
  rcases
      exists_plain fun data member =>
        ⟨ne_nil_of_mem_untilEmpty member, fits data member⟩
    with ⟨body, plain, sent, carried⟩
  have shape : encoded response steps = body.bytes ++ more := by
    rw [chunked.encoded_eq, written, sent]
  have decoded :=
    decoded_of_plain ⟨supplied, okay⟩ ready plain (more ++ further) state
  rcases decoded with ⟨after, later, took, complete, shown⟩
  refine ⟨body.bytes.length, after, later, ?_, complete, ?_, ?_⟩
  · rw [shape, List.append_assoc]
    exact took
  · rw [shown, carried]
  · rw [← whole, shape, List.length_append]
    constructor
    · intro same
      exact List.length_eq_zero_iff.mp (by omega)
    · intro none
      rw [none]
      rfl

end RoundTrip

theorem read_as_appended_twoBuckets :
    ∃ count after later,
      ymoParseHttpBody (bodyCb takingApplication)
          { error := false, effects := [] } (readyExchange afterHead)
          (encoded chunkedResponse
              [.append (bytes "ab"), .get, .append (bytes "c")] ++
            bytes "GET")
          (encoded chunkedResponse
              [.append (bytes "ab"), .get, .append (bytes "c")] ++
            bytes "GET").length =
        (.took count after, later) ∧
      after.state = .complete ∧
      shownBody later =
        shownBody { error := false, effects := [] } ++
          (untilEmpty
            (appended
              [.append (bytes "ab"), .get, .append (bytes "c")])).flatten ∧
      (count =
          (encoded chunkedResponse
            [.append (bytes "ab"), .get, .append (bytes "c")]).length ↔
        ∀ data ∈
            appended [.append (bytes "ab"), .get, .append (bytes "c")],
          data ≠ []) :=
  read_as_appended rfl (fun _ _ => rfl) atHeader_afterHead
    chunked_chunkedResponse
    [.append (bytes "ab"), .get, .append (bytes "c")] (by decide)
    { error := false, effects := [] } (bytes "GET")

end Yimmo.Http.ChunkedRoundTrip
