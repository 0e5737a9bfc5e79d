import Mathlib.Algebra.Group.Int.Defs
import Mathlib.Algebra.GroupWithZero.Nat
import Mathlib.Data.List.Basic
import Yimmo.Core.Characters
import Yimmo.Lib.TurnLoop

/-!
# The input of a WSGI application

This module models the methods of `yimmo.Context` that read the body of a request:
`read`, `readline`, `readlines` and the iteration.  They share `body_read`, the
number of bytes that were given out.  Python integers are integers, and an object
that cannot be allocated is not considered.

`PyLong_AsSize_t` raises an exception for a negative number, and for one that does
not fit; `read` and `readline` go on with what it returns.  So a sequence of calls
is served just where no such number is converted (`serves_iff`).
-/

namespace Yimmo.Wsgi.Input

open Yimmo.Lib.TurnLoop

/-! ## The exchange -/

/-- `body` and `content_length` of a request.  The body is buffered before the
request callback, and its bytes are counted by `content_length`. -/
structure Request where
  body : Bytes
  contentLength : Nat
  buffered : body.length = contentLength
  fits : contentLength < 2 ^ 64

/-- An exchange, with the number of bytes that the application has read. -/
structure Exchange where
  request : Request
  bodyRead : Nat

/-- An exchange of which nothing has been read. -/
def ymoWsgiExchangeCreate (request : Request) : Exchange where
  request := request
  bodyRead := 0

/-- An exception of the interpreter. -/
inductive PyExc where
  | overflowError
  | stopIteration
deriving DecidableEq

/-- What a method returns (`none` is a null pointer), the exception that is set, and
the exchange after it. -/
structure Returned (Value : Type) where
  value : Option Value
  pending : Option PyExc
  exchange : Exchange

/-- `SIZE_MAX`. -/
def sizeMax : Nat := 2 ^ 64 - 1

/-- `PyLong_AsSize_t`, with the exception that it raises. -/
def pyLongAsSizeT (number : Int) : Nat × Option PyExc :=
  if 0 ≤ number ∧ number ≤ sizeMax then (number.toNat, none)
  else (sizeMax, some .overflowError)

/-- `YMO_MIN`. -/
def ymoMin (x y : Nat) : Nat :=
  if x < y then x else y

/-- `chunk_length`, from the first argument if there is one. -/
def chunkLength (size : Option Int) (bodyRemain : Nat) : Nat × Option PyExc :=
  match size with
  | none => (bodyRemain, none)
  | some size =>
      let converted := pyLongAsSizeT size
      (ymoMin converted.1 bodyRemain, converted.2)

/-- `yimmo_Context_read`. -/
def yimmoContextRead (exchange : Exchange) (size : Option Int) :
    Returned Bytes :=
  let bodyRead := exchange.bodyRead
  let contentLength := exchange.request.contentLength
  if contentLength = 0 ∨ bodyRead ≥ contentLength then
    { value := some []
      pending := none
      exchange := exchange }
  else
    let chunk := chunkLength size (contentLength - bodyRead)
    { value := some ((exchange.request.body.drop bodyRead).take chunk.1)
      pending := chunk.2
      exchange := { exchange with bodyRead := bodyRead + chunk.1 } }

def newline : UInt8 := 0x0a

/-- The loop of `yimmo_Context_readline` from some index on: `chunk_length` after
it. -/
def newlineLoop (chunkLength : Nat) : Nat → Bytes → Nat
  | _, [] => chunkLength
  | i, c :: rest =>
      if c = newline then i + 1 else newlineLoop chunkLength (i + 1) rest

/-- `yimmo_Context_readline`. -/
def yimmoContextReadline (exchange : Exchange) (size : Option Int) :
    Returned Bytes :=
  let bodyRead := exchange.bodyRead
  let contentLength := exchange.request.contentLength
  if contentLength = 0 ∨ bodyRead ≥ contentLength then
    { value := some []
      pending := none
      exchange := exchange }
  else
    let chunk := chunkLength size (contentLength - bodyRead)
    let chunkStart := exchange.request.body.drop bodyRead
    let length := newlineLoop chunk.1 0 (chunkStart.take chunk.1)
    { value := some (chunkStart.take length)
      pending := chunk.2
      exchange := { exchange with bodyRead := bodyRead + length } }

/-- One turn of the loop of `yimmo_Context_readlines`. -/
def readlinesTurn :
    List Bytes × Exchange →
      Turn (List Bytes × Exchange) (Returned (List Bytes))
  | (list, exchange) =>
      let line := yimmoContextReadline exchange none
      match line.value with
      | none =>
          .done
            { value := none
              pending := line.pending
              exchange := line.exchange }
      | some chunk =>
          if chunk.length ≠ 0 then .again (list ++ [chunk], line.exchange)
          else
            .done
              { value := some list
                pending := line.pending
                exchange := line.exchange }

/-- `yimmo_Context_readlines`; the hint is not looked at.  A loop that is given up on
returns a null pointer. -/
def yimmoContextReadlines (exchange : Exchange) (_hint : Option Int) :
    Returned (List Bytes) :=
  loop readlinesTurn
    (fun state =>
      { value := none
        pending := none
        exchange := state.2 })
    (exchange.request.contentLength + 1) ([], exchange)

/-- `yimmo_Context_iternext`. -/
def yimmoContextIternext (exchange : Exchange) : Returned Bytes :=
  let bodyRead := exchange.bodyRead
  let contentLength := exchange.request.contentLength
  if bodyRead < contentLength then
    let remain := contentLength - bodyRead
    { value := some ((exchange.request.body.drop bodyRead).take remain)
      pending := none
      exchange := { exchange with bodyRead := bodyRead + remain } }
  else
    { value := none
      pending := some .stopIteration
      exchange := exchange }

/-! ## Calls -/

/-- A call of the application. -/
inductive Call where
  | read (size : Option Int)
  | readline (size : Option Int)
  | readlines (hint : Option Int)
  | next

/-- A bytes object, as a list of one. -/
def single (returned : Returned Bytes) : Returned (List Bytes) :=
  { returned with value := returned.value.map fun chunk => [chunk] }

/-- What a call returns: the bytes objects in order. -/
def Call.run (exchange : Exchange) : Call → Returned (List Bytes)
  | .read size => single (yimmoContextRead exchange size)
  | .readline size => single (yimmoContextReadline exchange size)
  | .readlines hint => yimmoContextReadlines exchange hint
  | .next => single (yimmoContextIternext exchange)

/-- The size that a call is limited to. -/
def Call.size : Call → Option Int
  | .read size => size
  | .readline size => size
  | .readlines _ => none
  | .next => none

/-- The call returns lines. -/
def Call.byLine : Call → Bool
  | .readline _ => true
  | .readlines _ => true
  | _ => false

/-- All bytes that were returned. -/
def Returned.bytes (returned : Returned (List Bytes)) : Bytes :=
  (returned.value.getD []).flatten

/-! ## The file interface -/

/-- A chunk is a line of what remains, or less for a reason. -/
structure Line
    (size : Option Int)
    (rest chunk : Bytes) : Prop where
  isPrefix : chunk <+: rest
  inside : ∀ c ∈ chunk.dropLast, c ≠ newline
  complete :
    chunk.getLast? = some newline ∨
      size = some (chunk.length : Int) ∨ chunk = rest

/-- Some chunks are lines of what remains, one behind the other. -/
inductive Lines
    (size : Option Int) :
    Bytes → List Bytes → Prop where
  | nil
      (rest : Bytes) :
      Lines size rest []
  | cons
      {rest chunk : Bytes}
      {chunks : List Bytes}
      (line : Line size rest chunk)
      (later : Lines size (rest.drop chunk.length) chunks) :
      Lines size rest (chunk :: chunks)

/-- What remains of the body. -/
def Exchange.remaining (exchange : Exchange) : Bytes :=
  exchange.request.body.drop exchange.bodyRead

/-- A call returns an object and no exception, or the iteration stops at the end. -/
def Settled (exchange : Exchange) (call : Call)
    (returned : Returned (List Bytes)) : Prop :=
  (returned.pending = none ∧ returned.value ≠ none) ∨
    (call = .next ∧
      exchange.remaining = [] ∧
      returned.pending = some .stopIteration ∧ returned.value = none)

/-- A call does what the file interface says. -/
structure Served
    (exchange : Exchange)
    (call : Call)
    (returned : Returned (List Bytes)) : Prop where
  settled : Settled exchange call returned
  limited :
    ∀ size, call.size = some size → 0 ≤ size → returned.bytes.length ≤ size
  lines :
    call.byLine = true →
      Lines call.size exchange.remaining (returned.value.getD [])

/-- Each of some calls does, and all bytes that were returned are the first ones of
the body, as many as `body_read`. -/
def Serves (out : Bytes) (exchange : Exchange) :
    List Call → Prop
  | [] => True
  | call :: later =>
      let returned := call.run exchange
      let after := returned.exchange
      Served exchange call returned ∧
        (out ++ returned.bytes =
            exchange.request.body.take after.bodyRead ∧
          after.bodyRead ≤ exchange.request.contentLength) ∧
        Serves (out ++ returned.bytes) after later

/-- The size of a call is one that can be converted. -/
def Convertible (size : Option Int) : Prop :=
  ∀ number, size = some number → 0 ≤ number ∧ number < 2 ^ 64

/-- Where some of the body remains, the sizes of the calls can be converted. -/
def SizesConvertible (exchange : Exchange) : List Call → Prop
  | [] => True
  | call :: later =>
      (exchange.remaining ≠ [] → Convertible call.size) ∧
        SizesConvertible (call.run exchange).exchange later

/-! ## Sizes -/

theorem ymoMin_eq (x y : Nat) : ymoMin x y = min x y := by
  unfold ymoMin
  split
  · omega
  · omega

theorem pyLongAsSizeT_of_convertible {number : Int} (nonnegative : 0 ≤ number)
    (below : number < 2 ^ 64) :
    pyLongAsSizeT number = (number.toNat, none) := by
  have atMost : number ≤ (sizeMax : Int) := by
    unfold sizeMax
    omega
  rw [pyLongAsSizeT, if_pos ⟨nonnegative, atMost⟩]

theorem pyLongAsSizeT_of_not {number : Int}
    (other : ¬(0 ≤ number ∧ number < 2 ^ 64)) :
    pyLongAsSizeT number = (sizeMax, some .overflowError) := by
  have outside : ¬(0 ≤ number ∧ number ≤ (sizeMax : Int)) := by
    unfold sizeMax
    omega
  rw [pyLongAsSizeT, if_neg outside]

/-- What a call takes of what remains. -/
structure ChunkLength
    (size : Option Int)
    (remain : Nat)
    (chunk : Nat × Option PyExc) : Prop where
  inside : chunk.1 ≤ remain
  limited : ∀ number, size = some number → 0 ≤ number → chunk.1 ≤ number
  complete : size = some (chunk.1 : Int) ∨ chunk.1 = remain
  pending : chunk.2 = none ↔ Convertible size

theorem convertible_none : Convertible none := by
  intro number same
  cases same

theorem convertible_some_iff (number : Int) :
    Convertible (some number) ↔ 0 ≤ number ∧ number < 2 ^ 64 := by
  constructor
  · intro convertible
    exact convertible number rfl
  · intro range other same
    cases same
    exact range

theorem chunkLength_none (remain : Nat) :
    chunkLength none remain = (remain, none) :=
  rfl

theorem chunkLength_some (number : Int) (remain : Nat) :
    chunkLength (some number) remain =
      (ymoMin (pyLongAsSizeT number).1 remain, (pyLongAsSizeT number).2) :=
  rfl

theorem chunkLength_spec (size : Option Int) {remain : Nat}
    (fits : remain < 2 ^ 64) :
    ChunkLength size remain (chunkLength size remain) := by
  cases size with
  | none =>
      rw [chunkLength_none]
      refine ⟨Nat.le_refl _, ?_, Or.inr rfl, iff_of_true rfl convertible_none⟩
      intro number same
      cases same
  | some number =>
      have only := convertible_some_iff number
      rw [chunkLength_some]
      by_cases range : 0 ≤ number ∧ number < 2 ^ 64
      · rw [pyLongAsSizeT_of_convertible range.1 range.2, ymoMin_eq]
        refine ⟨Nat.min_le_right .., ?_, ?_, iff_of_true rfl (only.mpr range)⟩
        · intro other same _
          cases same
          dsimp only
          omega
        · rw [Option.some.injEq]
          dsimp only
          omega
      · have all : ymoMin sizeMax remain = remain := by
          rw [ymoMin_eq]
          unfold sizeMax
          omega
        rw [pyLongAsSizeT_of_not range, all]
        refine ⟨Nat.le_refl _, ?_, Or.inr rfl, ?_⟩
        · intro other same nonnegative
          cases same
          dsimp only
          omega
        · refine iff_of_false ?_ fun convertible => range (only.mp convertible)
          intro none
          cases none

/-! ## Lines -/

/-- The loop stops behind a line feed, or with all bytes. -/
theorem newlineLoop_spec (i : Nat) (data : Bytes) :
    ∃ count,
      newlineLoop (i + data.length) i data = i + count ∧
        count ≤ data.length ∧
        (∀ c ∈ (data.take count).dropLast, c ≠ newline) ∧
        ((data.take count).getLast? = some newline ∨ count = data.length) := by
  induction data generalizing i with
  | nil =>
      exact
        ⟨0, rfl, Nat.le_refl _, fun c member => absurd member List.not_mem_nil,
          Or.inr rfl⟩
  | cons c data ih =>
      rw [newlineLoop]
      by_cases ends : c = newline
      · rw [if_pos ends]
        refine ⟨1, rfl, Nat.le_add_left .., ?_, Or.inl ?_⟩
        · intro other member
          exact absurd member List.not_mem_nil
        · rw [ends]
          rfl
      · rw [if_neg ends]
        rcases ih (i + 1) with
          ⟨count, stops, few, inside, complete⟩
        refine ⟨count + 1, ?_, Nat.succ_le_succ few, ?_, ?_⟩
        · rw [List.length_cons, Nat.add_comm data.length, ← Nat.add_assoc,
            stops, Nat.add_assoc, Nat.add_comm 1]
        · rw [List.take_succ_cons]
          intro other member
          by_cases empty : data.take count = []
          · rw [empty] at member
            exact absurd member List.not_mem_nil
          · rw [List.dropLast_cons_of_ne_nil empty] at member
            rcases List.mem_cons.mp member with rfl | later
            · exact ends
            · exact inside other later
        · rcases complete with last | all
          · left
            rw [List.take_succ_cons, List.getLast?_cons, last]
            rfl
          · right
            rw [all, List.length_cons]

/-- A line behind the others. -/
theorem Lines.append {size : Option Int} {rest chunk : Bytes}
    {chunks : List Bytes}
    (lines : Lines size rest chunks)
    (line : Line size (rest.drop chunks.flatten.length) chunk) :
    Lines size rest (chunks ++ [chunk]) := by
  induction lines with
  | nil rest => exact .cons line (.nil _)
  | cons first later ih =>
      refine .cons first (ih ?_)
      rw [List.flatten_cons, List.length_append, ← List.drop_drop] at line
      exact line

/-! ## What the methods do -/

/-- Some bytes are taken from what remains. -/
structure Takes
    (exchange : Exchange)
    (data : Bytes)
    (after : Exchange) : Prop where
  request : after.request = exchange.request
  isPrefix : data <+: exchange.remaining
  bodyRead : after.bodyRead = exchange.bodyRead + data.length

section

variable {exchange : Exchange}

theorem length_remaining (exchange : Exchange) :
    exchange.remaining.length =
      exchange.request.contentLength - exchange.bodyRead := by
  rw [Exchange.remaining, List.length_drop, exchange.request.buffered]

theorem remaining_eq_nil_iff (exchange : Exchange) :
    exchange.remaining = [] ↔
      exchange.request.contentLength ≤ exchange.bodyRead := by
  rw [← List.length_eq_zero_iff, length_remaining, Nat.sub_eq_zero_iff_le]

/-- The test of `read` and `readline`. -/
theorem atEnd_iff (exchange : Exchange) :
    (exchange.request.contentLength = 0 ∨
        exchange.bodyRead ≥ exchange.request.contentLength) ↔
      exchange.remaining = [] := by
  rw [remaining_eq_nil_iff]
  omega

theorem Takes.none (exchange : Exchange) : Takes exchange [] exchange :=
  ⟨rfl, List.nil_prefix, rfl⟩

theorem Takes.trans {between after : Exchange} {first second : Bytes}
    (takes : Takes exchange first between)
    (later : Takes between second after) :
    Takes exchange (first ++ second) after where
  request := later.request.trans takes.request
  isPrefix := by
    rcases takes.isPrefix with ⟨rest, split⟩
    have remains : between.remaining = rest := by
      rw [Exchange.remaining, takes.request, takes.bodyRead, ← List.drop_drop]
      show exchange.remaining.drop first.length = rest
      rw [← split, List.drop_left]
    rw [← split, List.prefix_append_right_inj, ← remains]
    exact later.isPrefix
  bodyRead := by
    rw [later.bodyRead, takes.bodyRead, List.length_append, Nat.add_assoc]

/-- Behind what was taken are the bytes that remain. -/
theorem Takes.remaining {after : Exchange} {data : Bytes}
    (takes : Takes exchange data after) :
    after.remaining = exchange.remaining.drop data.length := by
  rw [Exchange.remaining, Exchange.remaining, takes.request, takes.bodyRead,
    List.drop_drop]

/-- So many bytes of what remains. -/
theorem takes_take {count : Nat} (inside : count ≤ exchange.remaining.length) :
    Takes exchange (exchange.remaining.take count)
      { exchange with bodyRead := exchange.bodyRead + count } where
  request := rfl
  isPrefix := List.take_prefix ..
  bodyRead := by rw [List.length_take_of_le inside]

/-- What a call for one chunk returns. -/
structure Chunk
    (exchange : Exchange)
    (size : Option Int)
    (returned : Returned Bytes)
    (chunk : Bytes) : Prop where
  value : returned.value = some chunk
  takes : Takes exchange chunk returned.exchange
  limited : ∀ number, size = some number → 0 ≤ number → chunk.length ≤ number
  pending :
    returned.pending = none ↔ (exchange.remaining ≠ [] → Convertible size)

theorem chunk_of_atEnd (atEnd : exchange.remaining = []) (size : Option Int) :
    Chunk exchange size
      { value := some []
        pending := none
        exchange := exchange } [] where
  value := rfl
  takes := .none exchange
  limited := fun _ _ nonnegative => nonnegative
  pending := iff_of_true rfl fun nonempty => absurd atEnd nonempty

theorem chunkLength_remaining (exchange : Exchange) (size : Option Int) :
    ChunkLength size exchange.remaining.length
      (chunkLength size
        (exchange.request.contentLength - exchange.bodyRead)) := by
  have fits := exchange.request.fits
  rw [length_remaining]
  exact chunkLength_spec size (by omega)

theorem yimmoContextRead_spec (exchange : Exchange) (size : Option Int) :
    ∃ chunk, Chunk exchange size (yimmoContextRead exchange size) chunk := by
  unfold yimmoContextRead
  dsimp only
  by_cases atEnd : exchange.remaining = []
  · rw [if_pos ((atEnd_iff exchange).mpr atEnd)]
    exact ⟨_, chunk_of_atEnd atEnd size⟩
  · rw [if_neg fun ends => atEnd ((atEnd_iff exchange).mp ends)]
    have spec := chunkLength_remaining exchange size
    refine ⟨_, rfl, takes_take spec.inside, ?_, ?_⟩
    · intro number same nonnegative
      show ((exchange.remaining.take _).length : Int) ≤ number
      rw [List.length_take_of_le spec.inside]
      exact spec.limited number same nonnegative
    · rw [spec.pending]
      exact ⟨fun convertible _ => convertible, fun hold => hold atEnd⟩

theorem yimmoContextReadline_spec (exchange : Exchange) (size : Option Int) :
    ∃ chunk,
      Chunk exchange size (yimmoContextReadline exchange size) chunk ∧
        Line size exchange.remaining chunk := by
  unfold yimmoContextReadline
  dsimp only
  by_cases atEnd : exchange.remaining = []
  · rw [if_pos ((atEnd_iff exchange).mpr atEnd)]
    refine ⟨_, chunk_of_atEnd atEnd size, List.nil_prefix, ?_, ?_⟩
    · intro c member
      exact absurd member List.not_mem_nil
    · exact Or.inr (Or.inr atEnd.symm)
  · rw [if_neg fun ends => atEnd ((atEnd_iff exchange).mp ends)]
    have spec := chunkLength_remaining exchange size
    generalize
      chunkLength size
          (exchange.request.contentLength - exchange.bodyRead) =
        chunk at spec
    have length : (exchange.remaining.take chunk.1).length = chunk.1 :=
      List.length_take_of_le spec.inside
    rcases newlineLoop_spec 0 (exchange.remaining.take chunk.1) with
      ⟨count, stops, few, inside, complete⟩
    rw [length, Nat.zero_add, Nat.zero_add] at stops
    rw [length] at few complete
    rw [List.take_take, Nat.min_eq_left few] at inside complete
    have stopped :
        newlineLoop chunk.1 0
            ((exchange.request.body.drop exchange.bodyRead).take chunk.1) =
          count :=
      stops
    have within : count ≤ exchange.remaining.length :=
      Nat.le_trans few spec.inside
    have counted : (exchange.remaining.take count).length = count :=
      List.length_take_of_le within
    rw [stopped]
    refine
      ⟨exchange.remaining.take count, ⟨rfl, takes_take within, ?_, ?_⟩,
        List.take_prefix .., inside, ?_⟩
    · intro number same nonnegative
      have atMost := spec.limited number same nonnegative
      rw [counted]
      omega
    · rw [spec.pending]
      exact ⟨fun convertible _ => convertible, fun hold => hold atEnd⟩
    · rcases complete with last | all
      · exact Or.inl last
      · right
        rw [counted, all]
        rcases spec.complete with cut | whole
        · exact Or.inl cut
        · right
          rw [whole, List.take_length]

/-- The lines so far were taken from what remained at first. -/
structure Collecting
    (start : Exchange)
    (state : List Bytes × Exchange) : Prop where
  takes : Takes start state.1.flatten state.2
  lines : Lines none start.remaining state.1

/-- What `readlines` returns. -/
structure Collected
    (start : Exchange)
    (returned : Returned (List Bytes)) : Prop where
  pending : returned.pending = none
  value : returned.value ≠ none
  takes : Takes start returned.bytes returned.exchange
  lines : Lines none start.remaining (returned.value.getD [])

/-- A turn adds a line, or there is none. -/
theorem Collecting.turn {start : Exchange} {state : List Bytes × Exchange}
    (collecting : Collecting start state) :
    (readlinesTurn state).Satisfies
      (fun next =>
        Collecting start next ∧
          next.2.remaining.length < state.2.remaining.length)
      (Collected start) := by
  obtain ⟨list, current⟩ := state
  rcases yimmoContextReadline_spec current none with ⟨chunk, spec, line⟩
  have takes := collecting.takes
  have pending : (yimmoContextReadline current none).pending = none :=
    spec.pending.mpr fun _ => convertible_none
  unfold readlinesTurn
  dsimp only at takes ⊢
  rw [spec.value]
  dsimp only
  by_cases empty : chunk.length = 0
  · rw [if_neg (not_not.mpr empty)]
    have all := takes.trans spec.takes
    rw [List.length_eq_zero_iff.mp empty, List.append_nil] at all
    exact
      { pending := pending
        value := Option.some_ne_none list
        takes := all
        lines := collecting.lines }
  · rw [if_pos empty]
    refine ⟨⟨?_, collecting.lines.append ?_⟩, ?_⟩
    · rw [List.flatten_append, List.flatten_singleton]
      exact takes.trans spec.takes
    · rw [← takes.remaining]
      exact line
    · have few := spec.takes.isPrefix.length_le
      dsimp only
      rw [spec.takes.remaining, List.length_drop]
      omega

theorem yimmoContextReadlines_spec (exchange : Exchange) (hint : Option Int) :
    Collected exchange (yimmoContextReadlines exchange hint) := by
  have enough :
      exchange.remaining.length < exchange.request.contentLength + 1 := by
    rw [length_remaining]
    omega
  have initially : Collecting exchange ([], exchange) :=
    ⟨.none exchange, .nil _⟩
  exact
    loop_leaves (Collecting exchange)
      (fun state => state.2.remaining.length) _
      (fun state collecting => collecting.turn)
      (fun state =>
        ({ value := none
           pending := none
           exchange := state.2 } : Returned (List Bytes)))
      _ initially enough

end

/-! ## Sequences of calls -/

/-- What every call does, whatever its size is. -/
structure Answered
    (exchange : Exchange)
    (call : Call)
    (returned : Returned (List Bytes)) : Prop where
  takes : Takes exchange returned.bytes returned.exchange
  limited :
    ∀ size, call.size = some size → 0 ≤ size → returned.bytes.length ≤ size
  lines :
    call.byLine = true →
      Lines call.size exchange.remaining (returned.value.getD [])
  settled :
    Settled exchange call returned ↔
      (exchange.remaining ≠ [] → Convertible call.size)

section

variable {exchange : Exchange}

theorem bytes_single {returned : Returned Bytes} {chunk : Bytes}
    (value : returned.value = some chunk) :
    (single returned).bytes = chunk := by
  rw [Returned.bytes, single, value]
  exact List.append_nil chunk

/-- A call that returns an object is settled if there is no exception. -/
theorem settled_iff {call : Call} {returned : Returned (List Bytes)}
    (object : returned.value ≠ none) :
    Settled exchange call returned ↔ returned.pending = none := by
  constructor
  · rintro (⟨pending, _⟩ | ⟨_, _, _, null⟩)
    · exact pending
    · exact absurd null object
  · exact fun pending => Or.inl ⟨pending, object⟩

theorem answered_of_chunk {call : Call} {returned : Returned Bytes}
    {chunk : Bytes}
    (spec : Chunk exchange call.size returned chunk)
    (line : call.byLine = true → Line call.size exchange.remaining chunk) :
    Answered exchange call (single returned) := by
  have bytes := bytes_single spec.value
  have value : (single returned).value = some [chunk] := by
    rw [single, spec.value]
    rfl
  constructor
  · rw [bytes]
    exact spec.takes
  · rw [bytes]
    exact spec.limited
  · intro byLine
    rw [value]
    exact .cons (line byLine) (.nil _)
  · rw [settled_iff (by rw [value]; exact Option.some_ne_none _)]
    exact spec.pending

/-- The iteration gives out all that remains. -/
theorem answered_next (exchange : Exchange) :
    Answered exchange .next (single (yimmoContextIternext exchange)) := by
  have nothing : Convertible Call.next.size := convertible_none
  have always : exchange.remaining ≠ [] → Convertible Call.next.size :=
    fun _ => nothing
  unfold yimmoContextIternext
  dsimp only
  by_cases more : exchange.bodyRead < exchange.request.contentLength
  · rw [if_pos more, ← length_remaining]
    have takes := takes_take (Nat.le_refl exchange.remaining.length)
    refine answered_of_chunk ⟨rfl, takes, ?_, iff_of_true rfl always⟩ ?_
    · intro number same
      cases same
    · intro byLine
      cases byLine
  · rw [if_neg more]
    refine ⟨.none exchange, ?_, ?_, iff_of_true (Or.inr ?_) always⟩
    · intro number same
      cases same
    · intro byLine
      cases byLine
    · exact
        ⟨rfl, (remaining_eq_nil_iff exchange).mpr (Nat.not_lt.mp more), rfl,
          rfl⟩

theorem answered_run (exchange : Exchange) (call : Call) :
    Answered exchange call (call.run exchange) := by
  cases call with
  | read size =>
      rcases yimmoContextRead_spec exchange size with ⟨chunk, spec⟩
      refine answered_of_chunk spec ?_
      intro byLine
      cases byLine
  | readline size =>
      rcases yimmoContextReadline_spec exchange size with
        ⟨chunk, spec, line⟩
      exact answered_of_chunk spec fun _ => line
  | readlines hint =>
      have spec := yimmoContextReadlines_spec exchange hint
      refine ⟨spec.takes, ?_, fun _ => spec.lines, ?_⟩
      · intro number same
        cases same
      · refine (settled_iff spec.value).trans ?_
        exact iff_of_true spec.pending fun _ => convertible_none
  | next => exact answered_next exchange

/-- What is taken is the part of the body between the two values of `body_read`. -/
theorem Takes.taken {after : Exchange} {data : Bytes}
    (takes : Takes exchange data after)
    (inside : exchange.bodyRead ≤ exchange.request.contentLength) :
    exchange.request.body.take exchange.bodyRead ++ data =
        exchange.request.body.take after.bodyRead ∧
      after.bodyRead ≤ exchange.request.contentLength := by
  have few := takes.isPrefix.length_le
  rw [length_remaining] at few
  have first := List.prefix_iff_eq_take.mp takes.isPrefix
  constructor
  · rw [takes.bodyRead, List.take_add]
    exact congrArg _ first
  · rw [takes.bodyRead]
    omega

/-- Some calls are served just where their sizes can be converted. -/
theorem serves_iff_of_inside
    (inside : exchange.bodyRead ≤ exchange.request.contentLength)
    (calls : List Call) :
    Serves (exchange.request.body.take exchange.bodyRead) exchange calls ↔
      SizesConvertible exchange calls := by
  induction calls generalizing exchange with
  | nil => exact Iff.rfl
  | cons call later ih =>
      have answered := answered_run exchange call
      have taken := answered.takes.taken inside
      have request := answered.takes.request
      have afterInside :
          (call.run exchange).exchange.bodyRead ≤
            (call.run exchange).exchange.request.contentLength := by
        rw [request]
        exact taken.2
      have rest := ih afterInside
      rw [request] at rest
      unfold Serves SizesConvertible
      dsimp only
      rw [taken.1, rest]
      constructor
      · rintro ⟨served, _, convertible⟩
        exact ⟨answered.settled.mp served.settled, convertible⟩
      · rintro ⟨convertible, laterConvertible⟩
        exact
          ⟨⟨answered.settled.mpr convertible, answered.limited,
              answered.lines⟩,
            ⟨rfl, taken.2⟩, laterConvertible⟩

end

/-- The calls for a request are served just where no size is converted that is
negative or too large. -/
theorem serves_iff (request : Request) (calls : List Call) :
    Serves [] (ymoWsgiExchangeCreate request) calls ↔
      SizesConvertible (ymoWsgiExchangeCreate request) calls := by
  have inside :
      (ymoWsgiExchangeCreate request).bodyRead ≤
        (ymoWsgiExchangeCreate request).request.contentLength :=
    Nat.zero_le _
  exact serves_iff_of_inside inside calls

/-- A body of one byte. -/
def oneByte : Request where
  body := [0x61]
  contentLength := 1
  buffered := rfl
  fits := by decide

/-- `read(-1)` raises an exception. -/
theorem read_negative :
    ¬Serves [] (ymoWsgiExchangeCreate oneByte) [.read (some (-1))] := by
  rintro ⟨⟨settled, _, _⟩, _⟩
  rcases settled with ⟨pending, _⟩ | ⟨next, _⟩
  · cases pending
  · cases next

end Yimmo.Wsgi.Input
