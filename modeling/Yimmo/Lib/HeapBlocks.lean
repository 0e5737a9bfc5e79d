import Mathlib.Data.List.Basic

/-!
# Blocks of a heap

A heap is the list of the blocks that were ever allocated; a block is known by its
place in the list, so a block that is freed is never taken for a later one.  A cell
that was not written holds nothing.

Reading a string succeeds when the block was not freed and the bytes up to a zero
were written.  Whatever reads further than that, reads a block that was freed, or
frees it again, has no result.
-/

namespace Yimmo.Lib.HeapBlocks

variable
    {block : Nat}
    {text : List UInt8}

/-- A block of memory. -/
structure Block where
  cells : List (Option UInt8)
  freed : Bool
deriving DecidableEq

/-- The blocks that were allocated. -/
abbrev Heap : Type :=
  List Block

/-- The block is in use and holds the cells. -/
def Live (heap : Heap) (block : Nat) (cells : List (Option UInt8)) : Prop :=
  heap[block]? = some { cells := cells, freed := false }

/-- A new block whose cells are not written. -/
def malloc (heap : Heap) (size : Nat) : Heap × Nat :=
  (heap ++ [{ cells := List.replicate size none, freed := false }],
    heap.length)

/-- The block is given back. -/
def free (heap : Heap) (block : Nat) : Option Heap :=
  match heap[block]? with
  | some found =>
      if found.freed then none
      else some (heap.set block { found with freed := true })
  | none => none

/-- Cells with bytes written to them from an offset on. -/
def put (cells : List (Option UInt8)) (offset : Nat) (data : List UInt8) :
    List (Option UInt8) :=
  cells.take offset ++ data.map some ++ cells.drop (offset + data.length)

/-- Bytes are written to a block from an offset on. -/
def write (heap : Heap) (block offset : Nat) (data : List UInt8) : Heap :=
  heap.modify block fun found =>
    { found with cells := put found.cells offset data }

/-- A block of another size with the cells of this one, which is given back. -/
def realloc (heap : Heap) (block size : Nat) : Option (Heap × Nat) :=
  match heap[block]? with
  | some found =>
      match free heap block with
      | some later =>
          some
            (later ++
                [{ cells :=
                    found.cells.take size ++
                      List.replicate (size - found.cells.length) none
                   freed := false }],
              later.length)
      | none => none
  | none => none

/-- The bytes before the first zero, if they and the zero were written. -/
def stringIn : List (Option UInt8) → Option (List UInt8)
  | [] => none
  | none :: _ => none
  | some c :: rest => if c = 0 then some [] else (stringIn rest).map (c :: ·)

/-- The string that starts a block. -/
def readString (heap : Heap) (block : Nat) : Option (List UInt8) :=
  match heap[block]? with
  | some found => if found.freed then none else stringIn found.cells
  | none => none

/-! ## Strings -/

theorem stringIn_append (noZero : ∀ c ∈ text, c ≠ 0)
    (rest : List (Option UInt8)) :
    stringIn (text.map some ++ rest) = (stringIn rest).map (text ++ ·) := by
  induction text with
  | nil =>
      show stringIn rest = (stringIn rest).map fun later => later
      rw [Option.map_id_fun']
      rfl
  | cons c text ih =>
      have here := noZero c List.mem_cons_self
      have later := ih fun d inside => noZero d (List.mem_cons_of_mem c inside)
      rw [List.map_cons, List.cons_append, stringIn, if_neg here, later,
        Option.map_map]
      rfl

/-- Bytes and a zero are a string. -/
theorem stringIn_terminated (noZero : ∀ c ∈ text, c ≠ 0)
    (rest : List (Option UInt8)) :
    stringIn (text.map some ++ some 0 :: rest) = some text := by
  rw [stringIn_append noZero, stringIn, if_pos rfl, Option.map_some,
    List.append_nil]

/-- Bytes that are followed by a cell that was not written are none. -/
theorem stringIn_unwritten (noZero : ∀ c ∈ text, c ≠ 0)
    (rest : List (Option UInt8)) :
    stringIn (text.map some ++ none :: rest) = none := by
  rw [stringIn_append noZero, stringIn]
  rfl

variable {heap : Heap}

theorem Live.readString {cells : List (Option UInt8)}
    (live : Live heap block cells) :
    readString heap block = stringIn cells := by
  rw [HeapBlocks.readString, live]
  rfl

/-! ## Operations -/

theorem Live.lt {cells : List (Option UInt8)} (live : Live heap block cells) :
    block < heap.length := by
  rcases Nat.lt_or_ge block heap.length with less | most
  · exact less
  · rw [Live, List.getElem?_eq_none most] at live
    cases live

/-- A block stays as it is when another is appended. -/
theorem Live.append {cells : List (Option UInt8)}
    (live : Live heap block cells)
    (more : Heap) :
    Live (heap ++ more) block cells := by
  rw [Live, List.getElem?_append_left live.lt]
  exact live

theorem live_malloc (heap : Heap) (size : Nat) :
    Live (malloc heap size).1 (malloc heap size).2
      (List.replicate size none) := by
  rw [Live, malloc]
  dsimp only
  rw [List.getElem?_append_right (Nat.le_refl _), Nat.sub_self]
  rfl

theorem Live.write {cells : List (Option UInt8)} (live : Live heap block cells)
    (offset : Nat)
    (data : List UInt8) :
    Live (write heap block offset data) block (put cells offset data) := by
  rw [Live] at live
  rw [Live, HeapBlocks.write, List.getElem?_modify_eq, live]
  rfl

theorem Live.write_other {block other : Nat} {cells : List (Option UInt8)}
    (live : Live heap other cells)
    (different : other ≠ block)
    (offset : Nat)
    (data : List UInt8) :
    Live (HeapBlocks.write heap block offset data) other cells := by
  rw [Live] at live
  rw [Live, HeapBlocks.write, List.getElem?_modify_ne _ _ different.symm, live]

/-- A block in use can be given back; the others stay, and it can be read no
more. -/
theorem Live.free {cells : List (Option UInt8)}
    (live : Live heap block cells) :
    ∃ later,
      HeapBlocks.free heap block = some later ∧
        later.length = heap.length ∧
          HeapBlocks.readString later block = none ∧
            ∀ other kept,
              other ≠ block → Live heap other kept →
                Live later other kept := by
  have within := live.lt
  rw [Live] at live
  refine ⟨heap.set block { cells := cells, freed := true }, ?_, ?_, ?_, ?_⟩
  · rw [HeapBlocks.free, live]
    rfl
  · exact List.length_set
  · rw [HeapBlocks.readString, List.getElem?_set_self within]
    rfl
  · intro other kept different old
    rw [Live] at old
    rw [Live, List.getElem?_set_ne different.symm, old]

theorem Live.realloc {cells : List (Option UInt8)}
    (live : Live heap block cells)
    (size : Nat) :
    ∃ later fresh,
      HeapBlocks.realloc heap block size = some (later, fresh) ∧
        Live later fresh
          (cells.take size ++ List.replicate (size - cells.length) none) := by
  rcases live.free with ⟨later, frees, -⟩
  rw [Live] at live
  refine
    ⟨later ++
        [{ cells :=
            cells.take size ++ List.replicate (size - cells.length) none
           freed := false }],
      later.length, ?_, ?_⟩
  · rw [HeapBlocks.realloc, live, frees]
  · rw [Live, List.getElem?_append_right (Nat.le_refl _), Nat.sub_self]
    rfl

end Yimmo.Lib.HeapBlocks
