import Yimmo.Core.BlockAllocator

/-!
# Alignment of the blocks of a pool

`YMO_TYPE_CEIL` is to round an address up to an alignment, but it adds the size of a
pointer and clears one bit.  So it adds 8 or nothing, and the residue of an address
modulo 8 is the same before and after it.

What a block begins with is then decided by the sizes of those before it: in a pool
that begins at a multiple of 8 a block is aligned just where the alignment divides
the number of bytes handed out so far (`aligned_iff`).
-/

namespace Yimmo.Core.BlockAlignment

open Yimmo.Core.BlockAllocator
open Yimmo.Lib.ByteMemory

/-! ## What is asked for -/

/-- The alignment that a call asks for; strings are characters. -/
def alignment : Call → Nat
  | .blalloc tAlign _ => tAlign.toNat
  | .strdup _ => 1
  | .reset => 1

/-- A power of two that is not above the size of a pointer. -/
def Requestable (first : Call) : Prop :=
  ∃ exponent ≤ 3, alignment first = 2 ^ exponent

/-- The block that a call returns is aligned. -/
def Aligned (arena : Arena) (first : Call) : Prop :=
  ∀ objStart,
    (call arena first).1 = some (some objStart) →
      alignment first ∣ objStart.toNat

/-- So are those of all calls. -/
def AllAligned (arena : Arena) : List Call → Prop
  | [] => True
  | first :: rest => Aligned arena first ∧ AllAligned (call arena first).2 rest

/-- The number of bytes handed out since the last reset. -/
def handedBytes (arena : Arena) : Nat :=
  (arena.spans.map Span.size).sum

/-- There is room for what is asked for. -/
def Room (block : Blalloc) (tAlign tSize : UInt64) : Prop :=
  ymoTypeCeil tAlign block.current + tSize < block.stop

/-- If there is room, the alignment divides the number of bytes handed out. -/
def Divides (arena : Arena) : Call → Prop
  | .blalloc tAlign tSize =>
      Room arena.block tAlign tSize → tAlign.toNat ∣ handedBytes arena
  | .strdup _ => True
  | .reset => True

/-- So it is before each call. -/
def AllDivide (arena : Arena) : List Call → Prop
  | [] => True
  | first :: rest => Divides arena first ∧ AllDivide (call arena first).2 rest

/-! ## Residues -/

/-- The macro keeps the residue, also where the sum overflows. -/
theorem ymoTypeCeil_mod (s p : UInt64) :
    (ymoTypeCeil s p).toNat % 8 = p.toNat % 8 := by
  rw [ymoTypeCeil, ymoTypeAlign, toNat_clearBit, UInt64.toNat_add,
    show (8 : UInt64).toNat = 8 from rfl]
  omega

/-- The pool begins at a multiple of 8, and `current` has the residue of the number
of bytes handed out. -/
structure Residue (arena : Arena) : Prop where
  start : arena.block.val.toNat % 8 = 0
  current : arena.block.current.toNat % 8 = handedBytes arena % 8

section

variable {arena : Arena}

theorem residue_created {val : UInt64} (start : val.toNat % 8 = 0) (n : UInt64)
    (memory : Memory) :
    Residue (created val n memory) :=
  ⟨start, start⟩

/-- The block of an allocation, where there is room. -/
theorem ymoBlalloc_room {block : Blalloc} {tAlign tSize : UInt64}
    (room : Room block tAlign tSize) :
    ymoBlalloc block tAlign tSize =
      (some (ymoTypeCeil tAlign block.current),
        { block with
          remain :=
            block.remain -
              (ymoTypeCeil tAlign block.current + tSize - block.current)
          current := ymoTypeCeil tAlign block.current + tSize }) :=
  if_pos room

theorem ymoBlalloc_full {block : Blalloc} {tAlign tSize : UInt64}
    (full : ¬Room block tAlign tSize) :
    ymoBlalloc block tAlign tSize = (none, block) :=
  if_neg full

/-- An allocation keeps the residues, if the size is the one that is noted. -/
theorem residue_blalloc (residue : Residue arena) (tAlign tSize : UInt64)
    {size : Nat}
    (same : tSize.toNat % 8 = size % 8)
    (memory : Memory) :
    Residue
      { block := (ymoBlalloc arena.block tAlign tSize).2
        memory := memory
        spans :=
          handedOut arena.spans size
            (ymoBlalloc arena.block tAlign tSize).1 } := by
  by_cases room : Room arena.block tAlign tSize
  · rw [ymoBlalloc_room room]
    refine ⟨residue.start, ?_⟩
    have before := residue.current
    have start := ymoTypeCeil_mod tAlign arena.block.current
    show
      (ymoTypeCeil tAlign arena.block.current + tSize).toNat % 8 =
        (size + handedBytes arena) % 8
    rw [UInt64.toNat_add]
    omega
  · rw [ymoBlalloc_full room]
    exact ⟨residue.start, residue.current⟩

/-- Each call keeps the residues. -/
theorem residue_call (residue : Residue arena) (first : Call) :
    Residue (call arena first).2 := by
  cases first with
  | blalloc tAlign tSize =>
      exact residue_blalloc residue tAlign tSize rfl arena.memory
  | strdup s =>
      refine residue_blalloc residue 1 (UInt64.ofNat s.length + 1) ?_ _
      rw [UInt64.toNat_add, UInt64.toNat_ofNat',
        show (1 : UInt64).toNat = 1 from rfl]
      omega
  | reset => exact ⟨residue.start, residue.start⟩

/-- A divisor of 8 divides what has the same residue. -/
theorem dvd_iff_of_mod {divisor number other : Nat} (divides : divisor ∣ 8)
    (same : number % 8 = other % 8) :
    divisor ∣ number ↔ divisor ∣ other := by
  rw [← Nat.dvd_mod_iff divides, same, Nat.dvd_mod_iff divides]

/-- A block is aligned just where its alignment divides the number of bytes handed
out before it. -/
theorem call_aligned_iff (residue : Residue arena) {first : Call}
    (requestable : Requestable first) :
    Aligned arena first ↔ Divides arena first := by
  cases first with
  | blalloc tAlign tSize =>
      rcases requestable with ⟨exponent, le, power⟩
      have divides : tAlign.toNat ∣ 8 := by
        rw [show tAlign.toNat = 2 ^ exponent from power]
        exact Nat.pow_dvd_pow 2 le
      have same :
          (ymoTypeCeil tAlign arena.block.current).toNat % 8 =
            handedBytes arena % 8 :=
        (ymoTypeCeil_mod tAlign _).trans residue.current
      rw [Divides, ← dvd_iff_of_mod divides same, Aligned]
      by_cases room : Room arena.block tAlign tSize
      · have given :
            (call arena (.blalloc tAlign tSize)).1 =
              some (some (ymoTypeCeil tAlign arena.block.current)) := by
          rw [call, ymoBlalloc_room room]
        rw [given]
        constructor
        · intro aligned _
          exact aligned _ rfl
        · rintro aligned _ ⟨⟩
          exact aligned room
      · have null : (call arena (.blalloc tAlign tSize)).1 = some none := by
          rw [call, ymoBlalloc_full room]
        rw [null]
        refine iff_of_true ?_ fun enough => absurd enough room
        rintro _ ⟨⟩
  | strdup s => exact iff_of_true (fun objStart _ => Nat.one_dvd _) trivial
  | reset => exact iff_of_true (fun objStart _ => Nat.one_dvd _) trivial

end

/-! ## Every sequence of calls -/

theorem allAligned_of_residue {arena : Arena} (residue : Residue arena)
    {sequence : List Call}
    (requestable : ∀ first ∈ sequence, Requestable first) :
    AllAligned arena sequence ↔ AllDivide arena sequence := by
  induction sequence generalizing arena with
  | nil => exact Iff.rfl
  | cons first rest ih =>
      rw [List.forall_mem_cons] at requestable
      exact and_congr (call_aligned_iff residue requestable.1)
        (ih (residue_call residue first) requestable.2)

/-- In a pool that begins at a multiple of 8 all blocks are aligned just where each
alignment that is asked for divides the number of bytes handed out before. -/
theorem aligned_iff {val : UInt64} (start : val.toNat % 8 = 0) (n : UInt64)
    (memory : Memory)
    {sequence : List Call}
    (requestable : ∀ first ∈ sequence, Requestable first) :
    AllAligned (created val n memory) sequence ↔
      AllDivide (created val n memory) sequence :=
  allAligned_of_residue (residue_created start n memory) requestable

/-- A block of 12 bytes, one that is aligned to 4, and a string. -/
def wordCalls : List Call :=
  [.blalloc 4 12, .blalloc 4 6, .strdup [0x61]]

theorem requestable_wordCalls : ∀ first ∈ wordCalls, Requestable first := by
  rw [wordCalls, List.forall_mem_cons, List.forall_mem_cons,
    List.forall_mem_singleton]
  exact ⟨⟨2, by decide, rfl⟩, ⟨2, by decide, rfl⟩, ⟨0, by decide, rfl⟩⟩

theorem aligned_wordCalls :
    AllAligned (created 4096 64 fun _ => 0) wordCalls := by
  rw [aligned_iff (by decide) 64 (fun _ => 0) requestable_wordCalls]
  exact ⟨fun _ => by decide, fun _ => by decide, trivial, trivial⟩

/-- Behind a block of 10 bytes one that is to be aligned to 4 begins at 4114. -/
theorem tenBytes_unaligned :
    ¬AllAligned (created 4096 64 fun _ => 0)
      [.blalloc 1 10, .blalloc 4 4] := by
  rintro ⟨_, aligned, _⟩
  exact absurd (aligned 4114 (by decide)) (by decide)

end Yimmo.Core.BlockAlignment
