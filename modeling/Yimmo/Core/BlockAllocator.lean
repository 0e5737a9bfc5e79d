import Mathlib.Algebra.GroupWithZero.Nat
import Mathlib.Data.UInt
import Yimmo.Core.Characters
import Yimmo.Lib.ByteMemory

/-!
# Block allocator

This module models `ymo_blalloc.c`: a pool that hands out blocks from its start to
its end and takes them back all at once.  Addresses are those of the machine, and
`YMO_TYPE_CEIL` is computed on them as it stands: its mask is the size of a pointer
and not one less, so that it clears a single bit.

It never rounds down, and that is all the allocator needs: a block starts at or
above `current`, and `current` moves to its end.
-/

namespace Yimmo.Core.BlockAllocator

open Yimmo.Lib.ByteMemory

/-! ## The functions -/

/-- `ymo_blalloc_t`, with the address of `val`; `total` is never set. -/
structure Blalloc where
  current : UInt64
  /-- `end`. -/
  stop : UInt64
  remain : UInt64
  val : UInt64
deriving DecidableEq

/-- `YMO_TYPE_ALIGN(t)`, since `YMO_UTIL_USE_ALIGNOF` is 0. -/
def ymoTypeAlign (_ : UInt64) : UInt64 :=
  8

/-- `YMO_TYPE_CEIL(s, p)`. -/
def ymoTypeCeil (s p : UInt64) : UInt64 :=
  (p + ymoTypeAlign s) &&& ~~~(ymoTypeAlign s)

/-- `ymo_blalloc_create`, where the memory is allocated. -/
def ymoBlallocCreate (val n : UInt64) : Blalloc where
  current := val
  stop := val + n
  remain := n
  val := val

/-- `ymo_blalloc`. -/
def ymoBlalloc (block : Blalloc) (tAlign tSize : UInt64) :
    Option UInt64 × Blalloc :=
  let objStart := ymoTypeCeil tAlign block.current
  let objEnd := objStart + tSize
  if objEnd < block.stop then
    (some objStart,
      { block with
        remain := block.remain - (objEnd - block.current)
        current := objEnd })
  else (none, block)

/-- The bytes `strcpy` stores, if there is a buffer. -/
def strcpy (memory : Memory) (s : Bytes) : Option UInt64 → Memory
  | some buffer => storeAll memory buffer.toNat (s ++ [0])
  | none => memory

/-- `ymo_blalloc_strdup` of a string without its zero. -/
def ymoBlallocStrdup (block : Blalloc) (memory : Memory) (s : Bytes) :
    Option UInt64 × Blalloc × Memory :=
  let len := UInt64.ofNat s.length
  let buffer := ymoBlalloc block 1 (len + 1)
  (buffer.1, buffer.2, strcpy memory s buffer.1)

/-- `ymo_blalloc_reset`. -/
def ymoBlallocReset (block : Blalloc) : Blalloc where
  current := block.val
  stop := block.stop
  remain := block.stop - block.val
  val := block.val

/-! ## Rounding -/

/-- The address the macro yields: the next one whose bit is clear. -/
def typeCeil (p : Nat) : Nat :=
  p + p / 8 % 2 * 8

theorem le_typeCeil (p : Nat) : p ≤ typeCeil p :=
  Nat.le_add_right ..

/-- The mask clears one bit. -/
theorem toNat_clearBit (p : UInt64) :
    (p &&& ~~~8).toNat = p.toNat - p.toNat / 8 % 2 * 8 := by
  rw [UInt64.toNat_and,
    show (~~~8 : UInt64).toNat = 2 ^ 4 * (2 ^ 60 - 1) + 7 from rfl]
  have split :
      p.toNat - p.toNat / 8 % 2 * 8 =
        2 ^ 4 * (p.toNat / 2 ^ 4) + p.toNat % 2 ^ 3 := by
    omega
  have whole : p.toNat = 2 ^ 4 * (p.toNat / 2 ^ 4) + p.toNat % 2 ^ 4 := by
    omega
  rw [split]
  apply Nat.eq_of_testBit_eq
  intro bit
  rw [Nat.testBit_and, Nat.testBit_two_pow_mul_add _ (by decide),
    Nat.testBit_two_pow_mul_add _ (by omega)]
  by_cases low : bit < 4
  · rw [if_pos low, if_pos low, Nat.testBit_mod_two_pow,
      show 7 = 2 ^ 3 - 1 from rfl, Nat.testBit_two_pow_sub_one,
      Bool.and_comm]
  · have bits : (p.toNat / 2 ^ 4).testBit (bit - 4) = p.toNat.testBit bit := by
      rw [Nat.testBit_div_two_pow]
      congr 1
      omega
    rw [if_neg low, if_neg low, bits, Nat.testBit_two_pow_sub_one]
    by_cases inside : bit - 4 < 60
    · simp [inside]
    · have above : p.toNat < 2 ^ bit :=
        Nat.lt_of_lt_of_le p.toNat_lt
          (Nat.pow_le_pow_right (by decide) (by omega))
      rw [Nat.testBit_lt_two_pow above]
      rfl

/-- The macro yields that address, if there is one. -/
theorem toNat_ymoTypeCeil (s : UInt64) {p : UInt64}
    (fits : typeCeil p.toNat < 2 ^ 64) :
    (ymoTypeCeil s p).toNat = typeCeil p.toNat := by
  have less := p.toNat_lt
  unfold typeCeil at fits ⊢
  rw [ymoTypeCeil, ymoTypeAlign, toNat_clearBit, UInt64.toNat_add,
    show (8 : UInt64).toNat = 8 from rfl]
  omega

/-! ## One allocation -/

section

variable {block : Blalloc} {tAlign tSize : UInt64}

/-- NULL is returned without a change. -/
theorem ymoBlalloc_null (null : (ymoBlalloc block tAlign tSize).1 = none) :
    (ymoBlalloc block tAlign tSize).2 = block := by
  unfold ymoBlalloc at null ⊢
  dsimp only at null ⊢
  split at null
  · nomatch null
  · next full => rw [if_neg full]

/-- The block lies between `current` and the end of the pool, and `current` moves to
the end of the block. -/
theorem ymoBlalloc_block
    (fits : typeCeil block.current.toNat + tSize.toNat < 2 ^ 64)
    {objStart : UInt64}
    (given : (ymoBlalloc block tAlign tSize).1 = some objStart) :
    let later := (ymoBlalloc block tAlign tSize).2
    objStart.toNat = typeCeil block.current.toNat ∧
      later.current.toNat = objStart.toNat + tSize.toNat ∧
        later.current.toNat < block.stop.toNat ∧
          later.remain =
            block.remain - (later.current - block.current) ∧
            later.stop = block.stop ∧ later.val = block.val := by
  have start : (ymoTypeCeil tAlign block.current).toNat =
      typeCeil block.current.toNat :=
    toNat_ymoTypeCeil tAlign (by omega)
  have objEnd :
      (ymoTypeCeil tAlign block.current + tSize).toNat =
        typeCeil block.current.toNat + tSize.toNat := by
    rw [UInt64.toNat_add, start, Nat.mod_eq_of_lt fits]
  unfold ymoBlalloc at given ⊢
  dsimp only at given ⊢
  split at given
  · next room =>
    rw [if_pos room, ← Option.some.inj given]
    refine ⟨start, ?_, UInt64.lt_iff_toNat_lt.mp room, rfl, rfl, rfl⟩
    rw [objEnd, start]
  · nomatch given

end

/-! ## Runs -/

/-- A block that was handed out. -/
structure Span where
  start : Nat
  size : Nat
deriving DecidableEq

/-- The blocks have no byte in common. -/
def Span.Disjoint (span other : Span) : Prop :=
  span.start + span.size ≤ other.start ∨ other.start + other.size ≤ span.start

/-- A call of one of the functions. -/
inductive Call where
  | blalloc (tAlign tSize : UInt64)
  | strdup (s : Bytes)
  | reset

/-- The pool, the memory, and the blocks handed out since the last reset. -/
structure Arena where
  block : Blalloc
  memory : Memory
  spans : List Span

/-- The block that was returned, among the others. -/
def handedOut (spans : List Span) (size : Nat) :
    Option UInt64 → List Span
  | some objStart => ⟨objStart.toNat, size⟩ :: spans
  | none => spans

/-- What a call returns, and the arena after it; a reset returns nothing. -/
def call (arena : Arena) : Call → Option (Option UInt64) × Arena
  | .blalloc tAlign tSize =>
      let result := ymoBlalloc arena.block tAlign tSize
      (some result.1,
        { block := result.2
          memory := arena.memory
          spans := handedOut arena.spans tSize.toNat result.1 })
  | .strdup s =>
      let result := ymoBlallocStrdup arena.block arena.memory s
      (some result.1,
        { block := result.2.1
          memory := result.2.2
          spans := handedOut arena.spans (s.length + 1) result.1 })
  | .reset =>
      (none,
        { block := ymoBlallocReset arena.block
          memory := arena.memory
          spans := [] })

/-- The arena after some calls. -/
def calls (arena : Arena) : List Call → Arena
  | [] => arena
  | first :: rest => calls (call arena first).2 rest

/-- The size of the block that is asked for. -/
def Call.size : Call → Nat
  | .blalloc _ tSize => tSize.toNat
  | .strdup s => s.length + 1
  | .reset => 0

/-- The end pointer of the call does not overflow. -/
def Representable (arena : Arena) (first : Call) : Prop :=
  typeCeil arena.block.current.toNat + first.size < 2 ^ 64

instance decidableRepresentable
    (arena : Arena)
    (first : Call) :
    Decidable (Representable arena first) := by
  unfold Representable
  infer_instance

/-- No end pointer does. -/
def AllRepresentable (arena : Arena) : List Call → Prop
  | [] => True
  | first :: rest =>
      (first = .reset ∨ Representable arena first) ∧
        AllRepresentable (call arena first).2 rest

/-- The pool that was created, and nothing handed out. -/
def created (val n : UInt64) (memory : Memory) : Arena where
  block := ymoBlallocCreate val n
  memory := memory
  spans := []

/-- The blocks are in the pool below `current`, and have no byte in common. -/
structure Isolated (val stop : UInt64) (arena : Arena) : Prop where
  sameVal : arena.block.val = val
  sameStop : arena.block.stop = stop
  reached : val.toNat ≤ arena.block.current.toNat
  inside :
    ∀ span ∈ arena.spans,
      val.toNat ≤ span.start ∧
        span.start + span.size ≤ arena.block.current.toNat ∧
          span.start + span.size ≤ stop.toNat
  disjoint : arena.spans.Pairwise Span.Disjoint
  remain : arena.block.remain = arena.block.stop - arena.block.current

section

variable {val stop : UInt64} {arena : Arena}

theorem isolated_created (val n : UInt64) (memory : Memory) :
    Isolated val (val + n) (created val n memory) where
  sameVal := rfl
  sameStop := rfl
  reached := Nat.le_refl _
  inside := fun _ member => nomatch member
  disjoint := .nil
  remain := by
    show n = val + n - val
    rw [UInt64.add_comm, UInt64.add_sub_cancel]

theorem isolated_reset (isolated : Isolated val stop arena) :
    Isolated val stop (call arena .reset).2 where
  sameVal := isolated.sameVal
  sameStop := isolated.sameStop
  reached := Nat.le_of_eq (congrArg UInt64.toNat isolated.sameVal.symm)
  inside := fun _ member => nomatch member
  disjoint := .nil
  remain := rfl

theorem sub_sub_sub_cancel (stop later current : UInt64) :
    stop - current - (later - current) = stop - later := by
  apply UInt64.toNat_inj.mp
  have stopLess := stop.toNat_lt
  have laterLess := later.toNat_lt
  have currentLess := current.toNat_lt
  simp only [UInt64.toNat_sub]
  omega

/-- An allocation keeps the blocks apart, whatever is stored in the memory. -/
theorem isolated_blalloc (isolated : Isolated val stop arena) (tAlign : UInt64)
    {tSize : UInt64}
    (fits : typeCeil arena.block.current.toNat + tSize.toNat < 2 ^ 64)
    (memory : Memory) :
    Isolated val stop
      { block := (ymoBlalloc arena.block tAlign tSize).2
        memory := memory
        spans :=
          handedOut arena.spans tSize.toNat
            (ymoBlalloc arena.block tAlign tSize).1 } := by
  cases given : (ymoBlalloc arena.block tAlign tSize).1 with
  | none =>
      rw [ymoBlalloc_null given]
      exact { isolated with }
  | some objStart =>
      rcases ymoBlalloc_block fits given
        with ⟨start, current, below, remain, sameStop, sameVal⟩
      have above := le_typeCeil arena.block.current.toNat
      have reached := isolated.reached
      rw [isolated.sameStop] at below
      constructor
      · exact sameVal.trans isolated.sameVal
      · exact sameStop.trans isolated.sameStop
      · dsimp only
        omega
      · intro span member
        rcases List.mem_cons.mp member with rfl | before
        · dsimp only
          omega
        · have old := isolated.inside span before
          dsimp only
          omega
      · refine List.pairwise_cons.mpr ⟨?_, isolated.disjoint⟩
        intro other before
        have old := isolated.inside other before
        right
        dsimp only
        omega
      · dsimp only
        rw [remain, sameStop, isolated.remain, sub_sub_sub_cancel]

/-- One call keeps the blocks apart. -/
theorem isolated_call (isolated : Isolated val stop arena) {first : Call}
    (fits : first = .reset ∨ Representable arena first) :
    Isolated val stop (call arena first).2 := by
  cases first with
  | blalloc tAlign tSize =>
      have representable := fits.resolve_left Call.noConfusion
      exact isolated_blalloc isolated tAlign representable arena.memory
  | strdup s =>
      have representable := fits.resolve_left Call.noConfusion
      have size : (UInt64.ofNat s.length + 1).toNat = s.length + 1 := by
        have less : s.length + 1 < 2 ^ 64 :=
          Nat.lt_of_le_of_lt (Nat.le_add_left ..) representable
        rw [UInt64.toNat_add, UInt64.toNat_ofNat',
          show (1 : UInt64).toNat = 1 from rfl]
        omega
      have fitting :
          typeCeil arena.block.current.toNat +
              (UInt64.ofNat s.length + 1).toNat < 2 ^ 64 := by
        rw [size]
        exact representable
      have given :=
        isolated_blalloc isolated 1 fitting
          (strcpy arena.memory s
            (ymoBlalloc arena.block 1 (UInt64.ofNat s.length + 1)).1)
      rw [size] at given
      exact given
  | reset => exact isolated_reset isolated

/-- All calls keep the blocks apart. -/
theorem isolated_calls (isolated : Isolated val stop arena)
    {sequence : List Call}
    (fits : AllRepresentable arena sequence) :
    Isolated val stop (calls arena sequence) := by
  induction sequence generalizing arena with
  | nil => exact isolated
  | cons first rest ih => exact ih (isolated_call isolated fits.1) fits.2

/-- A call that returns NULL leaves the pool as it is. -/
theorem call_null {first : Call} (null : (call arena first).1 = some none) :
    (call arena first).2.block = arena.block := by
  cases first with
  | blalloc tAlign tSize => exact ymoBlalloc_null (Option.some.inj null)
  | strdup s => exact ymoBlalloc_null (Option.some.inj null)
  | reset => nomatch null

end

/-- Whatever the calls are, the blocks handed out since the last reset are inside
the pool and apart from each other, `remain` is what is left of the pool, and a call
that returns NULL changes nothing. -/
theorem arena_isolated (val n : UInt64) (memory : Memory)
    (sequence : List Call)
    (fits : AllRepresentable (created val n memory) sequence) :
    let arena := calls (created val n memory) sequence
    (∀ span ∈ arena.spans,
        val.toNat ≤ span.start ∧ span.start + span.size ≤ (val + n).toNat) ∧
      arena.spans.Pairwise Span.Disjoint ∧
        arena.block.remain = arena.block.stop - arena.block.current ∧
          ∀ first,
            (call arena first).1 = some none →
              (call arena first).2.block.current = arena.block.current ∧
                (call arena first).2.block.remain = arena.block.remain := by
  have isolated := isolated_calls (isolated_created val n memory) fits
  refine ⟨?_, isolated.disjoint, isolated.remain, ?_⟩
  · intro span member
    have place := isolated.inside span member
    exact ⟨place.1, place.2.2⟩
  · intro first null
    have same := call_null null
    exact ⟨congrArg Blalloc.current same, congrArg Blalloc.remain same⟩

theorem arena_of_three_calls :
    let sequence := [.blalloc 4 10, .strdup [0x61], .blalloc 8 100]
    let arena := calls (created 4096 64 fun _ => 0) sequence
    arena.spans = [⟨4114, 2⟩, ⟨4096, 10⟩] ∧
      arena.spans.Pairwise Span.Disjoint ∧
        arena.block.remain = arena.block.stop - arena.block.current := by
  have isolated :=
    arena_isolated 4096 64 (fun _ => 0)
      [.blalloc 4 10, .strdup [0x61], .blalloc 8 100]
      ⟨Or.inr (by decide), Or.inr (by decide), Or.inr (by decide), trivial⟩
  exact ⟨by decide, isolated.2.1, isolated.2.2.1⟩

end Yimmo.Core.BlockAllocator
