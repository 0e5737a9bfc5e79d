import Mathlib.Data.List.GetD
import Mathlib.Data.UInt
import Yimmo.Lib.ByteMemory
import Yimmo.Lib.Digits
import Yimmo.Core.Characters

/-!
# Case conversion

This module models `ymo_ntolower` and `ymo_ntoupper` for strides of eight bytes,
the lowest byte first.  Bytes are converted one at a time up to an address that is
aligned, then eight at a time, and then one at a time again.  The memory is indexed
by address, and every byte that is read or written is recorded.

Eight bytes are subtracted from `L_LOW_S` and `L_HIGH_S` at once, so that a byte
may borrow from the next one, and the bytes in front of the aligned address are not
taken from the number of strides.  `nconverts_iff` says when the string is converted
nevertheless, and nothing else is touched.
-/

namespace Yimmo.Core.CaseConversion

open Yimmo.Core.Characters
open Yimmo.Lib.ByteMemory
open Yimmo.Lib.Digits

variable {index : Nat}

/-! ## The functions -/

/-- The values before the first letter and of the last one, for a byte and for
each byte of a stride. -/
structure CaseRange where
  low : UInt8
  high : UInt8
  lowS : UInt64
  highS : UInt64

/-- `L_LOW`, `L_HIGH`, `L_LOW_S` and `L_HIGH_S`. -/
def tolowerRange : CaseRange where
  low := 0x40
  high := 0x5a
  lowS := 0x4040404040404040
  highS := 0x5a5a5a5a5a5a5a5a

/-- `U_LOW`, `U_HIGH`, `U_LOW_S` and `U_HIGH_S`. -/
def toupperRange : CaseRange where
  low := 0x60
  high := 0x7a
  lowS := 0x6060606060606060
  highS := 0x7a7a7a7a7a7a7a7a

/-- `CASE_MASK`. -/
def caseMask : UInt8 :=
  0x20

/-- `CASE_MASK_S`. -/
def caseMaskS : UInt64 :=
  0x2020202020202020

/-- What `FAST_CHAR_TOLOWER` or `FAST_CHAR_TOUPPER` makes of a byte; what it computes
on `int` depends on the low byte only. -/
def convertChar (range : CaseRange) (c : UInt8) : UInt8 :=
  c ^^^ ((((range.low - c) ^^^ (range.high - c)) >>> 2) &&& caseMask)

/-- What the loop makes of a stride. -/
def convertStride (range : CaseRange) (c : UInt64) : UInt64 :=
  c ^^^ ((((range.lowS - c) ^^^ (range.highS - c)) >>> 2) &&& caseMaskS)

/-- The memory, the pointers, and the addresses that were read and written. -/
structure Conversion where
  memory : Memory
  dst : Nat
  src : Nat
  reads : List Nat
  writes : List Nat

/-- `FAST_CHAR_TOLOWER(dst, src)` or `FAST_CHAR_TOUPPER(dst, src)`. -/
def fastChar (range : CaseRange) (state : Conversion) : Conversion where
  memory :=
    store state.memory state.dst (convertChar range (state.memory state.src))
  dst := state.dst + 1
  src := state.src + 1
  reads := state.src :: state.reads
  writes := state.dst :: state.writes

/-- The stride that some bytes make. -/
def strideOf (bytes : Bytes) : UInt64 :=
  UInt64.ofNat (Nat.ofDigits (2 ^ 8) (bytes.map UInt8.toNat))

/-- The bytes of a stride. -/
def bytesOf (stride : UInt64) : Bytes :=
  (List.range 8).map fun lane => UInt8.ofNat (stride.toNat >>> (8 * lane))

/-- One turn of the loop. -/
def fastStride (range : CaseRange) (state : Conversion) : Conversion where
  memory :=
    storeAll state.memory state.dst
      (bytesOf
        (convertStride range (strideOf (bytesAt state.memory state.src 8))))
  dst := state.dst + 8
  src := state.src + 8
  reads := List.range' state.src 8 ++ state.reads
  writes := List.range' state.dst 8 ++ state.writes

/-- The cases that one falls through, and no case above the seventh. -/
def switchChars (range : CaseRange) (count : UInt64) (state : Conversion) :
    Conversion :=
  if count ≤ 7 then (fastChar range)^[count.toNat] state else state

/-- `STRIDE_CEIL(p)`. -/
def strideCeil (p : UInt64) : UInt64 :=
  (p + 7) &&& ~~~7

/-- `ymo_ntolower` or `ymo_ntoupper`. -/
def nconvert (range : CaseRange) (memory : Memory) (dst src len : Nat) :
    Conversion :=
  let noIter := len / 8
  let align := strideCeil (UInt64.ofNat src) - UInt64.ofNat src
  let remain := UInt64.ofNat (len % 8) - align
  switchChars range remain
    ((fastStride range)^[noIter]
      (switchChars range align ⟨memory, dst, src, [], []⟩))

def ymoNtolower : Memory → Nat → Nat → Nat → Conversion :=
  nconvert tolowerRange

def ymoNtoupper : Memory → Nat → Nat → Nat → Conversion :=
  nconvert toupperRange

/-! ## What is to be converted -/

/-- The string is converted, and no byte behind it is read or written. -/
structure Converts
    (letterCase : UInt8 → UInt8)
    (memory : Memory)
    (dst src len : Nat)
    (result : Conversion) : Prop where
  converted :
    ∀ index < len,
      result.memory (dst + index) = letterCase (memory (src + index))
  reads : ∀ address ∈ result.reads, ∃ index < len, address = src + index
  writes : ∀ address ∈ result.writes, ∃ index < len, address = dst + index

/-! ## Lanes -/

/-- What becomes of a byte when its lane has lent these to the one before. -/
def convertLane (range : CaseRange) (lentLow lentHigh : Nat) (c : UInt8) :
    UInt8 :=
  let low := digitOf (2 ^ 8) range.low.toNat c.toNat lentLow
  let high := digitOf (2 ^ 8) range.high.toNat c.toNat lentHigh
  c ^^^ (if low.testBit 7 ^^ high.testBit 7 then caseMask else 0)

/-- The lanes of a stride, the lowest first. -/
def convertLanes (range : CaseRange) :
    Nat → Nat → Bytes → Bytes
  | _, _, [] => []
  | lentLow, lentHigh, c :: rest =>
      convertLane range lentLow lentHigh c ::
        convertLanes range
          (borrowOf range.low.toNat c.toNat lentLow)
          (borrowOf range.high.toNat c.toNat lentHigh) rest

/-- The digits that are subtracted in each lane. -/
def subtracted (value : UInt8) (bytes : Bytes) : List (Nat × Nat) :=
  bytes.map fun c => (value.toNat, c.toNat)

section

variable (range : CaseRange) (bytes : Bytes)

theorem length_convertLanes (lentLow lentHigh : Nat) :
    (convertLanes range lentLow lentHigh bytes).length = bytes.length := by
  induction bytes generalizing lentLow lentHigh with
  | nil => rfl
  | cons c rest ih => rw [convertLanes, List.length_cons, List.length_cons, ih]

/-- A lane is converted by the highest bits of the digits. -/
theorem getD_convertLanes (lentLow lentHigh lane : Nat) :
    (convertLanes range lentLow lentHigh bytes).getD lane 0 =
      bytes.getD lane 0 ^^^
        (if
          ((difference (2 ^ 8) lentLow
              (subtracted range.low bytes)).1.getD lane 0).testBit 7 ^^
            ((difference (2 ^ 8) lentHigh
              (subtracted range.high bytes)).1.getD lane 0).testBit 7
        then caseMask
        else 0) := by
  induction bytes generalizing lentLow lentHigh lane with
  | nil => simp [convertLanes, subtracted, difference]
  | cons c rest ih =>
      cases lane with
      | zero => rfl
      | succ lane => exact ih _ _ lane

theorem below_subtracted (value : UInt8) :
    Below (2 ^ 8) (subtracted value bytes) := by
  intro pair member
  rcases List.mem_map.mp member with ⟨c, _, rfl⟩
  exact ⟨value.toNat_lt, c.toNat_lt⟩

theorem digits_lt : ∀ digit ∈ bytes.map UInt8.toNat, digit < 2 ^ 8 := by
  intro digit member
  rcases List.mem_map.mp member with ⟨c, _, rfl⟩
  exact c.toNat_lt

/-- The digits of a stride. -/
theorem toNat_strideOf {bytes : Bytes} (eight : bytes.length = 8) :
    (strideOf bytes).toNat = Nat.ofDigits (2 ^ 8) (bytes.map UInt8.toNat) := by
  have bound := Nat.ofDigits_lt_base_pow_length (by decide) (digits_lt bytes)
  rw [List.length_map, eight, ← Nat.pow_mul] at bound
  exact Nat.mod_eq_of_lt bound

/-- The bits of a stride are those of its bytes. -/
theorem testBit_strideOf {bytes : Bytes} (eight : bytes.length = 8)
    (index : Nat) :
    (strideOf bytes).toNat.testBit index =
      (bytes.getD (index / 8) 0).toNat.testBit (index % 8) := by
  rw [toNat_strideOf eight, testBit_ofDigits (by decide) (digits_lt bytes)]
  exact
    congrArg (Nat.testBit · (index % 8)) (List.getD_map bytes 0 UInt8.toNat)

/-- The bytes of a stride that was made of bytes. -/
theorem bytesOf_strideOf {bytes : Bytes} (eight : bytes.length = 8) :
    bytesOf (strideOf bytes) = bytes := by
  apply List.ext_getElem
  · rw [bytesOf, List.length_map, List.length_range, eight]
  · intro lane _ inside
    have less : lane < 8 := eight ▸ inside
    simp only [bytesOf, List.getElem_map, List.getElem_range]
    apply UInt8.toNat_inj.mp
    apply Nat.eq_of_testBit_eq
    intro bit
    rw [UInt8.toNat_ofNat', Nat.testBit_mod_two_pow, Nat.testBit_shiftRight,
      testBit_strideOf eight]
    by_cases low : bit < 8
    · have place : (8 * lane + bit) / 8 = lane := by omega
      have rest : (8 * lane + bit) % 8 = bit := by omega
      rw [place, rest, List.getD_eq_getElem _ 0 inside]
      simp [low]
    · have high : bytes[lane].toNat < 2 ^ bit :=
        Nat.lt_of_lt_of_le bytes[lane].toNat_lt
          (Nat.pow_le_pow_right (by decide) (Nat.le_of_not_lt low))
      rw [Nat.testBit_lt_two_pow high]
      simp [low]

/-- The bits of a difference of strides. -/
theorem testBit_sub_strideOf {bytes : Bytes} (eight : bytes.length = 8)
    (value : UInt8)
    (index : Nat) :
    (strideOf (List.replicate 8 value) - strideOf bytes).toNat.testBit
        index =
      ((difference (2 ^ 8) 0 (subtracted value bytes)).1.getD (index / 8)
        0).testBit (index % 8) := by
  have below := below_subtracted bytes value
  have minuends :
      (subtracted value bytes).map Prod.fst =
        (List.replicate 8 value).map UInt8.toNat := by
    rw [subtracted, List.map_map, List.map_replicate, ← eight]
    exact List.map_const' ..
  have subtrahends :
      (subtracted value bytes).map Prod.snd = bytes.map UInt8.toNat := by
    rw [subtracted, List.map_map]
    rfl
  have digits := ofDigits_difference (by decide) below
  rw [minuends, subtrahends, subtracted, List.length_map, eight] at digits
  rw [UInt64.toNat_sub, toNat_strideOf eight,
    toNat_strideOf List.length_replicate]
  rw [← testBit_ofDigits (by decide) (difference_lt below (Nat.zero_le 1)),
    subtracted, digits]
  rfl

/-- The mask is one bit, and takes the other case where it is applied. -/
theorem testBit_caseMask (bit : Nat) :
    caseMask.toNat.testBit bit = decide (bit = 5) := by
  rw [show caseMask.toNat = 2 ^ 5 from rfl, Nat.testBit_two_pow]
  exact decide_eq_decide.mpr eq_comm

theorem testBit_caseMaskS (index : Nat) :
    caseMaskS.toNat.testBit index =
      decide (index / 8 < 8 ∧ index % 8 = 5) := by
  have mask : caseMaskS = strideOf (List.replicate 8 caseMask) := by decide
  rw [mask, testBit_strideOf List.length_replicate]
  by_cases inside : index / 8 < 8
  · rw [List.getD_replicate caseMask inside, testBit_caseMask]
    exact decide_eq_decide.mpr (and_iff_right inside).symm
  · rw [List.getD_eq_default]
    · simp [inside]
    · rw [List.length_replicate]
      exact Nat.le_of_not_lt inside

theorem testBit_flip (c : UInt8) (flip : Bool) (bit : Nat) :
    (c ^^^ (if flip then caseMask else 0)).toNat.testBit bit =
      (c.toNat.testBit bit ^^ (flip && decide (bit = 5))) := by
  cases flip with
  | false => simp
  | true => simp [testBit_caseMask]

/-- The lanes of a stride are converted one after the other. -/
theorem convertStride_strideOf {range : CaseRange} {bytes : Bytes}
    (eight : bytes.length = 8)
    (low : range.lowS = strideOf (List.replicate 8 range.low))
    (high : range.highS = strideOf (List.replicate 8 range.high)) :
    convertStride range (strideOf bytes) =
      strideOf (convertLanes range 0 0 bytes) := by
  apply UInt64.toNat_inj.mp
  apply Nat.eq_of_testBit_eq
  intro index
  rw [testBit_strideOf ((length_convertLanes ..).trans eight),
    getD_convertLanes, testBit_flip, convertStride, low, high,
    UInt64.toNat_xor, UInt64.toNat_and, UInt64.toNat_shiftRight,
    UInt64.toNat_xor, Nat.testBit_xor, Nat.testBit_and,
    Nat.testBit_shiftRight, Nat.testBit_xor, testBit_sub_strideOf eight,
    testBit_sub_strideOf eight, testBit_strideOf eight, testBit_caseMaskS]
  congr 1
  by_cases place : index % 8 = 5
  · have above : ((2 : UInt64).toNat % 64 + index) / 8 = index / 8 := by
      show (2 + index) / 8 = index / 8
      omega
    have sign : ((2 : UInt64).toNat % 64 + index) % 8 = 7 := by
      show (2 + index) % 8 = 7
      omega
    rw [above, sign]
    by_cases inside : index / 8 < 8
    · simp [inside, place]
    · have beyond (value : UInt8) :
          (difference (2 ^ 8) 0 (subtracted value bytes)).1.getD (index / 8)
            0 = 0 := by
        rw [List.getD_eq_default]
        rw [length_difference, subtracted, List.length_map, eight]
        exact Nat.le_of_not_lt inside
      rw [beyond, beyond]
      simp
  · simp [place]

/-- The bytes of a stride after the turn. -/
theorem bytesOf_convertStride {range : CaseRange} {bytes : Bytes}
    (eight : bytes.length = 8)
    (low : range.lowS = strideOf (List.replicate 8 range.low))
    (high : range.highS = strideOf (List.replicate 8 range.high)) :
    bytesOf (convertStride range (strideOf bytes)) =
      convertLanes range 0 0 bytes := by
  rw [convertStride_strideOf eight low high,
    bytesOf_strideOf ((length_convertLanes ..).trans eight)]

end

/-! ## Passes over the string -/

/-- Some bytes were read, and as many written; nothing else changed. -/
structure Pass (before after : Conversion) (count : Nat) : Prop where
  src : after.src = before.src + count
  dst : after.dst = before.dst + count
  reads :
    ∀ address,
      address ∈ after.reads ↔
        (before.src ≤ address ∧ address < before.src + count) ∨
          address ∈ before.reads
  writes :
    ∀ address,
      address ∈ after.writes ↔
        (before.dst ≤ address ∧ address < before.dst + count) ∨
          address ∈ before.writes
  outside :
    ∀ address,
      address < before.dst ∨ before.dst + count ≤ address →
        after.memory address = before.memory address

/-- The bytes to be written are those to be read, or none of them. -/
def Apart (state : Conversion) (count : Nat) : Prop :=
  state.dst = state.src ∨
    state.dst + count ≤ state.src ∨ state.src + count ≤ state.dst

/-- A step over some bytes, and what it stores for them. -/
structure Step
    (step : Conversion → Conversion)
    (width : Nat)
    (value : Memory → Nat → Nat → UInt8) : Prop where
  pass : ∀ state, Pass state (step state) width
  stored :
    ∀ state,
      ∀ index < width,
        (step state).memory (state.dst + index) =
          value state.memory state.src index
  local_ :
    ∀ memory other src,
      (∀ index < width, memory (src + index) = other (src + index)) →
        value memory src = value other src

section

variable {before after later : Conversion} {count more : Nat}

theorem Pass.refl (state : Conversion) : Pass state state 0 where
  src := rfl
  dst := rfl
  reads := fun address => (or_iff_right (by omega)).symm
  writes := fun address => (or_iff_right (by omega)).symm
  outside := fun _ _ => rfl

theorem Pass.trans (pass : Pass before after count)
    (next : Pass after later more) :
    Pass before later (count + more) where
  src := by rw [next.src, pass.src, Nat.add_assoc]
  dst := by rw [next.dst, pass.dst, Nat.add_assoc]
  reads := by
    intro address
    rw [next.reads, pass.reads, pass.src, ← or_assoc]
    exact or_congr_left (by omega)
  writes := by
    intro address
    rw [next.writes, pass.writes, pass.dst, ← or_assoc]
    exact or_congr_left (by omega)
  outside := by
    intro address outside
    rw [next.outside address (by rw [pass.dst]; omega),
      pass.outside address (by omega)]

/-- The bytes that are still to be read are as they were. -/
theorem Pass.kept (pass : Pass before after count) (apart : Apart before more)
    (reached : count ≤ index)
    (inside : index < more) :
    after.memory (before.src + index) =
      before.memory (before.src + index) := by
  apply pass.outside
  unfold Apart at apart
  omega

theorem Apart.less (apart : Apart before more) (less : count ≤ more) :
    Apart before count := by
  unfold Apart at apart ⊢
  omega

theorem Pass.apart (pass : Pass before after count)
    (apart : Apart before (count + more)) :
    Apart after more := by
  unfold Apart at apart ⊢
  rw [pass.src, pass.dst]
  omega

end

section

variable
  {step : Conversion → Conversion}
  {width : Nat}
  {value : Memory → Nat → Nat → UInt8}

theorem Step.pass_iterate (steps : Step step width value) (turns : Nat)
    (state : Conversion) :
    Pass state (step^[turns] state) (turns * width) := by
  induction turns generalizing state with
  | zero =>
      rw [Nat.zero_mul]
      exact .refl state
  | succ turns ih =>
      have passed := (steps.pass state).trans (ih (step state))
      rw [Function.iterate_succ_apply, Nat.succ_mul, Nat.add_comm]
      exact passed

/-- Each turn stores what is to be stored for the bytes as they were. -/
theorem Step.stored_iterate (steps : Step step width value) (turns : Nat)
    {state : Conversion}
    (apart : Apart state (turns * width))
    {turn index : Nat}
    (below : turn < turns)
    (inside : index < width) :
    (step^[turns] state).memory (state.dst + (turn * width + index)) =
      value state.memory (state.src + turn * width) index := by
  induction turns generalizing state turn with
  | zero => exact absurd below (Nat.not_lt_zero turn)
  | succ turns ih =>
      have first := steps.pass state
      rw [Nat.succ_mul, Nat.add_comm] at apart
      rw [Function.iterate_succ_apply]
      cases turn with
      | zero =>
          rw [Nat.zero_mul, Nat.zero_add, Nat.add_zero,
            ← steps.stored state index inside]
          apply (steps.pass_iterate turns (step state)).outside
          rw [first.dst]
          omega
      | succ turn =>
          have stored := ih (first.apart apart) (Nat.lt_of_succ_lt_succ below)
          have place :
              state.dst + ((turn + 1) * width + index) =
                (step state).dst + (turn * width + index) := by
            rw [first.dst, Nat.succ_mul]
            omega
          have source :
              state.src + (turn + 1) * width =
                (step state).src + turn * width := by
            rw [first.src, Nat.succ_mul]
            omega
          rw [place, stored, source]
          have same :
              value (step state).memory ((step state).src + turn * width) =
                value state.memory ((step state).src + turn * width) := by
            apply steps.local_
            intro other less
            have bound : (turn + 1) * width ≤ turns * width :=
              Nat.mul_le_mul_right width (Nat.lt_of_succ_lt_succ below)
            rw [Nat.succ_mul] at bound
            have kept :=
              first.kept apart
                (show width ≤ width + (turn * width + other) by omega)
                (by omega)
            rw [first.src, Nat.add_assoc, Nat.add_assoc]
            exact kept
          rw [same]

end

/-! ## The steps of the functions -/

section

variable {range : CaseRange}

theorem step_fastChar :
    Step (fastChar range) 1 fun memory src _ =>
      convertChar range (memory src) where
  pass := by
    intro state
    constructor
    · rfl
    · rfl
    · intro address
      rw [fastChar, List.mem_cons]
      exact or_congr_left (by omega)
    · intro address
      rw [fastChar, List.mem_cons]
      exact or_congr_left (by omega)
    · intro address outside
      exact store_other _ _ (by omega)
  stored := by
    intro state index less
    rw [Nat.lt_one_iff.mp less]
    exact store_same ..
  local_ := by
    intro memory other src same
    rw [show memory src = other src from same 0 Nat.one_pos]

theorem step_fastStride
    (low : range.lowS = strideOf (List.replicate 8 range.low))
    (high : range.highS = strideOf (List.replicate 8 range.high)) :
    Step (fastStride range) 8 fun memory src lane =>
      (convertLanes range 0 0 (bytesAt memory src 8)).getD lane 0 := by
  have length (memory : Memory) (src : Nat) :
      (bytesAt memory src 8).length = 8 := by
    rw [bytesAt, List.length_map, List.length_range]
  have stored (state : Conversion) :
      (fastStride range state).memory =
        storeAll state.memory state.dst
          (convertLanes range 0 0 (bytesAt state.memory state.src 8)) := by
    rw [fastStride, bytesOf_convertStride (length ..) low high]
  constructor
  · intro state
    constructor
    · rfl
    · rfl
    · intro address
      rw [fastStride, List.mem_append, List.mem_range'_1]
    · intro address
      rw [fastStride, List.mem_append, List.mem_range'_1]
    · intro address outside
      rw [stored]
      apply storeAll_outside
      rw [length_convertLanes, length]
      exact outside
  · intro state lane less
    have inside :
        lane <
          (convertLanes range 0 0
            (bytesAt state.memory state.src 8)).length := by
      rw [length_convertLanes, length]
      exact less
    rw [stored, List.getD_eq_getElem _ 0 inside]
    exact holds_storeAll _ _ _ lane _ (List.getElem?_eq_getElem inside)
  · intro memory other src same
    have bytes : bytesAt memory src 8 = bytesAt other src 8 := by
      apply List.map_congr_left
      intro index member
      exact same index (List.mem_range.mp member)
    rw [bytes]

/-- The bytes in front of the next aligned address. -/
def alignOf (src : Nat) : Nat :=
  (8 - src % 8) % 8

/-- The lowest three bits are cleared. -/
theorem toNat_clear (p : UInt64) : (p &&& ~~~7).toNat = p.toNat / 8 * 8 := by
  rw [UInt64.toNat_and,
    show (~~~7 : UInt64).toNat = (2 ^ 61 - 1) <<< 3 from rfl]
  apply Nat.eq_of_testBit_eq
  intro bit
  have whole : p.toNat / 8 * 8 = (p.toNat >>> 3) <<< 3 := by
    rw [Nat.shiftLeft_eq, Nat.shiftRight_eq_div_pow]
  rw [whole, Nat.testBit_and, Nat.testBit_shiftLeft, Nat.testBit_shiftLeft,
    Nat.testBit_shiftRight, Nat.testBit_two_pow_sub_one]
  by_cases low : 3 ≤ bit
  · have same : 3 + (bit - 3) = bit := by omega
    rw [same]
    by_cases inside : bit - 3 < 61
    · simp [low, inside]
    · have above : p.toNat < 2 ^ bit :=
        Nat.lt_of_lt_of_le p.toNat_lt
          (Nat.pow_le_pow_right (by decide) (by omega))
      rw [Nat.testBit_lt_two_pow above]
      simp
  · simp [low]

theorem toNat_align (src : Nat) :
    (strideCeil (UInt64.ofNat src) - UInt64.ofNat src).toNat =
      alignOf src := by
  have less := (UInt64.ofNat src).toNat_lt
  have place : (UInt64.ofNat src).toNat % 8 = src % 8 := by
    rw [UInt64.toNat_ofNat']
    exact Nat.mod_mod_of_dvd src (by decide)
  rw [UInt64.toNat_sub, strideCeil, toNat_clear, UInt64.toNat_add,
    show (7 : UInt64).toNat = 7 from rfl, alignOf, ← place]
  omega

theorem alignOf_lt (src : Nat) : alignOf src < 8 :=
  Nat.mod_lt _ (by decide)

/-- The pass of the strides starts at an aligned address. -/
theorem aligned (src : Nat) : (src + alignOf src) % 8 = 0 := by
  unfold alignOf
  omega

theorem switchChars_of_le {count : UInt64} {times : Nat}
    (same : count.toNat = times)
    (few : times ≤ 7)
    (state : Conversion) :
    switchChars range count state = (fastChar range)^[times] state := by
  have within : count ≤ 7 := by
    rw [UInt64.le_iff_toNat_le, same]
    exact few
  rw [switchChars, if_pos within, same]

/-- The three parts of the function; the last one is left out when there are too few
bytes behind the strides. -/
theorem nconvert_eq (range : CaseRange) (memory : Memory) (dst src len : Nat) :
    nconvert range memory dst src len =
      (fastChar range)^[len % 8 - alignOf src]
        ((fastStride range)^[len / 8]
          ((fastChar range)^[alignOf src]
            ⟨memory, dst, src, [], []⟩)) := by
  have align := toNat_align src
  have few := alignOf_lt src
  have rest :
      (UInt64.ofNat (len % 8) -
          (strideCeil (UInt64.ofNat src) - UInt64.ofNat src)).toNat =
        (2 ^ 64 - alignOf src + len % 8) % 2 ^ 64 := by
    rw [UInt64.toNat_sub, align, UInt64.toNat_ofNat',
      Nat.mod_eq_of_lt (show len % 8 < 2 ^ 64 by omega)]
  rw [nconvert, switchChars_of_le align (Nat.le_of_lt_succ few)]
  by_cases enough : alignOf src ≤ len % 8
  · exact switchChars_of_le (rest.trans (by omega)) (by omega) _
  · have many :
        ¬UInt64.ofNat (len % 8) -
            (strideCeil (UInt64.ofNat src) - UInt64.ofNat src) ≤ 7 := by
      rw [UInt64.le_iff_toNat_le, rest, show (7 : UInt64).toNat = 7 from rfl]
      omega
    rw [switchChars, if_neg many, Nat.sub_eq_zero_of_le (by omega)]
    rfl

end

/-! ## Irregular bytes -/

/-- What a byte lends to the one behind it in the same stride. -/
def lent (value : UInt8) : Option UInt8 → Nat
  | none => 0
  | some previous => if previous ≤ value then 0 else 1

/-- A byte that is not converted as it should be in a lane that has lent these. -/
def IrregularLane (range : CaseRange) (lentLow lentHigh : Nat)
    (c : UInt8) : Prop :=
  if lentLow = 0 then range.low + 0x80 < c ∧ c ≤ range.high + 0x80
  else if lentHigh = 0 then
    c = range.low ∨ (range.low + 0x80 ≤ c ∧ c ≤ range.high + 0x80)
  else
    c = range.low ∨ c = range.high ∨
      (range.low + 0x80 ≤ c ∧ c < range.high + 0x80)

instance decidableIrregularLane
    (range : CaseRange)
    (lentLow lentHigh : Nat)
    (c : UInt8) :
    Decidable (IrregularLane range lentLow lentHigh c) := by
  unfold IrregularLane
  infer_instance

/-- A byte that is not converted as it should be behind another one, or as the first
one of a stride, or alone. -/
def Irregular (range : CaseRange) (previous : Option UInt8)
    (c : UInt8) : Prop :=
  IrregularLane range (lent range.low previous) (lent range.high previous) c

instance decidableIrregular
    (range : CaseRange)
    (previous : Option UInt8)
    (c : UInt8) :
    Decidable (Irregular range previous c) :=
  decidableIrregularLane ..

/-- The range is the one of a case, and its strides are made of its bytes. -/
structure Suits
    (range : CaseRange)
    (letterCase : UInt8 → UInt8) : Prop where
  lowS : range.lowS = strideOf (List.replicate 8 range.low)
  highS : range.highS = strideOf (List.replicate 8 range.high)
  lowHigh : range.low < range.high
  char : ∀ c, convertChar range c = letterCase c ↔ ¬IrregularLane range 0 0 c
  lane :
    ∀ lentLow lentHigh,
      lentHigh ≤ lentLow → lentLow ≤ 1 →
        ∀ c,
          convertLane range lentLow lentHigh c = letterCase c ↔
            ¬IrregularLane range lentLow lentHigh c

/-- There are three states of a lane. -/
theorem forall_lent {property : Nat → Nat → Prop} (neither : property 0 0)
    (low : property 1 0)
    (both : property 1 1) :
    ∀ lentLow lentHigh,
      lentHigh ≤ lentLow → lentLow ≤ 1 → property lentLow lentHigh := by
  intro lentLow lentHigh ordered bound
  rcases Nat.le_one_iff_eq_zero_or_eq_one.mp bound with rfl | rfl
  · rw [Nat.le_zero.mp ordered]
    exact neither
  · rcases Nat.le_one_iff_eq_zero_or_eq_one.mp ordered with rfl | rfl
    · exact low
    · exact both

set_option maxRecDepth 4000 in
theorem suits_lower : Suits tolowerRange asciiLower where
  lowS := by decide
  highS := by decide
  lowHigh := by decide
  char := forall_byte (by decide)
  lane :=
    forall_lent (forall_byte (by decide))
      (forall_byte (by decide)) (forall_byte (by decide))

set_option maxRecDepth 4000 in
theorem suits_upper : Suits toupperRange asciiUpper where
  lowS := by decide
  highS := by decide
  lowHigh := by decide
  char := forall_byte (by decide)
  lane :=
    forall_lent (forall_byte (by decide))
      (forall_byte (by decide)) (forall_byte (by decide))

section

variable {range : CaseRange} {letterCase : UInt8 → UInt8}

theorem lent_le_one (value : UInt8) (previous : Option UInt8) :
    lent value previous ≤ 1 := by
  unfold lent
  split
  · exact Nat.zero_le 1
  · split <;> decide

theorem Suits.lent_le (suits : Suits range letterCase)
    (previous : Option UInt8) :
    lent range.high previous ≤ lent range.low previous := by
  unfold lent
  cases previous with
  | none => exact Nat.le_refl 0
  | some previous =>
      dsimp only
      split
      · exact Nat.zero_le _
      · next above =>
        have higher : ¬previous ≤ range.low := by
          intro below
          exact above (UInt8.le_trans below (UInt8.le_of_lt suits.lowHigh))
        rw [if_neg higher]

/-- Behind a regular byte the lanes borrow what that byte alone makes them lend. -/
theorem borrowOf_lent {value c : UInt8} {previous : Option UInt8}
    (different : lent value previous = 0 ∨ c ≠ value) :
    borrowOf value.toNat c.toNat (lent value previous) =
      lent value (some c) := by
  have bound := lent_le_one value previous
  unfold borrowOf
  rw [lent]
  apply if_congr _ rfl rfl
  rw [UInt8.le_iff_toNat_le]
  rcases different with zero | different
  · rw [zero, Nat.add_zero]
  · have apart : c.toNat ≠ value.toNat :=
      fun same => different (UInt8.toNat_inj.mp same)
    omega

theorem Suits.borrows (suits : Suits range letterCase)
    {previous : Option UInt8}
    {c : UInt8}
    (regular : ¬Irregular range previous c) :
    borrowOf range.low.toNat c.toNat (lent range.low previous) =
        lent range.low (some c) ∧
      borrowOf range.high.toNat c.toNat (lent range.high previous) =
        lent range.high (some c) := by
  have ordered := suits.lent_le previous
  unfold Irregular IrregularLane at regular
  constructor
  · apply borrowOf_lent
    by_cases low : lent range.low previous = 0
    · exact Or.inl low
    · right
      rintro rfl
      rw [if_neg low] at regular
      split at regular
      · exact regular (Or.inl rfl)
      · exact regular (Or.inl rfl)
  · apply borrowOf_lent
    by_cases high : lent range.high previous = 0
    · exact Or.inl high
    · right
      rintro rfl
      rw [if_neg (by omega), if_neg high] at regular
      exact regular (Or.inr (Or.inl rfl))

/-- The lanes are all converted as they should be if none of the bytes is irregular
behind the one before. -/
theorem Suits.convertLanes_iff (suits : Suits range letterCase) (bytes : Bytes)
    (previous : Option UInt8) :
    (∀ lane < bytes.length,
        (convertLanes range (lent range.low previous)
            (lent range.high previous) bytes).getD lane 0 =
          letterCase (bytes.getD lane 0)) ↔
      ∀ lane < bytes.length,
        ¬Irregular range
          (if lane = 0 then previous else some (bytes.getD (lane - 1) 0))
          (bytes.getD lane 0) := by
  induction bytes generalizing previous with
  | nil => simp
  | cons c rest ih =>
      rw [List.length_cons, Nat.forall_lt_succ_left, Nat.forall_lt_succ_left]
      have first :=
        suits.lane _ _ (suits.lent_le previous)
          (lent_le_one range.low previous) c
      refine (and_congr_left' first).trans (and_congr_right ?_)
      intro regular
      have borrows := suits.borrows regular
      rw [convertLanes, borrows.1, borrows.2]
      refine (ih (some c)).trans ?_
      apply forall_congr'
      intro lane
      cases lane with
      | zero => rfl
      | succ lane => rfl

end

/-! ## The whole string -/

/-- The strings are the same one, or have no byte in common. -/
def SameOrDisjoint (dst src len : Nat) : Prop :=
  dst = src ∨ dst + len ≤ src ∨ src + len ≤ dst

/-- The byte in front of this one, if both are in one stride. -/
def previousInStride (memory : Memory) (src len index : Nat) : Option UInt8 :=
  if
    alignOf src < index ∧ index < alignOf src + 8 * (len / 8) ∧
      (src + index) % 8 ≠ 0
  then some (memory (src + index - 1))
  else none

/-- The indices are those of the three parts of the function. -/
theorem forall_parts {property : Nat → Prop} {front turns back len : Nat}
    (whole : front + turns * 8 + back = len) :
    (∀ index < len, property index) ↔
      (∀ index < front, property index) ∧
        (∀ turn < turns, ∀ lane < 8,
          property (front + turn * 8 + lane)) ∧
          ∀ index < back, property (front + turns * 8 + index) := by
  constructor
  · intro all
    refine ⟨?_, ?_, ?_⟩
    · intro index less
      exact all index (by omega)
    · intro turn below lane less
      exact all _ (by omega)
    · intro index less
      exact all _ (by omega)
  · rintro ⟨first, second, third⟩ index less
    by_cases early : index < front
    · exact first index early
    · by_cases middle : index < front + turns * 8
      · have place :
            front + (index - front) / 8 * 8 + (index - front) % 8 = index := by
          omega
        rw [← place]
        exact second _ (by omega) _ (Nat.mod_lt _ (by decide))
      · have place :
            front + turns * 8 + (index - (front + turns * 8)) = index := by
          omega
        rw [← place]
        exact third _ (by omega)

section

variable
  {range : CaseRange}
  {letterCase : UInt8 → UInt8}
  {memory : Memory}
  {dst src len : Nat}

/-- The bytes that are read and written. -/
theorem Suits.pass_nconvert (suits : Suits range letterCase) (memory : Memory)
    (dst src len : Nat) :
    Pass ⟨memory, dst, src, [], []⟩ (nconvert range memory dst src len)
      (alignOf src * 1 + len / 8 * 8 + (len % 8 - alignOf src) * 1) := by
  rw [nconvert_eq]
  have strides := step_fastStride suits.lowS suits.highS
  have front :=
    (@step_fastChar range).pass_iterate (alignOf src)
      ⟨memory, dst, src, [], []⟩
  exact
    (front.trans (strides.pass_iterate (len / 8) _)).trans
      (step_fastChar.pass_iterate (len % 8 - alignOf src) _)

/-- Bytes of a pass stay what they are in the next one. -/
theorem Pass.front {before after later : Conversion} {count more : Nat}
    (pass : Pass before after count)
    (next : Pass after later more)
    (inside : index < count) :
    later.memory (before.dst + index) = after.memory (before.dst + index) := by
  apply next.outside
  rw [pass.dst]
  omega

/-- What is stored in each of the parts. -/
theorem Suits.nconvert_values (suits : Suits range letterCase)
    (memory : Memory)
    (enough : alignOf src ≤ len % 8)
    (apart : SameOrDisjoint dst src len) :
    let result := nconvert range memory dst src len
    (∀ index < alignOf src,
        result.memory (dst + index) =
          convertChar range (memory (src + index))) ∧
      (∀ turn < len / 8, ∀ lane < 8,
        result.memory (dst + (alignOf src + turn * 8 + lane)) =
          (convertLanes range 0 0
            (bytesAt memory (src + (alignOf src + turn * 8)) 8)).getD lane 0) ∧
        ∀ index < len % 8 - alignOf src,
          result.memory (dst + (alignOf src + len / 8 * 8 + index)) =
            convertChar range
              (memory (src + (alignOf src + len / 8 * 8 + index))) := by
  have chars := @step_fastChar range
  have strides := step_fastStride suits.lowS suits.highS
  let state : Conversion := ⟨memory, dst, src, [], []⟩
  let state₁ := (fastChar range)^[alignOf src] state
  let state₂ := (fastStride range)^[len / 8] state₁
  have pass₁ : Pass state state₁ (alignOf src * 1) := chars.pass_iterate ..
  have pass₂ : Pass state₁ state₂ (len / 8 * 8) := strides.pass_iterate ..
  have pass₃ := chars.pass_iterate (len % 8 - alignOf src) state₂
  have apart₀ :
      Apart state
        (alignOf src * 1 + (len / 8 * 8 + (len % 8 - alignOf src) * 1)) := by
    have whole :
        alignOf src * 1 + (len / 8 * 8 + (len % 8 - alignOf src) * 1) =
          len := by
      omega
    rw [whole]
    exact apart
  have apart₁ := pass₁.apart apart₀
  have apart₂ := pass₂.apart apart₁
  have pass₁₂ := pass₁.trans pass₂
  rw [nconvert_eq]
  dsimp only
  refine ⟨?_, ?_, ?_⟩
  · intro index less
    have stored :=
      chars.stored_iterate (alignOf src) (apart₀.less (by omega)) less
        Nat.one_pos
    rw [Nat.mul_one, Nat.add_zero] at stored
    exact (pass₁.front (pass₂.trans pass₃) (by omega)).trans stored
  · intro turn below lane less
    have stored :=
      strides.stored_iterate (len / 8) (apart₁.less (by omega)) below less
    have bytes :
        bytesAt state₁.memory (state₁.src + turn * 8) 8 =
          bytesAt memory (src + (alignOf src + turn * 8)) 8 := by
      apply List.map_congr_left
      intro other member
      have inside := List.mem_range.mp member
      have kept :=
        pass₁.kept apart₀
          (show alignOf src * 1 ≤ alignOf src + turn * 8 + other by omega)
          (by omega)
      rw [pass₁.src, Nat.mul_one, Nat.add_assoc, Nat.add_assoc,
        Nat.add_assoc, ← Nat.add_assoc (alignOf src)]
      exact kept
    have place :
        dst + (alignOf src + turn * 8 + lane) =
          state₁.dst + (turn * 8 + lane) := by
      rw [pass₁.dst]
      show _ = dst + _ + _
      omega
    rw [place, ← bytes, ← stored]
    exact pass₂.front pass₃ (by omega)
  · intro index less
    have stored :=
      chars.stored_iterate (len % 8 - alignOf src) apart₂ less Nat.one_pos
    have kept :=
      pass₁₂.kept (apart₀.less (Nat.le_of_eq (Nat.add_assoc ..)))
        (show
          alignOf src * 1 + len / 8 * 8 ≤
            alignOf src + len / 8 * 8 + index by omega)
        (by omega)
    rw [Nat.mul_one, Nat.add_zero, pass₁₂.dst, pass₁₂.src, Nat.mul_one,
      Nat.add_assoc state.dst, Nat.add_assoc state.src, kept] at stored
    exact stored

theorem getD_bytesAt (memory : Memory) (start : Nat) {length lane : Nat}
    (inside : lane < length) :
    (bytesAt memory start length).getD lane 0 = memory (start + lane) := by
  have within : lane < (bytesAt memory start length).length := by
    rw [bytesAt, List.length_map, List.length_range]
    exact inside
  rw [List.getD_eq_getElem _ 0 within]
  simp only [bytesAt, List.getElem_map, List.getElem_range]

/-- A byte that is converted alone has none in front of it. -/
theorem previousInStride_alone
    (alone : index ≤ alignOf src ∨ alignOf src + len / 8 * 8 ≤ index) :
    previousInStride memory src len index = none := by
  rw [previousInStride, if_neg]
  omega

/-- The byte in front of a byte of a stride. -/
theorem previousInStride_lane {turn lane : Nat} (below : turn < len / 8)
    (less : lane < 8) :
    previousInStride memory src len (alignOf src + turn * 8 + lane) =
      if lane = 0 then none
      else some (memory (src + (alignOf src + turn * 8) + (lane - 1))) := by
  have start := aligned src
  rw [previousInStride]
  by_cases first : lane = 0
  · rw [if_pos first, if_neg]
    omega
  · have place :
        src + (alignOf src + turn * 8 + lane) - 1 =
          src + (alignOf src + turn * 8) + (lane - 1) := by
      omega
    rw [if_neg first, if_pos, place]
    omega

/-- The strides are converted as they should be if no byte is irregular. -/
theorem Suits.stride_iff
    (suits : Suits range letterCase)
    {turn : Nat}
    (below : turn < len / 8)
    (result : Nat → UInt8)
    (stored :
      ∀ lane < 8,
        result (alignOf src + turn * 8 + lane) =
          (convertLanes range 0 0
            (bytesAt memory (src + (alignOf src + turn * 8)) 8)).getD lane 0) :
    (∀ lane < 8,
        result (alignOf src + turn * 8 + lane) =
          letterCase (memory (src + (alignOf src + turn * 8 + lane)))) ↔
      ∀ lane < 8,
        ¬Irregular range
          (previousInStride memory src len (alignOf src + turn * 8 + lane))
          (memory (src + (alignOf src + turn * 8 + lane))) := by
  have eight :
      (bytesAt memory (src + (alignOf src + turn * 8)) 8).length = 8 := by
    rw [bytesAt, List.length_map, List.length_range]
  have lanes :=
    suits.convertLanes_iff
      (bytesAt memory (src + (alignOf src + turn * 8)) 8) none
  rw [eight] at lanes
  refine Iff.trans ?_ (lanes.trans ?_)
  · apply forall₂_congr
    intro lane less
    rw [stored lane less, getD_bytesAt memory _ less, Nat.add_assoc src]
    rfl
  · apply forall₂_congr
    intro lane less
    rw [getD_bytesAt memory _ less,
      getD_bytesAt memory _ (show lane - 1 < 8 by omega),
      previousInStride_lane below less, Nat.add_assoc src _ lane]

/-- The function converts the string as it should and touches nothing else if and
only if there are enough bytes behind the strides for those in front of them, and
no byte is irregular. -/
theorem Suits.nconvert_iff (suits : Suits range letterCase)
    (apart : SameOrDisjoint dst src len) :
    Converts letterCase memory dst src len
        (nconvert range memory dst src len) ↔
      alignOf src ≤ len % 8 ∧
        ∀ index < len,
          ¬Irregular range (previousInStride memory src len index)
            (memory (src + index)) := by
  have pass := suits.pass_nconvert memory dst src len
  by_cases enough : alignOf src ≤ len % 8
  · have whole :
        alignOf src + len / 8 * 8 + (len % 8 - alignOf src) = len := by
      omega
    have values := suits.nconvert_values memory enough apart
    generalize nconvert range memory dst src len = result at pass values ⊢
    have extent :
        Converts letterCase memory dst src len result ↔
          ∀ index < len,
            result.memory (dst + index) =
              letterCase (memory (src + index)) := by
      refine ⟨Converts.converted, fun converted => ⟨converted, ?_, ?_⟩⟩
      · intro address read
        rcases (pass.reads address).mp read with within | before
        · dsimp only at within
          exact ⟨address - src, by omega, by omega⟩
        · nomatch before
      · intro address written
        rcases (pass.writes address).mp written with within | before
        · dsimp only at within
          exact ⟨address - dst, by omega, by omega⟩
        · nomatch before
    rw [extent, and_iff_right enough, forall_parts whole, forall_parts whole]
    refine and_congr ?_ (and_congr ?_ ?_)
    · apply forall₂_congr
      intro index less
      rw [values.1 index less,
        previousInStride_alone (Or.inl (Nat.le_of_lt less))]
      exact suits.char _
    · apply forall₂_congr
      intro turn below
      exact
        suits.stride_iff below (fun index => result.memory (dst + index))
          (values.2.1 turn below)
    · apply forall₂_congr
      intro index less
      rw [values.2.2 index less,
        previousInStride_alone (Or.inr (Nat.le_add_right ..))]
      exact suits.char _
  · constructor
    · intro converts
      have read : src + len ∈ (nconvert range memory dst src len).reads := by
        rw [pass.reads]
        left
        dsimp only
        omega
      rcases converts.reads _ read with ⟨index, less, same⟩
      omega
    · intro condition
      exact absurd condition.1 enough

end

/-- The lower case is right under this condition, and the upper case under its own
one. -/
theorem ncase_converts_iff {memory : Memory} {dst src len : Nat}
    (apart : SameOrDisjoint dst src len) :
    (Converts asciiLower memory dst src len
        (ymoNtolower memory dst src len) ↔
      alignOf src ≤ len % 8 ∧
        ∀ index < len,
          ¬Irregular tolowerRange (previousInStride memory src len index)
            (memory (src + index))) ∧
      (Converts asciiUpper memory dst src len
          (ymoNtoupper memory dst src len) ↔
        alignOf src ≤ len % 8 ∧
          ∀ index < len,
            ¬Irregular toupperRange (previousInStride memory src len index)
              (memory (src + index))) :=
  ⟨suits_lower.nconvert_iff apart, suits_upper.nconvert_iff apart⟩

set_option maxRecDepth 4000 in
/-- At an aligned address `AAA AAAAAAA` is converted. -/
theorem aligned_string_converts :
    let memory := fun address => if address = 19 then 0x20 else 0x41
    SameOrDisjoint 16 16 11 ∧
      Converts asciiLower memory 16 16 11 (ymoNtolower memory 16 16 11) ∧
      Converts asciiUpper memory 16 16 11 (ymoNtoupper memory 16 16 11) := by
  refine
    ⟨Or.inl rfl, (ncase_converts_iff (Or.inl rfl)).1.mpr ⟨by decide, ?_⟩,
      (ncase_converts_iff (Or.inl rfl)).2.mpr ⟨by decide, ?_⟩⟩
  · decide
  · decide

set_option maxRecDepth 4000 in
/-- A letter at an odd address is read beyond, and the `Z` of `aZ` is left as it is at
an aligned one. -/
theorem letters_not_converted :
    (SameOrDisjoint 17 17 1 ∧
      ¬Converts asciiLower (fun _ => 0x41) 17 17 1
        (ymoNtolower (fun _ => 0x41) 17 17 1)) ∧
      let memory := fun address => if address = 17 then 0x5a else 0x61
      SameOrDisjoint 16 16 8 ∧
        ¬Converts asciiLower memory 16 16 8 (ymoNtolower memory 16 16 8) := by
  refine ⟨⟨Or.inl rfl, ?_⟩, Or.inl rfl, ?_⟩
  · intro converts
    have read : 18 ∈ (ymoNtolower (fun _ => 0x41) 17 17 1).reads := by
      decide
    rcases converts.reads 18 read with ⟨index, less, same⟩
    omega
  · intro converts
    have left := converts.converted 1 (by decide)
    revert left
    decide

end Yimmo.Core.CaseConversion
