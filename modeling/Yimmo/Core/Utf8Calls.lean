import Mathlib.Tactic.IntervalCases
import Mathlib.Tactic.Tauto
import Yimmo.Core.Utf8

/-!
# Successive calls of the UTF-8 validator

A string may come in pieces, each checked by a call of `ymo_check_utf8` on the
same state.  The packed state is a position of the recogniser between any two
calls, so where the string was cut does not matter.

The shortcut for four ASCII bytes tests a word that is put together from signed
characters; it is the test on the high bits of the four bytes.
-/

namespace Yimmo.Core.Utf8Calls

open Yimmo.Core.StatusCode
open Yimmo.Core.Utf8
open Yimmo.Lib.Utf8

/-! ## The shortcut -/

/-- `quartet`: a `uint8_t` and three signed characters, as an `int`. -/
def quartet (c p0 p1 p2 : UInt8) : BitVec 32 :=
  (c.toBitVec.zeroExtend 32 <<< 24) |||
    (p0.toBitVec.signExtend 32 <<< 16) |||
      (p1.toBitVec.signExtend 32 <<< 8) ||| p2.toBitVec.signExtend 32

set_option maxRecDepth 4000 in
theorem highBit_eq_zero_iff (byte : UInt8) :
    byte &&& 0x80 = 0 ↔ byte.toBitVec.getLsbD 7 = false := by
  cases byte with
  | ofBitVec bits =>
      revert bits
      decide

theorem and_highBits_eq_zero_iff (word : BitVec 32) :
    word &&& 0x80808080 = 0 ↔
      word.getLsbD 7 = false ∧ word.getLsbD 15 = false ∧
        word.getLsbD 23 = false ∧ word.getLsbD 31 = false := by
  constructor
  · intro zero
    have bit : ∀ index, (word &&& 0x80808080).getLsbD index = false := by
      intro index
      rw [zero]
      exact BitVec.getLsbD_zero
    have bit7 := bit 7
    have bit15 := bit 15
    have bit23 := bit 23
    have bit31 := bit 31
    simp at bit7 bit15 bit23 bit31
    exact ⟨bit7, bit15, bit23, bit31⟩
  · rintro ⟨bit7, bit15, bit23, bit31⟩
    simp at bit7 bit15 bit23 bit31
    apply BitVec.eq_of_getLsbD_eq
    intro index bound
    interval_cases index <;> simp [*]

/-- A negative character sets bits of the others, and its own. -/
theorem quartet_eq_zero_iff (c p0 p1 p2 : UInt8) :
    quartet c p0 p1 p2 &&& 0x80808080 = 0 ↔
      c &&& 0x80 = 0 ∧ p0 &&& 0x80 = 0 ∧
        p1 &&& 0x80 = 0 ∧ p2 &&& 0x80 = 0 := by
  rw [and_highBits_eq_zero_iff]
  simp only [highBit_eq_zero_iff]
  unfold quartet
  simp [BitVec.getElem_signExtend, BitVec.msb_eq_getLsbD_last]
  tauto

/-- The test that the source makes on the next four bytes. -/
theorem asciiQuartet_eq_quartet (c p0 p1 p2 : UInt8) (rest : Bytes) :
    asciiQuartet c (p0 :: p1 :: p2 :: rest) =
      decide (quartet c p0 p1 p2 &&& 0x80808080 = 0) := by
  rw [Bool.eq_iff_iff, decide_eq_true_iff, quartet_eq_zero_iff]
  simp [asciiQuartet]

/-! ## Calls -/

/-- The calls on the pieces of a string; `done` is set on the last one, if it is
set at all. -/
def checkPieces (done : Bool) :
    Utf8State → List Bytes → Except Errno Utf8State
  | state, [] => .ok state
  | state, [piece] => ymoCheckUtf8 state piece done
  | state, piece :: rest =>
      (ymoCheckUtf8 state piece false).bind fun later =>
        checkPieces done later rest

/-- The calls all return `YMO_OKAY`. -/
def Accepted : Except Errno Utf8State → Prop
  | .ok _ => True
  | .error _ => False

/-- The recogniser takes the string, and is between characters if it is done. -/
def Takes (position : Position) (bytes : Bytes) (done : Bool) : Prop :=
  ∃ later, run position bytes = some later ∧ (done = true → later = .start)

/-- One call is a run of the recogniser. -/
theorem ymoCheckUtf8_accepted_iff {state : Utf8State}
    (coherent : state.Coherent)
    (piece : Bytes)
    (done : Bool) :
    Accepted (ymoCheckUtf8 state piece done) ↔
      Takes state.position piece done := by
  rcases ymoCheckUtf8_cases coherent piece done with
    ⟨position, later, ran, checked, -, -, finished⟩ | ⟨refused, why⟩
  · rw [checked]
    exact ⟨fun _ => ⟨position, ran, finished⟩, fun _ => trivial⟩
  · rw [refused]
    constructor
    · intro accepted
      exact accepted.elim
    · rintro ⟨position, ran, finished⟩
      rcases why position ran with ⟨isDone, unfinished⟩
      exact absurd (finished isDone) unfinished

/-- What the calls come to: the recogniser has taken the whole string. -/
theorem checkPieces_accepted_iff {state : Utf8State}
    (coherent : state.Coherent)
    (done : Bool)
    {pieces : List Bytes}
    (called : pieces ≠ []) :
    Accepted (checkPieces done state pieces) ↔
      Takes state.position pieces.flatten done := by
  induction pieces generalizing state with
  | nil => exact absurd rfl called
  | cons piece rest ih =>
      cases rest with
      | nil =>
          rw [checkPieces, List.flatten_cons, List.flatten_nil,
            List.append_nil]
          exact ymoCheckUtf8_accepted_iff coherent piece done
      | cons second others =>
          rw [checkPieces, List.flatten_cons]
          · rcases ymoCheckUtf8_cases coherent piece false with
              ⟨position, later, ran, checked, stillCoherent, stands, -⟩ |
                ⟨refused, why⟩
            · rw [checked]
              have goesOn := ih stillCoherent (List.cons_ne_nil second others)
              unfold Takes at goesOn ⊢
              rw [run_append, ran, Option.bind_some, ← stands]
              exact goesOn
            · rw [refused]
              constructor
              · intro accepted
                exact accepted.elim
              · rintro ⟨position, ran, -⟩
                rw [run_append] at ran
                cases first : run state.position piece with
                | none =>
                    rw [first] at ran
                    nomatch ran
                | some between =>
                    exact absurd (why between first).1 Bool.false_ne_true
          · exact List.cons_ne_nil second others

/--
Whatever pieces a string comes in: with `done` on the last call the calls accept
exactly the well-formed strings, and without it exactly their prefixes.
-/
theorem pieces_accepted_iff (pieces : List Bytes) :
    (Accepted (checkPieces true ymoUtf8StateReset pieces) ↔
        WellFormed pieces.flatten) ∧
      (Accepted (checkPieces false ymoUtf8StateReset pieces) ↔
        ∃ rest, WellFormed (pieces.flatten ++ rest)) := by
  cases pieces with
  | nil =>
      exact
        ⟨⟨fun _ => ⟨[], rfl⟩, fun _ => trivial⟩,
          ⟨fun _ => ⟨[], [], rfl⟩, fun _ => trivial⟩⟩
  | cons piece rest =>
      have calls := fun done =>
        checkPieces_accepted_iff coherent_ymoUtf8StateReset done
          (List.cons_ne_nil piece rest)
      have between : ymoUtf8StateReset.position = .start := rfl
      rw [between] at calls
      constructor
      · rw [calls true, ← run_start_iff]
        constructor
        · rintro ⟨position, ran, finished⟩
          rw [ran, finished rfl]
        · intro ran
          exact ⟨.start, ran, fun _ => rfl⟩
      · rw [calls false, ← run_start_isSome_iff, Option.isSome_iff_exists]
        constructor
        · rintro ⟨position, ran, -⟩
          exact ⟨position, ran⟩
        · rintro ⟨position, ran⟩
          exact ⟨position, ran, fun isDone => nomatch isDone⟩

end Yimmo.Core.Utf8Calls
