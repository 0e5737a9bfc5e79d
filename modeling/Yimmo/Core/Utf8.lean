import Yimmo.Core.Characters
import Yimmo.Core.StatusCode
import Yimmo.Lib.Utf8

/-!
# The UTF-8 validator

This module models `ymo_check_utf8` of `ymo_util.c`: the bit-field state that is
kept between calls, the tests on start and continuation bytes, and the shortcut
that skips four ASCII bytes at a time.  A refused byte ends the call with
`EILSEQ`; no caller uses the state after that.

The state is a position of the recogniser in `Yimmo.Lib.Utf8`, and the validator
takes its steps.
-/

namespace Yimmo.Core.Utf8

open Yimmo.Core.StatusCode
open Yimmo.Lib.Utf8

/-- `EILSEQ`. -/
def eilseq : Errno :=
  .other 84

/-- `ymo_utf8_state_t`. -/
structure Utf8State where
  pointRemain : Nat
  codeWidth : Nat
  checkSurrogate : Bool
  checkOverlong : Bool
  checkMax : Bool
deriving DecidableEq, Repr

/-- `ymo_utf8_state_reset`. -/
def ymoUtf8StateReset : Utf8State where
  pointRemain := 0
  codeWidth := 0
  checkSurrogate := false
  checkOverlong := false
  checkMax := false

/-- `UTF8_WIDTH_1`. -/
def utf8Width1 : Nat :=
  0

/-- `UTF8_WIDTH_2`. -/
def utf8Width2 : Nat :=
  1

/-- `UTF8_WIDTH_3`. -/
def utf8Width3 : Nat :=
  2

/-- `UTF8_WIDTH_4`. -/
def utf8Width4 : Nat :=
  3

/-- `c3_min`. -/
def c3Min : Bytes :=
  [0x00, 0x80, 0xa0, 0xe0]

/-- `c4_min`. -/
def c4Min : Bytes :=
  [0x00, 0x80, 0x80, 0x90, 0xf0]

/-- `c4_max`. -/
def c4Max : Bytes :=
  [0x00, 0xbf, 0xbf, 0x8f, 0xf4]

/-- The bytes that no UTF-8 text has. -/
def neverUsed (c : UInt8) : Bool :=
  c > 0xf4 || c == 0xc0 || c == 0xc1

/-- The next four bytes are there and all of them are ASCII. -/
def asciiQuartet (c : UInt8) (rest : Bytes) : Bool :=
  decide (3 ≤ rest.length) &&
    (c :: rest.take 3).all fun byte => byte &&& 0x80 == 0

/-- The state after a start byte. -/
def startByte (c : UInt8) : Option Utf8State :=
  let state := ymoUtf8StateReset
  if c &&& 0x80 = 0 then
    some { state with pointRemain := 0, codeWidth := utf8Width1 }
  else if c &&& 0xe0 = 0xc0 then
    some { state with pointRemain := 1, codeWidth := utf8Width2 }
  else if c &&& 0xf0 = 0xe0 then
    some
      { state with
        pointRemain := 2
        codeWidth := utf8Width3
        checkSurrogate := c == 0xed
        checkOverlong := c == 0xe0 }
  else if c &&& 0xf8 = 0xf0 then
    some
      { state with
        pointRemain := 3
        codeWidth := utf8Width4
        checkOverlong := c == 0xf0
        checkMax := c == 0xf4 }
  else none

/-- The checks of a continuation byte in a character of three bytes. -/
def checkWidth3 (state : Utf8State) (c : UInt8) : Option Utf8State :=
  if state.checkOverlong ∧ c < c3Min.getD state.pointRemain 0 then none
  else if state.checkSurrogate ∧ c ≥ 0xa0 then none
  else some { state with checkOverlong := false, checkSurrogate := false }

/-- The checks of a continuation byte in a character of four bytes. -/
def checkWidth4 (state : Utf8State) (c : UInt8) : Option Utf8State :=
  if state.checkOverlong ∧ c < c4Min.getD state.pointRemain 0 then none
  else if state.checkMax ∧ c > c4Max.getD state.pointRemain 0 then none
  else some { state with checkOverlong := false }

/-- The state after a byte that has to continue a character. -/
def continuationByte (state : Utf8State) (c : UInt8) : Option Utf8State :=
  if c &&& 0xc0 = 0x80 then
    let checked :=
      if state.codeWidth = utf8Width3 then checkWidth3 state c
      else if state.codeWidth = utf8Width4 then checkWidth4 state c
      else some state
    checked.map fun state =>
      { state with pointRemain := state.pointRemain - 1 }
  else none

/-- One byte that the shortcut does not skip. -/
def checkByte (state : Utf8State) (c : UInt8) : Option Utf8State :=
  if neverUsed c then none
  else if state.pointRemain = 0 then startByte c
  else continuationByte state c

/-- The loop over the buffer; `skip` bytes were taken by the shortcut. -/
def checkBytes :
    Nat → Utf8State → Bytes → Option Utf8State
  | _, state, [] => some state
  | skip + 1, state, _ :: rest => checkBytes skip state rest
  | 0, state, c :: rest =>
      if !neverUsed c && decide (state.pointRemain = 0) &&
          asciiQuartet c rest then
        checkBytes 3 state rest
      else (checkByte state c).bind fun state => checkBytes 0 state rest

/-- `ymo_check_utf8`. -/
def ymoCheckUtf8 (state : Utf8State) (buffer : Bytes) (done : Bool) :
    Except Errno Utf8State :=
  match checkBytes 0 state buffer with
  | none => .error eilseq
  | some state =>
      if state.pointRemain ≠ 0 ∧ done then .error eilseq
      else .ok state

/-! ## The recogniser -/

/-- Where the validator stands. -/
def Utf8State.position (state : Utf8State) : Position :=
  match state.pointRemain with
  | 0 => .start
  | 1 => .tail1
  | 2 =>
      if state.codeWidth = utf8Width3 ∧ state.checkOverlong then .afterE0
      else if state.codeWidth = utf8Width3 ∧ state.checkSurrogate then .afterED
      else .tail2
  | _ =>
      if state.checkOverlong then .afterF0
      else if state.checkMax then .afterF4
      else .tail3

/-- The flags that start bytes and continuation bytes leave behind. -/
def Utf8State.Coherent (state : Utf8State) : Prop :=
  match state.pointRemain with
  | 0 => True
  | 1 =>
      state.codeWidth = utf8Width2 ∨
        (state.codeWidth = utf8Width3 ∧ state.checkSurrogate = false) ∨
          state.codeWidth = utf8Width4
  | 2 =>
      (state.codeWidth = utf8Width3 ∧
          (state.checkOverlong = false ∨ state.checkSurrogate = false)) ∨
        state.codeWidth = utf8Width4
  | 3 =>
      state.codeWidth = utf8Width4 ∧
        (state.checkOverlong = false ∨ state.checkMax = false)
  | _ => False

/-- What a byte does to the validator and to the recogniser. -/
def Agrees : Option Utf8State → Option Position → Prop
  | some state, some position => state.Coherent ∧ state.position = position
  | none, none => True
  | _, _ => False


/-! ## Masks -/

set_option maxRecDepth 4000 in
theorem and_0x80_eq_zero (c : UInt8) : c &&& 0x80 = 0 ↔ c.toNat < 0x80 := by
  cases c with
  | ofBitVec bits =>
      revert bits
      decide

set_option maxRecDepth 4000 in
theorem and_0xe0_eq (c : UInt8) :
    c &&& 0xe0 = 0xc0 ↔ 0xc0 ≤ c.toNat ∧ c.toNat < 0xe0 := by
  cases c with
  | ofBitVec bits =>
      revert bits
      decide

set_option maxRecDepth 4000 in
theorem and_0xf0_eq (c : UInt8) :
    c &&& 0xf0 = 0xe0 ↔ 0xe0 ≤ c.toNat ∧ c.toNat < 0xf0 := by
  cases c with
  | ofBitVec bits =>
      revert bits
      decide

set_option maxRecDepth 4000 in
theorem and_0xf8_eq (c : UInt8) :
    c &&& 0xf8 = 0xf0 ↔ 0xf0 ≤ c.toNat ∧ c.toNat < 0xf8 := by
  cases c with
  | ofBitVec bits =>
      revert bits
      decide

set_option maxRecDepth 4000 in
theorem and_0xc0_eq (c : UInt8) :
    c &&& 0xc0 = 0x80 ↔ 0x80 ≤ c.toNat ∧ c.toNat ≤ 0xbf := by
  cases c with
  | ofBitVec bits =>
      revert bits
      decide

set_option maxRecDepth 4000 in
theorem neverUsed_iff (c : UInt8) :
    neverUsed c = true ↔ 0xf4 < c.toNat ∨ c.toNat = 0xc0 ∨ c.toNat = 0xc1 := by
  cases c with
  | ofBitVec bits =>
      revert bits
      decide

theorem agrees_startByte {c : UInt8} (used : neverUsed c = false) :
    Agrees (startByte c) (lead c.toNat) := by
  have used : ¬(0xf4 < c.toNat ∨ c.toNat = 0xc0 ∨ c.toNat = 0xc1) := by
    rw [← neverUsed_iff, used]
    exact Bool.false_ne_true
  simp only [startByte, and_0x80_eq_zero, and_0xe0_eq, and_0xf0_eq,
    and_0xf8_eq]
  by_cases one : c.toNat < 0x80
  · rw [if_pos one, lead_eq .start one]
    exact ⟨trivial, rfl⟩
  rw [if_neg one]
  by_cases two : 0xc0 ≤ c.toNat ∧ c.toNat < 0xe0
  · rw [if_pos two, lead_eq .tail1 ⟨by omega, two.2⟩]
    exact ⟨Or.inl rfl, rfl⟩
  rw [if_neg two]
  by_cases three : 0xe0 ≤ c.toNat ∧ c.toNat < 0xf0
  · rw [if_pos three]
    rcases Decidable.em (c.toNat = 0xe0) with first | later
    · rw [lead_eq .afterE0 first]
      have isE0 : c = 0xe0 := UInt8.toNat_inj.mp first
      subst isE0
      exact ⟨Or.inl ⟨rfl, Or.inr rfl⟩, rfl⟩
    · rcases Decidable.em (c.toNat = 0xed) with surrogate | other
      · rw [lead_eq .afterED surrogate]
        have isED : c = 0xed := UInt8.toNat_inj.mp surrogate
        subst isED
        exact ⟨Or.inl ⟨rfl, Or.inl rfl⟩, rfl⟩
      · rw [lead_eq .tail2 ⟨by omega, three.2, other⟩]
        have notE0 : (c == 0xe0) = false :=
          beq_eq_false_iff_ne.mpr fun equality =>
            later (congrArg UInt8.toNat equality)
        have notED : (c == 0xed) = false :=
          beq_eq_false_iff_ne.mpr fun equality =>
            other (congrArg UInt8.toNat equality)
        rw [notE0, notED]
        exact ⟨Or.inl ⟨rfl, Or.inl rfl⟩, rfl⟩
  rw [if_neg three]
  by_cases four : 0xf0 ≤ c.toNat ∧ c.toNat < 0xf8
  · rw [if_pos four]
    rcases Decidable.em (c.toNat = 0xf0) with first | later
    · rw [lead_eq .afterF0 first]
      have isF0 : c = 0xf0 := UInt8.toNat_inj.mp first
      subst isF0
      exact ⟨⟨rfl, Or.inr rfl⟩, rfl⟩
    · have notF0 : (c == 0xf0) = false :=
        beq_eq_false_iff_ne.mpr fun equality =>
          later (congrArg UInt8.toNat equality)
      rw [notF0]
      rcases Decidable.em (c.toNat = 0xf4) with last | other
      · rw [lead_eq .afterF4 last]
        have isF4 : c = 0xf4 := UInt8.toNat_inj.mp last
        subst isF4
        exact ⟨⟨rfl, Or.inl rfl⟩, rfl⟩
      · have notF4 : (c == 0xf4) = false :=
          beq_eq_false_iff_ne.mpr fun equality =>
            other (congrArg UInt8.toNat equality)
        rw [notF4, lead_eq .tail3 ⟨by omega, by omega⟩]
        exact ⟨⟨rfl, Or.inl rfl⟩, rfl⟩
  · rw [if_neg four, lead, if_neg one, if_pos (by omega)]
    trivial

theorem position_eq_start_iff (state : Utf8State) :
    state.position = .start ↔ state.pointRemain = 0 := by
  rcases state with ⟨remain, width, surrogate, overlong, max⟩
  match remain with
  | 0 => simp [Utf8State.position]
  | 1 => simp [Utf8State.position]
  | 2 =>
      simp only [Utf8State.position]
      split_ifs <;> simp
  | remain + 3 =>
      simp only [Utf8State.position]
      split_ifs <;> simp

variable {state : Utf8State}

/-- One byte is owed: only its range is checked. -/
theorem agrees_one_owed (coherent : state.Coherent)
    (owes : state.pointRemain = 1)
    (c : UInt8) :
    Agrees (continuationByte state c) (within 0x80 0xbf .start c.toNat) := by
  rcases state with ⟨remain, width, surrogate, overlong, max⟩
  cases owes
  simp only [continuationByte, and_0xc0_eq, checkWidth3, checkWidth4,
    UInt8.lt_iff_toNat_lt, gt_iff_lt, ge_iff_le,
    UInt8.le_iff_toNat_le]
  rcases coherent with two | ⟨three, checked⟩ | four
  · cases two
    simp only [within, utf8Width3, utf8Width4]
    split_ifs <;> simp_all [Agrees, Utf8State.Coherent, Utf8State.position]
  · cases three
    cases checked
    simp only [within, utf8Width3]
    split_ifs
    all_goals simp_all [Agrees, Utf8State.Coherent, Utf8State.position, c3Min]
    omega
  · cases four
    simp only [within, utf8Width3, utf8Width4]
    split_ifs <;>
      simp_all [Agrees, Utf8State.Coherent, Utf8State.position,
        c4Min, c4Max] <;> omega

/-- Two bytes are owed: in a character of three bytes this is the byte whose
range depends on the first. -/
theorem agrees_two_owed (coherent : state.Coherent)
    (owes : state.pointRemain = 2)
    (c : UInt8) :
    Agrees (continuationByte state c) (step state.position c.toNat) := by
  rcases state with ⟨remain, width, surrogate, overlong, max⟩
  cases owes
  simp only [continuationByte, and_0xc0_eq, checkWidth3, checkWidth4,
    UInt8.lt_iff_toNat_lt, gt_iff_lt, ge_iff_le,
    UInt8.le_iff_toNat_le]
  rcases coherent with ⟨three, checked⟩ | four
  · cases three
    cases overlong <;> cases surrogate <;>
      simp_all [Utf8State.position, step, within, utf8Width3, c3Min]
    all_goals
      split_ifs <;>
        simp_all [Agrees, Utf8State.Coherent, Utf8State.position,
          utf8Width2, utf8Width3] <;> omega
  · cases four
    show Agrees _ (step .tail2 c.toNat)
    simp only [step, within, utf8Width3, utf8Width4]
    split_ifs <;>
      simp_all [Agrees, Utf8State.Coherent, Utf8State.position,
        c4Min, c4Max, utf8Width4] <;> omega

/-- Three bytes are owed: the range of the second of four bytes depends on the
first. -/
theorem agrees_three_owed (coherent : state.Coherent)
    (owes : state.pointRemain = 3)
    (c : UInt8) :
    Agrees (continuationByte state c) (step state.position c.toNat) := by
  rcases state with ⟨remain, width, surrogate, overlong, max⟩
  cases owes
  simp only [continuationByte, and_0xc0_eq, checkWidth3, checkWidth4,
    UInt8.lt_iff_toNat_lt, gt_iff_lt, ge_iff_le,
    UInt8.le_iff_toNat_le]
  rcases coherent with ⟨four, checked⟩
  cases four
  cases overlong <;> cases max <;>
    simp_all [Utf8State.position, step, within, utf8Width3,
      utf8Width4, c4Min, c4Max]
  all_goals
    split_ifs <;>
      simp_all [Agrees, Utf8State.Coherent, Utf8State.position,
        utf8Width3, utf8Width4] <;> omega

theorem agrees_continuationByte (coherent : state.Coherent)
    (owes : state.pointRemain ≠ 0)
    (c : UInt8) :
    Agrees (continuationByte state c) (step state.position c.toNat) := by
  rcases Nat.lt_or_ge state.pointRemain 4 with few | many
  · have counted :
        state.pointRemain = 1 ∨ state.pointRemain = 2 ∨
          state.pointRemain = 3 := by
      omega
    rcases counted with one | two | three
    · have stands : state.position = .tail1 := by
        rcases state with ⟨remain, width, surrogate, overlong, max⟩
        cases one
        rfl
      rw [stands]
      exact agrees_one_owed coherent one c
    · exact agrees_two_owed coherent two c
    · exact agrees_three_owed coherent three c
  · rcases state with ⟨remain, width, surrogate, overlong, max⟩
    match remain with
    | remain + 4 => exact False.elim coherent

/-- A byte takes the validator where it takes the recogniser. -/
theorem agrees_checkByte (coherent : state.Coherent) (c : UInt8) :
    Agrees (checkByte state c) (step state.position c.toNat) := by
  rw [checkByte]
  by_cases used : neverUsed c = true
  · rw [if_pos used]
    have refused : step state.position c.toNat = none := by
      rw [neverUsed_iff] at used
      cases state.position <;>
        simp only [step, lead, within] <;> split_ifs <;> first | rfl | omega
    rw [refused]
    trivial
  · rw [if_neg used]
    have used : neverUsed c = false := Bool.not_eq_true _ ▸ used
    by_cases between : state.pointRemain = 0
    · rw [if_pos between, (position_eq_start_iff state).mpr between]
      exact agrees_startByte used
    · rw [if_neg between]
      exact agrees_continuationByte coherent between c

theorem run_ascii {bytes : Bytes} (ascii : ∀ byte ∈ bytes, byte &&& 0x80 = 0)
    (rest : Bytes) :
    run .start (bytes ++ rest) = run .start rest := by
  induction bytes with
  | nil => rfl
  | cons byte later ih =>
      have here : byte.toNat < 0x80 :=
        (and_0x80_eq_zero byte).mp (ascii byte List.mem_cons_self)
      rw [List.cons_append, run_cons_of_lead .start here]
      exact
        ih fun other member => ascii other (List.mem_cons_of_mem byte member)

theorem asciiQuartet_split {c : UInt8} {rest : Bytes}
    (quartet : asciiQuartet c rest = true) :
    3 ≤ rest.length ∧ ∀ byte ∈ c :: rest.take 3, byte &&& 0x80 = 0 := by
  rw [asciiQuartet, Bool.and_eq_true, decide_eq_true_iff,
    List.all_eq_true] at quartet
  exact ⟨quartet.1, fun byte member => beq_iff_eq.mp (quartet.2 byte member)⟩

theorem checkBytes_skip (skip : Nat) (state : Utf8State) (bytes : Bytes) :
    checkBytes skip state bytes = checkBytes 0 state (bytes.drop skip) := by
  induction skip generalizing bytes with
  | zero => rfl
  | succ skip ih =>
      cases bytes with
      | nil => rfl
      | cons byte rest => exact ih rest

/-- The loop ends where the recogniser does. -/
theorem agrees_checkBytes (coherent : state.Coherent) (bytes : Bytes) :
    Agrees (checkBytes 0 state bytes) (run state.position bytes) := by
  induction measured : bytes.length using Nat.strong_induction_on
    generalizing state bytes with
  | _ size ih =>
      cases bytes with
      | nil => exact ⟨coherent, rfl⟩
      | cons c rest =>
          rw [List.length_cons] at measured
          rw [checkBytes]
          split
          · next shortcut =>
              rw [Bool.and_eq_true, Bool.and_eq_true,
                decide_eq_true_iff] at shortcut
              rcases shortcut with ⟨⟨_, between⟩, quartet⟩
              rcases asciiQuartet_split quartet with ⟨_, ascii⟩
              have skipped :=
                ih _ (by rw [List.length_drop]; omega)
                  coherent (rest.drop 3) rfl
              rw [(position_eq_start_iff state).mpr between] at skipped ⊢
              have passed := run_ascii ascii (rest.drop 3)
              rw [List.cons_append, List.take_append_drop] at passed
              rw [checkBytes_skip, passed]
              exact skipped
          · have stepped := agrees_checkByte coherent c
            rw [run_cons]
            generalize checkByte state c = after at stepped
            generalize step state.position c.toNat = next at stepped
            match after, next, stepped with
            | some after, some next, stepped =>
                rw [← stepped.2]
                exact ih rest.length (by omega) stepped.1 rest rfl
            | none, none, _ => trivial

/-! ## The validator -/

/-- The call is fine with bytes the recogniser accepts, up to a character's end
if they are the last ones. -/
theorem ymoCheckUtf8_accepts (coherent : state.Coherent) {buffer : Bytes}
    {position : Position}
    (accepted : run state.position buffer = some position)
    {done : Bool}
    (finished : done = true → position = .start) :
    ∃ later,
      ymoCheckUtf8 state buffer done = .ok later ∧
        later.Coherent ∧ later.position = position := by
  have checked := agrees_checkBytes coherent buffer
  rw [accepted] at checked
  rw [ymoCheckUtf8]
  generalize checkBytes 0 state buffer = after at checked
  match after, checked with
  | some later, ⟨coherent, stands⟩ =>
      refine ⟨later, ?_, coherent, stands⟩
      refine if_neg ?_
      rintro ⟨owes, isDone⟩
      rw [finished isDone, position_eq_start_iff] at stands
      exact owes stands

/-- Every other call fails. -/
theorem ymoCheckUtf8_refuses
    (coherent : state.Coherent)
    {buffer : Bytes}
    {done : Bool}
    (refused :
      ∀ position,
        run state.position buffer = some position →
          done = true ∧ position ≠ .start) :
    ymoCheckUtf8 state buffer done = .error eilseq := by
  have checked := agrees_checkBytes coherent buffer
  rw [ymoCheckUtf8]
  generalize checkBytes 0 state buffer = after at checked
  generalize run state.position buffer = accepted at checked refused
  match after, accepted, checked with
  | none, none, _ => rfl
  | some later, some position, ⟨_, stands⟩ =>
      rcases refused position rfl with ⟨isDone, unfinished⟩
      refine if_pos ⟨?_, isDone⟩
      intro between
      rw [← position_eq_start_iff, stands] at between
      exact unfinished between

theorem coherent_ymoUtf8StateReset : ymoUtf8StateReset.Coherent :=
  trivial

/-- What a call comes to, by the recogniser. -/
theorem ymoCheckUtf8_cases (coherent : state.Coherent) (buffer : Bytes)
    (done : Bool) :
    (∃ position later,
        run state.position buffer = some position ∧
          ymoCheckUtf8 state buffer done = .ok later ∧
            later.Coherent ∧ later.position = position ∧
              (done = true → position = .start)) ∨
      (ymoCheckUtf8 state buffer done = .error eilseq ∧
        ∀ position,
          run state.position buffer = some position →
            done = true ∧ position ≠ .start) := by
  by_cases accepted :
      ∃ position,
        run state.position buffer = some position ∧
          (done = true → position = .start)
  · rcases accepted with ⟨position, ran, finished⟩
    rcases ymoCheckUtf8_accepts coherent ran finished
      with ⟨later, checked, stillCoherent, stands⟩
    exact
      Or.inl ⟨position, later, ran, checked, stillCoherent, stands, finished⟩
  · have refused :
        ∀ position,
          run state.position buffer = some position →
            done = true ∧ position ≠ .start := by
      intro position ran
      by_contra fine
      refine accepted ⟨position, ran, ?_⟩
      intro isDone
      by_contra unfinished
      exact fine ⟨isDone, unfinished⟩
    exact Or.inr ⟨ymoCheckUtf8_refuses coherent refused, refused⟩

/-! ## States that stand alike -/

/-- Two states the validator goes on from in the same way. -/
structure Alike (left right : Utf8State) : Prop where
  coherent : left.Coherent
  coherent' : right.Coherent
  stands : left.position = right.position

theorem Alike.refl (coherent : state.Coherent) : Alike state state :=
  ⟨coherent, coherent, rfl⟩

theorem Alike.symm {left right : Utf8State} (alike : Alike left right) :
    Alike right left :=
  ⟨alike.coherent', alike.coherent, alike.stands.symm⟩

theorem Alike.trans {left middle right : Utf8State} (first : Alike left middle)
    (second : Alike middle right) :
    Alike left right :=
  ⟨first.coherent, second.coherent', first.stands.trans second.stands⟩

/-- Results of the validator that no caller can tell apart. -/
def CheckAlike :
    Except Errno Utf8State → Except Errno Utf8State → Prop
  | .ok left, .ok right => Alike left right
  | .error left, .error right => left = right
  | _, _ => False

theorem checkAlike_ymoCheckUtf8 {left right : Utf8State}
    (alike : Alike left right)
    (buffer : Bytes)
    (done : Bool) :
    CheckAlike (ymoCheckUtf8 left buffer done)
      (ymoCheckUtf8 right buffer done) := by
  rcases ymoCheckUtf8_cases alike.coherent buffer done
    with ⟨position, later, ran, checked, coherent, stands, finished⟩ |
      ⟨refused, why⟩
  · rw [alike.stands] at ran
    rcases ymoCheckUtf8_accepts alike.coherent' ran finished
      with ⟨later', checked', coherent', stands'⟩
    rw [checked, checked']
    exact ⟨coherent, coherent', stands.trans stands'.symm⟩
  · rw [alike.stands] at why
    rw [refused, ymoCheckUtf8_refuses alike.coherent' why]
    rfl

/-- The bytes of a buffer may be checked one call at a time. -/
theorem checkAlike_cons (coherent : state.Coherent) (byte : UInt8)
    (rest : Bytes)
    (done : Bool) :
    CheckAlike (ymoCheckUtf8 state (byte :: rest) done)
      (ymoCheckUtf8 state [byte] false |>.bind fun later =>
        ymoCheckUtf8 later rest done) := by
  rcases ymoCheckUtf8_cases coherent [byte] false
    with ⟨middle, later, ran, checked, stillCoherent, stands, _⟩ |
      ⟨refused, why⟩
  · have whole :
        run state.position (byte :: rest) = run later.position rest := by
      have split := run_append state.position [byte] rest
      rw [ran, Option.bind_some, ← stands] at split
      exact split
    rw [checked]
    show CheckAlike _ (ymoCheckUtf8 later rest done)
    rcases ymoCheckUtf8_cases stillCoherent rest done
      with ⟨position, last, ran, checked, lastCoherent, stands,
        finished⟩ | ⟨refused, why⟩
    · rw [← whole] at ran
      rcases ymoCheckUtf8_accepts coherent ran finished
        with ⟨last', checked', coherent', stands'⟩
      rw [checked, checked']
      exact ⟨coherent', lastCoherent, stands'.trans stands.symm⟩
    · rw [← whole] at why
      rw [refused, ymoCheckUtf8_refuses coherent why]
      rfl
  · have stopped : run state.position [byte] = none := by
      cases ran : run state.position [byte] with
      | none => rfl
      | some position => exact absurd (why position ran).1 Bool.false_ne_true
    have whole : run state.position (byte :: rest) = none := by
      have split := run_append state.position [byte] rest
      rw [stopped] at split
      exact split
    have failed : ymoCheckUtf8 state (byte :: rest) done = .error eilseq := by
      refine ymoCheckUtf8_refuses coherent ?_
      intro position ran
      rw [whole] at ran
      cases ran
    rw [refused, failed]
    rfl

end Yimmo.Core.Utf8
