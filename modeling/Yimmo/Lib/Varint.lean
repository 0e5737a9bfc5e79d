import Mathlib.Algebra.GroupWithZero.Nat
import Mathlib.Data.List.Basic

/-!
# Numbers in base 128

A number is written with seven bits to a byte, the lowest first, and every byte
but the last has its highest bit set.  `Field` is that notation; it need not be the
shortest one, which is what `encode` writes.

The last byte is the first one without the highest bit, so a notation is no proper
part of another (`Field.unique`).
-/

namespace Yimmo.Lib.Varint

variable
    {digits : List UInt8}
    {value : Nat}

/-- Some bytes that denote a number. -/
inductive Field : List UInt8 → Nat → Prop where
  | last
      {c : UInt8}
      (ends : c.toNat < 128) :
      Field [c] c.toNat
  | more
      {c : UInt8}
      {digits : List UInt8}
      {value : Nat}
      (continues : 128 ≤ c.toNat)
      (rest : Field digits value) :
      Field (c :: digits) (c.toNat % 128 + 128 * value)

/-- Some bytes that each have another one behind them. -/
def Continues (digits : List UInt8) : Prop :=
  ∀ c ∈ digits, 128 ≤ c.toNat

theorem Field.ne_nil (field : Field digits value) : digits ≠ [] := by
  cases field with
  | last => exact List.cons_ne_nil _ _
  | more => exact List.cons_ne_nil _ _

/-- What begins with a number begins with one number only. -/
theorem Field.unique {digits others : List UInt8} {value other : Nat}
    (field : Field digits value)
    (otherField : Field others other)
    {rest otherRest : List UInt8}
    (same : digits ++ rest = others ++ otherRest) :
    digits = others ∧ value = other ∧ rest = otherRest := by
  induction field generalizing others other with
  | @last c ends =>
      cases otherField with
      | last =>
          rcases List.cons.inj same with ⟨rfl, rfl⟩
          exact ⟨rfl, rfl, rfl⟩
      | more continues _ =>
          rcases List.cons.inj same with ⟨rfl, _⟩
          exact absurd ends (Nat.not_lt.mpr continues)
  | @more c digits value continues field ih =>
      cases otherField with
      | last ends =>
          rcases List.cons.inj same with ⟨rfl, _⟩
          exact absurd ends (Nat.not_lt.mpr continues)
      | more _ otherField =>
          rcases List.cons.inj same with ⟨rfl, later⟩
          rcases ih otherField later with ⟨rfl, rfl, rfl⟩
          exact ⟨rfl, rfl, rfl⟩

/-- Bytes that all continue end no number. -/
theorem Field.not_continues (field : Field digits value) {rest : List UInt8} :
    ¬Continues (digits ++ rest) := by
  induction field with
  | @last c ends =>
      intro continues
      exact absurd (continues c List.mem_cons_self) (Nat.not_le.mpr ends)
  | more _ _ ih =>
      intro continues
      apply ih
      intro c member
      exact continues c (List.mem_cons_of_mem _ member)

/-- The bytes in front of the last one continue. -/
theorem Field.continues_front (field : Field digits value)
    {front back : List UInt8}
    (split : digits = front ++ back)
    (nonempty : back ≠ []) :
    Continues front := by
  induction field generalizing front with
  | @last c ends =>
      cases front with
      | nil =>
          intro other member
          exact absurd member List.not_mem_nil
      | cons first front =>
          have empty := (List.cons.inj split).2
          exact absurd (List.append_eq_nil_iff.mp empty.symm).2 nonempty
  | @more c digits value continues field ih =>
      cases front with
      | nil =>
          intro other member
          exact absurd member List.not_mem_nil
      | cons first front =>
          rcases List.cons.inj split with ⟨rfl, later⟩
          intro other member
          rcases List.mem_cons.mp member with rfl | inFront
          · exact continues
          · exact ih later other inFront

/-- Some bytes begin with a number, or they all continue. -/
theorem field_or_continues (data : List UInt8) :
    (∃ digits value rest, data = digits ++ rest ∧ Field digits value) ∨
      Continues data := by
  induction data with
  | nil =>
      right
      intro c member
      exact absurd member List.not_mem_nil
  | cons c data ih =>
      by_cases ends : c.toNat < 128
      · left
        exact ⟨[c], c.toNat, data, rfl, .last ends⟩
      · have continues := Nat.not_lt.mp ends
        rcases ih with
          ⟨digits, value, rest, split, field⟩ | all
        · left
          refine ⟨c :: digits, _, rest, ?_, .more continues field⟩
          rw [split, List.cons_append]
        · right
          intro other member
          rcases List.mem_cons.mp member with rfl | later
          · exact continues
          · exact all other later

/-- Some bytes begin with a number of so many bytes at most, or with so many bytes
that continue, or they are fewer and all continue. -/
theorem field_cases (count : Nat) (data : List UInt8) :
    (∃ digits value rest,
        data = digits ++ rest ∧ Field digits value ∧ digits.length ≤ count) ∨
      (∃ digits rest,
          data = digits ++ rest ∧ Continues digits ∧ digits.length = count) ∨
        Continues data ∧ data.length < count := by
  have front (all : Continues (data.take count)) (long : count ≤ data.length) :
      ∃ digits rest,
        data = digits ++ rest ∧ Continues digits ∧ digits.length = count :=
    ⟨data.take count, data.drop count, (List.take_append_drop ..).symm,
      all, List.length_take_of_le long⟩
  rcases field_or_continues data with
    ⟨digits, value, rest, split, field⟩ | all
  · by_cases few : digits.length ≤ count
    · exact Or.inl ⟨digits, value, rest, split, field, few⟩
    · have more : count < digits.length := Nat.not_le.mp few
      refine Or.inr (Or.inl (front ?_ ?_))
      · rw [split, List.take_append_of_le_length (Nat.le_of_lt more)]
        apply field.continues_front (List.take_append_drop count digits).symm
        intro empty
        have ends := List.drop_eq_nil_iff.mp empty
        omega
      · rw [split, List.length_append]
        omega
  · by_cases long : count ≤ data.length
    · refine Or.inr (Or.inl (front ?_ long))
      intro c member
      exact all c (List.mem_of_mem_take member)
    · exact Or.inr (Or.inr ⟨all, Nat.not_le.mp long⟩)

/-! ## The shortest notation -/

/-- The shortest bytes of a number. -/
def encode (n : Nat) : List UInt8 :=
  if n < 128 then [UInt8.ofNat n]
  else UInt8.ofNat (n % 128 + 128) :: encode (n / 128)
termination_by n

theorem field_encode (n : Nat) : Field (encode n) n := by
  induction n using encode.induct with
  | case1 n small =>
      have byte : (UInt8.ofNat n).toNat = n := by
        rw [UInt8.toNat_ofNat']
        omega
      have field : Field [UInt8.ofNat n] (UInt8.ofNat n).toNat :=
        .last (by omega)
      rw [encode, if_pos small]
      rw [byte] at field
      exact field
  | case2 n large ih =>
      have byte : (UInt8.ofNat (n % 128 + 128)).toNat = n % 128 + 128 := by
        rw [UInt8.toNat_ofNat']
        omega
      have field :
          Field (UInt8.ofNat (n % 128 + 128) :: encode (n / 128))
            ((UInt8.ofNat (n % 128 + 128)).toNat % 128 + 128 * (n / 128)) :=
        .more (by omega) ih
      have value :
          (UInt8.ofNat (n % 128 + 128)).toNat % 128 + 128 * (n / 128) = n := by
        omega
      rw [encode, if_neg large]
      rw [value] at field
      exact field

/-- Seven bits for each byte are enough. -/
theorem length_encode_le {count n : Nat} (less : n < 128 ^ (count + 1)) :
    (encode n).length ≤ count + 1 := by
  induction count generalizing n with
  | zero =>
      rw [encode, if_pos (by simpa using less)]
      exact Nat.le_refl 1
  | succ count ih =>
      rw [encode]
      split
      · exact Nat.succ_le_succ (Nat.zero_le _)
      · rw [List.length_cons]
        apply Nat.succ_le_succ
        apply ih
        rw [Nat.pow_succ] at less
        omega

/-- Fewer bytes are not. -/
theorem lt_length_encode {count n : Nat} (large : 128 ^ count ≤ n) :
    count < (encode n).length := by
  induction count generalizing n with
  | zero => exact List.length_pos_iff.mpr (field_encode n).ne_nil
  | succ count ih =>
      have positive : 0 < 128 ^ count := Nat.pow_pos (by decide)
      rw [Nat.pow_succ] at large
      rw [encode, if_neg (by omega), List.length_cons]
      apply Nat.succ_lt_succ
      apply ih
      omega

end Yimmo.Lib.Varint
