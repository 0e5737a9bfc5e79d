import Mathlib.Data.Nat.Digits.Defs

/-!
# Subtraction digit by digit

Numbers are subtracted as on paper: from the lowest digit on, and a digit that is
too small borrows from the next one.  The digits are those of `Nat.ofDigits`, the
lowest first.

`ofDigits_difference` says that the digits are those of the difference, where the
highest digit may borrow from nowhere.  In a base that is a power of two each
digit has bits of its own, and `testBit_ofDigits` finds them.
-/

namespace Yimmo.Lib.Digits

/-- What a digit borrows from the next one. -/
def borrowOf (minuend subtrahend borrow : Nat) : Nat :=
  if subtrahend + borrow ≤ minuend then 0 else 1

/-- A digit of the difference. -/
def digitOf (base minuend subtrahend borrow : Nat) : Nat :=
  base * borrowOf minuend subtrahend borrow + minuend - (subtrahend + borrow)

/-- The digits of the difference, and what they borrow in the end. -/
def difference (base : Nat) :
    Nat → List (Nat × Nat) → List Nat × Nat
  | borrow, [] => ([], borrow)
  | borrow, (minuend, subtrahend) :: rest =>
      let later := difference base (borrowOf minuend subtrahend borrow) rest
      (digitOf base minuend subtrahend borrow :: later.1, later.2)

section

variable {base : Nat}

theorem borrowOf_le_one (minuend subtrahend borrow : Nat) :
    borrowOf minuend subtrahend borrow ≤ 1 := by
  unfold borrowOf
  split <;> decide

/-- Digits below the base have a digit below the base. -/
theorem digitOf_spec {minuend subtrahend borrow : Nat}
    (minuendLess : minuend < base)
    (subtrahendLess : subtrahend < base)
    (borrowLess : borrow ≤ 1) :
    digitOf base minuend subtrahend borrow < base ∧
      digitOf base minuend subtrahend borrow + (subtrahend + borrow) =
        base * borrowOf minuend subtrahend borrow + minuend := by
  unfold digitOf borrowOf
  split
  · rw [Nat.mul_zero]
    omega
  · rw [Nat.mul_one]
    omega

/-- The digits are below the base. -/
def Below (base : Nat) (pairs : List (Nat × Nat)) : Prop :=
  ∀ pair ∈ pairs, pair.1 < base ∧ pair.2 < base

theorem length_difference (borrow : Nat) (pairs : List (Nat × Nat)) :
    (difference base borrow pairs).1.length = pairs.length := by
  induction pairs generalizing borrow with
  | nil => rfl
  | cons pair rest ih =>
      rw [difference, List.length_cons, List.length_cons, ih]

theorem difference_lt {borrow : Nat} {pairs : List (Nat × Nat)}
    (below : Below base pairs)
    (borrowLess : borrow ≤ 1) :
    ∀ digit ∈ (difference base borrow pairs).1, digit < base := by
  induction pairs generalizing borrow with
  | nil =>
      intro digit member
      nomatch member
  | cons pair rest ih =>
      have here := below pair List.mem_cons_self
      intro digit member
      rcases List.mem_cons.mp member with first | later
      · rw [first]
        exact (digitOf_spec here.1 here.2 borrowLess).1
      · exact
          ih
            (fun other member =>
              below other (List.mem_cons_of_mem pair member))
            (borrowOf_le_one ..) digit later

/-- Difference and subtrahend make up the minuend and what is borrowed. -/
theorem difference_add {borrow : Nat} {pairs : List (Nat × Nat)}
    (below : Below base pairs)
    (borrowLess : borrow ≤ 1) :
    Nat.ofDigits base (difference base borrow pairs).1 +
        (Nat.ofDigits base (pairs.map Prod.snd) + borrow) =
      base ^ pairs.length * (difference base borrow pairs).2 +
        Nat.ofDigits base (pairs.map Prod.fst) := by
  induction pairs generalizing borrow with
  | nil => simp [difference]
  | cons pair rest ih =>
      rcases pair with ⟨minuend, subtrahend⟩
      have here := below (minuend, subtrahend) List.mem_cons_self
      have digit := (digitOf_spec here.1 here.2 borrowLess).2
      have later :=
        ih
          (fun other member => below other (List.mem_cons_of_mem _ member))
          (borrowOf_le_one minuend subtrahend borrow)
      simp only [difference, List.map_cons, Nat.ofDigits_cons,
        List.length_cons, Nat.pow_succ]
      generalize (difference base _ rest).2 = borrowed at later ⊢
      generalize Nat.ofDigits base (difference base _ rest).1 = high at later ⊢
      generalize borrowOf minuend subtrahend borrow = carried at digit later
      calc
        digitOf base minuend subtrahend borrow + base * high +
              (subtrahend + base * Nat.ofDigits base (rest.map Prod.snd) +
                borrow) =
            (digitOf base minuend subtrahend borrow +
                (subtrahend + borrow)) +
              base * (high + Nat.ofDigits base (rest.map Prod.snd)) := by ring
        _ =
            minuend +
              base *
                (high +
                  (Nat.ofDigits base (rest.map Prod.snd) + carried)) := by
          rw [digit]
          ring
        _ = _ := by
          rw [later]
          ring

/-- The digits are those of the difference, if it is taken modulo the power of the
base. -/
theorem ofDigits_difference {pairs : List (Nat × Nat)} (oneLess : 1 < base)
    (below : Below base pairs) :
    Nat.ofDigits base (difference base 0 pairs).1 =
      (base ^ pairs.length - Nat.ofDigits base (pairs.map Prod.snd) +
        Nat.ofDigits base (pairs.map Prod.fst)) % base ^ pairs.length := by
  have sum := difference_add below (Nat.zero_le 1)
  have less :
      Nat.ofDigits base (difference base 0 pairs).1 < base ^ pairs.length := by
    have bound :=
      Nat.ofDigits_lt_base_pow_length oneLess
        (difference_lt below (Nat.zero_le 1))
    rw [length_difference] at bound
    exact bound
  have subtrahendLess :
      Nat.ofDigits base (pairs.map Prod.snd) < base ^ pairs.length := by
    have digits : ∀ digit ∈ pairs.map Prod.snd, digit < base := by
      intro digit member
      rcases List.mem_map.mp member with ⟨pair, inPairs, rfl⟩
      exact (below pair inPairs).2
    have bound := Nat.ofDigits_lt_base_pow_length oneLess digits
    rw [List.length_map] at bound
    exact bound
  have shifted :
      base ^ pairs.length - Nat.ofDigits base (pairs.map Prod.snd) +
          Nat.ofDigits base (pairs.map Prod.fst) +
          base ^ pairs.length * (difference base 0 pairs).2 =
        Nat.ofDigits base (difference base 0 pairs).1 +
          base ^ pairs.length := by
    omega
  rw [← Nat.add_mul_mod_self_left _ _ (difference base 0 pairs).2, shifted,
    Nat.add_mod_right, Nat.mod_eq_of_lt less]

end

/-! ## Bits -/

/-- The bits of a number are those of its digits. -/
theorem testBit_ofDigits {width : Nat} (positive : 0 < width)
    {digits : List Nat}
    (less : ∀ digit ∈ digits, digit < 2 ^ width)
    (index : Nat) :
    (Nat.ofDigits (2 ^ width) digits).testBit index =
      (digits.getD (index / width) 0).testBit (index % width) := by
  induction digits generalizing index with
  | nil => simp
  | cons digit digits ih =>
      have rest :=
        ih fun other member => less other (List.mem_cons_of_mem digit member)
      rw [Nat.ofDigits_cons, Nat.add_comm,
        Nat.testBit_two_pow_mul_add _ (less digit List.mem_cons_self)]
      by_cases first : index < width
      · rw [if_pos first, Nat.div_eq_of_lt first, Nat.mod_eq_of_lt first]
        rfl
      · have reached := Nat.le_of_not_lt first
        rw [if_neg first, rest, Nat.div_eq_sub_div positive reached,
          ← Nat.mod_eq_sub_mod reached]
        rfl

end Yimmo.Lib.Digits
