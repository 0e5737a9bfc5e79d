import Mathlib.Data.List.Basic
import Mathlib.Data.UInt

/-!
# Recognising UTF-8

A recogniser for UTF-8 that works a byte at a time: its positions say how many
continuation bytes are owed and which range the next one must lie in.  It is the
machine every incremental validator has to agree with.

`run_start_iff` says that the recogniser is back between characters exactly
after the encoding of a list of characters; `Char` excludes surrogates and what
lies beyond `0x10ffff`, and `String.utf8EncodeChar` gives the shortest form.
-/

namespace Yimmo.Lib.Utf8

variable {byte : UInt8}

/-- Where the recogniser stands between two bytes. -/
inductive Position where
  /-- Between characters. -/
  | start
  | tail1
  | tail2
  | tail3
  /-- After `0xe0`: `0xa0` or more, then one tail. -/
  | afterE0
  /-- After `0xed`: below `0xa0`, then one tail. -/
  | afterED
  /-- After `0xf0`: `0x90` or more, then two tails. -/
  | afterF0
  /-- After `0xf4`: below `0x90`, then two tails. -/
  | afterF4
deriving DecidableEq, Repr

/-- The position after the first byte of a character. -/
def lead (byte : Nat) : Option Position :=
  if byte < 0x80 then some .start
  else if byte < 0xc2 then none
  else if byte < 0xe0 then some .tail1
  else if byte = 0xe0 then some .afterE0
  else if byte = 0xed then some .afterED
  else if byte < 0xf0 then some .tail2
  else if byte = 0xf0 then some .afterF0
  else if byte < 0xf4 then some .tail3
  else if byte = 0xf4 then some .afterF4
  else none

/-- The position after a continuation byte of a range. -/
def within (low high : Nat) (next : Position) (byte : Nat) : Option Position :=
  if low ≤ byte ∧ byte ≤ high then some next else none

def step : Position → Nat → Option Position
  | .start => lead
  | .tail1 => within 0x80 0xbf .start
  | .tail2 => within 0x80 0xbf .tail1
  | .tail3 => within 0x80 0xbf .tail2
  | .afterE0 => within 0xa0 0xbf .tail1
  | .afterED => within 0x80 0x9f .tail1
  | .afterF0 => within 0x90 0xbf .tail2
  | .afterF4 => within 0x80 0x8f .tail2

/-- The position after the bytes, unless one of them is refused. -/
def run : Position → List UInt8 → Option Position
  | position, [] => some position
  | position, byte :: rest =>
      (step position byte.toNat).bind fun next => run next rest

@[simp]
theorem run_nil (position : Position) : run position [] = some position :=
  rfl

@[simp]
theorem run_cons (position : Position) (byte : UInt8) (rest : List UInt8) :
    run position (byte :: rest) =
      (step position byte.toNat).bind fun next => run next rest :=
  rfl

theorem run_append (position : Position) (front back : List UInt8) :
    run position (front ++ back) =
      (run position front).bind fun next => run next back := by
  induction front generalizing position with
  | nil => rfl
  | cons byte rest ih =>
      rw [List.cons_append, run_cons, run_cons, Option.bind_assoc]
      congr 1
      funext next
      exact ih next

/-! ## Bytes -/

/-- The first bytes that lead to a position. -/
def LeadRange (byte : Nat) : Position → Prop
  | .start => byte < 0x80
  | .tail1 => 0xc2 ≤ byte ∧ byte < 0xe0
  | .tail2 => 0xe0 < byte ∧ byte < 0xf0 ∧ byte ≠ 0xed
  | .tail3 => 0xf0 < byte ∧ byte < 0xf4
  | .afterE0 => byte = 0xe0
  | .afterED => byte = 0xed
  | .afterF0 => byte = 0xf0
  | .afterF4 => byte = 0xf4

theorem lead_eq_some_iff {byte : Nat} {position : Position} :
    lead byte = some position ↔ LeadRange byte position := by
  cases position <;> simp only [LeadRange] <;> grind [lead]

theorem lead_eq {byte : Nat} (position : Position)
    (range : LeadRange byte position) :
    lead byte = some position :=
  lead_eq_some_iff.mpr range

theorem within_eq_some_iff {low high byte : Nat} {next position : Position} :
    within low high next byte = some position ↔
      (low ≤ byte ∧ byte ≤ high) ∧ next = position := by
  unfold within
  constructor
  · intro accepted
    split_ifs at accepted with inside
    exact ⟨inside, Option.some.inj accepted⟩
  · rintro ⟨inside, rfl⟩
    rw [if_pos inside]

/-! ## Characters -/

theorem exists_char (scalar : Nat)
    (valid : scalar < 0xd800 ∨ 0xdfff < scalar ∧ scalar < 0x110000) :
    ∃ character : Char, character.val.toNat = scalar :=
  ⟨Char.ofNatAux scalar valid, rfl⟩

theorem ofNat_eq (byte : UInt8) {value : Nat} (equality : byte.toNat = value) :
    UInt8.ofNat value = byte := by
  rw [← equality, UInt8.ofNat_toNat]

/-- A continuation byte. -/
def IsTail (byte : UInt8) : Prop :=
  0x80 ≤ byte.toNat ∧ byte.toNat ≤ 0xbf

theorem exists_encoding_one {first : UInt8} (leads : first.toNat < 0x80) :
    ∃ character, String.utf8EncodeChar character = [first] := by
  rcases exists_char first.toNat (by omega) with ⟨character, scalar⟩
  refine ⟨character, ?_⟩
  simp only [String.utf8EncodeChar, scalar]
  rw [if_pos (by omega), UInt8.ofNat_toNat]

theorem exists_encoding_two {first second : UInt8}
    (leads : 0xc2 ≤ first.toNat ∧ first.toNat < 0xe0)
    (tail : IsTail second) :
    ∃ character, String.utf8EncodeChar character = [first, second] := by
  unfold IsTail at tail
  rcases
      exists_char
        ((first.toNat - 0xc0) * 64 + (second.toNat - 0x80))
        (by omega)
    with ⟨character, scalar⟩
  refine ⟨character, ?_⟩
  simp only [String.utf8EncodeChar, scalar]
  rw [if_neg (by omega), if_pos (by omega),
    ofNat_eq first (by omega),
    ofNat_eq second (by omega)]

theorem exists_encoding_three (first : UInt8) {second third : UInt8}
    (leads : 0xe0 ≤ first.toNat ∧ first.toNat < 0xf0)
    (shortest : first.toNat = 0xe0 → 0xa0 ≤ second.toNat)
    (scalars : first.toNat = 0xed → second.toNat < 0xa0)
    (tail : IsTail second)
    (last : IsTail third) :
    ∃ character, String.utf8EncodeChar character = [first, second, third] := by
  unfold IsTail at tail last
  rcases
      exists_char
        ((first.toNat - 0xe0) * 4096 + (second.toNat - 0x80) * 64 +
          (third.toNat - 0x80))
        (by omega)
    with ⟨character, scalar⟩
  refine ⟨character, ?_⟩
  simp only [String.utf8EncodeChar, scalar]
  rw [if_neg (by omega), if_neg (by omega), if_pos (by omega),
    ofNat_eq first (by omega),
    ofNat_eq second (by omega),
    ofNat_eq third (by omega)]

theorem exists_encoding_four (first : UInt8) {second third fourth : UInt8}
    (leads : 0xf0 ≤ first.toNat ∧ first.toNat ≤ 0xf4)
    (shortest : first.toNat = 0xf0 → 0x90 ≤ second.toNat)
    (scalars : first.toNat = 0xf4 → second.toNat < 0x90)
    (tail : IsTail second)
    (middle : IsTail third)
    (last : IsTail fourth) :
    ∃ character,
      String.utf8EncodeChar character = [first, second, third, fourth] := by
  unfold IsTail at tail middle last
  rcases
      exists_char
        ((first.toNat - 0xf0) * 262144 +
          (second.toNat - 0x80) * 4096 +
          (third.toNat - 0x80) * 64 + (fourth.toNat - 0x80))
        (by omega)
    with ⟨character, scalar⟩
  refine ⟨character, ?_⟩
  simp only [String.utf8EncodeChar, scalar]
  rw [if_neg (by omega), if_neg (by omega), if_neg (by omega),
    ofNat_eq first (by omega),
    ofNat_eq second (by omega),
    ofNat_eq third (by omega),
    ofNat_eq fourth (by omega)]

/-! ## Acceptance -/

theorem run_cons_eq_some {position last : Position} {rest : List UInt8}
    (accepted : run position (byte :: rest) = some last) :
    ∃ next,
      step position byte.toNat = some next ∧ run next rest = some last := by
  rw [run_cons] at accepted
  exact Option.bind_eq_some_iff.mp accepted

/-- A tail is owed: it is there, and the rest is accepted after it. -/
theorem exists_tail {position next last : Position} {low high : Nat}
    {bytes : List UInt8}
    (owes : step position = within low high next)
    (unfinished : position ≠ last)
    (accepted : run position bytes = some last) :
    ∃ byte rest,
      bytes = byte :: rest ∧
        (low ≤ byte.toNat ∧ byte.toNat ≤ high) ∧
          run next rest = some last := by
  cases bytes with
  | nil => exact absurd (Option.some.inj accepted) unfinished
  | cons byte rest =>
      rcases run_cons_eq_some accepted with ⟨middle, stepped, later⟩
      rw [owes, within_eq_some_iff] at stepped
      rcases stepped with ⟨inside, rfl⟩
      exact ⟨byte, rest, rfl, inside, later⟩

/-- Bytes that are accepted begin with the encoding of a character. -/
theorem exists_character {first : UInt8} {bytes : List UInt8}
    (accepted : run .start (first :: bytes) = some .start) :
    ∃ character rest,
      first :: bytes = String.utf8EncodeChar character ++ rest ∧
        run .start rest = some .start := by
  rcases run_cons_eq_some accepted with ⟨position, leads, later⟩
  have range : LeadRange first.toNat position := lead_eq_some_iff.mp leads
  cases position with
  | start =>
      rcases exists_encoding_one range with ⟨character, encoding⟩
      exact ⟨character, bytes, by rw [encoding]; rfl, later⟩
  | tail1 =>
      rcases exists_tail rfl (by decide) later
        with ⟨second, rest, rfl, tail, accepted⟩
      rcases exists_encoding_two range tail with ⟨character, encoding⟩
      exact ⟨character, rest, by rw [encoding]; rfl, accepted⟩
  | tail2 =>
      rcases exists_tail rfl (by decide) later
        with ⟨second, _, rfl, tail, later⟩
      rcases exists_tail rfl (by decide) later
        with ⟨third, rest, rfl, last, accepted⟩
      simp only [LeadRange] at range
      rcases exists_encoding_three first (by omega)
          (by omega) (by omega) tail last
        with ⟨character, encoding⟩
      exact ⟨character, rest, by rw [encoding]; rfl, accepted⟩
  | afterE0 =>
      rcases exists_tail rfl (by decide) later
        with ⟨second, _, rfl, tail, later⟩
      rcases exists_tail rfl (by decide) later
        with ⟨third, rest, rfl, last, accepted⟩
      simp only [LeadRange] at range
      rcases exists_encoding_three first (by omega)
          (by omega) (by omega) ⟨by omega, tail.2⟩ last
        with ⟨character, encoding⟩
      exact ⟨character, rest, by rw [encoding]; rfl, accepted⟩
  | afterED =>
      rcases exists_tail rfl (by decide) later
        with ⟨second, _, rfl, tail, later⟩
      rcases exists_tail rfl (by decide) later
        with ⟨third, rest, rfl, last, accepted⟩
      simp only [LeadRange] at range
      rcases exists_encoding_three first (by omega)
          (by omega) (by omega) ⟨tail.1, by omega⟩ last
        with ⟨character, encoding⟩
      exact ⟨character, rest, by rw [encoding]; rfl, accepted⟩
  | tail3 =>
      rcases exists_tail rfl (by decide) later
        with ⟨second, _, rfl, tail, later⟩
      rcases exists_tail rfl (by decide) later
        with ⟨third, _, rfl, middle, later⟩
      rcases exists_tail rfl (by decide) later
        with ⟨fourth, rest, rfl, last, accepted⟩
      simp only [LeadRange] at range
      rcases exists_encoding_four first (by omega)
          (by omega) (by omega) tail middle last
        with ⟨character, encoding⟩
      exact ⟨character, rest, by rw [encoding]; rfl, accepted⟩
  | afterF0 =>
      rcases exists_tail rfl (by decide) later
        with ⟨second, _, rfl, tail, later⟩
      rcases exists_tail rfl (by decide) later
        with ⟨third, _, rfl, middle, later⟩
      rcases exists_tail rfl (by decide) later
        with ⟨fourth, rest, rfl, last, accepted⟩
      simp only [LeadRange] at range
      rcases exists_encoding_four first (by omega)
          (by omega) (by omega) ⟨by omega, tail.2⟩ middle last
        with ⟨character, encoding⟩
      exact ⟨character, rest, by rw [encoding]; rfl, accepted⟩
  | afterF4 =>
      rcases exists_tail rfl (by decide) later
        with ⟨second, _, rfl, tail, later⟩
      rcases exists_tail rfl (by decide) later
        with ⟨third, _, rfl, middle, later⟩
      rcases exists_tail rfl (by decide) later
        with ⟨fourth, rest, rfl, last, accepted⟩
      simp only [LeadRange] at range
      rcases exists_encoding_four first (by omega)
          (by omega) (by omega) ⟨tail.1, by omega⟩ middle last
        with ⟨character, encoding⟩
      exact ⟨character, rest, by rw [encoding]; rfl, accepted⟩

theorem run_cons_of_lead (position : Position)
    (leads : LeadRange byte.toNat position)
    (rest : List UInt8) :
    run .start (byte :: rest) = run position rest := by
  have stepped : step .start byte.toNat = some position :=
    lead_eq position leads
  rw [run_cons, stepped, Option.bind_some]

theorem run_cons_of_tail {position next : Position} {low high : Nat}
    (owes : step position = within low high next)
    (inside : low ≤ byte.toNat ∧ byte.toNat ≤ high)
    (rest : List UInt8) :
    run position (byte :: rest) = run next rest := by
  have stepped : step position byte.toNat = some next := by
    rw [owes, within_eq_some_iff]
    exact ⟨inside, rfl⟩
  rw [run_cons, stepped, Option.bind_some]

/-- The encoding of a character leads back between characters. -/
theorem run_utf8EncodeChar (character : Char) (rest : List UInt8) :
    run .start (String.utf8EncodeChar character ++ rest) =
      run .start rest := by
  have valid := character.valid
  simp only [UInt32.isValidChar, Nat.isValidChar] at valid
  simp only [String.utf8EncodeChar]
  generalize character.val.toNat = scalar at valid
  split_ifs with one two three
  · apply run_cons_of_lead .start
    simp only [LeadRange, UInt8.toNat_ofNat']
    omega
  · refine (run_cons_of_lead .tail1 ?_ _).trans (run_cons_of_tail rfl ?_ _)
    · simp only [LeadRange, UInt8.toNat_ofNat']
      omega
    · simp only [UInt8.toNat_ofNat']
      omega
  · rcases Nat.lt_or_ge scalar 0x1000 with shortest | longer
    · refine
        (run_cons_of_lead .afterE0 ?_ _).trans
          ((run_cons_of_tail rfl ?_ _).trans
            (run_cons_of_tail rfl ?_ _))
      · simp only [LeadRange, UInt8.toNat_ofNat']
        omega
      all_goals
        simp only [UInt8.toNat_ofNat']
        omega
    · by_cases surrogateRow : 0xd000 ≤ scalar ∧ scalar < 0xe000
      · refine
          (run_cons_of_lead .afterED ?_ _).trans
            ((run_cons_of_tail rfl ?_ _).trans
              (run_cons_of_tail rfl ?_ _))
        · simp only [LeadRange, UInt8.toNat_ofNat']
          omega
        all_goals
          simp only [UInt8.toNat_ofNat']
          omega
      · refine
          (run_cons_of_lead .tail2 ?_ _).trans
            ((run_cons_of_tail rfl ?_ _).trans
              (run_cons_of_tail rfl ?_ _))
        · simp only [LeadRange, UInt8.toNat_ofNat']
          omega
        all_goals
          simp only [UInt8.toNat_ofNat']
          omega
  · rcases Nat.lt_or_ge scalar 0x40000 with shortest | longer
    · refine
        (run_cons_of_lead .afterF0 ?_ _).trans
          ((run_cons_of_tail rfl ?_ _).trans
            ((run_cons_of_tail rfl ?_ _).trans
              (run_cons_of_tail rfl ?_ _)))
      · simp only [LeadRange, UInt8.toNat_ofNat']
        omega
      all_goals
        simp only [UInt8.toNat_ofNat']
        omega
    · rcases Nat.lt_or_ge scalar 0x100000 with middle | last
      · refine
          (run_cons_of_lead .tail3 ?_ _).trans
            ((run_cons_of_tail rfl ?_ _).trans
              ((run_cons_of_tail rfl ?_ _).trans
                (run_cons_of_tail rfl ?_ _)))
        · simp only [LeadRange, UInt8.toNat_ofNat']
          omega
        all_goals
          simp only [UInt8.toNat_ofNat']
          omega
      · refine
          (run_cons_of_lead .afterF4 ?_ _).trans
            ((run_cons_of_tail rfl ?_ _).trans
              ((run_cons_of_tail rfl ?_ _).trans
                (run_cons_of_tail rfl ?_ _)))
        · simp only [LeadRange, UInt8.toNat_ofNat']
          omega
        all_goals
          simp only [UInt8.toNat_ofNat']
          omega

/-- The bytes are the UTF-8 encoding of a list of characters. -/
def WellFormed (bytes : List UInt8) : Prop :=
  ∃ text : List Char, bytes = text.flatMap String.utf8EncodeChar

theorem run_encoding (text : List Char) (rest : List UInt8) :
    run .start (text.flatMap String.utf8EncodeChar ++ rest) =
      run .start rest := by
  induction text with
  | nil => rfl
  | cons character later ih =>
      rw [List.flatMap_cons, List.append_assoc, run_utf8EncodeChar]
      exact ih

theorem length_utf8EncodeChar_pos (character : Char) :
    0 < (String.utf8EncodeChar character).length := by
  simp only [String.utf8EncodeChar]
  split_ifs <;> exact Nat.zero_lt_succ _

/--
The recogniser ends between characters exactly on the well-formed sequences: the
induction is on the bytes, a character at a time.
-/
theorem run_start_iff (bytes : List UInt8) :
    run .start bytes = some .start ↔ WellFormed bytes := by
  constructor
  · intro accepted
    induction measured : bytes.length using Nat.strong_induction_on
      generalizing bytes with
    | _ size ih =>
        cases bytes with
        | nil => exact ⟨[], rfl⟩
        | cons first bytes =>
            rcases exists_character accepted
              with ⟨character, rest, split, later⟩
            have shorter : rest.length < size := by
              rw [← measured, split, List.length_append]
              exact
                Nat.lt_add_of_pos_left (length_utf8EncodeChar_pos character)
            rcases ih _ shorter rest later rfl with ⟨text, rfl⟩
            exact ⟨character :: text, split⟩
  · rintro ⟨text, rfl⟩
    have encoded := run_encoding text []
    rw [List.append_nil] at encoded
    exact encoded

/-! ## Prefixes -/

/-- Continuation bytes that end the character of a position. -/
def completion : Position → List UInt8
  | .start => []
  | .tail1 => [0x80]
  | .tail2 => [0x80, 0x80]
  | .tail3 => [0x80, 0x80, 0x80]
  | .afterE0 => [0xa0, 0x80]
  | .afterED => [0x80, 0x80]
  | .afterF0 => [0x90, 0x80, 0x80]
  | .afterF4 => [0x80, 0x80, 0x80]

theorem run_completion (position : Position) :
    run position (completion position) = some .start := by
  cases position <;> rfl

/-- The recogniser gets somewhere exactly on the prefixes of well-formed
sequences. -/
theorem run_start_isSome_iff (bytes : List UInt8) :
    (run .start bytes).isSome ↔ ∃ rest, WellFormed (bytes ++ rest) := by
  constructor
  · intro accepted
    rcases Option.isSome_iff_exists.mp accepted with ⟨position, ran⟩
    refine ⟨completion position, ?_⟩
    rw [← run_start_iff, run_append, ran]
    exact run_completion position
  · rintro ⟨rest, wellFormed⟩
    rw [← run_start_iff, run_append] at wellFormed
    cases ran : run .start bytes with
    | none =>
        rw [ran] at wellFormed
        nomatch wellFormed
    | some position => rfl

end Yimmo.Lib.Utf8
