import Mathlib.Data.List.Basic
import Mathlib.Data.UInt

/-!
# JSON texts of strings, arrays and objects

The values of RFC 8259 that are made of strings, arrays and objects, how they are
written, and a reader.  The reader skips blanks between tokens and refuses the
escapes in a string, so it reads a part of the texts, and each of them as the value
that it is.
-/

namespace Yimmo.Lib.JsonTexts

mutual

inductive Json where
  | string (text : List UInt8)
  | array (items : Items)
  | object (members : Members)

inductive Items where
  | nil
  | cons (item : Json) (items : Items)

inductive Members where
  | nil
  | cons (name : List UInt8) (value : Json) (members : Members)

end

/-! ## Writing -/

/-- A string between quotation marks. -/
def quoted (text : List UInt8) : List UInt8 :=
  0x22 :: (text ++ [0x22])

mutual

/-- The text of a value; elements are separated by a comma and a blank. -/
def Json.text : Json → List UInt8
  | .string text => quoted text
  | .array items => 0x5b :: (items.text ++ [0x5d])
  | .object members => 0x7b :: (members.text ++ [0x7d])

def Items.text : Items → List UInt8
  | .nil => []
  | .cons item items => item.text ++ items.rest

/-- The items behind another one. -/
def Items.rest : Items → List UInt8
  | .nil => []
  | .cons item items => 0x2c :: 0x20 :: (item.text ++ items.rest)

def Members.text : Members → List UInt8
  | .nil => []
  | .cons name value members =>
      quoted name ++ 0x3a :: (value.text ++ members.rest)

/-- The members behind another one. -/
def Members.rest : Members → List UInt8
  | .nil => []
  | .cons name value members =>
      0x2c :: 0x20 :: (quoted name ++ 0x3a :: (value.text ++ members.rest))

end

/-- The bytes of a string that are written as they are. -/
def CleanText (text : List UInt8) : Prop :=
  ∀ c ∈ text, 0x20 ≤ c ∧ c ≠ 0x22 ∧ c ≠ 0x5c

mutual

/-- Every string of the value is written as it is. -/
def Json.Clean : Json → Prop
  | .string text => CleanText text
  | .array items => items.Clean
  | .object members => members.Clean

def Items.Clean : Items → Prop
  | .nil => True
  | .cons item items => item.Clean ∧ items.Clean

def Members.Clean : Members → Prop
  | .nil => True
  | .cons name value members => CleanText name ∧ value.Clean ∧ members.Clean

end

mutual

/-- The number of values. -/
def Json.size : Json → Nat
  | .string _ => 1
  | .array items => items.size + 1
  | .object members => members.size + 1

def Items.size : Items → Nat
  | .nil => 1
  | .cons item items => item.size + items.size

def Members.size : Members → Nat
  | .nil => 1
  | .cons _ value members => value.size + members.size

end

/-! ## Reading -/

/-- A blank between two tokens. -/
def blank (c : UInt8) : Bool :=
  c == 0x20 || c == 0x09 || c == 0x0a || c == 0x0d

/-- What is left behind the blanks. -/
def skip (input : List UInt8) : List UInt8 :=
  input.dropWhile blank

/-- The string up to its quotation mark, and what follows. -/
def readString : List UInt8 → Option (List UInt8 × List UInt8)
  | [] => none
  | c :: rest =>
      if c = 0x22 then some ([], rest)
      else if c < 0x20 ∨ c = 0x5c then none
      else (readString rest).map fun (text, rest) => (c :: text, rest)

/-- The byte, behind blanks, and what follows. -/
def expect (c : UInt8) (input : List UInt8) : Option (List UInt8) :=
  match skip input with
  | [] => none
  | first :: rest => if first = c then some rest else none

mutual

/-- A value and what follows it, with a bound on the depth of the calls. -/
def readValue : Nat → List UInt8 → Option (Json × List UInt8)
  | 0, _ => none
  | bound + 1, input =>
      match skip input with
      | [] => none
      | c :: rest =>
          if c = 0x22 then
            (readString rest).map fun (text, rest) => (.string text, rest)
          else if c = 0x5b then
            (expect 0x5d rest).elim
              ((readItems bound rest).map fun (items, rest) =>
                (.array items, rest))
              fun rest => some (.array .nil, rest)
          else if c = 0x7b then
            (expect 0x7d rest).elim
              ((readMembers bound rest).map fun (members, rest) =>
                (.object members, rest))
              fun rest => some (.object .nil, rest)
          else none

/-- Items up to the bracket. -/
def readItems : Nat → List UInt8 → Option (Items × List UInt8)
  | 0, _ => none
  | bound + 1, input =>
      (readValue bound input).bind fun (item, rest) =>
        (expect 0x5d rest).elim
          ((expect 0x2c rest).bind fun rest =>
            (readItems bound rest).map fun (items, rest) =>
              (.cons item items, rest))
          fun rest => some (.cons item .nil, rest)

/-- Members up to the brace. -/
def readMembers : Nat → List UInt8 → Option (Members × List UInt8)
  | 0, _ => none
  | bound + 1, input =>
      (expect 0x22 input).bind fun rest =>
        (readString rest).bind fun (name, rest) =>
          (expect 0x3a rest).bind fun rest =>
            (readValue bound rest).bind fun (value, rest) =>
              (expect 0x7d rest).elim
                ((expect 0x2c rest).bind fun rest =>
                  (readMembers bound rest).map
                    fun (members, rest) => (.cons name value members, rest))
                fun rest => some (.cons name value .nil, rest)

end

/-- The value of a text, with nothing but blanks behind it. -/
def read (input : List UInt8) : Option Json :=
  match readValue input.length input with
  | some (value, rest) => if skip rest = [] then some value else none
  | none => none

/-! ## Reading what was written -/

theorem readString_append {text : List UInt8} (clean : CleanText text)
    (rest : List UInt8) :
    readString (text ++ 0x22 :: rest) = some (text, rest) := by
  induction text with
  | nil => rfl
  | cons c text ih =>
      rcases clean c List.mem_cons_self with ⟨printed, noQuote, noEscape⟩
      have later := ih fun d member => clean d (List.mem_cons_of_mem c member)
      have plain : ¬ (c < 0x20 ∨ c = 0x5c) :=
        not_or.mpr ⟨UInt8.not_lt.mpr printed, noEscape⟩
      rw [List.cons_append, readString, if_neg noQuote, if_neg plain, later]
      rfl

/-- A byte that starts a value. -/
def starts (c : UInt8) : Bool :=
  c == 0x22 || c == 0x5b || c == 0x7b

theorem Json.text_starts (value : Json) :
    ∃ c rest, value.text = c :: rest ∧ starts c = true := by
  cases value with
  | string text => exact ⟨0x22, _, rfl, rfl⟩
  | array items => exact ⟨0x5b, _, rfl, rfl⟩
  | object members => exact ⟨0x7b, _, rfl, rfl⟩

theorem skip_of_starts {c : UInt8} (start : starts c = true)
    (rest : List UInt8) :
    skip (c :: rest) = c :: rest := by
  rw [skip, List.dropWhile_cons_of_neg]
  rw [starts, Bool.or_eq_true, Bool.or_eq_true, beq_iff_eq, beq_iff_eq,
    beq_iff_eq] at start
  rcases start with (rfl | rfl) | rfl
  · decide
  · decide
  · decide

theorem skip_blank (rest : List UInt8) : skip (0x20 :: rest) = skip rest :=
  List.dropWhile_cons_of_pos rfl

/-- A value does not start with another byte. -/
theorem expect_text (value : Json) {c : UInt8} (other : starts c = false)
    (rest : List UInt8) :
    expect c (value.text ++ rest) = none := by
  rcases value.text_starts with ⟨first, more, text, start⟩
  rw [expect, text, List.cons_append, skip_of_starts start]
  dsimp only
  rw [if_neg]
  rintro rfl
  exact Bool.false_ne_true (other.symm.trans start)

theorem expect_same {c : UInt8} (notBlank : blank c = false)
    (rest : List UInt8) :
    expect c (c :: rest) = some rest := by
  have here : skip (c :: rest) = c :: rest :=
    List.dropWhile_cons_of_neg (by rw [notBlank]; exact Bool.false_ne_true)
  rw [expect, here]
  exact if_pos rfl

/-- A blank in front changes nothing. -/
theorem readItems_blank (bound : Nat) (input : List UInt8) :
    readItems bound (0x20 :: input) = readItems bound input := by
  cases bound with
  | zero => rfl
  | succ bound =>
      have value : readValue bound (0x20 :: input) = readValue bound input := by
        cases bound with
        | zero => rfl
        | succ bound => rw [readValue, readValue, skip_blank]
      rw [readItems, readItems, value]

theorem readMembers_blank (bound : Nat) (input : List UInt8) :
    readMembers bound (0x20 :: input) = readMembers bound input := by
  cases bound with
  | zero => rfl
  | succ bound => rw [readMembers, readMembers, expect, expect, skip_blank]

theorem Json.size_pos (value : Json) : 0 < value.size := by
  cases value with
  | string text => exact Nat.one_pos
  | array items => exact Nat.succ_pos _
  | object members => exact Nat.succ_pos _

theorem Items.size_pos (items : Items) : 0 < items.size := by
  cases items with
  | nil => exact Nat.one_pos
  | cons item items => exact Nat.add_pos_left item.size_pos _

theorem Members.size_pos (members : Members) : 0 < members.size := by
  cases members with
  | nil => exact Nat.one_pos
  | cons name value members => exact Nat.add_pos_left value.size_pos _

/-- Reading the name and the value of a member. -/
theorem readMembers_cons {name : List UInt8} {value : Json} {members : Members}
    (cleanName : CleanText name)
    {bound : Nat}
    {rest : List UInt8}
    (readsValue :
      readValue bound (value.text ++ (members.rest ++ rest)) =
        some (value, members.rest ++ rest)) :
    readMembers (bound + 1)
        ((Members.cons name value members).text ++ rest) =
      (expect 0x7d (members.rest ++ rest)).elim
        ((expect 0x2c (members.rest ++ rest)).bind fun rest =>
          (readMembers bound rest).map fun (members, rest) =>
            (.cons name value members, rest))
        fun rest => some (.cons name value .nil, rest) := by
  have split :
      (Members.cons name value members).text ++ rest =
        0x22 ::
          (name ++
            0x22 :: 0x3a :: (value.text ++ (members.rest ++ rest))) := by
    simp only [Members.text, quoted, List.cons_append,
      List.append_assoc, List.nil_append]
  rw [split, readMembers, expect_same rfl]
  dsimp only [Option.bind_some]
  rw [readString_append cleanName]
  dsimp only [Option.bind_some]
  rw [expect_same rfl]
  dsimp only [Option.bind_some]
  rw [readsValue]
  rfl

mutual

/-- What is read from the text of a value is the value. -/
theorem Json.readValue_text (value : Json) (clean : value.Clean) {bound : Nat}
    (enough : value.size ≤ bound)
    (rest : List UInt8) :
    readValue bound (value.text ++ rest) = some (value, rest) := by
  obtain ⟨bound, rfl⟩ : ∃ more, bound = more + 1 :=
    ⟨bound - 1, by have := value.size_pos; omega⟩
  match value with
  | .string text =>
      rw [Json.text, quoted, List.cons_append, readValue,
        skip_of_starts rfl, List.append_assoc]
      dsimp only
      rw [if_pos rfl, List.singleton_append, readString_append clean]
      rfl
  | .array .nil =>
      rw [Json.text, List.cons_append, readValue, skip_of_starts rfl]
      rfl
  | .array (.cons item items) =>
      rw [Json.size] at enough
      have inner :=
        (Items.cons item items).readItems_text clean
          (Items.noConfusion) (Nat.le_of_succ_le_succ enough) rest
      have nonempty :
          expect 0x5d
              ((Items.cons item items).text ++ 0x5d :: rest) =
            none := by
        rw [Items.text, List.append_assoc]
        exact expect_text item rfl _
      rw [Json.text, List.cons_append, readValue, skip_of_starts rfl,
        List.append_assoc]
      dsimp only
      rw [if_neg (by decide), if_pos rfl, List.singleton_append, nonempty,
        inner]
      rfl
  | .object .nil =>
      rw [Json.text, List.cons_append, readValue, skip_of_starts rfl]
      rfl
  | .object (.cons name value members) =>
      rw [Json.size] at enough
      have inner :=
        (Members.cons name value members).readMembers_text clean
          (Members.noConfusion) (Nat.le_of_succ_le_succ enough) rest
      have nonempty :
          expect 0x7d
              ((Members.cons name value members).text ++ 0x7d :: rest) =
            none :=
        rfl
      rw [Json.text, List.cons_append, readValue, skip_of_starts rfl,
        List.append_assoc]
      dsimp only
      rw [if_neg (by decide), if_neg (by decide), if_pos rfl,
        List.singleton_append, nonempty, inner]
      rfl

theorem Items.readItems_text (items : Items) (clean : items.Clean)
    (some : items ≠ .nil)
    {bound : Nat}
    (enough : items.size ≤ bound)
    (rest : List UInt8) :
    readItems bound (items.text ++ 0x5d :: rest) =
      Option.some (items, rest) := by
  obtain ⟨bound, rfl⟩ : ∃ more, bound = more + 1 :=
    ⟨bound - 1, by have := items.size_pos; omega⟩
  match items with
  | .nil => exact absurd rfl some
  | .cons item .nil =>
      have sizes : item.size ≤ bound := by
        rw [Items.size, Items.size] at enough
        omega
      rw [Items.text, Items.rest, List.append_nil, readItems,
        item.readValue_text clean.1 sizes]
      rfl
  | .cons item (.cons second items) =>
      have positive := (Items.cons second items).size_pos
      have first := item.size_pos
      rw [Items.size] at enough
      have inner :=
        (Items.cons second items).readItems_text clean.2
          (Items.noConfusion) (show _ ≤ bound by omega) rest
      have sizes : item.size ≤ bound := by omega
      rw [Items.text, List.append_assoc, readItems,
        item.readValue_text clean.1 sizes]
      rw [Items.text] at inner
      dsimp only [Option.bind_some]
      rw [Items.rest, List.cons_append, List.cons_append]
      show
        (readItems bound
            (0x20 :: (second.text ++ items.rest ++ 0x5d :: rest))).map
          _ = _
      rw [readItems_blank, inner]
      rfl

theorem Members.readMembers_text (members : Members) (clean : members.Clean)
    (some : members ≠ .nil)
    {bound : Nat}
    (enough : members.size ≤ bound)
    (rest : List UInt8) :
    readMembers bound (members.text ++ 0x7d :: rest) =
      Option.some (members, rest) := by
  obtain ⟨bound, rfl⟩ : ∃ more, bound = more + 1 :=
    ⟨bound - 1, by have := members.size_pos; omega⟩
  match members with
  | .nil => exact absurd rfl some
  | .cons name value .nil =>
      have sizes : value.size ≤ bound := by
        rw [Members.size, Members.size] at enough
        omega
      rw [readMembers_cons clean.1 (value.readValue_text clean.2.1 sizes _)]
      rfl
  | .cons name value (.cons second next members) =>
      have positive := (Members.cons second next members).size_pos
      have first := value.size_pos
      rw [Members.size] at enough
      have inner :=
        (Members.cons second next members).readMembers_text clean.2.2
          (Members.noConfusion) (show _ ≤ bound by omega) rest
      have sizes : value.size ≤ bound := by omega
      rw [readMembers_cons clean.1
        (value.readValue_text clean.2.1 sizes _), Members.rest,
        List.cons_append, List.cons_append]
      rw [Members.text] at inner
      show
        (readMembers bound
            (0x20 ::
              (quoted second ++ 0x3a :: (next.text ++ members.rest) ++
                0x7d :: rest))).map
          _ = _
      rw [readMembers_blank, inner]
      rfl

end

mutual

/-- The text of a value has a byte for each value in it. -/
theorem Json.size_le (value : Json) : value.size ≤ value.text.length := by
  match value with
  | .string text =>
      rw [Json.text, quoted]
      exact Nat.succ_pos _
  | .array items =>
      have inner := items.size_le
      rw [Json.size, Json.text, List.length_cons, List.length_append]
      show items.size + 1 ≤ items.text.length + 1 + 1
      omega
  | .object members =>
      have inner := members.size_le
      rw [Json.size, Json.text, List.length_cons, List.length_append]
      show members.size + 1 ≤ members.text.length + 1 + 1
      omega

theorem Items.size_le (items : Items) :
    items.size ≤ items.text.length + 1 := by
  match items with
  | .nil => exact Nat.le_refl 1
  | .cons item .nil =>
      have here := item.size_le
      rw [Items.size, Items.text, List.length_append]
      show item.size + 1 ≤ _
      omega
  | .cons item (.cons second items) =>
      have here := item.size_le
      have later := (Items.cons second items).size_le
      rw [Items.text] at later
      rw [Items.size, Items.text, Items.rest, List.length_append,
        List.length_cons, List.length_cons]
      omega

theorem Members.size_le (members : Members) :
    members.size ≤ members.text.length + 1 := by
  match members with
  | .nil => exact Nat.le_refl 1
  | .cons name value .nil =>
      have here := value.size_le
      rw [Members.size, Members.text, List.length_append,
        List.length_cons, List.length_append]
      show value.size + 1 ≤ _
      omega
  | .cons name value (.cons second next members) =>
      have here := value.size_le
      have later := (Members.cons second next members).size_le
      rw [Members.text] at later
      rw [Members.size, Members.text, Members.rest, List.length_append,
        List.length_cons, List.length_append, List.length_cons,
        List.length_cons]
      omega

end

/-- Reading the text of a value gives the value. -/
theorem read_text (value : Json) (clean : value.Clean) :
    read value.text = some value := by
  have whole := value.readValue_text clean value.size_le []
  rw [List.append_nil] at whole
  rw [read, whole]
  rfl

end Yimmo.Lib.JsonTexts
