import Mathlib.Algebra.GroupWithZero.Nat
import Yimmo.Lib.ByteMemory

/-!
# Base 64

`base64` is the encoding by its meaning: the bits of the bytes, six at a time,
with zeros behind the last ones and `=` for the characters that are left over.
`decode` takes four characters at a time, and gives back the bytes that their bits
make; bits that do not make a byte are dropped.

Both are stated with lists of bits, so that `decode_base64` only has to say that
numbers and bits determine each other.
-/

namespace Yimmo.Lib.Base64

open Yimmo.Lib.ByteMemory

/-! ## Bits -/

/-- The lowest bits of a number, the highest of them first. -/
def bitsBelow : Nat → Nat → List Bool
  | 0, _ => []
  | count + 1, value => value.testBit count :: bitsBelow count value

/-- The number that some bits are the digits of. -/
def number (bits : List Bool) : Nat :=
  bits.foldl (fun value bit => 2 * value + bit.toNat) 0

/-- The bits of a byte, the highest first. -/
def bitsOf (byte : UInt8) : List Bool :=
  bitsBelow 8 byte.toNat

theorem number_append (high low : List Bool) :
    number (high ++ low) = number high * 2 ^ low.length + number low := by
  have startsWith (start : Nat) :
      low.foldl (fun value bit => 2 * value + bit.toNat) start =
        start * 2 ^ low.length + number low := by
    rw [number]
    induction low generalizing start with
    | nil => simp
    | cons bit low ih =>
        rw [List.foldl_cons, List.foldl_cons, ih,
          ih (2 * 0 + bit.toNat), List.length_cons,
          Nat.pow_succ, Nat.mul_zero, Nat.zero_add, Nat.add_mul,
          Nat.mul_comm 2 start, Nat.mul_assoc start, Nat.mul_comm 2,
          Nat.add_assoc]
  rw [number, List.foldl_append, startsWith]
  rfl

theorem number_lt (bits : List Bool) : number bits < 2 ^ bits.length := by
  induction bits with
  | nil => decide
  | cons bit bits ih =>
      have split := number_append [bit] bits
      have small : number [bit] ≤ 1 := by cases bit <;> decide
      have bound : number [bit] * 2 ^ bits.length ≤ 1 * 2 ^ bits.length :=
        Nat.mul_le_mul_right _ small
      rw [List.singleton_append] at split
      rw [List.length_cons, Nat.pow_succ]
      omega

/-! ## The encoding -/

/-- The numbers of six bits each; zeros follow the last bits. -/
def sextets : List Bool → List Nat
  | [] => []
  | bit₀ :: bit₁ :: bit₂ :: bit₃ :: bit₄ :: bit₅ :: rest =>
      number [bit₀, bit₁, bit₂, bit₃, bit₄, bit₅] :: sextets rest
  | few => [number (few ++ List.replicate (6 - few.length) false)]

/-- The character of six bits. -/
def symbol (value : Nat) : UInt8 :=
  if value < 26 then UInt8.ofNat (0x41 + value)
  else if value < 52 then UInt8.ofNat (0x61 + (value - 26))
  else if value < 62 then UInt8.ofNat (0x30 + (value - 52))
  else if value = 62 then 0x2b
  else 0x2f

/-- The character for what is left over. -/
def pad : UInt8 :=
  0x3d

/-- The characters of some bytes. -/
def base64 (data : List UInt8) : List UInt8 :=
  (sextets (data.flatMap bitsOf)).map symbol ++
    List.replicate ((3 - data.length % 3) % 3) pad

/-! ## Decoding -/

/-- The six bits of a character. -/
def valueOf (c : UInt8) : Option Nat :=
  if 0x41 ≤ c ∧ c ≤ 0x5a then some (c.toNat - 0x41)
  else if 0x61 ≤ c ∧ c ≤ 0x7a then some (c.toNat - 0x61 + 26)
  else if 0x30 ≤ c ∧ c ≤ 0x39 then some (c.toNat - 0x30 + 52)
  else if c = 0x2b then some 62
  else if c = 0x2f then some 63
  else none

/-- The bytes of eight bits each; further bits are dropped. -/
def octets : List Bool → List UInt8
  | bit₀ :: bit₁ :: bit₂ :: bit₃ :: bit₄ :: bit₅ :: bit₆ :: bit₇ :: rest =>
      UInt8.ofNat
          (number [bit₀, bit₁, bit₂, bit₃, bit₄, bit₅, bit₆, bit₇]) ::
        octets rest
  | _ => []

/-- The bytes of up to four characters. -/
def quantum (chars : List UInt8) : Option (List UInt8) :=
  (chars.mapM valueOf).map fun values => octets (values.flatMap (bitsBelow 6))

/-- The bytes of a text; only the last four characters may be padded. -/
def decode : List UInt8 → Option (List UInt8)
  | [] => some []
  | c₀ :: c₁ :: c₂ :: c₃ :: rest =>
      if rest = [] ∧ c₃ = pad then
        if c₂ = pad then quantum [c₀, c₁] else quantum [c₀, c₁, c₂]
      else
        (quantum [c₀, c₁, c₂, c₃]).bind fun bytes =>
          (decode rest).map (bytes ++ ·)
  | _ => none

/-! ## Round trip -/

set_option maxRecDepth 4000 in
/-- The character of a number has the number as its value, and is no padding. -/
theorem valueOf_symbol :
    ∀ value < 64, valueOf (symbol value) = some value := by
  decide

set_option maxRecDepth 4000 in
theorem symbol_ne_pad : ∀ value < 64, symbol value ≠ pad := by
  decide

theorem bitsBelow_number (bit₀ bit₁ bit₂ bit₃ bit₄ bit₅ : Bool) :
    bitsBelow 6 (number [bit₀, bit₁, bit₂, bit₃, bit₄, bit₅]) =
      [bit₀, bit₁, bit₂, bit₃, bit₄, bit₅] := by
  cases bit₀ <;> cases bit₁ <;> cases bit₂ <;> cases bit₃ <;>
    cases bit₄ <;> cases bit₅ <;> rfl

theorem length_bitsOf (byte : UInt8) : (bitsOf byte).length = 8 :=
  rfl

set_option maxRecDepth 4000 in
theorem octets_bitsOf (byte : UInt8) (rest : List Bool) :
    octets (bitsOf byte ++ rest) = byte :: octets rest := by
  have same : ∀ byte : UInt8, UInt8.ofNat (number (bitsOf byte)) = byte :=
    forall_byte (by decide)
  exact congrArg (· :: octets rest) (same byte)

/-- The six bits of all numbers are the bits, and zeros behind them. -/
theorem sextets_spec :
    ∀ bits,
      (∀ value ∈ sextets bits, value < 64) ∧
        (sextets bits).flatMap (bitsBelow 6) =
          bits ++ List.replicate ((6 - bits.length % 6) % 6) false
  | [] => by
      constructor
      · intro value member
        nomatch member
      · rfl
  | [bit₀] => by cases bit₀ <;> decide
  | [bit₀, bit₁] => by cases bit₀ <;> cases bit₁ <;> decide
  | [bit₀, bit₁, bit₂] => by
      cases bit₀ <;> cases bit₁ <;> cases bit₂ <;> decide
  | [bit₀, bit₁, bit₂, bit₃] => by
      cases bit₀ <;> cases bit₁ <;> cases bit₂ <;> cases bit₃ <;> decide
  | [bit₀, bit₁, bit₂, bit₃, bit₄] => by
      cases bit₀ <;> cases bit₁ <;> cases bit₂ <;> cases bit₃ <;>
        cases bit₄ <;> decide
  | bit₀ :: bit₁ :: bit₂ :: bit₃ :: bit₄ :: bit₅ :: rest => by
      have later := sextets_spec rest
      constructor
      · intro value member
        rw [sextets] at member
        rcases List.mem_cons.mp member with here | inRest
        · rw [here]
          exact number_lt [bit₀, bit₁, bit₂, bit₃, bit₄, bit₅]
        · exact later.1 value inRest
      · have length :
            (bit₀ :: bit₁ :: bit₂ :: bit₃ :: bit₄ :: bit₅ ::
                rest).length % 6 =
              rest.length % 6 :=
          Nat.add_mod_right rest.length 6
        rw [length, sextets, List.flatMap_cons, later.2, bitsBelow_number]
        rfl

theorem mapM_valueOf {values : List Nat}
    (less : ∀ value ∈ values, value < 64) :
    (values.map symbol).mapM valueOf = some values := by
  induction values with
  | nil => rfl
  | cons value rest ih =>
      have later :=
        ih fun other member => less other (List.mem_cons_of_mem value member)
      rw [List.map_cons, List.mapM_cons,
        valueOf_symbol value (less value List.mem_cons_self), later]
      rfl

/-- The bytes of the characters of some bits. -/
theorem quantum_sextets (bits : List Bool) :
    quantum ((sextets bits).map symbol) =
      some
        (octets
          (bits ++ List.replicate ((6 - bits.length % 6) % 6) false)) := by
  have spec := sextets_spec bits
  rw [quantum, mapM_valueOf spec.1, Option.map_some, spec.2]

/-- Three bytes have four characters of their own. -/
theorem base64_cons (byte₀ byte₁ byte₂ : UInt8) (rest : List UInt8) :
    base64 (byte₀ :: byte₁ :: byte₂ :: rest) =
      (sextets (bitsOf byte₀ ++ (bitsOf byte₁ ++ bitsOf byte₂))).map
          symbol ++
        base64 rest := by
  have length :
      (byte₀ :: byte₁ :: byte₂ :: rest).length % 3 = rest.length % 3 :=
    Nat.add_mod_right rest.length 3
  rw [base64, length]
  rfl

/-- The bytes of a text are those it was made of. -/
theorem decode_base64 :
    ∀ data, decode (base64 data) = some data
  | [] => rfl
  | [byte₀] => by
      have text :
          decode (base64 [byte₀]) =
            quantum ((sextets (bitsOf byte₀)).map symbol) :=
        rfl
      rw [text, quantum_sextets, octets_bitsOf, length_bitsOf]
      rfl
  | [byte₀, byte₁] => by
      let bits := bitsOf byte₀ ++ bitsOf byte₁
      have last : symbol (number (bits.drop 12 ++ [false, false])) ≠ pad :=
        symbol_ne_pad _ (number_lt _)
      have text :
          decode (base64 [byte₀, byte₁]) =
            quantum ((sextets bits).map symbol) :=
        if_neg last
      rw [text, quantum_sextets, List.append_assoc, octets_bitsOf,
        octets_bitsOf, List.length_append, length_bitsOf, length_bitsOf]
      rfl
  | byte₀ :: byte₁ :: byte₂ :: rest => by
      let bits := bitsOf byte₀ ++ (bitsOf byte₁ ++ bitsOf byte₂)
      have last : symbol (number (bits.drop 18)) ≠ pad :=
        symbol_ne_pad _ (number_lt _)
      have text :
          decode ((sextets bits).map symbol ++ base64 rest) =
            (quantum ((sextets bits).map symbol)).bind fun bytes =>
              (decode (base64 rest)).map (bytes ++ ·) :=
        if_neg fun ends => last ends.2
      rw [base64_cons, text, quantum_sextets, List.append_assoc,
        List.append_assoc, octets_bitsOf, octets_bitsOf, octets_bitsOf,
        decode_base64 rest, List.length_append, List.length_append,
        length_bitsOf, length_bitsOf, length_bitsOf]
      rfl

set_option maxRecDepth 4000 in
/-- No character of a text is zero. -/
theorem zero_not_mem_base64 (data : List UInt8) : 0 ∉ base64 data := by
  have symbols : ∀ value < 64, symbol value ≠ 0 := by decide
  intro member
  rcases List.mem_append.mp member with isSymbol | isPad
  · rcases List.mem_map.mp isSymbol with ⟨value, inSextets, zero⟩
    exact symbols value ((sextets_spec _).1 value inSextets) zero
  · exact absurd (List.eq_of_mem_replicate isPad) (by decide)

end Yimmo.Lib.Base64
