import Yimmo.Core.Characters
import Yimmo.Lib.Base64

/-!
# Base 64 encoding

This module models `ymo_base64_encode`, which takes three bytes at a time and
stores the characters one after the other, and `ymo_base64_encoded`, which
allocates the buffer for them.

The characters are those of `base64`, so that a decoder gives back the bytes.  The
buffer is too small by one byte for a third of all lengths.
-/

namespace Yimmo.Core.Base64

open Yimmo.Lib.Base64
open Yimmo.Lib.ByteMemory

/-- `YMO_BASE64_TABLE`. -/
def ymoBase64Table : Bytes :=
  "ABCDEFGHIJKLMNOPQRSTUVWXYZabcdefghijklmnopqrstuvwxyz0123456789+/".toList.map
    fun c => UInt8.ofNat c.toNat

/-- `YMO_BASE64_TABLE[index]`. -/
def tableAt (index : UInt8) : UInt8 :=
  ymoBase64Table.getD index.toNat 0

/-- `YMO_B64_PAD`. -/
def ymoB64Pad : UInt8 :=
  0x3d

/-- `ymo_base64_encode`: the bytes that are stored from `dst` on. -/
def ymoBase64Encode : Bytes → Bytes
  | src₀ :: src₁ :: src₂ :: rest =>
      tableAt ((src₀ >>> 2) &&& 0x3f) ::
        tableAt (((src₀ &&& 0x03) <<< 4) ||| (src₁ >>> 4)) ::
          tableAt (((src₁ &&& 0x0f) <<< 2) ||| (src₂ >>> 6)) ::
            tableAt (src₂ &&& 0x3f) :: ymoBase64Encode rest
  | [src₀, src₁] =>
      [tableAt ((src₀ >>> 2) &&& 0x3f),
        tableAt (((src₀ &&& 0x03) <<< 4) ||| (src₁ >>> 4)),
        tableAt ((src₁ &&& 0x0f) <<< 2), ymoB64Pad, 0]
  | [src₀] =>
      [tableAt ((src₀ >>> 2) &&& 0x3f), tableAt ((src₀ &&& 0x03) <<< 4),
        ymoB64Pad, ymoB64Pad, 0]
  | [] => [0]

/-- `YMO_BASE64_LEN(len)`, computed on `size_t`. -/
def ymoBase64Len (len : Nat) : Nat :=
  4 * (len + 2) % 2 ^ 64 / 3

/-- The argument of `YMO_ALLOC` in `ymo_base64_encoded`, computed on `size_t`. -/
def allocated (len : Nat) : Nat :=
  4 * (len + 2) % 2 ^ 64 / 3

/-! ## Six bits -/

set_option maxRecDepth 4000 in
/-- The table has the character of the number. -/
theorem tableAt_eq {index : UInt8} {bits : List Bool}
    (same : index.toNat = number bits)
    (six : bits.length = 6) :
    tableAt index = symbol (number bits) := by
  have table : ∀ value < 64, ymoBase64Table.getD value 0 = symbol value := by
    decide
  have less := number_lt bits
  rw [six] at less
  rw [tableAt, same]
  exact table _ less

/-- The lowest bits of a byte and the highest ones of the next one. -/
theorem tableAt_or {left right : UInt8} {high low : List Bool}
    (leftNumber : left.toNat = number high * 2 ^ low.length)
    (rightNumber : right.toNat = number low)
    (six : (high ++ low).length = 6) :
    tableAt (left ||| right) = symbol (number (high ++ low)) := by
  refine tableAt_eq ?_ six
  rw [UInt8.toNat_or, leftNumber, rightNumber, number_append,
    ← Nat.shiftLeft_eq, Nat.shiftLeft_add_eq_or_of_lt (number_lt low)]

set_option maxRecDepth 4000 in
/-- The parts of a byte: six and two bits, four and four, two and six. -/
theorem toNat_highSix :
    ∀ byte : UInt8,
      ((byte >>> 2) &&& 0x3f).toNat = number ((bitsOf byte).take 6) :=
  forall_byte (by decide)

set_option maxRecDepth 4000 in
theorem toNat_lowTwo :
    ∀ byte : UInt8,
      ((byte &&& 0x03) <<< 4).toNat = number ((bitsOf byte).drop 6) * 2 ^ 4 :=
  forall_byte (by decide)

set_option maxRecDepth 4000 in
theorem toNat_highFour :
    ∀ byte : UInt8, (byte >>> 4).toNat = number ((bitsOf byte).take 4) :=
  forall_byte (by decide)

set_option maxRecDepth 4000 in
theorem toNat_lowFour :
    ∀ byte : UInt8,
      ((byte &&& 0x0f) <<< 2).toNat = number ((bitsOf byte).drop 4) * 2 ^ 2 :=
  forall_byte (by decide)

set_option maxRecDepth 4000 in
theorem toNat_highTwo :
    ∀ byte : UInt8, (byte >>> 6).toNat = number ((bitsOf byte).take 2) :=
  forall_byte (by decide)

set_option maxRecDepth 4000 in
theorem toNat_lowSix :
    ∀ byte : UInt8, (byte &&& 0x3f).toNat = number ((bitsOf byte).drop 2) :=
  forall_byte (by decide)

/-! ## The encoding -/

section

variable (src₀ src₁ src₂ : UInt8)

theorem tableAt_first :
    tableAt ((src₀ >>> 2) &&& 0x3f) = symbol (number ((bitsOf src₀).take 6)) :=
  tableAt_eq (toNat_highSix src₀) rfl

theorem tableAt_second :
    tableAt (((src₀ &&& 0x03) <<< 4) ||| (src₁ >>> 4)) =
      symbol (number ((bitsOf src₀).drop 6 ++ (bitsOf src₁).take 4)) :=
  tableAt_or (toNat_lowTwo src₀) (toNat_highFour src₁) rfl

theorem tableAt_third :
    tableAt (((src₁ &&& 0x0f) <<< 2) ||| (src₂ >>> 6)) =
      symbol (number ((bitsOf src₁).drop 4 ++ (bitsOf src₂).take 2)) :=
  tableAt_or (toNat_lowFour src₁) (toNat_highTwo src₂) rfl

theorem tableAt_fourth :
    tableAt (src₂ &&& 0x3f) = symbol (number ((bitsOf src₂).drop 2)) :=
  tableAt_eq (toNat_lowSix src₂) rfl

theorem tableAt_lastTwo :
    tableAt ((src₀ &&& 0x03) <<< 4) =
      symbol
        (number ((bitsOf src₀).drop 6 ++ [false, false, false, false])) := by
  refine tableAt_eq ?_ rfl
  rw [toNat_lowTwo, number_append]
  rfl

theorem tableAt_lastFour :
    tableAt ((src₁ &&& 0x0f) <<< 2) =
      symbol (number ((bitsOf src₁).drop 4 ++ [false, false])) := by
  refine tableAt_eq ?_ rfl
  rw [toNat_lowFour, number_append]
  rfl

end

/-- The characters are those of the encoding, and a zero is behind them. -/
theorem ymoBase64Encode_eq :
    ∀ data, ymoBase64Encode data = base64 data ++ [0]
  | [] => rfl
  | [src₀] => by
      rw [ymoBase64Encode, tableAt_first, tableAt_lastTwo]
      rfl
  | [src₀, src₁] => by
      rw [ymoBase64Encode, tableAt_first, tableAt_second, tableAt_lastFour]
      rfl
  | src₀ :: src₁ :: src₂ :: rest => by
      rw [ymoBase64Encode, tableAt_first, tableAt_second, tableAt_third,
        tableAt_fourth, ymoBase64Encode_eq rest, base64_cons]
      rfl

/-- The string that was stored with a zero behind it. -/
theorem cString_terminated {data : Bytes} (noZero : 0 ∉ data) :
    cString (data ++ [0]) = data := by
  have nonzero : ∀ byte ∈ data, (byte != 0) = true := by
    intro byte member
    rw [bne_iff_ne]
    rintro rfl
    exact noZero member
  rw [cString, List.takeWhile_append_of_pos nonzero]
  exact List.append_nil data

/-- What is stored is the encoding and a zero, and the text in front of the zero
decodes to the bytes. -/
theorem base64_encode_round_trip (data : Bytes) :
    ymoBase64Encode data = base64 data ++ [0] ∧
      decode (cString (ymoBase64Encode data)) = some data := by
  have stored := ymoBase64Encode_eq data
  refine ⟨stored, ?_⟩
  rw [stored, cString_terminated (zero_not_mem_base64 data)]
  exact decode_base64 data

/-! ## The buffer -/

/-- Four characters are stored for three bytes or what is left of them, and a
zero. -/
theorem length_ymoBase64Encode :
    ∀ data, (ymoBase64Encode data).length = 4 * ((data.length + 2) / 3) + 1
  | [] => rfl
  | [src₀] => by simp only [ymoBase64Encode, List.length_cons, List.length_nil]
  | [src₀, src₁] => by
      simp only [ymoBase64Encode, List.length_cons, List.length_nil]
  | src₀ :: src₁ :: src₂ :: rest => by
      have later := length_ymoBase64Encode rest
      have count : (src₀ :: src₁ :: src₂ :: rest).length = rest.length + 3 :=
        rfl
      simp only [ymoBase64Encode, List.length_cons] at later ⊢
      rw [later]
      omega

/-- What is stored fits in the size the macro gives, and in the one that is
allocated. -/
def Fits (data : Bytes) : Prop :=
  (ymoBase64Encode data).length ≤ ymoBase64Len data.length ∧
    (ymoBase64Encode data).length ≤ allocated data.length

/-- The zero is stored behind the buffer if a single byte is left over. -/
theorem base64_fits_iff (data : Bytes)
    (representable : 4 * (data.length + 2) < 2 ^ 64) :
    Fits data ↔ data.length % 3 ≠ 1 := by
  rw [Fits, length_ymoBase64Encode, ymoBase64Len, allocated,
    Nat.mod_eq_of_lt representable]
  omega

theorem base64_fits_hash : Fits (List.replicate 20 0) :=
  (base64_fits_iff (List.replicate 20 0) (by decide)).mpr (by decide)

/-- Five bytes are stored for one byte, and four are allocated. -/
theorem base64_overruns :
    (ymoBase64Encode [0x41]).length = 5 ∧ allocated 1 = 4 ∧
      ymoBase64Len 1 = 4 ∧ ¬Fits [0x41] := by
  refine ⟨by decide, by decide, by decide, ?_⟩
  intro fits
  exact absurd fits.2 (by decide)

end Yimmo.Core.Base64
