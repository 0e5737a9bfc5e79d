import Mathlib.Data.UInt

/-!
# Characters

A string is a list of bytes.  Here is what is used of characters in more than one
place: the bytes of a literal, the case conversion of one character in `ymo_util.c`,
and that of ASCII, which `tolower` does in the locale `"C"`.
-/

namespace Yimmo

/-- What is read and written. -/
abbrev Bytes := List UInt8

namespace Core.Characters

/-- The bytes of a string literal. -/
def bytes (string : String) : Bytes :=
  string.toList.map fun c => UInt8.ofNat c.toNat

/-! ## Case -/

/-- `ymo_tolower`; what it computes on `int` depends on the low byte only. -/
def ymoTolower (c : UInt8) : UInt8 :=
  c ^^^ ((((0x40 - c) ^^^ (0x5a - c)) >>> 2) &&& 0x20)

/-- `ymo_toupper`, in the same way. -/
def ymoToupper (c : UInt8) : UInt8 :=
  c ^^^ ((((0x60 - c) ^^^ (0x7a - c)) >>> 2) &&& 0x20)

/-- The lower case of ASCII. -/
def asciiLower (c : UInt8) : UInt8 :=
  if 0x41 ≤ c ∧ c ≤ 0x5a then c + 0x20 else c

/-- The upper case of ASCII. -/
def asciiUpper (c : UInt8) : UInt8 :=
  if 0x61 ≤ c ∧ c ≤ 0x7a then c - 0x20 else c

end Core.Characters

end Yimmo
