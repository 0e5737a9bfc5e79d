import Mathlib.Data.List.Basic
import Mathlib.Data.List.TakeWhile
import Mathlib.Logic.Function.Basic

/-!
# Byte memory and C strings

A region of memory is a function from offsets to bytes; the region's size is
kept by whoever owns it, so a store past the end is a value of the model and
not an error of it.  A C string is read from an offset up to the first zero
byte, and never past a limit the caller knows.

The lemmas say when two memories hold the same string at an offset, and that a
store outside a range leaves the strings inside the range alone.
-/

namespace Yimmo.Lib.ByteMemory

variable
    {data : List UInt8}
    {start : Nat}

/-- What holds of every byte of a list is decided along the list, and not by going
through all bytes there are. -/
instance (priority := high) decidableForallByte
    (property : UInt8 → Prop)
    [DecidablePred property]
    (data : List UInt8) :
    Decidable (∀ byte ∈ data, property byte) :=
  List.decidableBAll property data

/-- A property of all bytes is decided by going through them. -/
theorem forall_byte {property : UInt8 → Prop}
    (each : ∀ value : Fin 256, property (UInt8.ofNat value)) :
    ∀ byte, property byte := by
  intro byte
  have here := each ⟨byte.toNat, byte.toNat_lt⟩
  rw [UInt8.ofNat_toNat] at here
  exact here

/-- A region of memory, by offset. -/
abbrev Memory : Type :=
  Nat → UInt8

/-- The region after one store. -/
def store (memory : Memory) (offset : Nat) (byte : UInt8) : Memory :=
  Function.update memory offset byte

@[simp]
theorem store_same (memory : Memory) (offset : Nat) (byte : UInt8) :
    store memory offset byte offset = byte := by
  rw [store, Function.update_self]

theorem store_other (memory : Memory) {offset other : Nat} (byte : UInt8)
    (different : other ≠ offset) :
    store memory offset byte other = memory other := by
  rw [store, Function.update_of_ne different]

/-- The region after the bytes are stored one after the other. -/
def storeAll :
    Memory → Nat → List UInt8 → Memory
  | memory, _, [] => memory
  | memory, offset, byte :: rest =>
      storeAll (store memory offset byte) (offset + 1) rest

theorem storeAll_outside (memory : Memory) (offset : Nat) (data : List UInt8)
    {other : Nat}
    (outside : other < offset ∨ offset + data.length ≤ other) :
    storeAll memory offset data other = memory other := by
  induction data generalizing memory offset with
  | nil => rfl
  | cons byte rest ih =>
      have different : other ≠ offset := by
        rw [List.length_cons] at outside
        omega
      have later : other < offset + 1 ∨ offset + 1 + rest.length ≤ other := by
        rw [List.length_cons] at outside
        omega
      rw [storeAll, ih _ _ later, store_other memory byte different]

theorem storeAll_append (memory : Memory) (offset : Nat)
    (front back : List UInt8) :
    storeAll memory offset (front ++ back) =
      storeAll (storeAll memory offset front) (offset + front.length)
        back := by
  induction front generalizing memory offset with
  | nil => rfl
  | cons byte front ih =>
      rw [List.cons_append, storeAll, storeAll, ih,
        List.length_cons, Nat.add_assoc, Nat.add_comm 1]

/-- The `length` bytes from an offset. -/
def bytesAt (memory : Memory) (start length : Nat) : List UInt8 :=
  (List.range length).map fun index => memory (start + index)

theorem bytesAt_succ (memory : Memory) (start length : Nat) :
    bytesAt memory start (length + 1) =
      memory start :: bytesAt memory (start + 1) length := by
  simp only [bytesAt, List.range_succ_eq_map, List.map_cons,
    List.map_map, Nat.add_zero, Function.comp_def, Nat.succ_eq_add_one,
    Nat.add_assoc, Nat.add_comm 1]

/-! ## Strings -/

/-- What a C string is of the bytes it is made from. -/
def cString (data : List UInt8) : List UInt8 :=
  data.takeWhile fun byte => byte != 0

theorem cString_of_not_mem (noZero : 0 ∉ data) : cString data = data := by
  unfold cString
  rw [List.takeWhile_eq_self_iff]
  intro c member
  rw [bne_iff_ne]
  rintro rfl
  exact noZero member

/-- At most `length` bytes from an offset, up to the first zero byte. -/
def cstr (memory : Memory) : Nat → Nat → List UInt8
  | 0, _ => []
  | length + 1, start =>
      if memory start = 0 then []
      else memory start :: cstr memory length (start + 1)

/-- The string at an offset, read no further than a limit. -/
def readString (memory : Memory) (limit start : Nat) : List UInt8 :=
  cstr memory (limit - start) start

variable {left right : Memory}

theorem cstr_congr {length start : Nat}
    (agree :
      ∀ offset,
        start ≤ offset → offset < start + length →
          left offset = right offset) :
    cstr left length start = cstr right length start := by
  induction length generalizing start with
  | zero => rfl
  | succ length ih =>
      have here : left start = right start :=
        agree start (Nat.le_refl start) (by omega)
      have later :
          cstr left length (start + 1) = cstr right length (start + 1) := by
        apply ih
        intro offset above below
        exact agree offset (by omega) (by omega)
      rw [cstr, cstr, here, later]

/-- Memories that agree below the limit hold the same strings below it. -/
theorem readString_congr {limit : Nat}
    (agree : ∀ offset, offset < limit → left offset = right offset)
    (start : Nat) :
    readString left limit start = readString right limit start := by
  apply cstr_congr
  intro offset above below
  exact agree offset (by omega)

/-! ## Stored bytes -/

/-- The memory holds the bytes from an offset on. -/
def Holds (memory : Memory) (start : Nat) (data : List UInt8) : Prop :=
  ∀ index byte, data[index]? = some byte → memory (start + index) = byte

variable {memory : Memory}

theorem holds_cons {byte : UInt8} {rest : List UInt8} :
    Holds memory start (byte :: rest) ↔
      memory start = byte ∧ Holds memory (start + 1) rest := by
  constructor
  · intro holds
    refine ⟨holds 0 byte rfl, ?_⟩
    intro index other found
    rw [Nat.add_assoc, Nat.add_comm 1]
    exact holds (index + 1) other found
  · rintro ⟨here, later⟩ index other found
    cases index with
    | zero =>
        cases found
        exact here
    | succ index =>
        rw [Nat.add_comm index, ← Nat.add_assoc]
        exact later index other found

theorem holds_append {front back : List UInt8} :
    Holds memory start (front ++ back) ↔
      Holds memory start front ∧ Holds memory (start + front.length) back := by
  induction front generalizing start with
  | nil =>
      constructor
      · intro holds
        refine ⟨?_, holds⟩
        intro index byte found
        cases found
      · exact And.right
  | cons byte front ih =>
      rw [List.cons_append, holds_cons, holds_cons, ih,
        List.length_cons, Nat.add_assoc, Nat.add_comm 1, and_assoc]

theorem holds_storeAll (memory : Memory) (offset : Nat) (data : List UInt8) :
    Holds (storeAll memory offset data) offset data := by
  induction data generalizing memory offset with
  | nil =>
      intro index byte found
      cases found
  | cons byte rest ih =>
      rw [holds_cons, storeAll]
      refine ⟨?_, ih _ _⟩
      rw [storeAll_outside _ _ _ (Or.inl (Nat.lt_succ_self offset)),
        store_same]

theorem Holds.of_agree {start limit : Nat} (holds : Holds left start data)
    (below : start + data.length ≤ limit)
    (agree : ∀ offset, offset < limit → right offset = left offset) :
    Holds right start data := by
  intro index byte found
  have inside := (List.getElem?_eq_some_iff.mp found).1
  rw [agree (start + index) (by omega)]
  exact holds index byte found

theorem Holds.bytesAt (holds : Holds memory start data) :
    bytesAt memory start data.length = data := by
  induction data generalizing start with
  | nil => rfl
  | cons byte rest ih =>
      rw [holds_cons] at holds
      rw [List.length_cons, bytesAt_succ, holds.1, ih holds.2]

/-- A string is stored below the limit, with a zero byte behind it. -/
structure Terminated
    (memory : Memory)
    (limit start : Nat)
    (data : List UInt8) : Prop where
  holds : Holds memory start (data ++ [0])
  below : start + data.length < limit

theorem cstr_of_holds {length start : Nat}
    (holds : Holds memory start (data ++ [0]))
    (room : data.length < length) :
    cstr memory length start = cString data := by
  induction data generalizing length start with
  | nil =>
      obtain ⟨length, rfl⟩ : ∃ more, length = more + 1 :=
        ⟨length - 1, by omega⟩
      rw [List.nil_append, holds_cons] at holds
      rw [cstr, if_pos holds.1]
      rfl
  | cons byte rest ih =>
      obtain ⟨length, rfl⟩ : ∃ more, length = more + 1 :=
        ⟨length - 1, by omega⟩
      rw [List.cons_append, holds_cons] at holds
      rw [List.length_cons] at room
      rw [cstr, holds.1, cString, List.takeWhile_cons]
      by_cases ends : byte = 0
      · rw [if_pos ends, ends]
        rfl
      · have goesOn : (byte != 0) = true := bne_iff_ne.mpr ends
        rw [if_neg ends, goesOn, if_pos rfl, ih holds.2 (by omega)]
        rfl

/-- The string that is read is the one that was stored. -/
theorem Terminated.readString {limit start : Nat}
    (terminated : Terminated memory limit start data) :
    readString memory limit start = cString data := by
  apply cstr_of_holds terminated.holds
  have below := terminated.below
  omega

/-- Stores above the limit leave a string below it alone. -/
theorem Terminated.later {limit higher start : Nat}
    (terminated : Terminated left limit start data)
    (agree : ∀ offset, offset < limit → right offset = left offset)
    (grows : limit ≤ higher) :
    Terminated right higher start data := by
  have below := terminated.below
  refine ⟨?_, by omega⟩
  apply terminated.holds.of_agree _ agree
  rw [List.length_append, List.length_singleton]
  omega

/-- Strings are what they were when memory grows above them. -/
theorem Terminated.readString_later {limit higher start : Nat}
    (terminated : Terminated left limit start data)
    (agree : ∀ offset, offset < limit → right offset = left offset)
    (grows : limit ≤ higher) :
    ByteMemory.readString right higher start =
      ByteMemory.readString left limit start := by
  rw [(terminated.later agree grows).readString, terminated.readString]

end Yimmo.Lib.ByteMemory
