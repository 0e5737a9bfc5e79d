import Yimmo.Http.Response

/-!
# The status string of a response

This module models the two functions that set the status of a response on the 32
bytes of `status_str` as they are in memory.  `snprintf` and `memccpy` are both
given 31 bytes, so neither touches the last one, which is zero from the allocation
on.  So a string always ends inside of the array.

Its length is another matter.  `ymo_http_response_set_status` keeps what `snprintf`
returns, the length that the string would have had, and
`ymo_http_response_set_status_str` takes the difference of NULL and the array when
`memccpy` has found no end.  Both are wrong just where the string has more than 30
bytes (`staysSound_iff`).
-/

namespace Yimmo.Http.StatusString

open Yimmo.Lib.ByteMemory
open Yimmo.Http.Exchange
open Yimmo.Http.Parse
open Yimmo.Http.Response

/-! ## The object -/

/-- `STATUS_STR_BUFF_SIZE`. -/
def statusStrBuffSize : Nat := 32

/-- What `struct ymo_http_response` knows of its status.  There is an address behind
the last byte of an array. -/
structure ResponseStatus where
  /-- Where `status_str` begins. -/
  address : Nat
  statusStr : Bytes
  statusLen : Nat
  status : UInt16
  size : statusStr.length = statusStrBuffSize
  inside : address + statusStrBuffSize < sizeModulus

/-- `ymo_http_response_create`. -/
def ymoHttpResponseCreate (address : Nat)
    (inside : address + statusStrBuffSize < sizeModulus) :
    ResponseStatus where
  address := address
  statusStr := List.replicate statusStrBuffSize 0
  statusLen := 0
  status := 200
  size := List.length_replicate
  inside := inside

/-! ## Writing strings -/

/-- An array after its first bytes have been written. -/
def written (dst bytes : Bytes) : Bytes :=
  bytes ++ dst.drop bytes.length

theorem length_written {dst bytes : Bytes} (fits : bytes.length ≤ dst.length) :
    (written dst bytes).length = dst.length := by
  rw [written, List.length_append, List.length_drop]
  omega

theorem drop_written {dst bytes : Bytes} {count : Nat}
    (fits : bytes.length ≤ count) :
    (written dst bytes).drop count = dst.drop count := by
  rw [written, List.drop_append, List.drop_eq_nil_of_le fits,
    List.nil_append, List.drop_drop, Nat.add_sub_cancel' fits]

/-- `snprintf` of what the format makes of its arguments: the array, and the length
without the limit. -/
def snprintf (dst : Bytes) (n : Nat) (formatted : Bytes) : Bytes × Nat :=
  (written dst (formatted.take (n - 1) ++ [0]), formatted.length)

/-- `memccpy` of a string up to and with the zero byte that ends it: the array, and
how far behind its begin the pointer is that it returns. -/
def memccpy (dst string : Bytes) (n : Nat) : Bytes × Option Nat :=
  (written dst ((string ++ [0]).take n),
    if string.length < n then some (string.length + 1) else none)

theorem length_snprintf {dst : Bytes} {n : Nat} (formatted : Bytes)
    (positive : 0 < n)
    (fits : n ≤ dst.length) :
    (snprintf dst n formatted).1.length = dst.length := by
  refine length_written ?_
  rw [List.length_append, List.length_take, List.length_singleton]
  omega

theorem length_memccpy {dst : Bytes} {n : Nat} (string : Bytes)
    (fits : n ≤ dst.length) :
    (memccpy dst string n).1.length = dst.length :=
  length_written ((List.length_take_le n _).trans fits)

/-! ## The functions -/

/-- The text of a status: `"%i %s"` with `get_http_reason`. -/
def statusText (status : UInt16) : Bytes :=
  decimalDigits status.toNat ++ [space] ++
    (getHttpReason status.toNat).getD (bytes "(null)")

/-- `ymo_http_response_set_status`. -/
def ymoHttpResponseSetStatus (response : ResponseStatus) (status : UInt16) :
    ResponseStatus :=
  let printed :=
    snprintf response.statusStr statusStrMaxLen (statusText status)
  { response with
    status := status
    statusStr := printed.1
    statusLen := printed.2
    size :=
      (length_snprintf (statusText status) (by decide)
        (by rw [response.size]; decide)).trans response.size }

/-- Three digits, a space and a reason. -/
structure StatusLine where
  hundreds : UInt8
  tens : UInt8
  ones : UInt8
  reason : Bytes
  digits : isDigit hundreds = true ∧ isDigit tens = true ∧ isDigit ones = true
  noZero : 0 ∉ reason

/-- The string. -/
def StatusLine.string (line : StatusLine) : Bytes :=
  [line.hundreds, line.tens, line.ones, space] ++ line.reason

/-- `YMO_HTTP_STATUS_CHR3_TO_INT`. -/
def ymoHttpStatusChr3ToInt (line : StatusLine) : UInt16 :=
  (line.hundreds &&& 0xf).toUInt16 * 100 +
    (line.tens &&& 0xf).toUInt16 * 10 +
    (line.ones &&& 0xf).toUInt16

/-- `ymo_http_response_set_status_str`. -/
def ymoHttpResponseSetStatusStr (response : ResponseStatus)
    (line : StatusLine) :
    ResponseStatus :=
  let copied := memccpy response.statusStr line.string statusStrMaxLen
  let writeEnd : Int :=
    match copied.2 with
    | some count => response.address + count
    | none => 0
  { response with
    statusStr := copied.1
    statusLen := sizeOfLong (writeEnd - response.address - 1)
    status := ymoHttpStatusChr3ToInt line
    size :=
      (length_memccpy line.string
        (by rw [response.size]; decide)).trans response.size }

/-! ## Calls -/

/-- A call that sets the status. -/
inductive StatusCall where
  | setStatus (status : UInt16)
  | setStatusStr (line : StatusLine)

/-- The response after a call. -/
def applyCall (response : ResponseStatus) : StatusCall → ResponseStatus
  | .setStatus status => ymoHttpResponseSetStatus response status
  | .setStatusStr line => ymoHttpResponseSetStatusStr response line

/-- The string that a call is to store. -/
def StatusCall.string : StatusCall → Bytes
  | .setStatus status => statusText status
  | .setStatusStr line => line.string

/-- The string ends inside of its array, its length is right, and `memcpy` of as
many bytes in `ymo_http_response_start` does not leave the array. -/
structure Sound (response : ResponseStatus) : Prop where
  terminated : 0 ∈ response.statusStr
  length : response.statusLen = (cString response.statusStr).length
  copied : response.statusLen ≤ response.statusStr.length

/-- The response is sound, and so it is after each call. -/
def StaysSound (response : ResponseStatus) : List StatusCall → Prop
  | [] => Sound response
  | call :: calls =>
      Sound response ∧ StaysSound (applyCall response call) calls

/-- A status whose text has 30 bytes at most, or a line that has. -/
def Short : StatusCall → Prop
  | .setStatus status => status ≠ 203 ∧ status ≠ 407 ∧ status ≠ 416
  | .setStatusStr line => line.reason.length ≤ 26

/-! ## What the strings are -/

theorem ofNat_digit {c : Char} (digit : c.isDigit = true) :
    UInt8.ofNat c.toNat ≠ 0 := by
  rw [Char.isDigit, Bool.and_eq_true, decide_eq_true_eq,
    decide_eq_true_eq] at digit
  have low : 48 ≤ c.toNat := UInt32.le_iff_toNat_le.mp digit.1
  have high : c.toNat ≤ 57 := UInt32.le_iff_toNat_le.mp digit.2
  intro same
  have value := congrArg UInt8.toNat same
  rw [UInt8.toNat_ofNat', UInt8.toNat_zero] at value
  omega

theorem decimalDigits_noZero (number : Nat) : 0 ∉ decimalDigits number := by
  intro member
  rcases List.mem_map.mp member with ⟨c, inside, same⟩
  exact ofNat_digit
    (Nat.isDigit_of_mem_toDigits (by decide) (by decide) inside) same

/-- What holds of the reason of each known status. -/
theorem getHttpReason_spec {status : Nat} {reason : Bytes}
    (known : getHttpReason status = some reason) :
    0 ∉ reason ∧ (decimalDigits status).length = 3 ∧
      (reason.length ≤ 26 ↔ status ≠ 203 ∧ status ≠ 407 ∧ status ≠ 416) := by
  unfold getHttpReason at known
  split at known
  all_goals
    cases known
    try exact ⟨by decide, by decide, by decide⟩

theorem statusText_noZero (status : UInt16) : 0 ∉ statusText status := by
  intro member
  rw [statusText, List.mem_append, List.mem_append] at member
  rcases member with (digit | blank) | reason
  · exact decimalDigits_noZero _ digit
  · exact absurd (List.mem_singleton.mp blank) (by decide)
  · cases known : getHttpReason status.toNat with
    | some text =>
        rw [known, Option.getD_some] at reason
        exact (getHttpReason_spec known).1 reason
    | none =>
        rw [known, Option.getD_none] at reason
        exact absurd reason (by decide)

theorem length_statusText_le_iff (status : UInt16) :
    (statusText status).length ≤ 30 ↔ Short (.setStatus status) := by
  have numbers :
      Short (.setStatus status) ↔
        status.toNat ≠ 203 ∧ status.toNat ≠ 407 ∧ status.toNat ≠ 416 := by
    rw [Short, Ne, Ne, Ne, ← UInt16.toNat_inj, ← UInt16.toNat_inj,
      ← UInt16.toNat_inj]
    rfl
  rw [numbers, statusText, List.length_append, List.length_append,
    List.length_singleton]
  cases known : getHttpReason status.toNat with
  | some reason =>
      have spec := getHttpReason_spec known
      rw [Option.getD_some, spec.2.1, ← spec.2.2]
      omega
  | none =>
      -- A number of 16 bits has five digits at most.
      have digits : (decimalDigits status.toNat).length ≤ 5 := by
        rw [decimalDigits, List.length_map]
        refine (Nat.length_toDigits_le_iff (by decide) (by decide)).mpr ?_
        exact status.toNat_lt.trans (by decide)
      have text : (bytes "(null)").length = 6 := rfl
      refine iff_of_true ?_ ⟨?_, ?_, ?_⟩
      · rw [Option.getD_none, text]
        omega
      all_goals
        intro same
        rw [same] at known
        exact Option.some_ne_none _ known

theorem StatusLine.string_noZero (line : StatusLine) : 0 ∉ line.string := by
  have notZero : ∀ c : UInt8, isDigit c = true → c ≠ 0 := by
    rintro c digit rfl
    exact absurd digit (by decide)
  intro member
  rw [StatusLine.string, List.mem_append] at member
  rcases member with front | reason
  · rw [List.mem_cons, List.mem_cons, List.mem_cons,
      List.mem_singleton] at front
    rcases front with same | same | same | same
    · exact notZero _ line.digits.1 same.symm
    · exact notZero _ line.digits.2.1 same.symm
    · exact notZero _ line.digits.2.2 same.symm
    · exact absurd same (by decide)
  · exact line.noZero reason

theorem StatusCall.length_string_le_iff (call : StatusCall) :
    call.string.length ≤ 30 ↔ Short call := by
  cases call with
  | setStatus status => exact length_statusText_le_iff status
  | setStatusStr line =>
      rw [StatusCall.string, StatusLine.string, Short, List.length_append]
      show 4 + line.reason.length ≤ 30 ↔ _
      omega

/-! ## A call -/

theorem cString_written {dst string : Bytes} (noZero : 0 ∉ string) :
    cString (written dst (string ++ [0])) = string := by
  have front : ∀ c ∈ string, (c != 0) = true := by
    intro c member
    rw [bne_iff_ne]
    rintro rfl
    exact noZero member
  rw [written, cString, List.append_assoc, List.takeWhile_append_of_pos front]
  exact List.append_nil string

/-- The last byte of `status_str` is zero. -/
def Ended (response : ResponseStatus) : Prop :=
  response.statusStr.drop statusStrMaxLen = [0]

variable {response : ResponseStatus}

theorem Ended.terminated (ended : Ended response) :
    0 ∈ response.statusStr := by
  refine List.mem_of_mem_drop (i := statusStrMaxLen) ?_
  rw [ended]
  exact List.mem_singleton_self 0

/-- Neither function writes the last byte. -/
theorem applyCall_ended (ended : Ended response) (call : StatusCall) :
    Ended (applyCall response call) := by
  refine Eq.trans ?_ ended
  cases call with
  | setStatus status =>
      refine drop_written ?_
      rw [List.length_append, List.length_take, List.length_singleton]
      show min 30 _ + 1 ≤ 31
      omega
  | setStatusStr line => exact drop_written (List.length_take_le _ _)

theorem cString_setStatus (response : ResponseStatus) (status : UInt16) :
    cString (ymoHttpResponseSetStatus response status).statusStr =
      (statusText status).take 30 := by
  refine cString_written ?_
  intro member
  exact statusText_noZero status (List.mem_of_mem_take member)

/-- What is left of a string of more than 30 bytes ends at the last byte. -/
theorem cString_setStatusStr (ended : Ended response) (line : StatusLine) :
    cString (ymoHttpResponseSetStatusStr response line).statusStr =
      line.string.take 31 := by
  show cString (written _ ((line.string ++ [0]).take 31)) = _
  rcases Nat.lt_or_ge line.string.length 31 with short | long
  · rw [List.take_of_length_le (l := line.string ++ [0])
        (by rw [List.length_append]; exact short),
      cString_written line.string_noZero,
      List.take_of_length_le (Nat.le_of_lt short)]
  · have length : (line.string.take 31).length = 31 :=
      List.length_take_of_le long
    have noZero : 0 ∉ line.string.take 31 := by
      intro member
      exact line.string_noZero (List.mem_of_mem_take member)
    have written :
        written response.statusStr (line.string.take 31) =
          StatusString.written [] (line.string.take 31 ++ [0]) := by
      rw [StatusString.written, StatusString.written, length,
        List.drop_nil, List.append_nil]
      exact congrArg (line.string.take 31 ++ ·) ended
    rw [List.take_append_of_le_length long, written, cString_written noZero]

/-- The pointer behind the byte that ends the string. -/
theorem statusLen_short {line : StatusLine} (short : line.string.length < 31) :
    (ymoHttpResponseSetStatusStr response line).statusLen =
      line.string.length := by
  have copied :
      (memccpy response.statusStr line.string statusStrMaxLen).2 =
        some (line.string.length + 1) :=
    if_pos short
  simp only [ymoHttpResponseSetStatusStr, copied]
  rw [sizeOfLong, sizeModulus]
  omega

/-- The difference of NULL and the array. -/
theorem statusLen_long {line : StatusLine} (long : 31 ≤ line.string.length) :
    (ymoHttpResponseSetStatusStr response line).statusLen =
      sizeModulus - response.address - 1 := by
  have inside := response.inside
  have copied :
      (memccpy response.statusStr line.string statusStrMaxLen).2 = none :=
    if_neg (Nat.not_lt.mpr long)
  simp only [ymoHttpResponseSetStatusStr, copied]
  rw [sizeModulus] at inside ⊢
  rw [sizeOfLong, sizeModulus]
  omega

/-- The length is right just after a call with a short string. -/
theorem applyCall_length_iff (ended : Ended response) (call : StatusCall) :
    (applyCall response call).statusLen =
        (cString (applyCall response call).statusStr).length ↔
      Short call := by
  rw [← call.length_string_le_iff]
  cases call with
  | setStatus status =>
      rw [applyCall, cString_setStatus, List.length_take]
      show (statusText status).length = _ ↔ (statusText status).length ≤ 30
      omega
  | setStatusStr line =>
      rw [applyCall, cString_setStatusStr ended, List.length_take]
      show _ ↔ line.string.length ≤ 30
      rcases Nat.lt_or_ge line.string.length 31 with short | long
      · rw [statusLen_short short]
        omega
      · have inside := response.inside
        rw [statusStrBuffSize, sizeModulus] at inside
        rw [statusLen_long long, sizeModulus]
        omega

theorem cString_length_le (data : Bytes) :
    (cString data).length ≤ data.length :=
  (List.takeWhile_sublist _).length_le

/-- What a call with a short string is right about, no other call is. -/
theorem applyCall_sound_iff (ended : Ended response) (call : StatusCall) :
    Sound (applyCall response call) ↔ Short call := by
  rw [← applyCall_length_iff ended call]
  constructor
  · intro sound
    exact sound.length
  · intro length
    refine ⟨(applyCall_ended ended call).terminated, length, ?_⟩
    rw [length]
    exact cString_length_le _

/-! ## The string without its array -/

/-! ## Every sequence of calls -/

theorem ymoHttpResponseCreate_ended (address : Nat)
    (inside : address + statusStrBuffSize < sizeModulus) :
    Ended (ymoHttpResponseCreate address inside) :=
  rfl

theorem ymoHttpResponseCreate_sound (address : Nat)
    (inside : address + statusStrBuffSize < sizeModulus) :
    Sound (ymoHttpResponseCreate address inside) where
  terminated := (ymoHttpResponseCreate_ended address inside).terminated
  length := rfl
  copied := Nat.zero_le _

/-- From a sound response on, the induction is on the calls. -/
theorem staysSound_of_sound (ended : Ended response) (sound : Sound response)
    (calls : List StatusCall) :
    StaysSound response calls ↔ ∀ call ∈ calls, Short call := by
  induction calls generalizing response with
  | nil =>
      exact iff_of_true sound fun _ member => absurd member List.not_mem_nil
  | cons call calls ih =>
      rw [StaysSound, List.forall_mem_cons]
      constructor
      · rintro ⟨_, later⟩
        have laterSound : Sound (applyCall response call) := by
          cases calls with
          | nil => exact later
          | cons _ _ => exact later.1
        exact ⟨(applyCall_sound_iff ended call).mp laterSound,
          (ih (applyCall_ended ended call) laterSound).mp later⟩
      · rintro ⟨short, others⟩
        exact ⟨sound,
          (ih (applyCall_ended ended call)
            ((applyCall_sound_iff ended call).mpr short)).mpr others⟩

/-- A response is sound after each of a sequence of calls just where all their
strings are short. -/
theorem staysSound_iff (address : Nat)
    (inside : address + statusStrBuffSize < sizeModulus)
    (calls : List StatusCall) :
    StaysSound (ymoHttpResponseCreate address inside) calls ↔
      ∀ call ∈ calls, Short call :=
  staysSound_of_sound (ymoHttpResponseCreate_ended address inside)
    (ymoHttpResponseCreate_sound address inside) calls

/-- `200 OK`. -/
def okLine : StatusLine where
  hundreds := 0x32
  tens := 0x30
  ones := 0x30
  reason := bytes "OK"
  digits := by decide
  noZero := by decide

theorem staysSound_ok :
    0x1000 + statusStrBuffSize < sizeModulus ∧
      (StaysSound (ymoHttpResponseCreate 0x1000 (by decide))
          [.setStatus 404, .setStatusStr okLine] ↔
        ∀ call ∈ [.setStatus 404, .setStatusStr okLine], Short call) :=
  ⟨by decide,
    staysSound_iff 0x1000 (by decide) [.setStatus 404, .setStatusStr okLine]⟩

/-- `416 Requested Range Not Satisfiable` has 35 bytes: three bytes from behind the
array are copied. -/
theorem requestedRange_overrun :
    ¬StaysSound (ymoHttpResponseCreate 0x1000 (by decide))
      [.setStatus 416] := by
  rintro ⟨_, sound⟩
  have length :
      (ymoHttpResponseSetStatus
        (ymoHttpResponseCreate 0x1000 (by decide)) 416).statusLen = 35 :=
    rfl
  have copied := sound.copied
  rw [applyCall, length, (ymoHttpResponseSetStatus _ _).size] at copied
  exact absurd copied (by decide)

end Yimmo.Http.StatusString
