import Yimmo.Http.Parse

/-!
# The chunked coding

A body in the chunked transfer coding of RFC 7230: chunks, a last chunk of size
zero, and trailer fields.  Each part carries that it is well formed, so a body
of the coding is one by construction.

A chunk-size line is a run of hexadecimal digits and chunk extensions.  What a
body is apart from its data is its framing.
-/

namespace Yimmo.Http.ChunkedCoding

open Yimmo.Http.Exchange
open Yimmo.Http.Parse

variable {c : UInt8}

/-! ## Characters -/

/-- `CRLF`. -/
def crlf : Bytes :=
  [cr, lf]

/-- `tchar`. -/
def isTchar (c : UInt8) : Bool :=
  isHttpHdrFieldToken c || (bytes "!#$%&'*+.^_`|~").contains c

/-- `HTAB`, `SP`, `VCHAR` and `obs-text`: what can stand in a line. -/
def isLineByte (c : UInt8) : Bool :=
  c == 9 || (32 ≤ c && c != 127)

/-- `qdtext`. -/
def isQdtext (c : UInt8) : Bool :=
  isLineByte c && c != 34 && c != 92

/-- `HEXDIG`, in either case. -/
def isHexDigit (c : UInt8) : Bool :=
  (48 ≤ c && c ≤ 57) || (65 ≤ c && c ≤ 70) || (97 ≤ c && c ≤ 102)

/-- The value of a hexadecimal digit. -/
def hexDigit (c : UInt8) : Nat :=
  if c ≤ 57 then c.toNat - 48
  else if c ≤ 70 then c.toNat - 55
  else c.toNat - 87

/-- The number that hexadecimal digits stand for, after a number. -/
def hexValue (number : Nat) (digits : Bytes) : Nat :=
  digits.foldl (fun value c => value * 16 + hexDigit c) number

/-! ## Lines -/

/-- `token`. -/
structure Token where
  bytes : Bytes
  nonempty : bytes ≠ []
  tchars : ∀ c ∈ bytes, isTchar c = true

/-- A character of a `quoted-string`. -/
inductive Quoted where
  | plain (c : UInt8) (qdtext : isQdtext c = true)
  | pair (c : UInt8) (quotable : isLineByte c = true)

def Quoted.bytes : Quoted → Bytes
  | plain c _ => [c]
  | pair c _ => [92, c]

/-- `chunk-ext-val`. -/
inductive ExtensionValue where
  | token (value : Token)
  | quoted (text : List Quoted)

def ExtensionValue.bytes : ExtensionValue → Bytes
  | token value => value.bytes
  | quoted text => 34 :: text.flatMap Quoted.bytes ++ [34]

/-- One `";" chunk-ext-name [ "=" chunk-ext-val ]`. -/
structure Extension where
  name : Token
  value : Option ExtensionValue

def Extension.bytes (extension : Extension) : Bytes :=
  59 :: extension.name.bytes ++
    extension.value.elim [] fun value => 61 :: value.bytes

/-- A chunk-size line without its `CRLF`. -/
structure SizeLine where
  digits : Bytes
  extensions : List Extension
  nonempty : digits ≠ []
  hex : ∀ c ∈ digits, isHexDigit c = true

def SizeLine.bytes (line : SizeLine) : Bytes :=
  line.digits ++ line.extensions.flatMap Extension.bytes

/-- The size the line announces. -/
def SizeLine.size (line : SizeLine) : Nat :=
  hexValue 0 line.digits

/-- A trailer field; the white space around its value is part of it. -/
structure TrailerField where
  name : Token
  value : Bytes
  lineBytes : ∀ c ∈ value, isLineByte c = true

/-- A trailer field up to its `CRLF`. -/
def TrailerField.line (field : TrailerField) : Bytes :=
  field.name.bytes ++ colon :: field.value

/-! ## Bodies -/

/-- A chunk; its size can be told in `size_t`. -/
structure Chunk where
  line : SizeLine
  data : Bytes
  sized : line.size = data.length
  nonempty : data ≠ []
  fits : data.length < sizeModulus

def Chunk.bytes (chunk : Chunk) : Bytes :=
  chunk.line.bytes ++ crlf ++ chunk.data ++ crlf

/-- The last chunk's line and the trailer section, to its empty line. -/
structure BodyEnd where
  line : SizeLine
  zero : line.size = 0
  trailer : List TrailerField

def BodyEnd.bytes (bodyEnd : BodyEnd) : Bytes :=
  bodyEnd.line.bytes ++ crlf ++
    bodyEnd.trailer.flatMap (fun field => field.line ++ crlf) ++ crlf

/-- `chunked-body`. -/
structure ChunkedBody where
  chunks : List Chunk
  bodyEnd : BodyEnd

def ChunkedBody.bytes (body : ChunkedBody) : Bytes :=
  body.chunks.flatMap Chunk.bytes ++ body.bodyEnd.bytes

/-- What the body carries. -/
def ChunkedBody.data (body : ChunkedBody) : Bytes :=
  body.chunks.flatMap Chunk.data

/-- The body without its data: its lines. -/
def ChunkedBody.framing (body : ChunkedBody) : List SizeLine × BodyEnd :=
  (body.chunks.map Chunk.line, body.bodyEnd)

/-- A chunk-size line that is not one: no digit, a byte that is no digit before
the extensions, or a size that does not fit `size_t`. -/
def MalformedSize (line : Bytes) : Prop :=
  let field := line.takeWhile (· != 59)
  (∀ c ∈ field, isHexDigit c = false) ∨
    (∃ c ∈ field, isHexDigit c = false) ∨
      sizeModulus ≤ hexValue 0 field

/-! ## What a line contains -/

set_option maxRecDepth 4000 in
theorem isLineByte_of_isTchar (tchar : isTchar c = true) :
    isLineByte c = true := by
  cases c with
  | ofBitVec bits =>
      revert bits
      decide

set_option maxRecDepth 4000 in
theorem isLineByte_of_isHexDigit (digit : isHexDigit c = true) :
    isLineByte c = true := by
  cases c with
  | ofBitVec bits =>
      revert bits
      decide

/-- Neither end of a line stands in it, nor does the byte zero. -/
theorem ne_of_isLineByte (lineByte : isLineByte c = true) :
    c ≠ lf ∧ c ≠ cr ∧ c ≠ 0 := by
  refine ⟨?_, ?_, ?_⟩
  · rintro rfl
    cases lineByte
  · rintro rfl
    cases lineByte
  · rintro rfl
    cases lineByte

theorem Token.isLineByte (token : Token) :
    ∀ c ∈ token.bytes, isLineByte c = true := by
  intro c member
  exact isLineByte_of_isTchar (token.tchars c member)

theorem Quoted.isLineByte (quoted : Quoted) :
    ∀ c ∈ quoted.bytes, isLineByte c = true := by
  intro c member
  cases quoted with
  | plain d qdtext =>
      rw [Quoted.bytes, List.mem_singleton] at member
      rw [isQdtext, Bool.and_eq_true, Bool.and_eq_true] at qdtext
      rw [member]
      exact qdtext.1.1
  | pair d quotable =>
      rw [Quoted.bytes, List.mem_cons, List.mem_singleton] at member
      rcases member with rfl | rfl
      · rfl
      · exact quotable

theorem ExtensionValue.isLineByte (value : ExtensionValue) :
    ∀ c ∈ value.bytes, isLineByte c = true := by
  intro c member
  cases value with
  | token value => exact value.isLineByte c member
  | quoted text =>
      rw [ExtensionValue.bytes, List.mem_append, List.mem_cons,
        List.mem_flatMap, List.mem_singleton] at member
      rcases member with (rfl | ⟨quoted, -, inside⟩) | rfl
      · rfl
      · exact quoted.isLineByte c inside
      · rfl

theorem Extension.isLineByte (extension : Extension) :
    ∀ c ∈ extension.bytes, isLineByte c = true := by
  intro c member
  rw [Extension.bytes, List.mem_append, List.mem_cons] at member
  rcases member with (rfl | inName) | inValue
  · rfl
  · exact extension.name.isLineByte c inName
  · cases present : extension.value with
    | none =>
        rw [present] at inValue
        cases inValue
    | some value =>
        rw [present] at inValue
        rcases List.mem_cons.mp inValue with rfl | inside
        · rfl
        · exact value.isLineByte c inside

theorem SizeLine.isLineByte (line : SizeLine) :
    ∀ c ∈ line.bytes, isLineByte c = true := by
  intro c member
  rw [SizeLine.bytes, List.mem_append, List.mem_flatMap] at member
  rcases member with digit | ⟨extension, -, inside⟩
  · exact isLineByte_of_isHexDigit (line.hex c digit)
  · exact extension.isLineByte c inside

theorem TrailerField.isLineByte (field : TrailerField) :
    ∀ c ∈ field.line, isLineByte c = true := by
  intro c member
  rw [TrailerField.line, List.mem_append, List.mem_cons] at member
  rcases member with inName | rfl | inValue
  · exact field.name.isLineByte c inName
  · rfl
  · exact field.lineBytes c inValue

/-! ## The parser's arithmetic -/

set_option maxRecDepth 4000 in
/-- What a hexadecimal digit adds in the parser's arithmetic. -/
theorem chunkDigit_low (digit : isHexDigit c = true) :
    hexDigit c < 16 ∧
      sizeOfLong ((c &&& 0xf).toNat + c.toInt8.toInt / 64) |||
          ((c >>> 3) &&& 8).toNat =
        hexDigit c := by
  cases c with
  | ofBitVec bits =>
      revert bits
      decide

/-- A digit is read as one while the number fits. -/
theorem chunkDigit_of_isHexDigit (digit : isHexDigit c = true) {number : Nat}
    (fits : number * 16 < sizeModulus) :
    chunkDigit number c = number * 16 + hexDigit c := by
  rcases chunkDigit_low digit with ⟨small, low⟩
  have joined := @Nat.two_pow_add_eq_or_of_lt 4 (hexDigit c) small number
  unfold chunkDigit
  dsimp only
  rw [Nat.mod_eq_of_lt fits, Nat.or_assoc, low]
  rw [show 2 ^ 4 * number = number * 16 by omega] at joined
  exact joined.symm

theorem le_hexValue (number : Nat) (digits : Bytes) :
    number ≤ hexValue number digits := by
  induction digits generalizing number with
  | nil => exact Nat.le_refl number
  | cons c digits ih =>
      have later := ih (number * 16 + hexDigit c)
      have whole :
          hexValue number (c :: digits) =
            hexValue (number * 16 + hexDigit c) digits :=
        rfl
      rw [whole]
      omega

/-- The number that the parser reads in the bytes of a line. -/
def lineNumber (number : Nat) (line : Bytes) : Nat :=
  line.foldl
    (fun value c => if c = cr then value else chunkDigit value c) number

/-- Digits are read as the number they stand for, if it fits. -/
theorem lineNumber_digits {digits : Bytes}
    (hex : ∀ c ∈ digits, isHexDigit c = true)
    {number : Nat}
    (fits : hexValue number digits < sizeModulus) :
    lineNumber number digits = hexValue number digits := by
  induction digits generalizing number with
  | nil => rfl
  | cons c digits ih =>
      have digit := hex c List.mem_cons_self
      have noReturn := (ne_of_isLineByte (isLineByte_of_isHexDigit digit)).2.1
      have whole :
          hexValue number (c :: digits) =
            hexValue (number * 16 + hexDigit c) digits :=
        rfl
      have below := le_hexValue (number * 16 + hexDigit c) digits
      rw [whole] at fits
      rw [whole, lineNumber, List.foldl_cons, if_neg noReturn,
        chunkDigit_of_isHexDigit digit (by omega)]
      exact ih (fun d member => hex d (List.mem_cons_of_mem c member)) fits

/-- The line has no extension, or only such as leave the number as it is when
their bytes are taken for digits. -/
def SizeLine.Plain (line : SizeLine) : Prop :=
  line.extensions = [] ∨ lineNumber 0 line.bytes = line.size

theorem lineNumber_iff_plain {line : SizeLine}
    (fits : line.size < sizeModulus) :
    lineNumber 0 line.bytes = line.size ↔ line.Plain := by
  constructor
  · exact Or.inr
  · rintro (none | same)
    · rw [SizeLine.bytes, none, List.flatMap_nil, List.append_nil]
      exact lineNumber_digits line.hex fits
    · exact same

/-- Every chunk-size line is plain, and there is no trailer field. -/
structure ChunkedBody.Plain (body : ChunkedBody) : Prop where
  chunks : ∀ chunk ∈ body.chunks, chunk.line.Plain
  last : body.bodyEnd.line.Plain
  trailer : body.bodyEnd.trailer = []

/-! ## The framing of a body -/

/-- The same chunk, with zeros for data; no line contains a zero. -/
def Chunk.zeroed (chunk : Chunk) : Chunk where
  line := chunk.line
  data := List.replicate chunk.data.length 0
  sized := by
    rw [List.length_replicate]
    exact chunk.sized
  nonempty := by
    intro none
    have length := congrArg List.length none
    rw [List.length_replicate] at length
    exact chunk.nonempty (List.length_eq_zero_iff.mp length)
  fits := by
    rw [List.length_replicate]
    exact chunk.fits

/-- The body with zeros for its data. -/
def ChunkedBody.zeroed (body : ChunkedBody) : ChunkedBody where
  chunks := body.chunks.map Chunk.zeroed
  bodyEnd := body.bodyEnd

theorem ChunkedBody.framing_zeroed (body : ChunkedBody) :
    body.zeroed.framing = body.framing := by
  unfold ChunkedBody.framing ChunkedBody.zeroed
  dsimp only
  rw [List.map_map]
  rfl

/-- Being plain is a matter of the lines alone. -/
theorem ChunkedBody.plain_iff_framing (body : ChunkedBody) :
    body.Plain ↔
      (∀ line ∈ body.framing.1, line.Plain) ∧
        body.framing.2.line.Plain ∧ body.framing.2.trailer = [] := by
  constructor
  · intro plain
    refine ⟨?_, plain.last, plain.trailer⟩
    intro line member
    rcases List.mem_map.mp member with ⟨chunk, inside, rfl⟩
    exact plain.chunks chunk inside
  · rintro ⟨chunks, last, noTrailer⟩
    refine ⟨?_, last, noTrailer⟩
    intro chunk member
    exact chunks chunk.line (List.mem_map_of_mem member)

theorem ChunkedBody.Plain.of_framing_eq {left right : ChunkedBody}
    (same : left.framing = right.framing)
    (plain : right.Plain) :
    left.Plain := by
  rw [ChunkedBody.plain_iff_framing, same, ← ChunkedBody.plain_iff_framing]
  exact plain

/-- Every chunk has a digit, four line-end bytes and data. -/
theorem length_chunks (chunks : List Chunk) :
    3 * chunks.length ≤ (chunks.flatMap Chunk.bytes).length := by
  induction chunks with
  | nil => exact Nat.le_refl 0
  | cons chunk chunks ih =>
      have here : 4 ≤ chunk.bytes.length := by
        unfold Chunk.bytes
        simp only [List.length_append]
        rw [show crlf.length = 2 from rfl]
        omega
      rw [List.flatMap_cons, List.length_append, List.length_cons]
      omega

end Yimmo.Http.ChunkedCoding
