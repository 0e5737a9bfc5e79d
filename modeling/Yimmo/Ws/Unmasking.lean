import Yimmo.Ws.Encode

/-!
# Unmasking by words

`unmask_payload` xors the bytes up to a word boundary of the input one by one, then
whole words with the key as a word that is turned to where the bytes got, and then
the bytes that are left.  What it counts wraps: pointers and lengths at the size of
the address space, and the place in the key at the size of a byte.

This module models the function with its three loops on an input that stands at an
address, and shows that it stores what unmasking byte by byte does.  A piece of input
ends within the address space.
-/

namespace Yimmo.Ws.Unmasking

open Yimmo.Core.StatusCode
open Yimmo.Core.Utf8
open Yimmo.Lib.ByteMemory
open Yimmo.Ws.Parse
open Yimmo.Ws.ReadLoop
open Yimmo.Ws.Encode

variable
    {key : Memory}
    (session : WsSession)

/-! ## Input -/

/-- The number of addresses. -/
@[irreducible]
def addressModulus : Nat :=
  2 ^ 64

/-- A piece of input, and where it stands. -/
structure Piece where
  source : Memory
  address : Nat
  length : Nat
  fits : address + length < addressModulus

/-- The bytes of a piece. -/
def Piece.bytes (piece : Piece) : Bytes :=
  bytesAt piece.source piece.address piece.length

/-- The first bytes of a piece. -/
def Piece.take (piece : Piece) (count : Nat) : Piece where
  source := piece.source
  address := piece.address
  length := min piece.length count
  fits := by
    have fits := piece.fits
    omega

/-! ## Words -/

/-- The word that four bytes in memory are. -/
def joinWord (bytes : Fin 4 → UInt8) : BitVec 32 :=
  (bytes 3).toBitVec ++ (bytes 2).toBitVec ++ (bytes 1).toBitVec ++
    (bytes 0).toBitVec

/-- A byte of a word in memory. -/
def wordByte (word : BitVec 32) (index : Fin 4) : UInt8 :=
  UInt8.ofBitVec (word.extractLsb' (8 * index.val) 8)

theorem wordByte_joinWord (bytes : Fin 4 → UInt8) (index : Fin 4) :
    wordByte (joinWord bytes) index = bytes index := by
  rw [wordByte, joinWord]
  apply UInt8.eq_of_toBitVec_eq
  match index with
  | 0 => exact BitVec.extractLsb'_append_eq_right
  | 1 =>
      show BitVec.extractLsb' 8 8 _ = _
      rw [BitVec.extractLsb'_append_eq_of_le (by omega)]
      exact BitVec.extractLsb'_append_eq_right
  | 2 =>
      show BitVec.extractLsb' 16 8 _ = _
      rw [BitVec.extractLsb'_append_eq_of_le (by omega),
        BitVec.extractLsb'_append_eq_of_le (by omega)]
      exact BitVec.extractLsb'_append_eq_right
  | 3 =>
      show BitVec.extractLsb' 24 8 _ = _
      rw [BitVec.extractLsb'_append_eq_of_le (by omega),
        BitVec.extractLsb'_append_eq_of_le (by omega)]
      exact BitVec.extractLsb'_append_eq_left

/-- A word is xored byte by byte. -/
theorem wordByte_xor (left right : Fin 4 → UInt8) (index : Fin 4) :
    wordByte (joinWord left ^^^ joinWord right) index =
      left index ^^^ right index := by
  rw [← wordByte_joinWord left index, ← wordByte_joinWord right index,
    wordByte, wordByte, wordByte, BitVec.extractLsb'_xor]
  rfl

/-! ## The loops -/

/-- Where the loops are: the pointers, `parse_remain`, `mask_mod`, and the bytes that
were stored, each with its offset in the frame buffer. -/
structure Cursor where
  cIn : Nat
  cOut : Nat
  remain : Nat
  maskMod : UInt8
  stores : List (Nat × UInt8)

/-- The difference of two addresses. -/
def addressSub (left right : Nat) : Nat :=
  (left + addressModulus - right) % addressModulus

/-- `YMO_PTR32_CEIL`. -/
def ymoPtr32Ceil (address : Nat) : Nat :=
  (address + 3) % addressModulus / 4 * 4

/-- `YMO_PTR32_FLOOR`. -/
def ymoPtr32Floor (address : Nat) : Nat :=
  address / 4 * 4

/-- The body of the loops over bytes. -/
def byteStep (key source : Memory) (cursor : Cursor) : Cursor where
  cIn := cursor.cIn + 1
  cOut := cursor.cOut + 1
  remain := cursor.remain - 1
  maskMod := cursor.maskMod + 1
  stores :=
    cursor.stores ++
      [(cursor.cOut,
        source cursor.cIn ^^^ key (cursor.maskMod.toNat % 4))]

/-- `while( end-- > 0 && parse_remain-- > 0 )`. -/
def byteLoop (key source : Memory) : Nat → Cursor → Cursor
  | 0, cursor => cursor
  | count + 1, cursor =>
      if cursor.remain = 0 then { cursor with remain := addressModulus - 1 }
      else byteLoop key source count (byteStep key source cursor)

/-- `get_mask32`: the key from `mask_mod` on, and `mask_mod` after it. -/
def getMask32 (key : Memory) (maskMod : UInt8) : BitVec 32 × UInt8 :=
  (joinWord fun index =>
      key ((maskMod + UInt8.ofNat index.val).toNat % 4),
    maskMod + 4)

/-- The body of the loop over words. -/
def wordStep (source : Memory) (mask : BitVec 32) (cursor : Cursor) :
    Cursor where
  cIn := cursor.cIn + 4
  cOut := cursor.cOut + 4
  remain := addressSub cursor.remain 4
  maskMod := cursor.maskMod
  stores :=
    cursor.stores ++
      (List.finRange 4).map fun index =>
        (cursor.cOut + index.val,
          wordByte
            (joinWord (fun index => source (cursor.cIn + index.val)) ^^^ mask)
            index)

/-- `while( end > 0 && parse_remain > 0 )`, if it ends within the bound. -/
def wordLoop (source : Memory) (mask : BitVec 32) :
    Nat → Nat → Cursor → Option Cursor
  | 0, _, _ => none
  | bound + 1, count, cursor =>
      if 0 < count ∧ 0 < cursor.remain then
        wordLoop source mask bound (addressSub count 4)
          (wordStep source mask cursor)
      else some cursor

/-- The round of bytes before the alignment boundary. -/
def headLoop (key : Memory) (piece : Piece) (cOut : Nat) (maskMod : UInt8) :
    Cursor :=
  byteLoop key piece.source
    (min piece.length (addressSub (ymoPtr32Ceil piece.address) piece.address))
    { cIn := piece.address
      cOut := cOut
      remain := piece.length
      maskMod := maskMod
      stores := [] }

/-- The round of bytes four at a time. -/
def middleLoop (key : Memory) (piece : Piece) (cursor : Cursor) :
    Option Cursor :=
  wordLoop piece.source (getMask32 key cursor.maskMod).1
    (piece.length + 1)
    (addressSub (ymoPtr32Floor (piece.address + piece.length)) cursor.cIn)
    { cursor with maskMod := (getMask32 key cursor.maskMod).2 }

/-- The round of bytes after the alignment boundary. -/
def tailLoop (key : Memory) (piece : Piece) (cursor : Cursor) : Cursor :=
  byteLoop key piece.source
    (addressSub (piece.address + piece.length) cursor.cIn) cursor

/-- The loops of `unmask_payload`. -/
def unmaskLoops (key : Memory) (piece : Piece) (cOut : Nat) (maskMod : UInt8) :
    Option Cursor :=
  (middleLoop key piece (headLoop key piece cOut maskMod)).map
    (tailLoop key piece)

/-- An address minus one that is not above it. -/
theorem addressSub_of_le {left right : Nat} (above : right ≤ left)
    (fits : left < addressModulus) :
    addressSub left right = left - right := by
  have moved :
      left + addressModulus - right = left - right + addressModulus := by
    omega
  rw [addressSub, moved, Nat.add_mod_right, Nat.mod_eq_of_lt]
  omega

/-- The bytes up to a word boundary. -/
theorem addressSub_ceil {address : Nat} (fits : address < addressModulus) :
    addressSub (ymoPtr32Ceil address) address = (4 - address % 4) % 4 := by
  have words : addressModulus % 4 = 0 := by
    rw [addressModulus]
    decide
  rw [ymoPtr32Ceil]
  rcases Nat.lt_or_ge (address + 3) addressModulus with within | past
  · rw [Nat.mod_eq_of_lt within, addressSub_of_le]
    · omega
    · omega
    · omega
  · have wrapped : (address + 3) % addressModulus / 4 * 4 = 0 := by
      rw [Nat.mod_eq_sub_mod past, Nat.mod_eq_of_lt]
      · omega
      · omega
    rw [wrapped, addressSub, Nat.zero_add, Nat.mod_eq_of_lt]
    · omega
    · omega

/-! ## What the loops store -/

/-- The first bytes of a piece are stored from an offset on, unmasked from a place in
the key on. -/
structure Through
    (key : Memory)
    (piece : Piece)
    (offset place count : Nat)
    (cursor : Cursor) :
    Prop where
  within : count ≤ piece.length
  cIn : cursor.cIn = piece.address + count
  cOut : cursor.cOut = offset + count
  remain : cursor.remain = piece.length - count
  maskMod : cursor.maskMod.toNat % 4 = (place + count) % 4
  stores :
    cursor.stores =
      (List.range count).map fun index =>
        (offset + index,
          piece.source (piece.address + index) ^^^ key ((place + index) % 4))

theorem add_toNat_mod (maskMod : UInt8) (count : Nat) :
    (maskMod + UInt8.ofNat count).toNat % 4 = (maskMod.toNat + count) % 4 := by
  rw [UInt8.toNat_add, UInt8.toNat_ofNat']
  omega

variable
    {piece : Piece}
    {cursor : Cursor}

theorem through_byteStep {offset place count : Nat}
    (through : Through key piece offset place count cursor)
    (more : count < piece.length) :
    Through key piece offset place (count + 1)
      (byteStep key piece.source cursor) where
  within := more
  cIn := by
    show cursor.cIn + 1 = _
    rw [through.cIn, Nat.add_assoc]
  cOut := by
    show cursor.cOut + 1 = _
    rw [through.cOut, Nat.add_assoc]
  remain := by
    show cursor.remain - 1 = _
    rw [through.remain, Nat.sub_sub]
  maskMod := by
    have next := add_toNat_mod cursor.maskMod 1
    have before := through.maskMod
    show (cursor.maskMod + UInt8.ofNat 1).toNat % 4 = _
    omega
  stores := by
    rw [byteStep, through.stores, through.cIn, through.cOut,
      through.maskMod, List.range_succ, List.map_append]
    rfl

theorem through_byteLoop {offset place count : Nat}
    (through : Through key piece offset place count cursor)
    {more : Nat}
    (within : count + more ≤ piece.length) :
    Through key piece offset place (count + more)
      (byteLoop key piece.source more cursor) := by
  induction more generalizing count cursor with
  | zero => exact through
  | succ more ih =>
      have left : cursor.remain ≠ 0 := by
        rw [through.remain]
        omega
      rw [byteLoop, if_neg left]
      have next := ih (through_byteStep through (by omega)) (by omega)
      rw [show count + (more + 1) = count + 1 + more by omega]
      exact next

theorem through_wordStep {offset place count : Nat}
    (through : Through key piece offset place count cursor)
    (more : count + 4 ≤ piece.length) :
    Through key piece offset place (count + 4)
      (wordStep piece.source
        (joinWord fun index => key ((place + count + index.val) % 4))
        cursor) where
  within := more
  cIn := by
    show cursor.cIn + 4 = _
    rw [through.cIn, Nat.add_assoc]
  cOut := by
    show cursor.cOut + 4 = _
    rw [through.cOut, Nat.add_assoc]
  remain := by
    have fits := piece.fits
    show addressSub cursor.remain 4 = _
    rw [through.remain, addressSub_of_le, Nat.sub_sub]
    · omega
    · omega
  maskMod := by
    have before := through.maskMod
    show cursor.maskMod.toNat % 4 = _
    omega
  stores := by
    have word :
        ((List.finRange 4).map fun index : Fin 4 =>
            (offset + count + index.val,
              wordByte
                (joinWord
                    (fun index =>
                      piece.source (piece.address + count + index.val)) ^^^
                  joinWord fun index => key ((place + count + index.val) % 4))
                index)) =
          (List.range 4).map fun index =>
            (offset + (count + index),
              piece.source (piece.address + (count + index)) ^^^
                key ((place + (count + index)) % 4)) := by
      rw [← List.map_coe_finRange_eq_range, List.map_map]
      apply List.map_congr_left
      intro index _
      rw [wordByte_xor]
      simp only [Function.comp_apply, Nat.add_assoc]
    rw [wordStep, through.stores, through.cIn, through.cOut, word,
      List.range_add, List.map_append, List.map_map]
    rfl

theorem through_wordLoop {offset place count : Nat}
    (through : Through key piece offset place count cursor)
    {mask : BitVec 32}
    (turned :
      mask = joinWord fun index => key ((place + count + index.val) % 4))
    {words bound : Nat}
    (within : count + 4 * words ≤ piece.length)
    (enough : words < bound) :
    ∃ later,
      wordLoop piece.source mask bound (4 * words) cursor = some later ∧
        Through key piece offset place (count + 4 * words) later := by
  induction words generalizing count cursor bound with
  | zero =>
      cases bound with
      | zero => nomatch enough
      | succ bound =>
          refine ⟨cursor, ?_, through⟩
          rw [wordLoop, if_neg]
          rintro ⟨absurdity, -⟩
          exact Nat.lt_irrefl 0 absurdity
  | succ words ih =>
      cases bound with
      | zero => nomatch enough
      | succ bound =>
          have fits := piece.fits
          have left : 0 < cursor.remain := by
            rw [through.remain]
            omega
          have fewer : addressSub (4 * (words + 1)) 4 = 4 * words := by
            rw [addressSub_of_le]
            · omega
            · omega
            · omega
          have stepped := through_wordStep through (by omega)
          rw [← turned] at stepped
          have turned' :
              mask =
                joinWord fun index =>
                  key ((place + (count + 4) + index.val) % 4) := by
            rw [turned]
            congr 1
            funext index
            congr 1
            omega
          rcases
            ih stepped turned' (by omega) (Nat.lt_of_succ_lt_succ enough) with
            ⟨later, ends, done⟩
          refine ⟨later, ?_, ?_⟩
          · rw [wordLoop, if_pos ⟨by omega, left⟩, fewer]
            exact ends
          · rw [show count + 4 * (words + 1) = count + 4 + 4 * words by omega]
            exact done

/-- The first loop stops at a word boundary or at the end of the piece. -/
theorem through_headLoop (key : Memory) (piece : Piece) (offset : Nat)
    (maskMod : UInt8) :
    ∃ count,
      Through key piece offset maskMod.toNat count
          (headLoop key piece offset maskMod) ∧
        (count = piece.length ∨ (piece.address + count) % 4 = 0) := by
  have fits := piece.fits
  have start :
      Through key piece offset maskMod.toNat 0
        { cIn := piece.address
          cOut := offset
          remain := piece.length
          maskMod := maskMod
          stores := [] } :=
    ⟨Nat.zero_le _, rfl, rfl, rfl, rfl, rfl⟩
  rw [headLoop, addressSub_ceil (by omega)]
  refine ⟨min piece.length ((4 - piece.address % 4) % 4), ?_, ?_⟩
  · have loop :=
      through_byteLoop start
        (show
          0 + min piece.length ((4 - piece.address % 4) % 4) ≤ piece.length by
          omega)
    rw [Nat.zero_add] at loop
    exact loop
  · omega

theorem getMask32_turned (key : Memory) {maskMod : UInt8} {place : Nat}
    (turn : maskMod.toNat % 4 = place % 4) :
    (getMask32 key maskMod).1 =
        joinWord (fun index => key ((place + index.val) % 4)) ∧
      (getMask32 key maskMod).2.toNat % 4 = place % 4 := by
  constructor
  · have bytes :
        (fun index : Fin 4 =>
            key ((maskMod + UInt8.ofNat index.val).toNat % 4)) =
          fun index => key ((place + index.val) % 4) := by
      funext index
      rw [add_toNat_mod]
      congr 1
      omega
    rw [getMask32, bytes]
  · have four := add_toNat_mod maskMod 4
    show (maskMod + UInt8.ofNat 4).toNat % 4 = _
    omega

/-- The words are as many as are left. -/
theorem through_middleLoop {offset place count : Nat}
    (through : Through key piece offset place count cursor)
    (stops : count = piece.length ∨ (piece.address + count) % 4 = 0) :
    ∃ more later,
      middleLoop key piece cursor = some later ∧
        Through key piece offset place more later := by
  have fits := piece.fits
  have within := through.within
  rcases getMask32_turned key through.maskMod with ⟨turned, kept⟩
  have aside :
      Through key piece offset place count
        { cursor with maskMod := (getMask32 key cursor.maskMod).2 } :=
    { within := within
      cIn := through.cIn
      cOut := through.cOut
      remain := through.remain
      maskMod := kept
      stores := through.stores }
  rw [middleLoop]
  rcases stops with all | aligned
  · have nothing : cursor.remain = 0 := by
      rw [through.remain]
      omega
    refine ⟨count, _, ?_, aside⟩
    rw [wordLoop, if_neg]
    rintro ⟨-, left⟩
    exact absurd nothing (Nat.ne_of_gt left)
  · have words :
        addressSub (ymoPtr32Floor (piece.address + piece.length))
            cursor.cIn =
          4 * ((piece.length - count) / 4) := by
      rw [through.cIn, ymoPtr32Floor, addressSub_of_le]
      · omega
      · omega
      · omega
    rw [words]
    exact
      ⟨_,
        through_wordLoop aside turned
          (show count + 4 * ((piece.length - count) / 4) ≤ piece.length by
            omega)
          (show (piece.length - count) / 4 < piece.length + 1 by omega)⟩

/-- The last loop takes what is left. -/
theorem through_tailLoop {offset place count : Nat}
    (through : Through key piece offset place count cursor) :
    Through key piece offset place piece.length
      (tailLoop key piece cursor) := by
  have fits := piece.fits
  have within := through.within
  have rest :
      addressSub (piece.address + piece.length) cursor.cIn =
        piece.length - count := by
    rw [through.cIn, addressSub_of_le]
    · omega
    · omega
    · omega
  have loop :=
    through_byteLoop through
      (show count + (piece.length - count) ≤ piece.length by omega)
  rw [Nat.add_sub_cancel' within] at loop
  rw [tailLoop, rest]
  exact loop

/-- The loops end, and store the whole piece. -/
theorem unmaskLoops_through (key : Memory) (piece : Piece) (offset : Nat)
    (maskMod : UInt8) :
    ∃ cursor,
      unmaskLoops key piece offset maskMod = some cursor ∧
        Through key piece offset maskMod.toNat piece.length cursor := by
  rcases through_headLoop key piece offset maskMod with
    ⟨count, head, stops⟩
  rcases through_middleLoop head stops with ⟨more, later, ends, middle⟩
  refine ⟨tailLoop key piece later, ?_, through_tailLoop middle⟩
  rw [unmaskLoops, ends]
  rfl

/-! ## Byte by byte -/

/-- The memory after the stores. -/
def applyStores (memory : Memory) (stores : List (Nat × UInt8)) : Memory :=
  stores.foldl (fun memory entry => store memory entry.1 entry.2) memory

/-- What the loops store is what unmasking byte by byte stores. -/
theorem applyStores_eq (memory key source : Memory)
    (address offset place count : Nat) :
    applyStores memory
        ((List.range count).map fun index =>
          (offset + index,
            source (address + index) ^^^ key ((place + index) % 4))) =
      storeAll memory offset
        (unmask key place (bytesAt source address count)) := by
  induction count generalizing memory address offset place with
  | zero => rfl
  | succ count ih =>
      rw [List.range_succ_eq_map, List.map_cons, List.map_map,
        bytesAt_succ, unmask, storeAll, applyStores, List.foldl_cons]
      have later :=
        ih
          (store memory offset (source address ^^^ key (place % 4)))
          (address + 1) (offset + 1) (place + 1)
      rw [← later]
      have shifted :
          (fun index =>
              (offset + index,
                source (address + index) ^^^ key ((place + index) % 4))) ∘
              Nat.succ =
            fun index =>
              (offset + 1 + index,
                source (address + 1 + index) ^^^
                  key ((place + 1 + index) % 4)) := by
        funext index
        simp only [Function.comp_apply, Nat.succ_eq_add_one,
          Nat.add_assoc, Nat.add_comm 1]
      rw [shifted]
      rfl

/-- Only the place in the key modulo 4 matters. -/
theorem unmask_congr (key : Memory) {left right : Nat}
    (same : left % 4 = right % 4)
    (data : Bytes) :
    unmask key left data = unmask key right data := by
  induction data generalizing left right with
  | nil => rfl
  | cons byte data ih =>
      have later : (left + 1) % 4 = (right + 1) % 4 := by omega
      rw [unmask, unmask, same, ih later]

/-! ## The payload -/

/-- `unmask_payload`, with what it stores. -/
def unmaskPayloadAt (session : WsSession) (piece : Piece) :
    Option (WsSession × List (Nat × UInt8)) :=
  let frame := session.frameIn
  if opCode frame.flags = ymoWsOpPong then some (session, [])
  else
    (unmaskLoops frame.maskingKey piece frame.parsed
        (UInt8.ofNat frame.idx)).map
      fun cursor =>
        ({ session with
            frameIn := { frame with idx := cursor.maskMod.toNat }
            memory :=
              Function.update session.memory frame.block
                (applyStores (session.memory frame.block) cursor.stores) },
          cursor.stores)

/-- `ymo_ws_parse_payload` after the payload was stored. -/
def parseStored (session : WsSession) (start parseLen : Nat) :
    WsSession × Parsed :=
  match checkPayload session start parseLen with
  | .error errno => (session, .error errno)
  | .ok utf8State =>
      let session := { session with utf8State := utf8State }
      (if session.frameIn.done then payloadDone session else session,
        .ok parseLen)

/-- The bytes are counted. -/
def countParsed (session : WsSession) (parseLen : Nat) : WsSession :=
  { session with
    frameIn :=
      { session.frameIn with parsed := session.frameIn.parsed + parseLen } }

/-- `ymo_ws_parse_payload` on a piece that stands at an address. -/
def ymoWsParsePayloadAt (session : WsSession) (buffer : Piece) :
    Option (WsSession × Parsed × List (Nat × UInt8)) :=
  let frame := session.frameIn
  let piece := buffer.take (frame.len - frame.parsed)
  (unmaskPayloadAt session piece).map fun unmasked =>
    let parsed :=
      parseStored (countParsed unmasked.1 piece.length)
        (checkStart frame) piece.length
    (parsed.1, parsed.2, unmasked.2)

/-- The session with another place in the key. -/
def withIdx (session : WsSession) (idx : Nat) : WsSession :=
  { session with frameIn := { session.frameIn with idx := idx } }

theorem payloadDone_withIdx (session : WsSession) (idx : Nat) :
    payloadDone (withIdx session idx) = withIdx (payloadDone session) idx := by
  let op := opCode session.frameIn.flags
  by_cases pushed : isData op ∨ op = ymoWsOpClose ∨ op = ymoWsOpPing
  · have left : payloadDone session = _ := if_pos pushed
    have right : payloadDone (withIdx session idx) = _ := if_pos pushed
    rw [left, right]
    rfl
  · have left : payloadDone session = _ := if_neg pushed
    have right : payloadDone (withIdx session idx) = _ := if_neg pushed
    rw [left, right]
    rfl

theorem parseStored_withIdx (idx start parseLen : Nat) :
    parseStored (withIdx session idx) start parseLen =
      (withIdx (parseStored session start parseLen).1 idx,
        (parseStored session start parseLen).2) := by
  have same :
      checkPayload (withIdx session idx) start parseLen =
        checkPayload session start parseLen :=
    rfl
  rw [parseStored, parseStored, same]
  cases checkPayload session start parseLen with
  | error errno => rfl
  | ok utf8State =>
      cases done : session.frameIn.done with
      | false =>
          have undone : (withIdx session idx).frameIn.done = false := done
          simp only [done, undone]
          rfl
      | true =>
          have also : (withIdx session idx).frameIn.done = true := done
          simp only [done, also, if_true]
          rw [← payloadDone_withIdx]
          rfl

theorem length_bytes (piece : Piece) : piece.bytes.length = piece.length := by
  rw [Piece.bytes, bytesAt, List.length_map, List.length_range]

theorem bytes_take (piece : Piece) (count : Nat) :
    (piece.take count).bytes = piece.bytes.take count := by
  show
    (List.range (min piece.length count)).map _ =
      ((List.range piece.length).map _).take count
  rw [← List.map_take, List.take_range, Nat.min_comm]
  rfl

/-- The stores of a call: the next bytes of the frame, and no others. -/
def payloadStores (frame : WsFrame) (piece : Piece) : List (Nat × UInt8) :=
  if opCode frame.flags = ymoWsOpPong then []
  else
    (List.range piece.length).map fun index =>
      (frame.parsed + index,
        piece.source (piece.address + index) ^^^
          frame.maskingKey ((frame.idx + index) % 4))

/-- Only `mask_mod` is not the same, and it is the same modulo 4. -/
theorem unmaskPayloadAt_eq (piece : Piece) :
    ∃ idx,
      idx % 4 = (unmaskPayload session piece.bytes).frameIn.idx % 4 ∧
        unmaskPayloadAt session piece =
          some
            (withIdx (unmaskPayload session piece.bytes) idx,
              payloadStores session.frameIn piece) := by
  by_cases pong : opCode session.frameIn.flags = ymoWsOpPong
  · refine ⟨session.frameIn.idx, ?_, ?_⟩
    · rw [unmaskPayload, if_pos pong]
    · rw [unmaskPayloadAt, unmaskPayload, payloadStores, if_pos pong,
        if_pos pong, if_pos pong]
      rfl
  · rcases
      unmaskLoops_through session.frameIn.maskingKey piece
        session.frameIn.parsed (UInt8.ofNat session.frameIn.idx) with
      ⟨cursor, ends, through⟩
    have place :
        (UInt8.ofNat session.frameIn.idx).toNat % 4 =
          session.frameIn.idx % 4 := by
      rw [UInt8.toNat_ofNat']
      omega
    have stores :
        cursor.stores =
          (List.range piece.length).map fun index =>
            (session.frameIn.parsed + index,
              piece.source (piece.address + index) ^^^
                session.frameIn.maskingKey
                  ((session.frameIn.idx + index) % 4)) := by
      rw [through.stores]
      apply List.map_congr_left
      intro index _
      rw [Nat.add_mod, place, ← Nat.add_mod]
    refine ⟨cursor.maskMod.toNat, ?_, ?_⟩
    · have after := through.maskMod
      rw [unmaskPayload, if_neg pong]
      show _ = (session.frameIn.idx + piece.bytes.length) % 4
      rw [length_bytes]
      omega
    · have stored :
          applyStores (session.memory session.frameIn.block)
              cursor.stores =
            storeAll (session.memory session.frameIn.block)
              session.frameIn.parsed
              (unmask session.frameIn.maskingKey session.frameIn.idx
                piece.bytes) := by
        rw [stores, applyStores_eq]
        rfl
      rw [unmaskPayloadAt, unmaskPayload, payloadStores, if_neg pong,
        if_neg pong, if_neg pong]
      rw [ends, Option.map_some, stored, stores]
      rfl

theorem ymoWsParsePayload_stored (data : Bytes) :
    ymoWsParsePayload session data =
      parseStored
        (storePayload session
          (data.take (session.frameIn.len - session.frameIn.parsed)))
        (checkStart session.frameIn)
        (data.take (session.frameIn.len - session.frameIn.parsed)).length :=
  rfl

theorem idx_parseStored (start parseLen : Nat) :
    (parseStored session start parseLen).1.frameIn.idx =
      session.frameIn.idx := by
  have kept := parseStored_withIdx session session.frameIn.idx start parseLen
  have same : withIdx session session.frameIn.idx = session := rfl
  rw [same] at kept
  rw [kept]
  rfl

/-- Unmasking by words is unmasking byte by byte: the call ends, and does what it does
in the other model but for where `mask_mod` stands beyond a multiple of four. -/
theorem parsePayloadAt_eq (buffer : Piece) :
    ∃ idx,
      idx % 4 =
          (ymoWsParsePayload session buffer.bytes).1.frameIn.idx % 4 ∧
        ymoWsParsePayloadAt session buffer =
          some
            (withIdx (ymoWsParsePayload session buffer.bytes).1 idx,
              (ymoWsParsePayload session buffer.bytes).2,
              payloadStores session.frameIn
                (buffer.take
                  (session.frameIn.len - session.frameIn.parsed))) := by
  have count :
      (buffer.take
          (session.frameIn.len - session.frameIn.parsed)).length =
        (buffer.take
          (session.frameIn.len - session.frameIn.parsed)).bytes.length :=
    (length_bytes _).symm
  rcases
    unmaskPayloadAt_eq session
      (buffer.take (session.frameIn.len - session.frameIn.parsed)) with
    ⟨idx, place, unmasked⟩
  refine ⟨idx, ?_, ?_⟩
  · rw [ymoWsParsePayload_stored, idx_parseStored, place, bytes_take]
    rfl
  · have counted :
        countParsed
            (withIdx
              (unmaskPayload session
                (buffer.bytes.take
                  (session.frameIn.len - session.frameIn.parsed)))
              idx)
            (buffer.bytes.take
              (session.frameIn.len - session.frameIn.parsed)).length =
          withIdx
            (storePayload session
              (buffer.bytes.take
                (session.frameIn.len - session.frameIn.parsed)))
            idx :=
      rfl
    rw [ymoWsParsePayload_stored, ymoWsParsePayloadAt]
    dsimp only
    rw [unmasked, count, bytes_take, Option.map_some, counted,
      parseStored_withIdx]

/-! ## The calls -/

/-- What the calls for the payload of a frame come to. -/
structure Calls where
  session : WsSession
  /-- The bytes of the payload that were parsed. -/
  consumed : Bytes
  /-- The stores to the frame buffer, each with its offset. -/
  stores : List (Nat × UInt8)
  failed : Bool

/-- Before the first call. -/
def Calls.first (session : WsSession) : Calls where
  session := session
  consumed := []
  stores := []
  failed := false

/-- The call with the next piece, while there is payload to parse. -/
def nextCall (calls : Calls) (piece : Piece) : Option Calls :=
  let frame := calls.session.frameIn
  if frame.parseState = .payload ∧ calls.failed = false then
    (ymoWsParsePayloadAt calls.session piece).map fun result =>
      { session := result.1
        consumed :=
          calls.consumed ++ piece.bytes.take (frame.len - frame.parsed)
        stores := calls.stores ++ result.2.2
        failed := !result.2.1.isOk }
  else some calls

/-- The calls with pieces of the payload, one after the other. -/
def parsePieces : Calls → List Piece → Option Calls
  | calls, [] => some calls
  | calls, piece :: rest =>
      (nextCall calls piece).bind fun later => parsePieces later rest

/-- The masking key was parsed, and no payload. -/
structure PayloadNext (session : WsSession) : Prop where
  parseState : session.frameIn.parseState = .payload
  parsed : session.frameIn.parsed = 0
  idx : session.frameIn.idx = 4

/-- The memory with the first bytes of a payload unmasked in the frame buffer, which
a pong does not use. -/
def payloadMemory (session : WsSession) (payload : Bytes) : Nat → Memory :=
  if opCode session.frameIn.flags = ymoWsOpPong then session.memory
  else
    Function.update session.memory session.frameIn.block
      (storeAll (session.memory session.frameIn.block) 0
        (unmask session.frameIn.maskingKey 0 payload))

theorem unmask_append (key : Memory) (place : Nat) (front back : Bytes) :
    unmask key place (front ++ back) =
      unmask key place front ++ unmask key (place + front.length) back := by
  induction front generalizing place with
  | nil => rfl
  | cons byte front ih =>
      rw [List.cons_append, unmask, unmask, ih,
        List.cons_append, List.length_cons, Nat.add_assoc, Nat.add_comm 1]

/-- What stands after the calls with some pieces. -/
structure Unmasks
    (before : WsSession)
    (pieces : List Piece)
    (calls : Calls) :
    Prop where
  frame :
    ∃ parseState idx,
      calls.session.frameIn =
        { before.frameIn with
          parsed := calls.consumed.length
          parseState := parseState
          idx := idx }
  place :
    opCode before.frameIn.flags ≠ ymoWsOpPong →
      calls.session.frameIn.idx % 4 = calls.consumed.length % 4
  memory : calls.session.memory = payloadMemory before calls.consumed
  within : calls.consumed.length ≤ before.frameIn.len
  consumed : calls.consumed <+: pieces.flatMap Piece.bytes
  all :
    calls.session.frameIn.parseState = .payload →
      calls.failed = false →
        calls.consumed = pieces.flatMap Piece.bytes
  complete :
    calls.session.frameIn.parseState = .complete →
      calls.consumed.length = before.frameIn.len
  goesOn :
    calls.failed = false →
      calls.session.frameIn.parseState = .complete ∨
        calls.session.frameIn.parseState = .payload ∧
          (pieces ≠ [] → calls.consumed.length < before.frameIn.len)
  stores : ∀ entry ∈ calls.stores, entry.1 < before.frameIn.len

theorem unmasks_first {session : WsSession} (next : PayloadNext session) :
    Unmasks session [] (Calls.first session) where
  frame := by
    refine ⟨.payload, 4, ?_⟩
    rw [← next.parseState, ← next.idx]
    show session.frameIn = { session.frameIn with parsed := 0 }
    rw [← next.parsed]
  place := by
    intro _
    show session.frameIn.idx % 4 = 0
    rw [next.idx]
  memory := by
    rw [payloadMemory]
    split
    · rfl
    · exact (Function.update_eq_self _ _).symm
  within := Nat.zero_le _
  consumed := List.prefix_refl _
  all := by
    intro _ _
    rfl
  complete := by
    intro complete
    have absurdity := next.parseState.symm.trans complete
    cases absurdity
  goesOn := by
    intro _
    exact Or.inr ⟨next.parseState, fun some => absurd rfl some⟩
  stores := by rintro entry ⟨⟩

theorem payloadDone_memory (session : WsSession) :
    (payloadDone session).memory = session.memory := by
  simp only [payloadDone]
  split
  · rfl
  · rfl

/-- What the check and the end of a frame leave as it was. -/
theorem parseStored_frame (start parseLen : Nat) :
    ∃ parseState,
      (parseStored session start parseLen).1.frameIn =
          { session.frameIn with parseState := parseState } ∧
        (parseStored session start parseLen).1.memory =
            session.memory ∧
          (parseState = session.frameIn.parseState ∨
              session.frameIn.parsed = session.frameIn.len) ∧
            ((parseStored session start parseLen).2.isOk = true →
              session.frameIn.parsed = session.frameIn.len →
                parseState = .complete) := by
  rw [parseStored]
  cases checkPayload session start parseLen with
  | error errno =>
      refine ⟨_, rfl, rfl, Or.inl rfl, ?_⟩
      intro passed
      cases passed
  | ok utf8State =>
      cases done : session.frameIn.done with
      | false =>
          simp only [done]
          refine ⟨_, rfl, rfl, Or.inl rfl, ?_⟩
          intro _ all
          rw [WsFrame.done, all, beq_self_eq_true] at done
          cases done
      | true =>
          simp only [done, if_true]
          exact
            ⟨.complete, payloadDone_frameIn _, payloadDone_memory _,
              Or.inr (beq_iff_eq.mp done), fun _ _ => rfl⟩

/-- What the calls store is the next part of the payload. -/
theorem payloadMemory_append {before session : WsSession}
    {payload data : Bytes}
    (flags : session.frameIn.flags = before.frameIn.flags)
    (key : session.frameIn.maskingKey = before.frameIn.maskingKey)
    (block : session.frameIn.block = before.frameIn.block)
    (parsed : session.frameIn.parsed = payload.length)
    (place :
      opCode before.frameIn.flags ≠ ymoWsOpPong →
        session.frameIn.idx % 4 = payload.length % 4)
    (memory : session.memory = payloadMemory before payload) :
    (storePayload session data).memory =
      payloadMemory before (payload ++ data) := by
  by_cases pong : opCode before.frameIn.flags = ymoWsOpPong
  · rw [storePayload, unmaskPayload, flags, if_pos pong, payloadMemory,
      if_pos pong]
    show session.memory = _
    rw [memory, payloadMemory, if_pos pong]
  · have turned :
        unmask before.frameIn.maskingKey session.frameIn.idx data =
          unmask before.frameIn.maskingKey (0 + payload.length) data := by
      rw [Nat.zero_add]
      exact unmask_congr _ (place pong) data
    rw [storePayload, unmaskPayload, flags, if_neg pong, payloadMemory,
      if_neg pong]
    show
      Function.update session.memory session.frameIn.block
          (storeAll (session.memory session.frameIn.block)
            session.frameIn.parsed
            (unmask session.frameIn.maskingKey session.frameIn.idx data)) =
        _
    rw [memory, payloadMemory, if_neg pong, block, key, parsed, turned,
      unmask_append, storeAll_append, length_unmask,
      Function.update_idem, Function.update_self, Nat.zero_add]

/-- What stands after a call, refused or not, that took some bytes. -/
structure Called
    (session : WsSession)
    (data : Bytes)
    (after : WsSession)
    (parsed : Parsed)
    (parseState : WsParseState)
    (idx : Nat) :
    Prop where
  frame :
    after.frameIn =
      { session.frameIn with
        parsed := session.frameIn.parsed + data.length
        parseState := parseState
        idx := idx }
  memory : after.memory = (storePayload session data).memory
  kept :
    parseState = session.frameIn.parseState ∨
      session.frameIn.parsed + data.length = session.frameIn.len
  done :
    parsed.isOk = true →
      session.frameIn.parsed + data.length = session.frameIn.len →
        parseState = .complete
  place :
    opCode session.frameIn.flags ≠ ymoWsOpPong →
      idx % 4 = (session.frameIn.idx + data.length) % 4

theorem exists_parsePayloadAt (piece : Piece) :
    ∃ after parsed parseState idx,
      ymoWsParsePayloadAt session piece =
          some
            (after, parsed,
              payloadStores session.frameIn
                (piece.take (session.frameIn.len - session.frameIn.parsed))) ∧
        Called session
          (piece.bytes.take (session.frameIn.len - session.frameIn.parsed))
          after parsed parseState idx := by
  rcases parsePayloadAt_eq session piece with ⟨idx, place, called⟩
  rw [ymoWsParsePayload_stored] at place called
  rw [idx_parseStored] at place
  generalize
    piece.bytes.take (session.frameIn.len - session.frameIn.parsed) =
      data at place called ⊢
  rcases
    parseStored_frame (storePayload session data)
      (checkStart session.frameIn) data.length with
    ⟨parseState, frame, memory, kept, done⟩
  have stored := stored_storePayload session data
  rw [stored.parseState, stored.parsed, stored.len] at kept
  rw [stored.parsed, stored.len] at done
  refine ⟨_, _, parseState, idx, called, ?_, memory, kept, done, ?_⟩
  · rw [withIdx, frame]
    rcases exists_storePayload session data with ⟨_, _, same⟩
    rw [same]
  · intro unlikePong
    rw [place, storePayload, unmaskPayload, if_neg unlikePong]

/-- A call stores below the length of the frame. -/
theorem payloadStores_below {frame : WsFrame}
    (within : frame.parsed ≤ frame.len)
    {entry : Nat × UInt8}
    (member :
      entry ∈ payloadStores frame (piece.take (frame.len - frame.parsed))) :
    entry.1 < frame.len := by
  rw [payloadStores] at member
  split at member
  · cases member
  · rcases List.mem_map.mp member with ⟨index, inside, rfl⟩
    have below : index < min piece.length (frame.len - frame.parsed) :=
      List.mem_range.mp inside
    show frame.parsed + index < frame.len
    omega

theorem unmasks_nextCall {before : WsSession} {pieces : List Piece}
    {calls : Calls}
    (unmasks : Unmasks before pieces calls)
    (piece : Piece) :
    ∃ later,
      nextCall calls piece = some later ∧
        Unmasks before (pieces ++ [piece]) later := by
  have flattened :
      (pieces ++ [piece]).flatMap Piece.bytes =
        pieces.flatMap Piece.bytes ++ piece.bytes := by
    rw [List.flatMap_append, List.flatMap_cons, List.flatMap_nil,
      List.append_nil]
  rw [nextCall]
  by_cases more :
      calls.session.frameIn.parseState = .payload ∧ calls.failed = false
  · rw [if_pos more]
    rcases exists_parsePayloadAt calls.session piece with
      ⟨after, parsed, parseState, idx, called, result⟩
    rcases unmasks.frame with ⟨parseStateNow, idxNow, frameNow⟩
    have all := unmasks.all more.1 more.2
    have len : calls.session.frameIn.len = before.frameIn.len := by
      rw [frameNow]
    have flags : calls.session.frameIn.flags = before.frameIn.flags := by
      rw [frameNow]
    have parsedNow : calls.session.frameIn.parsed = calls.consumed.length := by
      rw [frameNow]
    rw [called, Option.map_some]
    refine ⟨_, rfl, ?_⟩
    have counted :
        (calls.consumed ++
            piece.bytes.take
              (calls.session.frameIn.len -
                calls.session.frameIn.parsed)).length =
          calls.session.frameIn.parsed +
            (piece.bytes.take
              (calls.session.frameIn.len -
                calls.session.frameIn.parsed)).length := by
      rw [List.length_append, parsedNow]
    have short (passed : parsed.isOk = true)
        (unfinished : parseState ≠ .complete) :
        (piece.bytes.take
            (calls.session.frameIn.len -
              calls.session.frameIn.parsed)).length <
          calls.session.frameIn.len - calls.session.frameIn.parsed := by
      have open' := mt (result.done passed) unfinished
      have within := unmasks.within
      rw [← parsedNow, ← len] at within
      rw [List.length_take] at open' ⊢
      omega
    refine
      { frame := ?_
        place := ?_
        memory := ?_
        within := ?_
        consumed := ?_
        all := ?_
        complete := ?_
        goesOn := ?_
        stores := ?_ }
    · refine ⟨parseState, idx, ?_⟩
      rw [counted]
      show after.frameIn = _
      rw [result.frame, frameNow]
    · intro unlikePong
      have here := unmasks.place unlikePong
      rw [← flags] at unlikePong
      show after.frameIn.idx % 4 = _
      rw [counted, result.frame]
      show idx % 4 = _
      rw [result.place unlikePong, parsedNow]
      omega
    · show after.memory = _
      rw [result.memory]
      refine
        payloadMemory_append flags ?_ ?_ parsedNow unmasks.place unmasks.memory
      · rw [frameNow]
      · rw [frameNow]
        rfl
    · have within := unmasks.within
      rw [counted, parsedNow, len, List.length_take]
      omega
    · rw [flattened, all]
      exact (List.prefix_append_right_inj _).mpr (List.take_prefix _ _)
    · intro payload going
      have passed : parsed.isOk = true := Bool.not_eq_eq_eq_not.mp going
      have unfinished : parseState ≠ .complete := by
        rintro rfl
        rw [result.frame] at payload
        cases payload
      have short := short passed unfinished
      rw [List.length_take] at short
      have whole :
          piece.bytes.take
              (calls.session.frameIn.len - calls.session.frameIn.parsed) =
            piece.bytes :=
        List.take_of_length_le (by omega)
      rw [flattened, ← all, whole]
    · intro complete
      have reached : parseState = .complete := by
        rw [← complete]
        show _ = after.frameIn.parseState
        rw [result.frame]
      rcases result.kept with same | whole
      · rw [reached, more.1] at same
        cases same
      · rw [counted, whole, len]
    · intro going
      have passed : parsed.isOk = true := Bool.not_eq_eq_eq_not.mp going
      have state : after.frameIn.parseState = parseState := by
        rw [result.frame]
      show
        after.frameIn.parseState = .complete ∨
          after.frameIn.parseState = .payload ∧ _
      rw [state]
      by_cases reached : parseState = .complete
      · exact Or.inl reached
      · have short := short passed reached
        refine Or.inr ⟨?_, fun _ => ?_⟩
        · rcases result.kept with same | whole
          · exact same.trans more.1
          · exact absurd (result.done passed whole) reached
        · rw [counted]
          omega
    · intro entry member
      rcases List.mem_append.mp member with early | new
      · exact unmasks.stores entry early
      · rw [← len]
        refine payloadStores_below ?_ new
        rw [parsedNow, len]
        exact unmasks.within
  · rw [if_neg more]
    refine ⟨calls, rfl, ?_⟩
    refine
      { frame := unmasks.frame
        place := unmasks.place
        memory := unmasks.memory
        within := unmasks.within
        consumed := ?_
        all := ?_
        complete := unmasks.complete
        goesOn := ?_
        stores := unmasks.stores }
    · rw [flattened]
      exact unmasks.consumed.trans (List.prefix_append _ _)
    · intro payload going
      exact absurd ⟨payload, going⟩ more
    · intro going
      rcases unmasks.goesOn going with complete | ⟨payload, -⟩
      · exact Or.inl complete
      · exact absurd ⟨payload, going⟩ more

theorem unmasks_parsePieces {before : WsSession} {done : List Piece}
    {calls : Calls}
    (unmasks : Unmasks before done calls)
    (pieces : List Piece) :
    ∃ later,
      parsePieces calls pieces = some later ∧
        Unmasks before (done ++ pieces) later := by
  induction pieces generalizing done calls with
  | nil =>
      rw [List.append_nil]
      exact ⟨calls, rfl, unmasks⟩
  | cons piece rest ih =>
      rcases unmasks_nextCall unmasks piece with ⟨next, called, stepped⟩
      rcases ih stepped with ⟨later, ends, run⟩
      refine ⟨later, ?_, ?_⟩
      · rw [parsePieces, called]
        exact ends
      · rw [List.append_cons]
        exact run

/-- A frame buffer holds the payload of a frame, unmasked. -/
def HoldsUnmasked (key buffer : Memory) (payload : Bytes) : Prop :=
  ∀ index byte,
    payload[index]? = some byte → buffer index = byte ^^^ key (index % 4)

theorem getElem?_unmask (key : Memory) (place index : Nat) (payload : Bytes) :
    (unmask key place payload)[index]? =
      payload[index]?.map fun byte => byte ^^^ key ((place + index) % 4) := by
  induction payload generalizing place index with
  | nil => rfl
  | cons byte payload ih =>
      cases index with
      | zero => rfl
      | succ index =>
          rw [unmask, List.getElem?_cons_succ, List.getElem?_cons_succ,
            ih, Nat.add_assoc, Nat.add_comm 1]

theorem holdsUnmasked_of_holds {key buffer : Memory} {payload : Bytes}
    (holds : Holds buffer 0 (unmask key 0 payload)) :
    HoldsUnmasked key buffer payload := by
  intro index byte found
  have unmasked :
      (unmask key 0 payload)[index]? = some (byte ^^^ key (index % 4)) := by
    rw [getElem?_unmask, found, Nat.zero_add]
    rfl
  have held := holds index _ unmasked
  rw [Nat.zero_add] at held
  exact held

/-- Past the length of the frame, and in other buffers, nothing changes. -/
theorem payloadMemory_elsewhere {session : WsSession} {payload : Bytes}
    (within : payload.length ≤ session.frameIn.len)
    {block offset : Nat}
    (elsewhere :
      block ≠ session.frameIn.block ∨ session.frameIn.len ≤ offset) :
    payloadMemory session payload block offset =
      session.memory block offset := by
  rw [payloadMemory]
  split
  · rfl
  · by_cases same : block = session.frameIn.block
    · have past : session.frameIn.len ≤ offset :=
        elsewhere.resolve_left (fun different => different same)
      rw [same, Function.update_self, storeAll_outside]
      refine Or.inr ?_
      rw [length_unmask]
      omega
    · rw [Function.update_of_ne same]

/-- **Unmasking**: however the payload of a frame is cut into calls, and wherever the
pieces stand, the calls end and store nothing at or past the length of the frame; once
the frame is complete, its buffer holds the payload xored with the key, unless it is a
pong; and where no call refuses the payload, the frame is complete with its last byte. -/
theorem payload_unmasked {session : WsSession} (next : PayloadNext session)
    (pieces : List Piece) :
    ∃ calls,
      parsePieces (Calls.first session) pieces = some calls ∧
        (∀ entry ∈ calls.stores, entry.1 < session.frameIn.len) ∧
          (∀ block offset,
            block ≠ session.frameIn.block ∨
                session.frameIn.len ≤ offset →
              calls.session.memory block offset =
                session.memory block offset) ∧
            (calls.session.frameIn.parseState = .complete →
              opCode session.frameIn.flags ≠ ymoWsOpPong →
                calls.session.frameIn.buffer = session.frameIn.buffer ∧
                  (pieces.flatMap Piece.bytes).length ≥
                    session.frameIn.len ∧
                    HoldsUnmasked session.frameIn.maskingKey
                      (calls.session.memory calls.session.frameIn.block)
                      ((pieces.flatMap Piece.bytes).take
                        session.frameIn.len)) ∧
              (calls.failed = false → pieces ≠ [] →
                session.frameIn.len ≤
                  (pieces.flatMap Piece.bytes).length →
                  calls.session.frameIn.parseState = .complete) := by
  rcases unmasks_parsePieces (unmasks_first next) pieces with
    ⟨calls, ends, unmasks⟩
  rw [List.nil_append] at unmasks
  refine ⟨calls, ends, unmasks.stores, ?_, ?_, ?_⟩
  · intro block offset elsewhere
    rw [unmasks.memory]
    exact payloadMemory_elsewhere unmasks.within elsewhere
  · intro complete unlikePong
    have whole := unmasks.complete complete
    rcases unmasks.frame with ⟨parseState, idx, frame⟩
    have payload :
        (pieces.flatMap Piece.bytes).take session.frameIn.len =
          calls.consumed := by
      rw [← whole]
      exact (List.prefix_iff_eq_take.mp unmasks.consumed).symm
    have block : calls.session.frameIn.block = session.frameIn.block := by
      rw [frame]
      rfl
    refine ⟨?_, ?_, ?_⟩
    · rw [frame]
    · rw [← whole]
      exact unmasks.consumed.length_le
    · rw [payload, block, unmasks.memory, payloadMemory,
        if_neg unlikePong, Function.update_self]
      exact holdsUnmasked_of_holds (holds_storeAll _ _ _)
  · intro going some covered
    rcases unmasks.goesOn going with complete | ⟨payload, short⟩
    · exact complete
    · have whole := unmasks.all payload going
      have less := short some
      rw [whole] at less
      omega

/-- A session after the header of a binary frame of five bytes. -/
def fiveBytesNext : WsSession :=
  let session := (ymoWsParseOp (ymoWsSessionCreate fun _ _ => 0) 0x82).1
  (ymoWsParseMaskingKey (ymoWsParseLen session 0x85).1 [1, 2, 3, 4]).1

theorem fiveBytesNext_next : PayloadNext fiveBytesNext :=
  ⟨rfl, rfl, rfl⟩

/-- Two bytes around a word boundary. -/
def oddPiece : Piece where
  source offset := UInt8.ofNat offset
  address := 0x1003
  length := 2
  fits := by
    rw [addressModulus]
    decide

/-- Four bytes from a word boundary on, of which one is past the frame. -/
def alignedPiece : Piece where
  source offset := UInt8.ofNat offset
  address := 0x2000
  length := 4
  fits := by
    rw [addressModulus]
    decide

theorem fiveBytes_unmasked :
    ∃ calls,
      parsePieces (Calls.first fiveBytesNext) [oddPiece, alignedPiece] =
          some calls ∧
        (∀ entry ∈ calls.stores, entry.1 < 5) ∧
          (calls.session.frameIn.parseState = .complete →
            HoldsUnmasked fiveBytesNext.frameIn.maskingKey
              (calls.session.memory 0)
              [0x03, 0x04, 0x00, 0x01, 0x02]) := by
  rcases
    payload_unmasked fiveBytesNext_next [oddPiece, alignedPiece] with
    ⟨calls, ends, stores, -, unmasked, -⟩
  refine ⟨calls, ends, stores, ?_⟩
  intro complete
  rcases unmasked complete (by decide) with ⟨buffer, -, holds⟩
  have block : calls.session.frameIn.block = 0 := by
    rw [WsFrame.block, buffer]
    rfl
  rw [block] at holds
  exact holds

end Yimmo.Ws.Unmasking
