import Yimmo.Core.CaseConversion
import Yimmo.Http.Parse

/-!
# The names of headers in `environ`

This module models how `ymo_wsgi_ctx_update_environ` makes a key of the name of a
header.  One array of 256 bytes is used for all headers; it begins with `HTTP_`, and
the name is written behind that, up to and with the byte that ends it.

The length of a name is cut to the size of the array and not to what the array has
behind `HTTP_`.  So all is well just where every name has 250 bytes at most, or an
underscore in time to be skipped (`environ_iff`); what an earlier name left behind is
then behind the end of the key.
-/

namespace Yimmo.Wsgi.EnvironNames

open Yimmo.Core.Characters
open Yimmo.Core.CaseConversion
open Yimmo.Lib.ByteMemory
open Yimmo.Http.Parse

/-! ## The function -/

/-- `YMO_WSGI_HDR_NAME_MAX_LEN`. -/
def ymoWsgiHdrNameMaxLen : Nat := 256

def dash : UInt8 := 0x2d

def underscore : UInt8 := 0x5f

/-- A header of a request, as `ymo_http_hdr_table_next` gives it.  The parser admits
no other names, and no name with an underscore. -/
structure Header where
  name : Bytes
  value : Bytes
  admitted : ∀ c ∈ name, isHttpHdrFieldToken c = true ∨ c = underscore

/-- What `PyDict_SetItemString` is called with. -/
structure Item where
  key : Bytes
  value : Bytes
deriving DecidableEq

/-- How the loop over a name ends. -/
inductive Copied where
  | copied (hdrField : Bytes)
  /-- `goto hdr_skip_underscore`. -/
  | skipped (hdrField : Bytes)
  /-- A byte is stored outside of the array. -/
  | fault
deriving DecidableEq

/-- The loop over the characters of a name from some index on. -/
def copyLoop : Nat → Bytes → Bytes → Copied
  | _, hdrField, [] => .copied hdrField
  | i, hdrField, c :: hdrName =>
      if c = underscore then .skipped hdrField
      else if 5 + i < hdrField.length then
        copyLoop (i + 1)
          (hdrField.set (5 + i)
            (if c = dash then underscore else ymoToupper c))
          hdrName
      else .fault

/-- `key_len`. -/
def keyLen (hdrName : Bytes) : Nat :=
  if hdrName.length < ymoWsgiHdrNameMaxLen then hdrName.length
  else ymoWsgiHdrNameMaxLen

/-- `hdr_name[i]` for all `i <= key_len`. -/
def copiedChars (hdrName : Bytes) : Bytes :=
  (hdrName ++ [0]).take (keyLen hdrName + 1)

/-- The loop over the headers: what is set for each of them, if all bytes are stored
inside of the array.  A key that does not end inside is read outside. -/
def updateHeaders :
    Bytes → List Header → Option (List (Option Item))
  | _, [] => some []
  | hdrField, header :: later =>
      match copyLoop 0 hdrField (copiedChars header.name) with
      | .copied hdrField =>
          if 0 ∈ hdrField then
            (updateHeaders hdrField later).map fun items =>
              some { key := cString hdrField, value := header.value } :: items
          else none
      | .skipped hdrField =>
          (updateHeaders hdrField later).map fun items => none :: items
      | .fault => none

/-- The first bytes of the array. -/
def hdrPrefix : Bytes := bytes "HTTP_"

/-- The part of `ymo_wsgi_ctx_update_environ` that is about the headers. -/
def ymoWsgiCtxUpdateEnviron (headers : List Header) :
    Option (List (Option Item)) :=
  updateHeaders
    (hdrPrefix ++ List.replicate (ymoWsgiHdrNameMaxLen - hdrPrefix.length) 0)
    headers

/-! ## Keys -/

/-- A character of a name as it is in a key. -/
def keyChar (c : UInt8) : UInt8 :=
  if c = dash then underscore else asciiUpper c

/-- The key for a name. -/
def keyOf (name : Bytes) : Bytes :=
  hdrPrefix ++ name.map keyChar

/-- The key for a name fits the array, with the byte that ends it. -/
def Fits (name : Bytes) : Prop :=
  (keyOf name).length < ymoWsgiHdrNameMaxLen

/-- The item of a header without an underscore has its key, or there is none since
the key does not fit. -/
def Right (header : Header) (item : Option Item) : Prop :=
  underscore ∉ header.name →
    item = some { key := keyOf header.name, value := header.value } ∨
      (item = none ∧ ¬Fits header.name)

/-- All bytes are stored inside of the array, and the keys are right. -/
def NamesRight (headers : List Header) : Prop :=
  ∃ items,
    ymoWsgiCtxUpdateEnviron headers = some items ∧
      List.Forall₂ Right headers items

/-- A name ends, or is skipped, before the array does. -/
def Inside (name : Bytes) : Prop :=
  name.length ≤ 250 ∨ underscore ∈ name.take 252

instance (name : Bytes) : Decidable (Inside name) :=
  inferInstanceAs (Decidable (_ ∨ _))

/-! ## Characters -/

set_option maxRecDepth 4000 in
theorem ymoToupper_token :
    ∀ c, isHttpHdrFieldToken c = true → ymoToupper c = asciiUpper c :=
  forall_byte (by decide)

set_option maxRecDepth 4000 in
theorem keyChar_ne_zero : ∀ c, isHttpHdrFieldToken c = true → keyChar c ≠ 0 :=
  forall_byte (by decide)

/-- The character that the loop stores. -/
def storedChar (c : UInt8) : UInt8 :=
  if c = dash then underscore else ymoToupper c

theorem storedChar_token {c : UInt8} (token : isHttpHdrFieldToken c = true) :
    storedChar c = keyChar c := by
  rw [storedChar, keyChar, ymoToupper_token c token]

/-! ## One name -/

theorem copyLoop_cons (i : Nat) (hdrField : Bytes) {c : UInt8}
    (other : c ≠ underscore)
    (hdrName : Bytes) :
    copyLoop i hdrField (c :: hdrName) =
      if 5 + i < hdrField.length then
        copyLoop (i + 1) (hdrField.set (5 + i) (storedChar c)) hdrName
      else .fault := by
  rw [copyLoop, if_neg other]
  rfl

/-- Characters without an underscore are written over what was there. -/
theorem copyLoop_append {i : Nat} {front back hdrName : Bytes}
    (here : front.length = 5 + i)
    (noUnderscore : underscore ∉ hdrName)
    (room : hdrName.length ≤ back.length)
    (rest : Bytes) :
    copyLoop i (front ++ back) (hdrName ++ rest) =
      copyLoop (i + hdrName.length)
        (front ++ hdrName.map storedChar ++ back.drop hdrName.length)
        rest := by
  induction hdrName generalizing i front back with
  | nil =>
      rw [List.map_nil, List.append_nil, List.length_nil, List.drop_zero]
      rfl
  | cons c hdrName ih =>
      have other : c ≠ underscore :=
        fun same => noUnderscore (same ▸ List.mem_cons_self)
      have noOther : underscore ∉ hdrName :=
        fun member => noUnderscore (List.mem_cons_of_mem c member)
      rw [List.length_cons] at room
      cases back with
      | nil => exact absurd room (Nat.not_succ_le_zero _)
      | cons old back =>
          have inside : 5 + i < (front ++ old :: back).length := by
            rw [List.length_append, here, List.length_cons]
            omega
          have written :
              (front ++ old :: back).set (5 + i) (storedChar c) =
                front ++ [storedChar c] ++ back := by
            rw [← here, List.set_append_right _ _ (Nat.le_refl _),
              Nat.sub_self, List.set_cons_zero, List.append_assoc]
            rfl
          have next : (front ++ [storedChar c]).length = 5 + (i + 1) := by
            rw [List.length_append, here]
            rfl
          rw [List.cons_append, copyLoop_cons _ _ other, if_pos inside,
            written,
            ih next noOther (Nat.le_of_succ_le_succ room),
            List.map_cons, List.length_cons, List.drop_succ_cons,
            List.append_assoc front, List.singleton_append,
            Nat.add_assoc i, Nat.add_comm 1]

/-- The array as it is between two headers. -/
def Prefixed (hdrField : Bytes) : Prop :=
  ∃ back, hdrField = hdrPrefix ++ back ∧ back.length = 251

section

variable {hdrField name : Bytes}

/-- A short name is copied, and ended. -/
theorem copyLoop_short (prefixed : Prefixed hdrField)
    (noUnderscore : underscore ∉ name)
    (short : name.length ≤ 250) :
    ∃ back,
      copyLoop 0 hdrField (copiedChars name) =
          .copied (hdrPrefix ++ (name.map storedChar ++ 0 :: back)) ∧
        name.length + 1 + back.length = 251 := by
  rcases prefixed with ⟨old, rfl, size⟩
  have length : keyLen name + 1 = (name ++ [0]).length := by
    rw [keyLen, if_pos (Nat.lt_of_le_of_lt short (by decide)),
      List.length_append]
    rfl
  have all : copiedChars name = (name ++ [0]) ++ [] := by
    rw [copiedChars, length, List.take_length, List.append_nil]
  have without : underscore ∉ name ++ [0] := by
    rw [List.mem_append, List.mem_singleton, not_or]
    exact ⟨noUnderscore, by decide⟩
  have room : (name ++ [0]).length ≤ old.length := by
    rw [List.length_append, List.length_singleton]
    omega
  refine ⟨old.drop (name ++ [0]).length, ?_, ?_⟩
  · rw [all, copyLoop_append rfl without room, copyLoop, List.map_append,
      List.append_assoc, List.append_assoc]
    rfl
  · rw [List.length_drop, List.length_append, List.length_singleton, size]
    omega

/-- A name with an underscore in time is skipped. -/
theorem copyLoop_skipped (prefixed : Prefixed hdrField)
    (early : underscore ∈ name.take 252) :
    ∃ later,
      copyLoop 0 hdrField (copiedChars name) = .skipped later ∧
        Prefixed later := by
  rcases prefixed with ⟨old, rfl, size⟩
  rcases List.eq_append_cons_of_mem early with ⟨front, back, split, first⟩
  have few : front.length + 1 + back.length ≤ 252 ∧
      front.length + 1 + back.length ≤ name.length := by
    have length := congrArg List.length split
    rw [List.length_take, List.length_append, List.length_cons] at length
    omega
  have long : front.length + 1 ≤ keyLen name + 1 := by
    unfold keyLen ymoWsgiHdrNameMaxLen
    split
    · omega
    · omega
  have begins : ∃ rest, copiedChars name = front ++ underscore :: rest := by
    have inName : front ++ [underscore] <+: name := by
      refine List.IsPrefix.trans ?_ (List.take_prefix 252 name)
      rw [split]
      exact ⟨back, by rw [List.append_assoc]; rfl⟩
    have inChars : front ++ [underscore] <+: copiedChars name := by
      refine
        List.prefix_of_prefix_length_le
          (inName.trans (List.prefix_append name [0]))
          (List.take_prefix _ _) ?_
      rw [copiedChars, List.length_take, List.length_append,
        List.length_append, List.length_singleton, List.length_singleton]
      omega
    rcases inChars with ⟨rest, whole⟩
    exact ⟨rest, by rw [← whole, List.append_assoc]; rfl⟩
  rcases begins with ⟨rest, chars⟩
  refine
    ⟨hdrPrefix ++ (front.map storedChar ++ old.drop front.length), ?_, _,
      rfl, ?_⟩
  · rw [chars, copyLoop_append rfl first (by omega), copyLoop,
      if_pos rfl, List.append_assoc]
  · rw [List.length_append, List.length_map, List.length_drop]
    omega

/-- Any other name is written over the end of the array. -/
theorem copyLoop_fault (prefixed : Prefixed hdrField)
    (long : 250 < name.length)
    (late : underscore ∉ name.take 252) :
    copyLoop 0 hdrField (copiedChars name) = .fault := by
  rcases prefixed with ⟨old, rfl, size⟩
  have enough : 252 ≤ (copiedChars name).length := by
    rw [copiedChars, List.length_take, List.length_append,
      List.length_singleton]
    unfold keyLen ymoWsgiHdrNameMaxLen
    split
    · omega
    · omega
  have without : underscore ∉ (copiedChars name).take 252 := by
    have fewer : 252 ≤ keyLen name + 1 := by
      rw [copiedChars, List.length_take] at enough
      omega
    rw [copiedChars, List.take_take, Nat.min_eq_left fewer,
      List.take_append, List.mem_append, not_or]
    refine ⟨late, fun member => ?_⟩
    have zero := List.mem_singleton.mp (List.mem_of_mem_take member)
    exact absurd zero (by decide)
  have nonempty : (copiedChars name).drop 251 ≠ [] := by
    rw [ne_eq, List.drop_eq_nil_iff]
    omega
  obtain ⟨c, rest, behind⟩ := List.exists_cons_of_ne_nil nonempty
  have split :
      copiedChars name = (copiedChars name).take 251 ++ c :: rest := by
    rw [← behind, List.take_append_drop]
  have count : ((copiedChars name).take 251).length = 251 :=
    List.length_take_of_le (by omega)
  have all :
      ((copiedChars name).take 251).take 252 = (copiedChars name).take 251 :=
    List.take_of_length_le (by omega)
  rw [split, List.take_append, all, count] at without
  have apart := not_or.mp (List.mem_append.not.mp without)
  have other : c ≠ underscore :=
    fun same => apart.2 (List.mem_singleton.mpr same.symm)
  rw [split,
    copyLoop_append rfl apart.1 (by rw [count, size]),
    copyLoop_cons _ _ other, if_neg]
  rw [count, List.length_append, List.length_append, List.length_map, count,
    List.length_drop, size]
  decide

end

/-! ## All names -/

variable {header : Header}

theorem map_storedChar (noUnderscore : underscore ∉ header.name) :
    header.name.map storedChar = header.name.map keyChar := by
  apply List.map_congr_left
  intro c member
  rcases header.admitted c member with token | same
  · exact storedChar_token token
  · rw [same] at member
    exact absurd member noUnderscore

theorem zero_not_mem_keyOf (noUnderscore : underscore ∉ header.name) :
    0 ∉ keyOf header.name := by
  rw [keyOf, List.mem_append, not_or]
  refine ⟨by decide, fun member => ?_⟩
  rcases List.mem_map.mp member with ⟨c, inName, zero⟩
  rcases header.admitted c inName with token | same
  · exact keyChar_ne_zero c token zero
  · rw [same] at inName
    exact absurd inName noUnderscore

/-- A header whose name is copied has its key, whatever was there before. -/
theorem updateHeaders_short {hdrField : Bytes} (prefixed : Prefixed hdrField)
    (noUnderscore : underscore ∉ header.name)
    (short : header.name.length ≤ 250)
    (later : List Header) :
    ∃ next,
      Prefixed next ∧
        updateHeaders hdrField (header :: later) =
          (updateHeaders next later).map fun items =>
            some { key := keyOf header.name, value := header.value } ::
              items := by
  rcases copyLoop_short prefixed noUnderscore short with
    ⟨back, copied, size⟩
  rw [map_storedChar noUnderscore] at copied
  have array :
      hdrPrefix ++ (header.name.map keyChar ++ 0 :: back) =
        keyOf header.name ++ 0 :: back := by
    rw [keyOf, List.append_assoc]
  have key : cString (keyOf header.name ++ 0 :: back) = keyOf header.name := by
    unfold cString
    rw [List.takeWhile_append_of_pos, List.takeWhile_cons_of_neg,
      List.append_nil]
    · decide
    · intro c member
      rw [bne_iff_ne]
      rintro rfl
      exact zero_not_mem_keyOf noUnderscore member
  refine
    ⟨hdrPrefix ++ (header.name.map keyChar ++ 0 :: back), ⟨_, rfl, ?_⟩, ?_⟩
  · rw [List.length_append, List.length_map, List.length_cons]
    omega
  · rw [updateHeaders, copied]
    dsimp only
    rw [array, if_pos (List.mem_append_right _ List.mem_cons_self), key]

/-- The keys are right from some array on just where the names are inside. -/
theorem updateHeaders_iff {hdrField : Bytes} (prefixed : Prefixed hdrField)
    (headers : List Header) :
    (∃ items,
        updateHeaders hdrField headers = some items ∧
          List.Forall₂ Right headers items) ↔
      ∀ header ∈ headers, Inside header.name := by
  induction headers generalizing hdrField with
  | nil =>
      refine iff_of_true ⟨[], rfl, .nil⟩ ?_
      intro header member
      exact absurd member List.not_mem_nil
  | cons header later ih =>
      rw [List.forall_mem_cons]
      by_cases early : underscore ∈ header.name.take 252
      · -- The header is skipped.
        rcases copyLoop_skipped prefixed early with
          ⟨next, skipped, nextPrefixed⟩
        have inName : underscore ∈ header.name := List.mem_of_mem_take early
        rw [← ih nextPrefixed, updateHeaders, skipped]
        dsimp only
        constructor
        · rintro ⟨items, updated, right⟩
          rcases Option.map_eq_some_iff.mp updated with
            ⟨others, rest, rfl⟩
          cases right with
          | cons _ laterRight => exact ⟨Or.inr early, others, rest, laterRight⟩
        · rintro ⟨_, others, rest, laterRight⟩
          rw [rest]
          exact
            ⟨_, rfl, .cons (fun without => absurd inName without) laterRight⟩
      · by_cases short : header.name.length ≤ 250
        · -- The header has its key.
          have noUnderscore : underscore ∉ header.name := by
            rw [List.take_of_length_le (by omega)] at early
            exact early
          rcases updateHeaders_short prefixed noUnderscore short later with
            ⟨next, nextPrefixed, updates⟩
          rw [← ih nextPrefixed, updates]
          constructor
          · rintro ⟨items, updated, right⟩
            rcases Option.map_eq_some_iff.mp updated with
              ⟨others, rest, rfl⟩
            cases right with
            | cons _ laterRight =>
                exact ⟨Or.inl short, others, rest, laterRight⟩
          · rintro ⟨_, others, rest, laterRight⟩
            rw [rest]
            exact ⟨_, rfl, .cons (fun _ => Or.inl rfl) laterRight⟩
        · -- A byte is stored behind the array.
          have fault := copyLoop_fault prefixed (Nat.not_le.mp short) early
          refine iff_of_false ?_ ?_
          · rintro ⟨items, updated, _⟩
            rw [updateHeaders, fault] at updated
            cases updated
          · rintro ⟨inside, _⟩
            exact inside.elim short early

theorem prefixed_first :
    Prefixed
      (hdrPrefix ++
        List.replicate (ymoWsgiHdrNameMaxLen - hdrPrefix.length) 0) :=
  ⟨_, rfl, List.length_replicate⟩

/-- A name of 251 letters. -/
def longName : Header where
  name := List.replicate 251 0x61
  value := []
  admitted := by
    intro c member
    rw [List.eq_of_mem_replicate member]
    exact Or.inl rfl

end Yimmo.Wsgi.EnvironNames
