import Yimmo.Lib.ByteMemory

/-!
# The tokens of a string

`tokens` are the pieces of a string between separators that are not empty.
`strtokR` is `strtok_r`: it looks for the next token from a pointer on, stores a
zero behind it, and leaves the pointer behind the zero.

`strtokR_spec` says that the two agree on every string that is stored with a zero
behind it: a call finds the first token, and what is behind the pointer
afterwards is a string whose tokens are the others.
-/

namespace Yimmo.Lib.Tokens

open Yimmo.Lib.ByteMemory

/-- The pieces between separators that are not empty. -/
def tokens (isSep : UInt8 → Bool) (data : List UInt8) : List (List UInt8) :=
  (data.splitOnP isSep).filter fun piece => piece ≠ []

section

variable {isSep : UInt8 → Bool}

theorem tokens_sep {c : UInt8} (separates : isSep c = true)
    (data : List UInt8) :
    tokens isSep (c :: data) = tokens isSep data := by
  have split : (c :: data).splitOnP isSep = [] :: data.splitOnP isSep := by
    have first := List.splitOnP_append_cons [] data separates
    rw [List.splitOnP_nil] at first
    exact first
  rw [tokens, split, List.filter_cons_of_neg (by simp)]
  rfl

/-- Separators in front of the first token do not matter. -/
theorem tokens_gap {gap : List UInt8} (separates : ∀ c ∈ gap, isSep c = true)
    (data : List UInt8) :
    tokens isSep (gap ++ data) = tokens isSep data := by
  induction gap with
  | nil => rfl
  | cons c gap ih =>
      rw [List.cons_append, tokens_sep (separates c List.mem_cons_self)]
      apply ih
      intro other member
      exact separates other (List.mem_cons_of_mem c member)

theorem tokens_nil : tokens isSep [] = [] := by
  simp [tokens]

/-- A string without separators is one token. -/
theorem tokens_single {token : List UInt8}
    (plain : ∀ c ∈ token, isSep c = false)
    (nonempty : token ≠ []) :
    tokens isSep token = [token] := by
  rw [tokens, List.splitOnP_eq_singleton plain,
    List.filter_cons_of_pos (by simpa using nonempty), List.filter_nil]

/-- A token ends at a separator. -/
theorem tokens_cons {token : List UInt8} (plain : ∀ c ∈ token, isSep c = false)
    (nonempty : token ≠ [])
    {sep : UInt8}
    (separates : isSep sep = true)
    (later : List UInt8) :
    tokens isSep (token ++ sep :: later) = token :: tokens isSep later := by
  rw [tokens, List.splitOnP_append_cons token later separates,
    List.filter_append]
  exact congrArg (· ++ tokens isSep later) (tokens_single plain nonempty)

end

/-! ## `strtok_r` -/

/--
`strtok_r` from a pointer on, with the separators as a predicate: the offset of
the token and the pointer for the next call, if there is a token, and the memory
afterwards.
-/
def strtokR (isSep : UInt8 → Bool) (limit : Nat) (memory : Memory)
    (saveptr : Nat) :
    Option (Nat × Nat) × Memory :=
  let string := readString memory limit saveptr
  let start := saveptr + (string.takeWhile isSep).length
  let token := (string.dropWhile isSep).takeWhile fun c => !isSep c
  let stop := start + token.length
  if token = [] then (none, memory)
  else if memory stop = 0 then (some (start, stop), memory)
  else (some (start, stop + 1), store memory stop 0)

theorem length_cstr_le (memory : Memory) (length start : Nat) :
    (cstr memory length start).length ≤ length := by
  induction length generalizing start with
  | zero => exact Nat.le_refl 0
  | succ length ih =>
      rw [cstr]
      split
      · exact Nat.zero_le _
      · exact Nat.succ_le_succ (ih (start + 1))

/-- The pointer moves on, and was below the limit. -/
theorem strtokR_advances {isSep : UInt8 → Bool} {limit : Nat}
    {memory later : Memory}
    {saveptr start next : Nat}
    (found :
      strtokR isSep limit memory saveptr = (some (start, next), later)) :
    saveptr < next ∧ saveptr < limit := by
  unfold strtokR at found
  dsimp only at found
  split at found
  · exact absurd (congrArg Prod.fst found) (by simp)
  next nonempty =>
    have inside : readString memory limit saveptr ≠ [] := by
      intro empty
      rw [empty] at nonempty
      exact nonempty rfl
    have bound := length_cstr_le memory (limit - saveptr) saveptr
    have room := List.length_pos_iff.mpr inside
    have token := List.length_pos_iff.mpr nonempty
    rw [readString] at room
    constructor
    · split at found
      · have pair := Option.some.inj (congrArg Prod.fst found)
        have same := congrArg Prod.snd pair
        dsimp only at same
        omega
      · have pair := Option.some.inj (congrArg Prod.fst found)
        have same := congrArg Prod.snd pair
        dsimp only at same
        omega
    · omega

theorem holds_nil (memory : Memory) (start : Nat) : Holds memory start [] := by
  intro index byte found
  cases found

theorem not_of_dropWhile {stops : UInt8 → Bool} {data : List UInt8} {c : UInt8}
    {rest : List UInt8}
    (dropped : data.dropWhile stops = c :: rest) :
    stops c = false := by
  have first := List.head?_dropWhile_not stops data
  rw [dropped] at first
  exact first

/-- A store elsewhere leaves the bytes alone. -/
theorem holds_store {memory : Memory} {start : Nat} {data : List UInt8}
    (holds : Holds memory start data)
    {offset : Nat}
    (outside : offset < start ∨ start + data.length ≤ offset)
    (byte : UInt8) :
    Holds (store memory offset byte) start data := by
  intro index other found
  have inside := (List.getElem?_eq_some_iff.mp found).1
  rw [store_other memory byte (show start + index ≠ offset by omega)]
  exact holds index other found

/-- What a call of `strtok_r` leaves of the string that was behind the pointer. -/
inductive NextToken
    (isSep : UInt8 → Bool)
    (limit : Nat)
    (data : List UInt8) :
    Option (Nat × Nat) × Memory → Prop where
  | absent
      {memory : Memory}
      (none : tokens isSep data = []) :
      NextToken isSep limit data (.none, memory)
  | found
      {memory : Memory}
      {start next : Nat}
      (token rest : List UInt8)
      (split : tokens isSep data = token :: tokens isSep rest)
      (read : readString memory limit start = token)
      (terminated : Terminated memory limit next rest)
      (noZero : 0 ∉ rest) :
      NextToken isSep limit data (some (start, next), memory)

/-- A call finds the first token, and the others are behind the pointer. -/
theorem strtokR_spec {isSep : UInt8 → Bool} {limit : Nat} {memory : Memory}
    {saveptr : Nat}
    {data : List UInt8}
    (terminated : Terminated memory limit saveptr data)
    (noZero : 0 ∉ data) :
    NextToken isSep limit data (strtokR isSep limit memory saveptr) := by
  have read : readString memory limit saveptr = data := by
    rw [terminated.readString, cString_of_not_mem noZero]
  obtain ⟨gap, hgap⟩ : ∃ gap, gap = data.takeWhile isSep := ⟨_, rfl⟩
  obtain ⟨body, hbody⟩ : ∃ body, body = data.dropWhile isSep := ⟨_, rfl⟩
  obtain ⟨token, htoken⟩ :
      ∃ token, token = body.takeWhile fun c => !isSep c := ⟨_, rfl⟩
  obtain ⟨rest, hrest⟩ :
      ∃ rest, rest = body.dropWhile fun c => !isSep c := ⟨_, rfl⟩
  have whole : data = gap ++ (token ++ rest) := by
    rw [hgap, htoken, hrest, List.takeWhile_append_dropWhile, hbody,
      List.takeWhile_append_dropWhile]
  have separates : ∀ c ∈ gap, isSep c = true := by
    rw [hgap]
    exact fun c member => List.mem_takeWhile_imp member
  have plain : ∀ c ∈ token, isSep c = false := by
    rw [htoken]
    intro c member
    have kept := List.mem_takeWhile_imp member
    simpa using kept
  have toTokens : tokens isSep data = tokens isSep (token ++ rest) := by
    rw [whole, tokens_gap separates]
  have holds := terminated.holds
  have below := terminated.below
  rw [whole, List.append_assoc, List.append_assoc, holds_append,
    holds_append] at holds
  rw [whole, List.length_append, List.length_append] at below
  rcases holds with ⟨-, holdsToken, holdsRest⟩
  unfold strtokR
  dsimp only
  rw [read, ← hgap, ← hbody, ← htoken]
  by_cases empty : token = []
  · rw [if_pos empty]
    apply NextToken.absent
    have nothing : body = [] := by
      cases shape : body with
      | nil => rfl
      | cons c others =>
          have notSep : isSep c = false := by
            rw [hbody] at shape
            exact not_of_dropWhile shape
          rw [shape, List.takeWhile_cons_of_pos (by rw [notSep]; rfl)]
            at htoken
          exact absurd (htoken.symm.trans empty) (List.cons_ne_nil _ _)
    rw [toTokens, empty, hrest, nothing]
    exact tokens_nil
  rw [if_neg empty]
  have tokenNoZero : 0 ∉ token := by
    intro member
    apply noZero
    rw [whole]
    exact List.mem_append_right gap (List.mem_append_left rest member)
  cases shape : rest with
  | nil =>
      rw [shape] at holdsRest
      have ends : memory (saveptr + gap.length + token.length) = 0 :=
        holdsRest 0 0 rfl
      rw [if_pos ends]
      rw [shape, List.append_nil] at toTokens
      rw [shape, List.length_nil] at below
      have here : Terminated memory limit (saveptr + gap.length) token := by
        refine ⟨holds_append.mpr ⟨holdsToken, ?_⟩, by omega⟩
        exact holds_cons.mpr ⟨ends, holds_nil _ _⟩
      refine NextToken.found token [] ?_ ?_ ?_ List.not_mem_nil
      · rw [toTokens, tokens_single plain empty, tokens_nil]
      · rw [here.readString, cString_of_not_mem tokenNoZero]
      · refine ⟨holds_cons.mpr ⟨ends, holds_nil _ _⟩, ?_⟩
        rw [List.length_nil]
        omega
  | cons sep later =>
      have separator : isSep sep = true := by
        rw [hrest] at shape
        have stopped := not_of_dropWhile shape
        simpa using stopped
      have inside : sep :: later ⊆ data := by
        intro c member
        rw [whole, shape]
        exact List.mem_append_right gap (List.mem_append_right token member)
      rw [shape, List.cons_append, holds_cons] at holdsRest
      rw [shape, List.length_cons] at below
      have goesOn : memory (saveptr + gap.length + token.length) ≠ 0 := by
        rw [holdsRest.1]
        intro zero
        apply noZero
        rw [← zero]
        exact inside List.mem_cons_self
      rw [if_neg goesOn]
      refine NextToken.found token later ?_ ?_ ?_ ?_
      · rw [toTokens, shape, tokens_cons plain empty separator]
      · have here :
            Terminated
              (store memory (saveptr + gap.length + token.length) 0)
              limit (saveptr + gap.length) token := by
          refine ⟨holds_append.mpr ⟨?_, ?_⟩, by omega⟩
          · exact holds_store holdsToken (Or.inr (Nat.le_refl _)) 0
          · exact holds_cons.mpr ⟨store_same _ _ _, holds_nil _ _⟩
        rw [here.readString, cString_of_not_mem tokenNoZero]
      · refine ⟨?_, by omega⟩
        exact holds_store holdsRest.2 (Or.inl (Nat.lt_succ_self _)) 0
      · intro member
        exact noZero (inside (List.mem_cons_of_mem sep member))

end Yimmo.Lib.Tokens
