import Mathlib.Data.List.Pairwise
import Yimmo.Http.HeaderLines

/-!
# The order of header lines

Header lines with distinct ids can be taken in any order, except that
`Connection: close` in HTTP/1.1 clears more than the keep-alive bit: the mask
`YMO_HTTP_FLAG_REQUEST_CLOSE` is one byte wide, so it also clears the bit that
`Transfer-Encoding: chunked` sets.
-/

namespace Yimmo.Http.HeaderOrder

open Yimmo.Lib.ByteMemory
open Yimmo.Http.Headers
open Yimmo.Http.HeaderMap
open Yimmo.Http.Exchange
open Yimmo.Http.Parse
open Yimmo.Http.HeaderLines

variable
    {flags : HttpFlags}
    {lines : List HeaderLine}
    {left right : HeaderLine}

/-- The ids of the lines are pairwise distinct. -/
def Distinct (lines : List HeaderLine) : Prop :=
  lines.Pairwise fun left right => left.hId ≠ right.hId

/-- Every permutation of the lines leaves the same. -/
def OrderFree (stray : Bytes) (exchange : HttpExchange)
    (lines : List HeaderLine) : Prop :=
  ∀ others, lines.Perm others →
    let first := gotHeaders stray exchange lines
    let second := gotHeaders stray exchange others
    second.request.flags = first.request.flags ∧
      second.request.contentLength = first.request.contentLength ∧
        contents second = contents first

/-! ## Two lines -/

/-- The lines do not get in each other's way. -/
def Apart (flags : HttpFlags) (left right : HeaderLine) : Prop :=
  flags.version11 = true →
    ¬ (isClose left ∧ isChunked right) ∧ ¬ (isChunked left ∧ isClose right)

/-- What a line does to the flags, by its kind. -/
inductive FlagsEffect (flags : HttpFlags) (line : HeaderLine) :
    (HttpFlags → HttpFlags) → Prop where
  | close
      (version : flags.version11 = true)
      (closes : isClose line) :
      FlagsEffect flags line HttpFlags.requestClose
  | keepalive
      (connection : line.hId = ymoHttpHidConnection)
      (version : flags.version11 = false) :
      FlagsEffect flags line fun flags =>
        { flags with requestKeepalive := true }
  | expect
      (expects : line.hId = ymoHttpHidExpect) :
      FlagsEffect flags line fun flags => { flags with expect := true }
  | upgrade
      (upgrades : line.hId = ymoHttpHidUpgrade) :
      FlagsEffect flags line fun flags => { flags with upgrade := true }
  | chunked
      (chunks : isChunked line) :
      FlagsEffect flags line fun flags => { flags with requestChunked := true }
  | nothing : FlagsEffect flags line id

/-- The effect depends on the version only, which stays. -/
theorem flagsEffect (flags : HttpFlags) (line : HeaderLine) :
    ∃ effect, FlagsEffect flags line effect ∧
      ∀ other : HttpFlags, other.version11 = flags.version11 →
        headerFlags line.hId line.value other = effect other := by
  by_cases connection : line.hId = ymoHttpHidConnection
  · by_cases version : flags.version11 = true
    · by_cases close :
          ymoStrcaseEqual line.value (bytes "close") = true
      · refine ⟨_, .close version (isClose_iff.mpr ⟨connection, close⟩), ?_⟩
        intro other same
        unfold headerFlags
        rw [if_pos connection, same, if_pos version, if_pos close]
      · refine ⟨_, .nothing, ?_⟩
        intro other same
        unfold headerFlags
        rw [if_pos connection, same, if_pos version, if_neg close]
        rfl
    · have old : flags.version11 = false := Bool.not_eq_true _ ▸ version
      by_cases keep : ymoStrcaseEqual line.value (bytes "keep-alive") = true
      · refine ⟨_, .keepalive connection old, ?_⟩
        intro other same
        unfold headerFlags
        rw [if_pos connection, same, if_neg version, if_pos keep]
      · refine ⟨_, .nothing, ?_⟩
        intro other same
        unfold headerFlags
        rw [if_pos connection, same, if_neg version, if_neg keep]
        rfl
  by_cases expects : line.hId = ymoHttpHidExpect
  · by_cases continues :
        ymoStrcaseEqual line.value (bytes "100-continue") = true
    · refine ⟨_, .expect expects, ?_⟩
      intro other same
      unfold headerFlags
      rw [if_neg connection, if_pos expects, if_pos continues]
    · refine ⟨_, .nothing, ?_⟩
      intro other same
      unfold headerFlags
      rw [if_neg connection, if_pos expects, if_neg continues]
      rfl
  by_cases upgrades : line.hId = ymoHttpHidUpgrade
  · refine ⟨_, .upgrade upgrades, ?_⟩
    intro other same
    unfold headerFlags
    rw [if_neg connection, if_neg expects, if_pos upgrades]
  by_cases encoding : line.hId = ymoHttpHidTransferEncoding
  · by_cases chunked :
        ymoStrcaseEqual line.value (bytes "chunked") = true
    · refine ⟨_, .chunked (isChunked_iff.mpr ⟨encoding, chunked⟩), ?_⟩
      intro other same
      unfold headerFlags
      rw [if_neg connection, if_neg expects, if_neg upgrades,
        if_pos encoding, if_pos chunked]
    · refine ⟨_, .nothing, ?_⟩
      intro other same
      unfold headerFlags
      rw [if_neg connection, if_neg expects, if_neg upgrades,
        if_pos encoding, if_neg chunked]
      rfl
  · refine ⟨_, .nothing, ?_⟩
    intro other same
    unfold headerFlags
    rw [if_neg connection, if_neg expects, if_neg upgrades, if_neg encoding]
    rfl

/-- The effects of two lines that are apart commute. -/
theorem flagsEffect_comm {first second : HttpFlags → HttpFlags}
    (effectLeft : FlagsEffect flags left first)
    (effectRight : FlagsEffect flags right second)
    (apart : Apart flags left right)
    (other : HttpFlags) :
    second (first other) = first (second other) := by
  cases effectLeft with
  | close version closes =>
      cases effectRight with
      | chunked chunks =>
          exact absurd ⟨closes, chunks⟩ (apart version).1
      | keepalive connection old =>
          rw [version] at old
          cases old
      | _ => rfl
  | chunked chunks =>
      cases effectRight with
      | close version closes =>
          exact absurd ⟨chunks, closes⟩ (apart version).2
      | _ => rfl
  | keepalive connection old =>
      cases effectRight with
      | close version closes =>
          rw [version] at old
          cases old
      | _ => rfl
  | _ => cases effectRight <;> rfl

theorem headerFlags_comm (apart : Apart flags left right) :
    headerFlags right.hId right.value
        (headerFlags left.hId left.value flags) =
      headerFlags left.hId left.value
        (headerFlags right.hId right.value flags) := by
  rcases flagsEffect flags left with ⟨first, effectLeft, firstEq⟩
  rcases flagsEffect flags right with ⟨second, effectRight, secondEq⟩
  rw [secondEq _ (version_headerFlags _ _ _),
    firstEq _ (version_headerFlags _ _ _), firstEq flags rfl,
    secondEq flags rfl]
  exact flagsEffect_comm effectLeft effectRight apart flags

theorem headerLength_comm {left right : HdrId} (distinct : left ≠ right)
    (first second : Bytes)
    (length : Nat) :
    headerLength right second (headerLength left first length) =
      headerLength left first (headerLength right second length) := by
  unfold headerLength
  by_cases isLeft : left = ymoHttpHidContentLength
  · have notRight : right ≠ ymoHttpHidContentLength :=
      fun isRight => distinct (isLeft.trans isRight.symm)
    rw [if_neg notRight, if_neg notRight]
  · rw [if_neg isLeft, if_neg isLeft]

/-! ## Lists of lines -/

theorem linesFlags_cons (flags : HttpFlags) (line : HeaderLine)
    (lines : List HeaderLine) :
    linesFlags flags (line :: lines) =
      linesFlags (headerFlags line.hId line.value flags) lines :=
  rfl

theorem linesFlags_perm {lines others : List HeaderLine}
    (perm : lines.Perm others)
    (apart : ∀ left ∈ lines, ∀ right ∈ lines, Apart flags left right) :
    linesFlags flags lines = linesFlags flags others := by
  induction perm generalizing flags with
  | nil => rfl
  | cons line perm ih =>
      rw [linesFlags_cons, linesFlags_cons]
      apply ih
      intro left inLeft right inRight version
      rw [version_headerFlags] at version
      exact
        apart left (List.mem_cons_of_mem line inLeft) right
          (List.mem_cons_of_mem line inRight) version
  | swap first second lines =>
      have both :=
        apart first (List.mem_cons_of_mem _ List.mem_cons_self) second
          List.mem_cons_self
      rw [linesFlags_cons, linesFlags_cons, linesFlags_cons,
        linesFlags_cons, headerFlags_comm both]
  | trans perm _ first second =>
      rw [first apart]
      apply second
      intro left inLeft right inRight
      exact
        apart left (perm.mem_iff.mpr inLeft) right (perm.mem_iff.mpr inRight)

theorem Distinct.ne (distinct : Distinct lines) (inLeft : left ∈ lines)
    (inRight : right ∈ lines)
    (different : left ≠ right) :
    left.hId ≠ right.hId := by
  have symm : Std.Symm fun left right : HeaderLine => left.hId ≠ right.hId :=
    ⟨fun _ _ apart => Ne.symm apart⟩
  exact List.Pairwise.forall distinct inLeft inRight different

theorem lengthAfter_perm {lines others : List HeaderLine}
    (perm : lines.Perm others)
    (distinct : Distinct lines)
    (length : Nat) :
    lengthAfter length lines = lengthAfter length others := by
  apply perm.foldl_eq'
  intro left inLeft right inRight length
  by_cases same : left = right
  · rw [same]
  · exact headerLength_comm (distinct.ne inLeft inRight same) _ _ length

/-- What a table has after a line with an id that is new to it. -/
def mapLine (map : HdrId → Option (Bytes × Bytes)) (line : HeaderLine) :
    HdrId → Option (Bytes × Bytes) :=
  Function.update map line.hId (some (line.name, cString line.value))

/-- The table after lines with ids of their own. -/
theorem contents_gotHeaders
    (stray : Bytes)
    {exchange : HttpExchange}
    (kept : Kept exchange)
    (distinct : Distinct lines)
    (absent :
      ∀ line ∈ lines,
        ymoHttpHdrTableGetId exchange.request.headers line.hId = none) :
    contents (gotHeaders stray exchange lines) =
      lines.foldl mapLine (contents exchange) := by
  induction lines generalizing exchange with
  | nil => rfl
  | cons line lines ih =>
      rcases List.pairwise_cons.mp distinct with ⟨apart, rest⟩
      have none := absent line List.mem_cons_self
      have first :
          contents (gotHeader stray exchange line) =
            mapLine (contents exchange) line := by
        have missing : contents exchange line.hId = Option.none := by
          unfold contents
          rw [none]
          rfl
        rw [contents_gotHeader kept, missing]
        · rfl
        · intro node found
          rw [none] at found
          cases found
      rw [gotHeaders, List.foldl_cons, ← gotHeaders,
        ih kept.gotHeader rest, first, List.foldl_cons]
      intro other member
      rw [getId_gotHeader, if_neg (Ne.symm (apart other member))]
      exact absent other (List.mem_cons_of_mem line member)

theorem updates_perm {lines others : List HeaderLine}
    (perm : lines.Perm others)
    (distinct : Distinct lines)
    (map : HdrId → Option (Bytes × Bytes)) :
    lines.foldl mapLine map = others.foldl mapLine map := by
  apply perm.foldl_eq'
  intro left inLeft right inRight map
  by_cases same : left = right
  · rw [same]
  · exact Function.update_comm (distinct.ne inLeft inRight same) _ _ map

/-! ## The two lines that are not apart -/

/-- Lines of other ids leave the chunked bit alone. -/
theorem requestChunked_linesFlags
    (others :
      ∀ line ∈ lines,
        line.hId ≠ ymoHttpHidConnection ∧
          line.hId ≠ ymoHttpHidTransferEncoding)
    (flags : HttpFlags) :
    (linesFlags flags lines).requestChunked = flags.requestChunked := by
  induction lines generalizing flags with
  | nil => rfl
  | cons line lines ih =>
      rcases others line List.mem_cons_self with
        ⟨notConnection, notEncoding⟩
      rw [linesFlags_cons,
        ih
          (fun other member =>
            others other (List.mem_cons_of_mem line member))]
      unfold headerFlags
      rw [if_neg notConnection]
      split_ifs <;> rfl

theorem headerFlags_close (version : flags.version11 = true)
    {line : HeaderLine}
    (closes : isClose line) :
    headerFlags line.hId line.value flags = flags.requestClose := by
  rcases isClose_iff.mp closes with ⟨connection, close⟩
  unfold headerFlags
  rw [if_pos connection, if_pos version, if_pos close]

theorem headerFlags_chunked (flags : HttpFlags) {line : HeaderLine}
    (chunks : isChunked line) :
    headerFlags line.hId line.value flags =
      { flags with requestChunked := true } := by
  rcases isChunked_iff.mp chunks with ⟨encoding, chunked⟩
  unfold headerFlags
  rw [encoding, if_neg (by decide), if_neg (by decide),
    if_neg (by decide), if_pos rfl, if_pos chunked]

/-- Whichever of the two comes last decides the chunked bit. -/
theorem not_orderFree {stray : Bytes} {exchange : HttpExchange}
    (distinct : Distinct lines)
    (version : exchange.request.flags.version11 = true)
    {close chunked : HeaderLine}
    (inClose : close ∈ lines)
    (closes : isClose close)
    (inChunked : chunked ∈ lines)
    (chunks : isChunked chunked) :
    ¬ OrderFree stray exchange lines := by
  intro free
  have connection := (isClose_iff.mp closes).1
  have encoding := (isChunked_iff.mp chunks).1
  have different : chunked ≠ close := by
    rintro rfl
    exact absurd (encoding.symm.trans connection) (by decide)
  let rest := (lines.erase close).erase chunked
  have perm : lines.Perm (close :: chunked :: rest) :=
    (List.perm_cons_erase inClose).trans
      ((List.perm_cons_erase
        ((List.mem_erase_of_ne different).mpr inChunked)).cons close)
  have swapped : lines.Perm (chunked :: close :: rest) :=
    perm.trans (List.Perm.swap _ _ _)
  have apart : Distinct (close :: chunked :: rest) :=
    perm.pairwise distinct Ne.symm
  rcases List.pairwise_cons.mp apart with ⟨notClose, later⟩
  rcases List.pairwise_cons.mp later with ⟨notChunked, -⟩
  have others :
      ∀ line ∈ rest,
        line.hId ≠ ymoHttpHidConnection ∧
          line.hId ≠ ymoHttpHidTransferEncoding := by
    intro line member
    rw [← connection, ← encoding]
    exact
      ⟨Ne.symm (notClose line (List.mem_cons_of_mem _ member)),
        Ne.symm (notChunked line member)⟩
  have closeFirst := (free _ perm).1
  have chunkedFirst := (free _ swapped).1
  have same := closeFirst.trans chunkedFirst.symm
  rw [flags_gotHeaders, flags_gotHeaders, linesFlags_cons,
    linesFlags_cons, linesFlags_cons, linesFlags_cons,
    headerFlags_close version closes, headerFlags_chunked _ chunks,
    headerFlags_chunked _ chunks] at same
  have stillVersion :
      ({ exchange.request.flags with requestChunked := true } :
        HttpFlags).version11 =
        true :=
    version
  rw [headerFlags_close stillVersion closes] at same
  have bits := congrArg HttpFlags.requestChunked same
  rw [requestChunked_linesFlags others,
    requestChunked_linesFlags others] at bits
  cases bits

/--
The order of header lines with distinct ids does not matter exactly when they are
not, in HTTP/1.1, both `Connection: close` and `Transfer-Encoding: chunked`.
-/
theorem orderFree_iff (stray : Bytes) {exchange : HttpExchange}
    (cleared : exchange.request.headers = ymoHttpHdrTableClear)
    {lines : List HeaderLine}
    (distinct : Distinct lines) :
    OrderFree stray exchange lines ↔
      ¬ (exchange.request.flags.version11 = true ∧
        (∃ line ∈ lines, isClose line) ∧
          ∃ line ∈ lines, isChunked line) := by
  constructor
  · rintro free
      ⟨version, ⟨close, inClose, closes⟩, ⟨chunked, inChunked, chunks⟩⟩
    exact not_orderFree distinct version inClose closes inChunked chunks free
  · intro notBoth others perm
    have kept := kept_of_clear cleared
    have absent :
        ∀ line : HeaderLine,
          ymoHttpHdrTableGetId exchange.request.headers line.hId = none := by
      intro line
      rw [cleared]
      rfl
    refine ⟨?_, ?_, ?_⟩
    · rw [flags_gotHeaders, flags_gotHeaders]
      apply (linesFlags_perm perm ?_).symm
      intro left inLeft right inRight version
      constructor
      · rintro ⟨closes, chunks⟩
        exact
          notBoth
            ⟨version, ⟨left, inLeft, closes⟩, ⟨right, inRight, chunks⟩⟩
      · rintro ⟨chunks, closes⟩
        exact
          notBoth
            ⟨version, ⟨right, inRight, closes⟩, ⟨left, inLeft, chunks⟩⟩
    · rw [contentLength_gotHeaders, contentLength_gotHeaders]
      exact (lengthAfter_perm perm distinct _).symm
    · rw [contents_gotHeaders stray kept distinct
          (fun line _ => absent line),
        contents_gotHeaders stray kept
          (perm.pairwise distinct Ne.symm) (fun line _ => absent line)]
      exact (updates_perm perm distinct _).symm

/-- An exchange that has read an HTTP/1.1 request line. -/
def afterLine11 : HttpExchange :=
  { ymoHttpExchangeCreate with
    request :=
      { ymoHttpExchangeCreate.request with
        flags :=
          { HttpFlags.none with
            version11 := true
            supportsChunked := true
            requestKeepalive := true } } }

/-- `Connection: close`. -/
def closeLine : HeaderLine where
  name := bytes "Connection"
  value := bytes "close"
  tokens := by decide
  noReturn := by decide

/-- `Host: a`. -/
def hostLine : HeaderLine where
  name := bytes "Host"
  value := bytes "a"
  tokens := by decide
  noReturn := by decide

theorem orderFree_iff_hostChunked :
    OrderFree [] afterLine11 [hostLine, chunkedLine] ↔
      ¬ (afterLine11.request.flags.version11 = true ∧
        (∃ line ∈ [hostLine, chunkedLine], isClose line) ∧
          ∃ line ∈ [hostLine, chunkedLine], isChunked line) :=
  orderFree_iff [] rfl (List.pairwise_pair.mpr (by decide))

/-- The chunked bit is lost when the connection line comes second. -/
theorem not_orderFree_closeChunked :
    Distinct [closeLine, chunkedLine] ∧
      ¬ OrderFree [] afterLine11 [closeLine, chunkedLine] := by
  have distinct : Distinct [closeLine, chunkedLine] :=
    List.pairwise_pair.mpr (by decide)
  refine ⟨distinct, ?_⟩
  exact
    not_orderFree distinct rfl List.mem_cons_self (by decide)
      (List.mem_cons_of_mem _ List.mem_cons_self) (by decide)

end Yimmo.Http.HeaderOrder
