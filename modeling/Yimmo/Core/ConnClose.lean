import Mathlib.Data.List.Basic
import Mathlib.Data.UInt
import Yimmo.Core.Connections

/-!
# Closing a connection

This module models `ymo_conn_shutdown` and `ymo_conn_close` with their effects on
the socket and on the watchers.  `shutdown` succeeds; `recv` has a result for each
of its calls, and the loop that receives has a bound on the number of its turns, so
that a loop without an end is told from one that ends.

The loop stores the result of `recv` in a `size_t`, in which an error is a large
number.  It goes on until the peer has closed its side, and never leaves a
connection half closed.
-/

namespace Yimmo.Core.ConnClose

open Yimmo.Core.StatusCode
open Yimmo.Core.Connections (ConnState)

/-! ## The functions -/

/-- The second argument of `shutdown`. -/
inductive ShutHow where
  | shutWr
  | shutRdwr
deriving DecidableEq

/-- The fields of `ymo_conn_t` that closing reads and writes, and the calls on its
file descriptor. -/
structure Conn where
  state : ConnState
  /-- `w_read` and `w_write` are active. -/
  rx : Bool
  tx : Bool
  /-- The idle timeout is armed. -/
  idle : Bool
  shutdowns : List ShutHow
  closes : Nat
  recvs : Nat
deriving DecidableEq

/-- A result of `recv`: a number of bytes that is not zero, the end of the stream, or
an error. -/
inductive RecvResult where
  | bytes (more : Fin 64)
  | closed
  | error (errno : Errno)
deriving DecidableEq

/-- The value of `recv` as `size_t`. -/
def RecvResult.len : RecvResult → UInt64
  | .bytes more => UInt64.ofNat (more + 1)
  | .closed => 0
  | .error _ => -1

/-- `errno` after the call, which was zero before. -/
def RecvResult.errno : RecvResult → Status
  | .error errno => .err errno
  | _ => .okay

/-- `ymo_conn_rx_enable`. -/
def ymoConnRxEnable (conn : Conn) (flag : Bool) : Conn :=
  { conn with rx := flag }

/-- `ymo_conn_tx_enable`. -/
def ymoConnTxEnable (conn : Conn) (flag : Bool) : Conn :=
  { conn with tx := flag }

/-- `ymo_conn_cancel_idle_timeout`. -/
def ymoConnCancelIdleTimeout (conn : Conn) : Conn :=
  { conn with idle := false }

/-- The cases of `ymo_conn_shutdown` from `YMO_CONN_SHUTDOWN` on. -/
def shutdownWatchers (conn : Conn) : Conn :=
  ymoConnTxEnable (ymoConnRxEnable conn true) false

/-- `ymo_conn_shutdown`. -/
def ymoConnShutdown (conn : Conn) : Conn :=
  match conn.state with
  | .tlsEstablished | .tlsClosing | .tlsHandshake | .tlsClosed
  | .connOpen =>
      shutdownWatchers
        { conn with
          shutdowns := conn.shutdowns ++ [.shutWr]
          state := .shutdown }
  | .shutdown | .closing => shutdownWatchers conn
  | .closed => conn

/-- The loop of `ymo_conn_close`: the number of calls, and the last result. -/
def drain (recv : Nat → RecvResult) :
    Nat → Nat → Option (Nat × RecvResult)
  | 0, _ => none
  | turns + 1, calls =>
      if (recv calls).len > 0 then drain recv turns (calls + 1)
      else some (calls + 1, recv calls)

/-- The case `YMO_CONN_CLOSED` of `ymo_conn_close`. -/
def closedCase (conn : Conn) : Conn :=
  ymoConnTxEnable (ymoConnRxEnable conn false) false

/-- The case `YMO_CONN_CLOSING` of `ymo_conn_close`. -/
def closingCase (conn : Conn) : Conn :=
  let conn := ymoConnTxEnable (ymoConnCancelIdleTimeout conn) false
  closedCase
    { conn with
      shutdowns := conn.shutdowns ++ [.shutRdwr]
      closes := conn.closes + 1
      state := .closed }

/-- The case `YMO_CONN_SHUTDOWN` of `ymo_conn_close`, if its loop ends within the
turns. -/
def shutdownCase (recv : Nat → RecvResult) (turns : Nat) (conn : Conn)
    (clean : Int) :
    Option Conn :=
  (drain recv turns 0).map fun (calls, result) =>
    let conn := { conn with recvs := conn.recvs + calls }
    if clean ≠ 0 ∧ result.len < 0 ∧ ymoIsBlocked result.errno = true then conn
    else closingCase { conn with state := .closing }

/-- `ymo_conn_close`. -/
def ymoConnClose (recv : Nat → RecvResult) (turns : Nat) (conn : Conn)
    (clean : Int) :
    Option Conn :=
  let conn := if clean = 0 then { conn with state := .closing } else conn
  match conn.state with
  | .tlsEstablished | .tlsClosing | .tlsHandshake | .tlsClosed
  | .connOpen => shutdownCase recv turns (ymoConnShutdown conn) clean
  | .shutdown => shutdownCase recv turns conn clean
  | .closing => some (closingCase conn)
  | .closed => some (closedCase conn)

/-! ## The peer -/

/-- A result that does not go away. -/
inductive LastResult where
  | closed
  | error (errno : Errno)
deriving DecidableEq

def LastResult.result : LastResult → RecvResult
  | .closed => .closed
  | .error errno => .error errno

/-- The results of `recv`: some, and then always the last one. -/
def recvOf (results : List RecvResult) (last : LastResult) (call : Nat) :
    RecvResult :=
  results.getD call last.result

/-- The result is a number of bytes. -/
def RecvResult.positive : RecvResult → Bool
  | .bytes _ => true
  | _ => false

/-- The results in front of the first one that is not positive. -/
def before (results : List RecvResult) : Nat :=
  results.findIdx fun result => !result.positive

/-- The connection is received from before it is closed. -/
def Drains (conn : Conn) (clean : Int) : Prop :=
  clean ≠ 0 ∧ conn.state ≠ .closing

instance decidableDrains
    (conn : Conn)
    (clean : Int) :
    Decidable (Drains conn clean) :=
  inferInstanceAs (Decidable (_ ∧ _))

theorem positive_before {results : List RecvResult} (last : LastResult)
    {call : Nat}
    (earlier : call < before results) :
    (recvOf results last call).positive = true := by
  have inside : call < results.length :=
    Nat.lt_of_lt_of_le earlier List.findIdx_le_length
  have := List.not_of_lt_findIdx earlier
  simpa [recvOf, List.getElem?_eq_getElem inside] using this

/-! ## What closing is to do -/

/-- The connection is received from up to the first result that is not positive.
Then it is left half closed if the peer blocks, and closed otherwise. -/
structure ClosesRight
    (recv : Nat → RecvResult)
    (stop : Nat)
    (conn : Conn)
    (clean : Int)
    (later : Conn) : Prop where
  stops :
    later.recvs =
      if Drains conn clean then conn.recvs + (stop + 1) else conn.recvs
  blocked :
    Drains conn clean → ymoIsBlocked (recv stop).errno = true →
      later.state = .shutdown ∧ later.closes = conn.closes
  closes :
    ¬(Drains conn clean ∧ ymoIsBlocked (recv stop).errno = true) →
      later.state = .closed ∧ later.closes = conn.closes + 1

/-! ## The loop -/

theorem len_pos_iff (result : RecvResult) :
    result.len > 0 ↔ result ≠ .closed := by
  have bytesPos : ∀ more : Fin 64, UInt64.ofNat (more + 1) > 0 := by decide
  cases result with
  | bytes more => simpa [RecvResult.len] using bytesPos more
  | closed => simp [RecvResult.len]
  | error errno =>
      simp only [RecvResult.len, ne_eq, reduceCtorEq, not_false_eq_true,
        iff_true]
      decide

/-- The loop ends at the end of the stream, and nowhere else. -/
theorem drain_ends {recv : Nat → RecvResult} {turns calls count : Nat}
    {result : RecvResult}
    (ended : drain recv turns calls = some (count, result)) :
    ∃ call, count = call + 1 ∧ recv call = .closed ∧ result = .closed := by
  induction turns generalizing calls with
  | zero => exact nomatch ended
  | succ turns ih =>
      rw [drain] at ended
      split at ended
      · exact ih ended
      · rename_i stops
        have isClosed : recv calls = .closed := by
          simpa [len_pos_iff] using stops
        simp only [Option.some.injEq, Prod.mk.injEq] at ended
        exact ⟨calls, ended.1.symm, isClosed, by rw [← ended.2, isClosed]⟩

theorem drain_reaches {recv : Nat → RecvResult} {calls more : Nat}
    (isClosed : recv (calls + more) = .closed)
    (goesOn : ∀ earlier < more, recv (calls + earlier) ≠ .closed) :
    drain recv (more + 1) calls = some (calls + more + 1, .closed) := by
  induction more generalizing calls with
  | zero =>
      rw [Nat.add_zero] at isClosed
      have stops : ¬(recv calls).len > 0 := by simp [len_pos_iff, isClosed]
      rw [drain, if_neg stops, isClosed, Nat.add_zero]
  | succ more ih =>
      have first : (recv calls).len > 0 := by
        have := goesOn 0 (Nat.succ_pos more)
        rwa [Nat.add_zero, ← len_pos_iff] at this
      have later : recv (calls + 1 + more) = .closed := by
        rwa [Nat.add_assoc, Nat.add_comm 1]
      have rest := ih later fun earlier less => by
        have := goesOn (earlier + 1) (Nat.succ_lt_succ less)
        rwa [Nat.add_comm earlier, ← Nat.add_assoc] at this
      rw [drain, if_pos first, rest]
      simp only [Option.some.injEq, Prod.mk.injEq, and_true]
      omega

/-! ## The cases of `ymo_conn_close` -/

theorem ymoConnClose_of_not_drains (recv : Nat → RecvResult) (turns : Nat)
    {conn : Conn}
    {clean : Int}
    (directly : ¬Drains conn clean) :
    ymoConnClose recv turns conn clean =
      some (closingCase { conn with state := .closing }) := by
  by_cases unclean : clean = 0
  · simp only [ymoConnClose, if_pos unclean]
  · have closing : conn.state = .closing := by
      simpa [Drains, unclean] using directly
    have same : conn = { conn with state := .closing } := by rw [← closing]
    simp only [ymoConnClose, if_neg unclean, closing]
    rw [← same]

/-- In front of the loop, the connection is half closed. -/
theorem ymoConnClose_of_drains (recv : Nat → RecvResult) (turns : Nat)
    {conn : Conn}
    {clean : Int}
    (live : conn.state ≠ .closed)
    (drains : Drains conn clean) :
    ∃ half : Conn,
      ymoConnClose recv turns conn clean = shutdownCase recv turns half clean ∧
      half.state = .shutdown ∧ half.recvs = conn.recvs ∧
      half.closes = conn.closes := by
  obtain ⟨clean, notClosing⟩ := drains
  cases state : conn.state with
  | closing => exact absurd state notClosing
  | closed => exact absurd state live
  | shutdown =>
      refine ⟨conn, ?_, state, rfl, rfl⟩
      simp only [ymoConnClose, if_neg clean, state]
  | _ =>
      refine ⟨ymoConnShutdown conn, ?_, ?_, ?_, ?_⟩
      · simp only [ymoConnClose, if_neg clean, state]
      all_goals
        simp [ymoConnShutdown, shutdownWatchers, ymoConnTxEnable,
          ymoConnRxEnable, state]

/-- No length is negative, so the connection is closed when the loop ends. -/
theorem shutdownCase_eq (recv : Nat → RecvResult) (turns : Nat) (conn : Conn)
    (clean : Int) :
    shutdownCase recv turns conn clean =
      (drain recv turns 0).map fun ended =>
        closingCase
          { conn with recvs := conn.recvs + ended.1, state := .closing } := by
  have never (result : RecvResult) : ¬result.len < 0 := UInt64.not_lt_zero
  simp only [shutdownCase, never, false_and, and_false, if_false]

@[simp]
theorem closingCase_state (conn : Conn) : (closingCase conn).state = .closed :=
  rfl

@[simp]
theorem closingCase_closes (conn : Conn) :
    (closingCase conn).closes = conn.closes + 1 :=
  rfl

@[simp]
theorem closingCase_recvs (conn : Conn) :
    (closingCase conn).recvs = conn.recvs :=
  rfl

/-! ## The condition -/

theorem ymoConnClose_closes_right_iff (results : List RecvResult)
    (last : LastResult)
    (conn : Conn)
    (clean : Int)
    (live : conn.state ≠ .closed) :
    (∃ turns later,
      ymoConnClose (recvOf results last) turns conn clean = some later ∧
      ClosesRight (recvOf results last) (before results) conn clean later) ↔
      ¬Drains conn clean ∨ recvOf results last (before results) = .closed := by
  by_cases drains : Drains conn clean
  · constructor
    · rintro ⟨turns, later, returned, right⟩
      refine .inr ?_
      obtain ⟨half, runs, -, recvs, -⟩ :=
        ymoConnClose_of_drains (recvOf results last) turns live drains
      rw [runs, shutdownCase_eq, Option.map_eq_some_iff] at returned
      obtain ⟨⟨count, result⟩, ended, rfl⟩ := returned
      obtain ⟨call, rfl, isClosed, -⟩ := drain_ends ended
      have stops := right.stops
      rw [if_pos drains, closingCase_recvs] at stops
      have same : call = before results := by
        simp only [recvs] at stops
        omega
      rwa [← same]
    · intro condition
      have isClosed := condition.resolve_left (not_not_intro drains)
      obtain ⟨half, runs, -, recvs, closes⟩ :=
        ymoConnClose_of_drains (recvOf results last) (before results + 1)
          live drains
      have ended : drain (recvOf results last) (before results + 1) 0 =
          some (0 + before results + 1, .closed) := by
        refine drain_reaches (by rwa [Nat.zero_add]) ?_
        intro earlier less same
        have := positive_before last less
        rw [Nat.zero_add] at same
        simp [same, RecvResult.positive] at this
      have returned :=
        runs.trans (shutdownCase_eq (recvOf results last) _ half clean)
      rw [ended, Option.map_some] at returned
      refine ⟨before results + 1, _, returned, ?_, ?_, ?_⟩
      · rw [if_pos drains]
        simp [recvs]
      · intro _ blocked
        simp [isClosed, RecvResult.errno] at blocked
      · intro _
        simp [closes]
  · have runs := ymoConnClose_of_not_drains (recvOf results last) 0 drains
    refine iff_of_true ⟨0, _, runs, ?_, ?_, ?_⟩ (.inl drains)
    · rw [if_neg drains]
      rfl
    · exact fun wrong => absurd wrong drains
    · exact fun _ => ⟨rfl, rfl⟩

/-! ## A peer that closes, and one that waits -/

def openConn : Conn where
  state := .connOpen
  rx := true
  tx := false
  idle := true
  shutdowns := []
  closes := 0
  recvs := 0

theorem answered_open_closes :
    openConn.state ≠ .closed ∧
      ∃ turns later,
        ymoConnClose (recvOf [.bytes 4] .closed) turns openConn 1 =
          some later ∧
        ClosesRight (recvOf [.bytes 4] .closed) (before [.bytes 4])
          openConn 1 later :=
  ⟨by decide,
    (ymoConnClose_closes_right_iff [.bytes 4] .closed openConn 1
      (by decide)).mpr (.inr (by decide))⟩

/-- With a peer that has nothing to say, the loop goes on without an end. -/
theorem waiting_peer_never_ends :
    openConn.state ≠ .closed ∧
      ∀ turns, ymoConnClose (recvOf [] (.error .eagain)) turns openConn 1 =
        none := by
  refine ⟨by decide, fun turns => ?_⟩
  have live : openConn.state ≠ .closed := by decide
  have drains : Drains openConn 1 := by decide
  obtain ⟨half, runs, -⟩ :=
    ymoConnClose_of_drains (recvOf [] (.error .eagain)) turns live drains
  rw [runs, shutdownCase_eq]
  cases ended : drain (recvOf [] (.error .eagain)) turns 0 with
  | none => rfl
  | some pair =>
      obtain ⟨call, -, isClosed, -⟩ := drain_ends ended
      exact nomatch isClosed

end Yimmo.Core.ConnClose
