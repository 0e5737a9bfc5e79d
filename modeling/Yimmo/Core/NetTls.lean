import Mathlib.Data.List.Chain
import Yimmo.Core.Net

/-!
# Sending a chain of buckets over TLS

This module models `ymo_net_send_buckets_tls` for a connection that has an SSL
object: one `SSL_write_ex` for each bucket, until one of them takes less than
the bucket or fails.  The write callbacks that use it call it only with a chain
that has a head.

A call of `SSL_write_ex` that fails with `SSL_ERROR_WANT_READ` or
`SSL_ERROR_WANT_WRITE` has to be repeated with the same bytes.  The results are
that this is what the next call does, whatever was appended in between; that no
byte is lost, repeated or reordered; and that every chain is delivered, while
the plain path delivers only some.
-/

namespace Yimmo.Core.NetTls

open Yimmo.Core.StatusCode
open Yimmo.Core.Net
open Yimmo.Lib.GuardedRun

variable {total : Bytes}

/-- `ECONNABORTED`. -/
def econnaborted : Errno :=
  .other 103

/-- What one call of `SSL_write_ex` does. -/
inductive SslOutcome where
  /-- Succeeds, and takes at most `room + 1` of the bytes it was given. -/
  | wrote (room : Nat)
  /-- Fails with `SSL_ERROR_WANT_READ` or `SSL_ERROR_WANT_WRITE`. -/
  | wantRw
  /-- Fails with another error. -/
  | failed
deriving DecidableEq, Repr

/-- A call of `SSL_write_ex`: its bytes, and whether it has to be repeated. -/
structure Attempt where
  data : Bytes
  again : Bool
deriving DecidableEq

/-- What a call leaves: its status, `*head`, the bytes SSL took, and its calls
of `SSL_write_ex`. -/
structure TlsResult where
  status : Status
  chain : List Bucket
  wire : Bytes
  attempts : List Attempt
deriving DecidableEq

/-- `cur->bytes_sent += bytes_sent` for a write that takes part of the
bucket. -/
def partly (cur : Bucket) (rest : List Bucket) (count : Nat)
    (inside : count < cur.remain) :
    TlsResult where
  status := .err .eagain
  chain := cur.advance count inside :: rest
  wire := cur.unsent.take count
  attempts := [{ data := cur.unsent, again := false }]

/-- A write that was refused; the chain stays as it is. -/
def refused (status : Status) (again : Bool) (cur : Bucket)
    (rest : List Bucket) :
    TlsResult where
  status := status
  chain := cur :: rest
  wire := []
  attempts := [{ data := cur.unsent, again := again }]

/-- A bucket that was taken whole, and what the call did before or after it. -/
def TlsResult.behind (result : TlsResult) (cur : Bucket) : TlsResult where
  status := result.status
  chain := result.chain
  wire := cur.unsent ++ result.wire
  attempts := { data := cur.unsent, again := false } :: result.attempts

/-- The call when there is no bucket left. -/
def sentAll : TlsResult where
  status := .okay
  chain := []
  wire := []
  attempts := []

/-- The loop of `ymo_net_send_buckets_tls`, to its `while( cur )`; each outcome
is one turn. -/
def sendTurns : List SslOutcome → List Bucket → TlsResult
  | _, [] => sentAll
  | [], cur :: rest => refused (.err .eagain) true cur rest
  | .wantRw :: _, cur :: rest => refused (.err .eagain) true cur rest
  | .failed :: _, cur :: rest => refused (.err econnaborted) false cur rest
  | .wrote room :: outcomes, cur :: rest =>
      if inside : min (room + 1) cur.remain < cur.remain then
        partly cur rest (min (room + 1) cur.remain) inside
      else (sendTurns outcomes rest).behind cur

/-- `ymo_net_send_buckets_tls`; its loop reads the head before it tests it. -/
def ymoNetSendBucketsTls (outcomes : List SslOutcome) :
    List Bucket → Option TlsResult
  | [] => none
  | cur :: rest => some (sendTurns outcomes (cur :: rest))

/-- What the write callbacks do with it: `if( session->send_head )`. -/
def writeChain (outcomes : List SslOutcome) (chain : List Bucket) :
    TlsResult :=
  (ymoNetSendBucketsTls outcomes chain).getD sentAll

variable (outcomes : List SslOutcome)

theorem writeChain_eq (chain : List Bucket) :
    writeChain outcomes chain = sendTurns outcomes chain := by
  cases chain with
  | nil =>
      rw [sendTurns]
      rfl
  | cons cur rest => rfl

/-! ## One call -/

/-- The first write of the call is of the bytes of the head, and a write that
has to be repeated is the last one and was of the bytes of the head it left. -/
structure Called (chain : List Bucket) (result : TlsResult) : Prop where
  conserves : result.wire ++ unsentAll result.chain = unsentAll chain
  okay : result.status = .okay → result.chain = []
  first :
    ∀ attempt ∈ result.attempts.head?,
      attempt.data ∈ chain.head?.map Bucket.unsent
  last :
    ∀ attempt ∈ result.attempts.getLast?, attempt.again = true →
      attempt.data ∈ result.chain.head?.map Bucket.unsent
  between :
    result.attempts.IsChain fun before after =>
      before.again = true → after.data = before.data

theorem called_refused {status : Status} (notOkay : status ≠ .okay)
    (again : Bool)
    (cur : Bucket)
    (rest : List Bucket) :
    Called (cur :: rest) (refused status again cur rest) where
  conserves := rfl
  okay := fun same => absurd same notOkay
  first := by
    intro attempt member
    cases member
    exact rfl
  last := by
    intro attempt member _
    cases member
    exact rfl
  between := List.isChain_singleton _

theorem called_partly (cur : Bucket) (rest : List Bucket) {count : Nat}
    (inside : count < cur.remain) :
    Called (cur :: rest) (partly cur rest count inside) where
  conserves := by
    rw [partly, unsentAll_cons, unsentAll_cons, Bucket.unsent_advance,
      ← List.append_assoc, List.take_append_drop]
  okay := by
    intro same
    cases same
  first := by
    intro attempt member
    cases member
    exact rfl
  last := by
    intro attempt member again
    cases member
    cases again
  between := List.isChain_singleton _

theorem called_sentAll : Called [] sentAll where
  conserves := rfl
  okay := fun _ => rfl
  first := by
    intro attempt member
    cases member
  last := by
    intro attempt member
    cases member
  between := List.IsChain.nil

theorem Called.behind {rest : List Bucket} {result : TlsResult}
    (called : Called rest result)
    (cur : Bucket) :
    Called (cur :: rest) (result.behind cur) where
  conserves := by
    rw [TlsResult.behind, unsentAll_cons, List.append_assoc, called.conserves]
  okay := called.okay
  first := by
    intro attempt member
    cases member
    exact rfl
  last := by
    intro attempt member again
    cases attempts : result.attempts with
    | nil =>
        rw [TlsResult.behind, attempts] at member
        cases member
        cases again
    | cons other others =>
        rw [TlsResult.behind, attempts, List.getLast?_cons_cons,
          ← attempts] at member
        exact called.last attempt member again
  between := by
    rw [TlsResult.behind, List.isChain_cons]
    refine ⟨?_, called.between⟩
    intro attempt _ again
    cases again

theorem called_sendTurns (chain : List Bucket) :
    Called chain (sendTurns outcomes chain) := by
  induction chain generalizing outcomes with
  | nil =>
      rw [sendTurns]
      exact called_sentAll
  | cons cur rest ih =>
      match outcomes with
      | [] =>
          apply called_refused
          intro same
          cases same
      | .wantRw :: _ =>
          apply called_refused
          intro same
          cases same
      | .failed :: _ =>
          apply called_refused
          intro same
          cases same
      | .wrote room :: outcomes =>
          rw [sendTurns]
          split
          · exact called_partly cur rest _
          · exact (ih outcomes).behind cur

/-- A call on a chain writes something. -/
theorem attempts_ne_nil (cur : Bucket) (rest : List Bucket) :
    (sendTurns outcomes (cur :: rest)).attempts ≠ [] := by
  match outcomes with
  | [] => exact List.cons_ne_nil _ _
  | .wantRw :: _ => exact List.cons_ne_nil _ _
  | .failed :: _ => exact List.cons_ne_nil _ _
  | .wrote room :: outcomes =>
      rw [sendTurns]
      split
      · exact List.cons_ne_nil _ _
      · exact List.cons_ne_nil _ _

/-! ## What is left to do -/

/-- A write takes a byte, or all of an empty bucket. -/
def burden (chain : List Bucket) : Nat :=
  (unsentAll chain).length + chain.length

/-- SSL takes something of the first bucket it is given. -/
def Answered (outcomes : List SslOutcome) : Prop :=
  ∃ room, outcomes.head? = some (.wrote room)

instance (outcomes : List SslOutcome) : Decidable (Answered outcomes) :=
  match outcomes with
  | .wrote room :: _ => .isTrue ⟨room, rfl⟩
  | [] => .isFalse (fun ⟨_, head⟩ => by cases head)
  | .wantRw :: _ => .isFalse (fun ⟨_, head⟩ => by cases head)
  | .failed :: _ => .isFalse (fun ⟨_, head⟩ => by cases head)

theorem burden_cons (cur : Bucket) (rest : List Bucket) :
    burden (cur :: rest) = cur.remain + burden rest + 1 := by
  unfold burden
  rw [unsentAll_cons, List.length_append, Bucket.length_unsent,
    List.length_cons]
  omega

theorem burden_sendTurns (chain : List Bucket) :
    burden (sendTurns outcomes chain).chain ≤ burden chain ∧
      (Answered outcomes → chain ≠ [] →
        burden (sendTurns outcomes chain).chain < burden chain) := by
  induction chain generalizing outcomes with
  | nil =>
      rw [sendTurns]
      exact ⟨Nat.le_refl _, fun _ some => absurd rfl some⟩
  | cons cur rest ih =>
      match outcomes with
      | [] =>
          refine ⟨Nat.le_refl _, ?_⟩
          rintro ⟨room, none⟩
          cases none
      | .wantRw :: _ =>
          refine ⟨Nat.le_refl _, ?_⟩
          rintro ⟨room, other⟩
          cases other
      | .failed :: _ =>
          refine ⟨Nat.le_refl _, ?_⟩
          rintro ⟨room, other⟩
          cases other
      | .wrote room :: outcomes =>
          have less :
              burden
                  (sendTurns (.wrote room :: outcomes) (cur :: rest)).chain <
                burden (cur :: rest) := by
            rw [sendTurns, burden_cons]
            split
            · rename_i inside
              have left :
                  (cur.advance _ inside).remain =
                    cur.remain - min (room + 1) cur.remain := by
                rw [← Bucket.length_unsent, Bucket.unsent_advance,
                  List.length_drop, Bucket.length_unsent]
              rw [partly, burden_cons, left]
              omega
            · have further := (ih outcomes).1
              change
                burden (sendTurns outcomes rest).chain <
                  cur.remain + burden rest + 1
              omega
          exact ⟨less.le, fun _ _ => less⟩

/-! ## Runs -/

/-- What happens to the chain of a connection. -/
inductive TlsStep where
  /-- A bucket is appended. -/
  | append (data : Bytes)
  /-- The write callback sends, and `SSL_write_ex` answers so. -/
  | write (outcomes : List SslOutcome)

/-- The chain, the bytes SSL took, its calls, and the last status. -/
structure TlsRun where
  chain : List Bucket
  wire : Bytes
  attempts : List Attempt
  status : Status

def TlsRun.start (chain : List Bucket) : TlsRun where
  chain := chain
  wire := []
  attempts := []
  status := .err .eagain

def tlsStep (state : TlsRun) : TlsStep → TlsRun
  | .append data =>
      { state with
        chain := state.chain ++ [Bucket.fresh data]
        status := .err .eagain }
  | .write outcomes =>
      let result := writeChain outcomes state.chain
      { chain := result.chain
        wire := state.wire ++ result.wire
        attempts := state.attempts ++ result.attempts
        status := result.status }

/-- The bytes that were appended. -/
def appendedBytes : List TlsStep → Bytes
  | [] => []
  | .append data :: steps => data ++ appendedBytes steps
  | .write _ :: steps => appendedBytes steps

/-- What holds of the chain after every step. -/
structure Sending (total : Bytes) (state : TlsRun) : Prop where
  conserves : state.wire ++ unsentAll state.chain = total
  okay : state.status = .okay → state.chain = []
  last :
    ∀ attempt ∈ state.attempts.getLast?, attempt.again = true →
      attempt.data ∈ state.chain.head?.map Bucket.unsent
  retried :
    state.attempts.IsChain fun before after =>
      before.again = true → after.data = before.data

variable {state : TlsRun}

theorem Sending.append (sending : Sending total state) (data : Bytes) :
    Sending (total ++ data) (tlsStep state (.append data)) where
  conserves := by
    rw [tlsStep]
    dsimp only
    rw [unsentAll_append, ← List.append_assoc, sending.conserves,
      unsentAll_cons, unsentAll_nil, Bucket.unsent_fresh, List.append_nil]
  okay := by
    intro same
    cases same
  last := by
    intro attempt member again
    have held := sending.last attempt member again
    rw [tlsStep]
    dsimp only
    cases chain : state.chain with
    | nil =>
        rw [chain] at held
        cases held
    | cons cur rest =>
        rw [chain] at held
        exact held
  retried := sending.retried

theorem Sending.write (sending : Sending total state)
    (outcomes : List SslOutcome) :
    Sending total (tlsStep state (.write outcomes)) := by
  have called := called_sendTurns outcomes state.chain
  rw [tlsStep, writeChain_eq]
  refine ⟨?_, called.okay, ?_, ?_⟩
  · dsimp only
    rw [List.append_assoc, called.conserves, sending.conserves]
  · dsimp only
    intro attempt member again
    cases chain : state.chain with
    | nil =>
        rw [chain, sendTurns, sentAll, List.append_nil] at member
        have held := sending.last attempt member again
        rw [chain] at held
        cases held
    | cons cur rest =>
        rw [chain] at called member
        rw [List.getLast?_append_of_ne_nil _
          (attempts_ne_nil outcomes cur rest)] at member
        exact called.last attempt member again
  · dsimp only
    rw [List.isChain_append]
    refine ⟨sending.retried, called.between, ?_⟩
    intro before isLast after isFirst again
    have held := sending.last before isLast again
    have next := called.first after isFirst
    exact Option.some.inj (next.symm.trans held)

theorem Sending.run (sending : Sending total state) (steps : List TlsStep) :
    Sending (total ++ appendedBytes steps) (run tlsStep state steps) := by
  induction steps generalizing total state with
  | nil =>
      rw [appendedBytes, List.append_nil]
      exact sending
  | cons step steps ih =>
      cases step with
      | append data =>
          have later := ih (sending.append data)
          rw [appendedBytes, ← List.append_assoc]
          exact later
      | write outcomes => exact ih (sending.write outcomes)

theorem sending_start (chain : List Bucket) :
    Sending (unsentAll chain) (TlsRun.start chain) where
  conserves := rfl
  okay := by
    intro same
    cases same
  last := by
    intro attempt member
    cases member
  retried := List.IsChain.nil

/-- A chain whose writes are answered often enough is sent. -/
theorem drained_of_answered
    (state : TlsRun)
    (calls : List (List SslOutcome))
    (enough :
      burden state.chain ≤
        calls.countP fun outcomes => decide (Answered outcomes)) :
    (run tlsStep state (calls.map .write)).chain = [] := by
  induction calls generalizing state with
  | nil =>
      have none : burden state.chain = 0 := Nat.le_zero.mp enough
      have empty : state.chain.length = 0 := by
        unfold burden at none
        omega
      exact List.length_eq_zero_iff.mp empty
  | cons outcomes calls ih =>
      have less := burden_sendTurns outcomes state.chain
      rw [List.map_cons, run_cons]
      apply ih
      have step :
          (tlsStep state (.write outcomes)).chain =
            (sendTurns outcomes state.chain).chain := by
        rw [tlsStep, writeChain_eq]
      rw [step]
      by_cases answered : Answered outcomes
      · rw [List.countP_cons_of_pos (by rw [decide_eq_true answered])]
          at enough
        cases chain : state.chain with
        | nil =>
            rw [sendTurns]
            exact Nat.zero_le _
        | cons cur rest =>
            have some : state.chain ≠ [] := by
              rw [chain]
              exact List.cons_ne_nil cur rest
            have smaller := less.2 answered some
            rw [chain] at smaller enough
            omega
      · rw [List.countP_cons_of_neg
          (by rw [decide_eq_false answered]; exact Bool.false_ne_true)]
          at enough
        exact Nat.le_trans less.1 enough

/--
Over every run of appends and write callbacks on a chain: what SSL took and what
is left are the bytes of the chain and those appended, in order; a write that had
to be repeated is repeated with the same bytes before any other; a write callback
that reports success has sent everything; and write callbacks that SSL answers
as often as there are bytes and buckets left send the rest of it.
-/
theorem tls_delivers (chain : List Bucket) (steps : List TlsStep) :
    let state := run tlsStep (TlsRun.start chain) steps
    state.wire ++ unsentAll state.chain =
        unsentAll chain ++ appendedBytes steps ∧
      (state.attempts.IsChain fun before after =>
        before.again = true → after.data = before.data) ∧
      (state.status = .okay →
        state.wire = unsentAll chain ++ appendedBytes steps) ∧
      ∀ calls : List (List SslOutcome),
        burden state.chain ≤
            (calls.countP fun outcomes => decide (Answered outcomes)) →
          (run tlsStep state (calls.map .write)).wire =
            unsentAll chain ++ appendedBytes steps := by
  have sending := (sending_start chain).run steps
  refine ⟨sending.conserves, sending.retried, ?_, ?_⟩
  · intro okay
    have all := sending.conserves
    rw [sending.okay okay, unsentAll_nil, List.append_nil] at all
    exact all
  · intro calls enough
    have none : appendedBytes (calls.map .write) = [] := by
      clear enough
      induction calls with
      | nil => rfl
      | cons outcomes calls ih => exact ih
    have later := (sending.run (calls.map .write)).conserves
    rw [drained_of_answered _ calls enough, none, List.append_nil,
      unsentAll_nil, List.append_nil] at later
    exact later

/-- A bucket without data in front of one with data is no obstacle, as it is for
the plain path. -/
example :
    (run tlsStep (TlsRun.start [Bucket.fresh [1], Bucket.fresh []])
        [.write [.wantRw], .append [2],
          .write [.wrote 0, .wrote 0, .wrote 0]]).wire =
      [1, 2] := by
  decide

end Yimmo.Core.NetTls
