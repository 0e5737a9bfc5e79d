import Mathlib.Algebra.GroupWithZero.Nat
import Mathlib.Data.List.Basic
import Mathlib.Data.List.Infix
import Yimmo.Core.Characters
import Yimmo.Core.StatusCode
import Yimmo.Lib.GuardedRun

/-!
# Sending a chain of buckets

This module models `ymo_net_send_buckets`: the gather loop that fills at most
`YMO_BUCKET_MAX_IOVEC` entries and skips empty buckets, the call of `sendmsg`,
the accounting loop that prunes what was sent, and the test that decides
between another send and `YMO_OKAY`.

The socket is a list of outcomes, one for each `sendmsg`; a list that has run
out stands for a socket that blocks.  Chains are lists of buckets: the function
only walks the `next` pointers and frees the buckets it has passed.

The results are that no call loses, repeats or reorders a byte, and the exact
condition on a chain under which repeated calls deliver all of it and report
`YMO_OKAY` only when nothing is left.
-/

namespace Yimmo.Core.Net

open Yimmo.Core.StatusCode
open Yimmo.Lib.GuardedRun

variable {bound : Nat}

/-- `YMO_BUCKET_MAX_IOVEC`. -/
def ymoBucketMaxIovec : Nat :=
  32

/-- The fields of `struct ymo_bucket` that sending reads and writes. -/
structure Bucket where
  data : Bytes
  bytesSent : Nat
  sent_le : bytesSent ≤ data.length
deriving DecidableEq

variable {bucket : Bucket}

namespace Bucket

/-- A bucket none of whose bytes have been sent. -/
def fresh (data : Bytes) : Bucket where
  data := data
  bytesSent := 0
  sent_le := Nat.zero_le _

def len (bucket : Bucket) : Nat :=
  bucket.data.length

/-- `len - bytes_sent`. -/
def remain (bucket : Bucket) : Nat :=
  bucket.len - bucket.bytesSent

/-- The bytes from `data + bytes_sent` to the end of the payload. -/
def unsent (bucket : Bucket) : Bytes :=
  bucket.data.drop bucket.bytesSent

/-- `bytes_sent += count` for a send that ends inside the bucket. -/
def advance (bucket : Bucket) (count : Nat) (inside : count < bucket.remain) :
    Bucket where
  data := bucket.data
  bytesSent := bucket.bytesSent + count
  sent_le := by
    have bound : bucket.bytesSent + count < bucket.data.length := by
      unfold remain len at inside
      omega
    exact bound.le

@[simp]
theorem length_unsent (bucket : Bucket) :
    bucket.unsent.length = bucket.remain :=
  List.length_drop

@[simp]
theorem unsent_fresh (data : Bytes) : (fresh data).unsent = data :=
  List.drop_zero

theorem unsent_advance (bucket : Bucket) (count : Nat)
    (inside : count < bucket.remain) :
    (bucket.advance count inside).unsent = bucket.unsent.drop count :=
  List.drop_drop.symm

theorem unsent_advance_ne_nil (bucket : Bucket) (count : Nat)
    (inside : count < bucket.remain) :
    (bucket.advance count inside).unsent ≠ [] := by
  rw [unsent_advance]
  intro exhausted
  have covered : bucket.unsent.length ≤ count :=
    List.drop_eq_nil_iff.mp exhausted
  rw [length_unsent] at covered
  exact absurd inside (Nat.not_lt.mpr covered)

theorem unsent_eq_nil_of_len_eq_zero (empty : bucket.len = 0) :
    bucket.unsent = [] := by
  have noData : bucket.data = [] := List.length_eq_zero_iff.mp empty
  rw [unsent, noData, List.drop_nil]

theorem len_ne_zero_of_unsent_ne_nil (pending : bucket.unsent ≠ []) :
    bucket.len ≠ 0 :=
  fun empty => pending (unsent_eq_nil_of_len_eq_zero empty)

theorem remain_eq_zero_iff (bucket : Bucket) :
    bucket.remain = 0 ↔ bucket.unsent = [] := by
  rw [← length_unsent, List.length_eq_zero_iff]

end Bucket

/-- The bytes of a chain that have not been sent, in order. -/
def unsentAll (chain : List Bucket) : Bytes :=
  chain.flatMap Bucket.unsent

@[simp]
theorem unsentAll_nil : unsentAll [] = [] :=
  rfl

@[simp]
theorem unsentAll_cons (bucket : Bucket) (rest : List Bucket) :
    unsentAll (bucket :: rest) = bucket.unsent ++ unsentAll rest :=
  List.flatMap_cons

@[simp]
theorem unsentAll_append (front back : List Bucket) :
    unsentAll (front ++ back) = unsentAll front ++ unsentAll back :=
  List.flatMap_append

/-! ## The send -/

/-- What one call of `sendmsg` does. -/
inductive SendOutcome where
  /-- Takes at most `room + 1` of the bytes offered. -/
  | accepted (room : Nat)
  /-- Fails with `EAGAIN`. -/
  | blocked
  /-- Fails with another error. -/
  | failed (errno : Errno)
deriving DecidableEq, Repr

/-- The gather loop: one entry for each non-empty bucket while slots remain. -/
def gather : Nat → List Bucket → List Bytes
  | _, [] => []
  | 0, _ :: _ => []
  | slots + 1, bucket :: rest =>
      if bucket.len ≠ 0 then bucket.unsent :: gather slots rest
      else gather (slots + 1) rest

/-- The bytes that the iovec entries of one `sendmsg` cover. -/
def offered (chain : List Bucket) : Bytes :=
  (gather ymoBucketMaxIovec chain).flatten

/--
The accounting loop: buckets are freed while `bytes_sent` covers what remains
of them, and the loop stops as soon as `bytes_sent` is used up.
-/
def account : Nat → List Bucket → List Bucket
  | _, [] => []
  | 0, chain => chain
  | count + 1, bucket :: rest =>
      if inside : count + 1 < bucket.remain then
        bucket.advance (count + 1) inside :: rest
      else account (count + 1 - bucket.remain) rest

/-- `current && current->len`, the test after the accounting loop. -/
def headHasLength : List Bucket → Bool
  | [] => false
  | bucket :: _ => bucket.len != 0

/-- What a call leaves: its status, `*head_p`, the bytes the socket took. -/
structure SendResult where
  status : Status
  chain : List Bucket
  wire : Bytes
  outcomes : List SendOutcome
deriving DecidableEq

/-- `ymo_net_send_buckets`; each outcome is one turn of `do_send`. -/
def ymoNetSendBuckets :
    List SendOutcome → List Bucket → SendResult
  | [], chain =>
      if offered chain = [] then
        { status := .err .ebadmsg, chain := chain,
          wire := [], outcomes := [] }
      else
        { status := .err .eagain, chain := chain,
          wire := [], outcomes := [] }
  | outcome :: outcomes, chain =>
      if offered chain = [] then
        { status := .err .ebadmsg, chain := chain,
          wire := [], outcomes := outcome :: outcomes }
      else
        match outcome with
        | .blocked =>
            { status := .err .eagain, chain := chain,
              wire := [], outcomes := outcomes }
        | .failed errno =>
            { status := .err errno, chain := chain,
              wire := [], outcomes := outcomes }
        | .accepted room =>
            let count := min (room + 1) (offered chain).length
            let taken := (offered chain).take count
            let left := account count chain
            if headHasLength left then
              let later := ymoNetSendBuckets outcomes left
              { later with wire := taken ++ later.wire }
            else
              { status := .okay, chain := left,
                wire := taken, outcomes := outcomes }

/-! ## What gathering and accounting do to the unsent bytes -/

theorem gather_isPrefix (slots : Nat) (chain : List Bucket) :
    (gather slots chain).flatten <+: unsentAll chain := by
  induction chain generalizing slots with
  | nil => cases slots <;> exact List.prefix_rfl
  | cons bucket rest ih =>
      cases slots with
      | zero => exact List.nil_prefix
      | succ slots =>
          rw [gather, unsentAll_cons]
          split
          · rw [List.flatten_cons]
            exact (List.prefix_append_right_inj _).mpr (ih slots)
          · rename_i empty
            rw [Bucket.unsent_eq_nil_of_len_eq_zero
              (not_not.mp empty), List.nil_append]
            exact ih (slots + 1)

theorem offered_isPrefix (chain : List Bucket) :
    offered chain <+: unsentAll chain :=
  gather_isPrefix ymoBucketMaxIovec chain

variable {chain : List Bucket}

theorem take_offered {count : Nat} (within : count ≤ (offered chain).length) :
    (offered chain).take count = (unsentAll chain).take count := by
  rcases offered_isPrefix chain with ⟨beyond, split⟩
  rw [← split, List.take_append_of_le_length within]

@[simp]
theorem account_zero (chain : List Bucket) : account 0 chain = chain := by
  cases chain <;> rfl

theorem unsentAll_account (count : Nat) (chain : List Bucket) :
    unsentAll (account count chain) = (unsentAll chain).drop count := by
  induction chain generalizing count with
  | nil => cases count <;> exact List.drop_nil.symm
  | cons bucket rest ih =>
      cases count with
      | zero => rw [account_zero, List.drop_zero]
      | succ count =>
          rw [account]
          split
          · rename_i inside
            have short : count + 1 ≤ bucket.unsent.length := by
              rw [Bucket.length_unsent]
              exact inside.le
            rw [unsentAll_cons, unsentAll_cons,
              Bucket.unsent_advance,
              List.drop_append_of_le_length short]
          · rename_i outside
            have long : bucket.unsent.length ≤ count + 1 := by
              rw [Bucket.length_unsent]
              exact Nat.not_lt.mp outside
            rw [ih, unsentAll_cons,
              List.drop_append, Bucket.length_unsent,
              List.drop_of_length_le long, List.nil_append]

/--
No call loses, repeats or reorders a byte: what the socket took, followed by
what the chain still holds, is what the chain held.
-/
theorem ymoNetSendBuckets_conserves (outcomes : List SendOutcome)
    (chain : List Bucket) :
    (ymoNetSendBuckets outcomes chain).wire ++
        unsentAll (ymoNetSendBuckets outcomes chain).chain =
      unsentAll chain := by
  induction outcomes generalizing chain with
  | nil =>
      unfold ymoNetSendBuckets
      split <;> rfl
  | cons outcome outcomes ih =>
      unfold ymoNetSendBuckets
      split
      · rfl
      · cases outcome with
        | blocked => rfl
        | failed errno => rfl
        | accepted room =>
            let count := min (room + 1) (offered chain).length
            have within : count ≤ (offered chain).length :=
              Nat.min_le_right _ _
            have taken :
                (offered chain).take count = (unsentAll chain).take count :=
              take_offered within
            have rejoined :
                (offered chain).take count ++
                    unsentAll (account count chain) =
                  unsentAll chain := by
              rw [taken, unsentAll_account, List.take_append_drop]
            dsimp only
            split
            · rw [List.append_assoc, ih]
              exact rejoined
            · exact rejoined

/-! ## Repeated calls on one head -/

/-- A caller that keeps calling on the same `head_p`. -/
structure SendRun where
  chain : List Bucket
  wire : Bytes
  status : Option Status
deriving DecidableEq

/-- The caller before its first call. -/
def SendRun.start (chain : List Bucket) : SendRun where
  chain := chain
  wire := []
  status := none

/-- One more call, with the outcomes its `sendmsg` calls meet. -/
def sendAgain (state : SendRun) (outcomes : List SendOutcome) : SendRun :=
  let result := ymoNetSendBuckets outcomes state.chain
  { chain := result.chain
    wire := state.wire ++ result.wire
    status := some result.status }

/-- How many sends the socket grants before it first refuses one. -/
def granted : List SendOutcome → Nat
  | .accepted _ :: outcomes => granted outcomes + 1
  | _ => 0

/--
What the repeated calls owe to a chain: the bytes handed over and the bytes
left are always the bytes of the chain in order, `YMO_OKAY` means that nothing
is left, and nothing is left once the socket has granted `bound` sends.
-/
structure DeliversWithin (bound : Nat) (state : SendRun) : Prop where
  conserves :
    ∀ calls,
      (run sendAgain state calls).wire ++
          unsentAll (run sendAgain state calls).chain =
        state.wire ++ unsentAll state.chain
  okayMeansSent :
    ∀ calls call,
      (run sendAgain state (calls ++ [call])).status = some .okay →
        unsentAll (run sendAgain state (calls ++ [call])).chain = []
  completes :
    ∀ calls,
      bound ≤ (calls.map granted).sum →
        unsentAll (run sendAgain state calls).chain = []

/-- In-order delivery of a whole chain, one granted send for each byte. -/
def DeliversInOrder (chain : List Bucket) : Prop :=
  DeliversWithin (unsentAll chain).length (SendRun.start chain)

/-! ## The chains that are delivered -/

/-- Non-empty buckets ahead of the first unsent byte; each takes a slot. -/
def leadingSpent : List Bucket → Nat
  | [] => 0
  | bucket :: rest =>
      if bucket.unsent ≠ [] then 0
      else if bucket.len ≠ 0 then leadingSpent rest + 1
      else leadingSpent rest

/--
The chains the function handles: wherever unsent bytes remain, fewer than
`YMO_BUCKET_MAX_IOVEC` spent buckets stand before them, and no empty bucket
directly follows a bucket with unsent bytes while more unsent bytes come later.
-/
def Deliverable : List Bucket → Prop
  | [] => True
  | bucket :: rest =>
      (unsentAll (bucket :: rest) ≠ [] →
        leadingSpent (bucket :: rest) < ymoBucketMaxIovec) ∧
      (bucket.unsent ≠ [] → headHasLength rest = false → unsentAll rest = []) ∧
      Deliverable rest

theorem leadingSpent_cons_of_pending {rest : List Bucket}
    (pending : bucket.unsent ≠ []) :
    leadingSpent (bucket :: rest) = 0 :=
  if_pos pending

theorem leadingSpent_le_cons {rest : List Bucket}
    (spent : bucket.unsent = []) :
    leadingSpent rest ≤ leadingSpent (bucket :: rest) := by
  rw [leadingSpent, if_neg (not_not.mpr spent)]
  split
  · exact Nat.le_succ _
  · exact Nat.le_refl _

theorem deliverable_of_unsentAll_eq_nil (drained : unsentAll chain = []) :
    Deliverable chain := by
  induction chain with
  | nil => trivial
  | cons bucket rest ih =>
      have parts : bucket.unsent = [] ∧ unsentAll rest = [] := by
        rw [unsentAll_cons] at drained
        exact List.append_eq_nil_iff.mp drained
      exact
        ⟨fun pending => absurd drained pending,
          fun pending => absurd parts.1 pending,
          ih parts.2⟩

/-- Spent buckets in front only matter through the slots they take. -/
theorem deliverable_append {front back : List Bucket}
    (spent : ∀ bucket ∈ front, bucket.unsent = [])
    (slots :
      unsentAll back ≠ [] → leadingSpent (front ++ back) < ymoBucketMaxIovec)
    (later : Deliverable back) :
    Deliverable (front ++ back) := by
  induction front with
  | nil => exact later
  | cons bucket rest ih =>
      have headSpent : bucket.unsent = [] := spent bucket (List.mem_cons_self)
      have restSpent : ∀ other ∈ rest, other.unsent = [] :=
        fun other member => spent other (List.mem_cons_of_mem bucket member)
      have restUnsent : unsentAll rest = [] :=
        List.flatMap_eq_nil_iff.mpr restSpent
      have sameBytes :
          unsentAll (bucket :: (rest ++ back)) = unsentAll back := by
        rw [unsentAll_cons, unsentAll_append, headSpent, restUnsent]
        rfl
      refine ⟨?_, fun pending => absurd headSpent pending, ?_⟩
      · intro pending
        have laterPending : unsentAll back ≠ [] := by
          rw [← sameBytes]
          exact pending
        exact slots laterPending
      · exact
          ih restSpent
            fun pending =>
              Nat.lt_of_le_of_lt
                (leadingSpent_le_cons headSpent)
                (slots pending)

theorem exists_first_pending (pending : unsentAll chain ≠ []) :
    ∃ front bucket rest,
      chain = front ++ bucket :: rest ∧
        (∀ other ∈ front, other.unsent = []) ∧
          bucket.unsent ≠ [] := by
  induction chain with
  | nil => exact absurd rfl pending
  | cons bucket rest ih =>
      by_cases headSpent : bucket.unsent = []
      · rw [unsentAll_cons, headSpent, List.nil_append] at pending
        rcases ih pending with
          ⟨front, first, back, shape, spent, firstPending⟩
        refine ⟨bucket :: front, first, back, ?_, ?_, firstPending⟩
        · rw [shape, List.cons_append]
        · intro other member
          rcases List.mem_cons.mp member with equal | later
          · rw [equal]
            exact headSpent
          · exact spent other later
      · exact
          ⟨[], bucket, rest, rfl,
            fun other member => absurd member List.not_mem_nil,
            headSpent⟩

/-! ### Gathering reaches the first unsent byte -/

variable {front rest : List Bucket}

theorem gather_first_pending {slots : Nat}
    (spent : ∀ other ∈ front, other.unsent = [])
    (pending : bucket.unsent ≠ [])
    (room : leadingSpent (front ++ bucket :: rest) < slots) :
    bucket.unsent <+: (gather slots (front ++ bucket :: rest)).flatten := by
  induction front generalizing slots with
  | nil =>
      cases slots with
      | zero => exact absurd room (Nat.not_lt_zero _)
      | succ slots =>
          rw [List.nil_append, gather,
            if_pos (Bucket.len_ne_zero_of_unsent_ne_nil pending),
            List.flatten_cons]
          exact List.prefix_append _ _
  | cons other front ih =>
      have otherSpent : other.unsent = [] := spent other (List.mem_cons_self)
      have frontSpent : ∀ later ∈ front, later.unsent = [] :=
        fun later member => spent later (List.mem_cons_of_mem other member)
      cases slots with
      | zero => exact absurd room (Nat.not_lt_zero _)
      | succ slots =>
          rw [List.cons_append, leadingSpent,
            if_neg (not_not.mpr otherSpent)] at room
          rw [List.cons_append, gather]
          split
          · rename_i nonempty
            rw [if_pos nonempty] at room
            rw [List.flatten_cons, otherSpent, List.nil_append]
            exact ih frontSpent (Nat.lt_of_succ_lt_succ room)
          · rename_i empty
            rw [if_neg empty] at room
            exact ih frontSpent room

theorem gather_eq_nil_of_clogged {slots : Nat}
    (clogged : slots ≤ leadingSpent chain) :
    (gather slots chain).flatten = [] := by
  induction chain generalizing slots with
  | nil => cases slots <;> rfl
  | cons bucket rest ih =>
      cases slots with
      | zero => rfl
      | succ slots =>
          by_cases headSpent : bucket.unsent = []
          · rw [leadingSpent, if_neg (not_not.mpr headSpent)] at clogged
            rw [gather]
            split
            · rename_i nonempty
              rw [if_pos nonempty] at clogged
              rw [List.flatten_cons, headSpent, List.nil_append]
              exact ih (Nat.le_of_succ_le_succ clogged)
            · rename_i empty
              rw [if_neg empty] at clogged
              exact ih clogged
          · rw [leadingSpent_cons_of_pending headSpent] at clogged
            exact absurd clogged (Nat.not_succ_le_zero slots)

theorem offered_ne_nil_of_deliverable (deliverable : Deliverable chain)
    (pending : unsentAll chain ≠ []) :
    offered chain ≠ [] := by
  rcases exists_first_pending pending with
    ⟨front, bucket, rest, shape, spent, bucketPending⟩
  have room : leadingSpent chain < ymoBucketMaxIovec := by
    cases chain with
    | nil => exact absurd rfl pending
    | cons first others => exact deliverable.1 pending
  subst shape
  have reached : bucket.unsent <+: offered (front ++ bucket :: rest) :=
    gather_first_pending spent bucketPending room
  intro exhausted
  rw [exhausted] at reached
  exact bucketPending (List.prefix_nil.mp reached)

/-! ### Accounting keeps a chain deliverable -/

theorem deliverable_account (deliverable : Deliverable chain) (count : Nat) :
    Deliverable (account count chain) := by
  induction chain generalizing count with
  | nil => cases count <;> exact deliverable
  | cons bucket rest ih =>
      cases count with
      | zero => exact deliverable
      | succ count =>
          rw [account]
          split
          · rename_i inside
            have advancedPending :=
              bucket.unsent_advance_ne_nil (count + 1) inside
            have bucketPending : bucket.unsent ≠ [] := by
              intro drained
              rw [(bucket.remain_eq_zero_iff).mpr drained] at inside
              exact Nat.not_lt_zero _ inside
            refine ⟨?_, ?_, deliverable.2.2⟩
            · intro pending
              rw [leadingSpent_cons_of_pending advancedPending]
              exact Nat.zero_lt_succ _
            · intro pending
              exact deliverable.2.1 bucketPending
          · exact ih deliverable.2.2 (count + 1 - bucket.remain)

/-- After a send that ends on a bucket boundary, an empty next bucket ends
the chain. -/
theorem unsentAll_account_eq_nil (deliverable : Deliverable chain)
    {count : Nat}
    (positive : 0 < count)
    (stopped : headHasLength (account count chain) = false) :
    unsentAll (account count chain) = [] := by
  induction chain generalizing count with
  | nil => cases count <;> rfl
  | cons bucket rest ih =>
      cases count with
      | zero => exact absurd positive (Nat.lt_irrefl 0)
      | succ count =>
          rw [account] at stopped ⊢
          split at stopped
          · rename_i inside
            have nonempty : bucket.len = 0 := by
              simpa [headHasLength, Bucket.advance, Bucket.len] using stopped
            rw [Bucket.remain, nonempty, Nat.zero_sub] at inside
            exact absurd inside (Nat.not_lt_zero _)
          · rename_i outside
            rw [dif_neg outside]
            by_cases leftover : count + 1 - bucket.remain = 0
            · rw [leftover, account_zero] at stopped ⊢
              have bucketPending : bucket.unsent ≠ [] := by
                intro drained
                rw [(bucket.remain_eq_zero_iff).mpr drained] at leftover
                exact absurd leftover (Nat.succ_ne_zero count)
              exact deliverable.2.1 bucketPending stopped
            · exact ih deliverable.2.2 (Nat.pos_of_ne_zero leftover) stopped

/-! ### One call on a deliverable chain -/

/-- What one call does to a deliverable chain. -/
structure CallDelivers
    (outcomes : List SendOutcome)
    (chain : List Bucket) : Prop where
  keepsDeliverable : Deliverable (ymoNetSendBuckets outcomes chain).chain
  okayMeansSent :
    (ymoNetSendBuckets outcomes chain).status = .okay →
      unsentAll (ymoNetSendBuckets outcomes chain).chain = []
  progresses :
    min (granted outcomes) (unsentAll chain).length ≤
      (ymoNetSendBuckets outcomes chain).wire.length

theorem callDelivers_of_offered_eq_nil (deliverable : Deliverable chain)
    (exhausted : offered chain = [])
    (outcomes : List SendOutcome) :
    CallDelivers outcomes chain := by
  have drained : unsentAll chain = [] := by
    by_contra pending
    exact offered_ne_nil_of_deliverable deliverable pending exhausted
  cases outcomes with
  | nil =>
      constructor <;> simp [ymoNetSendBuckets, exhausted, deliverable, drained]
  | cons outcome outcomes =>
      constructor <;> simp [ymoNetSendBuckets, exhausted, deliverable, drained]

theorem callDelivers (outcomes : List SendOutcome)
    (deliverable : Deliverable chain) :
    CallDelivers outcomes chain := by
  induction outcomes generalizing chain with
  | nil =>
      by_cases exhausted : offered chain = []
      · exact callDelivers_of_offered_eq_nil deliverable exhausted []
      · constructor <;>
          simp [ymoNetSendBuckets, exhausted, deliverable, granted]
  | cons outcome outcomes ih =>
      by_cases exhausted : offered chain = []
      · exact callDelivers_of_offered_eq_nil deliverable exhausted _
      cases outcome with
      | blocked =>
          constructor <;>
            simp [ymoNetSendBuckets, exhausted, deliverable, granted]
      | failed errno =>
          constructor <;>
            simp [ymoNetSendBuckets, exhausted, deliverable, granted]
      | accepted room =>
          have offeredPositive : 0 < (offered chain).length :=
            List.length_pos_iff.mpr exhausted
          let count := min (room + 1) (offered chain).length
          have countPositive : 0 < count :=
            Nat.lt_min.mpr ⟨Nat.succ_pos room, offeredPositive⟩
          have countBound : count ≤ (offered chain).length :=
            Nat.min_le_right _ _
          have offeredBound :
              (offered chain).length ≤ (unsentAll chain).length :=
            (offered_isPrefix chain).length_le
          have takenLength : ((offered chain).take count).length = count :=
            List.length_take_of_le countBound
          have leftDeliverable : Deliverable (account count chain) :=
            deliverable_account deliverable count
          have leftLength :
              (unsentAll (account count chain)).length =
                (unsentAll chain).length - count := by
            rw [unsentAll_account, List.length_drop]
          by_cases again : headHasLength (account count chain) = true
          · -- another turn of `do_send` on what the accounting left
            have later := ih leftDeliverable
            have unfolded :
                ymoNetSendBuckets (.accepted room :: outcomes) chain =
                  { ymoNetSendBuckets outcomes (account count chain)
                    with
                    wire :=
                      (offered chain).take count ++
                        (ymoNetSendBuckets outcomes
                          (account count chain)).wire } := by
              rw [ymoNetSendBuckets, if_neg exhausted]
              exact if_pos again
            constructor
            · rw [unfolded]
              exact later.keepsDeliverable
            · rw [unfolded]
              exact later.okayMeansSent
            · have progress := later.progresses
              rw [leftLength] at progress
              rw [unfolded, List.length_append, takenLength, granted]
              omega
          · have stopped : headHasLength (account count chain) = false :=
              Bool.eq_false_iff.mpr again
            have drained : unsentAll (account count chain) = [] :=
              unsentAll_account_eq_nil deliverable countPositive stopped
            have unfolded :
                ymoNetSendBuckets (.accepted room :: outcomes) chain =
                  { status := .okay
                    chain := account count chain
                    wire := (offered chain).take count
                    outcomes := outcomes } := by
              rw [ymoNetSendBuckets, if_neg exhausted]
              exact if_neg again
            constructor
            · rw [unfolded]
              exact leftDeliverable
            · intro _
              rw [unfolded]
              exact drained
            · rw [drained, List.length_nil] at leftLength
              rw [unfolded, takenLength]
              omega

/-! ### Runs of calls -/

theorem run_sendAgain_conserves (state : SendRun)
    (calls : List (List SendOutcome)) :
    (run sendAgain state calls).wire ++
        unsentAll (run sendAgain state calls).chain =
      state.wire ++ unsentAll state.chain := by
  refine
    invariant_run_always
      (fun later : SendRun =>
        later.wire ++ unsentAll later.chain =
          state.wire ++ unsentAll state.chain)
      ?_ rfl calls
  intro later call same
  rw [← same, sendAgain, List.append_assoc, ymoNetSendBuckets_conserves]

variable {state : SendRun}

theorem run_sendAgain_deliverable (deliverable : Deliverable state.chain)
    (calls : List (List SendOutcome)) :
    Deliverable (run sendAgain state calls).chain :=
  invariant_run_always
    (fun later : SendRun => Deliverable later.chain)
    (fun _ call held => (callDelivers call held).keepsDeliverable)
    deliverable calls

theorem run_sendAgain_progresses (deliverable : Deliverable state.chain)
    (calls : List (List SendOutcome)) :
    state.wire.length +
        min (calls.map granted).sum (unsentAll state.chain).length ≤
      (run sendAgain state calls).wire.length := by
  induction calls generalizing state with
  | nil => simp
  | cons call calls ih =>
      have once := callDelivers call deliverable
      have progress :
          (sendAgain state call).wire.length +
              min (calls.map granted).sum
                (unsentAll (sendAgain state call).chain).length ≤
            (run sendAgain (sendAgain state call) calls).wire.length :=
        ih once.keepsDeliverable
      have conserved :=
        congrArg List.length (ymoNetSendBuckets_conserves call state.chain)
      have moved := once.progresses
      rw [List.length_append] at conserved
      simp only [sendAgain, List.length_append] at progress
      rw [List.map_cons, List.sum_cons, run_cons]
      simp only [sendAgain]
      omega

theorem deliversWithin_of_deliverable (deliverable : Deliverable state.chain) :
    DeliversWithin (unsentAll state.chain).length state where
  conserves := run_sendAgain_conserves state
  okayMeansSent := by
    intro calls call finished
    rw [run_append] at finished ⊢
    have reached := run_sendAgain_deliverable deliverable calls
    exact (callDelivers call reached).okayMeansSent (Option.some.inj finished)
  completes := by
    intro calls enough
    have progress := run_sendAgain_progresses deliverable calls
    have conserved :=
      congrArg List.length (run_sendAgain_conserves state calls)
    rw [List.length_append, List.length_append] at conserved
    rw [Nat.min_eq_right enough] at progress
    have nothingLeft :
        (unsentAll (run sendAgain state calls).chain).length = 0 := by
      omega
    exact List.length_eq_zero_iff.mp nothingLeft

/-! ### Chains that are delivered are deliverable -/

theorem DeliversWithin.after (delivers : DeliversWithin bound state)
    (call : List SendOutcome) :
    DeliversWithin bound (sendAgain state call) where
  conserves calls := run_sendAgain_conserves _ calls
  okayMeansSent calls := delivers.okayMeansSent (call :: calls)
  completes := by
    intro calls enough
    have total : bound ≤ ((call :: calls).map granted).sum := by
      rw [List.map_cons, List.sum_cons]
      exact Nat.le_add_left_of_le enough
    exact delivers.completes (call :: calls) total

/-- A chain whose first slots are all spent never moves again. -/
theorem run_sendAgain_clogged (clogged : offered state.chain = [])
    (calls : List (List SendOutcome)) :
    (run sendAgain state calls).chain = state.chain := by
  refine
    invariant_run_always
      (fun later : SendRun => later.chain = state.chain)
      ?_ rfl calls
  intro later call same
  cases call with
  | nil => simp [sendAgain, ymoNetSendBuckets, same, clogged]
  | cons outcome outcomes => simp [sendAgain, ymoNetSendBuckets, same, clogged]

theorem sum_granted_replicate (count : Nat) :
    ((List.replicate count [SendOutcome.accepted 0]).map granted).sum =
      count := by
  simp [granted]

theorem DeliversWithin.unclogged (delivers : DeliversWithin bound state)
    (pending : unsentAll state.chain ≠ []) :
    leadingSpent state.chain < ymoBucketMaxIovec := by
  by_contra slots
  have clogged : offered state.chain = [] :=
    gather_eq_nil_of_clogged (Nat.not_lt.mp slots)
  have finished :=
    delivers.completes
      (List.replicate bound [SendOutcome.accepted 0])
      (sum_granted_replicate bound).ge
  rw [run_sendAgain_clogged clogged] at finished
  exact pending finished

theorem account_append_pending (spent : ∀ other ∈ front, other.unsent = [])
    (pending : bucket.unsent ≠ []) :
    account bucket.remain (front ++ bucket :: rest) = rest := by
  have positive : bucket.remain ≠ 0 :=
    fun none => pending ((bucket.remain_eq_zero_iff).mp none)
  rcases Nat.exists_eq_succ_of_ne_zero positive with ⟨before, equal⟩
  induction front with
  | nil =>
      rw [List.nil_append, equal, account,
        dif_neg (by rw [equal]; exact Nat.lt_irrefl _), equal,
        Nat.sub_self, account_zero]
  | cons other front ih =>
      have otherRemain : other.remain = 0 :=
        (other.remain_eq_zero_iff).mpr (spent other List.mem_cons_self)
      have frontSpent : ∀ later ∈ front, later.unsent = [] :=
        fun later member => spent later (List.mem_cons_of_mem other member)
      have step := ih frontSpent
      rw [equal] at step ⊢
      rw [List.cons_append, account,
        dif_neg (by rw [otherRemain]; exact Nat.not_lt_zero _),
        otherRemain, Nat.sub_zero]
      exact step

/-- One granted send that ends with the first pending bucket. -/
theorem ymoNetSendBuckets_first_pending
    (spent : ∀ other ∈ front, other.unsent = [])
    (pending : bucket.unsent ≠ [])
    (room : leadingSpent (front ++ bucket :: rest) < ymoBucketMaxIovec) :
    let result :=
      ymoNetSendBuckets [.accepted (bucket.remain - 1)]
        (front ++ bucket :: rest)
    result.chain = rest ∧
      (headHasLength rest = false → result.status = .okay) := by
  have reached : bucket.unsent <+: offered (front ++ bucket :: rest) :=
    gather_first_pending spent pending room
  have covered :
      bucket.remain ≤ (offered (front ++ bucket :: rest)).length := by
    rw [← Bucket.length_unsent]
    exact reached.length_le
  have positive : bucket.remain ≠ 0 :=
    fun none => pending ((bucket.remain_eq_zero_iff).mp none)
  have nonempty : offered (front ++ bucket :: rest) ≠ [] := by
    intro exhausted
    rw [exhausted] at covered
    exact positive (Nat.le_zero.mp covered)
  have count :
      min (bucket.remain - 1 + 1)
          (offered (front ++ bucket :: rest)).length =
        bucket.remain := by
    omega
  have left : account bucket.remain (front ++ bucket :: rest) = rest :=
    account_append_pending spent pending
  dsimp only
  rw [ymoNetSendBuckets, if_neg nonempty]
  dsimp only
  rw [count, left]
  cases again : headHasLength rest with
  | false => exact ⟨rfl, fun _ => rfl⟩
  | true =>
      refine ⟨?_, fun impossible => nomatch impossible⟩
      rw [if_pos rfl, ymoNetSendBuckets]
      split <;> rfl

theorem deliverable_of_deliversWithin (delivers : DeliversWithin bound state) :
    Deliverable state.chain := by
  -- on the length of the chain: one call removes a first pending bucket
  generalize size : state.chain.length = length
  induction length using Nat.strong_induction_on generalizing state with
  | _ length ih =>
      by_cases pending : unsentAll state.chain = []
      · exact deliverable_of_unsentAll_eq_nil pending
      rcases exists_first_pending pending with
        ⟨front, bucket, rest, shape, spent, bucketPending⟩
      have room : leadingSpent state.chain < ymoBucketMaxIovec :=
        delivers.unclogged pending
      let next := sendAgain state [.accepted (bucket.remain - 1)]
      have sent :=
        ymoNetSendBuckets_first_pending spent bucketPending (shape ▸ room)
      have nextChain : next.chain = rest := by
        simp only [next, sendAgain, shape]
        exact sent.1
      have gap : headHasLength rest = false → unsentAll rest = [] := by
        intro stopped
        have okay : next.status = some .okay := by
          simp only [next, sendAgain, shape]
          exact congrArg some (sent.2 stopped)
        rw [← nextChain]
        exact delivers.okayMeansSent [] _ okay
      have shorter : next.chain.length < length := by
        rw [nextChain, ← size, shape, List.length_append, List.length_cons]
        omega
      have restDeliverable : Deliverable rest := by
        rw [← nextChain]
        exact ih next.chain.length shorter (delivers.after _) rfl
      rw [shape]
      apply deliverable_append spent
      · intro _
        rw [← shape]
        exact room
      · refine ⟨?_, fun _ => gap, restDeliverable⟩
        intro _
        rw [leadingSpent_cons_of_pending bucketPending]
        exact Nat.zero_lt_succ _

/--
Repeated calls of `ymo_net_send_buckets` deliver a chain in order, and say
`YMO_OKAY` only when nothing is left, exactly for the deliverable chains.
-/
theorem deliversInOrder_iff_deliverable (chain : List Bucket) :
    DeliversInOrder chain ↔ Deliverable chain := by
  constructor
  · intro delivers
    exact deliverable_of_deliversWithin delivers
  · intro deliverable
    have held : Deliverable (SendRun.start chain).chain := deliverable
    exact deliversWithin_of_deliverable held

/-- `YMO_OKAY` with a byte left: an empty bucket hides the one behind it. -/
theorem not_deliversInOrder_empty_between :
    ¬ DeliversInOrder
      [Bucket.fresh [97], Bucket.fresh [], Bucket.fresh [98]] := by
  intro delivers
  have left := delivers.okayMeansSent [] [.accepted 0] (by decide)
  exact absurd left (by decide)

end Yimmo.Core.Net
