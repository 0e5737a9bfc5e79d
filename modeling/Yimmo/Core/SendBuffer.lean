import Yimmo.Core.Net

/-!
# The chains a protocol keeps between its write callbacks

A protocol appends buckets to a chain, calls `ymo_net_send_buckets` on it and
keeps what is left.  In such a chain no bucket that has bytes has been sent to
its end, since accounting frees those; and when no empty bucket is ever
appended, every bucket has a byte to send.

On these chains a call that meets no failing socket either reports `YMO_OKAY` or
blocks with a byte left to send.
-/

namespace Yimmo.Core.SendBuffer

open Yimmo.Core.StatusCode
open Yimmo.Core.Net

variable {chain : List Bucket}

/-- No bucket with bytes has been sent to its end. -/
def Unspent (chain : List Bucket) : Prop :=
  ∀ bucket ∈ chain, bucket.len ≠ 0 → bucket.unsent ≠ []

/-- Every bucket has a byte to send. -/
def Pending (chain : List Bucket) : Prop :=
  ∀ bucket ∈ chain, bucket.unsent ≠ []

/-- The socket may take what it likes or block; it does not fail. -/
def Willing (outcomes : List SendOutcome) : Prop :=
  ∀ errno, SendOutcome.failed errno ∉ outcomes

theorem Willing.tail {outcome : SendOutcome} {outcomes : List SendOutcome}
    (willing : Willing (outcome :: outcomes)) :
    Willing outcomes :=
  fun errno member => willing errno (List.mem_cons_of_mem outcome member)

theorem Pending.unspent (pending : Pending chain) : Unspent chain :=
  fun bucket member _ => pending bucket member

theorem pending_append {front back : List Bucket} :
    Pending (front ++ back) ↔ Pending front ∧ Pending back :=
  List.forall_mem_append

theorem pending_fresh {data : Bytes} (nonempty : data ≠ []) :
    Pending [Bucket.fresh data] := by
  intro bucket member
  rw [List.mem_singleton.mp member, Bucket.unsent_fresh]
  exact nonempty

theorem Pending.unsentAll_ne_nil (pending : Pending chain)
    (nonempty : chain ≠ []) :
    unsentAll chain ≠ [] := by
  cases chain with
  | nil => exact absurd rfl nonempty
  | cons bucket rest =>
      intro drained
      rw [unsentAll_cons] at drained
      exact
        pending bucket List.mem_cons_self (List.append_eq_nil_iff.mp drained).1

theorem Pending.deliverable (pending : Pending chain) : Deliverable chain := by
  induction chain with
  | nil => trivial
  | cons bucket rest ih =>
      have here := pending bucket List.mem_cons_self
      have later : Pending rest :=
        fun other member => pending other (List.mem_cons_of_mem bucket member)
      refine ⟨?_, ?_, ih later⟩
      · intro _
        rw [leadingSpent_cons_of_pending here]
        exact Nat.zero_lt_succ _
      · intro _ headless
        cases rest with
        | nil => rfl
        | cons next _ =>
            have nextPending := later next List.mem_cons_self
            exact
              absurd (bne_eq_false_iff_eq.mp headless)
                (Bucket.len_ne_zero_of_unsent_ne_nil nextPending)

theorem account_forall
    (keeps : Bucket → Prop)
    (advanced :
      ∀ (bucket : Bucket) count (inside : count < bucket.remain),
        keeps (bucket.advance count inside))
    {chain : List Bucket}
    (all : ∀ bucket ∈ chain, keeps bucket)
    (count : Nat) :
    ∀ bucket ∈ account count chain, keeps bucket := by
  induction chain generalizing count with
  | nil =>
      intro bucket member
      cases count <;> nomatch member
  | cons bucket rest ih =>
      have later : ∀ other ∈ rest, keeps other :=
        fun other member => all other (List.mem_cons_of_mem bucket member)
      cases count with
      | zero => exact all
      | succ count =>
          rw [account]
          split
          · rename_i inside
            intro other member
            rcases List.mem_cons.mp member with equal | rest
            · rw [equal]
              exact advanced bucket (count + 1) inside
            · exact later other rest
          · exact ih later _

theorem Unspent.account (unspent : Unspent chain) (count : Nat) :
    Unspent (account count chain) :=
  account_forall _
    (fun bucket count inside _ => bucket.unsent_advance_ne_nil count inside)
    unspent count

theorem Pending.account (pending : Pending chain) (count : Nat) :
    Pending (account count chain) :=
  account_forall _
    (fun bucket count inside => bucket.unsent_advance_ne_nil count inside)
    pending count

/-- What accounting keeps, a call keeps. -/
theorem ymoNetSendBuckets_forall {kept : List Bucket → Prop}
    (accounted : ∀ chain count, kept chain → kept (account count chain))
    (outcomes : List SendOutcome)
    {chain : List Bucket}
    (initially : kept chain) :
    kept (ymoNetSendBuckets outcomes chain).chain := by
  induction outcomes generalizing chain with
  | nil =>
      unfold ymoNetSendBuckets
      split <;> exact initially
  | cons outcome outcomes ih =>
      unfold ymoNetSendBuckets
      split
      · exact initially
      · cases outcome with
        | accepted room =>
            have left := accounted chain (min (room + 1)
              (offered chain).length) initially
            dsimp only
            split
            · exact ih left
            · exact left
        | blocked => exact initially
        | failed errno => exact initially

theorem Pending.send (pending : Pending chain) (outcomes : List SendOutcome) :
    Pending (ymoNetSendBuckets outcomes chain).chain :=
  ymoNetSendBuckets_forall
    (fun _ count held => held.account count) outcomes pending

theorem unsentAll_ne_nil_of_headHasLength (unspent : Unspent chain)
    (head : headHasLength chain = true) :
    unsentAll chain ≠ [] := by
  cases chain with
  | nil => nomatch head
  | cons bucket rest =>
      intro drained
      rw [unsentAll_cons] at drained
      exact
        unspent bucket List.mem_cons_self (bne_iff_ne.mp head)
          (List.append_eq_nil_iff.mp drained).1

/-- How a call ends that meets no failing socket. -/
def Continues (result : SendResult) : Prop :=
  result.status = .okay ∨
    (result.status = .err .eagain ∧ unsentAll result.chain ≠ [])

/-- With a byte to send, a call reports `YMO_OKAY` or blocks. -/
theorem ymoNetSendBuckets_continues {outcomes : List SendOutcome}
    (willing : Willing outcomes)
    (unspent : Unspent chain)
    (deliverable : Deliverable chain)
    (pending : unsentAll chain ≠ []) :
    Continues (ymoNetSendBuckets outcomes chain) := by
  induction outcomes generalizing chain with
  | nil =>
      have exhausted := offered_ne_nil_of_deliverable deliverable pending
      unfold ymoNetSendBuckets
      rw [if_neg exhausted]
      exact .inr ⟨rfl, pending⟩
  | cons outcome outcomes ih =>
      have exhausted := offered_ne_nil_of_deliverable deliverable pending
      unfold ymoNetSendBuckets
      rw [if_neg exhausted]
      cases outcome with
      | blocked => exact .inr ⟨rfl, pending⟩
      | failed errno => exact absurd List.mem_cons_self (willing errno)
      | accepted room =>
          dsimp only
          split
          · rename_i again
            have left :=
              unspent.account (min (room + 1) (offered chain).length)
            exact
              ih willing.tail left
                (deliverable_account deliverable _)
                (unsentAll_ne_nil_of_headHasLength left again)
          · exact .inl rfl

/-- What a call that ends so has sent: everything, or a byte for each send. -/
theorem granted_le_of_blocked (outcomes : List SendOutcome)
    (deliverable : Deliverable chain)
    (left : unsentAll (ymoNetSendBuckets outcomes chain).chain ≠ []) :
    (unsentAll (ymoNetSendBuckets outcomes chain).chain).length +
        granted outcomes ≤
      (unsentAll chain).length := by
  have progress := (callDelivers outcomes deliverable).progresses
  have conserved :=
    congrArg List.length (ymoNetSendBuckets_conserves outcomes chain)
  have positive := List.length_pos_iff.mpr left
  rw [List.length_append] at conserved
  omega

end Yimmo.Core.SendBuffer
