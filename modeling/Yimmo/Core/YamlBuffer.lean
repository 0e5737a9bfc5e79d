import Mathlib.Algebra.Order.BigOperators.Group.List
import Yimmo.Core.Yaml

/-!
# The buffer of a YAML document

The scalars of a document are copied one behind the other into a buffer that is as
long as the file.  A scalar is accepted by the count of the bytes that remain, and
written at the end pointer, and the end moves one byte further than the count
goes down.

The first part says what a run of scalars does to both: a stored one moves them,
and a rejected one leaves everything as it was.  The second
part is the accounting that ties the count to the end: it is lost with the first
scalar that is stored.
-/

namespace Yimmo.Core.YamlBuffer

open Yimmo.Core.StatusCode
open Yimmo.Core.Yaml
open Yimmo.Lib.ByteMemory

/-- One call of `ymo_yaml_node_create` for a scalar. -/
structure Call where
  parent : Option Nat
  anchor : Option Bytes
  text : Scalar

def create (yaml : YamlState) (call : Call) : Created :=
  ymoYamlNodeCreate yaml call.parent (.scalar call.anchor call.text)

/-- The document after some calls. -/
def run (yaml : YamlState) (calls : List Call) : YamlState :=
  calls.foldl (fun yaml call => (create yaml call).yaml) yaml

/-- The call copies its scalar. -/
def Stores (yaml : YamlState) (call : Call) : Prop :=
  call.parent ≠ none ∧ call.text.length + 1 < yaml.doc.remain

instance decidableStores
    (yaml : YamlState)
    (call : Call) :
    Decidable (Stores yaml call) :=
  inferInstanceAs (Decidable (_ ∧ _))

/-- A copied scalar: its zero byte is at `offset + length`. -/
structure Region where
  offset : Nat
  length : Nat
deriving DecidableEq

/-- The scalars that the calls copy. -/
def regions : YamlState → List Call → List Region
  | _, [] => []
  | yaml, call :: calls =>
      let rest := regions (create yaml call).yaml calls
      if Stores yaml call then
        { offset := yaml.doc.endAt, length := call.text.bytes.length } :: rest
      else rest

/-- One region ends in front of the other. -/
def Apart (left right : Region) : Prop :=
  left.offset + left.length < right.offset ∨
    right.offset + right.length < left.offset

/-! ## One call -/

variable {call : Call}

theorem create_of_not_stores {yaml : YamlState}
    (rejected : ¬Stores yaml call) :
    create yaml call =
      bail yaml (if call.parent = none then .einval else .efbig) := by
  obtain ⟨parent, anchor, text⟩ := call
  cases parent with
  | none => rfl
  | some owner =>
      have large : ¬text.length + 1 < yaml.doc.remain :=
        fun small => rejected ⟨Option.some_ne_none owner, small⟩
      exact if_neg large

/-- The count goes down by the scalar and its zero byte. -/
theorem create_remain {yaml : YamlState} (stores : Stores yaml call) :
    (create yaml call).yaml.doc.remain =
      yaml.doc.remain - (call.text.length + 1) := by
  obtain ⟨parent, anchor, text⟩ := call
  obtain ⟨hasParent, small⟩ := stores
  cases parent with
  | none => exact absurd rfl hasParent
  | some owner =>
      simp only [create, ymoYamlNodeCreate, createScalar, if_pos small]
      split <;> rfl

theorem create_remain_toNat {yaml : YamlState} (stores : Stores yaml call) :
    (create yaml call).yaml.doc.remain.toNat + call.text.bytes.length + 1 =
      yaml.doc.remain.toNat := by
  have small := UInt64.lt_iff_toNat_lt.mp stores.2
  rw [create_remain stores, UInt64.toNat_sub_of_le _ _ (Nat.le_of_lt small)]
  rw [Scalar.size_toNat] at small ⊢
  omega

theorem create_len (yaml : YamlState) (call : Call) :
    (create yaml call).yaml.doc.len = yaml.doc.len := by
  obtain ⟨parent, anchor, text⟩ := call
  cases parent with
  | none => rfl
  | some owner =>
      simp only [create, ymoYamlNodeCreate, createScalar]
      split
      · split <;> rfl
      · rfl

/-- The end moves by one byte more, or not at all. -/
theorem create_endAt {yaml : YamlState} (stores : Stores yaml call) :
    (create yaml call).yaml.doc.endAt =
        yaml.doc.endAt + call.text.bytes.length + 2 ∨
      (create yaml call).yaml.doc.endAt = yaml.doc.endAt := by
  obtain ⟨parent, anchor, text⟩ := call
  obtain ⟨hasParent, small⟩ := stores
  cases parent with
  | none => exact absurd rfl hasParent
  | some owner =>
      have moved : yaml.doc.endAt + (text.length + 1).toNat + 1 =
          yaml.doc.endAt + text.bytes.length + 2 := by
        rw [Scalar.size_toNat]
        omega
      simp only [create, ymoYamlNodeCreate, createScalar, if_pos small]
      split
      · exact .inr rfl
      all_goals exact .inl moved

/-! ## The accounting -/

/-- `doc->remain` is `doc->len - (doc->end - doc->buffer)`. -/
def Accounted (doc : YamlDoc) : Prop :=
  doc.remain.toNat + doc.endAt = doc.len.toNat

instance decidableAccounted (doc : YamlDoc) : Decidable (Accounted doc) :=
  inferInstanceAs (Decidable (_ = _))

/-- What the buffer is to do over a run of calls. -/
structure BufferSafe (yaml : YamlState) (calls : List Call) : Prop where
  accounted :
    ∀ front back, calls = front ++ back → Accounted (run yaml front).doc
  /-- A scalar that is stored is in the buffer, up to its zero byte. -/
  copied :
    ∀ front call back, calls = front ++ call :: back →
      Stores (run yaml front) call →
        (run yaml front).doc.endAt + call.text.bytes.length <
            (run yaml front).doc.len.toNat ∧
          Holds (create (run yaml front) call).yaml.doc.buffer
            (run yaml front).doc.endAt (cString call.text.bytes ++ [0])
  apart : (regions yaml calls).Pairwise Apart
  /-- A scalar for which there is no room is not stored. -/
  rejected :
    ∀ front call back, calls = front ++ call :: back →
      (run yaml front).doc.len.toNat ≤
          (run yaml front).doc.endAt + call.text.bytes.length →
        create (run yaml front) call =
          bail (run yaml front)
            (if call.parent = none then .einval else .efbig)

/-- One scalar that is stored is enough to lose the accounting. -/
theorem not_accounted_of_stores {yaml : YamlState}
    (accounted : Accounted yaml.doc)
    (stores : Stores yaml call) :
    ¬Accounted (create yaml call).yaml.doc := by
  intro kept
  have fewer := create_remain_toNat stores
  have sameLen := congrArg UInt64.toNat (create_len yaml call)
  unfold Accounted at accounted kept
  rcases create_endAt stores with moved | moved <;> omega

theorem not_stores_of_accounted {yaml : YamlState} {calls : List Call}
    (accounted :
      ∀ front back, calls = front ++ back → Accounted (run yaml front).doc) :
    ∀ call ∈ calls, ¬Stores yaml call := by
  induction calls with
  | nil => exact nofun
  | cons call calls ih =>
      have first : ¬Stores yaml call := fun stores =>
        not_accounted_of_stores (accounted [] _ rfl) stores
          (accounted [call] calls rfl)
      have same : (create yaml call).yaml = yaml := by
        rw [create_of_not_stores first]
        rfl
      intro other member
      rcases List.mem_cons.mp member with rfl | member
      · exact first
      · refine ih (fun front back split => ?_) other member
        have := accounted (call :: front) back (by rw [split]; rfl)
        rwa [run, List.foldl_cons, same] at this

/-- Calls that store nothing leave the document as it was. -/
theorem run_of_not_stores {yaml : YamlState} {calls : List Call}
    (rejected : ∀ call ∈ calls, ¬Stores yaml call) :
    run yaml calls = yaml ∧ regions yaml calls = [] := by
  induction calls with
  | nil => exact ⟨rfl, rfl⟩
  | cons call calls ih =>
      have first := rejected call List.mem_cons_self
      have same : (create yaml call).yaml = yaml := by
        rw [create_of_not_stores first]
        rfl
      have later := ih fun other member =>
        rejected other (List.mem_cons_of_mem _ member)
      rw [run, List.foldl_cons, same, regions, if_neg first, same]
      exact later

theorem bufferSafe_iff {yaml : YamlState} (calls : List Call)
    (accounted : Accounted yaml.doc) :
    BufferSafe yaml calls ↔ ∀ call ∈ calls, ¬Stores yaml call := by
  constructor
  · exact fun safe => not_stores_of_accounted safe.accounted
  · intro rejected
    have idle (front back : List Call) (split : calls = front ++ back) :
        run yaml front = yaml :=
      (run_of_not_stores fun call member =>
        rejected call (by rw [split]; exact List.mem_append_left _ member)).1
    have member {front back : List Call} {call : Call}
        (split : calls = front ++ call :: back) : call ∈ calls := by
      rw [split]
      exact List.mem_append_right _ List.mem_cons_self
    refine ⟨?_, ?_, ?_, ?_⟩
    · intro front back split
      rwa [idle front back split]
    · intro front call back split stores
      rw [idle front _ split] at stores
      exact absurd stores (rejected call (member split))
    · rw [(run_of_not_stores rejected).2]
      exact .nil
    · intro front call back split _
      rw [idle front _ split]
      exact create_of_not_stores (rejected call (member split))

/-- A scalar is stored in a new document exactly if it is shorter than the file. -/
theorem buffer_safe_iff (fresh : Memory) (fSize : UInt64)
    (nodes : Nat → YamlNode)
    (created : Nat)
    (calls : List Call) :
    (∀ doc, ymoYamlDocCreate fresh fSize = some doc →
      BufferSafe { doc := doc, nodes := nodes, created := created } calls) ↔
      ymoYamlDocMaxSize < fSize + 1 ∨
        ∀ call ∈ calls, call.parent ≠ none →
          fSize + 1 ≤ call.text.length + 1 := by
  by_cases large : fSize + 1 > ymoYamlDocMaxSize
  · refine iff_of_true ?_ (.inl large)
    intro doc isDoc
    rw [ymoYamlDocCreate, if_pos large] at isDoc
    exact nomatch isDoc
  · rw [ymoYamlDocCreate, if_neg large]
    simp only [Option.some.injEq, forall_eq']
    have accounted : Accounted
        { len := fSize + 1
          buffer := store fresh fSize.toNat 0
          root := none
          remain := fSize + 1
          endAt := 0 } :=
      Nat.add_zero _
    rw [bufferSafe_iff calls accounted, or_iff_right large]
    simp only [Stores, not_and, UInt64.not_lt]

/-! ## A file with four scalars -/

/-- The node of a sequence is there. -/
def sequenceNodes (_ : Nat) : YamlNode :=
  { newNode none with yType := .sequence }

/-- The scalars of `[a,b,c,d]`. -/
def fourCalls : List Call :=
  [ ⟨some 0, none, .single 97⟩,
    ⟨some 0, none, .single 98⟩,
    ⟨some 0, none, .single 99⟩,
    ⟨some 0, none, .single 100⟩ ]

/-- The zero byte of the last scalar is written behind the buffer of ten bytes. -/
theorem four_scalars_overrun :
    ∃ doc, ymoYamlDocCreate (fun _ => 0) 9 = some doc ∧
      (regions { doc := doc, nodes := sequenceNodes, created := 1 }
        fourCalls).getLast? = some { offset := 9, length := 1 } ∧
      doc.len = 10 ∧
      ¬BufferSafe { doc := doc, nodes := sequenceNodes, created := 1 }
        fourCalls := by
  refine ⟨_, rfl, rfl, rfl, fun safe => ?_⟩
  have accounted := safe.accounted [fourCalls.head (by decide)] _ rfl
  exact absurd accounted (by decide)

end Yimmo.Core.YamlBuffer
