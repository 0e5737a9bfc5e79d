import Mathlib.Algebra.GroupWithZero.Nat
import Yimmo.Core.TrieFlattening

/-!
# The capacity of offset-indexed tries

A flattened trie has eight bits for an offset and eight bits for an id.  This module
says which tries have room in it, and what `ymo_oitrie_create` makes of the others.

It does not look at what `oitrie_node_create` returns, so that a trie is returned
whether it was filled or not, and ids are not checked at all.
-/

namespace Yimmo.Core.TrieCapacity

open Yimmo.Core.Characters
open Yimmo.Core.StatusCode
open Yimmo.Core.Trie
open Yimmo.Core.TrieFlattening

variable
    {children : Children}
    {c : UInt8}

/-- The offsets and the ids have eight bits. -/
def Representable : Children → Prop
  | .none => True
  | .entry _ value _ valueId below next =>
      (next ≠ .none → 1 + size below ≤ ymoOitrieMaxOffset) ∧
        (value = true → valueId < 2 ^ 8) ∧
          Representable below ∧ Representable next

instance decidableRepresentable :
    ∀ children, Decidable (Representable children)
  | .none => .isTrue trivial
  | .entry _ _ _ _ below next =>
      have := decidableRepresentable below
      have := decidableRepresentable next
      instDecidableAnd

/-- No node has the character `0xff`. -/
def BelowLast : Children → Prop
  | .none => True
  | .entry c _ _ _ below next => c ≠ 0xff ∧ BelowLast below ∧ BelowLast next

/-- `ymo_oitrie_create`: what it returns, since memory is allocated; `none` would be
NULL. -/
def createdTrie (trie : YmoTrie) : Option (Option YmoOitrie) :=
  (ymoOitrieCreate trie).map fun result => some result.2

/-! ## Filling the array -/

/-- The status of `oitrie_node_create`: it is `YMO_OKAY` if the offsets have eight
bits. -/
theorem oitrieNodeCreate_returns (belowLast : BelowLast children) {first : Nat}
    (numbered : Numbered first children)
    (flat : Flat) :
    ∃ status after,
      oitrieNodeCreate children flat = some (status, after) ∧
        (Representable children → status = .okay) := by
  induction children generalizing first flat with
  | none => exact ⟨.okay, flat, rfl, fun _ => rfl⟩
  | entry c value index valueId below next belowHypothesis
      nextHypothesis =>
      rcases numbered with ⟨rfl, numberedBelow, numberedNext⟩
      rw [oitrieNodeCreate, firstIndex_numbered numberedNext]
      by_cases last : next = .none
      · rw [if_pos last]
        dsimp only
        rcases belowHypothesis belowLast.2.1 numberedBelow
            (Flat.modify flat index (storeNode c value valueId below))
          with ⟨status, after, under, okay⟩
        rw [under]
        cases status with
        | okay =>
            dsimp only
            rw [if_neg belowLast.1]
            exact ⟨.okay, after, rfl, fun _ => rfl⟩
        | err errno =>
            refine ⟨.err errno, after, rfl, ?_⟩
            intro representable
            exact okay representable.2.2.1
      · rw [if_neg last]
        dsimp only
        have distance : index + 1 + size below - index = 1 + size below := by
          omega
        rw [distance]
        by_cases far : 1 + size below > ymoOitrieMaxOffset
        · rw [if_pos far]
          refine ⟨_, _, rfl, ?_⟩
          intro representable
          exact absurd (representable.1 last) (Nat.not_le.mpr far)
        · rw [if_neg far]
          generalize
            Flat.modify
                (Flat.modify flat index (storeNode c value valueId below))
                index
                (fun node =>
                  { node with offset := UInt8.ofNat (1 + size below) }) =
              flat'
          rcases belowHypothesis belowLast.2.1 numberedBelow flat'
            with ⟨status, after, under, okay⟩
          rw [under]
          cases status with
          | okay =>
              rcases nextHypothesis belowLast.2.2 numberedNext after
                with ⟨status, later, right, fine⟩
              refine ⟨status, later, right, ?_⟩
              intro representable
              exact fine representable.2.2.2
          | err errno =>
              refine ⟨.err errno, after, rfl, ?_⟩
              intro representable
              exact okay representable.2.2.1

/-! ## Characters -/

set_option maxRecDepth 4000 in
theorem ymoTolower_eq_last (last : ymoTolower c = 0xff) : c = 0xff := by
  cases c with
  | ofBitVec bits =>
      revert bits
      decide

theorem BelowLast.child (belowLast : BelowLast children) (c : UInt8) :
    BelowLast (child c children).children := by
  induction children with
  | none => trivial
  | entry d value index valueId below next _ ih =>
      rw [TrieFlattening.child, Children.get]
      split_ifs
      · exact belowLast.2.1
      · exact ih belowLast.2.2

theorem BelowLast.put (belowLast : BelowLast children) (before : c ≠ 0xff)
    {node : TrieNode}
    (below : BelowLast node.children) :
    BelowLast (children.put c node) := by
  induction children with
  | none => exact ⟨before, below, trivial⟩
  | entry d value index valueId lower next _ ih =>
      rw [Children.put]
      split_ifs
      · exact ⟨before, below, belowLast⟩
      · exact ⟨belowLast.1, below, belowLast.2.2⟩
      · exact ⟨belowLast.1, belowLast.2.1, ih belowLast.2.2⟩

theorem belowLast_addChars {chars : Bytes} (before : 0xff ∉ chars)
    {node : TrieNode}
    (belowLast : BelowLast node.children) :
    BelowLast (addChars chars node).1.children := by
  induction chars generalizing node with
  | nil => exact belowLast
  | cons c rest ih =>
      rw [children_addChars_cons]
      have here : ymoTolower c ≠ 0xff := fun last =>
        before (ymoTolower_eq_last last ▸ List.mem_cons_self)
      have later : 0xff ∉ rest := fun member =>
        before (List.mem_cons_of_mem c member)
      exact belowLast.put here (ih later (belowLast.child _))

theorem belowLast_trieOf {strings : List CString}
    (before : ∀ string ∈ strings, 0xff ∉ string.chars) :
    BelowLast (trieOf strings).root.children := by
  have added :
      ∀ (strings : List CString) (trie : YmoTrie),
        (∀ string ∈ strings, 0xff ∉ string.chars) →
          BelowLast trie.root.children →
            BelowLast (strings.foldl ymoTrieAddString trie).root.children := by
    intro strings
    induction strings with
    | nil =>
        intro trie _ belowLast
        exact belowLast
    | cons string rest ih =>
        intro trie before belowLast
        refine ih _ ?_ ?_
        · intro other member
          exact before other (List.mem_cons_of_mem string member)
        · exact belowLast_addChars (before string List.mem_cons_self) belowLast
  exact added strings ymoTrieCreate before trivial

/-- Annotating leaves the characters as they are. -/
theorem BelowLast.annotate (belowLast : BelowLast children)
    (nodeId valueId : Nat) :
    BelowLast (trieNodeAnnotate children nodeId valueId).1 := by
  induction children generalizing nodeId valueId with
  | none => trivial
  | entry c value index oldId below next belowHypothesis nextHypothesis =>
      exact
        ⟨belowLast.1, belowHypothesis belowLast.2.1 _ _,
          nextHypothesis belowLast.2.2 _ _⟩

/-! ## Ids -/

/-- The ids are those from one number up to another one, and each of them is the id
of one string. -/
structure Ids (first last : Nat) (children : Children) : Prop where
  ordered : first ≤ last
  between : ∀ key id, find key children = some id → first ≤ id ∧ id < last
  single :
    ∀ key other id,
      find key children = some id → find other children = some id → key = other

/-- An id is the one of the node itself, of a node below it, or of a later one. -/
theorem find_entry_cases {key : Bytes} {value : Bool} {index valueId id : Nat}
    {below next : Children}
    (found : find key (.entry c value index valueId below next) = some id) :
    (key = [c] ∧ value = true ∧ id = valueId) ∨
      (∃ rest, key = c :: rest ∧ find rest below = some id) ∨
        find key next = some id := by
  cases key with
  | nil => nomatch found
  | cons k rest =>
      rw [find_entry] at found
      split_ifs at found with same ends terminal
      · left
        rw [same, ends]
        exact ⟨rfl, terminal, (Option.some.inj found).symm⟩
      · right
        left
        exact ⟨rest, by rw [same], found⟩
      · right
        right
        exact found

theorem ids_trieNodeAnnotate (children : Children) (nodeId valueId : Nat) :
    Ids valueId (trieNodeAnnotate children nodeId valueId).2.2
      (trieNodeAnnotate children nodeId valueId).1 := by
  induction children generalizing nodeId valueId with
  | none =>
      refine ⟨Nat.le_refl _, ?_, ?_⟩
      · intro key id found
        nomatch (find_none key).symm.trans found
      · intro key other id found
        nomatch (find_none key).symm.trans found
  | entry c value index oldId below next belowHypothesis nextHypothesis =>
      have under :=
        belowHypothesis (nodeId + 1) (if value then valueId + 1 else valueId)
      rw [trieNodeAnnotate]
      dsimp only
      generalize
        trieNodeAnnotate below (nodeId + 1)
          (if value then valueId + 1 else valueId) = lower at under
      rcases lower with ⟨below', nodeId', valueId'⟩
      have later := nextHypothesis nodeId' valueId'
      dsimp only at under ⊢
      generalize trieNodeAnnotate next nodeId' valueId' = right at later
      rcases right with ⟨next', nodeId'', valueId''⟩
      dsimp only at later ⊢
      have start : valueId ≤ if value then valueId + 1 else valueId := by
        split_ifs
        · exact Nat.le_succ valueId
        · exact Nat.le_refl valueId
      have ordered := under.ordered
      have ordered' := later.ordered
      -- The ids of the node, of those below it and of the later ones are apart.
      have own :
          ∀ id,
            value = true →
              id = (if value then valueId else oldId) →
                valueId ≤ id ∧
                  id < if value then valueId + 1 else valueId := by
        intro id terminal same
        rw [if_pos terminal] at same ⊢
        omega
      refine ⟨by omega, ?_, ?_⟩
      · intro key id found
        rcases find_entry_cases found
          with ⟨-, terminal, same⟩ | ⟨rest, -, lower⟩ | right
        · have bounds := own id terminal same
          omega
        · have bounds := under.between rest id lower
          omega
        · have bounds := later.between key id right
          omega
      · intro key other id found foundOther
        rcases find_entry_cases found
          with ⟨single, terminal, same⟩ | ⟨rest, split, lower⟩ | right
        · have bounds := own id terminal same
          rcases find_entry_cases foundOther
            with ⟨single', -, -⟩ | ⟨rest', -, lower'⟩ | right'
          · rw [single, single']
          · have bounds' := under.between rest' id lower'
            omega
          · have bounds' := later.between other id right'
            omega
        · have bounds := under.between rest id lower
          rcases find_entry_cases foundOther
            with ⟨-, terminal, same⟩ | ⟨rest', split', lower'⟩ | right'
          · have bounds' := own id terminal same
            omega
          · rw [split, split', under.single rest rest' id lower lower']
          · have bounds' := later.between other id right'
            omega
        · have bounds := later.between key id right
          rcases find_entry_cases foundOther
            with ⟨-, terminal, same⟩ | ⟨rest', -, lower'⟩ | right'
          · have bounds' := own id terminal same
            omega
          · have bounds' := under.between rest' id lower'
            omega
          · exact later.single key other id right right'

/-- The ids that are found have eight bits. -/
theorem Representable.id_lt (representable : Representable children)
    {key : Bytes}
    {id : Nat}
    (found : find key children = some id) :
    id < 2 ^ 8 := by
  induction children generalizing key with
  | none => nomatch (find_none key).symm.trans found
  | entry c value index valueId below next belowHypothesis nextHypothesis =>
      rcases find_entry_cases found
        with ⟨-, terminal, same⟩ | ⟨rest, -, lower⟩ | right
      · rw [same]
        exact representable.2.1 terminal
      · exact belowHypothesis representable.2.2.1 lower
      · exact nextHypothesis representable.2.2.2 right

/-! ## What is returned -/

/-- A trie that is returned finds the strings that were added, those that differ by
different ids, and one that has no room is not returned. -/
structure Guarded
    (strings : List CString)
    (result : Option YmoOitrie) : Prop where
  found :
    ∀ oitrie,
      result = some oitrie →
        ∀ string ∈ strings,
          ∃ hdrId, ymoOitrieGetId oitrie string = .found hdrId
  distinct :
    ∀ oitrie,
      result = some oitrie →
        ∀ string ∈ strings, ∀ other ∈ strings,
          string.lower ≠ other.lower →
            ∀ hdrId,
              ymoOitrieGetId oitrie string = .found hdrId →
                ymoOitrieGetId oitrie other ≠ .found hdrId
  refused : ¬Representable (annotated (trieOf strings)) → result = none

section

variable {strings : List CString}

/-- A trie is always returned, and filled if it has room. -/
theorem createdTrie_returns
    (before : ∀ string ∈ strings, 0xff ∉ string.chars) :
    ∃ status oitrie,
      ymoOitrieCreate (trieOf strings) = some (status, oitrie) ∧
        createdTrie (trieOf strings) = some (some oitrie) ∧
          (Representable (annotated (trieOf strings)) → status = .okay) := by
  have annotates :=
    annotates_trieNodeAnnotate (trieOf strings).root.children 0 0
  have belowLast := (belowLast_trieOf before).annotate 0 0
  rcases oitrieNodeCreate_returns belowLast annotates.numbered
      (fun _ => .zero)
    with ⟨status, flat, filled, okay⟩
  have created :
      ymoOitrieCreate (trieOf strings) =
        some
          (status,
            { root := flat
              noNodes := (trieOf strings).noNodes
              noValues := (trieOf strings).noValues }) :=
    congrArg (Option.map _) filled
  refine ⟨status, _, created, ?_, okay⟩
  rw [createdTrie, created]
  rfl

/-- The empty string is not found. -/
theorem empty_not_found {oitrie : YmoOitrie}
    (created : ymoOitrieCreate (trieOf strings) = some (.okay, oitrie))
    {empty : CString}
    (nothing : empty.chars = [])
    (hdrId : UInt8) :
    ymoOitrieGetId oitrie empty ≠ .found hdrId := by
  intro found
  by_cases noNode : annotated (trieOf strings) = .none
  · have annotates :=
      annotates_trieNodeAnnotate (trieOf strings).root.children 0 0
    have noNodes : (trieOf strings).noNodes = 0 := by
      have sized := annotates.sized
      rw [show (trieNodeAnnotate (trieOf strings).root.children 0 0).1 =
        .none from noNode] at sized
      exact (stores_trieOf strings).counted.trans sized.symm
    rcases Option.map_eq_some_iff.mp created with ⟨⟨status, flat⟩, _, same⟩
    cases same
    rw [ymoOitrieGetId, noNodes] at found
    nomatch found
  · have key : empty.lower = [] := by
      rw [CString.lower, nothing]
      rfl
    rw [ymoOitrieGetId_of_created created noNode, key, find_nil] at found
    nomatch found

/-- What is returned is right if and only if the trie has room in eight bits and the
empty string was not added. -/
theorem guarded_iff (before : ∀ string ∈ strings, 0xff ∉ string.chars) :
    ∃ result,
      createdTrie (trieOf strings) = some result ∧
        (Guarded strings result ↔
          Representable (annotated (trieOf strings)) ∧
            ∀ string ∈ strings, string.chars ≠ []) := by
  rcases createdTrie_returns before
    with ⟨status, oitrie, created, returned, okay⟩
  refine ⟨some oitrie, returned, ?_, ?_⟩
  · intro guarded
    have representable : Representable (annotated (trieOf strings)) := by
      by_contra noRoom
      nomatch guarded.refused noRoom
    rw [okay representable] at created
    refine ⟨representable, ?_⟩
    intro string member nothing
    rcases guarded.found oitrie rfl string member with ⟨hdrId, found⟩
    exact empty_not_found created nothing hdrId found
  · rintro ⟨representable, nonempty⟩
    rw [okay representable] at created
    have ids := ids_trieNodeAnnotate (trieOf strings).root.children 0 0
    have faithful : strings ≠ [] → Faithful strings oitrie :=
      (faithful_iff nonempty created).mpr
    refine ⟨?_, ?_, ?_⟩
    · rintro _ ⟨⟩ string member
      have someString := List.ne_nil_of_mem member
      exact ((faithful someString).found string).mpr ⟨string, member, rfl⟩
    · rintro _ ⟨⟩ string member other otherMember different hdrId found
        foundOther
      have someString := List.ne_nil_of_mem member
      rcases (faithful someString).hdrId string hdrId found
        with ⟨id, stands, same⟩
      rcases (faithful someString).hdrId other hdrId foundOther
        with ⟨otherId, otherStands, otherSame⟩
      have less := representable.id_lt stands
      have otherLess := representable.id_lt otherStands
      have equal : id = otherId := by
        have values := congrArg UInt8.toNat (same.symm.trans otherSame)
        rw [UInt8.toNat_ofNat', UInt8.toNat_ofNat',
          Nat.mod_eq_of_lt less, Nat.mod_eq_of_lt otherLess] at values
        exact values
      rw [← equal] at otherStands
      exact different (ids.single _ _ id stands otherStands)
    · intro noRoom
      exact absurd representable noRoom

end

theorem guarded_someStrings :
    ∃ result,
      createdTrie (trieOf someStrings) = some result ∧
        Guarded someStrings result := by
  rcases guarded_iff (show ∀ string ∈ someStrings, 0xff ∉ string.chars by
      decide)
    with ⟨result, returned, guarded⟩
  exact ⟨result, returned, guarded.mpr (by decide)⟩

/-- A name of 256 characters, and another one. -/
def longName : List CString :=
  [⟨List.replicate 256 0x61,
      fun member => absurd (List.eq_of_mem_replicate member) (by decide)⟩,
    ⟨[0x62], by decide⟩]

set_option maxRecDepth 4000 in
/-- The trie has no room for the offset; it is returned nevertheless, and the other
name is not found. -/
theorem longName_returned :
    ∃ oitrie,
      createdTrie (trieOf longName) = some (some oitrie) ∧
        ymoOitrieGetId oitrie ⟨[0x62], by decide⟩ = .missing ∧
          ¬Guarded longName (some oitrie) := by
  have before : ∀ string ∈ longName, 0xff ∉ string.chars := by decide
  rcases createdTrie_returns before with ⟨_, oitrie, _, returned, _⟩
  have looked :
      (createdTrie (trieOf longName)).bind
          (Option.map (ymoOitrieGetId · ⟨[0x62], by decide⟩)) =
        some .missing := by
    decide
  rw [returned] at looked
  refine ⟨oitrie, returned, Option.some.inj looked, ?_⟩
  intro guarded
  have noRoom : ¬Representable (annotated (trieOf longName)) := by decide
  nomatch guarded.refused noRoom

end Yimmo.Core.TrieCapacity
