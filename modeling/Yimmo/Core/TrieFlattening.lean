import Mathlib.Data.List.Basic
import Yimmo.Core.Trie

/-!
# Tries keep their meaning when they are flattened

A trie stands for the strings that were added to it, in lower case, each with the
`value_id` of its node (`Children.find`).  `trieOf_find` is about building the trie,
`laid_oitrieNodeCreate` says where the nodes lie in the array, and `getIdLoop_laid`
that a lookup in the array is a lookup in the trie.

A trie to which nothing was added has no nodes, and the lookup reads one.
-/

namespace Yimmo.Core.TrieFlattening

open Yimmo.Core.Characters
open Yimmo.Core.StatusCode
open Yimmo.Core.Trie

variable
    {children : Children}
    {node : TrieNode}

/-! ## Characters -/

set_option maxRecDepth 4000 in
theorem ymoTolower_eq_zero {c : UInt8} : ymoTolower c = 0 ↔ c = 0 := by
  cases c with
  | ofBitVec bits =>
      revert bits
      decide

/-! ## The meaning of a trie -/

/-- The `value_id` under which a string is stored. -/
def find : Bytes → Children → Option Nat
  | [], _ => none
  | c :: rest, children =>
      match children.get c with
      | none => none
      | some (node, valueId) =>
          if rest = [] then if node.value then some valueId else none
          else find rest node.children

@[simp]
theorem find_nil (children : Children) : find [] children = none :=
  rfl

@[simp]
theorem find_none (key : Bytes) : find key .none = none := by
  cases key with
  | nil => rfl
  | cons c rest => rfl

theorem find_entry (c : UInt8) (rest : Bytes) (d : UInt8) (value : Bool)
    (index valueId : Nat)
    (below next : Children) :
    find (c :: rest) (.entry d value index valueId below next) =
      if c = d then
        if rest = [] then if value then some valueId else none
        else find rest below
      else find (c :: rest) next := by
  rw [find, Children.get]
  by_cases same : c = d
  · rw [if_pos same, if_pos same]
  · rw [if_neg same, if_neg same]
    rfl

theorem get_put_self (c : UInt8) (node : TrieNode) (children : Children) :
    ∃ valueId, (children.put c node).get c = some (node, valueId) := by
  induction children with
  | none => exact ⟨0, if_pos rfl⟩
  | entry d value index valueId below next _ ih =>
      rw [Children.put]
      split_ifs with before same
      · exact ⟨0, if_pos rfl⟩
      · exact ⟨valueId, if_pos same⟩
      · rw [Children.get, if_neg same]
        exact ih

theorem get_put_of_ne {c d : UInt8} (apart : d ≠ c) (node : TrieNode)
    (children : Children) :
    (children.put c node).get d = children.get d := by
  induction children with
  | none => exact if_neg apart
  | entry e value index valueId below next _ ih =>
      rw [Children.put]
      split_ifs with before same
      · rw [Children.get, if_neg apart]
      · have other : ¬d = e := fun equal => apart (equal.trans same.symm)
        rw [Children.get, Children.get, if_neg other, if_neg other]
      · rw [Children.get, Children.get, ih]

/-- The node a character leads to, or a new one. -/
def child (c : UInt8) (children : Children) : TrieNode :=
  ((children.get c).map Prod.fst).getD ymoTrieNodeCreate

theorem child_put_self (c : UInt8) (node : TrieNode) (children : Children) :
    child c (children.put c node) = node := by
  rcases get_put_self c node children with ⟨valueId, got⟩
  rw [child, got]
  rfl

theorem child_put_of_ne {c d : UInt8} (apart : d ≠ c) (node : TrieNode)
    (children : Children) :
    child d (children.put c node) = child d children := by
  rw [child, child, get_put_of_ne apart]

theorem find_isSome_cons (c : UInt8) (rest : Bytes) (children : Children) :
    (find (c :: rest) children).isSome =
      if rest = [] then (child c children).value
      else (find rest (child c children).children).isSome := by
  rw [find, child]
  rcases children.get c with _ | ⟨node, valueId⟩
  · split_ifs
    · rfl
    · exact (congrArg Option.isSome (find_none rest)).symm
  · rw [Option.map_some, Option.getD_some]
    dsimp only
    split_ifs with last value
    · exact value.symm
    · exact (eq_false_of_ne_true value).symm
    · rfl

theorem children_addChars_cons (c : UInt8) (rest : Bytes) (node : TrieNode) :
    (addChars (c :: rest) node).1.children =
      node.children.put (ymoTolower c)
        (addChars rest (child (ymoTolower c) node.children)).1 := by
  rw [addChars, child]
  dsimp only
  rcases node.children.get (ymoTolower c) with _ | ⟨found, valueId⟩
  · rfl
  · rfl

theorem value_addChars (chars : Bytes) (node : TrieNode) :
    (addChars chars node).1.value =
      if chars = [] then true else node.value := by
  cases chars with
  | nil => rfl
  | cons c rest =>
      rw [addChars, if_neg (List.cons_ne_nil c rest)]
      dsimp only
      rcases node.children.get (ymoTolower c) with _ | ⟨found, valueId⟩
      · rfl
      · rfl

/-- A string that is added is stored, and the others stay. -/
theorem find_addChars (chars : Bytes) (node : TrieNode) (key : Bytes) :
    (find key (addChars chars node).1.children).isSome ↔
      (find key node.children).isSome ∨
        chars ≠ [] ∧ key = chars.map ymoTolower := by
  induction chars generalizing node key with
  | nil =>
      rw [addChars]
      simp
  | cons first rest ih =>
      rw [children_addChars_cons]
      cases key with
      | nil => simp
      | cons c keyRest =>
          rw [find_isSome_cons, find_isSome_cons]
          by_cases same : c = ymoTolower first
          · subst same
            rw [child_put_self]
            have image :
                ymoTolower first :: keyRest =
                    (first :: rest).map ymoTolower ↔
                  keyRest = rest.map ymoTolower := by
              rw [List.map_cons, List.cons.injEq]
              exact ⟨fun both => both.2, fun equal => ⟨rfl, equal⟩⟩
            rw [image]
            by_cases last : keyRest = []
            · rw [if_pos last, if_pos last, value_addChars, last]
              by_cases ends : rest = []
              · rw [if_pos ends, ends]
                simp
              · rw [if_neg ends]
                constructor
                · exact Or.inl
                · rintro (before | ⟨_, equal⟩)
                  · exact before
                  · exact absurd (List.map_eq_nil_iff.mp equal.symm) ends
            · rw [if_neg last, if_neg last, ih]
              constructor
              · rintro (before | ⟨_, equal⟩)
                · exact Or.inl before
                · exact Or.inr ⟨List.cons_ne_nil first rest, equal⟩
              · rintro (before | ⟨_, equal⟩)
                · exact Or.inl before
                · refine Or.inr ⟨?_, equal⟩
                  rintro rfl
                  exact last equal
          · rw [child_put_of_ne same]
            constructor
            · exact Or.inl
            · rintro (before | ⟨_, equal⟩)
              · exact before
              · rw [List.map_cons, List.cons.injEq] at equal
                exact absurd equal.1 same

/-! ## Order and number of the nodes -/

/-- How many nodes there are. -/
def size : Children → Nat
  | .none => 0
  | .entry _ _ _ _ below next => 1 + size below + size next

/-- The entries are in order, from a character on, and none of them is `NUL`. -/
def Sorted : Nat → Children → Prop
  | _, .none => True
  | low, .entry c _ _ _ below next =>
      low ≤ c.toNat ∧ Sorted 1 below ∧ Sorted (c.toNat + 1) next

theorem Sorted.get_eq_none {low : Nat} (sorted : Sorted low children)
    {c : UInt8}
    (less : c.toNat < low) :
    children.get c = none := by
  induction children generalizing low with
  | none => rfl
  | entry d value index valueId below next _ ih =>
      have apart : ¬c = d := by
        rintro rfl
        exact absurd sorted.1 (Nat.not_le.mpr less)
      rw [Children.get, if_neg apart]
      refine ih sorted.2.2 ?_
      exact Nat.lt_succ_of_le (Nat.le_trans (Nat.le_of_lt less) sorted.1)

theorem Sorted.child {low : Nat} (sorted : Sorted low children) (c : UInt8) :
    Sorted 1 (child c children).children := by
  induction children generalizing low with
  | none => trivial
  | entry d value index valueId below next _ ih =>
      rw [TrieFlattening.child, Children.get]
      split_ifs
      · exact sorted.2.1
      · exact ih sorted.2.2

theorem Sorted.put {low : Nat} (sorted : Sorted low children) {c : UInt8}
    (le : low ≤ c.toNat)
    (below : Sorted 1 node.children) :
    Sorted low (children.put c node) := by
  induction children generalizing low with
  | none => exact ⟨le, below, trivial⟩
  | entry d value index valueId under next _ ih =>
      rw [Children.put]
      split_ifs with before same
      · refine ⟨le, below, ?_, sorted.2⟩
        exact UInt8.lt_iff_toNat_lt.mp before
      · exact ⟨sorted.1, below, sorted.2.2⟩
      · refine ⟨sorted.1, sorted.2.1, ?_⟩
        refine ih sorted.2.2 ?_
        have notLess : ¬c.toNat < d.toNat :=
          fun less => before (UInt8.lt_iff_toNat_lt.mpr less)
        have apart : c.toNat ≠ d.toNat :=
          fun equal => same (UInt8.toNat_inj.mp equal)
        omega

/-- The nodes that `put` replaces, and those it brings. -/
theorem size_put {low : Nat} (sorted : Sorted low children) (c : UInt8)
    (node : TrieNode) :
    size (children.put c node) + size (child c children).children +
        (if (children.get c).isSome then 1 else 0) =
      size children + size node.children + 1 := by
  induction children generalizing low with
  | none =>
      simp [Children.put, child, Children.get, ymoTrieNodeCreate, size]
      omega
  | entry d value index valueId below next _ ih =>
      rw [Children.put, child, Children.get]
      by_cases before : c < d
      · have apart : ¬c = d := by
          rintro rfl
          exact absurd before (UInt8.lt_irrefl c)
        have absent : next.get c = none := by
          refine sorted.2.2.get_eq_none ?_
          exact Nat.lt_succ_of_lt (UInt8.lt_iff_toNat_lt.mp before)
        rw [if_pos before, if_neg apart, absent]
        simp [size, ymoTrieNodeCreate]
        omega
      · rw [if_neg before]
        by_cases same : c = d
        · rw [if_pos same, if_pos same]
          simp [size]
          omega
        · have later := ih sorted.2.2
          rw [child] at later
          rw [if_neg same, if_neg same, size, size]
          omega

theorem sorted_addChars {chars : Bytes} (nonzero : 0 ∉ chars)
    (sorted : Sorted 1 node.children) :
    Sorted 1 (addChars chars node).1.children := by
  induction chars generalizing node with
  | nil => exact sorted
  | cons c rest ih =>
      rw [children_addChars_cons]
      have here : c ≠ 0 := fun zero => nonzero (zero ▸ List.mem_cons_self ..)
      have later : 0 ∉ rest := fun member =>
        nonzero (List.mem_cons_of_mem c member)
      refine sorted.put ?_ (ih later (sorted.child _))
      have positive : ymoTolower c ≠ 0 :=
        fun zero => here (ymoTolower_eq_zero.mp zero)
      refine Nat.pos_of_ne_zero fun zero => positive ?_
      exact UInt8.toNat_inj.mp zero

/-- The nodes that are created are counted. -/
theorem size_addChars {chars : Bytes} (sorted : Sorted 1 node.children) :
    size (addChars chars node).1.children =
      size node.children + (addChars chars node).2 := by
  induction chars generalizing node with
  | nil => rfl
  | cons c rest ih =>
      have put :=
        size_put sorted (ymoTolower c)
          (addChars rest (child (ymoTolower c) node.children)).1
      have grown := ih (sorted.child (ymoTolower c))
      have created :
          (addChars (c :: rest) node).2 =
            (addChars rest (child (ymoTolower c) node.children)).2 +
              if (node.children.get (ymoTolower c)).isSome then 0
              else 1 := by
        rw [addChars, child]
        dsimp only
        rcases node.children.get (ymoTolower c) with _ | ⟨found, valueId⟩
        · rfl
        · rfl
      rw [children_addChars_cons, created]
      split_ifs at put ⊢
      · omega
      · omega

/-! ## Tries of strings -/

/-- The trie to which the strings were added. -/
def trieOf (strings : List CString) : YmoTrie :=
  strings.foldl ymoTrieAddString ymoTrieCreate

/-- The trie stores the strings. -/
structure Stores (trie : YmoTrie) (strings : List CString) : Prop where
  sorted : Sorted 1 trie.root.children
  counted : trie.noNodes = size trie.root.children
  stored :
    ∀ key,
      (find key trie.root.children).isSome ↔
        ∃ string ∈ strings, string.chars ≠ [] ∧ key = string.lower

theorem stores_ymoTrieAddString {trie : YmoTrie} {strings : List CString}
    (stores : Stores trie strings)
    (string : CString) :
    Stores (ymoTrieAddString trie string) (strings ++ [string]) := by
  refine ⟨sorted_addChars string.terminated stores.sorted, ?_, ?_⟩
  · have grown : size (addChars string.chars trie.root).1.children = _ :=
      size_addChars stores.sorted
    rw [← stores.counted] at grown
    exact grown.symm
  · intro key
    refine (find_addChars string.chars trie.root key).trans ?_
    rw [stores.stored]
    constructor
    · rintro (⟨before, member, same⟩ | ⟨nonempty, same⟩)
      · exact ⟨before, List.mem_append_left _ member, same⟩
      · exact
          ⟨string, List.mem_append_right _ (List.mem_singleton.mpr rfl),
            nonempty, same⟩
    · rintro ⟨before, member, nonempty, same⟩
      rcases List.mem_append.mp member with earlier | last
      · exact Or.inl ⟨before, earlier, nonempty, same⟩
      · rw [List.mem_singleton.mp last] at nonempty same
        exact Or.inr ⟨nonempty, same⟩

theorem stores_foldl {trie : YmoTrie} {before : List CString}
    (stores : Stores trie before)
    (strings : List CString) :
    Stores (strings.foldl ymoTrieAddString trie) (before ++ strings) := by
  induction strings generalizing trie before with
  | nil =>
      rw [List.append_nil]
      exact stores
  | cons string rest ih =>
      have later := ih (stores_ymoTrieAddString stores string)
      rw [List.append_assoc] at later
      exact later

theorem stores_trieOf (strings : List CString) :
    Stores (trieOf strings) strings := by
  have start : Stores ymoTrieCreate [] := by
    refine ⟨trivial, rfl, ?_⟩
    intro key
    constructor
    · intro stored
      have nothing := find_none key
      rw [show ymoTrieCreate.root.children = .none from rfl, nothing] at stored
      cases stored
    · rintro ⟨_, member, _⟩
      cases member
  exact stores_foldl start strings

/-! ## Annotation -/

/-- The indices are those of the preorder, from a number on. -/
def Numbered : Nat → Children → Prop
  | _, .none => True
  | first, .entry _ _ index _ below next =>
      index = first ∧ Numbered (first + 1) below ∧
        Numbered (first + 1 + size below) next

/-- What annotating leaves as it is, and what it numbers. -/
structure Annotates
    (before : Children)
    (first : Nat)
    (after : Children × Nat × Nat) :
    Prop where
  sized : size after.1 = size before
  numbered : Numbered first after.1
  last : after.2.1 = first + size before
  sorted : ∀ low, Sorted low before → Sorted low after.1
  finds : ∀ key, (find key after.1).isSome = (find key before).isSome

theorem annotates_trieNodeAnnotate (children : Children)
    (nodeId valueId : Nat) :
    Annotates children nodeId (trieNodeAnnotate children nodeId valueId) := by
  induction children generalizing nodeId valueId with
  | none => exact ⟨rfl, trivial, rfl, fun _ sorted => sorted, fun _ => rfl⟩
  | entry c value index oldId below next belowHypothesis
      nextHypothesis =>
      have under :=
        belowHypothesis (nodeId + 1) (if value then valueId + 1 else valueId)
      rw [trieNodeAnnotate]
      dsimp only
      generalize
        trieNodeAnnotate below (nodeId + 1)
          (if value then valueId + 1 else valueId) = lower at under
      rcases lower with ⟨below', nodeId', valueId'⟩
      have later := nextHypothesis nodeId' valueId'
      dsimp only
      generalize trieNodeAnnotate next nodeId' valueId' = right at later
      rcases right with ⟨next', nodeId'', valueId''⟩
      have start : nodeId' = nodeId + 1 + size below := under.last
      refine ⟨?_, ⟨rfl, under.numbered, ?_⟩, ?_, ?_, ?_⟩
      · rw [size, size, under.sized, later.sized]
      · rw [under.sized, ← start]
        exact later.numbered
      · have ends : nodeId'' = nodeId' + size next := later.last
        show nodeId'' = nodeId + size _
        rw [ends, start, size]
        omega
      · intro low sorted
        exact ⟨sorted.1, under.sorted 1 sorted.2.1, later.sorted _ sorted.2.2⟩
      · intro key
        cases key with
        | nil => rfl
        | cons k rest =>
            rw [find_entry, find_entry]
            split_ifs
            · rfl
            · rfl
            · exact under.finds rest
            · exact later.finds (k :: rest)

/-! ## The array -/

/-- The nodes lie in the array, the children of a node from the index after it on. -/
def Laid (flat : Flat) : Nat → Children → Prop
  | _, .none => True
  | first, .entry c value _ valueId below next =>
      (∃ offset,
          flat first =
              storeNode c value valueId below
                { OitrieNode.zero with offset := offset } ∧
            offset.toNat = if next = .none then 0 else 1 + size below) ∧
        Laid flat (first + 1) below ∧
          Laid flat (first + 1 + size below) next

theorem Laid.congr {flat flat' : Flat} {first : Nat}
    (laid : Laid flat first children)
    (same :
      ∀ index,
        first ≤ index →
          index < first + size children → flat' index = flat index) :
    Laid flat' first children := by
  induction children generalizing first with
  | none => trivial
  | entry c value index valueId below next belowHypothesis
      nextHypothesis =>
      rw [size] at same
      refine ⟨?_, ?_, ?_⟩
      · rw [same first (Nat.le_refl _) (by omega)]
        exact laid.1
      · exact
          belowHypothesis laid.2.1 fun index above within =>
            same index (by omega) (by omega)
      · exact
          nextHypothesis laid.2.2 fun index above within =>
            same index (by omega) (by omega)

theorem Flat.modify_self (flat : Flat) (index : Nat)
    (change : OitrieNode → OitrieNode) :
    Flat.modify flat index change index = change (flat index) :=
  if_pos rfl

theorem Flat.modify_of_ne (flat : Flat) {index other : Nat}
    (change : OitrieNode → OitrieNode)
    (apart : other ≠ index) :
    Flat.modify flat index change other = flat other :=
  if_neg apart

/-- The nodes are stored where they lie, and nowhere else. -/
structure Flattened
    (before : Flat)
    (first : Nat)
    (children : Children)
    (after : Flat) :
    Prop where
  laid : Laid after first children
  outside :
    ∀ index,
      index < first ∨ first + size children ≤ index →
        after index = before index

theorem firstIndex_numbered {first : Nat}
    (numbered : Numbered first children) :
    children.firstIndex = if children = .none then none else some first := by
  cases children with
  | none => rfl
  | entry c value index valueId below next =>
      rw [if_neg Children.noConfusion, Children.firstIndex, numbered.1]

theorem storeNode_offset (c : UInt8) (value : Bool) (valueId : Nat)
    (below : Children)
    (node : OitrieNode)
    (offset : UInt8) :
    { storeNode c value valueId below node with offset := offset } =
      storeNode c value valueId below { node with offset := offset } := by
  simp only [storeNode]
  split_ifs <;> rfl

/-- Where `oitrie_node_create` returns `YMO_OKAY`, the nodes lie in the array. -/
theorem flattened_oitrieNodeCreate {first : Nat}
    (numbered : Numbered first children)
    {before after : Flat}
    (clear :
      ∀ index,
        first ≤ index → index < first + size children → before index = .zero)
    (created : oitrieNodeCreate children before = some (.okay, after)) :
    Flattened before first children after := by
  induction children generalizing first before after with
  | none =>
      cases created
      exact ⟨trivial, fun _ _ => rfl⟩
  | entry c value index valueId below next belowHypothesis
      nextHypothesis =>
      rcases numbered with ⟨rfl, numberedBelow, numberedNext⟩
      rw [size] at clear
      have own : before index = .zero := clear index (Nat.le_refl _) (by omega)
      have stored :
          ∀ other,
            other ≠ index →
              Flat.modify before index
                  (storeNode c value valueId below) other =
                before other :=
        fun other apart => Flat.modify_of_ne before _ apart
      have here :
          Flat.modify before index (storeNode c value valueId below)
              index =
            storeNode c value valueId below .zero := by
        rw [Flat.modify_self, own]
      rw [oitrieNodeCreate, firstIndex_numbered numberedNext] at created
      generalize
        Flat.modify before index (storeNode c value valueId below) = flat
          at created stored here
      by_cases last : next = .none
      · subst last
        rw [if_pos rfl] at created
        dsimp only at created
        rcases under : oitrieNodeCreate below flat with _ | ⟨_ | errno, flat'⟩
        · rw [under] at created
          cases created
        · rw [under] at created
          dsimp only at created
          split_ifs at created
          cases created
          have flattened :=
            belowHypothesis numberedBelow
              (fun other above within => by
                rw [stored other (by omega)]
                exact clear other (by omega) (by omega))
              under
          refine ⟨⟨⟨0, ?_, ?_⟩, flattened.laid, trivial⟩, ?_⟩
          · rw [flattened.outside index (Or.inl (Nat.lt_succ_self _)), here]
            rfl
          · rw [if_pos rfl]
            rfl
          · intro other apart
            rw [size, size] at apart
            rw [flattened.outside other (by omega), stored other (by omega)]
        · rw [under] at created
          cases created
      · rw [if_neg last] at created
        dsimp only at created
        have distance : index + 1 + size below - index = 1 + size below := by
          omega
        rw [distance] at created
        by_cases far : 1 + size below > ymoOitrieMaxOffset
        · rw [if_pos far] at created
          cases created
        rw [if_neg far] at created
        have near : 1 + size below < 256 := by
          rw [ymoOitrieMaxOffset] at far
          omega
        have stored' :
            ∀ other,
              other ≠ index →
                Flat.modify flat index
                    (fun node =>
                      { node with offset := UInt8.ofNat (1 + size below) })
                    other =
                  before other := by
          intro other apart
          rw [Flat.modify_of_ne flat _ apart]
          exact stored other apart
        have here' :
            Flat.modify flat index
                (fun node =>
                  { node with offset := UInt8.ofNat (1 + size below) })
                index =
              storeNode c value valueId below
                { OitrieNode.zero with
                  offset := UInt8.ofNat (1 + size below) } := by
          rw [Flat.modify_self, here]
          exact storeNode_offset c value valueId below .zero _
        generalize
          Flat.modify flat index
              (fun node =>
                { node with offset := UInt8.ofNat (1 + size below) }) =
            flat' at created stored' here'
        rcases under : oitrieNodeCreate below flat'
          with _ | ⟨_ | errno, flat''⟩
        · rw [under] at created
          cases created
        · rw [under] at created
          dsimp only at created
          have flattened :=
            belowHypothesis numberedBelow
              (fun other above within => by
                rw [stored' other (by omega)]
                exact clear other (by omega) (by omega))
              under
          have later :=
            nextHypothesis numberedNext
              (fun other above within => by
                rw [flattened.outside other (by omega),
                  stored' other (by omega)]
                exact clear other (by omega) (by omega))
              created
          refine ⟨⟨⟨UInt8.ofNat (1 + size below), ?_, ?_⟩, ?_, later.laid⟩, ?_⟩
          · rw [later.outside index (by omega),
              flattened.outside index (by omega), here']
          · rw [if_neg last, UInt8.toNat_ofNat', Nat.mod_eq_of_lt near]
          · exact
              flattened.laid.congr fun other above within =>
                later.outside other (by omega)
          · intro other apart
            rw [size] at apart
            rw [later.outside other (by omega),
              flattened.outside other (by omega),
              stored' other (by omega)]
        · rw [under] at created
          cases created

/-! ## Lookups -/

/-- What is read of a node, by what was stored in it. -/
structure Reads
    (c : UInt8)
    (value : Bool)
    (valueId : Nat)
    (below : Children)
    (offset : UInt8)
    (node : OitrieNode) :
    Prop where
  character : node.value = c
  distance : node.offset = offset
  terminal : node.flags &&& oitrieIsTerminal ≠ 0 ↔ value = true
  hasChild : node.flags &&& oitrieHasChild ≠ 0 ↔ below ≠ .none
  hdrId : value = true → node.hdrId = UInt8.ofNat valueId

theorem flags_storeNode (c : UInt8) (value : Bool) (valueId : Nat)
    (below : Children)
    (offset : UInt8) :
    (storeNode c value valueId below
        { OitrieNode.zero with offset := offset }).flags =
      (if below = .none then 0 else oitrieHasChild) |||
        (if value = true then oitrieIsTerminal else 0) := by
  simp only [storeNode]
  split_ifs <;> rfl

theorem reads_storeNode (c : UInt8) (value : Bool) (valueId : Nat)
    (below : Children)
    (offset : UInt8) :
    Reads c value valueId below offset
      (storeNode c value valueId below
        { OitrieNode.zero with offset := offset }) where
  character := by
    simp only [storeNode]
    split_ifs <;> rfl
  distance := by
    simp only [storeNode]
    split_ifs <;> rfl
  terminal := by
    rw [flags_storeNode]
    cases value with
    | false =>
        rw [if_neg Bool.false_ne_true]
        split_ifs
        all_goals decide
    | true =>
        rw [if_pos rfl]
        split_ifs
        all_goals decide
  hasChild := by
    rw [flags_storeNode]
    by_cases leaf : below = .none
    · rw [if_pos leaf]
      refine ⟨fun some => absurd ?_ some, fun some => absurd leaf some⟩
      split_ifs
      all_goals decide
    · rw [if_neg leaf]
      refine ⟨fun _ => leaf, fun _ => ?_⟩
      split_ifs
      all_goals decide
  hdrId := by
    intro terminal
    simp only [storeNode, if_pos terminal]

/-- How a lookup ends, by the `value_id` that is found in the trie. -/
def answer : Option Nat → Lookup
  | some valueId => .found (UInt8.ofNat valueId)
  | none => .missing

theorem nextChar_eq_zero {strIn : Bytes} (terminated : 0 ∉ strIn) :
    (nextChar strIn).1 = 0 ↔ strIn = [] := by
  cases strIn with
  | nil => exact ⟨fun _ => rfl, fun _ => ymoTolower_eq_zero.mpr rfl⟩
  | cons c rest =>
      constructor
      · intro zero
        have nul : c = 0 := ymoTolower_eq_zero.mp zero
        rw [nul] at terminated
        exact absurd (List.mem_cons_self ..) terminated
      · intro none
        cases none

/-- A lookup in the array is a lookup in the trie, and stays in the array. -/
theorem getIdLoop_laid (oitrie : YmoOitrie) {low first : Nat}
    (laid : Laid oitrie.root first children)
    (within : first + size children ≤ oitrie.noNodes)
    (sorted : Sorted low children)
    (positive : 0 < low)
    (nonempty : children ≠ .none)
    {strIn : Bytes}
    (terminated : 0 ∉ strIn)
    {turns : Nat}
    (enough : size children ≤ turns) :
    getIdLoop oitrie turns first (nextChar strIn) =
      answer (find (strIn.map ymoTolower) children) := by
  induction children generalizing low first strIn turns with
  | none => exact absurd rfl nonempty
  | entry c value index valueId below next belowHypothesis
      nextHypothesis =>
      rw [size] at within enough
      rcases laid with ⟨⟨offset, stored, distance⟩, laidBelow, laidNext⟩
      rcases sorted with ⟨le, sortedBelow, sortedNext⟩
      have reads := reads_storeNode c value valueId below offset
      rw [← stored] at reads
      have inside : ¬first ≥ oitrie.noNodes := by omega
      obtain ⟨turns, rfl⟩ : ∃ fewer, turns = fewer + 1 := ⟨turns - 1, by omega⟩
      -- A character that does not match leads to the next sibling.
      have sibling :
          (if offset ≠ 0 then
              getIdLoop oitrie turns (first + offset.toNat) (nextChar strIn)
            else .missing) =
            answer (find (strIn.map ymoTolower) next) := by
        by_cases last : next = .none
        · rw [if_pos last] at distance
          have zero : ¬offset ≠ 0 := not_not.mpr (UInt8.toNat_inj.mp distance)
          rw [if_neg zero, last, find_none]
          rfl
        · rw [if_neg last] at distance
          have nonzero : offset ≠ 0 := by
            rintro rfl
            rw [UInt8.toNat_zero] at distance
            omega
          rw [if_pos nonzero, distance, ← Nat.add_assoc]
          exact
            nextHypothesis laidNext (by omega) sortedNext
              (Nat.succ_pos _) last terminated (by omega)
      cases strIn with
      | nil =>
          have apart : ¬ymoTolower 0 = c := by
            intro zero
            rw [← zero, ymoTolower_eq_zero.mpr rfl, UInt8.toNat_zero] at le
            omega
          rw [nextChar, getIdLoop, if_neg inside]
          dsimp only
          rw [reads.character, if_neg apart, reads.distance]
          exact sibling
      | cons d rest =>
          have terminated' : 0 ∉ rest :=
            fun member => terminated (List.mem_cons_of_mem d member)
          have ends := nextChar_eq_zero terminated'
          rw [nextChar, getIdLoop, if_neg inside]
          dsimp only
          rw [reads.character, List.map_cons, find_entry]
          by_cases same : ymoTolower d = c
          · rw [if_pos same, if_pos same]
            have descends :
                (if (oitrie.root first).flags &&& oitrieHasChild ≠ 0 then
                    getIdLoop oitrie turns (first + 1) (nextChar rest)
                  else .missing) =
                  answer (find (rest.map ymoTolower) below) := by
              by_cases leaf : below = .none
              · have none :
                    ¬(oitrie.root first).flags &&& oitrieHasChild ≠ 0 :=
                  fun some => reads.hasChild.mp some leaf
                rw [if_neg none, leaf, find_none]
                rfl
              · rw [if_pos (reads.hasChild.mpr leaf)]
                exact
                  belowHypothesis laidBelow (by omega) sortedBelow
                    Nat.one_pos leaf terminated' (by omega)
            by_cases done : rest = []
            · have empty : rest.map ymoTolower = [] := by
                rw [done, List.map_nil]
              rw [if_pos empty]
              by_cases ended : value = true
              · rw [if_pos ⟨ends.mpr done, reads.terminal.mpr ended⟩,
                  if_pos ended, reads.hdrId ended]
                rfl
              · rw [if_neg fun both => ended (reads.terminal.mp both.2),
                  if_neg ended]
                refine descends.trans ?_
                rw [empty, find_nil]
            · have more : ¬rest.map ymoTolower = [] :=
                fun empty => done (List.map_eq_nil_iff.mp empty)
              rw [if_neg more, if_neg fun both => done (ends.mp both.1)]
              exact descends
          · rw [if_neg same, if_neg same, reads.distance]
            exact sibling

/--
Every query is found if it is equal to a string that was added, but for what
`ymo_tolower` changes; it is found with the `value_id` of its node; and the lookup
stays in the array.
-/
structure Faithful
    (strings : List CString)
    (oitrie : YmoOitrie) :
    Prop where
  found :
    ∀ query,
      (∃ hdrId, ymoOitrieGetId oitrie query = .found hdrId) ↔
        ∃ string ∈ strings, query.lower = string.lower
  hdrId :
    ∀ query hdrId,
      ymoOitrieGetId oitrie query = .found hdrId →
        ∃ valueId,
          find query.lower (annotated (trieOf strings)) =
              some valueId ∧
            hdrId = UInt8.ofNat valueId
  inside : ∀ query, ymoOitrieGetId oitrie query ≠ .outside

/-- A lookup on a trie that has a node is a lookup in the annotated trie. -/
theorem ymoOitrieGetId_of_created {strings : List CString} {oitrie : YmoOitrie}
    (created : ymoOitrieCreate (trieOf strings) = some (.okay, oitrie))
    (nonempty : annotated (trieOf strings) ≠ .none)
    (query : CString) :
    ymoOitrieGetId oitrie query =
      answer (find query.lower (annotated (trieOf strings))) := by
  have stores := stores_trieOf strings
  have annotates : Annotates (trieOf strings).root.children 0 _ :=
    annotates_trieNodeAnnotate (trieOf strings).root.children 0 0
  rcases Option.map_eq_some_iff.mp created
    with ⟨⟨status, flat⟩, flattened, same⟩
  cases same
  have laid :=
    flattened_oitrieNodeCreate annotates.numbered (fun _ _ _ => rfl) flattened
  have whole : size (annotated (trieOf strings)) = (trieOf strings).noNodes :=
    annotates.sized.trans stores.counted.symm
  refine
    getIdLoop_laid _ laid.laid ?_ (annotates.sorted 1 stores.sorted)
      Nat.one_pos nonempty query.terminated ?_
  · exact Nat.le_of_eq ((Nat.zero_add _).trans whole)
  · exact Nat.le_of_eq whole

/-- Flattening keeps the meaning of a trie to which a string was added. -/
theorem faithful_iff {strings : List CString}
    (nonempty : ∀ string ∈ strings, string.chars ≠ [])
    {oitrie : YmoOitrie}
    (created : ymoOitrieCreate (trieOf strings) = some (.okay, oitrie)) :
    Faithful strings oitrie ↔ strings ≠ [] := by
  constructor
  · rintro faithful rfl
    cases created
    exact faithful.inside ⟨[], List.not_mem_nil⟩ rfl
  · intro some
    have stores := stores_trieOf strings
    have annotates : Annotates (trieOf strings).root.children 0 _ :=
      annotates_trieNodeAnnotate (trieOf strings).root.children 0 0
    have stored :
        ∀ key,
          (find key (annotated (trieOf strings))).isSome ↔
            ∃ string ∈ strings, key = string.lower := by
      intro key
      have finds :
          (find key (annotated (trieOf strings))).isSome =
            (find key (trieOf strings).root.children).isSome :=
        annotates.finds key
      rw [finds, stores.stored]
      constructor
      · rintro ⟨string, member, _, same⟩
        exact ⟨string, member, same⟩
      · rintro ⟨string, member, same⟩
        exact ⟨string, member, nonempty string member, same⟩
    have present : annotated (trieOf strings) ≠ .none := by
      rcases List.exists_mem_of_ne_nil strings some with ⟨string, member⟩
      intro none
      have found := (stored string.lower).mpr ⟨string, member, rfl⟩
      rw [none, find_none] at found
      cases found
    have reads := ymoOitrieGetId_of_created created present
    refine ⟨?_, ?_, ?_⟩
    · intro query
      rw [reads, ← stored]
      cases find query.lower (annotated (trieOf strings)) with
      | none =>
          constructor
          · rintro ⟨_, missing⟩
            cases missing
          · intro missing
            cases missing
      | some valueId => exact ⟨fun _ => rfl, fun _ => ⟨_, rfl⟩⟩
    · intro query hdrId found
      rw [reads] at found
      cases stands : find query.lower (annotated (trieOf strings)) with
      | none =>
          rw [stands] at found
          cases found
      | some valueId =>
          rw [stands] at found
          cases found
          exact ⟨valueId, rfl, rfl⟩
    · intro query outside
      rw [reads] at outside
      cases stands : find query.lower (annotated (trieOf strings)) with
      | none =>
          rw [stands] at outside
          cases outside
      | some valueId =>
          rw [stands] at outside
          cases outside

/-- Four strings, one of them a prefix of others. -/
def someStrings : List CString :=
  [⟨[0x54, 0x45], by decide⟩, ⟨[0x74], by decide⟩,
    ⟨[0x56, 0x69, 0x61], by decide⟩, ⟨[0x74, 0x45, 0x2d], by decide⟩]

theorem faithful_iff_someStrings :
    ∃ oitrie,
      ymoOitrieCreate (trieOf someStrings) = some (.okay, oitrie) ∧
        (Faithful someStrings oitrie ↔ someStrings ≠ []) :=
  ⟨_, rfl, faithful_iff (by decide) rfl⟩

/-- The lookup on a trie without strings reads a node that is not there. -/
theorem empty_trie_left :
    ∃ oitrie,
      ymoOitrieCreate (trieOf []) = some (.okay, oitrie) ∧
        ymoOitrieGetId oitrie ⟨[0x54, 0x45], by decide⟩ = .outside :=
  ⟨_, rfl, rfl⟩

end Yimmo.Core.TrieFlattening
