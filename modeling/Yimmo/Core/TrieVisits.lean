import Mathlib.Data.List.Count
import Mathlib.Data.List.Nodup
import Yimmo.Core.TrieCapacity

/-!
# The order in which a trie is flattened

This module models `oitrie_node_create` as the loop that it is: over the 256 entries
of `children`, with an index that is set back to the entry of the right node found
by another loop.  The function is given a number of turns; where every number is
too small it does not terminate.

`ends_oitrieNodeCreate` relates it to the recursion over the entries that are not
`NULL`.  What it does to nodes is written down as events, and `visits_strings` says
that these are the nodes of the trie in preorder, each of them once, up to the first
offset that does not fit.

Where no right node is found, the index is set back to the last entry, whatever the
left node was.  So a node with the character `0xff` is visited again for ever.
-/

namespace Yimmo.Core.TrieVisits

open Yimmo.Core.StatusCode
open Yimmo.Core.Trie
open Yimmo.Core.TrieFlattening
open Yimmo.Core.TrieCapacity

variable
    {children : Children}
    {low : Nat}
    {t : Nat}
    {status : Status}
    {path : Bytes}

/-! ## The function -/

/-- `YMO_TRIE_NO_CHILDREN`. -/
def ymoTrieNoChildren : Nat := 256

/-- What `children[i]` points to. -/
structure Entry where
  value : Bool
  index : Nat
  valueId : Nat
  children : Children

/-- `children[i]`. -/
def entryAt (i : Nat) : Children → Option Entry
  | .none => none
  | .entry c value index valueId below next =>
      if i = c.toNat then some ⟨value, index, valueId, below⟩
      else entryAt i next

/-- The loop that searches for a right node, as many turns as there are entries
left: the node, and `t`. -/
def findRight (children : Children) : Nat → Nat → Option Entry × Nat
  | 0, t => (none, t)
  | turns + 1, t =>
      match entryAt t children with
      | some right => (some right, t + 1)
      | none => findRight children turns (t + 1)

/-- The store of the offset; `none` for `EOVERFLOW`. -/
def storeOffset (left : Entry) (right : Option Entry) (oitrie : Flat) :
    Option Flat :=
  match right with
  | none => some oitrie
  | some right =>
      let offset := right.index - left.index
      if offset > ymoOitrieMaxOffset then none
      else
        some
          (Flat.modify oitrie left.index fun node =>
            { node with offset := UInt8.ofNat offset })

/-- What is done to nodes; a node is named by the characters that lead to it. -/
inductive Event where
  /-- `oitrie_node_create` is called for a node. -/
  | call (path : Bytes)
  /-- In the call for a node, the child with a character is the left node. -/
  | child (path : Bytes) (c : UInt8)
deriving DecidableEq

/-- What `oitrie_node_create` returns, stores and has done. -/
structure Outcome where
  status : Status
  oitrie : Flat
  events : List Event

/-- The outcome, after other events. -/
def Outcome.after (events : List Event) (outcome : Outcome) : Outcome :=
  { outcome with events := events ++ outcome.events }

/-- The loop of `oitrie_node_create`, in the call for a node, from an index on. -/
def nodeLoop :
    Nat → Bytes → Children → Nat → Flat → Option Outcome
  | 0, _, _, _, _ => none
  | turns + 1, path, children, i, oitrie =>
      if i < ymoTrieNoChildren then
        match entryAt i children with
        | none => nodeLoop turns path children (i + 1) oitrie
        | some left =>
            let c := UInt8.ofNat i
            let oitrie :=
              Flat.modify oitrie left.index
                (storeNode c left.value left.valueId left.children)
            let right :=
              findRight children (ymoTrieNoChildren - (i + 1)) (i + 1)
            match storeOffset left right.1 oitrie with
            | none => some ⟨.err eoverflow, oitrie, [.child path c]⟩
            | some oitrie =>
                let visited := [.child path c, .call (path ++ [c])]
                match nodeLoop turns (path ++ [c]) left.children 0 oitrie
                with
                | none => none
                | some below =>
                    if below.status = .okay then
                      -- `i = --t`
                      (nodeLoop turns path children (right.2 - 1)
                        below.oitrie).map
                          (Outcome.after (visited ++ below.events))
                    else some (below.after visited)
      else some ⟨.okay, oitrie, []⟩

/-- The call for the root. -/
def nodeCreate (turns : Nat) (children : Children) (oitrie : Flat) :
    Option Outcome :=
  (nodeLoop turns [] children 0 oitrie).map (Outcome.after [.call []])

/-- How the loop ends: with an outcome, given enough turns, or never. -/
def Ends (path : Bytes) (children : Children) (i : Nat) (oitrie : Flat) :
    Option Outcome → Prop
  | some outcome =>
      ∃ enough,
        ∀ turns,
          enough ≤ turns → nodeLoop turns path children i oitrie = some outcome
  | none => ∀ turns, nodeLoop turns path children i oitrie = none

/-! ## The events in order -/

/-- The events of a whole trie, from some children of a node on. -/
def preorder (path : Bytes) : Children → List Event
  | .none => []
  | .entry c _ _ _ below next =>
      .child path c :: .call (path ++ [c]) ::
        (preorder (path ++ [c]) below ++ preorder path next)

/-- The offset from a node to the one on its right is too large. -/
def Far (index : Nat) (next : Children) : Prop :=
  ∃ right, next.firstIndex = some right ∧ right - index > ymoOitrieMaxOffset

instance decidableFar (index : Nat) (next : Children) :
    Decidable (Far index next) :=
  match same : next.firstIndex with
  | none => .isFalse fun ⟨_, first, _⟩ => by
      rw [same] at first
      cases first
  | some right =>
      if far : right - index > ymoOitrieMaxOffset then
        .isTrue ⟨right, same, far⟩
      else
        .isFalse fun ⟨_, first, large⟩ => by
          rw [same] at first
          cases first
          exact far large

/-- No offset is too large. -/
def OffsetsFit : Children → Prop
  | .none => True
  | .entry _ _ index _ below next =>
      ¬Far index next ∧ OffsetsFit below ∧ OffsetsFit next

instance decidableOffsetsFit :
    ∀ children, Decidable (OffsetsFit children)
  | .none => .isTrue trivial
  | .entry _ _ _ _ below next =>
      have := decidableOffsetsFit below
      have := decidableOffsetsFit next
      instDecidableAnd

/-- The events up to the first offset that is too large. -/
def visits (path : Bytes) : Children → List Event
  | .none => []
  | .entry c _ index _ below next =>
      .child path c ::
        if Far index next then []
        else
          .call (path ++ [c]) ::
            (visits (path ++ [c]) below ++
              if OffsetsFit below then visits path next else [])

/-! ## Entries -/

theorem entryAt_of_lt (sorted : Sorted low children) {i : Nat}
    (less : i < low) :
    entryAt i children = none := by
  induction children generalizing low with
  | none => rfl
  | entry c value index valueId below next _ ih =>
      have start := sorted.1
      rw [entryAt, if_neg (by omega)]
      exact ih sorted.2.2 (by omega)

theorem findRight_none (nothing : ∀ i, t ≤ i → entryAt i children = none)
    (turns : Nat) :
    findRight children turns t = (none, t + turns) := by
  induction turns generalizing t with
  | zero => rfl
  | succ turns ih =>
      rw [findRight, nothing t (Nat.le_refl t)]
      dsimp only
      rw [ih fun i le => nothing i (by omega)]
      exact congrArg (Prod.mk none) (by omega)

theorem findRight_some {t i turns : Nat} {right : Entry}
    (nothing : ∀ j, t ≤ j → j < i → entryAt j children = none)
    (found : entryAt i children = some right)
    (le : t ≤ i)
    (inside : i < t + turns) :
    findRight children turns t = (some right, i + 1) := by
  induction turns generalizing t with
  | zero => omega
  | succ turns ih =>
      rw [findRight]
      rcases Nat.eq_or_lt_of_le le with rfl | less
      · rw [found]
      · rw [nothing t (Nat.le_refl t) less]
        exact ih (fun j after => nothing j (by omega)) less (by omega)

/-! ## Turns of the loop -/

variable
    {left : Entry}
    {right : Option Entry}

section

variable
  {path : Bytes}
  {children : Children}
  {i : Nat}
  {oitrie : Flat}

theorem nodeLoop_end (turns : Nat) (last : ymoTrieNoChildren ≤ i) :
    nodeLoop (turns + 1) path children i oitrie =
      some ⟨.okay, oitrie, []⟩ := by
  rw [nodeLoop, if_neg (Nat.not_lt.mpr last)]

theorem nodeLoop_skip (turns : Nat) (inside : i < ymoTrieNoChildren)
    (nothing : entryAt i children = none) :
    nodeLoop (turns + 1) path children i oitrie =
      nodeLoop turns path children (i + 1) oitrie := by
  rw [nodeLoop, if_pos inside, nothing]

/-- What is stored for a left node, but for the offset. -/
def stored (i : Nat) (left : Entry) (oitrie : Flat) : Flat :=
  Flat.modify oitrie left.index
    (storeNode (UInt8.ofNat i) left.value left.valueId left.children)

/-- A turn that finds a left node, and a right one or none. -/
theorem nodeLoop_left
    (turns : Nat)
    (inside : i < ymoTrieNoChildren)
    (found : entryAt i children = some left)
    (search :
      findRight children (ymoTrieNoChildren - (i + 1)) (i + 1) = (right, t)) :
    nodeLoop (turns + 1) path children i oitrie =
      match storeOffset left right (stored i left oitrie) with
      | none =>
          some
            ⟨.err eoverflow, stored i left oitrie,
              [.child path (UInt8.ofNat i)]⟩
      | some oitrie =>
          match nodeLoop turns (path ++ [UInt8.ofNat i]) left.children 0 oitrie
          with
          | none => none
          | some below =>
              if below.status = .okay then
                (nodeLoop turns path children (t - 1) below.oitrie).map
                  (Outcome.after
                    ([.child path (UInt8.ofNat i),
                        .call (path ++ [UInt8.ofNat i])] ++
                      below.events))
              else
                some
                  (below.after
                    [.child path (UInt8.ofNat i),
                      .call (path ++ [UInt8.ofNat i])]) := by
  rw [nodeLoop, if_pos inside, found]
  dsimp only
  rw [search]
  rfl

/-- More turns change nothing. -/
theorem nodeLoop_mono {turns more : Nat} {outcome : Outcome}
    (ended : nodeLoop turns path children i oitrie = some outcome)
    (le : turns ≤ more) :
    nodeLoop more path children i oitrie = some outcome := by
  induction turns generalizing more path children i oitrie outcome with
  | zero => cases ended
  | succ turns ih =>
      cases more with
      | zero => omega
      | succ more =>
          have le := Nat.le_of_succ_le_succ le
          by_cases inside : i < ymoTrieNoChildren
          · cases found : entryAt i children with
            | none =>
                rw [nodeLoop_skip turns inside found] at ended
                rw [nodeLoop_skip more inside found]
                exact ih ended le
            | some left =>
                rw [nodeLoop_left turns inside found rfl] at ended
                rw [nodeLoop_left more inside found rfl]
                revert ended
                cases storeOffset left _ (stored i left oitrie) with
                | none => exact id
                | some oitrie =>
                    dsimp only
                    intro ended
                    cases under :
                        nodeLoop turns (path ++ [UInt8.ofNat i])
                          left.children 0 oitrie with
                    | none =>
                        rw [under] at ended
                        cases ended
                    | some below =>
                        rw [under] at ended
                        rw [ih under le]
                        dsimp only at ended ⊢
                        split_ifs at ended ⊢
                        · rcases Option.map_eq_some_iff.mp ended
                            with ⟨later, next, same⟩
                          rw [ih next le]
                          exact congrArg some same
                        · exact ended
          · have last := Nat.not_lt.mp inside
            rw [nodeLoop_end turns last] at ended
            rw [nodeLoop_end more last]
            exact ended

theorem Ends.unique {outcome other : Outcome}
    (ends : Ends path children i oitrie (some outcome))
    {turns : Nat}
    (ended : nodeLoop turns path children i oitrie = some other) :
    other = outcome := by
  rcases ends with ⟨enough, returns⟩
  have more := nodeLoop_mono ended (Nat.le_max_left turns enough)
  rw [returns _ (Nat.le_max_right turns enough)] at more
  exact (Option.some.inj more).symm

/-! ## How the loop ends -/

/-- It ends with an outcome that it has after one turn and enough others. -/
theorem ends_of_turn {outcome : Outcome}
    (enough : Nat)
    (turn :
      ∀ turns, enough ≤ turns →
        nodeLoop (turns + 1) path children i oitrie = some outcome) :
    Ends path children i oitrie (some outcome) := by
  refine ⟨enough + 1, ?_⟩
  intro turns le
  cases turns with
  | zero => omega
  | succ turns => exact turn turns (Nat.le_of_succ_le_succ le)

/-- It never ends, if it does not after one turn and any number of others. -/
theorem never_of_turn
    (turn : ∀ turns, nodeLoop (turns + 1) path children i oitrie = none) :
    Ends path children i oitrie none := by
  intro turns
  cases turns with
  | zero => rfl
  | succ turns => exact turn turns

theorem Ends.skip (inside : i < ymoTrieNoChildren)
    (nothing : entryAt i children = none)
    {result : Option Outcome}
    (later : Ends path children (i + 1) oitrie result) :
    Ends path children i oitrie result := by
  cases result with
  | some outcome =>
      rcases later with ⟨enough, returns⟩
      refine ends_of_turn enough ?_
      intro turns le
      rw [nodeLoop_skip turns inside nothing]
      exact returns turns le
  | none =>
      refine never_of_turn ?_
      intro turns
      rw [nodeLoop_skip turns inside nothing]
      exact later turns

/-- Over entries that are `NULL`. -/
theorem Ends.skip_to {j : Nat} (le : i ≤ j) (inside : j ≤ ymoTrieNoChildren)
    (nothing : ∀ k, i ≤ k → k < j → entryAt k children = none)
    {result : Option Outcome}
    (later : Ends path children j oitrie result) :
    Ends path children i oitrie result := by
  rcases Nat.exists_eq_add_of_le le with ⟨count, rfl⟩
  induction count generalizing i with
  | zero => exact later
  | succ count ih =>
      have first := nothing i (Nat.le_refl i) (by omega)
      refine Ends.skip (by omega) first (ih ?_ ?_ ?_ ?_)
      · omega
      · omega
      · intro k after before
        exact nothing k (by omega) (by omega)
      · rw [Nat.add_assoc, Nat.add_comm 1 count]
        exact later

/-- There are no more nodes. -/
theorem ends_nothing (nothing : ∀ k, i ≤ k → entryAt k children = none) :
    Ends path children i oitrie (some ⟨.okay, oitrie, []⟩) := by
  have last :
      ∀ {j}, ymoTrieNoChildren ≤ j →
        Ends path children j oitrie (some ⟨.okay, oitrie, []⟩) := by
    intro j last
    exact ends_of_turn 0 fun turns _ => nodeLoop_end turns last
  rcases Nat.lt_or_ge i ymoTrieNoChildren with inside | outside
  · refine Ends.skip_to (Nat.le_of_lt inside) (Nat.le_refl _) ?_
      (last (Nat.le_refl _))
    intro k after _
    exact nothing k after
  · exact last outside

section

variable
  (inside : i < ymoTrieNoChildren)
  {left : Entry}
  (found : entryAt i children = some left)
  {right : Option Entry}
  {t : Nat}
  (search :
    findRight children (ymoTrieNoChildren - (i + 1)) (i + 1) = (right, t))

include inside found search

/-- The offset of the left node is too large. -/
theorem ends_far (far : storeOffset left right (stored i left oitrie) = none) :
    Ends path children i oitrie
      (some
        ⟨.err eoverflow, stored i left oitrie,
          [.child path (UInt8.ofNat i)]⟩) := by
  refine ends_of_turn 0 ?_
  intro turns _
  rw [nodeLoop_left turns inside found search, far]

variable
  {flat : Flat}
  (near : storeOffset left right (stored i left oitrie) = some flat)

include near

/-- The call for the left node does not return. -/
theorem ends_never
    (below : Ends (path ++ [UInt8.ofNat i]) left.children 0 flat none) :
    Ends path children i oitrie none := by
  refine never_of_turn ?_
  intro turns
  rw [nodeLoop_left turns inside found search, near]
  dsimp only
  rw [below turns]

/-- The call for the left node fails. -/
theorem ends_failed {below : Outcome}
    (ends : Ends (path ++ [UInt8.ofNat i]) left.children 0 flat (some below))
    (failed : below.status ≠ .okay) :
    Ends path children i oitrie
      (some
        (below.after
          [.child path (UInt8.ofNat i),
            .call (path ++ [UInt8.ofNat i])])) := by
  rcases ends with ⟨enough, returns⟩
  refine ends_of_turn enough ?_
  intro turns le
  rw [nodeLoop_left turns inside found search, near]
  dsimp only
  rw [returns turns le]
  exact if_neg failed

/-- The call for the left node is fine, and the loop goes on. -/
theorem ends_later {below : Outcome}
    (ends : Ends (path ++ [UInt8.ofNat i]) left.children 0 flat (some below))
    (okay : below.status = .okay)
    {result : Option Outcome}
    (later : Ends path children (t - 1) below.oitrie result) :
    Ends path children i oitrie
      (result.map
        (Outcome.after
          ([.child path (UInt8.ofNat i),
              .call (path ++ [UInt8.ofNat i])] ++
            below.events))) := by
  cases result with
  | some outcome =>
      rcases ends with ⟨enough, returns⟩
      rcases later with ⟨more, goesOn⟩
      refine ends_of_turn (max enough more) ?_
      intro turns le
      rw [nodeLoop_left turns inside found search, near]
      dsimp only
      rw [returns turns (by omega)]
      dsimp only
      rw [if_pos okay, goesOn turns (by omega)]
      rfl
  | none =>
      refine never_of_turn ?_
      intro turns
      rw [nodeLoop_left turns inside found search, near]
      dsimp only
      cases under :
          nodeLoop turns (path ++ [UInt8.ofNat i]) left.children 0 flat with
      | none => rfl
      | some other =>
          dsimp only
          rw [ends.unique under, if_pos okay, later turns]
          rfl

end

end

/-! ## The recursion over the entries -/

/-- The array after the offset to the node on the right has been stored, if there
is one. -/
def offsetStored (index : Nat) (next : Children) (oitrie : Flat) : Flat :=
  match next.firstIndex with
  | none => oitrie
  | some right =>
      Flat.modify oitrie index fun node =>
        { node with offset := UInt8.ofNat (right - index) }

/-- What follows a left node that has been filled in. -/
def goOn (c : UInt8) (next : Children) (oitrie : Flat) :
    Option (Status × Flat) :=
  if next = .none then if c = 0xff then none else some (.okay, oitrie)
  else oitrieNodeCreate next oitrie

theorem firstIndex_eq_none {next : Children} :
    next.firstIndex = none ↔ next = .none := by
  cases next with
  | none => exact iff_of_true rfl rfl
  | entry => exact iff_of_false (Option.some_ne_none _) Children.noConfusion

theorem not_far_none (index : Nat) : ¬Far index .none := by
  rintro ⟨right, first, _⟩
  cases first

theorem oitrieNodeCreate_entry (c : UInt8) (value : Bool) (index valueId : Nat)
    (below next : Children)
    (oitrie : Flat) :
    oitrieNodeCreate (.entry c value index valueId below next) oitrie =
      if Far index next then
        some
          (.err eoverflow,
            Flat.modify oitrie index (storeNode c value valueId below))
      else
        match
          oitrieNodeCreate below
            (offsetStored index next
              (Flat.modify oitrie index (storeNode c value valueId below)))
        with
        | some (.okay, oitrie) => goOn c next oitrie
        | result => result := by
  rw [oitrieNodeCreate]
  cases first : next.firstIndex with
  | none =>
      have noNext := firstIndex_eq_none.mp first
      subst noNext
      rw [if_neg (not_far_none index)]
      rfl
  | some right =>
      have isFar : Far index next ↔ right - index > ymoOitrieMaxOffset := by
        constructor
        · rintro ⟨other, same, large⟩
          rw [first] at same
          cases same
          exact large
        · intro large
          exact ⟨right, first, large⟩
      have someNext : next ≠ .none := by
        rintro rfl
        cases first
      by_cases far : Far index next
      · rw [if_pos far]
        exact if_pos (isFar.mp far)
      · rw [if_neg far]
        refine (if_neg fun large => far (isFar.mpr large)).trans ?_
        simp only [offsetStored, first]
        generalize
          Flat.modify
              (Flat.modify oitrie index (storeNode c value valueId below))
              index
              (fun node =>
                { node with offset := UInt8.ofNat (right - index) }) =
            flat
        rcases oitrieNodeCreate below flat with _ | ⟨okay | errno, after⟩
        · rfl
        · exact (if_neg someNext).symm
        · rfl

/-- What `oitrie_node_create` returns for a node with others on its right: nothing,
an error, or what it returns for them. -/
theorem oitrieNodeCreate_cases {c : UInt8} {value : Bool} {index valueId : Nat}
    {below next : Children}
    {oitrie after : Flat}
    (created :
      oitrieNodeCreate (.entry c value index valueId below next) oitrie =
        some (status, after)) :
    (Far index next ∧ status = .err eoverflow) ∨
      ¬Far index next ∧
        ∃ flat,
          (∃ errno, status = .err errno ∧
            oitrieNodeCreate below flat = some (.err errno, after)) ∨
          ∃ later,
            oitrieNodeCreate below flat = some (.okay, later) ∧
              goOn c next later = some (status, after) := by
  rw [oitrieNodeCreate_entry] at created
  generalize
    offsetStored index next
      (Flat.modify oitrie index (storeNode c value valueId below)) =
        flat at created
  split_ifs at created with far
  · cases created
    exact Or.inl ⟨far, rfl⟩
  · refine Or.inr ⟨far, flat, ?_⟩
    split at created
    · rename_i later under
      exact Or.inr ⟨later, under, created⟩
    · rename_i others
      cases status with
      | okay => exact absurd created (others after)
      | err errno => exact Or.inl ⟨errno, rfl, created⟩

/-- The offsets fit where `YMO_OKAY` is returned, and nowhere else. -/
theorem okay_iff_offsetsFit {oitrie after : Flat}
    (created : oitrieNodeCreate children oitrie = some (status, after)) :
    status = .okay ↔ OffsetsFit children := by
  induction children generalizing oitrie after status with
  | none =>
      cases created
      exact iff_of_true rfl trivial
  | entry c value index valueId below next belowHypothesis
      nextHypothesis =>
      rcases oitrieNodeCreate_cases created
        with ⟨far, rfl⟩ |
          ⟨near, flat, ⟨errno, rfl, under⟩ | ⟨later, under, goesOn⟩⟩
      · exact iff_of_false Status.noConfusion fun fit => fit.1 far
      · refine iff_of_false Status.noConfusion fun fit => ?_
        cases (belowHypothesis under).mpr fit.2.1
      · have fit := (belowHypothesis under).mp rfl
        rw [goOn] at goesOn
        split_ifs at goesOn with noNext
        · cases goesOn
          rw [noNext] at near ⊢
          exact iff_of_true rfl ⟨near, fit, trivial⟩
        · rw [nextHypothesis goesOn]
          exact ⟨fun others => ⟨near, fit, others⟩, fun all => all.2.2⟩

/-- A node with another one on its right does not have the last character. -/
theorem char_ne_last {c : UInt8} {value : Bool} {index valueId : Nat}
    {below next : Children}
    (sorted : Sorted low (.entry c value index valueId below next))
    (someNext : next ≠ .none) :
    c ≠ 0xff := by
  rintro rfl
  cases next with
  | none => exact someNext rfl
  | entry d _ _ _ _ _ =>
      have before : 255 + 1 ≤ d.toNat := sorted.2.2.1
      have inside := d.toNat_lt
      omega

/-- `YMO_OKAY` is returned just where no node has the last character and the
offsets fit. -/
theorem oitrieNodeCreate_okay_iff (sorted : Sorted low children)
    (oitrie : Flat) :
    (∃ after, oitrieNodeCreate children oitrie = some (.okay, after)) ↔
      BelowLast children ∧ OffsetsFit children := by
  induction children generalizing low oitrie with
  | none => exact iff_of_true ⟨oitrie, rfl⟩ ⟨trivial, trivial⟩
  | entry c value index valueId below next belowHypothesis
      nextHypothesis =>
      have under := belowHypothesis sorted.2.1
      have others := nextHypothesis sorted.2.2
      constructor
      · rintro ⟨after, created⟩
        have fit := (okay_iff_offsetsFit created).mp rfl
        refine ⟨?_, fit⟩
        rcases oitrieNodeCreate_cases created
          with ⟨_, different⟩ |
            ⟨_, flat, ⟨errno, different, _⟩ | ⟨later, filled, goesOn⟩⟩
        · cases different
        · cases different
        · have belowLast := ((under flat).mp ⟨later, filled⟩).1
          rw [goOn] at goesOn
          split_ifs at goesOn with noNext last
          · rw [noNext]
            exact ⟨last, belowLast, trivial⟩
          · exact ⟨char_ne_last sorted noNext, belowLast,
              ((others later).mp ⟨after, goesOn⟩).1⟩
      · rintro ⟨⟨notLast, belowLast, nextLast⟩, near, belowFit, nextFit⟩
        rw [oitrieNodeCreate_entry, if_neg near]
        rcases (under _).mpr ⟨belowLast, belowFit⟩ with ⟨later, filled⟩
        rw [filled]
        show ∃ after, goOn c next later = some (.okay, after)
        rw [goOn]
        split_ifs with noNext
        · exact ⟨later, rfl⟩
        · exact (others later).mpr ⟨nextLast, nextFit⟩

/-! ## The loop is the recursion -/

/-- An outcome of the recursion with the events of the loop. -/
def outcomeOf (events : List Event) :
    Option (Status × Flat) → Option Outcome :=
  Option.map fun result => ⟨result.1, result.2, events⟩

section

variable
  {path : Bytes}
  {children : Children}

/-- The last entry is visited again for ever, if the call for it returns. -/
theorem ends_last
    (found : entryAt 255 children = some left)
    (below :
      ∀ oitrie,
        ∃ later events,
          Ends (path ++ [0xff]) left.children 0 oitrie
            (some ⟨.okay, later, events⟩))
    (oitrie : Flat) :
    Ends path children 255 oitrie none := by
  intro turns
  induction turns generalizing oitrie with
  | zero => rfl
  | succ turns ih =>
      rw [nodeLoop_left turns (by decide) found
        (show findRight children 0 256 = (none, 256) from rfl)]
      show
        (match
            nodeLoop turns (path ++ [0xff]) left.children 0
              (stored 255 left oitrie)
          with
          | none => none
          | some below => _) = none
      rcases below (stored 255 left oitrie) with ⟨later, events, ends⟩
      cases under :
          nodeLoop turns (path ++ [0xff]) left.children 0
            (stored 255 left oitrie) with
      | none => rfl
      | some other =>
          dsimp only
          rw [ends.unique under, if_pos rfl, ih later]
          rfl

variable
  {i : Nat}
  {oitrie : Flat}

/-- The turn of a left node whose offset fits: the call for it is the recursion, and
then the loop goes on. -/
theorem ends_left
    (inside : i < ymoTrieNoChildren)
    (found : entryAt i children = some left)
    (search :
      findRight children (ymoTrieNoChildren - (i + 1)) (i + 1) = (right, t))
    {flat : Flat}
    (near : storeOffset left right (stored i left oitrie) = some flat)
    (below :
      Ends (path ++ [UInt8.ofNat i]) left.children 0 flat
        (outcomeOf (visits (path ++ [UInt8.ofNat i]) left.children)
          (oitrieNodeCreate left.children flat)))
    {others : Flat → Option (Status × Flat)}
    {events : List Event}
    (later :
      ∀ after,
        oitrieNodeCreate left.children flat = some (.okay, after) →
          Ends path children (t - 1) after (outcomeOf events (others after))) :
    Ends path children i oitrie
      (outcomeOf
        (.child path (UInt8.ofNat i) ::
          .call (path ++ [UInt8.ofNat i]) ::
            (visits (path ++ [UInt8.ofNat i]) left.children ++
              if OffsetsFit left.children then events else []))
        (match oitrieNodeCreate left.children flat with
          | some (.okay, after) => others after
          | result => result)) := by
  cases under : oitrieNodeCreate left.children flat with
  | none =>
      rw [under] at below
      exact ends_never inside found search near below
  | some result =>
      rcases result with ⟨okay | errno, after⟩
      · rw [under] at below
        have fit := (okay_iff_offsetsFit under).mp rfl
        have goesOn :=
          ends_later inside found search near below rfl (later after under)
        rw [if_pos fit]
        dsimp only
        cases rest : others after with
        | none =>
            rw [rest] at goesOn
            exact goesOn
        | some last =>
            rw [rest] at goesOn
            exact goesOn
      · rw [under] at below
        have noFit : ¬OffsetsFit left.children := by
          intro fit
          cases (okay_iff_offsetsFit under).mpr fit
        have failed :=
          ends_failed inside found search near below Status.noConfusion
        rw [if_neg noFit, List.append_nil]
        exact failed

end

/-- Where the loop goes on: at the right node, or at the last entry. -/
def resume : Children → Nat
  | .none => 255
  | .entry d _ _ _ _ _ => d.toNat

/-- The search finds the first one of the children that are left. -/
theorem findRight_next {next : Children} {m : Nat} (sorted : Sorted m next)
    (inside : m ≤ ymoTrieNoChildren)
    (agree : ∀ j, m ≤ j → entryAt j children = entryAt j next) :
    ∃ right,
      findRight children (ymoTrieNoChildren - m) m =
          (right, resume next + 1) ∧
        next.firstIndex = right.map Entry.index := by
  cases next with
  | none =>
      refine ⟨none, ?_, rfl⟩
      rw [findRight_none agree, Nat.add_sub_cancel' inside]
      rfl
  | entry d value index valueId below next =>
      have le : m ≤ d.toNat := sorted.1
      have last : d.toNat < ymoTrieNoChildren := d.toNat_lt
      have here : Sorted d.toNat (.entry d value index valueId below next) :=
        ⟨Nat.le_refl _, sorted.2⟩
      refine ⟨some ⟨value, index, valueId, below⟩, ?_, rfl⟩
      refine findRight_some ?_ ((agree _ le).trans (if_pos rfl)) le ?_
      · intro j after before
        rw [agree j after]
        exact entryAt_of_lt here before
      · rw [Nat.add_sub_cancel' inside]
        exact last

/-- The store of the offset to the first one of the children that are left. -/
theorem storeOffset_next {next : Children} (left : Entry)
    (first : next.firstIndex = right.map Entry.index)
    (oitrie : Flat) :
    storeOffset left right oitrie =
      if Far left.index next then none
      else some (offsetStored left.index next oitrie) := by
  cases right with
  | none =>
      have noNext := firstIndex_eq_none.mp first
      subst noNext
      rw [if_neg (not_far_none left.index)]
      rfl
  | some right =>
      have isFar :
          Far left.index next ↔
            right.index - left.index > ymoOitrieMaxOffset := by
        rw [Far, first]
        constructor
        · rintro ⟨_, ⟨⟩, large⟩
          exact large
        · intro large
          exact ⟨_, rfl, large⟩
      simp only [isFar, offsetStored, first]
      rfl

/-- The loop over the entries from an index on does and stores what the recursion
over those that are not `NULL` does, and it does not end where that has no result. -/
theorem ends_oitrieNodeCreate {rest : Children} (sorted : Sorted low rest)
    {i : Nat}
    (le : i ≤ low)
    (agree : ∀ j, i ≤ j → entryAt j children = entryAt j rest)
    (oitrie : Flat) :
    Ends path children i oitrie
      (outcomeOf (visits path rest) (oitrieNodeCreate rest oitrie)) := by
  induction rest generalizing low path children i oitrie with
  | none => exact ends_nothing agree
  | entry c value index valueId below next belowHypothesis
      nextHypothesis =>
      have start : i ≤ c.toNat := Nat.le_trans le sorted.1
      have inside : c.toNat < ymoTrieNoChildren := c.toNat_lt
      have here : Sorted c.toNat (.entry c value index valueId below next) :=
        ⟨Nat.le_refl _, sorted.2⟩
      have found :
          entryAt c.toNat children = some ⟨value, index, valueId, below⟩ :=
        (agree _ start).trans (if_pos rfl)
      have behind :
          ∀ j, c.toNat + 1 ≤ j → entryAt j children = entryAt j next := by
        intro j after
        rw [agree j (by omega), entryAt, if_neg (by omega)]
      have char : UInt8.ofNat c.toNat = c := UInt8.ofNat_toNat
      refine Ends.skip_to start (Nat.le_of_lt inside) ?_ ?_
      · intro j after before
        rw [agree j after]
        exact entryAt_of_lt here before
      rcases findRight_next sorted.2.2 inside behind
        with ⟨right, search, first⟩
      have offset :=
        storeOffset_next ⟨value, index, valueId, below⟩ first
          (stored c.toNat ⟨value, index, valueId, below⟩ oitrie)
      rw [oitrieNodeCreate_entry, visits]
      by_cases far : Far index next
      · rw [if_pos far] at offset
        rw [if_pos far, if_pos far]
        have failed : Ends path children c.toNat oitrie _ :=
          ends_far inside found search offset
        rw [stored, char] at failed
        exact failed
      · rw [if_neg far] at offset
        rw [if_neg far, if_neg far]
        have under :
            ∀ flat,
              Ends (path ++ [UInt8.ofNat c.toNat]) below 0 flat
                (outcomeOf (visits (path ++ [UInt8.ofNat c.toNat]) below)
                  (oitrieNodeCreate below flat)) :=
          belowHypothesis sorted.2.1 (Nat.zero_le 1) fun j _ => rfl
        have later :
            ∀ after,
              oitrieNodeCreate below
                    (offsetStored index next
                      (stored c.toNat ⟨value, index, valueId, below⟩ oitrie)) =
                  some (.okay, after) →
                Ends path children (resume next + 1 - 1) after
                  (outcomeOf (visits path next) (goOn c next after)) := by
          intro after filled
          rw [goOn, Nat.add_sub_cancel]
          split_ifs with noNext last
          · -- The last entry is its own right node.
            subst noNext last
            refine ends_last found ?_ after
            intro flat
            have fine :=
              (oitrieNodeCreate_okay_iff sorted.2.1 _).mp ⟨after, filled⟩
            rcases (oitrieNodeCreate_okay_iff sorted.2.1 flat).mpr fine
              with ⟨other, again⟩
            have ends := under flat
            rw [again] at ends
            exact ⟨other, _, ends⟩
          · subst noNext
            refine ends_nothing ?_
            intro j after
            have apart : c.toNat ≠ 255 := by
              intro same
              exact last (UInt8.toNat_inj.mp same)
            have less : c.toNat < 256 := c.toNat_lt
            have after : 255 ≤ j := after
            rw [behind j (by omega)]
            rfl
          · have before := sorted.2.2
            revert noNext before
            cases next with
            | none =>
                intro noNext
                exact absurd rfl noNext
            | entry d value' index' valueId' below' next' =>
                intro _ before
                have sorted' :
                    Sorted d.toNat
                      (.entry d value' index' valueId' below' next') :=
                  ⟨Nat.le_refl _, before.2⟩
                refine nextHypothesis sorted' (Nat.le_refl _) ?_ after
                intro j afterwards
                exact behind j (Nat.le_trans before.1 afterwards)
        have turn := ends_left inside found search offset (under _) later
        rw [stored, char] at turn
        exact turn

/-! ## Each node once -/

/-- A node of the trie that the characters lead to. -/
def isNode : Bytes → Children → Bool
  | [], _ => true
  | c :: rest, children =>
      match children.get c with
      | some (node, _) => isNode rest node.children
      | none => false

theorem isNode_entry (d : UInt8) (rest : Bytes) (c : UInt8) (value : Bool)
    (index valueId : Nat)
    (below next : Children) :
    isNode (d :: rest) (.entry c value index valueId below next) =
      if d = c then isNode rest below else isNode (d :: rest) next := by
  rw [isNode, Children.get]
  by_cases same : d = c
  · rw [if_pos same, if_pos same]
  · rw [if_neg same, if_neg same]
    rfl

/-- The events up to the first offset that is too large are the first ones of all,
and all of them where there is no such offset. -/
theorem visits_initial (path : Bytes) (children : Children) :
    visits path children <+: preorder path children ∧
      (OffsetsFit children →
        visits path children = preorder path children) := by
  induction children generalizing path with
  | none => exact ⟨List.prefix_refl _, fun _ => rfl⟩
  | entry c value index valueId below next belowHypothesis
      nextHypothesis =>
      have under := belowHypothesis (path ++ [c])
      have others := nextHypothesis path
      rw [visits, preorder]
      constructor
      · refine List.prefix_cons_iff.mpr (Or.inr ⟨_, rfl, ?_⟩)
        split_ifs with far fit
        · exact List.nil_prefix
        · refine List.prefix_cons_iff.mpr (Or.inr ⟨_, rfl, ?_⟩)
          rw [under.2 fit]
          exact (List.prefix_append_right_inj _).mpr others.1
        · refine List.prefix_cons_iff.mpr (Or.inr ⟨_, rfl, ?_⟩)
          rw [List.append_nil]
          exact under.1.trans (List.prefix_append _ _)
      · rintro ⟨near, fit, nextFit⟩
        rw [if_neg near, if_pos fit, under.2 fit, others.2 nextFit]

/-- The node that an event is about. -/
def Event.node : Event → Bytes
  | .call path => path
  | .child path c => path ++ [c]

/-- The events are about nodes of the trie, below the node that the children are
of. -/
theorem node_of_mem_preorder (sorted : Sorted low children) {event : Event}
    (member : event ∈ preorder path children) :
    ∃ d rest,
      event.node = path ++ d :: rest ∧ low ≤ d.toNat ∧
        isNode (d :: rest) children = true := by
  induction children generalizing low path with
  | none => cases member
  | entry c value index valueId below next belowHypothesis
      nextHypothesis =>
      have self :
          isNode [c] (.entry c value index valueId below next) = true := by
        rw [isNode_entry, if_pos rfl]
        rfl
      rw [preorder, List.mem_cons, List.mem_cons, List.mem_append] at member
      rcases member with rfl | rfl | lower | right
      · exact ⟨c, [], rfl, sorted.1, self⟩
      · exact ⟨c, [], rfl, sorted.1, self⟩
      · rcases belowHypothesis sorted.2.1 lower with ⟨d, rest, same, _, inside⟩
        refine ⟨c, d :: rest, ?_, sorted.1, ?_⟩
        · rw [same, List.append_assoc]
          rfl
        · rw [isNode_entry, if_pos rfl]
          exact inside
      · rcases nextHypothesis sorted.2.2 right with ⟨d, rest, same, le, inside⟩
        have apart : d ≠ c := by
          rintro rfl
          omega
        refine ⟨d, rest, same, ?_, ?_⟩
        · have start := sorted.1
          omega
        · rw [isNode_entry, if_neg apart]
          exact inside

theorem nodup_preorder (sorted : Sorted low children) (path : Bytes) :
    (preorder path children).Nodup := by
  induction children generalizing low path with
  | none => exact List.nodup_nil
  | entry c value index valueId below next belowHypothesis
      nextHypothesis =>
      -- Events below the node have longer paths, later ones another character.
      have lower :
          ∀ event ∈ preorder (path ++ [c]) below,
            ∃ d rest, event.node = path ++ c :: d :: rest := by
        intro event member
        rcases node_of_mem_preorder sorted.2.1 member with ⟨d, rest, same, _⟩
        refine ⟨d, rest, ?_⟩
        rw [same, List.append_assoc]
        rfl
      have right :
          ∀ event ∈ preorder path next,
            ∃ d rest, event.node = path ++ d :: rest ∧ d ≠ c := by
        intro event member
        rcases node_of_mem_preorder sorted.2.2 member
          with ⟨d, rest, same, le, _⟩
        refine ⟨d, rest, same, ?_⟩
        rintro rfl
        omega
      have fresh :
          ∀ event : Event, event.node = path ++ [c] →
            event ∉ preorder (path ++ [c]) below ++ preorder path next := by
        intro event node member
        rcases List.mem_append.mp member with inside | outside
        · rcases lower event inside with ⟨d, rest, same⟩
          have equal := List.append_cancel_left (node.symm.trans same)
          cases equal
        · rcases right event outside with ⟨d, rest, same, apart⟩
          have equal := List.append_cancel_left (node.symm.trans same)
          exact apart (List.cons.inj equal).1.symm
      rw [preorder, List.nodup_cons, List.nodup_cons]
      refine ⟨?_, fresh _ rfl, ?_⟩
      · intro member
        rcases List.mem_cons.mp member with same | later
        · cases same
        · exact fresh _ rfl later
      · refine List.nodup_append.mpr
          ⟨belowHypothesis sorted.2.1 _, nextHypothesis sorted.2.2 _, ?_⟩
        rintro event inside _ outside rfl
        rcases lower event inside with ⟨d, rest, same⟩
        rcases right event outside with ⟨e, others, node, apart⟩
        have equal := List.append_cancel_left (same.symm.trans node)
        exact apart (List.cons.inj equal).1.symm

/-- Every node but the root is a left node, and called for. -/
theorem mem_preorder {parent : Bytes} {d : UInt8}
    (node : isNode (parent ++ [d]) children = true) :
    .child (path ++ parent) d ∈ preorder path children ∧
      .call (path ++ parent ++ [d]) ∈ preorder path children := by
  induction children generalizing path parent with
  | none =>
      cases parent with
      | nil => cases node
      | cons => cases node
  | entry c value index valueId below next belowHypothesis
      nextHypothesis =>
      have later :
          isNode (parent ++ [d]) next = true →
            .child (path ++ parent) d ∈
                preorder path (.entry c value index valueId below next) ∧
              .call (path ++ parent ++ [d]) ∈
                preorder path (.entry c value index valueId below next) := by
        intro inside
        have right :
            .child (path ++ parent) d ∈ preorder path next ∧
              .call (path ++ parent ++ [d]) ∈ preorder path next :=
          nextHypothesis inside
        rcases right with ⟨child, call⟩
        constructor
        · exact List.mem_cons_of_mem _
            (List.mem_cons_of_mem _ (List.mem_append_right _ child))
        · exact List.mem_cons_of_mem _
            (List.mem_cons_of_mem _ (List.mem_append_right _ call))
      cases parent with
      | nil =>
          rw [List.nil_append, isNode_entry] at node
          split_ifs at node with same
          · rw [same, List.append_nil]
            exact ⟨List.mem_cons_self,
              List.mem_cons_of_mem _ List.mem_cons_self⟩
          · exact later node
      | cons e parent =>
          rw [List.cons_append, isNode_entry] at node
          split_ifs at node with same
          · have lower :
                .child (path ++ [c] ++ parent) d ∈
                    preorder (path ++ [c]) below ∧
                  .call (path ++ [c] ++ parent ++ [d]) ∈
                    preorder (path ++ [c]) below :=
              belowHypothesis node
            rcases lower with ⟨child, call⟩
            rw [List.append_assoc] at child call
            subst same
            constructor
            · exact List.mem_cons_of_mem _
                (List.mem_cons_of_mem _ (List.mem_append_left _ child))
            · rw [List.append_assoc] at call ⊢
              exact List.mem_cons_of_mem _
                (List.mem_cons_of_mem _ (List.mem_append_left _ call))
          · exact later node

theorem isNode_of_mem_preorder (sorted : Sorted low children) {event : Event}
    (member : event ∈ preorder [] children) :
    isNode event.node children = true := by
  rcases node_of_mem_preorder sorted member with ⟨d, rest, same, _, inside⟩
  rw [same]
  exact inside

/-- All events of a call for the root are different. -/
theorem nodup_events (sorted : Sorted low children) :
    (.call [] :: preorder [] children).Nodup := by
  refine List.nodup_cons.mpr ⟨?_, nodup_preorder sorted []⟩
  intro member
  rcases node_of_mem_preorder sorted member with ⟨d, rest, same, _⟩
  cases same

theorem count_call (sorted : Sorted low children) (path : Bytes) :
    (.call [] :: preorder [] children).count (.call path) =
      if isNode path children = true then 1 else 0 := by
  rw [(nodup_events sorted).count]
  refine if_congr ?_ rfl rfl
  rw [List.mem_cons]
  constructor
  · rintro (same | member)
    · cases same
      cases children <;> rfl
    · exact isNode_of_mem_preorder sorted member
  · intro node
    rcases List.eq_nil_or_concat path with rfl | ⟨parent, d, rfl⟩
    · exact Or.inl rfl
    · rw [List.concat_eq_append] at node ⊢
      exact Or.inr (mem_preorder node).2

theorem count_child (sorted : Sorted low children) (path : Bytes) (c : UInt8) :
    (.call [] :: preorder [] children).count (.child path c) =
      if isNode (path ++ [c]) children = true then 1 else 0 := by
  rw [(nodup_events sorted).count]
  refine if_congr ?_ rfl rfl
  rw [List.mem_cons]
  constructor
  · rintro (same | member)
    · cases same
    · exact isNode_of_mem_preorder sorted member
  · intro node
    exact Or.inr (mem_preorder node).1

/-! ## Every trie -/

/-- The call for the root returns. -/
def Returns (children : Children) (oitrie : Flat) (outcome : Outcome) : Prop :=
  ∃ enough,
    ∀ turns, enough ≤ turns → nodeCreate turns children oitrie = some outcome

/-- There is one call for each node, and in it each of its children is the left node
once. -/
structure Visited (children : Children) (outcome : Outcome) : Prop where
  okay : outcome.status = .okay
  call :
    ∀ path,
      outcome.events.count (.call path) =
        if isNode path children = true then 1 else 0
  child :
    ∀ path c,
      outcome.events.count (.child path c) =
        if isNode (path ++ [c]) children = true then 1 else 0

/-- The trie has been left with an error; up to there no node was called for twice
and none was the left node twice. -/
structure Stopped (children : Children) (outcome : Outcome) : Prop where
  failed : outcome.status = .err eoverflow
  call :
    ∀ path,
      outcome.events.count (.call path) ≤
        if isNode path children = true then 1 else 0
  child :
    ∀ path c,
      outcome.events.count (.child path c) ≤
        if isNode (path ++ [c]) children = true then 1 else 0

theorem oitrieNodeCreate_err {oitrie after : Flat} {errno : Errno}
    (created : oitrieNodeCreate children oitrie = some (.err errno, after)) :
    errno = eoverflow := by
  induction children generalizing oitrie after with
  | none => cases created
  | entry c value index valueId below next belowHypothesis
      nextHypothesis =>
      rcases oitrieNodeCreate_cases created
        with ⟨_, same⟩ | ⟨_, flat, ⟨other, same, under⟩ | ⟨later, _, goesOn⟩⟩
      · cases same
        rfl
      · cases same
        exact belowHypothesis under
      · rw [goOn] at goesOn
        split_ifs at goesOn
        · cases goesOn
        · exact nextHypothesis goesOn

section

variable
  {children : Children}
  (sorted : Sorted 1 children)
  {oitrie : Flat}

include sorted

theorem returns_of_created {after : Flat}
    (created : oitrieNodeCreate children oitrie = some (status, after)) :
    Returns children oitrie
      ⟨status, after, .call [] :: visits [] children⟩ := by
  have ends :
      Ends [] children 0 oitrie
        (outcomeOf (visits [] children) (oitrieNodeCreate children oitrie)) :=
    ends_oitrieNodeCreate sorted (Nat.zero_le 1) (fun _ _ => rfl) oitrie
  rw [created] at ends
  rcases ends with ⟨enough, returns⟩
  refine ⟨enough, ?_⟩
  intro turns le
  rw [nodeCreate, returns turns le]
  rfl

theorem visited_of_fit (fit : OffsetsFit children) {after : Flat} :
    Visited children ⟨.okay, after, .call [] :: visits [] children⟩ := by
  rw [(visits_initial [] children).2 fit]
  exact ⟨rfl, count_call sorted, count_child sorted⟩

theorem stopped_of_error {after : Flat} :
    Stopped children
      ⟨.err eoverflow, after, .call [] :: visits [] children⟩ := by
  have first :
      (.call [] :: visits [] children : List Event).Sublist
        (.call [] :: preorder [] children) :=
    (visits_initial [] children).1.sublist.cons_cons _
  refine ⟨rfl, ?_, ?_⟩
  · intro path
    rw [← count_call sorted path]
    exact first.count_le _
  · intro path c
    rw [← count_child sorted path c]
    exact first.count_le _

/-- The call returns `YMO_OKAY`, and each node has been visited once, just where no
node has the last character and the offsets fit. -/
theorem returns_visited_iff :
    (∃ outcome, Returns children oitrie outcome ∧
        Visited children outcome) ↔
      BelowLast children ∧ OffsetsFit children := by
  rw [← oitrieNodeCreate_okay_iff sorted oitrie]
  constructor
  · rintro ⟨outcome, ⟨enough, returns⟩, visited⟩
    have ends :
        Ends [] children 0 oitrie
          (outcomeOf (visits [] children)
            (oitrieNodeCreate children oitrie)) :=
      ends_oitrieNodeCreate sorted (Nat.zero_le 1) (fun _ _ => rfl) oitrie
    rcases Option.map_eq_some_iff.mp (returns enough (Nat.le_refl _))
      with ⟨result, ended, same⟩
    cases created : oitrieNodeCreate children oitrie with
    | none =>
        rw [created] at ends
        rw [ends enough] at ended
        cases ended
    | some pair =>
        rw [created] at ends
        have equal := ends.unique ended
        have okay : result.status = .okay := by
          rw [← same] at visited
          exact visited.okay
        rw [equal] at okay
        rcases pair with ⟨status, after⟩
        cases okay
        exact ⟨after, rfl⟩
  · rintro ⟨after, created⟩
    have fit := (okay_iff_offsetsFit created).mp rfl
    exact ⟨_, returns_of_created sorted created, visited_of_fit sorted fit⟩

end

theorem sorted_annotated (strings : List CString) :
    Sorted 1 (annotated (trieOf strings)) :=
  (annotates_trieNodeAnnotate (trieOf strings).root.children 0 0).sorted 1
    (stores_trieOf strings).sorted

/-- For strings without the byte `0xff` the call returns.  Where the offsets fit it
has visited every node once, and otherwise it has stopped with an error. -/
theorem visits_strings (strings : List CString)
    (before : ∀ string ∈ strings, 0xff ∉ string.chars)
    (oitrie : Flat) :
    ∃ outcome,
      Returns (annotated (trieOf strings)) oitrie outcome ∧
        (OffsetsFit (annotated (trieOf strings)) →
          Visited (annotated (trieOf strings)) outcome) ∧
        (¬OffsetsFit (annotated (trieOf strings)) →
          Stopped (annotated (trieOf strings)) outcome) := by
  have sorted := sorted_annotated strings
  have belowLast : BelowLast (annotated (trieOf strings)) :=
    (belowLast_trieOf before).annotate 0 0
  have numbered : Numbered 0 (annotated (trieOf strings)) :=
    (annotates_trieNodeAnnotate (trieOf strings).root.children 0 0).numbered
  rcases oitrieNodeCreate_returns belowLast numbered oitrie
    with ⟨status, after, created, _⟩
  refine ⟨_, returns_of_created sorted created, ?_, ?_⟩
  · intro fit
    rw [(okay_iff_offsetsFit created).mpr fit]
    exact visited_of_fit sorted fit
  · intro unfit
    cases status with
    | okay => exact absurd ((okay_iff_offsetsFit created).mp rfl) unfit
    | err errno =>
        rw [oitrieNodeCreate_err created]
        exact stopped_of_error sorted

theorem visits_someStrings :
    ∃ outcome,
      Returns (annotated (trieOf someStrings)) (fun _ => .zero) outcome ∧
        Visited (annotated (trieOf someStrings)) outcome := by
  rcases visits_strings someStrings (by decide) fun _ => .zero
    with ⟨outcome, returns, visited, _⟩
  exact ⟨outcome, returns, visited (by decide)⟩

/-- The string of the byte `0xff`. -/
def lastByte : List CString :=
  [⟨[0xff], by decide⟩]

set_option maxRecDepth 4000 in
/-- The call for the trie of the byte `0xff` never returns; the one for the trie of
`longName` returns before it has come to the other name. -/
theorem not_always_visited :
    (∀ turns,
        nodeCreate turns (annotated (trieOf lastByte)) (fun _ => .zero) =
          none) ∧
      ¬∃ outcome,
          Returns (annotated (trieOf longName)) (fun _ => .zero) outcome ∧
            Visited (annotated (trieOf longName)) outcome := by
  constructor
  · have ends :
        Ends [] (annotated (trieOf lastByte)) 0 (fun _ => .zero) none :=
      ends_oitrieNodeCreate (sorted_annotated lastByte) (Nat.zero_le 1)
        (fun _ _ => rfl) fun _ => .zero
    intro turns
    rw [nodeCreate, ends turns]
    rfl
  · rw [returns_visited_iff (sorted_annotated longName)]
    rintro ⟨_, fit⟩
    exact absurd fit (by decide)

end Yimmo.Core.TrieVisits
