import Yimmo.Core.YamlRuns
import Yimmo.Core.YamlTree

/-!
# The tree that parsing builds

A node that receives a value is a sequence, or a key that has no value yet; the
parser then goes on at the sequence, or at the mapping of the key.  Along the
events of a document without aliases, each value becomes the last child of the
node that receives it, and the nodes of its tree are the ones created meanwhile.

An alias creates no node.  The value that it stands for has at least one part, so
that the nodes are too few for the tree, and the tree is not built.
-/

namespace Yimmo.Core.YamlParse

open Yimmo.Core.StatusCode
open Yimmo.Core.Yaml
open Yimmo.Core.YamlDocuments
open Yimmo.Core.YamlRuns
open Yimmo.Core.YamlTree
open Yimmo.Lib.ByteMemory

variable
    {doc : YamlDoc}
    {document : Document}
    {node : YamlNode}
    {firstTexts : List Scalar}
    {texts : List Scalar}

/-! ## Receiving a value -/

/-- The node receives a value, and the parser goes on at the other one. -/
inductive Receives (yaml : YamlState) : Nat → Nat → Prop where
  | sequence
      {id : Nat}
      (isSequence : (yaml.nodes id).yType = .sequence) :
      Receives yaml id id
  | key
      {id owner : Nat}
      (isScalar : (yaml.nodes id).yType = .scalar)
      (isParent : (yaml.nodes id).parent = some owner)
      (isObject : (yaml.nodes owner).yType = .object) :
      Receives yaml id owner

section

variable
  {yaml : YamlState}
  {id target : Nat}

theorem Receives.grown {later : YamlState} {place : Option Nat}
    (receives : Receives yaml id target)
    (sound : Sound yaml)
    (inside : id < yaml.created)
    (grown : Grown yaml later place) :
    Receives later id target := by
  have kept := grown.kept id inside
  cases receives with
  | sequence isSequence => exact .sequence (by rw [kept.yType, isSequence])
  | key isScalar isParent isObject =>
      have older := sound.older id inside target isParent
      have owner := grown.kept target (Nat.lt_trans older inside)
      exact .key (by rw [kept.yType, isScalar])
        (by rw [kept.parent, isParent]) (by rw [owner.yType, isObject])

theorem Receives.popScalars (receives : Receives yaml id target)
    (sound : Sound yaml)
    (inside : id < yaml.created) :
    Yaml.popScalars yaml.nodes yaml.created (some id) = some target := by
  cases receives with
  | sequence isSequence =>
      obtain ⟨bound, isBound⟩ : ∃ bound, yaml.created = bound + 1 :=
        ⟨yaml.created - 1, by omega⟩
      rw [isBound, Yaml.popScalars, isSequence, if_neg YamlType.noConfusion]
  | key isScalar isParent isObject =>
      have older := sound.older id inside target isParent
      obtain ⟨bound, isBound⟩ : ∃ bound, yaml.created = bound + 2 :=
        ⟨yaml.created - 2, by omega⟩
      rw [isBound, Yaml.popScalars, if_pos isScalar, isParent,
        Yaml.popScalars, isObject, if_neg YamlType.noConfusion]

theorem Receives.scalarReturn (receives : Receives yaml id target)
    (sound : Sound yaml)
    (inside : id < yaml.created) :
    scalarReturn yaml id = some target := by
  have popped := receives.popScalars sound inside
  cases receives with
  | sequence isSequence => rw [YamlRuns.scalarReturn, isSequence]
  | key isScalar isParent isObject =>
      rw [YamlRuns.scalarReturn, isScalar]
      exact popped

end

/-! ## Steps -/

/-- What some events leave below a node: its children, and the nodes created. -/
structure Below
    (yaml later : YamlState)
    (id : Nat)
    (kids : List Nat)
    (begun : Nat)
    (more : List Scalar) : Prop where
  sound : Sound later
  grown : Grown yaml later (some id)
  owner : Owner later id kids
  room : Room later.doc more
  created : later.created = yaml.created + begun

section

variable
  {yaml : YamlState}
  {id target : Nat}
  {kids : List Nat}
  {more : List Scalar}

theorem grown_stored (yaml : YamlState) (text : Scalar) (place : Option Nat) :
    Grown yaml (stored yaml text) place where
  created := Nat.le_refl _
  kept _ _ := ⟨rfl, rfl, rfl⟩
  child _ _ _ := rfl
  next _ _ _ := rfl
  endAt := Nat.le_refl _
  buffer offset inFront := by
    have isBuffer := snprintf_scalar yaml.doc.buffer yaml.doc.endAt text
    exact (congrFun isBuffer offset).trans
      (storeAll_outside _ _ _ (.inl inFront))
  len := rfl
  root _ isRoot := isRoot

/-- The text is in the buffer, below the new end. -/
theorem terminated_stored (yaml : YamlState) {text : Scalar}
    (noZero : 0 ∉ text.bytes) :
    Terminated (stored yaml text).doc.buffer
      ((afterScalar yaml.doc text).endAt - 1) yaml.doc.endAt text.bytes where
  holds := by
    have isBuffer := snprintf_scalar yaml.doc.buffer yaml.doc.endAt text
    rw [cString_of_not_mem noZero] at isBuffer
    show Holds (snprintf _ _ _ _) _ _
    rw [isBuffer]
    exact holds_storeAll _ _ _
  below := by
    simp only [afterScalar, Scalar.size_toNat]
    omega

/-- A scalar becomes the last child of its parent, with its text. -/
theorem scalar_below (sound : Sound yaml) (owner : Owner yaml id kids)
    {text : Scalar}
    (room : Room yaml.doc (text :: more))
    (noZero : 0 ∉ text.bytes)
    (isReturn : scalarReturn yaml id = some target)
    (anchor : Option Bytes) :
    ∃ later,
      Runs [.scalar anchor text] yaml (some id) later (some target) ∧
        Below yaml later id (kids ++ [yaml.created]) 1 more ∧
          Owner later yaml.created [] ∧
            IsText later (later.doc.endAt - 1) yaml.created text.bytes ∧
              (later.nodes yaml.created).parent = some id := by
  have ordinary := sound.ordinary id owner.inside
  have isCreate : ymoYamlNodeCreate yaml (some id) (.scalar anchor text) =
      attach (stored yaml text) (scalarNode yaml id)
        (afterScalar yaml.doc text).endAt (scalarReturn yaml id) :=
    createScalar_eq ordinary room.small
  have begins : Begins (.scalar anchor text) := trivial
  have runs := runs_create begins ((congrArg _ isCreate).trans isReturn)
  rw [isCreate] at runs
  have soundStored : Sound (stored yaml text) := ⟨sound.older, sound.ordinary⟩
  have ownerStored : Owner (stored yaml text) id kids :=
    ⟨owner.inside, owner.kidsInside, owner.children⟩
  have moves : (stored yaml text).doc.endAt ≤
      (afterScalar yaml.doc text).endAt := by
    simp only [afterScalar, stored, storeScalar]
    omega
  have leaf : (scalarNode yaml id).next = none ∧
      (scalarNode yaml id).child = none := ⟨rfl, rfl⟩
  have attached :=
    attach_attached ownerStored leaf rfl moves (scalarReturn yaml id)
  refine ⟨_, runs, ⟨?_, ?_, attached.owner, ?_, rfl⟩, attached.new,
    ⟨attached.kept.yType, ⟨yaml.doc.endAt, attached.kept.value, ?_⟩,
      noZero⟩, attached.kept.parent⟩
  · refine soundStored.attach (fun parent same => ?_) YamlType.noConfusion _ _
    rw [← Option.some.inj same]
    exact owner.inside
  · exact (grown_stored yaml text (some id)).trans_same attached.grown
  · exact room.tail.congr rfl rfl rfl
  · exact terminated_stored yaml noZero

/-- A collection begins as the last child of its parent. -/
theorem collection_below
    (sound : Sound yaml)
    (owner : Owner yaml id kids)
    (room : Room yaml.doc more)
    {begin : YamlEvent}
    (begins : Begins begin)
    (isCreate :
      ymoYamlNodeCreate yaml (some id) begin =
        attach yaml node yaml.doc.endAt (some yaml.created))
    (leaf : node.next = none ∧ node.child = none)
    (isParent : node.parent = some id)
    (ordinary : node.yType ≠ .error) :
    ∃ later,
      Runs [begin] yaml (some id) later (some yaml.created) ∧
        Below yaml later id (kids ++ [yaml.created]) 1 more ∧
          Owner later yaml.created [] ∧
            Kept node (later.nodes yaml.created) := by
  have runs := runs_create begins (congrArg Created.node isCreate)
  rw [isCreate] at runs
  have attached := attach_attached owner leaf isParent (Nat.le_refl _)
    (some yaml.created)
  refine ⟨_, runs, ⟨?_, attached.grown, attached.owner, ?_, rfl⟩,
    attached.new, attached.kept⟩
  · refine sound.attach (fun parent same => ?_) ordinary _ _
    rw [isParent] at same
    rw [← Option.some.inj same]
    exact owner.inside
  · exact room.congr rfl rfl rfl

end

/-! ## Steps one after the other -/

section

variable
  {yaml between later : YamlState}
  {id new : Nat}
  {kids more : List Nat}
  {texts : List Scalar}
  {begun count : Nat}

theorem Below.refl (sound : Sound yaml) (owner : Owner yaml id kids)
    (room : Room yaml.doc texts) :
    Below yaml yaml id kids 0 texts :=
  ⟨sound, Grown.refl yaml _, owner, room, rfl⟩

theorem Below.trans (below : Below yaml between id kids begun firstTexts)
    (goesOn : Below between later id more count texts) :
    Below yaml later id more (begun + count) texts where
  sound := goesOn.sound
  grown := below.grown.trans_same goesOn.grown
  owner := goesOn.owner
  room := goesOn.room
  created := by rw [goesOn.created, below.created, Nat.add_assoc]

/-- What is created below a new child is created below its parent. -/
theorem Below.trans_new (sound : Sound yaml) (inside : id < yaml.created)
    (below : Below yaml between id kids begun firstTexts)
    (isNew : yaml.created ≤ new)
    (goesOn : Below between later new more count texts) :
    Below yaml later id kids (begun + count) texts where
  sound := goesOn.sound
  grown := by
    refine below.grown.trans goesOn.grown fun other otherInside => ?_
    refine ⟨fun same => ?_, fun same => ?_⟩
    · have := Option.some.inj same
      omega
    · have := sound.older other otherInside new same
      omega
  owner := by
    refine below.owner.grown goesOn.grown fun same => ?_
    have := Option.some.inj same
    omega
  room := goesOn.room
  created := by rw [goesOn.created, below.created, Nat.add_assoc]

/-- At its end, a collection is the last child of what receives it. -/
theorem collection_ends {target : Nat} {first : YamlState} {added : List Nat}
    {begin finish : YamlEvent}
    {events : List YamlEvent}
    (sound : Sound yaml)
    (owner : Owner yaml id kids)
    (receives : Receives yaml id target)
    (starts : Runs [begin] yaml (some id) first (some yaml.created))
    (begins : Below yaml first id (kids ++ [yaml.created]) 1 firstTexts)
    (isParent : (first.nodes yaml.created).parent = some id)
    (runs : Runs events first (some yaml.created) later (some yaml.created))
    (below : Below first later yaml.created added begun texts)
    (ends : Ends finish) :
    Runs (begin :: (events ++ [finish])) yaml (some id) later
        (some target) ∧
      Below yaml later id (kids ++ [yaml.created]) (1 + begun) texts := by
  have isNew : yaml.created < first.created := by
    rw [begins.created]
    exact Nat.lt_succ_self _
  have inside : id < first.created := Nat.lt_trans owner.inside isNew
  have stillParent : (later.nodes yaml.created).parent = some id := by
    rw [(below.grown.kept yaml.created isNew).parent, isParent]
  have receivesLater := (receives.grown sound owner.inside
    begins.grown).grown begins.sound inside below.grown
  have popped := receivesLater.popScalars below.sound
    (Nat.lt_of_lt_of_le inside below.grown.created)
  have finishes := @runs_end later finish ends yaml.created
  rw [stillParent, popped] at finishes
  exact ⟨starts.cons (runs.append finishes),
    begins.trans_new sound owner.inside (Nat.le_refl _) below⟩

/-- The nodes created in a step are away from the older ones. -/
theorem away_range {start : Nat} (older : id < start)
    (created : yaml.created = start + count) :
    Away yaml (some id) (List.range' start count) := by
  intro node member
  have bounds := List.mem_range'_1.mp member
  refine ⟨by omega, fun same => ?_⟩
  have := Option.some.inj same
  omega

theorem mirrors_later {value : Value} {start : Nat}
    (mirrors :
      Mirrors between (between.doc.endAt - 1) value start
        (List.range' start count))
    (older : id < start)
    (created : between.created = start + count)
    (grown : Grown between later (some id)) :
    Mirrors later (later.doc.endAt - 1) value start
      (List.range' start count) :=
  mirrors.grown grown (away_range older created) (Nat.sub_le _ _)
    (Nat.sub_le_sub_right grown.endAt 1)

theorem range'_cons_append (start first second : Nat) :
    start :: (List.range' (start + 1) first ++
        List.range' (start + 1 + first) second) =
      List.range' start (1 + (first + second)) := by
  rw [List.range'_append_1, Nat.add_comm 1, List.range'_succ]

end

/-! ## Documents without aliases -/

/-- The texts are strings of C. -/
def Strings (texts : List Scalar) : Prop :=
  ∀ text ∈ texts, 0 ∉ text.bytes

mutual

/-- A node becomes a tree of its value, as the last child of what receives it. -/
theorem builds_node (node : Written) (plain : node.aliases = 0)
    (strings : Strings node.texts)
    (anchors : Anchors)
    {yaml : YamlState}
    {id target : Nat}
    {kids : List Nat}
    {more : List Scalar}
    (sound : Sound yaml)
    (owner : Owner yaml id kids)
    (receives : Receives yaml id target)
    (room : Room yaml.doc (node.texts ++ more)) :
    ∃ later value after,
      node.resolve anchors = some (value, after) ∧
        Runs node.events yaml (some id) later (some target) ∧
          Below yaml later id (kids ++ [yaml.created]) node.begun more ∧
            Mirrors later (later.doc.endAt - 1) value yaml.created
              (List.range' yaml.created node.begun) := by
  match node with
  | .scalar anchor text =>
      have noZero := strings text List.mem_cons_self
      have isReturn := receives.scalarReturn sound owner.inside
      obtain ⟨later, runs, below, new, isText, -⟩ :=
        scalar_below sound owner room noZero isReturn anchor
      exact ⟨later, _, _, rfl, runs, below, isText, new.children, rfl⟩
  | .alias anchor => exact nomatch plain
  | .sequence anchor items =>
      obtain ⟨first, starts, begins, new, kept⟩ :=
        collection_below sound owner room
          (show Begins (.sequenceStart anchor) from trivial)
          (show _ = attach yaml (sequenceNode (some id)) _ _ from rfl)
          ⟨rfl, rfl⟩ rfl YamlType.noConfusion
      obtain ⟨later, values, after, added, resolves, runs, below, mirrors⟩ :=
        builds_items items plain strings (anchors.hide anchor) begins.sound
          new kept.yType begins.room
      have ends : Ends .sequenceEnd := trivial
      have both := collection_ends sound owner receives starts begins
        kept.parent runs below ends
      have inside : yaml.created < first.created := new.inside
      rw [Nat.add_comm 1] at both
      refine ⟨later, .sequence values, after.define anchor (.sequence values),
        ?_, both.1, both.2, ?_, added, _, below.owner.children, mirrors, ?_⟩
      · simp only [Written.resolve, resolves, Option.map_some]
      · rw [(below.grown.kept _ inside).yType, kept.yType]
        rfl
      · rw [begins.created]
        exact List.range'_succ
  | .mapping anchor entries =>
      obtain ⟨first, starts, begins, new, kept⟩ :=
        collection_below sound owner room
          (show Begins (.mappingStart anchor) from trivial)
          (show _ = attach yaml (mappingNode (some id)) _ _ from rfl)
          ⟨rfl, rfl⟩ rfl YamlType.noConfusion
      obtain ⟨later, values, after, added, resolves, runs, below, mirrors⟩ :=
        builds_entries entries plain strings (anchors.hide anchor)
          begins.sound new kept.yType begins.room
      have ends : Ends .mappingEnd := trivial
      have both := collection_ends sound owner receives starts begins
        kept.parent runs below ends
      have inside : yaml.created < first.created := new.inside
      rw [Nat.add_comm 1] at both
      refine ⟨later, .mapping values, after.define anchor (.mapping values),
        ?_, both.1, both.2, ?_, added, _, below.owner.children, mirrors, ?_⟩
      · simp only [Written.resolve, resolves, Option.map_some]
      · rw [(below.grown.kept _ inside).yType, kept.yType]
        rfl
      · rw [begins.created]
        exact List.range'_succ

theorem builds_items (items : WrittenItems) (plain : items.aliases = 0)
    (strings : Strings items.texts)
    (anchors : Anchors)
    {yaml : YamlState}
    {id : Nat}
    {kids : List Nat}
    {more : List Scalar}
    (sound : Sound yaml)
    (owner : Owner yaml id kids)
    (isSequence : (yaml.nodes id).yType = .sequence)
    (room : Room yaml.doc (items.texts ++ more)) :
    ∃ later values after added,
      items.resolve anchors = some (values, after) ∧
        Runs items.events yaml (some id) later (some id) ∧
          Below yaml later id (kids ++ added) items.begun more ∧
            MirrorsItems later (later.doc.endAt - 1) values added
              (List.range' yaml.created items.begun) := by
  match items with
  | .nil =>
      have room : Room yaml.doc more := room
      refine ⟨yaml, _, _, [], rfl, Runs.nil, ?_, rfl, rfl⟩
      rw [List.append_nil]
      exact Below.refl sound owner room
  | .cons item items =>
      rw [WrittenItems.texts, List.append_assoc] at room
      have strings := List.forall_mem_append.mp strings
      have plain := Nat.add_eq_zero_iff.mp plain
      obtain ⟨first, value, middle, resolves, runs, below, mirrors⟩ :=
        builds_node item plain.1 strings.1 anchors sound owner
          (.sequence isSequence) room
      have still : (first.nodes id).yType = .sequence := by
        rw [(below.grown.kept id owner.inside).yType, isSequence]
      obtain ⟨later, values, after, added, resolvesRest, runsRest, belowRest,
          mirrorsRest⟩ :=
        builds_items items plain.2 strings.2 middle below.sound below.owner
          still below.room
      refine ⟨later, .cons value values, after, yaml.created :: added, ?_,
        runs.append runsRest, ?_, ?_⟩
      · simp only [WrittenItems.resolve, resolves, Option.bind_some,
          resolvesRest, Option.map_some]
      · have both := below.trans belowRest
        rwa [List.append_assoc] at both
      · refine ⟨yaml.created, added, List.range' yaml.created item.begun,
          List.range' first.created items.begun, rfl, ?_, ?_, mirrorsRest⟩
        · rw [below.created, List.range'_append_1]
          rfl
        · exact mirrors_later mirrors owner.inside below.created
            belowRest.grown

theorem builds_entries (entries : WrittenEntries) (plain : entries.aliases = 0)
    (strings : Strings entries.texts)
    (anchors : Anchors)
    {yaml : YamlState}
    {id : Nat}
    {kids : List Nat}
    {more : List Scalar}
    (sound : Sound yaml)
    (owner : Owner yaml id kids)
    (isObject : (yaml.nodes id).yType = .object)
    (room : Room yaml.doc (entries.texts ++ more)) :
    ∃ later values after added,
      entries.resolve anchors = some (values, after) ∧
        Runs entries.events yaml (some id) later (some id) ∧
          Below yaml later id (kids ++ added) entries.begun more ∧
            MirrorsEntries later (later.doc.endAt - 1) values added
              (List.range' yaml.created entries.begun) := by
  match entries with
  | .nil =>
      have room : Room yaml.doc more := room
      refine ⟨yaml, _, _, [], rfl, Runs.nil, ?_, rfl, rfl⟩
      rw [List.append_nil]
      exact Below.refl sound owner room
  | .cons (.alias anchor) value entries =>
      simp only [WrittenEntries.aliases, WrittenKey.aliases] at plain
      omega
  | .cons (.scalar anchor text) value entries =>
      rw [WrittenEntries.texts, List.append_assoc, List.append_assoc] at room
      have strings := List.forall_mem_append.mp strings
      have stringsRest := List.forall_mem_append.mp strings.2
      have plain : value.aliases = 0 ∧ entries.aliases = 0 := by
        simp only [WrittenEntries.aliases, WrittenKey.aliases] at plain
        omega
      have noZero := strings.1 text List.mem_cons_self
      have isReturn : scalarReturn yaml id = some yaml.created := by
        rw [scalarReturn, isObject]
      obtain ⟨first, runsKey, belowKey, new, isText, isParent⟩ :=
        scalar_below sound owner room noZero isReturn anchor
      have ownerFirst := belowKey.owner.inside
      have isObjectFirst : (first.nodes id).yType = .object := by
        rw [(belowKey.grown.kept id owner.inside).yType, isObject]
      obtain ⟨second, item, middle, resolves, runs, below, mirrors⟩ :=
        builds_node value plain.1 stringsRest.1
          (anchors.define anchor (.scalar text.bytes)) belowKey.sound new
          (.key isText.yType isParent isObjectFirst) belowKey.room
      have belowBoth :=
        belowKey.trans_new sound owner.inside (Nat.le_refl _) below
      have isObjectSecond : (second.nodes id).yType = .object := by
        rw [(below.grown.kept id ownerFirst).yType, isObjectFirst]
      obtain ⟨later, values, after, added, resolvesRest, runsRest, belowRest,
          mirrorsRest⟩ :=
        builds_entries entries plain.2 stringsRest.2 middle below.sound
          belowBoth.owner isObjectSecond below.room
      have isNew : yaml.created < first.created := new.inside
      have notNew : some yaml.created ≠ some id := fun same => by
        have := Option.some.inj same
        have := owner.inside
        omega
      refine ⟨later, .cons text.bytes item values, after,
        yaml.created :: added, ?_,
        runsKey.append (runs.append runsRest), ?_, yaml.created,
        first.created, added, List.range' first.created value.begun,
        List.range' second.created entries.begun, rfl, ?_, ?_, ?_, ?_,
        mirrorsRest⟩
      · simp only [WrittenEntries.resolve, WrittenKey.resolve, resolves,
          resolvesRest, Option.bind_some, Option.map_some]
      · have all := belowBoth.trans belowRest
        rwa [List.append_assoc, Nat.add_assoc] at all
      · rw [below.created, belowKey.created, range'_cons_append]
        rfl
      · refine IsText.grown ?_ belowRest.grown below.owner.inside
          (Nat.sub_le _ _) (Nat.sub_le_sub_right belowRest.grown.endAt 1)
        exact isText.grown below.grown isNew (Nat.sub_le _ _)
          (Nat.sub_le_sub_right below.grown.endAt 1)
      · exact (below.owner.grown belowRest.grown notNew).children
      · exact mirrors_later mirrors ownerFirst below.created belowRest.grown

end

/-! ## The root -/

/-- The state in which parsing begins. -/
def start (doc : YamlDoc) : YamlState where
  doc := doc
  nodes _ := newNode none
  created := 0

theorem sound_start (doc : YamlDoc) : Sound (start doc) :=
  ⟨nofun, nofun⟩

theorem going_start (room : Room doc texts) :
    Going (start doc) none 0 (texts ++ []) :=
  ⟨sound_start doc, nofun, .top, by rwa [List.append_nil]⟩

theorem popScalars_none (nodes : Nat → YamlNode) (bound : Nat) :
    popScalars nodes bound none = none := by
  cases bound <;> rfl

/-- A run over the events of the root is what parsing does. -/
theorem parse_of_runs {later : YamlState} {after : Option Nat}
    (runs : Runs document.root.events (start doc) none later after) :
    ymoYamlParse document.events doc = .returned later .okay := by
  show parseLoop (document.root.events ++ [.documentEnd, .streamEnd])
    (start doc) none = _
  rw [runs]
  rfl

/-- The root is node 0. -/
structure Rooted
    (doc : YamlDoc)
    (texts : List Scalar)
    (node : YamlNode)
    (begin : YamlEvent)
    (first : YamlState) : Prop where
  runs : Runs [begin] (start doc) none first (some 0)
  sound : Sound first
  owner : Owner first 0 []
  room : Room first.doc texts
  kept : Kept node (first.nodes 0)
  root : first.doc.root = some 0
  created : first.created = 1

theorem root_begins
    (room : Room doc texts)
    (noRoot : doc.root = none)
    {begin : YamlEvent}
    (begins : Begins begin)
    (isCreate :
      ymoYamlNodeCreate (start doc) none begin =
        attach (start doc) node doc.endAt (some 0))
    (leaf : node.next = none ∧ node.child = none)
    (isParent : node.parent = none)
    (ordinary : node.yType ≠ .error) :
    ∃ first, Rooted doc texts node begin first := by
  have runs := runs_create begins (congrArg Created.node isCreate)
  rw [isCreate] at runs
  have kept := attach_kept_new (start doc) node doc.endAt (some 0)
  have isNode :
      (attach (start doc) node doc.endAt (some 0)).yaml.nodes 0 = node := by
    simp only [attach, isParent, linkChild]
    exact Function.update_self ..
  have noKid (kid : Nat) : kid ∉ [] := List.not_mem_nil
  refine ⟨_, runs, ?_, ⟨Nat.one_pos, ?_, ?_, ?_⟩, ?_, kept, ?_, rfl⟩
  · refine (sound_start doc).attach (fun parent same => ?_) ordinary _ _
    exact absurd (same.symm.trans isParent) (Option.some_ne_none parent)
  · exact fun kid member => absurd member (noKid kid)
  · rw [isNode, leaf.2]
    exact .nil
  · exact fun kid member => absurd member (noKid kid)
  · exact room.congr rfl rfl rfl
  · simp only [attach, start, noRoot, Option.none_or]

/-- The events of the root end with a tree at node 0. -/
theorem root_ends {begin finish : YamlEvent} {first later : YamlState}
    {added : List Nat}
    {events : List YamlEvent}
    {begun : Nat}
    (rooted : Rooted doc texts node begin first)
    (isParent : node.parent = none)
    (runs : Runs events first (some 0) later (some 0))
    (below : Below first later 0 added begun [])
    (ends : Ends finish)
    {value : Value}
    (mirrors :
      Mirrors later (later.doc.endAt - 1) value 0 (0 :: List.range' 1 begun)) :
    Runs (begin :: (events ++ [finish])) (start doc) none later none ∧
      later.doc.root = some 0 ∧ TreeAt later value 0 := by
  have inside : 0 < first.created := rooted.owner.inside
  have finishes := @runs_end later finish ends 0
  rw [(below.grown.kept 0 inside).parent, rooted.kept.parent, isParent,
    popScalars_none] at finishes
  have isRange : 0 :: List.range' 1 begun = List.range' 0 (begun + 1) := by
    rw [List.range'_succ]
  rw [isRange] at mirrors
  have created : ∀ id ∈ List.range' 0 (begun + 1), id < later.created := by
    intro id member
    rw [below.created, rooted.created]
    rw [List.mem_range'_1] at member
    omega
  refine ⟨rooted.runs.cons (runs.append finishes),
    below.grown.root 0 rooted.root, List.range' 0 (begun + 1), ?_,
    List.nodup_range', created⟩
  have limit := below.room.inside
  refine mirrors.grown (Grown.refl later none) ?_ (Nat.sub_le _ _) ?_
  · exact fun id member => ⟨created id member, nofun⟩
  · simp only [List.map_nil, List.sum_nil] at limit
    omega

/-- The tree of a document without aliases is built. -/
theorem builds_root (room : Room doc document.root.texts)
    (noRoot : doc.root = none)
    (plain : document.root.aliases = 0)
    (strings : Strings document.root.texts) :
    ∃ later value,
      document.value = some value ∧
        Runs document.root.events (start doc) none later none ∧
          later.doc.root = some 0 ∧ TreeAt later value 0 := by
  obtain ⟨root, collection⟩ := document
  match root with
  | .sequence anchor items =>
      rw [← List.append_nil (Written.texts _)] at room
      obtain ⟨first, rooted⟩ :=
        root_begins room noRoot
          (show Begins (.sequenceStart anchor) from trivial)
          (show _ = attach (start doc) (sequenceNode none) _ _ from rfl)
          ⟨rfl, rfl⟩ rfl YamlType.noConfusion
      obtain ⟨later, values, after, added, resolves, runs, below, mirrors⟩ :=
        builds_items items plain strings
          (Anchors.hide (fun _ => none) anchor) rooted.sound rooted.owner
          rooted.kept.yType rooted.room
      have inside : 0 < first.created := rooted.owner.inside
      rw [rooted.created] at mirrors
      have ends : Ends .sequenceEnd := trivial
      refine ⟨later, .sequence values, ?_,
        root_ends rooted rfl runs below ends
          ⟨?_, added, _, below.owner.children, mirrors, rfl⟩⟩
      · simp only [Document.value, Written.resolve, resolves, Option.map_some]
      · rw [(below.grown.kept 0 inside).yType, rooted.kept.yType]
        rfl
  | .mapping anchor entries =>
      rw [← List.append_nil (Written.texts _)] at room
      obtain ⟨first, rooted⟩ :=
        root_begins room noRoot
          (show Begins (.mappingStart anchor) from trivial)
          (show _ = attach (start doc) (mappingNode none) _ _ from rfl)
          ⟨rfl, rfl⟩ rfl YamlType.noConfusion
      obtain ⟨later, values, after, added, resolves, runs, below, mirrors⟩ :=
        builds_entries entries plain strings
          (Anchors.hide (fun _ => none) anchor) rooted.sound rooted.owner
          rooted.kept.yType rooted.room
      have inside : 0 < first.created := rooted.owner.inside
      rw [rooted.created] at mirrors
      have ends : Ends .mappingEnd := trivial
      refine ⟨later, .mapping values, ?_,
        root_ends rooted rfl runs below ends
          ⟨?_, added, _, below.owner.children, mirrors, rfl⟩⟩
      · simp only [Document.value, Written.resolve, resolves, Option.map_some]
      · rw [(below.grown.kept 0 inside).yType, rooted.kept.yType]
        rfl
  | .scalar anchor text => exact collection.elim
  | .alias anchor => exact collection.elim

/-! ## Which documents are built -/

/-- The nodes are a tree that mirrors the document, and a key is looked up in it. -/
structure Builds (document : Document) (yaml : YamlState) : Prop where
  tree :
    ∃ value root,
      document.value = some value ∧ yaml.doc.root = some root ∧
        TreeAt yaml value root
  gets :
    ∀ entries id, TreeAt yaml (.mapping entries) id →
      ∀ key,
        Option.Rel (TreeAt yaml) (entries.get key)
          (ymoYamlObjectGet yaml (some id) key).node

/-- Parsing returns, and it fails or builds the tree. -/
def FailsOrBuilds (document : Document) (doc : YamlDoc) : Prop :=
  ∃ yaml status,
    ymoYamlParse document.events doc = .returned yaml status ∧
      (status ≠ .okay ∨ Builds document yaml)

theorem builds_of_plain (room : Room doc document.root.texts)
    (noRoot : doc.root = none)
    (plain : document.root.aliases = 0)
    (strings : Strings document.root.texts) :
    FailsOrBuilds document doc := by
  obtain ⟨later, value, isValue, runs, isRoot, tree⟩ :=
    builds_root room noRoot plain strings
  refine ⟨later, .okay, parse_of_runs runs, .inr ?_⟩
  exact ⟨⟨value, 0, isValue, isRoot, tree⟩, fun _ _ => TreeAt.object_get⟩

/-- A tree needs more nodes than are created, if there is an alias. -/
theorem plain_of_builds (room : Room doc document.root.texts)
    (built : FailsOrBuilds document doc) :
    document.root.aliases = 0 ∧ Strings document.root.texts := by
  obtain ⟨yaml, status, isParse, result⟩ := built
  obtain ⟨later, after, higher, runs, -, -, created⟩ :=
    proceeds_node document.root (going_start room) (.inr document.collection)
  rw [parse_of_runs runs] at isParse
  cases isParse
  obtain ⟨⟨value, root, isValue, -, ids, mirrors, distinct, inside⟩, -⟩ :=
    result.resolve_left (not_not_intro rfl)
  simp only [Document.value, Option.map_eq_some_iff] at isValue
  obtain ⟨⟨_, anchors⟩, resolves, rfl⟩ := isValue
  have parts := document.root.size_le resolves
  have enough := length_le_of_inside distinct inside
  rw [mirrors.length_eq, created] at enough
  have plain : document.root.aliases = 0 := by
    simp only [start] at enough
    omega
  refine ⟨plain, fun text member => ?_⟩
  have texts := document.root.texts_eq resolves plain
  refine mirrors.noZero text.bytes ?_
  rw [texts]
  exact List.mem_map_of_mem member

theorem parse_builds_iff {fresh : Memory} {fSize : UInt64} {doc : YamlDoc}
    (isDoc : ymoYamlDocCreate fresh fSize = some doc)
    (document : Document)
    (fits : Room doc document.root.texts) :
    FailsOrBuilds document doc ↔
      document.root.aliases = 0 ∧ Strings document.root.texts := by
  have noRoot : doc.root = none := by
    unfold ymoYamlDocCreate at isDoc
    split at isDoc
    · exact nomatch isDoc
    · cases isDoc
      rfl
  exact ⟨plain_of_builds fits,
    fun condition => builds_of_plain fits noRoot condition.1 condition.2⟩

/-! ## A mapping with a sequence, and one with an alias -/

/-- `{a: [b, c], d: e}`. -/
def pathDocument : Document where
  root :=
    .mapping none
      (.cons (.scalar none (.single 97))
        (.sequence none
          (.cons (.scalar none (.single 98))
            (.cons (.scalar none (.single 99)) .nil)))
        (.cons (.scalar none (.single 100)) (.scalar none (.single 101)) .nil))
  collection := trivial

/-- `{a: &x 1, b: *x, c: d}`. -/
def aliasDocument : Document where
  root :=
    .mapping none
      (.cons (.scalar none (.single 97))
        (.scalar (some [120]) (.single 49))
        (.cons (.scalar none (.single 98)) (.alias [120])
          (.cons (.scalar none (.single 99))
            (.scalar none (.single 100)) .nil)))
  collection := trivial

/-- A new document for a file of some bytes. -/
def newDoc (fSize : UInt64) : YamlDoc where
  len := fSize + 1
  buffer := store (fun _ => 0) fSize.toNat 0
  root := none
  remain := fSize + 1
  endAt := 0

theorem room_pathDocument : Room (newDoc 20) pathDocument.root.texts :=
  ⟨by decide, by decide⟩

theorem strings_pathDocument : Strings pathDocument.root.texts := by
  show ∀ text ∈ pathDocument.root.texts, 0 ∉ text.bytes
  decide

theorem path_is_built :
    ymoYamlDocCreate (fun _ => 0) 20 = some (newDoc 20) ∧
      Room (newDoc 20) pathDocument.root.texts ∧
        FailsOrBuilds pathDocument (newDoc 20) := by
  have isDoc : ymoYamlDocCreate (fun _ => 0) 20 = some (newDoc 20) := rfl
  refine ⟨isDoc, room_pathDocument, ?_⟩
  exact
    (parse_builds_iff isDoc pathDocument room_pathDocument).mpr
      ⟨rfl, strings_pathDocument⟩

/-- The key `c` becomes the value of `b`, and is not found as a key. -/
theorem alias_shifts_keys :
    ymoYamlDocCreate (fun _ => 0) 22 = some (newDoc 22) ∧
      Room (newDoc 22) aliasDocument.root.texts ∧
        ¬FailsOrBuilds aliasDocument (newDoc 22) ∧
          ∃ yaml,
            ymoYamlParse aliasDocument.events (newDoc 22) =
                .returned yaml .okay ∧
              (ymoYamlObjectGet yaml yaml.doc.root [98]).node = some 4 ∧
                nodeString yaml (yaml.nodes 4).value = some [99] ∧
                  (ymoYamlObjectGet yaml yaml.doc.root [99]).node = none := by
  have room : Room (newDoc 22) aliasDocument.root.texts :=
    ⟨by decide, by decide⟩
  refine ⟨rfl, room, fun built => ?_, _, rfl, rfl, rfl, rfl⟩
  exact nomatch (plain_of_builds room built).1

end Yimmo.Core.YamlParse
