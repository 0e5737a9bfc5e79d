import Mathlib.Algebra.Order.BigOperators.Group.List
import Yimmo.Core.YamlDocuments

/-!
# Runs of the YAML parser

The parser keeps one node, the parent of the next one, and an event takes it from
one state to another.  `Runs` composes such steps along a list of events.

The level of a node counts the collections above it and with it, and skips the
keys in between.  Whatever the aliases of a document do to its keys and values, the
events of a node never take the parser below the level at which they begin.  So no
pointer is null where it is read, a scalar always has a parent, and a document
whose scalars fit is parsed to its end.
-/

namespace Yimmo.Core.YamlRuns

open Yimmo.Core.StatusCode
open Yimmo.Core.Yaml
open Yimmo.Core.YamlDocuments

/-! ## Runs -/

/-- The events take the loop from one state to the other. -/
def Runs (events : List YamlEvent) (yaml : YamlState) (parent : Option Nat)
    (later : YamlState)
    (after : Option Nat) : Prop :=
  ∀ rest, parseLoop (events ++ rest) yaml parent = parseLoop rest later after

section

variable
  {yaml between later : YamlState}
  {parent middle after : Option Nat}

theorem Runs.nil : Runs [] yaml parent yaml parent :=
  fun _ => rfl

theorem Runs.append {events more : List YamlEvent}
    (runs : Runs events yaml parent between middle)
    (goesOn : Runs more between middle later after) :
    Runs (events ++ more) yaml parent later after := by
  intro rest
  rw [List.append_assoc, runs, goesOn]

theorem Runs.cons {event : YamlEvent} {more : List YamlEvent}
    (runs : Runs [event] yaml parent between middle)
    (goesOn : Runs more between middle later after) :
    Runs (event :: more) yaml parent later after :=
  runs.append goesOn

theorem runs_alias (anchor : Bytes) :
    Runs [.alias anchor] yaml parent yaml parent :=
  fun _ => rfl

/-- The event begins a node. -/
def Begins : YamlEvent → Prop
  | .scalar _ _ => True
  | .sequenceStart _ => True
  | .mappingStart _ => True
  | _ => False

theorem runs_create {event : YamlEvent} (begins : Begins event) {node : Nat}
    (created : (ymoYamlNodeCreate yaml parent event).node = some node) :
    Runs [event] yaml parent (ymoYamlNodeCreate yaml parent event).yaml
      (some node) := by
  intro rest
  cases event with
  | scalar anchor text | sequenceStart anchor | mappingStart anchor =>
      simp only [List.singleton_append, parseLoop, created]
  | _ => exact begins.elim

/-- The event ends a collection. -/
def Ends : YamlEvent → Prop
  | .sequenceEnd => True
  | .mappingEnd => True
  | _ => False

theorem runs_end {event : YamlEvent} (ends : Ends event) (id : Nat) :
    Runs [event] yaml (some id) yaml
      (popScalars yaml.nodes yaml.created (yaml.nodes id).parent) := by
  intro rest
  cases event with
  | sequenceEnd | mappingEnd => simp only [List.singleton_append, parseLoop]
  | _ => exact ends.elim

end

/-! ## Room for scalars -/

/-- The scalars are accepted, and their strings lie in the buffer. -/
structure Room (doc : YamlDoc) (texts : List Scalar) : Prop where
  accepted :
    (texts.map fun text => text.bytes.length + 1).sum < doc.remain.toNat
  inside :
    doc.endAt + (texts.map fun text => text.bytes.length + 2).sum ≤
      doc.len.toNat + 1

/-- The document after a scalar is stored. -/
def afterScalar (doc : YamlDoc) (text : Scalar) : YamlDoc :=
  { storeScalar doc text with
    endAt := doc.endAt + (text.length + 1).toNat + 1 }

section

variable
  {doc : YamlDoc}
  {text : Scalar}
  {texts : List Scalar}

theorem Room.small (room : Room doc (text :: texts)) :
    text.length + 1 < doc.remain := by
  have accepted := room.accepted
  rw [List.map_cons, List.sum_cons] at accepted
  rw [UInt64.lt_iff_toNat_lt, Scalar.size_toNat]
  omega

theorem Room.tail (room : Room doc (text :: texts)) :
    Room (afterScalar doc text) texts := by
  have small := UInt64.lt_iff_toNat_lt.mp room.small
  have accepted := room.accepted
  have inside := room.inside
  rw [List.map_cons, List.sum_cons] at accepted inside
  have remain : (afterScalar doc text).remain.toNat =
      doc.remain.toNat - (text.bytes.length + 1) := by
    rw [← Scalar.size_toNat]
    exact UInt64.toNat_sub_of_le _ _ (Nat.le_of_lt small)
  have endAt : (afterScalar doc text).endAt =
      doc.endAt + text.bytes.length + 2 := by
    simp only [afterScalar, Scalar.size_toNat]
    omega
  have len : (afterScalar doc text).len = doc.len := rfl
  exact ⟨by omega, by rw [endAt, len]; omega⟩

/-- Only the lengths and the places count. -/
theorem Room.congr {later : YamlDoc} (room : Room doc texts)
    (remain : later.remain = doc.remain)
    (endAt : later.endAt = doc.endAt)
    (len : later.len = doc.len) :
    Room later texts where
  accepted := by
    rw [remain]
    exact room.accepted
  inside := by
    rw [endAt, len]
    exact room.inside

end

/-! ## Nodes that are well made -/

/-- Parents are older than their children, and no node is an error. -/
structure Sound (yaml : YamlState) : Prop where
  older :
    ∀ id < yaml.created, ∀ parent,
      (yaml.nodes id).parent = some parent → parent < id
  ordinary : ∀ id < yaml.created, (yaml.nodes id).yType ≠ .error

/-- The node is a created one, if there is a node. -/
def Valid (yaml : YamlState) (node : Option Nat) : Prop :=
  ∀ id, node = some id → id < yaml.created

theorem Sound.attach {yaml : YamlState} (sound : Sound yaml) {node : YamlNode}
    (valid : Valid yaml node.parent)
    (ordinary : node.yType ≠ .error)
    (endAt : Nat)
    (rNode : Option Nat) :
    Sound (attach yaml node endAt rNode).yaml := by
  have new := attach_kept_new yaml node endAt rNode
  have old (id : Nat) := @attach_kept_old yaml node endAt rNode id
  constructor
  · intro id inside parent isParent
    rcases Nat.lt_succ_iff_lt_or_eq.mp inside with before | rfl
    · rw [(old id before).parent] at isParent
      exact sound.older id before parent isParent
    · rw [new.parent] at isParent
      exact valid parent isParent
  · intro id inside
    rcases Nat.lt_succ_iff_lt_or_eq.mp inside with before | rfl
    · rw [(old id before).yType]
      exact sound.ordinary id before
    · rw [new.yType]
      exact ordinary

/-! ## Levels -/

/-- The number of collections on the way up from a node. -/
inductive Level (nodes : Nat → YamlNode) : Option Nat → Nat → Prop where
  | top : Level nodes none 0
  | scalar
      {id level : Nat}
      (isScalar : (nodes id).yType = .scalar)
      (up : Level nodes (nodes id).parent level) :
      Level nodes (some id) level
  | collection
      {id level : Nat}
      (notScalar : (nodes id).yType ≠ .scalar)
      (up : Level nodes (nodes id).parent level) :
      Level nodes (some id) (level + 1)

section

variable
  {yaml : YamlState}
  {node : Option Nat}
  {level : Nat}

theorem Level.kept (leveled : Level yaml.nodes node level) (sound : Sound yaml)
    (valid : Valid yaml node)
    {later : Nat → YamlNode}
    (kept : ∀ id < yaml.created, Kept (yaml.nodes id) (later id)) :
    Level later node level := by
  have validUp (id : Nat) (inside : id < yaml.created) :
      Valid yaml (yaml.nodes id).parent := fun parent isParent =>
    Nat.lt_trans (sound.older id inside parent isParent) inside
  induction leveled with
  | top => exact .top
  | @scalar id level isScalar up ih =>
      have inside := valid id rfl
      have same := kept id inside
      refine .scalar (by rw [same.yType, isScalar]) ?_
      rw [same.parent]
      exact ih (validUp id inside)
  | @collection id level notScalar up ih =>
      have inside := valid id rfl
      have same := kept id inside
      refine .collection (by rwa [same.yType]) ?_
      rw [same.parent]
      exact ih (validUp id inside)

/-- Popping scalars keeps the level, and ends at a collection. -/
theorem Level.popScalars (leveled : Level yaml.nodes node level)
    (sound : Sound yaml)
    (valid : Valid yaml node)
    {bound : Nat}
    (enough : ∀ id, node = some id → id < bound) :
    Level yaml.nodes (Yaml.popScalars yaml.nodes bound node) level ∧
      Valid yaml (Yaml.popScalars yaml.nodes bound node) := by
  induction bound generalizing node with
  | zero => exact ⟨leveled, valid⟩
  | succ bound ih =>
      cases leveled with
      | top => exact ⟨.top, valid⟩
      | @scalar id _ isScalar up =>
          have inside := valid id rfl
          have older := sound.older id inside
          rw [Yaml.popScalars, if_pos isScalar]
          refine ih up (fun parent isParent => ?_) fun parent isParent => ?_
          · exact Nat.lt_trans (older parent isParent) inside
          · exact Nat.lt_of_lt_of_le (older parent isParent)
              (Nat.le_of_lt_succ (enough id rfl))
      | @collection id level notScalar up =>
          rw [Yaml.popScalars, if_neg notScalar]
          exact ⟨.collection notScalar up, valid⟩

theorem Level.exists_node (leveled : Level yaml.nodes node level)
    (positive : 0 < level) :
    ∃ id, node = some id := by
  cases leveled with
  | top => exact absurd positive (Nat.lt_irrefl 0)
  | @scalar id _ isScalar up => exact ⟨id, rfl⟩
  | @collection id _ notScalar up => exact ⟨id, rfl⟩

end

/-! ## Creating a scalar -/

/-- The node that a scalar makes. -/
def scalarNode (yaml : YamlState) (owner : Nat) : YamlNode :=
  { newNode (some owner) with
    yType := .scalar
    value := .text yaml.doc.endAt
    terminal := if (yaml.nodes owner).yType = .object then ":" else "" }

/-- The parent of what follows a scalar. -/
def scalarReturn (yaml : YamlState) (owner : Nat) : Option Nat :=
  match (yaml.nodes owner).yType with
  | .error => none
  | .scalar => popScalars yaml.nodes yaml.created (some owner)
  | .sequence => some owner
  | .object => some yaml.created

def stored (yaml : YamlState) (text : Scalar) : YamlState :=
  { yaml with doc := storeScalar yaml.doc text }

theorem createScalar_eq {yaml : YamlState} {owner : Nat}
    (ordinary : (yaml.nodes owner).yType ≠ .error)
    {text : Scalar}
    (small : text.length + 1 < yaml.doc.remain) :
    createScalar yaml (some owner) text =
      attach (stored yaml text) (scalarNode yaml owner)
        (afterScalar yaml.doc text).endAt (scalarReturn yaml owner) := by
  rw [createScalar]
  dsimp only
  rw [if_pos small]
  cases yType : (yaml.nodes owner).yType with
  | error => exact absurd yType ordinary
  | scalar | sequence | object =>
      simp only [scalarNode, scalarReturn, yType, reduceCtorEq, if_true,
        if_false]
      rfl

/-! ## Every document is parsed to its end -/

/-- The parser is at a level, and there is room for the scalars that follow. -/
structure Going
    (yaml : YamlState)
    (parent : Option Nat)
    (level : Nat)
    (more : List Scalar) : Prop where
  sound : Sound yaml
  valid : Valid yaml parent
  leveled : Level yaml.nodes parent level
  room : Room yaml.doc more

/-- The events take the parser to the same level or a higher one, and create a
number of nodes. -/
def Proceeds (events : List YamlEvent) (begun : Nat) (yaml : YamlState)
    (parent : Option Nat)
    (level : Nat)
    (more : List Scalar) : Prop :=
  ∃ later after higher,
    Runs events yaml parent later after ∧ level ≤ higher ∧
      Going later after higher more ∧
        later.created = yaml.created + begun

section

variable
  {yaml : YamlState}
  {parent : Option Nat}
  {level : Nat}
  {more : List Scalar}

theorem Proceeds.append {events others : List YamlEvent}
    {begun alsoBegun : Nat}
    {between : List Scalar}
    (proceeds : Proceeds events begun yaml parent level between)
    (goesOn :
      ∀ later after higher, level ≤ higher →
        Going later after higher between →
          Proceeds others alsoBegun later after higher more) :
    Proceeds (events ++ others) (begun + alsoBegun) yaml parent level
      more := by
  obtain ⟨middle, after, higher, runs, rises, going, created⟩ := proceeds
  obtain ⟨later, last, top, runsOn, risesOn, goingOn, createdOn⟩ :=
    goesOn middle after higher rises going
  exact ⟨later, last, top, runs.append runsOn,
    Nat.le_trans rises risesOn, goingOn, by omega⟩

theorem proceeds_alias (going : Going yaml parent level more)
    (anchor : Bytes) :
    Proceeds [.alias anchor] 0 yaml parent level more :=
  ⟨yaml, parent, level, runs_alias anchor, Nat.le_refl _, going, rfl⟩

/-- What follows a scalar has a parent, at the same level. -/
theorem scalarReturn_leveled {owner : Nat}
    (going : Going yaml (some owner) level more)
    (positive : 0 < level)
    {later : Nat → YamlNode}
    (old : ∀ id < yaml.created, Kept (yaml.nodes id) (later id))
    (new : Kept (scalarNode yaml owner) (later yaml.created)) :
    ∃ id, scalarReturn yaml owner = some id ∧ id < yaml.created + 1 ∧
      Level later (some id) level := by
  have inside := going.valid owner rfl
  have here := going.leveled.kept going.sound going.valid old
  cases yType : (yaml.nodes owner).yType with
  | error => exact absurd yType (going.sound.ordinary owner inside)
  | sequence =>
      exact ⟨owner, by rw [scalarReturn, yType],
        Nat.lt_succ_of_lt inside, here⟩
  | object =>
      refine ⟨yaml.created, by rw [scalarReturn, yType],
        Nat.lt_succ_self _, .scalar new.yType ?_⟩
      rw [new.parent]
      exact here
  | scalar =>
      have popped := going.leveled.popScalars going.sound going.valid
        going.valid
      obtain ⟨id, isNode⟩ := popped.1.exists_node positive
      refine ⟨id, by rw [scalarReturn, yType]; exact isNode,
        Nat.lt_succ_of_lt (popped.2 id isNode), ?_⟩
      rw [← isNode]
      exact popped.1.kept going.sound popped.2 old

theorem proceeds_scalar {text : Scalar}
    (going : Going yaml parent level (text :: more))
    (positive : 0 < level)
    (anchor : Option Bytes) :
    Proceeds [.scalar anchor text] 1 yaml parent level more := by
  obtain ⟨owner, rfl⟩ := going.leveled.exists_node positive
  have ordinary := going.sound.ordinary owner (going.valid owner rfl)
  have isCreate : ymoYamlNodeCreate yaml (some owner) (.scalar anchor text) =
      attach (stored yaml text) (scalarNode yaml owner)
        (afterScalar yaml.doc text).endAt (scalarReturn yaml owner) :=
    createScalar_eq ordinary going.room.small
  have new := attach_kept_new (stored yaml text) (scalarNode yaml owner)
    (afterScalar yaml.doc text).endAt (scalarReturn yaml owner)
  have old (id : Nat) := @attach_kept_old (stored yaml text)
    (scalarNode yaml owner) (afterScalar yaml.doc text).endAt
    (scalarReturn yaml owner) id
  obtain ⟨id, isReturn, inside, leveled⟩ :=
    scalarReturn_leveled going positive old new
  have sound : Sound (stored yaml text) :=
    ⟨going.sound.older, going.sound.ordinary⟩
  have begins : Begins (.scalar anchor text) := trivial
  have runs := runs_create begins ((congrArg _ isCreate).trans isReturn)
  rw [isCreate] at runs
  refine ⟨_, some id, level, runs, Nat.le_refl _, ⟨?_, ?_, leveled, ?_⟩, rfl⟩
  · refine sound.attach ?_ ?_ _ _
    · exact going.valid
    · exact fun wrong => YamlType.noConfusion wrong
  · intro other same
    rw [← Option.some.inj same]
    exact inside
  · exact going.room.tail.congr rfl rfl rfl

/-- A collection begins one level up, and ends on its own. -/
theorem proceeds_collection {begin finish : YamlEvent} {node : YamlNode}
    (isCreate :
      ymoYamlNodeCreate yaml parent begin =
        attach yaml node yaml.doc.endAt (some yaml.created))
    (begins : Begins begin)
    (ends : Ends finish)
    (isParent : node.parent = parent)
    (isCollection : node.yType ≠ .scalar ∧ node.yType ≠ .error)
    {texts : List Scalar}
    (going : Going yaml parent level texts)
    {events : List YamlEvent}
    {begun : Nat}
    (inner :
      ∀ later after higher, level + 1 ≤ higher →
        Going later after higher texts →
          Proceeds events begun later after higher more) :
    Proceeds (begin :: (events ++ [finish])) (begun + 1) yaml parent level
      more := by
  have new := attach_kept_new yaml node yaml.doc.endAt (some yaml.created)
  have old (id : Nat) := @attach_kept_old yaml node yaml.doc.endAt
    (some yaml.created) id
  have starts := runs_create begins (congrArg Created.node isCreate)
  rw [isCreate] at starts
  have valid : Valid yaml node.parent := by
    rw [isParent]
    exact going.valid
  have inside : Going (attach yaml node yaml.doc.endAt
      (some yaml.created)).yaml (some yaml.created) (level + 1) texts := by
    refine ⟨going.sound.attach valid isCollection.2 _ _, ?_, ?_, ?_⟩
    · intro other same
      rw [← Option.some.inj same]
      exact Nat.lt_succ_self _
    · refine .collection (by rw [new.yType]; exact isCollection.1) ?_
      rw [new.parent, isParent]
      exact going.leveled.kept going.sound going.valid old
    · exact going.room.congr rfl rfl rfl
  obtain ⟨later, after, higher, runs, rises, goesOn, created⟩ :=
    inner _ _ _ (Nat.le_refl _) inside
  obtain ⟨id, rfl⟩ := goesOn.leveled.exists_node (by omega)
  have validUp : Valid later (later.nodes id).parent :=
    fun up isUp => Nat.lt_trans
      (goesOn.sound.older id (goesOn.valid id rfl) up isUp)
      (goesOn.valid id rfl)
  have leveledUp : ∃ lower, level ≤ lower ∧
      Level later.nodes (later.nodes id).parent lower := by
    cases goesOn.leveled with
    | scalar isScalar up => exact ⟨higher, by omega, up⟩
    | @collection _ lower notScalar up => exact ⟨lower, by omega, up⟩
  obtain ⟨lower, above, leveled⟩ := leveledUp
  have popped := leveled.popScalars goesOn.sound validUp validUp
  refine ⟨later, _, lower, starts.cons (runs.append (runs_end ends id)),
    above, ⟨goesOn.sound, popped.2, popped.1, goesOn.room⟩, ?_⟩
  rw [created]
  exact Nat.add_right_comm _ _ _

/-- The node that begins a sequence. -/
def sequenceNode (parent : Option Nat) : YamlNode :=
  { newNode parent with
    yType := .sequence
    value := .literal "["
    terminal := "]" }

/-- The node that begins a mapping. -/
def mappingNode (parent : Option Nat) : YamlNode :=
  { newNode parent with
    yType := .object
    value := .literal "\x7b"
    terminal := "\x7d" }

theorem proceeds_sequence {texts : List Scalar}
    (going : Going yaml parent level texts)
    (anchor : Option Bytes)
    {events : List YamlEvent}
    {begun : Nat}
    (inner :
      ∀ later after higher, level + 1 ≤ higher →
        Going later after higher texts →
          Proceeds events begun later after higher more) :
    Proceeds (.sequenceStart anchor :: (events ++ [.sequenceEnd]))
      (begun + 1) yaml parent level more := by
  have isCreate : ymoYamlNodeCreate yaml parent (.sequenceStart anchor) =
      attach yaml (sequenceNode parent) yaml.doc.endAt
        (some yaml.created) := rfl
  have begins : Begins (.sequenceStart anchor) := trivial
  have ends : Ends .sequenceEnd := trivial
  exact proceeds_collection isCreate begins ends rfl
    ⟨YamlType.noConfusion, YamlType.noConfusion⟩ going inner

theorem proceeds_mapping {texts : List Scalar}
    (going : Going yaml parent level texts)
    (anchor : Option Bytes)
    {events : List YamlEvent}
    {begun : Nat}
    (inner :
      ∀ later after higher, level + 1 ≤ higher →
        Going later after higher texts →
          Proceeds events begun later after higher more) :
    Proceeds (.mappingStart anchor :: (events ++ [.mappingEnd]))
      (begun + 1) yaml parent level more := by
  have isCreate : ymoYamlNodeCreate yaml parent (.mappingStart anchor) =
      attach yaml (mappingNode parent) yaml.doc.endAt
        (some yaml.created) := rfl
  have begins : Begins (.mappingStart anchor) := trivial
  have ends : Ends .mappingEnd := trivial
  exact proceeds_collection isCreate begins ends rfl
    ⟨YamlType.noConfusion, YamlType.noConfusion⟩ going inner

end

mutual

/-- The events of a node are never too few for the ends among them. -/
theorem proceeds_node (node : Written) {yaml : YamlState} {parent : Option Nat}
    {level : Nat}
    {more : List Scalar}
    (going : Going yaml parent level (node.texts ++ more))
    (placed : 0 < level ∨ node.Collection) :
    Proceeds node.events node.begun yaml parent level more := by
  match node with
  | .scalar anchor text =>
      have positive : 0 < level := placed.resolve_right id
      exact proceeds_scalar going positive anchor
  | .alias anchor => exact proceeds_alias going anchor
  | .sequence anchor items =>
      refine proceeds_sequence going anchor fun later after higher rises => ?_
      exact fun goesOn => proceeds_items items goesOn (by omega)
  | .mapping anchor entries =>
      refine proceeds_mapping going anchor fun later after higher rises => ?_
      exact fun goesOn => proceeds_entries entries goesOn (by omega)

theorem proceeds_items (items : WrittenItems) {yaml : YamlState}
    {parent : Option Nat}
    {level : Nat}
    {more : List Scalar}
    (going : Going yaml parent level (items.texts ++ more))
    (positive : 0 < level) :
    Proceeds items.events items.begun yaml parent level more := by
  match items with
  | .nil => exact ⟨yaml, parent, level, Runs.nil, Nat.le_refl _, going, rfl⟩
  | .cons item items =>
      rw [WrittenItems.texts, List.append_assoc] at going
      refine (proceeds_node item going (.inl positive)).append ?_
      intro later after higher rises goesOn
      exact proceeds_items items goesOn (Nat.lt_of_lt_of_le positive rises)

theorem proceeds_entries (entries : WrittenEntries) {yaml : YamlState}
    {parent : Option Nat}
    {level : Nat}
    {more : List Scalar}
    (going : Going yaml parent level (entries.texts ++ more))
    (positive : 0 < level) :
    Proceeds entries.events entries.begun yaml parent level more := by
  match entries with
  | .nil => exact ⟨yaml, parent, level, Runs.nil, Nat.le_refl _, going, rfl⟩
  | .cons key value entries =>
      rw [WrittenEntries.texts, List.append_assoc, List.append_assoc] at going
      have ofKey : Proceeds key.events key.begun yaml parent level
          (value.texts ++ (entries.texts ++ more)) := by
        match key with
        | .scalar anchor text => exact proceeds_scalar going positive anchor
        | .alias anchor => exact proceeds_alias going anchor
      refine ofKey.append ?_
      intro later after higher rises goesOn
      have above := Nat.lt_of_lt_of_le positive rises
      refine (proceeds_node value goesOn (.inl above)).append ?_
      intro last there top risesOn goesOn
      exact proceeds_entries entries goesOn (Nat.lt_of_lt_of_le above risesOn)

end

end Yimmo.Core.YamlRuns
