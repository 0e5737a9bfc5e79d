import Mathlib.Data.List.Basic
import Yimmo.Core.Yaml

/-!
# What a YAML document says

A document is written with anchors and aliases.  The parser library delivers it as
a stream of events, and the value of the document is what is left when each alias
is replaced by the value of its anchor; an alias can only name a node that has
been written to its end.

The module relates the three by their sizes.  A value has one part for each event
that begins a node, and at least one more for each alias, so that a value has more
parts than there are nodes to begin exactly where there are aliases.
-/

namespace Yimmo.Core.YamlDocuments

open Yimmo.Core.Yaml

/-! ## Written documents -/

/-- The key of an entry. -/
inductive WrittenKey where
  | scalar (anchor : Option Bytes) (text : Scalar)
  | alias (anchor : Bytes)

mutual

/-- A node as it is written. -/
inductive Written where
  | scalar (anchor : Option Bytes) (text : Scalar)
  | alias (anchor : Bytes)
  | sequence (anchor : Option Bytes) (items : WrittenItems)
  | mapping (anchor : Option Bytes) (entries : WrittenEntries)

/-- The items of a sequence. -/
inductive WrittenItems where
  | nil
  | cons (item : Written) (items : WrittenItems)

/-- The entries of a mapping. -/
inductive WrittenEntries where
  | nil
  | cons (key : WrittenKey) (value : Written) (entries : WrittenEntries)

end

/-! ## Events -/

/-- The events of a key. -/
def WrittenKey.events : WrittenKey → List YamlEvent
  | .scalar anchor text => [.scalar anchor text]
  | .alias anchor => [.alias anchor]

mutual

/-- The events of a node. -/
def Written.events : Written → List YamlEvent
  | .scalar anchor text => [.scalar anchor text]
  | .alias anchor => [.alias anchor]
  | .sequence anchor items =>
      .sequenceStart anchor :: (items.events ++ [.sequenceEnd])
  | .mapping anchor entries =>
      .mappingStart anchor :: (entries.events ++ [.mappingEnd])

def WrittenItems.events : WrittenItems → List YamlEvent
  | .nil => []
  | .cons item items => item.events ++ items.events

def WrittenEntries.events : WrittenEntries → List YamlEvent
  | .nil => []
  | .cons key value entries => key.events ++ (value.events ++ entries.events)

end

/-- The node can be the root of a document. -/
def Written.Collection : Written → Prop
  | .sequence _ _ => True
  | .mapping _ _ => True
  | _ => False

/-- A document whose root is a sequence or a mapping. -/
structure Document where
  root : Written
  collection : root.Collection

/-- The events of a stream with one document. -/
def Document.events (document : Document) : List YamlEvent :=
  .streamStart :: .documentStart ::
    (document.root.events ++ [.documentEnd, .streamEnd])

/-! ## Scalars, nodes and aliases -/

def WrittenKey.texts : WrittenKey → List Scalar
  | .scalar _ text => [text]
  | .alias _ => []

mutual

/-- The scalars, in the order of their events. -/
def Written.texts : Written → List Scalar
  | .scalar _ text => [text]
  | .alias _ => []
  | .sequence _ items => items.texts
  | .mapping _ entries => entries.texts

def WrittenItems.texts : WrittenItems → List Scalar
  | .nil => []
  | .cons item items => item.texts ++ items.texts

def WrittenEntries.texts : WrittenEntries → List Scalar
  | .nil => []
  | .cons key value entries => key.texts ++ (value.texts ++ entries.texts)

end

def WrittenKey.begun : WrittenKey → Nat
  | .scalar _ _ => 1
  | .alias _ => 0

mutual

/-- The number of events that begin a node. -/
def Written.begun : Written → Nat
  | .scalar _ _ => 1
  | .alias _ => 0
  | .sequence _ items => items.begun + 1
  | .mapping _ entries => entries.begun + 1

def WrittenItems.begun : WrittenItems → Nat
  | .nil => 0
  | .cons item items => item.begun + items.begun

def WrittenEntries.begun : WrittenEntries → Nat
  | .nil => 0
  | .cons key value entries => key.begun + (value.begun + entries.begun)

end

def WrittenKey.aliases : WrittenKey → Nat
  | .scalar _ _ => 0
  | .alias _ => 1

mutual

/-- The number of aliases. -/
def Written.aliases : Written → Nat
  | .scalar _ _ => 0
  | .alias _ => 1
  | .sequence _ items => items.aliases
  | .mapping _ entries => entries.aliases

def WrittenItems.aliases : WrittenItems → Nat
  | .nil => 0
  | .cons item items => item.aliases + items.aliases

def WrittenEntries.aliases : WrittenEntries → Nat
  | .nil => 0
  | .cons key value entries => key.aliases + (value.aliases + entries.aliases)

end

/-! ## Values -/

mutual

/-- What a node stands for. -/
inductive Value where
  | scalar (text : Bytes)
  | sequence (items : Values)
  | mapping (entries : Entries)

inductive Values where
  | nil
  | cons (item : Value) (items : Values)

inductive Entries where
  | nil
  | cons (key : Bytes) (value : Value) (entries : Entries)

end

mutual

/-- The number of parts: a key is a part of its own. -/
def Value.size : Value → Nat
  | .scalar _ => 1
  | .sequence items => items.size + 1
  | .mapping entries => entries.size + 1

def Values.size : Values → Nat
  | .nil => 0
  | .cons item items => item.size + items.size

def Entries.size : Entries → Nat
  | .nil => 0
  | .cons _ value entries => 1 + (value.size + entries.size)

end

mutual

/-- The texts of all scalars and keys, in their order. -/
def Value.texts : Value → List Bytes
  | .scalar text => [text]
  | .sequence items => items.texts
  | .mapping entries => entries.texts

def Values.texts : Values → List Bytes
  | .nil => []
  | .cons item items => item.texts ++ items.texts

def Entries.texts : Entries → List Bytes
  | .nil => []
  | .cons key value entries => [key] ++ (value.texts ++ entries.texts)

end

/-- The value of the first key that is the wanted one, ignoring case. -/
def Entries.get : Entries → Bytes → Option Value
  | .nil, _ => none
  | .cons text value entries, key =>
      if strcaseEqual text key = true then some value else entries.get key

theorem Value.size_pos (value : Value) : 0 < value.size := by
  cases value with
  | scalar text => exact Nat.one_pos
  | sequence items => exact Nat.succ_pos _
  | mapping entries => exact Nat.succ_pos _

/-! ## Resolving the aliases -/

/-- The values of the anchors. -/
abbrev Anchors : Type :=
  Bytes → Option Value

/-- A later node with the same anchor takes it over. -/
def Anchors.define (anchors : Anchors) (anchor : Option Bytes)
    (value : Value) :
    Anchors :=
  match anchor with
  | none => anchors
  | some name => Function.update anchors name (some value)

/-- While a node is written, its anchor does not stand for an earlier one. -/
def Anchors.hide (anchors : Anchors) (anchor : Option Bytes) : Anchors :=
  match anchor with
  | none => anchors
  | some name => Function.update anchors name none

/-- The key of an entry is a scalar, or an alias of one. -/
def WrittenKey.resolve (anchors : Anchors) :
    WrittenKey → Option (Bytes × Anchors)
  | .scalar anchor text =>
      some (text.bytes, anchors.define anchor (.scalar text.bytes))
  | .alias anchor =>
      match anchors anchor with
      | some (.scalar text) => some (text, anchors)
      | _ => none

mutual

/-- The value of a node, with the anchors after it. -/
def Written.resolve : Written → Anchors → Option (Value × Anchors)
  | .scalar anchor text, anchors =>
      some (.scalar text.bytes, anchors.define anchor (.scalar text.bytes))
  | .alias anchor, anchors =>
      (anchors anchor).map fun value => (value, anchors)
  | .sequence anchor items, anchors =>
      (items.resolve (anchors.hide anchor)).map fun (items, anchors) =>
        (.sequence items, anchors.define anchor (.sequence items))
  | .mapping anchor entries, anchors =>
      (entries.resolve (anchors.hide anchor)).map fun (entries, anchors) =>
        (.mapping entries, anchors.define anchor (.mapping entries))

def WrittenItems.resolve :
    WrittenItems → Anchors → Option (Values × Anchors)
  | .nil, anchors => some (.nil, anchors)
  | .cons item items, anchors =>
      (item.resolve anchors).bind fun (item, anchors) =>
        (items.resolve anchors).map fun (items, anchors) =>
          (.cons item items, anchors)

def WrittenEntries.resolve :
    WrittenEntries → Anchors → Option (Entries × Anchors)
  | .nil, anchors => some (.nil, anchors)
  | .cons key value entries, anchors =>
      (key.resolve anchors).bind fun (key, anchors) =>
        (value.resolve anchors).bind fun (value, anchors) =>
          (entries.resolve anchors).map fun (entries, anchors) =>
            (.cons key value entries, anchors)

end

/-- The value of a document. -/
def Document.value (document : Document) : Option Value :=
  (document.root.resolve fun _ => none).map Prod.fst

/-! ## The size of the value -/

theorem WrittenKey.begun_add_aliases (key : WrittenKey) :
    key.begun + key.aliases = 1 := by
  cases key <;> rfl

mutual

/-- Each event that begins a node and each alias has a part of the value. -/
theorem Written.size_le (node : Written) {anchors later : Anchors}
    {value : Value}
    (resolves : node.resolve anchors = some (value, later)) :
    node.begun + node.aliases ≤ value.size := by
  match node with
  | .scalar anchor text =>
      cases resolves
      exact Nat.le_refl 1
  | .alias anchor =>
      simp only [Written.begun, Written.aliases]
      have := value.size_pos
      omega
  | .sequence anchor items =>
      simp only [Written.resolve, Option.map_eq_some_iff] at resolves
      obtain ⟨⟨values, between⟩, inner, same⟩ := resolves
      cases same
      have := items.size_le inner
      simp only [Written.begun, Written.aliases, Value.size]
      omega
  | .mapping anchor entries =>
      simp only [Written.resolve, Option.map_eq_some_iff] at resolves
      obtain ⟨⟨values, between⟩, inner, same⟩ := resolves
      cases same
      have := entries.size_le inner
      simp only [Written.begun, Written.aliases, Value.size]
      omega

theorem WrittenItems.size_le (items : WrittenItems) {anchors later : Anchors}
    {values : Values}
    (resolves : items.resolve anchors = some (values, later)) :
    items.begun + items.aliases ≤ values.size := by
  match items with
  | .nil => exact Nat.zero_le _
  | .cons item items =>
      simp only [WrittenItems.resolve, Option.bind_eq_some_iff,
        Option.map_eq_some_iff] at resolves
      obtain ⟨⟨first, between⟩, head, ⟨rest, after⟩, tail, same⟩ := resolves
      cases same
      have := item.size_le head
      have := items.size_le tail
      simp only [WrittenItems.begun, WrittenItems.aliases, Values.size]
      omega

theorem WrittenEntries.size_le (entries : WrittenEntries)
    {anchors later : Anchors}
    {values : Entries}
    (resolves : entries.resolve anchors = some (values, later)) :
    entries.begun + entries.aliases ≤ values.size := by
  match entries with
  | .nil => exact Nat.zero_le _
  | .cons key value entries =>
      simp only [WrittenEntries.resolve, Option.bind_eq_some_iff,
        Option.map_eq_some_iff] at resolves
      obtain ⟨⟨text, _⟩, -, ⟨first, _⟩, head, ⟨rest, _⟩, tail, same⟩ :=
        resolves
      cases same
      have := key.begun_add_aliases
      have := value.size_le head
      have := entries.size_le tail
      simp only [WrittenEntries.begun, WrittenEntries.aliases, Entries.size]
      omega

end

/-! ## The texts of the value -/

mutual

/-- Without aliases, the texts of the value are the scalars as written. -/
theorem Written.texts_eq (node : Written) {anchors later : Anchors}
    {value : Value}
    (resolves : node.resolve anchors = some (value, later))
    (plain : node.aliases = 0) :
    value.texts = node.texts.map Scalar.bytes := by
  match node with
  | .scalar anchor text =>
      cases resolves
      rfl
  | .alias anchor => exact nomatch plain
  | .sequence anchor items =>
      simp only [Written.resolve, Option.map_eq_some_iff] at resolves
      obtain ⟨⟨values, between⟩, inner, same⟩ := resolves
      cases same
      exact items.texts_eq inner plain
  | .mapping anchor entries =>
      simp only [Written.resolve, Option.map_eq_some_iff] at resolves
      obtain ⟨⟨values, between⟩, inner, same⟩ := resolves
      cases same
      exact entries.texts_eq inner plain

theorem WrittenItems.texts_eq (items : WrittenItems) {anchors later : Anchors}
    {values : Values}
    (resolves : items.resolve anchors = some (values, later))
    (plain : items.aliases = 0) :
    values.texts = items.texts.map Scalar.bytes := by
  match items with
  | .nil =>
      cases resolves
      rfl
  | .cons item items =>
      simp only [WrittenItems.resolve, Option.bind_eq_some_iff,
        Option.map_eq_some_iff] at resolves
      obtain ⟨⟨first, between⟩, head, ⟨rest, after⟩, tail, same⟩ := resolves
      cases same
      have none := Nat.add_eq_zero_iff.mp plain
      simp only [Values.texts, WrittenItems.texts, List.map_append,
        item.texts_eq head none.1, items.texts_eq tail none.2]

theorem WrittenEntries.texts_eq (entries : WrittenEntries)
    {anchors later : Anchors}
    {values : Entries}
    (resolves : entries.resolve anchors = some (values, later))
    (plain : entries.aliases = 0) :
    values.texts = entries.texts.map Scalar.bytes := by
  match entries with
  | .nil =>
      cases resolves
      rfl
  | .cons (.alias anchor) value entries =>
      simp only [WrittenEntries.aliases, WrittenKey.aliases] at plain
      omega
  | .cons (.scalar anchor text) value entries =>
      simp only [WrittenEntries.resolve, Option.bind_eq_some_iff,
        Option.map_eq_some_iff] at resolves
      obtain ⟨⟨text, _⟩, first, ⟨_, _⟩, head, ⟨rest, _⟩, tail, same⟩ :=
        resolves
      cases same
      cases first
      simp only [WrittenEntries.aliases, WrittenKey.aliases, Nat.zero_add,
        Nat.add_eq_zero_iff] at plain
      simp only [Entries.texts, WrittenEntries.texts, WrittenKey.texts,
        List.map_append, List.map_cons, List.map_nil,
        value.texts_eq head plain.1, entries.texts_eq tail plain.2]

end

end Yimmo.Core.YamlDocuments
