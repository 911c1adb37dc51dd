import TaskMachine.Json.Value

/-!
# Documents

A `Document` is what a text says before it is known to be right: fields stand
in the order of the text, keys may repeat, and a place where the text stops
being JSON is a leaf of the tree.  Readers of typed values walk documents and so
meet faults in the order of the text; a part that nobody reads is only skipped,
and skipping asks less than reading.

`Document.value?` is the JSON value of a document that is right throughout, and
`Document.ofJson` the document of a value: see `value?_ofJson`.
-/

namespace TaskMachine

/-- How the text of an array or object ends. -/
inductive Closing where
  /-- With its closing bracket. -/
  | closed
  /-- Nothing more of it can be read.  It can still be skipped where the text
  goes on as JSON, behind a key that is no string. -/
  | stuck (skippable : Bool)
deriving DecidableEq, Repr

/-- A text taken apart, faults included. -/
inductive Document where
  | null
  | bool (value : Bool)
  | number (value : Number)
  | str (value : String)
  | arr (items : List Document) (closing : Closing)
  | obj (fields : List (String × Document)) (closing : Closing)
  /-- A number beyond the largest double, or a string with half of a surrogate
  pair: well spelled, but without a value. -/
  | unreadable
  /-- An array or object under too many others to be read. -/
  | tooDeep (inner : Document)
  /-- No JSON stands here. -/
  | broken

namespace Closing

/-- Whether the bracket can be left behind without reading. -/
def isSkippable : Closing → Bool
  | .closed => true
  | .stuck skippable => skippable

end Closing

namespace Document

mutual

/-- Whether a document can be skipped: its spelling is JSON throughout. -/
def isSkippable : Document → Bool
  | .null | .bool _ | .number _ | .str _ | .unreadable => true
  | .arr items closing => skippableItems items && closing.isSkippable
  | .obj fields closing => skippableFields fields && closing.isSkippable
  | .tooDeep inner => inner.isSkippable
  | .broken => false

/-- Whether every item can be skipped. -/
def skippableItems : List Document → Bool
  | [] => true
  | item :: rest => item.isSkippable && skippableItems rest

/-- Whether every field can be skipped. -/
def skippableFields : List (String × Document) → Bool
  | [] => true
  | (_, value) :: rest => value.isSkippable && skippableFields rest

end

mutual

/-- The JSON value of a document without any fault.  Of several fields with one
key the last one counts. -/
def value? : Document → Option Json
  | .null => some .null
  | .bool value => some (.bool value)
  | .number value => some (.number value)
  | .str value => some (.str value)
  | .arr items .closed => (itemValues? items).map .arr
  | .obj fields .closed => (fieldValues? fields).map .ofFields
  | .arr _ (.stuck _) | .obj _ (.stuck _) => none
  | .unreadable | .tooDeep _ | .broken => none

/-- The values of items. -/
def itemValues? : List Document → Option (List Json)
  | [] => some []
  | item :: rest => do
    let value ← item.value?
    let values ← itemValues? rest
    return value :: values

/-- The values of fields. -/
def fieldValues? : List (String × Document) → Option (List (String × Json))
  | [] => some []
  | (key, field) :: rest => do
    let value ← field.value?
    let values ← fieldValues? rest
    return (key, value) :: values

end

/-- Whether a document has a value: nothing in it is a fault. -/
def isReadable (document : Document) : Bool := document.value?.isSome

mutual

/-- The document of a tree. -/
def ofRaw : Json.Raw → Document
  | .null => .null
  | .bool value => .bool value
  | .number value => .number value
  | .str value => .str value
  | .arr items => .arr (ofRawItems items) .closed
  | .obj fields => .obj (ofRawFields fields) .closed

/-- The documents of items. -/
def ofRawItems : List Json.Raw → List Document
  | [] => []
  | item :: rest => ofRaw item :: ofRawItems rest

/-- The documents of fields. -/
def ofRawFields : List (String × Json.Raw) → List (String × Document)
  | [] => []
  | (key, value) :: rest => (key, ofRaw value) :: ofRawFields rest

end

/-- The document of a value: its fields stand in ascending order. -/
def ofJson (value : Json) : Document := ofRaw value.raw

mutual

theorem value?_ofRaw : (tree : Json.Raw) → (h : tree.Ordered) →
    (ofRaw tree).value? = some ⟨tree, h⟩
  | .null, _ | .bool _, _ | .number _, _ | .str _, _ => rfl
  | .arr items, h => by
    have ih := itemValues?_ofRaw items h
    simp only [ofRaw, value?, ih, Option.map_some, Option.some.injEq]
    apply Json.ext
    simp [Json.arr, Function.comp_def]
  | .obj fields, h => by
    have ih := fieldValues?_ofRaw fields h.2
    simp only [ofRaw, value?, ih, Option.map_some, Option.some.injEq]
    have view := Json.ofView_view ⟨.obj fields, h⟩
    simp only [Json.view, Json.ofView] at view
    rw [← view, Json.ofFields]
    exact congrArg Json.obj (SortedMap.ofList_entries ⟨_, _⟩)

theorem itemValues?_ofRaw : (items : List Json.Raw) →
    (h : Json.Raw.OrderedItems items) →
      itemValues? (ofRawItems items) = some (items.attach.map fun item =>
        ⟨item.1, Json.Raw.orderedItems_iff.1 h _ item.2⟩)
  | [], _ => rfl
  | item :: rest, h => by
    have ih := value?_ofRaw item h.1
    have ihs := itemValues?_ofRaw rest h.2
    simp [ofRawItems, itemValues?, ih, ihs, List.attach_cons, Function.comp_def]

theorem fieldValues?_ofRaw : (fields : List (String × Json.Raw)) →
    (h : Json.Raw.OrderedFields fields) →
      fieldValues? (ofRawFields fields) = some (fields.attach.map fun field =>
        (field.1.1, ⟨field.1.2, Json.Raw.orderedFields_iff.1 h _ field.2⟩))
  | [], _ => rfl
  | (key, value) :: rest, h => by
    have ih := value?_ofRaw value h.1
    have ihs := fieldValues?_ofRaw rest h.2
    simp [ofRawFields, fieldValues?, ih, ihs, List.attach_cons, Function.comp_def]

end

/-- The document of a value has that value. -/
@[simp] theorem value?_ofJson (value : Json) : (ofJson value).value? = some value :=
  value?_ofRaw value.raw value.ordered

mutual

/-- How many arrays and objects stand inside one another at most. -/
def depth : Document → Nat
  | .null | .bool _ | .number _ | .str _ | .unreadable | .broken => 0
  | .arr items _ => depthItems items + 1
  | .obj fields _ => depthFields fields + 1
  | .tooDeep inner => inner.depth

/-- The greatest depth of items. -/
def depthItems : List Document → Nat
  | [] => 0
  | item :: rest => max item.depth (depthItems rest)

/-- The greatest depth of fields. -/
def depthFields : List (String × Document) → Nat
  | [] => 0
  | (_, value) :: rest => max value.depth (depthFields rest)

end

end Document

end TaskMachine
