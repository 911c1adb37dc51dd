import TaskMachine.Json.Number
import TaskMachine.SortedMap

/-!
# JSON values

`Json.Raw` is the plain tree.  A `Json` is a tree in which the keys of every
object ascend strictly, packed with the proof of it: member order and repeated
keys carry no meaning in a value, so two values that mean the same are equal.

Values are built with `Json.null`, `Json.bool`, `Json.number`, `Json.str`,
`Json.arr` and `Json.obj`, and taken apart with `Json.view`, which undoes them:
see `view_arr`, `view_obj` and `ofView_view`.
-/

namespace TaskMachine

/-- A JSON tree, whatever the order of its keys. -/
inductive Json.Raw where
  | null
  | bool (value : Bool)
  | number (value : Number)
  | str (value : String)
  | arr (items : List Json.Raw)
  | obj (fields : List (String × Json.Raw))
deriving Inhabited

namespace Json.Raw

mutual

/-- In every object of the tree the keys ascend strictly. -/
def Ordered : Raw → Prop
  | .null | .bool _ | .number _ | .str _ => True
  | .arr items => OrderedItems items
  | .obj fields =>
    fields.Pairwise (fun a b => a.1 < b.1) ∧ OrderedFields fields

/-- `Ordered` for every item of a list. -/
def OrderedItems : List Raw → Prop
  | [] => True
  | item :: rest => item.Ordered ∧ OrderedItems rest

/-- `Ordered` for every value of a list of fields. -/
def OrderedFields : List (String × Raw) → Prop
  | [] => True
  | (_, value) :: rest => value.Ordered ∧ OrderedFields rest

end

mutual

/-- Whether two trees are the same. -/
def beq : Raw → Raw → Bool
  | .null, .null => true
  | .bool a, .bool b => a == b
  | .number a, .number b => a == b
  | .str a, .str b => a == b
  | .arr as, .arr bs => beqItems as bs
  | .obj as, .obj bs => beqFields as bs
  | _, _ => false

/-- Whether two lists of items are the same. -/
def beqItems : List Raw → List Raw → Bool
  | [], [] => true
  | a :: as, b :: bs => a.beq b && beqItems as bs
  | _, _ => false

/-- Whether two lists of fields are the same. -/
def beqFields : List (String × Raw) → List (String × Raw) → Bool
  | [], [] => true
  | (key, a) :: as, (key', b) :: bs => key == key' && a.beq b && beqFields as bs
  | _, _ => false

end

mutual

theorem beq_self : (tree : Raw) → tree.beq tree = true
  | .null | .bool _ | .number _ | .str _ => by simp [beq]
  | .arr items => by simp [beq, beqItems_self items]
  | .obj fields => by simp [beq, beqFields_self fields]

theorem beqItems_self : (items : List Raw) → beqItems items items = true
  | [] => rfl
  | item :: rest => by simp [beqItems, beq_self item, beqItems_self rest]

theorem beqFields_self : (fields : List (String × Raw)) →
    beqFields fields fields = true
  | [] => rfl
  | (_, value) :: rest => by simp [beqFields, beq_self value, beqFields_self rest]

end

mutual

theorem eq_of_beq : {a b : Raw} → a.beq b = true → a = b
  | .null, .null, _ => rfl
  | .bool _, .bool _, h | .number _, .number _, h | .str _, .str _, h => by
    simpa [beq] using h
  | .arr as, .arr bs, h => congrArg arr (eq_of_beqItems (by simpa [beq] using h))
  | .obj as, .obj bs, h => congrArg obj (eq_of_beqFields (by simpa [beq] using h))

theorem eq_of_beqItems : {as bs : List Raw} → beqItems as bs = true → as = bs
  | [], [], _ => rfl
  | a :: as, b :: bs, h => by
    have ⟨first, rest⟩ : a.beq b = true ∧ beqItems as bs = true := by
      simpa [beqItems] using h
    rw [eq_of_beq first, eq_of_beqItems rest]

theorem eq_of_beqFields : {as bs : List (String × Raw)} →
    beqFields as bs = true → as = bs
  | [], [], _ => rfl
  | (key, a) :: as, (key', b) :: bs, h => by
    have ⟨⟨same, first⟩, rest⟩ :
        (key = key' ∧ a.beq b = true) ∧ beqFields as bs = true := by
      simpa [beqFields] using h
    rw [same, eq_of_beq first, eq_of_beqFields rest]

end

instance : DecidableEq Raw := fun a b =>
  decidable_of_iff (a.beq b = true) ⟨eq_of_beq, fun same => same ▸ a.beq_self⟩

theorem orderedItems_iff {items : List Raw} :
    OrderedItems items ↔ ∀ item ∈ items, item.Ordered := by
  induction items with
  | nil => simp [OrderedItems]
  | cons item rest ih => simp [OrderedItems, ih]

theorem orderedFields_iff {fields : List (String × Raw)} :
    OrderedFields fields ↔ ∀ field ∈ fields, field.2.Ordered := by
  induction fields with
  | nil => simp [OrderedFields]
  | cons field rest ih => simp [OrderedFields, ih]

end Json.Raw

/-- A JSON value: a tree whose objects list their keys in ascending order. -/
structure Json where
  raw : Json.Raw
  ordered : raw.Ordered

namespace Json

theorem ext {a b : Json} (h : a.raw = b.raw) : a = b := by
  cases a; cases b; cases h; rfl

instance : DecidableEq Json := fun a b =>
  decidable_of_iff (a.raw = b.raw) ⟨ext, congrArg raw⟩

/-- The value `null`. -/
def null : Json := ⟨.null, trivial⟩

instance : Inhabited Json := ⟨null⟩

/-- A truth value. -/
def bool (value : Bool) : Json := ⟨.bool value, trivial⟩

/-- A number. -/
def number (value : Number) : Json := ⟨.number value, trivial⟩

/-- A string. -/
def str (value : String) : Json := ⟨.str value, trivial⟩

/-- An integer. -/
def int (value : Int) : Json := number (.integer value)

/-- A natural number. -/
def nat (value : Nat) : Json := int value

/-- An array. -/
def arr (items : List Json) : Json :=
  ⟨.arr (items.map raw), Raw.orderedItems_iff.2 fun _ mem =>
    let ⟨item, _, same⟩ := List.mem_map.1 mem
    same ▸ item.ordered⟩

/-- An object. -/
def obj (fields : SortedMap Json) : Json :=
  ⟨.obj (fields.mapValues raw).entries, (fields.mapValues raw).ascending,
    Raw.orderedFields_iff.2 fun _ mem =>
      let ⟨field, _, same⟩ := List.mem_map.1 mem
      same ▸ field.2.ordered⟩

/-- An object with the fields of a list.  Of two fields with one key the later
one counts. -/
def ofFields (fields : List (String × Json)) : Json := obj (.ofList fields)

/-- An array of the texts of a list. -/
def strings (items : List String) : Json := arr (items.map str)

/-- A value, or `null` for none. -/
def nullable (write : α → Json) : Option α → Json
  | none => null
  | some value => write value

/-- A field that is left out where there is no value. -/
def present (key : String) (write : α → Json) : Option α → List (String × Json)
  | none => []
  | some value => [(key, write value)]

/-- A field with a list that is left out where the list is empty. -/
def nonEmpty (key : String) (write : α → Json) (items : List α) :
    List (String × Json) :=
  if items.isEmpty then [] else [(key, arr (items.map write))]

/-- What a value is at its top. -/
inductive View where
  | null
  | bool (value : Bool)
  | number (value : Number)
  | str (value : String)
  | arr (items : List Json)
  | obj (fields : SortedMap Json)

/-- The value of a view. -/
def ofView : View → Json
  | .null => null
  | .bool value => bool value
  | .number value => number value
  | .str value => str value
  | .arr items => arr items
  | .obj fields => obj fields

/-- The view of a value. -/
def view : Json → View
  | ⟨.null, _⟩ => .null
  | ⟨.bool value, _⟩ => .bool value
  | ⟨.number value, _⟩ => .number value
  | ⟨.str value, _⟩ => .str value
  | ⟨.arr items, h⟩ =>
    .arr (items.attach.map fun item =>
      ⟨item.1, Raw.orderedItems_iff.1 h _ item.2⟩)
  | ⟨.obj fields, h⟩ =>
    .obj ⟨fields.attach.map fun field =>
        (field.1.1, ⟨field.1.2, Raw.orderedFields_iff.1 h.2 _ field.2⟩),
      List.pairwise_map.2 ((List.pairwise_map (f := Subtype.val)).1
        (by rw [List.attach_map_subtype_val]; exact h.1))⟩

/-- A view shows all there is of a value. -/
@[simp] theorem ofView_view (value : Json) : ofView value.view = value := by
  apply ext
  match value with
  | ⟨.null, _⟩ | ⟨.bool _, _⟩ | ⟨.number _, _⟩ | ⟨.str _, _⟩ => rfl
  | ⟨.arr items, _⟩ =>
    simp [view, ofView, arr, Function.comp_def]
  | ⟨.obj fields, _⟩ =>
    simp only [view, ofView, obj, SortedMap.mapValues, List.map_map]
    exact congrArg Raw.obj (List.attach_map_subtype_val fields)

@[simp] theorem view_null : null.view = .null := rfl

@[simp] theorem view_bool (value : Bool) : (bool value).view = .bool value := rfl

@[simp] theorem view_number (value : Number) :
    (number value).view = .number value := rfl

@[simp] theorem view_str (value : String) : (str value).view = .str value := rfl

@[simp] theorem view_arr (items : List Json) : (arr items).view = .arr items := by
  have key : ∀ (l : List Json) (h : ∀ r ∈ l.map raw, Raw.Ordered r),
      (l.map raw).attach.map (fun item => (⟨item.1, h _ item.2⟩ : Json)) = l := by
    intro l h
    apply List.ext_getElem
    · simp
    · intros; apply ext; simp
  simp only [view, arr]
  exact congrArg View.arr (key items (Raw.orderedItems_iff.1 (arr items).ordered))

@[simp] theorem view_obj (fields : SortedMap Json) :
    (obj fields).view = .obj fields := by
  obtain ⟨entries, ascending⟩ := fields
  have key : ∀ (h : ∀ f ∈ entries.map (fun e => (e.1, e.2.raw)), Raw.Ordered f.2),
      (entries.map (fun e => (e.1, e.2.raw))).attach.map
        (fun field => (field.1.1, (⟨field.1.2, h _ field.2⟩ : Json))) = entries := by
    intro h
    apply List.ext_getElem
    · simp
    · intros; apply Prod.ext
      · simp
      · apply ext; simp
  simp only [view, obj, SortedMap.mapValues]
  congr 1
  simp only [SortedMap.mk.injEq]
  exact key (Raw.orderedFields_iff.1 (obj ⟨entries, ascending⟩).ordered.2)

/-- The text of a string value. -/
def asString? (value : Json) : Option String :=
  match value.raw with
  | .str text => some text
  | _ => none

/-- The value of a field of an object. -/
def field? (value : Json) (key : String) : Option Json :=
  match value.view with
  | .obj fields => fields.get? key
  | _ => none

/-- An object with a field, in place of what was there; any other value stays
as it is. -/
def withField (value : Json) (key : String) (field : Json) : Json :=
  match value.view with
  | .obj fields => obj (fields.insert key field)
  | _ => value

end Json

end TaskMachine
