import TaskMachine.Json.Record

/-!
# Alternatives

Types that are one of several shapes.  `Reader.tagged` chooses a structure by a
tag inside the object, `Reader.named` by the single key of an object, and
`Reader.oneOf` a value by its name.  `Reader.flattened` joins two types in one
object.

What stands before a tag is set aside until the tag is known, so that it is read
in the circumstance `Circumstance.aside`.
-/

namespace TaskMachine

namespace Reader

variable {α β : Type}

/-- What is read first of a tagged type: the alternative its tag names.  A part
that was set aside may give the number of the alternative instead. -/
def tag (alternatives : List (String × α)) : Reader α
  | _, .str name => (alternatives.lookup name).elim (.error .unlike) .ok
  | .aside, .number (.integer value) =>
    if 0 ≤ value then
      (alternatives[value.toNat]?).elim (.error .unlike) (.ok ·.2)
    else .error .unlike
  | _, document => .error document.notScalar

/-- Whether a part can be set aside. -/
def setAside (document : Document) : Option Fault :=
  if document.isReadable then none else some .malformed

/-- A type of several structures, told apart by a field that names one of them;
in an array the name comes first.  Until the name is known everything else is
set aside. -/
def tagged (key : String) (alternatives : List (String × Record α)) : Reader α
  | circumstance, .obj fields closing => do
    let chosen ← ((firstFault (fun field =>
        if field.1 == key then none else setAside field.2) 0 fields).both
      ((closing.outcome fields.length).both
        ((Record.required key (tag alternatives)).run circumstance
          (.named fields) 0))).forget
    let others := fields.filter fun field => field.1 != key
    chosen.2.2.reader .aside (.obj others .closed)
  | circumstance, .arr items closing => do
    let chosen ← ((firstFault setAside 1 (items.drop 1)).both
      ((closing.outcome items.length).both
        ((Record.required key (tag alternatives)).run circumstance
          (.listed items) 0))).forget
    chosen.2.2.reader .aside (.arr (items.drop 1) .closed)
  | _, document =>
    .error (document.refusal fun inner => inner.isObj || inner.isArr)

/-- The fields of one type and those of another in one object.  The fields that
the first does not read are set aside for the second. -/
def flattened (own : Record α) (rest : Reader β) : Reader (α × β)
  | circumstance, .obj fields closing => do
    let isOwn := fun (field : String × Document) => own.names.contains field.1
    let chosen ← ((firstFault (fun field =>
        if isOwn field then none else setAside field.2) 0 fields).both
      ((closing.outcome fields.length).both
        (own.run circumstance (.named fields) 0))).forget
    let others := fields.filter fun field => !isOwn field
    let value ← rest .aside (.obj others .closed)
    return (chosen.2.2, value)
  | _, document => .error (document.refusal Document.isObj)

/-- What stands under one of the names of a type whose values are a name, or an
object with a name as its single key. -/
inductive Form (α : Type) where
  /-- Nothing: the name alone is the value. -/
  | bare (value : α)
  /-- A value of a type. -/
  | wrapped (reader : Reader α)
  /-- A structure. -/
  | structured (record : Record α)

namespace Form

/-- Reads what stands under the name. -/
def under : Form α → Reader α
  | .bare value, _, .null => .ok value
  | .bare value, .aside, .obj [] .closed => .ok value
  | .bare _, _, document => .error document.notScalar
  | .wrapped reader, circumstance, document => reader circumstance document
  | .structured _, .value, .arr _ _ => .error .unlike
  | .structured record, circumstance, document =>
    record.reader circumstance document

/-- The value of the name alone. -/
def alone : Form α → Except Fault α
  | .bare value => .ok value
  | .wrapped _ | .structured _ => .error .unlike

end Form

/-- A type whose values are a name, or an object with a name as its single key
and the rest of the value under it. -/
def named (forms : List (String × Form α)) : Reader α
  | _, .str name => (forms.lookup name).elim (.error .unlike) Form.alone
  -- In a text a second key shows only after the value of the first.
  | .text, .obj ((name, document) :: more) closing => do
    let form ← (forms.lookup name).elim (.error .unlike) .ok
    let value ← form.under .text document
    if more.isEmpty && closing == .closed then return value
    else throw .malformed
  | .text, _ => .error .malformed
  | circumstance, .obj [(name, document)] _ => do
    let form ← (forms.lookup name).elim (.error .unlike) .ok
    form.under circumstance document
  | _, _ => .error .unlike

/-- A type whose values are names. -/
def oneOf (values : List (String × α)) : Reader α :=
  named (values.map fun (name, value) => (name, .bare value))

end Reader

end TaskMachine
