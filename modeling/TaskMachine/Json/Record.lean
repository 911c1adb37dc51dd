import TaskMachine.Json.Reader

/-!
# Structures

A `Record α` describes the fields of a type.  Records are applicative: the fields
of a structure are put together in the order of their declaration, under the
constructor.  `Record.reader` accepts an object with the fields in any order, or
an array with the fields in declaration order.

Fields that are missing are reported after every fault that stands in the
document, in the order in which the type declares them.
-/

namespace TaskMachine

/-- The parts of a document that holds a structure: fields in any order, or
items in declaration order. -/
inductive Parts where
  | named (fields : List (String × Document))
  | listed (items : List Document)

namespace Parts

/-- How many parts there are. -/
def length : Parts → Nat
  | .named fields => fields.length
  | .listed items => items.length

end Parts

/-- A description of the fields of a type.  It says how many there are, under
which names they go, and how their values are read from the parts of a document,
where `start` is the number of the first of them in declaration order. -/
structure Record (α : Type) where
  width : Nat
  names : List String
  run : Circumstance → Parts → (start : Nat) → Outcome α

namespace Record

variable {α β γ : Type}

/-- A structure without fields. -/
def pure (value : α) : Record α := ⟨0, [], fun _ _ _ => .ok value⟩

/-- The fields of two structures, those of the first before those of the
second. -/
def both (first : Record α) (second : Record β) : Record (α × β) where
  width := first.width + second.width
  names := first.names ++ second.names
  run circumstance parts start :=
    (first.run circumstance parts start).both
      (second.run circumstance parts (start + first.width))

/-- A structure computed from another with the same fields. -/
def map (f : α → β) (record : Record α) : Record β where
  width := record.width
  names := record.names
  run circumstance parts start := (record.run circumstance parts start).map f

instance : Functor Record where
  map := map

instance : Applicative Record where
  pure := pure
  seq first second := ((first.both (second ())).map fun (f, a) => f a)

/-- The fields under some names, with their places. -/
def occurrences (names : List String) (fields : List (String × Document)) :
    List (Document × Nat) :=
  fields.zipIdx.filterMap fun (field, place) =>
    if names.contains field.1 then some (field.2, place) else none

/-- The fault of a field that is missing, behind everything that is there. -/
def missing (parts : Parts) : Outcome α := .fault (parts.length + 1) .unlike

/-- A field that goes under some names.  Where it is missing, `unnamed` stands
for it in an object and `unlisted` in an array; without such a value that is a
fault.  The field may occur once. -/
def field (names : List String) (unnamed unlisted : Option α)
    (reader : Reader α) : Record α where
  width := 1
  names := names
  run circumstance parts start :=
    match parts with
    | .named fields =>
      match occurrences names fields with
      | [] => unnamed.elim (missing parts) .ok
      | [(document, place)] => .at' place (reader circumstance document)
      | (document, place) :: (_, again) :: _ =>
        ((Outcome.at' place (reader circumstance document)).both
          (.fault again .unlike : Outcome Unit)).map Prod.fst
    | .listed items =>
      match items[start]? with
      | none => unlisted.elim (missing parts) .ok
      | some document => .at' start (reader circumstance document)

/-- A field that has to be there. -/
def required (name : String) (reader : Reader α) : Record α :=
  field [name] none none reader

/-- A field that may be missing and is a certain value then. -/
def defaulted (name : String) (value : α) (reader : Reader α) : Record α :=
  field [name] (some value) (some value) reader

/-- A field that may be missing or `null`, under a main name and others. -/
def optional (names : List String) (reader : Reader α) : Record (Option α) :=
  field names (some none) (some none) reader.nullable

/-- A field that may be missing in an object or be `null`, but has its place
in an array. -/
def nullable (name : String) (reader : Reader α) : Record (Option α) :=
  field [name] (some none) none reader.nullable

/-- What a structure does not read of an object: other fields, which have to be
there for skipping only. -/
def strays (names : List String) (fields : List (String × Document)) :
    Outcome Unit :=
  firstFault (fun field =>
    if names.contains field.1 || field.2.isSkippable then none
    else some .malformed) 0 fields

/-- What a structure does not read of an array: items beyond its last field. -/
def surplus (circumstance : Circumstance) (width : Nat) (items : List Document) :
    Outcome Unit :=
  if width < items.length then .fault width circumstance.excess else .ok ()

/-- A structure from an object only. -/
def fromFields (record : Record α) (circumstance : Circumstance)
    (fields : List (String × Document)) (closing : Closing) : Outcome α :=
  (((strays record.names fields).both (closing.outcome fields.length)).both
    (record.run circumstance (.named fields) 0)).map Prod.snd

/-- A structure from an array only. -/
def fromItems (record : Record α) (circumstance : Circumstance)
    (items : List Document) (closing : Closing) : Outcome α :=
  (((surplus circumstance record.width items).both
    (closing.outcome items.length)).both
      (record.run circumstance (.listed items) 0)).map Prod.snd

/-- A structure, as an object or as an array of its fields. -/
def reader (record : Record α) : Reader α
  | circumstance, .obj fields closing =>
    (record.fromFields circumstance fields closing).forget
  | circumstance, .arr items closing =>
    (record.fromItems circumstance items closing).forget
  | _, document =>
    .error (document.refusal fun inner => inner.isObj || inner.isArr)

end Record

end TaskMachine
