import TaskMachine.Declaration.Reference

/-!
# Guards of choice branches

A `Guard` is a condition as a declaration writes it: flat objects told apart by
their `mode`.  Modes other than `and`, `or` and `not` are kept as they are; which
of them name a comparison is for the compiler to say.

A declaration that has the right types but lacks what its mode needs is refused
with a reason of its own, `Guard.lacking`.
-/

namespace TaskMachine

/-- The two ways to combine guards. -/
inductive Combinator where
  | and | or
deriving DecidableEq, Repr

namespace Combinator

/-- The mode in a declaration. -/
def keyword : Combinator → String
  | .and => "and"
  | .or => "or"

/-- Written as the mode. -/
def toJson (combinator : Combinator) : Json := .str combinator.keyword

/-- Reads a mode. -/
def reader : Reader Combinator := .oneOf [("and", .and), ("or", .or)]

end Combinator

/-- A condition as it is declared. -/
inductive Guard where
  /-- A value against a literal, or against a second path. -/
  | comparison (mode : String) (subject : ValueSource) (value : Json)
  /-- A check on the presence or type of a value. -/
  | check (mode : String) (subject : ValueSource)
  | not (condition : Guard)
  | combined (combinator : Combinator) (conditions : List Guard)

namespace Guard

/-- The mode as a declaration writes it. -/
def mode : Guard → String
  | .comparison mode _ _ | .check mode _ => mode
  | .not _ => "not"
  | .combined combinator _ => combinator.keyword

/-- The kind of guard. -/
def shape : Guard → String
  | .comparison _ _ _ => "Comparison"
  | .check _ _ => "Unary"
  | .not _ => "Not"
  | .combined _ _ => "Combinator"

mutual

/-- The fields of a guard in an object: the mode and what it uses. -/
def fields : Guard → List (String × Json)
  | .comparison mode subject value =>
    [("mode", .str mode), ("variable", subject.toJson), ("value", value)]
  | .check mode subject => [("mode", .str mode), ("variable", subject.toJson)]
  | .not condition =>
    [("mode", .str "not"), ("condition", .ofFields condition.fields)]
  | .combined combinator conditions =>
    [("mode", combinator.toJson), ("conditions", .arr (writeAll conditions))]

/-- Several guards, written. -/
def writeAll : List Guard → List Json
  | [] => []
  | guard :: rest => .ofFields guard.fields :: writeAll rest

end

/-- Written as a flat object. -/
def toJson (guard : Guard) : Json := .ofFields guard.fields

/-- The fields of a guard as they stand in an object, before the mode has been
looked at. -/
structure Flat where
  mode : String
  subject : Option ValueSource
  value : Option Json
  condition : Option Guard
  conditions : Option (List Guard)

/-- What is said of a guard without a field that its mode needs. -/
def lacking (mode field : String) : String :=
  "'" ++ mode ++ "' validation requires '" ++ field ++ "'"

/-- The value of a field that a mode needs. -/
def need (mode name : String) : Option α → Except Fault α
  | some value => .ok value
  | none => .error (.mismatch (some (lacking mode name)))

/-- The guard of a mode.  Fields that the mode does not use are dropped. -/
def ofFlat (flat : Flat) : Except Fault Guard :=
  if flat.mode = "and" then
    (need flat.mode "conditions" flat.conditions).map (.combined .and)
  else if flat.mode = "or" then
    (need flat.mode "conditions" flat.conditions).map (.combined .or)
  else if flat.mode = "not" then
    (need flat.mode "condition" flat.condition).map .not
  else
    (need flat.mode "variable" flat.subject).map fun subject =>
      match flat.value with
      | some value => .comparison flat.mode subject value
      | none => .check flat.mode subject

/-- The fields of a guard, given a reader for the guards inside it. -/
def record (inner : Reader Guard) : Record Flat :=
  Flat.mk
    <$> .required "mode" .str
    <*> .optional ["variable"] ValueSource.reader
    <*> .optional ["value"] .json
    <*> .optional ["condition"] inner
    <*> .optional ["conditions"] (.list inner)

/-- Reads guards up to a depth of documents. -/
def readerTo : (depth : Nat) → Reader Guard
  | 0 => fun _ document =>
    .error (document.refusal fun inner => inner.isObj || inner.isArr)
  | depth + 1 => (record (readerTo depth)).reader.andThen ofFlat

/-- Reads a guard. -/
def reader : Reader Guard := fun circumstance document =>
  readerTo document.depth circumstance document

end Guard

end TaskMachine
