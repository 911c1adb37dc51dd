import TaskMachine.Compile.Path

/-!
# Conditions of guards

`Guard.condition` turns a guard into a condition of the engine.  The modes it
knows are listed in `Comparison.table`; each says which comparison of the engine
it becomes and what it takes for the operand.

A guard is judged before the guards inside it, and those in order; a comparison
by its mode, then by its subject, then by its value.
-/

namespace TaskMachine

/-- Why a guard is no condition. -/
inductive ConditionFault where
  | unknownMode (mode : String)
  /-- Nothing to combine. -/
  | emptyCombinator (mode : String)
  /-- A literal where a path is needed. -/
  | literalVariable (mode : String)
  /-- Nothing to compare with. -/
  | missingValue (mode : String)
  /-- A comparison with a path whose value is no string. -/
  | invalidPathOperand (mode : String)
deriving DecidableEq, Repr

namespace ConditionFault

/-- The text of a fault. -/
def message : ConditionFault → String
  | .unknownMode mode => "unknown condition mode: " ++ mode
  | .emptyCombinator mode =>
    "'" ++ mode ++ "' condition requires at least one child condition"
  | .literalVariable mode =>
    "'" ++ mode ++ "' condition variable must reference a path, not a literal"
  | .missingValue mode => "'" ++ mode ++ "' condition requires a value"
  | .invalidPathOperand mode =>
    "'" ++ mode ++ "' condition value must be a path string"

end ConditionFault

/-- How a mode becomes a comparison. -/
inductive Comparison where
  /-- With the value as it is declared. -/
  | literal (comparator : Comparator)
  /-- With the value of the path that is declared. -/
  | path (comparator : Comparator)
  /-- A check with the outcome that is expected. -/
  | check (comparator : Comparator) (expected : Bool)
deriving DecidableEq, Repr

namespace Comparison

/-- The modes of comparisons and checks. -/
def table : List (String × Comparison) :=
  [("stringEquals", .literal .stringEquals),
    ("stringEqualsJsonPath", .path .stringEqualsPath),
    ("stringLessThan", .literal .stringLessThan),
    ("stringLessThanJsonPath", .path .stringLessThanPath),
    ("stringLessThanEquals", .literal .stringLessThanEquals),
    ("stringLessThanEqualsJsonPath", .path .stringLessThanEqualsPath),
    ("stringGreaterThan", .literal .stringGreaterThan),
    ("stringGreaterThanJsonPath", .path .stringGreaterThanPath),
    ("stringGreaterThanEquals", .literal .stringGreaterThanEquals),
    ("stringGreaterThanEqualsJsonPath", .path .stringGreaterThanEqualsPath),
    ("stringMatches", .literal .stringMatches),
    ("numberEquals", .literal .numericEquals),
    ("numberEqualsJsonPath", .path .numericEqualsPath),
    ("numberLessThan", .literal .numericLessThan),
    ("numberLessThanJsonPath", .path .numericLessThanPath),
    ("numberLessThanEquals", .literal .numericLessThanEquals),
    ("numberLessThanEqualsJsonPath", .path .numericLessThanEqualsPath),
    ("numberGreaterThan", .literal .numericGreaterThan),
    ("numberGreaterThanJsonPath", .path .numericGreaterThanPath),
    ("numberGreaterThanEquals", .literal .numericGreaterThanEquals),
    ("numberGreaterThanEqualsJsonPath", .path .numericGreaterThanEqualsPath),
    ("booleanEquals", .literal .booleanEquals),
    ("booleanEqualsJsonPath", .path .booleanEqualsPath),
    ("timestampEquals", .literal .timestampEquals),
    ("timestampEqualsJsonPath", .path .timestampEqualsPath),
    ("timestampLessThan", .literal .timestampLessThan),
    ("timestampLessThanJsonPath", .path .timestampLessThanPath),
    ("timestampLessThanEquals", .literal .timestampLessThanEquals),
    ("timestampLessThanEqualsJsonPath", .path .timestampLessThanEqualsPath),
    ("timestampGreaterThan", .literal .timestampGreaterThan),
    ("timestampGreaterThanJsonPath", .path .timestampGreaterThanPath),
    ("timestampGreaterThanEquals", .literal .timestampGreaterThanEquals),
    ("timestampGreaterThanEqualsJsonPath", .path .timestampGreaterThanEqualsPath),
    ("isPresent", .check .isPresent true),
    ("isNotPresent", .check .isPresent false),
    ("isNull", .check .isNull true),
    ("isNotNull", .check .isNull false),
    ("isString", .check .isString true),
    ("isNotString", .check .isString false),
    ("isNumeric", .check .isNumeric true),
    ("isNotNumeric", .check .isNumeric false),
    ("isBoolean", .check .isBoolean true),
    ("isNotBoolean", .check .isBoolean false),
    ("isTimestamp", .check .isTimestamp true),
    ("isNotTimestamp", .check .isTimestamp false)]

/-- The comparison of a mode. -/
def ofMode? (mode : String) : Option Comparison := table.lookup mode

/-- The operand of a comparison, given the value that is declared. -/
def operand (mode : String) (value : Option Json) :
    Comparison → Except ConditionFault (Comparator × Operand)
  | .literal comparator =>
    match value with
    | some value => .ok (comparator, .value value)
    | none => .error (.missingValue mode)
  | .path comparator =>
    match value with
    | some value =>
      match value.asString? with
      | some target => .ok (comparator, .path target)
      | none => .error (.invalidPathOperand mode)
    | none => .error (.missingValue mode)
  | .check comparator expected => .ok (comparator, .flag expected)

end Comparison

namespace Guard

/-- The condition of a comparison or check. -/
def compare (mode : String) (subject : ValueSource) (value : Option Json) :
    Except ConditionFault Condition := do
  let comparison ← (Comparison.ofMode? mode).elim (.error (.unknownMode mode)) .ok
  let target ← subject.path?.elim (.error (.literalVariable mode)) .ok
  let (comparator, operand) ← comparison.operand mode value
  return .compare target comparator operand

/-- The condition of combined conditions. -/
def combine : Combinator → List Condition → Condition
  | .and, conditions => .and conditions
  | .or, conditions => .or conditions

mutual

/-- The condition of a guard. -/
def condition : Guard → Except ConditionFault Condition
  | .combined combinator guards =>
    if guards.isEmpty then .error (.emptyCombinator combinator.keyword)
    else (conditionsOf guards).map (combine combinator)
  | .not guard => guard.condition.map .not
  | .comparison mode subject value => compare mode subject (some value)
  | .check mode subject => compare mode subject none

/-- The conditions of several guards, up to the first fault. -/
def conditionsOf : List Guard → Except ConditionFault (List Condition)
  | [] => .ok []
  | guard :: rest => do
    let first ← guard.condition
    let others ← conditionsOf rest
    return first :: others

end

end Guard

end TaskMachine
