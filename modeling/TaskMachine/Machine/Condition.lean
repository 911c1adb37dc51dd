import TaskMachine.Json.Alternative

/-!
# Conditions of a compiled machine

A `Condition` is what a choice of a compiled machine tests: comparisons of one
value of the running machine, joined by `and`, `or` and `not`.

It has two forms in JSON.  `Condition.toJson` and `Condition.reader` keep every
distinction and undo each other.  `Condition.toRule` is the rule of the engine's
definition language, where an operand stands bare.
-/

namespace TaskMachine

/-- The comparisons the engine knows. -/
inductive Comparator where
  | stringEquals | stringEqualsPath | stringLessThan | stringLessThanPath
  | stringLessThanEquals | stringLessThanEqualsPath | stringGreaterThan
  | stringGreaterThanPath | stringGreaterThanEquals | stringGreaterThanEqualsPath
  | stringMatches | numericEquals | numericEqualsPath | numericLessThan
  | numericLessThanPath | numericLessThanEquals | numericLessThanEqualsPath
  | numericGreaterThan | numericGreaterThanPath | numericGreaterThanEquals
  | numericGreaterThanEqualsPath | booleanEquals | booleanEqualsPath
  | timestampEquals | timestampEqualsPath | timestampLessThan
  | timestampLessThanPath | timestampLessThanEquals | timestampLessThanEqualsPath
  | timestampGreaterThan | timestampGreaterThanPath | timestampGreaterThanEquals
  | timestampGreaterThanEqualsPath | isPresent | isNull | isString | isNumeric
  | isBoolean | isTimestamp
deriving DecidableEq, Repr

namespace Comparator

/-- Every comparison. -/
def all : List Comparator :=
  [.stringEquals, .stringEqualsPath, .stringLessThan, .stringLessThanPath,
    .stringLessThanEquals, .stringLessThanEqualsPath, .stringGreaterThan,
    .stringGreaterThanPath, .stringGreaterThanEquals,
    .stringGreaterThanEqualsPath, .stringMatches, .numericEquals,
    .numericEqualsPath, .numericLessThan, .numericLessThanPath,
    .numericLessThanEquals, .numericLessThanEqualsPath, .numericGreaterThan,
    .numericGreaterThanPath, .numericGreaterThanEquals,
    .numericGreaterThanEqualsPath, .booleanEquals, .booleanEqualsPath,
    .timestampEquals, .timestampEqualsPath, .timestampLessThan,
    .timestampLessThanPath, .timestampLessThanEquals,
    .timestampLessThanEqualsPath, .timestampGreaterThan,
    .timestampGreaterThanPath, .timestampGreaterThanEquals,
    .timestampGreaterThanEqualsPath, .isPresent, .isNull, .isString, .isNumeric,
    .isBoolean, .isTimestamp]

/-- The field of a choice rule that holds the operand. -/
def ruleName : Comparator → String
  | .stringEquals => "StringEquals"
  | .stringEqualsPath => "StringEqualsPath"
  | .stringLessThan => "StringLessThan"
  | .stringLessThanPath => "StringLessThanPath"
  | .stringLessThanEquals => "StringLessThanEquals"
  | .stringLessThanEqualsPath => "StringLessThanEqualsPath"
  | .stringGreaterThan => "StringGreaterThan"
  | .stringGreaterThanPath => "StringGreaterThanPath"
  | .stringGreaterThanEquals => "StringGreaterThanEquals"
  | .stringGreaterThanEqualsPath => "StringGreaterThanEqualsPath"
  | .stringMatches => "StringMatches"
  | .numericEquals => "NumericEquals"
  | .numericEqualsPath => "NumericEqualsPath"
  | .numericLessThan => "NumericLessThan"
  | .numericLessThanPath => "NumericLessThanPath"
  | .numericLessThanEquals => "NumericLessThanEquals"
  | .numericLessThanEqualsPath => "NumericLessThanEqualsPath"
  | .numericGreaterThan => "NumericGreaterThan"
  | .numericGreaterThanPath => "NumericGreaterThanPath"
  | .numericGreaterThanEquals => "NumericGreaterThanEquals"
  | .numericGreaterThanEqualsPath => "NumericGreaterThanEqualsPath"
  | .booleanEquals => "BooleanEquals"
  | .booleanEqualsPath => "BooleanEqualsPath"
  | .timestampEquals => "TimestampEquals"
  | .timestampEqualsPath => "TimestampEqualsPath"
  | .timestampLessThan => "TimestampLessThan"
  | .timestampLessThanPath => "TimestampLessThanPath"
  | .timestampLessThanEquals => "TimestampLessThanEquals"
  | .timestampLessThanEqualsPath => "TimestampLessThanEqualsPath"
  | .timestampGreaterThan => "TimestampGreaterThan"
  | .timestampGreaterThanPath => "TimestampGreaterThanPath"
  | .timestampGreaterThanEquals => "TimestampGreaterThanEquals"
  | .timestampGreaterThanEqualsPath => "TimestampGreaterThanEqualsPath"
  | .isPresent => "IsPresent"
  | .isNull => "IsNull"
  | .isString => "IsString"
  | .isNumeric => "IsNumeric"
  | .isBoolean => "IsBoolean"
  | .isTimestamp => "IsTimestamp"

/-- Written as the field name. -/
def toJson (comparator : Comparator) : Json := .str comparator.ruleName

/-- Reads a field name. -/
def reader : Reader Comparator :=
  .oneOf (all.map fun comparator => (comparator.ruleName, comparator))

end Comparator

/-- What a value is compared with. -/
inductive Operand where
  | value (literal : Json)
  /-- Another value of the running machine. -/
  | path (target : String)
  /-- What a check is expected to say. -/
  | flag (expected : Bool)
deriving DecidableEq

namespace Operand

/-- Written with the kind of the operand. -/
def toJson : Operand → Json
  | .value literal => .ofFields [("Value", literal)]
  | .path target => .ofFields [("Path", .str target)]
  | .flag expected => .ofFields [("Flag", .bool expected)]

/-- Reads an operand by its kind. -/
def reader : Reader Operand :=
  .named
    [("Value", .wrapped (Reader.json.andThen fun literal => .ok (.value literal))),
      ("Path", .wrapped (Reader.str.andThen fun target => .ok (.path target))),
      ("Flag", .wrapped (Reader.bool.andThen fun flag => .ok (.flag flag)))]

/-- The operand in a choice rule, where its kind is not written. -/
def toRule : Operand → Json
  | .value literal => literal
  | .path target => .str target
  | .flag expected => .bool expected

end Operand

/-- A test on values of the running machine. -/
inductive Condition where
  | and (conditions : List Condition)
  | or (conditions : List Condition)
  | not (condition : Condition)
  | compare (subject : String) (comparator : Comparator) (operand : Operand)

namespace Condition

mutual

/-- Written with the kind of every node. -/
def toJson : Condition → Json
  | .and conditions => .ofFields [("And", .arr (writeAll conditions))]
  | .or conditions => .ofFields [("Or", .arr (writeAll conditions))]
  | .not condition => .ofFields [("Not", condition.toJson)]
  | .compare subject comparator operand =>
    .ofFields [("Compare", .ofFields [("variable", .str subject),
      ("operator", comparator.toJson), ("operand", operand.toJson)])]

/-- Several conditions, written. -/
def writeAll : List Condition → List Json
  | [] => []
  | condition :: rest => condition.toJson :: writeAll rest

end

/-- Reads conditions up to a depth of documents. -/
def readerTo : (depth : Nat) → Reader Condition
  | 0 => .named []
  | depth + 1 =>
    let inner := readerTo depth
    .named
      [("And", .wrapped ((Reader.list inner).andThen fun all => .ok (.and all))),
        ("Or", .wrapped ((Reader.list inner).andThen fun all => .ok (.or all))),
        ("Not", .wrapped (inner.andThen fun condition => .ok (.not condition))),
        ("Compare", .structured (.compare
          <$> .required "variable" .str
          <*> .required "operator" Comparator.reader
          <*> .required "operand" Operand.reader))]

/-- Reads a condition. -/
def reader : Reader Condition := fun circumstance document =>
  readerTo document.depth circumstance document

mutual

/-- The rule of the engine for a condition. -/
def toRule : Condition → Json
  | .and conditions => .ofFields [("And", .arr (rules conditions))]
  | .or conditions => .ofFields [("Or", .arr (rules conditions))]
  | .not condition => .ofFields [("Not", condition.toRule)]
  | .compare subject comparator operand =>
    .ofFields [("Variable", .str subject), (comparator.ruleName, operand.toRule)]

/-- The rules for several conditions. -/
def rules : List Condition → List Json
  | [] => []
  | condition :: rest => condition.toRule :: rules rest

end

end Condition

end TaskMachine
