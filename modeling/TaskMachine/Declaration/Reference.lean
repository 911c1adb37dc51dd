import TaskMachine.Json.Alternative

/-!
# References to values of a running machine

A `Reference` names a context of the running machine and something inside it,
or carries a literal value.  A `Binding` gives it a name, as an entry of a task's
payload.  A `ValueSource` is where a condition or a map takes its value from: a
reference, or a bare path as short form for one into the payload.

Every type comes with the way it is written and the way it is read.
-/

namespace TaskMachine

/-- What is known about the execution. -/
inductive ExecutionField where
  | id | input | name | roleArn | startTime | redriveCount | redriveTime
deriving DecidableEq, Repr

namespace ExecutionField

/-- Every field, by its keyword in a declaration. -/
def all : List (String × ExecutionField) :=
  [("id", .id), ("input", .input), ("name", .name), ("role_arn", .roleArn),
    ("start_time", .startTime), ("redrive_count", .redriveCount),
    ("redrive_time", .redriveTime)]

/-- The keyword in a declaration. -/
def keyword : ExecutionField → String
  | .id => "id"
  | .input => "input"
  | .name => "name"
  | .roleArn => "role_arn"
  | .startTime => "start_time"
  | .redriveCount => "redrive_count"
  | .redriveTime => "redrive_time"

/-- The name in a path. -/
def fieldName : ExecutionField → String
  | .id => "Id"
  | .input => "Input"
  | .name => "Name"
  | .roleArn => "RoleArn"
  | .startTime => "StartTime"
  | .redriveCount => "RedriveCount"
  | .redriveTime => "RedriveTime"

/-- Written as the keyword. -/
def toJson (field : ExecutionField) : Json := .str field.keyword

/-- Reads a keyword. -/
def reader : Reader ExecutionField := .oneOf all

end ExecutionField

/-- What is known about the current state. -/
inductive StateField where
  | enteredTime | name | retryCount
deriving DecidableEq, Repr

namespace StateField

/-- Every field, by its keyword in a declaration. -/
def all : List (String × StateField) :=
  [("entered_time", .enteredTime), ("name", .name), ("retry_count", .retryCount)]

/-- The keyword in a declaration. -/
def keyword : StateField → String
  | .enteredTime => "entered_time"
  | .name => "name"
  | .retryCount => "retry_count"

/-- The name in a path. -/
def fieldName : StateField → String
  | .enteredTime => "EnteredTime"
  | .name => "Name"
  | .retryCount => "RetryCount"

/-- Written as the keyword. -/
def toJson (field : StateField) : Json := .str field.keyword

/-- Reads a keyword. -/
def reader : Reader StateField := .oneOf all

end StateField

/-- What is known about the state machine. -/
inductive MachineField where
  | id | name
deriving DecidableEq, Repr

namespace MachineField

/-- Every field, by its keyword in a declaration. -/
def all : List (String × MachineField) := [("id", .id), ("name", .name)]

/-- The keyword in a declaration. -/
def keyword : MachineField → String
  | .id => "id"
  | .name => "name"

/-- The name in a path. -/
def fieldName : MachineField → String
  | .id => "Id"
  | .name => "Name"

/-- Written as the keyword. -/
def toJson (field : MachineField) : Json := .str field.keyword

/-- Reads a keyword. -/
def reader : Reader MachineField := .oneOf all

end MachineField

/-- What is known about the current task. -/
inductive TaskField where
  | token
deriving DecidableEq, Repr

namespace TaskField

/-- Every field, by its keyword in a declaration. -/
def all : List (String × TaskField) := [("token", .token)]

/-- The keyword in a declaration. -/
def keyword : TaskField → String
  | .token => "token"

/-- The name in a path. -/
def fieldName : TaskField → String
  | .token => "Token"

/-- Written as the keyword. -/
def toJson (field : TaskField) : Json := .str field.keyword

/-- Reads a keyword. -/
def reader : Reader TaskField := .oneOf all

end TaskField

/-- What is known about the current item of a map. -/
inductive ItemField where
  | index | value
deriving DecidableEq, Repr

namespace ItemField

/-- Every field, by its keyword in a declaration. -/
def all : List (String × ItemField) := [("index", .index), ("value", .value)]

/-- The keyword in a declaration. -/
def keyword : ItemField → String
  | .index => "index"
  | .value => "value"

/-- The name in a path. -/
def fieldName : ItemField → String
  | .index => "Index"
  | .value => "Value"

/-- Written as the keyword. -/
def toJson (field : ItemField) : Json := .str field.keyword

/-- Reads a keyword. -/
def reader : Reader ItemField := .oneOf all

end ItemField

/-- A pointer into a context of the running machine, or a literal. -/
inductive Reference where
  | execution (field : ExecutionField)
  /-- The input the execution was started with.  Without a source the name of
  the binding stands for it. -/
  | input (source : Option String)
  | state (field : StateField)
  | machine (field : MachineField)
  | task (field : TaskField)
  /-- The input of the current state. -/
  | payload (source : String)
  /-- The current item of a map. -/
  | item (field : ItemField)
  /-- A value that is passed on unchanged. -/
  | custom (value : Json)
deriving DecidableEq

namespace Reference

/-- The fields of a reference in an object. -/
def fields : Reference → List (String × Json)
  | .execution field => [("context", .str "execution"), ("source", field.toJson)]
  | .input source =>
    ("context", .str "input") :: Json.present "source" .str source
  | .state field => [("context", .str "state"), ("source", field.toJson)]
  | .machine field =>
    [("context", .str "state_machine"), ("source", field.toJson)]
  | .task field => [("context", .str "task"), ("source", field.toJson)]
  | .payload source => [("context", .str "payload"), ("source", .str source)]
  | .item field => [("context", .str "map"), ("source", field.toJson)]
  | .custom value => [("context", .str "custom"), ("value", value)]

/-- Written as an object that names the context. -/
def toJson (reference : Reference) : Json := .ofFields reference.fields

/-- Reads a reference by the context it names. -/
def reader : Reader Reference :=
  .tagged "context"
    [("execution", .execution <$> .required "source" ExecutionField.reader),
      ("input", .input <$> .optional ["source"] .str),
      ("state", .state <$> .required "source" StateField.reader),
      ("state_machine", .machine <$> .required "source" MachineField.reader),
      ("task", .task <$> .required "source" TaskField.reader),
      ("payload", .payload <$> .required "source" .str),
      ("map", .item <$> .required "source" ItemField.reader),
      ("custom", .custom <$> .required "value" .json)]

end Reference

/-- A reference under a name: one entry of a payload. -/
structure Binding where
  name : String
  reference : Reference
deriving DecidableEq

namespace Binding

/-- Written as one object with the fields of the reference. -/
def toJson (binding : Binding) : Json :=
  .ofFields (("name", .str binding.name) :: binding.reference.fields)

/-- Reads an object with the fields of a reference and a name. -/
def reader : Reader Binding :=
  (Reader.flattened (.required "name" .str) Reference.reader).andThen
    fun (name, reference) => .ok ⟨name, reference⟩

end Binding

/-- Where a value is taken from. -/
inductive ValueSource where
  /-- Short for a reference into the payload. -/
  | path (source : String)
  | reference (target : Reference)
deriving DecidableEq

namespace ValueSource

/-- The source as a reference. -/
def toReference : ValueSource → Reference
  | .path source => .payload source
  | .reference target => target

/-- Written as a string or as a reference. -/
def toJson : ValueSource → Json
  | .path source => .str source
  | .reference target => target.toJson

/-- Reads a string or a reference. -/
def reader : Reader ValueSource :=
  .untagged fun document =>
    match document with
    | .str source => some (.path source)
    | document => (Reference.reader .aside document).toOption.map .reference

end ValueSource

end TaskMachine
