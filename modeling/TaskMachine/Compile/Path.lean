import TaskMachine.Machine.State

/-!
# Paths of references

Every context has a fixed root; a reference becomes the root and, behind a point,
what it names inside.  A literal stays a literal.
-/

namespace TaskMachine

/-- Something inside a root. -/
def joinPath (root field : String) : String := root ++ "." ++ field

namespace Reference

/-- The root of the execution's own values. -/
def executionRoot : String := "$$.Execution"

/-- The root of the execution's input. -/
def inputRoot : String := "$$.Execution.Input"

/-- The root of the current state's values. -/
def stateRoot : String := "$$.State"

/-- The root of the machine's values. -/
def machineRoot : String := "$$.StateMachine"

/-- The root of the current task's values. -/
def taskRoot : String := "$$.Task"

/-- The root of the current state's input. -/
def payloadRoot : String := "$"

/-- The root of a map's current item. -/
def itemRoot : String := "$$.Map.Item"

/-- The part of the execution's input that is meant: the source, or without one
the name of the binding. -/
def inputField (source name : Option String) : Option String :=
  match source with
  | some field => if field.isEmpty then name else some field
  | none => name

/-- The path or literal of a reference that is bound to a name. -/
def resolve (name : Option String) : Reference → PayloadValue
  | .execution field => .path (joinPath executionRoot field.fieldName)
  | .input source =>
    match inputField source name with
    | some field => .path (joinPath inputRoot field)
    | none => .path inputRoot
  | .state field => .path (joinPath stateRoot field.fieldName)
  | .machine field => .path (joinPath machineRoot field.fieldName)
  | .task field => .path (joinPath taskRoot field.fieldName)
  | .payload source =>
    if source.isEmpty || source == payloadRoot then .path payloadRoot
    else .path (joinPath payloadRoot source)
  | .item field => .path (joinPath itemRoot field.fieldName)
  | .custom value => .literal value

end Reference

namespace ValueSource

/-- The path or literal of a source without a name. -/
def resolve (source : ValueSource) : PayloadValue := source.toReference.resolve none

/-- The path of a source, if it is not a literal. -/
def path? (source : ValueSource) : Option String :=
  match source.resolve with
  | .path target => some target
  | .literal _ => none

end ValueSource

namespace Binding

/-- The entry of a payload for a binding. -/
def resolve (binding : Binding) : String × PayloadValue :=
  (binding.name, binding.reference.resolve (some binding.name))

end Binding

/-- The payload of bindings; none where there are no bindings.  Of two bindings
with one name the later one counts. -/
def payloadOf (bindings : List Binding) : Option (SortedMap PayloadValue) :=
  if bindings.isEmpty then none else some (.ofList (bindings.map Binding.resolve))

/-- What the processor of a map gets for every item. -/
def itemSelector : SortedMap PayloadValue :=
  .ofList [("index", .path "$$.Map.Item.Index"), ("value", .path "$$.Map.Item.Value")]

end TaskMachine
