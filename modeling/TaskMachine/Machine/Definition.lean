import TaskMachine.Machine.State

/-!
# Definitions for the engine

The rendering of a compiled machine in the engine's definition language.  States
are keyed by name and refer to one another by name; a number without a state is
rendered as the empty name.

A state that may have a successor says `Next` or `End`; the other kinds say
neither.
-/

namespace TaskMachine

/-- The resource of every state that invokes a function. -/
def invokeResource : String := "arn:aws:states:::lambda:invoke"

/-- The name of a state among the names of its graph. -/
def nameAt (names : List String) (id : StateId) : String := (names[id]?).getD ""

namespace PayloadValue

/-- The field of an entry: the name of a path ends in `.$`. -/
def definitionField (key : String) : PayloadValue → String × Json
  | .path target => (key ++ ".$", .str target)
  | .literal value => (key, value)

/-- A payload with the fields of its entries. -/
def definition (payload : SortedMap PayloadValue) : Json :=
  .ofFields (payload.entries.map fun (key, value) => value.definitionField key)

end PayloadValue

/-- A retry rule in a definition. -/
def RetryRule.definition (rule : RetryRule) : Json :=
  .ofFields (("ErrorEquals", .strings rule.errorEquals) ::
    (Json.present "IntervalSeconds" (.nat ·.toNat) rule.intervalSeconds ++
      Json.present "MaxAttempts" (.nat ·.toNat) rule.maxAttempts ++
      Json.present "BackoffRate" Double.toJson rule.backoffRate))

/-- A catch rule in a definition. -/
def CatchTransition.definition (names : List String)
    (transition : CatchTransition) : Json :=
  .ofFields (("ErrorEquals", .strings transition.errorEquals) ::
    ("Next", .str (nameAt names transition.next)) ::
    Json.present "ResultPath" .str transition.resultPath)

/-- What an invocation adds to its state. -/
def Invocation.definitionFields (names : List String) (invocation : Invocation) :
    List (String × Json) :=
  let payload : String × Json :=
    match invocation.payload with
    | some payload => ("Payload", PayloadValue.definition payload)
    | none => ("Payload.$", .str "$")
  [("Resource", .str invokeResource),
    ("Parameters", .ofFields
      [("FunctionName", .str invocation.functionName), payload]),
    ("ResultPath", .str invocation.resultPath)] ++
  Json.nonEmpty "Retry" RetryRule.definition invocation.retry ++
  Json.nonEmpty "Catch" (CatchTransition.definition names) invocation.catches

/-- A branch of a choice: the rule of its condition, with the target. -/
def ChoiceTransition.definition (names : List String)
    (transition : ChoiceTransition) : Json :=
  transition.condition.toRule.withField "Next"
    (.str (nameAt names transition.next))

/-- The word for a mode in a definition. -/
def ProcessorMode.definition : ProcessorMode → Json
  | .inline => .str "INLINE"
  | .distributed => .str "DISTRIBUTED"

/-- The word for a kind of execution in a definition. -/
def ExecutionType.definition : ExecutionType → Json
  | .standard => .str "STANDARD"
  | .express => .str "EXPRESS"

namespace MapSettings

/-- What the settings of a map add to its state. -/
def definitionFields (settings : MapSettings) : List (String × Json) :=
  [("ItemsPath", .str settings.itemsPath),
    ("ItemSelector", PayloadValue.definition settings.itemSelector)] ++
  Json.present "MaxConcurrency" (.nat ·.toNat) settings.maxConcurrency

/-- The processor of a map, told how to run if anything is said about that. -/
def definitionProcessor (settings : MapSettings) (processor : Json) : Json :=
  let config :=
    Json.present "Mode" ProcessorMode.definition settings.mode ++
      Json.present "ExecutionType" ExecutionType.definition
        settings.executionType
  if config.isEmpty then processor
  else processor.withField "ProcessorConfig" (.ofFields config)

end MapSettings

/-- How a state that may have a successor goes on. -/
def successorFields (names : List String) : Option StateId → List (String × Json)
  | some next => [("Next", .str (nameAt names next))]
  | none => [("End", .bool true)]

mutual

/-- A graph: its entry and its states under their names.  Of two states with
one name the later one is left. -/
def StateGraph.definition : StateGraph → Json
  | ⟨start, states, _⟩ =>
    let names := states.map State.name
    .ofFields [("StartAt", .str (nameAt names start)),
      ("States", .ofFields (stateDefinitions names states))]

/-- The states of a graph under their names. -/
def stateDefinitions (names : List String) : List State → List (String × Json)
  | [] => []
  | ⟨name, kind, next⟩ :: rest =>
    let successor := if kind.acceptsNext then successorFields names next else []
    (name, .ofFields (("Type", .str kind.typeName) ::
      (kind.definitionFields names ++ successor))) :: stateDefinitions names rest

/-- What a kind of state says beside its type and successor. -/
def StateKind.definitionFields (names : List String) :
    StateKind → List (String × Json)
  | .invoke invocation => invocation.definitionFields names
  | .wait seconds => [("Seconds", .nat seconds.toNat)]
  | .fail cause error => [("Cause", .str cause), ("Error", .str error)]
  | .pass | .succeed => []
  | .choice choices otherwise =>
    ("Choices", .arr (choices.map (ChoiceTransition.definition names))) ::
      Json.present "Default" (fun id => .str (nameAt names id)) otherwise
  | .parallel branches => [("Branches", .arr (graphDefinitions branches))]
  | .map settings processor =>
    settings.definitionFields ++
      [("ItemProcessor", settings.definitionProcessor processor.definition)]

/-- Several graphs. -/
def graphDefinitions : List StateGraph → List Json
  | [] => []
  | graph :: rest => graph.definition :: graphDefinitions rest

end

namespace StateMachine

/-- The definition of a machine. -/
def definition (machine : StateMachine) : Json := machine.graph.definition

end StateMachine

end TaskMachine
