import TaskMachine.Machine.State

/-!
# Stored form of compiled machines

The form in which a compiled machine is kept: every distinction of the types is
written, optional fields that are not set as `null`.  It is not the definition
that the engine reads, see `StateMachine.definition` for that.

Each type has its writer and its reader side by side.
-/

namespace TaskMachine

namespace PayloadValue

/-- Written with the kind of the entry. -/
def toJson : PayloadValue → Json
  | .path target => .ofFields [("Path", .str target)]
  | .literal value => .ofFields [("Literal", value)]

/-- Reads an entry by its kind. -/
def reader : Reader PayloadValue :=
  .named
    [("Path", .wrapped (Reader.str.andThen fun target => .ok (.path target))),
      ("Literal", .wrapped (Reader.json.andThen fun value => .ok (.literal value)))]

/-- A payload, written as an object. -/
def mapToJson (payload : SortedMap PayloadValue) : Json :=
  .obj (payload.mapValues toJson)

end PayloadValue

namespace CatchTransition

/-- Written with the number of the target. -/
def toJson (transition : CatchTransition) : Json :=
  .ofFields [("error_equals", .strings transition.errorEquals),
    ("next", .nat transition.next),
    ("result_path", .nullable .str transition.resultPath)]

/-- Reads a transition. -/
def reader : Reader CatchTransition :=
  Record.reader (CatchTransition.mk
    <$> .required "error_equals" (.list .str)
    <*> .required "next" .natural
    <*> .nullable "result_path" .str)

end CatchTransition

namespace Invocation

/-- Written with `null` for a payload that is not set. -/
def toJson (invocation : Invocation) : Json :=
  .ofFields [("task", .str invocation.task),
    ("function_name", .str invocation.functionName),
    ("payload", .nullable PayloadValue.mapToJson invocation.payload),
    ("result_path", .str invocation.resultPath),
    ("retry", .arr (invocation.retry.map RetryRule.toJson)),
    ("catch", .arr (invocation.catches.map CatchTransition.toJson))]

/-- Reads an invocation. -/
def reader : Reader Invocation :=
  Record.reader (Invocation.mk
    <$> .required "task" .str
    <*> .required "function_name" .str
    <*> .nullable "payload" (.map PayloadValue.reader)
    <*> .required "result_path" .str
    <*> .required "retry" (.list RetryRule.reader)
    <*> .required "catch" (.list CatchTransition.reader))

end Invocation

namespace ChoiceTransition

/-- Written with the number of the target. -/
def toJson (transition : ChoiceTransition) : Json :=
  .ofFields [("condition", transition.condition.toJson),
    ("next", .nat transition.next)]

/-- Reads a transition. -/
def reader : Reader ChoiceTransition :=
  Record.reader (ChoiceTransition.mk
    <$> .required "condition" Condition.reader
    <*> .required "next" .natural)

end ChoiceTransition

namespace MapSettings

/-- The fields of the settings in the object of a map state. -/
def fields (settings : MapSettings) : List (String × Json) :=
  [("items_path", .str settings.itemsPath),
    ("item_selector", PayloadValue.mapToJson settings.itemSelector),
    ("max_concurrency", .nullable (.nat ·.toNat) settings.maxConcurrency),
    ("processor_config", .ofFields
      [("mode", .nullable ProcessorMode.toJson settings.mode),
        ("execution_type",
          .nullable ExecutionType.toJson settings.executionType)])]

/-- Reads how the items are run. -/
def configReader : Reader (Option ProcessorMode × Option ExecutionType) :=
  Record.reader (Prod.mk
    <$> .nullable "mode" ProcessorMode.reader
    <*> .nullable "execution_type" ExecutionType.reader)

end MapSettings

mutual

/-- Written with its entry, its states and its register. -/
def StateGraph.toJson : StateGraph → Json
  | ⟨start, states, tasks⟩ =>
    .ofFields [("start", .nat start), ("states", .arr (writeStates states)),
      ("tasks", .obj (tasks.mapValues .nat))]

/-- Written with `null` for no successor. -/
def State.toJson : State → Json
  | ⟨name, kind, next⟩ =>
    .ofFields [("name", .str name), ("kind", kind.toJson),
      ("next", .nullable .nat next)]

/-- Written with the name of the kind. -/
def StateKind.toJson : StateKind → Json
  | .invoke invocation => .ofFields [("Invoke", invocation.toJson)]
  | .wait seconds =>
    .ofFields [("Wait", .ofFields [("seconds", .nat seconds.toNat)])]
  | .fail cause error =>
    .ofFields [("Fail", .ofFields [("cause", .str cause), ("error", .str error)])]
  | .pass => .str "Pass"
  | .succeed => .str "Succeed"
  | .choice choices otherwise =>
    .ofFields [("Choice", .ofFields
      [("choices", .arr (choices.map ChoiceTransition.toJson)),
        ("default", .nullable .nat otherwise)])]
  | .parallel branches =>
    .ofFields [("Parallel", .ofFields [("branches", .arr (writeGraphs branches))])]
  | .map settings processor =>
    .ofFields [("Map",
      .ofFields (("processor", processor.toJson) :: settings.fields))]

/-- Several states, written. -/
def writeStates : List State → List Json
  | [] => []
  | state :: rest => state.toJson :: writeStates rest

/-- Several graphs, written. -/
def writeGraphs : List StateGraph → List Json
  | [] => []
  | graph :: rest => graph.toJson :: writeGraphs rest

end

namespace StateKind

/-- The kinds of states, given a reader for graphs. -/
def forms (graph : Reader StateGraph) : List (String × Reader.Form StateKind) :=
  [("Invoke", .wrapped (Invocation.reader.andThen fun it => .ok (.invoke it))),
    ("Wait", .structured (.wait <$> .required "seconds" .uint64)),
    ("Fail", .structured
      (.fail <$> .required "cause" .str <*> .required "error" .str)),
    ("Pass", .bare .pass),
    ("Succeed", .bare .succeed),
    ("Choice", .wrapped (Record.reader (.choice
      <$> .required "choices" (.list ChoiceTransition.reader)
      <*> .nullable "default" .natural))),
    ("Parallel", .wrapped (Record.reader
      (.parallel <$> .required "branches" (.list graph)))),
    ("Map", .wrapped (Record.reader
      ((fun path selector limit processor (mode, type) =>
          .map ⟨path, selector, limit, mode, type⟩ processor)
        <$> .required "items_path" .str
        <*> .required "item_selector" (.map PayloadValue.reader)
        <*> .nullable "max_concurrency" .uint32
        <*> .required "processor" graph
        <*> .required "processor_config" MapSettings.configReader)))]

end StateKind

/-- The fields of a state, given a reader for graphs. -/
def State.record (graph : Reader StateGraph) : Record State :=
  State.mk
    <$> .required "name" .str
    <*> .required "kind" (.named (StateKind.forms graph))
    <*> .nullable "next" .natural

/-- The fields of a graph, given a reader for states. -/
def StateGraph.record (state : Reader State) : Record StateGraph :=
  StateGraph.mk
    <$> .required "start" .natural
    <*> .required "states" (.list state)
    <*> .required "tasks" (.map .natural)

/-- Reads graphs up to a depth of documents. -/
def StateGraph.readerTo : (depth : Nat) → Reader StateGraph
  | 0 => fun _ document =>
    .error (document.refusal fun inner => inner.isObj || inner.isArr)
  | depth + 1 => (record (State.record (readerTo depth)).reader).reader

/-- Reads a graph. -/
def StateGraph.reader : Reader StateGraph := fun circumstance document =>
  readerTo document.depth circumstance document

/-- Reads a state. -/
def State.reader : Reader State := (record StateGraph.reader).reader

namespace StateMachine

/-- Written with its name and its graph. -/
def toJson (machine : StateMachine) : Json :=
  .ofFields [("name", .str machine.name), ("graph", machine.graph.toJson)]

/-- Reads a machine. -/
def reader : Reader StateMachine :=
  Record.reader (StateMachine.mk
    <$> .required "name" .str
    <*> .required "graph" StateGraph.reader)

end StateMachine

end TaskMachine
