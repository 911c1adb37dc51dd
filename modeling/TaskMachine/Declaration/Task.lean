import TaskMachine.Declaration.Function
import TaskMachine.Declaration.Guard

/-!
# Tasks and control nodes

A `Target` is where a task goes next: the name of a leaf task, or a control node
that stands right there.  A `ControlNode` waits, fails, passes, succeeds,
chooses, runs branches in parallel or runs a resource over a list of items.  A
`LeafTask` is a named function with its payload, its error handling and its
target.
-/

namespace TaskMachine

mutual

/-- What follows a task. -/
inductive Target where
  /-- The leaf task of a name. -/
  | leaf (name : String)
  /-- A control node. -/
  | inline (node : ControlNode)

/-- A node that is declared where it is used. -/
inductive ControlNode where
  /-- A delay. -/
  | wait (seconds : UInt64) (next : Target)
  /-- The end of the execution in failure. -/
  | fail (cause error : String)
  /-- Nothing; the input goes on unchanged. -/
  | pass (next : Option Target) (ended : Bool)
  /-- The end of the execution in success. -/
  | succeed
  /-- The first branch whose guard holds, or else a default. -/
  | choice (branches : List ChoiceBranch) (otherwise : Option Target)
  /-- Every branch at once, and then on. -/
  | parallel (branches : List Target) (next : Option Target) (ended : Bool)
  /-- A map iterator, run once for every item of a list. -/
  | map (items : ValueSource) (processor : String)
    (maxConcurrency : Option UInt32) (next : Option Target)

/-- A target behind a guard. -/
structure ChoiceBranch where
  guard : Guard
  next : Target

end

namespace ControlNode

/-- The word for the kind of a node. -/
def kind : ControlNode → String
  | .wait _ _ => "wait"
  | .fail _ _ => "fail"
  | .pass _ _ => "pass"
  | .succeed => "succeed"
  | .choice _ _ => "choice"
  | .parallel _ _ _ => "parallel"
  | .map _ _ _ _ => "map"

end ControlNode

mutual

/-- Written as a name or as a node. -/
def Target.toJson : Target → Json
  | .leaf name => .str name
  | .inline node => node.toJson

/-- Written as an object with the kind of the node. -/
def ControlNode.toJson : ControlNode → Json
  | .wait seconds next =>
    .ofFields [("type", .str "wait"), ("seconds", .nat seconds.toNat),
      ("next", next.toJson)]
  | .fail cause error =>
    .ofFields [("type", .str "fail"), ("cause", .str cause),
      ("error", .str error)]
  | .pass next ended =>
    .ofFields (("type", .str "pass") :: ("end", .bool ended) ::
      writeTarget "next" next)
  | .succeed => .ofFields [("type", .str "succeed")]
  | .choice branches otherwise =>
    .ofFields (("type", .str "choice") ::
      ("choices", .arr (writeBranches branches)) ::
      writeTarget "default" otherwise)
  | .parallel branches next ended =>
    .ofFields (("type", .str "parallel") ::
      ("branches", .arr (writeTargets branches)) :: ("end", .bool ended) ::
      writeTarget "next" next)
  | .map items processor maxConcurrency next =>
    .ofFields (("type", .str "map") :: ("items_path", items.toJson) ::
      ("item_processor", .str processor) ::
      (Json.present "max_concurrency" (.nat ·.toNat) maxConcurrency ++
        writeTarget "next" next))

/-- Written as one object with the fields of the guard. -/
def ChoiceBranch.toJson : ChoiceBranch → Json
  | .mk guard next => .ofFields (guard.fields ++ [("next", next.toJson)])

/-- A field that is left out where there is no target. -/
def writeTarget (key : String) : Option Target → List (String × Json)
  | none => []
  | some target => [(key, target.toJson)]

/-- Several targets, written. -/
def writeTargets : List Target → List Json
  | [] => []
  | target :: rest => target.toJson :: writeTargets rest

/-- Several guarded targets, written. -/
def writeBranches : List ChoiceBranch → List Json
  | [] => []
  | branch :: rest => branch.toJson :: writeBranches rest

end

/-- Reads a target, given a reader for nodes. -/
def Target.readerBy (node : Reader ControlNode) : Reader Target :=
  .untagged fun document =>
    match document with
    | .str name => some (.leaf name)
    | document => (node .aside document).toOption.map .inline

/-- Reads a guarded target, given a reader for targets. -/
def ChoiceBranch.readerBy (target : Reader Target) : Reader ChoiceBranch :=
  (Reader.flattened (.required "next" target) Guard.reader).andThen
    fun (next, guard) => .ok (.mk guard next)

namespace ControlNode

/-- The kinds of nodes with their fields, given a reader for targets. -/
def kinds (target : Reader Target) : List (String × Record ControlNode) :=
  let next := Record.optional ["next"] target
  let ended := Record.defaulted "end" false Reader.bool
  [("wait", .wait <$> .required "seconds" .uint64 <*> .required "next" target),
    ("fail", .fail <$> .required "cause" .str <*> .required "error" .str),
    ("pass", .pass <$> next <*> ended),
    ("succeed", pure .succeed),
    ("choice", .choice
      <$> .required "choices" (.list (ChoiceBranch.readerBy target))
      <*> .optional ["default"] target),
    ("parallel", .parallel
      <$> .required "branches" (.list target) <*> next <*> ended),
    ("map", .map
      <$> .required "items_path" ValueSource.reader
      <*> .required "item_processor" .str
      <*> .optional ["max_concurrency", "max_currency"] .uint32
      <*> next)]

/-- Reads nodes up to a depth of documents. -/
def readerTo : (depth : Nat) → Reader ControlNode
  | 0 => fun _ document =>
    .error (document.refusal fun inner => inner.isObj || inner.isArr)
  | depth + 1 => .tagged "type" (kinds (Target.readerBy (readerTo depth)))

/-- Reads a node by its kind. -/
def reader : Reader ControlNode := fun circumstance document =>
  readerTo document.depth circumstance document

end ControlNode

/-- Reads a name or a node. -/
def Target.reader : Reader Target := readerBy ControlNode.reader

/-- Reads an object with the fields of a guard and a target. -/
def ChoiceBranch.reader : Reader ChoiceBranch := readerBy Target.reader

/-- How often and when a task is tried again after certain errors. -/
structure RetryRule where
  errorEquals : List String
  intervalSeconds : Option UInt32
  maxAttempts : Option UInt32
  backoffRate : Option Double
deriving DecidableEq, Repr

/-- A double as a number; one that is not finite as `null`. -/
def Double.toJson (value : Double) : Json :=
  if value.isFinite then .number (.double value) else .null

namespace RetryRule

/-- Written without the numbers that are not set. -/
def toJson (rule : RetryRule) : Json :=
  .ofFields (("error_equals", .strings rule.errorEquals) ::
    (Json.present "interval_seconds" (.nat ·.toNat) rule.intervalSeconds ++
      Json.present "max_attempts" (.nat ·.toNat) rule.maxAttempts ++
      Json.present "backoff_rate" Double.toJson rule.backoffRate))

/-- Reads a rule. -/
def reader : Reader RetryRule :=
  Record.reader (RetryRule.mk
    <$> .required "error_equals" (.list .str)
    <*> .optional ["interval_seconds"] .uint32
    <*> .optional ["max_attempts", "max_attempt"] .uint32
    <*> .optional ["backoff_rate"] .double)

end RetryRule

/-- Where a task goes after certain errors. -/
structure CatchRule where
  errorEquals : List String
  next : Target
  resultPath : Option String

namespace CatchRule

/-- Written without the result path where it is not set. -/
def toJson (rule : CatchRule) : Json :=
  .ofFields (("error_equals", .strings rule.errorEquals) ::
    ("next", rule.next.toJson) ::
    Json.present "result_path" .str rule.resultPath)

/-- Reads a rule. -/
def reader : Reader CatchRule :=
  Record.reader (CatchRule.mk
    <$> .required "error_equals" (.list .str)
    <*> .required "next" Target.reader
    <*> .optional ["result_path"] .str)

end CatchRule

/-- A task that is run by a function. -/
structure LeafTask where
  name : String
  function : FunctionSettings := {}
  /-- The entries of the payload; without any the whole input is passed. -/
  params : List Binding := []
  retry : List RetryRule := []
  catches : List CatchRule := []
  next : Option Target := none
  /-- Whether the task ends its path, whatever `next` says. -/
  ended : Bool := false

namespace LeafTask

/-- Written without empty lists. -/
def toJson (task : LeafTask) : Json :=
  .ofFields (("name", .str task.name) :: ("function", task.function.toJson) ::
    (Json.nonEmpty "params" Binding.toJson task.params ++
      Json.nonEmpty "retry" RetryRule.toJson task.retry ++
      Json.nonEmpty "catch" CatchRule.toJson task.catches ++
      Json.present "next" Target.toJson task.next ++
      [("end", .bool task.ended)]))

/-- Reads a task. -/
def reader : Reader LeafTask :=
  Record.reader (LeafTask.mk
    <$> .required "name" .str
    <*> .defaulted "function" {} FunctionSettings.reader
    <*> .defaulted "params" [] (.list Binding.reader)
    <*> .defaulted "retry" [] (.list RetryRule.reader)
    <*> .defaulted "catch" [] (.list CatchRule.reader)
    <*> .optional ["next"] Target.reader
    <*> .defaulted "end" false .bool)

end LeafTask

end TaskMachine
