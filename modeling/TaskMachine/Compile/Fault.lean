import TaskMachine.Compile.GuardCondition
import TaskMachine.Compute.Unit
import TaskMachine.Machine.Validity

/-!
# Faults of a compilation

A `CompileFault` says why a resource does not compile: it names the resource
and, where there is one, the task.  `CompileFault.messages` is its text with the
texts of what caused it.
-/

namespace TaskMachine

/-- Why a resource does not compile. -/
inductive CompileFault where
  /-- There is no such resource. -/
  | resourceNotFound (resource : String)
  /-- Two resources of a manifest have one name. -/
  | duplicateResource (resource : String)
  /-- Only state machines compile on their own. -/
  | notAStateMachine (resource found : String)
  /-- Only map iterators can be embedded by maps. -/
  | notAMapIterator (resource iterator found : String)
  /-- A map iterator that embeds itself. -/
  | recursiveIterator (resource iterator : String)
  /-- The resource has no leaf task of the name. -/
  | unknownTask (resource task : String)
  /-- Two leaf tasks of a resource have one name. -/
  | duplicateTask (resource task : String)
  /-- A guard is no condition. -/
  | condition (resource task : String) (cause : ConditionFault)
  | emptyChoice (resource task : String)
  | emptyParallel (resource task : String)
  /-- The items of a map are a literal. -/
  | literalItemsPath (resource task : String)
  /-- There is no function for a leaf task. -/
  | missingUnit (resource task : String)
  /-- A function could not be provided. -/
  | compute (cause : ComputeFault)
  /-- The machine is not valid. -/
  | machine (resource : String) (cause : MachineFault)
  /-- A task is reached again inside a branch of its own, so that there is no
  end to the states. -/
  | endless (resource : String)
deriving DecidableEq, Repr

namespace CompileFault

/-- The text of a fault. -/
def message : CompileFault → String
  | .resourceNotFound resource => "resource not found: " ++ resource
  | .duplicateResource resource => "duplicate resource: " ++ resource
  | .notAStateMachine resource found =>
    "resource '" ++ resource ++ "' is a " ++ found ++ ", not a state machine"
  | .notAMapIterator resource iterator found =>
    "item processor '" ++ iterator ++ "' of map in '" ++ resource ++ "' is a " ++
      found ++ ", not a map iterator"
  | .recursiveIterator resource iterator =>
    "map iterator '" ++ iterator ++ "' embeds itself (from '" ++ resource ++ "')"
  | .unknownTask resource task =>
    "task '" ++ task ++ "' not found in resource '" ++ resource ++ "'"
  | .duplicateTask resource task =>
    "duplicate task '" ++ task ++ "' in resource '" ++ resource ++ "'"
  | .condition resource task cause =>
    "invalid condition in '" ++ resource ++ "' at task '" ++ task ++ "': " ++
      cause.message
  | .emptyChoice resource task =>
    "choice in '" ++ resource ++ "' at task '" ++ task ++ "' has no branches"
  | .emptyParallel resource task =>
    "parallel in '" ++ resource ++ "' at task '" ++ task ++ "' has no branches"
  | .literalItemsPath resource task =>
    "map in '" ++ resource ++ "' at task '" ++ task ++
      "' must read its items from a path"
  | .missingUnit resource task =>
    "no compute unit provisioned for task '" ++ task ++ "' in resource '" ++
      resource ++ "'"
  | .compute cause => "compute error: " ++ cause.message
  | .machine resource cause =>
    "invalid state machine '" ++ resource ++ "': " ++ cause.message
  | .endless resource =>
    "expansion of resource '" ++ resource ++ "' does not end"

/-- The text of the fault that a fault is made of, if there is one. -/
def cause? : CompileFault → Option String
  | .condition _ _ cause => some cause.message
  | .compute cause => some cause.message
  | .machine _ cause => some cause.message
  | .resourceNotFound _ | .duplicateResource _ | .notAStateMachine _ _
  | .notAMapIterator _ _ _ | .recursiveIterator _ _ | .unknownTask _ _
  | .duplicateTask _ _ | .emptyChoice _ _ | .emptyParallel _ _
  | .literalItemsPath _ _ | .missingUnit _ _ | .endless _ => none

/-- The text of a fault, and of what caused it. -/
def messages (fault : CompileFault) : List String :=
  fault.message :: fault.cause?.toList

end CompileFault

end TaskMachine
