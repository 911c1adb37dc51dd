import TaskMachine.Compute.Unit

/-!
# Where function names come from

A compilation asks a `UnitSource` for the name of the function of every leaf task
it reaches.  There are two: a `Plan` knows every name beforehand and collects the
requests that would provide the functions; a `UnitTable` knows the functions that
were provided.
-/

namespace TaskMachine

/-- Settings of a compilation. -/
structure Settings where
  /-- What the names of functions begin with. -/
  handlerPrefix : String := "sf-handler"
  /-- The kinds of handler files that are left out of the code. -/
  exclusions : List String := ["api", "event"]
  /-- Where invocations put their result. -/
  resultPath : String := "$"
deriving DecidableEq, Repr, Inhabited

/-- Answers with the name of the function of a leaf task, if it has one, from a
state that it may change. -/
abbrev UnitSource (σ : Type) := Resource → LeafTask → σ → Option String × σ

/-- The requests of a resource, one for every leaf task, in the order in which
the tasks were reached. -/
structure Plan where
  namePrefix : String
  exclusions : List String
  requests : List UnitRequest := []
deriving DecidableEq

namespace Plan

/-- The plan without requests. -/
def ofSettings (settings : Settings) : Plan where
  namePrefix := settings.handlerPrefix
  exclusions := settings.exclusions

/-- The request for the function of a leaf task. -/
def request (plan : Plan) (resource : Resource) (task : LeafTask) : UnitRequest where
  resource := resource.name
  source := resource.source
  handler := task.name
  function := task.function
  namePrefix := plan.namePrefix
  exclusions := plan.exclusions

/-- Whether a leaf task of a resource has its request. -/
def covers (plan : Plan) (resource task : String) : Bool :=
  plan.requests.any fun request =>
    request.resource == resource && request.handler == task

/-- The plan with the request for a leaf task, which is added once. -/
def add (plan : Plan) (resource : Resource) (task : LeafTask) : Plan :=
  if plan.covers resource.name task.name then plan
  else { plan with requests := plan.requests ++ [plan.request resource task] }

/-- Every leaf task has the name that its function will get. -/
def source : UnitSource Plan := fun resource task plan =>
  (some (plan.request resource task).functionName, plan.add resource task)

/-- How many requests there are. -/
def size (plan : Plan) : Nat := plan.requests.length

/-- Whether there are no requests. -/
def isEmpty (plan : Plan) : Bool := plan.requests.isEmpty

end Plan

/-- The functions of leaf tasks, by the names of resource and task. -/
structure UnitTable where
  entries : List ((String × String) × UnitHandle) := []
deriving DecidableEq, Repr, Inhabited

namespace UnitTable

/-- Puts an entry in the place of one with the same names, or at the end. -/
def put (key : String × String) (handle : UnitHandle) :
    List ((String × String) × UnitHandle) →
      List ((String × String) × UnitHandle)
  | [] => [(key, handle)]
  | entry :: rest =>
    if entry.1 = key then (key, handle) :: rest else entry :: put key handle rest

/-- The table with the function of a leaf task. -/
def insert (table : UnitTable) (resource task : String) (handle : UnitHandle) :
    UnitTable :=
  ⟨put (resource, task) handle table.entries⟩

/-- The function of a leaf task. -/
def get? (table : UnitTable) (resource task : String) : Option UnitHandle :=
  table.entries.lookup (resource, task)

theorem lookup_put (key other : String × String) (handle : UnitHandle)
    (entries : List ((String × String) × UnitHandle)) :
    (put key handle entries).lookup other =
      if other = key then some handle else entries.lookup other := by
  induction entries with
  | nil =>
    by_cases h : other = key
    · simp [put, h]
    · simp [put, List.lookup_cons, h, beq_false_of_ne h]
  | cons entry rest ih =>
    obtain ⟨name, kept⟩ := entry
    by_cases same : name = key
    · by_cases h : other = key
      · simp [put, same, h]
      · simp [put, List.lookup_cons, same, h, beq_false_of_ne h]
    · by_cases found : other = name
      · simp [put, same, found]
      · simp [put, List.lookup_cons, same, beq_false_of_ne found, ih]

/-- A lookup after an insertion finds the new function under its names, and what
was there before under all others. -/
theorem get?_insert (table : UnitTable) (resource task resource' task' : String)
    (handle : UnitHandle) :
    (table.insert resource task handle).get? resource' task' =
      if (resource', task') = (resource, task) then some handle
      else table.get? resource' task' :=
  lookup_put (resource, task) (resource', task') handle table.entries

/-- The functions, ordered by name. -/
def handles (table : UnitTable) : List UnitHandle :=
  (table.entries.map Prod.snd).mergeSort fun a b =>
    decide (a.functionName ≤ b.functionName)

/-- How many functions there are. -/
def size (table : UnitTable) : Nat := table.entries.length

/-- Whether there are no functions. -/
def isEmpty (table : UnitTable) : Bool := table.entries.isEmpty

/-- A leaf task has the name of its function. -/
def source : UnitSource UnitTable := fun resource task table =>
  ((table.get? resource.name task.name).map UnitHandle.functionName, table)

end UnitTable

end TaskMachine
