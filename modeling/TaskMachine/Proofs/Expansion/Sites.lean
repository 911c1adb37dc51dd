import TaskMachine.Compile.Expansion
import TaskMachine.Proofs.Declaration.Places
import TaskMachine.Proofs.Machine.Faults

/-!
# Where an expansion comes by

A `Site` is a target with all that an expansion knows when it follows it: the units
in progress, the resource and the task it belongs to.  `Site.Reaches` is how sites
come after one another: by the references of a node that take effect, and from a map
into the iterator it embeds.  It does not speak of runs.

`Site.Sound` is what a declaration has to satisfy at a site, and `Site.Defect` says
which fault is to be reported where it does not.
-/

namespace TaskMachine

/-- A target that is followed. -/
structure Site where
  /-- The units that are being made, the innermost first. -/
  inProgress : List String
  resource : Resource
  target : Target
  /-- The task that the target belongs to. -/
  origin : String

namespace Site

/-- The task that the targets of a site belong to. -/
def innerOrigin (site : Site) : String :=
  match site.target with
  | .leaf name => name
  | .inline _ => site.origin

/-- Another target at a site's node. -/
def inner (site : Site) (next : Target) : Site where
  inProgress := site.inProgress
  resource := site.resource
  target := next
  origin := site.innerOrigin

/-- The entry of an iterator that the map at a site embeds.  The name of the map's
state depends on how many names the unit has used before. -/
def embedded (site : Site) (iterator : Resource) (supply : NameSupply) : Site where
  inProgress := iterator.name :: site.inProgress
  resource := iterator
  target := iterator.startAt
  origin := Expansion.entryName iterator.startAt
    ("start-" ++ (supply.allocate "map" site.origin).1)

/-- The site where a unit begins. -/
def unit (inProgress : List String) (resource : Resource) (entry : Target)
    (origin : String) : Site where
  inProgress := resource.name :: inProgress
  resource := resource
  target := entry
  origin := origin

/-- The site where a state machine begins. -/
def start (inProgress : List String) (resource : Resource) : Site :=
  .unit inProgress resource resource.startAt
    (Expansion.entryName resource.startAt ("start-" ++ resource.name))

/-- A site that comes after another one. -/
inductive Reaches (manifest : Manifest) (root : Site) : Site → Prop
  | root : Reaches manifest root root
  /-- Over a reference that takes effect. -/
  | step {site : Site} {step : Step} {next : Target} (h : Reaches manifest root site)
      (hstep : site.resource.at? site.target step = some next) :
      Reaches manifest root (site.inner next)
  /-- From a map into its iterator. -/
  | embed {site : Site} {items : ValueSource} {processor : String}
      {maxConcurrency : Option UInt32} {next : Option Target} {iterator : Resource}
      (h : Reaches manifest root site)
      (htarget : site.target = .inline (.map items processor maxConcurrency next))
      (hiterator : manifest.resource? processor = some iterator)
      (hfree : processor ∉ site.inProgress) (supply : NameSupply) :
      Reaches manifest root (site.embedded iterator supply)

end Site

/-- A value that stands in the declaration itself. -/
def ValueSource.IsLiteral (source : ValueSource) : Prop :=
  ∃ value, source = .reference (.custom value)

/-- All references but literals have paths. -/
theorem Reference.resolve_eq_literal {name : Option String} {target : Reference}
    {value : Json} : target.resolve name = .literal value ↔ target = .custom value := by
  cases target with
  | input source =>
      simp only [resolve]
      cases inputField source name <;> simp
  | payload source =>
      simp only [resolve]
      by_cases hroot : (source.isEmpty || source == payloadRoot) = true
      · rw [if_pos hroot]
        simp
      · rw [if_neg hroot]
        simp
  | _ => simp [resolve]

theorem ValueSource.path?_eq_none_iff {source : ValueSource} :
    source.path? = none ↔ source.IsLiteral := by
  unfold path? IsLiteral
  cases hresolve : source.resolve with
  | path target =>
      constructor
      · intro h
        cases h
      · rintro ⟨value, rfl⟩
        cases hresolve
  | literal value =>
      refine ⟨fun _ => ⟨value, ?_⟩, fun _ => rfl⟩
      have hcustom := Reference.resolve_eq_literal.mp hresolve
      cases source with
      | path text => cases hcustom
      | reference target => exact congrArg ValueSource.reference hcustom

/-- The iterator of a map can be embedded. -/
structure Embeddable (manifest : Manifest) (inProgress : List String) (items : ValueSource)
    (processor : String) (iterator : Resource) : Prop where
  items : ¬ items.IsLiteral
  resource : manifest.resource? processor = some iterator
  kind : iterator.isMapIterator = true
  free : processor ∉ inProgress

namespace Site

/-- What a control node has to satisfy. -/
def SoundNode (manifest : Manifest) (inProgress : List String) : ControlNode → Prop
  | .choice branches _ => branches ≠ [] ∧
    ∀ branch ∈ branches, ∃ condition, branch.guard.condition = .ok condition
  | .parallel branches _ _ => branches ≠ []
  | .map items processor _ _ =>
    ∃ iterator, Embeddable manifest inProgress items processor iterator
  | .wait _ _ | .fail _ _ | .pass _ _ | .succeed => True

/-- What a declaration has to satisfy at a site: the leaf tasks of the resource have
names of their own, a name is one of theirs, and a node is as it should be. -/
structure Sound (manifest : Manifest) (site : Site) : Prop where
  distinct : (site.resource.tasks.map LeafTask.name).Nodup
  declared : ∀ name, site.target = .leaf name → ∃ task, site.resource.task? name = some task
  node : ∀ control, site.target = .inline control →
    SoundNode manifest site.inProgress control

/-- A fault that says what is wrong at a site. -/
inductive Defect {σ : Type} (expansion : Expansion σ) : Site → CompileFault → Prop
  | unknownTask {inProgress : List String} {resource : Resource} {origin name : String}
      (h : resource.task? name = none) :
      Defect expansion ⟨inProgress, resource, .leaf name, origin⟩
        (.unknownTask resource.name name)
  | missingUnit {inProgress : List String} {resource : Resource} {origin name : String}
      {task : LeafTask} (htask : resource.task? name = some task) (units : σ)
      (h : (expansion.source resource task units).1 = none) :
      Defect expansion ⟨inProgress, resource, .leaf name, origin⟩
        (.missingUnit resource.name name)
  | duplicateTask {inProgress : List String} {resource : Resource} {target : Target}
      {origin task : String} (h : Repeated (resource.tasks.map LeafTask.name) task) :
      Defect expansion ⟨inProgress, resource, target, origin⟩
        (.duplicateTask resource.name task)
  | emptyChoice {inProgress : List String} {resource : Resource} {origin : String}
      (otherwise : Option Target) :
      Defect expansion ⟨inProgress, resource, .inline (.choice [] otherwise), origin⟩
        (.emptyChoice resource.name origin)
  | condition {inProgress : List String} {resource : Resource} {origin : String}
      {branches : List ChoiceBranch} {otherwise : Option Target} {branch : ChoiceBranch}
      {cause : ConditionFault} (hbranch : branch ∈ branches)
      (h : branch.guard.condition = .error cause) :
      Defect expansion ⟨inProgress, resource, .inline (.choice branches otherwise), origin⟩
        (.condition resource.name origin cause)
  | emptyParallel {inProgress : List String} {resource : Resource} {origin : String}
      (next : Option Target) (ended : Bool) :
      Defect expansion ⟨inProgress, resource, .inline (.parallel [] next ended), origin⟩
        (.emptyParallel resource.name origin)
  | literalItemsPath {inProgress : List String} {resource : Resource} {origin : String}
      {items : ValueSource} {processor : String} {maxConcurrency : Option UInt32}
      {next : Option Target} (h : items.IsLiteral) :
      Defect expansion
        ⟨inProgress, resource, .inline (.map items processor maxConcurrency next), origin⟩
        (.literalItemsPath resource.name origin)
  | resourceNotFound {inProgress : List String} {resource : Resource} {origin : String}
      {items : ValueSource} {processor : String} {maxConcurrency : Option UInt32}
      {next : Option Target} (h : expansion.manifest.resource? processor = none) :
      Defect expansion
        ⟨inProgress, resource, .inline (.map items processor maxConcurrency next), origin⟩
        (.resourceNotFound processor)
  | notAMapIterator {inProgress : List String} {resource : Resource} {origin : String}
      {items : ValueSource} {processor : String} {maxConcurrency : Option UInt32}
      {next : Option Target} {found : Resource}
      (hfound : expansion.manifest.resource? processor = some found)
      (h : found.isMapIterator = false) :
      Defect expansion
        ⟨inProgress, resource, .inline (.map items processor maxConcurrency next), origin⟩
        (.notAMapIterator resource.name processor found.kind.tag)
  | recursiveIterator {inProgress : List String} {resource : Resource} {origin : String}
      {items : ValueSource} {processor : String} {maxConcurrency : Option UInt32}
      {next : Option Target} {found : Resource}
      (hfound : expansion.manifest.resource? processor = some found)
      (h : processor ∈ inProgress) :
      Defect expansion
        ⟨inProgress, resource, .inline (.map items processor maxConcurrency next), origin⟩
        (.recursiveIterator resource.name processor)

/-- A fault says what is wrong at a site that is reached. -/
def Blames {σ : Type} (expansion : Expansion σ) (root : Site) (fault : CompileFault) :
    Prop :=
  ∃ site, root.Reaches expansion.manifest site ∧ site.Defect expansion fault

end Site

end TaskMachine
