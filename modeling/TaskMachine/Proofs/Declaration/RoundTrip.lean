import TaskMachine.Proofs.Declaration.Obtained
import TaskMachine.Proofs.Declaration.Rereading

/-!
# Writing and reading a declaration

`DeclaredType` lists the types that a declaration is made of, each with how its values are
written as JSON and how they are read.  The two go together in both directions: a sound
value is read back as it was (`reads`), and what is read is sound (`yields`).  So the second
reading of a declaration that was read, written and read again gives what the first one
gave: `round_trip`.

This is about JSON values.  How text spells numbers, and how deep a text may be, is a matter
of the printer and the scanner.
-/

namespace TaskMachine

/-- The types of a declaration. -/
inductive DeclaredType where
  | manifest | resource | leafTask
  | target | controlNode | choiceBranch
  | catchRule | retryRule
  | guard
  | reference | binding | valueSource
  | functionSettings | envEntry
deriving DecidableEq, Repr

namespace DeclaredType

/-- The values of a type. -/
def Carrier : DeclaredType → Type
  | manifest => Manifest
  | resource => Resource
  | leafTask => LeafTask
  | target => Target
  | controlNode => ControlNode
  | choiceBranch => ChoiceBranch
  | catchRule => CatchRule
  | retryRule => RetryRule
  | guard => Guard
  | reference => Reference
  | binding => Binding
  | valueSource => ValueSource
  | functionSettings => FunctionSettings
  | envEntry => EnvEntry

/-- How the values of a type are written. -/
def write : (type : DeclaredType) → type.Carrier → Json
  | manifest => Manifest.toJson
  | resource => Resource.toJson
  | leafTask => LeafTask.toJson
  | target => Target.toJson
  | controlNode => ControlNode.toJson
  | choiceBranch => ChoiceBranch.toJson
  | catchRule => CatchRule.toJson
  | retryRule => RetryRule.toJson
  | guard => Guard.toJson
  | reference => Reference.toJson
  | binding => Binding.toJson
  | valueSource => ValueSource.toJson
  | functionSettings => FunctionSettings.toJson
  | envEntry => EnvEntry.toJson

/-- How the values of a type are read. -/
def reader : (type : DeclaredType) → Reader type.Carrier
  | manifest => Manifest.reader
  | resource => Resource.reader
  | leafTask => LeafTask.reader
  | target => Target.reader
  | controlNode => ControlNode.reader
  | choiceBranch => ChoiceBranch.reader
  | catchRule => CatchRule.reader
  | retryRule => RetryRule.reader
  | guard => Guard.reader
  | reference => Reference.reader
  | binding => Binding.reader
  | valueSource => ValueSource.reader
  | functionSettings => FunctionSettings.reader
  | envEntry => EnvEntry.reader

/-- The values of a type that can be told apart once they are written.  Types without guards
and retry rules inside have no others. -/
def Sound : (type : DeclaredType) → type.Carrier → Prop
  | manifest => Manifest.Sound
  | resource => Resource.Sound
  | leafTask => LeafTask.Sound
  | target => Target.Sound
  | controlNode => ControlNode.Sound
  | choiceBranch => ChoiceBranch.Sound
  | catchRule => CatchRule.Sound
  | retryRule => RetryRule.Sound
  | guard => Guard.Sound
  | reference | binding | valueSource | functionSettings | envEntry => fun _ => True

theorem reads (type : DeclaredType) (value : type.Carrier) (h : type.Sound value) :
    type.reader.Reads (type.write value) value := by
  cases type with
  | manifest => exact Manifest.reads value h
  | resource => exact Resource.reads value h
  | leafTask => exact LeafTask.reads value h
  | target => exact Target.reads value h
  | controlNode => exact ControlNode.reads value h
  | choiceBranch => exact ChoiceBranch.reads value h
  | catchRule => exact CatchRule.reads value h
  | retryRule => exact RetryRule.reads value h
  | guard => exact Guard.reads value h
  | reference => exact Reference.reads value
  | binding => exact Binding.reads value
  | valueSource => exact ValueSource.reads value
  | functionSettings => exact FunctionSettings.reads value
  | envEntry => exact EnvEntry.reads value

theorem yields (type : DeclaredType) : type.reader.Yields type.Sound := by
  cases type with
  | manifest => exact Manifest.yields
  | resource => exact Resource.yields
  | leafTask => exact LeafTask.yields
  | target => exact Target.yields
  | controlNode => exact ControlNode.yields
  | choiceBranch => exact ChoiceBranch.yields
  | catchRule => exact CatchRule.yields
  | retryRule => exact RetryRule.yields
  | guard => exact Guard.yields
  | reference | binding | valueSource | functionSettings | envEntry =>
      exact Reader.yields_any _

variable {type : DeclaredType} {value : type.Carrier}

/-- Reading what was written gives the value again. -/
theorem fromJson_write (h : type.Sound value) :
    type.reader.fromJson (type.write value) = .ok value :=
  type.reads value h .value

theorem sound_of_fromJson {json : Json} (hfinite : json.Finite)
    (h : type.reader.fromJson json = .ok value) : type.Sound value :=
  type.yields .value (.ofJson json) value hfinite h

theorem sound_of_fromText {text : String} (h : type.reader.fromText text = .ok value) :
    type.Sound value := by
  have hfinite := Document.finite_ofText text
  unfold Reader.fromText at h
  obtain ⟨found, hfound, hrest⟩ := exists_of_bind_eq_ok h
  split at hrest
  · cases hrest
    exact type.yields .text _ value hfinite hfound
  · cases hrest

/-- Sound values are just those that survive being written and read. -/
theorem sound_iff (hfinite : (type.write value).Finite) :
    type.Sound value ↔ type.reader.fromJson (type.write value) = .ok value :=
  ⟨fromJson_write, sound_of_fromJson hfinite⟩

/-- Sound values of every type survive being written and read.  What is read of a JSON value
or of a text is sound, so it survives being written and read again. -/
theorem round_trip (type : DeclaredType) :
    (∀ value, type.Sound value → type.reader.fromJson (type.write value) = .ok value) ∧
    (∀ json value, json.Finite → type.reader.fromJson json = .ok value →
      type.Sound value ∧ type.reader.fromJson (type.write value) = .ok value) ∧
    (∀ text value, type.reader.fromText text = .ok value →
      type.Sound value ∧ type.reader.fromJson (type.write value) = .ok value) := by
  refine ⟨fun value => fromJson_write, ?_, ?_⟩
  · intro json value hfinite hread
    have hsound := sound_of_fromJson hfinite hread
    exact ⟨hsound, fromJson_write hsound⟩
  · intro text value hread
    have hsound := sound_of_fromText hread
    exact ⟨hsound, fromJson_write hsound⟩

/-- A task with guards inside one another. -/
def assessing : LeafTask where
  name := "assess"
  retry := [⟨["States.Timeout"], some 1, some 2, some (.ofInt 2)⟩]
  next := some (.inline (.choice
    [⟨.combined .or [.not (.comparison "stringEquals" (.path "level") (.str "low")),
      .check "isNull" (.reference (.execution .redriveTime))], .leaf "page"⟩] none))

/-- The task and the one behind the guards. -/
def escalating : Manifest where
  resources := [{
    name := "escalating"
    source := ⟨"code", "escalating"⟩
    kind := .stateMachine (.leaf "assess")
    tasks := [assessing, { name := "page", ended := true }] }]

/-- A rule with a rate. -/
def lingering : RetryRule := ⟨["States.ALL"], some 3, none, some (.ofInt 2)⟩

/-- The rule as a list of its fields. -/
def lingeringFields : Json := .arr [.arr [.str "States.ALL"], .nat 3, .null, .nat 2]

theorem sound_assessing : assessing.Sound where
  retry := by simp [assessing, RetryRule.Sound, Double.isFinite_ofInt]
  catches := by simp [assessing]
  next := by
    simp [assessing, Target.Sound, ControlNode.Sound, ChoiceBranch.Sound, soundBranches,
      soundTarget, Guard.Sound, Guard.AllSound, Guard.IsPlain, Json.str_ne_null]

theorem sound_escalating : escalating.Sound := by
  intro resource hresource
  rw [List.mem_singleton.mp hresource]
  constructor
  · simp [Resource.startAt, ResourceKind.startAt, Target.Sound]
  · intro task htask
    rcases List.mem_cons.mp htask with rfl | hlast
    · exact sound_assessing
    · rw [List.mem_singleton.mp hlast]
      constructor <;> simp

theorem finite_lingeringFields : lingeringFields.Finite := by
  simp [lingeringFields, Json.Finite, Json.nat, Json.int, Document.Finite, finiteItems,
    Number.Finite]

/-- The manifest is read back as it was.  The rule stands in a value and in a text as a list,
and is read again from the object that it is written as. -/
theorem round_trip_escalating :
    (manifest.Sound escalating ∧
      manifest.reader.fromJson (manifest.write escalating) = .ok escalating) ∧
    (lingeringFields.Finite ∧ retryRule.reader.fromJson lingeringFields = .ok lingering ∧
      retryRule.reader.fromJson (retryRule.write lingering) = .ok lingering) ∧
    (retryRule.reader.fromText "[[\"States.ALL\"], 3, null, 2.0]" = .ok lingering ∧
      retryRule.reader.fromJson (retryRule.write lingering) = .ok lingering) := by
  have hjson : RetryRule.reader.fromJson lingeringFields = .ok lingering := by
    decide +kernel
  have htext : RetryRule.reader.fromText "[[\"States.ALL\"], 3, null, 2.0]" =
      .ok lingering := by
    decide +kernel
  obtain ⟨hwritten, _, _⟩ := round_trip manifest
  obtain ⟨_, hvalues, htexts⟩ := round_trip retryRule
  constructor
  · exact ⟨sound_escalating, hwritten escalating sound_escalating⟩
  · constructor
    · obtain ⟨_, hagain⟩ := hvalues lingeringFields lingering finite_lingeringFields hjson
      exact ⟨finite_lingeringFields, hjson, hagain⟩
    · obtain ⟨_, hagain⟩ := htexts _ lingering htext
      exact ⟨htext, hagain⟩

end DeclaredType

end TaskMachine
