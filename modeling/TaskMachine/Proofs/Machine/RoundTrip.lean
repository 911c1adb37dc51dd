import TaskMachine.Proofs.Json.Finite
import TaskMachine.Proofs.Machine.Restored

/-!
# Storing and restoring a compiled machine

`StoredType` lists the types that a compiled machine is made of, and the handles of its
functions, each with how its values are stored and how they are read.  `restored` says for
all of them that a value is read again as it was, whether its JSON comes from a text, is a
value or was set aside, and that different values are stored differently.

Nothing is asked of machines but that JSON has their backoff rates.  They may be nested to
any depth, and what they go to need not be there.
-/

namespace TaskMachine

/-- The types of a compiled machine. -/
inductive StoredType where
  | machine | graph | state | stateKind
  | invocation | payload | payloadValue
  | catchTransition | choiceTransition
  | condition | comparator | operand
  | handle
deriving DecidableEq, Repr

namespace StoredType

/-- The values of a type. -/
def Carrier : StoredType → Type
  | machine => StateMachine
  | graph => StateGraph
  | state => State
  | stateKind => StateKind
  | invocation => Invocation
  | payload => Option (SortedMap PayloadValue)
  | payloadValue => PayloadValue
  | catchTransition => CatchTransition
  | choiceTransition => ChoiceTransition
  | condition => Condition
  | comparator => Comparator
  | operand => Operand
  | handle => UnitHandle

/-- How the values of a type are stored. -/
def write : (type : StoredType) → type.Carrier → Json
  | machine => StateMachine.toJson
  | graph => StateGraph.toJson
  | state => State.toJson
  | stateKind => StateKind.toJson
  | invocation => Invocation.toJson
  | payload => .nullable PayloadValue.mapToJson
  | payloadValue => PayloadValue.toJson
  | catchTransition => CatchTransition.toJson
  | choiceTransition => ChoiceTransition.toJson
  | condition => Condition.toJson
  | comparator => Comparator.toJson
  | operand => Operand.toJson
  | handle => UnitHandle.toJson

/-- How the values of a type are read. -/
def reader : (type : StoredType) → Reader type.Carrier
  | machine => StateMachine.reader
  | graph => StateGraph.reader
  | state => State.reader
  | stateKind => .named (StateKind.forms StateGraph.reader)
  | invocation => Invocation.reader
  | payload => (Reader.map PayloadValue.reader).nullable
  | payloadValue => PayloadValue.reader
  | catchTransition => CatchTransition.reader
  | choiceTransition => ChoiceTransition.reader
  | condition => Condition.reader
  | comparator => Comparator.reader
  | operand => Operand.reader
  | handle => UnitHandle.reader

/-- The values of a type that have finite backoff rates.  Types without invocations inside
have no others. -/
def Sound : (type : StoredType) → type.Carrier → Prop
  | machine => StateMachine.Sound
  | graph => StateGraph.Sound
  | state => State.Sound
  | stateKind => StateKind.Sound
  | invocation => Invocation.Sound
  | payload | payloadValue | catchTransition | choiceTransition | condition | comparator
  | operand | handle => fun _ => True

theorem reads (type : StoredType) (value : type.Carrier) (h : type.Sound value) :
    type.reader.Reads (type.write value) value := by
  cases type with
  | machine => exact StateMachine.reads value h
  | graph => exact StateGraph.reads value h
  | state => exact State.reads value h
  | stateKind => exact StateKind.reads value h
  | invocation => exact Invocation.reads value h
  | payload =>
      cases value with
      | none => exact fun _ => rfl
      | some entries =>
          exact (PayloadValue.reads_map entries).nullable (PayloadValue.mapToJson_ne_null entries)
  | payloadValue => exact PayloadValue.reads value
  | catchTransition => exact CatchTransition.reads value
  | choiceTransition => exact ChoiceTransition.reads value
  | condition => exact Condition.reads value
  | comparator => exact Comparator.reads value
  | operand => exact Operand.reads value
  | handle => exact UnitHandle.reads value

theorem write_injective {type : StoredType} {value other : type.Carrier}
    (hvalue : type.Sound value) (hother : type.Sound other)
    (h : type.write value = type.write other) : value = other := by
  have hread := type.reads value hvalue .value
  rw [h, type.reads other hother .value] at hread
  exact (Except.ok.inj hread).symm

/-- A stored value is read again as it was, and different values are stored differently. -/
theorem restored (type : StoredType) :
    (∀ value, type.Sound value → ∀ circumstance,
      type.reader circumstance (.ofJson (type.write value)) = .ok value) ∧
    (∀ value other, type.Sound value → type.Sound other →
      type.write value = type.write other → value = other) :=
  ⟨type.reads, fun _ _ => write_injective⟩

/-- An invocation that retries, with an empty payload. -/
def probing : Invocation where
  task := "probe"
  functionName := "sf-lab-probe"
  payload := some .empty
  resultPath := "$.probe"
  retry := [⟨["States.ALL"], some 1, none, some (.ofInt 2)⟩]
  catches := [⟨["States.Timeout"], 9, none⟩]

/-- Branches with a map in one of them, around the invocation.  The entry of the machine and
some of its transitions lead nowhere. -/
def tangled : StateMachine where
  name := "tangled"
  graph := ⟨4, [⟨"fork", .parallel [
    ⟨0, [⟨"each", .map ⟨"$.items", .ofList [("item", .literal .null)], some 2, none,
        some .express⟩ ⟨0, [⟨"probe", .invoke probing, none⟩], .ofList [("probe", 0)]⟩, some 1⟩,
      ⟨"done", .succeed, some 7⟩], .empty⟩,
    ⟨1, [⟨"decide", .choice [⟨.and [.compare "$.probe" .stringEquals (.value .null),
        .not (.compare "$.probe" .isNull (.flag true))], 3⟩] (some 8), none⟩], .empty⟩],
    some 5⟩], .empty⟩

theorem sound_probing : probing.Sound := by
  simp [Invocation.Sound, probing, RetryRule.Sound, Double.isFinite_ofInt]

theorem sound_tangled : tangled.Sound := by
  have hgraph : ∀ (start : StateId) (states : List State) (tasks : SortedMap StateId),
      StateGraph.Sound ⟨start, states, tasks⟩ ↔ ∀ state ∈ states, state.kind.Sound :=
    fun _ _ _ => StateGraph.sound_iff
  simp [StateMachine.Sound, tangled, hgraph, StateKind.Sound, sound_probing]

/-- The machine is read again as it was.  Being compared with `null`, with the word or with
what a check says are told apart, and so are passing nothing and passing an empty payload. -/
theorem restored_tangled :
    (machine.Sound tangled ∧
      machine.reader.fromJson (machine.write tangled) = .ok tangled) ∧
    operand.reader.fromJson (operand.write (.value .null)) = .ok (.value .null) ∧
    operand.write (.value (.str "null")) ≠ operand.write (.path "null") ∧
    operand.write (.value (.bool true)) ≠ operand.write (.flag true) ∧
    payloadValue.reader.fromJson (payloadValue.write (.literal .null)) =
      .ok (.literal .null) ∧
    payload.write (some .empty) ≠ payload.write none := by
  obtain ⟨hmachine, _⟩ := restored machine
  obtain ⟨hoperand, hoperands⟩ := restored operand
  obtain ⟨hliteral, _⟩ := restored payloadValue
  obtain ⟨_, hpayloads⟩ := restored payload
  refine ⟨⟨sound_tangled, hmachine tangled sound_tangled .value⟩, ?_, ?_, ?_, ?_, ?_⟩
  · exact hoperand (.value .null) trivial .value
  · intro hsame
    cases hoperands (.value (.str "null")) (.path "null") trivial trivial hsame
  · intro hsame
    cases hoperands (.value (.bool true)) (.flag true) trivial trivial hsame
  · exact hliteral (.literal .null) trivial .value
  · intro hsame
    cases hpayloads (some .empty) none trivial trivial hsame

end StoredType

end TaskMachine
