import TaskMachine.Machine.Definition
import TaskMachine.Proofs.Machine.Nesting
import TaskMachine.Proofs.Machine.Rules
import Mathlib.Data.List.Forall2
import Mathlib.Data.Option.Basic

/-!
# Definitions say what graphs do

`StateGraph.Renders graph definition` says that a definition is the one of a graph, by
what can be read in it: every level has one entry for each state, under its name; what an
entry goes to are names of states at its level, and they are those that the state goes to;
every entry says how it goes on; and nothing that has to have items is empty.  The same
holds of the definitions inside, for the graphs inside.

`renders_definition` proves it of every graph of which all levels can be told apart by
name, are closed, and hold nothing that is empty (`StateGraph.Definable`).
-/

namespace TaskMachine

/-! ## What can be read in a definition -/

namespace Json

/-- The texts of an entry that tell where it goes: after it, after errors, by choice, and
otherwise. -/
def targets (entry : Json) : List Json :=
  (entry.field? "Next").toList ++
    ((entry.itemsAt "Catch").filterMap (fun rule => rule.field? "Next") ++
      ((entry.itemsAt "Choices").filterMap (fun rule => rule.field? "Next") ++
        (entry.field? "Default").toList))

/-- The definitions inside an entry. -/
def nested (entry : Json) : List Json :=
  entry.itemsAt "Branches" ++ (entry.field? "ItemProcessor").toList

/-- An entry of a type says how it goes on: by exactly one of `Next` and `End`, or by
neither where the type has no successor. -/
def GoesOn (entry : Json) (type : String) : Prop :=
  if type ∈ ["Choice", "Fail", "Succeed"] then
    entry.field? "Next" = none ∧ entry.field? "End" = none
  else
    ((∃ text, entry.field? "Next" = some text) ∧ entry.field? "End" = none) ∨
      (entry.field? "Next" = none ∧ entry.field? "End" = some (.bool true))

end Json

namespace StateKind

/-- Where an invocation goes after errors. -/
def caught : StateKind → List StateId
  | .invoke invocation => invocation.catches.map CatchTransition.next
  | .wait _ | .fail _ _ | .pass | .succeed | .choice _ _ | .parallel _ | .map _ _ => []

/-- Where the branches of a choice go. -/
def chosen : StateKind → List StateId
  | .choice choices _ => choices.map ChoiceTransition.next
  | .invoke _ | .wait _ | .fail _ _ | .pass | .succeed | .parallel _ | .map _ _ => []

/-- Where a choice goes otherwise. -/
def otherwise : StateKind → Option StateId
  | .choice _ otherwise => otherwise
  | .invoke _ | .wait _ | .fail _ _ | .pass | .succeed | .parallel _ | .map _ _ => none

theorem targets_eq (kind : StateKind) :
    kind.targets = kind.caught ++ (kind.chosen ++ kind.otherwise.toList) := by
  cases kind <;> simp [targets, caught, chosen, otherwise]

/-- Nothing that has to have items is empty. -/
def Full : StateKind → Prop
  | .choice choices _ => choices ≠ [] ∧ ∀ choice ∈ choices, choice.condition.Full
  | .parallel branches => branches ≠ []
  | .invoke _ | .wait _ | .fail _ _ | .pass | .succeed | .map _ _ => True

end StateKind

namespace StateGraph

/-- A text is the name of the state of a number, which is an entry of the same level. -/
def Named (graph : StateGraph) (states : Json) (id : StateId) (text : Json) : Prop :=
  ∃ state, graph.states[id]? = some state ∧ text = .str state.name ∧
    state.name ∈ states.keys

/-- A rule goes on at the state of a number. -/
def Leads (graph : StateGraph) (states : Json) (id : StateId) (rule : Json) : Prop :=
  ∃ text, rule.field? "Next" = some text ∧ graph.Named states id text

/-- What an entry says is what its state does. -/
structure EntryOf (graph : StateGraph) (states : Json) (state : State) (entry : Json) :
    Prop where
  type : entry.field? "Type" = some (.str state.kind.typeName)
  next : Option.Rel (graph.Named states) state.next (entry.field? "Next")
  caught : List.Forall₂ (graph.Leads states) state.kind.caught (entry.itemsAt "Catch")
  chosen : List.Forall₂ (graph.Leads states) state.kind.chosen (entry.itemsAt "Choices")
  otherwise : Option.Rel (graph.Named states) state.kind.otherwise (entry.field? "Default")
  /-- All transitions and no others, each as often as the state has it. -/
  targets : List.Forall₂ (graph.Named states) state.transitions entry.targets
  goesOn : entry.GoesOn state.kind.typeName
  choices : state.kind.typeName = "Choice" → entry.itemsAt "Choices" ≠ []
  branches : state.kind.typeName = "Parallel" → entry.itemsAt "Branches" ≠ []
  rules : ∀ rule ∈ entry.itemsAt "Choices", rule.RuleFull
  nested : entry.nested.length = state.kind.nested.length

/-- A definition is the one of a graph, at every level. -/
inductive Renders : StateGraph → Json → Prop
  | made {graph : StateGraph} {definition : Json} (states start : Json)
      (hstates : definition.field? "States" = some states)
      (hkeys : states.keys.Perm (graph.states.map State.name))
      (hstart : definition.field? "StartAt" = some start)
      (hnamed : graph.Named states graph.start start)
      (hentries : ∀ state ∈ graph.states, ∃ entry,
        states.field? state.name = some entry ∧ graph.EntryOf states state entry)
      (hnested : ∀ state ∈ graph.states, ∀ entry, states.field? state.name = some entry →
        ∀ (index : Nat) (held : StateGraph) (inner : Json),
          state.kind.nested[index]? = some held → entry.nested[index]? = some inner →
          Renders held inner) :
      Renders graph definition

/-- What makes a graph have a definition in which nothing is lost. -/
structure Definable (graph : StateGraph) : Prop where
  distinct : (graph.states.map State.name).Nodup
  start_lt : graph.start < graph.size
  closed : ∀ state ∈ graph.states, ∀ id ∈ state.transitions, id < graph.size
  ended : ∀ state ∈ graph.states, state.acceptsNext = false → state.next = none
  full : ∀ state ∈ graph.states, state.kind.Full

/-- Only the fields with the states and the entry count. -/
theorem Renders.of_fields {graph : StateGraph} {definition other : Json}
    (h : graph.Renders definition)
    (hstates : other.field? "States" = definition.field? "States")
    (hstart : other.field? "StartAt" = definition.field? "StartAt") :
    graph.Renders other := by
  cases h with
  | made states start hstates' hkeys hstart' hnamed hentries hnested =>
      exact .made states start (hstates.trans hstates') hkeys (hstart.trans hstart') hnamed
        hentries hnested

end StateGraph

/-! ## The fields of entries -/

theorem graphDefinitions_eq_map (graphs : List StateGraph) :
    graphDefinitions graphs = graphs.map StateGraph.definition := by
  induction graphs with
  | nil => rfl
  | cons graph rest ih => simp [graphDefinitions, ih]

namespace State

/-- The entry of a state, given the names of its graph. -/
def definition (names : List String) (state : State) : Json :=
  .ofFields (("Type", .str state.kind.typeName) ::
    (state.kind.definitionFields names ++
      if state.kind.acceptsNext then successorFields names state.next else []))

variable {names : List String}

theorem field?_definition (state : State) (key : String) :
    (state.definition names).field? key =
      (if state.kind.acceptsNext then
        (Json.ofFields (successorFields names state.next)).field? key else none).or
      (((Json.ofFields (state.kind.definitionFields names)).field? key).or
        (if "Type" = key then some (.str state.kind.typeName) else none)) := by
  unfold definition
  rw [Json.field?_ofFields_cons, Json.field?_ofFields_append]
  split <;> simp [Option.or_assoc]

end State

/-- How a state goes on is not said among what its kind says. -/
theorem StateKind.field?_definitionFields_eq_none (names : List String) (kind : StateKind)
    {key : String} (hkey : key ∈ ["Type", "Next", "End"]) :
    (Json.ofFields (kind.definitionFields names)).field? key = none := by
  simp only [List.mem_cons, List.not_mem_nil, or_false] at hkey
  rcases hkey with rfl | rfl | rfl <;> cases kind <;>
    simp [definitionFields, Invocation.definitionFields, MapSettings.definitionFields]

theorem field?_successorFields (names : List String) (next : Option StateId)
    (key : String) :
    (Json.ofFields (successorFields names next)).field? key =
      if key = "Next" then next.map fun id => .str (nameAt names id)
      else if key = "End" ∧ next = none then some (.bool true) else none := by
  cases next with
  | none => by_cases h : key = "Next" <;> simp [successorFields, h, eq_comm]
  | some id => by_cases h : key = "Next" <;> simp [successorFields, h, eq_comm]

namespace State

variable {names : List String}

theorem field?_type (state : State) :
    (state.definition names).field? "Type" = some (.str state.kind.typeName) := by
  rw [field?_definition, field?_successorFields,
    StateKind.field?_definitionFields_eq_none names state.kind (by simp)]
  simp

theorem field?_next (state : State) :
    (state.definition names).field? "Next" =
      if state.acceptsNext then state.next.map fun id => .str (nameAt names id)
      else none := by
  rw [field?_definition, field?_successorFields,
    StateKind.field?_definitionFields_eq_none names state.kind (by simp)]
  by_cases h : state.kind.acceptsNext <;> simp [acceptsNext, h]

theorem field?_end (state : State) :
    (state.definition names).field? "End" =
      if state.acceptsNext ∧ state.next = none then some (.bool true) else none := by
  rw [field?_definition, field?_successorFields,
    StateKind.field?_definitionFields_eq_none names state.kind (by simp)]
  by_cases h : state.kind.acceptsNext <;> simp [acceptsNext, h]

/-- Everything else is said by the kind alone. -/
theorem field?_of_not_mem (state : State) {key : String}
    (hkey : key ∉ ["Type", "Next", "End"]) :
    (state.definition names).field? key =
      (Json.ofFields (state.kind.definitionFields names)).field? key := by
  simp only [List.mem_cons, List.not_mem_nil, or_false, not_or] at hkey
  obtain ⟨htype, hnext, hend⟩ := hkey
  rw [field?_definition, field?_successorFields]
  simp [Ne.symm htype, hnext, hend]

theorem itemsAt_catch (state : State) :
    (state.definition names).itemsAt "Catch" = match state.kind with
      | .invoke invocation => invocation.catches.map (CatchTransition.definition names)
      | .wait _ | .fail _ _ | .pass | .succeed | .choice _ _ | .parallel _ | .map _ _ =>
        [] := by
  unfold Json.itemsAt
  rw [field?_of_not_mem state (by simp)]
  cases state.kind with
  | invoke invocation =>
      cases h : invocation.catches <;>
        simp [StateKind.definitionFields, Invocation.definitionFields, h]
  | _ => simp [StateKind.definitionFields, MapSettings.definitionFields]

theorem itemsAt_choices (state : State) :
    (state.definition names).itemsAt "Choices" = match state.kind with
      | .choice choices _ => choices.map (ChoiceTransition.definition names)
      | .invoke _ | .wait _ | .fail _ _ | .pass | .succeed | .parallel _ | .map _ _ =>
        [] := by
  unfold Json.itemsAt
  rw [field?_of_not_mem state (by simp)]
  cases state.kind <;>
    simp [StateKind.definitionFields, Invocation.definitionFields,
      MapSettings.definitionFields]

theorem field?_default (state : State) :
    (state.definition names).field? "Default" =
      state.kind.otherwise.map fun id => .str (nameAt names id) := by
  rw [field?_of_not_mem state (by simp)]
  cases state.kind <;>
    simp [StateKind.definitionFields, Invocation.definitionFields,
      MapSettings.definitionFields, StateKind.otherwise]

/-- The definitions inside an entry, branches before a processor. -/
theorem nested_definition (state : State) :
    (state.definition names).nested = match state.kind with
      | .parallel branches => branches.map StateGraph.definition
      | .map settings processor => [settings.definitionProcessor processor.definition]
      | .invoke _ | .wait _ | .fail _ _ | .pass | .succeed | .choice _ _ => [] := by
  unfold Json.nested Json.itemsAt
  rw [field?_of_not_mem state (by simp), field?_of_not_mem state (by simp)]
  cases state.kind <;>
    simp [StateKind.definitionFields, Invocation.definitionFields,
      MapSettings.definitionFields, graphDefinitions_eq_map]

theorem length_nested_definition {state : State} :
    (state.definition names).nested.length = state.kind.nested.length := by
  rw [nested_definition]
  cases state.kind <;> simp [StateKind.nested]

theorem itemsAt_branches (state : State) :
    (state.definition names).itemsAt "Branches" = match state.kind with
      | .parallel branches => branches.map StateGraph.definition
      | .invoke _ | .wait _ | .fail _ _ | .pass | .succeed | .choice _ _ | .map _ _ =>
        [] := by
  unfold Json.itemsAt
  rw [field?_of_not_mem state (by simp)]
  cases state.kind <;>
    simp [StateKind.definitionFields, Invocation.definitionFields,
      MapSettings.definitionFields, graphDefinitions_eq_map]

end State

theorem stateDefinitions_eq_map (names : List String) (states : List State) :
    stateDefinitions names states =
      states.map fun state => (state.name, state.definition names) := by
  induction states with
  | nil => rfl
  | cons state rest ih =>
      obtain ⟨name, kind, next⟩ := state
      simp [stateDefinitions, State.definition, ih]

/-! ## Entries and levels -/

theorem forall₂_toList {α β : Type} {related : α → β → Prop} {left : Option α}
    {right : Option β} (h : Option.Rel related left right) :
    List.Forall₂ related left.toList right.toList := by
  cases h with
  | none => exact .nil
  | some h => exact .cons h .nil

theorem StateGraph.forall₂_filterMap {graph : StateGraph} {states : Json}
    {ids : List StateId} {rules : List Json}
    (h : List.Forall₂ (graph.Leads states) ids rules) :
    List.Forall₂ (graph.Named states) ids
      (rules.filterMap fun rule => rule.field? "Next") := by
  induction h with
  | nil => exact .nil
  | cons h _ ih =>
      obtain ⟨text, htext, hnamed⟩ := h
      simp only [List.filterMap_cons, htext]
      exact .cons hnamed ih

theorem CatchTransition.field?_next (names : List String) (transition : CatchTransition) :
    (transition.definition names).field? "Next" =
      some (.str (nameAt names transition.next)) := by
  simp [definition]

theorem Condition.exists_toRule_eq (condition : Condition) :
    ∃ fields, condition.toRule = .ofFields fields := by
  cases condition <;> exact ⟨_, by rw [toRule]⟩

theorem ChoiceTransition.field?_definition (names : List String)
    (transition : ChoiceTransition) (key : String) :
    (transition.definition names).field? key =
      if "Next" = key then some (.str (nameAt names transition.next))
      else transition.condition.toRule.field? key := by
  obtain ⟨fields, hfields⟩ := transition.condition.exists_toRule_eq
  rw [definition, hfields, Json.field?_withField_ofFields]

/-- The target of a choice changes nothing about what its rule combines. -/
theorem ChoiceTransition.ruleFull_definition (names : List String)
    {transition : ChoiceTransition} (h : transition.condition.Full) :
    (transition.definition names).RuleFull := by
  refine h.toRule.of_fields ?_
  intro key hkey
  have hnext : "Next" ≠ key := by
    rintro rfl
    simp at hkey
  rw [field?_definition, if_neg hnext]

namespace StateKind

theorem typeName_mem_iff (kind : StateKind) :
    kind.typeName ∈ ["Choice", "Fail", "Succeed"] ↔ kind.acceptsNext = false := by
  cases kind <;> simp [typeName, acceptsNext]

end StateKind

namespace StateGraph

variable {graph : StateGraph} {states : Json}

/-- The name at a number is the one of its state. -/
theorem named_nameAt (hkeys : ∀ state ∈ graph.states, state.name ∈ states.keys)
    {id : StateId} (h : id < graph.size) :
    graph.Named states id (.str (nameAt (graph.states.map State.name) id)) := by
  have hstate := List.getElem?_eq_getElem h
  refine ⟨graph.states[id], hstate, ?_, hkeys _ (List.getElem_mem h)⟩
  unfold nameAt
  rw [List.getElem?_map, hstate]
  rfl

variable {state : State}

theorem targets_lt (hclosed : ∀ id ∈ state.transitions, id < graph.size) :
    ∀ id ∈ state.kind.caught ++ (state.kind.chosen ++ state.kind.otherwise.toList),
      id < graph.size := by
  intro id hid
  rw [← StateKind.targets_eq] at hid
  exact hclosed id (List.mem_append_right _ hid)

/-- The successor of a state is named, if states of its kind have one. -/
theorem rel_next (hkeys : ∀ state ∈ graph.states, state.name ∈ states.keys)
    (hclosed : ∀ id ∈ state.transitions, id < graph.size) :
    Option.Rel (graph.Named states) (if state.acceptsNext then state.next else none)
      ((state.definition (graph.states.map State.name)).field? "Next") := by
  rw [State.field?_next]
  split
  · cases hid : state.next with
    | none => exact .none
    | some id =>
        have hmem : id ∈ state.transitions := by simp [State.transitions, hid]
        exact .some (named_nameAt hkeys (hclosed id hmem))
  · exact .none

theorem forall₂_caught (hkeys : ∀ state ∈ graph.states, state.name ∈ states.keys)
    (hclosed : ∀ id ∈ state.transitions, id < graph.size) :
    List.Forall₂ (graph.Leads states) state.kind.caught
      ((state.definition (graph.states.map State.name)).itemsAt "Catch") := by
  have htargets := targets_lt hclosed
  rw [State.itemsAt_catch]
  cases hkind : state.kind with
  | invoke invocation =>
      rw [hkind] at htargets
      refine List.forall₂_map_left_iff.mpr (List.forall₂_map_right_iff.mpr ?_)
      rw [List.forall₂_same]
      intro transition htransition
      refine ⟨_, CatchTransition.field?_next _ transition, named_nameAt hkeys ?_⟩
      refine htargets _ (List.mem_append_left _ ?_)
      exact List.mem_map_of_mem htransition
  | _ => exact .nil

theorem forall₂_chosen (hkeys : ∀ state ∈ graph.states, state.name ∈ states.keys)
    (hclosed : ∀ id ∈ state.transitions, id < graph.size) :
    List.Forall₂ (graph.Leads states) state.kind.chosen
      ((state.definition (graph.states.map State.name)).itemsAt "Choices") := by
  have htargets := targets_lt hclosed
  rw [State.itemsAt_choices]
  cases hkind : state.kind with
  | choice choices otherwise =>
      rw [hkind] at htargets
      refine List.forall₂_map_left_iff.mpr (List.forall₂_map_right_iff.mpr ?_)
      rw [List.forall₂_same]
      intro transition htransition
      refine ⟨_, ChoiceTransition.field?_definition _ transition "Next",
        named_nameAt hkeys ?_⟩
      refine htargets _ (List.mem_append_right _ (List.mem_append_left _ ?_))
      exact List.mem_map_of_mem htransition
  | _ => exact .nil

theorem rel_otherwise (hkeys : ∀ state ∈ graph.states, state.name ∈ states.keys)
    (hclosed : ∀ id ∈ state.transitions, id < graph.size) :
    Option.Rel (graph.Named states) state.kind.otherwise
      ((state.definition (graph.states.map State.name)).field? "Default") := by
  have htargets := targets_lt hclosed
  rw [State.field?_default]
  cases hid : state.kind.otherwise with
  | none => exact .none
  | some id =>
      refine .some (named_nameAt hkeys (htargets id ?_))
      simp [hid]

namespace Definable

/-- A state of a kind without a successor has none that could get lost. -/
theorem rel_next (h : graph.Definable)
    (hkeys : ∀ state ∈ graph.states, state.name ∈ states.keys)
    (hstate : state ∈ graph.states) :
    Option.Rel (graph.Named states) state.next
      ((state.definition (graph.states.map State.name)).field? "Next") := by
  have hrel := StateGraph.rel_next hkeys (h.closed state hstate)
  cases haccepts : state.acceptsNext with
  | false =>
      rw [h.ended state hstate haccepts]
      simpa [haccepts] using hrel
  | true => simpa [haccepts] using hrel

/-- The entry of a state says what the state does. -/
theorem entryOf_definition (h : graph.Definable)
    (hkeys : ∀ state ∈ graph.states, state.name ∈ states.keys)
    (hstate : state ∈ graph.states) :
    graph.EntryOf states state (state.definition (graph.states.map State.name)) where
  type := State.field?_type state
  next := h.rel_next hkeys hstate
  caught := forall₂_caught hkeys (h.closed state hstate)
  chosen := forall₂_chosen hkeys (h.closed state hstate)
  otherwise := rel_otherwise hkeys (h.closed state hstate)
  targets := by
    -- A definition is read in the order in which a state lists its transitions.
    unfold State.transitions Json.targets
    rw [StateKind.targets_eq]
    have hcaught := forall₂_filterMap (forall₂_caught hkeys (h.closed state hstate))
    have hchosen := forall₂_filterMap (forall₂_chosen hkeys (h.closed state hstate))
    have hotherwise := forall₂_toList (rel_otherwise hkeys (h.closed state hstate))
    have hkind := List.rel_append hcaught (List.rel_append hchosen hotherwise)
    exact List.rel_append (forall₂_toList (h.rel_next hkeys hstate)) hkind
  goesOn := by
    unfold Json.GoesOn
    rw [State.field?_next, State.field?_end]
    simp only [StateKind.typeName_mem_iff]
    unfold State.acceptsNext
    cases state.kind.acceptsNext with
    | false => simp
    | true => cases state.next <;> simp
  choices := by
    intro htype
    rw [State.itemsAt_choices]
    have hfull := h.full state hstate
    cases hkind : state.kind with
    | choice choices otherwise =>
        rw [hkind] at hfull
        simpa using hfull.1
    | _ => simp [hkind, StateKind.typeName] at htype
  branches := by
    intro htype
    rw [State.itemsAt_branches]
    have hfull := h.full state hstate
    cases hkind : state.kind with
    | parallel branches =>
        rw [hkind] at hfull
        have hne : branches ≠ [] := hfull
        simpa using hne
    | _ => simp [hkind, StateKind.typeName] at htype
  rules := by
    intro rule hrule
    rw [State.itemsAt_choices] at hrule
    have hfull := h.full state hstate
    cases hkind : state.kind with
    | choice choices otherwise =>
        rw [hkind] at hfull hrule
        obtain ⟨transition, htransition, rfl⟩ := List.mem_map.mp hrule
        exact transition.ruleFull_definition _ (hfull.2 transition htransition)
    | _ => simp [hkind] at hrule
  nested := State.length_nested_definition

end Definable

/-- The states of a graph with their entries. -/
def entries (graph : StateGraph) : List (String × Json) :=
  graph.states.map fun state =>
    (state.name, state.definition (graph.states.map State.name))

theorem map_fst_entries (graph : StateGraph) :
    graph.entries.map Prod.fst = graph.states.map State.name := by
  unfold entries
  rw [List.map_map]
  rfl

/-- The definition of a graph says where it begins and has an entry for each state. -/
theorem definition_eq (graph : StateGraph) :
    graph.definition = .ofFields
      [("StartAt", .str (nameAt (graph.states.map State.name) graph.start)),
        ("States", .ofFields graph.entries)] := by
  obtain ⟨start, states, tasks⟩ := graph
  rw [StateGraph.definition, stateDefinitions_eq_map]
  rfl

/-- The entries of states with names of their own: none is lost to another one. -/
theorem keys_entries_perm (hdistinct : (graph.states.map State.name).Nodup) :
    (Json.ofFields graph.entries).keys.Perm (graph.states.map State.name) := by
  rw [← map_fst_entries] at hdistinct ⊢
  exact Json.keys_ofFields_perm hdistinct

theorem name_mem_keys_entries (hdistinct : (graph.states.map State.name).Nodup) :
    ∀ state ∈ graph.states, state.name ∈ (Json.ofFields graph.entries).keys := by
  intro state hstate
  exact (keys_entries_perm hdistinct).mem_iff.mpr (List.mem_map_of_mem hstate)

theorem field?_entries (hdistinct : (graph.states.map State.name).Nodup)
    (hstate : state ∈ graph.states) :
    (Json.ofFields graph.entries).field? state.name =
      some (state.definition (graph.states.map State.name)) := by
  rw [← map_fst_entries] at hdistinct
  exact Json.field?_ofFields_of_mem hdistinct (List.mem_map_of_mem hstate)

/-- A processor says what the definition of its graph says, and how it is run. -/
theorem field?_definitionProcessor (settings : MapSettings) (held : StateGraph) {key : String}
    (hkey : "ProcessorConfig" ≠ key) :
    (settings.definitionProcessor held.definition).field? key =
      held.definition.field? key := by
  unfold MapSettings.definitionProcessor
  dsimp only
  split
  · rfl
  · rw [definition_eq, Json.field?_withField_ofFields, if_neg hkey]

/-- A definition inside an entry is the one of the graph inside its state, or the processor
with it. -/
theorem field?_nested {names : List String} {index : Nat} {held : StateGraph} {inner : Json}
    (hheld : state.kind.nested[index]? = some held)
    (hinner : (state.definition names).nested[index]? = some inner) {key : String}
    (hkey : "ProcessorConfig" ≠ key) : inner.field? key = held.definition.field? key := by
  rw [State.nested_definition] at hinner
  cases hkind : state.kind with
  | parallel branches =>
      rw [hkind] at hheld hinner
      rw [List.getElem?_map] at hinner
      obtain ⟨other, hother, rfl⟩ := Option.map_eq_some_iff.mp hinner
      have hsame : held = other := Option.some.inj (hheld.symm.trans hother)
      rw [← hsame]
  | map settings processor =>
      rw [hkind] at hheld hinner
      cases index with
      | zero =>
          cases hheld
          cases hinner
          exact field?_definitionProcessor settings _ hkey
      | succ index => cases hheld
  | _ =>
      rw [hkind] at hheld
      cases hheld

/-- A graph that is definable at every level has a definition that says all of it. -/
theorem renders_definition {graph : StateGraph} (h : ∀ inner ∈ graph.all, inner.Definable) :
    graph.Renders graph.definition := by
  induction graph using nestedInduction with
  | step graph ih =>
      have hdefinable := h graph graph.self_mem_all
      have hkeys := name_mem_keys_entries hdefinable.distinct
      refine .made _ _ (by simp [definition_eq]) (keys_entries_perm hdefinable.distinct)
        (by simp [definition_eq]) (named_nameAt hkeys hdefinable.start_lt) ?_ ?_
      · intro state hstate
        exact ⟨_, field?_entries hdefinable.distinct hstate,
          hdefinable.entryOf_definition hkeys hstate⟩
      · intro state hstate entry hentry index held inner hheld hinner
        rw [field?_entries hdefinable.distinct hstate] at hentry
        cases hentry
        have hmem := List.mem_of_getElem? hheld
        have hrenders : held.Renders held.definition := by
          refine ih state hstate held hmem ?_
          intro other hother
          exact h other (mem_all_of_held hstate hmem hother)
        exact hrenders.of_fields (field?_nested hheld hinner (by decide))
          (field?_nested hheld hinner (by decide))

end StateGraph

end TaskMachine
