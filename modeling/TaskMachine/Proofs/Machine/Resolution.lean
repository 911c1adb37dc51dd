import TaskMachine.Proofs.Machine.Faults
import TaskMachine.Proofs.Machine.Rendering

/-!
# What the definition of a valid machine refers to

`StateGraph.Resolves graph definition` says of every level of a definition that what it goes
to is there: the level has one entry for each state, under its name, and every name that an
entry goes to, in whatever position, is an entry of the same level and the name of the state
that the graph goes to there.

A machine that is valid has such a definition (`resolves_of_validate`), wherever it comes
from: nothing else is asked of it, so choices and branches may be empty, and a state may have
a successor that its kind does not show.  The entry of a level is another matter.  Validity
is about names and transitions; where no state has the number of the entry, the level begins
at the empty name (`validate_lost`).
-/

namespace TaskMachine

namespace StateGraph

/-- An entry goes where its state goes, by names of entries of its level. -/
structure ResolvesAt (graph : StateGraph) (states : Json) (state : State) (entry : Json) :
    Prop where
  next : Option.Rel (graph.Named states) (if state.acceptsNext then state.next else none)
    (entry.field? "Next")
  caught : List.Forall₂ (graph.Leads states) state.kind.caught (entry.itemsAt "Catch")
  chosen : List.Forall₂ (graph.Leads states) state.kind.chosen (entry.itemsAt "Choices")
  otherwise : Option.Rel (graph.Named states) state.kind.otherwise (entry.field? "Default")
  nested : entry.nested.length = state.kind.nested.length

/-- Every level of a definition refers to its own entries only, and only where it begins may
it refer to none. -/
inductive Resolves : StateGraph → Json → Prop
  | level {graph : StateGraph} {definition : Json} (states start : Json)
      (hstates : definition.field? "States" = some states)
      (hkeys : states.keys.Perm (graph.states.map State.name))
      (hstart : definition.field? "StartAt" = some start)
      (hbegins : graph.start < graph.size → graph.Named states graph.start start)
      (hlost : graph.size ≤ graph.start → start = .str "")
      (hentries : ∀ state ∈ graph.states, ∃ entry,
        states.field? state.name = some entry ∧ graph.ResolvesAt states state entry)
      (hnested : ∀ state ∈ graph.states, ∀ entry, states.field? state.name = some entry →
        ∀ (index : Nat) (held : StateGraph) (inner : Json),
          state.kind.nested[index]? = some held → entry.nested[index]? = some inner →
          Resolves held inner) :
      Resolves graph definition

variable {graph : StateGraph} {states : Json} {state : State}

/-- Only the fields with the states and the entry count. -/
theorem Resolves.of_fields {definition other : Json} (h : graph.Resolves definition)
    (hstates : other.field? "States" = definition.field? "States")
    (hstart : other.field? "StartAt" = definition.field? "StartAt") : graph.Resolves other := by
  cases h with
  | level states start hstates' hkeys hstart' hbegins hlost hentries hnested =>
      exact .level states start (hstates.trans hstates') hkeys (hstart.trans hstart') hbegins
        hlost hentries hnested

theorem nameAt_of_le {id : StateId} (h : graph.size ≤ id) :
    nameAt (graph.states.map State.name) id = "" := by
  have hnone : (graph.states.map State.name)[id]? = none := by
    rw [List.getElem?_map, List.getElem?_eq_none h]
    rfl
  rw [nameAt, hnone]
  rfl

theorem resolvesAt_definition (hkeys : ∀ state ∈ graph.states, state.name ∈ states.keys)
    (hclosed : ∀ id ∈ state.transitions, id < graph.size) :
    graph.ResolvesAt states state (state.definition (graph.states.map State.name)) where
  next := rel_next hkeys hclosed
  caught := forall₂_caught hkeys hclosed
  chosen := forall₂_chosen hkeys hclosed
  otherwise := rel_otherwise hkeys hclosed
  nested := State.length_nested_definition

/-- Where all levels tell their states apart by name and keep their transitions, the
definition loses no state and no transition. -/
theorem resolves_definition {graph : StateGraph}
    (hdistinct : ∀ inner ∈ graph.all, (inner.states.map State.name).Nodup)
    (hclosed : ∀ inner ∈ graph.all, inner.dangling? = none) :
    graph.Resolves graph.definition := by
  induction graph using nestedInduction with
  | step graph ih =>
      have hnames := hdistinct graph graph.self_mem_all
      have hstay := hclosed graph graph.self_mem_all
      have hkeys := name_mem_keys_entries hnames
      refine .level _ _ (by simp [definition_eq]) (keys_entries_perm hnames)
        (by simp [definition_eq]) (named_nameAt hkeys) ?_ ?_ ?_
      · intro hle
        rw [nameAt_of_le hle]
      · intro state hstate
        refine ⟨_, field?_entries hnames hstate, resolvesAt_definition hkeys ?_⟩
        intro id hid
        exact lt_of_dangling?_eq_none hstay hstate hid
      · intro state hstate entry hentry index held inner hheld hinner
        rw [field?_entries hnames hstate] at hentry
        cases hentry
        have hmem := List.mem_of_getElem? hheld
        have hinside : ∀ other ∈ held.all, other ∈ graph.all := fun other hother =>
          mem_all_of_held hstate hmem hother
        have hresolves := ih state hstate held hmem
          (fun other hother => hdistinct other (hinside other hother))
          (fun other hother => hclosed other (hinside other hother))
        exact hresolves.of_fields (field?_nested hheld hinner (by decide))
          (field?_nested hheld hinner (by decide))

end StateGraph

namespace StateMachine

/-- The definition of a valid machine goes to states of its own levels, and to the states
that the machine goes to.  A level begins at an entry of its own wherever its graph begins
at a state. -/
theorem resolves_of_validate {machine : StateMachine} (h : machine.validate = .ok ()) :
    machine.graph.Resolves machine.definition := by
  obtain ⟨hnames, hclosed⟩ := validate_eq_ok_iff.mp h
  exact StateGraph.resolves_definition
    (fun inner hinner => StateGraph.nodup_of_names hnames hinner) hclosed

/-- An invocation with a rule for its errors, then a choice, a parallel state and a map.  One
branch begins nowhere, and the failure has a successor that is not shown. -/
def weaving : StateMachine where
  name := "weaving"
  graph := ⟨0, [
    ⟨"load", .invoke ⟨"load", "sf-handler-weaving-load", none, "$", [],
      [⟨["States.ALL"], 4, some "$.error"⟩]⟩, some 1⟩,
    ⟨"decide", .choice [⟨.compare "$.load" .isNull (.flag true), 4⟩] (some 2), none⟩,
    ⟨"fork", .parallel [⟨0, [⟨"left", .wait 3, some 1⟩, ⟨"done", .succeed, none⟩], .empty⟩,
      ⟨3, [⟨"right", .pass, none⟩], .empty⟩, ⟨0, [], .empty⟩], some 3⟩,
    ⟨"each", .map ⟨"$.items", .empty, none, some .inline, none⟩
      ⟨0, [⟨"item", .pass, none⟩], .empty⟩, none⟩,
    ⟨"failed", .fail "nothing" "LoadError", some 0⟩], .empty⟩

/-- The machine is valid and its definition resolves. -/
theorem resolves_weaving :
    weaving.validate = .ok () ∧ weaving.graph.Resolves weaving.definition := by
  have hvalid : weaving.validate = .ok () := by rfl
  exact ⟨hvalid, resolves_of_validate hvalid⟩

/-- One state, in a graph that begins elsewhere. -/
def lost : StateMachine := ⟨"lost", ⟨5, [⟨"only", .succeed, none⟩], .empty⟩⟩

/-- A valid machine whose definition begins at an entry that is not there. -/
theorem validate_lost :
    lost.validate = .ok () ∧ lost.definition.field? "StartAt" = some (.str "") ∧
      (lost.definition.field? "States").map Json.keys = some ["only"] := by
  decide +kernel

end StateMachine

end TaskMachine
