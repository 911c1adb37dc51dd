import TaskMachine.Compile.NameSupply
import TaskMachine.Compile.Expansion
import TaskMachine.Proofs.Machine.Nesting
import Mathlib.Data.List.Forall2
import Mathlib.Data.List.Perm.Basic

/-!
# The names of a unit

A unit is a graph with the graphs of its branches, at any depth; the processor of a map
is a unit of its own (`StateGraph.unitGraphs`, `StateGraph.IsUnit`).  The states of a unit
that do not invoke anything are its controls.

Names of controls end in a number that can be read off (`number_eq`), so controls that are
numbered have names of their own (`Numbered.nodup`), and none of them is named like an
invocation (`State.Labelled.ne_invokeName`).
-/

namespace TaskMachine

/-! ## Units -/

mutual

/-- A graph and the graphs of its branches, at any depth. -/
def StateGraph.unitGraphs : StateGraph → List StateGraph
  | ⟨start, states, tasks⟩ => ⟨start, states, tasks⟩ :: unitGraphsOfStates states

/-- The graphs of the branches of states, at any depth. -/
def unitGraphsOfStates : List State → List StateGraph
  | [] => []
  | ⟨_, kind, _⟩ :: rest => kind.unitGraphs ++ unitGraphsOfStates rest

/-- The graphs of the branches of a state, at any depth. -/
def StateKind.unitGraphs : StateKind → List StateGraph
  | .parallel branches => unitGraphsOfBranches branches
  | .invoke _ | .wait _ | .fail _ _ | .pass | .succeed | .choice _ _ | .map _ _ => []

/-- The graphs of several branches and of the branches inside them. -/
def unitGraphsOfBranches : List StateGraph → List StateGraph
  | [] => []
  | graph :: rest => graph.unitGraphs ++ unitGraphsOfBranches rest

end

/-- The graphs of the branches of a state. -/
def StateKind.branches : StateKind → List StateGraph
  | .parallel branches => branches
  | .invoke _ | .wait _ | .fail _ _ | .pass | .succeed | .choice _ _ | .map _ _ => []

/-- The word for a kind of state that is not an invocation. -/
def StateKind.word? : StateKind → Option String
  | .invoke _ => none
  | .wait _ => some "wait"
  | .fail _ _ => some "fail"
  | .pass => some "pass"
  | .succeed => some "succeed"
  | .choice _ _ => some "choice"
  | .parallel _ => some "parallel"
  | .map _ _ => some "map"

/-- Whether a state is there for the flow alone. -/
def State.isControl (state : State) : Bool := state.kind.word?.isSome

namespace StateGraph

/-- The controls of a unit. -/
def controls (graph : StateGraph) : List State :=
  graph.unitGraphs.flatMap fun inner => inner.states.filter State.isControl

/-- A graph is the one of a unit inside another graph: that graph itself, or the processor
of a map at any depth. -/
def IsUnit (graph unit : StateGraph) : Prop :=
  unit = graph ∨ ∃ inner ∈ graph.all, ∃ state ∈ inner.states, ∃ settings,
    state.kind = .map settings unit

end StateGraph

/-- The controls that a state adds to its unit: itself and those of its branches. -/
def State.controls (state : State) : List State :=
  [state].filter State.isControl ++ state.kind.branches.flatMap StateGraph.controls

theorem unitGraphsOfBranches_eq_flatMap (graphs : List StateGraph) :
    unitGraphsOfBranches graphs = graphs.flatMap StateGraph.unitGraphs := by
  induction graphs with
  | nil => rfl
  | cons graph rest ih => simp [unitGraphsOfBranches, ih]

theorem StateKind.unitGraphs_eq_flatMap (kind : StateKind) :
    kind.unitGraphs = kind.branches.flatMap StateGraph.unitGraphs := by
  cases kind with
  | parallel branches => exact unitGraphsOfBranches_eq_flatMap branches
  | _ => rfl

theorem unitGraphsOfStates_eq_flatMap (states : List State) :
    unitGraphsOfStates states =
      states.flatMap fun state => state.kind.branches.flatMap StateGraph.unitGraphs := by
  induction states with
  | nil => rfl
  | cons state rest ih =>
      obtain ⟨name, kind, next⟩ := state
      simp [unitGraphsOfStates, StateKind.unitGraphs_eq_flatMap, ih]

namespace StateGraph

theorem unitGraphs_eq_cons (graph : StateGraph) :
    graph.unitGraphs = graph :: graph.states.flatMap fun state =>
      state.kind.branches.flatMap unitGraphs := by
  obtain ⟨start, states, tasks⟩ := graph
  rw [StateGraph.unitGraphs, unitGraphsOfStates_eq_flatMap]

/-- The controls of a unit are those that its states add. -/
theorem controls_perm (graph : StateGraph) :
    graph.controls.Perm (graph.states.flatMap State.controls) := by
  have hsplit : graph.controls = graph.states.filter State.isControl ++
      graph.states.flatMap fun state => state.kind.branches.flatMap controls := by
    unfold controls
    rw [unitGraphs_eq_cons, List.flatMap_cons, List.flatMap_assoc]
    simp only [List.flatMap_assoc]
  have hfilter : graph.states.filter State.isControl =
      graph.states.flatMap fun state => [state].filter State.isControl := by
    induction graph.states with
    | nil => rfl
    | cons state rest ih => by_cases h : state.isControl <;> simp [h, ih]
  rw [hsplit, hfilter]
  exact List.flatMap_append_perm _ _ _

theorem mem_nested_of_mem_branches {state : State} {branch : StateGraph}
    (h : branch ∈ state.kind.branches) : branch ∈ state.kind.nested := by
  cases hkind : state.kind with
  | parallel branches =>
      rw [hkind] at h
      exact h
  | _ =>
      rw [hkind] at h
      cases h

theorem self_mem_unitGraphs (graph : StateGraph) : graph ∈ graph.unitGraphs := by
  rw [unitGraphs_eq_cons]
  exact List.mem_cons_self

theorem mem_unitGraphs_iff {graph inner : StateGraph} :
    inner ∈ graph.unitGraphs ↔ inner = graph ∨
      ∃ state ∈ graph.states, ∃ branch ∈ state.kind.branches, inner ∈ branch.unitGraphs := by
  rw [unitGraphs_eq_cons, List.mem_cons]
  simp only [List.mem_flatMap]

/-- The graphs of a unit are inside its graph. -/
theorem mem_all_of_mem_unitGraphs {graph inner : StateGraph} (h : inner ∈ graph.unitGraphs) :
    inner ∈ graph.all := by
  induction graph using nestedInduction with
  | step graph ih =>
      rcases mem_unitGraphs_iff.mp h with rfl | ⟨state, hstate, branch, hbranch, hinner⟩
      · exact inner.self_mem_all
      · have hheld := mem_nested_of_mem_branches hbranch
        exact mem_all_of_held hstate hheld (ih state hstate branch hheld hinner)

theorem IsUnit.of_held {graph held unit : StateGraph} {state : State}
    (hstate : state ∈ graph.states) (hheld : held ∈ state.kind.nested)
    (h : held.IsUnit unit) (hne : unit ≠ held) : graph.IsUnit unit := by
  rcases h with rfl | ⟨inner, hinner, hkind⟩
  · exact absurd rfl hne
  · exact .inr ⟨inner, mem_all_of_held hstate hheld hinner, hkind⟩

/-- Every graph inside another one belongs to some unit. -/
theorem exists_isUnit {graph inner : StateGraph} (h : inner ∈ graph.all) :
    ∃ unit, graph.IsUnit unit ∧ inner ∈ unit.unitGraphs := by
  induction graph using nestedInduction with
  | step graph ih =>
      rcases mem_all_iff.mp h with rfl | ⟨state, hstate, held, hheld, hinner⟩
      · exact ⟨inner, .inl rfl, inner.self_mem_unitGraphs⟩
      · obtain ⟨unit, hunit, hmem⟩ := ih state hstate held hheld hinner
        by_cases hsame : unit = held
        · -- A branch belongs to the unit of its state; a processor is a unit.
          subst hsame
          cases hkind : state.kind with
          | parallel branches =>
              rw [hkind] at hheld
              refine ⟨graph, .inl rfl, mem_unitGraphs_iff.mpr (.inr ?_)⟩
              refine ⟨state, hstate, unit, ?_, hmem⟩
              rw [hkind]
              exact hheld
          | map settings processor =>
              rw [hkind] at hheld
              obtain rfl := List.mem_singleton.mp hheld
              exact ⟨unit, .inr ⟨graph, graph.self_mem_all, state, hstate, settings, hkind⟩,
                hmem⟩
          | _ =>
              rw [hkind] at hheld
              cases hheld
        · exact ⟨unit, hunit.of_held hstate hheld hsame, hmem⟩

end StateGraph

/-! ## Numbers in names -/

/-- What follows the last of a separator is the same where the whole is. -/
theorem eq_of_append_cons_eq {α : Type} {separator : α} {first first' last last' : List α}
    (h : first ++ separator :: last = first' ++ separator :: last')
    (hlast : separator ∉ last) (hlast' : separator ∉ last') : last = last' := by
  rcases List.append_eq_append_iff.mp h with ⟨more, _, hmore⟩ | ⟨more, _, hmore⟩
  · cases more with
    | nil => exact (List.cons.inj hmore).2
    | cons head rest =>
        refine absurd ?_ hlast
        rw [(List.cons.inj hmore).2]
        exact List.mem_append_right rest List.mem_cons_self
  · cases more with
    | nil => exact (List.cons.inj hmore).2.symm
    | cons head rest =>
        refine absurd ?_ hlast'
        rw [(List.cons.inj hmore).2]
        exact List.mem_append_right rest List.mem_cons_self

theorem not_mem_toList_toString (number : Nat) : '_' ∉ (toString number).toList := by
  intro hmem
  rw [Nat.toString_eq_repr, Nat.toList_repr] at hmem
  have hdigit := Nat.isDigit_of_mem_toDigits (by decide) (by decide) hmem
  exact absurd hdigit (by decide)

theorem toString_injective {number number' : Nat}
    (h : (toString number).toList = (toString number').toList) : number = number' := by
  simp only [Nat.toString_eq_repr, Nat.toList_repr] at h
  have hread := congrArg (fun digits => Nat.ofDigitChars 10 digits 0) h
  simpa using hread

/-- The number at the end of a name can be read off it, whatever is before. -/
theorem number_eq {stem stem' : String} {number number' : Nat}
    (h : stem ++ "_" ++ toString number = stem' ++ "_" ++ toString number') :
    number = number' := by
  have hlists := congrArg String.toList h
  simp only [String.toList_append, List.append_assoc] at hlists
  refine toString_injective (eq_of_append_cons_eq hlists ?_ ?_)
  · exact not_mem_toList_toString number
  · exact not_mem_toList_toString number'

/-- A control has the name of its kind, some origin, and a number. -/
def State.Labelled (state : State) (number : Nat) : Prop :=
  ∃ word origin, state.kind.word? = some word ∧
    state.name = word ++ "_" ++ origin ++ "_" ++ toString number

theorem State.Labelled.number_eq {state state' : State} {number number' : Nat}
    (h : state.Labelled number) (h' : state'.Labelled number')
    (hname : state.name = state'.name) : number = number' := by
  obtain ⟨word, origin, _, hlabel⟩ := h
  obtain ⟨word', origin', _, hlabel'⟩ := h'
  rw [hlabel, hlabel'] at hname
  exact TaskMachine.number_eq hname

/-- No control has the name of an invocation: they differ in what they begin with. -/
theorem State.Labelled.ne_invokeName {state : State} {number : Nat}
    (h : state.Labelled number) (task : String) :
    state.name ≠ Expansion.invokeName task := by
  obtain ⟨word, origin, hword, hlabel⟩ := h
  intro hname
  rw [hlabel] at hname
  have hhead := congrArg (fun name => name.toList.head?) hname
  simp only [Expansion.invokeName, String.toList_append, List.append_assoc] at hhead
  cases hkind : state.kind <;> rw [hkind] at hword <;> cases hword <;> simp at hhead

/-- Controls are numbered from some number on, each by a number of its own, and no number
is left out. -/
def Numbered (issued : Nat) (controls : List State) : Prop :=
  ∃ numbers, List.Forall₂ State.Labelled controls numbers ∧
    numbers.Perm (List.range' (issued + 1) controls.length)

namespace Numbered

variable {issued : Nat} {controls more : List State}

theorem nil : Numbered issued [] := ⟨[], .nil, .refl _⟩

theorem single {state : State} (h : state.Labelled (issued + 1)) :
    Numbered issued [state] := ⟨[issued + 1], .cons h .nil, .refl _⟩

theorem append (h : Numbered issued controls)
    (hmore : Numbered (issued + controls.length) more) :
    Numbered issued (controls ++ more) := by
  obtain ⟨numbers, hlabels, hperm⟩ := h
  obtain ⟨numbers', hlabels', hperm'⟩ := hmore
  refine ⟨numbers ++ numbers', List.rel_append hlabels hlabels', ?_⟩
  have hstart : issued + controls.length + 1 = issued + 1 + 1 * controls.length := by omega
  rw [hstart] at hperm'
  rw [List.length_append, ← List.range'_append]
  exact hperm.append hperm'

/-- The order of the controls does not count. -/
theorem of_perm (h : Numbered issued controls) (hperm : more.Perm controls) :
    Numbered issued more := by
  obtain ⟨numbers, hlabels, hrange⟩ := h
  obtain ⟨numbers', hlabels', hperm'⟩ := List.perm_comp_forall₂ hperm hlabels
  refine ⟨numbers', hlabels', ?_⟩
  rw [hperm.length_eq]
  exact hperm'.trans hrange

theorem exists_labelled (h : Numbered issued controls) {state : State}
    (hstate : state ∈ controls) : ∃ number, state.Labelled number := by
  obtain ⟨numbers, hlabels, hperm⟩ := h
  clear hperm
  induction hlabels with
  | nil => cases hstate
  | cons hlabel _ ih =>
      rcases List.mem_cons.mp hstate with rfl | hrest
      · exact ⟨_, hlabel⟩
      · exact ih hrest

/-- Controls with different numbers have different names. -/
theorem nodup_names (h : Numbered issued controls) : (controls.map State.name).Nodup := by
  obtain ⟨numbers, hlabels, hperm⟩ := h
  have hnumbers : numbers.Nodup := hperm.nodup_iff.mpr List.nodup_range'
  clear hperm
  induction hlabels with
  | nil => exact List.nodup_nil
  | @cons state number rest others hlabel hrest ih =>
      rw [List.nodup_cons] at hnumbers
      rw [List.map_cons, List.nodup_cons]
      refine ⟨?_, ih hnumbers.2⟩
      intro hname
      obtain ⟨other, hother, hsame⟩ := List.mem_map.mp hname
      obtain ⟨index, hindex, rfl⟩ := List.mem_iff_getElem.mp hother
      have hlt : index < others.length := hrest.length_eq ▸ hindex
      have hlabelled := (List.forall₂_iff_get.mp hrest).2 index hindex hlt
      rw [hlabel.number_eq hlabelled hsame.symm] at hnumbers
      exact hnumbers.1 (List.getElem_mem hlt)

end Numbered

end TaskMachine
