import TaskMachine.Proofs.Expansion.Naming
import TaskMachine.Proofs.Expansion.Preservation
import TaskMachine.Proofs.Expansion.Shown

/-!
# Names are apart within a unit

In every unit of a graph that was made, the controls are named by their kind, an origin
and a number, and the numbers go from one on without a gap or a repeat.  Two states of a
unit have one name only if they invoke the same leaf task in different graphs
(`StateGraph.UnitNamed`), so that a state is found by its name in its graph
(`names_apart`).

That the numbers are right is known from the expansion.  That a leaf task has one state
in a graph is known from the declaration (`GraphOf.eq_of_invokes`).
-/

namespace TaskMachine

/-- A state stands at a number in one of the graphs of a unit. -/
def StateGraph.At (unit : StateGraph) (index : Nat) (id : StateId) (state : State) : Prop :=
  ∃ inner, unit.unitGraphs[index]? = some inner ∧ inner.states[id]? = some state

/-- A state invokes a leaf task. -/
def State.Invokes (settings : Settings) (state : State) (leaf : LeafTask) : Prop :=
  ∃ functionName catches, state.kind = .invoke (leaf.invocation settings functionName catches)

/-- The names of a unit. -/
structure StateGraph.UnitNamed (settings : Settings) (unit : StateGraph) : Prop where
  numbered : ∃ numbers, List.Forall₂ State.Labelled unit.controls numbers ∧
    numbers.Perm (List.range' 1 unit.controls.length)
  shared : ∀ {index index' : Nat} {id id' : StateId} {state state' : State},
    unit.At index id state → unit.At index' id' state' → (index, id) ≠ (index', id') →
    state.name = state'.name →
    index ≠ index' ∧ ∃ leaf, state.Invokes settings leaf ∧ state'.Invokes settings leaf

/-- The states of a graph can be told apart by name. -/
structure StateGraph.OwnNames (graph : StateGraph) : Prop where
  distinct : (graph.states.map State.name).Nodup
  found : ∀ id state, graph.states[id]? = some state → graph.find? state.name = some id

/-! ## One state for a leaf task in a graph -/

/-- A leaf task stands at its name and nowhere else. -/
theorem Resource.place_of_declaredAt?_task {resource : Resource} {entry : Target}
    {place : Place} {leaf : LeafTask}
    (h : resource.declaredAt? entry place = some (.task leaf)) :
    place = .task leaf.name ∧ resource.task? leaf.name = some leaf := by
  cases place with
  | entry =>
      obtain ⟨_, _, heq⟩ := DeclaredNode.written?_eq_some.mp h
      cases heq
  | task name =>
      obtain ⟨task, htask, heq⟩ := Option.map_eq_some_iff.mp h
      cases heq
      obtain rfl := Resource.name_of_task? htask
      exact ⟨rfl, htask⟩
  | inside outer step =>
      obtain ⟨target, _, htarget⟩ := Option.bind_eq_some_iff.mp h
      obtain ⟨_, _, heq⟩ := DeclaredNode.written?_eq_some.mp htarget
      cases heq

section Declared

variable {manifest : Manifest} {settings : Settings}
  {named : Resource → LeafTask → String → Prop} {inProgress : List String}
  {resource : Resource} {entry : Target} {graph : StateGraph}

/-- The branches of a unit belong to the resource of the unit. -/
theorem GraphOf.of_mem_unitGraphs {inner : StateGraph}
    (h : GraphOf manifest settings named inProgress resource entry graph)
    (hinner : inner ∈ graph.unitGraphs) :
    ∃ entry, GraphOf manifest settings named inProgress resource entry inner := by
  induction graph using StateGraph.nestedInduction generalizing entry with
  | step graph ih =>
      rcases StateGraph.mem_unitGraphs_iff.mp hinner with
        rfl | ⟨state, hstate, branch, hbranch, hinner⟩
      · exact ⟨entry, h⟩
      · have hheld := StateGraph.mem_nested_of_mem_branches hbranch
        cases h with
        | made places hlength _ _ _ hstates =>
            obtain ⟨id, hid⟩ := List.mem_iff_getElem?.mp hstate
            obtain ⟨hlt, _⟩ := List.getElem?_eq_some_iff.mp hid
            have hplace := List.getElem?_eq_getElem (hlength ▸ hlt)
            cases hstates id _ state hplace hid with
            | made node hnode hkind hnext =>
                generalize hstateKind : state.kind = kind at hkind hbranch
                cases hkind with
                | parallel branches next ended graphs _ hgraphsLength hgraphs =>
                    obtain ⟨index, hindex⟩ := List.mem_iff_getElem?.mp hbranch
                    obtain ⟨hltGraphs, _⟩ := List.getElem?_eq_some_iff.mp hindex
                    have htarget := List.getElem?_eq_getElem (hgraphsLength ▸ hltGraphs)
                    exact ih state hstate branch hheld (hgraphs index _ branch htarget hindex)
                      hinner
                | _ => cases hbranch

/-- A state that invokes something is the one of a leaf task of the resource, at the place
of the leaf task. -/
theorem StateOf.exists_leaf {places : List Place} {place : Place} {state : State}
    {invocation : Invocation}
    (h : StateOf manifest settings named inProgress resource entry places place state)
    (hkind : state.kind = .invoke invocation) :
    ∃ leaf, state.Invokes settings leaf ∧ invocation.task = leaf.name ∧
      resource.task? leaf.name = some leaf ∧ place = .task leaf.name := by
  cases h with
  | made node hnode hof _ =>
      rw [hkind] at hof
      cases hof with
      | task leaf _ hcarried _ _ =>
          obtain ⟨hplace, htask⟩ := Resource.place_of_declaredAt?_task hnode
          have hinvocation := LeafTask.carriedBy_iff.mp hcarried
          exact ⟨leaf, ⟨_, _, hkind.trans (congrArg _ hinvocation)⟩, hcarried.task, htask,
            hplace⟩

/-- In a graph a leaf task is invoked by one state. -/
theorem GraphOf.eq_of_invokes
    (h : GraphOf manifest settings named inProgress resource entry graph) {id id' : StateId}
    {state state' : State} (hstate : graph.states[id]? = some state)
    (hstate' : graph.states[id']? = some state') {invocation invocation' : Invocation}
    (hkind : state.kind = .invoke invocation) (hkind' : state'.kind = .invoke invocation')
    (htask : invocation.task = invocation'.task) : id = id' := by
  cases h with
  | made places hlength hdistinct _ _ hstates =>
      obtain ⟨hlt, _⟩ := List.getElem?_eq_some_iff.mp hstate
      obtain ⟨hlt', _⟩ := List.getElem?_eq_some_iff.mp hstate'
      rw [← hlength] at hlt hlt'
      have hplace := List.getElem?_eq_getElem hlt
      have hplace' := List.getElem?_eq_getElem hlt'
      obtain ⟨leaf, _, hname, _, hleaf⟩ :=
        StateOf.exists_leaf (hstates id _ state hplace hstate) hkind
      obtain ⟨leaf', _, hname', _, hleaf'⟩ :=
        StateOf.exists_leaf (hstates id' _ state' hplace' hstate') hkind'
      have hsame : places[id] = places[id'] := by
        rw [hleaf, hleaf', ← hname, ← hname', htask]
      exact (List.Nodup.getElem_inj_iff hdistinct).mp hsame

theorem GraphOf.exists_leaf_of_mem
    (h : GraphOf manifest settings named inProgress resource entry graph) {id : StateId}
    {state : State} (hstate : graph.states[id]? = some state) {invocation : Invocation}
    (hkind : state.kind = .invoke invocation) :
    ∃ leaf, state.Invokes settings leaf ∧ invocation.task = leaf.name ∧
      resource.task? leaf.name = some leaf := by
  cases h with
  | made places hlength _ _ _ hstates =>
      obtain ⟨hlt, _⟩ := List.getElem?_eq_some_iff.mp hstate
      have hplace := List.getElem?_eq_getElem (hlength ▸ hlt)
      obtain ⟨leaf, hinvokes, hname, htask, _⟩ :=
        StateOf.exists_leaf (hstates id _ state hplace hstate) hkind
      exact ⟨leaf, hinvokes, hname, htask⟩

end Declared

/-! ## Names and where they stand -/

theorem State.exists_invocation {state : State} (h : ¬ state.isControl = true) :
    ∃ invocation, state.kind = .invoke invocation := by
  unfold isControl at h
  cases hkind : state.kind with
  | invoke invocation => exact ⟨invocation, rfl⟩
  | _ => simp [hkind, StateKind.word?] at h

theorem invokeName_injective {task task' : String}
    (h : Expansion.invokeName task = Expansion.invokeName task') : task = task' := by
  unfold Expansion.invokeName at h
  exact (String.append_right_inj "task-").mp h

namespace StateGraph

variable {graphs : List StateGraph} {index index' : Nat} {inner inner' : StateGraph}
  {id id' : StateId} {state state' : State}

/-- If all controls have names of their own, no two stand in different graphs. -/
theorem index_not_lt_of_nodup
    (h : ((graphs.flatMap fun inner => inner.states.filter State.isControl).map
      State.name).Nodup)
    (hinner : graphs[index]? = some inner) (hinner' : graphs[index']? = some inner')
    (hstate : inner.states[id]? = some state) (hstate' : inner'.states[id']? = some state')
    (hcontrol : state.isControl = true) (hcontrol' : state'.isControl = true)
    (hname : state.name = state'.name) : ¬ index < index' := by
  intro hlt
  rw [List.map_flatMap, List.nodup_flatMap] at h
  obtain ⟨hindex, rfl⟩ := List.getElem?_eq_some_iff.mp hinner
  obtain ⟨hindex', rfl⟩ := List.getElem?_eq_some_iff.mp hinner'
  have hdisjoint := List.pairwise_iff_getElem.mp h.2 index index' hindex hindex' hlt
  have hmem : state.name ∈ (graphs[index].states.filter State.isControl).map State.name :=
    List.mem_map_of_mem (List.mem_filter.mpr ⟨List.mem_of_getElem? hstate, hcontrol⟩)
  have hmem' : state'.name ∈ (graphs[index'].states.filter State.isControl).map State.name :=
    List.mem_map_of_mem (List.mem_filter.mpr ⟨List.mem_of_getElem? hstate', hcontrol'⟩)
  rw [hname] at hmem
  exact hdisjoint hmem hmem'

/-- And no two stand at different numbers of one graph. -/
theorem id_not_lt_of_nodup
    (h : ((graphs.flatMap fun inner => inner.states.filter State.isControl).map
      State.name).Nodup)
    (hinner : graphs[index]? = some inner)
    (hstate : inner.states[id]? = some state) (hstate' : inner.states[id']? = some state')
    (hcontrol : state.isControl = true) (hcontrol' : state'.isControl = true)
    (hname : state.name = state'.name) : ¬ id < id' := by
  intro hlt
  rw [List.map_flatMap, List.nodup_flatMap] at h
  have hown := h.1 inner (List.mem_of_getElem? hinner)
  rw [List.Nodup, List.pairwise_map, List.pairwise_filter] at hown
  obtain ⟨hid, rfl⟩ := List.getElem?_eq_some_iff.mp hstate
  obtain ⟨hid', rfl⟩ := List.getElem?_eq_some_iff.mp hstate'
  exact List.pairwise_iff_getElem.mp hown id id' hid hid' hlt hcontrol hcontrol' hname

/-- Controls with one name are one state. -/
theorem position_eq_of_nodup
    (h : ((graphs.flatMap fun inner => inner.states.filter State.isControl).map
      State.name).Nodup)
    (hinner : graphs[index]? = some inner) (hinner' : graphs[index']? = some inner')
    (hstate : inner.states[id]? = some state) (hstate' : inner'.states[id']? = some state')
    (hcontrol : state.isControl = true) (hcontrol' : state'.isControl = true)
    (hname : state.name = state'.name) : (index, id) = (index', id') := by
  have hle := index_not_lt_of_nodup h hinner hinner' hstate hstate' hcontrol hcontrol' hname
  have hge := index_not_lt_of_nodup h hinner' hinner hstate' hstate hcontrol' hcontrol
    hname.symm
  obtain rfl : index = index' := by omega
  obtain rfl : inner = inner' := Option.some.inj (hinner.symm.trans hinner')
  have hle := id_not_lt_of_nodup h hinner hstate hstate' hcontrol hcontrol' hname
  have hge := id_not_lt_of_nodup h hinner hstate' hstate hcontrol' hcontrol hname.symm
  obtain rfl : id = id' := Nat.le_antisymm (Nat.le_of_not_lt hge) (Nat.le_of_not_lt hle)
  rfl

/-- A control that stands in a graph of a unit is a control of the unit. -/
theorem mem_controls {unit : StateGraph} (h : unit.At index id state)
    (hcontrol : state.isControl = true) : state ∈ unit.controls := by
  obtain ⟨inner, hinner, hstate⟩ := h
  refine List.mem_flatMap.mpr ⟨inner, List.mem_of_getElem? hinner, ?_⟩
  exact List.mem_filter.mpr ⟨List.mem_of_getElem? hstate, hcontrol⟩

/-- Where names are distinct, the first state of a name is the state. -/
theorem OwnNames.of_nodup {graph : StateGraph}
    (h : (graph.states.map State.name).Nodup) : graph.OwnNames where
  distinct := h
  found := by
    intro id state hstate
    obtain ⟨hlt, rfl⟩ := List.getElem?_eq_some_iff.mp hstate
    unfold find?
    rw [List.findIdx?_eq_some_iff_getElem]
    refine ⟨hlt, by simp, ?_⟩
    intro other hother hname
    rw [List.Nodup, List.pairwise_map] at h
    have hne := List.pairwise_iff_getElem.mp h other id (by omega) hlt hother
    exact hne (by simpa using hname)

theorem UnitNamed.ownNames {settings : Settings} {unit : StateGraph}
    (h : unit.UnitNamed settings) {inner : StateGraph} (hinner : inner ∈ unit.unitGraphs) :
    inner.OwnNames := by
  refine .of_nodup ?_
  obtain ⟨index, hindex⟩ := List.mem_iff_getElem?.mp hinner
  rw [List.Nodup, List.pairwise_map, List.pairwise_iff_getElem]
  intro id id' hid hid' hlt hname
  have hat : unit.At index id inner.states[id] :=
    ⟨inner, hindex, List.getElem?_eq_getElem hid⟩
  have hat' : unit.At index id' inner.states[id'] :=
    ⟨inner, hindex, List.getElem?_eq_getElem hid'⟩
  have hne : (index, id) ≠ (index, id') := by
    intro hsame
    have hid := (Prod.mk.inj hsame).2
    omega
  exact (h.shared hat hat' hne hname).1 rfl

end StateGraph

section Unit

variable {manifest : Manifest} {settings : Settings}
  {named : Resource → LeafTask → String → Prop} {inProgress : List String}
  {resource : Resource} {entry : Target} {unit : StateGraph}

/-- States that invoke one leaf task in a unit stand in different graphs. -/
theorem GraphOf.shared_of_invokes
    (h : GraphOf manifest settings named inProgress resource entry unit)
    {index index' : Nat} {id id' : StateId} {state state' : State}
    (hat : unit.At index id state) (hat' : unit.At index' id' state')
    (hne : (index, id) ≠ (index', id')) {invocation invocation' : Invocation}
    (hkind : state.kind = .invoke invocation) (hkind' : state'.kind = .invoke invocation')
    (htask : invocation.task = invocation'.task) :
    index ≠ index' ∧ ∃ leaf, state.Invokes settings leaf ∧ state'.Invokes settings leaf := by
  obtain ⟨inner, hinner, hstate⟩ := hat
  obtain ⟨inner', hinner', hstate'⟩ := hat'
  obtain ⟨_, hgraph⟩ := h.of_mem_unitGraphs (List.mem_of_getElem? hinner)
  obtain ⟨_, hgraph'⟩ := h.of_mem_unitGraphs (List.mem_of_getElem? hinner')
  refine ⟨?_, ?_⟩
  · rintro rfl
    obtain rfl : inner = inner' := Option.some.inj (hinner.symm.trans hinner')
    have hid := hgraph.eq_of_invokes hstate hstate' hkind hkind' htask
    exact hne (by rw [hid])
  · obtain ⟨leaf, hinvokes, hleaf, hfound⟩ := hgraph.exists_leaf_of_mem hstate hkind
    obtain ⟨leaf', hinvokes', hleaf', hfound'⟩ := hgraph'.exists_leaf_of_mem hstate' hkind'
    have hnames : leaf.name = leaf'.name := by rw [← hleaf, ← hleaf', htask]
    rw [hnames, hfound'] at hfound
    obtain rfl := Option.some.inj hfound
    exact ⟨leaf', hinvokes, hinvokes'⟩

/-- A state of a unit whose names are known throughout has its name alone. -/
theorem StateGraph.At.namedAlone {index : Nat} {id : StateId} {state : State}
    (hat : unit.At index id state) (hnamed : unit.NamedThroughout) : state.NamedAlone := by
  obtain ⟨inner, hinner, hstate⟩ := hat
  have hmem := StateGraph.mem_all_of_mem_unitGraphs (List.mem_of_getElem? hinner)
  exact hnamed inner hmem state (List.mem_of_getElem? hstate)

/-- A unit of a declaration whose controls are numbered, and whose invocations are named
by their tasks. -/
theorem GraphOf.unitNamed
    (h : GraphOf manifest settings named inProgress resource entry unit)
    (hnumbered : Numbered 0 unit.controls) (hnamed : unit.NamedThroughout) :
    unit.UnitNamed settings where
  numbered := hnumbered
  shared := by
    intro index index' id id' state state' hat hat' hne hname
    have halone := hat.namedAlone hnamed
    have halone' := hat'.namedAlone hnamed
    by_cases hcontrol : state.isControl = true
    · by_cases hcontrol' : state'.isControl = true
      · obtain ⟨inner, hinner, hstate⟩ := hat
        obtain ⟨inner', hinner', hstate'⟩ := hat'
        exact absurd (StateGraph.position_eq_of_nodup hnumbered.nodup_names hinner hinner'
          hstate hstate' hcontrol hcontrol' hname) hne
      · obtain ⟨invocation, hkind⟩ := State.exists_invocation hcontrol'
        obtain ⟨number, hlabel⟩ :=
          hnumbered.exists_labelled (StateGraph.mem_controls hat hcontrol)
        rw [halone'.invoked invocation hkind] at hname
        exact absurd hname (hlabel.ne_invokeName invocation.task)
    · obtain ⟨invocation, hkind⟩ := State.exists_invocation hcontrol
      by_cases hcontrol' : state'.isControl = true
      · obtain ⟨number, hlabel⟩ :=
          hnumbered.exists_labelled (StateGraph.mem_controls hat' hcontrol')
        rw [halone.invoked invocation hkind] at hname
        exact absurd hname.symm (hlabel.ne_invokeName invocation.task)
      · -- Both are named by their tasks, so it is one leaf task.
        obtain ⟨invocation', hkind'⟩ := State.exists_invocation hcontrol'
        rw [halone.invoked invocation hkind, halone'.invoked invocation' hkind'] at hname
        exact h.shared_of_invokes hat hat' hne hkind hkind' (invokeName_injective hname)

end Unit

namespace Expansion

variable {σ : Type}

theorem unitNamed_of_compileUnit {expansion : Expansion σ} {resource : Resource}
    {origin : String} {entry : Target} {before after : Progress σ} {graph : StateGraph}
    (hrun : run (expansion.compileUnit resource origin entry) before = (.ok graph, after)) :
    ∀ unit, graph.IsUnit unit → unit.UnitNamed expansion.settings := by
  obtain ⟨hnumbered, hnamed⟩ :=
    (names_compileUnit expansion resource origin entry before).of_ok hrun
  have hfollow := traces_follow (expansion.source.names_answers before.units)
    (expansion.limit resource entry)
  obtain ⟨_, hgraph, _⟩ := (traces_unit hfollow .start resource entry origin).of_ok hrun
  rintro unit (rfl | ⟨inner, hinner, state, hstate, settings, hkind⟩)
  · exact hgraph.unitNamed hnumbered hnamed
  · have hnested : unit ∈ state.kind.nested := by
      rw [hkind]
      exact List.mem_singleton_self unit
    have hunit := StateGraph.mem_all_of_nested hinner hstate hnested
    obtain ⟨_, _, _, hof⟩ := graph.isGraph_of_mem_all ⟨_, _, _, hgraph⟩ unit hunit
    refine hof.unitNamed ((hnamed inner hinner state hstate).processor settings unit hkind) ?_
    intro other hother
    exact hnamed other (StateGraph.all_trans hunit hother)

/-- In every unit of a compiled graph the controls have the numbers from one on, each its
own, and states with one name invoke one leaf task in different graphs.  In every graph a
state is found by its name. -/
theorem names_apart (expansion : Expansion σ) (resource : Resource) (before : Progress σ)
    (graph : StateGraph)
    (h : (run (expansion.compile resource) before).1 = .ok graph ∨ ∃ origin entry,
      (run (expansion.compileUnit resource origin entry) before).1 = .ok graph) :
    (∀ unit, graph.IsUnit unit → unit.UnitNamed expansion.settings) ∧
    ∀ inner ∈ graph.all, inner.OwnNames := by
  have hunits : ∀ unit, graph.IsUnit unit → unit.UnitNamed expansion.settings := by
    rcases h with hcompile | ⟨origin, entry, hunit⟩
    · unfold compile at hcompile
      split at hcompile
      · exact unitNamed_of_compileUnit (Prod.ext hcompile rfl)
      · cases hcompile
    · exact unitNamed_of_compileUnit (Prod.ext hunit rfl)
  refine ⟨hunits, ?_⟩
  intro inner hinner
  obtain ⟨unit, hunit, hmem⟩ := StateGraph.exists_isUnit hinner
  exact (hunits unit hunit).ownNames hmem

/-- A task that is started in two branches. -/
def pairResource : Resource where
  name := "pair"
  source := ⟨"code", "pair"⟩
  kind := .stateMachine (.inline (.parallel [.leaf "work", .leaf "work"] none true))
  tasks := [{ name := "work" }]

/-- The graph of a branch with the task. -/
def workGraph : StateGraph where
  start := 0
  states := [
    { name := "task-work"
      kind := .invoke {
        task := "work", functionName := "work", payload := none, resultPath := "$"
        retry := [], catches := [] }
      next := none }]
  tasks := SortedMap.empty.insert "work" 0

/-- The branches share a name, and each finds its own state by it. -/
theorem names_apart_pair :
    StateGraph.UnitNamed {}
      ⟨0, [⟨"parallel_start-pair_1", .parallel [workGraph, workGraph], none⟩], .empty⟩ ∧
    workGraph.OwnNames := by
  have hnames := names_apart ⟨{}, {}, ownNames⟩ pairResource ⟨(), {}, {}, [], []⟩
    ⟨0, [⟨"parallel_start-pair_1", .parallel [workGraph, workGraph], none⟩], .empty⟩
    (.inl rfl)
  refine ⟨hnames.1 _ (.inl rfl), hnames.2 workGraph ?_⟩
  refine StateGraph.mem_all_of_nested (StateGraph.self_mem_all _) List.mem_cons_self ?_
  exact List.mem_cons_self

end Expansion

end TaskMachine
