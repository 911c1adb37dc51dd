import TaskMachine.Proofs.Compute.Ownership
import TaskMachine.Proofs.Expansion.Origins
import TaskMachine.Proofs.Expansion.OwnNames

/-!
# Names that collide

Two invocations of one task have one name, and make a machine invalid.  That is all that
can be wrong with names, unless a name that was made up for the entry of a unit is the name
of a task as well, or is made up twice (`StateGraph.EntriesApart`): the numbers of the
controls start anew in every unit, and then their origins do not tell them apart.

An origin can be read off a name (`State.NamedAfter.origin_eq`).  So two controls of
different units with one name are named after one task, which is invoked in both units, or
after entries of one name.  The entries belong to maps, which have one name then, and a
shorter one.  `StateGraph.controls_apart` goes down that way.
-/

namespace TaskMachine

namespace StateGraph

/-- Two different states of a graph, at any depth, are related. -/
def HasTwo (graph : StateGraph) (related : State → State → Prop) : Prop :=
  ∃ (index index' : Nat) (state state' : State), index ≠ index' ∧
    graph.allStates[index]? = some state ∧ graph.allStates[index']? = some state' ∧
    related state state'

/-- There are two invocations of one task. -/
def InvokesTwice (graph : StateGraph) : Prop :=
  graph.HasTwo fun state state' => ∃ task, state.task? = some task ∧ state'.task? = some task

/-- Two controls have one name. -/
def ControlsCollide (graph : StateGraph) : Prop :=
  graph.HasTwo fun state state' =>
    state.isControl = true ∧ state'.isControl = true ∧ state.name = state'.name

end StateGraph

/-- The name that is made up for the entry of a unit, if the unit begins with a control, is
not that of a task which another unit invokes. -/
def HeldUnit.EntryApart (unit other : HeldUnit) : Prop :=
  unit.graph.BeginsInline → unit.entry ∉ invokedTasks other.graph.unitStates

namespace StateGraph

/-- Names that are made up for entries are not those of tasks in other units.  The name that
is made up for a machine is not made up for one of its maps as well. -/
structure EntriesApart (graph : StateGraph) (name : String) : Prop where
  tasks : (graph.heldUnits ("start-" ++ name)).Pairwise fun unit other =>
    unit.EntryApart other ∧ other.EntryApart unit
  maps : graph.BeginsInline → ∀ state ∈ graph.allStates, ∀ unit ∈ state.held,
    unit.graph.BeginsInline → state.name ≠ name

theorem not_hasTwo_iff {graph : StateGraph} {related : State → State → Prop}
    (hsymm : ∀ {state state'}, related state state' → related state' state) :
    ¬ graph.HasTwo related ↔
      graph.allStates.Pairwise fun state state' => ¬ related state state' := by
  rw [List.pairwise_iff_getElem]
  constructor
  · intro h index index' hindex hindex' hlt hrelated
    exact h ⟨index, index', _, _, Nat.ne_of_lt hlt, List.getElem?_eq_getElem hindex,
      List.getElem?_eq_getElem hindex', hrelated⟩
  · rintro h ⟨index, index', state, state', hne, hstate, hstate', hrelated⟩
    obtain ⟨hindex, rfl⟩ := List.getElem?_eq_some_iff.mp hstate
    obtain ⟨hindex', rfl⟩ := List.getElem?_eq_some_iff.mp hstate'
    rcases Nat.lt_or_gt_of_ne hne with hlt | hlt
    · exact h index index' hindex hindex' hlt hrelated
    · exact h index' index hindex' hindex hlt (hsymm hrelated)

/-- The tasks that are invoked are distinct where no two invocations share one. -/
theorem not_invokesTwice_iff {graph : StateGraph} :
    ¬ graph.InvokesTwice ↔ (invokedTasks graph.allStates).Nodup := by
  unfold InvokesTwice invokedTasks
  rw [not_hasTwo_iff, List.Nodup, List.pairwise_filterMap]
  · apply List.Pairwise.iff
    intro state state'
    constructor
    · rintro h task htask task' htask' rfl
      exact h ⟨task, htask, htask'⟩
    · rintro h ⟨task, htask, htask'⟩
      exact h task htask task htask' rfl
  · rintro state state' ⟨task, htask, htask'⟩
    exact ⟨task, htask', htask⟩

theorem not_controlsCollide_iff {graph : StateGraph} :
    ¬ graph.ControlsCollide ↔ graph.allStates.Pairwise fun state state' =>
      ¬ (state.isControl = true ∧ state'.isControl = true ∧ state.name = state'.name) := by
  apply not_hasTwo_iff
  rintro state state' ⟨hcontrol, hcontrol', hname⟩
  exact ⟨hcontrol', hcontrol, hname.symm⟩

theorem nodup_names_iff_not_hasTwo {graph : StateGraph} :
    graph.names.Nodup ↔ ¬ graph.HasTwo fun state state' => state.name = state'.name := by
  rw [not_hasTwo_iff Eq.symm, names_eq, List.Nodup, List.pairwise_map]

end StateGraph

/-! ## Reading names -/

theorem not_mem_word {kind : StateKind} {word : String} (h : kind.word? = some word) :
    '_' ∉ word.toList := by
  cases kind <;> cases h <;> decide

/-- What a control is named after can be read off its name. -/
theorem State.NamedAfter.origin_eq {state state' : State} {origin origin' : String}
    (h : state.NamedAfter origin) (h' : state'.NamedAfter origin')
    (hname : state.name = state'.name) : origin = origin' := by
  obtain ⟨word, number, hword, hlabel⟩ := h
  obtain ⟨word', number', hword', hlabel'⟩ := h'
  rw [hlabel, hlabel'] at hname
  obtain rfl := number_eq hname
  have hlists := congrArg String.toList hname
  simp only [String.toList_append, List.append_assoc] at hlists
  have hrest := (eq_of_append_cons_eq_left hlists (not_mem_word hword)
    (not_mem_word hword')).2
  exact String.toList_injective (List.append_cancel_right hrest)

/-- A control has a longer name than what it is named after. -/
theorem State.NamedAfter.length_lt {state : State} {origin : String}
    (h : state.NamedAfter origin) : origin.length < state.name.length := by
  obtain ⟨word, number, _, hlabel⟩ := h
  rw [hlabel]
  simp only [String.length_append]
  have hseparator : "_".length = 1 := by decide
  omega

/-- A control is not named like an invocation. -/
theorem State.NamedAfter.ne_invokeName {state : State} {origin : String}
    (h : state.NamedAfter origin) (task : String) :
    state.name ≠ Expansion.invokeName task := by
  obtain ⟨word, number, hword, hlabel⟩ := h
  exact State.Labelled.ne_invokeName ⟨word, origin, hword, hlabel⟩ task

/-! ## Controls of different units -/

/-- Controls of one name have a long name. -/
def State.Apart (length : Nat) (state state' : State) : Prop :=
  state.isControl = true → state'.isControl = true → state.name = state'.name →
    length ≤ state.name.length

theorem State.Apart.symm {length : Nat} {state state' : State}
    (h : State.Apart length state state') : State.Apart length state' state := by
  intro hcontrol' hcontrol hname
  rw [hname]
  exact h hcontrol hcontrol' hname.symm

namespace StateGraph

variable {graph : StateGraph} {name : String} {length : Nat}

/-- Every state of a graph belongs to one of its units. -/
theorem allStates_perm_heldUnits (graph : StateGraph) (entry : String) :
    graph.allStates.Perm
      ((graph.heldUnits entry).flatMap fun unit => unit.graph.unitStates) :=
  graph.allStates_perm

/-- No two units invoke one task. -/
theorem tasks_pairwise (h : (invokedTasks graph.allStates).Nodup) (entry : String) :
    (graph.heldUnits entry).Pairwise fun unit unit' =>
      (invokedTasks unit.graph.unitStates).Disjoint (invokedTasks unit'.graph.unitStates) := by
  have hperm := (graph.allStates_perm_heldUnits entry).filterMap State.task?
  have hnodup := hperm.nodup_iff.mp h
  rw [List.filterMap_flatMap, List.nodup_flatMap] at hnodup
  exact hnodup.2

/-- Names that are made up for the entries of two units, and are one name, are long where
controls of one name are. -/
theorem entries_pairwise (h : graph.allStates.Pairwise (State.Apart length))
    (hapart : graph.EntriesApart name) :
    (graph.heldUnits ("start-" ++ name)).Pairwise fun unit unit' =>
      unit.graph.BeginsInline → unit'.graph.BeginsInline → unit.entry = unit'.entry →
        length ≤ unit.entry.length := by
  unfold heldUnits
  rw [List.pairwise_cons, List.pairwise_flatMap]
  refine ⟨?_, ?_, ?_⟩
  · -- The machine has no name of a map.
    intro unit hunit hbegins hbegins' hentry
    obtain ⟨state, hstate, hheld⟩ := List.mem_flatMap.mp hunit
    obtain ⟨_, _, hstart⟩ := State.mem_held_iff.mp hheld
    rw [hstart] at hentry
    have hname := (String.append_right_inj "start-").mp hentry
    exact absurd hname.symm (hapart.maps hbegins state hstate unit hheld hbegins')
  · intro state _
    unfold State.held
    cases state.kind <;> simp
  · apply h.imp
    intro state state' hstates unit hunit unit' hunit' _ _ hentry
    obtain ⟨_, hkind, hstart⟩ := State.mem_held_iff.mp hunit
    obtain ⟨_, hkind', hstart'⟩ := State.mem_held_iff.mp hunit'
    rw [hstart, hstart'] at hentry
    have hname := (String.append_right_inj "start-").mp hentry
    have hcontrol : state.isControl = true := by simp [State.isControl, hkind, StateKind.word?]
    have hcontrol' : state'.isControl = true := by
      simp [State.isControl, hkind', StateKind.word?]
    have hlength := hstates hcontrol hcontrol' hname
    rw [hstart, String.length_append]
    omega

/-- Two units whose tasks and entries are apart have no control name in common, unless it is
a long one. -/
theorem apart_of_units {unit unit' : HeldUnit} (hnamed : unit.Named) (hnamed' : unit'.Named)
    (htasks : (invokedTasks unit.graph.unitStates).Disjoint
      (invokedTasks unit'.graph.unitStates))
    (hentry : unit.EntryApart unit') (hentry' : unit'.EntryApart unit)
    (hentries : unit.graph.BeginsInline → unit'.graph.BeginsInline →
      unit.entry = unit'.entry → length ≤ unit.entry.length)
    {state state' : State} (hstate : state ∈ unit.graph.unitStates)
    (hstate' : state' ∈ unit'.graph.unitStates) : State.Apart (length + 1) state state' := by
  intro hcontrol hcontrol' hname
  obtain ⟨origin, hafter, horigin⟩ := hnamed state hstate hcontrol
  obtain ⟨origin', hafter', horigin'⟩ := hnamed' state' hstate' hcontrol'
  obtain rfl := hafter.origin_eq hafter' hname
  rcases horigin with hmem | ⟨rfl, hbegins⟩
  · rcases horigin' with hmem' | ⟨rfl, hbegins'⟩
    · exact absurd hmem' (htasks hmem)
    · exact absurd hmem (hentry' hbegins')
  · rcases horigin' with hmem' | ⟨hsame, hbegins'⟩
    · exact absurd hmem' (hentry hbegins)
    · have hle := hentries hbegins hbegins' hsame
      have hlt := hafter.length_lt
      omega

/-- Controls that are numbered in every unit, and named after its tasks and its entry, have
names of their own where no task is invoked twice and the entries are apart. -/
theorem controls_apart
    (hnamed : ∀ unit ∈ graph.heldUnits ("start-" ++ name), unit.Named)
    (hnumbered : ∀ unit ∈ graph.heldUnits ("start-" ++ name),
      (unit.graph.controls.map State.name).Nodup)
    (htasks : (invokedTasks graph.allStates).Nodup) (hapart : graph.EntriesApart name)
    (length : Nat) : graph.allStates.Pairwise (State.Apart length) := by
  induction length with
  | zero =>
      apply List.pairwise_of_forall
      intro state state' _ _ _
      exact Nat.zero_le _
  | succ length ih =>
      have hperm := graph.allStates_perm_heldUnits ("start-" ++ name)
      rw [hperm.pairwise_iff State.Apart.symm, List.pairwise_flatMap]
      constructor
      · intro unit hunit
        have hnodup := hnumbered unit hunit
        rw [controls_eq_filter, List.Nodup, List.pairwise_map, List.pairwise_filter] at hnodup
        apply hnodup.imp
        intro state state' hne hcontrol hcontrol' hname
        exact absurd hname (hne hcontrol hcontrol')
      · have hboth := (tasks_pairwise htasks ("start-" ++ name)).and
          (hapart.tasks.and (entries_pairwise ih hapart))
        apply hboth.imp_of_mem
        rintro unit unit' hunit hunit' ⟨hdisjoint, ⟨hentry, hentry'⟩, hentries⟩ state hstate
          state' hstate'
        exact apart_of_units (hnamed unit hunit) (hnamed unit' hunit') hdisjoint hentry
          hentry' hentries hstate hstate'

/-- No two controls have one name there. -/
theorem not_controlsCollide
    (hnamed : ∀ unit ∈ graph.heldUnits ("start-" ++ name), unit.Named)
    (hnumbered : ∀ unit ∈ graph.heldUnits ("start-" ++ name),
      (unit.graph.controls.map State.name).Nodup)
    (htasks : (invokedTasks graph.allStates).Nodup) (hapart : graph.EntriesApart name) :
    ¬ graph.ControlsCollide := by
  rw [not_controlsCollide_iff, List.pairwise_iff_getElem]
  rintro index index' hindex hindex' hlt ⟨hcontrol, hcontrol', hname⟩
  have hlong := List.pairwise_iff_getElem.mp
    (controls_apart hnamed hnumbered htasks hapart (graph.allStates[index].name.length + 1))
    index index' hindex hindex' hlt hcontrol hcontrol' hname
  omega

/-- A state is a control that is named after something, or has the name of a task. -/
theorem named_or_invoked (halone : ∀ state ∈ graph.allStates, state.NamedAlone)
    (hnamed : ∀ unit ∈ graph.heldUnits ("start-" ++ name), unit.Named) {state : State}
    (h : state ∈ graph.allStates) :
    (state.isControl = true ∧ ∃ origin, state.NamedAfter origin) ∨
      ∃ task, state.task? = some task ∧ state.name = Expansion.invokeName task := by
  by_cases hcontrol : state.isControl = true
  · left
    have hmem := (graph.allStates_perm_heldUnits ("start-" ++ name)).mem_iff.mp h
    obtain ⟨unit, hunit, hstate⟩ := List.mem_flatMap.mp hmem
    obtain ⟨origin, hafter, _⟩ := hnamed unit hunit state hstate hcontrol
    exact ⟨hcontrol, origin, hafter⟩
  · right
    obtain ⟨invocation, hkind⟩ := State.exists_invocation hcontrol
    exact ⟨invocation.task, State.task?_eq_some_iff.mpr ⟨invocation, hkind, rfl⟩,
      (halone state h).invoked invocation hkind⟩

/-- Where all states are named as they should be, two have one name only as invocations of
one task or as controls. -/
theorem nodup_names_iff (halone : ∀ state ∈ graph.allStates, state.NamedAlone)
    (hnamed : ∀ unit ∈ graph.heldUnits ("start-" ++ name), unit.Named) :
    graph.names.Nodup ↔ ¬ graph.InvokesTwice ∧ ¬ graph.ControlsCollide := by
  rw [nodup_names_iff_not_hasTwo, ← not_or, not_iff_not]
  constructor
  · rintro ⟨index, index', state, state', hne, hstate, hstate', hname⟩
    have hform := named_or_invoked halone hnamed (List.mem_of_getElem? hstate)
    have hform' := named_or_invoked halone hnamed (List.mem_of_getElem? hstate')
    rcases hform with ⟨hcontrol, _, hafter⟩ | ⟨task, htask, hinvoke⟩
    · rcases hform' with ⟨hcontrol', _⟩ | ⟨task', _, hinvoke'⟩
      · exact .inr ⟨index, index', state, state', hne, hstate, hstate', hcontrol, hcontrol',
          hname⟩
      · rw [hinvoke'] at hname
        exact absurd hname (hafter.ne_invokeName task')
    · rcases hform' with ⟨_, _, hafter'⟩ | ⟨task', htask', hinvoke'⟩
      · rw [hinvoke] at hname
        exact absurd hname.symm (hafter'.ne_invokeName task)
      · rw [hinvoke, hinvoke'] at hname
        obtain rfl := invokeName_injective hname
        exact .inl ⟨index, index', state, state', hne, hstate, hstate', task, htask, htask'⟩
  · rintro (h | h)
    · obtain ⟨index, index', state, state', hne, hstate, hstate', task, htask, htask'⟩ := h
      obtain ⟨invocation, hkind, rfl⟩ := State.task?_eq_some_iff.mp htask
      obtain ⟨invocation', hkind', hsame⟩ := State.task?_eq_some_iff.mp htask'
      have hinvoke := (halone state (List.mem_of_getElem? hstate)).invoked invocation hkind
      have hinvoke' := (halone state' (List.mem_of_getElem? hstate')).invoked invocation' hkind'
      have hname : state.name = state'.name := by rw [hinvoke, hinvoke', hsame]
      exact ⟨index, index', state, state', hne, hstate, hstate', hname⟩
    · obtain ⟨index, index', state, state', hne, hstate, hstate', _, _, hname⟩ := h
      exact ⟨index, index', state, state', hne, hstate, hstate', hname⟩

end StateGraph

namespace Expansion

variable {σ : Type} {expansion : Expansion σ} {resource : Resource}
  {before after : Progress σ} {graph : StateGraph}

/-- In every unit of a compiled graph the controls have names of their own, and everywhere
the invocations are named by their tasks. -/
theorem named_compile (h : run (expansion.compile resource) before = (.ok graph, after)) :
    (∀ unit ∈ graph.heldUnits ("start-" ++ resource.name),
      (unit.graph.controls.map State.name).Nodup) ∧
    ∀ state ∈ graph.allStates, state.NamedAlone := by
  have hcompile : Ensures (expansion.compile resource) before
      (fun graph _ => Numbered 0 graph.controls ∧ graph.NamedThroughout)
      (fun _ _ => True) := by
    unfold compile
    split
    · exact names_compileUnit expansion resource _ resource.startAt before
    · exact trivial
  obtain ⟨hnumbered, hnamed⟩ := hcompile.of_ok h
  have halone : ∀ state ∈ graph.allStates, state.NamedAlone := by
    intro state hstate
    obtain ⟨inner, hinner, hstate⟩ := List.mem_flatMap.mp hstate
    exact hnamed inner hinner state hstate
  refine ⟨?_, halone⟩
  intro unit hunit
  rcases List.mem_cons.mp hunit with rfl | hunit
  · exact hnumbered.nodup_names
  · obtain ⟨state, hstate, hheld⟩ := List.mem_flatMap.mp hunit
    obtain ⟨settings, hkind, _⟩ := State.mem_held_iff.mp hheld
    exact ((halone state hstate).processor settings unit.graph hkind).nodup_names

/-- A compiled machine is rejected for names that are used again, and for nothing else. -/
theorem validate_compile_eq_error_iff
    (h : run (expansion.compile resource) before = (.ok graph, after)) :
    (∃ name, (⟨resource.name, graph⟩ : StateMachine).validate =
      .error (.duplicateName name)) ↔ graph.InvokesTwice ∨ graph.ControlsCollide := by
  obtain ⟨_, halone⟩ := named_compile h
  have hnodup := StateGraph.nodup_names_iff halone (origins_compile h)
  obtain ⟨_, _, hgraph, _⟩ :=
    (traces_compile (expansion.source.names_answers before.units) .start resource).of_ok h
  have hclosed := IsGraph.dangling?_eq_none ⟨_, _, _, hgraph⟩
  have hvalid : (⟨resource.name, graph⟩ : StateMachine).fault? = none ↔ graph.names.Nodup :=
    StateMachine.fault?_eq_none_iff hclosed
  rw [hnodup, ← not_or] at hvalid
  unfold StateMachine.validate
  cases hfault : (⟨resource.name, graph⟩ : StateMachine).fault? with
  | none =>
      rw [hfault] at hvalid
      have hneither := hvalid.mp rfl
      simp [hneither]
  | some cause =>
      obtain ⟨name, rfl, _⟩ := StateMachine.fault?_eq_some hclosed hfault
      rw [hfault] at hvalid
      have heither := not_imp_comm.mp hvalid.mpr (by simp)
      simp [heither]

/-- Two invocations of one task make a compiled machine invalid.  If the names that are made
up for entries are apart, nothing else does: no two controls have one name then, unless
there are two such invocations. -/
theorem duplicateName_iff (expansion : Expansion σ) (resource : Resource)
    (before : Progress σ) (graph : StateGraph)
    (h : (run (expansion.compile resource) before).1 = .ok graph) :
    (graph.InvokesTwice → ∃ name, (⟨resource.name, graph⟩ : StateMachine).validate =
      .error (.duplicateName name)) ∧
    (graph.EntriesApart resource.name →
      ((∃ name, (⟨resource.name, graph⟩ : StateMachine).validate =
        .error (.duplicateName name)) ↔ graph.InvokesTwice) ∧
      (graph.ControlsCollide → graph.InvokesTwice)) := by
  have hrun : run (expansion.compile resource) before =
      (.ok graph, (run (expansion.compile resource) before).2) := Prod.ext h rfl
  have hvalidate := validate_compile_eq_error_iff hrun
  refine ⟨fun htwice => hvalidate.mpr (.inl htwice), ?_⟩
  intro hapart
  have hcollide : graph.ControlsCollide → graph.InvokesTwice := by
    intro hcollide
    by_contra htwice
    have htasks := StateGraph.not_invokesTwice_iff.mp htwice
    exact StateGraph.not_controlsCollide (origins_compile hrun) (named_compile hrun).1 htasks
      hapart hcollide
  refine ⟨?_, hcollide⟩
  rw [hvalidate]
  exact ⟨fun heither => heither.elim id hcollide, .inl⟩

/-- A machine that begins with a map. -/
def digestResource : Resource where
  name := "digest"
  source := ⟨"code", "digest"⟩
  kind := .stateMachine (.inline (.map (.path "pages") "page" none none))

/-- An iterator that begins with a control. -/
def pageIterator : Resource where
  name := "page"
  source := ⟨"code", "page"⟩
  kind := .mapIterator (.inline (.pass (some (.leaf "store")) false)) none none
  tasks := [{ name := "store" }]

/-- The graph of the iterator; its first state is named after the map. -/
def pageGraph : StateGraph where
  start := 0
  states := [
    ⟨"pass_start-map_start-digest_1_1", .pass, some 1⟩,
    { name := "task-store"
      kind := .invoke {
        task := "store", functionName := "store", payload := none, resultPath := "$"
        retry := [], catches := [] }
      next := none }]
  tasks := SortedMap.empty.insert "store" 1

/-- The graph of the machine. -/
def digestGraph : StateGraph where
  start := 0
  states := [
    ⟨"map_start-digest_1", .map (mapSettings "$.pages" none pageIterator.kind) pageGraph,
      none⟩]
  tasks := .empty

/-- Both entries are made up, and nothing else is named so: no name is used again. -/
theorem duplicateName_iff_digest :
    (run (compile ⟨⟨[digestResource, pageIterator]⟩, {}, ownNames⟩ digestResource)
      ⟨(), {}, {}, [], []⟩).1 = .ok digestGraph ∧
    digestGraph.EntriesApart "digest" ∧
    ¬ ∃ name, (⟨"digest", digestGraph⟩ : StateMachine).validate =
      .error (.duplicateName name) := by
  have hunits : digestGraph.heldUnits ("start-" ++ "digest") =
      [⟨"start-digest", digestGraph⟩, ⟨"start-map_start-digest_1", pageGraph⟩] := rfl
  have hdigest : invokedTasks digestGraph.unitStates = [] := rfl
  have hpage : invokedTasks pageGraph.unitStates = ["store"] := rfl
  have hnames : digestGraph.allStates.map State.name =
      ["map_start-digest_1", "pass_start-map_start-digest_1_1", "task-store"] := rfl
  have hapart : digestGraph.EntriesApart "digest" := by
    constructor
    · rw [hunits, List.pairwise_pair]
      simp [HeldUnit.EntryApart, hdigest, hpage]
    · rintro _ state hstate _ _ _ hname
      have hmem := List.mem_map_of_mem (f := State.name) hstate
      rw [hname, hnames] at hmem
      simp at hmem
  have hdistinct : ¬ digestGraph.InvokesTwice :=
    StateGraph.not_invokesTwice_iff.mpr (List.nodup_singleton "store")
  have hiff := duplicateName_iff ⟨⟨[digestResource, pageIterator]⟩, {}, ownNames⟩
    digestResource ⟨(), {}, {}, [], []⟩ digestGraph rfl
  refine ⟨rfl, hapart, ?_⟩
  intro hrejected
  exact hdistinct ((hiff.2 hapart).1.mp hrejected)

/-! ## A name of a task that is made up as well -/

/-- A machine that begins with a control and embeds an iterator. -/
def orderResource : Resource where
  name := "order"
  source := ⟨"code", "order"⟩
  kind := .stateMachine (.inline (.pass
    (some (.inline (.map (.path "lines") "line" none none))) false))

/-- The iterator has a task of the name that is made up for the entry of the machine. -/
def lineIterator : Resource where
  name := "line"
  source := ⟨"code", "line"⟩
  kind := .mapIterator (.leaf "start-order") none none
  tasks := [{ name := "start-order", next := some (.inline (.pass none true)) }]

/-- The graph of the iterator. -/
def lineGraph : StateGraph where
  start := 0
  states := [
    { name := "task-start-order"
      kind := .invoke {
        task := "start-order", functionName := "start-order", payload := none
        resultPath := "$", retry := [], catches := [] }
      next := some 1 },
    ⟨"pass_start-order_1", .pass, none⟩]
  tasks := SortedMap.empty.insert "start-order" 0

/-- The graph of the machine. -/
def orderGraph : StateGraph where
  start := 0
  states := [
    ⟨"pass_start-order_1", .pass, some 1⟩,
    ⟨"map_start-order_2", .map (mapSettings "$.lines" none lineIterator.kind) lineGraph, none⟩]
  tasks := .empty

/-- The machine is rejected for a name of two controls, although no task is invoked
twice. -/
theorem duplicateName_order :
    (⟨[orderResource, lineIterator]⟩ : Manifest).duplicateResource? = none ∧
    (run (compile ⟨⟨[orderResource, lineIterator]⟩, {}, ownNames⟩ orderResource)
      ⟨(), {}, {}, [], []⟩).1 = .ok orderGraph ∧
    (⟨"order", orderGraph⟩ : StateMachine).validate =
      .error (.duplicateName "pass_start-order_1") ∧
    ¬ orderGraph.InvokesTwice := by
  have hdistinct : ¬ orderGraph.InvokesTwice :=
    StateGraph.not_invokesTwice_iff.mpr (List.nodup_singleton "start-order")
  exact ⟨rfl, rfl, rfl, hdistinct⟩

end Expansion

end TaskMachine
