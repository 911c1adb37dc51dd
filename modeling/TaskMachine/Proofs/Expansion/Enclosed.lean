import TaskMachine.Proofs.Expansion.Visits

/-!
# Graphs that are made while another one is made

`Expansion.Makes` says that a graph is made from its entry on, while the source of the
expansion goes from one state to another.  The graphs inside it are made meanwhile, one after
the other.  `Expansion.Encloses` says this of a step: whatever graph comes into one of its
states was made between the first and the last thing that the source was asked.  All functions
of an expansion keep to it (`enclosing_follow`), and by induction on how deep graphs are nested
it holds of every graph inside the one that is made (`Makes.makesWithin`).
-/

namespace TaskMachine

/-- A state of a graph holds another graph. -/
def Scope.Holds (scope : Scope) (graph : StateGraph) : Prop :=
  ∃ state ∈ scope.states, graph ∈ state.kind.nested

namespace Expansion

variable {σ : Type}

/-- A graph is made by following a target from its entry on, while the source goes from one
state to another. -/
def Makes (expansion : Expansion σ) (units : σ) (graph : StateGraph) (left : σ) : Prop :=
  ∃ levels resource target origin before after, before.units = units ∧ after.units = left ∧
    run (inGraph (expansion.follow levels resource target origin)) before = (.ok graph, after)

/-- A graph is made at some time, while the source goes from one state to another. -/
def MakesWithin (expansion : Expansion σ) (units : σ) (graph : StateGraph) (left : σ) : Prop :=
  ∃ earlier last later, expansion.Makes (expansion.source.asked units earlier) graph last ∧
    left = expansion.source.asked last later

/-- The source was asked for tasks, and meanwhile all graphs were made that came into
states. -/
structure Encloses (expansion : Expansion σ) (before after : Progress σ) : Prop where
  asked : ∃ roster, after.units = expansion.source.asked before.units roster
  made : ∀ graph, after.scope.Holds graph → before.scope.Holds graph ∨
    expansion.MakesWithin before.units graph after.units

end Expansion

namespace Scope

variable {scope : Scope} {graph : StateGraph}

theorem not_holds_empty : ¬ ({} : Scope).Holds graph := by
  rintro ⟨state, hstate, -⟩
  cases hstate

theorem holds_reserve {name : String} (h : (scope.reserve name).Holds graph) :
    scope.Holds graph := by
  obtain ⟨state, hstate, hgraph⟩ := h
  rcases List.mem_append.mp hstate with hold | hnew
  · exact ⟨state, hold, hgraph⟩
  · rw [List.mem_singleton.mp hnew] at hgraph
    cases hgraph

/-- A state that is filled holds what its kind says. -/
theorem holds_fill {id : StateId} {kind : StateKind} {next : Option StateId}
    (h : (scope.fill id kind next).Holds graph) :
    scope.Holds graph ∨ graph ∈ kind.nested := by
  obtain ⟨state, hstate, hgraph⟩ := h
  obtain ⟨index, hindex⟩ := List.mem_iff_getElem?.mp hstate
  have hmodified : (scope.states.modify id fun state => ⟨state.name, kind, next⟩)[index]? =
      some state := hindex
  rw [List.getElem?_modify] at hmodified
  obtain ⟨old, hold, rfl⟩ := Option.map_eq_some_iff.mp hmodified
  by_cases hsame : id = index
  · rw [if_pos hsame] at hgraph
    exact .inr hgraph
  · rw [if_neg hsame] at hgraph
    exact .inl ⟨old, List.mem_of_getElem? hold, hgraph⟩

end Scope

namespace Expansion

section Steps

variable {σ : Type} {expansion : Expansion σ} {before middle after now : Progress σ}
  {units first last left : σ} {graph inner : StateGraph} {roster : List DeclaredTask}

/-! ## Graphs that are made meanwhile -/

theorem Makes.within (h : expansion.Makes units graph left) :
    expansion.MakesWithin units graph left := ⟨[], left, [], h, rfl⟩

/-- The source was asked something before. -/
theorem MakesWithin.earlier (hfirst : first = expansion.source.asked units roster)
    (h : expansion.MakesWithin first graph left) : expansion.MakesWithin units graph left := by
  obtain ⟨more, last, later, hmakes, hlast⟩ := h
  refine ⟨roster ++ more, last, later, ?_, hlast⟩
  rw [UnitSource.asked_append, ← hfirst]
  exact hmakes

/-- The source is asked something afterwards. -/
theorem MakesWithin.later (h : expansion.MakesWithin units graph last)
    (hlast : left = expansion.source.asked last roster) :
    expansion.MakesWithin units graph left := by
  obtain ⟨earlier, ended, more, hmakes, rfl⟩ := h
  refine ⟨earlier, ended, more ++ roster, hmakes, ?_⟩
  rw [UnitSource.asked_append, ← hlast]

namespace Encloses

theorem of_eq (hunits : after.units = before.units) (hscope : after.scope = before.scope) :
    Encloses expansion before after where
  asked := ⟨[], hunits⟩
  made _ h := .inl (hscope ▸ h)

theorem trans (h : Encloses expansion before middle) (hmore : Encloses expansion middle after) :
    Encloses expansion before after where
  asked := by
    obtain ⟨roster, hmiddle⟩ := h.asked
    obtain ⟨later, hafter⟩ := hmore.asked
    exact ⟨roster ++ later, by rw [hafter, hmiddle, UnitSource.asked_append]⟩
  made := by
    obtain ⟨roster, hmiddle⟩ := h.asked
    obtain ⟨later, hafter⟩ := hmore.asked
    intro graph hgraph
    rcases hmore.made graph hgraph with hheld | hmade
    · rcases h.made graph hheld with hheld | hmade
      · exact .inl hheld
      · exact .inr (hmade.later hafter)
    · exact .inr (hmade.earlier hmiddle)

/-- A leaf task is asked for when it is entered. -/
theorem enterTask (expansion : Expansion σ) (before : Progress σ) (resource : Resource)
    (task : LeafTask) :
    Encloses expansion before
      (before.enterTask (expansion.source resource task before.units).2 task.name) where
  asked := ⟨[⟨resource, task⟩], rfl⟩
  made _ hgraph := .inl (Scope.holds_reserve hgraph)

theorem enterNode (before : Progress σ) (kind origin : String) :
    Encloses expansion before (before.enterNode kind origin) where
  asked := ⟨[], rfl⟩
  made _ hgraph := .inl (Scope.holds_reserve hgraph)

/-- The graphs of a kind were made before a state of this kind is filled. -/
theorem fillState (h : Encloses expansion before after) {kind : StateKind}
    (hkind : ∀ graph ∈ kind.nested, expansion.MakesWithin before.units graph after.units)
    (id : StateId) (next : Option StateId) :
    Encloses expansion before (after.fillState id kind next) where
  asked := h.asked
  made := by
    intro graph hgraph
    rcases Scope.holds_fill hgraph with hheld | hnested
    · exact h.made graph hheld
    · exact .inr (hkind graph hnested)

end Encloses

/-- A step that encloses the graphs of the states that it makes. -/
def Enclosing {α : Type} (expansion : Expansion σ) (step : Expand σ α) : Prop :=
  ∀ before, Ensures step before (fun _ after => Encloses expansion before after)
    (fun _ _ => True)

theorem Enclosing.since {α : Type} {step : Expand σ α} (h : Enclosing expansion step)
    (hnow : Encloses expansion before now) :
    Ensures step now (fun _ after => Encloses expansion before after) (fun _ _ => True) :=
  (h now).imp fun _ _ hafter => hnow.trans hafter

/-! ## The functions of an expansion -/

theorem enclosing_successor {resource : Resource} {follow : Follow σ}
    (h : ∀ target origin, Enclosing expansion (follow target origin)) (next : Option Target)
    (ended : Bool) (origin : String) :
    Enclosing expansion (successor resource follow next ended origin) := by
  intro before
  refine ensures_successor ?_ ?_
  · intro _ ignored
    exact .of_eq rfl rfl
  · intro target _
    exact h target origin before

theorem enclosing_leaf {resource : Resource} {follow : Follow σ}
    (h : ∀ target origin, Enclosing expansion (follow target origin)) (name : String) :
    Enclosing expansion (expansion.leaf resource follow name) := by
  intro before
  refine ensures_leaf (fun _ _ => .of_eq rfl rfl) (fun _ => trivial) (fun _ _ _ => trivial) ?_
  intro task functionName _ _ _
  have hentered := Encloses.enterTask expansion before resource task
  refine (Ensures.mapM (fun _ _ now => Encloses expansion before now) hentered ?_).imp ?_
  · intro _ rule _ _ now _ hnow
    simp only [ensures_bind, ensures_pure]
    exact (h rule.next task.name).since hnow
  · intro catches now hnow
    apply ((enclosing_successor h task.next task.ended task.name).since hnow).imp
    intro next last hlast
    exact hlast.fillState (by rintro graph ⟨⟩) _ next

/-- The state of a node, and the graphs it is going to hold. -/
def EnclosesKind (expansion : Expansion σ) (before : Progress σ)
    (answer : StateKind × Option StateId) (after : Progress σ) : Prop :=
  Encloses expansion before after ∧
    ∀ graph ∈ answer.1.nested, expansion.MakesWithin before.units graph after.units

/-- A branch is made from its entry on. -/
theorem enclosing_branch {levels : Nat}
    (h : ∀ resource target origin,
      Enclosing expansion (expansion.follow levels resource target origin))
    (resource : Resource) (target : Target) (origin : String) (now : Progress σ)
    (hscope : now.scope = {}) :
    Ensures (expansion.follow levels resource target origin) now
      (fun start after => expansion.Makes now.units (after.scope.toGraph start) after.units ∧
        ∃ roster, after.units = expansion.source.asked now.units roster)
      (fun _ _ => True) := by
  apply (h resource target origin now).and_run.imp
  rintro start after ⟨hrun, hencloses⟩
  have hempty : { now with scope := {} } = now := by rw [← hscope]
  rw [← hempty] at hrun
  have hmade := run_inGraph_eq_ok.mpr ⟨start, after, hrun, rfl, rfl⟩
  exact ⟨⟨levels, resource, target, origin, now, { after with scope := now.scope }, rfl, rfl,
    hmade⟩, hencloses.asked⟩

theorem enclosing_parallel {levels : Nat}
    (h : ∀ resource target origin,
      Enclosing expansion (expansion.follow levels resource target origin))
    (resource : Resource) (origin name : String) (branches : List Target)
    (next : Option Target) (ended : Bool) :
    Ensures (expansion.nodeKind (expansion.follow levels) resource origin name
        (.parallel branches next ended)) before
      (EnclosesKind expansion before) (fun _ _ => True) := by
  refine ensures_parallel (fun _ graphs now => Encloses expansion before now ∧
    ∀ graph ∈ graphs, expansion.MakesWithin before.units graph now.units)
    (fun _ => trivial) ⟨.of_eq rfl rfl, by simp⟩ ?_ ?_
  · rintro _ branch _ graphs now _ ⟨hnow, hgraphs⟩
    obtain ⟨roster, hunits⟩ := hnow.asked
    apply (enclosing_branch h resource branch origin { now with scope := {} } rfl).imp
    rintro start after ⟨hmakes, later, hlater⟩
    refine ⟨hnow.trans ⟨⟨later, hlater⟩, fun _ hheld => .inl hheld⟩, ?_⟩
    intro graph hgraph
    rcases List.mem_append.mp hgraph with hdone | hlast
    · exact (hgraphs graph hdone).later hlater
    · rw [List.mem_singleton.mp hlast]
      exact hmakes.within.earlier hunits
  · rintro graphs now _ ⟨hnow, hgraphs⟩
    apply ((enclosing_successor (h resource) next ended origin) now).imp
    intro id after hafter
    obtain ⟨later, hlater⟩ := hafter.asked
    refine ⟨hnow.trans hafter, fun graph hgraph => ?_⟩
    exact (hgraphs graph hgraph).later hlater

theorem enclosing_map_node {levels : Nat}
    (h : ∀ resource target origin,
      Enclosing expansion (expansion.follow levels resource target origin))
    (resource : Resource) (origin name : String) (items : ValueSource) (processor : String)
    (maxConcurrency : Option UInt32) (next : Option Target) :
    Ensures (expansion.nodeKind (expansion.follow levels) resource origin name
        (.map items processor maxConcurrency next)) before
      (EnclosesKind expansion before) (fun _ _ => True) := by
  refine ensures_map_node (fun _ => trivial) (fun _ => trivial) (fun _ _ _ => trivial)
    (fun _ _ _ => trivial) (fun _ _ _ _ _ _ => trivial) ?_
  intro itemsPath iterator _ _ _ _ _
  apply (enclosing_branch h iterator iterator.startAt _ (before.enterUnit iterator.name)
    rfl).imp
  rintro start left ⟨hmakes, roster, hleft⟩
  have hnow : Encloses expansion before (left.leaveUnit before) :=
    ⟨⟨roster, hleft⟩, fun _ hheld => .inl hheld⟩
  apply ((enclosing_successor (h resource) next false origin) (left.leaveUnit before)).imp
  intro id after hafter
  obtain ⟨later, hlater⟩ := hafter.asked
  refine ⟨hnow.trans hafter, fun graph hgraph => ?_⟩
  rw [List.mem_singleton.mp hgraph]
  exact hmakes.within.later hlater

theorem enclosing_nodeKind {levels : Nat}
    (h : ∀ resource target origin,
      Enclosing expansion (expansion.follow levels resource target origin))
    (resource : Resource) (origin name : String) (control : ControlNode) :
    Ensures (expansion.nodeKind (expansion.follow levels) resource origin name control) before
      (EnclosesKind expansion before) (fun _ _ => True) := by
  have hstart : Encloses expansion before before := .of_eq rfl rfl
  have hbare : ∀ {kind : StateKind} {next : Option StateId} {after : Progress σ},
      kind.nested = [] → Encloses expansion before after →
      EnclosesKind expansion before (kind, next) after := by
    intro kind next after hnested hafter
    refine ⟨hafter, fun graph hgraph => ?_⟩
    rw [hnested] at hgraph
    cases hgraph
  cases control with
  | wait seconds next =>
      exact ensures_wait ((h resource next origin before).imp fun _ _ => hbare rfl)
  | fail cause error => exact hbare rfl hstart
  | pass next ended =>
      exact ensures_pass ((enclosing_successor (h resource) next ended origin before).imp
        fun _ _ => hbare rfl)
  | succeed => exact hbare rfl hstart
  | choice branches otherwise =>
      refine ensures_choice (fun _ _ now => Encloses expansion before now) (fun _ => trivial)
        hstart (fun _ _ _ _ _ _ _ _ _ => trivial) ?_ ?_ ?_
      · intro _ branch _ _ now _ _ hnow _
        exact (h resource branch.next origin).since hnow
      · intro _ _ now _ hnow
        exact hbare rfl hnow
      · intro target _ _ now _ hnow
        exact ((h resource target origin).since hnow).imp fun _ _ => hbare rfl
  | parallel branches next ended =>
      exact enclosing_parallel h resource origin name branches next ended
  | map items processor maxConcurrency next =>
      exact enclosing_map_node h resource origin name items processor maxConcurrency next

theorem enclosing_node {levels : Nat}
    (h : ∀ resource target origin,
      Enclosing expansion (expansion.follow levels resource target origin))
    (resource : Resource) (control : ControlNode) (origin : String) :
    Enclosing expansion (expansion.node (expansion.follow levels) resource control origin) := by
  intro before
  refine ensures_node ((enclosing_nodeKind h resource origin _ control).imp ?_)
  rintro ⟨kind, next⟩ after ⟨hafter, hkind⟩
  exact ((Encloses.enterNode before control.kind origin).trans hafter).fillState hkind _ next

/-- Following a target encloses the graphs of the states that it makes. -/
theorem enclosing_follow (expansion : Expansion σ) (levels : Nat) (resource : Resource)
    (target : Target) (origin : String) :
    Enclosing expansion (expansion.follow levels resource target origin) := by
  induction levels generalizing resource target origin with
  | zero => exact fun _ => trivial
  | succ levels ih =>
      cases target with
      | leaf name => exact enclosing_leaf (ih resource) name
      | inline control => exact enclosing_node ih resource control origin

/-- All graphs inside a graph are made while it is made. -/
theorem Makes.makesWithin (h : expansion.Makes units graph left) (hinner : inner ∈ graph.all) :
    expansion.MakesWithin units inner left := by
  induction graph using StateGraph.nestedInduction generalizing units left with
  | step graph ih =>
      rcases StateGraph.mem_all_iff.mp hinner with
        rfl | ⟨state, hstate, held, hheld, hinside⟩
      · exact h.within
      · obtain ⟨levels, resource, target, origin, before, after, rfl, rfl, hrun⟩ := h
        obtain ⟨start, last, hfollow, rfl, rfl⟩ := run_inGraph_eq_ok.mp hrun
        have hencloses :=
          (enclosing_follow expansion levels resource target origin _).of_ok hfollow
        rcases hencloses.made held ⟨state, hstate, hheld⟩ with hempty | hmade
        · exact absurd hempty Scope.not_holds_empty
        · obtain ⟨earlier, ended, later, hmakes, hlast⟩ := hmade
          exact ((ih state hstate held hheld hmakes hinside).later hlast).earlier rfl

/-- A call that answers has made a graph from its entry on. -/
theorem makes_of_compileUnit {resource : Resource} {origin : String} {entry : Target}
    (h : run (expansion.compileUnit resource origin entry) before = (.ok graph, after)) :
    expansion.Makes before.units graph after.units := by
  unfold compileUnit unit at h
  cases hrepeat : duplicateTask? resource with
  | some task =>
      rw [hrepeat] at h
      cases h
  | none =>
      rw [hrepeat] at h
      obtain ⟨last, hmade, rfl⟩ := run_inUnit_eq_ok.mp h
      exact ⟨_, resource, entry, origin, { before with
        names := {}, inProgress := resource.name :: before.inProgress }, last, rfl, rfl, hmade⟩

end Steps

end Expansion

end TaskMachine
