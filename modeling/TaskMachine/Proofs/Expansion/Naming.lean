import TaskMachine.Proofs.Expansion.Growth
import TaskMachine.Proofs.Machine.Units

/-!
# Expansions number their controls

`Names before after controls new` says how the states that came got their names: certain
controls got the numbers that were issued meanwhile, each its own, and every invocation is
named by its task.  The controls are those of the states that came, and of the branches
that were made for a state which is not filled yet; they become its controls once it is
(`Names.close`).  A map takes no numbers for its processor, which is numbered from one.

`labels_follow` says so for targets followed down any number of levels.
-/

namespace TaskMachine

/-- An invocation is named by its task, and a processor has the numbers from one on. -/
structure State.NamedAlone (state : State) : Prop where
  invoked : ∀ invocation, state.kind = .invoke invocation →
    state.name = Expansion.invokeName invocation.task
  processor : ∀ settings processor, state.kind = .map settings processor →
    Numbered 0 processor.controls

/-- The states of a graph and of all graphs inside it are named so. -/
def StateGraph.NamedThroughout (graph : StateGraph) : Prop :=
  ∀ inner ∈ graph.all, ∀ state ∈ inner.states, state.NamedAlone

/-- States came, and certain controls were numbered. -/
structure Names {σ : Type} (before after : Progress σ) (controls new : List State) :
    Prop where
  states : after.scope.states = before.scope.states ++ new
  issued : after.names.issued = before.names.issued + controls.length
  numbered : Numbered before.names.issued controls
  alone : ∀ state ∈ new, state.NamedAlone
  held : ∀ state ∈ new, ∀ held ∈ state.kind.nested, held.NamedThroughout

theorem modify_length_append_cons {α : Type} (first rest : List α) (item : α) (f : α → α) :
    (first ++ item :: rest).modify first.length f = first ++ f item :: rest := by
  induction first with
  | nil => rfl
  | cons head first ih => simp [ih]

namespace Names

variable {σ : Type} {before middle after entered last : Progress σ}
  {controls more new later : List State}

/-- Nothing came and no name was taken. -/
theorem of_eq (hstates : after.scope.states = before.scope.states)
    (hnames : after.names = before.names) : Names before after [] [] where
  states := by rw [hstates, List.append_nil]
  issued := by rw [hnames, List.length_nil, Nat.add_zero]
  numbered := .nil
  alone := by simp
  held := by simp

theorem trans (first : Names before middle controls new)
    (last : Names middle after more later) :
    Names before after (controls ++ more) (new ++ later) where
  states := by rw [last.states, first.states, List.append_assoc]
  issued := by rw [last.issued, first.issued, List.length_append, Nat.add_assoc]
  numbered := by
    have hmore := last.numbered
    rw [first.issued] at hmore
    exact first.numbered.append hmore
  alone := by
    intro state hstate
    rcases List.mem_append.mp hstate with hstate | hstate
    · exact first.alone state hstate
    · exact last.alone state hstate
  held := by
    intro state hstate
    rcases List.mem_append.mp hstate with hstate | hstate
    · exact first.held state hstate
    · exact last.held state hstate

/-- The controls of the states that came are those of the first and those of the later. -/
theorem append (first : Names before middle (new.flatMap State.controls) new)
    (last : Names middle after (later.flatMap State.controls) later) :
    Names before after ((new ++ later).flatMap State.controls) (new ++ later) := by
  rw [List.flatMap_append]
  exact first.trans last

/-- The states inside a node came, and now its own state is filled. -/
theorem close {name : String} {kind : StateKind} {next : Option StateId}
    (hentered : entered.scope.states = before.scope.states ++ [⟨name, .pass, none⟩])
    (hissued : after.names.issued = before.names.issued + more.length)
    (hnumbered : Numbered before.names.issued more)
    (hafter : after = last.fillState before.scope.states.length kind next)
    (h : Names entered last controls new)
    (halone : (⟨name, kind, next⟩ : State).NamedAlone)
    (hheld : ∀ held ∈ kind.nested, held.NamedThroughout) :
    Names before after more (⟨name, kind, next⟩ :: new) where
  states := by
    rw [hafter]
    show last.scope.states.modify before.scope.states.length _ = _
    rw [h.states, hentered, List.append_assoc, List.singleton_append,
      modify_length_append_cons]
  issued := hissued
  numbered := hnumbered
  alone := by
    intro state hstate
    rcases List.mem_cons.mp hstate with rfl | hstate
    · exact halone
    · exact h.alone state hstate
  held := by
    intro state hstate
    rcases List.mem_cons.mp hstate with rfl | hstate
    · exact hheld
    · exact h.held state hstate

/-- All states of a graph that is made from its entry on came meanwhile. -/
theorem namedThroughout (h : Names before after controls new) (hscope : before.scope = {})
    (start : StateId) : (after.scope.toGraph start).NamedThroughout := by
  have hstates : (after.scope.toGraph start).states = new := by
    show after.scope.states = new
    rw [h.states, hscope]
    rfl
  intro inner hinner state hstate
  rcases StateGraph.mem_all_iff.mp hinner with rfl | ⟨other, hother, held, hheld, hinner⟩
  · rw [hstates] at hstate
    exact h.alone state hstate
  · rw [hstates] at hother
    exact h.held other hother held hheld inner hinner state hstate

/-- The controls of such a graph are those of the states that came. -/
theorem controls_perm (h : Names before after controls new) (hscope : before.scope = {})
    (start : StateId) :
    (after.scope.toGraph start).controls.Perm (new.flatMap State.controls) := by
  have hperm := (after.scope.toGraph start).controls_perm
  have hstates : (after.scope.toGraph start).states = new := by
    show after.scope.states = new
    rw [h.states, hscope]
    rfl
  rwa [hstates] at hperm

end Names

namespace Expansion

variable {σ : Type}

/-- What following targets does to the names of a unit. -/
def Labels (follow : Follow σ) : Prop :=
  ∀ target origin before, Ensures (follow target origin) before
    (fun _ after => ∃ new, Names before after (new.flatMap State.controls) new)
    (fun _ _ => True)

theorem labels_successor {resource : Resource} {follow : Follow σ} (h : Labels follow)
    (next : Option Target) (ended : Bool) (origin : String) (before : Progress σ) :
    Ensures (successor resource follow next ended origin) before
      (fun _ after => ∃ new, Names before after (new.flatMap State.controls) new)
      (fun _ _ => True) := by
  refine ensures_successor ?_ ?_
  · intro _ ignored
    exact ⟨[], .of_eq rfl rfl⟩
  · intro target _
    exact h target origin before

theorem labels_leaf {expansion : Expansion σ} {resource : Resource} {follow : Follow σ}
    (h : Labels follow) (name : String) (before : Progress σ) :
    Ensures (expansion.leaf resource follow name) before
      (fun _ after => ∃ new, Names before after (new.flatMap State.controls) new)
      (fun _ _ => True) := by
  refine ensures_leaf ?_ (fun _ => trivial) (fun _ _ _ => trivial) ?_
  · intro _ _
    exact ⟨[], .of_eq rfl rfl⟩
  · intro task functionName _ _ _
    refine (Ensures.mapM (fun _ _ now => ∃ new,
      Names (before.enterTask (expansion.source resource task before.units).2 task.name)
        now (new.flatMap State.controls) new) ⟨[], .of_eq rfl rfl⟩ ?_).mono ?_
      fun _ _ h => h
    · rintro _ rule _ _ now _ ⟨new, hnow⟩
      simp only [ensures_bind, ensures_pure]
      refine (h rule.next task.name now).mono ?_ fun _ _ h => h
      rintro _ after ⟨later, hafter⟩
      exact ⟨new ++ later, hnow.append hafter⟩
    · rintro catches now ⟨new, hnow⟩
      refine (labels_successor h task.next task.ended task.name now).mono ?_
        fun _ _ h => h
      rintro next last ⟨later, hlater⟩
      have hlast := hnow.append hlater
      refine ⟨⟨invokeName task.name, .invoke (task.invocation expansion.settings functionName
        catches), next⟩ :: (new ++ later), ?_⟩
      -- An invocation takes no number.
      refine .close rfl ?_ ?_ rfl hlast ⟨?_, ?_⟩ ?_
      · exact hlast.issued
      · exact hlast.numbered
      · rintro invocation ⟨⟩
        rfl
      · rintro settings processor ⟨⟩
      · rintro held ⟨⟩

/-- The graph of a target that is followed on a graph without states. -/
theorem names_follow {follow : Follow σ} (h : Labels follow) (target : Target)
    (origin : String) (entered : Progress σ) (hscope : entered.scope = {}) :
    Ensures (follow target origin) entered
      (fun start after =>
        after.names.issued =
          entered.names.issued + (after.scope.toGraph start).controls.length ∧
        Numbered entered.names.issued (after.scope.toGraph start).controls ∧
        (after.scope.toGraph start).NamedThroughout)
      (fun _ _ => True) := by
  refine (h target origin entered).mono ?_ fun _ _ h => h
  rintro start after ⟨new, hnames⟩
  have hperm := hnames.controls_perm hscope start
  refine ⟨?_, hnames.numbered.of_perm hperm, hnames.namedThroughout hscope start⟩
  rw [hperm.length_eq]
  exact hnames.issued

/-- What the kind of a control says about names. -/
structure KindNames (kind : StateKind) (word : String) : Prop where
  word : kind.word? = some word
  processor : ∀ settings processor, kind = .map settings processor →
    Numbered 0 processor.controls
  held : ∀ held ∈ kind.nested, held.NamedThroughout

/-- A kind of which the word is all there is to say. -/
theorem KindNames.of_nested_eq_nil {kind : StateKind} {word : String}
    (hword : kind.word? = some word) (hnested : kind.nested = []) : KindNames kind word where
  word := hword
  processor := by
    rintro settings processor rfl
    cases hnested
  held := by
    intro held hheld
    rw [hnested] at hheld
    cases hheld

/-- What making the kind of a node does to the names of a unit: the controls of its branches
and of the states that came were numbered. -/
def LabelsKind (word : String) (before : Progress σ) (answer : StateKind × Option StateId)
    (after : Progress σ) : Prop :=
  KindNames answer.1 word ∧ ∃ new, Names before after
    (answer.1.branches.flatMap StateGraph.controls ++ new.flatMap State.controls) new

section Nodes

variable {expansion : Expansion σ} {follow : Resource → Follow σ}

theorem labels_choice (h : ∀ resource, Labels (follow resource)) (resource : Resource)
    (origin name : String) (branches : List ChoiceBranch) (otherwise : Option Target)
    (before : Progress σ) :
    Ensures (expansion.nodeKind follow resource origin name (.choice branches otherwise))
      before (LabelsKind (ControlNode.choice branches otherwise).kind before)
      (fun _ _ => True) := by
  refine ensures_choice (fun _ _ now => ∃ new,
    Names before now (new.flatMap State.controls) new) (fun _ => trivial)
    ⟨[], .of_eq rfl rfl⟩ ?_ ?_ ?_ ?_
  · intro _ _ _ _ _ _ _ _ _
    trivial
  · rintro _ branch _ _ now condition _ ⟨new, hnow⟩ _
    refine (h resource branch.next origin now).mono ?_ fun _ _ h => h
    rintro _ after ⟨later, hafter⟩
    exact ⟨new ++ later, hnow.append hafter⟩
  · intro _ choices now _ hnow
    exact ⟨.of_nested_eq_nil rfl rfl, hnow⟩
  · rintro target _ choices now _ ⟨new, hnow⟩
    refine (h resource target origin now).mono ?_ fun _ _ h => h
    rintro _ after ⟨later, hafter⟩
    exact ⟨.of_nested_eq_nil rfl rfl, new ++ later, hnow.append hafter⟩

/-- The branches take their numbers one after the other. -/
theorem labels_parallel (h : ∀ resource, Labels (follow resource)) (resource : Resource)
    (origin name : String) (branches : List Target) (next : Option Target) (ended : Bool)
    (before : Progress σ) :
    Ensures (expansion.nodeKind follow resource origin name (.parallel branches next ended))
      before (LabelsKind (ControlNode.parallel branches next ended).kind before)
      (fun _ _ => True) := by
  refine ensures_parallel (fun _ graphs now =>
    Names before now (graphs.flatMap StateGraph.controls) [] ∧
    ∀ graph ∈ graphs, graph.NamedThroughout) (fun _ => trivial) ⟨.of_eq rfl rfl, by simp⟩
    ?_ ?_
  · rintro _ branch _ graphs now _ ⟨hnow, hgraphs⟩
    refine (names_follow (h resource) branch origin { now with scope := {} } rfl).mono ?_
      fun _ _ h => h
    rintro start after ⟨hissued, hnumbered, hnamed⟩
    refine ⟨?_, ?_⟩
    · -- The branch was made on its own; the graph at hand got numbers but no states.
      have hgraph : Names now { after with scope := now.scope }
          (after.scope.toGraph start).controls [] :=
        ⟨(List.append_nil _).symm, hissued, hnumbered, by simp, by simp⟩
      rw [List.flatMap_append, List.flatMap_singleton]
      exact hnow.trans hgraph
    · intro graph hgraph
      rcases List.mem_append.mp hgraph with hgraph | hgraph
      · exact hgraphs graph hgraph
      · rw [List.mem_singleton.mp hgraph]
        exact hnamed
  · rintro graphs now _ ⟨hnow, hgraphs⟩
    refine (labels_successor (h resource) next ended origin now).mono ?_ fun _ _ h => h
    rintro id after ⟨new, hafter⟩
    refine ⟨⟨rfl, ?_, hgraphs⟩, new, hnow.trans hafter⟩
    rintro settings processor ⟨⟩

/-- The processor has numbers of its own, and takes none of the unit. -/
theorem labels_map_node (h : ∀ resource, Labels (follow resource)) (resource : Resource)
    (origin name : String) (items : ValueSource) (processor : String)
    (maxConcurrency : Option UInt32) (next : Option Target) (before : Progress σ) :
    Ensures (expansion.nodeKind follow resource origin name
        (.map items processor maxConcurrency next))
      before (LabelsKind (ControlNode.map items processor maxConcurrency next).kind before)
      (fun _ _ => True) := by
  refine ensures_map_node (fun _ => trivial) (fun _ => trivial) (fun _ _ _ => trivial)
    (fun _ _ _ => trivial) (fun _ _ _ _ _ _ => trivial) ?_
  intro itemsPath iterator _ _ _ _ _
  refine (names_follow (h iterator) iterator.startAt _ (before.enterUnit iterator.name)
    rfl).mono ?_ fun _ _ h => h
  rintro start after ⟨_, hnumbered, hnamed⟩
  refine (labels_successor (h resource) next false origin _).mono ?_ fun _ _ h => h
  rintro id last ⟨new, hlast⟩
  have hprocessor : Names before (after.leaveUnit before) [] [] := .of_eq rfl rfl
  refine ⟨⟨rfl, ?_, ?_⟩, new, hprocessor.trans hlast⟩
  · rintro settings processor ⟨⟩
    exact hnumbered
  · intro held hheld
    rw [List.mem_singleton.mp hheld]
    exact hnamed

theorem labels_nodeKind (h : ∀ resource, Labels (follow resource)) (resource : Resource)
    (origin name : String) (control : ControlNode) (before : Progress σ) :
    Ensures (expansion.nodeKind follow resource origin name control) before
      (LabelsKind control.kind before) (fun _ _ => True) := by
  cases control with
  | wait seconds next =>
      refine ensures_wait ((h resource next origin before).mono ?_ fun _ _ h => h)
      intro id after hnew
      exact ⟨.of_nested_eq_nil rfl rfl, hnew⟩
  | fail cause error => exact ⟨.of_nested_eq_nil rfl rfl, [], .of_eq rfl rfl⟩
  | pass next ended =>
      refine ensures_pass
        ((labels_successor (h resource) next ended origin before).mono ?_ fun _ _ h => h)
      intro id after hnew
      exact ⟨.of_nested_eq_nil rfl rfl, hnew⟩
  | succeed => exact ⟨.of_nested_eq_nil rfl rfl, [], .of_eq rfl rfl⟩
  | choice branches otherwise =>
      exact labels_choice h resource origin name branches otherwise before
  | parallel branches next ended =>
      exact labels_parallel h resource origin name branches next ended before
  | map items processor maxConcurrency next =>
      exact labels_map_node h resource origin name items processor maxConcurrency next before

end Nodes

theorem labels_node {expansion : Expansion σ} {follow : Resource → Follow σ}
    (h : ∀ resource, Labels (follow resource)) (resource : Resource)
    (control : ControlNode) (origin : String) (before : Progress σ) :
    Ensures (expansion.node follow resource control origin) before
      (fun _ after => ∃ new, Names before after (new.flatMap State.controls) new)
      (fun _ _ => True) := by
  refine ensures_node ((labels_nodeKind h resource origin _ control _).mono ?_
    fun _ _ h => h)
  rintro ⟨kind, next⟩ last ⟨hkind, new, hlast⟩
  have hlabel : (⟨(before.names.allocate control.kind origin).1, kind, next⟩ :
      State).Labelled (before.names.issued + 1) :=
    ⟨control.kind, origin, hkind.word, rfl⟩
  -- The state itself has the first number, and what is inside it the others.
  have hcontrols : (⟨(before.names.allocate control.kind origin).1, kind, next⟩ ::
      new).flatMap State.controls =
      [⟨(before.names.allocate control.kind origin).1, kind, next⟩] ++
        (kind.branches.flatMap StateGraph.controls ++ new.flatMap State.controls) := by
    have hcontrol : (⟨(before.names.allocate control.kind origin).1, kind, next⟩ :
        State).isControl = true := by
      unfold State.isControl
      rw [hkind.word]
      rfl
    rw [List.flatMap_cons, State.controls, List.filter_singleton, hcontrol]
    exact List.append_assoc _ _ _
  refine ⟨_, .close rfl ?_ ?_ rfl hlast ⟨?_, hkind.processor⟩ hkind.held⟩
  · rw [hcontrols]
    have hentered : (before.enterNode control.kind origin).names.issued =
        before.names.issued + 1 := rfl
    have hissued := hlast.issued
    show last.names.issued = _
    rw [hissued, hentered]
    simp only [List.length_append, List.length_singleton]
    omega
  · rw [hcontrols]
    exact (Numbered.single hlabel).append hlast.numbered
  · rintro invocation rfl
    cases hkind.word

/-- Following a target numbers the controls that come, in any number of levels. -/
theorem labels_follow (expansion : Expansion σ) (levels : Nat) (resource : Resource) :
    Labels (expansion.follow levels resource) := by
  induction levels generalizing resource with
  | zero =>
      intro target origin before
      exact trivial
  | succ levels ih =>
      intro target origin before
      cases target with
      | leaf name => exact labels_leaf (ih resource) name before
      | inline control => exact labels_node ih resource control origin before

/-- The controls of a unit have the numbers from one on. -/
theorem names_compileUnit (expansion : Expansion σ) (resource : Resource) (origin : String)
    (entry : Target) (before : Progress σ) :
    Ensures (expansion.compileUnit resource origin entry) before
      (fun graph _ => Numbered 0 graph.controls ∧ graph.NamedThroughout)
      (fun _ _ => True) := by
  unfold compileUnit
  refine ensures_unit (fun _ _ => trivial) ?_
  intro _
  refine (names_follow (labels_follow expansion _ resource) entry origin
    (before.enterUnit resource.name) rfl).mono ?_ fun _ _ h => h
  rintro start after ⟨_, hnumbered, hnamed⟩
  exact ⟨hnumbered, hnamed⟩

end Expansion

end TaskMachine
