import TaskMachine.Proofs.Expansion.Layout

/-!
# Expansions keep the declared graph

`Traces follow` says what following a target does to the graph at hand: the states
that come are right for their nodes, and the answer is the state of the node that
the target means.  `traces_follow` proves it for any number of levels, by induction
on them: `traces_leaf` and `traces_node` open a node, `visit` follows one of its
targets after others, and `Added.close` fills its state.

The main statement is `graphOf_compile`: the graph of a state machine is the graph
of its declaration.
-/

namespace TaskMachine

/-- A node can get its state where its target is written: no state stands there or
below. -/
structure Vacant (frame : Frame) (target : Target) (here : Place) (places : List Place) :
    Prop where
  written : ∀ control, target = .inline control →
    frame.resource.declaredAt? frame.entry here = some (.control control)
  below : ∀ place ∈ places, ¬ here.Below place
  owned : ∀ name, here.owner = some name → .task name ∈ places

/-- A node has its state, and no node inside it has. -/
structure Opened (frame : Frame) (here : Place) (node : DeclaredNode)
    (places : List Place) : Prop where
  declared : frame.resource.declaredAt? frame.entry here = some node
  below : ∀ step, ∀ place ∈ places, ¬ (here.inside step).Below place
  owned : ∀ name, here.owner = some name → .task name ∈ places

namespace Opened

variable {frame : Frame} {here : Place} {node : DeclaredNode} {places : List Place}

/-- A leaf task that is entered. -/
theorem task {name : String} {leaf : LeafTask}
    (hleaf : frame.resource.task? name = some leaf)
    (howned : ∀ place ∈ places, ∀ name, place.owner = some name → .task name ∈ places)
    (hname : .task name ∉ places) :
    Opened frame (.task name) (.task leaf) (places ++ [.task name]) where
  declared := by
    show (frame.resource.task? name).map DeclaredNode.task = _
    rw [hleaf]
    rfl
  below := by
    intro step place hplace hbelow
    rcases List.mem_append.mp hplace with hplace | hplace
    -- A place inside the leaf task would be owned by it.
    · exact hname (howned place hplace name hbelow.owner_eq)
    · exact hbelow.ne_of_inside (List.mem_singleton.mp hplace)
  owned := by
    intro other howner
    cases howner
    exact List.mem_append_right places (List.mem_singleton.mpr rfl)

/-- A control node that is entered. -/
theorem control {written : ControlNode}
    (h : Vacant frame (.inline written) here places) :
    Opened frame here (.control written) (places ++ [here]) where
  declared := h.written written rfl
  below := by
    intro step place hplace hbelow
    rcases List.mem_append.mp hplace with hplace | hplace
    · exact h.below place hplace hbelow.of_inside
    · exact hbelow.ne_of_inside (List.mem_singleton.mp hplace)
  owned := fun name howner => List.mem_append_left [here] (h.owned name howner)

/-- After some targets of a node, any other of its targets finds no state. -/
theorem vacant (h : Opened frame here node places) {done : Step → Prop} {step : Step}
    {target : Target} {new : List Place} (hstep : node.at? step = some target)
    (hdone : ¬ done step)
    (hnew : ∀ place ∈ new, here.Inside done place ∨
      ∃ name, place.owner = some name ∧ .task name ∉ places) :
    Vacant frame target (here.inside step) (places ++ new) where
  written := by
    rintro control rfl
    exact Resource.declaredAt?_inside h.declared hstep
  below := by
    intro place hplace hbelow
    rcases List.mem_append.mp hplace with hplace | hplace
    · exact h.below step place hplace hbelow
    · rcases hnew place hplace with ⟨other, hother, hinside⟩ | ⟨name, howner, hname⟩
      -- The steps to two targets of one node are different.
      · exact hdone (Place.below_step_unique hinside hbelow ▸ hother)
      · exact hname (h.owned name (hbelow.owner_eq.symm.trans howner))
  owned := fun name howner => List.mem_append_left new (h.owned name howner)

end Opened

namespace UnitSource

variable {σ : Type}

/-- A source in a fit state keeps to names that a leaf task may have, and is fit
again afterwards. -/
def Names (source : UnitSource σ) (named : Resource → LeafTask → String → Prop)
    (fit : σ → Prop) : Prop :=
  ∀ resource task units, fit units →
    fit (source resource task units).2 ∧
    ∀ functionName, (source resource task units).1 = some functionName →
      named resource task functionName

/-- What a source can come to from a state, when it is asked any number of times. -/
inductive Reaches (source : UnitSource σ) (start : σ) : σ → Prop
  | start : Reaches source start start
  | asked {units : σ} (resource : Resource) (task : LeafTask) :
      Reaches source start units → Reaches source start (source resource task units).2

/-- The source answers so for a leaf task, at some time. -/
def Answers (source : UnitSource σ) (start : σ) (resource : Resource) (task : LeafTask)
    (functionName : String) : Prop :=
  ∃ units, source.Reaches start units ∧
    (source resource task units).1 = some functionName

theorem names_answers (source : UnitSource σ) (start : σ) :
    source.Names (source.Answers start) (source.Reaches start) := by
  intro resource task units hunits
  refine ⟨.asked resource task hunits, ?_⟩
  intro functionName hname
  exact ⟨units, hunits, hname⟩

end UnitSource

namespace Expansion

section Tracing

variable {σ : Type} (expansion : Expansion σ)
  (named : Resource → LeafTask → String → Prop) (fit : σ → Prop)

/-- What following a target does to the graph at hand.  A fault promises nothing. -/
def Traces (follow : Resource → Follow σ) : Prop :=
  ∀ (frame : Frame) (target : Target) (origin : String) (here : Place)
    (before : Progress σ) (places : List Place),
    Making fit frame before places → Vacant frame target here places →
    Ensures (follow frame.resource target origin) before
      (fun id after => ∃ new,
        Added expansion named fit frame here.Below before places after new ∧
        Refers (places ++ new) here target id)
      (fun _ _ => True)

/-- The states inside a node that came on the way of certain steps. -/
abbrev Visited (frame : Frame) (here : Place) (steps : Step → Prop)
    (entered : Progress σ) (places : List Place) (now : Progress σ) (new : List Place) :
    Prop :=
  Added expansion named fit frame (here.Inside steps) entered places now new

end Tracing

section Steps

variable {σ : Type} {expansion : Expansion σ}
  {named : Resource → LeafTask → String → Prop} {fit : σ → Prop}
  {follow : Resource → Follow σ} {frame : Frame} {here : Place} {node : DeclaredNode}
  {entered now : Progress σ} {places new : List Place} {done : Step → Prop}
  {origin : String}

/-- Following one more target of a node. -/
theorem visit (h : Traces expansion named fit follow)
    (hopened : Opened frame here node places)
    (hnow : Visited expansion named fit frame here done entered places now new)
    {step : Step} {target : Target} (hstep : node.at? step = some target)
    (hdone : ¬ done step) :
    Ensures (follow frame.resource target origin) now
      (fun id after => ∃ more,
        Visited expansion named fit frame here (fun other => done other ∨ other = step)
          entered places after (new ++ more) ∧
        Refers (places ++ new ++ more) (here.inside step) target id)
      (fun _ _ => True) := by
  have hvacant := hopened.vacant hstep hdone hnow.located
  refine (h frame target origin _ now _ hnow.making hvacant).mono ?_ fun _ _ h => h
  rintro id after ⟨more, hadded, hrefers⟩
  refine ⟨more, ?_, hrefers⟩
  refine (hnow.widen ?_).trans (hadded.widen ?_)
  · intro place hplace
    exact hplace.mono fun _ hother => .inl hother
  · intro place hplace
    exact ⟨step, .inr rfl, hplace⟩

/-- Following the next one of a list of targets, of which those before it were followed
already.  `make` gives the steps to them. -/
theorem visit_next (h : Traces expansion named fit follow)
    (hopened : Opened frame here node places) {make : Nat → Step}
    (hmake : Function.Injective make) {count : Nat}
    (hnow : Visited expansion named fit frame here
      (fun step => ∃ index < count, step = make index) entered places now new)
    {target : Target} (hstep : node.at? (make count) = some target) :
    Ensures (follow frame.resource target origin) now
      (fun id after => ∃ more,
        Visited expansion named fit frame here
          (fun step => ∃ index < count + 1, step = make index) entered places after
          (new ++ more) ∧
        Refers (places ++ new ++ more) (here.inside (make count)) target id)
      (fun _ _ => True) := by
  have hdone : ¬ ∃ index < count, make count = make index := by
    rintro ⟨index, hlt, heq⟩
    have hsame : count = index := hmake heq
    omega
  refine (visit h hopened hnow hstep hdone).mono ?_ fun _ _ h => h
  rintro id after ⟨more, hadded, hrefers⟩
  refine ⟨more, hadded.widen fun place hplace => hplace.mono ?_, hrefers⟩
  rintro step (⟨index, hlt, rfl⟩ | rfl)
  · exact ⟨index, by omega, rfl⟩
  · exact ⟨count, by omega, rfl⟩

/-- Following the successor of a node, after its other targets. -/
theorem traces_successor (h : Traces expansion named fit follow)
    (hopened : Opened frame here node places)
    (hnow : Visited expansion named fit frame here done entered places now new)
    (hdone : ¬ done .next) {next : Option Target} {ended : Bool}
    (hnext : node.at? .next = effective next ended) :
    Ensures (successor frame.resource (follow frame.resource) next ended origin) now
      (fun id after => ∃ more,
        Visited expansion named fit frame here (fun _ => True) entered places after
          (new ++ more) ∧
        RefersIfAny (places ++ new ++ more) (here.inside .next) (node.at? .next) id)
      (fun _ _ => True) := by
  refine ensures_successor ?_ ?_
  · intro hnone ignored
    refine ⟨[], ?_, ?_⟩
    · rw [List.append_nil]
      refine (hnow.widen fun place hplace => ?_).resume rfl rfl hnow.making.fit
      exact hplace.mono fun _ _ => trivial
    · rw [hnext, hnone]
      exact .none
  · intro target hsome
    rw [hnext, hsome]
    refine (visit h hopened hnow (hnext.trans hsome) hdone).mono ?_ fun _ _ h => h
    rintro id after ⟨more, hadded, hrefers⟩
    refine ⟨more, hadded.widen fun place hplace => ?_, .some hrefers⟩
    exact hplace.mono fun _ _ => trivial

/-- The first target of a node. -/
theorem visit_first (h : Traces expansion named fit follow)
    (hopened : Opened frame here node places) (hentered : Making fit frame entered places)
    {step : Step} {target : Target} (hstep : node.at? step = some target) :
    Ensures (follow frame.resource target origin) entered
      (fun id after => ∃ new,
        Visited expansion named fit frame here (fun _ => True) entered places after new ∧
        Refers (places ++ new) (here.inside step) target id)
      (fun _ _ => True) := by
  have hstart : Visited expansion named fit frame here (fun _ => False) entered places
      entered [] := .nothing hentered
  refine (visit h hopened hstart hstep not_false).mono ?_ fun _ _ h => h
  rintro id after ⟨new, hadded, hrefers⟩
  rw [List.append_nil] at hrefers
  refine ⟨new, hadded.widen fun place hplace => ?_, hrefers⟩
  exact hplace.mono fun _ _ => trivial

/-- The graph of a target that is followed on a graph without states. -/
theorem graphOf_follow (h : Traces expansion named fit follow) (frame : Frame)
    (entered : Progress σ) (hscope : entered.scope = {})
    (hinProgress : entered.inProgress = frame.inProgress)
    (hfit : fit entered.units) :
    Ensures (follow frame.resource frame.entry origin) entered
      (fun start after =>
        GraphOf expansion.manifest expansion.settings named frame.inProgress
          frame.resource frame.entry (after.scope.toGraph start) ∧
        after.inProgress = frame.inProgress ∧ fit after.units)
      (fun _ _ => True) := by
  have hmaking : Making fit frame entered [] := ⟨hscope ▸ .empty, hinProgress, hfit⟩
  have hvacant : Vacant frame frame.entry .entry [] := by
    refine ⟨?_, by simp, ?_⟩
    · intro control hentry
      show DeclaredNode.written? frame.entry = _
      rw [hentry]
      rfl
    · intro name howner
      cases howner
  refine (h frame frame.entry origin _ entered [] hmaking hvacant).mono ?_ fun _ _ h => h
  rintro start after ⟨places, hadded, hstart⟩
  refine ⟨?_, hadded.making.inProgress, hadded.making.fit⟩
  have hlayout := hadded.making.layout
  refine .made places hlayout.length_eq hlayout.distinct hstart hlayout.registered ?_
  -- No state was there before, so every state is one that was added and filled.
  intro id place state hplace hstate
  refine hadded.filled id place state hplace ?_
  rw [List.length_nil, Nat.zero_add]
  exact hstate

/-! ## Control nodes -/

theorem traces_choice (h : Traces expansion named fit follow)
    {branches : List ChoiceBranch} {otherwise : Option Target}
    (hopened : Opened frame here (.control (.choice branches otherwise)) places)
    (hentered : Making fit frame entered places) (name : String) :
    Ensures (expansion.nodeKind follow frame.resource origin name
        (.choice branches otherwise)) entered
      (fun answer after => ∃ new,
        Visited expansion named fit frame here (fun _ => True) entered places after new ∧
        KindOf expansion.manifest expansion.settings named frame.inProgress frame.resource
          (places ++ new) here (.control (.choice branches otherwise)) answer.1 ∧
        RefersIfAny (places ++ new) (here.inside .next) none answer.2)
      (fun _ _ => True) := by
  refine ensures_choice (fun done choices now => ∃ new,
      Visited expansion named fit frame here
        (fun step => ∃ index < done.length, step = .choice index) entered places now new ∧
      Aligned
        (fun index (branch : ChoiceBranch) (transition : ChoiceTransition) =>
          branch.guard.condition = .ok transition.condition ∧
          Refers (places ++ new) (here.inside (.choice index)) branch.next
            transition.next)
        done choices)
    (fun _ => trivial) ⟨[], .nothing hentered, .nil⟩ ?_ ?_ ?_ ?_
  · intro _ _ _ _ _ _ _ _ _
    trivial
  · rintro done branch rest choices now condition hsplit ⟨new, hnow, hchoices⟩ hcondition
    have hstep : (DeclaredNode.control (.choice branches otherwise)).at?
        (.choice done.length) = some branch.next := by
      show branches[done.length]?.map ChoiceBranch.next = _
      simp [hsplit]
    have hinjective : Function.Injective Step.choice := by
      intro first second heq
      exact Step.choice.inj heq
    refine (visit_next h hopened hinjective hnow hstep).mono ?_ fun _ _ h => h
    rintro id after ⟨more, hadded, hrefers⟩
    have hlength : (done ++ [branch]).length = done.length + 1 := by simp
    rw [hlength]
    refine ⟨new ++ more, hadded, ?_⟩
    -- The earlier choices still go to the same places, of which there are more now.
    rw [← List.append_assoc]
    refine (hchoices.mono ?_).snoc ⟨hcondition, hrefers⟩
    rintro index branch transition ⟨hcondition, hnext⟩
    exact ⟨hcondition, hnext.append more⟩
  · rintro rfl choices now hne ⟨new, hnow, hchoices⟩
    refine ⟨new, hnow.widen fun place hplace => hplace.mono fun _ _ => trivial, ?_, .none⟩
    exact .choice branches none choices none hne hchoices .none
  · rintro target rfl choices now hne ⟨new, hnow, hchoices⟩
    have hdone : ¬ ∃ index < branches.length, Step.otherwise = .choice index := by
      rintro ⟨index, _, heq⟩
      cases heq
    have hstep : (DeclaredNode.control (.choice branches (some target))).at?
        .otherwise = some target := rfl
    refine (visit h hopened hnow hstep hdone).mono ?_ fun _ _ h => h
    rintro id after ⟨more, hadded, hrefers⟩
    rw [List.append_assoc] at hrefers
    refine ⟨new ++ more, hadded.widen fun place hplace => hplace.mono fun _ _ => trivial,
      ?_, .none⟩
    refine .choice branches (some target) choices (some id) hne (hchoices.mono ?_)
      (.some hrefers)
    rintro index branch transition ⟨hcondition, hnext⟩
    rw [← List.append_assoc]
    exact ⟨hcondition, hnext.append more⟩

theorem traces_parallel (h : Traces expansion named fit follow)
    {branches : List Target} {next : Option Target} {ended : Bool}
    (hopened : Opened frame here (.control (.parallel branches next ended)) places)
    (hentered : Making fit frame entered places) (name : String) :
    Ensures (expansion.nodeKind follow frame.resource origin name
        (.parallel branches next ended)) entered
      (fun answer after => ∃ new,
        Visited expansion named fit frame here (fun _ => True) entered places after new ∧
        KindOf expansion.manifest expansion.settings named frame.inProgress frame.resource
          (places ++ new) here (.control (.parallel branches next ended)) answer.1 ∧
        RefersIfAny (places ++ new) (here.inside .next) (effective next ended) answer.2)
      (fun _ _ => True) := by
  refine ensures_parallel (fun done graphs now =>
      Visited expansion named fit frame here (fun _ => False) entered places now [] ∧
      Aligned
        (fun _ branch graph =>
          GraphOf expansion.manifest expansion.settings named frame.inProgress
            frame.resource branch graph)
        done graphs)
    (fun _ => trivial) ⟨.nothing hentered, .nil⟩ ?_ ?_
  -- A branch has a graph of its own: the graph at hand gets no states from it.
  · rintro done branch rest graphs now _ ⟨hnow, hgraphs⟩
    have hmaking := hnow.making
    refine (graphOf_follow h { frame with entry := branch } { now with scope := {} } rfl
      hmaking.inProgress hmaking.fit).mono ?_ fun _ _ h => h
    rintro start after ⟨hgraph, hinProgress, hfit⟩
    refine ⟨hnow.resume rfl ?_ hfit, hgraphs.snoc hgraph⟩
    exact hinProgress.trans hmaking.inProgress.symm
  · rintro graphs now hne ⟨hnow, hgraphs⟩
    have hnext : (DeclaredNode.control (.parallel branches next ended)).at? .next =
        effective next ended := rfl
    refine (traces_successor h hopened hnow not_false hnext).mono ?_ fun _ _ h => h
    rintro id after ⟨more, hadded, hrefers⟩
    rw [List.append_nil] at hrefers
    refine ⟨more, hadded, ?_, hrefers⟩
    exact .parallel branches next ended graphs hne hgraphs.length_eq hgraphs.related

theorem traces_map_node (h : Traces expansion named fit follow)
    {items : ValueSource} {processor : String} {maxConcurrency : Option UInt32}
    {next : Option Target}
    (hopened : Opened frame here (.control (.map items processor maxConcurrency next))
      places)
    (hentered : Making fit frame entered places) (name : String) :
    Ensures (expansion.nodeKind follow frame.resource origin name
        (.map items processor maxConcurrency next)) entered
      (fun answer after => ∃ new,
        Visited expansion named fit frame here (fun _ => True) entered places after new ∧
        KindOf expansion.manifest expansion.settings named frame.inProgress frame.resource
          (places ++ new) here (.control (.map items processor maxConcurrency next))
          answer.1 ∧
        RefersIfAny (places ++ new) (here.inside .next) next answer.2)
      (fun _ _ => True) := by
  refine ensures_map_node (fun _ => trivial) (fun _ => trivial) (fun _ _ _ => trivial)
    (fun _ _ _ => trivial) (fun _ _ _ _ _ _ => trivial) ?_
  intro itemsPath iterator hitems hiterator hkind hfree hleaves
  rw [hentered.inProgress] at hfree
  have hinProgress : (entered.enterUnit iterator.name).inProgress =
      iterator.name :: frame.inProgress :=
    congrArg (iterator.name :: ·) hentered.inProgress
  refine (graphOf_follow h ⟨iterator.name :: frame.inProgress, iterator, iterator.startAt⟩
    (entered.enterUnit iterator.name) rfl hinProgress hentered.fit).mono ?_ fun _ _ h => h
  rintro start after ⟨hgraph, hafter, hfit⟩
  -- The graph at hand is back as it was, and so are the units in progress.
  have hleft : Visited expansion named fit frame here (fun _ => False) entered places
      (after.leaveUnit entered) [] := by
    refine (Added.nothing hentered).resume rfl ?_ hfit
    show after.inProgress.tail = entered.inProgress
    rw [hafter, hentered.inProgress]
    rfl
  have hnext : (DeclaredNode.control (.map items processor maxConcurrency next)).at?
      .next = effective next false := rfl
  refine (traces_successor h hopened hleft not_false hnext).mono ?_ fun _ _ h => h
  rintro id last ⟨more, hadded, hrefers⟩
  rw [List.append_nil] at hrefers
  refine ⟨more, hadded, ?_, hrefers⟩
  exact .map items processor maxConcurrency next iterator _ _ hiterator
    (declaredBy_mapSettings hitems hkind maxConcurrency) hfree hleaves hgraph

/-- What a control node becomes. -/
theorem traces_nodeKind (h : Traces expansion named fit follow) {control : ControlNode}
    (hopened : Opened frame here (.control control) places)
    (hentered : Making fit frame entered places) (name : String) :
    Ensures (expansion.nodeKind follow frame.resource origin name control) entered
      (fun answer after => ∃ new,
        Visited expansion named fit frame here (fun _ => True) entered places after new ∧
        KindOf expansion.manifest expansion.settings named frame.inProgress frame.resource
          (places ++ new) here (.control control) answer.1 ∧
        RefersIfAny (places ++ new) (here.inside .next) (control.at? .next) answer.2)
      (fun _ _ => True) := by
  cases control with
  | wait seconds next =>
      have hstep : (DeclaredNode.control (.wait seconds next)).at? .next = some next := rfl
      refine ensures_wait ((visit_first h hopened hentered hstep).mono ?_ fun _ _ h => h)
      rintro id after ⟨new, hadded, hrefers⟩
      exact ⟨new, hadded, .wait seconds next, .some hrefers⟩
  | fail cause error =>
      exact ⟨[], .nothing hentered, .fail cause error, .none⟩
  | pass next ended =>
      have hstart : Visited expansion named fit frame here (fun _ => False) entered places
          entered [] := .nothing hentered
      have hnext : (DeclaredNode.control (.pass next ended)).at? .next =
          effective next ended := rfl
      refine ensures_pass
        ((traces_successor h hopened hstart not_false hnext).mono ?_ fun _ _ h => h)
      rintro id after ⟨new, hadded, hrefers⟩
      rw [List.append_nil] at hrefers
      exact ⟨new, hadded, .pass next ended, hrefers⟩
  | succeed =>
      exact ⟨[], .nothing hentered, .succeed, .none⟩
  | choice branches otherwise => exact traces_choice h hopened hentered name
  | parallel branches next ended => exact traces_parallel h hopened hentered name
  | map items processor maxConcurrency next =>
      exact traces_map_node h hopened hentered name

/-- The state of a control node. -/
theorem traces_node (h : Traces expansion named fit follow) {before : Progress σ}
    (hbefore : Making fit frame before places) {control : ControlNode}
    (hvacant : Vacant frame (.inline control) here places) :
    Ensures (expansion.node follow frame.resource control origin) before
      (fun id after => ∃ new,
        Added expansion named fit frame here.Below before places after new ∧
        Refers (places ++ new) here (.inline control) id)
      (fun _ _ => True) := by
  have hhere : here ∉ places := fun hmem => hvacant.below here hmem .self
  have hcontrol : ∀ name, here ≠ .task name := by
    rintro name rfl
    exact hhere (hvacant.owned name rfl)
  have hlayout := hbefore.layout.enterNode hhere hcontrol hvacant.owned control.kind origin
  have hentered : Making fit frame (before.enterNode control.kind origin)
      (places ++ [here]) := ⟨hlayout, hbefore.inProgress, hbefore.fit⟩
  refine ensures_node ?_
  refine (traces_nodeKind h (.control hvacant) hentered _).mono ?_ fun _ _ h => h
  rintro ⟨kind, next⟩ after ⟨new, hadded, hkind, hnext⟩
  refine ⟨here :: new, ?_, ?_⟩
  · exact .close hbefore.layout (List.prefix_append _ _)
      (hadded.widen fun place hplace => hplace.below) (.inl .self)
      (hvacant.written control rfl) hkind hnext
  · show (places ++ here :: new)[before.scope.states.length]? = some here
    rw [← hbefore.layout.length_eq]
    simp

/-! ## Leaf tasks -/

/-- The catch rules of a leaf task, followed in order. -/
theorem traces_catches (h : Traces expansion named fit follow) {task : LeafTask}
    (hopened : Opened frame here (.task task) places)
    (hentered : Making fit frame entered places) :
    Ensures (task.catches.mapM fun rule => do
        let next ← follow frame.resource rule.next origin
        return (⟨rule.errorEquals, next, rule.resultPath⟩ : CatchTransition)) entered
      (fun catches now => ∃ new,
        Visited expansion named fit frame here
          (fun step => ∃ index < task.catches.length, step = .caught index) entered places
          now new ∧
        Aligned
          (fun index (rule : CatchRule) (transition : CatchTransition) =>
            transition.errorEquals = rule.errorEquals ∧
            transition.resultPath = rule.resultPath ∧
            Refers (places ++ new) (here.inside (.caught index)) rule.next
              transition.next)
          task.catches catches)
      (fun _ _ => True) := by
  refine Ensures.mapM (fun done catches now => ∃ new,
      Visited expansion named fit frame here
        (fun step => ∃ index < done.length, step = .caught index) entered places now new ∧
      Aligned
        (fun index (rule : CatchRule) (transition : CatchTransition) =>
          transition.errorEquals = rule.errorEquals ∧
          transition.resultPath = rule.resultPath ∧
          Refers (places ++ new) (here.inside (.caught index)) rule.next transition.next)
        done catches)
    ⟨[], .nothing hentered, .nil⟩ ?_
  rintro done rule rest catches now hsplit ⟨new, hnow, hcatches⟩
  have hstep : (DeclaredNode.task task).at? (.caught done.length) = some rule.next := by
    show task.catches[done.length]?.map CatchRule.next = _
    simp [hsplit]
  have hinjective : Function.Injective Step.caught := by
    intro first second heq
    exact Step.caught.inj heq
  simp only [ensures_bind, ensures_pure]
  refine (visit_next h hopened hinjective hnow hstep).mono ?_ fun _ _ h => h
  rintro id after ⟨more, hadded, hrefers⟩
  have hlength : (done ++ [rule]).length = done.length + 1 := by simp
  rw [hlength]
  refine ⟨new ++ more, hadded, ?_⟩
  rw [← List.append_assoc]
  refine (hcatches.mono ?_).snoc ⟨rfl, rfl, hrefers⟩
  rintro index rule transition ⟨herrors, hpath, hnext⟩
  exact ⟨herrors, hpath, hnext.append more⟩

/-- The state of a leaf task, which is there already or comes now. -/
theorem traces_leaf (h : Traces expansion named fit follow)
    (hsource : expansion.source.Names named fit) {before : Progress σ}
    (hbefore : Making fit frame before places) (name : String) :
    Ensures (expansion.leaf frame.resource (follow frame.resource) name) before
      (fun id after => ∃ new,
        Added expansion named fit frame here.Below before places after new ∧
        Refers (places ++ new) here (.leaf name) id)
      (fun _ _ => True) := by
  refine ensures_leaf ?_ (fun _ => trivial) (fun _ _ _ => trivial) ?_
  -- The task is registered: its state may still be unfilled, but its place is known.
  · intro id hid
    refine ⟨[], .nothing hbefore, ?_⟩
    rw [List.append_nil]
    exact (hbefore.layout.registered name id).mp hid
  · intro task functionName hget htask hfunction
    obtain rfl : task.name = name := Resource.name_of_task? htask
    obtain ⟨hfit, hnamed⟩ := hsource frame.resource task before.units hbefore.fit
    have hnew := hbefore.layout.not_mem_of_get?_eq_none hget
    have hopened := Opened.task htask hbefore.layout.owned hnew
    have hentered : Making fit frame
        (before.enterTask (expansion.source frame.resource task before.units).2 task.name)
        (places ++ [.task task.name]) :=
      ⟨hbefore.layout.enterTask hget _, hbefore.inProgress, hfit⟩
    refine (traces_catches h hopened hentered).mono ?_ fun _ _ h => h
    rintro catches now ⟨new, hnow, hcatches⟩
    have hdone : ¬ ∃ index < task.catches.length, Step.next = .caught index := by
      rintro ⟨index, _, heq⟩
      cases heq
    have hnext : (DeclaredNode.task task).at? .next = effective task.next task.ended := rfl
    refine (traces_successor h hopened hnow hdone hnext).mono ?_ fun _ _ h => h
    rintro next last ⟨more, hadded, hrefers⟩
    have hkind : KindOf expansion.manifest expansion.settings named frame.inProgress
        frame.resource (places ++ [.task task.name] ++ (new ++ more)) (.task task.name)
        (.task task)
        (.invoke (task.invocation expansion.settings functionName catches)) := by
      refine .task task _ (LeafTask.carriedBy_iff.mpr rfl) (hnamed functionName hfunction)
        (hcatches.mono ?_)
      rintro index rule transition ⟨herrors, hpath, hnext⟩
      rw [← List.append_assoc]
      exact ⟨herrors, hpath, hnext.append more⟩
    refine ⟨.task task.name :: (new ++ more), ?_, ?_⟩
    · refine Added.of_task ?_ hnew
      refine .close hbefore.layout (List.prefix_append _ _)
        (hadded.widen fun place hplace => hplace.below) (.inl .self) hopened.declared
        hkind ?_
      rwa [← List.append_assoc]
    · show (places ++ .task task.name :: (new ++ more))[before.scope.states.length]? =
        some (.task task.name)
      rw [← hbefore.layout.length_eq]
      simp

/-! ## Any number of levels -/

end Steps

/-- Following a target makes the states of its declaration, and no others. -/
theorem traces_follow {σ : Type} {expansion : Expansion σ}
    {named : Resource → LeafTask → String → Prop} {fit : σ → Prop}
    (hsource : expansion.source.Names named fit) (levels : Nat) :
    Traces expansion named fit (expansion.follow levels) := by
  induction levels with
  | zero =>
      intro frame target origin here before places _ _
      exact trivial
  | succ levels ih =>
      intro frame target origin here before places hbefore hvacant
      cases target with
      | leaf name => exact traces_leaf ih hsource hbefore name
      | inline control => exact traces_node ih hbefore hvacant

/-- The graph of a unit is the graph of its declaration. -/
theorem traces_unit {σ : Type} {expansion : Expansion σ}
    {named : Resource → LeafTask → String → Prop} {fit : σ → Prop}
    {follow : Resource → Follow σ} {before : Progress σ}
    (h : Traces expansion named fit follow) (hfit : fit before.units)
    (resource : Resource) (entry : Target) (origin : String) :
    Ensures (unit follow resource entry origin) before
      (fun graph after => duplicateTask? resource = none ∧
        GraphOf expansion.manifest expansion.settings named
          (resource.name :: before.inProgress) resource entry graph ∧
        fit after.units)
      (fun _ _ => True) := by
  refine ensures_unit (fun _ _ => trivial) ?_
  intro hleaves
  refine (graphOf_follow h ⟨resource.name :: before.inProgress, resource, entry⟩
    (before.enterUnit resource.name) rfl rfl hfit).mono ?_ fun _ _ h => h
  rintro start after ⟨hgraph, _, hafter⟩
  exact ⟨hleaves, hgraph, hafter⟩

theorem traces_compile {σ : Type} {expansion : Expansion σ}
    {named : Resource → LeafTask → String → Prop} {fit : σ → Prop}
    (hsource : expansion.source.Names named fit) {before : Progress σ}
    (hfit : fit before.units) (resource : Resource) :
    Ensures (expansion.compile resource) before
      (fun graph after => resource.isStateMachine = true ∧
        duplicateTask? resource = none ∧
        GraphOf expansion.manifest expansion.settings named
          (resource.name :: before.inProgress) resource resource.startAt graph ∧
        fit after.units)
      (fun _ _ => True) := by
  unfold compile
  cases hmachine : resource.isStateMachine with
  | false => exact trivial
  | true =>
      rw [if_pos rfl]
      unfold compileUnit
      refine (traces_unit (traces_follow hsource _) hfit resource resource.startAt
        _).mono ?_ fun _ _ h => h
      rintro graph after ⟨hleaves, hgraph, hafter⟩
      exact ⟨rfl, hleaves, hgraph, hafter⟩

/-- Compiling a state machine makes the graph of its declaration: its states stand
for nodes, each for one of its own, and go where the declared references lead. -/
theorem graphOf_compile {σ : Type} {expansion : Expansion σ} {resource : Resource}
    {before : Progress σ} {graph : StateGraph}
    (h : (run (expansion.compile resource) before).1 = .ok graph) :
    resource.isStateMachine = true ∧ duplicateTask? resource = none ∧
      GraphOf expansion.manifest expansion.settings
        (expansion.source.Answers before.units) (resource.name :: before.inProgress)
        resource resource.startAt graph := by
  have hrun : run (expansion.compile resource) before =
      (.ok graph, (run (expansion.compile resource) before).2) := by
    rw [← h]
  obtain ⟨hmachine, hleaves, hgraph, _⟩ :=
    (traces_compile (expansion.source.names_answers before.units) .start
      resource).of_ok hrun
  exact ⟨hmachine, hleaves, hgraph⟩

/-- A task that is run again and again: after an error at once, else after a while. -/
def pollingResource : Resource where
  name := "polling"
  source := ⟨"code", "polling"⟩
  kind := .stateMachine (.leaf "poll")
  tasks := [{
    name := "poll"
    params := [⟨"queue", .payload "queue"⟩, ⟨"mode", .custom .null⟩]
    catches := [⟨["States.ALL"], .leaf "poll", none⟩]
    next := some (.inline (.wait 5 (.leaf "poll"))) }]

/-- Its two states go to each other, and the first one also to itself. -/
def pollingGraph : StateGraph where
  start := 0
  states := [
    { name := "task-poll"
      kind := .invoke {
        task := "poll", functionName := "poll", resultPath := "$"
        payload := some (.ofList [("queue", .path "$.queue"), ("mode", .literal .null)])
        retry := [], catches := [⟨["States.ALL"], 0, none⟩] }
      next := some 1 },
    { name := "wait_poll_1", kind := .wait 5, next := some 0 }]
  tasks := SortedMap.empty.insert "poll" 0

/-- The source that names every function like its task. -/
def ownNames : UnitSource Unit := fun _ task units => (some task.name, units)

theorem run_compile_polling :
    (run (compile ⟨{}, {}, ownNames⟩ pollingResource) ⟨(), {}, {}, [], []⟩).1 =
      .ok pollingGraph := by
  rfl

theorem graphOf_compile_polling :
    GraphOf {} {} (ownNames.Answers ()) ["polling"] pollingResource (.leaf "poll")
      pollingGraph :=
  (graphOf_compile run_compile_polling).2.2

end Expansion

end TaskMachine
