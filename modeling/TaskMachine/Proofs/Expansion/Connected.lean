import TaskMachine.Proofs.Expansion.Growth
import TaskMachine.Proofs.Machine.Nesting
import TaskMachine.Proofs.Machine.Reachability

/-!
# Expansions make connected graphs

Every state that comes while a target is followed is reached from the state of the
target (`Spreads`).  A state owes its way in to whoever asked for it: the one who asks
is not filled yet, but it goes to all states that it asked for as soon as it is
(`Spreads.close`), and filling it breaks no way that was there, since a reserved state
goes nowhere.

`connects_follow` says so for targets followed down any number of levels; then every
graph is entered at its first state and reached from there as a whole
(`rooted_of_spreads`).  On the way it also comes out that expansions have no faults of
machines.
-/

namespace TaskMachine

/-- Transitions of states in a list lead from the source to the target. -/
def LeadsTo (states : List State) : StateId → StateId → Prop :=
  Relation.ReflTransGen fun source target =>
    ∃ state, states[source]? = some state ∧ target ∈ state.transitions

namespace LeadsTo

variable {states : List State} {source target : StateId}

theorem of_transition {state : State} (hstate : states[source]? = some state)
    (htarget : target ∈ state.transitions) : LeadsTo states source target :=
  .single ⟨state, hstate, htarget⟩

/-- Further states break no way. -/
theorem of_prefix {more : List State} (h : LeadsTo states source target)
    (hmore : states <+: more) : LeadsTo more source target := by
  refine Relation.ReflTransGen.mono ?_ _ _ h
  rintro first second ⟨state, hstate, hsecond⟩
  obtain ⟨hlt, hget⟩ := List.getElem?_eq_some_iff.mp hstate
  have hsame := List.prefix_iff_getElem?.mp hmore first hlt
  exact ⟨state, hsame.trans (congrArg some hget), hsecond⟩

/-- Filling a state that goes nowhere breaks no way. -/
theorem fill {scope : Scope} {id : StateId} {reserved : State}
    (h : LeadsTo scope.states source target) (hreserved : scope.states[id]? = some reserved)
    (hnone : reserved.transitions = []) (kind : StateKind) (next : Option StateId) :
    LeadsTo (scope.fill id kind next).states source target := by
  refine Relation.ReflTransGen.mono ?_ _ _ h
  rintro first second ⟨state, hstate, hsecond⟩
  by_cases hfirst : id = first
  · -- No way goes through the state that is filled.
    subst hfirst
    rw [hreserved] at hstate
    cases hstate
    rw [hnone] at hsecond
    cases hsecond
  · refine ⟨state, ?_, hsecond⟩
    rw [← hstate]
    exact List.getElem?_modify_ne _ _ hfirst

end LeadsTo

/-- A graph that is entered at its first state and reached from there as a whole. -/
structure StateGraph.Rooted (graph : StateGraph) : Prop where
  nonempty : graph.states ≠ []
  start_eq : graph.start = 0
  reached : ∀ id < graph.states.length, graph.transitions.Reaches graph.start id

/-- A state that is only reserved goes nowhere. -/
theorem State.transitions_reserved (name : String) :
    (⟨name, .pass, none⟩ : State).transitions = [] := rfl

/-- States came that are reached from certain roots, and the graphs that they hold are
rooted. -/
structure Spreads {σ : Type} (before after : Progress σ) (roots : List StateId) : Prop where
  grows : Grows before after
  reached : ∀ id, before.scope.states.length ≤ id → id < after.scope.states.length →
    ∃ root ∈ roots, LeadsTo after.scope.states root id
  held : ∀ id state, before.scope.states.length ≤ id →
    after.scope.states[id]? = some state →
    ∀ graph ∈ state.kind.nested, ∀ inner ∈ graph.all, inner.Rooted

namespace Spreads

variable {σ : Type} {before middle after entered last : Progress σ}
  {roots more : List StateId}

/-- Nothing came to the graph at hand. -/
theorem of_scope_eq (hgrows : Grows before after) (hscope : after.scope = before.scope) :
    Spreads before after [] where
  grows := hgrows
  reached := by
    intro id hge hlt
    rw [hscope] at hlt
    omega
  held := by
    intro id state hge hstate
    rw [hscope] at hstate
    obtain ⟨hlt, _⟩ := List.getElem?_eq_some_iff.mp hstate
    omega

theorem widen (h : Spreads before after roots) (hroots : roots ⊆ more) :
    Spreads before after more where
  grows := h.grows
  reached := by
    intro id hge hlt
    obtain ⟨root, hroot, hleads⟩ := h.reached id hge hlt
    exact ⟨root, hroots hroot, hleads⟩
  held := h.held

/-- A kind without targets of its own adds no roots. -/
theorem of_targets_eq_nil {kind : StateKind} (h : Spreads before after roots)
    (hkind : kind.targets = []) : Spreads before after (roots ++ kind.targets) := by
  rwa [hkind, List.append_nil]

theorem trans (first : Spreads before middle roots) (later : Spreads middle after more) :
    Spreads before after (roots ++ more) where
  grows := first.grows.trans later.grows
  reached := by
    intro id hge hlt
    rcases Nat.lt_or_ge id middle.scope.states.length with hold | hnew
    · obtain ⟨root, hroot, hleads⟩ := first.reached id hge hold
      exact ⟨root, List.mem_append_left more hroot, hleads.of_prefix later.grows.states⟩
    · obtain ⟨root, hroot, hleads⟩ := later.reached id hnew hlt
      exact ⟨root, List.mem_append_right roots hroot, hleads⟩
  held := by
    intro id state hge hstate
    rcases Nat.lt_or_ge id middle.scope.states.length with hold | hnew
    · have hsame := List.prefix_iff_getElem?.mp later.grows.states id hold
      have hmiddle : middle.scope.states[id]? = some state := by
        rw [List.getElem?_eq_getElem hold, ← hsame, hstate]
      exact first.held id state hge hmiddle
    · exact later.held id state hnew hstate

/-- The states inside a node came, and now its own state is filled: it is there, and all
of them are reached from it. -/
theorem close {name : String} {kind : StateKind} {next : Option StateId}
    (hbefore : Grows before entered)
    (hentered : entered.scope.states = before.scope.states ++ [⟨name, .pass, none⟩])
    (h : Spreads entered last roots) (hroots : roots ⊆ next.toList ++ kind.targets)
    (hkind : ∀ graph ∈ kind.nested, ∀ inner ∈ graph.all, inner.Rooted) :
    Spreads before (last.fillState before.scope.states.length kind next)
        [before.scope.states.length] ∧
      before.scope.states.length < last.scope.states.length := by
  have hlength : entered.scope.states.length = before.scope.states.length + 1 := by
    rw [hentered, List.length_append, List.length_singleton]
  have hprefix := h.grows.states
  have hlt : before.scope.states.length < last.scope.states.length := by
    have hle := hprefix.length_le
    omega
  have hreserved : last.scope.states[before.scope.states.length]? =
      some ⟨name, .pass, none⟩ := by
    rw [List.prefix_iff_getElem?.mp hprefix _ (by omega)]
    simp [hentered]
  have hfilled : (last.scope.fill before.scope.states.length kind next).states[
      before.scope.states.length]? = some ⟨name, kind, next⟩ := by
    show (last.scope.states.modify _ _)[_]? = _
    rw [List.getElem?_modify_eq, hreserved]
    rfl
  refine ⟨⟨?_, ?_, ?_⟩, hlt⟩
  · exact (hbefore.trans h.grows).fillState (Nat.le_refl _) kind next
  · intro id hge hid
    refine ⟨before.scope.states.length, List.mem_singleton_self _, ?_⟩
    rcases Nat.eq_or_lt_of_le hge with rfl | hgt
    · exact .refl
    · -- It goes to the root of the state at once, and on from there as before.
      replace hid : id < (last.scope.fill before.scope.states.length kind next).states.length :=
        hid
      rw [Scope.length_states_fill] at hid
      obtain ⟨root, hroot, hleads⟩ := h.reached id (by omega) hid
      have hfirst : LeadsTo (last.scope.fill before.scope.states.length kind next).states
          before.scope.states.length root := .of_transition hfilled (hroots hroot)
      exact hfirst.trans (hleads.fill hreserved (State.transitions_reserved name) kind next)
  · intro id state hge hstate
    replace hstate : (last.scope.fill before.scope.states.length kind next).states[id]? =
        some state := hstate
    rcases Nat.eq_or_lt_of_le hge with rfl | hgt
    · rw [hfilled] at hstate
      cases hstate
      exact hkind
    · have hold : last.scope.states[id]? = some state := by
        rw [← hstate]
        exact (List.getElem?_modify_ne _ _ (Nat.ne_of_lt hgt)).symm
      exact h.held id state (by omega) hold

end Spreads

/-- The answer to a target: the first state that came, or one of a leaf task that was
registered before. -/
def Entered {σ : Type} (before after : Progress σ) (id : StateId) : Prop :=
  (id = before.scope.states.length ∧ id < after.scope.states.length) ∨
    ∃ name, before.scope.tasks.get? name = some id

/-- A graph that was made from its entry on is rooted, and so are the graphs inside. -/
theorem rooted_of_spreads {σ : Type} {before after : Progress σ} {start : StateId}
    (hscope : before.scope = {}) (h : Spreads before after [start])
    (hentered : Entered before after start) :
    ∀ inner ∈ (after.scope.toGraph start).all, inner.Rooted := by
  have hlength : before.scope.states.length = 0 := by rw [hscope]; rfl
  have hstart : start = 0 ∧ 0 < after.scope.states.length := by
    rcases hentered with ⟨hstart, hlt⟩ | ⟨name, hname⟩
    · rw [hlength] at hstart
      rw [hstart] at hlt
      exact ⟨hstart, hlt⟩
    · rw [hscope] at hname
      cases hname
  obtain ⟨rfl, hpos⟩ := hstart
  intro inner hinner
  rcases StateGraph.mem_all_iff.mp hinner with rfl | ⟨state, hstate, held, hheld, hinner⟩
  · refine ⟨List.ne_nil_of_length_pos hpos, rfl, ?_⟩
    intro id hid
    obtain ⟨root, hroot, hleads⟩ := h.reached id (by omega) hid
    rw [List.mem_singleton.mp hroot] at hleads
    refine Relation.ReflTransGen.mono ?_ _ _ hleads
    intro source target hgoes
    exact StateGraph.goes_transitions_iff.mpr hgoes
  · obtain ⟨id, hid⟩ := List.mem_iff_getElem?.mp hstate
    exact h.held id state (by omega) hid held hheld inner hinner

namespace Expansion

variable {σ : Type}

/-- Expansions have faults of their own; what is wrong with a machine shows later. -/
def OfDeclaration (fault : CompileFault) (_ : Progress σ) : Prop :=
  ∀ name cause, fault ≠ .machine name cause

/-- What following targets does to the graph at hand. -/
def Connects (follow : Follow σ) : Prop :=
  ∀ target origin before, Ensures (follow target origin) before
    (fun id after => Spreads before after [id] ∧ Entered before after id) OfDeclaration

theorem connects_successor {resource : Resource} {follow : Follow σ}
    (h : Connects follow) (next : Option Target) (ended : Bool) (origin : String)
    (before : Progress σ) :
    Ensures (successor resource follow next ended origin) before
      (fun id after => Spreads before after id.toList) OfDeclaration := by
  refine ensures_successor ?_ ?_
  · intro _ ignored
    exact .of_scope_eq ((Grows.refl before).ignored ignored) rfl
  · intro target _
    refine (h target origin before).mono ?_ fun _ _ h => h
    rintro id after ⟨hspreads, _⟩
    exact hspreads

theorem connects_leaf {expansion : Expansion σ} {resource : Resource} {follow : Follow σ}
    (h : Connects follow) (name : String) (before : Progress σ) :
    Ensures (expansion.leaf resource follow name) before
      (fun id after => Spreads before after [id] ∧ Entered before after id)
      OfDeclaration := by
  refine ensures_leaf ?_ ?_ ?_ ?_
  · intro id hid
    refine ⟨(Spreads.of_scope_eq (.refl before) rfl).widen ?_, .inr ⟨name, hid⟩⟩
    exact List.nil_subset [id]
  · rintro _ _ _ ⟨⟩
  · rintro _ _ _ _ _ ⟨⟩
  · intro task functionName hget htask hfunction
    obtain rfl : task.name = name := Resource.name_of_task? htask
    have hgrows := Grows.enterTask hget (expansion.source resource task before.units).2
    -- The catch rules first: the graph goes on from one to the next.
    refine (Ensures.mapM (fun _ catches now =>
      Spreads (before.enterTask (expansion.source resource task before.units).2 task.name)
        now (catches.map CatchTransition.next)) (.of_scope_eq (.refl _) rfl) ?_).mono ?_
      fun _ _ h => h
    · intro _ rule _ catches now _ hnow
      simp only [ensures_bind, ensures_pure]
      refine (h rule.next task.name now).mono ?_ fun _ _ h => h
      rintro id after ⟨hspreads, _⟩
      rw [List.map_append]
      exact hnow.trans hspreads
    · intro catches now hnow
      refine (connects_successor h task.next task.ended task.name now).mono ?_
        fun _ _ h => h
      intro next last hlast
      have hroots : catches.map CatchTransition.next ++ next.toList ⊆ next.toList ++
          (StateKind.invoke (task.invocation expansion.settings functionName catches)).targets :=
        (List.perm_append_comm).subset
      have hkind : ∀ graph ∈ (StateKind.invoke
          (task.invocation expansion.settings functionName catches)).nested,
          ∀ inner ∈ graph.all, inner.Rooted := by
        intro graph hgraph
        cases hgraph
      obtain ⟨hspreads, hlt⟩ := Spreads.close hgrows rfl (hnow.trans hlast) hroots hkind
      refine ⟨hspreads, .inl ⟨rfl, ?_⟩⟩
      show _ < (last.scope.fill _ _ _).states.length
      rwa [Scope.length_states_fill]

/-- A graph of a target that is followed on a graph without states. -/
theorem rooted_follow {follow : Follow σ} (h : Connects follow) (target : Target)
    (origin : String) (entered : Progress σ) (hscope : entered.scope = {}) :
    Ensures (follow target origin) entered
      (fun start after => Grows entered after ∧
        ∀ inner ∈ (after.scope.toGraph start).all, inner.Rooted)
      OfDeclaration := by
  refine (h target origin entered).mono ?_ fun _ _ h => h
  rintro start after ⟨hspreads, hentered⟩
  exact ⟨hspreads.grows, rooted_of_spreads hscope hspreads hentered⟩

/-- What making the kind of a node does to the graph at hand: states came that the state of
the node will go to, and the graphs that it will hold are rooted. -/
def ConnectsKind (before : Progress σ) (answer : StateKind × Option StateId)
    (after : Progress σ) : Prop :=
  Spreads before after (answer.2.toList ++ answer.1.targets) ∧
    ∀ graph ∈ answer.1.nested, ∀ inner ∈ graph.all, inner.Rooted

theorem ConnectsKind.of_nested_eq_nil {before after : Progress σ}
    {answer : StateKind × Option StateId}
    (h : Spreads before after (answer.2.toList ++ answer.1.targets))
    (hnested : answer.1.nested = []) : ConnectsKind before answer after := by
  refine ⟨h, ?_⟩
  rw [hnested]
  intro graph hgraph
  cases hgraph

section Nodes

variable {expansion : Expansion σ} {follow : Resource → Follow σ}

theorem connects_choice (h : ∀ resource, Connects (follow resource)) (resource : Resource)
    (origin name : String) (branches : List ChoiceBranch) (otherwise : Option Target)
    (before : Progress σ) :
    Ensures (expansion.nodeKind follow resource origin name (.choice branches otherwise))
      before (ConnectsKind before) OfDeclaration := by
  refine ensures_choice (fun _ choices now =>
    Spreads before now (choices.map ChoiceTransition.next)) ?_ ?_ ?_ ?_ ?_ ?_
  · rintro _ _ _ ⟨⟩
  · exact .of_scope_eq (.refl before) rfl
  · rintro _ _ _ _ _ _ _ _ _ _ _ ⟨⟩
  · intro _ branch _ choices now condition _ hnow _
    refine (h resource branch.next origin now).mono ?_ fun _ _ h => h
    rintro id after ⟨hspreads, _⟩
    rw [List.map_append]
    exact hnow.trans hspreads
  · intro _ choices now _ hnow
    refine .of_nested_eq_nil ?_ rfl
    show Spreads before now ([] ++ (choices.map ChoiceTransition.next ++ []))
    rwa [List.nil_append, List.append_nil]
  · intro target _ choices now _ hnow
    refine (h resource target origin now).mono ?_ fun _ _ h => h
    rintro id after ⟨hspreads, _⟩
    exact .of_nested_eq_nil (hnow.trans hspreads) rfl

/-- The branches leave the graph at hand alone; each makes a graph of its own. -/
theorem connects_parallel (h : ∀ resource, Connects (follow resource))
    (resource : Resource) (origin name : String) (branches : List Target)
    (next : Option Target) (ended : Bool) (before : Progress σ) :
    Ensures (expansion.nodeKind follow resource origin name (.parallel branches next ended))
      before (ConnectsKind before) OfDeclaration := by
  refine ensures_parallel (fun _ graphs now =>
    (Grows before now ∧ now.scope = before.scope) ∧
    ∀ graph ∈ graphs, ∀ inner ∈ graph.all, inner.Rooted) ?_ ?_ ?_ ?_
  · rintro _ _ _ ⟨⟩
  · refine ⟨⟨.refl before, rfl⟩, ?_⟩
    intro graph hgraph
    cases hgraph
  · rintro _ branch _ graphs now _ ⟨⟨hgrows, hscope⟩, hgraphs⟩
    refine (rooted_follow (h resource) branch origin { now with scope := {} } rfl).mono ?_
      fun _ _ h => h
    rintro start after ⟨hafter, hrooted⟩
    refine ⟨⟨hgrows.trans hafter.leaveGraph, hscope⟩, ?_⟩
    intro graph hgraph
    rcases List.mem_append.mp hgraph with hgraph | hgraph
    · exact hgraphs graph hgraph
    · rw [List.mem_singleton.mp hgraph]
      exact hrooted
  · rintro graphs now _ ⟨⟨hgrows, hscope⟩, hgraphs⟩
    refine (connects_successor (h resource) next ended origin now).mono ?_ fun _ _ h => h
    intro id after hspreads
    have hbranches : Spreads before now [] := .of_scope_eq hgrows hscope
    exact ⟨(hbranches.trans hspreads).of_targets_eq_nil rfl, hgraphs⟩

theorem connects_map_node (h : ∀ resource, Connects (follow resource))
    (resource : Resource) (origin name : String) (items : ValueSource)
    (processor : String) (maxConcurrency : Option UInt32) (next : Option Target)
    (before : Progress σ) :
    Ensures (expansion.nodeKind follow resource origin name
        (.map items processor maxConcurrency next))
      before (ConnectsKind before) OfDeclaration := by
  refine ensures_map_node ?_ ?_ ?_ ?_ ?_ ?_
  · rintro _ _ _ ⟨⟩
  · rintro _ _ _ ⟨⟩
  · rintro _ _ _ _ _ ⟨⟩
  · rintro _ _ _ _ _ ⟨⟩
  · rintro _ _ _ _ _ _ _ _ ⟨⟩
  · intro itemsPath iterator _ _ _ _ _
    refine (rooted_follow (h iterator) iterator.startAt _ (before.enterUnit iterator.name)
      rfl).mono ?_ fun _ _ h => h
    rintro start after ⟨hgrows, hrooted⟩
    refine (connects_successor (h resource) next false origin _).mono ?_ fun _ _ h => h
    intro id last hspreads
    have hprocessor : Spreads before (after.leaveUnit before) [] :=
      .of_scope_eq hgrows.leaveUnit rfl
    refine ⟨(hprocessor.trans hspreads).of_targets_eq_nil rfl, ?_⟩
    intro graph hgraph
    rw [List.mem_singleton.mp hgraph]
    exact hrooted

theorem connects_nodeKind (h : ∀ resource, Connects (follow resource))
    (resource : Resource) (origin name : String) (control : ControlNode)
    (before : Progress σ) :
    Ensures (expansion.nodeKind follow resource origin name control) before
      (ConnectsKind before) OfDeclaration := by
  cases control with
  | wait seconds next =>
      refine ensures_wait ((h resource next origin before).mono ?_ fun _ _ h => h)
      rintro id after ⟨hspreads, _⟩
      exact .of_nested_eq_nil hspreads rfl
  | fail cause error => exact .of_nested_eq_nil (.of_scope_eq (.refl before) rfl) rfl
  | pass next ended =>
      refine ensures_pass
        ((connects_successor (h resource) next ended origin before).mono ?_ fun _ _ h => h)
      intro id after hspreads
      exact .of_nested_eq_nil (hspreads.of_targets_eq_nil rfl) rfl
  | succeed => exact .of_nested_eq_nil (.of_scope_eq (.refl before) rfl) rfl
  | choice branches otherwise =>
      exact connects_choice h resource origin name branches otherwise before
  | parallel branches next ended =>
      exact connects_parallel h resource origin name branches next ended before
  | map items processor maxConcurrency next =>
      exact connects_map_node h resource origin name items processor maxConcurrency next before

end Nodes

theorem connects_node {expansion : Expansion σ} {follow : Resource → Follow σ}
    (h : ∀ resource, Connects (follow resource)) (resource : Resource)
    (control : ControlNode) (origin : String) (before : Progress σ) :
    Ensures (expansion.node follow resource control origin) before
      (fun id after => Spreads before after [id] ∧ Entered before after id)
      OfDeclaration := by
  refine ensures_node ((connects_nodeKind h resource origin _ control _).mono ?_
    fun _ _ h => h)
  rintro ⟨kind, next⟩ after ⟨hspreads, hkind⟩
  have hgrows := Grows.enterNode before control.kind origin
  obtain ⟨hclosed, hlt⟩ := Spreads.close hgrows rfl hspreads (List.Subset.refl _) hkind
  refine ⟨hclosed, .inl ⟨rfl, ?_⟩⟩
  show _ < (after.scope.fill _ _ _).states.length
  rwa [Scope.length_states_fill]

/-- All states that come while a target is followed are reached from the one it leads
to. -/
theorem connects_follow (expansion : Expansion σ) (levels : Nat) (resource : Resource) :
    Connects (expansion.follow levels resource) := by
  induction levels generalizing resource with
  | zero => rintro target origin before _ _ ⟨⟩
  | succ levels ih =>
      intro target origin before
      cases target with
      | leaf name => exact connects_leaf (ih resource) name before
      | inline control => exact connects_node ih resource control origin before

/-- The graph of a unit is rooted, and so are the graphs inside. -/
theorem rooted_compileUnit (expansion : Expansion σ) (resource : Resource)
    (origin : String) (entry : Target) (before : Progress σ) :
    Ensures (expansion.compileUnit resource origin entry) before
      (fun graph _ => ∀ inner ∈ graph.all, inner.Rooted) OfDeclaration := by
  unfold compileUnit
  refine ensures_unit ?_ ?_
  · rintro _ _ _ _ ⟨⟩
  · intro _
    refine (rooted_follow (connects_follow expansion _ resource) entry origin
      (before.enterUnit resource.name) rfl).mono ?_ fun _ _ h => h
    rintro start after ⟨_, hrooted⟩
    exact hrooted

theorem rooted_compile (expansion : Expansion σ) (resource : Resource)
    (before : Progress σ) :
    Ensures (expansion.compile resource) before
      (fun graph _ => ∀ inner ∈ graph.all, inner.Rooted) OfDeclaration := by
  unfold compile
  split
  · exact rooted_compileUnit expansion resource _ resource.startAt before
  · rintro _ _ ⟨⟩

end Expansion

end TaskMachine
