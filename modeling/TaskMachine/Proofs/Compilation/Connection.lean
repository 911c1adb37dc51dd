import TaskMachine.Proofs.Compilation.Outcome
import TaskMachine.Proofs.Expansion.Bounds
import TaskMachine.Proofs.Expansion.Connected
import TaskMachine.Proofs.Expansion.Preservation
import TaskMachine.Proofs.Expansion.Shown

/-!
# Compiled graphs are closed and connected

A graph that was made, and every graph inside it, is entered at its first state, has all
of its states within reach of it and no transition that leads out (`StateGraph.Connected`).
So no compilation ends with the fault of a transition that leads out, and no expansion
fills a state that is not there (`compile_connected`).
-/

namespace TaskMachine

/-- A graph that is closed under its transitions and reached from its first state. -/
structure StateGraph.Connected (graph : StateGraph) : Prop where
  nonempty : graph.states ≠ []
  start_eq : graph.start = 0
  closed : ∀ state ∈ graph.states, ∀ id ∈ state.transitions, id < graph.size
  reachable : ∀ id < graph.size, id ∈ graph.transitions.reachableFrom graph.start

/-- A transition leads out of its graph. -/
def CompileFault.OfDangling (fault : CompileFault) : Prop :=
  ∃ resource state target, fault = .machine resource (.danglingTransition state target)

theorem StateGraph.Rooted.connected {graph : StateGraph} (h : graph.Rooted)
    (hclosed : graph.dangling? = none) : graph.Connected where
  nonempty := h.nonempty
  start_eq := h.start_eq
  closed := fun _ hstate _ hid => lt_of_dangling?_eq_none hclosed hstate hid
  reachable := fun id hid => TransitionGraph.mem_reachableFrom_iff.mpr (h.reached id hid)

namespace Expansion

variable {σ : Type}

theorem connected_compileUnit (expansion : Expansion σ) (resource : Resource)
    (origin : String) (entry : Target) (before : Progress σ) :
    Ensures (expansion.compileUnit resource origin entry) before
      (fun graph _ => ∀ inner ∈ graph.all, inner.Connected) OfDeclaration := by
  have hrooted := rooted_compileUnit expansion resource origin entry before
  have hfollow := traces_follow (expansion.source.names_answers before.units)
    (expansion.limit resource entry)
  have htraces := traces_unit hfollow .start resource entry origin
  unfold Ensures
  cases hrun : run (expansion.compileUnit resource origin entry) before with
  | mk result after =>
      cases result with
      | error fault => exact hrooted.of_error hrun
      | ok graph =>
          intro inner hinner
          obtain ⟨_, hgraph, _⟩ := htraces.of_ok hrun
          have hclosed := IsGraph.dangling?_eq_none ⟨_, _, _, hgraph⟩ inner hinner
          exact (hrooted.of_ok hrun inner hinner).connected hclosed

theorem connected_compile (expansion : Expansion σ) (resource : Resource)
    (before : Progress σ) :
    Ensures (expansion.compile resource) before
      (fun graph _ => ∀ inner ∈ graph.all, inner.Connected) OfDeclaration := by
  unfold compile
  split
  · exact connected_compileUnit expansion resource _ resource.startAt before
  · rintro _ _ ⟨⟩

end Expansion

namespace Manifest

variable {manifest : Manifest} {settings : Settings}

/-- What is wrong with a machine that was built is never a transition. -/
theorem not_ofDangling_of_build {σ : Type} {source : UnitSource σ} {units : σ}
    {resource : Resource} {fault : CompileFault}
    (h : manifest.build settings source units resource = .error fault) :
    ¬ fault.OfDangling := by
  rintro ⟨name, state, target, rfl⟩
  have hensures := Expansion.connected_compile ⟨manifest, settings, source⟩ resource
    { units := units }
  rcases build_eq_error.mp h with ⟨after, hrun⟩ | ⟨graph, after, cause, hrun, hfault, heq⟩
  · exact hensures.of_error hrun name _ rfl
  · cases heq
    obtain ⟨_, _, hgraph, _⟩ := (Expansion.traces_compile (source.names_answers units)
      .start resource).of_ok hrun
    obtain ⟨repeated, heq, _⟩ := StateMachine.fault?_eq_some
      (IsGraph.dangling?_eq_none ⟨_, _, _, hgraph⟩) hfault
    cases heq

theorem not_ofDangling_of_check {name : String} {fault : CompileFault}
    (h : manifest.check settings name = .error fault) : ¬ fault.OfDangling := by
  rcases check_eq_error.mp h with ⟨duplicate, _, rfl⟩ | ⟨_, _, rfl⟩ | ⟨_, resource, _, hbuild⟩
  · rintro ⟨_, _, _, ⟨⟩⟩
  · rintro ⟨_, _, _, ⟨⟩⟩
  · exact not_ofDangling_of_build hbuild

theorem ensures_compile_not_ofDangling {φ : Type} (factory : Factory φ) (name : String)
    (state : φ) :
    Provide.Ensures (manifest.compile settings factory name) state (fun _ _ => True)
      (fun fault _ => ¬ fault.OfDangling) := by
  refine .intro (fun _ _ _ => trivial) ?_
  intro fault after hrun
  rcases run_compile_eq_error hrun with hcheck | ⟨cause, rfl⟩ | rfl | ⟨table, resource, hbuild⟩
  · exact not_ofDangling_of_check hcheck
  · rintro ⟨_, _, _, ⟨⟩⟩
  · rintro ⟨_, _, _, ⟨⟩⟩
  · exact not_ofDangling_of_build hbuild

theorem ensures_compileAll_not_ofDangling {φ : Type} (factory : Factory φ) (state : φ) :
    Provide.Ensures (manifest.compileAll settings factory) state (fun _ _ => True)
      (fun fault _ => ¬ fault.OfDangling) := by
  have hcompile : ∀ name state, True →
      Provide.Ensures (manifest.compile settings factory name) state
        (fun _ _ => True ∧ True) (fun fault _ => ¬ fault.OfDangling) := by
    intro name state _
    refine (ensures_compile_not_ofDangling factory name state).mono ?_ fun _ _ h => h
    exact fun _ _ _ => ⟨trivial, trivial⟩
  exact (ensures_compileAll hcompile trivial).mono (fun _ _ _ => trivial) fun _ _ h => h

end Manifest

namespace Expansion

/-- Compiled graphs are closed and connected, and so are all graphs inside them, for
every manifest, source of names, resource and entry.  No check and no compilation has the
fault of a transition that leads out of its graph.  Whatever an expansion were to do
instead of filling a state that is not there, it would be the same expansion. -/
theorem compile_connected (manifest : Manifest) (settings : Settings) :
    (∀ {σ : Type} (source : UnitSource σ) (resource : Resource) (before : Progress σ)
        (graph : StateGraph),
      ((run (compile ⟨manifest, settings, source⟩ resource) before).1 = .ok graph ∨
        ∃ origin entry,
          (run (compileUnit ⟨manifest, settings, source⟩ resource origin entry) before).1 =
            .ok graph) →
      ∀ inner ∈ graph.all, inner.Connected) ∧
    (∀ name fault, manifest.check settings name = .error fault → ¬ fault.OfDangling) ∧
    (∀ {φ : Type} (factory : Factory φ) (state : φ) (fault : CompileFault),
      ((∃ name, (Provide.run (manifest.compile settings factory name) state).1 =
          .error fault) ∨
        (Provide.run (manifest.compileAll settings factory) state).1 = .error fault) →
      ¬ fault.OfDangling) ∧
    (∀ {σ : Type} (source : UnitSource σ) (outside : Expand σ Unit),
      (∀ levels, followWithin ⟨manifest, settings, source⟩ outside levels =
        follow ⟨manifest, settings, source⟩ levels) ∧
      ∀ resource origin entry,
        compileUnitWithin ⟨manifest, settings, source⟩ outside resource origin entry =
          compileUnit ⟨manifest, settings, source⟩ resource origin entry) := by
  refine ⟨?_, ?_, ?_, ?_⟩
  · rintro σ source resource before graph (hcompile | ⟨origin, entry, hunit⟩)
    · exact (connected_compile _ resource before).of_ok (Prod.ext hcompile rfl)
    · exact (connected_compileUnit _ resource origin entry before).of_ok
        (Prod.ext hunit rfl)
  · intro name fault hcheck
    exact Manifest.not_ofDangling_of_check hcheck
  · rintro φ factory state fault (⟨name, hcompile⟩ | hall)
    · exact (Manifest.ensures_compile_not_ofDangling factory name state).of_error
        (Prod.ext hcompile rfl)
    · exact (Manifest.ensures_compileAll_not_ofDangling factory state).of_error
        (Prod.ext hall rfl)
  · intro σ source outside
    refine ⟨?_, ?_⟩
    · intro levels
      exact followWithin_eq _ outside levels
    · intro resource origin entry
      exact compileUnitWithin_eq _ outside resource origin entry

/-- The two states that go to each other are closed and connected. -/
theorem compile_connected_polling : ∀ inner ∈ pollingGraph.all, inner.Connected :=
  (compile_connected {} {}).1 ownNames pollingResource ⟨(), {}, {}, [], []⟩ pollingGraph
    (.inl rfl)

end Expansion

end TaskMachine
