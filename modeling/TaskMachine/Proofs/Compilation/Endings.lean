import TaskMachine.Proofs.Compilation.Bindings
import TaskMachine.Proofs.Machine.Endings

/-!
# Endings of compiled machines

The analysis of a compiled graph, at any level, lists the states that end their path by the
definition of that level, except those that catch errors (`compile_terminals`).  Nothing
keeps an invocation from being both: it is declared to be the last of its path, it is
rendered so, and still it is not among the states that the analysis lists
(`compile_terminals_caught`).
-/

namespace TaskMachine

namespace Manifest

variable {φ : Type} {manifest : Manifest} {settings : Settings} {factory : Factory φ}
  {name : String} {state after : φ} {compiled : CompiledMachine}

/-- Every level of a compiled machine has a definition in which nothing is lost. -/
theorem definable_of_compile
    (h : Provide.run (manifest.compile settings factory name) state =
      (.ok compiled, after)) :
    ∀ level ∈ compiled.machine.graph.all, level.Definable := by
  obtain ⟨hgraph, hdistinct⟩ := isGraph_of_compile h
  intro level hlevel
  obtain ⟨_, _, _, hof⟩ := compiled.machine.graph.isGraph_of_mem_all hgraph level hlevel
  exact hof.definable (hdistinct level hlevel)

/-- Every graph of a compiled machine stands somewhere in its definition, and the states that
its analysis lists are those that end their path there and catch no errors.  So they are all
that end their path exactly where none of those catches errors. -/
theorem compile_terminals
    (h : Provide.run (manifest.compile settings factory name) state =
      (.ok compiled, after)) :
    (∀ level ∈ compiled.machine.graph.all,
      ∃ body, compiled.machine.graph.Level compiled.definition level body) ∧
    ∀ level body, compiled.machine.graph.Level compiled.definition level body →
      level.transitions.terminals =
        ((level.endings body).filter fun id => !level.catching body id) ∧
      (level.transitions.terminals = level.endings body ↔
        ∀ id ∈ level.endings body, level.catching body id = false) := by
  have hrenders : compiled.machine.graph.Renders compiled.definition :=
    StateGraph.renders_definition (definable_of_compile h)
  refine ⟨hrenders.exists_level, ?_⟩
  intro level body hlevel
  have hbody := hrenders.of_level hlevel
  exact ⟨hbody.terminals_eq, hbody.terminals_eq_endings_iff⟩

/-- The graphs of the two branches and of the processor have levels of their own.  The task of
the outermost level that catches errors does not end its path, so that there the two agree. -/
theorem compile_terminals_screening :
    ∃ compiled after, Provide.run ((⟨[screeningResource, itemIterator]⟩ : Manifest).compile
        {} buildEach "screening") () = (.ok compiled, after) ∧
      compiled.machine.graph.all.length = 4 ∧
      (∀ level ∈ compiled.machine.graph.all,
        ∃ body, compiled.machine.graph.Level compiled.definition level body ∧
          level.transitions.terminals =
            (level.endings body).filter fun id => !level.catching body id) ∧
      compiled.machine.graph.transitions.terminals =
        compiled.machine.graph.endings compiled.definition := by
  have hgraphs : (Provide.run ((⟨[screeningResource, itemIterator]⟩ : Manifest).compile
      {} buildEach "screening") ()).1.toOption.map
        (fun compiled => (compiled.machine.graph.all.length,
          (compiled.machine.graph.endings compiled.definition).any fun id =>
            compiled.machine.graph.catching compiled.definition id)) = some (4, false) := by
    decide +kernel
  obtain ⟨compiled, after, hrun, hfacts⟩ := Provide.exists_run_of_map hgraphs
  obtain ⟨hlength, hcatching⟩ := Prod.mk.inj hfacts
  obtain ⟨hlevels, hterminals⟩ := compile_terminals hrun
  refine ⟨compiled, after, hrun, hlength, ?_, ?_⟩
  · intro level hlevel
    obtain ⟨body, hbody⟩ := hlevels level hlevel
    exact ⟨body, hbody, (hterminals level body hbody).1⟩
  · refine (hterminals _ _ (.here _ _)).2.mpr ?_
    simpa using hcatching

/-- A machine whose only leaf task ends its path, unless it fails. -/
def refunding : Manifest where
  resources := [
    { name := "refunding"
      source := ⟨"code", "refunding"⟩
      kind := .stateMachine (.leaf "refund")
      tasks := [
        { name := "refund"
          catches := [⟨["States.ALL"], .inline (.fail "not refunded" "RefundError"), none⟩]
          ended := true }] }]

/-- The task is rendered with `End`, and so it is an ending of the definition along with the
state that fails; but it goes to that state after errors, and the analysis leaves it out. -/
theorem compile_terminals_caught :
    ∃ compiled after,
      Provide.run (refunding.compile {} buildEach "refunding") () = (.ok compiled, after) ∧
      compiled.machine.graph.Level compiled.definition compiled.machine.graph
        compiled.definition ∧
      compiled.machine.graph.endings compiled.definition = [0, 1] ∧
      compiled.machine.graph.transitions.terminals = [1] := by
  have hlists : (Provide.run (refunding.compile {} buildEach "refunding")
      ()).1.toOption.map (fun compiled =>
        (compiled.machine.graph.endings compiled.definition,
          compiled.machine.graph.transitions.terminals)) = some ([0, 1], [1]) := by
    decide +kernel
  obtain ⟨compiled, after, hrun, hfacts⟩ := Provide.exists_run_of_map hlists
  obtain ⟨hendings, hterminals⟩ := Prod.mk.inj hfacts
  exact ⟨compiled, after, hrun, .here _ _, hendings, hterminals⟩

end Manifest

end TaskMachine
