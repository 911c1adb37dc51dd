import TaskMachine.Proofs.Compilation.Check
import TaskMachine.Proofs.Expansion.Defects
import TaskMachine.Proofs.Expansion.Levels
import TaskMachine.Proofs.Expansion.Preservation

/-!
# Expansions end

An expansion goes down a limited number of levels.  `compile_ends` says that the
limit is never what stops it, where no cycle of leaf tasks goes through a branch: it
ends with a graph or with a fault of the declaration, and any greater number of
levels gives the same.  Leaf tasks may lead to each other and to themselves in any
other way, and so may iterators.
-/

namespace TaskMachine

/-- That there are no levels left is no defect of a declaration. -/
theorem Site.Blames.ne_endless {σ : Type} {expansion : Expansion σ} {root : Site}
    {fault : CompileFault} (h : root.Blames expansion fault) (name : String) :
    fault ≠ .endless name := by
  obtain ⟨site, _, hdefect⟩ := h
  rintro rfl
  cases hdefect

namespace Expansion

variable {σ : Type}

/-- A unit is made within the limit of its expansion, and would be the same without
one. -/
structure Ends (expansion : Expansion σ) (resource : Resource) (origin : String)
    (entry : Target) (before : Progress σ) : Prop where
  ne_endless : ∀ name,
    (run (expansion.compileUnit resource origin entry) before).1 ≠ .error (.endless name)
  stable : ∀ levels, expansion.limit resource entry ≤ levels →
    run (unit (expansion.follow levels) resource entry origin) before =
      run (expansion.compileUnit resource origin entry) before

theorem compileUnit_ends (expansion : Expansion σ) (resource : Resource)
    (h : ∀ other ∈ resource :: expansion.manifest.resources, other.BranchAcyclic)
    (origin : String) (entry : Target) (before : Progress σ) :
    expansion.Ends resource origin entry before := by
  have hne : ∀ name, (run (expansion.compileUnit resource origin entry) before).1 ≠
      .error (.endless name) := by
    intro name hendless
    have hblames := (blames_compileUnit expansion resource origin entry before h).of_error
      (Prod.ext hendless rfl)
    exact hblames.ne_endless name rfl
  refine ⟨hne, ?_⟩
  intro levels hlevels
  have hextends : Extends (expansion.compileUnit resource origin entry)
      (unit (expansion.follow levels) resource entry origin) :=
    extends_unit (extends_follow hlevels) resource entry origin
  rcases hextends before with ⟨name, hendless⟩ | hsame
  · exact absurd hendless (hne name)
  · exact hsame

/-- Where no cycle of leaf tasks goes through a branch, every expansion ends: of a unit
at any entry, of a state machine, and in a check. -/
theorem compile_ends (expansion : Expansion σ) (resource : Resource)
    (h : ∀ other ∈ resource :: expansion.manifest.resources, other.BranchAcyclic) :
    (∀ origin entry before, expansion.Ends resource origin entry before) ∧
    (∀ before name,
      (run (expansion.compile resource) before).1 ≠ .error (.endless name)) ∧
    (∀ settings machine name,
      expansion.manifest.check settings machine ≠ .error (.endless name)) := by
  have hcompile : ∀ {τ : Type} (expansion : Expansion τ) (resource : Resource),
      (∀ other ∈ resource :: expansion.manifest.resources, other.BranchAcyclic) →
      ∀ before name, (run (expansion.compile resource) before).1 ≠
        .error (.endless name) := by
    intro τ expansion resource h before name hendless
    unfold compile at hendless
    split at hendless
    · exact (compileUnit_ends expansion resource h _ _ before).ne_endless name hendless
    · cases hendless
  refine ⟨compileUnit_ends expansion resource h, hcompile expansion resource h, ?_⟩
  intro settings machine name hcheck
  rcases Manifest.check_eq_error.mp hcheck with ⟨duplicate, _, heq⟩ | ⟨_, _, heq⟩ |
    ⟨_, found, hfound, hbuild⟩
  · cases heq
  · cases heq
  rcases Manifest.build_eq_error.mp hbuild with ⟨after, hrun⟩ | ⟨_, _, _, _, _, heq⟩
  · have hacyclic : ∀ other ∈ found :: expansion.manifest.resources, other.BranchAcyclic :=
      Manifest.forall_mem_cons_of_resource? hfound
        fun other hother => h other (List.mem_cons_of_mem resource hother)
    refine hcompile ⟨expansion.manifest, settings, Plan.source⟩ found hacyclic
      { units := .ofSettings settings } name ?_
    rw [hrun]
  · cases heq

/-- Two tasks that go back to themselves after an error; the first one starts the
second one in a branch. -/
def forkingResource : Resource where
  name := "forking"
  source := ⟨"code", "forking"⟩
  kind := .stateMachine (.leaf "fetch")
  tasks := [
    { name := "fetch"
      catches := [⟨["States.ALL"], .leaf "fetch", none⟩]
      next := some (.inline (.parallel [.leaf "work"] none true)) },
    { name := "work", catches := [⟨["States.ALL"], .leaf "work", none⟩] }]

/-- An iterator that embeds itself. -/
def loopingIterator : Resource where
  name := "looping"
  source := ⟨"code", "looping"⟩
  kind := .mapIterator (.inline (.map (.path "items") "looping" none none)) none none

/-- The first task leads to itself and, in a branch, to the second one, which leads to
itself. -/
theorem leads_forkingResource {branch : Bool} {first next : String}
    (h : forkingResource.Leads branch first next) :
    (first = "work" → next = "work") ∧ (branch = true → first = "fetch" ∧ next = "work") := by
  obtain ⟨task, step, target, htask, hstep, hnames⟩ := h
  have hname := Resource.name_of_task? htask
  have hmem := Resource.mem_of_task? htask
  simp only [forkingResource, List.mem_cons, List.not_mem_nil, or_false] at hmem
  rcases hmem with rfl | rfl
  · subst hname
    refine ⟨fun hwork => absurd hwork (by decide), fun hbranch => ⟨rfl, ?_⟩⟩
    cases step with
    | next =>
        cases hstep
        cases hnames with
        | @inside _ inner _ _ _ hinner hnames =>
            cases inner with
            | branch index =>
                cases index with
                | zero =>
                    cases hinner
                    cases hnames
                    rfl
                | succ index => cases hinner
            | _ => cases hinner
    | caught index =>
        cases index with
        | zero =>
            cases hstep
            cases hnames
            cases hbranch
        | succ index => cases hstep
    | _ => cases hstep
  · subst hname
    cases step with
    | caught index =>
        cases index with
        | zero =>
            cases hstep
            cases hnames
            exact ⟨fun _ => rfl, fun hbranch => absurd hbranch (by decide)⟩
        | succ index => cases hstep
    | _ => cases hstep

theorem branchAcyclic_forkingResource : forkingResource.BranchAcyclic := by
  intro first next hbranch hleads
  obtain ⟨rfl, rfl⟩ := (leads_forkingResource hbranch).2 rfl
  have hwork : ∀ last, Relation.ReflTransGen
      (fun first next => ∃ branch, forkingResource.Leads branch first next) "work" last →
      last = "work" := by
    intro last hlast
    induction hlast with
    | refl => rfl
    | tail _ hstep ih =>
        obtain ⟨branch, hstep⟩ := hstep
        exact (leads_forkingResource hstep).1 ih
  exact absurd (hwork "fetch" hleads) (by decide)

theorem branchAcyclic_of_tasks_eq_nil {resource : Resource} (h : resource.tasks = []) :
    resource.BranchAcyclic := by
  rintro first next ⟨task, step, target, htask, _⟩
  have hmem := Resource.mem_of_task? htask
  rw [h] at hmem
  cases hmem

/-- The expansion of the two tasks ends although they go back to themselves, and so does
that of the iterator, which is refused. -/
theorem compile_ends_forking :
    (∀ origin entry before,
      (⟨⟨[forkingResource, loopingIterator]⟩, {}, ownNames⟩ : Expansion Unit).Ends
        forkingResource origin entry before) ∧
    (∀ settings machine name,
      (⟨[forkingResource, loopingIterator]⟩ : Manifest).check settings machine ≠
        .error (.endless name)) := by
  have hacyclic : ∀ other ∈ [forkingResource, forkingResource, loopingIterator],
      other.BranchAcyclic := by
    intro other hother
    simp only [List.mem_cons, List.not_mem_nil, or_false] at hother
    rcases hother with rfl | rfl | rfl
    · exact branchAcyclic_forkingResource
    · exact branchAcyclic_forkingResource
    · exact branchAcyclic_of_tasks_eq_nil rfl
  have hends := compile_ends ⟨⟨[forkingResource, loopingIterator]⟩, {}, ownNames⟩
    forkingResource hacyclic
  exact ⟨hends.1, hends.2.2⟩

end Expansion
end TaskMachine
