import TaskMachine.Proofs.Expansion.Growth
import TaskMachine.Proofs.Expansion.Sources

/-!
# Calls one after the other

One expansion can be asked for any number of graphs.  A call that fails stops somewhere inside
the units, branches and processors that it was making, and all of them are left on the way
out: between calls there are no names, no graph and no unit in progress (`Restores`).  So what
a call leaves to later ones is the state of its source and its notes, and no call looks at
notes (`Reusable`).
-/

namespace TaskMachine

/-- A graph that is asked for: that of a state machine, or of any resource entered at a
target. -/
inductive GraphCall where
  | machine (resource : Resource)
  | unit (resource : Resource) (origin : String) (entry : Target)

/-- A source that gives the same answers from all good states, and stays in a good one. -/
def UnitSource.Steady {σ : Type} (source : UnitSource σ) (good : σ → Prop) : Prop :=
  source.AnswersAs source fun units units' => good units ∧ good units'

theorem UnitSource.answersAs_refl {σ : Type} (source : UnitSource σ) :
    source.AnswersAs source Eq := by
  rintro resource task units _ rfl
  exact ⟨rfl, rfl⟩

/-- A plan names functions by their prefix, which stays. -/
theorem Plan.steady_source (namePrefix : String) :
    Plan.source.Steady fun plan => plan.namePrefix = namePrefix := by
  have hadd : ∀ (plan : Plan) resource task,
      (plan.add resource task).namePrefix = plan.namePrefix := by
    intro plan resource task
    unfold Plan.add
    split <;> rfl
  rintro resource task plan plan' ⟨rfl, hplan'⟩
  refine ⟨?_, hadd plan resource task, (hadd plan' resource task).trans hplan'⟩
  simp only [Plan.source, UnitRequest.functionName, Plan.request, hplan']

/-- A table is not changed by what it is asked. -/
theorem UnitTable.steady_source (table : UnitTable) :
    UnitTable.source.Steady fun other => other = table := by
  rintro resource task _ _ ⟨rfl, rfl⟩
  exact ⟨rfl, rfl, rfl⟩

/-- The progress before the first call. -/
def Progress.fresh {σ : Type} (units : σ) : Progress σ := { units := units }

namespace Expansion

variable {σ : Type}

/-- Makes the graph that a call asks for. -/
def make (expansion : Expansion σ) : GraphCall → Expand σ StateGraph
  | .machine resource => expansion.compile resource
  | .unit resource origin entry => expansion.compileUnit resource origin entry

/-- The progress after calls, each from where the one before it ended or failed. -/
def afterCalls (expansion : Expansion σ) (calls : List GraphCall) (before : Progress σ) :
    Progress σ :=
  calls.foldl (fun now call => (run (expansion.make call) now).2) before

/-- An expansion can be used again after any calls, whatever they came to: calls leave the
units in progress as they were, and a call comes to what it does in a new expansion, over the
source as it is by then, and answers as over the source as it was at first. -/
structure Reusable (expansion : Expansion σ) (units : σ) : Prop where
  inProgress : ∀ call before,
    (run (expansion.make call) before).2.inProgress = before.inProgress
  again : ∀ calls call,
    let now := expansion.afterCalls calls (.fresh units)
    let result := run (expansion.make call) now
    let anew := run (expansion.make call) (.fresh now.units)
    result.1 = anew.1 ∧ result.2.units = anew.2.units ∧
      result.2.ignored = now.ignored ++ anew.2.ignored
  answer : ∀ calls call,
    (run (expansion.make call) (expansion.afterCalls calls (.fresh units))).1 =
      (run (expansion.make call) (.fresh units)).1

/-! ## What calls leave -/

/-- What is around a graph that is made is there again. -/
structure Restores (before after : Progress σ) : Prop where
  names : after.names = before.names
  scope : after.scope = before.scope
  inProgress : after.inProgress = before.inProgress

theorem ensures_unit_restores {follow : Resource → Follow σ}
    (h : ∀ resource target origin, Keeps (follow resource target origin))
    (resource : Resource) (entry : Target) (origin : String) (before : Progress σ) :
    Ensures (unit follow resource entry origin) before (fun _ after => Restores before after)
      (fun _ after => Restores before after) := by
  refine ensures_unit (fun _ _ => ⟨rfl, rfl, rfl⟩) fun _ => ?_
  refine (h resource entry origin (before.enterUnit resource.name)).mono ?_ ?_
  · intro _ _ hgrows
    exact ⟨rfl, rfl, hgrows.leaveUnit.inProgress⟩
  · intro _ _ hgrows
    exact ⟨rfl, rfl, hgrows.leaveUnit.inProgress⟩

theorem ensures_make_restores (expansion : Expansion σ) (call : GraphCall)
    (before : Progress σ) :
    Ensures (expansion.make call) before (fun _ after => Restores before after)
      (fun _ after => Restores before after) := by
  have hunit : ∀ resource origin entry, Ensures (expansion.compileUnit resource origin entry)
      before (fun _ after => Restores before after)
      (fun _ after => Restores before after) := fun resource origin entry =>
    ensures_unit_restores (keeps_follow expansion _) resource entry origin before
  cases call with
  | unit resource origin entry => exact hunit resource origin entry
  | machine resource =>
      show Ensures (expansion.compile resource) before _ _
      unfold compile
      split
      · exact hunit resource _ resource.startAt
      · exact Restores.mk rfl rfl rfl

/-- Whether a call answers or fails, it restores what is around it. -/
theorem restores_make (expansion : Expansion σ) (call : GraphCall) (before : Progress σ) :
    Restores before (run (expansion.make call) before).2 :=
  (ensures_make_restores expansion call before).left

theorem restores_afterCalls (expansion : Expansion σ) (calls : List GraphCall)
    (before : Progress σ) : Restores before (expansion.afterCalls calls before) := by
  induction calls generalizing before with
  | nil => exact ⟨rfl, rfl, rfl⟩
  | cons call rest ih =>
      have hcall := restores_make expansion call before
      have hrest := ih (run (expansion.make call) before).2
      exact ⟨hrest.names.trans hcall.names, hrest.scope.trans hcall.scope,
        hrest.inProgress.trans hcall.inProgress⟩

/-- Between calls there is nothing but the state of the source and the notes. -/
theorem Restores.eq_moved {units : σ} {now : Progress σ} (h : Restores (.fresh units) now)
    (units' : σ) : now = (Progress.fresh units').moved now.units now.ignored := by
  obtain ⟨names, scope, inProgress⟩ := h
  unfold Progress.moved
  rw [show (Progress.fresh units').ignored = [] from rfl, List.append_nil]
  cases now
  cases names
  cases scope
  cases inProgress
  rfl

/-! ## Calls over sources that answer alike -/

section Calls

variable {manifest : Manifest} {settings : Settings} {source : UnitSource σ}

theorem shadows_make {τ : Type} {other : UnitSource τ} {same : σ → τ → Prop}
    (hsource : source.AnswersAs other same) (call : GraphCall) :
    Shadows same (make ⟨manifest, settings, source⟩ call)
      (make ⟨manifest, settings, other⟩ call) := by
  cases call with
  | machine resource => exact shadows_compile hsource resource
  | unit resource origin entry => exact shadows_compileUnit hsource resource origin entry

/-- A call leaves a steady source in a good state. -/
theorem good_make {good : σ → Prop} (hsource : source.Steady good) (call : GraphCall)
    {before : Progress σ} (h : good before.units) :
    good (run (make ⟨manifest, settings, source⟩ call) before).2.units := by
  obtain ⟨left, hleft, -⟩ := shadows_make hsource call before before.units [] ⟨h, h⟩
  exact hleft.1

theorem good_afterCalls {good : σ → Prop} (hsource : source.Steady good)
    (calls : List GraphCall) {before : Progress σ} (h : good before.units) :
    good (afterCalls ⟨manifest, settings, source⟩ calls before).units := by
  induction calls generalizing before with
  | nil => exact h
  | cons call rest ih => exact ih (good_make hsource call h)

/-- An expansion over a steady source can be used again. -/
theorem reusable_of_steady {good : σ → Prop} (hsource : source.Steady good) {units : σ}
    (hgood : good units) : Reusable ⟨manifest, settings, source⟩ units where
  inProgress call before := (restores_make _ call before).inProgress
  again := by
    intro calls call now result anew
    have hmoved : now = (Progress.fresh now.units).moved now.units now.ignored :=
      (restores_afterCalls _ calls (.fresh units)).eq_moved now.units
    -- Over the source as it is, the two runs are the same but for earlier notes.
    have hshadows : Shadows Eq (make ⟨manifest, settings, source⟩ call)
        (make ⟨manifest, settings, source⟩ call) := shadows_make source.answersAs_refl call
    obtain ⟨left, hleft, hrun⟩ := hshadows (.fresh now.units) now.units now.ignored rfl
    have hresult : result = (anew.1, anew.2.moved left now.ignored) := by
      rw [← hrun, ← hmoved]
    rw [hresult]
    exact ⟨rfl, hleft.symm, rfl⟩
  answer := by
    intro calls call
    have hfresh : good (Progress.fresh units).units := hgood
    have hnow : good (afterCalls ⟨manifest, settings, source⟩ calls (.fresh units)).units :=
      good_afterCalls hsource calls hfresh
    have hshadows : Shadows (fun units units' => good units ∧ good units')
        (make ⟨manifest, settings, source⟩ call) (make ⟨manifest, settings, source⟩ call) :=
      shadows_make hsource call
    obtain ⟨left, -, hrun⟩ := hshadows (.fresh units) _
      (afterCalls _ calls (.fresh units)).ignored ⟨hfresh, hnow⟩
    rw [(restores_afterCalls _ calls (.fresh units)).eq_moved units, hrun]

end Calls

/-- After any calls, whatever they came to, an expansion can be used again: with a plan, and
with the functions that were provided. -/
theorem reusable_sources (manifest : Manifest) (settings : Settings) :
    (∀ plan, Reusable ⟨manifest, settings, Plan.source⟩ plan) ∧
      ∀ table, Reusable ⟨manifest, settings, UnitTable.source⟩ table :=
  ⟨fun plan => reusable_of_steady (Plan.steady_source plan.namePrefix) rfl,
    fun table => reusable_of_steady (UnitTable.steady_source table) rfl⟩

end Expansion

end TaskMachine
