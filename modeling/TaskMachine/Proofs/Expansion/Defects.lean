import TaskMachine.Proofs.Expansion.Rank

/-!
# Every fault has its defect

With levels enough, an expansion ends in a fault only where something is wrong with
the declaration: at a site that it reaches there is the defect of which the fault
tells (`blames_follow`).  That there are no levels left is no defect; so it does not
happen.

`blames_nodeKind` and `blames_leaf` go through the references of a node in order.
Every target of a node fits fewer levels than the node itself (`Site.Fits`).
-/

namespace TaskMachine
namespace Expansion

section Walk

variable {σ : Type} (expansion : Expansion σ) (survey : Survey) (root : Site)

/-- A way of following targets that blames only defects, where levels are enough. -/
def Justifies (levels : Nat) (follow : Resource → Follow σ) : Prop :=
  ∀ (site : Site) (before : Progress σ),
    Site.Fits survey expansion.manifest root site before levels →
    Ensures (follow site.resource site.target site.origin) before
      (fun _ after => Grows before after) (fun fault _ => root.Blames expansion fault)

variable {expansion survey root} {levels : Nat} {follow : Resource → Follow σ}
  {inProgress : List String} {resource : Resource} {origin : String}
  {before entered now : Progress σ}

/-- After other targets of a node one more is followed. -/
theorem Justifies.target (h : Justifies expansion survey root levels follow)
    {target : Target} (hnow : Grows entered now)
    (hfits : Site.Fits survey expansion.manifest root ⟨inProgress, resource, target, origin⟩
      now levels) :
    Ensures (follow resource target origin) now (fun _ after => Grows entered after)
      (fun fault _ => root.Blames expansion fault) :=
  (h ⟨inProgress, resource, target, origin⟩ now hfits).mono
    (fun _ _ hafter => hnow.trans hafter) fun _ _ hblames => hblames

theorem Justifies.successor (h : Justifies expansion survey root levels follow)
    (inProgress : List String) {next : Option Target} {ended : Bool}
    (hnow : Grows entered now)
    (hfits : ∀ target, effective next ended = some target →
      Site.Fits survey expansion.manifest root ⟨inProgress, resource, target, origin⟩ now
        levels) :
    Ensures (successor resource (follow resource) next ended origin) now
      (fun _ after => Grows entered after)
      (fun fault _ => root.Blames expansion fault) := by
  refine ensures_successor ?_ ?_
  · intro _ ignored
    exact hnow.ignored ignored
  · intro target htarget
    exact h.target hnow (hfits target htarget)

theorem blames_choice (h : Justifies expansion survey root levels follow)
    {branches : List ChoiceBranch} {otherwise : Option Target}
    (hsite : Site.Fits survey expansion.manifest root
      ⟨inProgress, resource, .inline (.choice branches otherwise), origin⟩ before
      (levels + 1))
    (hentered : Grows before entered) (name : String) :
    Ensures (expansion.nodeKind follow resource origin name (.choice branches otherwise))
      entered (fun _ after => Grows entered after)
      (fun fault _ => root.Blames expansion fault) := by
  refine ensures_choice (fun _ _ now => Grows entered now) ?_ (.refl entered) ?_ ?_ ?_ ?_
  · rintro rfl
    exact ⟨_, hsite.reached, .emptyChoice otherwise⟩
  · intro done branch rest choices now cause hsplit _ hcause
    have hbranch : branch ∈ branches := by
      rw [hsplit]
      exact List.mem_append_right done List.mem_cons_self
    exact ⟨_, hsite.reached, .condition hbranch hcause⟩
  · intro done branch rest choices now condition hsplit hnow _
    have hstep : (ControlNode.choice branches otherwise).at? (.choice done.length) =
        some branch.next := by
      show branches[done.length]?.map ChoiceBranch.next = _
      simp [hsplit]
    exact h.target hnow (hsite.inside hstep (hentered.trans hnow))
  · intro _ choices now _ hnow
    exact hnow
  · rintro target rfl choices now _ hnow
    have hstep : (ControlNode.choice branches (some target)).at? .otherwise =
        some target := rfl
    exact h.target hnow (hsite.inside hstep (hentered.trans hnow))

theorem blames_parallel (h : Justifies expansion survey root levels follow)
    (hcovers : survey.Covers expansion.manifest) {branches : List Target}
    {next : Option Target} {ended : Bool}
    (hsite : Site.Fits survey expansion.manifest root
      ⟨inProgress, resource, .inline (.parallel branches next ended), origin⟩ before
      (levels + 1))
    (hentered : Grows before entered) (name : String) :
    Ensures
      (expansion.nodeKind follow resource origin name (.parallel branches next ended))
      entered (fun _ after => Grows entered after)
      (fun fault _ => root.Blames expansion fault) := by
  refine ensures_parallel (fun _ _ now => Grows entered now) ?_ (.refl entered) ?_ ?_
  · rintro rfl
    exact ⟨_, hsite.reached, .emptyParallel next ended⟩
  · intro done branch rest graphs now hsplit hnow
    -- All leaf tasks are new in a branch, but its node cannot be met again.
    have hstep : (ControlNode.parallel branches next ended).at? (.branch done.length) =
        some branch := by
      show branches[done.length]? = _
      simp [hsplit]
    have hfits := hsite.branch hcovers hstep (hentered.trans hnow)
    refine (h.target (.refl { now with scope := {} }) hfits).mono ?_ fun _ _ h => h
    intro start after hafter
    exact hnow.trans hafter.leaveGraph
  · intro graphs now _ hnow
    refine h.successor inProgress hnow fun target htarget => ?_
    have hstep : (ControlNode.parallel branches next ended).at? .next = some target :=
      htarget
    exact hsite.inside hstep (hentered.trans hnow)

theorem blames_map_node (h : Justifies expansion survey root levels follow)
    (hcovers : survey.Covers expansion.manifest) {items : ValueSource}
    {processor : String} {maxConcurrency : Option UInt32} {next : Option Target}
    (hsite : Site.Fits survey expansion.manifest root
      ⟨inProgress, resource, .inline (.map items processor maxConcurrency next), origin⟩
      before (levels + 1))
    (hentered : Grows before entered) (supply : NameSupply) :
    Ensures
      (expansion.nodeKind follow resource origin (supply.allocate "map" origin).1
        (.map items processor maxConcurrency next))
      entered (fun _ after => Grows entered after)
      (fun fault _ => root.Blames expansion fault) := by
  have hinProgress : entered.inProgress = inProgress :=
    hentered.inProgress.trans hsite.inProgress
  refine ensures_map_node ?_ ?_ ?_ ?_ ?_ ?_
  · intro hliteral
    exact ⟨_, hsite.reached, .literalItemsPath (ValueSource.path?_eq_none_iff.mp hliteral)⟩
  · intro hlost
    exact ⟨_, hsite.reached, .resourceNotFound hlost⟩
  · intro found hfound hkind
    exact ⟨_, hsite.reached, .notAMapIterator hfound hkind⟩
  · intro found hfound hmem
    rw [hinProgress] at hmem
    exact ⟨_, hsite.reached, .recursiveIterator hfound hmem⟩
  · intro iterator task hiterator _ hfree hrepeat
    rw [hinProgress] at hfree
    -- The defect is in the iterator, at its entry.
    exact ⟨_, .embed hsite.reached rfl hiterator hfree supply,
      .duplicateTask (repeated_of_firstRepeat hrepeat)⟩
  · intro itemsPath iterator _ hiterator _ hfree _
    rw [hinProgress] at hfree
    have hfits := hsite.embedded hcovers hentered.inProgress hiterator hfree supply
    refine (h.target (.refl (entered.enterUnit iterator.name)) hfits).mono ?_
      fun _ _ h => h
    intro start after hafter
    refine h.successor inProgress hafter.leaveUnit fun target htarget => ?_
    have hstep : (ControlNode.map items processor maxConcurrency next).at? .next =
        some target := htarget
    exact hsite.inside hstep (hentered.trans hafter.leaveUnit)

/-- Whatever goes wrong with a control node is wrong in its declaration. -/
theorem blames_nodeKind (h : Justifies expansion survey root levels follow)
    (hcovers : survey.Covers expansion.manifest) {control : ControlNode}
    (hsite : Site.Fits survey expansion.manifest root
      ⟨inProgress, resource, .inline control, origin⟩ before (levels + 1))
    (hentered : Grows before entered) (supply : NameSupply) :
    Ensures
      (expansion.nodeKind follow resource origin (supply.allocate control.kind origin).1
        control)
      entered (fun _ after => Grows entered after)
      (fun fault _ => root.Blames expansion fault) := by
  cases control with
  | wait seconds next =>
      have hstep : (ControlNode.wait seconds next).at? .next = some next := rfl
      exact ensures_wait (h.target (.refl entered) (hsite.inside hstep hentered))
  | fail cause error => exact .refl entered
  | pass next ended =>
      refine ensures_pass (h.successor inProgress (.refl entered) fun target htarget => ?_)
      have hstep : (ControlNode.pass next ended).at? .next = some target := htarget
      exact hsite.inside hstep hentered
  | succeed => exact .refl entered
  | choice branches otherwise => exact blames_choice h hsite hentered _
  | parallel branches next ended => exact blames_parallel h hcovers hsite hentered _
  | map items processor maxConcurrency next =>
      exact blames_map_node h hcovers hsite hentered supply

theorem blames_node (h : Justifies expansion survey root levels follow)
    (hcovers : survey.Covers expansion.manifest) {control : ControlNode}
    (hsite : Site.Fits survey expansion.manifest root
      ⟨inProgress, resource, .inline control, origin⟩ before (levels + 1)) :
    Ensures (expansion.node follow resource control origin) before
      (fun _ after => Grows before after)
      (fun fault _ => root.Blames expansion fault) := by
  have hentered := Grows.enterNode before control.kind origin
  refine ensures_node ?_
  refine (blames_nodeKind h hcovers hsite hentered before.names).mono ?_ fun _ _ h => h
  intro answer after hafter
  exact (hentered.trans hafter).fillState (Nat.le_refl _) answer.1 answer.2

/-- Whatever goes wrong with a leaf task is wrong in its declaration, or its function
is missing. -/
theorem blames_leaf (h : Justifies expansion survey root levels follow)
    (hcovers : survey.Covers expansion.manifest) {name : String}
    (hsite : Site.Fits survey expansion.manifest root
      ⟨inProgress, resource, .leaf name, origin⟩ before (levels + 1)) :
    Ensures (expansion.leaf resource (follow resource) name) before
      (fun _ after => Grows before after)
      (fun fault _ => root.Blames expansion fault) := by
  refine ensures_leaf (fun _ _ => .refl before) ?_ ?_ ?_
  · intro hunknown
    exact ⟨_, hsite.reached, .unknownTask hunknown⟩
  · intro task htask hmissing
    exact ⟨_, hsite.reached, .missingUnit htask before.units hmissing⟩
  · intro task functionName hnew htask _
    obtain rfl : task.name = name := Resource.name_of_task? htask
    have hentered := Grows.enterTask hnew (expansion.source resource task before.units).2
    refine (Ensures.mapM (fun _ _ now => Grows
      (before.enterTask (expansion.source resource task before.units).2 task.name) now)
      (.refl _) ?_).mono ?_ fun _ _ h => h
    · intro done rule rest catches now hsplit hnow
      have hstep : task.at? (.caught done.length) = some rule.next := by
        show task.catches[done.length]?.map CatchRule.next = _
        simp [hsplit]
      simp only [ensures_bind, ensures_pure]
      exact h.target hnow (hsite.task hcovers htask hnew hnow hstep)
    · intro catches now hnow
      have htarget : ∀ target, effective task.next task.ended = some target →
          Site.Fits survey expansion.manifest root
            ⟨inProgress, resource, target, task.name⟩ now levels := by
        intro target htarget
        have hstep : task.at? .next = some target := htarget
        exact hsite.task hcovers htask hnew hnow hstep
      refine (h.successor inProgress hnow htarget).mono ?_ fun _ _ h => h
      intro next last hlast
      exact (hentered.trans hlast).fillState (Nat.le_refl _) _ next

end Walk

/-- An expansion that has levels enough ends well or in a fault that tells of a
defect. -/
theorem blames_follow {σ : Type} {expansion : Expansion σ} {survey : Survey}
    (hcovers : survey.Covers expansion.manifest) (root : Site) (levels : Nat) :
    Justifies expansion survey root levels (expansion.follow levels) := by
  induction levels with
  | zero =>
      -- No rank is below zero: with no levels left there is nothing to follow.
      intro site before hsite
      exact absurd hsite.rank (Nat.not_lt_zero _)
  | succ levels ih =>
      rintro ⟨inProgress, resource, target, origin⟩ before hsite
      cases target with
      | leaf name => exact blames_leaf ih hcovers hsite
      | inline control => exact blames_node ih hcovers hsite

/-- What a unit comes to. -/
theorem blames_compileUnit {σ : Type} (expansion : Expansion σ) (resource : Resource)
    (origin : String) (entry : Target) (before : Progress σ)
    (h : ∀ other ∈ resource :: expansion.manifest.resources, other.BranchAcyclic) :
    Ensures (expansion.compileUnit resource origin entry) before (fun _ _ => True)
      (fun fault _ =>
        (Site.unit before.inProgress resource entry origin).Blames expansion fault) := by
  refine ensures_unit ?_ ?_
  · intro task hrepeat
    exact ⟨_, .root, .duplicateTask (repeated_of_firstRepeat hrepeat)⟩
  · intro _
    have hjustifies := blames_follow (Survey.covers_of entry h)
      (.unit before.inProgress resource entry origin) (expansion.limit resource entry)
    exact (hjustifies _ (before.enterUnit resource.name) .unit).mono
      (fun _ _ _ => trivial) fun _ _ hblames => hblames

end Expansion
end TaskMachine
