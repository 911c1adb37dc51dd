import TaskMachine.Proofs.Compilation.Rendered
import TaskMachine.Proofs.Compilation.Restated
import TaskMachine.Proofs.Declaration.Extension
import TaskMachine.Proofs.Expansion.Rank

/-!
# Order and further declarations do not matter

Where names are unique, a resource is compiled alike wherever it stands in a manifest and
whatever else the manifest declares (`dryRun_stable`).  With further declarations a dry run
that succeeds comes to the same plan and machine; one that fails may only find what it
missed.  If only the order differs, faults are the same as well.
-/

namespace TaskMachine

/-- The faults that further declarations may take away: something is not declared, or the
levels do not suffice. -/
inductive Missing : CompileFault → Prop
  | task (resource name : String) : Missing (.unknownTask resource name)
  | resource (name : String) : Missing (.resourceNotFound name)
  | levels (resource : String) : Missing (.endless resource)

/-- A resource of a manifest and its counterpart in an extended one. -/
structure Counterparts (manifest other : Manifest) (resource resource' : Resource) : Prop where
  mem : resource ∈ manifest.resources
  mem' : resource' ∈ other.resources
  name : resource'.name = resource.name

section Extended

variable {lost : CompileFault → Prop} {manifest other : Manifest}
  (hdistinct : manifest.Distinct) (hdistinct' : other.Distinct) (h : manifest.ExtendedBy other)
  (hlost : (∀ fault, Missing fault → lost fault) ∨ other.ExtendedBy manifest)
include hdistinct hdistinct' h hlost

/-- A resource is found in both manifests, unless it is declared in the extended one
only. -/
theorem Manifest.resource?_of_extendedBy (name : String) :
    Option.Rel (Counterparts manifest other) (manifest.resource? name)
      (other.resource? name) ∨
    (manifest.resource? name = none ∧ lost (.resourceNotFound name)) := by
  cases hfound : manifest.resource? name with
  | some resource =>
      left
      have hmem := mem_of_resource? hfound
      obtain ⟨resource', hmem', hresource⟩ := h resource hmem
      have hfound' := hdistinct'.resource? hmem'
      rw [hresource.name, name_of_resource? hfound] at hfound'
      rw [hfound']
      exact .some ⟨hmem, hmem', hresource.name⟩
  | none =>
      rcases hlost with hlost | hback
      · exact .inr ⟨rfl, hlost _ (.resource name)⟩
      · left
        -- A resource of the other manifest is in this one, if they differ in order only.
        cases hfound' : other.resource? name with
        | none => exact .none
        | some resource' =>
            obtain ⟨resource, hmem, hresource⟩ := hback resource' (mem_of_resource? hfound')
            have hagain := hdistinct.resource? hmem
            rw [hresource.name, name_of_resource? hfound', hfound] at hagain
            cases hagain

theorem Resource.restatedBy_of_counterparts {resource resource' : Resource}
    (hresources : Counterparts manifest other resource resource') :
    resource.RestatedBy lost resource'.pruned := by
  obtain ⟨hmem, hmem', hname⟩ := hresources
  have hextended := h.of_name hdistinct' hmem hmem' hname
  refine ⟨hname, hextended.source, congrArg ResourceKind.pruned hextended.kind, ?_, ?_⟩
  · unfold Expansion.duplicateTask?
    rw [map_name_tasks_pruned, firstRepeat_nil_eq_none_iff.mpr (hdistinct'.tasks _ hmem'),
      firstRepeat_nil_eq_none_iff.mpr (hdistinct.tasks _ hmem)]
  · intro name
    rw [task?_pruned]
    cases hfound : resource.task? name with
    | some task =>
        have hfound' := hdistinct'.task? hmem' (hextended.tasks (mem_of_task? hfound))
        rw [name_of_task? hfound] at hfound'
        rw [hfound']
        exact .inl rfl
    | none =>
        rcases hlost with hlost | hback
        · exact .inr ⟨rfl, hlost _ (.task resource.name name)⟩
        · left
          cases hfound' : resource'.task? name with
          | none => rfl
          | some task' =>
              have hsubset := (hback.of_name hdistinct hmem' hmem hname.symm).tasks
              have hagain := hdistinct.task? hmem (hsubset (mem_of_task? hfound'))
              rw [name_of_task? hfound', hfound] at hagain
              cases hagain

theorem Manifest.restatedBy_of_extendedBy : manifest.RestatedBy lost other.pruned := by
  intro name
  refine (resource?_of_extendedBy hdistinct hdistinct' h hlost name).imp_left fun hfound => ?_
  rw [resource?_pruned]
  generalize manifest.resource? name = found at hfound ⊢
  generalize other.resource? name = found' at hfound ⊢
  cases hfound with
  | none => exact .none
  | some hresources =>
      exact .some (Resource.restatedBy_of_counterparts hdistinct hdistinct' h hlost hresources)

/-- Within the same levels, all that can make a difference is something that is missing. -/
theorem Expansion.agreeUnless_compileWithin {σ : Type} {source : UnitSource σ}
    (hsource : source.Plain) (settings : Settings) {resource resource' : Resource}
    (hresources : Counterparts manifest other resource resource') (levels : Nat) :
    AgreeUnless lost (compileWithin ⟨manifest, settings, source⟩ levels resource)
      (compileWithin ⟨other, settings, source⟩ levels resource') := by
  have hmanifest := Manifest.restatedBy_of_extendedBy hdistinct hdistinct' h hlost
  have hresource :=
    Resource.restatedBy_of_counterparts hdistinct hdistinct' h hlost hresources
  refine AgreeUnless.of_outcome_eq
    (mirrors_compileWithin hsource hmanifest hresource levels).agreeUnless fun before => ?_
  exact (outcome_compileWithin_pruned hsource levels resource' before).symm

end Extended

namespace Manifest

variable {σ : Type} {manifest other : Manifest}

theorem duplicateResource?_of_distinct (h : manifest.Distinct) :
    manifest.duplicateResource? = none :=
  firstRepeat_nil_eq_none_iff.mpr h.resources

theorem limit_le_of_extendedBy (hdistinct : manifest.Distinct) (hdistinct' : other.Distinct)
    (h : manifest.ExtendedBy other) (settings : Settings) (source : UnitSource σ)
    {resource resource' : Resource}
    (hresources : Counterparts manifest other resource resource') :
    (⟨manifest, settings, source⟩ : Expansion σ).limit resource resource.startAt ≤
      (⟨other, settings, source⟩ : Expansion σ).limit resource' resource'.startAt := by
  have hextended := h.of_name hdistinct' hresources.mem hresources.mem' hresources.name
  have hstart : resource'.startAt = resource.startAt :=
    congrArg ResourceKind.startAt hextended.kind
  unfold Expansion.limit
  rw [hstart]
  exact expansionLimit_le hdistinct h hresources.mem hextended resource.startAt

/-- An expansion comes to the same with further declarations, unless something was
missing. -/
theorem agreeUnless_compile_of_extendedBy (hdistinct : manifest.Distinct)
    (hdistinct' : other.Distinct) (h : manifest.ExtendedBy other) (settings : Settings)
    {source : UnitSource σ} (hsource : source.Plain) {resource resource' : Resource}
    (hresources : Counterparts manifest other resource resource') :
    Expansion.AgreeUnless Missing (Expansion.compile ⟨manifest, settings, source⟩ resource)
      (Expansion.compile ⟨other, settings, source⟩ resource') := by
  have hlimit := limit_le_of_extendedBy hdistinct hdistinct' h settings source hresources
  rw [Expansion.compile_eq_within, Expansion.compile_eq_within]
  -- First more levels over the same manifest, then the other manifest within these levels.
  refine ((Expansion.extends_compileWithin hlimit resource).agreeUnless .levels).trans ?_
  exact Expansion.agreeUnless_compileWithin hdistinct hdistinct' h (.inl fun _ hmissing =>
    hmissing) hsource settings hresources _

/-- An expansion comes to the same in any order. -/
theorem outcome_compile_of_extendedBy (hdistinct : manifest.Distinct)
    (hdistinct' : other.Distinct) (h : manifest.ExtendedBy other)
    (hback : other.ExtendedBy manifest) (settings : Settings) {source : UnitSource σ}
    (hsource : source.Plain) {resource resource' : Resource}
    (hresources : Counterparts manifest other resource resource') (before : Progress σ) :
    Expansion.outcome (Expansion.compile ⟨other, settings, source⟩ resource') before =
      Expansion.outcome (Expansion.compile ⟨manifest, settings, source⟩ resource) before := by
  have hlimit := limit_le_of_extendedBy hdistinct hdistinct' h settings source hresources
  have hlimit' := limit_le_of_extendedBy hdistinct' hdistinct hback settings source
    ⟨hresources.mem', hresources.mem, hresources.name.symm⟩
  rw [Expansion.compile_eq_within, Expansion.compile_eq_within,
    Nat.le_antisymm hlimit hlimit']
  exact (Expansion.agreeUnless_compileWithin hdistinct hdistinct' h (.inr hback) hsource
    settings hresources _).outcome_eq before

/-- Where names are unique, neither the order of declarations nor further ones matter.  What
passes a check passes it with further declarations, with the same requests in the same order
and the same machine; and in another order all comes to the same, faults included. -/
theorem dryRun_stable (manifest other : Manifest) (settings : Settings)
    (hdistinct : manifest.Distinct) (hdistinct' : other.Distinct) :
    (manifest.ExtendedBy other → ∀ name,
      (∀ plan, manifest.check settings name = .ok plan →
        other.check settings name = .ok plan) ∧
      ∀ dry, manifest.dryRun settings name = .ok dry →
        ∃ dry', other.dryRun settings name = .ok dry' ∧ dry'.plan = dry.plan ∧
          dry'.machine = dry.machine) ∧
    (manifest.ReorderedBy other →
      CompilesAlike settings (Counterparts manifest other) manifest other) := by
  have hunique : other.duplicateResource? = manifest.duplicateResource? := by
    rw [duplicateResource?_of_distinct hdistinct, duplicateResource?_of_distinct hdistinct']
  constructor
  · intro h name
    have hdry : ∀ dry, manifest.dryRun settings name = .ok dry →
        ∃ dry', other.dryRun settings name = .ok dry' ∧ dry'.outcome = dry.outcome := by
      intro dry hdry
      have hagrees := dryRun_agrees hunique
        (resource?_of_extendedBy hdistinct hdistinct' h (.inl fun _ hmissing => hmissing) name)
        fun resource resource' hresources => ⟨hresources.name,
          agreeUnless_compile_of_extendedBy hdistinct hdistinct' h settings Plan.plain_source
            hresources⟩
      rw [hdry] at hagrees
      rcases hagrees with ⟨_, _, hfault⟩ | hsame
      · cases hfault
      · exact map_eq_ok.mp hsame
    refine ⟨?_, ?_⟩
    · intro plan hcheck
      obtain ⟨dry, hrun, rfl⟩ := check_eq_ok.mp hcheck
      obtain ⟨dry', hrun', houtcome⟩ := hdry dry hrun
      exact check_eq_ok.mpr ⟨dry', hrun', congrArg Prod.fst houtcome⟩
    · intro dry hrun
      obtain ⟨dry', hrun', houtcome⟩ := hdry dry hrun
      exact ⟨dry', hrun', congrArg Prod.fst houtcome, congrArg Prod.snd houtcome⟩
  · intro hreordered
    -- Each manifest extends the other one, so that nothing is missing in either.
    obtain ⟨h, hback⟩ := hreordered.extendedBy
    refine .of_expansions hunique (fun name => ?_) (fun _ _ hresources => hresources.name) ?_
    · have hnever : (∀ fault, Missing fault → False) ∨ other.ExtendedBy manifest := .inr hback
      have hfound := resource?_of_extendedBy hdistinct hdistinct' h hnever name
      exact hfound.resolve_right fun ⟨_, hlost⟩ => hlost
    · intro σ source hsource resource resource' hresources before
      exact outcome_compile_of_extendedBy hdistinct hdistinct' h hback settings hsource hresources
        before

/-- The declarations in another order, with a task and a machine that lead nowhere. -/
def crowded : Manifest where
  resources := [
    { itemIterator with
      tasks := { name := "unused", next := some (.leaf "nowhere") } :: itemIterator.tasks },
    { name := "broken"
      source := ⟨"code", "broken"⟩
      kind := .stateMachine (.inline (.choice [] none)) },
    { screeningResource with tasks := screeningResource.tasks.reverse }]

/-- The machine is the same among further declarations and in another order. -/
theorem dryRun_stable_crowded :
    (⟨[screeningResource, itemIterator]⟩ : Manifest).Distinct ∧ crowded.Distinct ∧
    ((⟨[screeningResource, itemIterator]⟩ : Manifest).check {} "screening").toOption.isSome ∧
    (∀ plan, (⟨[screeningResource, itemIterator]⟩ : Manifest).check {} "screening" = .ok plan →
      crowded.check {} "screening" = .ok plan) ∧
    CompilesAlike {} (Counterparts ⟨[screeningResource, itemIterator]⟩
        ⟨[itemIterator, screeningResource]⟩)
      ⟨[screeningResource, itemIterator]⟩ ⟨[itemIterator, screeningResource]⟩ := by
  have hdistinct : (⟨[screeningResource, itemIterator]⟩ : Manifest).Distinct :=
    ⟨by decide, by decide⟩
  have hswapped : (⟨[itemIterator, screeningResource]⟩ : Manifest).Distinct :=
    ⟨by decide, by decide⟩
  have hcrowded : crowded.Distinct := ⟨by decide, by decide⟩
  have hextended : (⟨[screeningResource, itemIterator]⟩ : Manifest).ExtendedBy crowded := by
    intro resource hresource
    rcases List.mem_pair.mp hresource with rfl | rfl
    · refine ⟨{ screeningResource with tasks := screeningResource.tasks.reverse }, ?_, ?_⟩
      · exact List.mem_of_getElem? (i := 2) rfl
      · exact ⟨rfl, rfl, rfl, fun task => List.mem_reverse.mpr⟩
    · refine ⟨_, List.mem_cons_self, rfl, rfl, rfl, ?_⟩
      exact List.subset_cons_self _ _
  have hreordered : (⟨[screeningResource, itemIterator]⟩ : Manifest).ReorderedBy
      ⟨[itemIterator, screeningResource]⟩ :=
    ⟨[screeningResource, itemIterator],
      .cons ⟨rfl, rfl, rfl, .refl _⟩ (.cons ⟨rfl, rfl, rfl, .refl _⟩ .nil), .swap _ _ _⟩
  refine ⟨hdistinct, hcrowded, ?_, ?_, ?_⟩
  · decide +kernel
  · exact ((dryRun_stable _ crowded {} hdistinct hcrowded).1 hextended "screening").1
  · exact (dryRun_stable _ _ {} hdistinct hswapped).2 hreordered

end Manifest
end TaskMachine
