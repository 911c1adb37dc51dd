import TaskMachine.Proofs.Compilation.Rendered
import TaskMachine.Proofs.Compilation.Restated

/-!
# Ignored successors do nothing

The successor of a node that ends its path is ignored, whatever it is.  Two manifests that
differ in such successors only, in any number of them and at any depth, are the same when
`pruned`, and nothing that is compiled tells them apart: neither states and their names, nor
requests, nor faults (`ignored_next_inert`).  So nothing that is wrong in an ignored
successor ever shows.  All that is left of one is a note.
-/

namespace TaskMachine
namespace Manifest

variable {σ : Type} {manifest other : Manifest} {settings : Settings}

section Pruned

variable (h : other.pruned = manifest.pruned) {resource resource' : Resource}
  (hresource : resource'.pruned = resource.pruned)
include h

theorem resource?_of_pruned_eq (name : String) :
    Option.Rel (fun resource resource' => resource'.pruned = resource.pruned)
      (manifest.resource? name) (other.resource? name) := by
  have hfound : (other.resource? name).map Resource.pruned =
      (manifest.resource? name).map Resource.pruned := by
    rw [← resource?_pruned, ← resource?_pruned, h]
  generalize manifest.resource? name = found at hfound ⊢
  generalize other.resource? name = found' at hfound ⊢
  cases found with
  | none =>
      obtain rfl := Option.map_eq_none_iff.mp hfound
      exact .none
  | some resource =>
      obtain ⟨resource', rfl, hpruned⟩ := Option.map_eq_some_iff.mp hfound
      exact .some hpruned

theorem duplicateResource?_of_pruned_eq :
    other.duplicateResource? = manifest.duplicateResource? := by
  unfold duplicateResource?
  rw [← other.map_name_resources_pruned, h, manifest.map_name_resources_pruned]

include hresource

theorem outcome_compile_of_pruned_eq {source : UnitSource σ} (hsource : source.Plain)
    (before : Progress σ) :
    Expansion.outcome (Expansion.compile ⟨other, settings, source⟩ resource') before =
      Expansion.outcome (Expansion.compile ⟨manifest, settings, source⟩ resource) before :=
  calc
    _ = Expansion.outcome (Expansion.compile ⟨other.pruned, settings, source⟩ resource'.pruned)
          before := (Expansion.outcome_compile_pruned hsource resource' before).symm
    _ = Expansion.outcome (Expansion.compile ⟨manifest.pruned, settings, source⟩
          resource.pruned) before := by rw [h, hresource]
    _ = _ := Expansion.outcome_compile_pruned hsource resource before

theorem outcome_follow_of_pruned_eq {source : UnitSource σ} (hsource : source.Plain)
    {target target' : Target} (htarget : target'.pruned = target.pruned) (levels : Nat)
    (origin : String) (before : Progress σ) :
    Expansion.outcome (Expansion.follow ⟨other, settings, source⟩ levels resource' target'
        origin) before =
      Expansion.outcome (Expansion.follow ⟨manifest, settings, source⟩ levels resource target
        origin) before :=
  calc
    _ = Expansion.outcome (Expansion.follow ⟨other.pruned, settings, source⟩ levels
          resource'.pruned target'.pruned origin) before :=
      (Expansion.outcome_follow_pruned hsource levels resource' target' origin before).symm
    _ = Expansion.outcome (Expansion.follow ⟨manifest.pruned, settings, source⟩ levels
          resource.pruned target.pruned origin) before := by rw [h, hresource, htarget]
    _ = _ := Expansion.outcome_follow_pruned hsource levels resource target origin before

end Pruned

/-- Manifests that differ in ignored successors only are compiled alike.  While they are
expanded, whatever target is followed from whatever progress leaves the same states and
names; and an ignored successor itself leaves nothing, not even a fault. -/
theorem ignored_next_inert (manifest other : Manifest) (settings : Settings)
    (h : other.pruned = manifest.pruned) :
    CompilesAlike settings (fun resource resource' => resource'.pruned = resource.pruned)
      manifest other ∧
    (∀ (levels : Nat) (resource resource' : Resource) (target target' : Target)
        (origin : String) (before : Progress Plan),
      resource'.pruned = resource.pruned → target'.pruned = target.pruned →
      Expansion.outcome (Expansion.follow ⟨other, settings, Plan.source⟩ levels resource'
          target' origin) before =
        Expansion.outcome (Expansion.follow ⟨manifest, settings, Plan.source⟩ levels resource
          target origin) before) ∧
    ∀ (resource : Resource) (follow : Expansion.Follow Plan) (next : Option Target)
        (origin : String) (before : Progress Plan),
      Expansion.outcome (Expansion.successor resource follow next true origin) before =
        (.ok none, before.quiet) := by
  refine ⟨?_, ?_, ?_⟩
  · refine .of_expansions (duplicateResource?_of_pruned_eq h) (resource?_of_pruned_eq h) ?_ ?_
    · intro resource resource' hresource
      have hname := congrArg Resource.name hresource
      exact hname
    · intro σ source hsource resource resource' hresource before
      exact outcome_compile_of_pruned_eq h hresource hsource before
  · intro levels resource resource' target target' origin before hresource htarget
    exact outcome_follow_of_pruned_eq h hresource Plan.plain_source htarget levels origin before
  · intro resource follow next origin before
    cases next <;> rfl

/-- A machine that embeds an iterator, where a leaf task, branches and a node of the iterator
end their paths, and the successor that they all declare. -/
def ending (next : Option Target) : Manifest where
  resources := [
    { name := "ending"
      source := ⟨"code", "ending"⟩
      kind := .stateMachine (.leaf "load")
      tasks := [
        { name := "load"
          next := some (.inline (.map (.path "items") "item" none
            (some (.inline (.parallel [.leaf "report", .inline .succeed] next true))))) },
        { name := "report", next := next, ended := true }] },
    { name := "item"
      source := ⟨"code", "item"⟩
      kind := .mapIterator (.inline (.pass next true)) none none }]

/-- A branch that starts itself, a leaf task and an iterator that are not declared, a choice
between nothing, a condition without a meaning and a map over a text. -/
def ruin : Target :=
  .inline (.parallel
    [.leaf "report", .leaf "nowhere", .inline (.choice [] none),
      .inline (.choice [⟨.check "likes" (.path "items"), .leaf "nowhere"⟩] none),
      .inline (.map (.reference (.custom (.str "items"))) "nobody" none none)]
    none false)

/-- The ruin does not show. -/
theorem ignored_next_inert_ruin :
    (ending (some ruin)).pruned = (ending none).pruned ∧
    ((ending none).check {} "ending").toOption.isSome ∧
    (ending (some ruin)).check {} "ending" = (ending none).check {} "ending" ∧
    Provide.run ((ending (some ruin)).compile {} buildEach "ending") () =
      Provide.run ((ending none).compile {} buildEach "ending") () := by
  have hpruned : (ending (some ruin)).pruned = (ending none).pruned := rfl
  obtain ⟨hcompiles, -, -⟩ :=
    ignored_next_inert (ending none) (ending (some ruin)) {} hpruned
  refine ⟨hpruned, ?_, hcompiles.check "ending", hcompiles.compile buildEach () "ending"⟩
  decide +kernel

end Manifest
end TaskMachine
