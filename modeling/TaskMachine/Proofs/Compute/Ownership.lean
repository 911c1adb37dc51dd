import TaskMachine.Compute.Registry
import TaskMachine.Proofs.Compilation.Provision
import TaskMachine.Proofs.Expansion.Asked
import Mathlib.Data.List.Forall2

/-!
# Functions of their own in a registry

A registry answers by the name of a function alone.  So a leaf task gets the function that
was built for it only if no other leaf task has a function of that name
(`Manifest.NamesApart`); then a registry that has been asked for declared leaf tasks only
holds, under every name, the function of the leaf task that has it (`UnitRegistry.Holds`),
and goes on to do so (`UnitRegistry.Holds.serves`).

Names are apart where no resource has a hyphen in its name, since hyphens are put between
the parts (`Manifest.namesApart_of_not_mem`).
-/

namespace TaskMachine

/-- A function is the one of a leaf task of a resource. -/
structure UnitHandle.BuiltFor (handle : UnitHandle) (settings : Settings)
    (resource : Resource) (leaf : LeafTask) : Prop where
  functionName : handle.functionName =
    TaskMachine.functionName settings.handlerPrefix resource.name leaf.name
  task : handle.task = leaf.name
  handler : handle.handler = resource.source.file ++ "." ++ leaf.name
  codePath : handle.codePath = resource.source.folder
  runtime : handle.runtime = leaf.function.runtime.identifier
  memory : handle.memory = leaf.function.memory
  timeout : handle.timeout = leaf.function.timeout
  tags : handle.tags = leaf.function.tags
  tracing : handle.tracing = leaf.function.tracing

/-- The request for the function of a leaf task: what its resource and itself declare, with
the prefix and the exclusions of the settings. -/
def Settings.request (settings : Settings) (resource : Resource) (leaf : LeafTask) :
    UnitRequest where
  resource := resource.name
  source := resource.source
  handler := leaf.name
  function := leaf.function
  namePrefix := settings.handlerPrefix
  exclusions := settings.exclusions

theorem Settings.functionName_request (settings : Settings) (resource : Resource)
    (leaf : LeafTask) : (settings.request resource leaf).functionName =
      functionName settings.handlerPrefix resource.name leaf.name := rfl

/-- What stands before the first of a separator, and what stands behind it, are the same
where the whole is. -/
theorem eq_of_append_cons_eq_left {α : Type} {separator : α} {first first' last last' : List α}
    (h : first ++ separator :: last = first' ++ separator :: last')
    (hfirst : separator ∉ first) (hfirst' : separator ∉ first') :
    first = first' ∧ last = last' := by
  rcases List.append_eq_append_iff.mp h with ⟨more, heq, hmore⟩ | ⟨more, heq, hmore⟩
  · cases more with
    | nil => exact ⟨by rw [heq, List.append_nil], (List.cons.inj hmore).2⟩
    | cons head rest =>
        rw [heq, (List.cons.inj hmore).1] at hfirst'
        exact absurd (List.mem_append_right first List.mem_cons_self) hfirst'
  · cases more with
    | nil => exact ⟨by rw [heq, List.append_nil], (List.cons.inj hmore).2.symm⟩
    | cons head rest =>
        rw [heq, (List.cons.inj hmore).1] at hfirst
        exact absurd (List.mem_append_right first' List.mem_cons_self) hfirst

namespace Manifest

/-- No two declared leaf tasks have functions of one name. -/
def NamesApart (manifest : Manifest) (settings : Settings) : Prop :=
  ∀ resource leaf resource' leaf', manifest.Declares resource leaf →
    manifest.Declares resource' leaf' →
    functionName settings.handlerPrefix resource.name leaf.name =
      functionName settings.handlerPrefix resource'.name leaf'.name →
    resource.name = resource'.name ∧ leaf.name = leaf'.name

variable {manifest : Manifest} {settings : Settings}

/-- Resources and leaf tasks are known by their names. -/
theorem Declares.eq_of_names {resource resource' : Resource} {leaf leaf' : LeafTask}
    (h : manifest.Declares resource leaf) (h' : manifest.Declares resource' leaf')
    (hresource : resource.name = resource'.name) (hleaf : leaf.name = leaf'.name) :
    resource = resource' ∧ leaf = leaf' := by
  have hfound := h.found
  rw [hresource, h'.found] at hfound
  obtain rfl := Option.some.inj hfound
  have htask := h.task
  rw [hleaf, h'.task] at htask
  exact ⟨rfl, (Option.some.inj htask).symm⟩

/-- Without hyphens in the names of resources, names of functions are apart. -/
theorem namesApart_of_not_mem (settings : Settings)
    (h : ∀ resource ∈ manifest.resources, '-' ∉ resource.name.toList) :
    manifest.NamesApart settings := by
  intro resource leaf resource' leaf' hdeclares hdeclares' hname
  have hresource := h resource (mem_of_resource? hdeclares.found)
  have hresource' := h resource' (mem_of_resource? hdeclares'.found)
  unfold functionName at hname
  have hlists := congrArg String.toList hname
  simp only [String.toList_append, List.append_assoc, List.append_cancel_left_eq] at hlists
  obtain ⟨hfirst, hlast⟩ := eq_of_append_cons_eq_left hlists hresource hresource'
  exact ⟨String.toList_injective hfirst, String.toList_injective hlast⟩

end Manifest

namespace UnitRegistry

variable {manifest : Manifest} {settings : Settings} {registry after : UnitRegistry}
  {resource : Resource} {leaf : LeafTask} {handle : UnitHandle}

/-- Under every name there is the function of a declared leaf task that has the name. -/
def Holds (registry : UnitRegistry) (manifest : Manifest) (settings : Settings) : Prop :=
  ∀ name handle, registry.find? name = some handle → ∃ resource leaf,
    manifest.Declares resource leaf ∧
    name = functionName settings.handlerPrefix resource.name leaf.name ∧
    handle.BuiltFor settings resource leaf

theorem holds_of_units_eq_empty (h : registry.units = .empty) :
    registry.Holds manifest settings := by
  intro name handle hfind
  unfold find? at hfind
  rw [h] at hfind
  cases hfind

theorem builtFor_of_build {environment : SortedMap String}
    (h : build environment (settings.request resource leaf) = .ok handle) :
    handle.BuiltFor settings resource leaf := by
  unfold build at h
  cases hvariables : functionVariables environment
      (settings.request resource leaf).functionName
      (settings.request resource leaf).function.env with
  | error fault =>
      dsimp only at h
      rw [hvariables] at h
      cases h
  | ok resolved =>
      dsimp only at h
      rw [hvariables] at h
      cases h
      exact ⟨rfl, rfl, rfl, rfl, rfl, rfl, rfl, rfl, rfl⟩

/-- A request for a declared leaf task is answered with the function of that task. -/
theorem Holds.create (hapart : manifest.NamesApart settings)
    (hholds : registry.Holds manifest settings) (hdeclares : manifest.Declares resource leaf)
    (h : UnitRegistry.create (settings.request resource leaf) registry =
      (.ok handle, after)) :
    handle.BuiltFor settings resource leaf ∧ after.Holds manifest settings := by
  unfold UnitRegistry.create at h
  cases hfind : registry.find? (settings.request resource leaf).functionName with
  | some kept =>
      rw [hfind] at h
      cases h
      -- The name tells which leaf task the function was built for.
      obtain ⟨resource', leaf', hdeclares', hname, hbuilt⟩ := hholds _ _ hfind
      obtain ⟨hresource, hleaf⟩ := hapart _ _ _ _ hdeclares hdeclares' hname
      obtain ⟨rfl, rfl⟩ := hdeclares.eq_of_names hdeclares' hresource hleaf
      exact ⟨hbuilt, hholds⟩
  | none =>
      rw [hfind] at h
      dsimp only at h
      cases hbuild : build registry.environment (settings.request resource leaf) with
      | error fault =>
          rw [hbuild] at h
          cases h
      | ok built =>
          rw [hbuild] at h
          unfold keep at h
          rw [hfind] at h
          cases h
          have hbuilt := builtFor_of_build hbuild
          refine ⟨hbuilt, ?_⟩
          intro name other hother
          unfold find? at hother
          rw [SortedMap.get?_insert] at hother
          split at hother
          next hname =>
            cases hother
            exact ⟨resource, leaf, hdeclares, hname.symm, hbuilt⟩
          next => exact hholds name other hother

/-- A request was answered with the function of the leaf task that it is for. -/
def Owned (manifest : Manifest) (settings : Settings) (request : UnitRequest)
    (handle : UnitHandle) : Prop :=
  ∃ resource leaf, manifest.Declares resource leaf ∧
    request = settings.request resource leaf ∧ handle.BuiltFor settings resource leaf

/-- All requests of an exchange are answered so. -/
theorem Holds.serves (hapart : manifest.NamesApart settings) {requests : List UnitRequest}
    (hrequests : ∀ request ∈ requests, ∃ resource leaf, manifest.Declares resource leaf ∧
      request = settings.request resource leaf)
    {handles : List UnitHandle} (hholds : registry.Holds manifest settings)
    (h : Factory.Serves UnitRegistry.create registry requests handles after) :
    after.Holds manifest settings ∧
      List.Forall₂ (Owned manifest settings) requests handles := by
  induction h with
  | done state => exact ⟨hholds, .nil⟩
  | @answered state middle after request handle rest handles hanswer _ ih =>
      obtain ⟨resource, leaf, hdeclares, rfl⟩ := hrequests request List.mem_cons_self
      obtain ⟨hbuilt, hmiddle⟩ := hholds.create hapart hdeclares hanswer
      have hrest := fun other hother => hrequests other (List.mem_cons_of_mem _ hother)
      obtain ⟨hafter, howned⟩ := ih hrest hmiddle
      exact ⟨hafter, .cons ⟨resource, leaf, hdeclares, rfl, hbuilt⟩ howned⟩

end UnitRegistry

end TaskMachine
