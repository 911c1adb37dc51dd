import TaskMachine.Proofs.Compilation.Planning
import TaskMachine.Proofs.Declaration.Extension
import TaskMachine.Proofs.Expansion.Refusals

/-!
# Registered resources

A manifest is a map from names to resources that keeps an order.  To register a resource
changes what is found under its name and under no other, and answers with what was found
there before, also where a manifest has several resources of one name (`resource?_register`).

A manifest that was put together by registering resources one after the other has one
resource for every name, which is the last one of that name and stands where the first one
was put (`names_registerAll`, `resource?_registerAll`).  So the names of its resources are no
reason to refuse it.
-/

namespace TaskMachine

/-- Registers resources one after the other. -/
def Manifest.registerAll (manifest : Manifest) (resources : List Resource) : Manifest :=
  resources.foldl (fun manifest resource => (manifest.register resource).2) manifest

/-- The last of some resources that has a name. -/
def lastNamed? (resources : List Resource) (name : String) : Option Resource :=
  (resources.filter fun resource => resource.name == name).getLast?

namespace Manifest

/-! ## One resource -/

/-- What is found after a resource was registered. -/
theorem resource?_register (manifest : Manifest) (resource : Resource) (name : String) :
    (manifest.register resource).2.resource? name =
      if resource.name = name then some resource else manifest.resource? name :=
  find?_place resource name manifest.resources

theorem map_name_place (resource : Resource) (resources : List Resource) :
    (place resource resources).map Resource.name =
      if resource.name ∈ resources.map Resource.name then resources.map Resource.name
      else resources.map Resource.name ++ [resource.name] := by
  induction resources with
  | nil => rfl
  | cons first rest ih =>
      by_cases hsame : first.name = resource.name
      · simp [place, hsame]
      · have hne : ¬ resource.name = first.name := fun h => hsame h.symm
        by_cases hrest : resource.name ∈ rest.map Resource.name
        · simp [place, hsame, ih, hrest]
        · simp [place, hsame, ih, hrest, hne]

/-- Where names are distinct, the resources are those that are found under them. -/
theorem map_some_resources {manifest : Manifest}
    (h : (manifest.resources.map Resource.name).Nodup) :
    manifest.resources.map some =
      (manifest.resources.map Resource.name).map manifest.resource? := by
  rw [List.map_map]
  refine List.map_congr_left fun resource hresource => ?_
  exact (find?_key_of_nodup h hresource).symm

/-! ## A run of registrations -/

theorem registerAll_concat (manifest : Manifest) (resources : List Resource)
    (resource : Resource) :
    manifest.registerAll (resources ++ [resource]) =
      ((manifest.registerAll resources).register resource).2 := by
  unfold registerAll
  rw [List.foldl_append]
  rfl

/-- Names stand in the order in which they were registered first. -/
theorem names_registerAll (resources : List Resource) :
    (registerAll {} resources).resources.map Resource.name =
      (resources.map Resource.name).eraseDups := by
  induction resources using List.reverseRecOn with
  | nil => rfl
  | append_singleton resources resource ih =>
      rw [registerAll_concat, List.map_append, List.map_singleton, eraseDups_concat, ← ih]
      show (place resource (registerAll {} resources).resources).map Resource.name = _
      rw [map_name_place, ih]
      simp only [List.mem_eraseDups]

theorem nodup_names_registerAll (resources : List Resource) :
    ((registerAll {} resources).resources.map Resource.name).Nodup := by
  induction resources using List.reverseRecOn with
  | nil => exact List.nodup_nil
  | append_singleton resources resource ih =>
      rw [registerAll_concat]
      show ((place resource (registerAll {} resources).resources).map Resource.name).Nodup
      rw [map_name_place]
      split
      · exact ih
      next hnew =>
        rw [← List.concat_eq_append]
        exact ih.concat hnew

/-- Under a name the resource is found that was registered last. -/
theorem resource?_registerAll (resources : List Resource) (name : String) :
    (registerAll {} resources).resource? name = lastNamed? resources name := by
  induction resources using List.reverseRecOn with
  | nil => rfl
  | append_singleton resources resource ih =>
      rw [registerAll_concat, resource?_register, ih]
      unfold lastNamed?
      rw [List.filter_append]
      by_cases hname : resource.name = name
      · simp [hname]
      · simp [hname]

/-! ## What a check says of names -/

/-- Only the names of resources can be the reason for the fault that one of them is there
twice. -/
theorem check_ne_duplicateResource {manifest : Manifest}
    (h : (manifest.resources.map Resource.name).Nodup) (settings : Settings)
    (name duplicate : String) :
    manifest.check settings name ≠ .error (.duplicateResource duplicate) := by
  have hunique : manifest.duplicateResource? = none := firstRepeat_nil_eq_none_iff.mpr h
  intro hcheck
  rcases check_eq_error.mp hcheck with ⟨other, hother, _⟩ | ⟨_, _, hfault⟩ |
    ⟨_, resource, _, hbuild⟩
  · rw [hunique] at hother
    cases hother
  · cases hfault
  · rcases build_eq_error.mp hbuild with ⟨after, hrun⟩ | ⟨_, _, cause, _, _, hfault⟩
    · exact (Expansion.refuses_compile _ resource _).of_error hrun
    · cases hfault

/-- A registration answers with the resource that was found under the name before, and only
what is found under this name changes.  After any run of registrations every name has one
resource: they stand in the order in which their names came first, each of them is the last
one of its name, and no check refuses them for their names. -/
theorem register_inOrder :
    (∀ (manifest : Manifest) (resource : Resource),
      (manifest.register resource).1 = manifest.resource? resource.name ∧
      ∀ name, (manifest.register resource).2.resource? name =
        if resource.name = name then some resource else manifest.resource? name) ∧
    ∀ resources : List Resource,
      ((registerAll {} resources).resources.map Resource.name).Nodup ∧
      (registerAll {} resources).resources.map Resource.name =
        (resources.map Resource.name).eraseDups ∧
      (registerAll {} resources).resources.map some =
        (resources.map Resource.name).eraseDups.map (lastNamed? resources) ∧
      ∀ settings name duplicate,
        (registerAll {} resources).check settings name ≠
          .error (.duplicateResource duplicate) := by
  refine ⟨?_, ?_⟩
  · intro manifest resource
    exact ⟨rfl, resource?_register manifest resource⟩
  · intro resources
    have hdistinct := nodup_names_registerAll resources
    refine ⟨hdistinct, names_registerAll resources, ?_, ?_⟩
    · rw [map_some_resources hdistinct, names_registerAll]
      exact List.map_congr_left fun name _ => resource?_registerAll resources name
    · intro settings name duplicate
      exact check_ne_duplicateResource hdistinct settings name duplicate

end Manifest
end TaskMachine
