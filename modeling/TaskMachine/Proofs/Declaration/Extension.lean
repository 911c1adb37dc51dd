import TaskMachine.Declaration.Reach
import Mathlib.Algebra.Order.BigOperators.Group.List
import Mathlib.Algebra.Order.Ring.Nat
import Mathlib.Data.List.Flatten
import Mathlib.Data.List.Forall2
import Mathlib.Data.List.Nodup
import Mathlib.Data.List.Perm.Subperm

/-!
# Manifests with more declarations, or with the same in another order

`Manifest.ExtendedBy manifest other`: all that is declared in the first manifest is
declared in the other one, which may have more resources and leaf tasks and go in any order.
`Manifest.ReorderedBy manifest other`: the order is all that differs.

Where names are unique (`Manifest.Distinct`), what is found under a name is found in the
extended manifest as well, and an expansion may go at least as deep in it
(`expansionLimit_le`).
-/

namespace TaskMachine

/-- No two resources have one name, and no two leaf tasks of one resource. -/
structure Manifest.Distinct (manifest : Manifest) : Prop where
  resources : (manifest.resources.map Resource.name).Nodup
  tasks : ∀ resource ∈ manifest.resources, (resource.tasks.map LeafTask.name).Nodup

/-- The leaf tasks of a resource are in another one, which may have more and go in another
order. -/
structure Resource.ExtendedBy (resource other : Resource) : Prop where
  name : other.name = resource.name
  source : other.source = resource.source
  kind : other.kind = resource.kind
  tasks : resource.tasks ⊆ other.tasks

/-- The resources of a manifest are in another one, which may have more and go in another
order. -/
def Manifest.ExtendedBy (manifest other : Manifest) : Prop :=
  ∀ resource ∈ manifest.resources, ∃ resource' ∈ other.resources,
    resource.ExtendedBy resource'

/-- The leaf tasks of a resource are in another one in any order. -/
structure Resource.ReorderedBy (resource other : Resource) : Prop where
  name : other.name = resource.name
  source : other.source = resource.source
  kind : other.kind = resource.kind
  tasks : resource.tasks.Perm other.tasks

/-- The resources of a manifest are in another one in any order, and so are their leaf
tasks. -/
def Manifest.ReorderedBy (manifest other : Manifest) : Prop :=
  ∃ resources, List.Forall₂ Resource.ReorderedBy manifest.resources resources ∧
    resources.Perm other.resources

theorem Resource.ReorderedBy.extendedBy {resource other : Resource}
    (h : resource.ReorderedBy other) :
    resource.ExtendedBy other ∧ other.ExtendedBy resource :=
  ⟨⟨h.name, h.source, h.kind, h.tasks.subset⟩,
    ⟨h.name.symm, h.source.symm, h.kind.symm, h.tasks.symm.subset⟩⟩

theorem exists_right_of_forall₂ {α β : Type} {related : α → β → Prop} {items : List α}
    {others : List β} (h : List.Forall₂ related items others) {item : α}
    (hitem : item ∈ items) : ∃ other ∈ others, related item other := by
  induction h with
  | nil => cases hitem
  | @cons first first' _ _ hfirst _ ih =>
      rcases List.mem_cons.mp hitem with rfl | hmem
      · exact ⟨first', List.mem_cons_self, hfirst⟩
      · obtain ⟨other, hother, hrelated⟩ := ih hmem
        exact ⟨other, List.mem_cons_of_mem first' hother, hrelated⟩

/-- A related item for each item, in their order. -/
theorem exists_forall₂_subset {α β : Type} {related : α → β → Prop} {items : List α}
    {others : List β} (h : ∀ item ∈ items, ∃ other ∈ others, related item other) :
    ∃ picked, List.Forall₂ related items picked ∧ picked ⊆ others := by
  induction items with
  | nil => exact ⟨[], .nil, List.nil_subset _⟩
  | cons item rest ih =>
      obtain ⟨other, hother, hrelated⟩ := h item List.mem_cons_self
      obtain ⟨picked, hpicked, hsubset⟩ :=
        ih fun later hlater => h later (List.mem_cons_of_mem item hlater)
      exact ⟨other :: picked, .cons hrelated hpicked, List.cons_subset.mpr ⟨hother, hsubset⟩⟩

/-- Two manifests that differ in their order have no more than each other. -/
theorem Manifest.ReorderedBy.extendedBy {manifest other : Manifest}
    (h : manifest.ReorderedBy other) :
    manifest.ExtendedBy other ∧ other.ExtendedBy manifest := by
  obtain ⟨resources, hresources, hperm⟩ := h
  constructor
  · intro resource hmem
    obtain ⟨resource', hmem', hreordered⟩ := exists_right_of_forall₂ hresources hmem
    exact ⟨resource', hperm.subset hmem', hreordered.extendedBy.1⟩
  · intro resource' hmem'
    have hflipped : List.Forall₂ (flip Resource.ReorderedBy) resources manifest.resources :=
      hresources.flip
    obtain ⟨resource, hmem, hreordered⟩ :=
      exists_right_of_forall₂ hflipped (hperm.symm.subset hmem')
    exact ⟨resource, hmem, (Resource.ReorderedBy.extendedBy hreordered).2⟩

/-! ## What is found by name -/

/-- Where keys are unique, an item is found by its key. -/
theorem find?_key_of_nodup {α : Type} {key : α → String} {items : List α}
    (hdistinct : (items.map key).Nodup) {item : α} (hitem : item ∈ items) :
    items.find? (fun other => key other == key item) = some item := by
  cases hfound : items.find? (fun other => key other == key item) with
  | none => simpa using List.find?_eq_none.mp hfound item hitem
  | some found =>
      have hkey : key found = key item := by simpa using List.find?_some hfound
      rw [List.inj_on_of_nodup_map hdistinct (List.mem_of_find?_eq_some hfound) hitem hkey]

namespace Manifest

variable {manifest other : Manifest}

theorem Distinct.resource? (h : manifest.Distinct) {resource : Resource}
    (hmem : resource ∈ manifest.resources) :
    manifest.resource? resource.name = some resource :=
  find?_key_of_nodup h.resources hmem

theorem Distinct.task? (h : manifest.Distinct) {resource : Resource}
    (hresource : resource ∈ manifest.resources) {task : LeafTask}
    (hmem : task ∈ resource.tasks) : resource.task? task.name = some task :=
  find?_key_of_nodup (h.tasks resource hresource) hmem

/-- A resource is the only one of its name. -/
theorem Distinct.eq_of_name (h : manifest.Distinct) {resource resource' : Resource}
    (hmem : resource ∈ manifest.resources) (hmem' : resource' ∈ manifest.resources)
    (hname : resource'.name = resource.name) : resource' = resource :=
  List.inj_on_of_nodup_map h.resources hmem' hmem hname

/-- A resource of a name in an extended manifest is the counterpart of that one. -/
theorem ExtendedBy.of_name (h : manifest.ExtendedBy other) (hdistinct : other.Distinct)
    {resource resource' : Resource} (hmem : resource ∈ manifest.resources)
    (hmem' : resource' ∈ other.resources) (hname : resource'.name = resource.name) :
    resource.ExtendedBy resource' := by
  obtain ⟨counterpart, hcounterpart, hextended⟩ := h resource hmem
  rw [hdistinct.eq_of_name hcounterpart hmem' (hname.trans hextended.name.symm)]
  exact hextended

end Manifest

/-! ## How deep an expansion may go -/

theorem subperm_flatMap {α β : Type} {items items' : List α} (f : α → List β)
    (h : items.Subperm items') : (items.flatMap f).Subperm (items'.flatMap f) := by
  obtain ⟨middle, hperm, hsublist⟩ := h
  exact ⟨middle.flatMap f, hperm.flatMap_right f, hsublist.flatMap f⟩

theorem Target.branchTotal_eq_sum (targets : List Target) :
    branchTotal targets = (targets.map branchCount).sum := by
  unfold branchTotal
  rw [List.sum_eq_foldr, List.foldr_map]

theorem Target.branchTotal_le {targets targets' : List Target}
    (h : targets.Subperm targets') : branchTotal targets ≤ branchTotal targets' := by
  obtain ⟨middle, hperm, hsublist⟩ := h
  rw [branchTotal_eq_sum, branchTotal_eq_sum, ← (hperm.map branchCount).sum_nat]
  exact (hsublist.map branchCount).sum_le_sum fun _ _ => Nat.zero_le _

namespace Manifest

variable {manifest other : Manifest}

/-- The counterparts of the resources of a manifest, each once. -/
theorem ExtendedBy.counterparts (h : manifest.ExtendedBy other) (hdistinct : manifest.Distinct) :
    ∃ resources, List.Forall₂ Resource.ExtendedBy manifest.resources resources ∧
      resources.Subperm other.resources := by
  obtain ⟨resources, hextended, hsubset⟩ := exists_forall₂_subset h
  have hnames : resources.map Resource.name = manifest.resources.map Resource.name := by
    rw [eq_comm, ← List.forall₂_eq_eq_eq, List.forall₂_map_left_iff,
      List.forall₂_map_right_iff]
    exact hextended.imp fun _ _ hcounterpart => hcounterpart.name.symm
  have hnodup : (resources.map Resource.name).Nodup := hnames ▸ hdistinct.resources
  exact ⟨resources, hextended, List.subperm_of_subset (.of_map _ hnodup) hsubset⟩

/-- What every resource brings is brought by the resources of an extended manifest. -/
theorem ExtendedBy.flatMap_subperm {α : Type} {brings : Resource → List α}
    (h : manifest.ExtendedBy other) (hdistinct : manifest.Distinct)
    (hbrings : ∀ resource ∈ manifest.resources, ∀ resource', resource.ExtendedBy resource' →
      (brings resource).Subperm (brings resource')) :
    (manifest.resources.flatMap brings).Subperm (other.resources.flatMap brings) := by
  obtain ⟨resources, hextended, hsubperm⟩ := h.counterparts hdistinct
  refine List.Subperm.trans ?_ (subperm_flatMap brings hsubperm)
  -- From here on it is about a resource and its counterpart, wherever that stands.
  clear hsubperm
  generalize manifest.resources = items at hextended hbrings
  induction hextended with
  | nil => exact List.Subperm.refl _
  | @cons resource resource' rest _ hresource _ ih =>
      rw [List.flatMap_cons, List.flatMap_cons]
      refine (hbrings resource List.mem_cons_self resource' hresource).append (ih ?_)
      exact fun later hlater => hbrings later (List.mem_cons_of_mem resource hlater)

end Manifest

variable {manifest other : Manifest}

theorem Resource.ExtendedBy.tasks_subperm {resource resource' : Resource}
    (h : resource.ExtendedBy resource') (hdistinct : (resource.tasks.map LeafTask.name).Nodup) :
    resource.tasks.Subperm resource'.tasks :=
  List.subperm_of_subset (.of_map _ hdistinct) h.tasks

theorem Resource.ExtendedBy.allTargets_subperm {resource resource' : Resource}
    (h : resource.ExtendedBy resource') (hdistinct : (resource.tasks.map LeafTask.name).Nodup) :
    resource.allTargets.Subperm resource'.allTargets := by
  unfold allTargets startAt
  rw [h.kind]
  exact (List.Subperm.refl _).append (subperm_flatMap _ (h.tasks_subperm hdistinct))

/-- An expansion may go at least as deep as before. -/
theorem expansionLimit_le (hdistinct : manifest.Distinct) (h : manifest.ExtendedBy other)
    {resource resource' : Resource} (hmem : resource ∈ manifest.resources)
    (hresource : resource.ExtendedBy resource') (entry : Target) :
    expansionLimit (resource :: manifest.resources) entry ≤
      expansionLimit (resource' :: other.resources) entry := by
  have hlength : manifest.resources.length ≤ other.resources.length := by
    obtain ⟨resources, hextended, hsubperm⟩ := h.counterparts hdistinct
    rw [hextended.length_eq]
    exact hsubperm.length_le
  have htasks : ((resource :: manifest.resources).flatMap Resource.tasks).Subperm
      ((resource' :: other.resources).flatMap Resource.tasks) := by
    rw [List.flatMap_cons, List.flatMap_cons]
    refine (hresource.tasks_subperm (hdistinct.tasks resource hmem)).append ?_
    exact h.flatMap_subperm hdistinct fun later hlater _ hcounterpart =>
      hcounterpart.tasks_subperm (hdistinct.tasks later hlater)
  have htargets : (entry.within ++
      (resource :: manifest.resources).flatMap Resource.allTargets).Subperm
      (entry.within ++ (resource' :: other.resources).flatMap Resource.allTargets) := by
    rw [List.flatMap_cons, List.flatMap_cons]
    refine (List.Subperm.refl _).append (.append ?_ ?_)
    · exact hresource.allTargets_subperm (hdistinct.tasks resource hmem)
    · exact h.flatMap_subperm hdistinct fun later hlater _ hcounterpart =>
        hcounterpart.allTargets_subperm (hdistinct.tasks later hlater)
  have hbranches := Target.branchTotal_le htargets
  have hleaves := htasks.length_le
  have hsize := htargets.length_le
  -- The limit is a product, and each factor counts one of these lists.
  unfold expansionLimit
  dsimp only
  refine Nat.mul_le_mul (Nat.mul_le_mul (Nat.mul_le_mul ?_ ?_) ?_) ?_
  · rw [List.length_cons, List.length_cons]
    exact Nat.add_le_add_right hlength 2
  · exact Nat.succ_le_succ hbranches
  · exact Nat.succ_le_succ hleaves
  · exact Nat.succ_le_succ hsize

end TaskMachine
