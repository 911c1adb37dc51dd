import TaskMachine.Proofs.Declaration.Sound
import TaskMachine.Proofs.Json.Written

/-!
# Declarations are read as they were written

For every type of a declaration: its reader takes a sound value out of what the value is
written as.

Guards and nodes are read down to a depth, which is that of the document they stand in.
What is inside them is written less deep, so it is read within one level less; the
inductions go over the depth.
-/

namespace TaskMachine

open Record

/-! ## References -/

theorem ExecutionField.reads (field : ExecutionField) : reader.Reads field.toJson field :=
  Reader.reads_oneOf (by cases field <;> rfl)

theorem StateField.reads (field : StateField) : reader.Reads field.toJson field :=
  Reader.reads_oneOf (by cases field <;> rfl)

theorem MachineField.reads (field : MachineField) : reader.Reads field.toJson field :=
  Reader.reads_oneOf (by cases field <;> rfl)

theorem TaskField.reads (field : TaskField) : reader.Reads field.toJson field :=
  Reader.reads_oneOf (by cases field; rfl)

theorem ItemField.reads (field : ItemField) : reader.Reads field.toJson field :=
  Reader.reads_oneOf (by cases field <;> rfl)

namespace Reference

/-- The fields have keys of their own, and none of them is that of a binding. -/
theorem nodup_fields (reference : Reference) :
    ("name" :: reference.fields.map Prod.fst).Nodup := by
  cases reference with
  | input source => cases source <;> simp [fields, Json.present]
  | _ => simp [fields]

/-- The context is the tag, and the rest of the fields are those of its structure. -/
theorem readsFields (reference : Reference) :
    reader.ReadsFields reference.fields reference := by
  cases reference with
  | execution field =>
      refine Reader.readsFields_tagged rfl (by simp) (.map ?_ _)
      exact reads_required (by simp) field.reads
  | input source =>
      refine Reader.readsFields_tagged rfl ?_ (.map ?_ _)
      · cases source <;> simp [Json.present]
      · exact reads_optional_str (by simp)
  | state field =>
      refine Reader.readsFields_tagged rfl (by simp) (.map ?_ _)
      exact reads_required (by simp) field.reads
  | machine field =>
      refine Reader.readsFields_tagged rfl (by simp) (.map ?_ _)
      exact reads_required (by simp) field.reads
  | task field =>
      refine Reader.readsFields_tagged rfl (by simp) (.map ?_ _)
      exact reads_required (by simp) field.reads
  | payload source =>
      refine Reader.readsFields_tagged rfl (by simp) (.map ?_ _)
      exact reads_required (by simp) (Reader.reads_str source)
  | item field =>
      refine Reader.readsFields_tagged rfl (by simp) (.map ?_ _)
      exact reads_required (by simp) field.reads
  | custom value =>
      refine Reader.readsFields_tagged rfl (by simp) (.map ?_ _)
      exact reads_required (by simp) (Reader.reads_json value)

theorem reads (reference : Reference) : reader.Reads reference.toJson reference :=
  reference.readsFields.reads (List.nodup_cons.mp reference.nodup_fields).2

end Reference

namespace Binding

theorem reads (binding : Binding) : reader.Reads binding.toJson binding := by
  have hname : "name" ∉ binding.reference.fields.map Prod.fst :=
    (List.nodup_cons.mp binding.reference.nodup_fields).1
  have hown : (required "name" Reader.str).Reads
      (("name", .str binding.name) :: binding.reference.fields) binding.name := by
    refine reads_required ?_ (Reader.reads_str binding.name)
    simp [under_eq_nil hname]
  -- What a binding leaves to its reference are the fields of the reference.
  have hothers : (("name", Json.str binding.name) :: binding.reference.fields).filter
      (fun field => !(["name"].contains field.1)) = binding.reference.fields := by
    rw [List.filter_cons_of_neg (by simp)]
    apply Reader.filter_others
    intro name hmem
    rw [List.mem_singleton.mp hmem]
    exact hname
  have hflattened := Reader.readsFields_flattened hown
    (hothers ▸ binding.reference.readsFields)
  exact Reader.ReadsFields.reads (hflattened.andThen rfl) binding.reference.nodup_fields

end Binding

namespace ValueSource

theorem reads (source : ValueSource) : reader.Reads source.toJson source := by
  apply Reader.reads_untagged
  cases source with
  | path source => rfl
  | reference target =>
      have hread := target.reads .aside
      unfold Reference.toJson at hread
      rw [Document.ofJson_ofFields] at hread
      unfold toJson Reference.toJson
      rw [Document.ofJson_ofFields]
      simp only [hread]
      rfl

theorem toJson_ne_null (source : ValueSource) : source.toJson ≠ .null := by
  cases source with
  | path source => exact Json.str_ne_null source
  | reference target => exact Json.ofFields_ne_null target.fields

end ValueSource

/-! ## Functions -/

theorem Runtime.reads (runtime : Runtime) : reader.Reads runtime.toJson runtime := by
  refine (Reader.reads_uint8 runtime.version).andThen ?_
  rw [ofVersion?_version]
  rfl

theorem EnvEntry.reads (entry : EnvEntry) : reader.Reads entry.toJson entry := by
  apply Reader.reads_untagged
  cases entry with
  | inherited name => rfl
  | literal values =>
      have hread := Reader.reads_map_json values .aside
      unfold toJson
      rw [Document.ofJson_obj] at hread ⊢
      simp only [hread]
      rfl

namespace FunctionSettings

/-- The fields of written settings. -/
def fields (function : FunctionSettings) : List (String × Json) :=
  Json.present "timeout" (.nat ·.toNat) function.timeout ++
    Json.present "memory" (.nat ·.toNat) function.memory ++
    [("runtime", function.runtime.toJson)] ++
    Json.nonEmpty "env" EnvEntry.toJson function.env ++
    Json.nonEmpty "tags" .str function.tags ++
    [("enable_trace", .bool function.tracing)]

theorem nodup_fields (function : FunctionSettings) :
    (function.fields.map Prod.fst).Nodup := by
  unfold fields
  simp only [List.map_append]
  have hkeys := (((((Json.keys_present "timeout" (fun time : UInt32 => .nat time.toNat)
    function.timeout).append (Json.keys_present "memory" (fun size : UInt32 => .nat size.toNat)
    function.memory)).append (List.Sublist.refl ["runtime"])).append
    (Json.keys_nonEmpty "env" EnvEntry.toJson function.env)).append
    (Json.keys_nonEmpty "tags" Json.str function.tags)).append
    (List.Sublist.refl ["enable_trace"])
  exact hkeys.nodup (by decide)

theorem reads (function : FunctionSettings) : reader.Reads function.toJson function := by
  refine Reader.ReadsFields.reads (Reader.readsFields_record ?_) function.nodup_fields
  refine .seq (.seq (.seq (.seq (.seq (.map ?_ _) ?_) ?_) ?_) ?_) ?_
  · exact reads_optional_uint32 (by simp)
  · exact reads_optional_uint32 (by simp)
  · exact reads_defaulted (by simp) function.runtime.reads
  · exact reads_defaulted_list EnvEntry.toJson (by simp) fun entry _ => entry.reads
  · exact reads_defaulted_list Json.str (by simp) fun tag _ => Reader.reads_str tag
  · exact reads_defaulted (by simp) (Reader.reads_bool function.tracing)

end FunctionSettings

theorem CodeLocation.reads (location : CodeLocation) :
    reader.Reads location.toJson location := by
  refine Reader.ReadsFields.reads (Reader.readsFields_record ?_) (by simp)
  refine .seq (.map ?_ _) ?_
  · exact reads_required (by simp) (Reader.reads_str location.folder)
  · exact reads_required (by simp) (Reader.reads_str location.file)

/-! ## Guards -/

namespace Guard

theorem nodup_fields (guard : Guard) : (guard.fields.map Prod.fst).Nodup := by
  cases guard <;> simp [fields]

theorem writeAll_eq_map (guards : List Guard) : writeAll guards = guards.map toJson := by
  induction guards with
  | nil => rfl
  | cons guard rest ih => simp [writeAll, ih, toJson]

theorem toJson_ne_null (guard : Guard) : guard.toJson ≠ .null :=
  Json.ofFields_ne_null guard.fields

/-- The fields of a guard are read flat, whatever they say together. -/
theorem reads_record {inner : Reader Guard} {all : List (String × Json)} {flat : Flat}
    (hmode : under ["mode"] all = [.str flat.mode])
    (hsubject : under ["variable"] all = (flat.subject.map ValueSource.toJson).toList)
    (hvalue : under ["value"] all = flat.value.toList)
    (hnull : ∀ value ∈ flat.value, value ≠ .null)
    (hcondition : under ["condition"] all = (flat.condition.map toJson).toList)
    (hinner : ∀ guard ∈ flat.condition, inner.Reads guard.toJson guard)
    (hconditions : under ["conditions"] all =
      (flat.conditions.map fun guards => .arr (guards.map toJson)).toList)
    (hall : ∀ guards ∈ flat.conditions, ∀ guard ∈ guards, inner.Reads guard.toJson guard) :
    (record inner).Reads all flat := by
  refine .seq (.seq (.seq (.seq (.map ?_ _) ?_) ?_) ?_) ?_
  · exact reads_required hmode (Reader.reads_str flat.mode)
  · refine reads_optional ValueSource.toJson hsubject ?_
    intro subject _
    exact ⟨subject.reads, subject.toJson_ne_null⟩
  · refine reads_optional id (by simpa using hvalue) ?_
    intro value hmem
    exact ⟨Reader.reads_json value, hnull value hmem⟩
  · refine reads_optional toJson hcondition ?_
    intro guard hmem
    exact ⟨hinner guard hmem, guard.toJson_ne_null⟩
  · refine reads_optional (fun guards => .arr (guards.map toJson)) hconditions ?_
    intro guards hmem
    exact ⟨Reader.reads_list (hall guards hmem), Json.arr_ne_null _⟩

/-- The field that holds a guard is not as deep as the guard that it belongs to. -/
theorem depth_lt {guard : Guard} {key : String} {value : Json}
    (h : (key, value) ∈ guard.fields) : value.depth < guard.toJson.depth :=
  Json.depth_lt_ofFields guard.nodup_fields h

theorem readsFields_readerTo (depth : Nat) (guard : Guard) (hsound : guard.Sound)
    (hdepth : guard.toJson.depth ≤ depth) :
    (readerTo depth).ReadsFields guard.fields guard := by
  induction depth generalizing guard with
  | zero =>
      -- A guard is an object, and no object has depth zero.
      have hpositive := Json.depth_ofFields guard.nodup_fields
      unfold toJson at hdepth
      omega
  | succ depth ih =>
      have hinner : ∀ inner : Guard, inner.Sound → inner.toJson.depth ≤ depth →
          (readerTo depth).Reads inner.toJson inner := by
        intro inner hinner hle
        exact (ih inner hinner hle).reads inner.nodup_fields
      cases guard with
      | comparison mode subject value =>
          -- The mode is a plain one, so it is read as a comparison again.
          obtain ⟨⟨hand, hor, hnot⟩, hnull⟩ := hsound
          have hflat : (record (readerTo depth)).Reads (comparison mode subject value).fields
              ⟨mode, some subject, some value, none, none⟩ := by
            refine reads_record ?_ ?_ ?_ ?_ ?_ ?_ ?_ ?_
            all_goals simp [fields, hnull]
          refine (Reader.readsFields_record hflat).andThen ?_
          simp [ofFlat, need, hand, hor, hnot, Except.map]
      | check mode subject =>
          obtain ⟨hand, hor, hnot⟩ := hsound
          have hflat : (record (readerTo depth)).Reads (check mode subject).fields
              ⟨mode, some subject, none, none, none⟩ := by
            refine reads_record ?_ ?_ ?_ ?_ ?_ ?_ ?_ ?_
            all_goals simp [fields]
          refine (Reader.readsFields_record hflat).andThen ?_
          simp [ofFlat, need, hand, hor, hnot, Except.map]
      | not condition =>
          have hfield : ("condition", condition.toJson) ∈ (Guard.not condition).fields := by
            simp [fields, toJson]
          have hlt := depth_lt hfield
          have hread := hinner condition hsound (by omega)
          have hflat : (record (readerTo depth)).Reads (Guard.not condition).fields
              ⟨"not", none, none, some condition, none⟩ := by
            refine reads_record ?_ ?_ ?_ ?_ ?_ ?_ ?_ ?_
            all_goals simp [fields, toJson]
            exact hread
          exact (Reader.readsFields_record hflat).andThen rfl
      | combined combinator conditions =>
          have hfield : ("conditions", Json.arr (conditions.map toJson)) ∈
              (combined combinator conditions).fields := by
            simp [fields, writeAll_eq_map]
          have hlt := depth_lt hfield
          have hread : ∀ condition ∈ conditions,
              (readerTo depth).Reads condition.toJson condition := by
            intro condition hcondition
            have hitem := Json.depth_lt_arr (List.mem_map_of_mem (f := toJson) hcondition)
            exact hinner condition (allSound_iff.mp hsound condition hcondition) (by omega)
          have hflat : (record (readerTo depth)).Reads (combined combinator conditions).fields
              ⟨combinator.keyword, none, none, none, some conditions⟩ := by
            refine reads_record ?_ ?_ ?_ ?_ ?_ ?_ ?_ ?_
            all_goals simp [fields, writeAll_eq_map, Combinator.toJson]
            exact hread
          refine (Reader.readsFields_record hflat).andThen ?_
          cases combinator <;> rfl

theorem readsFields (guard : Guard) (h : guard.Sound) :
    reader.ReadsFields guard.fields guard :=
  Reader.readsFields_of_depth guard.nodup_fields fun depth hdepth =>
    readsFields_readerTo depth guard h hdepth

theorem reads (guard : Guard) (h : guard.Sound) : reader.Reads guard.toJson guard :=
  (guard.readsFields h).reads guard.nodup_fields

end Guard

/-! ## Targets -/

theorem writeTarget_eq_present (key : String) (next : Option Target) :
    writeTarget key next = Json.present key Target.toJson next := by
  cases next <;> simp [writeTarget, Json.present]

theorem writeTargets_eq_map (targets : List Target) :
    writeTargets targets = targets.map Target.toJson := by
  induction targets with
  | nil => simp [writeTargets]
  | cons target rest ih => simp [writeTargets, ih]

theorem writeBranches_eq_map (branches : List ChoiceBranch) :
    writeBranches branches = branches.map ChoiceBranch.toJson := by
  induction branches with
  | nil => simp [writeBranches]
  | cons branch rest ih => simp [writeBranches, ih]

/-- The fields of a written node beside the one of its kind. -/
def ControlNode.members : ControlNode → List (String × Json)
  | .wait seconds next => [("seconds", .nat seconds.toNat), ("next", next.toJson)]
  | .fail cause error => [("cause", .str cause), ("error", .str error)]
  | .pass next ended => ("end", .bool ended) :: Json.present "next" Target.toJson next
  | .succeed => []
  | .choice branches otherwise =>
    ("choices", .arr (branches.map ChoiceBranch.toJson)) ::
      Json.present "default" Target.toJson otherwise
  | .parallel branches next ended =>
    ("branches", .arr (branches.map Target.toJson)) :: ("end", .bool ended) ::
      Json.present "next" Target.toJson next
  | .map items processor maxConcurrency next =>
    ("items_path", items.toJson) :: ("item_processor", .str processor) ::
      (Json.present "max_concurrency" (.nat ·.toNat) maxConcurrency ++
        Json.present "next" Target.toJson next)

namespace ControlNode

theorem toJson_eq (node : ControlNode) :
    node.toJson = .ofFields (("type", .str node.kind) :: node.members) := by
  cases node <;>
    simp [toJson, members, kind, writeTarget_eq_present, writeTargets_eq_map,
      writeBranches_eq_map]

/-- The kind and the other fields of a node have keys of their own. -/
theorem nodup_fields (node : ControlNode) :
    ((("type", Json.str node.kind) :: node.members).map Prod.fst).Nodup := by
  cases node with
  | pass next ended => cases next <;> simp [members, Json.present]
  | choice branches otherwise => cases otherwise <;> simp [members, Json.present]
  | parallel branches next ended => cases next <;> simp [members, Json.present]
  | map items processor maxConcurrency next =>
      cases maxConcurrency <;> cases next <;> simp [members, Json.present]
  | _ => simp [members]

theorem type_not_mem_members (node : ControlNode) :
    "type" ∉ node.members.map Prod.fst :=
  (List.nodup_cons.mp node.nodup_fields).1

/-- What a node holds is not as deep as the node. -/
theorem depth_lt {node : ControlNode} {key : String} {value : Json}
    (h : (key, value) ∈ node.members) : value.depth < node.toJson.depth := by
  rw [toJson_eq]
  exact Json.depth_lt_ofFields node.nodup_fields (List.mem_cons_of_mem _ h)

end ControlNode

theorem Target.toJson_ne_null (target : Target) : target.toJson ≠ .null := by
  cases target with
  | leaf name =>
      unfold toJson
      exact Json.str_ne_null name
  | inline node =>
      unfold toJson
      rw [ControlNode.toJson_eq]
      exact Json.ofFields_ne_null _

theorem Target.reads_readerBy {node : Reader ControlNode} (target : Target)
    (h : ∀ control, target = .inline control → node.Reads control.toJson control) :
    (readerBy node).Reads target.toJson target := by
  apply Reader.reads_untagged
  cases target with
  | leaf name =>
      unfold toJson
      rfl
  | inline control =>
      have hread := h control rfl .aside
      rw [ControlNode.toJson_eq, Document.ofJson_ofFields] at hread
      unfold toJson
      rw [ControlNode.toJson_eq, Document.ofJson_ofFields]
      simp only [hread]
      rfl

namespace ChoiceBranch

/-- The fields of a written branch. -/
def fields (branch : ChoiceBranch) : List (String × Json) :=
  branch.guard.fields ++ [("next", branch.next.toJson)]

theorem toJson_eq (branch : ChoiceBranch) : branch.toJson = .ofFields branch.fields := by
  obtain ⟨guard, next⟩ := branch
  simp [toJson, fields]

theorem next_not_mem_fields (guard : Guard) : "next" ∉ guard.fields.map Prod.fst := by
  cases guard <;> simp [Guard.fields]

theorem nodup_fields (branch : ChoiceBranch) : (branch.fields.map Prod.fst).Nodup := by
  unfold fields
  rw [List.map_append, List.nodup_append]
  refine ⟨branch.guard.nodup_fields, by simp, ?_⟩
  rintro key hkey other hother rfl
  rw [List.map_singleton, List.mem_singleton] at hother
  rw [hother] at hkey
  exact next_not_mem_fields branch.guard hkey

theorem depth_lt (branch : ChoiceBranch) :
    branch.next.toJson.depth < branch.toJson.depth := by
  have hmem : ("next", branch.next.toJson) ∈ branch.fields := by simp [fields]
  rw [toJson_eq]
  exact Json.depth_lt_ofFields branch.nodup_fields hmem

theorem reads_readerBy {target : Reader Target} (branch : ChoiceBranch)
    (hguard : branch.guard.Sound) (hnext : target.Reads branch.next.toJson branch.next) :
    (readerBy target).Reads branch.toJson branch := by
  have hown : (required "next" target).Reads branch.fields branch.next := by
    refine reads_required ?_ hnext
    simp [fields, under_eq_nil (next_not_mem_fields branch.guard)]
  have hothers : branch.fields.filter (fun field => !(["next"].contains field.1)) =
      branch.guard.fields := by
    unfold fields
    rw [List.filter_append, Reader.filter_others]
    · simp
    · intro name hname
      rw [List.mem_singleton.mp hname]
      exact next_not_mem_fields branch.guard
  have hflattened := Reader.readsFields_flattened hown
    (hothers ▸ branch.guard.readsFields hguard)
  rw [toJson_eq]
  refine Reader.ReadsFields.reads (.andThen hflattened ?_) branch.nodup_fields
  obtain ⟨guard, next⟩ := branch
  rfl

end ChoiceBranch

namespace ControlNode

/-- The fields of a node are read, given a reader for what is inside it. -/
theorem reads_kinds {target : Reader Target} (node : ControlNode) (hsound : node.Sound)
    (h : ∀ next : Target, next.Sound → next.toJson.depth < node.toJson.depth →
      target.Reads next.toJson next) :
    (Reader.tagged "type" (kinds target)).ReadsFields
      (("type", .str node.kind) :: node.members) node := by
  -- Every node but the first has its successor under one key, or none.
  have hnext : ∀ key (next : Option Target), soundTarget next →
      under [key] node.members = (next.map Target.toJson).toList →
      (optional [key] target).Reads node.members next := by
    intro key next hall hunder
    refine reads_optional Target.toJson hunder ?_
    intro inner hinner
    have hmem : inner.toJson ∈ under [key] node.members := by
      rw [hunder, hinner]
      exact List.mem_singleton_self _
    obtain ⟨field, hfield, hvalue⟩ := List.mem_map.mp hmem
    have hlt := depth_lt (List.mem_of_mem_filter hfield)
    rw [hvalue] at hlt
    exact ⟨h inner (soundTarget_iff.mp hall inner hinner) hlt, inner.toJson_ne_null⟩
  cases node with
  | wait seconds next =>
      have hmem : ("next", next.toJson) ∈ (wait seconds next).members := by simp [members]
      refine Reader.readsFields_tagged rfl (type_not_mem_members _) (.seq (.map ?_ _) ?_)
      · exact reads_required (by simp [members]) (Reader.reads_uint64 seconds)
      · exact reads_required (by simp [members]) (h next hsound (depth_lt hmem))
  | fail cause error =>
      refine Reader.readsFields_tagged rfl (type_not_mem_members _) (.seq (.map ?_ _) ?_)
      · exact reads_required (by simp [members]) (Reader.reads_str cause)
      · exact reads_required (by simp [members]) (Reader.reads_str error)
  | pass next ended =>
      refine Reader.readsFields_tagged rfl (type_not_mem_members _) (.seq (.map ?_ _) ?_)
      · exact hnext "next" next hsound (by simp [members])
      · exact reads_defaulted (by simp [members]) (Reader.reads_bool ended)
  | succeed => exact Reader.readsFields_tagged rfl (type_not_mem_members _) reads_pure
  | choice branches otherwise =>
      obtain ⟨hbranches, hotherwise⟩ := hsound
      have hmem : ("choices", .arr (branches.map ChoiceBranch.toJson)) ∈
          (choice branches otherwise).members := by simp [members]
      have hlt := depth_lt hmem
      refine Reader.readsFields_tagged rfl (type_not_mem_members _) (.seq (.map ?_ _) ?_)
      · -- The target of a branch is three levels down, in the branch and the list of branches.
        refine reads_required (by simp [members]; rfl) (Reader.reads_list ?_)
        intro branch hbranch
        have hsound := soundBranches_iff.mp hbranches branch hbranch
        obtain ⟨hguard, hafter⟩ := ChoiceBranch.sound_iff.mp hsound
        have hitem := Json.depth_lt_arr (List.mem_map_of_mem (f := ChoiceBranch.toJson) hbranch)
        have hinner := branch.depth_lt
        exact branch.reads_readerBy hguard (h branch.next hafter (by omega))
      · exact hnext "default" otherwise hotherwise (by simp [members])
  | parallel branches next ended =>
      obtain ⟨hbranches, hafter⟩ := hsound
      have hmem : ("branches", .arr (branches.map Target.toJson)) ∈
          (parallel branches next ended).members := by simp [members]
      have hlt := depth_lt hmem
      refine Reader.readsFields_tagged rfl (type_not_mem_members _)
        (.seq (.seq (.map ?_ _) ?_) ?_)
      · refine reads_required (by simp [members]; rfl) (Reader.reads_list ?_)
        intro branch hbranch
        have hitem := Json.depth_lt_arr (List.mem_map_of_mem (f := Target.toJson) hbranch)
        exact h branch (soundTargets_iff.mp hbranches branch hbranch) (by omega)
      · exact hnext "next" next hafter (by simp [members])
      · exact reads_defaulted (by simp [members]) (Reader.reads_bool ended)
  | map items processor maxConcurrency next =>
      refine Reader.readsFields_tagged rfl (type_not_mem_members _)
        (.seq (.seq (.seq (.map ?_ _) ?_) ?_) ?_)
      · exact reads_required (by simp [members]) items.reads
      · exact reads_required (by simp [members]) (Reader.reads_str processor)
      · exact reads_optional_uint32 (by simp [members])
      · exact hnext "next" next hsound (by simp [members])

theorem readsFields_readerTo (depth : Nat) (node : ControlNode) (hsound : node.Sound)
    (hdepth : node.toJson.depth ≤ depth) :
    (readerTo depth).ReadsFields (("type", .str node.kind) :: node.members) node := by
  induction depth generalizing node with
  | zero =>
      have hpositive := Json.depth_ofFields node.nodup_fields
      rw [toJson_eq] at hdepth
      omega
  | succ depth ih =>
      refine node.reads_kinds hsound ?_
      intro next hnext hlt
      apply next.reads_readerBy
      rintro control rfl
      have hcontrol : control.Sound := by simpa [Target.Sound] using hnext
      have hle : control.toJson.depth ≤ depth := by
        simp only [Target.toJson] at hlt
        omega
      rw [toJson_eq]
      exact (ih control hcontrol hle).reads control.nodup_fields

theorem reads (node : ControlNode) (h : node.Sound) : reader.Reads node.toJson node := by
  have hfields : reader.ReadsFields (("type", .str node.kind) :: node.members) node := by
    refine Reader.readsFields_of_depth node.nodup_fields ?_
    intro depth hdepth
    rw [← toJson_eq] at hdepth
    exact readsFields_readerTo depth node h hdepth
  rw [toJson_eq]
  exact hfields.reads node.nodup_fields

end ControlNode

theorem Target.reads (target : Target) (h : target.Sound) :
    reader.Reads target.toJson target := by
  apply target.reads_readerBy
  rintro control rfl
  exact control.reads (by simpa [Sound] using h)

theorem ChoiceBranch.reads (branch : ChoiceBranch) (h : branch.Sound) :
    reader.Reads branch.toJson branch := by
  obtain ⟨hguard, hnext⟩ := sound_iff.mp h
  exact branch.reads_readerBy hguard (branch.next.reads hnext)

/-! ## Tasks -/

theorem RetryRule.reads (rule : RetryRule) (h : rule.Sound) :
    reader.Reads rule.toJson rule := by
  refine Reader.ReadsFields.reads (Reader.readsFields_record ?_) ?_
  · refine .seq (.seq (.seq (.map ?_ _) ?_) ?_) ?_
    · exact reads_required (by simp) (Reader.reads_strings rule.errorEquals)
    · exact reads_optional_uint32 (by simp)
    · exact reads_optional_uint32 (by simp)
    · refine reads_optional Double.toJson (by simp) ?_
      intro rate hrate
      have hfinite := h rate hrate
      unfold Double.toJson
      rw [if_pos hfinite]
      exact ⟨Reader.reads_double rate, Json.number_ne_null _⟩
  · have hkeys := ((Json.keys_present "interval_seconds"
      (fun seconds : UInt32 => .nat seconds.toNat) rule.intervalSeconds).append
      (Json.keys_present "max_attempts" (fun attempts : UInt32 => .nat attempts.toNat)
      rule.maxAttempts)).append
      (Json.keys_present "backoff_rate" Double.toJson rule.backoffRate)
    simp only [List.map_cons, List.map_append]
    exact (hkeys.cons_cons "error_equals").nodup (by decide)

theorem CatchRule.reads (rule : CatchRule) (h : rule.Sound) :
    reader.Reads rule.toJson rule := by
  refine Reader.ReadsFields.reads (Reader.readsFields_record ?_) ?_
  · refine .seq (.seq (.map ?_ _) ?_) ?_
    · exact reads_required (by simp) (Reader.reads_strings rule.errorEquals)
    · exact reads_required (by simp) (rule.next.reads h)
    · exact reads_optional_str (by simp)
  · have hkeys := Json.keys_present "result_path" Json.str rule.resultPath
    simp only [List.map_cons]
    exact ((hkeys.cons_cons "next").cons_cons "error_equals").nodup (by decide)

namespace LeafTask

/-- The fields of a written task. -/
def fields (task : LeafTask) : List (String × Json) :=
  ("name", .str task.name) :: ("function", task.function.toJson) ::
    (Json.nonEmpty "params" Binding.toJson task.params ++
      Json.nonEmpty "retry" RetryRule.toJson task.retry ++
      Json.nonEmpty "catch" CatchRule.toJson task.catches ++
      Json.present "next" Target.toJson task.next ++
      [("end", .bool task.ended)])

theorem nodup_fields (task : LeafTask) : (task.fields.map Prod.fst).Nodup := by
  unfold fields
  simp only [List.map_cons, List.map_append]
  have hlists := ((Json.keys_nonEmpty "params" Binding.toJson task.params).append
    (Json.keys_nonEmpty "retry" RetryRule.toJson task.retry)).append
    (Json.keys_nonEmpty "catch" CatchRule.toJson task.catches)
  have hkeys := (hlists.append (Json.keys_present "next" Target.toJson task.next)).append
    (List.Sublist.refl ["end"])
  exact ((hkeys.cons_cons "function").cons_cons "name").nodup (by decide)

theorem reads (task : LeafTask) (h : task.Sound) : reader.Reads task.toJson task := by
  refine Reader.ReadsFields.reads (Reader.readsFields_record ?_) task.nodup_fields
  refine .seq (.seq (.seq (.seq (.seq (.seq (.map ?_ _) ?_) ?_) ?_) ?_) ?_) ?_
  · exact reads_required (by simp) (Reader.reads_str task.name)
  · exact reads_defaulted (by simp) task.function.reads
  · exact reads_defaulted_list Binding.toJson (by simp) fun binding _ => binding.reads
  · exact reads_defaulted_list RetryRule.toJson (by simp) fun rule hrule =>
      rule.reads (h.retry rule hrule)
  · exact reads_defaulted_list CatchRule.toJson (by simp) fun rule hrule =>
      rule.reads (h.catches rule hrule)
  · refine reads_optional Target.toJson (by simp) ?_
    intro target htarget
    exact ⟨target.reads (h.next target htarget), target.toJson_ne_null⟩
  · exact reads_defaulted (by simp) (Reader.reads_bool task.ended)

end LeafTask

/-! ## Resources -/

theorem ProcessorMode.reads (mode : ProcessorMode) : reader.Reads mode.toJson mode :=
  Reader.reads_oneOf (by cases mode <;> rfl)

theorem ExecutionType.reads (type : ExecutionType) : reader.Reads type.toJson type :=
  Reader.reads_oneOf (by cases type <;> rfl)

namespace ResourceKind

theorem keys_fields (kind : ResourceKind) :
    (kind.fields.map Prod.fst).Sublist ["type", "start_at", "mode", "execution_type"] := by
  cases kind with
  | stateMachine startAt =>
      show ["type", "start_at"].Sublist _
      decide
  | mapIterator startAt mode executionType =>
      have hkeys := (Json.keys_present "mode" ProcessorMode.toJson mode).append
        (Json.keys_present "execution_type" ExecutionType.toJson executionType)
      simp only [fields, List.map_cons, List.map_append]
      exact (hkeys.cons_cons "start_at").cons_cons "type"

theorem readsFields (kind : ResourceKind) (h : kind.startAt.Sound) :
    reader.ReadsFields kind.fields kind := by
  cases kind with
  | stateMachine startAt =>
      refine Reader.readsFields_tagged rfl (by simp) (.map ?_ _)
      exact reads_required (by simp) (startAt.reads h)
  | mapIterator startAt mode executionType =>
      refine Reader.readsFields_tagged rfl ?_ (.seq (.seq (.map ?_ _) ?_) ?_)
      · cases mode <;> cases executionType <;> simp [Json.present]
      · exact reads_required (by simp) (startAt.reads h)
      · refine reads_optional ProcessorMode.toJson (by simp) ?_
        intro inner _
        exact ⟨inner.reads, Json.str_ne_null _⟩
      · refine reads_optional ExecutionType.toJson (by simp) ?_
        intro inner _
        exact ⟨inner.reads, Json.str_ne_null _⟩

end ResourceKind

namespace Resource

/-- The fields of a written resource. -/
def fields (resource : Resource) : List (String × Json) :=
  ("name", .str resource.name) :: ("source", resource.source.toJson) ::
    (resource.kind.fields ++ [("tasks", .arr (resource.tasks.map LeafTask.toJson))])

theorem nodup_fields (resource : Resource) : (resource.fields.map Prod.fst).Nodup := by
  have hkeys := resource.kind.keys_fields.append (List.Sublist.refl ["tasks"])
  unfold fields
  simp only [List.map_cons, List.map_append]
  exact ((hkeys.cons_cons "source").cons_cons "name").nodup (by decide)

/-- The fields of a kind are none of those that a resource reads itself. -/
theorem not_mem_kind_fields (kind : ResourceKind) :
    ∀ name ∈ ["name", "source", "tasks"], name ∉ kind.fields.map Prod.fst := by
  intro name hname hmem
  have hkey := kind.keys_fields.subset hmem
  simp only [List.mem_cons, List.not_mem_nil, or_false] at hname hkey
  rcases hname with rfl | rfl | rfl <;> simp at hkey

theorem reads_record (resource : Resource) (h : resource.Sound) :
    record.Reads resource.fields (resource.name, resource.source, resource.tasks) := by
  have hkind := not_mem_kind_fields resource.kind
  refine .seq (.seq (.map ?_ _) ?_) ?_
  · have hname := under_eq_nil (hkind "name" (by simp))
    exact reads_required (by simp [fields, hname]) (Reader.reads_str resource.name)
  · have hsource := under_eq_nil (hkind "source" (by simp))
    exact reads_required (by simp [fields, hsource]) resource.source.reads
  · have htasks := under_eq_nil (hkind "tasks" (by simp))
    refine reads_defaulted (by simp [fields, htasks]; rfl) (Reader.reads_list ?_)
    intro task htask
    exact task.reads (h.tasks task htask)

theorem filter_fields (resource : Resource) :
    resource.fields.filter (fun field => !record.names.contains field.1) =
      resource.kind.fields := by
  have hnames : record.names = ["name", "source", "tasks"] := rfl
  have hkind := Reader.filter_others (not_mem_kind_fields resource.kind)
  unfold fields
  rw [hnames, List.filter_cons_of_neg (by simp), List.filter_cons_of_neg (by simp),
    List.filter_append, hkind]
  simp

theorem reads (resource : Resource) (h : resource.Sound) :
    reader.Reads resource.toJson resource := by
  have hflattened := Reader.readsFields_flattened (resource.reads_record h)
    (resource.filter_fields ▸ resource.kind.readsFields h.startAt)
  exact Reader.ReadsFields.reads (hflattened.andThen rfl) resource.nodup_fields

end Resource

theorem Manifest.reads (manifest : Manifest) (h : manifest.Sound) :
    reader.Reads manifest.toJson manifest := by
  refine Reader.ReadsFields.reads (Reader.readsFields_record ?_) (by simp)
  refine .map ?_ _
  refine reads_defaulted (by simp; rfl) (Reader.reads_list ?_)
  intro resource hresource
  exact resource.reads (h resource hresource)

end TaskMachine
