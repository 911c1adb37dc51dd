import TaskMachine.Compute.Unit
import TaskMachine.Machine.Stored
import TaskMachine.Proofs.Declaration.Rereading
import TaskMachine.Proofs.Machine.Nesting

/-!
# Stored machines are read as they were written

For every type that a compiled machine is made of, and for the handles of its functions: its
reader takes a value out of what the value is written as.  All that is asked of a machine is
that its backoff rates are finite, since JSON has no other numbers; its entry and its
transitions may lead anywhere.

Conditions and graphs are read down to the depth of the document they stand in, so the
inductions go over the depth, as for guards.
-/

namespace TaskMachine

open Record

/-! ## Conditions -/

theorem Comparator.reads (comparator : Comparator) :
    reader.Reads comparator.toJson comparator :=
  Reader.reads_oneOf (by cases comparator <;> rfl)

theorem Operand.reads (operand : Operand) : reader.Reads operand.toJson operand := by
  cases operand with
  | value literal =>
      exact Reader.reads_named rfl (Reader.reads_wrapped ((Reader.reads_json literal).andThen rfl))
  | path target =>
      exact Reader.reads_named rfl (Reader.reads_wrapped ((Reader.reads_str target).andThen rfl))
  | flag expected =>
      exact Reader.reads_named rfl
        (Reader.reads_wrapped ((Reader.reads_bool expected).andThen rfl))

namespace Condition

theorem writeAll_eq_map (conditions : List Condition) :
    writeAll conditions = conditions.map toJson := by
  induction conditions with
  | nil => rfl
  | cons condition rest ih => simp [writeAll, ih]

theorem reads_readerTo (depth : Nat) (condition : Condition)
    (hdepth : condition.toJson.depth ≤ depth) :
    (readerTo depth).Reads condition.toJson condition := by
  induction depth generalizing condition with
  | zero =>
      -- Every condition is an object, and no object has depth zero.
      cases condition <;>
        simp [toJson, Json.depth, Document.ofJson_ofFields, Document.depth] at hdepth
  | succ depth ih =>
      have hall : ∀ (name : String) (conditions : List Condition),
          (Json.ofFields [(name, .arr (conditions.map toJson))]).depth ≤ depth + 1 →
          (Reader.list (readerTo depth)).Reads (.arr (conditions.map toJson)) conditions := by
        intro name conditions hle
        have hlt := Json.depth_lt_single name (.arr (conditions.map toJson))
        apply Reader.reads_list
        intro inner hinner
        have hitem := Json.depth_lt_arr (List.mem_map_of_mem (f := toJson) hinner)
        exact ih inner (by omega)
      cases condition with
      | and conditions =>
          rw [toJson, writeAll_eq_map] at hdepth ⊢
          exact Reader.reads_named rfl
            (Reader.reads_wrapped ((hall "And" conditions hdepth).andThen rfl))
      | or conditions =>
          rw [toJson, writeAll_eq_map] at hdepth ⊢
          exact Reader.reads_named rfl
            (Reader.reads_wrapped ((hall "Or" conditions hdepth).andThen rfl))
      | not inner =>
          rw [toJson] at hdepth ⊢
          have hlt := Json.depth_lt_single "Not" inner.toJson
          have hread := ih inner (by omega)
          exact Reader.reads_named rfl (Reader.reads_wrapped (hread.andThen rfl))
      | compare subject comparator operand =>
          rw [toJson]
          refine Reader.reads_named rfl (Reader.reads_structured ?_ (by simp))
          refine .seq (.seq (.map ?_ _) ?_) ?_
          · exact reads_required (by simp) (Reader.reads_str subject)
          · exact reads_required (by simp) comparator.reads
          · exact reads_required (by simp) operand.reads

theorem reads (condition : Condition) : reader.Reads condition.toJson condition :=
  fun circumstance => reads_readerTo _ condition (Nat.le_refl _) circumstance

end Condition

/-! ## Parts of states -/

namespace PayloadValue

theorem reads (value : PayloadValue) : reader.Reads value.toJson value := by
  cases value with
  | path target =>
      exact Reader.reads_named rfl (Reader.reads_wrapped ((Reader.reads_str target).andThen rfl))
  | literal value =>
      exact Reader.reads_named rfl (Reader.reads_wrapped ((Reader.reads_json value).andThen rfl))

theorem reads_map (payload : SortedMap PayloadValue) :
    (Reader.map reader).Reads (mapToJson payload) payload :=
  Reader.reads_map fun entry _ => entry.2.reads

/-- A payload without entries is an object too, so it is not taken for no payload. -/
theorem mapToJson_ne_null (payload : SortedMap PayloadValue) : mapToJson payload ≠ .null := by
  intro h
  cases congrArg Json.raw h

end PayloadValue

theorem CatchTransition.reads (transition : CatchTransition) :
    reader.Reads transition.toJson transition := by
  refine Reader.ReadsFields.reads (Reader.readsFields_record ?_) (by simp)
  refine .seq (.seq (.map ?_ _) ?_) ?_
  · exact reads_required (by simp) (Reader.reads_strings transition.errorEquals)
  · exact reads_required (by simp) (Reader.reads_natural transition.next)
  · exact reads_nullable_str (by simp)

theorem ChoiceTransition.reads (transition : ChoiceTransition) :
    reader.Reads transition.toJson transition := by
  refine Reader.ReadsFields.reads (Reader.readsFields_record ?_) (by simp)
  refine .seq (.map ?_ _) ?_
  · exact reads_required (by simp) transition.condition.reads
  · exact reads_required (by simp) (Reader.reads_natural transition.next)

namespace Invocation

/-- The backoff rates of an invocation are finite. -/
def Sound (invocation : Invocation) : Prop :=
  ∀ rule ∈ invocation.retry, rule.Sound

theorem reads (invocation : Invocation) (h : invocation.Sound) :
    reader.Reads invocation.toJson invocation := by
  refine Reader.ReadsFields.reads (Reader.readsFields_record ?_) (by simp)
  refine .seq (.seq (.seq (.seq (.seq (.map ?_ _) ?_) ?_) ?_) ?_) ?_
  · exact reads_required (by simp) (Reader.reads_str invocation.task)
  · exact reads_required (by simp) (Reader.reads_str invocation.functionName)
  · refine reads_nullable PayloadValue.mapToJson (by simp) ?_
    intro payload _
    exact ⟨PayloadValue.reads_map payload, PayloadValue.mapToJson_ne_null payload⟩
  · exact reads_required (by simp) (Reader.reads_str invocation.resultPath)
  · refine reads_required (by simp; rfl) (Reader.reads_list ?_)
    intro rule hrule
    exact rule.reads (h rule hrule)
  · refine reads_required (by simp; rfl) (Reader.reads_list ?_)
    intro transition _
    exact transition.reads

end Invocation

theorem MapSettings.reads_configReader (settings : MapSettings) :
    configReader.Reads (.ofFields
      [("mode", .nullable ProcessorMode.toJson settings.mode),
        ("execution_type", .nullable ExecutionType.toJson settings.executionType)])
      (settings.mode, settings.executionType) := by
  refine Reader.ReadsFields.reads (Reader.readsFields_record ?_) (by simp)
  refine .seq (.map ?_ _) ?_
  · refine reads_nullable ProcessorMode.toJson (by simp) ?_
    intro mode _
    exact ⟨mode.reads, Json.str_ne_null _⟩
  · refine reads_nullable ExecutionType.toJson (by simp) ?_
    intro type _
    exact ⟨type.reads, Json.str_ne_null _⟩

/-! ## States -/

theorem writeStates_eq_map (states : List State) :
    writeStates states = states.map State.toJson := by
  induction states with
  | nil => simp [writeStates]
  | cons state rest ih => simp [writeStates, ih]

theorem writeGraphs_eq_map (graphs : List StateGraph) :
    writeGraphs graphs = graphs.map StateGraph.toJson := by
  induction graphs with
  | nil => simp [writeGraphs]
  | cons graph rest ih => simp [writeGraphs, ih]

namespace StateGraph

/-- The backoff rates of a graph and of the graphs inside are finite. -/
def Sound (graph : StateGraph) : Prop :=
  ∀ inner ∈ graph.all, ∀ state ∈ inner.states, ∀ invocation,
    state.kind = .invoke invocation → invocation.Sound

/-- The fields of a written graph. -/
def fields (graph : StateGraph) : List (String × Json) :=
  [("start", .nat graph.start), ("states", .arr (graph.states.map State.toJson)),
    ("tasks", .obj (graph.tasks.mapValues .nat))]

theorem toJson_eq (graph : StateGraph) : graph.toJson = .ofFields graph.fields := by
  obtain ⟨start, states, tasks⟩ := graph
  simp [toJson, fields, writeStates_eq_map]

theorem nodup_fields (graph : StateGraph) : (graph.fields.map Prod.fst).Nodup := by
  simp [fields]

end StateGraph

namespace StateKind

/-- The backoff rates of a kind of state, and of the graphs inside, are finite. -/
def Sound : StateKind → Prop
  | .invoke invocation => invocation.Sound
  | .parallel branches => ∀ branch ∈ branches, branch.Sound
  | .map _ processor => processor.Sound
  | .wait _ | .fail _ _ | .pass | .succeed | .choice _ _ => True

theorem sound_iff {kind : StateKind} :
    kind.Sound ↔ (∀ invocation, kind = .invoke invocation → invocation.Sound) ∧
      ∀ held ∈ kind.nested, held.Sound := by
  cases kind <;> simp [Sound, nested]

/-- A graph inside a state is less deep than the state. -/
theorem depth_lt {kind : StateKind} {held : StateGraph} (h : held ∈ kind.nested) :
    held.toJson.depth < kind.toJson.depth := by
  cases kind with
  | parallel branches =>
      have hmem : held.toJson ∈ branches.map StateGraph.toJson := List.mem_map_of_mem h
      have hitem := Json.depth_lt_arr hmem
      have hlist := Json.depth_lt_single "branches" (.arr (branches.map StateGraph.toJson))
      have hkind := Json.depth_lt_single "Parallel"
        (.ofFields [("branches", .arr (branches.map StateGraph.toJson))])
      rw [toJson, writeGraphs_eq_map]
      omega
  | map settings processor =>
      rw [List.mem_singleton.mp h, toJson]
      have hdistinct :
          ((("processor", processor.toJson) :: settings.fields).map Prod.fst).Nodup := by
        simp [MapSettings.fields]
      have hlt := Json.depth_lt_ofFields hdistinct List.mem_cons_self
      have hkind := Json.depth_lt_single "Map"
        (.ofFields (("processor", processor.toJson) :: settings.fields))
      omega
  | invoke _ | wait _ | fail _ _ | pass | succeed | choice _ _ => cases h

/-- A kind of state is read, given a reader for the graphs inside. -/
theorem reads_forms {graph : Reader StateGraph} (kind : StateKind) (hsound : kind.Sound)
    (h : ∀ held ∈ kind.nested, graph.Reads held.toJson held) :
    (Reader.named (forms graph)).Reads kind.toJson kind := by
  cases kind with
  | invoke invocation =>
      have hread := invocation.reads hsound
      rw [toJson]
      exact Reader.reads_named rfl (Reader.reads_wrapped (hread.andThen rfl))
  | wait seconds =>
      rw [toJson]
      refine Reader.reads_named rfl (Reader.reads_structured (.map ?_ _) (by simp))
      exact reads_required (by simp) (Reader.reads_uint64 seconds)
  | fail cause error =>
      rw [toJson]
      refine Reader.reads_named rfl (Reader.reads_structured (.seq (.map ?_ _) ?_) (by simp))
      · exact reads_required (by simp) (Reader.reads_str cause)
      · exact reads_required (by simp) (Reader.reads_str error)
  | pass =>
      rw [toJson]
      exact Reader.reads_named_bare rfl
  | succeed =>
      rw [toJson]
      exact Reader.reads_named_bare rfl
  | choice choices otherwise =>
      rw [toJson]
      refine Reader.reads_named rfl (Reader.reads_wrapped ?_)
      refine Reader.ReadsFields.reads (Reader.readsFields_record (.seq (.map ?_ _) ?_)) (by simp)
      · refine reads_required (by simp; rfl) (Reader.reads_list ?_)
        intro transition _
        exact transition.reads
      · exact reads_nullable_natural (by simp)
  | parallel branches =>
      rw [toJson, writeGraphs_eq_map]
      refine Reader.reads_named rfl (Reader.reads_wrapped ?_)
      refine Reader.ReadsFields.reads (Reader.readsFields_record (.map ?_ _)) (by simp)
      exact reads_required (by simp) (Reader.reads_list h)
  | map settings processor =>
      have hprocessor := h processor List.mem_cons_self
      rw [toJson]
      refine Reader.reads_named rfl (Reader.reads_wrapped ?_)
      refine Reader.ReadsFields.reads (Reader.readsFields_record ?_) (by simp [MapSettings.fields])
      have hconfig : (required "processor_config" MapSettings.configReader).Reads
          (("processor", processor.toJson) :: settings.fields)
          (settings.mode, settings.executionType) :=
        reads_required (by simp [MapSettings.fields]) settings.reads_configReader
      refine .seq (.seq (.seq (.seq (.map ?_ _) ?_) ?_) ?_)
        (f := fun config : Option ProcessorMode × Option ExecutionType =>
          StateKind.map ⟨settings.itemsPath, settings.itemSelector, settings.maxConcurrency,
            config.1, config.2⟩ processor) hconfig
      · exact reads_required (by simp [MapSettings.fields]) (Reader.reads_str settings.itemsPath)
      · exact reads_required (by simp [MapSettings.fields])
          (PayloadValue.reads_map settings.itemSelector)
      · refine reads_nullable (fun limit => Json.nat limit.toNat) (by simp [MapSettings.fields]) ?_
        intro limit _
        exact ⟨Reader.reads_uint32 limit, Json.nat_ne_null _⟩
      · exact reads_required (by simp [MapSettings.fields]) hprocessor

end StateKind

namespace State

/-- The backoff rates of a state and of the graphs inside are finite. -/
def Sound (state : State) : Prop := state.kind.Sound

/-- The fields of a written state. -/
def fields (state : State) : List (String × Json) :=
  [("name", .str state.name), ("kind", state.kind.toJson), ("next", .nullable .nat state.next)]

theorem toJson_eq (state : State) : state.toJson = .ofFields state.fields := by
  obtain ⟨name, kind, next⟩ := state
  simp [toJson, fields]

theorem nodup_fields (state : State) : (state.fields.map Prod.fst).Nodup := by
  simp [fields]

theorem depth_lt (state : State) : state.kind.toJson.depth < state.toJson.depth := by
  have hfield : (("kind", state.kind.toJson) : String × Json) ∈ state.fields := by simp [fields]
  rw [toJson_eq]
  exact Json.depth_lt_ofFields state.nodup_fields hfield

/-- A state is read, given a reader for the graphs inside. -/
theorem reads_record {graph : Reader StateGraph} (state : State) (hsound : state.Sound)
    (h : ∀ held ∈ state.kind.nested, graph.Reads held.toJson held) :
    (record graph).reader.Reads state.toJson state := by
  rw [toJson_eq]
  refine Reader.ReadsFields.reads (Reader.readsFields_record ?_) state.nodup_fields
  obtain ⟨name, kind, next⟩ := state
  refine .seq (.seq (.map ?_ _) ?_) ?_
  · exact reads_required (by simp [fields]) (Reader.reads_str name)
  · exact reads_required (by simp [fields]) (kind.reads_forms hsound h)
  · exact reads_nullable_natural (by simp [fields])

end State

/-! ## Graphs -/

namespace StateGraph

/-- A graph has finite rates if its states have. -/
theorem sound_iff {graph : StateGraph} : graph.Sound ↔ ∀ state ∈ graph.states, state.Sound := by
  constructor
  · intro h state hstate
    refine StateKind.sound_iff.mpr ⟨h graph graph.self_mem_all state hstate, ?_⟩
    intro held hheld inner hinner
    exact h inner (mem_all_of_held hstate hheld hinner)
  · intro h inner hinner
    rcases mem_all_iff.mp hinner with rfl | ⟨state, hstate, held, hheld, hinner⟩
    · exact fun state hstate => (StateKind.sound_iff.mp (h state hstate)).1
    · exact (StateKind.sound_iff.mp (h state hstate)).2 held hheld inner hinner

theorem depth_lt {graph : StateGraph} {state : State} (h : state ∈ graph.states) :
    state.toJson.depth < graph.toJson.depth := by
  have hitem := Json.depth_lt_arr (List.mem_map_of_mem (f := State.toJson) h)
  have hfield : (("states", .arr (graph.states.map State.toJson)) : String × Json) ∈
      graph.fields := by simp [fields]
  have hlist := Json.depth_lt_ofFields graph.nodup_fields hfield
  rw [toJson_eq]
  omega

theorem readsFields_readerTo (depth : Nat) (graph : StateGraph) (hsound : graph.Sound)
    (hdepth : graph.toJson.depth ≤ depth) :
    (readerTo depth).ReadsFields graph.fields graph := by
  induction depth generalizing graph with
  | zero =>
      have hpositive := Json.depth_ofFields graph.nodup_fields
      rw [toJson_eq] at hdepth
      omega
  | succ depth ih =>
      -- A graph inside a state is read with the depth that is left below the state.
      have hstates : ∀ state ∈ graph.states,
          (State.record (readerTo depth)).reader.Reads state.toJson state := by
        intro state hstate
        have hlt := depth_lt hstate
        have hstateSound := sound_iff.mp hsound state hstate
        obtain ⟨_, hinner⟩ := StateKind.sound_iff.mp hstateSound
        refine state.reads_record hstateSound ?_
        intro held hheld
        have hkind := StateKind.depth_lt hheld
        have hinside := state.depth_lt
        rw [toJson_eq]
        exact (ih held (hinner held hheld) (by omega)).reads held.nodup_fields
      obtain ⟨start, states, tasks⟩ := graph
      refine Reader.readsFields_record (.seq (.seq (.map ?_ _) ?_) ?_)
      · exact reads_required (by simp [fields]) (Reader.reads_natural start)
      · exact reads_required (by simp [fields]) (Reader.reads_list hstates)
      · refine reads_required (by simp [fields]; rfl) (Reader.reads_map ?_)
        intro entry _
        exact Reader.reads_natural entry.2

theorem reads (graph : StateGraph) (h : graph.Sound) : reader.Reads graph.toJson graph := by
  have hfields : reader.ReadsFields graph.fields graph := by
    refine Reader.readsFields_of_depth graph.nodup_fields ?_
    intro depth hdepth
    rw [← toJson_eq] at hdepth
    exact readsFields_readerTo depth graph h hdepth
  rw [toJson_eq]
  exact hfields.reads graph.nodup_fields

end StateGraph

theorem StateKind.reads (kind : StateKind) (h : kind.Sound) :
    (Reader.named (forms StateGraph.reader)).Reads kind.toJson kind :=
  kind.reads_forms h fun held hheld => held.reads ((sound_iff.mp h).2 held hheld)

theorem State.reads (state : State) (h : state.Sound) : reader.Reads state.toJson state :=
  state.reads_record h fun held hheld => held.reads ((StateKind.sound_iff.mp h).2 held hheld)

namespace StateMachine

/-- The backoff rates of a machine are finite. -/
def Sound (machine : StateMachine) : Prop := machine.graph.Sound

theorem reads (machine : StateMachine) (h : machine.Sound) :
    reader.Reads machine.toJson machine := by
  refine Reader.ReadsFields.reads (Reader.readsFields_record ?_) (by simp)
  refine .seq (.map ?_ _) ?_
  · exact reads_required (by simp) (Reader.reads_str machine.name)
  · exact reads_required (by simp) (machine.graph.reads h)

end StateMachine

/-! ## Handles -/

namespace UnitHandle

theorem nodup_fields (handle : UnitHandle) : (handle.fields.map Prod.fst).Nodup := by
  have henvironment : ((if handle.environment.isEmpty then []
      else [("environment", Json.obj (handle.environment.mapValues .str))]).map
        Prod.fst).Sublist ["environment"] := by
    split <;> simp
  have hkeys := (((((List.Sublist.refl ["function_name", "task", "handler", "code_path",
    "exclude", "runtime"]).append (Json.keys_present "memory"
    (fun size : UInt32 => .nat size.toNat) handle.memory)).append
    (Json.keys_present "timeout" (fun time : UInt32 => .nat time.toNat) handle.timeout)).append
    henvironment).append (Json.keys_nonEmpty "tags" Json.str handle.tags)).append
    (List.Sublist.refl ["tracing"])
  unfold fields
  simp only [List.map_append]
  exact hkeys.nodup (by decide)

theorem reads (handle : UnitHandle) : reader.Reads handle.toJson handle := by
  refine Reader.ReadsFields.reads (Reader.readsFields_record ?_) handle.nodup_fields
  refine .seq (.seq (.seq (.seq (.seq (.seq (.seq (.seq (.seq (.seq (.map ?_ _) ?_) ?_) ?_) ?_)
    ?_) ?_) ?_) ?_) ?_) ?_
  · exact reads_required (by simp [fields]) (Reader.reads_str handle.functionName)
  · exact reads_required (by simp [fields]) (Reader.reads_str handle.task)
  · exact reads_required (by simp [fields]) (Reader.reads_str handle.handler)
  · exact reads_required (by simp [fields]) (Reader.reads_str handle.codePath)
  · exact reads_required (by simp [fields]) (Reader.reads_strings handle.exclude)
  · exact reads_required (by simp [fields]) (Reader.reads_str handle.runtime)
  · exact reads_optional_uint32 (by simp [fields])
  · exact reads_optional_uint32 (by simp [fields])
  · -- An environment without variables is left out.
    by_cases hempty : handle.environment.isEmpty
    · rw [SortedMap.eq_empty_of_isEmpty hempty]
      exact reads_field_missing (by simp [fields, hempty])
    · refine reads_defaulted (by simp [fields, hempty]; rfl) (Reader.reads_map ?_)
      intro entry _
      exact Reader.reads_str entry.2
  · exact reads_defaulted_list Json.str (by simp [fields]) fun tag _ => Reader.reads_str tag
  · exact reads_defaulted (by simp [fields]) (Reader.reads_bool handle.tracing)

end UnitHandle

end TaskMachine
