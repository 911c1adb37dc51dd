import TaskMachine.Compile.Path
import TaskMachine.Proofs.Expansion.Sites
import TaskMachine.Proofs.Json.Written
import TaskMachine.Proofs.Machine.Rendering

/-!
# Payloads in definitions

A payload goes through two maps: the bindings of a leaf task are kept by name, and the
fields of the rendered object by name too, but with `.$` at the end where a path is bound.
`Binding.ShownIn` is that a payload shows a binding as it is declared, and `ShowsEach` that
it has one entry for each of several bindings and no others.

Bindings with one name, or with one field, overwrite each other; where there are none, and
only there, a payload shows each binding (`showsEach_iff`).  What it shows are bindings in
any case (`exists_of_field?`).
-/

namespace TaskMachine

namespace SortedMap

variable {α : Type} {entries : List (String × α)}

theorem mem_of_get?_ofList {key : String} {value : α}
    (h : (ofList entries).get? key = some value) : (key, value) ∈ entries := by
  induction entries with
  | nil => cases h
  | cons entry rest ih =>
      rw [get?_ofList_cons, Option.or_eq_some_iff] at h
      rcases h with hrest | ⟨-, hentry⟩
      · exact List.mem_cons_of_mem entry (ih hrest)
      · split at hentry
        next hkey =>
          cases hentry
          rw [← hkey]
          exact List.mem_cons_self
        next => cases hentry

/-- The entries of a map of a list are of the list. -/
theorem entries_ofList_subset : (ofList entries).entries ⊆ entries := by
  rintro ⟨key, value⟩ hentry
  exact mem_of_get?_ofList (get?_eq_some_iff.mpr hentry)

theorem length_entries_ofList_le : (ofList entries).entries.length ≤ entries.length :=
  (List.subperm_of_subset (.of_map _ (nodup_keys _)) entries_ofList_subset).length_le

/-- A map with all entries of a list shows that they have keys of their own. -/
theorem nodup_of_length_le (h : entries.length ≤ (ofList entries).entries.length) :
    (entries.map Prod.fst).Nodup := by
  have hsubperm := List.subperm_of_subset (.of_map _ (nodup_keys (ofList entries)))
    entries_ofList_subset
  exact ((hsubperm.perm_of_length_le h).map Prod.fst).nodup_iff.mp (nodup_keys _)

end SortedMap

namespace Binding

/-- The field that shows a binding: a path is shown under the name with `.$` at its end. -/
def key (binding : Binding) : String :=
  match binding.reference with
  | .custom _ => binding.name
  | .execution _ | .input _ | .state _ | .machine _ | .task _ | .payload _ | .item _ =>
    binding.name ++ ".$"

/-- A payload shows a binding: the path that it is resolved to under its name, or its
literal. -/
inductive ShownIn (payload : Json) : Binding → Prop
  | path {name : String} {reference : Reference} {target : String}
      (hpath : reference.resolve (some name) = .path target)
      (h : payload.field? (name ++ ".$") = some (.str target)) :
      ShownIn payload ⟨name, reference⟩
  | custom {name : String} {value : Json} (h : payload.field? name = some value) :
      ShownIn payload ⟨name, .custom value⟩

/-- The field of a binding in a payload. -/
def field (binding : Binding) : String × Json :=
  (binding.reference.resolve (some binding.name)).definitionField binding.name

theorem key_eq (binding : Binding) : binding.key = binding.field.1 := by
  obtain ⟨name, reference⟩ := binding
  unfold field
  cases hresolve : reference.resolve (some name) with
  | path target =>
      cases reference with
      | custom value => cases hresolve
      | _ => rfl
  | literal value =>
      obtain rfl := Reference.resolve_eq_literal.mp hresolve
      rfl

theorem shownIn_iff {payload : Json} {binding : Binding} :
    binding.ShownIn payload ↔ payload.field? binding.field.1 = some binding.field.2 := by
  obtain ⟨name, reference⟩ := binding
  unfold field
  constructor
  · rintro (⟨hpath, h⟩ | h)
    · rw [hpath]
      exact h
    · exact h
  · intro h
    dsimp only at h
    cases hresolve : reference.resolve (some name) with
    | path target =>
        rw [hresolve] at h
        exact .path hresolve h
    | literal value =>
        obtain rfl := Reference.resolve_eq_literal.mp hresolve
        exact .custom h

end Binding

/-- A payload has one entry for each binding and no others. -/
structure ShowsEach (payload : Json) (bindings : List Binding) : Prop where
  keys : payload.keys.Perm (bindings.map Binding.key)
  shown : ∀ binding ∈ bindings, binding.ShownIn payload

/-- The payload of bindings in a definition. -/
def renderedPayload (bindings : List Binding) : Json :=
  PayloadValue.definition (.ofList (bindings.map Binding.resolve))

section Rendered

variable {bindings : List Binding}

/-- The fields of a payload, of which those with one key are yet to be put together. -/
def keptFields (bindings : List Binding) : List (String × Json) :=
  (SortedMap.ofList (bindings.map Binding.resolve)).entries.map
    fun (key, value) => value.definitionField key

theorem keptFields_subset : keptFields bindings ⊆ bindings.map Binding.field := by
  intro field hfield
  obtain ⟨entry, hentry, rfl⟩ := List.mem_map.mp hfield
  obtain ⟨binding, hbinding, rfl⟩ :=
    List.mem_map.mp (SortedMap.entries_ofList_subset hentry)
  exact List.mem_map_of_mem hbinding

theorem keptFields_perm (hnames : (bindings.map Binding.name).Nodup) :
    (keptFields bindings).Perm (bindings.map Binding.field) := by
  have hdistinct : ((bindings.map Binding.resolve).map Prod.fst).Nodup := by
    rw [List.map_map]
    exact hnames
  have hperm := (SortedMap.entries_ofList_perm hdistinct).map
    fun (key, value) => PayloadValue.definitionField key value
  rw [List.map_map] at hperm
  exact hperm

theorem map_key_eq (bindings : List Binding) :
    bindings.map Binding.key = (bindings.map Binding.field).map Prod.fst := by
  rw [List.map_map]
  exact List.map_congr_left fun binding _ => binding.key_eq

/-- Whatever a payload shows is a binding, as it is declared. -/
theorem exists_of_field? {key : String} {value : Json}
    (h : (renderedPayload bindings).field? key = some value) :
    ∃ binding ∈ bindings, binding.key = key ∧ binding.ShownIn (renderedPayload bindings) := by
  have hkept : (SortedMap.ofList (keptFields bindings)).get? key = some value := by
    rw [← Json.field?_obj]
    exact h
  obtain ⟨binding, hbinding, hfield⟩ :=
    List.mem_map.mp (keptFields_subset (SortedMap.mem_of_get?_ofList hkept))
  refine ⟨binding, hbinding, ?_, ?_⟩
  · rw [binding.key_eq, hfield]
  · rw [Binding.shownIn_iff, hfield]
    exact h

/-- A payload shows each binding exactly where no two have one name and no two one key. -/
theorem showsEach_iff : ShowsEach (renderedPayload bindings) bindings ↔
    (bindings.map Binding.name).Nodup ∧ (bindings.map Binding.key).Nodup := by
  have hkeys : (renderedPayload bindings).keys =
      (SortedMap.ofList (keptFields bindings)).keys := Json.keys_obj _
  constructor
  · rintro ⟨hperm, -⟩
    rw [hkeys] at hperm
    refine ⟨?_, hperm.nodup_iff.mp (SortedMap.nodup_keys _)⟩
    -- No entry is left out in either of the two maps.
    have hlength := hperm.length_eq
    rw [List.length_map, SortedMap.keys, List.length_map] at hlength
    have hkept : (SortedMap.ofList (keptFields bindings)).entries.length ≤
        (keptFields bindings).length := SortedMap.length_entries_ofList_le
    rw [keptFields, List.length_map, ← keptFields] at hkept
    have hall : (bindings.map Binding.resolve).length ≤
        (SortedMap.ofList (bindings.map Binding.resolve)).entries.length := by
      rw [List.length_map, ← hlength]
      exact hkept
    have hnames := SortedMap.nodup_of_length_le hall
    rw [List.map_map] at hnames
    exact hnames
  · rintro ⟨hnames, hdistinct⟩
    have hperm := keptFields_perm hnames
    rw [map_key_eq] at hdistinct
    have hkept := (hperm.map Prod.fst).nodup_iff.mpr hdistinct
    refine ⟨?_, ?_⟩
    · rw [hkeys, map_key_eq]
      exact (SortedMap.keys_ofList_perm hkept).trans (hperm.map Prod.fst)
    · intro binding hbinding
      rw [Binding.shownIn_iff]
      exact Json.field?_ofFields_of_mem hkept
        (hperm.mem_iff.mpr (List.mem_map_of_mem hbinding))

end Rendered

/-! ## Entries of states -/

/-- The payload that the entry of an invocation declares. -/
def Json.payload? (entry : Json) : Option Json :=
  (entry.field? "Parameters").bind fun parameters => parameters.field? "Payload"

/-- What an invocation hands on. -/
theorem State.payload?_definition {names : List String} {state : State}
    {invocation : Invocation} (hkind : state.kind = .invoke invocation) :
    (state.definition names).payload? = invocation.payload.map PayloadValue.definition := by
  unfold Json.payload?
  rw [State.field?_of_not_mem state (by simp), hkind]
  cases hpayload : invocation.payload <;>
    simp [StateKind.definitionFields, Invocation.definitionFields, hpayload]

namespace StateGraph

/-- An entry in the definition of a graph stands for a state, at some level. -/
inductive Shows : StateGraph → Json → State → Json → Prop
  | here {graph : StateGraph} {definition states entry : Json} {state : State}
      (hstates : definition.field? "States" = some states) (hstate : state ∈ graph.states)
      (hentry : states.field? state.name = some entry) : Shows graph definition state entry
  | inside {graph held : StateGraph} {definition states around inner entry : Json}
      {outer state : State} {index : Nat}
      (hstates : definition.field? "States" = some states) (houter : outer ∈ graph.states)
      (haround : states.field? outer.name = some around)
      (hheld : outer.kind.nested[index]? = some held)
      (hinner : around.nested[index]? = some inner) (h : Shows held inner state entry) :
      Shows graph definition state entry

theorem field?_states (graph : StateGraph) :
    graph.definition.field? "States" = some (.ofFields graph.entries) := by
  simp [definition_eq]

variable {graph : StateGraph} {definition : Json}

/-- The entries that stand for states are theirs. -/
theorem Shows.exists_inner {state : State} {entry : Json}
    (h : graph.Shows definition state entry)
    (hdistinct : ∀ inner ∈ graph.all, (inner.states.map State.name).Nodup)
    (hdefinition : definition.field? "States" = graph.definition.field? "States") :
    ∃ inner ∈ graph.all, state ∈ inner.states ∧
      entry = state.definition (inner.states.map State.name) := by
  induction h with
  | @here graph definition states entry state hstates hstate hentry =>
      rw [hdefinition, field?_states] at hstates
      cases hstates
      rw [field?_entries (hdistinct graph graph.self_mem_all) hstate] at hentry
      exact ⟨graph, graph.self_mem_all, hstate, (Option.some.inj hentry).symm⟩
  | @inside graph held definition states around inner entry outer state index hstates houter
      haround hheld hinner _ ih =>
      rw [hdefinition, field?_states] at hstates
      cases hstates
      rw [field?_entries (hdistinct graph graph.self_mem_all) houter] at haround
      cases haround
      -- What stands for a graph inside in that entry is its definition.
      have hmem : ∀ level ∈ held.all, level ∈ graph.all := fun level hlevel =>
        mem_all_of_held houter (List.mem_of_getElem? hheld) hlevel
      obtain ⟨level, hlevel, hstate, hentry⟩ :=
        ih (fun level hlevel => hdistinct level (hmem level hlevel))
          (field?_nested hheld hinner (by decide))
      exact ⟨level, hmem level hlevel, hstate, hentry⟩

/-- Every state, at any level, has an entry that stands for it. -/
theorem exists_shows (hdistinct : ∀ inner ∈ graph.all, (inner.states.map State.name).Nodup)
    (hdefinition : definition.field? "States" = graph.definition.field? "States") :
    ∀ inner ∈ graph.all, ∀ state ∈ inner.states,
      ∃ entry, graph.Shows definition state entry := by
  induction graph using nestedInduction generalizing definition with
  | step graph ih =>
      rw [field?_states] at hdefinition
      have hnames := hdistinct graph graph.self_mem_all
      intro inner hinner state hstate
      rcases mem_all_iff.mp hinner with rfl | ⟨outer, houter, held, hheld, hinner⟩
      · exact ⟨_, .here hdefinition hstate (field?_entries hnames hstate)⟩
      · obtain ⟨index, hindex⟩ := List.mem_iff_getElem?.mp hheld
        have haround := field?_entries hnames houter
        have hlength : (outer.definition (graph.states.map State.name)).nested.length =
            outer.kind.nested.length := State.length_nested_definition
        obtain ⟨hlt, -⟩ := List.getElem?_eq_some_iff.mp hindex
        have hnested := List.getElem?_eq_getElem (hlength ▸ hlt)
        obtain ⟨entry, hentry⟩ := ih outer houter held hheld
          (fun level hlevel => hdistinct level (mem_all_of_held houter hheld hlevel))
          (field?_nested hindex hnested (by decide)) inner hinner state hstate
        exact ⟨entry, .inside hdefinition houter haround hindex hnested hentry⟩

end StateGraph

end TaskMachine
