import TaskMachine.Proofs.Compilation.Agreement
import TaskMachine.Proofs.Compilation.Outcome
import TaskMachine.Proofs.Compilation.Rendered
import TaskMachine.Proofs.Compute.Ownership
import TaskMachine.Proofs.Expansion.OwnNames

/-!
# Every invocation has a function of its own

A compilation keeps functions under the names of resource and leaf task, and a registry
keeps them under generated names.  Where generated names are apart the two come to the
same: a machine has, for every leaf task that it invokes at any depth, one function of the
name that is invoked, and that is the function of the leaf task (`CompiledMachine.Owns`).

Where they are not apart a machine gets a function that was built for another one
(`compile_own_functions_hyphenated`).
-/

namespace TaskMachine

/-! ## Tables of what came -/

namespace UnitTable

theorem put_of_forall_ne {key : String × String} {handle : UnitHandle}
    {entries : List ((String × String) × UnitHandle)} (h : ∀ entry ∈ entries, entry.1 ≠ key) :
    put key handle entries = entries ++ [(key, handle)] := by
  induction entries with
  | nil => rfl
  | cons entry rest ih =>
      rw [put, if_neg (h entry List.mem_cons_self)]
      rw [ih fun other hother => h other (List.mem_cons_of_mem entry hother)]
      rfl

/-- If no leaf task is served twice, what is served is put behind what is there. -/
theorem entries_insertAll {served : List (UnitRequest × UnitHandle)} {table : UnitTable}
    (h : (table.entries.map Prod.fst ++
      served.map fun pair => (pair.1.resource, pair.1.handler)).Nodup) :
    (table.insertAll served).entries =
      table.entries ++ served.map fun pair => ((pair.1.resource, pair.1.handler), pair.2) := by
  induction served generalizing table with
  | nil => exact (List.append_nil _).symm
  | cons pair rest ih =>
      have hentries : (table.insert pair.1.resource pair.1.handler pair.2).entries =
          table.entries ++ [((pair.1.resource, pair.1.handler), pair.2)] := by
        refine put_of_forall_ne ?_
        intro entry hentry heq
        have hdisjoint := List.disjoint_of_nodup_append h
        refine hdisjoint (List.mem_map_of_mem hentry) ?_
        rw [heq]
        exact List.mem_cons_self
      have hrest : ((table.insert pair.1.resource pair.1.handler pair.2).insertAll rest).entries
          = _ := ih (by
        rw [hentries, List.map_append, List.append_assoc]
        exact h)
      rw [hentries, List.append_assoc] at hrest
      exact hrest

/-- A table has the functions that came for its requests, in an order of its own. -/
theorem handles_insertAll {requests : List UnitRequest} {handles : List UnitHandle}
    (hlength : requests.length = handles.length)
    (hdistinct : (requests.map fun request => (request.resource, request.handler)).Nodup) :
    (({} : UnitTable).insertAll (requests.zip handles)).handles.Perm handles := by
  have hkeys : ((requests.zip handles).map fun pair => (pair.1.resource, pair.1.handler)) =
      requests.map fun request => (request.resource, request.handler) := by
    have hmap := congrArg (List.map fun request : UnitRequest =>
      (request.resource, request.handler)) (List.map_fst_zip (Nat.le_of_eq hlength))
    rwa [List.map_map] at hmap
  -- No entry takes the place of another one, so the table is in the order of the requests.
  have hentries : (({} : UnitTable).insertAll (requests.zip handles)).entries = _ :=
    entries_insertAll (by
      rw [hkeys]
      exact hdistinct)
  have hcame : (({} : UnitTable).insertAll (requests.zip handles)).entries.map Prod.snd =
      handles := by
    rw [hentries, List.map_append, List.map_map]
    exact List.map_snd_zip (Nat.le_of_eq hlength.symm)
  unfold UnitTable.handles
  rw [hcame]
  exact List.mergeSort_perm handles _

end UnitTable

/-! ## What a plan asks for -/

/-- A plan with the settings of a compilation that asks for declared leaf tasks only. -/
structure Plan.For (plan : Plan) (manifest : Manifest) (settings : Settings) : Prop where
  namePrefix : plan.namePrefix = settings.handlerPrefix
  exclusions : plan.exclusions = settings.exclusions
  declared : ∀ request ∈ plan.requests, ∃ resource leaf, manifest.Declares resource leaf ∧
    request = settings.request resource leaf

namespace Plan

variable {manifest : Manifest} {settings : Settings}

theorem for_ofSettings : (ofSettings settings).For manifest settings :=
  ⟨rfl, rfl, fun _ hrequest => absurd hrequest List.not_mem_nil⟩

theorem For.add {plan : Plan} (h : plan.For manifest settings) {resource : Resource}
    {leaf : LeafTask} (hdeclares : manifest.Declares resource leaf) :
    (plan.add resource leaf).For manifest settings := by
  unfold Plan.add
  split
  · exact h
  · refine ⟨h.namePrefix, h.exclusions, ?_⟩
    intro request hrequest
    rcases List.mem_append.mp hrequest with hrequest | hrequest
    · exact h.declared request hrequest
    · obtain rfl := List.mem_singleton.mp hrequest
      refine ⟨resource, leaf, hdeclares, ?_⟩
      unfold Plan.request
      rw [h.namePrefix, h.exclusions]
      rfl

end Plan

namespace Manifest

variable {manifest : Manifest} {settings : Settings} {name : String}

/-- The plan of a check has one request for every leaf task that it asks for, and asks for
declared ones only. -/
theorem plan_of_check {plan : Plan} (h : manifest.check settings name = .ok plan) :
    plan.Distinct ∧ plan.For manifest settings := by
  obtain ⟨dry, hdry, rfl⟩ := check_eq_ok.mp h
  obtain ⟨_, resource, progress, hresource, hbuild, hparts⟩ := dryRun_eq_ok.mp hdry
  obtain ⟨graph, hrun, _, _⟩ := build_eq_ok.mp hbuild
  have hunits : dry.plan = progress.units := by rw [hparts]
  obtain ⟨_, _, _, hdistinct⟩ :=
    (Expansion.traces_compile Plan.names_source List.nodup_nil resource).of_ok hrun
  have hpreserves : Plan.source.Preserves manifest (fun plan => plan.For manifest settings) :=
    fun _ _ _ hdeclares hplan => hplan.add hdeclares
  have hasks : Expansion.Asks (fun plan => plan.For manifest settings)
      (Expansion.compile ⟨manifest, settings, Plan.source⟩ resource) :=
    Expansion.asks_compile hpreserves (resource?_name hresource)
  rw [hunits]
  exact ⟨hdistinct, (hasks _ Plan.for_ofSettings).of_ok hrun⟩

end Manifest

/-! ## One function of a name -/

/-- Where values are distinct, one item has the value of an item. -/
theorem filter_eq_singleton_of_nodup_map {α β : Type} [DecidableEq β] {value : α → β}
    {items : List α} {item : α} (h : (items.map value).Nodup) (hitem : item ∈ items) :
    items.filter (fun other => value other == value item) = [item] := by
  induction items with
  | nil => cases hitem
  | cons first rest ih =>
      obtain ⟨hfirst, hrest⟩ := List.nodup_cons.mp h
      rcases List.mem_cons.mp hitem with rfl | hmem
      · rw [List.filter_cons_of_pos (by simp)]
        congr 1
        rw [List.filter_eq_nil_iff]
        intro other hother hsame
        have heq : value other = value item := by simpa using hsame
        exact hfirst (heq ▸ List.mem_map_of_mem hother)
      · rw [List.filter_cons_of_neg, ih hrest hmem]
        intro hsame
        have heq : value first = value item := by simpa using hsame
        exact hfirst (heq ▸ List.mem_map_of_mem hmem)

namespace UnitRegistry

variable {manifest : Manifest} {settings : Settings} {requests : List UnitRequest}
  {handles : List UnitHandle}

/-- The functions that came have the names that were asked for. -/
theorem map_functionName_of_owned
    (h : List.Forall₂ (Owned manifest settings) requests handles) :
    handles.map UnitHandle.functionName = requests.map UnitRequest.functionName := by
  induction h with
  | nil => rfl
  | @cons request handle rest handles howned _ ih =>
      obtain ⟨resource, leaf, _, rfl, hbuilt⟩ := howned
      rw [List.map_cons, List.map_cons, ih, hbuilt.functionName,
        Settings.functionName_request]

/-- If no leaf task is asked for twice, and names are apart, every function has a name of
its own. -/
theorem nodup_functionName_of_owned (hapart : manifest.NamesApart settings)
    (hdistinct : (requests.map fun request => (request.resource, request.handler)).Nodup)
    (hdeclared : ∀ request ∈ requests, ∃ resource leaf, manifest.Declares resource leaf ∧
      request = settings.request resource leaf)
    (h : List.Forall₂ (Owned manifest settings) requests handles) :
    (handles.map UnitHandle.functionName).Nodup := by
  rw [map_functionName_of_owned h]
  refine List.Nodup.map_on ?_ hdistinct.of_map
  -- A request is known by its name: it is the one of a declared leaf task.
  intro request hrequest request' hrequest' hname
  obtain ⟨resource, leaf, hdeclares, rfl⟩ := hdeclared request hrequest
  obtain ⟨resource', leaf', hdeclares', rfl⟩ := hdeclared request' hrequest'
  obtain ⟨hresource, hleaf⟩ := hapart _ _ _ _ hdeclares hdeclares' hname
  obtain ⟨rfl, rfl⟩ := hdeclares.eq_of_names hdeclares' hresource hleaf
  rfl

end UnitRegistry

/-! ## Names of functions in graphs -/

section Declared

variable {manifest : Manifest} {settings : Settings}
  {named named' : Resource → LeafTask → String → Prop} {inProgress : List String}
  {resource : Resource} {entry : Target}

/-- Only declared leaf tasks have functions in a graph of a declaration. -/
theorem GraphOf.imp_declared
    (himp : ∀ resource leaf functionName, manifest.Declares resource leaf →
      named resource leaf functionName → named' resource leaf functionName)
    {graph : StateGraph} (hresource : manifest.resource? resource.name = some resource)
    (h : GraphOf manifest settings named inProgress resource entry graph) :
    GraphOf manifest settings named' inProgress resource entry graph := by
  induction graph using StateGraph.nestedInduction generalizing inProgress resource entry with
  | step graph ih =>
      cases h with
      | made places hlength hdistinct hstart hregistered hstates =>
          refine .made places hlength hdistinct hstart hregistered ?_
          intro id place state hplace hstate
          have hmem := List.mem_of_getElem? hstate
          cases hstates id place state hplace hstate with
          | made node hnode hkind hnext =>
              refine .made node hnode ?_ hnext
              -- Branches belong to the same resource, a processor to its iterator.
              generalize hof : state.kind = kind at hkind ⊢
              cases hkind with
              | task leaf invocation hcarried hname hcatches =>
                  obtain ⟨_, htask⟩ := Resource.place_of_declaredAt?_task hnode
                  exact .task leaf invocation hcarried
                    (himp resource leaf _ ⟨hresource, htask⟩ hname) hcatches
              | wait seconds next => exact .wait seconds next
              | fail cause error => exact .fail cause error
              | pass next ended => exact .pass next ended
              | succeed => exact .succeed
              | choice branches otherwise choices default hbranches hchoices hotherwise =>
                  exact .choice branches otherwise choices default hbranches hchoices
                    hotherwise
              | parallel branches next ended graphs hbranches hlength hgraphs =>
                  refine .parallel branches next ended graphs hbranches hlength ?_
                  intro index branch held hbranch hheld
                  have hnested : held ∈ state.kind.nested := by
                    rw [hof]
                    exact List.mem_of_getElem? hheld
                  exact ih state hmem held hnested hresource
                    (hgraphs index branch held hbranch hheld)
              | map items processor maxConcurrency next iterator mapSettings held hiterator
                  hsettings hfree hleaves hgraph =>
                  refine .map items processor maxConcurrency next iterator mapSettings held
                    hiterator hsettings hfree hleaves ?_
                  have hnested : held ∈ state.kind.nested := by
                    rw [hof]
                    exact List.mem_singleton_self held
                  exact ih state hmem held hnested (Manifest.resource?_name hiterator) hgraph

/-- A graph that is entered at a leaf task has a name for its function. -/
theorem GraphOf.exists_named {name : String} {graph : StateGraph}
    (h : GraphOf manifest settings named inProgress resource (.leaf name) graph) :
    ∃ leaf functionName, resource.task? name = some leaf ∧
      named resource leaf functionName := by
  cases h with
  | made places hlength _ hstart _ hstates =>
      obtain ⟨hlt, _⟩ := List.getElem?_eq_some_iff.mp hstart
      have hstate := List.getElem?_eq_getElem (hlength ▸ hlt)
      cases hstates _ _ _ hstart hstate with
      | made node hnode hkind _ =>
          obtain ⟨leaf, htask, rfl⟩ := Option.map_eq_some_iff.mp hnode
          generalize graph.states[graph.start].kind = kind at hkind
          cases hkind with
          | task _ invocation _ hname _ => exact ⟨leaf, _, htask, hname⟩

end Declared

/-! ## Compiled machines -/

/-- Of some functions one has a name, and it is the one of a leaf task. -/
def OwnFunction (settings : Settings) (functions : List UnitHandle) (resource : Resource)
    (leaf : LeafTask) (functionName : String) : Prop :=
  ∃ handle, functions.filter (fun other => other.functionName == functionName) = [handle] ∧
    handle.BuiltFor settings resource leaf

/-- The machine of a resource, in which every leaf task, at any depth, is invoked under
the name of its own function. -/
def CompiledMachine.Owns (compiled : CompiledMachine) (manifest : Manifest)
    (settings : Settings) (name : String) : Prop :=
  ∃ resource, manifest.resource? name = some resource ∧
    GraphOf manifest settings (OwnFunction settings compiled.functions) [resource.name]
      resource resource.startAt compiled.machine.graph

/-- If a machine begins with a leaf task, it has a function of that task. -/
theorem CompiledMachine.Owns.mem_tasks {compiled : CompiledMachine} {manifest : Manifest}
    {settings : Settings} {name task : String} {resource : Resource}
    (h : compiled.Owns manifest settings name)
    (hresource : manifest.resource? name = some resource)
    (hstart : resource.startAt = .leaf task) :
    task ∈ compiled.functions.map UnitHandle.task := by
  obtain ⟨found, hfound, hgraph⟩ := h
  obtain rfl : resource = found := Option.some.inj (hresource.symm.trans hfound)
  rw [hstart] at hgraph
  obtain ⟨leaf, functionName, hleaf, handle, hfilter, hbuilt⟩ := hgraph.exists_named
  have hmem : handle ∈ compiled.functions :=
    List.mem_of_mem_filter (hfilter ▸ List.mem_cons_self)
  refine List.mem_map.mpr ⟨handle, hmem, ?_⟩
  rw [hbuilt.task]
  exact Resource.name_of_task? hleaf

namespace Manifest

variable {manifest : Manifest} {settings : Settings} {registry : UnitRegistry}

/-- A compilation with a registry that has the functions of declared leaf tasks. -/
theorem ensures_compile_owns (hapart : manifest.NamesApart settings)
    (hholds : registry.Holds manifest settings) (name : String) :
    Provide.Ensures (manifest.compile settings UnitRegistry.create name) registry
      (fun compiled after => compiled.Owns manifest settings name ∧
        after.Holds manifest settings)
      (fun _ _ => True) := by
  refine .intro ?_ fun _ _ _ => trivial
  intro compiled after hrun
  obtain ⟨plan, handles, resource, progress, hcheck, hserves, hresource, hbuild,
    hfunctions⟩ := run_compile_eq_ok hrun
  obtain ⟨hdistinct, hfor⟩ := plan_of_check hcheck
  obtain ⟨hafter, howned⟩ := hholds.serves hapart hfor.declared hserves
  refine ⟨⟨resource, hresource, ?_⟩, hafter⟩
  obtain ⟨graph, hexpansion, hmachine, _⟩ := build_eq_ok.mp hbuild
  obtain ⟨_, _, hgraph, hunits⟩ := (Expansion.traces_compile
    (UnitTable.names_source (plan.requests.zip handles)) (by rfl) resource).of_ok hexpansion
  have hperm : compiled.functions.Perm handles := by
    rw [hfunctions, hunits]
    exact UnitTable.handles_insertAll hserves.length_eq.symm hdistinct
  have hnames := UnitRegistry.nodup_functionName_of_owned hapart hdistinct hfor.declared
    howned
  rw [hmachine]
  refine hgraph.imp_declared ?_ (resource?_name hresource)
  -- What came for the names of a leaf task was built for the leaf task.
  rintro owner leaf functionName hdeclares ⟨⟨request, handle⟩, hpair, howner, hleaf, rfl⟩
  obtain ⟨owner', leaf', hdeclares', rfl, hbuilt⟩ := (List.forall₂_iff_zip.mp howned).2 hpair
  obtain ⟨rfl, rfl⟩ := hdeclares'.eq_of_names hdeclares howner hleaf
  refine ⟨handle, ?_, hbuilt⟩
  have hfilter := hperm.filter fun other => other.functionName == handle.functionName
  rw [filter_eq_singleton_of_nodup_map hnames (List.of_mem_zip hpair).2] at hfilter
  exact List.perm_singleton.mp hfilter

/-- Where generated names are apart, every leaf task that a machine invokes has its own
function, in a machine that is compiled alone and in all machines of a manifest.  It is so
with a new registry, and with one that was used for the manifest before. -/
theorem compile_own_functions (manifest : Manifest) (settings : Settings)
    (hapart : manifest.NamesApart settings) :
    (∀ environment, (⟨environment, .empty⟩ : UnitRegistry).Holds manifest settings) ∧
    ∀ registry : UnitRegistry, registry.Holds manifest settings →
      (∀ name compiled after,
        Provide.run (manifest.compile settings UnitRegistry.create name) registry =
          (.ok compiled, after) →
        compiled.Owns manifest settings name ∧ after.Holds manifest settings) ∧
      (∀ machines after,
        Provide.run (manifest.compileAll settings UnitRegistry.create) registry =
          (.ok machines, after) →
        List.Forall₂ (fun name compiled => compiled.Owns manifest settings name)
          (manifest.stateMachines.map Resource.name) machines ∧
        after.Holds manifest settings) := by
  refine ⟨fun environment => UnitRegistry.holds_of_units_eq_empty rfl, ?_⟩
  intro registry hholds
  refine ⟨?_, ?_⟩
  · intro name compiled after hrun
    exact (ensures_compile_owns hapart hholds name).of_ok hrun
  · intro machines after hrun
    have hall := ensures_compileAll
      (fun name state hstate => ensures_compile_owns hapart hstate name) hholds
    exact hall.of_ok hrun

/-- The task of the items has its own function beside those of the machine. -/
theorem compile_own_functions_screening :
    ∃ compiled after,
      Provide.run ((⟨[screeningResource, itemIterator]⟩ : Manifest).compile {}
        UnitRegistry.create "screening") {} = (.ok compiled, after) ∧
      after.units.keys = ["sf-handler-item-screen", "sf-handler-screening-load",
        "sf-handler-screening-report"] ∧
      compiled.Owns ⟨[screeningResource, itemIterator]⟩ {} "screening" := by
  have hsome : (Provide.run ((⟨[screeningResource, itemIterator]⟩ : Manifest).compile {}
      UnitRegistry.create "screening") {}).1.toOption.isSome = true := by
    decide +kernel
  have hkeys : (Provide.run ((⟨[screeningResource, itemIterator]⟩ : Manifest).compile {}
      UnitRegistry.create "screening") {}).2.units.keys =
        ["sf-handler-item-screen", "sf-handler-screening-load",
          "sf-handler-screening-report"] := by
    decide +kernel
  have hapart : (⟨[screeningResource, itemIterator]⟩ : Manifest).NamesApart {} :=
    namesApart_of_not_mem {} (by decide +kernel)
  obtain ⟨compiled, after, hrun⟩ := Provide.exists_run_eq_ok hsome
  rw [hrun] at hkeys
  obtain ⟨hnew, howns⟩ := compile_own_functions _ _ hapart
  exact ⟨compiled, after, hrun, hkeys,
    ((howns {} (hnew .empty)).1 "screening" compiled after hrun).1⟩

/-- A machine that runs one task. -/
def singleTask (name file task : String) : Resource where
  name := name
  source := ⟨"dist/" ++ file, file⟩
  kind := .stateMachine (.leaf task)
  tasks := [{ name := task }]

/-- Two machines with hyphens in the names of a resource and of a task. -/
def hyphenated : Manifest where
  resources := [singleTask "a" "first" "b-c", singleTask "a-b" "second" "c"]

/-- The two functions have one name, and the second machine is compiled with the function
of the first. -/
theorem compile_own_functions_hyphenated :
    ¬ hyphenated.NamesApart {} ∧
    ∃ machines after,
      Provide.run (hyphenated.compileAll {} UnitRegistry.create) {} =
        (.ok machines, after) ∧
      ¬ List.Forall₂ (fun name compiled => compiled.Owns hyphenated {} name)
        (hyphenated.stateMachines.map Resource.name) machines := by
  refine ⟨?_, ?_⟩
  · intro hapart
    have hnames := hapart (singleTask "a" "first" "b-c") { name := "b-c" }
      (singleTask "a-b" "second" "c") { name := "c" } ⟨rfl, rfl⟩ ⟨rfl, rfl⟩ rfl
    exact absurd hnames.1 (by decide)
  · have hsome : (Provide.run (hyphenated.compileAll {} UnitRegistry.create)
        {}).1.toOption.isSome = true := by
      decide +kernel
    have htasks : (Provide.run (hyphenated.compileAll {} UnitRegistry.create)
        {}).1.toOption.map (fun machines =>
          machines.map fun compiled => compiled.functions.map UnitHandle.task) =
            some [["b-c"], ["b-c"]] := by
      decide +kernel
    obtain ⟨machines, after, hrun⟩ := Provide.exists_run_eq_ok hsome
    rw [hrun] at htasks
    refine ⟨machines, after, hrun, ?_⟩
    intro hall
    have htasks := Option.some.inj htasks
    cases hall with
    | cons _ hrest =>
        cases hrest with
        | @cons _ second _ _ howns _ =>
            -- A function that was built for the second task would say so.
            have hmem := howns.mem_tasks rfl rfl
            have hsecond : second.functions.map UnitHandle.task = ["b-c"] :=
              (List.cons.inj (List.cons.inj htasks).2).1
            rw [hsecond] at hmem
            exact absurd hmem (by decide)

end Manifest

end TaskMachine
