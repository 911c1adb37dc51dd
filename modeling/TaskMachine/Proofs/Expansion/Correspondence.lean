import TaskMachine.Proofs.Expansion.Growth
import TaskMachine.Proofs.Declaration.Places
import TaskMachine.Proofs.Json.Fields

/-!
# What a graph has to do with a declaration

`GraphOf` says that a graph is the graph of a resource entered at a target.  It
does not speak of expansions: there is a list with the place of every state, no
place is there twice, and every state does what the node at its place says and
goes where that node's references lead.

* `Refers places here target id`: the state `id` is the one of the node that
  `target`, written at `here`, means.
* `LeafTask.CarriedBy`, `MapSettings.DeclaredBy`: what an invocation and a map take over
  from their nodes.
* `KindOf`: a state's kind for a node, with the graphs inside.
* `StateOf`: a state for a node, with its successor.
* `GraphOf`: all states of a graph, its entry and its register.

Inside a parallel state every branch has a `GraphOf` of its own; the processor of
a map is the graph of the iterator that the map names.
-/

namespace TaskMachine

/-- Two lists are as long as each other, and what stands at one index is
related. -/
structure Aligned {α β : Type} (related : Nat → α → β → Prop) (left : List α)
    (right : List β) : Prop where
  length_eq : right.length = left.length
  related : ∀ index a b, left[index]? = some a → right[index]? = some b →
    related index a b

namespace Aligned

variable {α β : Type} {related : Nat → α → β → Prop} {left : List α} {right : List β}

theorem nil : Aligned related [] [] :=
  ⟨rfl, by simp⟩

theorem snoc (h : Aligned related left right) {a : α} {b : β}
    (hlast : related left.length a b) : Aligned related (left ++ [a]) (right ++ [b]) := by
  refine ⟨by simp [h.length_eq], ?_⟩
  intro index a' b' ha hb
  rcases Nat.lt_or_ge index left.length with hlt | hge
  · rw [List.getElem?_append_left hlt] at ha
    rw [List.getElem?_append_left (h.length_eq ▸ hlt)] at hb
    exact h.related index a' b' ha hb
  · rw [List.getElem?_append_right hge] at ha
    rw [List.getElem?_append_right (h.length_eq ▸ hge), h.length_eq] at hb
    rw [List.getElem?_singleton] at ha hb
    split at ha
    · have hindex : index = left.length := by omega
      simp_all
    · cases ha

theorem mono {related' : Nat → α → β → Prop} (h : Aligned related left right)
    (himp : ∀ index a b, related index a b → related' index a b) :
    Aligned related' left right :=
  ⟨h.length_eq, fun index a b ha hb => himp index a b (h.related index a b ha hb)⟩

end Aligned

/-- What stands at an index stands there also when the list goes on. -/
theorem getElem?_append_of_eq_some {α : Type} {list : List α} {index : Nat} {item : α}
    (h : list[index]? = some item) (more : List α) : (list ++ more)[index]? = some item := by
  obtain ⟨hlt, _⟩ := List.getElem?_eq_some_iff.mp h
  rw [List.getElem?_append_left hlt, h]

/-- The state of a number is the state of the node that a target means; the
target is written at `here`. -/
def Refers (places : List Place) (here : Place) (target : Target) (id : StateId) : Prop :=
  places[id]? = some (target.place here)

/-- Further places do not change what is referred to. -/
theorem Refers.append {places : List Place} {here : Place} {target : Target}
    {id : StateId} (h : Refers places here target id) (more : List Place) :
    Refers (places ++ more) here target id :=
  getElem?_append_of_eq_some h more

/-- Where there is a target, there is the state of the node that it means. -/
def RefersIfAny (places : List Place) (here : Place) :
    Option Target → Option StateId → Prop :=
  Option.Rel (Refers places here)

theorem RefersIfAny.append {places : List Place} {here : Place} {target : Option Target}
    {id : Option StateId} (h : RefersIfAny places here target id) (more : List Place) :
    RefersIfAny (places ++ more) here target id := by
  cases h with
  | none => exact .none
  | some h => exact .some (h.append more)

/-! ## What is taken over from nodes -/

/-- A payload hands on bindings.  It is missing exactly where there are no bindings; under a
name stands what the last binding of that name is resolved to, and nothing else. -/
structure HandsOn (bindings : List Binding) (payload : Option (SortedMap PayloadValue)) :
    Prop where
  none_iff : payload = none ↔ bindings = []
  entry : ∀ entries ∈ payload, ∀ name, entries.get? name =
    (bindings.findRev? fun binding => binding.name == name).map fun binding =>
      binding.reference.resolve (some name)

/-- An invocation carries what its leaf task declares; the name of its function and where it
goes are apart. -/
structure LeafTask.CarriedBy (leaf : LeafTask) (settings : Settings)
    (invocation : Invocation) : Prop where
  task : invocation.task = leaf.name
  payload : HandsOn leaf.params invocation.payload
  resultPath : invocation.resultPath = settings.resultPath
  retry : invocation.retry = leaf.retry

/-- The settings of a map are those that its node and its iterator declare, with the item and
its index for the iterator to work on. -/
structure MapSettings.DeclaredBy (settings : MapSettings) (items : ValueSource)
    (maxConcurrency : Option UInt32) (iterator : Resource) : Prop where
  items : items.path? = some settings.itemsPath
  selector : settings.itemSelector.entries =
    [("index", .path "$$.Map.Item.Index"), ("value", .path "$$.Map.Item.Value")]
  concurrency : settings.maxConcurrency = maxConcurrency
  iterator : ∃ startAt,
    iterator.kind = .mapIterator startAt settings.mode settings.executionType

theorem get?_ofList_map_resolve (bindings : List Binding) (name : String) :
    (SortedMap.ofList (bindings.map Binding.resolve)).get? name =
      (bindings.findRev? fun binding => binding.name == name).map fun binding =>
        binding.reference.resolve (some name) := by
  induction bindings with
  | nil => rfl
  | cons binding rest ih =>
      rw [List.map_cons, SortedMap.get?_ofList_cons, ih, List.findRev?_eq_find?_reverse,
        List.findRev?_eq_find?_reverse, List.reverse_cons, List.find?_append]
      by_cases hname : binding.name = name
      · subst hname
        cases rest.reverse.find? fun other => other.name == binding.name <;>
          simp [Binding.resolve]
      · simp [Binding.resolve, hname]

/-- A payload hands on bindings exactly if it is the payload of these bindings. -/
theorem handsOn_iff {bindings : List Binding} {payload : Option (SortedMap PayloadValue)} :
    HandsOn bindings payload ↔ payload = payloadOf bindings := by
  unfold payloadOf
  cases bindings with
  | nil =>
      refine ⟨fun h => h.none_iff.mpr rfl, ?_⟩
      rintro rfl
      exact ⟨iff_of_true rfl rfl, by rintro _ ⟨⟩⟩
  | cons binding rest =>
      rw [if_neg (by simp)]
      constructor
      · intro h
        cases payload with
        | none => exact absurd (h.none_iff.mp rfl) (List.cons_ne_nil _ _)
        | some entries =>
            refine congrArg some (SortedMap.eq_of_get? fun name => ?_)
            rw [h.entry entries rfl name, get?_ofList_map_resolve]
      · rintro rfl
        refine ⟨by simp, ?_⟩
        rintro _ ⟨⟩ name
        exact get?_ofList_map_resolve _ name

/-- What is carried is the invocation of the leaf task. -/
theorem LeafTask.carriedBy_iff {leaf : LeafTask} {settings : Settings}
    {invocation : Invocation} : leaf.CarriedBy settings invocation ↔
      invocation =
        leaf.invocation settings invocation.functionName invocation.catches := by
  obtain ⟨task, functionName, payload, resultPath, retry, catches⟩ := invocation
  constructor
  · rintro ⟨rfl, hpayload, rfl, rfl⟩
    obtain rfl := handsOn_iff.mp hpayload
    rfl
  · intro h
    obtain ⟨rfl, -, hpayload, rfl, rfl, -⟩ := Invocation.mk.inj h
    exact ⟨rfl, handsOn_iff.mpr hpayload, rfl, rfl⟩

theorem entries_itemSelector : itemSelector.entries =
    [("index", .path "$$.Map.Item.Index"), ("value", .path "$$.Map.Item.Value")] := by
  decide +kernel

theorem declaredBy_mapSettings {items : ValueSource} {itemsPath : String}
    {iterator : Resource} (hitems : items.path? = some itemsPath)
    (hiterator : iterator.isMapIterator = true) (maxConcurrency : Option UInt32) :
    (mapSettings itemsPath maxConcurrency iterator.kind).DeclaredBy items maxConcurrency
      iterator where
  items := hitems
  selector := entries_itemSelector
  concurrency := rfl
  iterator := by
    unfold Resource.isMapIterator at hiterator
    cases hkind : iterator.kind with
    | stateMachine startAt =>
        rw [hkind] at hiterator
        cases hiterator
    | mapIterator startAt mode executionType => exact ⟨startAt, rfl⟩

/-- The settings of a map come from an iterator. -/
theorem MapSettings.DeclaredBy.isMapIterator {settings : MapSettings} {items : ValueSource}
    {maxConcurrency : Option UInt32} {iterator : Resource}
    (h : settings.DeclaredBy items maxConcurrency iterator) :
    iterator.isMapIterator = true := by
  obtain ⟨startAt, hkind⟩ := h.iterator
  unfold Resource.isMapIterator
  rw [hkind]

/-! ## Graphs, states and kinds -/

section Relation

variable (manifest : Manifest) (settings : Settings)
  (named : Resource → LeafTask → String → Prop)

mutual

/-- The graph of a resource entered at a target, while certain units are in
progress. -/
inductive GraphOf : List String → Resource → Target → StateGraph → Prop
  | made {inProgress : List String} {resource : Resource} {entry : Target}
      {graph : StateGraph} (places : List Place)
      (hlength : places.length = graph.states.length)
      (hdistinct : places.Nodup)
      (hstart : Refers places .entry entry graph.start)
      (hregistered : ∀ (name : String) (id : StateId), graph.tasks.get? name = some id ↔
        places[id]? = some (.task name))
      (hstates : ∀ (id : StateId) (place : Place) (state : State), places[id]? = some place →
        graph.states[id]? = some state →
        StateOf inProgress resource entry places place state) :
      GraphOf inProgress resource entry graph

/-- The state of the node at a place, given the places of all states. -/
inductive StateOf :
    List String → Resource → Target → List Place → Place → State → Prop
  | made {inProgress : List String} {resource : Resource} {entry : Target}
      {places : List Place} {place : Place} {state : State} (node : DeclaredNode)
      (hnode : resource.declaredAt? entry place = some node)
      (hkind : KindOf inProgress resource places place node state.kind)
      (hnext : RefersIfAny places (place.inside .next) (node.at? .next) state.next) :
      StateOf inProgress resource entry places place state

/-- What the state of a node at a place does. -/
inductive KindOf :
    List String → Resource → List Place → Place → DeclaredNode → StateKind → Prop
  | task {inProgress : List String} {resource : Resource} {places : List Place}
      {place : Place} (leaf : LeafTask) (invocation : Invocation)
      (hcarried : leaf.CarriedBy settings invocation)
      (hname : named resource leaf invocation.functionName)
      (hcatches : Aligned
        (fun index (rule : CatchRule) (transition : CatchTransition) =>
          transition.errorEquals = rule.errorEquals ∧
          transition.resultPath = rule.resultPath ∧
          Refers places (place.inside (.caught index)) rule.next transition.next)
        leaf.catches invocation.catches) :
      KindOf inProgress resource places place (.task leaf) (.invoke invocation)
  | wait {inProgress : List String} {resource : Resource} {places : List Place}
      {place : Place} (seconds : UInt64) (next : Target) :
      KindOf inProgress resource places place (.control (.wait seconds next))
        (.wait seconds)
  | fail {inProgress : List String} {resource : Resource} {places : List Place}
      {place : Place} (cause error : String) :
      KindOf inProgress resource places place (.control (.fail cause error))
        (.fail cause error)
  | pass {inProgress : List String} {resource : Resource} {places : List Place}
      {place : Place} (next : Option Target) (ended : Bool) :
      KindOf inProgress resource places place (.control (.pass next ended)) .pass
  | succeed {inProgress : List String} {resource : Resource} {places : List Place}
      {place : Place} :
      KindOf inProgress resource places place (.control .succeed) .succeed
  | choice {inProgress : List String} {resource : Resource} {places : List Place}
      {place : Place} (branches : List ChoiceBranch) (otherwise : Option Target)
      (choices : List ChoiceTransition) (default : Option StateId)
      (hbranches : branches ≠ [])
      (hchoices : Aligned
        (fun index (branch : ChoiceBranch) (transition : ChoiceTransition) =>
          branch.guard.condition = .ok transition.condition ∧
          Refers places (place.inside (.choice index)) branch.next transition.next)
        branches choices)
      (hotherwise : RefersIfAny places (place.inside .otherwise) otherwise default) :
      KindOf inProgress resource places place (.control (.choice branches otherwise))
        (.choice choices default)
  | parallel {inProgress : List String} {resource : Resource} {places : List Place}
      {place : Place} (branches : List Target) (next : Option Target) (ended : Bool)
      (graphs : List StateGraph)
      (hbranches : branches ≠ [])
      (hlength : graphs.length = branches.length)
      (hgraphs : ∀ (index : Nat) (branch : Target) (graph : StateGraph),
        branches[index]? = some branch →
        graphs[index]? = some graph → GraphOf inProgress resource branch graph) :
      KindOf inProgress resource places place
        (.control (.parallel branches next ended)) (.parallel graphs)
  | map {inProgress : List String} {resource : Resource} {places : List Place}
      {place : Place} (items : ValueSource) (processor : String)
      (maxConcurrency : Option UInt32) (next : Option Target) (iterator : Resource)
      (mapSettings : MapSettings) (graph : StateGraph)
      (hiterator : manifest.resource? processor = some iterator)
      (hsettings : mapSettings.DeclaredBy items maxConcurrency iterator)
      (hfree : processor ∉ inProgress)
      (hleaves : Expansion.duplicateTask? iterator = none)
      (hgraph : GraphOf (iterator.name :: inProgress) iterator iterator.startAt graph) :
      KindOf inProgress resource places place
        (.control (.map items processor maxConcurrency next))
        (.map mapSettings graph)

end

end Relation

section Append

variable {manifest : Manifest} {settings : Settings}
  {named : Resource → LeafTask → String → Prop} {inProgress : List String}
  {resource : Resource} {places : List Place} {place : Place}

theorem KindOf.append {node : DeclaredNode} {kind : StateKind}
    (h : KindOf manifest settings named inProgress resource places place node kind)
    (more : List Place) :
    KindOf manifest settings named inProgress resource (places ++ more) place node
      kind := by
  cases h with
  | task leaf invocation hcarried hname hcatches =>
      refine .task leaf invocation hcarried hname (hcatches.mono ?_)
      rintro index rule transition ⟨herrors, hpath, hnext⟩
      exact ⟨herrors, hpath, hnext.append more⟩
  | wait seconds next => exact .wait seconds next
  | fail cause error => exact .fail cause error
  | pass next ended => exact .pass next ended
  | succeed => exact .succeed
  | choice branches otherwise choices default hbranches hchoices hotherwise =>
      refine .choice branches otherwise choices default hbranches (hchoices.mono ?_) ?_
      · rintro index branch transition ⟨hcondition, hnext⟩
        exact ⟨hcondition, hnext.append more⟩
      · exact hotherwise.append more
  | parallel branches next ended graphs hbranches hlength hgraphs =>
      exact .parallel branches next ended graphs hbranches hlength hgraphs
  | map items processor maxConcurrency next iterator mapSettings graph hiterator hsettings
      hfree hleaves hgraph =>
      exact .map items processor maxConcurrency next iterator mapSettings graph hiterator
        hsettings hfree hleaves hgraph

/-- A state that is right for its node stays so when further states are made. -/
theorem StateOf.append {entry : Target} {state : State}
    (h : StateOf manifest settings named inProgress resource entry places place state)
    (more : List Place) :
    StateOf manifest settings named inProgress resource entry (places ++ more) place
      state := by
  cases h with
  | made node hnode hkind hnext =>
      exact .made node hnode (hkind.append more) (hnext.append more)

end Append

end TaskMachine
