import TaskMachine.Proofs.Expansion.Correspondence
import TaskMachine.Proofs.Expansion.Sites

/-!
# What a graph shows of its declaration

Where there is a graph of a declaration, the declaration is sound at every site that
is reached (`GraphOf.sound`): the node of the site has a state somewhere in the graph
(`Site.Shown`), and a state says that its node is as it should be.  All transitions of
such a graph stay inside (`GraphOf.dangling?_eq_none`).
-/

namespace TaskMachine

section Transitions

variable {manifest : Manifest} {settings : Settings}
  {named : Resource → LeafTask → String → Prop} {inProgress : List String}
  {resource : Resource} {entry : Target} {places : List Place} {place : Place}

theorem Aligned.exists_related {α β : Type} {related : Nat → α → β → Prop}
    {left : List α} {right : List β} (h : Aligned related left right) {index : Nat} {a : α}
    (ha : left[index]? = some a) : ∃ b, right[index]? = some b ∧ related index a b := by
  obtain ⟨hlt, _⟩ := List.getElem?_eq_some_iff.mp ha
  have hlt' : index < right.length := h.length_eq ▸ hlt
  have hb := List.getElem?_eq_getElem hlt'
  exact ⟨right[index], hb, h.related index a _ ha hb⟩

theorem Aligned.exists_left {α β : Type} {related : Nat → α → β → Prop}
    {left : List α} {right : List β} (h : Aligned related left right) {index : Nat} {b : β}
    (hb : right[index]? = some b) : ∃ a, left[index]? = some a ∧ related index a b := by
  obtain ⟨hlt, _⟩ := List.getElem?_eq_some_iff.mp hb
  have hlt' : index < left.length := h.length_eq ▸ hlt
  have ha := List.getElem?_eq_getElem hlt'
  exact ⟨left[index], ha, h.related index _ b ha hb⟩

theorem Refers.lt {here : Place} {target : Target} {id : StateId}
    (h : Refers places here target id) : id < places.length := by
  obtain ⟨hlt, _⟩ := List.getElem?_eq_some_iff.mp h
  exact hlt

theorem RefersIfAny.lt {here : Place} {target : Option Target} {id : StateId}
    (h : RefersIfAny places here target (some id)) : id < places.length := by
  cases h with
  | some h => exact h.lt

/-- The further transitions of a state lead to states. -/
theorem KindOf.targets_lt {node : DeclaredNode} {kind : StateKind}
    (h : KindOf manifest settings named inProgress resource places place node kind) :
    ∀ id ∈ kind.targets, id < places.length := by
  intro id hid
  cases h with
  | task leaf invocation hcarried hname hcatches =>
      obtain ⟨transition, htransition, rfl⟩ := List.mem_map.mp hid
      obtain ⟨index, hindex⟩ := List.mem_iff_getElem?.mp htransition
      obtain ⟨rule, _, _, _, hrefers⟩ := hcatches.exists_left hindex
      exact hrefers.lt
  | choice branches otherwise choices default hbranches hchoices hotherwise =>
      rcases List.mem_append.mp hid with hmem | hdefault
      · obtain ⟨transition, htransition, rfl⟩ := List.mem_map.mp hmem
        obtain ⟨index, hindex⟩ := List.mem_iff_getElem?.mp htransition
        obtain ⟨branch, _, _, hrefers⟩ := hchoices.exists_left hindex
        exact hrefers.lt
      · rw [Option.mem_toList] at hdefault
        subst hdefault
        exact hotherwise.lt
  | wait seconds next => cases hid
  | fail cause error => cases hid
  | pass next ended => cases hid
  | succeed => cases hid
  | parallel branches next ended graphs hbranches hlength hgraphs => cases hid
  | map items processor maxConcurrency next iterator mapSettings graph hiterator hsettings
      hfree hleaves hgraph => cases hid

/-- No transition of a graph leads out of it. -/
theorem GraphOf.dangling?_eq_none {graph : StateGraph}
    (h : GraphOf manifest settings named inProgress resource entry graph) :
    graph.dangling? = none := by
  cases h with
  | made places hlength hdistinct hstart hregistered hstates =>
      unfold StateGraph.dangling?
      rw [List.findSome?_eq_none_iff]
      intro state hstate
      rw [Option.map_eq_none_iff, List.find?_eq_none]
      intro id hid
      obtain ⟨index, hindex⟩ := List.mem_iff_getElem?.mp hstate
      obtain ⟨hlt, _⟩ := List.getElem?_eq_some_iff.mp hindex
      have hplace := List.getElem?_eq_getElem (hlength ▸ hlt)
      -- Successor or not, the state that is meant has a place.
      have hid' : id < graph.states.length := by
        rw [← hlength]
        cases hstates index _ state hplace hindex with
        | made node hnode hkind hnext =>
            rcases List.mem_append.mp hid with hmem | hmem
            · rw [Option.mem_toList] at hmem
              rw [hmem] at hnext
              exact hnext.lt
            · exact hkind.targets_lt id hmem
      simp [StateGraph.state?, hid']

end Transitions

/-! ## Graphs inside graphs -/

section Inside

variable {manifest : Manifest} {settings : Settings}
  {named : Resource → LeafTask → String → Prop}

/-- A graph of some declaration. -/
def IsGraph (manifest : Manifest) (settings : Settings)
    (named : Resource → LeafTask → String → Prop) (graph : StateGraph) : Prop :=
  ∃ inProgress resource entry,
    GraphOf manifest settings named inProgress resource entry graph

/-- The kind of a state of some graph. -/
def IsKind (manifest : Manifest) (settings : Settings)
    (named : Resource → LeafTask → String → Prop) (kind : StateKind) : Prop :=
  ∃ inProgress resource places place node,
    KindOf manifest settings named inProgress resource places place node kind

theorem IsGraph.kind {graph : StateGraph} (h : IsGraph manifest settings named graph) :
    ∀ state ∈ graph.states, IsKind manifest settings named state.kind := by
  obtain ⟨inProgress, resource, entry, hgraph⟩ := h
  intro state hstate
  cases hgraph with
  | made places hlength hdistinct hstart hregistered hstates =>
      obtain ⟨index, hindex⟩ := List.mem_iff_getElem?.mp hstate
      obtain ⟨hlt, _⟩ := List.getElem?_eq_some_iff.mp hindex
      have hplace := List.getElem?_eq_getElem (hlength ▸ hlt)
      cases hstates index _ state hplace hindex with
      | made node hnode hkind hnext => exact ⟨_, _, _, _, node, hkind⟩

theorem IsKind.parallel {graphs : List StateGraph}
    (h : IsKind manifest settings named (.parallel graphs)) :
    ∀ graph ∈ graphs, IsGraph manifest settings named graph := by
  obtain ⟨inProgress, resource, places, place, node, hkind⟩ := h
  intro graph hgraph
  cases hkind with
  | parallel branches next ended _ hbranches hlength hgraphs =>
      obtain ⟨index, hindex⟩ := List.mem_iff_getElem?.mp hgraph
      obtain ⟨hlt, _⟩ := List.getElem?_eq_some_iff.mp hindex
      have hbranch := List.getElem?_eq_getElem (hlength ▸ hlt)
      exact ⟨_, _, _, hgraphs index _ graph hbranch hindex⟩

theorem IsKind.map {mapSettings : MapSettings} {processor : StateGraph}
    (h : IsKind manifest settings named (.map mapSettings processor)) :
    IsGraph manifest settings named processor := by
  obtain ⟨inProgress, resource, places, place, node, hkind⟩ := h
  cases hkind with
  | map items processor maxConcurrency next iterator _ graph hiterator hsettings hfree
      hleaves hgraph => exact ⟨_, _, _, hgraph⟩

mutual

/-- All graphs inside a graph of a declaration are graphs of declarations. -/
theorem StateGraph.isGraph_of_mem_all : ∀ graph : StateGraph,
    IsGraph manifest settings named graph →
    ∀ inner ∈ graph.all, IsGraph manifest settings named inner
  | ⟨start, states, tasks⟩, h, inner, hinner => by
      rcases List.mem_cons.mp hinner with rfl | hstates
      · exact h
      · exact isGraph_of_mem_allOfStates states h.kind inner hstates

theorem isGraph_of_mem_allOfStates : ∀ states : List State,
    (∀ state ∈ states, IsKind manifest settings named state.kind) →
    ∀ inner ∈ allOfStates states, IsGraph manifest settings named inner
  | [], _, inner, hinner => by cases hinner
  | ⟨name, kind, next⟩ :: rest, h, inner, hinner => by
      rcases List.mem_append.mp hinner with hkind | hrest
      · exact kind.isGraph_of_mem_all (h ⟨name, kind, next⟩ List.mem_cons_self) inner hkind
      · exact isGraph_of_mem_allOfStates rest
          (fun state hstate => h state (List.mem_cons_of_mem _ hstate)) inner hrest

theorem StateKind.isGraph_of_mem_all : ∀ kind : StateKind,
    IsKind manifest settings named kind →
    ∀ inner ∈ kind.all, IsGraph manifest settings named inner
  | .parallel branches, h, inner, hinner =>
      isGraph_of_mem_allOfGraphs branches h.parallel inner hinner
  | .map _ processor, h, inner, hinner =>
      processor.isGraph_of_mem_all h.map inner hinner
  | .invoke _, _, _, hinner | .wait _, _, _, hinner | .fail _ _, _, _, hinner
  | .pass, _, _, hinner | .succeed, _, _, hinner | .choice _ _, _, _, hinner => by
      cases hinner

theorem isGraph_of_mem_allOfGraphs : ∀ graphs : List StateGraph,
    (∀ graph ∈ graphs, IsGraph manifest settings named graph) →
    ∀ inner ∈ allOfGraphs graphs, IsGraph manifest settings named inner
  | [], _, inner, hinner => by cases hinner
  | graph :: rest, h, inner, hinner => by
      rcases List.mem_append.mp hinner with hgraph | hrest
      · exact graph.isGraph_of_mem_all (h graph List.mem_cons_self) inner hgraph
      · exact isGraph_of_mem_allOfGraphs rest
          (fun other hother => h other (List.mem_cons_of_mem graph hother)) inner hrest

end

/-- All transitions of a graph of a declaration stay inside, also in the graphs of its
states. -/
theorem IsGraph.dangling?_eq_none {graph : StateGraph}
    (h : IsGraph manifest settings named graph) :
    ∀ inner ∈ graph.all, inner.dangling? = none := by
  intro inner hinner
  obtain ⟨_, _, _, hgraph⟩ := graph.isGraph_of_mem_all h inner hinner
  exact hgraph.dangling?_eq_none

end Inside

/-! ## Sites that have a state -/

section Sites

variable {manifest : Manifest} {settings : Settings}
  {named : Resource → LeafTask → String → Prop} {site : Site}

/-- The node of a site has a state in some graph of its unit. -/
structure Site.Shown (manifest : Manifest) (settings : Settings)
    (named : Resource → LeafTask → String → Prop) (site : Site) (entry : Target)
    (states : List State) (places : List Place) (here : Place) (id : StateId) : Prop where
  distinct : Expansion.duplicateTask? site.resource = none
  length_eq : places.length = states.length
  states : ∀ (id : StateId) (place : Place) (state : State), places[id]? = some place →
    states[id]? = some state →
    StateOf manifest settings named site.inProgress site.resource entry places place state
  refers : Refers places here site.target id
  written : ∀ control, site.target = .inline control →
    site.resource.declaredAt? entry here = some (.control control)

/-- A graph shows its entry. -/
theorem GraphOf.exists_shown {inProgress : List String} {resource : Resource}
    {entry : Target} {graph : StateGraph}
    (h : GraphOf manifest settings named inProgress resource entry graph)
    (hdistinct : Expansion.duplicateTask? resource = none) (origin : String) :
    ∃ places, Site.Shown manifest settings named ⟨inProgress, resource, entry, origin⟩ entry
      graph.states places .entry graph.start := by
  cases h with
  | made places hlength _ hstart hregistered hstates =>
      refine ⟨places, hdistinct, hlength, hstates, hstart, ?_⟩
      rintro control rfl
      rfl

namespace Site.Shown

variable {entry : Target} {states : List State} {places : List Place} {here : Place}
  {id : StateId}

/-- The state of the node that the target of a site means. -/
theorem exists_stateOf
    (h : Shown manifest settings named site entry states places here id) :
    ∃ (node : DeclaredNode) (kind : StateKind) (next : Option StateId),
      site.resource.declared? site.target = some node ∧
      site.resource.declaredAt? entry (site.target.place here) = some node ∧
      KindOf manifest settings named site.inProgress site.resource places
        (site.target.place here) node kind ∧
      RefersIfAny places ((site.target.place here).inside .next) (node.at? .next)
        next := by
  have hlt : id < states.length := by
    rw [← h.length_eq]
    exact h.refers.lt
  cases h.states id _ states[id] h.refers (List.getElem?_eq_getElem hlt) with
  | made node hnode hkind hnext =>
      refine ⟨node, states[id].kind, states[id].next, ?_, hnode, hkind, hnext⟩
      cases htarget : site.target with
      | leaf name =>
          rw [htarget] at hnode
          exact hnode
      -- The place of a control node is where its target is written.
      | inline control =>
          rw [htarget] at hnode
          have hwritten := h.written control htarget
          rw [← hnode]
          exact hwritten.symm

theorem sound (h : Shown manifest settings named site entry states places here id) :
    site.Sound manifest := by
  obtain ⟨node, kind, _, hdeclared, _, hkind, _⟩ := h.exists_stateOf
  refine ⟨firstRepeat_nil_eq_none_iff.mp h.distinct, ?_, ?_⟩
  · intro name htarget
    rw [htarget] at hdeclared
    obtain ⟨task, htask, _⟩ := Option.map_eq_some_iff.mp hdeclared
    exact ⟨task, htask⟩
  · intro control htarget
    rw [htarget] at hdeclared
    cases hdeclared
    cases control with
    | choice branches otherwise =>
        cases hkind with
        | choice _ _ choices default hbranches hchoices hotherwise =>
            refine ⟨hbranches, ?_⟩
            intro branch hbranch
            obtain ⟨index, hindex⟩ := List.mem_iff_getElem?.mp hbranch
            obtain ⟨transition, _, hcondition, _⟩ := hchoices.exists_related hindex
            exact ⟨transition.condition, hcondition⟩
    | parallel branches next ended =>
        cases hkind with
        | parallel _ _ _ graphs hbranches hlength hgraphs => exact hbranches
    | map items processor maxConcurrency next =>
        cases hkind with
        | map _ _ _ _ iterator mapSettings graph hiterator hsettings hfree hleaves hgraph =>
            refine ⟨iterator, ?_, hiterator, hsettings.isMapIterator, hfree⟩
            rw [← ValueSource.path?_eq_none_iff, hsettings.items]
            simp
    | wait seconds next => exact trivial
    | fail cause error => exact trivial
    | pass next ended => exact trivial
    | succeed => exact trivial

/-- A site that comes after a shown one in the same graph. -/
theorem inner {node : DeclaredNode} {next : Target} {step : Step} {nextId : StateId}
    (h : Shown manifest settings named site entry states places here id)
    (hnode : site.resource.declaredAt? entry (site.target.place here) = some node)
    (hstep : node.at? step = some next)
    (hrefers : Refers places ((site.target.place here).inside step) next nextId) :
    Shown manifest settings named (site.inner next) entry states places
      ((site.target.place here).inside step) nextId where
  distinct := h.distinct
  length_eq := h.length_eq
  states := h.states
  refers := hrefers
  written := by
    rintro control hcontrol
    have hnext : next = .inline control := hcontrol
    subst hnext
    exact Resource.declaredAt?_inside hnode hstep

/-- Whatever comes after a shown site over a reference is shown, too. -/
theorem exists_step (h : Shown manifest settings named site entry states places here id)
    {step : Step} {next : Target}
    (hstep : site.resource.at? site.target step = some next) :
    ∃ entry states places here id,
      Shown manifest settings named (site.inner next) entry states places here id := by
  obtain ⟨node, kind, successor, hdeclared, hnode, hkind, hnext⟩ := h.exists_stateOf
  replace hstep : node.at? step = some next := by
    unfold Resource.at? at hstep
    rwa [hdeclared] at hstep
  cases step with
  | next =>
      rw [hstep] at hnext
      cases hnext with
      | some hrefers => exact ⟨_, _, _, _, _, h.inner hnode hstep hrefers⟩
  | caught index =>
      cases hkind with
      | task leaf invocation hcarried hname hcatches =>
          obtain ⟨rule, hrule, rfl⟩ := Option.map_eq_some_iff.mp hstep
          obtain ⟨transition, _, _, _, hrefers⟩ := hcatches.exists_related hrule
          exact ⟨_, _, _, _, _, h.inner hnode hstep hrefers⟩
      | _ => cases hstep
  | choice index =>
      cases hkind with
      | choice branches otherwise choices default hbranches hchoices hotherwise =>
          obtain ⟨branch, hbranch, rfl⟩ := Option.map_eq_some_iff.mp hstep
          obtain ⟨transition, _, _, hrefers⟩ := hchoices.exists_related hbranch
          exact ⟨_, _, _, _, _, h.inner hnode hstep hrefers⟩
      | _ => cases hstep
  | otherwise =>
      cases hkind with
      | choice branches otherwise choices default hbranches hchoices hotherwise =>
          have hsome : otherwise = some next := hstep
          subst hsome
          cases hotherwise with
          | some hrefers => exact ⟨_, _, _, _, _, h.inner hnode hstep hrefers⟩
      | _ => cases hstep
  | branch index =>
      cases hkind with
      | parallel branches _ _ graphs hbranches hlength hgraphs =>
          have hbranch : branches[index]? = some next := hstep
          obtain ⟨hlt, _⟩ := List.getElem?_eq_some_iff.mp hbranch
          have hgraph := List.getElem?_eq_getElem (hlength ▸ hlt : index < graphs.length)
          obtain ⟨places, hshown⟩ := (hgraphs index next _ hbranch hgraph).exists_shown
            h.distinct site.innerOrigin
          exact ⟨_, _, places, _, _, hshown⟩
      | _ => cases hstep

/-- The entry of the iterator of a shown map is shown in the map's processor. -/
theorem exists_embedded
    (h : Shown manifest settings named site entry states places here id)
    {items : ValueSource} {processor : String} {maxConcurrency : Option UInt32}
    {next : Option Target} {iterator : Resource}
    (htarget : site.target = .inline (.map items processor maxConcurrency next))
    (hiterator : manifest.resource? processor = some iterator) (supply : NameSupply) :
    ∃ entry states places here id,
      Shown manifest settings named (site.embedded iterator supply) entry states places here
        id := by
  obtain ⟨node, kind, _, hdeclared, _, hkind, _⟩ := h.exists_stateOf
  rw [htarget] at hdeclared
  cases hdeclared
  cases hkind with
  | map _ _ _ _ found mapSettings graph hfound hsettings hfree hleaves hgraph =>
      rw [hiterator] at hfound
      cases hfound
      obtain ⟨places, hshown⟩ := hgraph.exists_shown hleaves _
      exact ⟨_, _, places, _, _, hshown⟩

end Site.Shown

/-- Where there is a graph, its declaration is sound at every site that is reached. -/
theorem GraphOf.sound {inProgress : List String} {resource : Resource} {entry : Target}
    {origin : String} {graph : StateGraph}
    (h : GraphOf manifest settings named inProgress resource entry graph)
    (hdistinct : Expansion.duplicateTask? resource = none)
    (hreaches : Site.Reaches manifest ⟨inProgress, resource, entry, origin⟩ site) :
    site.Sound manifest := by
  have hshown : ∃ entry states places here id,
      Site.Shown manifest settings named site entry states places here id := by
    induction hreaches with
    | root =>
        obtain ⟨places, hshown⟩ := h.exists_shown hdistinct origin
        exact ⟨_, _, places, _, _, hshown⟩
    | step _ hstep ih =>
        obtain ⟨_, _, _, _, _, hshown⟩ := ih
        exact hshown.exists_step hstep
    | embed _ htarget hiterator _ supply ih =>
        obtain ⟨_, _, _, _, _, hshown⟩ := ih
        exact hshown.exists_embedded htarget hiterator supply
  obtain ⟨_, _, _, _, _, hshown⟩ := hshown
  exact hshown.sound

end Sites

end TaskMachine
