import TaskMachine.Proofs.Declaration.Extension
import TaskMachine.Proofs.Expansion.Connected
import TaskMachine.Proofs.Expansion.Sites
import TaskMachine.Proofs.Expansion.Visits

/-!
# The sites that states are made at

Every state of a graph is made at a site: it does what the node at the site says, is called
after it, and goes to the states that are made at the targets of this node.
`Manifest.Attributes` says of a graph, and of the graphs inside it, which sites these are.  It
speaks of a declaration and a graph, not of runs: the entry of a graph stands for the site that
the graph is entered at, and transitions lead on from there.  So in a graph whose states are all
reached from its entry there is one choice of sites only (`Attributes.unique`), and none of them
is out of reach in the declaration (`Attributes.reached`).
-/

namespace TaskMachine

namespace DeclaredNode

/-- Where a node goes in its own graph, in order. -/
def targets : DeclaredNode → List Target
  | .task leaf => leaf.targets
  | .control node => node.targets

/-- Whether a node declares a successor and is the end of its path as well. -/
def ignoresNext : DeclaredNode → Bool
  | .task leaf => leaf.ended && leaf.next.isSome
  | .control (.pass next ended) | .control (.parallel _ next ended) => ended && next.isSome
  | .control (.wait _ _) | .control (.fail _ _) | .control .succeed | .control (.choice _ _)
  | .control (.map _ _ _ _) => false

/-- A target in the graph of a node is one that a step leads to. -/
theorem exists_step_of_mem_targets {node : DeclaredNode} {target : Target}
    (h : target ∈ node.targets) : ∃ step, node.at? step = some target := by
  cases node with
  | task leaf =>
      rcases List.mem_append.mp h with hcaught | hnext
      · obtain ⟨index, hindex⟩ := List.mem_iff_getElem?.mp hcaught
        rw [List.getElem?_map] at hindex
        exact ⟨.caught index, hindex⟩
      · exact ⟨.next, Option.mem_toList.mp hnext⟩
  | control node =>
      cases node with
      | wait seconds next => exact ⟨.next, congrArg some (List.mem_singleton.mp h).symm⟩
      | fail cause error => cases h
      | pass next ended => exact ⟨.next, Option.mem_toList.mp h⟩
      | succeed => cases h
      | choice branches otherwise =>
          rcases List.mem_append.mp h with hbranch | hotherwise
          · obtain ⟨index, hindex⟩ := List.mem_iff_getElem?.mp hbranch
            rw [List.getElem?_map] at hindex
            exact ⟨.choice index, hindex⟩
          · exact ⟨.otherwise, Option.mem_toList.mp hotherwise⟩
      | parallel branches next ended => exact ⟨.next, Option.mem_toList.mp h⟩
      | map items processor maxConcurrency next => exact ⟨.next, Option.mem_toList.mp h⟩

end DeclaredNode

namespace Site

/-- The node at a site. -/
def node? (site : Site) : Option DeclaredNode := site.resource.declared? site.target

/-- Where the node at a site goes in its own graph, in order. -/
def targets (site : Site) : List Target := site.node?.elim [] DeclaredNode.targets

/-- Whether the node at a site declares a successor and is the end of its path as well. -/
def ignoresNext (site : Site) : Bool := site.node?.any DeclaredNode.ignoresNext

/-- What is noted of a successor that is ignored at a site. -/
def notice (site : Site) : IgnoredNext := ⟨site.resource.name, site.innerOrigin⟩

/-- What is noted at some sites. -/
def notices (sites : List Site) : List IgnoredNext :=
  (sites.filter ignoresNext).map notice

/-- A site as it is known by its state: whoever names a leaf task comes to the same state. -/
def settled (site : Site) : Site := { site with origin := site.innerOrigin }

/-- The site of the state that a target leads to, if it is followed from here. -/
def toward (here : Site) (target : Target) : Site :=
  ({ here with target := target } : Site).settled

/-- The sites at which the graphs inside the state of a site are entered, given the name of the
state. -/
def Embeds (manifest : Manifest) (site : Site) (name : String) (entries : List Site) : Prop :=
  match site.target with
  | .inline (.parallel branches _ _) => entries = branches.map site.inner
  | .inline (.map _ processor _ _) => ∃ iterator,
      manifest.resource? processor = some iterator ∧ processor ∉ site.inProgress ∧
      entries = [.unit site.inProgress iterator iterator.startAt
        (Expansion.entryName iterator.startAt ("start-" ++ name))]
  | .inline (.wait _ _) | .inline (.fail _ _) | .inline (.pass _ _) | .inline .succeed
  | .inline (.choice _ _) | .leaf _ => entries = []

@[simp] theorem innerOrigin_settled (site : Site) :
    site.settled.innerOrigin = site.innerOrigin := by
  obtain ⟨inProgress, resource, target, origin⟩ := site
  cases target <;> rfl

@[simp] theorem inner_settled (site : Site) (target : Target) :
    site.settled.inner target = site.inner target := by
  unfold inner
  rw [innerOrigin_settled]
  rfl

theorem toward_toward (here : Site) (target next : Target) :
    (here.toward target).toward next = ((here.toward target).inner next).settled := by
  unfold toward inner
  rw [innerOrigin_settled]
  rfl

theorem notices_append (sites more : List Site) :
    notices (sites ++ more) = notices sites ++ notices more := by
  simp [notices]

theorem notices_cons (site : Site) (rest : List Site) :
    notices (site :: rest) = notices [site] ++ notices rest :=
  notices_append [site] rest

theorem notices_singleton (site : Site) :
    notices [site] = if site.ignoresNext then [site.notice] else [] := by
  unfold notices
  cases h : site.ignoresNext <;> simp [h]

theorem exists_step_of_mem_targets {site : Site} {target : Target} (h : target ∈ site.targets) :
    ∃ step, site.resource.at? site.target step = some target := by
  unfold targets node? at h
  unfold Resource.at?
  cases hnode : site.resource.declared? site.target with
  | none =>
      rw [hnode] at h
      cases h
  | some node =>
      rw [hnode] at h
      exact DeclaredNode.exists_step_of_mem_targets h

/-- At one site the same graphs are embedded always. -/
theorem Embeds.unique {manifest : Manifest} {site : Site} {name : String}
    {entries entries' : List Site} (h : site.Embeds manifest name entries)
    (h' : site.Embeds manifest name entries') : entries = entries' := by
  obtain ⟨inProgress, resource, target, origin⟩ := site
  cases target with
  | leaf name => exact h.trans h'.symm
  | inline control =>
      cases control with
      | map items processor maxConcurrency next =>
          obtain ⟨iterator, hiterator, _, rfl⟩ := h
          obtain ⟨iterator', hiterator', _, rfl⟩ := h'
          rw [hiterator] at hiterator'
          obtain rfl := Option.some.inj hiterator'
          rfl
      | _ => exact h.trans h'.symm

end Site

/-- A state does what the node at a site says, and is called after it: by the task, or by the
kind of the node and the origin of the site. -/
inductive State.MadeAt : State → Site → Prop
  | task {state : State} {site : Site} {name : String} {leaf : LeafTask}
      (htarget : site.target = .leaf name) (hleaf : site.resource.task? name = some leaf)
      (hname : state.name = Expansion.invokeName name) (htask : state.task? = some name) :
      MadeAt state site
  | control {state : State} {site : Site} {node : ControlNode}
      (htarget : site.target = .inline node) (hkind : state.kind.word? = some node.kind)
      (supply : NameSupply) (hname : state.name = (supply.allocate node.kind site.origin).1) :
      MadeAt state site

theorem State.mem_transitions_iff {state : State} {id : StateId} :
    id ∈ state.transitions ↔ id ∈ state.kind.targets ++ state.next.toList := by
  unfold State.transitions
  rw [List.mem_append, List.mem_append, or_comm]

section Relation

variable (manifest : Manifest)

mutual

/-- The states of a graph that is entered at a site are made at certain sites: those of the
graph itself come first, and then those of the graphs inside its states. -/
inductive Manifest.Attributes : Site → StateGraph → List Site → Prop
  | graph {entry : Site} {graph : StateGraph} {own inside : List Site}
      (hstart : own[graph.start]? = some entry.settled)
      (hstates : AttributesStates own graph.states own inside) :
      Attributes entry graph (own ++ inside)

/-- States of a graph are made at certain sites, and those inside them at others, where all
states of the graph are made at given sites. -/
inductive Manifest.AttributesStates :
    List Site → List State → List Site → List Site → Prop
  | nil {all : List Site} : AttributesStates all [] [] []
  | cons {all own inside later entries : List Site} {state : State} {rest : List State}
      {site : Site} (hmade : state.MadeAt site)
      (hleads : List.Forall₂
        (fun target id => all[id]? = some (site.inner target).settled)
        site.targets (state.kind.targets ++ state.next.toList))
      (hembeds : site.Embeds manifest state.name entries)
      (hinside : AttributesGraphs entries state.kind.nested inside)
      (hrest : AttributesStates all rest own later) :
      AttributesStates all (state :: rest) (site :: own) (inside ++ later)

/-- Several graphs, each entered at a site of its own. -/
inductive Manifest.AttributesGraphs : List Site → List StateGraph → List Site → Prop
  | nil : AttributesGraphs [] [] []
  | cons {entry : Site} {entries sites later : List Site} {graph : StateGraph}
      {rest : List StateGraph} (hfirst : Attributes entry graph sites)
      (hrest : AttributesGraphs entries rest later) :
      AttributesGraphs (entry :: entries) (graph :: rest) (sites ++ later)

end

end Relation

namespace Manifest

variable {manifest : Manifest} {all own own' more inside inside' later entries : List Site}
  {states : List State} {graphs : List StateGraph}

theorem AttributesStates.append {states' : List State}
    (h : manifest.AttributesStates all states own inside)
    (hmore : manifest.AttributesStates all states' more later) :
    manifest.AttributesStates all (states ++ states') (own ++ more) (inside ++ later) := by
  induction states generalizing own inside with
  | nil =>
      cases h
      exact hmore
  | cons state rest ih =>
      cases h with
      | cons hmade hleads hembeds hinside hrest =>
          rw [List.append_assoc]
          exact .cons hmade hleads hembeds hinside (ih hrest)

/-- Further states of the graph change nothing about those that are there. -/
theorem AttributesStates.widen (h : manifest.AttributesStates all states own inside)
    (more : List Site) : manifest.AttributesStates (all ++ more) states own inside := by
  induction states generalizing own inside with
  | nil =>
      cases h
      exact .nil
  | cons state rest ih =>
      cases h with
      | cons hmade hleads hembeds hinside hrest =>
          refine .cons hmade (hleads.imp ?_) hembeds hinside (ih hrest)
          intro target id hid
          exact getElem?_append_of_eq_some hid more

theorem AttributesGraphs.append {entries' : List Site} {graphs' : List StateGraph}
    (h : manifest.AttributesGraphs entries graphs inside)
    (hmore : manifest.AttributesGraphs entries' graphs' later) :
    manifest.AttributesGraphs (entries ++ entries') (graphs ++ graphs') (inside ++ later) := by
  induction graphs generalizing entries inside with
  | nil =>
      cases h
      exact hmore
  | cons graph rest ih =>
      cases h with
      | cons hfirst hrest =>
          rw [List.append_assoc]
          exact .cons hfirst (ih hrest)

theorem AttributesGraphs.single {entry : Site} {graph : StateGraph} {sites : List Site}
    (h : manifest.Attributes entry graph sites) :
    manifest.AttributesGraphs [entry] [graph] sites := by
  have hcons := AttributesGraphs.cons h .nil
  rwa [List.append_nil] at hcons

theorem AttributesStates.length_eq (h : manifest.AttributesStates all states own inside) :
    own.length = states.length := by
  induction states generalizing own inside with
  | nil =>
      cases h
      rfl
  | cons state rest ih =>
      cases h with
      | cons _ _ _ _ hrest => rw [List.length_cons, List.length_cons, ih hrest]

/-- The state of a number is made at the site of this number, and leads on from there. -/
theorem AttributesStates.leads (h : manifest.AttributesStates all states own inside) {id : Nat}
    {state : State} (hstate : states[id]? = some state) :
    ∃ site, own[id]? = some site ∧ List.Forall₂
      (fun target id => all[id]? = some (site.inner target).settled)
      site.targets (state.kind.targets ++ state.next.toList) := by
  induction states generalizing own inside id with
  | nil => cases hstate
  | cons first rest ih =>
      cases h with
      | cons _ hleads _ _ hrest =>
          cases id with
          | zero =>
              cases hstate
              exact ⟨_, rfl, hleads⟩
          | succ id => exact ih hrest hstate

/-- What stands inside graphs stands inside one of them. -/
theorem AttributesGraphs.exists_entry (h : manifest.AttributesGraphs entries graphs inside)
    {site : Site} (hsite : site ∈ inside) :
    ∃ graph ∈ graphs, ∃ entry ∈ entries, ∃ sites,
      manifest.Attributes entry graph sites ∧ site ∈ sites := by
  induction graphs generalizing entries inside with
  | nil =>
      cases h
      cases hsite
  | cons graph rest ih =>
      cases h with
      | cons hfirst hrest =>
          rcases List.mem_append.mp hsite with hsite | hsite
          · exact ⟨graph, List.mem_cons_self, _, List.mem_cons_self, _, hfirst, hsite⟩
          · obtain ⟨later, hlater, entry, hentry, hfound⟩ := ih hrest hsite
            exact ⟨later, List.mem_cons_of_mem _ hlater, entry, List.mem_cons_of_mem _ hentry,
              hfound⟩

/-- What stands inside states stands inside a graph that one of them embeds. -/
theorem AttributesStates.exists_entry (h : manifest.AttributesStates all states own inside)
    {site : Site} (hsite : site ∈ inside) :
    ∃ state ∈ states, ∃ outer ∈ own, ∃ entries, state.MadeAt outer ∧
      outer.Embeds manifest state.name entries ∧
      ∃ graph ∈ state.kind.nested, ∃ entry ∈ entries, ∃ sites,
        manifest.Attributes entry graph sites ∧ site ∈ sites := by
  induction states generalizing own inside with
  | nil =>
      cases h
      cases hsite
  | cons state rest ih =>
      cases h with
      | cons hmade _ hembeds hinside hrest =>
          rcases List.mem_append.mp hsite with hsite | hsite
          · exact ⟨state, List.mem_cons_self, _, List.mem_cons_self, _, hmade, hembeds,
              hinside.exists_entry hsite⟩
          · obtain ⟨later, hlater, outer, houter, hfound⟩ := ih hrest hsite
            exact ⟨later, List.mem_cons_of_mem _ hlater, outer, List.mem_cons_of_mem _ houter,
              hfound⟩

/-! ## One choice of sites -/

/-- A graph that is reached from its entry has its states made at one choice of sites. -/
theorem AttributesStates.own_unique {graph : StateGraph} {entry : Site}
    (h : manifest.AttributesStates own graph.states own inside) (hrooted : graph.Rooted)
    (hstart : own[graph.start]? = some entry.settled)
    (hstart' : own'[graph.start]? = some entry.settled)
    (h' : manifest.AttributesStates own' graph.states own' inside') : own = own' := by
  -- Both choices agree at the entry, and what they agree at they agree at where it goes.
  have hreached : ∀ id, graph.transitions.Reaches graph.start id → own[id]? = own'[id]? := by
    intro id hreaches
    induction hreaches with
    | refl => rw [hstart, hstart']
    | tail _ hgoes ih =>
        obtain ⟨state, hstate, htarget⟩ := StateGraph.goes_transitions_iff.mp hgoes
        obtain ⟨site, hsite, hleads⟩ := h.leads hstate
        obtain ⟨site', hsite', hleads'⟩ := h'.leads hstate
        rw [hsite, hsite'] at ih
        obtain rfl := Option.some.inj ih
        have hboth := List.Forall₂.mp (fun _ _ => And.intro) hleads hleads'
        obtain ⟨target, _, hown, hown'⟩ := exists_right_of_forall₂ hboth.flip
          (State.mem_transitions_iff.mp htarget)
        rw [hown, hown']
  apply List.ext_getElem?
  intro id
  rcases Nat.lt_or_ge id graph.states.length with hlt | hge
  · exact hreached id (hrooted.reached id hlt)
  · rw [List.getElem?_eq_none (h.length_eq ▸ hge), List.getElem?_eq_none (h'.length_eq ▸ hge)]

theorem AttributesGraphs.unique (h : manifest.AttributesGraphs entries graphs inside)
    (h' : manifest.AttributesGraphs entries graphs inside')
    (hgraphs : ∀ graph ∈ graphs, ∀ entry sites sites', manifest.Attributes entry graph sites →
      manifest.Attributes entry graph sites' → sites = sites') : inside = inside' := by
  induction graphs generalizing entries inside inside' with
  | nil =>
      cases h
      cases h'
      rfl
  | cons graph rest ih =>
      cases h with
      | cons hfirst hrest =>
          cases h' with
          | cons hfirst' hrest' =>
              obtain ⟨hgraph, hgraphs⟩ := List.forall_mem_cons.mp hgraphs
              rw [hgraph _ _ _ hfirst hfirst', ih hrest hrest' hgraphs]

theorem AttributesStates.unique (h : manifest.AttributesStates all states own inside)
    (h' : manifest.AttributesStates all states own inside')
    (hstates : ∀ state ∈ states, ∀ graph ∈ state.kind.nested, ∀ entry sites sites',
      manifest.Attributes entry graph sites → manifest.Attributes entry graph sites' →
      sites = sites') : inside = inside' := by
  induction states generalizing own inside inside' with
  | nil =>
      cases h
      cases h'
      rfl
  | cons state rest ih =>
      cases h with
      | cons _ _ hembeds hinside hrest =>
          cases h' with
          | cons _ _ hembeds' hinside' hrest' =>
              obtain ⟨hstate, hstates⟩ := List.forall_mem_cons.mp hstates
              obtain rfl := hembeds.unique hembeds'
              rw [hinside.unique hinside' hstate, ih hrest hrest' hstates]

/-- There is one choice of sites only. -/
theorem Attributes.unique {graph : StateGraph} (hrooted : ∀ inner ∈ graph.all, inner.Rooted)
    {entry : Site} {sites sites' : List Site} (h : manifest.Attributes entry graph sites)
    (h' : manifest.Attributes entry graph sites') : sites = sites' := by
  induction graph using StateGraph.nestedInduction generalizing entry sites sites' with
  | step graph ih =>
      cases h with
      | graph hstart hstates =>
          cases h' with
          | graph hstart' hstates' =>
              obtain rfl := hstates.own_unique (hrooted graph graph.self_mem_all) hstart hstart'
                hstates'
              -- The states embed the same graphs now, entered at the same sites.
              refine congrArg _ (hstates.unique hstates' ?_)
              intro state hstate held hheld entry sites sites' hsites hsites'
              refine ih state hstate held hheld ?_ hsites hsites'
              intro inner hinner
              exact hrooted inner (StateGraph.mem_all_of_held hstate hheld hinner)

/-! ## Sites that are reached -/

/-- A site as it is known by its state, for a site that is reached. -/
def ReachedSite (manifest : Manifest) (root site : Site) : Prop :=
  ∃ reached, root.Reaches manifest reached ∧ site = reached.settled

/-- The targets of a node are reached from its site. -/
theorem ReachedSite.inner {root site : Site} (h : manifest.ReachedSite root site)
    {target : Target} (htarget : target ∈ site.targets) :
    manifest.ReachedSite root (site.inner target).settled := by
  obtain ⟨reached, hreached, rfl⟩ := h
  obtain ⟨step, hstep⟩ := Site.exists_step_of_mem_targets htarget
  refine ⟨reached.inner target, .step hreached hstep, ?_⟩
  rw [Site.inner_settled]

/-- The graphs that a state embeds are entered at sites that are reached. -/
theorem ReachedSite.embedded {root site : Site} (h : manifest.ReachedSite root site)
    {state : State} (hmade : state.MadeAt site) (hembeds : site.Embeds manifest state.name entries)
    {entry : Site} (hentry : entry ∈ entries) : root.Reaches manifest entry := by
  obtain ⟨⟨inProgress, resource, target, origin⟩, hreached, rfl⟩ := h
  cases target with
  | leaf name =>
      rw [show entries = [] from hembeds] at hentry
      cases hentry
  | inline control =>
      cases control with
      | parallel branches next ended =>
          rw [show entries = branches.map _ from hembeds] at hentry
          obtain ⟨branch, hbranch, rfl⟩ := List.mem_map.mp hentry
          obtain ⟨index, hindex⟩ := List.mem_iff_getElem?.mp hbranch
          have hstep : resource.at? (.inline (.parallel branches next ended)) (.branch index) =
              some branch := hindex
          rw [Site.inner_settled]
          exact .step hreached hstep
      | map items processor maxConcurrency next =>
          obtain ⟨iterator, hiterator, hfree, rfl⟩ := hembeds
          obtain rfl := List.mem_singleton.mp hentry
          cases hmade with
          | task htarget _ _ _ => cases htarget
          | control htarget _ supply hname =>
              -- The name of the state is the one that the entry is called after.
              cases htarget
              rw [hname]
              exact .embed hreached rfl hiterator hfree supply
      | _ =>
          rw [show entries = [] from hembeds] at hentry
          cases hentry

/-- The sites of a graph's own states are reached from its entry. -/
theorem AttributesStates.reached {graph : StateGraph} (hrooted : graph.Rooted)
    {root entry : Site} (hentry : root.Reaches manifest entry)
    (hstart : own[graph.start]? = some entry.settled)
    (h : manifest.AttributesStates own graph.states own inside) :
    ∀ site ∈ own, manifest.ReachedSite root site := by
  have hreached : ∀ id, graph.transitions.Reaches graph.start id →
      ∀ site, own[id]? = some site → manifest.ReachedSite root site := by
    intro id hreaches
    induction hreaches with
    | refl =>
        intro site hsite
        rw [hstart] at hsite
        exact ⟨entry, hentry, (Option.some.inj hsite).symm⟩
    | tail _ hgoes ih =>
        intro site hsite
        obtain ⟨state, hstate, htransition⟩ := StateGraph.goes_transitions_iff.mp hgoes
        obtain ⟨outer, houter, hleads⟩ := h.leads hstate
        obtain ⟨target, htarget, hown⟩ := exists_right_of_forall₂ hleads.flip
          (State.mem_transitions_iff.mp htransition)
        rw [hown] at hsite
        obtain rfl := Option.some.inj hsite
        exact (ih outer houter).inner htarget
  intro site hsite
  -- There are as many sites as states, and every state is reached.
  obtain ⟨id, hid⟩ := List.mem_iff_getElem?.mp hsite
  obtain ⟨hlt, _⟩ := List.getElem?_eq_some_iff.mp hid
  exact hreached id (hrooted.reached id (h.length_eq ▸ hlt)) site hid

/-- No state of a graph is made at a site that is out of reach from where the graph is
entered. -/
theorem Attributes.reached {graph : StateGraph} (hrooted : ∀ inner ∈ graph.all, inner.Rooted)
    {root entry : Site} (hentry : root.Reaches manifest entry) {sites : List Site}
    (h : manifest.Attributes entry graph sites) :
    ∀ site ∈ sites, manifest.ReachedSite root site := by
  induction graph using StateGraph.nestedInduction generalizing entry sites with
  | step graph ih =>
      cases h with
      | graph hstart hstates =>
          have hown := hstates.reached (hrooted graph graph.self_mem_all) hentry hstart
          refine List.forall_mem_append.mpr ⟨hown, ?_⟩
          intro site hsite
          obtain ⟨state, hstate, outer, houter, entries, hmade, hembeds, held, hheld, inner,
            hinner, sites, hsites, hmem⟩ := hstates.exists_entry hsite
          have hreaches := (hown outer houter).embedded hmade hembeds hinner
          refine ih state hstate held hheld ?_ hreaches hsites site hmem
          intro inner hinner
          exact hrooted inner (StateGraph.mem_all_of_held hstate hheld hinner)

end Manifest

/-! ## All states of a graph -/

section Relation

variable {manifest : Manifest}

mutual

/-- Every state has a site, and every site a state, in one order. -/
theorem Manifest.Attributes.madeAt {entry : Site} {graph : StateGraph} {sites : List Site} :
    manifest.Attributes entry graph sites →
      List.Forall₂ State.MadeAt graph.allStates sites
  | .graph _ hstates => by
      rw [graph.allStates_eq_append]
      exact List.rel_append hstates.madeAt.1 hstates.madeAt.2

theorem Manifest.AttributesStates.madeAt {all own inside : List Site} {states : List State} :
    manifest.AttributesStates all states own inside →
      List.Forall₂ State.MadeAt states own ∧
      List.Forall₂ State.MadeAt
        (states.flatMap fun state => state.kind.nested.flatMap StateGraph.allStates) inside
  | .nil => ⟨.nil, .nil⟩
  | .cons hmade _ _ hinside hrest => by
      rw [List.flatMap_cons]
      exact ⟨.cons hmade hrest.madeAt.1, List.rel_append hinside.madeAt hrest.madeAt.2⟩

theorem Manifest.AttributesGraphs.madeAt {entries inside : List Site}
    {graphs : List StateGraph} :
    manifest.AttributesGraphs entries graphs inside →
      List.Forall₂ State.MadeAt (graphs.flatMap StateGraph.allStates) inside
  | .nil => .nil
  | .cons hfirst hrest => by
      rw [List.flatMap_cons]
      exact List.rel_append hfirst.madeAt hrest.madeAt

end

end Relation

end TaskMachine
