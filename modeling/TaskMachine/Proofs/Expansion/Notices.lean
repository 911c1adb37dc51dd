import TaskMachine.Proofs.Expansion.Attribution

/-!
# What an expansion notes

An expansion notes successors that it ignores.  `Led` says what came while targets were
followed: states, the sites that they are made at, and notes, which are those of these sites in
some order.  A node that is not done yet may have left its own note already; it counts apart,
until the state of the node is filled (`Led.close`).

`notes_compile` says so of whole graphs: what was noted while one was made are the notices of the
sites that its states, and those of the graphs inside it, are made at.
-/

namespace TaskMachine

/-- The sites of the states of a graph in the making, filled or not.  A leaf task has its state
where it is registered. -/
structure Sited {σ : Type} (inProgress : List String) (resource : Resource)
    (progress : Progress σ) (sites : List Site) : Prop where
  length_eq : sites.length = progress.scope.states.length
  registered : ∀ name id, progress.scope.tasks.get? name = some id →
    sites[id]? = some ⟨inProgress, resource, .leaf name, name⟩
  inProgress : progress.inProgress = inProgress

/-- Targets were followed from a site, whatever the target at the site itself.  States came, and
with them the notices of their sites, and certain others. -/
structure Led {σ : Type} (manifest : Manifest) (here : Site) (before : Progress σ)
    (known : List Site) (targets : List Target) (ids : List StateId)
    (noted : List IgnoredNext) (after : Progress σ) (new : List State)
    (own inside : List Site) : Prop where
  sited : Sited here.inProgress here.resource after (known ++ own)
  states : after.scope.states = before.scope.states ++ new
  attributes : manifest.AttributesStates (known ++ own) new own inside
  leads : List.Forall₂
    (fun target id => (known ++ own)[id]? = some (here.toward target)) targets ids
  ignored : after.ignored.Perm (before.ignored ++ (Site.notices (own ++ inside) ++ noted))

/-- Targets were followed from a site to certain states. -/
def Leads {σ : Type} (manifest : Manifest) (here : Site) (before : Progress σ)
    (known : List Site) (targets : List Target) (ids : List StateId)
    (noted : List IgnoredNext) (after : Progress σ) : Prop :=
  ∃ new own inside, Led manifest here before known targets ids noted after new own inside

section Leading

variable {σ : Type} {manifest : Manifest} {inProgress : List String} {resource : Resource}
  {here : Site} {before middle after last : Progress σ} {known own own' inside inside' : List Site}
  {targets targets' : List Target} {ids ids' : List StateId} {noted : List IgnoredNext}
  {new new' : List State}

namespace Sited

theorem enterTask (h : Sited inProgress resource before known) (units : σ) (name : String) :
    Sited inProgress resource (before.enterTask units name)
      (known ++ [⟨inProgress, resource, .leaf name, name⟩]) where
  length_eq := by
    show _ = (before.scope.reserve _).states.length
    simp [h.length_eq]
  registered := by
    intro other id hother
    replace hother : ((before.scope.reserve _).register name
      before.scope.states.length).tasks.get? other = some id := hother
    rw [Scope.get?_register] at hother
    split at hother
    next hname =>
      -- It is the task that was registered just now, and its site comes last.
      cases hother
      rw [← h.length_eq, List.getElem?_concat_length, hname]
    · exact getElem?_append_of_eq_some (h.registered other id hother) _
  inProgress := h.inProgress

theorem enterNode (h : Sited inProgress resource before known) (site : Site)
    (kind origin : String) :
    Sited inProgress resource (before.enterNode kind origin) (known ++ [site]) where
  length_eq := by
    show _ = (before.scope.reserve _).states.length
    simp [h.length_eq]
  registered := by
    intro name id hname
    exact getElem?_append_of_eq_some (h.registered name id hname) _
  inProgress := h.inProgress

theorem fillState (h : Sited inProgress resource before known) (id : StateId) (kind : StateKind)
    (next : Option StateId) :
    Sited inProgress resource (before.fillState id kind next) known where
  length_eq := by
    show _ = (before.scope.fill id kind next).states.length
    rw [Scope.length_states_fill, h.length_eq]
  registered := h.registered
  inProgress := h.inProgress

end Sited

namespace Led

theorem nothing (h : Sited here.inProgress here.resource before known)
    (hscope : after.scope = before.scope) (hinProgress : after.inProgress = before.inProgress)
    (hignored : after.ignored = before.ignored ++ noted) :
    Led manifest here before known [] [] noted after [] [] [] where
  sited := by
    rw [List.append_nil]
    exact ⟨hscope ▸ h.length_eq, hscope ▸ h.registered, hinProgress.trans h.inProgress⟩
  states := by rw [hscope, List.append_nil]
  attributes := .nil
  leads := .nil
  ignored := .of_eq hignored

theorem append (h : Led manifest here before known targets ids [] middle new own inside)
    (hmore : Led manifest here middle (known ++ own) targets' ids' noted after new' own'
      inside') :
    Led manifest here before known (targets ++ targets') (ids ++ ids') noted after (new ++ new')
      (own ++ own') (inside ++ inside') where
  sited := by
    rw [← List.append_assoc]
    exact hmore.sited
  states := by rw [hmore.states, h.states, List.append_assoc]
  attributes := by
    rw [← List.append_assoc]
    exact (h.attributes.widen own').append hmore.attributes
  leads := by
    rw [← List.append_assoc]
    refine List.rel_append (h.leads.imp ?_) hmore.leads
    intro target id hid
    exact getElem?_append_of_eq_some hid own'
  ignored := by
    refine (hmore.ignored.trans (h.ignored.append_right _)).trans ?_
    refine List.perm_iff_count.mpr fun notice => ?_
    simp only [Site.notices_append, List.append_nil, List.count_append]
    omega

/-- The graphs inside a node were made and its targets were followed, and now its own state is
filled.  What was noted for the node itself is the notice of its site. -/
theorem close {target : Target} {name : String} {kind : StateKind} {next : Option StateId}
    {entries sites : List Site} (hbefore : Sited here.inProgress here.resource before known)
    (hentered : middle.scope.states = before.scope.states ++ [⟨name, .pass, none⟩])
    (hignored : middle.ignored.Perm (before.ignored ++ Site.notices sites))
    (htargets : (here.toward target).targets = targets)
    (hnoted : Site.notices [here.toward target] = noted)
    (h : Led manifest (here.toward target) middle (known ++ [here.toward target]) targets
      (kind.targets ++ next.toList) noted last new own inside)
    (hmade : (⟨name, kind, next⟩ : State).MadeAt (here.toward target))
    (hembeds : (here.toward target).Embeds manifest name entries)
    (hinside : manifest.AttributesGraphs entries kind.nested sites) :
    Led manifest here before known [target] [before.scope.states.length] []
      (last.fillState before.scope.states.length kind next) (⟨name, kind, next⟩ :: new)
      (here.toward target :: own) (sites ++ inside) where
  sited := by
    rw [List.append_cons]
    exact h.sited.fillState _ kind next
  states := by
    show last.scope.states.modify before.scope.states.length _ = _
    rw [h.states, hentered, List.append_assoc, List.singleton_append,
      modify_length_append_cons]
  attributes := by
    rw [List.append_cons]
    refine .cons hmade ?_ hembeds hinside h.attributes
    rw [htargets]
    refine h.leads.imp ?_
    intro target id hid
    rwa [← Site.toward_toward]
  leads := by
    refine .cons ?_ .nil
    rw [← hbefore.length_eq, List.append_cons, List.append_assoc]
    simp
  ignored := by
    -- The notes inside the node came first and its own in between, so that only the order
    -- differs.
    refine (h.ignored.trans (hignored.append_right _)).trans ?_
    refine List.perm_iff_count.mpr fun notice => ?_
    rw [List.cons_append, Site.notices_cons _ (own ++ (sites ++ inside)), hnoted]
    simp only [Site.notices_append, List.append_nil, List.count_append]
    omega

/-- The state that a target leads to was there before. -/
theorem again {target : Target} {id : StateId}
    (h : Sited here.inProgress here.resource before known)
    (hid : known[id]? = some (here.toward target)) :
    Led manifest here before known [target] [id] [] before [] [] [] where
  sited := by rwa [List.append_nil]
  states := (List.append_nil _).symm
  attributes := .nil
  leads := .cons (by rwa [List.append_nil]) .nil
  ignored := .of_eq (List.append_nil _).symm

end Led

/-- No target was followed. -/
theorem leads_nothing (h : Sited here.inProgress here.resource before known) :
    Leads manifest here before known [] [] [] before :=
  ⟨[], [], [], .nothing h rfl rfl (List.append_nil _).symm⟩

end Leading

namespace Expansion

section Steps

variable {σ : Type} {expansion : Expansion σ} {manifest : Manifest}
  {follow : Resource → Follow σ} {here : Site} {before now : Progress σ} {known : List Site}
  {targets : List Target} {ids : List StateId}

/-- What following a target comes to.  A fault promises nothing. -/
def Guides (manifest : Manifest) (follow : Resource → Follow σ) : Prop :=
  ∀ (here : Site) (target : Target) (before : Progress σ) (known : List Site),
    Sited here.inProgress here.resource before known →
    Ensures (follow here.resource target here.origin) before
      (fun id after => Leads manifest here before known [target] [id] [] after)
      (fun _ _ => True)

/-- Following one more target. -/
theorem guides_next (h : Guides manifest follow)
    (hnow : Leads manifest here before known targets ids [] now) (target : Target) :
    Ensures (follow here.resource target here.origin) now
      (fun id after =>
        Leads manifest here before known (targets ++ [target]) (ids ++ [id]) [] after)
      (fun _ _ => True) := by
  obtain ⟨new, own, inside, hnow⟩ := hnow
  apply (h here target now (known ++ own) hnow.sited).imp
  rintro id after ⟨more, own', inside', hafter⟩
  exact ⟨_, _, _, hnow.append hafter⟩

/-- Following the successor as well, if it takes effect, and else noting it. -/
theorem guides_successor (h : Guides manifest follow)
    (hnow : Leads manifest here before known targets ids [] now) (next : Option Target)
    (ended : Bool) :
    Ensures (successor here.resource (follow here.resource) next ended here.origin) now
      (fun id after => Leads manifest here before known
        (targets ++ (effective next ended).toList) (ids ++ id.toList)
        (noteOf here.resource next ended here.origin) after)
      (fun _ _ => True) := by
  apply ensures_successor_note
  · intro hnone
    obtain ⟨new, own, inside, hnow⟩ := hnow
    rw [hnone]
    exact ⟨_, _, _, hnow.append (.nothing hnow.sited rfl rfl rfl)⟩
  · intro target hsome
    rw [hsome, noteOf_eq_nil hsome]
    exact guides_next h hnow target

/-! ## Leaf tasks -/

theorem node?_toward_leaf {name : String} {task : LeafTask}
    (htask : here.resource.task? name = some task) :
    (here.toward (.leaf name)).node? = some (.task task) := by
  show (here.resource.task? name).map DeclaredNode.task = _
  rw [htask]
  rfl

theorem targets_leaf {name : String} {task : LeafTask}
    (htask : here.resource.task? name = some task) :
    (here.toward (.leaf name)).targets = task.targets := by
  rw [Site.targets, node?_toward_leaf htask]
  rfl

/-- What is noted for a leaf task. -/
theorem notices_leaf {name : String} {task : LeafTask}
    (htask : here.resource.task? name = some task) :
    Site.notices [here.toward (.leaf name)] =
      noteOf here.resource task.next task.ended name := by
  rw [Site.notices_singleton, Site.ignoresNext, node?_toward_leaf htask]
  rfl

theorem guides_leaf (h : Guides expansion.manifest follow)
    (hbefore : Sited here.inProgress here.resource before known) (name : String) :
    Ensures (expansion.leaf here.resource (follow here.resource) name) before
      (fun id after =>
        Leads expansion.manifest here before known [.leaf name] [id] [] after)
      (fun _ _ => True) := by
  refine ensures_leaf ?_ (fun _ => trivial) (fun _ _ _ => trivial) ?_
  · intro id hid
    exact ⟨_, _, _, .again hbefore (hbefore.registered name id hid)⟩
  · intro task functionName _ htask _
    obtain rfl : task.name = name := Resource.name_of_task? htask
    -- From here on the site of the task is known to its own targets, filled or not.
    let site : Site := here.toward (.leaf task.name)
    have hentered : Sited site.inProgress site.resource
        (before.enterTask (expansion.source here.resource task before.units).2 task.name)
        (known ++ [site]) := hbefore.enterTask _ task.name
    refine (Ensures.mapM (fun done catches now => Leads expansion.manifest site
      (before.enterTask (expansion.source here.resource task before.units).2 task.name)
      (known ++ [site]) (done.map CatchRule.next) (catches.map CatchTransition.next) [] now)
      (leads_nothing hentered) ?_).imp ?_
    · intro done rule _ catches now _ hnow
      simp only [ensures_bind, ensures_pure]
      rw [List.map_append]
      apply (guides_next h hnow rule.next).imp
      intro id after hafter
      rw [List.map_append]
      exact hafter
    · intro catches now hnow
      apply (guides_successor h hnow task.next task.ended).imp
      rintro next last ⟨new, own, inside, hlast⟩
      have hignored : (before.enterTask (expansion.source here.resource task before.units).2
          task.name).ignored.Perm (before.ignored ++ Site.notices []) :=
        .of_eq (List.append_nil _).symm
      exact ⟨_, _, _, .close hbefore rfl hignored (targets_leaf htask) (notices_leaf htask) hlast
        (.task rfl htask rfl rfl) rfl .nil⟩

/-! ## Control nodes -/

/-- A graph that is entered at a site. -/
theorem guides_graph (h : Guides manifest follow) (entry : Site) (entered : Progress σ)
    (hscope : entered.scope = {}) (hinProgress : entered.inProgress = entry.inProgress) :
    Ensures (follow entry.resource entry.target entry.origin) entered
      (fun start after => ∃ sites, manifest.Attributes entry (after.scope.toGraph start) sites ∧
        after.inProgress = entered.inProgress ∧
        after.ignored.Perm (entered.ignored ++ Site.notices sites))
      (fun _ _ => True) := by
  have hempty : Sited entry.inProgress entry.resource entered [] := by
    refine ⟨by rw [hscope]; rfl, ?_, hinProgress⟩
    intro name id hid
    rw [hscope] at hid
    cases hid
  apply (h entry entry.target entered [] hempty).imp
  rintro start after ⟨new, own, inside, hled⟩
  have hstates : (after.scope.toGraph start).states = new := by
    show after.scope.states = new
    rw [hled.states, hscope]
    rfl
  have hstart : own[start]? = some entry.settled := (List.forall₂_cons.mp hled.leads).1
  refine ⟨own ++ inside, .graph hstart ?_, hled.sited.inProgress.trans hinProgress.symm, ?_⟩
  · rw [hstates]
    exact hled.attributes
  · have hignored := hled.ignored
    rwa [List.append_nil] at hignored

/-- The graphs inside a node were made, and then its targets were followed. -/
structure Opened (manifest : Manifest) (site : Site) (before : Progress σ) (known : List Site)
    (name : String) (kind : StateKind) (next : Option StateId) (after : Progress σ)
    (entries sites : List Site) (middle : Progress σ) : Prop where
  embeds : site.Embeds manifest name entries
  attributes : manifest.AttributesGraphs entries kind.nested sites
  scope : middle.scope = before.scope
  ignored : middle.ignored.Perm (before.ignored ++ Site.notices sites)
  leads : Leads manifest site middle known site.targets (kind.targets ++ next.toList)
    (Site.notices [site]) after

/-- A control node was opened. -/
def Opens (manifest : Manifest) (here : Site) (control : ControlNode) (before : Progress σ)
    (known : List Site) (name : String) (answer : StateKind × Option StateId)
    (after : Progress σ) : Prop :=
  answer.1.word? = some control.kind ∧ ∃ entries sites middle,
    Opened manifest (here.toward (.inline control)) before known name answer.1 answer.2 after
      entries sites middle

/-- A node without graphs inside. -/
theorem opens_of_leads {control : ControlNode} {name : String} {kind : StateKind}
    {next : Option StateId} {noted : List IgnoredNext} {after : Progress σ}
    (hkind : kind.word? = some control.kind)
    (hembeds : (here.toward (.inline control)).Embeds manifest name []) (hnested : kind.nested = [])
    (hids : kind.targets ++ next.toList = ids)
    (hnoted : Site.notices [here.toward (.inline control)] = noted)
    (h : Leads manifest (here.toward (.inline control)) before known control.targets ids noted
      after) :
    Opens manifest here control before known name (kind, next) after := by
  refine ⟨hkind, [], [], before, hembeds, ?_, rfl, .of_eq (List.append_nil _).symm, ?_⟩
  · rw [hnested]
    exact .nil
  · rw [hids, hnoted]
    exact h

/-- What is noted for a node that declares both an end and a successor. -/
theorem notices_pass (next : Option Target) (ended : Bool) :
    Site.notices [here.toward (.inline (.pass next ended))] =
      noteOf here.resource next ended here.origin :=
  Site.notices_singleton _

theorem notices_parallel (branches : List Target) (next : Option Target) (ended : Bool) :
    Site.notices [here.toward (.inline (.parallel branches next ended))] =
      noteOf here.resource next ended here.origin :=
  Site.notices_singleton _

theorem opens_choice (h : Guides manifest follow)
    (hbefore : Sited here.inProgress here.resource before known) (branches : List ChoiceBranch)
    (otherwise : Option Target) (name : String) :
    Ensures (expansion.nodeKind follow here.resource here.origin name
        (.choice branches otherwise)) before
      (Opens manifest here (.choice branches otherwise) before known name) (fun _ _ => True) := by
  let site : Site := here.toward (.inline (.choice branches otherwise))
  have hsite : Sited site.inProgress site.resource before known := hbefore
  refine ensures_choice (fun done choices now => Leads manifest site before known
    (done.map ChoiceBranch.next) (choices.map ChoiceTransition.next) [] now) (fun _ => trivial)
    (leads_nothing hsite) ?_ ?_ ?_ ?_
  · intro _ _ _ _ _ _ _ _ _
    trivial
  · intro done branch _ choices now condition _ hnow _
    apply (guides_next h hnow branch.next).imp
    intro id after hafter
    rw [List.map_append, List.map_append]
    exact hafter
  · rintro rfl choices now _ hnow
    have hids : (StateKind.choice choices none).targets ++ (none : Option StateId).toList =
        choices.map ChoiceTransition.next := by
      simp [StateKind.targets]
    refine opens_of_leads rfl rfl rfl hids (Site.notices_singleton _) ?_
    rwa [ControlNode.targets, Option.toList_none, List.append_nil]
  · rintro target rfl choices now _ hnow
    apply (guides_next h hnow target).imp
    intro id after hafter
    exact opens_of_leads rfl rfl rfl (List.append_nil _) (Site.notices_singleton _) hafter

theorem opens_parallel (h : Guides manifest follow)
    (hbefore : Sited here.inProgress here.resource before known) (branches : List Target)
    (next : Option Target) (ended : Bool) (name : String) :
    Ensures (expansion.nodeKind follow here.resource here.origin name
        (.parallel branches next ended)) before
      (Opens manifest here (.parallel branches next ended) before known name)
      (fun _ _ => True) := by
  let site : Site := here.toward (.inline (.parallel branches next ended))
  refine ensures_parallel (fun done graphs now => ∃ sites,
    manifest.AttributesGraphs (done.map site.inner) graphs sites ∧
    now.scope = before.scope ∧ now.inProgress = before.inProgress ∧
    now.ignored.Perm (before.ignored ++ Site.notices sites))
    (fun _ => trivial) ⟨[], .nil, rfl, rfl, .of_eq (List.append_nil _).symm⟩ ?_ ?_
  · -- A branch has a graph of its own; of what was there before, only the notes go on.
    rintro done branch _ graphs now _ ⟨sites, hsites, hscope, hprogress, hignored⟩
    have hentered : now.inProgress = (site.inner branch).inProgress :=
      hprogress.trans hbefore.inProgress
    apply (guides_graph h (site.inner branch) { now with scope := {} } rfl hentered).imp
    rintro start after ⟨more, hmore, hafter, hnoted⟩
    refine ⟨sites ++ more, ?_, hscope, hafter.trans hprogress, ?_⟩
    · rw [List.map_append]
      exact hsites.append (.single hmore)
    · rw [Site.notices_append, ← List.append_assoc]
      exact hnoted.trans (hignored.append_right _)
  · rintro graphs now _ ⟨sites, hsites, hscope, hprogress, hignored⟩
    have hsite : Sited site.inProgress site.resource now known :=
      ⟨hscope ▸ hbefore.length_eq, hscope ▸ hbefore.registered, hprogress.trans hbefore.inProgress⟩
    apply (guides_successor h (leads_nothing hsite) next ended).imp
    intro id after hafter
    refine ⟨rfl, branches.map site.inner, sites, now, rfl, hsites, hscope, hignored, ?_⟩
    rw [notices_parallel]
    exact hafter

theorem opens_map_node (h : Guides expansion.manifest follow)
    (hbefore : Sited here.inProgress here.resource before known) (items : ValueSource)
    (processor : String) (maxConcurrency : Option UInt32) (next : Option Target)
    (name : String) :
    Ensures (expansion.nodeKind follow here.resource here.origin name
        (.map items processor maxConcurrency next)) before
      (Opens expansion.manifest here (.map items processor maxConcurrency next) before known name)
      (fun _ _ => True) := by
  let site : Site := here.toward (.inline (.map items processor maxConcurrency next))
  refine ensures_map_node (fun _ => trivial) (fun _ => trivial) (fun _ _ _ => trivial)
    (fun _ _ _ => trivial) (fun _ _ _ _ _ _ => trivial) ?_
  intro itemsPath iterator _ hiterator _ hfree _
  let entry : Site := .unit here.inProgress iterator iterator.startAt
    (entryName iterator.startAt ("start-" ++ name))
  have hentered : (before.enterUnit iterator.name).inProgress = entry.inProgress :=
    congrArg (iterator.name :: ·) hbefore.inProgress
  apply (guides_graph h entry (before.enterUnit iterator.name) rfl hentered).imp
  rintro start after ⟨sites, hsites, hafter, hignored⟩
  have hprogress : (after.leaveUnit before).inProgress = before.inProgress := by
    show after.inProgress.tail = before.inProgress
    rw [hafter]
    rfl
  have hsite : Sited site.inProgress site.resource (after.leaveUnit before) known :=
    ⟨hbefore.length_eq, hbefore.registered, hprogress.trans hbefore.inProgress⟩
  apply (guides_successor h (leads_nothing hsite) next false).imp
  intro id final hfinal
  have hembeds : site.Embeds expansion.manifest name [entry] :=
    ⟨iterator, hiterator, hbefore.inProgress ▸ hfree, rfl⟩
  refine ⟨rfl, [entry], sites, after.leaveUnit before, hembeds, .single hsites, rfl, hignored, ?_⟩
  -- A map declares no end, so that nothing can be noted for it.
  rw [Site.notices_singleton]
  exact hfinal

theorem opens_nodeKind (h : Guides expansion.manifest follow)
    (hbefore : Sited here.inProgress here.resource before known) (control : ControlNode)
    (name : String) :
    Ensures (expansion.nodeKind follow here.resource here.origin name control) before
      (Opens expansion.manifest here control before known name) (fun _ _ => True) := by
  have hsite : Sited (here.toward (.inline control)).inProgress
      (here.toward (.inline control)).resource before known := hbefore
  have hstart : Leads expansion.manifest (here.toward (.inline control)) before known [] [] []
      before := leads_nothing hsite
  cases control with
  | wait seconds next =>
      refine ensures_wait ((guides_next h hstart next).imp ?_)
      exact fun _ _ hafter => opens_of_leads rfl rfl rfl rfl (Site.notices_singleton _) hafter
  | fail cause error => exact opens_of_leads rfl rfl rfl rfl (Site.notices_singleton _) hstart
  | pass next ended =>
      refine ensures_pass ((guides_successor h hstart next ended).imp ?_)
      exact fun _ _ hafter => opens_of_leads rfl rfl rfl rfl (notices_pass next ended) hafter
  | succeed => exact opens_of_leads rfl rfl rfl rfl (Site.notices_singleton _) hstart
  | choice branches otherwise => exact opens_choice h hbefore branches otherwise name
  | parallel branches next ended => exact opens_parallel h hbefore branches next ended name
  | map items processor maxConcurrency next =>
      exact opens_map_node h hbefore items processor maxConcurrency next name

theorem guides_node (h : Guides expansion.manifest follow)
    (hbefore : Sited here.inProgress here.resource before known) (control : ControlNode) :
    Ensures (expansion.node follow here.resource control here.origin) before
      (fun id after =>
        Leads expansion.manifest here before known [.inline control] [id] [] after)
      (fun _ _ => True) := by
  have hentered := hbefore.enterNode (here.toward (.inline control)) control.kind here.origin
  refine ensures_node ((opens_nodeKind h hentered control _).imp ?_)
  rintro ⟨kind, next⟩ last ⟨hkind, entries, sites, middle, hopened⟩
  obtain ⟨new, own, inside, hled⟩ := hopened.leads
  have hstates : middle.scope.states = before.scope.states ++
      [⟨(before.names.allocate control.kind here.origin).1, .pass, none⟩] := by
    rw [hopened.scope]
    rfl
  exact ⟨_, _, _, .close hbefore hstates hopened.ignored rfl rfl hled
    (.control rfl hkind before.names rfl) hopened.embeds hopened.attributes⟩

end Steps

/-! ## Any number of levels -/

variable {σ : Type}

theorem guides_follow (expansion : Expansion σ) (levels : Nat) :
    Guides expansion.manifest (expansion.follow levels) := by
  induction levels with
  | zero =>
      intro here target before known _
      exact trivial
  | succ levels ih =>
      intro here target before known hbefore
      cases target with
      | leaf name => exact guides_leaf ih hbefore name
      | inline control => exact guides_node ih hbefore control

/-- What is noted while a graph is made are the notices of the sites that its states are made
at. -/
theorem notes_compile {expansion : Expansion σ} {resource : Resource}
    {before after : Progress σ} {graph : StateGraph}
    (h : run (expansion.compile resource) before = (.ok graph, after)) :
    ∃ sites, expansion.manifest.Attributes (.start before.inProgress resource) graph sites ∧
      after.ignored.Perm (before.ignored ++ Site.notices sites) := by
  have hcompile : Ensures (expansion.compile resource) before
      (fun graph after => ∃ sites,
        expansion.manifest.Attributes (.start before.inProgress resource) graph sites ∧
        after.ignored.Perm (before.ignored ++ Site.notices sites))
      (fun _ _ => True) := by
    unfold compile
    split
    · refine ensures_unit (fun _ _ => trivial) ?_
      intro _
      apply (guides_graph (guides_follow expansion _) (.start before.inProgress resource)
        (before.enterUnit resource.name) rfl rfl).imp
      rintro start final ⟨sites, hsites, _, hignored⟩
      exact ⟨sites, hsites, hignored⟩
    · exact trivial
  exact hcompile.of_ok h

end Expansion

end TaskMachine
