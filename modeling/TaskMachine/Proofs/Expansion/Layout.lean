import TaskMachine.Proofs.Expansion.Correspondence
import Mathlib.Data.List.Nodup

/-!
# Graphs in the making

While a graph is made, every state that is there has a place, whether it is filled
or only reserved (`Layout`).  `Added` compares two moments: which states came in
between, that every one of them is filled and right for its node, and where their
nodes stand: in a region of the declaration, or in a leaf task that was registered
in between.

The region is what keeps places distinct.  A node is entered only where nothing at
or below its place has a state (`Vacant`), and going from one node's step to its
next one never meets a place again, since only one step leads towards it.
-/

namespace TaskMachine

namespace Place

/-- Inside a node, behind one of certain steps. -/
def Inside (here : Place) (steps : Step → Prop) (place : Place) : Prop :=
  ∃ step, steps step ∧ (here.inside step).Below place

theorem Inside.mono {here place : Place} {steps steps' : Step → Prop}
    (h : here.Inside steps place) (hsteps : ∀ step, steps step → steps' step) :
    here.Inside steps' place := by
  obtain ⟨step, hstep, hbelow⟩ := h
  exact ⟨step, hsteps step hstep, hbelow⟩

theorem Inside.below {here place : Place} {steps : Step → Prop}
    (h : here.Inside steps place) : here.Below place := by
  obtain ⟨step, _, hbelow⟩ := h
  exact hbelow.of_inside

end Place

/-- The places of the states of a graph, filled or not. -/
structure Layout (scope : Scope) (places : List Place) : Prop where
  length_eq : places.length = scope.states.length
  distinct : places.Nodup
  registered : ∀ name id, scope.tasks.get? name = some id ↔
    places[id]? = some (.task name)
  owned : ∀ place ∈ places, ∀ name, place.owner = some name → .task name ∈ places

namespace Layout

variable {σ : Type} {before : Progress σ} {places : List Place}

theorem empty : Layout {} [] where
  length_eq := rfl
  distinct := List.nodup_nil
  registered := by
    intro name id
    show SortedMap.empty.get? name = some id ↔ _
    simp
  owned := by simp

/-- One more place is the last one. -/
theorem getElem?_concat_eq_some {here place : Place} {id : Nat} :
    (places ++ [here])[id]? = some place ↔
      places[id]? = some place ∨ (id = places.length ∧ here = place) := by
  rcases Nat.lt_trichotomy id places.length with hlt | heq | hgt
  · rw [List.getElem?_append_left hlt]
    have hne : id ≠ places.length := Nat.ne_of_lt hlt
    simp [hne]
  · subst heq
    simp
  · have hne : id ≠ places.length := Nat.ne_of_gt hgt
    have hlength : (places ++ [here]).length ≤ id := by
      rw [List.length_append, List.length_singleton]
      omega
    rw [List.getElem?_eq_none hlength, List.getElem?_eq_none (Nat.le_of_lt hgt)]
    simp [hne]

/-- A leaf task without a state has no place yet. -/
theorem not_mem_of_get?_eq_none (h : Layout before.scope places) {name : String}
    (hname : before.scope.tasks.get? name = none) : .task name ∉ places := by
  intro hmem
  obtain ⟨id, hid⟩ := List.mem_iff_getElem?.mp hmem
  rw [(h.registered name id).mpr hid] at hname
  cases hname

theorem enterTask (h : Layout before.scope places) {name : String}
    (hname : before.scope.tasks.get? name = none) (units : σ) :
    Layout (before.enterTask units name).scope (places ++ [.task name]) where
  length_eq := by
    show _ = ((before.scope.reserve _).register _ _).states.length
    simp [Scope.register, h.length_eq]
  distinct := by
    rw [← List.concat_eq_append]
    exact h.distinct.concat (h.not_mem_of_get?_eq_none hname)
  registered := by
    intro other id
    show ((before.scope.reserve _).register name before.scope.states.length).tasks.get?
      other = some id ↔ _
    rw [Scope.get?_register, getElem?_concat_eq_some, h.length_eq]
    show (if _ then _ else before.scope.tasks.get? other) = some id ↔ _
    by_cases hother : name = other
    -- The task had no state before, so its only state is the new one.
    · subst hother
      rw [if_pos rfl, ← h.registered, hname]
      simp [eq_comm]
    · rw [if_neg hother, h.registered]
      simp [hother]
  owned := by
    intro place hplace other howner
    rw [List.mem_append] at hplace ⊢
    rcases hplace with hplace | hplace
    · exact .inl (h.owned place hplace other howner)
    · rw [List.mem_singleton] at hplace
      subst hplace
      cases howner
      exact .inr (List.mem_singleton.mpr rfl)

theorem enterNode (h : Layout before.scope places) {here : Place} (hhere : here ∉ places)
    (hcontrol : ∀ name, here ≠ .task name)
    (howned : ∀ name, here.owner = some name → .task name ∈ places)
    (kind origin : String) :
    Layout (before.enterNode kind origin).scope (places ++ [here]) where
  length_eq := by
    show _ = (before.scope.reserve _).states.length
    simp [h.length_eq]
  distinct := by
    rw [← List.concat_eq_append]
    exact h.distinct.concat hhere
  registered := by
    intro name id
    rw [getElem?_concat_eq_some]
    show before.scope.tasks.get? name = some id ↔ _
    rw [h.registered]
    simp [hcontrol name]
  owned := by
    intro place hplace name howner
    rw [List.mem_append] at hplace ⊢
    rcases hplace with hplace | hplace
    · exact .inl (h.owned place hplace name howner)
    -- The owner of a control node was entered before the node.
    · rw [List.mem_singleton] at hplace
      exact .inl (howned name (hplace ▸ howner))

theorem fillState (h : Layout before.scope places) (id : StateId) (kind : StateKind)
    (next : Option StateId) : Layout (before.fillState id kind next).scope places where
  length_eq := by
    show _ = (before.scope.fill id kind next).states.length
    simp [h.length_eq]
  distinct := h.distinct
  registered := h.registered
  owned := h.owned

end Layout

/-- What a graph is made for. -/
structure Frame where
  inProgress : List String
  resource : Resource
  entry : Target

section Making

variable {σ : Type} (expansion : Expansion σ)
  (named : Resource → LeafTask → String → Prop) (fit : σ → Prop) (frame : Frame)

/-- A progress in which a graph is being made, with the places of its states. -/
structure Making (progress : Progress σ) (places : List Place) : Prop where
  layout : Layout progress.scope places
  inProgress : progress.inProgress = frame.inProgress
  fit : fit progress.units

/-- What was added to a graph: the places of the states that came, each of them
in the region or in a leaf task that came with them. -/
structure Added (region : Place → Prop) (before : Progress σ) (places : List Place)
    (after : Progress σ) (new : List Place) : Prop where
  making : Making fit frame after (places ++ new)
  states : before.scope.states <+: after.scope.states
  located : ∀ place ∈ new, region place ∨
    ∃ name, place.owner = some name ∧ .task name ∉ places
  filled : ∀ index place state, new[index]? = some place →
    after.scope.states[places.length + index]? = some state →
    StateOf expansion.manifest expansion.settings named frame.inProgress frame.resource
      frame.entry (places ++ new) place state

end Making

namespace Added

variable {σ : Type} {expansion : Expansion σ}
  {named : Resource → LeafTask → String → Prop} {fit : σ → Prop} {frame : Frame}
  {region region' : Place → Prop} {before middle after : Progress σ}
  {places new more : List Place}

theorem nothing (h : Making fit frame before places) :
    Added expansion named fit frame region before places before [] where
  making := by rwa [List.append_nil]
  states := List.prefix_rfl
  located := by simp
  filled := by simp

theorem widen (h : Added expansion named fit frame region before places after new)
    (hregion : ∀ place, region place → region' place) :
    Added expansion named fit frame region' before places after new where
  making := h.making
  states := h.states
  located := fun place hplace => (h.located place hplace).imp_left (hregion place)
  filled := h.filled

/-- What belongs to a leaf task that came is nobody else's. -/
theorem of_task {name : String}
    (h : Added expansion named fit frame (Place.task name).Below before places after new)
    (hname : .task name ∉ places) :
    Added expansion named fit frame region before places after new where
  making := h.making
  states := h.states
  located := by
    intro place hplace
    rcases h.located place hplace with hbelow | howned
    · exact .inr ⟨name, hbelow.owner_eq, hname⟩
    · exact .inr howned
  filled := h.filled

/-- A graph does not change while graphs inside it are made. -/
theorem resume (h : Added expansion named fit frame region before places middle new)
    (hscope : after.scope = middle.scope) (hinProgress : after.inProgress = middle.inProgress)
    (hfit : fit after.units) :
    Added expansion named fit frame region before places after new where
  making := ⟨hscope ▸ h.making.layout, hinProgress.trans h.making.inProgress, hfit⟩
  states := hscope ▸ h.states
  located := h.located
  filled := hscope ▸ h.filled

theorem trans (first : Added expansion named fit frame region before places middle new)
    (last : Added expansion named fit frame region middle (places ++ new) after more) :
    Added expansion named fit frame region before places after (new ++ more) where
  making := by
    rw [← List.append_assoc]
    exact last.making
  states := first.states.trans last.states
  located := by
    intro place hplace
    rcases List.mem_append.mp hplace with hnew | hmore
    · exact first.located place hnew
    · rcases last.located place hmore with hregion | ⟨name, howner, hname⟩
      · exact .inl hregion
      · exact .inr ⟨name, howner, fun h => hname (List.mem_append_left new h)⟩
  filled := by
    intro index place state hplace hstate
    rw [← List.append_assoc]
    rcases Nat.lt_or_ge index new.length with hlt | hge
    · -- A state that came first is still there, and right among more places, too.
      rw [List.getElem?_append_left hlt] at hplace
      have hbound : places.length + index < middle.scope.states.length := by
        rw [← first.making.layout.length_eq, List.length_append]
        exact Nat.add_lt_add_left hlt places.length
      have hsame := List.prefix_iff_getElem?.mp last.states _ hbound
      rw [hsame] at hstate
      refine (first.filled index place state hplace ?_).append more
      rw [← hstate, List.getElem?_eq_getElem hbound]
    · -- The other ones are those that came last, counted from where they begin.
      rw [List.getElem?_append_right hge] at hplace
      refine last.filled (index - new.length) place state hplace ?_
      rw [← hstate, List.length_append, Nat.add_assoc, Nat.add_sub_cancel' hge]

/-- The states inside a node came, and now its own state is filled. -/
theorem close {entered last : Progress σ} {here : Place} {node : DeclaredNode}
    {kind : StateKind} {next : Option StateId}
    (hbefore : Layout before.scope places)
    (hentered : before.scope.states <+: entered.scope.states)
    (h : Added expansion named fit frame region entered (places ++ [here]) last new)
    (hhere : region here ∨ ∃ name, here.owner = some name ∧ .task name ∉ places)
    (hnode : frame.resource.declaredAt? frame.entry here = some node)
    (hkind : KindOf expansion.manifest expansion.settings named frame.inProgress
      frame.resource (places ++ [here] ++ new) here node kind)
    (hnext : RefersIfAny (places ++ [here] ++ new) (here.inside .next) (node.at? .next)
      next) :
    Added expansion named fit frame region before places
      (last.fillState before.scope.states.length kind next) (here :: new) where
  making := by
    rw [List.append_cons]
    exact ⟨h.making.layout.fillState _ kind next, h.making.inProgress, h.making.fit⟩
  states := Scope.prefix_states_fill (hentered.trans h.states) (Nat.le_refl _) kind next
  located := by
    intro place hplace
    rcases List.mem_cons.mp hplace with rfl | hnew
    · exact hhere
    · rcases h.located place hnew with hregion | ⟨name, howner, hname⟩
      · exact .inl hregion
      · exact .inr ⟨name, howner, fun h => hname (List.mem_append_left _ h)⟩
  filled := by
    intro index place state hplace hstate
    rw [List.append_cons]
    have hlength := hbefore.length_eq
    cases index with
    | zero =>
        -- The first of the new states is the one of the node, which is filled now.
        rw [List.getElem?_cons_zero] at hplace
        cases hplace
        replace hstate : (last.scope.states.modify before.scope.states.length _)[
            places.length]? = some state := hstate
        rw [hlength, List.getElem?_modify_eq] at hstate
        obtain ⟨reserved, _, rfl⟩ := Option.map_eq_some_iff.mp hstate
        exact .made node hnode hkind hnext
    | succ index =>
        -- Filling it leaves the others as they were.
        rw [List.getElem?_cons_succ] at hplace
        have hne : before.scope.states.length ≠ places.length + (index + 1) := by
          rw [hlength]
          exact Nat.ne_of_lt (Nat.lt_add_of_pos_right (Nat.succ_pos index))
        replace hstate : (last.scope.states.modify before.scope.states.length _)[
            places.length + (index + 1)]? = some state := hstate
        rw [List.getElem?_modify_ne _ _ hne] at hstate
        refine h.filled index place state hplace ?_
        rw [← hstate, List.length_append, List.length_singleton, Nat.add_assoc,
          Nat.add_comm 1 index]

end Added

end TaskMachine
