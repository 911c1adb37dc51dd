import TaskMachine.Machine.Transitions
import Mathlib.Logic.Relation

/-!
# What can be reached in a graph

`TransitionGraph.Goes` is one transition between numbers, `TransitionGraph.Reaches`
any number of them.  `Search` is the search with a stack, without any limit: it is about what
comes of the search if it ends.  It does end, and finds exactly what is reached, in whatever
order the targets of a number are put on the stack (`exists_search`, `Search.mem_iff`): every
step takes one number off the stack, and puts on it the targets of transitions that were
never used before.  So the visit of `TransitionGraph.reachableFrom` does not meet the limit
of its steps before the stack is empty (`search_visit`, `mem_reachableFrom_iff`).
-/

namespace TaskMachine

namespace TransitionGraph

variable {graph : TransitionGraph}

/-- One transition leads from the source to the target. -/
def Goes (graph : TransitionGraph) (source target : StateId) : Prop :=
  (source, target) ∈ graph.edges

/-- Transitions, possibly none, lead from the source to the target. -/
def Reaches (graph : TransitionGraph) : StateId → StateId → Prop :=
  Relation.ReflTransGen graph.Goes

theorem mem_successors {source target : StateId} :
    target ∈ graph.successors source ↔ graph.Goes source target := by
  unfold successors Goes
  rw [List.mem_filterMap]
  constructor
  · rintro ⟨⟨first, second⟩, hedge, hsome⟩
    by_cases hfirst : first = source
    · simp only [hfirst, if_true, Option.some.injEq] at hsome
      rw [← hfirst, ← hsome]
      exact hedge
    · simp [hfirst] at hsome
  · intro hedge
    exact ⟨(source, target), hedge, by simp⟩

theorem length_successors (graph : TransitionGraph) (id : StateId) :
    (graph.successors id).length = graph.edges.countP fun edge => edge.1 = id := by
  unfold successors
  rw [List.length_filterMap_eq_countP]
  congr 1
  funext edge
  by_cases h : edge.1 = id <;> simp [h]

/-- How many transitions come from numbers that were not seen. -/
def unseen (graph : TransitionGraph) (seen : List StateId) : Nat :=
  graph.edges.countP fun edge => edge.1 ∉ seen

/-- A number that is seen for the first time uses up its own transitions. -/
theorem unseen_eq_add {id : StateId} {seen : List StateId} (h : id ∉ seen) :
    graph.unseen seen = (graph.successors id).length + graph.unseen (id :: seen) := by
  rw [length_successors]
  unfold unseen
  induction graph.edges with
  | nil => simp
  | cons edge rest ih =>
      rw [List.countP_cons, List.countP_cons, List.countP_cons, ih]
      by_cases hsource : edge.1 = id
      · simp [hsource, h]
        omega
      · simp [hsource]
        omega

/-- Whatever the numbers that were seen lead to was seen as well, or is on the stack. -/
def Pending (graph : TransitionGraph) (stack seen : List StateId) : Prop :=
  ∀ id ∈ seen, ∀ target, graph.Goes id target → target ∈ seen ∨ target ∈ stack

/-- A number that was seen is not needed on the stack. -/
theorem Pending.drop {first : StateId} {stack seen : List StateId}
    (h : graph.Pending (first :: stack) seen) (hfirst : first ∈ seen) :
    graph.Pending stack seen := by
  intro id hid target hgoes
  rcases h id hid target hgoes with htarget | htarget
  · exact .inl htarget
  · rcases List.mem_cons.mp htarget with rfl | htarget
    · exact .inl hfirst
    · exact .inr htarget

/-- A number is seen when its targets come on the stack. -/
theorem Pending.push {first : StateId} {stack seen : List StateId}
    (h : graph.Pending (first :: stack) seen) :
    graph.Pending (graph.successors first ++ stack) (first :: seen) := by
  intro id hid target hgoes
  rcases List.mem_cons.mp hid with rfl | hid
  · exact .inr (List.mem_append_left stack (mem_successors.mpr hgoes))
  · rcases h id hid target hgoes with htarget | htarget
    · exact .inl (List.mem_cons_of_mem first htarget)
    · rcases List.mem_cons.mp htarget with rfl | htarget
      · exact .inl List.mem_cons_self
      · exact .inr (List.mem_append_right _ htarget)

/-- More on the stack does no harm. -/
theorem Pending.of_subset {stack larger seen : List StateId} (h : graph.Pending stack seen)
    (hsubset : stack ⊆ larger) : graph.Pending larger seen :=
  fun id hid target hgoes => (h id hid target hgoes).imp_right fun hmem => hsubset hmem

/-- A search goes on until the stack is empty: a number that was seen is dropped, and from one
that is seen for the first time the search goes on to what comes next. -/
inductive Search (next : StateId → List StateId) :
    (stack seen found : List StateId) → Prop
  | done (seen : List StateId) : Search next [] seen seen
  | drop {id : StateId} {stack seen found : List StateId} (hid : id ∈ seen)
      (h : Search next stack seen found) : Search next (id :: stack) seen found
  | push {id : StateId} {stack seen found : List StateId} (hid : id ∉ seen)
      (h : Search next (next id ++ stack) (id :: seen) found) :
      Search next (id :: stack) seen found

/-- What comes next are the targets of a number, in an order of its own. -/
def Arranges (graph : TransitionGraph) (next : StateId → List StateId) : Prop :=
  ∀ id, (next id).Perm (graph.successors id)

section Search

variable {next : StateId → List StateId} {stack seen found : List StateId}

/-- A search has one end only. -/
theorem Search.unique {other : List StateId} (h : Search next stack seen found)
    (h' : Search next stack seen other) : other = found := by
  induction h with
  | done seen =>
      cases h'
      rfl
  | drop hid _ ih =>
      cases h' with
      | drop _ h' => exact ih h'
      | push hnew _ => exact absurd hid hnew
  | push hid _ ih =>
      cases h' with
      | drop hold _ => exact absurd hold hid
      | push _ h' => exact ih h'

theorem Search.nodup (h : Search next stack seen found) (hseen : seen.Nodup) :
    found.Nodup := by
  induction h with
  | done seen => exact hseen
  | drop _ _ ih => exact ih hseen
  | push hid _ ih => exact ih (List.nodup_cons.mpr ⟨hid, hseen⟩)

/-- A search takes in what is on the stack and what was seen, and nothing is pending after
it. -/
theorem Search.closed (hnext : graph.Arranges next) (h : Search next stack seen found)
    (hseen : graph.Pending stack seen) :
    (∀ id, id ∈ seen ∨ id ∈ stack → id ∈ found) ∧ graph.Pending [] found := by
  induction h with
  | done seen =>
      refine ⟨?_, hseen⟩
      rintro id (hid | hid)
      · exact hid
      · cases hid
  | drop hfirst _ ih =>
      obtain ⟨hall, hclosed⟩ := ih (hseen.drop hfirst)
      refine ⟨?_, hclosed⟩
      rintro id (hid | hid)
      · exact hall id (.inl hid)
      · rcases List.mem_cons.mp hid with rfl | hid
        · exact hall id (.inl hfirst)
        · exact hall id (.inr hid)
  | @push first stack seen _ _ _ ih =>
      have hsubset : graph.successors first ++ stack ⊆ next first ++ stack :=
        (((hnext first).append_right stack).symm).subset
      obtain ⟨hall, hclosed⟩ := ih (hseen.push.of_subset hsubset)
      refine ⟨?_, hclosed⟩
      rintro id (hid | hid)
      · exact hall id (.inl (List.mem_cons_of_mem first hid))
      · rcases List.mem_cons.mp hid with rfl | hid
        · exact hall id (.inl List.mem_cons_self)
        · exact hall id (.inr (List.mem_append_right _ hid))

/-- A search takes in nothing but what is reached from what it begins with. -/
theorem Search.reaches {start : StateId} (hnext : graph.Arranges next)
    (h : Search next stack seen found)
    (hbefore : ∀ id, id ∈ seen ∨ id ∈ stack → graph.Reaches start id) :
    ∀ id ∈ found, graph.Reaches start id := by
  induction h with
  | done seen => exact fun id hid => hbefore id (.inl hid)
  | @drop first _ _ _ _ _ ih =>
      refine ih fun id hid => hbefore id ?_
      exact hid.imp_right (List.mem_cons_of_mem first)
  | @push first _ _ _ _ _ ih =>
      have hfirst : graph.Reaches start first := hbefore first (.inr List.mem_cons_self)
      refine ih ?_
      rintro id (hid | hid)
      · rcases List.mem_cons.mp hid with rfl | hid
        · exact hfirst
        · exact hbefore id (.inl hid)
      · rcases List.mem_append.mp hid with hid | hid
        · exact hfirst.tail (mem_successors.mp ((hnext first).mem_iff.mp hid))
        · exact hbefore id (.inr (List.mem_cons_of_mem first hid))

/-- What is found from a start is what transitions lead to from there. -/
theorem Search.mem_iff {start id : StateId} (hnext : graph.Arranges next)
    (h : Search next [start] [] found) : id ∈ found ↔ graph.Reaches start id := by
  have hempty : graph.Pending [start] [] := by
    intro id hid
    cases hid
  obtain ⟨hall, hclosed⟩ := h.closed hnext hempty
  constructor
  · intro hid
    refine h.reaches hnext ?_ id hid
    rintro other (hother | hother)
    · cases hother
    · rw [List.mem_singleton.mp hother]
      exact .refl
  · intro hreaches
    induction hreaches with
    | refl => exact hall start (.inr (List.mem_singleton_self start))
    | tail _ hgoes ih => exact (hclosed _ ih _ hgoes).resolve_right List.not_mem_nil

/-- Every search ends. -/
theorem exists_search (hnext : graph.Arranges next) (stack seen : List StateId) :
    ∃ found, Search next stack seen found := by
  -- A drop makes the stack shorter; what is pushed was unseen by as much.
  induction hsize : stack.length + graph.unseen seen using Nat.strongRecOn
    generalizing stack seen with
  | ind size ih =>
      cases stack with
      | nil => exact ⟨seen, .done seen⟩
      | cons first stack =>
          rw [List.length_cons] at hsize
          by_cases hfirst : first ∈ seen
          · obtain ⟨found, hfound⟩ := ih _ (by omega) stack seen rfl
            exact ⟨found, .drop hfirst hfound⟩
          · have hunseen : graph.unseen seen =
                (graph.successors first).length + graph.unseen (first :: seen) :=
              unseen_eq_add hfirst
            have hlength := (hnext first).length_eq
            obtain ⟨found, hfound⟩ := ih _ (by rw [List.length_append]; omega)
              (next first ++ stack) (first :: seen) rfl
            exact ⟨found, .push hfirst hfound⟩

end Search

theorem arranges_successors (graph : TransitionGraph) : graph.Arranges graph.successors :=
  fun _ => .refl _

/-- With enough steps a visit is a search. -/
theorem search_visit {steps : Nat} {stack seen : List StateId}
    (hsteps : stack.length + graph.unseen seen < steps) :
    Search graph.successors stack seen (graph.visit steps stack seen) := by
  induction steps generalizing stack seen with
  | zero => omega
  | succ steps ih =>
      cases stack with
      | nil => exact .done seen
      | cons first stack =>
          rw [List.length_cons] at hsteps
          unfold visit
          by_cases hfirst : first ∈ seen
          · -- It is dropped: the stack is shorter, and nothing else has changed.
            rw [if_pos (List.contains_iff_mem.mpr hfirst)]
            exact .drop hfirst (ih (by omega))
          · -- Its targets come on the stack, and its transitions are used up.
            rw [if_neg (mt List.contains_iff_mem.mp hfirst)]
            have hunseen : graph.unseen seen =
                (graph.successors first).length + graph.unseen (first :: seen) :=
              unseen_eq_add hfirst
            exact .push hfirst (ih (by rw [List.length_append]; omega))

/-- The limit of `reachableFrom` is not met. -/
theorem search_reachableFrom (graph : TransitionGraph) (start : StateId) :
    Search graph.successors [start] [] (graph.visit (graph.edgeCount + 2) [start] []) := by
  have hle : graph.unseen [] ≤ graph.edges.length := List.countP_le_length
  refine search_visit ?_
  rw [List.length_singleton, edgeCount]
  omega

/-- The numbers that are found are those that transitions lead to. -/
theorem mem_reachableFrom_iff {start id : StateId} :
    id ∈ graph.reachableFrom start ↔ graph.Reaches start id := by
  unfold reachableFrom
  rw [List.mem_mergeSort]
  exact (graph.search_reachableFrom start).mem_iff graph.arranges_successors

end TransitionGraph

/-- A transition of a graph is one of a state that it has. -/
theorem StateGraph.goes_transitions_iff {graph : StateGraph} {source target : StateId} :
    graph.transitions.Goes source target ↔
      ∃ state, graph.states[source]? = some state ∧ target ∈ state.transitions := by
  unfold StateGraph.transitions TransitionGraph.ofGraph TransitionGraph.Goes
  simp only [List.mem_flatMap, List.mem_map, Prod.exists, Prod.mk.injEq]
  constructor
  · rintro ⟨state, id, hstate, other, hother, rfl, rfl⟩
    exact ⟨state, List.mem_zipIdx_iff_getElem?.mp hstate, hother⟩
  · rintro ⟨state, hstate, htarget⟩
    exact ⟨state, source, List.mem_zipIdx_iff_getElem?.mpr hstate, target, htarget, rfl, rfl⟩

end TaskMachine
