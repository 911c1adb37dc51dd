import TaskMachine.Compile.GuardCondition
import TaskMachine.Proofs.Expansion.Sites
import Mathlib.Data.List.Forall2

/-!
# Guards that have conditions

`Guard.Translatable` is what a guard needs itself, whatever the guards inside it are, and
`Guard.Faulty` which fault it has where something is missing.  `Guard.nodes` lists a guard
and the guards inside it, each before those inside it.  `Guard.Becomes` relates guards and
conditions of one shape, leaf by leaf.  None of these speaks of the translation.

`condition_spec` says that a guard has a condition exactly where all its nodes are
translatable, that this is the condition it becomes, and that otherwise the fault is that of
the first node that is not.
-/

namespace TaskMachine
namespace Comparison

/-- The comparison takes a value that is declared. -/
def Compares : Comparison → Prop
  | .literal _ | .path _ => True
  | .check _ _ => False

/-- Which comparator and operand a comparison comes to with the value that is declared.
A value is nothing to a check. -/
inductive Takes : Comparison → Option Json → Comparator → Operand → Prop
  | literal (comparator : Comparator) (value : Json) :
      Takes (.literal comparator) (some value) comparator (.value value)
  | path (comparator : Comparator) {value : Json} {target : String}
      (h : value.asString? = some target) :
      Takes (.path comparator) (some value) comparator (.path target)
  | check (comparator : Comparator) (expected : Bool) (value : Option Json) :
      Takes (.check comparator expected) value comparator (.flag expected)

end Comparison

theorem ValueSource.path?_eq_some_iff {source : ValueSource} {target : String} :
    source.path? = some target ↔ source.resolve = .path target := by
  unfold path?
  cases source.resolve <;> simp

namespace Guard

/-- What a comparison or a check needs: a mode of the table, a subject that is no literal, a
value if the mode compares, and a string if it compares with a path. -/
structure LeafTranslatable (mode : String) (subject : ValueSource) (value : Option Json) :
    Prop where
  known : ∃ comparison, Comparison.ofMode? mode = some comparison
  reference : ¬ subject.IsLiteral
  present : ∀ comparison, Comparison.ofMode? mode = some comparison → comparison.Compares →
    value.isSome
  text : ∀ comparator, Comparison.ofMode? mode = some (.path comparator) →
    ∀ json, value = some json → json.asString?.isSome

/-- The fault of a comparison or a check, which is judged by its mode, then by its subject,
then by whether there is a value, then by what that is. -/
inductive LeafFaulty (mode : String) (subject : ValueSource) (value : Option Json) :
    ConditionFault → Prop
  | unknownMode (h : Comparison.ofMode? mode = none) :
      LeafFaulty mode subject value (.unknownMode mode)
  | literalVariable {comparison : Comparison}
      (hmode : Comparison.ofMode? mode = some comparison) (h : subject.IsLiteral) :
      LeafFaulty mode subject value (.literalVariable mode)
  | missingValue {comparison : Comparison}
      (hmode : Comparison.ofMode? mode = some comparison) (hsubject : ¬ subject.IsLiteral)
      (hcompares : comparison.Compares) (h : value = none) :
      LeafFaulty mode subject value (.missingValue mode)
  | invalidPathOperand {comparator : Comparator} {json : Json}
      (hmode : Comparison.ofMode? mode = some (.path comparator))
      (hsubject : ¬ subject.IsLiteral) (hvalue : value = some json)
      (h : json.asString? = none) :
      LeafFaulty mode subject value (.invalidPathOperand mode)

/-- The comparison that a comparison or a check becomes: of the path of its subject, with
the comparator of its mode and the operand that this takes. -/
inductive LeafBecomes (mode : String) (subject : ValueSource) (value : Option Json) :
    Condition → Prop
  | compare {target : String} {comparison : Comparison} {comparator : Comparator}
      {operand : Operand} (hsubject : subject.resolve = .path target)
      (hmode : Comparison.ofMode? mode = some comparison)
      (htakes : comparison.Takes value comparator operand) :
      LeafBecomes mode subject value (.compare target comparator operand)

/-- What a guard needs itself. -/
def Translatable : Guard → Prop
  | .combined _ guards => guards ≠ []
  | .not _ => True
  | .comparison mode subject value => LeafTranslatable mode subject (some value)
  | .check mode subject => LeafTranslatable mode subject none

/-- The fault that a guard has itself. -/
inductive Faulty : Guard → ConditionFault → Prop
  | combined (combinator : Combinator) :
      Faulty (.combined combinator []) (.emptyCombinator combinator.keyword)
  | comparison {mode : String} {subject : ValueSource} {value : Json} {fault : ConditionFault}
      (h : LeafFaulty mode subject (some value) fault) :
      Faulty (.comparison mode subject value) fault
  | check {mode : String} {subject : ValueSource} {fault : ConditionFault}
      (h : LeafFaulty mode subject none fault) : Faulty (.check mode subject) fault

/-- A guard and a condition of the same shape, with the conditions of all leaves. -/
inductive Becomes : Guard → Condition → Prop
  | and {guards : List Guard} {conditions : List Condition}
      (h : List.Forall₂ Becomes guards conditions) :
      Becomes (.combined .and guards) (.and conditions)
  | or {guards : List Guard} {conditions : List Condition}
      (h : List.Forall₂ Becomes guards conditions) :
      Becomes (.combined .or guards) (.or conditions)
  | not {guard : Guard} {condition : Condition} (h : Becomes guard condition) :
      Becomes (.not guard) (.not condition)
  | comparison {mode : String} {subject : ValueSource} {value : Json} {condition : Condition}
      (h : LeafBecomes mode subject (some value) condition) :
      Becomes (.comparison mode subject value) condition
  | check {mode : String} {subject : ValueSource} {condition : Condition}
      (h : LeafBecomes mode subject none condition) : Becomes (.check mode subject) condition

mutual

/-- A guard and the guards inside it, each before those inside it. -/
def nodes : Guard → List Guard
  | .combined combinator guards => .combined combinator guards :: nodesOf guards
  | .not guard => .not guard :: guard.nodes
  | .comparison mode subject value => [.comparison mode subject value]
  | .check mode subject => [.check mode subject]

/-- The nodes of several guards. -/
def nodesOf : List Guard → List Guard
  | [] => []
  | guard :: rest => guard.nodes ++ nodesOf rest

end

/-- The fault is that of the first node that is not translatable. -/
def FirstFault (nodes : List Guard) (fault : ConditionFault) : Prop :=
  ∃ before node after, nodes = before ++ node :: after ∧
    (∀ earlier ∈ before, earlier.Translatable) ∧ node.Faulty fault

/-! ## One leaf -/

section Leaf

variable {mode : String} {subject : ValueSource} {value : Option Json}

theorem LeafFaulty.not_translatable {fault : ConditionFault}
    (h : LeafFaulty mode subject value fault) : ¬ LeafTranslatable mode subject value := by
  intro htranslatable
  cases h with
  | unknownMode hmode =>
      obtain ⟨comparison, hsome⟩ := htranslatable.known
      rw [hmode] at hsome
      cases hsome
  | literalVariable _ hliteral => exact htranslatable.reference hliteral
  | missingValue hmode _ hcompares hnone =>
      have hsome := htranslatable.present _ hmode hcompares
      rw [hnone] at hsome
      cases hsome
  | invalidPathOperand hmode _ hvalue hnone =>
      have hsome := htranslatable.text _ hmode _ hvalue
      rw [hnone] at hsome
      cases hsome

/-- The first thing that is missing decides. -/
theorem LeafFaulty.unique {fault other : ConditionFault}
    (h : LeafFaulty mode subject value fault) (h' : LeafFaulty mode subject value other) :
    other = fault := by
  cases h with
  | unknownMode hmode => cases h' <;> simp_all
  | literalVariable hmode hliteral => cases h' <;> simp_all
  | missingValue hmode hsubject hcompares hnone => cases h' <;> simp_all
  | invalidPathOperand hmode hsubject hvalue hnone => cases h' <;> simp_all

theorem Faulty.unique {guard : Guard} {fault other : ConditionFault} (h : guard.Faulty fault)
    (h' : guard.Faulty other) : other = fault := by
  cases h with
  | combined combinator =>
      cases h'
      rfl
  | comparison h =>
      cases h' with
      | comparison h' => exact h.unique h'
  | check h =>
      cases h' with
      | check h' => exact h.unique h'

theorem Faulty.not_translatable {guard : Guard} {fault : ConditionFault}
    (h : guard.Faulty fault) : ¬ guard.Translatable := by
  cases h with
  | combined combinator => exact fun hne => hne rfl
  | comparison h => exact h.not_translatable
  | check h => exact h.not_translatable

/-- The operand of a comparison in a known mode, with a subject that is no literal. -/
theorem operand_spec (value : Option Json) {comparison : Comparison}
    (hmode : Comparison.ofMode? mode = some comparison) (hsubject : ¬ subject.IsLiteral) :
    match comparison.operand mode value with
    | .ok (comparator, operand) =>
      LeafTranslatable mode subject value ∧ comparison.Takes value comparator operand
    | .error fault => LeafFaulty mode subject value fault := by
  have htranslatable (hpresent : comparison.Compares → value.isSome)
      (htext : ∀ comparator, comparison = .path comparator → ∀ json, value = some json →
        json.asString?.isSome) : LeafTranslatable mode subject value := by
    refine ⟨⟨comparison, hmode⟩, hsubject, ?_, ?_⟩
    · intro other hother
      obtain rfl := Option.some.inj (hmode.symm.trans hother)
      exact hpresent
    · intro comparator hother
      exact htext comparator (Option.some.inj (hmode.symm.trans hother))
  cases comparison with
  | literal comparator =>
      cases value with
      | none => exact .missingValue hmode hsubject trivial rfl
      | some json => exact ⟨htranslatable (fun _ => rfl) nofun, .literal comparator json⟩
  | path comparator =>
      cases value with
      | none => exact .missingValue hmode hsubject trivial rfl
      | some json =>
          unfold Comparison.operand
          dsimp only
          cases htext : json.asString? with
          | none => exact .invalidPathOperand hmode hsubject rfl htext
          | some target =>
              refine ⟨htranslatable (fun _ => rfl) ?_, .path comparator htext⟩
              rintro _ - other hother
              rw [← Option.some.inj hother, htext]
              rfl
  | check comparator expected =>
      exact ⟨htranslatable nofun nofun, .check comparator expected value⟩

/-- What the translation of a leaf comes to. -/
theorem compare_spec (mode : String) (subject : ValueSource) (value : Option Json) :
    match compare mode subject value with
    | .ok condition =>
      LeafTranslatable mode subject value ∧ LeafBecomes mode subject value condition
    | .error fault => LeafFaulty mode subject value fault := by
  -- The cases go in the order in which a leaf is judged.
  unfold compare
  cases hmode : Comparison.ofMode? mode with
  | none => exact .unknownMode hmode
  | some comparison =>
      dsimp only [Option.elim, bind, Except.bind]
      cases hpath : subject.path? with
      | none => exact .literalVariable hmode (ValueSource.path?_eq_none_iff.mp hpath)
      | some target =>
          dsimp only
          have hsubject : ¬ subject.IsLiteral := by
            rw [← ValueSource.path?_eq_none_iff, hpath]
            simp
          have hoperand := operand_spec value hmode hsubject
          cases hresult : comparison.operand mode value with
          | error fault =>
              rw [hresult] at hoperand
              exact hoperand
          | ok pair =>
              rw [hresult] at hoperand
              obtain ⟨htranslatable, htakes⟩ := hoperand
              refine ⟨htranslatable, .compare ?_ hmode htakes⟩
              exact ValueSource.path?_eq_some_iff.mp hpath

end Leaf

/-! ## Trees -/

theorem firstFault_cons {guard : Guard} {rest : List Guard} {fault : ConditionFault} :
    FirstFault (guard :: rest) fault ↔
      guard.Faulty fault ∨ (guard.Translatable ∧ FirstFault rest fault) := by
  constructor
  · rintro ⟨_ | ⟨first, before⟩, node, after, hsplit, hbefore, hfaulty⟩
    · obtain ⟨rfl, rfl⟩ := List.cons.inj hsplit
      exact .inl hfaulty
    · obtain ⟨rfl, rfl⟩ := List.cons.inj hsplit
      obtain ⟨hfirst, hrest⟩ := List.forall_mem_cons.mp hbefore
      exact .inr ⟨hfirst, before, node, after, rfl, hrest, hfaulty⟩
  · rintro (hfaulty | ⟨hguard, before, node, after, rfl, hbefore, hfaulty⟩)
    · exact ⟨[], guard, rest, rfl, by simp, hfaulty⟩
    · exact ⟨guard :: before, node, after, rfl, List.forall_mem_cons.mpr ⟨hguard, hbefore⟩,
        hfaulty⟩

/-- Only one node is the first. -/
theorem FirstFault.unique {guards : List Guard} {fault other : ConditionFault}
    (h : FirstFault guards fault) (h' : FirstFault guards other) : other = fault := by
  induction guards with
  | nil =>
      obtain ⟨before, node, after, hsplit, -⟩ := h
      simp at hsplit
  | cons guard rest ih =>
      rcases firstFault_cons.mp h with hfaulty | ⟨hguard, hrest⟩
      · rcases firstFault_cons.mp h' with hfaulty' | ⟨hguard', -⟩
        · exact hfaulty.unique hfaulty'
        · exact absurd hguard' hfaulty.not_translatable
      · rcases firstFault_cons.mp h' with hfaulty' | ⟨-, hrest'⟩
        · exact absurd hguard hfaulty'.not_translatable
        · exact ih hrest hrest'

/-- Where there is a first fault, something is not translatable. -/
theorem FirstFault.not_forall {guards : List Guard} {fault : ConditionFault}
    (h : FirstFault guards fault) : ¬ ∀ node ∈ guards, node.Translatable := by
  obtain ⟨before, node, after, rfl, -, hfaulty⟩ := h
  intro hall
  exact hfaulty.not_translatable (hall node (List.mem_append_right before List.mem_cons_self))

section Tree

variable {α β : Type} {guards others : List Guard} {result : Except ConditionFault α}
  {good : α → Prop}

/-- What a translation comes to: all the nodes are translatable and the answer is good, or
else the fault is the first one. -/
def Verdict (guards : List Guard) (result : Except ConditionFault α) (good : α → Prop) :
    Prop :=
  match result with
  | .ok answer => (∀ node ∈ guards, node.Translatable) ∧ good answer
  | .error fault => FirstFault guards fault

theorem Verdict.map {f : α → β} {good' : β → Prop} (h : Verdict guards result good)
    (hgood : ∀ answer, good answer → good' (f answer)) :
    Verdict guards (result.map f) good' := by
  cases result with
  | error fault => exact h
  | ok answer => exact ⟨h.1, hgood answer h.2⟩

theorem Verdict.cons {guard : Guard} (hguard : guard.Translatable)
    (h : Verdict guards result good) : Verdict (guard :: guards) result good := by
  cases result with
  | error fault => exact firstFault_cons.mpr (.inr ⟨hguard, h⟩)
  | ok answer => exact ⟨List.forall_mem_cons.mpr ⟨hguard, h.1⟩, h.2⟩

theorem Verdict.bind {next : α → Except ConditionFault β} {good' : β → Prop}
    (h : Verdict guards result good)
    (hnext : ∀ answer, good answer → Verdict others (next answer) good') :
    Verdict (guards ++ others) (result >>= next) good' := by
  cases result with
  | error fault =>
      obtain ⟨before, node, after, rfl, hbefore, hfaulty⟩ := h
      exact ⟨before, node, after ++ others, by simp, hbefore, hfaulty⟩
  | ok answer =>
      obtain ⟨hguards, hanswer⟩ := h
      have hothers := hnext answer hanswer
      show Verdict (guards ++ others) (next answer) good'
      cases hresult : next answer with
      | error fault =>
          rw [hresult] at hothers
          obtain ⟨before, node, after, rfl, hbefore, hfaulty⟩ := hothers
          refine ⟨guards ++ before, node, after, by simp, ?_, hfaulty⟩
          exact List.forall_mem_append.mpr ⟨hguards, hbefore⟩
      | ok answer' =>
          rw [hresult] at hothers
          exact ⟨List.forall_mem_append.mpr ⟨hguards, hothers.1⟩, hothers.2⟩

/-- A leaf is the only node of itself. -/
theorem Verdict.leaf {guard : Guard} {result : Except ConditionFault Condition}
    (hok : ∀ condition, result = .ok condition →
      guard.Translatable ∧ guard.Becomes condition)
    (herror : ∀ fault, result = .error fault → guard.Faulty fault) :
    Verdict [guard] result guard.Becomes := by
  cases result with
  | error fault => exact ⟨[], guard, [], rfl, by simp, herror fault rfl⟩
  | ok condition =>
      obtain ⟨htranslatable, hbecomes⟩ := hok condition rfl
      exact ⟨by simpa using htranslatable, hbecomes⟩

mutual

theorem verdict_condition : ∀ guard : Guard,
    Verdict guard.nodes guard.condition guard.Becomes
  | .combined combinator guards => by
      unfold condition nodes
      cases guards with
      | nil => exact ⟨[], _, _, rfl, by simp, .combined combinator⟩
      | cons first rest =>
          have hall := verdict_conditionsOf (first :: rest)
          refine Verdict.cons (by simp [Translatable]) (hall.map ?_)
          intro conditions hconditions
          cases combinator with
          | and => exact .and hconditions
          | or => exact .or hconditions
  | .not guard => by
      unfold condition nodes
      refine Verdict.cons trivial ((verdict_condition guard).map ?_)
      exact fun condition hcondition => .not hcondition
  | .comparison mode subject value => by
      unfold condition nodes
      have hspec := compare_spec mode subject (some value)
      refine .leaf ?_ ?_
      · intro condition hresult
        rw [hresult] at hspec
        exact ⟨hspec.1, .comparison hspec.2⟩
      · intro fault hresult
        rw [hresult] at hspec
        exact .comparison hspec
  | .check mode subject => by
      unfold condition nodes
      have hspec := compare_spec mode subject none
      refine .leaf ?_ ?_
      · intro condition hresult
        rw [hresult] at hspec
        exact ⟨hspec.1, .check hspec.2⟩
      · intro fault hresult
        rw [hresult] at hspec
        exact .check hspec

theorem verdict_conditionsOf : ∀ guards : List Guard,
    Verdict (nodesOf guards) (conditionsOf guards) (List.Forall₂ Becomes guards)
  | [] => ⟨by simp [nodesOf], .nil⟩
  | guard :: rest => by
      unfold conditionsOf nodesOf
      refine (verdict_condition guard).bind fun first hfirst => ?_
      refine Verdict.map (verdict_conditionsOf rest) ?_
      exact fun others hothers => .cons hfirst hothers

end

end Tree

/-- A guard has a condition exactly where all its nodes are translatable.  The condition has
the shape of the guard and says what its leaves say; and the fault, where there is one, is
that of the first node that is not translatable. -/
theorem condition_spec (guard : Guard) :
    ((∃ condition, guard.condition = .ok condition) ↔
      ∀ node ∈ guard.nodes, node.Translatable) ∧
    (∀ condition, guard.condition = .ok condition → guard.Becomes condition) ∧
    ∀ fault, guard.condition = .error fault ↔ FirstFault guard.nodes fault := by
  have hverdict := verdict_condition guard
  cases hresult : guard.condition with
  | ok condition =>
      rw [hresult] at hverdict
      obtain ⟨hnodes, hbecomes⟩ := hverdict
      refine ⟨⟨fun _ => hnodes, fun _ => ⟨condition, rfl⟩⟩, ?_, ?_⟩
      · intro other hother
        obtain rfl := Except.ok.inj hother
        exact hbecomes
      · intro fault
        exact ⟨nofun, fun hfirst => absurd hnodes hfirst.not_forall⟩
  | error fault =>
      rw [hresult] at hverdict
      refine ⟨⟨nofun, fun hnodes => absurd hnodes (FirstFault.not_forall hverdict)⟩, nofun, ?_⟩
      intro other
      constructor
      · intro hother
        obtain rfl := Except.error.inj hother
        exact hverdict
      · intro hother
        rw [FirstFault.unique hverdict hother]

/-- The first node that is not translatable decides, and there its mode before its subject. -/
example : (Guard.combined .and [.not (.check "likes" (.reference (.custom .null))),
    .combined .or []]).condition = .error (.unknownMode "likes") := by
  rfl

end Guard
end TaskMachine
