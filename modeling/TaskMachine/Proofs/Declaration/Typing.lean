import TaskMachine.Proofs.Declaration.Translation
import TaskMachine.Proofs.Machine.Decoding

/-!
# Guards have typed conditions

Every mode of a comparison comes to a comparator and an operand of one kind
(`Comparison.typed_of_mem_table`), and so all conditions that guards become are typed
(`Guard.typed_of_becomes`).  Their rules say all there is to say about them
(`Guard.rule_determines`).
-/

namespace TaskMachine

namespace Comparison

/-- The comparator of a comparison has operands of the kind that the comparison makes. -/
def Typed : Comparison → Prop
  | .literal comparator => comparator.operandKind = .value
  | .path comparator => comparator.operandKind = .path
  | .check comparator _ => comparator.operandKind = .flag

instance : DecidablePred Typed
  | .literal _ | .path _ | .check _ _ => inferInstanceAs (Decidable (_ = _))

theorem typed_of_mem_table : ∀ entry ∈ table, entry.2.Typed := by
  decide

theorem typed_of_ofMode? {mode : String} {comparison : Comparison}
    (h : ofMode? mode = some comparison) : comparison.Typed := by
  obtain ⟨before, after, hsplit, -⟩ := List.lookup_eq_some_iff.mp h
  refine typed_of_mem_table (mode, comparison) ?_
  rw [hsplit]
  exact List.mem_append_right before List.mem_cons_self

theorem Takes.kind_eq {comparison : Comparison} {value : Option Json} {comparator : Comparator}
    {operand : Operand} (h : comparison.Takes value comparator operand)
    (htyped : comparison.Typed) : operand.kind = comparator.operandKind := by
  cases h with
  | literal comparator value => exact htyped.symm
  | path comparator htarget => exact htyped.symm
  | check comparator expected value => exact htyped.symm

end Comparison

namespace Guard

theorem LeafBecomes.typed {mode : String} {subject : ValueSource} {value : Option Json}
    {condition : Condition} (h : LeafBecomes mode subject value condition) :
    condition.Typed := by
  obtain ⟨_, hmode, htakes⟩ := h
  exact .compare _ (htakes.kind_eq (Comparison.typed_of_ofMode? hmode))

mutual

/-- What a guard becomes is typed. -/
theorem typed_of_becomes : ∀ (guard : Guard) {condition : Condition},
    guard.Becomes condition → condition.Typed
  | .combined _ guards, _, h => by
      cases h with
      | and hall => exact .and (typed_of_forall₂ guards hall)
      | or hall => exact .or (typed_of_forall₂ guards hall)
  | .not guard, _, h => by
      cases h with
      | not hinner => exact .not (typed_of_becomes guard hinner)
  | .comparison _ _ _, _, h => by
      cases h with
      | comparison hleaf => exact hleaf.typed
  | .check _ _, _, h => by
      cases h with
      | check hleaf => exact hleaf.typed

theorem typed_of_forall₂ : ∀ (guards : List Guard) {conditions : List Condition},
    List.Forall₂ Becomes guards conditions → ∀ condition ∈ conditions, condition.Typed
  | [], _, h => by
      cases h
      simp
  | guard :: rest, _, h => by
      cases h with
      | cons hfirst hrest =>
          exact List.forall_mem_cons.mpr
            ⟨typed_of_becomes guard hfirst, typed_of_forall₂ rest hrest⟩

end

theorem typed_of_condition {guard : Guard} {condition : Condition}
    (h : guard.condition = .ok condition) : condition.Typed := by
  have hverdict := verdict_condition guard
  rw [h] at hverdict
  exact guard.typed_of_becomes hverdict.2

/-- The rule of a guard's condition determines it: one decoder takes it out of the rule, and
takes it out as well where the rule stands in a definition, with a field for its target that
replaces none of its own.  So no two conditions of guards have one rule, with targets or
without. -/
theorem rule_determines {guard : Guard} {condition : Condition}
    (h : guard.condition = .ok condition) :
    Condition.ofRule? condition.toRule = some condition ∧
    condition.toRule.field? "Next" = none ∧
    (∀ names next, Condition.ofRule?
      ((⟨condition, next⟩ : ChoiceTransition).definition names) = some condition) ∧
    ∀ (other : Guard) (otherCondition : Condition), other.condition = .ok otherCondition →
      (otherCondition.toRule = condition.toRule → otherCondition = condition) ∧
      ∀ names next otherNames otherNext,
        (⟨otherCondition, otherNext⟩ : ChoiceTransition).definition otherNames =
          (⟨condition, next⟩ : ChoiceTransition).definition names →
        otherCondition = condition := by
  have htyped := typed_of_condition h
  have hrule := Condition.ofRule?_of_fields htyped fun _ _ => rfl
  have hdefinition := Condition.ofRule?_definition htyped
  refine ⟨hrule, condition.field?_next_toRule, hdefinition, ?_⟩
  intro other otherCondition hother
  have hotherTyped := typed_of_condition hother
  refine ⟨?_, ?_⟩
  · intro hsame
    have hdecoded := Condition.ofRule?_of_fields hotherTyped fun _ _ => rfl
    rw [hsame, hrule] at hdecoded
    exact (Option.some.inj hdecoded).symm
  · intro names next otherNames otherNext hsame
    have hdecoded := Condition.ofRule?_definition hotherTyped otherNames otherNext
    rw [hsame, hdefinition] at hdecoded
    exact (Option.some.inj hdecoded).symm

/-- A guard with a check, a comparison with a path and one with a truth value. -/
def retrying : Guard :=
  .combined .or [
    .not (.check "isNotNull" (.path "error")),
    .comparison "stringEqualsJsonPath" (.path "state") (.str "$.wanted"),
    .combined .and [.comparison "booleanEquals" (.path "again") (.bool true)]]

/-- The condition of the guard. -/
def retryCondition : Condition :=
  .or [
    .not (.compare "$.error" .isNull (.flag false)),
    .compare "$.state" .stringEqualsPath (.path "$.wanted"),
    .and [.compare "$.again" .booleanEquals (.value (.bool true))]]

/-- The condition is taken out of its rule, with a target and without. -/
theorem rule_determines_retrying :
    retrying.condition = .ok retryCondition ∧
      Condition.ofRule? retryCondition.toRule = some retryCondition ∧
      Condition.ofRule? ((⟨retryCondition, 0⟩ : ChoiceTransition).definition ["load"]) =
        some retryCondition := by
  have hcondition : retrying.condition = .ok retryCondition := by rfl
  obtain ⟨hrule, -, hdefinition, -⟩ := rule_determines hcondition
  exact ⟨hcondition, hrule, hdefinition ["load"] 0⟩

end Guard
end TaskMachine
