import TaskMachine.Compile.GuardCondition
import TaskMachine.Proofs.Json.Fields

/-!
# Rules that combine something

`Condition.Full` says that no `and` and no `or` of a condition is without conditions, at
any depth, and `Json.RuleFull` the same of a choice rule, as it stands in a definition.
Guards have full conditions (`Guard.full_of_condition`), since one that combines nothing
is refused, and full conditions have full rules (`Condition.Full.toRule`).
-/

namespace TaskMachine

/-- Whatever is combined in a condition, there is something to combine. -/
inductive Condition.Full : Condition → Prop
  | and {conditions : List Condition} (hne : conditions ≠ [])
      (h : ∀ condition ∈ conditions, Full condition) : Full (.and conditions)
  | or {conditions : List Condition} (hne : conditions ≠ [])
      (h : ∀ condition ∈ conditions, Full condition) : Full (.or conditions)
  | not {condition : Condition} (h : Full condition) : Full (.not condition)
  | compare (subject : String) (comparator : Comparator) (operand : Operand) :
      Full (.compare subject comparator operand)

/-- Whatever is combined in a rule, there is something to combine. -/
inductive Json.RuleFull : Json → Prop
  | made {rule : Json}
      (hitems : ∀ key ∈ ["And", "Or"], ∀ value, rule.field? key = some value →
        ∃ items, value = .arr items ∧ items ≠ [])
      (hall : ∀ key ∈ ["And", "Or"], ∀ item ∈ rule.itemsAt key, RuleFull item)
      (hnot : ∀ item, rule.field? "Not" = some item → RuleFull item) : RuleFull rule

/-- Only the fields that combine rules count. -/
theorem Json.RuleFull.of_fields {rule other : Json} (h : rule.RuleFull)
    (hfields : ∀ key ∈ ["And", "Or", "Not"], other.field? key = rule.field? key) :
    other.RuleFull := by
  have hcombined : ∀ key ∈ ["And", "Or"], other.field? key = rule.field? key :=
    fun key hkey => hfields key (List.mem_append_left ["Not"] hkey)
  cases h with
  | made hitems hall hnot =>
      refine .made ?_ ?_ ?_
      · intro key hkey value hvalue
        rw [hcombined key hkey] at hvalue
        exact hitems key hkey value hvalue
      · intro key hkey item hitem
        have hsame : other.itemsAt key = rule.itemsAt key := by
          unfold itemsAt
          rw [hcombined key hkey]
        rw [hsame] at hitem
        exact hall key hkey item hitem
      · intro item hitem
        rw [hfields "Not" (by simp)] at hitem
        exact hnot item hitem

namespace Condition

theorem rules_eq_map (conditions : List Condition) :
    rules conditions = conditions.map toRule := by
  induction conditions with
  | nil => rfl
  | cons condition rest ih => simp [rules, ih]

/-- The rule of conditions that are joined. -/
theorem ruleFull_join {word : String} (hword : word ∈ ["And", "Or"])
    {conditions : List Condition} (hne : conditions ≠ [])
    (hall : ∀ condition ∈ conditions, condition.toRule.RuleFull) :
    (Json.ofFields [(word, .arr (conditions.map toRule))]).RuleFull := by
  have hfield : ∀ key value,
      (Json.ofFields [(word, .arr (conditions.map toRule))]).field? key = some value →
      value = .arr (conditions.map toRule) := by
    intro key value hvalue
    simp only [Json.field?_ofFields_cons, Json.field?_ofFields_nil, Option.none_or] at hvalue
    split at hvalue
    · exact (Option.some.inj hvalue).symm
    · cases hvalue
  refine .made ?_ ?_ ?_
  · intro key _ value hvalue
    refine ⟨_, hfield key value hvalue, ?_⟩
    simpa using hne
  · intro key _ item hitem
    unfold Json.itemsAt at hitem
    cases hvalue : (Json.ofFields [(word, .arr (conditions.map toRule))]).field? key with
    | none => simp [hvalue] at hitem
    | some value =>
        rw [hvalue, hfield key value hvalue] at hitem
        simp only [Option.map_some, Option.getD_some, Json.items_arr, List.mem_map] at hitem
        obtain ⟨condition, hcondition, rfl⟩ := hitem
        exact hall condition hcondition
  · intro item hitem
    have hnot : word ≠ "Not" := by
      rintro rfl
      simp at hword
    simp [hnot] at hitem

theorem ruleName_not_mem (comparator : Comparator) :
    comparator.ruleName ∉ ["And", "Or", "Not", "Next"] := by
  cases comparator <;> decide

/-- No comparison is called like a field that combines rules. -/
theorem field?_combines_toRule (subject : String) (comparator : Comparator) (operand : Operand)
    {key : String} (hkey : key ∈ ["And", "Or", "Not"]) :
    (Condition.compare subject comparator operand).toRule.field? key = none := by
  have hname : comparator.ruleName ≠ key := by
    rintro rfl
    exact ruleName_not_mem comparator (List.mem_append_left ["Next"] hkey)
  have hvariable : "Variable" ≠ key := by
    rintro rfl
    simp at hkey
  simp [toRule, hname, hvariable]

/-- A condition that is full has a rule that is. -/
theorem Full.toRule {condition : Condition} (h : condition.Full) :
    condition.toRule.RuleFull := by
  induction h with
  | and hne _ ih =>
      rw [Condition.toRule, rules_eq_map]
      exact ruleFull_join (by simp) hne ih
  | or hne _ ih =>
      rw [Condition.toRule, rules_eq_map]
      exact ruleFull_join (by simp) hne ih
  | not _ ih =>
      rw [Condition.toRule]
      refine .made ?_ ?_ ?_
      · intro key hkey value hvalue
        rcases List.mem_pair.mp hkey with rfl | rfl <;> simp at hvalue
      · intro key hkey item hitem
        rcases List.mem_pair.mp hkey with rfl | rfl <;> simp [Json.itemsAt] at hitem
      · intro item hitem
        simp only [Json.field?_ofFields_cons, Json.field?_ofFields_nil, Option.none_or,
          if_true, Option.some.injEq] at hitem
        rw [← hitem]
        exact ih
  | compare subject comparator operand =>
      have hfield : ∀ key ∈ ["And", "Or", "Not"],
          (Condition.compare subject comparator operand).toRule.field? key = none :=
        fun _ => field?_combines_toRule subject comparator operand
      refine .made ?_ ?_ ?_
      · intro key hkey value hvalue
        rw [hfield key (List.mem_append_left ["Not"] hkey)] at hvalue
        cases hvalue
      · intro key hkey item hitem
        rw [Json.itemsAt_of_field?_eq_none
          (hfield key (List.mem_append_left ["Not"] hkey))] at hitem
        cases hitem
      · intro item hitem
        rw [hfield "Not" (by simp)] at hitem
        cases hitem

end Condition

namespace Guard

theorem full_of_compare {mode : String} {subject : ValueSource} {value : Option Json}
    {condition : Condition} (h : compare mode subject value = .ok condition) :
    condition.Full := by
  unfold compare at h
  cases hmode : Comparison.ofMode? mode with
  | none =>
      rw [hmode] at h
      cases h
  | some comparison =>
      rw [hmode] at h
      cases hpath : subject.path? with
      | none =>
          rw [hpath] at h
          cases h
      | some target =>
          rw [hpath] at h
          dsimp only [Option.elim, bind, Except.bind] at h
          cases hoperand : comparison.operand mode value with
          | error cause =>
              rw [hoperand] at h
              cases h
          | ok pair =>
              obtain ⟨comparator, operand⟩ := pair
              rw [hoperand] at h
              cases h
              exact .compare target comparator operand

mutual

/-- The condition of a guard is full, for a guard that combines nothing has none. -/
theorem full_of_condition : ∀ (guard : Guard) {condition : Condition},
    guard.condition = .ok condition → condition.Full
  | .combined combinator guards, condition, h => by
      unfold Guard.condition at h
      split at h
      · cases h
      next hsome =>
        cases hall : conditionsOf guards with
        | error cause =>
            rw [hall] at h
            cases h
        | ok conditions =>
            rw [hall] at h
            cases h
            obtain ⟨hlength, hfull⟩ := full_of_conditionsOf guards hall
            have hne : conditions ≠ [] := by
              rintro rfl
              rw [List.isEmpty_iff_length_eq_zero] at hsome
              exact hsome hlength.symm
            cases combinator with
            | and => exact .and hne hfull
            | or => exact .or hne hfull
  | .not guard, condition, h => by
      unfold Guard.condition at h
      cases hinner : guard.condition with
      | error cause =>
          rw [hinner] at h
          cases h
      | ok inner =>
          rw [hinner] at h
          cases h
          exact .not (full_of_condition guard hinner)
  | .comparison mode subject value, condition, h => by
      unfold Guard.condition at h
      exact full_of_compare h
  | .check mode subject, condition, h => by
      unfold Guard.condition at h
      exact full_of_compare h

theorem full_of_conditionsOf : ∀ (guards : List Guard) {conditions : List Condition},
    conditionsOf guards = .ok conditions →
      conditions.length = guards.length ∧ ∀ condition ∈ conditions, condition.Full
  | [], conditions, h => by
      cases h
      exact ⟨rfl, by simp⟩
  | guard :: rest, conditions, h => by
      unfold conditionsOf at h
      cases hfirst : guard.condition with
      | error cause =>
          rw [hfirst] at h
          cases h
      | ok first =>
          cases hrest : conditionsOf rest with
          | error cause =>
              rw [hfirst, hrest] at h
              cases h
          | ok others =>
              rw [hfirst, hrest] at h
              cases h
              obtain ⟨hlength, hfull⟩ := full_of_conditionsOf rest hrest
              refine ⟨by simp [hlength], ?_⟩
              intro condition hcondition
              rcases List.mem_cons.mp hcondition with rfl | hcondition
              · exact full_of_condition guard hfirst
              · exact hfull condition hcondition

end

end Guard

end TaskMachine
