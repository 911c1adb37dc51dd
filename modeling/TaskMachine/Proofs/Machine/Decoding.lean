import TaskMachine.Proofs.Json.Written
import TaskMachine.Proofs.Machine.Rendering

/-!
# Conditions from rules

A choice rule does not say of what kind its operand is: a path and a text look alike, and so
do an expected outcome and a truth value.  Where each comparator has operands of one kind
only (`Condition.Typed`) this is no loss.  `Condition.ofRule?` takes a condition out of its
rule, and takes it out just the same where a target was put in (`ofRule?_of_fields`), for no
rule has a field for the target (`field?_next_toRule`).
-/

namespace TaskMachine

/-! ## Kinds of operands -/

/-- What an operand is, apart from its content. -/
inductive Operand.Kind where
  | value
  | path
  | flag
deriving DecidableEq, Repr

/-- The kind of an operand. -/
def Operand.kind : Operand → Operand.Kind
  | .value _ => .value
  | .path _ => .path
  | .flag _ => .flag

/-- The kind of the operands of a comparator. -/
def Comparator.operandKind : Comparator → Operand.Kind
  | .stringEqualsPath | .stringLessThanPath | .stringLessThanEqualsPath
  | .stringGreaterThanPath | .stringGreaterThanEqualsPath | .numericEqualsPath
  | .numericLessThanPath | .numericLessThanEqualsPath | .numericGreaterThanPath
  | .numericGreaterThanEqualsPath | .booleanEqualsPath | .timestampEqualsPath
  | .timestampLessThanPath | .timestampLessThanEqualsPath | .timestampGreaterThanPath
  | .timestampGreaterThanEqualsPath => .path
  | .isPresent | .isNull | .isString | .isNumeric | .isBoolean | .isTimestamp => .flag
  | .stringEquals | .stringLessThan | .stringLessThanEquals | .stringGreaterThan
  | .stringGreaterThanEquals | .stringMatches | .numericEquals | .numericLessThan
  | .numericLessThanEquals | .numericGreaterThan | .numericGreaterThanEquals
  | .booleanEquals | .timestampEquals | .timestampLessThan | .timestampLessThanEquals
  | .timestampGreaterThan | .timestampGreaterThanEquals => .value

/-- All comparisons of a condition are with operands of the kind of their comparator. -/
inductive Condition.Typed : Condition → Prop
  | and {conditions : List Condition} (h : ∀ condition ∈ conditions, Typed condition) :
      Typed (.and conditions)
  | or {conditions : List Condition} (h : ∀ condition ∈ conditions, Typed condition) :
      Typed (.or conditions)
  | not {condition : Condition} (h : Typed condition) : Typed (.not condition)
  | compare (subject : String) {comparator : Comparator} {operand : Operand}
      (h : operand.kind = comparator.operandKind) :
      Typed (.compare subject comparator operand)

/-! ## The decoder -/

/-- The truth value of a value that is one. -/
def Json.asBool? (value : Json) : Option Bool :=
  match value.view with
  | .bool truth => some truth
  | _ => none

/-- The operand of a kind that looks like a value. -/
def Operand.ofRule? (value : Json) : Operand.Kind → Option Operand
  | .value => some (.value value)
  | .path => value.asString?.map .path
  | .flag => value.asBool?.map .flag

/-- The kind is all that is lost of an operand. -/
theorem Operand.ofRule?_toRule (operand : Operand) :
    ofRule? operand.toRule operand.kind = some operand := by
  cases operand <;> rfl

namespace Condition

/-- The comparison of a rule: of the variable, by the comparator that has a field. -/
def comparison? (rule : Json) : Option Condition := do
  let subject ← (rule.field? "Variable").bind Json.asString?
  let comparator ← Comparator.all.find? fun other => (rule.field? other.ruleName).isSome
  let value ← rule.field? comparator.ruleName
  let operand ← Operand.ofRule? value comparator.operandKind
  return .compare subject comparator operand

/-- The condition of a rule, down to a depth. -/
def ofRuleTo : (depth : Nat) → Json → Option Condition
  | 0, _ => none
  | depth + 1, rule =>
    match rule.field? "And", rule.field? "Or", rule.field? "Not" with
    | some all, _, _ => (all.items.mapM (ofRuleTo depth)).map .and
    | none, some any, _ => (any.items.mapM (ofRuleTo depth)).map .or
    | none, none, some inner => (ofRuleTo depth inner).map .not
    | none, none, none => comparison? rule

/-- The condition of a rule. -/
def ofRule? (rule : Json) : Option Condition := ofRuleTo rule.depth rule

end Condition

/-! ## Depths -/

namespace Json

/-- A field is not as deep as the value that it is a field of. -/
theorem depth_lt_of_field? {value field : Json} {key : String}
    (h : value.field? key = some field) : field.depth < value.depth := by
  have hview := ofView_view value
  unfold field? at h
  cases hobj : value.view with
  | obj fields =>
      rw [hobj] at h hview
      have hmem := SortedMap.get?_eq_some_iff.mp h
      have hfields : ofFields fields.entries = value := by
        rw [ofFields, SortedMap.ofList_entries]
        exact hview
      rw [← hfields]
      exact depth_lt_ofFields (SortedMap.nodup_keys fields) hmem
  | _ =>
      rw [hobj] at h
      cases h

end Json

namespace Condition

/-! ## The fields of rules -/

theorem find?_all (comparator : Comparator) :
    (Comparator.all.find? fun other => other = comparator) = some comparator := by
  cases comparator <;> rfl

/-- Comparators have fields of their own. -/
theorem ruleName_injective : Function.Injective Comparator.ruleName := by
  have hdistinct : (Comparator.all.map Comparator.ruleName).Nodup := by
    decide +kernel
  intro first second h
  exact List.inj_on_of_nodup_map hdistinct (List.mem_of_find?_eq_some (find?_all first))
    (List.mem_of_find?_eq_some (find?_all second)) h

theorem ruleName_ne_variable (comparator : Comparator) : comparator.ruleName ≠ "Variable" := by
  cases comparator <;> decide

theorem ruleName_ne_next (comparator : Comparator) : comparator.ruleName ≠ "Next" := by
  intro h
  exact ruleName_not_mem comparator (h ▸ by simp)

/-- No rule has a field for a target. -/
theorem field?_next_toRule (condition : Condition) : condition.toRule.field? "Next" = none := by
  cases condition with
  | compare subject comparator operand => simp [toRule, ruleName_ne_next]
  | _ => simp [toRule]

section Compare

variable {subject : String} {comparator : Comparator} {operand : Operand}

theorem field?_ruleName_toRule (other : Comparator) :
    (Condition.compare subject comparator operand).toRule.field? other.ruleName =
      if other = comparator then some operand.toRule else none := by
  have hvariable : "Variable" ≠ other.ruleName := (ruleName_ne_variable other).symm
  have hname : comparator.ruleName = other.ruleName ↔ other = comparator :=
    ruleName_injective.eq_iff.trans eq_comm
  simp [toRule, hvariable, hname]

theorem field?_variable_toRule :
    (Condition.compare subject comparator operand).toRule.field? "Variable" =
      some (.str subject) := by
  simp [toRule, ruleName_ne_variable]

end Compare

/-! ## What is decoded -/

/-- The operand of a comparison whose fields a rule has. -/
theorem comparison?_of_fields {subject : String} {comparator : Comparator} {operand : Operand}
    (hkind : operand.kind = comparator.operandKind) {rule : Json}
    (hfields : ∀ key, key ≠ "Next" →
      rule.field? key = (Condition.compare subject comparator operand).toRule.field? key) :
    comparison? rule = some (.compare subject comparator operand) := by
  have hvariable : rule.field? "Variable" = some (.str subject) := by
    rw [hfields _ (by decide), field?_variable_toRule]
  have hnames : ∀ other : Comparator, rule.field? other.ruleName =
      if other = comparator then some operand.toRule else none := by
    intro other
    rw [hfields _ (ruleName_ne_next other), field?_ruleName_toRule]
  have hfind : (Comparator.all.find? fun other => (rule.field? other.ruleName).isSome) =
      some comparator := by
    rw [← find?_all comparator]
    congr 1
    funext other
    rw [hnames]
    by_cases heq : other = comparator <;> simp [heq]
  -- The comparator that is found says of what kind the operand was.
  unfold comparison?
  rw [hvariable, hfind]
  simp only [Option.bind_eq_bind, Option.bind_some, hnames, if_true]
  rw [← hkind, Operand.ofRule?_toRule]
  rfl

theorem mapM_toRule {decode : Json → Option Condition} {conditions : List Condition}
    (h : ∀ condition ∈ conditions, decode condition.toRule = some condition) :
    (conditions.map toRule).mapM decode = some conditions := by
  induction conditions with
  | nil => rfl
  | cons condition rest ih =>
      obtain ⟨hcondition, hrest⟩ := List.forall_mem_cons.mp h
      rw [List.map_cons, List.mapM_cons, hcondition, ih hrest]
      rfl

/-- Conditions that a rule joins are not as deep as the rule. -/
theorem mapM_ofRuleTo {conditions : List Condition} {rule : Json} {key : String} {depth : Nat}
    (hfield : rule.field? key = some (.arr (conditions.map toRule)))
    (hdepth : rule.depth ≤ depth + 1)
    (h : ∀ condition ∈ conditions, condition.toRule.depth ≤ depth →
      ofRuleTo depth condition.toRule = some condition) :
    (conditions.map toRule).mapM (ofRuleTo depth) = some conditions := by
  have hlt := Json.depth_lt_of_field? hfield
  refine mapM_toRule fun condition hmem => h condition hmem ?_
  have hitem := Json.depth_lt_arr (List.mem_map_of_mem (f := toRule) hmem)
  omega

/-- A rule with the fields of a condition is decoded to it, whatever target it has. -/
theorem ofRuleTo_of_fields {condition : Condition} (h : condition.Typed) {depth : Nat}
    {rule : Json} (hfields : ∀ key, key ≠ "Next" →
      rule.field? key = condition.toRule.field? key) (hdepth : rule.depth ≤ depth) :
    ofRuleTo depth rule = some condition := by
  -- Only the outermost rule may have a target, and inner rules are as they were written.
  induction h generalizing depth rule with
  | @and conditions _ ih =>
      have hall : rule.field? "And" = some (.arr (conditions.map toRule)) := by
        rw [hfields _ (by decide)]
        simp [toRule, rules_eq_map]
      cases depth with
      | zero => exact absurd (Json.depth_lt_of_field? hall) (by omega)
      | succ depth =>
          have hinner := mapM_ofRuleTo hall hdepth fun condition hmem =>
            ih condition hmem fun _ _ => rfl
          simp [ofRuleTo, hall, hinner]
  | @or conditions _ ih =>
      have hnone : rule.field? "And" = none := by
        rw [hfields _ (by decide)]
        simp [toRule]
      have hany : rule.field? "Or" = some (.arr (conditions.map toRule)) := by
        rw [hfields _ (by decide)]
        simp [toRule, rules_eq_map]
      cases depth with
      | zero => exact absurd (Json.depth_lt_of_field? hany) (by omega)
      | succ depth =>
          have hinner := mapM_ofRuleTo hany hdepth fun condition hmem =>
            ih condition hmem fun _ _ => rfl
          simp [ofRuleTo, hnone, hany, hinner]
  | @not condition _ ih =>
      have hnone : ∀ key ∈ ["And", "Or"], rule.field? key = none := by
        intro key hkey
        rcases List.mem_pair.mp hkey with rfl | rfl <;> rw [hfields _ (by decide)] <;>
          simp [toRule]
      have hnot : rule.field? "Not" = some condition.toRule := by
        rw [hfields _ (by decide)]
        simp [toRule]
      have hlt := Json.depth_lt_of_field? hnot
      cases depth with
      | zero => omega
      | succ depth =>
          have hinner : ofRuleTo depth condition.toRule = some condition :=
            ih (fun _ _ => rfl) (by omega)
          simp [ofRuleTo, hnone, hnot, hinner]
  | compare subject hkind =>
      have hnone : ∀ key ∈ ["And", "Or", "Not"], rule.field? key = none := by
        intro key hkey
        rw [hfields key (by rintro rfl; simp at hkey), field?_combines_toRule _ _ _ hkey]
      have hvariable := (hfields "Variable" (by decide)).trans field?_variable_toRule
      have hlt := Json.depth_lt_of_field? hvariable
      cases depth with
      | zero => omega
      | succ depth =>
          simp only [ofRuleTo, hnone "And" (by simp), hnone "Or" (by simp),
            hnone "Not" (by simp)]
          exact comparison?_of_fields hkind hfields

/-- A rule with the fields of a condition, at any depth. -/
theorem ofRule?_of_fields {condition : Condition} (h : condition.Typed) {rule : Json}
    (hfields : ∀ key, key ≠ "Next" → rule.field? key = condition.toRule.field? key) :
    ofRule? rule = some condition :=
  ofRuleTo_of_fields h hfields (Nat.le_refl _)

/-- The target of a choice changes nothing about what its rule is decoded to. -/
theorem ofRule?_definition {condition : Condition} (h : condition.Typed) (names : List String)
    (next : StateId) :
    ofRule? ((⟨condition, next⟩ : ChoiceTransition).definition names) = some condition := by
  refine ofRule?_of_fields h fun key hkey => ?_
  rw [ChoiceTransition.field?_definition, if_neg hkey.symm]

/-- A comparator with operands of two kinds would have one rule for two conditions. -/
example : (compare "$.state" .stringEquals (.value (.str "$.wanted"))).toRule =
    (compare "$.state" .stringEquals (.path "$.wanted")).toRule := by
  rfl

end Condition

end TaskMachine
