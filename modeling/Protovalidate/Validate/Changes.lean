import Protovalidate.Validate.Validator

/-! What is done with a violation on its way out: its proto depends on the proto that it
had, and not on the message that is validated. -/

namespace Protovalidate.Validate

open Foundation Check

/-- Changes that make equal protos of equal protos. -/
abbrev Uniform (change change' : RuleViolation → RuleViolation) : Prop := Respects RuleViolation.proto change change'

section Fields

variable (self : FieldValidationRules) (message message' : Message)

theorem ruleValueOf_proto (cel : CelValidationRules) (expr : CompiledRule) (violation : RuleViolation) :
    (cel.ruleValueOf expr violation).proto = violation.proto := by
  unfold CelValidationRules.ruleValueOf
  split <;> rfl

theorem ruleValueOf_uniform (cel : CelValidationRules) (expr : CompiledRule) :
    Uniform (cel.ruleValueOf expr) (cel.ruleValueOf expr) := by
  intro violation violation' same
  rw [ruleValueOf_proto, ruleValueOf_proto, same]

theorem placed_uniform : Uniform (self.placed message) (self.placed message') := by
  intro violation violation' same
  simp only [FieldValidationRules.placed, RuleViolation.setFieldValue, RuleViolation.appendFieldPathElement, same]

theorem itemPlaced_uniform (runtime : Runtime) (index : Nat) :
    Uniform (RepeatedValidationRules.placed runtime self message index)
      (RepeatedValidationRules.placed runtime self message' index) := by
  intro violation violation' same
  simp only [RepeatedValidationRules.placed, RuleViolation.setFieldValue, RuleViolation.appendFieldPathElement,
    RuleViolation.appendRulePathElement, same]

end Fields

section Entries

variable (runtime : Runtime)

theorem rulePath_uniform (name : RuleFieldName) :
    Uniform (MapValidationRules.rulePath runtime name) (MapValidationRules.rulePath runtime name) := by
  intro violation violation' same
  simp only [MapValidationRules.rulePath, RuleViolation.appendRulePathElement, same]

theorem keyPlaced_uniform (keyInfo : FieldInfo) (entry entry' : Entry) :
    Uniform (MapValidationRules.keyPlaced runtime keyInfo entry) (MapValidationRules.keyPlaced runtime keyInfo entry') := by
  intro violation violation' same
  simp only [MapValidationRules.keyPlaced, RuleViolation.setFieldValue, RuleViolation.setForKey,
    rulePath_uniform runtime .keys violation violation' same]

end Entries

section Messages

theorem appended_uniform (element : FieldPathElement) :
    Uniform (fun violation => violation.appendFieldPathElement element)
      (fun violation => violation.appendFieldPathElement element) := by
  intro violation violation' same
  simp only [RuleViolation.appendFieldPathElement, same]

theorem finalize_uniform : Uniform RuleViolation.finalize RuleViolation.finalize := by
  intro violation violation' same
  simp only [RuleViolation.finalize, same]

end Messages
end Protovalidate.Validate
