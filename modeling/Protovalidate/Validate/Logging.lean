import Protovalidate.Foundation.Events
import Protovalidate.Validate.Rules

/-! The events of the rules of a field: whatever kind of events is good, the rules log
good events only if their evaluations, recordings and accessors are good. -/

namespace Protovalidate.Validate

open Foundation Check

section Logging

variable {good : Event → Prop}

/-- Events that all rules may log. -/
structure Welcomes (good : Event → Prop) : Prop where
  evaluated : ∀ expression activation result, good (.evaluated expression activation result)
  recorded : good .recorded
  hasField : ∀ field, field.isRepeated = false → good (.hasField field)

theorem logs_emplaceBack (records : good .recorded) (violation : RuleViolation) : Logs good (emplaceBack violation) :=
  Logs.bind (logs_add violation) fun _ => logs_note records

theorem logs_emplaceBackIf (records : good .recorded) (condition : Bool) (violation : RuleViolation) :
    Logs good (emplaceBackIf condition violation) := by
  cases condition with
  | true => exact logs_emplaceBack records violation
  | false => exact logs_pure ()

theorem evaluation_logs (records : good .recorded) (runtime : Runtime) (activation : Activation) (expr : CompiledRule)
    (fine : good (.evaluated expr.rule.expression activation (runtime.evaluate expr.rule.expression activation))) :
    Logs good (processRule runtime activation expr) := by
  refine Logs.bind (logs_note fine) fun _ => ?_
  split
  · exact logs_pure _
  · exact Logs.bind (logs_emplaceBackIf records _ _) fun _ => logs_pure _
  · exact Logs.bind (logs_emplaceBackIf records _ _) fun _ => logs_pure _
  · exact logs_pure _
  · exact logs_pure _

theorem validateAny_logs (records : good .recorded) (runtime : Runtime) (any : AnyRules) (field : ProtoField) (anyMsg : Message) :
    Logs good (FieldValidationRules.validateAny runtime any field anyMsg) := by
  unfold FieldValidationRules.validateAny
  split
  · exact logs_pure _
  · split
    · exact logs_pure _
    · exact Logs.bind (logs_emplaceBackIf records _ _) fun _ => Logs.bind (logs_emplaceBackIf records _ _) fun _ => logs_pure _

theorem entryEnd_logs (base : FieldValidationRules) (keyInfo valueInfo : FieldInfo)
    (entry : Entry) (activation : Activation) (start : Nat) (grew : Bool) :
    Logs good (MapValidationRules.entryEnd base keyInfo valueInfo entry activation start grew) := by
  unfold MapValidationRules.entryEnd
  cases grew with
  | false => exact logs_pure _
  | true =>
    cases setPathElementMapKey (fieldPathElement base.field.toFieldInfo) entry keyInfo valueInfo with
    | error failure => exact logs_pure _
    | ok element =>
      refine Logs.bind (logs_edit _ _) fun _ => Logs.bind logs_failsFast fun answer => ?_
      cases answer with
      | true => exact logs_pure _
      | false => exact logs_pure _

variable (welcome : Welcomes good) (runtime : Runtime)
include welcome

theorem processRule_logs (activation : Activation) (expr : CompiledRule) :
    Logs good (processRule runtime activation expr) :=
  evaluation_logs welcome.recorded runtime activation expr (welcome.evaluated _ _ _)

theorem celLoop_logs (self : CelValidationRules) (exprs : List CompiledRule) (activation : Activation) :
    Logs good (self.celLoop runtime exprs activation) := by
  induction exprs generalizing activation with
  | nil => exact logs_pure _
  | cons expr exprs ih =>
    refine Logs.bind ((processRule_logs welcome runtime _ expr).framed _) fun status => ?_
    refine Logs.bind (logs_exits status) fun exit => ?_
    cases exit with
    | true => exact logs_pure _
    | false => exact ih _

theorem validateCel_logs (self : CelValidationRules) (activation : Activation) :
    Logs good (self.validateCel runtime activation) :=
  Logs.bind (celLoop_logs welcome runtime self _ _) fun _ => logs_pure _

variable (base : FieldValidationRules) (message : Message)

theorem validateThis_logs (value : CelValue) : Logs good (base.validateThis runtime message value) :=
  Logs.bind ((validateCel_logs welcome runtime _ _).framedIf _ _) fun _ => logs_pure _

theorem required_logs : Logs good (do
    emplaceBack (base.requiredViolation runtime message)
    pure (.ok ()) : RuleCheck Status) := Logs.bind (logs_emplaceBack welcome.recorded _) fun _ => logs_pure _

theorem validateContainer_logs (isEmpty : Bool) (value : CelValue) :
    Logs good (base.validateContainer runtime message isEmpty value) := by
  unfold FieldValidationRules.validateContainer
  split
  · exact logs_pure _
  · split
    · exact required_logs welcome runtime base message
    · exact validateThis_logs welcome runtime base message value

theorem validateSingular_logs : Logs good (base.validateSingular runtime message) := by
  unfold FieldValidationRules.validateSingular
  split
  · exact required_logs welcome runtime base message
  · split
    · exact logs_pure _
    · refine Logs.orFail ?_ ?_
      · unfold FieldValidationRules.validateSingleAny
        split
        · exact logs_pure _
        · split
          · exact validateAny_logs welcome.recorded runtime _ _ _
          · exact logs_pure _
      · unfold FieldValidationRules.validateSingleValue
        split
        · exact logs_pure _
        · exact validateThis_logs welcome runtime base message _

/-- `HasField` is only called in the branch for singular fields. -/
theorem fieldValidate_logs : Logs good (base.validate runtime message) := by
  unfold FieldValidationRules.validate
  cases shape : base.field.shape with
  | map keyInfo valueInfo valid => exact validateContainer_logs welcome runtime base message _ _
  | repeated => exact validateContainer_logs welcome runtime base message _ _
  | singular =>
    have singular : base.field.isRepeated = false := by rw [FieldDescriptor.isRepeated, shape]
    exact Logs.bind (logs_note (welcome.hasField _ singular)) fun _ => validateSingular_logs welcome runtime base message

/-- `GetEnumValue` is called whatever the shape of the field is. -/
theorem enumValidate_logs {enumRules : EnumRules} (fine : good (.getEnumValue base.field)) :
    Logs good (EnumValidationRules.validate runtime base enumRules message) := by
  refine (fieldValidate_logs welcome runtime base message).orExit ?_
  unfold EnumValidationRules.validateDefinedOnly
  split
  · exact Logs.bind (logs_note fine) fun _ => Logs.bind (logs_emplaceBackIf welcome.recorded _ _) fun _ => logs_pure _
  · exact logs_pure _

theorem repeatedValidate_logs (itemRules : Option FieldRuleSet) :
    Logs good (RepeatedValidationRules.validate runtime base message itemRules) := by
  refine (fieldValidate_logs welcome runtime base message).orExit ?_
  cases itemRules with
  | none => exact logs_pure _
  | some items =>
    refine Logs.eachThen (fun item _ => Logs.framed ?_ _) (logs_pure _)
    refine Logs.bind (validateCel_logs welcome runtime _ _) fun result => ?_
    cases items.base.anyRules with
    | none => exact logs_pure _
    | some any => exact validateAny_logs welcome.recorded runtime _ _ _

variable (keyInfo valueInfo : FieldInfo) (keyRules valueRules : Option FieldRuleSet)

theorem keyPart_logs (entry : Entry) (key : CelValue) (activation : Activation) :
    Logs good (MapValidationRules.keyPart runtime keyInfo keyRules entry key activation) := by
  cases keyRules with
  | none => exact logs_pure _
  | some rules =>
    simp only [MapValidationRules.keyPart]
    split
    · exact logs_pure _
    · refine Logs.bind ((validateCel_logs welcome runtime _ _).framedIf _ _) fun result => ?_
      obtain ⟨status, left⟩ := result
      cases status with
      | error failure => exact logs_pure _
      | ok _ => exact logs_pure _

theorem valuePart_logs (entry : Entry) (activation : Activation) (start : Nat) :
    Logs good (MapValidationRules.valuePart runtime valueInfo valueRules entry activation start) := by
  cases valueRules with
  | none => exact logs_pure _
  | some rules =>
    simp only [MapValidationRules.valuePart]
    split
    · exact logs_pure _
    · refine Logs.bind (Logs.grown ((validateCel_logs welcome runtime _ _).framedIf _ _)) fun result => ?_
      obtain ⟨⟨status, left⟩, grew⟩ := result
      cases status with
      | error failure => exact logs_pure _
      | ok _ =>
        cases grew with
        | false => exact logs_pure _
        | true => exact Logs.bind (logs_edit _ _) fun _ => logs_pure _

theorem entryRound_logs (entry : Entry) (key : CelValue) (activation : Activation) : Logs good
    (MapValidationRules.entryRound runtime base keyInfo valueInfo keyRules valueRules entry key activation) := by
  refine Logs.scope fun start => Logs.bind (Logs.grown ?_) fun result => ?_
  · refine Logs.bind (keyPart_logs welcome runtime _ _ _ _ _) fun result => ?_
    cases result with
    | error failure => exact logs_pure _
    | ok left => exact valuePart_logs welcome runtime _ _ _ _ _
  · obtain ⟨result, grew⟩ := result
    cases result with
    | error failure => exact logs_pure _
    | ok left => exact entryEnd_logs base _ _ _ _ _ _

theorem entryLoop_logs (entries : List (Entry × CelValue)) (activation : Activation) : Logs good
    (MapValidationRules.entryLoop runtime base keyInfo valueInfo keyRules valueRules entries activation) := by
  induction entries generalizing activation with
  | nil => exact logs_pure _
  | cons entry entries ih =>
    refine Logs.bind (entryRound_logs welcome runtime base _ _ _ _ _ _ _) fun result => ?_
    cases result with
    | inl status => exact logs_pure _
    | inr left => exact ih left

theorem mapValidate_logs : Logs good
    (MapValidationRules.validate runtime base keyRules valueRules message) := by
  refine (fieldValidate_logs welcome runtime base message).orFail ?_
  unfold MapValidationRules.validateEntries
  split
  · exact logs_pure _
  · split
    · split
      · exact logs_pure _
      · exact entryLoop_logs welcome runtime base _ _ _ _ _ _
    · exact logs_pure _

end Logging
end Protovalidate.Validate
