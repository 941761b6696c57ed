import Protovalidate.Validate.Children

/-! Every rule and every message is a steady check: a run that does not fail
fast adds the same violations to any context, and no run touches the violations
that were there before. -/

namespace Protovalidate.Validate

open Foundation Check

variable (runtime : Runtime)

section Cel

variable (self : CelValidationRules) (activation : Activation)

theorem processRule_steady (expr : CompiledRule) : Steady (processRule runtime activation expr) := by
  refine SteadyAt.bind (steady_note _) fun _ => ?_
  split
  · exact steady_pure _
  · exact SteadyAt.bind (steady_emplaceBackIf _ _) fun _ => steady_pure _
  · exact SteadyAt.bind (steady_emplaceBackIf _ _) fun _ => steady_pure _
  · exact steady_pure _
  · exact steady_pure _

theorem celLoop_steady (exprs : List CompiledRule) : Steady (self.celLoop runtime exprs activation) := by
  induction exprs generalizing activation with
  | nil => exact steady_pure _
  | cons expr exprs ih =>
    refine SteadyAt.bind ((processRule_steady runtime _ expr).framed _) fun status => ?_
    refine SteadyAt.bind (steady_exits status) fun exit => ?_
    cases exit with
    | true => exact steady_pure _
    | false => exact ih _

theorem validateCel_steady : Steady (self.validateCel runtime activation) :=
  SteadyAt.bind (celLoop_steady runtime self _ _) fun _ => steady_pure _

end Cel

section Fields

variable (self base items : FieldValidationRules) (message : Message)

theorem validateAny_steady (any : AnyRules) (field : ProtoField) (anyMsg : Message) :
    Steady (FieldValidationRules.validateAny runtime any field anyMsg) := by
  rw [FieldValidationRules.validateAny]
  split
  · exact steady_pure _
  · split
    · exact steady_pure _
    · exact SteadyAt.bind (steady_emplaceBackIf _ _) fun _ => SteadyAt.bind (steady_emplaceBackIf _ _) fun _ => steady_pure _

theorem validateThis_steady (value : CelValue) : Steady (self.validateThis runtime message value) :=
  SteadyAt.bind ((validateCel_steady runtime _ _).framedIf _ _) fun _ => steady_pure _

theorem required_steady : Steady (do
    emplaceBack (self.requiredViolation runtime message)
    pure (.ok ()) : RuleCheck Status) := SteadyAt.bind (steady_emplaceBack _) fun _ => steady_pure _

theorem validateContainer_steady (isEmpty : Bool) (value : CelValue) :
    Steady (self.validateContainer runtime message isEmpty value) := by
  rw [FieldValidationRules.validateContainer]
  split
  · exact steady_pure _
  · split
    · exact required_steady runtime self message
    · exact validateThis_steady runtime self message value

theorem singleValue_steady : Steady (self.validateSingleValue runtime message) := by
  unfold FieldValidationRules.validateSingleValue
  split
  · exact steady_pure _
  · exact validateThis_steady runtime self message _

theorem singleAny_steady : Steady (self.validateSingleAny runtime message) := by
  unfold FieldValidationRules.validateSingleAny
  split
  · exact steady_pure _
  · split
    · exact validateAny_steady runtime _ _ _
    · exact steady_pure _

theorem singular_steady : Steady (self.validateSingular runtime message) := by
  unfold FieldValidationRules.validateSingular
  split
  · exact required_steady runtime self message
  · split
    · exact steady_pure _
    · exact SteadyAt.orFail (singleAny_steady runtime self message) (singleValue_steady runtime self message)

theorem fieldValidate_steady : Steady (self.validate runtime message) := by
  rw [FieldValidationRules.validate]
  split
  · exact validateContainer_steady runtime self message _ _
  · exact validateContainer_steady runtime self message _ _
  · exact SteadyAt.bind (steady_note _) fun _ => singular_steady runtime self message

theorem definedOnly_steady (enumRules : EnumRules) :
    Steady (EnumValidationRules.validateDefinedOnly runtime base enumRules message) := by
  unfold EnumValidationRules.validateDefinedOnly
  split
  · exact SteadyAt.bind (steady_note _) fun _ => SteadyAt.bind (steady_emplaceBackIf _ _) fun _ => steady_pure _
  · exact steady_pure _

theorem enumValidate_steady (enumRules : EnumRules) :
    Steady (EnumValidationRules.validate runtime base enumRules message) :=
  (fieldValidate_steady runtime base message).orExit (definedOnly_steady runtime base message enumRules)

theorem itemRules_steady (item : Nat × Value) :
    Steady (RepeatedValidationRules.itemRules runtime base items message item) := by
  refine SteadyAt.bind (validateCel_steady runtime _ _) fun result => ?_
  cases items.anyRules with
  | none => exact steady_pure _
  | some any => exact validateAny_steady runtime _ _ _

theorem itemRound_steady (item : Nat × Value) :
    Steady (RepeatedValidationRules.itemRound runtime base items message item) :=
  (itemRules_steady runtime base items message item).framed _

theorem repeatedValidate_steady (itemRules : Option FieldRuleSet) :
    Steady (RepeatedValidationRules.validate runtime base message itemRules) := by
  refine (fieldValidate_steady runtime base message).orExit ?_
  split
  · exact steady_pure _
  · exact Steady.eachThen (fun item _ => itemRound_steady runtime base _ message item) (steady_pure _)

end Fields

section Maps

variable (base : FieldValidationRules) (keyInfo valueInfo : FieldInfo) (keyRules valueRules : Option FieldRuleSet)

theorem keyPart_steady (entry : Entry) (key : CelValue) (activation : Activation) :
    Steady (MapValidationRules.keyPart runtime keyInfo keyRules entry key activation) := by
  cases keyRules with
  | none => exact steady_pure _
  | some rules =>
    simp only [MapValidationRules.keyPart]
    split
    · exact steady_pure _
    · refine SteadyAt.bind ((validateCel_steady runtime _ _).framedIf _ _) fun result => ?_
      obtain ⟨status, left⟩ := result
      cases status with
      | error failure => exact steady_pure _
      | ok _ => exact steady_pure _

theorem valuePart_steady (entry : Entry) (activation : Activation) :
    SteadyAt fun start => MapValidationRules.valuePart runtime valueInfo valueRules entry activation start := by
  cases valueRules with
  | none => exact steady_pure _
  | some rules =>
    by_cases skipped : rules.base.ignoreEmpty && isEmptyItem (runtime.mapValue valueInfo entry.value)
    · simp only [MapValidationRules.valuePart, skipped, ↓reduceIte]
      exact steady_pure _
    · simp only [MapValidationRules.valuePart, skipped]
      refine SteadyAt.bind (SteadyAt.grown ((validateCel_steady runtime _ _).framedIf _ _)) fun result => ?_
      obtain ⟨⟨status, left⟩, grew⟩ := result
      cases status with
      | error failure => exact steady_pure _
      | ok _ =>
        cases grew with
        | false => exact steady_pure _
        | true => exact SteadyAt.bind (steadyAt_edit _) fun _ => steady_pure _

theorem entryRules_steady (entry : Entry) (key : CelValue) (activation : Activation) :
    SteadyAt fun start => MapValidationRules.entryRules runtime keyInfo valueInfo keyRules valueRules entry key
      activation start := by
  refine SteadyAt.bind (keyPart_steady runtime _ _ _ _ _) fun result => ?_
  cases result with
  | error failure => exact steady_pure _
  | ok left => exact valuePart_steady runtime _ _ _ _

theorem entryEnd_steady (entry : Entry) (activation : Activation) (grew : Bool) :
    SteadyAt fun start => MapValidationRules.entryEnd base keyInfo valueInfo entry activation start grew := by
  unfold MapValidationRules.entryEnd
  cases grew with
  | false => exact steady_pure _
  | true =>
    cases setPathElementMapKey (fieldPathElement base.field.toFieldInfo) entry keyInfo valueInfo with
    | error failure => exact steady_pure _
    | ok element =>
      refine SteadyAt.bind (steadyAt_edit _) fun _ => SteadyAt.bind steady_failsFast fun answer => ?_
      cases answer with
      | true => exact steady_pure _
      | false => exact steady_pure _

theorem entryRound_steady (entry : Entry) (key : CelValue) (activation : Activation) :
    Steady (MapValidationRules.entryRound runtime base keyInfo valueInfo keyRules valueRules entry key activation) := by
  refine SteadyAt.scope (SteadyAt.bind (SteadyAt.grown (entryRules_steady runtime _ _ _ _ _ _ _)) fun result => ?_)
  obtain ⟨status, grew⟩ := result
  cases status with
  | error failure => exact steady_pure _
  | ok left => exact entryEnd_steady _ _ _ _ _ _

theorem entryLoop_steady (entries : List (Entry × CelValue)) (activation : Activation) :
    Steady (MapValidationRules.entryLoop runtime base keyInfo valueInfo keyRules valueRules entries activation) := by
  induction entries generalizing activation with
  | nil => exact steady_pure _
  | cons entry entries ih =>
    refine SteadyAt.bind (entryRound_steady runtime _ _ _ _ _ _ _ _) fun result => ?_
    cases result with
    | inl status => exact steady_pure _
    | inr left => exact ih left

theorem entriesValidate_steady (message : Message) :
    Steady (MapValidationRules.validateEntries runtime base keyRules valueRules message) := by
  unfold MapValidationRules.validateEntries
  split
  · exact steady_pure _
  · cases base.field.shape with
    | map keyInfo valueInfo valid =>
      simp only
      split
      · exact steady_pure _
      · exact entryLoop_steady runtime _ _ _ _ _ _ _
    | _ => exact steady_pure _

theorem mapValidate_steady (message : Message) :
    Steady (MapValidationRules.validate runtime base keyRules valueRules message) :=
  SteadyAt.orFail (fieldValidate_steady runtime base message)
    (entriesValidate_steady runtime base keyRules valueRules message)

end Maps

section Messages

variable (message : Message)

theorem hasCount_steady (fields : List FieldDescriptor) :
    Steady (MessageOneofValidationRules.hasCount message fields) := by
  induction fields with
  | nil => exact steady_pure _
  | cons field fields ih =>
    exact SteadyAt.bind (steady_note _) fun _ => SteadyAt.bind ih fun _ => steady_pure _

/-- The virtual `Validate` of every class of rules. -/
theorem rulesValidate_steady (rules : ValidationRules) : Steady (rules.validate runtime message) := by
  cases rules with
  | message rules => exact SteadyAt.bind (validateCel_steady runtime _ _) fun _ => steady_pure _
  | messageOneof fields required =>
    exact SteadyAt.bind (hasCount_steady message fields) fun _ =>
      SteadyAt.bind (steady_emplaceBackIf _ _) fun _ => SteadyAt.bind (steady_emplaceBackIf _ _) fun _ => steady_pure _
  | oneof descriptor required => exact SteadyAt.bind (steady_emplaceBackIf _ _) fun _ => steady_pure _
  | field rules =>
    cases rules with
    | field base => exact fieldValidate_steady runtime base message
    | enum base enumRules => exact enumValidate_steady runtime base message enumRules
    | repeated base itemRules => exact repeatedValidate_steady runtime base message itemRules
    | map base keyRules valueRules => exact mapValidate_steady runtime base keyRules valueRules message

theorem childLoop_steady (factory : ValidatorFactory) {places : List (FieldPathElement × Message)}
    (steady : ∀ child ∈ places, Steady (Validator.validateMessage factory child.2)) :
    Steady (eachThen (Validator.validateChild factory) places (pure (.ok ()))) :=
  Steady.eachThen (fun child member => (steady child member).framed _) (steady_pure _)

/-- `ValidateMessage`, at any depth. -/
theorem validateMessage_steady (factory : ValidatorFactory) : Steady (Validator.validateMessage factory message) := by
  induction message using children_induction with
  | step message ih =>
    rw [Validator.validateMessage_eq]
    split
    · exact steady_pure _
    · exact Steady.eachThen (fun rules _ => rulesValidate_steady _ message rules) (childLoop_steady factory ih)

end Messages
end Protovalidate.Validate
