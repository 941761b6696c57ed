import Protovalidate.Validate.Build

/-! The rules that apply to one value, as `NewFieldRules` builds them: all but the
field they belong to depends on nothing but the type of the field. -/

namespace Protovalidate.Validate

section Kinds

/-- Rules for scalars, enums, well-known messages and `Any`, or custom rules only. -/
def RuleType.isElementKind : RuleType → Bool
  | .notSet | .scalar _ _ | .enum _ | .wellKnown _ _ | .any _ => true
  | .repeated _ _ | .map _ _ _ | .unknown _ => false

/-- The rules behind the check for defined values. -/
def RuleType.enumRules : RuleType → Option EnumRules
  | .enum rules => some rules
  | _ => none

/-- The rules behind `ValidateAny`. -/
def RuleType.anyRules : RuleType → Option AnyRules
  | .any rules => some rules
  | _ => none

/-- What two fields of one type have in common. -/
structure SameType (field field' : FieldInfo) : Prop where
  type : field.type = field'.type
  messageType : field.messageType = field'.messageType
  enumNumbers : field.enumNumbers = field'.enumNumbers

/-- The CEL rules of the kind of the rules. -/
def typeCel (context : BuildContext) (field : FieldDescriptor) : RuleType → Except StatusError CelValidationRules
  | .scalar kind rules =>
    buildScalarFieldRules context field (.scalar kind) rules kind.expectedType kind.wrapperName {}
  | .enum rules => buildScalarFieldRules context field .enum rules.message .enum "" {}
  | .wellKnown kind rules =>
    if isMessageOf field kind.fullName then buildCelRules context (.wellKnown kind) rules {}
    else .error ⟨.invalidArgument, kind.mismatch⟩
  | .any rules =>
    if isMessageOf field "google.protobuf.Any" then buildCelRules context .any rules.message {}
    else .error ⟨.invalidArgument, "any field validator on non-any field"⟩
  | _ => .ok {}

/-- All the CEL rules of an element. -/
def elementCel (context : BuildContext) (field : FieldDescriptor) (fieldLvl : FieldRules) :
    Except StatusError CelValidationRules := do
  let cel ← typeCel context field fieldLvl.type
  addCustomRules context.runtime fieldLvl cel

/-- The rules of an element around its CEL rules. -/
def elementBase (field : FieldDescriptor) (fieldLvl : FieldRules) (cel : CelValidationRules) : FieldValidationRules :=
  { FieldValidationRules.new field fieldLvl fieldLvl.type.anyRules with toCelValidationRules := cel }

def elementRuleSet (field : FieldDescriptor) (fieldLvl : FieldRules) (cel : CelValidationRules) : FieldRuleSet :=
  match fieldLvl.type.enumRules with
  | some rules => .enum (elementBase field fieldLvl cel) rules
  | none => .field (elementBase field fieldLvl cel)

@[simp] theorem elementRuleSet_base (field : FieldDescriptor) (fieldLvl : FieldRules) (cel : CelValidationRules) :
    (elementRuleSet field fieldLvl cel).base = elementBase field fieldLvl cel := by
  unfold elementRuleSet
  split <;> rfl

variable {context : BuildContext} {field field' : FieldDescriptor} {fieldLvl : FieldRules} {type : RuleType}

theorem newTypeRules_eq (elementary : fieldLvl.type.isElementKind = true) :
    newTypeRules context field fieldLvl fieldLvl.type =
      (typeCel context field fieldLvl.type).map (elementRuleSet field fieldLvl) := by
  obtain ⟨ignore, required, cel, celExpression, type⟩ := fieldLvl
  cases type with
  | notSet => rfl
  | scalar kind rules =>
    simp only [FieldRules.type, newTypeRules, typeCel, withCelRules]
    cases buildScalarFieldRules context field (.scalar kind) rules kind.expectedType kind.wrapperName {} <;> rfl
  | enum rules =>
    simp only [FieldRules.type, newTypeRules, typeCel, withCelRules]
    cases buildScalarFieldRules context field .enum rules.message .enum "" {} <;> rfl
  | wellKnown kind rules =>
    simp only [FieldRules.type, newTypeRules, typeCel, withCelRules]
    split
    · cases buildCelRules context (.wellKnown kind) rules {} <;> rfl
    · rfl
  | any rules =>
    simp only [FieldRules.type, newTypeRules, typeCel, withCelRules]
    split
    · cases buildCelRules context .any rules.message {} <;> rfl
    · rfl
  | repeated _ _ => cases elementary
  | map _ _ _ => cases elementary
  | unknown _ => cases elementary

theorem withCustomRules_eq (runtime : Runtime) (cel : CelValidationRules) :
    (elementRuleSet field fieldLvl cel).withCustomRules runtime fieldLvl =
      (addCustomRules runtime fieldLvl cel).map fun cel => some (elementRuleSet field fieldLvl cel) := by
  simp only [FieldRuleSet.withCustomRules, elementRuleSet_base]
  change (do
    let cel ← addCustomRules runtime fieldLvl cel
    pure (some ((elementRuleSet field fieldLvl _).setBase _))) = _
  cases addCustomRules runtime fieldLvl cel with
  | error failure => rfl
  | ok cel =>
    unfold elementRuleSet
    cases fieldLvl.type.enumRules <;> rfl

theorem newFieldRules_eq (elementary : fieldLvl.type.isElementKind = true) :
    newFieldRules context field fieldLvl =
      if fieldLvl.ignore == .always then .ok none
      else (elementCel context field fieldLvl).map fun cel => some (elementRuleSet field fieldLvl cel) := by
  have unfolded : newFieldRules context field fieldLvl =
      if fieldLvl.ignore == .always then .ok none
      else (do
        let rules ← newTypeRules context field fieldLvl fieldLvl.type
        rules.withCustomRules context.runtime fieldLvl) := by
    obtain ⟨ignore, required, cel, celExpression, type⟩ := fieldLvl
    rw [newFieldRules]
    rfl
  rw [unfolded, newTypeRules_eq elementary, elementCel]
  split
  · rfl
  · cases typeCel context field fieldLvl.type with
    | error failure => rfl
    | ok cel => exact withCustomRules_eq context.runtime cel

theorem isMessageOf_sameType (same : SameType field.toFieldInfo field'.toFieldInfo) (fullName : String) :
    isMessageOf field fullName = isMessageOf field' fullName := by
  simp only [isMessageOf, FieldDescriptor.isCppMessage, same.type, same.messageType]

theorem buildScalarFieldRules_sameType (same : SameType field.toFieldInfo field'.toFieldInfo) (member : RuleFieldName)
    (rules : RuleMessage) (expectedType : FieldType) (wrapperName : String) (result : CelValidationRules) :
    buildScalarFieldRules context field member rules expectedType wrapperName result =
      buildScalarFieldRules context field' member rules expectedType wrapperName result := by
  unfold buildScalarFieldRules
  rw [same.type, same.messageType]

theorem typeCel_sameType (same : SameType field.toFieldInfo field'.toFieldInfo) (type : RuleType) :
    typeCel context field type = typeCel context field' type := by
  cases type with
  | scalar kind rules => exact buildScalarFieldRules_sameType same _ _ _ _ _
  | enum rules => exact buildScalarFieldRules_sameType same _ _ _ _ _
  | wellKnown kind rules => rw [typeCel, typeCel, isMessageOf_sameType same]
  | any rules => rw [typeCel, typeCel, isMessageOf_sameType same]
  | _ => rfl

/-- Rules for a field of the same type are built alike. -/
theorem elementCel_sameType (same : SameType field.toFieldInfo field'.toFieldInfo) :
    elementCel context field fieldLvl = elementCel context field' fieldLvl := by
  rw [elementCel, elementCel, typeCel_sameType same]

/-- The rules for elements that are built without an error. -/
theorem newFieldRules_some (elementary : fieldLvl.type.isElementKind = true) {rules : FieldRuleSet}
    (built : newFieldRules context field fieldLvl = .ok (some rules)) : ∃ cel,
      elementCel context field fieldLvl = .ok cel ∧ rules = elementRuleSet field fieldLvl cel ∧
        (fieldLvl.ignore == .always) = false := by
  rw [newFieldRules_eq elementary] at built
  split at built
  · cases built
  · rename_i notAlways
    cases found : elementCel context field fieldLvl with
    | error failure =>
      rw [found] at built
      cases built
    | ok cel =>
      rw [found] at built
      cases built
      exact ⟨cel, rfl, rfl, Bool.eq_false_iff.mpr notAlways⟩

/-- Keys have no rules of the kinds that check more than CEL expressions. -/
theorem mapKey_kinds (valid : field.type.isMapKey = true) {cel : CelValidationRules}
    (built : elementCel context field fieldLvl = .ok cel) :
    fieldLvl.type.enumRules = none ∧ fieldLvl.type.anyRules = none := by
  have typeBuilt : ∃ cel, typeCel context field fieldLvl.type = .ok cel := by
    cases found : typeCel context field fieldLvl.type with
    | error failure =>
      rw [elementCel, found] at built
      cases built
    | ok cel => exact ⟨cel, rfl⟩
  obtain ⟨typeRules, found⟩ := typeBuilt
  cases kind : fieldLvl.type with
  | enum rules =>
    rw [kind, typeCel, buildScalarFieldRules] at found
    revert valid found
    cases field.type <;> simp [FieldType.isMapKey]
  | any rules =>
    rw [kind, typeCel, isMessageOf, FieldDescriptor.isCppMessage] at found
    revert valid found
    cases field.type <;> simp [FieldType.isMapKey, FieldType.isCppMessage]
  | _ => exact ⟨rfl, rfl⟩

/-- Fields with rules for `Any` hold messages. -/
theorem anyRules_message {any : AnyRules} (kind : fieldLvl.type.anyRules = some any) {cel : CelValidationRules}
    (built : elementCel context field fieldLvl = .ok cel) : field.isCppMessage = true := by
  cases type : fieldLvl.type with
  | any rules =>
    by_cases message : isMessageOf field "google.protobuf.Any" = true
    · exact (Bool.and_eq_true_iff.mp message).1
    · rw [elementCel, type, typeCel, if_neg message] at built
      cases built
  | _ =>
    rw [type] at kind
    cases kind

end Kinds
end Protovalidate.Validate
