import Protovalidate.Validate.ElementRules
import Protovalidate.Validate.Logging

/-! Whether the rules that `NewFieldRules` accepts fit the shape of their field, and
what the accessors for singular fields are called on. -/

namespace Protovalidate.Validate

open Foundation Check

section Shapes

/-- A type or its wrapper; no message type has an empty name. -/
def IsOrWraps (field : FieldInfo) (type : FieldType) (wrapperName : String) : Prop :=
  field.type = type ∨ field.type = .message ∧ field.messageType = wrapperName

/-- The values that rules of a kind are written for. -/
def RuleType.Matches (field : FieldInfo) : RuleType → Prop
  | .scalar kind _ => IsOrWraps field kind.expectedType kind.wrapperName
  | .enum _ => IsOrWraps field .enum ""
  | .wellKnown kind _ => field.type.isCppMessage = true ∧ field.messageType = kind.fullName
  | .any _ => field.type.isCppMessage = true ∧ field.messageType = "google.protobuf.Any"
  | _ => True

/-- Rules for one element, a key or a value of a field. -/
def FitsElement (field : FieldInfo) (fieldLvl : FieldRules) : Prop :=
  fieldLvl.ignore = .always ∨ fieldLvl.type.isElementKind = true ∧ fieldLvl.type.Matches field

/-- Rules at field level that fit the value they are run on. -/
def Fits (field : FieldDescriptor) (fieldLvl : FieldRules) : Prop :=
  match fieldLvl.type with
  | .notSet => True
  | .repeated _ items => field.shape = .repeated ∧ ∀ rules ∈ items, FitsElement field.toFieldInfo rules
  | .map _ keys values => ∃ keyInfo valueInfo valid, field.shape = .map keyInfo valueInfo valid ∧
      (∀ rules ∈ keys, FitsElement keyInfo rules) ∧ ∀ rules ∈ values, FitsElement valueInfo rules
  | type => field.shape = .singular ∧ type.isElementKind = true ∧ type.Matches field.toFieldInfo

/-- Rules for single values on a repeated field or a map, or rules for the items of
a repeated field that are rules for repeated fields themselves. -/
def Misplaced (field : FieldDescriptor) (fieldLvl : FieldRules) : Prop :=
  match fieldLvl.type with
  | .notSet => False
  | .repeated _ items => ∃ rules ∈ items, rules.ignore ≠ .always ∧ ∃ outer inner, rules.type = .repeated outer inner
  | .map _ _ _ => False
  | _ => field.isRepeated = true

end Shapes

section Building

variable {context : BuildContext} {field : FieldDescriptor} {fieldLvl : FieldRules} {rules : FieldRuleSet}

theorem bind_ok {ε α β : Type} {first : Except ε α} {next : α → Except ε β} {result : β}
    (succeeds : (first >>= next) = .ok result) : ∃ value, first = .ok value ∧ next value = .ok result := by
  cases first with
  | error failure => cases succeeds
  | ok value => exact ⟨value, rfl, succeeds⟩

/-- What success of `NewFieldRules` says, whatever the kind of the rules. -/
theorem newFieldRules_built {result : Option FieldRuleSet} (built : newFieldRules context field fieldLvl = .ok result) :
    fieldLvl.ignore = .always ∨ ∃ typed, newTypeRules context field fieldLvl fieldLvl.type = .ok typed ∧
      typed.withCustomRules context.runtime fieldLvl = .ok result := by
  obtain ⟨ignore, required, cel, celExpression, type⟩ := fieldLvl
  rw [newFieldRules] at built
  by_cases always : FieldRules.ignore ⟨ignore, required, cel, celExpression, type⟩ = .always
  · exact .inl always
  · right
    rw [if_neg (mt beq_iff_eq.mp always)] at built
    exact bind_ok built

theorem newFieldRules_always (always : fieldLvl.ignore = .always) :
    newFieldRules context field fieldLvl = .ok none := by
  obtain ⟨ignore, required, cel, celExpression, type⟩ := fieldLvl
  rw [newFieldRules]
  exact if_pos (beq_iff_eq.mpr always)

/-- The custom rules change the base class only. -/
theorem withCustomRules_built {runtime : Runtime} {typed : FieldRuleSet} {result : Option FieldRuleSet}
    (built : typed.withCustomRules runtime fieldLvl = .ok result) :
    ∃ cel, addCustomRules runtime fieldLvl typed.base.toCelValidationRules = .ok cel ∧
      result = some (typed.setBase { typed.base with toCelValidationRules := cel }) := by
  obtain ⟨cel, found, same⟩ := bind_ok built
  cases same
  exact ⟨cel, found, rfl⟩

theorem withCelRules_built {base base' : FieldValidationRules} {built : Except StatusError CelValidationRules}
    (succeeds : withCelRules base built = .ok base') :
    ∃ cel, built = .ok cel ∧ base' = { base with toCelValidationRules := cel } := by
  obtain ⟨cel, found, same⟩ := bind_ok succeeds
  cases same
  exact ⟨cel, found, rfl⟩

theorem buildScalarFieldRules_matches {member : RuleFieldName} {message : RuleMessage} {expected : FieldType}
    {wrapperName : String} {result cel : CelValidationRules}
    (built : buildScalarFieldRules context field member message expected wrapperName result = .ok cel) :
    IsOrWraps field.toFieldInfo expected wrapperName := by
  unfold buildScalarFieldRules at built
  split at built
  · cases built
  · rename_i accepted
    simpa [IsOrWraps, Classical.or_iff_not_imp_left] using accepted

theorem isMessageOf_matches {fullName : String} (holds : isMessageOf field fullName = true) :
    field.type.isCppMessage = true ∧ field.messageType = fullName := by
  simpa [isMessageOf, FieldDescriptor.isCppMessage] using holds

/-- Rules are only built for the type they are written for. -/
theorem newTypeRules_matches {type : RuleType} (built : newTypeRules context field fieldLvl type = .ok rules) :
    type.Matches field.toFieldInfo := by
  cases type with
  | scalar kind message =>
    rw [newTypeRules] at built
    obtain ⟨base, baseBuilt, -⟩ := bind_ok built
    obtain ⟨cel, found, -⟩ := withCelRules_built baseBuilt
    exact buildScalarFieldRules_matches found
  | enum message =>
    rw [newTypeRules] at built
    obtain ⟨base, baseBuilt, -⟩ := bind_ok built
    obtain ⟨cel, found, -⟩ := withCelRules_built baseBuilt
    exact buildScalarFieldRules_matches found
  | wellKnown kind message =>
    rw [newTypeRules] at built
    split at built
    · rename_i holds
      exact isMessageOf_matches holds
    · cases built
  | any message =>
    rw [newTypeRules] at built
    split at built
    · rename_i holds
      exact isMessageOf_matches holds
    · cases built
  | _ => trivial

/-- Rules that are about a field and not for `Any`. -/
structure PlainFor (field : FieldDescriptor) (base : FieldValidationRules) : Prop where
  place : base.field = field
  any : base.anyRules = none

/-- The rules of a repeated field or a map around their CEL rules. -/
abbrev containerBase (field : FieldDescriptor) (fieldLvl : FieldRules) (cel : CelValidationRules) : FieldValidationRules :=
  { FieldValidationRules.new field fieldLvl with toCelValidationRules := cel }

theorem containerBase_plain (cel : CelValidationRules) : PlainFor field (containerBase field fieldLvl cel) := ⟨rfl, rfl⟩

/-- Rules for repeated fields are only built for repeated fields, and their items
with them. -/
theorem newTypeRules_repeated {message : RuleMessage} {items : Option FieldRules}
    (built : newTypeRules context field fieldLvl (.repeated message items) = .ok rules) :
    field.shape = .repeated ∧ ∃ cel itemRules, rules = .repeated (containerBase field fieldLvl cel) itemRules ∧
      buildCelRules context .repeated message {} = .ok cel ∧
      (items = none → itemRules = none) ∧ ∀ inner ∈ items, newFieldRules context field inner = .ok itemRules := by
  rw [newTypeRules] at built
  cases shape : field.shape with
  | repeated =>
    simp only [shape] at built
    refine ⟨rfl, ?_⟩
    cases items
    all_goals
      obtain ⟨itemRules, found, rest⟩ := bind_ok built
      obtain ⟨base, baseBuilt, same⟩ := bind_ok rest
      cases same
      obtain ⟨cel, celBuilt, rfl⟩ := withCelRules_built baseBuilt
      exact ⟨cel, itemRules, rfl, celBuilt, by simp_all, by simp [found]⟩
  | _ =>
    rw [shape] at built
    cases built

/-- The rules of keys or values that have none of their own. -/
def unsetEntryRules (info : FieldInfo) : FieldRuleSet := .field (.new (.ofEntry info) .default)

/-- Rules for maps are only built for maps, and their keys and values with them. -/
theorem newTypeRules_map {message : RuleMessage} {keys values : Option FieldRules}
    (built : newTypeRules context field fieldLvl (.map message keys values) = .ok rules) :
    ∃ keyInfo valueInfo valid, field.shape = .map keyInfo valueInfo valid ∧
      ∃ cel keyRules valueRules, rules = .map (containerBase field fieldLvl cel) keyRules valueRules ∧
        buildCelRules context .map message {} = .ok cel ∧
        ((keys = none → keyRules = some (unsetEntryRules keyInfo)) ∧
          ∀ inner ∈ keys, newFieldRules context (.ofEntry keyInfo) inner = .ok keyRules) ∧
        (values = none → valueRules = some (unsetEntryRules valueInfo)) ∧
          ∀ inner ∈ values, newFieldRules context (.ofEntry valueInfo) inner = .ok valueRules := by
  rw [newTypeRules] at built
  cases shape : field.shape with
  | map keyInfo valueInfo valid =>
    simp only [shape] at built
    refine ⟨keyInfo, valueInfo, valid, rfl, ?_⟩
    cases keys <;> cases values
    all_goals
      obtain ⟨keyRules, keyBuilt, rest⟩ := bind_ok built
      obtain ⟨valueRules, valueBuilt, rest⟩ := bind_ok rest
      obtain ⟨base, baseBuilt, same⟩ := bind_ok rest
      cases same
      obtain ⟨cel, celBuilt, rfl⟩ := withCelRules_built baseBuilt
      refine ⟨cel, keyRules, valueRules, rfl, celBuilt, ⟨?_, by simp [keyBuilt]⟩, ?_, by simp [valueBuilt]⟩
      all_goals
        intro unset
        cases unset
      all_goals
        first
          | cases keyBuilt; rfl
          | cases valueBuilt; rfl
  | _ =>
    rw [shape] at built
    cases built

/-- Rules that are built for an element fit it, unless they are for repeated fields. -/
theorem newFieldRules_fitsElement {result : Option FieldRuleSet} (built : newFieldRules context field fieldLvl = .ok result)
    (notMap : field.isMap = false)
    (notRepeated : field.shape = .repeated → fieldLvl.ignore = .always ∨ ∀ outer inner, fieldLvl.type ≠ .repeated outer inner) :
    FitsElement field.toFieldInfo fieldLvl := by
  rcases newFieldRules_built built with always | ⟨typed, typeBuilt, -⟩
  · exact .inl always
  · cases kind : fieldLvl.type with
    | repeated outer inner =>
      rw [kind] at typeBuilt
      obtain ⟨shape, -⟩ := newTypeRules_repeated typeBuilt
      exact .inl ((notRepeated shape).resolve_right fun other => other outer inner kind)
    | map message keys values =>
      rw [kind] at typeBuilt
      obtain ⟨keyInfo, valueInfo, valid, shape, -⟩ := newTypeRules_map typeBuilt
      rw [FieldDescriptor.isMap, shape] at notMap
      cases notMap
    | unknown typeCase =>
      rw [kind] at typeBuilt
      cases typeBuilt
    | _ => exact .inr (by rw [kind] at typeBuilt ⊢; exact ⟨rfl, newTypeRules_matches typeBuilt⟩)

/-- The rules that are built at field level fit the field unless they are misplaced. -/
theorem newFieldRules_fits (built : newFieldRules context field fieldLvl = .ok (some rules)) :
    Fits field fieldLvl ↔ ¬Misplaced field fieldLvl := by
  rcases newFieldRules_built built with always | ⟨typed, typeBuilt, -⟩
  · rw [newFieldRules_always always] at built
    cases built
  unfold Fits Misplaced
  have matching := newTypeRules_matches typeBuilt
  cases kind : fieldLvl.type with
  | notSet => simp
  | repeated message items =>
    rw [kind] at typeBuilt
    obtain ⟨shape, _, itemRules, -, -, -, itemsBuilt⟩ := newTypeRules_repeated typeBuilt
    have notMap : field.isMap = false := by rw [FieldDescriptor.isMap, shape]
    constructor
    · rintro ⟨-, fits⟩ ⟨inner, member, checked, outer, nested, type⟩
      rcases fits inner member with always | ⟨elementary, -⟩
      · exact checked always
      · rw [type] at elementary
        cases elementary
    · intro placed
      refine ⟨shape, fun inner member => ?_⟩
      refine newFieldRules_fitsElement (itemsBuilt inner member) notMap fun _ => ?_
      by_cases always : inner.ignore = .always
      · exact .inl always
      · exact .inr fun outer nested type => placed ⟨inner, member, always, outer, nested, type⟩
  | map message keys values =>
    rw [kind] at typeBuilt
    obtain ⟨keyInfo, valueInfo, valid, shape, _, keyRules, valueRules, -, -, ⟨-, keysBuilt⟩, -, valuesBuilt⟩ :=
      newTypeRules_map typeBuilt
    refine iff_of_true ⟨keyInfo, valueInfo, valid, shape, fun inner member => ?_, fun inner member => ?_⟩ id
    · exact newFieldRules_fitsElement (keysBuilt inner member) rfl fun impossible => by cases impossible
    · exact newFieldRules_fitsElement (valuesBuilt inner member) rfl fun impossible => by cases impossible
  | unknown typeCase =>
    rw [kind] at typeBuilt
    cases typeBuilt
  | _ =>
    rw [kind] at matching
    have shaped : field.shape = .singular ↔ ¬field.isRepeated = true := by
      unfold FieldDescriptor.isRepeated
      cases field.shape <;> simp
    exact ⟨fun fits => shaped.mp fits.1, fun placed => ⟨shaped.mpr placed, rfl, matching⟩⟩

/-- Enum rules are built for enum rules only, and for the field they belong to. -/
theorem newFieldRules_enum {base : FieldValidationRules} {enumRules : EnumRules}
    (built : newFieldRules context field fieldLvl = .ok (some (.enum base enumRules))) :
    fieldLvl.type = .enum enumRules ∧ base.field = field := by
  rcases newFieldRules_built built with always | ⟨typed, typeBuilt, customBuilt⟩
  · rw [newFieldRules_always always] at built
    cases built
  by_cases elementary : fieldLvl.type.isElementKind = true
  · obtain ⟨cel, -, same, -⟩ := newFieldRules_some elementary built
    unfold elementRuleSet at same
    cases kind : fieldLvl.type with
    | enum rules =>
      rw [kind] at same
      cases same
      exact ⟨rfl, rfl⟩
    | _ =>
      rw [kind] at same
      cases same
  · obtain ⟨cel, -, same⟩ := withCustomRules_built customBuilt
    cases kind : fieldLvl.type with
    | repeated message items =>
      rw [kind] at typeBuilt
      obtain ⟨-, _, _, rfl, -⟩ := newTypeRules_repeated typeBuilt
      cases same
    | map message keys values =>
      rw [kind] at typeBuilt
      obtain ⟨_, _, _, -, _, _, _, rfl, -⟩ := newTypeRules_map typeBuilt
      cases same
    | unknown typeCase =>
      rw [kind] at typeBuilt
      cases typeBuilt
    | _ =>
      rw [kind] at elementary
      exact absurd rfl elementary

end Building

section Accessors

/-- No accessor of singular fields is called on a repeated field. -/
def SingularAccess : Event → Prop
  | .evaluated _ _ _ => True
  | .recorded => True
  | .hasField field => field.isRepeated = false
  | .getEnumValue field => field.isRepeated = false

theorem singularAccess_welcomes : Welcomes SingularAccess where
  evaluated := fun _ _ _ => trivial
  recorded := trivial
  hasField := fun _ singular => singular

/-- Only enum rules on a repeated field use an accessor that they must not use. -/
theorem ruleSet_access (runtime : Runtime) (message : Message) (rules : FieldRuleSet)
    (singular : ∀ base enumRules, rules = .enum base enumRules → base.field.isRepeated = false) :
    Logs SingularAccess (rules.validate runtime message) := by
  cases rules with
  | field base => exact fieldValidate_logs singularAccess_welcomes runtime base message
  | enum base enumRules =>
    exact enumValidate_logs singularAccess_welcomes runtime base message (singular base enumRules rfl)
  | repeated base itemRules => exact repeatedValidate_logs singularAccess_welcomes runtime base message itemRules
  | map base keyRules valueRules =>
    exact mapValidate_logs singularAccess_welcomes runtime base message keyRules valueRules

end Accessors

section Shape

variable {context : BuildContext} {field : FieldDescriptor} {fieldLvl : FieldRules} {rules : FieldRuleSet}

/-- The rules that are built fit their field and no run of them uses an accessor of
singular fields on a repeated field, unless they are misplaced. -/
theorem newFieldRules_shape_iff (built : newFieldRules context field fieldLvl = .ok (some rules)) :
    (Fits field fieldLvl ∧ ∀ runtime message, Logs SingularAccess (rules.validate runtime message)) ↔
      ¬Misplaced field fieldLvl := by
  rw [newFieldRules_fits built]
  refine and_iff_left_of_imp fun placed runtime message => ?_
  refine ruleSet_access runtime message rules fun base enumRules same => ?_
  subst same
  obtain ⟨kind, place⟩ := newFieldRules_enum built
  rw [place]
  unfold Misplaced at placed
  rw [kind] at placed
  exact Bool.eq_false_iff.mpr placed

theorem newFieldRules_shape_iff_color :
    (Fits color definedOnly ∧ ∀ runtime message, Logs SingularAccess ((definedOnlyRules color).validate runtime message)) ↔
      ¬Misplaced color definedOnly :=
  newFieldRules_shape_iff
    (show newFieldRules paintContext color definedOnly = .ok (some (definedOnlyRules color)) from rfl)

/-- Enum rules are accepted on a repeated field, and are run on it as if it were
singular. -/
theorem definedOnly_on_repeated :
    newFieldRules paintContext colors definedOnly = .ok (some (definedOnlyRules colors)) ∧
      ¬Fits colors definedOnly ∧
      (alone ((definedOnlyRules colors).validate paintContext.runtime (palette 1))).2.trace =
        [.getEnumValue colors] ∧ colors.isRepeated = true := by
  refine ⟨rfl, fun fits => ?_, rfl, rfl⟩
  cases fits.1

end Shape
end Protovalidate.Validate
