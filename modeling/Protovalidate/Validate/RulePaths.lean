import Protovalidate.Validate.ElementPairs
import Protovalidate.Validate.Loading
import Protovalidate.Validate.Origins
import Protovalidate.Validate.RuleOptions
import Protovalidate.Validate.RunStops

/-! The rule paths of the violations that are returned: read from the options of the
field that a violation is about, each leads to the rule that has failed. -/

namespace Protovalidate.Validate

open Foundation Check

section Reading

variable (runtime : Runtime)

/-- What a rule path leads to: a rule of `FieldRules` itself, or a field of the rule
message of its kind. -/
inductive RuleTarget where
  | required
  | cel (index : Nat) (rule : Rule)
  | celExpression (index : Nat) (expression : String)
  | member (name : RuleFieldName) (rules : RuleMessage) (number : Nat)

/-- A rule path that has been read: the fields of `RepeatedRules` or `MapRules` it has
gone through, the options it has come to, and the rule of these. -/
structure RuleReading where
  route : List RuleFieldName
  level : FieldRules
  target : RuleTarget

namespace FieldPathElement

/-- A path element is read by its number. -/
def names (element : FieldPathElement) (name : RuleFieldName) : Bool :=
  element.fieldNumber == some (runtime.ruleField name).number

/-- The position in a repeated field. -/
def position (element : FieldPathElement) : Option Nat :=
  match element.subscript with
  | some (.index index) => some index
  | _ => none

end FieldPathElement

namespace FieldRules

/-- A rule that every kind of options has. -/
def readOwn (level : FieldRules) (element : FieldPathElement) : Option RuleTarget :=
  if element.names runtime .required then some .required
  else if element.names runtime .cel then
    element.position.bind fun index => level.cel[index]?.map (RuleTarget.cel index)
  else if element.names runtime .celExpression then
    element.position.bind fun index => level.celExpression[index]?.map (RuleTarget.celExpression index)
  else none

/-- A field of the rule message that is set. -/
def readMember (level : FieldRules) (outer inner : FieldPathElement) : Option RuleTarget :=
  level.type.member.bind fun member =>
    if outer.names runtime member.1 then inner.fieldNumber.map (RuleTarget.member member.1 member.2) else none

/-- The options of the items, of the keys or of the values. -/
def descend (level : FieldRules) (outer inner : FieldPathElement) : Option (RuleFieldName × FieldRules) :=
  match level.type with
  | .repeated _ items =>
    if outer.names runtime .repeated && inner.names runtime .items then some (.items, items.getD .default) else none
  | .map _ keys values =>
    if outer.names runtime .map && inner.names runtime .keys then some (.keys, keys.getD .default)
    else if outer.names runtime .map && inner.names runtime .values then some (.values, values.getD .default)
    else none
  | _ => none

end FieldRules

/-- A rule path is read from the options on, field by field. -/
def readRulePath : List FieldPathElement → FieldRules → Option RuleReading
  | [], _ => none
  | [element], level => (level.readOwn runtime element).map (RuleReading.mk [] level)
  | [outer, inner], level => (level.readMember runtime outer inner).map (RuleReading.mk [] level)
  | outer :: inner :: next :: rest, level =>
    (level.descend runtime outer inner).bind fun below =>
      (readRulePath (next :: rest) below.2).map fun reading => { reading with route := below.1 :: reading.route }

/-- Fields of one message of the generated code have different numbers. -/
structure RuleNumbers : Prop where
  required_cel : (runtime.ruleField .required).number ≠ (runtime.ruleField .cel).number
  required_celExpression : (runtime.ruleField .required).number ≠ (runtime.ruleField .celExpression).number
  cel_celExpression : (runtime.ruleField .cel).number ≠ (runtime.ruleField .celExpression).number
  keys_values : (runtime.ruleField .keys).number ≠ (runtime.ruleField .values).number

variable {runtime} {level below : FieldRules} {outer inner : FieldPathElement} {name : RuleFieldName}

theorem fieldPathElement_names (info : FieldInfo) : (fieldPathElement info).names runtime name =
    (info.number == (runtime.ruleField name).number) := by
  simp [FieldPathElement.names, fieldPathElement]

/-- The frame of an element puts its fields in front of the path, which is stored in
reverse. -/
theorem readRulePath_descend {stored : List FieldPathElement} {reading : RuleReading}
    (descends : level.descend runtime outer inner = some (name, below))
    (inside : readRulePath runtime stored.reverse below = some reading) :
    readRulePath runtime (stored ++ [inner, outer]).reverse level = some { reading with route := name :: reading.route } := by
  rw [List.reverse_append]
  cases path : stored.reverse with
  | nil =>
    rw [path] at inside
    cases inside
  | cons next rest =>
    rw [path] at inside
    change (level.descend runtime outer inner).bind _ = _
    rw [descends, Option.bind_some, inside]
    rfl

theorem readMember_eq {rules : RuleMessage} {info : FieldInfo} (type : level.type.member = some (name, rules)) :
    level.readMember runtime (fieldPathElement (runtime.ruleField name)) (fieldPathElement info) =
      some (.member name rules info.number) := by
  have named : (fieldPathElement (runtime.ruleField name)).names runtime name = true := by
    rw [fieldPathElement_names]
    exact beq_self_eq_true _
  simp only [FieldRules.readMember, type, Option.bind_some, named, ↓reduceIte]
  rfl

theorem readOwn_required : level.readOwn runtime (fieldPathElement (runtime.ruleField .required)) = some .required := by
  have named : (fieldPathElement (runtime.ruleField .required)).names runtime .required = true := by
    rw [fieldPathElement_names]
    exact beq_self_eq_true _
  simp only [FieldRules.readOwn, named, ↓reduceIte]

theorem setIndex_names (info : FieldInfo) (index : Nat) : ((fieldPathElement info).setIndex index).names runtime name =
    (info.number == (runtime.ruleField name).number) := fieldPathElement_names info

theorem readOwn_cel (numbers : RuleNumbers runtime) (index : Nat) :
    level.readOwn runtime ((fieldPathElement (runtime.ruleField .cel)).setIndex index) =
      level.cel[index]?.map (RuleTarget.cel index) := by
  simp only [FieldRules.readOwn, setIndex_names, beq_iff_eq, if_neg numbers.required_cel.symm, ↓reduceIte]
  rfl

theorem readOwn_celExpression (numbers : RuleNumbers runtime) (index : Nat) :
    level.readOwn runtime ((fieldPathElement (runtime.ruleField .celExpression)).setIndex index) =
      level.celExpression[index]?.map (RuleTarget.celExpression index) := by
  simp only [FieldRules.readOwn, setIndex_names, beq_iff_eq, if_neg numbers.required_celExpression.symm,
    if_neg numbers.cel_celExpression.symm, ↓reduceIte]
  rfl

end Reading

section Checks

variable (seen : Event → Prop) (context : BuildContext) (message : Message) (field : FieldDescriptor)

/-- The value that the rules of a field, or of one of its elements, are run on. -/
def Sees : Option Element → CelValue → Prop
  | none, this => Shows context.runtime message field this
  | some element, this => ∃ place, element.field field = some place ∧ this = element.seen context.runtime place

/-- The message that the rules for `Any` are run on. -/
def anyMessageOf : Option Element → Message
  | none =>
    match message.single field with
    | some value => anyMessage context.runtime field.toFieldInfo value
    | none => context.runtime.prototype field.messageType
  | some element => anyMessage context.runtime field.toFieldInfo element.held

/-- An expression was evaluated on a value and does not hold of it. -/
def Violated (expression : String) (this : CelValue) : Prop :=
  ∃ activation result, seen (.evaluated expression activation result) ∧ verdict result = .violated ∧
    activation "this" = some this

/-- The check of a rule has failed for a field or one of its elements, with this rule id. -/
inductive Fails (part : Option Element) (level : FieldRules) : RuleTarget → String → Prop where
  | required (whole : part = none) (needs : level.required = true) (unpopulated : message.populates field = false) :
      Fails part level .required "required"
  | cel {index : Nat} {rule : Rule} {this : CelValue} (listed : level.cel[index]? = some rule)
      (sees : Sees context message field part this) (violated : Violated seen rule.expression this) :
      Fails part level (.cel index rule) rule.id
  | celExpression {index : Nat} {expression : String} {this : CelValue}
      (listed : level.celExpression[index]? = some expression) (sees : Sees context message field part this)
      (violated : Violated seen expression this) : Fails part level (.celExpression index expression) expression
  | predefined {name : RuleFieldName} {rules parsed : RuleMessage} {ruleField : RuleField} {predefined : List Rule}
      {rule : Rule} {this : CelValue} (type : level.type.member = some (name, rules)) (reads : context.Reads rules parsed)
      (among : ruleField ∈ parsed.fields) (set : ruleField.predefined = some predefined) (inside : rule ∈ predefined)
      (sees : Sees context message field part this) (violated : Violated seen rule.expression this) :
      Fails part level (.member name rules ruleField.info.number) rule.id
  | definedOnly {rules : EnumRules} (whole : part = none) (type : level.type = .enum rules) (only : rules.definedOnly = true)
      (undefined : field.enumNumbers.contains (message.getEnumValue field) = false) :
      Fails part level (.member .enum rules.message (context.runtime.ruleField .definedOnly).number) "enum.defined_only"
  | anyIn {any : AnyRules} {typeUri : String} (type : level.type = .any any)
      (url : typeUrl (anyMessageOf context message field part) = some typeUri) (fails : allowViolated any typeUri = true) :
      Fails part level (.member .any any.message (context.runtime.ruleField .anyIn).number) "any.in"
  | anyNotIn {any : AnyRules} {typeUri : String} (type : level.type = .any any)
      (url : typeUrl (anyMessageOf context message field part) = some typeUri)
      (fails : any.notIn.contains typeUri = true) :
      Fails part level (.member .any any.message (context.runtime.ruleField .anyNotIn).number) "any.not_in"

/-- A rule value is the field that the path leads to, in the message it leads through,
which may have been parsed again; custom expressions have none. -/
def IsRuleValue (level : FieldRules) : RuleTarget → ProtoField → Prop
  | .required, value =>
    value.message = .fieldRules level ∧ value.descriptor = context.runtime.ruleField .required ∧ value.index = none
  | .member _ rules number, value =>
    (∃ parsed, context.Reads rules parsed ∧ value.message = .rules parsed) ∧ value.descriptor.number = number ∧
      value.index = none
  | .cel _ _, _ | .celExpression _ _, _ => False

/-- The element is one of the field of a message. -/
def Element.Inside : Element → Prop
  | .item index value => (message.elements field)[index]? = some value
  | .mapKey entry read => ∃ keyInfo valueInfo valid keys, field.shape = .map keyInfo valueInfo valid ∧
      context.runtime.listKeys keyInfo ((message.entries field).map Entry.key) = .ok keys ∧
      (entry, read) ∈ (message.entries field).zip keys
  | .mapValue entry => entry ∈ message.entries field

/-- The path element of a field, or of one of its elements. -/
def placeOf : Option Element → FieldPathElement
  | none => fieldPathElement field.toFieldInfo
  | some (.item index _) => (fieldPathElement field.toFieldInfo).setIndex index
  | some (.mapKey entry _) | some (.mapValue entry) =>
    match field.shape with
    | .map keyInfo valueInfo _ => entryPathElement field.toFieldInfo keyInfo valueInfo entry.key
    | _ => fieldPathElement field.toFieldInfo

/-- The fields that the rule path of an element goes through. -/
def routeOf : Option Element → List RuleFieldName
  | none => []
  | some (.item _ _) => [.items]
  | some (.mapKey _ _) => [.keys]
  | some (.mapValue _) => [.values]

def Element.isKey : Element → Bool
  | .mapKey _ _ => true
  | _ => false

/-- A violation is about a field of a message, or about one of its elements. -/
structure About (path : FieldPath) (part : Option Element) (violation : RuleViolation) : Prop where
  inside : ∀ element, part = some element → element.Inside context message field
  place : violation.proto.field = some (path ++ [placeOf field part])
  forKey : violation.proto.forKey = part.any Element.isKey

/-- The rule path that a violation carries leads from some options to the rule that has
failed. -/
def Names (part : Option Element) (route : List RuleFieldName) (level : FieldRules) (rulePath : FieldPath)
    (violation : RuleViolation) : Prop :=
  ∃ below target, readRulePath context.runtime rulePath level = some ⟨route, below, target⟩ ∧
    Fails seen context message field part below target violation.proto.ruleId ∧
    ∀ value, violation.ruleValue = some value → IsRuleValue context below target value

end Checks

section Levels

variable {seen : Event → Prop} {context : BuildContext} {message : Message} {field : FieldDescriptor}
  {part : Option Element} {level : FieldRules} {violation : RuleViolation}

theorem names_required {base : FieldValidationRules} (options : base.fieldRules = level) (needs : level.required = true)
    (unpopulated : message.populates field = false) :
    Names seen context message field none [] level [fieldPathElement (context.runtime.ruleField .required)]
      (base.requiredViolation context.runtime message) := by
  refine ⟨level, .required, ?_, .required rfl needs unpopulated, fun value same => ?_⟩
  · rw [readRulePath, readOwn_required]
    rfl
  · cases same
    exact ⟨congrArg ProtoMessage.fieldRules options, rfl, rfl⟩

theorem ruleValueOf_custom {cel : CelValidationRules} {expr : CompiledRule} (custom : expr.ruleField = none) :
    cel.ruleValueOf expr violation = violation := by
  unfold CelValidationRules.ruleValueOf
  rw [custom]
  cases cel.rules <;> rfl

/-- The violations of CEL rules carry the path and the value of the option that the
expression comes from. -/
theorem names_cel (numbers : RuleNumbers context.runtime) {cel : CelValidationRules} {this : CelValue}
    (fromOptions : FromOptions context level cel) (sees : Sees context message field part this)
    (found : CelFound seen cel this violation) :
    ∃ stored, violation.proto.rule = some stored ∧ Names seen context message field part [] level stored.reverse violation := by
  obtain ⟨member, evaluated, violated, bound⟩ := found
  rename_i expr activation result text
  have fails : Violated seen expr.rule.expression this := ⟨activation, result, evaluated, violated, bound⟩
  cases fromOptions expr member with
  | @celExpression index expression listed =>
    rw [ruleValueOf_custom rfl]
    refine ⟨_, rfl, level, .celExpression index expression, ?_, .celExpression listed sees fails, fun _ impossible => ?_⟩
    · rw [List.reverse_singleton, readRulePath, readOwn_celExpression numbers, listed]
      rfl
    · cases impossible
  | @cel index rule listed =>
    rw [ruleValueOf_custom rfl]
    refine ⟨_, rfl, level, .cel index rule, ?_, .cel listed sees fails, fun _ impossible => ?_⟩
    · rw [List.reverse_singleton, readRulePath, readOwn_cel numbers, listed]
      rfl
    · cases impossible
  | @predefined name rules parsed ruleField predefined rule type reads held among set inside =>
    simp only [CelValidationRules.ruleValueOf, held]
    refine ⟨_, rfl, level, .member name rules ruleField.info.number, ?_,
      .predefined type reads among set inside sees fails, fun value same => ?_⟩
    · rw [List.reverse_cons, List.reverse_singleton, List.singleton_append, readRulePath, readMember_eq type]
      rfl
    · cases same
      exact ⟨⟨parsed, reads, rfl⟩, rfl, rfl⟩

theorem anyRules_type {type : RuleType} {any : AnyRules} (rules : type.anyRules = some any) : type = .any any := by
  cases type with
  | any rules' =>
    cases rules
    rfl
  | _ => cases rules

theorem names_any {any : AnyRules} {place : ProtoField} {anyMsg : Message} (type : level.type = .any any)
    (holds : anyMessageOf context message field part = anyMsg)
    (found : AnyFound context.runtime any place anyMsg violation) :
    ∃ stored, violation.proto.rule = some stored ∧ Names seen context message field part [] level stored.reverse violation := by
  have member : level.type.member = some (.any, any.message) := by
    rw [type]
    rfl
  subst holds
  obtain ⟨url, fails⟩ | ⟨url, fails⟩ := found
  · refine ⟨_, rfl, level, .member .any any.message _, ?_, .anyIn type url fails, fun value same => ?_⟩
    · rw [List.reverse_cons, List.reverse_singleton, List.singleton_append, readRulePath, readMember_eq member]
      rfl
    · cases same
      exact ⟨⟨_, .inl rfl, rfl⟩, rfl, rfl⟩
  · refine ⟨_, rfl, level, .member .any any.message _, ?_, .anyNotIn type url fails, fun value same => ?_⟩
    · rw [List.reverse_cons, List.reverse_singleton, List.singleton_append, readRulePath, readMember_eq member]
      rfl
    · cases same
      exact ⟨⟨_, .inl rfl, rfl⟩, rfl, rfl⟩

theorem anyMessageOf_whole (base : FieldValidationRules) :
    anyMessageOf context message base.field none = base.getMessage context.runtime message := by
  unfold anyMessageOf FieldValidationRules.getMessage
  cases message.single base.field with
  | none => rfl
  | some value => cases value <;> rfl

/-- The rules at field level. -/
theorem names_field (numbers : RuleNumbers context.runtime) {rules : FieldRuleSet}
    (built : newFieldRules context field level = .ok (some rules))
    (found : FieldFound seen context.runtime message rules.base violation) :
    ∃ stored, violation.proto.rule = some stored ∧ Names seen context message field none [] level stored.reverse violation := by
  have fromOptions := newFieldRules_fromOptions built
  obtain ⟨cel, base⟩ := newFieldRules_base built
  rw [base] at found fromOptions
  cases found with
  | required needs unpopulated => exact ⟨_, rfl, names_required rfl needs unpopulated⟩
  | any rules singular found =>
    exact names_any (anyRules_type rules) (anyMessageOf_whole (elementBase field level cel)) found
  | cel shows found =>
    have inside := names_cel numbers fromOptions (show Sees context message field none _ from shows) found
    exact inside

theorem names_enum {base : FieldValidationRules} {rules : EnumRules}
    (built : newFieldRules context field level = .ok (some (.enum base rules))) (only : rules.definedOnly = true)
    (undefined : base.field.enumNumbers.contains (message.getEnumValue base.field) = false) :
    Names seen context message field none [] level
      [fieldPathElement (context.runtime.ruleField .enum), fieldPathElement (context.runtime.ruleField .definedOnly)]
      (EnumValidationRules.definedOnlyViolation context.runtime base rules message) := by
  obtain ⟨type, rfl⟩ := newFieldRules_enum built
  have member : level.type.member = some (.enum, rules.message) := by
    rw [type]
    rfl
  refine ⟨level, .member .enum rules.message _, ?_, .definedOnly rfl type only undefined, fun value same => ?_⟩
  · rw [readRulePath, readMember_eq member]
    rfl
  · cases same
    exact ⟨⟨_, .inl rfl, rfl⟩, rfl, rfl⟩

end Levels

section Elements

variable {seen : Event → Prop} {context : BuildContext} {message : Message} {field : FieldDescriptor}
  {part : Option Element} {level : FieldRules} {violation : RuleViolation}

/-- The options behind the rules of an element, which are empty where they are not set. -/
def OptionsOf (context : BuildContext) (place : FieldDescriptor) (options : Option FieldRules) (rules : FieldRuleSet) : Prop :=
  options = none ∧ rules = .field (.new place .default) ∨
    ∃ inner, options = some inner ∧ newFieldRules context place inner = .ok (some rules)

theorem OptionsOf.fromOptions {place : FieldDescriptor} {options : Option FieldRules} {rules : FieldRuleSet}
    (optionsOf : OptionsOf context place options rules) :
    FromOptions context (options.getD .default) rules.base.toCelValidationRules := by
  obtain ⟨rfl, rfl⟩ | ⟨inner, rfl, built⟩ := optionsOf
  · exact fun expr impossible => by cases impossible
  · exact newFieldRules_fromOptions built

theorem newFieldRules_repeated {base : FieldValidationRules} {rules : FieldRuleSet}
    (built : newFieldRules context field level = .ok (some (.repeated base (some rules)))) :
    base.field = field ∧ field.shape = .repeated ∧ ∃ message items, level.type = .repeated message (some items) ∧
      newFieldRules context field items = .ok (some rules) := by
  have cases := newFieldRules_cases built
  cases cases with
  | value _ _ _ alone => cases alone
  | @repeated _ _ message items kind shape plain unset built =>
    cases items with
    | none => cases unset rfl
    | some items => exact ⟨plain.place, shape, message, items, kind, built items rfl⟩

theorem newFieldRules_map {base : FieldValidationRules} {keyRules valueRules : Option FieldRuleSet}
    (built : newFieldRules context field level = .ok (some (.map base keyRules valueRules))) :
    base.field = field ∧ ∃ message keys values keyInfo valueInfo valid, level.type = .map message keys values ∧
      field.shape = .map keyInfo valueInfo valid ∧ (∀ rules ∈ keyRules, OptionsOf context (.ofEntry keyInfo) keys rules) ∧
      ∀ rules ∈ valueRules, OptionsOf context (.ofEntry valueInfo) values rules := by
  have place := (newFieldRules_cases built).place
  obtain always | ⟨typed, typeBuilt, customBuilt⟩ := newFieldRules_built built
  · rw [newFieldRules_always always] at built
    cases built
  have notElement : ¬level.type.isElementKind = true := fun elementary => by
    obtain ⟨cel, -, same, -⟩ := newFieldRules_some elementary built
    unfold elementRuleSet at same
    cases kind : level.type.enumRules with
    | none =>
      rw [kind] at same
      cases same
    | some rules =>
      rw [kind] at same
      cases same
  obtain ⟨cel, -, same⟩ := withCustomRules_built customBuilt
  have entry {info : FieldInfo} {options : Option FieldRules} {built : Option FieldRuleSet}
      (unset : options = none → built = some (unsetEntryRules info))
      (set : ∀ inner ∈ options, newFieldRules context (.ofEntry info) inner = .ok built) :
      ∀ rules ∈ built, OptionsOf context (.ofEntry info) options rules := by
    intro rules member
    cases options with
    | none => exact .inl ⟨rfl, (Option.some.inj (member.symm.trans (unset rfl)))⟩
    | some inner => exact .inr ⟨inner, rfl, member ▸ set inner rfl⟩
  cases kind : level.type with
  | repeated message items =>
    rw [kind] at typeBuilt
    obtain ⟨-, _, _, rfl, -⟩ := newTypeRules_repeated typeBuilt
    cases same
  | map message keys values =>
    rw [kind] at typeBuilt
    obtain ⟨keyInfo, valueInfo, valid, shape, _, keyRules, valueRules, rfl, -, ⟨noKeys, someKeys⟩, noValues, someValues⟩ :=
      newTypeRules_map typeBuilt
    cases same
    exact ⟨place, message, keys, values, keyInfo, valueInfo, valid, rfl, shape, entry noKeys someKeys, entry noValues someValues⟩
  | unknown typeCase =>
    rw [kind] at typeBuilt
    cases typeBuilt
  | _ =>
    rw [kind] at notElement
    exact absurd rfl notElement

/-- A violation as the rules of an element record it. -/
structure Plain (violation : RuleViolation) : Prop where
  pathless : violation.proto.field = none
  forKey : violation.proto.forKey = false

theorem CelFound.plain {cel : CelValidationRules} {this : CelValue} (found : CelFound seen cel this violation) :
    Plain violation := by
  obtain ⟨member, evaluated, violated, bound⟩ := found
  unfold CelValidationRules.ruleValueOf
  split <;> exact ⟨rfl, rfl⟩

theorem AnyFound.plain {any : AnyRules} {info : FieldInfo} {place : ProtoMessage} {index : Nat} {anyMsg : Message}
    (found : AnyFound context.runtime any { message := place, descriptor := info, index := some index } anyMsg violation) :
    Plain violation := by
  cases found <;> exact ⟨rfl, rfl⟩

/-- A change that places a violation about an element. -/
theorem Plain.about {element : Element} {inner : RuleViolation} (plain : Plain inner)
    (inside : element.Inside context message field)
    (place : violation.proto.field = some (inner.proto.field.getD [] ++ [placeOf field (some element)]))
    (forKey : violation.proto.forKey = (element.isKey || inner.proto.forKey)) :
    About context message field [] (some element) violation where
  inside := by
    rintro other same
    cases same
    exact inside
  place := by
    rw [place, plain.pathless]
    rfl
  forKey := by rw [forKey, plain.forKey, Bool.or_false, Option.any_some]

theorem about_field {rules : FieldRuleSet} (built : newFieldRules context field level = .ok (some rules))
    (found : FieldFound seen context.runtime message rules.base violation) :
    About context message field [] none violation := by
  obtain ⟨cel, base⟩ := newFieldRules_base built
  rw [base] at found
  cases found with
  | required => exact ⟨nofun, rfl, rfl⟩
  | any _ _ found => cases found <;> exact ⟨nofun, rfl, rfl⟩
  | cel _ found =>
    refine ⟨nofun, ?_, found.plain.forKey⟩
    simp only [FieldValidationRules.placed, RuleViolation.setFieldValue, RuleViolation.appendFieldPathElement,
      found.plain.pathless]
    rfl

/-- What the path of a violation about an element leads to, where the rules of the
elements are reached by two fields. -/
theorem Names.descend {element : Element} {name : RuleFieldName} {below : FieldRules} {stored : FieldPath}
    {outer inner : RuleFieldName} (route : routeOf (some element) = [name])
    (descends : level.descend context.runtime (fieldPathElement (context.runtime.ruleField outer))
      (fieldPathElement (context.runtime.ruleField inner)) = some (name, below))
    (inside : Names seen context message field (some element) [] below stored.reverse violation) :
    Names seen context message field (some element) (routeOf (some element)) level
      (stored ++ [fieldPathElement (context.runtime.ruleField inner), fieldPathElement (context.runtime.ruleField outer)]).reverse
      violation := by
  obtain ⟨bottom, target, read, fails, value⟩ := inside
  refine ⟨bottom, target, ?_, fails, value⟩
  rw [readRulePath_descend descends read, route]

/-- A violation that is about a part of a field, with a rule path that names a rule. -/
def NamesPart (seen : Event → Prop) (context : BuildContext) (message : Message) (field : FieldDescriptor)
    (level : FieldRules) (violation : RuleViolation) : Prop :=
  ∃ part stored, About context message field [] part violation ∧ violation.proto.rule = some stored ∧
    Names seen context message field part (routeOf part) level stored.reverse violation

theorem checked_inside {base items : FieldValidationRules} {item : Nat × Value}
    (member : item ∈ RepeatedValidationRules.checked context.runtime base items (message.elements field)) :
    (message.elements field)[item.1]? = some item.2 := by
  obtain ⟨⟨value, index⟩, listed, rfl⟩ := List.mem_map.mp (List.mem_of_mem_filter member)
  exact List.mem_zipIdx_iff_getElem?.mp listed

theorem names_item (numbers : RuleNumbers context.runtime) {base : FieldValidationRules} {rules : FieldRuleSet}
    {item : Nat × Value} (built : newFieldRules context field level = .ok (some (.repeated base (some rules))))
    (member : item ∈ RepeatedValidationRules.checked context.runtime base rules.base (message.elements base.field))
    (found : ItemFound seen context.runtime message base rules.base item violation) :
    NamesPart seen context message field level violation := by
  obtain ⟨rfl, shape, outer, options, type, itemsBuilt⟩ := newFieldRules_repeated built
  obtain ⟨cel, rulesBase⟩ := newFieldRules_base itemsBuilt
  have inside : (Element.item item.1 item.2).Inside context message base.field := checked_inside member
  have descends : level.descend context.runtime (fieldPathElement (context.runtime.ruleField .repeated))
      (fieldPathElement (context.runtime.ruleField .items)) = some (.items, options) := by
    simp [FieldRules.descend, type, fieldPathElement_names]
  have placed {inner : RuleViolation} (plain : Plain inner)
      (named : ∃ stored, inner.proto.rule = some stored ∧
        Names seen context message base.field (some (.item item.1 item.2)) [] options stored.reverse inner) :
      NamesPart seen context message base.field level
        (RepeatedValidationRules.placed context.runtime base message item.1 inner) := by
    obtain ⟨stored, rule, names⟩ := named
    refine ⟨some (.item item.1 item.2), _, plain.about inside rfl rfl, ?_, Names.descend rfl descends names⟩
    exact congrArg (fun path : Option FieldPath => some (path.getD [] ++ _)) rule
  cases found with
  | any set found =>
    rw [rulesBase] at set
    exact placed found.plain (names_any (anyRules_type set) rfl found)
  | cel found =>
    refine placed found.plain (names_cel numbers (newFieldRules_fromOptions itemsBuilt) ⟨base.field, ?_, rfl⟩ found)
    simp only [Element.field, shape]

theorem names_entry (numbers : RuleNumbers context.runtime) {base : FieldValidationRules}
    {keyRules valueRules : Option FieldRuleSet} {keyInfo valueInfo : FieldInfo} {valid : keyInfo.type.isMapKey = true}
    {keys : List CelValue} {entry : Entry} {key : CelValue}
    (built : newFieldRules context field level = .ok (some (.map base keyRules valueRules)))
    (shape : base.field.shape = .map keyInfo valueInfo valid)
    (read : context.runtime.listKeys keyInfo ((message.entries base.field).map Entry.key) = .ok keys)
    (member : (entry, key) ∈ (message.entries base.field).zip keys)
    (found : EntryFound seen context.runtime keyInfo valueInfo keyRules valueRules entry key violation) :
    NamesPart seen context message field level (entryPlaced base keyInfo valueInfo entry violation) := by
  obtain ⟨rfl, outer, keyOptions, valueOptions, keyInfo', valueInfo', valid', type, shape', keysOf, valuesOf⟩ :=
    newFieldRules_map built
  cases shape.symm.trans shape'
  have keyInside : (Element.mapKey entry key).Inside context message base.field :=
    ⟨keyInfo, valueInfo, valid, keys, shape, read, member⟩
  have valueInside : (Element.mapValue entry).Inside context message base.field := (List.of_mem_zip member).1
  have keyPlace : placeOf base.field (some (.mapKey entry key)) =
      entryPathElement base.field.toFieldInfo keyInfo valueInfo entry.key := by
    simp only [placeOf, shape]
  have valuePlace : placeOf base.field (some (.mapValue entry)) =
      entryPathElement base.field.toFieldInfo keyInfo valueInfo entry.key := by
    simp only [placeOf, shape]
  have keyDescends : level.descend context.runtime (fieldPathElement (context.runtime.ruleField .map))
      (fieldPathElement (context.runtime.ruleField .keys)) = some (.keys, keyOptions.getD .default) := by
    simp [FieldRules.descend, type, fieldPathElement_names]
  have valueDescends : level.descend context.runtime (fieldPathElement (context.runtime.ruleField .map))
      (fieldPathElement (context.runtime.ruleField .values)) = some (.values, valueOptions.getD .default) := by
    simp [FieldRules.descend, type, fieldPathElement_names, numbers.keys_values.symm]
  have keyNamed {rules : FieldRuleSet} {inner : RuleViolation} (set : keyRules = some rules)
      (found : CelFound seen rules.base.toCelValidationRules key inner) :
      ∃ stored, inner.proto.rule = some stored ∧ Names seen context message base.field (some (.mapKey entry key)) []
        (keyOptions.getD .default) stored.reverse inner := by
    refine names_cel numbers (keysOf rules set).fromOptions ⟨.ofEntry keyInfo, ?_, rfl⟩ found
    simp only [Element.field, shape]
  have appended {inner : RuleViolation} {stored : FieldPath} (rule : inner.proto.rule = some stored) (suffix : FieldPath) :
      some (inner.proto.rule.getD [] ++ suffix) = some (stored ++ suffix) := by
    rw [rule]
    rfl
  cases found with
  | key set found =>
    obtain ⟨stored, rule, names⟩ := keyNamed set found
    exact ⟨some (.mapKey entry key), _, found.plain.about keyInside (by rw [keyPlace]; rfl) rfl, appended rule _,
      Names.descend rfl keyDescends names⟩
  | crossed set found =>
    obtain ⟨stored, rule, names⟩ := keyNamed set found
    exact ⟨some (.mapKey entry key), _, found.plain.about keyInside (by rw [keyPlace]; rfl) rfl, appended rule _,
      Names.descend rfl keyDescends names⟩
  | @value rules inner set found =>
    have named : ∃ stored, inner.proto.rule = some stored ∧ Names seen context message base.field (some (.mapValue entry)) []
        (valueOptions.getD .default) stored.reverse inner := by
      refine names_cel numbers (valuesOf rules set).fromOptions ⟨.ofEntry valueInfo, ?_, rfl⟩ found
      simp only [Element.field, shape]
    obtain ⟨stored, rule, names⟩ := named
    exact ⟨some (.mapValue entry), _, found.plain.about valueInside (by rw [valuePlace]; rfl) rfl, appended rule _,
      Names.descend rfl valueDescends names⟩

/-- The rules of a field report what they are about, and which of its options has failed. -/
theorem names_rule (numbers : RuleNumbers context.runtime) {rules : FieldRuleSet}
    (built : newFieldRules context field level = .ok (some rules))
    (found : RuleFound seen context.runtime message (.field rules) violation) :
    NamesPart seen context message field level violation := by
  cases found with
  | field found =>
    obtain ⟨stored, rule, names⟩ := names_field numbers built found
    exact ⟨none, stored, about_field built found, rule, names⟩
  | enum only undefined =>
    obtain ⟨-, place⟩ := newFieldRules_enum built
    exact ⟨none, _, ⟨nofun, by rw [← place]; rfl, rfl⟩, rfl, names_enum built only undefined⟩
  | item member found => exact names_item numbers built member found
  | entry shape read member found => exact names_entry numbers built shape read member found

end Elements

section Members

variable {context : BuildContext} {descriptor : Descriptor} {field : FieldDescriptor} {names : List String}

/-- The options of a field; a oneof at message level sets what they leave open. -/
def FieldOptions (field : FieldDescriptor) (level : FieldRules) : Prop :=
  ∃ options, field.options = some options ∧
    (level = options ∨ options.hasIgnore = false ∧ level = options.setIgnore .ifZeroValue)

theorem newMemberRules_options {rules : FieldRuleSet}
    (built : newMemberRules context names field = .ok (some (.field rules))) :
    ∃ level, FieldOptions field level ∧ newFieldRules context field level = .ok (some rules) := by
  unfold newMemberRules at built
  cases set : field.options with
  | none =>
    rw [set] at built
    cases built
  | some options =>
    simp only [set] at built
    obtain ⟨inner, innerBuilt, same⟩ := bind_ok built
    obtain ⟨rules', rfl, same⟩ := Option.map_eq_some_iff.mp (Except.ok.inj same)
    cases same
    refine ⟨_, ⟨options, set, ?_⟩, innerBuilt⟩
    split
    · rename_i overridden
      exact .inr ⟨by simpa using (Bool.and_eq_true_iff.mp overridden).1, rfl⟩
    · exact .inl rfl

theorem newMemberRules_not_message {cel : CelValidationRules} {rules : List (Option ValidationRules)}
    (built : descriptor.fields.mapM (newMemberRules context names) = .ok rules) : some (.message cel) ∉ rules := by
  intro member
  obtain ⟨field, -, found⟩ := mapM_ok built _ member
  unfold newMemberRules at found
  split at found
  · cases found
  · obtain ⟨inner, -, same⟩ := bind_ok found
    obtain ⟨_, -, impossible⟩ := Option.map_eq_some_iff.mp (Except.ok.inj same)
    cases impossible

/-- Fields and oneofs have no rules of the message. -/
theorem messageRules_member {level rules : List ValidationRules} {cel : CelValidationRules}
    (built : (do
      let fieldRules ← descriptor.fields.mapM (newMemberRules context names)
      pure (level ++ fieldRules.filterMap id ++
        descriptor.oneofs.filterMap fun oneof => oneof.options.map (ValidationRules.oneof oneof)) : Rules) = .ok rules)
    (member : .message cel ∈ rules) : .message cel ∈ level := by
  obtain ⟨fieldRules, fieldsBuilt, same⟩ := bind_ok built
  cases same
  rcases List.mem_append.mp member with member | oneof
  · refine (List.mem_append.mp member).resolve_right fun inFields => ?_
    obtain ⟨_, present, same⟩ := List.mem_filterMap.mp inFields
    cases same
    exact newMemberRules_not_message fieldsBuilt present
  · obtain ⟨oneof, -, same⟩ := List.mem_filterMap.mp oneof
    obtain ⟨_, -, impossible⟩ := Option.map_eq_some_iff.mp same
    cases impossible

/-- The expressions of a message come from its options. -/
theorem newMessageRules_message {rules : List ValidationRules} {cel : CelValidationRules}
    (built : newMessageRules context descriptor = .ok rules) (member : .message cel ∈ rules) :
    ∃ options, buildMessageRules context.runtime options = .ok cel := by
  unfold newMessageRules at built
  cases set : descriptor.options with
  | none =>
    simp only [set] at built
    cases messageRules_member built member
  | some options =>
    simp only [set] at built
    obtain ⟨own, ownBuilt, rest⟩ := bind_ok built
    obtain ⟨oneofs, oneofsBuilt, rest⟩ := bind_ok rest
    rcases List.mem_cons.mp (messageRules_member rest member) with same | inOneofs
    · cases same
      exact ⟨options, ownBuilt⟩
    · obtain ⟨oneof, -, found⟩ := mapM_ok oneofsBuilt _ inOneofs
      cases newMessageOneof_listed found

end Members

section Runs

variable {pool : DescriptorPool} {context : BuildContext} {type : MessageType pool} {message sub : Message}
  {violation inner : RuleViolation} {seen : Event → Prop}

/-- A violation is about a field of a message below, or one of its elements, and its rule
path leads from the options of this field to the rule that has failed. -/
def NamesRule (seen : Event → Prop) (context : BuildContext) (message : Message) (violation : RuleViolation) : Prop :=
  ∃ path sub, Below message path sub ∧ ∃ field ∈ sub.descriptor.fields, ∃ level, FieldOptions field level ∧
    ∃ part, About context sub field path part violation ∧ ∃ rulePath, violation.proto.rule = some rulePath ∧
      Names seen context sub field part (routeOf part) level rulePath violation

theorem CelFound.ruleless {cel : CelValidationRules} {this : CelValue} (found : CelFound seen cel this violation)
    (pathless : ∀ expr ∈ cel.exprs, expr.rulePath = none) : violation.proto.rule = none := by
  obtain ⟨member, evaluated, violated, bound⟩ := found
  unfold CelValidationRules.ruleValueOf
  split
  · exact pathless _ member
  · exact pathless _ member

/-- Only the rules of fields have rule paths. -/
theorem RuleFound.names (numbers : RuleNumbers context.runtime) {rules : List ValidationRules} {rule : ValidationRules}
    (built : newMessageRules context sub.descriptor = .ok rules) (member : rule ∈ rules)
    (found : RuleFound seen context.runtime sub rule inner) (set : inner.proto.rule ≠ none) :
    ∃ field ∈ sub.descriptor.fields, ∃ level, FieldOptions field level ∧ NamesPart seen context sub field level inner := by
  cases rule with
  | message cel =>
    obtain ⟨options, celBuilt⟩ := newMessageRules_message built member
    cases found with
    | message found => exact absurd (found.ruleless (buildMessageRules_pathless celBuilt)) set
  | messageOneof fields required =>
    cases found
    exact absurd rfl set
  | oneof descriptor required =>
    cases found
    exact absurd rfl set
  | field rules =>
    obtain ⟨names, field, declared, memberBuilt⟩ := newMessageRules_field built member
    obtain ⟨level, options, fieldBuilt⟩ := newMemberRules_options memberBuilt
    exact ⟨field, declared, level, options, names_rule numbers fieldBuilt found⟩

theorem Below.conforms {path : List FieldPathElement} (below : Below message path sub) (conforms : Conforms type message) :
    ∃ next : MessageType pool, Conforms next sub := by
  induction below generalizing type with
  | here => exact ⟨type, conforms⟩
  | child member _ ih =>
    obtain ⟨next, -, conforms⟩ := conforms.child ⟨_, member⟩
    exact ih conforms

/-- Every rule path that `Validate` returns leads to the rule that has failed. -/
theorem rulePaths_name (numbers : RuleNumbers context.runtime) (history : List (Operation pool))
    (conforms : Conforms type message) (failFast : Bool) (violations : List RuleViolation)
    (returned : Validator.validate ((performAll context {} history).factory context) failFast message = .ok violations) :
    ∀ violation ∈ violations, violation.proto.rule ≠ none →
      NamesRule (fun event => event ∈ (Validator.run ((performAll context {} history).factory context) failFast message).2.trace)
        context message violation := by
  intro violation member set
  have consistent : Consistent context (performAll context {} history) := performAll_consistent history consistent_new
  obtain ⟨entry, ⟨path, sub, rules, below, found, rule, among, inner, finding, rfl⟩, rfl⟩ := validate_originates returned member
  obtain ⟨next, conforms⟩ := below.conforms conforms
  have built : newMessageRules context sub.descriptor = .ok rules := by
    rw [conforms.descriptor_eq] at found ⊢
    exact consistent.rulesOf found
  have carried : inner.proto.rule ≠ none := fun none => set (by rw [finalize_rule, none, Option.map_none])
  obtain ⟨field, declared, level, options, part, stored, about, stands, bottom, target, read, fails, value⟩ :=
    finding.names numbers built among carried
  refine ⟨path, sub, below, field, declared, level, options, part, ⟨about.inside, ?_, ?_⟩, stored.reverse, ?_, bottom, target, read,
    ?_, ?_⟩
  · exact finalize_field path about.place
  · rw [finalize_forKey]
    exact about.forKey
  · rw [finalize_rule, stands, Option.map_some]
  · rw [finalize_ruleId]
    exact fails
  · rw [finalize_ruleValue]
    exact value

end Runs

section Sample

def stocks : DescriptorPool where
  types := [stock.descriptor]
  distinct := by simp

def stockType : MessageType stocks := ⟨stock.descriptor, List.mem_singleton.mpr rfl⟩

theorem conforms_stock : Conforms stockType stock := by
  refine .mk rfl (fun field value member => ?_) (fun field value member inner held => ?_) (fun field value member inner held => ?_)
  all_goals cases List.mem_singleton.mp member
  · exact List.mem_cons_self
  · cases List.mem_singleton.mp held
  · cases List.mem_singleton.mp held

/-- A violation of the only entry, for its key or for its value. -/
def stockViolation (forKey : Bool) (name : RuleFieldName) : RuleViolation where
  proto := {
    field := some [entryPathElement stockField.toFieldInfo (intInfo 1 "key") (intInfo 2 "value") (.int 2)]
    rule := some [fieldPathElement (PlainRuntime.ruleField .map), fieldPathElement (PlainRuntime.ruleField name),
      (fieldPathElement (PlainRuntime.ruleField .cel)).setIndex 0]
    ruleId := "at_least"
    message := "\"this >= 3\" returned false"
    forKey := forKey }
  fieldValue := some { message := .entry ⟨.int 2, .scalar (.int 1)⟩, descriptor := intInfo 2 "value" }

theorem ruleNumbers_plain (evaluate : String → Activation → Except StatusError CelValue) :
    RuleNumbers (plainRuntime evaluate) where
  required_cel := show 25 ≠ 23 by decide
  required_celExpression := show 25 ≠ 29 by decide
  cel_celExpression := show 23 ≠ 29 by decide
  keys_values := show 4 ≠ 5 by decide

theorem rulePaths_name_stock : NamesRule (fun event => event ∈ (Validator.run
      ((performAll stockFactory.context ({} : FactoryState stocks) []).factory stockFactory.context) false stock).2.trace)
    stockFactory.context stock (stockViolation true .keys) :=
  rulePaths_name (ruleNumbers_plain atLeastThree) [] conforms_stock false
    [stockViolation true .keys, stockViolation false .values] rfl _ List.mem_cons_self (Option.some_ne_none _)

end Sample
end Protovalidate.Validate
