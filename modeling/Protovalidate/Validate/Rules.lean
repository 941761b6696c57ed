import Protovalidate.Validate.RuleContext

/-! `internal/cel_validation_rules.cc` and `internal/rules.cc`: the rule classes
and their `Validate` methods. -/

namespace Protovalidate.Validate

open Foundation Check

section CelRules

structure CompiledRule where
  rule : Rule
  rulePath : Option FieldPath := none
  ruleField : Option RuleField := none

/-- The base class of rules that are CEL expressions. -/
structure CelValidationRules where
  rules : Option RuleMessage := none
  exprs : List CompiledRule := []

def isEmptyItem : CelValue → Bool
  | .bool value => !value
  | .int value => value == 0
  | .uint value => value == 0
  | .double bits => bits == 0 || bits == 1#64 <<< 63
  | .string value => value.isEmpty
  | .bytes value => value.isEmpty
  | _ => false

/-- `ProtoFieldToCelValue` -/
def protoFieldToCelValue (runtime : Runtime) (field : RuleField) : CelValue :=
  if field.isMap then runtime.ruleMap field
  else if field.isRepeated then runtime.ruleList field
  else
    match runtime.ruleSingleField field with
    | .ok value => value
    | .error _ => .null

def processRule (runtime : Runtime) (activation : Activation) (expr : CompiledRule) : RuleCheck Status := do
  let result := runtime.evaluate expr.rule.expression activation
  note (.evaluated expr.rule.expression activation result)
  match result with
  | .error failure => pure (.error failure)
  | .ok (.bool holds) => do
    let message :=
      if expr.rule.message.isEmpty then "\"" ++ expr.rule.expression ++ "\" returned false" else expr.rule.message
    emplaceBackIf (!holds) { proto := { rule := expr.rulePath, ruleId := expr.rule.id, message := message } }
    pure (.ok ())
  | .ok (.string text) => do
    emplaceBackIf (!text.isEmpty) { proto := { rule := expr.rulePath, ruleId := expr.rule.id, message := text } }
    pure (.ok ())
  | .ok (.error message) => pure (.error ⟨.invalidArgument, message⟩)
  | .ok _ => pure (.error ⟨.invalidArgument, "invalid result type"⟩)

namespace CelValidationRules

/-- `rules_`, which is null unless it is set. -/
def rulesValue (self : CelValidationRules) : CelValue :=
  match self.rules with
  | some rules => .rules rules
  | none => .null

/-- `rule` is bound for rules that belong to a field of the rule message. -/
def bindRule (runtime : Runtime) (self : CelValidationRules) (expr : CompiledRule) (activation : Activation) :
    Activation :=
  match self.rules, expr.ruleField with
  | some _, some field => activation.insertValue "rule" (protoFieldToCelValue runtime field)
  | _, _ => activation

def ruleValueOf (self : CelValidationRules) (expr : CompiledRule) (violation : RuleViolation) : RuleViolation :=
  match self.rules, expr.ruleField with
  | some rules, some field => violation.setRuleValue { message := .rules rules, descriptor := field.info }
  | _, _ => violation

/-- The loop of `ValidateCel`; `rule` stays bound when it is left early. -/
def celLoop (runtime : Runtime) (self : CelValidationRules) :
    List CompiledRule → Activation → RuleCheck (Status × Activation)
  | [], activation => pure (.ok (), activation)
  | expr :: exprs, activation => do
    let bound := self.bindRule runtime expr activation
    let status ← framed (self.ruleValueOf expr) (processRule runtime bound expr)
    if ← exits status then pure (status, bound)
    else celLoop runtime self exprs (bound.removeValueEntry "rule")

/-- `ValidateCel`: the status and the activation it leaves behind. -/
def validateCel (runtime : Runtime) (self : CelValidationRules) (activation : Activation) :
    RuleCheck (Status × Activation) := do
  let bound := (activation.insertValue "rules" self.rulesValue).insertValue "now" runtime.now
  let (status, left) ← self.celLoop runtime self.exprs bound
  pure (status, left.removeValueEntry "rules")

end CelValidationRules
end CelRules

section FieldRules

/-- The members of `FieldValidationRules`. -/
structure FieldValidationRules extends CelValidationRules where
  fieldRules : FieldRules
  field : FieldDescriptor
  mapEntryField : Bool
  ignoreEmpty : Bool
  required : Bool
  anyRules : Option AnyRules := none

namespace FieldValidationRules

/-- The constructor. -/
def new (field : FieldDescriptor) (fieldRules : FieldRules) (anyRules : Option AnyRules := none) :
    FieldValidationRules where
  fieldRules := fieldRules
  field := field
  mapEntryField := field.mapEntry
  ignoreEmpty := fieldRules.ignore == .ifZeroValue || (field.hasPresence && !field.mapEntry)
  required := fieldRules.required
  anyRules := anyRules

variable (runtime : Runtime) (self : FieldValidationRules) (message : Message)

def requiredViolation : RuleViolation where
  proto := {
    ruleId := "required"
    message := "value is required"
    field := some [fieldPathElement self.field.toFieldInfo]
    rule := some [fieldPathElement (runtime.ruleField .required)] }
  fieldValue := some { message := .message message, descriptor := self.field.toFieldInfo }
  ruleValue := some { message := .fieldRules self.fieldRules, descriptor := runtime.ruleField .required }

/-- The violations of `ValidateAny`; the path is left to the caller for items. -/
def anyViolation (ruleId text : String) (name : RuleFieldName) (any : AnyRules) (field : ProtoField) :
    RuleViolation where
  proto := {
    ruleId := ruleId
    message := text
    field := if field.index.isNone then some [fieldPathElement field.descriptor] else none
    rule := some [fieldPathElement (runtime.ruleField name), fieldPathElement (runtime.ruleField .any)] }
  fieldValue := some field
  ruleValue := some { message := .rules any.message, descriptor := runtime.ruleField name }

def getString (message : Message) (field : FieldDescriptor) : String :=
  match message.single field with
  | some (.scalar (.string text)) => text
  | _ => ""

/-- `ValidateAny` -/
def validateAny (any : AnyRules) (field : ProtoField) (anyMsg : Message) : RuleCheck Status :=
  match anyMsg.descriptor.findFieldByName "type_url" with
  | none => pure (.error ⟨.invalidArgument, "expected Any"⟩)
  | some typeUriField =>
    if typeUriField.type != .string then pure (.error ⟨.invalidArgument, "expected Any"⟩)
    else do
      let typeUri := getString anyMsg typeUriField
      emplaceBackIf (!any.in_.isEmpty && !any.in_.contains typeUri)
        (anyViolation runtime "any.in" "type URL must be in the allow list" .anyIn any field)
      emplaceBackIf (any.notIn.contains typeUri)
        (anyViolation runtime "any.not_in" "type URL must not be in the block list" .anyNotIn any field)
      pure (.ok ())

/-- A singular message field, or the default instance. -/
def getMessage : Message :=
  match message.single self.field with
  | some (.message value) => value
  | _ => runtime.prototype self.field.messageType

/-- What is done with the path and the value of a violation of the field. -/
def placed (violation : RuleViolation) : RuleViolation :=
  (violation.appendFieldPathElement (fieldPathElement self.field.toFieldInfo)).setFieldValue
    { message := .message message, descriptor := self.field.toFieldInfo }

/-- The end of `Validate`, with `this` bound. -/
def validateThis (value : CelValue) : RuleCheck Status := do
  let (status, _) ← framedIf (fun result => result.1.isOk) (self.placed message)
    (self.validateCel runtime (Activation.empty.insertValue "this" value))
  pure status

/-- A list or a map, which may be empty. -/
def validateContainer (isEmpty : Bool) (value : CelValue) : RuleCheck Status :=
  if isEmpty && self.ignoreEmpty then pure (.ok ())
  else if isEmpty && self.required then do
    emplaceBack (self.requiredViolation runtime message)
    pure (.ok ())
  else self.validateThis runtime message value

/-- The CEL rules of a singular field. -/
def validateSingleValue : RuleCheck Status :=
  match runtime.createValueFromSingleField self.field.toFieldInfo (message.single self.field) with
  | .error failure => pure (.error failure)
  | .ok value => self.validateThis runtime message value

/-- The rules for `Any` of a singular field. -/
def validateSingleAny : RuleCheck Status :=
  match self.anyRules with
  | none => pure (.ok ())
  | some any =>
    if self.field.isCppMessage then
      validateAny runtime any { message := .message message, descriptor := self.field.toFieldInfo }
        (self.getMessage runtime message)
    else pure (.ok ())

/-- A singular field. -/
def validateSingular : RuleCheck Status :=
  if !message.hasField self.field && self.required then do
    emplaceBack (self.requiredViolation runtime message)
    pure (.ok ())
  else if !message.hasField self.field && self.ignoreEmpty then pure (.ok ())
  else orFail (self.validateSingleAny runtime message) (self.validateSingleValue runtime message)

/-- `FieldValidationRules::Validate` -/
def validate : RuleCheck Status :=
  match self.field.shape with
  | .map _ _ _ =>
    let entries := message.entries self.field
    self.validateContainer runtime message entries.isEmpty (runtime.createMap self.field entries)
  | .repeated =>
    let values := message.elements self.field
    self.validateContainer runtime message values.isEmpty (runtime.createList self.field values)
  | .singular => do
    note (.hasField self.field)
    self.validateSingular runtime message

end FieldValidationRules

/-- `FieldValidationRules` and the classes derived from it. -/
inductive FieldRuleSet where
  | field (base : FieldValidationRules)
  | enum (base : FieldValidationRules) (enumRules : EnumRules)
  | repeated (base : FieldValidationRules) (itemRules : Option FieldRuleSet)
  | map (base : FieldValidationRules) (keyRules valueRules : Option FieldRuleSet)

namespace FieldRuleSet

def base : FieldRuleSet → FieldValidationRules
  | field base => base
  | enum base _ => base
  | repeated base _ => base
  | map base _ _ => base

end FieldRuleSet

namespace EnumValidationRules

variable (runtime : Runtime) (base : FieldValidationRules) (enumRules : EnumRules) (message : Message)

def definedOnlyViolation : RuleViolation where
  proto := {
    ruleId := "enum.defined_only"
    message := "value must be one of the defined enum values"
    field := some [fieldPathElement base.field.toFieldInfo]
    rule := some [fieldPathElement (runtime.ruleField .definedOnly), fieldPathElement (runtime.ruleField .enum)] }
  fieldValue := some { message := .message message, descriptor := base.field.toFieldInfo }
  ruleValue := some { message := .rules enumRules.message, descriptor := runtime.ruleField .definedOnly }

def validateDefinedOnly : RuleCheck Status :=
  if enumRules.definedOnly then do
    note (.getEnumValue base.field)
    emplaceBackIf (!base.field.enumNumbers.contains (message.getEnumValue base.field))
      (definedOnlyViolation runtime base enumRules message)
    pure (.ok ())
  else pure (.ok ())

def validate : RuleCheck Status :=
  orExit (base.validate runtime message) (validateDefinedOnly runtime base enumRules message)

end EnumValidationRules

namespace RepeatedValidationRules

variable (runtime : Runtime) (base items : FieldValidationRules) (message : Message)

/-- What is done with a violation of the item at an index. -/
def placed (index : Nat) (violation : RuleViolation) : RuleViolation :=
  ((violation.appendFieldPathElement ((fieldPathElement base.field.toFieldInfo).setIndex index)).appendRulePathElement
    [fieldPathElement (runtime.ruleField .items), fieldPathElement (runtime.ruleField .repeated)]).setFieldValue
    { message := .message message, descriptor := base.field.toFieldInfo, index := some index }

/-- The items that `ignore` does not skip, with their indices. -/
def checked (values : List Value) : List (Nat × Value) :=
  (values.zipIdx.map fun (value, index) => (index, value)).filter fun (_, value) =>
    !(items.ignoreEmpty && isEmptyItem (runtime.listItem base.field.toFieldInfo value))

/-- The rules of an item. The status of `ValidateAny` replaces the one of
`ValidateCel`. -/
def itemRules (item : Nat × Value) : RuleCheck Status := do
  let this := runtime.listItem base.field.toFieldInfo item.2
  let (status, _) ← items.validateCel runtime (Activation.empty.insertValue "this" this)
  match items.anyRules with
  | none => pure status
  | some any =>
    let anyMsg := match item.2 with
      | .message value => value
      | .scalar _ => runtime.prototype base.field.messageType
    FieldValidationRules.validateAny runtime any
      { message := .message message, descriptor := base.field.toFieldInfo, index := some item.1 } anyMsg

/-- One round of the loop over the items. -/
def itemRound (item : Nat × Value) : RuleCheck Status :=
  framed (placed runtime base message item.1) (itemRules runtime base items message item)

def validate (rules : Option FieldRuleSet) : RuleCheck Status :=
  orExit (base.validate runtime message)
    (match rules with
    | none => pure (.ok ())
    | some rules =>
      eachThen (itemRound runtime base rules.base message)
        (checked runtime base rules.base (message.elements base.field)) (pure (.ok ())))

end RepeatedValidationRules

namespace MapValidationRules

variable (runtime : Runtime) (base : FieldValidationRules) (keyInfo valueInfo : FieldInfo)

def rulePath (name : RuleFieldName) (violation : RuleViolation) : RuleViolation :=
  violation.appendRulePathElement
    [fieldPathElement (runtime.ruleField name), fieldPathElement (runtime.ruleField .map)]

/-- What is done with a violation of a key. -/
def keyPlaced (entry : Entry) (violation : RuleViolation) : RuleViolation :=
  ((rulePath runtime .keys violation).setFieldValue { message := .entry entry, descriptor := keyInfo }).setForKey

/-- The key rules of an entry that starts at a position: the status to return
with, or the activation to go on with. -/
def keyPart (keyRules : Option FieldRuleSet) (entry : Entry) (key : CelValue) (activation : Activation) :
    RuleCheck (Except StatusError Activation) :=
  match keyRules with
  | none => pure (.ok activation)
  | some rules =>
    if rules.base.ignoreEmpty && isEmptyItem key then pure (.ok activation)
    else do
      let (status, left) ← framedIf (fun result => result.1.isOk) (keyPlaced runtime keyInfo entry)
        (rules.base.validateCel runtime (activation.insertValue "this" key))
      match status with
      | .error failure => pure (.error failure)
      | .ok () => pure (.ok (left.removeValueEntry "this"))

/-- Where the value rules have added violations, the field value is set for every
violation of the entry. -/
def valueEnd (entry : Entry) (start : Nat) (status : Status) (left : Activation) (grew : Bool) :
    RuleCheck (Except StatusError Activation) :=
  match status with
  | .error failure => pure (.error failure)
  | .ok () =>
    if grew then do
      edit start fun violation =>
        violation.setFieldValue { message := .entry entry, descriptor := valueInfo }
      pure (.ok (left.removeValueEntry "this"))
    else pure (.ok (left.removeValueEntry "this"))

/-- The value rules. -/
def valuePart (valueRules : Option FieldRuleSet) (entry : Entry) (activation : Activation) (start : Nat) :
    RuleCheck (Except StatusError Activation) :=
  match valueRules with
  | none => pure (.ok activation)
  | some rules =>
    let value := runtime.mapValue valueInfo entry.value
    if rules.base.ignoreEmpty && isEmptyItem value then pure (.ok activation)
    else do
      let ((status, left), grew) ← grown (framedIf (fun result => result.1.isOk) (rulePath runtime .values)
        (rules.base.validateCel runtime (activation.insertValue "this" value)))
      valueEnd valueInfo entry start status left grew

/-- The rules of an entry, one after the other. -/
def entryRules (keyRules valueRules : Option FieldRuleSet) (entry : Entry) (key : CelValue)
    (activation : Activation) (start : Nat) : RuleCheck (Except StatusError Activation) := do
  match ← keyPart runtime keyInfo keyRules entry key activation with
  | .error failure => pure (.error failure)
  | .ok activation => valuePart runtime valueInfo valueRules entry activation start

/-- The path element, where the rules of an entry have added violations. -/
def entryEnd (entry : Entry) (activation : Activation) (start : Nat) (grew : Bool) :
    RuleCheck (Status ⊕ Activation) :=
  if grew then
    match setPathElementMapKey (fieldPathElement base.field.toFieldInfo) entry keyInfo valueInfo with
    | .error failure => pure (.inl (.error failure))
    | .ok element => do
      edit start fun violation => violation.appendFieldPathElement element
      if ← failsFast then pure (.inl (.ok ())) else pure (.inr activation)
  else pure (.inr activation)

/-- One round of the loop over the entries: the status to return with, or the
activation the next round starts with. -/
def entryRound (keyRules valueRules : Option FieldRuleSet) (entry : Entry) (key : CelValue)
    (activation : Activation) : RuleCheck (Status ⊕ Activation) := scope fun start => do
  let (result, grew) ← grown (entryRules runtime keyInfo valueInfo keyRules valueRules entry key activation start)
  match result with
  | .error failure => pure (.inl (.error failure))
  | .ok activation => entryEnd base keyInfo valueInfo entry activation start grew

def entryLoop (keyRules valueRules : Option FieldRuleSet) : List (Entry × CelValue) → Activation → RuleCheck Status
  | [], _ => pure (.ok ())
  | (entry, key) :: rest, activation => do
    match ← entryRound runtime base keyInfo valueInfo keyRules valueRules entry key activation with
    | .inl status => pure status
    | .inr activation => entryLoop keyRules valueRules rest activation

/-- `Validate` behind the call of `Base::Validate`. -/
def validateEntries (keyRules valueRules : Option FieldRuleSet) (message : Message) : RuleCheck Status :=
  if keyRules.isNone && valueRules.isNone then pure (.ok ())
  else
    match base.field.shape with
    | .map keyInfo valueInfo _ =>
      match runtime.listKeys keyInfo ((message.entries base.field).map Entry.key) with
      | .error failure => pure (.error failure)
      | .ok keys =>
        entryLoop runtime base keyInfo valueInfo keyRules valueRules ((message.entries base.field).zip keys)
          Activation.empty
    | _ => pure (.ok ())

def validate (keyRules valueRules : Option FieldRuleSet) (message : Message) : RuleCheck Status :=
  orFail (base.validate runtime message) (validateEntries runtime base keyRules valueRules message)

end MapValidationRules

namespace FieldRuleSet

/-- The virtual `Validate` of the field rules. -/
def validate (runtime : Runtime) (message : Message) : FieldRuleSet → RuleCheck Status
  | field base => base.validate runtime message
  | enum base enumRules => EnumValidationRules.validate runtime base enumRules message
  | repeated base itemRules => RepeatedValidationRules.validate runtime base message itemRules
  | map base keyRules valueRules => MapValidationRules.validate runtime base keyRules valueRules message

end FieldRuleSet
end FieldRules

section MessageRules

namespace OneofValidationRules

def validate (oneof : OneofDescriptor) (required : Bool) (message : Message) : RuleCheck Status := do
  emplaceBackIf (required && !message.hasOneof oneof)
    { proto := { ruleId := "required", message := "exactly one field is required in oneof",
                 field := some [oneofPathElement oneof] } }
  pure (.ok ())

end OneofValidationRules

namespace MessageOneofValidationRules

def fieldNames (fields : List FieldDescriptor) : String := ", ".intercalate (fields.map fun field => field.name)

/-- The number of fields that are set. -/
def hasCount (message : Message) : List FieldDescriptor → RuleCheck Nat
  | [] => pure 0
  | field :: fields => do
    note (.hasField field)
    let others ← hasCount message fields
    pure (if message.hasField field then others + 1 else others)

def validate (fields : List FieldDescriptor) (required : Bool) (message : Message) : RuleCheck Status := do
  let count ← hasCount message fields
  emplaceBackIf (decide (count > 1))
    { proto := { ruleId := "message.oneof", message := "only one of " ++ fieldNames fields ++ " can be set" } }
  emplaceBackIf (required && count == 0)
    { proto := { ruleId := "message.oneof", message := "one of " ++ fieldNames fields ++ " must be set" } }
  pure (.ok ())

end MessageOneofValidationRules

/-- The rules of a message, in the order they are run. -/
inductive ValidationRules where
  | message (rules : CelValidationRules)
  | messageOneof (fields : List FieldDescriptor) (required : Bool)
  | field (rules : FieldRuleSet)
  | oneof (descriptor : OneofDescriptor) (required : Bool)

namespace MessageValidationRules

def validate (runtime : Runtime) (rules : CelValidationRules) (message : Message) : RuleCheck Status := do
  let (status, _) ← rules.validateCel runtime (Activation.empty.insertValue "this" (runtime.createMessage message))
  pure status

end MessageValidationRules

namespace ValidationRules

/-- The virtual `Validate`. -/
def validate (runtime : Runtime) (message : Message) : ValidationRules → RuleCheck Status
  | .message rules => MessageValidationRules.validate runtime rules message
  | messageOneof fields required => MessageOneofValidationRules.validate fields required message
  | field rules => rules.validate runtime message
  | oneof descriptor required => OneofValidationRules.validate descriptor required message

end ValidationRules
end MessageRules

end Protovalidate.Validate
