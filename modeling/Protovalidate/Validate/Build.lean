import Protovalidate.Validate.Rules

/-! `internal/cel_rules.h`, `internal/field_rules.{h,cc}` and
`internal/message_rules.cc`: how rules are built from the options. -/

namespace Protovalidate.Validate

/-- What rules are built with. The message factory, if there is one, parses rule
messages with unknown fields again. -/
structure BuildContext where
  runtime : Runtime
  reparse : Option (RuleMessage → Option RuleMessage) := none
  allowUnknownFields : Bool := false

namespace CelValidationRules

/-- `Add`; an expression that does not compile is not added. -/
def add (runtime : Runtime) (self : CelValidationRules) (rule : Rule) (rulePath : Option FieldPath)
    (ruleField : Option RuleField) : Except StatusError CelValidationRules := do
  runtime.compile rule.expression
  pure { self with exprs := self.exprs ++ [{ rule := rule, rulePath := rulePath, ruleField := ruleField }] }

/-- `Add` for a bare expression, which is its own id. -/
def addExpression (runtime : Runtime) (self : CelValidationRules) (expression : String)
    (rulePath : Option FieldPath) (ruleField : Option RuleField) : Except StatusError CelValidationRules :=
  self.add runtime { id := expression, message := "", expression := expression } rulePath ruleField

end CelValidationRules

section CelRules

/-- The CEL rules of one set field of a rule message. -/
def addPredefined (context : BuildContext) (member : RuleFieldName) (result : CelValidationRules)
    (field : RuleField) : Except StatusError CelValidationRules :=
  match field.predefined with
  | none => pure result
  | some rules =>
    rules.foldlM (fun result rule => result.add context.runtime rule
      (some [fieldPathElement field.info, fieldPathElement (context.runtime.ruleField member)]) (some field)) result

/-- `BuildCelRules`; `member` is the field of `FieldRules` that holds the rules. -/
def buildCelRules (context : BuildContext) (member : RuleFieldName) (rules : RuleMessage)
    (result : CelValidationRules) : Except StatusError CelValidationRules :=
  let reparsed := match context.reparse with
    | some reparse => if rules.unknownFields > 0 then reparse rules else none
    | none => none
  let rules := reparsed.getD rules
  if !context.allowUnknownFields && rules.unknownFields > 0 then
    .error ⟨.failedPrecondition, "unknown rules in " ++ rules.typeName⟩
  else rules.fields.foldlM (addPredefined context member) { result with rules := some rules }

end CelRules

section FieldRules

namespace ScalarKind

/-- The type of the fields that the rules apply to. -/
def expectedType : ScalarKind → FieldType
  | bool => .bool | float => .float | double => .double | int32 => .int32 | int64 => .int64 | uint32 => .uint32
  | uint64 => .uint64 | sint32 => .sint32 | sint64 => .sint64 | fixed32 => .fixed32 | fixed64 => .fixed64
  | sfixed32 => .sfixed32 | sfixed64 => .sfixed64 | string => .string | bytes => .bytes

/-- The wrapper type that the rules apply to as well. -/
def wrapperName : ScalarKind → String
  | bool => "google.protobuf.BoolValue" | float => "google.protobuf.FloatValue"
  | double => "google.protobuf.DoubleValue" | int32 => "google.protobuf.Int32Value"
  | int64 => "google.protobuf.Int64Value" | uint32 => "google.protobuf.UInt32Value"
  | uint64 => "google.protobuf.UInt64Value" | string => "google.protobuf.StringValue"
  | bytes => "google.protobuf.BytesValue"
  | sint32 | sint64 | fixed32 | fixed64 | sfixed32 | sfixed64 => ""

end ScalarKind

namespace WellKnownKind

def fullName : WellKnownKind → String
  | duration => "google.protobuf.Duration" | fieldMask => "google.protobuf.FieldMask"
  | timestamp => "google.protobuf.Timestamp"

def mismatch : WellKnownKind → String
  | duration => "duration field validator on non-duration field"
  | fieldMask => "field_mask field validator on non-field_mask field"
  | timestamp => "timestamp field validator on non-timestamp field"

end WellKnownKind

def mismatchError (actual : FieldType) (expected : FieldType) : StatusError :=
  ⟨.failedPrecondition,
    "field type does not match rule type: " ++ actual.typeName ++ " != " ++ expected.typeName⟩

/-- `BuildScalarFieldRules` -/
def buildScalarFieldRules (context : BuildContext) (field : FieldDescriptor) (member : RuleFieldName)
    (rules : RuleMessage) (expectedType : FieldType) (wrapperName : String) (result : CelValidationRules) :
    Except StatusError CelValidationRules :=
  if field.type != expectedType && (field.type != .message || field.messageType != wrapperName) then
    .error (mismatchError field.type expectedType)
  else buildCelRules context member rules result

/-- `new FieldValidationRules` with the CEL rules that were built for it. -/
def withCelRules (rules : FieldValidationRules) (built : Except StatusError CelValidationRules) :
    Except StatusError FieldValidationRules := do
  let cel ← built
  pure { rules with toCelValidationRules := cel }

def isMessageOf (field : FieldDescriptor) (fullName : String) : Bool :=
  field.isCppMessage && field.messageType == fullName

/-- The custom rules behind the `switch` of `NewFieldRules`. -/
def addCustomRules (runtime : Runtime) (fieldLvl : FieldRules) (rules : CelValidationRules) :
    Except StatusError CelValidationRules := do
  let path (name : RuleFieldName) (index : Nat) : Option FieldPath :=
    some [(fieldPathElement (runtime.ruleField name)).setIndex index]
  let rules ← fieldLvl.celExpression.zipIdx.foldlM
    (fun rules (expression, index) => rules.addExpression runtime expression (path .celExpression index) none) rules
  fieldLvl.cel.zipIdx.foldlM (fun rules (rule, index) => rules.add runtime rule (path .cel index) none) rules

namespace FieldRuleSet

/-- The base class of a rule set replaced. -/
def setBase (base : FieldValidationRules) : FieldRuleSet → FieldRuleSet
  | field _ => field base
  | enum _ enumRules => enum base enumRules
  | repeated _ itemRules => repeated base itemRules
  | map _ keyRules valueRules => map base keyRules valueRules

/-- The custom rules, which every kind of rules gets last. -/
def withCustomRules (runtime : Runtime) (fieldLvl : FieldRules) (rules : FieldRuleSet) :
    Except StatusError (Option FieldRuleSet) := do
  let cel ← addCustomRules runtime fieldLvl rules.base.toCelValidationRules
  pure (some (rules.setBase { rules.base with toCelValidationRules := cel }))

end FieldRuleSet

mutual

/-- `NewFieldRules`; no rules for `IGNORE_ALWAYS`. -/
def newFieldRules (context : BuildContext) (field : FieldDescriptor) : FieldRules → Except StatusError (Option FieldRuleSet)
  | .mk ignore required cel celExpression type =>
    let fieldLvl : FieldRules := .mk ignore required cel celExpression type
    if fieldLvl.ignore == .always then .ok none
    else do
      let rules ← newTypeRules context field fieldLvl type
      rules.withCustomRules context.runtime fieldLvl

/-- The `switch` over the kind of the rules. -/
def newTypeRules (context : BuildContext) (field : FieldDescriptor) (fieldLvl : FieldRules) :
    RuleType → Except StatusError FieldRuleSet
  | .notSet => .ok (.field (.new field fieldLvl))
  | .scalar kind rules => do
    let base ← withCelRules (.new field fieldLvl)
      (buildScalarFieldRules context field (.scalar kind) rules kind.expectedType kind.wrapperName {})
    pure (.field base)
  | .enum rules => do
    let base ← withCelRules (.new field fieldLvl)
      (buildScalarFieldRules context field .enum rules.message .enum "" {})
    pure (.enum base rules)
  | .wellKnown kind rules =>
    if isMessageOf field kind.fullName then do
      let base ← withCelRules (.new field fieldLvl) (buildCelRules context (.wellKnown kind) rules {})
      pure (.field base)
    else .error ⟨.invalidArgument, kind.mismatch⟩
  | .any rules =>
    if isMessageOf field "google.protobuf.Any" then do
      let base ← withCelRules (.new field fieldLvl (some rules)) (buildCelRules context .any rules.message {})
      pure (.field base)
    else .error ⟨.invalidArgument, "any field validator on non-any field"⟩
  | .repeated rules items =>
    match field.shape with
    | .singular => .error ⟨.invalidArgument, "repeated field validator on non-repeated field"⟩
    | .map _ _ _ => .error ⟨.invalidArgument, "repeated field validator on map field"⟩
    | .repeated => do
      let itemRules ← match items with
        | some items => newFieldRules context field items
        | none => .ok none
      let base ← withCelRules (.new field fieldLvl) (buildCelRules context .repeated rules {})
      pure (.repeated base itemRules)
  | .map rules keys values =>
    match field.shape with
    | .map keyInfo valueInfo _ => do
      let keyRules ← match keys with
        | some keys => newFieldRules context (.ofEntry keyInfo) keys
        | none => .ok (some (.field (.new (.ofEntry keyInfo) .default)))
      let valueRules ← match values with
        | some values => newFieldRules context (.ofEntry valueInfo) values
        | none => .ok (some (.field (.new (.ofEntry valueInfo) .default)))
      let base ← withCelRules (.new field fieldLvl) (buildCelRules context .map rules {})
      pure (.map base keyRules valueRules)
    | _ => .error ⟨.invalidArgument, "map field validator on non-map field"⟩
  | .unknown typeCase => .error ⟨.invalidArgument, "unknown field validator type " ++ toString typeCase⟩

end

end FieldRules

section MessageRules

abbrev Rules := Except StatusError (List ValidationRules)

/-- `BuildMessageRules` -/
def buildMessageRules (runtime : Runtime) (rules : MessageRules) : Except StatusError CelValidationRules := do
  let result ← rules.celExpression.foldlM (fun result expression => result.addExpression runtime expression none none)
    ({} : CelValidationRules)
  rules.cel.foldlM (fun result rule => result.add runtime rule none none) result

/-- The fields of a `MessageRules.oneof` entry, none of them named twice. -/
def oneofFields (descriptor : Descriptor) : List String → List String → Except StatusError (List FieldDescriptor)
  | _, [] => .ok []
  | seen, name :: names => do
    if seen.contains name then
      .error ⟨.failedPrecondition,
        "duplicate \"" ++ name ++ "\"  in oneof rule for the message " ++ descriptor.fullName⟩
    else
      match descriptor.findFieldByName name with
      | none => .error ⟨.failedPrecondition,
          "field \"" ++ name ++ "\" not found in message " ++ descriptor.fullName⟩
      | some field => do
        let fields ← oneofFields descriptor (name :: seen) names
        pure (field :: fields)

def newMessageOneof (descriptor : Descriptor) (oneof : MessageOneofRule) : Except StatusError ValidationRules := do
  if oneof.fields.isEmpty then
    .error ⟨.failedPrecondition,
      "at least one field must be specified in oneof rule for the message " ++ descriptor.fullName⟩
  else
    let fields ← oneofFields descriptor [] oneof.fields
    pure (.messageOneof fields oneof.required)

/-- The rules of a field; members of a message-level oneof ignore zero values
unless they say otherwise. -/
def newMemberRules (context : BuildContext) (oneofNames : List String) (field : FieldDescriptor) :
    Except StatusError (Option ValidationRules) :=
  match field.options with
  | none => .ok none
  | some fieldLvl => do
    let fieldLvl :=
      if !fieldLvl.hasIgnore && oneofNames.contains field.name then fieldLvl.setIgnore .ifZeroValue else fieldLvl
    let rules ← newFieldRules context field fieldLvl
    pure (rules.map ValidationRules.field)

/-- `NewMessageRules` -/
def newMessageRules (context : BuildContext) (descriptor : Descriptor) : Rules := do
  let (messageRules, oneofNames) ← match descriptor.options with
    | none => pure ([], [])
    | some msgLvl => do
      let rules ← buildMessageRules context.runtime msgLvl
      let oneofs ← msgLvl.oneof.mapM (newMessageOneof descriptor)
      pure (ValidationRules.message rules :: oneofs, msgLvl.oneof.flatMap MessageOneofRule.fields)
  let fieldRules ← descriptor.fields.mapM (newMemberRules context oneofNames)
  let oneofRules := descriptor.oneofs.filterMap fun oneof => oneof.options.map (ValidationRules.oneof oneof)
  pure (messageRules ++ fieldRules.filterMap id ++ oneofRules)

end MessageRules

end Protovalidate.Validate
