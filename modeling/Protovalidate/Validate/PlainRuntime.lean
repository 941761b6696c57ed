import Protovalidate.Validate.RuleContext

/-! A runtime whose conversions keep every value as it is, over any evaluation. -/

namespace Protovalidate.Validate

namespace PlainRuntime

def ofScalar : Scalar → CelValue
  | .bool value => .bool value
  | .int value => .int value
  | .uint value => .uint value
  | .double bits => .double bits
  | .string value => .string value
  | .bytes value => .bytes value
  | .enum number => .int number

def ofValue : Value → CelValue
  | .scalar value => ofScalar value
  | .message value => .message value

def ofEntry (entry : Entry) : CelValue × CelValue := (ofScalar entry.key, ofValue entry.value)

/-- The default of an unset field. -/
def defaultOf (prototype : String → Message) (field : FieldInfo) : CelValue :=
  match field.type with
  | .bool => .bool false
  | .string => .string ""
  | .bytes => .bytes []
  | .float | .double => .double 0
  | .uint32 | .uint64 | .fixed32 | .fixed64 => .uint 0
  | .enum => .int field.defaultEnum
  | .message | .group => .message (prototype field.messageType)
  | _ => .int 0

def ofRuleValue : RuleValue → CelValue
  | .scalar value => ofScalar value
  | .list _ => .list []
  | .message _ => .map []

def ruleFieldInfo (name : String) (number : Nat) (type : FieldType) : FieldInfo where
  number := number
  name := name
  fullName := "buf.validate." ++ name
  type := type

def ruleField : RuleFieldName → FieldInfo
  | .required => ruleFieldInfo "required" 25 .bool
  | .cel => ruleFieldInfo "cel" 23 .message
  | .celExpression => ruleFieldInfo "cel_expression" 29 .string
  | .enum => ruleFieldInfo "enum" 16 .message
  | .any => ruleFieldInfo "any" 20 .message
  | .repeated => ruleFieldInfo "repeated" 18 .message
  | .map => ruleFieldInfo "map" 19 .message
  | .scalar _ => ruleFieldInfo "scalar" 14 .message
  | .wellKnown _ => ruleFieldInfo "well_known" 21 .message
  | .items => ruleFieldInfo "items" 4 .message
  | .keys => ruleFieldInfo "keys" 4 .message
  | .values => ruleFieldInfo "values" 5 .message
  | .definedOnly => ruleFieldInfo "defined_only" 2 .bool
  | .anyIn => ruleFieldInfo "in" 2 .string
  | .anyNotIn => ruleFieldInfo "not_in" 3 .string

end PlainRuntime

open PlainRuntime in
/-- Expressions all compile, and the default instance of every message is empty. -/
def plainRuntime (evaluate : String → Activation → Except StatusError CelValue) : Runtime where
  compile _ := .ok ()
  evaluate := evaluate
  now := .timestamp 0
  createMessage := .message
  createValueFromSingleField field value :=
    .ok (match value with
      | some value => ofValue value
      | none => defaultOf (fun name => ⟨{ fullName := name }, []⟩) field)
  createList _ values := .list (values.map ofValue)
  createMap _ entries := .map (entries.map ofEntry)
  listItem _ := ofValue
  listKeys _ keys := .ok (keys.map ofScalar)
  mapValue _ := ofValue
  ruleSingleField field := .ok (ofRuleValue field.value)
  ruleList field := ofRuleValue field.value
  ruleMap field := ofRuleValue field.value
  prototype name := ⟨{ fullName := name }, []⟩
  ruleField := ruleField

end Protovalidate.Validate
