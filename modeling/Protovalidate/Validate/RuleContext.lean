import Protovalidate.Foundation.Journal
import Protovalidate.Validate.Descriptor

/-! `internal/validation_rules.h`: violations and the context that collects
them, and what the validator uses of the CEL runtime and of reflection. -/

namespace Protovalidate.Validate

open Foundation

section Statuses

inductive StatusCode where
  | notFound | internal | invalidArgument | failedPrecondition | unknown
deriving DecidableEq, Repr

structure StatusError where
  code : StatusCode
  message : String
deriving DecidableEq, Repr

/-- An `absl::Status`. -/
abbrev Status := Except StatusError Unit

end Statuses

section Paths

inductive Subscript where
  | index (value : Nat)
  | boolKey (value : Bool)
  | intKey (value : Int)
  | uintKey (value : Nat)
  | stringKey (value : String)
deriving DecidableEq, Repr

structure FieldPathElement where
  fieldNumber : Option Nat := none
  fieldName : String
  fieldType : Option FieldType := none
  keyType : Option FieldType := none
  valueType : Option FieldType := none
  subscript : Option Subscript := none
deriving DecidableEq, Repr

abbrev FieldPath := List FieldPathElement

def fieldPathElement (field : FieldInfo) : FieldPathElement where
  fieldNumber := some field.number
  fieldName := if field.isExtension then "[" ++ field.fullName ++ "]" else field.name
  fieldType := some field.type

def oneofPathElement (oneof : OneofDescriptor) : FieldPathElement where
  fieldName := oneof.name

namespace FieldPathElement

def setIndex (element : FieldPathElement) (index : Nat) : FieldPathElement :=
  { element with subscript := some (.index index) }

end FieldPathElement

/-- The key of an entry, read with the accessor of the key's type. -/
def keySubscript (type : FieldType) (key : Scalar) : Option Subscript :=
  match type with
  | .bool => some (.boolKey (match key with | .bool value => value | _ => false))
  | .int32 | .sfixed32 | .sint32 | .int64 | .sfixed64 | .sint64 =>
    some (.intKey (match key with | .int value => value | _ => 0))
  | .uint32 | .fixed32 | .uint64 | .fixed64 => some (.uintKey (match key with | .uint value => value | _ => 0))
  | .string => some (.stringKey (match key with | .string value => value | _ => ""))
  | _ => none

def setPathElementMapKey (element : FieldPathElement) (entry : Entry) (keyField valueField : FieldInfo) :
    Except StatusError FieldPathElement :=
  match keySubscript keyField.type entry.key with
  | some subscript =>
    .ok { element with
      keyType := some keyField.type
      valueType := some valueField.type
      subscript := some subscript }
  | none => .error ⟨.internal, "unexpected map key type " ++ keyField.type.typeName⟩

end Paths

section Violations

/-- The messages a `ProtoField` may point into. -/
inductive ProtoMessage where
  | message (value : Message)
  | entry (value : Entry)
  | fieldRules (value : FieldRules)
  | rules (value : RuleMessage)

/-- A field of a message, or, with an index, an item of it. -/
structure ProtoField where
  message : ProtoMessage
  descriptor : FieldInfo
  index : Option Nat := none

structure Violation where
  field : Option FieldPath := none
  rule : Option FieldPath := none
  ruleId : String
  message : String
  forKey : Bool := false
deriving DecidableEq, Repr

structure RuleViolation where
  proto : Violation
  fieldValue : Option ProtoField := none
  ruleValue : Option ProtoField := none

namespace RuleViolation

variable (violation : RuleViolation)

/-- Paths grow from the inside out. An unset path is created. -/
def appendFieldPathElement (element : FieldPathElement) : RuleViolation :=
  { violation with proto := { violation.proto with field := some (violation.proto.field.getD [] ++ [element]) } }

def appendRulePathElement (suffix : List FieldPathElement) : RuleViolation :=
  { violation with proto := { violation.proto with rule := some (violation.proto.rule.getD [] ++ suffix) } }

def setFieldValue (field : ProtoField) : RuleViolation := { violation with fieldValue := some field }

def setRuleValue (rule : ProtoField) : RuleViolation := { violation with ruleValue := some rule }

def setForKey : RuleViolation := { violation with proto := { violation.proto with forKey := true } }

/-- `finalize` puts the paths the right way round. -/
def finalize : RuleViolation :=
  { violation with proto := { violation.proto with
      field := violation.proto.field.map List.reverse
      rule := violation.proto.rule.map List.reverse } }

end RuleViolation
end Violations

section Cel

/-- A value of the CEL runtime; containers are what they hold. -/
inductive CelValue where
  | null
  | bool (value : Bool)
  | int (value : Int)
  | uint (value : Nat)
  | double (bits : BitVec 64)
  | string (value : String)
  | bytes (value : List UInt8)
  | duration (nanos : Int)
  | timestamp (nanos : Int)
  | message (value : Message)
  | rules (value : RuleMessage)
  | list (items : List CelValue)
  | map (entries : List (CelValue × CelValue))
  | type (name : String)
  | error (message : String)

/-- The bindings of an expression. -/
abbrev Activation := String → Option CelValue

namespace Activation

def empty : Activation := fun _ => none

/-- A name that is bound stays bound to its value. -/
def insertValue (activation : Activation) (name : String) (value : CelValue) : Activation := fun other =>
  if other = name then some ((activation name).getD value) else activation other

def removeValueEntry (activation : Activation) (name : String) : Activation := fun other =>
  if other = name then none else activation other

end Activation

/-- The fields of `FieldRules` and of the rule messages that paths are built from. -/
inductive RuleFieldName where
  | required | cel | celExpression | enum | any | repeated | map
  | scalar (kind : ScalarKind)
  | wellKnown (kind : WellKnownKind)
  | items | keys | values | definedOnly | anyIn | anyNotIn
deriving DecidableEq, Repr

/-- What is used of the CEL runtime, of reflection and of the generated code.
An expression is known by its text, and the clock stands still. -/
structure Runtime where
  /-- `Parse` and `CreateExpression` -/
  compile : String → Status
  evaluate : String → Activation → Except StatusError CelValue
  now : CelValue
  /-- `CelProtoWrapper::CreateMessage` -/
  createMessage : Message → CelValue
  /-- `CreateValueFromSingleField`; an unset field reads as its default. -/
  createValueFromSingleField : FieldInfo → Option Value → Except StatusError CelValue
  createList : FieldDescriptor → List Value → CelValue
  createMap : FieldDescriptor → List Entry → CelValue
  /-- `FieldBackedListImpl::operator[]` -/
  listItem : FieldInfo → Value → CelValue
  listKeys : FieldInfo → List Scalar → Except StatusError (List CelValue)
  /-- `FieldBackedMapImpl::operator[]` at the key of an entry. -/
  mapValue : FieldInfo → Value → CelValue
  ruleSingleField : RuleField → Except StatusError CelValue
  ruleList : RuleField → CelValue
  ruleMap : RuleField → CelValue
  /-- The default instance of a message type. -/
  prototype : String → Message
  ruleField : RuleFieldName → FieldInfo

/-- What a run does, in its order: the expressions it evaluates, the violations it
records and its calls of accessors that are only defined for singular fields. -/
inductive Event where
  | evaluated (expression : String) (activation : Activation) (result : Except StatusError CelValue)
  | recorded
  | hasField (field : FieldDescriptor)
  | getEnumValue (field : FieldDescriptor)

end Cel

/-- `RuleContext`: the entries of the journal are the violations. -/
abbrev RuleContext := Journal RuleViolation Event

abbrev RuleCheck (β : Type) := Check RuleViolation Event β

open Check

/-- `violations.emplace_back` -/
def emplaceBack (violation : RuleViolation) : RuleCheck Unit := do
  add violation
  note .recorded

def emplaceBackIf (condition : Bool) (violation : RuleViolation) : RuleCheck Unit :=
  if condition then emplaceBack violation else pure ()

theorem steady_emplaceBack (violation : RuleViolation) : Steady (emplaceBack violation) :=
  SteadyAt.bind (steady_add violation) fun _ => steady_note _

theorem steady_emplaceBackIf (condition : Bool) (violation : RuleViolation) :
    Steady (emplaceBackIf condition violation) := by
  cases condition with
  | true => exact steady_emplaceBack violation
  | false => exact steady_pure ()

end Protovalidate.Validate
