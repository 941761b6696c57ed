/-! The data the validator reads: field and message descriptors with their rule
options, rule messages, and messages as reflection shows them. -/

namespace Protovalidate.Validate

/-- `FieldDescriptor::Type` -/
inductive FieldType where
  | double | float | int64 | uint64 | int32 | fixed64 | fixed32 | bool | string | group | message | bytes
  | uint32 | enum | sfixed32 | sfixed64 | sint32 | sint64
deriving DecidableEq, Repr

namespace FieldType

/-- `FieldDescriptor::TypeName` -/
def typeName : FieldType → String
  | double => "double" | float => "float" | int64 => "int64" | uint64 => "uint64" | int32 => "int32"
  | fixed64 => "fixed64" | fixed32 => "fixed32" | bool => "bool" | string => "string" | group => "group"
  | message => "message" | bytes => "bytes" | uint32 => "uint32" | enum => "enum" | sfixed32 => "sfixed32"
  | sfixed64 => "sfixed64" | sint32 => "sint32" | sint64 => "sint64"

/-- `cpp_type() == CPPTYPE_MESSAGE` -/
def isCppMessage (type : FieldType) : Bool := type == message || type == group

/-- The types of map keys. -/
def isMapKey : FieldType → Bool
  | int64 | uint64 | int32 | fixed64 | fixed32 | bool | string | uint32 | sfixed32 | sfixed64 | sint32 | sint64 => true
  | _ => false

end FieldType

/-- The part of a field descriptor that does not depend on its label. -/
structure FieldInfo where
  number : Nat
  name : String
  fullName : String
  type : FieldType
  isExtension : Bool := false
  hasPresence : Bool := false
  /-- `message_type()->full_name()` -/
  messageType : String := ""
  /-- The numbers of `enum_type()`. -/
  enumNumbers : List Int := []
  defaultEnum : Int := 0
deriving DecidableEq, Repr

/-- Singular, repeated or a map; a map's key has one of the types of map keys. -/
inductive Shape where
  | singular
  | repeated
  | map (key value : FieldInfo) (valid : key.type.isMapKey = true)

/-- A value without fields of its own; enums are their numbers, doubles their bits. -/
inductive Scalar where
  | bool (value : Bool)
  | int (value : Int)
  | uint (value : Nat)
  | double (bits : BitVec 64)
  | string (value : String)
  | bytes (value : List UInt8)
  | enum (number : Int)
deriving DecidableEq, Repr

/-- The contents of a field of a rule message. -/
inductive RuleValue where
  | scalar (value : Scalar)
  | list (values : List RuleValue)
  | message (fields : List (Nat × RuleValue))

/-- `buf.validate.Rule` -/
structure Rule where
  id : String := ""
  message : String := ""
  expression : String := ""
deriving DecidableEq, Repr

/-- A set field of a rule message, with the CEL rules of its `predefined` option. -/
structure RuleField where
  info : FieldInfo
  isMap : Bool := false
  isRepeated : Bool := false
  value : RuleValue
  predefined : Option (List Rule) := none

/-- A message such as `Int32Rules`: its set fields in `ListFields` order. -/
structure RuleMessage where
  typeName : String
  fields : List RuleField := []
  unknownFields : Nat := 0

structure EnumRules where
  message : RuleMessage
  definedOnly : Bool := false

structure AnyRules where
  message : RuleMessage
  in_ : List String := []
  notIn : List String := []

inductive Ignore where
  | unspecified | ifZeroValue | always
deriving DecidableEq, Repr

/-- The members of the `type` oneof of `FieldRules` that apply to scalars. -/
inductive ScalarKind where
  | bool | float | double | int32 | int64 | uint32 | uint64 | sint32 | sint64 | fixed32 | fixed64 | sfixed32
  | sfixed64 | string | bytes
deriving DecidableEq, Repr

/-- The members that apply to one well-known message type. -/
inductive WellKnownKind where
  | duration | fieldMask | timestamp
deriving DecidableEq, Repr

mutual

/-- `buf.validate.FieldRules` -/
inductive FieldRules where
  | mk (ignore : Option Ignore) (required : Bool) (cel : List Rule) (celExpression : List String) (type : RuleType)

/-- The `type` oneof of `FieldRules`. -/
inductive RuleType where
  | notSet
  | scalar (kind : ScalarKind) (rules : RuleMessage)
  | enum (rules : EnumRules)
  | wellKnown (kind : WellKnownKind) (rules : RuleMessage)
  | any (rules : AnyRules)
  | repeated (rules : RuleMessage) (items : Option FieldRules)
  | map (rules : RuleMessage) (keys values : Option FieldRules)
  | unknown (typeCase : Nat)

end

namespace FieldRules

/-- The default instance, which unset sub-messages read as. -/
def default : FieldRules := ⟨none, false, [], [], .notSet⟩

def ignore : FieldRules → Ignore
  | ⟨ignore, _, _, _, _⟩ => ignore.getD .unspecified

def hasIgnore : FieldRules → Bool
  | ⟨ignore, _, _, _, _⟩ => ignore.isSome

def required : FieldRules → Bool
  | ⟨_, required, _, _, _⟩ => required

def cel : FieldRules → List Rule
  | ⟨_, _, cel, _, _⟩ => cel

def celExpression : FieldRules → List String
  | ⟨_, _, _, celExpression, _⟩ => celExpression

def type : FieldRules → RuleType
  | ⟨_, _, _, _, type⟩ => type

def setIgnore (ignore : Ignore) : FieldRules → FieldRules
  | ⟨_, required, cel, celExpression, type⟩ => ⟨some ignore, required, cel, celExpression, type⟩

end FieldRules

/-- A field descriptor. `mapEntry` is the `map_entry` option of the containing
type, `options` the `buf.validate.field` extension. -/
structure FieldDescriptor extends FieldInfo where
  shape : Shape := .singular
  mapEntry : Bool := false
  options : Option FieldRules := none

namespace FieldDescriptor

def isMap (field : FieldDescriptor) : Bool :=
  match field.shape with
  | .map _ _ _ => true
  | _ => false

/-- Maps are repeated fields too. -/
def isRepeated (field : FieldDescriptor) : Bool :=
  match field.shape with
  | .singular => false
  | _ => true

def isCppMessage (field : FieldDescriptor) : Bool := field.type.isCppMessage

/-- The key or value field of a map entry. -/
def ofEntry (info : FieldInfo) : FieldDescriptor := { info with mapEntry := true }

end FieldDescriptor

structure MessageOneofRule where
  fields : List String
  required : Bool := false
deriving DecidableEq, Repr

/-- `buf.validate.MessageRules` -/
structure MessageRules where
  celExpression : List String := []
  cel : List Rule := []
  oneof : List MessageOneofRule := []
deriving DecidableEq, Repr

/-- `required` is the `buf.validate.oneof` option, if there is one. -/
structure OneofDescriptor where
  name : String
  fields : List FieldDescriptor
  options : Option Bool := none

structure Descriptor where
  fullName : String
  fields : List FieldDescriptor := []
  oneofs : List OneofDescriptor := []
  options : Option MessageRules := none

namespace Descriptor

def findFieldByName (descriptor : Descriptor) (name : String) : Option FieldDescriptor :=
  descriptor.fields.find? fun field => field.name == name

end Descriptor

mutual

/-- A message: its type and its set fields in `ListFields` order. -/
inductive Message where
  | mk (descriptor : Descriptor) (fields : List Field)

inductive Field where
  | mk (descriptor : FieldDescriptor) (value : FieldValue)

inductive FieldValue where
  | singular (value : Value)
  | repeated (values : List Value)
  | map (entries : List Entry)

inductive Entry where
  | mk (key : Scalar) (value : Value)

inductive Value where
  | scalar (value : Scalar)
  | message (value : Message)

end

namespace Entry

def key : Entry → Scalar
  | ⟨key, _⟩ => key

def value : Entry → Value
  | ⟨_, value⟩ => value

end Entry

namespace Message

def descriptor : Message → Descriptor
  | ⟨descriptor, _⟩ => descriptor

def fields : Message → List Field
  | ⟨_, fields⟩ => fields

/-- The value of a set field; fields of one message are told apart by number. -/
def find (message : Message) (field : FieldDescriptor) : Option FieldValue :=
  message.fields.findSome? fun ⟨descriptor, value⟩ => if descriptor.number == field.number then some value else none

def hasField (message : Message) (field : FieldDescriptor) : Bool := (message.find field).isSome

def hasOneof (message : Message) (oneof : OneofDescriptor) : Bool :=
  oneof.fields.any fun field => message.hasField field

/-- The value of a set singular field. -/
def single (message : Message) (field : FieldDescriptor) : Option Value :=
  match message.find field with
  | some (.singular value) => some value
  | _ => none

/-- The elements of a repeated field. -/
def elements (message : Message) (field : FieldDescriptor) : List Value :=
  match message.find field with
  | some (.repeated values) => values
  | _ => []

/-- The entries of a map field. -/
def entries (message : Message) (field : FieldDescriptor) : List Entry :=
  match message.find field with
  | some (.map entries) => entries
  | _ => []

/-- An unset enum field reads as its default. -/
def getEnumValue (message : Message) (field : FieldDescriptor) : Int :=
  match message.single field with
  | some (.scalar (.enum number)) => number
  | _ => field.defaultEnum

end Message

end Protovalidate.Validate
