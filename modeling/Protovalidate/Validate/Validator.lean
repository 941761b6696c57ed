import Protovalidate.Validate.Build

/-! `validator.cc`: the recursion over a message and its sub-messages. -/

namespace Protovalidate.Validate

open Foundation Check

/-- The rules a factory has loaded, by message type, and how it loads others. -/
structure ValidatorFactory where
  context : BuildContext
  loaded : String → Option Rules := fun _ => none
  disableLazyLoading : Bool := false

namespace ValidatorFactory

/-- `GetMessageRules`: what is loaded lazily is found from then on. -/
def getMessageRules (factory : ValidatorFactory) (descriptor : Descriptor) : Option Rules :=
  match factory.loaded descriptor.fullName with
  | some rules => some rules
  | none => if factory.disableLazyLoading then none else some (newMessageRules factory.context descriptor)

/-- The rules to run for a message. -/
def rulesOf (factory : ValidatorFactory) (descriptor : Descriptor) : Rules :=
  match factory.getMessageRules descriptor with
  | none => .error ⟨.notFound, "rules not loaded for message: " ++ descriptor.fullName⟩
  | some rules => rules

end ValidatorFactory

/-- Whether an `IGNORE_ALWAYS` setting keeps the validator from descending. -/
def ignoresAlways (field : FieldDescriptor) : Bool :=
  match field.options with
  | none => false
  | some fieldExt =>
    fieldExt.ignore == .always ||
      (match fieldExt.type with
      | .repeated _ (some items) => items.ignore == .always
      | .map _ _ (some values) => values.ignore == .always
      | _ => false)

namespace Validator

/-- The path element of a map entry is only built where it is needed. -/
def entryFramed (field : FieldDescriptor) (keyField valueField : FieldInfo) (entry : Entry)
    (part : RuleCheck Status) : RuleCheck Status := scope fun start => do
  let (status, grew) ← grown part
  if grew then
    match setPathElementMapKey (fieldPathElement field.toFieldInfo) entry keyField valueField with
    | .error failure => pure (.error failure)
    | .ok element => do
      edit start fun violation => violation.appendFieldPathElement element
      pure status
  else pure status

/-- The frame around a sub-message. -/
def elementFramed (element : FieldPathElement) (part : RuleCheck Status) : RuleCheck Status :=
  framed (fun violation => violation.appendFieldPathElement element) part

variable (factory : ValidatorFactory)

mutual

/-- `ValidateMessage` -/
def validateMessage : Message → RuleCheck Status
  | .mk descriptor fields =>
    match factory.rulesOf descriptor with
    | .error failure => pure (.error failure)
    | .ok rules =>
      eachThen (ValidationRules.validate factory.context.runtime (.mk descriptor fields)) rules (validateFields fields)

/-- `ValidateFields` -/
def validateFields : List Field → RuleCheck Status
  | [] => pure (.ok ())
  | .mk field value :: fields =>
    if !field.isCppMessage || ignoresAlways field then validateFields fields
    else validateField field value (validateFields fields)

/-- The sub-messages of a field, and then what comes behind the field. -/
def validateField (field : FieldDescriptor) : FieldValue → RuleCheck Status → RuleCheck Status
  | .singular (.message message), after =>
    orExit (elementFramed (fieldPathElement field.toFieldInfo) (validateMessage message)) after
  | .singular (.scalar _), after => after
  | .repeated values, after => validateItems field 0 values after
  | .map entries, after =>
    match field.shape with
    | .map keyField valueField _ =>
      if valueField.type.isCppMessage then validateEntries field keyField valueField entries after else after
    | _ => after

def validateItems (field : FieldDescriptor) (index : Nat) : List Value → RuleCheck Status → RuleCheck Status
  | [], after => after
  | .message message :: values, after =>
    orExit (elementFramed ((fieldPathElement field.toFieldInfo).setIndex index) (validateMessage message))
      (validateItems field (index + 1) values after)
  | .scalar _ :: values, after => validateItems field (index + 1) values after

def validateEntries (field : FieldDescriptor) (keyField valueField : FieldInfo) :
    List Entry → RuleCheck Status → RuleCheck Status
  | [], after => after
  | .mk key (.message message) :: entries, after =>
    orExit (entryFramed field keyField valueField (.mk key (.message message)) (validateMessage message))
      (validateEntries field keyField valueField entries after)
  | .mk _ (.scalar _) :: entries, after => validateEntries field keyField valueField entries after

end

/-- The run of `Validate`: the status and the context it ends in. -/
def run (failFast : Bool) (message : Message) : Status × RuleContext := validateMessage factory message failFast {}

/-- `Validate` -/
def validate (failFast : Bool) (message : Message) : Except StatusError (List RuleViolation) :=
  match run factory failFast message with
  | (.error failure, _) => .error failure
  | (.ok (), ctx) => .ok (ctx.entries.map RuleViolation.finalize)

end Validator
end Protovalidate.Validate
