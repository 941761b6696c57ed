import Protovalidate.Foundation.AskingChecks
import Protovalidate.Validate.Children

/-! The validator as a program that asks for the rules of message types, one lookup after
the other. Whatever factory answers, it is the validator of that factory. -/

namespace Protovalidate.Validate

open Foundation AskingCheck

/-- A check that knows the factory by the answers of `GetMessageRules` alone. -/
abbrev LookupCheck (β : Type) := AskingCheck Descriptor Rules RuleViolation Event β

namespace Lookups

variable (runtime : Runtime)

/-- What `ValidateMessage` does with the answer of `GetMessageRules`. -/
def runRules (message : Message) (after : LookupCheck Status) : Option Rules → LookupCheck Status
  | none => pure (.error ⟨.notFound, "rules not loaded for message: " ++ message.descriptor.fullName⟩)
  | some (.error failure) => pure (.error failure)
  | some (.ok rules) => eachThen (fun rule => ofCheck (ValidationRules.validate runtime message rule)) rules after

mutual

/-- `ValidateMessage` -/
def validateMessage : Message → LookupCheck Status
  | .mk descriptor fields => do
    let rules ← asks descriptor
    runRules runtime (.mk descriptor fields) (validateFields fields) rules

/-- `ValidateFields` -/
def validateFields : List Field → LookupCheck Status
  | [] => pure (.ok ())
  | .mk field value :: fields =>
    if !field.isCppMessage || ignoresAlways field then validateFields fields
    else validateField field value (validateFields fields)

def validateField (field : FieldDescriptor) : FieldValue → LookupCheck Status → LookupCheck Status
  | .singular (.message message), after =>
    orExit (around (Validator.elementFramed (fieldPathElement field.toFieldInfo)) (validateMessage message)) after
  | .singular (.scalar _), after => after
  | .repeated values, after => validateItems field 0 values after
  | .map entries, after =>
    match field.shape with
    | .map keyField valueField _ =>
      if valueField.type.isCppMessage then validateEntries field keyField valueField entries after else after
    | _ => after

def validateItems (field : FieldDescriptor) (index : Nat) : List Value → LookupCheck Status → LookupCheck Status
  | [], after => after
  | .message message :: values, after =>
    orExit (around (Validator.elementFramed ((fieldPathElement field.toFieldInfo).setIndex index)) (validateMessage message))
      (validateItems field (index + 1) values after)
  | .scalar _ :: values, after => validateItems field (index + 1) values after

def validateEntries (field : FieldDescriptor) (keyField valueField : FieldInfo) :
    List Entry → LookupCheck Status → LookupCheck Status
  | [], after => after
  | .mk key (.message message) :: entries, after =>
    orExit (around (Validator.entryFramed field keyField valueField (.mk key (.message message))) (validateMessage message))
      (validateEntries field keyField valueField entries after)
  | .mk _ (.scalar _) :: entries, after => validateEntries field keyField valueField entries after

end

/-- What `Validate` returns for how a run ends. -/
def returns : Status × RuleContext → Except StatusError (List RuleViolation)
  | (.error failure, _) => .error failure
  | (.ok (), ctx) => .ok (ctx.entries.map RuleViolation.finalize)

/-- `Validate` -/
def validate (failFast : Bool) (message : Message) : Asking Descriptor Rules (Except StatusError (List RuleViolation)) :=
  (validateMessage runtime message failFast {}).bind fun result => .done (returns result)

end Lookups

section Recursion

namespace Lookups

variable {runtime : Runtime}

/-- One child in the frame of its place. -/
def validateChild (runtime : Runtime) (child : FieldPathElement × Message) : LookupCheck Status :=
  around (Validator.elementFramed child.1) (validateMessage runtime child.2)

theorem validateItems_eq (field : FieldDescriptor) (index : Nat) (values : List Value) (after : LookupCheck Status) :
    validateItems runtime field index values after = eachThen (validateChild runtime) (itemChildren field index values) after := by
  induction values generalizing index with
  | nil => rfl
  | cons value values ih =>
    cases value with
    | message message => simp only [validateItems, itemChildren, eachThen, validateChild, ih]
    | scalar _ => simp only [validateItems, itemChildren, ih]

theorem validateEntries_eq (field : FieldDescriptor) {keyField valueField : FieldInfo}
    (valid : keyField.type.isMapKey = true) (entries : List Entry) (after : LookupCheck Status) :
    validateEntries runtime field keyField valueField entries after =
      eachThen (validateChild runtime) (entryChildren field keyField valueField entries) after := by
  induction entries with
  | nil => rfl
  | cons entry entries ih =>
    obtain ⟨key, value⟩ := entry
    cases value with
    | message message =>
      have frames : Validator.entryFramed field keyField valueField (.mk key (.message message)) =
          Validator.elementFramed (entryPathElement field.toFieldInfo keyField valueField key) :=
        funext fun part => entryFramed_eq valid part
      simp only [validateEntries, entryChildren, eachThen, validateChild, ih, frames]
    | scalar _ => simp only [validateEntries, entryChildren, ih]

theorem validateField_eq (field : FieldDescriptor) (value : FieldValue) (after : LookupCheck Status) :
    validateField runtime field value after = eachThen (validateChild runtime) (valueChildren field value) after := by
  cases value with
  | singular value => cases value <;> simp only [validateField, valueChildren, eachThen, validateChild]
  | repeated values => simp only [validateField, valueChildren, validateItems_eq]
  | map entries =>
    simp only [validateField, valueChildren]
    cases field.shape with
    | singular => rfl
    | repeated => rfl
    | map keyField valueField valid =>
      by_cases isMessage : valueField.type.isCppMessage = true
      · simp only [isMessage, ↓reduceIte]
        exact validateEntries_eq field valid entries after
      · simp only [isMessage]
        rfl

theorem validateFields_eq (fields : List Field) : validateFields runtime fields =
    eachThen (validateChild runtime) (fields.flatMap fieldChildren) (pure (.ok ())) := by
  induction fields with
  | nil => rfl
  | cons head fields ih =>
    obtain ⟨field, value⟩ := head
    rw [List.flatMap_cons, eachThen_append, ← ih]
    simp only [validateFields, fieldChildren]
    split
    · rfl
    · exact validateField_eq field value _

/-- A message asks for its own rules, and after these its children ask for theirs. -/
theorem validateMessage_eq (message : Message) : validateMessage runtime message =
    asks message.descriptor >>= runRules runtime message (eachThen (validateChild runtime) (children message) (pure (.ok ()))) := by
  obtain ⟨descriptor, fields⟩ := message
  rw [validateMessage, validateFields_eq]
  rfl

end Lookups

end Recursion

section Answers

variable {factory : ValidatorFactory}

theorem answered_elementFramed (oracle : Descriptor → Option Rules) (element : FieldPathElement) (part : LookupCheck Status) :
    (around (Validator.elementFramed element) part).answered oracle =
      Validator.elementFramed element (part.answered oracle) := by
  apply answered_around
  intro part failFast journal
  rw [Validator.elementFramed, Check.framed, Validator.elementFramed, Check.framed, Check.framedIf_apply, Check.framedIf_apply]

/-- With the answers of a factory, the program is the validator of the factory. -/
theorem answered_validateMessage (message : Message) :
    (Lookups.validateMessage factory.context.runtime message).answered factory.getMessageRules =
      Validator.validateMessage factory message := by
  induction message using children_induction with
  | step message ih =>
    have below : (eachThen (Lookups.validateChild factory.context.runtime) (children message) (pure (.ok ()))).answered
        factory.getMessageRules = Check.eachThen (Validator.validateChild factory) (children message) (pure (.ok ())) := by
      refine answered_eachThen (fun child member => ?_) rfl
      rw [Lookups.validateChild, answered_elementFramed, ih child member, Validator.validateChild]
    rw [Lookups.validateMessage_eq, answered_bind, answered_asks, pure_bind, Validator.validateMessage_eq, ValidatorFactory.rulesOf]
    rcases factory.getMessageRules message.descriptor with _ | failure | rules
    · rfl
    · rfl
    · exact answered_eachThen (fun rule _ => rfl) below

/-- So is `Validate`. -/
theorem answer_validate (failFast : Bool) (message : Message) :
    (Lookups.validate factory.context.runtime failFast message).answer factory.getMessageRules =
      Validator.validate factory failFast message := by
  have run : (Lookups.validateMessage factory.context.runtime message failFast {}).answer factory.getMessageRules =
      Validator.run factory failFast message :=
    congrFun (congrFun (answered_validateMessage message) failFast) {}
  rw [Lookups.validate, Asking.answer_bind, run, Validator.validate]
  rcases Validator.run factory failFast message with ⟨failure | _, ctx⟩
  · rfl
  · rfl

end Answers

end Protovalidate.Validate
