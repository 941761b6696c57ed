import Protovalidate.Validate.Validator

/-! The recursion of the validator as one over the children of a message: the
sub-messages it descends to, each with the path element of its place. -/

namespace Protovalidate.Validate

open Foundation Check

section Elements

variable {field : FieldDescriptor} {keyField valueField : FieldInfo} {entry : Entry}

/-- The path element of a map entry. -/
def entryPathElement (field keyField valueField : FieldInfo) (key : Scalar) : FieldPathElement :=
  { fieldPathElement field with
    keyType := some keyField.type
    valueType := some valueField.type
    subscript := keySubscript keyField.type key }

theorem setPathElementMapKey_eq (valid : keyField.type.isMapKey = true) :
    setPathElementMapKey (fieldPathElement field.toFieldInfo) entry keyField valueField =
      .ok (entryPathElement field.toFieldInfo keyField valueField entry.key) := by
  have known : ∃ subscript, keySubscript keyField.type entry.key = some subscript := by
    revert valid
    cases keyField.type <;> simp [FieldType.isMapKey, keySubscript]
  obtain ⟨subscript, same⟩ := known
  simp [setPathElementMapKey, entryPathElement, same]

theorem entryFramed_eq (valid : keyField.type.isMapKey = true) (part : RuleCheck Status) :
    Validator.entryFramed field keyField valueField entry part =
      Validator.elementFramed (entryPathElement field.toFieldInfo keyField valueField entry.key) part := by
  simp only [Validator.entryFramed, setPathElementMapKey_eq valid, Validator.elementFramed]
  exact framed_of_grown _ part

end Elements

section Children

/-- The items of a repeated field that are messages. -/
def itemChildren (field : FieldDescriptor) : Nat → List Value → List (FieldPathElement × Message)
  | _, [] => []
  | index, .message message :: values =>
    ((fieldPathElement field.toFieldInfo).setIndex index, message) :: itemChildren field (index + 1) values
  | index, .scalar _ :: values => itemChildren field (index + 1) values

/-- The entries of a map whose values are messages. -/
def entryChildren (field : FieldDescriptor) (keyField valueField : FieldInfo) :
    List Entry → List (FieldPathElement × Message)
  | [] => []
  | .mk key (.message message) :: entries =>
    (entryPathElement field.toFieldInfo keyField valueField key, message) ::
      entryChildren field keyField valueField entries
  | .mk _ (.scalar _) :: entries => entryChildren field keyField valueField entries

def valueChildren (field : FieldDescriptor) : FieldValue → List (FieldPathElement × Message)
  | .singular (.message message) => [(fieldPathElement field.toFieldInfo, message)]
  | .singular (.scalar _) => []
  | .repeated values => itemChildren field 0 values
  | .map entries =>
    match field.shape with
    | .map keyField valueField _ =>
      if valueField.type.isCppMessage then entryChildren field keyField valueField entries else []
    | _ => []

def fieldChildren : Field → List (FieldPathElement × Message)
  | .mk field value => if !field.isCppMessage || ignoresAlways field then [] else valueChildren field value

/-- The sub-messages that are validated on their own, in the order of the run. -/
def children (message : Message) : List (FieldPathElement × Message) := message.fields.flatMap fieldChildren

end Children

namespace Validator

variable (factory : ValidatorFactory)

/-- One child in the frame of its place. -/
def validateChild (child : FieldPathElement × Message) : RuleCheck Status :=
  elementFramed child.1 (validateMessage factory child.2)

theorem eachThen_append {ι : Type} (body : ι → RuleCheck Status) (front back : List ι) (after : RuleCheck Status) :
    eachThen body (front ++ back) after = eachThen body front (eachThen body back after) := by
  induction front with
  | nil => rfl
  | cons element front ih => rw [List.cons_append, eachThen, eachThen, ih]

/-- `Validate` returns the finalized violations of a run that succeeds. -/
theorem validate_ok {factory : ValidatorFactory} {failFast : Bool} {message : Message} {violations : List RuleViolation} :
    validate factory failFast message = .ok violations ↔
      (run factory failFast message).1 = .ok () ∧
        violations = (run factory failFast message).2.entries.map RuleViolation.finalize := by
  unfold validate
  match run factory failFast message with
  | (.error failure, ctx) => simp
  | (.ok (), ctx) => simp [eq_comm]

theorem validateItems_eq (field : FieldDescriptor) (index : Nat) (values : List Value) (after : RuleCheck Status) :
    validateItems factory field index values after =
      eachThen (validateChild factory) (itemChildren field index values) after := by
  induction values generalizing index with
  | nil => rfl
  | cons value values ih =>
    cases value with
    | message message => simp only [validateItems, itemChildren, eachThen, validateChild, ih]
    | scalar _ => simp only [validateItems, itemChildren, ih]

theorem validateEntries_eq (field : FieldDescriptor) {keyField valueField : FieldInfo}
    (valid : keyField.type.isMapKey = true) (entries : List Entry) (after : RuleCheck Status) :
    validateEntries factory field keyField valueField entries after =
      eachThen (validateChild factory) (entryChildren field keyField valueField entries) after := by
  induction entries with
  | nil => rfl
  | cons entry entries ih =>
    obtain ⟨key, value⟩ := entry
    cases value with
    | message message =>
      simp only [validateEntries, entryChildren, eachThen, validateChild, ih, entryFramed_eq valid]
      rfl
    | scalar _ => simp only [validateEntries, entryChildren, ih]

theorem validateField_eq (field : FieldDescriptor) (value : FieldValue) (after : RuleCheck Status) :
    validateField factory field value after = eachThen (validateChild factory) (valueChildren field value) after := by
  cases value with
  | singular value => cases value <;> simp only [validateField, valueChildren, eachThen, validateChild]
  | repeated values => simp only [validateField, valueChildren, validateItems_eq]
  | map entries =>
    simp only [validateField, valueChildren]
    cases field.shape with
    | singular => rfl
    | repeated => rfl
    | map keyField valueField valid =>
      by_cases isMessage : valueField.type.isCppMessage = true
      · simp only [isMessage, ↓reduceIte]
        exact validateEntries_eq factory field valid entries after
      · simp only [isMessage]
        rfl

theorem validateFields_eq (fields : List Field) : validateFields factory fields =
    eachThen (validateChild factory) (fields.flatMap fieldChildren) (pure (.ok ())) := by
  induction fields with
  | nil => rfl
  | cons head fields ih =>
    obtain ⟨field, value⟩ := head
    rw [List.flatMap_cons, eachThen_append, ← ih]
    simp only [validateFields, fieldChildren]
    split
    · rfl
    · exact validateField_eq factory field value _

/-- A message is validated by its own rules and then by those of its children. -/
theorem validateMessage_eq (message : Message) : validateMessage factory message =
    match factory.rulesOf message.descriptor with
    | .error failure => pure (.error failure)
    | .ok rules =>
      eachThen (ValidationRules.validate factory.context.runtime message) rules
        (eachThen (validateChild factory) (children message) (pure (.ok ()))) := by
  obtain ⟨descriptor, fields⟩ := message
  rw [validateMessage, validateFields_eq]
  rfl

end Validator

section Induction

variable {field : FieldDescriptor} {element : FieldPathElement} {child message : Message}

theorem itemChildren_sizeOf {index : Nat} {values : List Value}
    (member : (element, child) ∈ itemChildren field index values) : sizeOf child < sizeOf values := by
  induction values generalizing index with
  | nil => cases member
  | cons value values ih =>
    cases value with
    | message message =>
      rcases List.mem_cons.mp member with same | later
      · cases same
        simp only [List.cons.sizeOf_spec, Value.message.sizeOf_spec]
        omega
      · have smaller := ih later
        simp only [List.cons.sizeOf_spec]
        omega
    | scalar _ =>
      have smaller := ih member
      simp only [List.cons.sizeOf_spec]
      omega

theorem entryChildren_sizeOf {keyField valueField : FieldInfo} {entries : List Entry}
    (member : (element, child) ∈ entryChildren field keyField valueField entries) : sizeOf child < sizeOf entries := by
  induction entries with
  | nil => cases member
  | cons entry entries ih =>
    obtain ⟨key, value⟩ := entry
    cases value with
    | message message =>
      rcases List.mem_cons.mp member with same | later
      · cases same
        simp only [List.cons.sizeOf_spec, Entry.mk.sizeOf_spec, Value.message.sizeOf_spec]
        omega
      · have smaller := ih later
        simp only [List.cons.sizeOf_spec]
        omega
    | scalar _ =>
      have smaller := ih member
      simp only [List.cons.sizeOf_spec]
      omega

theorem valueChildren_sizeOf {value : FieldValue} (member : (element, child) ∈ valueChildren field value) :
    sizeOf child < sizeOf value := by
  cases value with
  | singular value =>
    cases value with
    | message message =>
      cases List.mem_singleton.mp member
      simp only [FieldValue.singular.sizeOf_spec, Value.message.sizeOf_spec]
      omega
    | scalar _ => cases member
  | repeated values =>
    have smaller := itemChildren_sizeOf member
    simp only [FieldValue.repeated.sizeOf_spec]
    omega
  | map entries =>
    simp only [valueChildren] at member
    split at member
    · split at member
      · have smaller := entryChildren_sizeOf member
        simp only [FieldValue.map.sizeOf_spec]
        omega
      · cases member
    · cases member

theorem children_sizeOf (member : (element, child) ∈ children message) : sizeOf child < sizeOf message := by
  obtain ⟨descriptor, fields⟩ := message
  obtain ⟨⟨field, value⟩, inFields, inField⟩ := List.mem_flatMap.mp member
  have smaller := List.sizeOf_lt_of_mem inFields
  simp only [fieldChildren] at inField
  split at inField
  · cases inField
  · have inValue := valueChildren_sizeOf inField
    simp only [Field.mk.sizeOf_spec, Message.mk.sizeOf_spec] at smaller ⊢
    simp only [Message.fields] at smaller
    omega

/-- Induction over a message and its sub-messages. -/
theorem children_induction {motive : Message → Prop}
    (step : ∀ message, (∀ child ∈ children message, motive child.2) → motive message) (message : Message) :
    motive message := by
  induction size : sizeOf message using Nat.strongRecOn generalizing message with
  | ind size ih =>
    subst size
    refine step message fun child member => ?_
    exact ih (sizeOf child.2) (children_sizeOf (show (child.1, child.2) ∈ children message from member)) child.2 rfl

end Induction

end Protovalidate.Validate
