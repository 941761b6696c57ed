import Protovalidate.Foundation.Rearranged
import Protovalidate.Validate.Children

/-! Messages that differ in the order of the entries of their maps, at any depth, and
what reflection and the validator see of them. -/

namespace Protovalidate.Validate

open Foundation

mutual

/-- Messages with the same fields, whose maps have the same entries in some order. -/
inductive Message.Reordered : Message → Message → Prop where
  | mk {descriptor : Descriptor} {fields fields' : List Field} (same : List.Forall₂ Field.Reordered fields fields') :
    Message.Reordered ⟨descriptor, fields⟩ ⟨descriptor, fields'⟩

inductive Field.Reordered : Field → Field → Prop where
  | mk {field : FieldDescriptor} {value value' : FieldValue} (same : FieldValue.Reordered value value') :
    Field.Reordered ⟨field, value⟩ ⟨field, value'⟩

inductive FieldValue.Reordered : FieldValue → FieldValue → Prop where
  | singular {value value' : Value} (same : Value.Reordered value value') :
    FieldValue.Reordered (.singular value) (.singular value')
  | repeated {values values' : List Value} (same : List.Forall₂ Value.Reordered values values') :
    FieldValue.Reordered (.repeated values) (.repeated values')
  | map {entries ordered entries' : List Entry} (same : List.Forall₂ Entry.Reordered entries ordered)
    (order : ordered.Perm entries') : FieldValue.Reordered (.map entries) (.map entries')

inductive Entry.Reordered : Entry → Entry → Prop where
  | mk {key : Scalar} {value value' : Value} (same : Value.Reordered value value') :
    Entry.Reordered ⟨key, value⟩ ⟨key, value'⟩

inductive Value.Reordered : Value → Value → Prop where
  | scalar (value : Scalar) : Value.Reordered (.scalar value) (.scalar value)
  | message {value value' : Message} (same : Message.Reordered value value') :
    Value.Reordered (.message value) (.message value')

end

section Reflection

variable {message message' : Message} (same : message.Reordered message') (field : FieldDescriptor)

include same

theorem Message.Reordered.descriptor : message.descriptor = message'.descriptor := by
  cases same
  rfl

namespace Message.Reordered

theorem find : Option.Rel FieldValue.Reordered (message.find field) (message'.find field) := by
  obtain ⟨pairs⟩ := same
  unfold Message.find
  simp only [Message.fields]
  induction pairs with
  | nil => exact .none
  | cons pair _ ih =>
    cases pair with
    | @mk own value value' inside =>
      simp only [List.findSome?_cons]
      by_cases named : (own.number == field.number) = true
      · simp only [named, ↓reduceIte]
        exact .some inside
      · simp only [named]
        exact ih

theorem hasField : message.hasField field = message'.hasField field := by
  have found := same.find field
  unfold Message.hasField
  generalize message.find field = value, message'.find field = value' at found ⊢
  cases found with
  | none => rfl
  | some _ => rfl

/-- A singular field is told from what is found. -/
theorem single : Option.Rel Value.Reordered (message.single field) (message'.single field) := by
  have found := same.find field
  unfold Message.single
  generalize message.find field = value, message'.find field = value' at found ⊢
  cases found with
  | none => exact .none
  | some inside =>
    cases inside with
    | singular value => exact .some value
    | repeated _ => exact .none
    | map _ _ => exact .none

theorem elements : List.Forall₂ Value.Reordered (message.elements field) (message'.elements field) := by
  have found := same.find field
  unfold Message.elements
  generalize message.find field = value, message'.find field = value' at found ⊢
  cases found with
  | none => exact .nil
  | some inside =>
    cases inside with
    | singular _ => exact .nil
    | repeated values => exact values
    | map _ _ => exact .nil

theorem entries : Rearranged Entry.Reordered (message.entries field) (message'.entries field) := by
  have found := same.find field
  unfold Message.entries
  generalize message.find field = value, message'.find field = value' at found ⊢
  cases found with
  | none => exact .of_forall₂ .nil
  | some inside =>
    cases inside with
    | singular _ => exact .of_forall₂ .nil
    | repeated _ => exact .of_forall₂ .nil
    | map entries order => exact ⟨_, entries, order⟩

theorem getEnumValue : message.getEnumValue field = message'.getEnumValue field := by
  have value := same.single field
  unfold Message.getEnumValue
  generalize message.single field = read, message'.single field = read' at value ⊢
  cases value with
  | none => rfl
  | some inside =>
    cases inside with
    | scalar _ => rfl
    | message _ => rfl

theorem getString : FieldValidationRules.getString message field = FieldValidationRules.getString message' field := by
  have value := same.single field
  unfold FieldValidationRules.getString
  generalize message.single field = read, message'.single field = read' at value ⊢
  cases value with
  | none => rfl
  | some inside =>
    cases inside with
    | scalar _ => rfl
    | message _ => rfl

end Message.Reordered

end Reflection

section Children

/-- Children at the same place that are reordered. -/
def SameChild (child child' : FieldPathElement × Message) : Prop := child.1 = child'.1 ∧ child.2.Reordered child'.2

theorem itemChildren_reordered {values values' : List Value} (field : FieldDescriptor) (index : Nat)
    (pairs : List.Forall₂ Value.Reordered values values') :
    List.Forall₂ SameChild (itemChildren field index values) (itemChildren field index values') := by
  induction pairs generalizing index with
  | nil => exact .nil
  | cons pair _ ih =>
    cases pair with
    | scalar _ => exact ih (index + 1)
    | message inside => exact .cons ⟨rfl, inside⟩ (ih (index + 1))

theorem entryChildren_flatMap (field : FieldDescriptor) (keyField valueField : FieldInfo) (entries : List Entry) :
    entryChildren field keyField valueField entries =
      entries.flatMap fun entry => entryChildren field keyField valueField [entry] := by
  induction entries with
  | nil => rfl
  | cons entry entries ih =>
    obtain ⟨key, value⟩ := entry
    cases value with
    | scalar _ => exact ih
    | message message => exact congrArg (List.cons _) ih

theorem entryChildren_reordered {entries entries' : List Entry} (field : FieldDescriptor) (keyField valueField : FieldInfo)
    (rearranged : Rearranged Entry.Reordered entries entries') :
    Rearranged SameChild (entryChildren field keyField valueField entries) (entryChildren field keyField valueField entries') := by
  rw [entryChildren_flatMap, entryChildren_flatMap field keyField valueField entries']
  refine rearranged.flatMap fun entry entry' pair => .of_forall₂ ?_
  obtain ⟨inside⟩ := pair
  cases inside with
  | scalar _ => exact .nil
  | message inside => exact .cons ⟨rfl, inside⟩ .nil

theorem valueChildren_reordered {value value' : FieldValue} (field : FieldDescriptor) (same : value.Reordered value') :
    Rearranged SameChild (valueChildren field value) (valueChildren field value') := by
  cases same with
  | singular inside =>
    cases inside with
    | scalar _ => exact .of_forall₂ .nil
    | message inside => exact .of_forall₂ (.cons ⟨rfl, inside⟩ .nil)
  | repeated values => exact .of_forall₂ (itemChildren_reordered field 0 values)
  | map entries order =>
    unfold valueChildren
    cases field.shape with
    | map keyField valueField _ =>
      simp only
      split
      · exact entryChildren_reordered field keyField valueField ⟨_, entries, order⟩
      · exact .of_forall₂ .nil
    | _ => exact .of_forall₂ .nil

/-- The validator descends to the same sub-messages, reordered and in some order. -/
theorem Message.Reordered.children {message message' : Message} (same : message.Reordered message') :
    Rearranged SameChild (children message) (children message') := by
  obtain ⟨pairs⟩ := same
  refine (Rearranged.of_forall₂ pairs).flatMap fun field field' pair => ?_
  obtain ⟨inside⟩ := pair
  simp only [fieldChildren]
  split
  · exact .of_forall₂ .nil
  · exact valueChildren_reordered _ inside

end Children

end Protovalidate.Validate
