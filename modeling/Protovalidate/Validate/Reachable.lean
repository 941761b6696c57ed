import Mathlib.Logic.Relation
import Protovalidate.Validate.Children
import Protovalidate.Validate.Factory

/-! The message types that are looked up while a message is validated: they are those
that its type leads to through the fields that the validator descends into. -/

namespace Protovalidate.Validate

open Relation

section Types

variable {pool : DescriptorPool}

/-- The fields that a message of a type may have set. -/
def MessageType.allFields (type : MessageType pool) : List FieldDescriptor :=
  type.descriptor.fields ++ pool.extensionFields type.fullName

/-- The type of the messages in a field, which for a map are its values. -/
def DescriptorPool.elementType (pool : DescriptorPool) (field : FieldDescriptor) : Option (MessageType pool) :=
  match field.shape with
  | .map _ valueField _ => if valueField.type.isCppMessage then pool.findMessageType valueField.messageType else none
  | _ => pool.findMessageType field.messageType

/-- A field through which the validator gets from messages of one type to another. -/
def DescendsTo (type next : MessageType pool) : Prop :=
  ∃ field ∈ type.allFields, field.isCppMessage = true ∧ ignoresAlways field = false ∧ pool.elementType field = some next

end Types

section Messages

variable {pool : DescriptorPool}

/-- The values in a field. -/
def FieldValue.values : FieldValue → List Value
  | .singular held => [held]
  | .repeated held => held
  | .map entries => entries.map Entry.value

/-- A message of a type, which only holds messages of the types of its fields. -/
inductive Conforms : MessageType pool → Message → Prop where
  | mk {type : MessageType pool} {message : Message} (descriptor : message.descriptor = type.descriptor)
    (declared : ∀ field value, Field.mk field value ∈ message.fields → field ∈ type.allFields)
    (known : ∀ field value, Field.mk field value ∈ message.fields → ∀ inner, .message inner ∈ value.values →
      ∃ next, pool.elementType field = some next)
    (typed : ∀ field value, Field.mk field value ∈ message.fields → ∀ inner, .message inner ∈ value.values →
      ∀ next, pool.elementType field = some next → Conforms next inner) : Conforms type message

theorem Conforms.descriptor_eq {type : MessageType pool} {message : Message} (conforms : Conforms type message) :
    message.descriptor = type.descriptor := by
  cases conforms with
  | mk descriptor => exact descriptor

/-- A sub-message that the validator descends to. -/
def Child (message sub : Message) : Prop := ∃ element, (element, sub) ∈ children message

/-- The types whose rules are looked up while some message of a type is validated. -/
def LookedUp (type next : MessageType pool) : Prop :=
  ∃ message sub, Conforms type message ∧ ReflTransGen Child message sub ∧ Conforms next sub

theorem itemChildren_values {field : FieldDescriptor} {index : Nat} {values : List Value} {element : FieldPathElement}
    {sub : Message} (member : (element, sub) ∈ itemChildren field index values) : .message sub ∈ values := by
  induction values generalizing index with
  | nil => cases member
  | cons value values ih =>
    cases value with
    | message message =>
      rcases List.mem_cons.mp member with same | later
      · cases same
        exact List.mem_cons_self
      · exact List.mem_cons_of_mem _ (ih later)
    | scalar _ => exact List.mem_cons_of_mem _ (ih member)

theorem entryChildren_values {field : FieldDescriptor} {keyField valueField : FieldInfo} {entries : List Entry}
    {element : FieldPathElement} {sub : Message}
    (member : (element, sub) ∈ entryChildren field keyField valueField entries) :
    .message sub ∈ entries.map Entry.value := by
  induction entries with
  | nil => cases member
  | cons entry entries ih =>
    obtain ⟨key, value⟩ := entry
    cases value with
    | message message =>
      rcases List.mem_cons.mp member with same | later
      · cases same
        exact List.mem_cons_self
      · exact List.mem_cons_of_mem _ (ih later)
    | scalar _ => exact List.mem_cons_of_mem _ (ih member)

theorem valueChildren_values {field : FieldDescriptor} {value : FieldValue} {element : FieldPathElement} {sub : Message}
    (member : (element, sub) ∈ valueChildren field value) : .message sub ∈ value.values := by
  cases value with
  | singular value =>
    cases value with
    | message message =>
      cases List.mem_singleton.mp member
      exact List.mem_cons_self
    | scalar _ => cases member
  | repeated values => exact itemChildren_values member
  | map entries =>
    simp only [valueChildren] at member
    split at member
    · split at member
      · exact entryChildren_values member
      · cases member
    · cases member

/-- The sub-messages of a message have types that its own type leads to. -/
theorem Conforms.child {type : MessageType pool} {message sub : Message} (conforms : Conforms type message)
    (child : Child message sub) : ∃ next, DescendsTo type next ∧ Conforms next sub := by
  obtain ⟨element, member⟩ := child
  obtain ⟨⟨field, value⟩, present, inField⟩ := List.mem_flatMap.mp member
  simp only [fieldChildren] at inField
  split at inField
  · cases inField
  · rename_i descends
    rw [Bool.or_eq_true, not_or, Bool.not_eq_true', Bool.not_eq_false, Bool.not_eq_true] at descends
    have inner := valueChildren_values inField
    cases conforms with
    | mk descriptor declared known typed =>
      obtain ⟨next, found⟩ := known field value present sub inner
      exact ⟨next, ⟨field, declared field value present, descends.1, descends.2, found⟩,
        typed field value present sub inner next found⟩

theorem Conforms.descendant {type : MessageType pool} {message sub : Message} (conforms : Conforms type message)
    (below : ReflTransGen Child message sub) : ∃ next, ReflTransGen DescendsTo type next ∧ Conforms next sub := by
  induction below with
  | refl => exact ⟨type, .refl, conforms⟩
  | tail _ child ih =>
    obtain ⟨middle, path, conforms⟩ := ih
    obtain ⟨next, step, conforms⟩ := conforms.child child
    exact ⟨next, path.tail step, conforms⟩

theorem conforms_empty (type : MessageType pool) : Conforms type ⟨type.descriptor, []⟩ :=
  .mk rfl (fun _ _ impossible => by cases impossible) (fun _ _ impossible => by cases impossible)
    fun _ _ impossible => by cases impossible

/-- A value of a field that holds one message. -/
def holdingValue (field : FieldDescriptor) (inner : Message) : FieldValue :=
  match field.shape with
  | .singular => .singular (.message inner)
  | .repeated => .repeated [.message inner]
  | .map _ _ _ => .map [⟨.int 0, .message inner⟩]

theorem holdingValue_values {field : FieldDescriptor} {inner other : Message}
    (member : .message other ∈ (holdingValue field inner).values) : other = inner := by
  unfold holdingValue at member
  split at member <;> simpa [FieldValue.values, Entry.value] using member

theorem child_holding {field : FieldDescriptor} {next : MessageType pool} (isMessage : field.isCppMessage = true)
    (descends : ignoresAlways field = false) (found : pool.elementType field = some next) (descriptor : Descriptor)
    (inner : Message) : Child ⟨descriptor, [.mk field (holdingValue field inner)]⟩ inner := by
  have unfolded : children ⟨descriptor, [.mk field (holdingValue field inner)]⟩ =
      valueChildren field (holdingValue field inner) := by
    simp [children, Message.fields, fieldChildren, isMessage, descends]
  unfold Child
  rw [unfolded, holdingValue]
  cases shape : field.shape with
  | singular => exact ⟨_, List.mem_cons_self⟩
  | repeated => exact ⟨_, List.mem_cons_self⟩
  | map keyField valueField valid =>
    simp only [DescriptorPool.elementType, shape] at found
    split at found
    · rename_i isMessage
      simp only [valueChildren, shape, isMessage, ↓reduceIte, entryChildren]
      exact ⟨_, List.mem_cons_self⟩
    · cases found

/-- Every type that a type leads to is looked up for some message. -/
theorem DescendsTo.holding {type next : MessageType pool} (step : DescendsTo type next) {inner : Message}
    (conforms : Conforms next inner) : ∃ message, Conforms type message ∧ Child message inner := by
  obtain ⟨field, declared, isMessage, descends, found⟩ := step
  refine ⟨⟨type.descriptor, [.mk field (holdingValue field inner)]⟩, .mk rfl ?_ ?_ ?_,
    child_holding isMessage descends found _ _⟩
  · intro field' value' member
    cases List.mem_singleton.mp member
    exact declared
  · intro field' value' member other held
    cases List.mem_singleton.mp member
    exact ⟨next, found⟩
  · intro field' value' member other held next' found'
    cases List.mem_singleton.mp member
    cases found.symm.trans found'
    rw [holdingValue_values held]
    exact conforms

/-- What is looked up for the messages of a type is what the type leads to. -/
theorem lookedUp_iff {type next : MessageType pool} : LookedUp type next ↔ ReflTransGen DescendsTo type next := by
  constructor
  · rintro ⟨message, sub, conforms, below, conforms'⟩
    obtain ⟨other, path, found⟩ := conforms.descendant below
    have same : other = next := MessageType.fullName_injective <| by
      rw [MessageType.fullName, MessageType.fullName, ← found.descriptor_eq, ← conforms'.descriptor_eq]
    exact same ▸ path
  · intro path
    induction path using ReflTransGen.head_induction_on with
    | refl => exact ⟨_, _, conforms_empty next, .refl, conforms_empty next⟩
    | head step _ ih =>
      obtain ⟨inner, sub, conforms, below, last⟩ := ih
      obtain ⟨message, outer, child⟩ := step.holding conforms
      exact ⟨message, sub, outer, below.head child, last⟩

end Messages
end Protovalidate.Validate
