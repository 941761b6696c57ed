import Protovalidate.Validate.Reachable

/-! Messages without the contents of some fields that are ignored, or of their
elements, and what is left of a message then. -/

namespace Protovalidate.Validate

section Erasing

/-- An `IGNORE_ALWAYS` setting of the field itself. -/
def ignoredWhole (field : FieldDescriptor) : Bool :=
  match field.options with
  | none => false
  | some fieldExt => fieldExt.ignore == .always

/-- An element without its contents. -/
def Value.emptied : Value → Value
  | .scalar value => .scalar value
  | .message inner => .message ⟨inner.descriptor, []⟩

def Entry.emptied : Entry → Entry
  | ⟨key, value⟩ => ⟨key, value.emptied⟩

def FieldValue.emptied : FieldValue → FieldValue
  | .singular value => .singular value.emptied
  | .repeated values => .repeated (values.map Value.emptied)
  | .map entries => .map (entries.map Entry.emptied)

/-- What is left of a field that is ignored, or that has ignored elements. -/
def FieldValue.ignored (field : FieldDescriptor) (value : FieldValue) : FieldValue :=
  if ignoredWhole field then .repeated [] else value.emptied

variable (hidden : FieldDescriptor → Bool)

mutual

/-- A message without the contents of the hidden fields, at any depth. -/
def Message.erase : Message → Message
  | .mk descriptor fields => .mk descriptor (eraseFields fields)

def eraseFields : List Field → List Field
  | [] => []
  | .mk field value :: fields =>
    .mk field (if hidden field then value.ignored field else value.erase) :: eraseFields fields

def FieldValue.erase : FieldValue → FieldValue
  | .singular value => .singular value.erase
  | .repeated values => .repeated (eraseValues values)
  | .map entries => .map (eraseEntries entries)

def eraseValues : List Value → List Value
  | [] => []
  | value :: values => value.erase :: eraseValues values

def eraseEntries : List Entry → List Entry
  | [] => []
  | .mk key value :: entries => .mk key value.erase :: eraseEntries entries

def Value.erase : Value → Value
  | .scalar value => .scalar value
  | .message inner => .message inner.erase

end

mutual

/-- Whether a message holds a hidden field, at any depth. -/
def Message.holds : Message → Bool
  | .mk _ fields => fieldsHold fields

def fieldsHold : List Field → Bool
  | [] => false
  | .mk field value :: fields => hidden field || value.holds || fieldsHold fields

def FieldValue.holds : FieldValue → Bool
  | .singular value => value.holds
  | .repeated values => valuesHold values
  | .map entries => entriesHold entries

def valuesHold : List Value → Bool
  | [] => false
  | value :: values => value.holds || valuesHold values

def entriesHold : List Entry → Bool
  | [] => false
  | .mk _ value :: entries => value.holds || entriesHold entries

def Value.holds : Value → Bool
  | .scalar _ => false
  | .message inner => inner.holds

end

def Entry.erase : Entry → Entry
  | ⟨key, value⟩ => ⟨key, value.erase hidden⟩

/-- What is left of the value of a field. -/
def FieldValue.left (field : FieldDescriptor) (value : FieldValue) : FieldValue :=
  if hidden field then value.ignored field else value.erase hidden

def Field.erase : Field → Field
  | ⟨field, value⟩ => ⟨field, value.left hidden field⟩

end Erasing

section Equations

variable {hidden : FieldDescriptor → Bool} {message message' : Message}

theorem eraseFields_eq (fields : List Field) : eraseFields hidden fields = fields.map (Field.erase hidden) := by
  induction fields with
  | nil => rfl
  | cons head fields ih =>
    obtain ⟨field, value⟩ := head
    rw [List.map_cons, ← ih]
    rfl

theorem eraseValues_eq (values : List Value) : eraseValues hidden values = values.map (Value.erase hidden) := by
  induction values with
  | nil => rfl
  | cons value values ih =>
    rw [List.map_cons, ← ih]
    rfl

theorem eraseEntries_eq (entries : List Entry) : eraseEntries hidden entries = entries.map (Entry.erase hidden) := by
  induction entries with
  | nil => rfl
  | cons head entries ih =>
    obtain ⟨key, value⟩ := head
    rw [List.map_cons, ← ih]
    rfl

theorem fields_erase : (message.erase hidden).fields = message.fields.map (Field.erase hidden) := by
  obtain ⟨descriptor, fields⟩ := message
  exact eraseFields_eq fields

theorem descriptor_erase : (message.erase hidden).descriptor = message.descriptor := by
  obtain ⟨descriptor, fields⟩ := message
  rfl

theorem valuesHold_iff {values : List Value} :
    valuesHold hidden values = true ↔ ∃ inner, .message inner ∈ values ∧ inner.holds hidden = true := by
  induction values with
  | nil => simp [valuesHold]
  | cons value values ih =>
    cases value with
    | scalar _ => simp [valuesHold, Value.holds, ih]
    | message inner => simp [valuesHold, Value.holds, ih]

theorem entriesHold_eq (entries : List Entry) :
    entriesHold hidden entries = valuesHold hidden (entries.map Entry.value) := by
  induction entries with
  | nil => rfl
  | cons head entries ih =>
    obtain ⟨key, value⟩ := head
    rw [List.map_cons, entriesHold, valuesHold, ih]
    rfl

theorem FieldValue.holds_iff {value : FieldValue} :
    value.holds hidden = true ↔ ∃ inner, .message inner ∈ value.values ∧ inner.holds hidden = true := by
  rw [← valuesHold_iff]
  cases value with
  | singular value => rw [FieldValue.holds, FieldValue.values, valuesHold, valuesHold, Bool.or_false]
  | repeated values => rw [FieldValue.holds, FieldValue.values]
  | map entries => rw [FieldValue.holds, FieldValue.values, entriesHold_eq]

theorem Message.holds_iff : message.holds hidden = true ↔
    ∃ field value, Field.mk field value ∈ message.fields ∧ (hidden field = true ∨ value.holds hidden = true) := by
  obtain ⟨descriptor, fields⟩ := message
  rw [Message.holds, Message.fields]
  induction fields with
  | nil => simp [fieldsHold]
  | cons head fields ih =>
    obtain ⟨field, value⟩ := head
    simp [fieldsHold, ih, or_and_right, exists_or]

mutual

theorem Message.holds_erase : ∀ message : Message, (message.erase hidden).holds hidden = message.holds hidden
  | .mk descriptor fields => by rw [Message.erase, Message.holds, Message.holds, fieldsHold_erase fields]

theorem fieldsHold_erase : ∀ fields : List Field, fieldsHold hidden (eraseFields hidden fields) = fieldsHold hidden fields
  | [] => rfl
  | .mk field value :: fields => by
    rw [eraseFields, fieldsHold, fieldsHold, fieldsHold_erase fields]
    cases named : hidden field with
    | true => rfl
    | false => rw [if_neg Bool.false_ne_true, FieldValue.holds_erase value]

theorem FieldValue.holds_erase : ∀ value : FieldValue, (value.erase hidden).holds hidden = value.holds hidden
  | .singular value => by rw [FieldValue.erase, FieldValue.holds, FieldValue.holds, Value.holds_erase value]
  | .repeated values => by rw [FieldValue.erase, FieldValue.holds, FieldValue.holds, valuesHold_erase values]
  | .map entries => by rw [FieldValue.erase, FieldValue.holds, FieldValue.holds, entriesHold_erase entries]

theorem valuesHold_erase : ∀ values : List Value, valuesHold hidden (eraseValues hidden values) = valuesHold hidden values
  | [] => rfl
  | value :: values => by rw [eraseValues, valuesHold, valuesHold, valuesHold_erase values, Value.holds_erase value]

theorem entriesHold_erase : ∀ entries : List Entry,
    entriesHold hidden (eraseEntries hidden entries) = entriesHold hidden entries
  | [] => rfl
  | .mk key value :: entries => by
    rw [eraseEntries, entriesHold, entriesHold, entriesHold_erase entries, Value.holds_erase value]

theorem Value.holds_erase : ∀ value : Value, (value.erase hidden).holds hidden = value.holds hidden
  | .scalar _ => rfl
  | .message inner => by rw [Value.erase, Value.holds, Value.holds, Message.holds_erase inner]

end

mutual

theorem Message.erase_of_not_holds : ∀ message : Message, message.holds hidden = false → message.erase hidden = message
  | .mk descriptor fields, clean => by rw [Message.erase, eraseFields_of_not_hold fields clean]

theorem eraseFields_of_not_hold : ∀ fields : List Field, fieldsHold hidden fields = false → eraseFields hidden fields = fields
  | [], _ => rfl
  | .mk field value :: fields, clean => by
    rw [fieldsHold, Bool.or_eq_false_iff, Bool.or_eq_false_iff] at clean
    obtain ⟨⟨named, inner⟩, others⟩ := clean
    rw [eraseFields, named, if_neg Bool.false_ne_true, FieldValue.erase_of_not_holds value inner,
      eraseFields_of_not_hold fields others]

theorem FieldValue.erase_of_not_holds : ∀ value : FieldValue, value.holds hidden = false → value.erase hidden = value
  | .singular value, clean => by rw [FieldValue.erase, Value.erase_of_not_holds value clean]
  | .repeated values, clean => by rw [FieldValue.erase, eraseValues_of_not_hold values clean]
  | .map entries, clean => by rw [FieldValue.erase, eraseEntries_of_not_hold entries clean]

theorem eraseValues_of_not_hold : ∀ values : List Value, valuesHold hidden values = false → eraseValues hidden values = values
  | [], _ => rfl
  | value :: values, clean => by
    rw [valuesHold, Bool.or_eq_false_iff] at clean
    rw [eraseValues, Value.erase_of_not_holds value clean.1, eraseValues_of_not_hold values clean.2]

theorem eraseEntries_of_not_hold : ∀ entries : List Entry,
    entriesHold hidden entries = false → eraseEntries hidden entries = entries
  | [], _ => rfl
  | .mk key value :: entries, clean => by
    rw [entriesHold, Bool.or_eq_false_iff] at clean
    rw [eraseEntries, Value.erase_of_not_holds value clean.1, eraseEntries_of_not_hold entries clean.2]

theorem Value.erase_of_not_holds : ∀ value : Value, value.holds hidden = false → value.erase hidden = value
  | .scalar _, _ => rfl
  | .message inner, clean => by rw [Value.erase, Message.erase_of_not_holds inner clean]

end

/-- Messages without hidden fields are told apart by what is left of them. -/
theorem Message.eq_of_erase (same : message.erase hidden = message'.erase hidden) (clean : message.holds hidden = false) :
    message = message' := by
  have clean' : message'.holds hidden = false := by rw [← Message.holds_erase, ← same, Message.holds_erase, clean]
  rw [← Message.erase_of_not_holds message clean, same, Message.erase_of_not_holds message' clean']

theorem FieldValue.eq_of_erase {value value' : FieldValue} (same : value.erase hidden = value'.erase hidden)
    (clean : value.holds hidden = false) : value = value' := by
  have clean' : value'.holds hidden = false := by rw [← FieldValue.holds_erase, ← same, FieldValue.holds_erase, clean]
  rw [← FieldValue.erase_of_not_holds value clean, same, FieldValue.erase_of_not_holds value' clean']

/-- Values of which the same is left are equal, or messages that hold hidden fields. -/
theorem Value.erase_cases {value value' : Value} (same : value.erase hidden = value'.erase hidden) :
    value = value' ∨ ∃ inner inner', value = .message inner ∧ value' = .message inner' ∧
      inner.erase hidden = inner'.erase hidden ∧ inner.holds hidden = true := by
  cases value with
  | scalar scalar =>
    cases value' with
    | scalar scalar' => exact .inl same
    | message inner' => cases same
  | message inner =>
    cases value' with
    | scalar scalar' => cases same
    | message inner' =>
      have inside := Value.message.inj same
      cases holds : inner.holds hidden with
      | true => exact .inr ⟨inner, inner', rfl, rfl, inside, holds⟩
      | false => exact .inl (congrArg Value.message (Message.eq_of_erase inside holds))

end Equations

section Reading

variable {hidden : FieldDescriptor → Bool} {message message' : Message} {field : FieldDescriptor}

/-- Fields of a message with the number of a field of its type are that field. -/
def Owns (message : Message) (field : FieldDescriptor) : Prop :=
  ∀ own value, Field.mk own value ∈ message.fields → own.number = field.number → own = field

theorem Owns.find_mem {value : FieldValue} (owns : Owns message field) (found : message.find field = some value) :
    Field.mk field value ∈ message.fields := by
  obtain ⟨⟨own, held⟩, present, same⟩ := List.exists_of_findSome?_eq_some found
  simp only [Option.ite_none_right_eq_some, beq_iff_eq, Option.some.injEq] at same
  obtain ⟨number, rfl⟩ := same
  obtain rfl := owns own held present number
  exact present

theorem find_erase (owns : Owns message field) :
    (message.erase hidden).find field = (message.find field).map (FieldValue.left hidden field) := by
  rw [Message.find, fields_erase, Message.find]
  unfold Owns at owns
  generalize message.fields = fields at owns ⊢
  induction fields with
  | nil => rfl
  | cons head fields ih =>
    obtain ⟨own, value⟩ := head
    simp only [List.map_cons, Field.erase, List.findSome?_cons]
    by_cases number : own.number = field.number
    · obtain rfl := owns own value List.mem_cons_self number
      simp
    · simp only [beq_eq_false_iff_ne.mpr number, Bool.false_eq_true, ↓reduceIte]
      exact ih fun own value member => owns own value (List.mem_cons_of_mem _ member)

theorem descriptor_alike (same : message.erase hidden = message'.erase hidden) :
    message.descriptor = message'.descriptor := by
  have names := congrArg Message.descriptor same
  rwa [descriptor_erase, descriptor_erase] at names

theorem hasField_erase : (message.erase hidden).hasField field = message.hasField field := by
  rw [Message.hasField, Message.hasField, Message.find, Message.find, fields_erase]
  induction message.fields with
  | nil => rfl
  | cons head fields ih =>
    obtain ⟨own, value⟩ := head
    simp only [List.map_cons, Field.erase, List.findSome?_cons]
    by_cases number : own.number = field.number
    · simp [number]
    · simpa only [beq_eq_false_iff_ne.mpr number, Bool.false_eq_true, ↓reduceIte] using ih

theorem owns_erase : Owns (message.erase hidden) field ↔ Owns message field := by
  unfold Owns
  rw [fields_erase]
  constructor
  · intro owns own value member
    exact owns own (value.left hidden own) (List.mem_map_of_mem member)
  · intro owns own value member
    obtain ⟨⟨own', value'⟩, found, same⟩ := List.mem_map.mp member
    cases same
    exact owns own value' found

theorem owns_alike (same : message.erase hidden = message'.erase hidden) (owns : Owns message field) :
    Owns message' field := owns_erase.mp (same ▸ owns_erase.mpr owns)

theorem hasField_alike (same : message.erase hidden = message'.erase hidden) (field : FieldDescriptor) :
    message.hasField field = message'.hasField field := by
  have present := congrArg (fun message => message.hasField field) same
  rwa [hasField_erase, hasField_erase] at present

section Visible

variable (owns : Owns message field) (visible : hidden field = false)

include owns visible

/-- A field that holds no hidden fields has the same value in both messages. -/
theorem find_of_not_holds (same : message.erase hidden = message'.erase hidden)
    (clean : ∀ value, message.find field = some value → value.holds hidden = false) :
    message.find field = message'.find field := by
  have left : (message.find field).map (FieldValue.left hidden field) =
      (message'.find field).map (FieldValue.left hidden field) := by
    rw [← find_erase owns, same, find_erase (owns_alike same owns)]
  cases found : message.find field with
  | none =>
    rw [found, Option.map_none] at left
    exact (Option.map_eq_none_iff.mp left.symm).symm
  | some value =>
    rw [found, Option.map_some] at left
    obtain ⟨value', found', below⟩ := Option.map_eq_some_iff.mp left.symm
    simp only [FieldValue.left, visible, Bool.false_eq_true, ↓reduceIte] at below
    rw [found', FieldValue.eq_of_erase below.symm (clean value found)]

theorem single_erase : (message.erase hidden).single field = (message.single field).map (Value.erase hidden) := by
  unfold Message.single
  rw [find_erase owns]
  cases message.find field with
  | none => rfl
  | some value => cases value <;> simp [FieldValue.left, visible, FieldValue.erase]

theorem elements_erase : (message.erase hidden).elements field = (message.elements field).map (Value.erase hidden) := by
  unfold Message.elements
  rw [find_erase owns]
  cases message.find field with
  | none => rfl
  | some value => cases value <;> simp [FieldValue.left, visible, FieldValue.erase, eraseValues_eq]

theorem entries_erase : (message.erase hidden).entries field = (message.entries field).map (Entry.erase hidden) := by
  unfold Message.entries
  rw [find_erase owns]
  cases message.find field with
  | none => rfl
  | some value => cases value <;> simp [FieldValue.left, visible, FieldValue.erase, eraseEntries_eq]

end Visible

section Hidden

variable (owns : Owns message field) (named : hidden field = true) (inside : ignoredWhole field = false)

include owns named inside

theorem elements_emptied : (message.erase hidden).elements field = (message.elements field).map Value.emptied := by
  unfold Message.elements
  rw [find_erase owns]
  cases message.find field with
  | none => rfl
  | some value => cases value <;> simp [FieldValue.left, FieldValue.ignored, named, inside, FieldValue.emptied]

theorem entries_emptied : (message.erase hidden).entries field = (message.entries field).map Entry.emptied := by
  unfold Message.entries
  rw [find_erase owns]
  cases message.find field with
  | none => rfl
  | some value => cases value <;> simp [FieldValue.left, FieldValue.ignored, named, inside, FieldValue.emptied]

end Hidden

section Children

variable (ignored : ∀ field, hidden field = true → ignoresAlways field = true)

def eraseChild (hidden : FieldDescriptor → Bool) (child : FieldPathElement × Message) : FieldPathElement × Message :=
  (child.1, child.2.erase hidden)

theorem itemChildren_erase (index : Nat) (values : List Value) :
    itemChildren field index (eraseValues hidden values) = (itemChildren field index values).map (eraseChild hidden) := by
  induction values generalizing index with
  | nil => rfl
  | cons value values ih =>
    cases value with
    | message inner => rw [eraseValues, Value.erase, itemChildren, itemChildren, List.map_cons, ih, eraseChild]
    | scalar _ => rw [eraseValues, Value.erase, itemChildren, itemChildren, ih]

theorem entryChildren_erase {keyField valueField : FieldInfo} (entries : List Entry) :
    entryChildren field keyField valueField (eraseEntries hidden entries) =
      (entryChildren field keyField valueField entries).map (eraseChild hidden) := by
  induction entries with
  | nil => rfl
  | cons head entries ih =>
    obtain ⟨key, value⟩ := head
    cases value with
    | message inner => rw [eraseEntries, Value.erase, entryChildren, entryChildren, List.map_cons, ih, eraseChild]
    | scalar _ => rw [eraseEntries, Value.erase, entryChildren, entryChildren, ih]

theorem valueChildren_erase (value : FieldValue) :
    valueChildren field (value.erase hidden) = (valueChildren field value).map (eraseChild hidden) := by
  cases value with
  | singular value => cases value <;> rfl
  | repeated values => exact itemChildren_erase 0 values
  | map entries =>
    simp only [FieldValue.erase, valueChildren]
    split
    · split
      · exact entryChildren_erase entries
      · rfl
    · rfl

include ignored

/-- The validator does not descend into hidden fields. -/
theorem children_erase : children (message.erase hidden) = (children message).map (eraseChild hidden) := by
  rw [children, fields_erase, children, List.flatMap_map, List.map_flatMap]
  refine congrArg (fun each => message.fields.flatMap each) (funext fun head => ?_)
  obtain ⟨field, value⟩ := head
  simp only [Field.erase, fieldChildren]
  split
  · rfl
  · rename_i descends
    have visible : hidden field = false := by
      refine Bool.eq_false_iff.mpr fun named => descends ?_
      rw [ignored field named, Bool.or_true]
    simp only [FieldValue.left, visible, Bool.false_eq_true, ↓reduceIte]
    exact valueChildren_erase value

end Children

end Reading
end Protovalidate.Validate
