import Protovalidate.Validate.IgnoredRules
import Protovalidate.Validate.TwoRuns

/-! What the rules of a field see of two messages of which the same is left without the
contents of ignored fields. -/

namespace Protovalidate.Validate

open Foundation Check

section Assumptions

/-- The message types that the CEL runtime shows as something else. -/
def convertedTypes : List String :=
  ["google.protobuf.Any", "google.protobuf.BoolValue", "google.protobuf.BytesValue", "google.protobuf.DoubleValue",
    "google.protobuf.Duration", "google.protobuf.FloatValue", "google.protobuf.Int32Value", "google.protobuf.Int64Value",
    "google.protobuf.ListValue", "google.protobuf.StringValue", "google.protobuf.Struct", "google.protobuf.Timestamp",
    "google.protobuf.UInt32Value", "google.protobuf.UInt64Value", "google.protobuf.Value"]

/-- All other messages are shown as they are. -/
structure ShowsMessages (runtime : Runtime) : Prop where
  single : ∀ field (message : Message), message.descriptor.fullName ∉ convertedTypes →
    runtime.createValueFromSingleField field (some (.message message)) = .ok (.message message)
  item : ∀ field (message : Message), message.descriptor.fullName ∉ convertedTypes →
    runtime.listItem field (.message message) = .message message
  value : ∀ field (message : Message), message.descriptor.fullName ∉ convertedTypes →
    runtime.mapValue field (.message message) = .message message

/-- What protobuf guarantees: fields of a type have different numbers, and the types
that are converted are its own, have no rules and hold messages of each other only. -/
structure Standard (pool : DescriptorPool) : Prop where
  numbers : ∀ type : MessageType pool, (type.allFields.map fun field => field.number).Nodup
  converted : ∀ type : MessageType pool, type.fullName ∈ convertedTypes → ∀ field ∈ type.allFields,
    field.options = none ∧ ∀ next, pool.elementType field = some next → next.fullName ∈ convertedTypes

end Assumptions

section Reading

variable (runtime : Runtime) (hidden : FieldDescriptor → Bool) (message : Message)

/-- The rules of a list or a map that do not read the contents of its elements. -/
structure ReadsNoContents (base : FieldValidationRules) : Prop where
  list : ∀ values values', values.map Value.emptied = values'.map Value.emptied →
    BlindRules runtime base.toCelValidationRules (runtime.createList base.field values)
      (runtime.createList base.field values')
  map : ∀ entries entries', entries.map Entry.emptied = entries'.map Entry.emptied →
    BlindRules runtime base.toCelValidationRules (runtime.createMap base.field entries)
      (runtime.createMap base.field entries')

/-- The rules of a hidden field do not read what is ignored, and other fields through
which hidden ones are reached have no CEL rules for themselves, their items or values. -/
def FieldRuleSet.Unread (rules : FieldRuleSet) : Prop :=
  if hidden rules.base.field then ReadsNoContents runtime rules.base
  else (∃ value, message.find rules.base.field = some value ∧ value.holds hidden = true) →
    rules.base.exprs = [] ∧ ∀ inner, rules.elementRules = some inner → inner.base.exprs = []

/-- No CEL rule reads what is ignored. -/
def ValidationRules.Unread : ValidationRules → Prop
  | .message rules => message.holds hidden = true → rules.exprs = []
  | .field rules => rules.Unread runtime hidden message
  | _ => True

end Reading

section Types

variable {pool : DescriptorPool} (standard : Standard pool) {hidden : FieldDescriptor → Bool}
variable (ignored : ∀ field, hidden field = true → ignoresAlways field = true)
variable {type : MessageType pool} {message : Message} {field : FieldDescriptor}

include standard

omit standard in
theorem DescriptorPool.elementType_fullName {next : MessageType pool} (found : pool.elementType field = some next)
    (notMap : field.isMap = false) : next.fullName = field.messageType := by
  unfold DescriptorPool.elementType at found
  unfold FieldDescriptor.isMap at notMap
  cases shape : field.shape with
  | map keyField valueField valid =>
    rw [shape] at notMap
    cases notMap
  | _ =>
    rw [shape] at found
    have named : (next.descriptor.fullName == field.messageType) = true := by
      simpa using List.find?_some found
    exact beq_iff_eq.mp named

theorem Conforms.owns (conforms : Conforms type message) (declared : field ∈ type.descriptor.fields) : Owns message field := by
  intro own value present number
  cases conforms with
  | mk _ fields =>
    exact List.inj_on_of_nodup_map (standard.numbers type) (fields own value present)
      (List.mem_append_left _ declared) number

include ignored

/-- None of the types that are converted holds a hidden field. -/
theorem Conforms.not_holds (conforms : Conforms type message) (converted : type.fullName ∈ convertedTypes) :
    message.holds hidden = false := by
  induction conforms with
  | @mk type message descriptor declared known typed ih =>
    refine Bool.eq_false_iff.mpr fun holds => ?_
    obtain ⟨field, value, present, either⟩ := Message.holds_iff.mp holds
    obtain ⟨unset, inside⟩ := standard.converted type converted field (declared field value present)
    rcases either with named | below
    · have always := ignored field named
      rw [ignoresAlways, unset] at always
      cases always
    · obtain ⟨inner, member, holds⟩ := FieldValue.holds_iff.mp below
      obtain ⟨next, found⟩ := known field value present inner member
      rw [ih field value present inner member next found (inside next found)] at holds
      cases holds

/-- Messages that hold a hidden field are not converted, nor is their field for `Any`. -/
theorem Conforms.ordinary (conforms : Conforms type message) {value : FieldValue} {inner : Message}
    (present : Field.mk field value ∈ message.fields) (member : .message inner ∈ value.values)
    (holds : inner.holds hidden = true) :
    inner.descriptor.fullName ∉ convertedTypes ∧ (field.isMap = false → field.messageType ∉ convertedTypes) := by
  cases conforms with
  | mk _ _ known typed =>
    obtain ⟨next, found⟩ := known field value present inner member
    have conforms := typed field value present inner member next found
    have plain : next.fullName ∉ convertedTypes := fun converted => by
      rw [conforms.not_holds standard ignored converted] at holds
      cases holds
    refine ⟨conforms.descriptor_eq ▸ plain, fun notMap => ?_⟩
    rwa [← DescriptorPool.elementType_fullName found notMap]

end Types

section Values

variable {runtime : Runtime} {hidden : FieldDescriptor → Bool} {base items : FieldValidationRules}
variable {message message' : Message}

/-- A value of a field is not converted if it holds a hidden field. -/
def Ordinary (hidden : FieldDescriptor → Bool) (field : FieldDescriptor) (value : Value) : Prop :=
  ∀ inner, value = .message inner → inner.holds hidden = true →
    inner.descriptor.fullName ∉ convertedTypes ∧ (field.isMap = false → field.messageType ∉ convertedTypes)

/-- Values of which the same is left are equal, or messages that are shown as they are. -/
theorem Ordinary.cases {field : FieldDescriptor} {value value' : Value} (ordinary : Ordinary hidden field value)
    (left : value.erase hidden = value'.erase hidden) :
    value = value' ∨ (∃ inner inner', value = .message inner ∧ value' = .message inner' ∧
      inner.descriptor.fullName ∉ convertedTypes ∧ inner'.descriptor.fullName ∉ convertedTypes) ∧
        (field.isMap = false → field.messageType ≠ "google.protobuf.Any") := by
  obtain same | ⟨inner, inner', rfl, rfl, inside, holds⟩ := Value.erase_cases left
  · exact .inl same
  · obtain ⟨plain, plainField⟩ := ordinary inner rfl holds
    refine .inr ⟨⟨inner, inner', rfl, rfl, plain, descriptor_alike inside ▸ plain⟩, fun notMap isAny => ?_⟩
    exact plainField notMap (isAny ▸ List.mem_cons_self)

variable (shows : ShowsMessages runtime)

include shows

theorem itemAlike_of_erase {value value' : Value} (left : value.erase hidden = value'.erase hidden)
    (ordinary : Ordinary hidden base.field value) (silent : items.exprs = []) (notMap : base.field.isMap = false)
    (any : items.anyRules ≠ none → base.field.messageType = "google.protobuf.Any") :
    ItemAlike runtime base items value value' := by
  obtain rfl | ⟨⟨inner, inner', rfl, rfl, plain, plain'⟩, notAny⟩ := ordinary.cases left
  · exact ⟨rfl, blindRules_self, fun _ => rfl⟩
  · refine ⟨?_, blindRules_of_nil silent, fun present => absurd (any present) (notAny notMap)⟩
    rw [shows.item _ inner plain, shows.item _ inner' plain']
    rfl

theorem entryAlike_of_erase {valueInfo : FieldInfo} {valueRules : Option FieldRuleSet} {entry entry' : Entry}
    (left : entry.erase hidden = entry'.erase hidden) (ordinary : Ordinary hidden base.field entry.value)
    (silent : ∀ rules, valueRules = some rules → rules.base.exprs = []) :
    EntryAlike runtime valueInfo valueRules entry entry' := by
  obtain ⟨key, value⟩ := entry
  obtain ⟨key', value'⟩ := entry'
  rw [Entry.erase, Entry.erase] at left
  obtain ⟨rfl, below⟩ := Entry.mk.inj left
  rw [Entry.value] at ordinary
  obtain rfl | ⟨⟨inner, inner', rfl, rfl, plain, plain'⟩, -⟩ := ordinary.cases below
  · exact ⟨rfl, fun _ => rfl, fun _ _ => blindRules_self⟩
  · refine ⟨rfl, fun _ => ?_, fun rules same => blindRules_of_nil (silent rules same)⟩
    simp only [Entry.value]
    rw [shows.value _ inner plain, shows.value _ inner' plain']
    rfl

end Values

section Fields

variable {runtime : Runtime} {hidden : FieldDescriptor → Bool} {message message' : Message}

section Equal

variable {field : FieldDescriptor} (same : message.find field = message'.find field)

include same

theorem single_of_find : message.single field = message'.single field := by
  rw [Message.single, same, Message.single]

theorem elements_of_find : message.elements field = message'.elements field := by
  rw [Message.elements, same, Message.elements]

theorem entries_of_find : message.entries field = message'.entries field := by
  rw [Message.entries, same, Message.entries]

end Equal

/-- A field with the same value in both messages. -/
theorem fieldAlike_of_find {base : FieldValidationRules} (same : message.find base.field = message'.find base.field) :
    FieldAlike runtime base message message' where
  present := by rw [Message.hasField, same, Message.hasField]
  any _ _ := by rw [FieldValidationRules.getMessage, single_of_find same, FieldValidationRules.getMessage]
  value _ := by
    rw [single_of_find same]
    exact converts_self _
  noElements := by rw [elements_of_find same]
  list _ := by
    rw [elements_of_find same]
    exact blindRules_self
  noEntries := by rw [entries_of_find same]
  map _ := by
    rw [entries_of_find same]
    exact blindRules_self

theorem ruleSet_twin_of_find {rules : FieldRuleSet} (same : message.find rules.base.field = message'.find rules.base.field) :
    Twin Eq (rules.validate runtime message) (rules.validate runtime message') := by
  have alike : FieldAlike runtime rules.base message message' := fieldAlike_of_find same
  cases rules with
  | field base => exact fieldValidate_twin alike
  | enum base enumRules =>
    refine enumValidate_twin alike enumRules ?_
    rw [Message.getEnumValue, single_of_find same, Message.getEnumValue]
  | repeated base itemRules =>
    refine repeatedValidate_twin alike fun rules _ => ?_
    rw [show message.elements base.field = message'.elements base.field from elements_of_find same]
    exact List.forall₂_same.mpr fun _ _ => ⟨rfl, blindRules_self, fun _ => rfl⟩
  | map base keyRules valueRules =>
    refine mapValidate_twin alike fun _ _ _ _ => ?_
    rw [show message.entries base.field = message'.entries base.field from entries_of_find same]
    exact List.forall₂_same.mpr fun _ _ => ⟨rfl, fun _ => rfl, fun _ _ => blindRules_self⟩

end Fields

section Quiet

variable {runtime : Runtime} {hidden : FieldDescriptor → Bool} {base : FieldValidationRules} {message message' : Message}

/-- A field whose values are not converted where they hold hidden fields. -/
def OrdinaryIn (hidden : FieldDescriptor → Bool) (message : Message) (field : FieldDescriptor) : Prop :=
  ∀ value, message.find field = some value → ∀ held ∈ value.values, Ordinary hidden field held

theorem OrdinaryIn.single {field : FieldDescriptor} {value : Value} (ordinary : OrdinaryIn hidden message field)
    (found : message.single field = some value) : Ordinary hidden field value := by
  unfold Message.single at found
  split at found
  · rename_i held present
    cases found
    exact ordinary _ present _ List.mem_cons_self
  · cases found

theorem OrdinaryIn.elements {field : FieldDescriptor} (ordinary : OrdinaryIn hidden message field) :
    ∀ value ∈ message.elements field, Ordinary hidden field value := by
  unfold Message.elements
  split
  · rename_i values present
    exact ordinary _ present
  · exact fun _ impossible => by cases impossible

theorem OrdinaryIn.entries {field : FieldDescriptor} (ordinary : OrdinaryIn hidden message field) :
    ∀ entry ∈ message.entries field, Ordinary hidden field entry.value := by
  unfold Message.entries
  split
  · rename_i entries present
    exact fun entry member => ordinary _ present _ (List.mem_map_of_mem member)
  · exact fun _ impossible => by cases impossible

variable (shows : ShowsMessages runtime) (same : message.erase hidden = message'.erase hidden)
variable (owns : Owns message base.field) (visible : hidden base.field = false)
variable (ordinary : OrdinaryIn hidden message base.field)

include same owns visible

theorem elements_alike : (message.elements base.field).map (Value.erase hidden) =
    (message'.elements base.field).map (Value.erase hidden) := by
  rw [← elements_erase owns visible, same, elements_erase (owns_alike same owns) visible]

theorem entries_alike : (message.entries base.field).map (Entry.erase hidden) =
    (message'.entries base.field).map (Entry.erase hidden) := by
  rw [← entries_erase owns visible, same, entries_erase (owns_alike same owns) visible]

include ordinary

theorem single_alike : message.single base.field = message'.single base.field ∨
    (∃ inner inner', message.single base.field = some (.message inner) ∧
      message'.single base.field = some (.message inner') ∧ inner.descriptor.fullName ∉ convertedTypes ∧
        inner'.descriptor.fullName ∉ convertedTypes) ∧
      (base.field.isMap = false → base.field.messageType ≠ "google.protobuf.Any") := by
  have left : (message.single base.field).map (Value.erase hidden) = (message'.single base.field).map (Value.erase hidden) := by
    rw [← single_erase owns visible, same, single_erase (owns_alike same owns) visible]
  cases found : message.single base.field with
  | none =>
    rw [found, Option.map_none] at left
    exact .inl (Option.map_eq_none_iff.mp left.symm).symm
  | some value =>
    rw [found, Option.map_some] at left
    obtain ⟨value', found', below⟩ := Option.map_eq_some_iff.mp left.symm
    obtain rfl | ⟨⟨inner, inner', rfl, rfl, plain⟩, notAny⟩ := (ordinary.single found).cases below.symm
    · exact .inl found'.symm
    · exact .inr ⟨⟨inner, inner', rfl, found', plain⟩, notAny⟩

theorem getEnumValue_alike : message.getEnumValue base.field = message'.getEnumValue base.field := by
  unfold Message.getEnumValue
  obtain equal | ⟨⟨inner, inner', found, found', -⟩, -⟩ := single_alike same owns visible ordinary
  · rw [equal]
  · rw [found, found']

include shows

/-- A field without CEL rules of its own. -/
theorem fieldAlike_of_erase (silent : base.exprs = [])
    (any : base.anyRules ≠ none → base.field.messageType = "google.protobuf.Any") :
    FieldAlike runtime base message message' where
  present := hasField_alike same base.field
  any shape present := by
    obtain equal | ⟨-, notAny⟩ := single_alike same owns visible ordinary
    · rw [FieldValidationRules.getMessage, equal, FieldValidationRules.getMessage]
    · exact absurd (any present) (notAny (by rw [FieldDescriptor.isMap, shape]))
  value _ := by
    obtain equal | ⟨⟨inner, inner', found, found', plain, plain'⟩, -⟩ := single_alike same owns visible ordinary
    · rw [equal]
      exact converts_self _
    · rw [found, found', shows.single _ inner plain, shows.single _ inner' plain']
      exact .shows (blindRules_of_nil silent)
  noElements := by
    rw [← List.isEmpty_map, elements_alike same owns visible, List.isEmpty_map]
  list _ := blindRules_of_nil silent
  noEntries := by
    rw [← List.isEmpty_map, entries_alike same owns visible, List.isEmpty_map]
  map _ := blindRules_of_nil silent

end Quiet

section Rules

variable {runtime : Runtime} {hidden : FieldDescriptor → Bool} {context : BuildContext} {fieldLvl : FieldRules}
variable {rules : FieldRuleSet} {message message' : Message}
variable (built : BuiltFor context rules.base.field fieldLvl rules) (same : message.erase hidden = message'.erase hidden)
variable (owns : Owns message rules.base.field)

include built same owns

/-- A field through which hidden ones are reached. -/
theorem ruleSet_twin_quiet (shows : ShowsMessages runtime) (visible : hidden rules.base.field = false)
    (ordinary : OrdinaryIn hidden message rules.base.field) (silent : rules.base.exprs = [])
    (silentInside : ∀ inner, rules.elementRules = some inner → inner.base.exprs = []) :
    Twin Eq (rules.validate runtime message) (rules.validate runtime message') := by
  have alike := fieldAlike_of_erase shows same owns visible ordinary silent built.any
  cases rules with
  | field base => exact fieldValidate_twin alike
  | enum base enumRules =>
    exact enumValidate_twin alike enumRules (getEnumValue_alike same owns visible ordinary)
  | repeated base itemRules =>
    refine repeatedValidate_twin alike fun inner present => ?_
    subst present
    have notMap : base.field.isMap = false := by
      cases built with
      | value _ _ _ alone => cases alone
      | repeated _ shape => rw [FieldDescriptor.isMap, show base.field.shape = .repeated from shape]
    refine (forall₂_of_map_eq (elements_alike same owns visible)).imp fun value value' pair => ?_
    exact itemAlike_of_erase shows pair.2 (ordinary.elements value pair.1) (silentInside inner rfl) notMap built.items
  | map base keyRules valueRules =>
    refine mapValidate_twin alike fun _ _ _ _ => ?_
    refine (forall₂_of_map_eq (entries_alike same owns visible)).imp fun entry entry' pair => ?_
    exact entryAlike_of_erase shows pair.2 (ordinary.entries entry pair.1) silentInside

/-- A hidden field with ignored elements. -/
theorem ruleSet_twin_hidden (named : hidden rules.base.field = true) (inside : ignoredWhole rules.base.field = false)
    (ignored : ignoresAlways rules.base.field = true) {options : FieldRules} (set : rules.base.field.options = some options)
    (kind : fieldLvl.type = options.type) (reads : ReadsNoContents runtime rules.base) :
    Twin Eq (rules.validate runtime message) (rules.validate runtime message') := by
  obtain ⟨alone, plural⟩ := built.ignored set kind ignored inside
  have elements : (message.elements rules.base.field).map Value.emptied =
      (message'.elements rules.base.field).map Value.emptied := by
    rw [← elements_emptied owns named inside, same, elements_emptied (owns_alike same owns) named inside]
  have entries : (message.entries rules.base.field).map Entry.emptied =
      (message'.entries rules.base.field).map Entry.emptied := by
    rw [← entries_emptied owns named inside, same, entries_emptied (owns_alike same owns) named inside]
  have alike : FieldAlike runtime rules.base message message' := {
    present := hasField_alike same rules.base.field
    any := fun shape => absurd shape plural
    value := fun shape => absurd shape plural
    noElements := by rw [← List.isEmpty_map, elements, List.isEmpty_map]
    list := fun _ => reads.list _ _ elements
    noEntries := by rw [← List.isEmpty_map, entries, List.isEmpty_map]
    map := fun _ => reads.map _ _ entries }
  obtain ⟨base, rfl⟩ | ⟨base, keyRules, rfl⟩ := alone
  · change Twin Eq (RepeatedValidationRules.validate runtime base message none)
      (RepeatedValidationRules.validate runtime base message' none)
    refine repeatedValidate_twin alike fun rules impossible => ?_
    cases impossible
  · refine mapValidate_twin alike fun _ _ _ _ => ?_
    refine (forall₂_of_map_eq entries).imp fun entry entry' pair => ?_
    obtain ⟨key, value⟩ := entry
    obtain ⟨key', value'⟩ := entry'
    exact ⟨(Entry.mk.inj pair.2).1, fun present => absurd rfl present, fun _ impossible => by cases impossible⟩

end Rules

end Protovalidate.Validate
