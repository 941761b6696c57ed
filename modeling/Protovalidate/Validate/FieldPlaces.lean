import Protovalidate.Validate.RulePaths

/-! Field paths read from the message that is validated, and the field values of the
violations against what they lead to. -/

namespace Protovalidate.Validate

open Foundation Check

section Reading

/-- A path element leads from a message to one in a field with its number: to its only
value, to the item at an index, or to the value at a key. -/
inductive GoesTo (message : Message) (element : FieldPathElement) : Message → Prop where
  | singular {field : FieldDescriptor} {sub : Message} (present : .mk field (.singular (.message sub)) ∈ message.fields)
      (number : element.fieldNumber = some field.number) (whole : element.subscript = none) : GoesTo message element sub
  | item {field : FieldDescriptor} {values : List Value} {index : Nat} {sub : Message}
      (present : .mk field (.repeated values) ∈ message.fields) (number : element.fieldNumber = some field.number)
      (subscript : element.subscript = some (.index index)) (listed : values[index]? = some (.message sub)) :
      GoesTo message element sub
  | entry {field : FieldDescriptor} {entries : List Entry} {keyInfo valueInfo : FieldInfo}
      {valid : keyInfo.type.isMapKey = true} {key : Scalar} {sub : Message}
      (present : .mk field (.map entries) ∈ message.fields) (number : element.fieldNumber = some field.number)
      (shape : field.shape = .map keyInfo valueInfo valid) (subscript : element.subscript = keySubscript keyInfo.type key)
      (listed : .mk key (.message sub) ∈ entries) : GoesTo message element sub

/-- What a path leads to: a field of a message, an item of it, or the value of an entry,
or its key, if that is what is asked for. -/
inductive Locates : Message → FieldPath → Bool → ProtoField → Prop where
  | field {message : Message} {element : FieldPathElement} {field : FieldDescriptor}
      (declared : field ∈ message.descriptor.fields) (number : element.fieldNumber = some field.number)
      (whole : element.subscript = none) :
      Locates message [element] false { message := .message message, descriptor := field.toFieldInfo }
  | item {message : Message} {element : FieldPathElement} {field : FieldDescriptor} {index : Nat}
      (declared : field ∈ message.descriptor.fields) (number : element.fieldNumber = some field.number)
      (subscript : element.subscript = some (.index index)) (within : index < (message.elements field).length) :
      Locates message [element] false { message := .message message, descriptor := field.toFieldInfo, index := some index }
  | value {message : Message} {element : FieldPathElement} {field : FieldDescriptor} {keyInfo valueInfo : FieldInfo}
      {valid : keyInfo.type.isMapKey = true} {entry : Entry} (declared : field ∈ message.descriptor.fields)
      (number : element.fieldNumber = some field.number) (shape : field.shape = .map keyInfo valueInfo valid)
      (subscript : element.subscript = keySubscript keyInfo.type entry.key) (listed : entry ∈ message.entries field) :
      Locates message [element] false { message := .entry entry, descriptor := valueInfo }
  | key {message : Message} {element : FieldPathElement} {field : FieldDescriptor} {keyInfo valueInfo : FieldInfo}
      {valid : keyInfo.type.isMapKey = true} {entry : Entry} (declared : field ∈ message.descriptor.fields)
      (number : element.fieldNumber = some field.number) (shape : field.shape = .map keyInfo valueInfo valid)
      (subscript : element.subscript = keySubscript keyInfo.type entry.key) (listed : entry ∈ message.entries field) :
      Locates message [element] true { message := .entry entry, descriptor := keyInfo }
  | deeper {message sub : Message} {element : FieldPathElement} {path : FieldPath} {forKey : Bool} {value : ProtoField}
      (goes : GoesTo message element sub) (inside : Locates sub path forKey value) :
      Locates message (element :: path) forKey value

variable {message sub : Message} {element : FieldPathElement} {field : FieldDescriptor}

theorem itemChildren_listed {start : Nat} {values : List Value} (member : (element, sub) ∈ itemChildren field start values) :
    ∃ index, element = (fieldPathElement field.toFieldInfo).setIndex (start + index) ∧ values[index]? = some (.message sub) := by
  induction values generalizing start with
  | nil => cases member
  | cons value values ih =>
    have later (member : (element, sub) ∈ itemChildren field (start + 1) values) :
        ∃ index, element = (fieldPathElement field.toFieldInfo).setIndex (start + index) ∧
          (value :: values)[index]? = some (.message sub) := by
      obtain ⟨index, same, listed⟩ := ih member
      exact ⟨index + 1, by rw [same, Nat.add_right_comm, Nat.add_assoc], listed⟩
    cases value with
    | message message =>
      rcases List.mem_cons.mp member with same | member
      · cases same
        exact ⟨0, rfl, rfl⟩
      · exact later member
    | scalar _ => exact later member

theorem entryChildren_listed {keyInfo valueInfo : FieldInfo} {entries : List Entry}
    (member : (element, sub) ∈ entryChildren field keyInfo valueInfo entries) :
    ∃ key, element = entryPathElement field.toFieldInfo keyInfo valueInfo key ∧ .mk key (.message sub) ∈ entries := by
  induction entries with
  | nil => cases member
  | cons entry entries ih =>
    obtain ⟨key, value⟩ := entry
    cases value with
    | message message =>
      rcases List.mem_cons.mp member with same | member
      · cases same
        exact ⟨key, rfl, List.mem_cons_self⟩
      · obtain ⟨key, same, listed⟩ := ih member
        exact ⟨key, same, List.mem_cons_of_mem _ listed⟩
    | scalar _ =>
      obtain ⟨key, same, listed⟩ := ih member
      exact ⟨key, same, List.mem_cons_of_mem _ listed⟩

/-- The path element of a child leads to it. -/
theorem children_goesTo (member : (element, sub) ∈ children message) : GoesTo message element sub := by
  obtain ⟨⟨field, value⟩, present, inField⟩ := List.mem_flatMap.mp member
  simp only [fieldChildren] at inField
  split at inField
  · cases inField
  · cases value with
    | singular value =>
      cases value with
      | message message =>
        cases List.mem_singleton.mp inField
        exact .singular present rfl rfl
      | scalar _ => cases inField
    | repeated values =>
      obtain ⟨index, rfl, listed⟩ := itemChildren_listed inField
      exact .item present rfl (congrArg (fun index => some (Subscript.index index)) (Nat.zero_add index)) listed
    | map entries =>
      simp only [valueChildren] at inField
      cases shape : field.shape with
      | map keyInfo valueInfo valid =>
        simp only [shape] at inField
        split at inField
        · obtain ⟨key, rfl, listed⟩ := entryChildren_listed inField
          exact .entry present rfl shape rfl listed
        · cases inField
      | _ =>
        rw [shape] at inField
        cases inField

theorem Below.locates {path rest : FieldPath} {forKey : Bool} {value : ProtoField} (below : Below message path sub)
    (inside : Locates sub rest forKey value) : Locates message (path ++ rest) forKey value := by
  induction below with
  | here => exact inside
  | child member _ ih => exact .deeper (children_goesTo member) (ih inside)

end Reading

section Findings

variable {seen : Event → Prop} {context : BuildContext} {message : Message} {field : FieldDescriptor} {level : FieldRules}
  {violation : RuleViolation} {value : ProtoField}

/-- A violation for a key whose field value is the value of the entry, the second field
of the type of an entry. -/
def Mislabeled (violation : RuleViolation) : Prop :=
  violation.proto.forKey = true ∧ ∃ value, violation.fieldValue = some value ∧ value.descriptor.number = 2

/-- The fields of the type of an entry. -/
def EntryShape (field : FieldDescriptor) : Prop :=
  ∀ keyInfo valueInfo valid, field.shape = .map keyInfo valueInfo valid → keyInfo.number = 1 ∧ valueInfo.number = 2

/-- The field value is what the path of one element leads to, unless it is mislabeled. -/
def Placed (message : Message) (violation : RuleViolation) : Prop :=
  ∃ element, violation.proto.field = some [element] ∧ ∀ value, violation.fieldValue = some value →
    Locates message [element] violation.proto.forKey value ∨ Mislabeled violation

theorem placed_base (declared : field ∈ message.descriptor.fields) {rules : FieldRuleSet}
    (built : newFieldRules context field level = .ok (some rules))
    (found : FieldFound seen context.runtime message rules.base violation) : Placed message violation := by
  have about := about_field built found
  obtain ⟨cel, base⟩ := newFieldRules_base built
  rw [base] at found
  refine ⟨_, about.place, fun value set => .inl ?_⟩
  have same : value = { message := .message message, descriptor := field.toFieldInfo } := by
    cases found with
    | required => exact (Option.some.inj set).symm
    | any _ _ found => cases found <;> exact (Option.some.inj set).symm
    | cel _ found => exact (Option.some.inj set).symm
  rw [about.forKey, same]
  exact .field declared rfl rfl

theorem placed_item {base : FieldValidationRules} {rules : FieldRuleSet} {item : Nat × Value}
    (declared : base.field ∈ message.descriptor.fields)
    (member : item ∈ RepeatedValidationRules.checked context.runtime base rules.base (message.elements base.field))
    (found : ItemFound seen context.runtime message base rules.base item violation) : Placed message violation := by
  have within : item.1 < (message.elements base.field).length := by
    obtain ⟨within, -⟩ := List.getElem?_eq_some_iff.mp (checked_inside member)
    exact within
  have placed {inner : RuleViolation} (plain : Plain inner) :
      Placed message (RepeatedValidationRules.placed context.runtime base message item.1 inner) := by
    refine ⟨(fieldPathElement base.field.toFieldInfo).setIndex item.1, ?_, fun value set => .inl ?_⟩
    · simp only [RepeatedValidationRules.placed, RuleViolation.setFieldValue, RuleViolation.appendRulePathElement,
        RuleViolation.appendFieldPathElement, plain.pathless]
      rfl
    · cases set
      have notKey : (RepeatedValidationRules.placed context.runtime base message item.1 inner).proto.forKey = false := plain.forKey
      rw [notKey]
      exact .item declared rfl rfl within
  cases found with
  | any _ found => exact placed found.plain
  | cel found => exact placed found.plain

theorem placed_entry {base : FieldValidationRules} {keyRules valueRules : Option FieldRuleSet}
    {keyInfo valueInfo : FieldInfo} {valid : keyInfo.type.isMapKey = true} {keys : List CelValue} {entry : Entry}
    {key : CelValue} (declared : base.field ∈ message.descriptor.fields) (fields : EntryShape base.field)
    (shape : base.field.shape = .map keyInfo valueInfo valid) (member : (entry, key) ∈ (message.entries base.field).zip keys)
    (found : EntryFound seen context.runtime keyInfo valueInfo keyRules valueRules entry key violation) :
    Placed message (entryPlaced base keyInfo valueInfo entry violation) := by
  have listed := (List.of_mem_zip member).1
  refine ⟨entryPathElement base.field.toFieldInfo keyInfo valueInfo entry.key, ?_, fun value set => ?_⟩
  · have pathless : violation.proto.field = none := by
      cases found with
      | key _ found => exact found.plain.pathless
      | crossed _ found => exact found.plain.pathless
      | value _ found => exact found.plain.pathless
    simp only [entryPlaced, RuleViolation.appendFieldPathElement, pathless]
    rfl
  · cases found with
    | key _ found =>
      cases set
      exact .inl (.key declared rfl shape rfl listed)
    | crossed _ found => exact .inr ⟨rfl, _, rfl, (fields keyInfo valueInfo valid shape).2⟩
    | @value rules inner _ found =>
      cases set
      have notKey : (entryPlaced base keyInfo valueInfo entry ((MapValidationRules.rulePath context.runtime .values
          inner).setFieldValue { message := .entry entry, descriptor := valueInfo })).proto.forKey = false := found.plain.forKey
      rw [notKey]
      exact .inl (.value declared rfl shape rfl listed)

/-- The violations of the rules of a field are placed. -/
theorem placed_rule {rules : FieldRuleSet} (declared : field ∈ message.descriptor.fields) (fields : EntryShape field)
    (built : newFieldRules context field level = .ok (some rules))
    (found : RuleFound seen context.runtime message (.field rules) violation) : Placed message violation := by
  have place := (newFieldRules_cases built).place
  cases found with
  | field found => exact placed_base declared built found
  | enum only undefined =>
    change _ = field at place
    subst place
    refine ⟨_, rfl, fun value set => .inl ?_⟩
    cases set
    exact .field declared rfl rfl
  | item member found =>
    change _ = field at place
    subst place
    exact placed_item declared member found
  | entry shape read member found =>
    change _ = field at place
    subst place
    exact placed_entry declared fields shape member found

end Findings

section Runs

variable {pool : DescriptorPool} {context : BuildContext} {type : MessageType pool} {message sub : Message}
  {element : FieldPathElement} {violation : RuleViolation}

/-- What protobuf guarantees of maps: their entries have the key as field 1 and the value
as field 2. -/
def EntryFields (pool : DescriptorPool) : Prop := ∀ type : MessageType pool, ∀ field ∈ type.descriptor.fields, EntryShape field

/-- The field value, if there is one, is what the field path leads to. -/
def AtItsPlace (message : Message) (violation : RuleViolation) : Prop := ∀ value, violation.fieldValue = some value →
  ∃ path, violation.proto.field = some path ∧ Locates message path violation.proto.forKey value

theorem GoesTo.conforms (goes : GoesTo message element sub) (conforms : Conforms type message) :
    ∃ next : MessageType pool, Conforms next sub := by
  cases conforms with
  | mk descriptor declared known typed =>
    have reached {field : FieldDescriptor} {value : FieldValue} (present : .mk field value ∈ message.fields)
        (inside : .message sub ∈ value.values) : ∃ next : MessageType pool, Conforms next sub := by
      obtain ⟨next, found⟩ := known field value present sub inside
      exact ⟨next, typed field value present sub inside next found⟩
    cases goes with
    | singular present => exact reached present (List.mem_singleton.mpr rfl)
    | item present _ _ listed => exact reached present (List.mem_of_getElem? listed)
    | entry present _ _ _ listed => exact reached present (List.mem_map.mpr ⟨_, listed, rfl⟩)

/-- A path leads to a key by the first field of an entry only. -/
theorem Locates.key_number (fields : EntryFields pool) {path : FieldPath} {value : ProtoField}
    (locates : Locates message path true value) (conforms : Conforms type message) : value.descriptor.number = 1 := by
  generalize isKey : true = forKey at locates
  induction locates generalizing type with
  | field => cases isKey
  | item => cases isKey
  | value => cases isKey
  | key declared _ shape =>
    rw [conforms.descriptor_eq] at declared
    exact (fields type _ declared _ _ _ shape).1
  | deeper goes _ ih =>
    obtain ⟨next, conforms⟩ := goes.conforms conforms
    exact ih conforms isKey

theorem Mislabeled.misplaced (fields : EntryFields pool) (conforms : Conforms type message)
    (mislabeled : Mislabeled violation) : ¬AtItsPlace message violation := by
  intro place
  obtain ⟨forKey, value, set, number⟩ := mislabeled
  obtain ⟨path, -, locates⟩ := place value set
  rw [forKey] at locates
  have first := locates.key_number fields conforms
  omega

/-- The frames around a message change nothing about it. -/
theorem mislabeled_finalize (path : FieldPath) : Mislabeled (under path violation).finalize ↔ Mislabeled violation := by
  rw [Mislabeled, finalize_forKey, finalize_fieldValue]
  rfl

theorem CelFound.valueless {seen : Event → Prop} {cel : CelValidationRules} {this : CelValue}
    (found : CelFound seen cel this violation) : violation.fieldValue = none := by
  obtain ⟨member, evaluated, violated, bound⟩ := found
  unfold CelValidationRules.ruleValueOf
  split <;> rfl

/-- The rules of a message place what they record. -/
theorem RuleFound.placed {seen : Event → Prop} (fields : EntryFields pool) (conforms : Conforms type message)
    {rules : List ValidationRules} {rule : ValidationRules}
    (built : newMessageRules context message.descriptor = .ok rules) (member : rule ∈ rules)
    (found : RuleFound seen context.runtime message rule violation) (set : violation.fieldValue ≠ none) :
    Placed message violation := by
  cases rule with
  | message cel =>
    cases found with
    | message found => exact absurd found.valueless set
  | messageOneof fields required =>
    cases found
    exact absurd rfl set
  | oneof descriptor required =>
    cases found
    exact absurd rfl set
  | field rules =>
    obtain ⟨names, field, declared, memberBuilt⟩ := newMessageRules_field built member
    obtain ⟨level, -, fieldBuilt⟩ := newMemberRules_options memberBuilt
    have shape : EntryShape field := fields type field (conforms.descriptor_eq ▸ declared)
    exact placed_rule declared shape fieldBuilt found

/-- A violation that is returned is at its place unless it is mislabeled. -/
theorem atItsPlace_iff {history : List (Operation pool)} {failFast : Bool} {violations : List RuleViolation}
    (fields : EntryFields pool) (conforms : Conforms type message)
    (returned : Validator.validate ((performAll context {} history).factory context) failFast message = .ok violations)
    (member : violation ∈ violations) : AtItsPlace message violation ↔ ¬Mislabeled violation := by
  refine ⟨fun place mislabeled => mislabeled.misplaced fields conforms place, fun fine value set => ?_⟩
  have consistent : Consistent context (performAll context {} history) := performAll_consistent history consistent_new
  obtain ⟨entry, ⟨path, sub, rules, below, found, rule, among, inner, finding, rfl⟩, rfl⟩ := validate_originates returned member
  obtain ⟨next, subConforms⟩ := below.conforms conforms
  have built : newMessageRules context sub.descriptor = .ok rules := by
    rw [subConforms.descriptor_eq] at found ⊢
    exact consistent.rulesOf found
  rw [finalize_fieldValue] at set
  obtain ⟨element, place, located⟩ := finding.placed fields subConforms built among (set ▸ Option.some_ne_none value)
  refine ⟨path ++ [element], finalize_field path place, ?_⟩
  rw [finalize_forKey]
  exact below.locates ((located value set).resolve_right fun mislabeled => fine ((mislabeled_finalize path).mpr mislabeled))

end Runs
end Protovalidate.Validate
