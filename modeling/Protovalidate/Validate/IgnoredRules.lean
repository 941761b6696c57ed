import Protovalidate.Validate.Erasure
import Protovalidate.Validate.RuleShape

/-! The rules that are built for a field: they are about that field, and an `IGNORE_ALWAYS`
setting leaves none of the rules that would look at what it ignores. -/

namespace Protovalidate.Validate

section Built

variable {context : BuildContext} {field : FieldDescriptor} {fieldLvl : FieldRules} {rules : FieldRuleSet}

/-- The rules of the items or of the values. -/
def FieldRuleSet.elementRules : FieldRuleSet → Option FieldRuleSet
  | repeated _ itemRules => itemRules
  | map _ _ valueRules => valueRules
  | _ => none

/-- The rules that are built for a field: for its value, or for a list or a map and its
elements. -/
inductive BuiltFor (context : BuildContext) (field : FieldDescriptor) (fieldLvl : FieldRules) : FieldRuleSet → Prop where
  | value {rules : FieldRuleSet} (kind : fieldLvl.type.isElementKind = true) (place : rules.base.field = field)
    (any : rules.base.anyRules ≠ none → field.messageType = "google.protobuf.Any") (alone : rules.elementRules = none) :
    BuiltFor context field fieldLvl rules
  | repeated {base : FieldValidationRules} {itemRules : Option FieldRuleSet} {message : RuleMessage}
    {items : Option FieldRules} (kind : fieldLvl.type = .repeated message items) (shape : field.shape = .repeated)
    (plain : PlainFor field base) (unset : items = none → itemRules = none)
    (built : ∀ inner ∈ items, newFieldRules context field inner = .ok itemRules) :
    BuiltFor context field fieldLvl (.repeated base itemRules)
  | map {base : FieldValidationRules} {keyRules valueRules : Option FieldRuleSet} {message : RuleMessage}
    {keys values : Option FieldRules} {keyInfo valueInfo : FieldInfo} {valid : keyInfo.type.isMapKey = true}
    (kind : fieldLvl.type = .map message keys values) (shape : field.shape = .map keyInfo valueInfo valid)
    (plain : PlainFor field base)
    (built : ∀ inner ∈ values, newFieldRules context (.ofEntry valueInfo) inner = .ok valueRules) :
    BuiltFor context field fieldLvl (.map base keyRules valueRules)

theorem elementRuleSet_any {cel : CelValidationRules} (built : newTypeRules context field fieldLvl fieldLvl.type = .ok rules)
    (present : (elementRuleSet field fieldLvl cel).base.anyRules ≠ none) : field.messageType = "google.protobuf.Any" := by
  rw [elementRuleSet_base] at present
  have fits := newTypeRules_matches built
  cases kind : fieldLvl.type with
  | any message =>
    rw [kind] at fits
    exact fits.2
  | _ => exact absurd (show fieldLvl.type.anyRules = none by rw [kind]; rfl) present

theorem newFieldRules_cases (built : newFieldRules context field fieldLvl = .ok (some rules)) :
    BuiltFor context field fieldLvl rules := by
  obtain always | ⟨typed, typeBuilt, customBuilt⟩ := newFieldRules_built built
  · rw [newFieldRules_always always] at built
    cases built
  by_cases elementary : fieldLvl.type.isElementKind = true
  · obtain ⟨cel, -, rfl, -⟩ := newFieldRules_some elementary built
    refine .value elementary ?_ (elementRuleSet_any typeBuilt) ?_
    · rw [elementRuleSet_base]
      rfl
    · unfold elementRuleSet
      split <;> rfl
  · obtain ⟨cel, -, same⟩ := withCustomRules_built customBuilt
    cases same
    cases kind : fieldLvl.type with
    | repeated message items =>
      rw [kind] at typeBuilt
      obtain ⟨shape, _, itemRules, rfl, -, unset, itemsBuilt⟩ := newTypeRules_repeated typeBuilt
      exact .repeated kind shape (containerBase_plain cel) unset itemsBuilt
    | map message keys values =>
      rw [kind] at typeBuilt
      obtain ⟨keyInfo, valueInfo, valid, shape, _, keyRules, valueRules, rfl, -, -, -, valuesBuilt⟩ :=
        newTypeRules_map typeBuilt
      exact .map kind shape (containerBase_plain cel) valuesBuilt
    | unknown typeCase =>
      rw [kind] at typeBuilt
      cases typeBuilt
    | _ =>
      rw [kind] at elementary
      exact absurd rfl elementary

theorem BuiltFor.place (built : BuiltFor context field fieldLvl rules) : rules.base.field = field := by
  cases built with
  | value _ place => exact place
  | repeated _ _ plain => exact plain.place
  | map _ _ plain => exact plain.place

theorem BuiltFor.any (built : BuiltFor context field fieldLvl rules) (present : rules.base.anyRules ≠ none) :
    field.messageType = "google.protobuf.Any" := by
  cases built with
  | value _ _ any => exact any present
  | repeated _ _ plain => exact absurd plain.any present
  | map _ _ plain => exact absurd plain.any present

/-- Rules for `Any` on the items of a field are about the same field. -/
theorem BuiltFor.items {base : FieldValidationRules} {inner : FieldRuleSet}
    (built : BuiltFor context field fieldLvl (.repeated base (some inner))) (present : inner.base.anyRules ≠ none) :
    field.messageType = "google.protobuf.Any" := by
  cases built with
  | value _ _ _ alone => cases alone
  | @repeated _ _ _ items _ _ _ unset built =>
    cases items with
    | none => cases unset rfl
    | some items => exact (newFieldRules_cases (built items rfl)).any present

/-- A field that is ignored, but not as a whole, has ignored items or values. -/
theorem ignored_elements {options : FieldRules} (set : field.options = some options)
    (ignored : ignoresAlways field = true) (inside : ignoredWhole field = false) :
    (∃ message items, options.type = .repeated message (some items) ∧ items.ignore = .always) ∨
      ∃ message keys values, options.type = .map message keys (some values) ∧ values.ignore = .always := by
  simp only [ignoredWhole, set] at inside
  simp only [ignoresAlways, set, inside, Bool.false_or] at ignored
  split at ignored
  · exact .inl ⟨_, _, ‹_›, beq_iff_eq.mp ignored⟩
  · exact .inr ⟨_, _, _, ‹_›, beq_iff_eq.mp ignored⟩
  · cases ignored

/-- There are no rules for elements that are ignored. -/
theorem BuiltFor.ignored {options : FieldRules} (built : BuiltFor context field fieldLvl rules)
    (set : field.options = some options) (same : fieldLvl.type = options.type) (ignored : ignoresAlways field = true)
    (inside : ignoredWhole field = false) :
    ((∃ base, rules = .repeated base none) ∨ ∃ base keyRules, rules = .map base keyRules none) ∧ field.shape ≠ .singular := by
  obtain ⟨message', items', type, always⟩ | ⟨message', keys', values', type, always⟩ := ignored_elements set ignored inside
  all_goals rw [← same] at type
  · cases built with
    | value kind =>
      rw [type] at kind
      cases kind
    | @repeated base itemRules _ _ kind shape plain unset built =>
      cases kind.symm.trans type
      have none := built items' rfl
      rw [newFieldRules_always always] at none
      cases none
      exact ⟨.inl ⟨base, rfl⟩, by simp [shape]⟩
    | map kind => cases kind.symm.trans type
  · cases built with
    | value kind =>
      rw [type] at kind
      cases kind
    | repeated kind => cases kind.symm.trans type
    | @map base keyRules _ _ _ _ _ _ _ kind shape plain built =>
      cases kind.symm.trans type
      have none := built values' rfl
      rw [newFieldRules_always always] at none
      cases none
      exact ⟨.inr ⟨base, keyRules, rfl⟩, by simp [shape]⟩

end Built

section Members

variable {context : BuildContext} {descriptor : Descriptor} {field : FieldDescriptor} {names : List String}

theorem mapM_ok {ε α β : Type} {each : α → Except ε β} {elements : List α} {results : List β}
    (succeeds : elements.mapM each = .ok results) : ∀ result ∈ results, ∃ element ∈ elements, each element = .ok result := by
  induction elements generalizing results with
  | nil =>
    cases succeeds
    exact fun _ impossible => by cases impossible
  | cons element elements ih =>
    rw [List.mapM_cons] at succeeds
    obtain ⟨first, found, rest⟩ := bind_ok succeeds
    obtain ⟨others, later, same⟩ := bind_ok rest
    cases same
    intro result member
    rcases List.mem_cons.mp member with rfl | member
    · exact ⟨element, List.mem_cons_self, found⟩
    · obtain ⟨element', present, found'⟩ := ih later result member
      exact ⟨element', List.mem_cons_of_mem _ present, found'⟩

theorem mapM_member {ε α β : Type} {each : α → Except ε β} {elements : List α} {results : List β}
    (succeeds : elements.mapM each = .ok results) : ∀ element ∈ elements, ∃ result ∈ results, each element = .ok result := by
  induction elements generalizing results with
  | nil => exact fun _ impossible => by cases impossible
  | cons element elements ih =>
    rw [List.mapM_cons] at succeeds
    obtain ⟨first, found, rest⟩ := bind_ok succeeds
    obtain ⟨others, later, same⟩ := bind_ok rest
    cases same
    intro element' member
    rcases List.mem_cons.mp member with rfl | member
    · exact ⟨first, List.mem_cons_self, found⟩
    · obtain ⟨result, present, found'⟩ := ih later element' member
      exact ⟨result, List.mem_cons_of_mem _ present, found'⟩

/-- The override of a message-level oneof leaves an `IGNORE_ALWAYS` setting alone. -/
theorem newMemberRules_built {rules : ValidationRules} (built : newMemberRules context names field = .ok (some rules)) :
    ∃ options fieldLvl inner, field.options = some options ∧ fieldLvl.type = options.type ∧ ignoredWhole field = false ∧
      rules = .field inner ∧ BuiltFor context field fieldLvl inner := by
  unfold newMemberRules at built
  cases set : field.options with
  | none =>
    rw [set] at built
    cases built
  | some options =>
    simp only [set] at built
    obtain ⟨inner, innerBuilt, same⟩ := bind_ok built
    cases inner with
    | none => cases same
    | some inner =>
      cases same
      refine ⟨options, _, inner, rfl, ?_, ?_, rfl, newFieldRules_cases innerBuilt⟩
      · obtain ⟨ignore, required, cel, celExpression, type⟩ := options
        split <;> rfl
      · refine Bool.eq_false_iff.mpr fun whole => ?_
        simp only [ignoredWhole, set] at whole
        obtain ⟨ignore, required, cel, celExpression, type⟩ := options
        cases ignore with
        | none => cases whole
        | some ignore =>
          obtain rfl := beq_iff_eq.mp whole
          rw [if_neg (by simp [FieldRules.hasIgnore])] at innerBuilt
          rw [newFieldRules_always rfl] at innerBuilt
          cases innerBuilt

/-- The fields come behind the rules of the message level, and before the oneofs. -/
theorem fieldRules_member {level rules : List ValidationRules} {inner : FieldRuleSet}
    (built : (do
      let fieldRules ← descriptor.fields.mapM (newMemberRules context names)
      pure (level ++ fieldRules.filterMap id ++
        descriptor.oneofs.filterMap fun oneof => oneof.options.map (ValidationRules.oneof oneof)) : Rules) = .ok rules)
    (absent : .field inner ∉ level) (member : .field inner ∈ rules) :
    ∃ field ∈ descriptor.fields, newMemberRules context names field = .ok (some (.field inner)) := by
  obtain ⟨fieldRules, fieldsBuilt, same⟩ := bind_ok built
  cases same
  rcases List.mem_append.mp member with member | oneof
  · obtain ⟨result, present, same⟩ := List.mem_filterMap.mp ((List.mem_append.mp member).resolve_left absent)
    cases same
    obtain ⟨field, declared, found⟩ := mapM_ok fieldsBuilt _ present
    exact ⟨field, declared, found⟩
  · obtain ⟨oneof, present, same⟩ := List.mem_filterMap.mp oneof
    obtain ⟨required, -, impossible⟩ := Option.map_eq_some_iff.mp same
    cases impossible

theorem newMessageOneof_not_field {oneofs : List MessageOneofRule} {rules : List ValidationRules} {inner : FieldRuleSet}
    (built : oneofs.mapM (newMessageOneof descriptor) = .ok rules) : .field inner ∉ rules := by
  intro member
  obtain ⟨oneof, -, found⟩ := mapM_ok built _ member
  unfold newMessageOneof at found
  split at found
  · cases found
  · obtain ⟨fields, -, impossible⟩ := bind_ok found
    cases impossible

/-- The rules of a message that are about a field come from that field. -/
theorem newMessageRules_field {rules : List ValidationRules} {inner : FieldRuleSet}
    (built : newMessageRules context descriptor = .ok rules) (member : .field inner ∈ rules) :
    ∃ names, ∃ field ∈ descriptor.fields, newMemberRules context names field = .ok (some (.field inner)) := by
  unfold newMessageRules at built
  cases set : descriptor.options with
  | none =>
    simp only [set] at built
    exact ⟨_, fieldRules_member built (by simp) member⟩
  | some msgLvl =>
    simp only [set] at built
    obtain ⟨messageRules, -, rest⟩ := bind_ok built
    obtain ⟨oneofs, oneofsBuilt, rest⟩ := bind_ok rest
    refine ⟨_, fieldRules_member rest (fun level => ?_) member⟩
    rcases List.mem_cons.mp level with impossible | oneof
    · cases impossible
    · exact newMessageOneof_not_field oneofsBuilt oneof

end Members
end Protovalidate.Validate
