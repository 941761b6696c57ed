import Mathlib.Data.Option.Basic
import Protovalidate.Validate.Agenda
import Protovalidate.Validate.Declared
import Protovalidate.Validate.Paths
import Protovalidate.Validate.RulePaths

/-! The checks of a field and of its elements: each has a place, a rule path and a rule id
of its own, if the rules of one field of a rule message have different ids. -/

namespace Protovalidate.Validate

open Foundation Check

section Levels

/-- A rule message whose set fields have different numbers, and whose predefined rules
have ids that tell those of one field apart, and from the checks that are no expressions. -/
structure RuleMessage.Tidy (message : RuleMessage) : Prop where
  numbers : (message.fields.map fun field => field.info.number).Nodup
  ids : ∀ field ∈ message.fields, ((field.predefined.getD []).map Rule.id).Nodup
  foreign : ∀ field ∈ message.fields, ∀ rule ∈ field.predefined.getD [],
    rule.id ∉ ["any.in", "any.not_in", "enum.defined_only"]

/-- The rule message of the options, as it is read, is tidy. -/
def FieldRules.Tidy (context : BuildContext) (level : FieldRules) : Prop :=
  ∀ member message, level.type.member = some (member, message) → (context.read message).Tidy

/-- A check of an element as its rules declare it: there is a rule path, but no place. -/
structure Label.Unplaced (label : Label) : Prop where
  field : label.field = none
  rule : label.rule ≠ none

/-- The labels of the expressions that options declare, before they are placed. -/
inductive Declares (runtime : Runtime) : Label → Prop where
  | predefined {member : RuleFieldName} {field : RuleField} {ruleId : String}
      (foreign : ruleId ∉ ["any.in", "any.not_in", "enum.defined_only"]) : Declares runtime
        { rule := some [fieldPathElement field.info, fieldPathElement (runtime.ruleField member)], ruleId := ruleId }
  | custom {name : RuleFieldName} {index : Nat} {ruleId : String} : Declares runtime
      { rule := some [(fieldPathElement (runtime.ruleField name)).setIndex index], ruleId := ruleId }

variable {runtime : Runtime} {context : BuildContext} {level : FieldRules} {label : Label}

theorem fieldPathElement_number {info info' : FieldInfo} (same : fieldPathElement info = fieldPathElement info') :
    info.number = info'.number := Option.some.inj (congrArg FieldPathElement.fieldNumber same)

theorem setIndex_number {info info' : FieldInfo} {index index' : Nat}
    (same : (fieldPathElement info).setIndex index = (fieldPathElement info').setIndex index') :
    info.number = info'.number := Option.some.inj (congrArg FieldPathElement.fieldNumber same)

theorem predefined_nodup {message : RuleMessage} (tidy : message.Tidy) (member : RuleFieldName) :
    ((predefinedRules runtime member message).map CompiledRule.label).Nodup := by
  rw [predefinedRules, List.map_flatMap]
  refine List.nodup_flatMap.mpr ⟨fun field among => ?_, ?_⟩
  · rw [List.map_map]
    refine List.Nodup.of_map Label.ruleId ?_
    rw [List.map_map]
    exact tidy.ids field among
  · refine (List.pairwise_map.mp tidy.numbers).imp fun different label inFirst inSecond => different ?_
    simp only [List.map_map, List.mem_map, Function.comp_apply] at inFirst inSecond
    obtain ⟨rule, -, rfl⟩ := inFirst
    obtain ⟨rule', -, same⟩ := inSecond
    have path := Option.some.inj (congrArg Label.rule same)
    exact (fieldPathElement_number (List.cons.inj path).1).symm

/-- The position in a repeated field that a rule path ends with. -/
def Label.position (label : Label) : Option Nat := label.rule.bind fun path => path.head?.bind FieldPathElement.position

theorem zipIdx_nodup {α : Type} {elements : List α} {each : α × Nat → CompiledRule}
    (positions : ∀ element, (each element).label.position = some element.2) :
    ((elements.zipIdx.map each).map CompiledRule.label).Nodup := by
  have same : (Label.position ∘ CompiledRule.label) ∘ each = some ∘ Prod.snd := funext positions
  refine List.Nodup.of_map Label.position ?_
  rw [List.map_map, List.map_map, same, ← List.map_map, List.zipIdx_map_snd]
  refine List.Nodup.map (Option.some_injective Nat) ?_
  exact List.nodup_range'

theorem custom_nodup (numbers : RuleNumbers runtime) : ((customRules runtime level).map CompiledRule.label).Nodup := by
  rw [customRules, List.map_append]
  refine (zipIdx_nodup fun element => rfl).append (zipIdx_nodup fun element => rfl) fun label inFirst inSecond => ?_
  simp only [List.map_map, List.mem_map, Function.comp_apply] at inFirst inSecond
  obtain ⟨expression, -, rfl⟩ := inFirst
  obtain ⟨rule, -, same⟩ := inSecond
  have path := Option.some.inj (congrArg Label.rule same)
  exact numbers.cel_celExpression (setIndex_number (List.cons.inj path).1)

theorem custom_label (member : label ∈ (customRules runtime level).map CompiledRule.label) : ∃ name index ruleId,
    label = { rule := some [(fieldPathElement (runtime.ruleField name)).setIndex index], ruleId := ruleId } := by
  rw [customRules, List.map_append] at member
  rcases List.mem_append.mp member with member | member
  · obtain ⟨_, among, rfl⟩ := List.mem_map.mp member
    obtain ⟨_, -, rfl⟩ := List.mem_map.mp among
    exact ⟨_, _, _, rfl⟩
  · obtain ⟨_, among, rfl⟩ := List.mem_map.mp member
    obtain ⟨_, -, rfl⟩ := List.mem_map.mp among
    exact ⟨_, _, _, rfl⟩

theorem predefined_label {message : RuleMessage} {member : RuleFieldName}
    (listed : label ∈ (predefinedRules runtime member message).map CompiledRule.label) :
    ∃ field ∈ message.fields, ∃ rule ∈ field.predefined.getD [], label =
      { rule := some [fieldPathElement field.info, fieldPathElement (runtime.ruleField member)], ruleId := rule.id } := by
  obtain ⟨_, among, rfl⟩ := List.mem_map.mp listed
  obtain ⟨field, present, inside⟩ := List.mem_flatMap.mp among
  obtain ⟨rule, set, rfl⟩ := List.mem_map.mp inside
  exact ⟨field, present, rule, set, rfl⟩

theorem declared_declares (tidy : level.Tidy context) (member : label ∈ (declared context level).agenda) :
    Declares context.runtime label := by
  have custom (member : label ∈ (customRules context.runtime level).map CompiledRule.label) :
      Declares context.runtime label := by
    obtain ⟨name, index, ruleId, rfl⟩ := custom_label member
    exact .custom
  unfold declared CelValidationRules.agenda at member
  cases held : level.type.member with
  | none =>
    simp only [held] at member
    exact custom member
  | some pair =>
    simp only [held, List.map_append] at member
    rcases List.mem_append.mp member with member | member
    · obtain ⟨field, listed, rule, set, rfl⟩ := predefined_label member
      exact .predefined ((tidy pair.1 pair.2 held).foreign field listed rule set)
    · exact custom member

/-- The expressions that options declare are told apart by rule path and id. -/
theorem declared_nodup (numbers : RuleNumbers context.runtime) (tidy : level.Tidy context) :
    (declared context level).agenda.Nodup := by
  unfold declared CelValidationRules.agenda
  cases held : level.type.member with
  | none => exact custom_nodup numbers
  | some pair =>
    simp only [List.map_append]
    refine (predefined_nodup (tidy pair.1 pair.2 held) pair.1).append (custom_nodup numbers) fun label inFirst inSecond => ?_
    obtain ⟨_, _, _, _, rfl⟩ := predefined_label inFirst
    obtain ⟨_, _, _, same⟩ := custom_label inSecond
    have path := Option.some.inj (congrArg Label.rule same)
    cases (List.cons.inj path).2

/-- The labels of the checks of `ValidateAny`, which are no expressions. -/
theorem any_label {anyRules : Option AnyRules} {field : ProtoField} (member : label ∈ anyAgenda runtime anyRules field) :
    anyRules ≠ none ∧ label.field = (anyPlace field).map (fun element => [element]) ∧
      (∃ inner outer, label.rule = some [inner, outer]) ∧ label.ruleId ∈ ["any.in", "any.not_in"] := by
  cases anyRules with
  | none => cases member
  | some any =>
    rcases List.mem_cons.mp member with rfl | member
    · exact ⟨Option.some_ne_none any, anyViolation_placed runtime "any.in" "" .anyIn any field, ⟨_, _, rfl⟩,
        List.mem_cons_self⟩
    · cases List.mem_singleton.mp member
      exact ⟨Option.some_ne_none any, anyViolation_placed runtime "any.not_in" "" .anyNotIn any field, ⟨_, _, rfl⟩,
        List.mem_cons_of_mem _ List.mem_cons_self⟩

theorem any_nodup (anyRules : Option AnyRules) (field : ProtoField) : (anyAgenda runtime anyRules field).Nodup := by
  cases anyRules with
  | none => exact List.nodup_nil
  | some any =>
    refine List.nodup_cons.mpr ⟨fun member => ?_, List.nodup_singleton _⟩
    have ids := congrArg Label.ruleId (List.mem_singleton.mp member)
    exact absurd ids (show "any.in" ≠ "any.not_in" by decide)

/-- An expression has another rule path or another id than a check that is none. -/
theorem Declares.not_any (declares : Declares runtime label) {inner outer : FieldPathElement}
    (rule : label.rule = some [inner, outer]) : label.ruleId ∉ ["any.in", "any.not_in", "enum.defined_only"] := by
  cases declares with
  | predefined foreign => exact foreign
  | custom =>
    have path := Option.some.inj rule
    cases (List.cons.inj path).2

theorem Declares.unplaced (declares : Declares runtime label) : label.Unplaced := by
  cases declares with
  | predefined foreign => exact ⟨rfl, Option.some_ne_none _⟩
  | custom => exact ⟨rfl, Option.some_ne_none _⟩

/-- Options that are set leave a position behind, `required` has none. -/
theorem Declares.not_required (declares : Declares runtime label) (info : FieldInfo) :
    label.rule ≠ some [fieldPathElement info] := by
  intro rule
  cases declares with
  | predefined foreign =>
    have path := Option.some.inj rule
    cases (List.cons.inj path).2
  | custom =>
    have path := Option.some.inj rule
    cases congrArg FieldPathElement.subscript (List.cons.inj path).1

theorem declared_any_disjoint (tidy : level.Tidy context) (anyRules : Option AnyRules) (field : ProtoField) {other : Label}
    (member : label ∈ (declared context level).agenda) (inAny : other ∈ anyAgenda context.runtime anyRules field) :
    (label.rule, label.ruleId) ≠ (other.rule, other.ruleId) := by
  obtain ⟨-, -, ⟨inner, outer, rule⟩, id⟩ := any_label inAny
  intro same
  obtain ⟨rules, ids⟩ := Prod.mk.inj same
  refine (declared_declares tidy member).not_any (rules.trans rule) ?_
  rw [ids]
  exact List.mem_append_left ["enum.defined_only"] id

end Levels

section Places

variable {label other : Label}

theorem within_inj {element : FieldPathElement} (same : label.field = none ↔ other.field = none)
    (moved : label.within element = other.within element) : label = other := by
  obtain ⟨field, rule, ruleId⟩ := label
  obtain ⟨field', rule', ruleId'⟩ := other
  have rules : rule = rule' := congrArg Label.rule moved
  have ids : ruleId = ruleId' := congrArg Label.ruleId moved
  have paths : field.getD [] = field'.getD [] := List.append_cancel_right (Option.some.inj (congrArg Label.field moved))
  cases field with
  | none =>
    cases same.mp rfl
    rw [rules, ids]
  | some path =>
    cases field' with
    | none => cases same.mpr rfl
    | some path' =>
      have whole : path = path' := paths
      rw [rules, ids, whole]

theorem below_inj {suffix : FieldPath} (set : label.rule ≠ none) (set' : other.rule ≠ none)
    (moved : label.below suffix = other.below suffix) : label = other := by
  obtain ⟨field, rule, ruleId⟩ := label
  obtain ⟨field', rule', ruleId'⟩ := other
  obtain ⟨path, rfl⟩ := Option.ne_none_iff_exists'.mp set
  obtain ⟨path', rfl⟩ := Option.ne_none_iff_exists'.mp set'
  have fields : field = field' := congrArg Label.field moved
  have ids : ruleId = ruleId' := congrArg Label.ruleId moved
  have rules : path ++ suffix = path' ++ suffix := Option.some.inj (congrArg Label.rule moved)
  rw [fields, ids, List.append_cancel_right rules]

/-- Paths that end with different fields are different. -/
theorem below_ne {inner inner' outer : FieldPathElement} (different : inner ≠ inner') :
    label.below [inner, outer] ≠ other.below [inner', outer] := by
  intro same
  have rules := Option.some.inj (congrArg Label.rule same)
  exact different (List.cons.inj (List.append_inj_right' rules rfl)).1

theorem within_nodup {labels : List Label} (unplaced : ∀ label ∈ labels, label.Unplaced) (nodup : labels.Nodup)
    (element : FieldPathElement) : (labels.map fun label => label.within element).Nodup := by
  refine nodup.map_on fun first inFirst second inSecond same => within_inj ?_ same
  exact iff_of_true (unplaced first inFirst).field (unplaced second inSecond).field

theorem below_nodup {labels : List Label} (set : ∀ label ∈ labels, label.rule ≠ none) (nodup : labels.Nodup)
    (suffix : FieldPath) : (labels.map fun label => label.below suffix).Nodup :=
  nodup.map_on fun first inFirst second inSecond same => below_inj (set first inFirst) (set second inSecond) same

theorem below_unplaced (unplaced : label.Unplaced) (suffix : FieldPath) : (label.below suffix).Unplaced :=
  ⟨unplaced.field, Option.some_ne_none _⟩

/-- The element of the place that is furthest outside. -/
def Label.outer (label : Label) : Option FieldPathElement := label.field.bind List.getLast?

theorem outer_within (element : FieldPathElement) : (label.within element).outer = some element := List.getLast?_concat

theorem outer_placed {element : FieldPathElement} (placed : label.field = some [element]) : label.outer = some element := by
  rw [Label.outer, placed]
  rfl

end Places

section Fields

variable {context : BuildContext} {level : FieldRules} {message : Message} {base : FieldValidationRules} {label : Label}

/-- Every check of a field's own rules is placed at the field. -/
theorem base_placed {runtime : Runtime} (member : label ∈ base.agenda runtime message) :
    label.field = some [fieldPathElement base.field.toFieldInfo] := by
  rcases List.mem_cons.mp member with rfl | member
  · rfl
  rcases List.mem_append.mp member with inAny | declares
  · exact (any_label inAny).2.1
  · obtain ⟨inner, among, rfl⟩ := List.mem_map.mp declares
    obtain ⟨expr, -, rfl⟩ := List.mem_map.mp among
    rfl

/-- The rules of a field have no check twice. -/
theorem base_nodup (numbers : RuleNumbers context.runtime) (tidy : level.Tidy context)
    (own : base.toCelValidationRules = declared context level) : (base.agenda context.runtime message).Nodup := by
  rw [FieldValidationRules.agenda, own]
  refine List.nodup_cons.mpr ⟨fun member => ?_, (any_nodup _ _).append ?_ fun label inAny placed => ?_⟩
  · rcases List.mem_append.mp member with inAny | placed
    · obtain ⟨-, -, ⟨inner, outer, rule⟩, -⟩ := any_label inAny
      cases Option.some.inj rule
    · obtain ⟨inner, among, same⟩ := List.mem_map.mp placed
      exact (declared_declares tidy among).not_required _ (congrArg Label.rule same)
  · exact within_nodup (fun label among => (declared_declares tidy among).unplaced) (declared_nodup numbers tidy) _
  · obtain ⟨inner, among, rfl⟩ := List.mem_map.mp placed
    exact declared_any_disjoint tidy _ _ among inAny rfl

/-- Enum rules check for one thing that is no expression. -/
theorem definedOnly_fresh (tidy : level.Tidy context) (own : base.toCelValidationRules = declared context level)
    (rules : EnumRules) :
    (EnumValidationRules.definedOnlyViolation context.runtime base rules message).label ∉
      base.agenda context.runtime message := by
  rw [FieldValidationRules.agenda, own]
  intro member
  rcases List.mem_cons.mp member with same | member
  · cases (List.cons.inj (Option.some.inj (congrArg Label.rule same))).2
  rcases List.mem_append.mp member with inAny | placed
  · have id := (any_label inAny).2.2.2
    exact absurd id (show "enum.defined_only" ∉ ["any.in", "any.not_in"] by decide)
  · obtain ⟨inner, among, same⟩ := List.mem_map.mp placed
    refine (declared_declares tidy among).not_any (congrArg Label.rule same) ?_
    have id : inner.ruleId = "enum.defined_only" := congrArg Label.ruleId same
    rw [id]
    decide

end Fields

section Elements

variable {context : BuildContext} {level inner : FieldRules} {message : Message} {base items : FieldValidationRules}
  {label : Label} {item : Nat × Value} {entry : Entry} {keyInfo valueInfo : FieldInfo} {keyRules valueRules : Option FieldRuleSet}
  {field : FieldDescriptor}

theorem itemRules_unplaced (tidy : inner.Tidy context) (own : items.toCelValidationRules = declared context inner)
    (member : label ∈ items.toCelValidationRules.agenda ++ anyAgenda context.runtime items.anyRules
      { message := .message message, descriptor := base.field.toFieldInfo, index := some item.1 }) : label.Unplaced := by
  rcases List.mem_append.mp member with declares | inAny
  · rw [own] at declares
    exact (declared_declares tidy declares).unplaced
  · obtain ⟨-, place, ⟨_, _, rule⟩, -⟩ := any_label inAny
    exact ⟨place, rule ▸ Option.some_ne_none _⟩

/-- The rules of an item have no check twice. -/
theorem item_nodup (numbers : RuleNumbers context.runtime) (tidy : inner.Tidy context)
    (own : items.toCelValidationRules = declared context inner) :
    (itemAgenda context.runtime message base items item).Nodup := by
  have inside : (items.toCelValidationRules.agenda ++ anyAgenda context.runtime items.anyRules
      { message := .message message, descriptor := base.field.toFieldInfo, index := some item.1 }).Nodup := by
    rw [own]
    refine (declared_nodup numbers tidy).append (any_nodup _ _) fun label declares inAny => ?_
    exact declared_any_disjoint tidy _ _ declares inAny rfl
  have unplaced (label : Label) (member : label ∈ items.toCelValidationRules.agenda ++ anyAgenda context.runtime items.anyRules
      { message := .message message, descriptor := base.field.toFieldInfo, index := some item.1 }) : label.Unplaced :=
    itemRules_unplaced tidy own member
  have placed := below_nodup ?set (within_nodup unplaced inside ((fieldPathElement base.field.toFieldInfo).setIndex item.1))
    [fieldPathElement (context.runtime.ruleField .items), fieldPathElement (context.runtime.ruleField .repeated)]
  case set =>
    intro label member
    obtain ⟨first, among, rfl⟩ := List.mem_map.mp member
    exact (unplaced first among).rule
  rw [List.map_map] at placed
  exact placed

theorem item_placed {runtime : Runtime} (member : label ∈ itemAgenda runtime message base items item) :
    label.field = some [(fieldPathElement base.field.toFieldInfo).setIndex item.1] := by
  obtain ⟨first, among, rfl⟩ := List.mem_map.mp member
  rcases List.mem_append.mp among with declares | inAny
  · obtain ⟨expr, -, rfl⟩ := List.mem_map.mp declares
    rfl
  · obtain ⟨-, place, -⟩ := any_label inAny
    change some (first.field.getD [] ++ [_]) = _
    rw [place]
    rfl

theorem checked_nodup (runtime : Runtime) (base items : FieldValidationRules) (values : List Value) :
    ((RepeatedValidationRules.checked runtime base items values).map Prod.fst).Nodup := by
  have among : (RepeatedValidationRules.checked runtime base items values).Sublist
      (values.zipIdx.map fun element => (element.2, element.1)) := List.filter_sublist
  refine (among.map Prod.fst).nodup ?_
  rw [List.map_map]
  change (values.zipIdx.map Prod.snd).Nodup
  rw [List.zipIdx_map_snd]
  exact List.nodup_range'

/-- Every item has a place of its own. -/
theorem items_nodup (numbers : RuleNumbers context.runtime) (tidy : inner.Tidy context) {rules : FieldRuleSet}
    (own : rules.base.toCelValidationRules = declared context inner) :
    (itemsAgenda context.runtime message base (some rules)).Nodup := by
  refine nodup_flatMap_of_keys Label.outer _ (fun item _ => item_nodup numbers tidy own)
    (fun item _ label member => outer_placed (item_placed member)) ?_
  have positions := checked_nodup context.runtime base rules.base (message.elements base.field)
  refine (List.Nodup.of_map Prod.fst positions).map_on fun first inFirst second inSecond same => ?_
  refine List.inj_on_of_nodup_map positions inFirst inSecond ?_
  exact Subscript.index.inj (Option.some.inj (congrArg FieldPathElement.subscript same))

theorem part_unplaced {options : Option FieldRules} {place : FieldDescriptor} {name : RuleFieldName}
    (tidy : ∀ inner ∈ options, inner.Tidy context) {rules : Option FieldRuleSet}
    (built : ∀ set ∈ rules, OptionsOf context place options set) (member : label ∈ partAgenda context.runtime name rules) :
    label.Unplaced := by
  cases rules with
  | none => cases member
  | some set =>
    obtain ⟨first, among, rfl⟩ := List.mem_map.mp member
    refine below_unplaced ?_ _
    obtain ⟨rfl, rfl⟩ | ⟨inner, rfl, innerBuilt⟩ := built set rfl
    · cases among
    · rw [newFieldRules_declared innerBuilt] at among
      exact (declared_declares (tidy inner rfl) among).unplaced

theorem part_nodup (numbers : RuleNumbers context.runtime) {options : Option FieldRules} {place : FieldDescriptor}
    {name : RuleFieldName} (tidy : ∀ inner ∈ options, inner.Tidy context) {rules : Option FieldRuleSet}
    (built : ∀ set ∈ rules, OptionsOf context place options set) : (partAgenda context.runtime name rules).Nodup := by
  cases rules with
  | none => exact List.nodup_nil
  | some set =>
    obtain ⟨rfl, rfl⟩ | ⟨inner, rfl, innerBuilt⟩ := built set rfl
    · exact List.nodup_nil
    · have own : set.base.toCelValidationRules = declared context inner := by
        rw [newFieldRules_declared innerBuilt]
        rfl
      change (set.base.toCelValidationRules.agenda.map _).Nodup
      rw [own]
      exact below_nodup (fun label among => (declared_declares (tidy inner rfl) among).unplaced.rule)
        (declared_nodup numbers (tidy inner rfl)) _

/-- The rules of keys and those of values have paths of their own. -/
theorem part_disjoint (numbers : RuleNumbers context.runtime) {other : Label}
    (inKey : label ∈ partAgenda context.runtime .keys keyRules)
    (inValue : other ∈ partAgenda context.runtime .values valueRules) : label ≠ other := by
  cases keyRules with
  | none => cases inKey
  | some set =>
    cases valueRules with
    | none => cases inValue
    | some set' =>
      obtain ⟨first, -, rfl⟩ := List.mem_map.mp inKey
      obtain ⟨second, -, rfl⟩ := List.mem_map.mp inValue
      exact below_ne fun same => numbers.keys_values (fieldPathElement_number same)

theorem entry_placed {runtime : Runtime}
    (member : label ∈ entryAgenda runtime base keyInfo valueInfo keyRules valueRules entry) :
    label.field = some [entryPathElement base.field.toFieldInfo keyInfo valueInfo entry.key] := by
  have part {name : RuleFieldName} {rules : Option FieldRuleSet} {first : Label}
      (among : first ∈ partAgenda runtime name rules) : first.field = none := by
    cases rules with
    | none => cases among
    | some set =>
      obtain ⟨inner, listed, rfl⟩ := List.mem_map.mp among
      obtain ⟨expr, -, rfl⟩ := List.mem_map.mp listed
      rfl
  obtain ⟨first, among, rfl⟩ := List.mem_map.mp member
  have unplaced : first.field = none := (List.mem_append.mp among).elim part part
  rw [Label.within, unplaced]
  rfl

theorem entry_nodup (numbers : RuleNumbers context.runtime) {keys values : Option FieldRules}
    {keyPlace valuePlace : FieldDescriptor} (tidyKeys : ∀ inner ∈ keys, inner.Tidy context)
    (tidyValues : ∀ inner ∈ values, inner.Tidy context)
    (keysOf : ∀ rules ∈ keyRules, OptionsOf context keyPlace keys rules)
    (valuesOf : ∀ rules ∈ valueRules, OptionsOf context valuePlace values rules) :
    (entryAgenda context.runtime base keyInfo valueInfo keyRules valueRules entry).Nodup := by
  refine within_nodup (fun label member => ?_) ?_ _
  · rcases List.mem_append.mp member with inKey | inValue
    · exact part_unplaced tidyKeys keysOf inKey
    · exact part_unplaced tidyValues valuesOf inValue
  · refine (part_nodup numbers tidyKeys keysOf).append (part_nodup numbers tidyValues valuesOf) fun label inKey inValue => ?_
    exact part_disjoint numbers inKey inValue rfl

theorem entriesAgenda_eq {valid : keyInfo.type.isMapKey = true} (shape : base.field.shape = .map keyInfo valueInfo valid) :
    entriesAgenda context.runtime message base keyRules valueRules =
      (message.entries base.field).flatMap (entryAgenda context.runtime base keyInfo valueInfo keyRules valueRules) := by
  unfold entriesAgenda
  rw [shape]

/-- No two entries of the field have one key, as the key is written in paths. -/
def KeysDiffer (message : Message) (field : FieldDescriptor) : Prop :=
  ∀ keyInfo valueInfo valid, field.shape = .map keyInfo valueInfo valid →
    ((message.entries field).map fun entry => keySubscript keyInfo.type entry.key).Nodup

/-- The options of the elements of a field. -/
def RuleType.elements : RuleType → List FieldRules
  | .repeated _ items => items.toList
  | .map _ keys values => keys.toList ++ values.toList
  | _ => []

/-- The options of a field and those of its elements are tidy. -/
def FieldRules.TidyAll (context : BuildContext) (level : FieldRules) : Prop :=
  level.Tidy context ∧ ∀ inner ∈ level.type.elements, inner.Tidy context

/-- No check of a field or of one of its elements is listed twice. -/
theorem ruleSet_nodup (numbers : RuleNumbers context.runtime) (tidy : level.TidyAll context) (differ : KeysDiffer message field)
    {rules : FieldRuleSet} (built : newFieldRules context field level = .ok (some rules)) :
    (rules.agenda context.runtime message).Nodup := by
  have own : rules.base.toCelValidationRules = declared context level := by
    rw [newFieldRules_declared built]
    rfl
  have whole : (rules.base.agenda context.runtime message).Nodup := base_nodup numbers tidy.1 own
  cases rules with
  | field base => exact whole
  | enum base enumRules =>
    refine whole.append (List.nodup_singleton _) fun label inBase only => ?_
    cases List.mem_singleton.mp only
    exact definedOnly_fresh tidy.1 own enumRules inBase
  | repeated base itemRules =>
    cases itemRules with
    | none => exact whole.append List.nodup_nil fun label inBase impossible => by cases impossible
    | some set =>
      obtain ⟨rfl, shape, outer, items, type, itemsBuilt⟩ := newFieldRules_repeated built
      have among : items ∈ level.type.elements := by
        rw [type]
        exact List.mem_singleton.mpr rfl
      have ownItems : set.base.toCelValidationRules = declared context items := by
        rw [newFieldRules_declared itemsBuilt]
        rfl
      refine whole.append (items_nodup numbers (tidy.2 items among) ownItems) fun label inBase inItems => ?_
      obtain ⟨item, -, inItem⟩ := List.mem_flatMap.mp inItems
      have places := (base_placed inBase).symm.trans (item_placed inItem)
      cases congrArg FieldPathElement.subscript (List.cons.inj (Option.some.inj places)).1
  | map base keyRules valueRules =>
    obtain ⟨rfl, outer, keys, values, keyInfo, valueInfo, valid, type, shape, keysOf, valuesOf⟩ := newFieldRules_map built
    have among (inner : FieldRules) (set : inner ∈ keys ∨ inner ∈ values) : inner.Tidy context := by
      refine tidy.2 inner ?_
      rw [type]
      exact List.mem_append.mpr (set.imp Option.mem_toList.mpr Option.mem_toList.mpr)
    have entries : (entriesAgenda context.runtime message base keyRules valueRules).Nodup := by
      rw [entriesAgenda_eq shape]
      refine nodup_flatMap_of_keys Label.outer _ (fun entry _ => entry_nodup numbers (fun inner set => among inner (.inl set))
        (fun inner set => among inner (.inr set)) keysOf valuesOf)
        (fun entry _ label member => outer_placed (entry_placed member)) ?_
      refine List.Nodup.of_map FieldPathElement.subscript ?_
      rw [List.map_map]
      exact differ keyInfo valueInfo valid shape
    refine whole.append entries fun label inBase inEntries => ?_
    rw [entriesAgenda_eq shape] at inEntries
    obtain ⟨entry, -, inEntry⟩ := List.mem_flatMap.mp inEntries
    have places := (base_placed inBase).symm.trans (entry_placed inEntry)
    cases congrArg FieldPathElement.keyType (List.cons.inj (Option.some.inj places)).1

end Elements
end Protovalidate.Validate
