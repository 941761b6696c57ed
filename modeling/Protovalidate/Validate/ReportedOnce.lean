import Protovalidate.Validate.FieldAgenda
import Protovalidate.Validate.ProtoFields

/-! No check is on the agenda of a message twice, so that no two violations that are
returned are about one rule and one place. -/

namespace Protovalidate.Validate

open Foundation Check Relation

section Members

variable {context : BuildContext} {descriptor : Descriptor} {names : List String}

/-- The number of the field that rules are about. -/
def ValidationRules.fieldNumber : ValidationRules → Option Nat
  | .field rules => some rules.base.field.number
  | _ => none

theorem fieldNumber_none {rules : List ValidationRules} (others : ∀ inner, .field inner ∉ rules) :
    rules.filterMap ValidationRules.fieldNumber = [] := by
  refine List.filterMap_eq_nil_iff.mpr fun rule member => ?_
  cases rule with
  | field inner => exact absurd member (others inner)
  | _ => rfl

theorem memberNumbers_sublist {fields : List FieldDescriptor} {results : List (Option ValidationRules)}
    (built : fields.mapM (newMemberRules context names) = .ok results) :
    ((results.filterMap id).filterMap ValidationRules.fieldNumber).Sublist (fields.map fun field => field.number) := by
  induction fields generalizing results with
  | nil =>
    cases built
    exact List.Sublist.refl _
  | cons field fields ih =>
    rw [List.mapM_cons] at built
    obtain ⟨first, found, rest⟩ := bind_ok built
    obtain ⟨others, later, same⟩ := bind_ok rest
    cases same
    cases first with
    | none => exact (ih later).cons _
    | some rules =>
      obtain ⟨_, _, inner, -, -, -, rfl, builtFor⟩ := newMemberRules_built found
      have number : ValidationRules.fieldNumber (.field inner) = some field.number :=
        congrArg (fun field : FieldDescriptor => some field.number) builtFor.place
      have step : ((some (ValidationRules.field inner) :: others).filterMap id).filterMap ValidationRules.fieldNumber =
          field.number :: (others.filterMap id).filterMap ValidationRules.fieldNumber := List.filterMap_cons_some number
      rw [step]
      exact (ih later).cons_cons _

theorem fieldNumbers_sublist {level rules : List ValidationRules} (others : ∀ inner, .field inner ∉ level)
    (built : (do
      let fieldRules ← descriptor.fields.mapM (newMemberRules context names)
      pure (level ++ fieldRules.filterMap id ++
        descriptor.oneofs.filterMap fun oneof => oneof.options.map (ValidationRules.oneof oneof)) : Rules) = .ok rules) :
    (rules.filterMap ValidationRules.fieldNumber).Sublist (descriptor.fields.map fun field => field.number) := by
  obtain ⟨results, fieldsBuilt, same⟩ := bind_ok built
  cases same
  have oneofs (inner : FieldRuleSet) :
      .field inner ∉ descriptor.oneofs.filterMap fun oneof => oneof.options.map (ValidationRules.oneof oneof) := by
    intro member
    obtain ⟨oneof, -, same⟩ := List.mem_filterMap.mp member
    obtain ⟨_, -, impossible⟩ := Option.map_eq_some_iff.mp same
    cases impossible
  rw [List.filterMap_append, List.filterMap_append, fieldNumber_none others, fieldNumber_none oneofs, List.nil_append,
    List.append_nil]
  exact memberNumbers_sublist fieldsBuilt

/-- A field has rules of its own once at most, in the order of the fields. -/
theorem newMessageRules_numbers {rules : List ValidationRules} (built : newMessageRules context descriptor = .ok rules) :
    (rules.filterMap ValidationRules.fieldNumber).Sublist (descriptor.fields.map fun field => field.number) := by
  unfold newMessageRules at built
  cases set : descriptor.options with
  | none =>
    simp only [set] at built
    exact fieldNumbers_sublist (fun _ => List.not_mem_nil) built
  | some options =>
    simp only [set] at built
    obtain ⟨own, -, rest⟩ := bind_ok built
    obtain ⟨oneofs, oneofsBuilt, rest⟩ := bind_ok rest
    refine fieldNumbers_sublist (fun inner member => ?_) rest
    rcases List.mem_cons.mp member with impossible | inOneofs
    · cases impossible
    · exact newMessageOneof_not_field oneofsBuilt inOneofs

end Members

section Messages

variable {pool : DescriptorPool} {context : BuildContext} {type : MessageType pool} {message : Message} {label : Label}
  {rules : List ValidationRules}

/-- The checks with a rule path: those that come from the options of a field. -/
def ruled (labels : List Label) : List Label := labels.filter fun label => label.rule.isSome

theorem mem_ruled {labels : List Label} : label ∈ ruled labels ↔ label ∈ labels ∧ label.rule ≠ none := by
  rw [ruled, List.mem_filter, Option.isSome_iff_ne_none]

theorem ruled_none {labels : List Label} (none : ∀ label ∈ labels, label.rule = none) : ruled labels = [] := by
  refine List.filter_eq_nil_iff.mpr fun label member => ?_
  rw [none label member]
  exact Bool.false_ne_true

/-- The options of every field of every type are tidy. -/
def TidyOptions (pool : DescriptorPool) (context : BuildContext) : Prop :=
  ∀ type : MessageType pool, ∀ field ∈ type.descriptor.fields, ∀ options ∈ field.options, options.TidyAll context

def Field.number : Field → Nat
  | .mk field _ => field.number

/-- A message as reflection shows it: a field is listed once, and no two entries of a map
have one key. -/
structure SetOnce (message : Message) : Prop where
  fields : (message.fields.map Field.number).Nodup
  keys : ∀ field entries keyInfo valueInfo valid, .mk field (.map entries) ∈ message.fields →
    field.shape = .map keyInfo valueInfo valid → (entries.map fun entry => keySubscript keyInfo.type entry.key).Nodup

theorem SetOnce.keysDiffer (once : SetOnce message) {field : FieldDescriptor} (owns : Owns message field) :
    KeysDiffer message field := by
  intro keyInfo valueInfo valid shape
  unfold Message.entries
  split
  · rename_i entries held
    exact once.keys field entries keyInfo valueInfo valid (owns.find_mem held) shape
  · exact List.nodup_nil

theorem FieldOptions.tidyAll {field : FieldDescriptor} {level : FieldRules} (options : FieldOptions field level)
    (tidy : ∀ set ∈ field.options, set.TidyAll context) : level.TidyAll context := by
  obtain ⟨set, found, same⟩ := options
  have kind : level.type = set.type := by
    rcases same with rfl | ⟨-, rfl⟩
    · rfl
    · cases set
      rfl
  have whole := tidy set found
  simp only [FieldRules.TidyAll, FieldRules.Tidy, kind] at whole ⊢
  exact whole

/-- The checks of a field and of its elements are placed there. -/
theorem ruleSet_placed {runtime : Runtime} {rules : FieldRuleSet} (member : label ∈ rules.agenda runtime message) :
    ∃ element, label.field = some [element] ∧ element.fieldNumber = some rules.base.field.number := by
  have whole {base : FieldValidationRules} (among : label ∈ base.agenda runtime message) :
      ∃ element, label.field = some [element] ∧ element.fieldNumber = some base.field.number :=
    ⟨_, base_placed among, rfl⟩
  cases rules with
  | field base => exact whole member
  | enum base enumRules =>
    rcases List.mem_append.mp member with inBase | only
    · exact whole inBase
    · cases List.mem_singleton.mp only
      exact ⟨_, rfl, rfl⟩
  | repeated base itemRules =>
    rcases List.mem_append.mp member with inBase | inItems
    · exact whole inBase
    · cases itemRules with
      | none => cases inItems
      | some set =>
        obtain ⟨item, -, inItem⟩ := List.mem_flatMap.mp inItems
        exact ⟨_, item_placed inItem, rfl⟩
  | map base keyRules valueRules =>
    rcases List.mem_append.mp member with inBase | inEntries
    · exact whole inBase
    · unfold entriesAgenda at inEntries
      split at inEntries
      · obtain ⟨entry, -, inEntry⟩ := List.mem_flatMap.mp inEntries
        exact ⟨_, entry_placed inEntry, rfl⟩
      · cases inEntries

/-- Only the rules of fields have rule paths. -/
theorem rule_ruleless (built : newMessageRules context message.descriptor = .ok rules) {rule : ValidationRules}
    (member : rule ∈ rules) (other : rule.fieldNumber = none) :
    ∀ label ∈ rule.agenda context.runtime message, label.rule = none := by
  intro label among
  cases rule with
  | message cel =>
    obtain ⟨options, celBuilt⟩ := newMessageRules_message built member
    obtain ⟨expr, listed, rfl⟩ := List.mem_map.mp among
    exact buildMessageRules_pathless celBuilt expr listed
  | messageOneof fields required =>
    cases List.mem_singleton.mp among
    rfl
  | oneof descriptor required =>
    cases List.mem_singleton.mp among
    rfl
  | field inner => cases other

/-- The checks of the options of a field are placed at the field. -/
theorem rule_placed (built : newMessageRules context message.descriptor = .ok rules) {rule : ValidationRules}
    (member : rule ∈ rules) (among : label ∈ ruled (rule.agenda context.runtime message)) :
    ∃ element, label.field = some [element] ∧ element.fieldNumber ≠ none ∧ element.fieldNumber = rule.fieldNumber := by
  obtain ⟨listed, set⟩ := mem_ruled.mp among
  cases number : rule.fieldNumber with
  | none => exact absurd (rule_ruleless built member number label listed) set
  | some value =>
    cases rule with
    | field inner =>
      obtain ⟨element, place, same⟩ := ruleSet_placed listed
      exact ⟨element, place, same ▸ Option.some_ne_none _, same.trans number⟩
    | _ => cases number

variable (numbers : Numbered pool) (ruleNumbers : RuleNumbers context.runtime) (tidy : TidyOptions pool context)
  (conforms : Conforms type message) (once : SetOnce message)

include numbers ruleNumbers tidy conforms once

/-- The rules of a message have no check of a field twice. -/
theorem own_nodup (built : newMessageRules context message.descriptor = .ok rules) :
    (ruled (rules.flatMap (ValidationRules.agenda context.runtime message))).Nodup := by
  have distinct : (type.descriptor.fields.map fun field => field.number).Nodup :=
    ((List.sublist_append_left _ _).map _).nodup (numbers type)
  rw [ruled, List.filter_flatMap]
  refine nodup_flatMap_of_marks (fun label => label.outer.bind FieldPathElement.fieldNumber) ValidationRules.fieldNumber
    (fun rule member => ?_) (fun rule member label among => ?_) ?_
  · cases rule with
    | field inner =>
      obtain ⟨names, field, declared, memberBuilt⟩ := newMessageRules_field built member
      obtain ⟨level, options, fieldBuilt⟩ := newMemberRules_options memberBuilt
      have known : field ∈ type.descriptor.fields := conforms.descriptor_eq ▸ declared
      have differ := once.keysDiffer (owns_declared numbers conforms declared)
      exact (ruleSet_nodup ruleNumbers (options.tidyAll (tidy type field known)) differ fieldBuilt).filter _
    | _ =>
      have empty := ruled_none (rule_ruleless built member rfl)
      rw [ruled] at empty
      rw [empty]
      exact List.nodup_nil
  · obtain ⟨element, place, set, same⟩ := rule_placed built member among
    rw [outer_placed place]
    exact ⟨set, same⟩
  · rw [conforms.descriptor_eq] at built
    exact (newMessageRules_numbers built).nodup distinct

end Messages

section Children

variable {message : Message} {field : FieldDescriptor} {place : FieldPathElement}

theorem itemChildren_sublist (values : List Value) (index : Nat) : ((itemChildren field index values).map Prod.fst).Sublist
    ((List.range' index values.length).map (fieldPathElement field.toFieldInfo).setIndex) := by
  induction values generalizing index with
  | nil => exact List.Sublist.refl _
  | cons value values ih =>
    cases value with
    | message child => exact (ih (index + 1)).cons_cons _
    | scalar value => exact (ih (index + 1)).cons _

theorem entryChildren_sublist {keyInfo valueInfo : FieldInfo} (entries : List Entry) :
    ((entryChildren field keyInfo valueInfo entries).map Prod.fst).Sublist
      (entries.map fun entry => entryPathElement field.toFieldInfo keyInfo valueInfo entry.key) := by
  induction entries with
  | nil => exact List.Sublist.refl _
  | cons entry entries ih =>
    obtain ⟨key, value⟩ := entry
    cases value with
    | message child => exact ih.cons_cons _
    | scalar value => exact ih.cons _

/-- The places of sub-messages are those of the field. -/
theorem fieldChildren_number {content : Field} (member : place ∈ (fieldChildren content).map Prod.fst) :
    place.fieldNumber = some content.number := by
  obtain ⟨field, value⟩ := content
  simp only [fieldChildren] at member
  split at member
  · cases member
  · cases value with
    | singular value =>
      cases value with
      | scalar value => cases member
      | message child =>
        cases List.mem_singleton.mp member
        rfl
    | repeated values =>
      obtain ⟨index, -, rfl⟩ := List.mem_map.mp ((itemChildren_sublist values 0).subset member)
      rfl
    | map entries =>
      simp only [valueChildren] at member
      split at member
      · split at member
        · obtain ⟨entry, -, rfl⟩ := List.mem_map.mp ((entryChildren_sublist entries).subset member)
          rfl
        · cases member
      · cases member

theorem fieldChildren_nodup (once : SetOnce message) {content : Field} (listed : content ∈ message.fields) :
    ((fieldChildren content).map Prod.fst).Nodup := by
  obtain ⟨field, value⟩ := content
  simp only [fieldChildren]
  split
  · exact List.nodup_nil
  · cases value with
    | singular value =>
      cases value with
      | scalar value => exact List.nodup_nil
      | message child => exact List.nodup_singleton _
    | repeated values =>
      refine (itemChildren_sublist values 0).nodup ?_
      refine List.Nodup.map (fun first second same => ?_) List.nodup_range'
      exact Subscript.index.inj (Option.some.inj (congrArg FieldPathElement.subscript same))
    | map entries =>
      simp only [valueChildren]
      split
      · rename_i keyInfo valueInfo valid shape
        split
        · refine (entryChildren_sublist entries).nodup (List.Nodup.of_map FieldPathElement.subscript ?_)
          rw [List.map_map]
          exact once.keys field entries keyInfo valueInfo valid listed shape
        · exact List.nodup_nil
      · exact List.nodup_nil

/-- No two sub-messages have one place. -/
theorem children_nodup (once : SetOnce message) : ((children message).map Prod.fst).Nodup := by
  rw [children, List.map_flatMap]
  exact nodup_flatMap_of_keys FieldPathElement.fieldNumber Field.number (fun content listed => fieldChildren_nodup once listed)
    (fun content _ place member => fieldChildren_number member) once.fields

end Children

section Runs

variable {pool : DescriptorPool} {context : BuildContext} {state : FactoryState pool} {type : MessageType pool}
  {message : Message} {label : Label}

theorem ruled_within (labels : List Label) (element : FieldPathElement) :
    ruled (labels.map fun label => label.within element) = (ruled labels).map fun label => label.within element :=
  List.filter_map

theorem ruled_finalize (labels : List Label) : ruled (labels.map Label.finalize) = (ruled labels).map Label.finalize := by
  have kept : (fun label : Label => label.rule.isSome) ∘ Label.finalize = fun label => label.rule.isSome :=
    funext fun label => Option.isSome_map
  rw [ruled, List.filter_map, kept, ← ruled]

theorem finalize_injective : Function.Injective Label.finalize := by
  rintro ⟨field, rule, ruleId⟩ ⟨field', rule', ruleId'⟩ same
  have fields : field = field' := Option.map_injective List.reverse_injective (congrArg Label.field same)
  have rules : rule = rule' := Option.map_injective List.reverse_injective (congrArg Label.rule same)
  have ids : ruleId = ruleId' := congrArg Label.ruleId same
  rw [fields, rules, ids]

theorem ruled_agenda (factory : ValidatorFactory) (message : Message) : ruled (agenda factory message) =
    ruled (ownAgenda factory message) ++ (children message).flatMap fun child =>
      (ruled (agenda factory child.2)).map fun label => label.within child.1 := by
  rw [agenda_eq, ruled, List.filter_append, List.filter_flatMap]
  refine congrArg _ (congrArg (List.flatMap · _) (funext fun child => ?_))
  exact ruled_within _ _

theorem own_built (consistent : Consistent context state) (conforms : Conforms type message) {rules : List ValidationRules}
    (found : (state.factory context).rulesOf message.descriptor = .ok rules) :
    newMessageRules context message.descriptor = .ok rules := by
  rw [conforms.descriptor_eq] at found ⊢
  exact consistent.rulesOf found

/-- The checks of a message itself are one step deep. -/
theorem own_placed (consistent : Consistent context state) (conforms : Conforms type message)
    (member : label ∈ ruled (ownAgenda (state.factory context) message)) : ∃ element, label.field = some [element] := by
  obtain ⟨listed, set⟩ := mem_ruled.mp member
  unfold ownAgenda at listed
  split at listed
  · cases listed
  · rename_i rules found
    obtain ⟨rule, among, inRule⟩ := List.mem_flatMap.mp listed
    obtain ⟨element, place, -⟩ := rule_placed (own_built consistent conforms found) among (mem_ruled.mpr ⟨inRule, set⟩)
    exact ⟨element, place⟩

theorem agenda_placed (consistent : Consistent context state) (conforms : Conforms type message)
    (member : label ∈ ruled (agenda (state.factory context) message)) : ∃ path, label.field = some path ∧ path ≠ [] := by
  rw [ruled_agenda] at member
  rcases List.mem_append.mp member with own | below
  · obtain ⟨element, place⟩ := own_placed consistent conforms own
    exact ⟨_, place, List.cons_ne_nil _ _⟩
  · obtain ⟨child, listed, among⟩ := List.mem_flatMap.mp below
    obtain ⟨inner, inside, rfl⟩ := List.mem_map.mp among
    exact ⟨_, rfl, List.append_ne_nil_of_right_ne_nil _ (List.cons_ne_nil _ _)⟩

variable (numbers : Numbered pool) (ruleNumbers : RuleNumbers context.runtime) (tidy : TidyOptions pool context)

include numbers ruleNumbers tidy

/-- No check with a rule path is on the agenda twice. -/
theorem agenda_nodup (consistent : Consistent context state) (message : Message) (conforms : Conforms type message)
    (once : ∀ sub, ReflTransGen Child message sub → SetOnce sub) : (ruled (agenda (state.factory context) message)).Nodup := by
  induction message using children_induction generalizing type with
  | step message ih =>
    have whole := once message .refl
    rw [ruled_agenda]
    refine List.Nodup.append ?own ?below fun label inOwn inBelow => ?apart
    case own =>
      unfold ownAgenda
      split
      · exact List.nodup_nil
      · rename_i rules found
        exact own_nodup numbers ruleNumbers tidy conforms whole (own_built consistent conforms found)
    case below =>
      refine nodup_flatMap_of_keys Label.outer Prod.fst (fun child listed => ?_) (fun child _ label member => ?_)
        (children_nodup whole)
      · obtain ⟨next, childConforms⟩ := (children_goesTo listed).conforms conforms
        have distinct := ih child listed childConforms fun sub path => once sub (.head ⟨child.1, listed⟩ path)
        refine distinct.map_on fun first inFirst second inSecond same => within_inj (iff_of_false ?_ ?_) same
        · obtain ⟨path, place, -⟩ := agenda_placed consistent childConforms inFirst
          rw [place]
          exact Option.some_ne_none path
        · obtain ⟨path, place, -⟩ := agenda_placed consistent childConforms inSecond
          rw [place]
          exact Option.some_ne_none path
      · obtain ⟨inner, -, rfl⟩ := List.mem_map.mp member
        exact outer_within child.1
    case apart =>
      obtain ⟨element, place⟩ := own_placed consistent conforms inOwn
      obtain ⟨child, listed, among⟩ := List.mem_flatMap.mp inBelow
      obtain ⟨inner, inside, rfl⟩ := List.mem_map.mp among
      obtain ⟨next, childConforms⟩ := (children_goesTo listed).conforms conforms
      obtain ⟨path, innerPlace, nonempty⟩ := agenda_placed consistent childConforms inside
      rw [Label.within, innerPlace] at place
      have lengths := congrArg List.length (Option.some.inj place)
      rw [Option.getD_some, List.length_append] at lengths
      exact nonempty (List.length_eq_zero_iff.mp (Nat.succ.inj lengths))

/-- What is returned is a part of the agenda in its order, and has no check twice. -/
theorem violations_once (history : List (Operation pool)) (conforms : Conforms type message)
    (once : ∀ sub, ReflTransGen Child message sub → SetOnce sub) (failFast : Bool) (violations : List RuleViolation)
    (returned : Validator.validate ((performAll context {} history).factory context) failFast message = .ok violations) :
    (violations.map RuleViolation.label).Sublist
        ((agenda ((performAll context {} history).factory context) message).map Label.finalize) ∧
      (ruled (violations.map RuleViolation.label)).Nodup := by
  have consistent : Consistent context (performAll context {} history) := performAll_consistent history consistent_new
  have follows := validate_follows returned
  refine ⟨follows, (follows.filter _).nodup ?_⟩
  have distinct := (agenda_nodup numbers ruleNumbers tidy consistent message conforms once).map finalize_injective
  rw [← ruled_finalize] at distinct
  exact distinct

end Runs

section Sample

theorem tidy_unset (context : BuildContext) (cel : List Rule) : (FieldRules.mk none false cel [] .notSet).Tidy context := by
  intro member message impossible
  cases impossible

theorem tidyOptions_stocks : TidyOptions stocks stockFactory.context := by
  intro type field declared options set
  have known : type.descriptor = stock.descriptor := List.mem_singleton.mp type.declared
  rw [known] at declared
  cases List.mem_singleton.mp declared
  cases set
  refine ⟨fun member message held => ?_, fun inner among => ?_⟩
  · cases held
    refine ⟨List.nodup_nil, ?_, ?_⟩
    all_goals
      intro field impossible
      cases impossible
  · rcases List.mem_append.mp among with inKeys | inValues
    · cases List.mem_singleton.mp inKeys
      exact tidy_unset _ _
    · cases List.mem_singleton.mp inValues
      exact tidy_unset _ _

theorem setOnce_stock (sub : Message) (path : ReflTransGen Child stock sub) : SetOnce sub := by
  rcases path.cases_head with rfl | ⟨next, ⟨element, impossible⟩, -⟩
  · refine ⟨List.nodup_singleton _, fun field entries keyInfo valueInfo valid listed shape => ?_⟩
    cases List.mem_singleton.mp listed
    exact List.nodup_singleton _
  · cases impossible

/-- The key and the value of an entry have one place and one rule id, but two rule paths. -/
theorem violations_once_stock :
    (ruled ([stockViolation true .keys, stockViolation false .values].map RuleViolation.label)).Nodup :=
  (violations_once numbered_stocks (ruleNumbers_plain atLeastThree) tidyOptions_stocks [] conforms_stock setOnce_stock false
    [stockViolation true .keys, stockViolation false .values] rfl).2

end Sample
end Protovalidate.Validate