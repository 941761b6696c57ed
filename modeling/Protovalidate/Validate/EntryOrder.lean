import Protovalidate.Validate.Compositional
import Protovalidate.Validate.PlainRuntime
import Protovalidate.Validate.Reordered
import Protovalidate.Validate.TwoRuns
import Protovalidate.Validate.Verdicts

/-! The order of the entries of a map is not specified. Messages that differ in nothing
else have the same violations, in some order, if no expression can tell the difference. -/

namespace Protovalidate.Validate

open Foundation Check Relation

section Assumptions

variable (runtime : Runtime)

/-- Values that the runtime makes of contents that differ in the order of entries. -/
inductive ShownAlike : CelValue → CelValue → Prop where
  | message {message message' : Message} (same : message.Reordered message') :
    ShownAlike (runtime.createMessage message) (runtime.createMessage message')
  | single {field : FieldInfo} {value value' : Option Value} {this this' : CelValue}
    (same : Option.Rel Value.Reordered value value') (made : runtime.createValueFromSingleField field value = .ok this)
    (made' : runtime.createValueFromSingleField field value' = .ok this') : ShownAlike this this'
  | list (field : FieldDescriptor) {values values' : List Value} (same : List.Forall₂ Value.Reordered values values') :
    ShownAlike (runtime.createList field values) (runtime.createList field values')
  | map (field : FieldDescriptor) {entries entries' : List Entry} (same : Rearranged Entry.Reordered entries entries') :
    ShownAlike (runtime.createMap field entries) (runtime.createMap field entries')
  | item (field : FieldInfo) {value value' : Value} (same : value.Reordered value') :
    ShownAlike (runtime.listItem field value) (runtime.listItem field value')
  | value (field : FieldInfo) {value value' : Value} (same : value.Reordered value') :
    ShownAlike (runtime.mapValue field value) (runtime.mapValue field value')

/-- An expression whose result does not depend on the order of entries. -/
def OrderBlind (expression : String) : Prop := ∀ this this', ShownAlike runtime this this' → Blind runtime this this' expression

/-- Keys are read one by one, and the order of entries decides neither whether a value
can be read nor whether it is empty. -/
structure ReadsEach : Prop where
  single : ∀ field value value', Option.Rel Value.Reordered value value' → ∀ failure,
    runtime.createValueFromSingleField field value = .error failure ↔
      runtime.createValueFromSingleField field value' = .error failure
  item : ∀ field value value', Value.Reordered value value' →
    isEmptyItem (runtime.listItem field value) = isEmptyItem (runtime.listItem field value')
  value : ∀ field value value', Value.Reordered value value' →
    isEmptyItem (runtime.mapValue field value) = isEmptyItem (runtime.mapValue field value')
  keys : ∀ field, ∃ key : Scalar → Except StatusError CelValue, ∀ keys, runtime.listKeys field keys = keys.mapM key

/-- The expressions of a rule: its own, and those for items, keys and values. -/
def FieldRuleSet.cels : FieldRuleSet → List CelValidationRules
  | field base => [base.toCelValidationRules]
  | enum base _ => [base.toCelValidationRules]
  | repeated base items => base.toCelValidationRules :: items.toList.map fun rules => rules.base.toCelValidationRules
  | map base keys values =>
    base.toCelValidationRules :: (keys.toList ++ values.toList).map fun rules => rules.base.toCelValidationRules

def ValidationRules.cels : ValidationRules → List CelValidationRules
  | .message rules => [rules]
  | .field rules => rules.cels
  | _ => []

def OrderBlindRules (cel : CelValidationRules) : Prop := ∀ expr ∈ cel.exprs, OrderBlind runtime expr.rule.expression

variable {runtime} {cel : CelValidationRules}

theorem OrderBlindRules.blind {this this' : CelValue} (blind : OrderBlindRules runtime cel)
    (shown : ShownAlike runtime this this') : BlindRules runtime cel this this' :=
  fun expr member => blind expr member _ _ shown

end Assumptions

section Fields

variable {runtime : Runtime} (reads : ReadsEach runtime) {base items : FieldValidationRules} {message message' : Message}

/-- What `ValidateAny` reads of a message. -/
structure SameStrings (anyMsg anyMsg' : Message) : Prop where
  descriptor : anyMsg.descriptor = anyMsg'.descriptor
  strings : ∀ field, FieldValidationRules.getString anyMsg field = FieldValidationRules.getString anyMsg' field

theorem Message.Reordered.sameStrings (same : message.Reordered message') : SameStrings message message' :=
  ⟨same.descriptor, same.getString⟩

theorem anyStrings_twin (any : AnyRules) (place place' : ProtoMessage) (descriptor : FieldInfo) (index : Option Nat)
    {anyMsg anyMsg' : Message} (same : SameStrings anyMsg anyMsg') :
    Twin Eq (FieldValidationRules.validateAny runtime any ⟨place, descriptor, index⟩ anyMsg)
      (FieldValidationRules.validateAny runtime any ⟨place', descriptor, index⟩ anyMsg') := by
  have equal : FieldValidationRules.validateAny runtime any ⟨place, descriptor, index⟩ anyMsg =
      FieldValidationRules.validateAny runtime any ⟨place, descriptor, index⟩ anyMsg' := by
    unfold FieldValidationRules.validateAny
    simp only [same.descriptor, same.strings]
  rw [equal]
  exact validateAny_twin any place place' descriptor index anyMsg'

variable (same : message.Reordered message')

include same

theorem getMessage_strings : SameStrings (base.getMessage runtime message) (base.getMessage runtime message') := by
  have value := same.single base.field
  unfold FieldValidationRules.getMessage
  generalize message.single base.field = read, message'.single base.field = read' at value ⊢
  cases value with
  | none => exact ⟨rfl, fun _ => rfl⟩
  | some inside =>
    cases inside with
    | scalar _ => exact ⟨rfl, fun _ => rfl⟩
    | message inside => exact inside.sameStrings

theorem singleAny_reordered :
    Twin Eq (base.validateSingleAny runtime message) (base.validateSingleAny runtime message') := by
  unfold FieldValidationRules.validateSingleAny
  split
  · exact parallel_pure rfl
  · split
    · exact anyStrings_twin _ _ _ _ _ (getMessage_strings same)
    · exact parallel_pure rfl

variable (blind : OrderBlindRules runtime base.toCelValidationRules)

include reads blind

theorem singleValue_reordered :
    Twin Eq (base.validateSingleValue runtime message) (base.validateSingleValue runtime message') := by
  have value := same.single base.field
  have alike := reads.single base.field.toFieldInfo _ _ value
  unfold FieldValidationRules.validateSingleValue
  cases made : runtime.createValueFromSingleField base.field.toFieldInfo (message.single base.field) with
  | error failure =>
    rw [(alike failure).mp made]
    exact parallel_pure rfl
  | ok this =>
    cases made' : runtime.createValueFromSingleField base.field.toFieldInfo (message'.single base.field) with
    | error failure =>
      rw [(alike failure).mpr made'] at made
      cases made
    | ok this' => exact validateThis_twin (blind.blind (.single value made made'))

/-- The rules of a field as a whole. -/
theorem whole_reordered : Twin Eq (base.validate runtime message) (base.validate runtime message') := by
  unfold FieldValidationRules.validate
  cases base.field.shape with
  | map keyInfo valueInfo valid =>
    simp only [(same.entries base.field).isEmpty]
    exact validateContainer_twin _ (blind.blind (.map base.field (same.entries base.field)))
  | repeated =>
    simp only [(Rearranged.of_forall₂ (same.elements base.field)).isEmpty]
    exact validateContainer_twin _ (blind.blind (.list base.field (same.elements base.field)))
  | singular =>
    refine (parallel_note _ _).then fun _ => ?_
    unfold FieldValidationRules.validateSingular
    rw [same.hasField base.field]
    split
    · exact required_twin
    · split
      · exact parallel_pure rfl
      · exact (singleAny_reordered same).orFail (singleValue_reordered reads same blind)

theorem enum_reordered (enumRules : EnumRules) : Twin Eq (EnumValidationRules.validate runtime base enumRules message)
    (EnumValidationRules.validate runtime base enumRules message') := by
  refine (whole_reordered reads same blind).orExit ?_
  unfold EnumValidationRules.validateDefinedOnly
  split
  · rw [same.getEnumValue base.field]
    refine (parallel_note _ _).then fun _ => Parallel.then (emplaceBackIf_twin _ ?_) fun _ => parallel_pure rfl
    rfl
  · exact parallel_pure rfl

end Fields

section Elements

variable {runtime : Runtime} (reads : ReadsEach runtime) {base items : FieldValidationRules} {message message' : Message}

include reads

theorem checked_reordered {values values' : List Value} (pairs : List.Forall₂ Value.Reordered values values') :
    List.Forall₂ (fun item item' => item.1 = item'.1 ∧ item.2.Reordered item'.2)
      (RepeatedValidationRules.checked runtime base items values)
      (RepeatedValidationRules.checked runtime base items values') := by
  refine List.rel_filter (fun item item' pair => ?_) ?_
  · simp only [reads.item base.field.toFieldInfo _ _ pair.2]
  · rw [List.forall₂_map_left_iff, List.forall₂_map_right_iff]
    generalize 0 = start
    induction pairs generalizing start with
    | nil => exact .nil
    | cons pair _ ih => exact .cons ⟨rfl, pair⟩ (ih (start + 1))

omit reads in
theorem itemRules_reordered {value value' : Value} (blind : OrderBlindRules runtime items.toCelValidationRules)
    (same : value.Reordered value') (index : Nat) :
    Twin Eq (RepeatedValidationRules.itemRules runtime base items message (index, value))
      (RepeatedValidationRules.itemRules runtime base items message' (index, value')) := by
  refine (validateCel_twin (blind.blind (.item base.field.toFieldInfo same))
    (rebinds_insert_this Activation.empty)).bind fun result result' leaves => ?_
  cases items.anyRules with
  | none => exact parallel_pure leaves.1
  | some any =>
    refine anyStrings_twin any _ _ _ _ ?_
    cases same with
    | scalar _ => exact ⟨rfl, fun _ => rfl⟩
    | message inside => exact inside.sameStrings

theorem repeated_reordered {itemRules : Option FieldRuleSet} (same : message.Reordered message')
    (blind : ∀ cel ∈ (FieldRuleSet.repeated base itemRules).cels, OrderBlindRules runtime cel) :
    Twin Eq (RepeatedValidationRules.validate runtime base message itemRules)
      (RepeatedValidationRules.validate runtime base message' itemRules) := by
  refine (whole_reordered reads same (blind _ List.mem_cons_self)).orExit ?_
  cases itemRules with
  | none => exact parallel_pure rfl
  | some rules =>
    have inside : OrderBlindRules runtime rules.base.toCelValidationRules :=
      blind _ (List.mem_cons_of_mem _ List.mem_cons_self)
    refine Parallel.eachThen ((checked_reordered reads (same.elements base.field)).imp fun item item' pair => ?_)
      (parallel_pure rfl)
    obtain ⟨index, value⟩ := item
    obtain ⟨index', value'⟩ := item'
    obtain ⟨rfl, pair⟩ := pair
    exact (itemRules_reordered inside pair index).framed (itemPlaced_uniform base message message' runtime index)

variable {keyInfo valueInfo : FieldInfo} {keyRules valueRules : Option FieldRuleSet}

theorem entryCheck_reordered {entry entry' : Entry} (same : entry.Reordered entry') (key : CelValue)
    (blind : ∀ rules ∈ valueRules, OrderBlindRules runtime rules.base.toCelValidationRules) :
    Twin Eq (entryCheck runtime base keyInfo valueInfo keyRules valueRules (entry, key))
      (entryCheck runtime base keyInfo valueInfo keyRules valueRules (entry', key)) := by
  have alike : EntryAlike runtime valueInfo valueRules entry entry' := by
    obtain ⟨inside⟩ := same
    exact ⟨rfl, fun _ => reads.value valueInfo _ _ inside, fun rules found => (blind rules found).blind (.value valueInfo inside)⟩
  refine (entryRound_twin alike key Activation.empty).then fun result => ?_
  cases result with
  | inl status => exact parallel_pure rfl
  | inr left => exact parallel_pure rfl

end Elements

section Findings

/-- The violations of a report without their order, or that there is an error. -/
abbrev findings (result : Report) : WithTop (Multiset Violation) := bag RuleViolation.proto result

theorem findings_followedBy (first second : Report) : findings (followedBy first second) = findings first + findings second := by
  cases first with
  | error failure => rfl
  | ok early =>
    cases second with
    | error failure => rfl
    | ok late =>
      rw [followedBy, findings, bag, List.map_append, ← Multiset.coe_add]
      rfl

theorem findings_reportAll {ι : Type} (reported : ι → Report) (elements : List ι) :
    findings (reportAll reported elements) = (elements.map fun element => findings (reported element)).sum := by
  induction elements with
  | nil => rfl
  | cons element elements ih => rw [reportAll, findings_followedBy, ih, List.map_cons, List.sum_cons]

/-- What `prepend` does to the proto of a violation. -/
def prependProto (element : FieldPathElement) (proto : Violation) : Violation :=
  { proto with field := some (element :: proto.field.getD []) }

theorem findings_prepend (element : FieldPathElement) (result : Report) :
    findings (result.map (List.map (prepend element))) = (findings result).map (Multiset.map (prependProto element)) := by
  have tells (violation : RuleViolation) : (prepend element violation).proto = prependProto element violation.proto := rfl
  exact bag_map tells result

theorem findings_twin {part part' : RuleCheck Status} (twin : Twin Eq part part') :
    findings (report part) = findings (report part') := by
  have ends := twin false {} {} rfl
  unfold report
  change RunsAlike _ _ (alone part) (alone part') at ends
  obtain ⟨results, entries⟩ := ends
  generalize alone part = run at results entries ⊢
  generalize alone part' = run' at results entries ⊢
  obtain ⟨status, ctx⟩ := run
  obtain ⟨status', ctx'⟩ := run'
  obtain rfl : status = status' := results
  cases status with
  | error failure => rfl
  | ok _ =>
    have same : (ctx.entries.map RuleViolation.finalize).map RuleViolation.proto =
        (ctx'.entries.map RuleViolation.finalize).map RuleViolation.proto := finalize_uniform.map entries
    exact congrArg (fun protos : List Violation => ((protos : Multiset Violation) : WithTop (Multiset Violation))) same

end Findings

section Entries

variable (runtime : Runtime) (base : FieldValidationRules) (keyInfo valueInfo : FieldInfo)
variable (keyRules valueRules : Option FieldRuleSet) (key : Scalar → Except StatusError CelValue)

/-- The findings of one entry. There is an error if its key cannot be read. -/
def entryFindings (entry : Entry) : WithTop (Multiset Violation) :=
  match key entry.key with
  | .error _ => ⊤
  | .ok value => findings (report (entryCheck runtime base keyInfo valueInfo keyRules valueRules (entry, value)))

variable {runtime base keyInfo valueInfo keyRules valueRules key} {entries : List Entry}

theorem entryFindings_unread {failure : StatusError} (unread : (entries.map Entry.key).mapM key = .error failure) :
    (entries.map (entryFindings runtime base keyInfo valueInfo keyRules valueRules key)).sum = ⊤ := by
  induction entries generalizing failure with
  | nil => cases unread
  | cons entry entries ih =>
    rw [List.map_cons, List.sum_cons]
    rw [List.map_cons, List.mapM_cons] at unread
    cases first : key entry.key with
    | error _ => rw [entryFindings, first, WithTop.top_add]
    | ok value =>
      cases rest : (entries.map Entry.key).mapM key with
      | error failure' =>
        rw [ih rest, WithTop.add_top]
      | ok values =>
        rw [first, rest] at unread
        cases unread

theorem entryFindings_read {keys : List CelValue} (read : (entries.map Entry.key).mapM key = .ok keys) :
    (entries.map (entryFindings runtime base keyInfo valueInfo keyRules valueRules key)).sum =
      findings (reportAll (fun entry => report (entryCheck runtime base keyInfo valueInfo keyRules valueRules entry))
        (entries.zip keys)) := by
  induction entries generalizing keys with
  | nil => rfl
  | cons entry entries ih =>
    rw [List.map_cons, List.mapM_cons] at read
    obtain ⟨value, first, read⟩ := bind_ok read
    obtain ⟨values, rest, read⟩ := bind_ok read
    cases read
    rw [List.map_cons, List.sum_cons, ih rest, List.zip_cons_cons, reportAll, findings_followedBy, entryFindings, first]

/-- The parts for the entries find what the entries do, in any order. -/
theorem findings_entryParts {message : Message} {valid : keyInfo.type.isMapKey = true}
    (shape : base.field.shape = .map keyInfo valueInfo valid) (some : (keyRules.isNone && valueRules.isNone) = false)
    (keyed : ∀ keys, runtime.listKeys keyInfo keys = keys.mapM key) :
    findings (reportAll (fun part => report part.check) (entryParts runtime message base keyRules valueRules)) =
      ((message.entries base.field).map (entryFindings runtime base keyInfo valueInfo keyRules valueRules key)).sum := by
  unfold entryParts
  simp only [some, Bool.false_eq_true, ↓reduceIte, shape, keyed]
  cases read : ((message.entries base.field).map Entry.key).mapM key with
  | error failure =>
    rw [entryFindings_unread read]
    rfl
  | ok keys =>
    rw [entryFindings_read read, findings_reportAll, findings_reportAll, List.map_map]
    rfl

end Entries

section Rules

variable {runtime : Runtime} (reads : ReadsEach runtime) {message message' : Message} (same : message.Reordered message')

include reads same

theorem entryParts_reordered {base : FieldValidationRules} {keyRules valueRules : Option FieldRuleSet}
    (blind : ∀ rules ∈ valueRules, OrderBlindRules runtime rules.base.toCelValidationRules) :
    findings (reportAll (fun part => report part.check) (entryParts runtime message base keyRules valueRules)) =
      findings (reportAll (fun part => report part.check) (entryParts runtime message' base keyRules valueRules)) := by
  cases some : keyRules.isNone && valueRules.isNone with
  | true =>
    unfold entryParts
    simp only [some, ↓reduceIte]
  | false =>
    cases shape : base.field.shape with
    | map keyInfo valueInfo valid =>
      obtain ⟨key, keyed⟩ := reads.keys keyInfo
      rw [findings_entryParts shape some keyed, findings_entryParts shape some keyed]
      refine Rearranged.sum (same.entries base.field) ?_
      intro entry _ entry' pair
      have keys : entry.key = entry'.key := by
        obtain ⟨_⟩ := pair
        rfl
      unfold entryFindings
      rw [keys]
      cases key entry'.key with
      | error failure => rfl
      | ok value => exact findings_twin (entryCheck_reordered reads pair value blind)
    | _ =>
      unfold entryParts
      simp only [some, shape]

theorem rules_reordered {rule : ValidationRules} (blind : ∀ cel ∈ rule.cels, OrderBlindRules runtime cel) :
    findings (report (rule.validate runtime message)) = findings (report (rule.validate runtime message')) := by
  cases rule with
  | message cel =>
    exact findings_twin (messageRules_twin ((blind cel List.mem_cons_self).blind (.message same)))
  | messageOneof fields required => exact findings_twin (messageOneof_twin same.hasField fields required)
  | oneof descriptor required => exact findings_twin (oneof_twin same.hasField descriptor required)
  | field rules =>
    cases rules with
    | field base => exact findings_twin (whole_reordered reads same (blind _ List.mem_cons_self))
    | enum base enumRules => exact findings_twin (enum_reordered reads same (blind _ List.mem_cons_self) enumRules)
    | repeated base itemRules => exact findings_twin (repeated_reordered reads same blind)
    | map base keyRules valueRules =>
      have values : ∀ rules ∈ valueRules, OrderBlindRules runtime rules.base.toCelValidationRules := fun rules found =>
        blind _ (List.mem_cons_of_mem _ (List.mem_map_of_mem (List.mem_append_right _ (Option.mem_toList.mpr found))))
      rw [report_ruleParts, report_ruleParts, ruleParts, ruleParts, fieldParts, fieldParts, reportAll, reportAll,
        findings_followedBy, findings_followedBy, entryParts_reordered reads same values]
      exact congrArg (· + _) (findings_twin (whole_reordered reads same (blind _ List.mem_cons_self)))

end Rules

section Runs

variable {factory : ValidatorFactory} (reads : ReadsEach factory.context.runtime) {message message' : Message}

/-- No expression of the rules that are run for a message and what is below it can tell
the order of entries. -/
def OrderUnread (factory : ValidatorFactory) (message : Message) : Prop :=
  ∀ sub, ReflTransGen Child message sub → ∀ rules, factory.rulesOf sub.descriptor = .ok rules →
    ∀ rule ∈ rules, ∀ cel ∈ rule.cels, OrderBlindRules factory.context.runtime cel

include reads

theorem validate_findings (same : message.Reordered message') (unread : OrderUnread factory message) :
    findings (Validator.validate factory false message) = findings (Validator.validate factory false message') := by
  induction message using children_induction generalizing message' with
  | step message ih =>
    have own : findings (ownViolations factory message) = findings (ownViolations factory message') := by
      unfold ownViolations
      rw [← same.descriptor]
      cases found : factory.rulesOf message.descriptor with
      | error failure => rfl
      | ok rules =>
        simp only [findings_reportAll]
        refine congrArg List.sum (List.map_congr_left fun rule member => ?_)
        exact rules_reordered reads same (unread message .refl rules found rule member)
    rw [validate_eq, validate_eq, findings_followedBy, findings_followedBy, own, findings_reportAll, findings_reportAll]
    refine congrArg (findings (ownViolations factory message') + ·) (Rearranged.sum same.children ?_)
    intro child member child' pair
    obtain ⟨element, sub⟩ := child
    obtain ⟨element', sub'⟩ := child'
    obtain ⟨rfl, below⟩ : element = element' ∧ sub.Reordered sub' := pair
    have inside : findings (Validator.validate factory false sub) = findings (Validator.validate factory false sub') :=
      ih (element, sub) member below fun deeper path => unread deeper (path.head ⟨element, member⟩)
    simp only [findings_prepend, inside]

/-- The order of the entries of maps does not matter: either there is an error for both
messages, or they have the same violations in some order; and both modes find violations
in both of them or in none. -/
theorem validate_reordered (same : message.Reordered message') (unread : OrderUnread factory message) :
    ((∃ failure, Validator.validate factory false message = .error failure) ↔
      ∃ failure, Validator.validate factory false message' = .error failure) ∧
    (∀ violations violations', Validator.validate factory false message = .ok violations →
      Validator.validate factory false message' = .ok violations' →
        (violations.map RuleViolation.proto).Perm (violations'.map RuleViolation.proto)) ∧
    ∀ failFast, Validator.validate factory failFast message = .ok [] ↔ Validator.validate factory failFast message' = .ok [] := by
  have equal : findings _ = findings _ := validate_findings reads same unread
  refine ⟨?_, ?_, fun failFast => ?_⟩
  · rcases bag_eq equal with ⟨failure, failure', error, error'⟩ | ⟨violations, violations', ok, ok', -⟩
    · exact iff_of_true ⟨failure, error⟩ ⟨failure', error'⟩
    · rw [ok, ok']
      exact iff_of_false (fun ⟨_, impossible⟩ => by cases impossible) (fun ⟨_, impossible⟩ => by cases impossible)
  · intro violations violations' ok ok'
    rcases bag_eq equal with ⟨failure, failure', error, error'⟩ | ⟨found, found', some, some', order⟩
    · rw [error] at ok
      cases ok
    · cases ok.symm.trans some
      cases ok'.symm.trans some'
      exact order
  · have none : Validator.validate factory false message = .ok [] ↔ Validator.validate factory false message' = .ok [] := by
      have zero : findings _ = 0 ↔ findings _ = 0 := iff_of_eq (congrArg (· = 0) equal)
      rwa [bag_eq_zero, bag_eq_zero] at zero
    rw [validate_clean] at none ⊢
    rwa [validate_clean] at none ⊢

end Runs

section Sample

/-- There may be one label, which is not an old one. -/
def fewLabels : CelValue → Bool
  | .map entries => decide (entries.length ≤ 1)
  | .string text => text != "old"
  | _ => true

def labelled (_ : String) (activation : Activation) : Except StatusError CelValue :=
  .ok (.bool (((activation "this").map fewLabels).getD true))

def pantryContext : BuildContext := { runtime := plainRuntime labelled }

theorem ofValue_fewLabels {value value' : Value} (same : value.Reordered value') :
    fewLabels (PlainRuntime.ofValue value) = fewLabels (PlainRuntime.ofValue value') := by
  cases same with
  | scalar _ => rfl
  | message _ => rfl

theorem orderBlind_labelled (expression : String) : OrderBlind pantryContext.runtime expression := by
  intro this this' shown activation activation' rebound
  have same : fewLabels this = fewLabels this' := by
    cases shown with
    | message _ => rfl
    | single same made made' =>
      cases made
      cases made'
      cases same with
      | none => rfl
      | some inside => exact ofValue_fewLabels inside
    | list _ _ => rfl
    | map _ same =>
      simp only [pantryContext, plainRuntime, fewLabels, List.length_map]
      rw [same.length]
    | item _ same => exact ofValue_fewLabels same
    | value _ same => exact ofValue_fewLabels same
  change labelled expression activation = labelled expression activation'
  simp only [labelled, rebound.left, rebound.right, Option.map_some, same]

theorem readsEach_plain (evaluate : String → Activation → Except StatusError CelValue) : ReadsEach (plainRuntime evaluate) where
  single _ _ _ _ _ := iff_of_false (fun impossible => by cases impossible) fun impossible => by cases impossible
  item _ _ _ same := by
    cases same with
    | scalar _ => rfl
    | message _ => rfl
  value _ _ _ same := by
    cases same with
    | scalar _ => rfl
    | message _ => rfl
  keys _ := by
    refine ⟨fun key => .ok (PlainRuntime.ofScalar key), fun keys => ?_⟩
    induction keys with
    | nil => rfl
    | cons key keys ih =>
      rw [List.mapM_cons, ← ih]
      rfl

def entryInfo (number : Nat) (name : String) : FieldInfo where
  number := number
  name := name
  fullName := "Pantry.LabelsEntry." ++ name
  type := .string

def labelsField : FieldDescriptor where
  number := 1
  name := "labels"
  fullName := "Pantry.labels"
  type := .message
  messageType := "Pantry.LabelsEntry"
  shape := .map (entryInfo 1 "key") (entryInfo 2 "value") rfl
  options := some ⟨none, false, [{ id := "labels", message := "too many", expression := "size(this) <= 1" }], [],
    .map { typeName := "buf.validate.MapRules" } none
      (some ⟨none, false, [{ id := "label", message := "old label", expression := "this != 'old'" }], [], .notSet⟩)⟩

def labelEntry (key text : String) : Entry := ⟨.string key, .scalar (.string text)⟩

def pantry (labels : List Entry) : Message := ⟨{ fullName := "Pantry", fields := [labelsField] }, [.mk labelsField (.map labels)]⟩

def pantryOnce : Message := pantry [labelEntry "a" "old", labelEntry "b" "old"]

def pantryAgain : Message := pantry [labelEntry "b" "old", labelEntry "a" "old"]

theorem pantry_reordered : pantryOnce.Reordered pantryAgain := by
  have plain : List.Forall₂ Entry.Reordered [labelEntry "a" "old", labelEntry "b" "old"] _ :=
    .cons (.mk (.scalar _)) (.cons (.mk (.scalar _)) .nil)
  exact .mk (.cons (.mk (.map plain (.swap _ _ _))) .nil)

theorem validate_reordered_pantry :
    ((∃ failure, Validator.validate { context := pantryContext } false pantryOnce = .error failure) ↔
      ∃ failure, Validator.validate { context := pantryContext } false pantryAgain = .error failure) ∧
    (∀ violations violations', Validator.validate { context := pantryContext } false pantryOnce = .ok violations →
      Validator.validate { context := pantryContext } false pantryAgain = .ok violations' →
        (violations.map RuleViolation.proto).Perm (violations'.map RuleViolation.proto)) ∧
    ∀ failFast, Validator.validate { context := pantryContext } failFast pantryOnce = .ok [] ↔
      Validator.validate { context := pantryContext } failFast pantryAgain = .ok [] :=
  validate_reordered (readsEach_plain labelled) pantry_reordered
    fun _ _ _ _ _ _ _ _ expr _ => orderBlind_labelled expr.rule.expression

/-- The rule id of a violation, and the subscripts on its path. -/
def whereFound (violation : RuleViolation) : String × List (Option Subscript) :=
  (violation.proto.ruleId, (violation.proto.field.getD []).map FieldPathElement.subscript)

example : (Validator.validate { context := pantryContext } false pantryOnce).map (List.map whereFound) =
    .ok [("labels", [none]), ("label", [some (.stringKey "a")]), ("label", [some (.stringKey "b")])] := rfl

example : (Validator.validate { context := pantryContext } false pantryAgain).map (List.map whereFound) =
    .ok [("labels", [none]), ("label", [some (.stringKey "b")]), ("label", [some (.stringKey "a")])] := rfl

end Sample

end Protovalidate.Validate
