import Protovalidate.Validate.IgnoredContents
import Protovalidate.Validate.Loading
import Protovalidate.Validate.PlainRuntime

/-! Messages that differ in the contents of ignored fields only: the validator has the
same result for both. -/

namespace Protovalidate.Validate

open Foundation Check Relation

section Messages

variable {pool : DescriptorPool} (standard : Standard pool) {context : BuildContext} (shows : ShowsMessages context.runtime)
variable {hidden : FieldDescriptor → Bool} (ignored : ∀ field, hidden field = true → ignoresAlways field = true)
variable {type : MessageType pool} {message message' : Message}

include standard shows ignored

theorem fieldRules_twin {rules : List ValidationRules} {inner : FieldRuleSet} (conforms : Conforms type message)
    (same : message.erase hidden = message'.erase hidden)
    (built : newMessageRules context type.descriptor = .ok rules) (member : .field inner ∈ rules)
    (unread : inner.Unread context.runtime hidden message) :
    Twin Eq (inner.validate context.runtime message) (inner.validate context.runtime message') := by
  obtain ⟨names, field, declared, memberBuilt⟩ := newMessageRules_field built member
  obtain ⟨options, fieldLvl, inner', set, kind, inside, equal, builtFor⟩ := newMemberRules_built memberBuilt
  cases equal
  obtain rfl : inner.base.field = field := builtFor.place
  have owns : Owns message inner.base.field := conforms.owns standard declared
  unfold FieldRuleSet.Unread at unread
  cases named : hidden inner.base.field with
  | true =>
    rw [if_pos named] at unread
    exact ruleSet_twin_hidden builtFor same owns named inside (ignored _ named) set kind unread
  | false =>
    rw [if_neg (Bool.eq_false_iff.mp named)] at unread
    by_cases reaches : ∃ value, message.find inner.base.field = some value ∧ value.holds hidden = true
    · obtain ⟨silent, silentInside⟩ := unread reaches
      refine ruleSet_twin_quiet builtFor same owns shows named (fun value found held member => ?_) silent silentInside
      rintro below rfl holds
      exact conforms.ordinary standard ignored (owns.find_mem found) member holds
    · refine ruleSet_twin_of_find (find_of_not_holds owns named same fun value found => ?_)
      exact Bool.eq_false_iff.mpr fun holds => reaches ⟨value, found, holds⟩

theorem rules_twin {rules : List ValidationRules} (conforms : Conforms type message)
    (same : message.erase hidden = message'.erase hidden)
    (built : newMessageRules context type.descriptor = .ok rules) {rule : ValidationRules} (member : rule ∈ rules)
    (unread : rule.Unread context.runtime hidden message) :
    Twin Eq (rule.validate context.runtime message) (rule.validate context.runtime message') := by
  cases rule with
  | message cel =>
    refine messageRules_twin ?_
    cases holds : message.holds hidden with
    | true => exact blindRules_of_nil (unread holds)
    | false =>
      rw [Message.eq_of_erase same holds]
      exact blindRules_self
  | messageOneof fields required => exact messageOneof_twin (hasField_alike same) fields required
  | field inner => exact fieldRules_twin standard shows ignored conforms same built member unread
  | oneof descriptor required => exact oneof_twin (hasField_alike same) descriptor required

end Messages

section Runs

variable {pool : DescriptorPool} {context : BuildContext} {state : FactoryState pool} {type : MessageType pool}
variable {message message' : Message} {hidden : FieldDescriptor → Bool}

/-- No CEL rule that is run for a message or its sub-messages reads what is ignored. -/
def Unread (factory : ValidatorFactory) (hidden : FieldDescriptor → Bool) (message : Message) : Prop :=
  ∀ sub, ReflTransGen Child message sub → ∀ rules, factory.rulesOf sub.descriptor = .ok rules →
    ∀ rule ∈ rules, rule.Unread factory.context.runtime hidden sub

/-- Two messages of which the same is left are validated by runs that record the same. -/
theorem validateMessage_twin (standard : Standard pool) (shows : ShowsMessages context.runtime)
    (consistent : Consistent context state) (ignored : ∀ field, hidden field = true → ignoresAlways field = true)
    (conforms : Conforms type message) (same : message.erase hidden = message'.erase hidden)
    (unread : Unread (state.factory context) hidden message) :
    Twin Eq (Validator.validateMessage (state.factory context) message)
      (Validator.validateMessage (state.factory context) message') := by
  induction message using children_induction generalizing type message' with
  | step message ih =>
    rw [Validator.validateMessage_eq, Validator.validateMessage_eq, ← descriptor_alike same]
    cases found : (state.factory context).rulesOf message.descriptor with
    | error failure => exact parallel_pure rfl
    | ok rules =>
      have built : newMessageRules context type.descriptor = .ok rules :=
        consistent.rulesOf (conforms.descriptor_eq ▸ found)
      refine Parallel.eachThen (List.forall₂_same.mpr fun rule member => ?_) ?_
      · exact rules_twin standard shows ignored conforms same built member (unread message .refl rules found rule member)
      · have pairs : (children message).map (eraseChild hidden) = (children message').map (eraseChild hidden) := by
          rw [← children_erase ignored, same, children_erase ignored]
        refine Parallel.eachThen ?_ (parallel_pure rfl)
        refine (forall₂_of_map_eq pairs).imp fun child child' pair => ?_
        obtain ⟨member, equal⟩ := pair
        obtain ⟨element, sub⟩ := child
        obtain ⟨element', sub'⟩ := child'
        obtain ⟨rfl, below⟩ := Prod.mk.inj equal
        obtain ⟨next, -, conforms⟩ := conforms.child ⟨element, member⟩
        have inside := ih (element, sub) member conforms below fun deeper path =>
          unread deeper (path.head ⟨element, member⟩)
        exact inside.framed (appended_uniform element)

/-- What `Validate` reports: the violation protos, or an error. -/
def protos (result : Except StatusError (List RuleViolation)) : Except StatusError (List Violation) :=
  result.map fun violations => violations.map RuleViolation.proto

theorem protos_twin {factory : ValidatorFactory} {failFast : Bool}
    (twin : RunsAlike RuleViolation.proto Eq (Validator.run factory failFast message) (Validator.run factory failFast message')) :
    protos (Validator.validate factory failFast message) = protos (Validator.validate factory failFast message') := by
  unfold Validator.validate
  obtain ⟨results, entries⟩ := twin
  generalize Validator.run factory failFast message = ended at results entries ⊢
  generalize Validator.run factory failFast message' = ended' at results entries ⊢
  obtain ⟨status, ctx⟩ := ended
  obtain ⟨status', ctx'⟩ := ended'
  obtain rfl : status = status' := results
  cases status with
  | error failure => rfl
  | ok _ => exact congrArg Except.ok (finalize_uniform.map entries)

/-- The contents of fields that are always ignored have no influence on the result,
if they are not read by the CEL rules of what they are part of. -/
theorem ignored_noninterfering (standard : Standard pool) (shows : ShowsMessages context.runtime)
    (history : List (Operation pool)) (ignored : ∀ field, hidden field = true → ignoresAlways field = true)
    (conforms : Conforms type message) (same : message.erase hidden = message'.erase hidden)
    (unread : Unread ((performAll context {} history).factory context) hidden message) (failFast : Bool) :
    protos (Validator.validate ((performAll context {} history).factory context) failFast message) =
      protos (Validator.validate ((performAll context {} history).factory context) failFast message') := by
  have consistent : Consistent context (performAll context {} history) := performAll_consistent history consistent_new
  exact protos_twin (validateMessage_twin standard shows consistent ignored conforms same unread failFast {} {} rfl)

end Runs

section Sample

/-- Lists may have one element; nothing else is checked. -/
def sized (_ : String) (activation : Activation) : Except StatusError CelValue :=
  match activation "this" with
  | some (.list items) => .ok (.bool (decide (items.length ≤ 1)))
  | _ => .ok (.bool true)

def sizedContext : BuildContext := { runtime := plainRuntime sized }

def ignoredAlways (type : RuleType) : FieldRules := ⟨some .always, false, [], [], type⟩

def remarkField : FieldDescriptor where
  number := 1
  name := "remark"
  fullName := "Letter.remark"
  type := .message
  messageType := "Remark"
  options := some (ignoredAlways .notSet)

/-- Pages are limited in number, and are not looked at. -/
def pagesField : FieldDescriptor where
  number := 2
  name := "pages"
  fullName := "Letter.pages"
  type := .message
  messageType := "Remark"
  shape := .repeated
  options := some ⟨none, false, [{ id := "pages", message := "too long", expression := "size(this) <= 1" }], [],
    .repeated { typeName := "buf.validate.RepeatedRules" } (some (ignoredAlways .notSet))⟩

def wordsField : FieldDescriptor where
  number := 1
  name := "words"
  fullName := "Remark.words"
  type := .string

def letterDescriptor : Descriptor := { fullName := "Letter", fields := [remarkField, pagesField] }

def remarkDescriptor : Descriptor := { fullName := "Remark", fields := [wordsField] }

def letters : DescriptorPool where
  types := [letterDescriptor, remarkDescriptor]
  distinct := by simp [letterDescriptor, remarkDescriptor]

def remark (words : String) : Message := ⟨remarkDescriptor, [.mk wordsField (.singular (.scalar (.string words)))]⟩

def letter (words : String) : Message :=
  ⟨letterDescriptor, [.mk remarkField (.singular (.message (remark words))),
    .mk pagesField (.repeated [.message (remark words), .message (remark words)])]⟩

theorem standard_letters : Standard letters where
  numbers type := by
    obtain ⟨descriptor, declared⟩ := type
    rcases List.mem_cons.mp declared with rfl | declared
    · simp [MessageType.allFields, letters, letterDescriptor, remarkField, pagesField]
    · cases List.mem_singleton.mp declared
      simp [MessageType.allFields, letters, remarkDescriptor]
  converted type inside := by
    obtain ⟨descriptor, declared⟩ := type
    rcases List.mem_cons.mp declared with rfl | declared
    · exact absurd inside (show "Letter" ∉ convertedTypes by decide)
    · cases List.mem_singleton.mp declared
      exact absurd inside (show "Remark" ∉ convertedTypes by decide)

theorem showsMessages_plain (evaluate : String → Activation → Except StatusError CelValue) :
    ShowsMessages (plainRuntime evaluate) := ⟨fun _ _ _ => rfl, fun _ _ _ => rfl, fun _ _ _ => rfl⟩

def letterType : MessageType letters := ⟨letterDescriptor, List.mem_cons_self⟩

def remarkType : MessageType letters := ⟨remarkDescriptor, List.mem_cons_of_mem _ List.mem_cons_self⟩

theorem conforms_remark (words : String) : Conforms remarkType (remark words) := by
  refine .mk rfl (fun field value member => ?_) (fun field value member inner held => ?_)
    (fun field value member inner held => ?_)
  all_goals cases List.mem_singleton.mp member
  · exact List.mem_cons_self
  · cases List.mem_singleton.mp held
  · cases List.mem_singleton.mp held

theorem conforms_letter (words : String) : Conforms letterType (letter words) := by
  refine .mk rfl (fun field value member => ?_) (fun field value member inner held => ⟨remarkType, ?_⟩)
    (fun field value member inner held next found => ?_)
  all_goals rcases List.mem_cons.mp member with same | member
  all_goals first | cases same | cases List.mem_singleton.mp member
  · exact List.mem_cons_self
  · exact List.mem_cons_of_mem _ List.mem_cons_self
  · rfl
  · rfl
  · cases List.mem_singleton.mp held
    cases found.symm.trans (show letters.elementType remarkField = some remarkType from rfl)
    exact conforms_remark words
  · cases found.symm.trans (show letters.elementType pagesField = some remarkType from rfl)
    obtain rfl : inner = remark words := by simpa [FieldValue.values] using held
    exact conforms_remark words

/-- The number of pages is all that is read of them. -/
theorem pages_unread (base : FieldValidationRules) : ReadsNoContents sizedContext.runtime base where
  list values values' same expr _ activation activation' rebound := by
    have length : values.length = values'.length := by simpa using congrArg List.length same
    change sized expr.rule.expression activation = sized expr.rule.expression activation'
    simp only [sized, rebound.left, rebound.right, sizedContext, plainRuntime, List.length_map, length]
  map entries entries' same expr _ activation activation' rebound := by
    change sized expr.rule.expression activation = sized expr.rule.expression activation'
    simp only [sized, rebound.left, rebound.right, sizedContext, plainRuntime]

/-- The validator does not descend from letters, so that only the rules for the pages run. -/
theorem letter_unread (words : String) :
    Unread ((performAll sizedContext ({} : FactoryState letters) []).factory sizedContext) ignoresAlways (letter words) := by
  intro sub path rules found rule member
  obtain rfl : letter words = sub := by
    obtain same | ⟨next, ⟨element, impossible⟩, -⟩ := path.cases_head
    · exact same
    · cases impossible
  cases found
  cases List.mem_singleton.mp member
  exact pages_unread _

theorem ignored_noninterfering_letter :
    protos (Validator.validate ((performAll sizedContext ({} : FactoryState letters) []).factory sizedContext) false
        (letter "first")) =
      protos (Validator.validate ((performAll sizedContext ({} : FactoryState letters) []).factory sizedContext) false
        (letter "second")) :=
  ignored_noninterfering standard_letters (showsMessages_plain sized) [] (fun _ always => always)
    (conforms_letter "first") rfl (letter_unread "first") false

example : protos (Validator.validate ((performAll sizedContext ({} : FactoryState letters) []).factory sizedContext) false
    (letter "first")) = .ok [{
      field := some [fieldPathElement pagesField.toFieldInfo]
      rule := some [(fieldPathElement (PlainRuntime.ruleField .cel)).setIndex 0]
      ruleId := "pages"
      message := "too long" }] := rfl

end Sample

end Protovalidate.Validate
