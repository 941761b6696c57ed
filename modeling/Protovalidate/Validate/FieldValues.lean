import Protovalidate.Validate.EntryClashes

/-! The field values of the violations that the validator returns: each is what its path
leads to, unless the run has got to an entry whose key and value both break rules. -/

namespace Protovalidate.Validate

open Foundation Check

section Rules

variable {seen : Event → Prop} {runtime : Runtime} {failFast : Bool} {message : Message} {rule : ValidationRules}
  {violation : RuleViolation}

/-- A rule that mislabels violations of a map. -/
def RuleClashes (runtime : Runtime) (failFast : Bool) (message : Message) : ValidationRules → Prop
  | .field (.map base keyRules valueRules) => MapClashes runtime failFast base keyRules valueRules message
  | _ => False

theorem ItemFound.unlabeled {base items : FieldValidationRules} {item : Nat × Value}
    (found : ItemFound seen runtime message base items item violation) : ¬Mislabeled violation := by
  rintro ⟨forKey, -⟩
  cases found with
  | any _ found => cases found <;> cases forKey
  | cel found => cases found.plain.forKey.symm.trans forKey

/-- Only the rules of maps mislabel violations. -/
theorem RuleFound.unlabeled (found : RuleFound seen runtime message rule violation)
    (other : ∀ base keyRules valueRules, rule ≠ .field (.map base keyRules valueRules)) : ¬Mislabeled violation := by
  cases found with
  | message found => exact fun mislabeled => by cases found.plain.forKey.symm.trans mislabeled.1
  | messageOneof => exact fun mislabeled => by cases mislabeled.1
  | oneof => exact fun mislabeled => by cases mislabeled.1
  | field found => exact found.unlabeled
  | enum _ _ => exact fun mislabeled => by cases mislabeled.1
  | item _ found => exact found.unlabeled
  | entry => exact absurd rfl (other _ _ _)

/-- A rule of a message mislabels violations exactly where it clashes. -/
theorem rulesValidate_flawed
    (fields : ∀ base keyRules valueRules, rule = .field (.map base keyRules valueRules) → EntryShape base.field) :
    Flawed Mislabeled failFast (RuleClashes runtime failFast message rule) (rule.validate runtime message) := by
  have flawless (other : ∀ base keyRules valueRules, rule ≠ .field (.map base keyRules valueRules)) :
      Flawed Mislabeled failFast False (rule.validate runtime message) :=
    Adds.flawless ((rulesValidate_adds rule).imp fun violation found => found.unlabeled other)
  cases rule with
  | message cel => exact flawless (by simp)
  | messageOneof fields required => exact flawless (by simp)
  | oneof descriptor required => exact flawless (by simp)
  | field rules =>
    cases rules with
    | field base => exact flawless (by simp)
    | enum base enumRules => exact flawless (by simp)
    | repeated base itemRules => exact flawless (by simp)
    | map base keyRules valueRules => exact mapValidate_flawed (fields base keyRules valueRules rfl)

end Rules

section Runs

variable {factory : ValidatorFactory} {failFast : Bool} {message : Message}

/-- The run gets to a map that has violations of a key and of the value at it. A run that
fails fast only gets there if all rules and sub-messages before pass. -/
inductive Clashes (factory : ValidatorFactory) (failFast : Bool) : Message → Prop where
  | rule {message rules before rule after} (found : factory.rulesOf message.descriptor = .ok rules)
    (split : rules = before ++ rule :: after)
    (passed : ∀ earlier ∈ before, failFast = true → Passes (earlier.validate factory.context.runtime message))
    (clashes : RuleClashes factory.context.runtime failFast message rule) : Clashes factory failFast message
  | child {message rules before child after} (found : factory.rulesOf message.descriptor = .ok rules)
    (passed : ∀ rule ∈ rules, failFast = true → Passes (rule.validate factory.context.runtime message))
    (split : children message = before ++ child :: after)
    (passed' : ∀ earlier ∈ before, failFast = true → Passes (Validator.validateChild factory earlier))
    (clashes : Clashes factory failFast child.2) : Clashes factory failFast message

theorem clashes_iff {rules : List ValidationRules} (found : factory.rulesOf message.descriptor = .ok rules) :
    Clashes factory failFast message ↔
      Meets (fun rule => failFast = true → Passes (rule.validate factory.context.runtime message))
        (RuleClashes factory.context.runtime failFast message) rules ∨
      ((∀ rule ∈ rules, failFast = true → Passes (rule.validate factory.context.runtime message)) ∧
        Meets (fun child => failFast = true → Passes (Validator.validateChild factory child))
          (fun child => Clashes factory failFast child.2) (children message)) := by
  constructor
  · intro clashes
    cases clashes with
    | rule found' split passed clashes =>
      cases found.symm.trans found'
      exact .inl ⟨_, _, _, split, passed, clashes⟩
    | child found' passed split passed' clashes =>
      cases found.symm.trans found'
      exact .inr ⟨passed, _, _, _, split, passed', clashes⟩
  · rintro (⟨before, rule, after, split, passed, clashes⟩ | ⟨passed, before, child, after, split, passed', clashes⟩)
    · exact .rule found split passed clashes
    · exact .child found passed split passed' clashes

variable {pool : DescriptorPool} {context : BuildContext} {state : FactoryState pool} {type : MessageType pool}

/-- The rules of a map that are built for a message are those of one of its fields. -/
theorem newMessageRules_shape (fields : EntryFields pool) {rules : List ValidationRules}
    (built : newMessageRules context type.descriptor = .ok rules) {base : FieldValidationRules}
    {keyRules valueRules : Option FieldRuleSet} (member : .field (.map base keyRules valueRules) ∈ rules) :
    EntryShape base.field := by
  obtain ⟨names, field, declared, memberBuilt⟩ := newMessageRules_field built member
  obtain ⟨level, -, fieldBuilt⟩ := newMemberRules_options memberBuilt
  have place : base.field = field := (newFieldRules_cases fieldBuilt).place
  exact place ▸ fields type field declared

/-- The run of a message mislabels violations exactly where it gets to a clash. -/
theorem validateMessage_flawed (fields : EntryFields pool) (consistent : Consistent context state) (message : Message)
    (conforms : Conforms type message) :
    Flawed Mislabeled failFast (Clashes (state.factory context) failFast message)
      (Validator.validateMessage (state.factory context) message) := by
  induction message using children_induction generalizing type with
  | step message ih =>
    rw [Validator.validateMessage_eq]
    cases found : (state.factory context).rulesOf message.descriptor with
    | error failure =>
      refine (flawed_pure _).of_iff (iff_of_false not_false fun clashes => ?_)
      cases clashes with
      | rule found' => cases found.symm.trans found'
      | child found' => cases found.symm.trans found'
    | ok rules =>
      have built : newMessageRules context type.descriptor = .ok rules := by
        rw [conforms.descriptor_eq] at found
        exact consistent.rulesOf found
      have inside (child : FieldPathElement × Message) (among : child ∈ children message) :
          Flawed Mislabeled failFast (Clashes (state.factory context) failFast child.2)
            (Validator.validateChild (state.factory context) child) := by
        obtain ⟨next, conforms'⟩ := (children_goesTo among).conforms conforms
        exact (ih child among conforms').framed fun _ => Iff.rfl
      have below := Flawed.eachThen inside (fun child _ => validateChild_passed _ child) (flawed_pure (.ok ()))
      refine (Flawed.eachThen (fun rule among => rulesValidate_flawed fun base keyRules valueRules same =>
          newMessageRules_shape fields built (same ▸ among))
        (fun rule _ => rulesValidate_passed _ message rule) below).of_iff ?_
      rw [clashes_iff found]
      simp

/-- The violations that are returned all have the field value that their path leads to if
and only if the run gets to no entry whose key and value both have violations. -/
theorem fieldValues_located_iff (fields : EntryFields pool) (history : List (Operation pool)) (conforms : Conforms type message)
    (failFast : Bool) (violations : List RuleViolation)
    (returned : Validator.validate ((performAll context {} history).factory context) failFast message = .ok violations) :
    (∀ violation ∈ violations, AtItsPlace message violation) ↔
      ¬Clashes ((performAll context {} history).factory context) failFast message := by
  have consistent : Consistent context (performAll context {} history) := performAll_consistent history consistent_new
  have flawed : Flawed Mislabeled failFast (Clashes ((performAll context {} history).factory context) failFast message)
      (Validator.validateMessage ((performAll context {} history).factory context) message) :=
    validateMessage_flawed fields consistent message conforms
  obtain ⟨succeeds, recorded⟩ := Validator.validate_ok.mp returned
  obtain ⟨late, run, cause⟩ := flawed {} (fun _ => rfl) succeeds
  have same : violations = late.map RuleViolation.finalize := by
    rw [recorded]
    exact congrArg (List.map RuleViolation.finalize) (run.trans (List.nil_append late))
  rw [← cause, not_exists]
  constructor
  · rintro located violation ⟨member, mislabeled⟩
    have among : violation.finalize ∈ violations := same ▸ List.mem_map_of_mem member
    exact (atItsPlace_iff fields conforms returned among).mp (located _ among) ((mislabeled_finalize []).mpr mislabeled)
  · intro fine violation among
    refine (atItsPlace_iff fields conforms returned among).mpr fun mislabeled => ?_
    obtain ⟨entry, member, rfl⟩ := List.mem_map.mp (same ▸ among)
    exact fine entry ⟨member, (mislabeled_finalize []).mp mislabeled⟩

end Runs

section Sample

theorem entryFields_stocks : EntryFields stocks := by
  intro type field declared keyInfo valueInfo valid shape
  have known : type.descriptor = stock.descriptor := List.mem_singleton.mp type.declared
  rw [known] at declared
  cases List.mem_singleton.mp declared
  cases shape
  exact ⟨rfl, rfl⟩

theorem misplaced_stock : ¬AtItsPlace stock (stockViolation true .keys) :=
  Mislabeled.misplaced entryFields_stocks conforms_stock ⟨rfl, _, rfl, rfl⟩

theorem clashes_stock : Clashes ((performAll stockFactory.context ({} : FactoryState stocks) []).factory stockFactory.context)
    false stock := by
  by_contra none
  have located := (fieldValues_located_iff entryFields_stocks [] conforms_stock false
    [stockViolation true .keys, stockViolation false .values] rfl).mpr none
  exact misplaced_stock (located _ List.mem_cons_self)

/-- The violation of the key comes back with the value of the entry. -/
theorem keyViolation_overwritten :
    Validator.validate ((performAll stockFactory.context ({} : FactoryState stocks) []).factory stockFactory.context) false stock =
        .ok [stockViolation true .keys, stockViolation false .values] ∧
      ¬AtItsPlace stock (stockViolation true .keys) := ⟨rfl, misplaced_stock⟩

end Sample
end Protovalidate.Validate
