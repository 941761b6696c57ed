import Protovalidate.Validate.Children
import Protovalidate.Validate.Findings

/-! Where the violations that the validator returns come from: a rule of a message
below the one it is called for, whose place the path starts with. -/

namespace Protovalidate.Validate

open Foundation Check

section Places

/-- A message that the validator gets to, with the path of its place. -/
inductive Below : Message → List FieldPathElement → Message → Prop where
  | here (message : Message) : Below message [] message
  | child {message child sub : Message} {element : FieldPathElement} {path : List FieldPathElement}
      (member : (element, child) ∈ children message) (deeper : Below child path sub) : Below message (element :: path) sub

/-- A violation in the frames around its message. -/
def under (path : List FieldPathElement) (violation : RuleViolation) : RuleViolation :=
  path.foldr (fun element violation => violation.appendFieldPathElement element) violation

variable {path : List FieldPathElement} {violation : RuleViolation}

theorem under_cons (element : FieldPathElement) (path : List FieldPathElement) (violation : RuleViolation) :
    under (element :: path) violation = (under path violation).appendFieldPathElement element := rfl

/-- The frames change nothing but the path. -/
theorem under_eq (path : List FieldPathElement) (violation : RuleViolation) :
    under path violation = { violation with proto := { violation.proto with field := (under path violation).proto.field } } := by
  induction path with
  | nil => rfl
  | cons element path ih =>
    rw [under_cons, ih]
    rfl

theorem under_field (path : List FieldPathElement) {inner : List FieldPathElement}
    (inside : violation.proto.field = some inner) : (under path violation).proto.field = some (inner ++ path.reverse) := by
  induction path with
  | nil => rw [List.reverse_nil, List.append_nil]; exact inside
  | cons element path ih =>
    rw [under_cons, RuleViolation.appendFieldPathElement, List.reverse_cons, ← List.append_assoc]
    exact congrArg (fun field => some (field.getD [] ++ [element])) ih

/-- The path of a violation as it is returned. -/
theorem finalize_field (path : List FieldPathElement) {inner : List FieldPathElement}
    (inside : violation.proto.field = some inner) :
    (under path violation).finalize.proto.field = some (path ++ inner.reverse) := by
  rw [RuleViolation.finalize, under_field path inside, Option.map_some, List.reverse_append, List.reverse_reverse]

theorem finalize_fieldValue (path : List FieldPathElement) (violation : RuleViolation) :
    (under path violation).finalize.fieldValue = violation.fieldValue := by
  rw [under_eq]
  rfl

theorem finalize_ruleValue (path : List FieldPathElement) (violation : RuleViolation) :
    (under path violation).finalize.ruleValue = violation.ruleValue := by
  rw [under_eq]
  rfl

theorem finalize_forKey (path : List FieldPathElement) (violation : RuleViolation) :
    (under path violation).finalize.proto.forKey = violation.proto.forKey := by
  rw [under_eq]
  rfl

theorem finalize_ruleId (path : List FieldPathElement) (violation : RuleViolation) :
    (under path violation).finalize.proto.ruleId = violation.proto.ruleId := by
  rw [under_eq]
  rfl

theorem finalize_rule (path : List FieldPathElement) (violation : RuleViolation) :
    (under path violation).finalize.proto.rule = violation.proto.rule.map List.reverse := by
  rw [under_eq]
  rfl

end Places

section Runs

variable {seen : Event → Prop} {factory : ValidatorFactory} {failFast : Bool} {message : Message}

/-- A violation of one of the rules that are run for a message or a message below it. -/
def Originates (seen : Event → Prop) (factory : ValidatorFactory) (message : Message) (violation : RuleViolation) : Prop :=
  ∃ path sub rules, Below message path sub ∧ factory.rulesOf sub.descriptor = .ok rules ∧ ∃ rule ∈ rules, ∃ inner,
    RuleFound seen factory.context.runtime sub rule inner ∧ violation = under path inner

/-- The frame of a child puts its element in front of the path. -/
theorem Originates.child {element : FieldPathElement} {child : Message} {violation : RuleViolation}
    (member : (element, child) ∈ children message) (inside : Originates seen factory child violation) :
    Originates seen factory message (violation.appendFieldPathElement element) := by
  obtain ⟨path, sub, rules, deeper, found, rule, among, inner, finding, rfl⟩ := inside
  exact ⟨element :: path, sub, rules, .child member deeper, found, rule, among, inner, finding, rfl⟩

theorem validateMessage_adds (factory : ValidatorFactory) (message : Message) :
    Adds seen Succeeds (Originates seen factory message) (Validator.validateMessage factory message) := by
  induction message using children_induction with
  | step message ih =>
    rw [Validator.validateMessage_eq]
    cases found : factory.rulesOf message.descriptor with
    | error failure => exact adds_pure _
    | ok rules =>
      refine Adds.eachThen (fun rule member => ?_) (Adds.eachThen (fun child member => ?_) (adds_pure _))
      · refine (rulesValidate_adds rule).imp fun inner finding => ?_
        exact ⟨[], message, rules, .here message, found, rule, member, inner, finding, rfl⟩
      · exact (ih child member).framed fun violation inside => inside.child member

/-- Every violation that is returned comes from a rule of a message below. -/
theorem validate_originates {violations : List RuleViolation} {violation : RuleViolation}
    (returned : Validator.validate factory failFast message = .ok violations) (member : violation ∈ violations) :
    ∃ entry, Originates (fun event => event ∈ (Validator.run factory failFast message).2.trace) factory message entry ∧
      violation = entry.finalize := by
  obtain ⟨succeeds, rfl⟩ := Validator.validate_ok.mp returned
  obtain ⟨entry, recorded, rfl⟩ := List.mem_map.mp member
  exact ⟨entry, (validateMessage_adds factory message).run succeeds entry recorded, rfl⟩

end Runs
end Protovalidate.Validate
