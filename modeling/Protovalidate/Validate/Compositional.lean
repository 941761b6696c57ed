import Protovalidate.Validate.Paths

/-! What `Validate` returns for a message is what its own rules report, followed by
what it returns for each of the children with one path element in front. -/

namespace Protovalidate.Validate

open Foundation Check

section Reports

abbrev Report := Except StatusError (List RuleViolation)

/-- One report behind another; the first error wins. -/
def followedBy : Report → Report → Report
  | .error failure, _ => .error failure
  | .ok _, .error failure => .error failure
  | .ok early, .ok late => .ok (early ++ late)

/-- What `Validate` returns where a check is all there is. -/
def report (part : RuleCheck Status) : Report :=
  match alone part with
  | (.error failure, _) => .error failure
  | (.ok (), ctx) => .ok (ctx.entries.map RuleViolation.finalize)

/-- The reports of elements one after the other. -/
def reportAll {ι : Type} (reported : ι → Report) : List ι → Report
  | [] => .ok []
  | element :: elements => followedBy (reported element) (reportAll reported elements)

/-- The path of a violation of a child, seen from its parent. -/
def prepend (element : FieldPathElement) (violation : RuleViolation) : RuleViolation :=
  { violation with proto := { violation.proto with field := some (element :: violation.proto.field.getD []) } }

theorem finalize_append (element : FieldPathElement) (violation : RuleViolation) :
    (violation.appendFieldPathElement element).finalize = prepend element violation.finalize := by
  cases path : violation.proto.field <;>
    simp [RuleViolation.appendFieldPathElement, RuleViolation.finalize, prepend, path]

theorem followedBy_nil (first : Report) : followedBy first (.ok []) = first := by
  cases first with
  | error failure => rfl
  | ok early => simp [followedBy]

theorem followedBy_assoc (first second third : Report) :
    followedBy (followedBy first second) third = followedBy first (followedBy second third) := by
  cases first <;> cases second <;> cases third <;> simp [followedBy, List.append_assoc]

theorem followedBy_ok {first second : Report} {violations : List RuleViolation} :
    followedBy first second = .ok violations ↔
      ∃ early late, first = .ok early ∧ second = .ok late ∧ violations = early ++ late := by
  cases first <;> cases second <;> simp [followedBy, eq_comm]

theorem followedBy_error {first second : Report} : (∃ failure, followedBy first second = .error failure) ↔
    (∃ failure, first = .error failure) ∨ ∃ failure, second = .error failure := by
  cases first <;> cases second <;> simp [followedBy]

theorem report_orFail {first rest : RuleCheck Status} (steady : Steady rest) :
    report (orFail first rest) = followedBy (report first) (report rest) := by
  unfold report
  rw [alone_orFail steady]
  match alone first, alone rest with
  | (.error failure, ctx), _ => rfl
  | (.ok (), ctx), (.error failure, ctx') => rfl
  | (.ok (), ctx), (.ok (), ctx') => simp [followedBy, Journal.extend]

theorem report_eachThen {ι : Type} {body : ι → RuleCheck Status} {elements : List ι} {rest : RuleCheck Status}
    (steady : ∀ element ∈ elements, Steady (body element)) (steadyRest : Steady rest) :
    report (eachThen body elements rest) =
      followedBy (reportAll (fun element => report (body element)) elements) (report rest) := by
  induction elements with
  | nil =>
    rw [eachThen, reportAll]
    cases report rest <;> rfl
  | cons element elements ih =>
    have tail : ∀ later ∈ elements, Steady (body later) := fun later member => steady later (by simp [member])
    have same : report (orExit (body element) (eachThen body elements rest)) =
        report (orFail (body element) (eachThen body elements rest)) := by
      simp only [report, alone_orExit]
    rw [eachThen, same, report_orFail (Steady.eachThen tail steadyRest), ih tail, reportAll, followedBy_assoc]

theorem report_elementFramed (element : FieldPathElement) (part : RuleCheck Status) :
    report (Validator.elementFramed element part) = (report part).map (List.map (prepend element)) := by
  unfold report Validator.elementFramed
  rw [alone_framed]
  match alone part with
  | (.error failure, ctx) => rfl
  | (.ok (), ctx) =>
    simp only [List.map_map, Except.map]
    congr 2
    funext violation
    exact finalize_append element violation

/-- The violations of a report without an error. -/
def listed : Report → List RuleViolation
  | .error _ => []
  | .ok violations => violations

theorem reportAll_each {ι : Type} {reported : ι → Report} {each : ι → List RuleViolation} {elements : List ι}
    (succeed : ∀ element ∈ elements, reported element = .ok (each element)) :
    reportAll reported elements = .ok (elements.flatMap each) := by
  induction elements with
  | nil => rfl
  | cons element elements ih =>
    rw [reportAll, succeed element (by simp), ih fun later member => succeed later (by simp [member])]
    rfl

theorem reportAll_listed {ι : Type} {reported : ι → Report} {elements : List ι} {violations : List RuleViolation}
    (succeeds : reportAll reported elements = .ok violations) :
    ∀ element ∈ elements, reported element = .ok (listed (reported element)) := by
  induction elements generalizing violations with
  | nil => simp
  | cons element elements ih =>
    obtain ⟨early, late, first, others, _⟩ := followedBy_ok.mp succeeds
    intro later member
    rcases List.mem_cons.mp member with rfl | member
    · rw [first, listed]
    · exact ih others later member

theorem reportAll_ok {ι : Type} {reported : ι → Report} {elements : List ι} {violations : List RuleViolation} :
    reportAll reported elements = .ok violations ↔ ∃ each : ι → List RuleViolation,
      (∀ element ∈ elements, reported element = .ok (each element)) ∧ violations = elements.flatMap each := by
  constructor
  · intro succeeds
    have each := reportAll_listed succeeds
    rw [reportAll_each each] at succeeds
    exact ⟨fun element => listed (reported element), each, (Except.ok.inj succeeds).symm⟩
  · rintro ⟨each, succeed, rfl⟩
    exact reportAll_each succeed

theorem reportAll_error {ι : Type} {reported : ι → Report} {elements : List ι} :
    (∃ failure, reportAll reported elements = .error failure) ↔
      ∃ element ∈ elements, ∃ failure, reported element = .error failure := by
  induction elements with
  | nil => simp [reportAll]
  | cons element elements ih => simp [reportAll, followedBy_error, ih]

end Reports

section Messages

variable (factory : ValidatorFactory) (message : Message)

/-- What the rules of a message report themselves, in their order. -/
def ownViolations : Report :=
  match factory.rulesOf message.descriptor with
  | .error failure => .error failure
  | .ok rules => reportAll (fun rule => report (ValidationRules.validate factory.context.runtime message rule)) rules

theorem validate_report : Validator.validate factory false message = report (Validator.validateMessage factory message) :=
  rfl

theorem report_child (child : FieldPathElement × Message) : report (Validator.validateChild factory child) =
    (Validator.validate factory false child.2).map (List.map (prepend child.1)) := by
  rw [Validator.validateChild, report_elementFramed, validate_report]

/-- The equation behind the recursion, which also tells which error is returned. -/
theorem validate_eq : Validator.validate factory false message =
    followedBy (ownViolations factory message)
      (reportAll (fun child => (Validator.validate factory false child.2).map (List.map (prepend child.1)))
        (children message)) := by
  rw [validate_report, Validator.validateMessage_eq, ownViolations]
  cases factory.rulesOf message.descriptor with
  | error failure => rfl
  | ok rules =>
    have steadyChildren : Steady (eachThen (Validator.validateChild factory) (children message) (pure (.ok ()))) :=
      childLoop_steady factory fun child _ => validateMessage_steady child.2 factory
    rw [report_eachThen (fun rule _ => rulesValidate_steady _ message rule) steadyChildren,
      report_eachThen (fun child _ => (validateMessage_steady child.2 factory).framed _) (steady_pure _)]
    simp only [report_child]
    exact congrArg _ (followedBy_nil _)

theorem report_ruleParts (runtime : Runtime) (rules : ValidationRules) :
    report (rules.validate runtime message) =
      reportAll (fun part => report part.check) (ruleParts runtime message rules) := by
  have parts : report (rules.validate runtime message) =
      report (eachThen RulePart.check (ruleParts runtime message rules) (pure (.ok ()))) := by
    simp only [report, ruleParts_alone]
  rw [parts, report_eachThen (fun _ => ruleParts_steady) (steady_pure _)]
  exact followedBy_nil _

theorem report_path {runtime : Runtime} {rules : ValidationRules} {part : RulePart}
    (member : part ∈ ruleParts runtime message rules) {violations : List RuleViolation}
    (succeeds : report part.check = .ok violations) :
    ∀ violation ∈ violations, violation.proto.field = part.path := by
  have located := ruleParts_located member
  unfold report at succeeds
  unfold Located Yields at located
  match run : alone part.check with
  | (.error failure, ctx) =>
    rw [run] at succeeds
    cases succeeds
  | (.ok (), ctx) =>
    rw [run] at succeeds located
    cases succeeds
    intro violation found
    obtain ⟨inner, before, rfl⟩ := List.mem_map.mp found
    have placed := located rfl inner before
    simp only [RuleViolation.finalize, placed, RulePart.path]
    cases part.place <;> rfl

theorem children_ok {violations : List RuleViolation} :
    reportAll (fun child => (Validator.validate factory false child.2).map (List.map (prepend child.1)))
        (children message) = .ok violations ↔
      ∃ sub : FieldPathElement × Message → List RuleViolation,
        (∀ child ∈ children message, Validator.validate factory false child.2 = .ok (sub child)) ∧
          violations = (children message).flatMap fun child => (sub child).map (prepend child.1) := by
  constructor
  · intro succeeds
    obtain ⟨each, succeed, rfl⟩ := reportAll_ok.mp succeeds
    have sub : ∀ child ∈ children message,
        Validator.validate factory false child.2 = .ok (listed (Validator.validate factory false child.2)) ∧
          each child = (listed (Validator.validate factory false child.2)).map (prepend child.1) := by
      intro child member
      have mapped := succeed child member
      cases run : Validator.validate factory false child.2 with
      | error failure =>
        rw [run] at mapped
        cases mapped
      | ok found =>
        rw [run] at mapped
        exact ⟨rfl, (Except.ok.inj mapped).symm⟩
    refine ⟨fun child => listed (Validator.validate factory false child.2), fun child member => (sub child member).1, ?_⟩
    rw [List.flatMap_def, List.flatMap_def, List.map_congr_left fun child member => (sub child member).2]
  · rintro ⟨sub, succeed, rfl⟩
    exact reportAll_each fun child member => by rw [succeed child member]; rfl

theorem children_error : (∃ failure, reportAll (fun child =>
      (Validator.validate factory false child.2).map (List.map (prepend child.1))) (children message) = .error failure) ↔
    ∃ child ∈ children message, ∃ failure, Validator.validate factory false child.2 = .error failure := by
  rw [reportAll_error]
  refine exists_congr fun child => and_congr_right fun _ => ?_
  cases Validator.validate factory false child.2 with
  | error failure => exact ⟨fun _ => ⟨failure, rfl⟩, fun _ => ⟨failure, rfl⟩⟩
  | ok found =>
    constructor
    · rintro ⟨_, failed⟩
      cases failed
    · rintro ⟨_, failed⟩
      cases failed

/-- Validation is compositional, and paths tell where a violation is. -/
theorem validate_compositional :
    (∀ violations, Validator.validate factory false message = .ok violations ↔
      ∃ own, ownViolations factory message = .ok own ∧
        ∃ sub : FieldPathElement × Message → List RuleViolation,
          (∀ child ∈ children message, Validator.validate factory false child.2 = .ok (sub child)) ∧
            violations = own ++ (children message).flatMap fun child => (sub child).map (prepend child.1)) ∧
    ((∃ failure, Validator.validate factory false message = .error failure) ↔
      (∃ failure, ownViolations factory message = .error failure) ∨
        ∃ child ∈ children message, ∃ failure, Validator.validate factory false child.2 = .error failure) ∧
    ∀ rules : ValidationRules,
      report (rules.validate factory.context.runtime message) =
          reportAll (fun part => report part.check) (ruleParts factory.context.runtime message rules) ∧
        ∀ part ∈ ruleParts factory.context.runtime message rules, ∀ violations,
          report part.check = .ok violations → ∀ violation ∈ violations, violation.proto.field = part.path := by
  refine ⟨fun violations => ?_, ?_, fun rules => ⟨report_ruleParts message _ rules, ?_⟩⟩
  · rw [validate_eq, followedBy_ok]
    constructor
    · rintro ⟨own, below, ownOk, belowOk, rfl⟩
      obtain ⟨sub, succeed, rfl⟩ := (children_ok factory message).mp belowOk
      exact ⟨own, ownOk, sub, succeed, rfl⟩
    · rintro ⟨own, ownOk, sub, succeed, rfl⟩
      exact ⟨own, _, ownOk, (children_ok factory message).mpr ⟨sub, succeed, rfl⟩, rfl⟩
  · rw [validate_eq, followedBy_error, children_error]
  · exact fun part member violations succeeds => report_path message member succeeds

end Messages
end Protovalidate.Validate
