import Protovalidate.Validate.Logging
import Protovalidate.Validate.Parts
import Protovalidate.Validate.PlainRuntime

/-! Whether `Validate` returns every error of an evaluation: the one place that
loses them is the loop over items with `Any` rules. -/

namespace Protovalidate.Validate

open Foundation Check

variable (runtime : Runtime)

section Evaluations

/-- The results that a rule may have. -/
def answers : Except StatusError CelValue → Bool
  | .ok (.bool _) => true
  | .ok (.string _) => true
  | _ => false

/-- An evaluation that gave a bool or a string. -/
def Fine : Event → Prop
  | .evaluated _ _ result => answers result = true
  | .recorded => True
  | .hasField _ => True
  | .getEnumValue _ => True

theorem fine_evaluated (expression : String) (activation : Activation) (result : Except StatusError CelValue) :
    Fine (.evaluated expression activation result) ↔ answers result = true := Iff.rfl

variable (self : CelValidationRules) {activation : Activation}

theorem processRule_ok (activation : Activation) (expr : CompiledRule) :
    (alone (processRule runtime activation expr)).1 = .ok () ↔
      answers (runtime.evaluate expr.rule.expression activation) = true := by
  simp only [processRule, alone, bind_apply]
  cases runtime.evaluate expr.rule.expression activation with
  | error failure => simp [answers, pure_apply]
  | ok value =>
    cases value <;> simp [answers, pure_apply, bind_apply]

theorem processRule_fine (activation : Activation) (expr : CompiledRule) :
    (∀ event ∈ (alone (processRule runtime activation expr)).2.trace, Fine event) ↔
      answers (runtime.evaluate expr.rule.expression activation) = true := by
  simp only [processRule, alone, bind_apply]
  cases runtime.evaluate expr.rule.expression activation with
  | error failure => simp [note, pure_apply, Fine]
  | ok value =>
    cases value with
    | bool holds => cases holds <;> simp [note, add, emplaceBackIf, emplaceBack, bind_apply, pure_apply, Fine]
    | string text =>
      simp only [bind_apply, emplaceBackIf]
      split <;> simp [note, add, emplaceBack, bind_apply, pure_apply, Fine]
    | _ => simp [note, pure_apply, Fine]

/-- Whether every expression of the rules answers. -/
def AllAnswer (bindings : Activation) (exprs : List CompiledRule) : Prop :=
  ∀ expr ∈ exprs, answers (runtime.evaluate expr.rule.expression (self.bindRule runtime expr bindings)) = true

/-- The loop succeeds if and only if all expressions answer, and its events tell. -/
theorem celLoop_answers (exprs : List CompiledRule) (unbound : activation "rule" = none) :
    ((alone (self.celLoop runtime exprs activation)).1.1 = .ok () ↔ AllAnswer runtime self activation exprs) ∧
      ((∀ event ∈ (alone (self.celLoop runtime exprs activation)).2.trace, Fine event) ↔
        AllAnswer runtime self activation exprs) := by
  induction exprs with
  | nil => simp [AllAnswer, CelValidationRules.celLoop, alone_pure]
  | cons expr exprs ih =>
    have status := processRule_ok runtime (self.bindRule runtime expr activation) expr
    have trace := processRule_fine runtime (self.bindRule runtime expr activation) expr
    rw [alone_celLoop_cons runtime self expr exprs unbound, alone_framed]
    rw [AllAnswer, List.forall_mem_cons, ← AllAnswer]
    cases run : (alone (processRule runtime (self.bindRule runtime expr activation) expr)).1 with
    | error failure =>
      rw [run] at status
      simp only [trace]
      simp [← status]
    | ok _ =>
      rw [run] at status
      simp only [Journal.extend, List.mem_append, or_imp, forall_and, trace]
      simp [← status, ih]

/-- Whether every expression of the rules answers for a value. -/
def AnswersFor (this : CelValue) : Prop := AllAnswer runtime self (celBindings runtime self this) self.exprs

theorem validateCel_answers (this : CelValue) :
    ((alone (self.validateCel runtime (Activation.empty.insertValue "this" this))).1.1 = .ok () ↔
        AnswersFor runtime self this) ∧
      ((∀ event ∈ (alone (self.validateCel runtime (Activation.empty.insertValue "this" this))).2.trace, Fine event) ↔
        AnswersFor runtime self this) := by
  rw [validateCel_eq runtime self this (.inl rfl), alone_bind fun _ => steady_pure _]
  simp only [alone_pure, Journal.extend_nil]
  exact celLoop_answers runtime self self.exprs (celBindings_rule runtime self this)

end Evaluations

section Honesty

variable (self base items : FieldValidationRules) (message : Message)

theorem honest_emplaceBack (violation : RuleViolation) {okay : Unit → Prop} :
    Honest Fine okay (emplaceBack violation) :=
  Honest.andThen (honest_add violation) fun _ => honest_note fun _ => trivial

theorem honest_emplaceBackIf (condition : Bool) (violation : RuleViolation) {okay : Unit → Prop} :
    Honest Fine okay (emplaceBackIf condition violation) := by
  cases condition with
  | true => exact honest_emplaceBack violation
  | false => exact honest_pure ()

theorem processRule_honest (activation : Activation) (expr : CompiledRule) :
    Honest Fine Succeeds (processRule runtime activation expr) := by
  intro journal succeeds before
  rw [(processRule_steady runtime activation expr).apply journal] at succeeds ⊢
  intro event member
  rcases List.mem_append.mp member with old | new
  · exact before event old
  · exact (processRule_fine runtime activation expr).mpr ((processRule_ok runtime activation expr).mp succeeds) event new

theorem celLoop_honest (self : CelValidationRules) (exprs : List CompiledRule) (activation : Activation) :
    Honest Fine (fun result => Succeeds result.1) (self.celLoop runtime exprs activation) := by
  induction exprs generalizing activation with
  | nil => exact honest_pure _
  | cons expr exprs ih =>
    refine Honest.bind ((processRule_honest runtime _ expr).framedIf _ _) (fun status _ => ?_)
      fun status journal succeeds => ?_
    · refine Honest.andThen (honest_exits status) fun exit => ?_
      cases exit with
      | true => exact honest_pure _
      | false => exact ih _
    · cases status with
      | error failure => cases succeeds
      | ok _ => rfl

theorem validateCel_honest (self : CelValidationRules) (activation : Activation) :
    Honest Fine (fun result => Succeeds result.1) (self.validateCel runtime activation) :=
  Honest.bind (celLoop_honest runtime self _ _) (fun _ _ => honest_pure _) fun _ _ succeeds => succeeds

theorem validateAny_honest (any : AnyRules) (field : ProtoField) (anyMsg : Message) :
    Honest Fine Succeeds (FieldValidationRules.validateAny runtime any field anyMsg) := by
  unfold FieldValidationRules.validateAny
  split
  · exact honest_pure _
  · split
    · exact honest_pure _
    · exact Honest.andThen (honest_emplaceBackIf _ _) fun _ => Honest.andThen (honest_emplaceBackIf _ _) fun _ => honest_pure _

theorem validateThis_honest (value : CelValue) : Honest Fine Succeeds (self.validateThis runtime message value) :=
  Honest.bind ((validateCel_honest runtime _ _).framedIf _ _) (fun _ _ => honest_pure _) fun _ _ succeeds => succeeds

theorem required_honest : Honest Fine Succeeds (do
    emplaceBack (self.requiredViolation runtime message)
    pure (.ok ()) : RuleCheck Status) := Honest.andThen (honest_emplaceBack _) fun _ => honest_pure _

theorem validateContainer_honest (isEmpty : Bool) (value : CelValue) :
    Honest Fine Succeeds (self.validateContainer runtime message isEmpty value) := by
  unfold FieldValidationRules.validateContainer
  split
  · exact honest_pure _
  · split
    · exact required_honest runtime self message
    · exact validateThis_honest runtime self message value

theorem singleValue_honest : Honest Fine Succeeds (self.validateSingleValue runtime message) := by
  unfold FieldValidationRules.validateSingleValue
  split
  · exact honest_pure _
  · exact validateThis_honest runtime self message _

theorem singular_honest : Honest Fine Succeeds (self.validateSingular runtime message) := by
  unfold FieldValidationRules.validateSingular
  split
  · exact required_honest runtime self message
  · split
    · exact honest_pure _
    · refine Honest.orFail ?_ (singleValue_honest runtime self message)
      unfold FieldValidationRules.validateSingleAny
      split
      · exact honest_pure _
      · split
        · exact validateAny_honest runtime _ _ _
        · exact honest_pure _

theorem fieldValidate_honest : Honest Fine Succeeds (self.validate runtime message) := by
  unfold FieldValidationRules.validate
  split
  · exact validateContainer_honest runtime self message _ _
  · exact validateContainer_honest runtime self message _ _
  · exact Honest.andThen (honest_note fun _ => trivial) fun _ => singular_honest runtime self message

theorem definedOnly_honest (enumRules : EnumRules) :
    Honest Fine Succeeds (EnumValidationRules.validateDefinedOnly runtime base enumRules message) := by
  unfold EnumValidationRules.validateDefinedOnly
  split
  · exact Honest.andThen (honest_note fun _ => trivial) fun _ =>
      Honest.andThen (honest_emplaceBackIf _ _) fun _ => honest_pure _
  · exact honest_pure _

variable (keyInfo valueInfo : FieldInfo) (keyRules valueRules : Option FieldRuleSet)

/-- Results that go on. -/
abbrev GoesOn (result : Except StatusError Activation) : Prop := ∃ left, result = .ok left

theorem keyPart_honest (entry : Entry) (key : CelValue) (activation : Activation) :
    Honest Fine GoesOn (MapValidationRules.keyPart runtime keyInfo keyRules entry key activation) := by
  cases keyRules with
  | none => exact honest_pure _
  | some rules =>
    simp only [MapValidationRules.keyPart]
    split
    · exact honest_pure _
    · refine Honest.bind ((validateCel_honest runtime _ _).framedIf _ _) (fun result _ => ?_)
        fun result journal goesOn => ?_
      · split
        · exact honest_pure _
        · exact honest_pure _
      · obtain ⟨status, left⟩ := result
        cases status with
        | error failure =>
          obtain ⟨_, impossible⟩ := goesOn
          cases impossible
        | ok _ => rfl

theorem valuePart_honest (entry : Entry) (activation : Activation) (start : Nat) :
    Honest Fine GoesOn (MapValidationRules.valuePart runtime valueInfo valueRules entry activation start) := by
  cases valueRules with
  | none => exact honest_pure _
  | some rules =>
    simp only [MapValidationRules.valuePart]
    split
    · exact honest_pure _
    · refine Honest.bind (Honest.grown ((validateCel_honest runtime _ _).framedIf _ _)) (fun result _ => ?_)
        fun result journal goesOn => ?_
      · obtain ⟨⟨status, left⟩, grew⟩ := result
        cases status with
        | error failure => exact honest_pure _
        | ok _ =>
          cases grew with
          | false => exact honest_pure _
          | true => exact Honest.andThen (honest_edit _ _) fun _ => honest_pure _
      · obtain ⟨⟨status, left⟩, grew⟩ := result
        cases status with
        | error failure =>
          obtain ⟨_, impossible⟩ := goesOn
          cases impossible
        | ok _ => rfl

theorem entryRules_honest (entry : Entry) (key : CelValue) (activation : Activation) (start : Nat) :
    Honest Fine GoesOn
      (MapValidationRules.entryRules runtime keyInfo valueInfo keyRules valueRules entry key activation start) := by
  refine Honest.bind (keyPart_honest runtime _ _ _ _ _) (fun result goesOn => ?_) fun result journal goesOn => ?_
  · obtain ⟨left, rfl⟩ := goesOn
    exact valuePart_honest runtime _ _ _ _ _
  · cases result with
    | error failure =>
      obtain ⟨_, impossible⟩ := goesOn
      cases impossible
    | ok left => exact ⟨left, rfl⟩

theorem hasCount_honest (fields : List FieldDescriptor) :
    Honest Fine (fun _ => True) (MessageOneofValidationRules.hasCount message fields) := by
  induction fields with
  | nil => exact honest_pure _
  | cons field fields ih =>
    exact Honest.andThen (honest_note fun _ => trivial) fun _ => Honest.andThen ih fun _ => honest_pure _

end Honesty

section Flaws

variable {runtime} {base : FieldValidationRules} {message : Message}

theorem enumValidate_reveals (enumRules : EnumRules) :
    Reveals Fine False (EnumValidationRules.validate runtime base enumRules message) :=
  ((fieldValidate_honest runtime base message).reveals.orExit (definedOnly_honest runtime base message enumRules).reveals
    (definedOnly_steady runtime base message enumRules)).of_iff (or_self_iff)

theorem entryCheck_reveals {keyInfo valueInfo : FieldInfo} (valid : keyInfo.type.isMapKey = true)
    (keyRules valueRules : Option FieldRuleSet) (entry : Entry × CelValue) :
    Reveals Fine False (entryCheck runtime base keyInfo valueInfo keyRules valueRules entry) := by
  intro succeeds
  have honest := entryRules_honest runtime keyInfo valueInfo keyRules valueRules entry.1 entry.2 Activation.empty 0
  rw [alone_entryCheck runtime _ _ _ _ _ valid] at succeeds ⊢
  match run : alone (MapValidationRules.entryRules runtime keyInfo valueInfo keyRules valueRules entry.1 entry.2
    Activation.empty 0) with
  | (.error failure, ctx) =>
    rw [run] at succeeds
    cases succeeds
  | (.ok left, ctx) =>
    have fine := honest.alone ⟨left, by rw [run]⟩
    rw [run] at fine
    exact ⟨fun _ impossible => impossible, fun _ => fine⟩

theorem entryParts_reveals {keyRules valueRules : Option FieldRuleSet} {part : RulePart}
    (member : part ∈ entryParts runtime message base keyRules valueRules) : Reveals Fine False part.check := by
  refine entryParts_forall (fun part => Reveals Fine False part.check) ?unread ?each member
  case unread =>
    intro failure
    exact (honest_pure _).reveals
  case each =>
    intro keyInfo valueInfo valid entry
    exact entryCheck_reveals valid keyRules valueRules entry

/-- An item with `Any` rules on which another rule does not answer. -/
def SwallowedAt (runtime : Runtime) (base items : FieldValidationRules) (item : Nat × Value) : Prop :=
  items.anyRules.isSome = true ∧
    ¬AnswersFor runtime items.toCelValidationRules (runtime.listItem base.field.toFieldInfo item.2)

theorem itemRules_reveals (runtime : Runtime) (base : FieldValidationRules) (message : Message)
    (items : FieldValidationRules) (item : Nat × Value) :
    Reveals Fine (SwallowedAt runtime base items item)
      (RepeatedValidationRules.itemRules runtime base items message item) := by
  intro succeeds
  obtain ⟨status, trace⟩ := validateCel_answers runtime items.toCelValidationRules
    (runtime.listItem base.field.toFieldInfo item.2)
  unfold RepeatedValidationRules.itemRules SwallowedAt at *
  cases any : items.anyRules with
  | none =>
    simp only [any] at succeeds ⊢
    rw [alone_bind fun _ => steady_pure _] at succeeds ⊢
    have answer := trace.mpr (status.mp succeeds)
    simpa [alone_pure, Journal.extend_nil] using answer
  | some rules =>
    simp only [any] at succeeds ⊢
    rw [alone_bind fun _ => validateAny_steady runtime _ _ _] at succeeds ⊢
    have fine (field : ProtoField) (anyMsg : Message) :
        Logs Fine (FieldValidationRules.validateAny runtime rules field anyMsg) := validateAny_logs trivial runtime _ _ _
    simp only [Journal.extend, List.mem_append, or_imp, forall_and, trace]
    exact (and_iff_left (fine _ _).alone).trans (by simp)

theorem repeatedValidate_reveals (itemRules : Option FieldRuleSet) :
    Reveals Fine (∃ rules, itemRules = some rules ∧
        ∃ item ∈ RepeatedValidationRules.checked runtime base rules.base (message.elements base.field),
          SwallowedAt runtime base rules.base item)
      (RepeatedValidationRules.validate runtime base message itemRules) := by
  have own := (fieldValidate_honest runtime base message).reveals
  cases itemRules with
  | none => exact (own.orExit (honest_pure _).reveals (steady_pure _)).of_iff (by simp)
  | some rules =>
    have each := Reveals.eachThen
      (fun item (_ : item ∈ RepeatedValidationRules.checked runtime base rules.base (message.elements base.field)) =>
        (itemRules_reveals runtime base message rules.base item).framed
          (RepeatedValidationRules.placed runtime base message item.1))
      (fun item _ => itemRound_steady runtime base rules.base message item) (honest_pure (.ok ())).reveals (steady_pure _)
    exact (own.orExit each (Steady.eachThen (fun item _ => itemRound_steady runtime base _ message item)
      (steady_pure _))).of_iff (by simp)

theorem mapValidate_reveals (keyRules valueRules : Option FieldRuleSet) :
    Reveals Fine False (MapValidationRules.validate runtime base keyRules valueRules message) := by
  have reveals : ∀ part ∈ entryParts runtime message base keyRules valueRules, Reveals Fine False part.check :=
    fun _ => entryParts_reveals
  have each := Reveals.eachThen reveals (fun _ => entryParts_steady) (honest_pure (.ok ())).reveals (steady_pure _)
  have whole := (fieldValidate_honest runtime base message).reveals.orFail each
    (Steady.eachThen (fun _ => entryParts_steady) (steady_pure _))
  rw [Reveals, entryParts_alone]
  exact whole.of_iff (by simp)

/-- The rules of a message that lose an error. -/
def Swallows (runtime : Runtime) (message : Message) : ValidationRules → Prop
  | .field (.repeated base (some rules)) =>
    ∃ item ∈ RepeatedValidationRules.checked runtime base rules.base (message.elements base.field),
      SwallowedAt runtime base rules.base item
  | _ => False

theorem rulesValidate_reveals (runtime : Runtime) (message : Message) (rules : ValidationRules) :
    Reveals Fine (Swallows runtime message rules) (rules.validate runtime message) := by
  cases rules with
  | message rules => exact (Honest.bind (validateCel_honest runtime _ _) (fun _ _ => honest_pure _)
      fun _ _ succeeds => succeeds).reveals
  | messageOneof fields required => exact (Honest.andThen (hasCount_honest message fields) fun _ =>
      Honest.andThen (honest_emplaceBackIf _ _) fun _ => Honest.andThen (honest_emplaceBackIf _ _) fun _ => honest_pure _).reveals
  | oneof descriptor required => exact (Honest.andThen (honest_emplaceBackIf _ _) fun _ => honest_pure _).reveals
  | field rules =>
    cases rules with
    | field base => exact (fieldValidate_honest runtime base message).reveals
    | enum base enumRules => exact enumValidate_reveals enumRules
    | repeated base itemRules =>
      cases itemRules with
      | none => exact (repeatedValidate_reveals none).of_iff (by simp [Swallows])
      | some rules => exact (repeatedValidate_reveals (some rules)).of_iff (by simp [Swallows])
    | map base keyRules valueRules => exact mapValidate_reveals keyRules valueRules

end Flaws

section Messages

variable (factory : ValidatorFactory)

/-- Somewhere in the message an item with `Any` rules has a rule that does not answer. -/
inductive SwallowsError : Message → Prop where
  | here {message : Message} {loaded : List ValidationRules} {rules : ValidationRules}
      (found : factory.rulesOf message.descriptor = .ok loaded) (member : rules ∈ loaded)
      (swallows : Swallows factory.context.runtime message rules) : SwallowsError message
  | deeper {message : Message} {child : FieldPathElement × Message} (member : child ∈ children message)
      (swallows : SwallowsError child.2) : SwallowsError message

theorem swallowsError_iff {message : Message} {loaded : List ValidationRules}
    (found : factory.rulesOf message.descriptor = .ok loaded) :
    SwallowsError factory message ↔ (∃ rules ∈ loaded, Swallows factory.context.runtime message rules) ∨
      ∃ child ∈ children message, SwallowsError factory child.2 := by
  constructor
  · intro swallowsError
    cases swallowsError with
    | here found' member swallows =>
      rw [found] at found'
      cases found'
      exact .inl ⟨_, member, swallows⟩
    | deeper member swallows => exact .inr ⟨_, member, swallows⟩
  · rintro (⟨rules, member, swallows⟩ | ⟨child, member, swallows⟩)
    · exact .here found member swallows
    · exact .deeper member swallows

theorem validateMessage_reveals (message : Message) :
    Reveals Fine (SwallowsError factory message) (Validator.validateMessage factory message) := by
  induction message using children_induction with
  | step message ih =>
    rw [Validator.validateMessage_eq]
    cases found : factory.rulesOf message.descriptor with
    | error failure =>
      intro impossible
      cases impossible
    | ok loaded =>
      have below := Reveals.eachThen (fun child member => (ih child member).framed fun violation =>
        violation.appendFieldPathElement child.1) (fun child _ => (validateMessage_steady child.2 factory).framed _)
        (honest_pure (.ok ())).reveals (steady_pure _)
      have whole := Reveals.eachThen (fun rules (_ : rules ∈ loaded) => rulesValidate_reveals
        factory.context.runtime message rules)
        (fun rules _ => rulesValidate_steady _ message rules) below
        (childLoop_steady factory fun child _ => validateMessage_steady child.2 factory)
      exact whole.of_iff (by rw [swallowsError_iff factory found]; simp)

/-- A validation without an error has lost none, unless an item with `Any` rules
has a rule that does not answer. -/
theorem evaluations_fine_iff (message : Message) (violations : List RuleViolation)
    (succeeds : Validator.validate factory false message = .ok violations) :
    (∀ event ∈ (Validator.run factory false message).2.trace, Fine event) ↔ ¬SwallowsError factory message := by
  exact validateMessage_reveals factory message (Validator.validate_ok.mp succeeds).1

end Messages

section Requests

/-- An evaluation in which one expression fails. -/
def failing (expression : String) (_ : Activation) : Except StatusError CelValue :=
  if expression = "1 / 0 > 0" then .error ⟨.invalidArgument, "divide by zero"⟩ else .ok (.bool true)

def failingFactory : ValidatorFactory := { context := { runtime := plainRuntime failing } }

def anyDescriptor : Descriptor where
  fullName := "google.protobuf.Any"
  fields := [{ number := 1, name := "type_url", fullName := "google.protobuf.Any.type_url", type := .string }]

def detailsField (items : FieldRules) : FieldDescriptor where
  number := 1
  name := "details"
  fullName := "acme.Request.details"
  type := .message
  messageType := "google.protobuf.Any"
  shape := .repeated
  options := some (.mk none false [] [] (.repeated { typeName := "buf.validate.RepeatedRules" } (some items)))

/-- A request with one item in a repeated field of `Any` messages. -/
def request (items : FieldRules) : Message :=
  ⟨{ fullName := "acme.Request", fields := [detailsField items] },
    [.mk (detailsField items) (.repeated [.message ⟨anyDescriptor, []⟩])]⟩

/-- Items with one custom rule and rules for the type URL. -/
def itemsWith (expression : String) : FieldRules :=
  .mk none false [{ id := "custom", expression := expression }] []
    (.any { message := { typeName := "buf.validate.AnyRules" }, notIn := ["type.googleapis.com/acme.Secret"] })

theorem evaluations_fine_iff_request :
    (∀ event ∈ (Validator.run failingFactory false (request (itemsWith "this != null"))).2.trace, Fine event) ↔
      ¬SwallowsError failingFactory (request (itemsWith "this != null")) :=
  evaluations_fine_iff failingFactory _ [] rfl

/-- The rule of the item divides by zero, and the request is found valid. -/
theorem brokenItem_passes :
    Validator.validate failingFactory false (request (itemsWith "1 / 0 > 0")) = .ok [] ∧
      ∃ event ∈ (Validator.run failingFactory false (request (itemsWith "1 / 0 > 0"))).2.trace, ¬Fine event := by
  refine ⟨rfl, _, List.Mem.head _, ?_⟩
  rw [fine_evaluated]
  decide

end Requests
end Protovalidate.Validate
