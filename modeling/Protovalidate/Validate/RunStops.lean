import Protovalidate.Validate.ContainerStops

/-! When a run that fails fast comes to a halt at its first violation. -/

namespace Protovalidate.Validate

open Foundation Check

section Rules

variable (runtime : Runtime) (message : Message)

/-- A rule that goes on behind a violation it has recorded itself. -/
def RuleLeaks : ValidationRules → Prop
  | .field (.field base) => FieldLeaks runtime base message
  | .field (.enum base _) => FieldLeaks runtime base message
  | .field (.repeated base itemRules) => RepeatedLeaks runtime base message itemRules
  | .field (.map base keyRules valueRules) => MapLeaks runtime base keyRules valueRules message
  | _ => False

theorem hasCount_entries (fields : List FieldDescriptor) (failFast : Bool) (ctx : RuleContext) :
    (MessageOneofValidationRules.hasCount message fields failFast ctx).2.entries = ctx.entries := by
  induction fields generalizing ctx with
  | nil => rfl
  | cons field fields ih => exact ih _

theorem hasCount_unmarked (fields : List FieldDescriptor) :
    Logs (fun event => ¬Recorded event) (MessageOneofValidationRules.hasCount message fields) := by
  induction fields with
  | nil => exact logs_pure _
  | cons field fields ih =>
    exact Logs.bind (logs_note (by exact not_false)) fun _ => Logs.bind ih fun _ => logs_pure _

/-- Too many fields and too few are not found together. -/
theorem messageOneof_records (fields : List FieldDescriptor) (required : Bool) (count : Nat) :
    ∃ found, found ≤ 1 ∧ Records (do
      emplaceBackIf (decide (count > 1))
        { proto := { ruleId := "message.oneof", message := "only one of " ++ MessageOneofValidationRules.fieldNames fields ++ " can be set" } }
      emplaceBackIf (required && count == 0)
        { proto := { ruleId := "message.oneof", message := "one of " ++ MessageOneofValidationRules.fieldNames fields ++ " must be set" } }
      pure (.ok ())) found := by
  refine ⟨_, ?_, fun failFast ctx => ⟨.ok (), _, by
    simp only [bind_apply, emplaceBackIf_apply, recordAll_append]; rfl, rfl, fun _ => rfl⟩⟩
  rw [List.length_append]
  by_cases many : count > 1
  · have some : (count == 0) = false := by simp; omega
    simp [many, some]
  · simp only [many, decide_false, Bool.false_eq_true, ↓reduceIte, List.length_nil, Nat.zero_add]
    split <;> simp

theorem messageOneof_stops (fields : List FieldDescriptor) (required : Bool) :
    Stopping False (MessageOneofValidationRules.validate fields required message) := by
  intro trace
  obtain ⟨late, grown, unmarked⟩ := hasCount_unmarked message fields true ⟨[], trace⟩
  have kept := hasCount_entries message fields true ⟨[], trace⟩
  rw [MessageOneofValidationRules.validate, bind_apply]
  generalize MessageOneofValidationRules.hasCount message fields true ⟨[], trace⟩ = run at grown kept ⊢
  obtain ⟨count, entries, events⟩ := run
  obtain rfl : entries = [] := kept
  obtain rfl : events = trace ++ late := grown
  obtain ⟨found, single, records⟩ := messageOneof_records fields required count
  exact (halts_unmarked unmarked).next rfl ((records.stops _).of_iff (by simp; omega))

theorem rulesValidate_stops (rules : ValidationRules) :
    Stopping (RuleLeaks runtime message rules) (rules.validate runtime message) := by
  cases rules with
  | message rules => exact (validateCel_stops runtime rules _).thenPure fun _ => ⟨_, rfl⟩
  | messageOneof fields required => exact messageOneof_stops message fields required
  | oneof descriptor required => exact recordIf_stops _ _
  | field rules =>
    cases rules with
    | field base => exact fieldValidate_stops runtime base message
    | enum base enumRules => exact enumValidate_stops runtime base message enumRules
    | repeated base itemRules => exact repeatedValidate_stops runtime base message itemRules
    | map base keyRules valueRules => exact mapValidate_stops runtime base keyRules valueRules message

end Rules

section Runs

variable (factory : ValidatorFactory)

/-- The run gets to a rule that leaks: on their own, all rules and sub-messages before
it succeed without a violation. -/
inductive Overruns (factory : ValidatorFactory) : Message → Prop where
  | rule {message rules before rule after} (found : factory.rulesOf message.descriptor = .ok rules)
    (split : rules = before ++ rule :: after)
    (passed : ∀ earlier ∈ before, Passes (earlier.validate factory.context.runtime message))
    (leaks : RuleLeaks factory.context.runtime message rule) : Overruns factory message
  | child {message rules before child after} (found : factory.rulesOf message.descriptor = .ok rules)
    (passed : ∀ rule ∈ rules, Passes (rule.validate factory.context.runtime message))
    (split : children message = before ++ child :: after)
    (passed' : ∀ earlier ∈ before, Passes (Validator.validateChild factory earlier))
    (leaks : Overruns factory child.2) : Overruns factory message

theorem overruns_iff {message : Message} {rules : List ValidationRules}
    (found : factory.rulesOf message.descriptor = .ok rules) :
    Overruns factory message ↔
      Meets (fun rule => Passes (rule.validate factory.context.runtime message)) (RuleLeaks factory.context.runtime message) rules ∨
      ((∀ rule ∈ rules, Passes (rule.validate factory.context.runtime message)) ∧
        Meets (fun child => Passes (Validator.validateChild factory child)) (fun child => Overruns factory child.2) (children message)) := by
  constructor
  · intro overruns
    cases overruns with
    | rule found' split passed leaks =>
      cases found.symm.trans found'
      exact .inl ⟨_, _, _, split, passed, leaks⟩
    | child found' passed split passed' leaks =>
      cases found.symm.trans found'
      exact .inr ⟨passed, _, _, _, split, passed', leaks⟩
  · rintro (⟨before, rule, after, split, passed, leaks⟩ | ⟨passed, before, child, after, split, passed', leaks⟩)
    · exact .rule found split passed leaks
    · exact .child found passed split passed' leaks

/-- Whether a sub-message passes does not depend on the mode. -/
theorem validateChild_passed (child : FieldPathElement × Message) (trace : List Event) :
    Passed (Validator.validateChild factory child) trace ↔ Passes (Validator.validateChild factory child) :=
  passed_iff ((validateMessage_agrees child.2 factory).framed (appended_uniform child.1))
    ((validateMessage_steady child.2 factory).framed _) trace

theorem rulesValidate_passed (runtime : Runtime) (message : Message) (rule : ValidationRules) (trace : List Event) :
    Passed (rule.validate runtime message) trace ↔ Passes (rule.validate runtime message) :=
  passed_iff (rulesValidate_agrees runtime message rule) (rulesValidate_steady runtime message rule) trace

/-- The run of a message halts unless it gets to a rule that leaks. -/
theorem validateMessage_stops (message : Message) :
    Stopping (Overruns factory message) (Validator.validateMessage factory message) := by
  induction message using children_induction with
  | step message ih =>
    rw [Validator.validateMessage_eq]
    cases found : factory.rulesOf message.descriptor with
    | error failure =>
      refine (stops_pure _).of_iff (iff_of_false not_false fun overruns => ?_)
      cases overruns with
      | rule found' => cases found.symm.trans found'
      | child found' => cases found.symm.trans found'
    | ok rules =>
      have below := Stops.eachThen (fun child among => (ih child among).framed fun violation =>
        violation.appendFieldPathElement child.1) (fun child _ => validateChild_passed factory child) (stops_pure (.ok ()))
      refine (Stops.eachThen (fun rule _ => rulesValidate_stops factory.context.runtime message rule)
        (fun rule _ => rulesValidate_passed _ message rule) below).of_iff ?_
      rw [overruns_iff factory found]
      simp

/-- In a run that fails fast nothing is evaluated and nothing is recorded behind the
first violation if and only if the run gets to no rule that leaks, and then a list that
is returned has one violation at most. -/
theorem failFast_stops_iff (message : Message) :
    (Halted Recorded Acts (Validator.run factory true message).2.trace ↔ ¬Overruns factory message) ∧
      (¬Overruns factory message → ∀ violations, Validator.validate factory true message = .ok violations →
        violations.length ≤ 1) := by
  obtain ⟨late, grown, _, halted, single⟩ := validateMessage_stops factory message []
  rw [List.nil_append] at grown
  refine ⟨grown ▸ halted, fun tight violations returned => ?_⟩
  obtain ⟨_, rfl⟩ := Validator.validate_ok.mp returned
  rw [List.length_map]
  exact single tight

end Runs

section Sample

/-- An evaluation in which small numbers break every rule. -/
def atLeastThree (_ : String) (activation : Activation) : Except StatusError CelValue :=
  match activation "this" with
  | some (.int number) => .ok (.bool (decide (3 ≤ number)))
  | _ => .ok (.bool true)

/-- A map whose keys and values must be at least 3. -/
def stockField : FieldDescriptor :=
  let atLeast : FieldRules := .mk none false [{ id := "at_least", expression := "this >= 3" }] [] .notSet
  { pricesField with options := some (.mk none false [] [] (.map { typeName := "buf.validate.MapRules" } (some atLeast) (some atLeast))) }

def stock : Message :=
  ⟨{ fullName := "Stock", fields := [stockField] }, [⟨stockField, .map [⟨.int 2, .scalar (.int 1)⟩]⟩]⟩

def stockFactory : ValidatorFactory := { context := { runtime := plainRuntime atLeastThree } }

/-- The value is checked behind the violation of its key. -/
theorem secondViolation_recorded :
    (Validator.validate stockFactory true stock).map List.length = .ok 2 ∧
      ¬Halted Recorded Acts (Validator.run stockFactory true stock).2.trace := by
  refine ⟨rfl, fun halted => ?_⟩
  have behind := (List.pairwise_cons.mp (List.pairwise_cons.mp halted).2).1
  exact behind _ (List.mem_cons_self ..) trivial trivial

end Sample
end Protovalidate.Validate
