import Protovalidate.Foundation.Halting
import Protovalidate.Validate.Bindings
import Protovalidate.Validate.ElementPairs

/-! Which rules of a field go on, in a run that fails fast, behind a violation they have
recorded themselves. -/

namespace Protovalidate.Validate

open Foundation Check

section Events

def Recorded : Event → Prop
  | .recorded => True
  | _ => False

/-- What must not happen any more behind a violation. -/
def Acts : Event → Prop
  | .evaluated _ _ _ => True
  | .recorded => True
  | _ => False

/-- A part that halts, in a run that fails fast, unless there is a leak. -/
abbrev Stopping {β : Type} (leak : Prop) (part : RuleCheck β) : Prop := Stops Recorded Acts leak part

end Events

variable (runtime : Runtime)

section Cel

variable (cel : CelValidationRules) (activation : Activation)

theorem processRule_stops (expr : CompiledRule) : Stopping False (processRule runtime activation expr) := by
  intro trace
  cases kind : verdict (runtime.evaluate expr.rule.expression activation) with
  | holds =>
    rw [processRule_holds runtime true ⟨[], trace⟩ kind]
    exact halts_unmarked fun event among => List.mem_singleton.mp among ▸ not_false
  | fails =>
    obtain ⟨failure, run⟩ := processRule_fails runtime true ⟨[], trace⟩ kind
    rw [run]
    exact halts_unmarked fun event among => List.mem_singleton.mp among ▸ not_false
  | violated =>
    obtain ⟨violation, run⟩ := processRule_violated runtime true ⟨[], trace⟩ kind
    rw [run]
    refine ⟨_, rfl, iff_of_true ⟨.recorded, by simp, trivial⟩ (by simp), iff_of_true ?_ not_false, fun _ => by simp⟩
    simp [Halted, evaluation, Recorded]

theorem celLoop_stops (exprs : List CompiledRule) : Stopping False (cel.celLoop runtime exprs activation) := by
  induction exprs generalizing activation with
  | nil => exact stops_pure _
  | cons expr exprs ih => exact ((processRule_stops runtime _ expr).framed _).exiting (ih _) fun _ => by simp

theorem validateCel_stops : Stopping False (cel.validateCel runtime activation) :=
  (celLoop_stops runtime cel _ _).thenPure fun _ => ⟨_, rfl⟩

/-- Without expressions there is nothing to do. -/
theorem validateCel_idle (none : cel.exprs = []) : ∃ left, cel.validateCel runtime activation = pure (.ok (), left) := by
  rw [CelValidationRules.validateCel, none]
  exact ⟨_, rfl⟩

theorem celLoop_acts {exprs : List CompiledRule} (some : exprs ≠ []) : Acting Acts (cel.celLoop runtime exprs activation) := by
  cases exprs with
  | nil => exact (some rfl).elim
  | cons expr exprs =>
    refine Acting.bind (Acting.framedIf ?_ _ _) fun status => Logs.bind (logs_exits status) fun exit => ?_
    · intro failFast ctx
      obtain ⟨late, first⟩ := processRule_first runtime failFast ctx (cel.bindRule runtime expr activation) expr
      exact ⟨_, first, _, List.mem_cons_self .., trivial⟩
    · cases exit with
      | true => exact logs_pure _
      | false => exact grows_celLoop cel exprs

theorem validateCel_acts (some : cel.exprs ≠ []) : Acting Acts (cel.validateCel runtime activation) :=
  (celLoop_acts runtime cel _ some).bind fun _ => logs_pure _

end Cel

section AnyRules

variable {runtime} (any : AnyRules) (field : ProtoField) (anyMsg : Message)

/-- The number of violations of the rules for `Any`. -/
def anyCount : Nat := (anyPairs any anyMsg).length

/-- A context in which more violations have been recorded. -/
def recordAll (ctx : RuleContext) (found : List RuleViolation) : RuleContext :=
  ⟨ctx.entries ++ found, ctx.trace ++ List.replicate found.length .recorded⟩

theorem recordAll_nil (ctx : RuleContext) : recordAll ctx [] = ctx := by
  simp [recordAll]

theorem recordAll_append (ctx : RuleContext) (found later : List RuleViolation) :
    recordAll (recordAll ctx found) later = recordAll ctx (found ++ later) := by
  simp [recordAll, List.replicate_append_replicate]

theorem emplaceBackIf_apply (condition : Bool) (violation : RuleViolation) (failFast : Bool) (ctx : RuleContext) :
    emplaceBackIf condition violation failFast ctx = ((), recordAll ctx (if condition then [violation] else [])) := by
  cases condition with
  | true => rfl
  | false => exact congrArg _ (recordAll_nil ctx).symm

theorem length_flag {κ ι : Type} (condition : Bool) (entry : κ) (entry' : ι) :
    (if condition then [entry] else []).length = (if condition then [entry'] else []).length := by
  cases condition <;> rfl

/-- A part that records violations and does nothing else. -/
def Records (part : RuleCheck Status) (count : Nat) : Prop := ∀ (failFast : Bool) (ctx : RuleContext), ∃ status found,
  part failFast ctx = (status, recordAll ctx found) ∧ found.length = count ∧ (0 < count → status = .ok ())

theorem Records.stops {part : RuleCheck Status} {count : Nat} (records : Records part count) : Stopping (1 < count) part := by
  intro trace
  obtain ⟨status, found, run, length, _⟩ := records true ⟨[], trace⟩
  rw [run, ← length]
  refine ⟨List.replicate found.length .recorded, rfl, ?_, ?_, fun single => ?_⟩
  · cases found with
    | nil => simp [recordAll]
    | cons violation found => simp [recordAll, List.replicate_succ, Recorded]
  · rw [Halted, List.pairwise_replicate]
    simp [Recorded, Acts]
  · simpa [recordAll] using single

/-- The rules for `Any` record all their violations. -/
theorem validateAny_records (runtime : Runtime) (any : AnyRules) (field : ProtoField) (anyMsg : Message) :
    Records (FieldValidationRules.validateAny runtime any field anyMsg) (anyCount any anyMsg) := by
  intro failFast ctx
  unfold FieldValidationRules.validateAny anyCount anyPairs typeUrl
  cases anyMsg.descriptor.findFieldByName "type_url" with
  | none => exact ⟨_, [], by rw [recordAll_nil]; rfl, rfl, fun impossible => by cases impossible⟩
  | some typeUriField =>
    by_cases other : (typeUriField.type != .string) = true
    · simp only [other, ↓reduceIte]
      exact ⟨_, [], by rw [recordAll_nil]; rfl, rfl, fun impossible => by cases impossible⟩
    · simp only [other, Bool.false_eq_true, ↓reduceIte, bind_apply, emplaceBackIf_apply, recordAll_append]
      refine ⟨.ok (), _, rfl, ?_, fun _ => rfl⟩
      rw [List.length_append, List.length_append]
      exact congr (congrArg HAdd.hAdd (length_flag (allowViolated any _) _ _)) (length_flag _ _ _)

end AnyRules

section Fields

variable (base : FieldValidationRules) (message : Message)

/-- The number of violations of the rules for `Any` of a singular field. -/
def singleAnyCount : Nat :=
  match base.anyRules with
  | none => 0
  | some any => if base.field.isCppMessage then anyCount any (base.getMessage runtime message) else 0

/-- The CEL rules of a singular field get to an expression. -/
def Evaluates : Prop := base.exprs ≠ [] ∧ ∃ value,
  runtime.createValueFromSingleField base.field.toFieldInfo (message.single base.field) = .ok value

/-- `ValidateAny` records two violations, or one in front of the CEL rules. -/
def SingularLeaks : Prop :=
  (message.hasField base.field = true ∨ (base.required = false ∧ base.ignoreEmpty = false)) ∧
    (1 < singleAnyCount runtime base message ∨ (0 < singleAnyCount runtime base message ∧ Evaluates runtime base message))

def FieldLeaks : Prop := base.field.isRepeated = false ∧ SingularLeaks runtime base message

theorem records_pure (status : Status) : Records (pure status) 0 :=
  fun _ ctx => ⟨status, [], by rw [recordAll_nil]; rfl, rfl, fun impossible => by cases impossible⟩

/-- A single check records one violation at most. -/
theorem recordIf_stops (condition : Bool) (violation : RuleViolation) : Stopping False (do
    emplaceBackIf condition violation
    pure (.ok ()) : RuleCheck Status) := by
  have records : Records (do
      emplaceBackIf condition violation
      pure (.ok ()) : RuleCheck Status) (if condition then [violation] else []).length :=
    fun failFast ctx => ⟨.ok (), _, by rw [bind_apply, emplaceBackIf_apply]; rfl, rfl, fun _ => rfl⟩
  exact records.stops.of_iff (by cases condition <;> simp)

theorem singleAny_records : Records (base.validateSingleAny runtime message) (singleAnyCount runtime base message) := by
  unfold FieldValidationRules.validateSingleAny singleAnyCount
  cases base.anyRules with
  | none => exact records_pure _
  | some any =>
    simp only
    split
    · exact validateAny_records runtime any _ _
    · exact records_pure _

theorem validateThis_stops (value : CelValue) : Stopping False (base.validateThis runtime message value) :=
  ((validateCel_stops runtime _ _).framedIf _ _).thenPure fun _ => ⟨_, rfl⟩

theorem validateThis_acts (value : CelValue) (some : base.exprs ≠ []) : Acting Acts (base.validateThis runtime message value) :=
  ((validateCel_acts runtime base.toCelValidationRules _ some).framedIf _ _).bind fun _ => logs_pure _

theorem framedIf_pure {β : Type} (allows : β → Bool) (change : RuleViolation → RuleViolation) (value : β) :
    framedIf allows change (pure value : RuleCheck β) = pure value := by
  funext failFast ctx
  rw [framedIf_apply, pure_apply]
  simp [Journal.editFrom]

theorem validateThis_idle (value : CelValue) (none : base.exprs = []) : base.validateThis runtime message value = pure (.ok ()) := by
  obtain ⟨left, idle⟩ := validateCel_idle runtime base.toCelValidationRules (Activation.empty.insertValue "this" value) none
  rw [FieldValidationRules.validateThis, idle, framedIf_pure]
  rfl

theorem required_stops : Stopping False (do
    emplaceBack (base.requiredViolation runtime message)
    pure (.ok ()) : RuleCheck Status) := by
  intro trace
  refine ⟨[.recorded], rfl, iff_of_true ⟨.recorded, by simp, trivial⟩ (by simp [bind_apply, emplaceBack, add, note, pure_apply]),
    iff_of_true ?_ not_false, fun _ => Nat.le_refl 1⟩
  exact List.pairwise_singleton _ _

theorem validateContainer_stops (isEmpty : Bool) (value : CelValue) :
    Stopping False (base.validateContainer runtime message isEmpty value) := by
  unfold FieldValidationRules.validateContainer
  split
  · exact stops_pure _
  · split
    · exact required_stops runtime base message
    · exact validateThis_stops runtime base message value

/-- A part that records violations, in front of one that does not look at them. -/
theorem Records.orFail_acting {first rest : RuleCheck Status} {count : Nat} (records : Records first count)
    (after : Stopping False rest) (acting : Acting Acts rest) (steady : Steady rest) :
    Stopping (0 < count) (orFail first rest) := by
  refine records.stops.orFail_acting after acting steady fun trace => ?_
  obtain ⟨status, found, run, rfl, succeeds⟩ := records true ⟨[], trace⟩
  rw [run, and_false, or_false]
  cases found with
  | nil => simp [recordAll]
  | cons violation found => simp [recordAll, succeeds (Nat.succ_pos _)]

theorem singleRules_stops :
    Stopping (1 < singleAnyCount runtime base message ∨ (0 < singleAnyCount runtime base message ∧ Evaluates runtime base message))
      (orFail (base.validateSingleAny runtime message) (base.validateSingleValue runtime message)) := by
  have records := singleAny_records runtime base message
  have idle {status : Status} (same : base.validateSingleValue runtime message = pure status)
      (never : ¬Evaluates runtime base message) :
      Stopping (1 < singleAnyCount runtime base message ∨ (0 < singleAnyCount runtime base message ∧ Evaluates runtime base message))
        (orFail (base.validateSingleAny runtime message) (base.validateSingleValue runtime message)) := by
    rw [same]
    exact records.stops.orFail_idle.of_iff (by simp [never])
  cases created : runtime.createValueFromSingleField base.field.toFieldInfo (message.single base.field) with
  | error failure =>
    refine idle (by rw [FieldValidationRules.validateSingleValue, created]) ?_
    rintro ⟨_, value, found⟩
    cases created.symm.trans found
  | ok value =>
    have single : base.validateSingleValue runtime message = base.validateThis runtime message value := by
      rw [FieldValidationRules.validateSingleValue, created]
    by_cases none : base.exprs = []
    · exact idle (single.trans (validateThis_idle runtime base message value none)) fun evaluates => evaluates.1 none
    · have evaluates : Evaluates runtime base message := ⟨none, value, created⟩
      rw [single]
      refine Stops.of_iff (records.orFail_acting (validateThis_stops runtime base message value)
        (validateThis_acts runtime base message value none) (validateThis_steady runtime base message value)) ?_
      simp only [evaluates, and_true]
      omega

theorem singular_stops : Stopping (SingularLeaks runtime base message) (base.validateSingular runtime message) := by
  have rules := singleRules_stops runtime base message
  unfold FieldValidationRules.validateSingular SingularLeaks
  cases message.hasField base.field with
  | true => simpa using rules
  | false =>
    cases base.required with
    | true => simpa using required_stops runtime base message
    | false =>
      cases base.ignoreEmpty with
      | true => simpa using stops_pure (Except.ok () : Status)
      | false => simpa using rules

theorem Stops.noted {leak : Prop} {event : Event} {part : RuleCheck Status} (stops : Stopping leak part)
    (unmarked : ¬Recorded event) : Stopping leak (do
      note event
      part) := by
  intro trace
  have first : Halts Recorded Acts False trace (⟨[], trace ++ [event]⟩ : RuleContext) :=
    halts_unmarked fun other among => List.mem_singleton.mp among ▸ unmarked
  exact first.next rfl (stops _)

theorem fieldValidate_stops : Stopping (FieldLeaks runtime base message) (base.validate runtime message) := by
  unfold FieldValidationRules.validate FieldLeaks FieldDescriptor.isRepeated
  cases base.field.shape with
  | map keyInfo valueInfo valid => exact (validateContainer_stops runtime base message _ _).of_iff (by simp)
  | repeated => exact (validateContainer_stops runtime base message _ _).of_iff (by simp)
  | singular => exact (Stops.noted (singular_stops runtime base message) (by exact not_false)).of_iff (by simp)

theorem definedOnly_stops (enumRules : EnumRules) :
    Stopping False (EnumValidationRules.validateDefinedOnly runtime base enumRules message) := by
  unfold EnumValidationRules.validateDefinedOnly
  split
  · exact Stops.noted (recordIf_stops _ _) (by exact not_false)
  · exact stops_pure _

theorem enumValidate_stops (enumRules : EnumRules) :
    Stopping (FieldLeaks runtime base message) (EnumValidationRules.validate runtime base enumRules message) :=
  (fieldValidate_stops runtime base message).exiting (definedOnly_stops runtime base message enumRules) fun _ => by simp

end Fields
end Protovalidate.Validate
