import Protovalidate.Validate.CelOutcome
import Protovalidate.Validate.Logging

/-! The calls of `ValidateCel` for the keys and values of a map, and the run in which
each has an activation of its own. -/

namespace Protovalidate.Validate

open Foundation Check

variable (runtime : Runtime)

section Calls

variable (failFast : Bool)

/-- A call of `ValidateCel` for a key or a value. -/
structure Call where
  rules : CelValidationRules
  this : CelValue

/-- The call for a key or a value, unless there are no rules or `ignore` skips it. -/
def partCall (rules : Option FieldRuleSet) (this : CelValue) : Option Call :=
  match rules with
  | none => none
  | some rules =>
    if rules.base.ignoreEmpty && isEmptyItem this then none else some ⟨rules.base.toCelValidationRules, this⟩

/-- The calls for the key and the value of an entry. -/
def entryCalls (valueInfo : FieldInfo) (keyRules valueRules : Option FieldRuleSet) (entry : Entry × CelValue) :
    Option Call × Option Call :=
  (partCall keyRules entry.2, partCall valueRules (runtime.mapValue valueInfo entry.1.value))

def callOutcome (started : Bool) (bound : Option CelValue) : Option Call → Outcome
  | none => { rule := bound }
  | some call => outcome runtime call.rules call.this failFast started bound call.rules.exprs

/-- A call that starts where `rule` is bound to something else than its first
expression wants. -/
def Stale (bound : Option CelValue) : Option Call → Prop
  | none => False
  | some call =>
    match call.rules.exprs with
    | [] => False
    | expr :: _ => bound.or (ruleBinding runtime call.rules expr) ≠ ruleBinding runtime call.rules expr

/-- A stale call is reached: nothing has failed before it, and a run that fails fast
has not recorded a violation for an entry before. -/
def MeetsStale : Bool → Option CelValue → List (Option Call × Option Call) → Prop
  | _, _, [] => False
  | started, bound, (key, value) :: rest =>
    let afterKey := callOutcome runtime failFast started bound key
    let afterValue := callOutcome runtime failFast (started || afterKey.added) afterKey.rule value
    Stale runtime bound key ∨ (afterKey.failed = false ∧ (Stale runtime afterKey.rule value ∨
      (afterValue.failed = false ∧ (failFast && (afterKey.added || afterValue.added)) = false ∧
        MeetsStale (started || afterKey.added || afterValue.added) afterValue.rule rest)))

end Calls

section OwnRuns

variable (base : FieldValidationRules) (keyInfo valueInfo : FieldInfo) (keyRules valueRules : Option FieldRuleSet)

/-- The rules of an entry, each call with an activation of its own. -/
def ownRules (entry : Entry) (key : CelValue) (start : Nat) : RuleCheck (Except StatusError Activation) := do
  match ← MapValidationRules.keyPart runtime keyInfo keyRules entry key Activation.empty with
  | .error failure => pure (.error failure)
  | .ok _ => MapValidationRules.valuePart runtime valueInfo valueRules entry Activation.empty start

def ownRound (entry : Entry) (key : CelValue) : RuleCheck (Status ⊕ Activation) := scope fun start => do
  let (result, grew) ← grown (ownRules runtime keyInfo valueInfo keyRules valueRules entry key start)
  match result with
  | .error failure => pure (.inl (.error failure))
  | .ok activation => MapValidationRules.entryEnd base keyInfo valueInfo entry activation start grew

def ownLoop : List (Entry × CelValue) → RuleCheck Status
  | [] => pure (.ok ())
  | (entry, key) :: rest => do
    match ← ownRound runtime base keyInfo valueInfo keyRules valueRules entry key with
    | .inl status => pure status
    | .inr _ => ownLoop rest

variable (message : Message)

/-- What `Validate` does behind the call of `Base::Validate`, were there an activation
for each call of `ValidateCel`. -/
def ownEntries : RuleCheck Status :=
  if keyRules.isNone && valueRules.isNone then pure (.ok ())
  else
    match base.field.shape with
    | .map keyInfo valueInfo _ =>
      match runtime.listKeys keyInfo ((message.entries base.field).map Entry.key) with
      | .error failure => pure (.error failure)
      | .ok keys => ownLoop runtime base keyInfo valueInfo keyRules valueRules ((message.entries base.field).zip keys)
    | _ => pure (.ok ())

/-- The calls of `ValidateCel` that are made unless the loop is left. -/
def mapCalls : List (Option Call × Option Call) :=
  if keyRules.isNone && valueRules.isNone then []
  else
    match base.field.shape with
    | .map keyInfo valueInfo _ =>
      match runtime.listKeys keyInfo ((message.entries base.field).map Entry.key) with
      | .error _ => []
      | .ok keys => ((message.entries base.field).zip keys).map (entryCalls runtime valueInfo keyRules valueRules)
    | _ => []

/-- An evaluation with the bindings that belong to an expression of one of the calls. -/
def OwnEvent (calls : List (Option Call × Option Call)) : Event → Prop
  | .evaluated expression activation _ => ∃ pair ∈ calls, ∃ call, (pair.1 = some call ∨ pair.2 = some call) ∧
      ∃ expr ∈ call.rules.exprs, expression = expr.rule.expression ∧ activation "this" = some call.this ∧
        activation "rules" = some call.rules.rulesValue ∧ activation "rule" = ruleBinding runtime call.rules expr
  | .recorded => True
  | _ => False

end OwnRuns

section Steps

variable {runtime} {keyInfo valueInfo : FieldInfo} {keyRules valueRules : Option FieldRuleSet} {entry : Entry}
  {key : CelValue} {activation : Activation} {call : Call}

/-- What follows the call for a key. -/
def keyEnd (result : Status × Activation) : RuleCheck (Except StatusError Activation) :=
  match result.1 with
  | .error failure => pure (.error failure)
  | .ok () => pure (.ok (result.2.removeValueEntry "this"))

theorem keyPart_none (skips : partCall keyRules key = none) :
    MapValidationRules.keyPart runtime keyInfo keyRules entry key activation = pure (.ok activation) := by
  cases keyRules with
  | none => rfl
  | some rules =>
    by_cases skipped : (rules.base.ignoreEmpty && isEmptyItem key) = true
    · simp only [MapValidationRules.keyPart, skipped, ↓reduceIte]
    · simp [partCall, skipped] at skips

theorem keyPart_some (calls : partCall keyRules key = some call) :
    MapValidationRules.keyPart runtime keyInfo keyRules entry key activation =
      framedIf (fun result => result.1.isOk) (MapValidationRules.keyPlaced runtime keyInfo entry)
        (call.rules.validateCel runtime (activation.insertValue "this" call.this)) >>= keyEnd := by
  cases keyRules with
  | none => cases calls
  | some rules =>
    by_cases skipped : (rules.base.ignoreEmpty && isEmptyItem key) = true
    · simp [partCall, skipped] at calls
    · simp only [partCall, skipped, Bool.false_eq_true, ↓reduceIte, Option.some.injEq] at calls
      subst calls
      simp only [MapValidationRules.keyPart, skipped, Bool.false_eq_true, ↓reduceIte]
      rfl

theorem valuePart_none {start : Nat} (skips : partCall valueRules (runtime.mapValue valueInfo entry.value) = none) :
    MapValidationRules.valuePart runtime valueInfo valueRules entry activation start = pure (.ok activation) := by
  cases valueRules with
  | none => rfl
  | some rules =>
    by_cases skipped : (rules.base.ignoreEmpty && isEmptyItem (runtime.mapValue valueInfo entry.value)) = true
    · simp only [MapValidationRules.valuePart, skipped, ↓reduceIte]
    · simp [partCall, skipped] at skips

theorem valuePart_some {start : Nat}
    (calls : partCall valueRules (runtime.mapValue valueInfo entry.value) = some call) :
    MapValidationRules.valuePart runtime valueInfo valueRules entry activation start =
      grown (framedIf (fun result => result.1.isOk) (MapValidationRules.rulePath runtime .values)
        (call.rules.validateCel runtime (activation.insertValue "this" call.this))) >>= fun result =>
        MapValidationRules.valueEnd valueInfo entry start result.1.1 result.1.2 result.2 := by
  cases valueRules with
  | none => cases calls
  | some rules =>
    by_cases skipped : (rules.base.ignoreEmpty && isEmptyItem (runtime.mapValue valueInfo entry.value)) = true
    · simp [partCall, skipped] at calls
    · simp only [partCall, skipped, Bool.false_eq_true, ↓reduceIte, Option.some.injEq] at calls
      subst calls
      simp only [MapValidationRules.valuePart, skipped, Bool.false_eq_true, ↓reduceIte]

end Steps

section OwnEvents

variable {runtime} {good : Event → Prop} (records : good .recorded)
include records

/-- A loop that starts with `rule` unbound evaluates every expression with its own bindings. -/
theorem celLoop_own (cel : CelValidationRules) (this : CelValue) (exprs : List CompiledRule)
    (fine : ∀ expr ∈ exprs, good (evaluation runtime expr (ownBindings runtime cel this expr))) :
    Logs good (cel.celLoop runtime exprs (celBindings runtime cel this)) := by
  induction exprs with
  | nil => exact logs_pure _
  | cons expr exprs ih =>
    have loop : cel.celLoop runtime (expr :: exprs) _ = _ := celLoop_cons cel this expr exprs none
    rw [withRule_none (celBindings_rule runtime cel this), Option.none_or, ← ownBindings] at loop
    rw [loop]
    refine Logs.bind ((evaluation_logs records runtime _ expr (fine expr (by simp))).framed _) fun status => ?_
    refine Logs.bind (logs_exits status) fun exit => ?_
    cases exit with
    | true => exact logs_pure _
    | false => exact ih fun later member => fine later (by simp [member])

theorem call_own (call : Call)
    (fine : ∀ expr ∈ call.rules.exprs, good (evaluation runtime expr (ownBindings runtime call.rules call.this expr))) :
    Logs good (call.rules.validateCel runtime (Activation.empty.insertValue "this" call.this)) := by
  rw [validateCel_eq runtime call.rules call.this (.inl rfl)]
  exact Logs.bind (celLoop_own records _ _ _ fine) fun _ => logs_pure _

variable (base : FieldValidationRules) (keyInfo valueInfo : FieldInfo) (keyRules valueRules : Option FieldRuleSet)

theorem keyPart_own (entry : Entry) (key : CelValue)
    (fine : ∀ call, partCall keyRules key = some call → ∀ expr ∈ call.rules.exprs,
      good (evaluation runtime expr (ownBindings runtime call.rules call.this expr))) :
    Logs good (MapValidationRules.keyPart runtime keyInfo keyRules entry key Activation.empty) := by
  cases calls : partCall keyRules key with
  | none =>
    rw [keyPart_none calls]
    exact logs_pure _
  | some call =>
    rw [keyPart_some calls]
    refine Logs.bind ((call_own records call (fine call calls)).framedIf _ _) fun result => ?_
    obtain ⟨status, left⟩ := result
    cases status with
    | error failure => exact logs_pure _
    | ok _ => exact logs_pure _

theorem valuePart_own (entry : Entry) (start : Nat)
    (fine : ∀ call, partCall valueRules (runtime.mapValue valueInfo entry.value) = some call → ∀ expr ∈ call.rules.exprs,
      good (evaluation runtime expr (ownBindings runtime call.rules call.this expr))) :
    Logs good (MapValidationRules.valuePart runtime valueInfo valueRules entry Activation.empty start) := by
  cases calls : partCall valueRules (runtime.mapValue valueInfo entry.value) with
  | none =>
    rw [valuePart_none calls]
    exact logs_pure _
  | some call =>
    rw [valuePart_some calls]
    refine Logs.bind (((call_own records call (fine call calls)).framedIf _ _).grown) fun result => ?_
    obtain ⟨⟨status, left⟩, grew⟩ := result
    cases status with
    | error failure => exact logs_pure _
    | ok _ =>
      cases grew with
      | true => exact Logs.bind (logs_edit _ _) fun _ => logs_pure _
      | false => exact logs_pure _

theorem ownLoop_own (entries : List (Entry × CelValue))
    (fine : ∀ pair ∈ entries.map (entryCalls runtime valueInfo keyRules valueRules), ∀ call,
      (pair.1 = some call ∨ pair.2 = some call) → ∀ expr ∈ call.rules.exprs,
        good (evaluation runtime expr (ownBindings runtime call.rules call.this expr))) :
    Logs good (ownLoop runtime base keyInfo valueInfo keyRules valueRules entries) := by
  induction entries with
  | nil => exact logs_pure _
  | cons entry entries ih =>
    obtain ⟨entry, key⟩ := entry
    have here := fine _ (List.mem_cons_self ..)
    refine Logs.bind (Logs.scope fun start => Logs.bind (Logs.grown (Logs.bind
      (keyPart_own records _ _ _ _ fun call calls => here call (.inl calls)) fun result => ?_)) fun result => ?_)
      fun result => ?_
    · cases result with
      | error failure => exact logs_pure _
      | ok left => exact valuePart_own records _ _ _ _ fun call calls => here call (.inr calls)
    · obtain ⟨part, grew⟩ := result
      cases part with
      | error failure => exact logs_pure _
      | ok left => exact entryEnd_logs base _ _ _ _ _ _
    · cases result with
      | inl status => exact logs_pure _
      | inr left => exact ih fun pair member => fine pair (List.mem_cons_of_mem _ member)


end OwnEvents

section OwnEntries

variable (base : FieldValidationRules) (keyRules valueRules : Option FieldRuleSet) (message : Message)

theorem ownBindings_spec (cel : CelValidationRules) (this : CelValue) (expr : CompiledRule) :
    ownBindings runtime cel this expr "this" = some this ∧
      ownBindings runtime cel this expr "rules" = some cel.rulesValue ∧
      ownBindings runtime cel this expr "rule" = ruleBinding runtime cel expr := by
  simp [ownBindings, withRule, celBindings, Activation.insertValue, Activation.empty]

theorem ownEntries_own : Logs (OwnEvent runtime (mapCalls runtime base keyRules valueRules message))
    (ownEntries runtime base keyRules valueRules message) := by
  unfold ownEntries mapCalls
  split
  · exact logs_pure _
  · cases base.field.shape with
    | map keyInfo valueInfo valid =>
      simp only
      cases runtime.listKeys keyInfo ((message.entries base.field).map Entry.key) with
      | error failure => exact logs_pure _
      | ok keys =>
        refine ownLoop_own trivial base keyInfo valueInfo keyRules valueRules _ fun pair member call calls expr among => ?_
        exact ⟨pair, member, call, calls, expr, among, rfl, ownBindings_spec runtime _ _ _⟩
    | _ => exact logs_pure _

end OwnEntries
end Protovalidate.Validate
