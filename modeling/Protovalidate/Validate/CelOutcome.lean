import Protovalidate.Validate.Parts

/-! What `ValidateCel` comes to, told from the values of the expressions: whether it
fails, whether it adds a violation, and which value of `rule` it leaves bound. -/

namespace Protovalidate.Validate

open Foundation Check

variable (runtime : Runtime)

section Verdicts

/-- What `ProcessRule` makes of the value of an expression. -/
inductive Verdict where
  | holds | violated | fails
deriving DecidableEq

def verdict : Except StatusError CelValue → Verdict
  | .ok (.bool holds) => if holds then .holds else .violated
  | .ok (.string text) => if text.isEmpty then .holds else .violated
  | _ => .fails

/-- The event of an evaluation. -/
def evaluation (expr : CompiledRule) (activation : Activation) : Event :=
  .evaluated expr.rule.expression activation (runtime.evaluate expr.rule.expression activation)

variable {activation : Activation} {expr : CompiledRule} (failFast : Bool) (ctx : RuleContext)

theorem processRule_holds (holds : verdict (runtime.evaluate expr.rule.expression activation) = .holds) :
    processRule runtime activation expr failFast ctx =
      (.ok (), ⟨ctx.entries, ctx.trace ++ [evaluation runtime expr activation]⟩) := by
  unfold processRule evaluation
  rw [bind_apply]
  generalize runtime.evaluate expr.rule.expression activation = result at holds ⊢
  rcases result with failure | value
  · cases holds
  · cases value with
    | bool truth =>
      cases truth with
      | true => rfl
      | false => cases holds
    | string text =>
      cases empty : text.isEmpty with
      | true => simp only [empty]; rfl
      | false => simp [verdict, empty] at holds
    | _ => cases holds

theorem processRule_violated (violated : verdict (runtime.evaluate expr.rule.expression activation) = .violated) :
    ∃ violation, processRule runtime activation expr failFast ctx =
      (.ok (), ⟨ctx.entries ++ [violation], ctx.trace ++ [evaluation runtime expr activation, .recorded]⟩) := by
  unfold processRule evaluation
  simp only [bind_apply]
  generalize runtime.evaluate expr.rule.expression activation = result at violated ⊢
  rcases result with failure | value
  · cases violated
  · cases value with
    | bool truth =>
      cases truth with
      | true => cases violated
      | false => exact ⟨_, by simp [note, emplaceBackIf, emplaceBack, add, bind_apply, pure_apply]; rfl⟩
    | string text =>
      cases empty : text.isEmpty with
      | true => simp [verdict, empty] at violated
      | false => exact ⟨_, by simp [note, emplaceBackIf, emplaceBack, add, bind_apply, pure_apply, empty]; rfl⟩
    | _ => cases violated

theorem processRule_fails (fails : verdict (runtime.evaluate expr.rule.expression activation) = .fails) :
    ∃ failure, processRule runtime activation expr failFast ctx =
      (.error failure, ⟨ctx.entries, ctx.trace ++ [evaluation runtime expr activation]⟩) := by
  unfold processRule evaluation
  rw [bind_apply]
  generalize runtime.evaluate expr.rule.expression activation = result at fails ⊢
  rcases result with failure | value
  · exact ⟨failure, rfl⟩
  · cases value with
    | bool truth => cases truth <;> cases fails
    | string text =>
      simp only [verdict] at fails
      split at fails <;> cases fails
    | _ => exact ⟨_, rfl⟩

theorem processRule_first (activation : Activation) (expr : CompiledRule) :
    ∃ late, (processRule runtime activation expr failFast ctx).2.trace =
      ctx.trace ++ evaluation runtime expr activation :: late := by
  cases kind : verdict (runtime.evaluate expr.rule.expression activation) with
  | holds => exact ⟨[], by rw [processRule_holds runtime failFast ctx kind]⟩
  | violated =>
    obtain ⟨violation, run⟩ := processRule_violated runtime failFast ctx kind
    exact ⟨[.recorded], by rw [run]⟩
  | fails =>
    obtain ⟨failure, run⟩ := processRule_fails runtime failFast ctx kind
    exact ⟨[], by rw [run]⟩

end Verdicts

section Bindings

variable (cel : CelValidationRules) (this : CelValue)

/-- The bindings with another value of `rule`. -/
def withRule (bindings : Activation) (rule : Option CelValue) : Activation := fun name =>
  if name = "rule" then rule else bindings name

/-- The value of the rule field of an expression. -/
def ruleBinding (expr : CompiledRule) : Option CelValue :=
  match cel.rules, expr.ruleField with
  | some _, some field => some (protoFieldToCelValue runtime field)
  | _, _ => none

/-- The bindings that belong to an expression. -/
def ownBindings (expr : CompiledRule) : Activation :=
  withRule (celBindings runtime cel this) (ruleBinding runtime cel expr)

variable {runtime cel this}

theorem withRule_none {bindings : Activation} (unbound : bindings "rule" = none) : withRule bindings none = bindings := by
  funext name
  by_cases isRule : name = "rule"
  · subst isRule
    exact unbound.symm
  · simp [withRule, isRule]

theorem withRule_removed {bindings : Activation} (unbound : bindings "rule" = none) (rule : Option CelValue) :
    (withRule bindings rule).removeValueEntry "rule" = bindings := by
  funext name
  by_cases isRule : name = "rule"
  · subst isRule
    simp [Activation.removeValueEntry, unbound]
  · simp [Activation.removeValueEntry, withRule, isRule]

theorem insertRule_unbound {bindings : Activation} (unbound : bindings "rule" = none) (value : CelValue) :
    bindings.insertValue "rule" value = withRule bindings (some value) := by
  funext name
  by_cases isRule : name = "rule"
  · simp [Activation.insertValue, withRule, isRule, unbound]
  · simp [Activation.insertValue, withRule, isRule]

theorem insertRule_bound {bindings : Activation} {value : CelValue} (other : CelValue) :
    (withRule bindings (some value)).insertValue "rule" other = withRule bindings (some value) := by
  funext name
  by_cases isRule : name = "rule"
  · simp [Activation.insertValue, withRule, isRule]
  · simp [Activation.insertValue, withRule, isRule]

/-- A name that is unbound is bound to the rule field of the expression; one that is
bound keeps its value. -/
theorem bindRule_withRule (expr : CompiledRule) (bound : Option CelValue) :
    cel.bindRule runtime expr (withRule (celBindings runtime cel this) bound) =
      withRule (celBindings runtime cel this) (bound.or (ruleBinding runtime cel expr)) := by
  unfold CelValidationRules.bindRule ruleBinding
  cases cel.rules with
  | none => rw [Option.or_none]
  | some rules =>
    cases expr.ruleField with
    | none => rw [Option.or_none]
    | some field =>
      cases bound with
      | none => simp only [withRule_none (celBindings_rule runtime cel this),
          insertRule_unbound (celBindings_rule runtime cel this), Option.none_or]
      | some value => simp only [insertRule_bound, Option.some_or]

end Bindings

section Outcomes

variable (cel : CelValidationRules) (this : CelValue) (failFast : Bool)

structure Outcome where
  failed : Bool := false
  added : Bool := false
  /-- The value `rule` is left bound to. -/
  rule : Option CelValue := none

/-- What the loop over the expressions comes to, where each sees its own bindings.
`started` tells whether there are violations already, `bound` what `rule` is bound to. -/
def outcome : Bool → Option CelValue → List CompiledRule → Outcome
  | _, bound, [] => { rule := bound }
  | started, _, expr :: exprs =>
    match verdict (runtime.evaluate expr.rule.expression (ownBindings runtime cel this expr)) with
    | .fails => { failed := true, rule := ruleBinding runtime cel expr }
    | .violated =>
      if failFast then { added := true, rule := ruleBinding runtime cel expr }
      else { outcome true none exprs with added := true }
    | .holds =>
      if failFast && started then { rule := ruleBinding runtime cel expr }
      else outcome started none exprs

/-- The same where `rule` may be bound to the value of another expression, which only the
first expression sees. -/
def boundOutcome (started : Bool) (bound : Option CelValue) : List CompiledRule → Outcome
  | [] => { rule := bound }
  | expr :: exprs =>
    let rule := bound.or (ruleBinding runtime cel expr)
    match verdict (runtime.evaluate expr.rule.expression (withRule (celBindings runtime cel this) rule)) with
    | .fails => { failed := true, rule := rule }
    | .violated =>
      if failFast then { added := true, rule := rule }
      else { outcome runtime cel this failFast true none exprs with added := true }
    | .holds =>
      if failFast && started then { rule := rule }
      else outcome runtime cel this failFast started none exprs

/-- A run of the loop that comes to an outcome. -/
structure Ends (outcome : Outcome) (ctx : RuleContext) (run : (Status × Activation) × RuleContext) : Prop where
  status : run.1.1.isOk = !outcome.failed
  left : run.1.2 = withRule (celBindings runtime cel this) outcome.rule
  grew : decide (run.2.entries.length > ctx.entries.length) = outcome.added

variable {runtime cel this} {expr : CompiledRule} (ctx : RuleContext)

theorem framed_apply (change : RuleViolation → RuleViolation) (part : RuleCheck Status) :
    framed change part failFast ctx =
      ((part failFast ctx).1, (part failFast ctx).2.editFrom ctx.entries.length change) := rfl

theorem celLoop_cons (cel : CelValidationRules) (this : CelValue) (expr : CompiledRule)
    (exprs : List CompiledRule) (bound : Option CelValue) :
    cel.celLoop runtime (expr :: exprs) (withRule (celBindings runtime cel this) bound) = (do
      let status ← framed (cel.ruleValueOf expr)
        (processRule runtime (withRule (celBindings runtime cel this) (bound.or (ruleBinding runtime cel expr))) expr)
      if ← exits status then
        pure (status, withRule (celBindings runtime cel this) (bound.or (ruleBinding runtime cel expr)))
      else cel.celLoop runtime exprs (celBindings runtime cel this)) := by
  rw [CelValidationRules.celLoop, bindRule_withRule]
  simp only [withRule_removed (celBindings_rule runtime cel this)]

variable {bound : Option CelValue} (exprs : List CompiledRule) {bindings : Activation}
  (isBound : withRule (celBindings runtime cel this) (bound.or (ruleBinding runtime cel expr)) = bindings)
include isBound

theorem celLoop_holds (holds : verdict (runtime.evaluate expr.rule.expression bindings) = .holds) :
    cel.celLoop runtime (expr :: exprs) (withRule (celBindings runtime cel this) bound) failFast ctx =
      if (failFast && !ctx.entries.isEmpty) = true then
        ((.ok (), bindings), ⟨ctx.entries, ctx.trace ++ [evaluation runtime expr bindings]⟩)
      else cel.celLoop runtime exprs (celBindings runtime cel this) failFast
        ⟨ctx.entries, ctx.trace ++ [evaluation runtime expr bindings]⟩ := by
  rw [celLoop_cons, isBound, bind_apply, framed_apply, processRule_holds runtime failFast ctx holds]
  have kept : Journal.editFrom ctx.entries.length (cel.ruleValueOf expr)
      (⟨ctx.entries, ctx.trace ++ [evaluation runtime expr bindings]⟩ : RuleContext) =
        ⟨ctx.entries, ctx.trace ++ [evaluation runtime expr bindings]⟩ := by
    simp [Journal.editFrom]
  rw [kept, bind_apply]
  simp only [exits, Except.isOk, Except.toBool, Bool.not_true, Bool.false_or]
  split <;> rfl

theorem celLoop_violated (violated : verdict (runtime.evaluate expr.rule.expression bindings) = .violated) :
    ∃ violation, cel.celLoop runtime (expr :: exprs) (withRule (celBindings runtime cel this) bound) failFast ctx =
      if failFast = true then
        ((.ok (), bindings), ⟨ctx.entries ++ [violation],
          ctx.trace ++ [evaluation runtime expr bindings, .recorded]⟩)
      else cel.celLoop runtime exprs (celBindings runtime cel this) failFast ⟨ctx.entries ++ [violation],
        ctx.trace ++ [evaluation runtime expr bindings, .recorded]⟩ := by
  obtain ⟨violation, run⟩ := processRule_violated runtime failFast ctx violated
  refine ⟨cel.ruleValueOf expr violation, ?_⟩
  rw [celLoop_cons, isBound, bind_apply, framed_apply, run]
  have placed : Journal.editFrom ctx.entries.length (cel.ruleValueOf expr) (⟨ctx.entries ++ [violation],
      ctx.trace ++ [evaluation runtime expr bindings, .recorded]⟩ : RuleContext) =
        ⟨ctx.entries ++ [cel.ruleValueOf expr violation],
          ctx.trace ++ [evaluation runtime expr bindings, .recorded]⟩ := by
    simp [Journal.editFrom]
  rw [placed, bind_apply]
  cases failFast with
  | true => simp [exits, Except.isOk, Except.toBool, pure_apply]
  | false => simp [exits, Except.isOk, Except.toBool]

theorem celLoop_fails (fails : verdict (runtime.evaluate expr.rule.expression bindings) = .fails) :
    ∃ failure, cel.celLoop runtime (expr :: exprs) (withRule (celBindings runtime cel this) bound) failFast ctx =
      ((.error failure, bindings), ⟨ctx.entries, ctx.trace ++ [evaluation runtime expr bindings]⟩) := by
  obtain ⟨failure, run⟩ := processRule_fails runtime failFast ctx fails
  refine ⟨failure, ?_⟩
  rw [celLoop_cons, isBound, bind_apply, framed_apply, run]
  simp [Journal.editFrom, exits, Except.isOk, Except.toBool, bind_apply, pure_apply]

end Outcomes

section Loops

variable (cel : CelValidationRules) (this : CelValue) (failFast : Bool)

theorem ends_nil (ctx : RuleContext) (bound : Option CelValue) : Ends runtime cel this { rule := bound } ctx
    (cel.celLoop runtime [] (withRule (celBindings runtime cel this) bound) failFast ctx) where
  status := rfl
  left := rfl
  grew := by simp [CelValidationRules.celLoop, pure_apply]

/-- Where the first expression sees its own value of `rule`, it does not matter what
`rule` was bound to. -/
theorem boundOutcome_own (started : Bool) (bound : Option CelValue) (exprs : List CompiledRule)
    (own : ∀ expr rest, exprs = expr :: rest → bound.or (ruleBinding runtime cel expr) = ruleBinding runtime cel expr) :
    boundOutcome runtime cel this failFast started bound exprs = outcome runtime cel this failFast started bound exprs := by
  cases exprs with
  | nil => rfl
  | cons expr exprs =>
    simp only [boundOutcome, outcome, own expr exprs rfl]
    rfl

/-- Whatever `rule` is bound to, the loop comes to its outcome. -/
theorem celLoop_bound (exprs : List CompiledRule) (ctx : RuleContext) (bound : Option CelValue) :
    Ends runtime cel this (boundOutcome runtime cel this failFast (!ctx.entries.isEmpty) bound exprs) ctx
      (cel.celLoop runtime exprs (withRule (celBindings runtime cel this) bound) failFast ctx) := by
  induction exprs generalizing ctx bound with
  | nil => exact ends_nil runtime cel this failFast ctx bound
  | cons expr exprs ih =>
    have unbound := withRule_none (celBindings_rule runtime cel this)
    have later (ctx : RuleContext) := ih ctx none
    simp only [unbound, boundOutcome_own runtime cel this failFast _ none exprs fun _ _ _ => Option.none_or] at later
    rw [boundOutcome]
    generalize isBound : withRule (celBindings runtime cel this) (bound.or (ruleBinding runtime cel expr)) = bindings
    cases kind : verdict (runtime.evaluate expr.rule.expression bindings) with
    | holds =>
      rw [celLoop_holds failFast ctx exprs isBound kind]
      simp only
      split
      · exact ⟨rfl, isBound.symm, by simp⟩
      · have ends := later ⟨ctx.entries, ctx.trace ++ [evaluation runtime expr bindings]⟩
        exact ⟨ends.status, ends.left, ends.grew⟩
    | violated =>
      obtain ⟨violation, run⟩ := celLoop_violated failFast ctx exprs isBound kind
      rw [run]
      simp only
      split
      · exact ⟨rfl, isBound.symm, by simp⟩
      · generalize recorded : ctx.trace ++ [evaluation runtime expr bindings, .recorded] = trace
        have ends := later ⟨ctx.entries ++ [violation], trace⟩
        have started : (!(⟨ctx.entries ++ [violation], trace⟩ : RuleContext).entries.isEmpty) = true := by simp
        obtain ⟨late, same⟩ := (celLoop_steady runtime cel (celBindings runtime cel this) exprs).extends failFast
          ⟨ctx.entries ++ [violation], trace⟩
        rw [started] at ends
        refine ⟨ends.status, ends.left, ?_⟩
        rw [same]
        simp
    | fails =>
      obtain ⟨failure, run⟩ := celLoop_fails failFast ctx exprs isBound kind
      rw [run]
      exact ⟨rfl, isBound.symm, by simp⟩

/-- Unless `rule` is bound to something else than the first expression wants, the
loop comes to the outcome of its own bindings. -/
theorem celLoop_outcome (exprs : List CompiledRule) (ctx : RuleContext) (bound : Option CelValue)
    (own : ∀ expr rest, exprs = expr :: rest → bound.or (ruleBinding runtime cel expr) = ruleBinding runtime cel expr) :
    Ends runtime cel this (outcome runtime cel this failFast (!ctx.entries.isEmpty) bound exprs) ctx
      (cel.celLoop runtime exprs (withRule (celBindings runtime cel this) bound) failFast ctx) := by
  rw [← boundOutcome_own runtime cel this failFast _ bound exprs own]
  exact celLoop_bound runtime cel this failFast exprs ctx bound

end Loops
end Protovalidate.Validate
