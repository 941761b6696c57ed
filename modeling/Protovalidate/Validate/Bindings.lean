import Protovalidate.Foundation.Divergence
import Protovalidate.Validate.MapCalls
import Protovalidate.Validate.PlainRuntime

/-! Which bindings the expressions of a map's key and value rules see: those that belong
to them, unless a loop that was left early has left its value of `rule` behind. -/

namespace Protovalidate.Validate

open Foundation Check

variable (runtime : Runtime)

section Held

variable {runtime} {cel : CelValidationRules} {this : CelValue} {bound : Option CelValue} {activation : Activation}

/-- What the shared activation holds between two calls: at most `now`, and the value
that `rule` was left bound to. -/
def Held (runtime : Runtime) (bound : Option CelValue) (activation : Activation) : Prop :=
  activation.insertValue "now" runtime.now = withRule (Activation.empty.insertValue "now" runtime.now) bound

theorem held_empty : Held runtime none Activation.empty := by
  rw [Held, withRule_none]
  rfl

theorem held_bindings (held : Held runtime bound activation) :
    ((activation.insertValue "this" this).insertValue "rules" cel.rulesValue).insertValue "now" runtime.now =
      withRule (celBindings runtime cel this) bound := by
  have held (name : String) := congrFun held name
  have free : activation "this" = none ∧ activation "rules" = none :=
    ⟨by simpa [Activation.insertValue, withRule, Activation.empty] using held "this",
      by simpa [Activation.insertValue, withRule, Activation.empty] using held "rules"⟩
  funext name
  have same := held name
  simp only [Activation.insertValue, withRule, Activation.empty, celBindings] at same ⊢
  by_cases isNow : name = "now"
  · subst isNow
    simpa using same
  · by_cases isRules : name = "rules"
    · subst isRules
      simp [free.2]
    · by_cases isThis : name = "this"
      · subst isThis
        simp [free.1]
      · simpa [isNow, isRules, isThis] using same

theorem held_left (rule : Option CelValue) :
    Held runtime rule (((withRule (celBindings runtime cel this) rule).removeValueEntry "rules").removeValueEntry "this") := by
  funext name
  simp only [Activation.insertValue, Activation.removeValueEntry, withRule, Activation.empty, celBindings]
  by_cases isNow : name = "now"
  · subst isNow
    simp
  · by_cases isRules : name = "rules"
    · subst isRules
      simp
    · by_cases isThis : name = "this"
      · subst isThis
        simp
      · simp [isNow, isRules, isThis]

/-- The end of `ValidateCel`. -/
def releaseRules (run : (Status × Activation) × RuleContext) : (Status × Activation) × RuleContext :=
  ((run.1.1, run.1.2.removeValueEntry "rules"), run.2)

theorem validateCel_held (held : Held runtime bound activation) (failFast : Bool) (ctx : RuleContext) :
    cel.validateCel runtime (activation.insertValue "this" this) failFast ctx =
      releaseRules (cel.celLoop runtime cel.exprs (withRule (celBindings runtime cel this) bound) failFast ctx) := by
  rw [CelValidationRules.validateCel, held_bindings held]
  rfl

end Held

section Divergence

variable {runtime} {failFast : Bool} {ctx : RuleContext} {bound : Option CelValue} {activation : Activation}

theorem grows_celLoop (cel : CelValidationRules) (exprs : List CompiledRule) :
    Grows (cel.celLoop runtime exprs activation) :=
  celLoop_logs ⟨fun _ _ _ => trivial, trivial, fun _ _ => trivial⟩ runtime cel exprs activation

/-- The first event of a loop is the evaluation of its first expression. -/
theorem celLoop_first (failFast : Bool) (ctx : RuleContext) (bound : Option CelValue)
    (cel : CelValidationRules) (this : CelValue) (expr : CompiledRule) (exprs : List CompiledRule) :
    ∃ late, (cel.celLoop runtime (expr :: exprs) (withRule (celBindings runtime cel this) bound) failFast ctx).2.trace =
      ctx.trace ++ evaluation runtime expr
        (withRule (celBindings runtime cel this) (bound.or (ruleBinding runtime cel expr))) :: late := by
  rw [celLoop_cons]
  generalize withRule (celBindings runtime cel this) (bound.or (ruleBinding runtime cel expr)) = bindings
  obtain ⟨early, first⟩ := processRule_first runtime failFast ctx bindings expr
  have grows (status : Status) : Grows (do
      if ← exits status then pure (status, bindings)
      else cel.celLoop runtime exprs (celBindings runtime cel this) : RuleCheck (Status × Activation)) := by
    refine Logs.bind (logs_exits status) fun exit => ?_
    cases exit with
    | true => exact logs_pure _
    | false => exact grows_celLoop cel exprs
  obtain ⟨late, later, _⟩ := grows _ failFast (framed (cel.ruleValueOf expr) (processRule runtime bindings expr) failFast ctx).2
  refine ⟨early ++ late, later.trans ?_⟩
  rw [framed_apply]
  change (processRule runtime bindings expr failFast ctx).2.trace ++ late = _
  rw [first, List.append_assoc, List.cons_append]

/-- What a call of `ValidateCel` comes to. -/
structure CallEnds (runtime : Runtime) (outcome : Outcome) (ctx : RuleContext) (run : (Status × Activation) × RuleContext)
    (result : Status × Activation) : Prop where
  status : run.1.1 = result.1
  failed : run.1.1.isOk = !outcome.failed
  left : Held runtime outcome.rule (run.1.2.removeValueEntry "this")
  longer : ctx.entries.length ≤ run.2.entries.length
  grew : decide (run.2.entries.length > ctx.entries.length) = outcome.added

theorem evaluation_rule {expr : CompiledRule} {bindings : Activation} {rule rule' : Option CelValue} (different : rule ≠ rule') :
    evaluation runtime expr (withRule bindings rule) ≠ evaluation runtime expr (withRule bindings rule') := by
  intro same
  have bound := congrFun (Event.evaluated.inj same).2.1 "rule"
  exact different (by simpa [withRule] using bound)

/-- A call on the shared activation does what it does on its own activation, or what
it does first shows another value of `rule`. -/
theorem call_diverges (failFast : Bool) (ctx : RuleContext) (held : Held runtime bound activation) (call : Call) :
    Diverge (Stale runtime bound (some call))
      (CallEnds runtime (callOutcome runtime failFast (!ctx.entries.isEmpty) bound (some call)) ctx)
      (call.rules.validateCel runtime (activation.insertValue "this" call.this) failFast ctx)
      (call.rules.validateCel runtime (Activation.empty.insertValue "this" call.this) failFast ctx) := by
  obtain ⟨⟨rules, exprs⟩, this⟩ := call
  rw [validateCel_held held, validateCel_held held_empty]
  cases exprs with
  | nil => exact diverge_never rfl ⟨rfl, rfl, held_left bound, Nat.le_refl _, decide_eq_false (Nat.lt_irrefl _)⟩
  | cons expr exprs =>
    let cel : CelValidationRules := ⟨rules, expr :: exprs⟩
    by_cases own : bound.or (ruleBinding runtime cel expr) = ruleBinding runtime cel expr
    · have same : cel.celLoop runtime (expr :: exprs) (withRule (celBindings runtime cel this) bound) =
          cel.celLoop runtime (expr :: exprs) (withRule (celBindings runtime cel this) none) := by
        rw [celLoop_cons, celLoop_cons, own, Option.none_or]
      have ends := celLoop_outcome runtime cel this failFast (expr :: exprs) ctx bound fun _ _ cons => by
        cases cons
        exact own
      obtain ⟨late, kept⟩ := (celLoop_steady runtime cel
        (withRule (celBindings runtime cel this) bound) (expr :: exprs)).extends failFast ctx
      refine ⟨fun stale => (stale own).elim, fun _ => ?_, fun _ => ⟨?_, ends.status, ?_, ?_, ends.grew⟩⟩
      · rw [same]
      · rw [same]
      · rw [releaseRules, ends.left]
        exact held_left _
      · rw [releaseRules, kept, List.length_append]
        exact Nat.le_add_right _ _
    · obtain ⟨late, first⟩ := celLoop_first failFast ctx bound cel this expr exprs
      obtain ⟨late', first'⟩ := celLoop_first failFast ctx none cel this expr exprs
      refine ⟨fun _ => ?_, fun fresh => (fresh own).elim, fun fresh => (fresh own).elim⟩
      exact ⟨ctx.trace, _, _, late, late', first, first', evaluation_rule own⟩

/-- What the rules of a key, of a value or of an entry come to. -/
inductive PartEnds (runtime : Runtime) (outcome : Outcome) (ctx : RuleContext) :
    Except StatusError Activation × RuleContext → Except StatusError Activation → Prop where
  | error {failure after} (failed : outcome.failed = true) :
    PartEnds runtime outcome ctx (.error failure, after) (.error failure)
  | ok {left left' after} (passed : outcome.failed = false) (held : Held runtime outcome.rule left)
    (longer : ctx.entries.length ≤ after.entries.length)
    (grew : decide (after.entries.length > ctx.entries.length) = outcome.added) :
    PartEnds runtime outcome ctx (.ok left, after) (.ok left')

theorem partEnds_none (held : Held runtime bound activation) (left : Activation) :
    PartEnds runtime { rule := bound } ctx (.ok activation, ctx) (.ok left) :=
  .ok rfl held (Nat.le_refl _) (decide_eq_false (Nat.lt_irrefl _))

theorem callEnds_edit {outcome : Outcome} (result : Status × Activation) (before after : RuleContext)
    (result' : Status × Activation) (same : before.entries.length = after.entries.length)
    (ends : CallEnds runtime outcome ctx (result, before) result') :
    CallEnds runtime outcome ctx (result, after) result' :=
  ⟨ends.status, ends.failed, ends.left, same ▸ ends.longer, same ▸ ends.grew⟩

variable (failFast) (ctx) (keyInfo valueInfo : FieldInfo) (keyRules valueRules : Option FieldRuleSet) (entry : Entry)
  (key : CelValue)

theorem grows_keyEnd (result : Status × Activation) : Grows (keyEnd result) := by
  obtain ⟨status, left⟩ := result
  cases status with
  | error failure => exact logs_pure _
  | ok _ => exact logs_pure _

theorem grows_valueEnd (start : Nat) (status : Status) (left : Activation) (grew : Bool) :
    Grows (MapValidationRules.valueEnd valueInfo entry start status left grew) := by
  cases status with
  | error failure => exact logs_pure _
  | ok _ =>
    cases grew with
    | true => exact Logs.bind (logs_edit _ _) fun _ => logs_pure _
    | false => exact logs_pure _

theorem keyPart_diverges (held : Held runtime bound activation) :
    Diverge (Stale runtime bound (partCall keyRules key))
      (PartEnds runtime (callOutcome runtime failFast (!ctx.entries.isEmpty) bound (partCall keyRules key)) ctx)
      (MapValidationRules.keyPart runtime keyInfo keyRules entry key activation failFast ctx)
      (MapValidationRules.keyPart runtime keyInfo keyRules entry key Activation.empty failFast ctx) := by
  cases calls : partCall keyRules key with
  | none =>
    rw [keyPart_none calls, keyPart_none calls]
    exact diverge_never rfl (partEnds_none held _)
  | some call =>
    rw [keyPart_some calls, keyPart_some calls]
    have ends := (call_diverges failFast ctx held call).framedIf (fun result => result.1.isOk)
      (fun result => result.1.isOk) (MapValidationRules.keyPlaced runtime keyInfo entry)
      (fun run result ends => by rw [ends.status]) callEnds_edit
    refine (ends.bind False (fun run result ends => ?_) grows_keyEnd grows_keyEnd).of_iff (iff_of_eq (or_false _))
    obtain ⟨⟨status, left⟩, after⟩ := run
    obtain ⟨status', left'⟩ := result
    obtain rfl : status = status' := ends.status
    have failed := ends.failed
    cases status with
    | error failure => exact diverge_never rfl (.error (by simpa [Except.isOk, Except.toBool] using failed))
    | ok _ =>
      exact diverge_never rfl (.ok (by simpa [Except.isOk, Except.toBool] using failed) ends.left ends.longer ends.grew)

theorem valuePart_diverges (start : Nat) (held : Held runtime bound activation) :
    Diverge (Stale runtime bound (partCall valueRules (runtime.mapValue valueInfo entry.value)))
      (PartEnds runtime (callOutcome runtime failFast (!ctx.entries.isEmpty) bound
        (partCall valueRules (runtime.mapValue valueInfo entry.value))) ctx)
      (MapValidationRules.valuePart runtime valueInfo valueRules entry activation start failFast ctx)
      (MapValidationRules.valuePart runtime valueInfo valueRules entry Activation.empty start failFast ctx) := by
  cases calls : partCall valueRules (runtime.mapValue valueInfo entry.value) with
  | none =>
    rw [valuePart_none calls, valuePart_none calls]
    exact diverge_never rfl (partEnds_none held _)
  | some call =>
    rw [valuePart_some calls, valuePart_some calls]
    have ends := ((call_diverges failFast ctx held call).framedIf (fun result => result.1.isOk)
      (fun result => result.1.isOk) (MapValidationRules.rulePath runtime .values)
      (fun run result ends => by rw [ends.status]) callEnds_edit).grown
    refine (ends.bind False (fun run result ends => ?_) (fun _ => grows_valueEnd _ _ _ _ _ _)
      fun _ => grows_valueEnd _ _ _ _ _ _).of_iff (iff_of_eq (or_false _))
    obtain ⟨⟨⟨status, left⟩, grew⟩, after⟩ := run
    obtain ⟨⟨status', left'⟩, grew'⟩ := result
    obtain ⟨ends, sameGrew, _⟩ := ends
    obtain rfl : status = status' := ends.status
    obtain rfl : grew = grew' := sameGrew
    have failed := ends.failed
    cases status with
    | error failure => exact diverge_never rfl (.error (by simpa [Except.isOk, Except.toBool] using failed))
    | ok _ =>
      have passed : (callOutcome runtime failFast (!ctx.entries.isEmpty) bound (some call)).failed = false := by
        simpa [Except.isOk, Except.toBool] using failed
      cases grew with
      | false => exact diverge_never rfl (.ok passed ends.left ends.longer ends.grew)
      | true =>
        have edited := callEnds_edit _ _ (after.editFrom start fun violation =>
          violation.setFieldValue { message := .entry entry, descriptor := valueInfo }) _
          (Journal.editFrom_length _ _ _).symm ends
        exact diverge_never rfl (.ok passed edited.left edited.longer edited.grew)

/-- The outcome of two calls, one after the other. -/
def Outcome.andThen (first second : Outcome) : Outcome where
  failed := first.failed || second.failed
  added := first.added || second.added
  rule := second.rule

/-- Whether there are violations after a part. -/
theorem started_after {ctx after : RuleContext} {added : Bool} (longer : ctx.entries.length ≤ after.entries.length)
    (grew : decide (after.entries.length > ctx.entries.length) = added) :
    (!after.entries.isEmpty) = (!ctx.entries.isEmpty || added) := by
  subst grew
  cases before : ctx.entries with
  | nil =>
    cases late : after.entries with
    | nil => rfl
    | cons violation violations => simp
  | cons violation violations =>
    cases late : after.entries with
    | nil => simp [before, late] at longer
    | cons violation' violations' => rfl

theorem grew_after {ctx middle after : RuleContext} (longer : ctx.entries.length ≤ middle.entries.length)
    (longer' : middle.entries.length ≤ after.entries.length) :
    decide (after.entries.length > ctx.entries.length) =
      (decide (middle.entries.length > ctx.entries.length) || decide (after.entries.length > middle.entries.length)) := by
  rw [← Bool.decide_or]
  exact decide_eq_decide.mpr (by omega)

theorem grows_valuePart (start : Nat) (activation : Activation) :
    Grows (MapValidationRules.valuePart runtime valueInfo valueRules entry activation start) :=
  valuePart_logs ⟨fun _ _ _ => trivial, trivial, fun _ _ => trivial⟩ runtime valueInfo valueRules entry activation start

/-- The rules of an entry: the value's call starts with what the key's call leaves. -/
theorem entryRules_diverges (start : Nat) (held : Held runtime bound activation) (first second : Outcome)
    (isFirst : first = callOutcome runtime failFast (!ctx.entries.isEmpty) bound (partCall keyRules key))
    (isSecond : second = callOutcome runtime failFast (!ctx.entries.isEmpty || first.added) first.rule
      (partCall valueRules (runtime.mapValue valueInfo entry.value))) :
    Diverge (Stale runtime bound (partCall keyRules key) ∨
        (first.failed = false ∧ Stale runtime first.rule (partCall valueRules (runtime.mapValue valueInfo entry.value))))
      (PartEnds runtime (first.andThen second) ctx)
      (MapValidationRules.entryRules runtime keyInfo valueInfo keyRules valueRules entry key activation start failFast ctx)
      (ownRules runtime keyInfo valueInfo keyRules valueRules entry key start failFast ctx) := by
  have keyEnds := keyPart_diverges failFast ctx keyInfo keyRules entry key held
  rw [← isFirst] at keyEnds
  unfold MapValidationRules.entryRules ownRules
  refine keyEnds.bind _ (fun run result ends => ?_) (fun result => ?_) fun result => ?_
  · cases ends with
    | error failed =>
      exact (diverge_never rfl (.error (by simp [Outcome.andThen, failed]))).of_iff (by simp [failed])
    | ok passed held' longer grew =>
      rename_i left left' after
      have valueEnds := valuePart_diverges failFast after valueInfo valueRules entry start held'
      rw [started_after longer grew, ← isSecond] at valueEnds
      refine (valueEnds.of_iff (by simp [passed])).imp fun run result ends => ?_
      cases ends with
      | error failed => exact .error (by simp [Outcome.andThen, failed])
      | ok passed' held'' longer' grew' =>
        refine .ok (by simp [Outcome.andThen, passed, passed']) held'' (Nat.le_trans longer longer') ?_
        rw [grew_after longer longer', grew, grew']
        rfl
  · cases result with
    | error failure => exact logs_pure _
    | ok left => exact grows_valuePart valueInfo valueRules entry start left
  · cases result with
    | error failure => exact logs_pure _
    | ok left => exact grows_valuePart valueInfo valueRules entry start _

/-- What a round comes to: the loop is left, or the next round starts. -/
inductive RoundEnds (runtime : Runtime) (failFast : Bool) (outcome : Outcome) (ctx : RuleContext) :
    (Status ⊕ Activation) × RuleContext → Status ⊕ Activation → Prop where
  | leave {status after} (leaves : outcome.failed = true ∨ (failFast && outcome.added) = true) :
    RoundEnds runtime failFast outcome ctx (.inl status, after) (.inl status)
  | again {left left' after} (passed : outcome.failed = false) (stays : (failFast && outcome.added) = false)
    (held : Held runtime outcome.rule left)
    (started : (!after.entries.isEmpty) = (!ctx.entries.isEmpty || outcome.added)) :
    RoundEnds runtime failFast outcome ctx (.inr left, after) (.inr left')

variable (base : FieldValidationRules)

theorem entryEnd_run (valid : keyInfo.type.isMapKey = true) (left : Activation) (start : Nat) (grew : Bool) :
    MapValidationRules.entryEnd base keyInfo valueInfo entry left start grew failFast ctx =
      (if (failFast && grew) = true then .inl (.ok ()) else .inr left,
        if grew = true then ctx.editFrom start (entryPlaced base keyInfo valueInfo entry) else ctx) := by
  cases grew with
  | false => simp [MapValidationRules.entryEnd, pure_apply]
  | true =>
    simp only [MapValidationRules.entryEnd, setPathElementMapKey_eq valid]
    cases failFast <;> rfl

theorem grows_entryEnd (left : Activation) (start : Nat) (grew : Bool) :
    Grows (MapValidationRules.entryEnd base keyInfo valueInfo entry left start grew) :=
  entryEnd_logs base keyInfo valueInfo entry left start grew

theorem entryRound_diverges (valid : keyInfo.type.isMapKey = true) (held : Held runtime bound activation)
    (first second : Outcome)
    (isFirst : first = callOutcome runtime failFast (!ctx.entries.isEmpty) bound (partCall keyRules key))
    (isSecond : second = callOutcome runtime failFast (!ctx.entries.isEmpty || first.added) first.rule
      (partCall valueRules (runtime.mapValue valueInfo entry.value))) :
    Diverge (Stale runtime bound (partCall keyRules key) ∨
        (first.failed = false ∧ Stale runtime first.rule (partCall valueRules (runtime.mapValue valueInfo entry.value))))
      (RoundEnds runtime failFast (first.andThen second) ctx)
      (MapValidationRules.entryRound runtime base keyInfo valueInfo keyRules valueRules entry key activation failFast ctx)
      (ownRound runtime base keyInfo valueInfo keyRules valueRules entry key failFast ctx) := by
  have rules := (entryRules_diverges failFast ctx keyInfo valueInfo keyRules valueRules entry key ctx.entries.length held
    first second isFirst isSecond).grown
  unfold MapValidationRules.entryRound ownRound
  simp only [scope]
  refine (rules.bind False (fun run result ends => ?_) (fun result => ?_) fun result => ?_).of_iff (iff_of_eq (or_false _))
  · obtain ⟨⟨part, grew⟩, after⟩ := run
    obtain ⟨part', grew'⟩ := result
    obtain ⟨ends, sameGrew, isGrew⟩ := ends
    obtain rfl : grew = grew' := sameGrew
    cases ends with
    | error failed => exact diverge_never rfl (.leave (.inl failed))
    | ok passed held' longer added =>
      rename_i left left'
      have isAdded : grew = (first.andThen second).added := isGrew.trans added
      have started := started_after longer added
      simp only [entryEnd_run _ _ _ _ entry base valid]
      by_cases leaves : (failFast && grew) = true
      · rw [if_pos leaves, if_pos leaves]
        exact diverge_never rfl (.leave (.inr (isAdded ▸ leaves)))
      · rw [if_neg leaves, if_neg leaves]
        refine diverge_never rfl (.again passed (isAdded ▸ Bool.eq_false_iff.mpr leaves) held' ?_)
        rw [← started, apply_ite Journal.entries, apply_ite List.isEmpty, Journal.editFrom_isEmpty, ite_self]
  · obtain ⟨part, grew⟩ := result
    cases part with
    | error failure => exact logs_pure _
    | ok left => exact grows_entryEnd _ _ entry base left _ grew
  · obtain ⟨part, grew⟩ := result
    cases part with
    | error failure => exact logs_pure _
    | ok left => exact grows_entryEnd _ _ entry base left _ grew

theorem grows_loop (entries : List (Entry × CelValue)) (left : Activation) : Grows
    (MapValidationRules.entryLoop runtime base keyInfo valueInfo keyRules valueRules entries left) :=
  entryLoop_logs ⟨fun _ _ _ => trivial, trivial, fun _ _ => trivial⟩ runtime base _ _ _ _ _ _

theorem grows_own (entries : List (Entry × CelValue)) :
    Grows (ownLoop runtime base keyInfo valueInfo keyRules valueRules entries) :=
  ownLoop_own trivial base keyInfo valueInfo keyRules valueRules entries fun _ _ _ _ _ _ => trivial

/-- The loop over the entries: the shared activation does not matter as long as no call
meets a stale value. -/
theorem entryLoop_diverges (valid : keyInfo.type.isMapKey = true) (entries : List (Entry × CelValue))
    (ctx : RuleContext) (held : Held runtime bound activation) :
    Diverge (MeetsStale runtime failFast (!ctx.entries.isEmpty) bound
        (entries.map (entryCalls runtime valueInfo keyRules valueRules)))
      (fun run result => run.1 = result)
      (MapValidationRules.entryLoop runtime base keyInfo valueInfo keyRules valueRules entries activation failFast ctx)
      (ownLoop runtime base keyInfo valueInfo keyRules valueRules entries failFast ctx) := by
  induction entries generalizing activation bound ctx with
  | nil => exact diverge_never rfl rfl
  | cons entry entries ih =>
    obtain ⟨entry, key⟩ := entry
    have round := entryRound_diverges failFast ctx keyInfo valueInfo keyRules valueRules entry key base valid held _ _
      rfl rfl
    unfold MapValidationRules.entryLoop ownLoop
    rw [List.map_cons, entryCalls, MeetsStale]
    generalize isFirst : callOutcome runtime failFast (!ctx.entries.isEmpty) bound (partCall keyRules key) = first
      at round ⊢
    generalize isSecond : callOutcome runtime failFast (!ctx.entries.isEmpty || first.added) first.rule
      (partCall valueRules (runtime.mapValue valueInfo entry.value)) = second at round ⊢
    simp only
    refine (round.bind ((first.andThen second).failed = false ∧ (failFast && (first.andThen second).added) = false ∧
      MeetsStale runtime failFast (!ctx.entries.isEmpty || (first.andThen second).added) second.rule
        (entries.map (entryCalls runtime valueInfo keyRules valueRules))) (fun run result ends => ?_) (fun result => ?_)
      fun result => ?_).of_iff ?_
    · cases ends with
      | leave leaves =>
        refine (diverge_never rfl rfl).of_iff ⟨fun impossible => impossible.elim, ?_⟩
        rintro ⟨passed, stays, _⟩
        rw [passed, stays] at leaves
        simp at leaves
      | again passed stays held' started =>
        rw [← started]
        exact (ih _ held').of_iff ⟨fun meets => ⟨passed, stays, meets⟩, fun all => all.2.2⟩
    · cases result with
      | inl status => exact logs_pure _
      | inr left => exact grows_loop _ _ _ _ base entries left
    · cases result with
      | inl status => exact logs_pure _
      | inr left => exact grows_own _ _ _ _ base entries
    · simp only [Outcome.andThen, Bool.or_eq_false_iff, Bool.or_assoc]
      grind

end Divergence

section Exits

variable (cel : CelValidationRules) (failFast started : Bool) (bindings : Activation)

/-- The loop of `ValidateCel` goes on behind an expression, unless it fails or a run that
fails fast has a violation by then. -/
def StaysInLoop (expr : CompiledRule) : Prop :=
  match verdict (runtime.evaluate expr.rule.expression (cel.bindRule runtime expr bindings)) with
  | .holds => (failFast && started) = false
  | .violated => failFast = false
  | .fails => False

/-- The loop is left early, at an expression that has a rule field. -/
def LeftAtRule (exprs : List CompiledRule) : Prop :=
  ∃ front expr back, exprs = front ++ expr :: back ∧
    (∀ earlier ∈ front, StaysInLoop runtime cel failFast started bindings earlier) ∧
    ¬StaysInLoop runtime cel failFast started bindings expr ∧ cel.rules ≠ none ∧ expr.ruleField ≠ none

variable {runtime} {cel} {failFast} {started} {bindings} {expr : CompiledRule} {exprs : List CompiledRule}

theorem leftAtRule_nil : ¬LeftAtRule runtime cel failFast started bindings [] := by
  rintro ⟨front, expr, back, split, -⟩
  cases front <;> cases split

theorem leftAtRule_on (on : StaysInLoop runtime cel failFast started bindings expr) :
    LeftAtRule runtime cel failFast started bindings (expr :: exprs) ↔
      LeftAtRule runtime cel failFast started bindings exprs := by
  constructor
  · rintro ⟨front, other, back, split, goesOn, leaves, owns⟩
    cases front with
    | nil =>
      cases split
      exact absurd on leaves
    | cons first front =>
      cases split
      exact ⟨front, other, back, rfl, fun earlier member => goesOn earlier (List.mem_cons_of_mem _ member), leaves, owns⟩
  · rintro ⟨front, other, back, rfl, goesOn, leaves, owns⟩
    exact ⟨expr :: front, other, back, rfl, List.forall_mem_cons.mpr ⟨on, goesOn⟩, leaves, owns⟩

theorem leftAtRule_here (leaves : ¬StaysInLoop runtime cel failFast started bindings expr) :
    LeftAtRule runtime cel failFast started bindings (expr :: exprs) ↔ cel.rules ≠ none ∧ expr.ruleField ≠ none := by
  constructor
  · rintro ⟨front, other, back, split, goesOn, -, owns⟩
    cases front with
    | nil =>
      cases split
      exact owns
    | cons first front =>
      cases split
      exact absurd (goesOn expr List.mem_cons_self) leaves
  · intro owns
    exact ⟨[], expr, exprs, rfl, List.forall_mem_nil _, leaves, owns⟩

theorem staysInLoop_started (stays : StaysInLoop runtime cel true started bindings expr) : started = false := by
  unfold StaysInLoop at stays
  split at stays
  · exact stays
  · cases stays
  · exact stays.elim

theorem bindRule_rule (free : bindings "rule" = none) :
    cel.bindRule runtime expr bindings "rule" = none ↔ ¬(cel.rules ≠ none ∧ expr.ruleField ≠ none) := by
  unfold CelValidationRules.bindRule
  cases cel.rules with
  | none => simp [free]
  | some rules =>
    cases expr.ruleField with
    | none => simp [free]
    | some field => simp [Activation.insertValue, free]

variable (runtime) (cel) (failFast) (bindings) (expr) (exprs) (ctx : RuleContext)

/-- The first round of a loop. -/
def firstRound : Status × RuleContext :=
  framed (cel.ruleValueOf expr) (processRule runtime (cel.bindRule runtime expr bindings) expr) failFast ctx

theorem celLoop_round (free : bindings "rule" = none) :
    cel.celLoop runtime (expr :: exprs) bindings failFast ctx =
      if (!(firstRound runtime cel failFast bindings expr ctx).1.isOk ||
          (failFast && !(firstRound runtime cel failFast bindings expr ctx).2.entries.isEmpty)) = true then
        (((firstRound runtime cel failFast bindings expr ctx).1, cel.bindRule runtime expr bindings),
          (firstRound runtime cel failFast bindings expr ctx).2)
      else cel.celLoop runtime exprs bindings failFast (firstRound runtime cel failFast bindings expr ctx).2 := by
  rw [CelValidationRules.celLoop, bindRule_removed runtime cel expr free]
  exact exits_apply _ _ _ _ _

theorem staysInLoop_iff : StaysInLoop runtime cel failFast (!ctx.entries.isEmpty) bindings expr ↔
    (!(firstRound runtime cel failFast bindings expr ctx).1.isOk ||
      (failFast && !(firstRound runtime cel failFast bindings expr ctx).2.entries.isEmpty)) = false := by
  rw [StaysInLoop, firstRound, framed_apply]
  cases kind : verdict (runtime.evaluate expr.rule.expression (cel.bindRule runtime expr bindings)) with
  | holds =>
    rw [processRule_holds runtime failFast ctx kind]
    simp [Journal.editFrom, Except.isOk, Except.toBool]
  | violated =>
    obtain ⟨violation, run⟩ := processRule_violated runtime failFast ctx kind
    rw [run]
    simp [Journal.editFrom, Except.isOk, Except.toBool]
  | fails =>
    obtain ⟨failure, run⟩ := processRule_fails runtime failFast ctx kind
    rw [run]
    simp [Except.isOk, Except.toBool]

variable {runtime} {cel} {failFast} {bindings}

/-- What the loop leaves of a free name `rule`. -/
theorem celLoop_exit (free : bindings "rule" = none) :
    (cel.celLoop runtime exprs bindings failFast ctx).1.2 "rule" = none ↔
      ¬LeftAtRule runtime cel failFast (!ctx.entries.isEmpty) bindings exprs := by
  induction exprs generalizing ctx with
  | nil => exact iff_of_true free leftAtRule_nil
  | cons expr exprs ih =>
    rw [celLoop_round runtime cel failFast bindings expr exprs ctx free]
    by_cases stays : StaysInLoop runtime cel failFast (!ctx.entries.isEmpty) bindings expr
    · have inside := (staysInLoop_iff runtime cel failFast bindings expr ctx).mp stays
      rw [if_neg (ne_true_of_eq_false inside), ih, leftAtRule_on stays]
      cases failFast with
      | false => exact Iff.rfl
      | true =>
        have unviolated : (!(firstRound runtime cel true bindings expr ctx).2.entries.isEmpty) = false :=
          (Bool.or_eq_false_iff.mp inside).2
        rw [unviolated, staysInLoop_started stays]
    · have outside := mt (staysInLoop_iff runtime cel failFast bindings expr ctx).mpr stays
      rw [if_pos (Bool.not_eq_false _ ▸ outside), leftAtRule_here stays]
      exact bindRule_rule free

/-- A call of `ValidateCel` unbinds `rules`, and leaves a free name `rule` unbound unless
its loop is left at an expression that has a rule field. -/
theorem validateCel_exit {activation : Activation} (free : activation "rule" = none) :
    (cel.validateCel runtime activation failFast ctx).1.2 "rules" = none ∧
      ((cel.validateCel runtime activation failFast ctx).1.2 "rule" = none ↔
        ¬LeftAtRule runtime cel failFast (!ctx.entries.isEmpty)
          ((activation.insertValue "rules" cel.rulesValue).insertValue "now" runtime.now) cel.exprs) := by
  have stillFree : ((activation.insertValue "rules" cel.rulesValue).insertValue "now" runtime.now) "rule" = none := by
    simp [Activation.insertValue, free]
  have ends : cel.validateCel runtime activation failFast ctx = releaseRules (cel.celLoop runtime cel.exprs
      ((activation.insertValue "rules" cel.rulesValue).insertValue "now" runtime.now) failFast ctx) := rfl
  rw [ends, ← celLoop_exit cel.exprs ctx stillFree]
  exact ⟨by simp [releaseRules, Activation.removeValueEntry], by simp [releaseRules, Activation.removeValueEntry]⟩

end Exits

section Result

variable (base : FieldValidationRules) (keyRules valueRules : Option FieldRuleSet) (message : Message)

theorem mapEntries_diverge (failFast : Bool) (ctx : RuleContext) :
    Diverge (MeetsStale runtime failFast (!ctx.entries.isEmpty) none (mapCalls runtime base keyRules valueRules message))
      (fun run result => run.1 = result)
      (MapValidationRules.validateEntries runtime base keyRules valueRules message failFast ctx)
      (ownEntries runtime base keyRules valueRules message failFast ctx) := by
  unfold MapValidationRules.validateEntries ownEntries mapCalls
  split
  · exact diverge_never rfl rfl
  · cases base.field.shape with
    | map keyInfo valueInfo valid =>
      simp only
      cases runtime.listKeys keyInfo ((message.entries base.field).map Entry.key) with
      | error failure => exact diverge_never rfl rfl
      | ok keys => exact entryLoop_diverges failFast _ _ _ _ base valid _ ctx held_empty
    | _ => exact diverge_never rfl rfl

/-- A call that starts with `rule` unbound leaves its loop at an expression that has a
rule field. -/
def LeavesRule (failFast started : Bool) : Option Call → Prop
  | none => False
  | some call =>
    LeftAtRule runtime call.rules failFast started (celBindings runtime call.rules call.this) call.rules.exprs

/-- Such a call is reached, and all calls before it have left `rule` unbound. -/
def MeetsLeaving (failFast : Bool) : Bool → List (Option Call × Option Call) → Prop
  | _, [] => False
  | started, (key, value) :: rest =>
    let afterKey := callOutcome runtime failFast started none key
    let afterValue := callOutcome runtime failFast (started || afterKey.added) none value
    LeavesRule runtime failFast started key ∨ (afterKey.failed = false ∧
      (LeavesRule runtime failFast (started || afterKey.added) value ∨
        (afterValue.failed = false ∧ (failFast && (afterKey.added || afterValue.added)) = false ∧
          MeetsLeaving failFast (started || afterKey.added || afterValue.added) rest)))

theorem callOutcome_exit (failFast started : Bool) (call : Option Call) :
    (callOutcome runtime failFast started none call).rule = none ↔ ¬LeavesRule runtime failFast started call := by
  cases call with
  | none => exact iff_of_true rfl id
  | some call =>
    -- any violation does for a run that starts with one
    obtain ⟨ctx, rfl⟩ : ∃ ctx : RuleContext, (!ctx.entries.isEmpty) = started := by
      cases started with
      | false => exact ⟨{}, rfl⟩
      | true => exact ⟨{ entries := [⟨{ ruleId := "", message := "" }, none, none⟩] }, rfl⟩
    have free := celBindings_rule runtime call.rules call.this
    have ends := celLoop_outcome runtime call.rules call.this failFast call.rules.exprs ctx none fun _ _ _ => Option.none_or
    rw [LeavesRule, callOutcome, ← celLoop_exit call.rules.exprs ctx free, ← withRule_none free, ends.left]
    simp [withRule]

theorem stale_unbound (call : Option Call) : ¬Stale runtime none call := by
  intro stale
  cases call with
  | none => exact stale
  | some call =>
    obtain ⟨⟨rules, exprs⟩, this⟩ := call
    cases exprs with
    | nil => exact stale
    | cons expr exprs => exact stale Option.none_or

/-- A call is stale only behind one that has left its loop at an expression with a rule
field. -/
theorem meetsStale_leaving {failFast : Bool} (started : Bool) (calls : List (Option Call × Option Call))
    (meets : MeetsStale runtime failFast started none calls) : MeetsLeaving runtime failFast started calls := by
  induction calls generalizing started with
  | nil => exact meets
  | cons pair calls ih =>
    obtain ⟨key, value⟩ := pair
    rw [MeetsStale] at meets
    rw [MeetsLeaving]
    rcases meets with early | ⟨passed, later⟩
    · exact absurd early (stale_unbound runtime key)
    · by_cases keyLeaves : LeavesRule runtime failFast started key
      · exact Or.inl keyLeaves
      rw [(callOutcome_exit runtime failFast started key).mpr keyLeaves] at later
      refine Or.inr ⟨passed, ?_⟩
      rcases later with late | ⟨passed', stays, later⟩
      · exact absurd late (stale_unbound runtime value)
      · refine Classical.or_iff_not_imp_left.mpr fun valueLeaves => ⟨passed', stays, ih _ ?_⟩
        rwa [(callOutcome_exit runtime failFast _ value).mpr valueLeaves] at later

/-- On the shared activation every expression sees its own bindings, as in the run that
has an activation for each call, if and only if no call is reached with a stale value of
`rule`. A call of `ValidateCel` always unbinds `rules`, and leaves a free name `rule`
unbound if and only if its loop is not left at an expression that has a rule field.
A stale call is reached only where a call before it has left its loop so. -/
theorem mapBindings_own_iff (failFast : Bool) (ctx : RuleContext) :
    ((MapValidationRules.validateEntries runtime base keyRules valueRules message failFast ctx).2.trace =
        (ownEntries runtime base keyRules valueRules message failFast ctx).2.trace ↔
      ¬MeetsStale runtime failFast (!ctx.entries.isEmpty) none (mapCalls runtime base keyRules valueRules message)) ∧
    Logs (OwnEvent runtime (mapCalls runtime base keyRules valueRules message))
      (ownEntries runtime base keyRules valueRules message) ∧
    (∀ (cel : CelValidationRules) (activation : Activation), activation "rule" = none →
      (cel.validateCel runtime activation failFast ctx).1.2 "rules" = none ∧
      ((cel.validateCel runtime activation failFast ctx).1.2 "rule" = none ↔
        ¬LeftAtRule runtime cel failFast (!ctx.entries.isEmpty)
          ((activation.insertValue "rules" cel.rulesValue).insertValue "now" runtime.now) cel.exprs)) ∧
    (MeetsStale runtime failFast (!ctx.entries.isEmpty) none (mapCalls runtime base keyRules valueRules message) →
      MeetsLeaving runtime failFast (!ctx.entries.isEmpty) (mapCalls runtime base keyRules valueRules message)) := by
  have runs := mapEntries_diverge runtime base keyRules valueRules message failFast ctx
  refine ⟨⟨fun same stale => (runs.parts stale).ne same, fun fresh => by rw [runs.same fresh]⟩, ?_, ?_, ?_⟩
  · exact ownEntries_own runtime base keyRules valueRules message
  · exact fun cel activation free => validateCel_exit ctx free
  · exact meetsStale_leaving runtime (!ctx.entries.isEmpty) _

/-- A run that does not fail fast leaves a loop early only when it fails. -/
theorem outcome_full (cel : CelValidationRules) (this : CelValue) (started : Bool) (exprs : List CompiledRule)
    (passed : (outcome runtime cel this false started none exprs).failed = false) :
    (outcome runtime cel this false started none exprs).rule = none := by
  induction exprs generalizing started with
  | nil => rfl
  | cons expr exprs ih =>
    rw [outcome] at passed ⊢
    cases kind : verdict (runtime.evaluate expr.rule.expression (ownBindings runtime cel this expr)) with
    | holds =>
      rw [kind] at passed
      exact ih started passed
    | violated =>
      rw [kind] at passed
      exact ih true passed
    | fails =>
      rw [kind] at passed
      cases passed

theorem callOutcome_full (started : Bool) (call : Option Call)
    (passed : (callOutcome runtime false started none call).failed = false) :
    (callOutcome runtime false started none call).rule = none := by
  cases call with
  | none => rfl
  | some call => exact outcome_full runtime call.rules call.this started call.rules.exprs passed

/-- Only runs that fail fast meet stale values. -/
theorem meetsStale_full (started : Bool) (calls : List (Option Call × Option Call)) :
    ¬MeetsStale runtime false started none calls := by
  induction calls generalizing started with
  | nil => exact fun impossible => impossible
  | cons pair calls ih =>
    rintro (early | ⟨passed, late | ⟨passed', _, later⟩⟩)
    · exact stale_unbound runtime _ early
    · rw [callOutcome_full runtime _ _ passed] at late
      exact stale_unbound runtime _ late
    · rw [callOutcome_full runtime _ _ passed] at passed' later
      rw [callOutcome_full runtime _ _ passed'] at later
      exact ih _ later

end Result

section Sample

def intInfo (number : Nat) (name : String) : FieldInfo where
  number := number
  name := name
  fullName := "Prices.PricesEntry." ++ name
  type := .int32

/-- A map from numbers to numbers. -/
def pricesField : FieldDescriptor where
  number := 1
  name := "prices"
  fullName := "Prices.prices"
  type := .message
  shape := .map (intInfo 1 "key") (intInfo 2 "value") rfl

/-- The rules of a number with one rule, `this >= rule`. -/
def atLeast (field : FieldDescriptor) (least : Int) : FieldRuleSet := .field {
  rules := some { typeName := "Int32Rules" }
  exprs := [{ rule := { id := "at_least", expression := "this >= rule" }
              ruleField := some { info := intInfo 1 "at_least", value := .scalar (.int least) } }]
  fieldRules := .default
  field := field
  mapEntryField := true
  ignoreEmpty := false
  required := false }

def evaluateAtLeast (_ : String) (activation : Activation) : Except StatusError CelValue :=
  match activation "this", activation "rule" with
  | some (.int this), some (.int rule) => .ok (.bool (decide (rule ≤ this)))
  | _, _ => .error ⟨.invalidArgument, "no such overload"⟩

/-- A key that is too small with a value that is not. -/
def prices : Message :=
  ⟨{ fullName := "Prices", fields := [pricesField] }, [⟨pricesField, .map [⟨.int 2, .scalar (.int 1)⟩]⟩]⟩

def pricesTrace : List Event :=
  (MapValidationRules.validateEntries (plainRuntime evaluateAtLeast) (.new pricesField .default)
    (some (atLeast (.ofEntry (intInfo 1 "key")) 3)) (some (atLeast (.ofEntry (intInfo 2 "value")) 1)) prices true {}).2.trace

/-- In a run that fails fast the value is held against the rule of its key. -/
theorem rule_leftBehind : ¬∀ event ∈ pricesTrace, OwnEvent (plainRuntime evaluateAtLeast)
    (mapCalls (plainRuntime evaluateAtLeast) (.new pricesField .default)
      (some (atLeast (.ofEntry (intInfo 1 "key")) 3)) (some (atLeast (.ofEntry (intInfo 2 "value")) 1)) prices) event := by
  intro own
  obtain ⟨pair, among, call, calls, expr, member, -, this, -, rule⟩ := own _
    (List.mem_cons_of_mem _ (List.mem_cons_of_mem _ (List.mem_cons_self ..)))
  cases List.mem_singleton.mp among
  rcases calls with isKey | isValue
  · cases isKey
    cases this
  · cases isValue
    cases List.mem_singleton.mp member
    cases rule

end Sample
end Protovalidate.Validate
