import Protovalidate.Validate.Locality

/-! The run of one rule taken apart: its own part and one part for each item or
entry, with the path that belongs to each. -/

namespace Protovalidate.Validate

open Foundation Check

variable (runtime : Runtime)

section Activations

variable {activation activation' : Activation}

/-- The bindings that a round over the entries of a map may start with. -/
def Reusable (activation : Activation) : Prop :=
  activation = Activation.empty ∨ activation = Activation.empty.insertValue "now" runtime.now

/-- What the rules see besides `rule`. -/
def celBindings (self : CelValidationRules) (this : CelValue) : Activation :=
  ((Activation.empty.insertValue "this" this).insertValue "rules" self.rulesValue).insertValue "now" runtime.now

theorem celBindings_rule (self : CelValidationRules) (this : CelValue) : celBindings runtime self this "rule" = none := by
  simp [celBindings, Activation.insertValue, Activation.empty]

theorem validateCel_eq (self : CelValidationRules) (this : CelValue) (reusable : Reusable runtime activation) :
    self.validateCel runtime (activation.insertValue "this" this) = (do
      let (status, left) ← self.celLoop runtime self.exprs (celBindings runtime self this)
      pure (status, left.removeValueEntry "rules")) := by
  have bound : ((activation.insertValue "this" this).insertValue "rules" self.rulesValue).insertValue "now" runtime.now =
      celBindings runtime self this := by
    funext name
    rcases reusable with rfl | rfl
    · rfl
    · simp only [celBindings, Activation.insertValue, Activation.empty]
      split <;> simp
  simp only [CelValidationRules.validateCel, bound]

theorem validateCel_reusable (self : CelValidationRules) (this : CelValue) (reusable : Reusable runtime activation) :
    self.validateCel runtime (activation.insertValue "this" this) =
      self.validateCel runtime (Activation.empty.insertValue "this" this) := by
  rw [validateCel_eq runtime self this reusable, validateCel_eq runtime self this (.inl rfl)]

theorem bindRule_cases (self : CelValidationRules) (expr : CompiledRule) (activation : Activation) :
    self.bindRule runtime expr activation = activation ∨
      ∃ value, self.bindRule runtime expr activation = activation.insertValue "rule" value := by
  unfold CelValidationRules.bindRule
  split
  · exact .inr ⟨_, rfl⟩
  · exact .inl rfl

theorem bindRule_removed (self : CelValidationRules) (expr : CompiledRule) (unbound : activation "rule" = none) :
    (self.bindRule runtime expr activation).removeValueEntry "rule" = activation := by
  funext name
  by_cases isRule : name = "rule"
  · subst isRule
    simp [Activation.removeValueEntry, unbound]
  · simp only [Activation.removeValueEntry, isRule, ↓reduceIte]
    rcases bindRule_cases runtime self expr activation with same | ⟨value, same⟩
    · rw [same]
    · simp [same, Activation.insertValue, isRule]

theorem alone_celLoop_cons (self : CelValidationRules) (expr : CompiledRule) (exprs : List CompiledRule)
    (unbound : activation "rule" = none) :
    alone (self.celLoop runtime (expr :: exprs) activation) =
      match (alone (processRule runtime (self.bindRule runtime expr activation) expr)).1 with
      | .error failure => ((.error failure, self.bindRule runtime expr activation),
          (alone (framed (self.ruleValueOf expr) (processRule runtime (self.bindRule runtime expr activation) expr))).2)
      | .ok () => ((alone (self.celLoop runtime exprs activation)).1,
          (alone (framed (self.ruleValueOf expr)
            (processRule runtime (self.bindRule runtime expr activation) expr))).2.extend
            (alone (self.celLoop runtime exprs activation)).2) := by
  have rounds : self.celLoop runtime (expr :: exprs) activation = (do
      let status ← framed (self.ruleValueOf expr) (processRule runtime (self.bindRule runtime expr activation) expr)
      if ← exits status then pure (status, self.bindRule runtime expr activation)
      else self.celLoop runtime exprs activation) := by
    rw [CelValidationRules.celLoop, bindRule_removed runtime self expr unbound]
  have steady (status : Status) : Steady (do
      if ← exits status then pure (status, self.bindRule runtime expr activation)
      else self.celLoop runtime exprs activation) := by
    refine SteadyAt.bind (steady_exits status) fun exit => ?_
    cases exit with
    | true => exact steady_pure _
    | false => exact celLoop_steady runtime self activation exprs
  rw [rounds, alone_bind steady, alone_framed]
  cases (alone (processRule runtime (self.bindRule runtime expr activation) expr)).1 with
  | error failure =>
    simp only [alone, bind_apply, exits]
    simp [Except.isOk, Except.toBool, pure_apply, Journal.extend]
  | ok _ => rfl

/-- A loop that succeeds leaves the bindings as they were. -/
theorem celLoop_left (self : CelValidationRules) (exprs : List CompiledRule) (unbound : activation "rule" = none)
    (succeeds : (alone (self.celLoop runtime exprs activation)).1.1 = .ok ()) :
    (alone (self.celLoop runtime exprs activation)).1.2 = activation := by
  induction exprs with
  | nil => rfl
  | cons expr exprs ih =>
    rw [alone_celLoop_cons runtime self expr exprs unbound] at succeeds ⊢
    cases status : (alone (processRule runtime (self.bindRule runtime expr activation) expr)).1 with
    | error failure =>
      rw [status] at succeeds
      cases succeeds
    | ok _ =>
      rw [status] at succeeds
      exact ih succeeds

/-- What a rule that succeeds leaves bound once `this` is removed. -/
theorem validateCel_left (self : CelValidationRules) (this : CelValue)
    (succeeds : (alone (self.validateCel runtime (Activation.empty.insertValue "this" this))).1.1 = .ok ()) :
    Reusable runtime
      ((alone (self.validateCel runtime (Activation.empty.insertValue "this" this))).1.2.removeValueEntry "this") := by
  rw [validateCel_eq runtime self this (.inl rfl)] at succeeds ⊢
  have left := celLoop_left runtime self self.exprs (celBindings_rule runtime self this) succeeds
  change Reusable runtime (((alone (self.celLoop runtime self.exprs (celBindings runtime self this))).1.2.removeValueEntry
    "rules").removeValueEntry "this")
  rw [left]
  refine .inr ?_
  funext name
  simp only [celBindings, Activation.insertValue, Activation.removeValueEntry, Activation.empty]
  split <;> split <;> simp_all

end Activations

section Entries

variable {keyInfo valueInfo : FieldInfo} {keyRules valueRules : Option FieldRuleSet} {activation activation' : Activation}

/-- Two results of which either both fail alike or both go on. -/
def Matches : Except StatusError Activation → Except StatusError Activation → Prop
  | .error failure, .error failure' => failure = failure'
  | .ok left, .ok left' => Reusable runtime left ∧ Reusable runtime left'
  | _, _ => False

/-- Checks that do the same to every journal in runs that do not fail fast. -/
def SameRun (part part' : RuleCheck (Except StatusError Activation)) : Prop := ∀ journal,
  (part false journal).2 = (part' false journal).2 ∧ Matches runtime (part false journal).1 (part' false journal).1

theorem alone_sameRun {part part' : RuleCheck (Except StatusError Activation)} (same : SameRun runtime part part') :
    (alone part).2 = (alone part').2 ∧ Matches runtime (alone part).1 (alone part').1 := same {}

theorem sameRun_pure (reusable : Reusable runtime activation) (reusable' : Reusable runtime activation') :
    SameRun runtime (pure (.ok activation)) (pure (.ok activation')) := fun _ => ⟨rfl, reusable, reusable'⟩

theorem sameRun_of_leaves {part : RuleCheck (Except StatusError Activation)}
    (leaves : ∀ journal left, (part false journal).1 = .ok left → Reusable runtime left) :
    SameRun runtime part part := by
  intro journal
  refine ⟨rfl, ?_⟩
  cases result : (part false journal).1 with
  | error failure => exact rfl
  | ok left => exact ⟨leaves journal left result, leaves journal left result⟩

theorem SameRun.bind {part part' : RuleCheck (Except StatusError Activation)}
    {next : Activation → RuleCheck (Except StatusError Activation)} (first : SameRun runtime part part')
    (second : ∀ left left', Reusable runtime left → Reusable runtime left' → SameRun runtime (next left) (next left')) :
    SameRun runtime
      (do match ← part with
        | .error failure => pure (.error failure)
        | .ok activation => next activation)
      (do match ← part' with
        | .error failure => pure (.error failure)
        | .ok activation => next activation) := by
  intro journal
  obtain ⟨same, results⟩ := first journal
  simp only [bind_apply, same]
  cases result : (part false journal).1 with
  | error failure =>
    cases result' : (part' false journal).1 with
    | error failure' =>
      rw [result, result'] at results
      exact ⟨rfl, results⟩
    | ok left' =>
      rw [result, result'] at results
      exact results.elim
  | ok left =>
    cases result' : (part' false journal).1 with
    | error failure' =>
      rw [result, result'] at results
      exact results.elim
    | ok left' =>
      rw [result, result'] at results
      exact second left left' results.1 results.2 _

theorem keyPart_sameRun (entry : Entry) (key : CelValue) (reusable : Reusable runtime activation)
    (reusable' : Reusable runtime activation') :
    SameRun runtime (MapValidationRules.keyPart runtime keyInfo keyRules entry key activation)
      (MapValidationRules.keyPart runtime keyInfo keyRules entry key activation') := by
  cases keyRules with
  | none => exact sameRun_pure runtime reusable reusable'
  | some rules =>
    by_cases skipped : rules.base.ignoreEmpty && isEmptyItem key
    · simp only [MapValidationRules.keyPart, skipped, ↓reduceIte]
      exact sameRun_pure runtime reusable reusable'
    · simp only [MapValidationRules.keyPart, skipped, Bool.false_eq_true, ↓reduceIte,
        validateCel_reusable runtime _ key reusable, validateCel_reusable runtime _ key reusable']
      refine sameRun_of_leaves runtime fun journal left succeeds => ?_
      rw [bind_apply, framedIf_result, (validateCel_steady runtime _ _).apply journal] at succeeds
      cases status : (alone (rules.base.validateCel runtime (Activation.empty.insertValue "this" key))).1.1 with
      | error failure =>
        simp only [status] at succeeds
        cases succeeds
      | ok _ =>
        simp only [status] at succeeds
        cases succeeds
        exact validateCel_left runtime _ key status

theorem valueEnd_ok (entry : Entry) (start : Nat) (done : Unit) (left : Activation) (grew failFast : Bool)
    (ctx : RuleContext) : (MapValidationRules.valueEnd valueInfo entry start (.ok done) left grew failFast ctx).1 =
      .ok (left.removeValueEntry "this") := by
  cases grew <;> rfl

theorem valuePart_sameRun (entry : Entry) (start : Nat) (reusable : Reusable runtime activation)
    (reusable' : Reusable runtime activation') :
    SameRun runtime (MapValidationRules.valuePart runtime valueInfo valueRules entry activation start)
      (MapValidationRules.valuePart runtime valueInfo valueRules entry activation' start) := by
  cases valueRules with
  | none => exact sameRun_pure runtime reusable reusable'
  | some rules =>
    by_cases skipped : rules.base.ignoreEmpty && isEmptyItem (runtime.mapValue valueInfo entry.value)
    · simp only [MapValidationRules.valuePart, skipped, ↓reduceIte]
      exact sameRun_pure runtime reusable reusable'
    · simp only [MapValidationRules.valuePart, skipped, Bool.false_eq_true, ↓reduceIte,
        validateCel_reusable runtime _ _ reusable, validateCel_reusable runtime _ _ reusable']
      refine sameRun_of_leaves runtime fun journal left succeeds => ?_
      rw [bind_apply] at succeeds
      simp only [grown, framedIf_result, (validateCel_steady runtime _ _).apply journal] at succeeds
      cases status : (alone (rules.base.validateCel runtime
          (Activation.empty.insertValue "this" (runtime.mapValue valueInfo entry.value)))).1.1 with
      | error failure =>
        simp only [status] at succeeds
        cases succeeds
      | ok _ =>
        have reused := validateCel_left runtime _ (runtime.mapValue valueInfo entry.value) status
        simp only [status, valueEnd_ok] at succeeds
        cases succeeds
        exact reused

variable (base : FieldValidationRules) (keyInfo valueInfo : FieldInfo) (keyRules valueRules : Option FieldRuleSet)

theorem entryRules_sameRun (entry : Entry) (key : CelValue) (start : Nat) (reusable : Reusable runtime activation)
    (reusable' : Reusable runtime activation') :
    SameRun runtime (MapValidationRules.entryRules runtime keyInfo valueInfo keyRules valueRules entry key activation start)
      (MapValidationRules.entryRules runtime keyInfo valueInfo keyRules valueRules entry key activation' start) :=
  (keyPart_sameRun runtime entry key reusable reusable').bind runtime fun _ _ left left' =>
    valuePart_sameRun runtime entry start left left'

/-- What is done last with a violation of an entry. -/
def entryPlaced (entry : Entry) (violation : RuleViolation) : RuleViolation :=
  violation.appendFieldPathElement (entryPathElement base.field.toFieldInfo keyInfo valueInfo entry.key)

theorem entryEnd_apply (valid : keyInfo.type.isMapKey = true) (entry : Entry) (left : Activation) (failFast : Bool)
    (ctx : RuleContext) :
    MapValidationRules.entryEnd base keyInfo valueInfo entry left 0 (decide (ctx.entries.length > 0)) failFast ctx =
      (if failFast && !ctx.entries.isEmpty then .inl (.ok ()) else .inr left,
        { ctx with entries := ctx.entries.map (entryPlaced base keyInfo valueInfo entry) }) := by
  obtain ⟨violations, events⟩ := ctx
  cases violations with
  | nil => cases failFast <;> rfl
  | cons violation violations =>
    simp only [MapValidationRules.entryEnd, setPathElementMapKey_eq valid]
    cases failFast <;> rfl

/-- The end of a round: the path element, or the error of the rules. -/
def entryEnding (entry : Entry) (failFast : Bool) :
    Except StatusError Activation × RuleContext → (Status ⊕ Activation) × RuleContext
  | (.error failure, ctx) => (.inl (.error failure), ctx)
  | (.ok left, ctx) =>
    (if failFast && !ctx.entries.isEmpty then .inl (.ok ()) else .inr left,
      { ctx with entries := ctx.entries.map (entryPlaced base keyInfo valueInfo entry) })

@[simp] theorem entryEnding_error (entry : Entry) (failFast : Bool) (failure : StatusError) (ctx : RuleContext) :
    entryEnding base keyInfo valueInfo entry failFast (.error failure, ctx) = (.inl (.error failure), ctx) := rfl

@[simp] theorem entryEnding_ok (entry : Entry) (left : Activation) (ctx : RuleContext) :
    entryEnding base keyInfo valueInfo entry false (.ok left, ctx) =
      (.inr left, { ctx with entries := ctx.entries.map (entryPlaced base keyInfo valueInfo entry) }) := rfl

/-- A round that starts without violations. -/
theorem entryRound_apply (valid : keyInfo.type.isMapKey = true) (entry : Entry) (key : CelValue)
    (activation : Activation) (failFast : Bool) (events : List Event) :
    MapValidationRules.entryRound runtime base keyInfo valueInfo keyRules valueRules entry key activation failFast
        ⟨[], events⟩ =
      entryEnding base keyInfo valueInfo entry failFast
        (MapValidationRules.entryRules runtime keyInfo valueInfo keyRules valueRules entry key activation 0 failFast
          ⟨[], events⟩) := by
  rw [MapValidationRules.entryRound]
  simp only [scope, List.length_nil]
  generalize MapValidationRules.entryRules runtime keyInfo valueInfo keyRules valueRules entry key activation 0 = part
  change (match (part failFast ⟨[], events⟩).1 with
    | .error failure => pure (.inl (.error failure))
    | .ok left => MapValidationRules.entryEnd base keyInfo valueInfo entry left 0
        (decide ((part failFast ⟨[], events⟩).2.entries.length > 0)) : RuleCheck (Status ⊕ Activation)) failFast
      (part failFast ⟨[], events⟩).2 = _
  cases part failFast ⟨[], events⟩ with
  | mk result ctx =>
    cases result with
    | error failure => rfl
    | ok left => exact entryEnd_apply base keyInfo valueInfo valid entry left failFast ctx

theorem alone_entryRound (valid : keyInfo.type.isMapKey = true) (entry : Entry) (key : CelValue)
    (activation : Activation) :
    alone (MapValidationRules.entryRound runtime base keyInfo valueInfo keyRules valueRules entry key activation) =
      entryEnding base keyInfo valueInfo entry false
        (alone (MapValidationRules.entryRules runtime keyInfo valueInfo keyRules valueRules entry key activation 0)) :=
  entryRound_apply runtime base keyInfo valueInfo keyRules valueRules valid entry key activation false []

/-- A round that starts with no bindings, as a check of its own. -/
def entryCheck (entry : Entry × CelValue) : RuleCheck Status := do
  match ← MapValidationRules.entryRound runtime base keyInfo valueInfo keyRules valueRules entry.1 entry.2
      Activation.empty with
  | .inl status => pure status
  | .inr _ => pure (.ok ())

theorem entryCheck_steady (entry : Entry × CelValue) :
    Steady (entryCheck runtime base keyInfo valueInfo keyRules valueRules entry) := by
  refine SteadyAt.bind (entryRound_steady runtime _ _ _ _ _ _ _ _) fun result => ?_
  cases result with
  | inl status => exact steady_pure _
  | inr left => exact steady_pure _

theorem alone_entryCheck (valid : keyInfo.type.isMapKey = true) (entry : Entry × CelValue) :
    alone (entryCheck runtime base keyInfo valueInfo keyRules valueRules entry) =
      match alone (MapValidationRules.entryRules runtime keyInfo valueInfo keyRules valueRules entry.1 entry.2
        Activation.empty 0) with
      | (.error failure, ctx) => (.error failure, ctx)
      | (.ok _, ctx) =>
        (.ok (), { ctx with entries := ctx.entries.map (entryPlaced base keyInfo valueInfo entry.1) }) := by
  have round := alone_entryRound runtime base keyInfo valueInfo keyRules valueRules valid entry.1 entry.2 Activation.empty
  rw [alone] at round
  rw [entryCheck, alone, bind_apply, round]
  cases alone (MapValidationRules.entryRules runtime keyInfo valueInfo keyRules valueRules entry.1 entry.2
    Activation.empty 0) with
  | mk result ctx =>
    cases result with
    | error failure => rfl
    | ok left => rfl

/-- The bindings that a round leaves do not matter to the next one. -/
theorem alone_entryLoop (valid : keyInfo.type.isMapKey = true) (entries : List (Entry × CelValue))
    (reusable : Reusable runtime activation) :
    alone (MapValidationRules.entryLoop runtime base keyInfo valueInfo keyRules valueRules entries activation) =
      alone (eachThen (entryCheck runtime base keyInfo valueInfo keyRules valueRules) entries (pure (.ok ()))) := by
  induction entries generalizing activation with
  | nil => rfl
  | cons entry entries ih =>
    obtain ⟨entry, key⟩ := entry
    have steadyRest : Steady (eachThen (entryCheck runtime base keyInfo valueInfo keyRules valueRules) entries
        (pure (.ok ()))) := Steady.eachThen (fun entry _ => entryCheck_steady runtime _ _ _ _ _ entry) (steady_pure _)
    rw [eachThen, alone_orExit, alone_orFail steadyRest, alone_entryCheck runtime _ _ _ _ _ valid]
    rw [MapValidationRules.entryLoop, alone_bind fun result => by
      cases result with
      | inl status => exact steady_pure _
      | inr left => exact entryLoop_steady runtime _ _ _ _ _ _ _]
    rw [alone_entryRound runtime _ _ _ _ _ valid]
    obtain ⟨same, results⟩ := alone_sameRun runtime
      (entryRules_sameRun runtime keyInfo valueInfo keyRules valueRules entry key 0 reusable (.inl rfl))
    generalize alone (MapValidationRules.entryRules runtime keyInfo valueInfo keyRules valueRules entry key
      activation 0) = run at same results ⊢
    generalize alone (MapValidationRules.entryRules runtime keyInfo valueInfo keyRules valueRules entry key
      Activation.empty 0) = run' at same results ⊢
    obtain ⟨result, ctx⟩ := run
    obtain ⟨result', ctx'⟩ := run'
    obtain rfl : ctx = ctx' := same
    cases result with
    | error failure =>
      cases result' with
      | error failure' =>
        cases results
        simp [alone_pure, Journal.extend_nil]
      | ok left' => exact results.elim
    | ok left =>
      cases result' with
      | error failure' => exact results.elim
      | ok left' =>
        simp only [entryEnding_ok]
        rw [ih results.1]

end Entries

section Parts

/-- A part of a rule, and the place of its violations. -/
structure RulePart where
  place : Option FieldPathElement
  check : RuleCheck Status

/-- The path of a violation of the part, as `Validate` returns it. -/
def RulePart.path (part : RulePart) : Option FieldPath := part.place.map fun element => [element]

variable (message : Message)

/-- The entries of a map: the key and value rules of each. -/
def entryParts (base : FieldValidationRules) (keyRules valueRules : Option FieldRuleSet) : List RulePart :=
  if keyRules.isNone && valueRules.isNone then []
  else
    match base.field.shape with
    | .map keyInfo valueInfo _ =>
      match runtime.listKeys keyInfo ((message.entries base.field).map Entry.key) with
      | .error failure => [{ place := none, check := pure (.error failure) }]
      | .ok keys => ((message.entries base.field).zip keys).map fun entry => {
          place := some (entryPathElement base.field.toFieldInfo keyInfo valueInfo entry.1.key)
          check := entryCheck runtime base keyInfo valueInfo keyRules valueRules entry }
    | _ => []

/-- The items of a repeated field: the item rules of each. -/
def itemParts (base : FieldValidationRules) : Option FieldRuleSet → List RulePart
  | none => []
  | some rules =>
    (RepeatedValidationRules.checked runtime base rules.base (message.elements base.field)).map fun item => {
      place := some ((fieldPathElement base.field.toFieldInfo).setIndex item.1)
      check := RepeatedValidationRules.itemRound runtime base rules.base message item }

/-- The parts of a field's rules. -/
def fieldParts (rules : FieldRuleSet) : List RulePart :=
  let place := some (fieldPathElement rules.base.field.toFieldInfo)
  match rules with
  | .field base => [{ place, check := base.validate runtime message }]
  | .enum base enumRules => [{ place, check := EnumValidationRules.validate runtime base enumRules message }]
  | .repeated base itemRules => { place, check := base.validate runtime message } :: itemParts runtime message base itemRules
  | .map base keyRules valueRules =>
    { place, check := base.validate runtime message } :: entryParts runtime message base keyRules valueRules

/-- The parts of a rule, in the order they run. -/
def ruleParts : ValidationRules → List RulePart
  | .message rules => [{ place := none, check := MessageValidationRules.validate runtime rules message }]
  | .messageOneof fields required =>
    [{ place := none, check := MessageOneofValidationRules.validate fields required message }]
  | .field rules => fieldParts runtime message rules
  | .oneof descriptor required =>
    [{ place := some (oneofPathElement descriptor), check := OneofValidationRules.validate descriptor required message }]

variable {runtime message}

theorem eachThen_map {ι κ : Type} (body : κ → RuleCheck Status) (place : ι → κ) (elements : List ι)
    (after : RuleCheck Status) :
    eachThen body (elements.map place) after = eachThen (fun element => body (place element)) elements after := by
  induction elements with
  | nil => rfl
  | cons element elements ih => rw [List.map_cons, eachThen, eachThen, ih]

theorem alone_single (check : RuleCheck Status) (place : Option FieldPathElement) :
    alone (eachThen RulePart.check [{ place, check }] (pure (.ok ()))) = alone check := by
  rw [eachThen, eachThen, alone_orExit, alone_orFail_pure]

/-- What holds of a list of keys that cannot be read, and of every entry, holds of all parts of a map. -/
theorem entryParts_forall {base : FieldValidationRules} {keyRules valueRules : Option FieldRuleSet}
    (holds : RulePart → Prop) (unread : ∀ failure, holds { place := none, check := pure (.error failure) })
    (each : ∀ keyInfo valueInfo, keyInfo.type.isMapKey = true → ∀ entry, holds {
      place := some (entryPathElement base.field.toFieldInfo keyInfo valueInfo entry.1.key)
      check := entryCheck runtime base keyInfo valueInfo keyRules valueRules entry })
    {part : RulePart} (member : part ∈ entryParts runtime message base keyRules valueRules) : holds part := by
  unfold entryParts at member
  split at member
  · cases member
  · split at member
    · rename_i keyInfo valueInfo valid _
      split at member
      · cases List.mem_singleton.mp member
        exact unread _
      · obtain ⟨entry, _, rfl⟩ := List.mem_map.mp member
        exact each keyInfo valueInfo valid entry
    · cases member

theorem entryParts_steady {base : FieldValidationRules} {keyRules valueRules : Option FieldRuleSet} {part : RulePart}
    (member : part ∈ entryParts runtime message base keyRules valueRules) : Steady part.check := by
  refine entryParts_forall (fun part => Steady part.check) ?unread ?each member
  case unread =>
    intro failure
    exact steady_pure _
  case each =>
    intro keyInfo valueInfo valid entry
    exact entryCheck_steady runtime _ _ _ _ _ entry

theorem itemParts_steady {base : FieldValidationRules} {itemRules : Option FieldRuleSet} {part : RulePart}
    (member : part ∈ itemParts runtime message base itemRules) : Steady part.check := by
  cases itemRules with
  | none => cases member
  | some rules =>
    obtain ⟨item, _, rfl⟩ := List.mem_map.mp member
    exact itemRound_steady runtime base _ message item

theorem ruleParts_steady {rules : ValidationRules} {part : RulePart} (member : part ∈ ruleParts runtime message rules) :
    Steady part.check := by
  cases rules with
  | message rules =>
    cases List.mem_singleton.mp member
    exact rulesValidate_steady runtime message (.message rules)
  | messageOneof fields required =>
    cases List.mem_singleton.mp member
    exact rulesValidate_steady runtime message (.messageOneof fields required)
  | oneof descriptor required =>
    cases List.mem_singleton.mp member
    exact rulesValidate_steady runtime message (.oneof descriptor required)
  | field rules =>
    cases rules with
    | field base =>
      cases List.mem_singleton.mp member
      exact fieldValidate_steady runtime base message
    | enum base enumRules =>
      cases List.mem_singleton.mp member
      exact enumValidate_steady runtime base message enumRules
    | repeated base itemRules =>
      rcases List.mem_cons.mp member with rfl | item
      · exact fieldValidate_steady runtime base message
      · exact itemParts_steady item
    | map base keyRules valueRules =>
      rcases List.mem_cons.mp member with rfl | entry
      · exact fieldValidate_steady runtime base message
      · exact entryParts_steady entry

theorem itemParts_validate (base : FieldValidationRules) (itemRules : Option FieldRuleSet) :
    RepeatedValidationRules.validate runtime base message itemRules =
      orExit (base.validate runtime message)
        (eachThen RulePart.check (itemParts runtime message base itemRules) (pure (.ok ()))) := by
  cases itemRules with
  | none => rfl
  | some rules => rw [itemParts, eachThen_map]; rfl

theorem entryParts_alone (base : FieldValidationRules) (keyRules valueRules : Option FieldRuleSet) :
    alone (MapValidationRules.validate runtime base keyRules valueRules message) =
      alone (orFail (base.validate runtime message)
        (eachThen RulePart.check (entryParts runtime message base keyRules valueRules) (pure (.ok ())))) := by
  have steadyParts : Steady (eachThen RulePart.check (entryParts runtime message base keyRules valueRules)
      (pure (.ok ()))) := Steady.eachThen (fun _ => entryParts_steady) (steady_pure _)
  refine alone_orFail_congr (entriesValidate_steady runtime base keyRules valueRules message) steadyParts ?_
  unfold entryParts MapValidationRules.validateEntries
  split
  · rfl
  · cases base.field.shape with
    | map keyInfo valueInfo valid =>
      simp only
      cases runtime.listKeys keyInfo ((message.entries base.field).map Entry.key) with
      | error failure => exact (alone_single _ _).symm
      | ok keys =>
        simp only [eachThen_map]
        exact alone_entryLoop runtime base keyInfo valueInfo keyRules valueRules valid _ (.inl rfl)
    | _ => rfl

/-- On its own, a rule does what its parts do one after the other. -/
theorem ruleParts_alone (rules : ValidationRules) :
    alone (rules.validate runtime message) =
      alone (eachThen RulePart.check (ruleParts runtime message rules) (pure (.ok ()))) := by
  cases rules with
  | message rules => exact (alone_single _ _).symm
  | messageOneof fields required => exact (alone_single _ _).symm
  | oneof descriptor required => exact (alone_single _ _).symm
  | field rules =>
    cases rules with
    | field base => exact (alone_single _ _).symm
    | enum base enumRules => exact (alone_single _ _).symm
    | repeated base itemRules =>
      change alone (RepeatedValidationRules.validate runtime base message itemRules) = _
      rw [itemParts_validate]
      rfl
    | map base keyRules valueRules =>
      change alone (MapValidationRules.validate runtime base keyRules valueRules message) = _
      rw [entryParts_alone, ← alone_orExit]
      rfl

end Parts
end Protovalidate.Validate
