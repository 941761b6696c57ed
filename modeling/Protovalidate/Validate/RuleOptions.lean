import Protovalidate.Validate.Presence

/-! Which options the CEL rules of a field come from: the custom expressions, in their
order, and the predefined rules of the fields that are set in its rule message. -/

namespace Protovalidate.Validate

section Options

/-- The rule message of a kind, and the member of `FieldRules` that it is. -/
def RuleType.member : RuleType → Option (RuleFieldName × RuleMessage)
  | .scalar kind rules => some (.scalar kind, rules)
  | .enum rules => some (.enum, rules.message)
  | .wellKnown kind rules => some (.wellKnown kind, rules)
  | .any rules => some (.any, rules.message)
  | .repeated rules _ => some (.repeated, rules)
  | .map rules _ _ => some (.map, rules)
  | .notSet | .unknown _ => none

/-- A rule message as it is used: as it is, or parsed again. -/
def BuildContext.Reads (context : BuildContext) (message parsed : RuleMessage) : Prop :=
  parsed = message ∨ ∃ reparse, context.reparse = some reparse ∧ reparse message = some parsed

variable (context : BuildContext) (fieldLvl : FieldRules)

/-- The option that an expression is compiled from. -/
inductive ComesFrom (rules : Option RuleMessage) : CompiledRule → Prop where
  | celExpression {index : Nat} {expression : String} (listed : fieldLvl.celExpression[index]? = some expression) :
      ComesFrom rules {
        rule := { id := expression, message := "", expression := expression }
        rulePath := some [(fieldPathElement (context.runtime.ruleField .celExpression)).setIndex index] }
  | cel {index : Nat} {rule : Rule} (listed : fieldLvl.cel[index]? = some rule) :
      ComesFrom rules {
        rule := rule
        rulePath := some [(fieldPathElement (context.runtime.ruleField .cel)).setIndex index] }
  | predefined {member : RuleFieldName} {message parsed : RuleMessage} {field : RuleField} {predefined : List Rule}
      {rule : Rule} (type : fieldLvl.type.member = some (member, message)) (reads : context.Reads message parsed)
      (held : rules = some parsed) (among : field ∈ parsed.fields) (set : field.predefined = some predefined)
      (inside : rule ∈ predefined) :
      ComesFrom rules {
        rule := rule
        rulePath := some [fieldPathElement field.info, fieldPathElement (context.runtime.ruleField member)]
        ruleField := some field }

/-- All expressions come from the options. -/
def FromOptions (cel : CelValidationRules) : Prop := ∀ expr ∈ cel.exprs, ComesFrom context fieldLvl cel.rules expr

end Options

section Building

variable {context : BuildContext} {field : FieldDescriptor} {fieldLvl : FieldRules}

/-- What every step of a fold keeps holds in the end. -/
theorem foldlM_keeps {ε σ ι : Type} {holds : σ → Prop} {step : σ → ι → Except ε σ} {elements : List ι} {state result : σ}
    (each : ∀ state, ∀ element ∈ elements, ∀ next, holds state → step state element = .ok next → holds next)
    (start : holds state) (ends : elements.foldlM step state = .ok result) : holds result := by
  induction elements generalizing state with
  | nil =>
    cases ends
    exact start
  | cons element elements ih =>
    rw [List.foldlM_cons] at ends
    obtain ⟨next, stepped, rest⟩ := bind_ok ends
    refine ih (fun state later member => each state later (List.mem_cons_of_mem _ member)) ?_ rest
    exact each state element List.mem_cons_self next start stepped

theorem FromOptions.add {cel result : CelValidationRules} {rule : Rule} {rulePath : Option FieldPath}
    {ruleField : Option RuleField} (fromOptions : FromOptions context fieldLvl cel)
    (comes : ComesFrom context fieldLvl cel.rules { rule := rule, rulePath := rulePath, ruleField := ruleField })
    (added : cel.add context.runtime rule rulePath ruleField = .ok result) :
    result.rules = cel.rules ∧ FromOptions context fieldLvl result := by
  obtain ⟨_, -, same⟩ := bind_ok added
  cases same
  refine ⟨rfl, fun expr member => ?_⟩
  rcases List.mem_append.mp member with old | new
  · exact fromOptions expr old
  · exact List.mem_singleton.mp new ▸ comes

/-- The rule message that is used is the one that was parsed, or the one it is parsed to
again. -/
theorem buildCelRules_reads {member : RuleFieldName} {message : RuleMessage} {result cel : CelValidationRules}
    (built : buildCelRules context member message result = .ok cel) :
    ∃ parsed, context.Reads message parsed ∧
      parsed.fields.foldlM (addPredefined context member) { result with rules := some parsed } = .ok cel := by
  unfold buildCelRules at built
  cases set : context.reparse with
  | none =>
    simp only [set, Option.getD_none] at built
    split at built
    · cases built
    · exact ⟨message, .inl rfl, built⟩
  | some reparse =>
    simp only [set] at built
    have reads : context.Reads message ((if message.unknownFields > 0 then reparse message else none).getD message) := by
      by_cases unknown : message.unknownFields > 0
      · rw [if_pos unknown]
        cases again : reparse message with
        | none => exact .inl rfl
        | some parsed => exact .inr ⟨reparse, set, again⟩
      · rw [if_neg unknown]
        exact .inl rfl
    generalize (if message.unknownFields > 0 then reparse message else none).getD message = parsed at built reads
    split at built
    · cases built
    · exact ⟨parsed, reads, built⟩

/-- The predefined rules of the set fields of a rule message. -/
theorem buildCelRules_fromOptions {member : RuleFieldName} {message : RuleMessage} {cel : CelValidationRules}
    (type : fieldLvl.type.member = some (member, message)) (built : buildCelRules context member message {} = .ok cel) :
    FromOptions context fieldLvl cel := by
  obtain ⟨parsed, reads, folded⟩ := buildCelRules_reads built
  let holds (cel : CelValidationRules) : Prop := cel.rules = some parsed ∧ FromOptions context fieldLvl cel
  refine (@foldlM_keeps _ _ _ holds _ _ _ _ (fun cel field among next kept stepped => ?_) ⟨rfl, ?_⟩ folded).2
  · unfold addPredefined at stepped
    cases set : field.predefined with
    | none =>
      rw [set] at stepped
      cases stepped
      exact kept
    | some predefined =>
      simp only [set] at stepped
      refine @foldlM_keeps _ _ _ holds _ _ _ _ (fun cel rule inside next kept added => ?_) kept stepped
      obtain ⟨same, fromOptions⟩ := kept.2.add (.predefined type reads kept.1 among set inside) added
      exact ⟨same.trans kept.1, fromOptions⟩
  · exact fun expr impossible => by cases impossible

/-- The custom rules come behind the others. -/
theorem addCustomRules_fromOptions {cel result : CelValidationRules} (fromOptions : FromOptions context fieldLvl cel)
    (added : addCustomRules context.runtime fieldLvl cel = .ok result) : FromOptions context fieldLvl result := by
  obtain ⟨middle, expressions, rest⟩ := bind_ok added
  refine foldlM_keeps (fun cel element listed next kept added => ?_) (foldlM_keeps (fun cel element listed next kept added => ?_)
    fromOptions expressions) rest
  · obtain ⟨rule, index⟩ := element
    exact (kept.add (.cel (List.mem_zipIdx_iff_getElem?.mp listed)) added).2
  · obtain ⟨expression, index⟩ := element
    exact (kept.add (.celExpression (List.mem_zipIdx_iff_getElem?.mp listed)) added).2

theorem fromOptions_nil : FromOptions context fieldLvl {} := fun expr impossible => by cases impossible

theorem typeCel_fromOptions {cel : CelValidationRules} (built : typeCel context field fieldLvl.type = .ok cel) :
    FromOptions context fieldLvl cel := by
  cases kind : fieldLvl.type with
  | scalar scalarKind rules =>
    rw [kind, typeCel, buildScalarFieldRules] at built
    split at built
    · cases built
    · exact buildCelRules_fromOptions (by rw [kind]; rfl) built
  | enum rules =>
    rw [kind, typeCel, buildScalarFieldRules] at built
    split at built
    · cases built
    · exact buildCelRules_fromOptions (by rw [kind]; rfl) built
  | wellKnown wellKnownKind rules =>
    rw [kind, typeCel] at built
    split at built
    · exact buildCelRules_fromOptions (by rw [kind]; rfl) built
    · cases built
  | any rules =>
    rw [kind, typeCel] at built
    split at built
    · exact buildCelRules_fromOptions (by rw [kind]; rfl) built
    · cases built
  | _ =>
    rw [kind] at built
    cases built
    exact fromOptions_nil

/-- Every CEL rule of a field comes from its options. -/
theorem newFieldRules_fromOptions {rules : FieldRuleSet} (built : newFieldRules context field fieldLvl = .ok (some rules)) :
    FromOptions context fieldLvl rules.base.toCelValidationRules := by
  obtain always | ⟨typed, typeBuilt, customBuilt⟩ := newFieldRules_built built
  · rw [newFieldRules_always always] at built
    cases built
  by_cases elementary : fieldLvl.type.isElementKind = true
  · obtain ⟨cel, found, rfl, -⟩ := newFieldRules_some elementary built
    obtain ⟨own, ownBuilt, added⟩ := bind_ok found
    rw [elementRuleSet_base]
    exact addCustomRules_fromOptions (typeCel_fromOptions ownBuilt) added
  · obtain ⟨cel, added, same⟩ := withCustomRules_built customBuilt
    cases same
    have kept : (typed.setBase { typed.base with toCelValidationRules := cel }).base.toCelValidationRules = cel := by
      cases typed <;> rfl
    rw [kept]
    refine addCustomRules_fromOptions ?_ added
    cases kind : fieldLvl.type with
    | repeated message items =>
      rw [kind] at typeBuilt
      obtain ⟨-, _, _, rfl, own, -⟩ := newTypeRules_repeated typeBuilt
      exact buildCelRules_fromOptions (by rw [kind]; rfl) own
    | map message keys values =>
      rw [kind] at typeBuilt
      obtain ⟨_, _, _, -, _, _, _, rfl, own, -⟩ := newTypeRules_map typeBuilt
      exact buildCelRules_fromOptions (by rw [kind]; rfl) own
    | unknown typeCase =>
      rw [kind] at typeBuilt
      cases typeBuilt
    | _ =>
      rw [kind] at elementary
      exact absurd rfl elementary

/-- The expressions of a message have no path. -/
theorem buildMessageRules_pathless {runtime : Runtime} {options : MessageRules} {cel : CelValidationRules}
    (built : buildMessageRules runtime options = .ok cel) : ∀ expr ∈ cel.exprs, expr.rulePath = none := by
  let holds (cel : CelValidationRules) : Prop := ∀ expr ∈ cel.exprs, expr.rulePath = none
  have add (cel : CelValidationRules) (rule : Rule) (result : CelValidationRules) (kept : holds cel)
      (added : cel.add runtime rule none none = .ok result) : holds result := by
    obtain ⟨_, -, same⟩ := bind_ok added
    cases same
    intro expr member
    rcases List.mem_append.mp member with old | new
    · exact kept expr old
    · rw [List.mem_singleton.mp new]
  obtain ⟨middle, expressions, rest⟩ := bind_ok built
  refine @foldlM_keeps _ _ _ holds _ _ _ _ (fun cel rule _ => add cel rule) ?_ rest
  refine @foldlM_keeps _ _ _ holds _ _ _ _ (fun cel expression _ => add cel _) ?_ expressions
  exact fun expr impossible => by cases impossible

end Building
end Protovalidate.Validate
