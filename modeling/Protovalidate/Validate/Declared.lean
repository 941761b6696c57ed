import Protovalidate.Validate.RuleOptions

/-! The expressions that options declare, as one list, and the options that are well
formed: those are the ones that `NewMessageRules` accepts. -/

namespace Protovalidate.Validate

section Expressions

/-- `Add` for one expression after the other. -/
def addEach (runtime : Runtime) (cel : CelValidationRules) (exprs : List CompiledRule) :
    Except StatusError CelValidationRules :=
  exprs.foldlM (fun cel expr => cel.add runtime expr.rule expr.rulePath expr.ruleField) cel

def Compilable (runtime : Runtime) (exprs : List CompiledRule) : Prop :=
  ∀ expr ∈ exprs, runtime.compile expr.rule.expression = .ok ()

/-- A rule message as it is used: one with unknown fields is parsed again, if it can be. -/
def BuildContext.read (context : BuildContext) (message : RuleMessage) : RuleMessage :=
  match context.reparse with
  | some reparse => if message.unknownFields > 0 then (reparse message).getD message else message
  | none => message

variable (runtime : Runtime)

/-- The predefined rules of the set fields of a rule message. -/
def predefinedRules (member : RuleFieldName) (message : RuleMessage) : List CompiledRule :=
  message.fields.flatMap fun field => (field.predefined.getD []).map fun rule => {
    rule := rule
    rulePath := some [fieldPathElement field.info, fieldPathElement (runtime.ruleField member)]
    ruleField := some field }

/-- The rule of a bare expression. -/
def bareRule (expression : String) : Rule := { id := expression, message := "", expression := expression }

/-- The custom rules of a field, the bare expressions first. -/
def customRules (fieldLvl : FieldRules) : List CompiledRule :=
  (fieldLvl.celExpression.zipIdx.map fun element => {
    rule := bareRule element.1
    rulePath := some [(fieldPathElement (runtime.ruleField .celExpression)).setIndex element.2] }) ++
  fieldLvl.cel.zipIdx.map fun element => {
    rule := element.1
    rulePath := some [(fieldPathElement (runtime.ruleField .cel)).setIndex element.2] }

/-- The rules of a message, which have no path. -/
def messageLevelRules (options : MessageRules) : List CompiledRule :=
  (options.celExpression.map fun expression => { rule := bareRule expression }) ++
    options.cel.map fun rule => { rule := rule }

/-- All that the options of a field declare: its rule message, if it has one, and its
expressions, the predefined ones first. -/
def declared (context : BuildContext) (fieldLvl : FieldRules) : CelValidationRules :=
  match fieldLvl.type.member with
  | some (member, message) => {
      rules := some (context.read message)
      exprs := predefinedRules context.runtime member (context.read message) ++ customRules context.runtime fieldLvl }
  | none => { exprs := customRules context.runtime fieldLvl }

variable {runtime} {context : BuildContext} {cel : CelValidationRules}

theorem add_ok {rule : Rule} {rulePath : Option FieldPath} {ruleField : Option RuleField} {result : CelValidationRules} :
    cel.add runtime rule rulePath ruleField = .ok result ↔ runtime.compile rule.expression = .ok () ∧
      result = { cel with exprs := cel.exprs ++ [{ rule := rule, rulePath := rulePath, ruleField := ruleField }] } := by
  constructor
  · intro added
    obtain ⟨_, compiles, same⟩ := bind_ok added
    exact ⟨compiles, (Except.ok.inj same).symm⟩
  · rintro ⟨compiles, rfl⟩
    rw [CelValidationRules.add, compiles]
    rfl

theorem addEach_append (front back : List CompiledRule) :
    addEach runtime cel (front ++ back) = addEach runtime cel front >>= fun cel => addEach runtime cel back :=
  List.foldlM_append

theorem addEach_map {ι : Type} (each : ι → CompiledRule) (elements : List ι) (cel : CelValidationRules) :
    addEach runtime cel (elements.map each) = elements.foldlM (fun cel element =>
      cel.add runtime (each element).rule (each element).rulePath (each element).ruleField) cel :=
  List.foldlM_map

/-- Expressions are added in their order, if all of them compile. -/
theorem addEach_ok {exprs : List CompiledRule} {result : CelValidationRules} :
    addEach runtime cel exprs = .ok result ↔
      Compilable runtime exprs ∧ result = { cel with exprs := cel.exprs ++ exprs } := by
  induction exprs generalizing cel with
  | nil => simp [addEach, Compilable, pure, Except.pure, eq_comm]
  | cons expr exprs ih =>
    have step : addEach runtime cel (expr :: exprs) =
        cel.add runtime expr.rule expr.rulePath expr.ruleField >>= fun cel => addEach runtime cel exprs :=
      List.foldlM_cons
    rw [step, Compilable, List.forall_mem_cons, ← Compilable]
    constructor
    · intro succeeds
      obtain ⟨middle, added, rest⟩ := bind_ok succeeds
      obtain ⟨compiles, rfl⟩ := add_ok.mp added
      obtain ⟨others, rfl⟩ := ih.mp rest
      exact ⟨⟨compiles, others⟩, by rw [List.append_assoc, List.singleton_append]⟩
    · rintro ⟨⟨compiles, others⟩, rfl⟩
      rw [add_ok.mpr ⟨compiles, rfl⟩]
      refine ih.mpr ⟨others, ?_⟩
      rw [List.append_assoc, List.singleton_append]

theorem addPredefined_eq (member : RuleFieldName) (cel : CelValidationRules) (field : RuleField) :
    addPredefined context member cel field = addEach context.runtime cel ((field.predefined.getD []).map fun rule => {
      rule := rule
      rulePath := some [fieldPathElement field.info, fieldPathElement (context.runtime.ruleField member)]
      ruleField := some field }) := by
  unfold addPredefined
  cases field.predefined with
  | none => rfl
  | some rules => rw [Option.getD_some, addEach_map]

theorem addPredefined_all (member : RuleFieldName) (cel : CelValidationRules) (message : RuleMessage) :
    message.fields.foldlM (addPredefined context member) cel =
      addEach context.runtime cel (predefinedRules context.runtime member message) := by
  unfold predefinedRules
  induction message.fields generalizing cel with
  | nil => rfl
  | cons field fields ih =>
    rw [List.foldlM_cons, List.flatMap_cons, addEach_append, addPredefined_eq]
    exact congrArg _ (funext ih)

theorem addCustomRules_eq (fieldLvl : FieldRules) (cel : CelValidationRules) :
    addCustomRules runtime fieldLvl cel = addEach runtime cel (customRules runtime fieldLvl) := by
  rw [customRules, addEach_append, addEach_map]
  simp only [addEach_map]
  rfl

theorem buildMessageRules_eq (options : MessageRules) :
    buildMessageRules runtime options = addEach runtime {} (messageLevelRules options) := by
  rw [messageLevelRules, addEach_append, addEach_map]
  simp only [addEach_map]
  rfl

/-- A rule message that has no rules which are not known, unless that is allowed, and
whose predefined rules compile. -/
structure BuildContext.Admits (context : BuildContext) (member : RuleFieldName) (message : RuleMessage) : Prop where
  known : context.allowUnknownFields = true ∨ (context.read message).unknownFields = 0
  compiles : Compilable context.runtime (predefinedRules context.runtime member (context.read message))

theorem buildCelRules_eq (member : RuleFieldName) (message : RuleMessage) :
    buildCelRules context member message cel =
      if !context.allowUnknownFields && (context.read message).unknownFields > 0 then
        .error ⟨.failedPrecondition, "unknown rules in " ++ (context.read message).typeName⟩
      else addEach context.runtime { cel with rules := some (context.read message) }
        (predefinedRules context.runtime member (context.read message)) := by
  simp only [← addPredefined_all]
  unfold buildCelRules BuildContext.read
  cases context.reparse with
  | none => rfl
  | some reparse => by_cases unknown : message.unknownFields > 0 <;> simp only [unknown, ↓reduceIte, Option.getD_none]

theorem buildCelRules_ok {member : RuleFieldName} {message : RuleMessage} {result : CelValidationRules} :
    buildCelRules context member message {} = .ok result ↔ context.Admits member message ∧
      result = { rules := some (context.read message)
                 exprs := predefinedRules context.runtime member (context.read message) } := by
  rw [buildCelRules_eq]
  by_cases known : context.allowUnknownFields = true ∨ (context.read message).unknownFields = 0
  · have accepted : ¬(!context.allowUnknownFields && decide ((context.read message).unknownFields > 0)) = true := by
      rcases known with allowed | none
      · simp [allowed]
      · simp [none]
    rw [if_neg accepted, addEach_ok]
    exact and_congr ⟨fun compiles => ⟨known, compiles⟩, fun admits => admits.compiles⟩ (by rw [List.nil_append])
  · have refused : (!context.allowUnknownFields && decide ((context.read message).unknownFields > 0)) = true := by
      simpa [Nat.pos_iff_ne_zero] using known
    rw [if_pos refused]
    exact iff_of_false (fun impossible => by cases impossible) fun accepted => known accepted.1.known

end Expressions

section Options

mutual

/-- Options that rules can be built from. What is ignored always is not looked at. -/
def FieldRules.WellFormed (context : BuildContext) (field : FieldDescriptor) : FieldRules → Prop
  | .mk ignore required cel celExpression type =>
    ignore = some .always ∨ type.WellFormed context field ∧
      Compilable context.runtime (customRules context.runtime (.mk ignore required cel celExpression type))

/-- Rules that can be built, of a kind that fits the field. The kinds for a single value
are held against the type of the field, not against its label. -/
def RuleType.WellFormed (context : BuildContext) (field : FieldDescriptor) : RuleType → Prop
  | .notSet => True
  | .scalar kind rules =>
    IsOrWraps field.toFieldInfo kind.expectedType kind.wrapperName ∧ context.Admits (.scalar kind) rules
  | .enum rules => IsOrWraps field.toFieldInfo .enum "" ∧ context.Admits .enum rules.message
  | .wellKnown kind rules => isMessageOf field kind.fullName = true ∧ context.Admits (.wellKnown kind) rules
  | .any rules => isMessageOf field "google.protobuf.Any" = true ∧ context.Admits .any rules.message
  | .repeated rules items =>
    field.shape = .repeated ∧ context.Admits .repeated rules ∧
      match items with
      | some items => items.WellFormed context field
      | none => True
  | .map rules keys values =>
    match field.shape with
    | .map keyInfo valueInfo _ =>
      context.Admits .map rules ∧
        (match keys with
        | some keys => keys.WellFormed context (.ofEntry keyInfo)
        | none => True) ∧
        match values with
        | some values => values.WellFormed context (.ofEntry valueInfo)
        | none => True
    | _ => False
  | .unknown _ => False

end

/-- A result that is no error. -/
def Builds {ε β : Type} (result : Except ε β) : Prop := ∃ value, result = .ok value

variable {context : BuildContext} {ε β γ ι : Type}

theorem builds_ok (value : β) : Builds (.ok value : Except ε β) := ⟨value, rfl⟩

theorem not_builds_error (failure : ε) : ¬Builds (.error failure : Except ε β) := by
  rintro ⟨value, impossible⟩
  cases impossible

/-- Where it does not depend on the first result whether the second part succeeds. -/
theorem builds_bind {first : Except ε β} {next : β → Except ε γ} {rest : Prop}
    (each : ∀ value, first = .ok value → (Builds (next value) ↔ rest)) : Builds (first >>= next) ↔ Builds first ∧ rest := by
  cases first with
  | error failure => exact iff_of_false (not_builds_error failure) fun both => not_builds_error failure both.1
  | ok value => exact (each value rfl).trans (and_iff_right (builds_ok value)).symm

/-- Two results, one after the other, and what is made of both. -/
theorem builds_both {first second : Except ε β} {last : β → β → Except ε γ} {early late rest : Prop}
    (firstBuilds : Builds first ↔ early) (secondBuilds : Builds second ↔ late)
    (each : ∀ value value', Builds (last value value') ↔ rest) :
    Builds (do
      let value ← first
      let value' ← second
      last value value') ↔ rest ∧ early ∧ late := by
  rw [builds_bind fun value _ => builds_bind fun value' _ => each value value', firstBuilds, secondBuilds, ← and_assoc]
  exact And.comm

theorem builds_end {first : Except ε β} (last : β → γ) : Builds (first >>= fun value => pure (last value)) ↔ Builds first :=
  (builds_bind fun _ _ => iff_true_intro (builds_ok _)).trans (and_iff_left trivial)

theorem builds_mapM {each : ι → Except ε β} {elements : List ι} :
    Builds (elements.mapM each) ↔ ∀ element ∈ elements, Builds (each element) := by
  constructor
  · rintro ⟨results, succeeds⟩ element member
    obtain ⟨result, -, found⟩ := mapM_member succeeds element member
    exact ⟨result, found⟩
  · intro all
    induction elements with
    | nil => exact builds_ok []
    | cons element elements ih =>
      obtain ⟨result, found⟩ := all element List.mem_cons_self
      obtain ⟨others, rest⟩ := ih fun later member => all later (List.mem_cons_of_mem _ member)
      rw [List.mapM_cons, found]
      change Builds (elements.mapM each >>= fun others => pure (result :: others))
      rw [rest]
      exact builds_ok _

theorem builds_addEach {runtime : Runtime} {cel : CelValidationRules} {exprs : List CompiledRule} :
    Builds (addEach runtime cel exprs) ↔ Compilable runtime exprs :=
  ⟨fun ⟨_, succeeds⟩ => (addEach_ok.mp succeeds).1, fun compiles => ⟨_, addEach_ok.mpr ⟨compiles, rfl⟩⟩⟩

theorem builds_buildCelRules {member : RuleFieldName} {message : RuleMessage} :
    Builds (buildCelRules context member message {}) ↔ context.Admits member message :=
  ⟨fun ⟨_, succeeds⟩ => (buildCelRules_ok.mp succeeds).1, fun admits => ⟨_, buildCelRules_ok.mpr ⟨admits, rfl⟩⟩⟩

theorem builds_withCelRules {base : FieldValidationRules} {built : Except StatusError CelValidationRules} :
    Builds (withCelRules base built) ↔ Builds built :=
  builds_end _

theorem builds_buildScalarFieldRules {field : FieldDescriptor} {member : RuleFieldName} {message : RuleMessage}
    {expected : FieldType} {wrapperName : String} :
    Builds (buildScalarFieldRules context field member message expected wrapperName {}) ↔
      IsOrWraps field.toFieldInfo expected wrapperName ∧ context.Admits member message := by
  unfold buildScalarFieldRules
  split
  · rename_i refused
    refine iff_of_false (not_builds_error _) fun accepted => ?_
    simp only [IsOrWraps] at accepted
    simp only [Bool.and_eq_true, Bool.or_eq_true, bne_iff_ne] at refused
    tauto
  · rename_i accepted
    rw [builds_buildCelRules]
    refine (and_iff_right ?_).symm
    simpa [IsOrWraps, Classical.or_iff_not_imp_left] using accepted

theorem builds_withCustomRules {runtime : Runtime} {fieldLvl : FieldRules} {typed : FieldRuleSet} :
    Builds (typed.withCustomRules runtime fieldLvl) ↔ Compilable runtime (customRules runtime fieldLvl) := by
  rw [FieldRuleSet.withCustomRules, builds_end, addCustomRules_eq, builds_addEach]

mutual

/-- Rules can be built from the options of a field if and only if they are well formed. -/
theorem builds_newFieldRules (field : FieldDescriptor) : ∀ fieldLvl : FieldRules,
    Builds (newFieldRules context field fieldLvl) ↔ fieldLvl.WellFormed context field
  | .mk ignore required cel celExpression type => by
    rw [newFieldRules, FieldRules.WellFormed]
    by_cases always : ignore = some .always
    · subst always
      exact iff_of_true (builds_ok none) (.inl rfl)
    · have kept : ¬(FieldRules.ignore (.mk ignore required cel celExpression type) == .always) = true := by
        simp only [FieldRules.ignore, beq_iff_eq]
        intro same
        cases ignore with
        | none => cases same
        | some ignore => exact always (congrArg some same)
      rw [if_neg kept, or_iff_right always, builds_bind fun _ _ => builds_withCustomRules,
        builds_newTypeRules field _ type]

theorem builds_newTypeRules (field : FieldDescriptor) (fieldLvl : FieldRules) : ∀ type : RuleType,
    Builds (newTypeRules context field fieldLvl type) ↔ type.WellFormed context field
  | .notSet => by
    rw [newTypeRules, RuleType.WellFormed]
    exact iff_true_intro (builds_ok _)
  | .scalar kind rules => by
    rw [newTypeRules, RuleType.WellFormed, builds_end,
      builds_withCelRules, builds_buildScalarFieldRules]
  | .enum rules => by
    rw [newTypeRules, RuleType.WellFormed, builds_end,
      builds_withCelRules, builds_buildScalarFieldRules]
  | .wellKnown kind rules => by
    rw [newTypeRules, RuleType.WellFormed]
    split
    · rename_i holds
      rw [builds_end, builds_withCelRules, builds_buildCelRules]
      exact (and_iff_right holds).symm
    · rename_i fails
      exact iff_of_false (not_builds_error _) fun both => fails both.1
  | .any rules => by
    rw [newTypeRules, RuleType.WellFormed]
    split
    · rename_i holds
      rw [builds_end, builds_withCelRules, builds_buildCelRules]
      exact (and_iff_right holds).symm
    · rename_i fails
      exact iff_of_false (not_builds_error _) fun both => fails both.1
  | .repeated rules items => by
    have base (itemRules : Option FieldRuleSet) : Builds (do
        let base ← withCelRules (.new field fieldLvl) (buildCelRules context .repeated rules {})
        pure (FieldRuleSet.repeated base itemRules)) ↔ context.Admits .repeated rules := by
      rw [builds_end, builds_withCelRules, builds_buildCelRules]
    cases shape : field.shape with
    | repeated =>
      cases items with
      | none =>
        simp only [newTypeRules, RuleType.WellFormed, shape, true_and, and_true]
        exact base none
      | some items =>
        simp only [newTypeRules, RuleType.WellFormed, shape, true_and]
        rw [builds_bind fun itemRules _ => base itemRules, builds_newFieldRules field items]
        exact And.comm
    | _ =>
      rw [newTypeRules, RuleType.WellFormed.eq_def]
      simp only [shape]
      exact iff_of_false (not_builds_error _) fun both => by cases both.1
  | .map rules keys values => by
    have base (keyRules valueRules : Option FieldRuleSet) : Builds (do
        let base ← withCelRules (.new field fieldLvl) (buildCelRules context .map rules {})
        pure (FieldRuleSet.map base keyRules valueRules)) ↔ context.Admits .map rules := by
      rw [builds_end, builds_withCelRules, builds_buildCelRules]
    cases shape : field.shape with
    | map keyInfo valueInfo valid =>
      have unset (info : FieldInfo) : Builds (.ok (some (.field (.new (.ofEntry info) .default))) :
          Except StatusError (Option FieldRuleSet)) ↔ True := iff_true_intro (builds_ok _)
      cases keys with
      | none =>
        cases values with
        | none =>
          simp only [newTypeRules, RuleType.WellFormed, shape]
          exact builds_both (unset keyInfo) (unset valueInfo) base
        | some values =>
          simp only [newTypeRules, RuleType.WellFormed, shape]
          exact builds_both (unset keyInfo) (builds_newFieldRules _ values) base
      | some keys =>
        cases values with
        | none =>
          simp only [newTypeRules, RuleType.WellFormed, shape]
          exact builds_both (builds_newFieldRules _ keys) (unset valueInfo) base
        | some values =>
          simp only [newTypeRules, RuleType.WellFormed, shape]
          exact builds_both (builds_newFieldRules _ keys) (builds_newFieldRules _ values) base
    | _ =>
      rw [newTypeRules, RuleType.WellFormed.eq_def]
      simp only [shape]
      exact iff_of_false (not_builds_error _) id
  | .unknown typeCase => by
    rw [newTypeRules, RuleType.WellFormed]
    exact iff_of_false (not_builds_error _) id

end

end Options

section Built

variable {context : BuildContext} {field : FieldDescriptor} {fieldLvl : FieldRules}

/-- What the kind of the rules declares. -/
def typeDeclared (context : BuildContext) (type : RuleType) : CelValidationRules :=
  match type.member with
  | some (member, message) => {
      rules := some (context.read message)
      exprs := predefinedRules context.runtime member (context.read message) }
  | none => {}

theorem declared_eq : declared context fieldLvl = { typeDeclared context fieldLvl.type with
    exprs := (typeDeclared context fieldLvl.type).exprs ++ customRules context.runtime fieldLvl } := by
  unfold declared typeDeclared
  cases fieldLvl.type.member with
  | none => rfl
  | some held => rfl

theorem typeDeclared_member {type : RuleType} {member : RuleFieldName} {message : RuleMessage} {cel : CelValidationRules}
    (held : type.member = some (member, message)) (built : buildCelRules context member message {} = .ok cel) :
    cel = typeDeclared context type := by
  rw [typeDeclared, held]
  exact (buildCelRules_ok.mp built).2

theorem typeCel_declared {type : RuleType} {cel : CelValidationRules} (built : typeCel context field type = .ok cel)
    (elementary : type.isElementKind = true) : cel = typeDeclared context type := by
  cases type with
  | notSet =>
    cases built
    rfl
  | scalar kind rules =>
    rw [typeCel, buildScalarFieldRules] at built
    split at built
    · cases built
    · exact typeDeclared_member rfl built
  | enum rules =>
    rw [typeCel, buildScalarFieldRules] at built
    split at built
    · cases built
    · exact typeDeclared_member rfl built
  | wellKnown kind rules =>
    rw [typeCel] at built
    split at built
    · exact typeDeclared_member rfl built
    · cases built
  | any rules =>
    rw [typeCel] at built
    split at built
    · exact typeDeclared_member rfl built
    · cases built
  | _ => cases elementary

theorem addCustomRules_declared {cel : CelValidationRules}
    (added : addCustomRules context.runtime fieldLvl (typeDeclared context fieldLvl.type) = .ok cel) :
    cel = declared context fieldLvl := by
  rw [addCustomRules_eq] at added
  rw [declared_eq]
  exact (addEach_ok.mp added).2

/-- The rules that are built for a field are those that its options declare. -/
theorem newFieldRules_declared {rules : FieldRuleSet} (built : newFieldRules context field fieldLvl = .ok (some rules)) :
    rules.base = elementBase field fieldLvl (declared context fieldLvl) := by
  obtain ⟨base, same⟩ := newFieldRules_base built
  obtain always | ⟨typed, typeBuilt, customBuilt⟩ := newFieldRules_built built
  · rw [newFieldRules_always always] at built
    cases built
  suffices held : rules.base.toCelValidationRules = declared context fieldLvl by
    rw [same] at held ⊢
    exact congrArg (elementBase field fieldLvl) held
  by_cases elementary : fieldLvl.type.isElementKind = true
  · obtain ⟨cel, found, rfl, -⟩ := newFieldRules_some elementary built
    obtain ⟨own, ownBuilt, added⟩ := bind_ok found
    rw [typeCel_declared ownBuilt elementary] at added
    rw [elementRuleSet_base]
    exact addCustomRules_declared added
  · obtain ⟨cel, added, same⟩ := withCustomRules_built customBuilt
    cases same
    have kept : (typed.setBase { typed.base with toCelValidationRules := cel }).base.toCelValidationRules = cel := by
      cases typed <;> rfl
    rw [kept]
    refine addCustomRules_declared ?_
    rw [← added]
    refine congrArg _ (Eq.symm ?_)
    cases kind : fieldLvl.type with
    | repeated message items =>
      rw [kind] at typeBuilt
      obtain ⟨-, _, _, rfl, own, -⟩ := newTypeRules_repeated typeBuilt
      exact typeDeclared_member rfl own
    | map message keys values =>
      rw [kind] at typeBuilt
      obtain ⟨_, _, _, -, _, _, _, rfl, own, -⟩ := newTypeRules_map typeBuilt
      exact typeDeclared_member rfl own
    | unknown typeCase =>
      rw [kind] at typeBuilt
      cases typeBuilt
    | _ =>
      rw [kind] at elementary
      exact absurd rfl elementary

end Built

section Messages

/-- A oneof at message level that names fields of the message, and none of them twice. -/
structure MessageOneofRule.WellFormed (descriptor : Descriptor) (oneof : MessageOneofRule) : Prop where
  nonempty : oneof.fields ≠ []
  distinct : oneof.fields.Nodup
  known : ∀ name ∈ oneof.fields, (descriptor.findFieldByName name).isSome = true

/-- A message type whose options are well formed. -/
structure Descriptor.WellFormed (context : BuildContext) (descriptor : Descriptor) : Prop where
  expressions : ∀ options ∈ descriptor.options, Compilable context.runtime (messageLevelRules options)
  oneofs : ∀ options ∈ descriptor.options, ∀ oneof ∈ options.oneof, oneof.WellFormed descriptor
  fields : ∀ field ∈ descriptor.fields, ∀ options ∈ field.options, options.WellFormed context field

/-- The fields that are named by a oneof at message level. -/
def Descriptor.oneofNames (descriptor : Descriptor) : List String :=
  match descriptor.options with
  | some options => options.oneof.flatMap MessageOneofRule.fields
  | none => []

/-- The options of a field as its rules are built from them. -/
def memberOptions (oneofNames : List String) (field : FieldDescriptor) (options : FieldRules) : FieldRules :=
  if !options.hasIgnore && oneofNames.contains field.name then options.setIgnore .ifZeroValue else options

variable {context : BuildContext} {descriptor : Descriptor}

theorem memberOptions_wellFormed (oneofNames : List String) (field : FieldDescriptor) (options : FieldRules) :
    (memberOptions oneofNames field options).WellFormed context field ↔ options.WellFormed context field := by
  unfold memberOptions
  split
  · rename_i overridden
    obtain ⟨ignore, required, cel, celExpression, type⟩ := options
    cases ignore with
    | none =>
      simp only [FieldRules.setIgnore, FieldRules.WellFormed, Option.some.injEq, reduceCtorEq, false_or]
      exact Iff.rfl
    | some ignore => simp [FieldRules.hasIgnore] at overridden
  · exact Iff.rfl

theorem newMemberRules_eq (oneofNames : List String) {field : FieldDescriptor} {options : FieldRules}
    (set : field.options = some options) : newMemberRules context oneofNames field =
      newFieldRules context field (memberOptions oneofNames field options) >>= fun rules =>
        pure (rules.map ValidationRules.field) := by
  unfold newMemberRules memberOptions
  rw [set]

theorem builds_newMemberRules (oneofNames : List String) (field : FieldDescriptor) :
    Builds (newMemberRules context oneofNames field) ↔ ∀ options ∈ field.options, options.WellFormed context field := by
  cases set : field.options with
  | none =>
    unfold newMemberRules
    rw [set]
    exact iff_of_true (builds_ok none) fun _ impossible => by cases impossible
  | some options =>
    rw [newMemberRules_eq oneofNames set, builds_end, builds_newFieldRules, memberOptions_wellFormed]
    simp

theorem builds_oneofFields {seen names : List String} : Builds (oneofFields descriptor seen names) ↔
    names.Nodup ∧ ∀ name ∈ names, name ∉ seen ∧ (descriptor.findFieldByName name).isSome = true := by
  induction names generalizing seen with
  | nil => exact iff_of_true (builds_ok []) ⟨List.nodup_nil, fun _ impossible => by cases impossible⟩
  | cons name names ih =>
    rw [oneofFields, List.nodup_cons, List.forall_mem_cons]
    by_cases again : seen.contains name = true
    · rw [if_pos again]
      exact iff_of_false (not_builds_error _) fun both => both.2.1.1 (List.contains_iff_mem.mp again)
    · rw [if_neg again]
      have fresh : name ∉ seen := mt List.contains_iff_mem.mpr again
      cases found : descriptor.findFieldByName name with
      | none => exact iff_of_false (not_builds_error _) fun both => by cases both.2.1.2
      | some field =>
        simp only
        rw [builds_end, ih]
        simp only [List.mem_cons, not_or, Option.isSome_some, and_true, fresh, not_false_eq_true, true_and]
        constructor
        · rintro ⟨distinct, others⟩
          exact ⟨⟨fun member => (others name member).1.1 rfl, distinct⟩,
            fun other member => ⟨(others other member).1.2, (others other member).2⟩⟩
        · rintro ⟨⟨absent, distinct⟩, others⟩
          refine ⟨distinct, fun other member => ⟨⟨?_, (others other member).1⟩, (others other member).2⟩⟩
          rintro rfl
          exact absent member

theorem builds_newMessageOneof {oneof : MessageOneofRule} :
    Builds (newMessageOneof descriptor oneof) ↔ oneof.WellFormed descriptor := by
  unfold newMessageOneof
  by_cases empty : oneof.fields = []
  · rw [if_pos (List.isEmpty_iff.mpr empty)]
    exact iff_of_false (not_builds_error _) fun wellFormed => wellFormed.nonempty empty
  · rw [if_neg (mt List.isEmpty_iff.mp empty), builds_end, builds_oneofFields]
    constructor
    · rintro ⟨distinct, each⟩
      exact ⟨empty, distinct, fun name member => (each name member).2⟩
    · rintro ⟨_, distinct, known⟩
      exact ⟨distinct, fun name member => ⟨List.not_mem_nil, known name member⟩⟩

/-- Rules can be built for a message type if and only if its options are well formed. -/
theorem builds_newMessageRules : Builds (newMessageRules context descriptor) ↔ descriptor.WellFormed context := by
  have fields (names : List String) (level : List ValidationRules) : Builds (do
      let fieldRules ← descriptor.fields.mapM (newMemberRules context names)
      pure (level ++ fieldRules.filterMap id ++
        descriptor.oneofs.filterMap fun oneof => oneof.options.map (ValidationRules.oneof oneof)) : Rules) ↔
      ∀ field ∈ descriptor.fields, ∀ options ∈ field.options, options.WellFormed context field := by
    rw [builds_end, builds_mapM]
    exact forall₂_congr fun field _ => builds_newMemberRules names field
  unfold newMessageRules
  cases set : descriptor.options with
  | none =>
    simp only
    refine (fields [] []).trans ⟨fun each => ⟨?_, ?_, each⟩, fun wellFormed => wellFormed.fields⟩
    all_goals
      intro options impossible
      rw [set] at impossible
      cases impossible
  | some options =>
    simp only
    refine (builds_bind fun cel _ => builds_bind fun oneofs _ => fields _ (.message cel :: oneofs)).trans ?_
    rw [buildMessageRules_eq, builds_addEach, builds_mapM]
    constructor
    · rintro ⟨compiles, oneofs, each⟩
      refine ⟨?_, ?_, each⟩
      · intro options' same
        cases set.symm.trans same
        exact compiles
      · intro options' same oneof member
        cases set.symm.trans same
        exact builds_newMessageOneof.mp (oneofs oneof member)
    · rintro ⟨compiles, oneofs, each⟩
      exact ⟨compiles options set, fun oneof member => builds_newMessageOneof.mpr (oneofs options set oneof member), each⟩

end Messages
end Protovalidate.Validate
