import Mathlib.Data.List.Flatten
import Protovalidate.Foundation.Agenda
import Protovalidate.Validate.Origins

/-! The checks that the rules of a message and of those below it are made of, in the
order of a run: what `Validate` returns is some of these, whatever the expressions yield. -/

namespace Protovalidate.Validate

open Foundation Check

section Labels

/-- What tells the check behind a violation: its place, its rule path and its rule id. -/
structure Label where
  field : Option FieldPath := none
  rule : Option FieldPath := none
  ruleId : String
deriving DecidableEq, Repr

def RuleViolation.label (violation : RuleViolation) : Label where
  field := violation.proto.field
  rule := violation.proto.rule
  ruleId := violation.proto.ruleId

namespace Label

variable (label : Label)

/-- Paths grow from the inside out. -/
def within (element : FieldPathElement) : Label := { label with field := some (label.field.getD [] ++ [element]) }

def below (suffix : FieldPath) : Label := { label with rule := some (label.rule.getD [] ++ suffix) }

def finalize : Label := { label with field := label.field.map List.reverse, rule := label.rule.map List.reverse }

end Label

variable {violation : RuleViolation}

@[simp] theorem label_appendFieldPathElement (element : FieldPathElement) :
    (violation.appendFieldPathElement element).label = violation.label.within element := rfl

@[simp] theorem label_appendRulePathElement (suffix : FieldPath) :
    (violation.appendRulePathElement suffix).label = violation.label.below suffix := rfl

@[simp] theorem label_setFieldValue (field : ProtoField) : (violation.setFieldValue field).label = violation.label := rfl

@[simp] theorem label_setForKey : violation.setForKey.label = violation.label := rfl

@[simp] theorem label_finalize : violation.finalize.label = violation.label.finalize := rfl

theorem label_ruleValueOf (cel : CelValidationRules) (expr : CompiledRule) :
    (cel.ruleValueOf expr violation).label = violation.label := by
  unfold CelValidationRules.ruleValueOf
  split
  · rfl
  · rfl

end Labels

section Agendas

variable (runtime : Runtime) (message : Message)

def CompiledRule.label (expr : CompiledRule) : Label where
  rule := expr.rulePath
  ruleId := expr.rule.id

def CelValidationRules.agenda (self : CelValidationRules) : List Label := self.exprs.map CompiledRule.label

/-- The two checks of `ValidateAny`. -/
def anyAgenda (anyRules : Option AnyRules) (field : ProtoField) : List Label :=
  match anyRules with
  | none => []
  | some any =>
    [(FieldValidationRules.anyViolation runtime "any.in" "type URL must be in the allow list" .anyIn any field).label,
      (FieldValidationRules.anyViolation runtime "any.not_in" "type URL must not be in the block list" .anyNotIn any field).label]

def FieldValidationRules.agenda (self : FieldValidationRules) : List Label :=
  (self.requiredViolation runtime message).label ::
    (anyAgenda runtime self.anyRules { message := .message message, descriptor := self.field.toFieldInfo } ++
      self.toCelValidationRules.agenda.map fun label => label.within (fieldPathElement self.field.toFieldInfo))

/-- The checks of an item. -/
def itemAgenda (base items : FieldValidationRules) (item : Nat × Value) : List Label :=
  (items.toCelValidationRules.agenda ++
      anyAgenda runtime items.anyRules { message := .message message, descriptor := base.field.toFieldInfo, index := some item.1 }).map
    fun label => (label.within ((fieldPathElement base.field.toFieldInfo).setIndex item.1)).below
      [fieldPathElement (runtime.ruleField .items), fieldPathElement (runtime.ruleField .repeated)]

/-- The checks of the key or of the value of an entry, before they are placed. -/
def partAgenda (name : RuleFieldName) : Option FieldRuleSet → List Label
  | none => []
  | some rules => rules.base.toCelValidationRules.agenda.map fun label =>
      label.below [fieldPathElement (runtime.ruleField name), fieldPathElement (runtime.ruleField .map)]

def entryAgenda (base : FieldValidationRules) (keyInfo valueInfo : FieldInfo) (keyRules valueRules : Option FieldRuleSet)
    (entry : Entry) : List Label :=
  (partAgenda runtime .keys keyRules ++ partAgenda runtime .values valueRules).map
    fun label => label.within (entryPathElement base.field.toFieldInfo keyInfo valueInfo entry.key)

def itemsAgenda (base : FieldValidationRules) : Option FieldRuleSet → List Label
  | none => []
  | some rules =>
    (RepeatedValidationRules.checked runtime base rules.base (message.elements base.field)).flatMap
      (itemAgenda runtime message base rules.base)

def entriesAgenda (base : FieldValidationRules) (keyRules valueRules : Option FieldRuleSet) : List Label :=
  match base.field.shape with
  | .map keyInfo valueInfo _ =>
    (message.entries base.field).flatMap (entryAgenda runtime base keyInfo valueInfo keyRules valueRules)
  | _ => []

/-- The checks of a field's rules. -/
def FieldRuleSet.agenda : FieldRuleSet → List Label
  | .field base => base.agenda runtime message
  | .enum base enumRules =>
    base.agenda runtime message ++ [(EnumValidationRules.definedOnlyViolation runtime base enumRules message).label]
  | .repeated base itemRules => base.agenda runtime message ++ itemsAgenda runtime message base itemRules
  | .map base keyRules valueRules => base.agenda runtime message ++ entriesAgenda runtime message base keyRules valueRules

def ValidationRules.agenda : ValidationRules → List Label
  | .message cel => cel.agenda
  | .messageOneof _ _ => [{ ruleId := "message.oneof" }]
  | .field rules => rules.agenda runtime message
  | .oneof descriptor _ => [{ field := some [oneofPathElement descriptor], ruleId := "required" }]

/-- The checks of the rules of a message itself. -/
def ownAgenda (factory : ValidatorFactory) (message : Message) : List Label :=
  match factory.rulesOf message.descriptor with
  | .error _ => []
  | .ok rules => rules.flatMap (ValidationRules.agenda factory.context.runtime message)

/-- The checks of a message and of all messages below it. -/
def agenda (factory : ValidatorFactory) (message : Message) : List Label :=
  ownAgenda factory message ++ (children message).attach.flatMap fun child =>
    (agenda factory child.1.2).map fun label => label.within child.1.1
termination_by sizeOf message
decreasing_by exact children_sizeOf child.2

theorem agenda_eq (factory : ValidatorFactory) (message : Message) : agenda factory message =
    ownAgenda factory message ++ (children message).flatMap fun child =>
      (agenda factory child.2).map fun label => label.within child.1 := by
  rw [agenda]
  congr 1
  conv_rhs => rw [← List.attach_map_subtype_val (children message), List.flatMap_map]

end Agendas

section Cel

variable {runtime : Runtime}

theorem emplaceBackIf_follows (condition : Bool) (violation : RuleViolation) {okay : Unit → Prop} :
    Follows RuleViolation.label okay [violation.label] (emplaceBackIf condition violation) := by
  cases condition with
  | true =>
    have added : Follows RuleViolation.label (fun _ => True) [violation.label] (add violation : RuleCheck Unit) :=
      follows_add violation
    exact added.before (fun _ => follows_note _) fun _ _ _ _ => trivial
  | false => exact follows_pure ()

theorem processRule_follows (activation : Activation) (expr : CompiledRule) {okay : Status → Prop} :
    Follows RuleViolation.label okay [expr.label] (processRule runtime activation expr) := by
  unfold processRule
  refine (follows_note _).behind fun _ => ?_
  split
  · exact follows_pure _
  · exact (emplaceBackIf_follows _ _).andThen fun _ => follows_pure _
  · exact (emplaceBackIf_follows _ _).andThen fun _ => follows_pure _
  · exact follows_pure _
  · exact follows_pure _

/-- Every expression is evaluated at most once, in their order. -/
theorem celLoop_follows (cel : CelValidationRules) (exprs : List CompiledRule) (activation : Activation)
    {okay : Status × Activation → Prop} :
    Follows RuleViolation.label okay (exprs.map CompiledRule.label) (cel.celLoop runtime exprs activation) := by
  induction exprs generalizing activation with
  | nil => exact follows_pure _
  | cons expr exprs ih =>
    have processed : Follows RuleViolation.label (fun _ => True) [expr.label]
        (processRule runtime (cel.bindRule runtime expr activation) expr) := processRule_follows _ expr
    refine (processed.framedKept fun violation => label_ruleValueOf cel expr).andThen fun status =>
      (follows_exits status).behind fun exit => ?_
    cases exit with
    | true => exact follows_pure _
    | false => exact ih _

theorem validateCel_follows (cel : CelValidationRules) (activation : Activation) {okay : Status × Activation → Prop} :
    Follows RuleViolation.label okay cel.agenda (cel.validateCel runtime activation) := by
  have loop : Follows RuleViolation.label (fun _ => True) cel.agenda (cel.celLoop runtime cel.exprs
      ((activation.insertValue "rules" cel.rulesValue).insertValue "now" runtime.now)) := celLoop_follows cel cel.exprs _
  exact loop.before (fun _ => follows_pure _) fun _ _ _ _ => trivial

theorem validateAny_follows (any : AnyRules) (field : ProtoField) (anyMsg : Message) {okay : Status → Prop} :
    Follows RuleViolation.label okay (anyAgenda runtime (some any) field)
      (FieldValidationRules.validateAny runtime any field anyMsg) := by
  unfold FieldValidationRules.validateAny
  split
  · exact follows_pure _
  · split
    · exact follows_pure _
    · exact (emplaceBackIf_follows _ _).andThen fun _ => (emplaceBackIf_follows _ _).before (fun _ => follows_pure _)
        fun _ _ _ _ => trivial

end Cel

section Fields

variable {runtime : Runtime} {message : Message} {base : FieldValidationRules}

theorem validateThis_follows (value : CelValue) :
    Follows RuleViolation.label Succeeds
      (base.toCelValidationRules.agenda.map fun label => label.within (fieldPathElement base.field.toFieldInfo))
      (base.validateThis runtime message value) := by
  have cel : Follows RuleViolation.label (fun result => result.1 = .ok ()) base.toCelValidationRules.agenda
      (base.validateCel runtime (Activation.empty.insertValue "this" value)) := validateCel_follows _ _
  refine (cel.framedIf (fun result succeeds => ?_) fun violation => ?_).before (fun _ => follows_pure _) fun _ _ _ succeeds => succeeds
  · rw [succeeds]
    rfl
  · rfl

theorem required_follows :
    Follows RuleViolation.label Succeeds [(base.requiredViolation runtime message).label] (do
      emplaceBack (base.requiredViolation runtime message)
      pure (.ok ()) : RuleCheck Status) := by
  have placed : Follows RuleViolation.label (fun _ => True) [(base.requiredViolation runtime message).label]
      (emplaceBackIf true (base.requiredViolation runtime message)) := emplaceBackIf_follows true _
  exact placed.before (fun _ => follows_pure _) fun _ _ _ _ => trivial

/-- Either the field is missing, or its other rules are run. -/
theorem requiredOr_follows {part : RuleCheck Status} {missing : Bool} {rest : List Label}
    (follows : Follows RuleViolation.label Succeeds rest part) :
    Follows RuleViolation.label Succeeds ((base.requiredViolation runtime message).label :: rest)
      (if missing then do
        emplaceBack (base.requiredViolation runtime message)
        pure (.ok ())
      else part) := by
  cases missing with
  | true => exact required_follows.mono (List.singleton_sublist.mpr List.mem_cons_self)
  | false => exact follows.mono (List.sublist_cons_self _ _)

theorem validateContainer_follows (isEmpty : Bool) (value : CelValue) :
    Follows RuleViolation.label Succeeds (base.agenda runtime message)
      (base.validateContainer runtime message isEmpty value) := by
  unfold FieldValidationRules.validateContainer
  split
  · exact follows_pure _
  · exact requiredOr_follows ((validateThis_follows value).mono (List.sublist_append_right _ _))

theorem validateSingular_follows :
    Follows RuleViolation.label Succeeds (base.agenda runtime message) (base.validateSingular runtime message) := by
  unfold FieldValidationRules.validateSingular
  refine requiredOr_follows ?_
  split
  · exact follows_pure _
  · refine Follows.orFail ?_ ?_
    · unfold FieldValidationRules.validateSingleAny
      cases base.anyRules with
      | none => exact follows_pure _
      | some any =>
        simp only
        split
        · exact validateAny_follows any _ _
        · exact follows_pure _
    · unfold FieldValidationRules.validateSingleValue
      cases runtime.createValueFromSingleField base.field.toFieldInfo (message.single base.field) with
      | error failure => exact follows_pure _
      | ok value => exact validateThis_follows value

theorem fieldValidate_follows :
    Follows RuleViolation.label Succeeds (base.agenda runtime message) (base.validate runtime message) := by
  unfold FieldValidationRules.validate
  cases base.field.shape with
  | singular => exact (follows_note _).behind fun _ => validateSingular_follows
  | repeated => exact validateContainer_follows _ _
  | map keyInfo valueInfo valid => exact validateContainer_follows _ _

theorem enumValidate_follows (enumRules : EnumRules) :
    Follows RuleViolation.label Succeeds (FieldRuleSet.agenda runtime message (.enum base enumRules))
      (EnumValidationRules.validate runtime base enumRules message) := by
  refine fieldValidate_follows.orExit ?_
  unfold EnumValidationRules.validateDefinedOnly
  split
  · exact (follows_note _).behind fun _ => (emplaceBackIf_follows _ _).andThen fun _ => follows_pure _
  · exact follows_pure _

/-- The checks for `Any` are made behind CEL rules that have failed, too. -/
theorem itemRound_follows (items : FieldValidationRules) (item : Nat × Value) :
    Follows RuleViolation.label Succeeds (itemAgenda runtime message base items item)
      (RepeatedValidationRules.itemRound runtime base items message item) := by
  have inside : Follows RuleViolation.label Succeeds (items.toCelValidationRules.agenda ++
      anyAgenda runtime items.anyRules { message := .message message, descriptor := base.field.toFieldInfo, index := some item.1 })
      (RepeatedValidationRules.itemRules runtime base items message item) := by
    unfold RepeatedValidationRules.itemRules
    refine (validateCel_follows _ _).andThen fun result => ?_
    cases items.anyRules with
    | none => exact follows_pure _
    | some any => exact validateAny_follows any _ _
  exact inside.framed fun violation => rfl

theorem repeatedValidate_follows (itemRules : Option FieldRuleSet) :
    Follows RuleViolation.label Succeeds (FieldRuleSet.agenda runtime message (.repeated base itemRules))
      (RepeatedValidationRules.validate runtime base message itemRules) := by
  refine fieldValidate_follows.orExit ?_
  cases itemRules with
  | none => exact follows_pure _
  | some rules => exact Follows.each fun item _ => itemRound_follows rules.base item

end Fields

section Entries

variable {runtime : Runtime} {message : Message} {base : FieldValidationRules} {keyInfo valueInfo : FieldInfo}
  {keyRules valueRules : Option FieldRuleSet} {entry : Entry} {key : CelValue} {activation : Activation}

theorem keyPart_follows :
    Follows RuleViolation.label GoesOn (partAgenda runtime .keys keyRules)
      (MapValidationRules.keyPart runtime keyInfo keyRules entry key activation) := by
  cases keyRules with
  | none => exact follows_pure _
  | some rules =>
    simp only [MapValidationRules.keyPart]
    split
    · exact follows_pure _
    · have cel : Follows RuleViolation.label (fun result => result.1 = .ok ()) rules.base.toCelValidationRules.agenda
          (rules.base.validateCel runtime (activation.insertValue "this" key)) := validateCel_follows _ _
      refine (cel.framedIf (fun result succeeds => ?_) fun violation => ?_).before (fun result => ?_)
        fun result failFast ctx goesOn => ?_
      · rw [succeeds]
        rfl
      · rfl
      · obtain ⟨status, left⟩ := result
        cases status with
        | error failure => exact follows_pure _
        | ok _ => exact follows_pure _
      · obtain ⟨status, left⟩ := result
        cases status with
        | error failure =>
          obtain ⟨_, impossible⟩ := goesOn
          cases impossible
        | ok _ => rfl

/-- The field value is no part of a label. -/
theorem valueEnd_follows (start : Nat) (status : Status) (left : Activation) (grew : Bool) :
    Follows RuleViolation.label GoesOn [] (MapValidationRules.valueEnd valueInfo entry start status left grew) := by
  cases status with
  | error failure => exact follows_pure _
  | ok _ =>
    cases grew with
    | false => exact follows_pure _
    | true =>
      refine Follows.behind (follows_edit ?keeps start) fun _ => follows_pure _
      case keeps =>
        intro violation
        rfl

theorem valuePart_follows (start : Nat) :
    Follows RuleViolation.label GoesOn (partAgenda runtime .values valueRules)
      (MapValidationRules.valuePart runtime valueInfo valueRules entry activation start) := by
  cases valueRules with
  | none => exact follows_pure _
  | some rules =>
    simp only [MapValidationRules.valuePart]
    split
    · exact follows_pure _
    · have cel : Follows RuleViolation.label (fun result => result.1 = .ok ()) rules.base.toCelValidationRules.agenda
          (rules.base.validateCel runtime (activation.insertValue "this" (runtime.mapValue valueInfo entry.value))) :=
        validateCel_follows _ _
      refine (cel.framedIf (fun result succeeds => ?_) fun violation => ?_).grown.before
        (fun result => valueEnd_follows start result.1.1 result.1.2 result.2) fun result failFast ctx goesOn => ?_
      · rw [succeeds]
        rfl
      · rfl
      · obtain ⟨⟨status, left⟩, grew⟩ := result
        cases status with
        | error failure =>
          obtain ⟨_, impossible⟩ := goesOn
          cases impossible
        | ok _ => rfl

theorem entryRules_follows (start : Nat) :
    Follows RuleViolation.label GoesOn (partAgenda runtime .keys keyRules ++ partAgenda runtime .values valueRules)
      (MapValidationRules.entryRules runtime keyInfo valueInfo keyRules valueRules entry key activation start) := by
  refine keyPart_follows.bind (fun result => ?_) fun result failFast ctx goesOn => ?_
  · cases result with
    | error failure => exact follows_pure _
    | ok left => exact valuePart_follows start
  · cases result with
    | error failure =>
      obtain ⟨_, impossible⟩ := goesOn
      cases impossible
    | ok left => exact ⟨left, rfl⟩

theorem entryEnd_moves (valid : keyInfo.type.isMapKey = true) (left : Activation) (start : Nat) :
    MovesFrom RuleViolation.label RoundGoesOn
      (fun label => label.within (entryPathElement base.field.toFieldInfo keyInfo valueInfo entry.key)) start
      (MapValidationRules.entryEnd base keyInfo valueInfo entry left start true) := by
  simp only [MapValidationRules.entryEnd, setPathElementMapKey_eq valid, ↓reduceIte]
  refine movesFrom_edit ?moves ?quiet start
  case moves =>
    intro violation
    rfl
  case quiet =>
    intro failFast ctx
    cases failFast with
    | true => rfl
    | false => rfl

theorem entryRound_follows (valid : keyInfo.type.isMapKey = true) :
    Follows RuleViolation.label RoundGoesOn (entryAgenda runtime base keyInfo valueInfo keyRules valueRules entry)
      (MapValidationRules.entryRound runtime base keyInfo valueInfo keyRules valueRules entry key activation) := by
  refine Follows.scopeGrown entryRules_follows (fun start result => ?_) (fun start result => ?_)
    fun start result failFast ctx goesOn => ?_
  · cases result with
    | error failure =>
      refine movesFrom_failed (fun impossible => ?_) start
      cases impossible
    | ok left => exact entryEnd_moves valid left start
  · cases result with
    | error failure => exact follows_pure _
    | ok left => exact follows_pure _
  · obtain ⟨result, grew⟩ := result
    cases result with
    | error failure => cases goesOn
    | ok left => exact ⟨left, rfl⟩

theorem entryLoop_follows (valid : keyInfo.type.isMapKey = true) (entries : List (Entry × CelValue)) :
    Follows RuleViolation.label Succeeds
      (entries.flatMap fun entry => entryAgenda runtime base keyInfo valueInfo keyRules valueRules entry.1)
      (MapValidationRules.entryLoop runtime base keyInfo valueInfo keyRules valueRules entries activation) := by
  induction entries generalizing activation with
  | nil => exact follows_pure _
  | cons entry entries ih =>
    refine (entryRound_follows valid).bind (fun result => ?_) fun result failFast ctx succeeds => ?_
    · cases result with
      | inl status => exact follows_pure _
      | inr left => exact ih
    · cases result with
      | inl status => exact succeeds
      | inr left => exact trivial

theorem zip_sublist {α β : Type} (front : List α) (back : List β) : ((front.zip back).map Prod.fst).Sublist front := by
  induction front generalizing back with
  | nil => exact List.Sublist.refl _
  | cons first front ih =>
    cases back with
    | nil => exact List.nil_sublist _
    | cons second back => exact (ih back).cons_cons first

theorem mapValidate_follows :
    Follows RuleViolation.label Succeeds (FieldRuleSet.agenda runtime message (.map base keyRules valueRules))
      (MapValidationRules.validate runtime base keyRules valueRules message) := by
  refine fieldValidate_follows.orFail ?_
  unfold MapValidationRules.validateEntries
  split
  · exact follows_pure _
  · unfold entriesAgenda
    cases base.field.shape with
    | map keyInfo valueInfo valid =>
      simp only
      cases runtime.listKeys keyInfo ((message.entries base.field).map Entry.key) with
      | error failure => exact follows_pure _
      | ok keys =>
        refine (entryLoop_follows valid _).mono ?_
        rw [← List.flatMap_map Prod.fst (entryAgenda runtime base keyInfo valueInfo keyRules valueRules)]
        exact (zip_sublist _ _).flatMap _
    | _ => exact follows_pure _

end Entries

section Runs

variable {runtime : Runtime} {message : Message} {factory : ValidatorFactory} {failFast : Bool}

theorem hasCount_quiet (fields : List FieldDescriptor) (failFast : Bool) (ctx : RuleContext) :
    (MessageOneofValidationRules.hasCount message fields failFast ctx).2.entries = ctx.entries := by
  induction fields generalizing ctx with
  | nil => rfl
  | cons field fields ih => exact ih _

/-- Only one of the two checks can fail. -/
theorem messageOneof_follows (fields : List FieldDescriptor) (required : Bool) :
    Follows RuleViolation.label Succeeds [{ ruleId := "message.oneof" }]
      (MessageOneofValidationRules.validate fields required message) := by
  have counted : Follows RuleViolation.label (fun _ => True) [] (MessageOneofValidationRules.hasCount message fields) :=
    follows_quiet fun failFast ctx => congrArg (List.map RuleViolation.label) (hasCount_quiet fields failFast ctx)
  refine counted.behind fun count => ?_
  by_cases several : count > 1
  · have populated : (required && count == 0) = false := by
      rw [Bool.and_eq_false_iff, beq_eq_false_iff_ne]
      exact .inr (Nat.ne_of_gt (Nat.lt_of_succ_lt several))
    rw [populated]
    refine (emplaceBackIf_follows _ _).before (fun _ => ?_) fun _ _ _ _ => trivial
    exact (follows_pure ()).behind fun _ => follows_pure _
  · rw [decide_eq_false several]
    refine (follows_pure ()).behind fun _ => ?_
    exact (emplaceBackIf_follows _ _).before (fun _ => follows_pure _) fun _ _ _ _ => trivial

theorem rulesValidate_follows (rules : ValidationRules) :
    Follows RuleViolation.label Succeeds (rules.agenda runtime message) (rules.validate runtime message) := by
  cases rules with
  | message cel =>
    have run : Follows RuleViolation.label (fun _ => True) cel.agenda
        (cel.validateCel runtime (Activation.empty.insertValue "this" (runtime.createMessage message))) := validateCel_follows _ _
    exact run.before (fun _ => follows_pure _) fun _ _ _ _ => trivial
  | messageOneof fields required => exact messageOneof_follows fields required
  | oneof descriptor required => exact (emplaceBackIf_follows _ _).andThen fun _ => follows_pure _
  | field rules =>
    cases rules with
    | field base => exact fieldValidate_follows
    | enum base enumRules => exact enumValidate_follows enumRules
    | repeated base itemRules => exact repeatedValidate_follows itemRules
    | map base keyRules valueRules => exact mapValidate_follows

/-- The run for a message follows the agenda of the message. -/
theorem validateMessage_follows (factory : ValidatorFactory) (message : Message) :
    Follows RuleViolation.label Succeeds (agenda factory message) (Validator.validateMessage factory message) := by
  induction message using children_induction with
  | step message ih =>
    rw [Validator.validateMessage_eq, agenda_eq, ownAgenda]
    cases factory.rulesOf message.descriptor with
    | error failure => exact follows_pure _
    | ok rules =>
      refine Follows.eachThen (fun rule _ => rulesValidate_follows rule) (Follows.each fun child member => ?_)
      exact (ih child member).framed fun violation => rfl

/-- What `Validate` returns is a part of the agenda of the message, in its order. -/
theorem validate_follows {violations : List RuleViolation}
    (returned : Validator.validate factory failFast message = .ok violations) :
    (violations.map RuleViolation.label).Sublist ((agenda factory message).map Label.finalize) := by
  obtain ⟨succeeds, rfl⟩ := Validator.validate_ok.mp returned
  have recorded := (validateMessage_follows factory message).run succeeds
  have same : RuleViolation.label ∘ RuleViolation.finalize = Label.finalize ∘ RuleViolation.label := funext fun _ => rfl
  rw [List.map_map, same, ← List.map_map]
  exact recorded.map Label.finalize

end Runs
end Protovalidate.Validate
