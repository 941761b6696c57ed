import Protovalidate.Foundation.Additions
import Protovalidate.Validate.Errors
import Protovalidate.Validate.MapCalls
import Protovalidate.Validate.Presence

/-! The violations that the rules of a message record, each with the check that has
failed, and what the frames around it have made of it. -/

namespace Protovalidate.Validate

open Foundation Check

variable (seen : Event → Prop) (runtime : Runtime) (message : Message)

section Sources

/-- A violation of an expression that was evaluated on a value and does not hold of it. -/
inductive CelFound (cel : CelValidationRules) (this : CelValue) : RuleViolation → Prop where
  | mk {expr : CompiledRule} {activation : Activation} {result : Except StatusError CelValue} {text : String}
      (member : expr ∈ cel.exprs) (evaluated : seen (.evaluated expr.rule.expression activation result))
      (violated : verdict result = .violated) (bound : activation "this" = some this) :
      CelFound cel this (cel.ruleValueOf expr
        { proto := { rule := expr.rulePath, ruleId := expr.rule.id, message := text } })

/-- A violation of the rules for `Any`. -/
inductive AnyFound (any : AnyRules) (field : ProtoField) (anyMsg : Message) : RuleViolation → Prop where
  | missing {typeUri : String} (url : typeUrl anyMsg = some typeUri) (fails : allowViolated any typeUri = true) :
      AnyFound any field anyMsg
        (FieldValidationRules.anyViolation runtime "any.in" "type URL must be in the allow list" .anyIn any field)
  | blocked {typeUri : String} (url : typeUrl anyMsg = some typeUri) (fails : any.notIn.contains typeUri = true) :
      AnyFound any field anyMsg
        (FieldValidationRules.anyViolation runtime "any.not_in" "type URL must not be in the block list" .anyNotIn any field)

/-- The value of a whole field, as its CEL rules see it. -/
def Shows (field : FieldDescriptor) (value : CelValue) : Prop :=
  match field.shape with
  | .singular => runtime.createValueFromSingleField field.toFieldInfo (message.single field) = .ok value
  | .repeated => value = runtime.createList field (message.elements field)
  | .map _ _ _ => value = runtime.createMap field (message.entries field)

/-- A violation of the rules that all fields have. -/
inductive FieldFound (base : FieldValidationRules) : RuleViolation → Prop where
  | required (needs : base.required = true) (unpopulated : message.populates base.field = false) :
      FieldFound base (base.requiredViolation runtime message)
  | any {any : AnyRules} {violation : RuleViolation} (rules : base.anyRules = some any)
      (singular : base.field.shape = .singular)
      (found : AnyFound runtime any { message := .message message, descriptor := base.field.toFieldInfo }
        (base.getMessage runtime message) violation) : FieldFound base violation
  | cel {value : CelValue} {violation : RuleViolation} (shows : Shows runtime message base.field value)
      (found : CelFound seen base.toCelValidationRules value violation) : FieldFound base (base.placed message violation)

/-- A violation of the rules of an item. -/
inductive ItemFound (base items : FieldValidationRules) (item : Nat × Value) : RuleViolation → Prop where
  | any {any : AnyRules} {violation : RuleViolation} (rules : items.anyRules = some any)
      (found : AnyFound runtime any { message := .message message, descriptor := base.field.toFieldInfo, index := some item.1 }
        (anyMessage runtime base.field.toFieldInfo item.2) violation) :
      ItemFound base items item (RepeatedValidationRules.placed runtime base message item.1 violation)
  | cel {violation : RuleViolation}
      (found : CelFound seen items.toCelValidationRules (runtime.listItem base.field.toFieldInfo item.2) violation) :
      ItemFound base items item (RepeatedValidationRules.placed runtime base message item.1 violation)

/-- A violation of the rules of an entry. The value rules set the field value of those of
the key again where they find one themselves. -/
inductive EntryFound (keyInfo valueInfo : FieldInfo) (keyRules valueRules : Option FieldRuleSet) (entry : Entry)
    (key : CelValue) : RuleViolation → Prop where
  | key {rules : FieldRuleSet} {violation : RuleViolation} (set : keyRules = some rules)
      (found : CelFound seen rules.base.toCelValidationRules key violation) :
      EntryFound keyInfo valueInfo keyRules valueRules entry key
        (MapValidationRules.keyPlaced runtime keyInfo entry violation)
  | crossed {rules : FieldRuleSet} {violation : RuleViolation} (set : keyRules = some rules)
      (found : CelFound seen rules.base.toCelValidationRules key violation) :
      EntryFound keyInfo valueInfo keyRules valueRules entry key
        ((MapValidationRules.keyPlaced runtime keyInfo entry violation).setFieldValue
          { message := .entry entry, descriptor := valueInfo })
  | value {rules : FieldRuleSet} {violation : RuleViolation} (set : valueRules = some rules)
      (found : CelFound seen rules.base.toCelValidationRules (runtime.mapValue valueInfo entry.value) violation) :
      EntryFound keyInfo valueInfo keyRules valueRules entry key
        ((MapValidationRules.rulePath runtime .values violation).setFieldValue
          { message := .entry entry, descriptor := valueInfo })

/-- A violation of one of the rules of a message. -/
inductive RuleFound : ValidationRules → RuleViolation → Prop where
  | message {cel : CelValidationRules} {violation : RuleViolation}
      (found : CelFound seen cel (runtime.createMessage message) violation) : RuleFound (.message cel) violation
  | messageOneof {fields : List FieldDescriptor} {required : Bool} {text : String} :
      RuleFound (.messageOneof fields required) { proto := { ruleId := "message.oneof", message := text } }
  | oneof {descriptor : OneofDescriptor} {required : Bool} {text : String} :
      RuleFound (.oneof descriptor required)
        { proto := { ruleId := "required", message := text, field := some [oneofPathElement descriptor] } }
  | field {rules : FieldRuleSet} {violation : RuleViolation} (found : FieldFound seen runtime message rules.base violation) :
      RuleFound (.field rules) violation
  | enum {base : FieldValidationRules} {rules : EnumRules} (only : rules.definedOnly = true)
      (undefined : base.field.enumNumbers.contains (message.getEnumValue base.field) = false) :
      RuleFound (.field (.enum base rules)) (EnumValidationRules.definedOnlyViolation runtime base rules message)
  | item {base : FieldValidationRules} {rules : FieldRuleSet} {item : Nat × Value} {violation : RuleViolation}
      (member : item ∈ RepeatedValidationRules.checked runtime base rules.base (message.elements base.field))
      (found : ItemFound seen runtime message base rules.base item violation) :
      RuleFound (.field (.repeated base (some rules))) violation
  | entry {base : FieldValidationRules} {keyRules valueRules : Option FieldRuleSet} {keyInfo valueInfo : FieldInfo}
      {valid : keyInfo.type.isMapKey = true} {keys : List CelValue} {entry : Entry} {key : CelValue}
      {violation : RuleViolation} (shape : base.field.shape = .map keyInfo valueInfo valid)
      (read : runtime.listKeys keyInfo ((message.entries base.field).map Entry.key) = .ok keys)
      (member : (entry, key) ∈ (message.entries base.field).zip keys)
      (found : EntryFound seen runtime keyInfo valueInfo keyRules valueRules entry key violation) :
      RuleFound (.field (.map base keyRules valueRules)) (entryPlaced base keyInfo valueInfo entry violation)

end Sources

section Cel

variable {seen runtime message}

theorem emplaceBackIf_adds (condition : Bool) (violation : RuleViolation) {okay : Unit → Prop} :
    Adds seen okay (fun recorded => condition = true ∧ recorded = violation) (emplaceBackIf condition violation) := by
  cases condition with
  | true => exact Adds.andThen (adds_add ⟨rfl, rfl⟩) fun _ => adds_note _
  | false => exact adds_pure _

/-- A violation that `ProcessRule` records is one of its expression. -/
theorem processRule_adds {cel : CelValidationRules} {expr : CompiledRule} {activation : Activation} {this : CelValue}
    {okay : Status → Prop} (member : expr ∈ cel.exprs) (bound : activation "this" = some this) :
    Adds seen okay (fun violation => CelFound seen cel this (cel.ruleValueOf expr violation))
      (processRule runtime activation expr) := by
  unfold processRule
  generalize runtime.evaluate expr.rule.expression activation = result
  rcases result with failure | value
  · exact (adds_pure _).noted fun _ _ fine => fine
  · cases value with
    | bool holds =>
      refine Adds.noted ((emplaceBackIf_adds (!holds) _).andThen fun _ => adds_pure _) fun evaluated violation recorded => ?_
      obtain ⟨fails, rfl⟩ := recorded
      exact .mk member evaluated (by simpa [verdict] using fails) bound
    | string text =>
      refine Adds.noted ((emplaceBackIf_adds (!text.isEmpty) _).andThen fun _ => adds_pure _) fun evaluated violation recorded => ?_
      obtain ⟨some, rfl⟩ := recorded
      exact .mk member evaluated (by simpa [verdict] using some) bound
    | _ => exact (adds_pure _).noted fun _ _ fine => fine

theorem bindRule_this {cel : CelValidationRules} (expr : CompiledRule) (activation : Activation) :
    cel.bindRule runtime expr activation "this" = activation "this" := by
  unfold CelValidationRules.bindRule
  cases cel.rules with
  | none => rfl
  | some rules =>
    cases expr.ruleField with
    | none => rfl
    | some field => simp [Activation.insertValue]

/-- The loop changes no binding but that of `rule`. -/
theorem celLoop_adds {cel : CelValidationRules} {exprs : List CompiledRule} {activation : Activation} {this : CelValue}
    {okay : Status × Activation → Prop} (members : ∀ expr ∈ exprs, expr ∈ cel.exprs) (bound : activation "this" = some this) :
    Adds seen okay (CelFound seen cel this) (cel.celLoop runtime exprs activation) := by
  induction exprs generalizing activation with
  | nil => exact adds_pure _
  | cons expr exprs ih =>
    have kept : cel.bindRule runtime expr activation "this" = some this := (bindRule_this expr activation).trans bound
    refine Adds.andThen ((processRule_adds (members expr (by simp)) kept).framed fun violation found => found) fun status =>
      (adds_exits status).andThen fun exit => ?_
    cases exit with
    | true => exact adds_pure _
    | false => exact ih (fun later member => members later (by simp [member])) (by simpa [Activation.removeValueEntry] using kept)

/-- Also where the rules fail in the end, what they have recorded is known. -/
theorem validateCel_adds (cel : CelValidationRules) {activation : Activation} {this : CelValue}
    {okay : Status × Activation → Prop} (bound : activation "this" = some this) :
    Adds seen okay (CelFound seen cel this) (cel.validateCel runtime activation) := by
  refine Adds.andThen (celLoop_adds (fun _ member => member) ?_) fun _ => adds_pure _
  simpa [Activation.insertValue] using bound

theorem validateAny_adds (any : AnyRules) (field : ProtoField) (anyMsg : Message) :
    Adds seen Succeeds (AnyFound runtime any field anyMsg) (FieldValidationRules.validateAny runtime any field anyMsg) := by
  unfold FieldValidationRules.validateAny
  cases named : anyMsg.descriptor.findFieldByName "type_url" with
  | none => exact adds_pure _
  | some typeUriField =>
    by_cases other : (typeUriField.type != .string) = true
    · simp only [other, ↓reduceIte]
      exact adds_pure _
    · have url : typeUrl anyMsg = some (FieldValidationRules.getString anyMsg typeUriField) := by
        simp only [typeUrl, named, if_neg other]
      simp only [if_neg other]
      refine ((emplaceBackIf_adds _ _).imp ?_).andThen fun _ => ((emplaceBackIf_adds _ _).imp ?_).andThen fun _ => adds_pure _
      · rintro violation ⟨fails, rfl⟩
        exact .missing url fails
      · rintro violation ⟨fails, rfl⟩
        exact .blocked url fails

end Cel

section Fields

variable {seen runtime message} {base : FieldValidationRules}

theorem validateThis_adds {value : CelValue} (shows : Shows runtime message base.field value) :
    Adds seen Succeeds (FieldFound seen runtime message base) (base.validateThis runtime message value) := by
  have cel : Adds seen (fun result => result.1 = .ok ()) (CelFound seen base.toCelValidationRules value)
      (base.validateCel runtime (Activation.empty.insertValue "this" value)) :=
    validateCel_adds _ (by simp [Activation.insertValue, Activation.empty])
  refine (cel.framedIf (fun result succeeds => ?_) fun violation found => .cel shows found).bind
    (fun _ => adds_pure _) fun _ _ _ succeeds => succeeds
  rw [succeeds]
  rfl

theorem required_adds (needs : base.required = true) (unpopulated : message.populates base.field = false) :
    Adds seen Succeeds (FieldFound seen runtime message base) (do
      emplaceBack (base.requiredViolation runtime message)
      pure (.ok ()) : RuleCheck Status) :=
  Adds.andThen (Adds.andThen (adds_add (.required needs unpopulated)) fun _ => adds_note _) fun _ => adds_pure _

theorem validateContainer_adds {isEmpty : Bool} {value : CelValue} (shows : Shows runtime message base.field value)
    (empty : isEmpty = true → message.populates base.field = false) :
    Adds seen Succeeds (FieldFound seen runtime message base) (base.validateContainer runtime message isEmpty value) := by
  unfold FieldValidationRules.validateContainer
  split
  · exact adds_pure _
  · split
    · rename_i missing
      obtain ⟨none, needs⟩ := Bool.and_eq_true_iff.mp missing
      exact required_adds needs (empty none)
    · exact validateThis_adds shows

theorem validateSingular_adds (singular : base.field.shape = .singular) :
    Adds seen Succeeds (FieldFound seen runtime message base) (base.validateSingular runtime message) := by
  unfold FieldValidationRules.validateSingular
  split
  · rename_i missing
    obtain ⟨none, needs⟩ := Bool.and_eq_true_iff.mp missing
    refine required_adds needs ?_
    simpa [Message.populates, singular] using none
  · split
    · exact adds_pure _
    · refine Adds.orFail ?_ ?_
      · unfold FieldValidationRules.validateSingleAny
        cases rules : base.anyRules with
        | none => exact adds_pure _
        | some any =>
          simp only
          split
          · exact (validateAny_adds any _ _).imp fun violation found => .any rules singular found
          · exact adds_pure _
      · unfold FieldValidationRules.validateSingleValue
        cases created : runtime.createValueFromSingleField base.field.toFieldInfo (message.single base.field) with
        | error failure => exact adds_pure _
        | ok value => exact validateThis_adds (by simpa [Shows, singular] using created)

theorem fieldValidate_adds : Adds seen Succeeds (FieldFound seen runtime message base) (base.validate runtime message) := by
  unfold FieldValidationRules.validate
  cases shape : base.field.shape with
  | singular => exact Adds.andThen (adds_note _) fun _ => validateSingular_adds shape
  | repeated =>
    refine validateContainer_adds ?_ fun empty => ?_
    · simp only [Shows, shape]
    · simpa [Message.populates, shape] using empty
  | map keyInfo valueInfo valid =>
    refine validateContainer_adds ?_ fun empty => ?_
    · simp only [Shows, shape]
    · simpa [Message.populates, shape] using empty

theorem enumValidate_adds (enumRules : EnumRules) :
    Adds seen Succeeds (RuleFound seen runtime message (.field (.enum base enumRules)))
      (EnumValidationRules.validate runtime base enumRules message) := by
  refine (fieldValidate_adds.imp fun violation found => .field found).orExit ?_
  unfold EnumValidationRules.validateDefinedOnly
  split
  · rename_i only
    refine Adds.andThen (adds_note _) fun _ => ((emplaceBackIf_adds _ _).imp ?_).andThen fun _ => adds_pure _
    rintro violation ⟨undefined, rfl⟩
    exact .enum only (by simpa using undefined)
  · exact adds_pure _

/-- The violations of the CEL rules stay where their error is lost. -/
theorem itemRound_adds (items : FieldValidationRules) (item : Nat × Value) :
    Adds seen Succeeds (ItemFound seen runtime message base items item)
      (RepeatedValidationRules.itemRound runtime base items message item) := by
  have inside : Adds seen Succeeds (fun violation => ItemFound seen runtime message base items item
      (RepeatedValidationRules.placed runtime base message item.1 violation))
      (RepeatedValidationRules.itemRules runtime base items message item) := by
    unfold RepeatedValidationRules.itemRules
    refine Adds.andThen ((validateCel_adds _ (by simp [Activation.insertValue, Activation.empty])).imp fun violation found =>
      .cel found) fun result => ?_
    cases rules : items.anyRules with
    | none => exact adds_pure _
    | some any => exact (validateAny_adds any _ _).imp fun violation found => .any rules found
  exact inside.framed fun violation found => found

theorem repeatedValidate_adds (itemRules : Option FieldRuleSet) :
    Adds seen Succeeds (RuleFound seen runtime message (.field (.repeated base itemRules)))
      (RepeatedValidationRules.validate runtime base message itemRules) := by
  refine (fieldValidate_adds.imp fun violation found => .field found).orExit ?_
  cases itemRules with
  | none => exact adds_pure _
  | some rules =>
    exact Adds.eachThen (fun item member => (itemRound_adds rules.base item).imp fun violation found => .item member found)
      (adds_pure _)

end Fields

section Entries

variable {seen runtime message} {base : FieldValidationRules} {keyInfo valueInfo : FieldInfo}
  {keyRules valueRules : Option FieldRuleSet} {entry : Entry} {key : CelValue} {activation : Activation}

/-- What the rules of the key leave for those of the value. -/
def KeyFound (seen : Event → Prop) (runtime : Runtime) (keyInfo : FieldInfo) (keyRules : Option FieldRuleSet)
    (entry : Entry) (key : CelValue) (violation : RuleViolation) : Prop :=
  ∃ rules inner, keyRules = some rules ∧ CelFound seen rules.base.toCelValidationRules key inner ∧
    violation = MapValidationRules.keyPlaced runtime keyInfo entry inner

/-- `this` is free for the next call. -/
def Frees (result : Except StatusError Activation) : Prop := ∀ left, result = .ok left → left "this" = none

theorem keyPart_adds (free : activation "this" = none) :
    Adds seen GoesOn (KeyFound seen runtime keyInfo keyRules entry key)
      (MapValidationRules.keyPart runtime keyInfo keyRules entry key activation) := by
  cases keyRules with
  | none => exact adds_pure _
  | some rules =>
    simp only [MapValidationRules.keyPart]
    split
    · exact adds_pure _
    · have cel : Adds seen (fun result => result.1 = .ok ()) (CelFound seen rules.base.toCelValidationRules key)
          (rules.base.validateCel runtime (activation.insertValue "this" key)) :=
        validateCel_adds _ (by simp [Activation.insertValue, free])
      refine Adds.bind (cel.framedIf (fun result succeeds => ?_) fun violation found => ⟨rules, violation, rfl, found, rfl⟩)
        (fun result => ?_) fun result failFast ctx goesOn => ?_
      · rw [succeeds]
        rfl
      · obtain ⟨status, left⟩ := result
        cases status with
        | error failure => exact adds_pure _
        | ok _ => exact adds_pure _
      · obtain ⟨status, left⟩ := result
        cases status with
        | error failure =>
          obtain ⟨_, impossible⟩ := goesOn
          cases impossible
        | ok _ => rfl

theorem keyPart_frees (free : activation "this" = none) :
    Returns Frees (MapValidationRules.keyPart runtime keyInfo keyRules entry key activation) := by
  intro failFast ctx left same
  cases calls : partCall keyRules key with
  | none =>
    rw [keyPart_none calls] at same
    cases same
    exact free
  | some call =>
    rw [keyPart_some calls, bind_apply] at same
    generalize (framedIf _ _ _ failFast ctx).1 = result at same
    obtain ⟨status, left'⟩ := result
    cases status with
    | error failure => cases same
    | ok _ =>
      cases same
      rfl

theorem valuePart_frees (free : activation "this" = none) (start : Nat) :
    Returns Frees (MapValidationRules.valuePart runtime valueInfo valueRules entry activation start) := by
  intro failFast ctx left same
  cases calls : partCall valueRules (runtime.mapValue valueInfo entry.value) with
  | none =>
    rw [valuePart_none calls] at same
    cases same
    exact free
  | some call =>
    rw [valuePart_some calls, bind_apply] at same
    generalize (grown _ failFast ctx).1 = result at same
    obtain ⟨⟨status, left'⟩, grew⟩ := result
    cases status with
    | error failure => cases same
    | ok _ =>
      cases grew with
      | false =>
        cases same
        rfl
      | true =>
        cases same
        rfl

/-- What the rules of the value record, before their field value is set. -/
def ValueFound (seen : Event → Prop) (runtime : Runtime) (valueInfo : FieldInfo) (valueRules : Option FieldRuleSet)
    (entry : Entry) (violation : RuleViolation) : Prop :=
  ∃ rules inner, valueRules = some rules ∧
    CelFound seen rules.base.toCelValidationRules (runtime.mapValue valueInfo entry.value) inner ∧
    violation = MapValidationRules.rulePath runtime .values inner

/-- Where the value rules have recorded a violation, those of the key are changed too. -/
theorem valueEnd_turns (status : Status) (left : Activation) :
    Turns seen GoesOn
      (fun violation => KeyFound seen runtime keyInfo keyRules entry key violation ∨
        ValueFound seen runtime valueInfo valueRules entry violation)
      (EntryFound seen runtime keyInfo valueInfo keyRules valueRules entry key)
      (fun start => MapValidationRules.valueEnd valueInfo entry start status left true) := by
  cases status with
  | error failure =>
    refine turns_failed ?_
    rintro ⟨_, impossible⟩
    cases impossible
  | ok _ =>
    refine turns_edit ?_ (adds_pure _)
    rintro violation (⟨rules, inner, set, found, rfl⟩ | ⟨rules, inner, set, found, rfl⟩)
    · exact .crossed set found
    · exact .value set found

theorem valuePart_turns (free : activation "this" = none) :
    Turns seen GoesOn (KeyFound seen runtime keyInfo keyRules entry key)
      (EntryFound seen runtime keyInfo valueInfo keyRules valueRules entry key)
      (fun start => MapValidationRules.valuePart runtime valueInfo valueRules entry activation start) := by
  have alone (violation : RuleViolation) (found : KeyFound seen runtime keyInfo keyRules entry key violation) :
      EntryFound seen runtime keyInfo valueInfo keyRules valueRules entry key violation := by
    obtain ⟨rules, inner, set, found, rfl⟩ := found
    exact .key set found
  cases valueRules with
  | none => exact (adds_pure _).turns alone
  | some rules =>
    simp only [MapValidationRules.valuePart]
    split
    · exact (adds_pure _).turns alone
    · have cel : Adds seen (fun result => result.1 = .ok ())
          (CelFound seen rules.base.toCelValidationRules (runtime.mapValue valueInfo entry.value))
          (rules.base.validateCel runtime (activation.insertValue "this" (runtime.mapValue valueInfo entry.value))) :=
        validateCel_adds _ (by simp [Activation.insertValue, free])
      have framed : Adds seen (fun result => result.1 = .ok ()) (ValueFound seen runtime valueInfo (some rules) entry)
          (framedIf (fun result => result.1.isOk) (MapValidationRules.rulePath runtime .values)
            (rules.base.validateCel runtime (activation.insertValue "this" (runtime.mapValue valueInfo entry.value)))) := by
        refine cel.framedIf (fun result succeeds => ?_) fun violation found => ⟨rules, violation, rfl, found, rfl⟩
        rw [succeeds]
        rfl
      refine framed.grownThen (fun result => valueEnd_turns result.1 result.2) (fun result => ?_) fun start result failFast ctx goesOn => ?_
      · obtain ⟨status, left⟩ := result
        cases status with
        | error failure =>
          refine turns_failed ?_
          rintro ⟨_, impossible⟩
          cases impossible
        | ok _ => exact (adds_pure _).turns alone
      · obtain ⟨⟨status, left⟩, grew⟩ := result
        cases status with
        | error failure =>
          obtain ⟨_, impossible⟩ := goesOn
          cases impossible
        | ok _ => rfl

theorem entryRules_turns (free : activation "this" = none) :
    Turns seen GoesOn (fun _ => False) (EntryFound seen runtime keyInfo valueInfo keyRules valueRules entry key)
      (fun start => MapValidationRules.entryRules runtime keyInfo valueInfo keyRules valueRules entry key activation start) := by
  refine Turns.bindOf ((keyPart_adds free).turns fun _ impossible => impossible.elim) (fun _ => keyPart_frees free)
    (fun result frees => ?_) fun start result failFast ctx goesOn => ?_
  · cases result with
    | error failure =>
      refine turns_failed ?_
      rintro ⟨_, impossible⟩
      cases impossible
    | ok left => exact valuePart_turns (frees left rfl)
  · cases result with
    | error failure =>
      obtain ⟨_, impossible⟩ := goesOn
      cases impossible
    | ok left => exact ⟨left, rfl⟩

theorem entryRules_frees (free : activation "this" = none) (start : Nat) :
    Returns Frees (MapValidationRules.entryRules runtime keyInfo valueInfo keyRules valueRules entry key activation start) := by
  intro failFast ctx
  have frees := @keyPart_frees runtime keyInfo keyRules entry key activation free failFast ctx
  rw [MapValidationRules.entryRules, bind_apply]
  generalize (MapValidationRules.keyPart runtime keyInfo keyRules entry key activation failFast ctx).1 = result at frees ⊢
  cases result with
  | error failure =>
    intro left same
    cases same
  | ok left => exact valuePart_frees (frees left rfl) start failFast _

/-- Rounds that do not fail. -/
def RoundGoesOn : Status ⊕ Activation → Prop
  | .inl status => status = .ok ()
  | .inr _ => True

theorem entryEnd_turns (valid : keyInfo.type.isMapKey = true) (left : Activation) :
    Turns seen RoundGoesOn (EntryFound seen runtime keyInfo valueInfo keyRules valueRules entry key)
      (fun violation => ∃ inner, EntryFound seen runtime keyInfo valueInfo keyRules valueRules entry key inner ∧
        violation = entryPlaced base keyInfo valueInfo entry inner)
      (fun start => MapValidationRules.entryEnd base keyInfo valueInfo entry left start true) := by
  simp only [MapValidationRules.entryEnd, setPathElementMapKey_eq valid, ↓reduceIte]
  refine turns_edit (fun violation found => ⟨violation, found, rfl⟩) (adds_failsFast.andThen fun exit => ?_)
  cases exit with
  | true => exact adds_pure _
  | false => exact adds_pure _

theorem entryRound_adds (valid : keyInfo.type.isMapKey = true) (free : activation "this" = none) :
    Adds seen RoundGoesOn
      (fun violation => ∃ inner, EntryFound seen runtime keyInfo valueInfo keyRules valueRules entry key inner ∧
        violation = entryPlaced base keyInfo valueInfo entry inner)
      (MapValidationRules.entryRound runtime base keyInfo valueInfo keyRules valueRules entry key activation) := by
  refine (entryRules_turns free).scopeGrown (fun result => ?_) (fun result => ?_) fun start result failFast ctx goesOn => ?_
  · cases result with
    | error failure =>
      refine turns_failed fun impossible => ?_
      cases impossible
    | ok left => exact entryEnd_turns valid left
  · cases result with
    | error failure =>
      refine turns_failed fun impossible => ?_
      cases impossible
    | ok left => exact (adds_pure _).turns fun _ impossible => impossible.elim
  · obtain ⟨result, grew⟩ := result
    cases result with
    | error failure => cases goesOn
    | ok left => exact ⟨left, rfl⟩

theorem entryRound_frees (free : activation "this" = none) :
    Returns (fun result => ∀ left, result = .inr left → left "this" = none)
      (MapValidationRules.entryRound runtime base keyInfo valueInfo keyRules valueRules entry key activation) := by
  intro failFast ctx left same
  have frees := @entryRules_frees runtime keyInfo valueInfo keyRules valueRules entry key activation free ctx.entries.length
    failFast ctx
  rw [MapValidationRules.entryRound, scope, bind_apply] at same
  simp only [grown] at same
  generalize MapValidationRules.entryRules runtime keyInfo valueInfo keyRules valueRules entry key activation
    ctx.entries.length failFast ctx = ended at frees same
  obtain ⟨result, after⟩ := ended
  cases result with
  | error failure => cases same
  | ok left' =>
    refine (?_ : left' = left) ▸ frees left' rfl
    generalize decide (after.entries.length > ctx.entries.length) = grew at same
    cases grew with
    | false =>
      cases same
      rfl
    | true =>
      simp only [MapValidationRules.entryEnd, ↓reduceIte] at same
      generalize setPathElementMapKey (fieldPathElement base.field.toFieldInfo) entry keyInfo valueInfo = placed at same
      cases placed with
      | error failure => cases same
      | ok element =>
        cases failFast with
        | true => cases same
        | false =>
          cases same
          rfl

/-- The rules of the entries find nothing that is not about one of them. -/
theorem entryLoop_adds (valid : keyInfo.type.isMapKey = true) (entries : List (Entry × CelValue))
    (free : activation "this" = none) :
    Adds seen Succeeds
      (fun violation => ∃ entry ∈ entries, ∃ inner,
        EntryFound seen runtime keyInfo valueInfo keyRules valueRules entry.1 entry.2 inner ∧
          violation = entryPlaced base keyInfo valueInfo entry.1 inner)
      (MapValidationRules.entryLoop runtime base keyInfo valueInfo keyRules valueRules entries activation) := by
  induction entries generalizing activation with
  | nil => exact adds_pure _
  | cons entry entries ih =>
    obtain ⟨entry, key⟩ := entry
    refine Adds.bindOf ((entryRound_adds valid free).imp fun violation found => ⟨_, List.mem_cons_self .., found⟩)
      (entryRound_frees free) (fun result frees => ?_) fun result failFast ctx succeeds => ?_
    · cases result with
      | inl status => exact adds_pure _
      | inr left =>
        refine (ih (frees left rfl)).imp ?_
        rintro violation ⟨later, member, found⟩
        exact ⟨later, List.mem_cons_of_mem _ member, found⟩
    · cases result with
      | inl status => exact succeeds
      | inr left => exact trivial

theorem mapValidate_adds :
    Adds seen Succeeds (RuleFound seen runtime message (.field (.map base keyRules valueRules)))
      (MapValidationRules.validate runtime base keyRules valueRules message) := by
  refine (fieldValidate_adds.imp fun violation found => .field found).orFail ?_
  unfold MapValidationRules.validateEntries
  split
  · exact adds_pure _
  · cases shape : base.field.shape with
    | map keyInfo valueInfo valid =>
      simp only
      cases read : runtime.listKeys keyInfo ((message.entries base.field).map Entry.key) with
      | error failure => exact adds_pure _
      | ok keys =>
        refine (entryLoop_adds valid _ rfl).imp ?_
        rintro violation ⟨⟨entry, key⟩, member, inner, found, rfl⟩
        exact .entry shape read member found
    | _ => exact adds_pure _

end Entries

section Rules

variable {seen runtime message}

theorem messageOneof_adds (fields : List FieldDescriptor) (required : Bool) :
    Adds seen Succeeds (RuleFound seen runtime message (.messageOneof fields required))
      (MessageOneofValidationRules.validate fields required message) := by
  have count : Adds seen (fun _ => True) (RuleFound seen runtime message (.messageOneof fields required))
      (MessageOneofValidationRules.hasCount message fields) := by
    have quiet (listed : List FieldDescriptor) : Adds seen (fun _ => True)
        (RuleFound seen runtime message (.messageOneof fields required)) (MessageOneofValidationRules.hasCount message listed) := by
      induction listed with
      | nil => exact adds_pure _
      | cons field listed ih => exact Adds.andThen (adds_note _) fun _ => ih.andThen fun _ => adds_pure _
    exact quiet fields
  refine count.andThen fun _ => ((emplaceBackIf_adds _ _).imp ?_).andThen fun _ =>
    ((emplaceBackIf_adds _ _).imp ?_).andThen fun _ => adds_pure _
  · rintro violation ⟨-, rfl⟩
    exact .messageOneof
  · rintro violation ⟨-, rfl⟩
    exact .messageOneof

/-- Every violation that a rule records is accounted for by the rule. -/
theorem rulesValidate_adds (rules : ValidationRules) :
    Adds seen Succeeds (RuleFound seen runtime message rules) (rules.validate runtime message) := by
  cases rules with
  | message cel =>
    refine Adds.andThen ((validateCel_adds cel ?_).imp fun violation found => .message found) fun _ => adds_pure _
    simp [Activation.insertValue, Activation.empty]
  | messageOneof fields required => exact messageOneof_adds fields required
  | oneof descriptor required =>
    refine ((emplaceBackIf_adds _ _).imp ?_).andThen fun _ => adds_pure _
    rintro violation ⟨-, rfl⟩
    exact .oneof
  | field rules =>
    cases rules with
    | field base => exact fieldValidate_adds.imp fun violation found => .field found
    | enum base enumRules => exact enumValidate_adds enumRules
    | repeated base itemRules => exact repeatedValidate_adds itemRules
    | map base keyRules valueRules => exact mapValidate_adds

end Rules
end Protovalidate.Validate
