import Protovalidate.Validate.Parts

/-! The paths of the violations that the parts of a rule add. -/

namespace Protovalidate.Validate

open Foundation Check

variable (runtime : Runtime)

section Pathless

/-- The violations of CEL rules get their path from the frame around them. -/
abbrev Pathless (violation : RuleViolation) : Prop := violation.proto.field = none

theorem maintains_emplaceBack {fits : RuleViolation → Prop} {violation : RuleViolation} (fitting : fits violation) :
    Maintains fits (emplaceBack violation) :=
  Maintains.bind (maintains_add fitting) fun _ => maintains_note _

theorem maintains_emplaceBackIf {fits : RuleViolation → Prop} {condition : Bool} {violation : RuleViolation}
    (fitting : fits violation) : Maintains fits (emplaceBackIf condition violation) := by
  cases condition with
  | true => exact maintains_emplaceBack fitting
  | false => exact maintains_pure ()

theorem processRule_pathless (activation : Activation) (expr : CompiledRule) :
    Maintains Pathless (processRule runtime activation expr) := by
  refine Maintains.bind (maintains_note _) fun _ => ?_
  split
  · exact maintains_pure _
  · exact Maintains.bind (maintains_emplaceBackIf rfl) fun _ => maintains_pure _
  · exact Maintains.bind (maintains_emplaceBackIf rfl) fun _ => maintains_pure _
  · exact maintains_pure _
  · exact maintains_pure _

theorem ruleValueOf_pathless (self : CelValidationRules) (expr : CompiledRule) (violation : RuleViolation)
    (pathless : Pathless violation) : Pathless (self.ruleValueOf expr violation) := by
  unfold CelValidationRules.ruleValueOf
  split
  · exact pathless
  · exact pathless

theorem celLoop_pathless (self : CelValidationRules) (exprs : List CompiledRule) (activation : Activation) :
    Maintains Pathless (self.celLoop runtime exprs activation) := by
  induction exprs generalizing activation with
  | nil => exact maintains_pure _
  | cons expr exprs ih =>
    refine Maintains.bind ((processRule_pathless runtime _ expr).framedIf _ (ruleValueOf_pathless self expr))
      fun status => Maintains.bind (maintains_exits status) fun exit => ?_
    cases exit with
    | true => exact maintains_pure _
    | false => exact ih _

theorem validateCel_pathless (self : CelValidationRules) (activation : Activation) :
    Maintains Pathless (self.validateCel runtime activation) :=
  Maintains.bind (celLoop_pathless runtime self _ _) fun _ => maintains_pure _

/-- The path of a violation of `ValidateAny`, which items get from their frame. -/
def anyPlace (field : ProtoField) : Option FieldPathElement :=
  if field.index.isNone then some (fieldPathElement field.descriptor) else none

/-- The violations that a part places itself. -/
abbrev PlacedAt (place : Option FieldPathElement) (violation : RuleViolation) : Prop :=
  violation.proto.field = place.map fun element => [element]

theorem anyViolation_placed (ruleId text : String) (name : RuleFieldName) (any : AnyRules) (field : ProtoField) :
    PlacedAt (anyPlace field) (FieldValidationRules.anyViolation runtime ruleId text name any field) := by
  cases index : field.index with
  | none => simp [PlacedAt, anyPlace, FieldValidationRules.anyViolation, index]
  | some position => simp [PlacedAt, anyPlace, FieldValidationRules.anyViolation, index]

theorem validateAny_placed (any : AnyRules) (field : ProtoField) (anyMsg : Message) :
    Maintains (PlacedAt (anyPlace field)) (FieldValidationRules.validateAny runtime any field anyMsg) := by
  unfold FieldValidationRules.validateAny
  split
  · exact maintains_pure _
  · split
    · exact maintains_pure _
    · exact Maintains.bind (maintains_emplaceBackIf (anyViolation_placed runtime _ _ _ any field)) fun _ =>
        Maintains.bind (maintains_emplaceBackIf (anyViolation_placed runtime _ _ _ any field)) fun _ => maintains_pure _

variable (keyInfo valueInfo : FieldInfo) (keyRules valueRules : Option FieldRuleSet)

theorem rulePath_pathless (name : RuleFieldName) (violation : RuleViolation) (pathless : Pathless violation) :
    Pathless (MapValidationRules.rulePath runtime name violation) := pathless

theorem keyPart_pathless (entry : Entry) (key : CelValue) (activation : Activation) :
    Maintains Pathless (MapValidationRules.keyPart runtime keyInfo keyRules entry key activation) := by
  cases keyRules with
  | none => exact maintains_pure _
  | some rules =>
    simp only [MapValidationRules.keyPart]
    split
    · exact maintains_pure _
    · refine Maintains.bind ((validateCel_pathless runtime _ _).framedIf _ fun _ pathless => pathless) fun result => ?_
      obtain ⟨status, left⟩ := result
      cases status with
      | error failure => exact maintains_pure _
      | ok _ => exact maintains_pure _

theorem valuePart_pathless (entry : Entry) (activation : Activation) (start : Nat) :
    Maintains Pathless (MapValidationRules.valuePart runtime valueInfo valueRules entry activation start) := by
  cases valueRules with
  | none => exact maintains_pure _
  | some rules =>
    simp only [MapValidationRules.valuePart]
    split
    · exact maintains_pure _
    · have framed := (validateCel_pathless runtime rules.base.toCelValidationRules
        (activation.insertValue "this" (runtime.mapValue valueInfo entry.value))).framedIf (fun result => result.1.isOk)
        (rulePath_pathless runtime .values)
      refine Maintains.bind framed.grown fun result => ?_
      obtain ⟨⟨status, left⟩, grew⟩ := result
      cases status with
      | error failure => exact maintains_pure _
      | ok _ =>
        cases grew with
        | false => exact maintains_pure _
        | true => exact Maintains.bind (maintains_edit _ fun _ pathless => pathless) fun _ => maintains_pure _

theorem entryRules_pathless (entry : Entry) (key : CelValue) (activation : Activation) (start : Nat) :
    Maintains Pathless
      (MapValidationRules.entryRules runtime keyInfo valueInfo keyRules valueRules entry key activation start) := by
  refine Maintains.bind (keyPart_pathless runtime _ _ _ _ _) fun result => ?_
  cases result with
  | error failure => exact maintains_pure _
  | ok left => exact valuePart_pathless runtime _ _ _ _ _

end Pathless

section Located

variable {runtime} {message : Message}

/-- The violations of a check that succeeds have this path. -/
abbrev Located (place : Option FieldPathElement) (part : RuleCheck Status) : Prop :=
  Yields (PlacedAt place) part

theorem appended_located {violation : RuleViolation} (pathless : Pathless violation) (element : FieldPathElement) :
    (violation.appendFieldPathElement element).proto.field = some [element] := by
  simp only [RuleViolation.appendFieldPathElement]
  rw [show violation.proto.field = none from pathless]
  rfl

variable (self : FieldValidationRules)

theorem validateThis_located (value : CelValue) :
    Located (some (fieldPathElement self.field.toFieldInfo)) (self.validateThis runtime message value) := by
  intro succeeds violation member
  have run : alone (self.validateThis runtime message value) = (fun result : (Status × Activation) × RuleContext =>
      (result.1.1, result.2)) (alone (framedIf (fun result => result.1.isOk) (self.placed message)
        (self.validateCel runtime (Activation.empty.insertValue "this" value)))) := rfl
  rw [run, alone_framedIf] at succeeds member
  simp only at succeeds member
  rw [succeeds] at member
  obtain ⟨inner, found, rfl⟩ := List.mem_map.mp member
  exact appended_located ((validateCel_pathless runtime _ _).alone inner found) _

theorem requiredViolation_placed :
    PlacedAt (some (fieldPathElement self.field.toFieldInfo)) (self.requiredViolation runtime message) := rfl

theorem required_located : Located (some (fieldPathElement self.field.toFieldInfo)) (do
    emplaceBack (self.requiredViolation runtime message)
    pure (.ok ()) : RuleCheck Status) :=
  (Maintains.bind (maintains_emplaceBack (requiredViolation_placed self)) fun _ => maintains_pure _).yields

theorem validateContainer_located (isEmpty : Bool) (value : CelValue) :
    Located (some (fieldPathElement self.field.toFieldInfo)) (self.validateContainer runtime message isEmpty value) := by
  unfold FieldValidationRules.validateContainer
  split
  · exact (maintains_pure _).yields
  · split
    · exact required_located self
    · exact validateThis_located self value

theorem singular_located :
    Located (some (fieldPathElement self.field.toFieldInfo)) (self.validateSingular runtime message) := by
  unfold FieldValidationRules.validateSingular
  split
  · exact required_located self
  · split
    · exact (maintains_pure _).yields
    · refine Yields.orFail ?_ ?_ (singleValue_steady runtime self message)
      · unfold FieldValidationRules.validateSingleAny
        split
        · exact (maintains_pure _).yields
        · split
          · exact (validateAny_placed runtime _ _ _).yields
          · exact (maintains_pure _).yields
      · unfold FieldValidationRules.validateSingleValue
        cases runtime.createValueFromSingleField self.field.toFieldInfo (message.single self.field) with
        | error failure => exact (maintains_pure _).yields
        | ok value => exact validateThis_located self value

theorem fieldValidate_located :
    Located (some (fieldPathElement self.field.toFieldInfo)) (self.validate runtime message) := by
  unfold FieldValidationRules.validate
  split
  · exact validateContainer_located self _ _
  · exact validateContainer_located self _ _
  · exact Yields.bind (maintains_note _) (fun _ => singular_located self) fun _ =>
      singular_steady runtime self message

theorem definedOnlyViolation_placed (base : FieldValidationRules) (enumRules : EnumRules) :
    PlacedAt (some (fieldPathElement base.field.toFieldInfo))
      (EnumValidationRules.definedOnlyViolation runtime base enumRules message) := rfl

theorem enumValidate_located (base : FieldValidationRules) (enumRules : EnumRules) :
    Located (some (fieldPathElement base.field.toFieldInfo))
      (EnumValidationRules.validate runtime base enumRules message) := by
  refine (fieldValidate_located base).orExit ?_ (definedOnly_steady runtime base message enumRules)
  unfold EnumValidationRules.validateDefinedOnly
  split
  · exact (Maintains.bind (maintains_note _) fun _ =>
      Maintains.bind (maintains_emplaceBackIf (definedOnlyViolation_placed base enumRules)) fun _ => maintains_pure _).yields
  · exact (maintains_pure _).yields

theorem itemRules_pathless (base items : FieldValidationRules) (item : Nat × Value) :
    Maintains Pathless (RepeatedValidationRules.itemRules runtime base items message item) := by
  refine Maintains.bind (validateCel_pathless runtime _ _) fun result => ?_
  cases items.anyRules with
  | none => exact maintains_pure _
  | some any =>
    exact validateAny_placed runtime any
      { message := .message message, descriptor := base.field.toFieldInfo, index := some item.1 } _

theorem itemRound_located (base items : FieldValidationRules) (item : Nat × Value) :
    Located (some ((fieldPathElement base.field.toFieldInfo).setIndex item.1))
      (RepeatedValidationRules.itemRound runtime base items message item) := by
  intro _ violation member
  rw [RepeatedValidationRules.itemRound, alone_framed] at member
  obtain ⟨inner, found, rfl⟩ := List.mem_map.mp member
  exact appended_located ((itemRules_pathless base items item).alone inner found) _

theorem entryCheck_located (base : FieldValidationRules) {keyInfo valueInfo : FieldInfo}
    (valid : keyInfo.type.isMapKey = true) (keyRules valueRules : Option FieldRuleSet) (entry : Entry × CelValue) :
    Located (some (entryPathElement base.field.toFieldInfo keyInfo valueInfo entry.1.key))
      (entryCheck runtime base keyInfo valueInfo keyRules valueRules entry) := by
  intro succeeds violation member
  have inside := (entryRules_pathless runtime keyInfo valueInfo keyRules valueRules entry.1 entry.2
    Activation.empty 0).alone
  rw [alone_entryCheck runtime _ _ _ _ _ valid] at succeeds member
  match run : alone (MapValidationRules.entryRules runtime keyInfo valueInfo keyRules valueRules entry.1 entry.2
    Activation.empty 0) with
  | (.error failure, ctx) =>
    rw [run] at succeeds
    cases succeeds
  | (.ok _, ctx) =>
    rw [run] at member inside
    obtain ⟨inner, found, rfl⟩ := List.mem_map.mp member
    exact appended_located (inside inner found) _

theorem entryParts_located {base : FieldValidationRules} {keyRules valueRules : Option FieldRuleSet} {part : RulePart}
    (member : part ∈ entryParts runtime message base keyRules valueRules) : Located part.place part.check := by
  refine entryParts_forall (fun part => Located part.place part.check) ?unread ?each member
  case unread =>
    intro failure
    exact (maintains_pure _).yields
  case each =>
    intro keyInfo valueInfo valid entry
    exact entryCheck_located base valid keyRules valueRules entry

theorem hasCount_maintains (fits : RuleViolation → Prop) (fields : List FieldDescriptor) :
    Maintains fits (MessageOneofValidationRules.hasCount message fields) := by
  induction fields with
  | nil => exact maintains_pure _
  | cons field fields ih =>
    exact Maintains.bind (maintains_note _) fun _ => Maintains.bind ih fun _ => maintains_pure _

theorem messageOneof_pathless (fields : List FieldDescriptor) (required : Bool) :
    Maintains Pathless (MessageOneofValidationRules.validate fields required message) := by
  refine Maintains.bind (hasCount_maintains _ fields) fun count => ?_
  refine Maintains.bind (maintains_emplaceBackIf ?_) fun _ => Maintains.bind (maintains_emplaceBackIf ?_) fun _ => maintains_pure _
  · exact rfl
  · exact rfl

theorem oneof_placed (descriptor : OneofDescriptor) (required : Bool) :
    Maintains (PlacedAt (some (oneofPathElement descriptor)))
      (OneofValidationRules.validate descriptor required message) := by
  refine Maintains.bind (maintains_emplaceBackIf ?_) fun _ => maintains_pure _
  exact rfl

/-- Every part of a rule puts its violations where they belong. -/
theorem ruleParts_located {rules : ValidationRules} {part : RulePart} (member : part ∈ ruleParts runtime message rules) :
    Located part.place part.check := by
  cases rules with
  | message rules =>
    cases List.mem_singleton.mp member
    exact (Maintains.bind (validateCel_pathless runtime _ _) fun _ => maintains_pure _).yields
  | messageOneof fields required =>
    cases List.mem_singleton.mp member
    exact (messageOneof_pathless fields required).yields
  | oneof descriptor required =>
    cases List.mem_singleton.mp member
    exact (oneof_placed descriptor required).yields
  | field rules =>
    cases rules with
    | field base =>
      cases List.mem_singleton.mp member
      exact fieldValidate_located base
    | enum base enumRules =>
      cases List.mem_singleton.mp member
      exact enumValidate_located base enumRules
    | repeated base itemRules =>
      rcases List.mem_cons.mp member with rfl | inItems
      · exact fieldValidate_located base
      · cases itemRules with
        | none => cases inItems
        | some rules =>
          obtain ⟨item, _, rfl⟩ := List.mem_map.mp inItems
          exact itemRound_located base rules.base item
    | map base keyRules valueRules =>
      rcases List.mem_cons.mp member with rfl | inEntries
      · exact fieldValidate_located base
      · exact entryParts_located inEntries

end Located
end Protovalidate.Validate
