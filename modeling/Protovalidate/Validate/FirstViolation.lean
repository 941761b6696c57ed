import Protovalidate.Foundation.FailFast
import Protovalidate.Validate.Changes
import Protovalidate.Validate.Parts
import Protovalidate.Validate.PlainRuntime

/-! A run that fails fast and one that does not, of the same message: they find
the same first violation. -/

namespace Protovalidate.Validate

open Foundation Check

variable (runtime : Runtime)

/-- The part of a violation that is compared. -/
abbrev Agreeing {β : Type} (okay : β → Prop) (part : RuleCheck β) : Prop := Agrees RuleViolation.proto okay part

section Recording

theorem modeless_emplaceBack (violation : RuleViolation) : Modeless (emplaceBack violation) :=
  (modeless_add violation).bind fun _ => modeless_note _

theorem modeless_emplaceBackIf (condition : Bool) (violation : RuleViolation) :
    Modeless (emplaceBackIf condition violation) := by
  cases condition with
  | true => exact modeless_emplaceBack violation
  | false => exact modeless_pure ()

end Recording

section Cel

variable (self : CelValidationRules) (activation : Activation)

theorem processRule_modeless (expr : CompiledRule) : Modeless (processRule runtime activation expr) := by
  refine (modeless_note _).bind fun _ => ?_
  split
  · exact modeless_pure _
  · exact (modeless_emplaceBackIf _ _).bind fun _ => modeless_pure _
  · exact (modeless_emplaceBackIf _ _).bind fun _ => modeless_pure _
  · exact modeless_pure _
  · exact modeless_pure _

/-- The first violation of the loop is there whatever comes behind it. -/
theorem celLoop_agrees (exprs : List CompiledRule) :
    Agreeing (fun _ => True) (self.celLoop runtime exprs activation) := by
  induction exprs generalizing activation with
  | nil => exact agrees_pure _
  | cons expr exprs ih =>
    have round : Agreeing (fun _ => True) (framed (self.ruleValueOf expr)
        (processRule runtime (self.bindRule runtime expr activation) expr)) :=
      (processRule_modeless runtime _ expr).agrees.framed (ruleValueOf_uniform self expr)
    exact round.exiting (ih _) (celLoop_steady runtime self _ exprs).keepsHead trivial fun _ _ => trivial

theorem validateCel_agrees : Agreeing (fun _ => True) (self.validateCel runtime activation) :=
  (celLoop_agrees runtime self _ _).bind (fun _ => agrees_pure _) (fun _ => (steady_pure _).keepsHead)
    fun _ _ _ _ => trivial

end Cel

section Fields

variable (self base items : FieldValidationRules) (message : Message)

theorem validateAny_modeless (any : AnyRules) (field : ProtoField) (anyMsg : Message) :
    Modeless (FieldValidationRules.validateAny runtime any field anyMsg) := by
  unfold FieldValidationRules.validateAny
  split
  · exact modeless_pure _
  · split
    · exact modeless_pure _
    · exact (modeless_emplaceBackIf _ _).bind fun _ => (modeless_emplaceBackIf _ _).bind fun _ => modeless_pure _

theorem succeeds_isOk (result : Status × Activation) (succeeds : Succeeds result.1) : result.1.isOk = true := by
  rw [show result.1 = .ok () from succeeds]
  rfl

theorem validateThis_agrees (value : CelValue) : Agreeing Succeeds (self.validateThis runtime message value) := by
  have inside : Agreeing (fun result => Succeeds result.1) (self.validateCel runtime
      (Activation.empty.insertValue "this" value)) := (validateCel_agrees runtime _ _).mono fun _ _ => trivial
  refine (inside.framedIf _ (placed_uniform self message message) succeeds_isOk).bind (fun _ => agrees_pure _)
    (fun _ => (steady_pure _).keepsHead) fun _ _ _ succeeds => succeeds

theorem required_agrees : Agreeing Succeeds (do
    emplaceBack (self.requiredViolation runtime message)
    pure (.ok ()) : RuleCheck Status) := ((modeless_emplaceBack _).bind fun _ => modeless_pure _).agrees

theorem validateContainer_agrees (isEmpty : Bool) (value : CelValue) :
    Agreeing Succeeds (self.validateContainer runtime message isEmpty value) := by
  unfold FieldValidationRules.validateContainer
  split
  · exact agrees_pure _
  · split
    · exact required_agrees runtime self message
    · exact validateThis_agrees runtime self message value

theorem singleValue_agrees : Agreeing Succeeds (self.validateSingleValue runtime message) := by
  unfold FieldValidationRules.validateSingleValue
  split
  · exact agrees_pure _
  · exact validateThis_agrees runtime self message _

theorem singular_agrees : Agreeing Succeeds (self.validateSingular runtime message) := by
  unfold FieldValidationRules.validateSingular
  split
  · exact required_agrees runtime self message
  · split
    · exact agrees_pure _
    · refine Agrees.orFail ?_ (singleValue_agrees runtime self message) (singleValue_steady runtime self message)
      unfold FieldValidationRules.validateSingleAny
      split
      · exact agrees_pure _
      · split
        · exact (validateAny_modeless runtime _ _ _).agrees
        · exact agrees_pure _

theorem fieldValidate_agrees : Agreeing Succeeds (self.validate runtime message) := by
  unfold FieldValidationRules.validate
  split
  · exact validateContainer_agrees runtime self message _ _
  · exact validateContainer_agrees runtime self message _ _
  · have noted : Agreeing (fun _ => True) (note (.hasField self.field)) := (modeless_note _).agrees
    exact noted.bind (fun _ => singular_agrees runtime self message)
      (fun _ => (singular_steady runtime self message).keepsHead) fun _ _ _ _ => trivial

theorem definedOnly_modeless (enumRules : EnumRules) :
    Modeless (EnumValidationRules.validateDefinedOnly runtime base enumRules message) := by
  unfold EnumValidationRules.validateDefinedOnly
  split
  · exact (modeless_note _).bind fun _ => (modeless_emplaceBackIf _ _).bind fun _ => modeless_pure _
  · exact modeless_pure _

theorem itemRules_agrees (item : Nat × Value) :
    Agreeing Succeeds (RepeatedValidationRules.itemRules runtime base items message item) := by
  refine (validateCel_agrees runtime _ _).bind (fun result => ?_) (fun result => ?_) fun _ _ _ _ => trivial
  · cases items.anyRules with
    | none => exact agrees_pure _
    | some any => exact (validateAny_modeless runtime _ _ _).agrees
  · cases items.anyRules with
    | none => exact (steady_pure _).keepsHead
    | some any => exact (validateAny_steady runtime _ _ _).keepsHead

theorem repeatedValidate_agrees (itemRules : Option FieldRuleSet) :
    Agreeing Succeeds (RepeatedValidationRules.validate runtime base message itemRules) := by
  refine (fieldValidate_agrees runtime base message).orExit ?_ ?_
  · cases itemRules with
    | none => exact agrees_pure _
    | some rules =>
      exact Agrees.eachThen
        (fun item _ => (itemRules_agrees runtime base rules.base message item).framed
          (itemPlaced_uniform base message message runtime item.1))
        (fun item _ => itemRound_steady runtime base rules.base message item) (agrees_pure _) (steady_pure _)
  · cases itemRules with
    | none => exact (steady_pure _).keepsHead
    | some rules =>
      exact (Steady.eachThen (fun item _ => itemRound_steady runtime base rules.base message item)
        (steady_pure _)).keepsHead

end Fields

section Maps

variable (base : FieldValidationRules) (keyInfo valueInfo : FieldInfo) (keyRules valueRules : Option FieldRuleSet)

abbrev Continues (result : Except StatusError Activation) : Prop := result.isOk = true

theorem entryPlaced_uniform (entry : Entry) :
    Uniform (entryPlaced base keyInfo valueInfo entry) (entryPlaced base keyInfo valueInfo entry) :=
  appended_uniform _

theorem keyPart_agrees (entry : Entry) (key : CelValue) (activation : Activation) :
    Agreeing Continues (MapValidationRules.keyPart runtime keyInfo keyRules entry key activation) := by
  cases keyRules with
  | none => exact agrees_pure _
  | some rules =>
    simp only [MapValidationRules.keyPart]
    split
    · exact agrees_pure _
    · have inside : Agreeing (fun result => Succeeds result.1) (rules.base.validateCel runtime
          (activation.insertValue "this" key)) := (validateCel_agrees runtime _ _).mono fun _ _ => trivial
      have framed := inside.framedIf _ (keyPlaced_uniform runtime keyInfo entry entry) succeeds_isOk
      refine framed.bind (fun result => ?_) (fun result => ?_) fun result _ _ continues => ?_
      · split <;> exact agrees_pure _
      · split <;> exact (steady_pure _).keepsHead
      · obtain ⟨status, left⟩ := result
        cases status with
        | error failure => cases continues
        | ok _ => rfl

theorem valueEnd_modeless (entry : Entry) (status : Status) (left : Activation) (grew : Bool) :
    Modeless (MapValidationRules.valueEnd valueInfo entry 0 status left grew) := by
  unfold MapValidationRules.valueEnd
  split
  · exact modeless_pure _
  · split
    · exact (modeless_edit _ _).bind fun _ => modeless_pure _
    · exact modeless_pure _

theorem valueEnd_keepsHead (entry : Entry) (status : Status) (left : Activation) (grew : Bool) :
    KeepsHead RuleViolation.proto (MapValidationRules.valueEnd valueInfo entry 0 status left grew) := by
  unfold MapValidationRules.valueEnd
  split
  · exact (steady_pure _).keepsHead
  · split
    · have edited : KeepsHead RuleViolation.proto (edit 0 fun violation : RuleViolation =>
          violation.setFieldValue { message := .entry entry, descriptor := valueInfo } : RuleCheck Unit) :=
        keepsHead_edit 0 fun _ => rfl
      exact edited.bind fun _ => (steady_pure _).keepsHead
    · exact (steady_pure _).keepsHead

theorem valuePart_agrees (entry : Entry) (activation : Activation) :
    Agreeing Continues (MapValidationRules.valuePart runtime valueInfo valueRules entry activation 0) ∧
      KeepsHead RuleViolation.proto (MapValidationRules.valuePart runtime valueInfo valueRules entry activation 0) := by
  cases valueRules with
  | none => exact ⟨agrees_pure _, (steady_pure _).keepsHead⟩
  | some rules =>
    simp only [MapValidationRules.valuePart]
    split
    · exact ⟨agrees_pure _, (steady_pure _).keepsHead⟩
    · have inside : Agreeing (fun result => Succeeds result.1) (rules.base.validateCel runtime
          (activation.insertValue "this" (runtime.mapValue valueInfo entry.value))) :=
        (validateCel_agrees runtime _ _).mono fun _ _ => trivial
      have framed := (inside.framedIf _ (rulePath_uniform runtime .values) succeeds_isOk).grown
      have steady := (validateCel_steady runtime rules.base.toCelValidationRules
        (activation.insertValue "this" (runtime.mapValue valueInfo entry.value))).framedIf
          (fun result => result.1.isOk) (MapValidationRules.rulePath runtime .values)
      refine ⟨framed.bind (fun result => ?_) (fun result => ?_) fun result _ _ continues => ?_,
        steady.keepsHead.grown.bind fun result => ?_⟩
      · exact (valueEnd_modeless valueInfo entry _ _ _).agrees
      · exact valueEnd_keepsHead valueInfo entry _ _ _
      · obtain ⟨⟨status, left⟩, grew⟩ := result
        cases status with
        | error failure => cases continues
        | ok _ => rfl
      · exact valueEnd_keepsHead valueInfo entry _ _ _

theorem entryRules_agrees (entry : Entry) (key : CelValue) (activation : Activation) :
    Agreeing Continues
      (MapValidationRules.entryRules runtime keyInfo valueInfo keyRules valueRules entry key activation 0) := by
  refine (keyPart_agrees runtime keyInfo keyRules entry key activation).bind (fun result => ?_) (fun result => ?_)
    fun result _ _ continues => ?_
  · cases result with
    | error failure => exact agrees_pure _
    | ok left => exact (valuePart_agrees runtime valueInfo valueRules entry left).1
  · cases result with
    | error failure => exact (steady_pure _).keepsHead
    | ok left => exact (valuePart_agrees runtime valueInfo valueRules entry left).2
  · cases result with
    | error failure => cases continues
    | ok left => rfl

/-- The rounds that do not end with an error. -/
def Proceeds : Status ⊕ Activation → Prop
  | .inl status => Succeeds status
  | .inr _ => True

/-- A round that fails fast ends behind the path element. -/
theorem entryRound_agrees (valid : keyInfo.type.isMapKey = true) (entry : Entry) (key : CelValue)
    (activation : Activation) :
    Agreeing Proceeds
      (MapValidationRules.entryRound runtime base keyInfo valueInfo keyRules valueRules entry key activation) := by
  refine (entryRules_agrees runtime keyInfo valueInfo keyRules valueRules entry key activation).finish
    (entryEnding base keyInfo valueInfo entry)
    (entryRound_apply runtime base keyInfo valueInfo keyRules valueRules valid entry key activation)
    (fun result events => ?_) (fun failFast result ctx nonempty => ?_) (fun failFast result ctx proceeds => ?_)
    (entryPlaced_uniform base keyInfo valueInfo entry)
  · cases result with
    | error failure => exact ⟨rfl, rfl⟩
    | ok left => exact ⟨rfl, rfl⟩
  · cases result with
    | error failure => exact nonempty
    | ok left => simpa [entryEnding] using nonempty
  · cases result with
    | error failure => cases proceeds
    | ok left => exact ⟨rfl, rfl⟩

theorem entryLoop_agrees (valid : keyInfo.type.isMapKey = true) (entries : List (Entry × CelValue))
    (activation : Activation) :
    Agreeing Succeeds
      (MapValidationRules.entryLoop runtime base keyInfo valueInfo keyRules valueRules entries activation) := by
  induction entries generalizing activation with
  | nil => exact agrees_pure _
  | cons entry entries ih =>
    refine (entryRound_agrees runtime base keyInfo valueInfo keyRules valueRules valid _ _ _).bind (fun result => ?_)
      (fun result => ?_) fun result _ _ succeeds => ?_
    · cases result with
      | inl status => exact agrees_pure _
      | inr left => exact ih left
    · cases result with
      | inl status => exact (steady_pure _).keepsHead
      | inr left => exact (entryLoop_steady runtime _ _ _ _ _ _ _).keepsHead
    · cases result with
      | inl status => exact succeeds
      | inr left => trivial

theorem mapValidate_agrees (message : Message) :
    Agreeing Succeeds (MapValidationRules.validate runtime base keyRules valueRules message) := by
  refine (fieldValidate_agrees runtime base message).orFail ?_
    (entriesValidate_steady runtime base keyRules valueRules message)
  unfold MapValidationRules.validateEntries
  split
  · exact agrees_pure _
  · cases base.field.shape with
    | map keyInfo valueInfo valid =>
      simp only
      split
      · exact agrees_pure _
      · exact entryLoop_agrees runtime base keyInfo valueInfo keyRules valueRules valid _ _
    | _ => exact agrees_pure _

end Maps

section Messages

variable (message : Message)

theorem hasCount_modeless (fields : List FieldDescriptor) :
    Modeless (MessageOneofValidationRules.hasCount message fields) := by
  induction fields with
  | nil => exact modeless_pure _
  | cons field fields ih => exact (modeless_note _).bind fun _ => ih.bind fun _ => modeless_pure _

theorem rulesValidate_agrees (rules : ValidationRules) : Agreeing Succeeds (rules.validate runtime message) := by
  cases rules with
  | message rules =>
    have inside : Agreeing (fun result => Succeeds result.1) (rules.validateCel runtime
        (Activation.empty.insertValue "this" (runtime.createMessage message))) :=
      (validateCel_agrees runtime _ _).mono fun _ _ => trivial
    exact inside.bind (fun _ => agrees_pure _) (fun _ => (steady_pure _).keepsHead) fun _ _ _ succeeds => succeeds
  | messageOneof fields required =>
    exact ((hasCount_modeless message fields).bind fun _ => (modeless_emplaceBackIf _ _).bind fun _ =>
      (modeless_emplaceBackIf _ _).bind fun _ => modeless_pure _).agrees
  | oneof descriptor required => exact ((modeless_emplaceBackIf _ _).bind fun _ => modeless_pure _).agrees
  | field rules =>
    cases rules with
    | field base => exact fieldValidate_agrees runtime base message
    | enum base enumRules =>
      exact (fieldValidate_agrees runtime base message).orExit (definedOnly_modeless runtime base message enumRules).agrees
        (definedOnly_steady runtime base message enumRules).keepsHead
    | repeated base itemRules => exact repeatedValidate_agrees runtime base message itemRules
    | map base keyRules valueRules => exact mapValidate_agrees runtime base keyRules valueRules message

/-- The agreement at any depth, each frame keeping it. -/
theorem validateMessage_agrees (factory : ValidatorFactory) :
    Agreeing Succeeds (Validator.validateMessage factory message) := by
  induction message using children_induction with
  | step message ih =>
    rw [Validator.validateMessage_eq]
    cases factory.rulesOf message.descriptor with
    | error failure => exact agrees_pure _
    | ok rules =>
      have below := Agrees.eachThen (fun child member => (ih child member).framed (appended_uniform child.1))
        (fun child _ => (validateMessage_steady child.2 factory).framed _) (agrees_pure (.ok ())) (steady_pure _)
      exact Agrees.eachThen (fun rule _ => rulesValidate_agrees _ message rule)
        (fun rule _ => rulesValidate_steady _ message rule) below
        (childLoop_steady factory fun child _ => validateMessage_steady child.2 factory)

/-- Where both modes return a list, both lists are empty or start with the same
violation proto. -/
theorem failFast_agrees (factory : ValidatorFactory) (fast full : List RuleViolation)
    (fastOk : Validator.validate factory true message = .ok fast)
    (fullOk : Validator.validate factory false message = .ok full) :
    (fast = [] ↔ full = []) ∧ fast.head?.map RuleViolation.proto = full.head?.map RuleViolation.proto := by
  obtain ⟨fastSucceeds, rfl⟩ := Validator.validate_ok.mp fastOk
  obtain ⟨fullSucceeds, rfl⟩ := Validator.validate_ok.mp fullOk
  obtain ⟨same, empty⟩ | ⟨fastSome, fullSome, heads⟩ := validateMessage_agrees message factory []
  · have fastEmpty : (Validator.run factory true message).2.entries = [] := (congrArg (·.2.entries) same).trans empty
    have fullEmpty : (Validator.run factory false message).2.entries = [] := empty
    simp [fastEmpty, fullEmpty]
  · refine ⟨?_, finalize_uniform.head (heads fastSucceeds fullSucceeds)⟩
    rw [List.map_eq_nil_iff, List.map_eq_nil_iff]
    exact iff_of_false fastSome fullSome

end Messages

section Tags

/-- An evaluation in which the empty string breaks every rule. -/
def nonEmpty (_ : String) (activation : Activation) : Except StatusError CelValue :=
  match activation "this" with
  | some (.string text) => .ok (.bool (text ≠ ""))
  | _ => .ok (.bool true)

def tagsField : FieldDescriptor where
  number := 1
  name := "tags"
  fullName := "acme.Tagged.tags"
  type := .string
  shape := .repeated
  options := some (.mk none false [] [] (.repeated { typeName := "buf.validate.RepeatedRules" }
    (some (.mk none false [{ id := "tag.set", expression := "this != ''" }] [] .notSet))))

def tagged (tags : List String) : Message :=
  ⟨{ fullName := "acme.Tagged", fields := [tagsField] },
    [.mk tagsField (.repeated (tags.map fun tag => .scalar (.string tag)))]⟩

def nonEmptyFactory : ValidatorFactory := { context := { runtime := plainRuntime nonEmpty } }

theorem failFast_agrees_tagged : ∃ fast full,
    Validator.validate nonEmptyFactory true (tagged ["a", "", ""]) = .ok fast ∧
      Validator.validate nonEmptyFactory false (tagged ["a", "", ""]) = .ok full ∧
      fast.length = 1 ∧ full.length = 2 ∧ fast.head?.map RuleViolation.proto = full.head?.map RuleViolation.proto := by
  have fastCount : (Validator.validate nonEmptyFactory true (tagged ["a", "", ""])).map List.length = .ok 1 := rfl
  have fullCount : (Validator.validate nonEmptyFactory false (tagged ["a", "", ""])).map List.length = .ok 2 := rfl
  cases fastRun : Validator.validate nonEmptyFactory true (tagged ["a", "", ""]) with
  | error failure =>
    rw [fastRun] at fastCount
    cases fastCount
  | ok fast =>
    cases fullRun : Validator.validate nonEmptyFactory false (tagged ["a", "", ""]) with
    | error failure =>
      rw [fullRun] at fullCount
      cases fullCount
    | ok full =>
      rw [fastRun] at fastCount
      rw [fullRun] at fullCount
      exact ⟨fast, full, rfl, rfl, Except.ok.inj fastCount, Except.ok.inj fullCount,
        (failFast_agrees _ nonEmptyFactory fast full fastRun fullRun).2⟩

end Tags
end Protovalidate.Validate
