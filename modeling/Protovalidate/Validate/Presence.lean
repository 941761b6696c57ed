import Protovalidate.Validate.IgnoredRules
import Protovalidate.Validate.Stopping

/-! What the rules about presence find: `required` on fields of every shape, and the
oneofs at message level, which count the fields that are populated. -/

namespace Protovalidate.Validate

open Foundation Check

/-- Whether a field has a value, whatever its shape. -/
def Message.populates (message : Message) (field : FieldDescriptor) : Bool :=
  match field.shape with
  | .singular => message.hasField field
  | .repeated => !(message.elements field).isEmpty
  | .map _ _ _ => !(message.entries field).isEmpty

theorem populates_singular {message : Message} {field : FieldDescriptor} (singular : field.isRepeated = false) :
    message.populates field = message.hasField field := by
  unfold FieldDescriptor.isRepeated at singular
  unfold Message.populates
  cases shape : field.shape with
  | singular => rfl
  | _ =>
    rw [shape] at singular
    cases singular

section Required

variable {context : BuildContext} {names : List String} {field : FieldDescriptor} {options fieldLvl : FieldRules}
  {rules : FieldRuleSet} {message : Message}

/-- Whatever the kind of the rules, their base class is made for the field. -/
theorem newFieldRules_base (built : newFieldRules context field fieldLvl = .ok (some rules)) :
    ∃ cel, rules.base = elementBase field fieldLvl cel := by
  obtain always | ⟨typed, typeBuilt, customBuilt⟩ := newFieldRules_built built
  · rw [newFieldRules_always always] at built
    cases built
  by_cases elementary : fieldLvl.type.isElementKind = true
  · obtain ⟨cel, -, rfl, -⟩ := newFieldRules_some elementary built
    exact ⟨cel, elementRuleSet_base _ _ _⟩
  · obtain ⟨cel, -, same⟩ := withCustomRules_built customBuilt
    cases same
    refine ⟨cel, ?_⟩
    cases kind : fieldLvl.type with
    | repeated message items =>
      rw [kind] at typeBuilt
      obtain ⟨-, _, _, rfl, -⟩ := newTypeRules_repeated typeBuilt
      rw [elementBase, kind]
      rfl
    | map message keys values =>
      rw [kind] at typeBuilt
      obtain ⟨_, _, _, -, _, _, _, rfl, -⟩ := newTypeRules_map typeBuilt
      rw [elementBase, kind]
      rfl
    | unknown typeCase =>
      rw [kind] at typeBuilt
      cases typeBuilt
    | _ =>
      rw [kind] at elementary
      exact absurd rfl elementary

/-- Whether the rules of a field skip an empty value: by their own setting, by that of a
message-level oneof, or because the field tracks presence. -/
def SkipsEmpty (names : List String) (field : FieldDescriptor) (options : FieldRules) : Prop :=
  options.ignore = .ifZeroValue ∨ (options.hasIgnore = false ∧ field.name ∈ names) ∨
    (field.hasPresence = true ∧ field.mapEntry = false)

/-- The rules of a field with options. -/
theorem newMemberRules_base (built : newMemberRules context names field = .ok (some (.field rules)))
    (set : field.options = some options) :
    rules.base.field = field ∧ rules.base.required = options.required ∧
      (rules.base.ignoreEmpty = true ↔ SkipsEmpty names field options) := by
  unfold newMemberRules at built
  simp only [set] at built
  obtain ⟨inner, innerBuilt, same⟩ := bind_ok built
  obtain ⟨rules', rfl, same⟩ := Option.map_eq_some_iff.mp (Except.ok.inj same)
  cases same
  obtain ⟨cel, base⟩ := newFieldRules_base innerBuilt
  rw [base]
  obtain ⟨ignore, required, custom, celExpression, type⟩ := options
  by_cases overridden : (!FieldRules.hasIgnore ⟨ignore, required, custom, celExpression, type⟩ &&
      names.contains field.name) = true
  · have unset : ignore = none ∧ field.name ∈ names := by simpa [FieldRules.hasIgnore] using overridden
    rw [if_pos overridden]
    refine ⟨rfl, rfl, iff_of_true ?_ (.inr (.inl ⟨by rw [unset.1]; rfl, unset.2⟩))⟩
    simp [elementBase, FieldValidationRules.new, FieldRules.setIgnore, FieldRules.ignore]
  · rw [if_neg overridden]
    refine ⟨rfl, rfl, ?_⟩
    have kept : ¬(FieldRules.hasIgnore ⟨ignore, required, custom, celExpression, type⟩ = false ∧ field.name ∈ names) := by
      simpa using overridden
    simp [elementBase, FieldValidationRules.new, SkipsEmpty, kept]

/-- The base class of the rules reports that the field is required, and runs nothing else:
no expression, and no rule that it could be given instead. -/
structure ReportsRequired (runtime : Runtime) (base : FieldValidationRules) (message : Message) (failFast : Bool)
    (ctx : RuleContext) : Prop where
  appended : ∃ violation, (base.validate runtime message failFast ctx).2.entries = ctx.entries ++ [violation] ∧
    violation.proto.ruleId = "required" ∧ violation.proto.field = some [fieldPathElement base.field.toFieldInfo] ∧
    violation.proto.rule = some [fieldPathElement (runtime.ruleField .required)]
  evaluated : ∃ events, (base.validate runtime message failFast ctx).2.trace = ctx.trace ++ events ∧
    ∀ expression activation result, Event.evaluated expression activation result ∉ events
  others : ∀ cel any, FieldValidationRules.validate runtime { base with toCelValidationRules := cel, anyRules := any }
    message failFast ctx = base.validate runtime message failFast ctx

variable {runtime : Runtime} {base : FieldValidationRules}

theorem emplaceBack_apply (violation : RuleViolation) (failFast : Bool) (ctx : RuleContext) :
    (emplaceBack violation >>= fun _ => pure (.ok ()) : RuleCheck Status) failFast ctx =
      (.ok (), recordAll ctx [violation]) := rfl

/-- Of the two settings, a list or a map tests the one for empty values first. -/
theorem validateContainer_empty (required : base.required = true) (value : CelValue) (failFast : Bool) (ctx : RuleContext) :
    base.validateContainer runtime message true value failFast ctx =
      if base.ignoreEmpty then (.ok (), ctx)
      else (.ok (), recordAll ctx [base.requiredViolation runtime message]) := by
  unfold FieldValidationRules.validateContainer
  rw [required]
  cases base.ignoreEmpty with
  | true => rfl
  | false => exact emplaceBack_apply _ _ _

/-- A singular field tests `required` first. -/
theorem validateSingular_unset (required : base.required = true) (unset : message.hasField base.field = false)
    (failFast : Bool) (ctx : RuleContext) :
    base.validateSingular runtime message failFast ctx =
      (.ok (), recordAll ctx [base.requiredViolation runtime message]) := by
  unfold FieldValidationRules.validateSingular
  rw [required, unset]
  exact emplaceBack_apply _ _ _

/-- The rules of an empty list or map, and of a singular field that is not set. -/
theorem validate_unpopulated (base : FieldValidationRules) (required : base.required = true)
    (unpopulated : message.populates base.field = false) (failFast : Bool) (ctx : RuleContext) :
    base.validate runtime message failFast ctx =
      if base.field.isRepeated && base.ignoreEmpty then (.ok (), ctx)
      else (.ok (), recordAll (ctx.extend ⟨[], if base.field.isRepeated then [] else [.hasField base.field]⟩)
        [base.requiredViolation runtime message]) := by
  unfold Message.populates at unpopulated
  unfold FieldValidationRules.validate FieldDescriptor.isRepeated
  cases shape : base.field.shape with
  | singular =>
    simp only [shape] at unpopulated
    simp only
    rw [bind_apply, validateSingular_unset required unpopulated]
    simp [note, Journal.extend]
  | repeated =>
    simp only [shape, Bool.not_eq_false'] at unpopulated
    simp only [unpopulated, Bool.true_and, ↓reduceIte, Journal.extend_nil]
    exact validateContainer_empty required _ failFast ctx
  | map keyInfo valueInfo valid =>
    simp only [shape, Bool.not_eq_false'] at unpopulated
    simp only [unpopulated, Bool.true_and, ↓reduceIte, Journal.extend_nil]
    exact validateContainer_empty required _ failFast ctx

/-- A required field that is not populated is reported, unless it is a list or a map
whose rules skip empty values. -/
theorem required_iff (built : newMemberRules context names field = .ok (some (.field rules)))
    (set : field.options = some options) (required : options.required = true)
    (unpopulated : message.populates field = false) (failFast : Bool) (ctx : RuleContext) :
    ReportsRequired context.runtime rules.base message failFast ctx ↔
      ¬(field.isRepeated = true ∧ SkipsEmpty names field options) := by
  obtain ⟨place, needs, skips⟩ := newMemberRules_base built set
  rw [← place] at unpopulated
  have run (cel : CelValidationRules) (any : Option AnyRules) := @validate_unpopulated message context.runtime
    { rules.base with toCelValidationRules := cel, anyRules := any } (needs.trans required) unpopulated failFast ctx
  have own := run rules.base.toCelValidationRules rules.base.anyRules
  rw [← skips, ← place, ← Bool.and_eq_true]
  by_cases silent : (rules.base.field.isRepeated && rules.base.ignoreEmpty) = true
  · refine iff_of_false (fun reports => ?_) (not_not_intro silent)
    obtain ⟨violation, appended, -⟩ := reports.appended
    rw [own, if_pos silent] at appended
    simpa using congrArg List.length appended
  · refine iff_of_true ?_ silent
    rw [if_neg silent] at own
    constructor
    · refine ⟨rules.base.requiredViolation context.runtime message, ?_, rfl, rfl, rfl⟩
      rw [own, recordAll, Journal.extend, List.append_nil]
    · refine ⟨_, by rw [own]; exact List.append_assoc _ _ _, fun expression activation result member => ?_⟩
      split at member <;> simp at member
    · intro cel any
      rw [own, run cel any, if_neg silent]
      rfl

/-- A contact has a name and phone numbers, and needs both. -/
def requiredOptions (ignore : Option Ignore) : FieldRules := ⟨ignore, true, [], [], .notSet⟩

def contactName : FieldDescriptor where
  number := 1
  name := "name"
  fullName := "Contact.name"
  type := .string
  options := some (requiredOptions none)

def contactPhones : FieldDescriptor where
  number := 2
  name := "phones"
  fullName := "Contact.phones"
  type := .string
  shape := .repeated
  options := some (requiredOptions (some .ifZeroValue))

def emptyContact : Message := ⟨{ fullName := "Contact", fields := [contactName, contactPhones] }, []⟩

theorem required_iff_name :
    ReportsRequired paintContext.runtime (.new contactName (requiredOptions none)) emptyContact false {} ↔
      ¬(contactName.isRepeated = true ∧ SkipsEmpty [] contactName (requiredOptions none)) :=
  required_iff (show newMemberRules paintContext [] contactName =
      .ok (some (.field (.field (.new contactName (requiredOptions none))))) from rfl) rfl rfl rfl false {}

/-- No phone number is needed where the zero value is ignored. -/
theorem requiredPhones_ignored :
    newMemberRules paintContext [] contactPhones =
        .ok (some (.field (.field (.new contactPhones (requiredOptions (some .ifZeroValue)))))) ∧
      emptyContact.populates contactPhones = false ∧
      (FieldValidationRules.validate paintContext.runtime (.new contactPhones (requiredOptions (some .ifZeroValue)))
        emptyContact false {}).2.entries = [] ∧
      ¬ReportsRequired paintContext.runtime (.new contactPhones (requiredOptions (some .ifZeroValue))) emptyContact false {} := by
  refine ⟨rfl, rfl, rfl, fun reports => ?_⟩
  obtain ⟨violation, appended, -⟩ := reports.appended
  cases appended

end Required

section MessageOneofs

variable {descriptor : Descriptor} {oneof : MessageOneofRule} {message : Message} {fields : List FieldDescriptor}

/-- The fields that a oneof at message level names. -/
def MessageOneofRule.listed (oneof : MessageOneofRule) (descriptor : Descriptor) : List FieldDescriptor :=
  oneof.fields.filterMap descriptor.findFieldByName

theorem oneofFields_listed {seen names : List String} (built : oneofFields descriptor seen names = .ok fields) :
    fields = names.filterMap descriptor.findFieldByName := by
  induction names generalizing seen fields with
  | nil =>
    cases built
    rfl
  | cons name names ih =>
    rw [oneofFields] at built
    split at built
    · cases built
    · split at built
      · cases built
      · rename_i field found
        obtain ⟨others, rest, same⟩ := bind_ok built
        cases same
        rw [List.filterMap_cons_some found, ih rest]

theorem newMessageOneof_listed {rules : ValidationRules} (built : newMessageOneof descriptor oneof = .ok rules) :
    rules = .messageOneof (oneof.listed descriptor) oneof.required := by
  unfold newMessageOneof at built
  split at built
  · cases built
  · obtain ⟨fields, found, same⟩ := bind_ok built
    cases same
    rw [oneofFields_listed found]
    rfl

/-- Whether too many fields are populated, or too few. -/
def Miscounted (count : Nat) (required : Bool) : Prop := 1 < count ∨ required = true ∧ count = 0

instance (count : Nat) (required : Bool) : Decidable (Miscounted count required) :=
  inferInstanceAs (Decidable (_ ∨ _))

/-- One violation where the number of populated fields is wrong, and none otherwise. -/
def ReportsMiscount (message : Message) (listed : List FieldDescriptor) (required : Bool) (check : RuleCheck Status) :
    Prop := ∀ (failFast : Bool) (ctx : RuleContext), ∃ late, (check failFast ctx).2.entries = ctx.entries ++ late ∧
  late.length = if Miscounted (listed.filter message.populates).length required then 1 else 0

theorem hasCount_apply (fields : List FieldDescriptor) (failFast : Bool) (ctx : RuleContext) :
    MessageOneofValidationRules.hasCount message fields failFast ctx =
      ((fields.filter message.hasField).length, ctx.extend ⟨[], fields.map .hasField⟩) := by
  induction fields generalizing ctx with
  | nil => simp [MessageOneofValidationRules.hasCount, pure_apply, Journal.extend]
  | cons field fields ih =>
    simp only [MessageOneofValidationRules.hasCount, bind_apply, ih, note, pure_apply, List.filter_cons]
    cases message.hasField field <;> simp [Journal.extend]

/-- The two violations exclude each other, and every field is asked for its presence. -/
theorem messageOneof_apply (message : Message) (fields : List FieldDescriptor) (required failFast : Bool) (ctx : RuleContext) :
    ∃ late, (MessageOneofValidationRules.validate fields required message failFast ctx).2 =
        recordAll (ctx.extend ⟨[], fields.map .hasField⟩) late ∧
      late.length = if Miscounted (fields.filter message.hasField).length required then 1 else 0 := by
  unfold MessageOneofValidationRules.validate
  simp only [bind_apply, hasCount_apply, emplaceBackIf_apply, recordAll_append, pure_apply]
  refine ⟨_, rfl, ?_⟩
  generalize (fields.filter message.hasField).length = count
  rw [List.length_append]
  by_cases many : 1 < count
  · have notNone : count ≠ 0 := by omega
    simp [Miscounted, many, notNone]
  · simp [Miscounted, many, apply_ite List.length]

theorem messageOneof_iff (fields : List FieldDescriptor) (required : Bool) :
    (ReportsMiscount message fields required (MessageOneofValidationRules.validate fields required message) ∧
        Logs SingularAccess (MessageOneofValidationRules.validate fields required message)) ↔
      ∀ field ∈ fields, field.isRepeated = false := by
  constructor
  · rintro ⟨-, logs⟩ field member
    obtain ⟨late, run, -⟩ := messageOneof_apply message fields required false {}
    refine logs.alone (.hasField field) ?_
    rw [alone, run]
    exact List.mem_append_left _ (List.mem_append_right _ (List.mem_map_of_mem member))
  · intro singular
    have same : fields.filter message.hasField = fields.filter message.populates :=
      List.filter_congr fun field member => (populates_singular (singular field member)).symm
    constructor
    · intro failFast ctx
      obtain ⟨late, run, count⟩ := messageOneof_apply message fields required failFast ctx
      refine ⟨late, ?_, by rw [count, same]⟩
      rw [run, recordAll, Journal.extend, List.append_nil]
    · intro failFast ctx
      obtain ⟨late, run, -⟩ := messageOneof_apply message fields required failFast ctx
      refine ⟨_, by rw [run]; exact List.append_assoc _ _ _, fun event member => ?_⟩
      rcases List.mem_append.mp member with asked | recorded
      · obtain ⟨field, present, rfl⟩ := List.mem_map.mp asked
        exact singular field present
      · rw [List.eq_of_mem_replicate recorded]
        trivial

/-- The oneofs of a message that builds have rules among those of the message. -/
theorem newMessageRules_oneof {context : BuildContext} {rules : List ValidationRules} {options : MessageRules}
    (built : newMessageRules context descriptor = .ok rules) (set : descriptor.options = some options)
    (member : oneof ∈ options.oneof) : ∃ check ∈ rules, newMessageOneof descriptor oneof = .ok check := by
  unfold newMessageRules at built
  simp only [set] at built
  obtain ⟨messageRules, -, rest⟩ := bind_ok built
  obtain ⟨oneofs, oneofsBuilt, rest⟩ := bind_ok rest
  obtain ⟨level, levelBuilt, rest⟩ := bind_ok rest
  cases levelBuilt
  obtain ⟨fieldRules, -, same⟩ := bind_ok rest
  cases same
  obtain ⟨check, present, found⟩ := mapM_member oneofsBuilt oneof member
  exact ⟨check, List.mem_append_left _ (List.mem_append_left _ (List.mem_cons_of_mem _ present)), found⟩

/-- The rules of a oneof at message level count the fields that are populated, and ask
singular fields only for their presence, if and only if no field of the oneof is repeated. -/
theorem messageOneofs_count_iff {context : BuildContext} {rules : List ValidationRules} {options : MessageRules}
    (built : newMessageRules context descriptor = .ok rules) (set : descriptor.options = some options)
    (member : oneof ∈ options.oneof) (message : Message) :
    ∃ check ∈ rules, newMessageOneof descriptor oneof = .ok check ∧
      ((ReportsMiscount message (oneof.listed descriptor) oneof.required (check.validate context.runtime message) ∧
          Logs SingularAccess (check.validate context.runtime message)) ↔
        ∀ field ∈ oneof.listed descriptor, field.isRepeated = false) := by
  obtain ⟨check, present, found⟩ := newMessageRules_oneof built set member
  obtain rfl := newMessageOneof_listed found
  exact ⟨_, present, found, messageOneof_iff _ _⟩

/-- A recipient has a name or phone numbers. -/
def recipientRule (fields : List String) : MessageOneofRule := { fields := fields, required := true }

def recipient (fields : List String) : Descriptor where
  fullName := "Recipient"
  fields := [{ contactName with options := none }, { contactPhones with options := none }]
  options := some { oneof := [recipientRule fields] }

theorem messageOneofs_count_iff_name :
    ∃ check ∈ [ValidationRules.message {}, .messageOneof [{ contactName with options := none }] true],
      newMessageOneof (recipient ["name"]) (recipientRule ["name"]) = .ok check ∧
      ((ReportsMiscount emptyContact ((recipientRule ["name"]).listed (recipient ["name"])) true
            (check.validate paintContext.runtime emptyContact) ∧
          Logs SingularAccess (check.validate paintContext.runtime emptyContact)) ↔
        ∀ field ∈ (recipientRule ["name"]).listed (recipient ["name"]), field.isRepeated = false) :=
  messageOneofs_count_iff (show newMessageRules paintContext (recipient ["name"]) = _ from rfl) rfl
    (List.mem_singleton.mpr rfl) emptyContact

/-- A list may be one of the fields, and is asked for its presence as if it were singular. -/
theorem repeatedField_asked :
    newMessageRules paintContext (recipient ["name", "phones"]) =
        .ok [.message {}, .messageOneof (recipient ["name", "phones"]).fields true] ∧
      .hasField { contactPhones with options := none } ∈ (alone (ValidationRules.validate paintContext.runtime emptyContact
        (.messageOneof (recipient ["name", "phones"]).fields true))).2.trace ∧
      ¬Logs SingularAccess (ValidationRules.validate paintContext.runtime emptyContact
        (.messageOneof (recipient ["name", "phones"]).fields true)) := by
  refine ⟨rfl, .tail _ (.head _), fun logs => ?_⟩
  have singular : contactPhones.isRepeated = false := logs.alone _ (.tail _ (.head _))
  cases singular

end MessageOneofs
end Protovalidate.Validate
