import Protovalidate.Validate.Meaning
import Protovalidate.Validate.Errors
import Protovalidate.Validate.FirstViolation

/-! What the options of a message demand of it, with its items and entries, and that the
rules built from them are clean on exactly the messages that meet it. -/

namespace Protovalidate.Validate

open Foundation Check

section Elements

variable (runtime : Runtime)

/-- A value meets the rules that are built for keys or values, if there are any. -/
def MeetsRules (rules : Option FieldRuleSet) (this : CelValue) : Prop :=
  ∀ inner ∈ rules, (inner.base.ignoreEmpty = true ∧ isEmptyItem this = true) ∨
    MeetsCel runtime inner.base.toCelValidationRules this

/-- An item that is not skipped meets the rules that are built for items. -/
def MeetsItemRules (base items : FieldValidationRules) (value : Value) : Prop :=
  match items.anyRules with
  | none => MeetsCel runtime items.toCelValidationRules (runtime.listItem base.field.toFieldInfo value)
  | some any => AllowsAny any (anyMessage runtime base.field.toFieldInfo value) ∧
      Unviolated runtime items.toCelValidationRules (runtime.listItem base.field.toFieldInfo value)

variable {runtime} {context : BuildContext} {field : FieldDescriptor} {base items : FieldValidationRules}
  {message : Message}

theorem itemRules_clean (item : Nat × Value) :
    Clean (RepeatedValidationRules.itemRules runtime base items message item) ↔ MeetsItemRules runtime base items item.2 := by
  unfold MeetsItemRules
  cases rules : items.anyRules with
  | none =>
    simp only [RepeatedValidationRules.itemRules, rules]
    rw [← celCheck_clean]
    refine (cleanIf_bind fun _ => steady_pure _).trans ?_
    rw [cleanIf_pure]
    exact And.comm
  | some any =>
    simp only [RepeatedValidationRules.itemRules, rules]
    rw [← celCheck_silent]
    refine (cleanIf_bind fun _ => validateAny_steady _ _ _ _).trans ?_
    refine Iff.trans (and_congr_right fun _ => validateAny_clean any _ _) ?_
    exact And.comm

theorem itemRound_clean (item : Nat × Value) :
    Clean (RepeatedValidationRules.itemRound runtime base items message item) ↔
      Clean (RepeatedValidationRules.itemRules runtime base items message item) := clean_framed _

/-- Whether the loop over the items is clean does not depend on their indices. -/
theorem checked_forall (values : List Value) (holds : Value → Prop) :
    (∀ item ∈ RepeatedValidationRules.checked runtime base items values, holds item.2) ↔
      ∀ value ∈ values, (items.ignoreEmpty = true ∧ isEmptyItem (runtime.listItem base.field.toFieldInfo value) = true) ∨
        holds value := by
  unfold RepeatedValidationRules.checked
  constructor
  · intro all value member
    obtain ⟨index, found⟩ := List.mem_iff_getElem?.mp member
    by_cases skipped : items.ignoreEmpty = true ∧ isEmptyItem (runtime.listItem base.field.toFieldInfo value) = true
    · exact .inl skipped
    · refine .inr (all (index, value) (List.mem_filter.mpr ⟨?_, ?_⟩))
      · exact List.mem_map.mpr ⟨(value, index), List.mem_zipIdx_iff_getElem?.mpr found, rfl⟩
      · simpa [Classical.or_iff_not_imp_left] using skipped
  · intro all item member
    obtain ⟨listed, kept⟩ := List.mem_filter.mp member
    obtain ⟨⟨value, index⟩, indexed, rfl⟩ := List.mem_map.mp listed
    have found := List.mem_of_getElem? (List.mem_zipIdx_iff_getElem?.mp indexed)
    refine (all value found).resolve_left fun skipped => ?_
    simp [skipped.1, skipped.2] at kept

variable {keyInfo valueInfo : FieldInfo} {keyRules valueRules : Option FieldRuleSet} {activation : Activation}

theorem not_goesOn_error {failure : StatusError} :
    ¬CleanIf GoesOn (pure (.error failure) : RuleCheck (Except StatusError Activation)) := by
  intro clean
  obtain ⟨_, impossible⟩ := (cleanIf_pure _).mp clean
  cases impossible

theorem keyPart_clean (entry : Entry) (key : CelValue) :
    CleanIf GoesOn (MapValidationRules.keyPart runtime keyInfo keyRules entry key Activation.empty) ↔
      MeetsRules runtime keyRules key := by
  cases keyRules with
  | none => exact iff_of_true ((cleanIf_pure _).mpr ⟨_, rfl⟩) fun _ impossible => by cases impossible
  | some rules =>
    simp only [MapValidationRules.keyPart, MeetsRules, Option.mem_some_iff, forall_eq']
    by_cases skipped : (rules.base.ignoreEmpty && isEmptyItem key) = true
    · rw [if_pos skipped]
      exact iff_of_true ((cleanIf_pure _).mpr ⟨_, rfl⟩) (.inl (Bool.and_eq_true_iff.mp skipped))
    · rw [if_neg skipped, or_iff_right (mt Bool.and_eq_true_iff.mpr skipped), ← celCheck_clean]
      refine (cleanIf_bind fun result => ?_).trans ?_
      · split <;> exact steady_pure _
      · rw [silent_framedIf, alone_framedIf]
        refine and_comm.trans (and_congr_left fun _ => ?_)
        generalize (alone (celCheck runtime rules.base.toCelValidationRules key)).1 = result
        obtain ⟨status, left⟩ := result
        cases status with
        | error failure => exact iff_of_false (fun clean => not_goesOn_error clean) fun impossible => by cases impossible
        | ok _ => exact iff_of_true ((cleanIf_pure _).mpr ⟨_, rfl⟩) rfl

/-- The end of the value rules changes violations, and adds none. -/
theorem valueEnd_clean (entry : Entry) (status : Status) (left : Activation) (grew : Bool) (ctx : RuleContext) :
    (GoesOn (MapValidationRules.valueEnd valueInfo entry 0 status left grew false ctx).1 ∧
        (MapValidationRules.valueEnd valueInfo entry 0 status left grew false ctx).2.entries = []) ↔
      Succeeds status ∧ ctx.entries = [] := by
  cases status with
  | error failure => exact iff_of_false (fun ⟨⟨_, impossible⟩, _⟩ => by cases impossible) fun both => by cases both.1
  | ok _ =>
    have goesOn : GoesOn (MapValidationRules.valueEnd valueInfo entry 0 (.ok ()) left grew false ctx).1 :=
      ⟨_, valueEnd_ok entry 0 () left grew false ctx⟩
    rw [and_iff_right goesOn, and_iff_right (show Succeeds (.ok () : Status) from rfl)]
    cases grew with
    | false => exact Iff.rfl
    | true =>
      change (ctx.editFrom 0 _).entries = [] ↔ _
      rw [Journal.editFrom, List.take_zero, List.nil_append, List.drop_zero, List.map_eq_nil_iff]

theorem valuePart_clean (entry : Entry) (reusable : Reusable runtime activation) :
    CleanIf GoesOn (MapValidationRules.valuePart runtime valueInfo valueRules entry activation 0) ↔
      MeetsRules runtime valueRules (runtime.mapValue valueInfo entry.value) := by
  cases valueRules with
  | none => exact iff_of_true ((cleanIf_pure _).mpr ⟨_, rfl⟩) fun _ impossible => by cases impossible
  | some rules =>
    simp only [MapValidationRules.valuePart, MeetsRules, Option.mem_some_iff, forall_eq',
      validateCel_reusable runtime _ _ reusable]
    by_cases skipped : (rules.base.ignoreEmpty && isEmptyItem (runtime.mapValue valueInfo entry.value)) = true
    · rw [if_pos skipped]
      exact iff_of_true ((cleanIf_pure _).mpr ⟨_, rfl⟩) (.inl (Bool.and_eq_true_iff.mp skipped))
    · rw [if_neg skipped, or_iff_right (mt Bool.and_eq_true_iff.mpr skipped), ← celCheck_clean]
      have framed : CleanIf (fun result => Succeeds result.1) (framedIf (fun result => result.1.isOk)
          (MapValidationRules.rulePath runtime .values)
          (celCheck runtime rules.base.toCelValidationRules (runtime.mapValue valueInfo entry.value))) ↔ _ :=
        cleanIf_framedIf _ _
      exact (valueEnd_clean entry _ _ _ _).trans framed

theorem keyPart_reusable {entry : Entry} {key : CelValue} {left : Activation}
    (goesOn : (alone (MapValidationRules.keyPart runtime keyInfo keyRules entry key Activation.empty)).1 = .ok left) :
    Reusable runtime left := by
  have same : SameRun runtime (MapValidationRules.keyPart runtime keyInfo keyRules entry key Activation.empty)
      (MapValidationRules.keyPart runtime keyInfo keyRules entry key Activation.empty) :=
    keyPart_sameRun runtime entry key (.inl rfl) (.inl rfl)
  obtain ⟨-, results⟩ := alone_sameRun runtime same
  rw [goesOn] at results
  exact results.1

/-- What follows the key rules of an entry. -/
def afterKey (runtime : Runtime) (valueInfo : FieldInfo) (valueRules : Option FieldRuleSet) (entry : Entry) (start : Nat) :
    Except StatusError Activation → RuleCheck (Except StatusError Activation)
  | .error failure => pure (.error failure)
  | .ok left => MapValidationRules.valuePart runtime valueInfo valueRules entry left start

theorem entryRules_eq (entry : Entry) (key : CelValue) (start : Nat) :
    MapValidationRules.entryRules runtime keyInfo valueInfo keyRules valueRules entry key activation start =
      MapValidationRules.keyPart runtime keyInfo keyRules entry key activation >>=
        afterKey runtime valueInfo valueRules entry start := by
  refine congrArg (MapValidationRules.keyPart runtime keyInfo keyRules entry key activation >>= ·) (funext fun result => ?_)
  cases result with
  | error failure => rfl
  | ok left => rfl

theorem afterKey_steady (entry : Entry) (result : Except StatusError Activation) :
    SteadyAt fun start => afterKey runtime valueInfo valueRules entry start result := by
  cases result with
  | error failure => exact steady_pure _
  | ok left => exact valuePart_steady runtime _ _ _ _

theorem afterKey_keepsHead (entry : Entry) (result : Except StatusError Activation) :
    KeepsHead RuleViolation.proto (afterKey runtime valueInfo valueRules entry 0 result) := by
  cases result with
  | error failure => exact (steady_pure _).keepsHead
  | ok left => exact (valuePart_agrees runtime valueInfo valueRules entry left).2

/-- The rules of an entry are clean if its key and its value meet theirs. -/
theorem entryRules_clean (entry : Entry) (key : CelValue) :
    CleanIf GoesOn (MapValidationRules.entryRules runtime keyInfo valueInfo keyRules valueRules entry key
        Activation.empty 0) ↔
      MeetsRules runtime keyRules key ∧ MeetsRules runtime valueRules (runtime.mapValue valueInfo entry.value) := by
  have keyClean : CleanIf GoesOn (MapValidationRules.keyPart runtime keyInfo keyRules entry key Activation.empty) ↔ _ :=
    keyPart_clean entry key
  rw [entryRules_eq, cleanIf_bindAt (afterKey_steady entry) (afterKey_keepsHead entry), ← keyClean]
  cases result : (alone (MapValidationRules.keyPart runtime keyInfo keyRules entry key Activation.empty)).1 with
  | error failure =>
    refine iff_of_false (fun both => not_goesOn_error both.2) fun both => ?_
    obtain ⟨left, goesOn⟩ := both.1.1
    rw [result] at goesOn
    cases goesOn
  | ok left =>
    have goesOn : GoesOn (alone (MapValidationRules.keyPart runtime keyInfo keyRules entry key Activation.empty)).1 :=
      ⟨left, result⟩
    rw [CleanIf.eq_1 GoesOn (MapValidationRules.keyPart runtime keyInfo keyRules entry key Activation.empty),
      and_iff_right goesOn]
    exact and_congr_right fun _ => valuePart_clean entry (keyPart_reusable result)

theorem entryCheck_clean (valid : keyInfo.type.isMapKey = true) (entry : Entry × CelValue) :
    Clean (entryCheck runtime base keyInfo valueInfo keyRules valueRules entry) ↔
      MeetsRules runtime keyRules entry.2 ∧ MeetsRules runtime valueRules (runtime.mapValue valueInfo entry.1.value) := by
  have rules : CleanIf GoesOn (MapValidationRules.entryRules runtime keyInfo valueInfo keyRules valueRules entry.1 entry.2
      Activation.empty 0) ↔ _ := entryRules_clean entry.1 entry.2
  rw [← rules]
  unfold Clean CleanIf Silent
  rw [alone_entryCheck runtime _ _ _ _ _ valid]
  cases alone (MapValidationRules.entryRules runtime keyInfo valueInfo keyRules valueRules entry.1 entry.2
      Activation.empty 0) with
  | mk result ctx =>
    cases result with
    | error failure =>
      refine iff_of_false (fun both => by cases both.1) fun both => ?_
      obtain ⟨left, impossible⟩ := both.1
      cases impossible
    | ok left => exact and_congr (iff_of_true rfl ⟨left, rfl⟩) List.map_eq_nil_iff

end Elements

section Options

variable (context : BuildContext) (field : FieldDescriptor) (fieldLvl : FieldRules) (message : Message)

/-- Rules that are there and are ignored always. -/
def Disregarded (options : Option FieldRules) : Prop := ∃ inner ∈ options, inner.ignore = .always

/-- The entries of a map meet the rules for keys and for values. Unless both are ignored,
it has to be possible to list the keys. -/
def MeetsEntries (keyInfo valueInfo : FieldInfo) (keys values : Option FieldRules) : Prop :=
  (Disregarded keys ∧ Disregarded values) ∨
    ∃ listed, context.runtime.listKeys keyInfo ((message.entries field).map Entry.key) = .ok listed ∧
      ∀ entry ∈ (message.entries field).zip listed, MeetsElement context keys entry.2 ∧
        MeetsElement context values (context.runtime.mapValue valueInfo entry.1.value)

/-- The number of an enum field, and the items or entries, meet their rules. -/
def MeetsParts : Prop :=
  match fieldLvl.type with
  | .enum rules => rules.definedOnly = true → field.isRepeated = false ∧ message.getEnumValue field ∈ field.enumNumbers
  | .repeated _ items => ∀ inner ∈ items, inner.ignore = .always ∨
      ∀ value ∈ message.elements field, MeetsItem context field inner value
  | .map _ keys values =>
    match field.shape with
    | .map keyInfo valueInfo _ => MeetsEntries context field message keyInfo valueInfo keys values
    | _ => True
  | _ => True

/-- The value of a field meets its options. -/
def MeetsOptions : Prop :=
  fieldLvl.ignore = .always ∨ MeetsWhole context field fieldLvl message ∧ MeetsParts context field fieldLvl message

/-- The rules of keys or of values, as they are built from their options. -/
structure ElementBuilt (info : FieldInfo) (options : Option FieldRules) (rules : Option FieldRuleSet) : Prop where
  unset : options = none → rules = some (unsetEntryRules info)
  set : ∀ inner ∈ options, newFieldRules context (.ofEntry info) inner = .ok rules

variable {context field fieldLvl message} {info : FieldInfo} {options : Option FieldRules} {rules : Option FieldRuleSet}

theorem newFieldRules_none (built : newFieldRules context field fieldLvl = .ok none) : fieldLvl.ignore = .always := by
  obtain always | ⟨typed, -, customBuilt⟩ := newFieldRules_built built
  · exact always
  · obtain ⟨cel, -, impossible⟩ := withCustomRules_built customBuilt
    cases impossible

theorem newFieldRules_unignored {rules : FieldRuleSet} (built : newFieldRules context field fieldLvl = .ok (some rules)) :
    fieldLvl.ignore ≠ .always := by
  intro always
  rw [newFieldRules_always always] at built
  cases built

theorem newFieldRules_type {rules : FieldRuleSet} (built : newFieldRules context field fieldLvl = .ok (some rules)) :
    fieldLvl.type.WellFormed context field := by
  have wellFormed := (builds_newFieldRules field fieldLvl).mp ⟨_, built⟩
  have unignored := newFieldRules_unignored built
  obtain ⟨ignore, required, cel, celExpression, type⟩ := fieldLvl
  rw [FieldRules.WellFormed] at wellFormed
  rcases wellFormed with rfl | ⟨wellFormed, -⟩
  · exact absurd rfl unignored
  · exact wellFormed

theorem ElementBuilt.none_iff (built : ElementBuilt context info options rules) : rules = none ↔ Disregarded options := by
  cases options with
  | none =>
    rw [built.unset rfl]
    refine iff_of_false (fun impossible => by cases impossible) ?_
    rintro ⟨inner, impossible, -⟩
    cases impossible
  | some inner =>
    have found := built.set inner rfl
    constructor
    · rintro rfl
      exact ⟨inner, rfl, newFieldRules_none found⟩
    · rintro ⟨other, same, always⟩
      cases same
      rw [newFieldRules_always always] at found
      exact (Except.ok.inj found).symm

theorem ElementBuilt.meets_iff (built : ElementBuilt context info options rules) (this : CelValue) :
    MeetsRules context.runtime rules this ↔ MeetsElement context options this := by
  cases options with
  | none =>
    rw [built.unset rfl]
    refine iff_of_true ?_ fun _ impossible => by cases impossible
    intro inner same
    cases same
    exact .inr fun _ impossible => by cases impossible
  | some options =>
    have found := built.set options rfl
    simp only [MeetsElement, Option.mem_some_iff, forall_eq']
    cases rules with
    | none => exact iff_of_true (fun _ impossible => by cases impossible) (.inl (newFieldRules_none found))
    | some rules =>
      have skips : (elementBase (.ofEntry info) options (declared context options)).ignoreEmpty = true ↔
          options.ignore = .ifZeroValue := by
        rw [ignoreEmpty_iff, IgnoresEmpty]
        exact or_iff_left fun both => by cases both.2
      simp only [MeetsRules, Option.mem_some_iff, forall_eq']
      rw [newFieldRules_declared found, or_iff_right (newFieldRules_unignored found), skips]
      exact Iff.rfl

theorem clean_congr {part part' : RuleCheck Status} (same : alone part = alone part') : Clean part ↔ Clean part' := by
  unfold Clean CleanIf Silent
  rw [same]

/-- A rule is clean if its parts are. -/
theorem ruleParts_clean {runtime : Runtime} {rules : ValidationRules} :
    Clean (rules.validate runtime message) ↔ ∀ part ∈ ruleParts runtime message rules, Clean part.check := by
  rw [clean_congr (ruleParts_alone rules), clean_eachThen (fun _ => ruleParts_steady) (steady_pure _)]
  exact and_iff_left clean_ok

end Options

section Fields

variable {context : BuildContext} {field : FieldDescriptor} {fieldLvl : FieldRules} {message : Message}
  {rules : FieldRuleSet}

theorem newFieldRules_items {outer : RuleMessage} {items : Option FieldRules} (kind : fieldLvl.type = .repeated outer items)
    (built : newFieldRules context field fieldLvl = .ok (some rules)) :
    ∃ itemRules, rules = .repeated (elementBase field fieldLvl (declared context fieldLvl)) itemRules ∧
      field.shape = .repeated ∧ (items = none → itemRules = none) ∧
        ∀ inner ∈ items, newFieldRules context field inner = .ok itemRules := by
  have base := newFieldRules_declared built
  obtain ⟨typed, typeBuilt, customBuilt⟩ := (newFieldRules_built built).resolve_left (newFieldRules_unignored built)
  rw [kind] at typeBuilt
  obtain ⟨shape, _, itemRules, rfl, -, unset, itemsBuilt⟩ := newTypeRules_repeated typeBuilt
  obtain ⟨cel, -, same⟩ := withCustomRules_built customBuilt
  cases same
  exact ⟨itemRules, congrArg (FieldRuleSet.repeated · itemRules) base, shape, unset, itemsBuilt⟩

theorem newFieldRules_entries {outer : RuleMessage} {keys values : Option FieldRules}
    (kind : fieldLvl.type = .map outer keys values) (built : newFieldRules context field fieldLvl = .ok (some rules)) :
    ∃ keyInfo valueInfo valid keyRules valueRules, field.shape = .map keyInfo valueInfo valid ∧
      rules = .map (elementBase field fieldLvl (declared context fieldLvl)) keyRules valueRules ∧
        ElementBuilt context keyInfo keys keyRules ∧ ElementBuilt context valueInfo values valueRules := by
  have base := newFieldRules_declared built
  obtain ⟨typed, typeBuilt, customBuilt⟩ := (newFieldRules_built built).resolve_left (newFieldRules_unignored built)
  rw [kind] at typeBuilt
  obtain ⟨keyInfo, valueInfo, valid, shape, _, keyRules, valueRules, rfl, -, ⟨keysUnset, keysBuilt⟩, valuesUnset, valuesBuilt⟩ :=
    newTypeRules_map typeBuilt
  obtain ⟨cel, -, same⟩ := withCustomRules_built customBuilt
  cases same
  exact ⟨keyInfo, valueInfo, valid, keyRules, valueRules, shape, congrArg (FieldRuleSet.map · keyRules valueRules) base,
    ⟨keysUnset, keysBuilt⟩, ⟨valuesUnset, valuesBuilt⟩⟩

theorem definedOnly_clean (base : FieldValidationRules) (enumRules : EnumRules) :
    Clean (EnumValidationRules.validateDefinedOnly context.runtime base enumRules message) ↔
      (enumRules.definedOnly = true → message.getEnumValue base.field ∈ base.field.enumNumbers) := by
  unfold EnumValidationRules.validateDefinedOnly
  cases enumRules.definedOnly with
  | false => exact iff_of_true clean_ok fun impossible => by cases impossible
  | true =>
    refine (cleanIf_bind fun _ => steady_emplaceBackIf_ok _ _).trans ?_
    refine (and_iff_right rfl).trans ((clean_emplaceBackIf _ _).trans ?_)
    simp

/-- Rules for a single value. -/
theorem elementRules_clean (elementary : fieldLvl.type.isElementKind = true)
    (accessible : ∀ enumRules, fieldLvl.type = .enum enumRules → enumRules.definedOnly = true → field.isRepeated = false)
    (built : newFieldRules context field fieldLvl = .ok (some rules)) :
    Clean (rules.validate context.runtime message) ↔
      MeetsWhole context field fieldLvl message ∧ MeetsParts context field fieldLvl message := by
  have wellFormed := newFieldRules_type built
  have base := newFieldRules_declared built
  obtain ⟨cel, -, rfl, -⟩ := newFieldRules_some elementary built
  rw [elementRuleSet_base] at base
  obtain rfl : cel = declared context fieldLvl := congrArg FieldValidationRules.toCelValidationRules base
  have whole : Clean ((elementBase field fieldLvl (declared context fieldLvl)).validate context.runtime message) ↔ _ :=
    fieldValidate_clean wellFormed
  rw [← whole]
  unfold elementRuleSet MeetsParts
  cases kind : fieldLvl.type with
  | enum enumRules =>
    refine (clean_orExit (definedOnly_steady _ _ _ _)).trans (and_congr_right fun _ => ?_)
    rw [definedOnly_clean]
    refine forall_congr' fun only => ?_
    exact (and_iff_right (accessible enumRules kind only)).symm
  | repeated _ _ =>
    rw [kind] at elementary
    cases elementary
  | map _ _ _ =>
    rw [kind] at elementary
    cases elementary
  | _ => exact (and_iff_left trivial).symm

/-- Rules for a repeated field and its items. -/
theorem repeatedRules_clean {outer : RuleMessage} {items : Option FieldRules} (kind : fieldLvl.type = .repeated outer items)
    (built : newFieldRules context field fieldLvl = .ok (some rules)) :
    Clean (ValidationRules.validate context.runtime message (.field rules)) ↔
      MeetsWhole context field fieldLvl message ∧ MeetsParts context field fieldLvl message := by
  have whole : Clean ((elementBase field fieldLvl (declared context fieldLvl)).validate context.runtime message) ↔ _ :=
    fieldValidate_clean (newFieldRules_type built)
  obtain ⟨itemRules, rfl, shape, unset, itemsBuilt⟩ := newFieldRules_items kind built
  rw [ruleParts_clean, ← whole]
  simp only [ruleParts, fieldParts, List.forall_mem_cons, MeetsParts, kind]
  refine and_congr_right fun _ => ?_
  cases items with
  | none =>
    rw [unset rfl]
    exact iff_of_true (fun _ impossible => by cases impossible) fun _ impossible => by cases impossible
  | some inner =>
    have found := itemsBuilt inner rfl
    simp only [Option.mem_some_iff, forall_eq']
    cases itemRules with
    | none => exact iff_of_true (fun _ impossible => by cases impossible) (.inl (newFieldRules_none found))
    | some rules =>
      have skips : (elementBase field inner (declared context inner)).ignoreEmpty = true ↔ IgnoresEmpty field inner :=
        ignoreEmpty_iff _
      rw [or_iff_right (newFieldRules_unignored found), itemParts, List.forall_mem_map, newFieldRules_declared found]
      simp only [itemRound_clean, itemRules_clean]
      refine (checked_forall (message.elements field) (MeetsItemRules _ _ _)).trans (forall₂_congr fun value _ => ?_)
      rw [skips]
      exact Iff.rfl

/-- Rules for a map, its keys and its values. -/
theorem mapRules_clean {outer : RuleMessage} {keys values : Option FieldRules} (kind : fieldLvl.type = .map outer keys values)
    (built : newFieldRules context field fieldLvl = .ok (some rules)) :
    Clean (ValidationRules.validate context.runtime message (.field rules)) ↔
      MeetsWhole context field fieldLvl message ∧ MeetsParts context field fieldLvl message := by
  have whole : Clean ((elementBase field fieldLvl (declared context fieldLvl)).validate context.runtime message) ↔ _ :=
    fieldValidate_clean (newFieldRules_type built)
  obtain ⟨keyInfo, valueInfo, valid, keyRules, valueRules, shape, rfl, keysBuilt, valuesBuilt⟩ := newFieldRules_entries kind built
  have place : (elementBase field fieldLvl (declared context fieldLvl)).field = field := rfl
  rw [ruleParts_clean, ← whole]
  simp only [ruleParts, fieldParts, List.forall_mem_cons, MeetsParts, kind, shape]
  refine and_congr_right fun _ => ?_
  unfold entryParts MeetsEntries
  simp only [place, shape]
  by_cases unread : keyRules = none ∧ valueRules = none
  · obtain ⟨rfl, rfl⟩ := unread
    refine iff_of_true (fun _ impossible => by cases impossible) (.inl ⟨?_, ?_⟩)
    · exact keysBuilt.none_iff.mp rfl
    · exact valuesBuilt.none_iff.mp rfl
  · have looked : ¬(Disregarded keys ∧ Disregarded values) := by
      rwa [← keysBuilt.none_iff, ← valuesBuilt.none_iff]
    have present : ¬(keyRules.isNone && valueRules.isNone) = true := by
      simpa using unread
    rw [if_neg present, or_iff_right looked]
    cases context.runtime.listKeys keyInfo ((message.entries field).map Entry.key) with
    | error failure =>
      refine iff_of_false (fun clean => not_clean_error failure (clean _ (List.mem_singleton.mpr rfl))) ?_
      rintro ⟨listed, impossible, -⟩
      cases impossible
    | ok listed =>
      simp only [List.forall_mem_map, Except.ok.injEq, exists_eq_left']
      refine forall₂_congr fun entry _ => ?_
      rw [entryCheck_clean valid, keysBuilt.meets_iff, valuesBuilt.meets_iff]

end Fields

section Messages

/-- Message types whose rules ask for the presence and for the number of singular fields
only, which is all that reflection allows. -/
structure Descriptor.Accessible (descriptor : Descriptor) : Prop where
  oneofs : ∀ options ∈ descriptor.options, ∀ oneof ∈ options.oneof, ∀ field ∈ oneof.listed descriptor,
    field.isRepeated = false
  enums : ∀ field ∈ descriptor.fields, ∀ options ∈ field.options, ∀ rules, options.type = .enum rules →
    rules.definedOnly = true → field.isRepeated = false

/-- A message meets the options of its type. -/
structure MeetsMessage (context : BuildContext) (message : Message) : Prop where
  expressions : ∀ options ∈ message.descriptor.options,
    MeetsCel context.runtime { exprs := messageLevelRules options } (context.runtime.createMessage message)
  oneofs : ∀ options ∈ message.descriptor.options, ∀ oneof ∈ options.oneof,
    ¬Miscounted ((oneof.listed message.descriptor).filter message.populates).length oneof.required
  fields : ∀ field ∈ message.descriptor.fields, ∀ options ∈ field.options,
    MeetsOptions context field (memberOptions message.descriptor.oneofNames field options) message
  required : ∀ oneof ∈ message.descriptor.oneofs, oneof.options = some true → message.hasOneof oneof = true

variable {context : BuildContext} {descriptor : Descriptor} {message : Message}

theorem memberOptions_type (names : List String) (field : FieldDescriptor) (options : FieldRules) :
    (memberOptions names field options).type = options.type := by
  unfold memberOptions
  split
  · obtain ⟨ignore, required, cel, celExpression, type⟩ := options
    rfl
  · rfl

/-- The rules that are built for a field, of whatever kind. -/
theorem fieldRules_clean {field : FieldDescriptor} {fieldLvl : FieldRules} {rules : FieldRuleSet}
    (accessible : ∀ enumRules, fieldLvl.type = .enum enumRules → enumRules.definedOnly = true → field.isRepeated = false)
    (built : newFieldRules context field fieldLvl = .ok (some rules)) :
    Clean (ValidationRules.validate context.runtime message (.field rules)) ↔ MeetsOptions context field fieldLvl message := by
  rw [MeetsOptions, or_iff_right (newFieldRules_unignored built)]
  cases kind : fieldLvl.type with
  | repeated outer items => exact repeatedRules_clean kind built
  | map outer keys values => exact mapRules_clean kind built
  | unknown typeCase =>
    have wellFormed := newFieldRules_type built
    rw [kind, RuleType.WellFormed] at wellFormed
    exact wellFormed.elim
  | _ => exact elementRules_clean (by rw [kind]; rfl) accessible built

theorem memberRules_clean (accessible : descriptor.Accessible) {names : List String} {field : FieldDescriptor}
    (declares : field ∈ descriptor.fields) {result : Option ValidationRules}
    (built : newMemberRules context names field = .ok result) :
    (∀ rules ∈ result, Clean (rules.validate context.runtime message)) ↔
      ∀ options ∈ field.options, MeetsOptions context field (memberOptions names field options) message := by
  cases set : field.options with
  | none =>
    unfold newMemberRules at built
    rw [set] at built
    cases built
    exact iff_of_true (fun _ impossible => by cases impossible) fun _ impossible => by cases impossible
  | some options =>
    rw [newMemberRules_eq names set] at built
    obtain ⟨rules, found, same⟩ := bind_ok built
    cases same
    simp only [Option.mem_some_iff, forall_eq']
    cases rules with
    | none => exact iff_of_true (fun _ impossible => by cases impossible) (.inl (newFieldRules_none found))
    | some rules =>
      simp only [Option.map_some, Option.mem_some_iff, forall_eq']
      refine fieldRules_clean (fun enumRules kind only => ?_) found
      rw [memberOptions_type] at kind
      exact accessible.enums field declares options set enumRules kind only

theorem messageCel_clean (cel : CelValidationRules) :
    Clean (ValidationRules.validate context.runtime message (.message cel)) ↔
      MeetsCel context.runtime cel (context.runtime.createMessage message) := by
  rw [← celCheck_clean]
  refine (cleanIf_bind fun _ => steady_pure _).trans ?_
  rw [cleanIf_pure]
  exact And.comm

theorem messageOneof_clean (fields : List FieldDescriptor) (singular : ∀ field ∈ fields, field.isRepeated = false)
    (required : Bool) : Clean (ValidationRules.validate context.runtime message (.messageOneof fields required)) ↔
      ¬Miscounted (fields.filter message.populates).length required := by
  have same : fields.filter message.hasField = fields.filter message.populates :=
    List.filter_congr fun field member => (populates_singular (singular field member)).symm
  obtain ⟨late, run, count⟩ := messageOneof_apply message fields required false {}
  rw [same] at count
  have succeeds : Succeeds (alone (ValidationRules.validate context.runtime message (.messageOneof fields required))).1 := rfl
  have entries : (alone (ValidationRules.validate context.runtime message (.messageOneof fields required))).2.entries =
      late := congrArg Journal.entries run
  rw [Clean, CleanIf, and_iff_right succeeds, Silent, entries, ← List.length_eq_zero_iff, count]
  split <;> simp_all

theorem oneof_clean (oneof : OneofDescriptor) (required : Bool) :
    Clean (ValidationRules.validate context.runtime message (.oneof oneof required)) ↔
      (required = true → message.hasOneof oneof = true) := by
  refine (clean_emplaceBackIf _ _).trans ?_
  simp

/-- What holds of all rules of a message, told from the level of the message, from its
fields and from its oneofs. -/
theorem rules_forall {names : List String} {level rules : List ValidationRules} (holds : ValidationRules → Prop)
    (built : (do
      let fieldRules ← descriptor.fields.mapM (newMemberRules context names)
      pure (level ++ fieldRules.filterMap id ++
        descriptor.oneofs.filterMap fun oneof => oneof.options.map (ValidationRules.oneof oneof)) : Rules) = .ok rules) :
    (∀ rule ∈ rules, holds rule) ↔ (∀ rule ∈ level, holds rule) ∧
      (∀ field ∈ descriptor.fields, ∃ result, newMemberRules context names field = .ok result ∧
        ∀ rule ∈ result, holds rule) ∧
      ∀ oneof ∈ descriptor.oneofs, ∀ required ∈ oneof.options, holds (.oneof oneof required) := by
  obtain ⟨fieldRules, found, same⟩ := bind_ok built
  cases same
  rw [List.forall_mem_append, List.forall_mem_append, and_assoc]
  refine and_congr_right fun _ => and_congr ⟨fun all field declares => ?_, fun all rule member => ?_⟩
    ⟨fun all oneof declares required set => ?_, fun all rule member => ?_⟩
  · obtain ⟨result, present, built⟩ := mapM_member found field declares
    exact ⟨result, built, fun rule set => all rule (List.mem_filterMap.mpr ⟨result, present, set⟩)⟩
  · obtain ⟨result, present, set⟩ := List.mem_filterMap.mp member
    obtain ⟨field, declares, built⟩ := mapM_ok found result present
    obtain ⟨result', built', each⟩ := all field declares
    cases built.symm.trans built'
    exact each rule set
  · exact all _ (List.mem_filterMap.mpr ⟨oneof, declares, by rw [set, Option.map_some]⟩)
  · obtain ⟨oneof, declares, made⟩ := List.mem_filterMap.mp member
    obtain ⟨required, set, rfl⟩ := Option.map_eq_some_iff.mp made
    exact all oneof declares required set

theorem levelFields_clean (accessible : descriptor.Accessible) {names : List String}
    (wellFormed : descriptor.WellFormed context) : (∀ field ∈ descriptor.fields, ∃ result, newMemberRules context names field = .ok result ∧
        ∀ rule ∈ result, Clean (rule.validate context.runtime message)) ↔
      ∀ field ∈ descriptor.fields, ∀ options ∈ field.options,
        MeetsOptions context field (memberOptions names field options) message := by
  refine forall₂_congr fun field declares => ?_
  obtain ⟨result, built⟩ := (builds_newMemberRules names field).mpr (wellFormed.fields field declares)
  rw [← memberRules_clean accessible declares built]
  constructor
  · rintro ⟨result', built', each⟩
    cases built.symm.trans built'
    exact each
  · exact fun each => ⟨result, built, each⟩

theorem levelOneofs_clean : (∀ oneof ∈ descriptor.oneofs, ∀ required ∈ oneof.options,
      Clean (ValidationRules.validate context.runtime message (.oneof oneof required))) ↔
    ∀ oneof ∈ descriptor.oneofs, oneof.options = some true → message.hasOneof oneof = true := by
  refine forall₂_congr fun oneof _ => ?_
  simp only [oneof_clean]
  constructor
  · intro each set
    exact each true set rfl
  · rintro each required set rfl
    exact each set

/-- The rules of a message are clean on the messages that meet the options of their type. -/
theorem newMessageRules_clean (accessible : message.descriptor.Accessible) {rules : List ValidationRules}
    (built : newMessageRules context message.descriptor = .ok rules) :
    (∀ rule ∈ rules, Clean (rule.validate context.runtime message)) ↔ MeetsMessage context message := by
  have wellFormed := builds_newMessageRules.mp ⟨rules, built⟩
  unfold newMessageRules at built
  cases set : message.descriptor.options with
  | none =>
    have names : message.descriptor.oneofNames = [] := by rw [Descriptor.oneofNames, set]
    simp only [set] at built
    rw [rules_forall _ built, levelFields_clean accessible wellFormed, levelOneofs_clean]
    constructor
    · rintro ⟨-, fields, oneofs⟩
      refine ⟨?_, ?_, by rwa [names], oneofs⟩
      all_goals
        intro options impossible
        rw [set] at impossible
        cases impossible
    · intro meets
      refine ⟨fun _ impossible => (by cases impossible), ?_, meets.required⟩
      have fields := meets.fields
      rwa [names] at fields
  | some options =>
    have names : message.descriptor.oneofNames = options.oneof.flatMap MessageOneofRule.fields := by
      rw [Descriptor.oneofNames, set]
    simp only [set] at built
    obtain ⟨cel, celBuilt, built⟩ := bind_ok built
    obtain ⟨oneofs, oneofsBuilt, built⟩ := bind_ok built
    obtain ⟨level, levelBuilt, built⟩ := bind_ok built
    cases levelBuilt
    rw [buildMessageRules_eq] at celBuilt
    obtain ⟨-, rfl⟩ := addEach_ok.mp celBuilt
    rw [rules_forall _ built, levelFields_clean accessible wellFormed, levelOneofs_clean, List.forall_mem_cons,
      messageCel_clean]
    have counted : (∀ rule ∈ oneofs, Clean (rule.validate context.runtime message)) ↔ ∀ oneof ∈ options.oneof,
        ¬Miscounted ((oneof.listed message.descriptor).filter message.populates).length oneof.required := by
      constructor
      · intro all oneof member
        obtain ⟨rule, present, found⟩ := mapM_member oneofsBuilt oneof member
        obtain rfl := newMessageOneof_listed found
        exact (messageOneof_clean _ (accessible.oneofs options set oneof member) _).mp (all _ present)
      · intro all rule present
        obtain ⟨oneof, member, found⟩ := mapM_ok oneofsBuilt rule present
        obtain rfl := newMessageOneof_listed found
        exact (messageOneof_clean _ (accessible.oneofs options set oneof member) _).mpr (all oneof member)
    rw [counted]
    constructor
    · rintro ⟨⟨expressions, counts⟩, fields, required⟩
      refine ⟨?_, ?_, by rwa [names], required⟩
      · intro options' same
        cases set.symm.trans same
        exact expressions
      · intro options' same
        cases set.symm.trans same
        exact counts
    · intro meets
      have fields := meets.fields
      rw [names] at fields
      exact ⟨⟨meets.expressions options set, meets.oneofs options set⟩, fields, meets.required⟩

end Messages

end Protovalidate.Validate
