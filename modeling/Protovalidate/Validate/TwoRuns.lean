import Protovalidate.Foundation.Parallel
import Protovalidate.Validate.Changes

/-! The rules of a message run on another message that shows them the same: equal
values, and values of `this` that their expressions cannot tell apart. -/

namespace Protovalidate.Validate

open Foundation Check

/-- Runs that record the same violations. -/
abbrev Twin {β β' : Type} (related : β → β' → Prop) (part : RuleCheck β) (part' : RuleCheck β') : Prop :=
  Parallel RuleViolation.proto related part part'

section Recording

variable {violation violation' : RuleViolation}

theorem emplaceBack_twin (same : violation.proto = violation'.proto) :
    Twin Eq (emplaceBack violation) (emplaceBack violation') :=
  (parallel_add same).then fun _ => parallel_note _ _

theorem emplaceBackIf_twin (condition : Bool) (same : violation.proto = violation'.proto) :
    Twin Eq (emplaceBackIf condition violation) (emplaceBackIf condition violation') := by
  cases condition with
  | true => exact emplaceBack_twin same
  | false => exact parallel_pure rfl

end Recording

section Bindings

variable {this this' : CelValue} {activation activation' : Activation}

/-- Activations that differ in the value of `this`. -/
structure Rebound (this this' : CelValue) (activation activation' : Activation) : Prop where
  left : activation "this" = some this
  right : activation' "this" = some this'
  others : ∀ name, name ≠ "this" → activation name = activation' name

/-- Activations that differ in the value of `this` at most. -/
def Rebinds (this this' : CelValue) (activation activation' : Activation) : Prop :=
  activation = activation' ∨ Rebound this this' activation activation'

theorem rebinds_insert_this (activation : Activation) :
    Rebinds this this' (activation.insertValue "this" this) (activation.insertValue "this" this') := by
  cases bound : activation "this" with
  | none =>
    refine .inr ⟨by simp [Activation.insertValue, bound], by simp [Activation.insertValue, bound], fun name other => ?_⟩
    simp [Activation.insertValue, other]
  | some held =>
    refine .inl (funext fun name => ?_)
    simp only [Activation.insertValue, bound, Option.getD_some]

theorem Rebinds.insert (rebinds : Rebinds this this' activation activation') (name : String) (other : name ≠ "this")
    (value : CelValue) : Rebinds this this' (activation.insertValue name value) (activation'.insertValue name value) := by
  obtain rfl | ⟨left, right, others⟩ := rebinds
  · exact .inl rfl
  · refine .inr ⟨?_, ?_, fun name' other' => ?_⟩
    · simp [Activation.insertValue, other.symm, left]
    · simp [Activation.insertValue, other.symm, right]
    · simp only [Activation.insertValue, others name other, others name' other']

theorem Rebinds.remove (rebinds : Rebinds this this' activation activation') (name : String) (other : name ≠ "this") :
    Rebinds this this' (activation.removeValueEntry name) (activation'.removeValueEntry name) := by
  obtain rfl | ⟨left, right, others⟩ := rebinds
  · exact .inl rfl
  · refine .inr ⟨?_, ?_, fun name' other' => ?_⟩
    · simp [Activation.removeValueEntry, other.symm, left]
    · simp [Activation.removeValueEntry, other.symm, right]
    · simp only [Activation.removeValueEntry, others name' other']

theorem Rebinds.remove_this (rebinds : Rebinds this this' activation activation') :
    activation.removeValueEntry "this" = activation'.removeValueEntry "this" := by
  obtain rfl | ⟨-, -, others⟩ := rebinds
  · rfl
  · funext name
    unfold Activation.removeValueEntry
    split
    · rfl
    · exact others name ‹_›

end Bindings

section Cel

variable (runtime : Runtime) {self : CelValidationRules} {this this' : CelValue} {activation activation' : Activation}

/-- An expression that cannot tell two values of `this` apart. -/
def Blind (this this' : CelValue) (expression : String) : Prop :=
  ∀ activation activation', Rebound this this' activation activation' →
    runtime.evaluate expression activation = runtime.evaluate expression activation'

def BlindRules (self : CelValidationRules) (this this' : CelValue) : Prop :=
  ∀ expr ∈ self.exprs, Blind runtime this this' expr.rule.expression

variable {runtime}

theorem blindRules_self : BlindRules runtime self this this := by
  intro expr _ activation activation' ⟨left, right, others⟩
  suffices same : activation = activation' by rw [same]
  funext name
  by_cases named : name = "this"
  · rw [named, left, right]
  · exact others name named

theorem blindRules_of_nil (none : self.exprs = []) : BlindRules runtime self this this' := by
  intro expr member
  rw [none] at member
  cases member

theorem processRule_twin {expr : CompiledRule} (blind : Blind runtime this this' expr.rule.expression)
    (rebinds : Rebinds this this' activation activation') :
    Twin Eq (processRule runtime activation expr) (processRule runtime activation' expr) := by
  have same : runtime.evaluate expr.rule.expression activation = runtime.evaluate expr.rule.expression activation' := by
    obtain rfl | rebound := rebinds
    · rfl
    · exact blind _ _ rebound
  unfold processRule
  simp only [same]
  refine (parallel_note _ _).then fun _ => ?_
  split
  · exact parallel_pure rfl
  · exact (emplaceBackIf_twin _ rfl).then fun _ => parallel_pure rfl
  · exact (emplaceBackIf_twin _ rfl).then fun _ => parallel_pure rfl
  · exact parallel_pure rfl
  · exact parallel_pure rfl

theorem bindRule_rebinds (self : CelValidationRules) (expr : CompiledRule) (rebinds : Rebinds this this' activation activation') :
    Rebinds this this' (self.bindRule runtime expr activation) (self.bindRule runtime expr activation') := by
  unfold CelValidationRules.bindRule
  split
  · exact rebinds.insert _ (by decide) _
  · exact rebinds

/-- What the loop leaves behind: the status, and an activation. -/
def Leaves (this this' : CelValue) (result result' : Status × Activation) : Prop :=
  result.1 = result'.1 ∧ Rebinds this this' result.2 result'.2

theorem celLoop_twin {exprs : List CompiledRule}
    (blind : ∀ expr ∈ exprs, Blind runtime this this' expr.rule.expression)
    (rebinds : Rebinds this this' activation activation') :
    Twin (Leaves this this') (self.celLoop runtime exprs activation) (self.celLoop runtime exprs activation') := by
  induction exprs generalizing activation activation' with
  | nil => exact parallel_pure ⟨rfl, rebinds⟩
  | cons expr exprs ih =>
    have bound : Rebinds this this' (self.bindRule runtime expr activation) (self.bindRule runtime expr activation') :=
      bindRule_rebinds self expr rebinds
    have round := (processRule_twin (blind expr List.mem_cons_self) bound).framed (ruleValueOf_uniform self expr)
    exact round.exiting (fun status => parallel_pure ⟨rfl, bound⟩)
      (ih (fun later member => blind later (List.mem_cons_of_mem _ member)) (bound.remove _ (by decide)))

theorem validateCel_twin (blind : BlindRules runtime self this this')
    (rebinds : Rebinds this this' activation activation') :
    Twin (Leaves this this') (self.validateCel runtime activation) (self.validateCel runtime activation') := by
  have bound := (rebinds.insert "rules" (by decide) self.rulesValue).insert "now" (by decide) runtime.now
  refine (celLoop_twin blind bound).bind fun result result' leaves => ?_
  exact parallel_pure ⟨leaves.1, leaves.2.remove _ (by decide)⟩

/-- Conversions that both fail, or have values that the rules cannot tell apart. -/
inductive Converts (runtime : Runtime) (self : CelValidationRules) :
    Except StatusError CelValue → Except StatusError CelValue → Prop where
  | fails (failure : StatusError) : Converts runtime self (.error failure) (.error failure)
  | shows {this this' : CelValue} (blind : BlindRules runtime self this this') : Converts runtime self (.ok this) (.ok this')

theorem converts_self (conversion : Except StatusError CelValue) : Converts runtime self conversion conversion := by
  cases conversion with
  | error failure => exact .fails failure
  | ok this => exact .shows blindRules_self

end Cel

section Fields

variable {runtime : Runtime} {self base items : FieldValidationRules} {message message' : Message}

theorem leaves_isOk {this this' : CelValue} (result result' : Status × Activation) (leaves : Leaves this this' result result') :
    result.1.isOk = result'.1.isOk := by rw [leaves.1]

theorem validateThis_twin {this this' : CelValue} (blind : BlindRules runtime self.toCelValidationRules this this') :
    Twin Eq (self.validateThis runtime message this) (self.validateThis runtime message' this') := by
  have inside := (validateCel_twin blind (rebinds_insert_this Activation.empty)).framedIf leaves_isOk
    (placed_uniform self message message')
  exact inside.bind fun result result' leaves => parallel_pure leaves.1

theorem required_twin : Twin Eq
    (do
      emplaceBack (self.requiredViolation runtime message)
      pure (.ok ()) : RuleCheck Status)
    (do
      emplaceBack (self.requiredViolation runtime message')
      pure (.ok ())) := by
  refine Parallel.then (emplaceBack_twin ?_) fun _ => parallel_pure rfl
  rfl

theorem validateContainer_twin (isEmpty : Bool) {this this' : CelValue}
    (blind : BlindRules runtime self.toCelValidationRules this this') :
    Twin Eq (self.validateContainer runtime message isEmpty this) (self.validateContainer runtime message' isEmpty this') := by
  unfold FieldValidationRules.validateContainer
  split
  · exact parallel_pure rfl
  · split
    · exact required_twin
    · exact validateThis_twin blind

theorem validateAny_twin (any : AnyRules) (place place' : ProtoMessage) (descriptor : FieldInfo) (index : Option Nat)
    (anyMsg : Message) :
    Twin Eq (FieldValidationRules.validateAny runtime any ⟨place, descriptor, index⟩ anyMsg)
      (FieldValidationRules.validateAny runtime any ⟨place', descriptor, index⟩ anyMsg) := by
  unfold FieldValidationRules.validateAny
  split
  · exact parallel_pure rfl
  · split
    · exact parallel_pure rfl
    · refine Parallel.then (emplaceBackIf_twin _ ?_) fun _ => Parallel.then (emplaceBackIf_twin _ ?_) fun _ =>
        parallel_pure rfl
      · rfl
      · rfl

/-- What the rules of a field see of it in two messages. -/
structure FieldAlike (runtime : Runtime) (base : FieldValidationRules) (message message' : Message) : Prop where
  present : message.hasField base.field = message'.hasField base.field
  any : base.field.shape = .singular → base.anyRules ≠ none →
    base.getMessage runtime message = base.getMessage runtime message'
  value : base.field.shape = .singular → Converts runtime base.toCelValidationRules
    (runtime.createValueFromSingleField base.field.toFieldInfo (message.single base.field))
    (runtime.createValueFromSingleField base.field.toFieldInfo (message'.single base.field))
  noElements : (message.elements base.field).isEmpty = (message'.elements base.field).isEmpty
  list : base.field.shape = .repeated → BlindRules runtime base.toCelValidationRules
    (runtime.createList base.field (message.elements base.field)) (runtime.createList base.field (message'.elements base.field))
  noEntries : (message.entries base.field).isEmpty = (message'.entries base.field).isEmpty
  map : base.field.isMap = true → BlindRules runtime base.toCelValidationRules
    (runtime.createMap base.field (message.entries base.field)) (runtime.createMap base.field (message'.entries base.field))

variable (alike : FieldAlike runtime self message message')

include alike

theorem singleAny_twin (shape : self.field.shape = .singular) :
    Twin Eq (self.validateSingleAny runtime message) (self.validateSingleAny runtime message') := by
  unfold FieldValidationRules.validateSingleAny
  split
  · exact parallel_pure rfl
  · rename_i any present
    split
    · rw [alike.any shape (by simp [present])]
      exact validateAny_twin any _ _ _ _ _
    · exact parallel_pure rfl

theorem singleValue_twin (shape : self.field.shape = .singular) :
    Twin Eq (self.validateSingleValue runtime message) (self.validateSingleValue runtime message') := by
  unfold FieldValidationRules.validateSingleValue
  have converts := alike.value shape
  generalize runtime.createValueFromSingleField self.field.toFieldInfo (message.single self.field) = value at converts ⊢
  generalize runtime.createValueFromSingleField self.field.toFieldInfo (message'.single self.field) = value' at converts ⊢
  cases converts with
  | fails failure => exact parallel_pure rfl
  | shows blind => exact validateThis_twin blind

theorem singular_twin (shape : self.field.shape = .singular) :
    Twin Eq (self.validateSingular runtime message) (self.validateSingular runtime message') := by
  unfold FieldValidationRules.validateSingular
  rw [alike.present]
  split
  · exact required_twin
  · split
    · exact parallel_pure rfl
    · exact (singleAny_twin alike shape).orFail (singleValue_twin alike shape)

theorem fieldValidate_twin : Twin Eq (self.validate runtime message) (self.validate runtime message') := by
  unfold FieldValidationRules.validate
  cases shape : self.field.shape with
  | map keyInfo valueInfo valid =>
    simp only [alike.noEntries]
    exact validateContainer_twin _ (alike.map (by rw [FieldDescriptor.isMap, shape]))
  | repeated =>
    simp only [alike.noElements]
    exact validateContainer_twin _ (alike.list shape)
  | singular => exact (parallel_note _ _).then fun _ => singular_twin alike shape

theorem enumValidate_twin (enumRules : EnumRules)
    (same : message.getEnumValue self.field = message'.getEnumValue self.field) :
    Twin Eq (EnumValidationRules.validate runtime self enumRules message)
      (EnumValidationRules.validate runtime self enumRules message') := by
  refine (fieldValidate_twin alike).orExit ?_
  unfold EnumValidationRules.validateDefinedOnly
  split
  · rw [same]
    refine (parallel_note _ _).then fun _ => Parallel.then (emplaceBackIf_twin _ ?_) fun _ => parallel_pure rfl
    rfl
  · exact parallel_pure rfl

end Fields

section Items

variable {runtime : Runtime} {base items : FieldValidationRules} {message message' : Message}

/-- What the rules of an item see of it. -/
structure ItemAlike (runtime : Runtime) (base items : FieldValidationRules) (value value' : Value) : Prop where
  empty : isEmptyItem (runtime.listItem base.field.toFieldInfo value) =
    isEmptyItem (runtime.listItem base.field.toFieldInfo value')
  blind : BlindRules runtime items.toCelValidationRules (runtime.listItem base.field.toFieldInfo value)
    (runtime.listItem base.field.toFieldInfo value')
  any : items.anyRules ≠ none → value = value'

theorem itemRules_twin {value value' : Value} (alike : ItemAlike runtime base items value value') (index : Nat) :
    Twin Eq (RepeatedValidationRules.itemRules runtime base items message (index, value))
      (RepeatedValidationRules.itemRules runtime base items message' (index, value')) := by
  refine (validateCel_twin alike.blind (rebinds_insert_this Activation.empty)).bind fun result result' leaves => ?_
  cases present : items.anyRules with
  | none => exact parallel_pure leaves.1
  | some any =>
    obtain rfl := alike.any (by simp [present])
    exact validateAny_twin any _ _ _ _ _

theorem checked_alike {values values' : List Value} (alike : List.Forall₂ (ItemAlike runtime base items) values values') :
    List.Forall₂ (fun item item' => item.1 = item'.1 ∧ ItemAlike runtime base items item.2 item'.2)
      (RepeatedValidationRules.checked runtime base items values)
      (RepeatedValidationRules.checked runtime base items values') := by
  refine List.rel_filter (fun item item' pair => ?_) ?_
  · simp only [pair.2.empty]
  · rw [List.forall₂_map_left_iff, List.forall₂_map_right_iff]
    generalize 0 = start
    induction alike generalizing start with
    | nil => exact .nil
    | cons pair _ ih => exact .cons ⟨rfl, pair⟩ (ih (start + 1))

theorem repeatedValidate_twin {itemRules : Option FieldRuleSet} (alike : FieldAlike runtime base message message')
    (each : ∀ rules, itemRules = some rules → List.Forall₂ (ItemAlike runtime base rules.base)
      (message.elements base.field) (message'.elements base.field)) :
    Twin Eq (RepeatedValidationRules.validate runtime base message itemRules)
      (RepeatedValidationRules.validate runtime base message' itemRules) := by
  refine (fieldValidate_twin alike).orExit ?_
  cases itemRules with
  | none => exact parallel_pure rfl
  | some rules =>
    refine Parallel.eachThen ((checked_alike (each rules rfl)).imp fun item item' pair => ?_) (parallel_pure rfl)
    obtain ⟨index, value⟩ := item
    obtain ⟨index', value'⟩ := item'
    obtain ⟨rfl, alike⟩ := pair
    exact (itemRules_twin alike index).framed (itemPlaced_uniform base message message' runtime index)

end Items

section Maps

variable {runtime : Runtime} {base : FieldValidationRules} {keyInfo valueInfo : FieldInfo}
variable {keyRules valueRules : Option FieldRuleSet} {entry entry' : Entry} {message message' : Message}

/-- What the rules of the values see of an entry. -/
structure EntryAlike (runtime : Runtime) (valueInfo : FieldInfo) (valueRules : Option FieldRuleSet)
    (entry entry' : Entry) : Prop where
  key : entry.key = entry'.key
  empty : valueRules ≠ none →
    isEmptyItem (runtime.mapValue valueInfo entry.value) = isEmptyItem (runtime.mapValue valueInfo entry'.value)
  blind : ∀ rules, valueRules = some rules → BlindRules runtime rules.base.toCelValidationRules
    (runtime.mapValue valueInfo entry.value) (runtime.mapValue valueInfo entry'.value)

theorem keyPart_twin (entry entry' : Entry) (key : CelValue) (activation : Activation) :
    Twin Eq (MapValidationRules.keyPart runtime keyInfo keyRules entry key activation)
      (MapValidationRules.keyPart runtime keyInfo keyRules entry' key activation) := by
  cases keyRules with
  | none => exact parallel_pure rfl
  | some rules =>
    simp only [MapValidationRules.keyPart]
    split
    · exact parallel_pure rfl
    · have blind : BlindRules runtime rules.base.toCelValidationRules key key := blindRules_self
      have inside := (validateCel_twin blind (rebinds_insert_this activation)).framedIf leaves_isOk
        (keyPlaced_uniform runtime keyInfo entry entry')
      refine inside.bind fun result result' leaves => ?_
      obtain ⟨status, left⟩ := result
      obtain ⟨status', left'⟩ := result'
      obtain ⟨rfl, rebinds⟩ : status = status' ∧ Rebinds key key left left' := leaves
      cases status with
      | error failure => exact parallel_pure rfl
      | ok _ => exact parallel_pure (congrArg Except.ok rebinds.remove_this)

theorem valueEnd_twin (entry entry' : Entry) (start : Nat) (status : Status) {left left' : Activation}
    (same : left.removeValueEntry "this" = left'.removeValueEntry "this") (grew : Bool) :
    Twin Eq (MapValidationRules.valueEnd valueInfo entry start status left grew)
      (MapValidationRules.valueEnd valueInfo entry' start status left' grew) := by
  unfold MapValidationRules.valueEnd
  rw [same]
  split
  · exact parallel_pure rfl
  · split
    · refine Parallel.then (parallel_edit start fun violation violation' same => ?_) fun _ => parallel_pure rfl
      exact same
    · exact parallel_pure rfl

theorem valuePart_twin (alike : EntryAlike runtime valueInfo valueRules entry entry') (activation : Activation)
    (start : Nat) :
    Twin Eq (MapValidationRules.valuePart runtime valueInfo valueRules entry activation start)
      (MapValidationRules.valuePart runtime valueInfo valueRules entry' activation start) := by
  cases valueRules with
  | none => exact parallel_pure rfl
  | some rules =>
    simp only [MapValidationRules.valuePart, alike.empty (Option.some_ne_none rules)]
    split
    · exact parallel_pure rfl
    · have inside := ((validateCel_twin (alike.blind rules rfl) (rebinds_insert_this activation)).framedIf leaves_isOk
        (rulePath_uniform runtime .values)).grown
      refine inside.bind fun result result' leaves => ?_
      obtain ⟨⟨status, left⟩, grew⟩ := result
      obtain ⟨⟨status', left'⟩, grew'⟩ := result'
      obtain ⟨⟨rfl, rebinds⟩, rfl⟩ : Leaves _ _ (status, left) (status', left') ∧ grew = grew' := leaves
      exact valueEnd_twin entry entry' start _ rebinds.remove_this _

theorem entryRules_twin (alike : EntryAlike runtime valueInfo valueRules entry entry') (key : CelValue)
    (activation : Activation) (start : Nat) :
    Twin Eq
      (MapValidationRules.entryRules runtime keyInfo valueInfo keyRules valueRules entry key activation start)
      (MapValidationRules.entryRules runtime keyInfo valueInfo keyRules valueRules entry' key activation start) := by
  refine (keyPart_twin entry entry' key activation).then fun result => ?_
  cases result with
  | error failure => exact parallel_pure rfl
  | ok left => exact valuePart_twin alike left start

theorem entryEnd_twin (same : entry.key = entry'.key) (activation : Activation) (start : Nat) (grew : Bool) :
    Twin Eq (MapValidationRules.entryEnd base keyInfo valueInfo entry activation start grew)
      (MapValidationRules.entryEnd base keyInfo valueInfo entry' activation start grew) := by
  unfold MapValidationRules.entryEnd setPathElementMapKey
  rw [same]
  split
  · split
    · exact parallel_pure rfl
    · refine Parallel.then (parallel_edit start fun violation violation' same => ?_) fun _ =>
        parallel_failsFast.then fun answer => ?_
      · simp only [RuleViolation.appendFieldPathElement, same]
      · cases answer <;> exact parallel_pure rfl
  · exact parallel_pure rfl

theorem entryRound_twin (alike : EntryAlike runtime valueInfo valueRules entry entry') (key : CelValue)
    (activation : Activation) :
    Twin Eq (MapValidationRules.entryRound runtime base keyInfo valueInfo keyRules valueRules entry key activation)
      (MapValidationRules.entryRound runtime base keyInfo valueInfo keyRules valueRules entry' key activation) := by
  refine Parallel.scope fun start => (entryRules_twin alike key activation start).grown.bind fun result result' same => ?_
  obtain ⟨result, grew⟩ := result
  obtain ⟨result', grew'⟩ := result'
  obtain ⟨rfl, rfl⟩ : result = result' ∧ grew = grew' := same
  cases result with
  | error failure => exact parallel_pure rfl
  | ok left => exact entryEnd_twin alike.key left start _

theorem entryLoop_twin {entries entries' : List Entry}
    (alike : List.Forall₂ (EntryAlike runtime valueInfo valueRules) entries entries') (keys : List CelValue)
    (activation : Activation) :
    Twin Eq
      (MapValidationRules.entryLoop runtime base keyInfo valueInfo keyRules valueRules (entries.zip keys) activation)
      (MapValidationRules.entryLoop runtime base keyInfo valueInfo keyRules valueRules (entries'.zip keys) activation) := by
  induction alike generalizing keys activation with
  | nil => exact parallel_pure rfl
  | cons pair _ ih =>
    cases keys with
    | nil => exact parallel_pure rfl
    | cons key keys =>
      refine (entryRound_twin pair key activation).then fun result => ?_
      cases result with
      | inl status => exact parallel_pure rfl
      | inr left => exact ih keys left

theorem keys_alike {entries entries' : List Entry}
    (alike : List.Forall₂ (EntryAlike runtime valueInfo valueRules) entries entries') :
    entries.map Entry.key = entries'.map Entry.key := by
  induction alike with
  | nil => rfl
  | cons pair _ ih => rw [List.map_cons, List.map_cons, pair.key, ih]

theorem mapValidate_twin (alike : FieldAlike runtime base message message')
    (each : ∀ keyInfo valueInfo valid, base.field.shape = .map keyInfo valueInfo valid →
      List.Forall₂ (EntryAlike runtime valueInfo valueRules) (message.entries base.field) (message'.entries base.field)) :
    Twin Eq (MapValidationRules.validate runtime base keyRules valueRules message)
      (MapValidationRules.validate runtime base keyRules valueRules message') := by
  refine (fieldValidate_twin alike).orFail ?_
  unfold MapValidationRules.validateEntries
  split
  · exact parallel_pure rfl
  · split
    · rename_i keyInfo valueInfo valid shape
      have pairs := each keyInfo valueInfo valid shape
      rw [keys_alike pairs]
      split
      · exact parallel_pure rfl
      · exact entryLoop_twin pairs _ _
    · exact parallel_pure rfl

end Maps

section Messages

variable {runtime : Runtime} {message message' : Message}

theorem hasCount_twin (present : ∀ field, message.hasField field = message'.hasField field) (fields : List FieldDescriptor) :
    Twin Eq (MessageOneofValidationRules.hasCount message fields)
      (MessageOneofValidationRules.hasCount message' fields) := by
  induction fields with
  | nil => exact parallel_pure rfl
  | cons field fields ih =>
    refine (parallel_note _ _).then fun _ => ih.then fun others => ?_
    rw [present field]
    exact parallel_pure rfl

theorem messageOneof_twin (present : ∀ field, message.hasField field = message'.hasField field)
    (fields : List FieldDescriptor) (required : Bool) :
    Twin Eq (MessageOneofValidationRules.validate fields required message)
      (MessageOneofValidationRules.validate fields required message') := by
  refine (hasCount_twin present fields).then fun count => ?_
  refine (emplaceBackIf_twin _ rfl).then fun _ => ?_
  exact (emplaceBackIf_twin _ rfl).then fun _ => parallel_pure rfl

theorem oneof_twin (present : ∀ field, message.hasField field = message'.hasField field) (oneof : OneofDescriptor)
    (required : Bool) :
    Twin Eq (OneofValidationRules.validate oneof required message)
      (OneofValidationRules.validate oneof required message') := by
  have same : message.hasOneof oneof = message'.hasOneof oneof := by
    simp only [Message.hasOneof, present]
  unfold OneofValidationRules.validate
  rw [same]
  exact (emplaceBackIf_twin _ rfl).then fun _ => parallel_pure rfl

theorem messageRules_twin {rules : CelValidationRules}
    (blind : BlindRules runtime rules (runtime.createMessage message) (runtime.createMessage message')) :
    Twin Eq (MessageValidationRules.validate runtime rules message)
      (MessageValidationRules.validate runtime rules message') :=
  (validateCel_twin blind (rebinds_insert_this Activation.empty)).bind fun _ _ leaves => parallel_pure leaves.1

end Messages
end Protovalidate.Validate
