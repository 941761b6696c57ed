import Protovalidate.Validate.ElementKinds
import Protovalidate.Validate.Parts
import Protovalidate.Validate.PlainRuntime

/-! The ids and messages of the violations that each check appends, for singular
fields and for the items, keys and values of containers. -/

namespace Protovalidate.Validate

open Foundation Check

variable (runtime : Runtime)

section Pairs

/-- What is compared of a violation. -/
def pairOf (violation : RuleViolation) : String × String := (violation.proto.ruleId, violation.proto.message)

/-- The ids and messages that a check appends on its own. -/
def pairsOf {β : Type} (part : RuleCheck β) : List (String × String) := (alone part).2.entries.map pairOf

variable {β γ : Type} {part : RuleCheck β} {first rest : RuleCheck Status}

theorem pairsOf_bind {next : β → RuleCheck γ} (steady : ∀ value, Steady (next value)) :
    pairsOf (part >>= next) = pairsOf part ++ pairsOf (next (alone part).1) := by
  rw [pairsOf, alone_bind steady]
  exact List.map_append

theorem pairsOf_thenPure {next : β → RuleCheck γ} (pures : ∀ value, ∃ result, next value = pure result) :
    pairsOf (part >>= next) = pairsOf part := by
  obtain ⟨result, same⟩ := pures (alone part).1
  change (next (alone part).1 false (alone part).2).2.entries.map pairOf = _
  rw [same]
  rfl

theorem pairsOf_framedIf (allows : β → Bool) {change : RuleViolation → RuleViolation}
    (keeps : ∀ violation, pairOf (change violation) = pairOf violation) :
    pairsOf (framedIf allows change part) = pairsOf part := by
  rw [pairsOf, alone_framedIf]
  split
  · simp only [pairsOf, List.map_map]
    exact List.map_congr_left fun violation _ => keeps violation
  · rfl

theorem pairsOf_orFail (steady : Steady rest) (succeeds : (alone (orFail first rest)).1 = .ok ()) :
    pairsOf (orFail first rest) = pairsOf first ++ pairsOf rest := by
  obtain ⟨firstOk, _⟩ := (alone_orFail_ok steady).mp succeeds
  rw [pairsOf, alone_orFail_journal steady firstOk]
  exact List.map_append

theorem pairsOf_orExit (steady : Steady rest) (succeeds : (alone (orExit first rest)).1 = .ok ()) :
    pairsOf (orExit first rest) = pairsOf first ++ pairsOf rest := by
  rw [alone_orExit] at succeeds
  rw [pairsOf, alone_orExit, ← pairsOf_orFail steady succeeds, pairsOf]

theorem pairsOf_emplaceBackIf (condition : Bool) (violation : RuleViolation) :
    pairsOf (emplaceBackIf condition violation) = if condition then [pairOf violation] else [] := by
  cases condition <;> rfl

end Pairs

section Checks

/-- What the CEL rules of an element append. -/
def celPairs (cel : CelValidationRules) (seen : CelValue) : List (String × String) :=
  pairsOf (cel.validateCel runtime (Activation.empty.insertValue "this" seen))

/-- Whether the type URL of a message is not allowed. -/
def allowViolated (any : AnyRules) (typeUri : String) : Bool := !any.in_.isEmpty && !any.in_.contains typeUri

/-- The type URL, if the message has one. -/
def typeUrl (anyMsg : Message) : Option String :=
  match anyMsg.descriptor.findFieldByName "type_url" with
  | none => none
  | some field => if field.type != .string then none else some (FieldValidationRules.getString anyMsg field)

/-- What `ValidateAny` appends. -/
def anyPairs (any : AnyRules) (anyMsg : Message) : List (String × String) :=
  match typeUrl anyMsg with
  | none => []
  | some typeUri =>
    (if allowViolated any typeUri then [("any.in", "type URL must be in the allow list")] else []) ++
      if any.notIn.contains typeUri then [("any.not_in", "type URL must not be in the block list")] else []

theorem pairsOf_validateAny (any : AnyRules) (field : ProtoField) (anyMsg : Message) :
    pairsOf (FieldValidationRules.validateAny runtime any field anyMsg) = anyPairs any anyMsg := by
  unfold FieldValidationRules.validateAny anyPairs typeUrl
  cases anyMsg.descriptor.findFieldByName "type_url" with
  | none => rfl
  | some typeUriField =>
    by_cases other : (typeUriField.type != .string) = true
    · simp only [other, ↓reduceIte]
      rfl
    · simp only [other, Bool.false_eq_true, ↓reduceIte]
      rw [pairsOf_bind fun _ => SteadyAt.bind (steady_emplaceBackIf _ _) fun _ => steady_pure _,
        pairsOf_bind fun _ => steady_pure _, pairsOf_emplaceBackIf, pairsOf_emplaceBackIf]
      simp only [pairsOf, alone_pure, List.map_nil, List.append_nil]
      rfl

/-- What the rule for defined values appends. -/
def enumPairs (enumRules : EnumRules) (numbers : List Int) (number : Int) : List (String × String) :=
  if enumRules.definedOnly && !numbers.contains number then
    [("enum.defined_only", "value must be one of the defined enum values")]
  else []

theorem pairsOf_definedOnly (base : FieldValidationRules) (enumRules : EnumRules) (message : Message) :
    pairsOf (EnumValidationRules.validateDefinedOnly runtime base enumRules message) =
      enumPairs enumRules base.field.enumNumbers (message.getEnumValue base.field) := by
  unfold EnumValidationRules.validateDefinedOnly enumPairs
  cases enumRules.definedOnly with
  | false => rfl
  | true =>
    simp only [↓reduceIte, Bool.true_and]
    rw [pairsOf_bind fun _ => SteadyAt.bind (steady_emplaceBackIf _ _) fun _ => steady_pure _,
      pairsOf_bind fun _ => steady_pure _, pairsOf_emplaceBackIf]
    simp only [pairsOf, alone_pure, List.map_nil, List.append_nil]
    rfl

theorem placed_pair (self : FieldValidationRules) (message : Message) (violation : RuleViolation) :
    pairOf (self.placed message violation) = pairOf violation := rfl

theorem pairsOf_validateThis (self : FieldValidationRules) (message : Message) (seen : CelValue) :
    pairsOf (self.validateThis runtime message seen) = celPairs runtime self.toCelValidationRules seen := by
  rw [FieldValidationRules.validateThis, pairsOf_bind fun _ => steady_pure _, pairsOf_framedIf _ (placed_pair self message)]
  exact List.append_nil _

end Checks

section Singular

variable {runtime} {single : FieldDescriptor} {holder : Message} {value : Value} {seen : CelValue}

/-- The message that the rules for `Any` look at. -/
def anyMessage (runtime : Runtime) (field : FieldInfo) : Value → Message
  | .message value => value
  | .scalar _ => runtime.prototype field.messageType

/-- The number that is checked against the defined ones. -/
def enumNumber (field : FieldInfo) : Value → Int
  | .scalar (.enum number) => number
  | _ => field.defaultEnum

/-- A populated singular field. -/
structure Populated (holder : Message) (single : FieldDescriptor) (value : Value) : Prop where
  singular : single.shape = .singular
  held : holder.find single = some (.singular value)

namespace Populated

variable (populated : Populated holder single value)

include populated

theorem hasField : holder.hasField single = true := by
  rw [Message.hasField, populated.held]
  rfl

theorem single_eq : holder.single single = some value := by
  rw [Message.single, populated.held]

theorem getEnumValue_eq : holder.getEnumValue single = enumNumber single.toFieldInfo value := by
  rw [Message.getEnumValue, populated.single_eq]
  cases value with
  | scalar scalar => cases scalar <;> rfl
  | message _ => rfl

end Populated

/-- The rules for `Any` of a populated field, and those in CEL behind them. -/
theorem validate_populated {self : FieldValidationRules} (populated : Populated holder self.field value) :
    self.validate runtime holder = (do
      note (.hasField self.field)
      orFail (self.validateSingleAny runtime holder) (self.validateSingleValue runtime holder)) := by
  rw [FieldValidationRules.validate, populated.singular]
  simp only [FieldValidationRules.validateSingular, populated.hasField, Bool.not_true, Bool.false_and,
    Bool.false_eq_true, ↓reduceIte]

theorem pairsOf_singleAny {self : FieldValidationRules} (populated : Populated holder self.field value) :
    pairsOf (self.validateSingleAny runtime holder) =
      match self.anyRules with
      | none => []
      | some any => if self.field.isCppMessage then anyPairs any (anyMessage runtime self.field.toFieldInfo value) else [] := by
  have read : self.getMessage runtime holder = anyMessage runtime self.field.toFieldInfo value := by
    rw [FieldValidationRules.getMessage, populated.single_eq]
    cases value <;> rfl
  unfold FieldValidationRules.validateSingleAny
  cases self.anyRules with
  | none => rfl
  | some any =>
    simp only [read]
    split
    · exact pairsOf_validateAny runtime any _ _
    · rfl

theorem pairsOf_singleValue {self : FieldValidationRules} (populated : Populated holder self.field value)
    (reads : runtime.createValueFromSingleField self.field.toFieldInfo (some value) = .ok seen) :
    pairsOf (self.validateSingleValue runtime holder) = celPairs runtime self.toCelValidationRules seen := by
  simp only [FieldValidationRules.validateSingleValue, populated.single_eq, reads]
  exact pairsOf_validateThis runtime self holder seen

/-- What the rules of a populated field append if they succeed. -/
theorem pairsOf_populated {self : FieldValidationRules} (populated : Populated holder self.field value)
    (reads : runtime.createValueFromSingleField self.field.toFieldInfo (some value) = .ok seen)
    (succeeds : (alone (self.validate runtime holder)).1 = .ok ()) :
    pairsOf (self.validate runtime holder) =
      pairsOf (self.validateSingleAny runtime holder) ++ celPairs runtime self.toCelValidationRules seen := by
  have steady : Steady (orFail (self.validateSingleAny runtime holder) (self.validateSingleValue runtime holder)) :=
    SteadyAt.orFail (singleAny_steady runtime self holder) (singleValue_steady runtime self holder)
  rw [validate_populated populated] at succeeds ⊢
  rw [alone_bind fun _ => steady] at succeeds
  rw [pairsOf_bind fun _ => steady, pairsOf_orFail (singleValue_steady runtime self holder) succeeds,
    pairsOf_singleValue populated reads]
  rfl

end Singular

section Elements

/-- An item, or the key or the value of a map entry. A key comes with the value
that the loop has read for it. -/
inductive Element where
  | item (index : Nat) (value : Value)
  | mapKey (entry : Entry) (read : CelValue)
  | mapValue (entry : Entry)

namespace Element

/-- The value of a singular field that holds the element. -/
def held : Element → Value
  | item _ value => value
  | mapKey entry _ => .scalar entry.key
  | mapValue entry => entry.value

/-- The field that the rules of the element are built for. -/
def field (container : FieldDescriptor) : Element → Option FieldDescriptor
  | item _ _ =>
    match container.shape with
    | .repeated => some container
    | _ => none
  | mapKey _ _ =>
    match container.shape with
    | .map keyInfo _ _ => some (.ofEntry keyInfo)
    | _ => none
  | mapValue _ =>
    match container.shape with
    | .map _ valueInfo _ => some (.ofEntry valueInfo)
    | _ => none

/-- What the loop over the elements reads. -/
def seen (place : FieldDescriptor) : Element → CelValue
  | item _ value => runtime.listItem place.toFieldInfo value
  | mapKey _ read => read
  | mapValue entry => runtime.mapValue place.toFieldInfo entry.value

/-- What the loop over the elements appends for one of them. -/
def appended (base : FieldValidationRules) (place : FieldDescriptor) (rules : FieldRuleSet) (message : Message) :
    Element → List (String × String)
  | item index value => pairsOf (RepeatedValidationRules.itemRound runtime base rules.base message (index, value))
  | mapKey entry read =>
    pairsOf (MapValidationRules.keyPart runtime place.toFieldInfo (some rules) entry read Activation.empty)
  | mapValue entry =>
    pairsOf (MapValidationRules.valuePart runtime place.toFieldInfo (some rules) entry Activation.empty 0)

end Element

variable {runtime} {base : FieldValidationRules} {rules : FieldRuleSet} {message : Message}

theorem itemPlaced_pair (index : Nat) (violation : RuleViolation) :
    pairOf (RepeatedValidationRules.placed runtime base message index violation) = pairOf violation := rfl

theorem keyPlaced_pair (keyInfo : FieldInfo) (entry : Entry) (violation : RuleViolation) :
    pairOf (MapValidationRules.keyPlaced runtime keyInfo entry violation) = pairOf violation := rfl

theorem rulePath_pair (runtime : Runtime) (name : RuleFieldName) (violation : RuleViolation) :
    pairOf (MapValidationRules.rulePath runtime name violation) = pairOf violation := rfl

/-- Items get the CEL rules and those for `Any`. -/
theorem pairsOf_item (index : Nat) (value : Value) :
    pairsOf (RepeatedValidationRules.itemRound runtime base rules.base message (index, value)) =
      celPairs runtime rules.base.toCelValidationRules (runtime.listItem base.field.toFieldInfo value) ++
        match rules.base.anyRules with
        | none => []
        | some any => anyPairs any (anyMessage runtime base.field.toFieldInfo value) := by
  rw [RepeatedValidationRules.itemRound, framed, pairsOf_framedIf _ (itemPlaced_pair index)]
  unfold RepeatedValidationRules.itemRules
  cases rules.base.anyRules with
  | none => rw [pairsOf_bind fun _ => steady_pure _]; rfl
  | some any =>
    rw [pairsOf_bind fun _ => validateAny_steady runtime _ _ _]
    simp only [pairsOf_validateAny]
    cases value <;> rfl

/-- Keys get the CEL rules. -/
theorem pairsOf_key {keyInfo : FieldInfo} {entry : Entry} {read : CelValue}
    (checked : (rules.base.ignoreEmpty && isEmptyItem read) = false) :
    pairsOf (MapValidationRules.keyPart runtime keyInfo (some rules) entry read Activation.empty) =
      celPairs runtime rules.base.toCelValidationRules read := by
  simp only [MapValidationRules.keyPart, checked, Bool.false_eq_true, ↓reduceIte]
  rw [pairsOf_thenPure fun result => ?_, pairsOf_framedIf _ (keyPlaced_pair keyInfo entry), celPairs]
  obtain ⟨status, left⟩ := result
  cases status with
  | error failure => exact ⟨_, rfl⟩
  | ok _ => exact ⟨_, rfl⟩

theorem valueEnd_pairs (valueInfo : FieldInfo) (entry : Entry) (start : Nat) (status : Status) (left : Activation)
    (grew failFast : Bool) (ctx : RuleContext) :
    (MapValidationRules.valueEnd valueInfo entry start status left grew failFast ctx).2.entries.map pairOf =
      ctx.entries.map pairOf := by
  cases status with
  | error failure => rfl
  | ok _ =>
    cases grew with
    | false => rfl
    | true =>
      change (ctx.editFrom start _).entries.map pairOf = _
      rw [Journal.editFrom, List.map_append, List.map_map]
      exact List.map_append.symm.trans (congrArg (List.map pairOf) (List.take_append_drop start ctx.entries))

/-- Values get the CEL rules. -/
theorem pairsOf_value {valueInfo : FieldInfo} {entry : Entry}
    (checked : (rules.base.ignoreEmpty && isEmptyItem (runtime.mapValue valueInfo entry.value)) = false) :
    pairsOf (MapValidationRules.valuePart runtime valueInfo (some rules) entry Activation.empty 0) =
      celPairs runtime rules.base.toCelValidationRules (runtime.mapValue valueInfo entry.value) := by
  simp only [MapValidationRules.valuePart, checked, Bool.false_eq_true, ↓reduceIte]
  rw [celPairs, ← pairsOf_framedIf (fun result : Status × Activation => result.1.isOk) (rulePath_pair runtime .values)]
  exact valueEnd_pairs valueInfo entry 0 _ _ _ _ _

end Elements

section Runs

variable {runtime} {base : FieldValidationRules} {message : Message}

theorem pairsOf_eachThen {ι : Type} {check : ι → RuleCheck Status} {elements : List ι}
    (steady : ∀ element ∈ elements, Steady (check element))
    (succeeds : (alone (eachThen check elements (pure (.ok ())))).1 = .ok ()) :
    pairsOf (eachThen check elements (pure (.ok ()))) = elements.flatMap fun element => pairsOf (check element) := by
  have each := ((alone_eachThen_ok steady (steady_pure _)).mp succeeds).1
  rw [pairsOf, alone_eachThen_journal steady (steady_pure _) each, alone_pure, Journal.extend_nil, List.map_flatMap]
  rfl

/-- A repeated field appends the violations of its own rules and those of each
item that is checked. -/
theorem pairsOf_repeated (rules : FieldRuleSet) (place : FieldDescriptor)
    (succeeds : (alone (RepeatedValidationRules.validate runtime base message (some rules))).1 = .ok ()) :
    pairsOf (RepeatedValidationRules.validate runtime base message (some rules)) =
      pairsOf (base.validate runtime message) ++
        (RepeatedValidationRules.checked runtime base rules.base (message.elements base.field)).flatMap fun item =>
          (Element.item item.1 item.2).appended runtime base place rules message := by
  have steadyItem (item : Nat × Value) : Steady (RepeatedValidationRules.itemRound runtime base rules.base message item) :=
    itemRound_steady runtime base _ message item
  have steady : Steady (eachThen (RepeatedValidationRules.itemRound runtime base rules.base message)
      (RepeatedValidationRules.checked runtime base rules.base (message.elements base.field)) (pure (.ok ()))) :=
    Steady.eachThen (fun item _ => steadyItem item) (steady_pure _)
  unfold RepeatedValidationRules.validate at succeeds ⊢
  have items := succeeds
  rw [alone_orExit] at items
  obtain ⟨_, itemsOk⟩ := (alone_orFail_ok steady).mp items
  rw [pairsOf_orExit steady succeeds, pairsOf_eachThen (fun item _ => steadyItem item) itemsOk]
  rfl

section Entries

variable {keyInfo valueInfo : FieldInfo} {keyRules valueRules : Option FieldRuleSet} {activation : Activation}

/-- What the value rules append does not depend on what the key rules did. -/
theorem valuePart_pairs (entry : Entry) (reusable : Reusable runtime activation) (ctx : RuleContext) :
    (MapValidationRules.valuePart runtime valueInfo valueRules entry activation 0 false ctx).2.entries.map pairOf =
      ctx.entries.map pairOf ++
        pairsOf (MapValidationRules.valuePart runtime valueInfo valueRules entry Activation.empty 0) := by
  cases valueRules with
  | none => exact (List.append_nil _).symm
  | some rules =>
    by_cases skipped : (rules.base.ignoreEmpty && isEmptyItem (runtime.mapValue valueInfo entry.value)) = true
    · simp only [MapValidationRules.valuePart, skipped, ↓reduceIte]
      exact (List.append_nil _).symm
    · have checked := Bool.eq_false_iff.mpr skipped
      have steady := (validateCel_steady runtime rules.base.toCelValidationRules
        (Activation.empty.insertValue "this" (runtime.mapValue valueInfo entry.value))).framedIf
          (fun result => result.1.isOk) (MapValidationRules.rulePath runtime .values)
      rw [pairsOf_value checked, celPairs,
        ← pairsOf_framedIf (fun result : Status × Activation => result.1.isOk) (rulePath_pair runtime .values)]
      simp only [MapValidationRules.valuePart, checked, Bool.false_eq_true, ↓reduceIte,
        validateCel_reusable runtime _ _ reusable]
      rw [bind_apply, valueEnd_pairs]
      simp only [grown]
      rw [steady.apply ctx]
      exact List.map_append

theorem entryRules_pairs (entry : Entry) (key : CelValue) {left : Activation}
    (succeeds : (alone (MapValidationRules.entryRules runtime keyInfo valueInfo keyRules valueRules entry key
      Activation.empty 0)).1 = .ok left) :
    pairsOf (MapValidationRules.entryRules runtime keyInfo valueInfo keyRules valueRules entry key Activation.empty 0) =
      pairsOf (MapValidationRules.keyPart runtime keyInfo keyRules entry key Activation.empty) ++
        pairsOf (MapValidationRules.valuePart runtime valueInfo valueRules entry Activation.empty 0) := by
  have keyRun : Matches runtime
      (MapValidationRules.keyPart runtime keyInfo keyRules entry key Activation.empty false {}).1
      (MapValidationRules.keyPart runtime keyInfo keyRules entry key Activation.empty false {}).1 :=
    (keyPart_sameRun runtime entry key (.inl rfl) (.inl rfl) {}).2
  rw [pairsOf, alone, MapValidationRules.entryRules, bind_apply]
  rw [alone, MapValidationRules.entryRules, bind_apply] at succeeds
  cases result : (MapValidationRules.keyPart runtime keyInfo keyRules entry key Activation.empty false {}).1 with
  | error failure =>
    rw [result] at succeeds
    cases succeeds
  | ok next =>
    rw [result] at keyRun
    simp only
    exact valuePart_pairs entry keyRun.1 _

theorem pairsOf_entryCheck (valid : keyInfo.type.isMapKey = true) (entry : Entry × CelValue)
    (succeeds : (alone (entryCheck runtime base keyInfo valueInfo keyRules valueRules entry)).1 = .ok ()) :
    pairsOf (entryCheck runtime base keyInfo valueInfo keyRules valueRules entry) =
      pairsOf (MapValidationRules.keyPart runtime keyInfo keyRules entry.1 entry.2 Activation.empty) ++
        pairsOf (MapValidationRules.valuePart runtime valueInfo valueRules entry.1 Activation.empty 0) := by
  rw [alone_entryCheck runtime base keyInfo valueInfo keyRules valueRules valid] at succeeds
  rw [pairsOf, alone_entryCheck runtime base keyInfo valueInfo keyRules valueRules valid]
  cases run : alone (MapValidationRules.entryRules runtime keyInfo valueInfo keyRules valueRules entry.1 entry.2
    Activation.empty 0) with
  | mk result ctx =>
    rw [run] at succeeds
    cases result with
    | error failure => cases succeeds
    | ok left =>
      rw [← entryRules_pairs entry.1 entry.2 (congrArg Prod.fst run), pairsOf, run, List.map_map]
      rfl

/-- A map field appends the violations of its own rules and, entry by entry, those
of the key and of the value. -/
theorem pairsOf_map (valid : keyInfo.type.isMapKey = true) (shape : base.field.shape = .map keyInfo valueInfo valid)
    {keys : List CelValue} (read : runtime.listKeys keyInfo ((message.entries base.field).map Entry.key) = .ok keys)
    (succeeds : (alone (MapValidationRules.validate runtime base keyRules valueRules message)).1 = .ok ()) :
    pairsOf (MapValidationRules.validate runtime base keyRules valueRules message) =
      pairsOf (base.validate runtime message) ++ ((message.entries base.field).zip keys).flatMap fun entry =>
        pairsOf (MapValidationRules.keyPart runtime keyInfo keyRules entry.1 entry.2 Activation.empty) ++
          pairsOf (MapValidationRules.valuePart runtime valueInfo valueRules entry.1 Activation.empty 0) := by
  have steadyEntry (entry : Entry × CelValue) :
      Steady (entryCheck runtime base keyInfo valueInfo keyRules valueRules entry) := entryCheck_steady runtime _ _ _ _ _ _
  have steadyEntries : Steady (eachThen (entryCheck runtime base keyInfo valueInfo keyRules valueRules)
      ((message.entries base.field).zip keys) (pure (.ok ()))) :=
    Steady.eachThen (fun entry _ => steadyEntry entry) (steady_pure _)
  have steady := entriesValidate_steady runtime base keyRules valueRules message
  unfold MapValidationRules.validate at succeeds ⊢
  obtain ⟨_, entriesOk⟩ := (alone_orFail_ok steady).mp succeeds
  rw [pairsOf_orFail steady succeeds]
  refine congrArg (pairsOf (base.validate runtime message) ++ ·) ?_
  cases none : keyRules.isNone && valueRules.isNone with
  | true =>
    obtain ⟨noKey, noValue⟩ := Bool.and_eq_true_iff.mp none
    rw [Option.isNone_iff_eq_none] at noKey noValue
    subst noKey noValue
    exact (List.flatMap_eq_nil_iff.mpr fun _ _ => rfl).symm
  | false =>
    have loop : alone (MapValidationRules.validateEntries runtime base keyRules valueRules message) =
        alone (eachThen (entryCheck runtime base keyInfo valueInfo keyRules valueRules)
          ((message.entries base.field).zip keys) (pure (.ok ()))) := by
      simp only [MapValidationRules.validateEntries, none, Bool.false_eq_true, ↓reduceIte, shape, read]
      exact alone_entryLoop runtime base keyInfo valueInfo keyRules valueRules valid _ (.inl rfl)
    rw [loop] at entriesOk
    have each := ((alone_eachThen_ok (fun entry _ => steadyEntry entry) (steady_pure _)).mp entriesOk).1
    rw [pairsOf, loop]
    refine (pairsOf_eachThen (fun entry _ => steadyEntry entry) entriesOk).trans ?_
    exact congrArg List.flatten (List.map_congr_left fun entry member =>
      pairsOf_entryCheck valid entry (each entry member))

end Entries

end Runs
end Protovalidate.Validate
