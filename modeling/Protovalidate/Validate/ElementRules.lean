import Protovalidate.Validate.ElementPairs

/-! The rules of items, keys and values against the same rules on a singular field:
which checks the loops over elements leave out. -/

namespace Protovalidate.Validate

open Foundation Check

section Agreement

variable {runtime} {context : BuildContext} {field single : FieldDescriptor} {fieldLvl : FieldRules}
  {cel : CelValidationRules} {holder : Message} {value : Value} {seen : CelValue}

/-- What the rules for `Any` append behind the CEL rules or in front of them. -/
def anyExtra (runtime : Runtime) (field : FieldInfo) (type : RuleType) (value : Value) : List (String × String) :=
  match type.anyRules with
  | none => []
  | some any => anyPairs any (anyMessage runtime field value)

/-- What the check for defined values appends. -/
def enumExtra (field : FieldInfo) (type : RuleType) (value : Value) : List (String × String) :=
  match type.enumRules with
  | none => []
  | some rules => enumPairs rules field.enumNumbers (enumNumber field value)

/-- Whether the check for defined values finds a violation. -/
def undefinedEnum (field : FieldInfo) (type : RuleType) (value : Value) : Bool :=
  match type.enumRules with
  | none => false
  | some rules => rules.definedOnly && !field.enumNumbers.contains (enumNumber field value)

/-- Whether the rules for `Any` find a violation. -/
def rejectedAny (runtime : Runtime) (field : FieldInfo) (type : RuleType) (value : Value) : Bool :=
  match type.anyRules with
  | none => false
  | some any =>
    match typeUrl (anyMessage runtime field value) with
    | none => false
    | some typeUri => allowViolated any typeUri || any.notIn.contains typeUri

theorem enumExtra_nil : enumExtra field.toFieldInfo fieldLvl.type value = [] ↔
    undefinedEnum field.toFieldInfo fieldLvl.type value = false := by
  unfold enumExtra undefinedEnum enumPairs
  cases fieldLvl.type.enumRules with
  | none => simp
  | some rules =>
    simp only
    split <;> simp_all

theorem anyExtra_nil : anyExtra runtime field.toFieldInfo fieldLvl.type value = [] ↔
    rejectedAny runtime field.toFieldInfo fieldLvl.type value = false := by
  unfold anyExtra rejectedAny anyPairs
  cases fieldLvl.type.anyRules with
  | none => simp
  | some any =>
    simp only
    cases typeUrl (anyMessage runtime field.toFieldInfo value) with
    | none => simp
    | some typeUri =>
      simp only
      cases allowViolated any typeUri <;> cases any.notIn.contains typeUri <;> simp

theorem anyExtra_sameType (same : SameType field.toFieldInfo single.toFieldInfo) (type : RuleType) (value : Value) :
    anyExtra runtime field.toFieldInfo type value = anyExtra runtime single.toFieldInfo type value := by
  have message : anyMessage runtime field.toFieldInfo value = anyMessage runtime single.toFieldInfo value := by
    cases value with
    | message _ => rfl
    | scalar _ => rw [anyMessage, anyMessage, same.messageType]
  rw [anyExtra, anyExtra, message]

/-- What the rules of an element append on a singular field of its own. -/
theorem pairsOf_own (built : elementCel context single fieldLvl = .ok cel) (populated : Populated holder single value)
    (reads : runtime.createValueFromSingleField single.toFieldInfo (some value) = .ok seen)
    (succeeds : (alone ((elementRuleSet single fieldLvl cel).validate runtime holder)).1 = .ok ()) :
    pairsOf ((elementRuleSet single fieldLvl cel).validate runtime holder) =
      anyExtra runtime single.toFieldInfo fieldLvl.type value ++ celPairs runtime cel seen ++
        enumExtra single.toFieldInfo fieldLvl.type value := by
  have populatedBase : Populated holder (elementBase single fieldLvl cel).field value := populated
  have any : pairsOf ((elementBase single fieldLvl cel).validateSingleAny runtime holder) =
      anyExtra runtime single.toFieldInfo fieldLvl.type value := by
    rw [pairsOf_singleAny populatedBase, anyExtra]
    change (match fieldLvl.type.anyRules with
      | none => []
      | some any => if single.isCppMessage then anyPairs any (anyMessage runtime single.toFieldInfo value) else []) = _
    cases kind : fieldLvl.type.anyRules with
    | none => rfl
    | some any => simp only [anyRules_message kind built, ↓reduceIte]
  unfold elementRuleSet at succeeds ⊢
  rw [enumExtra]
  cases kind : fieldLvl.type.enumRules with
  | none =>
    simp only [kind] at succeeds ⊢
    rw [List.append_nil, ← any]
    exact pairsOf_populated populatedBase reads succeeds
  | some rules =>
    simp only [kind] at succeeds ⊢
    have steady := definedOnly_steady runtime (elementBase single fieldLvl cel) holder rules
    have baseOk : (alone ((elementBase single fieldLvl cel).validate runtime holder)).1 = .ok () := by
      rw [FieldRuleSet.validate, EnumValidationRules.validate, alone_orExit] at succeeds
      exact ((alone_orFail_ok steady).mp succeeds).1
    change pairsOf (orExit _ _) = _
    rw [pairsOf_orExit steady succeeds, pairsOf_populated populatedBase reads baseOk, any, pairsOf_definedOnly,
      populatedBase.getEnumValue_eq]
    rfl

/-- The checks of a singular field that an element does not get. -/
def Element.missed (runtime : Runtime) (field : FieldInfo) (type : RuleType) : Element → Prop
  | .item _ value => undefinedEnum field type value = true
  | .mapKey _ _ => False
  | .mapValue entry => undefinedEnum field type entry.value = true ∨ rejectedAny runtime field type entry.value = true

theorem perm_append_iff {α : Type} (front middle back : List α) :
    middle.Perm (front ++ middle ++ back) ↔ front = [] ∧ back = [] := by
  constructor
  · intro perm
    have lengths := perm.length_eq
    simp only [List.length_append] at lengths
    exact ⟨List.eq_nil_of_length_eq_zero (by omega), List.eq_nil_of_length_eq_zero (by omega)⟩
  · rintro ⟨rfl, rfl⟩
    simp

theorem perm_swapped_iff {α : Type} (front middle back : List α) :
    (middle ++ front).Perm (front ++ middle ++ back) ↔ back = [] := by
  rw [List.perm_append_comm.congr_left]
  exact (perm_append_iff [] (front ++ middle) back).trans (and_iff_right rfl)

/-- The rules of an element append the same ids and messages as on a singular
field that holds it, unless that field gets a check that the element does not. -/
theorem elementRules_iff (base : FieldValidationRules) (message : Message) (element : Element)
    (place : FieldDescriptor) (placed : element.field base.field = some place)
    (elementary : fieldLvl.type.isElementKind = true) (rules : FieldRuleSet)
    (built : newFieldRules context place fieldLvl = .ok (some rules))
    (checked : (rules.base.ignoreEmpty && isEmptyItem (element.seen context.runtime place)) = false)
    (same : SameType place.toFieldInfo single.toFieldInfo) (populated : Populated holder single element.held)
    (reads : context.runtime.createValueFromSingleField single.toFieldInfo (some element.held) =
      .ok (element.seen context.runtime place)) :
    ∃ own, newFieldRules context single fieldLvl = .ok (some own) ∧
      ((alone (own.validate context.runtime holder)).1 = .ok () →
        ((element.appended context.runtime base place rules message).Perm
            (pairsOf (own.validate context.runtime holder)) ↔
          ¬element.missed context.runtime single.toFieldInfo fieldLvl.type)) := by
  obtain ⟨cel, found, rfl, notAlways⟩ := newFieldRules_some elementary built
  have foundOwn : elementCel context single fieldLvl = .ok cel := (elementCel_sameType same).symm.trans found
  refine ⟨elementRuleSet single fieldLvl cel, ?_, fun succeeds => ?_⟩
  · rw [newFieldRules_eq elementary, notAlways, foundOwn]
    rfl
  rw [pairsOf_own foundOwn populated reads succeeds]
  cases element with
  | item index value =>
    obtain rfl : base.field = place := by
      cases shape : base.field.shape <;> simp_all [Element.field]
    rw [Element.appended, pairsOf_item, elementRuleSet_base]
    change (_ ++ anyExtra context.runtime base.field.toFieldInfo fieldLvl.type value).Perm
      (anyExtra context.runtime single.toFieldInfo fieldLvl.type value ++ _ ++ _) ↔
        ¬undefinedEnum single.toFieldInfo fieldLvl.type value = true
    rw [anyExtra_sameType same, Bool.not_eq_true, ← enumExtra_nil]
    exact perm_swapped_iff _ _ _
  | mapKey entry read =>
    have valid : place.type.isMapKey = true := by
      cases shape : base.field.shape with
      | map keyInfo valueInfo valid =>
        simp only [Element.field, shape, Option.some.injEq] at placed
        rw [← placed]
        exact valid
      | _ => simp [Element.field, shape] at placed
    obtain ⟨noEnum, noAny⟩ := mapKey_kinds valid found
    rw [Element.appended, pairsOf_key (show (_ && isEmptyItem read) = false from checked),
      elementRuleSet_base, anyExtra, noAny, enumExtra, noEnum, List.append_nil]
    exact iff_of_true (List.Perm.refl _) id
  | mapValue entry =>
    rw [Element.appended, pairsOf_value checked, elementRuleSet_base]
    change _ ↔ ¬(undefinedEnum single.toFieldInfo fieldLvl.type entry.value = true ∨
      rejectedAny context.runtime single.toFieldInfo fieldLvl.type entry.value = true)
    rw [not_or, Bool.not_eq_true, Bool.not_eq_true, ← enumExtra_nil, ← anyExtra_nil, and_comm]
    exact perm_append_iff _ _ _

end Agreement

section Sample

/-- Every expression holds. -/
def holding (_ : String) (_ : Activation) : Except StatusError CelValue := .ok (.bool true)

def paintContext : BuildContext := { runtime := plainRuntime holding }

/-- A field of an enum type with the numbers 0 and 1. -/
def color : FieldDescriptor where
  number := 1
  name := "color"
  fullName := "Paint.color"
  type := .enum
  hasPresence := true
  enumNumbers := [0, 1]

def colors : FieldDescriptor := { color with hasPresence := false, shape := .repeated }

def definedOnlyMessage : RuleMessage where
  typeName := "buf.validate.EnumRules"
  fields := [{ info := PlainRuntime.ruleField .definedOnly, value := .scalar (.bool true) }]

def definedOnly : FieldRules := ⟨none, false, [], [], .enum { message := definedOnlyMessage, definedOnly := true }⟩

/-- The rules that are built for the field or its items. -/
def definedOnlyRules (field : FieldDescriptor) : FieldRuleSet :=
  elementRuleSet field definedOnly { rules := some definedOnlyMessage }

/-- The same rules for every item. -/
def itemsDefinedOnly : FieldRules := ⟨none, false, [], [], .repeated { typeName := "buf.validate.RepeatedRules" } definedOnly⟩

def paletteRules : FieldValidationRules :=
  { FieldValidationRules.new colors itemsDefinedOnly with
    toCelValidationRules := { rules := some { typeName := "buf.validate.RepeatedRules" } } }

/-- A message with one color. -/
def paint (number : Int) : Message := ⟨{ fullName := "Paint" }, [.mk color (.singular (.scalar (.enum number)))]⟩

/-- A message with a list of one color. -/
def palette (number : Int) : Message :=
  ⟨{ fullName := "Palette" }, [.mk colors (.repeated [.scalar (.enum number)])]⟩

theorem elementRules_iff_color :
    ∃ own, newFieldRules paintContext color definedOnly = .ok (some own) ∧
      ((alone (own.validate paintContext.runtime (paint 1))).1 = .ok () →
        (((Element.item 0 (.scalar (.enum 1))).appended paintContext.runtime paletteRules colors
            (definedOnlyRules colors) (palette 1)).Perm
            (pairsOf (own.validate paintContext.runtime (paint 1))) ↔
          ¬(Element.item 0 (.scalar (.enum 1))).missed paintContext.runtime color.toFieldInfo definedOnly.type)) :=
  elementRules_iff paletteRules (palette 1) (.item 0 (.scalar (.enum 1))) colors rfl rfl
    (definedOnlyRules colors) rfl rfl ⟨rfl, rfl, rfl⟩ ⟨rfl, rfl⟩ rfl

/-- An item with a number that is not defined gets no violation. -/
theorem undefinedItem_accepted :
    newFieldRules paintContext colors itemsDefinedOnly =
        .ok (some (.repeated paletteRules (some (definedOnlyRules colors)))) ∧
      newFieldRules paintContext color definedOnly = .ok (some (definedOnlyRules color)) ∧
      (alone ((definedOnlyRules color).validate paintContext.runtime (paint 99))).1 = .ok () ∧
      pairsOf (RepeatedValidationRules.validate paintContext.runtime paletteRules (palette 99)
        (some (definedOnlyRules colors))) = [] ∧
      ¬((Element.item 0 (.scalar (.enum 99))).appended paintContext.runtime paletteRules colors
        (definedOnlyRules colors) (palette 99)).Perm
          (pairsOf ((definedOnlyRules color).validate paintContext.runtime (paint 99))) := by
  refine ⟨rfl, rfl, rfl, rfl, fun perm => ?_⟩
  cases perm.length_eq

end Sample
end Protovalidate.Validate
