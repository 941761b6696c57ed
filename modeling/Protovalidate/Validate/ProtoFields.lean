import Protovalidate.Validate.FieldValues

/-! `internal/proto_field.h`: how the field values of violations are read. An accessor of
reflection that is called outside its domain shows as `none`. -/

namespace Protovalidate.Validate

open Relation

section Accessors

/-- `FieldDescriptor::CppType` -/
inductive CppType where
  | int32 | int64 | uint32 | uint64 | double | float | bool | enum | string | message
deriving DecidableEq, Repr

/-- `cpp_type()` -/
def FieldType.cppType : FieldType → CppType
  | int32 | sint32 | sfixed32 => .int32
  | int64 | sint64 | sfixed64 => .int64
  | uint32 | fixed32 => .uint32
  | uint64 | fixed64 => .uint64
  | double => .double
  | float => .float
  | bool => .bool
  | enum => .enum
  | string | bytes => .string
  | message | group => .message

/-- `ProtoField::Value` -/
inductive ProtoValue where
  | monostate
  | int64 (value : Int)
  | uint64 (value : Nat)
  | double (bits : BitVec 64)
  | bool (value : Bool)
  | string (value : List UInt8)
  | message (value : ProtoMessage)

/-- The accessors `GetInt32` to `GetMessage`, each for values of its type. -/
def ProtoValue.read : CppType → Value → Option ProtoValue
  | .int32, .scalar (.int value) | .int64, .scalar (.int value) => some (.int64 value)
  | .enum, .scalar (.enum number) => some (.int64 number)
  | .uint32, .scalar (.uint value) | .uint64, .scalar (.uint value) => some (.uint64 value)
  | .float, .scalar (.double bits) | .double, .scalar (.double bits) => some (.double bits)
  | .bool, .scalar (.bool value) => some (.bool value)
  | .string, .scalar (.string text) => some (.string text.toUTF8.data.toList)
  | .string, .scalar (.bytes value) => some (.string value)
  | .message, .message value => some (.message (.message value))
  | _, _ => none

/-- `GetRepeatedInt32` to `GetRepeatedMessage`; the items of a map are its entries. -/
def ProtoValue.readRepeated (type : CppType) (index : Nat) : FieldValue → Option ProtoValue
  | .singular _ => none
  | .repeated values => (values[index]?).bind (read type)
  | .map entries => if type = .message then (entries[index]?).map fun entry => .message (.entry entry) else none

/-- The number of items. -/
def FieldValue.size : FieldValue → Nat
  | .singular _ => 0
  | .repeated values => values.length
  | .map entries => entries.length

namespace ProtoField

variable (self : ProtoField)

/-- `descriptor()->is_repeated()`, as the type of the message declares the field. -/
def isRepeatedField : Bool :=
  match self.message with
  | .message message => (message.descriptor.fields.find? fun field => field.number == self.descriptor.number).any
      FieldDescriptor.isRepeated
  | _ => false

/-- What the message holds in the field. The fields of an entry are set. -/
def held : Option FieldValue :=
  match self.message with
  | .message message => message.find { toFieldInfo := self.descriptor }
  | .entry entry => some (.singular (if self.descriptor.number = 1 then .scalar entry.key else entry.value))
  | _ => none

def isRepeated : Bool := self.isRepeatedField && self.index.isNone

/-- `FieldSize` -/
def fieldSize : Nat := (self.held.map FieldValue.size).getD 0

def size : Nat := if !self.isRepeated then 0 else self.fieldSize

/-- `at` -/
def atIndex (index : Int) : Option ProtoField :=
  if index < 0 ∨ self.isRepeated = false ∨ self.fieldSize ≤ index then none else some { self with index := some index.toNat }

/-- `variant` -/
def variant : Option ProtoValue :=
  if self.isRepeated then some .monostate
  else if !self.isRepeatedField && self.held.isNone then some .monostate
  else
    match self.index, self.held with
    | some index, some value => ProtoValue.readRepeated self.descriptor.type.cppType index value
    | none, some (.singular value) => ProtoValue.read self.descriptor.type.cppType value
    | _, _ => none

theorem atIndex_within {self : ProtoField} (whole : self.isRepeated = true) {index : Nat} (within : index < self.fieldSize) :
    self.atIndex index = some { self with index := some index } := by
  have inside : ¬((index : Int) < 0 ∨ self.isRepeated = false ∨ (self.fieldSize : Int) ≤ index) := by
    simp only [whole, Bool.true_eq_false, false_or]
    omega
  rw [atIndex, if_neg inside, Int.toNat_natCast]

end ProtoField

end Accessors

section Typing

/-- The values that reflection stores for a type. -/
inductive Value.Fits : CppType → Value → Prop where
  | int32 (value : Int) : Value.Fits .int32 (.scalar (.int value))
  | int64 (value : Int) : Value.Fits .int64 (.scalar (.int value))
  | enum (number : Int) : Value.Fits .enum (.scalar (.enum number))
  | uint32 (value : Nat) : Value.Fits .uint32 (.scalar (.uint value))
  | uint64 (value : Nat) : Value.Fits .uint64 (.scalar (.uint value))
  | float (bits : BitVec 64) : Value.Fits .float (.scalar (.double bits))
  | double (bits : BitVec 64) : Value.Fits .double (.scalar (.double bits))
  | bool (value : Bool) : Value.Fits .bool (.scalar (.bool value))
  | string (text : String) : Value.Fits .string (.scalar (.string text))
  | bytes (value : List UInt8) : Value.Fits .string (.scalar (.bytes value))
  | message (value : Message) : Value.Fits .message (.message value)

/-- The values of a field, by its label. -/
inductive FieldValue.Fits (field : FieldDescriptor) : FieldValue → Prop where
  | singular {value : Value} (shape : field.shape = .singular) (fits : value.Fits field.type.cppType) :
    FieldValue.Fits field (.singular value)
  | repeated {values : List Value} (shape : field.shape = .repeated)
    (fits : ∀ value ∈ values, Value.Fits field.type.cppType value) : FieldValue.Fits field (.repeated values)
  | map {entries : List Entry} {keyInfo valueInfo : FieldInfo} {valid : keyInfo.type.isMapKey = true}
    (shape : field.shape = .map keyInfo valueInfo valid) (isMessage : field.type.cppType = .message)
    (fits : ∀ entry ∈ entries, Value.Fits keyInfo.type.cppType (.scalar entry.key) ∧
      Value.Fits valueInfo.type.cppType entry.value) : FieldValue.Fits field (.map entries)

/-- What reflection guarantees of a message. -/
def Typed (message : Message) : Prop := ∀ field value, .mk field value ∈ message.fields → value.Fits field

/-- A value that is typed can be read. -/
theorem Value.Fits.read {type : CppType} {value : Value} (fits : value.Fits type) :
    ∃ read, ProtoValue.read type value = some read ∧ read ≠ .monostate := by
  cases fits with
  | string => exact ⟨_, rfl, nofun⟩
  | _ => exact ⟨_, rfl, nofun⟩

/-- A field value that can be read, as a whole and item by item. There is no value where
the field is repeated, or not set. -/
structure Readable (value : ProtoField) : Prop where
  whole : ∃ read, value.variant = some read ∧
    (read = .monostate ↔ value.isRepeated = true ∨ value.isRepeatedField = false ∧ value.held = none)
  items : ∀ index : Nat, index < value.size → ∃ item read, value.atIndex index = some item ∧
    item.variant = some read ∧ read ≠ .monostate

end Typing

section Reading

variable {pool : DescriptorPool} {type : MessageType pool} {message : Message} {field : FieldDescriptor}

/-- Fields of a type have different numbers. -/
def Numbered (pool : DescriptorPool) : Prop := ∀ type : MessageType pool, (type.allFields.map fun field => field.number).Nodup

/-- The field values that rules leave in the violations of a message. -/
inductive Points (message : Message) : ProtoField → Prop where
  | field {field : FieldDescriptor} (declared : field ∈ message.descriptor.fields) :
    Points message { message := .message message, descriptor := field.toFieldInfo }
  | item {field : FieldDescriptor} {index : Nat} (declared : field ∈ message.descriptor.fields)
    (within : index < (message.elements field).length) :
    Points message { message := .message message, descriptor := field.toFieldInfo, index := some index }
  | key {field : FieldDescriptor} {keyInfo valueInfo : FieldInfo} {valid : keyInfo.type.isMapKey = true} {entry : Entry}
    (declared : field ∈ message.descriptor.fields) (shape : field.shape = .map keyInfo valueInfo valid)
    (listed : entry ∈ message.entries field) : Points message { message := .entry entry, descriptor := keyInfo }
  | value {field : FieldDescriptor} {keyInfo valueInfo : FieldInfo} {valid : keyInfo.type.isMapKey = true} {entry : Entry}
    (declared : field ∈ message.descriptor.fields) (shape : field.shape = .map keyInfo valueInfo valid)
    (listed : entry ∈ message.entries field) : Points message { message := .entry entry, descriptor := valueInfo }

/-- The items of a field that is typed can be read. -/
theorem FieldValue.Fits.readRepeated {value : FieldValue} (fits : value.Fits field) {index : Nat} (within : index < value.size) :
    ∃ read, ProtoValue.readRepeated field.type.cppType index value = some read ∧ read ≠ .monostate := by
  cases fits with
  | singular => cases within
  | @repeated values shape each =>
    have listed : values[index]? = some values[index] := List.getElem?_eq_getElem within
    obtain ⟨read, found, some⟩ := (each values[index] (List.getElem_mem within)).read
    refine ⟨read, ?_, some⟩
    rw [ProtoValue.readRepeated, listed]
    exact found
  | @map entries keyInfo valueInfo valid shape isMessage each =>
    have listed : entries[index]? = some entries[index] := List.getElem?_eq_getElem within
    refine ⟨.message (.entry entries[index]), ?_, ?_⟩
    · rw [ProtoValue.readRepeated, if_pos isMessage, listed]
      rfl
    · intro impossible
      cases impossible

theorem FieldValue.Fits.isRepeated {value : FieldValue} (fits : value.Fits field) (items : 0 < value.size) :
    field.isRepeated = true := by
  unfold FieldDescriptor.isRepeated
  cases fits with
  | singular => cases items
  | repeated shape => rw [shape]
  | map shape => rw [shape]

theorem elements_held {index : Nat} (within : index < (message.elements field).length) :
    ∃ value, message.find field = some value ∧ index < value.size := by
  unfold Message.elements at within
  split at within
  · rename_i values held
    exact ⟨_, held, within⟩
  · cases within

theorem entries_held {entry : Entry} (listed : entry ∈ message.entries field) :
    ∃ entries, message.find field = some (.map entries) ∧ entry ∈ entries := by
  unfold Message.entries at listed
  split at listed
  · rename_i entries held
    exact ⟨entries, held, listed⟩
  · cases listed

variable (numbers : Numbered pool) (conforms : Conforms type message) (declared : field ∈ message.descriptor.fields)

include numbers conforms declared

theorem find_declared : (message.descriptor.fields.find? fun other => other.number == field.number) = some field := by
  have distinct : (type.descriptor.fields.map fun field => field.number).Nodup :=
    ((List.sublist_append_left _ _).map _).nodup (numbers type)
  rw [conforms.descriptor_eq] at declared ⊢
  cases found : type.descriptor.fields.find? fun other => other.number == field.number with
  | none => exact absurd (beq_self_eq_true field.number) (List.find?_eq_none.mp found field declared)
  | some other =>
    have same : other.number = field.number := by simpa using List.find?_some found
    rw [List.inj_on_of_nodup_map distinct (List.mem_of_find?_eq_some found) declared same]

theorem owns_declared : Owns message field := by
  intro own value present number
  cases conforms with
  | mk same fields =>
    exact List.inj_on_of_nodup_map (numbers type) (fields own value present)
      (List.mem_append_left _ (same ▸ declared)) number

theorem find_fits (typed : Typed message) {value : FieldValue} (found : message.find field = some value) : value.Fits field :=
  typed field value ((owns_declared numbers conforms declared).find_mem found)

theorem isRepeatedField_declared (index : Option Nat) :
    ProtoField.isRepeatedField ⟨.message message, field.toFieldInfo, index⟩ = field.isRepeated := by
  have known := find_declared numbers conforms declared
  unfold ProtoField.isRepeatedField
  simp only [known, Option.any_some]

theorem readable_item (typed : Typed message) {index : Nat} {value : FieldValue} (held : message.find field = some value)
    (within : index < value.size) : ∃ read,
    ProtoField.variant ⟨.message message, field.toFieldInfo, some index⟩ = some read ∧ read ≠ .monostate := by
  have fits := find_fits numbers conforms declared typed held
  have repeats := isRepeatedField_declared numbers conforms declared (some index)
  rw [fits.isRepeated (Nat.zero_lt_of_lt within)] at repeats
  obtain ⟨read, found, some⟩ := fits.readRepeated within
  refine ⟨read, ?_, some⟩
  have same : ProtoField.held ⟨.message message, field.toFieldInfo, .some index⟩ = .some value := held
  simp only [ProtoField.variant, ProtoField.isRepeated, repeats, same]
  exact found

theorem readable_whole (typed : Typed message) : Readable { message := .message message, descriptor := field.toFieldInfo } := by
  have repeats := isRepeatedField_declared numbers conforms declared none
  have same : ProtoField.held { message := .message message, descriptor := field.toFieldInfo } = message.find field := rfl
  cases kind : field.isRepeated with
  | true =>
    rw [kind] at repeats
    refine ⟨⟨.monostate, ?_, iff_of_true rfl (.inl ?_)⟩, fun index within => ?_⟩
    · simp only [ProtoField.variant, ProtoField.isRepeated, repeats]
      rfl
    · simp only [ProtoField.isRepeated, repeats]
      rfl
    · simp only [ProtoField.size, ProtoField.isRepeated, repeats, ProtoField.fieldSize, same] at within
      cases held : message.find field with
      | none =>
        rw [held] at within
        cases within
      | some value =>
        rw [held] at within
        obtain ⟨read, found, some⟩ := readable_item numbers conforms declared typed held within
        refine ⟨_, read, ?_, found, some⟩
        refine ProtoField.atIndex_within ?_ ?_
        · simp only [ProtoField.isRepeated, repeats]
          rfl
        · rw [ProtoField.fieldSize, same, held]
          exact within
  | false =>
    rw [kind] at repeats
    have single : ProtoField.isRepeated { message := .message message, descriptor := field.toFieldInfo } = false := by
      simp only [ProtoField.isRepeated, repeats, Bool.false_and]
    refine ⟨?_, fun index within => ?_⟩
    · cases held : message.find field with
      | none =>
        refine ⟨.monostate, ?_, iff_of_true rfl (.inr ⟨repeats, same.trans held⟩)⟩
        simp only [ProtoField.variant, single, repeats, same, held]
        rfl
      | some value =>
        cases find_fits numbers conforms declared typed held with
        | singular shape fits =>
          obtain ⟨read, found, some⟩ := fits.read
          refine ⟨read, ?_, iff_of_false some ?_⟩
          · simp only [ProtoField.variant, single, repeats, same, held]
            exact found
          · rw [single, same, held]
            simp
        | repeated shape => 
          rw [FieldDescriptor.isRepeated, shape] at kind
          cases kind
        | map shape =>
          rw [FieldDescriptor.isRepeated, shape] at kind
          cases kind
    · simp only [ProtoField.size, single] at within
      cases within

omit declared in
theorem Points.readable (fields : EntryFields pool) (typed : Typed message) {value : ProtoField} (points : Points message value) :
    Readable value := by
  cases points with
  | field declared => exact readable_whole numbers conforms declared typed
  | @item field index declared within =>
    obtain ⟨content, held, within⟩ := elements_held within
    obtain ⟨read, found, some⟩ := readable_item numbers conforms declared typed held within
    have repeats := isRepeatedField_declared numbers conforms declared (.some index)
    rw [(find_fits numbers conforms declared typed held).isRepeated (Nat.zero_lt_of_lt within)] at repeats
    refine ⟨⟨read, found, iff_of_false some ?_⟩, fun other within => ?_⟩
    · rw [ProtoField.isRepeated, repeats]
      simp
    · simp only [ProtoField.size, ProtoField.isRepeated, repeats] at within
      cases within
  | @key field keyInfo valueInfo valid entry declared shape listed =>
    obtain ⟨first, -⟩ := fields type field (conforms.descriptor_eq ▸ declared) keyInfo valueInfo valid shape
    obtain ⟨entries, held, listed⟩ := entries_held listed
    cases find_fits numbers conforms declared typed held with
    | map shape' _ each =>
      cases shape.symm.trans shape'
      obtain ⟨read, found, some⟩ := (each entry listed).1.read
      refine ⟨⟨read, ?_, iff_of_false some ?_⟩, fun other within => ?_⟩
      · simp only [ProtoField.variant, ProtoField.isRepeated, ProtoField.isRepeatedField, ProtoField.held, first]
        exact found
      · simp [ProtoField.isRepeated, ProtoField.isRepeatedField, ProtoField.held]
      · cases within
  | @value field keyInfo valueInfo valid entry declared shape listed =>
    obtain ⟨-, second⟩ := fields type field (conforms.descriptor_eq ▸ declared) keyInfo valueInfo valid shape
    obtain ⟨entries, held, listed⟩ := entries_held listed
    cases find_fits numbers conforms declared typed held with
    | map shape' _ each =>
      cases shape.symm.trans shape'
      obtain ⟨read, found, some⟩ := (each entry listed).2.read
      refine ⟨⟨read, ?_, iff_of_false some ?_⟩, fun other within => ?_⟩
      · simp only [ProtoField.variant, ProtoField.isRepeated, ProtoField.isRepeatedField, ProtoField.held, second]
        exact found
      · simp [ProtoField.isRepeated, ProtoField.isRepeatedField, ProtoField.held]
      · cases within

end Reading

section Runs

variable {seen : Event → Prop} {context : BuildContext} {message : Message} {field : FieldDescriptor} {level : FieldRules}
  {violation : RuleViolation} {value : ProtoField}

/-- The rules of a field point to it, to its items, or to keys and values of its entries. -/
theorem RuleFound.points {rules : FieldRuleSet} (declared : field ∈ message.descriptor.fields)
    (built : newFieldRules context field level = .ok (some rules))
    (found : RuleFound seen context.runtime message (.field rules) violation) (set : violation.fieldValue = some value) :
    Points message value := by
  have place : rules.base.field = field := (newFieldRules_cases built).place
  cases found with
  | field found =>
    cases found with
    | required =>
      cases set
      exact .field (place ▸ declared)
    | any _ _ found =>
      cases found with
      | missing =>
        cases set
        exact .field (place ▸ declared)
      | blocked =>
        cases set
        exact .field (place ▸ declared)
    | cel =>
      cases set
      exact .field (place ▸ declared)
  | enum =>
    cases set
    exact .field (place ▸ declared)
  | @item base rules item violation member found =>
    have within : item.1 < (message.elements base.field).length := by
      obtain ⟨within, -⟩ := List.getElem?_eq_some_iff.mp (checked_inside member)
      exact within
    have inside : base.field ∈ message.descriptor.fields := place ▸ declared
    cases found with
    | any =>
      cases set
      exact .item inside within
    | cel =>
      cases set
      exact .item inside within
  | @entry base keyRules valueRules keyInfo valueInfo valid keys entry key violation shape read member found =>
    have listed := (List.of_mem_zip member).1
    have inside : base.field ∈ message.descriptor.fields := place ▸ declared
    cases found with
    | key =>
      cases set
      exact .key inside shape listed
    | crossed =>
      cases set
      exact .value inside shape listed
    | value =>
      cases set
      exact .value inside shape listed

variable {pool : DescriptorPool} {type : MessageType pool}

theorem Below.reaches {path : FieldPath} {sub : Message} (below : Below message path sub) : ReflTransGen Child message sub := by
  induction below with
  | here => exact .refl
  | child member _ ih => exact .head ⟨_, member⟩ ih

/-- The field values of all violations that are returned can be read. -/
theorem fieldValues_readable (numbers : Numbered pool) (fields : EntryFields pool) (context : BuildContext)
    (history : List (Operation pool)) (conforms : Conforms type message)
    (typed : ∀ sub, ReflTransGen Child message sub → Typed sub) (failFast : Bool) (violations : List RuleViolation)
    (returned : Validator.validate ((performAll context {} history).factory context) failFast message = .ok violations) :
    ∀ violation ∈ violations, ∀ value, violation.fieldValue = some value → Readable value := by
  intro violation member value set
  have consistent : Consistent context (performAll context {} history) := performAll_consistent history consistent_new
  obtain ⟨entry, ⟨path, sub, rules, below, found, rule, among, inner, finding, rfl⟩, rfl⟩ := validate_originates returned member
  obtain ⟨next, subConforms⟩ := below.conforms conforms
  have built : newMessageRules context sub.descriptor = .ok rules := by
    rw [subConforms.descriptor_eq] at found ⊢
    exact consistent.rulesOf found
  rw [finalize_fieldValue] at set
  refine Points.readable numbers subConforms fields (typed sub below.reaches) ?_
  cases rule with
  | message cel =>
    cases finding with
    | message found => cases found.valueless.symm.trans set
  | messageOneof fields required =>
    cases finding
    cases set
  | oneof descriptor required =>
    cases finding
    cases set
  | field rules =>
    obtain ⟨names, field, declared, memberBuilt⟩ := newMessageRules_field built among
    obtain ⟨level, -, fieldBuilt⟩ := newMemberRules_options memberBuilt
    exact finding.points declared fieldBuilt set

end Runs

section Sample

theorem numbered_stocks : Numbered stocks := by
  intro type
  have known : type.descriptor = stock.descriptor := List.mem_singleton.mp type.declared
  rw [MessageType.allFields, known]
  exact List.nodup_singleton _

theorem typed_stock (sub : Message) (path : ReflTransGen Child stock sub) : Typed sub := by
  rcases path.cases_head with rfl | ⟨next, ⟨element, impossible⟩, -⟩
  · intro field value member
    cases List.mem_singleton.mp member
    refine .map rfl rfl fun entry listed => ?_
    cases List.mem_singleton.mp listed
    exact ⟨.int32 2, .int32 1⟩
  · cases impossible

theorem fieldValues_readable_stock : Readable { message := .entry ⟨.int 2, .scalar (.int 1)⟩, descriptor := intInfo 2 "value" } :=
  fieldValues_readable numbered_stocks entryFields_stocks stockFactory.context [] conforms_stock typed_stock false
    [stockViolation true .keys, stockViolation false .values] rfl (stockViolation true .keys) List.mem_cons_self _ rfl

end Sample

end Protovalidate.Validate
