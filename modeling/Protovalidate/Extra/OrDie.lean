import Protovalidate.Extra.CelFunctions
import Protovalidate.Extra.IPPrefix

/-! Which calls of the extension functions return: those whose arguments have the kinds
that the accessors ask for without a check. -/

namespace Protovalidate.Extra

open Lib Validate

section Returning

variable {α β : Type}

/-- A call returns a value, which may be an error value. -/
def Returns (call : Call α) : Prop := ∃ value, call = .ok value

theorem returns_ok (value : α) : Returns (.ok value : Call α) := ⟨value, rfl⟩

theorem not_returns (fault : Fault) : ¬Returns (.error fault : Call α) := by
  rintro ⟨value, same⟩
  cases same

theorem returns_orDie (held : Option α) : Returns (orDie held) ↔ held.isSome = true := by
  cases held with
  | none => exact iff_of_false (not_returns _) Bool.false_ne_true
  | some value => exact iff_of_true (returns_ok value) rfl

/-- What is done with a value does not matter if it always returns. -/
theorem returns_bind {first : Call α} {next : α → Call β} (always : ∀ value, Returns (next value)) :
    Returns (first >>= next) ↔ Returns first := by
  cases first with
  | error fault => exact iff_of_false (not_returns _) (not_returns _)
  | ok value => exact iff_of_true (always value) (returns_ok value)

/-- A check in front of the accessor keeps it from being reached. -/
theorem returns_checked {held : Option α} {error : Call β} {next : α → Call β} (answers : Returns error)
    (always : ∀ value, Returns (next value)) :
    Returns (if !held.isSome then error else orDie held >>= next) := by
  cases held with
  | none => exact answers
  | some value => exact always value

theorem returns_checkedTwice {γ : Type} {first : Option α} {second : Option β} {error error' : Call γ}
    {next : α → β → Call γ} (answers : Returns error) (answers' : Returns error')
    (always : ∀ value value', Returns (next value value')) :
    Returns (if !first.isSome then error else if !second.isSome then error'
      else orDie first >>= fun value => orDie second >>= fun value' => next value value') := by
  cases first with
  | none => exact answers
  | some value => exact returns_checked answers' (always value)

end Returning

section Functions

variable {M : Type} (library : Library M) {lhs : StringView} (msgval nameval rhs sign rhs1 rhs2 : CelValue M)

theorem getField_returns : Returns (Cel.getField library msgval nameval) := by
  refine returns_checkedTwice (returns_ok _) (returns_ok _) fun message name => ?_
  cases library.findFieldByName message name with
  | none => exact returns_ok _
  | some field =>
    dsimp only
    split
    · exact returns_ok _
    · exact returns_ok _

theorem isNan_returns : Returns (Cel.isNan rhs) := returns_checked (returns_ok _) fun _ => returns_ok _

theorem isInfX_returns : Returns (Cel.isInfX rhs sign) := by
  refine returns_checkedTwice (returns_ok _) (returns_ok _) fun value signValue => ?_
  split
  · exact returns_ok _
  · split
    · exact returns_ok _
    · exact returns_ok _

theorem unique_returns : Returns (Cel.unique library rhs) := by
  refine returns_checked (returns_ok _) fun celList => ?_
  cases Cel.addItems library library.newMapBuilder celList with
  | none => exact returns_ok _
  | some celMap => exact returns_ok _

theorem ofBytes_returns (message : String) (holds : StringView → StringView → Bool) :
    Returns (Cel.ofBytes message holds lhs rhs) := returns_checked (returns_ok _) fun _ => returns_ok _

/-- The version is read without a check. -/
theorem isIPvX_returns : Returns (Cel.isIPvX lhs rhs) ↔ rhs.isInt64 = true := by
  refine (returns_bind fun version => ?_).trans (returns_orDie _)
  split
  · exact returns_ok _
  · split
    · exact returns_ok _
    · split
      · exact returns_ok _
      · exact returns_ok _

theorem isHostAndPort_returns : Returns (Cel.isHostAndPort lhs rhs) ↔ rhs.isBool = true :=
  (returns_bind fun _ => returns_ok _).trans (returns_orDie _)

theorem returns_defined {α : Type} {held : Option α} (holds : ∃ value, held = some value) : Returns (defined held) := by
  obtain ⟨value, rfl⟩ := holds
  exact returns_ok value

theorem isIpPrefix_defined (platform : DataModel) (str : StringView) (strict : Bool) :
    ∃ answer, isIpPrefix platform str strict = some answer := by
  obtain ⟨answer, same⟩ := isIpv4Prefix_defined platform str strict
  exact ⟨_, by rw [isIpPrefix, same]⟩

/-- So are the version and the flag here. -/
theorem isIpPrefixXY_returns (platform : DataModel) :
    Returns (Cel.isIpPrefixXY platform lhs rhs1 rhs2) ↔ rhs1.isInt64 = true ∧ rhs2.isBool = true := by
  rw [Cel.isIpPrefixXY, CelValue.int64OrDie, CelValue.isInt64]
  cases rhs1.asInt64 with
  | none => exact iff_of_false (not_returns _) fun guarded => Bool.false_ne_true guarded.1
  | some version =>
    rw [Option.isSome_some, and_iff_right rfl]
    change Returns (orDie rhs2.asBool >>= _) ↔ rhs2.isBool = true
    refine (returns_bind fun strict => ?_).trans (returns_orDie _)
    split
    · exact (returns_bind fun _ => returns_ok _).mpr (returns_defined (isIpPrefix_defined platform lhs strict))
    · split
      · exact (returns_bind fun _ => returns_ok _).mpr (returns_defined (isIpv4Prefix_defined platform lhs strict))
      · split
        · exact returns_ok _
        · exact returns_ok _

/-- What is no flag is taken for a version. -/
theorem isIpPrefixX_returns (platform : DataModel) :
    Returns (Cel.isIpPrefixX platform lhs rhs) ↔ rhs.isInt64 = true ∨ rhs.isBool = true := by
  rw [Cel.isIpPrefixX]
  split
  · rename_i flag
    rw [isIpPrefixXY_returns]
    exact ⟨fun guarded => .inr guarded.2, fun _ => ⟨rfl, flag⟩⟩
  · rename_i other
    rw [isIpPrefixXY_returns]
    exact ⟨fun guarded => .inl guarded.1, fun either => ⟨either.resolve_right other, rfl⟩⟩

/-- The arguments that are read without a check have the kind that is asked for. -/
def ExtraCall.Guarded : ExtraCall M → Prop
  | .isIPvX _ rhs => rhs.isInt64 = true
  | .isIpPrefixXY _ rhs1 rhs2 => rhs1.isInt64 = true ∧ rhs2.isBool = true
  | .isIpPrefixX _ rhs => rhs.isInt64 = true ∨ rhs.isBool = true
  | .isHostAndPort _ rhs => rhs.isBool = true
  | _ => True

/-- A call returns, with a value or an error value, if and only if none of the four
functions without checks is given a version or a flag of another kind. -/
theorem extraCall_returns_iff (library : Library M) (call : ExtraCall M) :
    (∃ value, call.run library = .ok value) ↔ call.Guarded := by
  change Returns (call.run library) ↔ call.Guarded
  cases call with
  | getField msgval nameval => exact iff_of_true (getField_returns library msgval nameval) trivial
  | isNan rhs => exact iff_of_true (isNan_returns rhs) trivial
  | isInfX rhs sign => exact iff_of_true (isInfX_returns rhs sign) trivial
  | isInf rhs => exact iff_of_true (isInfX_returns rhs _) trivial
  | unique rhs => exact iff_of_true (unique_returns library rhs) trivial
  | contains lhs rhs =>
    rw [ExtraCall.run, Cel.contains]
    exact iff_of_true (ofBytes_returns rhs _ _) trivial
  | isIPvX lhs rhs => exact isIPvX_returns rhs
  | isIP lhs => exact iff_of_true ((isIPvX_returns _).mpr rfl) trivial
  | isIpPrefixXY lhs rhs1 rhs2 => exact isIpPrefixXY_returns rhs1 rhs2 _
  | isIpPrefixX lhs rhs => exact isIpPrefixX_returns rhs _
  | isIpPrefix lhs => exact iff_of_true ((isIpPrefixXY_returns _ _ _).mpr ⟨rfl, rfl⟩) trivial
  | startsWith lhs rhs =>
    rw [ExtraCall.run, Cel.startsWith]
    exact iff_of_true (ofBytes_returns rhs _ _) trivial
  | endsWith lhs rhs =>
    rw [ExtraCall.run, Cel.endsWith]
    exact iff_of_true (ofBytes_returns rhs _ _) trivial
  | isHostAndPort lhs rhs => exact isHostAndPort_returns rhs
  | _ => exact iff_of_true (returns_ok _) trivial

end Functions

section Sample

/-- A library for calls that do not use anything of it. -/
def plainLibrary : Library Unit where
  platform := .lp64
  Field := Unit
  findFieldByName _ _ := none
  isRepeated _ := false
  fieldBackedList _ _ := []
  createValueFromSingleField _ _ := none
  CelMapBuilder := Nat
  newMapBuilder := 0
  add celMap _ _ := some (celMap + 1)
  size celMap := celMap
  fullMatch _ _ := false

/-- `'1.2.3.4'.isIp('4')` -/
theorem isIp_aborts : (ExtraCall.isIPvX "1.2.3.4".toList (.string "4".toList)).run plainLibrary = .error .orDie ∧
    ¬∀ (M : Type) (library : Library M) (call : ExtraCall M), ∃ value, call.run library = .ok value := by
  refine ⟨rfl, fun returns => ?_⟩
  obtain ⟨value, same⟩ := returns Unit plainLibrary (.isIPvX "1.2.3.4".toList (.string "4".toList))
  cases same

end Sample
end Protovalidate.Extra
