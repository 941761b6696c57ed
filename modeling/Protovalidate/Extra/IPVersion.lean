import Protovalidate.Extra.OrDie

/-! Which check a version number selects: `isIp` holds it in 64 bits, `isIpPrefix` in
an `int`. -/

namespace Protovalidate.Extra

open Lib

/-- The version numbers that select a check. -/
def IsVersion (version : Int) : Prop := version = 0 ∨ version = 4 ∨ version = 6

/-- The check that a version number selects, out of the answers for both versions. -/
def selectVersion (ipv4 ipv6 : Bool) (version : Int) : Bool :=
  if version = 0 then ipv4 || ipv6
  else if version = 4 then ipv4
  else if version = 6 then ipv6
  else false

section Selection

variable {M : Type} {platform : DataModel} {str : StringView} {version : BitVec 64} {strict : Bool}

/-- Both functions select by the same rule, and the flag is not set unless it is given. -/
structure SelectsVersion (M : Type) (platform : DataModel) (str : StringView) (version : BitVec 64) (strict : Bool) : Prop where
  isIpPrefix : Cel.isIpPrefixXY platform str (.int64 version : CelValue M) (.bool strict) = .ok (.bool (selectVersion
    (isIpv4Prefix platform str strict == some true) (isIpv6Prefix str strict) version.toInt))
  isIp : Cel.isIPvX str (.int64 version : CelValue M) =
    .ok (.bool (selectVersion (isIpv4 str) (isIpv6 str) version.toInt))
  forwards : Cel.isIpPrefixX platform str (.int64 version : CelValue M) =
    Cel.isIpPrefixXY platform str (.int64 version) (.bool false)

/-- The number that is left of a version in an `int`. -/
def narrowed (version : BitVec 64) : Int := (version.setWidth 32).toInt

theorem eq_iff_toInt {width : Nat} {value literal : BitVec width} {number : Int} (reads : literal.toInt = number) :
    value = literal ↔ value.toInt = number := by
  rw [← reads, BitVec.toInt_inj]

theorem isIPvX_selects : Cel.isIPvX str (.int64 version : CelValue M) =
    .ok (.bool (selectVersion (isIpv4 str) (isIpv6 str) version.toInt)) := by
  have zero : version = 0 ↔ version.toInt = 0 := eq_iff_toInt rfl
  have four : version = 4 ↔ version.toInt = 4 := eq_iff_toInt rfl
  have six : version = 6 ↔ version.toInt = 6 := eq_iff_toInt rfl
  change (if version = 0 then Except.ok (CelValue.bool (isIp str)) else if version = 4 then .ok (.bool (isIpv4 str))
    else if version = 6 then .ok (.bool (isIpv6 str)) else .ok (.bool false)) = _
  simp only [zero, four, six, selectVersion]
  split
  · rfl
  · split
    · rfl
    · split <;> rfl

theorem isIpPrefixXY_selects : Cel.isIpPrefixXY platform str (.int64 version : CelValue M) (.bool strict) =
    .ok (.bool (selectVersion (isIpv4Prefix platform str strict == some true) (isIpv6Prefix str strict) (narrowed version))) := by
  obtain ⟨ipv4, same⟩ := isIpv4Prefix_defined platform str strict
  have either : isIpPrefix platform str strict = some (ipv4 || isIpv6Prefix str strict) := by rw [isIpPrefix, same]
  have zero : version.setWidth 32 = 0 ↔ narrowed version = 0 := eq_iff_toInt rfl
  have four : version.setWidth 32 = 4 ↔ narrowed version = 4 := eq_iff_toInt rfl
  have six : version.setWidth 32 = 6 ↔ narrowed version = 6 := eq_iff_toInt rfl
  change (if version.setWidth 32 = 0 then defined (isIpPrefix platform str strict) >>= fun answer => .ok (CelValue.bool answer)
    else if version.setWidth 32 = 4 then defined (isIpv4Prefix platform str strict) >>= fun answer => .ok (.bool answer)
    else if version.setWidth 32 = 6 then .ok (.bool (isIpv6Prefix str strict)) else .ok (.bool false)) = _
  have answered : (some ipv4 == some true) = ipv4 := by cases ipv4 <;> rfl
  simp only [zero, four, six, selectVersion, either, same, answered]
  split
  · rfl
  · split
    · rfl
    · split <;> rfl

theorem selectVersion_other {ipv4 ipv6 : Bool} {number : Int} (other : ¬IsVersion number) :
    selectVersion ipv4 ipv6 number = false := by
  simp only [IsVersion, not_or] at other
  rw [selectVersion, if_neg other.1, if_neg other.2.1, if_neg other.2.2]

/-- A number that is a version is left as it is. -/
theorem narrowed_version (isVersion : IsVersion version.toInt) : narrowed version = version.toInt := by
  rcases isVersion with zero | four | six
  · obtain rfl : version = 0 := (eq_iff_toInt rfl).mpr zero
    rfl
  · obtain rfl : version = 4 := (eq_iff_toInt rfl).mpr four
    rfl
  · obtain rfl : version = 6 := (eq_iff_toInt rfl).mpr six
    rfl

theorem selectsVersion_iff : SelectsVersion M platform str version strict ↔ IsVersion version.toInt ∨
    selectVersion (isIpv4Prefix platform str strict == some true) (isIpv6Prefix str strict) (narrowed version) = false := by
  constructor
  · intro selects
    by_cases isVersion : IsVersion version.toInt
    · exact .inl isVersion
    · have same := selects.isIpPrefix
      rw [isIpPrefixXY_selects, selectVersion_other isVersion, Except.ok.injEq, CelValue.bool.injEq] at same
      exact .inr same
  · intro either
    refine ⟨?_, isIPvX_selects, rfl⟩
    rw [isIpPrefixXY_selects]
    by_cases isVersion : IsVersion version.toInt
    · rw [narrowed_version isVersion]
    · rw [either.resolve_left isVersion, selectVersion_other isVersion]

/-- Every version has a text that its check accepts. -/
theorem selectVersion_accepts (platform : DataModel) {number : Int} (isVersion : IsVersion number) :
    ∃ str, selectVersion (isIpv4Prefix platform str false == some true) (isIpv6Prefix str false) number = true := by
  have ipv4 : isIpv4Prefix platform "0.0.0.0/0".toList false = some true := rfl
  have ipv6 : isIpv6Prefix "::/0".toList false = true := by decide
  rcases isVersion with rfl | rfl | rfl
  · exact ⟨"0.0.0.0/0".toList, by rw [ipv4]; rfl⟩
  · exact ⟨"0.0.0.0/0".toList, by rw [ipv4]; rfl⟩
  · exact ⟨"::/0".toList, by rw [ipv6]; rfl⟩

/-- For a version number, the selection is right for all texts and flags if and only if
the number is a version, or what is left of it in an `int` is not. For a single text it
is right too where the check that is selected by mistake fails. -/
theorem ipVersion_selects_iff (M : Type) (platform : DataModel) (version : BitVec 64) :
    ((∀ str strict, SelectsVersion M platform str version strict) ↔
        IsVersion version.toInt ∨ ¬IsVersion (narrowed version)) ∧
      ∀ str strict, SelectsVersion M platform str version strict ↔ IsVersion version.toInt ∨
        selectVersion (isIpv4Prefix platform str strict == some true) (isIpv6Prefix str strict) (narrowed version) = false := by
  refine ⟨⟨fun selects => ?_, fun either str strict => ?_⟩, fun str strict => selectsVersion_iff⟩
  · by_cases isVersion : IsVersion version.toInt
    · exact .inl isVersion
    · refine .inr fun mistaken => ?_
      obtain ⟨str, accepts⟩ := selectVersion_accepts platform mistaken
      have rejects := (selectsVersion_iff.mp (selects str false)).resolve_left isVersion
      rw [accepts] at rejects
      cases rejects
  · exact selectsVersion_iff.mpr (either.imp_right selectVersion_other)

/-- `2^32 + 4` is taken for `4` by `isIpPrefix`, and by `isIp` it is not. -/
theorem ipVersion_mistaken :
    Cel.isIpPrefixXY .lp64 "0.0.0.0/0".toList (.int64 4294967300 : CelValue Unit) (.bool false) = .ok (.bool true) ∧
      Cel.isIPvX "0.0.0.0".toList (.int64 4294967300 : CelValue Unit) = .ok (.bool false) ∧
      ¬∀ str version strict, SelectsVersion Unit .lp64 str version strict := by
  refine ⟨rfl, rfl, fun selects => ?_⟩
  have same := (selects "0.0.0.0/0".toList 4294967300 false).isIpPrefix
  cases same

end Selection
end Protovalidate.Extra
