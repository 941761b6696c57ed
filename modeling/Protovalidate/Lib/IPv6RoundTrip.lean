import Protovalidate.Lib.IPv6Outcome

/-! Decoding the textual form of an IPv6 address or prefix. -/

namespace Protovalidate.Lib

open Foundation IPv6Parser

/-- A dotted quad that starts with a one-digit octet, behind an elision and a
one-digit group. -/
def Parts.loneDigitBeforeQuad (after : Parts) : Bool :=
  match after.groups.getLast?, after.quad with
  | some group, some octets => group.text.length == 1 && decide (octets.first.val < 10)
  | _, _ => false

def IPv6Text.loneDigitBeforeQuad : IPv6Text → Bool
  | full _ _ => false
  | elided _ after _ => after.loneDigitBeforeQuad

section AddressPart

variable {before groups : List Hexadecatet} {octets : Octets} {rest : StringView}

theorem checkDotted_undotted (undotted : '.' ∉ rest) : checkDotted rest = false := by
  rw [← Bool.not_eq_true, checkDotted_iff]
  rintro ⟨-, -, found⟩
  rcases found with found | found | found <;> exact undotted (List.mem_of_getElem? found)

theorem misreadsGroup_undotted (undotted : '.' ∉ rest) : misreadsGroup groups rest = false := by
  rw [← Bool.not_eq_true, misreadsGroup, Option.any_eq_true]
  rintro ⟨group, -, misread⟩
  rw [checkDotted_undotted] at misread
  · cases misread
  · rw [List.mem_append]
    rintro (inGroup | inRest)
    · exact hexDigit_ne (group.digits _ inGroup) (by decide) rfl
    · exact undotted inRest

theorem misreadsGroup_quad : misreadsGroup groups (':' :: (octets.text ++ rest)) =
    (Parts.mk groups (some octets)).loneDigitBeforeQuad := by
  simp only [misreadsGroup, Parts.loneDigitBeforeQuad]
  cases groups.getLast? with
  | none => rfl
  | some group =>
    rw [Option.any_some, Bool.eq_iff_iff, checkDotted_group_octets]
    simp

/-- Every textual form is read up to its end, the misread one excepted. -/
theorem parseAddressPart_text (t : IPv6Text) (rest : StringView) (delimited : Delimited rest) (undotted : '.' ∉ rest) :
    parseAddressPart (t.text ++ rest) =
      if t.loneDigitBeforeQuad = true then none else some (t.value, rest) := by
  cases t with
  | full parts eight =>
    rw [IPv6Text.text, parseAddressPart_full eight delimited]
    rfl
  | elided before after room =>
    obtain ⟨groups, quad⟩ := after
    have value := elidedBits_eq_value before ⟨groups, quad⟩ room
    cases quad with
    | none =>
      have words : (Parts.mk groups none).words = groups.map Hexadecatet.value := by simp [Parts.words]
      have count : (Parts.mk groups none).count = groups.length := rfl
      have quiet : (IPv6Text.elided before ⟨groups, none⟩ room).loneDigitBeforeQuad = false := by
        simp only [IPv6Text.loneDigitBeforeQuad, Parts.loneDigitBeforeQuad]
        split <;> simp_all
      rw [IPv6Text.text, parseAddressPart_hex before groups (by rwa [count] at room) delimited, misreadsGroup_undotted undotted,
        checkDotted_undotted undotted, quiet, ← value, words]
      simp
    | some octets =>
      have count : (Parts.mk groups (some octets)).count = groups.length + 2 := rfl
      rw [IPv6Text.text, parseAddressPart_quad before groups octets (by omega) delimited, misreadsGroup_quad, value]
      rfl

end AddressPart

section Decoding

variable {str rest : StringView} {bits : BitVec 128}

theorem parseIPv6Address_of_part (parsed : parseAddressPart str = some (bits, [])) :
    parseIPv6Address str = some bits := by
  simp only [parseIPv6Address, parseAddress, parsed]
  rfl

theorem parseIPv6Address_none (failed : parseAddressPart str = none) : parseIPv6Address str = none := by
  simp only [parseIPv6Address, parseAddress, failed]

theorem parseIPv6Prefix_of_part {n : Nat} (bound : n ≤ 128)
    (parsed : parseAddressPart str = some (bits, '/' :: Nat.toDigits 10 n)) :
    parseIPv6Prefix str = some ⟨bits, n⟩ := by
  have length : parseDecimalNumber 128 (Nat.toDigits 10 n) = some (n, []) :=
    (parseDecimalNumber_eq_some_iff (by omega)).mpr ⟨bound, by simp, stops_nil⟩
  simp only [parseIPv6Prefix, parsePrefix, parsed, consume_char_cons, consumePrefixLength, length]

theorem parseIPv6Prefix_none (failed : parseAddressPart str = none) : parseIPv6Prefix str = none := by
  simp only [parseIPv6Prefix, parsePrefix, failed]

theorem toDigits_undotted (n : Nat) : '.' ∉ '/' :: Nat.toDigits 10 n := by
  intro member
  rcases List.mem_cons.mp member with isSlash | inDigits
  · simp at isSlash
  · have isDigit := (canonicalDecimal_toDigits n).digits '.' inDigits
    simp at isDigit

theorem delimited_slash : Delimited ('/' :: rest) := by
  rw [Delimited, stops_cons]
  decide

/-- A text decodes to its value, alone and in front of every prefix length. -/
def Decodes (t : IPv6Text) : Prop :=
  parseIPv6Address t.text = some t.value ∧
    ∀ n ≤ 128, parseIPv6Prefix (t.text ++ '/' :: Nat.toDigits 10 n) = some ⟨t.value, n⟩

/-- Decoding undoes encoding, except where the look-ahead takes a one-digit
group in front of the dotted quad for the quad. -/
theorem decodes_iff (t : IPv6Text) : Decodes t ↔ t.loneDigitBeforeQuad = false := by
  have alone := parseAddressPart_text t [] stops_nil (by simp)
  rw [List.append_nil] at alone
  have before (n : Nat) := parseAddressPart_text t _ delimited_slash (toDigits_undotted n)
  constructor
  · rintro ⟨decoded, -⟩
    rw [← Bool.not_eq_true]
    intro misread
    rw [if_pos misread] at alone
    rw [parseIPv6Address_none alone] at decoded
    cases decoded
  · intro clear
    rw [clear, if_neg Bool.false_ne_true] at alone
    refine ⟨parseIPv6Address_of_part alone, fun n bound => ?_⟩
    have parsed := before n
    rw [clear, if_neg Bool.false_ne_true] at parsed
    exact parseIPv6Prefix_of_part bound parsed

/-- Both parsers reject the misread texts. -/
theorem rejects_loneDigitBeforeQuad (t : IPv6Text) (misread : t.loneDigitBeforeQuad = true) :
    parseIPv6Address t.text = none ∧ ∀ n, parseIPv6Prefix (t.text ++ '/' :: Nat.toDigits 10 n) = none := by
  have alone := parseAddressPart_text t [] stops_nil (by simp)
  rw [List.append_nil, if_pos misread] at alone
  refine ⟨parseIPv6Address_none alone, fun n => ?_⟩
  have parsed := parseAddressPart_text t _ delimited_slash (toDigits_undotted n)
  rw [if_pos misread] at parsed
  exact parseIPv6Prefix_none parsed

end Decoding

/-- `::1:1.2.3.4` is such a text. -/
theorem loneDigit_not_decoded :
    parseIPv6Address "::1:1.2.3.4".toList = none ∧
      ∃ t : IPv6Text, t.text = "::1:1.2.3.4".toList ∧ ¬ Decodes t := by
  have rejected : parseIPv6Address "::1:1.2.3.4".toList = none := by decide
  refine ⟨rejected, .elided [] ⟨[.single '1' (by decide)], some ⟨1, 2, 3, 4⟩⟩ (by decide), by decide, ?_⟩
  rintro ⟨decoded, -⟩
  cases rejected.symm.trans decoded

end Protovalidate.Lib
