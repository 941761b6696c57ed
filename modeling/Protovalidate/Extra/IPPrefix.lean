import Protovalidate.Extra.ExtraFunc
import Protovalidate.Foundation.LowBits
import Protovalidate.Lib.IPv6Suffix

/-! The languages of `isIpv4Prefix` and `isIpv6Prefix`: an address, a slash and a
length, with the host bits zero when the check is strict. -/

namespace Protovalidate.Extra

open Foundation Lib IPv6Parser UriParser

section IPv4

variable {str : StringView} {network : IPv4Prefix} {platform : DataModel}

theorem parseIPv4Prefix_eq_some_iff : parseIPv4Prefix str = some network ↔
    network.prefixLength ≤ 32 ∧ str = dottedText network.bits ++ '/' :: Nat.toDigits 10 network.prefixLength := by
  obtain ⟨bits, n⟩ := network
  simp only [parseIPv4Prefix, IPv4Parser.parsePrefix, IPv4Parser.parseAddressPart]
  constructor
  · intro parsed
    split at parsed
    · cases parsed
    · rename_i rest part
      split at part <;> cases part
      rename_i octets found
      obtain ⟨rfl, -⟩ := parseOctets_eq_some_iff.mp found
      split at parsed
      · cases parsed
      · rename_i text slash
        obtain rfl := consume_char_eq_true_iff.mp slash
        split at parsed <;> cases parsed
        rename_i length
        obtain ⟨bound, rfl, -⟩ := (parseDecimalNumber_eq_some_iff (by omega)).mp length
        refine ⟨bound, ?_⟩
        rw [dottedText, Octets.ofBits_bits, List.append_nil]
  · rintro ⟨bound, rfl⟩
    have found : parseOctets (dottedText bits ++ '/' :: Nat.toDigits 10 n) =
        some (Octets.ofBits bits, '/' :: Nat.toDigits 10 n) :=
      parseOctets_eq_some_iff.mpr ⟨rfl, stops_cons.mpr rfl⟩
    have length : IPv4Parser.parsePrefixLength (Nat.toDigits 10 n) = some (n, []) :=
      (parseDecimalNumber_eq_some_iff (by omega)).mpr ⟨bound, (List.append_nil _).symm, stops_nil⟩
    simp only [found, consume_char_cons, length, Octets.bits_ofBits]

theorem hostLength_eq (bound : network.prefixLength ≤ 32) : network.hostLength platform = 32 - network.prefixLength := by
  rw [IPv4Prefix.hostLength, IPv4Prefix.bitsCount, Nat.add_sub_assoc bound, Nat.add_mod_left]
  apply Nat.mod_eq_of_lt
  cases platform <;> simp only [DataModel.sizeWidth] <;> omega

/-- No accepted length shifts by the width of the type or more. -/
theorem mask_selects (platform : DataModel) (bound : network.prefixLength ≤ 32) :
    ∃ mask, network.mask platform = some mask ∧ SelectsFrom mask (32 - network.prefixLength) := by
  by_cases zero : network.prefixLength = 0
  · refine ⟨0, by rw [IPv4Prefix.mask, if_pos zero], selectsFrom_zero (by omega)⟩
  · have wide : 32 ≤ platform.longWidth := by cases platform <;> decide
    have defined : 32 - network.prefixLength < platform.longWidth := by omega
    refine ⟨_, by rw [IPv4Prefix.mask, if_neg zero, hostLength_eq bound, shiftLeft, if_pos defined], ?_⟩
    have selects := selectsFrom_shiftLeft platform.longWidth (32 - network.prefixLength)
    rw [← BitVec.not_zero] at selects
    exact selects.setWidth wide

/-- The check never comes to a mask that is undefined. -/
theorem isIpv4Prefix_defined (platform : DataModel) (str : StringView) (strict : Bool) :
    ∃ answer, isIpv4Prefix platform str strict = some answer := by
  rw [isIpv4Prefix]
  cases parsed : parseIPv4Prefix str with
  | none => exact ⟨false, rfl⟩
  | some network =>
    obtain ⟨mask, masked, -⟩ := mask_selects platform (parseIPv4Prefix_eq_some_iff.mp parsed).1
    cases strict with
    | false => exact ⟨true, rfl⟩
    | true => exact ⟨network.bits &&& ~~~mask == 0, by simp [masked]⟩

/-- A dotted quad and a length, whose host bits are zero when that is asked for;
every mask that is computed on the way is defined. -/
theorem isIpv4Prefix_iff (platform : DataModel) (str : StringView) (strict : Bool) :
    (∃ answer, isIpv4Prefix platform str strict = some answer ∧
      (answer = true ↔ ∃ (value : BitVec 32) (n : Nat), n ≤ 32 ∧ str = dottedText value ++ '/' :: Nat.toDigits 10 n ∧
        (strict = true → value.toNat % 2 ^ (32 - n) = 0))) ∧
      ∀ network, parseIPv4Prefix str = some network → (network.mask platform).isSome = true := by
  have defined (network : IPv4Prefix) (parsed : parseIPv4Prefix str = some network) :=
    mask_selects platform (parseIPv4Prefix_eq_some_iff.mp parsed).1
  refine ⟨?_, fun network parsed => ?_⟩
  · cases parsed : parseIPv4Prefix str with
    | none =>
      refine ⟨false, by rw [isIpv4Prefix, parsed], ?_⟩
      simp only [Bool.false_eq_true, false_iff]
      rintro ⟨value, n, bound, same, -⟩
      have found : parseIPv4Prefix str = some ⟨value, n⟩ := parseIPv4Prefix_eq_some_iff.mpr ⟨bound, same⟩
      exact Option.some_ne_none _ (found.symm.trans parsed)
    | some network =>
      obtain ⟨mask, masked, selects⟩ := defined network parsed
      refine ⟨!strict || network.bits &&& ~~~mask == 0, ?_, ?_⟩
      · rw [isIpv4Prefix, parsed]
        cases strict
        · rfl
        · simp only [masked, Bool.not_true, Bool.false_eq_true, ↓reduceIte, Bool.false_or]
      · simp only [Bool.or_eq_true, Bool.not_eq_true', beq_iff_eq, selects.and_not_eq_zero]
        constructor
        · intro fits
          obtain ⟨bound, same⟩ := parseIPv4Prefix_eq_some_iff.mp parsed
          refine ⟨network.bits, network.prefixLength, bound, same, fun strictly => ?_⟩
          exact fits.resolve_left (by simp [strictly])
        · rintro ⟨value, n, bound, same, fits⟩
          obtain rfl : network = ⟨value, n⟩ :=
            Option.some.inj (parsed.symm.trans (parseIPv4Prefix_eq_some_iff.mpr ⟨bound, same⟩))
          cases strict
          · exact .inl rfl
          · exact .inr (fits rfl)
  · obtain ⟨mask, masked, -⟩ := defined network parsed
    rw [masked, Option.isSome_some]

end IPv4

section IPv6

variable {str : StringView} {network : IPv6Prefix} {strict : Bool}

theorem parseIPv6Prefix_eq_some_iff : parseIPv6Prefix str = some network ↔ network.prefixLength ≤ 128 ∧
    parseAddressPart str = some (network.bits, '/' :: Nat.toDigits 10 network.prefixLength) := by
  constructor
  · intro parsed
    simp only [parseIPv6Prefix, parsePrefix] at parsed
    split at parsed
    · cases parsed
    · rename_i bits rest part
      split at parsed
      · cases parsed
      · rename_i text slash
        obtain rfl := consume_char_eq_true_iff.mp slash
        split at parsed <;> cases parsed
        rename_i length
        obtain ⟨bound, rfl, -⟩ := (parseDecimalNumber_eq_some_iff (by omega)).mp length
        rw [List.append_nil] at part
        exact ⟨bound, part⟩
  · rintro ⟨bound, part⟩
    exact parseIPv6Prefix_of_part bound part

/-- An address is read in front of a length, or a colon in front of it is overlooked. -/
theorem parseAddressPart_slash_iff {bits : BitVec 128} {n : Nat} :
    parseAddressPart str = some (bits, '/' :: Nat.toDigits 10 n) ↔
      (∃ t, '%' ∉ t ∧ parseIPv6Address t = some bits ∧ str = t ++ '/' :: Nat.toDigits 10 n) ∨
        ∃ t, TrailingColon (t ++ [':']) ∧ parseIPv6Address t = some bits ∧ str = t ++ ':' :: '/' :: Nat.toDigits 10 n := by
  constructor
  · intro part
    obtain ⟨t, rfl, chars⟩ := parseAddressPart_consumes part
    have noZone : '%' ∉ t := fun member => absurd (chars '%' member) (by decide)
    rcases (parseAddressPart_suffix_iff delimited_slash).mp part with ⟨alone, -⟩ | ⟨overlooked, body, rfl, alone⟩
    · exact .inl ⟨t, noZone, (parseIPv6Address_unzoned noZone).mpr alone, rfl⟩
    · refine .inr ⟨body, overlooked.trailing, parseIPv6Address_of_part alone, ?_⟩
      rw [List.append_assoc, List.singleton_append]
  · rintro (⟨t, noZone, parsed, rfl⟩ | ⟨t, trailing, parsed, rfl⟩)
    · refine (parseAddressPart_suffix_iff delimited_slash).mpr (.inl ⟨(parseIPv6Address_unzoned noZone).mp parsed, ?_⟩)
      exact not_misfires_undotted (toDigits_undotted n)
    · have noZone : '%' ∉ t := fun member => absurd (trailing.chars '%' (List.mem_append_left _ member)) (by decide)
      have read := (parseAddressPart_suffix_iff delimited_slash).mpr
        (.inr ⟨trailing.overlooked (by simp) (toDigits_undotted n), t, rfl, (parseIPv6Address_unzoned noZone).mp parsed⟩)
      rwa [List.append_assoc, List.singleton_append] at read

theorem isIpv6Prefix_eq_true_iff : isIpv6Prefix str strict = true ↔ ∃ (value : BitVec 128) (n : Nat), n ≤ 128 ∧
    parseAddressPart str = some (value, '/' :: Nat.toDigits 10 n) ∧ (strict = true → value.toNat % 2 ^ (128 - n) = 0) := by
  have hostBits (network : IPv6Prefix) : network.bits &&& ~~~network.mask = 0 ↔
      network.bits.toNat % 2 ^ (128 - network.prefixLength) = 0 :=
    (selectsFrom_shiftLeft 128 (128 - network.prefixLength)).and_not_eq_zero
  constructor
  · intro accepted
    rw [isIpv6Prefix] at accepted
    split at accepted
    · cases accepted
    · rename_i network parsed
      obtain ⟨bound, part⟩ := parseIPv6Prefix_eq_some_iff.mp parsed
      refine ⟨network.bits, network.prefixLength, bound, part, fun strictly => ?_⟩
      rw [strictly] at accepted
      exact (hostBits network).mp (by simpa using accepted)
  · rintro ⟨value, n, bound, part, clear⟩
    have parsed : parseIPv6Prefix str = some ⟨value, n⟩ := parseIPv6Prefix_eq_some_iff.mpr ⟨bound, part⟩
    rw [isIpv6Prefix, parsed]
    cases strict
    · rfl
    · simpa using (hostBits ⟨value, n⟩).mpr (clear rfl)

/-- An address with a single colon at its end is taken for the address without it. -/
def ColonBeforeLength (str : StringView) (strict : Bool) : Prop :=
  ∃ (t : StringView) (value : BitVec 128) (n : Nat), TrailingColon (t ++ [':']) ∧ parseIPv6Address t = some value ∧
    n ≤ 128 ∧ str = t ++ ':' :: '/' :: Nat.toDigits 10 n ∧ (strict = true → value.toNat % 2 ^ (128 - n) = 0)

theorem ColonBeforeLength.diverges (colon : ColonBeforeLength str strict) : isIpv6Prefix str strict = true ∧
    ¬ ∃ (t : StringView) (value : BitVec 128) (n : Nat), '%' ∉ t ∧ parseIPv6Address t = some value ∧ n ≤ 128 ∧
      str = t ++ '/' :: Nat.toDigits 10 n ∧ (strict = true → value.toNat % 2 ^ (128 - n) = 0) := by
  obtain ⟨t, value, n, trailing, parsed, bound, same, clear⟩ := colon
  refine ⟨isIpv6Prefix_eq_true_iff.mpr
    ⟨value, n, bound, parseAddressPart_slash_iff.mpr (.inr ⟨t, trailing, parsed, same⟩), clear⟩, ?_⟩
  rintro ⟨t', value', n', noZone, parsed', -, same', -⟩
  have chars := (parseAddressPart_of_accepted (Option.isSome_of_eq_some parsed') noZone).1
  have joined : (t ++ [':']) ++ '/' :: Nat.toDigits 10 n = t' ++ '/' :: Nat.toDigits 10 n' := by
    rw [List.append_assoc, List.singleton_append, ← same, same']
  obtain ⟨rfl, -⟩ := run_unique joined trailing.chars (stops_cons.mpr (by decide)) chars (stops_cons.mpr (by decide))
  exact Option.some_ne_none _ (((parseIPv6Address_unzoned noZone).mp parsed').symm.trans trailing.rejected)

/-- The accepted texts are the addresses with a slash and a length, except for the
colon that is overlooked in front of the slash. -/
theorem isIpv6Prefix_iff (str : StringView) (strict : Bool) :
    (isIpv6Prefix str strict = true ↔ ∃ (t : StringView) (value : BitVec 128) (n : Nat), '%' ∉ t ∧
        parseIPv6Address t = some value ∧ n ≤ 128 ∧ str = t ++ '/' :: Nat.toDigits 10 n ∧
        (strict = true → value.toNat % 2 ^ (128 - n) = 0)) ↔ ¬ ColonBeforeLength str strict := by
  constructor
  · intro agree colon
    exact colon.diverges.2 (agree.mp colon.diverges.1)
  · intro quiet
    rw [isIpv6Prefix_eq_true_iff]
    simp only [parseAddressPart_slash_iff]
    constructor
    · rintro ⟨value, n, bound, ⟨t, noZone, parsed, same⟩ | ⟨t, trailing, parsed, same⟩, clear⟩
      · exact ⟨t, value, n, noZone, parsed, bound, same, clear⟩
      · exact (quiet ⟨t, value, n, trailing, parsed, bound, same, clear⟩).elim
    · rintro ⟨t, value, n, noZone, parsed, bound, same, clear⟩
      exact ⟨value, n, bound, .inl ⟨t, noZone, parsed, same⟩, clear⟩

/-- `::1:/64` is accepted, and no address stands in front of its slash. -/
theorem colonBeforeLength_accepted : isIpv6Prefix "::1:/64".toList false = true ∧
    ¬ ∃ (t : StringView) (value : BitVec 128) (n : Nat), '%' ∉ t ∧ parseIPv6Address t = some value ∧ n ≤ 128 ∧
      "::1:/64".toList = t ++ '/' :: Nat.toDigits 10 n ∧ (false = true → value.toNat % 2 ^ (128 - n) = 0) := by
  have colon : ColonBeforeLength "::1:/64".toList false :=
    ⟨"::1".toList, 1, 64, ⟨[], [.single '1' (by decide)], by simp, by simp, by decide⟩, by decide, by decide, by decide, by simp⟩
  exact colon.diverges

end IPv6

end Protovalidate.Extra
