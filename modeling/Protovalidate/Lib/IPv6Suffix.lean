import Protovalidate.Lib.UriLiteral

/-! An IPv6 address in front of a suffix: when it is read there as it is read
alone, and the zones that change an address. -/

namespace Protovalidate.Lib

open Foundation IPv6Parser UriParser

variable {t rest zone : StringView} {bits : BitVec 128}

section Suffixes

/-- An address that ends in a single colon, which the parser overlooks in front
of the suffix: something follows, and the look-ahead finds no dotted quad. -/
def Overlooked (t rest : StringView) : Prop :=
  ∃ before groups : List Hexadecatet, groups ≠ [] ∧ before.length + groups.length ≤ 6 ∧
    t = elidedText before ⟨groups, none⟩ ++ [':'] ∧ rest ≠ [] ∧ misreadsGroup groups (':' :: rest) = false ∧
    checkDotted rest = false

theorem parseAddressPart_elided (before groups : List Hexadecatet) (room : before.length + groups.length ≤ 7) :
    parseAddressPart (elidedText before ⟨groups, none⟩) = some (elidedBits before (groups.map Hexadecatet.value), []) := by
  have read := parseAddressPart_hex before groups room delimited_nil
  rwa [List.append_nil, if_neg (by simp [misreadsGroup_short, checkDotted_undotted])] at read

theorem Overlooked.trailing (overlooked : Overlooked t rest) : TrailingColon t := by
  obtain ⟨before, groups, some_, room, rfl, -⟩ := overlooked
  exact ⟨before, groups, some_, room, rfl⟩

theorem UriParser.TrailingColon.chars (trailing : TrailingColon t) : ∀ c ∈ t, addressChar c = true := by
  obtain ⟨before, groups, -, -, rfl⟩ := trailing
  intro c member
  rcases List.mem_append.mp member with inText | isColon
  · exact elidedText_chars _ _ c inText
  · obtain rfl := List.mem_singleton.mp isColon
    decide

/-- In front of a suffix without dots every trailing colon is overlooked. -/
theorem UriParser.TrailingColon.overlooked (trailing : TrailingColon t) (nonempty : rest ≠ []) (undotted : '.' ∉ rest) :
    Overlooked t rest := by
  obtain ⟨before, groups, some_, room, rfl⟩ := trailing
  refine ⟨before, groups, some_, room, rfl, nonempty, misreadsGroup_undotted ?_, checkDotted_undotted undotted⟩
  simpa using undotted

theorem Overlooked.read (overlooked : Overlooked t rest) (delimited : Delimited rest) :
    ∃ body bits, t = body ++ [':'] ∧ parseAddressPart body = some (bits, []) ∧
      parseAddressPart (t ++ rest) = some (bits, rest) := by
  obtain ⟨before, groups, some_, room, rfl, nonempty, clear, undotted⟩ := overlooked
  have parsed := parseAddressPart_colon before some_ room delimited
  rw [if_neg (by simp [nonempty, clear, undotted])] at parsed
  refine ⟨_, _, rfl, parseAddressPart_elided before groups (by omega), ?_⟩
  rw [List.append_assoc]
  exact parsed

theorem UriParser.Misfires.read_alone (misfires : Misfires t rest) : ∃ bits, parseAddressPart t = some (bits, []) := by
  obtain ⟨before, groups, room, rfl, -⟩ := misfires
  exact ⟨_, parseAddressPart_elided before groups room⟩

theorem not_misfires_undotted (undotted : '.' ∉ rest) : ¬ Misfires t rest := by
  rintro ⟨before, groups, -, -, misread | ⟨-, dotted⟩⟩
  · rw [misreadsGroup_undotted undotted] at misread
    cases misread
  · rw [checkDotted_undotted undotted] at dotted
    cases dotted

theorem read_alone_or_overlooked (parsed : parseAddressPart (t ++ rest) = some (bits, rest)) (delimited : Delimited rest) :
    parseAddressPart t = some (bits, []) ∨ Overlooked t rest := by
  have form := acceptedForm_of_parseAddressPart parsed delimited
  generalize same : t ++ rest = str at form parsed
  cases form with
  | full parts eight =>
    obtain rfl := List.append_cancel_right same
    have alone := parseAddressPart_full eight delimited_nil
    rw [parseAddressPart_full eight delimited] at parsed
    cases parsed
    rw [List.append_nil] at alone
    exact .inl alone
  | hex before groups room =>
    obtain rfl := List.append_cancel_right same
    rw [parseAddressPart_hex before groups room delimited] at parsed
    split at parsed <;> cases parsed
    exact .inl (parseAddressPart_elided before groups room)
  | quad before groups octets room =>
    obtain rfl := List.append_cancel_right same
    have alone := parseAddressPart_quad before groups octets room delimited_nil
    rw [parseAddressPart_quad before groups octets room delimited, misreadsGroup_quad] at parsed
    rw [List.append_nil, misreadsGroup_quad] at alone
    split at parsed <;> cases parsed
    rename_i clear
    rw [if_neg clear] at alone
    exact .inl alone
  | colon before groups some_ room =>
    have joined : t ++ rest = (elidedText before ⟨groups, none⟩ ++ [':']) ++ rest := by
      rw [same, List.append_assoc, List.singleton_append]
    obtain rfl := List.append_cancel_right joined
    rw [parseAddressPart_colon before some_ room delimited] at parsed
    split at parsed <;> cases parsed
    rename_i clear
    simp only [not_or, Bool.not_eq_true] at clear
    exact .inr ⟨before, groups, some_, room, rfl, clear⟩

/-- What is read in front of a suffix is read alone, or a colon in front of the
suffix is overlooked. -/
theorem parseAddressPart_suffix_iff (delimited : Delimited rest) :
    parseAddressPart (t ++ rest) = some (bits, rest) ↔
      (parseAddressPart t = some (bits, []) ∧ ¬ Misfires t rest) ∨
        (Overlooked t rest ∧ ∃ body, t = body ++ [':'] ∧ parseAddressPart body = some (bits, [])) := by
  constructor
  · intro parsed
    rcases read_alone_or_overlooked parsed delimited with alone | overlooked
    · refine .inl ⟨alone, fun misfires => ?_⟩
      exact Option.some_ne_none _ (parsed.symm.trans (misfires.none_ delimited))
    · obtain ⟨body, found, same, alone, read⟩ := overlooked.read delimited
      obtain ⟨rfl, -⟩ := Prod.mk.inj (Option.some.inj (parsed.symm.trans read))
      exact .inr ⟨overlooked, body, same, alone⟩
  · rintro (⟨alone, clear⟩ | ⟨overlooked, body, same, alone⟩)
    · exact (parseAddressPart_behind alone delimited).resolve_right clear
    · obtain ⟨body', found, same', alone', read⟩ := overlooked.read delimited
      obtain rfl := List.append_cancel_right (same.symm.trans same')
      obtain ⟨rfl, -⟩ := Prod.mk.inj (Option.some.inj (alone.symm.trans alone'))
      exact read

end Suffixes

section Zones

/-- Without a percent sign an address is read to its end. -/
theorem parseIPv6Address_unzoned (noZone : '%' ∉ t) :
    parseIPv6Address t = some bits ↔ parseAddressPart t = some (bits, []) := by
  rw [parseIPv6Address_eq_some_iff]
  constructor
  · rintro ⟨rest, part, rfl | ⟨zone, -, -, rfl⟩⟩
    · exact part
    · obtain ⟨word, rfl, -⟩ := parseAddressPart_consumes part
      simp at noZone
  · exact fun part => ⟨[], part, .inl rfl⟩

/-- The zone starts at the first percent sign. -/
theorem parseIPv6Address_zoned (noZone : '%' ∉ t) (nonempty : zone ≠ []) (noNul : '\x00' ∉ zone) :
    parseIPv6Address (t ++ '%' :: zone) = some bits ↔
      parseAddressPart (t ++ '%' :: zone) = some (bits, '%' :: zone) := by
  rw [parseIPv6Address_eq_some_iff]
  constructor
  · rintro ⟨rest, part, ending⟩
    obtain ⟨word, same, chars⟩ := parseAddressPart_consumes part
    have clear (c : Char) (member : c ∈ t) : (c != '%') = true := by
      rw [bne_iff_ne]
      rintro rfl
      exact noZone member
    have inWord (c : Char) (member : c ∈ word) : (c != '%') = true := by
      rw [bne_iff_ne]
      rintro rfl
      exact absurd (chars '%' member) (by decide)
    have stops : Stops (fun c => c != '%') rest := by
      obtain rfl | ⟨zone', -, -, rfl⟩ := ending
      · exact stops_nil
      · exact stops_cons.mpr rfl
    obtain ⟨-, rfl⟩ := run_unique same inWord stops clear (stops_cons.mpr rfl)
    exact part
  · exact fun part => ⟨_, part, .inr ⟨zone, nonempty, noNul, rfl⟩⟩

/-- The zone changes the address in front of it: the look-ahead for a dotted
quad finds a dot of the zone, or a colon in front of the zone is overlooked. -/
def ZoneInterferes (t zone : StringView) : Prop := Misfires t ('%' :: zone) ∨ Overlooked t ('%' :: zone)

theorem delimited_percent : Delimited ('%' :: zone) := stops_cons.mpr (by decide)

/-- An address is the same with a zone and without, unless the zone interferes. -/
theorem zone_independent_iff (t zone : StringView) (noZone : '%' ∉ t) (nonempty : zone ≠ []) (noNul : '\x00' ∉ zone) :
    parseIPv6Address (t ++ '%' :: zone) = parseIPv6Address t ↔ ¬ ZoneInterferes t zone := by
  have zoned (bits : BitVec 128) : parseIPv6Address (t ++ '%' :: zone) = some bits ↔
      (parseIPv6Address t = some bits ∧ ¬ Misfires t ('%' :: zone)) ∨
        (Overlooked t ('%' :: zone) ∧ ∃ body, t = body ++ [':'] ∧ parseAddressPart body = some (bits, [])) := by
    rw [parseIPv6Address_zoned noZone nonempty noNul, parseIPv6Address_unzoned noZone,
      parseAddressPart_suffix_iff delimited_percent]
  constructor
  · rintro same (misfires | overlooked)
    · obtain ⟨bits, alone⟩ := misfires.read_alone
      have read := same.trans ((parseIPv6Address_unzoned noZone).mpr alone)
      rw [parseIPv6Address_zoned noZone nonempty noNul] at read
      exact Option.some_ne_none _ (read.symm.trans (misfires.none_ delimited_percent))
    · obtain ⟨body, bits, split, alone, -⟩ := overlooked.read delimited_percent
      have read := (parseIPv6Address_unzoned noZone).mp
        (same.symm.trans ((zoned bits).mpr (.inr ⟨overlooked, body, split, alone⟩)))
      exact Option.some_ne_none _ (read.symm.trans overlooked.trailing.rejected)
  · intro quiet
    apply Option.ext
    intro bits
    rw [zoned]
    constructor
    · rintro (⟨alone, -⟩ | ⟨overlooked, -⟩)
      · exact alone
      · exact (quiet (.inr overlooked)).elim
    · exact fun alone => .inl ⟨alone, fun misfires => quiet (.inl misfires)⟩

theorem zone_independent_eth0 :
    parseIPv6Address ("::1".toList ++ '%' :: "eth0".toList) = parseIPv6Address "::1".toList ↔
      ¬ ZoneInterferes "::1".toList "eth0".toList :=
  zone_independent_iff _ _ (by decide) (by decide) (by decide)

/-- A dot in the zone spoils `::1`, and the zone behind it rescues `::1:`. -/
theorem zone_changes_address :
    parseIPv6Address ("::1".toList ++ '%' :: "v.12345".toList) ≠ parseIPv6Address "::1".toList ∧
      parseIPv6Address ("::1:".toList ++ '%' :: "eth0".toList) ≠ parseIPv6Address "::1:".toList := by
  decide

end Zones
end Protovalidate.Lib
