import Protovalidate.Lib.UriNetwork

/-! Addresses in brackets: how the address in an IP literal depends on what
stands behind the bracket, and where the two address parsers part. -/

namespace Protovalidate.Lib

open Foundation Consumer IPv6Parser
open scoped Computability

namespace UriParser

variable {a t str rest word : StringView} {bits : BitVec 128}

section Brackets

theorem parseAddressPart_consumes (parsed : parseAddressPart str = some (bits, rest)) :
    ∃ word, word ++ rest = str ∧ ∀ c ∈ word, addressChar c = true := by
  have start : IPv6Parser.AddressState.start str = ⟨str, 0, 0, 0, false⟩ := rfl
  simp only [parseAddressPart, ← start] at parsed
  split at parsed
  · cases parsed
  · rename_i final left
    split at parsed <;> cases parsed
    exact addressLoop_consumes _ final left

/-- Address characters are consumed up to the bracket at most. -/
theorem bracket_not_passed (chars : ∀ c ∈ word, addressChar c = true) (same : word ++ rest = a ++ ']' :: t) :
    ∃ more, a = word ++ more ∧ rest = more ++ ']' :: t := by
  rcases List.append_eq_append_iff.mp same with ⟨more, inText, inRest⟩ | ⟨more, inWord, inRest⟩
  · exact ⟨more, inText, inRest⟩
  · cases more with
    | nil => exact ⟨[], by simpa using inWord.symm, by simpa using inRest.symm⟩
    | cons c more =>
      obtain ⟨rfl, -⟩ := List.cons.inj inRest
      exact absurd (chars ']' (by simp [inWord])) (by decide)

theorem skip_bracket (range : Char → Bool) (other : Consumer Char) (missed : range '[' = false)
    (none_ : ∀ tail, other ('[' :: tail) = (false, '[' :: tail)) (shrinks : Shrinks (either (consume range) other))
    (restores : Restores (either (consume range) other)) (tail : StringView) :
    skip (either (consume range) other) ('[' :: tail) = '[' :: tail := by
  refine skip_leave shrinks restores fun rest found => ?_
  have nothing : consume range ('[' :: tail) = (false, '[' :: tail) := by simp [consume, one, missed]
  simp [either, nothing, none_ tail] at found

theorem consumeUserInfo_bracket (tail : StringView) :
    consumeUserInfo ('[' :: tail) = (false, '[' :: tail) := by
  have skipped := skip_bracket (concatRanges [unreserved, subDelims, char ':']) consumePercentEncoded
    (by decide) (fun _ => rfl)
    ((recognizes_token _ (by decide)).shrinks (leads_token _).nonempty) (token_restores _) tail
  simp only [consumeUserInfo, restoring, both, many, skipped, test]
  rfl

theorem consumeRegName_bracket (tail : StringView) : consumeRegName ('[' :: tail) = (false, '[' :: tail) := by
  have skipped := skip_bracket plainRange _ (by decide) (codePoint_missed (by decide))
    (nameToken_shrinks plainRange) (nameToken_restores plainRange) tail
  rw [plainRange] at skipped
  simp only [consumeRegName, restoring, both, many, skipped, test]
  rfl

/-- The address between the brackets decides on the literal. -/
theorem consumeIPLiteral_of_part (parsed : parseAddressPart (a ++ ']' :: t) = some (bits, ']' :: t)) :
    consumeIPLiteral ('[' :: (a ++ ']' :: t)) = (true, t) := by
  have address := consumeIPv6Address_of_part parsed (by simp)
  simp only [consumeIPLiteral, restoring, both, either, consume_char_cons, address]

theorem consumeIPLiteral_missed (chars : ∀ c ∈ a, addressChar c = true)
    (failed : ∀ bits, parseAddressPart (a ++ ']' :: t) ≠ some (bits, ']' :: t)) :
    consumeIPLiteral ('[' :: (a ++ ']' :: t)) = (false, '[' :: (a ++ ']' :: t)) := by
  have notAddress : restoring (both consumeIPv6Address (consume (char ']'))) (a ++ ']' :: t) =
      (false, a ++ ']' :: t) := by
    cases part : parseAddressPart (a ++ ']' :: t) with
    | none =>
      obtain ⟨rest, missed⟩ := consumeIPv6Address_none part
      simp only [restoring, both, missed]
    | some read =>
      obtain ⟨bits, rest⟩ := read
      obtain ⟨word, same, inWord⟩ := parseAddressPart_consumes part
      obtain ⟨more, rfl, rfl⟩ := bracket_not_passed inWord same
      cases more with
      | nil => exact (failed bits part).elim
      | cons c more =>
        have differs : ∀ d, addressChar d = false → c ≠ d := by
          rintro d missed rfl
          simp [chars c (by simp)] at missed
        have address := consumeIPv6Address_of_part part (by simpa using differs '%' (by decide))
        have notClosed : consume (char ']') (c :: more ++ ']' :: t) = (false, c :: more ++ ']' :: t) :=
          consume_char_missed (by simpa using differs ']' (by decide))
        simp only [restoring, both, address, notClosed]
  have notFuture : consumeIPVFuture (a ++ ']' :: t) = (false, a ++ ']' :: t) := by
    have missed : consume (char 'v') (a ++ ']' :: t) = (false, a ++ ']' :: t) := by
      apply consume_char_missed
      cases a with
      | nil => simp
      | cons c a =>
        have isAddress := chars c (by simp)
        rintro same
        obtain rfl := Option.some.inj same
        revert isAddress
        decide
    simp only [consumeIPVFuture, restoring, both, missed]
  simp only [consumeIPLiteral, restoring, both, either, consume_char_cons] at notAddress ⊢
  simp only [notAddress, notFuture]

/-- Behind a literal the path and the suffix decide alone. -/
theorem networkAccepted_bracket (chars : ∀ c ∈ a, addressChar c = true) (ends : isAuthorityEnd t = true) :
    NetworkAccepted ('[' :: (a ++ ']' :: t)) ↔
      (∃ bits, parseAddressPart (a ++ ']' :: t) = some (bits, ']' :: t)) ∧ t ∈ behindAuthority := by
  have noUserinfo := consumeUserInfo_bracket (a ++ ']' :: t)
  have bracket : startsWith '[' ('[' :: (a ++ ']' :: t)) = true := rfl
  by_cases parsed : ∃ bits, parseAddressPart (a ++ ']' :: t) = some (bits, ']' :: t)
  · obtain ⟨bits, part⟩ := parsed
    have host : consumeHost ('[' :: (a ++ ']' :: t)) = (true, t) := by
      simp only [consumeHost, either, both, test, bracket, consumeIPLiteral_of_part part]
    simp only [NetworkAccepted, consumeAuthority_of_host noUserinfo host ends, Prod.mk.injEq, true_and,
      exists_eq_left']
    exact ⟨fun member => ⟨⟨bits, part⟩, member⟩, And.right⟩
  · have failed (bits : BitVec 128) : parseAddressPart (a ++ ']' :: t) ≠ some (bits, ']' :: t) :=
      fun part => parsed ⟨bits, part⟩
    have host : consumeHost ('[' :: (a ++ ']' :: t)) = (false, '[' :: (a ++ ']' :: t)) := by
      simp only [consumeHost, either, both, test, bracket, consumeIPLiteral_missed chars failed,
        consumeRegName_bracket]
    simp [NetworkAccepted, consumeAuthority_no_host noUserinfo host, parsed]

end Brackets

section Misfires

/-- The look-ahead takes something behind an address for a dotted quad. -/
def Misfires (a rest : StringView) : Prop :=
  ∃ before groups : List Hexadecatet, before.length + groups.length ≤ 7 ∧ a = elidedText before ⟨groups, none⟩ ∧
    (misreadsGroup groups rest = true ∨ (before.length + groups.length < 7 ∧ checkDotted rest = true))

theorem Misfires.none_ (misfires : Misfires a rest) (delimited : Delimited rest) :
    parseAddressPart (a ++ rest) = none := by
  obtain ⟨before, groups, room, rfl, seen⟩ := misfires
  rw [parseAddressPart_hex before groups room delimited, if_pos seen]

theorem delimited_nil : Delimited [] := stops_nil

/-- A complete address is read in front of any delimiter, unless it misfires. -/
theorem parseAddressPart_behind (parsed : parseAddressPart a = some (bits, [])) (delimited : Delimited rest) :
    parseAddressPart (a ++ rest) = some (bits, rest) ∨ Misfires a rest := by
  have form := acceptedForm_of_parseAddressPart parsed delimited_nil
  cases form with
  | full parts eight =>
    rw [parseAddressPart_full eight delimited_nil] at parsed
    cases parsed
    rw [List.append_nil]
    exact .inl (parseAddressPart_full eight delimited)
  | hex before groups room =>
    rw [parseAddressPart_hex before groups room delimited_nil] at parsed
    rw [List.append_nil, parseAddressPart_hex before groups room delimited]
    split at parsed
    · cases parsed
    · cases parsed
      split
      · rename_i seen
        exact .inr ⟨before, groups, room, rfl, seen⟩
      · exact .inl rfl
  | quad before groups octets room =>
    rw [parseAddressPart_quad before groups octets room delimited_nil, misreadsGroup_quad] at parsed
    rw [List.append_nil, parseAddressPart_quad before groups octets room delimited, misreadsGroup_quad]
    split at parsed
    · cases parsed
    · rename_i clear
      cases parsed
      rw [if_neg clear]
      exact .inl rfl
  | colon before groups some_ room =>
    rw [parseAddressPart_colon before some_ room delimited_nil, if_pos (.inl rfl)] at parsed
    cases parsed

/-- Without a zone an accepted address is read to its end. -/
theorem parseAddressPart_of_accepted (accepted : (parseIPv6Address a).isSome = true) (noZone : '%' ∉ a) :
    (∀ c ∈ a, addressChar c = true) ∧ ∃ bits, parseAddressPart a = some (bits, []) := by
  obtain ⟨bits, parsed⟩ := Option.isSome_iff_exists.mp accepted
  obtain ⟨rest, part, zone⟩ := parseIPv6Address_eq_some_iff.mp parsed
  obtain ⟨word, rfl, chars⟩ := parseAddressPart_consumes part
  obtain rfl | ⟨zone, -, -, rfl⟩ := zone
  · exact ⟨by simpa using chars, bits, part⟩
  · simp at noZone

theorem delimited_bracket : Delimited (']' :: t) := stops_cons.mpr (by decide)

end Misfires

section Independence

/-- The dots the look-ahead finds behind the bracket: two characters behind it
after a last group of one digit, two or three where a group is still missing. -/
def DotBehindBracket (a t : StringView) : Prop :=
  ∃ before groups : List Hexadecatet, before.length + groups.length ≤ 7 ∧ a = elidedText before ⟨groups, none⟩ ∧
    (((∃ group ∈ groups.getLast?, group.text.length = 1) ∧ 5 ≤ t.length ∧ t[1]? = some '.') ∨
      (before.length + groups.length ≤ 6 ∧ 6 ≤ t.length ∧ (t[1]? = some '.' ∨ t[2]? = some '.')))

theorem checkDotted_bracket (notDot : t[0]? ≠ some '.') :
    checkDotted (']' :: t) = true ↔ 6 ≤ t.length ∧ (t[1]? = some '.' ∨ t[2]? = some '.') := by
  rw [checkDotted_iff]
  simp [notDot]

theorem checkDotted_group_bracket (group : Hexadecatet) (notDot : t[0]? ≠ some '.') :
    checkDotted (group.text ++ ']' :: t) = true ↔ group.text.length = 1 ∧ 5 ≤ t.length ∧ t[1]? = some '.' := by
  rw [checkDotted_iff]
  have notColon : group.text.head? ≠ some ':' := by
    obtain ⟨c, first, isHex⟩ := group.head []
    rw [List.append_nil] at first
    rw [first]
    simpa using hexDigit_ne isHex (by decide)
  rcases group_cases group with ⟨a, same, ha⟩ | ⟨a, b, same, ha, hb⟩ | ⟨a, b, c, same, ha, hb, hc⟩ |
    ⟨a, b, c, d, same, ha, hb, hc, hd⟩ <;>
    simp_all

theorem dotBehindBracket_iff (ends : isAuthorityEnd t = true) :
    DotBehindBracket a t ↔ Misfires a (']' :: t) := by
  have notDot : t[0]? ≠ some '.' := by
    obtain rfl | ⟨tail, rfl⟩ | ⟨tail, rfl⟩ | ⟨tail, rfl⟩ := isAuthorityEnd_iff.mp ends <;> simp
  have last (groups : List Hexadecatet) : misreadsGroup groups (']' :: t) = true ↔
      (∃ group ∈ groups.getLast?, group.text.length = 1) ∧ 5 ≤ t.length ∧ t[1]? = some '.' := by
    simp only [misreadsGroup, Option.any_eq_true, checkDotted_group_bracket _ notDot]
    constructor
    · rintro ⟨group, member, single, room, dot⟩
      exact ⟨⟨group, member, single⟩, room, dot⟩
    · rintro ⟨⟨group, member, single⟩, room, dot⟩
      exact ⟨group, member, single, room, dot⟩
  simp only [DotBehindBracket, Misfires, last, checkDotted_bracket notDot, Nat.lt_succ_iff]

/-- A bracketed address stands for any other host, unless it misfires in front
of a path and a suffix that are fine by themselves. -/
theorem bracket_letter_iff (chars : ∀ c ∈ a, addressChar c = true) (parsed : parseAddressPart a = some (bits, []))
    (ends : isAuthorityEnd t = true) :
    (NetworkAccepted ('[' :: (a ++ ']' :: t)) ↔ NetworkAccepted ('h' :: t)) ↔
      ¬ (DotBehindBracket a t ∧ t ∈ behindAuthority) := by
  have letter : NetworkAccepted ('h' :: t) ↔ t ∈ behindAuthority := by
    simp only [NetworkAccepted, consumeAuthority_letter ends, Prod.mk.injEq, true_and, exists_eq_left']
  rw [letter, networkAccepted_bracket chars ends, dotBehindBracket_iff ends]
  obtain read | misfires := parseAddressPart_behind parsed (delimited_bracket (t := t))
  · have clear : ¬ Misfires a (']' :: t) := by
      intro misfires
      exact Option.some_ne_none _ (read.symm.trans (misfires.none_ delimited_bracket))
    simp [read, clear]
  · simp [misfires.none_ delimited_bracket, misfires]

end Independence

section Agreement

/-- The texts that the first parser rejects for the colon they end on and the
second, which sees the bracket behind it, does not. -/
def TrailingColon (a : StringView) : Prop :=
  ∃ before groups : List Hexadecatet, groups ≠ [] ∧ before.length + groups.length ≤ 6 ∧
    a = elidedText before ⟨groups, none⟩ ++ [':']

theorem misreadsGroup_short (groups : List Hexadecatet) (tail : StringView) (short : tail.length ≤ 2) :
    misreadsGroup groups tail = false := by
  rw [misreadsGroup, Option.any_eq_false]
  intro group _
  have width := group.width
  rw [← Bool.not_eq_true, checkDotted_iff, List.length_append]
  omega

theorem TrailingColon.rejected (trailing : TrailingColon a) : parseAddressPart a = none := by
  obtain ⟨before, groups, some_, room, rfl⟩ := trailing
  rw [parseAddressPart_colon before some_ room delimited_nil, if_pos (.inl rfl)]

theorem TrailingColon.accepted (trailing : TrailingColon a) :
    ∃ bits, parseAddressPart (a ++ [']']) = some (bits, [']']) := by
  obtain ⟨before, groups, some_, room, rfl⟩ := trailing
  have short := misreadsGroup_short groups [':', ']'] (by simp)
  rw [List.append_assoc, List.singleton_append, parseAddressPart_colon before some_ room delimited_bracket,
    if_neg (by simpa [short] using by decide)]
  exact ⟨_, rfl⟩

/-- What the second parser reads up to the bracket and the first does not. -/
theorem parseAddressPart_bracket (trailing : ¬ TrailingColon a) :
    (∃ bits, parseAddressPart (a ++ [']']) = some (bits, [']'])) ↔ ∃ bits, parseAddressPart a = some (bits, []) := by
  constructor
  · rintro ⟨bits, parsed⟩
    have form := acceptedForm_of_parseAddressPart parsed delimited_bracket
    generalize same : a ++ [']'] = str at form
    have text {x : StringView} (joined : a ++ [']'] = x ++ [']']) : a = x := List.append_cancel_right joined
    cases form with
    | full parts eight =>
      obtain rfl := text same
      have read := parseAddressPart_full eight delimited_nil
      rw [List.append_nil] at read
      exact ⟨_, read⟩
    | hex before groups room =>
      obtain rfl := text same
      have read := parseAddressPart_hex before groups room delimited_nil
      rw [List.append_nil, if_neg (by simp [misreadsGroup_short])] at read
      exact ⟨_, read⟩
    | quad before groups octets room =>
      obtain rfl := text same
      rw [parseAddressPart_quad before groups octets room delimited_bracket, misreadsGroup_quad] at parsed
      have read := parseAddressPart_quad before groups octets room delimited_nil
      rw [List.append_nil, misreadsGroup_quad] at read
      split at parsed
      · cases parsed
      · rename_i clear
        rw [if_neg clear] at read
        exact ⟨_, read⟩
    | colon before groups some_ room =>
      refine (trailing ⟨before, groups, some_, room, text ?_⟩).elim
      rw [same]
      simp
  · rintro ⟨bits, parsed⟩
    refine ⟨bits, (parseAddressPart_behind parsed delimited_bracket).resolve_right ?_⟩
    rintro ⟨before, groups, -, -, misread | ⟨-, dotted⟩⟩
    · rw [misreadsGroup_short groups _ (by simp)] at misread
      cases misread
    · revert dotted
      decide

end Agreement
end UriParser

open UriParser

section Validators

variable {a t : StringView}

theorem isAuthorityEnd_of_head (ends : t = [] ∨ ∃ tail, t = '/' :: tail ∨ t = '?' :: tail ∨ t = '#' :: tail) :
    isAuthorityEnd t = true := by
  rw [isAuthorityEnd_iff]
  obtain rfl | ⟨tail, rfl | rfl | rfl⟩ := ends <;> simp

/-- An accepted address in brackets validates like any other host, except that
a dot behind the bracket may be taken for one of a dotted quad. -/
theorem validate_bracket_eq_letter_iff (a t : StringView) (accepted : (parseIPv6Address a).isSome = true)
    (noZone : '%' ∉ a) (ends : t = [] ∨ ∃ tail, t = '/' :: tail ∨ t = '?' :: tail ∨ t = '#' :: tail) :
    (validateUri ("x://[".toList ++ a ++ ']' :: t) = validateUri ("x://h".toList ++ t) ∧
        validateUriReference ("//[".toList ++ a ++ ']' :: t) = validateUriReference ("//h".toList ++ t)) ↔
      ¬ (DotBehindBracket a t ∧
        t ∈ Rfc3986.pathAbempty * (1 + literal ['?'] * Rfc3986.query) * (1 + literal ['#'] * Rfc3986.fragment)) := by
  obtain ⟨chars, bits, parsed⟩ := parseAddressPart_of_accepted accepted noZone
  have decided := bracket_letter_iff chars parsed (isAuthorityEnd_of_head ends)
  rw [behindAuthority, suffix, ← mul_assoc] at decided
  have uri (w w' : StringView) :
      validateUri ('x' :: ':' :: '/' :: '/' :: w) = validateUri ('x' :: ':' :: '/' :: '/' :: w') ↔
        (NetworkAccepted w ↔ NetworkAccepted w') := by
    rw [Bool.eq_iff_iff, validateUri_network, validateUri_network]
  have reference (w w' : StringView) :
      validateUriReference ('/' :: '/' :: w) = validateUriReference ('/' :: '/' :: w') ↔
        (NetworkAccepted w ↔ NetworkAccepted w') := by
    rw [Bool.eq_iff_iff, validateUriReference_network, validateUriReference_network]
  have both := (uri ('[' :: (a ++ ']' :: t)) ('h' :: t)).and (reference ('[' :: (a ++ ']' :: t)) ('h' :: t))
  rw [and_self, decided] at both
  rw [List.append_assoc, List.append_assoc]
  exact both

theorem validate_bracket_eq_letter_iff_path :
    (validateUri ("x://[".toList ++ "::1".toList ++ ']' :: "/p".toList) = validateUri ("x://h".toList ++ "/p".toList) ∧
        validateUriReference ("//[".toList ++ "::1".toList ++ ']' :: "/p".toList) =
          validateUriReference ("//h".toList ++ "/p".toList)) ↔
      ¬ (DotBehindBracket "::1".toList "/p".toList ∧ "/p".toList ∈
        Rfc3986.pathAbempty * (1 + literal ['?'] * Rfc3986.query) * (1 + literal ['#'] * Rfc3986.fragment)) :=
  validate_bracket_eq_letter_iff _ _ (by decide) (by decide) (.inr ⟨['p'], .inl rfl⟩)

/-- The dot of a hidden file turns the host `[::1]` into an error. -/
theorem hiddenFile_behind_bracket :
    (parseIPv6Address "::1".toList).isSome = true ∧
      validateUri ("x://[".toList ++ "::1".toList ++ ']' :: "/.well-known".toList) ≠
        validateUri ("x://h".toList ++ "/.well-known".toList) :=
  ⟨by decide, by decide⟩

/-- The two address parsers agree on everything but a trailing colon. -/
theorem parsers_agree_iff (a : StringView) (chars : ∀ c ∈ a, hexDigit c = true ∨ c = ':' ∨ c = '.') :
    (validateUri ("x://[".toList ++ a ++ [']']) = true ↔ (parseIPv6Address a).isSome = true) ↔
      ¬ TrailingColon a := by
  have isAddress : ∀ c ∈ a, addressChar c = true := by
    intro c member
    simpa [addressChar, or_assoc] using chars c member
  have noZone : '%' ∉ a := fun member => absurd (isAddress '%' member) (by decide)
  have first : (parseIPv6Address a).isSome = true ↔ ∃ bits, parseAddressPart a = some (bits, []) := by
    constructor
    · exact fun accepted => (parseAddressPart_of_accepted accepted noZone).2
    · rintro ⟨bits, parsed⟩
      rw [parseIPv6Address_eq_some_iff.mpr ⟨[], parsed, .inl rfl⟩]
      rfl
  have second : validateUri ("x://[".toList ++ a ++ [']']) = true ↔
      ∃ bits, parseAddressPart (a ++ [']']) = some (bits, [']']) := by
    rw [List.append_assoc, show "x://[".toList = ['x', ':', '/', '/', '['] from rfl]
    simp only [List.cons_append, List.nil_append, validateUri_network, networkAccepted_bracket isAddress
      (show isAuthorityEnd [] = true from rfl), nil_behindAuthority, and_true]
  rw [first, second]
  constructor
  · intro agree trailing
    obtain ⟨bits, parsed⟩ := agree.mp trailing.accepted
    rw [trailing.rejected] at parsed
    cases parsed
  · exact parseAddressPart_bracket

theorem parsers_agree_iff_loopback :
    (validateUri ("x://[".toList ++ "::1".toList ++ [']']) = true ↔ (parseIPv6Address "::1".toList).isSome = true) ↔
      ¬ TrailingColon "::1".toList := by
  refine parsers_agree_iff _ fun c member => ?_
  have chars : c = ':' ∨ c = '1' := by simpa using member
  obtain rfl | rfl := chars
  · exact .inr (.inl rfl)
  · exact .inl (by decide)

/-- `::1:` is rejected as an address and accepted between brackets. -/
theorem trailingColon_disagrees :
    ¬ (validateUri ("x://[".toList ++ "::1:".toList ++ [']']) = true ↔
      (parseIPv6Address "::1:".toList).isSome = true) := by
  decide

end Validators
end Protovalidate.Lib
