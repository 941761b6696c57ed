import Protovalidate.Lib.IPv6Suffix

/-! Zones of IPv6 literals in a URI: which exit of the address loop reaches them. -/

namespace Protovalidate.Lib

open Foundation Consumer IPv6Parser

namespace UriParser

section Exits

variable {u next s : AddressState} {rest : StringView}

theorem addressRound_again (round : addressRound u = .again next) :
    ∃ word, word ++ next.str = u.str ∧ '.' ∉ word := by
  obtain ⟨s, step, rfl⟩ := addressRound_again_step round
  obtain ⟨-, ⟨group, rest, read, -, rfl⟩ | ⟨rest, read, -, -, rfl⟩ | ⟨rest, read, -, -, -, rfl⟩⟩ :=
    round_again_cases step
  · exact ⟨group.text, read.symm, fun member => hexDigit_ne (group.digits _ member) (by decide) rfl⟩
  · exact ⟨[':', ':'], read.symm, by decide⟩
  · exact ⟨[':'], read.symm, by decide⟩

/-- The loop returns true behind a dotted quad only, and is finished where it stands. -/
theorem addressRound_leave_cases {result : AddressExit} (round : addressRound u = .leave result) :
    (∃ octets : Octets, ∃ rest, octets.text ++ rest = u.str ∧ result = .returned true rest) ∨
      (∃ rest, result = .returned false rest) ∨ result = .finished u := by
  unfold addressRound at round
  split at round
  · split at round
    · split at round <;> cases round
      · rename_i octets rest read
        obtain ⟨same, -⟩ := parseOctets_eq_some_iff.mp read
        exact .inl ⟨octets, rest, same.symm, rfl⟩
      · exact .inr (.inl ⟨_, rfl⟩)
    · split at round
      · cases round
      · split at round
        · split at round
          · cases round
            exact .inr (.inl ⟨_, rfl⟩)
          · split at round <;> cases round
            exact .inr (.inl ⟨_, rfl⟩)
        · split at round
          · split at round <;> cases round
            exact .inr (.inl ⟨_, rfl⟩)
          · cases round
            exact .inr (.inr rfl)
  · cases round
    exact .inr (.inr rfl)

/-- The text in front of the two exits has a dot, or has none. -/
theorem addressLoop_exits (exhausted : AddressExit) (u : AddressState) :
    (∀ rest, Control.loop addressRound (fun u => u.str.length) exhausted u = .returned true rest →
        ∃ word, word ++ rest = u.str ∧ '.' ∈ word) ∧
      ∀ s, Control.loop addressRound (fun u => u.str.length) exhausted u = .finished s →
        ∃ word, word ++ s.str = u.str ∧ '.' ∉ word := by
  induction u using Control.loop_induction addressRound_decreases with
  | round u ih =>
    cases round : addressRound u with
    | leave result =>
      rw [Control.loop_leave addressRound_decreases round]
      obtain ⟨octets, text, read, rfl⟩ | ⟨text, rfl⟩ | rfl := addressRound_leave_cases round
      · refine ⟨fun rest same => ?_, fun s same => (by cases same)⟩
        cases same
        exact ⟨octets.text, read, by simp [Octets.text]⟩
      · exact ⟨fun rest same => (by cases same), fun s same => (by cases same)⟩
      · refine ⟨fun rest same => (by cases same), fun s same => ?_⟩
        cases same
        exact ⟨[], rfl, by simp⟩
    | again next =>
      obtain ⟨front, same, undotted⟩ := addressRound_again round
      obtain ⟨returned, finished⟩ := ih next round
      rw [Control.loop_again addressRound_decreases round]
      refine ⟨fun rest found => ?_, fun s found => ?_⟩
      · obtain ⟨word, split, dotted⟩ := returned rest found
        exact ⟨front ++ word, by rw [List.append_assoc, split, same], List.mem_append_right _ dotted⟩
      · obtain ⟨word, split, clear⟩ := finished s found
        exact ⟨front ++ word, by rw [List.append_assoc, split, same], by simp [undotted, clear]⟩

end Exits

section Literals

variable {a rest zone : StringView} {bits : BitVec 128}

/-- Behind a dotted quad the parser returns at once; otherwise it reads a zone. -/
theorem consumeIPv6Address_behind (parsed : parseAddressPart (a ++ rest) = some (bits, rest)) :
    consumeIPv6Address (a ++ rest) =
      if '.' ∈ a then (true, rest) else whenever (consumeSequence ['%', '2', '5']) consumeZoneId rest := by
  obtain ⟨returned, finished⟩ := addressLoop_exits (.returned false (a ++ rest)) ⟨a ++ rest, 0, false⟩
  have unfolded : addressLoop ⟨a ++ rest, 0, false⟩ = Control.loop addressRound (fun u => u.str.length)
    (.returned false (a ++ rest)) ⟨a ++ rest, 0, false⟩ := rfl
  rw [← unfolded] at returned finished
  obtain ⟨failed, -⟩ | ⟨bits', rest', parsed', ends⟩ := consumeIPv6Address_cases (a ++ rest)
  · cases failed.symm.trans parsed
  · cases parsed.symm.trans parsed'
    obtain ⟨exit, read⟩ | ⟨s, exit, rfl, read⟩ := ends
    · obtain ⟨word, same, dotted⟩ := returned rest exit
      obtain rfl := List.append_cancel_right same
      rw [if_pos dotted, read]
    · obtain ⟨word, same, undotted⟩ := finished s exit
      obtain rfl := List.append_cancel_right same
      rw [if_neg undotted, read]

theorem skip_unreserved (chars : ∀ c ∈ zone, unreserved c = true) :
    skip (nameToken unreserved) (zone ++ [']']) = [']'] := by
  have shrinks := nameToken_shrinks unreserved
  induction zone with
  | nil =>
    refine skip_leave shrinks (nameToken_restores unreserved) fun rest found => ?_
    have nothing : consume unreserved [']'] = (false, [']']) := by decide
    simp [nameToken, either, nothing, codePoint_missed] at found
  | cons c zone ih =>
    have plain := chars c (by simp)
    have token : nameToken unreserved (c :: (zone ++ [']'])) = (true, zone ++ [']']) := by
      simp [nameToken, either, consume, one, plain]
    rw [List.cons_append, skip_again shrinks token]
    exact ih fun d member => chars d (by simp [member])

/-- The zone of a literal is read up to the bracket. -/
theorem consumeZoneId_unreserved (nonempty : zone ≠ []) (chars : ∀ c ∈ zone, unreserved c = true) :
    consumeZoneId (zone ++ [']']) = (true, [']']) := by
  have skipped := skip_unreserved chars
  have moved : zone ++ [']'] ≠ [']'] := by simpa using nonempty
  simp only [nameToken] at skipped
  simp [consumeZoneId, atLeastOne, skipped, moved.symm]

theorem consumeIPVFuture_missed {str : StringView} (start : str.head? ≠ some 'v') : consumeIPVFuture str = (false, str) := by
  simp only [consumeIPVFuture, restoring, both, consume_char_missed start]

theorem consumeIPLiteral_zoned (parsed : parseAddressPart (a ++ '%' :: '2' :: '5' :: (zone ++ [']'])) =
    some (bits, '%' :: '2' :: '5' :: (zone ++ [']']))) (nonempty : zone ≠ []) (chars : ∀ c ∈ zone, unreserved c = true)
    (undotted : '.' ∉ a) : consumeIPLiteral ('[' :: (a ++ '%' :: '2' :: '5' :: (zone ++ [']']))) = (true, []) := by
  have address := consumeIPv6Address_behind parsed
  rw [if_neg undotted] at address
  have percent : consumeSequence ['%', '2', '5'] ('%' :: '2' :: '5' :: (zone ++ [']'])) = (true, zone ++ [']']) := by
    simp [consumeSequence, word]
  simp only [whenever, percent, consumeZoneId_unreserved nonempty chars] at address
  simp only [consumeIPLiteral, restoring, both, either, consume_char_cons, address]

/-- Without an address in front of the bracket there is no literal. -/
theorem consumeIPLiteral_rejected {str : StringView} (start : str.head? ≠ some 'v')
    (missed : ∀ rest, consumeIPv6Address str ≠ (true, ']' :: rest)) :
    consumeIPLiteral ('[' :: str) = (false, '[' :: str) := by
  have notAddress : restoring (both consumeIPv6Address (consume (char ']'))) str = (false, str) := by
    cases answer : consumeIPv6Address str with
    | mk found rest =>
      cases found with
      | false => simp only [restoring, both, answer]
      | true =>
        have open_ : consume (char ']') rest = (false, rest) := by
          apply consume_char_missed
          intro closes
          obtain ⟨tail, rfl⟩ := List.head?_eq_some_iff.mp closes
          exact missed tail answer
        simp only [restoring, both, answer, open_]
  simp only [consumeIPLiteral, restoring, both, either, consume_char_cons] at notAddress ⊢
  simp only [notAddress, consumeIPVFuture_missed start]

end Literals

section Zones

variable {a zone : StringView} {bits : BitVec 128}

/-- The zones that the parser does not reach or does not read: behind a dotted
quad, and behind an elision with a group to spare when a dot makes the text
behind the address look like a dotted quad. -/
def ZoneLost (a zone : StringView) : Prop :=
  '.' ∈ a ∨ (zone.head? = some '.' ∧ 3 ≤ zone.length ∧
    ∃ before groups : List Hexadecatet, before.length + groups.length ≤ 6 ∧ a = elidedText before ⟨groups, none⟩)

theorem misreadsGroup_percent (groups : List Hexadecatet) (tail : StringView) :
    misreadsGroup groups ('%' :: '2' :: '5' :: tail) = false := by
  rw [misreadsGroup, Option.any_eq_false]
  intro group _
  rw [← Bool.not_eq_true, checkDotted_group group (by simp)]
  simp

theorem misfires_percent_iff (nonempty : zone ≠ []) : Misfires a ('%' :: '2' :: '5' :: (zone ++ [']'])) ↔
    zone.head? = some '.' ∧ 3 ≤ zone.length ∧
      ∃ before groups : List Hexadecatet, before.length + groups.length ≤ 6 ∧ a = elidedText before ⟨groups, none⟩ := by
  have dotted : checkDotted ('%' :: '2' :: '5' :: (zone ++ [']'])) = true ↔ zone.head? = some '.' ∧ 3 ≤ zone.length := by
    obtain ⟨c, tail, rfl⟩ := List.exists_cons_of_ne_nil nonempty
    rw [checkDotted_iff]
    simp [and_comm]
  simp only [Misfires, misreadsGroup_percent, dotted, Bool.false_eq_true, false_or]
  constructor
  · rintro ⟨before, groups, -, same, room, first, long⟩
    exact ⟨first, long, before, groups, Nat.le_of_lt_succ room, same⟩
  · rintro ⟨first, long, before, groups, room, same⟩
    exact ⟨before, groups, by omega, same, by omega, first, long⟩

theorem networkAccepted_of_literal {str : StringView} (literal : consumeIPLiteral ('[' :: str) = (true, [])) :
    NetworkAccepted ('[' :: str) := by
  have bracket : startsWith '[' ('[' :: str) = true := rfl
  have host : consumeHost ('[' :: str) = (true, []) := by
    simp only [consumeHost, either, both, test, bracket, literal]
  exact ⟨[], consumeAuthority_of_host (consumeUserInfo_bracket str) host rfl, nil_behindAuthority⟩

theorem not_networkAccepted_of_missed {str : StringView} (missed : consumeIPLiteral ('[' :: str) = (false, '[' :: str)) :
    ¬ NetworkAccepted ('[' :: str) := by
  have bracket : startsWith '[' ('[' :: str) = true := rfl
  have host : consumeHost ('[' :: str) = (false, '[' :: str) := by
    simp only [consumeHost, either, both, test, bracket, missed, consumeRegName_bracket]
  simp [NetworkAccepted, consumeAuthority_no_host (consumeUserInfo_bracket str) host]

theorem networkAccepted_zoned_iff (chars : ∀ c ∈ a, addressChar c = true) (parsed : parseAddressPart a = some (bits, []))
    (nonempty : zone ≠ []) (plain : ∀ c ∈ zone, unreserved c = true) :
    NetworkAccepted ('[' :: (a ++ '%' :: '2' :: '5' :: (zone ++ [']']))) ↔ ¬ ZoneLost a zone := by
  have start : (a ++ '%' :: '2' :: '5' :: (zone ++ [']'])).head? ≠ some 'v' := by
    cases a with
    | nil => simp
    | cons c a =>
      rintro same
      obtain rfl := Option.some.inj same
      exact absurd (chars 'v' (by simp)) (by decide)
  rw [ZoneLost, ← misfires_percent_iff nonempty]
  constructor
  · intro accepted lost
    refine not_networkAccepted_of_missed (consumeIPLiteral_rejected start fun rest found => ?_) accepted
    rcases parseAddressPart_behind parsed delimited_percent with read | misfires
    · have dotted := lost.resolve_right fun misfires =>
        Option.some_ne_none _ (read.symm.trans (misfires.none_ delimited_percent))
      rw [consumeIPv6Address_behind read, if_pos dotted] at found
      simp at found
    · obtain ⟨left, missed⟩ := consumeIPv6Address_none (misfires.none_ delimited_percent)
      rw [missed] at found
      cases found
  · intro reached
    obtain ⟨undotted, clear⟩ := not_or.mp reached
    have read := (parseAddressPart_behind parsed delimited_percent).resolve_right clear
    exact networkAccepted_of_literal (consumeIPLiteral_zoned read nonempty plain undotted)

end Zones
end UriParser

open UriParser

/-- An accepted address with a zone behind it is a host, unless the zone is lost. -/
theorem validateUri_zoned_iff (a zone : StringView) (accepted : (parseIPv6Address a).isSome = true) (noZone : '%' ∉ a)
    (nonempty : zone ≠ []) (plain : ∀ c ∈ zone, unreserved c = true) :
    validateUri ("x://[".toList ++ a ++ "%25".toList ++ zone ++ [']']) = true ↔ ¬ ZoneLost a zone := by
  obtain ⟨chars, bits, parsed⟩ := parseAddressPart_of_accepted accepted noZone
  have text : "x://[".toList ++ a ++ "%25".toList ++ zone ++ [']'] =
      'x' :: ':' :: '/' :: '/' :: '[' :: (a ++ '%' :: '2' :: '5' :: (zone ++ [']'])) := by simp
  rw [text, validateUri_network, networkAccepted_zoned_iff chars parsed nonempty plain]

theorem validateUri_zoned_eth0 :
    validateUri ("x://[".toList ++ "fe80::a".toList ++ "%25".toList ++ "eth0".toList ++ [']']) = true ↔
      ¬ ZoneLost "fe80::a".toList "eth0".toList :=
  validateUri_zoned_iff _ _ (by decide) (by decide) (by decide) (List.all_eq_true.mp (by decide))

/-- The zone behind a dotted quad is not read, and a dot at the start of a zone
spoils the address. -/
theorem zone_not_read :
    ((parseIPv6Address "::1.2.3.4".toList).isSome = true ∧
        validateUri ("x://[".toList ++ "::1.2.3.4".toList ++ "%25".toList ++ "eth0".toList ++ [']']) = false) ∧
      (parseIPv6Address "::1".toList).isSome = true ∧
        validateUri ("x://[".toList ++ "::1".toList ++ "%25".toList ++ ".12".toList ++ [']']) = false := by
  decide
end Protovalidate.Lib
