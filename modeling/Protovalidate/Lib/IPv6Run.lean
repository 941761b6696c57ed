import Protovalidate.Lib.IPv6
import Protovalidate.Lib.IPv6Text

/-! What one round of the address loop can do, and what the loop does with a
run of groups. -/

namespace Protovalidate.Lib.IPv6Parser

open Foundation

section LookAhead

variable {str rest tail : StringView}

theorem checkDotted_iff : checkDotted str = true ↔
    7 ≤ str.length ∧ str[0]? ≠ some ':' ∧
      (str[1]? = some '.' ∨ str[2]? = some '.' ∨ str[3]? = some '.') := by
  have minLength : "0.0.0.0".length = 7 := by decide
  simp only [checkDotted, minLength]
  split
  · simp only [Bool.false_eq_true, false_iff]
    omega
  · rename_i long
    simp [Nat.le_of_not_lt long, bne_iff_ne, or_assoc]

@[simp] theorem checkDotted_colon : checkDotted (':' :: rest) = false := by
  rw [← Bool.not_eq_true, checkDotted_iff]
  simp

@[simp] theorem checkDotted_nil : checkDotted [] = false := rfl

/-- A group is one to four characters, none of them a dot. -/
theorem group_cases (group : Hexadecatet) :
    (∃ a, group.text = [a] ∧ a ≠ '.') ∨ (∃ a b, group.text = [a, b] ∧ a ≠ '.' ∧ b ≠ '.') ∨
      (∃ a b c, group.text = [a, b, c] ∧ a ≠ '.' ∧ b ≠ '.' ∧ c ≠ '.') ∨
      (∃ a b c d, group.text = [a, b, c, d] ∧ a ≠ '.' ∧ b ≠ '.' ∧ c ≠ '.' ∧ d ≠ '.') := by
  obtain ⟨word, run, nonempty, width⟩ := group
  have undotted : ∀ c ∈ word, c ≠ '.' := fun c member => hexDigit_ne (run c member) (by decide)
  match word, nonempty, width, undotted with
  | [a], _, _, undotted => exact .inl ⟨a, rfl, undotted a (by simp)⟩
  | [a, b], _, _, undotted => exact .inr (.inl ⟨a, b, rfl, undotted a (by simp), undotted b (by simp)⟩)
  | [a, b, c], _, _, undotted =>
    exact .inr (.inr (.inl ⟨a, b, c, rfl, undotted a (by simp), undotted b (by simp), undotted c (by simp)⟩))
  | [a, b, c, d], _, _, undotted =>
    exact .inr (.inr (.inr ⟨a, b, c, d, rfl, undotted a (by simp), undotted b (by simp),
      undotted c (by simp), undotted d (by simp)⟩))

/-- Behind a group the look-ahead sees at most two further characters. -/
theorem checkDotted_group (group : Hexadecatet) (first : tail.head? ≠ some '.') :
    checkDotted (group.text ++ tail) = true ↔
      7 ≤ group.text.length + tail.length ∧
        ((group.text.length = 1 ∧ (tail[1]? = some '.' ∨ tail[2]? = some '.')) ∨
          (group.text.length = 2 ∧ tail[1]? = some '.')) := by
  have head : tail[0]? ≠ some '.' := by rwa [← List.head?_eq_getElem?]
  obtain ⟨c, next, isHex⟩ := group.head tail
  have start : (group.text ++ tail)[0]? ≠ some ':' := by
    rw [← List.head?_eq_getElem?, next]
    simpa using hexDigit_ne isHex (by decide)
  rw [checkDotted_iff, List.length_append]
  rcases group_cases group with ⟨a, same, ha⟩ | ⟨a, b, same, ha, hb⟩ | ⟨a, b, c, same, ha, hb, hc⟩ |
    ⟨a, b, c, d, same, ha, hb, hc, hd⟩ <;>
    simp_all

/-- Another group behind the colon keeps the look-ahead quiet. -/
theorem checkDotted_group_group (group next : Hexadecatet) (first : tail.head? ≠ some '.') :
    checkDotted (group.text ++ ':' :: (next.text ++ tail)) = false := by
  have head : tail[0]? ≠ some '.' := by rwa [← List.head?_eq_getElem?]
  rw [← Bool.not_eq_true, checkDotted_group group (by simp)]
  rintro ⟨-, found⟩
  rcases group_cases next with ⟨a, same, ha⟩ | ⟨a, b, same, ha, hb⟩ | ⟨a, b, c, same, ha, hb, hc⟩ |
    ⟨a, b, c, d, same, ha, hb, hc, hd⟩ <;>
    simp_all

theorem checkDotted_octets (octets : Octets) : checkDotted (octets.text ++ rest) = true := by
  have first := octetText_length octets.first
  have second := octetText_length octets.second
  have third := octetText_length octets.third
  have fourth := octetText_length octets.fourth
  obtain ⟨c, next, isHex⟩ := octets.head rest
  rw [checkDotted_iff]
  refine ⟨?_, ?_, ?_⟩
  · simp only [Octets.text, List.length_append, List.length_cons]
    omega
  · rw [← List.head?_eq_getElem?, next]
    simpa using hexDigit_ne isHex (by decide)
  · have dot : (octets.text ++ rest)[(octetText octets.first).length]? = some '.' := by
      simp [Octets.text, List.append_assoc]
    have position : (octetText octets.first).length = 1 ∨ (octetText octets.first).length = 2 ∨
        (octetText octets.first).length = 3 := by omega
    rcases position with width | width | width <;> rw [width] at dot <;> simp [dot]

/-- In front of a dotted quad the look-ahead misreads a one-digit group
followed by a one-digit octet. -/
theorem checkDotted_group_octets (group : Hexadecatet) (octets : Octets) :
    checkDotted (group.text ++ ':' :: (octets.text ++ rest)) = true ↔
      group.text.length = 1 ∧ octets.first.val < 10 := by
  have first := octetText_length octets.first
  have second := octetText_length octets.second
  have third := octetText_length octets.third
  have fourth := octetText_length octets.fourth
  have digit : (octetText octets.first)[0]? ≠ some '.' := by
    obtain ⟨c, next, isHex⟩ :=
      head_of_run octetText_hexDigit (octetText_ne_nil octets.first) []
    rw [List.append_nil, List.head?_eq_getElem?] at next
    rw [next]
    simpa using hexDigit_ne isHex (by decide)
  rw [checkDotted_group group (by simp), ← octetText_length_eq_one]
  have zero : (':' :: (octets.text ++ rest))[1]? = (octetText octets.first)[0]? := by
    rw [List.getElem?_cons_succ, Octets.text, List.append_assoc, List.getElem?_append_left (by omega)]
  have one : (':' :: (octets.text ++ rest))[2]? = some '.' ↔ (octetText octets.first).length = 1 := by
    rw [List.getElem?_cons_succ, Octets.text, List.append_assoc]
    by_cases single : (octetText octets.first).length = 1
    · simp [single]
    · rw [List.getElem?_append_left (by omega)]
      simp only [single, iff_false]
      intro found
      have member := List.mem_of_getElem? found
      exact hexDigit_ne (octetText_hexDigit _ member) (by decide) rfl
  rw [zero, one]
  simp only [digit, false_or, and_false, or_false, List.length_cons, List.length_append, Octets.text]
  constructor
  · exact fun found => found.2
  · exact fun found => ⟨by omega, found⟩

end LookAhead

section Readers

variable {str rest tail : StringView} {bits : BitVec 128}

theorem parseHexadecimalHexadecatet_eq_some_iff {value : Nat} :
    parseHexadecimalHexadecatet str = some (value, rest) ↔
      ∃ group : Hexadecatet, group.value = value ∧ str = group.text ++ rest ∧ Stops hexDigit rest := by
  have digits : calculateHexadecimalDigits 0xffff = 4 := by decide
  have read (word tail : StringView) (run : ∀ c ∈ word, hexDigit c = true) (stops : Stops hexDigit tail) :=
    parseHexadecimalNumber_run 0xffff 1 (by decide) (by decide)
      run stops
  simp only [digits] at read
  constructor
  · intro parsed
    obtain ⟨word, tail, rfl, run, stops⟩ := exists_run hexDigit str
    rw [parseHexadecimalHexadecatet, read word tail run stops] at parsed
    split at parsed
    · rename_i accepted
      simp only [Option.some.injEq, Prod.mk.injEq] at parsed
      obtain ⟨rfl, rfl⟩ := parsed
      exact ⟨⟨word, run, accepted.1, accepted.2.2⟩, rfl, rfl, stops⟩
    · cases parsed
  · rintro ⟨group, rfl, rfl, stops⟩
    rw [parseHexadecimalHexadecatet, read group.text rest group.digits stops, if_pos]
    · rfl
    · exact ⟨group.nonempty, List.length_pos_iff.mpr group.nonempty, group.width⟩

theorem parseHexadecimalHexadecatet_none (stops : Stops hexDigit str) :
    parseHexadecimalHexadecatet str = none := by
  rw [Option.eq_none_iff_forall_ne_some]
  rintro ⟨value, rest⟩ parsed
  obtain ⟨group, -, rfl, -⟩ := parseHexadecimalHexadecatet_eq_some_iff.mp parsed
  obtain ⟨c, next, isHex⟩ := group.head rest
  simpa [isHex] using stops c next

/-- The last 32 bits a dotted quad stands for. -/
def quadBits (octets : Octets) : BitVec 128 :=
  BitVec.ofNat 128 octets.first.val <<< 24 ||| (BitVec.ofNat 128 octets.second.val <<< 16 |||
    (BitVec.ofNat 128 octets.third.val <<< 8 ||| BitVec.ofNat 128 octets.fourth.val))

theorem parseDotted_eq_some_iff {result : BitVec 128} :
    parseDotted bits str = some (result, rest) ↔
      ∃ octets : Octets, result = bits ||| quadBits octets ∧ str = octets.text ++ rest ∧
        Stops Char.isDigit rest := by
  have assembled (octets : Octets) : bits ||| BitVec.ofNat 128 octets.first.val <<< 24 |||
      BitVec.ofNat 128 octets.second.val <<< 16 ||| BitVec.ofNat 128 octets.third.val <<< 8 |||
      BitVec.ofNat 128 octets.fourth.val = bits ||| quadBits octets := by
    simp only [quadBits, BitVec.or_assoc]
  simp only [parseDotted]
  constructor
  · intro parsed
    split at parsed <;> simp at parsed
    rename_i octets tail read
    obtain ⟨rfl, rfl⟩ := parsed
    obtain ⟨same, stops⟩ := parseOctets_eq_some_iff.mp read
    exact ⟨octets, assembled octets, same, stops⟩
  · rintro ⟨octets, rfl, rfl, stops⟩
    rw [parseOctets_text octets stops]
    simp only [assembled octets]

theorem parseDotted_none (stops : Stops hexDigit str) : parseDotted bits str = none := by
  rw [Option.eq_none_iff_forall_ne_some]
  rintro ⟨value, rest⟩ parsed
  obtain ⟨octets, -, rfl, -⟩ := parseDotted_eq_some_iff.mp parsed
  obtain ⟨c, next, isHex⟩ := octets.head rest
  simpa [isHex] using stops c next

/-- A group that no dot follows is no octet. -/
theorem parseDotted_group (group : Hexadecatet) (stops : Stops hexDigit tail)
    (undotted : tail.head? ≠ some '.') : parseDotted bits (group.text ++ tail) = none := by
  rw [Option.eq_none_iff_forall_ne_some]
  rintro ⟨value, rest⟩ parsed
  obtain ⟨octets, -, same, -⟩ := parseDotted_eq_some_iff.mp parsed
  rw [Octets.text, List.append_assoc] at same
  obtain ⟨-, dotted⟩ := run_unique same group.digits stops octetText_hexDigit (stops_cons.mpr (by decide))
  exact undotted (by rw [dotted]; rfl)

theorem consumeSequence_eq_true_iff {sequence : StringView} :
    consumeSequence sequence str = (true, rest) ↔ str = sequence ++ rest := by
  rw [consumeSequence, recognizes_word sequence str rest]
  constructor
  · rintro ⟨_, rfl, same, -⟩
    exact same.symm
  · rintro rfl
    exact ⟨sequence, rfl, rfl, trivial⟩

theorem consumeSequence_missed {sequence : StringView} (missed : ¬ sequence <+: str) :
    consumeSequence sequence str = (false, str) := by
  have notPrefix : sequence.isPrefixOf str = false := by
    rwa [← Bool.not_eq_true, List.isPrefixOf_iff_prefix]
  simp [consumeSequence, Consumer.word, notPrefix]

end Readers

namespace AddressState

/-- The loop looks for the dotted form here. -/
def watching (s : AddressState) : Bool := s.doubleColonFound || s.index == hexadecatetsCount - 2

def group (s : AddressState) (group : Hexadecatet) (rest : StringView) : AddressState :=
  { s with str := rest, b := s.b <<< 16 ||| BitVec.ofNat 128 group.value, index := s.index + 1 }

def colon (s : AddressState) (rest : StringView) : AddressState := { s with str := rest }

def elide (s : AddressState) (rest : StringView) : AddressState where
  str := rest
  bits := s.bits ||| s.b <<< ((hexadecatetsCount - s.index) <<< 4)
  b := 0
  index := s.index + 1
  doubleColonFound := true

def dotted (s : AddressState) (octets : Octets) (rest : StringView) : AddressState :=
  { s with str := rest, bits := s.bits ||| quadBits octets, b := s.b <<< 32, index := s.index + 2 }

end AddressState

section Rounds

variable {s next final : AddressState} {group : Hexadecatet} {octets : Octets} {rest : StringView}

theorem round_full (done : 8 ≤ s.index) : addressRound s = .leave (some s) := by
  simp [addressRound, hexadecatetsCount, Nat.not_lt.mpr done]

theorem round_dotted (within : s.index < 8) (watching : s.watching = true)
    (same : s.str = octets.text ++ rest) (stops : Stops Char.isDigit rest) :
    addressRound s = .leave (some (s.dotted octets rest)) := by
  have read : parseDotted s.bits s.str = some (s.bits ||| quadBits octets, rest) :=
    parseDotted_eq_some_iff.mpr ⟨octets, rfl, same, stops⟩
  have seen : (s.watching && checkDotted s.str) = true := by
    rw [same, checkDotted_octets, watching]
    rfl
  rw [AddressState.watching] at seen
  simp only [addressRound, hexadecatetsCount, within, ↓reduceIte] at seen ⊢
  simp only [seen, ↓reduceIte, read, AddressState.dotted]

theorem round_misread (within : s.index < 8) (watching : s.watching = true)
    (ahead : checkDotted s.str = true) (fails : parseDotted s.bits s.str = none) :
    addressRound s = .leave none := by
  have seen : (s.watching && checkDotted s.str) = true := by rw [ahead, watching]; rfl
  rw [AddressState.watching] at seen
  simp only [addressRound, hexadecatetsCount, within, ↓reduceIte] at seen ⊢
  simp only [seen, ↓reduceIte, fails]

theorem round_group (within : s.index < 8) (clear : (s.watching && checkDotted s.str) = false)
    (same : s.str = group.text ++ rest) (stops : Stops hexDigit rest) :
    addressRound s = .again (s.group group rest) := by
  have read : parseHexadecimalHexadecatet s.str = some (group.value, rest) :=
    parseHexadecimalHexadecatet_eq_some_iff.mpr ⟨group, rfl, same, stops⟩
  rw [AddressState.watching] at clear
  simp only [addressRound, hexadecatetsCount, within, ↓reduceIte] at clear ⊢
  simp only [clear, Bool.false_eq_true, ↓reduceIte, read, AddressState.group]

theorem stops_colon : Stops hexDigit (':' :: rest) := by
  rw [stops_cons]
  decide

/-- Neither a group nor a dotted quad starts with a colon. -/
theorem colon_ahead (same : s.str = ':' :: rest) :
    parseHexadecimalHexadecatet s.str = none ∧ checkDotted s.str = false := by
  rw [same]
  exact ⟨parseHexadecimalHexadecatet_none stops_colon, checkDotted_colon⟩

theorem round_elide (within : s.index < 8) (first : s.doubleColonFound = false)
    (same : s.str = ':' :: ':' :: rest) (single : rest.head? ≠ some ':') :
    addressRound s = .again (s.elide rest) := by
  obtain ⟨notGroup, clear⟩ := colon_ahead same
  have read : consumeSequence [':', ':'] s.str = (true, rest) := consumeSequence_eq_true_iff.mpr same
  have early : ¬ s.index > 7 := by omega
  simp only [addressRound, hexadecatetsCount, within, ↓reduceIte, clear, Bool.and_false, Bool.false_eq_true,
    notGroup, read, consume_char_missed single, first, Nat.reduceSub, early, Bool.or_false, decide_false]
  simp only [AddressState.elide, hexadecatetsCount]

theorem round_colon (within : s.index < 8) (started : s.index ≠ 0) (same : s.str = ':' :: rest)
    (more : rest ≠ []) (single : rest.head? ≠ some ':') : addressRound s = .again (s.colon rest) := by
  obtain ⟨notGroup, clear⟩ := colon_ahead same
  have notElision : consumeSequence [':', ':'] s.str = (false, s.str) := by
    apply consumeSequence_missed
    rintro ⟨tail, found⟩
    rw [same] at found
    obtain rfl : ':' :: tail = rest := by simpa using found
    exact single rfl
  have continues : (s.index == 0 || rest.isEmpty) = false := by simp [started, more]
  simp only [addressRound, hexadecatetsCount, within, ↓reduceIte, clear, Bool.and_false, Bool.false_eq_true,
    notGroup, notElision, consume_char_eq_true_iff.mpr same, continues, AddressState.colon]

theorem round_colon_end (within : s.index < 8) (same : s.str = [':']) : addressRound s = .leave none := by
  obtain ⟨notGroup, clear⟩ := colon_ahead same
  have notElision : consumeSequence [':', ':'] s.str = (false, s.str) := by
    apply consumeSequence_missed
    rw [same]
    decide
  simp only [addressRound, hexadecatetsCount, within, ↓reduceIte, clear, Bool.and_false, Bool.false_eq_true,
    notGroup, notElision, consume_char_eq_true_iff.mpr same, List.isEmpty_nil, Bool.or_true]

theorem round_open (within : s.index < 8) (clear : (s.watching && checkDotted s.str) = false)
    (stops : Stops hexDigit s.str) (single : s.str.head? ≠ some ':') :
    addressRound s = .leave (some s) := by
  have notElision : consumeSequence [':', ':'] s.str = (false, s.str) := by
    apply consumeSequence_missed
    rintro ⟨tail, found⟩
    exact single (by rw [← found]; rfl)
  rw [AddressState.watching] at clear
  simp only [addressRound, hexadecatetsCount, within, ↓reduceIte] at clear ⊢
  simp only [clear, Bool.false_eq_true, ↓reduceIte, parseHexadecimalHexadecatet_none stops, notElision,
    consume_char_missed single]

/-- Everything a further round can have done. -/
theorem round_again_cases (round : addressRound s = .again next) : s.index < 8 ∧
    ((∃ group rest, s.str = group.text ++ rest ∧ Stops hexDigit rest ∧ next = s.group group rest) ∨
      (∃ rest, s.str = ':' :: ':' :: rest ∧ rest.head? ≠ some ':' ∧ s.doubleColonFound = false ∧
        next = s.elide rest) ∨
      (∃ rest, s.str = ':' :: rest ∧ rest ≠ [] ∧ rest.head? ≠ some ':' ∧ s.index ≠ 0 ∧
        next = s.colon rest)) := by
  unfold addressRound at round
  split at round <;> try cases round
  rename_i within
  refine ⟨within, ?_⟩
  split at round
  · split at round <;> cases round
  · split at round
    · rename_i value rest read
      obtain ⟨group, rfl, same, stops⟩ := parseHexadecimalHexadecatet_eq_some_iff.mp read
      cases round
      exact .inl ⟨group, rest, same, stops, rfl⟩
    · split at round
      · rename_i rest found
        have same : s.str = ':' :: ':' :: rest := consumeSequence_eq_true_iff.mp found
        split at round <;> try cases round
        rename_i left missed
        split at round <;> cases round
        rename_i allowed
        have unmoved := one_restores (char ':') rest left missed
        subst unmoved
        refine .inr (.inl ⟨_, same, ?_, ?_, rfl⟩)
        · intro colon
          obtain ⟨tail, rfl⟩ : ∃ tail, left = ':' :: tail := List.head?_eq_some_iff.mp colon
          simp at missed
        · cases found : s.doubleColonFound <;> simp_all
      · rename_i left missed
        split at round
        · rename_i rest found
          split at round <;> cases round
          rename_i continues
          have same : s.str = ':' :: rest := consume_char_eq_true_iff.mp found
          refine .inr (.inr ⟨rest, same, ?_, ?_, ?_, rfl⟩)
          · rintro rfl
            simp at continues
          · intro colon
            obtain ⟨tail, rfl⟩ : ∃ tail, rest = ':' :: tail := List.head?_eq_some_iff.mp colon
            have elision : consumeSequence [':', ':'] s.str = (true, tail) := consumeSequence_eq_true_iff.mpr same
            simp [elision] at missed
          · intro zero
            simp [zero] at continues
        · cases round

/-- Everything the last round can have done, short of `return false`. -/
theorem round_leave_cases (round : addressRound s = .leave (some final)) :
    (8 ≤ s.index ∧ final = s) ∨
      (s.index < 8 ∧ final = s ∧ s.str.head? ≠ some ':') ∨
      (s.index < 8 ∧ s.watching = true ∧
        ∃ octets rest, s.str = octets.text ++ rest ∧ Stops Char.isDigit rest ∧
          final = s.dotted octets rest) := by
  unfold addressRound at round
  split at round
  · rename_i within
    split at round
    · rename_i seen
      split at round <;> cases round
      rename_i bits rest read
      obtain ⟨octets, rfl, same, stops⟩ := parseDotted_eq_some_iff.mp read
      exact .inr (.inr ⟨within, (Bool.and_eq_true _ _ ▸ seen).1, octets, rest, same, stops, rfl⟩)
    · split at round
      · cases round
      · split at round
        · split at round <;> try cases round
          split at round <;> cases round
        · split at round
          · split at round <;> cases round
          · rename_i left missed
            cases round
            refine .inr (.inl ⟨within, rfl, ?_⟩)
            intro colon
            obtain ⟨tail, same⟩ : ∃ tail, s.str = ':' :: tail := List.head?_eq_some_iff.mp colon
            simp [consume_char_eq_true_iff.mpr same] at missed
  · rename_i beyond
    cases round
    exact .inl ⟨Nat.le_of_not_lt beyond, rfl⟩

theorem addressRound_decreases : Control.Decreases addressRound fun s => s.str.length := by
  intro s next round
  obtain ⟨-, ⟨group, rest, same, -, rfl⟩ | ⟨rest, same, -, -, rfl⟩ | ⟨rest, same, -, -, -, rfl⟩⟩ :=
    round_again_cases round
  · have positive := List.length_pos_iff.mpr group.nonempty
    simp only [same, AddressState.group, List.length_append]
    omega
  · simp only [same, AddressState.elide, List.length_cons]
    omega
  · simp [same, AddressState.colon]

end Rounds

end Protovalidate.Lib.IPv6Parser
