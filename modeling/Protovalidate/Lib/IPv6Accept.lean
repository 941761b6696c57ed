import Protovalidate.Lib.IPv6RoundTrip

/-! Which texts `parseIPv6Address` accepts: the textual forms with an optional
zone, and two kinds of malformed text. -/

namespace Protovalidate.Lib

open Foundation IPv6Parser

/-- Nothing, or a percent sign and a non-empty zone without NUL. -/
def ZoneText (rest : StringView) : Prop :=
  rest = [] ∨ ∃ zone, zone ≠ [] ∧ '\x00' ∉ zone ∧ rest = '%' :: zone

section Zone

variable {str rest : StringView} {bits : BitVec 128}

theorem consumeZoneId_decreases : Control.Decreases consumeZoneIdRound List.length := by
  intro str next round
  cases str with
  | nil => simp [consumeZoneIdRound] at round
  | cons c tail =>
    simp only [consumeZoneIdRound] at round
    split at round <;> cases round
    simp

theorem consumeZoneId_loop (str : StringView) :
    Control.loop consumeZoneIdRound List.length (false, []) str = (true, rest) ↔
      rest = [] ∧ '\x00' ∉ str := by
  induction str with
  | nil =>
    rw [Control.loop_leave consumeZoneId_decreases (show consumeZoneIdRound [] = .leave (true, []) from rfl)]
    simp [eq_comm]
  | cons c tail ih =>
    by_cases nul : c = '\x00'
    · rw [Control.loop_leave consumeZoneId_decreases
        (show consumeZoneIdRound (c :: tail) = .leave (false, c :: tail) by simp [consumeZoneIdRound, nul])]
      simp [nul]
    · rw [Control.loop_again consumeZoneId_decreases
        (show consumeZoneIdRound (c :: tail) = .again tail by simp [consumeZoneIdRound, nul]), ih]
      simp [eq_comm, nul]

theorem consumeZoneId_eq_true_iff :
    consumeZoneId str = (true, rest) ↔ str ≠ [] ∧ rest = [] ∧ '\x00' ∉ str := by
  cases str with
  | nil => simp [consumeZoneId]
  | cons c tail =>
    simp only [consumeZoneId, List.isEmpty_cons, Bool.false_eq_true, ↓reduceIte, consumeZoneId_loop]
    simp

theorem zoneText_iff :
    Consumer.whenever (consume (char '%')) consumeZoneId str = (true, []) ↔ ZoneText str := by
  simp only [Consumer.whenever, ZoneText]
  split
  · rename_i zone percent
    obtain rfl := consume_char_eq_true_iff.mp percent
    rw [consumeZoneId_eq_true_iff]
    simp
  · rename_i left missed
    have same := one_restores (char '%') str left missed
    subst same
    constructor
    · intro ended
      exact .inl (Prod.mk.inj ended).2
    · rintro (rfl | ⟨zone, -, -, rfl⟩)
      · rfl
      · simp at missed

theorem ZoneText.delimited (zone : ZoneText rest) : Delimited rest := by
  obtain rfl | ⟨zone, -, -, rfl⟩ := zone
  · exact stops_nil
  · rw [Delimited, stops_cons]
    decide

/-- An address is an address part and a zone. -/
theorem parseIPv6Address_eq_some_iff :
    parseIPv6Address str = some bits ↔
      ∃ rest, parseAddressPart str = some (bits, rest) ∧ ZoneText rest := by
  simp only [parseIPv6Address, parseAddress]
  constructor
  · intro parsed
    split at parsed
    · cases parsed
    · rename_i bits rest part
      split at parsed <;> cases parsed
      rename_i ended
      exact ⟨rest, part, zoneText_iff.mp ended⟩
  · rintro ⟨rest, part, zone⟩
    simp only [part, zoneText_iff.mpr zone]

end Zone

section Texts

variable {parts : Parts} {str rest : StringView}

theorem Octets.text_last (octets : Octets) : ∃ front, octets.text = front ++ octetText octets.fourth :=
  ⟨octetText octets.first ++ '.' :: (octetText octets.second ++ '.' :: (octetText octets.third ++ ['.'])), by
    simp [Octets.text]⟩

theorem colonGroups_last (groups : List Hexadecatet) (some_ : groups ≠ []) :
    ∃ (front : StringView) (group : Hexadecatet), colonGroups groups = front ++ ':' :: group.text := by
  obtain ⟨front, group, rfl⟩ := (List.eq_nil_or_concat groups).resolve_left some_
  exact ⟨colonGroups front, group, by simp⟩

/-- Joined parts end in a hexadecimal digit. -/
theorem Parts.text_last (parts : Parts) (some_ : parts.texts ≠ []) :
    ∃ front c, parts.text = front ++ [c] ∧ hexDigit c = true := by
  suffices ending : ∃ front word, parts.text = front ++ word ∧ word ≠ [] ∧ ∀ c ∈ word, hexDigit c = true by
    obtain ⟨front, word, same, nonempty, run⟩ := ending
    refine ⟨front ++ word.dropLast, word.getLast nonempty, ?_, run _ (List.getLast_mem nonempty)⟩
    rw [same, List.append_assoc, List.dropLast_concat_getLast]
  obtain ⟨groups, quad⟩ := parts
  cases quad with
  | some octets =>
    obtain ⟨front, last⟩ := octets.text_last
    cases groups with
    | nil =>
      exact ⟨front, octetText octets.fourth, by rw [Parts.text_quad, last], octetText_ne_nil _, octetText_hexDigit⟩
    | cons group groups =>
      exact ⟨group.text ++ colonGroups groups ++ ':' :: front, octetText octets.fourth,
        by simp [Parts.text_cons, colonQuad, last], octetText_ne_nil _, octetText_hexDigit⟩
  | none =>
    cases groups with
    | nil => simp [Parts.texts] at some_
    | cons group groups =>
      by_cases single : groups = []
      · subst single
        exact ⟨[], group.text, by simp [Parts.text_cons, colonQuad], group.nonempty, group.digits⟩
      · obtain ⟨front, last, same⟩ := colonGroups_last groups single
        exact ⟨group.text ++ front ++ [':'], last.text, by simp [Parts.text_cons, colonQuad, same],
          last.nonempty, last.digits⟩

/-- A textual form never ends in a single colon. -/
theorem IPv6Text.text_ends (t : IPv6Text) (front : StringView) (c : Char) (isHex : hexDigit c = true) :
    t.text ≠ front ++ [c, ':'] := by
  have colonOnly : ∀ d : Char, hexDigit d = true → d ≠ ':' := fun d isHex => hexDigit_ne isHex (by decide)
  intro same
  have lastChar : ∀ parts : Parts, parts.texts ≠ [] → ∀ lead : StringView, lead ++ parts.text ≠ front ++ [c, ':'] := by
    intro parts some_ lead joined
    obtain ⟨init, d, text, lastHex⟩ := Parts.text_last parts some_
    have := congrArg List.getLast? joined
    simp [text, List.getLast?_append] at this
    exact colonOnly d lastHex this
  cases t with
  | full parts eight =>
    refine lastChar parts ?_ [] same
    intro empty
    obtain ⟨noGroups, noQuad⟩ := Parts.texts_eq_nil.mp empty
    simp [Parts.count, Parts.quadCount, noGroups, noQuad] at eight
  | elided before after room =>
    by_cases empty : after.texts = []
    · obtain ⟨groups, quad⟩ := after
      obtain ⟨rfl, rfl⟩ := Parts.texts_eq_nil.mp empty
      have reversed := congrArg List.reverse same
      simp [IPv6Text.text, elidedText] at reversed
      exact colonOnly c isHex reversed.1.symm
    · refine lastChar after empty ((Parts.mk before none).text ++ [':', ':']) ?_
      simpa [IPv6Text.text, elidedText] using same

/-- The characters of a textual form. -/
def addressChar (c : Char) : Bool := hexDigit c || c == ':' || c == '.'

theorem Octets.text_chars (octets : Octets) : ∀ c ∈ octets.text, addressChar c = true := by
  have digit (octet : Fin 256) (c : Char) (member : c ∈ octetText octet) : addressChar c = true := by
    simp [addressChar, octetText_hexDigit c member]
  intro c member
  simp only [Octets.text, List.mem_append, List.mem_cons] at member
  rcases member with inFirst | rfl | inSecond | rfl | inThird | rfl | inFourth
  · exact digit _ c inFirst
  · decide
  · exact digit _ c inSecond
  · decide
  · exact digit _ c inThird
  · decide
  · exact digit _ c inFourth

theorem Parts.text_chars (parts : Parts) : ∀ c ∈ parts.text, addressChar c = true := by
  obtain ⟨groups, quad⟩ := parts
  by_cases empty : (Parts.mk groups quad).texts = []
  · obtain ⟨rfl, rfl⟩ := Parts.texts_eq_nil.mp empty
    simp
  · intro c member
    have inJoined : c ∈ colonGroups groups ++ colonQuad quad :=
      Parts.colon_text _ empty ▸ List.mem_cons_of_mem ':' member
    rcases List.mem_append.mp inJoined with inGroups | inQuad
    · obtain ⟨group, -, inGroup⟩ := List.mem_flatMap.mp inGroups
      rcases List.mem_cons.mp inGroup with rfl | inText
      · decide
      · simp [addressChar, group.digits c inText]
    · cases quad with
      | none => simp [colonQuad] at inQuad
      | some octets =>
        rcases List.mem_cons.mp inQuad with rfl | inText
        · decide
        · exact octets.text_chars c inText

theorem elidedText_chars (before : List Hexadecatet) (after : Parts) :
    ∀ c ∈ elidedText before after, addressChar c = true := by
  intro c member
  simp only [elidedText, List.mem_append, List.mem_cons] at member
  rcases member with inBefore | rfl | rfl | inAfter
  · exact Parts.text_chars _ c inBefore
  · decide
  · decide
  · exact Parts.text_chars _ c inAfter

theorem IPv6Text.text_chars (t : IPv6Text) : ∀ c ∈ t.text, addressChar c = true := by
  cases t with
  | full parts eight => exact Parts.text_chars parts
  | elided before after room => exact elidedText_chars before after

/-- The zone starts at the first percent sign. -/
theorem zone_unique {text text' rest rest' : StringView} (same : text ++ rest = text' ++ rest')
    (chars : ∀ c ∈ text, addressChar c = true) (chars' : ∀ c ∈ text', addressChar c = true)
    (zone : ZoneText rest) (zone' : ZoneText rest') : text = text' ∧ rest = rest' :=
  run_unique same chars zone.delimited chars' zone'.delimited

end Texts

section Acceptance

variable {str rest : StringView}

/-- A textual form, with an optional zone. -/
def WellFormedAddress (str : StringView) : Prop :=
  ∃ (t : IPv6Text) (rest : StringView), ZoneText rest ∧ str = t.text ++ rest

/-- The malformed texts that are accepted: a colon between the last group and
the zone, or seven groups' worth of text before the dotted quad. In both the
look-ahead must not take something else for the quad. -/
inductive MalformedAccepted : StringView → Prop where
  | colonBeforeZone (before groups : List Hexadecatet) (zone : StringView) (some_ : groups ≠ [])
      (room : before.length + groups.length ≤ 6) (nonempty : zone ≠ []) (noNul : '\x00' ∉ zone)
      (clear : misreadsGroup groups (':' :: '%' :: zone) = false)
      (clearZone : checkDotted ('%' :: zone) = false) :
      MalformedAccepted (elidedText before ⟨groups, none⟩ ++ ':' :: '%' :: zone)
  | groupTooMany (before groups : List Hexadecatet) (octets : Octets) (rest : StringView)
      (six : before.length + groups.length = 6) (zone : ZoneText rest)
      (clear : (Parts.mk groups (some octets)).loneDigitBeforeQuad = false) :
      MalformedAccepted (elidedText before ⟨groups, some octets⟩ ++ rest)

theorem MalformedAccepted.accepted (malformed : MalformedAccepted str) : (parseIPv6Address str).isSome = true := by
  cases malformed with
  | colonBeforeZone before groups zone some_ room nonempty noNul clear clearZone =>
    have ending : ZoneText ('%' :: zone) := .inr ⟨zone, nonempty, noNul, rfl⟩
    have parsed := parseAddressPart_colon before some_ room ending.delimited
    rw [if_neg (by simp [clear, clearZone])] at parsed
    rw [parseIPv6Address_eq_some_iff.mpr ⟨_, parsed, ending⟩]
    rfl
  | groupTooMany before groups octets rest six zone clear =>
    have parsed := parseAddressPart_quad before groups octets (by omega) zone.delimited
    rw [misreadsGroup_quad, clear, if_neg Bool.false_ne_true] at parsed
    rw [parseIPv6Address_eq_some_iff.mpr ⟨_, parsed, zone⟩]
    rfl

/-- The loop never counts past eight groups on a textual form. -/
theorem IPv6Text.index_le (t : IPv6Text) {final : AddressState}
    (left : addressLoop (.start t.text) = some final) : final.index ≤ 8 := by
  cases t with
  | full parts eight =>
    have read := addressLoop_full eight (show Delimited [] from stops_nil)
    rw [List.append_nil] at read
    obtain rfl : fullState parts [] = final := Option.some.inj (read.symm.trans left)
    exact Nat.le_of_eq (fullState_index eight)
  | elided before after room =>
    obtain ⟨groups, quad⟩ := after
    have form := elidedText_append before ⟨groups, quad⟩ []
    obtain ⟨colon, dot⟩ := Parts.text_delimits ⟨groups, quad⟩ [] (.inl (by simp)) (.inl (by simp))
    have entered := addressLoop_elision before (by omega) colon dot
    rw [← form, List.append_nil] at entered
    rw [IPv6Text.text, entered] at left
    cases quad with
    | none =>
      have count : (Parts.mk groups none).count = groups.length := rfl
      have read := addressLoop_elided_hex before groups (by omega) stops_nil
      rw [read] at left
      split at left <;> cases left
      simp only [AddressState.groups, afterElision_index]
      omega
    | some octets =>
      have count : (Parts.mk groups (some octets)).count = groups.length + 2 := rfl
      have read := addressLoop_elided_quad before groups octets (by omega) stops_nil
      rw [read] at left
      split at left <;> cases left
      simp only [AddressState.dotted, AddressState.groups, afterElision_index]
      omega

/-- No malformed text has a second, well-formed reading. -/
theorem MalformedAccepted.malformed (malformed : MalformedAccepted str) : ¬ WellFormedAddress str := by
  rintro ⟨t, rest', zone', same⟩
  cases malformed with
  | colonBeforeZone before groups zone some_ room nonempty noNul clear clearZone =>
    have ending : ZoneText ('%' :: zone) := .inr ⟨zone, nonempty, noNul, rfl⟩
    have chars : ∀ c ∈ elidedText before ⟨groups, none⟩ ++ [':'], addressChar c = true := by
      intro c member
      rcases List.mem_append.mp member with inText | isColon
      · exact elidedText_chars _ _ c inText
      · obtain rfl := List.mem_singleton.mp isColon
        decide
    have aligned : (elidedText before ⟨groups, none⟩ ++ [':']) ++ '%' :: zone = t.text ++ rest' := by
      rw [← same]
      simp
    obtain ⟨text, -⟩ := zone_unique aligned chars t.text_chars ending zone'
    obtain ⟨front, c, last, isHex⟩ := Parts.text_last ⟨groups, none⟩ (by simp [Parts.texts, some_])
    apply t.text_ends ((Parts.mk before none).text ++ ':' :: ':' :: front) c isHex
    rw [← text, elidedText, last]
    simp
  | groupTooMany before groups octets rest six zone clear =>
    obtain ⟨text, -⟩ := zone_unique same (elidedText_chars _ _) t.text_chars zone zone'
    have form := elidedText_append before ⟨groups, some octets⟩ []
    obtain ⟨colon, dot⟩ := Parts.text_delimits ⟨groups, some octets⟩ [] (.inl (by simp)) (.inl (by simp))
    have read := (addressLoop_elision before (by omega) colon dot).trans
      (addressLoop_elided_quad before groups octets (by omega) stops_nil)
    rw [← form, List.append_nil, misreadsGroup_quad, clear, if_neg Bool.false_ne_true, text] at read
    have bound := t.index_le read
    simp only [AddressState.dotted, AddressState.groups, afterElision_index] at bound
    omega

/-- Everything accepted is well formed or one of the two malformed kinds. -/
theorem wellFormed_or_malformed (accepted : (parseIPv6Address str).isSome = true) :
    WellFormedAddress str ∨ MalformedAccepted str := by
  obtain ⟨bits, parsed⟩ := Option.isSome_iff_exists.mp accepted
  obtain ⟨rest, part, zone⟩ := parseIPv6Address_eq_some_iff.mp parsed
  cases acceptedForm_of_parseAddressPart part zone.delimited with
  | full parts eight => exact .inl ⟨.full parts eight, rest, zone, rfl⟩
  | hex before groups room => exact .inl ⟨.elided before ⟨groups, none⟩ room, rest, zone, rfl⟩
  | quad before groups octets room =>
    have clear : (Parts.mk groups (some octets)).loneDigitBeforeQuad = false := by
      rw [parseAddressPart_quad before groups octets room zone.delimited, misreadsGroup_quad] at part
      split at part
      · cases part
      · rename_i clear
        simpa using clear
    by_cases five : before.length + groups.length ≤ 5
    · refine .inl ⟨.elided before ⟨groups, some octets⟩ ?_, rest, zone, rfl⟩
      simp only [Parts.count, Parts.quadCount, Option.isSome_some, ↓reduceIte]
      omega
    · exact .inr (.groupTooMany before groups octets rest (by omega) zone clear)
  | colon before groups some_ room =>
    rw [parseAddressPart_colon before some_ room zone.delimited] at part
    split at part
    · cases part
    · rename_i clear
      obtain rfl | ⟨zoneId, nonempty, noNul, rfl⟩ := zone
      · simp at clear
      · simp only [reduceCtorEq, false_or, not_or, Bool.not_eq_true] at clear
        exact .inr (.colonBeforeZone before groups zoneId some_ room nonempty noNul clear.1 clear.2)

/-- Acceptance implies well-formedness outside the two malformed kinds, and
nowhere else. -/
theorem accepts_wellFormed_iff (str : StringView) :
    ((parseIPv6Address str).isSome = true → WellFormedAddress str) ↔ ¬ MalformedAccepted str := by
  constructor
  · intro sound malformed
    exact malformed.malformed (sound malformed.accepted)
  · intro notMalformed accepted
    exact (wellFormed_or_malformed accepted).resolve_right notMalformed

end Acceptance

/-- `1::2:%eth0` is accepted although its address ends in a single colon. -/
theorem colonBeforeZone_accepted :
    (parseIPv6Address "1::2:%eth0".toList).isSome = true ∧ ¬ WellFormedAddress "1::2:%eth0".toList := by
  refine ⟨by decide, ?_⟩
  have malformed : MalformedAccepted "1::2:%eth0".toList :=
    .colonBeforeZone [.single '1' (by decide)] [.single '2' (by decide)] ['e', 't', 'h', '0'] (by simp) (by simp)
      (by simp) (by simp) (by decide) (by decide)
  exact malformed.malformed

end Protovalidate.Lib
