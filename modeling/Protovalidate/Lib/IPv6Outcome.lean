import Protovalidate.Lib.IPv6Loop

/-! The answer of `parseAddressPart`: the bits of every textual form it reads,
and the forms of everything it accepts. -/

namespace Protovalidate.Lib.IPv6Parser

open Foundation AddressState

section Values

variable {octets : Octets} {bits : BitVec 128}

theorem shiftIn_octets (bits : BitVec 128) (octets : Octets) :
    shiftIn 16 bits octets.words = bits <<< 32 ||| quadBits octets := by
  have high := ofNat_shiftLeft_or 128 octets.first.val (show octets.second.val < 2 ^ 8 by omega)
  have low := ofNat_shiftLeft_or 128 octets.third.val (show octets.fourth.val < 2 ^ 8 by omega)
  simp only [Nat.reducePow] at high low
  simp only [Octets.words, shiftIn_cons, shiftIn_nil, quadBits, ← high, ← low, BitVec.shiftLeft_or_distrib,
    ← BitVec.shiftLeft_add, BitVec.or_assoc, Nat.reduceAdd]

theorem Parts.words_lt (parts : Parts) : ∀ word ∈ parts.words, word < 2 ^ 16 := by
  obtain ⟨groups, quad⟩ := parts
  intro word member
  simp only [Parts.words, List.mem_append, List.mem_map, List.mem_flatMap] at member
  obtain ⟨group, -, rfl⟩ | ⟨octets, -, inQuad⟩ := member
  · have bound : group.value < 16 ^ (0 + group.text.length) :=
      positional_lt (fun c _ => hexadecimalDigit_lt c) (by simp)
    calc group.value < 16 ^ (0 + group.text.length) := bound
      _ ≤ 16 ^ 4 := Nat.pow_le_pow_right (by omega) (by have := group.width; omega)
      _ = 2 ^ 16 := by norm_num
  · simp only [Octets.words, List.mem_cons, List.not_mem_nil, or_false] at inQuad
    rcases inQuad with rfl | rfl <;> omega

theorem IPv6Text.words_lt (t : IPv6Text) : ∀ word ∈ t.words, word < 2 ^ 16 := by
  intro word member
  cases t with
  | full parts eight => exact Parts.words_lt parts word member
  | elided before after room =>
    simp only [IPv6Text.words, List.mem_append, List.mem_replicate] at member
    rcases member with (inBefore | ⟨-, rfl⟩) | inAfter
    · exact Parts.words_lt ⟨before, none⟩ word (by simpa [Parts.words] using inBefore)
    · simp
    · exact Parts.words_lt after word inAfter

theorem IPv6Text.value_eq (t : IPv6Text) : t.value = shiftIn 16 0 t.words := by
  rw [IPv6Text.value]
  exact (shiftIn_eq_positional (IPv6Text.words_lt t) 0).symm

/-- The bits the parser assembles around an elision. -/
def elidedBits (before : List Hexadecatet) (words : List Nat) : BitVec 128 :=
  shiftIn 16 0 (before.map Hexadecatet.value) <<< ((8 - before.length) <<< 4) ||| shiftIn 16 0 words

theorem elidedBits_eq_value (before : List Hexadecatet) (after : Parts)
    (room : before.length + after.count ≤ 7) :
    elidedBits before after.words = (IPv6Text.elided before after room).value := by
  have shift : 16 * (8 - (before.length + after.count)) + 16 * after.count = (8 - before.length) <<< 4 := by
    rw [Nat.shiftLeft_eq]
    omega
  rw [IPv6Text.value_eq, IPv6Text.words, shiftIn_append, shiftIn_init (shiftIn 16 0 _) after.words,
    shiftIn_append, shiftIn_init (shiftIn 16 0 _) (List.replicate _ _), shiftIn_zeros]
  simp only [BitVec.ofNat_eq_ofNat, BitVec.or_zero]
  rw [← BitVec.shiftLeft_add, List.length_replicate, length_words, shift]
  rfl

end Values

section Answers

variable {before groups : List Hexadecatet} {octets : Octets} {parts : Parts} {rest tail : StringView}

theorem parseAddressPart_of_loop {str : StringView} {final : AddressState}
    (left : addressLoop (start str) = some final)
    (valid : final.doubleColonFound = true ∨ final.index = 8) :
    parseAddressPart str = some (final.bits ||| final.b, final.str) := by
  rw [start] at left
  simp only [parseAddressPart, left, hexadecatetsCount, Bool.or_eq_true, beq_iff_eq]
  rw [if_pos valid]

theorem parseAddressPart_none {str : StringView} (left : addressLoop (start str) = none) :
    parseAddressPart str = none := by
  rw [start] at left
  simp only [parseAddressPart, left]

/-- Where the loop leaves with or without a state, the address is read or not. -/
theorem parseAddressPart_of_read {str : StringView} {final : AddressState} {misread : Prop} [Decidable misread]
    (read : addressLoop (start str) = if misread then none else some final)
    (valid : final.doubleColonFound = true ∨ final.index = 8) :
    parseAddressPart str = if misread then none else some (final.bits ||| final.b, final.str) := by
  by_cases failed : misread
  · rw [if_pos failed] at read ⊢
    exact parseAddressPart_none read
  · rw [if_neg failed] at read ⊢
    exact parseAddressPart_of_loop read valid

theorem elidedText_append (before : List Hexadecatet) (after : Parts) (rest : StringView) :
    elidedText before after ++ rest =
      (Parts.mk before none).text ++ ':' :: ':' :: (after.text ++ rest) := by
  simp [elidedText]

theorem Parts.text_delimits (parts : Parts) (rest : StringView) (colon : rest.head? ≠ some ':' ∨ parts.texts ≠ [])
    (dot : rest.head? ≠ some '.' ∨ parts.texts ≠ []) :
    (parts.text ++ rest).head? ≠ some ':' ∧ (parts.text ++ rest).head? ≠ some '.' := by
  obtain ⟨groups, quad⟩ := parts
  have settled : ∀ {text : StringView}, (∃ c, text.head? = some c ∧ hexDigit c = true) →
      text.head? ≠ some ':' ∧ text.head? ≠ some '.' := by
    rintro text ⟨c, next, isHex⟩
    rw [next]
    constructor <;> simpa using hexDigit_ne isHex (by decide)
  cases groups with
  | cons group groups =>
    rw [Parts.text_cons, List.append_assoc, List.append_assoc]
    exact settled (group.head _)
  | nil =>
    cases quad with
    | some octets => rw [Parts.text_quad]; exact settled (octets.head _)
    | none => simp_all [Parts.texts]

/-- The state behind eight groups, or six and a dotted quad. -/
def fullState (parts : Parts) (rest : StringView) : AddressState :=
  match parts.quad with
  | none => (start []).groups parts.groups rest
  | some octets => ((start []).groups parts.groups rest).dotted octets rest

theorem addressLoop_full (eight : parts.count = 8) (delimited : Delimited rest) :
    addressLoop (start (parts.text ++ rest)) = some (fullState parts rest) := by
  obtain ⟨groups, quad⟩ := parts
  cases quad with
  | none =>
    have count : groups.length = 8 := by simpa [Parts.count, Parts.quadCount] using eight
    have read := addressLoop_start groups (by omega) delimited.hex delimited.dot _ rfl
    rw [if_neg (by omega)] at read
    refine read.trans (addressLoop_leave (round_full ?_))
    simp only [AddressState.groups, start]
    omega
  | some octets =>
    have count : groups.length = 6 := by
      simp only [Parts.count, Parts.quadCount, Option.isSome_some, ↓reduceIte] at eight
      omega
    have same : (Parts.mk groups (some octets)).text ++ rest =
        (Parts.mk groups none).text ++ ':' :: (octets.text ++ rest) := by
      cases groups with
      | nil => simp at count
      | cons group groups => simp [Parts.text_cons, colonQuad]
    have read := addressLoop_start groups (by omega) stops_colon (by simp) _ same
    rw [if_neg (by omega)] at read
    refine read.trans (addressLoop_octets octets (s := (start []).groups groups rest) ?_ ?_ ?_ delimited.digit)
    · simp only [AddressState.groups, start]
      omega
    · simp only [AddressState.groups, start]
      omega
    · simp [AddressState.groups, start, watching, count, hexadecatetsCount]

theorem fullState_index (eight : parts.count = 8) : (fullState parts rest).index = 8 := by
  obtain ⟨groups, quad⟩ := parts
  cases quad <;> simpa [fullState, AddressState.groups, start, dotted, Parts.count, Parts.quadCount] using eight

theorem fullState_bits : (fullState parts rest).bits ||| (fullState parts rest).b = shiftIn 16 0 parts.words := by
  obtain ⟨groups, quad⟩ := parts
  cases quad with
  | none => simp [fullState, AddressState.groups, start, Parts.words]
  | some octets =>
    simp only [fullState, AddressState.groups, start, dotted, Parts.words, Option.toList_some,
      List.flatMap_singleton, shiftIn_append, shiftIn_octets]
    simp [BitVec.or_comm]

theorem fullState_str : (fullState parts rest).str = rest := by
  obtain ⟨groups, quad⟩ := parts
  cases quad <;> rfl

/-- Eight groups, or six and a dotted quad. -/
theorem parseAddressPart_full (eight : parts.count = 8) (delimited : Delimited rest) :
    parseAddressPart (parts.text ++ rest) = some ((IPv6Text.full parts eight).value, rest) := by
  rw [parseAddressPart_of_loop (addressLoop_full eight delimited) (.inr (fullState_index eight)), fullState_bits,
    fullState_str, IPv6Text.value_eq]
  rfl

theorem afterElision_bits (before : List Hexadecatet) (rest : StringView) : (afterElision before rest).bits =
    shiftIn 16 0 (before.map Hexadecatet.value) <<< ((8 - before.length) <<< 4) := by
  simp [afterElision, elide, AddressState.groups, start, hexadecatetsCount]

theorem answer_hex (before groups : List Hexadecatet) (rest : StringView) :
    ((afterElision before rest).groups groups rest).bits ||| ((afterElision before rest).groups groups rest).b =
      elidedBits before (groups.map Hexadecatet.value) := by
  rw [elidedBits, ← afterElision_bits before rest]
  rfl

theorem answer_quad (before groups : List Hexadecatet) (octets : Octets) (rest : StringView) :
    (((afterElision before rest).groups groups rest).dotted octets rest).bits |||
        (((afterElision before rest).groups groups rest).dotted octets rest).b =
      elidedBits before (Parts.mk groups (some octets)).words := by
  rw [elidedBits, ← afterElision_bits before rest, Parts.words, shiftIn_append]
  simp only [Option.toList_some, List.flatMap_singleton, shiftIn_octets, dotted, AddressState.groups, afterElision,
    elide, BitVec.or_assoc, BitVec.or_comm (quadBits octets)]

/-- Groups only around the elision. -/
theorem parseAddressPart_hex (before groups : List Hexadecatet)
    (room : before.length + groups.length ≤ 7) (delimited : Delimited rest) :
    parseAddressPart (elidedText before ⟨groups, none⟩ ++ rest) =
      if misreadsGroup groups rest = true ∨ (before.length + groups.length < 7 ∧ checkDotted rest = true) then none
      else some (elidedBits before (groups.map Hexadecatet.value), rest) := by
  obtain ⟨colon, dot⟩ := Parts.text_delimits ⟨groups, none⟩ rest (.inl delimited.colon) (.inl delimited.dot)
  have read := (addressLoop_elision before (by omega) colon dot).trans (addressLoop_elided_hex before groups room delimited)
  rw [elidedText_append, parseAddressPart_of_read read (.inl rfl), answer_hex]
  rfl

/-- A dotted quad in last place, which may be one group too many. -/
theorem parseAddressPart_quad (before groups : List Hexadecatet) (octets : Octets)
    (room : before.length + groups.length ≤ 6) (delimited : Delimited rest) :
    parseAddressPart (elidedText before ⟨groups, some octets⟩ ++ rest) =
      if misreadsGroup groups (':' :: (octets.text ++ rest)) = true then none
      else some (elidedBits before (Parts.mk groups (some octets)).words, rest) := by
  obtain ⟨colon, dot⟩ := Parts.text_delimits ⟨groups, some octets⟩ rest
    (.inr (by simp [Parts.texts])) (.inr (by simp [Parts.texts]))
  have read := (addressLoop_elision before (by omega) colon dot).trans (addressLoop_elided_quad before groups octets room delimited)
  rw [elidedText_append, parseAddressPart_of_read read (.inl rfl), answer_quad]
  rfl

/-- A colon behind the last group. -/
theorem parseAddressPart_colon (before : List Hexadecatet) (some_ : groups ≠ []) (room : before.length + groups.length ≤ 6)
    (delimited : Delimited rest) :
    parseAddressPart (elidedText before ⟨groups, none⟩ ++ ':' :: rest) =
      if rest = [] ∨ misreadsGroup groups (':' :: rest) = true ∨ checkDotted rest = true then none
      else some (elidedBits before (groups.map Hexadecatet.value), rest) := by
  obtain ⟨colon, dot⟩ := Parts.text_delimits ⟨groups, none⟩ (':' :: rest)
    (.inr (by simp [Parts.texts, some_])) (.inr (by simp [Parts.texts, some_]))
  have read := (addressLoop_elision before (by omega) colon dot).trans (addressLoop_elided_colon before groups room delimited)
  rw [elidedText_append, parseAddressPart_of_read read (.inl rfl), answer_hex]
  rfl

end Answers

section Forms

/-- The forms `parseAddressPart` accepts in front of the remaining text. -/
inductive AcceptedForm (rest : StringView) : StringView → Prop where
  | full (parts : Parts) (eight : parts.count = 8) : AcceptedForm rest (parts.text ++ rest)
  | hex (before groups : List Hexadecatet) (room : before.length + groups.length ≤ 7) :
      AcceptedForm rest (elidedText before ⟨groups, none⟩ ++ rest)
  | quad (before groups : List Hexadecatet) (octets : Octets) (room : before.length + groups.length ≤ 6) :
      AcceptedForm rest (elidedText before ⟨groups, some octets⟩ ++ rest)
  | colon (before groups : List Hexadecatet) (some_ : groups ≠ [])
      (room : before.length + groups.length ≤ 6) :
      AcceptedForm rest (elidedText before ⟨groups, none⟩ ++ ':' :: rest)

/-- What the loop may read behind the elision, with a colon in front of each part. -/
def ReadTail (index : Nat) (str rest : StringView) : Prop :=
  ∃ groups : List Hexadecatet,
    (index + groups.length ≤ 8 ∧ str = colonGroups groups ++ rest) ∨
      (index + groups.length ≤ 7 ∧ str = colonGroups groups ++ ':' :: rest) ∨
      ∃ octets : Octets, index + groups.length ≤ 7 ∧ str = colonGroups groups ++ ':' :: (octets.text ++ rest)

/-- What the loop may read before it has seen an elision. -/
def ReadHead (index : Nat) (str rest : StringView) : Prop :=
  ∃ groups : List Hexadecatet,
    (index + groups.length = 8 ∧ str = colonGroups groups ++ rest) ∨
      (∃ octets : Octets, index + groups.length = 6 ∧
        str = colonGroups groups ++ ':' :: (octets.text ++ rest)) ∨
      ∃ after, index + groups.length ≤ 7 ∧ str = colonGroups groups ++ ':' :: ':' :: after ∧
        (after = rest ∨ ReadTail (index + groups.length + 1) (':' :: after) rest)

variable {s final : AddressState} {index : Nat} {str rest : StringView}

theorem ReadTail.group (group : Hexadecatet) (tail : ReadTail (index + 1) str rest) :
    ReadTail index (':' :: (group.text ++ str)) rest := by
  obtain ⟨groups, ⟨room, rfl⟩ | ⟨room, rfl⟩ | ⟨octets, room, rfl⟩⟩ := tail
  · exact ⟨group :: groups, .inl ⟨by simp only [List.length_cons]; omega, by simp⟩⟩
  · exact ⟨group :: groups, .inr (.inl ⟨by simp only [List.length_cons]; omega, by simp⟩)⟩
  · exact ⟨group :: groups, .inr (.inr ⟨octets, by simp only [List.length_cons]; omega, by simp⟩)⟩

theorem ReadHead.group (group : Hexadecatet) (head : ReadHead (index + 1) str rest) :
    ReadHead index (':' :: (group.text ++ str)) rest := by
  obtain ⟨groups, ⟨room, rfl⟩ | ⟨octets, room, rfl⟩ | ⟨after, room, rfl, tail⟩⟩ := head
  · exact ⟨group :: groups, .inl ⟨by simp only [List.length_cons]; omega, by simp⟩⟩
  · exact ⟨group :: groups, .inr (.inl ⟨octets, by simp only [List.length_cons]; omega, by simp⟩)⟩
  · refine ⟨group :: groups, .inr (.inr ⟨after, by simp only [List.length_cons]; omega, by simp, ?_⟩)⟩
    rwa [show index + (group :: groups).length = index + 1 + groups.length by
      simp only [List.length_cons]; omega]

theorem stops_group (group : Hexadecatet) (stops : Stops hexDigit (group.text ++ rest)) : False := by
  obtain ⟨c, next, isHex⟩ := group.head rest
  simpa [isHex] using stops c next

theorem stops_octets (octets : Octets) (stops : Stops hexDigit (octets.text ++ rest)) : False := by
  obtain ⟨c, next, isHex⟩ := octets.head rest
  simpa [isHex] using stops c next

/-- Behind the elision: right behind a group, and at the start of a part. -/
theorem readTail_of_addressLoop (s final : AddressState) (left : addressLoop s = some final)
    (found : s.doubleColonFound = true) (bound : s.index ≤ 8) :
    (Stops hexDigit s.str → ReadTail s.index s.str final.str) ∧
      (s.str.head? ≠ some ':' → s.str = final.str ∨ ReadTail s.index (':' :: s.str) final.str) := by
  induction s using Control.loop_induction addressRound_decreases with
  | round s ih =>
    cases round : addressRound s with
    | leave result =>
      rw [addressLoop_leave round] at left
      subst left
      obtain ⟨-, rfl⟩ | ⟨within, rfl, -⟩ | ⟨within, -, octets, rest, same, -, rfl⟩ := round_leave_cases round
      · exact ⟨fun _ => ⟨[], .inl ⟨bound, rfl⟩⟩, fun _ => .inl rfl⟩
      · exact ⟨fun _ => ⟨[], .inl ⟨bound, rfl⟩⟩, fun _ => .inl rfl⟩
      · rw [same]
        refine ⟨fun stops => (stops_octets octets stops).elim, fun _ => .inr ?_⟩
        exact ⟨[], .inr (.inr ⟨octets, by simpa using Nat.le_of_lt_succ within, rfl⟩)⟩
    | again next =>
      rw [addressLoop_again round] at left
      obtain ⟨within, ⟨group, rest, same, stops, rfl⟩ | ⟨rest, -, -, first, -⟩ |
        ⟨rest, same, -, single, -, rfl⟩⟩ := round_again_cases round
      · have behind := (ih _ round left found within).1 stops
        rw [same]
        exact ⟨fun stops => (stops_group group stops).elim, fun _ => .inr (behind.group group)⟩
      · simp [found] at first
      · have part := (ih _ round left found bound).2 single
        rw [same]
        refine ⟨fun _ => ?_, fun single => by simp at single⟩
        rcases part with ended | part
        · refine ⟨[], .inr (.inl ⟨Nat.le_of_lt_succ within, ?_⟩)⟩
          rw [← ended]
          rfl
        · exact part

/-- Before the elision: right behind a group, and at the start of a part. -/
theorem readHead_of_addressLoop (s final : AddressState) (left : addressLoop s = some final)
    (valid : final.doubleColonFound = true ∨ final.index = 8) (first : s.doubleColonFound = false) :
    (s.index ≤ 8 → Stops hexDigit s.str → ReadHead s.index s.str final.str) ∧
      (s.index < 8 → s.str.head? ≠ some ':' → ReadHead s.index (':' :: s.str) final.str) := by
  induction s using Control.loop_induction addressRound_decreases with
  | round s ih =>
    cases round : addressRound s with
    | leave result =>
      rw [addressLoop_leave round] at left
      subst left
      obtain ⟨beyond, rfl⟩ | ⟨within, rfl, -⟩ | ⟨within, watched, octets, rest, same, -, rfl⟩ :=
        round_leave_cases round
      · exact ⟨fun bound _ => ⟨[], .inl ⟨Nat.le_antisymm bound beyond, rfl⟩⟩, fun inside => by omega⟩
      · rw [first] at valid
        simp at valid
        omega
      · have sixth : s.index = 6 := by simpa [watching, first, hexadecatetsCount] using watched
        rw [same]
        refine ⟨fun _ stops => (stops_octets octets stops).elim, fun _ _ => ?_⟩
        exact ⟨[], .inr (.inl ⟨octets, sixth, rfl⟩)⟩
    | again next =>
      rw [addressLoop_again round] at left
      obtain ⟨within, ⟨group, rest, same, stops, rfl⟩ | ⟨rest, same, single, -, rfl⟩ |
        ⟨rest, same, -, single, -, rfl⟩⟩ := round_again_cases round
      · have behind := (ih _ round left first).1 within stops
        rw [same]
        exact ⟨fun _ stops => (stops_group group stops).elim, fun _ _ => behind.group group⟩
      · have tail := (readTail_of_addressLoop _ final left rfl within).2 single
        rw [same]
        exact ⟨fun _ _ => ⟨[], .inr (.inr ⟨rest, Nat.le_of_lt_succ within, rfl, tail⟩)⟩,
          fun _ single => by simp at single⟩
      · have part := (ih _ round left first).2 within single
        rw [same]
        exact ⟨fun _ _ => part, fun _ single => by simp at single⟩

theorem Parts.text_none (groups : List Hexadecatet) (some_ : groups ≠ []) :
    ':' :: (Parts.mk groups none).text = colonGroups groups := by
  simpa [colonQuad] using Parts.colon_text ⟨groups, none⟩ (by simp [Parts.texts, some_])

theorem acceptedForm_of_readTail (before : List Hexadecatet) (room : before.length ≤ 7)
    (delimited : Delimited rest) (tail : str = rest ∨ ReadTail (before.length + 1) (':' :: str) rest) :
    AcceptedForm rest ((Parts.mk before none).text ++ ':' :: ':' :: str) := by
  have form (after : Parts) (rest : StringView) := elidedText_append before after rest
  rcases tail with rfl | ⟨groups, ⟨bound, same⟩ | ⟨bound, same⟩ | ⟨octets, bound, same⟩⟩
  · exact (form ⟨[], none⟩ str) ▸ AcceptedForm.hex before [] room
  · cases groups with
    | nil => exact (delimited.colon (by rw [← List.nil_append rest, ← colonGroups_nil, ← same]; rfl)).elim
    | cons group groups =>
      have text : str = (Parts.mk (group :: groups) none).text ++ rest := by
        have := Parts.text_none (group :: groups) (by simp)
        rw [← this] at same
        exact (List.cons.inj same).2
      rw [text, ← form]
      exact .hex before _ (by omega)
  · cases groups with
    | nil =>
      obtain rfl : str = rest := (List.cons.inj same).2
      exact (form ⟨[], none⟩ str) ▸ AcceptedForm.hex before [] room
    | cons group groups =>
      have text : str = (Parts.mk (group :: groups) none).text ++ ':' :: rest := by
        have := Parts.text_none (group :: groups) (by simp)
        rw [← this] at same
        exact (List.cons.inj same).2
      rw [text, ← form]
      exact .colon before _ (by simp) (by omega)
  · have text : str = (Parts.mk groups (some octets)).text ++ rest := by
      have joined := Parts.colon_text ⟨groups, some octets⟩ (by simp [Parts.texts])
      have whole : ':' :: str = ':' :: ((Parts.mk groups (some octets)).text ++ rest) := by
        rw [same]
        simpa [colonQuad] using congrArg (· ++ rest) joined.symm
      exact (List.cons.inj whole).2
    rw [text, ← form]
    exact .quad before groups octets (by omega)

/-- Whatever is accepted in front of a delimiter has one of the accepted forms. -/
theorem acceptedForm_of_parseAddressPart {bits : BitVec 128} (parsed : parseAddressPart str = some (bits, rest))
    (delimited : Delimited rest) : AcceptedForm rest str := by
  obtain ⟨final, left, valid, rfl⟩ : ∃ final, addressLoop (start str) = some final ∧
      (final.doubleColonFound = true ∨ final.index = 8) ∧ final.str = rest := by
    simp only [parseAddressPart, hexadecatetsCount, Bool.or_eq_true, beq_iff_eq] at parsed
    split at parsed
    · cases parsed
    · rename_i final left
      split at parsed <;> cases parsed
      rename_i valid
      exact ⟨final, left, valid, rfl⟩
  cases round : addressRound (start str) with
  | leave result =>
    rw [addressLoop_leave round] at left
    subst left
    obtain ⟨beyond, -⟩ | ⟨-, rfl, -⟩ | ⟨-, watched, -⟩ := round_leave_cases round
    · simp [start] at beyond
    · simp [start] at valid
    · simp [watching, start, hexadecatetsCount] at watched
  | again next =>
    rw [addressLoop_again round] at left
    obtain ⟨-, ⟨group, rest, same, stops, rfl⟩ | ⟨rest, same, single, -, rfl⟩ | ⟨rest, -, -, -, started, -⟩⟩ :=
      round_again_cases round
    · obtain ⟨groups, head⟩ :=
        (readHead_of_addressLoop _ final left valid rfl).1 (by simp [AddressState.group, start]) stops
      change str = _ at same
      have joined (tail : StringView) : (Parts.mk (group :: groups) none).text ++ tail =
          group.text ++ (colonGroups groups ++ tail) := by simp [Parts.text_cons, colonQuad]
      simp only [AddressState.group, start, Nat.zero_add] at head
      rcases head with ⟨room, rfl⟩ | ⟨octets, room, rfl⟩ | ⟨after, room, rfl, tail⟩
      · rw [same, ← joined]
        exact .full _ (by simp [Parts.count, Parts.quadCount]; omega)
      · have text : str = (Parts.mk (group :: groups) (some octets)).text ++ final.str := by
          rw [same, Parts.text_cons]
          simp [colonQuad]
        rw [text]
        exact .full _ (by simp [Parts.count, Parts.quadCount]; omega)
      · rw [same, ← joined]
        apply acceptedForm_of_readTail (group :: groups) (by simp only [List.length_cons]; omega) delimited
        rwa [List.length_cons, Nat.add_comm groups.length]
    · change str = _ at same
      rw [same]
      exact acceptedForm_of_readTail [] (by simp) delimited
        ((readTail_of_addressLoop _ final left rfl (by simp [elide, start])).2 single)
    · simp [start] at started

end Forms
end Protovalidate.Lib.IPv6Parser
