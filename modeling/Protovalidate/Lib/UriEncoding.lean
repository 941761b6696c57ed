import Protovalidate.Foundation.Utf8
import Protovalidate.Lib.UriZone

/-! The percent-encoded bytes of registered names and zones: which of them are
well-formed UTF-8. -/

namespace Protovalidate.Lib

open Foundation Consumer
open scoped Computability

namespace UriParser

/-- A byte and the next that no scalar value has: a surrogate, or a code point
beyond the last. -/
def BeyondScalars (b0 b1 : Nat) : Prop := (b0 = 0xed ∧ 0xa0 ≤ b1) ∨ (b0 = 0xf4 ∧ 0x90 ≤ b1)

section Sequences

variable {b b0 b1 : Nat} {more rest sequence : List Nat} {sequences : List (List Nat)}

theorem isContinuation_bounds (byte : b < 256) (continues : isContinuation b = true) : Continues b := by
  have all : ∀ b < 256, isContinuation b = true → 0x80 ≤ b ∧ b ≤ 0xbf := by decide +kernel
  exact all b byte continues

theorem not_beyond_of_lt (small : b0 < 0xed) : ¬ BeyondScalars b0 b1 := by
  rintro (⟨rfl, -⟩ | ⟨rfl, -⟩) <;> omega

theorem isChain_of_lt (small : ∀ b ∈ more, b < 0xed) : more.IsChain fun b0 b1 => ¬ BeyondScalars b0 b1 := by
  induction more with
  | nil => exact .nil
  | cons b more ih =>
    refine List.isChain_cons.mpr ⟨fun next _ => not_beyond_of_lt (small b (by simp)), ?_⟩
    exact ih fun later member => small later (by simp [member])

/-- The bytes behind the first, which are all continuation bytes. -/
theorem validSequence_cons (valid : validSequence (b0 :: b1 :: more) = true) (byte : ∀ b ∈ b1 :: more, b < 256) :
    prefixSize b0 = some (more.length + 2) ∧ (∀ b ∈ b1 :: more, Continues b) ∧ invalidSequence b0 b1 = false := by
  simp only [validSequence, Bool.and_eq_true, Bool.not_eq_true', beq_iff_eq] at valid
  obtain ⟨⟨⟨-, announced⟩, continues⟩, sequence⟩ := valid
  refine ⟨announced, fun b member => ?_, sequence⟩
  exact isContinuation_bounds (byte b member) (List.all_eq_true.mp continues b member)

/-- Only the first two bytes of a sequence can be beyond the scalar values. -/
theorem isChain_sequence_iff (valid : validSequence (b0 :: b1 :: more) = true) (byte : ∀ b ∈ b1 :: more, b < 256) :
    (b0 :: b1 :: more).IsChain (fun b0 b1 => ¬ BeyondScalars b0 b1) ↔ ¬ BeyondScalars b0 b1 := by
  obtain ⟨-, continues, -⟩ := validSequence_cons valid byte
  have behind : (b1 :: more).IsChain fun b0 b1 => ¬ BeyondScalars b0 b1 :=
    isChain_of_lt fun b member => Nat.lt_of_le_of_lt (continues b member).2 (by omega)
  rw [List.isChain_cons_cons]
  exact and_iff_left behind

theorem exists_scalar_of_sequence (valid : validSequence (b0 :: b1 :: more) = true) (byte : ∀ b ∈ b1 :: more, b < 256)
    (scalars : ¬ BeyondScalars b0 b1) : ∃ scalar, scalarBytes scalar = b0 :: b1 :: more := by
  obtain ⟨announced, continues, sequence⟩ := validSequence_cons valid byte
  have first := continues b1 (by simp)
  simp only [BeyondScalars, not_or, not_and, Nat.not_le] at scalars
  simp only [invalidSequence, Bool.or_eq_false_iff, Bool.and_eq_false_iff, beq_eq_false_iff_ne, decide_eq_false_iff_not,
    Nat.not_lt] at sequence
  simp only [prefixSize] at announced
  split at announced
  · rename_i lead
    obtain rfl : more = [] := by simpa using announced
    exact scalarBytes_two lead first
  · split at announced
    · rename_i lead
      obtain ⟨b2, rfl⟩ : ∃ b2, more = [b2] := List.length_eq_one_iff.mp (by simpa using announced.symm)
      exact scalarBytes_three lead first (continues b2 (by simp)) (fun same => by omega) scalars.1
    · split at announced
      · rename_i lead
        obtain ⟨b2, b3, rfl⟩ : ∃ b2 b3, more = [b2, b3] := List.length_eq_two.mp (by simpa using announced.symm)
        exact scalarBytes_four lead first (continues b2 (by simp)) (continues b3 (by simp)) (fun same => by omega) scalars.2
      · cases announced

/-- Behind two bytes beyond the scalar values nothing is well formed. -/
theorem not_wellFormed_of_beyond (beyond : BeyondScalars b0 b1) : ¬ WellFormedUtf8 (b0 :: b1 :: rest) := by
  intro valid
  obtain ⟨scalar, more, bytes, left, same, -⟩ := wellFormed_cons valid
  have announced := scalarBytes_length bytes
  cases more with
  | nil =>
    rcases beyond with ⟨rfl, -⟩ | ⟨rfl, -⟩ <;> simp [announcedLength] at announced
  | cons second more =>
    obtain ⟨rfl, -⟩ := List.cons.inj same
    rcases beyond with ⟨rfl, above⟩ | ⟨rfl, above⟩
    · exact Nat.not_lt.mpr above (second_lt_of_ed bytes)
    · exact Nat.not_lt.mpr above (second_lt_of_f4 bytes)

/-- A valid sequence is followed by anything. -/
theorem isChain_append_iff (valid : validSequence sequence = true) (byte : ∀ b ∈ sequence, b < 256) :
    (sequence ++ rest).IsChain (fun b0 b1 => ¬ BeyondScalars b0 b1) ↔
      sequence.IsChain (fun b0 b1 => ¬ BeyondScalars b0 b1) ∧ rest.IsChain fun b0 b1 => ¬ BeyondScalars b0 b1 := by
  have last : ∀ b ∈ sequence.getLast?, ∀ next ∈ rest.head?, ¬ BeyondScalars b next := by
    intro b isLast next _
    apply not_beyond_of_lt
    cases sequence with
    | nil => cases valid
    | cons b0 behind =>
      cases behind with
      | nil =>
        obtain rfl : b0 = b := by simpa using isLast
        have ascii : b0 ≤ 0x7f := by simpa [validSequence] using valid
        omega
      | cons b1 more =>
        obtain ⟨-, continues, -⟩ := validSequence_cons valid fun b member => byte b (List.mem_cons_of_mem _ member)
        have member : b ∈ b1 :: more := by
          rw [List.getLast?_cons_cons] at isLast
          exact List.mem_of_getLast? isLast
        exact Nat.lt_of_le_of_lt (continues b member).2 (by omega)
  rw [List.isChain_append]
  constructor
  · rintro ⟨front, back, -⟩
    exact ⟨front, back⟩
  · rintro ⟨front, back⟩
    exact ⟨front, back, last⟩

/-- Texts of valid sequences are well-formed UTF-8 if and only if no two adjacent
bytes are beyond the scalar values. -/
theorem wellFormed_sequences_iff (valid : ∀ sequence ∈ sequences, validSequence sequence = true ∧ ∀ b ∈ sequence, b < 256) :
    WellFormedUtf8 sequences.flatten ↔ sequences.flatten.IsChain fun b0 b1 => ¬ BeyondScalars b0 b1 := by
  induction sequences with
  | nil => exact iff_of_true wellFormed_nil .nil
  | cons sequence sequences ih =>
    obtain ⟨sequenceValid, byte⟩ := valid sequence (by simp)
    have ih := ih fun later member => valid later (by simp [member])
    rw [List.flatten_cons, isChain_append_iff sequenceValid byte, ← ih]
    cases sequence with
    | nil => cases sequenceValid
    | cons b0 behind =>
      cases behind with
      | nil =>
        have ascii : b0 ≤ 0x7f := by simpa [validSequence] using sequenceValid
        obtain ⟨scalar, bytes⟩ := scalarBytes_one ascii
        rw [← bytes, wellFormed_append_iff, bytes]
        simp
      | cons b1 more =>
        have inside : ∀ b ∈ b1 :: more, b < 256 := fun b member => byte b (List.mem_cons_of_mem _ member)
        rw [isChain_sequence_iff sequenceValid inside]
        by_cases beyond : BeyondScalars b0 b1
        · exact iff_of_false (not_wellFormed_of_beyond beyond) fun both => both.1 beyond
        · obtain ⟨scalar, bytes⟩ := exists_scalar_of_sequence sequenceValid inside beyond
          rw [← bytes, wellFormed_append_iff]
          simp [beyond]

end Sequences

/-- The bytes that a percent-encoded text stands for. -/
def percentDecode : StringView → List Nat
  | '%' :: high :: low :: rest =>
    if hexDigit high && hexDigit low then hexadecimalValue [high, low] :: percentDecode rest
    else '%'.toNat :: percentDecode (high :: low :: rest)
  | c :: rest => c.toNat :: percentDecode rest
  | [] => []

section Names

variable {input text rest : StringView} {range : Char → Bool}

@[simp] theorem percentDecode_nil : percentDecode [] = [] := rfl

theorem percentDecode_plain {c : Char} (other : c ≠ '%') (rest : StringView) :
    percentDecode (c :: rest) = c.toNat :: percentDecode rest := by
  rw [percentDecode]
  rintro high low tail rfl
  exact (other rfl).elim

theorem percentDecode_triplets (triplets : List Triplet) (rest : StringView) :
    percentDecode (tripletsText triplets ++ rest) = triplets.map Triplet.value ++ percentDecode rest := by
  induction triplets with
  | nil => rfl
  | cons triplet triplets ih =>
    simp only [tripletsText_cons, Triplet.text, List.cons_append, List.nil_append, percentDecode, triplet.highDigit,
      triplet.lowDigit, Bool.and_self, ↓reduceIte, ih, List.map_cons, Triplet.value]

theorem Triplet.value_lt (triplet : Triplet) : triplet.value < 256 := by
  have bound : hexadecimalValue [triplet.high, triplet.low] < 16 ^ (0 + 2) :=
    positional_lt (fun c _ => hexadecimalDigit_lt c) (by simp)
  exact bound

theorem plainRange_ascii {c : Char} (plain : plainRange c = true) : c.toNat ≤ 0x7f := by
  simp only [plainRange, concatRanges, unreserved, subDelims, alpha, num, charRange, char, List.any_cons, List.any_nil,
    Bool.or_false, Bool.or_eq_true, Bool.and_eq_true, decide_eq_true_eq, beq_iff_eq, ← Char.toNat_inj, Char.le_def,
    UInt32.le_iff_toNat_le, Char.toNat_val, Char.reduceToNat] at plain
  omega

/-- The bytes of the text are valid sequences. -/
def SequenceText (text : StringView) : Prop :=
  ∃ sequences : List (List Nat), percentDecode text = sequences.flatten ∧
    ∀ sequence ∈ sequences, validSequence sequence = true ∧ ∀ b ∈ sequence, b < 256

theorem SequenceText.wellFormed_iff (sequences : SequenceText text) : WellFormedUtf8 (percentDecode text) ↔
    (percentDecode text).IsChain fun b0 b1 => ¬ BeyondScalars b0 b1 := by
  obtain ⟨sequences, bytes, valid⟩ := sequences
  rw [bytes]
  exact wellFormed_sequences_iff valid

theorem SequenceText.cons (sequences : SequenceText text) {sequence : List Nat} (valid : validSequence sequence = true)
    (byte : ∀ b ∈ sequence, b < 256) {word : StringView} (bytes : percentDecode word = sequence ++ percentDecode text) :
    SequenceText word := by
  obtain ⟨sequences, flat, others⟩ := sequences
  exact ⟨sequence :: sequences, by rw [bytes, flat, List.flatten_cons], List.forall_mem_cons.mpr ⟨⟨valid, byte⟩, others⟩⟩

/-- What the tokens of a name consume. -/
theorem skip_sequences (within : ∀ c, range c = true → plainRange c = true) (input : StringView) :
    ∃ text, text ++ skip (nameToken range) input = input ∧ SequenceText text ∧
      ∀ c ∈ text, tokenStart plainRange c = true := by
  have shrinks := nameToken_shrinks range
  have restores := nameToken_restores range
  induction input using skip_induction shrinks with
  | missed input missed =>
    exact ⟨[], by rw [skip_leave shrinks restores missed, List.nil_append], ⟨[], rfl, by simp⟩, by simp⟩
  | token input rest found ih =>
    obtain ⟨text, same, sequences, chars⟩ := ih
    rw [skip_again shrinks found]
    simp only [nameToken, either] at found
    cases plain : consume range input with
    | mk matched left =>
      rw [plain] at found
      cases matched with
      | true =>
        obtain rfl := (Prod.mk.inj found).2
        obtain ⟨_, ⟨c, accepted, rfl⟩, rfl, -⟩ := (recognizes_consume range input left).mp plain
        have inRange := within c accepted
        have other : c ≠ '%' := by
          rintro rfl
          exact absurd inRange (by decide)
        refine ⟨c :: text, by rw [List.cons_append, same]; rfl, @SequenceText.cons text sequences [c.toNat] ?_ ?_ _
          (percentDecode_plain other text), ?_⟩
        · simpa [validSequence] using plainRange_ascii inRange
        · have ascii := plainRange_ascii inRange
          simp only [List.mem_singleton, forall_eq]
          omega
        · exact List.forall_mem_cons.mpr ⟨by simp [tokenStart, inRange], chars⟩
      | false =>
        obtain rfl := one_restores range input left plain
        obtain ⟨triplets, valid, rfl, -⟩ := consumePercentEncodedUTF8CodePoint_eq_true_iff.mp found
        refine ⟨tripletsText triplets ++ text, by rw [List.append_assoc, same], sequences.cons valid ?_
          (percentDecode_triplets triplets text), ?_⟩
        · intro b member
          obtain ⟨triplet, -, rfl⟩ := List.mem_map.mp member
          exact triplet.value_lt
        · exact fun c member => (List.mem_append.mp member).elim (tripletsText_chars triplets c) (chars c)

theorem consumeRegName_sequences (found : consumeRegName input = (true, rest)) :
    ∃ text, text ++ rest = input ∧ SequenceText text ∧ (∀ c ∈ text, tokenStart plainRange c = true) ∧
      hostEnd rest = true := by
  obtain ⟨text, same, sequences, chars⟩ := @skip_sequences plainRange (fun _ plain => plain) input
  have name : consumeRegName input = restoring (both (many (nameToken plainRange)) (test hostEnd)) input := rfl
  rw [name, restoring_eq_true_iff, both_eq_true_iff] at found
  obtain ⟨middle, skipped, ended⟩ := found
  obtain ⟨-, rfl⟩ := Prod.mk.inj skipped
  obtain ⟨ends, rfl⟩ := Prod.mk.inj ended
  exact ⟨text, same, sequences, chars, ends⟩

theorem consumeZoneId_sequences (found : consumeZoneId input = (true, rest)) :
    ∃ text, text ++ rest = input ∧ SequenceText text ∧ ∀ c ∈ text, tokenStart plainRange c = true := by
  have within (c : Char) (accepted : unreserved c = true) : plainRange c = true := by
    simp [plainRange, concatRanges, accepted]
  obtain ⟨text, same, sequences, chars⟩ := skip_sequences within input
  obtain ⟨-, rfl⟩ := Prod.mk.inj found
  exact ⟨text, same, sequences, chars⟩

end Names

section Literals

variable {str input rest : StringView}

/-- The characters of an authority but one. -/
def authorityBut (d c : Char) : Bool := authorityChar c && c != d

theorem authorityBut_of_range {range : Char → Bool} {d : Char} (slash : range '/' = false) (question : range '?' = false)
    (hash : range '#' = false) (other : range d = false) (c : Char) (accepted : range c = true) :
    authorityBut d c = true := by
  refine Bool.and_eq_true_iff.mpr ⟨authorityChar_of slash question hash c accepted, ?_⟩
  rw [bne_iff_ne]
  rintro rfl
  rw [other] at accepted
  cases accepted

theorem consumes_ipvFuture_literal : Consumes (authorityBut '%') consumeIPVFuture :=
  consumes_ipvFuture (authorityBut_of_range (by decide) (by decide) (by decide) (by decide))
    (authorityBut_of_range (by decide) (by decide) (by decide) (by decide))
    (authorityBut_of_range (by decide) (by decide) (by decide) (by decide))
    (authorityBut_of_range (by decide) (by decide) (by decide) (by decide))

theorem consumeIPv6Address_zone (found : consumeIPv6Address str = (true, rest)) :
    ∃ word, (∀ c ∈ word, addressChar c = true) ∧ (str = word ++ rest ∨
      ∃ zone, str = word ++ '%' :: '2' :: '5' :: (zone ++ rest) ∧ SequenceText zone ∧
        ∀ c ∈ zone, tokenStart plainRange c = true) := by
  obtain ⟨word, behind, rfl, chars, rfl | reads⟩ := consumeIPv6Address_reads found
  · exact ⟨word, chars, .inl rfl⟩
  · refine ⟨word, chars, ?_⟩
    rcases whenever_cases (word_restores _) reads with ⟨middle, percent, zoned⟩ | ⟨-, rfl⟩
    · have same : behind = '%' :: '2' :: '5' :: middle := IPv6Parser.consumeSequence_eq_true_iff.mp percent
      obtain ⟨zone, rfl, sequences, inZone⟩ := consumeZoneId_sequences zoned
      exact .inr ⟨zone, by rw [same], sequences, inZone⟩
    · exact .inl rfl

/-- A literal has no percent sign, or its first is the one in front of the zone. -/
theorem consumeIPLiteral_zone (found : consumeIPLiteral ('[' :: str) = (true, rest)) :
    ∃ word, (∀ c ∈ word, authorityBut '%' c = true) ∧ (str = word ++ ']' :: rest ∨
      ∃ zone, str = word ++ '%' :: '2' :: '5' :: (zone ++ ']' :: rest) ∧ SequenceText zone ∧
        ∀ c ∈ zone, tokenStart plainRange c = true) := by
  rw [consumeIPLiteral, restoring_eq_true_iff, both_eq_true_iff] at found
  obtain ⟨middle, bracket, found⟩ := found
  obtain rfl : str = middle := (List.cons.inj (consume_char_eq_true_iff.mp bracket)).2
  rcases either_cases (restoring_restores _) found with address | future
  · rw [restoring_eq_true_iff, both_eq_true_iff] at address
    obtain ⟨middle, address, close⟩ := address
    obtain rfl := consume_char_eq_true_iff.mp close
    obtain ⟨word, chars, form⟩ := consumeIPv6Address_zone address
    refine ⟨word, fun c member => ?_, form⟩
    exact authorityBut_of_range (by decide) (by decide) (by decide) (by decide) c (chars c member)
  · obtain ⟨middle, future, close⟩ := both_eq_true_iff.mp future
    obtain rfl := consume_char_eq_true_iff.mp close
    obtain ⟨word, rfl, chars⟩ := consumes_ipvFuture_literal str _ future
    exact ⟨word, chars, .inl rfl⟩

end Literals

section Authorities

variable {str input rest behind : StringView}

/-- The host is read behind the userinfo, and a port behind the host. -/
theorem consumeAuthority_parts (found : consumeAuthority input = (true, rest)) :
    ∃ host behind, afterUserinfo (authorityOf input) = authorityOf host ∧ consumeHost host = (true, behind) ∧
      consumePortEnd behind = (true, rest) := by
  rw [consumeAuthority, restoring_eq_true_iff, both_eq_true_iff] at found
  obtain ⟨host, userinfo, found⟩ := found
  change consumeHostPort host = (true, rest) at found
  have parts := both_eq_true_iff.mp found
  obtain ⟨behind, hostFound, portFound⟩ := parts
  refine ⟨host, behind, ?_, hostFound, portFound⟩
  rcases whenever_cases (restoring_restores _) userinfo with ⟨middle, present, at_⟩ | ⟨-, rfl⟩
  · obtain ⟨word, tail, rfl, -, component, chars⟩ := consumeUserInfo_split present
    obtain rfl := (List.cons.inj (consume_char_eq_true_iff.mp at_)).2
    rw [component, afterUserinfo_at chars]
  · obtain ⟨word, rfl, chars⟩ := consumes_hostPort host rest found
    obtain ⟨-, -, -, ends⟩ := (recognizes_portEnd behind rest).mp portFound
    rw [afterUserinfo, if_neg (at_not_passed chars ends)]

/-- What is left of the authority behind the host is a port. -/
theorem authorityOf_portEnd (found : consumePortEnd behind = (true, rest)) :
    '%' ∉ authorityOf behind ∧ (authorityOf behind = [] ∨ ∃ digits, authorityOf behind = ':' :: digits) := by
  obtain ⟨port, member, rfl, ends⟩ := (recognizes_portEnd behind rest).mp found
  have digits : Within num Rfc3986.port := (symbols_num ▸ within_symbols : Within num Rfc3986.DIGIT).kstar
  rcases member with present | absent
  · obtain ⟨_, rfl, word, inPort, rfl⟩ := Language.mem_mul.mp present
    have chars := digits word inPort
    have component : authorityOf ((':' :: word) ++ rest) = ':' :: word := by
      refine authorityOf_word (List.forall_mem_cons.mpr ⟨by decide, fun c inWord => ?_⟩) ends
      exact authorityChar_of (by decide) (by decide) (by decide) c (chars c inWord)
    rw [List.singleton_append, component]
    refine ⟨fun isPercent => ?_, .inr ⟨word, rfl⟩⟩
    rcases List.mem_cons.mp isPercent with impossible | inWord
    · simp at impossible
    · exact absurd (chars '%' inWord) (by decide)
  · obtain rfl : port = [] := absent
    rw [List.nil_append, authorityOf_end ends]
    exact ⟨by simp, .inl rfl⟩

/-- The texts in an authority that may hold percent-encoded UTF-8: a registered
name, and the zone of an IPv6 literal. -/
inductive EncodedPart (authority : StringView) : StringView → Prop where
  | regName {host port : StringView} (split : afterUserinfo authority = host ++ port) (name : host.head? ≠ some '[')
      (noColon : ':' ∉ host) (ends : port = [] ∨ ∃ digits, port = ':' :: digits) : EncodedPart authority host
  | zone {address zone port : StringView}
      (split : afterUserinfo authority = '[' :: (address ++ '%' :: '2' :: '5' :: (zone ++ ']' :: port)))
      (noPercent : '%' ∉ address) (closed : ']' ∉ zone) : EncodedPart authority zone

theorem authorityChar_of_token {c : Char} (token : tokenStart plainRange c = true) : authorityChar c = true :=
  authorityChar_of (by decide) (by decide) (by decide) c token

theorem authorityOf_literal {word : StringView} (chars : ∀ c ∈ word, authorityChar c = true) (behind : StringView) :
    authorityOf ('[' :: (word ++ ']' :: behind)) = '[' :: (word ++ ']' :: authorityOf behind) := by
  have inside : ∀ c ∈ '[' :: (word ++ [']']), authorityChar c = true := by
    intro c member
    simp only [List.mem_cons, List.mem_append, List.not_mem_nil, or_false] at member
    rcases member with rfl | inWord | rfl
    · decide
    · exact chars c inWord
    · decide
  have whole : authorityOf ('[' :: (word ++ [']']) ++ behind) = _ := authorityOf_append inside
  simpa using whole

/-- A registered name does not start with a bracket. -/
theorem bracket_not_regName {host port tail : StringView} (name : host.head? ≠ some '[')
    (ends : port = [] ∨ ∃ digits, port = ':' :: digits) : '[' :: tail ≠ host ++ port := by
  intro same
  cases host with
  | nil => rcases ends with rfl | ⟨digits, rfl⟩ <;> simp at same
  | cons c host => exact name (by rw [← (List.cons.inj same).1]; rfl)

theorem stops_port {port : StringView} (ends : port = [] ∨ ∃ digits, port = ':' :: digits) :
    Stops (fun c => c != ':') port := by
  obtain rfl | ⟨digits, rfl⟩ := ends
  · exact stops_nil
  · exact stops_cons.mpr rfl

theorem ne_of_missing {text : StringView} {d : Char} (missing : d ∉ text) (c : Char) (member : c ∈ text) :
    (c != d) = true := by
  rw [bne_iff_ne]
  rintro rfl
  exact missing member

theorem ne_of_token {d : Char} (other : tokenStart plainRange d = false) (c : Char) (token : tokenStart plainRange c = true) :
    (c != d) = true := by
  rw [bne_iff_ne]
  rintro rfl
  rw [other] at token
  cases token

/-- The encoded parts of an authority with a registered name. -/
theorem sequenceText_of_name {name text : StringView} (chars : ∀ c ∈ name, tokenStart plainRange c = true)
    (sequences : SequenceText name) (portText : authorityOf behind = [] ∨ ∃ digits, authorityOf behind = ':' :: digits)
    (component : afterUserinfo str = name ++ authorityOf behind) (part : EncodedPart str text) : SequenceText text := by
  cases part with
  | regName split notBracket noColon ends =>
    obtain ⟨rfl, -⟩ := run_unique (component.symm.trans split) (fun c member => ne_of_token (by decide) c (chars c member))
      (stops_port portText) (ne_of_missing noColon) (stops_port ends)
    exact sequences
  | zone split noPercent closed =>
    refine (bracket_not_regName ?_ portText (split.symm.trans component)).elim
    intro bracket
    obtain ⟨tail, rfl⟩ := List.head?_eq_some_iff.mp bracket
    exact absurd (chars '[' (by simp)) (by decide)

/-- The encoded parts of an authority with a literal. -/
theorem sequenceText_of_literal {text : StringView} (literal : consumeIPLiteral ('[' :: input) = (true, behind))
    (noPercent : '%' ∉ authorityOf behind) (component : afterUserinfo str = authorityOf ('[' :: input))
    (part : EncodedPart str text) : SequenceText text := by
  obtain ⟨word, chars, form⟩ := consumeIPLiteral_zone literal
  have inAuthority (c : Char) (member : c ∈ word) : authorityChar c = true := (Bool.and_eq_true_iff.mp (chars c member)).1
  have inAddress (c : Char) (member : c ∈ word) : (c != '%') = true := (Bool.and_eq_true_iff.mp (chars c member)).2
  rcases form with rfl | ⟨zone, rfl, sequences, inZone⟩
  · rw [authorityOf_literal inAuthority] at component
    cases part with
    | regName split notBracket noColon ends =>
      exact (bracket_not_regName notBracket ends (component.symm.trans split)).elim
    | zone split noPercent' closed =>
      have same := (List.cons.inj (component.symm.trans split)).2
      have member : '%' ∈ word ++ ']' :: authorityOf behind := by rw [same]; simp
      simp only [List.mem_append, List.mem_cons, noPercent, or_false] at member
      rcases member with inWord | impossible
      · exact absurd (inAddress '%' inWord) (by decide)
      · simp at impossible
  · have zoned : ∀ c ∈ word ++ '%' :: '2' :: '5' :: zone, authorityChar c = true := by
      intro c member
      rcases List.mem_append.mp member with inWord | member
      · exact inAuthority c inWord
      · simp only [List.mem_cons] at member
        rcases member with rfl | rfl | rfl | member
        · decide
        · decide
        · decide
        · exact authorityChar_of_token (inZone c member)
    have whole := authorityOf_literal zoned behind
    simp only [List.append_assoc, List.cons_append] at whole
    rw [whole] at component
    cases part with
    | regName split notBracket noColon ends =>
      exact (bracket_not_regName notBracket ends (component.symm.trans split)).elim
    | zone split noPercent' closed =>
      have same := (List.cons.inj (component.symm.trans split)).2
      obtain ⟨-, tails⟩ := run_unique same inAddress (stops_cons.mpr rfl) (ne_of_missing noPercent') (stops_cons.mpr rfl)
      simp only [List.cons.injEq, true_and] at tails
      obtain ⟨rfl, -⟩ := run_unique tails (fun c member => ne_of_token (by decide) c (inZone c member))
        (stops_cons.mpr rfl) (ne_of_missing closed) (stops_cons.mpr rfl)
      exact sequences

/-- The encoded parts of an authority that was found are valid sequences. -/
theorem sequenceText_of_part {text : StringView} (found : consumeAuthority input = (true, rest))
    (part : EncodedPart (authorityOf input) text) : SequenceText text := by
  obtain ⟨host, behind, component, hostFound, portFound⟩ := consumeAuthority_parts found
  obtain ⟨noPercent, portText⟩ := authorityOf_portEnd portFound
  rcases either_cases ipLiteral_test_restores hostFound with literal | name
  · obtain ⟨middle, bracket, literal⟩ := both_eq_true_iff.mp literal
    obtain ⟨starts, rfl⟩ := Prod.mk.inj bracket
    obtain ⟨tail, rfl⟩ := startsWith_iff.mp starts
    exact sequenceText_of_literal literal noPercent component part
  · obtain ⟨name, rfl, sequences, chars, -⟩ := consumeRegName_sequences name
    rw [authorityOf_append fun c member => authorityChar_of_token (chars c member)] at component
    exact sequenceText_of_name chars sequences portText component part

end Authorities

section References

variable {str input rest : StringView}

theorem consumeAuthority_of_network (found : restoring consumeNetworkPath ('/' :: '/' :: input) = (true, rest)) :
    ∃ behind, consumeAuthority input = (true, behind) := by
  rw [restoring_eq_true_iff, consumeNetworkPath, both_eq_true_iff] at found
  obtain ⟨middle, slashes, found⟩ := found
  have same : '/' :: '/' :: input = '/' :: '/' :: middle := IPv6Parser.consumeSequence_eq_true_iff.mp slashes
  obtain rfl := (List.cons.inj (List.cons.inj same).2).2
  obtain ⟨behind, authority, -⟩ := both_eq_true_iff.mp found
  exact ⟨behind, authority⟩

/-- A URI has the authority that stands behind its scheme. -/
theorem consumeAuthority_of_uri (found : consumeUri str = (true, rest)) (after : afterScheme str = '/' :: '/' :: input) :
    ∃ behind, consumeAuthority input = (true, behind) := by
  rw [consumeUri, restoring_eq_true_iff, both_eq_true_iff] at found
  obtain ⟨_, parts, -⟩ := found
  obtain ⟨colon, scheme, parts⟩ := both_eq_true_iff.mp parts
  obtain ⟨hier, advanced, part⟩ := both_eq_true_iff.mp parts
  obtain rfl := consume_char_eq_true_iff.mp advanced
  obtain rfl := (afterScheme_of_consumeScheme scheme).symm.trans after
  rw [consumeHierPart_network] at part
  exact consumeAuthority_of_network part

theorem within_segmentNzNc : Within (authorityBut ':') Rfc3986.segmentNzNc := by
  have token : Within (authorityBut ':') (symbols noColonRange + Rfc3986.pctEncoded) := by
    have digit : Within (authorityBut ':') Rfc3986.HEXDIG :=
      symbols_hexDigit ▸ within_symbols.mono (authorityBut_of_range (by decide) (by decide) (by decide) (by decide))
    have plain : Within (authorityBut ':') (symbols noColonRange) :=
      within_symbols.mono (authorityBut_of_range (by decide) (by decide) (by decide) (by decide))
    exact plain.add (((within_literal (by decide)).mul digit).mul digit)
  rw [symbols_noColonRange] at token
  exact token.mul token.kstar

/-- A relative reference does not start with a scheme and a colon. -/
theorem scheme_not_relative {c : Char} {tail : StringView} (isAlpha : alpha c = true)
    (colon : startsWith ':' (tail.dropWhile schemeChar) = true) : consumeRelativePart (c :: tail) ≠ (true, rest) := by
  intro found
  have notSlash (w : StringView) : c :: tail ≠ '/' :: w := by
    rintro same
    obtain rfl := (List.cons.inj same).1
    exact absurd isAlpha (by decide)
  rcases either_cases (restoring_restores _) found with network | found
  · rw [restoring_eq_true_iff, consumeNetworkPath, both_eq_true_iff] at network
    obtain ⟨middle, slashes, -⟩ := network
    exact notSlash _ (IPv6Parser.consumeSequence_eq_true_iff.mp slashes)
  rcases either_cases (restoring_restores _) found with absolute | found
  · obtain ⟨u, member, same, -⟩ := (recognizes_pathAbsolute _ rest).mp absolute
    obtain ⟨d, w, rfl, isSlash⟩ := leads_pathAbsolute u member
    obtain rfl : d = '/' := beq_iff_eq.mp isSlash
    exact notSlash _ same.symm
  rcases either_cases (restoring_restores _) found with noscheme | empty
  · obtain ⟨u, member, same, ends⟩ := (recognizes_pathNoscheme _ rest).mp noscheme
    obtain ⟨first, inFirst, more, inMore, rfl⟩ := Language.mem_mul.mp member
    have behind := isAuthorityEnd_pathAbempty more inMore rest ends
    have split : first ++ (more ++ rest) = (c :: tail.takeWhile schemeChar) ++ tail.dropWhile schemeChar := by
      rw [← List.append_assoc, same, List.cons_append, List.takeWhile_append_dropWhile]
    obtain ⟨after, starts⟩ := startsWith_iff.mp colon
    have scheme : ∀ d ∈ c :: tail.takeWhile schemeChar, authorityBut ':' d = true := by
      refine List.forall_mem_cons.mpr ⟨authorityBut_of_range (by decide) (by decide) (by decide) (by decide) c isAlpha, ?_⟩
      intro d inScheme
      have accepted : schemeChar d = true := List.all_eq_true.mp List.all_takeWhile d inScheme
      exact authorityBut_of_range (by decide) (by decide) (by decide) (by decide) d accepted
    obtain ⟨-, tails⟩ := run_unique split (within_segmentNzNc first inFirst)
      (stops_of_isAuthorityEnd (by decide) (by decide) (by decide) behind) scheme
      (by rw [starts]; exact stops_cons.mpr (by decide))
    rw [tails, starts, isAuthorityEnd_iff] at behind
    simp at behind
  · obtain ⟨ends, -⟩ := Prod.mk.inj empty
    obtain impossible | ⟨w, same⟩ | ⟨w, same⟩ := isPathEnd_iff.mp ends
    · cases impossible
    · obtain rfl := (List.cons.inj same).1
      exact absurd isAlpha (by decide)
    · obtain rfl := (List.cons.inj same).1
      exact absurd isAlpha (by decide)

/-- A relative reference has the authority that it starts with. -/
theorem consumeAuthority_of_relativeRef (found : consumeRelativeRef str = (true, rest))
    (after : afterScheme str = '/' :: '/' :: input) : ∃ behind, consumeAuthority input = (true, behind) := by
  obtain ⟨middle, part, -⟩ := both_eq_true_iff.mp (consumeRelativeRef_eq_true_iff.mp found)
  cases str with
  | nil => cases after
  | cons c tail =>
    rw [afterScheme] at after
    split at after
    · rename_i scheme
      obtain ⟨isAlpha, colon⟩ := Bool.and_eq_true_iff.mp scheme
      exact (scheme_not_relative isAlpha colon part).elim
    · rw [after, consumeRelativePart_network] at part
      exact consumeAuthority_of_network part

/-- An accepted text with an authority has it read. -/
theorem consumeAuthority_of_accepted {authority : StringView}
    (accepted : validateUri str = true ∨ validateUriReference str = true)
    (component : authorityComponent str = some authority) :
    ∃ input behind, authorityOf input = authority ∧ consumeAuthority input = (true, behind) := by
  obtain ⟨input, after, rfl⟩ : ∃ input, afterScheme str = '/' :: '/' :: input ∧ authorityOf input = authority := by
    simp only [authorityComponent] at component
    split at component
    · rename_i input after
      exact ⟨input, after, Option.some.inj component⟩
    · cases component
  suffices read : ∃ behind, consumeAuthority input = (true, behind) by
    obtain ⟨behind, authority⟩ := read
    exact ⟨input, behind, rfl, authority⟩
  rcases accepted with accepted | accepted
  · exact consumeAuthority_of_uri (validateUri_eq_true_iff.mp accepted) after
  · rcases validateUriReference_eq_true_iff.mp accepted with found | ⟨-, found⟩
    · exact consumeAuthority_of_uri found after
    · exact consumeAuthority_of_relativeRef found after

end References
end UriParser

open UriParser

/-- The encoded parts of an accepted text are well-formed UTF-8 if and only if no
two adjacent bytes of theirs are beyond the scalar values. -/
theorem encodedPart_wellFormed_iff (str authority text : StringView)
    (accepted : validateUri str = true ∨ validateUriReference str = true)
    (component : authorityComponent str = some authority) (part : EncodedPart authority text) :
    WellFormedUtf8 (percentDecode text) ↔ (percentDecode text).IsChain fun b0 b1 => ¬ BeyondScalars b0 b1 := by
  obtain ⟨input, behind, rfl, found⟩ := consumeAuthority_of_accepted accepted component
  exact (sequenceText_of_part found part).wellFormed_iff

theorem encodedPart_wellFormed_accent :
    WellFormedUtf8 (percentDecode "caf%C3%A9".toList) ↔
      (percentDecode "caf%C3%A9".toList).IsChain fun b0 b1 => ¬ BeyondScalars b0 b1 := by
  refine encodedPart_wellFormed_iff "x://caf%C3%A9:8080/".toList "caf%C3%A9:8080".toList _ (.inl (by decide)) (by decide) ?_
  exact @EncodedPart.regName _ _ ":8080".toList (by decide) (by decide) (by decide) (.inr ⟨"8080".toList, rfl⟩)

/-- A host with an encoded surrogate, and a zone with a code point above the last. -/
theorem beyondScalars_accepted :
    (validateUri "x://%ED%A0%80".toList = true ∧ authorityComponent "x://%ED%A0%80".toList = some "%ED%A0%80".toList ∧
        EncodedPart "%ED%A0%80".toList "%ED%A0%80".toList ∧ ¬ WellFormedUtf8 (percentDecode "%ED%A0%80".toList)) ∧
      validateUri "x://[::1%25%F4%90%80%80]".toList = true ∧
        authorityComponent "x://[::1%25%F4%90%80%80]".toList = some "[::1%25%F4%90%80%80]".toList ∧
        EncodedPart "[::1%25%F4%90%80%80]".toList "%F4%90%80%80".toList ∧
        ¬ WellFormedUtf8 (percentDecode "%F4%90%80%80".toList) := by
  refine ⟨⟨by decide, by decide, ?_, ?_⟩, by decide, by decide, ?_, ?_⟩
  · exact @EncodedPart.regName _ _ [] (by decide) (by decide) (by decide) (.inl rfl)
  · exact @not_wellFormed_of_beyond 0xed 0xa0 _ (.inl ⟨rfl, Nat.le_refl _⟩)
  · exact @EncodedPart.zone _ "::1".toList _ [] (by decide) (by decide) (by decide)
  · exact @not_wellFormed_of_beyond 0xf4 0x90 _ (.inr ⟨rfl, Nat.le_refl _⟩)
end Protovalidate.Lib
