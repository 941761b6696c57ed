import Protovalidate.Foundation.Consumption
import Protovalidate.Lib.UriAddress
import Protovalidate.Lib.UriUtf8

/-! Authorities: what the parser consumes of any, and the exact grammar where
the host has neither brackets nor percent encodings. -/

namespace Protovalidate.Lib.UriParser

open Foundation Consumer
open scoped Computability

section Consumption

variable {str rest : StringView}

/-- Every character but the one that ends a userinfo. -/
def notAt (c : Char) : Bool := c != '@'

theorem consumes_range {accepts range : Char → Bool} (within : ∀ c, range c = true → accepts c = true) :
    Consumes accepts (consume range) := (recognizes_consume range).consumes (within_symbols.mono within)

theorem notAt_of_range {range : Char → Bool} (without : range '@' = false) (c : Char) (accepted : range c = true) :
    notAt c = true := by
  rw [notAt, bne_iff_ne]
  rintro rfl
  rw [without] at accepted
  cases accepted

theorem consumes_consume (range : Char → Bool) (without : range '@' = false) : Consumes notAt (consume range) :=
  consumes_range (notAt_of_range without)

theorem notAt_of_hexDigit {c : Char} (isHex : hexDigit c = true) : notAt c = true := by
  rw [notAt, bne_iff_ne]
  exact hexDigit_ne isHex (by decide)

theorem consumes_codePoint : Consumes notAt consumePercentEncodedUTF8CodePoint := by
  intro str rest found
  obtain ⟨triplets, -, rfl, -⟩ := consumePercentEncodedUTF8CodePoint_eq_true_iff.mp found
  refine ⟨tripletsText triplets, rfl, fun c member => ?_⟩
  obtain ⟨triplet, -, inText⟩ := List.mem_flatMap.mp member
  simp only [Triplet.text, List.mem_cons, List.not_mem_nil, or_false] at inText
  rcases inText with rfl | rfl | rfl
  · decide
  · exact notAt_of_hexDigit triplet.highDigit
  · exact notAt_of_hexDigit triplet.lowDigit

theorem codePoint_restores : Restores consumePercentEncodedUTF8CodePoint := by
  intro str rest failed
  simp only [consumePercentEncodedUTF8CodePoint] at failed
  split at failed
  · cases failed; rfl
  · split at failed
    · cases failed
    · split at failed
      · cases failed; rfl
      · split at failed
        · split at failed <;> cases failed
          rfl
        · cases failed; rfl

theorem codePoint_shrinks : Shrinks consumePercentEncodedUTF8CodePoint := by
  intro str rest found
  obtain ⟨triplets, valid, rfl, -⟩ := consumePercentEncodedUTF8CodePoint_eq_true_iff.mp found
  cases triplets with
  | nil => cases valid
  | cons triplet triplets =>
    simp only [tripletsText_cons, Triplet.text, List.length_append, List.length_cons]
    omega

theorem consume_shrinks (range : Char → Bool) : Shrinks (consume range) := by
  intro str rest found
  obtain ⟨word, ⟨c, -, rfl⟩, rfl, -⟩ := (recognizes_consume range str rest).mp found
  simp

/-- The characters of a name, or a percent-encoded code point. -/
def nameToken (range : Char → Bool) : Consumer Char :=
  either (consume range) consumePercentEncodedUTF8CodePoint

theorem nameToken_restores (range : Char → Bool) : Restores (nameToken range) :=
  (one_restores range).either codePoint_restores

theorem nameToken_shrinks (range : Char → Bool) : Shrinks (nameToken range) :=
  (consume_shrinks range).either (one_restores range) codePoint_shrinks

theorem nameToken_consumes (range : Char → Bool) (without : range '@' = false) :
    Consumes notAt (nameToken range) :=
  (consumes_consume range without).either (one_restores range) consumes_codePoint

/-- What is left of the input when the address loop ends. -/
theorem addressLoop_consumes (s final : IPv6Parser.AddressState) (left : IPv6Parser.addressLoop s = some final) :
    ∃ word, word ++ final.str = s.str ∧ ∀ c ∈ word, addressChar c = true := by
  have hex (group : Hexadecatet) : ∀ c ∈ group.text, addressChar c = true := fun c member => by
    simp [addressChar, group.digits c member]
  induction s using Control.loop_induction IPv6Parser.addressRound_decreases with
  | round s ih =>
    cases round : IPv6Parser.addressRound s with
    | leave result =>
      rw [IPv6Parser.addressLoop_leave round] at left
      subst left
      obtain ⟨-, rfl⟩ | ⟨-, rfl, -⟩ | ⟨-, -, octets, rest, same, -, rfl⟩ := IPv6Parser.round_leave_cases round
      · exact ⟨[], rfl, by simp⟩
      · exact ⟨[], rfl, by simp⟩
      · exact ⟨octets.text, same.symm, octets.text_chars⟩
    | again next =>
      rw [IPv6Parser.addressLoop_again round] at left
      obtain ⟨word, split, chars⟩ := ih next round left
      obtain ⟨-, ⟨group, rest, same, -, rfl⟩ | ⟨rest, same, -, -, rfl⟩ | ⟨rest, same, -, -, -, rfl⟩⟩ :=
        IPv6Parser.round_again_cases round
      · refine ⟨group.text ++ word, ?_, fun c member => (List.mem_append.mp member).elim (hex group c) (chars c)⟩
        rw [same, List.append_assoc, split]
        rfl
      · refine ⟨':' :: ':' :: word, ?_, fun c member => ?_⟩
        · rw [same, List.cons_append, List.cons_append, split]
          rfl
        · rcases List.mem_cons.mp member with rfl | member
          · decide
          · exact (List.mem_cons.mp member).elim (fun isColon => isColon ▸ by decide) (chars c)
      · refine ⟨':' :: word, ?_, fun c member => ?_⟩
        · rw [same, List.cons_append, split]
          rfl
        · exact (List.mem_cons.mp member).elim (fun isColon => isColon ▸ by decide) (chars c)

theorem notAt_of_addressChar {c : Char} (isAddress : addressChar c = true) : notAt c = true := by
  rw [notAt, bne_iff_ne]
  rintro rfl
  revert isAddress
  decide

theorem consumes_zoneId : Consumes notAt consumeZoneId :=
  (nameToken_consumes unreserved (by decide)).atLeastOne (nameToken_restores unreserved) (nameToken_shrinks unreserved)

/-- An address is a word of its characters, with a zone behind it or none. -/
theorem consumeIPv6Address_reads {str rest : StringView} (found : consumeIPv6Address str = (true, rest)) :
    ∃ word behind, word ++ behind = str ∧ (∀ c ∈ word, addressChar c = true) ∧
      (behind = rest ∨ whenever (consumeSequence ['%', '2', '5']) consumeZoneId behind = (true, rest)) := by
  have matched := addressLoop_matches str
  have reads := fun final => addressLoop_consumes (.start str) final
  simp only [consumeIPv6Address] at found
  generalize IPv6Parser.addressLoop (.start str) = left at matched reads
  generalize addressLoop ⟨str, 0, false⟩ = left' at matched found
  cases matched with
  | rejected str => cases found
  | quad final valid =>
    obtain ⟨-, rfl⟩ := Prod.mk.inj found
    obtain ⟨word, split, chars⟩ := reads final rfl
    exact ⟨word, final.str, split, chars, .inl rfl⟩
  | finished final =>
    simp only at found
    split at found
    · obtain ⟨word, split, chars⟩ := reads final rfl
      exact ⟨word, final.str, split, chars, .inr found⟩
    · cases found

theorem consumes_ipv6Address : Consumes notAt consumeIPv6Address := by
  intro str rest found
  obtain ⟨word, behind, split, chars, rfl | zoned⟩ := consumeIPv6Address_reads found
  · exact ⟨word, split, fun c member => notAt_of_addressChar (chars c member)⟩
  · have percent : Consumes notAt (consumeSequence ['%', '2', '5']) :=
      (recognizes_word _).consumes (within_literal (by decide))
    obtain ⟨zone, same, inZone⟩ := percent.whenever (word_restores _) consumes_zoneId behind rest zoned
    refine ⟨word ++ zone, by rw [List.append_assoc, same, split], fun c member => ?_⟩
    exact (List.mem_append.mp member).elim (fun inWord => notAt_of_addressChar (chars c inWord)) (inZone c)

/-- The class of the last part of an IPvFuture. -/
def futureRange : Char → Bool := concatRanges [unreserved, subDelims, char ':']

theorem consumes_ipvFuture {accepts : Char → Bool} (letter : ∀ c, char 'v' c = true → accepts c = true)
    (digit : ∀ c, hexDigit c = true → accepts c = true) (dot : ∀ c, char '.' c = true → accepts c = true)
    (future : ∀ c, futureRange c = true → accepts c = true) : Consumes accepts consumeIPVFuture := by
  have digits := (consumes_range digit).many (one_restores _) (consume_shrinks _)
  refine Consumes.restoring ((consumes_range letter).both ((consumes_range digit).both (digits.both ?_)))
  exact (consumes_range dot).both ((consumes_range future).both ((consumes_range future).many (one_restores _)
    (consume_shrinks _)))

theorem consumes_ipLiteral : Consumes notAt consumeIPLiteral := by
  have future : Consumes notAt consumeIPVFuture :=
    consumes_ipvFuture (notAt_of_range (by decide)) (notAt_of_range (by decide)) (notAt_of_range (by decide))
      (notAt_of_range (by decide))
  have close := consumes_consume (char ']') (by decide)
  refine Consumes.restoring ((consumes_consume (char '[') (by decide)).both ?_)
  exact Consumes.either (consumes_ipv6Address.both close).restoring (restoring_restores _) (future.both close)

theorem consumes_regName : Consumes notAt consumeRegName :=
  (Consumes.both ((nameToken_consumes _ (by decide)).many (nameToken_restores _) (nameToken_shrinks _))
    (consumes_test _)).restoring

theorem ipLiteral_test_restores : Restores (both (test (startsWith '[')) consumeIPLiteral) := by
  intro str rest failed
  simp only [both, test] at failed
  split at failed
  · rename_i middle bracket
    obtain ⟨-, rfl⟩ := Prod.mk.inj bracket
    exact restoring_restores _ str rest failed
  · rename_i middle bracket
    obtain ⟨-, rfl⟩ := Prod.mk.inj bracket
    exact (Prod.mk.inj failed).2.symm

theorem consumes_host : Consumes notAt consumeHost :=
  ((consumes_test _).both consumes_ipLiteral).either ipLiteral_test_restores consumes_regName

end Consumption

/-- What a URI parser takes for the authority: everything up to the path. -/
def authorityChar (c : Char) : Bool := c != '/' && c != '?' && c != '#'

def authorityOf (str : StringView) : StringView := str.takeWhile authorityChar

/-- The part of an authority behind its first `@`, or all of it. -/
def afterUserinfo (authority : StringView) : StringView :=
  if '@' ∈ authority then (authority.dropWhile notAt).tail else authority

/-- An authority without brackets and percent encodings behind its userinfo. -/
def PlainHost (authority : StringView) : Prop :=
  '[' ∉ afterUserinfo authority ∧ '%' ∉ afterUserinfo authority

section Component

variable {word rest : StringView}

theorem authorityOf_append (chars : ∀ c ∈ word, authorityChar c = true) :
    authorityOf (word ++ rest) = word ++ authorityOf rest := List.takeWhile_append_of_pos chars

theorem authorityOf_end (ends : isAuthorityEnd rest = true) : authorityOf rest = [] := by
  obtain rfl | ⟨tail, rfl⟩ | ⟨tail, rfl⟩ | ⟨tail, rfl⟩ := isAuthorityEnd_iff.mp ends <;> rfl

/-- A word that ends at the end of the authority is all of it. -/
theorem authorityOf_word (chars : ∀ c ∈ word, authorityChar c = true) (ends : isAuthorityEnd rest = true) :
    authorityOf (word ++ rest) = word := by
  rw [authorityOf_append chars, authorityOf_end ends, List.append_nil]

/-- An `@` in the authority is not passed by consuming other characters. -/
theorem at_not_passed (chars : ∀ c ∈ word, notAt c = true) (ends : isAuthorityEnd rest = true) :
    '@' ∉ authorityOf (word ++ rest) := by
  intro member
  induction word with
  | nil =>
    rw [List.nil_append, authorityOf_end ends] at member
    cases member
  | cons c word ih =>
    rw [authorityOf, List.cons_append, List.takeWhile_cons] at member
    split at member
    · rcases List.mem_cons.mp member with rfl | member
      · have isAt := chars '@' (by simp)
        revert isAt
        decide
      · exact ih (fun later inWord => chars later (by simp [inWord])) member
    · cases member

end Component

section HostCharacters

/-- The characters that occur in hosts. -/
def hostChar (c : Char) : Bool := authorityChar c && notAt c

theorem authorityChar_of {range : Char → Bool} (slash : range '/' = false) (question : range '?' = false)
    (hash : range '#' = false) (c : Char) (accepted : range c = true) : authorityChar c = true := by
  have differs {other : Char} (missed : range other = false) : c ≠ other := by
    rintro rfl
    rw [missed] at accepted
    cases accepted
  simp [authorityChar, bne_iff_ne, differs slash, differs question, differs hash]

theorem hostChar_of {range : Char → Bool} (slash : range '/' = false) (question : range '?' = false)
    (hash : range '#' = false) (at_ : range '@' = false) (c : Char) (accepted : range c = true) :
    hostChar c = true := by
  refine Bool.and_eq_true_iff.mpr ⟨authorityChar_of slash question hash c accepted, ?_⟩
  rw [notAt, bne_iff_ne]
  rintro rfl
  rw [at_] at accepted
  cases accepted

theorem within_range (range : Char → Bool) (slash : range '/' = false) (question : range '?' = false)
    (hash : range '#' = false) (at_ : range '@' = false) : Within hostChar (symbols range) :=
  within_symbols.mono (hostChar_of slash question hash at_)

theorem within_unreserved : Within hostChar Rfc3986.unreserved :=
  symbols_unreserved ▸ within_range unreserved (by decide) (by decide) (by decide) (by decide)

theorem within_subDelims : Within hostChar Rfc3986.subDelims :=
  symbols_subDelims ▸ within_range subDelims (by decide) (by decide) (by decide) (by decide)

theorem within_hexdig : Within hostChar Rfc3986.HEXDIG :=
  symbols_hexDigit ▸ within_range hexDigit (by decide) (by decide) (by decide) (by decide)

theorem within_char (c : Char) (isHost : hostChar c = true) : Within hostChar (literal [c]) :=
  within_literal (by simp [isHost])

theorem within_pctEncoded : Within hostChar Rfc3986.pctEncoded :=
  ((within_char '%' (by decide)).mul within_hexdig).mul within_hexdig

/-- The class of the characters of a plain host. -/
def plainRange : Char → Bool := concatRanges [unreserved, subDelims]

theorem symbols_plainRange : symbols plainRange = Rfc3986.unreserved + Rfc3986.subDelims := by
  simp only [plainRange, symbols_concatRanges, List.map_cons, List.map_nil, List.sum_cons, List.sum_nil,
    symbols_unreserved, symbols_subDelims, add_zero]

theorem plainRange_of_num {c : Char} (isNum : num c = true) : plainRange c = true := by
  simp [plainRange, unreserved, concatRanges, isNum]

theorem plainRange_of_hexDigit {c : Char} (isHex : hexDigit c = true) : plainRange c = true := by
  have isLetter : num c = true ∨ alpha c = true := by
    simp only [hexDigit, concatRanges, charRange, List.any_cons, List.any_nil, Bool.or_false, Bool.or_eq_true,
      Bool.and_eq_true, decide_eq_true_eq] at isHex
    simp only [alpha, concatRanges, charRange, List.any_cons, List.any_nil, Bool.or_false, Bool.or_eq_true,
      Bool.and_eq_true, decide_eq_true_eq]
    have lower : c ≤ 'f' → c ≤ 'z' := fun bound => Char.le_trans bound (by decide)
    have upper : c ≤ 'F' → c ≤ 'Z' := fun bound => Char.le_trans bound (by decide)
    rcases isHex with isNum | ⟨low, high⟩ | ⟨low, high⟩
    · exact .inl isNum
    · exact .inr (.inl ⟨low, lower high⟩)
    · exact .inr (.inr ⟨low, upper high⟩)
  rcases isLetter with isNum | isAlpha
  · exact plainRange_of_num isNum
  · simp [plainRange, unreserved, concatRanges, isAlpha]

theorem tripletsText_chars (triplets : List Triplet) : ∀ c ∈ tripletsText triplets, tokenStart plainRange c = true := by
  intro c member
  obtain ⟨triplet, -, inText⟩ := List.mem_flatMap.mp member
  simp only [Triplet.text, List.mem_cons, List.not_mem_nil, or_false] at inText
  rcases inText with rfl | rfl | rfl
  · decide
  · simp [tokenStart, plainRange_of_hexDigit triplet.highDigit]
  · simp [tokenStart, plainRange_of_hexDigit triplet.lowDigit]

theorem hostChar_of_plain {c : Char} (accepted : plainRange c = true) : hostChar c = true :=
  hostChar_of (by decide) (by decide) (by decide) (by decide) c accepted

/-- Decimal octets and dots are plain. -/
theorem within_ipv4Address : Within plainRange Rfc3986.ipv4Address := by
  have digit : Within plainRange Rfc3986.DIGIT :=
    symbols_num ▸ within_symbols.mono fun c isNum => plainRange_of_num isNum
  have part (low high : Char) (from_ : '0' ≤ low) (upTo : high ≤ '9') :
      Within plainRange (symbols fun c => low ≤ c && c ≤ high) := by
    refine within_symbols.mono fun c accepted => plainRange_of_num ?_
    simp only [Bool.and_eq_true, decide_eq_true_eq] at accepted
    simp only [num, charRange, Bool.and_eq_true, decide_eq_true_eq]
    exact ⟨Char.le_trans from_ accepted.1, Char.le_trans accepted.2 upTo⟩
  have dot : Within plainRange (literal ['.']) := within_literal (by decide)
  have octet : Within plainRange Rfc3986.decOctet := by
    refine (((digit.add ((part '1' '9' (by decide) (by decide)).mul digit)).add ?_).add ?_).add ?_
    · exact ((within_literal (by decide)).mul digit).mul digit
    · exact ((within_literal (by decide)).mul (part '0' '4' (by decide) (by decide))).mul digit
    · exact (within_literal (by decide)).mul (part '0' '5' (by decide) (by decide))
  exact (((((octet.mul dot).mul octet).mul dot).mul octet).mul dot).mul octet

theorem within_ipv6Address : Within hostChar Rfc3986.ipv6Address := by
  have colon := within_char ':' (by decide)
  have elision : Within hostChar (literal [':', ':']) := within_literal (by decide)
  have digit : Within hostChar (1 + Rfc3986.HEXDIG) := within_one.add within_hexdig
  have h16 : Within hostChar Rfc3986.h16 := ((within_hexdig.mul digit).mul digit).mul digit
  have ls32 : Within hostChar Rfc3986.ls32 :=
    ((h16.mul colon).mul h16).add (within_ipv4Address.mono fun c accepted => hostChar_of_plain accepted)
  have h16Colon : Within hostChar Rfc3986.h16Colon := h16.mul colon
  have upTo (n : Nat) : Within hostChar (Rfc3986.upToGroups n) :=
    within_one.add (((within_one.add h16Colon).pow n).mul h16)
  refine (((((((Within.add ?_ ?_).add ?_).add ?_).add ?_).add ?_).add ?_).add ?_).add ?_
  · exact (h16Colon.pow 6).mul ls32
  · exact (elision.mul (h16Colon.pow 5)).mul ls32
  · exact (((upTo 0).mul elision).mul (h16Colon.pow 4)).mul ls32
  · exact (((upTo 1).mul elision).mul (h16Colon.pow 3)).mul ls32
  · exact (((upTo 2).mul elision).mul (h16Colon.pow 2)).mul ls32
  · exact (((upTo 3).mul elision).mul h16Colon).mul ls32
  · exact ((upTo 4).mul elision).mul ls32
  · exact ((upTo 5).mul elision).mul h16
  · exact (upTo 6).mul elision

theorem within_host : Within hostChar Rfc3986.host := by
  have futureChar := (within_unreserved.add within_subDelims).add (within_char ':' (by decide))
  have future : Within hostChar Rfc3986.ipvFuture :=
    ((((within_char 'v' (by decide)).add (within_char 'V' (by decide))).mul
      (within_hexdig.mul within_hexdig.kstar)).mul (within_char '.' (by decide))).mul
      (futureChar.mul futureChar.kstar)
  have literal_ : Within hostChar Rfc3986.ipLiteral :=
    ((within_char '[' (by decide)).mul (within_ipv6Address.add future)).mul (within_char ']' (by decide))
  have regName : Within hostChar Rfc3986.regName :=
    ((within_unreserved.add within_pctEncoded).add within_subDelims).kstar
  exact (literal_.add (within_ipv4Address.mono fun c accepted => hostChar_of_plain accepted)).add regName

/-- A host without brackets and percent signs is made of plain characters. -/
theorem host_plain {word : StringView} (member : word ∈ Rfc3986.host) (bracket : '[' ∉ word)
    (percent : '%' ∉ word) : ∀ c ∈ word, plainRange c = true := by
  rcases member with (inLiteral | inIpv4) | inRegName
  · have leads : Leads (char '[') Rfc3986.ipLiteral := (Leads.mul (leads_literal (by decide))).mul
    obtain ⟨c, tail, rfl, isBracket⟩ := leads word inLiteral
    obtain rfl : c = '[' := beq_iff_eq.mp isBracket
    exact (bracket (by simp)).elim
  · exact within_ipv4Address word inIpv4
  · have chars : Within (fun c => plainRange c || c == '%') Rfc3986.regName := by
      refine Within.kstar (Within.add (Within.add ?_ ?_) ?_)
      · exact symbols_unreserved ▸ within_symbols.mono fun c accepted => by
          simp [plainRange, concatRanges, accepted]
      · have digit : Within (fun c => plainRange c || c == '%') Rfc3986.HEXDIG :=
          symbols_hexDigit ▸ within_symbols.mono fun c isHex => by simp [plainRange_of_hexDigit isHex]
        exact ((within_literal (by decide)).mul digit).mul digit
      · exact symbols_subDelims ▸ within_symbols.mono fun c accepted => by
          simp [plainRange, concatRanges, accepted]
    intro c inWord
    have accepted := chars word inRegName c inWord
    rw [Bool.or_eq_true, beq_iff_eq] at accepted
    exact accepted.resolve_right fun isPercent => percent (isPercent ▸ inWord)

theorem plain_host {word : StringView} (plain : ∀ c ∈ word, plainRange c = true) : word ∈ Rfc3986.host := by
  refine .inr (Language.mem_kstar.mpr ?_)
  obtain ⟨parts, rfl, tokens⟩ := Language.mem_kstar.mp (mem_kstar_symbols.mpr plain)
  refine ⟨parts, rfl, fun part inParts => ?_⟩
  have inClass := tokens part inParts
  rw [symbols_plainRange] at inClass
  exact inClass.elim (fun inUnreserved => .inl (.inl inUnreserved)) .inr

end HostCharacters
end Protovalidate.Lib.UriParser
