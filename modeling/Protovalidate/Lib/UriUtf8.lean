import Protovalidate.Lib.IPv6Run
import Protovalidate.Lib.UriSyntax

/-! Percent-encoded UTF-8 sequences, and what the parser reads of them. -/

namespace Protovalidate.Lib.UriParser

open Foundation Consumer

/-- A percent sign and two hexadecimal digits. -/
structure Triplet where
  high : Char
  low : Char
  highDigit : hexDigit high = true
  lowDigit : hexDigit low = true

namespace Triplet

def text (triplet : Triplet) : StringView := ['%', triplet.high, triplet.low]

def value (triplet : Triplet) : Nat := hexadecimalValue [triplet.high, triplet.low]

end Triplet

def tripletsText (triplets : List Triplet) : StringView := triplets.flatMap Triplet.text

@[simp] theorem tripletsText_nil : tripletsText [] = [] := rfl

@[simp] theorem tripletsText_cons (triplet : Triplet) (triplets : List Triplet) :
    tripletsText (triplet :: triplets) = triplet.text ++ tripletsText triplets := rfl

def isContinuation (b : Nat) : Bool := b &&& 0xc0 == 0x80

/-- The byte sequences the parser takes for one code point. -/
def validSequence : List Nat → Bool
  | [] => false
  | [b0] => decide (b0 ≤ 0x7f)
  | b0 :: b1 :: more =>
    !decide (b0 ≤ 0x7f) && prefixSize b0 == some (more.length + 2) && (b1 :: more).all isContinuation &&
      !invalidSequence b0 b1

section Reading

variable {str rest : StringView} {b : Nat} {count : Nat} {bytes : List Nat}

/-- A triplet is read where no third hexadecimal digit follows. -/
theorem parsePercentEncoded_eq_some_iff : parsePercentEncoded str = some (b, rest) ↔
    ∃ triplet : Triplet, triplet.value = b ∧ str = triplet.text ++ rest ∧ Stops hexDigit rest := by
  have digits : calculateHexadecimalDigits 0xff = 2 := by decide
  have read (word tail : StringView) (run : ∀ c ∈ word, hexDigit c = true) (stops : Stops hexDigit tail) :=
    parseHexadecimalNumber_run 0xff 2 (by decide) (by decide) run stops
  simp only [digits] at read
  constructor
  · intro parsed
    simp only [parsePercentEncoded] at parsed
    split at parsed
    · cases parsed
    · rename_i tail percent
      obtain rfl := consume_char_eq_true_iff.mp percent
      obtain ⟨word, rest', rfl, run, stops⟩ := exists_run hexDigit tail
      rw [read word rest' run stops] at parsed
      split at parsed
      · rename_i accepted
        simp only [Option.some.injEq, Prod.mk.injEq] at parsed
        obtain ⟨rfl, rfl⟩ := parsed
        obtain ⟨high, low, rfl⟩ := List.length_eq_two.mp (Nat.le_antisymm accepted.2.2 accepted.2.1)
        exact ⟨⟨high, low, run high (by simp), run low (by simp)⟩, rfl, by simp [Triplet.text], stops⟩
      · cases parsed
  · rintro ⟨triplet, rfl, rfl, stops⟩
    have parsed := read [triplet.high, triplet.low] rest
      (by simp [triplet.highDigit, triplet.lowDigit]) stops
    rw [if_pos (by simp)] at parsed
    simp only [parsePercentEncoded, Triplet.text, List.cons_append, List.nil_append, consume_char_cons]
    exact parsed

theorem stops_percent : Stops hexDigit ('%' :: rest) := by
  rw [stops_cons]
  decide

theorem stops_triplets (triplets : List Triplet) (stops : Stops hexDigit rest) :
    Stops hexDigit (tripletsText triplets ++ rest) := by
  cases triplets with
  | nil => exact stops
  | cons triplet triplets => exact stops_percent

theorem parseContinuation_triplets (triplets : List Triplet)
    (valid : (triplets.map Triplet.value).all isContinuation = true) (stops : Stops hexDigit rest) :
    parseContinuation triplets.length (tripletsText triplets ++ rest) =
      some (triplets.map Triplet.value, rest) := by
  induction triplets with
  | nil => rfl
  | cons triplet triplets ih =>
    rw [List.map_cons, List.all_cons, Bool.and_eq_true] at valid
    have read : parsePercentEncoded (triplet.text ++ (tripletsText triplets ++ rest)) =
        some (triplet.value, tripletsText triplets ++ rest) :=
      parsePercentEncoded_eq_some_iff.mpr ⟨triplet, rfl, rfl, stops_triplets triplets stops⟩
    have continues : triplet.value &&& 0xc0 = 0x80 := by simpa [isContinuation] using valid.1
    simp only [List.length_cons, parseContinuation, tripletsText_cons, List.append_assoc, read, continues, ne_eq,
      not_true_eq_false, ↓reduceIte, ih valid.2, List.map_cons]

theorem parseContinuation_sound (parsed : parseContinuation count str = some (bytes, rest)) :
    ∃ triplets : List Triplet, triplets.length = count ∧ triplets.map Triplet.value = bytes ∧
      bytes.all isContinuation = true ∧ str = tripletsText triplets ++ rest ∧
      (triplets ≠ [] → Stops hexDigit rest) := by
  induction count generalizing str bytes with
  | zero =>
    simp only [parseContinuation, Option.some.injEq, Prod.mk.injEq] at parsed
    obtain ⟨rfl, rfl⟩ := parsed
    exact ⟨[], rfl, rfl, rfl, rfl, fun nonempty => (nonempty rfl).elim⟩
  | succ count ih =>
    simp only [parseContinuation] at parsed
    split at parsed
    · cases parsed
    · rename_i b tail read
      obtain ⟨triplet, rfl, rfl, stops⟩ := parsePercentEncoded_eq_some_iff.mp read
      split at parsed
      · cases parsed
      · rename_i continues
        split at parsed <;> cases parsed
        rename_i more read
        obtain ⟨triplets, rfl, rfl, valid, rfl, stopsRest⟩ := ih read
        refine ⟨triplet :: triplets, rfl, rfl, ?_, by simp, fun _ => ?_⟩
        · rw [List.all_cons, valid, Bool.and_true, isContinuation]
          simpa using continues
        · cases triplets with
          | nil => exact stops
          | cons next triplets => exact stopsRest (by simp)

theorem two_le_prefixSize {b0 size : Nat} (announced : prefixSize b0 = some size) : 2 ≤ size := by
  simp only [prefixSize] at announced
  split at announced
  · cases announced; omega
  · split at announced
    · cases announced; omega
    · split at announced <;> cases announced
      omega

theorem consumePercentEncodedUTF8CodePoint_sound (parsed : consumePercentEncodedUTF8CodePoint str = (true, rest)) :
    ∃ triplets : List Triplet, validSequence (triplets.map Triplet.value) = true ∧
      str = tripletsText triplets ++ rest ∧ Stops hexDigit rest := by
  simp only [consumePercentEncodedUTF8CodePoint] at parsed
  split at parsed
  · cases parsed
  · rename_i b0 tail read
    obtain ⟨triplet, rfl, rfl, stops⟩ := parsePercentEncoded_eq_some_iff.mp read
    split at parsed
    · rename_i ascii
      cases parsed
      exact ⟨[triplet], by simpa [validSequence] using ascii, by simp, stops⟩
    · rename_i notAscii
      split at parsed
      · cases parsed
      · rename_i size announced
        split at parsed
        · rename_i b1 more left continued
          split at parsed <;> cases parsed
          rename_i valid
          obtain ⟨triplets, length, values, continues, rfl, stopsRest⟩ := parseContinuation_sound continued
          have count : size = more.length + 2 := by
            have same := congrArg List.length values
            have atLeast := two_le_prefixSize announced
            simp only [List.length_map, List.length_cons] at same
            omega
          refine ⟨triplet :: triplets, ?_, by simp, stopsRest ?_⟩
          · rw [List.map_cons, values, validSequence, announced, continues, count]
            simp [notAscii, valid]
          · rintro rfl
            cases values
        · cases parsed

theorem consumePercentEncodedUTF8CodePoint_triplets (triplets : List Triplet)
    (valid : validSequence (triplets.map Triplet.value) = true) (stops : Stops hexDigit rest) :
    consumePercentEncodedUTF8CodePoint (tripletsText triplets ++ rest) = (true, rest) := by
  match triplets, valid with
  | [triplet], valid =>
    have read : parsePercentEncoded (triplet.text ++ rest) = some (triplet.value, rest) :=
      parsePercentEncoded_eq_some_iff.mpr ⟨triplet, rfl, rfl, stops⟩
    have ascii : triplet.value ≤ 0x7f := by simpa [validSequence] using valid
    simp [consumePercentEncodedUTF8CodePoint, read, ascii]
  | triplet :: next :: triplets, valid =>
    have read : parsePercentEncoded (triplet.text ++ (tripletsText (next :: triplets) ++ rest)) =
        some (triplet.value, tripletsText (next :: triplets) ++ rest) :=
      parsePercentEncoded_eq_some_iff.mpr ⟨triplet, rfl, rfl, stops_triplets _ stops⟩
    simp only [List.map_cons, validSequence, Bool.and_eq_true, Bool.not_eq_true', decide_eq_false_iff_not,
      beq_iff_eq, List.length_map] at valid
    obtain ⟨⟨⟨notAscii, announced⟩, continues⟩, sequence⟩ := valid
    have continued : parseContinuation (next :: triplets).length (tripletsText (next :: triplets) ++ rest) =
        some ((next :: triplets).map Triplet.value, rest) :=
      parseContinuation_triplets (next :: triplets) continues stops
    simp only [consumePercentEncodedUTF8CodePoint, tripletsText_cons, List.append_assoc] at read continued ⊢
    simp only [read, notAscii, ↓reduceIte, announced, List.length_cons, Nat.reduceSubDiff,
      List.map_cons] at continued ⊢
    simp only [continued, sequence, Bool.false_eq_true, ↓reduceIte]

/-- A code point is read where no hexadecimal digit follows its last triplet. -/
theorem consumePercentEncodedUTF8CodePoint_eq_true_iff :
    consumePercentEncodedUTF8CodePoint str = (true, rest) ↔
      ∃ triplets : List Triplet, validSequence (triplets.map Triplet.value) = true ∧
        str = tripletsText triplets ++ rest ∧ Stops hexDigit rest := by
  constructor
  · exact consumePercentEncodedUTF8CodePoint_sound
  · rintro ⟨triplets, valid, rfl, stops⟩
    exact consumePercentEncodedUTF8CodePoint_triplets triplets valid stops

end Reading

section Encoding

theorem isContinuation_of_low {value : Nat} (small : value < 64) : isContinuation (value + 0x80) = true := by
  have all : ∀ low < 64, isContinuation (low + 0x80) = true := by decide
  exact all value small

/-- The encoding of every Unicode scalar value is one the parser takes. -/
theorem validSequence_utf8EncodeChar (scalar : Char) :
    validSequence ((String.utf8EncodeChar scalar).map UInt8.toNat) = true := by
  have bound : scalar.val.toNat < 0x110000 := by
    have valid := scalar.valid
    simp only [UInt32.isValidChar, Nat.isValidChar] at valid
    omega
  simp only [String.utf8EncodeChar]
  generalize scalar.val.toNat = v at bound
  split
  · rename_i one
    simp only [List.map_cons, List.map_nil, validSequence, UInt8.toNat_ofNat', decide_eq_true_eq]
    omega
  · split
    · have lead : prefixSize (v / 64 % 32 + 192) = some 2 := by
        rw [prefixSize, if_pos (by omega)]
      have tail := isContinuation_of_low (Nat.mod_lt v (by omega : 0 < 64))
      simp only [List.map_cons, List.map_nil, validSequence, UInt8.toNat_ofNat',
        Nat.mod_eq_of_lt (by omega : v / 64 % 32 + 192 < 2 ^ 8), Nat.mod_eq_of_lt (by omega : v % 64 + 128 < 2 ^ 8),
        lead, List.all_cons, tail, invalidSequence]
      simp
      omega
    · split
      · have lead : prefixSize (v / 4096 % 16 + 224) = some 3 := by
          rw [prefixSize, if_neg (by omega), if_pos (by omega)]
        have first := isContinuation_of_low (Nat.mod_lt (v / 64) (by omega : 0 < 64))
        have second := isContinuation_of_low (Nat.mod_lt v (by omega : 0 < 64))
        simp only [List.map_cons, List.map_nil, validSequence, UInt8.toNat_ofNat',
          Nat.mod_eq_of_lt (by omega : v / 4096 % 16 + 224 < 2 ^ 8),
          Nat.mod_eq_of_lt (by omega : v / 64 % 64 + 128 < 2 ^ 8),
          Nat.mod_eq_of_lt (by omega : v % 64 + 128 < 2 ^ 8), lead, List.all_cons, first, second, invalidSequence]
        simp
        omega
      · have lead : prefixSize (v / 262144 % 8 + 240) = some 4 := by
          rw [prefixSize, if_neg (by omega), if_neg (by omega), if_pos (by omega)]
        have first := isContinuation_of_low (Nat.mod_lt (v / 4096) (by omega : 0 < 64))
        have second := isContinuation_of_low (Nat.mod_lt (v / 64) (by omega : 0 < 64))
        have third := isContinuation_of_low (Nat.mod_lt v (by omega : 0 < 64))
        simp only [List.map_cons, List.map_nil, validSequence, UInt8.toNat_ofNat',
          Nat.mod_eq_of_lt (by omega : v / 262144 % 8 + 240 < 2 ^ 8),
          Nat.mod_eq_of_lt (by omega : v / 4096 % 64 + 128 < 2 ^ 8),
          Nat.mod_eq_of_lt (by omega : v / 64 % 64 + 128 < 2 ^ 8),
          Nat.mod_eq_of_lt (by omega : v % 64 + 128 < 2 ^ 8), lead, List.all_cons, first, second, third,
          invalidSequence]
        simp
        omega

end Encoding
end Protovalidate.Lib.UriParser
