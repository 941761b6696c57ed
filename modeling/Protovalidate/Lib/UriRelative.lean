import Protovalidate.Lib.UriReference

/-! Relative references read as URIs: a hier-part and a relative-part differ only
in the colons of their first segment. -/

namespace Protovalidate.Lib

open Foundation Consumer
open scoped Computability

namespace UriParser

variable {input rest : StringView}

/-- Everything in front of the first slash, question mark or hash. -/
def firstSegment (str : StringView) : StringView := str.takeWhile authorityChar

section Segments

/-- The characters of `consumeSegmentNzNc` and percent encodings. -/
def noColonToken : Consumer Char := either (consume noColonRange) consumePercentEncoded

theorem recognizes_noColonToken :
    Recognizes noColonToken (symbols noColonRange + Rfc3986.pctEncoded) Anything :=
  recognizes_token noColonRange (by decide)

theorem noColonToken_shrinks : Shrinks noColonToken :=
  recognizes_noColonToken.shrinks (leads_token noColonRange).nonempty

theorem pchar_shrinks : Shrinks (consumePChar []) := recognizes_pchar.shrinks leads_pchar.nonempty

theorem pcharRange_eq {c : Char} (other : c ≠ ':') : pcharRange [] c = noColonRange c := by
  have missed : char ':' c = false := by simpa [char] using other
  simp [pcharRange, noColonRange, concatRanges, missed]

/-- Away from colons the two kinds of first segments have the same tokens. -/
theorem pchar_eq (noColon : ':' ∉ firstSegment input) : consumePChar [] input = noColonToken input := by
  cases input with
  | nil => rfl
  | cons c tail =>
    have other : c ≠ ':' := by
      rintro rfl
      exact noColon (by simp [firstSegment, authorityChar])
    change either (consume (pcharRange [])) consumePercentEncoded (c :: tail) = _
    simp only [noColonToken, either, consume, Consumer.one, pcharRange_eq other]

theorem within_noColonToken : Within authorityChar (symbols noColonRange + Rfc3986.pctEncoded) :=
  (within_symbols.mono (authorityChar_of (by decide) (by decide) (by decide))).add
    (within_pctEncoded.mono fun _ isHost => (Bool.and_eq_true_iff.mp isHost).1)

theorem firstSegment_kept (noColon : ':' ∉ firstSegment input) (found : consumePChar [] input = (true, rest)) :
    ':' ∉ firstSegment rest := by
  rw [pchar_eq noColon] at found
  obtain ⟨word, rfl, chars⟩ := recognizes_noColonToken.consumes within_noColonToken input rest found
  intro member
  apply noColon
  rw [firstSegment, List.takeWhile_append_of_pos chars]
  exact List.mem_append_right word member

theorem skip_pchar (noColon : ':' ∉ firstSegment input) : skip (consumePChar []) input = skip noColonToken input :=
  skip_congr (fun input => ':' ∉ firstSegment input) pchar_shrinks noColonToken_shrinks pchar_restores
    (token_restores noColonRange) (fun _ => pchar_eq) (fun _ _ => firstSegment_kept) input noColon

theorem consumePathRootless_eq (noColon : ':' ∉ firstSegment input) :
    consumePathRootless input = consumePathNoscheme input := by
  have segment : consumeSegmentNz input = consumeSegmentNzNc input := by
    change _ = atLeastOne noColonToken input
    rw [atLeastOne_eq noColonToken_shrinks (token_restores noColonRange), consumeSegmentNz, consumeSegment]
    simp only [both, many, pchar_eq noColon]
    cases found : noColonToken input with
    | mk answer rest =>
      cases answer with
      | false => rfl
      | true =>
        have kept := firstSegment_kept noColon ((pchar_eq noColon).trans found)
        simp only [skip_pchar kept]
  simp only [consumePathRootless, consumePathNoscheme, restoring, both, segment]

/-- Without a colon in its first segment, a text is the same as a hier-part and
as a relative-part. -/
theorem consumeHierPart_eq (noColon : ':' ∉ firstSegment input) :
    consumeHierPart input = consumeRelativePart input := by
  refine either_congr (restoring_restores _) (either_congr (restoring_restores _) ?_)
  simp only [either, consumePathRootless_eq noColon]

end Segments

section References

/-- A hier-part and its suffix, to the end of the text. -/
def consumeWhole : Consumer Char := both (both consumeHierPart consumeSuffix) (test List.isEmpty)

theorem within_scheme : Within authorityChar Rfc3986.scheme := by
  rw [Rfc3986.scheme, ← symbols_schemeChar, ← symbols_alpha]
  exact (within_symbols.mono (authorityChar_of (by decide) (by decide) (by decide))).mul
    (within_symbols.mono (authorityChar_of (by decide) (by decide) (by decide))).kstar

theorem consumeScheme_missed (noColon : ':' ∉ firstSegment input) : consumeScheme input = (false, input) := by
  cases found : consumeScheme input with
  | mk answer rest =>
    cases answer with
    | false => rw [restoring_restores _ input rest found]
    | true =>
      obtain ⟨word, member, rfl, colon⟩ := (recognizes_scheme input rest).mp found
      obtain ⟨tail, rfl⟩ := startsWith_iff.mp colon
      exfalso
      apply noColon
      have chars : ∀ c ∈ word, authorityChar c = true := within_scheme word member
      rw [firstSegment, List.takeWhile_append_of_pos chars]
      simp [authorityChar]

theorem consumeWhole_eq_true_iff : (consumeWhole input).1 = true ↔
    both consumeHierPart consumeSuffix input = (true, []) := both_isEmpty_iff

theorem validateUri_scheme (str : StringView) : validateUri ('x' :: ':' :: str) = (consumeWhole str).1 := by
  have advanced : both (both consumeScheme (both (consume (char ':')) consumeHierPart)) consumeSuffix ('x' :: ':' :: str) =
      both consumeHierPart consumeSuffix str := by
    simp only [both, consumeScheme_letter, consume_char_cons]
  rw [Bool.eq_iff_iff, validateUri_eq_true_iff, consumeUri, restoring_eq_true_iff, advanced, consumeWhole_eq_true_iff]

theorem validateUriReference_relative (noColon : ':' ∉ firstSegment input) :
    validateUriReference input = (consumeWhole input).1 := by
  have noScheme : consumeUri input = (false, input) := by
    simp only [consumeUri, restoring, both, consumeScheme_missed noColon]
  have part : both consumeHierPart consumeSuffix input = both consumeRelativePart consumeSuffix input := by
    simp only [both, consumeHierPart_eq noColon]
  rw [Bool.eq_iff_iff, validateUriReference_eq_true_iff, consumeRelativeRef_eq_true_iff, consumeWhole_eq_true_iff, part]
  simp [noScheme]

/-- A text whose first segment has no colon is a URI reference if and only if it
makes a URI behind a scheme. -/
theorem validateUriReference_iff_behind_scheme (str : StringView) (noColon : ':' ∉ firstSegment str) :
    validateUriReference str = true ↔ validateUri ('x' :: ':' :: str) = true := by
  rw [validateUri_scheme, validateUriReference_relative noColon]

theorem validateUriReference_iff_behind_scheme_path :
    validateUriReference ['a', '/', 'b', ':'] = true ↔ validateUri ['x', ':', 'a', '/', 'b', ':'] = true :=
  validateUriReference_iff_behind_scheme ['a', '/', 'b', ':'] (by decide)

end References
end UriParser
end Protovalidate.Lib
