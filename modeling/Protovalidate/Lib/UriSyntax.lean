import Mathlib.Tactic.Abel
import Protovalidate.Lib.Rfc3986
import Protovalidate.Lib.Uri

/-! The parser's character classes and tokens against the rules of the grammar. -/

namespace Protovalidate.Lib.UriParser

open Foundation Consumer
open scoped Computability

section Classes

variable {c : Char}

theorem symbols_concatRanges (ranges : List (Char → Bool)) :
    symbols (concatRanges ranges) = (ranges.map symbols).sum := by
  induction ranges with
  | nil =>
    ext w
    simp [mem_symbols, concatRanges, Language.notMem_zero]
  | cons range ranges ih =>
    rw [List.map_cons, List.sum_cons, ← ih, ← symbols_or]
    rfl

theorem symbols_char (c : Char) : symbols (char c) = literal [c] := symbols_beq c

theorem symbols_alpha : symbols alpha = Rfc3986.ALPHA := by
  have same : alpha = Char.isAlpha := by
    funext c
    have letters : c.isAlpha = (charRange 'A' 'Z' c || charRange 'a' 'z' c) := by
      change (decide (c.val ≥ 'A'.val ∧ c.val ≤ 'Z'.val) || (decide (c.val ≥ 'a'.val) && decide (c.val ≤ 'z'.val))) = _
      simp only [charRange, Char.le_def, ge_iff_le, Bool.decide_and]
    rw [letters, Bool.or_comm]
    simp only [alpha, concatRanges, List.any_cons, List.any_nil, Bool.or_false]
  rw [same]
  rfl

theorem symbols_num : symbols num = Rfc3986.DIGIT := by
  have same : num = Char.isDigit := by
    funext c
    simp only [num, charRange, Char.isDigit, Char.le_def, ge_iff_le]
  rw [same]
  rfl

theorem symbols_hexDigit : symbols hexDigit = Rfc3986.HEXDIG := by
  have same : hexDigit = Rfc3986.isHexDigit := by
    funext c
    simp only [hexDigit, num, concatRanges, charRange, List.any_cons, List.any_nil, Bool.or_false,
      Rfc3986.isHexDigit, Char.isDigit, Char.le_def, ge_iff_le, Bool.or_assoc]
  rw [same]
  rfl

theorem symbols_unreserved : symbols unreserved = Rfc3986.unreserved := by
  simp only [unreserved, Rfc3986.unreserved, symbols_concatRanges, List.map_cons, List.map_nil, List.sum_cons,
    List.sum_nil, symbols_alpha, symbols_num, symbols_char]
  abel

theorem symbols_subDelims : symbols subDelims = Rfc3986.subDelims := by
  simp only [subDelims, Rfc3986.subDelims, symbols_concatRanges, List.map_cons, List.map_nil, List.sum_cons,
    List.sum_nil, symbols_char]
  abel

end Classes

section Tokens

theorem recognizes_consume (range : Char → Bool) : Recognizes (consume range) (symbols range) Anything :=
  recognizes_one range

theorem recognizes_char (c : Char) : Recognizes (consume (char c)) (literal [c]) Anything := by
  rw [← symbols_char]
  exact recognizes_consume (char c)

theorem recognizes_percentEncoded : Recognizes consumePercentEncoded Rfc3986.pctEncoded Anything := by
  intro input
  have read := (recognizes_char '%' input).both
    (fun rest _ => (recognizes_consume hexDigit rest).both (fun rest _ => recognizes_consume hexDigit rest)
      fun _ _ _ _ => trivial) fun _ _ _ _ => trivial
  rw [symbols_hexDigit, ← mul_assoc] at read
  exact read.restoring

theorem leads_pctEncoded : Leads (char '%') Rfc3986.pctEncoded :=
  (Leads.mul (leads_literal (by decide))).mul

/-- Where a token of the class or a percent encoding can start. -/
def tokenStart (range : Char → Bool) (c : Char) : Bool := range c || char '%' c

variable {range : Char → Bool} {holds : StringView → Bool}

theorem recognizes_token (range : Char → Bool) (notPercent : range '%' = false) :
    Recognizes (either (consume range) consumePercentEncoded) (symbols range + Rfc3986.pctEncoded) Anything := by
  intro input
  refine (recognizes_consume range input).either_leads (one_restores range) (recognizes_percentEncoded input)
    leads_symbols leads_pctEncoded fun c accepted => ?_
  rw [← Bool.not_eq_true, char, beq_iff_eq]
  rintro rfl
  rw [notPercent] at accepted
  cases accepted

theorem token_restores (range : Char → Bool) : Restores (either (consume range) consumePercentEncoded) :=
  Restores.either (one_restores range) (restoring_restores _)

theorem leads_token (range : Char → Bool) :
    Leads (tokenStart range) (symbols range + Rfc3986.pctEncoded) :=
  (leads_symbols.mono fun c accepted => by simp [tokenStart, accepted]).add
    (leads_pctEncoded.mono fun c accepted => by simp [tokenStart, accepted])

theorem token_misses (notPercent : range '%' = false) {input : StringView}
    (stops : Stops (tokenStart range) input) : Misses (either (consume range) consumePercentEncoded) input :=
  (recognizes_token range notPercent input).misses (leads_token range) stops

/-- A greedy run of tokens in front of a test that no token start passes. -/
theorem recognizes_tokens (range : Char → Bool) (notPercent : range '%' = false)
    (stops : ∀ rest, holds rest = true → Stops (tokenStart range) rest) :
    Recognizes (restoring (both (many (either (consume range) consumePercentEncoded)) (test holds)))
      (symbols range + Rfc3986.pctEncoded)∗ (fun rest => holds rest = true) := fun input =>
  ((recognizes_token range notPercent).many_test (leads_token range).nonempty (token_restores range)
    (fun _ _ _ => trivial) (fun rest follows => ⟨trivial, token_misses notPercent (stops rest follows)⟩)
    input).restoring

end Tokens

section Ends

variable {rest : StringView} {accepts : Char → Bool}

theorem startsWith_iff {c : Char} : startsWith c rest = true ↔ ∃ tail, rest = c :: tail := by
  rw [startsWith, beq_iff_eq, List.head?_eq_some_iff]

theorem isPathEnd_iff :
    isPathEnd rest = true ↔ rest = [] ∨ (∃ tail, rest = '?' :: tail) ∨ ∃ tail, rest = '#' :: tail := by
  simp only [isPathEnd, Bool.or_eq_true, List.isEmpty_iff, startsWith_iff, or_assoc]

theorem isAuthorityEnd_iff : isAuthorityEnd rest = true ↔
    rest = [] ∨ (∃ tail, rest = '?' :: tail) ∨ (∃ tail, rest = '#' :: tail) ∨ ∃ tail, rest = '/' :: tail := by
  simp only [isAuthorityEnd, Bool.or_eq_true, List.isEmpty_iff, startsWith_iff, or_assoc]

theorem stops_of_isPathEnd (question : accepts '?' = false) (hash : accepts '#' = false)
    (ends : isPathEnd rest = true) : Stops accepts rest := by
  obtain rfl | ⟨tail, rfl⟩ | ⟨tail, rfl⟩ := isPathEnd_iff.mp ends
  · exact stops_nil
  · exact stops_cons.mpr question
  · exact stops_cons.mpr hash

theorem stops_of_isAuthorityEnd (question : accepts '?' = false) (hash : accepts '#' = false)
    (slash : accepts '/' = false) (ends : isAuthorityEnd rest = true) : Stops accepts rest := by
  obtain rfl | ⟨tail, rfl⟩ | ⟨tail, rfl⟩ | ⟨tail, rfl⟩ := isAuthorityEnd_iff.mp ends
  · exact stops_nil
  · exact stops_cons.mpr question
  · exact stops_cons.mpr hash
  · exact stops_cons.mpr slash

end Ends

section Paths

variable {input rest : StringView}

/-- The class of `consumePChar`. -/
def pcharRange (additional : List (Char → Bool)) : Char → Bool :=
  concatRanges ([unreserved, subDelims, char ':', char '@'] ++ additional)

theorem symbols_pcharRange :
    symbols (pcharRange []) + Rfc3986.pctEncoded = Rfc3986.pchar := by
  simp only [pcharRange, List.append_nil, symbols_concatRanges, List.map_cons, List.map_nil, List.sum_cons,
    List.sum_nil, symbols_unreserved, symbols_subDelims, symbols_char, Rfc3986.pchar]
  abel

theorem symbols_queryRange : symbols (pcharRange [char '/', char '?']) + Rfc3986.pctEncoded =
    Rfc3986.pchar + literal ['/'] + literal ['?'] := by
  simp only [pcharRange, List.cons_append, List.nil_append, symbols_concatRanges, List.map_cons, List.map_nil,
    List.sum_cons, List.sum_nil, symbols_unreserved, symbols_subDelims, symbols_char, Rfc3986.pchar]
  abel

theorem recognizes_pchar : Recognizes (consumePChar []) Rfc3986.pchar Anything := by
  rw [← symbols_pcharRange]
  exact recognizes_token (pcharRange []) (by decide)

theorem pchar_restores : Restores (consumePChar []) := token_restores (pcharRange [])

theorem leads_pchar : Leads (tokenStart (pcharRange [])) Rfc3986.pchar := by
  rw [← symbols_pcharRange]
  exact leads_token (pcharRange [])

/-- No further character of a segment comes next. -/
def SegmentEnd (rest : StringView) : Prop := Anything rest ∧ Misses (consumePChar []) rest

theorem segmentEnd_of_stops (stops : Stops (tokenStart (pcharRange [])) rest) : SegmentEnd rest :=
  ⟨trivial, (recognizes_pchar rest).misses leads_pchar stops⟩

theorem segmentEnd_of_isPathEnd (ends : isPathEnd rest = true) : SegmentEnd rest :=
  segmentEnd_of_stops (stops_of_isPathEnd (by decide) (by decide) ends)

theorem recognizes_segment : Recognizes consumeSegment Rfc3986.segment SegmentEnd := fun _ =>
  recognizes_pchar.many leads_pchar.nonempty pchar_restores (fun _ _ _ => trivial) trivial

theorem recognizes_segmentNz : Recognizes consumeSegmentNz Rfc3986.segmentNz SegmentEnd := fun input =>
  (recognizes_pchar input).both (fun rest _ => recognizes_segment rest) fun _ _ _ _ => trivial

theorem leads_segmentNz : Leads (tokenStart (pcharRange [])) Rfc3986.segmentNz := leads_pchar.mul

theorem recognizes_slashSegment :
    Recognizes (both (consume (char '/')) consumeSegment) (literal ['/'] * Rfc3986.segment) SegmentEnd := by
  intro input
  exact (recognizes_char '/' input).both (fun rest _ => recognizes_segment rest) fun _ _ _ _ => trivial

theorem leads_slashSegment : Leads (char '/') (literal ['/'] * Rfc3986.segment) :=
  Leads.mul (leads_literal (by decide))

theorem segmentEnd_slash (u : StringView) (member : u ∈ literal ['/'] * Rfc3986.segment) (rest : StringView) :
    SegmentEnd (u ++ rest) := by
  obtain ⟨c, tail, rfl, isSlash⟩ := leads_slashSegment u member
  obtain rfl : c = '/' := beq_iff_eq.mp isSlash
  exact segmentEnd_of_stops (stops_cons.mpr (by decide))

theorem segmentEnd_segments (u : StringView) (member : u ∈ (literal ['/'] * Rfc3986.segment)∗)
    (rest : StringView) (ends : isPathEnd rest = true) : SegmentEnd (u ++ rest) := by
  obtain ⟨parts, rfl, tokens⟩ := Language.mem_kstar.mp member
  cases parts with
  | nil => exact segmentEnd_of_isPathEnd ends
  | cons part parts =>
    rw [List.flatten_cons, List.append_assoc]
    exact segmentEnd_slash part (tokens part (by simp)) _

/-- The segments up to the end of a path. -/
theorem recognizes_segments : Recognizes (both consumeSegments (test isPathEnd))
    (literal ['/'] * Rfc3986.segment)∗ (fun rest => isPathEnd rest = true) := by
  refine recognizes_slashSegment.many_test leads_slashSegment.nonempty
    (Restores.both_many (one_restores _) _) segmentEnd_slash fun rest ends => ⟨segmentEnd_of_isPathEnd ends, ?_⟩
  exact (recognizes_slashSegment rest).misses leads_slashSegment (stops_of_isPathEnd (by decide) (by decide) ends)

theorem recognizes_pathAbempty :
    Recognizes consumePathAbempty Rfc3986.pathAbempty (fun rest => isPathEnd rest = true) :=
  fun input => (recognizes_segments input).restoring

theorem recognizes_pathRootless :
    Recognizes consumePathRootless Rfc3986.pathRootless (fun rest => isPathEnd rest = true) := fun input =>
  ((recognizes_segmentNz input).both (fun rest _ => recognizes_segments rest) segmentEnd_segments).restoring

theorem recognizes_pathEmpty :
    Recognizes consumePathEmpty Rfc3986.pathEmpty (fun rest => isPathEnd rest = true) :=
  recognizes_test isPathEnd

theorem recognizes_pathAbsolute :
    Recognizes consumePathAbsolute Rfc3986.pathAbsolute (fun rest => isPathEnd rest = true) := by
  intro input
  rw [Rfc3986.pathAbsolute, add_comm]
  refine RecognizesAt.restoring ((recognizes_char '/' input).both (fun rest _ => ?_) fun _ _ _ _ => trivial)
  refine (recognizes_segmentNz rest).whenever_both ?_ (fun rest _ => recognizes_segments rest)
    (fun _ => recognizes_test isPathEnd rest) segmentEnd_segments ?_
  · intro input rest failed
    simp only [consumeSegmentNz, both, consumeSegment, many] at failed
    split at failed
    · simp at failed
    · rename_i middle missed
      obtain ⟨-, rfl⟩ := Prod.mk.inj failed
      exact pchar_restores input _ missed
  · intro behind found w empty after same ends
    obtain rfl : w = [] := empty
    obtain rfl : after = rest := same
    have stops : Stops (tokenStart (pcharRange [])) after := stops_of_isPathEnd (by decide) (by decide) ends
    exact (recognizes_segmentNz after).misses leads_segmentNz stops behind found

/-- The class of `consumeSegmentNzNc`. -/
def noColonRange : Char → Bool := concatRanges [unreserved, subDelims, char '@']

theorem symbols_noColonRange : symbols noColonRange + Rfc3986.pctEncoded =
    Rfc3986.unreserved + Rfc3986.pctEncoded + Rfc3986.subDelims + literal ['@'] := by
  simp only [noColonRange, symbols_concatRanges, List.map_cons, List.map_nil, List.sum_cons, List.sum_nil,
    symbols_unreserved, symbols_subDelims, symbols_char]
  abel

theorem recognizes_pathNoscheme :
    Recognizes consumePathNoscheme Rfc3986.pathNoscheme (fun rest => isPathEnd rest = true) := by
  intro input
  rw [Rfc3986.pathNoscheme, Rfc3986.segmentNzNc, ← symbols_noColonRange]
  have notPercent : noColonRange '%' = false := by decide
  refine RecognizesAt.restoring (RecognizesAt.both (((recognizes_token noColonRange notPercent).atLeastOne
    (leads_token noColonRange).nonempty (token_restores noColonRange) fun _ _ _ => trivial) input)
    (fun rest _ => recognizes_segments rest) fun u member rest ends => ⟨trivial, ?_⟩)
  apply token_misses notPercent
  obtain ⟨parts, rfl, tokens⟩ := Language.mem_kstar.mp member
  cases parts with
  | nil => exact stops_of_isPathEnd (by decide) (by decide) ends
  | cons part parts =>
    obtain ⟨c, tail, rfl, isSlash⟩ := leads_slashSegment part (tokens part (by simp))
    obtain rfl : c = '/' := beq_iff_eq.mp isSlash
    exact stops_cons.mpr (by decide)

theorem recognizes_query : Recognizes consumeQuery Rfc3986.query
    (fun rest => (rest.isEmpty || startsWith '#' rest) = true) := by
  rw [Rfc3986.query, ← symbols_queryRange]
  refine recognizes_tokens (pcharRange [char '/', char '?']) (by decide) fun rest ends => ?_
  rw [Bool.or_eq_true, List.isEmpty_iff, startsWith_iff] at ends
  obtain rfl | ⟨tail, rfl⟩ := ends
  · exact stops_nil
  · exact stops_cons.mpr (by decide)

theorem recognizes_fragment : Recognizes consumeFragment Rfc3986.fragment (fun rest => rest.isEmpty = true) := by
  rw [Rfc3986.fragment, ← symbols_queryRange]
  refine recognizes_tokens (pcharRange [char '/', char '?']) (by decide) fun rest ends => ?_
  obtain rfl := List.isEmpty_iff.mp ends
  exact stops_nil

end Paths

end Protovalidate.Lib.UriParser
