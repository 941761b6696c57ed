import Protovalidate.Lib.UriGrammar

/-! URIs and URI references: the alternatives of a hier-part and of a
relative-part, the suffix, and the whole grammar. -/

namespace Protovalidate.Lib

open Foundation Consumer
open scoped Computability

namespace UriParser

variable {input rest : StringView}

/-- The characters of a scheme behind its first. -/
def schemeChar : Char → Bool := concatRanges [alphaNum, char '+', char '-', char '.']

/-- The text behind the scheme and its colon, or all of it. -/
def afterScheme : StringView → StringView
  | [] => []
  | c :: tail =>
    if alpha c && startsWith ':' (tail.dropWhile schemeChar) then (tail.dropWhile schemeChar).tail else c :: tail

/-- The authority component of a URI reference, if it has one. -/
def authorityComponent (str : StringView) : Option StringView :=
  match afterScheme str with
  | '/' :: '/' :: behind => some (authorityOf behind)
  | _ => none

section Parts

/-- Where two slashes come next, the authority behind them has a plain host. -/
def PlainAuthority (input : StringView) : Prop :=
  ∀ behind, input = '/' :: '/' :: behind → PlainHost (authorityOf behind)

def networkPath : Language Char := literal ['/', '/'] * (Rfc3986.authority * Rfc3986.pathAbempty)

theorem isAuthorityEnd_pathAbempty (v : StringView) (member : v ∈ Rfc3986.pathAbempty) (rest : StringView)
    (ends : isPathEnd rest = true) : isAuthorityEnd (v ++ rest) = true := by
  obtain ⟨parts, rfl, tokens⟩ := Language.mem_kstar.mp member
  cases parts with
  | nil =>
    rw [isPathEnd] at ends
    simp [isAuthorityEnd, ends]
  | cons part parts =>
    obtain ⟨c, tail, rfl, isSlash⟩ := leads_slashSegment part (tokens part (by simp))
    obtain rfl : c = '/' := beq_iff_eq.mp isSlash
    simp [isAuthorityEnd, startsWith]

theorem recognizesAt_networkPath (plain : PlainAuthority input) :
    RecognizesAt consumeNetworkPath networkPath (fun rest => isPathEnd rest = true) input := by
  refine (recognizes_word ['/', '/'] input).both (fun behind found => ?_) fun _ _ _ _ => trivial
  obtain ⟨_, rfl, rfl, -⟩ := (recognizes_word ['/', '/'] input behind).mp found
  exact (recognizesAt_authority (plain behind rfl)).both (fun rest _ => recognizes_pathAbempty rest)
    isAuthorityEnd_pathAbempty

/-- Only a path that starts with a slash can be read where a slash comes next. -/
theorem slash_not_started {accepts : Char → Bool} {language : Language Char} (leads : Leads accepts language)
    (slash : accepts '/' = false) {v after tail : StringView} (member : v ∈ language + Rfc3986.pathEmpty)
    (ends : isPathEnd after = true) : v ++ after ≠ '/' :: tail := by
  intro same
  rcases member with inLanguage | empty
  · obtain ⟨c, v, rfl, accepted⟩ := leads v inLanguage
    obtain ⟨rfl, -⟩ := List.cons.inj same
    rw [slash] at accepted
    cases accepted
  · obtain rfl : v = [] := empty
    rw [List.nil_append] at same
    simp [same, isPathEnd_iff] at ends

theorem leads_pathAbsolute : Leads (char '/') Rfc3986.pathAbsolute := Leads.mul (leads_literal (by decide))

/-- An absolute path has no empty first segment. -/
theorem slashes_not_absolute {v after tail : StringView} (member : v ∈ Rfc3986.pathAbsolute)
    (ends : isPathEnd after = true) : v ++ after ≠ '/' :: '/' :: tail := by
  intro same
  obtain ⟨_, rfl, v, inRest, rfl⟩ := Language.mem_mul.mp member
  rw [Rfc3986.pathAbsolute, add_comm] at member
  have leads : Leads (tokenStart (pcharRange [])) (Rfc3986.segmentNz * (literal ['/'] * Rfc3986.segment)∗) :=
    leads_segmentNz.mul
  exact slash_not_started leads (by decide) (add_comm (1 : Language Char) _ ▸ inRest) ends (List.cons.inj same).2

/-- The alternatives of a hier-part or a relative-part, which differ in one. -/
def consumePart (path : Consumer Char) : Consumer Char :=
  either (restoring consumeNetworkPath) (either consumePathAbsolute (either path consumePathEmpty))

theorem recognizesAt_part {path : Consumer Char} {language : Language Char} {accepts : Char → Bool}
    (plain : PlainAuthority input) (reads : RecognizesAt path language (fun rest => isPathEnd rest = true) input)
    (restores : Restores path) (leads : Leads accepts language) (slash : accepts '/' = false)
    (question : accepts '?' = false) (hash : accepts '#' = false) :
    RecognizesAt (consumePart path)
      (networkPath + (Rfc3986.pathAbsolute + (language + Rfc3986.pathEmpty)))
      (fun rest => isPathEnd rest = true) input := by
  have network := recognizesAt_networkPath plain
  refine network.restoring.either (restoring_restores _)
    ((recognizes_pathAbsolute input).either (restoring_restores _)
      (reads.either restores (recognizes_pathEmpty input) ?_) ?_) ?_
  · intro rest found v empty after same ends
    obtain rfl : v = [] := empty
    obtain rfl : after = input := same
    exact reads.misses leads (stops_of_isPathEnd question hash ends) rest found
  · intro rest found v member after same ends
    obtain ⟨u, inAbsolute, split, -⟩ := (recognizes_pathAbsolute input rest).mp found
    obtain ⟨c, tail, rfl, isSlash⟩ := leads_pathAbsolute u inAbsolute
    obtain rfl : c = '/' := beq_iff_eq.mp isSlash
    exact slash_not_started leads slash member ends (same.trans split.symm)
  · intro rest found v member after same ends
    obtain ⟨u, inNetwork, split, -⟩ := (network.restoring rest).mp found
    obtain ⟨_, rfl, behind, -, rfl⟩ := Language.mem_mul.mp inNetwork
    have slashes : v ++ after = '/' :: '/' :: (behind ++ rest) := same.trans split.symm
    rcases member with inAbsolute | member
    · exact slashes_not_absolute inAbsolute ends slashes
    · exact slash_not_started leads slash member ends slashes

theorem recognizesAt_hierPart (plain : PlainAuthority input) :
    RecognizesAt consumeHierPart Rfc3986.hierPart (fun rest => isPathEnd rest = true) input := by
  have language : Rfc3986.hierPart =
      networkPath + (Rfc3986.pathAbsolute + (Rfc3986.pathRootless + Rfc3986.pathEmpty)) := by
    simp only [Rfc3986.hierPart, networkPath, mul_assoc, add_assoc]
  rw [language]
  exact recognizesAt_part plain (recognizes_pathRootless input) (restoring_restores _) leads_segmentNz.mul
    (by decide) (by decide) (by decide)

theorem leads_pathNoscheme : Leads (tokenStart noColonRange) Rfc3986.pathNoscheme := by
  rw [Rfc3986.pathNoscheme, Rfc3986.segmentNzNc, ← symbols_noColonRange]
  exact (leads_token noColonRange).mul.mul

theorem recognizesAt_relativePart (plain : PlainAuthority input) :
    RecognizesAt consumeRelativePart Rfc3986.relativePart (fun rest => isPathEnd rest = true) input := by
  have language : Rfc3986.relativePart =
      networkPath + (Rfc3986.pathAbsolute + (Rfc3986.pathNoscheme + Rfc3986.pathEmpty)) := by
    simp only [Rfc3986.relativePart, networkPath, mul_assoc, add_assoc]
  rw [language]
  exact recognizesAt_part plain (recognizes_pathNoscheme input) (restoring_restores _) leads_pathNoscheme
    (by decide) (by decide) (by decide)

end Parts

section Suffix

def suffix : Language Char := (1 + literal ['?'] * Rfc3986.query) * (1 + literal ['#'] * Rfc3986.fragment)

theorem misses_char {c : Char} : Misses (consume (char c)) input ↔ ∀ tail, input ≠ c :: tail := by
  simp only [Misses, ne_eq, consume_char_eq_true_iff]

theorem literal_starts {c : Char} {language : Language Char} {v : StringView}
    (member : v ∈ 1 + literal [c] * language) : v = [] ∨ ∃ tail, v = c :: tail := by
  rcases member with empty | present
  · exact .inl empty
  · obtain ⟨_, rfl, tail, -, rfl⟩ := Language.mem_mul.mp present
    exact .inr ⟨tail, rfl⟩

theorem recognizesAt_suffix (ends : isPathEnd input = true) :
    RecognizesAt consumeSuffix suffix (fun rest => rest.isEmpty = true) input := by
  refine RecognizesAt.both ((recognizes_char '?' input).whenever (one_restores _)
    (fun rest _ => recognizes_query rest) (fun _ _ _ _ => trivial) ?_) (fun rest found => ?_) ?_
  · rw [misses_char, Bool.or_eq_true, List.isEmpty_iff, startsWith_iff]
    obtain rfl | ⟨tail, rfl⟩ | ⟨tail, rfl⟩ := isPathEnd_iff.mp ends <;> simp
  · refine (recognizes_char '#' rest).whenever (one_restores _) (fun rest _ => recognizes_fragment rest)
      (fun _ _ _ _ => trivial) ?_
    have follows : (rest.isEmpty || startsWith '#' rest) = true := by
      simp only [whenever] at found
      split at found
      · rename_i behind _
        obtain ⟨-, -, -, follows⟩ := (recognizes_query behind rest).mp found
        exact follows
      · rename_i behind missed
        obtain ⟨-, rfl⟩ := Prod.mk.inj found
        obtain rfl : behind = input := one_restores _ _ _ missed
        have absent : ∀ tail, behind ≠ '?' :: tail := by
          rintro tail rfl
          simp [consume_char_cons] at missed
        rw [Bool.or_eq_true, List.isEmpty_iff, startsWith_iff]
        obtain empty | ⟨tail, same⟩ | present := isPathEnd_iff.mp ends
        · exact .inl empty
        · exact (absent tail same).elim
        · exact .inr present
    rw [misses_char, List.isEmpty_iff]
    rw [Bool.or_eq_true, List.isEmpty_iff, startsWith_iff] at follows
    obtain rfl | ⟨tail, rfl⟩ := follows <;> simp
  · intro v member rest empty
    obtain rfl := List.isEmpty_iff.mp empty
    obtain rfl | ⟨tail, rfl⟩ := literal_starts member <;> rfl

theorem isPathEnd_suffix (v : StringView) (member : v ∈ suffix) (rest : StringView)
    (empty : rest.isEmpty = true) : isPathEnd (v ++ rest) = true := by
  obtain rfl := List.isEmpty_iff.mp empty
  obtain ⟨query, inQuery, fragment, inFragment, rfl⟩ := Language.mem_mul.mp member
  obtain rfl | ⟨tail, rfl⟩ := literal_starts inQuery
  · obtain rfl | ⟨tail, rfl⟩ := literal_starts inFragment <;> rfl
  · rfl

end Suffix

section Scheme

theorem symbols_schemeChar :
    symbols schemeChar = Rfc3986.ALPHA + Rfc3986.DIGIT + literal ['+'] + literal ['-'] + literal ['.'] := by
  simp only [schemeChar, alphaNum, symbols_concatRanges, List.map_cons, List.map_nil, List.sum_cons, List.sum_nil,
    symbols_alpha, symbols_num, symbols_char]
  abel

theorem recognizes_scheme :
    Recognizes consumeScheme Rfc3986.scheme (fun rest => startsWith ':' rest = true) := by
  intro input
  rw [Rfc3986.scheme, ← symbols_schemeChar, ← symbols_alpha]
  refine RecognizesAt.restoring ((recognizes_consume alpha input).both (fun rest _ => ?_) fun _ _ _ _ => trivial)
  refine (recognizes_consume schemeChar).many_test leads_symbols.nonempty (one_restores _)
    (fun _ _ _ => trivial) (fun rest starts => ⟨trivial, ?_⟩) rest
  obtain ⟨tail, rfl⟩ := startsWith_iff.mp starts
  exact (recognizes_consume schemeChar _).misses leads_symbols (stops_cons.mpr (by decide))

theorem consumeScheme_letter (str : StringView) : consumeScheme ('x' :: ':' :: str) = (true, ':' :: str) := by
  refine (recognizes_scheme _ _).mpr ⟨['x'], ?_, rfl, rfl⟩
  rw [Rfc3986.scheme, ← symbols_alpha]
  exact Language.mem_mul.mpr ⟨['x'], ⟨'x', by decide, rfl⟩, [], Language.nil_mem_kstar _, rfl⟩

/-- The scheme the parser finds is the one that delimits the authority. -/
theorem afterScheme_of_consumeScheme (found : consumeScheme input = (true, ':' :: rest)) :
    afterScheme input = rest := by
  obtain ⟨word, member, rfl, -⟩ := (recognizes_scheme input _).mp found
  rw [Rfc3986.scheme, ← symbols_schemeChar, ← symbols_alpha] at member
  obtain ⟨_, ⟨c, isAlpha, rfl⟩, tail, inTail, rfl⟩ := Language.mem_mul.mp member
  have dropped : (tail ++ ':' :: rest).dropWhile schemeChar = ':' :: rest := by
    rw [List.dropWhile_append_of_pos (mem_kstar_symbols.mp inTail)]
    rfl
  rw [List.append_assoc, List.singleton_append, afterScheme, dropped, isAlpha]
  rfl

end Scheme

section References

/-- The authority component of the input, if there is one, has a plain host. -/
def PlainComponent (str : StringView) : Prop := ∀ authority, authorityComponent str = some authority →
  PlainHost authority

theorem plainAuthority_afterScheme (plain : PlainComponent input)
    (found : consumeScheme input = (true, ':' :: rest)) : PlainAuthority rest := by
  rintro behind rfl
  apply plain
  rw [authorityComponent, afterScheme_of_consumeScheme found]
  rfl

theorem plainAuthority_input (plain : PlainComponent input) : PlainAuthority input := by
  rintro behind rfl
  exact plain _ rfl

theorem recognizesAt_uri (plain : PlainComponent input) :
    RecognizesAt consumeUri Rfc3986.uri (fun rest => rest.isEmpty = true) input := by
  have language : Rfc3986.uri = Rfc3986.scheme * (literal [':'] * Rfc3986.hierPart) * suffix := by
    simp only [Rfc3986.uri, suffix, mul_assoc]
  rw [language]
  have hier : RecognizesAt (both consumeScheme (both (consume (char ':')) consumeHierPart))
      (Rfc3986.scheme * (literal [':'] * Rfc3986.hierPart)) (fun rest => isPathEnd rest = true) input := by
    refine (recognizes_scheme input).both (fun rest found => ?_) fun v member rest _ => ?_
    · refine (recognizes_char ':' rest).both (fun behind advanced => ?_) fun _ _ _ _ => trivial
      obtain rfl := consume_char_eq_true_iff.mp advanced
      exact recognizesAt_hierPart (plainAuthority_afterScheme plain found)
    · obtain ⟨_, rfl, tail, -, rfl⟩ := Language.mem_mul.mp member
      rfl
  refine RecognizesAt.restoring (hier.both (fun rest found => ?_) isPathEnd_suffix)
  obtain ⟨-, -, -, ends⟩ := (hier rest).mp found
  exact recognizesAt_suffix ends

theorem consumeRelativeRef_eq_true_iff : consumeRelativeRef input = (true, rest) ↔
    both consumeRelativePart consumeSuffix input = (true, rest) := by
  simp only [consumeRelativeRef, both]
  split
  · rename_i behind missed
    simp [missed]
  · rename_i behind found
    simp only [found]
    split
    · rename_i behind suffixed
      simp [suffixed]
    · rename_i behind suffixed
      simp [suffixed]

theorem recognizesAt_relativeRef (plain : PlainComponent input) :
    RecognizesAt consumeRelativeRef Rfc3986.relativeRef (fun rest => rest.isEmpty = true) input := by
  have part := recognizesAt_relativePart (plainAuthority_input plain)
  have whole : RecognizesAt (both consumeRelativePart consumeSuffix) (Rfc3986.relativePart * suffix)
      (fun rest => rest.isEmpty = true) input :=
    part.both (fun rest found => recognizesAt_suffix ((part rest).mp found).choose_spec.2.2) isPathEnd_suffix
  rw [suffix, ← mul_assoc, ← Rfc3986.relativeRef] at whole
  intro rest
  rw [consumeRelativeRef_eq_true_iff, whole rest]

theorem validateUri_eq_true_iff : validateUri input = true ↔ consumeUri input = (true, []) := both_isEmpty_iff

theorem validateUriReference_eq_true_iff : validateUriReference input = true ↔
    consumeUri input = (true, []) ∨ (consumeUri input = (false, input) ∧ consumeRelativeRef input = (true, [])) :=
  both_isEmpty_iff.trans (either_eq_true_iff (restoring_restores _))

end References
end UriParser

open UriParser

/-- The two validators accept exactly the URIs and the URI references, unless
the authority has brackets or percent encodings behind its userinfo. -/
theorem validate_iff_derivable (str : StringView)
    (plain : ∀ authority, authorityComponent str = some authority →
      '[' ∉ afterUserinfo authority ∧ '%' ∉ afterUserinfo authority) :
    (validateUri str = true ↔ str ∈ Rfc3986.uri) ∧
      (validateUriReference str = true ↔ str ∈ Rfc3986.uriReference) := by
  have plain : PlainComponent str := plain
  have uri := recognizesAt_uri plain
  have relative := recognizesAt_relativeRef plain
  rw [validateUri_eq_true_iff, validateUriReference_eq_true_iff, relative.whole_iff, uri.whole_iff, Rfc3986.uriReference,
    Language.mem_add]
  refine ⟨Iff.rfl, or_congr_right' fun other => and_iff_right_iff_imp.mpr fun _ => ?_⟩
  cases answer : consumeUri str with
  | mk found rest =>
    cases found with
    | false => rw [restoring_restores _ _ _ answer]
    | true =>
      rw [uri.emptied answer] at answer
      exact absurd (uri.whole_iff.mp answer) other

theorem validate_iff_derivable_userinfo :
    (validateUri "x://a%40@h:1/p?q#f".toList = true ↔ "x://a%40@h:1/p?q#f".toList ∈ Rfc3986.uri) ∧
      (validateUriReference "x://a%40@h:1/p?q#f".toList = true ↔
        "x://a%40@h:1/p?q#f".toList ∈ Rfc3986.uriReference) := by
  refine validate_iff_derivable _ fun authority same => ?_
  have component : authorityComponent "x://a%40@h:1/p?q#f".toList = some "a%40@h:1".toList := by decide
  obtain rfl := Option.some.inj (component.symm.trans same)
  decide

end Protovalidate.Lib
