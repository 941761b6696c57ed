import Mathlib.Data.List.Chain
import Protovalidate.Lib.UriNetwork

/-! Hosts made of plain characters and percent-encoded code points: which
sequences of such tokens the parser reads to their end. -/

namespace Protovalidate.Lib

open Foundation Consumer

namespace UriParser

/-- A plain character, or the percent-encoded bytes of a Unicode scalar value. -/
inductive HostToken where
  | plain (c : Char) (allowed : unreserved c = true ∨ subDelims c = true)
  | encoded (scalar : Char) (triplets : List Triplet)
      (encodes : triplets.map Triplet.value = (String.utf8EncodeChar scalar).map UInt8.toNat)

namespace HostToken

def text : HostToken → StringView
  | plain c _ => [c]
  | encoded _ triplets _ => tripletsText triplets

/-- The digit behind an encoding is taken for a third digit of its last triplet. -/
def misread : HostToken → HostToken → Bool
  | encoded _ _ _, plain c _ => hexDigit c
  | _, _ => false

end HostToken

def hostText (tokens : List HostToken) : StringView := tokens.flatMap HostToken.text

@[simp] theorem hostText_nil : hostText [] = [] := rfl

@[simp] theorem hostText_cons (token : HostToken) (tokens : List HostToken) :
    hostText (token :: tokens) = token.text ++ hostText tokens := rfl

section Tokens

variable {c : Char} {triplets : List Triplet} {rest : StringView} {tokens : List HostToken}

theorem plainRange_of_allowed (allowed : unreserved c = true ∨ subDelims c = true) : plainRange c = true := by
  simpa [plainRange, concatRanges] using allowed

/-- Two encodings at the start of one text have the same length. -/
theorem triplets_length {triplets' : List Triplet} {rest' : StringView}
    (valid : validSequence (triplets.map Triplet.value) = true)
    (valid' : validSequence (triplets'.map Triplet.value) = true)
    (same : tripletsText triplets ++ rest = tripletsText triplets' ++ rest') :
    triplets.length = triplets'.length := by
  have announced : ∀ triplet more, validSequence ((triplet :: more).map Triplet.value) = true →
      more.length + 1 = if triplet.value ≤ 0x7f then 1 else (prefixSize triplet.value).getD 0 := by
    intro triplet more valid
    cases more with
    | nil =>
      have ascii : triplet.value ≤ 0x7f := by simpa [validSequence] using valid
      simp [ascii]
    | cons next more =>
      simp only [List.map_cons, validSequence, Bool.and_eq_true, Bool.not_eq_true', decide_eq_false_iff_not,
        beq_iff_eq, List.length_map] at valid
      simp [valid.1.1.1, valid.1.1.2]
  cases triplets with
  | nil => cases valid
  | cons triplet triplets =>
    cases triplets' with
    | nil => cases valid'
    | cons triplet' triplets' =>
      have first : triplet.value = triplet'.value := by
        simp only [tripletsText_cons, Triplet.text, List.cons_append, List.nil_append, List.cons.injEq] at same
        rw [Triplet.value, Triplet.value, same.2.1, same.2.2.1]
      rw [List.length_cons, List.length_cons, announced _ _ valid, announced _ _ valid', first]

theorem tripletsText_length (triplets : List Triplet) : (tripletsText triplets).length = 3 * triplets.length := by
  induction triplets with
  | nil => rfl
  | cons triplet triplets ih =>
    rw [tripletsText_cons, List.length_append, ih, List.length_cons]
    simp only [Triplet.text, List.length_cons, List.length_nil]
    omega

theorem nameToken_plainChar (plain : plainRange c = true) (rest : StringView) :
    nameToken plainRange (c :: rest) = (true, rest) := by
  simp [nameToken, either, consume, one, plain]

/-- An encoding is read if and only if no further digit follows it. -/
theorem nameToken_triplets (valid : validSequence (triplets.map Triplet.value) = true) {rest' : StringView} :
    nameToken plainRange (tripletsText triplets ++ rest) = (true, rest') ↔ rest' = rest ∧ Stops hexDigit rest := by
  have missed : consume plainRange (tripletsText triplets ++ rest) = (false, tripletsText triplets ++ rest) := by
    cases triplets with
    | nil => cases valid
    | cons triplet triplets =>
      have percent : plainRange '%' = false := by decide
      simp [tripletsText_cons, Triplet.text, consume, one, percent]
  simp only [nameToken, either, missed]
  rw [consumePercentEncodedUTF8CodePoint_eq_true_iff]
  constructor
  · rintro ⟨triplets', valid', same, stops⟩
    have lengths := congrArg (3 * ·) (triplets_length valid valid' same)
    simp only [← tripletsText_length] at lengths
    obtain ⟨-, rfl⟩ := List.append_inj same lengths
    exact ⟨rfl, stops⟩
  · rintro ⟨rfl, stops⟩
    exact ⟨triplets, valid, rfl, stops⟩

/-- A token is followed by a digit where its successor is misread. -/
theorem stops_hostText (scalar : Char) (triplets : List Triplet)
    (encodes : triplets.map Triplet.value = (String.utf8EncodeChar scalar).map UInt8.toNat) :
    Stops hexDigit (hostText tokens) ↔
      ∀ next ∈ tokens.head?, (HostToken.encoded scalar triplets encodes).misread next = false := by
  cases tokens with
  | nil => simp
  | cons next tokens =>
    cases next with
    | plain c allowed => simp [HostToken.text, HostToken.misread]
    | encoded scalar' triplets' encodes' =>
      have valid := validSequence_utf8EncodeChar scalar'
      rw [← encodes'] at valid
      cases triplets' with
      | nil => cases valid
      | cons triplet more =>
        simp only [hostText_cons, HostToken.text, tripletsText_cons, Triplet.text, HostToken.misread, List.head?_cons]
        constructor
        · rintro - next member
          cases member
          rfl
        · exact fun _ => stops_cons.mpr (by decide)

/-- All tokens of a host are read if and only if none is misread. -/
theorem skip_hostText (tokens : List HostToken) :
    skip (nameToken plainRange) (hostText tokens) = [] ↔
      tokens.IsChain fun token next => token.misread next = false := by
  have shrinks := nameToken_shrinks plainRange
  have restores := nameToken_restores plainRange
  induction tokens with
  | nil =>
    have ends : skip (nameToken plainRange) [] = [] := skip_leave shrinks restores fun rest found => by cases found
    simp [ends]
  | cons token tokens ih =>
    refine Iff.trans ?_ (List.isChain_cons.trans (and_congr_right' ih.symm)).symm
    cases token with
    | plain c allowed =>
      have read := nameToken_plainChar (plainRange_of_allowed allowed) (hostText tokens)
      rw [hostText_cons, HostToken.text, List.singleton_append, skip_again shrinks read]
      simp [HostToken.misread]
    | encoded scalar triplets encodes =>
      have valid := validSequence_utf8EncodeChar scalar
      rw [← encodes] at valid
      rw [← stops_hostText scalar triplets encodes, hostText_cons, HostToken.text]
      by_cases stops : Stops hexDigit (hostText tokens)
      · rw [skip_again shrinks ((nameToken_triplets valid).mpr ⟨rfl, stops⟩)]
        simp [stops]
      · have missed : Misses (nameToken plainRange) (tripletsText triplets ++ hostText tokens) :=
          fun rest found => stops ((nameToken_triplets valid).mp found).2
        rw [skip_leave shrinks restores missed]
        cases triplets with
        | nil => cases valid
        | cons triplet more => simp [Triplet.text, stops]

/-- The characters of hosts, none of which ends one. -/
theorem hostText_chars (tokens : List HostToken) : ∀ c ∈ hostText tokens, tokenStart plainRange c = true := by
  intro c member
  obtain ⟨token, -, inToken⟩ := List.mem_flatMap.mp member
  cases token with
  | plain d allowed =>
    obtain rfl := List.mem_singleton.mp inToken
    simp [tokenStart, plainRange_of_allowed allowed]
  | encoded scalar triplets encodes => exact tripletsText_chars triplets c inToken

theorem not_mem_hostText (tokens : List HostToken) {d : Char} (other : tokenStart plainRange d = false) :
    d ∉ hostText tokens := by
  intro member
  simp [hostText_chars tokens d member] at other

theorem consumeHost_hostText (tokens : List HostToken) : consumeHost (hostText tokens) =
    if skip (nameToken plainRange) (hostText tokens) = [] then (true, []) else (false, hostText tokens) := by
  have noBracket : startsWith '[' (hostText tokens) = false := by
    rw [← Bool.not_eq_true, startsWith_iff]
    rintro ⟨tail, same⟩
    exact not_mem_hostText tokens (show tokenStart plainRange '[' = false by decide) (by simp [same])
  have name : consumeRegName (hostText tokens) =
      restoring (both (many (nameToken plainRange)) (test hostEnd)) (hostText tokens) := rfl
  obtain ⟨word, same, -⟩ := (nameToken_consumes plainRange (by decide)).many (nameToken_restores _)
    (nameToken_shrinks _) (hostText tokens) _ rfl
  simp only [consumeHost, either, both, test, noBracket, name, restoring, many]
  generalize skip (nameToken plainRange) (hostText tokens) = left at same ⊢
  cases left with
  | nil => rfl
  | cons c tail =>
    have notEnd : hostEnd (c :: tail) = false := by
      have member : c ∈ hostText tokens := by simp [← same]
      have differs {d : Char} (other : tokenStart plainRange d = false) : c ≠ d := by
        rintro rfl
        exact not_mem_hostText tokens other member
      simp [hostEnd, isAuthorityEnd, startsWith, differs (show tokenStart plainRange ':' = false by decide),
        differs (show tokenStart plainRange '?' = false by decide),
        differs (show tokenStart plainRange '#' = false by decide),
        differs (show tokenStart plainRange '/' = false by decide)]
    simp [notEnd]

theorem networkAccepted_hostText (tokens : List HostToken) :
    NetworkAccepted (hostText tokens) ↔ tokens.IsChain fun token next => token.misread next = false := by
  have noUserinfo : consumeUserInfo (hostText tokens) = (false, hostText tokens) :=
    consumeUserInfo_missed (not_mem_hostText tokens (by decide))
  have host := consumeHost_hostText tokens
  rw [← skip_hostText]
  split at host
  · rename_i whole
    simp [NetworkAccepted, consumeAuthority_of_host noUserinfo host rfl, nil_behindAuthority, whole]
  · rename_i partly
    simp [NetworkAccepted, consumeAuthority_no_host noUserinfo host, partly]

end Tokens
end UriParser

open UriParser

/-- A percent-encoded host is accepted if and only if no encoding stands right
in front of a plain hexadecimal digit. -/
theorem validateUri_host_iff (tokens : List HostToken) :
    validateUri ("x://".toList ++ tokens.flatMap HostToken.text) = true ↔
      tokens.IsChain fun token next => token.misread next = false := by
  rw [← networkAccepted_hostText, ← validateUri_network]
  rfl

/-- The host `Aa` with its first letter encoded. -/
theorem encodedLetter_before_digit : ∃ tokens : List HostToken,
    tokens.flatMap HostToken.text = "%41a".toList ∧
      validateUri ("x://".toList ++ tokens.flatMap HostToken.text) = false := by
  refine ⟨[.encoded 'A' [⟨'4', '1', by decide, by decide⟩] (by decide), .plain 'a' (.inl (by decide))], rfl, ?_⟩
  decide
end Protovalidate.Lib
