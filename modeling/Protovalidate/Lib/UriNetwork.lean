import Protovalidate.Lib.UriReference

/-! What the validators do with a text that starts with two slashes, or with a
scheme and two slashes: only the authority, its path and the suffix decide. -/

namespace Protovalidate.Lib

open Foundation Consumer
open scoped Computability

namespace UriParser

variable {input rest left : StringView} {path : Consumer Char}

section Alternatives

/-- Behind two slashes the other alternatives of a part find nothing. -/
theorem consumePart_network {accepts : Char → Bool} {language : Language Char}
    (reads : Recognizes path language (fun rest => isPathEnd rest = true)) (restores : Restores path)
    (leads : Leads accepts language) (slash : accepts '/' = false) (w : StringView) :
    consumePart path ('/' :: '/' :: w) = restoring consumeNetworkPath ('/' :: '/' :: w) := by
  have missed {p : Consumer Char} (misses : Misses p ('/' :: '/' :: w)) (restores : Restores p) :
      p ('/' :: '/' :: w) = (false, '/' :: '/' :: w) := by
    cases answer : p ('/' :: '/' :: w) with
    | mk found rest =>
      cases found with
      | true => exact (misses rest answer).elim
      | false => rw [restores _ _ answer]
  have absolute : consumePathAbsolute ('/' :: '/' :: w) = (false, '/' :: '/' :: w) := by
    refine missed (fun rest found => ?_) (restoring_restores _)
    obtain ⟨u, member, same, ends⟩ := (recognizes_pathAbsolute _ rest).mp found
    exact slashes_not_absolute member ends same
  have other : path ('/' :: '/' :: w) = (false, '/' :: '/' :: w) :=
    missed ((reads _).misses leads (stops_cons.mpr slash)) restores
  have network := restoring_restores consumeNetworkPath ('/' :: '/' :: w)
  simp only [consumePart, either, consumePathEmpty, test]
  cases answer : restoring consumeNetworkPath ('/' :: '/' :: w) with
  | mk found rest =>
    cases found with
    | true => rfl
    | false =>
      rw [network rest answer]
      simp only [absolute, other]
      rfl

theorem consumeHierPart_network (w : StringView) :
    consumeHierPart ('/' :: '/' :: w) = restoring consumeNetworkPath ('/' :: '/' :: w) :=
  consumePart_network recognizes_pathRootless (restoring_restores _) leads_segmentNz.mul (by decide) w

theorem consumeRelativePart_network (w : StringView) :
    consumeRelativePart ('/' :: '/' :: w) = restoring consumeNetworkPath ('/' :: '/' :: w) :=
  consumePart_network recognizes_pathNoscheme (restoring_restores _) leads_pathNoscheme (by decide) w

end Alternatives

section Network

/-- The path and the suffix behind an authority. -/
def consumeBehind : Consumer Char := both consumePathAbempty consumeSuffix

/-- The texts that may stand behind an authority. -/
def behindAuthority : Language Char := Rfc3986.pathAbempty * suffix

theorem nil_behindAuthority : [] ∈ behindAuthority :=
  Language.mem_mul.mpr ⟨[], Language.nil_mem_kstar _, [],
    Language.mem_mul.mpr ⟨[], .inl rfl, [], .inl rfl, rfl⟩, rfl⟩

theorem recognizes_behind : Recognizes consumeBehind behindAuthority (fun rest => rest.isEmpty = true) := fun input =>
  (recognizes_pathAbempty input).both
    (fun rest found => recognizesAt_suffix ((recognizes_pathAbempty input rest).mp found).choose_spec.2.2)
    isPathEnd_suffix

/-- An authority is found, and the rest is a path with a suffix. -/
def NetworkAccepted (w : StringView) : Prop :=
  ∃ behind, consumeAuthority w = (true, behind) ∧ behind ∈ behindAuthority

theorem networkAccepted_iff (w : StringView) :
    NetworkAccepted w ↔ both (restoring consumeNetworkPath) consumeSuffix ('/' :: '/' :: w) = (true, []) := by
  have slashes : consumeSequence ['/', '/'] ('/' :: '/' :: w) = (true, w) := by simp [consumeSequence, word]
  have whole (behind : StringView) : behind ∈ behindAuthority ↔ ∃ rest, consumePathAbempty behind = (true, rest) ∧
      consumeSuffix rest = (true, []) := (recognizes_behind behind).whole_iff.symm.trans both_eq_true_iff
  have path (rest : StringView) : restoring consumeNetworkPath ('/' :: '/' :: w) = (true, rest) ↔
      ∃ behind, consumeAuthority w = (true, behind) ∧ consumePathAbempty behind = (true, rest) := by
    rw [restoring_eq_true_iff, ← both_eq_true_iff]
    simp only [consumeNetworkPath, both, slashes]
  simp only [NetworkAccepted, whole, both_eq_true_iff, path]
  constructor
  · rintro ⟨behind, authority, rest, read, suffixed⟩
    exact ⟨rest, ⟨behind, authority, read⟩, suffixed⟩
  · rintro ⟨rest, ⟨behind, authority, read⟩, suffixed⟩
    exact ⟨behind, authority, rest, read, suffixed⟩

theorem validateUri_network (w : StringView) :
    validateUri ('x' :: ':' :: '/' :: '/' :: w) = true ↔ NetworkAccepted w := by
  have advanced : both (both consumeScheme (both (consume (char ':')) consumeHierPart)) consumeSuffix
      ('x' :: ':' :: '/' :: '/' :: w) = both (restoring consumeNetworkPath) consumeSuffix ('/' :: '/' :: w) := by
    simp only [both, consumeScheme_letter, consume_char_cons, consumeHierPart_network]
  rw [validateUri_eq_true_iff, consumeUri, restoring_eq_true_iff, advanced, networkAccepted_iff]

theorem validateUriReference_network (w : StringView) :
    validateUriReference ('/' :: '/' :: w) = true ↔ NetworkAccepted w := by
  have noScheme : consumeUri ('/' :: '/' :: w) = (false, '/' :: '/' :: w) := by
    have missed : consume alpha ('/' :: '/' :: w) = (false, '/' :: '/' :: w) := rfl
    simp only [consumeUri, restoring, both, consumeScheme, missed]
  have network : both consumeRelativePart consumeSuffix ('/' :: '/' :: w) =
      both (restoring consumeNetworkPath) consumeSuffix ('/' :: '/' :: w) := by
    simp only [both, consumeRelativePart_network]
  rw [validateUriReference_eq_true_iff, consumeRelativeRef_eq_true_iff, network, networkAccepted_iff]
  simp [noScheme]

end Network

section Authority

/-- An authority without userinfo and port is its host. -/
theorem consumeAuthority_of_host (noUserinfo : consumeUserInfo input = (false, input))
    (host : consumeHost input = (true, rest)) (ends : isAuthorityEnd rest = true) :
    consumeAuthority input = (true, rest) := by
  have noPort : consume (char ':') rest = (false, rest) := by
    obtain rfl | ⟨tail, rfl⟩ | ⟨tail, rfl⟩ | ⟨tail, rfl⟩ := isAuthorityEnd_iff.mp ends <;> rfl
  simp only [consumeAuthority, restoring, both, whenever, noUserinfo, host, noPort, test, ends]

theorem consumeAuthority_no_host (noUserinfo : consumeUserInfo input = (false, input))
    (host : consumeHost input = (false, left)) : consumeAuthority input = (false, input) := by
  simp only [consumeAuthority, restoring, both, whenever, noUserinfo, host]

/-- A userinfo needs an `@` behind it. -/
theorem consumeUserInfo_missed (noAt : '@' ∉ input) : consumeUserInfo input = (false, input) := by
  cases answer : consumeUserInfo input with
  | mk found rest =>
    cases found with
    | false => rw [restoring_restores _ _ _ answer]
    | true =>
      obtain ⟨word, -, rfl, starts⟩ := (recognizes_userinfo input rest).mp answer
      obtain ⟨tail, rfl⟩ := startsWith_iff.mp starts
      simp at noAt

/-- A one-letter host. -/
theorem consumeAuthority_letter (ends : isAuthorityEnd rest = true) :
    consumeAuthority ('h' :: rest) = (true, rest) := by
  have component : authorityOf ('h' :: rest) = ['h'] :=
    authorityOf_word (fun c member => List.mem_singleton.mp member ▸ by decide) ends
  have plain : PlainHost (authorityOf ('h' :: rest)) := by
    rw [component]
    exact ⟨by decide, by decide⟩
  refine (recognizesAt_authority plain rest).mpr ⟨['h'], ?_, rfl, ends⟩
  have inHost : ['h'] ∈ Rfc3986.host := plain_host (by simp [plainRange]; decide)
  rw [Rfc3986.authority]
  exact Language.mem_mul.mpr ⟨['h'], Language.mem_mul.mpr ⟨[], .inl rfl, ['h'], inHost, rfl⟩, [], .inl rfl, rfl⟩

end Authority
end UriParser
end Protovalidate.Lib
