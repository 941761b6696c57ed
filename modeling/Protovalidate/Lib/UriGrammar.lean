import Protovalidate.Lib.UriAuthority

/-! The URI parser recognizes the grammar wherever the authority has neither
brackets nor percent encodings behind its userinfo. -/

namespace Protovalidate.Lib.UriParser

open Foundation Consumer
open scoped Computability

section Hosts

variable {input rest : StringView}

/-- What may follow a host. -/
def hostEnd (str : StringView) : Bool := startsWith ':' str || isAuthorityEnd str

theorem stops_of_hostEnd {accepts : Char → Bool} (colon : accepts ':' = false) (question : accepts '?' = false)
    (hash : accepts '#' = false) (slash : accepts '/' = false) (ends : hostEnd rest = true) :
    Stops accepts rest := by
  rw [hostEnd, Bool.or_eq_true, startsWith_iff] at ends
  obtain ⟨tail, rfl⟩ | ends := ends
  · exact stops_cons.mpr colon
  · exact stops_of_isAuthorityEnd question hash slash ends

theorem authorityChar_of_host {c : Char} (isHost : hostChar c = true) : authorityChar c = true :=
  (Bool.and_eq_true _ _ ▸ isHost).1

theorem notAt_of_host {c : Char} (isHost : hostChar c = true) : notAt c = true :=
  (Bool.and_eq_true _ _ ▸ isHost).2

theorem codePoint_missed {c : Char} (other : c ≠ '%') (tail : StringView) :
    consumePercentEncodedUTF8CodePoint (c :: tail) = (false, c :: tail) := by
  have missed : consume (char '%') (c :: tail) = (false, c :: tail) := consume_char_missed (by simpa using other)
  simp [consumePercentEncodedUTF8CodePoint, parsePercentEncoded, missed]

theorem nameToken_plain (percent : '%' ∉ authorityOf input) :
    nameToken plainRange input = consume plainRange input := by
  cases input with
  | nil => rfl
  | cons c tail =>
    cases plain : plainRange c with
    | true => simp [nameToken, either, consume, Consumer.one, plain]
    | false =>
      have other : c ≠ '%' := by
        rintro rfl
        exact percent (by simp [authorityOf, authorityChar])
      simp [nameToken, either, consume, Consumer.one, plain, codePoint_missed other]

/-- Without percent signs the tokens of a name are its plain characters. -/
theorem skip_plain (percent : '%' ∉ authorityOf input) :
    skip (nameToken plainRange) input = skip (consume plainRange) input := by
  refine skip_congr (fun input => '%' ∉ authorityOf input) (nameToken_shrinks plainRange) (consume_shrinks plainRange)
    (nameToken_restores plainRange) (one_restores plainRange) (fun input => nameToken_plain) ?_ input percent
  intro input rest percent found member
  rw [nameToken_plain percent] at found
  obtain ⟨word, ⟨c, plain, rfl⟩, rfl, -⟩ := (recognizes_consume plainRange input rest).mp found
  apply percent
  rw [authorityOf, List.singleton_append,
    List.takeWhile_cons_of_pos (authorityChar_of_host (hostChar_of_plain plain))]
  exact List.mem_cons_of_mem c member

theorem recognizesAt_plainName (percent : '%' ∉ authorityOf input) :
    RecognizesAt consumeRegName (symbols plainRange)∗ (fun rest => hostEnd rest = true) input := by
  have plain : Recognizes (both (many (consume plainRange)) (test hostEnd)) (symbols plainRange)∗
      (fun rest => hostEnd rest = true) :=
    (recognizes_consume plainRange).many_test leads_symbols.nonempty (one_restores plainRange)
      (fun _ _ _ => trivial) fun rest ends => ⟨trivial, (recognizes_consume plainRange rest).misses leads_symbols
        (stops_of_hostEnd (by decide) (by decide) (by decide) (by decide) ends)⟩
  have same : both (many (nameToken plainRange)) (test hostEnd) input =
      both (many (consume plainRange)) (test hostEnd) input := by
    simp only [both, many, skip_plain percent]
  refine RecognizesAt.restoring fun rest => ?_
  change both (many (nameToken plainRange)) (test hostEnd) input = (true, rest) ↔ _
  rw [same]
  exact plain input rest

/-- Hosts, where the authority has neither brackets nor percent signs. -/
theorem recognizesAt_host (bracket : '[' ∉ authorityOf input) (percent : '%' ∉ authorityOf input) :
    RecognizesAt consumeHost Rfc3986.host (fun rest => hostEnd rest = true) input := by
  have noLiteral : startsWith '[' input = false := by
    rw [← Bool.not_eq_true, startsWith_iff]
    rintro ⟨tail, rfl⟩
    exact bracket (by simp [authorityOf, authorityChar])
  intro rest
  have name : consumeHost input = consumeRegName input := by simp [consumeHost, either, both, test, noLiteral]
  rw [name, recognizesAt_plainName percent rest]
  constructor
  · rintro ⟨u, plain, same, ends⟩
    exact ⟨u, plain_host (mem_kstar_symbols.mp plain), same, ends⟩
  · rintro ⟨u, inHost, rfl, ends⟩
    rw [authorityOf_append fun c inU => authorityChar_of_host (within_host u inHost c inU)] at bracket percent
    refine ⟨u, mem_kstar_symbols.mpr (host_plain inHost ?_ ?_), rfl, ends⟩
    · exact fun inU => bracket (List.mem_append_left _ inU)
    · exact fun inU => percent (List.mem_append_left _ inU)

theorem recognizes_port : Recognizes consumePort Rfc3986.port (fun rest => isAuthorityEnd rest = true) := by
  intro input
  rw [Rfc3986.port, ← symbols_num]
  refine RecognizesAt.restoring ((recognizes_consume num).many_test leads_symbols.nonempty (one_restores num)
    (fun _ _ _ => trivial) (fun rest ends => ⟨trivial, ?_⟩) input)
  exact (recognizes_consume num rest).misses leads_symbols
    (stops_of_isAuthorityEnd (by decide) (by decide) (by decide) ends)

/-- `consume<Char<':'>>() && !consumePort()`, then `isAuthorityEnd()`. -/
def consumePortEnd : Consumer Char := both (whenever (consume (char ':')) consumePort) (test isAuthorityEnd)

theorem recognizes_portEnd : Recognizes consumePortEnd (literal [':'] * Rfc3986.port + 1)
    (fun rest => isAuthorityEnd rest = true) := by
  intro input
  refine (recognizes_char ':' input).whenever_both (one_restores _) (fun rest _ => ?_)
    (fun _ => recognizes_test isAuthorityEnd input) (fun _ _ _ _ => trivial) ?_
  · have read := (recognizes_port rest).both (fun rest _ => recognizes_test isAuthorityEnd rest)
      fun v empty after ends => by
        obtain rfl : v = [] := empty
        exact ends
    rwa [mul_one] at read
  · intro rest found w empty after same ends
    obtain rfl : w = [] := empty
    obtain rfl : after = input := same
    obtain ⟨tail, rfl⟩ : ∃ tail, after = ':' :: tail := ⟨rest, consume_char_eq_true_iff.mp found⟩
    rw [isAuthorityEnd_iff] at ends
    simp at ends

theorem hostEnd_portEnd (v : StringView) (member : v ∈ literal [':'] * Rfc3986.port + 1) (rest : StringView)
    (ends : isAuthorityEnd rest = true) : hostEnd (v ++ rest) = true := by
  rcases member with inPort | empty
  · obtain ⟨c, tail, rfl, isColon⟩ := (Leads.mul (leads_literal (by decide)) : Leads (char ':') _) v inPort
    obtain rfl : c = ':' := beq_iff_eq.mp isColon
    rfl
  · obtain rfl : v = [] := empty
    simp [hostEnd, ends]

/-- A host and its optional port. -/
def hostPort : Language Char := Rfc3986.host * (literal [':'] * Rfc3986.port + 1)

def consumeHostPort : Consumer Char := both consumeHost consumePortEnd

theorem recognizesAt_hostPort (bracket : '[' ∉ authorityOf input) (percent : '%' ∉ authorityOf input) :
    RecognizesAt consumeHostPort hostPort (fun rest => isAuthorityEnd rest = true) input :=
  (recognizesAt_host bracket percent).both (fun rest _ => recognizes_portEnd rest) hostEnd_portEnd

theorem within_hostPort : Within hostChar hostPort := by
  have digits : Within hostChar Rfc3986.port :=
    (symbols_num ▸ within_range num (by decide) (by decide) (by decide) (by decide) :
      Within hostChar Rfc3986.DIGIT).kstar
  exact within_host.mul (((within_char ':' (by decide)).mul digits).add within_one)

theorem consumes_hostPort : Consumes notAt consumeHostPort := by
  have port : Consumes notAt consumePort :=
    (Consumes.both ((consumes_consume num (by decide)).many (one_restores num) (consume_shrinks num))
      (consumes_test _)).restoring
  exact consumes_host.both
    ((Consumes.whenever (consumes_consume _ (by decide)) (one_restores _) port).both (consumes_test _))

/-- Neither the parser nor the grammar gets past an `@`. -/
theorem recognizesAt_hostPort_at (at_ : '@' ∈ authorityOf input) :
    RecognizesAt consumeHostPort hostPort (fun rest => isAuthorityEnd rest = true) input := by
  intro rest
  constructor
  · intro found
    obtain ⟨word, rfl, chars⟩ := consumes_hostPort input rest found
    have ends : isAuthorityEnd rest = true := by
      simp only [consumeHostPort, consumePortEnd, both, test] at found
      split at found
      · split at found <;> simp at found
        rw [← found.2]
        exact found.1
      · cases found
    exact (at_not_passed chars ends at_).elim
  · rintro ⟨word, member, rfl, ends⟩
    exact (at_not_passed (fun c inWord => notAt_of_host (within_hostPort word member c inWord)) ends at_).elim

end Hosts

section Authority

variable {input rest : StringView}

theorem recognizes_userinfo :
    Recognizes consumeUserInfo Rfc3986.userinfo (fun rest => startsWith '@' rest = true) := by
  have language : symbols (concatRanges [unreserved, subDelims, char ':']) + Rfc3986.pctEncoded =
      Rfc3986.unreserved + Rfc3986.pctEncoded + Rfc3986.subDelims + literal [':'] := by
    simp only [symbols_concatRanges, List.map_cons, List.map_nil, List.sum_cons, List.sum_nil, symbols_unreserved,
      symbols_subDelims, symbols_char]
    abel
  rw [Rfc3986.userinfo, ← language]
  refine recognizes_tokens _ (by decide) fun rest starts => ?_
  obtain ⟨tail, rfl⟩ := startsWith_iff.mp starts
  exact stops_cons.mpr (by decide)

theorem within_userinfo : Within hostChar Rfc3986.userinfo :=
  (((within_unreserved.add within_pctEncoded).add within_subDelims).add (within_char ':' (by decide))).kstar

theorem afterUserinfo_at {word authority : StringView} (chars : ∀ c ∈ word, notAt c = true) :
    afterUserinfo (word ++ '@' :: authority) = authority := by
  have dropped : (word ++ '@' :: authority).dropWhile notAt = '@' :: authority := by
    rw [List.dropWhile_append_of_pos chars]
    rfl
  rw [afterUserinfo, if_pos (by simp), dropped]
  rfl

/-- The userinfo that is found ends at the `@` that delimits it. -/
theorem consumeUserInfo_split (found : consumeUserInfo input = (true, rest)) :
    ∃ word behind, rest = '@' :: behind ∧ input = word ++ '@' :: behind ∧
      authorityOf input = word ++ '@' :: authorityOf behind ∧ ∀ c ∈ word, notAt c = true := by
  obtain ⟨word, member, rfl, starts⟩ := (recognizes_userinfo input rest).mp found
  obtain ⟨behind, rfl⟩ := startsWith_iff.mp starts
  have chars := within_userinfo word member
  refine ⟨word, behind, rfl, rfl, ?_, fun c inWord => notAt_of_host (chars c inWord)⟩
  rw [authorityOf_append fun c inWord => authorityChar_of_host (chars c inWord)]
  rfl

/-- Authorities with a plain host. -/
theorem recognizesAt_authority (plain : PlainHost (authorityOf input)) :
    RecognizesAt consumeAuthority Rfc3986.authority (fun rest => isAuthorityEnd rest = true) input := by
  have language : Rfc3986.authority = Rfc3986.userinfo * (literal ['@'] * hostPort) + hostPort := by
    rw [Rfc3986.authority, hostPort, add_comm (literal [':'] * Rfc3986.port) 1, mul_assoc, add_mul, one_mul,
      add_comm, mul_assoc]
  rw [language]
  refine RecognizesAt.restoring ((recognizes_userinfo input).whenever_both (restoring_restores _)
    (fun rest found => ?_) (fun absent => ?_) ?_ ?_)
  · obtain ⟨word, behind, rfl, -, component, chars⟩ := consumeUserInfo_split found
    refine (recognizes_char '@' _).both (fun rest advanced => ?_) fun _ _ _ _ => trivial
    obtain rfl : behind = rest := (List.cons.inj (consume_char_eq_true_iff.mp advanced)).2
    rw [component, PlainHost, afterUserinfo_at chars] at plain
    exact recognizesAt_hostPort plain.1 plain.2
  · by_cases at_ : '@' ∈ authorityOf input
    · exact recognizesAt_hostPort_at at_
    · rw [PlainHost, afterUserinfo, if_neg at_] at plain
      exact recognizesAt_hostPort plain.1 plain.2
  · intro v member rest _
    obtain ⟨c, tail, rfl, isAt⟩ := (Leads.mul (leads_literal (by decide)) : Leads (char '@') _) v member
    obtain rfl : c = '@' := beq_iff_eq.mp isAt
    rfl
  · intro rest found w member after same ends
    obtain ⟨word, behind, -, -, component, -⟩ := consumeUserInfo_split found
    have notPassed := at_not_passed (fun c inWord => notAt_of_host (within_hostPort w member c inWord)) ends
    rw [same, component] at notPassed
    exact notPassed (by simp)

end Authority
end Protovalidate.Lib.UriParser
