import Protovalidate.Extra.ExtraFunc

/-! The language of `isHostAndPort`: the last colon and the last bracket of a text
decide where host and port are. -/

namespace Protovalidate.Extra

open Foundation Lib

section Positions

variable {c : Char} {str front back front' back' : StringView}

theorem rfind_none (missing : c ∉ str) : rfind c str = none := by
  induction str with
  | nil => rfl
  | cons d rest ih =>
    obtain ⟨other, later⟩ := List.ne_and_not_mem_of_not_mem_cons missing
    simp only [rfind, ih later, beq_iff_eq, if_neg other.symm]

theorem rfind_last (missing : c ∉ back) : rfind c (front ++ c :: back) = some front.length := by
  induction front with
  | nil => simp [rfind, rfind_none missing]
  | cons d front ih => simp [rfind, ih]

theorem exists_last (member : c ∈ str) : ∃ front back, str = front ++ c :: back ∧ c ∉ back := by
  induction str with
  | nil => cases member
  | cons d rest ih =>
    by_cases later : c ∈ rest
    · obtain ⟨front, back, rfl, missing⟩ := ih later
      exact ⟨d :: front, back, rfl, missing⟩
    · rcases List.mem_cons.mp member with rfl | inRest
      · exact ⟨[], rest, rfl, later⟩
      · exact (later inRest).elim

end Positions

section Ports

/-- The canonical decimal text of a port. -/
def PortText (str : StringView) : Prop := ∃ port, port ≤ 65535 ∧ str = Nat.toDigits 10 port

theorem parsePositiveInt_digits {maxValue : Nat} (enough : 9 ≤ maxValue) (value : Nat) (within : value ≤ maxValue)
    (word : StringView) (digits : ∀ c ∈ word, c.isDigit = true) : parsePositiveInt maxValue value word =
      if positional 10 decimalDigit value word ≤ maxValue then some (positional 10 decimalDigit value word) else none := by
  induction word generalizing value with
  | nil => simp [parsePositiveInt, within]
  | cons c word ih =>
    have isDigit := digits c (by simp)
    have small := decimalDigit_lt isDigit
    have later : ∀ d ∈ word, d.isDigit = true := fun d member => digits d (by simp [member])
    simp only [parsePositiveInt, decimalDigitValue_eq, isDigit, ↓reduceIte, positional_cons]
    by_cases next : value * 10 + decimalDigit c ≤ maxValue
    · rw [if_neg (by omega), if_neg (by omega)]
      exact ih _ next later
    · have beyond : ¬positional 10 decimalDigit (value * 10 + decimalDigit c) word ≤ maxValue := by
        have grows : value * 10 + decimalDigit c ≤ positional 10 decimalDigit (value * 10 + decimalDigit c) word :=
          Nat.le_trans (Nat.le_mul_of_pos_right _ (Nat.pow_pos (by omega))) le_positional
        omega
      simp only [beyond, ↓reduceIte]
      split
      · rfl
      · exact if_pos (by omega)

theorem num_eq (c : Char) : num c = c.isDigit := by
  simp only [num, charRange, Char.isDigit, Char.le_def, ge_iff_le]

theorem isSpace_digit {c : Char} (isDigit : c.isDigit = true) : isSpace c = false := by
  have bounds := isDigit_bounds isDigit
  have blank : c ≠ ' ' := by
    rintro rfl
    cases isDigit
  have above : ¬c ≤ '\r' := by
    rw [Char.le_def, UInt32.le_iff_toNat_le]
    change ¬c.toNat ≤ 13
    omega
  simp [isSpace, blank, above]

theorem dropWhile_digits {word : StringView} (digits : ∀ c ∈ word, c.isDigit = true) : word.dropWhile isSpace = word := by
  cases word with
  | nil => rfl
  | cons c rest => simp [isSpace_digit (digits c (by simp))]

theorem simpleAtoi_digits {maxValue : Nat} (enough : 9 ≤ maxValue) {word : StringView} (nonempty : word ≠ [])
    (digits : ∀ c ∈ word, c.isDigit = true) : simpleAtoi maxValue word =
      if decimalValue word ≤ maxValue then some (decimalValue word) else none := by
  have stripped : ((word.dropWhile isSpace).reverse.dropWhile isSpace).reverse = word := by
    rw [dropWhile_digits digits, dropWhile_digits fun c member => digits c (List.mem_reverse.mp member),
      List.reverse_reverse]
  simp only [simpleAtoi, stripped]
  split
  · exact (nonempty rfl).elim
  · cases digits '-' (by simp)
  · cases digits '+' (by simp)
  · exact parsePositiveInt_digits enough 0 (Nat.zero_le _) _ digits

theorem portText_canonical {str : StringView} : PortText str ↔ CanonicalDecimal str ∧ decimalValue str ≤ maxPort := by
  constructor
  · rintro ⟨port, small, rfl⟩
    exact ⟨canonicalDecimal_toDigits port, by rwa [decimalValue_toDigits]⟩
  · rintro ⟨canonical, small⟩
    exact ⟨decimalValue str, small, canonical.eq_toDigits⟩

/-- What `isPort` does behind its checks of the characters. -/
theorem isPort_digits {str : StringView} (canonical : CanonicalDecimal str) :
    isPort str = decide (decimalValue str ≤ maxPort) := by
  have notEmpty : str.isEmpty = false := by simpa using canonical.nonempty
  have noLeading : (decide (str.length > 1) && str.head? == some '0') = false := by
    by_cases zero : str.head? = some '0'
    · simp [canonical.leading zero]
    · simp [zero]
  have all : str.all num = true := List.all_eq_true.mpr fun c member => (num_eq c).trans (canonical.digits c member)
  simp only [isPort, notEmpty, noLeading, all, Bool.false_eq_true, ↓reduceIte,
    simpleAtoi_digits (by decide : 9 ≤ 2 ^ 32 - 1) canonical.nonempty canonical.digits]
  by_cases small : decimalValue str ≤ 2 ^ 32 - 1
  · simp only [small, ↓reduceIte]
  · have large : ¬decimalValue str ≤ maxPort := fun bound => small (Nat.le_trans bound (by decide))
    simp only [small, large, ↓reduceIte, decide_false]

theorem isPort_canonical {str : StringView} (accepted : isPort str = true) : CanonicalDecimal str := by
  rw [isPort] at accepted
  split at accepted
  · cases accepted
  · rename_i nonempty
    split at accepted
    · cases accepted
    · rename_i noLeading
      split at accepted
      · rename_i all
        refine ⟨fun empty => nonempty (by simp [empty]), fun c member => ?_, fun zero => ?_⟩
        · rw [← num_eq]
          exact List.all_eq_true.mp all c member
        · have positive : 0 < str.length := List.length_pos_iff.mpr fun empty => nonempty (by simp [empty])
          have short : ¬str.length > 1 := by simpa [zero] using noLeading
          omega
      · cases accepted

theorem isPort_iff (str : StringView) : isPort str = true ↔ PortText str := by
  rw [portText_canonical]
  constructor
  · intro accepted
    have canonical := isPort_canonical accepted
    exact ⟨canonical, of_decide_eq_true ((isPort_digits canonical).symm.trans accepted)⟩
  · rintro ⟨canonical, small⟩
    rw [isPort_digits canonical]
    exact decide_eq_true small

theorem PortText.digits {str : StringView} (isPort : PortText str) : ∀ c ∈ str, c.isDigit = true :=
  (portText_canonical.mp isPort).1.digits

end Ports

section Hosts

/-- A host without brackets. -/
def NamedHost (str : StringView) : Prop := isHostname str = true ∨ isIpv4 str = true

theorem mem_intercalate {separator : StringView} {pieces : List StringView} {c : Char}
    (member : c ∈ separator.intercalate pieces) : c ∈ separator ∨ ∃ piece ∈ pieces, c ∈ piece := by
  induction pieces with
  | nil => simp at member
  | cons piece pieces ih =>
    cases pieces with
    | nil => exact .inr ⟨piece, by simp, by simpa using member⟩
    | cons next pieces =>
      rw [List.intercalate_cons_cons, List.append_assoc, List.mem_append, List.mem_append] at member
      rcases member with inPiece | inSeparator | later
      · exact .inr ⟨piece, by simp, inPiece⟩
      · exact .inl inSeparator
      · rcases ih later with inSeparator | ⟨found, inPieces, inFound⟩
        · exact .inl inSeparator
        · exact .inr ⟨found, List.mem_cons_of_mem piece inPieces, inFound⟩

theorem hostnameLoop_chars {parts : List StringView} {allDigits : Bool} (accepted : hostnameLoop parts allDigits = true) :
    ∀ part ∈ parts, ∀ c ∈ part, hostnameChar c = true := by
  induction parts generalizing allDigits with
  | nil => simp
  | cons part parts ih =>
    rw [hostnameLoop] at accepted
    split at accepted
    · cases accepted
    · split at accepted
      · rename_i all
        intro later member
        rcases List.mem_cons.mp member with rfl | inParts
        · exact List.all_eq_true.mp all
        · exact ih accepted later inParts
      · cases accepted

theorem mem_stripSuffix {str : StringView} {c d : Char} (member : c ∈ str) : c = d ∨ c ∈ stripSuffix str [d] := by
  rw [stripSuffix]
  split
  · rename_i suffixed
    obtain ⟨front, rfl⟩ := List.isSuffixOf_iff_suffix.mp suffixed
    rcases List.mem_append.mp member with inFront | last
    · right
      simpa using inFront
    · exact .inl (List.mem_singleton.mp last)
  · exact .inr member

theorem isHostname_chars {str : StringView} (accepted : isHostname str = true) :
    ∀ c ∈ str, c = '.' ∨ hostnameChar c = true := by
  intro c member
  rw [isHostname] at accepted
  split at accepted
  · cases accepted
  · rcases mem_stripSuffix (d := '.') member with dot | kept
    · exact .inl dot
    · have parts : ['.'].intercalate ((stripSuffix str ['.']).splitOn '.') = stripSuffix str ['.'] :=
        List.intercalate_splitOn '.'
      rw [← parts] at kept
      rcases mem_intercalate kept with dot | ⟨part, inParts, inPart⟩
      · exact .inl (List.mem_singleton.mp dot)
      · exact .inr (hostnameLoop_chars accepted part inParts c inPart)

theorem isIpv4_chars {str : StringView} (accepted : isIpv4 str = true) : ∀ c ∈ str, c = '.' ∨ c.isDigit = true := by
  obtain ⟨bits, parsed⟩ := Option.isSome_iff_exists.mp accepted
  obtain rfl := parseIPv4Address_eq_some_iff.mp parsed
  intro c member
  simp only [dottedText, Octets.text, List.mem_append, List.mem_cons] at member
  rcases member with first | rfl | second | rfl | third | rfl | fourth
  · exact .inr (octetText_digits c first)
  · exact .inl rfl
  · exact .inr (octetText_digits c second)
  · exact .inl rfl
  · exact .inr (octetText_digits c third)
  · exact .inl rfl
  · exact .inr (octetText_digits c fourth)

/-- A named host has no delimiters. -/
theorem NamedHost.missing {str : StringView} (named : NamedHost str) {c : Char} (dot : c ≠ '.')
    (other : hostnameChar c = false) (notDigit : c.isDigit = false) : c ∉ str := by
  intro member
  rcases named with hostname | address
  · rcases isHostname_chars hostname c member with rfl | accepted
    · exact dot rfl
    · rw [other] at accepted
      cases accepted
  · rcases isIpv4_chars address c member with rfl | accepted
    · exact dot rfl
    · rw [notDigit] at accepted
      cases accepted

end Hosts

section HostAndPort

variable {host port str : StringView} {portRequired : Bool}

theorem NamedHost.noBracket (named : NamedHost host) : '[' ∉ host := named.missing (by decide) (by decide) (by decide)

theorem NamedHost.noColon (named : NamedHost host) : ':' ∉ host := named.missing (by decide) (by decide) (by decide)

theorem PortText.noColon (isPort : PortText port) : ':' ∉ port := fun member => by cases isPort.digits ':' member

theorem PortText.noBracket (isPort : PortText port) : ']' ∉ port := fun member => by cases isPort.digits ']' member

theorem namedHost_iff : (isHostname str || isIpv4 str) = true ↔ NamedHost str := Bool.or_eq_true_iff

theorem rfind_bracket {back : StringView} (missing : ']' ∉ back) :
    rfind ']' ('[' :: (host ++ ']' :: back)) = some (host.length + 1) := by
  change rfind ']' (('[' :: host) ++ ']' :: back) = some ('[' :: host).length
  exact rfind_last missing

theorem bracketed_host (host back : StringView) :
    bracketed ('[' :: (host ++ ']' :: back)) (some (host.length + 1)) = host := by
  simp [bracketed]

theorem isHostAndPort_bracketed (host : StringView) (portRequired : Bool) :
    isHostAndPort ('[' :: (host ++ [']'])) portRequired = (!portRequired && isIpv6 host) := by
  simp [isHostAndPort, rfind_bracket, bracketed_host, indexAfter]

theorem isHostAndPort_bracketedPort (noBracket : ']' ∉ port) (noColon : ':' ∉ port) :
    isHostAndPort ('[' :: (host ++ ']' :: ':' :: port)) portRequired = (isIpv6 host && isPort port) := by
  have split : rfind ':' ('[' :: (host ++ ']' :: ':' :: port)) = some (host.length + 2) := by
    have found : rfind ':' ('[' :: (host ++ [']']) ++ ':' :: port) = some ('[' :: (host ++ [']'])).length :=
      rfind_last noColon
    simpa using found
  have close : rfind ']' ('[' :: (host ++ ']' :: ':' :: port)) = some (host.length + 1) :=
    rfind_bracket (by simpa using noBracket)
  simp [isHostAndPort, close, split, bracketed_host, indexAfter]

theorem rfind_position {c : Char} {front : StringView} {index : Nat} (found : rfind c str = some index)
    (starts : ∃ back, str = front ++ back) (here : front.length = index) : ∃ rest, str = front ++ c :: rest ∧ c ∉ rest := by
  obtain ⟨back, rfl⟩ := starts
  by_cases member : c ∈ front ++ back
  · obtain ⟨before, rest, same, missing⟩ := exists_last member
    rw [same, rfind_last missing] at found
    have lengths : front.length = before.length := here.trans (Option.some.inj found).symm
    obtain ⟨rfl, rfl⟩ := List.append_inj same lengths
    exact ⟨rest, rfl, missing⟩
  · rw [rfind_none member] at found
    cases found

/-- Behind the last closing bracket there is nothing or a port. -/
theorem isHostAndPort_behindBracket {back : StringView} (missing : ']' ∉ back)
    (accepted : isHostAndPort ('[' :: (host ++ ']' :: back)) portRequired = true) :
    back = [] ∨ ∃ port, back = ':' :: port ∧ ':' ∉ port := by
  have starts : '[' :: (host ++ ']' :: back) = ('[' :: (host ++ [']'])) ++ back := by simp
  simp only [isHostAndPort, List.isEmpty_cons, Bool.false_eq_true, ↓reduceIte, List.head?_cons, beq_self_eq_true,
    rfind_bracket missing, indexAfter] at accepted
  split at accepted
  · rename_i whole
    have lengths := beq_iff_eq.mp whole
    simp only [List.length_cons, List.length_append] at lengths
    exact .inl (List.eq_nil_of_length_eq_zero (by omega))
  · split at accepted
    · rename_i split
      obtain ⟨rest, same, noColon⟩ := rfind_position (beq_iff_eq.mp split).symm ⟨back, starts⟩ (by simp)
      rw [starts, List.append_cancel_left_eq] at same
      exact .inr ⟨rest, same, noColon⟩
    · cases accepted

theorem isHostAndPort_unclosed {back : StringView} (missing : ']' ∉ back) :
    isHostAndPort ('[' :: back) portRequired = false := by
  have absent : ']' ∉ '[' :: back := by simpa using missing
  have notFirst : ¬some 0 = rfind ':' ('[' :: back) := by
    intro first
    have starts : ∃ rest, '[' :: back = [] ++ ':' :: rest ∧ ':' ∉ rest := rfind_position first.symm ⟨_, rfl⟩ rfl
    obtain ⟨rest, same, -⟩ := starts
    cases same
  simp [isHostAndPort, rfind_none absent, indexAfter, notFirst]

theorem isHostAndPort_named (other : str.head? ≠ some '[') (missing : ':' ∉ str) :
    isHostAndPort str portRequired = (!portRequired && (isHostname str || isIpv4 str)) := by
  cases str with
  | nil => cases portRequired <;> rfl
  | cons c rest =>
    have noBracket : ((c :: rest).head? == some '[') = false := beq_eq_false_iff_ne.mpr other
    simp only [isHostAndPort, List.isEmpty_cons, noBracket, rfind_none missing, Bool.false_eq_true, ↓reduceIte]

theorem isHostAndPort_namedPort (other : (host ++ ':' :: port).head? ≠ some '[') (missing : ':' ∉ port) :
    isHostAndPort (host ++ ':' :: port) portRequired = ((isHostname host || isIpv4 host) && isPort port) := by
  have nonempty : (host ++ ':' :: port).isEmpty = false := by simp
  have noBracket : ((host ++ ':' :: port).head? == some '[') = false := beq_eq_false_iff_ne.mpr other
  have behind : (host ++ ':' :: port).drop (host.length + 1) = port := by simp
  simp only [isHostAndPort, nonempty, noBracket, rfind_last missing, Bool.false_eq_true, ↓reduceIte, behind,
    List.take_left]

/-- A text is a host and a port, or a host alone where no port is required. -/
theorem isHostAndPort_iff (str : StringView) (portRequired : Bool) : isHostAndPort str portRequired = true ↔
    (∃ host port, str = '[' :: (host ++ ']' :: ':' :: port) ∧ isIpv6 host = true ∧ PortText port) ∨
      (∃ host port, str = host ++ ':' :: port ∧ NamedHost host ∧ PortText port) ∨
        (portRequired = false ∧ ((∃ host, str = '[' :: (host ++ [']']) ∧ isIpv6 host = true) ∨ NamedHost str)) := by
  constructor
  · intro accepted
    by_cases bracket : str.head? = some '['
    · obtain ⟨tail, rfl⟩ := List.head?_eq_some_iff.mp bracket
      by_cases closed : ']' ∈ tail
      · obtain ⟨host, back, rfl, missing⟩ := exists_last closed
        rcases isHostAndPort_behindBracket missing accepted with rfl | ⟨port, rfl, noColon⟩
        · rw [isHostAndPort_bracketed, Bool.and_eq_true, Bool.not_eq_true'] at accepted
          exact .inr (.inr ⟨accepted.1, .inl ⟨host, rfl, accepted.2⟩⟩)
        · rw [isHostAndPort_bracketedPort (List.not_mem_of_not_mem_cons missing) noColon, Bool.and_eq_true,
            isPort_iff] at accepted
          exact .inl ⟨host, port, rfl, accepted⟩
      · rw [isHostAndPort_unclosed closed] at accepted
        cases accepted
    · by_cases colon : ':' ∈ str
      · obtain ⟨host, port, rfl, noColon⟩ := exists_last colon
        rw [isHostAndPort_namedPort bracket noColon, Bool.and_eq_true, namedHost_iff, isPort_iff] at accepted
        exact .inr (.inl ⟨host, port, rfl, accepted⟩)
      · rw [isHostAndPort_named bracket colon, Bool.and_eq_true, namedHost_iff, Bool.not_eq_true'] at accepted
        exact .inr (.inr ⟨accepted.1, .inr accepted.2⟩)
  · rintro (⟨host, port, rfl, address, text⟩ | ⟨host, port, rfl, named, text⟩ | ⟨rfl, ⟨host, rfl, address⟩ | named⟩)
    · rw [isHostAndPort_bracketedPort text.noBracket text.noColon, Bool.and_eq_true, isPort_iff]
      exact ⟨address, text⟩
    · have noBracket : (host ++ ':' :: port).head? ≠ some '[' := by
        intro bracket
        cases host with
        | nil => cases bracket
        | cons c rest => exact named.noBracket (by simp at bracket; simp [bracket])
      rw [isHostAndPort_namedPort noBracket text.noColon, Bool.and_eq_true, namedHost_iff, isPort_iff]
      exact ⟨named, text⟩
    · rw [isHostAndPort_bracketed, address]
      rfl
    · rw [isHostAndPort_named (fun bracket => named.noBracket (List.mem_of_mem_head? bracket)) named.noColon,
        namedHost_iff.mpr named]
      rfl

end HostAndPort
end Protovalidate.Extra
