import Protovalidate.Lib.NumberReader

/-! The dotted quad read by `IPv4Parser::parseAddressPart` and
`IPv6Parser::parseDotted`, and its canonical text. -/

namespace Protovalidate.Lib

open Foundation

/-- `std::array<uint8_t, 4>` -/
@[ext] structure Octets where
  first : Fin 256
  second : Fin 256
  third : Fin 256
  fourth : Fin 256
deriving DecidableEq, Repr

/-- The shared condition `parseDecimalOctet(octets[0]) && consume<Char<'.'>>() && ..`. -/
def parseOctets (str : StringView) : Option (Octets × StringView) :=
  match parseDecimalOctet str with
  | none => none
  | some (first, str) =>
    match consume (char '.') str with
    | (false, _) => none
    | (true, str) =>
      match parseDecimalOctet str with
      | none => none
      | some (second, str) =>
        match consume (char '.') str with
        | (false, _) => none
        | (true, str) =>
          match parseDecimalOctet str with
          | none => none
          | some (third, str) =>
            match consume (char '.') str with
            | (false, _) => none
            | (true, str) =>
              match parseDecimalOctet str with
              | none => none
              | some (fourth, str) =>
                some (⟨Fin.ofNat 256 first, Fin.ofNat 256 second, Fin.ofNat 256 third,
                  Fin.ofNat 256 fourth⟩, str)

/-- The canonical text of an octet. -/
def octetText (octet : Fin 256) : StringView := Nat.toDigits 10 octet.val

def Octets.text (octets : Octets) : StringView :=
  octetText octets.first ++ '.' :: (octetText octets.second ++ '.' ::
    (octetText octets.third ++ '.' :: octetText octets.fourth))

theorem consume_char_eq_true_iff {c : Char} {str rest : StringView} :
    consume (char c) str = (true, rest) ↔ str = c :: rest := by
  cases str with
  | nil => simp [consume, Consumer.one]
  | cons d tail =>
    by_cases same : d = c
    · simp [consume, Consumer.one, char, same]
    · simp [consume, Consumer.one, char, same]

theorem consume_char_missed {c : Char} {str : StringView} (missed : str.head? ≠ some c) :
    consume (char c) str = (false, str) := by
  cases str with
  | nil => rfl
  | cons d tail =>
    have different : d ≠ c := by simpa using missed
    simp [consume, Consumer.one, char, different]

@[simp] theorem consume_char_cons (c : Char) (rest : StringView) :
    consume (char c) (c :: rest) = (true, rest) := consume_char_eq_true_iff.mpr rfl

theorem octetText_digits {octet : Fin 256} : ∀ c ∈ octetText octet, c.isDigit = true :=
  (canonicalDecimal_toDigits octet.val).digits

theorem octetText_ne_nil (octet : Fin 256) : octetText octet ≠ [] :=
  (canonicalDecimal_toDigits octet.val).nonempty

theorem octetText_length (octet : Fin 256) :
    1 ≤ (octetText octet).length ∧ (octetText octet).length ≤ 3 := by
  refine ⟨List.length_pos_iff.mpr (octetText_ne_nil octet), ?_⟩
  exact (Nat.length_toDigits_le_iff (by omega) (by omega)).mpr (by omega)

theorem octetText_length_eq_one {octet : Fin 256} :
    (octetText octet).length = 1 ↔ octet.val < 10 := by
  have bounds := octetText_length octet
  have iff := Nat.length_toDigits_le_iff (b := 10) (n := octet.val) (k := 1) (by omega) (by omega)
  rw [octetText] at *
  omega

theorem parseDecimalOctet_eq_some_iff {str rest : StringView} {value : Nat} :
    parseDecimalOctet str = some (value, rest) ↔
      ∃ octet : Fin 256, octet.val = value ∧ str = octetText octet ++ rest ∧ Stops Char.isDigit rest := by
  rw [parseDecimalOctet, parseDecimalNumber_eq_some_iff (by omega)]
  constructor
  · rintro ⟨bound, same, stops⟩
    exact ⟨⟨value, by omega⟩, rfl, same, stops⟩
  · rintro ⟨octet, rfl, same, stops⟩
    exact ⟨by omega, same, stops⟩

theorem stops_dot {rest : StringView} : Stops Char.isDigit ('.' :: rest) := by
  rw [stops_cons]
  rfl

theorem parseOctets_text (octets : Octets) {rest : StringView} (stops : Stops Char.isDigit rest) :
    parseOctets (octets.text ++ rest) = some (octets, rest) := by
  have octet (value : Fin 256) (rest : StringView) (stops : Stops Char.isDigit rest) :
      parseDecimalOctet (octetText value ++ rest) = some (value.val, rest) :=
    parseDecimalOctet_eq_some_iff.mpr ⟨value, rfl, rfl, stops⟩
  simp only [parseOctets, Octets.text, List.append_assoc, List.cons_append]
  simp only [octet octets.first _ stops_dot, octet octets.second _ stops_dot, octet octets.third _ stops_dot,
    octet octets.fourth _ stops, consume_char_cons, Fin.ofNat_val_eq_self]

/-- Four canonical octets are read, with no digit behind the last. -/
theorem parseOctets_eq_some_iff {str rest : StringView} {octets : Octets} :
    parseOctets str = some (octets, rest) ↔ str = octets.text ++ rest ∧ Stops Char.isDigit rest := by
  constructor
  · intro parsed
    simp only [parseOctets] at parsed
    split at parsed <;> try cases parsed
    rename_i first _ readFirst
    split at parsed <;> try cases parsed
    rename_i _ dotFirst
    split at parsed <;> try cases parsed
    rename_i second _ readSecond
    split at parsed <;> try cases parsed
    rename_i _ dotSecond
    split at parsed <;> try cases parsed
    rename_i third _ readThird
    split at parsed <;> try cases parsed
    rename_i _ dotThird
    split at parsed <;> cases parsed
    rename_i fourth readFourth
    obtain ⟨first, rfl, rfl, -⟩ := parseDecimalOctet_eq_some_iff.mp readFirst
    obtain ⟨second, rfl, rfl, -⟩ := parseDecimalOctet_eq_some_iff.mp readSecond
    obtain ⟨third, rfl, rfl, -⟩ := parseDecimalOctet_eq_some_iff.mp readThird
    obtain ⟨fourth, rfl, rfl, stops⟩ := parseDecimalOctet_eq_some_iff.mp readFourth
    rw [consume_char_eq_true_iff] at dotFirst dotSecond dotThird
    subst dotFirst dotSecond dotThird
    exact ⟨by simp [Octets.text], stops⟩
  · rintro ⟨rfl, stops⟩
    exact parseOctets_text octets stops

end Protovalidate.Lib
