import Protovalidate.Lib.IPv6Accept
import Protovalidate.Lib.Uri

/-! The second IPv6 loop, the one of the URI parser, goes through the same
rounds as the first. -/

namespace Protovalidate.Lib.UriParser

open Foundation Consumer

/-- What the URI parser keeps of the state of the first loop. -/
abbrev AddressState.of (s : IPv6Parser.AddressState) : AddressState := ⟨s.str, s.index, s.doubleColonFound⟩

/-- How the exits of the two loops correspond. Behind a dotted quad the URI
parser returns at once; otherwise its test behind the loop is still to come. -/
inductive AddressExit.Matches : Option IPv6Parser.AddressState → AddressExit → Prop where
  | rejected (str : StringView) : Matches none (.returned false str)
  | quad (final : IPv6Parser.AddressState) (valid : final.doubleColonFound = true ∨ final.index = 8) :
      Matches (some final) (.returned true final.str)
  | finished (final : IPv6Parser.AddressState) : Matches (some final) (.finished (.of final))

section Simulation

variable {s : IPv6Parser.AddressState} {str rest : StringView} {bits : BitVec 128}

theorem dottedAhead_eq (str : StringView) : dottedAhead str = IPv6Parser.checkDotted str := by
  rw [Bool.eq_iff_iff, IPv6Parser.checkDotted_iff]
  have minLength : "0.0.0.0".length = 7 := by decide
  simp [dottedAhead, minLength, bne_iff_ne, and_assoc, or_assoc]

theorem addressRound_matches (s : IPv6Parser.AddressState) :
    Control.Matches (fun s u => u = AddressState.of s) AddressExit.Matches (IPv6Parser.addressRound s)
      (addressRound (.of s)) := by
  unfold addressRound IPv6Parser.addressRound
  rw [show hexadecatetsCount = IPv6Parser.hexadecatetsCount from rfl, dottedAhead_eq]
  simp only [AddressState.of]
  by_cases within : s.index < IPv6Parser.hexadecatetsCount
  · rw [if_pos within, if_pos within]
    by_cases seen : ((s.doubleColonFound || s.index == IPv6Parser.hexadecatetsCount - 2) &&
        IPv6Parser.checkDotted s.str) = true
    · rw [if_pos seen, if_pos seen, IPv6Parser.parseDotted]
      cases parseOctets s.str with
      | none => exact .leave (.rejected _)
      | some read =>
        refine .leave (.quad _ ?_)
        simp only [Bool.and_eq_true, Bool.or_eq_true, beq_iff_eq] at seen
        exact seen.1.imp id fun sixth => by simp only [sixth, IPv6Parser.hexadecatetsCount]
    · rw [if_neg seen, if_neg seen]
      cases parseHexadecimalHexadecatet s.str with
      | some read => exact .again rfl
      | none =>
        cases consumeSequence [':', ':'] s.str with
        | mk elision rest =>
          cases elision with
          | true =>
            simp only
            cases consume (char ':') rest with
            | mk third rest =>
              cases third with
              | true => exact .leave (.rejected _)
              | false =>
                simp only
                cases decide (s.index > IPv6Parser.hexadecatetsCount - 1) || s.doubleColonFound with
                | true => exact .leave (.rejected _)
                | false => exact .again rfl
          | false =>
            simp only
            cases consume (char ':') s.str with
            | mk colon rest =>
              cases colon with
              | true =>
                simp only
                cases s.index == 0 || rest.isEmpty with
                | true => exact .leave (.rejected _)
                | false => exact .again rfl
              | false => exact .leave (.finished s)
  · rw [if_neg within, if_neg within]
    exact .leave (.finished s)

/-- Where this loop goes on, the loop of the address parser does, to the same place. -/
theorem addressRound_again_step {u next : AddressState} (round : addressRound u = .again next) :
    ∃ s, IPv6Parser.addressRound ⟨u.str, 0, 0, u.index, u.doubleColonFound⟩ = .again s ∧ next = .of s := by
  have matched := addressRound_matches ⟨u.str, 0, 0, u.index, u.doubleColonFound⟩
  change Control.Matches _ _ _ (addressRound u) at matched
  rw [round] at matched
  cases step : IPv6Parser.addressRound ⟨u.str, 0, 0, u.index, u.doubleColonFound⟩ with
  | leave result => rw [step] at matched; cases matched
  | again s =>
    rw [step] at matched
    cases matched with
    | again same => exact ⟨s, rfl, same⟩

theorem addressRound_decreases : Control.Decreases addressRound fun u => u.str.length := by
  intro u next round
  obtain ⟨s, step, rfl⟩ := addressRound_again_step round
  exact IPv6Parser.addressRound_decreases _ _ step

theorem addressLoop_matches (str : StringView) :
    AddressExit.Matches (IPv6Parser.addressLoop (.start str)) (addressLoop ⟨str, 0, false⟩) :=
  Control.loop_simulates (fun s u => u = AddressState.of s) AddressExit.Matches
    IPv6Parser.addressRound_decreases addressRound_decreases (fun s _ same => same ▸ addressRound_matches s) rfl

/-- What the URI parser does with a text, told from what `parseAddressPart` reads: behind a
dotted quad it returns at once, otherwise it reads a zone. -/
theorem consumeIPv6Address_cases (str : StringView) :
    (IPv6Parser.parseAddressPart str = none ∧ ∃ rest, consumeIPv6Address str = (false, rest)) ∨
      ∃ bits rest, IPv6Parser.parseAddressPart str = some (bits, rest) ∧
        ((addressLoop ⟨str, 0, false⟩ = .returned true rest ∧ consumeIPv6Address str = (true, rest)) ∨
          ∃ s, addressLoop ⟨str, 0, false⟩ = .finished s ∧ s.str = rest ∧
            consumeIPv6Address str = whenever (consumeSequence ['%', '2', '5']) consumeZoneId rest) := by
  have matched := addressLoop_matches str
  have start : IPv6Parser.AddressState.start str = ⟨str, 0, 0, 0, false⟩ := rfl
  simp only [IPv6Parser.parseAddressPart, ← start, consumeIPv6Address]
  generalize IPv6Parser.addressLoop (.start str) = left at matched ⊢
  generalize addressLoop ⟨str, 0, false⟩ = left' at matched ⊢
  cases matched with
  | rejected rest => exact .inl ⟨rfl, rest, rfl⟩
  | quad final valid =>
    refine .inr ⟨final.bits ||| final.b, final.str, ?_, .inl ⟨rfl, rfl⟩⟩
    simp only [IPv6Parser.hexadecatetsCount, Bool.or_eq_true, beq_iff_eq, valid, ↓reduceIte]
  | finished final =>
    simp only [IPv6Parser.hexadecatetsCount, hexadecatetsCount]
    by_cases valid : (final.doubleColonFound || final.index == 8) = true
    · simp only [valid, ↓reduceIte]
      exact .inr ⟨_, final.str, rfl, .inr ⟨_, rfl, rfl, rfl⟩⟩
    · simp only [valid, Bool.false_eq_true, ↓reduceIte]
      exact .inl ⟨trivial, final.str, rfl⟩

/-- The URI parser rejects what `parseAddressPart` rejects. -/
theorem consumeIPv6Address_none (failed : IPv6Parser.parseAddressPart str = none) :
    ∃ rest, consumeIPv6Address str = (false, rest) := by
  obtain ⟨-, rejected⟩ | ⟨bits, rest, parsed, -⟩ := consumeIPv6Address_cases str
  · exact rejected
  · cases failed.symm.trans parsed

/-- The URI parser reads what `parseAddressPart` reads where no zone follows. -/
theorem consumeIPv6Address_of_part (parsed : IPv6Parser.parseAddressPart str = some (bits, rest))
    (noZone : rest.head? ≠ some '%') : consumeIPv6Address str = (true, rest) := by
  obtain ⟨failed, -⟩ | ⟨bits', rest', parsed', ends⟩ := consumeIPv6Address_cases str
  · cases failed.symm.trans parsed
  · cases parsed.symm.trans parsed'
    obtain ⟨-, read⟩ | ⟨s, -, -, read⟩ := ends
    · exact read
    · have missed : consumeSequence ['%', '2', '5'] rest = (false, rest) := by
        apply IPv6Parser.consumeSequence_missed
        rintro ⟨tail, same⟩
        rw [← same] at noZone
        simp at noZone
      simp only [read, whenever, missed]

end Simulation
end Protovalidate.Lib.UriParser
