import Mathlib.Data.BitVec
import Protovalidate.Lib.DottedQuad

/-! `internal/lib/ipv4.cc`: the IPv4 address and prefix parsers, and the address
parser as the inverse of the canonical text. -/

namespace Protovalidate.Lib

open Foundation

/-- `IPv4Prefix`; an address leaves `prefixLength` alone. -/
structure IPv4Prefix where
  bits : BitVec 32
  prefixLength : Nat
deriving DecidableEq, Repr

/-- The data models a platform may have. -/
inductive DataModel where
  | ilp32
  | lp64
  | llp64
deriving DecidableEq, Repr

/-- The width of `unsigned long`. -/
def DataModel.longWidth : DataModel → Nat
  | .ilp32 => 32
  | .lp64 => 64
  | .llp64 => 32

/-- The width of `size_t`. -/
def DataModel.sizeWidth : DataModel → Nat
  | .ilp32 => 32
  | .lp64 => 64
  | .llp64 => 64

/-- `value << count`; `none` where the language leaves it undefined. -/
def shiftLeft {width : Nat} (value : BitVec width) (count : Nat) : Option (BitVec width) :=
  if count < width then some (value <<< count) else none

def IPv4Prefix.bitsCount : Nat := 32

/-- `bits_count - prefixLength`, a `size_t`. -/
def IPv4Prefix.hostLength (platform : DataModel) (network : IPv4Prefix) : Nat :=
  (2 ^ platform.sizeWidth + bitsCount - network.prefixLength) % 2 ^ platform.sizeWidth

/-- The mask is built as an `unsigned long` and returned as a `uint32_t`. -/
def IPv4Prefix.mask (platform : DataModel) (network : IPv4Prefix) : Option (BitVec 32) :=
  if network.prefixLength = 0 then some 0
  else
    match shiftLeft (~~~(0 : BitVec platform.longWidth)) (network.hostLength platform) with
    | none => none
    | some wide => some (wide.setWidth 32)

/-- The bits that the octets are shifted to. -/
def Octets.bits (octets : Octets) : BitVec 32 :=
  let bits : BitVec 32 := 0
  let bits := bits ||| BitVec.ofNat 32 octets.first.val <<< 24
  let bits := bits ||| BitVec.ofNat 32 octets.second.val <<< 16
  let bits := bits ||| BitVec.ofNat 32 octets.third.val <<< 8
  bits ||| BitVec.ofNat 32 octets.fourth.val

namespace IPv4Parser

def parsePrefixLength : StringView → Option (Nat × StringView) := parseDecimalNumber 32

/-- The bits and the input left. -/
def parseAddressPart (str : StringView) : Option (BitVec 32 × StringView) :=
  match parseOctets str with
  | none => none
  | some (octets, rest) => some (octets.bits, rest)

def parseAddress (str : StringView) : Option (BitVec 32) :=
  match parseAddressPart str with
  | some (bits, []) => some bits
  | _ => none

def parsePrefix (str : StringView) : Option IPv4Prefix :=
  match parseAddressPart str with
  | none => none
  | some (bits, rest) =>
    match consume (char '/') rest with
    | (false, _) => none
    | (true, rest) =>
      match parsePrefixLength rest with
      | some (prefixLength, []) => some ⟨bits, prefixLength⟩
      | _ => none

end IPv4Parser

def parseIPv4Address (str : StringView) : Option (BitVec 32) := IPv4Parser.parseAddress str

def parseIPv4Prefix (str : StringView) : Option IPv4Prefix := IPv4Parser.parsePrefix str

section Canonical

/-- The lowest eight bits. -/
def lowOctet (value : Nat) : Fin 256 := ⟨value % 256, Nat.mod_lt value (by decide)⟩

/-- The octets of an address, the highest first. -/
def Octets.ofBits (bits : BitVec 32) : Octets where
  first := lowOctet (bits.toNat / 2 ^ 24)
  second := lowOctet (bits.toNat / 2 ^ 16)
  third := lowOctet (bits.toNat / 2 ^ 8)
  fourth := lowOctet bits.toNat

/-- The canonical dotted-decimal text of an address. -/
def dottedText (bits : BitVec 32) : StringView := (Octets.ofBits bits).text

theorem shiftLeft_or {low shift : Nat} (high : Nat) (small : low < 2 ^ shift) :
    high <<< shift ||| low = high * 2 ^ shift + low := by
  rw [← Nat.shiftLeft_add_eq_or_of_lt small, Nat.shiftLeft_eq]

theorem shiftedOctet_toNat (octet : Fin 256) {shift : Nat} (small : shift ≤ 24) :
    (BitVec.ofNat 32 octet.val <<< shift).toNat = octet.val <<< shift := by
  have bound : octet.val <<< shift < 2 ^ 32 := by
    rw [Nat.shiftLeft_eq]
    calc octet.val * 2 ^ shift < 2 ^ 8 * 2 ^ shift := Nat.mul_lt_mul_of_pos_right octet.isLt (Nat.two_pow_pos shift)
      _ = 2 ^ (8 + shift) := (Nat.pow_add 2 8 shift).symm
      _ ≤ 2 ^ 32 := Nat.pow_le_pow_right (by omega) (by omega)
  rw [BitVec.toNat_shiftLeft, BitVec.toNat_ofNat, Nat.mod_eq_of_lt (by omega : octet.val < 2 ^ 32),
    Nat.mod_eq_of_lt bound]

theorem Octets.bits_toNat (octets : Octets) : octets.bits.toNat =
    octets.first.val * 2 ^ 24 + (octets.second.val * 2 ^ 16 + (octets.third.val * 2 ^ 8 + octets.fourth.val)) := by
  obtain ⟨first, second, third, fourth⟩ := octets
  have fourthBits : (BitVec.ofNat 32 fourth.val).toNat = fourth.val := by
    rw [BitVec.toNat_ofNat, Nat.mod_eq_of_lt (by omega)]
  simp only [Octets.bits, BitVec.toNat_or, shiftedOctet_toNat _ (by omega : 24 ≤ 24),
    shiftedOctet_toNat _ (by omega : 16 ≤ 24), shiftedOctet_toNat _ (by omega : 8 ≤ 24), fourthBits, Nat.or_assoc]
  rw [shiftLeft_or third.val (by omega), shiftLeft_or second.val (by omega), shiftLeft_or first.val (by omega)]
  simp

@[simp] theorem Octets.ofBits_bits (octets : Octets) : Octets.ofBits octets.bits = octets := by
  obtain ⟨first, second, third, fourth⟩ := octets
  simp only [Octets.ofBits, lowOctet, Octets.bits_toNat, Octets.mk.injEq, Fin.ext_iff]
  omega

@[simp] theorem Octets.bits_ofBits (bits : BitVec 32) : (Octets.ofBits bits).bits = bits := by
  apply BitVec.eq_of_toNat_eq
  have bound := bits.isLt
  simp only [Octets.bits_toNat, Octets.ofBits, lowOctet]
  omega

/-- An address is read from its canonical text and from no other text. -/
theorem parseIPv4Address_eq_some_iff {str : StringView} {bits : BitVec 32} :
    parseIPv4Address str = some bits ↔ str = dottedText bits := by
  have read (octets : Octets) (rest : StringView) : parseOctets str = some (octets, rest) ↔
      str = octets.text ++ rest ∧ Stops Char.isDigit rest := parseOctets_eq_some_iff
  constructor
  · intro parsed
    rw [parseIPv4Address, IPv4Parser.parseAddress, IPv4Parser.parseAddressPart] at parsed
    cases found : parseOctets str with
    | none =>
      rw [found] at parsed
      cases parsed
    | some result =>
      obtain ⟨octets, rest⟩ := result
      obtain ⟨same, -⟩ := (read octets rest).mp found
      rw [found] at parsed
      cases rest with
      | nil =>
        cases parsed
        rw [dottedText, Octets.ofBits_bits, same, List.append_nil]
      | cons c tail => cases parsed
  · rintro rfl
    have found : parseOctets (dottedText bits) = some (Octets.ofBits bits, []) :=
      (read _ _).mpr ⟨(List.append_nil _).symm, stops_nil⟩
    rw [parseIPv4Address, IPv4Parser.parseAddress, IPv4Parser.parseAddressPart, found]
    simp only [Octets.bits_ofBits]

/-- The parser is a bijection between the texts it accepts and the addresses. -/
theorem parseIPv4Address_bijective :
    (∀ bits : BitVec 32, parseIPv4Address (dottedText bits) = some bits) ∧
      (∀ (str : StringView) (bits : BitVec 32), parseIPv4Address str = some bits → str = dottedText bits) ∧
      Function.Bijective fun accepted : {str : StringView // (parseIPv4Address str).isSome = true} =>
        (parseIPv4Address accepted.val).get accepted.property := by
  have canonical (bits : BitVec 32) : parseIPv4Address (dottedText bits) = some bits :=
    parseIPv4Address_eq_some_iff.mpr rfl
  refine ⟨canonical, fun str bits => parseIPv4Address_eq_some_iff.mp, ?_, fun bits => ?_⟩
  · rintro ⟨str, accepted⟩ ⟨str', accepted'⟩ same
    obtain ⟨bits, parsed⟩ := Option.isSome_iff_exists.mp accepted
    obtain ⟨bits', parsed'⟩ := Option.isSome_iff_exists.mp accepted'
    simp only [parsed, parsed', Option.get_some] at same
    subst same
    rw [Subtype.mk.injEq, parseIPv4Address_eq_some_iff.mp parsed, parseIPv4Address_eq_some_iff.mp parsed']
  · refine ⟨⟨dottedText bits, ?_⟩, ?_⟩
    · rw [canonical, Option.isSome_some]
    · simp only [canonical, Option.get_some]

end Canonical
end Protovalidate.Lib
