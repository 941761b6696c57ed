import Mathlib.Data.BitVec
import Protovalidate.Lib.DottedQuad

/-! `internal/lib/ipv6.cc`: the IPv6 address and prefix parsers. -/

namespace Protovalidate.Lib

open Foundation

/-- `IPv6Prefix`; an address leaves `prefixLength` alone. -/
structure IPv6Prefix where
  bits : BitVec 128
  prefixLength : Nat
deriving DecidableEq, Repr

def IPv6Prefix.bitsCount : Nat := 128

/-- A `std::bitset` may be shifted by any count; a parsed length is at most 128. -/
def IPv6Prefix.mask (network : IPv6Prefix) : BitVec 128 :=
  BitVec.allOnes 128 <<< (bitsCount - network.prefixLength)

namespace IPv6Parser

def hexadecatetsCount : Nat := 8

/-- One round of the loop over the zone characters. -/
def consumeZoneIdRound (str : StringView) : Control StringView (Bool × StringView) :=
  match str with
  | [] => .leave (true, [])
  | c :: rest => if c = '\x00' then .leave (false, c :: rest) else .again rest

def consumeZoneId : Consumer Char := fun str =>
  if str.isEmpty then (false, str)
  else Control.loop consumeZoneIdRound List.length (false, []) str

/-- A look-ahead of four characters decides for the dotted form. -/
def checkDotted (str : StringView) : Bool :=
  let minLength := "0.0.0.0".length
  if str.length < minLength then false
  else str[0]? != some ':' && (str[1]? == some '.' || str[2]? == some '.' || str[3]? == some '.')

def parseDotted (bits : BitVec 128) (str : StringView) : Option (BitVec 128 × StringView) :=
  match parseOctets str with
  | none => none
  | some (octets, rest) =>
    let bits := bits ||| BitVec.ofNat 128 octets.first.val <<< 24
    let bits := bits ||| BitVec.ofNat 128 octets.second.val <<< 16
    let bits := bits ||| BitVec.ofNat 128 octets.third.val <<< 8
    some (bits ||| BitVec.ofNat 128 octets.fourth.val, rest)

def consumePrefixLength (str : StringView) : Option (Nat × StringView) := parseDecimalNumber 128 str

/-- The parser's `str` and `bits`, and the locals of `parseAddressPart`. -/
structure AddressState where
  str : StringView
  bits : BitVec 128
  b : BitVec 128
  index : Nat
  doubleColonFound : Bool
deriving DecidableEq, Repr

/-- One round of the `while` loop of `parseAddressPart`; leaving with `none` is
its `return false`. -/
def addressRound (s : AddressState) : Control AddressState (Option AddressState) :=
  if s.index < hexadecatetsCount then
    if (s.doubleColonFound || s.index == hexadecatetsCount - 2) && checkDotted s.str then
      match parseDotted s.bits s.str with
      | none => .leave none
      | some (bits, rest) =>
        .leave (some { s with str := rest, bits := bits, b := s.b <<< 32, index := s.index + 2 })
    else
      match parseHexadecimalHexadecatet s.str with
      | some (value, rest) =>
        .again { s with str := rest, b := s.b <<< 16 ||| BitVec.ofNat 128 value, index := s.index + 1 }
      | none =>
        match consumeSequence [':', ':'] s.str with
        | (true, rest) =>
          match consume (char ':') rest with
          | (true, _) => .leave none
          | (false, rest) =>
            if s.index > hexadecatetsCount - 1 || s.doubleColonFound then .leave none
            else .again { str := rest, bits := s.bits ||| s.b <<< ((hexadecatetsCount - s.index) <<< 4),
                          b := 0, index := s.index + 1, doubleColonFound := true }
        | (false, _) =>
          match consume (char ':') s.str with
          | (true, rest) =>
            if s.index == 0 || rest.isEmpty then .leave none else .again { s with str := rest }
          | (false, _) => .leave (some s)
  else .leave (some s)

def addressLoop (s : AddressState) : Option AddressState :=
  Control.loop addressRound (fun s => s.str.length) none s

/-- The bits and the input left. -/
def parseAddressPart (str : StringView) : Option (BitVec 128 × StringView) :=
  match addressLoop ⟨str, 0, 0, 0, false⟩ with
  | none => none
  | some s =>
    if s.doubleColonFound || s.index == hexadecatetsCount then some (s.bits ||| s.b, s.str) else none

def parseAddress (str : StringView) : Option (BitVec 128) :=
  match parseAddressPart str with
  | none => none
  | some (bits, rest) =>
    match Consumer.whenever (consume (char '%')) consumeZoneId rest with
    | (true, []) => some bits
    | _ => none

def parsePrefix (str : StringView) : Option IPv6Prefix :=
  match parseAddressPart str with
  | none => none
  | some (bits, rest) =>
    match consume (char '/') rest with
    | (false, _) => none
    | (true, rest) =>
      match consumePrefixLength rest with
      | some (prefixLength, []) => some ⟨bits, prefixLength⟩
      | _ => none

end IPv6Parser

def parseIPv6Address (str : StringView) : Option (BitVec 128) := IPv6Parser.parseAddress str

def parseIPv6Prefix (str : StringView) : Option IPv6Prefix := IPv6Parser.parsePrefix str

end Protovalidate.Lib
