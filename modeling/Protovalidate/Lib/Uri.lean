import Protovalidate.Lib.DottedQuad

/-! `internal/lib/uri.cc`: the URI parser. A method that moves the cursor is a
consumer; the saved `start` of a method is `restoring`. -/

namespace Protovalidate.Lib

open Foundation Consumer

namespace UriParser

def unreserved : Char → Bool :=
  concatRanges [alpha, num, char '-', char '_', char '.', char '~']

def subDelims : Char → Bool :=
  concatRanges [char '!', char '$', char '&', char '\'', char '(', char ')', char '*', char '+', char ',',
    char ';', char '=']

/-- `!str.empty() && str[0] == c` -/
def startsWith (c : Char) (str : StringView) : Bool := str.head? == some c

def isAuthorityEnd (str : StringView) : Bool :=
  str.isEmpty || startsWith '?' str || startsWith '#' str || startsWith '/' str

def isPathEnd (str : StringView) : Bool := str.isEmpty || startsWith '?' str || startsWith '#' str

section Tokens

def consumePercentEncoded : Consumer Char :=
  restoring (both (consume (char '%')) (both (consume hexDigit) (consume hexDigit)))

/-- The byte and the input left. -/
def parsePercentEncoded (str : StringView) : Option (Nat × StringView) :=
  match consume (char '%') str with
  | (false, _) => none
  | (true, rest) => parseHexadecimalNumber 0xff 2 rest

/-- The number of bytes a prefix byte above `0x7f` announces. -/
def prefixSize (b : Nat) : Option Nat :=
  if 0xc2 ≤ b ∧ b ≤ 0xdf then some 2
  else if 0xe0 ≤ b ∧ b ≤ 0xef then some 3
  else if 0xf0 ≤ b ∧ b ≤ 0xf4 then some 4
  else none

/-- The loop over the remaining bytes. -/
def parseContinuation : Nat → StringView → Option (List Nat × StringView)
  | 0, str => some ([], str)
  | count + 1, str =>
    match parsePercentEncoded str with
    | none => none
    | some (b, rest) =>
      if b &&& 0xc0 ≠ 0x80 then none
      else
        match parseContinuation count rest with
        | none => none
        | some (bytes, rest) => some (b :: bytes, rest)

/-- The conditions the source checks last, on the prefix byte and the next. -/
def invalidSequence (b0 b1 : Nat) : Bool :=
  (b0 == 0xe0 && decide (b1 < 0xa0)) || (b0 == 0xf0 && decide (b1 < 0x90)) ||
    (b0 == 0xf4 && decide (b1 > 0x90))

def consumePercentEncodedUTF8CodePoint : Consumer Char := fun start =>
  match parsePercentEncoded start with
  | none => (false, start)
  | some (b0, rest) =>
    if b0 ≤ 0x7f then (true, rest)
    else
      match prefixSize b0 with
      | none => (false, start)
      | some size =>
        match parseContinuation (size - 1) rest with
        | some (b1 :: _, rest) => if invalidSequence b0 b1 then (false, start) else (true, rest)
        | _ => (false, start)

/-- The template parameters are the characters allowed in addition. -/
def consumePChar (additional : List (Char → Bool)) : Consumer Char :=
  either (consume (concatRanges ([unreserved, subDelims, char ':', char '@'] ++ additional)))
    consumePercentEncoded

end Tokens

section Paths

def consumeSegment : Consumer Char := many (consumePChar [])

def consumeSegmentNz : Consumer Char := both (consumePChar []) consumeSegment

def consumeSegmentNzNc : Consumer Char :=
  atLeastOne (either (consume (concatRanges [unreserved, subDelims, char '@'])) consumePercentEncoded)

/-- `while (consume<Char<'/'>>() && consumeSegment())` -/
def consumeSegments : Consumer Char := many (both (consume (char '/')) consumeSegment)

def consumePathAbempty : Consumer Char := restoring (both consumeSegments (test isPathEnd))

def consumePathAbsolute : Consumer Char :=
  restoring (both (consume (char '/')) (both (whenever consumeSegmentNz consumeSegments) (test isPathEnd)))

def consumePathNoscheme : Consumer Char :=
  restoring (both consumeSegmentNzNc (both consumeSegments (test isPathEnd)))

def consumePathRootless : Consumer Char :=
  restoring (both consumeSegmentNz (both consumeSegments (test isPathEnd)))

def consumePathEmpty : Consumer Char := test isPathEnd

def consumeQuery : Consumer Char :=
  restoring (both (many (consumePChar [char '/', char '?']))
    (test fun str => str.isEmpty || startsWith '#' str))

def consumeFragment : Consumer Char :=
  restoring (both (many (consumePChar [char '/', char '?'])) (test List.isEmpty))

end Paths

section Authority

def consumeUserInfo : Consumer Char :=
  restoring (both
    (many (either (consume (concatRanges [unreserved, subDelims, char ':'])) consumePercentEncoded))
    (test (startsWith '@')))

def consumePort : Consumer Char := restoring (both (many (consume num)) (test isAuthorityEnd))

def consumeRegName : Consumer Char :=
  restoring (both
    (many (either (consume (concatRanges [unreserved, subDelims])) consumePercentEncodedUTF8CodePoint))
    (test fun str => startsWith ':' str || isAuthorityEnd str))

def consumeZoneId : Consumer Char :=
  atLeastOne (either (consume unreserved) consumePercentEncodedUTF8CodePoint)

/-- The locals of `consumeIPv6Address` and the cursor. -/
structure AddressState where
  str : StringView
  index : Nat
  doubleColonFound : Bool
deriving DecidableEq, Repr

def hexadecatetsCount : Nat := 8

/-- The look-ahead of `consumeIPv6Address`. -/
def dottedAhead (str : StringView) : Bool :=
  decide (str.length ≥ "0.0.0.0".length) && str[0]? != some ':' &&
    (str[1]? == some '.' || str[2]? == some '.' || str[3]? == some '.')

/-- How the loop of `consumeIPv6Address` is left: by a `return`, or with the
test behind the loop still to come. -/
inductive AddressExit where
  | returned (answer : Bool) (str : StringView)
  | finished (s : AddressState)
deriving DecidableEq, Repr

def addressRound (s : AddressState) : Control AddressState AddressExit :=
  if s.index < hexadecatetsCount then
    if (s.doubleColonFound || s.index == hexadecatetsCount - 2) && dottedAhead s.str then
      match parseOctets s.str with
      | some (_, rest) => .leave (.returned true rest)
      | none => .leave (.returned false s.str)
    else
      match parseHexadecimalHexadecatet s.str with
      | some (_, rest) => .again { s with str := rest, index := s.index + 1 }
      | none =>
        match consumeSequence [':', ':'] s.str with
        | (true, rest) =>
          match consume (char ':') rest with
          | (true, rest) => .leave (.returned false rest)
          | (false, rest) =>
            if s.index > hexadecatetsCount - 1 || s.doubleColonFound then .leave (.returned false rest)
            else .again { str := rest, index := s.index + 1, doubleColonFound := true }
        | (false, _) =>
          match consume (char ':') s.str with
          | (true, rest) =>
            if s.index == 0 || rest.isEmpty then .leave (.returned false rest)
            else .again { s with str := rest }
          | (false, _) => .leave (.finished s)
  else .leave (.finished s)

def addressLoop (s : AddressState) : AddressExit :=
  Control.loop addressRound (fun s => s.str.length) (.returned false s.str) s

def consumeIPv6Address : Consumer Char := fun str =>
  match addressLoop ⟨str, 0, false⟩ with
  | .returned answer rest => (answer, rest)
  | .finished s =>
    if s.doubleColonFound || s.index == hexadecatetsCount then
      whenever (consumeSequence ['%', '2', '5']) consumeZoneId s.str
    else (false, s.str)

/-- The counter `j` of the last loop says whether its first round consumed. -/
def consumeIPVFuture : Consumer Char :=
  let tail := consume (concatRanges [unreserved, subDelims, char ':'])
  restoring (both (consume (char 'v')) (both (consume hexDigit) (both (many (consume hexDigit))
    (both (consume (char '.')) (both tail (many tail))))))

def consumeIPLiteral : Consumer Char :=
  restoring (both (consume (char '['))
    (either (restoring (both consumeIPv6Address (consume (char ']'))))
      (both consumeIPVFuture (consume (char ']')))))

def consumeHost : Consumer Char :=
  either (both (test (startsWith '[')) consumeIPLiteral) consumeRegName

def consumeAuthority : Consumer Char :=
  restoring (both (whenever consumeUserInfo (consume (char '@')))
    (both consumeHost (both (whenever (consume (char ':')) consumePort) (test isAuthorityEnd))))

end Authority

section References

def consumeScheme : Consumer Char :=
  restoring (both (consume alpha)
    (both (many (consume (concatRanges [alphaNum, char '+', char '-', char '.']))) (test (startsWith ':'))))

/-- `consumeSequence<'/', '/'>() && consumeAuthority() && consumePathAbempty()` -/
def consumeNetworkPath : Consumer Char :=
  both (consumeSequence ['/', '/']) (both consumeAuthority consumePathAbempty)

def consumeHierPart : Consumer Char :=
  either (restoring consumeNetworkPath)
    (either consumePathAbsolute (either consumePathRootless consumePathEmpty))

def consumeRelativePart : Consumer Char :=
  either (restoring consumeNetworkPath)
    (either consumePathAbsolute (either consumePathNoscheme consumePathEmpty))

/-- The query and fragment, each behind its delimiter. -/
def consumeSuffix : Consumer Char :=
  both (whenever (consume (char '?')) consumeQuery) (whenever (consume (char '#')) consumeFragment)

def consumeUri : Consumer Char :=
  restoring (both (both consumeScheme (both (consume (char ':')) consumeHierPart)) consumeSuffix)

/-- A relative part that is missing is not undone, anything later is. -/
def consumeRelativeRef : Consumer Char := fun start =>
  match consumeRelativePart start with
  | (false, str) => (false, str)
  | (true, str) =>
    match consumeSuffix str with
    | (true, str) => (true, str)
    | (false, _) => (false, start)

end References
end UriParser

open UriParser

def validateUri (str : StringView) : Bool := (both consumeUri (test List.isEmpty) str).1

def validateUriReference (str : StringView) : Bool :=
  (both (either consumeUri consumeRelativeRef) (test List.isEmpty) str).1

end Protovalidate.Lib
