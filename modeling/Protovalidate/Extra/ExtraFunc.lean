import Protovalidate.Lib.IPv4
import Protovalidate.Lib.IPv6

/-! `internal/extra_func.cc`: host names, ports, the two together, and address
prefixes. -/

namespace Protovalidate.Extra

open Foundation Lib

/-- `absl::StripSuffix` -/
def stripSuffix (str suffix : StringView) : StringView :=
  if suffix.isSuffixOf str then str.take (str.length - suffix.length) else str

/-- The characters of a part of a host name. -/
def hostnameChar (c : Char) : Bool :=
  !((c < 'a' || 'z' < c) && (c < 'A' || 'Z' < c) && (c < '0' || '9' < c) && c != '-')

/-- The loop over the parts; `allDigits` is about the last one. -/
def hostnameLoop : List StringView → Bool → Bool
  | [], allDigits => !allDigits
  | part :: parts, _ =>
    if part.isEmpty || decide (part.length > 63) || ['-'].isPrefixOf part || ['-'].isSuffixOf part then false
    else if part.all hostnameChar then hostnameLoop parts (part.all num)
    else false

def isHostname (toValidate : StringView) : Bool :=
  if toValidate.isEmpty || decide (toValidate.length > 253) then false
  else hostnameLoop ((stripSuffix toValidate ['.']).splitOn '.') false

def isIpv4 (toValidate : StringView) : Bool := (parseIPv4Address toValidate).isSome

def isIpv6 (toValidate : StringView) : Bool := (parseIPv6Address toValidate).isSome

/-- `absl::ascii_isspace` -/
def isSpace (c : Char) : Bool := c == ' ' || (decide ('\t' ≤ c) && decide (c ≤ '\r'))

/-- The loop of `absl::SimpleAtoi` over the digits. -/
def parsePositiveInt (maxValue : Nat) : Nat → StringView → Option Nat
  | value, [] => some value
  | value, c :: rest =>
    match decimalDigitValue c with
    | none => none
    | some digit =>
      if value > maxValue / 10 then none
      else if value * 10 > maxValue - digit then none
      else parsePositiveInt maxValue (value * 10 + digit) rest

/-- `absl::SimpleAtoi` for an unsigned type: blanks around the number and a plus
sign in front of it are skipped. -/
def simpleAtoi (maxValue : Nat) (str : StringView) : Option Nat :=
  match ((str.dropWhile isSpace).reverse.dropWhile isSpace).reverse with
  | [] => none
  | '-' :: _ => none
  | '+' :: rest => if rest.isEmpty then none else parsePositiveInt maxValue 0 rest
  | text => parsePositiveInt maxValue 0 text

def maxPort : Nat := 65535

def isPort (str : StringView) : Bool :=
  if str.isEmpty then false
  else if decide (str.length > 1) && str.head? == some '0' then false
  else if str.all num then
    match simpleAtoi (2 ^ 32 - 1) str with
    | none => false
    | some port => decide (port ≤ maxPort)
  else false

/-- `rfind`, with `none` for `npos`. -/
def rfind (c : Char) : StringView → Option Nat
  | [] => none
  | d :: rest =>
    match rfind c rest with
    | some index => some (index + 1)
    | none => if d == c then some 0 else none

/-- The index behind a position; `npos + 1` wraps to zero. -/
def indexAfter : Option Nat → Nat
  | none => 0
  | some index => index + 1

/-- `str.substr(1, end - 1)` -/
def bracketed (str : StringView) : Option Nat → StringView
  | none => str.drop 1
  | some index => (str.drop 1).take (index - 1)

def isHostAndPort (str : StringView) (portRequired : Bool) : Bool :=
  if str.isEmpty then false
  else
    let splitIdx := rfind ':' str
    if str.head? == some '[' then
      let close := rfind ']' str
      let afterEnd := indexAfter close
      if afterEnd == str.length then !portRequired && isIpv6 (bracketed str close)
      else if some afterEnd == splitIdx then isIpv6 (bracketed str close) && isPort (str.drop (afterEnd + 1))
      else false
    else
      match splitIdx with
      | none => !portRequired && (isHostname str || isIpv4 str)
      | some index => (isHostname (str.take index) || isIpv4 (str.take index)) && isPort (str.drop (index + 1))

/-- `none` where the mask is undefined. -/
def isIpv4Prefix (platform : DataModel) (toValidate : StringView) (strict : Bool) : Option Bool :=
  match parseIPv4Prefix toValidate with
  | none => some false
  | some network =>
    if !strict then some true
    else
      match network.mask platform with
      | none => none
      | some mask => some (network.bits &&& ~~~mask == 0)

def isIpv6Prefix (toValidate : StringView) (strict : Bool) : Bool :=
  match parseIPv6Prefix toValidate with
  | none => false
  | some network => if !strict then true else network.bits &&& ~~~network.mask == 0

end Protovalidate.Extra
