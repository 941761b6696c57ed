import Mathlib.Computability.Language
import Protovalidate.Foundation.WordLanguage

/-! The grammar of RFC 3986, rule by rule, as languages over characters. -/

namespace Protovalidate.Lib.Rfc3986

open Foundation
open scoped Computability

section Characters

def isHexDigit (c : Char) : Bool := c.isDigit || ('a' ≤ c && c ≤ 'f') || ('A' ≤ c && c ≤ 'F')

def ALPHA : Language Char := symbols Char.isAlpha
def DIGIT : Language Char := symbols Char.isDigit
def HEXDIG : Language Char := symbols isHexDigit

def unreserved : Language Char :=
  ALPHA + DIGIT + literal ['-'] + literal ['.'] + literal ['_'] + literal ['~']

def subDelims : Language Char :=
  literal ['!'] + literal ['$'] + literal ['&'] + literal ['\''] + literal ['('] + literal [')'] +
    literal ['*'] + literal ['+'] + literal [','] + literal [';'] + literal ['=']

def pctEncoded : Language Char := literal ['%'] * HEXDIG * HEXDIG

def pchar : Language Char := unreserved + pctEncoded + subDelims + literal [':'] + literal ['@']

end Characters

section Paths

def segment : Language Char := pchar∗

def segmentNz : Language Char := pchar * pchar∗

def segmentNzNc : Language Char :=
  (unreserved + pctEncoded + subDelims + literal ['@']) * (unreserved + pctEncoded + subDelims + literal ['@'])∗

def pathAbempty : Language Char := (literal ['/'] * segment)∗

def pathAbsolute : Language Char := literal ['/'] * (1 + segmentNz * (literal ['/'] * segment)∗)

def pathNoscheme : Language Char := segmentNzNc * (literal ['/'] * segment)∗

def pathRootless : Language Char := segmentNz * (literal ['/'] * segment)∗

def pathEmpty : Language Char := 1

def query : Language Char := (pchar + literal ['/'] + literal ['?'])∗

def fragment : Language Char := (pchar + literal ['/'] + literal ['?'])∗

end Paths

section Hosts

def decOctet : Language Char :=
  DIGIT + symbols (fun c => '1' ≤ c && c ≤ '9') * DIGIT + literal ['1'] * DIGIT * DIGIT +
    literal ['2'] * symbols (fun c => '0' ≤ c && c ≤ '4') * DIGIT +
    literal ['2', '5'] * symbols (fun c => '0' ≤ c && c ≤ '5')

def ipv4Address : Language Char :=
  decOctet * literal ['.'] * decOctet * literal ['.'] * decOctet * literal ['.'] * decOctet

/-- One to four hexadecimal digits. -/
def h16 : Language Char := HEXDIG * (1 + HEXDIG) * (1 + HEXDIG) * (1 + HEXDIG)

def ls32 : Language Char := h16 * literal [':'] * h16 + ipv4Address

/-- `h16 ":"` -/
def h16Colon : Language Char := h16 * literal [':']

/-- `[ *n( h16 ":" ) h16 ]` -/
def upToGroups (n : Nat) : Language Char := 1 + (1 + h16Colon) ^ n * h16

def ipv6Address : Language Char :=
  h16Colon ^ 6 * ls32 +
    literal [':', ':'] * h16Colon ^ 5 * ls32 +
    upToGroups 0 * literal [':', ':'] * h16Colon ^ 4 * ls32 +
    upToGroups 1 * literal [':', ':'] * h16Colon ^ 3 * ls32 +
    upToGroups 2 * literal [':', ':'] * h16Colon ^ 2 * ls32 +
    upToGroups 3 * literal [':', ':'] * h16Colon * ls32 +
    upToGroups 4 * literal [':', ':'] * ls32 +
    upToGroups 5 * literal [':', ':'] * h16 +
    upToGroups 6 * literal [':', ':']

def ipvFuture : Language Char :=
  (literal ['v'] + literal ['V']) * (HEXDIG * HEXDIG∗) * literal ['.'] *
    ((unreserved + subDelims + literal [':']) * (unreserved + subDelims + literal [':'])∗)

def ipLiteral : Language Char := literal ['['] * (ipv6Address + ipvFuture) * literal [']']

def regName : Language Char := (unreserved + pctEncoded + subDelims)∗

def host : Language Char := ipLiteral + ipv4Address + regName

end Hosts

section References

def userinfo : Language Char := (unreserved + pctEncoded + subDelims + literal [':'])∗

def port : Language Char := DIGIT∗

def authority : Language Char :=
  (1 + userinfo * literal ['@']) * host * (1 + literal [':'] * port)

def scheme : Language Char := ALPHA * (ALPHA + DIGIT + literal ['+'] + literal ['-'] + literal ['.'])∗

def hierPart : Language Char :=
  literal ['/', '/'] * authority * pathAbempty + pathAbsolute + pathRootless + pathEmpty

def relativePart : Language Char :=
  literal ['/', '/'] * authority * pathAbempty + pathAbsolute + pathNoscheme + pathEmpty

def uri : Language Char :=
  scheme * literal [':'] * hierPart * (1 + literal ['?'] * query) * (1 + literal ['#'] * fragment)

def relativeRef : Language Char :=
  relativePart * (1 + literal ['?'] * query) * (1 + literal ['#'] * fragment)

def uriReference : Language Char := uri + relativeRef

end References
end Protovalidate.Lib.Rfc3986
