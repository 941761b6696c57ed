import Mathlib.Data.BitVec
import Protovalidate.Extra.ExtraFunc
import Protovalidate.Lib.Uri
import Protovalidate.Validate.RuleContext

/-! `internal/extra_func.cc`: the functions that CEL expressions call. An accessor
`XxxOrDie` ends the process on a value of another kind. -/

namespace Protovalidate.Extra

open Lib Validate

/-- A value of the CEL runtime; doubles are their bits, and messages are of some type. -/
inductive CelValue (M : Type) where
  | null
  | bool (value : Bool)
  | int64 (value : BitVec 64)
  | uint64 (value : BitVec 64)
  | double (bits : BitVec 64)
  | string (value : StringView)
  | bytes (value : StringView)
  | message (value : M)
  | duration (nanos : Int)
  | timestamp (nanos : Int)
  | list (items : List (CelValue M))
  | map (entries : List (CelValue M × CelValue M))
  | unknownSet
  | celType (name : String)
  | error (error : StatusError)

/-- Why a call does not return. -/
inductive Fault where
  | orDie | undefined
deriving DecidableEq, Repr

abbrev Call (α : Type) := Except Fault α

/-- The contents of a value if it has the right kind. -/
def orDie {α : Type} : Option α → Call α
  | none => .error .orDie
  | some value => .ok value

namespace CelValue

variable {M : Type}

def asMessage : CelValue M → Option M
  | message value => some value
  | _ => none

def asString : CelValue M → Option StringView
  | string value => some value
  | _ => none

def asDouble : CelValue M → Option (BitVec 64)
  | double bits => some bits
  | _ => none

def asInt64 : CelValue M → Option (BitVec 64)
  | int64 value => some value
  | _ => none

def asList : CelValue M → Option (List (CelValue M))
  | list items => some items
  | _ => none

def asBytes : CelValue M → Option StringView
  | bytes value => some value
  | _ => none

def asBool : CelValue M → Option Bool
  | bool value => some value
  | _ => none

variable (value : CelValue M)

def isMessage : Bool := value.asMessage.isSome
def isString : Bool := value.asString.isSome
def isDouble : Bool := value.asDouble.isSome
def isInt64 : Bool := value.asInt64.isSome
def isList : Bool := value.asList.isSome
def isBytes : Bool := value.asBytes.isSome
def isBool : Bool := value.asBool.isSome

def messageOrDie : Call M := orDie value.asMessage
def stringOrDie : Call StringView := orDie value.asString
def doubleOrDie : Call (BitVec 64) := orDie value.asDouble
def int64OrDie : Call (BitVec 64) := orDie value.asInt64
def listOrDie : Call (List (CelValue M)) := orDie value.asList
def bytesOrDie : Call StringView := orDie value.asBytes
def boolOrDie : Call Bool := orDie value.asBool

/-- `CreateError` of a `kInvalidArgument` error. -/
def createError (message : String) : CelValue M := .error ⟨.invalidArgument, message⟩

end CelValue

/-- What the functions use of reflection, of the CEL runtime and of RE2, and the platform. -/
structure Library (M : Type) where
  platform : DataModel
  Field : Type
  /-- `GetDescriptor()->FindFieldByName` -/
  findFieldByName : M → StringView → Option Field
  isRepeated : Field → Bool
  /-- The items of a `FieldBackedListImpl`. -/
  fieldBackedList : M → Field → List (CelValue M)
  createValueFromSingleField : M → Field → Option (CelValue M)
  CelMapBuilder : Type
  newMapBuilder : CelMapBuilder
  /-- `CelMapBuilder::Add`, which fails with `none`. -/
  add : CelMapBuilder → CelValue M → CelValue M → Option CelMapBuilder
  size : CelMapBuilder → Nat
  /-- `RE2::FullMatch` -/
  fullMatch : StringView → String → Bool

section Doubles

variable (bits : BitVec 64)

def exponent : BitVec 11 := bits.extractLsb' 52 11
def fraction : BitVec 52 := bits.extractLsb' 0 52

/-- `std::isnan` -/
def isnan : Bool := exponent bits == BitVec.allOnes 11 && fraction bits != 0

/-- `std::isinf` -/
def isinf : Bool := exponent bits == BitVec.allOnes 11 && fraction bits == 0

/-- A double that is neither zero nor no number. -/
def ordered : Bool := !isnan bits && !(exponent bits == 0 && fraction bits == 0)

/-- `value > 0` -/
def positive : Bool := ordered bits && !bits.msb

/-- `value < 0` -/
def negative : Bool := ordered bits && bits.msb

end Doubles

/-- `absl::StrContains` -/
def strContains (haystack needle : StringView) : Bool := haystack.tails.any fun tail => needle.isPrefixOf tail

def isIp (toValidate : StringView) : Bool := isIpv4 toValidate || isIpv6 toValidate

def isIpPrefix (platform : DataModel) (toValidate : StringView) (strict : Bool) : Option Bool :=
  match isIpv4Prefix platform toValidate strict with
  | none => none
  | some answer => some (answer || isIpv6Prefix toValidate strict)

/-- A value that the language may leave undefined. -/
def defined {α : Type} : Option α → Call α
  | none => .error .undefined
  | some value => .ok value

namespace Cel

variable {M : Type} (library : Library M)

def getField (msgval nameval : CelValue M) : Call (CelValue M) :=
  if !msgval.isMessage then .ok (.createError "expected a message value for first argument")
  else if !nameval.isString then .ok (.createError "expected a string value for second argument")
  else do
    let message ← msgval.messageOrDie
    let name ← nameval.stringOrDie
    match library.findFieldByName message name with
    | none => pure (.createError "no such field")
    | some field =>
      if library.isRepeated field then pure (.list (library.fieldBackedList message field))
      else pure ((library.createValueFromSingleField message field).getD .null)

def isNan (rhs : CelValue M) : Call (CelValue M) :=
  if !rhs.isDouble then .ok (.createError "expected a double value")
  else do
    let value ← rhs.doubleOrDie
    pure (.bool (isnan value))

def isInfX (rhs sign : CelValue M) : Call (CelValue M) :=
  if !rhs.isDouble then .ok (.createError "expected a double value")
  else if !sign.isInt64 then .ok (.createError "expected an int64 value")
  else do
    let value ← rhs.doubleOrDie
    let signValue ← sign.int64OrDie
    if signValue.toInt > 0 then pure (.bool (isinf value && positive value))
    else if signValue.toInt < 0 then pure (.bool (isinf value && negative value))
    else pure (.bool (isinf value))

def isInf (rhs : CelValue M) : Call (CelValue M) := isInfX rhs (.int64 0)

/-- The loop over the items, up to the first that cannot be added. -/
def addItems : library.CelMapBuilder → List (CelValue M) → Option library.CelMapBuilder
  | celMap, [] => some celMap
  | celMap, celValue :: items =>
    match library.add celMap celValue celValue with
    | none => none
    | some celMap => addItems celMap items

def unique (rhs : CelValue M) : Call (CelValue M) :=
  if !rhs.isList then .ok (.createError "expected a list value")
  else do
    let celList ← rhs.listOrDie
    match addItems library library.newMapBuilder celList with
    | none => pure (.bool false)
    | some celMap => pure (.bool (celList.length == library.size celMap))

/-- A function of two byte strings that checks the second one by hand. -/
def ofBytes (message : String) (holds : StringView → StringView → Bool) (lhs : StringView) (rhs : CelValue M) :
    Call (CelValue M) :=
  if !rhs.isBytes then .ok (.createError message)
  else do
    let value ← rhs.bytesOrDie
    pure (.bool (holds lhs value))

def contains : StringView → CelValue M → Call (CelValue M) := ofBytes "does not contain the right value" strContains

def startsWith : StringView → CelValue M → Call (CelValue M) :=
  ofBytes "doesnt start with the right thing" fun lhs rhs => rhs.isPrefixOf lhs

def endsWith : StringView → CelValue M → Call (CelValue M) :=
  ofBytes "doesnt end with the right thing" fun lhs rhs => rhs.isSuffixOf lhs

def isHostname (lhs : StringView) : Call (CelValue M) := .ok (.bool (Extra.isHostname lhs))

def emailPattern : String :=
  "^[a-zA-Z0-9.!#$%&'*+\\/=?^_`\x7b|\x7d~-]+@[a-zA-Z0-9](?:[a-zA-Z0-9-]\x7b0,61\x7d[a-zA-Z0-9])?" ++
    "(?:\\.[a-zA-Z0-9](?:[a-zA-Z0-9-]\x7b0,61\x7d[a-zA-Z0-9])?)*$"

def isEmail (lhs : StringView) : Call (CelValue M) := .ok (.bool (library.fullMatch lhs emailPattern))

def isIPvX (lhs : StringView) (rhs : CelValue M) : Call (CelValue M) := do
  let version ← rhs.int64OrDie
  if version = 0 then pure (.bool (isIp lhs))
  else if version = 4 then pure (.bool (isIpv4 lhs))
  else if version = 6 then pure (.bool (isIpv6 lhs))
  else pure (.bool false)

def isIP (lhs : StringView) : Call (CelValue M) := isIPvX lhs (.int64 0)

def isHostAndPort (lhs : StringView) (rhs : CelValue M) : Call (CelValue M) := do
  let portReq ← rhs.boolOrDie
  pure (.bool (Extra.isHostAndPort lhs portReq))

/-- `ver` is an `int`, which has 32 bits in all data models. -/
def isIpPrefixXY (platform : DataModel) (lhs : StringView) (rhs1 rhs2 : CelValue M) : Call (CelValue M) := do
  let version ← rhs1.int64OrDie
  let ver := version.setWidth 32
  let strict ← rhs2.boolOrDie
  if ver = 0 then do
    let answer ← defined (Extra.isIpPrefix platform lhs strict)
    pure (.bool answer)
  else if ver = 4 then do
    let answer ← defined (isIpv4Prefix platform lhs strict)
    pure (.bool answer)
  else if ver = 6 then pure (.bool (isIpv6Prefix lhs strict))
  else pure (.bool false)

def isIpPrefixX (platform : DataModel) (lhs : StringView) (rhs : CelValue M) : Call (CelValue M) :=
  if rhs.isBool then isIpPrefixXY platform lhs (.int64 0) rhs else isIpPrefixXY platform lhs rhs (.bool false)

def isIpPrefix (platform : DataModel) (lhs : StringView) : Call (CelValue M) :=
  isIpPrefixXY platform lhs (.int64 0) (.bool false)

def isUri (lhs : StringView) : Call (CelValue M) := .ok (.bool (validateUri lhs))

def isUriRef (lhs : StringView) : Call (CelValue M) := .ok (.bool (validateUriReference lhs))

end Cel

/-- A call as CEL dispatches it: a parameter registered as a value takes any value, one
registered as a string or as bytes takes only these. -/
inductive ExtraCall (M : Type) where
  | getField (msgval nameval : CelValue M)
  | isNan (rhs : CelValue M)
  | isInfX (rhs sign : CelValue M)
  | isInf (rhs : CelValue M)
  | unique (rhs : CelValue M)
  | contains (lhs : StringView) (rhs : CelValue M)
  | isIPvX (lhs : StringView) (rhs : CelValue M)
  | isIP (lhs : StringView)
  | isIpPrefixXY (lhs : StringView) (rhs1 rhs2 : CelValue M)
  | isIpPrefixX (lhs : StringView) (rhs : CelValue M)
  | isIpPrefix (lhs : StringView)
  | startsWith (lhs : StringView) (rhs : CelValue M)
  | endsWith (lhs : StringView) (rhs : CelValue M)
  | isHostname (lhs : StringView)
  | isEmail (lhs : StringView)
  | isUri (lhs : StringView)
  | isUriRef (lhs : StringView)
  | isHostAndPort (lhs : StringView) (rhs : CelValue M)

def ExtraCall.run {M : Type} (library : Library M) : ExtraCall M → Call (CelValue M)
  | getField msgval nameval => Cel.getField library msgval nameval
  | isNan rhs => Cel.isNan rhs
  | isInfX rhs sign => Cel.isInfX rhs sign
  | isInf rhs => Cel.isInf rhs
  | unique rhs => Cel.unique library rhs
  | contains lhs rhs => Cel.contains lhs rhs
  | isIPvX lhs rhs => Cel.isIPvX lhs rhs
  | isIP lhs => Cel.isIP lhs
  | isIpPrefixXY lhs rhs1 rhs2 => Cel.isIpPrefixXY library.platform lhs rhs1 rhs2
  | isIpPrefixX lhs rhs => Cel.isIpPrefixX library.platform lhs rhs
  | isIpPrefix lhs => Cel.isIpPrefix library.platform lhs
  | startsWith lhs rhs => Cel.startsWith lhs rhs
  | endsWith lhs rhs => Cel.endsWith lhs rhs
  | isHostname lhs => Cel.isHostname lhs
  | isEmail lhs => Cel.isEmail library lhs
  | isUri lhs => Cel.isUri lhs
  | isUriRef lhs => Cel.isUriRef lhs
  | isHostAndPort lhs rhs => Cel.isHostAndPort lhs rhs

end Protovalidate.Extra
