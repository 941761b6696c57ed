import Protovalidate.Extra.CelFunctions

/-! `RegisterExtraFuncs` and `NewRuleBuilder`: how the extension functions get into the
registry of an expression builder, and which statuses say so. -/

namespace Protovalidate.Extra

open Lib

section Functions

/-- The kinds of arguments that `FunctionAdapter` tells apart. -/
inductive ArgumentKind where
  | celValue | stringHolder | bytesHolder
deriving DecidableEq, Repr

/-- `CelFunctionDescriptor` -/
structure FunctionDescriptor where
  name : String
  receiverStyle : Bool
  arguments : List ArgumentKind
deriving DecidableEq, Repr

inductive ExtraFunc where
  | getField | isNan | isInfX | isInf | unique | contains | isIPvX | isIP | isIpPrefixXY | isIpPrefixX | isIpPrefix
  | startsWith | endsWith | isHostname | isEmail | isUri | isUriRef | isHostAndPort
deriving DecidableEq, Repr

/-- The name and the type arguments that each function is registered with. -/
def ExtraFunc.descriptor : ExtraFunc → FunctionDescriptor
  | getField => ⟨"getField", false, [.celValue, .celValue]⟩
  | isNan => ⟨"isNan", true, [.celValue]⟩
  | isInfX => ⟨"isInf", true, [.celValue, .celValue]⟩
  | isInf => ⟨"isInf", true, [.celValue]⟩
  | unique => ⟨"unique", true, [.celValue]⟩
  | contains => ⟨"contains", true, [.bytesHolder, .celValue]⟩
  | isIPvX => ⟨"isIp", true, [.stringHolder, .celValue]⟩
  | isIP => ⟨"isIp", true, [.stringHolder]⟩
  | isIpPrefixXY => ⟨"isIpPrefix", true, [.stringHolder, .celValue, .celValue]⟩
  | isIpPrefixX => ⟨"isIpPrefix", true, [.stringHolder, .celValue]⟩
  | isIpPrefix => ⟨"isIpPrefix", true, [.stringHolder]⟩
  | startsWith => ⟨"startsWith", true, [.bytesHolder, .celValue]⟩
  | endsWith => ⟨"endsWith", true, [.bytesHolder, .celValue]⟩
  | isHostname => ⟨"isHostname", true, [.stringHolder]⟩
  | isEmail => ⟨"isEmail", true, [.stringHolder]⟩
  | isUri => ⟨"isUri", true, [.stringHolder]⟩
  | isUriRef => ⟨"isUriRef", true, [.stringHolder]⟩
  | isHostAndPort => ⟨"isHostAndPort", true, [.stringHolder, .celValue]⟩

variable {M : Type}

/-- Whether a value is passed to a parameter. -/
def ArgumentKind.accepts : ArgumentKind → CelValue M → Prop
  | celValue, _ => True
  | stringHolder, value => ∃ text, value = .string text
  | bytesHolder, value => ∃ contents, value = .bytes contents

namespace ExtraCall

def function : ExtraCall M → ExtraFunc
  | getField _ _ => .getField
  | isNan _ => .isNan
  | isInfX _ _ => .isInfX
  | isInf _ => .isInf
  | unique _ => .unique
  | contains _ _ => .contains
  | isIPvX _ _ => .isIPvX
  | isIP _ => .isIP
  | isIpPrefixXY _ _ _ => .isIpPrefixXY
  | isIpPrefixX _ _ => .isIpPrefixX
  | isIpPrefix _ => .isIpPrefix
  | startsWith _ _ => .startsWith
  | endsWith _ _ => .endsWith
  | isHostname _ => .isHostname
  | isEmail _ => .isEmail
  | isUri _ => .isUri
  | isUriRef _ => .isUriRef
  | isHostAndPort _ _ => .isHostAndPort

def arguments : ExtraCall M → List (CelValue M)
  | getField msgval nameval => [msgval, nameval]
  | isInfX rhs sign => [rhs, sign]
  | isNan rhs | isInf rhs | unique rhs => [rhs]
  | contains lhs rhs | startsWith lhs rhs | endsWith lhs rhs => [.bytes lhs, rhs]
  | isIPvX lhs rhs | isIpPrefixX lhs rhs | isHostAndPort lhs rhs => [.string lhs, rhs]
  | isIpPrefixXY lhs rhs1 rhs2 => [.string lhs, rhs1, rhs2]
  | isIP lhs | isIpPrefix lhs | isHostname lhs | isEmail lhs | isUri lhs | isUriRef lhs => [.string lhs]

/-- The calls are the tuples of arguments that the descriptors of the functions admit. -/
theorem dispatch_iff (function : ExtraFunc) (arguments : List (CelValue M)) :
    (∃ call : ExtraCall M, call.function = function ∧ call.arguments = arguments) ↔
      List.Forall₂ ArgumentKind.accepts function.descriptor.arguments arguments := by
  constructor
  · rintro ⟨call, rfl, rfl⟩
    cases call <;> simp [ExtraCall.function, ExtraCall.arguments, ExtraFunc.descriptor, ArgumentKind.accepts]
  · intro admitted
    cases function <;> simp [ExtraFunc.descriptor, ArgumentKind.accepts, List.forall₂_cons_left_iff] at admitted
    case getField =>
      obtain ⟨msgval, nameval, rfl⟩ := admitted
      exact ⟨.getField msgval nameval, rfl, rfl⟩
    case isNan =>
      obtain ⟨rhs, rfl⟩ := admitted
      exact ⟨.isNan rhs, rfl, rfl⟩
    case isInfX =>
      obtain ⟨rhs, sign, rfl⟩ := admitted
      exact ⟨.isInfX rhs sign, rfl, rfl⟩
    case isInf =>
      obtain ⟨rhs, rfl⟩ := admitted
      exact ⟨.isInf rhs, rfl, rfl⟩
    case unique =>
      obtain ⟨rhs, rfl⟩ := admitted
      exact ⟨.unique rhs, rfl, rfl⟩
    case contains =>
      obtain ⟨lhs, rhs, rfl⟩ := admitted
      exact ⟨.contains lhs rhs, rfl, rfl⟩
    case isIPvX =>
      obtain ⟨lhs, rhs, rfl⟩ := admitted
      exact ⟨.isIPvX lhs rhs, rfl, rfl⟩
    case isIP =>
      obtain ⟨lhs, rfl⟩ := admitted
      exact ⟨.isIP lhs, rfl, rfl⟩
    case isIpPrefixXY =>
      obtain ⟨lhs, rhs1, rhs2, rfl⟩ := admitted
      exact ⟨.isIpPrefixXY lhs rhs1 rhs2, rfl, rfl⟩
    case isIpPrefixX =>
      obtain ⟨lhs, rhs, rfl⟩ := admitted
      exact ⟨.isIpPrefixX lhs rhs, rfl, rfl⟩
    case isIpPrefix =>
      obtain ⟨lhs, rfl⟩ := admitted
      exact ⟨.isIpPrefix lhs, rfl, rfl⟩
    case startsWith =>
      obtain ⟨lhs, rhs, rfl⟩ := admitted
      exact ⟨.startsWith lhs rhs, rfl, rfl⟩
    case endsWith =>
      obtain ⟨lhs, rhs, rfl⟩ := admitted
      exact ⟨.endsWith lhs rhs, rfl, rfl⟩
    case isHostname =>
      obtain ⟨lhs, rfl⟩ := admitted
      exact ⟨.isHostname lhs, rfl, rfl⟩
    case isEmail =>
      obtain ⟨lhs, rfl⟩ := admitted
      exact ⟨.isEmail lhs, rfl, rfl⟩
    case isUri =>
      obtain ⟨lhs, rfl⟩ := admitted
      exact ⟨.isUri lhs, rfl, rfl⟩
    case isUriRef =>
      obtain ⟨lhs, rfl⟩ := admitted
      exact ⟨.isUriRef lhs, rfl, rfl⟩
    case isHostAndPort =>
      obtain ⟨lhs, rhs, rfl⟩ := admitted
      exact ⟨.isHostAndPort lhs rhs, rfl, rfl⟩

end ExtraCall

end Functions

section Chain

variable {σ ε : Type}

/-- `CreateAndRegister` of a function with its descriptor: a status, and the registry then. -/
abbrev Registrar (σ ε : Type) := FunctionDescriptor → ExtraFunc → σ → Except ε Unit × σ

variable (createAndRegister : Registrar σ ε)

/-- Register a function and go on with the status. -/
def attempt (function : ExtraFunc) (registry : σ) (next : Except ε Unit → σ → Except ε Unit × σ) : Except ε Unit × σ :=
  let result := createAndRegister function.descriptor function registry
  next result.1 result.2

def registerExtraFuncs (registry : σ) : Except ε Unit × σ :=
  attempt createAndRegister .getField registry fun getFieldStatus registry =>
  if !getFieldStatus.isOk then (getFieldStatus, registry) else
  attempt createAndRegister .isNan registry fun isNanStatus registry =>
  if !isNanStatus.isOk then (isNanStatus, registry) else
  attempt createAndRegister .isInfX registry fun isInfXStatus registry =>
  if !isInfXStatus.isOk then (isInfXStatus, registry) else
  attempt createAndRegister .isInf registry fun isInfStatus registry =>
  if !isInfStatus.isOk then (isInfStatus, registry) else
  attempt createAndRegister .unique registry fun uniqueStatus registry =>
  if !uniqueStatus.isOk then (uniqueStatus, registry) else
  attempt createAndRegister .contains registry fun containsStatus registry =>
  if !containsStatus.isOk then (containsStatus, registry) else
  attempt createAndRegister .isIPvX registry fun isIpvStatus registry =>
  if !isIpvStatus.isOk then (isIpvStatus, registry) else
  attempt createAndRegister .isIP registry fun isIpStatus registry =>
  if !isIpStatus.isOk then (isIpStatus, registry) else
  attempt createAndRegister .isIpPrefixXY registry fun isIpPrefixStatusXY registry =>
  if !isIpPrefixStatusXY.isOk then (isIpPrefixStatusXY, registry) else
  attempt createAndRegister .isIpPrefixX registry fun isIpPrefixStatusX registry =>
  if !isIpPrefixStatusX.isOk then (isIpPrefixStatusX, registry) else
  attempt createAndRegister .isIpPrefix registry fun isIpPrefixStatus registry =>
  if !isIpPrefixStatus.isOk then (isIpPrefixStatus, registry) else
  attempt createAndRegister .startsWith registry fun startsWithStatus registry =>
  if !startsWithStatus.isOk then (startsWithStatus, registry) else
  attempt createAndRegister .endsWith registry fun endsWithStatus registry =>
  if !endsWithStatus.isOk then (endsWithStatus, registry) else
  attempt createAndRegister .isHostname registry fun isHostnameStatus registry =>
  if !isHostnameStatus.isOk then (isHostnameStatus, registry) else
  attempt createAndRegister .isEmail registry fun isEmailStatus registry =>
  if !isEmailStatus.isOk then (isEmailStatus, registry) else
  attempt createAndRegister .isUri registry fun isUriStatus registry =>
  if !isUriStatus.isOk then (isUriStatus, registry) else
  attempt createAndRegister .isUriRef registry fun isUriRefStatus registry =>
  -- The source returns the status of the function before.
  if !isUriRefStatus.isOk then (isUriStatus, registry) else
  attempt createAndRegister .isHostAndPort registry fun isHostAndPortStatus registry =>
  if !isHostAndPortStatus.isOk then (isHostAndPortStatus, registry) else
  (.ok (), registry)

/-- A builder, known by its registry, or the status of what could not be registered. -/
def newRuleBuilder (registerBuiltinFunctions registerStringExtensionFunctions : σ → Except ε Unit × σ)
    (registry : σ) : Except ε σ :=
  let builtins := registerBuiltinFunctions registry
  match builtins.1 with
  | .error failure => .error failure
  | .ok () =>
    let strings := registerStringExtensionFunctions builtins.2
    match strings.1 with
    | .error failure => .error failure
    | .ok () =>
      let extras := registerExtraFuncs createAndRegister strings.2
      match extras.1 with
      | .error failure => .error failure
      | .ok () => .ok extras.2

/-- The functions in front of `isUriRef`, in the order of the chain. -/
def beforeUriRef : List ExtraFunc :=
  [.getField, .isNan, .isInfX, .isInf, .unique, .contains, .isIPvX, .isIP, .isIpPrefixXY, .isIpPrefixX, .isIpPrefix,
    .startsWith, .endsWith, .isHostname, .isEmail, .isUri]

/-- All that is listed. -/
def extraFuncs : List ExtraFunc := beforeUriRef ++ [.isUriRef, .isHostAndPort]

theorem mem_extraFuncs (function : ExtraFunc) : function ∈ extraFuncs := by
  cases function <;> decide

/-- Register functions up to the first one that fails, and go on behind the last one. -/
def registerThen (next : σ → Except ε Unit × σ) : List ExtraFunc → σ → Except ε Unit × σ
  | [], registry => next registry
  | function :: functions, registry =>
    attempt createAndRegister function registry fun status registry =>
      if !status.isOk then (status, registry) else registerThen next functions registry

def registerAll : List ExtraFunc → σ → Except ε Unit × σ := registerThen createAndRegister fun registry => (.ok (), registry)

/-- The registration of `isUriRef` fails, and all in front of it succeed. -/
def DropsUriRef (registry : σ) : Prop :=
  (registerAll createAndRegister beforeUriRef registry).1 = .ok () ∧
    (createAndRegister ExtraFunc.isUriRef.descriptor .isUriRef (registerAll createAndRegister beforeUriRef registry).2).1 ≠ .ok ()

end Chain

section Outcomes

variable {σ ε : Type} {createAndRegister : Registrar σ ε} {registry : σ}

section Steps

variable {function : ExtraFunc} {functions : List ExtraFunc} (next : σ → Except ε Unit × σ)

theorem registerThen_cons_ok (succeeds : (createAndRegister function.descriptor function registry).1 = .ok ()) :
    registerThen createAndRegister next (function :: functions) registry =
      registerThen createAndRegister next functions (createAndRegister function.descriptor function registry).2 := by
  rw [registerThen, attempt, succeeds]
  rfl

theorem registerThen_cons_error {failure : ε}
    (fails : (createAndRegister function.descriptor function registry).1 = .error failure) :
    registerThen createAndRegister next (function :: functions) registry =
      (.error failure, (createAndRegister function.descriptor function registry).2) := by
  rw [registerThen, attempt, fails]
  rfl

end Steps

theorem registerThen_append (next : σ → Except ε Unit × σ) (first more : List ExtraFunc) :
    registerThen createAndRegister next (first ++ more) registry =
      registerThen createAndRegister (registerThen createAndRegister next more) first registry := by
  induction first generalizing registry with
  | nil => rfl
  | cons function first ih => simp only [List.cons_append, registerThen, attempt, ih]

/-- What follows is reached if and only if all functions have been registered. -/
theorem registerThen_ok (next : σ → Except ε Unit × σ) {functions : List ExtraFunc}
    (succeeds : (registerAll createAndRegister functions registry).1 = .ok ()) :
    registerThen createAndRegister next functions registry = next (registerAll createAndRegister functions registry).2 := by
  induction functions generalizing registry with
  | nil => rfl
  | cons function functions ih =>
    rw [registerAll] at succeeds ⊢
    cases status : (createAndRegister function.descriptor function registry).1 with
    | error failure =>
      rw [registerThen_cons_error _ status] at succeeds
      cases succeeds
    | ok _ =>
      rw [registerThen_cons_ok _ status] at succeeds
      rw [registerThen_cons_ok _ status, registerThen_cons_ok _ status]
      exact ih succeeds

theorem registerThen_fails (next : σ → Except ε Unit × σ) {functions : List ExtraFunc}
    (fails : (registerAll createAndRegister functions registry).1 ≠ .ok ()) :
    registerThen createAndRegister next functions registry = registerAll createAndRegister functions registry := by
  induction functions generalizing registry with
  | nil => exact absurd rfl fails
  | cons function functions ih =>
    rw [registerAll] at fails ⊢
    cases status : (createAndRegister function.descriptor function registry).1 with
    | error failure => rw [registerThen_cons_error _ status, registerThen_cons_error _ status]
    | ok _ =>
      rw [registerThen_cons_ok _ status] at fails
      rw [registerThen_cons_ok _ status, registerThen_cons_ok _ status]
      exact ih fails

/-- The chain, with the status that is returned where `isUriRef` fails. -/
theorem registerExtraFuncs_eq : registerExtraFuncs createAndRegister registry =
    registerThen createAndRegister (fun registry =>
      attempt createAndRegister .isUriRef registry fun isUriRefStatus registry =>
        if !isUriRefStatus.isOk then (.ok (), registry) else registerAll createAndRegister [.isHostAndPort] registry)
      beforeUriRef registry := by
  have front : beforeUriRef = beforeUriRef.take 15 ++ [.isUri] := rfl
  rw [front, registerThen_append]
  change registerThen createAndRegister (fun registry => attempt createAndRegister .isUri registry fun isUriStatus registry =>
    if !isUriStatus.isOk then (isUriStatus, registry) else
    attempt createAndRegister .isUriRef registry fun isUriRefStatus registry =>
      if !isUriRefStatus.isOk then (isUriStatus, registry) else registerAll createAndRegister [.isHostAndPort] registry)
    (beforeUriRef.take 15) registry = _
  congr 1
  funext registry
  cases status : (createAndRegister ExtraFunc.isUri.descriptor .isUri registry).1 with
  | error failure =>
    rw [registerThen_cons_error _ status, attempt, status]
    rfl
  | ok _ =>
    rw [registerThen_cons_ok _ status, attempt, status]
    rfl

/-- Where `isUriRef` is dropped, the result is a success. -/
theorem registerExtraFuncs_drops (drops : DropsUriRef createAndRegister registry) :
    registerExtraFuncs createAndRegister registry =
      (.ok (), (createAndRegister ExtraFunc.isUriRef.descriptor .isUriRef
        (registerAll createAndRegister beforeUriRef registry).2).2) := by
  rw [registerExtraFuncs_eq, registerThen_ok _ drops.1, attempt]
  have failed := drops.2
  generalize createAndRegister ExtraFunc.isUriRef.descriptor .isUriRef _ = result at failed ⊢
  obtain ⟨status, registry⟩ := result
  cases status with
  | error failure => rfl
  | ok _ => exact absurd rfl failed

/-- Everywhere else, all functions are registered up to the first one that fails. -/
theorem registerExtraFuncs_keeps (keeps : ¬DropsUriRef createAndRegister registry) :
    registerExtraFuncs createAndRegister registry = registerAll createAndRegister extraFuncs registry := by
  rw [registerExtraFuncs_eq, extraFuncs, registerAll, registerThen_append]
  by_cases succeeds : (registerAll createAndRegister beforeUriRef registry).1 = .ok ()
  · have registered := not_not.mp fun failed => keeps ⟨succeeds, failed⟩
    rw [registerThen_ok _ succeeds, registerThen_ok _ succeeds, registerThen_cons_ok _ registered, attempt, registered]
    rfl
  · rw [registerThen_fails _ succeeds, registerThen_fails _ succeeds]

end Outcomes

section Log

variable {σ ε : Type}

/-- The registrations that have been tried, each with its status. -/
abbrev Log (ε : Type) := List (ExtraFunc × Except ε Unit)

/-- Registrations that are written down. -/
def logged (createAndRegister : Registrar σ ε) : Registrar (σ × Log ε) ε := fun descriptor function state =>
  let result := createAndRegister descriptor function state.1
  (result.1, result.2, state.2 ++ [(function, result.1)])

/-- Registrations of other functions, which are not. -/
def unlogged (register : σ → Except ε Unit × σ) (state : σ × Log ε) : Except ε Unit × (σ × Log ε) :=
  ((register state.1).1, (register state.1).2, state.2)

/-- A function that has been registered. -/
def succeeded (function : ExtraFunc) : ExtraFunc × Except ε Unit := (function, .ok ())

/-- The status of a call, and what the log says about it. -/
structure Reported (functions : List ExtraFunc) (status : Except ε Unit) (log : Log ε) : Prop where
  succeeds : status = .ok () → log = functions.map succeeded
  fails : ∀ failure, status = .error failure → ∃ front function rest, functions = front ++ function :: rest ∧
    log = front.map succeeded ++ [(function, .error failure)]

variable {createAndRegister : Registrar σ ε} {registry : σ} {log : Log ε}

theorem Reported.cons {function : ExtraFunc} {functions : List ExtraFunc} {status : Except ε Unit}
    (reported : Reported functions status log) : Reported (function :: functions) status (succeeded function :: log) where
  succeeds := by
    intro succeeds
    rw [reported.succeeds succeeds, List.map_cons]
  fails := by
    intro failure fails
    obtain ⟨front, failed, rest, same, entries⟩ := reported.fails failure fails
    exact ⟨function :: front, failed, rest, by rw [same]; rfl, by rw [entries]; rfl⟩

theorem reported_error (function : ExtraFunc) (functions : List ExtraFunc) (failure : ε) :
    Reported (function :: functions) (.error failure) [(function, .error failure)] where
  succeeds := by
    intro impossible
    cases impossible
  fails := by
    intro failure' same
    cases same
    exact ⟨[], function, functions, rfl, rfl⟩

/-- The log takes no part in what is registered, and shows where it has ended. -/
theorem registerAll_logged (functions : List ExtraFunc) :
    ∃ entries, registerAll (logged createAndRegister) functions (registry, log) =
        ((registerAll createAndRegister functions registry).1, (registerAll createAndRegister functions registry).2, log ++ entries) ∧
      Reported functions (registerAll createAndRegister functions registry).1 entries := by
  induction functions generalizing registry log with
  | nil =>
    refine ⟨[], by rw [List.append_nil]; rfl, fun _ => rfl, fun failure impossible => ?_⟩
    cases impossible
  | cons function functions ih =>
    rw [registerAll, registerAll]
    cases status : (createAndRegister function.descriptor function registry).1 with
    | error failure =>
      have logs : (logged createAndRegister function.descriptor function (registry, log)).1 = .error failure := status
      rw [registerThen_cons_error _ status, registerThen_cons_error _ logs]
      refine ⟨[(function, .error failure)], ?_, reported_error function functions failure⟩
      rw [logged, status]
    | ok _ =>
      have logs : (logged createAndRegister function.descriptor function (registry, log)).1 = .ok () := status
      rw [registerThen_cons_ok _ status, registerThen_cons_ok _ logs]
      obtain ⟨entries, same, reported⟩ := @ih (createAndRegister function.descriptor function registry).2 (log ++ [succeeded function])
      refine ⟨succeeded function :: entries, ?_, reported.cons⟩
      have written : (logged createAndRegister function.descriptor function (registry, log)).2 =
          ((createAndRegister function.descriptor function registry).2, log ++ [succeeded function]) := by
        rw [logged, status]
        rfl
      rw [written, List.append_cons log (succeeded function) entries]
      exact same

end Log

section Reports

variable {σ ε : Type} (createAndRegister : Registrar σ ε)

/-- All functions that are listed have been registered. -/
def AllRegistered (log : Log ε) : Prop := ∀ function ∈ extraFuncs, succeeded function ∈ log

/-- A call succeeds if and only if it registers all functions, and otherwise it returns
the status of the first that fails. -/
def Reports (registry : σ) : Prop :=
  let result := registerExtraFuncs (logged createAndRegister) (registry, [])
  (result.1 = .ok () ↔ AllRegistered result.2.2) ∧
    (¬AllRegistered result.2.2 → ∃ front function failure rest, result.2.2 = front ++ (function, .error failure) :: rest ∧
      (∀ entry ∈ front, entry.2 = .ok ()) ∧ result.1 = .error failure)

/-- A builder that is handed out has all functions. -/
def BuildsAll (registerBuiltinFunctions registerStringExtensionFunctions : σ → Except ε Unit × σ) (registry : σ) : Prop :=
  ∀ builder, newRuleBuilder (logged createAndRegister) (unlogged registerBuiltinFunctions)
    (unlogged registerStringExtensionFunctions) (registry, []) = .ok builder → AllRegistered builder.2

variable {createAndRegister} {registry : σ}

theorem Reported.all {log : Log ε} (reported : Reported extraFuncs (.ok ()) log) : AllRegistered log := by
  intro function member
  rw [reported.succeeds rfl]
  exact List.mem_map_of_mem member

/-- The function that fails is listed once. -/
theorem Reported.not_all {log : Log ε} {failure : ε} (reported : Reported extraFuncs (.error failure) log) :
    ¬AllRegistered log := by
  intro all
  obtain ⟨front, failed, rest, same, entries⟩ := reported.fails failure rfl
  have distinct : extraFuncs.Nodup := by decide
  rw [same, List.nodup_middle, List.nodup_cons] at distinct
  have member := all failed (mem_extraFuncs failed)
  rw [entries] at member
  rcases List.mem_append.mp member with registered | other
  · obtain ⟨function, before, equal⟩ := List.mem_map.mp registered
    obtain rfl := congrArg Prod.fst equal
    exact distinct.1 (List.mem_append_left rest before)
  · cases List.mem_singleton.mp other

theorem dropsUriRef_logged {log : Log ε} :
    DropsUriRef (logged createAndRegister) (registry, log) ↔ DropsUriRef createAndRegister registry := by
  obtain ⟨entries, same, -⟩ := @registerAll_logged _ _ createAndRegister registry log beforeUriRef
  rw [DropsUriRef, DropsUriRef, same]
  exact Iff.rfl

/-- Where `isUriRef` is dropped, `isHostAndPort` is not even tried. -/
theorem DropsUriRef.incomplete (drops : DropsUriRef createAndRegister registry) :
    (registerExtraFuncs (logged createAndRegister) (registry, [])).1 = .ok () ∧
      ¬AllRegistered (registerExtraFuncs (logged createAndRegister) (registry, [])).2.2 := by
  obtain ⟨entries, same, reported⟩ := @registerAll_logged _ _ createAndRegister registry [] beforeUriRef
  rw [registerExtraFuncs_drops (dropsUriRef_logged.mpr drops), same, reported.succeeds drops.1]
  refine ⟨rfl, fun all => ?_⟩
  rcases List.mem_append.mp (all .isHostAndPort (mem_extraFuncs _)) with registered | other
  · obtain ⟨function, before, equal⟩ := List.mem_map.mp registered
    obtain rfl := congrArg Prod.fst equal
    exact absurd before (show ExtraFunc.isHostAndPort ∉ beforeUriRef by decide)
  · cases List.mem_singleton.mp other

/-- Everywhere else, the log ends with the status that is returned. -/
theorem reported_keeps (keeps : ¬DropsUriRef createAndRegister registry) :
    Reported extraFuncs (registerExtraFuncs (logged createAndRegister) (registry, [])).1
      (registerExtraFuncs (logged createAndRegister) (registry, [])).2.2 := by
  obtain ⟨entries, same, reported⟩ := @registerAll_logged _ _ createAndRegister registry [] extraFuncs
  rw [registerExtraFuncs_keeps (mt dropsUriRef_logged.mp keeps), same]
  exact reported

/-- The chain says what has been registered, except where it drops `isUriRef`. -/
theorem reports_iff : Reports createAndRegister registry ↔ ¬DropsUriRef createAndRegister registry := by
  constructor
  · intro reports drops
    exact drops.incomplete.2 (reports.1.mp drops.incomplete.1)
  · intro keeps
    have reported := reported_keeps keeps
    rw [Reports]
    generalize registerExtraFuncs (logged createAndRegister) (registry, []) = result at reported
    obtain ⟨status, registry', log⟩ := result
    cases status with
    | ok _ =>
      refine ⟨iff_of_true rfl reported.all, fun missing => absurd reported.all missing⟩
    | error failure =>
      refine ⟨iff_of_false (fun impossible => by cases impossible) reported.not_all, fun _ => ?_⟩
      obtain ⟨front, function, rest, -, entries⟩ := reported.fails failure rfl
      refine ⟨front.map succeeded, function, failure, [], entries, fun entry member => ?_, rfl⟩
      obtain ⟨registered, -, equal⟩ := List.mem_map.mp member
      rw [← equal]
      rfl

/-- The registrations of the runtime succeed, and leave a registry in which `isUriRef` is dropped. -/
def BuilderDropsUriRef (createAndRegister : Registrar σ ε)
    (registerBuiltinFunctions registerStringExtensionFunctions : σ → Except ε Unit × σ) (registry : σ) : Prop :=
  (registerBuiltinFunctions registry).1 = .ok () ∧
    (registerStringExtensionFunctions (registerBuiltinFunctions registry).2).1 = .ok () ∧
    DropsUriRef createAndRegister (registerStringExtensionFunctions (registerBuiltinFunctions registry).2).2

theorem buildsAll_iff {registerBuiltinFunctions registerStringExtensionFunctions : σ → Except ε Unit × σ} :
    BuildsAll createAndRegister registerBuiltinFunctions registerStringExtensionFunctions registry ↔
      ¬BuilderDropsUriRef createAndRegister registerBuiltinFunctions registerStringExtensionFunctions registry := by
  simp only [BuildsAll, BuilderDropsUriRef, newRuleBuilder, unlogged]
  cases (registerBuiltinFunctions registry).1 with
  | error failure => simp
  | ok _ =>
    cases (registerStringExtensionFunctions (registerBuiltinFunctions registry).2).1 with
    | error failure => simp
    | ok _ =>
      generalize (registerStringExtensionFunctions (registerBuiltinFunctions registry).2).2 = registry
      simp only [true_and]
      constructor
      · intro complete drops
        have incomplete := drops.incomplete
        rw [incomplete.1] at complete
        exact incomplete.2 (complete _ rfl)
      · intro keeps builder built
        have reported := reported_keeps keeps
        cases status : (registerExtraFuncs (logged createAndRegister) (registry, [])).1 with
        | error failure =>
          rw [status] at built
          cases built
        | ok _ =>
          rw [status] at built reported
          cases built
          exact reported.all

/-- The result of `RegisterExtraFuncs` says what has been registered, and so the builders
of `NewRuleBuilder` are complete, if and only if it is not the registration of `isUriRef`
that fails first. -/
theorem registerExtraFuncs_reports_iff {σ ε : Type} (createAndRegister : Registrar σ ε)
    (registerBuiltinFunctions registerStringExtensionFunctions : σ → Except ε Unit × σ) (registry : σ) :
    (Reports createAndRegister registry ↔ ¬DropsUriRef createAndRegister registry) ∧
      (BuildsAll createAndRegister registerBuiltinFunctions registerStringExtensionFunctions registry ↔
        ¬BuilderDropsUriRef createAndRegister registerBuiltinFunctions registerStringExtensionFunctions registry) :=
  ⟨reports_iff, buildsAll_iff⟩

end Reports

section Sample

/-- Kinds of arguments that one value may have. -/
def ArgumentKind.overlaps (kind other : ArgumentKind) : Bool := kind == other || kind == .celValue || other == .celValue

/-- Descriptors that one call may match. -/
def FunctionDescriptor.overlaps (descriptor other : FunctionDescriptor) : Bool :=
  descriptor.name == other.name && descriptor.receiverStyle == other.receiverStyle &&
    descriptor.arguments.length == other.arguments.length &&
    (descriptor.arguments.zip other.arguments).all fun kinds => kinds.1.overlaps kinds.2

/-- The registry of CEL, as the descriptors it holds. -/
def celRegistry : Registrar (List FunctionDescriptor) String := fun descriptor _ registry =>
  if registry.any descriptor.overlaps then (.error "CelFunction with specified parameters already registered", registry)
  else (.ok (), registry ++ [descriptor])

/-- An `isUriRef` of somebody else. -/
def foreignUriRef : List FunctionDescriptor := [ExtraFunc.isUriRef.descriptor]

theorem uriRef_dropped : (registerExtraFuncs celRegistry foreignUriRef).1 = .ok () ∧
    ExtraFunc.isHostAndPort.descriptor ∉ (registerExtraFuncs celRegistry foreignUriRef).2 ∧
    ¬∀ registry, Reports celRegistry registry := by
  have drops : DropsUriRef celRegistry foreignUriRef := ⟨by decide, by decide⟩
  refine ⟨by decide, by decide, fun reports => ?_⟩
  exact drops.incomplete.2 ((reports foreignUriRef).1.mp drops.incomplete.1)

end Sample
end Protovalidate.Extra
