import Protovalidate.Extra.ExtraFunc
import Protovalidate.Validate.Sessions
import Protovalidate.Validate.Verdicts

/-! `conformance/runner.{h,cc}`: the runner that answers requests of test cases, all with
the same factory. -/

namespace Protovalidate.Conformance

open Foundation Relation Validate

/-- `google.protobuf.Any` -/
structure AnyMessage where
  typeUrl : String
  value : List UInt8
deriving DecidableEq, Repr

/-- `harness::TestResult` -/
inductive TestResult where
  | success
  | validationError (violations : List Violation)
  | compilationError (message : String)
  | runtimeError (message : String)
  | unexpectedError (message : String)
deriving DecidableEq, Repr

/-- `harness::TestConformanceRequest`: a map of cases by their names, in some order. -/
structure TestConformanceRequest where
  cases : List (String × AnyMessage)
  distinct : (cases.map Prod.fst).Nodup

/-- The results of `harness::TestConformanceResponse` by the names of their cases. -/
abbrev TestConformanceResponse := String → Option TestResult

/-- What the runner is given: the CEL runtime, and a message factory for the messages of
a pool, which parses rule messages again and unpacks the messages of the cases. -/
structure TestRunner (pool : DescriptorPool) where
  runtime : Runtime
  reparse : RuleMessage → Option RuleMessage
  /-- `UnpackTo` a new message of a type. -/
  unpackTo : (desc : MessageType pool) → AnyMessage → Option { message : Message // Conforms desc message }

namespace TestRunner

variable {pool : DescriptorPool} (runner : TestRunner pool)

/-- `SetMessageFactory` and `SetAllowUnknownFields(false)` -/
def context : BuildContext where
  runtime := runner.runtime
  reparse := some runner.reparse
  allowUnknownFields := false

/-- The `switch` over what `Validate` returns. -/
def resultOf : ValidateResult → TestResult
  | .error ⟨.invalidArgument, message⟩ => .runtimeError message
  | .error ⟨.failedPrecondition, message⟩ => .compilationError message
  | .error ⟨_, message⟩ => .unexpectedError message
  | .ok [] => .success
  | .ok violations => .validationError (violations.map RuleViolation.proto)

variable (state : FactoryState pool)

/-- `runTestCase` for a message -/
def runMessage {desc : MessageType pool} (message : { message : Message // Conforms desc message }) :
    TestResult × FactoryState pool :=
  let (result, state) := state.validate runner.context ⟨desc, message.1, message.2, false⟩
  (resultOf result, state)

/-- `runTestCase` -/
def runTestCase (desc : MessageType pool) (dyn : AnyMessage) : TestResult × FactoryState pool :=
  match runner.unpackTo desc dyn with
  | none => (.unexpectedError ("could not unpack message of type " ++ dyn.typeUrl), state)
  | some message => runner.runMessage state message

/-- The type name of a type URL: what is behind the last slash. -/
def typeName (typeUrl : String) : Option String :=
  (Extra.rfind '/' typeUrl.toList).map fun pos => String.ofList (typeUrl.toList.drop (pos + 1))

/-- One round of the loop over the cases. -/
def runCase (dyn : AnyMessage) : TestResult × FactoryState pool :=
  match typeName dyn.typeUrl with
  | none => (.unexpectedError ("could not parse type url " ++ dyn.typeUrl), state)
  | some name =>
    match pool.findMessageType name with
    | none => (.unexpectedError ("could not find descriptor for type " ++ dyn.typeUrl), state)
    | some desc => runner.runTestCase state desc dyn

def runCases : List (String × AnyMessage) → TestConformanceResponse → FactoryState pool →
    TestConformanceResponse × FactoryState pool
  | [], response, state => (response, state)
  | (name, dyn) :: cases, response, state =>
    let (result, state) := runner.runCase state dyn
    runCases cases (Function.update response name (some result)) state

/-- `runTest` -/
def runTest (request : TestConformanceRequest) : TestConformanceResponse × FactoryState pool :=
  runner.runCases request.cases (fun _ => none) state

/-- The state of the factory after some requests. -/
def after (requests : List TestConformanceRequest) : FactoryState pool :=
  requests.foldl (fun state request => (runner.runTest state request).2) {}

end TestRunner

section Results

variable {pool : DescriptorPool} {runner : TestRunner pool} {state : FactoryState pool}

/-- A factory that has loaded some types lazily, and may load more. -/
structure Lazy (context : BuildContext) (state : FactoryState pool) : Prop where
  consistent : Consistent context state
  lazily : state.disableLazyLoading = false

theorem lazy_new (context : BuildContext) : Lazy context ({} : FactoryState pool) := ⟨consistent_new, rfl⟩

theorem lookups_flag {context : BuildContext} (asked : List (MessageType pool)) :
    (performAll context state (asked.map .getMessageRules)).disableLazyLoading = state.disableLazyLoading := by
  induction asked generalizing state with
  | nil => rfl
  | cons desc asked ih =>
    have later : (performAll context (state.lookup context desc).2 (asked.map .getMessageRules)).disableLazyLoading = _ := ih
    rw [FactoryState.lookup_flag] at later
    exact later

/-- A call of `Validate` leaves such a factory behind, and returns what it does on a new one. -/
theorem Lazy.validate {context : BuildContext} (lazy : Lazy context state) (call : ValidateCall pool) :
    (state.validate context call).1 = call.fresh context ∧ Lazy context (state.validate context call).2 := by
  rw [FactoryState.validate_serves]
  refine ⟨?_, performAll_consistent _ lazy.consistent, (lookups_flag _).trans lazy.lazily⟩
  obtain fresh | refused := lazy.consistent.validate_fresh call
  · exact fresh
  · have disabled := refused.disabled
    rw [lazy.lazily] at disabled
    cases disabled

namespace TestRunner

variable {desc : MessageType pool} (message : { message : Message // Conforms desc message })

theorem runMessage_result : (runner.runMessage state message).1 =
    resultOf (Validator.validate (state.factory runner.context) false message.1) := by
  have serves := FactoryState.validate_serves runner.context state ⟨desc, message.1, message.2, false⟩
  exact congrArg (fun served => resultOf served.1) serves

theorem runMessage_lazy (lazy : Lazy runner.context state) :
    (runner.runMessage state message).1 = (runner.runMessage {} message).1 ∧
      Lazy runner.context (runner.runMessage state message).2 := by
  obtain ⟨result, kept⟩ := lazy.validate ⟨desc, message.1, message.2, false⟩
  obtain ⟨anew, -⟩ := (lazy_new runner.context).validate ⟨desc, message.1, message.2, false⟩
  exact ⟨congrArg resultOf (result.trans anew.symm), kept⟩

/-- A round has the result that it has with a new factory. -/
theorem runCase_lazy (lazy : Lazy runner.context state) (dyn : AnyMessage) :
    (runner.runCase state dyn).1 = (runner.runCase {} dyn).1 ∧ Lazy runner.context (runner.runCase state dyn).2 := by
  unfold runCase
  cases typeName dyn.typeUrl with
  | none => exact ⟨rfl, lazy⟩
  | some name =>
    simp only
    cases pool.findMessageType name with
    | none => exact ⟨rfl, lazy⟩
    | some desc =>
      simp only [runTestCase]
      cases runner.unpackTo desc dyn with
      | none => exact ⟨rfl, lazy⟩
      | some message => exact runMessage_lazy message lazy

theorem runCases_lazy {cases : List (String × AnyMessage)} (distinct : (cases.map Prod.fst).Nodup)
    (response : TestConformanceResponse) (lazy : Lazy runner.context state) :
    (∀ name ∉ cases.map Prod.fst, (runner.runCases cases response state).1 name = response name) ∧
      (∀ case ∈ cases, (runner.runCases cases response state).1 case.1 = some (runner.runCase {} case.2).1) ∧
        Lazy runner.context (runner.runCases cases response state).2 := by
  induction cases generalizing response state with
  | nil => exact ⟨fun _ _ => rfl, fun _ impossible => (by cases impossible), lazy⟩
  | cons case cases ih =>
    obtain ⟨name, dyn⟩ := case
    obtain ⟨fresh, distinct⟩ := List.nodup_cons.mp distinct
    obtain ⟨result, kept⟩ := runCase_lazy lazy dyn
    obtain ⟨others, each, last⟩ := ih distinct (Function.update response name (some (runner.runCase state dyn).1)) kept
    refine ⟨fun other absent => ?_, fun case member => ?_, last⟩
    · obtain ⟨different, absent⟩ := List.ne_and_not_mem_of_not_mem_cons absent
      exact (others other absent).trans (Function.update_of_ne different _ _)
    · rcases List.mem_cons.mp member with rfl | member
      · rw [← result]
        exact (others name fresh).trans (Function.update_self _ _ _)
      · exact each case member

theorem after_lazy (requests : List TestConformanceRequest) : Lazy runner.context (runner.after requests) := by
  induction requests using List.reverseRecOn with
  | nil => exact lazy_new runner.context
  | append_singleton requests request ih =>
    rw [after, List.foldl_append, List.foldl_cons, List.foldl_nil]
    exact (runCases_lazy request.distinct _ ih).2.2

/-- A case whose message meets the options of its type, as does everything below it. -/
def Passes (runner : TestRunner pool) (dyn : AnyMessage) : Prop :=
  ∃ name desc message, typeName dyn.typeUrl = some name ∧ pool.findMessageType name = some desc ∧
    runner.unpackTo desc dyn = some message ∧
      ∀ sub (next : MessageType pool), ReflTransGen Child message.1 sub → Conforms next sub →
        next.descriptor.WellFormed runner.context ∧ MeetsMessage runner.context sub

theorem resultOf_success {result : ValidateResult} : resultOf result = .success ↔ result = .ok [] := by
  cases result with
  | error failure =>
    obtain ⟨code, message⟩ := failure
    refine iff_of_false (fun impossible => ?_) fun impossible => by cases impossible
    cases code <;> cases impossible
  | ok violations =>
    cases violations with
    | nil => exact iff_of_true rfl rfl
    | cons violation violations => exact iff_of_false (fun impossible => by cases impossible) fun impossible => by cases impossible

theorem runMessage_success (accessible : ∀ descriptor ∈ pool.types, descriptor.Accessible) :
    (runner.runMessage {} message).1 = .success ↔ ∀ sub (next : MessageType pool), ReflTransGen Child message.1 sub →
      Conforms next sub → next.descriptor.WellFormed runner.context ∧ MeetsMessage runner.context sub := by
  have consistent : Consistent runner.context ({} : FactoryState pool) := consistent_new
  rw [runMessage_result, resultOf_success, consistent.validate_iff message.2 accessible]
  refine forall₄_congr fun sub next path conforms => ?_
  exact and_congr_right fun _ => and_iff_left fun impossible => by cases impossible

theorem runCase_success (accessible : ∀ descriptor ∈ pool.types, descriptor.Accessible) (dyn : AnyMessage) :
    (runner.runCase {} dyn).1 = .success ↔ runner.Passes dyn := by
  unfold runCase Passes
  cases named : typeName dyn.typeUrl with
  | none => exact iff_of_false (fun impossible => by cases impossible) fun ⟨_, _, _, impossible, _⟩ => by cases impossible
  | some name =>
    cases found : pool.findMessageType name with
    | none =>
      refine iff_of_false (fun impossible => ?_) ?_
      · simp only [found] at impossible
        cases impossible
      · rintro ⟨_, desc, _, same, known, -⟩
        cases same
        cases found.symm.trans known
    | some desc =>
      simp only [found, runTestCase]
      cases unpacked : runner.unpackTo desc dyn with
      | none =>
        refine iff_of_false (fun impossible => by cases impossible) ?_
        rintro ⟨_, _, _, same, known, held, -⟩
        cases same
        cases found.symm.trans known
        cases unpacked.symm.trans held
      | some message =>
        refine (runMessage_success message accessible).trans ⟨fun meets => ⟨name, desc, message, rfl, found, unpacked, meets⟩, ?_⟩
        rintro ⟨_, _, _, same, known, held, meets⟩
        cases same
        cases found.symm.trans known
        cases unpacked.symm.trans held
        exact meets

/-- Whatever requests came before, and in whatever order the cases come, each case has
the result that a new runner has for it, which is a success if and only if its message
and everything below it meet the options of their types. -/
theorem runTest_results (accessible : ∀ descriptor ∈ pool.types, descriptor.Accessible)
    (before : List TestConformanceRequest) (request : TestConformanceRequest) :
    (∀ name ∉ request.cases.map Prod.fst, (runner.runTest (runner.after before) request).1 name = none) ∧
      ∀ case ∈ request.cases,
        (runner.runTest (runner.after before) request).1 case.1 = some (runner.runCase {} case.2).1 ∧
          ((runner.runTest (runner.after before) request).1 case.1 = some .success ↔ runner.Passes case.2) := by
  have lazy : Lazy runner.context (runner.after before) := after_lazy before
  obtain ⟨others, each, -⟩ := runCases_lazy request.distinct (fun _ => none) lazy
  refine ⟨others, fun case member => ⟨each case member, ?_⟩⟩
  have result : (runner.runTest (runner.after before) request).1 case.1 = _ := each case member
  rw [result, Option.some.injEq]
  exact runCase_success accessible case.2

end TestRunner

end Results

section Sample

/-- A book without fields, and one with a title of one letter. -/
def libraryRunner : TestRunner library where
  runtime := plainRuntime nonEmpty
  reparse _ := none
  unpackTo desc dyn :=
    if titled : desc = bookType ∧ dyn.value = [10, 1, 65] then some ⟨book "A", titled.1 ▸ conforms_book "A"⟩
    else if untitled : desc = bookType ∧ dyn.value = [] then some ⟨⟨bookDescriptor, []⟩, untitled.1 ▸ conforms_empty bookType⟩
    else none

def titledBook : AnyMessage := { typeUrl := "type.googleapis.com/Book", value := [10, 1, 65] }

def libraryRequest : TestConformanceRequest where
  cases := [("titled", titledBook), ("untitled", { titledBook with value := [] }), ("local", { titledBook with typeUrl := "Book" })]
  distinct := by decide

theorem runTest_results_library :
    (libraryRunner.runTest (libraryRunner.after [libraryRequest]) libraryRequest).1 "titled" = some .success ∧
      libraryRunner.Passes titledBook ∧
        (libraryRunner.runTest (libraryRunner.after [libraryRequest]) libraryRequest).1 "unnamed" = none := by
  obtain ⟨others, each⟩ := @TestRunner.runTest_results library libraryRunner accessible_library [libraryRequest] libraryRequest
  obtain ⟨result, passes⟩ := each ("titled", titledBook) List.mem_cons_self
  have success : (libraryRunner.runCase {} titledBook).1 = .success := rfl
  have found := result.trans (congrArg some success)
  exact ⟨found, passes.mp found, others "unnamed" (by decide)⟩

example : (libraryRunner.runCase {} { titledBook with typeUrl := "Book" }).1 =
    .unexpectedError "could not parse type url Book" := rfl

end Sample

end Protovalidate.Conformance
