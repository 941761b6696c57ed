import Protovalidate.Validate.Descendants
import Protovalidate.Validate.Loading

/-! One thread that uses a factory: what its calls of `Validate` return and load. -/

namespace Protovalidate.Validate

open Foundation Relation

section Calls

/-- A call of `Validate` for a message of a type, on a validator that fails fast or not. -/
structure ValidateCall (pool : DescriptorPool) where
  type : MessageType pool
  message : Message
  conforms : Conforms type message
  failFast : Bool

/-- What `Validate` returns. -/
abbrev ValidateResult := Except StatusError (List RuleViolation)

namespace ValidateCall

variable {pool : DescriptorPool} (context : BuildContext) (call : ValidateCall pool)

theorem conforms_descendant {call : ValidateCall pool} {sub : Message} (below : sub ∈ descendants call.message) :
    ∃ next : MessageType pool, Conforms next sub := by
  obtain ⟨next, -, conforms⟩ := call.conforms.descendant (mem_descendants.mp below)
  exact ⟨next, conforms⟩

theorem declared {call : ValidateCall pool} {descriptor : Descriptor} (below : descriptor ∈ descendantTypes call.message) :
    descriptor ∈ pool.types := by
  obtain ⟨sub, member, rfl⟩ := List.mem_map.mp below
  obtain ⟨next, conforms⟩ := conforms_descendant member
  rw [conforms.descriptor_eq]
  exact next.declared

/-- A type of the pool by its descriptor. -/
def typeOf (descriptor : Descriptor) (below : descriptor ∈ descendantTypes call.message) : MessageType pool :=
  ⟨descriptor, declared below⟩

/-- The call as a program that asks for the rules of message types of the pool. -/
def program : Asking (MessageType pool) Rules ValidateResult :=
  (Lookups.validate context.runtime call.failFast call.message).rephrase call.typeOf
    (Lookups.validate_asks call.failFast call.message)

/-- What the call returns on a new factory. -/
def fresh : ValidateResult := Validator.validate { context := context } call.failFast call.message

variable {context} {call}

theorem answer_program (factory : ValidatorFactory) (same : factory.context = context) :
    (call.program context).answer (fun type => factory.getMessageRules type.descriptor) =
      Validator.validate factory call.failFast call.message := by
  subst same
  exact (Asking.answer_rephrase call.typeOf (fun type => factory.getMessageRules type.descriptor) (fun _ _ => rfl) _).trans
    (answer_validate call.failFast call.message)

theorem program_givesUp : (call.program context).GivesUp fun type result => result = .error (notLoaded type.descriptor) :=
  (Lookups.validate_givesUp call.failFast call.message).rephrase call.typeOf (fun _ _ _ told => told) _

theorem program_within : (call.program context).Within (descendants call.message).length :=
  (Lookups.validate_within call.failFast call.message).rephrase call.typeOf _

theorem program_questions (oracle : Descriptor → Option Rules) :
    ((call.program context).questions fun type => oracle type.descriptor).map MessageType.descriptor =
      (Lookups.validate context.runtime call.failFast call.message).questions oracle := by
  exact Asking.questions_rephrase call.typeOf (fun type => oracle type.descriptor) MessageType.descriptor
    (fun _ _ => rfl) (fun _ _ => rfl) _

end ValidateCall

end Calls

section Answers

variable {pool : DescriptorPool} {context : BuildContext} {state : FactoryState pool} {desc other : MessageType pool}

namespace FactoryState

/-- What `GetMessageRules` returns in a state. -/
def answers (context : BuildContext) (state : FactoryState pool) (desc : MessageType pool) : Option Rules :=
  (state.factory context).getMessageRules desc.descriptor

/-- `GetMessageRules` as the validator uses it. -/
def lookup (context : BuildContext) (state : FactoryState pool) (desc : MessageType pool) : Option Rules × FactoryState pool :=
  ((state.getMessageRules context desc).1.map StoredRules.rules, (state.getMessageRules context desc).2)

/-- `Validate`, with what it leaves behind. -/
def validate (context : BuildContext) (state : FactoryState pool) (call : ValidateCall pool) : ValidateResult × FactoryState pool :=
  (call.program context).serve (lookup context) state

theorem lookup_answers : (state.lookup context desc).1 = state.answers context desc :=
  getMessageRules_factory context state desc

theorem answers_found {stored : StoredRules} (held : state.rules desc = some stored) :
    state.answers context desc = some stored.rules := by
  rw [← lookup_answers, lookup, getMessageRules, lookupSection, held]
  rfl

theorem answers_missing (missing : state.rules desc = none) : state.answers context desc =
    if state.disableLazyLoading then none else some (newMessageRules context desc.descriptor) := by
  rw [← lookup_answers, lookup, getMessageRules, lookupSection, missing]
  cases state.disableLazyLoading with
  | true => rfl
  | false =>
    simp only [Bool.false_eq_true, ↓reduceIte, loadSection, missing]
    rfl

theorem lookup_found {stored : StoredRules} (held : state.rules desc = some stored) : (state.lookup context desc).2 = state := by
  rw [lookup, getMessageRules, lookupSection, held]

theorem lookup_disabled (disabled : state.disableLazyLoading = true) : (state.lookup context desc).2 = state := by
  cases held : state.rules desc with
  | some stored => exact lookup_found held
  | none =>
    rw [lookup, getMessageRules, lookupSection, held, disabled]
    rfl

theorem lookup_loads (missing : state.rules desc = none) (lazily : state.disableLazyLoading = false) :
    (state.lookup context desc).2 = (state.emplace context desc).2 := by
  rw [lookup, getMessageRules, lookupSection, missing, lazily]
  simp only [Bool.false_eq_true, ↓reduceIte, loadSection, missing]

/-- A lookup has no influence on what lookups return. -/
theorem answers_lookup : (state.lookup context desc).2.answers context = state.answers context := by
  funext other
  cases held : state.rules desc with
  | some stored => rw [lookup_found held]
  | none =>
    cases lazily : state.disableLazyLoading with
    | true => rw [lookup_disabled lazily]
    | false =>
      rw [lookup_loads held lazily]
      by_cases same : other = desc
      · subst same
        rw [answers_found emplace_self, answers_missing held, lazily]
        rfl
      · cases held' : state.rules other with
        | some stored => rw [answers_found held', answers_found ((emplace_other same).trans held')]
        | none =>
          rw [answers_missing held', answers_missing ((emplace_other same).trans held')]
          rfl

theorem present_lookup : Present (state.lookup context desc).2 other ↔
    Present state other ∨ state.disableLazyLoading = false ∧ other = desc := by
  cases held : state.rules desc with
  | some stored =>
    rw [lookup_found held]
    refine ⟨.inl, fun either => either.elim id fun both => ?_⟩
    rw [both.2]
    exact ⟨stored, held⟩
  | none =>
    cases lazily : state.disableLazyLoading with
    | true =>
      rw [lookup_disabled lazily]
      simp
    | false =>
      rw [lookup_loads held lazily, and_iff_right rfl]
      by_cases same : other = desc
      · subst same
        exact iff_of_true ⟨_, emplace_self⟩ (.inr rfl)
      · rw [or_iff_left same, Present, emplace_other same, Present]

theorem lookup_flag : (state.lookup context desc).2.disableLazyLoading = state.disableLazyLoading := by
  cases held : state.rules desc with
  | some stored => rw [lookup_found held]
  | none =>
    cases lazily : state.disableLazyLoading with
    | true => rw [lookup_disabled lazily, lazily]
    | false =>
      rw [lookup_loads held lazily]
      exact lazily

/-- A call returns what the validator of the factory returns, and has looked up the types
that it asked for. -/
theorem validate_serves (context : BuildContext) (state : FactoryState pool) (call : ValidateCall pool) :
    state.validate context call =
      (Validator.validate (state.factory context) call.failFast call.message,
        performAll context state (((call.program context).questions (state.answers context)).map .getMessageRules)) := by
  have served := Asking.serve_eq (fun (state : FactoryState pool) desc => @lookup_answers pool context state desc)
    (fun state desc => answers_lookup) state (call.program context)
  have result : (call.program context).answer (state.answers context) =
      Validator.validate (state.factory context) call.failFast call.message := ValidateCall.answer_program (state.factory context) rfl
  rw [validate, served, result, performAll, List.foldl_map]
  rfl

theorem present_lookups (asked : List (MessageType pool)) : Present (performAll context state (asked.map .getMessageRules)) other ↔
    Present state other ∨ state.disableLazyLoading = false ∧ other ∈ asked := by
  induction asked generalizing state with
  | nil => simp [performAll]
  | cons desc asked ih =>
    have later : Present (performAll context (state.lookup context desc).2 (asked.map .getMessageRules)) other ↔ _ := ih
    rw [present_lookup, lookup_flag, or_assoc, ← and_or_left, ← List.mem_cons] at later
    exact later

/-- A lookup is refused for types only that are not loaded, and must not be loaded lazily. -/
theorem answers_none (refused : state.answers context desc = none) : state.disableLazyLoading = true ∧ ¬Present state desc := by
  cases held : state.rules desc with
  | some stored =>
    rw [answers_found held] at refused
    cases refused
  | none =>
    rw [answers_missing held] at refused
    have disabled : state.disableLazyLoading = true := by
      by_contra lazily
      rw [if_neg lazily] at refused
      cases refused
    refine ⟨disabled, ?_⟩
    rintro ⟨stored, found⟩
    rw [held] at found
    cases found

/-- Where a lookup finds rules, it finds what a new factory would. -/
theorem answers_or (consistent : Consistent context state) (desc : MessageType pool) :
    state.answers context desc = none ∨ state.answers context desc = some (newMessageRules context desc.descriptor) := by
  cases held : state.rules desc with
  | some stored =>
    right
    rw [answers_found held, (consistent.built desc stored held).2]
  | none =>
    rw [answers_missing held]
    cases state.disableLazyLoading with
    | false => exact .inr rfl
    | true => exact .inl rfl

end FactoryState

/-- The types that a call looks up in a state, by their descriptors. -/
theorem mem_program_questions {call : ValidateCall pool} : desc ∈ (call.program context).questions (state.answers context) ↔
    desc.descriptor ∈ (Lookups.validate context.runtime call.failFast call.message).questions
      (state.factory context).getMessageRules := by
  have injective : Function.Injective (MessageType.descriptor : MessageType pool → Descriptor) := by
    rintro ⟨descriptor, declared⟩ ⟨descriptor', declared'⟩ rfl
    rfl
  have asked : ((call.program context).questions (state.answers context)).map MessageType.descriptor = _ :=
    ValidateCall.program_questions (state.factory context).getMessageRules
  rw [← asked, List.mem_map_of_injective injective]

/-- What is not loaded for a call, and must not be loaded. -/
structure Refused (state : FactoryState pool) (call : ValidateCall pool) (result : ValidateResult) : Prop where
  disabled : state.disableLazyLoading = true
  missing : ∃ sub ∈ descendants call.message, ∃ next, Conforms next sub ∧ ¬Present state next ∧
    result = .error (notLoaded next.descriptor)

/-- A factory that answers as some oracle does, unless it refuses to load, comes to the
same result, or refuses to load what is missing for the call. -/
theorem validate_answers (oracle : MessageType pool → Option Rules)
    (agrees : ∀ desc, state.answers context desc = none ∨ state.answers context desc = oracle desc) (call : ValidateCall pool) :
    Validator.validate (state.factory context) call.failFast call.message = (call.program context).answer oracle ∨
      Refused state call (Validator.validate (state.factory context) call.failFast call.message) := by
  have here : (call.program context).answer (state.answers context) =
      Validator.validate (state.factory context) call.failFast call.message := ValidateCall.answer_program (state.factory context) rfl
  rw [← here]
  refine (ValidateCall.program_givesUp.answer_or agrees).imp id ?_
  rintro ⟨desc, asked, refused, told⟩
  have asks : desc.descriptor ∈ descendantTypes call.message := by
    have member := mem_program_questions.mp asked
    exact (Lookups.validate_questions _ call.failFast call.message).1.subset member
  obtain ⟨sub, below, same⟩ := List.mem_map.mp asks
  obtain ⟨next, conforms⟩ := ValidateCall.conforms_descendant below
  have type : next = desc := MessageType.fullName_injective <| by
    rw [MessageType.fullName, MessageType.fullName, ← conforms.descriptor_eq, same]
  have left := FactoryState.answers_none refused
  exact ⟨left.1, sub, below, next, conforms, type ▸ left.2, type ▸ told⟩

/-- The results of calls do not depend on what a factory has loaded, unless it refuses to load. -/
theorem Consistent.validate_fresh (consistent : Consistent context state) (call : ValidateCall pool) :
    Validator.validate (state.factory context) call.failFast call.message = call.fresh context ∨
      Refused state call (Validator.validate (state.factory context) call.failFast call.message) := by
  have anew : (call.program context).answer (fun desc => some (newMessageRules context desc.descriptor)) = call.fresh context :=
    ValidateCall.answer_program { context := context } rfl
  rw [← anew]
  exact validate_answers _ (FactoryState.answers_or consistent) call

end Answers

section Sessions

variable {pool : DescriptorPool} (context : BuildContext)

/-- What a thread asks of its factory. -/
inductive Request (pool : DescriptorPool) where
  | add (desc : MessageType pool)
  | disableLazyLoading (disable : Bool)
  | validate (call : ValidateCall pool)

def handle (state : FactoryState pool) : Request pool → FactoryState pool
  | .add desc => (state.add context desc).2
  | .disableLazyLoading disable => { state with disableLazyLoading := disable }
  | .validate call => (state.validate context call).2

/-- The state of a factory after some requests. -/
def session (requests : List (Request pool)) : FactoryState pool := requests.foldl (handle context) {}

/-- What a call of `Validate` does in a state. -/
structure Serves (state : FactoryState pool) (call : ValidateCall pool) (result : ValidateResult) (after : FactoryState pool) : Prop where
  returns : result = Validator.validate (state.factory context) call.failFast call.message
  fresh : result = call.fresh context ∨ Refused state call result
  loads : ∃ asked, asked <+: descendantTypes call.message ∧
    (∀ violations, result = .ok violations → (call.failFast = true → violations = []) → asked = descendantTypes call.message) ∧
    ∀ type, Present after type ↔ Present state type ∨ state.disableLazyLoading = false ∧ type.descriptor ∈ asked

variable {context}

/-- A session does to the factory what some history of its own calls does. -/
theorem session_history (requests : List (Request pool)) :
    ∃ operations, session context requests = performAll context {} operations := by
  induction requests using List.reverseRecOn with
  | nil => exact ⟨[], rfl⟩
  | append_singleton before request ih =>
    obtain ⟨operations, same⟩ := ih
    rw [session, List.foldl_append, List.foldl_cons, List.foldl_nil]
    change ∃ operations, handle context (session context before) request = _
    rw [same]
    cases request with
    | add desc => exact ⟨operations ++ [.add desc], by rw [performAll, performAll, List.foldl_append]; rfl⟩
    | disableLazyLoading disable =>
      exact ⟨operations ++ [.disableLazyLoading disable], by rw [performAll, performAll, List.foldl_append]; rfl⟩
    | validate call =>
      rw [handle, FactoryState.validate_serves, performAll, performAll, ← List.foldl_append]
      exact ⟨_, rfl⟩

/-- Whatever has been asked of a factory, a call of `Validate` returns what the validator
of the factory returns and loads no types but those it comes to, all of them if it
goes to the end. -/
theorem validate_session (context : BuildContext) (before : List (Request pool)) (call : ValidateCall pool) :
    Serves context (session context before) call ((session context before).validate context call).1
      ((session context before).validate context call).2 := by
  have consistent : Consistent context (session context before) := by
    obtain ⟨operations, same⟩ := session_history before
    rw [same]
    exact performAll_consistent operations consistent_new
  generalize session context before = state at consistent
  have here : (Lookups.validate context.runtime call.failFast call.message).answer (state.factory context).getMessageRules =
      Validator.validate (state.factory context) call.failFast call.message := answer_validate call.failFast call.message
  obtain ⟨early, complete⟩ :=
    @Lookups.validate_questions context.runtime (state.factory context).getMessageRules call.failFast call.message
  rw [here] at complete
  rw [FactoryState.validate_serves]
  refine ⟨rfl, consistent.validate_fresh call, _, early, complete, fun type => ?_⟩
  rw [FactoryState.present_lookups, mem_program_questions]

end Sessions

end Protovalidate.Validate
