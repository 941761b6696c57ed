import Protovalidate.Validate.Sessions

/-! `SetMessageFactory` and `SetAllowUnknownFields`, which may be called at any time: the
rules of a type are built under the settings of the moment at which they are loaded. -/

namespace Protovalidate.Validate

section Factories

/-- The members of `ValidatorFactory` that the mutex does not guard. -/
structure Settings where
  messageFactory : Option (RuleMessage → Option RuleMessage) := none
  allowUnknownFields : Bool := false

/-- What rules are built with under some settings. -/
def Settings.context (runtime : Runtime) (settings : Settings) : BuildContext where
  runtime := runtime
  reparse := settings.messageFactory
  allowUnknownFields := settings.allowUnknownFields

/-- A factory with all of its members. -/
structure ConfiguredFactory (pool : DescriptorPool) where
  settings : Settings := {}
  state : FactoryState pool := {}

/-- A call on a factory, or on a validator of it. -/
inductive FactoryCall (pool : DescriptorPool) where
  | request (request : Request pool)
  | setMessageFactory (messageFactory : RuleMessage → Option RuleMessage)
  | setAllowUnknownFields (allow : Bool)

namespace ConfiguredFactory

variable {pool : DescriptorPool} (runtime : Runtime) (self : ConfiguredFactory pool)

def setMessageFactory (messageFactory : RuleMessage → Option RuleMessage) : ConfiguredFactory pool :=
  { self with settings := { self.settings with messageFactory := some messageFactory } }

def setAllowUnknownFields (allow : Bool) : ConfiguredFactory pool :=
  { self with settings := { self.settings with allowUnknownFields := allow } }

def call : FactoryCall pool → ConfiguredFactory pool
  | .request request => { self with state := handle (self.settings.context runtime) self.state request }
  | .setMessageFactory messageFactory => self.setMessageFactory messageFactory
  | .setAllowUnknownFields allow => self.setAllowUnknownFields allow

/-- What `Validate` returns. -/
def validate (call : ValidateCall pool) : ValidateResult := (self.state.validate (self.settings.context runtime) call).1

/-- A factory after some calls. -/
def after (history : List (FactoryCall pool)) : ConfiguredFactory pool := history.foldl (call runtime) {}

theorem after_append (history later : List (FactoryCall pool)) :
    after runtime (history ++ later) = later.foldl (call runtime) (after runtime history) := List.foldl_append

theorem after_concat (history : List (FactoryCall pool)) (last : FactoryCall pool) :
    after runtime (history ++ [last]) = (after runtime history).call runtime last := after_append runtime history [last]

end ConfiguredFactory

end Factories

section Growth

variable {pool : DescriptorPool} {context : BuildContext} {before middle later : FactoryState pool}

/-- The table has grown by rules that are built with some context. -/
structure Grows (context : BuildContext) (before later : FactoryState pool) : Prop where
  keeps : Keeps before later
  built : ∀ type stored, later.rules type = some stored →
    before.rules type = some stored ∨ stored.rules = newMessageRules context type.descriptor

theorem grows_refl (state : FactoryState pool) : Grows context state state := ⟨fun _ _ held => held, fun _ _ held => .inl held⟩

theorem Grows.trans (first : Grows context before middle) (second : Grows context middle later) : Grows context before later where
  keeps := fun type stored held => second.keeps type stored (first.keeps type stored held)
  built := fun type stored held => (second.built type stored held).elim (first.built type stored) .inr

theorem Changes.grows (changes : Changes context before later) : Grows context before later := by
  refine ⟨changes.keeps, fun type stored held => ?_⟩
  cases changes with
  | same => exact .inl held
  | @emplaced other missing =>
    by_cases same : type = other
    · subst same
      rw [FactoryState.emplace_self] at held
      cases held
      exact .inr rfl
    · rw [FactoryState.emplace_other same] at held
      exact .inl held
  | flagged => exact .inl held

theorem performAll_grows (state : FactoryState pool) (asked : List (MessageType pool)) :
    Grows context state (performAll context state (asked.map .getMessageRules)) := by
  induction asked generalizing state with
  | nil => exact grows_refl state
  | cons type asked ih => exact getMessageRules_changes.grows.trans (ih _)

/-- Every call on the factory only adds rules that are built with its settings. -/
theorem handle_grows (state : FactoryState pool) (request : Request pool) : Grows context state (handle context state request) := by
  cases request with
  | add desc =>
    refine addAll_preserves (Grows context state) (fun middle type grown => ?_) (grows_refl state)
    exact grown.trans (middle.addSection_changes type context).1.grows
  | disableLazyLoading disable => exact (Changes.flagged state disable).grows
  | validate call =>
    rw [handle, FactoryState.validate_serves]
    exact performAll_grows state _

end Growth

namespace ConfiguredFactory

section Histories

variable {pool : DescriptorPool} {runtime : Runtime} {history later : List (FactoryCall pool)} {type : MessageType pool}
  {settings other : Settings}

/-- A call only adds rules that are built with the settings that it is made under. -/
theorem call_grows (self : ConfiguredFactory pool) (call : FactoryCall pool) :
    Grows (self.settings.context runtime) self.state (self.call runtime call).state := by
  cases call with
  | request request => exact handle_grows self.state request
  | setMessageFactory messageFactory => exact grows_refl self.state
  | setAllowUnknownFields allow => exact grows_refl self.state

theorem after_keeps (history later : List (FactoryCall pool)) :
    Keeps (after runtime history).state (after runtime (history ++ later)).state := by
  rw [after_append]
  generalize after runtime history = factory
  induction later generalizing factory with
  | nil => exact fun _ _ held => held
  | cons call later ih => exact fun type stored held => ih _ type stored ((factory.call_grows call).keeps type stored held)

/-- A type is loaded by one of the calls of a history, which is made under some settings. -/
def LoadedUnder (runtime : Runtime) (history : List (FactoryCall pool)) (type : MessageType pool) (settings : Settings) : Prop :=
  ∃ early call late, history = early ++ call :: late ∧ (after runtime early).settings = settings ∧
    ¬Present (after runtime early).state type ∧ Present (after runtime (early ++ [call])).state type

/-- The settings that the rules of a type are built under: those of the call that has loaded
it, or those of now. -/
def InForce (runtime : Runtime) (history : List (FactoryCall pool)) (type : MessageType pool) (settings : Settings) : Prop :=
  LoadedUnder runtime history type settings ∨
    ¬Present (after runtime history).state type ∧ settings = (after runtime history).settings

theorem LoadedUnder.present (loaded : LoadedUnder runtime history type settings) : Present (after runtime history).state type := by
  obtain ⟨early, call, late, rfl, -, -, stored, held⟩ := loaded
  have kept := after_keeps (early ++ [call]) late type stored held
  rw [List.append_assoc] at kept
  exact ⟨stored, kept⟩

/-- What a call has loaded is there for the later ones. -/
theorem present_later {early early' late late' : List (FactoryCall pool)} {call : FactoryCall pool}
    (split : early ++ call :: late = early' ++ late') (behind : early.length < early'.length)
    (loads : Present (after runtime (early ++ [call])).state type) : Present (after runtime early').state type := by
  have first : early ++ [call] <+: early' ++ late' := ⟨late, by rw [← split, List.append_assoc, List.singleton_append]⟩
  obtain ⟨between, rfl⟩ := List.prefix_of_prefix_length_le first (List.prefix_append early' late')
    (by rw [List.length_append]; exact behind)
  obtain ⟨stored, held⟩ := loads
  exact ⟨stored, after_keeps _ between type stored held⟩

/-- A type is loaded once. -/
theorem LoadedUnder.unique (loaded : LoadedUnder runtime history type settings)
    (again : LoadedUnder runtime history type other) : settings = other := by
  obtain ⟨early, call, late, rfl, rfl, missing, loads⟩ := loaded
  obtain ⟨early', call', late', split, rfl, missing', loads'⟩ := again
  rcases Nat.lt_trichotomy early.length early'.length with before | same | behind
  · exact absurd (present_later split before loads) missing'
  · rw [(List.append_inj split same).1]
  · exact absurd (present_later split.symm behind loads') missing

/-- What is in the table has been loaded under the settings that it was built with. -/
theorem stored_loadedUnder {stored : StoredRules} (held : (after runtime history).state.rules type = some stored) :
    ∃ settings, LoadedUnder runtime history type settings ∧
      stored.rules = newMessageRules (settings.context runtime) type.descriptor := by
  induction history using List.reverseRecOn generalizing stored with
  | nil => cases held
  | append_singleton early call ih =>
    have grows : Grows ((after runtime early).settings.context runtime) (after runtime early).state
        ((after runtime early).call runtime call).state := call_grows (after runtime early) call
    by_cases present : Present (after runtime early).state type
    · obtain ⟨first, known⟩ := present
      have kept := after_keeps early [call] type first known
      cases held.symm.trans kept
      obtain ⟨settings, ⟨front, loads, back, rfl, loaded⟩, built⟩ := ih known
      exact ⟨settings, ⟨front, loads, back ++ [call], by rw [List.append_assoc, List.cons_append], loaded⟩, built⟩
    · refine ⟨_, ⟨early, call, [], rfl, rfl, present, stored, held⟩, ?_⟩
      rw [after_concat] at held
      refine (grows.built type stored held).resolve_left fun known => present ⟨stored, known⟩

theorem inForce_unique (inForce : InForce runtime history type settings) (again : InForce runtime history type other) :
    settings = other := by
  rcases inForce with loaded | ⟨missing, rfl⟩
  · rcases again with loaded' | ⟨missing, -⟩
    · exact loaded.unique loaded'
    · exact absurd loaded.present missing
  · rcases again with loaded | ⟨-, rfl⟩
    · exact absurd loaded.present missing
    · rfl

/-- A lookup is refused, or finds rules that are built with the settings in force. -/
theorem answers_inForce (runtime : Runtime) (history : List (FactoryCall pool)) (type : MessageType pool) :
    ∃ settings, InForce runtime history type settings ∧
      ((after runtime history).state.answers ((after runtime history).settings.context runtime) type = none ∨
        (after runtime history).state.answers ((after runtime history).settings.context runtime) type =
          some (newMessageRules (settings.context runtime) type.descriptor)) := by
  cases held : (after runtime history).state.rules type with
  | some stored =>
    obtain ⟨settings, loaded, built⟩ := stored_loadedUnder held
    refine ⟨settings, .inl loaded, .inr ?_⟩
    rw [FactoryState.answers_found held, built]
  | none =>
    refine ⟨_, .inr ⟨?_, rfl⟩, ?_⟩
    · rintro ⟨stored, impossible⟩
      rw [held] at impossible
      cases impossible
    · rw [FactoryState.answers_missing held]
      cases (after runtime history).state.disableLazyLoading with
      | true => exact .inl rfl
      | false => exact .inr rfl

/-- A factory with the rules of all types, each built under some settings. -/
def builtUnder (runtime : Runtime) (choice : MessageType pool → Settings) : ValidatorFactory where
  context := { runtime := runtime }
  loaded fullName := (pool.findMessageType fullName).map fun type =>
    newMessageRules ((choice type).context runtime) type.descriptor

theorem builtUnder_finds (choice : MessageType pool → Settings) (type : MessageType pool) :
    (builtUnder runtime choice).getMessageRules type.descriptor =
      some (newMessageRules ((choice type).context runtime) type.descriptor) := by
  have found : (builtUnder runtime choice).loaded type.descriptor.fullName =
      some (newMessageRules ((choice type).context runtime) type.descriptor) := by
    change (pool.findMessageType type.fullName).map _ = _
    rw [type.find_fullName]
    rfl
  rw [ValidatorFactory.getMessageRules, found]

/-- All types that a call may look up are loaded. -/
def Settled (state : FactoryState pool) (call : ValidateCall pool) : Prop :=
  ∀ type : MessageType pool, type.descriptor ∈ descendantTypes call.message → Present state type

/-- Whatever is called later, a call whose types are loaded returns the same. -/
theorem validate_settled (call : ValidateCall pool) (settled : Settled (after runtime history).state call) :
    (after runtime (history ++ later)).validate runtime call = (after runtime history).validate runtime call := by
  rw [validate, validate, FactoryState.validate_serves, FactoryState.validate_serves]
  simp only
  rw [← answer_validate, ← answer_validate]
  refine (Lookups.validate_asks call.failFast call.message).answer_congr fun descriptor below => ?_
  obtain ⟨stored, held⟩ := settled (call.typeOf descriptor below) below
  have kept := after_keeps history later _ stored held
  exact (FactoryState.answers_found kept).trans (FactoryState.answers_found held).symm

/-- A call of `Validate` uses rules that are built under the settings in force when their
type was loaded, and once all types that it may look up are loaded no later call has an
influence on it. -/
theorem validate_inForce (runtime : Runtime) (history : List (FactoryCall pool)) (call : ValidateCall pool) :
    (∃ choice : MessageType pool → Settings, (∀ type settings, InForce runtime history type settings ↔ settings = choice type) ∧
      ((after runtime history).validate runtime call =
          Validator.validate (builtUnder runtime choice) call.failFast call.message ∨
        Refused (after runtime history).state call ((after runtime history).validate runtime call))) ∧
    (Settled (after runtime history).state call → ∀ later,
      (after runtime (history ++ later)).validate runtime call = (after runtime history).validate runtime call) := by
  refine ⟨?_, fun settled later => validate_settled call settled⟩
  choose choice inForce answers using answers_inForce runtime history
  refine ⟨choice, fun type settings => ⟨fun holds => inForce_unique holds (inForce type), fun same => same ▸ inForce type⟩, ?_⟩
  have finds : (call.program { runtime := runtime }).answer
      (fun type => some (newMessageRules ((choice type).context runtime) type.descriptor)) =
      Validator.validate (builtUnder runtime choice) call.failFast call.message := by
    have same : (fun type : MessageType pool => some (newMessageRules ((choice type).context runtime) type.descriptor)) =
        fun type => (builtUnder runtime choice).getMessageRules type.descriptor :=
      funext fun type => (builtUnder_finds choice type).symm
    rw [same]
    exact ValidateCall.answer_program (builtUnder runtime choice) rfl
  rw [validate, FactoryState.validate_serves, ← finds]
  exact validate_answers _ answers call

end Histories

end ConfiguredFactory

section Sample

/-- A field whose rules have a field that is not known. -/
def ticketField : FieldDescriptor where
  number := 1
  name := "code"
  fullName := "Ticket.code"
  type := .string
  options := some ⟨none, false, [], [], .scalar .string { typeName := "buf.validate.StringRules", unknownFields := 1 }⟩

def tickets : DescriptorPool where
  types := [{ fullName := "Ticket", fields := [ticketField] }]
  distinct := by simp

def ticketType : MessageType tickets := ⟨{ fullName := "Ticket", fields := [ticketField] }, List.mem_singleton.mpr rfl⟩

def ticketCall : ValidateCall tickets where
  type := ticketType
  message := ⟨ticketType.descriptor, []⟩
  conforms := conforms_empty ticketType
  failFast := false

/-- Rules that have been refused stay so when unknown fields are allowed later. -/
example : (ConfiguredFactory.after plainContext.runtime [.setAllowUnknownFields true, .request (.add ticketType)]).validate
      plainContext.runtime ticketCall = .ok [] ∧
    (ConfiguredFactory.after plainContext.runtime [.request (.add ticketType), .setAllowUnknownFields true]).validate
      plainContext.runtime ticketCall = .error ⟨.failedPrecondition, "unknown rules in buf.validate.StringRules"⟩ := ⟨rfl, rfl⟩

end Sample
end Protovalidate.Validate
