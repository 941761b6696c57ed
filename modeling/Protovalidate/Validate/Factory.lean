import Mathlib.Data.List.Nodup
import Protovalidate.Foundation.Loop
import Protovalidate.Foundation.Search
import Protovalidate.Validate.Validator

/-! `ValidatorFactory`: the table of rules, the critical sections of `Add` and
`GetMessageRules`, and what the calls do when nothing comes in between. -/

namespace Protovalidate.Validate

open Foundation

section Pool

/-- The message types of a descriptor pool, and the extension fields of each by name. -/
structure DescriptorPool where
  types : List Descriptor
  extensionFields : String → List FieldDescriptor := fun _ => []
  distinct : (types.map Descriptor.fullName).Nodup

/-- A message type, which the factory knows by the address of its descriptor. -/
structure MessageType (pool : DescriptorPool) where
  descriptor : Descriptor
  declared : descriptor ∈ pool.types

namespace DescriptorPool

variable (pool : DescriptorPool)

def messageTypes : List (MessageType pool) := pool.types.attach.map fun type => ⟨type.1, type.2⟩

/-- The message type of a name, as `message_type()` of a field has it. -/
def findMessageType (fullName : String) : Option (MessageType pool) :=
  pool.messageTypes.find? fun type => type.descriptor.fullName == fullName

end DescriptorPool

namespace MessageType

variable {pool : DescriptorPool}

def fullName (type : MessageType pool) : String := type.descriptor.fullName

theorem fullName_injective {type type' : MessageType pool} (same : type.fullName = type'.fullName) : type = type' := by
  obtain ⟨descriptor, declared⟩ := type
  obtain ⟨descriptor', declared'⟩ := type'
  obtain rfl := List.inj_on_of_nodup_map pool.distinct declared declared' same
  rfl

instance : DecidableEq (MessageType pool) := fun type type' =>
  decidable_of_iff (type.fullName = type'.fullName) ⟨fullName_injective, fun same => same ▸ rfl⟩

theorem mem_messageTypes (type : MessageType pool) : type ∈ pool.messageTypes :=
  List.mem_map.mpr ⟨⟨type.descriptor, type.declared⟩, List.mem_attach _ _, rfl⟩

theorem find_fullName (type : MessageType pool) : pool.findMessageType type.fullName = some type := by
  cases found : pool.findMessageType type.fullName with
  | none =>
    have absent := List.find?_eq_none.mp found type type.mem_messageTypes
    exact absurd (beq_self_eq_true _) absent
  | some other =>
    have same := List.find?_some found
    rw [fullName_injective (beq_iff_eq.mp same)]

/-- The types of the message fields, in the order in which `Add` goes through them. -/
def messageFields (type : MessageType pool) : List (MessageType pool) :=
  type.descriptor.fields.filterMap fun field =>
    if field.isCppMessage then pool.findMessageType field.messageType else none

end MessageType
end Pool

section Table

/-- An entry of `rules_`. The runs of `NewMessageRules` are numbered, so that an
entry tells which of them it comes from. -/
structure StoredRules where
  build : Nat
  rules : Rules

namespace StoredRules

/-- `status()` -/
def status (stored : StoredRules) : Status := stored.rules.map fun _ => ()

end StoredRules

/-- The members of `ValidatorFactory` that the mutex guards, and the types that
`NewMessageRules` has been run for. -/
structure FactoryState (pool : DescriptorPool) where
  rules : MessageType pool → Option StoredRules := fun _ => none
  disableLazyLoading : Bool := false
  builds : List (MessageType pool) := []

/-- What `GetMessageRules` learns under the reader lock. -/
inductive Lookup where
  | found (stored : StoredRules)
  | disabled
  | missing

namespace FactoryState

variable {pool : DescriptorPool} (context : BuildContext) (state : FactoryState pool) (desc : MessageType pool)

/-- `emplace` of what `NewMessageRules` returns. -/
def emplace : StoredRules × FactoryState pool :=
  let stored := { build := state.builds.length, rules := newMessageRules context desc.descriptor }
  (stored, { state with rules := Function.update state.rules desc (some stored), builds := state.builds ++ [desc] })

/-- The critical section of `Add`: the entry, and whether it is new. -/
def addSection : (StoredRules × Bool) × FactoryState pool :=
  match state.rules desc with
  | some stored => ((stored, false), state)
  | none =>
    let (stored, state) := state.emplace context desc
    ((stored, true), state)

/-- The first critical section of `GetMessageRules`. -/
def lookupSection : Lookup :=
  match state.rules desc with
  | some stored => .found stored
  | none => if state.disableLazyLoading then .disabled else .missing

/-- The second one, which looks again. -/
def loadSection : StoredRules × FactoryState pool :=
  match state.rules desc with
  | some stored => (stored, state)
  | none => state.emplace context desc

/-- `GetMessageRules` -/
def getMessageRules : Option StoredRules × FactoryState pool :=
  match state.lookupSection desc with
  | .found stored => (some stored, state)
  | .disabled => (none, state)
  | .missing =>
    let (stored, state) := state.loadSection context desc
    (some stored, state)

/-- One call of `Add`, at any depth: the types that the pending calls still have to go
through, or the status that ends them all. -/
def addRound : List (MessageType pool) → Control (List (MessageType pool)) Status × FactoryState pool
  | [] => (.leave (.ok ()), state)
  | desc :: pending =>
    let ((stored, inserted), state) := state.addSection context desc
    match stored.status with
    | .error failure => (.leave (.error failure), state)
    | .ok () => (.again (if inserted then desc.messageFields ++ pending else pending), state)

/-- A round, and the state it leaves behind. -/
def addBody (config : List (MessageType pool) × FactoryState pool) :
    Control (List (MessageType pool) × FactoryState pool) (Status × FactoryState pool) :=
  match config.2.addRound context config.1 with
  | (.leave status, state) => .leave (status, state)
  | (.again pending, state) => .again (pending, state)

def lacks (type : MessageType pool) : Bool := (state.rules type).isNone

/-- The message fields of the types that are not loaded yet bound the calls to come. -/
def addSize (config : List (MessageType pool) × FactoryState pool) : Nat :=
  Search.left (fun type => type.messageFields.length + 1) config.2.lacks pool.messageTypes + config.1.length

/-- The calls of `Add` for a list of types, up to the first that fails. -/
def addAll (pending : List (MessageType pool)) : Status × FactoryState pool :=
  Control.loop (addBody context) addSize (.ok (), {}) (pending, state)

/-- `Add` -/
def add : Status × FactoryState pool := state.addAll context [desc]

/-- The factory that a validator works with. -/
def factory : ValidatorFactory where
  context := context
  loaded fullName := (pool.findMessageType fullName).bind fun type => (state.rules type).map StoredRules.rules
  disableLazyLoading := state.disableLazyLoading

variable {context} {state} {desc}

theorem addSection_found {stored : StoredRules} (found : state.rules desc = some stored) :
    state.addSection context desc = ((stored, false), state) := by
  rw [addSection, found]

theorem addSection_missing (missing : state.rules desc = none) :
    state.addSection context desc = (((state.emplace context desc).1, true), (state.emplace context desc).2) := by
  rw [addSection, missing]

theorem emplace_self : (state.emplace context desc).2.rules desc = some (state.emplace context desc).1 :=
  Function.update_self _ _ _

theorem emplace_other {other : MessageType pool} (different : other ≠ desc) :
    (state.emplace context desc).2.rules other = state.rules other :=
  Function.update_of_ne different _ _

/-- The calls for the message fields of a new type are paid for by the type. -/
theorem lacks_emplace (missing : state.rules desc = none) :
    Search.left (fun type => type.messageFields.length + 1) (state.emplace context desc).2.lacks pool.messageTypes +
        (desc.messageFields.length + 1) ≤
      Search.left (fun type => type.messageFields.length + 1) state.lacks pool.messageTypes := by
  refine Search.left_add_le (fun type still => ?_) desc.mem_messageTypes ?_ ?_
  · by_cases same : type = desc
    · rw [lacks, same, missing]
      rfl
    · rwa [lacks, emplace_other same] at still
  · rw [lacks, missing]
    rfl
  · rw [lacks, emplace_self]
    exact Bool.false_ne_true

theorem addBody_decreases : Control.Decreases (addBody context) (addSize : _ × FactoryState pool → Nat) := by
  rintro ⟨pending, state⟩ ⟨pending', state'⟩ again
  cases pending with
  | nil => cases again
  | cons desc pending =>
    simp only [addBody, addRound] at again
    cases held : state.rules desc with
    | some stored =>
      rw [addSection_found held] at again
      cases status : stored.status with
      | error failure =>
        simp only [status] at again
        cases again
      | ok _ =>
        simp only [status] at again
        cases again
        simp [addSize]
    | none =>
      rw [addSection_missing held] at again
      cases status : (state.emplace context desc).1.status with
      | error failure =>
        simp only [status] at again
        cases again
      | ok _ =>
        simp only [status] at again
        cases again
        have smaller : Search.left _ (state.emplace context desc).2.lacks _ + _ ≤ _ := lacks_emplace held
        simp only [addSize, ↓reduceIte, List.length_append, List.length_cons]
        omega

theorem addAll_nil : state.addAll context [] = (.ok (), state) := Control.loop_leave addBody_decreases rfl

variable {pending : List (MessageType pool)}

theorem addAll_error {failure : StatusError}
    (fails : (state.addSection context desc).1.1.status = .error failure) :
    state.addAll context (desc :: pending) = (.error failure, (state.addSection context desc).2) := by
  refine Control.loop_leave addBody_decreases ?_
  simp only [addBody, addRound, fails]

theorem addAll_ok (fine : (state.addSection context desc).1.1.status = .ok ()) :
    state.addAll context (desc :: pending) = (state.addSection context desc).2.addAll context
      (if (state.addSection context desc).1.2 then desc.messageFields ++ pending else pending) := by
  refine Control.loop_again addBody_decreases ?_
  simp only [addBody, addRound, fine]

/-- Induction along the calls of `Add`: there are none left, or the next one fails, or
it succeeds and the others follow. -/
theorem addAll_induction (context : BuildContext) (motive : FactoryState pool → List (MessageType pool) → Prop)
    (done : ∀ state, motive state [])
    (fails : ∀ state desc pending failure, (state.addSection context desc).1.1.status = .error failure →
      motive state (desc :: pending))
    (goes : ∀ state desc pending, (state.addSection context desc).1.1.status = .ok () →
      motive (state.addSection context desc).2
        (if (state.addSection context desc).1.2 then desc.messageFields ++ pending else pending) →
      motive state (desc :: pending)) (state : FactoryState pool) (pending : List (MessageType pool)) :
    motive state pending := by
  induction config : (pending, state) using
      Control.loop_induction (addBody_decreases : Control.Decreases (addBody context) _) generalizing pending state with
  | round config ih =>
    subst config
    cases pending with
    | nil => exact done state
    | cons desc pending =>
      cases status : (state.addSection context desc).1.1.status with
      | error failure => exact fails state desc pending failure status
      | ok _ =>
        refine goes state desc pending status (ih _ ?_ _ _ rfl)
        simp only [addBody, addRound, status]

/-- Go on with the next call unless a status is an error. -/
def followedBy (result : Status × FactoryState pool) (next : FactoryState pool → Status × FactoryState pool) :
    Status × FactoryState pool :=
  match result with
  | (.error failure, state) => (.error failure, state)
  | (.ok (), state) => next state

/-- The calls for some types come before the calls for others, which only follow
if the first ones succeed. -/
theorem addAll_append (first more : List (MessageType pool)) :
    state.addAll context (first ++ more) =
      followedBy (state.addAll context first) fun state => state.addAll context more := by
  induction state, first using addAll_induction context with
  | done state => rw [addAll_nil, List.nil_append, followedBy]
  | fails state desc first failure status => rw [List.cons_append, addAll_error status, addAll_error status, followedBy]
  | goes state desc first status ih =>
    rw [List.cons_append, addAll_ok status, addAll_ok status, ← ih]
    cases (state.addSection context desc).1.2 <;> simp

theorem addAll_cons : state.addAll context (desc :: pending) =
    followedBy (state.add context desc) fun state => state.addAll context pending :=
  addAll_append [desc] pending

/-- The recursion of `Add`: its critical section, and behind a new entry without an
error the calls for the message fields. -/
theorem add_eq : state.add context desc =
    followedBy ((state.addSection context desc).1.1.status, (state.addSection context desc).2) fun after =>
      if (state.addSection context desc).1.2 then after.addAll context desc.messageFields else (.ok (), after) := by
  rw [add]
  cases status : (state.addSection context desc).1.1.status with
  | error failure => rw [addAll_error status, followedBy]
  | ok _ =>
    rw [addAll_ok status, followedBy]
    split
    · rw [List.append_nil]
    · exact addAll_nil

/-- The calls of the validator and of the factory agree on what is found. -/
theorem getMessageRules_factory (context : BuildContext) (state : FactoryState pool) (desc : MessageType pool) :
    (state.getMessageRules context desc).1.map StoredRules.rules =
    (state.factory context).getMessageRules desc.descriptor := by
  have found : (state.factory context).loaded desc.descriptor.fullName = (state.rules desc).map StoredRules.rules := by
    change (pool.findMessageType desc.fullName).bind _ = _
    rw [desc.find_fullName]
    rfl
  rw [ValidatorFactory.getMessageRules, found, getMessageRules, lookupSection]
  cases held : state.rules desc with
  | some stored => rfl
  | none =>
    cases disabled : state.disableLazyLoading with
    | true => simp [factory, disabled]
    | false => simp [factory, disabled, loadSection, held, emplace]

end FactoryState

end Table
end Protovalidate.Validate
