import Protovalidate.Validate.Loading

/-! The recursion of `Add` as the source has it, and the set of types that it leaves
in a table that is closed under message fields. -/

namespace Protovalidate.Validate

open Foundation Relation Search

section Recursion

variable {pool : DescriptorPool} (context : BuildContext)

mutual

/-- A call of `Add` for a type returns a status and leaves a state behind. -/
inductive AddReturns : FactoryState pool → MessageType pool → Status × FactoryState pool → Prop where
  | found {state desc stored} (held : state.rules desc = some stored) :
    AddReturns state desc (stored.status, state)
  | fails {state desc failure} (missing : state.rules desc = none)
    (broken : (state.emplace context desc).1.status = .error failure) :
    AddReturns state desc (.error failure, (state.emplace context desc).2)
  | recurses {state desc result} (missing : state.rules desc = none)
    (fine : (state.emplace context desc).1.status = .ok ())
    (fields : FieldsReturn (state.emplace context desc).2 desc.messageFields result) : AddReturns state desc result

/-- So does the loop over the message fields. -/
inductive FieldsReturn : FactoryState pool → List (MessageType pool) → Status × FactoryState pool → Prop where
  | done {state} : FieldsReturn state [] (.ok (), state)
  | fails {state type types failure after} (call : AddReturns state type (.error failure, after)) :
    FieldsReturn state (type :: types) (.error failure, after)
  | goesOn {state type types middle result} (call : AddReturns state type (.ok (), middle))
    (rest : FieldsReturn middle types result) : FieldsReturn state (type :: types) result

end

variable {context} {state : FactoryState pool} {desc : MessageType pool} {types more : List (MessageType pool)}

/-- A loop over more fields has gone through the first ones before. -/
theorem FieldsReturn.split {result : Status × FactoryState pool} (returns : FieldsReturn context state (types ++ more) result) :
    (∃ failure after, FieldsReturn context state types (.error failure, after) ∧ result = (.error failure, after)) ∨
      ∃ middle, FieldsReturn context state types (.ok (), middle) ∧ FieldsReturn context middle more result := by
  induction types generalizing state with
  | nil => exact .inr ⟨state, .done, returns⟩
  | cons type types ih =>
    cases returns with
    | fails call => exact .inl ⟨_, _, .fails call, rfl⟩
    | goesOn call rest =>
      rcases ih rest with ⟨failure, after, first, same⟩ | ⟨middle, first, second⟩
      · exact .inl ⟨failure, after, .goesOn call first, same⟩
      · exact .inr ⟨middle, .goesOn call first, second⟩

/-- The calls always come to an end. -/
theorem fieldsReturn_addAll (context : BuildContext) (state : FactoryState pool) (types : List (MessageType pool)) :
    FieldsReturn context state types (state.addAll context types) := by
  induction state, types using FactoryState.addAll_induction context with
  | done state =>
    rw [FactoryState.addAll_nil]
    exact .done
  | fails state desc types failure status =>
    rw [FactoryState.addAll_error status]
    cases held : state.rules desc with
    | some stored =>
      rw [FactoryState.addSection_found held] at status ⊢
      have call : AddReturns context state desc (stored.status, state) := .found held
      rw [status] at call
      exact .fails call
    | none =>
      rw [FactoryState.addSection_missing held] at status ⊢
      exact .fails (.fails held status)
  | goes state desc types status ih =>
    rw [FactoryState.addAll_ok status]
    cases held : state.rules desc with
    | some stored =>
      rw [FactoryState.addSection_found held] at status ih ⊢
      have call : AddReturns context state desc (stored.status, state) := .found held
      rw [status] at call
      exact .goesOn call ih
    | none =>
      rw [FactoryState.addSection_missing held] at status ih ⊢
      rcases ih.split with ⟨failure, after, fields, same⟩ | ⟨middle, fields, rest⟩
      · rw [same]
        exact .fails (.recurses held status fields)
      · exact .goesOn (.recurses held status fields) rest

theorem AddReturns.unique {result : Status × FactoryState pool} (returns : AddReturns context state desc result) :
    result = state.add context desc := by
  refine @AddReturns.rec pool context (fun state desc result _ => result = state.add context desc)
    (fun state types result _ => result = state.addAll context types) ?found ?fails ?recurses ?done ?failing ?goesOn
    state desc result returns
  case found =>
    intro state desc stored held
    rw [FactoryState.add_eq, FactoryState.addSection_found held]
    cases status : stored.status <;> rfl
  case fails =>
    intro state desc failure missing broken
    rw [FactoryState.add_eq, FactoryState.addSection_missing missing, broken]
    rfl
  case recurses =>
    intro state desc result missing fine _ ih
    rw [FactoryState.add_eq, FactoryState.addSection_missing missing, fine]
    exact ih
  case done =>
    intro state
    rw [FactoryState.addAll_nil]
  case failing =>
    intro state type types failure after _ ih
    rw [FactoryState.addAll_cons, ← ih]
    rfl
  case goesOn =>
    intro state type types middle result _ _ ih ih'
    rw [FactoryState.addAll_cons, ← ih]
    exact ih'

/-- The recursion of the source comes to an end, with what the model computes. -/
theorem addReturns_iff {result : Status × FactoryState pool} :
    AddReturns context state desc result ↔ result = state.add context desc := by
  refine ⟨AddReturns.unique, fun same => ?_⟩
  have returns := fieldsReturn_addAll context state [desc]
  rw [← FactoryState.add, ← same] at returns
  cases returns with
  | fails call => exact call
  | goesOn call rest =>
    cases rest
    exact call

end Recursion

section Reachable

variable {pool : DescriptorPool}

/-- A type has a message field of another type. -/
def Embeds (type field : MessageType pool) : Prop := field ∈ type.messageFields

/-- The types in the table have those of their message fields in the table. -/
def Complete (state : FactoryState pool) : Prop := ∀ type field, Present state type → Embeds type field → Present state field

theorem complete_new : Complete ({} : FactoryState pool) := by
  rintro type field ⟨stored, held⟩
  cases held

variable {context : BuildContext} {state : FactoryState pool} {desc : MessageType pool}

/-- On top of a complete table, the search goes all the way. -/
theorem Complete.present_add (complete : Complete state) (succeeds : (state.add context desc).1 = .ok ())
    {type : MessageType pool} :
    Present (state.add context desc).2 type ↔ Present state type ∨ ReflTransGen Embeds desc type := by
  have searched : Present (state.add context desc).2 type ↔ _ := addAll_visits.2 succeeds type
  rw [searched, visits_closed complete]
  simp only [List.mem_singleton, exists_eq_left]
  rfl

theorem Complete.add (complete : Complete state) (succeeds : (state.add context desc).1 = .ok ()) :
    Complete (state.add context desc).2 := by
  intro type field present embeds
  apply (complete.present_add succeeds).mpr
  rcases (complete.present_add succeeds).mp present with before | reached
  · exact .inl (complete type field before embeds)
  · exact .inr (reached.tail embeds)

/-- `Add` terminates for every graph of message types, whatever cycles it has. If all
types compile and the table is complete, then it succeeds, keeps the entries that are
there, and adds exactly the types that can be reached. -/
theorem add_searches (context : BuildContext) (state : FactoryState pool) (desc : MessageType pool)
    (compiles : ∀ type, CompilesIn context state type) (complete : Complete state) :
    (∀ result, AddReturns context state desc result ↔ result = state.add context desc) ∧
      (state.add context desc).1 = .ok () ∧ Keeps state (state.add context desc).2 ∧
      (∀ type, Present (state.add context desc).2 type ↔ Present state type ∨ ReflTransGen Embeds desc type) ∧
      Complete (state.add context desc).2 := by
  have succeeds : (state.add context desc).1 = .ok () := addAll_visits.1.mpr fun type _ => compiles type
  refine ⟨fun result => addReturns_iff, succeeds, add_keeps, fun type => complete.present_add succeeds, ?_⟩
  exact complete.add succeeds

end Reachable

section Sample

def nodeField (number : Nat) (name : String) (messageType : String) : FieldDescriptor where
  number := number
  name := name
  fullName := "Node." ++ name
  type := .message
  messageType := messageType

/-- Nodes hold nodes and labels, and labels hold nodes again. -/
def forest : DescriptorPool where
  types := [{ fullName := "Node", fields := [nodeField 1 "left" "Node", nodeField 2 "right" "Node", nodeField 3 "label" "Label"] },
    { fullName := "Label", fields := [nodeField 4 "owner" "Node"] }, { fullName := "Stamp" }]
  distinct := by decide

def node : MessageType forest := ⟨forest.types[0], List.getElem_mem _⟩

def label : MessageType forest := ⟨forest.types[1], List.getElem_mem _⟩

def stamp : MessageType forest := ⟨forest.types[2], List.getElem_mem _⟩

/-- Stamps have been loaded lazily. -/
def stampLoaded : FactoryState forest := perform plainContext {} (.getMessageRules stamp)

theorem stampLoaded_compiles (type : MessageType forest) : CompilesIn plainContext stampLoaded type := by
  obtain ⟨descriptor, declared⟩ := type
  simp only [forest, List.mem_cons, List.not_mem_nil, or_false] at declared
  rcases declared with rfl | rfl | rfl
  · exact ⟨_, rfl⟩
  · exact ⟨_, rfl⟩
  · exact rfl

theorem stampLoaded_complete : Complete stampLoaded := by
  rintro ⟨descriptor, declared⟩ field ⟨stored, held⟩ embeds
  simp only [forest, List.mem_cons, List.not_mem_nil, or_false] at declared
  rcases declared with rfl | rfl | rfl
  · cases held
  · cases held
  · cases embeds

theorem add_searchesForest : (stampLoaded.add plainContext node).1 = .ok () ∧
    (∀ type, Present (stampLoaded.add plainContext node).2 type ↔
      Present stampLoaded type ∨ ReflTransGen Embeds node type) ∧ ¬Present stampLoaded label ∧ Embeds node label := by
  obtain ⟨-, succeeds, -, reached, -⟩ := add_searches plainContext stampLoaded node stampLoaded_compiles stampLoaded_complete
  refine ⟨succeeds, reached, ?_, ?_⟩
  · rintro ⟨stored, held⟩
    cases held
  · show label ∈ node.messageFields
    decide

end Sample
end Protovalidate.Validate
