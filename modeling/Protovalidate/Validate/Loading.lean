import Protovalidate.Validate.Entries
import Protovalidate.Validate.Pointers
import Protovalidate.Validate.Reachable

/-! What `Add` has loaded when it returns: it is a search that does not go on from types
in the table, which need not have been put there by a search. -/

namespace Protovalidate.Validate

open Foundation Relation Search

section Searching

variable {pool : DescriptorPool} {context : BuildContext} {state : FactoryState pool} {desc : MessageType pool}
variable {pending : List (MessageType pool)}

/-- `NewMessageRules` succeeds for a type. -/
def Compiles (context : BuildContext) (desc : MessageType pool) : Prop :=
  ∃ rules, newMessageRules context desc.descriptor = .ok rules

/-- A type that is in the table. -/
def Present (state : FactoryState pool) (desc : MessageType pool) : Prop := ∃ stored, state.rules desc = some stored

theorem status_ok_iff (stored : StoredRules) (same : stored.rules = newMessageRules context desc.descriptor) :
    stored.status = .ok () ↔ Compiles context desc := by
  rw [StoredRules.status, same, Compiles]
  cases newMessageRules context desc.descriptor with
  | error failure => simp [Except.map]
  | ok rules => simp [Except.map]

theorem Consistent.status_iff (consistent : Consistent context state) {stored : StoredRules}
    (held : state.rules desc = some stored) : stored.status = .ok () ↔ Compiles context desc :=
  status_ok_iff stored (consistent.built desc stored held).2

theorem present_addSection {other : MessageType pool} :
    Present (state.addSection context desc).2 other ↔ other = desc ∨ Present state other := by
  cases held : state.rules desc with
  | some stored =>
    rw [FactoryState.addSection_found held]
    exact ⟨.inr, fun either => either.elim (fun same => same ▸ ⟨stored, held⟩) id⟩
  | none =>
    rw [FactoryState.addSection_missing held]
    by_cases same : other = desc
    · subst same
      exact iff_of_true ⟨_, FactoryState.emplace_self⟩ (.inl rfl)
    · rw [Present, FactoryState.emplace_other same, or_iff_right same, Present]

/-- The types that are still to be loaded when a search has loaded one. -/
theorem visits_addSection (context : BuildContext) {other : MessageType pool} :
    Visits MessageType.messageFields (Present state) (desc :: pending) other ↔
      other = desc ∨ Visits MessageType.messageFields (Present (state.addSection context desc).2)
        (if (state.addSection context desc).1.2 then desc.messageFields ++ pending else pending) other := by
  cases held : state.rules desc with
  | some stored =>
    rw [visits_marked ⟨stored, held⟩, FactoryState.addSection_found held]
    rfl
  | none =>
    have unmarked : ¬Present state desc := by
      rintro ⟨stored, found⟩
      rw [held] at found
      cases found
    have marks : Present (state.addSection context desc).2 = fun type => type = desc ∨ Present state type :=
      funext fun type => propext present_addSection
    rw [visits_fresh unmarked, marks, FactoryState.addSection_missing held]
    rfl

/-- What `NewMessageRules` returned for a type, or will return, is no error. -/
def CompilesIn (context : BuildContext) (state : FactoryState pool) (desc : MessageType pool) : Prop :=
  match state.rules desc with
  | some stored => stored.status = .ok ()
  | none => Compiles context desc

theorem Consistent.compilesIn_iff (consistent : Consistent context state) :
    CompilesIn context state desc ↔ Compiles context desc := by
  rw [CompilesIn]
  cases held : state.rules desc with
  | some stored => exact consistent.status_iff held
  | none => exact Iff.rfl

/-- The section of a type succeeds if and only if the type compiles. -/
theorem compilesIn_section : (state.addSection context desc).1.1.status = .ok () ↔ CompilesIn context state desc := by
  rw [CompilesIn]
  cases held : state.rules desc with
  | some stored => rw [FactoryState.addSection_found held]
  | none =>
    rw [FactoryState.addSection_missing held]
    exact status_ok_iff _ rfl

/-- No section has an influence on which types compile. -/
theorem compilesIn_addSection {other : MessageType pool} :
    CompilesIn context (state.addSection context desc).2 other ↔ CompilesIn context state other := by
  cases held : state.rules desc with
  | some stored => rw [FactoryState.addSection_found held]
  | none =>
    rw [FactoryState.addSection_missing held]
    by_cases same : other = desc
    · subst same
      simp only [CompilesIn, FactoryState.emplace_self, held]
      exact status_ok_iff _ rfl
    · simp only [CompilesIn, FactoryState.emplace_other same]

/-- The search succeeds if all types that it comes to compile, and then exactly these
have been added. -/
theorem addAll_visits : ((state.addAll context pending).1 = .ok () ↔
      ∀ type, Visits MessageType.messageFields (Present state) pending type → CompilesIn context state type) ∧
    ((state.addAll context pending).1 = .ok () → ∀ type, Present (state.addAll context pending).2 type ↔
      Present state type ∨ Visits MessageType.messageFields (Present state) pending type) := by
  induction state, pending using FactoryState.addAll_induction context with
  | done state =>
    rw [FactoryState.addAll_nil]
    simp [Visits]
  | fails state desc pending failure status =>
    have broken : ¬CompilesIn context state desc := by
      rw [← compilesIn_section, status]
      exact fun impossible => by cases impossible
    rw [FactoryState.addAll_error status]
    exact ⟨iff_of_false (fun impossible => by cases impossible) fun all => broken (all desc (visits_root (by simp))),
      fun impossible => by cases impossible⟩
  | goes state desc pending status ih =>
    have compiles := compilesIn_section.mp status
    obtain ⟨succeeds, loaded⟩ := ih
    rw [FactoryState.addAll_ok status, succeeds]
    refine ⟨?_, fun all type => ?_⟩
    · simp only [visits_addSection context, compilesIn_addSection, or_imp, forall_and, forall_eq, compiles, true_and]
    · rw [loaded (succeeds.mpr all), visits_addSection context, present_addSection]
      tauto

/-- The same in a table where every entry is what `NewMessageRules` returns. -/
theorem addAll_search (consistent : Consistent context state) :
    ((state.addAll context pending).1 = .ok () ↔
      ∀ type, Visits MessageType.messageFields (Present state) pending type → Compiles context type) ∧
    ((state.addAll context pending).1 = .ok () → ∀ type, Present (state.addAll context pending).2 type ↔
      Present state type ∨ Visits MessageType.messageFields (Present state) pending type) := by
  simp only [← consistent.compilesIn_iff]
  exact addAll_visits

/-- What every critical section of `Add` preserves, its calls preserve. -/
theorem addAll_preserves (invariant : FactoryState pool → Prop)
    (preserves : ∀ state desc, invariant state → invariant (state.addSection context desc).2) (before : invariant state) :
    invariant (state.addAll context pending).2 := by
  induction state, pending using FactoryState.addAll_induction context with
  | done state =>
    rw [FactoryState.addAll_nil]
    exact before
  | fails state desc pending failure status =>
    rw [FactoryState.addAll_error status]
    exact preserves state desc before
  | goes state desc pending status ih =>
    rw [FactoryState.addAll_ok status]
    exact ih (preserves state desc before)

theorem add_keeps : Keeps state (state.add context desc).2 :=
  addAll_preserves (Keeps state) (fun middle type kept other stored held =>
    (middle.addSection_changes type context).1.keeps other stored (kept other stored held)) fun _ _ held => held

theorem add_consistent (consistent : Consistent context state) : Consistent context (state.add context desc).2 :=
  addAll_preserves (Consistent context) (fun state type => (state.addSection_changes type context).1.consistent) consistent

/-- `Add` leaves the type itself in the table. -/
theorem add_present : Present (state.add context desc).2 desc := by
  rw [FactoryState.add]
  cases status : (state.addSection context desc).1.1.status with
  | error failure =>
    rw [FactoryState.addAll_error status]
    exact present_addSection.mpr (.inl rfl)
  | ok _ =>
    rw [FactoryState.addAll_ok status]
    refine addAll_preserves (Present · desc) (fun state type present => ?_) (present_addSection.mpr (.inl rfl))
    exact present_addSection.mpr (.inr present)

/-- A type in the table is not gone through again. -/
theorem add_again (consistent : Consistent context state) (present : Present state desc) :
    (state.add context desc).1 = .ok () ↔ Compiles context desc := by
  rw [FactoryState.add, (addAll_search consistent).1]
  have marked : ∀ type, Visits MessageType.messageFields (Present state) [desc] type ↔ type = desc := fun type => by
    rw [visits_marked present]
    simp [Visits]
  simp only [marked, forall_eq]

end Searching

section Histories

variable {pool : DescriptorPool} (context : BuildContext)

/-- The calls that the table depends on. -/
inductive Operation (pool : DescriptorPool) where
  | add (desc : MessageType pool)
  | getMessageRules (desc : MessageType pool)
  | disableLazyLoading (disable : Bool)

def perform (state : FactoryState pool) : Operation pool → FactoryState pool
  | .add desc => (state.add context desc).2
  | .getMessageRules desc => (state.getMessageRules context desc).2
  | .disableLazyLoading disable => { state with disableLazyLoading := disable }

def performAll (state : FactoryState pool) (operations : List (Operation pool)) : FactoryState pool :=
  operations.foldl (perform context) state

/-- The calls of `Add` in a history, each with the state that it starts in. -/
def addCalls (state : FactoryState pool) : List (Operation pool) → List (FactoryState pool × MessageType pool)
  | [] => []
  | .add desc :: operations => (state, desc) :: addCalls (perform context state (.add desc)) operations
  | operation :: operations => addCalls (perform context state operation) operations

/-- What `Add` promises: success means that the rules of all types that validation of
such messages may look up are loaded, whatever is called afterwards, and failure is final. -/
structure Fulfils (state : FactoryState pool) (desc : MessageType pool) : Prop where
  loaded : (state.add context desc).1 = .ok () → ∀ type, LookedUp desc type →
    ∃ stored, (state.add context desc).2.rules type = some stored ∧ stored.status = .ok ()
  validates : (state.add context desc).1 = .ok () → ∀ later message sub, Conforms desc message →
    ReflTransGen Child message sub → ∃ rules, ((performAll context (state.add context desc).2
      (later ++ [.disableLazyLoading true])).factory context).rulesOf sub.descriptor = .ok rules
  final : (state.add context desc).1 ≠ .ok () → ∀ later,
    ((performAll context (state.add context desc).2 later).add context desc).1 ≠ .ok ()

/-- If the type itself compiles, then so do all types that `Add` comes to, and those
that validation may look up are among these or are loaded already. -/
def Closes (state : FactoryState pool) (desc : MessageType pool) : Prop :=
  Compiles context desc →
    (∀ type, Visits MessageType.messageFields (Present state) [desc] type → Compiles context type) ∧
      ∀ type, ReflTransGen DescendsTo desc type →
        Visits MessageType.messageFields (Present state) [desc] type ∨ Present state type ∧ Compiles context type

variable {context} {state : FactoryState pool} {desc : MessageType pool}

theorem getMessageRules_changes : Changes context state (state.getMessageRules context desc).2 := by
  unfold FactoryState.getMessageRules
  cases state.lookupSection desc with
  | found stored => exact .same state
  | disabled => exact .same state
  | missing => exact (state.loadSection_changes desc context).1

theorem perform_keeps (operation : Operation pool) : Keeps state (perform context state operation) := by
  cases operation with
  | add desc => exact add_keeps
  | getMessageRules desc => exact getMessageRules_changes.keeps
  | disableLazyLoading disable => exact fun _ _ held => held

theorem perform_consistent (operation : Operation pool) (consistent : Consistent context state) :
    Consistent context (perform context state operation) := by
  cases operation with
  | add desc => exact add_consistent consistent
  | getMessageRules desc => exact getMessageRules_changes.consistent consistent
  | disableLazyLoading disable => exact (Changes.flagged state disable).consistent consistent

theorem performAll_keeps (operations : List (Operation pool)) : Keeps state (performAll context state operations) := by
  induction operations generalizing state with
  | nil => exact fun _ _ held => held
  | cons operation operations ih => exact fun desc stored held => ih desc stored (perform_keeps operation desc stored held)

theorem performAll_consistent (operations : List (Operation pool)) (consistent : Consistent context state) :
    Consistent context (performAll context state operations) := by
  induction operations generalizing state with
  | nil => exact consistent
  | cons operation operations ih => exact ih (perform_consistent operation consistent)

/-- The rules that the validator finds are those of the type. -/
theorem Consistent.rulesOf {type : MessageType pool} (consistent : Consistent context state) {rules : List ValidationRules}
    (found : (state.factory context).rulesOf type.descriptor = .ok rules) :
    newMessageRules context type.descriptor = .ok rules := by
  unfold ValidatorFactory.rulesOf at found
  rw [← FactoryState.getMessageRules_factory, FactoryState.getMessageRules, FactoryState.lookupSection] at found
  cases held : state.rules type with
  | some stored =>
    simp only [held, Option.map_some] at found
    rw [← (consistent.built type stored held).2, found]
  | none =>
    simp only [held] at found
    cases disabled : state.disableLazyLoading with
    | true =>
      rw [disabled] at found
      cases found
    | false =>
      rw [disabled] at found
      simpa [FactoryState.loadSection, held, FactoryState.emplace] using found

/-- A loaded entry without an error is what the validator finds for its type. -/
theorem Conforms.rulesOf {type : MessageType pool} {message : Message} (conforms : Conforms type message)
    {stored : StoredRules} (held : state.rules type = some stored) (fine : stored.status = .ok ()) :
    ∃ rules, (state.factory context).rulesOf message.descriptor = .ok rules := by
  have looked : state.getMessageRules context type = (some stored, state) := by
    simp only [FactoryState.getMessageRules, FactoryState.lookupSection, held]
  have found := FactoryState.getMessageRules_factory context state type
  rw [looked, ← conforms.descriptor_eq] at found
  rw [ValidatorFactory.rulesOf, ← found]
  unfold StoredRules.status at fine
  change ∃ rules, stored.rules = .ok rules
  cases loaded : stored.rules with
  | error failure =>
    rw [loaded] at fine
    cases fine
  | ok rules => exact ⟨rules, rfl⟩

theorem add_ok_iff (consistent : Consistent context state) : (state.add context desc).1 = .ok () ↔
    ∀ type, Visits MessageType.messageFields (Present state) [desc] type → Compiles context type :=
  (addAll_search consistent).1

/-- A call that closes the table and succeeds has loaded all that validation may look up. -/
theorem Closes.loaded (consistent : Consistent context state) (closes : Closes context state desc)
    (succeeds : (state.add context desc).1 = .ok ()) {type : MessageType pool} (path : ReflTransGen DescendsTo desc type) :
    ∃ stored, (state.add context desc).2.rules type = some stored ∧ stored.status = .ok () := by
  have visited := (add_ok_iff consistent).mp succeeds
  have present := (addAll_search consistent).2 succeeds type
  obtain ⟨-, covered⟩ := closes (visited desc (visits_root (by simp)))
  have held : Present (state.add context desc).2 type ∧ Compiles context type := by
    rcases covered type path with reached | ⟨before, compiles⟩
    · exact ⟨present.mpr (.inr reached), visited type reached⟩
    · exact ⟨present.mpr (.inl before), compiles⟩
  obtain ⟨⟨stored, entry⟩, compiles⟩ := held
  exact ⟨stored, entry, ((add_consistent consistent).status_iff entry).mpr compiles⟩

/-- One call of `Add` keeps its promise if and only if it closes the table. -/
theorem fulfils_iff (consistent : Consistent context state) : Fulfils context state desc ↔ Closes context state desc := by
  constructor
  · intro fulfils compiles
    have succeeds : (state.add context desc).1 = .ok () := by
      by_contra fails
      exact fulfils.final fails [] ((add_again (add_consistent consistent) add_present).mpr compiles)
    have visited := (add_ok_iff consistent).mp succeeds
    refine ⟨visited, fun type path => ?_⟩
    obtain ⟨stored, held, fine⟩ := fulfils.loaded succeeds type (lookedUp_iff.mpr path)
    rcases ((addAll_search consistent).2 succeeds type).mp ⟨stored, held⟩ with before | reached
    · exact .inr ⟨before, ((add_consistent consistent).status_iff held).mp fine⟩
    · exact .inl reached
  · intro closes
    refine ⟨fun succeeds type lookedUp => closes.loaded consistent succeeds (lookedUp_iff.mp lookedUp), ?_, ?_⟩
    · intro succeeds later message sub conforms below
      obtain ⟨type, path, conforms'⟩ := conforms.descendant below
      obtain ⟨stored, held, fine⟩ := closes.loaded consistent succeeds path
      exact conforms'.rulesOf (performAll_keeps _ type stored held) fine
    · intro fails later succeeds
      obtain ⟨stored, held⟩ : Present (state.add context desc).2 desc := add_present
      have after : Consistent context (state.add context desc).2 := add_consistent consistent
      have consistent' := performAll_consistent later after
      have compiles := (add_again consistent' ⟨stored, performAll_keeps later desc stored held⟩).mp succeeds
      exact fails ((add_ok_iff consistent).mpr (closes compiles).1)

theorem addCalls_consistent (consistent : Consistent context state) {history : List (Operation pool)} :
    ∀ call ∈ addCalls context state history, Consistent context call.1 := by
  induction history generalizing state with
  | nil => exact fun _ impossible => by cases impossible
  | cons operation history ih =>
    have others := ih (perform_consistent operation consistent)
    cases operation with
    | add desc =>
      intro call member
      rcases List.mem_cons.mp member with same | later
      · exact same ▸ consistent
      · exact others call later
    | _ => exact others

/-- In every history of a new factory, all calls of `Add` keep their promise if and only
if all of them close the table. -/
theorem add_fulfils_iff (context : BuildContext) (history : List (Operation pool)) :
    (∀ call ∈ addCalls context {} history, Fulfils context call.1 call.2) ↔
      ∀ call ∈ addCalls context {} history, Closes context call.1 call.2 :=
  forall₂_congr fun call member => fulfils_iff (addCalls_consistent consistent_new call member)

end Histories

section Sample

def lineField : FieldDescriptor where
  number := 1
  name := "line"
  fullName := "Bill.line"
  type := .message
  messageType := "Line"

/-- Rules for durations on a string field. -/
def brokenField : FieldDescriptor where
  number := 1
  name := "amount"
  fullName := "Line.amount"
  type := .string
  options := some ⟨none, false, [], [], .wellKnown .duration { typeName := "buf.validate.DurationRules" }⟩

/-- Bills hold lines, which have some fields. -/
def billing (fields : List FieldDescriptor) : DescriptorPool where
  types := [{ fullName := "Bill", fields := [lineField] }, { fullName := "Line", fields := fields }]
  distinct := by simp

def bill (fields : List FieldDescriptor) : MessageType (billing fields) :=
  ⟨{ fullName := "Bill", fields := [lineField] }, by simp [billing]⟩

def line (fields : List FieldDescriptor) : MessageType (billing fields) :=
  ⟨{ fullName := "Line", fields := fields }, by simp [billing]⟩

/-- A bill whose rules have been loaded lazily. -/
def billLoaded : FactoryState (billing []) := perform plainContext {} (.getMessageRules (bill []))

/-- A lazy load keeps `Add` from loading the types of the message fields, and a call
that has failed succeeds when it is made again. -/
theorem add_breaksPromise :
    (billLoaded.add plainContext (bill [])).1 = .ok () ∧ (billLoaded.add plainContext (bill [])).2.rules (line []) = none ∧
      ¬Fulfils plainContext billLoaded (bill []) ∧
      (FactoryState.add plainContext {} (bill [brokenField])).1 =
        .error ⟨.invalidArgument, "duration field validator on non-duration field"⟩ ∧
      ((FactoryState.add plainContext {} (bill [brokenField])).2.add plainContext (bill [brokenField])).1 = .ok () ∧
      ¬Fulfils plainContext {} (bill [brokenField]) := by
  refine ⟨rfl, rfl, fun fulfils => ?_, rfl, rfl, fun fulfils => ?_⟩
  · have descends : DescendsTo (bill []) (line []) := ⟨lineField, List.mem_cons_self, rfl, rfl, rfl⟩
    obtain ⟨stored, held, -⟩ := fulfils.loaded rfl (line []) (lookedUp_iff.mpr (.single descends))
    cases held
  · exact fulfils.final (fun impossible => by cases impossible) [] rfl

end Sample
end Protovalidate.Validate
