import Protovalidate.Foundation.Interleaving
import Protovalidate.Validate.Entries

/-! Any number of threads that call one factory: their steps are the critical sections
of the calls, and what is done without a lock: the read through the pointer that
`GetMessageRules` has returned, and the evaluation of rules. -/

namespace Protovalidate.Validate

open Foundation

section Steps

variable {pool : DescriptorPool}

/-- What a call has read of a type: which entry, and its status. -/
structure Observation (pool : DescriptorPool) where
  desc : MessageType pool
  build : Nat
  status : Status

/-- What is shared, and what all calls so far have read. -/
structure SharedState (pool : DescriptorPool) where
  factory : FactoryState pool := {}
  log : List (Observation pool) := []

/-- Where a thread is: outside of all calls, in `Add`, in front of either lock of
`GetMessageRules`, in `DisableLazyLoading`, with a pointer to rules that it has not
read yet, or in the loop over the rules. The pointer is known by how often the table
had moved. A thread that reads through a pointer from before a move is lost. -/
inductive Caller (pool : DescriptorPool) where
  | idle
  | adding (pending : List (MessageType pool))
  | looking (desc : MessageType pool)
  | loading (desc : MessageType pool)
  | disabling (disable : Bool)
  | holding (desc : MessageType pool) (address : Nat)
  | evaluating (desc : MessageType pool) (left : List ValidationRules)
  | lost (desc : MessageType pool)

/-- The call that an idle thread makes, or whether another one goes on. -/
inductive Action (pool : DescriptorPool) where
  | add (desc : MessageType pool)
  | getMessageRules (desc : MessageType pool)
  | disableLazyLoading (disable : Bool)
  | proceed
  | stop

def observed (desc : MessageType pool) (stored : StoredRules) : Observation pool where
  desc := desc
  build := stored.build
  status := stored.status

/-- How often the table has moved its entries; `grows` says at which sizes it does. -/
def FactoryState.moves (grows : Nat → Bool) (state : FactoryState pool) : Nat :=
  ((List.range state.builds.length).filter grows).length

/-- What is found at an address: the entry, unless the table has moved since. -/
def FactoryState.deref (grows : Nat → Bool) (state : FactoryState pool) (desc : MessageType pool) (address : Nat) :
    Option StoredRules :=
  if address = state.moves grows then state.rules desc else none

/-- `ValidateMessage` reads its pointer once, in front of the loop: for the status, and for
the vector of the rules. The loop goes through the memory that the vector owns, which
does not move with the entry. -/
def FactoryState.readRules {β : Type} (grows : Nat → Bool) (state : FactoryState pool) (desc : MessageType pool)
    (address : Nat) (lost : β) (read : Rules → β) : β :=
  match state.deref grows desc address with
  | some stored => read stored.rules
  | none => lost

variable (grows : Nat → Bool) (context : BuildContext) (shared : SharedState pool)

/-- `GetMessageRules` returns a pointer to an entry. -/
def returnPointer (factory : FactoryState pool) (desc : MessageType pool) (stored : StoredRules) :
    SharedState pool × Caller pool :=
  ({ factory := factory, log := shared.log ++ [observed desc stored] }, .holding desc (factory.moves grows))

def addStep : List (MessageType pool) → SharedState pool × Caller pool
  | [] => (shared, .idle)
  | desc :: pending =>
    let log := shared.log ++ [observed desc (shared.factory.addSection context desc).1.1]
    match shared.factory.addRound context (desc :: pending) with
    | (.leave _, factory) => ({ factory := factory, log := log }, .idle)
    | (.again pending, factory) => ({ factory := factory, log := log }, .adding pending)

def lookupStep (desc : MessageType pool) : SharedState pool × Caller pool :=
  match shared.factory.lookupSection desc with
  | .found stored => returnPointer grows shared shared.factory desc stored
  | .disabled => (shared, .idle)
  | .missing => (shared, .loading desc)

def loadStep (desc : MessageType pool) : SharedState pool × Caller pool :=
  let (stored, factory) := shared.factory.loadSection context desc
  returnPointer grows shared factory desc stored

/-- A validator returns the status if the rules have not compiled, or starts its loop. -/
def readStep (desc : MessageType pool) (address : Nat) : Caller pool :=
  shared.factory.readRules grows desc address (.lost desc) fun rules =>
    match rules with
    | .error _ => .idle
    | .ok rules => .evaluating desc rules

/-- The next rule is evaluated. -/
def loopStep (desc : MessageType pool) : List ValidationRules → Caller pool
  | [] => .idle
  | _ :: left => .evaluating desc left

/-- One step of a thread. -/
def callerStep : Program (SharedState pool) (Caller pool) (Action pool)
  | shared, .idle, .add desc => (shared, .adding [desc])
  | shared, .idle, .getMessageRules desc => (shared, .looking desc)
  | shared, .idle, .disableLazyLoading disable => (shared, .disabling disable)
  | shared, .adding pending, .proceed => addStep context shared pending
  | shared, .looking desc, .proceed => lookupStep grows shared desc
  | shared, .loading desc, .proceed => loadStep grows context shared desc
  | shared, .disabling disable, .proceed =>
    ({ shared with factory := { shared.factory with disableLazyLoading := disable } }, .idle)
  | shared, .holding desc address, .proceed => (shared, readStep grows shared desc address)
  | shared, .evaluating desc left, .proceed => (shared, loopStep desc left)
  | shared, .evaluating _ _, .stop => (shared, .idle)
  | shared, caller, _ => (shared, caller)

/-- A new factory, and threads that have not called it yet. -/
def initialThreads (ι : Type) : Threads ι (SharedState pool) (Caller pool) where
  shared := {}
  thread _ := .idle

/-- What a schedule of the threads leads to. -/
def runThreads {ι : Type} [DecidableEq ι] (schedule : List (ι × Action pool)) :
    Threads ι (SharedState pool) (Caller pool) :=
  (initialThreads ι).execute (callerStep grows context) schedule

end Steps

section Readings

variable {pool : DescriptorPool} {grows : Nat → Bool} {context : BuildContext}

/-- A step does one critical section at most, and what it reads is in the table behind it. -/
structure Reads (context : BuildContext) (before after : SharedState pool) : Prop where
  changes : Changes context before.factory after.factory
  log : after.log = before.log ∨ ∃ desc stored, after.factory.rules desc = some stored ∧
    after.log = before.log ++ [observed desc stored]

variable {shared : SharedState pool}

theorem reads_nothing (state : SharedState pool) : Reads context state state := ⟨.same _, .inl rfl⟩

theorem addStep_reads (pending : List (MessageType pool)) : Reads context shared (addStep context shared pending).1 := by
  cases pending with
  | nil => exact reads_nothing shared
  | cons desc pending =>
    obtain ⟨changes, stored⟩ := shared.factory.addSection_changes desc context
    rw [← FactoryState.addRound_state pending] at changes stored
    simp only [addStep]
    cases round : shared.factory.addRound context (desc :: pending) with
    | mk control factory =>
      rw [round] at changes stored
      cases control with
      | leave status => exact ⟨changes, .inr ⟨desc, _, stored, rfl⟩⟩
      | again pending => exact ⟨changes, .inr ⟨desc, _, stored, rfl⟩⟩

theorem lookupStep_reads (desc : MessageType pool) : Reads context shared (lookupStep grows shared desc).1 := by
  unfold lookupStep
  cases looked : shared.factory.lookupSection desc with
  | found stored => exact ⟨.same _, .inr ⟨desc, stored, FactoryState.lookupSection_found looked, rfl⟩⟩
  | disabled => exact reads_nothing shared
  | missing => exact reads_nothing shared

theorem loadStep_reads (desc : MessageType pool) : Reads context shared (loadStep grows context shared desc).1 := by
  obtain ⟨changes, stored⟩ := shared.factory.loadSection_changes desc context
  exact ⟨changes, .inr ⟨desc, _, stored, rfl⟩⟩

theorem callerStep_reads (grows : Nat → Bool) (context : BuildContext) (shared : SharedState pool) (caller : Caller pool)
    (action : Action pool) :
    Reads context shared (callerStep grows context shared caller action).1 := by
  unfold callerStep
  split
  · exact reads_nothing shared
  · exact reads_nothing shared
  · exact reads_nothing shared
  · exact addStep_reads _
  · exact lookupStep_reads _
  · exact loadStep_reads _
  · exact ⟨.flagged _ _, .inl rfl⟩
  · exact reads_nothing shared
  · exact reads_nothing shared
  · exact reads_nothing shared
  · exact reads_nothing shared

end Readings

section Once

variable {ι : Type} [DecidableEq ι] {pool : DescriptorPool} (grows : Nat → Bool) (context : BuildContext)

/-- All that has been read of types agrees with the table. -/
def Agrees (shared : SharedState pool) : Prop := ∀ seen ∈ shared.log, ∃ stored,
  shared.factory.rules seen.desc = some stored ∧ seen = observed seen.desc stored

theorem agrees_new : Agrees ({} : SharedState pool) := fun _ impossible => by cases impossible

theorem Reads.agrees {context : BuildContext} {before after : SharedState pool} (reads : Reads context before after)
    (agrees : Agrees before) : Agrees after := by
  have old : ∀ seen ∈ before.log, ∃ stored, after.factory.rules seen.desc = some stored ∧
      seen = observed seen.desc stored := by
    intro seen member
    obtain ⟨stored, held, same⟩ := agrees seen member
    exact ⟨stored, reads.changes.keeps _ _ held, same⟩
  intro seen member
  rcases reads.log with unchanged | ⟨desc, stored, held, grown⟩
  · exact old seen (unchanged ▸ member)
  · rw [grown] at member
    rcases List.mem_append.mp member with early | new
    · exact old seen early
    · obtain rfl := List.mem_singleton.mp new
      exact ⟨stored, held, rfl⟩

/-- The factory is consistent, and so is what the threads have read of it. -/
def Sound (system : Threads ι (SharedState pool) (Caller pool)) : Prop :=
  Consistent context system.shared.factory ∧ Agrees system.shared

omit [DecidableEq ι] in
theorem sound_initial : Sound context (initialThreads ι : Threads ι (SharedState pool) (Caller pool)) :=
  ⟨consistent_new, agrees_new⟩

theorem sound_step (system : Threads ι (SharedState pool) (Caller pool)) (move : ι × Action pool)
    (sound : Sound context system) : Sound context (system.step (callerStep grows context) move) := by
  have reads := callerStep_reads grows context system.shared (system.thread move.1) move.2
  exact ⟨reads.changes.consistent sound.1, reads.agrees sound.2⟩

theorem runThreads_sound (schedule : List (ι × Action pool)) : Sound context (runThreads grows context schedule) :=
  Threads.execute_invariant (Sound context) (sound_step grows context) (sound_initial context) schedule

/-- In every interleaving, `NewMessageRules` is run at most once for a type, its entry
stays what it is whatever the threads do next, and all that lookups and `Add` have
read of the type is what this entry says. -/
theorem rules_builtOnce (schedule more : List (ι × Action pool)) :
    (runThreads grows context schedule).shared.factory.builds.Nodup ∧
      (∀ desc stored, (runThreads grows context schedule).shared.factory.rules desc = some stored →
        (runThreads grows context schedule).shared.factory.builds[stored.build]? = some desc ∧
          (runThreads grows context (schedule ++ more)).shared.factory.rules desc = some stored) ∧
      ∀ seen ∈ (runThreads grows context schedule).shared.log, ∃ stored,
        (runThreads grows context schedule).shared.factory.rules seen.desc = some stored ∧
          seen = observed seen.desc stored := by
  obtain ⟨consistent, agrees⟩ := runThreads_sound grows context schedule
  refine ⟨consistent.once, fun desc stored held => ⟨(consistent.built desc stored held).1, ?_⟩, agrees⟩
  rw [runThreads, Threads.execute_append]
  exact Threads.execute_monotone (fun before after : SharedState pool => Keeps before.factory after.factory)
    (fun _ _ _ held => held) (fun _ _ _ first second desc stored held => second _ _ (first _ _ held))
    (fun shared thread action => (callerStep_reads grows context shared thread action).changes.keeps) more desc stored held

end Once
end Protovalidate.Validate
