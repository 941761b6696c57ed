import Protovalidate.Foundation.Moments
import Protovalidate.Validate.Pointers
import Protovalidate.Validate.Sessions

/-! Threads that validate messages with one factory at the same time. As long as the table
does not move under an unread pointer, every result is one that a validator would have
returned at some moment of the call, all by itself. -/

namespace Protovalidate.Validate

open Foundation

section Steps

variable {pool : DescriptorPool}

/-- What is left of a call of `Validate`. -/
abbrev Rest (pool : DescriptorPool) := Asking (MessageType pool) Rules ValidateResult

/-- Where a thread is: outside of all calls, in `Add`, in `DisableLazyLoading`, or in
`Validate`: between two lookups, between the two locks of a lookup, with a pointer to
rules that it has not read yet, or about to return. A thread that reads rules through
a pointer from before the table has moved is lost. -/
inductive Worker (pool : DescriptorPool) where
  | idle
  | adding (pending : List (MessageType pool))
  | disabling (disable : Bool)
  | running (call : ValidateCall pool) (rest : Rest pool)
  | loading (call : ValidateCall pool) (desc : MessageType pool) (next : Option Rules → Rest pool)
  | holding (call : ValidateCall pool) (desc : MessageType pool) (address : Nat) (next : Option Rules → Rest pool)
  | returning (call : ValidateCall pool) (result : ValidateResult)
  | lost (call : ValidateCall pool)

/-- The call that an idle thread makes, or whether another one goes on. -/
inductive Job (pool : DescriptorPool) where
  | add (desc : MessageType pool)
  | disableLazyLoading (disable : Bool)
  | validate (call : ValidateCall pool)
  | proceed

variable (grows : Nat → Bool) (context : BuildContext) (state : FactoryState pool)

def addingStep (pending : List (MessageType pool)) : FactoryState pool × Worker pool :=
  match state.addRound context pending with
  | (.leave _, state) => (state, .idle)
  | (.again pending, state) => (state, .adding pending)

/-- `Validate` up to the end of the next critical section. -/
def runningStep (call : ValidateCall pool) : Rest pool → FactoryState pool × Worker pool
  | .done result => (state, .returning call result)
  | .ask desc next =>
    match state.lookupSection desc with
    | .found _ => (state, .holding call desc (state.moves grows) next)
    | .disabled => (state, .running call (next none))
    | .missing => (state, .loading call desc next)

/-- The validator goes on with the rules that it reads. -/
def readingStep (call : ValidateCall pool) (desc : MessageType pool) (address : Nat) (next : Option Rules → Rest pool) : Worker pool :=
  state.readRules grows desc address (.lost call) fun rules => .running call (next (some rules))

/-- One step of a thread. -/
def workerStep : Program (FactoryState pool) (Worker pool) (Job pool)
  | state, .idle, .add desc => (state, .adding [desc])
  | state, .idle, .disableLazyLoading disable => (state, .disabling disable)
  | state, .idle, .validate call => (state, .running call (call.program context))
  | state, .adding pending, .proceed => addingStep context state pending
  | state, .disabling disable, .proceed => ({ state with disableLazyLoading := disable }, .idle)
  | state, .running call rest, .proceed => runningStep grows state call rest
  | state, .loading call desc next, .proceed =>
    let (_, state) := state.loadSection context desc
    (state, .holding call desc (state.moves grows) next)
  | state, .holding call desc address next, .proceed => (state, readingStep grows state call desc address next)
  | state, .returning _ _, .proceed => (state, .idle)
  | state, worker, _ => (state, worker)

/-- A new factory, and threads that have not called it yet. -/
def newWorkers (ι : Type) : Threads ι (FactoryState pool) (Worker pool) where
  shared := {}
  thread _ := .idle

/-- What a schedule of the threads leads to. -/
def runWorkers {ι : Type} [DecidableEq ι] (schedule : List (ι × Job pool)) : Threads ι (FactoryState pool) (Worker pool) :=
  (newWorkers ι).execute (workerStep grows context) schedule

/-- The call of `Validate` that a thread is in. -/
def Worker.call : Worker pool → Option (ValidateCall pool)
  | .running call _ | .loading call _ _ | .holding call _ _ _ | .returning call _ | .lost call => some call
  | _ => none

/-- Whether a thread has a pointer that it has not read. -/
def Worker.holds : Worker pool → Bool
  | .holding _ _ _ _ => true
  | _ => false

end Steps

section Table

variable {pool : DescriptorPool} {grows : Nat → Bool} {context : BuildContext} {state : FactoryState pool}

theorem addingStep_changes (pending : List (MessageType pool)) : Changes context state (addingStep context state pending).1 := by
  cases pending with
  | nil => exact .same state
  | cons desc pending =>
    have sections := (state.addSection_changes desc context).1
    rw [← FactoryState.addRound_state pending] at sections
    unfold addingStep
    cases round : state.addRound context (desc :: pending) with
    | mk control after =>
      rw [round] at sections
      cases control with
      | leave status => exact sections
      | again pending => exact sections

theorem addingStep_call (pending : List (MessageType pool)) : (addingStep context state pending).2.call = none := by
  unfold addingStep
  split <;> rfl

theorem runningStep_state (call : ValidateCall pool) (rest : Rest pool) : (runningStep grows state call rest).1 = state := by
  cases rest with
  | done result => rfl
  | ask desc next =>
    simp only [runningStep]
    split <;> rfl

/-- A step does one critical section at most. -/
theorem workerStep_changes (grows : Nat → Bool) (context : BuildContext) (state : FactoryState pool) (worker : Worker pool)
    (job : Job pool) : Changes context state (workerStep grows context state worker job).1 := by
  unfold workerStep
  split
  · exact .same state
  · exact .same state
  · exact .same state
  · exact addingStep_changes _
  · exact .flagged state _
  · rw [runningStep_state]
    exact .same state
  · exact (state.loadSection_changes _ context).1
  · exact .same state
  · exact .same state
  · exact .same state

variable {ι : Type} [DecidableEq ι]

theorem runWorkers_consistent (grows : Nat → Bool) (context : BuildContext) (schedule : List (ι × Job pool)) :
    Consistent context (runWorkers grows context schedule).shared := by
  refine Threads.execute_invariant (fun system => Consistent context system.shared) (fun system move consistent => ?_)
    consistent_new schedule
  exact (workerStep_changes grows context system.shared _ move.2).consistent consistent

end Table

section Undisturbed

variable {ι : Type} [DecidableEq ι] {pool : DescriptorPool} (grows : Nat → Bool) (context : BuildContext)

/-- No step of a schedule moves the table while a thread holds a pointer into it. -/
def Undisturbed (schedule : List (ι × Job pool)) : Prop :=
  ∀ before move after, schedule = before ++ move :: after →
    (runWorkers grows context (before ++ [move])).shared.moves grows ≠ (runWorkers grows context before).shared.moves grows →
    ∀ index call desc address next, (runWorkers grows context before).thread index ≠ .holding call desc address next

variable {grows} {context} {state after : FactoryState pool} {worker : Worker pool} {schedule : List (ι × Job pool)}
  {move : ι × Job pool}

theorem runWorkers_snoc : runWorkers grows context (schedule ++ [move]) =
    (runWorkers grows context schedule).step (workerStep grows context) move := Threads.execute_snoc

/-- The pointer of a thread leads into the table, and the thread is not lost. -/
def Pointing (grows : Nat → Bool) (state : FactoryState pool) : Worker pool → Prop
  | .holding _ desc address _ => ∃ stored, state.deref grows desc address = some stored
  | .lost _ => False
  | _ => True

theorem deref_current {desc : MessageType pool} {stored : StoredRules} (held : state.rules desc = some stored) :
    state.deref grows desc (state.moves grows) = some stored := by
  rw [FactoryState.deref, if_pos rfl, held]

theorem pointing_idle (idle : worker.call = none) : Pointing grows state worker := by
  cases worker with
  | holding call desc address next => cases idle
  | lost call => cases idle
  | _ => trivial

/-- Pointers are not left behind by the steps of their own threads. -/
theorem workerStep_pointing (pointing : Pointing grows state worker) (job : Job pool) :
    Pointing grows (workerStep grows context state worker job).1 (workerStep grows context state worker job).2 := by
  cases worker with
  | idle => cases job <;> trivial
  | adding pending =>
    cases job with
    | proceed => exact pointing_idle (addingStep_call pending)
    | _ => trivial
  | disabling disable => cases job <;> trivial
  | running call rest =>
    cases job with
    | proceed =>
      change Pointing grows (runningStep grows state call rest).1 (runningStep grows state call rest).2
      cases rest with
      | done result => trivial
      | ask desc next =>
        simp only [runningStep]
        cases looked : state.lookupSection desc with
        | found stored => exact ⟨stored, deref_current (FactoryState.lookupSection_found looked)⟩
        | disabled => trivial
        | missing => trivial
    | _ => trivial
  | loading call desc next =>
    cases job with
    | proceed => exact ⟨_, deref_current (state.loadSection_changes desc context).2⟩
    | _ => trivial
  | holding call desc address next =>
    cases job with
    | proceed =>
      obtain ⟨stored, found⟩ := pointing
      change Pointing grows state (readingStep grows state call desc address next)
      rw [readingStep, FactoryState.readRules, found]
      trivial
    | _ => exact pointing
  | returning call result => cases job <;> trivial
  | lost call => exact pointing.elim

/-- Nor by those of others that do not move the table. -/
theorem Pointing.later (pointing : Pointing grows state worker) (keeps : Keeps state after)
    (unmoved : after.moves grows ≠ state.moves grows →
      ∀ call desc address next, worker ≠ .holding call desc address next) : Pointing grows after worker := by
  cases worker with
  | holding call desc address next =>
    obtain ⟨stored, found⟩ := pointing
    have same : after.moves grows = state.moves grows := by
      by_contra moved
      exact unmoved moved call desc address next rfl
    refine ⟨stored, ?_⟩
    obtain ⟨current, held⟩ := deref_some found
    rw [current, ← same]
    exact deref_current (keeps desc stored held)
  | lost call => exact pointing
  | _ => trivial

theorem runWorkers_pointing (undisturbed : Undisturbed grows context schedule) (before after : List (ι × Job pool))
    (same : schedule = before ++ after) (index : ι) :
    Pointing grows (runWorkers grows context before).shared ((runWorkers grows context before).thread index) := by
  refine Threads.execute_prefix (fun system => ∀ index, Pointing grows system.shared (system.thread index))
    (fun _ => ?_) (fun before move after same pointing index => ?_) before after same index
  · exact True.intro
  have unmoved := undisturbed before move after same
  change ∀ index, Pointing grows (runWorkers grows context before).shared ((runWorkers grows context before).thread index)
    at pointing
  change Pointing grows (runWorkers grows context (before ++ [move])).shared
    ((runWorkers grows context (before ++ [move])).thread index)
  rw [runWorkers_snoc] at unmoved ⊢
  rw [Threads.step_shared] at unmoved ⊢
  by_cases self : index = move.1
  · subst self
    rw [Threads.step_self]
    exact workerStep_pointing (pointing move.1) move.2
  · rw [Threads.step_other self]
    exact (pointing index).later (workerStep_changes grows context _ _ move.2).keeps fun moved => unmoved moved index

/-- In such a run no thread is ever lost. -/
theorem runWorkers_found (undisturbed : Undisturbed grows context schedule) (index : ι) (call : ValidateCall pool) :
    (runWorkers grows context schedule).thread index ≠ .lost call := by
  intro lost
  have pointing := runWorkers_pointing undisturbed schedule [] (List.append_nil schedule).symm index
  rw [lost] at pointing
  exact pointing

end Undisturbed

section Results

variable {pool : DescriptorPool} {grows : Nat → Bool} {context : BuildContext} {state after : FactoryState pool}
variable {call : ValidateCall pool} {desc : MessageType pool}

/-- A call comes to the same as what is left of it. -/
abbrev LeadsTo (context : BuildContext) (state : FactoryState pool) (call : ValidateCall pool) (rest : Rest pool) : Prop :=
  Asking.Leads Keeps (FactoryState.answers context) state (call.program context) rest

theorem keeps_refl (state : FactoryState pool) : Keeps state state := fun _ _ held => held

theorem Keeps.trans {middle : FactoryState pool} (first : Keeps state middle) (second : Keeps middle after) : Keeps state after :=
  fun desc stored held => second desc stored (first desc stored held)

/-- Rules that are stored are the answer for ever. -/
theorem LeadsTo.found {next : Option Rules → Rest pool} {stored : StoredRules} (leads : LeadsTo context state call (.ask desc next))
    (held : state.rules desc = some stored) : LeadsTo context state call (next (some stored.rules)) :=
  Asking.Leads.given leads fun _ above => FactoryState.answers_found (above desc stored held)

theorem LeadsTo.later {rest : Rest pool} (leads : LeadsTo context state call rest) (keeps : Keeps state after) :
    LeadsTo context after call rest := Asking.Leads.later leads fun _ => keeps.trans

/-- What a call would return in a state. -/
def Returned (context : BuildContext) (call : ValidateCall pool) (result : ValidateResult) (state : FactoryState pool) : Prop :=
  result = Validator.validate (state.factory context) call.failFast call.message

theorem returned_of_answer {result : ValidateResult} (same : (call.program context).answer (state.answers context) = result) :
    Returned context call result state := same.symm.trans (ValidateCall.answer_program (state.factory context) rfl)

/-- What is left of a call gives up when rules are not loaded. -/
abbrev Stops (rest : Rest pool) : Prop := rest.GivesUp fun type result => result = .error (notLoaded type.descriptor)

theorem lookupSection_disabled (disabled : state.lookupSection desc = .disabled) : state.answers context desc = none := by
  rw [← FactoryState.lookup_answers, FactoryState.lookup, FactoryState.getMessageRules, disabled]
  rfl

end Results

section Runs

variable {ι : Type} [DecidableEq ι] {pool : DescriptorPool} (grows : Nat → Bool) (context : BuildContext)

/-- The result is one that the validator would have returned at some moment of the call. -/
def Lately (index : ι) (call : ValidateCall pool) (result : ValidateResult) (schedule : List (ι × Job pool)) : Prop :=
  Threads.Since (workerStep grows context) (newWorkers ι) index (fun worker => worker.call = some call)
    (Returned context call result) schedule

/-- How far a thread has got with its call. -/
def OnTrack (schedule : List (ι × Job pool)) (index : ι) (state : FactoryState pool) : Worker pool → Prop
  | .running call rest =>
    Stops rest ∧ (LeadsTo context state call rest ∨ ∃ result, rest = .done result ∧ Lately grows context index call result schedule)
  | .loading call desc next => Stops (.ask desc next) ∧ LeadsTo context state call (.ask desc next)
  | .holding call desc _ next =>
    Stops (.ask desc next) ∧ ∃ stored, state.rules desc = some stored ∧ LeadsTo context state call (next (some stored.rules))
  | .returning call result => Lately grows context index call result schedule
  | _ => True

variable {grows} {context} {schedule : List (ι × Job pool)} {move : ι × Job pool} {index : ι}
variable {state after : FactoryState pool} {worker : Worker pool}

/-- A thread that stays where it is stays on its track. -/
theorem OnTrack.later (track : OnTrack grows context schedule index state worker) (keeps : Keeps state after)
    (stays : (runWorkers grows context (schedule ++ [move])).thread index = worker) :
    OnTrack grows context (schedule ++ [move]) index after worker := by
  have still {call : ValidateCall pool} {result : ValidateResult} (within : worker.call = some call)
      (lately : Lately grows context index call result schedule) :
      Lately grows context index call result (schedule ++ [move]) :=
    Threads.Since.later lately ((congrArg Worker.call stays).trans within)
  cases worker with
  | running call rest =>
    obtain ⟨stops, leads | ⟨result, same, lately⟩⟩ := track
    · exact ⟨stops, .inl (leads.later keeps)⟩
    · exact ⟨stops, .inr ⟨result, same, still rfl lately⟩⟩
  | loading call desc next => exact ⟨track.1, track.2.later keeps⟩
  | holding call desc address next =>
    obtain ⟨stops, stored, held, leads⟩ := track
    exact ⟨stops, stored, keeps desc stored held, leads.later keeps⟩
  | returning call result => exact still rfl track
  | _ => trivial

/-- The next step of a call, up to its next critical section. -/
theorem runningStep_track {call : ValidateCall pool} {rest : Rest pool} (shared : (runWorkers grows context schedule).shared = state)
    (inside : ((runWorkers grows context schedule).thread index).call = some call)
    (reached : (runWorkers grows context (schedule ++ [move])).thread index = (runningStep grows state call rest).2)
    (track : OnTrack grows context schedule index state (.running call rest)) :
    OnTrack grows context (schedule ++ [move]) index state (runningStep grows state call rest).2 := by
  have still {result : ValidateResult} (within : (runningStep grows state call rest).2.call = some call)
      (lately : Lately grows context index call result schedule) :
      Lately grows context index call result (schedule ++ [move]) :=
    Threads.Since.later lately ((congrArg Worker.call reached).trans within)
  obtain ⟨stops, leads⟩ := track
  cases rest with
  | done result =>
    rcases leads with leads | ⟨result', same, lately⟩
    · refine still rfl (Threads.since_now ?_ inside)
      change Returned context call result (runWorkers grows context schedule).shared
      rw [shared]
      exact returned_of_answer (Asking.Leads.finished leads (keeps_refl state))
    · cases same
      exact still rfl lately
  | ask desc next =>
    have leads : LeadsTo context state call (.ask desc next) := leads.resolve_right fun ⟨_, impossible, _⟩ => by cases impossible
    simp only [runningStep] at reached still ⊢
    cases looked : state.lookupSection desc with
    | found stored =>
      have held := FactoryState.lookupSection_found looked
      exact ⟨stops, stored, held, leads.found held⟩
    | disabled =>
      obtain ⟨⟨result, ends, told⟩, -⟩ := stops
      rw [looked] at still
      simp only [ends] at still ⊢
      refine ⟨trivial, .inr ⟨result, rfl, still rfl (Threads.since_now ?_ inside)⟩⟩
      change Returned context call result (runWorkers grows context schedule).shared
      rw [shared]
      exact returned_of_answer (Asking.Leads.refused leads (keeps_refl state) (lookupSection_disabled looked) ends)
    | missing => exact ⟨stops, leads⟩

/-- A step of a thread keeps it on its track. -/
theorem workerStep_track (shared : (runWorkers grows context schedule).shared = state)
    (here : (runWorkers grows context schedule).thread move.1 = worker)
    (reached : (runWorkers grows context (schedule ++ [move])).thread move.1 = (workerStep grows context state worker move.2).2)
    (track : OnTrack grows context schedule move.1 state worker) :
    OnTrack grows context (schedule ++ [move]) move.1 (workerStep grows context state worker move.2).1
      (workerStep grows context state worker move.2).2 := by
  obtain ⟨index, job⟩ := move
  cases worker with
  | idle =>
    cases job with
    | validate call => exact ⟨ValidateCall.program_givesUp, .inl Asking.leads_refl⟩
    | _ => trivial
  | adding pending =>
    cases job with
    | proceed =>
      change OnTrack grows context _ index _ (addingStep context state pending).2
      unfold addingStep
      split <;> trivial
    | _ => trivial
  | disabling disable => cases job <;> trivial
  | running call rest =>
    cases job with
    | proceed =>
      change OnTrack grows context _ index (runningStep grows state call rest).1 (runningStep grows state call rest).2
      rw [runningStep_state]
      exact runningStep_track shared (congrArg Worker.call here) reached track
    | _ => exact track.later (keeps_refl state) reached
  | loading call desc next =>
    cases job with
    | proceed =>
      obtain ⟨changes, held⟩ := state.loadSection_changes desc context
      exact ⟨track.1, _, held, (track.2.later changes.keeps).found held⟩
    | _ => exact track.later (keeps_refl state) reached
  | holding call desc address next =>
    cases job with
    | proceed =>
      obtain ⟨stops, stored, held, leads⟩ := track
      change OnTrack grows context _ index state (readingStep grows state call desc address next)
      unfold readingStep FactoryState.readRules
      cases found : state.deref grows desc address with
      | none => trivial
      | some entry =>
        cases held.symm.trans (deref_some found).2
        exact ⟨stops.2 _, .inl leads⟩
    | _ => exact track.later (keeps_refl state) reached
  | returning call result =>
    cases job with
    | proceed => trivial
    | _ => exact track.later (keeps_refl state) reached
  | lost call => cases job <;> trivial

/-- All threads are on their tracks in every state of a run. -/
theorem runWorkers_track (grows : Nat → Bool) (context : BuildContext) (schedule : List (ι × Job pool)) (index : ι) :
    OnTrack grows context schedule index (runWorkers grows context schedule).shared
      ((runWorkers grows context schedule).thread index) := by
  refine Threads.execute_history (fun schedule system => ∀ index, OnTrack grows context schedule index system.shared
    (system.thread index)) (fun _ => ?_) (fun schedule move tracks index => ?_) schedule index
  · exact True.intro
  · change ∀ index, OnTrack grows context schedule index (runWorkers grows context schedule).shared
      ((runWorkers grows context schedule).thread index) at tracks
    change OnTrack grows context (schedule ++ [move]) index ((runWorkers grows context schedule).step _ move).shared
      (((runWorkers grows context schedule).step _ move).thread index)
    rw [Threads.step_shared]
    by_cases same : index = move.1
    · subst same
      rw [Threads.step_self]
      refine workerStep_track rfl rfl ?_ (tracks move.1)
      rw [runWorkers_snoc, Threads.step_self]
    · rw [Threads.step_other same]
      refine (tracks index).later (workerStep_changes grows context _ _ move.2).keeps ?_
      rw [runWorkers_snoc, Threads.step_other same]

/-- In every interleaving in which no insertion moves the table under a pointer, no call
of `Validate` reads anything but stored rules, and what it returns is what the validator
returns, all by itself, for the state that the factory is in at some moment of the call.
That is what it returns on a new factory, unless the factory refuses to load rules then. -/
theorem validate_linearizable (grows : Nat → Bool) (context : BuildContext) (schedule : List (ι × Job pool))
    (undisturbed : Undisturbed grows context schedule) (index : ι) (call : ValidateCall pool) :
    (runWorkers grows context schedule).thread index ≠ .lost call ∧
      ∀ result, (runWorkers grows context schedule).thread index = .returning call result →
        ∃ before after, schedule = before ++ after ∧
          (∀ middle last, after = middle ++ last →
            ((runWorkers grows context (before ++ middle)).thread index).call = some call) ∧
          result = Validator.validate ((runWorkers grows context before).shared.factory context) call.failFast call.message ∧
          (result = call.fresh context ∨ Refused (runWorkers grows context before).shared call result) := by
  refine ⟨runWorkers_found undisturbed index call, fun result returns => ?_⟩
  have track := runWorkers_track grows context schedule index
  rw [returns] at track
  obtain ⟨before, after, same, returned, inside⟩ := track
  have returned : result = Validator.validate ((runWorkers grows context before).shared.factory context) call.failFast
    call.message := returned
  have either := (runWorkers_consistent grows context before).validate_fresh call
  rw [← returned] at either
  exact ⟨before, after, same, inside, returned, either⟩

end Runs

section Sample

theorem undisturbed_takes {ι : Type} [DecidableEq ι] {pool : DescriptorPool} {grows : Nat → Bool} {context : BuildContext}
    {schedule : List (ι × Job pool)} (checked : ∀ count < schedule.length,
      (runWorkers grows context (schedule.take (count + 1))).shared.moves grows =
          (runWorkers grows context (schedule.take count)).shared.moves grows ∨
        ∀ index, ((runWorkers grows context (schedule.take count)).thread index).holds = false) :
    Undisturbed grows context schedule := by
  rintro before move after rfl moved index call desc address next holding
  have inside : before.length < (before ++ move :: after).length := by simp
  rcases checked before.length inside with unmoved | free
  · rw [List.take_left' rfl, List.append_cons, List.take_left' (by simp)] at unmoved
    exact moved unmoved
  · have free := free index
    rw [List.take_left' rfl, holding] at free
    cases free

def validateItem : ValidateCall shop := ⟨item, ⟨item.descriptor, []⟩, conforms_empty item, false⟩

/-- An order without its required field. -/
def validateOrder : ValidateCall shop := ⟨order, ⟨order.descriptor, []⟩, conforms_empty order, false⟩

/-- One thread validates an item, and then both validate the order at the same time. Both
look for its rules, the second one loads them, which moves the table, and then the
first one finds them loaded. -/
def validateTogether : List (Fin 2 × Job shop) :=
  [(1, .validate validateItem), (1, .proceed), (1, .proceed), (1, .proceed), (1, .proceed), (1, .proceed),
    (0, .validate validateOrder), (1, .validate validateOrder), (0, .proceed), (1, .proceed), (1, .proceed), (0, .proceed),
    (1, .proceed), (0, .proceed), (1, .proceed), (0, .proceed)]

theorem validateTogether_undisturbed : Undisturbed growsAtOne plainContext validateTogether :=
  undisturbed_takes (by decide +kernel)

/-- The table does move in this run. -/
theorem validate_linearizable_together : (runWorkers growsAtOne plainContext validateTogether).shared.moves growsAtOne = 1 ∧
    ∃ before after, validateTogether = before ++ after ∧
      (∀ middle last, after = middle ++ last →
        ((runWorkers growsAtOne plainContext (before ++ middle)).thread 0).call = some validateOrder) ∧
      validateOrder.fresh plainContext =
        Validator.validate ((runWorkers growsAtOne plainContext before).shared.factory plainContext) false
          validateOrder.message ∧
      (validateOrder.fresh plainContext = validateOrder.fresh plainContext ∨
        Refused (runWorkers growsAtOne plainContext before).shared validateOrder (validateOrder.fresh plainContext)) :=
  ⟨rfl, (validate_linearizable growsAtOne plainContext validateTogether validateTogether_undisturbed 0 validateOrder).2
    (validateOrder.fresh plainContext) rfl⟩

end Sample

end Protovalidate.Validate
