import Protovalidate.Validate.Workers

/-! Calls of `Validate` come to an end, whatever other threads do: how many steps of its
own a thread takes. -/

namespace Protovalidate.Validate

open Foundation

section Progress

variable {pool : DescriptorPool} {grows : Nat → Bool} {context : BuildContext} {state : FactoryState pool}
variable {call : ValidateCall pool} {worker : Worker pool} {steps : Nat}

/-- A job that lets a call go on. -/
def Job.proceeds : Job pool → Bool
  | .proceed => true
  | _ => false

/-- How many steps of its own are ahead of a call at most. Each lookup takes three of them
if it has to load the rules. -/
def Ahead (call : ValidateCall pool) (worker : Worker pool) (steps : Nat) : Prop :=
  worker.call = some call ∧ match worker with
  | .running _ rest => ∃ bound, rest.Within bound ∧ 3 * bound + 1 ≤ steps
  | .loading _ _ next => ∃ bound, (∀ answer, (next answer).Within bound) ∧ 3 * bound + 3 ≤ steps
  | .holding _ _ _ next => ∃ bound, (∀ answer, (next answer).Within bound) ∧ 3 * bound + 2 ≤ steps
  | _ => True

/-- The end of a call. -/
def Finished (call : ValidateCall pool) (worker : Worker pool) : Prop :=
  (∃ result, worker = .returning call result) ∨ worker = .lost call

theorem runningStep_closer {rest : Rest pool} (ahead : Ahead call (.running call rest) steps) :
    ∃ fewer, steps = fewer + 1 ∧ Ahead call (runningStep grows state call rest).2 fewer := by
  obtain ⟨-, bound, within, enough⟩ := ahead
  obtain ⟨fewer, rfl⟩ := Nat.exists_eq_add_of_le' (Nat.le_of_add_left_le enough)
  refine ⟨fewer, rfl, ?_⟩
  cases rest with
  | done result => exact ⟨rfl, trivial⟩
  | ask desc next =>
    obtain ⟨positive, within⟩ := within
    simp only [runningStep]
    cases state.lookupSection desc with
    | found stored => exact ⟨rfl, bound - 1, within, by omega⟩
    | disabled => exact ⟨rfl, bound - 1, within none, by omega⟩
    | missing => exact ⟨rfl, bound - 1, within, by omega⟩

theorem workerStep_closer (ahead : Ahead call worker steps) (unfinished : ¬Finished call worker) {job : Job pool}
    (proceeds : job.proceeds = true) :
    ∃ fewer, steps = fewer + 1 ∧ Ahead call (workerStep grows context state worker job).2 fewer := by
  have proceed : job = .proceed := by
    cases job with
    | proceed => rfl
    | _ => cases proceeds
  subst proceed
  obtain ⟨inside, left⟩ := ahead
  cases worker with
  | running call' rest =>
    cases inside
    exact runningStep_closer ⟨rfl, left⟩
  | loading call' desc next =>
    obtain ⟨bound, within, enough⟩ := left
    obtain ⟨fewer, rfl⟩ := Nat.exists_eq_add_of_le' (Nat.le_of_add_left_le enough)
    exact ⟨fewer + 2, rfl, inside, bound, within, by omega⟩
  | holding call' desc address next =>
    obtain ⟨bound, within, enough⟩ := left
    obtain ⟨fewer, rfl⟩ := Nat.exists_eq_add_of_le' (Nat.le_of_add_left_le enough)
    refine ⟨fewer + 1, rfl, ?_⟩
    change Ahead call (readingStep grows state call' desc address next) _
    unfold readingStep FactoryState.readRules
    cases state.deref grows desc address with
    | none => exact ⟨inside, trivial⟩
    | some stored => exact ⟨inside, bound, within _, by omega⟩
  | returning call' result =>
    cases inside
    exact absurd (.inl ⟨result, rfl⟩) unfinished
  | lost call' =>
    cases inside
    exact absurd (.inr rfl) unfinished
  | _ => cases inside

theorem workerStep_waits (ahead : Ahead call worker steps) {job : Job pool} (waits : job.proceeds = false) :
    (workerStep grows context state worker job).2 = worker := by
  obtain ⟨inside, -⟩ := ahead
  cases job with
  | proceed => cases waits
  | _ =>
    cases worker with
    | idle => cases inside
    | _ => rfl

theorem ahead_zero (ahead : Ahead call worker 0) : Finished call worker := by
  obtain ⟨inside, left⟩ := ahead
  cases worker with
  | running call' rest =>
    obtain ⟨bound, -, impossible⟩ := left
    cases impossible
  | loading call' desc next =>
    obtain ⟨bound, -, impossible⟩ := left
    cases impossible
  | holding call' desc address next =>
    obtain ⟨bound, -, impossible⟩ := left
    cases impossible
  | returning call' result =>
    cases inside
    exact .inl ⟨result, rfl⟩
  | lost call' =>
    cases inside
    exact .inr rfl
  | _ => cases inside

end Progress

section Returning

variable {ι : Type} [DecidableEq ι] {pool : DescriptorPool}

/-- While no insertion moves the table under a pointer, every call of `Validate` returns
after a number of steps of its own that only the message determines. -/
theorem validate_returns (grows : Nat → Bool) (context : BuildContext) (before after : List (ι × Job pool)) (index : ι)
    (call : ValidateCall pool) (undisturbed : Undisturbed grows context (before ++ after))
    (starts : (runWorkers grows context before).thread index = .running call (call.program context))
    (enough : 3 * (descendants call.message).length + 1 ≤
      after.countP fun move => decide (move.1 = index) && move.2.proceeds) :
    ∃ middle last result, after = middle ++ last ∧
      (runWorkers grows context (before ++ middle)).thread index = .returning call result := by
  have ahead : Ahead call ((runWorkers grows context before).thread index) (3 * (descendants call.message).length + 1) := by
    rw [starts]
    exact ⟨rfl, _, ValidateCall.program_within, Nat.le_refl _⟩
  obtain ⟨middle, last, rfl, finished⟩ := @Threads.execute_reaches ι _ _ _ _ (workerStep grows context)
    (runWorkers grows context before) index Job.proceeds (Ahead call) (Finished call) _
    (fun _ _ _ _ ahead unfinished proceeds => workerStep_closer ahead unfinished proceeds)
    (fun _ _ _ _ ahead _ waits => workerStep_waits ahead waits) (fun _ => ahead_zero) ahead after enough
  have reached : (runWorkers grows context (before ++ middle)).thread index =
      ((runWorkers grows context before).execute (workerStep grows context) middle).thread index := by
    rw [runWorkers, Threads.execute_append]
    rfl
  rw [← reached] at finished
  rcases finished with ⟨result, returning⟩ | lost
  · exact ⟨middle, last, result, rfl, returning⟩
  · have pointing := runWorkers_pointing undisturbed (before ++ middle) last (List.append_assoc _ _ _).symm index
    rw [lost] at pointing
    exact pointing.elim

end Returning

section Sample

/-- The table moves while both threads are in front of the second lock, and the first one
is done after four steps. -/
theorem validate_returns_together : ∃ middle last result, (validateTogether.drop 7 : List (Fin 2 × Job shop)) = middle ++ last ∧
    (runWorkers growsAtOne plainContext (validateTogether.take 7 ++ middle)).thread 0 = .returning validateOrder result :=
  validate_returns growsAtOne plainContext (validateTogether.take 7) (validateTogether.drop 7) 0 validateOrder
    validateTogether_undisturbed rfl (by rw [descendants_eq]; decide)

end Sample

end Protovalidate.Validate
