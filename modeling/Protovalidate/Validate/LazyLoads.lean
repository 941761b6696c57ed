import Protovalidate.Validate.Loading
import Protovalidate.Validate.Pointers

/-! What `DisableLazyLoading` stops: a lookup between its two locks has read the flag
already, and does not read it again. -/

namespace Protovalidate.Validate

open Foundation

section Steps

variable {pool : DescriptorPool} {grows : Nat → Bool} {context : BuildContext} {shared : SharedState pool}
variable {caller : Caller pool} {action : Action pool}

theorem present_loadSection {state : FactoryState pool} {desc other : MessageType pool}
    (present : Present (state.loadSection context desc).2 other) : Present state other ∨ other = desc := by
  unfold FactoryState.loadSection at present
  cases held : state.rules desc with
  | some stored =>
    rw [held] at present
    exact .inl present
  | none =>
    rw [held] at present
    by_cases same : other = desc
    · exact .inr same
    · refine .inl ?_
      rwa [Present, FactoryState.emplace_other same] at present

theorem lookupStep_factory (desc : MessageType pool) : (lookupStep grows shared desc).1.factory = shared.factory := by
  unfold lookupStep
  split <;> rfl

/-- How a type gets into the table. -/
theorem callerStep_present {desc : MessageType pool}
    (present : Present (callerStep grows context shared caller action).1.factory desc) :
    Present shared.factory desc ∨ (∃ pending, caller = .adding pending) ∨ caller = .loading desc ∧ action = .proceed := by
  unfold callerStep at present
  split at present
  · exact .inl present
  · exact .inl present
  · exact .inl present
  · exact .inr (.inl ⟨_, rfl⟩)
  · rw [lookupStep_factory] at present
    exact .inl present
  · rcases present_loadSection present with before | same
    · exact .inl before
    · exact .inr (.inr ⟨same ▸ rfl, rfl⟩)
  · exact .inl present
  · exact .inl present
  · exact .inl present
  · exact .inl present
  · exact .inl present

theorem lookupStep_loading {desc other : MessageType pool} (loading : (lookupStep grows shared desc).2 = .loading other) :
    shared.factory.disableLazyLoading = false := by
  unfold lookupStep FactoryState.lookupSection at loading
  cases held : shared.factory.rules desc with
  | some stored =>
    rw [held] at loading
    cases loading
  | none =>
    cases disabled : shared.factory.disableLazyLoading with
    | false => rfl
    | true =>
      simp only [held, disabled, if_true] at loading
      cases loading

theorem addStep_loading (pending : List (MessageType pool)) (desc : MessageType pool) :
    (addStep context shared pending).2 ≠ .loading desc := by
  cases pending with
  | nil => exact fun impossible => by cases impossible
  | cons first pending =>
    simp only [addStep]
    split <;> exact fun impossible => by cases impossible

/-- A lookup gets between its locks by reading that lazy loading is not disabled. -/
theorem callerStep_loading {desc : MessageType pool}
    (loading : (callerStep grows context shared caller action).2 = .loading desc) :
    shared.factory.disableLazyLoading = false ∨ caller = .loading desc ∧ action ≠ .proceed := by
  unfold callerStep at loading
  split at loading
  · cases loading
  · cases loading
  · cases loading
  · exact absurd loading (addStep_loading _ _)
  · exact .inl (lookupStep_loading loading)
  · cases loading
  · cases loading
  · rename_i desc address
    obtain lost | idle | ⟨stored, rules, evaluates, -⟩ := @readStep_cases _ grows shared desc address
    · rw [lost] at loading
      cases loading
    · rw [idle] at loading
      cases loading
    · rw [evaluates] at loading
      cases loading
  · rename_i desc left
    cases left <;> cases loading
  · cases loading
  · rename_i unloading _ _ _ _
    exact .inr ⟨loading, unloading desc loading⟩

theorem addStep_flag (pending : List (MessageType pool)) :
    (addStep context shared pending).1.factory.disableLazyLoading = shared.factory.disableLazyLoading := by
  cases pending with
  | nil => rfl
  | cons first pending =>
    have sections : (shared.factory.addSection context first).2.disableLazyLoading = shared.factory.disableLazyLoading := by
      unfold FactoryState.addSection
      split <;> rfl
    rw [← FactoryState.addRound_state pending] at sections
    simp only [addStep]
    split <;> (rename_i round; rw [round] at sections; exact sections)

/-- Only `DisableLazyLoading` sets the flag. -/
theorem callerStep_flag : (callerStep grows context shared caller action).1.factory.disableLazyLoading =
    shared.factory.disableLazyLoading ∨ ∃ disable, caller = .disabling disable ∧ action = .proceed ∧
      (callerStep grows context shared caller action).1.factory.disableLazyLoading = disable := by
  unfold callerStep
  split
  · exact .inl rfl
  · exact .inl rfl
  · exact .inl rfl
  · exact .inl (addStep_flag _)
  · rw [lookupStep_factory]
    exact .inl rfl
  · rename_i desc
    refine .inl ?_
    change (shared.factory.loadSection context desc).2.disableLazyLoading = _
    unfold FactoryState.loadSection
    split <;> rfl
  · exact .inr ⟨_, rfl, rfl, rfl⟩
  · exact .inl rfl
  · exact .inl rfl
  · exact .inl rfl
  · exact .inl rfl

end Steps

section Runs

variable {ι : Type} [DecidableEq ι] {pool : DescriptorPool}

/-- A call of `DisableLazyLoading` sets the flag and returns. -/
def Returns (disable : Bool) (system : Threads ι (SharedState pool) (Caller pool)) (move : ι × Action pool) : Prop :=
  system.thread move.1 = .disabling disable ∧ move.2 = .proceed

variable (grows : Nat → Bool) (context : BuildContext)

/-- A call `DisableLazyLoading(true)` has returned, and no call `DisableLazyLoading(false)` since. -/
def DisabledAfter (schedule : List (ι × Action pool)) : Prop :=
  ∃ before move middle, schedule = before ++ move :: middle ∧ Returns true (runThreads grows context before) move ∧
    (runThreads grows context (before ++ [move])).Avoids (callerStep grows context) (Returns false) middle

/-- A step adds a type to the table only if it is one of `Add`. -/
def OnlyAdds (system : Threads ι (SharedState pool) (Caller pool)) (move : ι × Action pool) : Prop :=
  ∀ desc, Present (system.step (callerStep grows context) move).shared.factory desc →
    Present system.shared.factory desc ∨ ∃ pending, system.thread move.1 = .adding pending

/-- A thread is between the locks of `GetMessageRules` when lazy loading is disabled, and
gets the second one before it is enabled again and before anyone has loaded the type. -/
structure Overtaken (before : List (ι × Action pool)) (move : ι × Action pool) (middle : List (ι × Action pool))
    (next : ι × Action pool) (desc : MessageType pool) : Prop where
  disables : Returns true (runThreads grows context before) move
  lasts : (runThreads grows context (before ++ [move])).Avoids (callerStep grows context) (Returns false) middle
  looked : (runThreads grows context before).thread next.1 = .loading desc
  loads : next.2 = .proceed
  missing : ¬Present (runThreads grows context (before ++ move :: middle)).shared.factory desc

variable {grows} {context} {system : Threads ι (SharedState pool) (Caller pool)} {move : ι × Action pool}
variable {schedule : List (ι × Action pool)} {index : ι} {desc : MessageType pool}

theorem disabled_returns (returns : Returns true system move) :
    (system.step (callerStep grows context) move).shared.factory.disableLazyLoading = true := by
  rw [Threads.step_shared, returns.1, returns.2]
  rfl

theorem disabled_step (disabled : system.shared.factory.disableLazyLoading = true) (other : ¬Returns false system move) :
    (system.step (callerStep grows context) move).shared.factory.disableLazyLoading = true := by
  rw [Threads.step_shared]
  rcases @callerStep_flag _ grows context system.shared (system.thread move.1) move.2 with same | ⟨disable, caller, proceeds, sets⟩
  · rw [same, disabled]
  · cases disable with
    | true => exact sets
    | false => exact absurd ⟨caller, proceeds⟩ other

/-- While lazy loading is disabled, no lookup gets between its locks. -/
theorem loading_before (disabled : system.shared.factory.disableLazyLoading = true)
    (lasts : system.Avoids (callerStep grows context) (Returns false) schedule)
    (loading : (system.execute (callerStep grows context) schedule).thread index = .loading desc) :
    system.thread index = .loading desc := by
  induction schedule generalizing system with
  | nil => exact loading
  | cons move schedule ih =>
    have after := ih (disabled_step disabled lasts.1) lasts.2 loading
    by_cases same : index = move.1
    · subst same
      rw [Threads.step_self] at after
      rcases callerStep_loading after with enabled | ⟨before, -⟩
      · rw [disabled] at enabled
        cases enabled
      · exact before
    · rwa [Threads.step_other same] at after

/-- A lookup stays between its locks until its type is in the table. -/
theorem loading_until (schedule : List (ι × Action pool)) (loading : system.thread index = .loading desc) :
    (system.execute (callerStep grows context) schedule).thread index = .loading desc ∨
      Present (system.execute (callerStep grows context) schedule).shared.factory desc := by
  refine @Threads.execute_invariant _ _ _ _ _ (callerStep grows context) system
    (fun system => system.thread index = .loading desc ∨ Present system.shared.factory desc)
    (fun system move before => ?_) (.inl loading) schedule
  rcases before with loading | ⟨stored, held⟩
  · by_cases same : index = move.1
    · rw [Threads.step_shared, same, Threads.step_self, ← same, loading]
      cases move.2 with
      | proceed => exact .inr ⟨_, (system.shared.factory.loadSection_changes desc context).2⟩
      | _ => exact .inl rfl
    · exact .inl ((Threads.step_other same).trans loading)
  · exact .inr ⟨stored, (callerStep_reads grows context system.shared _ _).changes.keeps desc stored held⟩

/-- The second lock of a lookup leaves the type in the table. -/
theorem present_load (loading : system.thread move.1 = .loading desc) (proceeds : move.2 = .proceed) :
    Present (system.step (callerStep grows context) move).shared.factory desc := by
  rw [Threads.step_shared, loading, proceeds]
  exact ⟨_, (system.shared.factory.loadSection_changes desc context).2⟩

theorem runThreads_split (before : List (ι × Action pool)) (move : ι × Action pool) (middle : List (ι × Action pool)) :
    runThreads grows context (before ++ move :: middle) =
      (runThreads grows context (before ++ [move])).execute (callerStep grows context) middle := by
  rw [List.append_cons, runThreads, Threads.execute_append]
  rfl

theorem Overtaken.loading {before middle : List (ι × Action pool)} {next : ι × Action pool}
    (overtaken : Overtaken grows context before move middle next desc) :
    (runThreads grows context (before ++ move :: middle)).thread next.1 = .loading desc := by
  have until_ := @loading_until _ _ _ grows context _ _ desc (move :: middle) overtaken.looked
  have missing := overtaken.missing
  rw [runThreads, Threads.execute_append] at missing ⊢
  exact until_.resolve_right missing

/-- A type that is loaded lazily after the flag has been set is one that was looked up before. -/
theorem overtaken_of_loading {before middle : List (ι × Action pool)} {next : ι × Action pool}
    (returns : Returns true (runThreads grows context before) move)
    (lasts : (runThreads grows context (before ++ [move])).Avoids (callerStep grows context) (Returns false) middle)
    (loading : (runThreads grows context (before ++ move :: middle)).thread next.1 = .loading desc)
    (proceeds : next.2 = .proceed) (missing : ¬Present (runThreads grows context (before ++ move :: middle)).shared.factory desc) :
    Overtaken grows context before move middle next desc := by
  refine ⟨returns, lasts, ?_, proceeds, missing⟩
  have disabled := @disabled_returns _ _ _ grows context _ _ returns
  rw [runThreads_split] at loading
  rw [runThreads, Threads.execute_snoc] at lasts loading
  have after := loading_before disabled lasts loading
  by_cases same : next.1 = move.1
  · rw [same, Threads.step_self, returns.1, returns.2] at after
    cases after
  · rwa [Threads.step_other same] at after

/-- The table grows by `Add` alone while lazy loading is disabled, if and only if no
lookup is overtaken by the call that disables it. -/
theorem lazyLoading_disabled_iff (grows : Nat → Bool) (context : BuildContext) (schedule : List (ι × Action pool)) :
    (∀ before move after, schedule = before ++ move :: after → DisabledAfter grows context before →
        OnlyAdds grows context (runThreads grows context before) move) ↔
      ∀ before move middle next after desc, schedule = before ++ move :: (middle ++ next :: after) →
        ¬Overtaken grows context before move middle next desc := by
  constructor
  · intro onlyAdds before move middle next after desc same overtaken
    have split : schedule = (before ++ move :: middle) ++ next :: after := by
      rw [same, List.append_assoc, List.cons_append]
    have disabled : DisabledAfter grows context (before ++ move :: middle) :=
      ⟨before, move, middle, rfl, overtaken.disables, overtaken.lasts⟩
    have loading := overtaken.loading
    rcases onlyAdds _ next after split disabled desc (present_load loading overtaken.loads) with present | ⟨pending, adding⟩
    · exact overtaken.missing present
    · rw [loading] at adding
      cases adding
  · rintro safe _ next after split ⟨before, move, middle, rfl, returns, lasts⟩ desc present
    by_cases missing : Present (runThreads grows context (before ++ move :: middle)).shared.factory desc
    · exact .inl missing
    · refine .inr ?_
      rw [Threads.step_shared] at present
      rcases callerStep_present present with old | adding | ⟨loading, proceeds⟩
      · exact absurd old missing
      · exact adding
      · rw [List.append_assoc, List.cons_append] at split
        exact absurd (overtaken_of_loading returns lasts loading proceeds missing) (safe _ _ _ _ _ _ split)

/-- It is enough that nobody is between the locks when lazy loading is disabled. -/
theorem lazyLoading_disabled (grows : Nat → Bool) (context : BuildContext) (schedule : List (ι × Action pool))
    (quiet : ∀ before move after, schedule = before ++ move :: after → Returns true (runThreads grows context before) move →
      ∀ index desc, (runThreads grows context before).thread index ≠ .loading desc) :
    ∀ before move after, schedule = before ++ move :: after → DisabledAfter grows context before →
      OnlyAdds grows context (runThreads grows context before) move := by
  apply (lazyLoading_disabled_iff grows context schedule).mpr
  intro before move middle next after desc split overtaken
  exact quiet before move _ split overtaken.disables next.1 desc overtaken.looked

end Runs

section Sample

/-- One thread looks for the rules of an order, and before it loads them another thread
disables lazy loading. -/
def disableInBetween : List (Nat × Action shop) :=
  [(0, .getMessageRules order), (0, .proceed), (1, .disableLazyLoading true), (1, .proceed), (0, .proceed)]

theorem lazyLoad_afterDisabling :
    (runThreads growsAtOne plainContext (disableInBetween.take 4)).shared.factory.rules order = none ∧
      (runThreads growsAtOne plainContext disableInBetween).shared.factory.disableLazyLoading = true ∧
      Present (runThreads growsAtOne plainContext disableInBetween).shared.factory order ∧
      ¬∀ before move after, disableInBetween = before ++ move :: after → DisabledAfter growsAtOne plainContext before →
        OnlyAdds growsAtOne plainContext (runThreads growsAtOne plainContext before) move := by
  refine ⟨rfl, rfl, ⟨_, rfl⟩, fun onlyAdds => ?_⟩
  have disabled : DisabledAfter growsAtOne plainContext (disableInBetween.take 4) :=
    ⟨disableInBetween.take 3, (1, .proceed), [], rfl, ⟨rfl, rfl⟩, trivial⟩
  rcases onlyAdds (disableInBetween.take 4) (0, .proceed) [] rfl disabled order ⟨_, rfl⟩ with ⟨stored, held⟩ | ⟨pending, adding⟩
  · cases held
  · cases adding

end Sample
end Protovalidate.Validate
