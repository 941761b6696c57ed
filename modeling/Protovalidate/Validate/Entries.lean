import Protovalidate.Validate.Factory

/-! What the critical sections of the factory do to its table: entries are added, each
by one run of `NewMessageRules`, and stay. -/

namespace Protovalidate.Validate

open Foundation

section Entries

variable {pool : DescriptorPool} {context : BuildContext}

/-- All that a critical section does to the factory. -/
inductive Changes (context : BuildContext) : FactoryState pool → FactoryState pool → Prop where
  | same (state : FactoryState pool) : Changes context state state
  | emplaced {state : FactoryState pool} {desc : MessageType pool} (missing : state.rules desc = none) :
    Changes context state (state.emplace context desc).2
  | flagged (state : FactoryState pool) (disable : Bool) :
    Changes context state { state with disableLazyLoading := disable }

namespace FactoryState

variable (state : FactoryState pool) (desc : MessageType pool)

/-- `Add` leaves an entry for the type, which is the one whose status it reports. -/
theorem addSection_changes (context : BuildContext) : Changes context state (state.addSection context desc).2 ∧
    (state.addSection context desc).2.rules desc = some (state.addSection context desc).1.1 := by
  cases held : state.rules desc with
  | some stored =>
    rw [addSection_found held]
    exact ⟨.same state, held⟩
  | none =>
    rw [addSection_missing held]
    exact ⟨.emplaced held, emplace_self⟩

theorem loadSection_changes (context : BuildContext) : Changes context state (state.loadSection context desc).2 ∧
    (state.loadSection context desc).2.rules desc = some (state.loadSection context desc).1 := by
  unfold loadSection
  cases held : state.rules desc with
  | some stored => exact ⟨.same state, held⟩
  | none => exact ⟨.emplaced held, emplace_self⟩

variable {state} {desc}

theorem lookupSection_found {stored : StoredRules} (found : state.lookupSection desc = .found stored) :
    state.rules desc = some stored := by
  unfold lookupSection at found
  cases held : state.rules desc with
  | some stored =>
    rw [held] at found
    cases found
    rfl
  | none =>
    simp only [held] at found
    split at found <;> cases found

theorem addRound_state (pending : List (MessageType pool)) :
    (state.addRound context (desc :: pending)).2 = (state.addSection context desc).2 := by
  simp only [addRound]
  split <;> rfl

end FactoryState

/-- Entries stay as they are. -/
def Keeps (before after : FactoryState pool) : Prop :=
  ∀ desc stored, before.rules desc = some stored → after.rules desc = some stored

theorem Changes.keeps {before after : FactoryState pool} (changes : Changes context before after) : Keeps before after := by
  intro desc stored held
  cases changes with
  | same => exact held
  | @emplaced other missing =>
    by_cases same : desc = other
    · rw [same, missing] at held
      cases held
    · rw [FactoryState.emplace_other same]
      exact held
  | flagged => exact held

/-- Every entry comes from the one run of `NewMessageRules` for its type. -/
structure Consistent (context : BuildContext) (state : FactoryState pool) : Prop where
  once : state.builds.Nodup
  built : ∀ desc stored, state.rules desc = some stored → state.builds[stored.build]? = some desc ∧
    stored.rules = newMessageRules context desc.descriptor
  held : ∀ desc ∈ state.builds, ∃ stored, state.rules desc = some stored

theorem consistent_new : Consistent context ({} : FactoryState pool) where
  once := List.nodup_nil
  built := fun _ _ impossible => by cases impossible
  held := fun _ impossible => by cases impossible

theorem Consistent.emplace {state : FactoryState pool} {desc : MessageType pool} (before : Consistent context state)
    (missing : state.rules desc = none) : Consistent context (state.emplace context desc).2 where
  once := by
    have unbuilt : desc ∉ state.builds := fun member => by
      obtain ⟨stored, held⟩ := before.held desc member
      rw [missing] at held
      cases held
    exact before.once.append (List.nodup_singleton desc) (by simpa using unbuilt)
  built := by
    intro other stored held
    by_cases same : other = desc
    · subst same
      rw [FactoryState.emplace_self] at held
      cases held
      exact ⟨by simp [FactoryState.emplace], rfl⟩
    · rw [FactoryState.emplace_other same] at held
      obtain ⟨built, rules⟩ := before.built other stored held
      refine ⟨?_, rules⟩
      rw [← built]
      exact List.getElem?_append_left (List.getElem?_eq_some_iff.mp built).1
  held := by
    intro other member
    by_cases same : other = desc
    · subst same
      exact ⟨_, FactoryState.emplace_self⟩
    · rw [FactoryState.emplace_other same]
      refine before.held other ?_
      rcases List.mem_append.mp member with early | new
      · exact early
      · exact absurd (List.mem_singleton.mp new) same

theorem Changes.consistent {before after : FactoryState pool} (changes : Changes context before after)
    (consistent : Consistent context before) : Consistent context after := by
  cases changes with
  | same => exact consistent
  | emplaced missing => exact consistent.emplace missing
  | flagged => exact ⟨consistent.once, consistent.built, consistent.held⟩

end Entries
end Protovalidate.Validate
