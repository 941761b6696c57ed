import Protovalidate.Validate.PlainRuntime
import Protovalidate.Validate.Threads

/-! Whether the pointer of a thread leads to the rules of its message type when the thread
reads them: an insertion that grows the table moves all entries and asks no reader. -/

namespace Protovalidate.Validate

open Foundation

section Steps

variable {pool : DescriptorPool} {grows : Nat → Bool} {context : BuildContext} {shared : SharedState pool}
  {caller : Caller pool} {desc : MessageType pool} {address : Nat}

theorem deref_some {state : FactoryState pool} {stored : StoredRules}
    (found : state.deref grows desc address = some stored) : address = state.moves grows ∧ state.rules desc = some stored := by
  unfold FactoryState.deref at found
  split at found
  · rename_i current
    exact ⟨current, found⟩
  · cases found

/-- The table moves again and again, and never back. -/
theorem Changes.moves_le {before after : FactoryState pool} (changes : Changes context before after) :
    before.moves grows ≤ after.moves grows := by
  have grown : before.builds.length ≤ after.builds.length := by
    cases changes with
    | same => exact Nat.le_refl _
    | @emplaced desc missing =>
      change _ ≤ (before.builds ++ [desc]).length
      rw [List.length_append]
      exact Nat.le_add_right _ _
    | flagged => exact Nat.le_refl _
  exact ((List.range_sublist.mpr grown).filter grows).length_le

/-- What a thread points to is in the table, and so are the rules that its loop has
still to run. -/
def Stored (shared : SharedState pool) : Caller pool → Prop
  | .holding desc _ => ∃ stored, shared.factory.rules desc = some stored
  | .evaluating desc left => ∃ stored rules, shared.factory.rules desc = some stored ∧ stored.rules = .ok rules ∧ left <:+ rules
  | _ => True

/-- What a step of a thread finds without a lock: at its address the rules that are
stored for the type, and in its loop one of these. -/
def Designates (grows : Nat → Bool) (shared : SharedState pool) : Caller pool → Prop
  | .holding desc address => ∃ stored, shared.factory.deref grows desc address = some stored
  | .evaluating desc (rule :: _) =>
    ∃ stored rules, shared.factory.rules desc = some stored ∧ stored.rules = .ok rules ∧ rule ∈ rules
  | _ => True

theorem Stored.later {after : SharedState pool} (stored : Stored shared caller) (keeps : Keeps shared.factory after.factory) :
    Stored after caller := by
  cases caller with
  | holding desc address =>
    obtain ⟨entry, held⟩ := stored
    exact ⟨entry, keeps desc entry held⟩
  | evaluating desc left =>
    obtain ⟨entry, rules, held, compiled, rest⟩ := stored
    exact ⟨entry, rules, keeps desc entry held, compiled, rest⟩
  | _ => trivial

/-- In `Add` there is no pointer. -/
theorem addStep_adds (pending : List (MessageType pool)) :
    (addStep context shared pending).2 = .idle ∨ ∃ later, (addStep context shared pending).2 = .adding later := by
  cases pending with
  | nil => exact .inl rfl
  | cons desc pending =>
    simp only [addStep]
    split
    · exact .inl rfl
    · exact .inr ⟨_, rfl⟩

/-- What a thread does behind the read of its pointer. -/
theorem readStep_cases (desc : MessageType pool) (address : Nat) :
    readStep grows shared desc address = .lost desc ∨ readStep grows shared desc address = .idle ∨
      ∃ stored rules, readStep grows shared desc address = .evaluating desc rules ∧
        shared.factory.rules desc = some stored ∧ stored.rules = .ok rules := by
  unfold readStep FactoryState.readRules
  cases found : shared.factory.deref grows desc address with
  | none => exact .inl rfl
  | some stored =>
    obtain ⟨build, compiled⟩ := stored
    cases compiled with
    | error failure => exact .inr (.inl rfl)
    | ok rules => exact .inr (.inr ⟨_, rules, rfl, (deref_some found).2, rfl⟩)

theorem addStep_released (pending : List (MessageType pool)) : (addStep context shared pending).2 ≠ .holding desc address := by
  intro holds
  rcases @addStep_adds _ context shared pending with idle | ⟨later, adds⟩
  · cases idle.symm.trans holds
  · cases adds.symm.trans holds

/-- The read is the last use of a pointer. -/
theorem readStep_released (desc : MessageType pool) (address : Nat) {other : MessageType pool} {address' : Nat} :
    readStep grows shared desc address ≠ .holding other address' := by
  intro holds
  obtain lost | idle | ⟨stored, rules, evaluates, -⟩ := @readStep_cases _ grows shared desc address
  · cases lost.symm.trans holds
  · cases idle.symm.trans holds
  · cases evaluates.symm.trans holds

theorem callerStep_stored (stored : Stored shared caller) (action : Action pool) :
    Stored (callerStep grows context shared caller action).1 (callerStep grows context shared caller action).2 := by
  cases caller with
  | idle => cases action <;> trivial
  | adding pending =>
    cases action with
    | proceed =>
      change Stored _ (addStep context shared pending).2
      rcases @addStep_adds _ context shared pending with idle | ⟨later, adds⟩
      · rw [idle]
        trivial
      · rw [adds]
        trivial
    | _ => trivial
  | looking desc =>
    cases action with
    | proceed =>
      change Stored (lookupStep grows shared desc).1 (lookupStep grows shared desc).2
      unfold lookupStep
      cases looked : shared.factory.lookupSection desc with
      | found entry => exact ⟨entry, FactoryState.lookupSection_found looked⟩
      | disabled => trivial
      | missing => trivial
    | _ => trivial
  | loading desc =>
    cases action with
    | proceed => exact ⟨_, (shared.factory.loadSection_changes desc context).2⟩
    | _ => trivial
  | disabling disable => cases action <;> trivial
  | holding desc address =>
    cases action with
    | proceed =>
      change Stored shared (readStep grows shared desc address)
      obtain lost | idle | ⟨entry, rules, evaluates, held, compiled⟩ := @readStep_cases _ grows shared desc address
      · rw [lost]
        trivial
      · rw [idle]
        trivial
      · rw [evaluates]
        exact ⟨entry, rules, held, compiled, List.suffix_refl rules⟩
    | _ => exact stored
  | evaluating desc left =>
    cases action with
    | proceed =>
      cases left with
      | nil => trivial
      | cons rule left =>
        obtain ⟨entry, rules, held, compiled, rest⟩ := stored
        exact ⟨entry, rules, held, compiled, (List.suffix_cons rule left).trans rest⟩
    | stop => trivial
    | _ => exact stored
  | lost desc => cases action <;> trivial

/-- A pointer is new, or it has not been read. -/
theorem callerStep_holding (action : Action pool)
    (holds : (callerStep grows context shared caller action).2 = .holding desc address) :
    address = (callerStep grows context shared caller action).1.factory.moves grows ∨
      (callerStep grows context shared caller action).1 = shared ∧ caller = .holding desc address ∧ action ≠ .proceed := by
  cases caller with
  | idle => cases action <;> cases holds
  | adding pending =>
    cases action with
    | proceed =>
      exact absurd holds (addStep_released pending)
    | _ => cases holds
  | looking desc =>
    cases action with
    | proceed =>
      change address = (lookupStep grows shared desc).1.factory.moves grows ∨ _
      change (lookupStep grows shared desc).2 = _ at holds
      unfold lookupStep at holds ⊢
      cases looked : shared.factory.lookupSection desc with
      | found entry =>
        rw [looked] at holds
        cases holds
        exact .inl rfl
      | disabled =>
        rw [looked] at holds
        cases holds
      | missing =>
        rw [looked] at holds
        cases holds
    | _ => cases holds
  | loading desc =>
    cases action with
    | proceed =>
      cases holds
      exact .inl rfl
    | _ => cases holds
  | disabling disable => cases action <;> cases holds
  | holding desc address =>
    cases action with
    | proceed =>
      exact absurd holds (readStep_released _ _)
    | _ => exact .inr ⟨rfl, holds, fun proceeds => by cases proceeds⟩
  | evaluating desc left =>
    cases action with
    | proceed => cases left <;> cases holds
    | stop => cases holds
    | _ => cases holds
  | lost desc => cases action <;> cases holds

end Steps

section Runs

variable {ι : Type} [DecidableEq ι] {pool : DescriptorPool} {grows : Nat → Bool} {context : BuildContext}
  {index : ι} {desc : MessageType pool} {address : Nat}

/-- What is pointed to is never taken out of the table. -/
theorem runThreads_stored (grows : Nat → Bool) (context : BuildContext) (schedule : List (ι × Action pool)) (index : ι) :
    Stored (runThreads grows context schedule).shared ((runThreads grows context schedule).thread index) := by
  refine Threads.execute_assertion Stored (fun shared caller action stored => callerStep_stored stored action)
    (fun shared caller action other stored => ?_) (fun index => ?_) schedule index
  · exact stored.later (callerStep_reads grows context shared caller action).changes.keeps
  · trivial

/-- Whether a step moves the table. -/
def Moves (system : Threads ι (SharedState pool) (Caller pool)) (move : ι × Action pool) (grows : Nat → Bool)
    (context : BuildContext) : Prop :=
  (system.step (callerStep grows context) move).shared.factory.moves grows ≠ system.shared.factory.moves grows

/-- A schedule has moved the table since a thread got the pointer that it holds. -/
def MovedSince (grows : Nat → Bool) (context : BuildContext) (schedule : List (ι × Action pool)) (index : ι)
    (desc : MessageType pool) (address : Nat) : Prop :=
  ∃ before move between, schedule = before ++ move :: between ∧
    (runThreads grows context before).thread index = .holding desc address ∧ (index, .proceed) ∉ between ∧
    Moves (runThreads grows context before) move grows context

variable {system : Threads ι (SharedState pool) (Caller pool)} {schedule : List (ι × Action pool)} {move : ι × Action pool}

theorem runThreads_snoc (schedule : List (ι × Action pool)) (move : ι × Action pool) :
    runThreads grows context (schedule ++ [move]) = (runThreads grows context schedule).step (callerStep grows context) move :=
  Threads.execute_snoc

theorem runThreads_moves_le (grows : Nat → Bool) (context : BuildContext) (before after : List (ι × Action pool)) :
    (runThreads grows context before).shared.factory.moves grows ≤
      (runThreads grows context (before ++ after)).shared.factory.moves grows := by
  rw [runThreads, runThreads, Threads.execute_append]
  exact Threads.execute_monotone
    (fun before after : SharedState pool => before.factory.moves grows ≤ after.factory.moves grows)
    (fun _ => Nat.le_refl _) (fun _ _ _ => Nat.le_trans)
    (fun shared caller action => (callerStep_reads grows context shared caller action).changes.moves_le) after

/-- A thread keeps its pointer until it reads it. -/
theorem holding_until (holds : system.thread index = .holding desc address) (unread : (index, .proceed) ∉ schedule) :
    (system.execute (callerStep grows context) schedule).thread index = .holding desc address := by
  induction schedule generalizing system with
  | nil => exact holds
  | cons move schedule ih =>
    obtain ⟨notRead, unread⟩ := List.ne_and_not_mem_of_not_mem_cons unread
    refine ih ?_ unread
    by_cases same : index = move.1
    · obtain ⟨other, action⟩ := move
      cases same
      rw [Threads.step_self, holds]
      cases action with
      | proceed => exact absurd rfl notRead
      | _ => rfl
    · rw [Threads.step_other same, holds]

/-- The address of a pointer is that of the entry, or of a time before a move. -/
theorem runThreads_address (schedule : List (ι × Action pool)) (index : ι) (desc : MessageType pool) (address : Nat)
    (holds : (runThreads grows context schedule).thread index = .holding desc address) :
    address ≤ (runThreads grows context schedule).shared.factory.moves grows ∧
      (address = (runThreads grows context schedule).shared.factory.moves grows ∨
        MovedSince grows context schedule index desc address) := by
  induction schedule using List.reverseRecOn with
  | nil => cases holds
  | append_singleton schedule move ih =>
    have unmoved := runThreads_moves_le grows context schedule [move]
    have still (held : (runThreads grows context schedule).thread index = .holding desc address)
        (unread : (index, .proceed) ≠ move) :
        address ≤ (runThreads grows context (schedule ++ [move])).shared.factory.moves grows ∧
          (address = (runThreads grows context (schedule ++ [move])).shared.factory.moves grows ∨
            MovedSince grows context (schedule ++ [move]) index desc address) := by
      obtain ⟨early, current | ⟨before, earlier, between, rfl, holding, quiet, moves⟩⟩ := ih held
      · refine ⟨Nat.le_trans early unmoved, ?_⟩
        by_cases moves : Moves (runThreads grows context schedule) move grows context
        · exact .inr ⟨schedule, move, [], rfl, held, List.not_mem_nil, moves⟩
        · rw [runThreads_snoc, not_not.mp moves]
          exact .inl current
      · refine ⟨Nat.le_trans early unmoved, .inr ⟨before, earlier, between ++ [move], ?_, holding, ?_, moves⟩⟩
        · rw [List.append_assoc, List.cons_append]
        · rw [List.mem_append, List.mem_singleton]
          exact fun member => member.elim quiet unread
    by_cases same : index = move.1
    · have here := holds
      rw [runThreads_snoc, same, Threads.step_self] at here
      rcases callerStep_holding move.2 here with fresh | ⟨-, held, waits⟩
      · rw [runThreads_snoc, Threads.step_shared]
        exact ⟨Nat.le_of_eq fresh, .inl fresh⟩
      · refine still (same ▸ held) fun reads => waits ?_
        rw [← reads]
    · have held := holds
      rw [runThreads_snoc, Threads.step_other same] at held
      refine still held fun reads => same ?_
      rw [← reads]

variable (grows) (context) (schedule)

/-- Whenever a thread reads through its pointer or evaluates a rule, it finds the rules
that are stored for the type, if and only if no step moves the table between the
return of a pointer and the read through it. -/
theorem pointers_designate_iff :
    (∀ before index after, schedule = before ++ (index, .proceed) :: after →
        Designates grows (runThreads grows context before).shared ((runThreads grows context before).thread index)) ↔
      ∀ before move between index after desc address, schedule = before ++ move :: (between ++ (index, .proceed) :: after) →
        (runThreads grows context before).thread index = .holding desc address → (index, .proceed) ∉ between →
          ¬Moves (runThreads grows context before) move grows context := by
  constructor
  · intro valid before move between index after desc address split holds unread moves
    have notRead : (index, .proceed) ≠ move := by
      rintro rfl
      apply moves
      rw [Threads.step_shared, holds]
      rfl
    have held : (runThreads grows context (before ++ move :: between)).thread index = .holding desc address := by
      rw [runThreads, Threads.execute_append]
      exact holding_until holds (List.not_mem_cons_of_ne_of_not_mem notRead unread)
    have finds := valid (before ++ move :: between) index after (by rw [split, List.append_assoc, List.cons_append])
    rw [held] at finds
    obtain ⟨stored, found⟩ := finds
    have early := (runThreads_address before index desc address holds).1
    have first := runThreads_moves_le grows context before [move]
    have later := runThreads_moves_le grows context (before ++ [move]) between
    rw [List.append_assoc, List.singleton_append] at later
    rw [Moves, ← runThreads_snoc] at moves
    have current := (deref_some found).1
    omega
  · intro undisturbed before index after split
    have stored := runThreads_stored grows context before index
    cases holds : (runThreads grows context before).thread index with
    | holding desc address =>
      rw [holds] at stored
      obtain ⟨entry, held⟩ := stored
      rcases (runThreads_address before index desc address holds).2 with current | ⟨earlier, move, between, rfl, holding, unread, moves⟩
      · refine ⟨entry, ?_⟩
        rw [FactoryState.deref, if_pos current, held]
      · rw [List.append_assoc, List.cons_append] at split
        exact absurd moves (undisturbed earlier move between index after desc address split holding unread)
    | evaluating desc left =>
      rw [holds] at stored
      cases left with
      | nil => trivial
      | cons rule left =>
        obtain ⟨entry, rules, held, compiled, rest⟩ := stored
        exact ⟨entry, rules, held, compiled, rest.subset List.mem_cons_self⟩
    | _ => trivial

end Runs

section Sample

def plainContext : BuildContext := { runtime := plainRuntime fun _ _ => .ok (.bool true) }

/-- A string field that must be set. -/
def requiredField : FieldDescriptor where
  number := 1
  name := "id"
  fullName := "Order.id"
  type := .string
  options := some ⟨none, true, [], [], .notSet⟩

def shop : DescriptorPool where
  types := [{ fullName := "Order", fields := [requiredField] }, { fullName := "Item" }]
  distinct := by decide

def order : MessageType shop := ⟨{ fullName := "Order", fields := [requiredField] }, by simp [shop]⟩

def item : MessageType shop := ⟨{ fullName := "Item" }, by simp [shop]⟩

/-- A table with room for one entry moves it to make room for the second one. -/
def growsAtOne (size : Nat) : Bool := size == 1

/-- One thread loads the rules of an order, and before it reads them another thread
loads those of an item. -/
def loadInBetween : List (Nat × Action shop) :=
  [(0, .getMessageRules order), (0, .proceed), (0, .proceed),
    (1, .getMessageRules item), (1, .proceed), (1, .proceed), (0, .proceed)]

theorem pointer_leftBehind :
    (runThreads growsAtOne plainContext (loadInBetween.take 6)).thread 0 = .holding order 0 ∧
      (runThreads growsAtOne plainContext (loadInBetween.take 6)).shared.factory.deref growsAtOne order 0 = none ∧
      ¬∀ before index after, loadInBetween = before ++ (index, .proceed) :: after →
        Designates growsAtOne (runThreads growsAtOne plainContext before).shared
          ((runThreads growsAtOne plainContext before).thread index) := by
  refine ⟨rfl, rfl, fun designates => ?_⟩
  obtain ⟨stored, found⟩ := designates (loadInBetween.take 6) 0 [] rfl
  cases found

end Sample
end Protovalidate.Validate
