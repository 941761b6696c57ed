import Protovalidate.Foundation.SharedSearch
import Protovalidate.Validate.LoadedTypes
import Protovalidate.Validate.Workers

/-! Calls of `Add` at the same time: each goes on only behind the types that it has put
into the table itself, and still they do one search together. -/

namespace Protovalidate.Validate

open Foundation Search

section Requests

variable {ι : Type} [DecidableEq ι] {pool : DescriptorPool} (grows : Nat → Bool) (context : BuildContext)

/-- The types that some call of `Add` has started with. -/
def Requested (schedule : List (ι × Job pool)) (type : MessageType pool) : Prop :=
  ∃ before index after, schedule = before ++ (index, .add type) :: after ∧
    (runWorkers grows context before).thread index = .idle

/-- The types that a thread in `Add` still has to go through. -/
def Worker.pending : Worker pool → List (MessageType pool)
  | .adding pending => pending
  | _ => []

def Pending (system : Threads ι (FactoryState pool) (Worker pool)) (type : MessageType pool) : Prop :=
  ∃ index, type ∈ (system.thread index).pending

/-- No thread comes between the locks of a lookup, so nothing is loaded lazily. -/
def NeverLazy (schedule : List (ι × Job pool)) : Prop :=
  ∀ before after, schedule = before ++ after → ∀ index call desc next,
    (runWorkers grows context before).thread index ≠ .loading call desc next

variable {grows} {context} {schedule : List (ι × Job pool)} {move : ι × Job pool} {type : MessageType pool}

theorem requested_snoc : Requested grows context (schedule ++ [move]) type ↔
    Requested grows context schedule type ∨ move.2 = .add type ∧ (runWorkers grows context schedule).thread move.1 = .idle := by
  constructor
  · rintro ⟨before, index, after, same, idle⟩
    rcases List.eq_nil_or_concat after with rfl | ⟨after, last, rfl⟩
    · obtain ⟨rfl, single⟩ := List.append_inj' same rfl
      cases single
      exact .inr ⟨rfl, idle⟩
    · rw [List.concat_eq_append, ← List.cons_append, ← List.append_assoc] at same
      exact .inl ⟨before, index, after, (List.append_inj' same rfl).1, idle⟩
  · rintro (⟨before, index, after, rfl, idle⟩ | ⟨adds, idle⟩)
    · exact ⟨before, index, after ++ [move], by rw [List.append_assoc, List.cons_append], idle⟩
    · exact ⟨schedule, move.1, [], by rw [← adds], idle⟩

theorem NeverLazy.earlier (neverLazy : NeverLazy grows context (schedule ++ [move])) : NeverLazy grows context schedule := by
  rintro before after rfl
  exact neverLazy before (after ++ [move]) (List.append_assoc before after [move])

variable {system : Threads ι (FactoryState pool) (Worker pool)}

/-- A step only changes what its own thread has to go through. -/
theorem pending_step : Pending (system.step (workerStep grows context) move) type ↔
    type ∈ (workerStep grows context system.shared (system.thread move.1) move.2).2.pending ∨
      ∃ other, other ≠ move.1 ∧ type ∈ (system.thread other).pending := by
  constructor
  · rintro ⟨index, member⟩
    by_cases same : index = move.1
    · rw [same, Threads.step_self] at member
      exact .inl member
    · rw [Threads.step_other same] at member
      exact .inr ⟨index, same, member⟩
  · rintro (member | ⟨other, different, member⟩)
    · exact ⟨move.1, by rwa [Threads.step_self]⟩
    · exact ⟨other, by rwa [Threads.step_other different]⟩

theorem pending_thread (index : ι) : Pending system type ↔
    type ∈ (system.thread index).pending ∨ ∃ other, other ≠ index ∧ type ∈ (system.thread other).pending := by
  constructor
  · rintro ⟨other, member⟩
    by_cases same : other = index
    · exact .inl (same ▸ member)
    · exact .inr ⟨other, same, member⟩
  · rintro (member | ⟨other, -, member⟩)
    · exact ⟨index, member⟩
    · exact ⟨other, member⟩

end Requests

section Steps

variable {ι : Type} [DecidableEq ι] {pool : DescriptorPool} {grows : Nat → Bool} {context : BuildContext}
variable {schedule : List (ι × Job pool)} {system : Threads ι (FactoryState pool) (Worker pool)} {index : ι} {job : Job pool}
variable {state : FactoryState pool} {worker : Worker pool}

/-- The calls of `Add` leave out nothing that they have been asked for. -/
abbrev Searches (grows : Nat → Bool) (context : BuildContext) (schedule : List (ι × Job pool))
    (system : Threads ι (FactoryState pool) (Worker pool)) : Prop :=
  Covers MessageType.messageFields (Requested grows context schedule) (Present system.shared) (Pending system)

/-- A step that neither loads rules nor belongs to `Add`. -/
structure Passive (context : BuildContext) (grows : Nat → Bool) (state : FactoryState pool) (worker : Worker pool)
    (job : Job pool) : Prop where
  present : ∀ type, Present (workerStep grows context state worker job).1 type ↔ Present state type
  pending : (workerStep grows context state worker job).2.pending = worker.pending
  unasked : ∀ type, ¬(job = .add type ∧ worker = .idle)

theorem Passive.searches (passive : Passive context grows (runWorkers grows context schedule).shared
    ((runWorkers grows context schedule).thread index) job)
    (searches : Searches grows context schedule (runWorkers grows context schedule)) :
    Searches grows context (schedule ++ [(index, job)]) (runWorkers grows context (schedule ++ [(index, job)])) := by
  have roots : Requested grows context (schedule ++ [(index, job)]) = Requested grows context schedule := by
    funext type
    rw [requested_snoc, or_iff_left (passive.unasked type)]
  have marks : Present (runWorkers grows context (schedule ++ [(index, job)])).shared =
      Present (runWorkers grows context schedule).shared := by
    funext type
    rw [runWorkers_snoc, Threads.step_shared]
    exact propext (passive.present type)
  have ahead : Pending (runWorkers grows context (schedule ++ [(index, job)])) = Pending (runWorkers grows context schedule) := by
    funext type
    rw [runWorkers_snoc, pending_step, pending_thread index, passive.pending]
  rw [Searches, roots, marks, ahead]
  exact searches

theorem runningStep_pending (call : ValidateCall pool) (rest : Rest pool) : (runningStep grows state call rest).2.pending = [] := by
  cases rest with
  | done result => rfl
  | ask desc next =>
    simp only [runningStep]
    split <;> rfl

theorem readingStep_pending (call : ValidateCall pool) (desc : MessageType pool) (address : Nat) (next : Option Rules → Rest pool) :
    (readingStep grows state call desc address next).pending = [] := by
  unfold readingStep FactoryState.readRules
  split <;> rfl

/-- Inside of `Validate` nothing happens to the table unless rules are loaded lazily. -/
theorem passive_call {call : ValidateCall pool} (inside : worker.call = some call)
    (loaded : ∀ call desc next, worker ≠ .loading call desc next) : Passive context grows state worker job := by
  cases worker with
  | loading call' desc next => exact absurd rfl (loaded call' desc next)
  | running call' rest =>
    cases job with
    | proceed =>
      refine ⟨fun type => ?_, runningStep_pending call' rest, fun _ impossible => by cases impossible.1⟩
      change Present (runningStep grows state call' rest).1 type ↔ _
      rw [runningStep_state]
    | _ => exact ⟨fun _ => Iff.rfl, rfl, fun _ impossible => by cases impossible.2⟩
  | holding call' desc address next =>
    cases job with
    | proceed =>
      exact ⟨fun _ => Iff.rfl, readingStep_pending call' desc address next, fun _ impossible => by cases impossible.1⟩
    | _ => exact ⟨fun _ => Iff.rfl, rfl, fun _ impossible => by cases impossible.2⟩
  | returning call' result => cases job <;> exact ⟨fun _ => Iff.rfl, rfl, fun _ impossible => by cases impossible.2⟩
  | lost call' => cases job <;> exact ⟨fun _ => Iff.rfl, rfl, fun _ impossible => by cases impossible.2⟩
  | _ => cases inside

/-- What a call of `Add` has ahead of it after a type. -/
def ahead (context : BuildContext) (state : FactoryState pool) (desc : MessageType pool) (pending : List (MessageType pool)) :
    List (MessageType pool) :=
  if (state.addSection context desc).1.2 then desc.messageFields ++ pending else pending

theorem mem_ahead {desc type : MessageType pool} {pending : List (MessageType pool)} :
    type ∈ ahead context state desc pending ↔ ¬Present state desc ∧ type ∈ desc.messageFields ∨ type ∈ pending := by
  unfold ahead
  cases held : state.rules desc with
  | some stored =>
    rw [FactoryState.addSection_found held, if_neg Bool.false_ne_true, or_iff_right]
    exact fun impossible => impossible.1 ⟨stored, held⟩
  | none =>
    have missing : ¬Present state desc := by
      rintro ⟨stored, found⟩
      rw [held] at found
      cases found
    rw [FactoryState.addSection_missing held, if_pos rfl, List.mem_append, and_iff_right missing]

/-- A round of `Add` for a type that compiles. -/
theorem addingStep_goesOn {desc : MessageType pool} (pending : List (MessageType pool)) (consistent : Consistent context state)
    (compiles : Compiles context desc) : addingStep context state (desc :: pending) =
      ((state.addSection context desc).2, .adding (ahead context state desc pending)) := by
  have fine : (state.addSection context desc).1.1.status = .ok () :=
    compilesIn_section.mpr (consistent.compilesIn_iff.mpr compiles)
  unfold addingStep
  simp only [FactoryState.addRound, fine, ahead]

/-- A call of `Add` starts. -/
theorem searches_start {desc : MessageType pool} (idle : (runWorkers grows context schedule).thread index = .idle)
    (searches : Searches grows context schedule (runWorkers grows context schedule)) :
    Searches grows context (schedule ++ [(index, .add desc)]) (runWorkers grows context (schedule ++ [(index, .add desc)])) := by
  have marks : Present (runWorkers grows context (schedule ++ [(index, .add desc)])).shared =
      Present (runWorkers grows context schedule).shared := by
    rw [runWorkers_snoc, Threads.step_shared, idle]
    rfl
  rw [Searches, marks]
  refine @Covers.start _ _ _ _ _ searches _ _ desc (fun type => ?_) fun type => ?_
  · rw [requested_snoc, and_iff_left idle]
    exact or_congr_right ⟨fun same => by cases same; rfl, fun same => same ▸ rfl⟩
  · rw [runWorkers_snoc, pending_step, pending_thread index, idle]
    change type ∈ [desc] ∨ _ ↔ (type ∈ [] ∨ _) ∨ _
    rw [List.mem_singleton, or_iff_right List.not_mem_nil, or_comm]

/-- A call of `Add` goes through the next type. -/
theorem searches_round {desc : MessageType pool} {pending : List (MessageType pool)}
    (adding : (runWorkers grows context schedule).thread index = .adding (desc :: pending))
    (compiles : ∀ type, Reaches MessageType.messageFields (Requested grows context schedule) type → Compiles context type)
    (searches : Searches grows context schedule (runWorkers grows context schedule)) :
    Searches grows context (schedule ++ [(index, .proceed)]) (runWorkers grows context (schedule ++ [(index, .proceed)])) := by
  have was : Pending (runWorkers grows context schedule) desc := ⟨index, by rw [adding]; exact List.mem_cons_self⟩
  have goesOn := addingStep_goesOn pending (runWorkers_consistent grows context schedule)
    (compiles desc (searches.reached desc (.inr was)))
  have roots : Requested grows context (schedule ++ [(index, .proceed)]) = Requested grows context schedule := by
    funext type
    rw [requested_snoc, or_iff_left]
    rintro ⟨impossible, -⟩
    cases impossible
  have step : workerStep grows context (runWorkers grows context schedule).shared
      ((runWorkers grows context schedule).thread index) .proceed =
      (((runWorkers grows context schedule).shared.addSection context desc).2,
        .adding (ahead context (runWorkers grows context schedule).shared desc pending)) := by
    rw [adding]
    exact goesOn
  have before (type : MessageType pool) : Pending (runWorkers grows context schedule) type ↔
      (type = desc ∨ type ∈ pending) ∨ ∃ other, other ≠ index ∧ type ∈ ((runWorkers grows context schedule).thread other).pending := by
    rw [pending_thread index, adding]
    exact or_congr_left List.mem_cons
  have after (type : MessageType pool) : Pending (runWorkers grows context (schedule ++ [(index, .proceed)])) type ↔
      (¬Present (runWorkers grows context schedule).shared desc ∧ type ∈ desc.messageFields ∨ type ∈ pending) ∨
        ∃ other, other ≠ index ∧ type ∈ ((runWorkers grows context schedule).thread other).pending := by
    rw [runWorkers_snoc, pending_step, ← mem_ahead]
    simp only [step]
    rfl
  rw [Searches, roots]
  refine searches.mark was (fun type => ?_) (fun type => ?_) (fun missing type field => ?_) fun type => ?_
  · rw [runWorkers_snoc, Threads.step_shared]
    simp only [step]
    exact present_addSection
  · rw [before, after]
    rintro ((same | later) | other)
    · exact .inl same
    · exact .inr (.inl (.inr later))
    · exact .inr (.inr other)
  · exact (after type).mpr (.inl (.inl ⟨missing, field⟩))
  · rw [before, after]
    rintro ((⟨-, field⟩ | later) | other)
    · exact .inr field
    · exact .inl (.inl (.inr later))
    · exact .inl (.inr other)

/-- All calls of `Add` together search the types behind those that they have been asked for. -/
theorem runWorkers_searches (neverLazy : NeverLazy grows context schedule)
    (compiles : ∀ type, Reaches MessageType.messageFields (Requested grows context schedule) type → Compiles context type) :
    Searches grows context schedule (runWorkers grows context schedule) := by
  induction schedule using List.reverseRecOn with
  | nil =>
    refine ⟨?_, ?_, ?_⟩
    · rintro root ⟨before, index, after, impossible, -⟩
      cases before <;> cases impossible
    · rintro source target ⟨stored, impossible⟩
      cases impossible
    · rintro vertex (⟨stored, impossible⟩ | ⟨index, impossible⟩)
      · cases impossible
      · cases impossible
  | append_singleton schedule move ih =>
    have earlier (type : MessageType pool) (reaches : Reaches MessageType.messageFields (Requested grows context schedule) type) :
        Compiles context type := compiles type (reaches.mono fun root start => requested_snoc.mpr (.inl start))
    have searches := ih neverLazy.earlier earlier
    obtain ⟨index, job⟩ := move
    cases here : (runWorkers grows context schedule).thread index with
    | idle =>
      cases job with
      | add desc => exact searches_start here searches
      | _ =>
        apply Passive.searches _ searches
        rw [here]
        exact ⟨fun _ => Iff.rfl, rfl, fun _ impossible => by cases impossible.1⟩
    | adding pending =>
      cases job with
      | proceed =>
        cases pending with
        | nil =>
          apply Passive.searches _ searches
          rw [here]
          exact ⟨fun _ => Iff.rfl, rfl, fun _ impossible => by cases impossible.1⟩
        | cons desc pending => exact searches_round here earlier searches
      | _ =>
        apply Passive.searches _ searches
        rw [here]
        exact ⟨fun _ => Iff.rfl, rfl, fun _ impossible => by cases impossible.2⟩
    | disabling disable =>
      apply Passive.searches _ searches
      rw [here]
      cases job <;> exact ⟨fun _ => Iff.rfl, rfl, fun _ impossible => by cases impossible.2⟩
    | _ =>
      apply Passive.searches _ searches
      apply passive_call
      · rw [here]
        rfl
      · exact neverLazy schedule _ rfl index

/-- However the steps of any number of `Add` calls are interleaved: what is in the table can
be reached from the types that have been asked for, and when no thread is in `Add`,
exactly these types are in the table. -/
theorem concurrent_adds (grows : Nat → Bool) (context : BuildContext) (schedule : List (ι × Job pool))
    (neverLazy : NeverLazy grows context schedule)
    (compiles : ∀ type, Reaches MessageType.messageFields (Requested grows context schedule) type → Compiles context type) :
    (∀ type, Present (runWorkers grows context schedule).shared type →
      Reaches MessageType.messageFields (Requested grows context schedule) type) ∧
    ((∀ index pending, (runWorkers grows context schedule).thread index ≠ .adding pending) →
      ∀ type, Present (runWorkers grows context schedule).shared type ↔
        Reaches MessageType.messageFields (Requested grows context schedule) type) := by
  have searches := runWorkers_searches neverLazy compiles
  refine ⟨fun type present => searches.reached type (.inl present), fun quiet type => searches.finished ?_⟩
  rintro vertex ⟨index, member⟩
  cases here : (runWorkers grows context schedule).thread index with
  | adding pending => exact quiet index pending here
  | _ =>
    rw [here] at member
    cases member

end Steps

section Sample

/-- Threads that do not call `Validate` do not load anything lazily. -/
theorem neverLazy_of_adds {ι : Type} [DecidableEq ι] {pool : DescriptorPool} {grows : Nat → Bool} {context : BuildContext}
    {schedule : List (ι × Job pool)} (adds : ∀ move ∈ schedule, ∀ call, move.2 ≠ .validate call) :
    NeverLazy grows context schedule := by
  have outside (before after : List (ι × Job pool)) (same : schedule = before ++ after) (index : ι) :
      ((runWorkers grows context before).thread index).call = none := by
    refine Threads.execute_prefix (fun system : Threads ι (FactoryState pool) (Worker pool) =>
      ∀ index, (system.thread index).call = none) (fun _ => ?_)
      (fun before move after same outside index => ?_) before after same index
    · rfl
    · rw [Threads.execute_snoc]
      by_cases self : index = move.1
      · rw [self, Threads.step_self]
        have none_before := outside move.1
        have other := adds move (by rw [same]; simp)
        generalize ((newWorkers ι).execute (workerStep grows context) before).thread move.1 = worker at none_before
        cases worker with
        | idle =>
          cases job : move.2 with
          | validate call => exact absurd job (other call)
          | _ => rfl
        | adding pending =>
          cases move.2 with
          | proceed => exact addingStep_call pending
          | _ => rfl
        | disabling disable => cases move.2 <;> rfl
        | _ => cases none_before
      · rw [Threads.step_other self]
        exact outside index
  intro before after same index call desc next loading
  have impossible := outside before after same index
  rw [loading] at impossible
  cases impossible

/-- One thread adds nodes and the other one labels. Each comes to types that the other
one has put into the table. -/
def addTogether : List (Nat × Job forest) :=
  [(0, .add node), (1, .add label), (0, .proceed), (1, .proceed), (0, .proceed), (0, .proceed), (0, .proceed),
    (1, .proceed), (0, .proceed), (1, .proceed)]

theorem concurrent_adds_together :
    (∀ type, Present (runWorkers growsAtOne plainContext addTogether).shared type ↔
      Reaches MessageType.messageFields (Requested growsAtOne plainContext addTogether) type) ∧
    Present (runWorkers growsAtOne plainContext addTogether).shared label ∧
    ¬Present (runWorkers growsAtOne plainContext addTogether).shared stamp := by
  have compiles (type : MessageType forest) : Compiles plainContext type := by
    obtain ⟨descriptor, declared⟩ := type
    simp only [forest, List.mem_cons, List.not_mem_nil, or_false] at declared
    rcases declared with rfl | rfl | rfl
    · exact ⟨_, rfl⟩
    · exact ⟨_, rfl⟩
    · exact ⟨_, rfl⟩
  have adds : ∀ move ∈ addTogether, ∀ call, move.2 ≠ .validate call := by
    intro move member call same
    simp only [addTogether, List.mem_cons, List.not_mem_nil, or_false] at member
    rcases member with rfl | rfl | rfl | rfl | rfl | rfl | rfl | rfl | rfl | rfl <;> cases same
  have quiet (index : Nat) (pending : List (MessageType forest)) :
      (runWorkers growsAtOne plainContext addTogether).thread index ≠ .adding pending := by
    intro adding
    have idle : (runWorkers growsAtOne plainContext addTogether).thread index = .idle := by
      rcases index with _ | _ | _
      · rfl
      · rfl
      · rfl
    rw [idle] at adding
    cases adding
  refine ⟨(concurrent_adds growsAtOne plainContext addTogether (neverLazy_of_adds adds) fun type _ => compiles type).2 quiet,
    ⟨_, rfl⟩, ?_⟩
  rintro ⟨stored, impossible⟩
  cases impossible

end Sample

end Protovalidate.Validate
