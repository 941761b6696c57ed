import Protovalidate.Foundation.Journal

/-! What is known of the entries that a check adds, in either mode: of each where it is
added, and of those from a position on where parts edit them again. -/

namespace Protovalidate.Foundation
namespace Check

variable {α ω β γ ε ι : Type} {seen : ω → Prop} {okay : β → Prop} {okay' : γ → Prop}
  {fits fits' before between after : α → Prop}

section Additions

variable {part : Check α ω β} {first rest : Check α ω (Except ε Unit)}

/-- The entries that a check adds all fit, if its result is okay and its events are
among those that are seen. -/
def Adds (seen : ω → Prop) (okay : β → Prop) (fits : α → Prop) (part : Check α ω β) : Prop :=
  ∀ (failFast : Bool) (journal : Journal α ω), ∃ late events,
    (part failFast journal).2 = ⟨journal.entries ++ late, journal.trace ++ events⟩ ∧
      ((∀ event ∈ events, seen event) → okay (part failFast journal).1 → ∀ entry ∈ late, fits entry)

/-- What is always true of the result of a check. -/
def Returns (holds : β → Prop) (part : Check α ω β) : Prop := ∀ failFast journal, holds (part failFast journal).1

theorem adds_nothing (same : ∀ failFast journal, (part failFast journal).2 = journal) : Adds seen okay fits part :=
  fun failFast journal => ⟨[], [], by simp [same], fun _ _ _ impossible => by cases impossible⟩

theorem adds_pure (value : β) : Adds seen okay fits (pure value : Check α ω β) := adds_nothing fun _ _ => rfl

theorem adds_exits (status : Except ε Unit) {okay : Bool → Prop} : Adds seen okay fits (exits status : Check α ω Bool) :=
  adds_nothing fun _ _ => rfl

theorem adds_failsFast {okay : Bool → Prop} : Adds seen okay fits (failsFast : Check α ω Bool) :=
  adds_nothing fun _ _ => rfl

theorem adds_note (event : ω) {okay : Unit → Prop} : Adds seen okay fits (note event : Check α ω Unit) :=
  fun _ journal => ⟨[], [event], by simp [note], fun _ _ _ impossible => by cases impossible⟩

theorem adds_add {entry : α} {okay : Unit → Prop} (fitting : fits entry) :
    Adds seen okay fits (add entry : Check α ω Unit) :=
  fun _ journal => ⟨[entry], [], by simp [add], fun _ _ _ member => List.mem_singleton.mp member ▸ fitting⟩

/-- The result of the rest must tell whether the first part was okay. -/
theorem Adds.bindOf {holds : β → Prop} {next : β → Check α ω γ} (first : Adds seen okay fits part)
    (returns : Returns holds part) (second : ∀ value, holds value → Adds seen okay' fits (next value))
    (tells : ∀ value failFast journal, okay' (next value failFast journal).1 → okay value) :
    Adds seen okay' fits (part >>= next) := by
  intro failFast journal
  obtain ⟨early, events, run, fine⟩ := first failFast journal
  obtain ⟨late, events', run', fine'⟩ := second _ (returns failFast journal) failFast (part failFast journal).2
  refine ⟨early ++ late, events ++ events', ?_, fun sight okayed entry member => ?_⟩
  · rw [bind_apply, run', run, List.append_assoc, List.append_assoc]
  · rw [bind_apply] at okayed
    rcases List.mem_append.mp member with old | new
    · exact fine (fun event among => sight event (List.mem_append_left _ among)) (tells _ _ _ okayed) entry old
    · exact fine' (fun event among => sight event (List.mem_append_right _ among)) okayed entry new

theorem Adds.bind {next : β → Check α ω γ} (first : Adds seen okay fits part)
    (second : ∀ value, Adds seen okay' fits (next value))
    (tells : ∀ value failFast journal, okay' (next value failFast journal).1 → okay value) :
    Adds seen okay' fits (part >>= next) :=
  first.bindOf (fun _ _ => trivial) (fun value (_ : True) => second value) tells

/-- A first part that adds nothing. -/
theorem Adds.andThen {next : β → Check α ω γ} (first : Adds seen (fun _ => True) fits part)
    (second : ∀ value, Adds seen okay' fits (next value)) : Adds seen okay' fits (part >>= next) :=
  first.bind second fun _ _ _ _ => trivial

/-- What is known of the entries where an event is among those that are seen. -/
theorem Adds.noted {event : ω} (inside : Adds seen okay fits part)
    (shown : seen event → ∀ entry, fits entry → fits' entry) :
    Adds seen okay fits' (note event >>= fun _ => part) := by
  intro failFast journal
  obtain ⟨late, events, run, fine⟩ := inside failFast (note event failFast journal).2
  refine ⟨late, event :: events, ?_, fun sight okayed entry member => ?_⟩
  · rw [bind_apply, run]
    simp [note]
  · refine shown (sight event (List.mem_cons_self ..)) entry (fine ?_ okayed entry member)
    exact fun other among => sight other (List.mem_cons_of_mem _ among)

theorem Adds.imp (inside : Adds seen okay fits part) (weaker : ∀ entry, fits entry → fits' entry) :
    Adds seen okay fits' part := by
  intro failFast journal
  obtain ⟨late, events, run, fine⟩ := inside failFast journal
  exact ⟨late, events, run, fun sight okayed entry member => weaker entry (fine sight okayed entry member)⟩

/-- The change is made where the result is okay. -/
theorem Adds.framedIf (inside : Adds seen okay fits part) {allows : β → Bool} {change : α → α}
    (allowed : ∀ result, okay result → allows result = true) (moves : ∀ entry, fits entry → fits' (change entry)) :
    Adds seen okay fits' (framedIf allows change part) := by
  intro failFast journal
  obtain ⟨late, events, run, fine⟩ := inside failFast journal
  rw [framedIf_apply]
  by_cases allowing : allows (part failFast journal).1 = true
  · rw [if_pos allowing, run]
    refine ⟨late.map change, events, by simp [Journal.editFrom], fun sight okayed entry member => ?_⟩
    obtain ⟨inner, found, rfl⟩ := List.mem_map.mp member
    exact moves inner (fine sight okayed inner found)
  · rw [if_neg allowing, run]
    exact ⟨late, events, rfl, fun _ okayed => absurd (allowed _ okayed) allowing⟩

theorem Adds.framed (inside : Adds seen okay fits part) {change : α → α}
    (moves : ∀ entry, fits entry → fits' (change entry)) : Adds seen okay fits' (framed change part) :=
  inside.framedIf (fun _ _ => rfl) moves

theorem Adds.orFail (front : Adds seen Succeeds fits first) (back : Adds seen Succeeds fits rest) :
    Adds seen Succeeds fits (orFail first rest) := by
  refine front.bind (fun status => ?_) fun status failFast journal succeeds => ?_
  · cases status with
    | error failure => exact adds_pure _
    | ok _ => exact back
  · cases status with
    | error failure => cases succeeds
    | ok _ => rfl

theorem Adds.orExit (front : Adds seen Succeeds fits first) (back : Adds seen Succeeds fits rest) :
    Adds seen Succeeds fits (orExit first rest) := by
  refine front.bind (fun status => (adds_exits status).andThen fun exit => ?_) fun status failFast journal succeeds => ?_
  · cases exit with
    | true => exact adds_pure _
    | false => exact back
  · cases status with
    | error failure => cases succeeds
    | ok _ => rfl

theorem Adds.eachThen {body : ι → Check α ω (Except ε Unit)} {elements : List ι}
    (inside : ∀ element ∈ elements, Adds seen Succeeds fits (body element)) (back : Adds seen Succeeds fits rest) :
    Adds seen Succeeds fits (eachThen body elements rest) := by
  induction elements with
  | nil => exact back
  | cons element elements ih =>
    exact (inside element (by simp)).orExit (ih fun later member => inside later (by simp [member]))

/-- The entries of a run that starts from nothing, with all of its events seen. -/
theorem Adds.run {failFast : Bool} (adds : Adds (fun event => event ∈ (part failFast {}).2.trace) okay fits part)
    (okayed : okay (part failFast {}).1) : ∀ entry ∈ (part failFast {}).2.entries, fits entry := by
  obtain ⟨late, events, run, fine⟩ := adds failFast {}
  have entries : (part failFast {}).2.entries = late := by rw [run]; rfl
  have trace : (part failFast {}).2.trace = events := by rw [run]; rfl
  rw [entries]
  exact fine (fun event among => trace ▸ among) okayed

end Additions

section Positions

/-- The entries from a position on are turned from entries of one kind into entries of
another, with those that are added. -/
def Turns (seen : ω → Prop) (okay : β → Prop) (before after : α → Prop) (part : Nat → Check α ω β) : Prop :=
  ∀ (failFast : Bool) (journal : Journal α ω) (start : Nat), start ≤ journal.entries.length → ∃ late events,
    (part start failFast journal).2 = ⟨journal.entries.take start ++ late, journal.trace ++ events⟩ ∧
      ((∀ event ∈ events, seen event) → okay (part start failFast journal).1 →
        (∀ entry ∈ journal.entries.drop start, before entry) → ∀ entry ∈ late, after entry)

theorem Adds.turns {part : Check α ω β} (inside : Adds seen okay after part) (weaker : ∀ entry, before entry → after entry) :
    Turns seen okay before after fun _ => part := by
  intro failFast journal start _
  obtain ⟨late, events, run, fine⟩ := inside failFast journal
  refine ⟨journal.entries.drop start ++ late, events, ?_, fun sight okayed fitting entry member => ?_⟩
  · rw [run, ← List.append_assoc, List.take_append_drop]
  · rcases List.mem_append.mp member with old | new
    · exact weaker entry (fitting entry old)
    · exact fine sight okayed entry new

theorem turns_edit {change : α → α} {rest : Check α ω γ} (moves : ∀ entry, before entry → after (change entry))
    (back : Adds seen okay' after rest) :
    Turns seen okay' before after fun start => edit start change >>= fun _ => rest := by
  intro failFast journal start within
  have size : (journal.entries.take start).length = start := List.length_take_of_le within
  obtain ⟨late, events, run, fine⟩ := back failFast (journal.editFrom start change)
  change ∃ late events, (rest failFast (journal.editFrom start change)).2 = _ ∧
    (_ → okay' (rest failFast (journal.editFrom start change)).1 → _)
  refine ⟨(journal.entries.drop start).map change ++ late, events, ?_, fun sight okayed fitting entry member => ?_⟩
  · rw [run]
    simp only [Journal.editFrom, List.append_assoc]
  · rcases List.mem_append.mp member with old | new
    · obtain ⟨inner, found, rfl⟩ := List.mem_map.mp old
      exact moves inner (fitting inner found)
    · exact fine sight okayed entry new

/-- A result that is not okay tells nothing. -/
theorem turns_failed {value : γ} (failed : ¬okay' value) :
    Turns seen okay' before after fun _ => (pure value : Check α ω γ) :=
  fun _ journal start _ => ⟨journal.entries.drop start, [], by simp [pure_apply], fun _ okayed => absurd okayed failed⟩

theorem Turns.bindOf {part : Nat → Check α ω β} {next : Nat → β → Check α ω γ} {holds : β → Prop}
    (first : Turns seen okay before between part) (returns : ∀ start, Returns holds (part start))
    (second : ∀ value, holds value → Turns seen okay' between after fun start => next start value)
    (tells : ∀ start value failFast journal, okay' (next start value failFast journal).1 → okay value) :
    Turns seen okay' before after fun start => part start >>= next start := by
  intro failFast journal start within
  obtain ⟨early, events, run, fine⟩ := first failFast journal start within
  have long : start ≤ (part start failFast journal).2.entries.length := by
    rw [run, List.length_append, List.length_take]
    omega
  obtain ⟨late, events', run', fine'⟩ := second _ (returns start failFast journal) failFast _ start long
  have size : (journal.entries.take start).length = start := List.length_take_of_le within
  have front : (journal.entries.take start ++ early).take start = journal.entries.take start := List.take_left' size
  have back : (journal.entries.take start ++ early).drop start = early := List.drop_left' size
  change ∃ late events, (next start (part start failFast journal).1 failFast (part start failFast journal).2).2 = _ ∧
    (_ → okay' (next start (part start failFast journal).1 failFast (part start failFast journal).2).1 → _)
  refine ⟨late, events ++ events', ?_, fun sight okayed fitting => ?_⟩
  · rw [run', run, front, List.append_assoc]
  · refine fine' (fun event among => sight event (List.mem_append_right _ among)) okayed ?_
    rw [run, back]
    exact fine (fun event among => sight event (List.mem_append_left _ among)) (tells _ _ _ _ okayed) fitting

/-- What follows a part may depend on whether it has added entries. -/
theorem Adds.grownThen {part : Check α ω β} {next : Nat → β × Bool → Check α ω γ} (inside : Adds seen okay fits part)
    (grew : ∀ result, Turns seen okay' (fun entry => before entry ∨ fits entry) after fun start => next start (result, true))
    (same : ∀ result, Turns seen okay' before after fun start => next start (result, false))
    (tells : ∀ start result failFast journal, okay' (next start result failFast journal).1 → okay result.1) :
    Turns seen okay' before after fun start => Check.grown part >>= next start := by
  intro failFast journal start within
  obtain ⟨early, events, run, fine⟩ := inside failFast journal
  change ∃ late events, (next start (_, decide ((part failFast journal).2.entries.length > journal.entries.length))
    failFast (part failFast journal).2).2 = _ ∧ (_ → okay' (next start _ failFast _).1 → _)
  cases early with
  | nil =>
    have unchanged : (part failFast journal).2.entries = journal.entries := by rw [run]; exact List.append_nil _
    have none : decide ((part failFast journal).2.entries.length > journal.entries.length) = false := by simp [unchanged]
    rw [none]
    obtain ⟨late, events', run', fine'⟩ := same _ failFast (part failFast journal).2 start (unchanged ▸ within)
    refine ⟨late, events ++ events', ?_, fun sight okayed fitting => ?_⟩
    · rw [run', run, List.append_nil, List.append_assoc]
    · refine fine' (fun event among => sight event (List.mem_append_right _ among)) okayed ?_
      rwa [unchanged]
  | cons entry rest =>
    have longer : (part failFast journal).2.entries = journal.entries ++ entry :: rest := by rw [run]
    have some : decide ((part failFast journal).2.entries.length > journal.entries.length) = true := by simp [longer]
    rw [some]
    have long : start ≤ (part failFast journal).2.entries.length := by
      rw [longer, List.length_append]
      omega
    obtain ⟨late, events', run', fine'⟩ := grew _ failFast (part failFast journal).2 start long
    refine ⟨late, events ++ events', ?_, fun sight okayed fitting => ?_⟩
    · rw [run', run, List.take_append_of_le_length within, List.append_assoc]
    · refine fine' (fun event among => sight event (List.mem_append_right _ among)) okayed fun found member => ?_
      rw [longer, List.drop_append_of_le_length within] at member
      rcases List.mem_append.mp member with old | new
      · exact .inl (fitting found old)
      · exact .inr (fine (fun event among => sight event (List.mem_append_left _ among)) (tells _ _ _ _ okayed) found new)

/-- A part in a scope of its own, and what follows it in the same scope. -/
theorem Turns.scopeGrown {part : Nat → Check α ω β} {next : Nat → β × Bool → Check α ω γ}
    (inside : Turns seen okay before between part)
    (grew : ∀ result, Turns seen okay' between after fun start => next start (result, true))
    (same : ∀ result, Turns seen okay' before after fun start => next start (result, false))
    (tells : ∀ start result failFast journal, okay' (next start result failFast journal).1 → okay result.1) :
    Adds seen okay' after (Check.scope fun start => Check.grown (part start) >>= next start) := by
  intro failFast journal
  let start := journal.entries.length
  obtain ⟨early, events, run, fine⟩ := inside failFast journal start (Nat.le_refl _)
  have first : ∀ entry ∈ journal.entries.drop start, before entry := by
    rw [List.drop_length]
    exact fun _ impossible => by cases impossible
  have entries : (part start failFast journal).2.entries = journal.entries ++ early := by rw [run, List.take_length]
  have within : start ≤ (part start failFast journal).2.entries.length := by
    rw [entries, List.length_append]
    exact Nat.le_add_right _ _
  have front : (part start failFast journal).2.entries.take start = journal.entries := by rw [entries, List.take_left]
  have back : (part start failFast journal).2.entries.drop start = early := by rw [entries, List.drop_left]
  change ∃ late events, (next start (_, decide ((part start failFast journal).2.entries.length > journal.entries.length))
    failFast (part start failFast journal).2).2 = _ ∧ (_ → okay' (next start _ failFast _).1 → _)
  cases early with
  | nil =>
    have none : decide ((part start failFast journal).2.entries.length > journal.entries.length) = false := by simp [entries]
    rw [none]
    obtain ⟨late, events', run', fine'⟩ := same _ failFast (part start failFast journal).2 start within
    refine ⟨late, events ++ events', ?_, fun sight okayed => ?_⟩
    · rw [run', front, run, List.append_assoc]
    · refine fine' (fun event among => sight event (List.mem_append_right _ among)) okayed ?_
      rw [back]
      exact fun _ impossible => by cases impossible
  | cons entry rest =>
    have some : decide ((part start failFast journal).2.entries.length > journal.entries.length) = true := by simp [entries]
    rw [some]
    obtain ⟨late, events', run', fine'⟩ := grew _ failFast (part start failFast journal).2 start within
    refine ⟨late, events ++ events', ?_, fun sight okayed => ?_⟩
    · rw [run', front, run, List.append_assoc]
    · refine fine' (fun event among => sight event (List.mem_append_right _ among)) okayed ?_
      rw [back]
      exact fine (fun event among => sight event (List.mem_append_left _ among)) (tells _ _ _ _ okayed) first

end Positions

end Check
end Protovalidate.Foundation
