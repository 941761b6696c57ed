/-! Checks that append entries to a journal and may be left early: in a failing
state, and, where the run fails fast, at the first entry. The flag is constant
during a run; the trace is there for the proofs and is never read. -/

namespace Protovalidate.Foundation

structure Journal (α ω : Type) where
  entries : List α := []
  trace : List ω := []

/-- A computation over a journal that knows whether the run fails fast. -/
abbrev Check (α ω β : Type) := ReaderT Bool (StateM (Journal α ω)) β

variable {α ω β γ ε ι κ : Type}

namespace Journal

/-- The journal of a run that started where another one had got to. -/
def extend (base late : Journal α ω) : Journal α ω := ⟨base.entries ++ late.entries, base.trace ++ late.trace⟩

/-- Change every entry from a position on. -/
def editFrom (start : Nat) (edit : α → α) (journal : Journal α ω) : Journal α ω :=
  { journal with entries := journal.entries.take start ++ (journal.entries.drop start).map edit }

theorem extend_nil (journal : Journal α ω) : journal.extend {} = journal := by
  simp [extend]

theorem editFrom_extend (base journal : Journal α ω) (start : Nat) (edit : α → α) :
    (base.extend journal).editFrom (base.entries.length + start) edit =
      base.extend (journal.editFrom start edit) := by
  have before : base.entries.drop (base.entries.length + start) = [] := List.drop_eq_nil_of_le (by omega)
  have whole : base.entries.take (base.entries.length + start) = base.entries := List.take_of_length_le (by omega)
  simp [extend, editFrom, List.take_append, List.drop_append, before, whole, -List.map_drop]

theorem editFrom_length (journal : Journal α ω) (start : Nat) (edit : α → α) :
    (journal.editFrom start edit).entries.length = journal.entries.length := by
  simp only [editFrom, List.length_append, List.length_take, List.length_map, List.length_drop]
  omega

theorem editFrom_isEmpty (journal : Journal α ω) (start : Nat) (edit : α → α) :
    (journal.editFrom start edit).entries.isEmpty = journal.entries.isEmpty := by
  cases entries : journal.entries with
  | nil => simp [editFrom, entries]
  | cons entry rest => cases start <;> simp [editFrom, entries]

end Journal

namespace Check

def add (entry : α) : Check α ω Unit := fun _ journal =>
  ((), { journal with entries := journal.entries ++ [entry] })

def note (event : ω) : Check α ω Unit := fun _ journal => ((), { journal with trace := journal.trace ++ [event] })

/-- Change the entries from a position on. -/
def edit (start : Nat) (change : α → α) : Check α ω Unit := fun _ journal => ((), journal.editFrom start change)

/-- Changes that keep entries of the same key that way. -/
def Respects (key : α → κ) (change change' : α → α) : Prop :=
  ∀ entry entry', key entry = key entry' → key (change entry) = key (change' entry')

/-- Remember the position at which a part starts. -/
def scope (part : Nat → Check α ω β) : Check α ω β := fun failFast journal =>
  part journal.entries.length failFast journal

/-- Success, for statuses. -/
def Succeeds (status : Except ε Unit) : Prop := status = .ok ()

/-- Whether a part that ended in a status is the last one. -/
def exits (status : Except ε Unit) : Check α ω Bool := fun failFast journal =>
  (!status.isOk || (failFast && !journal.entries.isEmpty), journal)

/-- Change the entries that a part adds, if its result allows it. -/
def framedIf (allows : β → Bool) (change : α → α) (part : Check α ω β) : Check α ω β := scope fun start => do
  let result ← part
  if allows result then do
    edit start change
    pure result
  else pure result

/-- Change the entries that a part adds. -/
def framed (change : α → α) (part : Check α ω β) : Check α ω β := framedIf (fun _ => true) change part

/-- A part, and whether it has added entries. -/
def grown (part : Check α ω β) : Check α ω (β × Bool) := fun failFast journal =>
  (((part failFast journal).1, decide ((part failFast journal).2.entries.length > journal.entries.length)),
    (part failFast journal).2)

/-- Whether the run fails fast. -/
def failsFast : Check α ω Bool := fun failFast journal => (failFast, journal)

/-- Go on with the rest unless the first part exits. -/
def orExit (first rest : Check α ω (Except ε Unit)) : Check α ω (Except ε Unit) := do
  let status ← first
  if ← exits status then pure status else rest

/-- Go on with the rest unless the first part fails. -/
def orFail (first rest : Check α ω (Except ε Unit)) : Check α ω (Except ε Unit) := do
  match ← first with
  | .error failure => pure (.error failure)
  | .ok () => rest

/-- One part for each element, left at the first that exits. -/
def eachThen (body : ι → Check α ω (Except ε Unit)) : List ι → Check α ω (Except ε Unit) →
    Check α ω (Except ε Unit)
  | [], after => after
  | element :: elements, after => orExit (body element) (eachThen body elements after)

theorem pure_apply (value : β) (failFast : Bool) (journal : Journal α ω) :
    (pure value : Check α ω β) failFast journal = (value, journal) := rfl

theorem bind_apply (part : Check α ω β) (next : β → Check α ω γ) (failFast : Bool) (journal : Journal α ω) :
    (part >>= next) failFast journal =
      next (part failFast journal).1 failFast (part failFast journal).2 := rfl

theorem orFail_apply (first rest : Check α ω (Except ε Unit)) (failFast : Bool) (journal : Journal α ω) :
    orFail first rest failFast journal =
      match first failFast journal with
      | (.error failure, after) => (.error failure, after)
      | (.ok (), after) => rest failFast after := by
  rw [orFail, bind_apply]
  cases first failFast journal with
  | mk status after => cases status <;> rfl

theorem exits_apply (status : Except ε Unit) (leave stay : Check α ω β) (failFast : Bool) (journal : Journal α ω) :
    (do if ← exits status then leave else stay) failFast journal =
      if (!status.isOk || (failFast && !journal.entries.isEmpty)) = true then leave failFast journal
      else stay failFast journal := by
  change (if (!status.isOk || (failFast && !journal.entries.isEmpty)) = true then leave else stay) failFast journal = _
  split <;> rfl

theorem orExit_apply (first rest : Check α ω (Except ε Unit)) (failFast : Bool) (journal : Journal α ω) :
    orExit first rest failFast journal =
      match first failFast journal with
      | (.error failure, after) => (.error failure, after)
      | (.ok (), after) => if (failFast && !after.entries.isEmpty) = true then (.ok (), after) else rest failFast after := by
  rw [orExit, bind_apply, exits_apply]
  cases first failFast journal with
  | mk status after =>
    cases status with
    | error failure => rfl
    | ok _ =>
      simp only [Except.isOk, Except.toBool, Bool.not_true, Bool.false_or]
      rfl

theorem framedIf_apply (allows : β → Bool) (change : α → α) (part : Check α ω β) (failFast : Bool)
    (journal : Journal α ω) : framedIf allows change part failFast journal = ((part failFast journal).1,
      if allows (part failFast journal).1 = true then
        (part failFast journal).2.editFrom journal.entries.length change
      else (part failFast journal).2) := by
  change (if allows (part failFast journal).1 = true then
    edit journal.entries.length change >>= fun _ => pure (part failFast journal).1
    else pure (part failFast journal).1 : Check α ω β) failFast (part failFast journal).2 = _
  split <;> rfl

theorem framedIf_result (allows : β → Bool) (change : α → α) (part : Check α ω β) (failFast : Bool)
    (journal : Journal α ω) : (framedIf allows change part failFast journal).1 = (part failFast journal).1 := by
  rw [framedIf_apply]

/-- The test whether there is something to change can be left out. -/
theorem framed_of_grown (change : α → α) (part : Check α ω β) :
    (scope fun start => do
      let (result, grew) ← grown part
      if grew then do
        edit start change
        pure result
      else pure result) = framed change part := by
  funext failFast journal
  change (match grown part failFast journal with
    | ((result, grew), after) => (if grew = true then (edit journal.entries.length change >>= fun _ => pure result)
        else pure result : Check α ω β) failFast after) = _
  simp only [grown, framed, framedIf, scope, ↓reduceIte, bind_apply]
  split
  · rfl
  · rename_i unchanged
    have short : (part failFast journal).2.entries.length ≤ journal.entries.length := by simpa using unchanged
    have same : (part failFast journal).2.editFrom journal.entries.length change = (part failFast journal).2 := by
      simp only [Journal.editFrom, List.take_of_length_le short, List.drop_eq_nil_of_le short, List.map_nil,
        List.append_nil]
    exact congrArg (Prod.mk (part failFast journal).1) same.symm

/-- What a check does to a journal: a run that does not fail fast adds the same to
every journal, parts that edit from a position shift with it, and in either mode
the entries before that position stay. -/
structure SteadyAt (part : Nat → Check α ω β) : Prop where
  moves : ∀ (base journal : Journal α ω) (start : Nat),
    part (base.entries.length + start) false (base.extend journal) =
      ((part start false journal).1, base.extend (part start false journal).2)
  keeps : ∀ (failFast : Bool) (journal : Journal α ω) (start : Nat), start ≤ journal.entries.length →
    ∃ late, (part start failFast journal).2.entries = journal.entries.take start ++ late

abbrev Steady (part : Check α ω β) : Prop := SteadyAt fun _ => part

/-- The entries that were there before stay. -/
theorem Steady.extends {part : Check α ω β} (steady : Steady part) (failFast : Bool) (journal : Journal α ω) :
    ∃ late, (part failFast journal).2.entries = journal.entries ++ late := by
  obtain ⟨late, same⟩ := steady.keeps failFast journal journal.entries.length (Nat.le_refl _)
  exact ⟨late, by rw [same, List.take_length]⟩

theorem steady_of_extends {part : Check α ω β}
    (moves : ∀ base journal : Journal α ω, part false (base.extend journal) =
      ((part false journal).1, base.extend (part false journal).2))
    (grows : ∀ failFast journal, ∃ late, (part failFast journal).2.entries = journal.entries ++ late) :
    Steady part where
  moves base journal _ := moves base journal
  keeps failFast journal start _ := by
    obtain ⟨late, same⟩ := grows failFast journal
    exact ⟨journal.entries.drop start ++ late, by rw [same, ← List.append_assoc, List.take_append_drop]⟩

section Steadiness

variable {part : Nat → Check α ω β} {first rest : Check α ω (Except ε Unit)}

theorem steady_pure (value : β) : Steady (pure value : Check α ω β) :=
  steady_of_extends (fun _ _ => rfl) fun _ _ => ⟨[], by simp [pure_apply]⟩

theorem steady_add (entry : α) : Steady (add entry : Check α ω Unit) :=
  steady_of_extends (fun base journal => by simp [add, Journal.extend]) fun _ _ => ⟨[entry], rfl⟩

theorem steady_note (event : ω) : Steady (note event : Check α ω Unit) :=
  steady_of_extends (fun base journal => by simp [note, Journal.extend]) fun _ _ => ⟨[], by simp [note]⟩

theorem steady_exits (status : Except ε Unit) : Steady (exits status : Check α ω Bool) :=
  steady_of_extends (fun _ _ => by simp [exits]) fun _ _ => ⟨[], by simp [exits]⟩

theorem steady_failsFast : Steady (failsFast : Check α ω Bool) :=
  steady_of_extends (fun _ _ => rfl) fun _ _ => ⟨[], by simp [failsFast]⟩

theorem steadyAt_edit (change : α → α) : SteadyAt fun start => (edit start change : Check α ω Unit) where
  moves base journal start := by simp [edit, Journal.editFrom_extend]
  keeps _ journal start _ := ⟨(journal.entries.drop start).map change, rfl⟩

theorem SteadyAt.bind {next : Nat → β → Check α ω γ} (first : SteadyAt part)
    (second : ∀ value, SteadyAt fun start => next start value) :
    SteadyAt fun start => part start >>= next start where
  moves base journal start := by
    simp only [bind_apply, first.moves base journal start]
    exact (second _).moves base _ start
  keeps failFast journal start within := by
    obtain ⟨late, same⟩ := first.keeps failFast journal start within
    have long : start ≤ (part start failFast journal).2.entries.length := by
      rw [same, List.length_append, List.length_take]
      omega
    obtain ⟨more, same'⟩ := (second (part start failFast journal).1).keeps failFast _ start long
    refine ⟨more, same'.trans ?_⟩
    rw [same, List.take_append_of_le_length (by rw [List.length_take]; omega), List.take_take, Nat.min_self]

theorem SteadyAt.scope (inside : SteadyAt part) : Steady (scope part) := by
  refine steady_of_extends (fun base journal => ?_) fun failFast journal => ?_
  · have moved := inside.moves base journal journal.entries.length
    rwa [show base.entries.length + journal.entries.length = (base.extend journal).entries.length by
      simp [Journal.extend]] at moved
  · obtain ⟨late, same⟩ := inside.keeps failFast journal journal.entries.length (Nat.le_refl _)
    exact ⟨late, by rw [Check.scope, same, List.take_length]⟩

theorem Steady.framedIf {part : Check α ω β} (inside : Steady part) (allows : β → Bool) (change : α → α) :
    Steady (framedIf allows change part) := by
  refine SteadyAt.scope (SteadyAt.bind inside fun result => ?_)
  cases allows result with
  | true => exact SteadyAt.bind (steadyAt_edit change) fun _ => steady_pure result
  | false => exact steady_pure result

theorem Steady.framed {part : Check α ω β} (inside : Steady part) (change : α → α) : Steady (framed change part) :=
  inside.framedIf _ change

theorem SteadyAt.grown (inside : SteadyAt part) : SteadyAt fun start => grown (part start) where
  moves base journal start := by
    simp only [Check.grown, inside.moves base journal start]
    simp [Journal.extend]
  keeps := inside.keeps

theorem SteadyAt.orFail {first rest : Nat → Check α ω (Except ε Unit)} (before : SteadyAt first)
    (after : SteadyAt rest) : SteadyAt fun start => orFail (first start) (rest start) := by
  refine before.bind fun status => ?_
  cases status with
  | error failure => exact steady_pure _
  | ok _ => exact after

theorem Steady.orExit (before : Steady first) (after : Steady rest) : Steady (orExit first rest) := by
  refine SteadyAt.bind before fun status => SteadyAt.bind (steady_exits status) fun answer => ?_
  cases answer with
  | true => exact steady_pure status
  | false => exact after

theorem Steady.eachThen {body : ι → Check α ω (Except ε Unit)} {elements : List ι}
    (inside : ∀ element ∈ elements, Steady (body element)) (after : Steady rest) :
    Steady (eachThen body elements rest) := by
  induction elements with
  | nil => exact after
  | cons element elements ih =>
    exact (inside element (by simp)).orExit (ih fun later member => inside later (by simp [member]))

end Steadiness

section FullRuns

variable {part : Check α ω β} {next : β → Check α ω γ} {first rest : Check α ω (Except ε Unit)}

/-- What a check does on its own, in a run that does not fail fast. -/
def alone (part : Check α ω β) : β × Journal α ω := part false {}

/-- What a steady check does to any journal is what it does on its own. -/
theorem Steady.apply (steady : Steady part) (journal : Journal α ω) :
    part false journal = ((alone part).1, journal.extend (alone part).2) := by
  have moved := steady.moves journal {} 0
  rwa [Journal.extend_nil] at moved

theorem alone_pure (value : β) : alone (pure value : Check α ω β) = (value, {}) := rfl

theorem alone_bind (steady : ∀ value, Steady (next value)) :
    alone (part >>= next) =
      ((alone (next (alone part).1)).1, (alone part).2.extend (alone (next (alone part).1)).2) :=
  (steady _).apply _

theorem alone_framedIf (allows : β → Bool) (change : α → α) (part : Check α ω β) :
    alone (framedIf allows change part) =
      ((alone part).1, if allows (alone part).1 = true then
        { (alone part).2 with entries := (alone part).2.entries.map change } else (alone part).2) := by
  rw [alone, framedIf_apply]
  simp only [Journal.editFrom, List.length_nil, List.take_zero, List.drop_zero, List.nil_append]
  rfl

theorem alone_framed (change : α → α) (part : Check α ω β) :
    alone (framed change part) = ((alone part).1, { (alone part).2 with entries := (alone part).2.entries.map change }) :=
  alone_framedIf _ change part

theorem alone_orFail (steady : Steady rest) :
    alone (orFail first rest) =
      match (alone first).1 with
      | .error failure => (.error failure, (alone first).2)
      | .ok () => ((alone rest).1, (alone first).2.extend (alone rest).2) := by
  have run := orFail_apply first rest false {}
  rw [alone, run, alone]
  cases first false {} with
  | mk status after =>
    cases status with
    | error failure => rfl
    | ok _ => exact steady.apply after

/-- A run that does not fail fast is left in a failing state only. -/
theorem alone_orExit : alone (orExit first rest) = alone (orFail first rest) := by
  rw [alone, alone, orFail_apply, orExit_apply]
  cases first false {} with
  | mk status after => cases status <;> rfl

theorem alone_orFail_ok (steady : Steady rest) :
    (alone (orFail first rest)).1 = .ok () ↔ (alone first).1 = .ok () ∧ (alone rest).1 = .ok () := by
  rw [alone_orFail steady]
  cases (alone first).1 with
  | error failure => simp
  | ok _ => simp

theorem alone_orFail_journal (steady : Steady rest) (succeeds : (alone first).1 = .ok ()) :
    (alone (orFail first rest)).2 = (alone first).2.extend (alone rest).2 := by
  rw [alone_orFail steady, succeeds]

/-- Only what the rest does on its own matters. -/
theorem alone_orFail_congr {rest' : Check α ω (Except ε Unit)} (steady : Steady rest) (steady' : Steady rest')
    (same : alone rest = alone rest') : alone (orFail first rest) = alone (orFail first rest') := by
  rw [alone_orFail steady, alone_orFail steady', same]

theorem alone_orFail_pure (first : Check α ω (Except ε Unit)) :
    alone (orFail first (pure (.ok ()))) = alone first := by
  rw [alone_orFail (steady_pure _)]
  match first.alone with
  | (.error failure, after) => rfl
  | (.ok (), after) => simp [alone_pure, Journal.extend_nil]

theorem alone_eachThen_ok {body : ι → Check α ω (Except ε Unit)} {elements : List ι}
    (steady : ∀ element ∈ elements, Steady (body element)) (steadyRest : Steady rest) :
    (alone (eachThen body elements rest)).1 = .ok () ↔
      (∀ element ∈ elements, (alone (body element)).1 = .ok ()) ∧ (alone rest).1 = .ok () := by
  induction elements with
  | nil => simp [eachThen]
  | cons element elements ih =>
    have tail : ∀ later ∈ elements, Steady (body later) := fun later member => steady later (by simp [member])
    have steadyTail := Steady.eachThen tail steadyRest
    rw [eachThen, alone_orExit, alone_orFail_ok steadyTail, ih tail]
    simp [and_assoc]

/-- A loop that succeeds collects what its rounds add on their own. -/
theorem alone_eachThen_journal {body : ι → Check α ω (Except ε Unit)} {elements : List ι}
    (steady : ∀ element ∈ elements, Steady (body element)) (steadyRest : Steady rest)
    (succeeds : ∀ element ∈ elements, (alone (body element)).1 = .ok ()) :
    (alone (eachThen body elements rest)).2 =
      Journal.extend ⟨elements.flatMap fun element => (alone (body element)).2.entries,
        elements.flatMap fun element => (alone (body element)).2.trace⟩ (alone rest).2 := by
  induction elements with
  | nil => simp [eachThen, Journal.extend]
  | cons element elements ih =>
    have tail : ∀ later ∈ elements, Steady (body later) := fun later member => steady later (by simp [member])
    have steadyTail := Steady.eachThen tail steadyRest
    rw [eachThen, alone_orExit, alone_orFail_journal steadyTail (succeeds element (by simp)),
      ih tail fun later member => succeeds later (by simp [member])]
    simp [Journal.extend, List.append_assoc]

end FullRuns

section Invariants

variable {fits : α → Prop} {part : Check α ω β} {first rest : Check α ω (Except ε Unit)}

/-- Where all entries fit, all entries fit after the check. -/
def Maintains (fits : α → Prop) (part : Check α ω β) : Prop := ∀ (failFast : Bool) (journal : Journal α ω),
  (∀ entry ∈ journal.entries, fits entry) → ∀ entry ∈ (part failFast journal).2.entries, fits entry

theorem maintains_pure (value : β) : Maintains fits (pure value : Check α ω β) := fun _ _ before => before

theorem maintains_note (event : ω) : Maintains fits (note event : Check α ω Unit) := fun _ _ before => before

theorem maintains_exits (status : Except ε Unit) : Maintains fits (exits status : Check α ω Bool) :=
  fun _ _ before => before

theorem maintains_add {entry : α} (fitting : fits entry) : Maintains fits (add entry : Check α ω Unit) := by
  intro _ journal before later member
  rcases List.mem_append.mp member with old | new
  · exact before later old
  · exact List.mem_singleton.mp new ▸ fitting

theorem maintains_edit (start : Nat) {change : α → α} (respects : ∀ entry, fits entry → fits (change entry)) :
    Maintains fits (edit start change : Check α ω Unit) := by
  intro _ journal before later member
  rcases List.mem_append.mp member with old | new
  · exact before later (List.mem_of_mem_take old)
  · obtain ⟨entry, found, rfl⟩ := List.mem_map.mp new
    exact respects entry (before entry (List.mem_of_mem_drop found))

theorem Maintains.bind {next : β → Check α ω γ} (first : Maintains fits part)
    (second : ∀ value, Maintains fits (next value)) : Maintains fits (part >>= next) :=
  fun failFast journal before => second _ failFast _ (first failFast journal before)

theorem Maintains.scope {part : Nat → Check α ω β} (inside : ∀ start, Maintains fits (part start)) :
    Maintains fits (scope part) := fun failFast journal => inside _ failFast journal

theorem Maintains.grown (inside : Maintains fits part) : Maintains fits (grown part) := inside

theorem Maintains.framedIf (inside : Maintains fits part) (allows : β → Bool) {change : α → α}
    (respects : ∀ entry, fits entry → fits (change entry)) : Maintains fits (framedIf allows change part) := by
  refine Maintains.scope fun start => Maintains.bind inside fun result => ?_
  cases allows result with
  | true => exact Maintains.bind (maintains_edit start respects) fun _ => maintains_pure result
  | false => exact maintains_pure result

theorem Maintains.alone (inside : Maintains fits part) : ∀ entry ∈ part.alone.2.entries, fits entry :=
  inside false {} fun _ impossible => by cases impossible

/-- What a check that succeeds on its own adds. -/
def Yields (fits : α → Prop) (part : Check α ω (Except ε Unit)) : Prop :=
  part.alone.1 = .ok () → ∀ entry ∈ part.alone.2.entries, fits entry

theorem Maintains.yields (inside : Maintains fits first) : Yields fits first := fun _ => inside.alone

theorem Yields.bind {next : β → Check α ω (Except ε Unit)} (before : Maintains fits part)
    (after : ∀ value, Yields fits (next value)) (steady : ∀ value, Steady (next value)) : Yields fits (part >>= next) := by
  intro succeeds entry member
  rw [alone_bind steady] at succeeds member
  rcases List.mem_append.mp member with early | late
  · exact before.alone entry early
  · exact after _ succeeds entry late

theorem Yields.orFail (before : Yields fits first) (after : Yields fits rest) (steady : Steady rest) :
    Yields fits (orFail first rest) := by
  intro succeeds entry member
  obtain ⟨firstOk, restOk⟩ := (alone_orFail_ok steady).mp succeeds
  rw [alone_orFail_journal steady firstOk] at member
  rcases List.mem_append.mp member with early | late
  · exact before firstOk entry early
  · exact after restOk entry late

theorem Yields.orExit (before : Yields fits first) (after : Yields fits rest) (steady : Steady rest) :
    Yields fits (orExit first rest) := by
  have orFail := before.orFail after steady
  rwa [Yields, ← alone_orExit] at orFail

end Invariants

end Check
end Protovalidate.Foundation
