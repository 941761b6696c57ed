import Protovalidate.Foundation.Events
import Protovalidate.Foundation.FailFast

/-! Whether a run that fails fast comes to a halt: once an entry has been marked in the
trace, nothing acts any more. Each check has an exact condition under which it does not
halt, and the conditions compose. -/

namespace Protovalidate.Foundation
namespace Check

variable {α ω β γ ε ι κ : Type} {marks acts : ω → Prop}

section Traces

variable {early late : List ω}

/-- Nothing acts behind a mark. -/
def Halted (marks acts : ω → Prop) (trace : List ω) : Prop := trace.Pairwise fun earlier later => marks earlier → ¬acts later

theorem halted_append (unmarked : ∀ event ∈ early, ¬marks event) :
    Halted marks acts (early ++ late) ↔ Halted marks acts late := by
  rw [Halted, List.pairwise_append]
  constructor
  · exact fun both => both.2.1
  · intro halted
    refine ⟨?_, halted, fun earlier among _ _ marked => (unmarked earlier among marked).elim⟩
    exact List.Pairwise.imp_of_mem (fun among _ _ marked => (unmarked _ among marked).elim)
      (List.pairwise_of_forall fun _ _ => trivial)

theorem halted_unmarked (unmarked : ∀ event ∈ early, ¬marks event) : Halted marks acts early := by
  have whole : Halted marks acts (early ++ []) ↔ Halted marks acts [] := halted_append unmarked
  rw [List.append_nil] at whole
  exact whole.mpr List.Pairwise.nil

theorem not_halted (marked : ∃ event ∈ early, marks event) (acted : ∃ event ∈ late, acts event) :
    ¬Halted marks acts (early ++ late) := by
  intro halted
  obtain ⟨mark, inEarly, isMark⟩ := marked
  obtain ⟨act, inLate, isAct⟩ := acted
  exact (List.pairwise_append.mp halted).2.2 mark inEarly act inLate isMark isAct

end Traces

section Runs

variable {leak leak' : Prop} {trace : List ω} {after final : Journal α ω}

/-- A run from a journal without entries that halts unless there is a leak. The trace
tells whether it has added an entry, and it adds one at most unless there is a leak. -/
def Halts (marks acts : ω → Prop) (leak : Prop) (trace : List ω) (after : Journal α ω) : Prop := ∃ late,
  after.trace = trace ++ late ∧ ((∃ event ∈ late, marks event) ↔ after.entries ≠ []) ∧
    (Halted marks acts late ↔ ¬leak) ∧ (¬leak → after.entries.length ≤ 1)

theorem halts_unmarked {late : List ω} (unmarked : ∀ event ∈ late, ¬marks event) :
    Halts marks acts False trace (⟨[], trace ++ late⟩ : Journal α ω) := by
  refine ⟨late, rfl, ?_, iff_of_true (halted_unmarked unmarked) not_false, fun _ => Nat.zero_le 1⟩
  exact iff_of_false (fun ⟨event, among, marked⟩ => unmarked event among marked) fun some => some rfl

theorem halts_idle : Halts marks acts False trace (⟨[], trace⟩ : Journal α ω) := by
  have idle : Halts marks acts False trace (⟨[], trace ++ []⟩ : Journal α ω) :=
    halts_unmarked fun _ impossible => by cases impossible
  rwa [List.append_nil] at idle

theorem Halts.of_iff (halts : Halts marks acts leak trace after) (same : leak ↔ leak') : Halts marks acts leak' trace after := by
  rwa [← propext same]

/-- Without entries there has been no leak. -/
theorem Halts.quiet (halts : Halts marks acts leak trace after) (empty : after.entries = []) : ¬leak := by
  obtain ⟨late, _, marked, halted, _⟩ := halts
  refine halted.mp (halted_unmarked fun event among isMark => ?_)
  exact marked.mp ⟨event, among, isMark⟩ empty

/-- Only the number of the entries matters. -/
theorem Halts.edit (halts : Halts marks acts leak trace after) (sameTrace : final.trace = after.trace)
    (sameLength : final.entries.length = after.entries.length) : Halts marks acts leak trace final := by
  obtain ⟨late, grown, marked, halted, single⟩ := halts
  refine ⟨late, sameTrace.trans grown, marked.trans ?_, halted, fun noLeak => sameLength ▸ single noLeak⟩
  rw [← List.length_pos_iff, ← List.length_pos_iff, sameLength]

/-- A run that goes on behind one that has added nothing. -/
theorem Halts.next (halts : Halts marks acts leak trace after) (empty : after.entries = [])
    (later : Halts marks acts leak' after.trace final) : Halts marks acts leak' trace final := by
  obtain ⟨early, grown, marked, _, _⟩ := halts
  obtain ⟨late, grown', marked', halted', single'⟩ := later
  have unmarked : ∀ event ∈ early, ¬marks event := fun event among isMark => marked.mp ⟨event, among, isMark⟩ empty
  refine ⟨early ++ late, by rw [grown', grown, List.append_assoc], ?_, (halted_append unmarked).trans halted', single'⟩
  rw [← marked']
  constructor
  · rintro ⟨event, among, isMark⟩
    exact ⟨event, (List.mem_append.mp among).resolve_left fun early => unmarked event early isMark, isMark⟩
  · rintro ⟨event, among, isMark⟩
    exact ⟨event, List.mem_append.mpr (.inr among), isMark⟩

/-- A run that acts behind one that has added an entry. -/
theorem Halts.overrun (halts : Halts marks acts leak trace after) (found : after.entries ≠ []) (kept : final.entries ≠ [])
    (acting : ∃ late, final.trace = after.trace ++ late ∧ ∃ event ∈ late, acts event) :
    Halts marks acts True trace final := by
  obtain ⟨early, grown, marked, _, _⟩ := halts
  obtain ⟨late, grown', acted⟩ := acting
  have some := marked.mpr found
  refine ⟨early ++ late, by rw [grown', grown, List.append_assoc], ?_, ?_, fun noLeak => (noLeak trivial).elim⟩
  · obtain ⟨event, among, isMark⟩ := some
    exact iff_of_true ⟨event, List.mem_append.mpr (.inl among), isMark⟩ kept
  · exact iff_of_false (not_halted some acted) fun noLeak => noLeak trivial

/-- Behind a leak there is no way back. -/
theorem Halts.spoiled (halts : Halts marks acts leak trace after) (leaks : leak)
    (grows : ∃ late, final.trace = after.trace ++ late) (keeps : after.entries ≠ [] → final.entries ≠ []) :
    Halts marks acts True trace final := by
  obtain ⟨early, grown, marked, halted, _⟩ := halts
  obtain ⟨late, grown'⟩ := grows
  have unhalted : ¬Halted marks acts early := fun isHalted => halted.mp isHalted leaks
  have some : ∃ event ∈ early, marks event := by
    by_cases some : ∃ event ∈ early, marks event
    · exact some
    · exact (unhalted (halted_unmarked fun event among isMark => some ⟨event, among, isMark⟩)).elim
  refine ⟨early ++ late, by rw [grown', grown, List.append_assoc], ?_, ?_, fun noLeak => (noLeak trivial).elim⟩
  · obtain ⟨event, among, isMark⟩ := some
    exact iff_of_true ⟨event, List.mem_append.mpr (.inl among), isMark⟩ (keeps (marked.mp ⟨event, among, isMark⟩))
  · exact iff_of_false (fun isHalted => unhalted (List.pairwise_append.mp isHalted).1) fun noLeak => noLeak trivial

end Runs

section Parts

variable {leak leak' whole : Prop} {part : Check α ω β} {first rest : Check α ω (Except ε Unit)}

/-- A check that halts, in a run that fails fast, unless there is a leak. -/
def Stops (marks acts : ω → Prop) (leak : Prop) (part : Check α ω β) : Prop := ∀ trace : List ω,
  Halts marks acts leak trace (part true ⟨[], trace⟩).2

/-- A check that acts whatever the journal. -/
def Acting (acts : ω → Prop) (part : Check α ω β) : Prop := ∀ (failFast : Bool) (journal : Journal α ω),
  ∃ late, (part failFast journal).2.trace = journal.trace ++ late ∧ ∃ event ∈ late, acts event

/-- A check that has succeeded without an entry, so that the run goes on. -/
def Passed (part : Check α ω (Except ε Unit)) (trace : List ω) : Prop :=
  (part true ⟨[], trace⟩).1 = .ok () ∧ (part true ⟨[], trace⟩).2.entries = []

/-- A check that on its own succeeds without an entry. -/
def Passes (part : Check α ω (Except ε Unit)) : Prop := (alone part).1 = .ok () ∧ (alone part).2.entries = []

theorem passed_iff {key : α → κ} (agrees : Agrees key Succeeds first) (steady : Steady first) (trace : List ω) :
    Passed first trace ↔ Passes first := by
  have full := steady.apply ⟨[], trace⟩
  rw [Passed, Passes]
  obtain ⟨same, _⟩ | ⟨fastSome, fullSome, _⟩ := agrees trace
  · rw [same, full]
    rfl
  · rw [full] at fullSome
    exact iff_of_false (fun both => fastSome both.2) fun both => fullSome both.2

theorem stops_pure (value : β) : Stops marks acts False (pure value : Check α ω β) := fun _ => halts_idle

theorem Stops.of_iff (stops : Stops marks acts leak part) (same : leak ↔ leak') : Stops marks acts leak' part :=
  fun trace => (stops trace).of_iff same

theorem Stops.thenPure {next : β → Check α ω γ} (stops : Stops marks acts leak part)
    (pures : ∀ value, ∃ result, next value = pure result) : Stops marks acts leak (part >>= next) := by
  intro trace
  obtain ⟨result, same⟩ := pures (part true ⟨[], trace⟩).1
  rw [bind_apply, same]
  exact stops trace

theorem Stops.framedIf (stops : Stops marks acts leak part) (allows : β → Bool) (change : α → α) :
    Stops marks acts leak (framedIf allows change part) := by
  intro trace
  rw [framedIf_apply]
  refine (stops trace).edit ?_ ?_
  · split <;> rfl
  · split
    · exact Journal.editFrom_length _ _ _
    · rfl

theorem Stops.framed (stops : Stops marks acts leak part) (change : α → α) : Stops marks acts leak (framed change part) :=
  stops.framedIf _ change

/-- A part at whose end the run may be left. -/
theorem Stops.exiting {stop : Except ε Unit → γ} {rest : Check α ω γ} (before : Stops marks acts leak first)
    (after : Stops marks acts leak' rest) (tells : ∀ trace, whole ↔ leak ∨ (Passed first trace ∧ leak')) :
    Stops marks acts whole (do
      let status ← first
      if ← exits status then pure (stop status) else rest) := by
  intro trace
  have halts := before trace
  have tells := tells trace
  have run : ((do
      let status ← first
      if ← exits status then pure (stop status) else rest : Check α ω γ) true ⟨[], trace⟩).2 =
        if (!(first true ⟨[], trace⟩).1.isOk || !(first true ⟨[], trace⟩).2.entries.isEmpty) = true then
          (first true ⟨[], trace⟩).2 else (rest true (first true ⟨[], trace⟩).2).2 := by
    change ((if (!(first true ⟨[], trace⟩).1.isOk || !(first true ⟨[], trace⟩).2.entries.isEmpty) = true then
      pure (stop (first true ⟨[], trace⟩).1) else rest : Check α ω γ) true (first true ⟨[], trace⟩).2).2 = _
    split <;> rfl
  rw [run]
  generalize ran : first true ⟨[], trace⟩ = ended at halts ⊢
  obtain ⟨status, after_⟩ := ended
  rw [Passed, ran] at tells
  by_cases goesOn : status = .ok () ∧ after_.entries = []
  · obtain ⟨rfl, empty⟩ := goesOn
    have rounds : (!(Except.ok () : Except ε Unit).isOk || !after_.entries.isEmpty) = false := by rw [empty]; rfl
    simp only [rounds, Bool.false_eq_true, ↓reduceIte]
    obtain ⟨entries, events⟩ := after_
    obtain rfl : entries = [] := empty
    refine (halts.next rfl (after events)).of_iff (tells.trans ?_).symm
    simp [halts.quiet rfl]
  · have leaves : (!status.isOk || !after_.entries.isEmpty) = true := by
      cases status with
      | error failure => rfl
      | ok _ => simpa [Except.isOk, Except.toBool] using goesOn
    simp only [leaves, ↓reduceIte]
    exact halts.of_iff (tells.trans (by simp [goesOn])).symm

theorem Stops.orExit {pass : Prop} (before : Stops marks acts leak first) (after : Stops marks acts leak' rest)
    (tells : ∀ trace, Passed first trace ↔ pass) : Stops marks acts (leak ∨ (pass ∧ leak')) (orExit first rest) :=
  before.exiting after fun trace => by rw [tells]

/-- Some element leaks, and everything before it passes. -/
def Meets (pass leak : ι → Prop) (elements : List ι) : Prop := ∃ before element after,
  elements = before ++ element :: after ∧ (∀ earlier ∈ before, pass earlier) ∧ leak element

theorem meets_nil (pass leak : ι → Prop) : ¬Meets pass leak [] := by
  rintro ⟨before, element, after, impossible, _⟩
  simp at impossible

theorem meets_cons {pass leak : ι → Prop} {element : ι} {elements : List ι} :
    Meets pass leak (element :: elements) ↔ leak element ∨ (pass element ∧ Meets pass leak elements) := by
  constructor
  · rintro ⟨before, found, after, same, passes, leaks⟩
    cases before with
    | nil =>
      obtain ⟨rfl, rfl⟩ := List.cons.inj same
      exact .inl leaks
    | cons earlier before =>
      obtain ⟨rfl, rfl⟩ := List.cons.inj same
      exact .inr ⟨passes element (by simp), before, found, after, rfl, fun other among => passes other (by simp [among]), leaks⟩
  · rintro (leaks | ⟨pass, before, found, after, rfl, passes, leaks⟩)
    · exact ⟨[], element, elements, rfl, (fun _ impossible => by cases impossible), leaks⟩
    · refine ⟨element :: before, found, after, rfl, fun other among => ?_, leaks⟩
      rcases List.mem_cons.mp among with rfl | later
      · exact pass
      · exact passes other later

theorem Stops.eachThen {body : ι → Check α ω (Except ε Unit)} {elements : List ι} {pass leaks : ι → Prop}
    (inside : ∀ element ∈ elements, Stops marks acts (leaks element) (body element))
    (tells : ∀ element ∈ elements, ∀ trace, Passed (body element) trace ↔ pass element)
    (after : Stops marks acts leak rest) :
    Stops marks acts (Meets pass leaks elements ∨ ((∀ element ∈ elements, pass element) ∧ leak))
      (eachThen body elements rest) := by
  induction elements with
  | nil => exact after.of_iff (by simp [meets_nil])
  | cons element elements ih =>
    have later := ih (fun other among => inside other (by simp [among])) fun other among => tells other (by simp [among])
    refine ((inside element (by simp)).orExit later (tells element (by simp))).of_iff ?_
    rw [meets_cons, List.forall_mem_cons]
    grind

theorem Stops.orFail_idle {status : Except ε Unit} (before : Stops marks acts leak first) :
    Stops marks acts leak (orFail first (pure status)) := by
  refine before.thenPure fun result => ?_
  cases result with
  | error failure => exact ⟨_, rfl⟩
  | ok _ => exact ⟨_, rfl⟩

/-- The rest runs unless the first part fails, whether that has added an entry or not. -/
theorem Stops.orFail_acting (before : Stops marks acts leak first) (after : Stops marks acts leak' rest)
    (acting : Acting acts rest) (steady : Steady rest)
    (tells : ∀ trace, whole ↔ leak ∨ ((first true ⟨[], trace⟩).1 = .ok () ∧ (first true ⟨[], trace⟩).2.entries ≠ []) ∨
      (Passed first trace ∧ leak')) :
    Stops marks acts whole (Check.orFail first rest) := by
  intro trace
  have halts := before trace
  have tells := tells trace
  rw [orFail_apply]
  rw [Passed] at tells
  generalize first true ⟨[], trace⟩ = ended at halts tells ⊢
  obtain ⟨status, entries, events⟩ := ended
  cases status with
  | error failure => exact halts.of_iff (tells.trans (by simp)).symm
  | ok _ =>
    by_cases empty : entries = []
    · subst empty
      refine (halts.next rfl (after events)).of_iff (tells.trans ?_).symm
      simp [halts.quiet rfl]
    · obtain ⟨late, kept⟩ := steady.extends true ⟨entries, events⟩
      refine (halts.overrun empty ?_ (acting true ⟨entries, events⟩)).of_iff (tells.trans ?_).symm
      · rw [kept]
        simp [empty]
      · simp [empty]

theorem Acting.bind {next : β → Check α ω γ} (acting : Acting acts part) (grows : ∀ value, Logs (fun _ => True) (next value)) :
    Acting acts (part >>= next) := by
  intro failFast journal
  obtain ⟨early, grown, event, among, act⟩ := acting failFast journal
  obtain ⟨late, grown', _⟩ := grows (part failFast journal).1 failFast (part failFast journal).2
  refine ⟨early ++ late, ?_, event, List.mem_append.mpr (.inl among), act⟩
  rw [bind_apply, grown', grown, List.append_assoc]

theorem Acting.framedIf (acting : Acting acts part) (allows : β → Bool) (change : α → α) :
    Acting acts (framedIf allows change part) := by
  intro failFast journal
  obtain ⟨late, grown, acted⟩ := acting failFast journal
  refine ⟨late, ?_, acted⟩
  rw [framedIf_apply]
  refine Eq.trans ?_ grown
  split <;> rfl

end Parts

end Check
end Protovalidate.Foundation
