import Protovalidate.Foundation.Asking

/-! Checks that ask questions on the way: once an oracle has answered them, they are the
checks of `Journal` again, part by part. -/

namespace Protovalidate.Foundation

/-- A check that asks questions. -/
abbrev AskingCheck (κ δ α ω β : Type) := ReaderT Bool (StateT (Journal α ω) (Asking κ δ)) β

namespace AskingCheck

variable {κ δ α ω β γ ε ι : Type}

/-- A check that asks nothing. -/
def ofCheck (part : Check α ω β) : AskingCheck κ δ α ω β := fun failFast journal => .done (part failFast journal)

def asks (question : κ) : AskingCheck κ δ α ω (Option δ) := fun _ journal =>
  .ask question fun answer => .done (answer, journal)

/-- Put a frame around a part. All that a frame sees of its part is what the part has done. -/
def around (frame : Check α ω β → Check α ω γ) (part : AskingCheck κ δ α ω β) : AskingCheck κ δ α ω γ :=
  fun failFast journal => (part failFast journal).bind fun result =>
    .done (frame (fun _ _ => result) failFast journal)

/-- Go on with the rest unless the first part exits. -/
def orExit (first rest : AskingCheck κ δ α ω (Except ε Unit)) : AskingCheck κ δ α ω (Except ε Unit) := do
  let status ← first
  if ← ofCheck (Check.exits status) then pure status else rest

/-- One part for each element, left at the first that exits. -/
def eachThen (body : ι → AskingCheck κ δ α ω (Except ε Unit)) : List ι → AskingCheck κ δ α ω (Except ε Unit) →
    AskingCheck κ δ α ω (Except ε Unit)
  | [], after => after
  | element :: elements, after => orExit (body element) (eachThen body elements after)

/-- The check that is left when all questions are answered. -/
def answered (oracle : κ → Option δ) (part : AskingCheck κ δ α ω β) : Check α ω β := fun failFast journal =>
  (part failFast journal).answer oracle

section Answers

variable {oracle : κ → Option δ} {part : AskingCheck κ δ α ω β} {first rest : AskingCheck κ δ α ω (Except ε Unit)}

theorem answered_ofCheck (part : Check α ω β) : (ofCheck part : AskingCheck κ δ α ω β).answered oracle = part := rfl

theorem answered_bind (next : β → AskingCheck κ δ α ω γ) :
    (part >>= next).answered oracle = part.answered oracle >>= fun value => (next value).answered oracle := by
  funext failFast journal
  exact Asking.answer_bind

theorem answered_asks (question : κ) :
    (asks question : AskingCheck κ δ α ω (Option δ)).answered oracle = pure (oracle question) := rfl

theorem answered_around {frame : Check α ω β → Check α ω γ}
    (sees : ∀ part failFast journal, frame part failFast journal = frame (fun _ _ => part failFast journal) failFast journal) :
    (around frame part).answered oracle = frame (part.answered oracle) := by
  funext failFast journal
  rw [sees]
  exact Asking.answer_bind

theorem answered_orExit : (orExit first rest).answered oracle = Check.orExit (first.answered oracle) (rest.answered oracle) := by
  rw [orExit, answered_bind, Check.orExit]
  congr 1
  funext status
  rw [answered_bind, answered_ofCheck]
  congr 1
  funext exits
  cases exits with
  | true => rfl
  | false => rfl

theorem answered_eachThen {body : ι → AskingCheck κ δ α ω (Except ε Unit)} {body' : ι → Check α ω (Except ε Unit)}
    {elements : List ι} {after : Check α ω (Except ε Unit)}
    (same : ∀ element ∈ elements, (body element).answered oracle = body' element) (last : rest.answered oracle = after) :
    (eachThen body elements rest).answered oracle = Check.eachThen body' elements after := by
  induction elements with
  | nil => exact last
  | cons element elements ih =>
    have later := ih fun element member => same element (List.mem_cons_of_mem _ member)
    rw [eachThen, answered_orExit, same element List.mem_cons_self, later, Check.eachThen]

end Answers

section Rules

variable {kind : κ → Prop} {bound more : Nat} {refusal : κ → ε} {first rest : AskingCheck κ δ α ω (Except ε Unit)}

/-- What is left after the first part of `orExit`. -/
def afterFirst (rest : AskingCheck κ δ α ω (Except ε Unit)) (failFast : Bool)
    (result : Except ε Unit × Journal α ω) : Asking κ δ (Except ε Unit × Journal α ω) :=
  if (Check.exits result.1 failFast result.2).1 = true then .done result else rest failFast result.2

theorem orExit_apply (failFast : Bool) (journal : Journal α ω) :
    orExit first rest failFast journal = (first failFast journal).bind (afterFirst rest failFast) := by
  change (first failFast journal).bind _ = _
  congr 1
  funext result
  change (if (Check.exits result.1 failFast result.2).1 = true then pure result.1 else rest : AskingCheck κ δ α ω _)
    failFast result.2 = _
  unfold afterFirst
  split
  · rfl
  · rfl

/-- Every question of a check is of a kind. -/
def Asks (kind : κ → Prop) (part : AskingCheck κ δ α ω β) : Prop :=
  ∀ failFast journal, (part failFast journal).Asks kind

theorem Asks.orExit (before : Asks kind first) (after : Asks kind rest) : Asks kind (orExit first rest) := by
  intro failFast journal
  rw [orExit_apply]
  refine (before failFast journal).bind fun result => ?_
  unfold afterFirst
  split
  · trivial
  · exact after failFast result.2

theorem Asks.around {part : AskingCheck κ δ α ω β} (inside : Asks kind part) (frame : Check α ω β → Check α ω γ) :
    Asks kind (around frame part) :=
  fun failFast journal => (inside failFast journal).bind fun _ => trivial

/-- The number of questions of a check is at most so large. -/
def Within (bound : Nat) (part : AskingCheck κ δ α ω β) : Prop :=
  ∀ failFast journal, (part failFast journal).Within bound

theorem Within.orExit (before : Within bound first) (after : Within more rest) : Within (bound + more) (orExit first rest) := by
  intro failFast journal
  rw [orExit_apply]
  refine (before failFast journal).bind fun result => ?_
  unfold afterFirst
  split
  · trivial
  · exact after failFast result.2

theorem Within.around {part : AskingCheck κ δ α ω β} (inside : Within bound part) (frame : Check α ω β → Check α ω γ) :
    Within bound (around frame part) := by
  intro failFast journal
  have ends (result : β × Journal α ω) :
      (Asking.done (frame (fun _ _ => result) failFast journal) : Asking κ δ (γ × Journal α ω)).Within 0 := trivial
  exact (inside failFast journal).bind ends

/-- A refused answer makes the check end with an error that tells the question. -/
def GivesUp (refusal : κ → ε) (part : AskingCheck κ δ α ω (Except ε Unit)) : Prop :=
  ∀ failFast journal, (part failFast journal).GivesUp fun question result => result.1 = .error (refusal question)

theorem givesUp_ofCheck (part : Check α ω (Except ε Unit)) : GivesUp refusal (ofCheck part : AskingCheck κ δ α ω _) :=
  fun _ _ => trivial

theorem GivesUp.orExit (before : GivesUp refusal first) (after : GivesUp refusal rest) :
    GivesUp refusal (orExit first rest) := by
  intro failFast journal
  rw [orExit_apply]
  refine (before failFast journal).bind (fun question result told => ⟨result, ?_, told⟩) fun result => ?_
  · rw [afterFirst, Check.exits, told]
    rfl
  · unfold afterFirst
    split
    · trivial
    · exact after failFast result.2

/-- A frame that leaves errors what they are. -/
def KeepsErrors (frame : Check α ω (Except ε Unit) → Check α ω (Except ε Unit)) : Prop :=
  ∀ part failFast journal failure, (part failFast journal).1 = .error failure → (frame part failFast journal).1 = .error failure

theorem GivesUp.around {frame : Check α ω (Except ε Unit) → Check α ω (Except ε Unit)} (inside : GivesUp refusal first)
    (keeps : KeepsErrors frame) : GivesUp refusal (around frame first) :=
  fun failFast journal => (inside failFast journal).bind
    (fun _ _ told => ⟨_, rfl, keeps _ failFast journal _ told⟩) fun _ => trivial

end Rules

section Questions

variable {oracle : κ → Option δ} {first rest : AskingCheck κ δ α ω (Except ε Unit)} {front back : List κ}

/-- Whether a run is left behind a part. -/
def Leaves (failFast : Bool) (result : Except ε Unit × Journal α ω) : Prop :=
  (Check.exits result.1 failFast result.2).1 = true

/-- A check asks its questions in order, up to where the run is left. -/
def Covers (oracle : κ → Option δ) (part : AskingCheck κ δ α ω (Except ε Unit)) (questions : List κ) : Prop :=
  ∀ failFast journal, (part failFast journal).questions oracle = questions ∨
    (part failFast journal).questions oracle <+: questions ∧ Leaves failFast (part.answered oracle failFast journal)

theorem covers_ofCheck (part : Check α ω (Except ε Unit)) : Covers oracle (ofCheck part) [] := fun _ _ => .inl rfl

theorem answered_orExit_apply (failFast : Bool) (journal : Journal α ω) :
    (orExit first rest).answered oracle failFast journal =
      (afterFirst rest failFast (first.answered oracle failFast journal)).answer oracle := by
  rw [answered, orExit_apply, Asking.answer_bind]
  rfl

theorem Covers.orExit (before : Covers oracle first front) (after : Covers oracle rest back) :
    Covers oracle (orExit first rest) (front ++ back) := by
  intro failFast journal
  rw [answered_orExit_apply, orExit_apply, Asking.questions_bind]
  change _ ++ (afterFirst rest failFast (first.answered oracle failFast journal)).questions oracle = _ ∨
    _ ++ (afterFirst rest failFast (first.answered oracle failFast journal)).questions oracle <+: _ ∧ _
  by_cases leaves : Leaves failFast (first.answered oracle failFast journal)
  · have left : afterFirst rest failFast (first.answered oracle failFast journal) =
        .done (first.answered oracle failFast journal) := if_pos leaves
    rw [left, Asking.questions, List.append_nil]
    refine .inr ⟨?_, leaves⟩
    rcases before failFast journal with same | ⟨early, -⟩
    · rw [same]
      exact List.prefix_append front back
    · exact early.trans (List.prefix_append front back)
  · have goesOn : afterFirst rest failFast (first.answered oracle failFast journal) =
        rest failFast (first.answered oracle failFast journal).2 := if_neg leaves
    have same := (before failFast journal).resolve_right fun both => leaves both.2
    rw [goesOn, same]
    rcases after failFast (first.answered oracle failFast journal).2 with same' | ⟨early, leaves'⟩
    · exact .inl (by rw [same'])
    · exact .inr ⟨(List.prefix_append_right_inj front).mpr early, leaves'⟩

/-- A frame behind which a run is left if it is left behind the part. -/
def KeepsExits (frame : Check α ω (Except ε Unit) → Check α ω (Except ε Unit)) : Prop :=
  ∀ part failFast journal, Leaves failFast (part failFast journal) → Leaves failFast (frame part failFast journal)

theorem Covers.around {frame : Check α ω (Except ε Unit) → Check α ω (Except ε Unit)} (inside : Covers oracle first front)
    (keeps : KeepsExits frame) : Covers oracle (around frame first) front := by
  intro failFast journal
  have asked : (AskingCheck.around frame first failFast journal).questions oracle = (first failFast journal).questions oracle := by
    rw [AskingCheck.around, Asking.questions_bind]
    exact List.append_nil _
  have result : (AskingCheck.around frame first).answered oracle failFast journal =
      frame (fun _ _ => first.answered oracle failFast journal) failFast journal := Asking.answer_bind
  rw [asked, result]
  exact (inside failFast journal).imp id fun ⟨early, leaves⟩ => ⟨early, keeps _ failFast journal leaves⟩

end Questions

section Loops

variable {body : ι → AskingCheck κ δ α ω (Except ε Unit)} {elements : List ι} {rest : AskingCheck κ δ α ω (Except ε Unit)}

theorem eachThen_append (front back : List ι) :
    eachThen body (front ++ back) rest = eachThen body front (eachThen body back rest) := by
  induction front with
  | nil => rfl
  | cons element front ih => rw [List.cons_append, eachThen, eachThen, ih]

theorem asks_eachThen {kind : κ → Prop} (inside : ∀ element ∈ elements, Asks kind (body element)) (after : Asks kind rest) :
    Asks kind (eachThen body elements rest) := by
  induction elements with
  | nil => exact after
  | cons element elements ih =>
    exact (inside element List.mem_cons_self).orExit (ih fun later member => inside later (List.mem_cons_of_mem _ member))

theorem givesUp_eachThen {refusal : κ → ε} (inside : ∀ element ∈ elements, GivesUp refusal (body element))
    (after : GivesUp refusal rest) : GivesUp refusal (eachThen body elements rest) := by
  induction elements with
  | nil => exact after
  | cons element elements ih =>
    exact (inside element List.mem_cons_self).orExit (ih fun later member => inside later (List.mem_cons_of_mem _ member))

theorem covers_eachThen {oracle : κ → Option δ} {questions : ι → List κ} {back : List κ}
    (inside : ∀ element ∈ elements, Covers oracle (body element) (questions element)) (after : Covers oracle rest back) :
    Covers oracle (eachThen body elements rest) (elements.flatMap questions ++ back) := by
  induction elements with
  | nil => exact after
  | cons element elements ih =>
    have later := ih fun later member => inside later (List.mem_cons_of_mem _ member)
    rw [List.flatMap_cons, List.append_assoc]
    exact (inside element List.mem_cons_self).orExit later

theorem within_eachThen {counted : ι → List γ} {more : Nat}
    (inside : ∀ element ∈ elements, Within (counted element).length (body element)) (after : Within more rest) :
    Within ((elements.flatMap counted).length + more) (eachThen body elements rest) := by
  induction elements with
  | nil =>
    rw [List.flatMap_nil, List.length_nil, Nat.zero_add]
    exact after
  | cons element elements ih =>
    have later := ih fun later member => inside later (List.mem_cons_of_mem _ member)
    rw [List.flatMap_cons, List.length_append, Nat.add_assoc]
    exact (inside element List.mem_cons_self).orExit later

end Loops

end AskingCheck
end Protovalidate.Foundation
