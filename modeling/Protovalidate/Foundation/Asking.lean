import Protovalidate.Foundation.Journal

/-! Programs that ask for what they do not know: what they come to if one function gives
all answers, and if the answers come from a state that changes between the questions. -/

namespace Protovalidate.Foundation

/-- A program that is done, or asks a question and goes on with the answer, or without
one if the answer is refused. -/
inductive Asking (κ δ β : Type) where
  | done (value : β)
  | ask (question : κ) (next : Option δ → Asking κ δ β)

namespace Asking

variable {κ κ' δ β γ σ : Type}

def bind : Asking κ δ β → (β → Asking κ δ γ) → Asking κ δ γ
  | done value, rest => rest value
  | ask question next, rest => ask question fun answer => (next answer).bind rest

instance : Monad (Asking κ δ) where
  pure := done
  bind := bind

/-- What a program comes to. -/
def answer (oracle : κ → Option δ) : Asking κ δ β → β
  | done value => value
  | ask question next => (next (oracle question)).answer oracle

/-- The questions that it asks on the way. -/
def questions (oracle : κ → Option δ) : Asking κ δ β → List κ
  | done _ => []
  | ask question next => question :: (next (oracle question)).questions oracle

/-- Every question that it may ask is of a kind. -/
def Asks (kind : κ → Prop) : Asking κ δ β → Prop
  | done _ => True
  | ask question next => kind question ∧ ∀ answer, (next answer).Asks kind

/-- A program that gives up as soon as an answer is refused, and tells which. -/
def GivesUp (tells : κ → β → Prop) : Asking κ δ β → Prop
  | done _ => True
  | ask question next =>
    (∃ value, next none = done value ∧ tells question value) ∧ ∀ answer, (next (some answer)).GivesUp tells

/-- The number of questions is at most so large. -/
def Within (bound : Nat) : Asking κ δ β → Prop
  | done _ => True
  | ask _ next => 0 < bound ∧ ∀ answer, (next answer).Within (bound - 1)

/-- The same program, with its questions put in other words. -/
def rephrase {kind : κ → Prop} (word : ∀ question, kind question → κ') :
    (program : Asking κ δ β) → program.Asks kind → Asking κ' δ β
  | done value, _ => done value
  | ask question next, allowed => ask (word question allowed.1) fun answer => (next answer).rephrase word (allowed.2 answer)

section Binding

variable {oracle : κ → Option δ} {kind : κ → Prop} {tells : κ → β → Prop} {tells' : κ → γ → Prop}
variable {program : Asking κ δ β} {rest : β → Asking κ δ γ}

@[simp]
theorem answer_bind : (program.bind rest).answer oracle = (rest (program.answer oracle)).answer oracle := by
  induction program with
  | done value => rfl
  | ask question next ih => exact ih (oracle question)

@[simp]
theorem questions_bind : (program.bind rest).questions oracle =
    program.questions oracle ++ (rest (program.answer oracle)).questions oracle := by
  induction program with
  | done value => rfl
  | ask question next ih => exact congrArg (question :: ·) (ih (oracle question))

theorem Asks.bind (first : program.Asks kind) (second : ∀ value, (rest value).Asks kind) :
    (program.bind rest).Asks kind := by
  induction program with
  | done value => exact second value
  | ask question next ih => exact ⟨first.1, fun answer => ih answer (first.2 answer)⟩

/-- Oracles that agree on all that a program may ask come to the same. -/
theorem Asks.answer_congr {oracle' : κ → Option δ} (asks : program.Asks kind)
    (agree : ∀ question, kind question → oracle question = oracle' question) : program.answer oracle = program.answer oracle' := by
  induction program with
  | done value => rfl
  | ask question next ih =>
    rw [answer, answer, agree question asks.1]
    exact ih (oracle' question) (asks.2 (oracle' question))

/-- The rest gives up with the first part, and on its own. -/
theorem GivesUp.bind (first : program.GivesUp tells)
    (stops : ∀ question value, tells question value → ∃ last, rest value = done last ∧ tells' question last)
    (second : ∀ value, (rest value).GivesUp tells') : (program.bind rest).GivesUp tells' := by
  induction program with
  | done value => exact second value
  | ask question next ih =>
    obtain ⟨⟨value, ends, told⟩, goesOn⟩ := first
    obtain ⟨last, same, told'⟩ := stops question value told
    refine ⟨⟨last, ?_, told'⟩, fun answer => ih (some answer) (goesOn answer)⟩
    change (next none).bind rest = done last
    rw [ends]
    exact same

/-- An oracle that refuses some answers of another one comes to the same, or is told
which of its refusals is in the way. -/
theorem GivesUp.answer_or {oracle' : κ → Option δ} (givesUp : program.GivesUp tells)
    (agrees : ∀ question, oracle question = none ∨ oracle question = oracle' question) :
    program.answer oracle = program.answer oracle' ∨
      ∃ question ∈ program.questions oracle, oracle question = none ∧ tells question (program.answer oracle) := by
  induction program with
  | done value => exact .inl rfl
  | ask question next ih =>
    obtain ⟨⟨value, ends, told⟩, goesOn⟩ := givesUp
    cases answered : oracle question with
    | none =>
      refine .inr ⟨question, List.mem_cons_self, answered, ?_⟩
      rwa [answer, answered, ends, answer]
    | some found =>
      have same : oracle' question = some found := by
        rcases agrees question with refused | same
        · rw [answered] at refused
          cases refused
        · rw [← same, answered]
      rw [answer, answer, questions, answered, same]
      refine (ih (some found) (goesOn found)).imp id ?_
      rintro ⟨later, asked, both⟩
      exact ⟨later, List.mem_cons_of_mem question asked, both⟩

theorem Within.mono {bound more : Nat} (within : program.Within bound) (le : bound ≤ more) : program.Within more := by
  induction program generalizing bound more with
  | done value => trivial
  | ask question next ih => exact ⟨Nat.lt_of_lt_of_le within.1 le, fun answer => ih answer (within.2 answer) (Nat.sub_le_sub_right le 1)⟩

theorem Within.bind {bound more : Nat} (first : program.Within bound) (second : ∀ value, (rest value).Within more) :
    (program.bind rest).Within (bound + more) := by
  induction program generalizing bound with
  | done value => exact (second value).mono (Nat.le_add_left more bound)
  | ask question next ih =>
    have positive := first.1
    refine ⟨Nat.add_pos_left positive more, fun answer => ?_⟩
    have later := ih answer (first.2 answer)
    rwa [← Nat.sub_add_comm positive] at later

end Binding

section Words

variable {kind : κ → Prop} (word : ∀ question, kind question → κ') {program : Asking κ δ β}
variable {oracle : κ → Option δ}

/-- Questions in other words get the same answers. -/
theorem answer_rephrase (oracle' : κ' → Option δ) (same : ∀ question allowed, oracle' (word question allowed) = oracle question)
    (allowed : program.Asks kind) : (program.rephrase word allowed).answer oracle' = program.answer oracle := by
  induction program with
  | done value => rfl
  | ask question next ih =>
    simp only [rephrase, answer, same]
    exact ih (oracle question) (allowed.2 _)

theorem questions_rephrase (oracle' : κ' → Option δ) (read : κ' → κ)
    (same : ∀ question allowed, oracle' (word question allowed) = oracle question)
    (reads : ∀ question allowed, read (word question allowed) = question) (allowed : program.Asks kind) :
    ((program.rephrase word allowed).questions oracle').map read = program.questions oracle := by
  induction program with
  | done value => rfl
  | ask question next ih =>
    simp only [rephrase, questions, List.map_cons, same, reads]
    exact congrArg (question :: ·) (ih (oracle question) (allowed.2 _))

theorem GivesUp.rephrase {tells : κ → β → Prop} {tells' : κ' → β → Prop} (givesUp : program.GivesUp tells)
    (same : ∀ question allowed value, tells question value → tells' (word question allowed) value)
    (allowed : program.Asks kind) : (program.rephrase word allowed).GivesUp tells' := by
  induction program with
  | done value => trivial
  | ask question next ih =>
    obtain ⟨⟨value, ends, told⟩, goesOn⟩ := givesUp
    refine ⟨⟨value, ?_, same question allowed.1 value told⟩, fun answer => ih (some answer) (goesOn answer) (allowed.2 _)⟩
    have ended (other : Asking κ δ β) (same : other = done value) (allowed : other.Asks kind) :
        other.rephrase word allowed = done value := by
      subst same
      rfl
    exact ended _ ends (allowed.2 none)

theorem Within.rephrase {bound : Nat} (within : program.Within bound) (allowed : program.Asks kind) :
    (program.rephrase word allowed).Within bound := by
  induction program generalizing bound with
  | done value => trivial
  | ask question next ih => exact ⟨within.1, fun answer => ih answer (within.2 answer) (allowed.2 answer)⟩

end Words

section Serving

/-- A state answers the questions, and changes as it does. -/
def serve (server : σ → κ → Option δ × σ) (state : σ) : Asking κ δ β → β × σ
  | done value => (value, state)
  | ask question next => serve server (server state question).2 (next (server state question).1)

variable {server : σ → κ → Option δ × σ} {oracle : σ → κ → Option δ}

/-- Where the changes have no influence on answers, one oracle gives them all. -/
theorem serve_eq (gives : ∀ state question, (server state question).1 = oracle state question)
    (keeps : ∀ state question, oracle (server state question).2 = oracle state) (state : σ) (program : Asking κ δ β) :
    program.serve server state = (program.answer (oracle state),
      (program.questions (oracle state)).foldl (fun state question => (server state question).2) state) := by
  induction program generalizing state with
  | done value => rfl
  | ask question next ih =>
    rw [serve, gives, ih, keeps]
    rfl

end Serving

section Changing

variable {order : σ → σ → Prop} {oracle : σ → κ → Option δ} {state : σ}
variable {whole rest : Asking κ δ β} {question : κ} {next : Option δ → Asking κ δ β} {value : β}

/-- From a state on, a program comes to the same as what is left of it. -/
def Leads (order : σ → σ → Prop) (oracle : σ → κ → Option δ) (state : σ) (whole rest : Asking κ δ β) : Prop :=
  ∀ later, order state later → whole.answer (oracle later) = rest.answer (oracle later)

theorem leads_refl : Leads order oracle state whole whole := fun _ _ => rfl

theorem Leads.later (leads : Leads order oracle state whole rest) {later : σ}
    (above : ∀ last, order later last → order state last) : Leads order oracle later whole rest :=
  fun last after => leads last (above last after)

/-- An answer that no change takes back. -/
theorem Leads.given (leads : Leads order oracle state whole (ask question next)) {answer : δ}
    (stays : ∀ later, order state later → oracle later question = some answer) :
    Leads order oracle state whole (next (some answer)) := by
  intro later above
  rw [leads later above, Asking.answer, stays later above]

theorem Leads.finished (leads : Leads order oracle state whole (done value)) (refl : order state state) :
    whole.answer (oracle state) = value := leads state refl

/-- A program that gives up has come to its end in the state that refused the answer. -/
theorem Leads.refused (leads : Leads order oracle state whole (ask question next)) (refl : order state state)
    (refuses : oracle state question = none) (ends : next none = done value) : whole.answer (oracle state) = value := by
  rw [leads state refl, Asking.answer, refuses, ends, Asking.answer]

end Changing

end Asking
end Protovalidate.Foundation
