import Protovalidate.Validate.Lookups
import Protovalidate.Validate.Reachable

/-! The lookups of a run: the types of a message and of everything below it, in the order
of the run and up to where it is left. -/

namespace Protovalidate.Validate

open Foundation AskingCheck Relation

section Descendants

/-- A message and everything below it that the validator descends to. -/
def descendants (message : Message) : List Message :=
  message :: (children message).attach.flatMap fun child => descendants child.1.2
termination_by sizeOf message
decreasing_by exact children_sizeOf child.2

theorem descendants_eq (message : Message) :
    descendants message = message :: (children message).flatMap fun child => descendants child.2 := by
  have all : (children message).attach.flatMap (fun child => descendants child.1.2) =
      (children message).attach.unattach.flatMap fun child => descendants child.2 := List.flatMap_subtype fun _ _ => rfl
  rw [descendants, all, List.unattach_attach]

theorem mem_descendants {message sub : Message} : sub ∈ descendants message ↔ ReflTransGen Child message sub := by
  induction message using children_induction with
  | step message ih =>
    rw [descendants_eq, List.mem_cons, List.mem_flatMap, ReflTransGen.cases_head_iff]
    refine or_congr eq_comm ⟨?_, ?_⟩
    · rintro ⟨child, member, below⟩
      exact ⟨child.2, ⟨child.1, member⟩, (ih child member).mp below⟩
    · rintro ⟨child, ⟨element, member⟩, below⟩
      exact ⟨(element, child), member, (ih (element, child) member).mpr below⟩

/-- The types of these messages. -/
def descendantTypes (message : Message) : List Descriptor := (descendants message).map Message.descriptor

theorem descendantTypes_eq (message : Message) : descendantTypes message =
    message.descriptor :: ((children message).flatMap fun child => descendantTypes child.2) := by
  rw [descendantTypes, descendants_eq, List.map_cons, List.map_flatMap]
  rfl

end Descendants

section Frames

/-- `rules not loaded` -/
def notLoaded (descriptor : Descriptor) : StatusError := ⟨.notFound, "rules not loaded for message: " ++ descriptor.fullName⟩

theorem elementFramed_keepsErrors (element : FieldPathElement) : KeepsErrors (Validator.elementFramed element) := by
  intro part failFast journal failure fails
  rwa [Validator.elementFramed, Check.framed, Check.framedIf_result]

theorem elementFramed_keepsExits (element : FieldPathElement) : KeepsExits (Validator.elementFramed element) := by
  intro part failFast journal leaves
  rw [Leaves, Validator.elementFramed, Check.framed, Check.framedIf_apply]
  simp only [Check.exits, ↓reduceIte, Journal.editFrom_isEmpty]
  exact leaves

end Frames

namespace Lookups

section Messages

variable {runtime : Runtime} {oracle : Descriptor → Option Rules} {kind : Descriptor → Prop} {message : Message}
variable {after : LookupCheck Status}

theorem runRules_asks (below : Asks kind after) (answer : Option Rules) : Asks kind (runRules runtime message after answer) := by
  rcases answer with _ | failure | rules
  · exact fun _ _ => trivial
  · exact fun _ _ => trivial
  · exact asks_eachThen (fun _ _ _ _ => trivial) below

theorem runRules_within {bound : Nat} (below : Within bound after) (answer : Option Rules) :
    Within bound (runRules runtime message after answer) := by
  rcases answer with _ | failure | rules
  · exact fun _ _ => trivial
  · exact fun _ _ => trivial
  · have loop : Within ((rules.flatMap fun _ => ([] : List Message)).length + bound)
        (runRules runtime message after (some (.ok rules))) := within_eachThen (fun _ _ _ _ => trivial) below
    rwa [List.flatMap_eq_nil_iff.mpr fun _ _ => rfl, List.length_nil, Nat.zero_add] at loop

theorem runRules_givesUp (below : GivesUp notLoaded after) (answer : Rules) :
    GivesUp notLoaded (runRules runtime message after (some answer)) := by
  cases answer with
  | error failure => exact fun _ _ => trivial
  | ok rules => exact givesUp_eachThen (fun rule _ => givesUp_ofCheck _) below

theorem runRules_covers {questions : List Descriptor} (below : Covers oracle after questions) (answer : Option Rules) :
    Covers oracle (runRules runtime message after answer) questions := by
  rcases answer with _ | failure | rules
  · exact fun _ _ => .inr ⟨List.nil_prefix, rfl⟩
  · exact fun _ _ => .inr ⟨List.nil_prefix, rfl⟩
  · have loop : Covers oracle (runRules runtime message after (some (.ok rules)))
        ((rules.flatMap fun _ => []) ++ questions) := covers_eachThen (fun rule _ => covers_ofCheck _) below
    rwa [List.flatMap_eq_nil_iff.mpr fun _ _ => rfl, List.nil_append] at loop

/-- A message only asks for the types of its descendants. -/
theorem validateMessage_asks (message : Message) :
    Asks (· ∈ descendantTypes message) (validateMessage runtime message) := by
  suffices all : ∀ kind : Descriptor → Prop, (∀ type ∈ descendantTypes message, kind type) →
      Asks kind (validateMessage runtime message) from all _ fun _ member => member
  induction message using children_induction with
  | step message ih =>
    intro kind within
    rw [descendantTypes_eq, List.forall_mem_cons] at within
    rw [validateMessage_eq]
    intro failFast journal
    have below : Asks kind (eachThen (validateChild runtime) (children message) (pure (.ok ()))) := by
      refine asks_eachThen (fun child member => ?_) fun _ _ => trivial
      refine Asks.around (ih child member kind fun type lower => ?_) _
      exact within.2 type (List.mem_flatMap.mpr ⟨child, member, lower⟩)
    exact ⟨within.1, fun answer => runRules_asks below answer failFast journal⟩

/-- It asks for each of them once at most. -/
theorem validateMessage_within (message : Message) : Within (descendants message).length (validateMessage runtime message) := by
  induction message using children_induction with
  | step message ih =>
    rw [validateMessage_eq, descendants_eq, List.length_cons]
    intro failFast journal
    have below : Within (((children message).flatMap fun child => descendants child.2).length + 0)
        (eachThen (validateChild runtime) (children message) (pure (.ok ()))) :=
      within_eachThen (fun child member => (ih child member).around _) fun _ _ => trivial
    exact ⟨Nat.succ_pos _, fun answer => runRules_within below answer failFast journal⟩

/-- It ends with an error if the rules of a type are not loaded. -/
theorem validateMessage_givesUp (message : Message) : GivesUp notLoaded (validateMessage runtime message) := by
  induction message using children_induction with
  | step message ih =>
    rw [validateMessage_eq]
    intro failFast journal
    refine ⟨⟨_, rfl, rfl⟩, fun answer => runRules_givesUp ?_ answer failFast journal⟩
    apply givesUp_eachThen
    · exact fun child member => (ih child member).around (elementFramed_keepsErrors child.1)
    · exact givesUp_ofCheck _

/-- It asks for them in order, up to where the run is left. -/
theorem validateMessage_covers (oracle : Descriptor → Option Rules) (message : Message) :
    Covers oracle (validateMessage runtime message) (descendantTypes message) := by
  induction message using children_induction with
  | step message ih =>
    rw [validateMessage_eq, descendantTypes_eq]
    have below : Covers oracle (eachThen (validateChild runtime) (children message) (pure (.ok ())))
        ((children message).flatMap (fun child => descendantTypes child.2) ++ []) := by
      apply covers_eachThen
      · exact fun child member => (ih child member).around (elementFramed_keepsExits child.1)
      · exact covers_ofCheck _
    rw [List.append_nil] at below
    intro failFast journal
    rcases runRules_covers below (oracle message.descriptor) failFast journal with same | ⟨early, leaves⟩
    · exact .inl (congrArg (message.descriptor :: ·) same)
    · exact .inr ⟨List.cons_prefix_cons.mpr ⟨rfl, early⟩, leaves⟩

end Messages

section Calls

variable {runtime : Runtime} {failFast : Bool} {message : Message}

theorem validate_asks (failFast : Bool) (message : Message) :
    (validate runtime failFast message).Asks (· ∈ descendantTypes message) :=
  (validateMessage_asks message failFast {}).bind fun _ => trivial

theorem validate_within (failFast : Bool) (message : Message) :
    (validate runtime failFast message).Within (descendants message).length := by
  have ends (result : Status × RuleContext) :
      (.done (returns result) : Asking Descriptor Rules (Except StatusError (List RuleViolation))).Within 0 := trivial
  exact (validateMessage_within message failFast {}).bind ends

theorem validate_givesUp (failFast : Bool) (message : Message) :
    (validate runtime failFast message).GivesUp fun type result => result = .error (notLoaded type) := by
  refine (validateMessage_givesUp message failFast {}).bind (fun type result told => ⟨_, rfl, ?_⟩) fun _ => trivial
  obtain ⟨status, ctx⟩ := result
  cases told
  rfl

/-- A run that returns no error asks for all types, unless it fails fast at a violation. -/
theorem validate_questions (oracle : Descriptor → Option Rules) (failFast : Bool) (message : Message) :
    (validate runtime failFast message).questions oracle <+: descendantTypes message ∧
      ∀ violations, (validate runtime failFast message).answer oracle = .ok violations →
        (failFast = true → violations = []) →
        (validate runtime failFast message).questions oracle = descendantTypes message := by
  rw [validate, Asking.questions_bind, Asking.answer_bind, Asking.questions, List.append_nil, Asking.answer]
  rcases validateMessage_covers oracle message failFast {} with same | ⟨early, leaves⟩
  · rw [same]
    exact ⟨List.prefix_refl _, fun _ _ _ => rfl⟩
  · refine ⟨early, fun violations succeeds clean => ?_⟩
    change Leaves failFast ((validateMessage runtime message failFast {}).answer oracle) at leaves
    generalize (validateMessage runtime message failFast {}).answer oracle = result at leaves succeeds
    obtain ⟨status, ctx⟩ := result
    cases status with
    | error failure => cases succeeds
    | ok _ =>
      cases succeeds
      simp only [Leaves, Check.exits, Except.isOk, Except.toBool, Bool.not_true, Bool.false_or, Bool.and_eq_true] at leaves
      have none_left := List.map_eq_nil_iff.mp (clean leaves.1)
      rw [none_left] at leaves
      cases leaves.2

end Calls

end Lookups
end Protovalidate.Validate
