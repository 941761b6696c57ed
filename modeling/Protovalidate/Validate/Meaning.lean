import Protovalidate.Foundation.Clean
import Protovalidate.Validate.CelOutcome
import Protovalidate.Validate.Declared
import Protovalidate.Validate.ElementPairs

/-! What the options of a field demand of its value, told from the options alone, and
that the rules built from them pass exactly the values that meet it. -/

namespace Protovalidate.Validate

open Foundation Check

section Expressions

variable (runtime : Runtime) (cel : CelValidationRules) (this : CelValue)

/-- The verdict of an expression on a value. -/
def verdictOn (expr : CompiledRule) : Verdict :=
  verdict (runtime.evaluate expr.rule.expression (ownBindings runtime cel this expr))

/-- A value of which all expressions hold. -/
def MeetsCel : Prop := ∀ expr ∈ cel.exprs, verdictOn runtime cel this expr = .holds

/-- A value that violates no expression, unless one in front of it fails. -/
def Unviolated : Prop := ∀ front expr back, cel.exprs = front ++ expr :: back →
  verdictOn runtime cel this expr = .violated → ∃ early ∈ front, verdictOn runtime cel this early = .fails

variable {runtime cel this}

theorem outcome_clean (exprs : List CompiledRule) (started : Bool) (bound : Option CelValue) :
    ((outcome runtime cel this false started bound exprs).failed = false ∧
        (outcome runtime cel this false started bound exprs).added = false) ↔
      ∀ expr ∈ exprs, verdictOn runtime cel this expr = .holds := by
  induction exprs generalizing started bound with
  | nil => simp [outcome]
  | cons expr exprs ih =>
    rw [outcome, List.forall_mem_cons, ← ih started none, ← verdictOn]
    cases kind : verdictOn runtime cel this expr with
    | holds => simp
    | violated => simp
    | fails => simp

theorem outcome_silent (exprs : List CompiledRule) (started : Bool) (bound : Option CelValue) :
    (outcome runtime cel this false started bound exprs).added = false ↔ ∀ front expr back,
      exprs = front ++ expr :: back → verdictOn runtime cel this expr = .violated →
        ∃ early ∈ front, verdictOn runtime cel this early = .fails := by
  induction exprs generalizing started bound with
  | nil => simp [outcome]
  | cons first exprs ih =>
    rw [outcome, ← verdictOn]
    cases kind : verdictOn runtime cel this first with
    | holds =>
      simp only [Bool.false_and, Bool.false_eq_true, ↓reduceIte]
      rw [ih]
      constructor
      · intro later front expr back same violated
        cases front with
        | nil =>
          obtain ⟨rfl, -⟩ := List.cons.inj same
          rw [kind] at violated
          cases violated
        | cons other front =>
          obtain ⟨-, same⟩ := List.cons.inj same
          obtain ⟨early, member, fails⟩ := later front expr back same violated
          exact ⟨early, List.mem_cons_of_mem _ member, fails⟩
      · intro all front expr back same violated
        obtain ⟨early, member, fails⟩ := all (first :: front) expr back (congrArg _ same) violated
        rcases List.mem_cons.mp member with rfl | member
        · rw [kind] at fails
          cases fails
        · exact ⟨early, member, fails⟩
    | violated =>
      refine iff_of_false (by simp) fun all => ?_
      obtain ⟨early, impossible, -⟩ := all [] first exprs rfl kind
      cases impossible
    | fails =>
      refine iff_of_true rfl fun front expr back same violated => ?_
      cases front with
      | nil =>
        obtain ⟨rfl, -⟩ := List.cons.inj same
        rw [kind] at violated
        cases violated
      | cons other front =>
        obtain ⟨rfl, -⟩ := List.cons.inj same
        exact ⟨first, List.mem_cons_self, kind⟩

/-- The loop over all expressions, on its own. -/
theorem celLoop_alone : Ends runtime cel this (outcome runtime cel this false false none cel.exprs) {}
    (alone (cel.celLoop runtime cel.exprs (celBindings runtime cel this))) := by
  have ends := celLoop_outcome runtime cel this false cel.exprs {} none fun _ _ _ => Option.none_or
  rwa [withRule_none (celBindings_rule runtime cel this)] at ends

theorem celLoop_silent : Silent (cel.celLoop runtime cel.exprs (celBindings runtime cel this)) ↔
    (outcome runtime cel this false false none cel.exprs).added = false := by
  rw [← celLoop_alone.grew, Silent, decide_eq_false_iff_not, List.length_nil, Nat.not_lt, Nat.le_zero]
  exact List.length_eq_zero_iff.symm

theorem celLoop_succeeds : (alone (cel.celLoop runtime cel.exprs (celBindings runtime cel this))).1.1 = .ok () ↔
    (outcome runtime cel this false false none cel.exprs).failed = false := by
  rw [← Bool.not_eq_true', ← celLoop_alone.status]
  cases (alone (cel.celLoop runtime cel.exprs (celBindings runtime cel this))).1.1 with
  | error failure => simp [Except.isOk, Except.toBool]
  | ok _ => simp [Except.isOk, Except.toBool]

/-- A check with the bindings of a value. -/
abbrev celCheck (runtime : Runtime) (cel : CelValidationRules) (this : CelValue) : RuleCheck (Status × Activation) :=
  cel.validateCel runtime (Activation.empty.insertValue "this" this)

theorem celCheck_alone : alone (celCheck runtime cel this) =
    (((alone (cel.celLoop runtime cel.exprs (celBindings runtime cel this))).1.1,
      (alone (cel.celLoop runtime cel.exprs (celBindings runtime cel this))).1.2.removeValueEntry "rules"),
      (alone (cel.celLoop runtime cel.exprs (celBindings runtime cel this))).2) := by
  rw [celCheck, validateCel_eq runtime cel this (.inl rfl), alone_bind fun _ => steady_pure _, alone_pure,
    Journal.extend_nil]

theorem celCheck_silent : Silent (celCheck runtime cel this) ↔ Unviolated runtime cel this := by
  rw [Silent, celCheck_alone, ← Silent, celLoop_silent, outcome_silent]
  exact Iff.rfl

/-- `ValidateCel` passes a value if and only if all expressions hold of it. -/
theorem celCheck_clean : CleanIf (fun result => Succeeds result.1) (celCheck runtime cel this) ↔
    MeetsCel runtime cel this := by
  rw [CleanIf, Silent, celCheck_alone, ← Silent, celLoop_silent, Succeeds, celLoop_succeeds, outcome_clean]
  exact Iff.rfl

end Expressions

section Values

variable (context : BuildContext) (field : FieldDescriptor) (fieldLvl : FieldRules) (message : Message)

/-- Whether rules leave an empty value alone. -/
def IgnoresEmpty : Prop := fieldLvl.ignore = .ifZeroValue ∨ field.hasPresence = true ∧ field.mapEntry = false

/-- A message whose type URL the rules for `Any` allow. -/
def AllowsAny (any : AnyRules) (anyMsg : Message) : Prop :=
  ∃ typeUri, typeUrl anyMsg = some typeUri ∧ (any.in_ = [] ∨ typeUri ∈ any.in_) ∧ typeUri ∉ any.notIn

/-- The message in a singular field, or the default instance. -/
def heldMessage (runtime : Runtime) : Message :=
  match message.single field with
  | some (.message value) => value
  | _ => runtime.prototype field.messageType

/-- A list or a map that meets the rules of its field. Of an empty one nothing is asked
where empty values are ignored, not even that it is required. -/
def MeetsContainer (isEmpty : Bool) (this : CelValue) : Prop :=
  isEmpty = true ∧ IgnoresEmpty field fieldLvl ∨
    (isEmpty = true → fieldLvl.required = false) ∧ MeetsCel context.runtime (declared context fieldLvl) this

/-- The value of a singular field, which may be unset, meets its rules. -/
def MeetsSingular : Prop :=
  (message.hasField field = false → fieldLvl.required = false) ∧
    (message.hasField field = true ∨ ¬IgnoresEmpty field fieldLvl →
      (∀ any ∈ fieldLvl.type.anyRules, AllowsAny any (heldMessage field message context.runtime)) ∧
        ∃ this, context.runtime.createValueFromSingleField field.toFieldInfo (message.single field) = .ok this ∧
          MeetsCel context.runtime (declared context fieldLvl) this)

/-- The value of a field meets what its rules say of it as a whole. -/
def MeetsWhole : Prop :=
  match field.shape with
  | .singular => MeetsSingular context field fieldLvl message
  | .repeated => MeetsContainer context field fieldLvl (message.elements field).isEmpty
      (context.runtime.createList field (message.elements field))
  | .map _ _ _ => MeetsContainer context field fieldLvl (message.entries field).isEmpty
      (context.runtime.createMap field (message.entries field))

/-- An item meets the expressions and the lists for `Any` of the rules for items; whether
its enum number is defined is not asked. The status of the rules for `Any` hides that an
expression fails. -/
def MeetsItem (value : Value) : Prop :=
  let this := context.runtime.listItem field.toFieldInfo value
  IgnoresEmpty field fieldLvl ∧ isEmptyItem this = true ∨
    match fieldLvl.type.anyRules with
    | none => MeetsCel context.runtime (declared context fieldLvl) this
    | some any => AllowsAny any (anyMessage context.runtime field.toFieldInfo value) ∧
        Unviolated context.runtime (declared context fieldLvl) this

/-- A key or a value of a map meets the expressions of the rules for it, which is all that
is asked of it. -/
def MeetsElement (options : Option FieldRules) (this : CelValue) : Prop :=
  ∀ inner ∈ options, inner.ignore = .always ∨ (inner.ignore = .ifZeroValue ∧ isEmptyItem this = true) ∨
    MeetsCel context.runtime (declared context inner) this

variable {context field fieldLvl message} {runtime : Runtime}

theorem steady_emplaceBackIf_ok (condition : Bool) (violation : RuleViolation) :
    Steady (emplaceBackIf condition violation >>= fun _ => pure (.ok ()) : RuleCheck Status) :=
  SteadyAt.bind (steady_emplaceBackIf _ _) fun _ => steady_pure _

theorem silent_emplaceBackIf (condition : Bool) (violation : RuleViolation) :
    Silent (emplaceBackIf condition violation) ↔ condition = false := by
  cases condition with
  | false => exact iff_of_true rfl rfl
  | true => exact iff_of_false (fun impossible => by cases impossible) fun impossible => by cases impossible

theorem clean_emplaceBackIf (condition : Bool) (violation : RuleViolation) :
    Clean (emplaceBackIf condition violation >>= fun _ => pure (.ok ()) : RuleCheck Status) ↔ condition = false := by
  rw [Clean, cleanIf_bind fun _ => steady_pure _, silent_emplaceBackIf, and_iff_left clean_ok]

theorem validateAny_clean (any : AnyRules) (place : ProtoField) (anyMsg : Message) :
    Clean (FieldValidationRules.validateAny runtime any place anyMsg) ↔ AllowsAny any anyMsg := by
  unfold FieldValidationRules.validateAny AllowsAny typeUrl
  cases anyMsg.descriptor.findFieldByName "type_url" with
  | none => exact iff_of_false (not_clean_error _) fun ⟨_, impossible, _⟩ => by cases impossible
  | some typeUriField =>
    simp only
    split
    · exact iff_of_false (not_clean_error _) fun ⟨_, impossible, _⟩ => by cases impossible
    · refine (cleanIf_bind fun _ => steady_emplaceBackIf_ok _ _).trans ?_
      refine (and_congr (silent_emplaceBackIf _ _) (clean_emplaceBackIf _ _)).trans ?_
      simp [Classical.or_iff_not_imp_left]

theorem validateThis_clean (self : FieldValidationRules) (message : Message) (this : CelValue) :
    Clean (self.validateThis runtime message this) ↔ MeetsCel runtime self.toCelValidationRules this := by
  rw [FieldValidationRules.validateThis, ← celCheck_clean]
  refine (cleanIf_bind fun _ => steady_pure _).trans ?_
  rw [cleanIf_pure, silent_framedIf, alone_framedIf]
  exact And.comm

theorem ignoreEmpty_iff (cel : CelValidationRules) : (elementBase field fieldLvl cel).ignoreEmpty = true ↔
    IgnoresEmpty field fieldLvl := by
  simp [elementBase, FieldValidationRules.new, IgnoresEmpty]

theorem required_not_clean (self : FieldValidationRules) : ¬Clean (do
    emplaceBack (self.requiredViolation runtime message)
    pure (.ok ()) : RuleCheck Status) := fun clean => by cases clean.2

variable (cel : CelValidationRules)

theorem validateContainer_clean (isEmpty : Bool) (this : CelValue) :
    Clean ((elementBase field fieldLvl (declared context fieldLvl)).validateContainer context.runtime message isEmpty this) ↔
      MeetsContainer context field fieldLvl isEmpty this := by
  have skips : (elementBase field fieldLvl (declared context fieldLvl)).ignoreEmpty = true ↔ IgnoresEmpty field fieldLvl :=
    ignoreEmpty_iff _
  have needs : (elementBase field fieldLvl (declared context fieldLvl)).required = fieldLvl.required := rfl
  have meets : Clean ((elementBase field fieldLvl (declared context fieldLvl)).validateThis context.runtime message this) ↔
      MeetsCel context.runtime (declared context fieldLvl) this := validateThis_clean _ message this
  unfold FieldValidationRules.validateContainer MeetsContainer
  rw [← skips, ← needs, ← meets]
  cases isEmpty with
  | false => simp
  | true =>
    simp only [Bool.true_and, true_and, true_imp_iff]
    cases (elementBase field fieldLvl (declared context fieldLvl)).ignoreEmpty with
    | true => exact iff_of_true clean_ok (.inl rfl)
    | false =>
      simp only [Bool.false_eq_true, ↓reduceIte, false_or]
      cases (elementBase field fieldLvl (declared context fieldLvl)).required with
      | true => exact iff_of_false (required_not_clean _) fun both => by cases both.1
      | false => simp

/-- The rules for `Any` are only built for messages. -/
theorem wellFormed_any {any : AnyRules} (wellFormed : fieldLvl.type.WellFormed context field)
    (held : fieldLvl.type.anyRules = some any) : field.isCppMessage = true := by
  cases kind : fieldLvl.type with
  | any rules =>
    rw [kind, RuleType.WellFormed] at wellFormed
    exact (Bool.and_eq_true_iff.mp wellFormed.1).1
  | _ =>
    rw [kind] at held
    cases held

theorem validateSingleAny_clean (wellFormed : fieldLvl.type.WellFormed context field) :
    Clean ((elementBase field fieldLvl cel).validateSingleAny context.runtime message) ↔
      ∀ any ∈ fieldLvl.type.anyRules, AllowsAny any (heldMessage field message context.runtime) := by
  have rules : (elementBase field fieldLvl cel).anyRules = fieldLvl.type.anyRules := rfl
  unfold FieldValidationRules.validateSingleAny
  rw [rules]
  cases held : fieldLvl.type.anyRules with
  | none => exact iff_of_true clean_ok fun _ impossible => by cases impossible
  | some any =>
    have isMessage : (elementBase field fieldLvl cel).field.isCppMessage = true := wellFormed_any wellFormed held
    simp only [isMessage, ↓reduceIte, Option.mem_some_iff, forall_eq']
    exact validateAny_clean any _ _

theorem validateSingleValue_clean : Clean ((elementBase field fieldLvl cel).validateSingleValue context.runtime message) ↔
    ∃ this, context.runtime.createValueFromSingleField field.toFieldInfo (message.single field) = .ok this ∧
      MeetsCel context.runtime cel this := by
  have place : (elementBase field fieldLvl cel).field = field := rfl
  unfold FieldValidationRules.validateSingleValue
  rw [place]
  cases context.runtime.createValueFromSingleField field.toFieldInfo (message.single field) with
  | error failure => exact iff_of_false (not_clean_error failure) fun ⟨_, impossible, _⟩ => by cases impossible
  | ok this =>
    simp only [Except.ok.injEq, exists_eq_left']
    exact validateThis_clean _ message this

theorem validateSingular_clean (wellFormed : fieldLvl.type.WellFormed context field) :
    Clean ((elementBase field fieldLvl (declared context fieldLvl)).validateSingular context.runtime message) ↔
      MeetsSingular context field fieldLvl message := by
  have skips : (elementBase field fieldLvl (declared context fieldLvl)).ignoreEmpty = true ↔ IgnoresEmpty field fieldLvl :=
    ignoreEmpty_iff _
  have place : (elementBase field fieldLvl (declared context fieldLvl)).field = field := rfl
  have needs : (elementBase field fieldLvl (declared context fieldLvl)).required = fieldLvl.required := rfl
  have both : Clean (orFail
      ((elementBase field fieldLvl (declared context fieldLvl)).validateSingleAny context.runtime message)
      ((elementBase field fieldLvl (declared context fieldLvl)).validateSingleValue context.runtime message)) ↔ _ :=
    clean_orFail (singleValue_steady _ _ _)
  rw [validateSingleAny_clean _ wellFormed, validateSingleValue_clean] at both
  unfold FieldValidationRules.validateSingular MeetsSingular
  rw [← both, ← skips, ← needs, place]
  cases message.hasField field with
  | true => simp
  | false =>
    simp only [Bool.not_false, Bool.true_and, true_imp_iff, Bool.false_eq_true, false_or, Bool.not_eq_true]
    cases (elementBase field fieldLvl (declared context fieldLvl)).required with
    | true => exact iff_of_false (required_not_clean _) fun both => by cases both.1
    | false =>
      cases (elementBase field fieldLvl (declared context fieldLvl)).ignoreEmpty with
      | true => exact iff_of_true clean_ok ⟨rfl, fun impossible => by cases impossible⟩
      | false => simp

/-- The rules of a field as a whole, whatever its shape. -/
theorem fieldValidate_clean (wellFormed : fieldLvl.type.WellFormed context field) :
    Clean ((elementBase field fieldLvl (declared context fieldLvl)).validate context.runtime message) ↔
      MeetsWhole context field fieldLvl message := by
  have place : (elementBase field fieldLvl (declared context fieldLvl)).field = field := rfl
  unfold FieldValidationRules.validate MeetsWhole
  rw [place]
  cases field.shape with
  | singular =>
    refine (cleanIf_bind fun _ => singular_steady _ _ _).trans ?_
    exact (and_iff_right rfl).trans (validateSingular_clean wellFormed)
  | repeated => exact validateContainer_clean _ _
  | map _ _ _ => exact validateContainer_clean _ _

end Values

end Protovalidate.Validate
