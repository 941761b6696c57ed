import Protovalidate.Foundation.Flaws
import Protovalidate.Validate.FieldPlaces

/-! Which entries of a map have a violation of their key and one of their value, and that
these are the ones whose violations are mislabeled. -/

namespace Protovalidate.Validate

open Foundation Check

section Calls

variable (runtime : Runtime) (failFast : Bool)

/-- What a call comes to, whatever `rule` is bound to. -/
def callResult (started : Bool) (bound : Option CelValue) : Option Call → Outcome
  | none => { rule := bound }
  | some call => boundOutcome runtime call.rules call.this failFast started bound call.rules.exprs

/-- The loop over the entries gets to one whose key and value both add violations. A run
that fails fast gets to no other entry behind a violation. -/
def EntriesClash : Bool → Option CelValue → List (Option Call × Option Call) → Prop
  | _, _, [] => False
  | started, bound, (key, value) :: rest =>
    let afterKey := callResult runtime failFast started bound key
    let afterValue := callResult runtime failFast (started || afterKey.added) afterKey.rule value
    (afterKey.added = true ∧ afterValue.added = true) ∨ ((failFast && (afterKey.added || afterValue.added)) = false ∧
      EntriesClash (started || (afterKey.added || afterValue.added)) afterValue.rule rest)

end Calls

section Parts

variable {runtime : Runtime} {failFast : Bool} {ctx : RuleContext} {bound : Option CelValue} {activation left : Activation}
  {keyInfo valueInfo : FieldInfo} {keyRules valueRules : Option FieldRuleSet} {entry : Entry} {key : CelValue}

theorem held_free (held : Held runtime bound activation) : activation "this" = none := by
  simpa [Activation.insertValue, withRule, Activation.empty] using congrFun held "this"

/-- The violations that a part of a run has added, with what is known of each. -/
def Found (fits : RuleViolation → Prop) (added : Bool) (ctx after : RuleContext) : Prop :=
  ∃ late, after.entries = ctx.entries ++ late ∧ (late ≠ [] ↔ added = true) ∧ ∀ violation ∈ late, fits violation

theorem call_finds (held : Held runtime bound activation) (call : Call) (failFast : Bool) (ctx : RuleContext) :
    Held runtime (callResult runtime failFast (!ctx.entries.isEmpty) bound (some call)).rule
        ((call.rules.validateCel runtime (activation.insertValue "this" call.this) failFast ctx).1.2.removeValueEntry "this") ∧
      Found Plain (callResult runtime failFast (!ctx.entries.isEmpty) bound (some call)).added ctx
        (call.rules.validateCel runtime (activation.insertValue "this" call.this) failFast ctx).2 := by
  have ends := celLoop_bound runtime call.rules call.this failFast call.rules.exprs ctx bound
  have adds : Adds (fun _ => True) (fun _ => True) (CelFound (fun _ => True) call.rules call.this)
      (call.rules.validateCel runtime (activation.insertValue "this" call.this)) :=
    validateCel_adds _ (by simp [Activation.insertValue, held_free held])
  obtain ⟨late, events, run, found⟩ := adds failFast ctx
  rw [validateCel_held held] at run found ⊢
  have grew := ends.grew
  constructor
  · rw [releaseRules, ends.left]
    exact held_left _
  · refine ⟨late, by rw [run], ?_, fun violation member => (found (fun _ _ => trivial) trivial violation member).plain⟩
    change (_ : RuleContext) = _ at run
    rw [releaseRules] at run
    rw [run] at grew
    rw [callResult, ← grew, decide_eq_true_iff, ← List.length_pos_iff, List.length_append]
    omega

theorem grew_late {late : List RuleViolation} {added : Bool} {after : RuleContext} (run : after.entries = ctx.entries ++ late)
    (grew : late ≠ [] ↔ added = true) : decide (after.entries.length > ctx.entries.length) = added := by
  rw [run, List.length_append]
  cases late with
  | nil =>
    have quiet : added = false := by simpa using grew
    simp [quiet]
  | cons violation late =>
    have some : added = true := by simpa using grew
    simp [some]

theorem Found.grew {fits : RuleViolation → Prop} {added : Bool} {after : RuleContext} (found : Found fits added ctx after) :
    decide (after.entries.length > ctx.entries.length) = added := by
  obtain ⟨late, run, grew, -⟩ := found
  exact grew_late run grew

/-- Whether there are violations behind a part that has added some. -/
theorem started_late {late : List RuleViolation} {added : Bool} {after : RuleContext} (run : after.entries = ctx.entries ++ late)
    (grew : late ≠ [] ↔ added = true) : (!after.entries.isEmpty) = (!ctx.entries.isEmpty || added) := by
  refine started_after ?_ (grew_late run grew)
  rw [run, List.length_append]
  exact Nat.le_add_right _ _

theorem Found.started {fits : RuleViolation → Prop} {added : Bool} {after : RuleContext} (found : Found fits added ctx after) :
    (!after.entries.isEmpty) = (!ctx.entries.isEmpty || added) := by
  obtain ⟨late, run, grew, -⟩ := found
  exact started_late run grew

theorem Found.framed {fits fits' : RuleViolation → Prop} {added : Bool} {after : RuleContext} (found : Found fits added ctx after)
    {change : RuleViolation → RuleViolation} (moves : ∀ violation, fits violation → fits' (change violation)) :
    Found fits' added ctx (after.editFrom ctx.entries.length change) := by
  obtain ⟨late, run, grew, fine⟩ := found
  refine ⟨late.map change, by simp [Journal.editFrom, run], by simpa using grew, fun violation member => ?_⟩
  obtain ⟨inner, among, rfl⟩ := List.mem_map.mp member
  exact moves inner (fine inner among)

theorem found_none {fits : RuleViolation → Prop} : Found fits false ctx ctx :=
  ⟨[], (List.append_nil _).symm, by simp, fun _ impossible => by cases impossible⟩

/-- A violation as the rules of a key leave it. -/
def ForKey (keyInfo : FieldInfo) (entry : Entry) (violation : RuleViolation) : Prop :=
  violation.proto.forKey = true ∧ violation.fieldValue = some { message := .entry entry, descriptor := keyInfo }

theorem keyPart_finds (held : Held runtime bound activation)
    (goes : (MapValidationRules.keyPart runtime keyInfo keyRules entry key activation failFast ctx).1 = .ok left) :
    Held runtime (callResult runtime failFast (!ctx.entries.isEmpty) bound (partCall keyRules key)).rule left ∧
      Found (ForKey keyInfo entry) (callResult runtime failFast (!ctx.entries.isEmpty) bound (partCall keyRules key)).added ctx
        (MapValidationRules.keyPart runtime keyInfo keyRules entry key activation failFast ctx).2 := by
  cases calls : partCall keyRules key with
  | none =>
    rw [keyPart_none calls] at goes ⊢
    cases goes
    exact ⟨held, found_none⟩
  | some call =>
    obtain ⟨held', found⟩ := call_finds held call failFast ctx
    rw [keyPart_some calls, bind_apply, framedIf_apply] at goes ⊢
    generalize call.rules.validateCel runtime (activation.insertValue "this" call.this) failFast ctx = run at held' found goes ⊢
    obtain ⟨⟨status, left'⟩, after⟩ := run
    cases status with
    | error failure => cases goes
    | ok _ =>
      cases goes
      exact ⟨held', found.framed fun violation _ => ⟨rfl, rfl⟩⟩

/-- Where the value rules have found something, they set the field value of all that was
recorded from a position on. -/
theorem valuePart_finds {start : Nat} (held : Held runtime bound activation)
    (goes : (MapValidationRules.valuePart runtime valueInfo valueRules entry activation start failFast ctx).1 = .ok left)
    (result : Outcome) (isResult : result = callResult runtime failFast (!ctx.entries.isEmpty) bound
      (partCall valueRules (runtime.mapValue valueInfo entry.value))) :
    Held runtime result.rule left ∧ ∃ middle, Found (fun violation => violation.proto.forKey = false) result.added ctx middle ∧
      (MapValidationRules.valuePart runtime valueInfo valueRules entry activation start failFast ctx).2 =
        if result.added = true then middle.editFrom start fun violation =>
          violation.setFieldValue { message := .entry entry, descriptor := valueInfo }
        else middle := by
  subst isResult
  cases calls : partCall valueRules (runtime.mapValue valueInfo entry.value) with
  | none =>
    rw [valuePart_none calls] at goes ⊢
    cases goes
    exact ⟨held, ctx, found_none, rfl⟩
  | some call =>
    obtain ⟨held', found⟩ := call_finds held call failFast ctx
    rw [valuePart_some calls, bind_apply] at goes ⊢
    simp only [grown, framedIf_apply] at goes ⊢
    generalize call.rules.validateCel runtime (activation.insertValue "this" call.this) failFast ctx = run at held' found goes ⊢
    generalize callResult runtime failFast (!ctx.entries.isEmpty) bound (some call) = result at held' found ⊢
    obtain ⟨⟨status, left'⟩, after⟩ := run
    cases status with
    | error failure => cases goes
    | ok _ =>
      have placed : Found (fun violation => violation.proto.forKey = false) result.added ctx
          (after.editFrom ctx.entries.length (MapValidationRules.rulePath runtime .values)) :=
        found.framed fun violation plain => plain.forKey
      have grew := placed.grew
      simp only [Except.isOk, Except.toBool, ↓reduceIte] at goes grew ⊢
      rw [grew] at goes ⊢
      cases added : result.added with
      | true =>
        rw [added] at goes placed
        cases goes
        exact ⟨held', _, placed, rfl⟩
      | false =>
        rw [added] at goes placed
        cases goes
        exact ⟨held', _, placed, rfl⟩

/-- What a part has added, with a cause for those that are mislabeled. -/
def Clashed (added : Bool) (clash : Prop) (ctx after : RuleContext) : Prop :=
  ∃ late, after.entries = ctx.entries ++ late ∧ (late ≠ [] ↔ added = true) ∧ ((∃ violation ∈ late, Mislabeled violation) ↔ clash)

theorem ForKey.labeled {violation : RuleViolation} (number : keyInfo.number = 1) (forKey : ForKey keyInfo entry violation) :
    ¬Mislabeled violation := by
  rintro ⟨-, value, set, second⟩
  rw [forKey.2] at set
  cases set
  change keyInfo.number = 2 at second
  omega

/-- Where the value is set from the position of the entry on, the violations of the key
are mislabeled, and no others. -/
theorem crossed_mislabeled (number : valueInfo.number = 2) {early late : List RuleViolation}
    (forKey : ∀ violation ∈ early, ForKey keyInfo entry violation) (notKey : ∀ violation ∈ late, violation.proto.forKey = false) :
    (∃ violation ∈ (early ++ late).map fun violation => violation.setFieldValue { message := .entry entry, descriptor := valueInfo },
      Mislabeled violation) ↔ early ≠ [] := by
  constructor
  · rintro ⟨_, member, mislabeled⟩
    obtain ⟨violation, among, rfl⟩ := List.mem_map.mp member
    rcases List.mem_append.mp among with old | new
    · exact List.ne_nil_of_mem old
    · cases (notKey violation new).symm.trans mislabeled.1
  · intro some
    obtain ⟨violation, member⟩ := List.exists_mem_of_ne_nil early some
    exact ⟨_, List.mem_map_of_mem (List.mem_append_left _ member), (forKey violation member).1, _, rfl, number⟩

/-- What the rules of the key have recorded is mislabeled as soon as those of the value
record something. -/
theorem entryRules_finds (numbers : keyInfo.number = 1 ∧ valueInfo.number = 2) (held : Held runtime bound activation)
    (goes : (MapValidationRules.entryRules runtime keyInfo valueInfo keyRules valueRules entry key activation
      ctx.entries.length failFast ctx).1 = .ok left) (first second : Outcome)
    (isFirst : first = callResult runtime failFast (!ctx.entries.isEmpty) bound (partCall keyRules key))
    (isSecond : second = callResult runtime failFast (!ctx.entries.isEmpty || first.added) first.rule
      (partCall valueRules (runtime.mapValue valueInfo entry.value))) :
    Held runtime second.rule left ∧ Clashed (first.added || second.added) (first.added = true ∧ second.added = true) ctx
      (MapValidationRules.entryRules runtime keyInfo valueInfo keyRules valueRules entry key activation
        ctx.entries.length failFast ctx).2 := by
  have keyFinds (left : Activation) := @keyPart_finds runtime failFast ctx bound activation left keyInfo keyRules entry key held
  rw [← isFirst] at keyFinds
  unfold MapValidationRules.entryRules at goes ⊢
  rw [bind_apply] at goes ⊢
  generalize MapValidationRules.keyPart runtime keyInfo keyRules entry key activation failFast ctx = run at keyFinds goes ⊢
  obtain ⟨result, middle⟩ := run
  cases result with
  | error failure => cases goes
  | ok left' =>
    obtain ⟨held', found⟩ := keyFinds left' rfl
    rw [← found.started] at isSecond
    obtain ⟨held'', after, found', run⟩ := valuePart_finds held' goes second isSecond
    refine ⟨held'', ?_⟩
    simp only [run]
    obtain ⟨early, grown, grew, forKey⟩ := found
    obtain ⟨late, grown', grew', notKey⟩ := found'
    simp only at grown
    rw [grown] at grown'
    cases added : second.added with
    | false =>
      rw [added] at grew'
      have none : late = [] := by simpa using grew'
      refine ⟨early, by simpa [none] using grown', by simpa using grew, iff_of_false ?_ (by simp)⟩
      rintro ⟨violation, member, mislabeled⟩
      exact (forKey violation member).labeled numbers.1 mislabeled
    | true =>
      rw [added] at grew'
      refine ⟨(early ++ late).map fun violation => violation.setFieldValue { message := .entry entry, descriptor := valueInfo },
        ?_, ?_, ?_⟩
      · simp [Journal.editFrom, grown']
      · have some : late ≠ [] := by simpa using grew'
        simp [some]
      · rw [crossed_mislabeled numbers.2 forKey notKey, grew]
        simp

/-- The end of a round adds nothing and changes no field value. -/
theorem Clashed.placed {added : Bool} {clash : Prop} {after : RuleContext} (clashed : Clashed added clash ctx after)
    (base : FieldValidationRules) :
    Clashed added clash ctx (after.editFrom ctx.entries.length (entryPlaced base keyInfo valueInfo entry)) := by
  obtain ⟨late, run, grew, cause⟩ := clashed
  refine ⟨late.map (entryPlaced base keyInfo valueInfo entry), by simp [Journal.editFrom, run], by simpa using grew, ?_⟩
  rw [← cause]
  constructor
  · rintro ⟨_, member, mislabeled⟩
    obtain ⟨violation, among, rfl⟩ := List.mem_map.mp member
    exact ⟨violation, among, mislabeled⟩
  · rintro ⟨violation, among, mislabeled⟩
    exact ⟨_, List.mem_map_of_mem among, mislabeled⟩

/-- What a round comes to, told from the two calls of its entry. -/
inductive RoundFinds (runtime : Runtime) (failFast : Bool) (first second : Outcome) (ctx : RuleContext) :
    (Status ⊕ Activation) × RuleContext → Prop where
  | fails {failure : StatusError} {after : RuleContext} : RoundFinds runtime failFast first second ctx (.inl (.error failure), after)
  | leave {after : RuleContext} (leaves : (failFast && (first.added || second.added)) = true)
    (clashed : Clashed (first.added || second.added) (first.added = true ∧ second.added = true) ctx after) :
    RoundFinds runtime failFast first second ctx (.inl (.ok ()), after)
  | again {left : Activation} {after : RuleContext} (stays : (failFast && (first.added || second.added)) = false)
    (held : Held runtime second.rule left)
    (clashed : Clashed (first.added || second.added) (first.added = true ∧ second.added = true) ctx after) :
    RoundFinds runtime failFast first second ctx (.inr left, after)

variable {base : FieldValidationRules}

theorem entryRound_finds (valid : keyInfo.type.isMapKey = true) (numbers : keyInfo.number = 1 ∧ valueInfo.number = 2)
    (held : Held runtime bound activation) (first second : Outcome)
    (isFirst : first = callResult runtime failFast (!ctx.entries.isEmpty) bound (partCall keyRules key))
    (isSecond : second = callResult runtime failFast (!ctx.entries.isEmpty || first.added) first.rule
      (partCall valueRules (runtime.mapValue valueInfo entry.value))) :
    RoundFinds runtime failFast first second ctx
      (MapValidationRules.entryRound runtime base keyInfo valueInfo keyRules valueRules entry key activation failFast ctx) := by
  have finds (left : Activation) := @entryRules_finds runtime failFast ctx bound activation left keyInfo valueInfo keyRules
    valueRules entry key numbers held
  unfold MapValidationRules.entryRound
  simp only [scope]
  rw [bind_apply]
  simp only [grown]
  generalize MapValidationRules.entryRules runtime keyInfo valueInfo keyRules valueRules entry key activation
    ctx.entries.length failFast ctx = run at finds ⊢
  obtain ⟨result, after⟩ := run
  cases result with
  | error failure => exact .fails
  | ok left =>
    obtain ⟨held', clashed⟩ := finds left rfl first second isFirst isSecond
    have grew : decide (after.entries.length > ctx.entries.length) = (first.added || second.added) := by
      obtain ⟨late, run, grew, -⟩ := clashed
      exact grew_late run grew
    simp only [grew, entryEnd_run _ _ _ _ entry base valid]
    have placed : Clashed (first.added || second.added) (first.added = true ∧ second.added = true) ctx
        (if (first.added || second.added) = true then after.editFrom ctx.entries.length (entryPlaced base keyInfo valueInfo entry)
          else after) := by
      split
      · exact clashed.placed base
      · exact clashed
    by_cases leaves : (failFast && (first.added || second.added)) = true
    · rw [if_pos leaves]
      exact .leave leaves placed
    · rw [if_neg leaves]
      exact .again (Bool.eq_false_iff.mpr leaves) held' placed

/-- The loop over the entries mislabels violations if and only if it gets to an entry
whose key and value both add some. -/
theorem entryLoop_clashes (valid : keyInfo.type.isMapKey = true) (numbers : keyInfo.number = 1 ∧ valueInfo.number = 2)
    (entries : List (Entry × CelValue)) (held : Held runtime bound activation)
    (succeeds : (MapValidationRules.entryLoop runtime base keyInfo valueInfo keyRules valueRules entries activation
      failFast ctx).1 = .ok ()) :
    ∃ late, (MapValidationRules.entryLoop runtime base keyInfo valueInfo keyRules valueRules entries activation
        failFast ctx).2.entries = ctx.entries ++ late ∧
      ((∃ violation ∈ late, Mislabeled violation) ↔ EntriesClash runtime failFast (!ctx.entries.isEmpty) bound
        (entries.map (entryCalls runtime valueInfo keyRules valueRules))) := by
  induction entries generalizing activation ctx bound with
  | nil => exact ⟨[], (List.append_nil _).symm, by simp [EntriesClash]⟩
  | cons entry entries ih =>
    obtain ⟨entry, key⟩ := entry
    simp only [List.map_cons, EntriesClash, entryCalls]
    generalize isFirst : callResult runtime failFast (!ctx.entries.isEmpty) bound (partCall keyRules key) = first
    generalize isSecond : callResult runtime failFast (!ctx.entries.isEmpty || first.added) first.rule
      (partCall valueRules (runtime.mapValue valueInfo entry.value)) = second
    have round : RoundFinds runtime failFast first second ctx (MapValidationRules.entryRound runtime base keyInfo valueInfo
        keyRules valueRules entry key activation failFast ctx) :=
      entryRound_finds valid numbers held first second isFirst.symm isSecond.symm
    rw [MapValidationRules.entryLoop, bind_apply] at succeeds ⊢
    generalize MapValidationRules.entryRound runtime base keyInfo valueInfo keyRules valueRules entry key activation failFast
      ctx = run at round succeeds ⊢
    cases round with
    | fails => cases succeeds
    | leave leaves clashed =>
      obtain ⟨late, run, -, cause⟩ := clashed
      exact ⟨late, run, cause.trans (by simp [leaves])⟩
    | again stays held' clashed =>
      rename_i left after
      obtain ⟨early, run, grew, cause⟩ := clashed
      obtain ⟨late, run', cause'⟩ := ih held' succeeds
      refine ⟨early ++ late, by rw [run', run, List.append_assoc], ?_⟩
      rw [started_late run grew] at cause'
      simp only [List.mem_append, or_and_right, exists_or, cause, cause', stays, true_and]

end Parts

section Maps

variable (runtime : Runtime) (failFast : Bool) (base : FieldValidationRules) (keyRules valueRules : Option FieldRuleSet)
  (message : Message)

/-- The CEL rules of a map as a whole, which run before those of its entries. -/
def ownCall : Call where
  rules := base.toCelValidationRules
  this := runtime.createMap base.field (message.entries base.field)

/-- An entry that the rules of a map get to has violations of its key and of its value. -/
def MapClashes : Prop :=
  EntriesClash runtime failFast (callResult runtime failFast false none (some (ownCall runtime base message))).added none
    (mapCalls runtime base keyRules valueRules message)

variable {runtime failFast base keyRules valueRules message}

theorem FieldFound.unlabeled {seen : Event → Prop} {violation : RuleViolation}
    (found : FieldFound seen runtime message base violation) : ¬Mislabeled violation := by
  rintro ⟨forKey, -⟩
  cases found with
  | required => cases forKey
  | any _ _ found => cases found <;> cases forKey
  | cel _ found => cases found.plain.forKey.symm.trans forKey

theorem validateThis_started (trace : List Event) :
    (!(base.validateThis runtime message (ownCall runtime base message).this failFast ⟨[], trace⟩).2.entries.isEmpty) =
      (callResult runtime failFast false none (some (ownCall runtime base message))).added := by
  obtain ⟨-, found⟩ := call_finds held_empty (ownCall runtime base message) failFast ⟨[], trace⟩
  have started := found.started
  rw [FieldValidationRules.validateThis, bind_apply, framedIf_apply]
  change (!(if _ then _ else _ : RuleContext).entries.isEmpty) = _
  rw [apply_ite Journal.entries, apply_ite List.isEmpty, Journal.editFrom_isEmpty, ite_self]
  exact started.trans (Bool.false_or _)

theorem mapValidate_flawed (fields : EntryShape base.field) :
    Flawed Mislabeled failFast (MapClashes runtime failFast base keyRules valueRules message)
      (MapValidationRules.validate runtime base keyRules valueRules message) := by
  refine Steady.flawedBehind (mapValidate_steady runtime base keyRules valueRules message)
    (fieldValidate_adds.imp fun violation found => found.unlabeled) fun trace after own succeeds => ?_
  by_cases calls : ∃ calls, calls ∈ mapCalls runtime base keyRules valueRules message
  · obtain ⟨keyInfo, valueInfo, valid, keys, shape, some, loop, same⟩ :=
      mapCalls_reached runtime base keyRules valueRules message calls
    have whole : base.validate runtime message = base.validateThis runtime message (ownCall runtime base message).this :=
      fieldValidate_map runtime base message shape some
    have started := @validateThis_started runtime failFast base message trace
    rw [← whole, own] at started
    rw [loop] at succeeds ⊢
    rw [MapClashes, ← started, same]
    exact entryLoop_clashes valid (fields keyInfo valueInfo valid shape) _ held_empty succeeds
  · have none : mapCalls runtime base keyRules valueRules message = [] :=
      List.eq_nil_iff_forall_not_mem.mpr fun pair member => calls ⟨pair, member⟩
    obtain ⟨status, idle⟩ := validateEntries_idle runtime base keyRules valueRules message (by simp [none])
    rw [idle, MapClashes, none]
    exact ⟨[], (List.append_nil _).symm, by simp [EntriesClash]⟩

end Maps

end Protovalidate.Validate
