import Protovalidate.Validate.FirstViolation
import Protovalidate.Validate.Stopping

/-! Which rules of lists and maps go on, in a run that fails fast, behind a violation
they have recorded themselves. -/

namespace Protovalidate.Validate

open Foundation Check

variable (runtime : Runtime)

section Items

variable (base items : FieldValidationRules) (message : Message)

/-- Whether the CEL rules record a violation in a run that fails fast. -/
def celAdds (cel : CelValidationRules) (this : CelValue) : Bool :=
  (outcome runtime cel this true false none cel.exprs).added

/-- The rules for `Any` record two violations, or one behind one of the CEL rules. -/
def ItemLeaks (item : Nat × Value) : Prop :=
  match items.anyRules with
  | none => False
  | some any =>
    1 < anyCount any (anyMessage runtime base.field.toFieldInfo item.2) ∨
      (0 < anyCount any (anyMessage runtime base.field.toFieldInfo item.2) ∧
        celAdds runtime items.toCelValidationRules (runtime.listItem base.field.toFieldInfo item.2) = true)

theorem validateCel_found (cel : CelValidationRules) (this : CelValue) (trace : List Event) :
    (cel.validateCel runtime (Activation.empty.insertValue "this" this) true ⟨[], trace⟩).2.entries ≠ [] ↔
      celAdds runtime cel this = true := by
  have ends := celLoop_outcome runtime cel this true cel.exprs ⟨[], trace⟩ none fun _ _ _ => Option.none_or
  have grew : decide (0 < _) = celAdds runtime cel this := ends.grew
  rw [validateCel_held held_empty, releaseRules, ← List.length_pos_iff, ← grew, decide_eq_true_iff]

/-- A part that records violations behind one that may have recorded one. -/
theorem Records.behind {β : Type} {part : RuleCheck β} {next : RuleCheck Status} {count : Nat} {adds : Prop}
    (records : Records next count) (before : Stopping False part)
    (tells : ∀ trace, (part true ⟨[], trace⟩).2.entries ≠ [] ↔ adds) :
    Stopping (1 < count ∨ (0 < count ∧ adds)) (do
      let _ ← part
      next) := by
  intro trace
  have halts := before trace
  have tells := tells trace
  rw [bind_apply]
  generalize part true ⟨[], trace⟩ = ended at halts tells ⊢
  obtain ⟨_, entries, events⟩ := ended
  by_cases empty : entries = []
  · subst empty
    refine (halts.next rfl (records.stops events)).of_iff ?_
    simp [← tells]
  · obtain ⟨status, found, run, rfl, _⟩ := records true ⟨entries, events⟩
    rw [run]
    cases found with
    | nil =>
      rw [recordAll_nil]
      exact halts.of_iff (by simp)
    | cons violation found =>
      refine (halts.overrun empty (by simp [recordAll, empty]) ⟨_, rfl, .recorded, ?_, trivial⟩).of_iff ?_
      · exact List.mem_replicate.mpr ⟨Nat.succ_ne_zero _, rfl⟩
      · simp [← tells, empty]

theorem itemRules_stops (item : Nat × Value) :
    Stopping (ItemLeaks runtime base items item) (RepeatedValidationRules.itemRules runtime base items message item) := by
  have cel := validateCel_stops runtime items.toCelValidationRules
    (Activation.empty.insertValue "this" (runtime.listItem base.field.toFieldInfo item.2))
  unfold RepeatedValidationRules.itemRules ItemLeaks
  cases items.anyRules with
  | none => exact cel.thenPure fun _ => ⟨_, rfl⟩
  | some any =>
    have records := validateAny_records runtime any
      { message := .message message, descriptor := base.field.toFieldInfo, index := some item.1 }
      (anyMessage runtime base.field.toFieldInfo item.2)
    exact records.behind cel fun trace => validateCel_found runtime _ _ trace

/-- Whether an item passes does not depend on the mode. -/
theorem itemRound_passed (item : Nat × Value) (trace : List Event) :
    Passed (RepeatedValidationRules.itemRound runtime base items message item) trace ↔
      Passes (RepeatedValidationRules.itemRound runtime base items message item) :=
  passed_iff ((itemRules_agrees runtime base items message item).framed (itemPlaced_uniform base message message runtime item.1))
    (itemRound_steady runtime base items message item) trace

/-- The rules of a list leak on their own, or those of an item do in front of which all
has passed. -/
def RepeatedLeaks (itemRules : Option FieldRuleSet) : Prop :=
  FieldLeaks runtime base message ∨
    (Passes (base.validate runtime message) ∧ ∃ rules, itemRules = some rules ∧
      Meets (fun item => Passes (RepeatedValidationRules.itemRound runtime base rules.base message item))
        (ItemLeaks runtime base rules.base)
        (RepeatedValidationRules.checked runtime base rules.base (message.elements base.field)))

theorem repeatedValidate_stops (itemRules : Option FieldRuleSet) :
    Stopping (RepeatedLeaks runtime base message itemRules)
      (RepeatedValidationRules.validate runtime base message itemRules) := by
  have passed := passed_iff (fieldValidate_agrees runtime base message) (fieldValidate_steady runtime base message)
  have own := fieldValidate_stops runtime base message
  unfold RepeatedLeaks
  cases itemRules with
  | none => exact (own.orExit (stops_pure _) passed).of_iff (by simp)
  | some rules =>
    refine (own.orExit (Stops.eachThen (fun item _ => (itemRules_stops runtime base rules.base message item).framed _)
      (fun item _ => itemRound_passed runtime base rules.base message item) (stops_pure _)) passed).of_iff ?_
    simp

end Items

section Calls

/-- A call that gets to an expression. -/
def CallEvaluates : Option Call → Prop
  | none => False
  | some call => call.rules.exprs ≠ []

/-- The rules of the value run behind a violation of the key. -/
def EntryLeaks (calls : Option Call × Option Call) : Prop :=
  (callOutcome runtime true false none calls.1).failed = false ∧
    (callOutcome runtime true false none calls.1).added = true ∧ CallEvaluates calls.2

/-- A call neither fails nor adds a violation. -/
def CallPasses (call : Option Call) : Prop :=
  (callOutcome runtime true false none call).failed = false ∧ (callOutcome runtime true false none call).added = false

/-- The loop over the entries gets to an entry that leaks. -/
def EntriesLeak : List (Option Call × Option Call) → Prop :=
  Meets (fun calls => CallPasses runtime calls.1 ∧ CallPasses runtime calls.2) (EntryLeaks runtime)

variable {runtime}

theorem outcome_through (cel : CelValidationRules) (this : CelValue) (exprs : List CompiledRule)
    (passed : (outcome runtime cel this true false none exprs).failed = false)
    (quiet : (outcome runtime cel this true false none exprs).added = false) :
    (outcome runtime cel this true false none exprs).rule = none := by
  induction exprs with
  | nil => rfl
  | cons expr exprs ih =>
    rw [outcome] at passed quiet ⊢
    cases kind : verdict (runtime.evaluate expr.rule.expression (ownBindings runtime cel this expr)) with
    | holds =>
      rw [kind] at passed quiet
      exact ih passed quiet
    | violated =>
      rw [kind] at quiet
      cases quiet
    | fails =>
      rw [kind] at passed
      cases passed

theorem callPasses_rule {call : Option Call} (passes : CallPasses runtime call) :
    (callOutcome runtime true false none call).rule = none := by
  cases call with
  | none => rfl
  | some call => exact outcome_through call.rules call.this call.rules.exprs passes.1 passes.2

/-- What the two calls of an entry come to. -/
def entryOutcome (runtime : Runtime) (calls : Option Call × Option Call) : Outcome :=
  (callOutcome runtime true false none calls.1).andThen
    (callOutcome runtime true (false || (callOutcome runtime true false none calls.1).added)
      (callOutcome runtime true false none calls.1).rule calls.2)

theorem entryOutcome_passes (calls : Option Call × Option Call) :
    CallPasses runtime calls.1 ∧ CallPasses runtime calls.2 ↔
      (entryOutcome runtime calls).failed = false ∧ (entryOutcome runtime calls).added = false := by
  simp only [entryOutcome, Outcome.andThen, Bool.or_eq_false_iff, Bool.false_or]
  constructor
  · rintro ⟨passes, passes'⟩
    rw [passes.2, callPasses_rule passes]
    exact ⟨⟨passes.1, passes'.1⟩, rfl, passes'.2⟩
  · rintro ⟨⟨passed, passed'⟩, quiet, quiet'⟩
    have passes : CallPasses runtime calls.1 := ⟨passed, quiet⟩
    rw [quiet, callPasses_rule passes] at passed' quiet'
    exact ⟨passes, passed', quiet'⟩

theorem entryOutcome_rule {calls : Option Call × Option Call} (passes : CallPasses runtime calls.1)
    (passes' : CallPasses runtime calls.2) : (entryOutcome runtime calls).rule = none := by
  rw [entryOutcome, passes.2, callPasses_rule passes]
  exact callPasses_rule passes'

theorem stale_evaluates {bound : Option CelValue} {call : Option Call} (stale : Stale runtime bound call) : CallEvaluates call := by
  cases call with
  | none => exact stale
  | some call =>
    obtain ⟨⟨rules, exprs⟩, this⟩ := call
    cases exprs with
    | nil => exact stale.elim
    | cons expr exprs => exact List.cons_ne_nil _ _

/-- Nothing is stale in an entry that does not leak. -/
theorem not_stale {calls : Option Call × Option Call} (tight : ¬EntryLeaks runtime calls) :
    ¬(Stale runtime none calls.1 ∨ ((callOutcome runtime true false none calls.1).failed = false ∧
      Stale runtime (callOutcome runtime true false none calls.1).rule calls.2)) := by
  rintro (early | ⟨passed, late⟩)
  · exact stale_unbound runtime _ early
  · cases added : (callOutcome runtime true false none calls.1).added with
    | true => exact tight ⟨passed, added, stale_evaluates late⟩
    | false =>
      rw [callPasses_rule ⟨passed, added⟩] at late
      exact stale_unbound runtime _ late

end Calls

section Entries

variable (activation : Activation) (base : FieldValidationRules) (keyInfo valueInfo : FieldInfo)
  (keyRules valueRules : Option FieldRuleSet) (entry : Entry) (key : CelValue)

theorem grown_pure {β : Type} (value : β) : grown (pure value : RuleCheck β) = pure (value, false) := by
  funext failFast ctx
  simp [grown, pure_apply]

theorem keyPart_stops : Stopping False (MapValidationRules.keyPart runtime keyInfo keyRules entry key activation) := by
  cases calls : partCall keyRules key with
  | none =>
    rw [keyPart_none calls]
    exact stops_pure _
  | some call =>
    rw [keyPart_some calls]
    refine ((validateCel_stops runtime _ _).framedIf _ _).thenPure fun result => ?_
    obtain ⟨status, left⟩ := result
    cases status with
    | error failure => exact ⟨_, rfl⟩
    | ok _ => exact ⟨_, rfl⟩

theorem valueEnd_keeps (start : Nat) (status : Status) (left : Activation) (grew failFast : Bool) (ctx : RuleContext) :
    (MapValidationRules.valueEnd valueInfo entry start status left grew failFast ctx).2.trace = ctx.trace ∧
      (MapValidationRules.valueEnd valueInfo entry start status left grew failFast ctx).2.entries.length = ctx.entries.length := by
  cases status with
  | error failure => exact ⟨rfl, rfl⟩
  | ok _ =>
    cases grew with
    | false => exact ⟨rfl, rfl⟩
    | true => exact ⟨rfl, Journal.editFrom_length _ _ _⟩

theorem valuePart_stops (start : Nat) :
    Stopping False (MapValidationRules.valuePart runtime valueInfo valueRules entry activation start) := by
  cases calls : partCall valueRules (runtime.mapValue valueInfo entry.value) with
  | none =>
    rw [valuePart_none calls]
    exact stops_pure _
  | some call =>
    rw [valuePart_some calls]
    intro trace
    have halts := (validateCel_stops runtime call.rules (activation.insertValue "this" call.this)).framedIf
      (fun result => result.1.isOk) (MapValidationRules.rulePath runtime .values) trace
    obtain ⟨sameTrace, sameLength⟩ := valueEnd_keeps valueInfo entry start _ _ _ true _
    exact halts.edit sameTrace sameLength

theorem valuePart_acts (start : Nat)
    (evaluates : CallEvaluates (partCall valueRules (runtime.mapValue valueInfo entry.value))) :
    Acting Acts (MapValidationRules.valuePart runtime valueInfo valueRules entry activation start) := by
  cases calls : partCall valueRules (runtime.mapValue valueInfo entry.value) with
  | none =>
    rw [calls] at evaluates
    exact evaluates.elim
  | some call =>
    rw [calls] at evaluates
    rw [valuePart_some calls]
    exact Acting.bind ((validateCel_acts runtime call.rules _ evaluates).framedIf _ _) fun _ => grows_valueEnd _ _ _ _ _ _

theorem valuePart_idle (never : ¬CallEvaluates (partCall valueRules (runtime.mapValue valueInfo entry.value))) :
    ∃ left, ∀ start, MapValidationRules.valuePart runtime valueInfo valueRules entry activation start = pure (.ok left) := by
  cases calls : partCall valueRules (runtime.mapValue valueInfo entry.value) with
  | none => exact ⟨_, fun _ => valuePart_none calls⟩
  | some call =>
    rw [calls] at never
    have none : call.rules.exprs = [] := Decidable.not_not.mp never
    obtain ⟨left, idle⟩ := validateCel_idle runtime call.rules (activation.insertValue "this" call.this) none
    refine ⟨left.removeValueEntry "this", fun start => ?_⟩
    rw [valuePart_some calls, idle, framedIf_pure, grown_pure]
    rfl

/-- The rules of an entry leak where those of its value run behind a violation of its key. -/
theorem entryRules_halts (held : Held runtime none activation) (trace : List Event) :
    Halts Recorded Acts (EntryLeaks runtime (entryCalls runtime valueInfo keyRules valueRules (entry, key))) trace
      (MapValidationRules.entryRules runtime keyInfo valueInfo keyRules valueRules entry key activation 0 true
        ⟨[], trace⟩).2 := by
  have keyEnds := (keyPart_diverges true ⟨[], trace⟩ keyInfo keyRules entry key held).results (stale_unbound runtime _)
  have keyHalts := keyPart_stops runtime activation keyInfo keyRules entry key trace
  unfold MapValidationRules.entryRules EntryLeaks entryCalls
  rw [bind_apply]
  change PartEnds runtime (callOutcome runtime true false none (partCall keyRules key)) ⟨[], trace⟩ _ _ at keyEnds
  generalize callOutcome runtime true false none (partCall keyRules key) = first at keyEnds ⊢
  generalize MapValidationRules.keyPart runtime keyInfo keyRules entry key activation true ⟨[], trace⟩ = run
    at keyEnds keyHalts ⊢
  generalize (MapValidationRules.keyPart runtime keyInfo keyRules entry key Activation.empty true ⟨[], trace⟩).1 = own
    at keyEnds
  cases keyEnds with
  | error failed => exact keyHalts.of_iff (by simp [failed])
  | ok passed held' longer grew =>
    rename_i left left' after
    obtain ⟨entries, events⟩ := after
    have added : first.added = true ↔ entries ≠ [] := by
      rw [← grew, decide_eq_true_iff, ← List.length_pos_iff]
      rfl
    by_cases empty : entries = []
    · subst empty
      refine (keyHalts.next rfl (valuePart_stops runtime left valueInfo valueRules entry 0 events)).of_iff ?_
      simp [added]
    · by_cases evaluates : CallEvaluates (partCall valueRules (runtime.mapValue valueInfo entry.value))
      · have kept := (valuePart_agrees runtime valueInfo valueRules entry left).2 true ⟨entries, events⟩ empty
        have acting := valuePart_acts runtime left valueInfo valueRules entry 0 evaluates true ⟨entries, events⟩
        exact (keyHalts.overrun empty kept.1 acting).of_iff (by simp [passed, added, empty, evaluates])
      · obtain ⟨_, idle⟩ := valuePart_idle runtime left valueInfo valueRules entry evaluates
        simp only [idle]
        exact keyHalts.of_iff (by simp [evaluates])

theorem entryRound_halts (valid : keyInfo.type.isMapKey = true) (held : Held runtime none activation) (trace : List Event) :
    Halts Recorded Acts (EntryLeaks runtime (entryCalls runtime valueInfo keyRules valueRules (entry, key))) trace
      (MapValidationRules.entryRound runtime base keyInfo valueInfo keyRules valueRules entry key activation true
        ⟨[], trace⟩).2 := by
  have rules := entryRules_halts runtime activation keyInfo valueInfo keyRules valueRules entry key held trace
  rw [entryRound_apply runtime base keyInfo valueInfo keyRules valueRules valid]
  generalize MapValidationRules.entryRules runtime keyInfo valueInfo keyRules valueRules entry key activation 0 true
    ⟨[], trace⟩ = run at rules ⊢
  obtain ⟨result, ctx⟩ := run
  cases result with
  | error failure => exact rules
  | ok left => exact rules.edit rfl (List.length_map _)

/-- Behind an entry that leaks, the rest of the loop changes nothing about it. -/
theorem entryLoop_spoiled (valid : keyInfo.type.isMapKey = true) (held : Held runtime none activation) (trace : List Event)
    (leaks : EntryLeaks runtime (entryCalls runtime valueInfo keyRules valueRules (entry, key)))
    (entries : List (Entry × CelValue)) :
    Halts Recorded Acts True trace
      (MapValidationRules.entryLoop runtime base keyInfo valueInfo keyRules valueRules ((entry, key) :: entries) activation
        true ⟨[], trace⟩).2 := by
  have round := entryRound_halts runtime activation base keyInfo valueInfo keyRules valueRules entry key valid held trace
  rw [MapValidationRules.entryLoop, bind_apply]
  generalize MapValidationRules.entryRound runtime base keyInfo valueInfo keyRules valueRules entry key activation true
    ⟨[], trace⟩ = run at round ⊢
  obtain ⟨result, after⟩ := run
  cases result with
  | inl status => exact round.of_iff (by simp [leaks])
  | inr left =>
    have grows : Grows (MapValidationRules.entryLoop runtime base keyInfo valueInfo keyRules valueRules entries left) :=
      grows_loop keyInfo valueInfo keyRules valueRules base entries left
    obtain ⟨late, grown, _⟩ := grows true after
    obtain ⟨more, kept⟩ := (entryLoop_steady runtime base keyInfo valueInfo keyRules valueRules entries left).extends true after
    refine round.spoiled leaks ⟨late, grown⟩ fun some => ?_
    rw [kept]
    simp [some]

theorem entryLoop_halts (valid : keyInfo.type.isMapKey = true) (entries : List (Entry × CelValue))
    (held : Held runtime none activation) (trace : List Event) :
    Halts Recorded Acts (EntriesLeak runtime (entries.map (entryCalls runtime valueInfo keyRules valueRules))) trace
      (MapValidationRules.entryLoop runtime base keyInfo valueInfo keyRules valueRules entries activation true
        ⟨[], trace⟩).2 := by
  induction entries generalizing activation trace with
  | nil => exact halts_idle.of_iff (iff_of_false not_false (meets_nil _ _))
  | cons entry entries ih =>
    obtain ⟨entry, key⟩ := entry
    have round := entryRound_halts runtime activation base keyInfo valueInfo keyRules valueRules entry key valid held trace
    have diverges := entryRound_diverges true ⟨[], trace⟩ keyInfo valueInfo keyRules valueRules entry key base valid held
      _ _ rfl rfl
    rw [List.map_cons, EntriesLeak, meets_cons, ← EntriesLeak]
    by_cases leaks : EntryLeaks runtime (entryCalls runtime valueInfo keyRules valueRules (entry, key))
    · exact (entryLoop_spoiled runtime activation base keyInfo valueInfo keyRules valueRules entry key valid held trace
        leaks entries).of_iff (by simp [leaks])
    · rw [MapValidationRules.entryLoop, bind_apply]
      have ends : RoundEnds runtime true (entryOutcome runtime (entryCalls runtime valueInfo keyRules valueRules (entry, key)))
          ⟨[], trace⟩ _ _ := diverges.results (not_stale leaks)
      generalize MapValidationRules.entryRound runtime base keyInfo valueInfo keyRules valueRules entry key activation true
        ⟨[], trace⟩ = run at round ends ⊢
      generalize (ownRound runtime base keyInfo valueInfo keyRules valueRules entry key true ⟨[], trace⟩).1 = own at ends
      simp only [entryOutcome_passes, leaks, false_or]
      cases ends with
      | leave leaves =>
        refine round.of_iff (iff_of_false leaks ?_)
        rintro ⟨⟨passed, quiet⟩, _⟩
        rw [passed, quiet] at leaves
        simp at leaves
      | again passed stays held' started =>
        have passes := (entryOutcome_passes _).mpr ⟨passed, stays⟩
        rename_i left left' after
        obtain ⟨entries', events⟩ := after
        have empty : entries' = [] := by
          have quiet : (!entries'.isEmpty) = (entryOutcome runtime _).added := started
          rw [show (entryOutcome runtime _).added = false from stays] at quiet
          simpa using quiet
        subst empty
        rw [entryOutcome_rule passes.1 passes.2] at held'
        refine (round.next rfl (ih left held' events)).of_iff ?_
        exact ⟨fun later => ⟨⟨passed, stays⟩, later⟩, fun both => both.2⟩

end Entries

section Maps

variable (activation : Activation) (base : FieldValidationRules) (keyInfo valueInfo : FieldInfo)
  (keyRules valueRules : Option FieldRuleSet) (entry : Entry) (key : CelValue)

/-- An entry with a call that gets to an expression. -/
def EntryEvaluates (calls : Option Call × Option Call) : Prop := CallEvaluates calls.1 ∨ CallEvaluates calls.2

theorem keyPart_idle (never : ¬CallEvaluates (partCall keyRules key)) :
    ∃ left, MapValidationRules.keyPart runtime keyInfo keyRules entry key activation = pure (.ok left) := by
  cases calls : partCall keyRules key with
  | none => exact ⟨_, keyPart_none calls⟩
  | some call =>
    rw [calls] at never
    have none : call.rules.exprs = [] := Decidable.not_not.mp never
    obtain ⟨left, idle⟩ := validateCel_idle runtime call.rules (activation.insertValue "this" call.this) none
    rw [keyPart_some calls, idle, framedIf_pure]
    exact ⟨_, rfl⟩

theorem keyPart_acts (evaluates : CallEvaluates (partCall keyRules key)) :
    Acting Acts (MapValidationRules.keyPart runtime keyInfo keyRules entry key activation) := by
  cases calls : partCall keyRules key with
  | none =>
    rw [calls] at evaluates
    exact evaluates.elim
  | some call =>
    rw [calls] at evaluates
    rw [keyPart_some calls]
    exact Acting.bind ((validateCel_acts runtime call.rules _ evaluates).framedIf _ _) grows_keyEnd

theorem entryRound_idle (never : ¬EntryEvaluates (entryCalls runtime valueInfo keyRules valueRules (entry, key))) :
    ∃ left, MapValidationRules.entryRound runtime base keyInfo valueInfo keyRules valueRules entry key activation =
      pure (.inr left) := by
  obtain ⟨left, keyIdle⟩ := keyPart_idle runtime activation keyInfo keyRules entry key fun evaluates => never (.inl evaluates)
  obtain ⟨left', valueIdle⟩ := valuePart_idle runtime left valueInfo valueRules entry fun evaluates => never (.inr evaluates)
  have rules (start : Nat) : MapValidationRules.entryRules runtime keyInfo valueInfo keyRules valueRules entry key
      activation start = pure (.ok left') := by
    rw [MapValidationRules.entryRules, keyIdle]
    exact valueIdle start
  refine ⟨left', ?_⟩
  simp only [MapValidationRules.entryRound, rules, grown_pure]
  rfl

theorem entryRound_acts (evaluates : EntryEvaluates (entryCalls runtime valueInfo keyRules valueRules (entry, key))) :
    Acting Acts (MapValidationRules.entryRound runtime base keyInfo valueInfo keyRules valueRules entry key activation) := by
  have rules (start : Nat) : Acting Acts (MapValidationRules.entryRules runtime keyInfo valueInfo keyRules valueRules entry
      key activation start) := by
    by_cases keyEvaluates : CallEvaluates (partCall keyRules key)
    · refine Acting.bind (keyPart_acts runtime activation keyInfo keyRules entry key keyEvaluates) fun result => ?_
      cases result with
      | error failure => exact logs_pure _
      | ok left => exact grows_valuePart valueInfo valueRules entry start left
    · obtain ⟨left, idle⟩ := keyPart_idle runtime activation keyInfo keyRules entry key keyEvaluates
      rw [MapValidationRules.entryRules, idle]
      exact valuePart_acts runtime left valueInfo valueRules entry start (evaluates.resolve_left keyEvaluates)
  intro failFast ctx
  have inside : Acting Acts (grown (MapValidationRules.entryRules runtime keyInfo valueInfo keyRules valueRules entry key
    activation ctx.entries.length)) := rules ctx.entries.length
  refine inside.bind (fun result => ?_) failFast ctx
  obtain ⟨result, grew⟩ := result
  cases result with
  | error failure => exact logs_pure _
  | ok left => exact grows_entryEnd keyInfo valueInfo entry base left _ grew

theorem entryLoop_idle (entries : List (Entry × CelValue))
    (never : ∀ calls ∈ entries.map (entryCalls runtime valueInfo keyRules valueRules), ¬EntryEvaluates calls) :
    MapValidationRules.entryLoop runtime base keyInfo valueInfo keyRules valueRules entries activation = pure (.ok ()) := by
  induction entries generalizing activation with
  | nil => rfl
  | cons entry entries ih =>
    obtain ⟨entry, key⟩ := entry
    obtain ⟨left, idle⟩ := entryRound_idle runtime activation base keyInfo valueInfo keyRules valueRules entry key
      (never _ (List.mem_cons_self ..))
    rw [MapValidationRules.entryLoop, idle]
    exact ih left fun calls among => never calls (List.mem_cons_of_mem _ among)

theorem entryLoop_acts (entries : List (Entry × CelValue))
    (evaluates : ∃ calls ∈ entries.map (entryCalls runtime valueInfo keyRules valueRules), EntryEvaluates calls) :
    Acting Acts (MapValidationRules.entryLoop runtime base keyInfo valueInfo keyRules valueRules entries activation) := by
  induction entries generalizing activation with
  | nil =>
    obtain ⟨_, impossible, _⟩ := evaluates
    cases impossible
  | cons entry entries ih =>
    obtain ⟨entry, key⟩ := entry
    rw [MapValidationRules.entryLoop]
    by_cases here : EntryEvaluates (entryCalls runtime valueInfo keyRules valueRules (entry, key))
    · refine (entryRound_acts runtime activation base keyInfo valueInfo keyRules valueRules entry key here).bind
        fun result => ?_
      cases result with
      | inl status => exact logs_pure _
      | inr left => exact grows_loop keyInfo valueInfo keyRules valueRules base entries left
    · obtain ⟨left, idle⟩ := entryRound_idle runtime activation base keyInfo valueInfo keyRules valueRules entry key here
      rw [idle]
      obtain ⟨calls, among, found⟩ := evaluates
      rcases List.mem_cons.mp among with rfl | later
      · exact (here found).elim
      · exact ih left ⟨calls, later, found⟩

variable (message : Message)

/-- The CEL rules neither fail nor record a violation, in a run that fails fast. -/
def CelPasses (cel : CelValidationRules) (this : CelValue) : Prop :=
  (outcome runtime cel this true false none cel.exprs).failed = false ∧ celAdds runtime cel this = false

/-- The key and value rules get to an expression, and the map's own CEL rules have
recorded a violation, or an entry leaks. -/
def MapLeaks : Prop := FieldLeaks runtime base message ∨
  ((∃ calls ∈ mapCalls runtime base keyRules valueRules message, EntryEvaluates calls) ∧
    (celAdds runtime base.toCelValidationRules (runtime.createMap base.field (message.entries base.field)) = true ∨
      (CelPasses runtime base.toCelValidationRules (runtime.createMap base.field (message.entries base.field)) ∧
        EntriesLeak runtime (mapCalls runtime base keyRules valueRules message))))

/-- In a run that fails fast the loop does not fail behind a violation. -/
theorem outcome_added (cel : CelValidationRules) (this : CelValue) (exprs : List CompiledRule)
    (added : (outcome runtime cel this true false none exprs).added = true) :
    (outcome runtime cel this true false none exprs).failed = false := by
  induction exprs with
  | nil => rfl
  | cons expr exprs ih =>
    rw [outcome] at added ⊢
    cases kind : verdict (runtime.evaluate expr.rule.expression (ownBindings runtime cel this expr)) with
    | holds =>
      rw [kind] at added
      exact ih added
    | violated => rfl
    | fails =>
      rw [kind] at added
      cases added

/-- What the CEL rules of a field come to. -/
theorem validateThis_ends (value : CelValue) (trace : List Event) :
    ((base.validateThis runtime message value true ⟨[], trace⟩).1.isOk =
        !(outcome runtime base.toCelValidationRules value true false none base.exprs).failed) ∧
      ((base.validateThis runtime message value true ⟨[], trace⟩).2.entries ≠ [] ↔
        celAdds runtime base.toCelValidationRules value = true) := by
  have ends := (call_diverges true ⟨[], trace⟩ held_empty ⟨base.toCelValidationRules, value⟩).results (stale_unbound runtime _)
  have found := validateCel_found runtime base.toCelValidationRules value trace
  rw [FieldValidationRules.validateThis, bind_apply, framedIf_apply]
  refine ⟨ends.failed, Iff.trans ?_ found⟩
  change (if _ then _ else _ : RuleContext).entries ≠ [] ↔ _
  rw [← List.isEmpty_eq_false_iff, apply_ite Journal.entries, apply_ite List.isEmpty, Journal.editFrom_isEmpty, ite_self,
    List.isEmpty_eq_false_iff]

theorem validateEntries_idle (never : ¬∃ calls ∈ mapCalls runtime base keyRules valueRules message, EntryEvaluates calls) :
    ∃ status, MapValidationRules.validateEntries runtime base keyRules valueRules message = pure status := by
  unfold MapValidationRules.validateEntries
  unfold mapCalls at never
  split
  · exact ⟨_, rfl⟩
  · rename_i some
    rw [if_neg some] at never
    cases shape : base.field.shape with
    | map keyInfo valueInfo valid =>
      rw [shape] at never
      simp only at never ⊢
      cases listed : runtime.listKeys keyInfo ((message.entries base.field).map Entry.key) with
      | error failure => exact ⟨_, rfl⟩
      | ok keys =>
        rw [listed] at never
        exact ⟨_, entryLoop_idle runtime _ base keyInfo valueInfo keyRules valueRules _ fun calls among evaluates =>
          never ⟨calls, among, evaluates⟩⟩
    | _ => exact ⟨_, rfl⟩

/-- Where there are calls, the loop over the entries is run, and the map is not empty. -/
theorem mapCalls_reached (calls : ∃ calls, calls ∈ mapCalls runtime base keyRules valueRules message) :
    ∃ keyInfo valueInfo valid keys, base.field.shape = .map keyInfo valueInfo valid ∧
      message.entries base.field ≠ [] ∧
      MapValidationRules.validateEntries runtime base keyRules valueRules message =
        MapValidationRules.entryLoop runtime base keyInfo valueInfo keyRules valueRules
          ((message.entries base.field).zip keys) Activation.empty ∧
      mapCalls runtime base keyRules valueRules message =
        ((message.entries base.field).zip keys).map (entryCalls runtime valueInfo keyRules valueRules) := by
  obtain ⟨calls, among⟩ := calls
  unfold MapValidationRules.validateEntries
  unfold mapCalls at among ⊢
  split at among
  · cases among
  · rename_i some
    simp only [some, Bool.false_eq_true, ↓reduceIte]
    cases shape : base.field.shape with
    | map keyInfo valueInfo valid =>
      rw [shape] at among
      simp only at among ⊢
      cases listed : runtime.listKeys keyInfo ((message.entries base.field).map Entry.key) with
      | error failure =>
        rw [listed] at among
        cases among
      | ok keys =>
        rw [listed] at among
        refine ⟨keyInfo, valueInfo, valid, keys, rfl, fun empty => ?_, rfl, rfl⟩
        rw [empty] at among
        cases among
    | singular =>
      rw [shape] at among
      cases among
    | repeated =>
      rw [shape] at among
      cases among

theorem validateThis_ok (value : CelValue) (trace : List Event) :
    (base.validateThis runtime message value true ⟨[], trace⟩).1 = .ok () ↔
      (outcome runtime base.toCelValidationRules value true false none base.exprs).failed = false := by
  rw [← Bool.not_eq_true', ← (validateThis_ends runtime base message value trace).1]
  cases (base.validateThis runtime message value true ⟨[], trace⟩).1 with
  | error failure => simp [Except.isOk, Except.toBool]
  | ok _ => simp [Except.isOk, Except.toBool]

theorem validateThis_quiet (value : CelValue) (trace : List Event) :
    (base.validateThis runtime message value true ⟨[], trace⟩).2.entries = [] ↔
      celAdds runtime base.toCelValidationRules value = false := by
  rw [← Bool.not_eq_true, ← (validateThis_ends runtime base message value trace).2]
  exact (Decidable.not_not (p := _ = [])).symm

/-- The rules of a map that is not empty get to its CEL rules. -/
theorem fieldValidate_map {keyInfo valueInfo : FieldInfo} {valid : keyInfo.type.isMapKey = true}
    (shape : base.field.shape = .map keyInfo valueInfo valid) (some : message.entries base.field ≠ []) :
    base.validate runtime message =
      base.validateThis runtime message (runtime.createMap base.field (message.entries base.field)) := by
  rw [FieldValidationRules.validate, shape]
  simp [FieldValidationRules.validateContainer, some]

theorem mapValidate_stops : Stopping (MapLeaks runtime base keyRules valueRules message)
    (MapValidationRules.validate runtime base keyRules valueRules message) := by
  have own := fieldValidate_stops runtime base message
  rw [MapValidationRules.validate]
  by_cases evaluates : ∃ calls ∈ mapCalls runtime base keyRules valueRules message, EntryEvaluates calls
  · obtain ⟨calls, among, found⟩ := evaluates
    obtain ⟨keyInfo, valueInfo, valid, keys, shape, some, loop, same⟩ :=
      mapCalls_reached runtime base keyRules valueRules message ⟨calls, among⟩
    have evaluates : ∃ calls ∈ mapCalls runtime base keyRules valueRules message, EntryEvaluates calls := ⟨calls, among, found⟩
    rw [loop]
    refine own.orFail_acting (fun trace => entryLoop_halts runtime _ base keyInfo valueInfo keyRules valueRules valid _
      held_empty trace) (entryLoop_acts runtime _ base keyInfo valueInfo keyRules valueRules _ (same ▸ evaluates))
      (entryLoop_steady runtime base keyInfo valueInfo keyRules valueRules _ _) fun trace => ?_
    have early := outcome_added runtime base.toCelValidationRules
      (runtime.createMap base.field (message.entries base.field)) base.exprs
    have adds := (validateThis_ends runtime base message
      (runtime.createMap base.field (message.entries base.field)) trace).2
    rw [Passed, fieldValidate_map runtime base message shape some, ← same, MapLeaks, CelPasses, adds, validateThis_ok, validateThis_quiet]
    simp only [evaluates, true_and]
    exact or_congr_right (or_congr_left ⟨fun added => ⟨early added, added⟩, fun both => both.2⟩)
  · obtain ⟨status, idle⟩ := validateEntries_idle runtime base keyRules valueRules message evaluates
    rw [idle]
    exact own.orFail_idle.of_iff (by simp [MapLeaks, evaluates])

end Maps
end Protovalidate.Validate
