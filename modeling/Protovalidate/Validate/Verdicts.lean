import Protovalidate.Validate.Acceptance
import Protovalidate.Validate.LoadedTypes

/-! The verdict of a whole run and the status of `Add`, both told from the options of the
message types: no violations are found if and only if the message and everything below it
meet the options of their types. -/

namespace Protovalidate.Validate

open Foundation Check Relation

section Runs

variable {factory : ValidatorFactory} {message : Message}

/-- A message is clean if its own rules are found and clean, and its children are clean. -/
theorem validateMessage_clean : Clean (Validator.validateMessage factory message) ↔
    (∃ rules, factory.rulesOf message.descriptor = .ok rules ∧
      ∀ rule ∈ rules, Clean (rule.validate factory.context.runtime message)) ∧
    ∀ child ∈ children message, Clean (Validator.validateMessage factory child.2) := by
  rw [Validator.validateMessage_eq]
  cases factory.rulesOf message.descriptor with
  | error failure =>
    refine iff_of_false (not_clean_error failure) ?_
    rintro ⟨⟨rules, impossible, -⟩, -⟩
    cases impossible
  | ok rules =>
    have steadyChildren : Steady (eachThen (Validator.validateChild factory) (children message) (pure (.ok ()))) :=
      childLoop_steady factory fun child _ => validateMessage_steady child.2 factory
    have below : Clean (eachThen (Validator.validateChild factory) (children message) (pure (.ok ()))) ↔
        ∀ child ∈ children message, Clean (Validator.validateMessage factory child.2) := by
      rw [clean_eachThen (fun child _ => (validateMessage_steady child.2 factory).framed _) (steady_pure _),
        and_iff_left clean_ok]
      exact forall₂_congr fun child _ => clean_framed _
    simp only [Except.ok.injEq, exists_eq_left']
    rw [clean_eachThen (fun rule _ => rulesValidate_steady _ message rule) steadyChildren, below]

/-- A run is clean if the rules of all messages that it comes to are. -/
theorem validateMessage_descendants : Clean (Validator.validateMessage factory message) ↔
    ∀ sub, ReflTransGen Child message sub → ∃ rules, factory.rulesOf sub.descriptor = .ok rules ∧
      ∀ rule ∈ rules, Clean (rule.validate factory.context.runtime sub) := by
  induction message using children_induction with
  | step message ih =>
    rw [validateMessage_clean]
    constructor
    · rintro ⟨own, below⟩ sub path
      rcases path.cases_head with rfl | ⟨child, ⟨element, member⟩, rest⟩
      · exact own
      · exact (ih (element, child) member).mp (below (element, child) member) sub rest
    · intro all
      refine ⟨all message .refl, fun child member => (ih child member).mpr fun sub rest => ?_⟩
      exact all sub (rest.head ⟨child.1, member⟩)

/-- Both modes find no violations in the same messages. -/
theorem validate_clean (failFast : Bool) :
    Validator.validate factory failFast message = .ok [] ↔ Clean (Validator.validateMessage factory message) := by
  have full : Validator.run factory false message = alone (Validator.validateMessage factory message) := rfl
  have agreement : (Validator.run factory failFast message).1 = .ok () ∧ (Validator.run factory failFast message).2.entries = [] ↔
      Clean (Validator.validateMessage factory message) := by
    cases failFast with
    | false => rw [full]; exact Iff.rfl
    | true =>
      obtain ⟨same, -⟩ | ⟨fast, slow, -⟩ := validateMessage_agrees message factory []
      · have runs : Validator.run factory true message = Validator.run factory false message := same
        rw [runs, full]
        exact Iff.rfl
      · exact iff_of_false (fun both => fast both.2) fun clean => slow clean.2
  rw [Validator.validate_ok, ← agreement]
  exact and_congr_right fun _ => eq_comm.trans List.map_eq_nil_iff

end Runs

section Factories

variable {pool : DescriptorPool} {context : BuildContext} {state : FactoryState pool} {type : MessageType pool}

/-- The validator finds the rules of a type unless there are none, or they are not loaded
and must not be loaded lazily. -/
theorem Consistent.rulesOf_iff (consistent : Consistent context state) :
    (∃ rules, (state.factory context).rulesOf type.descriptor = .ok rules) ↔
      Compiles context type ∧ (state.disableLazyLoading = true → Present state type) := by
  constructor
  · rintro ⟨rules, found⟩
    refine ⟨⟨rules, consistent.rulesOf found⟩, fun disabled => ?_⟩
    cases held : state.rules type with
    | some stored => exact ⟨stored, held⟩
    | none =>
      unfold ValidatorFactory.rulesOf at found
      rw [← FactoryState.getMessageRules_factory, FactoryState.getMessageRules, FactoryState.lookupSection] at found
      simp only [held, disabled] at found
      cases found
  · rintro ⟨compiles, loaded⟩
    cases held : state.rules type with
    | some stored =>
      exact (conforms_empty type).rulesOf held ((consistent.status_iff held).mpr compiles)
    | none =>
      have lazily : state.disableLazyLoading = false := by
        refine Bool.eq_false_iff.mpr fun disabled => ?_
        obtain ⟨stored, present⟩ := loaded disabled
        rw [held] at present
        cases present
      obtain ⟨rules, built⟩ := compiles
      refine ⟨rules, ?_⟩
      unfold ValidatorFactory.rulesOf
      rw [← FactoryState.getMessageRules_factory, FactoryState.getMessageRules, FactoryState.lookupSection]
      simp only [held, lazily, FactoryState.loadSection, FactoryState.emplace]
      exact built

/-- The verdict of a consistent factory, told from the options of the types. -/
theorem Consistent.validate_iff (consistent : Consistent context state) {message : Message} (conforms : Conforms type message)
    (accessible : ∀ descriptor ∈ pool.types, descriptor.Accessible) (failFast : Bool) :
    Validator.validate (state.factory context) failFast message = .ok [] ↔
      ∀ sub next, ReflTransGen Child message sub → Conforms next sub →
        next.descriptor.WellFormed context ∧ MeetsMessage context sub ∧
          (state.disableLazyLoading = true → Present state next) := by
  rw [validate_clean, validateMessage_descendants]
  have found (sub : Message) (next : MessageType pool) (conforms : Conforms next sub) :
      (∃ rules, (state.factory context).rulesOf sub.descriptor = .ok rules ∧
        ∀ rule ∈ rules, Clean (rule.validate context.runtime sub)) ↔
      next.descriptor.WellFormed context ∧ MeetsMessage context sub ∧
        (state.disableLazyLoading = true → Present state next) := by
    have access : sub.descriptor.Accessible := by
      rw [conforms.descriptor_eq]
      exact accessible _ next.declared
    have meets {rules : List ValidationRules} (built : newMessageRules context next.descriptor = .ok rules) :
        (∀ rule ∈ rules, Clean (rule.validate context.runtime sub)) ↔ MeetsMessage context sub := by
      rw [← conforms.descriptor_eq] at built
      exact newMessageRules_clean access built
    rw [conforms.descriptor_eq]
    constructor
    · rintro ⟨rules, found, clean⟩
      have built := consistent.rulesOf found
      obtain ⟨-, loaded⟩ := consistent.rulesOf_iff.mp ⟨rules, found⟩
      exact ⟨builds_newMessageRules.mp ⟨rules, built⟩, (meets built).mp clean, loaded⟩
    · rintro ⟨wellFormed, met, loaded⟩
      obtain ⟨rules, found⟩ := consistent.rulesOf_iff.mpr ⟨builds_newMessageRules.mpr wellFormed, loaded⟩
      exact ⟨rules, found, (meets (consistent.rulesOf found)).mpr met⟩
  constructor
  · exact fun all sub next path conforms => (found sub next conforms).mp (all sub path)
  · intro all sub path
    obtain ⟨next, -, conforms⟩ := conforms.descendant path
    exact (found sub next conforms).mpr (all sub next path conforms)

/-- Whatever has been called before, `Validate` finds no violations in a message, in
either mode, if and only if the options of all types that it comes to are well formed,
every message below the message meets the options of its type as far as they are read,
and the rules of these types are loaded or may be. -/
theorem validate_meets (context : BuildContext) (history : List (Operation pool)) {message : Message}
    (conforms : Conforms type message) (accessible : ∀ descriptor ∈ pool.types, descriptor.Accessible) (failFast : Bool) :
    Validator.validate ((performAll context {} history).factory context) failFast message = .ok [] ↔
      ∀ sub next, ReflTransGen Child message sub → Conforms next sub →
        next.descriptor.WellFormed context ∧ MeetsMessage context sub ∧
          ((performAll context {} history).disableLazyLoading = true → Present (performAll context {} history) next) :=
  (performAll_consistent history consistent_new).validate_iff conforms accessible failFast

/-- `Add` reports success if and only if the options of all types that it comes to are
well formed. In a new factory these are all types that can be reached. -/
theorem add_wellFormed (context : BuildContext) (history : List (Operation pool)) (type : MessageType pool) :
    (((performAll context {} history).add context type).1 = .ok () ↔
      ∀ next, Search.Visits MessageType.messageFields (Present (performAll context {} history)) [type] next →
        next.descriptor.WellFormed context) ∧
    ((({} : FactoryState pool).add context type).1 = .ok () ↔
      ∀ next, ReflTransGen Embeds type next → next.descriptor.WellFormed context) := by
  have searches {state : FactoryState pool} (consistent : Consistent context state) : (state.add context type).1 = .ok () ↔
      ∀ next, Search.Visits MessageType.messageFields (Present state) [type] next → next.descriptor.WellFormed context := by
    rw [add_ok_iff consistent]
    exact forall₂_congr fun next _ => builds_newMessageRules
  refine ⟨searches (performAll_consistent history consistent_new), (searches consistent_new).trans ?_⟩
  have absent (next : MessageType pool) : ¬Present ({} : FactoryState pool) next := by
    rintro ⟨stored, impossible⟩
    cases impossible
  refine forall_congr' fun next => imp_congr_left ?_
  have reached : Present ({} : FactoryState pool) next ∨ Search.Visits MessageType.messageFields (Present {}) [type] next ↔
      Present ({} : FactoryState pool) next ∨ ∃ root ∈ [type], ReflTransGen Embeds root next :=
    Search.visits_closed complete_new
  rw [or_iff_right (absent next), or_iff_right (absent next)] at reached
  simpa only [List.mem_singleton, exists_eq_left] using reached

end Factories

section Sample

def titleField : FieldDescriptor where
  number := 1
  name := "title"
  fullName := "Book.title"
  type := .string
  options := some ⟨none, true, [{ id := "title.set", expression := "this != ''" }], [], .notSet⟩

def booksField : FieldDescriptor where
  number := 1
  name := "books"
  fullName := "Shelf.books"
  type := .message
  messageType := "Book"
  shape := .repeated

def bookDescriptor : Descriptor := { fullName := "Book", fields := [titleField] }

def shelfDescriptor : Descriptor := { fullName := "Shelf", fields := [booksField] }

/-- Shelves hold books, which have titles. -/
def library : DescriptorPool where
  types := [shelfDescriptor, bookDescriptor]
  distinct := by simp [shelfDescriptor, bookDescriptor]

def shelfType : MessageType library := ⟨shelfDescriptor, List.mem_cons_self⟩

def bookType : MessageType library := ⟨bookDescriptor, List.mem_cons_of_mem _ List.mem_cons_self⟩

def book (title : String) : Message := ⟨bookDescriptor, [.mk titleField (.singular (.scalar (.string title)))]⟩

def shelf (title : String) : Message := ⟨shelfDescriptor, [.mk booksField (.repeated [.message (book title)])]⟩

theorem conforms_book (title : String) : Conforms bookType (book title) := by
  refine .mk rfl (fun field value member => ?_) (fun field value member inner held => ?_)
    (fun field value member inner held => ?_)
  all_goals cases List.mem_singleton.mp member
  · exact List.mem_cons_self
  · cases List.mem_singleton.mp held
  · cases List.mem_singleton.mp held

theorem conforms_shelf (title : String) : Conforms shelfType (shelf title) := by
  refine .mk rfl (fun field value member => ?_) (fun field value member inner held => ⟨bookType, ?_⟩)
    (fun field value member inner held next found => ?_)
  all_goals cases List.mem_singleton.mp member
  · exact List.mem_cons_self
  · rfl
  · cases found.symm.trans (show library.elementType booksField = some bookType from rfl)
    cases List.mem_singleton.mp held
    exact conforms_book title

theorem accessible_library : ∀ descriptor ∈ library.types, descriptor.Accessible := by
  intro descriptor declared
  rcases List.mem_cons.mp declared with rfl | declared
  · refine ⟨fun _ impossible => (by cases impossible), fun field member options set => ?_⟩
    cases List.mem_singleton.mp member
    cases set
  · cases List.mem_singleton.mp declared
    refine ⟨fun _ impossible => (by cases impossible), fun field member options set rules kind => ?_⟩
    cases List.mem_singleton.mp member
    cases set
    cases kind

def libraryContext : BuildContext := { runtime := plainRuntime nonEmpty }

/-- Books are validated lazily behind a shelf: one with a title meets its options, and one
without a title does not. -/
theorem validate_meets_shelf :
    MeetsMessage libraryContext (book "Ulysses") ∧
      ¬∀ sub next, ReflTransGen Child (shelf "") sub → Conforms next sub →
        next.descriptor.WellFormed libraryContext ∧ MeetsMessage libraryContext sub ∧
          ((performAll libraryContext {} [.add shelfType]).disableLazyLoading = true →
            Present (performAll libraryContext {} [.add shelfType]) next) := by
  constructor
  · have clean := (validate_meets libraryContext [.add shelfType] (conforms_shelf "Ulysses") accessible_library true).mp rfl
    refine (clean (book "Ulysses") bookType (.single ⟨_, List.mem_cons_self⟩) (conforms_book _)).2.1
  · intro meets
    have clean := (validate_meets libraryContext [.add shelfType] (conforms_shelf "") accessible_library false).mpr meets
    have found : (Validator.validate ((performAll libraryContext ({} : FactoryState library) [.add shelfType]).factory
      libraryContext) false (shelf "")).map List.length = .ok 1 := rfl
    rw [clean] at found
    cases found

end Sample

end Protovalidate.Validate
