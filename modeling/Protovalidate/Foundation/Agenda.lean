import Mathlib.Data.List.Nodup
import Protovalidate.Foundation.Additions

/-! Checks that work through an agenda: the entries that they add are told, by a key, to
be some of a list that is known before the run, in its order. -/

namespace Protovalidate.Foundation
namespace Check

variable {α ω β γ κ ε ι : Type} {key : α → κ} {okay : β → Prop} {okay' : γ → Prop} {list front back : List κ}

section Agendas

variable {part : Check α ω β} {first rest : Check α ω (Except ε Unit)}

/-- The keys of the entries that a check adds are some of a list, in its order, if its
result is okay. What was there before keeps its keys. -/
def Follows (key : α → κ) (okay : β → Prop) (list : List κ) (part : Check α ω β) : Prop :=
  ∀ (failFast : Bool) (journal : Journal α ω), ∃ late,
    (part failFast journal).2.entries.map key = journal.entries.map key ++ late ∧
      (okay (part failFast journal).1 → late.Sublist list)

theorem follows_quiet (same : ∀ failFast journal, (part failFast journal).2.entries.map key = journal.entries.map key) :
    Follows key okay list part := by
  intro failFast journal
  refine ⟨[], ?_, fun _ => List.nil_sublist list⟩
  rw [same, List.append_nil]

theorem follows_pure (value : β) : Follows key okay list (pure value : Check α ω β) := follows_quiet fun _ _ => rfl

theorem follows_exits (status : Except ε Unit) {okay : Bool → Prop} :
    Follows key okay list (exits status : Check α ω Bool) := follows_quiet fun _ _ => rfl

theorem follows_note (event : ω) {okay : Unit → Prop} : Follows key okay list (note event : Check α ω Unit) :=
  follows_quiet fun _ _ => rfl

theorem follows_add (entry : α) {okay : Unit → Prop} : Follows key okay [key entry] (add entry : Check α ω Unit) := by
  intro failFast journal
  refine ⟨[key entry], ?_, fun _ => List.Sublist.refl _⟩
  rw [add, List.map_append, List.map_singleton]

/-- Entries that are there may be changed, if they keep their keys. -/
theorem follows_edit {change : α → α} (keeps : ∀ entry, key (change entry) = key entry) (start : Nat) {okay : Unit → Prop} :
    Follows key okay list (edit start change : Check α ω Unit) := by
  refine follows_quiet fun failFast journal => ?_
  have same : key ∘ change = key := funext keeps
  change (journal.entries.take start ++ (journal.entries.drop start).map change).map key = _
  rw [List.map_append, List.map_map, same, ← List.map_append, List.take_append_drop]

theorem Follows.mono (follows : Follows key okay list part) {longer : List κ} (inside : list.Sublist longer) :
    Follows key okay longer part := by
  intro failFast journal
  obtain ⟨late, run, among⟩ := follows failFast journal
  exact ⟨late, run, fun okayed => (among okayed).trans inside⟩

/-- The result of the rest must tell whether the first part was okay. -/
theorem Follows.bind {next : β → Check α ω γ} (first : Follows key okay front part)
    (second : ∀ value, Follows key okay' back (next value))
    (tells : ∀ value failFast journal, okay' (next value failFast journal).1 → okay value) :
    Follows key okay' (front ++ back) (part >>= next) := by
  intro failFast journal
  obtain ⟨early, run, among⟩ := first failFast journal
  obtain ⟨late, run', among'⟩ := second (part failFast journal).1 failFast (part failFast journal).2
  refine ⟨early ++ late, ?_, fun okayed => ?_⟩
  · rw [bind_apply, run', run, List.append_assoc]
  · rw [bind_apply] at okayed
    exact (among (tells _ _ _ okayed)).append (among' okayed)

/-- A first part whose entries are known whatever its result. -/
theorem Follows.andThen {next : β → Check α ω γ} (first : Follows key (fun _ => True) front part)
    (second : ∀ value, Follows key okay' back (next value)) : Follows key okay' (front ++ back) (part >>= next) :=
  first.bind second fun _ _ _ _ => trivial

/-- A first part that adds nothing. -/
theorem Follows.behind {next : β → Check α ω γ} (first : Follows key (fun _ => True) [] part)
    (second : ∀ value, Follows key okay' list (next value)) : Follows key okay' list (part >>= next) :=
  first.andThen second

/-- A rest that adds nothing. -/
theorem Follows.before {next : β → Check α ω γ} (first : Follows key okay list part)
    (second : ∀ value, Follows key okay' [] (next value))
    (tells : ∀ value failFast journal, okay' (next value failFast journal).1 → okay value) :
    Follows key okay' list (part >>= next) := by
  have both := first.bind second tells
  rwa [List.append_nil] at both

/-- The change is made where the result is okay, and moves the keys. -/
theorem Follows.framedIf (inside : Follows key okay list part) {allows : β → Bool} {change : α → α} {move : κ → κ}
    (allowed : ∀ result, okay result → allows result = true) (moves : ∀ entry, key (change entry) = move (key entry)) :
    Follows key okay (list.map move) (framedIf allows change part) := by
  intro failFast journal
  obtain ⟨late, run, among⟩ := inside failFast journal
  have same : key ∘ change = move ∘ key := funext moves
  rw [framedIf_apply]
  by_cases allowing : allows (part failFast journal).1 = true
  · rw [if_pos allowing]
    refine ⟨late.map move, ?_, fun okayed => (among okayed).map move⟩
    change ((part failFast journal).2.entries.take journal.entries.length ++
      ((part failFast journal).2.entries.drop journal.entries.length).map change).map key = _
    rw [List.map_append, List.map_map, same, ← List.map_map, List.map_take, List.map_drop, run,
      List.take_left' (List.length_map key), List.drop_left' (List.length_map key)]
  · rw [if_neg allowing]
    exact ⟨late, run, fun okayed => absurd (allowed _ okayed) allowing⟩

theorem Follows.framed (inside : Follows key okay list part) {change : α → α} {move : κ → κ}
    (moves : ∀ entry, key (change entry) = move (key entry)) : Follows key okay (list.map move) (framed change part) :=
  inside.framedIf (fun _ _ => rfl) moves

/-- A change that leaves all keys as they are. -/
theorem Follows.framedKept (inside : Follows key okay list part) {change : α → α}
    (keeps : ∀ entry, key (change entry) = key entry) : Follows key okay list (Check.framed change part) := by
  have moved : Follows key okay (list.map id) (Check.framed change part) := inside.framed keeps
  rwa [List.map_id] at moved

/-- Whether a check has added entries can be asked. -/
theorem Follows.grown (inside : Follows key okay list part) :
    Follows key (fun result : β × Bool => okay result.1) list (grown part) := inside

theorem Follows.orFail (early : Follows key Succeeds front first) (late : Follows key Succeeds back rest) :
    Follows key Succeeds (front ++ back) (orFail first rest) := by
  refine early.bind (fun status => ?_) fun status failFast journal succeeds => ?_
  · cases status with
    | error failure => exact follows_pure _
    | ok _ => exact late
  · cases status with
    | error failure => cases succeeds
    | ok _ => rfl

theorem Follows.orExit (early : Follows key Succeeds front first) (late : Follows key Succeeds back rest) :
    Follows key Succeeds (front ++ back) (orExit first rest) := by
  refine early.bind (fun status => (follows_exits status).behind fun exit => ?_) fun status failFast journal succeeds => ?_
  · cases exit with
    | true => exact follows_pure _
    | false => exact late
  · cases status with
    | error failure => cases succeeds
    | ok _ => rfl

theorem Follows.eachThen {body : ι → Check α ω (Except ε Unit)} {lists : ι → List κ} {elements : List ι}
    (inside : ∀ element ∈ elements, Follows key Succeeds (lists element) (body element))
    (late : Follows key Succeeds back rest) :
    Follows key Succeeds (elements.flatMap lists ++ back) (eachThen body elements rest) := by
  induction elements with
  | nil => exact late
  | cons element elements ih =>
    have later := ih fun other member => inside other (List.mem_cons_of_mem _ member)
    rw [List.flatMap_cons, List.append_assoc]
    exact (inside element List.mem_cons_self).orExit later

/-- A loop with nothing behind it. -/
theorem Follows.each {body : ι → Check α ω (Except ε Unit)} {lists : ι → List κ} {elements : List ι}
    (inside : ∀ element ∈ elements, Follows key Succeeds (lists element) (body element)) :
    Follows key Succeeds (elements.flatMap lists) (Check.eachThen body elements (pure (.ok ()))) := by
  have loop : Follows key Succeeds (elements.flatMap lists ++ []) (Check.eachThen body elements (pure (.ok ()))) :=
    Follows.eachThen inside (follows_pure _)
  rwa [List.append_nil] at loop

/-- The entries of a run that starts from nothing. -/
theorem Follows.run (follows : Follows key okay list part) {failFast : Bool} (okayed : okay (part failFast {}).1) :
    ((part failFast {}).2.entries.map key).Sublist list := by
  obtain ⟨late, run, among⟩ := follows failFast {}
  rw [run]
  exact among okayed

end Agendas

section Scopes

/-- A check that moves the keys of all entries from a position on, if its result is okay. -/
def MovesFrom (key : α → κ) (okay : β → Prop) (move : κ → κ) (start : Nat) (part : Check α ω β) : Prop :=
  ∀ (failFast : Bool) (journal : Journal α ω), start ≤ journal.entries.length → ∃ late,
    (part failFast journal).2.entries.map key = (journal.entries.take start).map key ++ late ∧
      (okay (part failFast journal).1 → late = ((journal.entries.drop start).map key).map move)

theorem movesFrom_edit {change : α → α} {move : κ → κ} {rest : Check α ω γ} (moves : ∀ entry, key (change entry) = move (key entry))
    (quiet : ∀ failFast journal, (rest failFast journal).2 = journal) (start : Nat) :
    MovesFrom key okay' move start (edit start change >>= fun _ => rest) := by
  intro failFast journal within
  have same : key ∘ change = move ∘ key := funext moves
  refine ⟨((journal.entries.drop start).map key).map move, ?_, fun _ => rfl⟩
  rw [bind_apply, quiet]
  change (journal.entries.take start ++ (journal.entries.drop start).map change).map key = _
  rw [List.map_append, List.map_map, same, List.map_map]

/-- A result that is not okay tells nothing. -/
theorem movesFrom_failed {value : γ} {move : κ → κ} (failed : ¬okay' value) (start : Nat) :
    MovesFrom key okay' move start (pure value : Check α ω γ) := by
  intro failFast journal within
  refine ⟨(journal.entries.drop start).map key, ?_, fun okayed => absurd okayed failed⟩
  rw [pure_apply, ← List.map_append, List.take_append_drop]

/-- A part in a scope of its own, whose entries are moved if there are any. -/
theorem Follows.scopeGrown {part : Nat → Check α ω β} {next : Nat → β × Bool → Check α ω γ} {move : κ → κ}
    (inside : ∀ start, Follows key okay list (part start))
    (grew : ∀ start result, MovesFrom key okay' move start (next start (result, true)))
    (same : ∀ start result, Follows key okay' [] (next start (result, false)))
    (tells : ∀ start result failFast journal, okay' (next start result failFast journal).1 → okay result.1) :
    Follows key okay' (list.map move) (Check.scope fun start => Check.grown (part start) >>= next start) := by
  intro failFast journal
  let start := journal.entries.length
  obtain ⟨early, run, among⟩ := inside start failFast journal
  have size : (part start failFast journal).2.entries.length = journal.entries.length + early.length := by
    have lengths := congrArg List.length run
    simpa using lengths
  change ∃ late, (next start (_, decide ((part start failFast journal).2.entries.length > journal.entries.length))
    failFast (part start failFast journal).2).2.entries.map key = _ ∧ (okay' (next start _ failFast _).1 → _)
  cases early with
  | nil =>
    have none : decide ((part start failFast journal).2.entries.length > journal.entries.length) = false := by simp [size]
    rw [none]
    obtain ⟨late, run', among'⟩ := same start (part start failFast journal).1 failFast (part start failFast journal).2
    refine ⟨late, ?_, fun okayed => (among' okayed).trans (List.nil_sublist _)⟩
    rw [run', run, List.append_nil]
  | cons entry rest =>
    have some : decide ((part start failFast journal).2.entries.length > journal.entries.length) = true := by simp [size]
    have within : start ≤ (part start failFast journal).2.entries.length := by omega
    rw [some]
    obtain ⟨late, run', moved⟩ := grew start (part start failFast journal).1 failFast (part start failFast journal).2 within
    refine ⟨late, ?_, fun okayed => ?_⟩
    · rw [run', List.map_take, run, List.take_left' (List.length_map key)]
    · rw [moved okayed, List.map_drop, run, List.drop_left' (List.length_map key)]
      exact (among (tells _ _ _ _ okayed)).map move

end Scopes

section Marks

variable {each : ι → List β} {elements : List ι} (mark : β → Option κ)

/-- Agendas that are put one behind the other have no element twice, if none of them has
and a mark on each element tells which one it comes from. -/
theorem nodup_flatMap_of_marks (own : ι → Option κ) (nodup : ∀ element ∈ elements, (each element).Nodup)
    (marked : ∀ element ∈ elements, ∀ part ∈ each element, mark part ≠ none ∧ mark part = own element)
    (distinct : (elements.filterMap own).Nodup) : (elements.flatMap each).Nodup := by
  refine List.nodup_flatMap.mpr ⟨nodup, ?_⟩
  refine (List.pairwise_filterMap.mp distinct).imp_of_mem fun {first second} inFirst inSecond different part among among' => ?_
  obtain ⟨set, same⟩ := marked first inFirst part among
  obtain ⟨value, holds⟩ := Option.ne_none_iff_exists'.mp set
  have ownFirst : own first = some value := same.symm.trans holds
  have ownSecond : own second = some value := (marked second inSecond part among').2.symm.trans holds
  exact different value ownFirst value ownSecond rfl

/-- A mark that every element has. -/
theorem nodup_flatMap_of_keys (names : ι → κ) (nodup : ∀ element ∈ elements, (each element).Nodup)
    (marked : ∀ element ∈ elements, ∀ part ∈ each element, mark part = some (names element))
    (distinct : (elements.map names).Nodup) : (elements.flatMap each).Nodup := by
  refine nodup_flatMap_of_marks mark (fun element => some (names element)) nodup (fun element member part among => ?_) ?_
  · have holds := marked element member part among
    exact ⟨holds ▸ Option.some_ne_none _, holds⟩
  · rw [List.filterMap_eq_map']
    exact distinct

end Marks

end Check
end Protovalidate.Foundation
