import Mathlib.Logic.Relation

/-! Searches through a graph that do not go on from marked vertices: what a list of
roots leads to, and how that changes when a root is marked. -/

namespace Protovalidate.Foundation
namespace Search

variable {κ : Type} {edges : κ → List κ} {marked : κ → Prop} {root target : κ} {roots : List κ}

/-- An edge out of a vertex that is not marked. -/
def Fresh (edges : κ → List κ) (marked : κ → Prop) (source target : κ) : Prop := ¬marked source ∧ target ∈ edges source

/-- The vertices that a search from some roots comes to. -/
def Visits (edges : κ → List κ) (marked : κ → Prop) (roots : List κ) (target : κ) : Prop :=
  ∃ root ∈ roots, Relation.ReflTransGen (Fresh edges marked) root target

theorem visits_root (member : target ∈ roots) : Visits edges marked roots target := ⟨target, member, .refl⟩

theorem visits_cons : Visits edges marked (root :: roots) target ↔
    Visits edges marked [root] target ∨ Visits edges marked roots target := by
  simp [Visits]

theorem visits_append {more : List κ} : Visits edges marked (roots ++ more) target ↔
    Visits edges marked roots target ∨ Visits edges marked more target := by
  simp only [Visits, List.mem_append, or_and_right, exists_or]

theorem Visits.next {source : κ} (visited : Visits edges marked roots source) (fresh : Fresh edges marked source target) :
    Visits edges marked roots target := by
  obtain ⟨root, member, path⟩ := visited
  exact ⟨root, member, path.tail fresh⟩

/-- A search that has come to a vertex goes on to what this vertex leads to. -/
theorem Visits.trans {source : κ} (visited : Visits edges marked roots source)
    (path : Relation.ReflTransGen (Fresh edges marked) source target) : Visits edges marked roots target := by
  obtain ⟨root, member, before⟩ := visited
  exact ⟨root, member, before.trans path⟩

/-- Fewer marks, longer paths. -/
theorem Visits.mono {marked' : κ → Prop} (fewer : ∀ vertex, marked' vertex → marked vertex)
    (visited : Visits edges marked roots target) : Visits edges marked' roots target := by
  obtain ⟨root, member, path⟩ := visited
  exact ⟨root, member, path.lift id fun source next fresh => ⟨mt (fewer source) fresh.1, fresh.2⟩⟩

/-- A marked root leads nowhere else. -/
theorem visits_marked (mark : marked root) :
    Visits edges marked (root :: roots) target ↔ target = root ∨ Visits edges marked roots target := by
  rw [visits_cons]
  refine or_congr_left ⟨fun visited => ?_, fun same => visits_root (by simp [same])⟩
  obtain ⟨start, member, path⟩ := visited
  obtain rfl := List.mem_singleton.mp member
  rcases path.cases_head with same | ⟨next, fresh, -⟩
  · exact same.symm
  · exact absurd mark fresh.1

/-- A root that is not marked is replaced by the vertices behind it. -/
theorem visits_fresh (unmarked : ¬marked root) :
    Visits edges marked (root :: roots) target ↔
      target = root ∨ Visits edges (fun vertex => vertex = root ∨ marked vertex) (edges root ++ roots) target := by
  constructor
  · rintro ⟨start, member, path⟩
    induction path with
    | refl =>
      rcases List.mem_cons.mp member with same | later
      · exact .inl same
      · exact .inr (visits_root (List.mem_append_right _ later))
    | @tail source next _ fresh ih =>
      rcases ih with rfl | visited
      · exact .inr (visits_root (List.mem_append_left _ fresh.2))
      · by_cases same : source = root
        · exact .inr (visits_root (List.mem_append_left _ (same ▸ fresh.2)))
        · exact .inr (visited.next ⟨not_or.mpr ⟨same, fresh.1⟩, fresh.2⟩)
  · rintro (same | visited)
    · exact visits_root (by simp [same])
    · have fewer := visited.mono fun vertex (mark : marked vertex) => Or.inr mark
      rcases visits_append.mp fewer with ⟨next, member, path⟩ | later
      · exact (visits_root List.mem_cons_self).next ⟨unmarked, member⟩ |>.trans path
      · exact visits_cons.mpr (.inr later)

/-- Among the vertices that have marks on all that they lead to, the marks do not
hide anything. -/
theorem visits_closed (closed : ∀ source target, marked source → target ∈ edges source → marked target) :
    marked target ∨ Visits edges marked roots target ↔
      marked target ∨ ∃ root ∈ roots, Relation.ReflTransGen (fun source target => target ∈ edges source) root target := by
  constructor
  · rintro (mark | ⟨root, member, path⟩)
    · exact .inl mark
    · exact .inr ⟨root, member, path.lift id fun _ _ fresh => fresh.2⟩
  · rintro (mark | ⟨root, member, path⟩)
    · exact .inl mark
    · induction path with
      | refl => exact .inr (visits_root member)
      | @tail source next _ edge ih =>
        by_cases mark : marked source
        · exact .inl (closed source next mark edge)
        · have visited := ih.resolve_left mark
          exact .inr (visited.next ⟨mark, edge⟩)

section Measure

variable {weight : κ → Nat} {before after : κ → Bool} {vertices : List κ}

/-- The weight of the vertices that are left over. -/
def left (weight : κ → Nat) (remains : κ → Bool) : List κ → Nat
  | [] => 0
  | vertex :: vertices => (if remains vertex = true then weight vertex else 0) + left weight remains vertices

theorem left_le (fewer : ∀ vertex, after vertex = true → before vertex = true) :
    left weight after vertices ≤ left weight before vertices := by
  induction vertices with
  | nil => exact Nat.le_refl _
  | cons vertex vertices ih =>
    rw [left, left]
    by_cases remains : after vertex = true
    · rw [if_pos remains, if_pos (fewer vertex remains)]
      omega
    · rw [if_neg remains]
      omega

/-- A vertex that is no longer left over takes its weight away. -/
theorem left_add_le (fewer : ∀ vertex, after vertex = true → before vertex = true) {vertex : κ}
    (member : vertex ∈ vertices) (was : before vertex = true) (gone : ¬after vertex = true) :
    left weight after vertices + weight vertex ≤ left weight before vertices := by
  induction vertices with
  | nil => cases member
  | cons other vertices ih =>
    rw [left, left]
    rcases List.mem_cons.mp member with same | later
    · have others : left weight after vertices ≤ left weight before vertices := left_le fewer
      rw [← same, if_neg gone, if_pos was]
      omega
    · have others := ih later
      by_cases remains : after other = true
      · rw [if_pos remains, if_pos (fewer other remains)]
        omega
      · rw [if_neg remains]
        omega

end Measure

end Search
end Protovalidate.Foundation
