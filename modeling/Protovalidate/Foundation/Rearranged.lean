import Mathlib.Algebra.BigOperators.Group.List.Basic
import Mathlib.Algebra.Order.Group.Multiset
import Mathlib.Algebra.Order.Monoid.Unbundled.WithTop
import Mathlib.Data.List.Forall2

/-! Lists whose elements correspond in some order, and what fallible computations
produce taken without its order: a multiset of keys, or `⊤` if there is an error. -/

namespace Protovalidate.Foundation

section Lists

variable {α β γ δ κ M : Type} {related : α → β → Prop} {related' : γ → δ → Prop} {elements : List α} {elements' : List β}

theorem map_of_forall₂ {image : α → κ} {image' : β → κ} (pairs : List.Forall₂ related elements elements')
    (equal : ∀ element ∈ elements, ∀ element', related element element' → image element = image' element') :
    elements.map image = elements'.map image' := by
  induction pairs with
  | nil => rfl
  | cons pair _ ih =>
    rw [List.map_cons, List.map_cons, equal _ List.mem_cons_self _ pair,
      ih fun later member => equal later (List.mem_cons_of_mem _ member)]

/-- Lists that are related element by element once one of them is brought into order. -/
def Rearranged (related : α → β → Prop) (elements : List α) (elements' : List β) : Prop :=
  ∃ ordered, List.Forall₂ related elements ordered ∧ ordered.Perm elements'

namespace Rearranged

theorem of_forall₂ (pairs : List.Forall₂ related elements elements') : Rearranged related elements elements' :=
  ⟨elements', pairs, .refl _⟩

theorem length (rearranged : Rearranged related elements elements') : elements.length = elements'.length := by
  obtain ⟨ordered, pairs, order⟩ := rearranged
  rw [pairs.length_eq, order.length_eq]

theorem isEmpty (rearranged : Rearranged related elements elements') : elements.isEmpty = elements'.isEmpty := by
  rw [Bool.eq_iff_iff, List.isEmpty_iff_length_eq_zero, List.isEmpty_iff_length_eq_zero, rearranged.length]

theorem append {more : List α} {more' : List β} (front : Rearranged related elements elements')
    (back : Rearranged related more more') : Rearranged related (elements ++ more) (elements' ++ more') := by
  obtain ⟨ordered, pairs, order⟩ := front
  obtain ⟨ordered', pairs', order'⟩ := back
  exact ⟨ordered ++ ordered', List.rel_append pairs pairs', order.append order'⟩

theorem flatMap {each : α → List γ} {each' : β → List δ} (rearranged : Rearranged related elements elements')
    (inside : ∀ element element', related element element' → Rearranged related' (each element) (each' element')) :
    Rearranged related' (elements.flatMap each) (elements'.flatMap each') := by
  obtain ⟨ordered, pairs, order⟩ := rearranged
  have aligned : Rearranged related' (elements.flatMap each) (ordered.flatMap each') := by
    clear order
    induction pairs with
    | nil => exact of_forall₂ .nil
    | cons pair _ ih => exact (inside _ _ pair).append ih
  obtain ⟨ordered', pairs', order'⟩ := aligned
  exact ⟨ordered', pairs', order'.trans (order.flatMap_right each')⟩

/-- A sum does not depend on the order of its summands. -/
theorem sum [AddCommMonoid M] {size : α → M} {size' : β → M} (rearranged : Rearranged related elements elements')
    (equal : ∀ element ∈ elements, ∀ element', related element element' → size element = size' element') :
    (elements.map size).sum = (elements'.map size').sum := by
  obtain ⟨ordered, pairs, order⟩ := rearranged
  rw [← (order.map size').sum_eq, map_of_forall₂ pairs equal]

end Rearranged

end Lists

section Bags

variable {α β ε κ κ' : Type} {key : α → κ}

/-- The keys of the entries, or `⊤`. -/
def bag (key : α → κ) : Except ε (List α) → WithTop (Multiset κ)
  | .error _ => ⊤
  | .ok entries => ((entries.map key : List κ) : Multiset κ)

theorem bag_eq_zero {outcome : Except ε (List α)} : bag key outcome = 0 ↔ outcome = .ok [] := by
  cases outcome with
  | error failure => exact iff_of_false WithTop.top_ne_zero fun impossible => by cases impossible
  | ok entries =>
    rw [bag, WithTop.coe_eq_zero, Multiset.coe_eq_zero, List.map_eq_nil_iff]
    exact ⟨congrArg _, Except.ok.inj⟩

/-- Equal bags: both computations fail, or they produce the same in some order. -/
theorem bag_eq {outcome : Except ε (List α)} {outcome' : Except ε (List β)} {key' : β → κ}
    (same : bag key outcome = bag key' outcome') :
    (∃ failure failure', outcome = .error failure ∧ outcome' = .error failure') ∨
      ∃ entries entries', outcome = .ok entries ∧ outcome' = .ok entries' ∧ (entries.map key).Perm (entries'.map key') := by
  cases outcome with
  | error failure =>
    cases outcome' with
    | error failure' => exact .inl ⟨failure, failure', rfl, rfl⟩
    | ok entries' => exact absurd same.symm WithTop.coe_ne_top
  | ok entries =>
    cases outcome' with
    | error failure' => exact absurd same WithTop.coe_ne_top
    | ok entries' =>
      rw [bag, bag, WithTop.coe_inj, Multiset.coe_eq_coe] at same
      exact .inr ⟨entries, entries', rfl, rfl, same⟩

/-- A change of the entries that their keys tell. -/
theorem bag_map {key' : β → κ'} {change : α → β} {change' : κ → κ'}
    (tells : ∀ entry, key' (change entry) = change' (key entry)) (outcome : Except ε (List α)) :
    bag key' (outcome.map (List.map change)) = (bag key outcome).map (Multiset.map change') := by
  cases outcome with
  | error failure => rfl
  | ok entries =>
    have same : (entries.map change).map key' = (entries.map key).map change' := by
      rw [List.map_map, List.map_map]
      exact List.map_congr_left fun entry _ => tells entry
    rw [Except.map, bag, bag, same]
    rfl

end Bags

end Protovalidate.Foundation
