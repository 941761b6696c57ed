import Mathlib.Logic.Relation

/-! Searches through one graph that share their marks: what several of them have marked
together when all have come to their ends. -/

namespace Protovalidate.Foundation
namespace Search

variable {κ : Type} {edges : κ → List κ} {roots marked pending : κ → Prop} {source target : κ}

/-- What some roots lead to. -/
def Reaches (edges : κ → List κ) (roots : κ → Prop) (target : κ) : Prop :=
  ∃ root, roots root ∧ Relation.ReflTransGen (fun source target => target ∈ edges source) root target

theorem Reaches.root (start : roots target) : Reaches edges roots target := ⟨target, start, .refl⟩

theorem Reaches.edge (reaches : Reaches edges roots source) (next : target ∈ edges source) : Reaches edges roots target := by
  obtain ⟨root, start, path⟩ := reaches
  exact ⟨root, start, path.tail next⟩

theorem Reaches.mono {roots' : κ → Prop} (more : ∀ root, roots root → roots' root) (reaches : Reaches edges roots target) :
    Reaches edges roots' target := by
  obtain ⟨root, start, path⟩ := reaches
  exact ⟨root, more root start, path⟩

/-- The searches leave nothing out: roots and the vertices behind marked ones are marked,
or some search still has them ahead. They come to nothing else. -/
structure Covers (edges : κ → List κ) (roots marked pending : κ → Prop) : Prop where
  started : ∀ root, roots root → marked root ∨ pending root
  followed : ∀ source target, marked source → target ∈ edges source → marked target ∨ pending target
  reached : ∀ vertex, marked vertex ∨ pending vertex → Reaches edges roots vertex

/-- A search starts at another root. -/
theorem Covers.start (covers : Covers edges roots marked pending) {roots' pending' : κ → Prop} {root : κ}
    (adds : ∀ vertex, roots' vertex ↔ roots vertex ∨ vertex = root)
    (ahead : ∀ vertex, pending' vertex ↔ pending vertex ∨ vertex = root) : Covers edges roots' marked pending' where
  started vertex start := by
    rcases (adds vertex).mp start with old | rfl
    · exact (covers.started vertex old).imp id fun later => (ahead vertex).mpr (.inl later)
    · exact .inr ((ahead vertex).mpr (.inr rfl))
  followed source target mark edge :=
    (covers.followed source target mark edge).imp id fun later => (ahead target).mpr (.inl later)
  reached vertex either := by
    have more (root : κ) (start : roots root) : roots' root := (adds root).mpr (.inl start)
    rcases either with mark | later
    · exact (covers.reached vertex (.inl mark)).mono more
    · rcases (ahead vertex).mp later with old | rfl
      · exact (covers.reached vertex (.inr old)).mono more
      · exact .root ((adds vertex).mpr (.inr rfl))

/-- A search marks a vertex that it had ahead, and goes on behind it unless it has been
marked before. -/
theorem Covers.mark (covers : Covers edges roots marked pending) {marked' pending' : κ → Prop} (was : pending source)
    (marks : ∀ vertex, marked' vertex ↔ vertex = source ∨ marked vertex)
    (keeps : ∀ vertex, pending vertex → vertex = source ∨ pending' vertex)
    (adds : ¬marked source → ∀ vertex ∈ edges source, pending' vertex)
    (only : ∀ vertex, pending' vertex → pending vertex ∨ vertex ∈ edges source) : Covers edges roots marked' pending' where
  started root start := by
    rw [marks]
    rcases covers.started root start with mark | later
    · exact .inl (.inr mark)
    · exact (keeps root later).imp .inl id
  followed vertex target mark edge := by
    have old (before : marked vertex) : marked' target ∨ pending' target := by
      rw [marks]
      rcases covers.followed vertex target before edge with mark | later
      · exact .inl (.inr mark)
      · exact (keeps target later).imp .inl id
    rcases (marks vertex).mp mark with rfl | before
    · by_cases before : marked vertex
      · exact old before
      · exact .inr (adds before target edge)
    · exact old before
  reached vertex either := by
    have here := covers.reached source (.inr was)
    rcases either with mark | later
    · rcases (marks vertex).mp mark with rfl | before
      · exact here
      · exact covers.reached vertex (.inl before)
    · rcases only vertex later with before | edge
      · exact covers.reached vertex (.inr before)
      · exact here.edge edge

/-- When no search has anything ahead, what is marked is what the roots lead to. -/
theorem Covers.finished (covers : Covers edges roots marked pending) (done : ∀ vertex, ¬pending vertex) :
    marked target ↔ Reaches edges roots target := by
  constructor
  · exact fun mark => covers.reached target (.inl mark)
  · rintro ⟨root, start, path⟩
    induction path with
    | refl => exact (covers.started root start).resolve_right (done root)
    | @tail source next _ edge mark => exact (covers.followed source next mark edge).resolve_right (done next)

end Search
end Protovalidate.Foundation
