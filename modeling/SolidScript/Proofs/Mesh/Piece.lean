import Mathlib.Tactic.Tauto
import SolidScript.Mesh.Section

/-!
# Pieces of a surface

A piece can be cut with any kind of points and edges. Cutting commutes with renaming the points and
with renaming the edges, so that a tetrahedron of the grid can be cut by the places of its corners
instead of their numbers.
-/

namespace SolidScript

open List

/-- A triangle of crossed edges. -/
abbrev CrossedTriangle (ε : Type) : Type := ε × ε × ε

namespace CrossedTriangle

variable {ε ζ : Type}

/-- The corners in order. -/
def corners (t : CrossedTriangle ε) : List ε := [t.1, t.2.1, t.2.2]

/-- The sides in the direction in which the triangle runs along them. -/
def sides (t : CrossedTriangle ε) : List (ε × ε) := [(t.1, t.2.1), (t.2.1, t.2.2), (t.2.2, t.1)]

/-- The same triangle under other names of the edges. -/
def map (g : ε → ζ) (t : CrossedTriangle ε) : CrossedTriangle ζ := (g t.1, g t.2.1, g t.2.2)

lemma sides_map (g : ε → ζ) (t : CrossedTriangle ε) :
    (t.map g).sides = t.sides.map (Prod.map g g) := rfl

lemma mem_corners_of_mem_sides {t : CrossedTriangle ε} {d : ε × ε} (h : d ∈ t.sides) :
    d.1 ∈ t.corners ∧ d.2 ∈ t.corners := by
  simp only [sides, mem_cons, not_mem_nil, or_false] at h
  rcases h with rfl | rfl | rfl <;> simp [corners]

end CrossedTriangle

namespace Piece

variable {α β ε ζ : Type}

/-- All triangles have only crossed edges as corners. -/
def Proper (p : Piece ε) : Prop :=
  ∀ t ∈ p.triangles, ∀ e ∈ CrossedTriangle.corners t, e ∈ p.crossings

/-- The directed sides of all triangles. -/
def sides (p : Piece ε) : List (ε × ε) := p.triangles.flatMap CrossedTriangle.sides

/-- The same piece under other names of the edges. -/
def map (g : ε → ζ) (p : Piece ε) : Piece ζ :=
  ⟨p.crossings.map g, p.triangles.map (CrossedTriangle.map g)⟩

lemma sides_map (g : ε → ζ) (p : Piece ε) : (p.map g).sides = p.sides.map (Prod.map g g) := by
  unfold sides map
  rw [flatMap_map, map_flatMap]
  simp only [CrossedTriangle.sides_map]

lemma oriented_map (g : ε → ζ) (outward : Bool) (crossings : List ε)
    (triangles : List (CrossedTriangle ε)) :
    (oriented outward crossings triangles).map g
      = oriented outward (crossings.map g) (triangles.map (CrossedTriangle.map g)) := by
  cases outward
  · simp only [oriented, map, Bool.false_eq_true, if_false, map_map]
    rfl
  · rfl

/-- Oriented or not, corners are crossings. -/
lemma oriented_proper (outward : Bool) (crossings : List ε) (triangles : List (CrossedTriangle ε))
    (h : ∀ t ∈ triangles, ∀ e ∈ CrossedTriangle.corners t, e ∈ crossings) :
    (oriented outward crossings triangles).Proper := by
  cases outward
  · intro t ht e he
    obtain ⟨⟨a, b, c⟩, hu, rfl⟩ := mem_map.mp ht
    apply h (a, b, c) hu e
    simp only [CrossedTriangle.corners, mem_cons, not_mem_nil, or_false] at he ⊢
    tauto
  · exact h

/-- Cutting finds no triangles on edges that are not crossed. -/
lemma cut_proper (offset : α → α → Offset) (edge : α → α → ε) (inside : α → Bool)
    (corners : List α) : (cut offset edge inside corners).Proper := by
  unfold cut
  split
  · exact oriented_proper _ _ _ (by simp [CrossedTriangle.corners])
  · exact oriented_proper _ _ _ (by simp [CrossedTriangle.corners])
  · exact oriented_proper _ _ _ (by simp [CrossedTriangle.corners])
  · intro t ht
    simp [empty] at ht

/-- Edges can be renamed after the cut or before. -/
lemma cut_map_edge (offset : α → α → Offset) (edge : α → α → ε) (g : ε → ζ) (inside : α → Bool)
    (corners : List α) :
    (cut offset edge inside corners).map g = cut offset (fun a b => g (edge a b)) inside
      corners := by
  unfold cut
  split
  · exact oriented_map ..
  · exact oriented_map ..
  · exact oriented_map ..
  · rfl

/-- Points can be renamed before the cut. -/
lemma cut_map_point (offset : β → β → Offset) (edge : β → β → ε) (inside : β → Bool) (f : α → β)
    (corners : List α) :
    cut offset edge inside (corners.map f)
      = cut (fun a b => offset (f a) (f b)) (fun a b => edge (f a) (f b)) (fun a => inside (f a))
      corners := by
  unfold cut
  rw [partition_eq_filter_filter, partition_eq_filter_filter, filter_map,
    filter_map]
  simp only [Function.comp_def]
  -- both sides look at the same two lists of points
  generalize (corners.filter fun a => inside (f a)) = ins
  generalize (corners.filter fun a => !inside (f a)) = outs
  rcases ins with _ | ⟨a, _ | ⟨b, _ | ⟨c, _ | ⟨d, ins⟩⟩⟩⟩ <;>
    rcases outs with _ | ⟨a', _ | ⟨b', _ | ⟨c', _ | ⟨d', outs⟩⟩⟩⟩ <;> rfl

end Piece
end SolidScript
