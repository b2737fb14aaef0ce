import Mathlib.Data.Fin.VecNotation
import Mathlib.Data.Fintype.Pi
import Mathlib.Tactic.Ring
import SolidScript.Proofs.Mesh.Piece

/-!
# Tetrahedra as routes

Every tetrahedron of a cell is a shortest route along the grid from the least corner of the cell to
the opposite one: it goes along the three axes in some order. Corners are met in the order of their
numbers, so that a tetrahedron is an increasing sequence of four points.

What happens in one tetrahedron is settled by going through all routes and all choices of corners
inside.
-/

namespace SolidScript

/-- An order of the three axes. -/
inductive Route where
  | xyz
  | xzy
  | yxz
  | yzx
  | zxy
  | zyx
deriving DecidableEq

/-- Steps along the three axes. -/
abbrev Steps : Type := Nat × Nat × Nat

/-- An edge of a tetrahedron by the places of its ends, the smaller one first. -/
abbrev PlaceEdge : Type := Fin 4 × Fin 4

def PlaceEdge.mk (i j : Fin 4) : PlaceEdge := (min i j, max i j)

/-- A directed side between two edges of a face, by the places of their ends on the face. -/
abbrev Turn : Type := (Fin 3 × Fin 3) × (Fin 3 × Fin 3)

namespace Route

/-- The routes in the order in which cells are cut. -/
def all : List Route := [xyz, xzy, yxz, yzx, zxy, zyx]

instance : Fintype Route := ⟨⟨all, by decide⟩, by intro r; cases r <;> decide⟩

/-- The corner that a route meets at a place, by the steps from the least corner. -/
def corner : Route → Fin 4 → Steps
  | xyz => ![(0, 0, 0), (1, 0, 0), (1, 1, 0), (1, 1, 1)]
  | xzy => ![(0, 0, 0), (1, 0, 0), (1, 0, 1), (1, 1, 1)]
  | yxz => ![(0, 0, 0), (0, 1, 0), (1, 1, 0), (1, 1, 1)]
  | yzx => ![(0, 0, 0), (0, 1, 0), (0, 1, 1), (1, 1, 1)]
  | zxy => ![(0, 0, 0), (0, 0, 1), (1, 0, 1), (1, 1, 1)]
  | zyx => ![(0, 0, 0), (0, 0, 1), (0, 1, 1), (1, 1, 1)]

/-- Whether the steps of the route form a right-handed frame. -/
def isRight : Route → Bool
  | xyz => true
  | yzx => true
  | zxy => true
  | _ => false

/-- The offset between the corners at two places. -/
def offset (r : Route) (i j : Fin 4) : Offset :=
  (((r.corner j).1 : Int) - (r.corner i).1, ((r.corner j).2.1 : Int) - (r.corner i).2.1,
    ((r.corner j).2.2 : Int) - (r.corner i).2.2)

/-- The part of the surface in a tetrahedron, by the places of its corners. -/
def cut (r : Route) (inside : Fin 4 → Bool) : Piece PlaceEdge :=
  .cut r.offset .mk inside [0, 1, 2, 3]

/-- Whether the face that leaves out the corner at place `k` is met right-handed from the
tetrahedron. -/
def facesRight (r : Route) (k : Fin 4) : Bool := r.isRight ^^ decide (k.val % 2 = 1)

/-- A turn of the face that leaves out the corner at place `k`. -/
def onFace (k : Fin 4) (u : Turn) : PlaceEdge × PlaceEdge :=
  Prod.map (Prod.map k.succAbove k.succAbove) (Prod.map k.succAbove k.succAbove) u

end Route

/-- How the surface crosses a face with the given corners inside: around the corner that differs
from the two others, in the direction that the handedness gives. -/
def turns (right : Bool) (inside : Fin 3 → Bool) : List Turn :=
  let around (i : Fin 3) (u : Turn) : List Turn := [if inside i = right then u.swap else u]
  if inside 1 = inside 2 then
    if inside 0 = inside 1 then [] else around 0 ((0, 1), (0, 2))
  else if inside 0 = inside 2 then around 1 ((1, 2), (0, 1))
  else around 2 ((0, 2), (1, 2))

/-! ## One tetrahedron -/

namespace Route

/-- The four ends of a side: all corners, if it runs through the inner of the tetrahedron. -/
def Spans (d : PlaceEdge × PlaceEdge) : Prop := ∀ i, i = d.1.1 ∨ i = d.1.2 ∨ i = d.2.1 ∨ i = d.2.2

instance (d : PlaceEdge × PlaceEdge) : Decidable (Spans d) := inferInstanceAs (Decidable (∀ _, _))

/-- No side is repeated in a tetrahedron. -/
lemma sides_cut_nodup : ∀ (r : Route) (inside : Fin 4 → Bool), (r.cut inside).sides.Nodup := by
  decide +kernel

/-- Every side in a tetrahedron runs along a face as that face is crossed, or it is the inner side
of two triangles and occurs in both directions. -/
lemma sides_cut_cases : ∀ (r : Route) (inside : Fin 4 → Bool), ∀ d ∈ (r.cut inside).sides,
    (Spans d ∧ d.swap ∈ (r.cut inside).sides) ∨
      ∃ k : Fin 4, ∃ u ∈ turns (r.facesRight k) (inside ∘ k.succAbove), d = onFace k u := by
  decide +kernel

/-- The crossing of a face is a side in the tetrahedron. -/
lemma onFace_mem_sides : ∀ (r : Route) (inside : Fin 4 → Bool) (k : Fin 4),
    ∀ u ∈ turns (r.facesRight k) (inside ∘ k.succAbove), onFace k u ∈ (r.cut inside).sides := by
  decide +kernel

end Route

/-- Seen from its other side, a face is crossed in the other direction. -/
lemma swap_mem_turns : ∀ (right : Bool) (inside : Fin 3 → Bool), ∀ u ∈ turns right inside,
    u.swap ∈ turns (!right) inside := by
  intro right
  cases right <;> decide

/-- The direction of the crossing tells the two sides of a face apart. -/
lemma right_eq_of_mem_turns : ∀ (right right' : Bool) (inside : Fin 3 → Bool),
    ∀ u ∈ turns right inside, u ∈ turns right' inside → right = right' := by
  decide

/-- A crossing touches all corners of the face. -/
lemma turn_spans : ∀ (right : Bool) (inside : Fin 3 → Bool), ∀ u ∈ turns right inside,
    ∀ i, i = u.1.1 ∨ i = u.1.2 ∨ i = u.2.1 ∨ i = u.2.2 := by
  decide

/-- A face is crossed only if it has a corner inside. -/
lemma exists_inside_of_mem_turns : ∀ (right : Bool) (inside : Fin 3 → Bool),
    ∀ u ∈ turns right inside, ∃ i, inside i = true := by
  decide

/-! ## Neighbours -/

namespace Route

/-- A route is known by its corners. -/
lemma eq_of_corner_eq : ∀ r r' : Route, (∀ i, r.corner i = r'.corner i) → r = r' := by
  decide

/-- A face, wherever it lies on the route, determines the tetrahedron on each side of it. -/
lemma eq_of_face_eq : ∀ (r r' : Route) (k k' : Fin 4), r.facesRight k = r'.facesRight k' →
    r.offset (k.succAbove 0) (k.succAbove 1) = r'.offset (k'.succAbove 0) (k'.succAbove 1) →
    r.offset (k.succAbove 0) (k.succAbove 2) = r'.offset (k'.succAbove 0) (k'.succAbove 2) →
    r = r' ∧ k = k' := by
  decide +kernel

/-- The faces at the middle of a route are shared with another route of the same cell. -/
lemma exists_across_inner : ∀ (r : Route) (k : Fin 4), k = 1 ∨ k = 2 →
    ∃ r' : Route, r'.facesRight k = !r.facesRight k ∧ ∀ i, r'.corner (k.succAbove i) =
      r.corner (k.succAbove i) := by
  decide

/-- Single steps along the axes. -/
def units : List Steps := [(1, 0, 0), (0, 1, 0), (0, 0, 1)]

/-- The face without the first corner is shared with a route of the next cell along some axis. -/
lemma exists_across_first : ∀ r : Route, ∃ r' : Route, r'.facesRight 3 = !r.facesRight 0 ∧
    ∃ e ∈ units, ∀ i, r.corner (Fin.succAbove 0 i) = e + r'.corner (Fin.succAbove 3 i) ∧
      e * r'.corner (Fin.succAbove 3 i) = 0 := by
  decide

/-- The face without the last corner is shared with a route of the cell before along some axis. -/
lemma exists_across_last : ∀ r : Route, ∃ r' : Route, r'.facesRight 0 = !r.facesRight 3 ∧
    ∃ e ∈ units, ∀ i, e + r.corner (Fin.succAbove 3 i) = r'.corner (Fin.succAbove 0 i) ∧
      e * r.corner (Fin.succAbove 3 i) = 0 := by
  decide

end Route

/-! ## Tetrahedra of the grid -/

namespace GridSize

variable (n : GridSize)

/-- The number of the point that some steps lead to. -/
def number (c : Steps) : Nat := n.index c.1 c.2.1 c.2.2

lemma number_add (c d : Steps) : n.number (c + d) = n.number c + n.number d := by
  simp only [GridSize.number, index, Prod.fst_add, Prod.snd_add]
  ring

/-- A point of the grid. -/
def IsPoint (c : Steps) : Prop := c.1 < n.x ∧ c.2.1 < n.y ∧ c.2.2 < n.z

/-- The least corner of a cell. -/
def IsCell (c : Steps) : Prop := c.1 + 1 < n.x ∧ c.2.1 + 1 < n.y ∧ c.2.2 + 1 < n.z

variable {n}

variable {c : Steps}

/-- A point can be read off from its number. -/
lemma coords_number (hc : n.IsPoint c) : n.coords (n.number c) = c := by
  obtain ⟨hx, hy, -⟩ := hc
  have hx0 : 0 < n.x := by omega
  have hy0 : 0 < n.y := by omega
  have hrow : n.number c / n.x = c.2.1 + n.y * c.2.2 := by
    rw [GridSize.number, index, Nat.add_mul_div_left _ _ hx0, Nat.div_eq_of_lt hx, Nat.zero_add]
  have h₁ : n.number c % n.x = c.1 := by
    rw [GridSize.number, index, Nat.add_mul_mod_self_left, Nat.mod_eq_of_lt hx]
  have h₂ : n.number c / n.x % n.y = c.2.1 := by
    rw [hrow, Nat.add_mul_mod_self_left, Nat.mod_eq_of_lt hy]
  have h₃ : n.number c / (n.x * n.y) = c.2.2 := by
    rw [← Nat.div_div_eq_div_mul, hrow, Nat.add_mul_div_left _ _ hy0, Nat.div_eq_of_lt hy,
      Nat.zero_add]
  show (n.number c % n.x, n.number c / n.x % n.y, n.number c / (n.x * n.y)) = c
  rw [h₁, h₂, h₃]

lemma number_injective {d : Steps} (hc : n.IsPoint c) (hd : n.IsPoint d)
    (h : n.number c = n.number d) : c = d := by
  rw [← coords_number hc, ← coords_number hd, h]

variable (n)

/-- The number of the corner that a route through a cell meets at a place. -/
def corner (c : Steps) (r : Route) (i : Fin 4) : Nat := n.number (c + r.corner i)

variable {n}

lemma corner_le_one : ∀ (r : Route) (i : Fin 4),
    (r.corner i).1 ≤ 1 ∧ (r.corner i).2.1 ≤ 1 ∧ (r.corner i).2.2 ≤ 1 := by
  decide

lemma IsCell.isPoint (hc : n.IsCell c) (r : Route) (i : Fin 4) : n.IsPoint (c + r.corner i) := by
  obtain ⟨hx, hy, hz⟩ := hc
  obtain ⟨h₁, h₂, h₃⟩ := corner_le_one r i
  refine ⟨?_, ?_, ?_⟩ <;> simp only [Prod.fst_add, Prod.snd_add] <;> omega

/-- Corners keep their offsets. -/
lemma offset_corner (hc : n.IsCell c) (r : Route)
    (i j : Fin 4) : n.offset (n.corner c r i) (n.corner c r j) = r.offset i j := by
  unfold offset corner Route.offset
  rw [coords_number (hc.isPoint r i), coords_number (hc.isPoint r j)]
  simp only [Prod.fst_add, Prod.snd_add, Nat.cast_add, add_sub_add_left_eq_sub]

/-- Later corners of a route are reached by further steps. -/
lemma exists_corner_eq_add :
    ∀ (r : Route) (i : Fin 3), ∃ e ∈ Route.units, r.corner i.succ = r.corner i.castSucc + e := by
  decide

/-- Corners are met in the order of their numbers. -/
lemma corner_strictMono (hc : n.IsCell c) (r : Route) : StrictMono (n.corner c r) := by
  rw [Fin.strictMono_iff_lt_succ]
  intro i
  obtain ⟨e, he, hstep⟩ := exists_corner_eq_add r i
  have hpos : 0 < n.number e := by
    obtain ⟨hx, hy, -⟩ := hc
    have hx0 : 0 < n.x := by omega
    have hxy : 0 < n.x * n.y := Nat.mul_pos hx0 (by omega)
    simp only [Route.units, List.mem_cons, List.not_mem_nil, or_false] at he
    rcases he with rfl | rfl | rfl <;> simp [GridSize.number, index, hx0, hxy]
  show n.number (c + r.corner i.castSucc) < n.number (c + r.corner i.succ)
  rw [hstep, ← add_assoc, number_add n (c + r.corner i.castSucc) e]
  omega

/-- The part of the surface in a tetrahedron. -/
def pieceIn (n : GridSize) (inside : Nat → Bool) (t : Steps × Route) : Piece GridEdge :=
  n.cut inside ([0, 1, 2, 3].map (n.corner t.1 t.2))

/-- The part of the surface in a tetrahedron of the grid, by the places of its corners. -/
lemma cut_corner (hc : n.IsCell c) (r : Route) (inside : Nat → Bool) :
    n.cut inside ([0, 1, 2, 3].map (n.corner c r))
      = (r.cut fun i => inside (n.corner c r i)).map (Prod.map (n.corner c r) (n.corner c r)) := by
  unfold cut Route.cut
  rw [Piece.cut_map_point, Piece.cut_map_edge]
  have hoffset : (fun i j => n.offset (n.corner c r i) (n.corner c r j)) = r.offset := by
    funext i j
    exact offset_corner hc r i j
  have hedge : (fun i j => GridEdge.mk (n.corner c r i) (n.corner c r j))
      = fun i j => Prod.map (n.corner c r) (n.corner c r) (PlaceEdge.mk i j) := by
    funext i j
    have hmono := (corner_strictMono hc r).monotone
    exact Prod.ext (hmono.map_min).symm (hmono.map_max).symm
  rw [hoffset, hedge]

end GridSize
end SolidScript
