import SolidScript.Mesh.Grid

/-!
# Where a surface cuts a grid

Every cell of the grid is split into six tetrahedra around its main diagonal, and a tetrahedron with
corners on both sides of the surface is cut by one triangle or by a quadrangle of two. The corners
of these are the edges of the grid that the surface crosses, so neighbours share them. All of this
depends only on which points are inside.
-/

namespace SolidScript

/-- A grid edge by the numbers of its ends, the smaller one first. -/
abbrev GridEdge : Type := Nat × Nat

def GridEdge.mk (a b : Nat) : GridEdge := (Nat.min a b, Nat.max a b)

abbrev Offset : Type := Int × Int × Int

/-- The determinant of three offsets; its sign is their orientation. -/
def det (u v w : Offset) : Int :=
  u.1 * (v.2.1 * w.2.2 - v.2.2 * w.2.1) - u.2.1 * (v.1 * w.2.2 - v.2.2 * w.1)
    + u.2.2 * (v.1 * w.2.1 - v.2.1 * w.1)

/-- The part of the surface inside one tetrahedron: the crossed edges in the order in which they are
found, and triangles of them that face outward. -/
structure Piece (ε : Type) where
  crossings : List ε
  triangles : List (ε × ε × ε)

namespace Piece

variable {α ε : Type}

def empty : Piece ε := ⟨[], []⟩

/-- Triangles of crossed edges, turned over unless they face outward. -/
def oriented (outward : Bool) (crossings : List ε) (triangles : List (ε × ε × ε)) : Piece ε :=
  ⟨crossings, if outward then triangles else triangles.map fun (a, b, c) => (a, c, b)⟩

/-- The part of the surface inside a tetrahedron. The winding is decided by the corners, which never
coincide. -/
@[specialize] def cut (offset : α → α → Offset) (edge : α → α → ε) (inside : α → Bool)
    (corners : List α) : Piece ε :=
  match corners.partition inside with
  | ([i], [p, q, r]) =>
    let outward := det (offset i p) (offset i q) (offset i r) > 0
    let (e, f, g) := (edge i p, edge i q, edge i r)
    oriented outward [e, f, g] [(e, f, g)]
  | ([p, q, r], [o]) =>
    let outward := det (offset o p) (offset o q) (offset o r) < 0
    let (e, f, g) := (edge p o, edge q o, edge r o)
    oriented outward [e, f, g] [(e, f, g)]
  | ([a, b], [c, d]) =>
    let outward := det (offset c d) (offset a b) (offset a c) > 0
    let (ac, ad, bd, bc) := (edge a c, edge a d, edge b d, edge b c)
    oriented outward [ac, ad, bd, bc] [(ac, ad, bd), (ac, bd, bc)]
  | _ => empty

end Piece

namespace GridSize

def offset (n : GridSize) (p q : Nat) : Offset :=
  let (a, b) := (n.coords p, n.coords q)
  ((b.1 : Int) - a.1, (b.2.1 : Int) - a.2.1, (b.2.2 : Int) - a.2.2)

/-- The part of the surface inside a tetrahedron of grid points. -/
def cut (n : GridSize) (inside : Nat → Bool) (corners : List Nat) : Piece GridEdge :=
  .cut n.offset .mk inside corners

/-- The six tetrahedra of a cell by the steps from its least corner; all have the main diagonal in
common. -/
def tetrahedra (n : GridSize) : List (List Nat) :=
  [[n.index 0 0 0, n.index 1 0 0, n.index 1 1 0, n.index 1 1 1],
    [n.index 0 0 0, n.index 1 0 0, n.index 1 0 1, n.index 1 1 1],
    [n.index 0 0 0, n.index 0 1 0, n.index 1 1 0, n.index 1 1 1],
    [n.index 0 0 0, n.index 0 1 0, n.index 0 1 1, n.index 1 1 1],
    [n.index 0 0 0, n.index 0 0 1, n.index 1 0 1, n.index 1 1 1],
    [n.index 0 0 0, n.index 0 0 1, n.index 0 1 1, n.index 1 1 1]]

end GridSize

end SolidScript
