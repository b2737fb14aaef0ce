import SolidScript.Geometry.Bounds

/-!
# Sampling grids

Regular grids of points, numbered with the first coordinate changing fastest. `Grid.fit` lays one
around a box, with at least one step of room on every side.
-/

namespace SolidScript

structure GridSize where
  x : Nat
  y : Nat
  z : Nat
deriving DecidableEq, Repr

namespace GridSize

def count (n : GridSize) : Nat := n.x * n.y * n.z

@[inline] def index (n : GridSize) (x y z : Nat) : Nat := x + n.x * (y + n.y * z)

@[inline] def coords (n : GridSize) (i : Nat) : Nat × Nat × Nat :=
  (i % n.x, i / n.x % n.y, i / (n.x * n.y))

/-- The cells by the number of their least corner, the first coordinate changing fastest. -/
def cells (n : GridSize) : List Nat :=
  (List.range (n.z - 1)).flatMap fun z =>
    (List.range (n.y - 1)).flatMap fun y =>
      (List.range (n.x - 1)).map fun x => n.index x y z

end GridSize

structure Grid (S : Type) where
  origin : Vec3 S
  step : S
  size : GridSize

namespace Grid

variable {S : Type} [Scalar S]

@[specialize] def point (g : Grid S) (i : Nat) : Vec3 S :=
  let (x, y, z) := g.size.coords i
  g.origin + Vec3.scale ⟨Scalar.ofCount x, Scalar.ofCount y, Scalar.ofCount z⟩ g.step

/-- The grid around a box with `resolution` steps along its longest side, and `margin` steps, but at
least one, of room. -/
def fit (b : Bounds S) (resolution : Nat) (margin : S) : Grid S :=
  let step := b.size.largest / Scalar.ofCount resolution
  let padded := b.pad (step * Scalar.max margin 1)
  let extent := padded.size
  let points (length : S) : Nat := Scalar.ceilCount (length / step) + 1
  ⟨padded.min, step, ⟨points extent.x, points extent.y, points extent.z⟩⟩

end Grid

end SolidScript
