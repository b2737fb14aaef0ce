import SolidScript.Geometry.Vector

/-!
# Boxes

Boxes with sides along the axes, given by two opposite corners. A box whose lower corner is above
the upper one on some axis holds no points; the empty box has its corners at infinity and is the
unit of `union`.
-/

namespace SolidScript

structure Bounds (S : Type) where
  min : Vec3 S
  max : Vec3 S
deriving BEq, DecidableEq, Repr, Inhabited

namespace Bounds

variable {S : Type} [Scalar S]

def ofHalf (half : Vec3 S) : Bounds S := ⟨-half, half⟩

def empty : Bounds S := ⟨.splat Scalar.infinity, .splat (-Scalar.infinity)⟩

def insert (b : Bounds S) (p : Vec3 S) : Bounds S :=
  ⟨⟨Scalar.min b.min.x p.x, Scalar.min b.min.y p.y, Scalar.min b.min.z p.z⟩,
    ⟨Scalar.max b.max.x p.x, Scalar.max b.max.y p.y, Scalar.max b.max.z p.z⟩⟩

def ofPoints (ps : List (Vec3 S)) : Bounds S := ps.foldl insert empty

def isEmpty (b : Bounds S) : Bool := b.max.x < b.min.x || b.max.y < b.min.y || b.max.z < b.min.z

def isFinite (b : Bounds S) : Bool := (b.min.toList ++ b.max.toList).all Scalar.isFinite

/-- The box with a margin on every side; an empty box stays as it is. -/
def pad (b : Bounds S) (margin : S) : Bounds S :=
  if b.isEmpty then b else ⟨b.min - .splat margin, b.max + .splat margin⟩

def union (a b : Bounds S) : Bounds S := ⟨a.min.lower b.min, a.max.upper b.max⟩

def inter (a b : Bounds S) : Bounds S := ⟨a.min.upper b.min, a.max.lower b.max⟩

/-- The eight corners, the first coordinate changing fastest. -/
def corners (b : Bounds S) : List (Vec3 S) :=
  let (l, h) := (b.min, b.max)
  [⟨l.x, l.y, l.z⟩, ⟨h.x, l.y, l.z⟩, ⟨l.x, h.y, l.z⟩, ⟨h.x, h.y, l.z⟩,
    ⟨l.x, l.y, h.z⟩, ⟨h.x, l.y, h.z⟩, ⟨l.x, h.y, h.z⟩, ⟨h.x, h.y, h.z⟩]

/-- The smallest box around the images of the corners; an empty box stays as it is. -/
def mapCorners (b : Bounds S) (f : Vec3 S → Vec3 S) : Bounds S :=
  if b.isEmpty then b else ofPoints (b.corners.map f)

def center (b : Bounds S) : Vec3 S := (b.min + b.max).scale 0.5

def size (b : Bounds S) : Vec3 S := b.max - b.min

def volume (b : Bounds S) : S := b.size.x * b.size.y * b.size.z

/-- Whether all corners agree up to less than a tolerance. -/
def near (a b : Bounds S) (tolerance : S) : Bool :=
  (a.min - b.min).abs.largest < tolerance && (a.max - b.max).abs.largest < tolerance

end Bounds

end SolidScript
