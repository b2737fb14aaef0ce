import SolidScript.Geometry.Vector

/-!
# Rotations

A rotation is kept as the columns of its matrix, the images of the unit vectors.

* `apply`, `unapply`: turn a vector, and turn it back
* `around`: the rotation about a unit axis by an angle with a given cosine and sine
* `Rotation.angles`: the three turns about the axes that a rotation is made of
-/

namespace SolidScript

structure Rotation (S : Type) where
  col1 : Vec3 S
  col2 : Vec3 S
  col3 : Vec3 S
deriving BEq, DecidableEq, Repr, Inhabited

namespace Rotation

variable {S : Type} [Scalar S]

def identity : Rotation S := ⟨⟨1, 0, 0⟩, ⟨0, 1, 0⟩, ⟨0, 0, 1⟩⟩

def apply (r : Rotation S) (p : Vec3 S) : Vec3 S :=
  r.col1.scale p.x + r.col2.scale p.y + r.col3.scale p.z

/-- Turn a vector back; the inverse of a rotation is its transpose. -/
def unapply (r : Rotation S) (p : Vec3 S) : Vec3 S := ⟨r.col1.dot p, r.col2.dot p, r.col3.dot p⟩

/-- The rotation about a unit axis by the angle with cosine `c` and sine `s`. -/
def around (u : Vec3 S) (c s : S) : Rotation S :=
  let m := 1 - c
  let (xx, yy, zz) := (u.x * u.x, u.y * u.y, u.z * u.z)
  ⟨⟨xx + (1 - xx) * c, u.x * u.y * m + u.z * s, u.x * u.z * m - u.y * s⟩,
    ⟨u.x * u.y * m - u.z * s, yy + (1 - yy) * c, u.y * u.z * m + u.x * s⟩,
    ⟨u.x * u.z * m + u.y * s, u.y * u.z * m - u.x * s, zz + (1 - zz) * c⟩⟩

def entries (r : Rotation S) : List S := r.col1.toList ++ r.col2.toList ++ r.col3.toList

def ofAxisAngle (axis : Vec3 Float) (angle : Float) : Rotation Float :=
  if angle == 0 then identity else around axis angle.cos angle.sin

def pi : Float := 3.14159265358979323846

/-- Angles in radians such that turning about the first axis, then the second, then the third is the
rotation. -/
def angles (r : Rotation Float) : Vec3 Float :=
  if r.col1.z.abs < 1 then
    let pitch := -r.col1.z.asin
    let c := pitch.cos
    ⟨Float.atan2 (r.col2.z / c) (r.col3.z / c), pitch, Float.atan2 (r.col1.y / c) (r.col1.x / c)⟩
  else if r.col1.z ≤ -1 then ⟨Float.atan2 r.col2.x r.col3.x, pi / 2, 0⟩
  else ⟨-Float.atan2 r.col2.x (-r.col3.x), -pi / 2, 0⟩

end Rotation

end SolidScript
