import SolidScript.Scalar

/-!
# Vectors

Vectors of the plane and of space over a scalar. Sums of products are taken from left to right.
-/

namespace SolidScript

structure Vec2 (S : Type) where
  x : S
  y : S
deriving BEq, DecidableEq, Repr, Inhabited

structure Vec3 (S : Type) where
  x : S
  y : S
  z : S
deriving BEq, DecidableEq, Repr, Inhabited

variable {S : Type} [Scalar S]

namespace Vec2

@[inline] protected def add (a b : Vec2 S) : Vec2 S := ⟨a.x + b.x, a.y + b.y⟩

@[inline] protected def sub (a b : Vec2 S) : Vec2 S := ⟨a.x - b.x, a.y - b.y⟩

instance : Add (Vec2 S) := ⟨Vec2.add⟩
instance : Sub (Vec2 S) := ⟨Vec2.sub⟩

@[inline] def scale (a : Vec2 S) (s : S) : Vec2 S := ⟨a.x * s, a.y * s⟩

@[inline] def shrink (a : Vec2 S) (s : S) : Vec2 S := ⟨a.x / s, a.y / s⟩

@[inline] def abs (a : Vec2 S) : Vec2 S := ⟨Scalar.abs a.x, Scalar.abs a.y⟩

@[inline] def dot (a b : Vec2 S) : S := a.x * b.x + a.y * b.y

@[inline] def normSq (a : Vec2 S) : S := a.dot a

@[inline] def norm (a : Vec2 S) : S := Scalar.sqrt a.normSq

@[inline] def largest (a : Vec2 S) : S := Scalar.upper a.x a.y

/-- Components that are below zero become zero. -/
@[inline] def positivePart (a : Vec2 S) : Vec2 S := ⟨Scalar.upper a.x 0, Scalar.upper a.y 0⟩

end Vec2

namespace Vec3

@[inline] protected def add (a b : Vec3 S) : Vec3 S := ⟨a.x + b.x, a.y + b.y, a.z + b.z⟩

@[inline] protected def sub (a b : Vec3 S) : Vec3 S := ⟨a.x - b.x, a.y - b.y, a.z - b.z⟩

@[inline] protected def neg (a : Vec3 S) : Vec3 S := ⟨-a.x, -a.y, -a.z⟩

instance : Add (Vec3 S) := ⟨Vec3.add⟩
instance : Sub (Vec3 S) := ⟨Vec3.sub⟩
instance : Neg (Vec3 S) := ⟨Vec3.neg⟩

@[inline] def splat (s : S) : Vec3 S := ⟨s, s, s⟩

@[inline] def scale (a : Vec3 S) (s : S) : Vec3 S := ⟨a.x * s, a.y * s, a.z * s⟩

@[inline] def shrink (a : Vec3 S) (s : S) : Vec3 S := ⟨a.x / s, a.y / s, a.z / s⟩

@[inline] def times (a b : Vec3 S) : Vec3 S := ⟨a.x * b.x, a.y * b.y, a.z * b.z⟩

@[inline] def divide (a b : Vec3 S) : Vec3 S := ⟨a.x / b.x, a.y / b.y, a.z / b.z⟩

@[inline] def abs (a : Vec3 S) : Vec3 S := ⟨Scalar.abs a.x, Scalar.abs a.y, Scalar.abs a.z⟩

@[inline] def dot (a b : Vec3 S) : S := a.x * b.x + a.y * b.y + a.z * b.z

@[inline] def cross (a b : Vec3 S) : Vec3 S :=
  ⟨a.y * b.z - a.z * b.y, a.z * b.x - a.x * b.z, a.x * b.y - a.y * b.x⟩

@[inline] def normSq (a : Vec3 S) : S := a.dot a

@[inline] def norm (a : Vec3 S) : S := Scalar.sqrt a.normSq

/-- The vector of length one in the same direction, unless the length is at most `least`. -/
@[inline] def normalize? (a : Vec3 S) (least : S) : Option (Vec3 S) :=
  let n := a.norm
  if n ≤ least then none else some (a.shrink n)

@[inline] def largest (a : Vec3 S) : S := Scalar.upper (Scalar.upper a.x a.y) a.z

@[inline] def smallest (a : Vec3 S) : S := Scalar.lower (Scalar.lower a.x a.y) a.z

@[inline] def upper (a b : Vec3 S) : Vec3 S :=
  ⟨Scalar.upper a.x b.x, Scalar.upper a.y b.y, Scalar.upper a.z b.z⟩

@[inline] def lower (a b : Vec3 S) : Vec3 S :=
  ⟨Scalar.lower a.x b.x, Scalar.lower a.y b.y, Scalar.lower a.z b.z⟩

@[inline] def xy (a : Vec3 S) : Vec2 S := ⟨a.x, a.y⟩

/-- The reflection in the plane through the origin with unit normal `n`. -/
@[inline] def reflect (p n : Vec3 S) : Vec3 S := p - n.scale (2.0 * p.dot n)

def toList (a : Vec3 S) : List S := [a.x, a.y, a.z]

end Vec3

end SolidScript
