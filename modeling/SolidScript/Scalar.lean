/-!
# Scalars

The arithmetic that ranges, distances, bounds and meshes are written in. Programs run on `Float`;
the same formulas read over an exact scalar say what they compute without rounding.

* `Scalar`: the operations, with an infinity and a test for finiteness
* `Scalar.min`, `Scalar.max`: the smaller and the larger of two scalars, a NaN losing to a number
* `Scalar.lower`, `Scalar.upper`: the same by one comparison, where a NaN makes the second operand
win
* `Scalar.clamp`, `Scalar.lerp`
-/

namespace SolidScript

/-- The number type that geometry is computed in. -/
class Scalar (α : Type) extends
    Zero α, One α, Add α, Sub α, Mul α, Div α, Neg α, LT α, LE α, BEq α, OfScientific α where
  decLt : DecidableRel (α := α) (· < ·)
  decLe : DecidableRel (α := α) (· ≤ ·)
  ofCount : Nat → α
  /-- The least count that is not below a scalar; counts end at `2 ^ 64 - 1`. -/
  ceilCount : α → Nat
  sqrt : α → α
  abs : α → α
  infinity : α
  isFinite : α → Bool

namespace Scalar

variable {α : Type} [Scalar α]

instance : DecidableRel (α := α) (· < ·) := Scalar.decLt
instance : DecidableRel (α := α) (· ≤ ·) := Scalar.decLe

/-- Only a NaN differs from itself. -/
@[inline] def isNaN (a : α) : Bool := !(a == a)

/-- The smaller operand, the first of two equal ones; a NaN loses to a number. -/
@[inline] def min (a b : α) : α := if isNaN a then b else if b < a then b else a

/-- The larger operand, the first of two equal ones; a NaN loses to a number. -/
@[inline] def max (a b : α) : α := if isNaN a then b else if a < b then b else a

@[inline] def lower (a b : α) : α := if a ≤ b then a else b

@[inline] def upper (a b : α) : α := if b ≤ a then a else b

/-- The point of `[lo, hi]` nearest to `a`. -/
@[inline] def clamp (a lo hi : α) : α := if a < lo then lo else if hi < a then hi else a

/-- The point a share `t` of the way from `a` to `b`. -/
@[inline] def lerp (a b t : α) : α := a + (b - a) * t

end Scalar

/-- Every count that fits in a machine word is at most this. -/
def maxCount : Nat := Nat.pow 2 64 - 1

/-- The integer part of a number that is not negative, ending at `maxCount`; zero for a NaN. -/
@[inline] def floorCount (x : Float) : Nat := x.toUInt64.toNat

/-- The least count not below `x`: the integer part, plus one if something is left over. -/
@[inline] def ceilCount (x : Float) : Nat :=
  let whole := x.toUInt64
  if whole.toFloat < x then Nat.min (whole.toNat + 1) maxCount else whole.toNat

instance : Scalar Float where
  zero := 0.0
  one := 1.0
  decLt := fun a b => inferInstanceAs (Decidable (a < b))
  decLe := fun a b => inferInstanceAs (Decidable (a ≤ b))
  ofCount := Float.ofNat
  ceilCount := ceilCount
  sqrt := Float.sqrt
  abs := Float.abs
  infinity := 1.0 / 0.0
  isFinite := Float.isFinite

end SolidScript
