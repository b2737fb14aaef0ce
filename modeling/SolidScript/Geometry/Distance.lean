import SolidScript.Geometry.Shape

/-!
# Signed distances

The distance of a point to the surface of a shape, negative inside. Combined shapes join the
distances of their parts, with a rounding of width `k` where both are close.
-/

namespace SolidScript

variable {S : Type} [Scalar S]

/-- The smaller of two distances, rounded off where they differ by less than `k`. -/
@[inline] def smoothUnion (a b k : S) : S :=
  if k ≤ 0 then Scalar.min a b
  else
    let h := Scalar.clamp (0.5 + 0.5 * (b - a) / k) 0 1
    Scalar.lerp b a h - k * h * (1 - h)

/-- The part of the first outside the second, rounded off with width `k`. -/
@[inline] def smoothDifference (a b k : S) : S :=
  if k ≤ 0 then Scalar.max a (-b)
  else
    let h := Scalar.clamp (0.5 - 0.5 * (a + b) / k) 0 1
    Scalar.lerp a (-b) h + k * h * (1 - h)

/-- The larger of two distances, rounded off where they differ by less than `k`. -/
@[inline] def smoothIntersection (a b k : S) : S :=
  if k ≤ 0 then Scalar.max a b
  else
    let h := Scalar.clamp (0.5 - 0.5 * (b - a) / k) 0 1
    Scalar.lerp b a h + k * h * (1 - h)

@[inline] def boxDistance (p half : Vec3 S) : S :=
  let q := p.abs - half
  (Vec3.upper q ⟨0, 0, 0⟩).norm + Scalar.min q.largest 0

@[inline] def rectangleDistance (p half : Vec2 S) : S :=
  let q := p.abs - half
  q.positivePart.norm + Scalar.min q.largest 0

/-- The distance to a cone cut at heights `-h` and `h`, with radius `r1` at the bottom and `r2` at
the top: the nearer of a cap and of the side. -/
@[specialize] def frustumDistance (p : Vec3 S) (h r1 r2 : S) : S :=
  let q : Vec2 S := ⟨p.xy.norm, p.z⟩
  let top : Vec2 S := ⟨r2, h⟩
  let side : Vec2 S := ⟨r2 - r1, 2.0 * h⟩
  let rim := if q.y < 0 then r1 else r2
  let cap : Vec2 S := ⟨q.x - Scalar.min q.x rim, Scalar.abs q.y - h⟩
  let sideSq := side.normSq
  let t := if 0 < sideSq then Scalar.clamp ((top - q).dot side / sideSq) 0 1 else 0
  let flank := q - top + side.scale t
  let sign : S := if flank.x < 0 ∧ cap.y < 0 then -1 else 1
  sign * Scalar.sqrt (Scalar.min cap.normSq flank.normSq)

@[specialize] def Shape.distance : Shape S → Vec3 S → S
  | sphere radius, p => p.norm - radius
  | box half, p => boxDistance p half
  | frustum r1 r2 halfHeight, p => frustumDistance p halfHeight r1 r2
  | circle radius, p => p.xy.norm - radius
  | rectangle half, p => rectangleDistance p.xy half
  | text _ _ glyphs, p =>
    glyphs.foldl (fun d g => Scalar.min d (rectangleDistance (p.xy - g.center) g.half))
      Scalar.infinity
  | union a b k, p => smoothUnion (a.distance p) (b.distance p) k
  | difference a b k, p => smoothDifference (a.distance p) (b.distance p) k
  | intersection a b k, p => smoothIntersection (a.distance p) (b.distance p) k
  | blend a b k, p => Scalar.lerp (a.distance p) (b.distance p) k
  | translate inner offset, p => inner.distance (p - offset)
  | rotate inner rotation, p => inner.distance (rotation.unapply p)
  | scale inner factor, p => inner.distance (p.divide factor) * factor.abs.smallest
  | mirror inner normal, p => inner.distance (p.reflect normal)
  | extrude inner halfHeight, p =>
    let w : Vec2 S := ⟨inner.distance ⟨p.x, p.y, 0⟩, Scalar.abs p.z - halfHeight⟩
    Scalar.min (Scalar.max w.x w.y) 0 + w.positivePart.norm
  | shell inner thickness, p => Scalar.abs (inner.distance p) - thickness / 2.0

namespace Geometry

@[specialize] def distance (g : Geometry S) (p : Vec3 S) : S := g.shape.distance p

/-- The differences of the distance across a point along each axis; flat geometry has none along the
third. -/
@[specialize] def gradient (g : Geometry S) (p : Vec3 S) (eps : S) : Vec3 S :=
  let across (d : Vec3 S) : S := g.distance (p + d) - g.distance (p - d)
  let v : Vec3 S := ⟨across ⟨eps, 0, 0⟩, across ⟨0, eps, 0⟩, across ⟨0, 0, eps⟩⟩
  match g.dimension with
  | .flat => ⟨v.x, v.y, 0⟩
  | .solid => v

end Geometry

/-! ## Bounds -/

def Glyph.bounds (g : Glyph S) : Bounds S :=
  let (l, h) := (g.center - g.half, g.center + g.half)
  ⟨⟨l.x, l.y, 0⟩, ⟨h.x, h.y, 0⟩⟩

/-- A box around the inside of a shape; that of a flat shape is flat in the third coordinate. Where
two shapes are rounded into each other the box grows by the width of the rounding. -/
def Shape.bounds : Shape S → Bounds S
  | sphere radius => .ofHalf (.splat radius)
  | box half => .ofHalf half
  | frustum r1 r2 halfHeight =>
    let r := Scalar.max r1 r2
    .ofHalf ⟨r, r, halfHeight⟩
  | circle radius => .ofHalf ⟨radius, radius, 0⟩
  | rectangle half => .ofHalf ⟨half.x, half.y, 0⟩
  | text _ _ glyphs => glyphs.foldl (fun b g => b.union g.bounds) .empty
  | union a b k => (a.bounds.union b.bounds).pad (Scalar.max k 0)
  | blend a b k => (a.bounds.union b.bounds).pad (Scalar.max k 0)
  | difference a _ k => a.bounds.pad (Scalar.max k 0)
  | intersection a b _ => a.bounds.inter b.bounds
  | translate inner offset => inner.bounds.mapCorners (· + offset)
  | rotate inner rotation => inner.bounds.mapCorners rotation.apply
  | scale inner factor => inner.bounds.mapCorners (·.times factor)
  | mirror inner normal => inner.bounds.mapCorners (·.reflect normal)
  | extrude inner halfHeight =>
    let b := inner.bounds
    ⟨⟨b.min.x, b.min.y, -halfHeight⟩, ⟨b.max.x, b.max.y, halfHeight⟩⟩
  | shell inner thickness => inner.bounds.pad (thickness / 2.0)

def Geometry.bounds (g : Geometry S) : Bounds S := g.shape.bounds

end SolidScript
