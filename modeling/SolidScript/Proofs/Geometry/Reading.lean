import SolidScript.Proofs.Geometry.Dimension
import SolidScript.Proofs.Geometry.Exact

/-!
# Shapes read without rounding

The numbers in a shape can be replaced by others, in particular by the exact numbers that they stand
for. A point is in a box if it is between the corners.
-/

namespace SolidScript

variable {S T : Type}

/-- A shape with other numbers. -/
def Vec2.map (f : S → T) (a : Vec2 S) : Vec2 T := ⟨f a.x, f a.y⟩

def Vec3.map (f : S → T) (a : Vec3 S) : Vec3 T := ⟨f a.x, f a.y, f a.z⟩

def Rotation.map (f : S → T) (r : Rotation S) : Rotation T :=
  ⟨r.col1.map f, r.col2.map f, r.col3.map f⟩

def Glyph.map (f : S → T) (g : Glyph S) : Glyph T := ⟨g.center.map f, g.half.map f⟩

/-- The same shape with other numbers. -/
def Shape.map (f : S → T) : Shape S → Shape T
  | sphere radius => .sphere (f radius)
  | box half => .box (half.map f)
  | frustum r1 r2 halfHeight => .frustum (f r1) (f r2) (f halfHeight)
  | circle radius => .circle (f radius)
  | rectangle half => .rectangle (half.map f)
  | text font content glyphs => .text font content (glyphs.map (·.map f))
  | union a b k => .union (a.map f) (b.map f) (f k)
  | difference a b k => .difference (a.map f) (b.map f) (f k)
  | intersection a b k => .intersection (a.map f) (b.map f) (f k)
  | blend a b k => .blend (a.map f) (b.map f) (f k)
  | translate inner offset => .translate (inner.map f) (offset.map f)
  | rotate inner rotation => .rotate (inner.map f) (rotation.map f)
  | scale inner factor => .scale (inner.map f) (factor.map f)
  | mirror inner normal => .mirror (inner.map f) (normal.map f)
  | extrude inner halfHeight => .extrude (inner.map f) (f halfHeight)
  | shell inner thickness => .shell (inner.map f) (f thickness)

/-- A real point as an exact one. -/
def Vec3.exact (p : Vec3 ℝ) : Vec3 Exact := p.map Exact.real

/-- A shape with real numbers, read without rounding. -/
noncomputable def Shape.exact (s : Shape ℝ) : Shape Exact := s.map Exact.real

/-- The reflection of a real point. -/
lemma Vec3.reflect_eq (p n : Vec3 ℝ) :
    let t := 2 * (p.x * n.x + p.y * n.y + p.z * n.z)
    p.reflect n = ⟨p.x - n.x * t, p.y - n.y * t, p.z - n.z * t⟩ := by
  have htwo : (2.0 : ℝ) = 2 := by norm_num
  unfold Vec3.reflect
  rw [htwo]
  rfl

/-- A point is in a box if it is between the corners. -/
instance [Scalar S] : Membership (Vec3 S) (Bounds S) where
  mem b p := (b.min.x ≤ p.x ∧ p.x ≤ b.max.x) ∧ (b.min.y ≤ p.y ∧ p.y ≤ b.max.y) ∧ b.min.z ≤ p.z ∧
    p.z ≤ b.max.z

end SolidScript
