import SolidScript.Geometry.Bounds
import SolidScript.Geometry.Rotation
import SolidScript.Path
import SolidScript.Text.Printable

/-!
# Shapes

A shape is an expression over primitive bodies, and a geometry is a shape together with its
dimension. Flat shapes lie in the plane of the first two coordinates and extend in the third without
changing.
-/

namespace SolidScript

inductive Dimension where
  | flat
  | solid
deriving DecidableEq, Repr

def Dimension.number : Dimension → Nat
  | flat => 2
  | solid => 3

structure Glyph (S : Type) where
  center : Vec2 S
  half : Vec2 S
deriving BEq, DecidableEq, Repr, Inhabited

inductive Shape (S : Type) where
  | sphere (radius : S)
  | box (half : Vec3 S)
  /-- A cone along the third axis, cut at both ends: radius `r1` at the bottom and `r2` at the
  top. -/
  | frustum (r1 r2 halfHeight : S)
  | circle (radius : S)
  | rectangle (half : Vec2 S)
  | text (font : Path) (text : String) (glyphs : List (Glyph S))
  | union (a b : Shape S) (k : S)
  | difference (a b : Shape S) (k : S)
  | intersection (a b : Shape S) (k : S)
  | blend (a b : Shape S) (k : S)
  | translate (inner : Shape S) (offset : Vec3 S)
  | rotate (inner : Shape S) (rotation : Rotation S)
  | scale (inner : Shape S) (factor : Vec3 S)
  | mirror (inner : Shape S) (normal : Vec3 S)
  /-- A flat shape swept along the third axis, half up and half down. -/
  | extrude (inner : Shape S) (halfHeight : S)
  | shell (inner : Shape S) (thickness : S)
deriving BEq

structure Geometry (S : Type) where
  shape : Shape S
  dimension : Dimension
deriving BEq

namespace Geometry

variable {S : Type} [Scalar S]

def isFlat (g : Geometry S) : Bool := g.dimension = .flat

def isSolid (g : Geometry S) : Bool := g.dimension = .solid

def sphere (radius : S) : Geometry S := ⟨.sphere radius, .solid⟩

def box (size : Vec3 S) : Geometry S := ⟨.box (size.shrink 2.0), .solid⟩

def frustum (r1 r2 height : S) : Geometry S := ⟨.frustum r1 r2 (height / 2.0), .solid⟩

def circle (radius : S) : Geometry S := ⟨.circle radius, .flat⟩

def rectangle (size : Vec2 S) : Geometry S := ⟨.rectangle (size.shrink 2.0), .flat⟩

/-- The cells of a text from its start on the baseline: every character advances by the same share
of the width, and those that are not blank fill four fifths of it. -/
def glyphs (text : List Char) (height width : S) : List (Glyph S) :=
  let advance := width / Scalar.ofCount (Nat.max text.length 1)
  (text.zipIdx.filter fun (c, _) => !Text.isBlank c).map fun (_, i) =>
    ⟨⟨(Scalar.ofCount i + 0.5) * advance, height / 2.0⟩, ⟨advance * 0.4, height / 2.0⟩⟩

def text (font : Path) (text : String) (height width : S) : Geometry S :=
  ⟨.text font text (glyphs text.toList height width), .flat⟩

/-- Two geometries joined; the result has the dimension of the first. -/
def combine (join : Shape S → Shape S → Shape S) (a b : Geometry S) : Geometry S :=
  ⟨join a.shape b.shape, a.dimension⟩

def union (a b : Geometry S) (k : S) : Geometry S := combine (.union · · k) a b

def difference (a b : Geometry S) (k : S) : Geometry S := combine (.difference · · k) a b

def intersection (a b : Geometry S) (k : S) : Geometry S := combine (.intersection · · k) a b

/-- The mean of two distances, `k` the share of the second. -/
def blend (a b : Geometry S) (k : S) : Geometry S := combine (.blend · · k) a b

def map (g : Geometry S) (f : Shape S → Shape S) : Geometry S := ⟨f g.shape, g.dimension⟩

/-- Flat geometry stays in its plane. -/
def translate (g : Geometry S) (offset : Vec3 S) : Geometry S :=
  let offset := match g.dimension with
    | .flat => ⟨offset.x, offset.y, 0⟩
    | .solid => offset
  g.map (.translate · offset)

def rotate (g : Geometry S) (rotation : Rotation S) : Geometry S := g.map (.rotate · rotation)

/-- Flat geometry stays in its plane. -/
def scale (g : Geometry S) (factor : Vec3 S) : Geometry S :=
  let factor := match g.dimension with
    | .flat => ⟨factor.x, factor.y, 1⟩
    | .solid => factor
  g.map (.scale · factor)

/-- The reflection in the plane through the origin with a unit normal. -/
def mirror (g : Geometry S) (normal : Vec3 S) : Geometry S := g.map (.mirror · normal)

def extrude (g : Geometry S) (height : S) : Geometry S := ⟨.extrude g.shape (height / 2.0), .solid⟩

def shell (g : Geometry S) (thickness : S) : Geometry S := g.map (.shell · thickness)

def rotateX (g : Geometry Float) (angle : Float) : Geometry Float :=
  g.rotate (.ofAxisAngle ⟨1, 0, 0⟩ angle)

def rotateY (g : Geometry Float) (angle : Float) : Geometry Float :=
  g.rotate (.ofAxisAngle ⟨0, 1, 0⟩ angle)

def rotateZ (g : Geometry Float) (angle : Float) : Geometry Float :=
  g.rotate (.ofAxisAngle ⟨0, 0, 1⟩ angle)

end Geometry

end SolidScript
