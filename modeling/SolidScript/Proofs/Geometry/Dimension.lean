import Mathlib.Tactic.Common
import SolidScript.Geometry.Shape

/-!
# Dimensions of shapes

What dimension a shape has can be read off its tree, and so can whether its parts go together.
-/

namespace SolidScript

variable {S : Type}

namespace Shape

/-- The dimension of a tree; combined shapes have that of the first one. -/
def dimension : Shape S → Dimension
  | sphere _ | box _ | frustum _ _ _ | extrude _ _ => .solid
  | circle _ | rectangle _ | text _ _ _ => .flat
  | union a _ _ | difference a _ _ | intersection a _ _ | blend a _ _ => a.dimension
  | translate inner _ | rotate inner _ | scale inner _ | mirror inner _ | shell inner _ =>
    inner.dimension

/-- At every node of the tree the parts have the dimensions that the node needs. -/
def Coherent : Shape S → Prop
  | sphere _ | box _ | frustum _ _ _ | circle _ | rectangle _ | text _ _ _ => True
  | union a b _ | difference a b _ | intersection a b _ | blend a b _ =>
    a.dimension = b.dimension ∧ a.Coherent ∧ b.Coherent
  | translate inner _ | rotate inner _ | scale inner _ | mirror inner _ | shell inner _ =>
    inner.Coherent
  | extrude inner _ => inner.dimension = .flat ∧ inner.Coherent

end Shape

/-- The tag of a geometry is the dimension of its shape, whose parts go together. -/
structure Geometry.IsSound (g : Geometry S) : Prop where
  dimension : g.dimension = g.shape.dimension
  coherent : g.shape.Coherent

end SolidScript
