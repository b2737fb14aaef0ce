/-!
# Settings

What a user can set beside the program: how far shapes are rounded into each other, how finely
surfaces are sampled, where fonts are found, and how deep calls may nest.
-/

namespace SolidScript

/-- Widths of rounding that operators use unless they are given one. -/
structure Smoothing where
  union : Float := 1.0
  intersection : Float := 0.0
  difference : Float := 0.0
  blend : Float := 0.5
deriving BEq

structure MeshSettings where
  resolution : Nat := 64
  margin : Float := 1.5
deriving BEq

/-- Where fonts are looked for, and the family used unless one is given. -/
structure FontSettings where
  directory : String := "fonts"
  family : String := "Liberation Sans"
deriving BEq

structure Settings where
  smoothing : Smoothing := {}
  mesh : MeshSettings := {}
  fonts : FontSettings := {}
  /-- How many calls of modules and functions may be in progress. -/
  maxDepth : Nat := 1000
deriving BEq

end SolidScript
