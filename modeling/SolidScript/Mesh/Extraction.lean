import Std.Data.HashMap
import SolidScript.Error
import SolidScript.Geometry.Distance
import SolidScript.Mesh.Basic
import SolidScript.Mesh.Section
import SolidScript.Settings.Basic

/-!
# Surfaces of geometry

The distance is sampled on a grid around the bounds of a geometry, and the surface between points
inside and outside becomes a mesh. A vertex stands for a crossed edge of the grid, at the point
where the distance would vanish if it changed evenly.
-/

namespace SolidScript

/-- A mesh in the making: its vertices by the edges that they stand for. -/
structure MeshBuilder (S : Type) where
  mesh : Mesh S := {}
  index : Std.HashMap GridEdge Nat := {}

namespace MeshBuilder

variable {S : Type} [Scalar S]

/-- Add the vertex of an edge, unless it is there. -/
@[specialize] def addCrossing (vertex : GridEdge → Vertex S) (b : MeshBuilder S) (e : GridEdge) :
    MeshBuilder S :=
  if b.index.contains e then b
  else
    let i := b.mesh.vertices.size
    ⟨b.mesh.addVertex (vertex e), b.index.insert e i⟩

/-- Add a triangle of edges whose vertices are there. -/
def addTriangle (b : MeshBuilder S) (t : GridEdge × GridEdge × GridEdge) : MeshBuilder S :=
  let at_ (e : GridEdge) : Nat := b.index.getD e 0
  ⟨b.mesh.addTriangle ⟨at_ t.1, at_ t.2.1, at_ t.2.2⟩, b.index⟩

@[specialize] def addPiece (vertex : GridEdge → Vertex S) (b : MeshBuilder S) (p : Piece GridEdge) :
    MeshBuilder S :=
  p.triangles.foldl addTriangle (p.crossings.foldl (addCrossing vertex) b)

end MeshBuilder

variable {S : Type} [Scalar S]

/-- The mesh of the surface around the points inside, with a vertex for every crossed edge. -/
@[specialize] def GridSize.surface (n : GridSize) (inside : Nat → Bool)
    (vertex : GridEdge → Vertex S) : Mesh S :=
  (n.cells.foldl
    (fun b base =>
      n.tetrahedra.foldl (fun b t => b.addPiece vertex (n.cut inside (t.map (base + ·)))) b)
    ({} : MeshBuilder S)).mesh

/-- The mesh of the surface between the negative samples and the others. -/
@[specialize] def GridSize.extract (n : GridSize) (samples : Array S)
    (vertex : GridEdge → Vertex S) : Mesh S :=
  let signs := samples.map fun d => decide (d < 0)
  n.surface (signs.getD · false) vertex

/-- The share of the way along an edge at which the surface crosses it, from the distances at its
ends. -/
@[inline] def crossingShare (da db : S) : S :=
  if da == db then 0.5 else Scalar.clamp (da / (da - db)) 0 1

/-- Gradients up to this length have no direction. -/
@[inline] def leastGradient : S := 2.220446049250313e-16

/-- The vertex of a crossed edge: its normal is the direction of the gradient, or that of the edge
where there is none. -/
@[specialize] def Geometry.crossing (g : Geometry S) (grid : Grid S) (sample : Nat → S)
    (e : GridEdge) : Vertex S :=
  let (pa, pb) := (grid.point e.1, grid.point e.2)
  let along := pb - pa
  let position := pa + along.scale (crossingShare (sample e.1) (sample e.2))
  let gradient := g.gradient position (grid.step * 1e-3)
  ⟨position, (gradient.normalize? leastGradient).getD (along.shrink along.norm)⟩

@[specialize] def Geometry.meshOn (g : Geometry S) (grid : Grid S) : Mesh S :=
  let samples := Array.ofFn (n := grid.size.count) fun i => g.distance (grid.point i)
  grid.size.extract samples (g.crossing grid (samples.getD · 0))

@[specialize] def Geometry.mesh (g : Geometry S) (resolution : Nat) (margin : S) :
    Except MeshError (Mesh S) :=
  if !g.isSolid then .error .notSolid
  else if resolution < 2 then .error (.resolution resolution)
  else
    let b := g.bounds
    if b.isEmpty || !b.isFinite || b.size.largest ≤ 0 then .error .unbounded
    else .ok (g.meshOn (.fit b resolution margin))

end SolidScript
