import Std.Data.HashMap
import SolidScript.Geometry.Bounds

/-!
# Triangle meshes

Vertices with positions and normals, and triangles that refer to them by index, counterclockwise
seen from outside.

* `Mesh.isClosed`: every edge belongs to two triangles, which run along it in opposite directions
* `Mesh.volume`: what a closed mesh encloses, by the signed volumes of the cones over its triangles
* `Mesh.merge`: two meshes as one, without any intersection
* `Mesh.recomputeNormals`: normals from the faces around each vertex
-/

namespace SolidScript

structure Vertex (S : Type) where
  position : Vec3 S
  normal : Vec3 S
deriving Inhabited

structure Triangle where
  a : Nat
  b : Nat
  c : Nat
deriving DecidableEq, Repr

namespace Triangle

def indices (t : Triangle) : List Nat := [t.a, t.b, t.c]

/-- The edges in the direction in which the triangle runs along them. -/
def edges (t : Triangle) : List (Nat × Nat) := [(t.a, t.b), (t.b, t.c), (t.c, t.a)]

/-- The same triangle of vertices that come `n` places later. -/
def shift (t : Triangle) (n : Nat) : Triangle := ⟨t.a + n, t.b + n, t.c + n⟩

end Triangle

structure Mesh (S : Type) where
  vertices : Array (Vertex S) := #[]
  triangles : Array Triangle := #[]

namespace Mesh

variable {S : Type}

def isEmpty (m : Mesh S) : Bool := m.triangles.isEmpty

def edges (m : Mesh S) : List (Nat × Nat) := m.triangles.toList.flatMap Triangle.edges

/-- How often each item occurs, in counters of 32 bits that start over when they are full. -/
def tally (items : List (Nat × Nat)) : Std.HashMap (Nat × Nat) UInt32 :=
  items.foldl (fun counts e => counts.insert e (counts.getD e 0 + 1)) {}

/-- Whether there are triangles, and each edge and its reverse are counted once. -/
def isClosed (m : Mesh S) : Bool :=
  let counts := tally m.edges
  !m.isEmpty && m.edges.all fun (a, b) => counts.getD (a, b) 0 == 1 && counts.getD (b, a) 0 == 1

variable [Scalar S]

/-- The position of a vertex; the origin for an index that no vertex has. -/
def position (m : Mesh S) (i : Nat) : Vec3 S :=
  match m.vertices[i]? with
  | some v => v.position
  | none => .splat 0

/-- Twice the area of a triangle, in the direction of its normal. -/
def areaVector (m : Mesh S) (t : Triangle) : Vec3 S :=
  let a := m.position t.a
  (m.position t.b - a).cross (m.position t.c - a)

/-- The unit normal of a triangle by its winding; zero if it has no area. -/
def faceNormal (m : Mesh S) (t : Triangle) : Vec3 S :=
  ((m.areaVector t).normalize? 0).getD (.splat 0)

/-- The signed volume of the cone from the origin over a triangle. -/
def coneVolume (m : Mesh S) (t : Triangle) : S :=
  (m.position t.a).dot ((m.position t.b).cross (m.position t.c)) / 6.0

def volume (m : Mesh S) : S := m.triangles.foldl (fun sum t => sum + m.coneVolume t) 0

def bounds (m : Mesh S) : Bounds S := m.vertices.foldl (fun b v => b.insert v.position) .empty

def addTriangle (m : Mesh S) (t : Triangle) : Mesh S := { m with triangles := m.triangles.push t }

/-- Add a vertex; its index is the number of vertices before. -/
def addVertex (m : Mesh S) (v : Vertex S) : Mesh S := { m with vertices := m.vertices.push v }

def merge (m n : Mesh S) : Mesh S :=
  ⟨m.vertices ++ n.vertices, m.triangles ++ n.triangles.map (·.shift m.vertices.size)⟩

/-- Add a triangle's area vector to the sums of its vertices. -/
def addNormal (m : Mesh S) (sums : Array (Vec3 S)) (t : Triangle) : Array (Vec3 S) :=
  let n := m.areaVector t
  t.indices.foldl (fun sums i => sums.modify i (· + n)) sums

/-- Lengths up to this one have no direction. -/
def leastNormal : S := 1e-12

/-- Give each vertex the direction of the sum of the area vectors around it, and the third axis
where there is none. -/
def recomputeNormals (m : Mesh S) : Mesh S :=
  if m.isEmpty then m
  else
    let sums := m.triangles.foldl m.addNormal (Array.replicate m.vertices.size (.splat 0))
    let normal (sum : Vec3 S) : Vec3 S := (sum.normalize? leastNormal).getD ⟨0, 0, 1⟩
    { m with vertices := m.vertices.zipWith (fun v sum => { v with normal := normal sum }) sums }

end Mesh

end SolidScript
