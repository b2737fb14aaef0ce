import SolidScript.Mesh.Basic

/-!
# Meshes as bytes

Numbers are written with their least byte first.

* `Mesh.content`: positions and triangles, without loss, each list behind its length
* `Mesh.stl`: the binary form of the STL format, in single precision
-/

namespace SolidScript

namespace Bytes

/-- The `n` least bytes of a number, the least one first. -/
def pushLittle (out : ByteArray) : (n : Nat) → UInt64 → ByteArray
  | 0, _ => out
  | n + 1, x => pushLittle (out.push x.toUInt8) n (x >>> 8)

def pushCount (out : ByteArray) (n : Nat) : ByteArray := pushLittle out 8 n.toUInt64

def pushFloat (out : ByteArray) (x : Float) : ByteArray := pushLittle out 8 x.toBits

def pushSingle (out : ByteArray) (x : Float) : ByteArray :=
  pushLittle out 4 x.toFloat32.toBits.toUInt64

def pushSingles (out : ByteArray) (v : Vec3 Float) : ByteArray := v.toList.foldl pushSingle out

end Bytes

namespace Mesh

open Bytes

/-- Everything that makes up the surface: vertex positions and triangles in order. -/
def content (m : Mesh Float) : ByteArray :=
  let out := pushCount ByteArray.empty m.vertices.size
  let out := m.vertices.foldl (fun out v => v.position.toList.foldl pushFloat out) out
  let out := pushCount out m.triangles.size
  m.triangles.foldl (fun out t => t.indices.foldl pushCount out) out

/-- One triangle: its normal, its corners, and two bytes that are not used. -/
def pushStlTriangle (m : Mesh Float) (out : ByteArray) (t : Triangle) : ByteArray :=
  let corners := t.indices.map m.position
  pushLittle (corners.foldl pushSingles (pushSingles out (m.faceNormal t))) 2 0

def stlHeader : Nat := 80

/-- The mesh as a binary STL file: an empty header, the number of triangles, and the triangles. -/
def stl (m : Mesh Float) : ByteArray :=
  let header : ByteArray := ⟨Array.replicate stlHeader 0⟩
  m.triangles.foldl m.pushStlTriangle (pushLittle header 4 m.triangles.size.toUInt64)

end Mesh

end SolidScript
