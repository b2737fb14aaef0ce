import Mathlib
import SolidScript.Mesh.Digest
import SolidScript.Proofs.Mesh.Merging

/-!
# Meshes read back from bytes

Numbers are written in fields of fixed lengths, and lists behind their lengths or with all that is
left. So the bytes of a mesh can be read back from the front, field by field, whatever the fields
hold.
-/

namespace SolidScript

open List

namespace Bytes

/-! ## Readers -/

/-- What reads bytes from the front, and leaves the rest. -/
abbrev Reader := StateT (List UInt8) Option

namespace Reader

variable {α β γ : Type}

def byte : Reader UInt8
  | [] => none
  | b :: rest => some (b, rest)

/-- A number of `n` bytes, the least one first. -/
def little : ℕ → Reader ℕ
  | 0 => pure 0
  | n + 1 => (fun b high => b.toNat + 256 * high) <$> byte <*> little n

/-- The same `n` times. -/
def times (r : Reader α) : ℕ → Reader (List α)
  | 0 => pure []
  | n + 1 => cons <$> r <*> r.times n

/-- Some bytes are read as a result, whatever comes behind them. -/
def Reads (r : Reader α) (bytes : List UInt8) (a : α) : Prop := ∀ rest, r.run (bytes ++ rest) =
    some (a, rest)

lemma Reads.bind {r : Reader α} {f : α → Reader β} {as bs : List UInt8} {a : α} {b : β}
    (h : r.Reads as a) (hf : (f a).Reads bs b) : (r >>= f).Reads (as ++ bs) b := by
  intro rest
  rw [StateT.run_bind, append_assoc, h]
  exact hf rest

lemma Reads.map {r : Reader α} {as : List UInt8} {a : α} (h : r.Reads as a) (f : α → β) :
    (f <$> r).Reads as (f a) := by
  intro rest
  rw [StateT.run_map, h]
  rfl

lemma Reads.seq {r : Reader (α → β)} {s : Reader α} {as bs : List UInt8} {f : α → β} {a : α}
    (h : r.Reads as f) (hs : s.Reads bs a) : (r <*> s).Reads (as ++ bs) (f a) := by
  rw [seq_eq_bind_map]
  exact h.bind (hs.map f)

lemma reads_times {r : Reader α} {code : γ → List UInt8} {value : γ → α} {xs : List γ}
    (h : ∀ x ∈ xs, r.Reads (code x) (value x)) :
    (r.times xs.length).Reads (xs.flatMap code) (xs.map value) := by
  induction xs with
  | nil => exact fun _ => rfl
  | cons x xs ih =>
    rw [forall_mem_cons] at h
    exact (h.1.map cons).seq (ih h.2)

lemma reads_bytes (bytes : List UInt8) : (byte.times bytes.length).Reads bytes bytes := by
  have h := reads_times fun b (_ : b ∈ bytes) => show byte.Reads [b] (id b) from fun _ => rfl
  simpa using h

end Reader

/-- The `n` least bytes of a number, the least one first. -/
def littleBytes : ℕ → UInt64 → List UInt8
  | 0, _ => []
  | n + 1, x => x.toUInt8 :: littleBytes n (x >>> 8)

/-- Little-endian bytes are read back. -/
lemma reads_little (n : ℕ) (x : UInt64) :
    (Reader.little n).Reads (littleBytes n x) (x.toNat % 256 ^ n) := by
  induction n generalizing x with
  | zero =>
    rw [pow_zero, Nat.mod_one]
    exact fun _ => rfl
  | succ n ih =>
    have hvalue : x.toNat % 256 ^ (n + 1) =
        x.toUInt8.toNat + 256 * ((x >>> 8).toNat % 256 ^ n) := by
      rw [pow_succ', Nat.mod_mul]
      simp [Nat.shiftRight_eq_div_pow]
    have hbyte : Reader.byte.Reads [x.toUInt8] x.toUInt8 := fun _ => rfl
    rw [hvalue]
    exact (hbyte.map _).seq (ih (x >>> 8))

/-- So are words. -/
lemma reads_word (x : UInt64) : (Reader.little 8).Reads (littleBytes 8 x) x.toNat := by
  have h := reads_little 8 x
  rwa [Nat.mod_eq_of_lt (x.toNat_lt.trans_eq (by decide))] at h

/-- And counts. -/
lemma reads_count {n : ℕ} (h : n < 2 ^ 64) :
    (Reader.little 8).Reads (littleBytes 8 n.toUInt64) n := by
  have hword := reads_word n.toUInt64
  rwa [show n.toUInt64.toNat = n from Nat.mod_eq_of_lt h] at hword

/-! ## Writers -/

/-- What is pushed for an item does not depend on what stands before it. -/
def Appends {α : Type} (push : ByteArray → α → ByteArray) (code : α → List UInt8) : Prop :=
  ∀ out a, (push out a).data.toList = out.data.toList ++ code a

lemma Appends.toList_foldl {α : Type} {push : ByteArray → α → ByteArray} {code : α → List UInt8}
    (h : Appends push code) (out : ByteArray) (as : List α) :
    (as.foldl push out).data.toList = out.data.toList ++ as.flatMap code := by
  induction as generalizing out with
  | nil => exact (append_nil _).symm
  | cons a as ih => rw [foldl_cons, ih, h, append_assoc, flatMap_cons]

/-- Bytes are appended lowest first. -/
lemma appends_little (n : ℕ) : Appends (pushLittle · n) (littleBytes n) := by
  intro out x
  induction n generalizing out x with
  | zero => exact (append_nil _).symm
  | succ n ih =>
    refine (ih (out.push x.toUInt8) (x >>> 8)).trans ?_
    simp [littleBytes]

lemma appends_count : Appends pushCount fun n => littleBytes 8 n.toUInt64 :=
  fun out n => appends_little 8 out n.toUInt64

end Bytes

namespace Mesh

open Bytes

/-! ## Content -/

/-- What fits in a machine: indices and lengths are words. -/
structure Addressable (m : Mesh Float) : Prop where
  vertices : m.vertices.size < 2 ^ 64
  triangles : m.triangles.size < 2 ^ 64
  indices : ∀ t ∈ m.triangles, ∀ i ∈ t.indices, i < 2 ^ 64

/-- Words in threes behind their number. -/
def readTriples : Reader (List (List ℕ)) := do (Reader.times (.times (.little 8) 3) (← .little 8))

/-- The positions, by their bits, and the triangles. -/
def readContent : Reader (List (List ℕ) × List (List ℕ)) := Prod.mk <$> readTriples <*> readTriples

lemma reads_triples {α γ : Type} {xs : List α} {items : α → List γ} {code : γ → List UInt8}
    {value : γ → ℕ} (hxs : xs.length < 2 ^ 64) (hitems : ∀ x, (items x).length = 3)
    (h : ∀ x ∈ xs, ∀ i ∈ items x, (Reader.little 8).Reads (code i) (value i)) :
    readTriples.Reads (littleBytes 8 xs.length.toUInt64 ++ xs.flatMap
      fun x => (items x).flatMap code)
      (xs.map fun x => (items x).map value) := by
  refine (reads_count hxs).bind (Reader.reads_times fun x hx => ?_)
  have htriple := Reader.reads_times (h x hx)
  rwa [hitems] at htriple

/-- The bits of all positions. -/
def positionBits (m : Mesh Float) : List (Vec3 UInt64) :=
  m.vertices.toList.map (·.position.map Float.toBits)

lemma toList_content (m : Mesh Float) :
    m.content.data.toList =
    (littleBytes 8 m.positionBits.length.toUInt64 ++
      m.positionBits.flatMap (·.toList.flatMap (littleBytes 8))) ++
      (littleBytes 8 m.triangles.size.toUInt64 ++
        m.triangles.toList.flatMap (·.indices.flatMap (littleBytes 8 ·.toUInt64))) := by
  have hfloat : Appends pushFloat (littleBytes 8 ·.toBits) :=
    fun out x => appends_little 8 out x.toBits
  have hpositions : Appends (fun out (v : Vertex Float) => v.position.toList.foldl pushFloat out)
      ((·.map Float.toBits |>.toList.flatMap (littleBytes 8)) ∘ Vertex.position) :=
    fun out v => hfloat.toList_foldl out v.position.toList
  have hindices : Appends (fun out (t : Triangle) => t.indices.foldl pushCount out) _ :=
    fun out t => appends_count.toList_foldl out t.indices
  unfold content
  rw [← Array.foldl_toList, ← Array.foldl_toList, hindices.toList_foldl, appends_count,
    hpositions.toList_foldl, appends_count, positionBits, length_map, flatMap_map]
  exact append_assoc _ _ _

variable {m n : Mesh Float}

/-- The content of a mesh can be read back. -/
lemma Addressable.reads_content (hm : m.Addressable) :
    readContent.Reads m.content.data.toList
    (m.positionBits.map (·.toList.map UInt64.toNat),
      m.triangles.toList.map (·.indices.map id)) := by
  have hsize : m.positionBits.length < 2 ^ 64 := (length_map _).trans_lt hm.vertices
  rw [toList_content]
  refine ((reads_triples hsize (fun _ => rfl) ?_).map Prod.mk).seq
    (reads_triples hm.triangles (fun _ => rfl) ?_)
  · exact fun _ _ x _ => reads_word x
  · exact fun t ht i hi => reads_count (hm.indices t (Array.mem_toList_iff.mp ht) i hi)

/-- **Digests cover all of a mesh.** The bytes that a digest is taken of are the same for two meshes
if and only if they have the same positions, bit by bit and in order, and the same triangles in
order. So two meshes of which this does not hold can only share a digest if the digests of different
bytes collide. -/
theorem content_eq_iff (m n : Mesh Float) (hm : m.Addressable) (hn : n.Addressable) :
    (m.content = n.content ↔ m.positionBits = n.positionBits ∧ m.triangles = n.triangles) ∧
      (m.digest = n.digest → ¬(m.positionBits = n.positionBits ∧ m.triangles = n.triangles) →
        m.content ≠ n.content ∧ sha256 m.content = sha256 n.content) := by
  have hiff : m.content = n.content ↔ m.positionBits = n.positionBits ∧
      m.triangles = n.triangles := by
    constructor
    · intro h
      have hread := (hm.reads_content []).symm.trans (h ▸ hn.reads_content [])
      have hvertex : Function.Injective fun b : Vec3 UInt64 => b.toList.map UInt64.toNat := by
        rintro ⟨x, y, z⟩ ⟨x', y', z'⟩ h
        simpa [Vec3.toList, UInt64.toNat_inj] using h
      have htriangle : Function.Injective fun t : Triangle => t.indices.map id := by
        rintro ⟨a, b, c⟩ ⟨a', b', c'⟩ h
        simpa [Triangle.indices] using h
      obtain ⟨hpositions, htriangles⟩ := Prod.mk.inj (Prod.mk.inj (Option.some.inj hread)).1
      exact ⟨hvertex.list_map hpositions, Array.toList_inj.mp (htriangle.list_map htriangles)⟩
    · rintro ⟨hpositions, htriangles⟩
      refine ByteArray.ext (Array.toList_inj.mp ?_)
      rw [toList_content, toList_content, hpositions, htriangles]
  exact ⟨hiff, fun hdigest hne => ⟨fun h => hne (hiff.mp h), hdigest⟩⟩

/-- A vertex and a triangle are as many bytes, but not the same ones. -/
theorem content_eq_iff_sliver : loneVertex.Addressable ∧ sliver.Addressable ∧ loneVertex.content ≠
    sliver.content := by
  have hlone : loneVertex.Addressable :=
    ⟨by decide, by decide, fun _ ht => absurd ht (Array.not_mem_empty _)⟩
  have hsliver : sliver.Addressable := by
    refine ⟨by decide, by decide, ?_⟩
    show ∀ t ∈ sliver.triangles, _
    decide
  refine ⟨hlone, hsliver, fun h => ?_⟩
  exact absurd ((content_eq_iff loneVertex sliver hlone hsliver).1.mp h).2 (by decide)

/-! ## STL files -/

/-- A triangle in an STL file. -/
structure Facet where
  normal : Vec3 Float32
  a : Vec3 Float32
  b : Vec3 Float32
  c : Vec3 Float32

namespace Facet

/-- A number in single precision. -/
def readSingle : Reader Float32 := (fun n => Float32.ofBits n.toUInt32) <$> .little 4

def readVector : Reader (Vec3 Float32) := Vec3.mk <$> readSingle <*> readSingle <*> readSingle

/-- A normal, three corners, and two bytes that are not used. -/
def read : Reader Facet :=
  (fun n a b c _ => ⟨n, a, b, c⟩) <$> readVector <*> readVector <*> readVector <*>
    readVector <*> .little 2

end Facet

/-- A number, and as many triangles. -/
def readFacets : Reader (List Facet) := do Facet.read.times (← .little 4)

/-- The triangles of a binary STL file, behind a header and with nothing behind them. -/
def readStl (bytes : ByteArray) : Option (List Facet) :=
  match ((fun _ facets => facets) <$> Reader.byte.times 80 <*> readFacets).run
    bytes.data.toList with
  | some (facets, []) => some facets
  | _ => none

/-- A vector rounded to single precision. -/
def single (v : Vec3 Float) : Vec3 Float32 := v.map Float.toFloat32

/-- A triangle in a file has the normal and the corners of a triangle of the mesh, in the same
order. -/
def Shows (m : Mesh Float) (t : Triangle) (f : Facet) : Prop :=
  f.normal = single (m.faceNormal t) ∧
    t.indices.map (fun i => m.vertices[i]?.map (single ·.position)) = [f.a, f.b, f.c].map some

def singleBytes (x : Float32) : List UInt8 := littleBytes 4 x.toBits.toUInt64

/-- Single floats are read back. -/
lemma reads_single (x : Float32) : Facet.readSingle.Reads (singleBytes x) x := by
  have hbits : x.toBits.toUInt64.toNat % 256 ^ 4 = x.toBits.toNat :=
    Nat.mod_eq_of_lt (x.toBits.toNat_lt)
  have h := (reads_little 4 x.toBits.toUInt64).map fun n => Float32.ofBits n.toUInt32
  rwa [hbits, show x.toBits.toNat.toUInt32 = x.toBits from UInt32.ofNat_toNat,
    Float32.ofBits_toBits] at h

/-- So are vectors. -/
lemma reads_vector (v : Vec3 Float32) :
    Facet.readVector.Reads (v.toList.flatMap singleBytes) v := by
  have h := (((reads_single v.x).map Vec3.mk).seq (reads_single v.y)).seq (reads_single v.z)
  simpa [Vec3.toList, Facet.readVector] using h

lemma appends_vector : Appends pushSingles fun v => (single v).toList.flatMap singleBytes := by
  have hsingle : Appends pushSingle fun x => singleBytes x.toFloat32 :=
    fun out x => appends_little 4 out _
  exact fun out v => hsingle.toList_foldl out v.toList

variable {m : Mesh Float}

/-- The bytes of a triangle. -/
def Facet.bytes (f : Facet) : List UInt8 :=
  [f.normal, f.a, f.b, f.c].flatMap (·.toList.flatMap singleBytes) ++ littleBytes 2 0

/-- A triangle as it stands in a file. -/
def facet (m : Mesh Float) (t : Triangle) : Facet :=
  ⟨single (m.faceNormal t), single (m.position t.a), single (m.position t.b),
    single (m.position t.c)⟩

lemma appends_facet : Appends m.pushStlTriangle fun t => (m.facet t).bytes := by
  intro out t
  unfold pushStlTriangle
  dsimp only
  rw [appends_little, appends_vector.toList_foldl, appends_vector]
  simp [Facet.bytes, facet, Triangle.indices]

/-- And facets. -/
lemma Facet.reads (f : Facet) : Facet.read.Reads f.bytes f := by
  have h :=
    (((((reads_vector f.normal).map fun n a b c (_ : ℕ) => Facet.mk n a b c).seq
      (reads_vector f.a)).seq
    (reads_vector f.b)).seq (reads_vector f.c)).seq (reads_little 2 0)
  simpa [Facet.bytes, Facet.read] using h

lemma InRange.shows (hm : m.InRange) {t : Triangle} (ht : t ∈ m.triangles) :
    m.Shows t (m.facet t) := by
  refine ⟨rfl,
    (map_congr_left fun i hi => ?_).trans (map_map (f := (single <| m.position ·))).symm⟩
  simp [position, hm t ht i hi]

lemma toList_stl : m.stl.data.toList =
    replicate 80 0 ++ (littleBytes 4 m.triangles.size.toUInt64 ++ m.triangles.toList.flatMap
      fun t => (m.facet t).bytes) := by
  unfold stl
  rw [← Array.foldl_toList, appends_facet.toList_foldl, appends_little, append_assoc]
  simp [stlHeader]

lemma length_bytes (f : Facet) : f.bytes.length = 50 := rfl

/-- **STL files hold the mesh.** The file of a mesh with less than `2 ^ 32` triangles, whose corners
are vertices, has 84 bytes and 50 for each triangle. Read as an STL file, it holds as many
triangles, each with the normal and the corners of the triangle at the same place, in their order
and rounded to single precision. -/
theorem readStl_stl (m : Mesh Float) (hm : m.InRange) (hsize : m.triangles.size < 2 ^ 32) :
    m.stl.size = 84 + 50 * m.triangles.size ∧
      ∃ facets, readStl m.stl = some facets ∧ List.Forall₂ m.Shows m.triangles.toList facets := by
  constructor
  · rw [← ByteArray.size_data, ← Array.length_toList, toList_stl]
    simp [length_bytes, littleBytes]
    omega
  · have hcount : m.triangles.size.toUInt64.toNat % 256 ^ 4 = m.triangles.toList.length := by
      rw [show m.triangles.size.toUInt64.toNat =
        m.triangles.size from Nat.mod_eq_of_lt (hsize.trans (by decide))]
      exact Nat.mod_eq_of_lt (hsize.trans_eq (by decide))
    have hheader := Reader.reads_bytes (replicate 80 0)
    have hnumber := reads_little 4 m.triangles.size.toUInt64
    rw [length_replicate] at hheader
    rw [hcount] at hnumber
    have hfacets : readFacets.Reads _ _ :=
      hnumber.bind (Reader.reads_times fun t _ => (m.facet t).reads)
    have hfile := (hheader.map fun _ facets => facets).seq hfacets []
    rw [← toList_stl, append_nil] at hfile
    refine ⟨m.triangles.toList.map m.facet, by rw [readStl, hfile], ?_⟩
    rw [forall₂_map_right_iff, forall₂_same]
    exact fun t ht => hm.shows (Array.mem_toList_iff.mp ht)

/-- The four triangles of a tetrahedron. -/
theorem readStl_stl_tetrahedron : solidTetrahedron.InRange ∧ solidTetrahedron.stl.size = 284 ∧
    ∃ facets, readStl solidTetrahedron.stl = some facets ∧ facets.length = 4 := by
  have hrange : solidTetrahedron.InRange := by
    show ∀ t ∈ solidTetrahedron.triangles, _
    decide
  obtain ⟨hsize, facets, hfacets, hshows⟩ := readStl_stl solidTetrahedron hrange (by decide)
  exact ⟨hrange, hsize, facets, hfacets, hshows.length_eq.symm⟩

end Mesh

end SolidScript
