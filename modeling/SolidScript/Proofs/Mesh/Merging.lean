import SolidScript.Proofs.Mesh.Manifold
import SolidScript.Proofs.Rounding.Order

/-!
# Merged meshes

Two meshes as one keep their surfaces: the vertices of the second mesh come behind those of the
first, and its triangles are moved along. No edge of the one is an edge of the other, so the whole
is closed just when both parts are.
-/

namespace SolidScript

open List Scalar

/-! ## Edges -/

namespace Mesh

variable {S : Type} {m n : Mesh S}

/-- Every corner of a triangle is a vertex of the mesh. -/
def InRange (m : Mesh S) : Prop := ∀ t ∈ m.triangles, ∀ i ∈ t.indices, i < m.vertices.size

lemma mem_triangles_merge {t : Triangle} :
    t ∈ (m.merge n).triangles ↔
      t ∈ m.triangles ∨ ∃ u ∈ n.triangles, u.shift m.vertices.size = t := by
  simp [merge]

/-- Corners stay in range. -/
lemma InRange.merge (hm : m.InRange) (hn : n.InRange) : (m.merge n).InRange := by
  intro t ht i hi
  have hsize : (m.merge n).vertices.size = m.vertices.size + n.vertices.size := Array.size_append
  rw [hsize]
  rcases mem_triangles_merge.mp ht with ht | ⟨u, hu, rfl⟩
  · exact (hm t ht i hi).trans_le (Nat.le_add_right _ _)
  · obtain ⟨j, hj, rfl⟩ : ∃ j ∈ u.indices, j + m.vertices.size = i := by
      simpa [Triangle.shift, Triangle.indices, eq_comm] using hi
    have := hn u hu j hj
    omega

/-- An edge between vertices that come `k` places later. -/
def shiftEdge (k : ℕ) (e : ℕ × ℕ) : ℕ × ℕ := (e.1 + k, e.2 + k)

lemma shiftEdge_injective (k : ℕ) : Function.Injective (shiftEdge k) := by
  rintro ⟨a, b⟩ ⟨c, d⟩ h
  simpa [shiftEdge] using h

/-- The edges of both meshes. -/
lemma edges_merge : (m.merge n).edges = m.edges ++ n.edges.map (shiftEdge m.vertices.size) := by
  have hshift (t : Triangle) : (t.shift m.vertices.size).edges =
      t.edges.map (shiftEdge m.vertices.size) := rfl
  simp [edges, merge, flatMap_map, map_flatMap, hshift]

/-- Edges are between vertices. -/
lemma InRange.lt_of_mem_edges (hm : m.InRange) {e : ℕ × ℕ} (he : e ∈ m.edges) :
    e.1 < m.vertices.size ∧ e.2 < m.vertices.size := by
  obtain ⟨t, ht, he⟩ := mem_flatMap.mp he
  have hlt := hm t (Array.mem_toList_iff.mp ht)
  simp only [Triangle.indices, Triangle.edges, mem_cons, not_mem_nil, or_false, forall_eq_or_imp,
    forall_eq] at hlt he
  rcases he with rfl | rfl | rfl <;> exact ⟨by omega, by omega⟩

/-- Only the closedness of a mesh without triangles is more than the pairing of its edges. -/
lemma paired_edges_iff : Paired m.edges ↔ (m.isEmpty = false → m.isClosed = true) := by
  rw [isClosed_iff]
  constructor
  · intro h hne
    exact ⟨hne, h⟩
  · intro h
    cases hne : m.isEmpty with
    | false => exact (h hne).2
    | true =>
      have hnil : m.edges = [] := by
        rw [edges, Array.isEmpty_iff.mp hne]
        rfl
      rw [hnil]
      exact forall_mem_nil _

/-- Shifted edges are paired like before. -/
lemma paired_map_shiftEdge (k : ℕ) (es : List (ℕ × ℕ)) :
    Paired (es.map (shiftEdge k)) ↔ Paired es := by
  unfold Paired
  rw [forall_mem_map]
  refine forall₂_congr fun e _ => ?_
  have hcount (e : ℕ × ℕ) := count_map_of_injective es _ (shiftEdge_injective k) e
  rw [hcount e]
  exact and_congr_right fun _ => by rw [← hcount e.swap]; rfl

/-- Edges between vertices before a place and behind it are paired apart from each other. -/
lemma paired_append {es fs : List (ℕ × ℕ)} {k : ℕ} (hes : ∀ e ∈ es, e.1 < k ∧ e.2 < k)
    (hfs : ∀ e ∈ fs, k ≤ e.1 ∧ k ≤ e.2) : Paired (es ++ fs) ↔ Paired es ∧ Paired fs := by
  have hleft {e : ℕ × ℕ} (he : e.1 < k) : fs.count e = 0 :=
    count_eq_zero.mpr fun hf => he.not_ge (hfs e hf).1
  have hright {e : ℕ × ℕ} (he : k ≤ e.1) : es.count e = 0 :=
    count_eq_zero.mpr fun hf => he.not_gt (hes e hf).1
  unfold Paired
  rw [forall_mem_append]
  refine and_congr (forall₂_congr fun e he => ?_) (forall₂_congr fun e he => ?_)
  · obtain ⟨h₁, h₂⟩ := hes e he
    rw [count_append, count_append, hleft h₁, hleft (e := e.swap) h₂, Nat.add_zero, Nat.add_zero]
  · obtain ⟨h₁, h₂⟩ := hfs e he
    rw [count_append, count_append, hright h₁, hright (e := e.swap) h₂, Nat.zero_add, Nat.zero_add]

/-- Merged meshes are closed if both are, as far as they have triangles at all. -/
lemma InRange.isClosed_merge (hm : m.InRange) :
    (m.merge n).isClosed = true ↔
      (m.isEmpty = false ∨ n.isEmpty = false) ∧ (m.isEmpty = false → m.isClosed = true) ∧
        (n.isEmpty = false → n.isClosed = true) := by
  have hempty : (m.merge n).isEmpty = false ↔ m.isEmpty = false ∨ n.isEmpty = false := by
    simp [isEmpty, Mesh.merge, ← Bool.not_eq_true, imp_iff_not_or]
  have hshifted : ∀ e ∈ n.edges.map (shiftEdge m.vertices.size), m.vertices.size ≤ e.1 ∧
      m.vertices.size ≤ e.2 :=
    forall_mem_map.mpr fun _ _ => ⟨Nat.le_add_left _ _, Nat.le_add_left _ _⟩
  rw [isClosed_iff, hempty, ← paired_edges_iff, ← paired_edges_iff,
    ← paired_map_shiftEdge m.vertices.size n.edges,
    ← paired_append (fun _ he => hm.lt_of_mem_edges he) hshifted, ← edges_merge]

/-! ## Positions -/

variable {T : Type}

/-- The same mesh with other numbers. -/
def map (f : S → T) (m : Mesh S) : Mesh T :=
  { m with vertices := m.vertices.map fun v => ⟨v.position.map f, v.normal.map f⟩ }

lemma map_merge (f : S → T) : (m.merge n).map f = (m.map f).merge (n.map f) := by
  simp [map, merge]

variable [Scalar S]

/-- Where the corners of each triangle are. -/
def corners (m : Mesh S) : List (List (Vec3 S)) := m.triangles.toList.map fun t =>
    t.indices.map m.position

lemma position_merge_left {i : ℕ} (h : i < m.vertices.size) :
    (m.merge n).position i = m.position i := by
  simp [position, merge, Array.getElem?_append_left h]

/-- Vertices of the second mesh are behind those of the first. -/
lemma position_merge_right (i : ℕ) : (m.merge n).position (i + m.vertices.size) = n.position i := by
  simp [position, merge, Array.getElem?_append_right]

lemma InRange.corners_merge (hm : m.InRange) : (m.merge n).corners = m.corners ++ n.corners := by
  have hleft : ∀ t ∈ m.triangles.toList, t.indices.map (m.merge n).position =
      t.indices.map m.position := fun t ht =>
    map_congr_left fun i hi => position_merge_left (hm t (Array.mem_toList_iff.mp ht) i hi)
  have hright (t : Triangle) :
      (t.shift m.vertices.size).indices.map (m.merge n).position = t.indices.map n.position := by
    simp [Triangle.indices, Triangle.shift, position_merge_right]
  have htriangles : (m.merge n).triangles.toList =
      m.triangles.toList ++ n.triangles.toList.map (·.shift m.vertices.size) := by
    simp [Mesh.merge]
  unfold corners
  rw [htriangles, map_append, map_congr_left hleft, map_map]
  simp only [Function.comp_def, hright]

/-- The volumes of all cones depend on where the corners are. -/
def coneOver : List (Vec3 S) → S
  | [a, b, c] => a.dot (b.cross c) / 6.0
  | _ => 0

/-- The volume is a sum over the corners. -/
lemma volume_eq (m : Mesh S) : m.volume = (m.corners.map coneOver).foldl (· + ·) 0 := by
  unfold volume corners
  rw [← Array.foldl_toList, map_map, foldl_map]
  rfl

end Mesh

/-! ## Volumes and boxes -/

namespace Exact

protected lemma add_zero (a : Exact) : a + 0 = a := by
  cases a with
  | real x => exact congrArg real (add_zero x)
  | _ => rfl

protected lemma add_assoc (a b c : Exact) : a + b + c = a + (b + c) := by
  cases a with
  | real x =>
    cases b with
    | real y =>
      cases c with
      | real z => exact congrArg real (add_assoc x y z)
      | _ => rfl
    | _ => cases c <;> rfl
  | _ => cases b <;> cases c <;> rfl

instance : Std.Associative (α := Exact) (· + ·) := ⟨Exact.add_assoc⟩

end Exact

namespace Mesh

/-- What is enclosed by a surface, without rounding. -/
noncomputable def exactVolume (m : Mesh Float) : Exact := (m.map Exact.ofFloat).volume

variable {m n : Mesh Float}

lemma InRange.exactVolume_merge (hm : m.InRange) :
    (m.merge n).exactVolume = m.exactVolume + n.exactVolume := by
  have hmap : (m.map Exact.ofFloat).InRange := by
    intro t ht i hi
    exact (hm t ht i hi).trans_eq Array.size_map.symm
  unfold exactVolume
  rw [map_merge, volume_eq, hmap.corners_merge, map_append, foldl_append, ← volume_eq,
    ← Exact.add_zero (volume _), foldl_assoc, ← volume_eq, Exact.add_zero]

end Mesh

/-! ## Boxes -/

open Exact (ofFloat)

/-- Of two choices by an order, each of which takes the first of equal ones, it does not matter
which is made first. -/
lemma choose_assoc {α L : Type} [LinearOrder L] {p : α → Prop} {k : α → L} (r s : α → α → Prop)
    [DecidableRel r] [DecidableRel s] (hr : ∀ x y, r x y ↔ p x ∧ p y ∧ k x < k y)
    (hs : ∀ x y, s x y ↔ p x ∧ p y ∧ k x ≤ k y) {a b : α} (ha : p a) (hb : p b) (c : α) :
    (if r c (if s a b then a else b) then c else if s a b then a else b) =
      if s a (if r c b then c else b) then a else if r c b then c else b := by
  by_cases hab : s a b <;> by_cases hcb : r c b <;> simp only [hab, hcb, if_true, if_false] <;>
    simp only [hr, hs, ha, hb, true_and] at hab hcb ⊢ <;> grind

namespace Scalar

variable {a b : Float} (ha : ofFloat a ≠ .nan) (hb : ofFloat b ≠ .nan) (c : Float)

include ha

lemma isNaN_eq_false : isNaN a = false := by
  unfold isNaN
  rw [Bool.not_eq_false', Exact.beq_ofFloat]
  exact ⟨rfl, ha⟩

lemma min_eq : min a c = if c < a then c else a := by
  rw [min, isNaN_eq_false ha, if_neg Bool.false_ne_true]

lemma max_eq : max a c = if a < c then c else a := by
  rw [max, isNaN_eq_false ha, if_neg Bool.false_ne_true]

lemma min_ne_nan : ofFloat (min a c) ≠ .nan := by
  rw [min_eq ha]
  split_ifs with h
  · exact (Exact.lt_iff_toEReal.mp (Exact.ofFloat_lt.mpr h)).1
  · exact ha

lemma max_ne_nan : ofFloat (max a c) ≠ .nan := by
  rw [max_eq ha]
  split_ifs with h
  · exact (Exact.lt_iff_toEReal.mp (Exact.ofFloat_lt.mpr h)).2.1
  · exact ha

include hb

/-- The lower one of three numbers. -/
lemma min_lower : min (lower a b) c = lower a (min b c) := by
  have hlower : ofFloat (lower a b) ≠ .nan := by
    unfold lower
    split_ifs <;> assumption
  rw [min_eq hlower, min_eq hb]
  exact choose_assoc (· < ·) (· ≤ ·) (fun _ _ => Exact.ofFloat_lt.symm.trans Exact.lt_iff_toEReal)
    (fun _ _ => Exact.ofFloat_le.symm.trans Exact.le_iff_toEReal) ha hb c

lemma max_upper : max (upper a b) c = upper a (max b c) := by
  have hupper : ofFloat (upper a b) ≠ .nan := by
    unfold upper
    split_ifs <;> assumption
  rw [max_eq hupper, max_eq hb]
  exact choose_assoc (k := fun x => OrderDual.toDual (ofFloat x).toEReal) (· > ·) (· ≥ ·)
    (fun _ _ => (Exact.ofFloat_lt.symm.trans Exact.lt_iff_toEReal).trans and_left_comm)
    (fun _ _ => (Exact.ofFloat_le.symm.trans Exact.le_iff_toEReal).trans and_left_comm) ha hb c

end Scalar

namespace Bounds

/-- All sides of a box are numbers. -/
def Numeric (b : Bounds Float) : Prop := ∀ x ∈ b.min.toList ++ b.max.toList, ofFloat x ≠ .nan

lemma numeric_iff {b : Bounds Float} : b.Numeric ↔
    (ofFloat b.min.x ≠ .nan ∧ ofFloat b.min.y ≠ .nan ∧ ofFloat b.min.z ≠ .nan) ∧
      ofFloat b.max.x ≠ .nan ∧ ofFloat b.max.y ≠ .nan ∧ ofFloat b.max.z ≠ .nan := by
  simp [Numeric, Vec3.toList, and_assoc]

variable {a b : Bounds Float} (ha : a.Numeric) (hb : b.Numeric)

include hb

/-- A box with one more point has numbers as corners. -/
lemma Numeric.insert (p : Vec3 Float) : (b.insert p).Numeric := by
  rw [numeric_iff] at hb ⊢
  obtain ⟨⟨h₁, h₂, h₃⟩, h₄, h₅, h₆⟩ := hb
  open Scalar in
  exact ⟨⟨min_ne_nan h₁ _, min_ne_nan h₂ _, min_ne_nan h₃ _⟩, max_ne_nan h₄ _, max_ne_nan h₅ _,
    max_ne_nan h₆ _⟩

include ha

lemma insert_union (p : Vec3 Float) : (a.union b).insert p = a.union (b.insert p) := by
  rw [numeric_iff] at ha hb
  simp only [Bounds.insert, union, Vec3.lower, Vec3.upper, min_lower, max_upper, ha,
    hb, ne_eq, not_false_eq_true]

variable (ps : List (Vec3 Float))

lemma foldl_insert_union : ps.foldl insert (a.union b) = a.union (ps.foldl insert b) := by
  induction ps generalizing b with
  | nil => rfl
  | cons p ps ih => rw [foldl_cons, foldl_cons, insert_union ha hb, ih (hb.insert p)]

omit hb

lemma union_empty : a.union .empty = a := by
  have hhigh {x : Float} (hx : ofFloat x ≠ .nan) : lower x infinity = x :=
    if_pos (Exact.ofFloat_le.mp (Exact.le_posInf hx))
  have hlow {x : Float} (hx : ofFloat x ≠ .nan) : upper x (-infinity) = x :=
    if_pos (Exact.ofFloat_le.mp
      (show ofFloat (-infinity) ≤ ofFloat x from Exact.negInf_le hx))
  rw [numeric_iff] at ha
  simp only [union, Bounds.empty, Vec3.lower, Vec3.upper, Vec3.splat, hhigh, hlow, ha, ne_eq,
    not_false_eq_true]

omit ha

lemma numeric_empty : (empty : Bounds Float).Numeric := by
  have hhigh : ofFloat infinity ≠ .nan := fun h => nomatch (show Exact.posInf = .nan from h)
  have hlow : ofFloat (-infinity) ≠ .nan :=
    fun h => nomatch (show Exact.negInf = .nan from h)
  exact numeric_iff.mpr ⟨⟨hhigh, hhigh, hhigh⟩, hlow, hlow, hlow⟩

lemma numeric_ofPoints : (ofPoints ps).Numeric := by
  unfold ofPoints
  suffices h : ∀ b : Bounds Float, b.Numeric → (ps.foldl insert b).Numeric from h _ numeric_empty
  induction ps with
  | nil => exact fun _ => id
  | cons p ps ih => exact fun b hb => ih _ (hb.insert p)

/-- The box of more points. -/
lemma ofPoints_append (qs : List (Vec3 Float)) :
    ofPoints (ps ++ qs) = (ofPoints ps).union (ofPoints qs) := by
  have hp := numeric_ofPoints ps
  rw [ofPoints, foldl_append, ← ofPoints, ← union_empty hp, foldl_insert_union hp numeric_empty,
    union_empty hp]
  rfl

end Bounds

namespace Mesh

lemma bounds_merge (m n : Mesh Float) : (m.merge n).bounds = m.bounds.union n.bounds := by
  have hbounds (m : Mesh Float) : m.bounds = .ofPoints (m.vertices.toList.map (·.position)) := by
    rw [bounds, Bounds.ofPoints, foldl_map, Array.foldl_toList]
  rw [hbounds, hbounds m, hbounds n, ← Bounds.ofPoints_append, ← map_append, ← Array.toList_append]
  rfl

end Mesh

/-- **Merging keeps surfaces.** If the corners of the triangles of two meshes are vertices of
theirs, then so are those of the merged mesh. Its triangles are the ones of the first mesh and then
the ones of the second, with their corners where they were; it is closed if and only if each of the
two that has triangles is closed, and one has; it encloses what the two enclose, computed without
rounding; and its box is the union of their boxes. -/
theorem Mesh.merge_keeps_surfaces (m n : Mesh Float) (hm : m.InRange) (hn : n.InRange) :
    (m.merge n).InRange ∧ (m.merge n).corners = m.corners ++ n.corners ∧
      ((m.merge n).isClosed = true ↔
        (m.isEmpty = false ∨ n.isEmpty = false) ∧ (m.isEmpty = false → m.isClosed = true) ∧
          (n.isEmpty = false → n.isClosed = true)) ∧
      (m.merge n).exactVolume = m.exactVolume + n.exactVolume ∧ (m.merge n).bounds =
      m.bounds.union n.bounds :=
  ⟨hm.merge hn, hm.corners_merge, hm.isClosed_merge, hm.exactVolume_merge, bounds_merge m n⟩

/-- The surface of a tetrahedron, with its corners. -/
def solidTetrahedron : Mesh Float :=
  { tetrahedronMesh with
    vertices := #[⟨⟨0, 0, 0⟩, .splat 0⟩, ⟨⟨1, 0, 0⟩, .splat 0⟩, ⟨⟨0, 1, 0⟩, .splat 0⟩,
      ⟨⟨0, 0, 1⟩, .splat 0⟩] }

/-- A vertex without triangles. -/
def loneVertex : Mesh Float := { vertices := #[⟨.splat 0, .splat 0⟩] }

/-- A tetrahedron stays closed behind a vertex that no triangle uses. -/
theorem Mesh.merge_keeps_surfaces_tetrahedron :
    (loneVertex.InRange ∧ solidTetrahedron.InRange) ∧
      (loneVertex.merge solidTetrahedron).isClosed = true ∧
      (loneVertex.merge solidTetrahedron).exactVolume =
      loneVertex.exactVolume + solidTetrahedron.exactVolume := by
  have hlone : loneVertex.InRange := fun _ ht => absurd ht (Array.not_mem_empty _)
  have hsolid : solidTetrahedron.InRange := by
    show ∀ t ∈ solidTetrahedron.triangles, _
    decide
  have hclosed : solidTetrahedron.isClosed = true := by
    rw [Mesh.isClosed_iff]
    decide
  obtain ⟨-, -, hiff, hvolume, -⟩ :=
    Mesh.merge_keeps_surfaces loneVertex solidTetrahedron hlone hsolid
  exact ⟨⟨hlone, hsolid⟩, hiff.mpr ⟨.inr rfl, nofun, fun _ => hclosed⟩, hvolume⟩

end SolidScript
