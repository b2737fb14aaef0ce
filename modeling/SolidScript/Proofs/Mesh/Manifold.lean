import Mathlib.Algebra.Order.BigOperators.Group.List
import Mathlib.Algebra.Order.Group.Nat
import SolidScript.Proofs.Mesh.Edges

/-!
# Edges that two triangles share

A mesh of triangles with three different corners is closed just when each edge belongs to two
triangles, which run along it in opposite directions. A triangle that repeats a corner runs along
the same edge forth and back, so that it can be closed all by itself.
-/

namespace SolidScript

open List

namespace Triangle

/-- The triangle has an edge, in one direction or the other. -/
def HasEdge (t : Triangle) (e : Nat × Nat) : Prop := e ∈ t.edges ∨ e.swap ∈ t.edges

instance (t : Triangle) (e : Nat × Nat) : Decidable (t.HasEdge e) :=
  inferInstanceAs (Decidable (_ ∨ _))

variable {t : Triangle} {e : Nat × Nat}

/-- A triangle with three different corners runs along no edge twice. -/
lemma edges_nodup (ht : t.indices.Nodup) : t.edges.Nodup := by
  simp only [indices, nodup_cons, mem_cons, not_mem_nil, or_false, not_or] at ht
  simp [edges, ht.1, ht.2.1]

/-- A triangle with three different corners runs along an edge in one direction only. -/
lemma swap_not_mem_edges (ht : t.indices.Nodup) (he : e ∈ t.edges) : e.swap ∉ t.edges := by
  simp only [indices, nodup_cons, mem_cons, not_mem_nil, or_false, not_or] at ht
  simp only [edges, mem_cons, not_mem_nil, or_false] at he ⊢
  rcases he with rfl | rfl | rfl <;> simp <;> omega

end Triangle

namespace Mesh

variable {S : Type} (m : Mesh S)

/-- Exactly two triangles of the mesh have an edge, and they run along it in opposite directions. -/
def Shares (e : Nat × Nat) : Prop :=
  ∃ i j : Fin m.triangles.size, i ≠ j ∧ e ∈ m.triangles[i].edges ∧ e.swap ∈ m.triangles[j].edges ∧
    ∀ k : Fin m.triangles.size, m.triangles[k].HasEdge e → k = i ∨ k = j

variable {m} {e : Nat × Nat}

lemma mem_edges : e ∈ m.edges ↔ ∃ i : Fin m.triangles.size, e ∈ m.triangles[i].edges := by
  unfold edges
  rw [mem_flatMap]
  constructor
  · rintro ⟨t, ht, he⟩
    obtain ⟨i, hi, rfl⟩ := Array.mem_iff_getElem.mp (Array.mem_toList_iff.mp ht)
    exact ⟨⟨i, hi⟩, he⟩
  · rintro ⟨i, he⟩
    exact ⟨_, Array.getElem_mem_toList i.isLt, he⟩

/-- The edges of a mesh differ if those of each triangle do and no two triangles have one in
common. -/
lemma edges_nodup_iff : m.edges.Nodup ↔
    (∀ t ∈ m.triangles, t.edges.Nodup) ∧
      ∀ i j : Fin m.triangles.size, ∀ e, e ∈ m.triangles[i].edges → e ∈ m.triangles[j].edges →
      i = j := by
  unfold edges
  rw [nodup_flatMap, pairwise_iff_getElem]
  constructor
  · rintro ⟨heach, hdisjoint⟩
    refine ⟨fun t ht => heach t (Array.mem_toList_iff.mpr ht), ?_⟩
    intro i j e hi hj
    rcases Nat.lt_trichotomy i j with hlt | heq | hgt
    · exact (hdisjoint i j i.isLt j.isLt hlt hi hj).elim
    · exact Fin.ext heq
    · exact (hdisjoint j i j.isLt i.isLt hgt hj hi).elim
  · rintro ⟨heach, hone⟩
    refine ⟨fun t ht => heach t (Array.mem_toList_iff.mp ht), ?_⟩
    intro i j hi hj hlt e hei hej
    exact Nat.ne_of_lt hlt (congrArg Fin.val (hone ⟨i, hi⟩ ⟨j, hj⟩ e hei hej))

/-- Proper triangles run along an edge at most as often as there are triangles. -/
lemma count_edges_le (hproper : ∀ t ∈ m.triangles, t.indices.Nodup) (e : Nat × Nat) :
    m.edges.count e ≤ m.triangles.size := by
  unfold edges
  rw [count_flatMap]
  have hone : ∀ k ∈ m.triangles.toList.map (count e ∘ Triangle.edges), k ≤ 1 := by
    refine forall_mem_map.mpr fun t ht => ?_
    exact nodup_iff_count_le_one.mp
      (Triangle.edges_nodup (hproper t (Array.mem_toList_iff.mp ht))) e
  simpa using sum_le_card_nsmul _ 1 hone

/-- In a closed mesh with counts that fit, no directed edge is repeated, and all are paired. -/
lemma nodup_of_isClosed (hfit : ∀ e, m.edges.count e < 2 ^ 32) (h : m.isClosed = true) :
    m.edges.Nodup ∧ ∀ e ∈ m.edges, e.swap ∈ m.edges := by
  have hcount (e : Nat × Nat) (he : e ∈ m.edges) : m.edges.count e = 1 ∧
      m.edges.count e.swap = 1 := by
    obtain ⟨hone, hswap⟩ := ((isClosed_iff m).mp h).2 e he
    rw [Nat.mod_eq_of_lt (hfit _)] at hone hswap
    exact ⟨hone, hswap⟩
  refine ⟨nodup_iff_count_eq_one.mpr fun e he => (hcount e he).1, fun e he => ?_⟩
  exact count_pos_iff.mp (by rw [(hcount e he).2]; exact Nat.one_pos)

/-- In a closed mesh every edge of a proper triangle is shared. -/
lemma shares_of_isClosed (hproper : ∀ t ∈ m.triangles, t.indices.Nodup)
    (hsize : m.triangles.size < 2 ^ 32) (hclosed : m.isClosed = true) (he : e ∈ m.edges) :
    m.Shares e := by
  obtain ⟨hnodup, hswap⟩ :=
    nodup_of_isClosed (fun e => (count_edges_le hproper e).trans_lt hsize) hclosed
  have hone := (edges_nodup_iff.mp hnodup).2
  obtain ⟨i, hi⟩ := mem_edges.mp he
  obtain ⟨j, hj⟩ := mem_edges.mp (hswap e he)
  refine ⟨i, j, ?_, hi, hj, ?_⟩
  · rintro rfl
    exact Triangle.swap_not_mem_edges (hproper _ (Array.getElem_mem i.isLt)) hi hj
  · rintro k (hk | hk)
    · exact .inl (hone k i e hk hi)
    · exact .inr (hone k j e.swap hk hj)

/-- Of the proper triangles that share an edge, only one runs along it in its direction. -/
lemma Shares.eq_of_mem (h : m.Shares e) (hproper : ∀ t ∈ m.triangles, t.indices.Nodup)
    {i j : Fin m.triangles.size} (hi : e ∈ m.triangles[i].edges) (hj : e ∈ m.triangles[j].edges) :
    i = j := by
  obtain ⟨i', j', -, -, hswap, hall⟩ := h
  -- the other triangle runs in the opposite direction
  have hfirst {k : Fin m.triangles.size} (hk : e ∈ m.triangles[k].edges) : k = i' := by
    refine (hall k (.inl hk)).resolve_right ?_
    rintro rfl
    exact Triangle.swap_not_mem_edges (hproper _ (Array.getElem_mem k.isLt)) hk hswap
  rw [hfirst hi, hfirst hj]

end Mesh

/-- **The manifold check.** A mesh whose triangles have three different corners each is closed if
and only if it has triangles and every edge of every triangle is shared by exactly two triangles of
the mesh, which run along it in opposite directions. The counters of the check have 32 bits, so this
is about meshes of fewer than `2 ^ 32` triangles. -/
theorem Mesh.isClosed_iff_shares {S : Type} (m : Mesh S)
    (hproper : ∀ t ∈ m.triangles, t.indices.Nodup) (hsize : m.triangles.size < 2 ^ 32) :
    m.isClosed = true ↔ m.triangles.size ≠ 0 ∧ ∀ t ∈ m.triangles, ∀ e ∈ t.edges, m.Shares e := by
  have hempty : m.isEmpty = false ↔ m.triangles.size ≠ 0 := by
    rw [isEmpty, Array.isEmpty, decide_eq_false_iff_not]
  constructor
  · intro hclosed
    refine ⟨hempty.mp ((isClosed_iff m).mp hclosed).1, ?_⟩
    intro t ht e he
    exact shares_of_isClosed hproper hsize hclosed
      (mem_flatMap.mpr ⟨t, Array.mem_toList_iff.mpr ht, he⟩)
  · rintro ⟨hne, hshares⟩
    have hall (i : Fin m.triangles.size) {e : Nat × Nat} (he : e ∈ m.triangles[i].edges) :
        m.Shares e :=
      hshares _ (Array.getElem_mem i.isLt) e he
    refine isClosed_of_count m (hempty.mpr hne)
      (count_eq_one_of_nodup (edges_nodup_iff.mpr ⟨?_, ?_⟩) ?_)
    · intro t ht
      exact Triangle.edges_nodup (hproper t ht)
    · intro i j e hi hj
      exact (hall i hi).eq_of_mem hproper hi hj
    · intro e he
      obtain ⟨i, hi⟩ := mem_edges.mp he
      obtain ⟨_, j, _, _, hj, _⟩ := hall i hi
      exact mem_edges.mpr ⟨j, hj⟩

/-- The surface of a tetrahedron. -/
def tetrahedronMesh : Mesh Float := { triangles := #[⟨0, 2, 1⟩, ⟨0, 1, 3⟩, ⟨0, 3, 2⟩, ⟨1, 2, 3⟩] }

/-- The surface of a tetrahedron is closed, and so each of its edges is shared. -/
theorem Mesh.isClosed_iff_shares_tetrahedron :
    (∀ t ∈ tetrahedronMesh.triangles, t.indices.Nodup) ∧ tetrahedronMesh.triangles.size < 2 ^ 32 ∧
      tetrahedronMesh.isClosed = true ∧ ∀ t ∈ tetrahedronMesh.triangles, ∀ e ∈ t.edges,
      tetrahedronMesh.Shares e := by
  have hproper : ∀ t ∈ tetrahedronMesh.triangles, t.indices.Nodup := by decide
  have hclosed : tetrahedronMesh.isClosed = true := by
    rw [Mesh.isClosed_iff]
    decide
  have hsize : tetrahedronMesh.triangles.size < 2 ^ 32 := by decide
  exact ⟨hproper, hsize, hclosed, ((Mesh.isClosed_iff_shares _ hproper hsize).mp hclosed).2⟩

/-- One triangle with a repeated corner. -/
def sliver : Mesh Float := { triangles := #[⟨0, 0, 1⟩] }

/-- A triangle with a repeated corner is a closed mesh, although none of its edges is shared with
another triangle. -/
theorem Mesh.sliver_isClosed :
    sliver.isClosed = true ∧ (∀ t ∈ sliver.triangles, ∀ e ∈ t.edges, ¬ sliver.Shares e) ∧
      ¬ (sliver.isClosed = true ↔
        sliver.triangles.size ≠ 0 ∧ ∀ t ∈ sliver.triangles, ∀ e ∈ t.edges, sliver.Shares e) := by
  have hclosed : sliver.isClosed = true := by
    rw [Mesh.isClosed_iff]
    decide
  -- there is only one triangle, and an edge is shared by two
  have hnone (e : Nat × Nat) : ¬ sliver.Shares e := by
    rintro ⟨i, j, hij, -⟩
    exact hij (Subsingleton.elim (α := Fin 1) i j)
  refine ⟨hclosed, fun t _ e _ => hnone e, ?_⟩
  intro h
  exact hnone (0, 0) ((h.mp hclosed).2 ⟨0, 0, 1⟩ (by simp [sliver]) (0, 0) (by decide))

end SolidScript
