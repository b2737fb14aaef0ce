import SolidScript.Proofs.Mesh.Closed

/-!
# One vertex for each crossed edge

The subdivision of a grid has an edge between any two corners of one of its tetrahedra. The mesh of
a surface has one vertex for each of these edges whose ends are on different sides, and no other
vertices.
-/

namespace SolidScript

open CrossedTriangle List

/-! ## What is crossed in one tetrahedron -/

namespace Route

/-- An edge of a tetrahedron is crossed if its ends are on different sides. -/
lemma mem_crossings_cut : ∀ (r : Route) (inside : Fin 4 → Bool) (e : PlaceEdge),
    e ∈ (r.cut inside).crossings ↔ e.1 < e.2 ∧ inside e.1 ≠ inside e.2 := by
  decide +kernel

/-- Every crossed edge is a corner of a triangle. -/
lemma exists_triangle_of_mem_crossings : ∀ (r : Route) (inside : Fin 4 → Bool),
    ∀ e ∈ (r.cut inside).crossings, ∃ t ∈ (r.cut inside).triangles, e ∈ corners t := by
  decide +kernel

lemma corners_cut_nodup : ∀ (r : Route) (inside : Fin 4 → Bool), ∀ t ∈ (r.cut inside).triangles,
    (corners t).Nodup := by
  decide +kernel

end Route

lemma CrossedTriangle.corners_map {ε ζ : Type} (g : ε → ζ) (t : CrossedTriangle ε) :
    (t.map g).corners = t.corners.map g := rfl

lemma CrossedTriangle.indices_numbered (number : GridEdge → Nat) (t : CrossedTriangle GridEdge) :
    (t.numbered number).indices = t.corners.map number := rfl

namespace GridSize

variable {n : GridSize} {inside : Nat → Bool} {t : Steps × Route} {e : GridEdge}

/-- An edge of the subdivision by the numbers of its ends: two corners of a tetrahedron in one of
the cells. -/
def IsEdge (n : GridSize) (e : GridEdge) : Prop :=
  ∃ base ∈ n.cells, ∃ corners ∈ n.tetrahedra,
    e.1 ∈ corners.map (base + ·) ∧ e.2 ∈ corners.map (base + ·) ∧ e.1 < e.2

/-- The edges of the subdivision by the places of their ends on a route through a cell. -/
lemma isEdge_iff : n.IsEdge e ↔
    ∃ t : Steps × Route, n.IsCell t.1 ∧ ∃ i j, i < j ∧
      e = (n.corner t.1 t.2 i, n.corner t.1 t.2 j) := by
  unfold IsEdge
  rw [cells_eq, tetrahedra_eq]
  constructor
  · rintro ⟨base, hbase, corners, hcorners, h₁, h₂, hlt⟩
    obtain ⟨c, hc, rfl⟩ := mem_map.mp hbase
    obtain ⟨r, -, rfl⟩ := mem_map.mp hcorners
    rw [mem_cellSteps] at hc
    rw [map_corners] at h₁ h₂
    obtain ⟨i, -, hi⟩ := mem_map.mp h₁
    obtain ⟨j, -, hj⟩ := mem_map.mp h₂
    -- corners of a route are numbered in the order in which it meets them
    have hij : i < j := by
      apply (corner_strictMono hc r).lt_iff_lt.mp
      rw [hi, hj]
      exact hlt
    exact ⟨(c, r), hc, i, j, hij, Prod.ext hi.symm hj.symm⟩
  · rintro ⟨⟨c, r⟩, hc, i, j, hij, rfl⟩
    have hall : r ∈ Route.all := by cases r <;> decide
    have hplace : ∀ k : Fin 4, k ∈ [0, 1, 2, 3] := by decide
    refine ⟨n.number c, mem_map_of_mem (mem_cellSteps.mpr hc), _, mem_map_of_mem hall, ?_⟩
    rw [map_corners]
    exact ⟨mem_map_of_mem (hplace i), mem_map_of_mem (hplace j), corner_strictMono hc r hij⟩

/-- An edge with ends on different sides of the surface. -/
def IsCrossed (inside : Nat → Bool) (e : GridEdge) : Prop := inside e.1 ≠ inside e.2

lemma mem_crossings_pieceIn (ht : n.IsCell t.1) : e ∈ (n.pieceIn inside t).crossings ↔
    (∃ i j, i < j ∧ e = (n.corner t.1 t.2 i, n.corner t.1 t.2 j)) ∧ IsCrossed inside e := by
  rw [pieceIn, cut_corner ht]
  show e ∈ (Piece.crossings _).map _ ↔ _
  simp only [mem_map, Route.mem_crossings_cut]
  constructor
  · rintro ⟨⟨i, j⟩, ⟨hlt, hne⟩, rfl⟩
    exact ⟨⟨i, j, hlt, rfl⟩, hne⟩
  · rintro ⟨⟨i, j, hlt, rfl⟩, hne⟩
    exact ⟨(i, j), ⟨hlt, hne⟩, rfl⟩

/-- Every edge that is crossed in a piece is a corner of one of its triangles. -/
lemma exists_triangle_of_mem_crossings {p : Piece GridEdge} (hp : p ∈ n.sections inside)
    (he : e ∈ p.crossings) : ∃ u ∈ p.triangles, e ∈ corners u := by
  rw [sections_eq] at hp
  obtain ⟨t, ht, rfl⟩ := mem_map.mp hp
  rw [pieceIn, cut_corner (mem_tetrahedronList.mp ht)] at he ⊢
  obtain ⟨f, hf, rfl⟩ := mem_map.mp he
  obtain ⟨u, hu, hfu⟩ := Route.exists_triangle_of_mem_crossings _ _ f hf
  exact ⟨_, mem_map_of_mem hu, mem_map_of_mem hfu⟩

/-- The corners of every triangle differ. -/
lemma corners_nodup {p : Piece GridEdge} (hp : p ∈ n.sections inside) {u : CrossedTriangle GridEdge}
    (hu : u ∈ p.triangles) : u.corners.Nodup := by
  rw [sections_eq] at hp
  obtain ⟨t, ht, rfl⟩ := mem_map.mp hp
  have hcell := mem_tetrahedronList.mp ht
  rw [pieceIn, cut_corner hcell] at hu
  obtain ⟨v, hv, rfl⟩ := mem_map.mp hu
  have hinjective := (corner_strictMono hcell t.2).injective
  rw [corners_map]
  exact (Route.corners_cut_nodup _ _ v hv).map (hinjective.prodMap hinjective)

/-! ## The whole surface -/

/-- The edges that are met are the crossed ones of the subdivision. -/
lemma mem_crossings : e ∈ n.crossings inside ↔ n.IsEdge e ∧ IsCrossed inside e := by
  rw [mem_crossings_iff_exists, sections_eq, isEdge_iff]
  simp only [mem_map, exists_exists_and_eq_and, mem_tetrahedronList]
  constructor
  · rintro ⟨t, ht, he⟩
    obtain ⟨hedge, hcrossed⟩ := (mem_crossings_pieceIn ht).mp he
    exact ⟨⟨t, ht, hedge⟩, hcrossed⟩
  · rintro ⟨⟨t, ht, hedge⟩, hcrossed⟩
    exact ⟨t, ht, (mem_crossings_pieceIn ht).mpr ⟨hedge, hcrossed⟩⟩

section

variable {S : Type} (vertex : GridEdge → Vertex S)

/-- A triangle of the mesh is a triangle of crossed edges with their places put in. -/
lemma mem_surface_triangles {u : Triangle} : u ∈ (n.surface inside vertex).triangles ↔
    ∃ p ∈ n.sections inside, ∃ v ∈ p.triangles, numbered (n.crossings inside).idxOf v = u := by
  rw [← Array.mem_toList_iff, surface_triangles, mem_map]
  simp only [mem_flatMap]
  constructor
  · rintro ⟨v, ⟨p, hp, hv⟩, heq⟩
    exact ⟨p, hp, v, hv, heq⟩
  · rintro ⟨p, hp, v, hv, heq⟩
    exact ⟨v, ⟨p, hp, hv⟩, heq⟩

/-- Every vertex belongs to a triangle. -/
lemma exists_surface_triangle {i : Nat} (hi : i < (n.crossings inside).length) :
    ∃ u ∈ (n.surface inside vertex).triangles, i ∈ u.indices := by
  have hnodup : (n.crossings inside).Nodup := nodup_foldl_record nodup_nil _
  obtain ⟨p, hp, he⟩ := mem_crossings_iff_exists.mp (getElem_mem hi)
  obtain ⟨v, hv, hev⟩ := exists_triangle_of_mem_crossings hp he
  refine ⟨_, (mem_surface_triangles vertex).mpr ⟨p, hp, v, hv, rfl⟩, ?_⟩
  rw [indices_numbered]
  exact mem_map.mpr ⟨_, hev, hnodup.idxOf_getElem i hi⟩

/-- The corners of a triangle are three vertices of the mesh. -/
lemma indices_of_mem_surface_triangles {u : Triangle}
    (hu : u ∈ (n.surface inside vertex).triangles) :
    u.indices.Nodup ∧ ∀ i ∈ u.indices, i < (n.crossings inside).length := by
  obtain ⟨p, hp, v, hv, rfl⟩ := (mem_surface_triangles vertex).mp hu
  have hmem : ∀ e ∈ corners v, e ∈ n.crossings inside := fun e he =>
    mem_crossings_iff_exists.mpr ⟨p, hp, sections_proper n inside p hp v hv e he⟩
  rw [indices_numbered]
  constructor
  · refine (corners_nodup hp hv).map_on ?_
    intro e he f hf heq
    exact (idxOf_inj (hmem e he)).mp heq
  · intro i hi
    obtain ⟨e, he, rfl⟩ := mem_map.mp hi
    exact idxOf_lt_length_of_mem (hmem e he)

end

end GridSize

/-- **One vertex for each crossed edge.** The crossed edges of the subdivision can be listed without
repetition so that, whatever the vertices look like, vertex number `i` is that of edge number `i`
and there are no others. Every vertex belongs to a triangle, and the corners of every triangle are
three different vertices of the mesh. -/
theorem GridSize.extract_vertices {S : Type} [Scalar S] (n : GridSize) (samples : Array S) :
    ∃ es : List GridEdge, es.Nodup ∧
      (∀ e, e ∈ es ↔ n.IsEdge e ∧ negative samples e.1 ≠ negative samples e.2) ∧
      ∀ vertex : GridEdge → Vertex S,
        (n.extract samples vertex).vertices.toList = es.map vertex ∧
        (∀ i < (n.extract samples vertex).vertices.size,
          ∃ t ∈ (n.extract samples vertex).triangles, i ∈ t.indices) ∧
        ∀ t ∈ (n.extract samples vertex).triangles,
          t.indices.Nodup ∧ ∀ i ∈ t.indices, i < (n.extract samples vertex).vertices.size := by
  refine ⟨n.crossings (negative samples), nodup_foldl_record List.nodup_nil _,
    fun e => mem_crossings, fun vertex => ?_⟩
  have hvertices : (n.extract samples vertex).vertices.toList =
      (n.crossings (negative samples)).map vertex :=
    surface_vertices vertex
  have hsize : (n.extract samples vertex).vertices.size =
      (n.crossings (negative samples)).length := by
    rw [← Array.length_toList, hvertices, List.length_map]
  rw [hsize]
  exact ⟨hvertices, fun i hi => exists_surface_triangle vertex hi,
    fun t ht => indices_of_mem_surface_triangles vertex ht⟩

end SolidScript
