import SolidScript.Proofs.Mesh.Crossings
import SolidScript.Proofs.Mesh.Slopes

/-!
# Triangles face outward

The winding of the triangles in a tetrahedron is decided by the numbers of its corners, and their
vertices are placed by the samples there. The two go together: every triangle has the corners with
negative samples behind it and the others in front.
-/

namespace SolidScript

open Vec3 List GridSize

/-! ## One tetrahedron -/

namespace Piece

variable {α ε : Type}

lemma mem_triangles_oriented {outward : Bool} {crossings : List ε}
    {triangles : List (CrossedTriangle ε)} {t : CrossedTriangle ε}
    (ht : t ∈ (oriented outward crossings triangles).triangles) :
    outward = true ∧ t ∈ triangles ∨ outward = false ∧ (t.1, t.2.2, t.2.1) ∈ triangles := by
  cases outward with
  | true => exact .inl ⟨rfl, ht⟩
  | false =>
    obtain ⟨u, hu, rfl⟩ := mem_map.mp ht
    exact .inr ⟨rfl, hu⟩

end Piece

/-- An offset as a vector. -/
noncomputable def Offset.toVec (u : Offset) : Vec3 ℝ := ⟨u.1, u.2.1, u.2.2⟩

lemma volume_toVec (u v w : Offset) (h : ℝ) :
    volume ((Offset.toVec u).scale h) ((Offset.toVec v).scale h) ((Offset.toVec w).scale h) =
      h ^ 3 * det u v w := by
  simp only [volume_eq, scale_x, scale_y, scale_z, Offset.toVec, det]
  push_cast
  ring

/-- Points that lie as their offsets say, with `h` as the unit of length, and crossings on the edges
between points with values of different signs. -/
structure Laid {α ε : Type} (offset : α → α → Offset) (edge : α → α → ε) (inside : α → Bool)
    (place : α → Vec3 ℝ) (value : α → ℝ) (position : ε → Vec3 ℝ) (h : ℝ) : Prop where
  unit_pos : 0 < h
  inside_iff (a : α) : inside a = true ↔ value a < 0
  place_sub (a b : α) : place b - place a = (Offset.toVec (offset a b)).scale h
  position_edge (a b : α) (ha : value a < 0) (hb : 0 ≤ value b) : position (edge a b) =
    crossPoint place value a b

namespace Laid

variable {α ε : Type} {offset : α → α → Offset} {edge : α → α → ε} {inside : α → Bool}
  {place : α → Vec3 ℝ}
  {value : α → ℝ} {position : ε → Vec3 ℝ} {h : ℝ}
  (hl : Laid offset edge inside place value position h)

include hl

/-- Volumes are those of the offsets, up to the unit. -/
lemma volume_eq (a b c d e f : α) :
    volume (place b - place a) (place d - place c) (place f - place e) =
      h ^ 3 * det (offset a b) (offset c d) (offset e f) := by
  rw [hl.place_sub, hl.place_sub, hl.place_sub, volume_toVec]

lemma volume_pos_iff (a b c d e f : α) :
    0 < volume (place b - place a) (place d - place c) (place f - place e) ↔
      0 < det (offset a b) (offset c d) (offset e f) := by
  rw [hl.volume_eq, mul_pos_iff_of_pos_left (pow_pos hl.unit_pos 3), Int.cast_pos]

lemma volume_neg_iff (a b c d e f : α) :
    volume (place b - place a) (place d - place c) (place f - place e) < 0 ↔
      det (offset a b) (offset c d) (offset e f) < 0 := by
  rw [hl.volume_eq, ← not_le, mul_nonneg_iff_of_pos_left (pow_pos hl.unit_pos 3),
    Int.cast_nonneg_iff, not_le]

/-- The corners of a tetrahedron by the signs of their values. -/
lemma partition_spec {corners ins outs : List α} (hparts : corners.partition inside = (ins, outs)) :
    (ins ++ outs).Perm corners ∧ ins.Forall (value · < 0) ∧ outs.Forall (0 ≤ value ·) := by
  rw [partition_eq_filter_filter] at hparts
  obtain ⟨rfl, rfl⟩ := Prod.mk.inj hparts
  refine ⟨filter_append_perm inside corners, forall_iff_forall_mem.mpr ?_,
    forall_iff_forall_mem.mpr ?_⟩
  · intro a ha
    exact (hl.inside_iff a).mp (mem_filter.mp ha).2
  · intro a ha
    have hout : ¬inside a = true := by simpa using (mem_filter.mp ha).2
    exact not_lt.mp (mt (hl.inside_iff a).mpr hout)

omit hl in
/-- Triangles that lean all alike face outward once they are turned over where needed. -/
lemma facesOutward_oriented {outward : Bool} {crossings : List ε}
    {triangles : List (CrossedTriangle ε)} {corners : List α} {V : ℝ} (hV : V ≠ 0)
    (houtward : outward = true ↔ 0 < V) (hneg : ∃ c ∈ corners, value c < 0)
    (hleans : ∀ t ∈ triangles, Leans place value corners V (position t.1) (position t.2.1)
      (position t.2.2)) :
    ∀ t ∈ (Piece.oriented outward crossings triangles).triangles,
      FacesOutward place value corners (position t.1) (position t.2.1) (position t.2.2) := by
  intro t ht
  rcases Piece.mem_triangles_oriented ht with ⟨hout, ht⟩ | ⟨hout, ht⟩
  · exact (hleans t ht).facesOutward (houtward.mp hout) hneg
  · have hnot : ¬0 < V := fun hpos => Bool.false_ne_true (hout.symm.trans (houtward.mpr hpos))
    exact (hleans _ ht).flip.facesOutward (neg_pos.mpr (lt_of_le_of_ne (not_lt.mp hnot) hV)) hneg

variable {corners : List α}
  (hflat : ∀ o p q r, [o, p, q, r].Perm corners → det (offset o p) (offset o q) (offset o r) ≠ 0)

include hflat in
lemma tetVolume_ne_zero {o p q r : α} (hperm : [o, p, q, r].Perm corners) :
    tetVolume place o p q r ≠ 0 := by
  rw [tetVolume, hl.volume_eq]
  exact mul_ne_zero (pow_ne_zero 3 hl.unit_pos.ne') (Int.cast_ne_zero.mpr (hflat o p q r hperm))

include hflat in
/-- The triangles in a tetrahedron face outward. -/
lemma facesOutward_cut : ∀ t ∈ (Piece.cut offset edge inside corners).triangles,
    FacesOutward place value corners (position t.1) (position t.2.1) (position t.2.2) := by
  unfold Piece.cut
  split
  case h_1 i p q r hparts =>
    obtain ⟨hperm, hin, hp, hq, hr⟩ := hl.partition_spec hparts
    have hin : value i < 0 := hin
    refine facesOutward_oriented (hl.tetVolume_ne_zero hflat hperm) ?_
      ⟨i, hperm.subset mem_cons_self, hin⟩ ?_
    · rw [decide_eq_true_iff, tetVolume, hl.volume_pos_iff]
    · intro t ht
      obtain rfl := mem_singleton.mp ht
      rw [hl.position_edge i p hin hp, hl.position_edge i q hin hq, hl.position_edge i r hin hr]
      exact (leans_star (hin.trans_le hp) (hin.trans_le hq) (hin.trans_le hr)).congr hperm
  case h_2 p q r o hparts =>
    obtain ⟨hperm, ⟨hp, hq, hr⟩, hout⟩ := hl.partition_spec hparts
    have hout : 0 ≤ value o := hout
    have hstar : [o, p, q, r].Perm corners := (perm_append_singleton o [p, q, r]).symm.trans hperm
    refine facesOutward_oriented (neg_ne_zero.mpr (hl.tetVolume_ne_zero hflat hstar)) ?_
      ⟨p, hperm.subset mem_cons_self, hp⟩ ?_
    · rw [decide_eq_true_iff, neg_pos, tetVolume, hl.volume_neg_iff]
    · intro t ht
      obtain rfl := mem_singleton.mp ht
      rw [hl.position_edge p o hp hout, hl.position_edge q o hq hout, hl.position_edge r o hr hout,
        crossPoint_comm place (hp.trans_le hout).ne, crossPoint_comm place (hq.trans_le hout).ne,
        crossPoint_comm place (hr.trans_le hout).ne]
      exact (leans_star_above (hp.trans_le hout) (hq.trans_le hout) (hr.trans_le hout)).congr hstar
  case h_3 a b c d hparts =>
    obtain ⟨hperm, ⟨ha, hb⟩, hc, hd⟩ := hl.partition_spec hparts
    -- the triangles are on two paths through all corners, one starting inside and the other one not
    have hfirst : [a, c, d, b].Perm corners := ((perm_append_singleton b [c, d]).cons a).trans hperm
    have hsecond : [c, a, b, d].Perm corners := (@List.perm_middle _ c [a, b] [d]).symm.trans hperm
    refine facesOutward_oriented (hl.tetVolume_ne_zero hflat hfirst) ?_
      ⟨a, hperm.subset mem_cons_self, ha⟩ ?_
    · rw [decide_eq_true_iff, tetVolume_opposite, hl.volume_pos_iff]
    · have hac := hl.position_edge a c ha hc
      have had := hl.position_edge a d ha hd
      have hbd := hl.position_edge b d hb hd
      have hbc := hl.position_edge b c hb hc
      simp only [forall_mem_cons, not_mem_nil, false_imp_iff, implies_true, and_true]
      constructor
      · rw [hac, had, hbd, crossPoint_comm place (hb.trans_le hd).ne]
        exact (leans_path (ha.trans_le hc) (ha.trans_le hd) (hb.trans_le hd)
          (mul_nonpos_of_nonpos_of_nonneg ha.le hd)).congr hfirst
      · rw [hac, hbd, hbc, crossPoint_comm place (ha.trans_le hc).ne,
          crossPoint_comm place (hb.trans_le hc).ne, ← tetVolume_trade, ← neg_neg
            (tetVolume place c a b d)]
        exact (leans_path_above (ha.trans_le hc) (hb.trans_le hc) (hb.trans_le hd)
          (mul_nonpos_of_nonneg_of_nonpos hc hb.le)).flip.congr hsecond
  case h_4 =>
    intro t ht
    exact absurd ht not_mem_nil

end Laid

/-! ## Grids -/

/-- The corners of a tetrahedron are in no plane. -/
lemma Route.det_offset_ne_zero : ∀ (r : Route) (i j k l : Fin 4), [i, j, k, l].Nodup →
    det (r.offset i j) (r.offset i k) (r.offset i l) ≠ 0 := by
  decide +kernel

/-- Triangles are missing where all corners are on one side. -/
lemma Route.triangles_cut_eq_nil : ∀ (r : Route) (inside : Fin 4 → Bool),
    (r.cut inside).triangles = [] ↔ (∀ i, inside i = true) ∨ ∀ i, inside i = false := by
  decide +kernel

namespace GridSize

variable {n : GridSize} {inside : Nat → Bool}

/-- The tetrahedra of a grid, each by the numbers of its corners. -/
def cornerLists (n : GridSize) : List (List Nat) :=
  n.cells.flatMap fun base => n.tetrahedra.map fun corners => corners.map (base + ·)

/-- The triangles in a tetrahedron, with the vertices that stand for crossed edges. -/
def emitted (n : GridSize) (inside : Nat → Bool) (corners : List Nat) : List Triangle :=
  (n.cut inside corners).triangles.map (CrossedTriangle.numbered (n.crossings inside).idxOf)

lemma sections_eq_map : n.sections inside = n.cornerLists.map (n.cut inside) := by
  rw [sections, cornerLists, map_flatMap]
  simp only [map_map]
  rfl

/-- The triangles of a mesh, tetrahedron by tetrahedron. -/
lemma triangles_eq_flatMap {S : Type} (vertex : GridEdge → Vertex S) :
    (n.surface inside vertex).triangles.toList = n.cornerLists.flatMap (n.emitted inside) := by
  rw [surface_triangles, sections_eq_map, flatMap_map, map_flatMap]
  rfl

lemma exists_corner_of_mem_cornerLists {corners : List Nat} (h : corners ∈ n.cornerLists) :
    ∃ c r, n.IsCell c ∧ corners = [0, 1, 2, 3].map (n.corner c r) := by
  rw [cornerLists, cells_eq, tetrahedra_eq] at h
  obtain ⟨base, hbase, h⟩ := mem_flatMap.mp h
  obtain ⟨c, hc, rfl⟩ := mem_map.mp hbase
  obtain ⟨places, hplaces, rfl⟩ := mem_map.mp h
  obtain ⟨r, -, rfl⟩ := mem_map.mp hplaces
  exact ⟨c, r, mem_cellSteps.mp hc, map_corners n c r⟩

lemma det_offset_ne_zero {corners : List Nat} (h : corners ∈ n.cornerLists) (o p q r : Nat)
    (hperm : [o, p, q, r].Perm corners) : det (n.offset o p) (n.offset o q) (n.offset o r) ≠ 0 := by
  obtain ⟨c, route, hc, rfl⟩ := exists_corner_of_mem_cornerLists h
  have hplace : ∀ x ∈ [o, p, q, r], ∃ i, n.corner c route i = x := fun x hx => by
    obtain ⟨i, -, hi⟩ := mem_map.mp (hperm.subset hx)
    exact ⟨i, hi⟩
  obtain ⟨i, rfl⟩ := hplace o (by simp)
  obtain ⟨j, rfl⟩ := hplace p (by simp)
  obtain ⟨k, rfl⟩ := hplace q (by simp)
  obtain ⟨l, rfl⟩ := hplace r (by simp)
  have hnodup : ([i, j, k, l].map (n.corner c route)).Nodup :=
    hperm.nodup_iff.mpr ((by decide : ([0, 1, 2, 3] : List (Fin 4)).Nodup).map
      (corner_strictMono hc route).injective)
  rw [offset_corner hc, offset_corner hc, offset_corner hc]
  exact Route.det_offset_ne_zero route i j k l hnodup.of_map

lemma emitted_eq_nil {corners : List Nat} (h : corners ∈ n.cornerLists) :
    n.emitted inside corners = [] ↔
      (∀ p ∈ corners, inside p = true) ∨ ∀ p ∈ corners, inside p = false := by
  obtain ⟨c, r, hc, rfl⟩ := exists_corner_of_mem_cornerLists h
  have hall (P : Nat → Prop) : (∀ p ∈ [0, 1, 2, 3].map (n.corner c r), P p) ↔
      ∀ i, P (n.corner c r i) := by
    rw [forall_mem_map]
    exact ⟨fun hp i => hp i (by fin_cases i <;> simp), fun hp i _ => hp i⟩
  rw [hall, hall, emitted, map_eq_nil_iff, cut_corner hc]
  exact map_eq_nil_iff.trans (Route.triangles_cut_eq_nil r _)

/-- The vertex of a crossed edge is found under its number. -/
lemma position_surface {S : Type} [Scalar S] (vertex : GridEdge → Vertex S) {e : GridEdge}
    (he : e ∈ n.crossings inside) :
    (n.surface inside vertex).position ((n.crossings inside).idxOf e) = (vertex e).position := by
  have hget : (n.surface inside vertex).vertices[(n.crossings inside).idxOf e]? =
      some (vertex e) := by
    rw [← Array.getElem?_toList, surface_vertices, getElem?_map, getElem?_idxOf he]
    rfl
  rw [Mesh.position, hget]

end GridSize

/-- Between values of different signs the share is that of even change. -/
lemma crossingShare_eq {a b : ℝ} (h : a < 0 ∧ 0 ≤ b ∨ b < 0 ∧ 0 ≤ a) :
    crossingShare a b = a / (a - b) := by
  have hne : a ≠ b := by
    rcases h with ⟨ha, hb⟩ | ⟨hb, ha⟩
    · exact (ha.trans_le hb).ne
    · exact (hb.trans_le ha).ne'
  have hshare : 0 ≤ a / (a - b) ∧ a / (a - b) ≤ 1 := by
    rcases h with ⟨ha, hb⟩ | ⟨hb, ha⟩
    · have hneg : a - b < 0 := sub_neg.mpr (ha.trans_le hb)
      exact ⟨div_nonneg_of_nonpos ha.le hneg.le, (div_le_one_of_neg hneg).mpr (sub_le_self a hb)⟩
    · have hpos : 0 < a - b := sub_pos.mpr (hb.trans_le ha)
      exact ⟨div_nonneg ha hpos.le, (div_le_one hpos).mpr (le_sub_self_iff a |>.mpr hb.le)⟩
  have hbeq : ¬(a == b) = true := fun heq => hne (of_decide_eq_true heq)
  unfold crossingShare
  rw [if_neg hbeq]
  unfold Scalar.clamp
  rw [if_neg (not_lt.mpr hshare.1), if_neg (not_lt.mpr hshare.2)]

lemma negative_iff (samples : Array ℝ) (i : Nat) :
    negative samples i = true ↔ samples.getD i 0 < 0 := by
  rw [negative_eq, Array.getD_eq_getD_getElem?]
  cases samples[i]? with
  | none => simp
  | some d => exact decide_eq_true_iff

lemma Grid.point_sub (grid : Grid ℝ) (a b : Nat) :
    grid.point b - grid.point a = (Offset.toVec (grid.size.offset a b)).scale grid.step := by
  ext <;> simp only [Grid.point, Offset.toVec, offset, Scalar.ofCount, sub_x, sub_y, sub_z,
    add_x, add_y, add_z, scale_x, scale_y, scale_z] <;> push_cast <;> ring

/-- Grid points and crossings are placed as the numbers of the points say. -/
lemma Geometry.laid_crossing (g : Geometry ℝ) {grid : Grid ℝ} (hstep : 0 < grid.step)
    (samples : Array ℝ) :
    Laid grid.size.offset GridEdge.mk (negative samples) grid.point (samples.getD · 0)
      (fun e => (g.crossing grid (samples.getD · 0) e).position) grid.step where
  unit_pos := hstep
  inside_iff := negative_iff samples
  place_sub := grid.point_sub
  position_edge a b ha hb := by
    have hposition (e : GridEdge) (he : samples.getD e.1 0 < 0 ∧ 0 ≤ samples.getD e.2 0 ∨
        samples.getD e.2 0 < 0 ∧ 0 ≤ samples.getD e.1 0) :
        (g.crossing grid (samples.getD · 0) e).position = crossPoint grid.point (samples.getD · 0)
        e.1 e.2 := by
      show grid.point e.1 + (grid.point e.2 - grid.point e.1).scale (crossingShare _ _) = _
      rw [crossingShare_eq he]
      rfl
    -- an edge is stored with its smaller end first, on whichever side that is
    rcases le_total a b with hab | hba
    · have hedge : GridEdge.mk a b = (a, b) := Prod.ext (min_eq_left hab) (max_eq_right hab)
      rw [hedge, hposition (a, b) (.inl ⟨ha, hb⟩)]
    · have hedge : GridEdge.mk a b = (b, a) := Prod.ext (min_eq_right hba) (max_eq_left hba)
      rw [hedge, hposition (b, a) (.inr ⟨ha, hb⟩)]
      exact crossPoint_comm grid.point (ha.trans_le hb).ne'

/-- **Triangles face outward.** The triangles of an extracted mesh are those that its tetrahedra
give rise to, one tetrahedron after the other, and none do so but those with corners on both sides.
Each triangle has the corners with negative samples behind it or in its plane, and the other corners
in front of it or in its plane; it has no normal only if two of its vertices are in a corner with
the sample zero. -/
theorem Geometry.extract_facesOutward (g : Geometry ℝ) (grid : Grid ℝ) (hstep : 0 < grid.step)
    (samples : Array ℝ) : let sample : Nat → ℝ := (samples.getD · 0)
    let mesh := grid.size.extract samples (g.crossing grid sample)
    mesh.triangles.toList = grid.size.cornerLists.flatMap (grid.size.emitted (negative samples)) ∧
    ∀ corners ∈ grid.size.cornerLists,
      (grid.size.emitted (negative samples) corners = [] ↔
        (∀ c ∈ corners, sample c < 0) ∨ ∀ c ∈ corners, 0 ≤ sample c) ∧
      ∀ t ∈ grid.size.emitted (negative samples) corners,
        FacesOutward grid.point sample corners (mesh.position t.a) (mesh.position t.b)
          (mesh.position t.c) := by
  intro sample mesh
  have hlaid := g.laid_crossing hstep samples
  refine ⟨triangles_eq_flatMap _, ?_⟩
  intro corners hcorners
  constructor
  · rw [emitted_eq_nil hcorners]
    simp only [← not_lt, ← negative_iff, sample, Bool.not_eq_true]
  · intro t ht
    obtain ⟨u, hu, rfl⟩ := List.mem_map.mp ht
    have hfound (e : GridEdge) (he : e ∈ CrossedTriangle.corners u) :
        mesh.position ((grid.size.crossings (negative samples)).idxOf e) =
          (g.crossing grid sample e).position := by
      apply position_surface
      rw [mem_crossings_iff_exists, sections_eq_map]
      exact ⟨_, List.mem_map_of_mem hcorners, Piece.cut_proper _ _ _ corners u hu e he⟩
    have hfaces := hlaid.facesOutward_cut (det_offset_ne_zero hcorners) u hu
    rw [← hfound u.1 (by simp [CrossedTriangle.corners]), ← hfound u.2.1
      (by simp [CrossedTriangle.corners]), ← hfound u.2.2 (by simp [CrossedTriangle.corners])]
      at hfaces
    exact hfaces

/-- A single cell. -/
noncomputable def unitCell : Grid ℝ := ⟨⟨0, 0, 0⟩, 1, ⟨2, 2, 2⟩⟩

/-- Two corners of an edge are inside, and a third one is on the surface. -/
def edgeSamples : Array ℝ := #[-1, -1, 1, 0, 1, 1, 1, 1]

/-- A tetrahedron that is cut by a quadrangle, with one of its corners in a corner of the
tetrahedron. -/
theorem Geometry.extract_facesOutward_unitCell :
    0 < unitCell.step ∧ ∃ t ∈ unitCell.size.emitted (negative edgeSamples) [0, 1, 3, 7],
      let mesh := unitCell.size.extract edgeSamples
        (Geometry.crossing (.sphere 1) unitCell (edgeSamples.getD · 0))
      FacesOutward unitCell.point (edgeSamples.getD · 0) [0, 1, 3, 7] (mesh.position t.a)
        (mesh.position t.b)
        (mesh.position t.c) := by
  have hstep : 0 < unitCell.step := one_pos
  obtain ⟨-, hall⟩ := Geometry.extract_facesOutward (.sphere 1) unitCell hstep edgeSamples
  obtain ⟨hnil, hfaces⟩ := hall [0, 1, 3, 7] (by decide)
  have hsome : unitCell.size.emitted (negative edgeSamples) [0, 1, 3, 7] ≠ [] := by
    rw [Ne, hnil]
    simp [edgeSamples]
  obtain ⟨t, ht⟩ := List.exists_mem_of_ne_nil _ hsome
  exact ⟨hstep, t, ht, hfaces t ht⟩

end SolidScript
