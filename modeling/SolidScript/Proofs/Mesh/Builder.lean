import SolidScript.Mesh.Extraction
import SolidScript.Proofs.Mesh.Edges
import SolidScript.Proofs.Mesh.Piece

/-!
# Numbering crossed edges

A mesh builder gives every crossed edge of the grid a vertex of its own. What has to be known about
it afterwards: the number of an edge is its place among the edges met so far, and every triangle of
the mesh is a triangle of crossed edges with the numbers put in. So the mesh can be studied on the
edges of the grid.
-/

namespace SolidScript

open List CrossedTriangle MeshBuilder

namespace CrossedTriangle

/-- The triangle of the vertices that stand for its corners. -/
def numbered (number : GridEdge → Nat) (t : CrossedTriangle GridEdge) : Triangle :=
  ⟨number t.1, number t.2.1, number t.2.2⟩

lemma numbered_congr {f g : GridEdge → Nat} {t : CrossedTriangle GridEdge}
    (h : ∀ e ∈ t.corners, f e = g e) : t.numbered f = t.numbered g := by
  unfold numbered
  rw [h t.1 (by simp [corners]), h t.2.1 (by simp [corners]), h t.2.2 (by simp [corners])]

lemma edges_numbered (number : GridEdge → Nat) (t : CrossedTriangle GridEdge) :
    (t.numbered number).edges = t.sides.map (Prod.map number number) := rfl

end CrossedTriangle

/-! ## What a builder lists -/

/-- An edge is listed behind the others, unless it is there. -/
def record (es : List GridEdge) (e : GridEdge) : List GridEdge := if e ∈ es then es else es ++ [e]

lemma mem_record {es : List GridEdge} {e f : GridEdge} : f ∈ record es e ↔ f ∈ es ∨ f = e := by
  unfold record
  split
  · rename_i he
    refine ⟨Or.inl, ?_⟩
    rintro (hf | rfl)
    · exact hf
    · exact he
  · rw [mem_append, mem_singleton]

lemma mem_foldl_record {es fs : List GridEdge} {f : GridEdge} :
    f ∈ fs.foldl record es ↔ f ∈ es ∨ f ∈ fs := by
  induction fs generalizing es with
  | nil => simp
  | cons e fs ih => rw [foldl_cons, ih, mem_record, mem_cons, or_assoc]

/-- Nothing is recorded twice. -/
lemma nodup_foldl_record {es : List GridEdge} (h : es.Nodup) (fs : List GridEdge) :
    (fs.foldl record es).Nodup := by
  induction fs generalizing es with
  | nil => exact h
  | cons e fs ih =>
    apply ih
    unfold record
    split
    · exact h
    · rename_i he
      exact h.append (nodup_singleton e) (by simpa using he)

namespace MeshBuilder

variable {S : Type} {vertex : GridEdge → Vertex S} {b : MeshBuilder S} {es : List GridEdge}
  {ts : List (CrossedTriangle GridEdge)}

/-- The number of an edge. -/
def number (b : MeshBuilder S) (e : GridEdge) : Nat := b.index.getD e 0

/-- The vertices of a builder stand for some edges, and the number of an edge is its place among
them. The triangles are those of some triangles of these edges. -/
structure Lists (b : MeshBuilder S) (vertex : GridEdge → Vertex S) (es : List GridEdge)
    (ts : List (CrossedTriangle GridEdge)) : Prop where
  mem_iff (e : GridEdge) : e ∈ b.index ↔ e ∈ es
  number_eq (e : GridEdge) (he : e ∈ es) : b.number e = es.idxOf e
  vertices_eq : b.mesh.vertices.toList = es.map vertex
  corner_mem (t : CrossedTriangle GridEdge) (ht : t ∈ ts) : ∀ e ∈ t.corners, e ∈ es
  triangles_eq : b.mesh.triangles.toList = ts.map (numbered es.idxOf)

/-- A new builder lists nothing. -/
lemma lists_nil (vertex : GridEdge → Vertex S) : Lists ({} : MeshBuilder S) vertex [] [] where
  mem_iff e := by simp
  number_eq e he := absurd he not_mem_nil
  vertices_eq := rfl
  corner_mem t ht := absurd ht not_mem_nil
  triangles_eq := rfl

variable (hb : b.Lists vertex es ts)
include hb

lemma Lists.addCrossing (e : GridEdge) :
    (b.addCrossing vertex e).Lists vertex (record es e) ts := by
  have hcontains : b.index.contains e = true ↔ e ∈ es :=
    Std.HashMap.mem_iff_contains.symm.trans (hb.mem_iff e)
  unfold MeshBuilder.addCrossing record
  simp only [hcontains]
  split_ifs with he
  · exact hb
  have hsize : b.mesh.vertices.size = es.length := by
    rw [← Array.length_toList, hb.vertices_eq, length_map]
  constructor
  case mem_iff =>
    intro f
    rw [Std.HashMap.mem_insert, hb.mem_iff, beq_iff_eq, mem_append, mem_singleton, or_comm, eq_comm]
  case number_eq =>
    intro f hf
    show (b.index.insert e b.mesh.vertices.size).getD f 0 = _
    rw [Std.HashMap.getD_insert]
    rcases mem_append.mp hf with hf | hf
    · have hne : e ≠ f := by
        rintro rfl
        exact he hf
      rw [if_neg (by simpa using hne), idxOf_append_of_mem hf]
      exact hb.number_eq f hf
    · -- the new edge comes last, and its number is how many there were
      obtain rfl := mem_singleton.mp hf
      rw [if_pos (beq_self_eq_true f), hsize, idxOf_append_of_notMem he, idxOf_cons_self,
        Nat.add_zero]
  case vertices_eq =>
    show (b.mesh.vertices.push (vertex e)).toList = _
    rw [Array.toList_push, hb.vertices_eq, map_append]
    rfl
  case corner_mem => exact fun t ht f hf => mem_append_left _ (hb.corner_mem t ht f hf)
  case triangles_eq =>
    -- the corners of these triangles have their numbers already, and keep them
    refine hb.triangles_eq.trans (map_congr_left fun t ht => numbered_congr
      fun f hf => ?_)
    exact (idxOf_append_of_mem (hb.corner_mem t ht f hf)).symm

lemma Lists.addCrossings (fs : List GridEdge) :
    (fs.foldl (MeshBuilder.addCrossing vertex) b).Lists vertex (fs.foldl record es) ts := by
  induction fs generalizing b es with
  | nil => exact hb
  | cons e fs ih => exact ih (hb.addCrossing e)

/-- A triangle is listed by the numbers of its corners. -/
lemma Lists.addTriangle {t : CrossedTriangle GridEdge} (ht : ∀ e ∈ t.corners, e ∈ es) :
    (b.addTriangle t).Lists vertex es (ts ++ [t]) where
  mem_iff := hb.mem_iff
  number_eq := hb.number_eq
  vertices_eq := hb.vertices_eq
  corner_mem u hu := by
    rcases mem_append.mp hu with hu | hu
    · exact hb.corner_mem u hu
    · rw [mem_singleton.mp hu]
      exact ht
  triangles_eq := by
    have hpush : (b.addTriangle t).mesh.triangles.toList = b.mesh.triangles.toList ++
        [t.numbered b.number] :=
      Array.toList_push ..
    rw [hpush, hb.triangles_eq, map_append, numbered_congr
      fun e he => hb.number_eq e (ht e he)]
    rfl

lemma Lists.addTriangles (us : List (CrossedTriangle GridEdge))
    (hus : ∀ t ∈ us, ∀ e ∈ t.corners, e ∈ es) :
    (us.foldl MeshBuilder.addTriangle b).Lists vertex es (ts ++ us) := by
  induction us generalizing ts b with
  | nil =>
    rw [append_nil]
    exact hb
  | cons t us ih =>
    obtain ⟨ht, hus⟩ := forall_mem_cons.mp hus
    rw [append_cons]
    exact ih (hb.addTriangle ht) hus

lemma Lists.addPieces (ps : List (Piece GridEdge)) (hps : ∀ p ∈ ps, p.Proper) :
    (ps.foldl (MeshBuilder.addPiece vertex) b).Lists vertex
      ((ps.flatMap Piece.crossings).foldl record es)
      (ts ++ ps.flatMap Piece.triangles) := by
  induction ps generalizing b es ts with
  | nil =>
    rw [flatMap_nil, flatMap_nil, append_nil]
    exact hb
  | cons p ps ih =>
    obtain ⟨hp, hps⟩ := forall_mem_cons.mp hps
    rw [flatMap_cons, flatMap_cons, foldl_append, ← append_assoc]
    refine ih ((hb.addCrossings p.crossings).addTriangles p.triangles fun t ht e he => ?_) hps
    exact mem_foldl_record.mpr (.inr (hp t ht e he))

end MeshBuilder

/-! ## The whole surface -/

namespace GridSize

/-- The pieces of the surface in all tetrahedra, in the order in which they are added. -/
def sections (n : GridSize) (inside : Nat → Bool) : List (Piece GridEdge) :=
  n.cells.flatMap fun base => n.tetrahedra.map fun t => n.cut inside (t.map (base + ·))

/-- The directed sides of all triangles of crossed edges. -/
def sides (n : GridSize) (inside : Nat → Bool) : List (GridEdge × GridEdge) :=
  (n.sections inside).flatMap Piece.sides

/-- The crossed edges in the order in which they are first met. -/
def crossings (n : GridSize) (inside : Nat → Bool) : List GridEdge :=
  ((n.sections inside).flatMap Piece.crossings).foldl record []

variable {n : GridSize} {inside : Nat → Bool} {S : Type}

lemma mem_crossings_iff_exists {e : GridEdge} :
    e ∈ n.crossings inside ↔ ∃ p ∈ n.sections inside, e ∈ p.crossings := by
  rw [crossings, mem_foldl_record, mem_flatMap]
  exact or_iff_right not_mem_nil

/-- Triangles of sections have crossings as corners. -/
lemma sections_proper (n : GridSize) (inside : Nat → Bool) : ∀ p ∈ n.sections inside, p.Proper := by
  intro p hp
  obtain ⟨base, -, hp⟩ := mem_flatMap.mp hp
  obtain ⟨t, -, rfl⟩ := mem_map.mp hp
  exact Piece.cut_proper n.offset GridEdge.mk inside _

section

variable (vertex : GridEdge → Vertex S)

lemma surface_eq_foldl : n.surface inside vertex =
    ((n.sections inside).foldl (addPiece vertex) ({} : MeshBuilder S)).mesh := by
  unfold surface sections
  rw [foldl_flatMap]
  simp only [foldl_map]

lemma lists_surface : Lists ((n.sections inside).foldl (addPiece vertex) {}) vertex
    (n.crossings inside) ((n.sections inside).flatMap Piece.triangles) :=
  (lists_nil vertex).addPieces (n.sections inside) (sections_proper n inside)

lemma surface_vertices : (n.surface inside vertex).vertices.toList =
    (n.crossings inside).map vertex := by
  rw [surface_eq_foldl]
  exact (lists_surface vertex).vertices_eq

/-- The triangles of a surface are those of its pieces, with the places of crossed edges put in. -/
lemma surface_triangles : (n.surface inside vertex).triangles.toList =
    ((n.sections inside).flatMap Piece.triangles).map
      (numbered (n.crossings inside).idxOf) := by
  rw [surface_eq_foldl]
  exact (lists_surface vertex).triangles_eq

/-- The edges of the mesh are the sides on the grid with the places of crossed edges put in. -/
lemma surface_edges : (n.surface inside vertex).edges =
    (n.sides inside).map (Prod.map (n.crossings inside).idxOf (n.crossings inside).idxOf) := by
  have hsides : n.sides inside = ((n.sections inside).flatMap Piece.triangles).flatMap
      CrossedTriangle.sides :=
    flatMap_assoc.symm
  rw [Mesh.edges, surface_triangles, hsides, flatMap_map, map_flatMap]
  simp only [CrossedTriangle.edges_numbered]

end

lemma mem_crossings_of_mem_sides {d : GridEdge × GridEdge} (hd : d ∈ n.sides inside) :
    d.1 ∈ n.crossings inside ∧ d.2 ∈ n.crossings inside := by
  obtain ⟨p, hp, hd⟩ := mem_flatMap.mp hd
  obtain ⟨t, ht, hd⟩ := mem_flatMap.mp hd
  have hmem {e : GridEdge} (he : e ∈ corners t) : e ∈ n.crossings inside :=
    mem_crossings_iff_exists.mpr ⟨p, hp, sections_proper n inside p hp t ht e he⟩
  obtain ⟨h₁, h₂⟩ := mem_corners_of_mem_sides hd
  exact ⟨hmem h₁, hmem h₂⟩

/-- If no side on the grid is repeated, no edge of the mesh is. -/
lemma surface_edges_nodup (vertex : GridEdge → Vertex S) (h : (n.sides inside).Nodup) :
    (n.surface inside vertex).edges.Nodup := by
  rw [surface_edges]
  refine h.map_on fun d hd d' hd' heq => ?_
  obtain ⟨h₁, h₂⟩ := Prod.mk.inj heq
  obtain ⟨hd₁, hd₂⟩ := mem_crossings_of_mem_sides hd
  exact Prod.ext ((idxOf_inj hd₁).mp h₁) ((idxOf_inj hd₂).mp h₂)

/-- If the sides on the grid are paired, the edges of the mesh are. -/
lemma surface_swap_mem (vertex : GridEdge → Vertex S)
    (h : ∀ d ∈ n.sides inside, d.swap ∈ n.sides inside) :
    ∀ e ∈ (n.surface inside vertex).edges, e.swap ∈ (n.surface inside vertex).edges := by
  rw [surface_edges]
  intro e he
  obtain ⟨d, hd, rfl⟩ := mem_map.mp he
  exact mem_map.mpr ⟨d.swap, h d hd, rfl⟩

/-- The triangles of a surface depend only on which points are inside. -/
lemma surface_triangles_eq {T : Type} (n : GridSize) (inside : Nat → Bool) (v : GridEdge → Vertex S)
    (v' : GridEdge → Vertex T) : (n.surface inside v).triangles = (n.surface inside v').triangles :=
  Array.toList_inj.mp ((surface_triangles v).trans (surface_triangles v').symm)

end GridSize

end SolidScript
