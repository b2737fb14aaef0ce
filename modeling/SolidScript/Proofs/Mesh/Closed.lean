import Mathlib.SetTheory.Cardinal.Finite
import Mathlib.Tactic.IntervalCases
import SolidScript.Proofs.Mesh.Builder
import SolidScript.Proofs.Mesh.Subdivision

/-!
# Surfaces are closed

If no point on the border of a grid is inside, the surface around the points inside has no border:
every directed side of its triangles occurs once, and so does the opposite one.
-/

namespace SolidScript

open Route List GridSize

namespace GridSize

/-! ## The list of all tetrahedra -/

/-- The cells of the grid, by the steps to their least corners. -/
def cellSteps (n : GridSize) : List Steps :=
  (range (n.z - 1)).flatMap fun z =>
    (range (n.y - 1)).flatMap fun y => (range (n.x - 1)).map fun x => (x, y, z)

/-- The tetrahedra of the grid, by their cells and routes. -/
def tetrahedronList (n : GridSize) : List (Steps × Route) := n.cellSteps.product Route.all

variable {n : GridSize}

lemma mem_cellSteps {c : Steps} : c ∈ n.cellSteps ↔ n.IsCell c := by
  obtain ⟨x, y, z⟩ := c
  simp only [cellSteps, mem_flatMap, mem_map, mem_range, IsCell, Prod.mk.injEq]
  constructor
  · rintro ⟨z', hz, y', hy, x', hx, rfl, rfl, rfl⟩
    omega
  · rintro ⟨hx, hy, hz⟩
    exact ⟨z, by omega, y, by omega, x, by omega, rfl, rfl, rfl⟩

lemma cellSteps_nodup : n.cellSteps.Nodup := by
  -- the cells are triples of numbers in another order
  have hcells : n.cellSteps =
      ((range (n.z - 1)).product ((range (n.y - 1)).product (range (n.x - 1)))).map fun c =>
        (c.2.2, c.2.1, c.1) := by
    simp [cellSteps, product, map_flatMap, Function.comp_def]
  rw [hcells]
  refine (nodup_range.product (nodup_range.product nodup_range)).map ?_
  rintro ⟨z, y, x⟩ ⟨_, _, _⟩ ⟨⟩
  rfl

lemma tetrahedronList_nodup : n.tetrahedronList.Nodup := by
  have hall : all.Nodup := by decide
  exact cellSteps_nodup.product hall

lemma mem_tetrahedronList {t : Steps × Route} : t ∈ n.tetrahedronList ↔ n.IsCell t.1 := by
  obtain ⟨c, r⟩ := t
  have hall : r ∈ Route.all := by cases r <;> decide
  rw [tetrahedronList, pair_mem_product, mem_cellSteps]
  exact and_iff_left hall

lemma cells_eq (n : GridSize) : n.cells = n.cellSteps.map n.number := by
  simp only [cells, cellSteps, map_flatMap, map_map]
  rfl

lemma tetrahedra_eq (n : GridSize) :
    n.tetrahedra = all.map fun r => [0, 1, 2, 3].map fun i => n.number (r.corner i) := rfl

/-- The corners of a tetrahedron, moved to its cell. -/
lemma map_corners (n : GridSize) (c : Steps) (r : Route) :
    ([0, 1, 2, 3].map fun i => n.number (r.corner i)).map
      (n.number c + ·) = [0, 1, 2, 3].map (n.corner c r) := by
  rw [map_map]
  apply map_congr_left
  intro i _
  exact (number_add n c (r.corner i)).symm

lemma sections_eq (inside : Nat → Bool) :
    n.sections inside = n.tetrahedronList.map (n.pieceIn inside) := by
  unfold sections tetrahedronList
  -- both lists go through the cells, and in each cell through the routes
  rw [cells_eq, tetrahedra_eq, flatMap_map]
  show _ = (n.cellSteps.flatMap fun c => all.map (Prod.mk c)).map (n.pieceIn inside)
  rw [map_flatMap]
  congr 1
  funext c
  rw [map_map, map_map]
  apply map_congr_left
  intro r _
  simp only [Function.comp_apply, pieceIn, map_corners]

lemma sides_eq (inside : Nat → Bool) :
    n.sides inside = n.tetrahedronList.flatMap fun t => (n.pieceIn inside t).sides := by
  rw [sides, sections_eq, flatMap_map]

/-! ## Sides and their tetrahedra -/

variable {inside : Nat → Bool} {t t' : Steps × Route} {d : GridEdge × GridEdge}

/-- A side between edges of points, the points given by their places. -/
abbrev placed {m : Nat} (p : Fin m → Nat) (d : (Fin m × Fin m) × (Fin m × Fin m)) :
    GridEdge × GridEdge :=
  Prod.map (Prod.map p p) (Prod.map p p) d

lemma placed_injective {m : Nat} {p : Fin m → Nat} (hp : Function.Injective p) :
    Function.Injective (placed p) :=
  (hp.prodMap hp).prodMap (hp.prodMap hp)

lemma sides_pieceIn (ht : n.IsCell t.1) :
    (n.pieceIn inside t).sides
      = (t.2.cut fun i => inside (n.corner t.1 t.2 i)).sides.map (placed (n.corner t.1 t.2)) := by
  rw [pieceIn, cut_corner ht, Piece.sides_map]

lemma sides_pieceIn_nodup (ht : n.IsCell t.1) : (n.pieceIn inside t).sides.Nodup := by
  rw [sides_pieceIn ht]
  exact (sides_cut_nodup t.2 _).map (placed_injective (corner_strictMono ht t.2).injective)

/-- A side in a tetrahedron crosses one of the faces, or it joins all four corners. -/
lemma mem_sides_pieceIn_cases (ht : n.IsCell t.1) (hd : d ∈ (n.pieceIn inside t).sides) :
    (∃ e, Spans e ∧ d = placed (n.corner t.1 t.2) e ∧ d.swap ∈ (n.pieceIn inside t).sides) ∨
      ∃ k u, u ∈ turns (t.2.facesRight k) (fun i => inside (n.corner t.1 t.2 (k.succAbove i))) ∧
        d = placed (n.corner t.1 t.2) (onFace k u) := by
  rw [sides_pieceIn ht] at hd ⊢
  obtain ⟨e, he, rfl⟩ := mem_map.mp hd
  rcases sides_cut_cases t.2 _ e he with ⟨hspans, hswap⟩ | ⟨k, u, hu, rfl⟩
  · exact Or.inl ⟨e, hspans, rfl, mem_map.mpr ⟨e.swap, hswap, rfl⟩⟩
  · exact Or.inr ⟨k, u, hu, rfl⟩

lemma onFace_mem_sides_pieceIn (ht : n.IsCell t.1) {k : Fin 4} {u : Turn}
    (hu : u ∈ turns (t.2.facesRight k) fun i => inside (n.corner t.1 t.2 (k.succAbove i))) :
    placed (n.corner t.1 t.2) (onFace k u) ∈ (n.pieceIn inside t).sides := by
  rw [sides_pieceIn ht]
  exact mem_map_of_mem (onFace_mem_sides t.2 _ k u hu)

/-- The points that a side touches. -/
def ends (d : GridEdge × GridEdge) : Set Nat := {d.1.1, d.1.2, d.2.1, d.2.2}

/-- A side that joins all of some points touches just these. -/
lemma ends_placed {m : Nat} (p : Fin m → Nat) {e : (Fin m × Fin m) × (Fin m × Fin m)}
    (he : ∀ i, i = e.1.1 ∨ i = e.1.2 ∨ i = e.2.1 ∨ i = e.2.2) :
    ends (placed p e) = Set.range p := by
  ext q
  simp only [ends, Set.mem_range, Set.mem_insert_iff, Set.mem_singleton_iff]
  constructor
  · rintro (rfl | rfl | rfl | rfl) <;> exact ⟨_, rfl⟩
  · rintro ⟨i, rfl⟩
    rcases he i with h | h | h | h <;> rw [h] <;> simp

lemma range_four_ne_range_three {p : Fin 4 → Nat} {q : Fin 3 → Nat} (hp : Function.Injective p)
    (hq : Function.Injective q) : Set.range p ≠ Set.range q := by
  intro h
  have hcard : Nat.card (Set.range p) = Nat.card (Set.range q) := by rw [h]
  rw [Nat.card_range_of_injective hp, Nat.card_range_of_injective hq, Nat.card_fin, Nat.card_fin]
    at hcard
  omega

/-- Corners of the grid that coincide are reached by the same steps. -/
lemma steps_eq_of_corner_eq (ht : n.IsCell t.1) (ht' : n.IsCell t'.1) {i j : Fin 4}
    (h : n.corner t.1 t.2 i = n.corner t'.1 t'.2 j) : t.1 + t.2.corner i = t'.1 + t'.2.corner j :=
  number_injective (ht.isPoint t.2 i) (ht'.isPoint t'.2 j) h

/-- A tetrahedron is known by its corners. -/
lemma tetrahedron_eq_of_corner_eq (ht : n.IsCell t.1) (ht' : n.IsCell t'.1)
    (h : n.corner t.1 t.2 = n.corner t'.1 t'.2) : t = t' := by
  have hsteps : ∀ i, t.1 + t.2.corner i = t'.1 + t'.2.corner i := by
    intro i
    exact steps_eq_of_corner_eq ht ht' (congrFun h i)
  -- every route begins where the cell does
  have hzero : ∀ r : Route, r.corner 0 = 0 := by decide
  have hcell : t.1 = t'.1 := by
    have h₀ := hsteps 0
    rwa [hzero, hzero, add_zero, add_zero] at h₀
  have hroute : t.2 = t'.2 := by
    apply eq_of_corner_eq
    intro i
    have hi := hsteps i
    rw [hcell] at hi
    exact add_left_cancel hi
  exact Prod.ext hcell hroute

/-- A tetrahedron is known by one of its faces and the side of the face that it lies on. -/
lemma tetrahedron_eq_of_face_eq (ht : n.IsCell t.1) (ht' : n.IsCell t'.1) {k k' : Fin 4}
    (hright : t.2.facesRight k = t'.2.facesRight k')
    (h : ∀ i, n.corner t.1 t.2 (k.succAbove i) = n.corner t'.1 t'.2 (k'.succAbove i)) : t = t' := by
  have hoffset : ∀ i j, t.2.offset (k.succAbove i) (k.succAbove j) =
      t'.2.offset (k'.succAbove i) (k'.succAbove j) := by
    intro i j
    rw [← offset_corner ht, ← offset_corner ht', h i, h j]
  obtain ⟨hroute, rfl⟩ := eq_of_face_eq t.2 t'.2 k k' hright (hoffset 0 1) (hoffset 0 2)
  have hcell : t.1 = t'.1 := by
    have h₀ := steps_eq_of_corner_eq ht ht' (h 0)
    rw [hroute] at h₀
    exact add_right_cancel h₀
  exact Prod.ext hcell hroute

/-- A side lies in one tetrahedron only. -/
lemma tetrahedron_eq_of_mem_sides (ht : n.IsCell t.1) (ht' : n.IsCell t'.1)
    (hd : d ∈ (n.pieceIn inside t).sides) (hd' : d ∈ (n.pieceIn inside t').sides) : t = t' := by
  have hmono := corner_strictMono ht t.2
  have hmono' := corner_strictMono ht' t'.2
  have hface := fun k : Fin 4 => hmono.comp (Fin.strictMono_succAbove k)
  have hface' := fun k : Fin 4 => hmono'.comp (Fin.strictMono_succAbove k)
  -- the side touches a face or a whole tetrahedron, and an increasing sequence is known by its
  -- terms
  rcases mem_sides_pieceIn_cases ht hd with ⟨e, he, rfl, -⟩ | ⟨k, u, hu, rfl⟩ <;>
    rcases mem_sides_pieceIn_cases ht' hd' with ⟨e', he', heq, -⟩ | ⟨k', u', hu', heq⟩
  · have hrange := congrArg ends heq
    rw [ends_placed _ he, ends_placed _ he'] at hrange
    exact tetrahedron_eq_of_corner_eq ht ht' ((hmono.range_inj hmono').mp hrange)
  · have hrange := congrArg ends heq
    rw [ends_placed _ he, show placed _ (onFace k' u') = placed (n.corner t'.1 t'.2 ∘ k'.succAbove)
      u' from rfl, ends_placed _ (turn_spans _ _ u' hu')] at hrange
    exact absurd hrange (range_four_ne_range_three hmono.injective (hface' k').injective)
  · have hrange := congrArg ends heq
    rw [ends_placed _ he', show placed _ (onFace k u) =
      placed (n.corner t.1 t.2 ∘ k.succAbove) u from rfl,
      ends_placed _ (turn_spans _ _ u hu)] at hrange
    exact absurd hrange.symm (range_four_ne_range_three hmono'.injective (hface k).injective)
  · have heq' : placed (n.corner t.1 t.2 ∘ k.succAbove) u =
        placed (n.corner t'.1 t'.2 ∘ k'.succAbove) u' := heq
    have hrange := congrArg ends heq'
    rw [ends_placed _ (turn_spans _ _ u hu), ends_placed _ (turn_spans _ _ u' hu')] at hrange
    have hcorners := ((hface k).range_inj (hface' k')).mp hrange
    rw [hcorners] at heq'
    obtain rfl := placed_injective (hface' k').injective heq'
    have hsame := congrFun hcorners
    simp only [Function.comp_apply] at hsame
    simp only [hsame] at hu
    exact tetrahedron_eq_of_face_eq ht ht' (right_eq_of_mem_turns _ _ _ u hu hu') hsame

/-! ## The other side of a face -/

/-- A point in the outer layer of the grid. -/
def OnBorder (n : GridSize) (c : Steps) : Prop :=
  c.1 = 0 ∨ c.1 + 1 = n.x ∨ c.2.1 = 0 ∨ c.2.1 + 1 = n.y ∨ c.2.2 = 0 ∨ c.2.2 + 1 = n.z

variable (hout : ∀ c, n.IsPoint c → n.OnBorder c → inside (n.number c) = false)

include hout in
lemma not_onBorder_of_inside (ht : n.IsCell t.1) {i : Fin 4}
    (hin : inside (n.corner t.1 t.2 i) = true) : ¬ n.OnBorder (t.1 + t.2.corner i) := by
  intro hborder
  have hfalse := hout _ (ht.isPoint t.2 i) hborder
  rw [show n.number (t.1 + t.2.corner i) = n.corner t.1 t.2 i from rfl, hin] at hfalse
  exact absurd hfalse (by decide)

include hout in
/-- A face with a corner inside has a tetrahedron on its other side. -/
lemma exists_across (ht : n.IsCell t.1) (k : Fin 4)
    (hin : ∃ i, inside (n.corner t.1 t.2 (k.succAbove i)) = true) :
    ∃ (t' : Steps × Route) (k' : Fin 4), n.IsCell t'.1 ∧ t'.2.facesRight k' = !t.2.facesRight k ∧
      ∀ i, n.corner t'.1 t'.2 (k'.succAbove i) = n.corner t.1 t.2 (k.succAbove i) := by
  obtain ⟨i, hi⟩ := hin
  have hinner := not_onBorder_of_inside hout ht hi
  have hk : k = 0 ∨ (k = 1 ∨ k = 2) ∨ k = 3 := by omega
  rcases hk with rfl | hk | rfl
  · -- the next cell along the first axis of the route
    obtain ⟨r', hright, e, he, hface⟩ := exists_across_first t.2
    refine ⟨(t.1 + e, r'), 3, ?_, hright, ?_⟩
    · obtain ⟨heq, hzero⟩ := hface i
      rw [heq] at hinner
      simp only [units, mem_cons, not_mem_nil, or_false] at he
      simp only [OnBorder, IsCell, Prod.ext_iff] at hinner ht hzero ⊢
      rcases he with rfl | rfl | rfl <;> simp at hinner hzero ⊢ <;> omega
    · intro j
      show n.number (t.1 + e + r'.corner _) = n.number (t.1 + t.2.corner _)
      rw [(hface j).1, add_assoc]
  · -- another route of the same cell
    obtain ⟨r', hright, hface⟩ := exists_across_inner t.2 k hk
    refine ⟨(t.1, r'), k, ht, hright, ?_⟩
    intro j
    show n.number (t.1 + r'.corner _) = n.number (t.1 + t.2.corner _)
    rw [hface j]
  · -- the cell before along the last axis of the route
    obtain ⟨r', hright, e, he, hface⟩ := exists_across_last t.2
    have hcell : t.1 = t.1 - e + e := by
      obtain ⟨-, hzero⟩ := hface i
      simp only [units, mem_cons, not_mem_nil, or_false] at he
      simp only [OnBorder, IsCell, Prod.ext_iff] at hinner ht hzero ⊢
      rcases he with rfl | rfl | rfl <;> simp at hinner hzero ⊢ <;> omega
    refine ⟨(t.1 - e, r'), 0, ?_, hright, ?_⟩
    · obtain ⟨hx, hy, hz⟩ := ht
      refine ⟨?_, ?_, ?_⟩ <;> simp only [Prod.fst_sub, Prod.snd_sub] <;> omega
    · intro j
      show n.number (t.1 - e + r'.corner _) = n.number (t.1 + t.2.corner _)
      rw [← (hface j).1, ← add_assoc, ← hcell]

include hout in
/-- With every side there is the opposite one. -/
lemma swap_mem_sides (hd : d ∈ n.sides inside) : d.swap ∈ n.sides inside := by
  rw [sides_eq] at hd ⊢
  obtain ⟨t, ht, hdt⟩ := mem_flatMap.mp hd
  rw [mem_flatMap]
  have hcell := mem_tetrahedronList.mp ht
  rcases mem_sides_pieceIn_cases hcell hdt with ⟨e, -, -, hswap⟩ | ⟨k, u, hu, rfl⟩
  · exact ⟨t, ht, hswap⟩
  · -- the tetrahedron behind the face crosses it as well, the other way round
    obtain ⟨t', k', hcell', hright, hface⟩ :=
      exists_across hout hcell k (exists_inside_of_mem_turns _ _ u hu)
    have hu' := swap_mem_turns _ _ u hu
    rw [← hright] at hu'
    simp only [← hface] at hu'
    refine ⟨t', mem_tetrahedronList.mpr hcell', ?_⟩
    have hmem := onFace_mem_sides_pieceIn hcell' hu'
    have hcorners : n.corner t'.1 t'.2 ∘ k'.succAbove = n.corner t.1 t.2 ∘ k.succAbove :=
      funext hface
    have hsame : placed (n.corner t'.1 t'.2) (onFace k' u.swap)
        = (placed (n.corner t.1 t.2) (onFace k u)).swap := by
      show placed (n.corner t'.1 t'.2 ∘ k'.succAbove) u.swap =
        (placed (n.corner t.1 t.2 ∘ k.succAbove) u).swap
      rw [hcorners]
      rfl
    rw [← hsame]
    exact hmem

lemma sides_nodup (n : GridSize) (inside : Nat → Bool) : (n.sides inside).Nodup := by
  rw [sides_eq, nodup_flatMap]
  constructor
  · intro t ht
    exact sides_pieceIn_nodup (mem_tetrahedronList.mp ht)
  · apply tetrahedronList_nodup.pairwise_of_forall_ne
    intro t ht t' ht' hne d hd hd'
    exact hne
      (tetrahedron_eq_of_mem_sides (mem_tetrahedronList.mp ht) (mem_tetrahedronList.mp ht') hd hd')

include hout in
/-- A surface that keeps away from the border of the grid has none of its own. -/
lemma surface_count {S : Type} (vertex : GridEdge → Vertex S) :
    ∀ e ∈ (n.surface inside vertex).edges,
    (n.surface inside vertex).edges.count e = 1 ∧
      (n.surface inside vertex).edges.count e.swap = 1 := by
  apply Mesh.count_eq_one_of_nodup
  · exact surface_edges_nodup vertex (sides_nodup n inside)
  · exact surface_swap_mem vertex fun d hd => swap_mem_sides hout hd

omit hout in
lemma sections_congr {inside' : Nat → Bool}
    (h : ∀ c, n.IsPoint c → inside' (n.number c) = inside (n.number c)) :
    n.sections inside' = n.sections inside := by
  rw [sections_eq, sections_eq]
  apply map_congr_left
  intro t ht
  have hcell := mem_tetrahedronList.mp ht
  have hsigns : (fun i => inside' (n.corner t.1 t.2 i)) = fun i => inside (n.corner t.1 t.2 i) := by
    funext i
    exact h _ (hcell.isPoint t.2 i)
  rw [pieceIn, pieceIn, cut_corner hcell, cut_corner hcell, hsigns]

end GridSize

/-- Whether the sample of a point is negative. -/
def negative {S : Type} [Scalar S] (samples : Array S) (i : Nat) : Bool :=
  (samples.map fun d => decide (d < 0)).getD i false

lemma negative_eq {S : Type} [Scalar S] (samples : Array S) (i : Nat) :
    negative samples i = (samples[i]?.map fun d => decide (d < 0)).getD false := by
  rw [negative, Array.getD_eq_getD_getElem?, Array.getElem?_map]

/-- **Extraction closes the surface.** If no sample on the border of the grid is negative, the mesh
is empty, or it is a closed manifold: each directed edge and its reverse belong to one triangle
each. The triangles are the same for all samples with the same signs, whatever the places and
normals of the vertices. -/
theorem GridSize.extract_isClosed {S T : Type} [Scalar S] [Scalar T] (n : GridSize)
    (samples : Array S) (vertex : GridEdge → Vertex S)
    (hborder : ∀ c, n.IsPoint c → n.OnBorder c → negative samples (n.number c) = false) :
    ((n.extract samples vertex).isEmpty = true ∨
      ((n.extract samples vertex).isClosed = true ∧
        ∀ e ∈ (n.extract samples vertex).edges,
          (n.extract samples vertex).edges.count e = 1 ∧
          (n.extract samples vertex).edges.count e.swap = 1)) ∧
    ∀ (samples' : Array T) (vertex' : GridEdge → Vertex T),
      (∀ c, n.IsPoint c → negative samples' (n.number c) = negative samples (n.number c)) →
      (n.extract samples' vertex').triangles = (n.extract samples vertex).triangles := by
  constructor
  · by_cases hempty : (n.extract samples vertex).isEmpty = true
    · exact Or.inl hempty
    · have hcount := surface_count hborder vertex
      exact Or.inr ⟨Mesh.isClosed_of_count _ (Bool.eq_false_iff.mpr hempty) hcount, hcount⟩
  · intro samples' vertex' hsigns
    -- vertices are put into the mesh but never looked at, and samples are looked at for their signs
    -- only
    show (n.surface (negative samples') vertex').triangles =
      (n.surface (negative samples) vertex).triangles
    rw [surface_triangles_eq n (negative samples') vertex' vertex, surface_eq_foldl,
      surface_eq_foldl, sections_congr hsigns]

/-- Whole numbers as scalars, for grids that can be written down. -/
@[reducible] def wholeScalar : Scalar Int where
  zero := 0
  one := 1
  ofScientific m _ _ := m
  decLt a b := inferInstanceAs (Decidable (a < b))
  decLe a b := inferInstanceAs (Decidable (a ≤ b))
  ofCount := Int.ofNat
  ceilCount := Int.toNat
  sqrt a := (Nat.sqrt a.toNat : Int)
  abs a := a.natAbs
  infinity := 0
  isFinite _ := true

/-- A grid of three points along each axis, of which the middle one alone is inside. -/
def middleSamples : Array Int :=
  #[1, 1, 1, 1, 1, 1, 1, 1, 1, 1, 1, 1, 1, -1, 1, 1, 1, 1, 1, 1, 1, 1, 1, 1, 1, 1, 1]

/-- The surface around the middle point of a small grid is closed. -/
theorem GridSize.extract_isClosed_middle :
    (∀ c, IsPoint ⟨3, 3, 3⟩ c → OnBorder ⟨3, 3, 3⟩ c →
      @negative Int wholeScalar middleSamples (number ⟨3, 3, 3⟩ c) = false) ∧
    ∀ vertex : GridEdge → Vertex Int,
      (@extract Int wholeScalar ⟨3, 3, 3⟩ middleSamples vertex).isEmpty = true ∨
        (@extract Int wholeScalar ⟨3, 3, 3⟩ middleSamples vertex).isClosed = true := by
  have hborder : ∀ c, IsPoint ⟨3, 3, 3⟩ c → OnBorder ⟨3, 3, 3⟩ c →
      @negative Int wholeScalar middleSamples (number ⟨3, 3, 3⟩ c) = false := by
    rintro ⟨x, y, z⟩ ⟨hx, hy, hz⟩ hc
    simp only [OnBorder] at hx hy hz hc
    rw [@negative_eq Int wholeScalar]
    -- the only point with a negative sample is not on the border
    have hmiddle : ¬ (x = 1 ∧ y = 1 ∧ z = 1) := by omega
    interval_cases x <;> interval_cases y <;> interval_cases z <;> revert hmiddle <;> decide
  refine ⟨hborder, ?_⟩
  intro vertex
  have h :=
    (@extract_isClosed Int Int wholeScalar wholeScalar ⟨3, 3, 3⟩ middleSamples vertex
      hborder).1
  exact h.imp id And.left

end SolidScript
