import SolidScript.Proofs.Geometry.Exact

/-!
# Planes that cut a tetrahedron

The corners of a tetrahedron have values, and each of its edges is crossed where the value would
vanish if it changed evenly. Three crossings span a plane, and how high the corners are above it is
proportional to their values, by a factor whose sign is that of the volume of the tetrahedron. The
three edges have a corner in common, or they follow one another.
-/

namespace SolidScript

open Vec3

/-! ## Vectors by coordinates -/

namespace Vec3

variable (a b : Vec3 ℝ) (s : ℝ)

@[ext] lemma ext_of {a b : Vec3 ℝ} (hx : a.x = b.x) (hy : a.y = b.y) (hz : a.z = b.z) : a = b := by
  cases a
  cases b
  simp_all

@[simp] lemma add_x : (a + b).x = a.x + b.x := rfl
@[simp] lemma add_y : (a + b).y = a.y + b.y := rfl
@[simp] lemma add_z : (a + b).z = a.z + b.z := rfl
@[simp] lemma sub_x : (a - b).x = a.x - b.x := rfl
@[simp] lemma sub_y : (a - b).y = a.y - b.y := rfl
@[simp] lemma sub_z : (a - b).z = a.z - b.z := rfl
@[simp] lemma scale_x : (a.scale s).x = a.x * s := rfl
@[simp] lemma scale_y : (a.scale s).y = a.y * s := rfl
@[simp] lemma scale_z : (a.scale s).z = a.z * s := rfl
@[simp] lemma cross_x : (a.cross b).x = a.y * b.z - a.z * b.y := rfl
@[simp] lemma cross_y : (a.cross b).y = a.z * b.x - a.x * b.z := rfl
@[simp] lemma cross_z : (a.cross b).z = a.x * b.y - a.y * b.x := rfl

lemma dot_eq : a.dot b = a.x * b.x + a.y * b.y + a.z * b.z := rfl

lemma add_sub_cancel : a + (b - a) = b := by ext <;> simp

/-- The signed volume that three vectors span. -/
noncomputable def volume (u v w : Vec3 ℝ) : ℝ := u.dot (v.cross w)

lemma volume_eq (u v w : Vec3 ℝ) :
    volume u v w = u.x * (v.y * w.z - v.z * w.y) + u.y * (v.z * w.x - v.x * w.z) + u.z *
      (v.x * w.y - v.y * w.x) := rfl

/-- Turned over, a triangle has the opposite normal. -/
lemma cross_dot_swap (u v w : Vec3 ℝ) : (v.cross u).dot w = -(u.cross v).dot w := by
  simp only [dot_eq, cross_x, cross_y, cross_z]
  ring

end Vec3

/-- Heights over the plane through three points on the edges of a tetrahedron. -/
lemma heights (o u v w : Vec3 ℝ) (x y z t : ℝ) :
    let X := o + u.scale x
    let n := (o + v.scale y - X).cross (o + (w.scale z + v.scale t) - X)
    n.dot (o - X) = volume u v w * -(x * y * z) ∧
      n.dot (o + u - X) = volume u v w * (y * z - x * y * z) ∧
      n.dot (o + v - X) = volume u v w * (x * z - x * y * z) ∧
      n.dot (o + w - X) = volume u v w * (x * (y - t) - x * y * z) := by
  dsimp only
  simp only [dot_eq, volume_eq, cross_x, cross_y, cross_z, sub_x, sub_y, sub_z,
    add_x, add_y, add_z, scale_x, scale_y, scale_z]
  refine ⟨?_, ?_, ?_, ?_⟩ <;> ring

/-! ## Crossings -/

section

variable {α : Type} (place : α → Vec3 ℝ) (value : α → ℝ)

/-- Where the value would vanish between two places if it changed evenly. -/
noncomputable def crossPoint (a b : α) : Vec3 ℝ :=
  place a + (place b - place a).scale (value a / (value a - value b))

variable {value} in
lemma crossPoint_comm {a b : α} (h : value a ≠ value b) :
    crossPoint place value a b = crossPoint place value b a := by
  have hab : value a - value b ≠ 0 := sub_ne_zero.mpr h
  have hba : value b - value a ≠ 0 := sub_ne_zero.mpr h.symm
  ext <;> simp only [crossPoint, add_x, add_y, add_z, sub_x, sub_y, sub_z, scale_x,
    scale_y, scale_z] <;> field_simp <;> ring

variable {value} in
lemma crossPoint_of_zero {a : α} (h : value a = 0) (b : α) :
    crossPoint place value a b = place a := by
  ext <;> simp [crossPoint, h]

lemma crossPoint_neg (a b : α) :
    crossPoint place (fun c => -value c) a b = crossPoint place value a b := by
  rw [crossPoint, crossPoint, neg_sub_neg, ← neg_sub, neg_div_neg_eq]

/-- Two of three points coincide with another one. -/
def Pinched (X Y Z p : Vec3 ℝ) : Prop := X = p ∧ Y = p ∨ X = p ∧ Z = p ∨ Y = p ∧ Z = p

/-- The normal that a triangle has by its winding points from the corners with negative values to
the others: the first ones are not above the plane of the triangle, and the others are not below.
There is no normal only if two corners of the triangle have moved into a corner with the value
zero. -/
structure FacesOutward (corners : List α) (X Y Z : Vec3 ℝ) : Prop where
  negative (c : α) (hc : c ∈ corners) (hvalue : value c < 0) :
    ((Y - X).cross (Z - X)).dot (place c - X) ≤ 0
  other (c : α) (hc : c ∈ corners) (hvalue : 0 ≤ value c) :
    0 ≤ ((Y - X).cross (Z - X)).dot (place c - X)
  degenerate (hzero : (Y - X).cross (Z - X) = .splat 0) :
    ∃ c ∈ corners, value c = 0 ∧ Pinched X Y Z (place c)

/-- The heights of corners above the plane of a triangle are proportional to their values, by a
factor with the sign of `V`, or zero. -/
def Leans (corners : List α) (V : ℝ) (X Y Z : Vec3 ℝ) : Prop :=
  ∃ A : ℝ, 0 ≤ A ∧ (∀ c ∈ corners, ((Y - X).cross (Z - X)).dot (place c - X) = A * V * value c) ∧
    (A = 0 → ∃ c ∈ corners, value c = 0 ∧ Pinched X Y Z (place c))

variable {place value} {corners : List α} {V : ℝ} {X Y Z : Vec3 ℝ}

/-- The order of the corners does not matter. -/
lemma Leans.congr (h : Leans place value corners V X Y Z) {corners' : List α}
    (hperm : corners.Perm corners') : Leans place value corners' V X Y Z := by
  obtain ⟨A, hA, hheight, hpinched⟩ := h
  refine ⟨A, hA, ?_, ?_⟩
  · intro c hc
    exact hheight c (hperm.mem_iff.mpr hc)
  · intro hzero
    obtain ⟨c, hc, hp⟩ := hpinched hzero
    exact ⟨c, hperm.mem_iff.mp hc, hp⟩

/-- A triangle turned over leans the other way. -/
lemma Leans.flip (h : Leans place value corners V X Y Z) :
    Leans place value corners (-V) X Z Y := by
  obtain ⟨A, hA, hheight, hpinched⟩ := h
  refine ⟨A, hA, ?_, ?_⟩
  · intro c hc
    rw [cross_dot_swap, hheight c hc]
    ring
  · intro hzero
    obtain ⟨c, hc, hvalue, hp⟩ := hpinched hzero
    refine ⟨c, hc, hvalue, ?_⟩
    unfold Pinched at hp ⊢
    tauto

/-- Seen from the other side, all values change their signs. -/
lemma Leans.neg (h : Leans place (fun c => -value c) corners V X Y Z) :
    Leans place value corners (-V) X Y Z := by
  obtain ⟨A, hA, hheight, hpinched⟩ := h
  refine ⟨A, hA, fun c hc => (hheight c hc).trans (by ring), fun hzero => ?_⟩
  obtain ⟨c, hc, hvalue, hp⟩ := hpinched hzero
  exact ⟨c, hc, neg_eq_zero.mp hvalue, hp⟩

/-- A triangle that leans towards positive values faces outward. -/
lemma Leans.facesOutward (h : Leans place value corners V X Y Z) (hV : 0 < V)
    (hneg : ∃ c ∈ corners, value c < 0) : FacesOutward place value corners X Y Z := by
  obtain ⟨A, hA, hheight, hpinched⟩ := h
  have hfactor : 0 ≤ A * V := mul_nonneg hA hV.le
  constructor
  case negative =>
    intro c hc hvalue
    rw [hheight c hc]
    exact mul_nonpos_of_nonneg_of_nonpos hfactor hvalue.le
  case other =>
    intro c hc hvalue
    rw [hheight c hc]
    exact mul_nonneg hfactor hvalue
  case degenerate =>
    -- without a normal there are no heights, also not at a corner with a negative value
    intro hzero
    obtain ⟨c, hc, hvalue⟩ := hneg
    have hnone := hheight c hc
    rw [hzero] at hnone
    have hprod : A * V * value c = 0 := by
      rw [← hnone, dot_eq]
      show (0 : ℝ) * _ + 0 * _ + 0 * _ = 0
      ring
    have hAV := (mul_eq_zero.mp hprod).resolve_right hvalue.ne
    exact hpinched ((mul_eq_zero.mp hAV).resolve_right hV.ne')

end

/-! ## Triangles of crossings -/

section

variable {α : Type} {place : α → Vec3 ℝ} {value : α → ℝ}

/-- The volume of a tetrahedron by its corners. -/
noncomputable def tetVolume (place : α → Vec3 ℝ) (o p q r : α) : ℝ :=
  Vec3.volume (place p - place o) (place q - place o) (place r - place o)

/-- The volume by two opposite edges and one between them. -/
lemma tetVolume_opposite (place : α → Vec3 ℝ) (a b c d : α) :
    tetVolume place a c d b = volume (place d - place c) (place b - place a)
      (place c - place a) := by
  simp only [tetVolume, volume_eq, sub_x, sub_y, sub_z]
  ring

lemma tetVolume_trade (place : α → Vec3 ℝ) (a b c d : α) :
    tetVolume place c a b d = tetVolume place a c d b := by
  simp only [tetVolume, volume_eq, sub_x, sub_y, sub_z]
  ring

/-- The heights above a plane are proportional to values if the shares at which it crosses the edges
are. -/
lemma heights_of_shares {o p q r : α} {x y z t k : ℝ} {X Y Z : Vec3 ℝ}
    (hX : X = place o + (place p - place o).scale x)
    (hY : Y = place o + (place q - place o).scale y)
    (hZ : Z = place o + ((place r - place o).scale z + (place q - place o).scale t))
    (ho : -(x * y * z) = k * value o) (hp : y * z - x * y * z = k * value p)
    (hq : x * z - x * y * z = k * value q) (hr : x * (y - t) - x * y * z = k * value r) :
    ∀ c ∈ [o, p, q, r], ((Y - X).cross (Z - X)).dot (place c - X) =
      k * tetVolume place o p q r * value c := by
  obtain ⟨h₀, h₁, h₂, h₃⟩ :=
    heights (place o) (place p - place o) (place q - place o) (place r - place o) x y z t
  rw [add_sub_cancel] at h₁ h₂ h₃
  have hfactor {c : α} {f : ℝ} (hf : f = k * value c) :
      volume (place p - place o) (place q - place o) (place r - place o) * f
        = k * tetVolume place o p q r * value c := by
    rw [hf, tetVolume]
    ring
  subst hX hY hZ
  intro c hc
  simp only [List.mem_cons, List.not_mem_nil, or_false] at hc
  rcases hc with rfl | rfl | rfl | rfl
  · exact h₀.trans (hfactor ho)
  · exact h₁.trans (hfactor hp)
  · exact h₂.trans (hfactor hq)
  · exact h₃.trans (hfactor hr)

/-- Heights above a triangle on three edges with a corner in common. -/
lemma heights_star {o p q r : α} (hp : value o ≠ value p) (hq : value o ≠ value q)
    (hr : value o ≠ value r) :
    ∀ c ∈ [o, p, q, r],
      ((crossPoint place value o q - crossPoint place value o p).cross
        (crossPoint place value o r - crossPoint place value o p)).dot (place c - crossPoint place
        value o p) =
      -value o ^ 2 / ((value o - value p) * (value o - value q) * (value o - value r)) * tetVolume
      place o p q r
        * value c := by
  have hp' : value o - value p ≠ 0 := sub_ne_zero.mpr hp
  have hq' : value o - value q ≠ 0 := sub_ne_zero.mpr hq
  have hr' : value o - value r ≠ 0 := sub_ne_zero.mpr hr
  have hlast : crossPoint place value o r =
      place o + ((place r - place o).scale (value o / (value o - value r)) +
        (place q - place o).scale 0) := by
    ext <;> simp [crossPoint]
  refine heights_of_shares rfl rfl hlast ?_ ?_ ?_ ?_ <;> field_simp <;> ring

/-- Heights above a triangle on three edges that follow one another. -/
lemma heights_path {p q r s : α} (hpq : value q ≠ value p) (hqr : value q ≠ value r)
    (hrs : value r ≠ value s) :
    ∀ c ∈ [q, p, r, s],
      ((crossPoint place value q r - crossPoint place value q p).cross
        (crossPoint place value r s - crossPoint place value q p)).dot (place c - crossPoint place
        value q p) =
      -(value q * value r) / ((value q - value p) * (value q - value r) * (value r - value s))
        * tetVolume place q p r s * value c := by
  have hp' : value q - value p ≠ 0 := sub_ne_zero.mpr hpq
  have hq' : value q - value r ≠ 0 := sub_ne_zero.mpr hqr
  have hr' : value r - value s ≠ 0 := sub_ne_zero.mpr hrs
  -- seen from the corner `q`, the last crossing is between two edges
  have hlast : crossPoint place value r s =
    place q + ((place s - place q).scale (value r / (value r - value s)) +
      (place r - place q).scale (1 - value r / (value r - value s))) := by
    ext <;> simp only [crossPoint, add_x, add_y, add_z, sub_x, sub_y, sub_z, scale_x,
      scale_y, scale_z] <;> ring
  refine heights_of_shares rfl rfl hlast ?_ ?_ ?_ ?_ <;> field_simp <;> ring

variable {o p q r s : α}

/-- Around a corner below the others, the triangle leans as the tetrahedron is oriented, and it
shrinks to that corner if the value there is zero. -/
lemma leans_star (hp : value o < value p) (hq : value o < value q) (hr : value o < value r) :
    Leans place value [o, p, q, r] (tetVolume place o p q r) (crossPoint place value o p)
      (crossPoint place value o q)
      (crossPoint place value o r) := by
  have hneg : (value o - value p) * (value o - value q) * (value o - value r) < 0 :=
    mul_neg_of_pos_of_neg (mul_pos_of_neg_of_neg (sub_neg.mpr hp) (sub_neg.mpr hq)) (sub_neg.mpr hr)
  refine ⟨_, div_nonneg_of_nonpos (neg_nonpos.mpr (sq_nonneg _)) hneg.le,
    heights_star hp.ne hq.ne hr.ne, ?_⟩
  intro hzero
  have hsq := neg_eq_zero.mp ((div_eq_zero_iff.mp hzero).resolve_right hneg.ne)
  have hvalue : value o = 0 := pow_eq_zero_iff two_ne_zero |>.mp hsq
  exact ⟨o, List.mem_cons_self, hvalue,
    .inl ⟨crossPoint_of_zero place hvalue p, crossPoint_of_zero place hvalue q⟩⟩

/-- Around a corner above the others, it leans the other way. -/
lemma leans_star_above (hp : value p < value o) (hq : value q < value o) (hr : value r < value o) :
    Leans place value [o, p, q, r] (-tetVolume place o p q r) (crossPoint place value o p)
      (crossPoint place value o q)
      (crossPoint place value o r) := by
  have h : Leans place (fun c => -value c) _ _ _ _ _ :=
    leans_star (neg_lt_neg hp) (neg_lt_neg hq) (neg_lt_neg hr)
  simpa only [crossPoint_neg] using h.neg

/-- A triangle on edges that go up, down and up again. -/
lemma leans_path (hp : value q < value p) (hr : value q < value r) (hs : value s < value r)
    (hsides : value q * value r ≤ 0) :
    Leans place value [q, p, r, s] (tetVolume place q p r s) (crossPoint place value q p)
      (crossPoint place value q r)
      (crossPoint place value r s) := by
  have hpos : 0 < (value q - value p) * (value q - value r) * (value r - value s) :=
    mul_pos (mul_pos_of_neg_of_neg (sub_neg.mpr hp) (sub_neg.mpr hr)) (sub_pos.mpr hs)
  refine ⟨_, div_nonneg (neg_nonneg.mpr hsides) hpos.le, heights_path hp.ne hr.ne hs.ne',
    fun hzero => ?_⟩
  rcases mul_eq_zero.mp (neg_eq_zero.mp ((div_eq_zero_iff.mp hzero).resolve_right hpos.ne')) with
    hvalue | hvalue
  · exact ⟨q, List.mem_cons_self, hvalue,
      .inl ⟨crossPoint_of_zero place hvalue p, crossPoint_of_zero place hvalue r⟩⟩
  · refine ⟨r, by simp, hvalue, .inr (.inr ⟨?_, crossPoint_of_zero place hvalue s⟩)⟩
    rw [crossPoint_comm place hr.ne, crossPoint_of_zero place hvalue]

/-- A triangle on edges that go down, up and down again. -/
lemma leans_path_above (hp : value p < value q) (hr : value r < value q) (hs : value r < value s)
    (hsides : value q * value r ≤ 0) :
    Leans place value [q, p, r, s] (-tetVolume place q p r s) (crossPoint place value q p)
      (crossPoint place value q r)
      (crossPoint place value r s) := by
  have h : Leans place (fun c => -value c) _ _ _ _ _ :=
    leans_path (neg_lt_neg hp) (neg_lt_neg hr) (neg_lt_neg hs) ((neg_mul_neg _ _).trans_le hsides)
  simpa only [crossPoint_neg] using h.neg

end

end SolidScript
