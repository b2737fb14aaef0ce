import Mathlib.LinearAlgebra.UnitaryGroup
import SolidScript.Proofs.Geometry.Distances

/-!
# Moved shapes

A moved shape has at a point the distance that the shape has at the point moved back. Flat shapes
are moved inside their plane: there, moving goes together with dropping the third coordinate.
-/

namespace SolidScript

open Exact Vec3

/-- Points are moved `forth` and `back`, in the plane if the shape is flat. -/
structure Motion (dim : Dimension) (back forth : Vec3 ℝ → Vec3 ℝ) : Prop where
  forth_back : ∀ p, forth (back p) = p
  back_forth : ∀ p, back (forth p) = p
  back_place : ∀ p, back (dim.place p) = dim.place (back p)

namespace Motion

variable {dim : Dimension} {back forth : Vec3 ℝ → Vec3 ℝ} (h : Motion dim back forth)

include h

lemma forth_place_back (p : Vec3 ℝ) : forth (dim.place (back p)) = dim.place p := by
  rw [← h.back_place, h.forth_back]

lemma forth_place (p : Vec3 ℝ) : forth (dim.place p) = dim.place (forth p) := by
  have hback := h.forth_place_back (forth p)
  rwa [h.back_forth] at hback

end Motion

/-! ## Translations, scalings and mirrors -/

variable {n : Vec3 ℝ}

section

variable {dim : Dimension}

lemma motion_translate {offset : Vec3 ℝ} (h : dim = .flat → offset.z = 0) :
    Motion dim (· - offset) (· + offset) where
  forth_back p := by
    show mk (p.x - offset.x + offset.x) (p.y - offset.y + offset.y)
      (p.z - offset.z + offset.z) = p
    simp only [sub_add_cancel]
  back_forth p := by
    show mk (p.x + offset.x - offset.x) (p.y + offset.y - offset.y)
      (p.z + offset.z - offset.z) = p
    simp only [add_sub_cancel_right]
  back_place p := by
    cases dim with
    | flat =>
      show mk _ _ (0 - offset.z) = _
      rw [h rfl, sub_zero]
      rfl
    | solid => rfl

/-- Scalings are motions unless a factor is zero. -/
lemma motion_scale {factor : Vec3 ℝ} (hx : factor.x ≠ 0) (hy : factor.y ≠ 0) (hz : factor.z ≠ 0) :
    Motion dim (·.divide factor) (·.times factor) where
  forth_back p := by
    show mk (p.x / factor.x * factor.x) (p.y / factor.y * factor.y)
      (p.z / factor.z * factor.z) = p
    rw [div_mul_cancel₀ _ hx, div_mul_cancel₀ _ hy, div_mul_cancel₀ _ hz]
  back_forth p := by
    show mk (p.x * factor.x / factor.x) (p.y * factor.y / factor.y)
      (p.z * factor.z / factor.z) = p
    rw [mul_div_cancel_right₀ _ hx, mul_div_cancel_right₀ _ hy, mul_div_cancel_right₀ _ hz]
  back_place p := by
    cases dim with
    | flat =>
      show mk _ _ (0 / factor.z) = _
      rw [zero_div]
      rfl
    | solid => rfl

/-- A vector of length one. -/
def Vec3.IsUnit (n : Vec3 ℝ) : Prop := n.x ^ 2 + n.y ^ 2 + n.z ^ 2 = 1

/-- A mirror undoes itself. -/
lemma Vec3.reflect_reflect (h : n.IsUnit) (p : Vec3 ℝ) : (p.reflect n).reflect n = p := by
  unfold IsUnit at h
  rw [(p.reflect n).reflect_eq, p.reflect_eq]
  obtain ⟨x, y, z⟩ := p
  simp only [mk.injEq]
  set t := x * n.x + y * n.y + z * n.z with ht
  have hflip : (x - n.x * (2 * t)) * n.x + (y - n.y * (2 * t)) * n.y + (z - n.z * (2 * t)) * n.z =
      -t := by
    linear_combination ht - 2 * t * h
  rw [hflip]
  refine ⟨?_, ?_, ?_⟩ <;> ring

lemma motion_mirror (hn : n.IsUnit) (h : dim = .flat → n.z = 0) :
    Motion dim (·.reflect n) (·.reflect n) where
  forth_back := reflect_reflect hn
  back_forth := reflect_reflect hn
  back_place p := by
    cases dim with
    | flat =>
      dsimp only [Dimension.place]
      rw [reflect_eq, reflect_eq, h rfl]
      simp only [mul_zero, zero_mul, add_zero, sub_zero]
    | solid => rfl

end

/-! ## Turns -/

namespace Rotation

/-- The matrix of a rotation. -/
def matrix (r : Rotation ℝ) : Matrix (Fin 3) (Fin 3) ℝ :=
  !![r.col1.x, r.col2.x, r.col3.x; r.col1.y, r.col2.y, r.col3.y; r.col1.z, r.col2.z, r.col3.z]

lemma apply_eq (r : Rotation ℝ) (p : Vec3 ℝ) :
    r.apply p =
    ⟨r.col1.x * p.x + r.col2.x * p.y + r.col3.x * p.z,
      r.col1.y * p.x + r.col2.y * p.y + r.col3.y * p.z,
      r.col1.z * p.x + r.col2.z * p.y + r.col3.z * p.z⟩ := rfl

lemma unapply_eq (r : Rotation ℝ) (p : Vec3 ℝ) :
    r.unapply p =
    ⟨r.col1.x * p.x + r.col1.y * p.y + r.col1.z * p.z,
      r.col2.x * p.x + r.col2.y * p.y + r.col2.z * p.z,
      r.col3.x * p.x + r.col3.y * p.y + r.col3.z * p.z⟩ := rfl

/-- The rotation that turns back. -/
def transpose (r : Rotation ℝ) : Rotation ℝ :=
  ⟨⟨r.col1.x, r.col2.x, r.col3.x⟩, ⟨r.col1.y, r.col2.y, r.col3.y⟩, ⟨r.col1.z, r.col2.z, r.col3.z⟩⟩

/-- Lengths are kept. -/
def IsOrthogonal (r : Rotation ℝ) : Prop := r.matrix ∈ Matrix.orthogonalGroup (Fin 3) ℝ

/-- Points of the plane stay in the plane. -/
def IsLevel (r : Rotation ℝ) : Prop := r.col1.z = 0 ∧ r.col2.z = 0

namespace IsOrthogonal

variable {r : Rotation ℝ} (h : r.IsOrthogonal)

include h

/-- The rows of the matrix have length one and are orthogonal. -/
lemma rows :
    (r.col1.x * r.col1.x + r.col2.x * r.col2.x + r.col3.x * r.col3.x = 1 ∧
      r.col1.y * r.col1.y + r.col2.y * r.col2.y + r.col3.y * r.col3.y = 1 ∧
      r.col1.z * r.col1.z + r.col2.z * r.col2.z + r.col3.z * r.col3.z = 1) ∧
    r.col1.x * r.col1.y + r.col2.x * r.col2.y + r.col3.x * r.col3.y = 0 ∧
      r.col1.x * r.col1.z + r.col2.x * r.col2.z + r.col3.x * r.col3.z = 0 ∧
      r.col1.y * r.col1.z + r.col2.y * r.col2.z + r.col3.y * r.col3.z = 0 := by
  have hmul (i j : Fin 3) :=
    congrFun (congrFun (Matrix.mem_orthogonalGroup_iff (Fin 3) ℝ |>.mp h) i) j
  simp only [Matrix.mul_apply, Fin.sum_univ_three, matrix] at hmul
  exact ⟨⟨hmul 0 0, hmul 1 1, hmul 2 2⟩, hmul 0 1, hmul 0 2, hmul 1 2⟩

/-- A turn back is undone by the turn. -/
lemma apply_unapply (p : Vec3 ℝ) : r.apply (r.unapply p) = p := by
  obtain ⟨⟨hx, hy, hz⟩, hxy, hxz, hyz⟩ := h.rows
  obtain ⟨x, y, z⟩ := p
  rw [r.apply_eq, r.unapply_eq, Vec3.mk.injEq]
  refine ⟨?_, ?_, ?_⟩ <;> dsimp only
  · linear_combination x * hx + y * hxy + z * hxz
  · linear_combination x * hxy + y * hy + z * hyz
  · linear_combination x * hxz + y * hyz + z * hz

lemma transpose : r.transpose.IsOrthogonal := by
  have hmatrix : r.transpose.matrix = r.matrix.transpose := by
    ext i j
    fin_cases i <;> fin_cases j <;> rfl
  rw [IsOrthogonal, hmatrix, Matrix.mem_orthogonalGroup_iff, Matrix.transpose_transpose]
  exact Matrix.mem_orthogonalGroup_iff' (Fin 3) ℝ |>.mp h

/-- And the other way round. -/
lemma unapply_apply (p : Vec3 ℝ) : r.unapply (r.apply p) = p := h.transpose.apply_unapply p

/-- A turn that keeps the plane keeps the third axis. -/
lemma col3_of_isLevel (hlevel : r.IsLevel) : r.col3.x = 0 ∧ r.col3.y = 0 := by
  obtain ⟨⟨-, -, hz⟩, -, hxz, hyz⟩ := h.rows
  rw [hlevel.1, hlevel.2] at hz hxz hyz
  -- the third row has length one, and nothing else is left of it
  have hne : r.col3.z ≠ 0 := by
    intro h0
    rw [h0] at hz
    linarith
  constructor
  · exact (mul_eq_zero.mp (by linarith : r.col3.x * r.col3.z = 0)).resolve_right hne
  · exact (mul_eq_zero.mp (by linarith : r.col3.y * r.col3.z = 0)).resolve_right hne

lemma motion {dim : Dimension} (hlevel : dim = .flat → r.IsLevel) :
    Motion dim r.unapply r.apply where
  forth_back := h.apply_unapply
  back_forth := h.unapply_apply
  back_place p := by
    cases dim with
    | flat =>
      obtain ⟨h1, h2⟩ := hlevel rfl
      obtain ⟨h3x, h3y⟩ := h.col3_of_isLevel ⟨h1, h2⟩
      dsimp only [Dimension.place]
      rw [r.unapply_eq, r.unapply_eq, h1, h2, h3x, h3y]
      simp only [zero_mul, mul_zero, add_zero]
    | solid => rfl

end IsOrthogonal

end Rotation

/-! ## Lengths -/

section

variable (p q : Vec3 ℝ)

/-- Translations keep distances. -/
lemma Vec3.gapSq_add (offset : Vec3 ℝ) : (p + offset).gapSq (q + offset) = p.gapSq q := by
  show (p.x + offset.x - (q.x + offset.x)) ^ 2 + (p.y + offset.y - (q.y + offset.y)) ^ 2 +
    (p.z + offset.z - (q.z + offset.z)) ^ 2 = _
  simp only [add_sub_add_right_eq_sub]
  rfl

/-- So do mirrors. -/
lemma Vec3.gapSq_reflect (h : n.IsUnit) : (p.reflect n).gapSq (q.reflect n) = p.gapSq q := by
  unfold Vec3.IsUnit at h
  rw [p.reflect_eq, q.reflect_eq]
  set t := (p.x - q.x) * n.x + (p.y - q.y) * n.y + (p.z - q.z) * n.z
  unfold gapSq
  dsimp only
  linear_combination 4 * t ^ 2 * h

/-- And so do rotations. -/
lemma Rotation.IsOrthogonal.gapSq_apply {r : Rotation ℝ} (h : r.IsOrthogonal) :
    (r.apply p).gapSq (r.apply q) = p.gapSq q := by
  obtain ⟨⟨h1, h2, h3⟩, h12, h13, h23⟩ := h.transpose.rows
  dsimp only [Rotation.transpose] at h1 h2 h3 h12 h13 h23
  set x := p.x - q.x with hx
  set y := p.y - q.y with hy
  set z := p.z - q.z with hz
  rw [r.apply_eq, r.apply_eq]
  unfold gapSq
  rw [← hx, ← hy, ← hz]
  dsimp only
  linear_combination x ^ 2 * h1 + y ^ 2 * h2 + z ^ 2 * h3 + 2 * x * y * h12 +
    2 * x * z * h13 + 2 * y * z * h23

end

/-! ## Shapes -/

namespace Shape

/-- A shape is another one, moved: distances are those at the point moved back, stretched by a
factor, and the points of the box are in the new box when they are moved forth. -/
structure IsMoved (s inner : Shape ℝ) (back forth : Vec3 ℝ → Vec3 ℝ) (c : ℝ) : Prop where
  pos : 0 < c
  dimension : s.dimension = inner.dimension
  motion : Motion inner.dimension back forth
  distance : ∀ p, s.exact.distance p.exact = inner.exact.distance (back p).exact * (c : Exact)
  mem : ∀ q, q.exact ∈ inner.exact.bounds → (forth q).exact ∈ s.exact.bounds

/-- Sizes are not negative, no factor is zero, turns and mirrors keep lengths, and in flat parts
they and the translations stay in the plane. -/
def Regular : Shape ℝ → Prop
  | sphere r | circle r => 0 ≤ r
  | box half => 0 ≤ half.x ∧ 0 ≤ half.y ∧ 0 ≤ half.z
  | frustum r1 r2 h => 0 ≤ r1 ∧ 0 ≤ r2 ∧ 0 ≤ h
  | rectangle half => 0 ≤ half.x ∧ 0 ≤ half.y
  | text _ _ glyphs => ∀ g ∈ glyphs, 0 ≤ g.half.x ∧ 0 ≤ g.half.y
  | union a b _ | difference a b _ | intersection a b _ | blend a b _ => a.Regular ∧ b.Regular
  | translate inner offset => inner.Regular ∧ (inner.dimension = .flat → offset.z = 0)
  | rotate inner r => inner.Regular ∧ r.IsOrthogonal ∧ (inner.dimension = .flat → r.IsLevel)
  | scale inner factor => inner.Regular ∧ factor.x ≠ 0 ∧ factor.y ≠ 0 ∧ factor.z ≠ 0
  | mirror inner n => inner.Regular ∧ n.IsUnit ∧ (inner.dimension = .flat → n.z = 0)
  | extrude inner h => inner.Regular ∧ 0 ≤ h
  | shell inner _ => inner.Regular

variable {inner : Shape ℝ}

lemma isMoved_translate {offset : Vec3 ℝ} (h : (translate inner offset).Regular) :
    (translate inner offset).IsMoved inner (· - offset) (· + offset) 1 where
  pos := one_pos
  dimension := rfl
  motion := motion_translate h.2
  distance _ := (mul_coe_one _).symm
  mem _ hq := mem_bounds_translate hq offset

lemma isMoved_rotate {r : Rotation ℝ} (h : (rotate inner r).Regular) :
    (rotate inner r).IsMoved inner r.unapply r.apply 1 where
  pos := one_pos
  dimension := rfl
  motion := h.2.1.motion h.2.2
  distance _ := (mul_coe_one _).symm
  mem _ hq := mem_bounds_rotate hq r

lemma isMoved_mirror (h : (mirror inner n).Regular) :
    (mirror inner n).IsMoved inner (·.reflect n) (·.reflect n) 1 where
  pos := one_pos
  dimension := rfl
  motion := motion_mirror h.2.1 h.2.2
  distance _ := (mul_coe_one _).symm
  mem _ hq := mem_bounds_mirror hq n

lemma isMoved_scale {factor : Vec3 ℝ} (h : (scale inner factor).Regular) :
    (scale inner factor).IsMoved inner (·.divide factor) (·.times factor)
      (min (min |factor.x| |factor.y|) |factor.z|) where
  pos := lt_min (lt_min (abs_pos.mpr h.2.1) (abs_pos.mpr h.2.2.1)) (abs_pos.mpr h.2.2.2)
  dimension := rfl
  motion := motion_scale h.2.1 h.2.2.1 h.2.2.2
  distance p := by
    have hdivide : p.exact.divide (factor.map Exact.real) = (p.divide factor).exact := by
      show mk ((p.x : Exact) / factor.x) ((p.y : Exact) / factor.y)
        ((p.z : Exact) / factor.z) = _
      rw [div_coe _ h.2.1, div_coe _ h.2.2.1, div_coe _ h.2.2.2]
      rfl
    show inner.exact.distance (p.exact.divide (factor.map Exact.real)) *
      Scalar.lower (Scalar.lower ((|factor.x| : ℝ) : Exact) (|factor.y| : ℝ)) (|factor.z| : ℝ) = _
    rw [hdivide, lower_coe, lower_coe]
  mem _ hq := mem_bounds_scale hq factor

end Shape

end SolidScript
