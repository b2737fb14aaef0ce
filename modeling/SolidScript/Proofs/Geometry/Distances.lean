import SolidScript.Proofs.Geometry.RoundedMin

/-!
# Distances without rounding

Far from a primitive body the distance is at least the distance to the box of the body, and inside
it the point is in the box: some point of the box is no further away than the distance, or is the
point itself. This is more than that the inside is in the box, and it is what is left of the body
when its distance is shifted, as rounded combinations and walls do.
-/

namespace SolidScript

open Vec3 List

/-! ## Joined distances -/

section

variable (a b k : ℝ)

open Exact

/-- Joined distances are rounded minima. -/
lemma smoothUnion_coe : smoothUnion (a : Exact) b k = roundedMin a b k := by
  unfold smoothUnion roundedMin
  simp only [zero_eq_coe, one_eq_coe, half_eq_coe, coe_le_coe, Nat.cast_ofNat]
  split
  · exact min_coe a b
  · rename_i hk
    have hk : k ≠ 0 := (not_le.mp hk).ne'
    have hshare : 1 / 2 * (b - a) / k = (b - a) / (2 * k) := by field_simp
    simp only [sub_coe, mul_coe, div_coe _ hk, add_coe, clamp_coe _ zero_le_one, lerp_coe, hshare]

lemma smoothDifference_coe : smoothDifference (a : Exact) b k = roundedMax a (-b) k := by
  unfold smoothDifference roundedMax
  simp only [zero_eq_coe, one_eq_coe, half_eq_coe, coe_le_coe, Nat.cast_ofNat]
  split
  · exact max_coe a (-b)
  · rename_i hk
    have hk : k ≠ 0 := (not_le.mp hk).ne'
    have hshare : 1 / 2 - 1 / 2 * (a + b) / k = 1 / 2 + (-b - a) / (2 * k) := by
      field_simp
      ring
    simp only [neg_coe, sub_coe, mul_coe, add_coe, div_coe _ hk, clamp_coe _ zero_le_one,
      lerp_coe, hshare]

lemma smoothIntersection_coe : smoothIntersection (a : Exact) b k = roundedMax b a k := by
  unfold smoothIntersection roundedMax
  simp only [zero_eq_coe, one_eq_coe, half_eq_coe, coe_le_coe, Nat.cast_ofNat]
  split
  · rw [max_coe, max_comm]
  · rename_i hk
    have hk : k ≠ 0 := (not_le.mp hk).ne'
    have hshare : 1 / 2 - 1 / 2 * (b - a) / k = 1 / 2 + (a - b) / (2 * k) := by
      field_simp
      ring
    simp only [sub_coe, mul_coe, add_coe, div_coe _ hk, clamp_coe _ zero_le_one, lerp_coe, hshare]

end

/-! ## Lengths -/

open Exact

lemma Vec3.norm_exact (p : Vec3 ℝ) : p.exact.norm = (√(p.x ^ 2 + p.y ^ 2 + p.z ^ 2) : ℝ) := by
  show Scalar.sqrt ((p.x * p.x + p.y * p.y + p.z * p.z : ℝ) : Exact) = _
  rw [← sq, ← sq, ← sq]
  exact sqrt_coe (by positivity)

lemma Vec2.norm_coe (x y : ℝ) : (⟨x, y⟩ : Vec2 Exact).norm = (√(x ^ 2 + y ^ 2) : ℝ) := by
  show Scalar.sqrt ((x * x + y * y : ℝ) : Exact) = _
  rw [← sq, ← sq]
  exact sqrt_coe (by positivity)

lemma boxDistance_coe (p half : Vec3 ℝ) :
    let (qx, qy, qz) := (|p.x| - half.x, |p.y| - half.y, |p.z| - half.z)
    boxDistance p.exact half.exact =
      (√(max qx 0 ^ 2 + max qy 0 ^ 2 + max qz 0 ^ 2) + min (max (max qx qy) qz) 0 : ℝ) := by
  set q : Vec3 ℝ := ⟨|p.x| - half.x, |p.y| - half.y, |p.z| - half.z⟩
  show (upper q.exact ⟨0, 0, 0⟩).norm + Scalar.min q.exact.largest 0 = _
  have hupper : upper q.exact ⟨0, 0, 0⟩ = exact ⟨max q.x 0, max q.y 0, max q.z 0⟩ := by
    show mk (Scalar.upper (q.x : Exact) (0 : ℝ)) (Scalar.upper (q.y : Exact) (0 : ℝ))
      (Scalar.upper (q.z : Exact) (0 : ℝ)) = _
    rw [upper_coe, upper_coe, upper_coe]
    rfl
  have hlargest : q.exact.largest = (max (max q.x q.y) q.z : ℝ) := by
    show Scalar.upper (Scalar.upper (q.x : Exact) q.y) q.z = _
    rw [upper_coe, upper_coe]
  rw [hupper, hlargest, norm_exact, zero_eq_coe, min_coe, add_coe]

lemma rectangleDistance_coe (x y hx hy : ℝ) :
    let (qx, qy) := (|x| - hx, |y| - hy)
    rectangleDistance (⟨x, y⟩ : Vec2 Exact) ⟨hx, hy⟩ =
      (√(max qx 0 ^ 2 + max qy 0 ^ 2) + min (max qx qy) 0 : ℝ) := by
  set u := |x| - hx
  set v := |y| - hy
  show (⟨Scalar.upper (u : Exact) (0 : ℝ), Scalar.upper (v : Exact) (0 : ℝ)⟩ : Vec2 Exact).norm +
    Scalar.min (Scalar.upper (u : Exact) v) (0 : ℝ) = _
  rw [upper_coe, upper_coe, upper_coe, Vec2.norm_coe, min_coe, add_coe]

/-- A quotient that is kept between zero and one, zero where there is none. -/
lemma exists_share (n l : ℝ) : ∃ t : ℝ, 0 ≤ t ∧ t ≤ 1 ∧
    (if (0 : Exact) < l then Scalar.clamp ((n : Exact) / l) 0 1 else 0) = t := by
  split
  · rename_i hl
    have hl : l ≠ 0 := ne_of_gt hl
    refine ⟨max 0 (min 1 (n / l)), le_max_left _ _, max_le zero_le_one (min_le_left _ _), ?_⟩
    rw [div_coe _ hl]
    exact clamp_coe _ zero_le_one
  · exact ⟨0, le_rfl, zero_le_one, rfl⟩

/-- The distance to a frustum goes to a point of a cap, with a radius of `rim`, or to a point of the
flank, a share `t` of the way down. It is negative only between the caps and inside the flank. -/
lemma frustumDistance_coe (p : Vec3 ℝ) (h r1 r2 : ℝ) :
    let ρ := √(p.x ^ 2 + p.y ^ 2)
    ∃ rim t : ℝ, (rim = r1 ∨ rim = r2) ∧ 0 ≤ t ∧ t ≤ 1 ∧
      let cap := (ρ - min ρ rim) ^ 2 + (|p.z| - h) ^ 2
      let flank := (ρ - (r2 - (r2 - r1) * t)) ^ 2 + (p.z - (h - 2 * h * t)) ^ 2
      ∃ d : ℝ, frustumDistance p.exact (h : Exact) r1 r2 = d ∧
        (d = √(min cap flank) ∨ d ≤ 0 ∧ ρ < r2 - (r2 - r1) * t ∧ |p.z| < h) := by
  intro ρ
  have hnorm : p.exact.xy.norm = (ρ : Exact) := Vec2.norm_coe p.x p.y
  obtain ⟨rim, hrim, hrimEq⟩ : ∃ rim : ℝ, (rim = r1 ∨ rim = r2) ∧
      (if (p.z : Exact) < 0 then (r1 : Exact) else r2) = rim := by
    split
    · exact ⟨r1, .inl rfl, rfl⟩
    · exact ⟨r2, .inr rfl, rfl⟩
  obtain ⟨t, ht0, ht1, htEq⟩ :=
    exists_share ((r2 - ρ) * (r2 - r1) + (h - p.z) * (2 * h))
      ((r2 - r1) * (r2 - r1) + 2 * h * (2 * h))
  refine ⟨rim, t, hrim, ht0, ht1, ?_⟩
  intro cap flank
  set e := √(min cap flank)
  have hcap : (ρ - min ρ rim) * (ρ - min ρ rim) + (|p.z| - h) * (|p.z| - h) = cap := by ring
  have hflank : (ρ - r2 + (r2 - r1) * t) * (ρ - r2 + (r2 - r1) * t) + (p.z - h + 2 * h * t) *
    (p.z - h + 2 * h * t) =
      flank := by ring
  have hsqrt : Scalar.sqrt ((min cap flank : ℝ) : Exact) = e :=
    sqrt_coe (le_min (by positivity) (by positivity))
  have heq : frustumDistance p.exact (h : Exact) r1 r2 =
      (if ((ρ - r2 + (r2 - r1) * t : ℝ) : Exact) < 0 ∧ ((|p.z| - h : ℝ) : Exact) < 0 then -1
        else 1) * (e : Exact) := by
    have hsub (a b : Vec2 Exact) : a - b = ⟨a.x - b.x, a.y - b.y⟩ := rfl
    have hadd (a b : Vec2 Exact) : a + b = ⟨a.x + b.x, a.y + b.y⟩ := rfl
    have hz : p.exact.z = (p.z : Exact) := rfl
    simp only [frustumDistance, hnorm, hz, hsub, hadd, Vec2.normSq, Vec2.dot, Vec2.scale,
      two_eq_coe, mul_coe, sub_coe, add_coe, abs_coe, hrimEq, htEq, min_coe, hcap, hflank, hsqrt]
  split at heq
  · rename_i hinside
    obtain ⟨hx, hz⟩ := hinside
    rw [zero_eq_coe, coe_lt_coe] at hx hz
    refine ⟨-1 * e, heq, .inr ⟨?_, by linarith, by linarith⟩⟩
    linarith [Real.sqrt_nonneg (min cap flank)]
  · exact ⟨1 * e, heq, .inl (one_mul e)⟩

/-! ## Boxes near a point -/

/-- The square of the distance of two points. -/
def Vec3.gapSq (p q : Vec3 ℝ) : ℝ := (p.x - q.x) ^ 2 + (p.y - q.y) ^ 2 + (p.z - q.z) ^ 2

/-- Along an axis, points are at most as far apart as they are. -/
lemma Vec3.abs_sub_le {p q : Vec3 ℝ} {r : ℝ} (hr : 0 ≤ r) (h : p.gapSq q ≤ r ^ 2) :
    |p.x - q.x| ≤ r ∧ |p.y - q.y| ≤ r ∧ |p.z - q.z| ≤ r := by
  unfold gapSq at h
  have hx := sq_nonneg (p.x - q.x)
  have hy := sq_nonneg (p.y - q.y)
  have hz := sq_nonneg (p.z - q.z)
  exact ⟨abs_le_of_sq_le_sq (by linarith) hr, abs_le_of_sq_le_sq (by linarith) hr,
    abs_le_of_sq_le_sq (by linarith) hr⟩

/-- What matters of a point to a shape: nothing matters of the third coordinate to a flat one. -/
def Dimension.place : Dimension → Vec3 ℝ → Vec3 ℝ
  | flat, p => ⟨p.x, p.y, 0⟩
  | solid, p => p

namespace Shape

/-- Some point of the box of a shape is at most `r` away, in the plane if the shape is flat. -/
def Near (s : Shape ℝ) (p : Vec3 ℝ) (r : ℝ) : Prop :=
  ∃ q : Vec3 ℝ, s.dimension.place q = q ∧ q.exact ∈ s.exact.bounds ∧
    (s.dimension.place p).gapSq q ≤ r ^ 2

/-- What is at no distance from the box is in the box. -/
lemma Near.mem {s : Shape ℝ} {p : Vec3 ℝ} (h : s.Near p 0) :
    (s.dimension.place p).exact ∈ s.exact.bounds := by
  obtain ⟨q, -, hq, hgap⟩ := h
  obtain ⟨hx, hy, hz⟩ := abs_sub_le le_rfl hgap
  rw [abs_nonpos_iff, sub_eq_zero] at hx hy hz
  have hpq : s.dimension.place p = q := by
    generalize s.dimension.place p = p' at hx hy hz
    cases p'
    cases q
    exact mk.injEq .. ▸ ⟨hx, hy, hz⟩
  rwa [hpq]

end Shape

/-- Some number of `[-h, h]` is as near to `x` as the interval is. -/
lemma exists_abs_le {h : ℝ} (hh : 0 ≤ h) (x : ℝ) :
    ∃ c, |c| ≤ h ∧ (x - c) ^ 2 = max (|x| - h) 0 ^ 2 := by
  rcases le_total |x| h with hx | hx
  · refine ⟨x, hx, ?_⟩
    rw [max_eq_right (sub_nonpos.mpr hx), sub_self]
  · rw [max_eq_left (sub_nonneg.mpr hx)]
    rcases le_total 0 x with h0 | h0
    · exact ⟨h, (abs_of_nonneg hh).le, by rw [abs_of_nonneg h0]⟩
    · refine ⟨-h, (abs_neg h).trans_le (abs_of_nonneg hh).le, ?_⟩
      rw [abs_of_nonpos h0]
      ring

/-- Every point lies in some direction from the origin, and a point of the plane in one of the
plane. -/
lemma Vec3.exists_direction (p : Vec3 ℝ) :
    let ρ := √(p.x ^ 2 + p.y ^ 2 + p.z ^ 2)
    ∃ u v w : ℝ, u ^ 2 + v ^ 2 + w ^ 2 = 1 ∧ p = ⟨ρ * u, ρ * v, ρ * w⟩ ∧ (p.z = 0 → w = 0) := by
  intro ρ
  have hsq : ρ ^ 2 = p.x ^ 2 + p.y ^ 2 + p.z ^ 2 := Real.sq_sqrt (by positivity)
  obtain ⟨x, y, z⟩ := p
  by_cases hρ : ρ = 0
  · -- the origin lies in every direction
    rw [hρ] at hsq
    have hx : x = 0 := by nlinarith [sq_nonneg x, sq_nonneg y, sq_nonneg z]
    have hy : y = 0 := by nlinarith [sq_nonneg x, sq_nonneg y, sq_nonneg z]
    have hz : z = 0 := by nlinarith [sq_nonneg x, sq_nonneg y, sq_nonneg z]
    refine ⟨1, 0, 0, by norm_num, ?_, fun _ => rfl⟩
    rw [hρ, hx, hy, hz, zero_mul, zero_mul]
  · refine ⟨x / ρ, y / ρ, z / ρ, ?_, ?_, ?_⟩
    · rw [div_pow, div_pow, div_pow, ← add_div, ← add_div, ← hsq]
      exact div_self (pow_ne_zero 2 hρ)
    · rw [mul_div_cancel₀ x hρ, mul_div_cancel₀ y hρ, mul_div_cancel₀ z hρ]
    · rintro rfl
      exact zero_div ρ

/-- Some point of the sphere of radius `r` is as near as the sphere is. -/
lemma Vec3.exists_on_sphere {r : ℝ} (hr : 0 ≤ r) (p : Vec3 ℝ) :
    ∃ q : Vec3 ℝ, (|q.x| ≤ r ∧ |q.y| ≤ r ∧ |q.z| ≤ r) ∧ (p.z = 0 → q.z = 0) ∧
      p.gapSq q = (√(p.x ^ 2 + p.y ^ 2 + p.z ^ 2) - r) ^ 2 := by
  obtain ⟨u, v, w, hunit, hp, hw⟩ := p.exists_direction
  set ρ := √(p.x ^ 2 + p.y ^ 2 + p.z ^ 2)
  have hle {c : ℝ} (hc : c ^ 2 ≤ 1) : |r * c| ≤ r := by
    rw [abs_mul, abs_of_nonneg hr]
    exact mul_le_of_le_one_right hr (abs_le_one_iff_mul_self_le_one.mpr (by rwa [← sq]))
  refine ⟨⟨r * u, r * v, r * w⟩, ⟨hle ?_, hle ?_, hle ?_⟩, fun hz => ?_, ?_⟩
  · linarith [sq_nonneg v, sq_nonneg w]
  · linarith [sq_nonneg u, sq_nonneg w]
  · linarith [sq_nonneg u, sq_nonneg v]
  · rw [hw hz, mul_zero]
  · calc p.gapSq ⟨r * u, r * v, r * w⟩
        = (ρ - r) ^ 2 * (u ^ 2 + v ^ 2 + w ^ 2) := by
          unfold gapSq
          rw [hp]
          ring
      _ = (ρ - r) ^ 2 := by rw [hunit, mul_one]

/-- Some point of the ball is as near as the ball is: inside it the point itself, and outside a
point of the surface. -/
lemma Vec3.exists_in_ball {r : ℝ} (hr : 0 ≤ r) (p : Vec3 ℝ) :
    ∃ q : Vec3 ℝ, (|q.x| ≤ r ∧ |q.y| ≤ r ∧ |q.z| ≤ r) ∧ (p.z = 0 → q.z = 0) ∧
      p.gapSq q = max (√(p.x ^ 2 + p.y ^ 2 + p.z ^ 2) - r) 0 ^ 2 := by
  set ρ := √(p.x ^ 2 + p.y ^ 2 + p.z ^ 2)
  obtain ⟨q, ⟨hx, hy, hz⟩, hplane, hgap⟩ :=
    p.exists_on_sphere (le_min (Real.sqrt_nonneg _ : 0 ≤ ρ) hr)
  have hle : min ρ r ≤ r := min_le_right ρ r
  refine ⟨q, ⟨hx.trans hle, hy.trans hle, hz.trans hle⟩, hplane, ?_⟩
  rw [hgap, ← max_sub_sub_left, sub_self, max_comm]

/-- A distance that is the length of what sticks out, and negative if nothing does. -/
lemma le_sq_max_sqrt_add_min {s m : ℝ} (hs : 0 ≤ s) (h : m < 0 → s = 0) :
    s ≤ max (√s + min m 0) 0 ^ 2 := by
  rcases lt_or_ge m 0 with hm | hm
  · rw [h hm]
    positivity
  · rw [min_eq_right hm, add_zero, max_eq_left (Real.sqrt_nonneg s), Real.sq_sqrt hs]

/-- A rectangle around the origin is as near as its distance says. -/
lemma exists_in_rectangle {hx hy : ℝ} (h0 : 0 ≤ hx) (h1 : 0 ≤ hy) (x y : ℝ) :
    ∃ d : ℝ, rectangleDistance (⟨x, y⟩ : Vec2 Exact) ⟨hx, hy⟩ = d ∧
      ∃ x' y', |x'| ≤ hx ∧ |y'| ≤ hy ∧ (x - x') ^ 2 + (y - y') ^ 2 ≤ max d 0 ^ 2 := by
  refine ⟨_, rectangleDistance_coe x y hx hy, ?_⟩
  obtain ⟨x', hx', hxgap⟩ := exists_abs_le h0 x
  obtain ⟨y', hy', hygap⟩ := exists_abs_le h1 y
  refine ⟨x', y', hx', hy', ?_⟩
  rw [hxgap, hygap]
  refine le_sq_max_sqrt_add_min (by positivity) fun hm => ?_
  rw [max_lt_iff] at hm
  rw [max_eq_right hm.1.le, max_eq_right hm.2.le]
  ring

namespace Shape

variable {p : Vec3 ℝ}

variable {r h : ℝ} {inner : Shape ℝ}

lemma near_sphere (hr : 0 ≤ r) (p : Vec3 ℝ) :
    ∃ d : ℝ, (sphere r).exact.distance p.exact = d ∧ (sphere r).Near p (max d 0) := by
  refine ⟨√(p.x ^ 2 + p.y ^ 2 + p.z ^ 2) - r, ?_, ?_⟩
  · show p.exact.norm - (r : Exact) = _
    rw [p.norm_exact, sub_coe]
  · obtain ⟨q, ⟨hx, hy, hz⟩, -, hgap⟩ := p.exists_in_ball hr
    rw [abs_le] at hx hy hz
    refine ⟨q, rfl, Bounds.mem_ofCorners (l := ⟨-r, -r, -r⟩) (u := ⟨r, r, r⟩) |>.mpr ?_, hgap.le⟩
    exact ⟨⟨hx.1, hy.1, hz.1⟩, hx.2, hy.2, hz.2⟩

lemma near_box {half : Vec3 ℝ} (hx : 0 ≤ half.x) (hy : 0 ≤ half.y) (hz : 0 ≤ half.z) (p : Vec3 ℝ) :
    ∃ d : ℝ, (box half).exact.distance p.exact = d ∧ (box half).Near p (max d 0) := by
  refine ⟨_, boxDistance_coe p half, ?_⟩
  obtain ⟨x, hx', hxgap⟩ := exists_abs_le hx p.x
  obtain ⟨y, hy', hygap⟩ := exists_abs_le hy p.y
  obtain ⟨z, hz', hzgap⟩ := exists_abs_le hz p.z
  rw [abs_le] at hx' hy' hz'
  refine ⟨⟨x, y, z⟩, rfl, Bounds.mem_ofCorners (l := ⟨-half.x, -half.y, -half.z⟩) (u := half)
    |>.mpr ?_, ?_⟩
  · exact ⟨⟨hx'.1, hy'.1, hz'.1⟩, hx'.2, hy'.2, hz'.2⟩
  · show (p.x - x) ^ 2 + (p.y - y) ^ 2 + (p.z - z) ^ 2 ≤ _
    rw [hxgap, hygap, hzgap]
    refine le_sq_max_sqrt_add_min (by positivity) fun hm => ?_
    rw [max_lt_iff, max_lt_iff] at hm
    rw [max_eq_right hm.1.1.le, max_eq_right hm.1.2.le, max_eq_right hm.2.le]
    ring

/-- A frustum is as near as the points with a radius and a height that its box has. -/
lemma near_of_radius {r1 r2 z m : ℝ} (hr : 0 ≤ r) (hrmax : r ≤ max r1 r2) (hz : |z| ≤ h)
    (hm : (√(p.x ^ 2 + p.y ^ 2) - r) ^ 2 + (p.z - z) ^ 2 ≤ m ^ 2) : (frustum r1 r2 h).Near p m := by
  obtain ⟨q, ⟨hx, hy, -⟩, hq, hgap⟩ := exists_on_sphere hr ⟨p.x, p.y, 0⟩
  rw [abs_le] at hx hy hz
  refine ⟨⟨q.x, q.y, z⟩, rfl, ?_, ?_⟩
  · rw [bounds_frustum, Bounds.mem_ofCorners]
    refine ⟨⟨?_, ?_, ?_⟩, ?_, ?_, ?_⟩ <;> dsimp only <;> linarith
  · have hplane : (p.x - q.x) ^ 2 + (p.y - q.y) ^ 2 = (√(p.x ^ 2 + p.y ^ 2) - r) ^ 2 := by
      simpa [gapSq, hq rfl] using hgap
    show (p.x - q.x) ^ 2 + (p.y - q.y) ^ 2 + (p.z - z) ^ 2 ≤ m ^ 2
    rwa [hplane]

lemma near_frustum {r1 r2 : ℝ} (hr1 : 0 ≤ r1) (hr2 : 0 ≤ r2) (hh : 0 ≤ h) (p : Vec3 ℝ) :
    ∃ d : ℝ, (frustum r1 r2 h).exact.distance p.exact = d ∧ (frustum r1 r2 h).Near p (max d 0) := by
  obtain ⟨rim, t, hrim, ht0, ht1, d, hd, hval⟩ := frustumDistance_coe p h r1 r2
  refine ⟨d, hd, ?_⟩
  set ρ := √(p.x ^ 2 + p.y ^ 2)
  have hρ : 0 ≤ ρ := Real.sqrt_nonneg _
  -- radii of the flank are means of the two radii
  have hside : 0 ≤ r2 - (r2 - r1) * t ∧ r2 - (r2 - r1) * t ≤ max r1 r2 := by
    have h1 := mul_nonneg hr1 ht0
    have h2 := mul_nonneg hr2 (sub_nonneg.mpr ht1)
    have h3 := mul_le_mul_of_nonneg_right (le_max_left r1 r2) ht0
    have h4 := mul_le_mul_of_nonneg_right (le_max_right r1 r2) (sub_nonneg.mpr ht1)
    constructor <;> linarith
  rcases hval with rfl | ⟨-, hin, hz⟩
  · -- outside, the distance is that of the nearer of two points, and both are in the box
    set cap := (ρ - min ρ rim) ^ 2 + (|p.z| - h) ^ 2
    set flank := (ρ - (r2 - (r2 - r1) * t)) ^ 2 + (p.z - (h - 2 * h * t)) ^ 2
    have hsq : max √(min cap flank) 0 ^ 2 = min cap flank := by
      rw [max_eq_left (Real.sqrt_nonneg _), Real.sq_sqrt (le_min (by positivity) (by positivity))]
    rcases min_choice cap flank with hmin | hmin
    · have hrim0 : 0 ≤ rim ∧ rim ≤ max r1 r2 := by
        rcases hrim with rfl | rfl
        · exact ⟨hr1, le_max_left _ _⟩
        · exact ⟨hr2, le_max_right _ _⟩
      obtain ⟨z, hz, hzgap⟩ := exists_abs_le hh p.z
      refine near_of_radius (le_min hρ hrim0.1) ((min_le_right ρ rim).trans hrim0.2) hz ?_
      rw [hsq, hmin, hzgap]
      have hout : max (|p.z| - h) 0 ^ 2 ≤ (|p.z| - h) ^ 2 := by
        rcases le_total (|p.z| - h) 0 with hz0 | hz0
        · rw [max_eq_right hz0, zero_pow two_ne_zero]
          exact sq_nonneg _
        · rw [max_eq_left hz0]
      exact add_le_add_right hout _
    · refine near_of_radius hside.1 hside.2 (z := h - 2 * h * t) ?_ ?_
      · rw [abs_le]
        have := mul_nonneg hh ht0
        have := mul_nonneg hh (sub_nonneg.mpr ht1)
        constructor <;> linarith
      · rw [hsq, hmin]
  · -- inside, the point itself is in the box
    refine near_of_radius hρ (hin.le.trans hside.2) hz.le ?_
    rw [sub_self, sub_self]
    linarith [sq_nonneg (max d 0)]

lemma near_circle (hr : 0 ≤ r) (p : Vec3 ℝ) :
    ∃ d : ℝ, (circle r).exact.distance p.exact = d ∧ (circle r).Near p (max d 0) := by
  refine ⟨√(p.x ^ 2 + p.y ^ 2 + 0 ^ 2) - r, ?_, ?_⟩
  · show (⟨p.x, p.y⟩ : Vec2 Exact).norm - (r : Exact) = _
    rw [Vec2.norm_coe, sub_coe, zero_pow two_ne_zero, add_zero]
  · obtain ⟨q, ⟨hx, hy, -⟩, hz, hgap⟩ := exists_in_ball hr ⟨p.x, p.y, 0⟩
    rw [abs_le] at hx hy
    have hq : Dimension.flat.place q = q := by
      show mk q.x q.y 0 = q
      rw [← hz rfl]
    refine ⟨q, hq, Bounds.mem_ofCorners (l := ⟨-r, -r, -0⟩) (u := ⟨r, r, 0⟩) |>.mpr ?_, hgap.le⟩
    exact ⟨⟨hx.1, hy.1, by linarith [hz rfl]⟩, hx.2, hy.2, (hz rfl).le⟩

lemma near_rectangle {half : Vec2 ℝ} (hx : 0 ≤ half.x) (hy : 0 ≤ half.y) (p : Vec3 ℝ) :
    ∃ d : ℝ, (rectangle half).exact.distance p.exact = d ∧
      (rectangle half).Near p (max d 0) := by
  obtain ⟨d, hd, x, y, hx', hy', hgap⟩ := exists_in_rectangle hx hy p.x p.y
  rw [abs_le] at hx' hy'
  refine ⟨d, hd, ⟨x, y, 0⟩, rfl,
    Bounds.mem_ofCorners (l := ⟨-half.x, -half.y, -0⟩) (u := ⟨half.x, half.y, 0⟩) |>.mpr ?_, ?_⟩
  · exact ⟨⟨hx'.1, hy'.1, neg_zero.le⟩, hx'.2, hy'.2, le_rfl⟩
  · show (p.x - x) ^ 2 + (p.y - y) ^ 2 + (0 - 0) ^ 2 ≤ _
    linarith

/-! ## Texts -/

/-- The distance to the cell of a glyph. -/
noncomputable def glyphDistance (p : Vec3 ℝ) (g : Glyph ℝ) : Exact :=
  rectangleDistance (⟨(p.x - g.center.x : ℝ), (p.y - g.center.y : ℝ)⟩ : Vec2 Exact)
    ⟨g.half.x, g.half.y⟩

/-- The least of a number and of the distances to some glyphs. -/
lemma foldl_min_glyphs (glyphs : List (Glyph ℝ)) (hhalf : ∀ g ∈ glyphs, 0 ≤ g.half.x ∧ 0 ≤ g.half.y)
    (p : Vec3 ℝ) (start : ℝ) :
    ∃ d : ℝ, glyphs.foldl (fun d g => Scalar.min d (glyphDistance p g)) (start : Exact) = d ∧
      (d = start ∨ ∃ g ∈ glyphs, glyphDistance p g = d) := by
  induction glyphs generalizing start with
  | nil => exact ⟨start, rfl, .inl rfl⟩
  | cons g glyphs ih =>
    rw [forall_mem_cons] at hhalf
    obtain ⟨e, he, -⟩ :=
      exists_in_rectangle hhalf.1.1 hhalf.1.2 (p.x - g.center.x) (p.y - g.center.y)
    replace he : glyphDistance p g = e := he
    obtain ⟨d, hd, hfrom⟩ := ih hhalf.2 (min start e)
    refine ⟨d, ?_, ?_⟩
    · rw [foldl_cons, he, min_coe, hd]
    · rcases hfrom with rfl | ⟨g', hg', heq⟩
      · rcases min_choice start e with h | h
        · exact .inl h
        · exact .inr ⟨g, mem_cons_self, by rw [h, he]⟩
      · exact .inr ⟨g', mem_cons_of_mem g hg', heq⟩

lemma distance_text (font : Path) (content : String) (glyphs : List (Glyph ℝ)) (p : Vec3 ℝ) :
    (text font content glyphs).exact.distance p.exact =
      glyphs.foldl (fun d g => Scalar.min d (glyphDistance p g)) .posInf :=
  foldl_map

/-- A text with some glyph is as near as its distance says. -/
lemma near_text (font : Path) (content : String) {glyphs : List (Glyph ℝ)} (hne : glyphs ≠ [])
    (hhalf : ∀ g ∈ glyphs, 0 ≤ g.half.x ∧ 0 ≤ g.half.y) (p : Vec3 ℝ) :
    ∃ d : ℝ, (text font content glyphs).exact.distance p.exact = d ∧
      (text font content glyphs).Near p (max d 0) := by
  obtain ⟨d, hd, g, hg, hgd⟩ : ∃ d : ℝ, (text font content glyphs).exact.distance p.exact = d ∧
      ∃ g ∈ glyphs, glyphDistance p g = d := by
    -- the first glyph replaces the infinity that the fold starts from
    obtain ⟨g, rest, rfl⟩ := exists_cons_of_ne_nil hne
    obtain ⟨e, he, -⟩ :=
      exists_in_rectangle (hhalf g mem_cons_self).1 (hhalf g mem_cons_self).2
      (p.x - g.center.x) (p.y - g.center.y)
    replace he : glyphDistance p g = e := he
    obtain ⟨d, hd, hfrom⟩ := foldl_min_glyphs rest (forall_mem_cons.mp hhalf).2 p e
    refine ⟨d, ?_, ?_⟩
    · rw [distance_text, foldl_cons, he, posInf_min, hd]
    · rcases hfrom with rfl | ⟨g', hg', heq⟩
      · exact ⟨g, mem_cons_self, he⟩
      · exact ⟨g', mem_cons_of_mem g hg', heq⟩
  obtain ⟨e, he, x, y, hx, hy, hgap⟩ :=
    exists_in_rectangle (hhalf g hg).1 (hhalf g hg).2 (p.x - g.center.x) (p.y - g.center.y)
  obtain rfl : d = e := (coe_inj d e).mp (hgd.symm.trans he)
  rw [abs_le] at hx hy
  refine ⟨d, hd, ⟨g.center.x + x, g.center.y + y, 0⟩, rfl, ?_, ?_⟩
  · refine (foldl_glyphs glyphs _ Bounds.proper_empty).2.2 g hg _ ?_
    rw [g.bounds_exact, Bounds.mem_ofCorners]
    refine ⟨⟨?_, ?_, ?_⟩, ?_, ?_, ?_⟩ <;> dsimp only <;> linarith
  · calc (p.x - (g.center.x + x)) ^ 2 + (p.y - (g.center.y + y)) ^ 2 + (0 - 0) ^ 2
        = (p.x - g.center.x - x) ^ 2 + (p.y - g.center.y - y) ^ 2 := by ring
      _ ≤ max d 0 ^ 2 := hgap

/-! ## Swept shapes -/

lemma distance_extrude (inner : Shape ℝ) (h : ℝ) :
    let d := inner.exact.distance (Vec3.exact ⟨p.x, p.y, 0⟩)
    let w : Exact := (|p.z| - h : ℝ)
    (extrude inner h).exact.distance p.exact =
      Scalar.min (Scalar.max d w) (0 : ℝ) +
        (⟨Scalar.upper d (0 : ℝ), Scalar.upper w (0 : ℝ)⟩ : Vec2 Exact).norm := rfl

lemma distance_extrude_coe {d : ℝ} (h : ℝ)
    (hd : inner.exact.distance (Vec3.exact ⟨p.x, p.y, 0⟩) = d) : let w := |p.z| - h
    (extrude inner h).exact.distance p.exact =
    (√(max d 0 ^ 2 + max w 0 ^ 2) + min (max d w) 0 : ℝ) := by
  intro w
  rw [distance_extrude, hd, max_coe, min_coe, upper_coe, upper_coe, Vec2.norm_coe,
    add_coe, add_comm]

lemma distance_extrude_posInf (h : ℝ)
    (hd : inner.exact.distance (Vec3.exact ⟨p.x, p.y, 0⟩) = .posInf) :
    (extrude inner h).exact.distance p.exact = .posInf := by
  rw [distance_extrude, hd, posInf_max, posInf_min, posInf_upper, upper_coe]
  rfl

/-- A swept shape is as near as its distance says if the shape that is swept is. -/
lemma near_extrude {d : ℝ} (hh : 0 ≤ h) (hflat : inner.dimension = .flat)
    (hnear : inner.Near ⟨p.x, p.y, 0⟩ (max d 0)) :
    let w := |p.z| - h
    (extrude inner h).Near p (max (√(max d 0 ^ 2 + max w 0 ^ 2) + min (max d w) 0) 0) := by
  intro w
  obtain ⟨q, -, hq, hgap⟩ := hnear
  rw [hflat] at hgap
  obtain ⟨z, hz, hzgap⟩ := exists_abs_le hh p.z
  rw [abs_le] at hz
  refine ⟨⟨q.x, q.y, z⟩, rfl, ⟨hq.1, hq.2.1, hz.1, hz.2⟩, ?_⟩
  have hplane : (p.x - q.x) ^ 2 + (p.y - q.y) ^ 2 ≤ max d 0 ^ 2 := by
    have : (p.x - q.x) ^ 2 + (p.y - q.y) ^ 2 + (0 - q.z) ^ 2 ≤ max d 0 ^ 2 := hgap
    linarith [sq_nonneg (0 - q.z)]
  calc (p.x - q.x) ^ 2 + (p.y - q.y) ^ 2 + (p.z - z) ^ 2
      ≤ max d 0 ^ 2 + max w 0 ^ 2 := by rw [hzgap]; exact add_le_add_left hplane _
    _ ≤ _ := by
      refine le_sq_max_sqrt_add_min (by positivity) fun hm => ?_
      rw [max_lt_iff] at hm
      rw [max_eq_right hm.1.le, max_eq_right hm.2.le]
      ring

end Shape

end SolidScript
