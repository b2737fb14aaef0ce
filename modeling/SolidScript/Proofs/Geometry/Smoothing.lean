import SolidScript.Proofs.Geometry.Distances

/-!
# Rounded combinations of distances

The three ways to join two distances with a rounding are one: a rounded minimum, of the distances or
of their negatives.
-/

namespace SolidScript

section

variable (a b k : ℝ)

lemma Scalar.isNaN_real : Scalar.isNaN a = false := by
  show (!decide (a = a)) = false
  simp

/-- On reals, the minimum of scalars is the usual one. -/
lemma Scalar.min_real : Scalar.min a b = Min.min a b := by
  unfold Scalar.min
  rw [isNaN_real, if_neg Bool.false_ne_true]
  split_ifs with h
  · exact (min_eq_right h.le).symm
  · exact (min_eq_left (not_lt.mp h)).symm

lemma Scalar.max_real : Scalar.max a b = Max.max a b := by
  unfold Scalar.max
  rw [isNaN_real, if_neg Bool.false_ne_true]
  split_ifs with h
  · exact (max_eq_right h.le).symm
  · exact (max_eq_left (not_lt.mp h)).symm

lemma Scalar.clamp_unit_real (t : ℝ) : Scalar.clamp t 0 1 = Max.max 0 (Min.min 1 t) := by
  unfold Scalar.clamp
  split_ifs with h0 h1
  · rw [min_eq_right (h0.le.trans zero_le_one), max_eq_left h0.le]
  · rw [min_eq_left h1.le, max_eq_right zero_le_one]
  · rw [min_eq_right (not_lt.mp h1), max_eq_right (not_lt.mp h0)]

/-- The weight of a combination, from the difference of the distances. -/
lemma clamp_share (x : ℝ) :
    Scalar.clamp (0.5 + 0.5 * x / k) 0 1 = max 0 (min 1 (1 / 2 + x / (2 * k))) := by
  rw [Scalar.clamp_unit_real, show 0.5 + 0.5 * x / k = 1 / 2 + x / (2 * k) by norm_num; ring]

lemma smoothUnion_real : smoothUnion a b k = roundedMin a b k := by
  unfold smoothUnion roundedMin
  split_ifs with hk
  · exact Scalar.min_real a b
  · rw [clamp_share]
    rfl

lemma smoothDifference_real : smoothDifference a b k = roundedMax a (-b) k := by
  unfold smoothDifference roundedMax
  split_ifs with hk
  · exact Scalar.max_real a (-b)
  · rw [show 0.5 - 0.5 * (a + b) / k = 0.5 + 0.5 * (-b - a) / k by ring, clamp_share]
    rfl

lemma smoothIntersection_real : smoothIntersection a b k = roundedMax b a k := by
  unfold smoothIntersection roundedMax
  split_ifs with hk
  · rw [Scalar.max_real, max_comm]
  · rw [show 0.5 - 0.5 * (b - a) / k = 0.5 + 0.5 * (a - b) / k by ring, clamp_share]
    rfl

end

/-- **Rounded combinations are well-behaved.** Over the real numbers, the rounded union of two
distances does not depend on their order, grows with both of them, and is below the smaller one by
no more than a quarter of the width; it is the smaller one if the width is not positive, or the
distances differ by at least that much. The rounded intersection is the rounded union upside down,
and the rounded difference is the rounded intersection with the complement. The infinite distance of
an empty text is left out: its rounded union has no value (`smoothUnion_coe_posInf`). -/
theorem smooth_combinators (a b k : ℝ) :
    smoothUnion a b k = smoothUnion b a k ∧
      (∀ a' b' : ℝ, a ≤ a' → b ≤ b' → smoothUnion a b k ≤ smoothUnion a' b' k) ∧
      (min a b - max k 0 / 4 ≤ smoothUnion a b k ∧ smoothUnion a b k ≤ min a b) ∧
      (k ≤ 0 ∨ k ≤ |a - b| → smoothUnion a b k = min a b) ∧
      smoothIntersection a b k = -smoothUnion (-a) (-b) k ∧
      smoothDifference a b k = smoothIntersection a (-b) k := by
  simp only [smoothUnion_real, smoothIntersection_real, smoothDifference_real]
  refine ⟨roundedMin_comm a b k, fun a' b' ha hb => roundedMin_mono k ha hb,
    ⟨min_sub_quarter_le_roundedMin a b k, roundedMin_le_min a b k⟩, ?_, roundedMax_eq_neg b a k,
    roundedMax_comm a (-b) k⟩
  rintro (hk | hab)
  · exact roundedMin_of_nonpos a b hk
  · exact roundedMin_of_apart hab

/-- Two distances that differ by just the width of the rounding, and a pair that is nowhere
smaller. -/
theorem smooth_combinators_apart :
    (0 : ℝ) ≤ 1 ∧ (2 : ℝ) ≤ 2 ∧ (2 : ℝ) ≤ |0 - 2| ∧ smoothUnion (0 : ℝ) 2 2 ≤ smoothUnion 1 2 2 ∧
      smoothUnion (0 : ℝ) 2 2 = 0 := by
  have hapart : (2 : ℝ) ≤ |0 - 2| := by norm_num
  obtain ⟨-, hmono, -, hsharp, -⟩ := smooth_combinators 0 2 2
  exact ⟨zero_le_one, le_rfl, hapart, hmono 1 2 zero_le_one le_rfl,
    (hsharp (.inr hapart)).trans (min_eq_left zero_le_two)⟩

end SolidScript
