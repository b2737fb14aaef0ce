import Mathlib.Tactic.FieldSimp
import Mathlib.Tactic.Positivity
import SolidScript.Proofs.Geometry.Boxes

/-!
# Rounded minima

Where it rounds, a rounded minimum is the least of all weighted means of the two numbers, each
lowered by a sag that depends on the weights only. All its properties can be read off this, and none
of them asks where the weight that is used was clamped. A rounded maximum is a rounded minimum
upside down.
-/

namespace SolidScript

/-- The larger of two numbers, rounded up where they differ by less than `k`. -/
noncomputable def roundedMax (a c k : ℝ) : ℝ :=
  if k ≤ 0 then max a c
  else
    let h := max 0 (min 1 (1 / (2 : ℕ) + (c - a) / ((2 : ℕ) * k)))
    a + (c - a) * h + k * h * (1 - h)

/-- The smaller of two numbers, rounded down where they differ by less than `k`. -/
noncomputable def roundedMin (a c k : ℝ) : ℝ :=
  if k ≤ 0 then min a c
  else
    let h := max 0 (min 1 (1 / (2 : ℕ) + (c - a) / ((2 : ℕ) * k)))
    c + (a - c) * h - k * h * (1 - h)

/-- The mean of two numbers with weights `h` and `1 - h`, lowered by a sag that is deepest for equal
weights. -/
def sagging (a b k h : ℝ) : ℝ := b + (a - b) * h - k * h * (1 - h)

lemma min_le_lerp (a b : ℝ) {k : ℝ} (h0 : 0 ≤ k) (h1 : k ≤ 1) : min a b ≤ a + (b - a) * k := by
  have ha : min a b * (1 - k) ≤ a * (1 - k) :=
    mul_le_mul_of_nonneg_right (min_le_left a b) (sub_nonneg.mpr h1)
  have hb : min a b * k ≤ b * k := mul_le_mul_of_nonneg_right (min_le_right a b) h0
  linarith

section

variable (a b k h : ℝ)

/-- The numbers change places if their weights do. -/
lemma sagging_swap : sagging b a k (1 - h) = sagging a b k h := by
  unfold sagging
  ring

lemma sagging_zero : sagging a b k 0 = b := by
  unfold sagging
  ring

lemma sagging_one : sagging a b k 1 = a := by
  unfold sagging
  ring

end

section

variable {a b k h : ℝ}

lemma sagging_mono {a' b' : ℝ} (ha : a ≤ a') (hb : b ≤ b') (h0 : 0 ≤ h) (h1 : h ≤ 1) :
    sagging a b k h ≤ sagging a' b' k h := by
  have hfirst : a * h ≤ a' * h := mul_le_mul_of_nonneg_right ha h0
  have hsecond : b * (1 - h) ≤ b' * (1 - h) := mul_le_mul_of_nonneg_right hb (sub_nonneg.mpr h1)
  unfold sagging
  linarith

/-- The sag is at most a quarter of the width. -/
lemma min_sub_quarter_le_sagging (hk : 0 < k) (h0 : 0 ≤ h) (h1 : h ≤ 1) :
    min a b - k / 4 ≤ sagging a b k h := by
  have hmean : min a b ≤ b + (a - b) * h := min_comm a b ▸ min_le_lerp b a h0 h1
  have hsag : k * (h * (1 - h)) ≤ k * (1 / 4) := by
    refine mul_le_mul_of_nonneg_left ?_ hk.le
    linarith [sq_nonneg (h - 1 / 2)]
  unfold sagging
  linarith

/-- Of two numbers that differ by the width or more, no lowered mean is below the first. -/
lemma le_sagging_of_apart (hk : 0 < k) (hab : k ≤ b - a) (h1 : h ≤ 1) : a ≤ sagging a b k h := by
  have hwidth : k * h ≤ k * 1 := mul_le_mul_of_nonneg_left h1 hk.le
  have hrest : 0 ≤ (1 - h) * (b - a - k * h) := mul_nonneg (sub_nonneg.mpr h1) (by linarith)
  unfold sagging
  linarith

/-- Rounding takes the least of all lowered means. -/
lemma isLeast_roundedMin (a b : ℝ) (hk : 0 < k) :
    IsLeast (sagging a b k '' Set.Icc 0 1) (roundedMin a b k) := by
  set t := 1 / 2 + (b - a) / (2 * k) with ht
  have htk : b - a = k * (2 * t - 1) := by
    rw [ht]
    field_simp
    ring
  have hvalue : roundedMin a b k = sagging a b k (max 0 (min 1 t)) := if_neg (not_le.mpr hk)
  constructor
  · exact ⟨max 0 (min 1 t), ⟨le_max_left _ _, max_le zero_le_one (min_le_left 1 t)⟩, hvalue.symm⟩
  · rintro _ ⟨h, ⟨h0, h1⟩, rfl⟩
    set g := max 0 (min 1 t)
    -- as a function of the weight a lowered mean is a parabola with its lowest point at `t`
    have hdiff : sagging a b k h - sagging a b k g = k * ((h - g) * (h + g - 2 * t)) := by
      unfold sagging
      linear_combination (g - h) * htk
    have hsign : 0 ≤ (h - g) * (h + g - 2 * t) := by
      rcases le_total t 0 with ht0 | ht0
      · have hg : g = 0 := max_eq_left ((min_le_right 1 t).trans ht0)
        exact mul_nonneg (by linarith) (by linarith)
      · rcases le_total 1 t with ht1 | ht1
        · have hg : g = 1 := by
            rw [show g = max 0 (min 1 t) from rfl, min_eq_left ht1, max_eq_right zero_le_one]
          exact mul_nonneg_of_nonpos_of_nonpos (by linarith) (by linarith)
        · have hg :
              g = t := by rw [show g = max 0 (min 1 t) from rfl, min_eq_right ht1, max_eq_right ht0]
          rw [hg]
          linarith [sq_nonneg (h - t)]
    linarith [mul_nonneg hk.le hsign]

/-- The rounded minimum is the least of all sagging means. -/
lemma roundedMin_le_sagging (hk : 0 < k) (h0 : 0 ≤ h) (h1 : h ≤ 1) :
    roundedMin a b k ≤ sagging a b k h :=
  (isLeast_roundedMin a b hk).2 ⟨h, ⟨h0, h1⟩, rfl⟩

/-- It is one of them. -/
lemma exists_roundedMin_eq (a b : ℝ) (hk : 0 < k) :
    ∃ h, (0 ≤ h ∧ h ≤ 1) ∧ sagging a b k h = roundedMin a b k :=
  (isLeast_roundedMin a b hk).1

lemma roundedMin_of_nonpos (a b : ℝ) (hk : k ≤ 0) : roundedMin a b k = min a b := if_pos hk

end

section

variable (a b k : ℝ)

lemma roundedMin_comm : roundedMin a b k = roundedMin b a k := by
  rcases le_or_gt k 0 with hk | hk
  · rw [roundedMin_of_nonpos a b hk, roundedMin_of_nonpos b a hk, min_comm]
  · have hle (a b : ℝ) : roundedMin a b k ≤ roundedMin b a k := by
      obtain ⟨h, ⟨h0, h1⟩, heq⟩ := exists_roundedMin_eq b a hk
      rw [← heq, ← sagging_swap]
      exact roundedMin_le_sagging hk (sub_nonneg.mpr h1) (sub_le_self 1 h0)
    exact le_antisymm (hle a b) (hle b a)

variable {a b} in
lemma roundedMin_mono {a' b' : ℝ} (ha : a ≤ a') (hb : b ≤ b') :
    roundedMin a b k ≤ roundedMin a' b' k := by
  rcases le_or_gt k 0 with hk | hk
  · rw [roundedMin_of_nonpos a b hk, roundedMin_of_nonpos a' b' hk]
    exact min_le_min ha hb
  · obtain ⟨h, ⟨h0, h1⟩, heq⟩ := exists_roundedMin_eq a' b' hk
    calc roundedMin a b k
      _ ≤ sagging a b k h := roundedMin_le_sagging hk h0 h1
      _ ≤ sagging a' b' k h := sagging_mono ha hb h0 h1
      _ = roundedMin a' b' k := heq

lemma roundedMin_le_min : roundedMin a b k ≤ min a b := by
  rcases le_or_gt k 0 with hk | hk
  · exact (roundedMin_of_nonpos a b hk).le
  · refine le_min ?_ ?_
    · exact (roundedMin_le_sagging hk zero_le_one le_rfl).trans_eq (sagging_one a b k)
    · exact (roundedMin_le_sagging hk le_rfl zero_le_one).trans_eq (sagging_zero a b k)

lemma min_sub_quarter_le_roundedMin : min a b - max k 0 / 4 ≤ roundedMin a b k := by
  rcases le_or_gt k 0 with hk | hk
  · rw [roundedMin_of_nonpos a b hk, max_eq_right hk, zero_div, sub_zero]
  · obtain ⟨h, ⟨h0, h1⟩, heq⟩ := exists_roundedMin_eq a b hk
    rw [← heq, max_eq_left hk.le]
    exact min_sub_quarter_le_sagging hk h0 h1

/-- Rounding takes away at most its width. -/
lemma min_sub_le_roundedMin : min a b - max k 0 ≤ roundedMin a b k := by
  linarith [min_sub_quarter_le_roundedMin a b k, le_max_right k 0]

variable {a b k} in
/-- Nothing is rounded where the numbers differ by the width or more. -/
lemma roundedMin_of_apart (hab : k ≤ |a - b|) : roundedMin a b k = min a b := by
  rcases le_or_gt k 0 with hk | hk
  · exact roundedMin_of_nonpos a b hk
  · refine le_antisymm (roundedMin_le_min a b k) ?_
    rcases le_abs.mp hab with hba | hba
    · rw [roundedMin_comm]
      obtain ⟨h, ⟨-, h1⟩, heq⟩ := exists_roundedMin_eq b a hk
      rw [← heq]
      exact (min_le_right a b).trans (le_sagging_of_apart hk hba h1)
    · obtain ⟨h, ⟨-, h1⟩, heq⟩ := exists_roundedMin_eq a b hk
      rw [← heq]
      exact (min_le_left a b).trans (le_sagging_of_apart hk (by linarith) h1)

/-- The rounded maximum is the rounded minimum upside down. -/
lemma roundedMax_eq_neg : roundedMax a b k = -roundedMin (-b) (-a) k := by
  unfold roundedMax roundedMin
  split_ifs
  · rw [min_neg_neg, neg_neg, max_comm]
  · rw [neg_sub_neg]
    ring

lemma roundedMax_comm : roundedMax a b k = roundedMax b a k := by
  rw [roundedMax_eq_neg, roundedMax_eq_neg, roundedMin_comm]

lemma le_roundedMax_left : a ≤ roundedMax a b k := by
  rw [roundedMax_eq_neg, le_neg]
  exact (roundedMin_le_min (-b) (-a) k).trans (min_le_right _ _)

lemma le_roundedMax_right : b ≤ roundedMax a b k := by
  rw [roundedMax_comm]
  exact le_roundedMax_left b a k

end

end SolidScript
