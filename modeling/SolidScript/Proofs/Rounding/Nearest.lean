import Mathlib.Data.Int.Log
import Mathlib.Tactic.Positivity
import Mathlib.Tactic.Ring
import SolidScript.Proofs.Geometry.Exact

/-!
# Rounding to the nearest floating-point number

A floating-point number has 53 binary digits, the last of which stands for a power of two that is
chosen by the size of the number, and is `2 ^ -1074` at least. To round a number is to take the
nearest multiple of that power, and of two multiples that are equally near the even one. Rounding
never turns two numbers around, and keeps those that need no rounding. What is too large becomes
infinite.
-/

namespace SolidScript

/-! ## Counts -/

/-- The count nearest to a number, the even one if two are equally near. -/
noncomputable def nearestCount (x : ℝ) : ℕ :=
  let n := ⌊x⌋₊
  if (x - n) + (x - n) < 1 then n else if 1 < (x - n) + (x - n) then n + 1 else n + n % 2

/-- No number is rounded below its integer part. -/
lemma floor_le_nearestCount (x : ℝ) : ⌊x⌋₊ ≤ nearestCount x := by
  unfold nearestCount
  dsimp only
  split_ifs <;> omega

/-- Nor above the next integer. -/
lemma nearestCount_le_floor (x : ℝ) : nearestCount x ≤ ⌊x⌋₊ + 1 := by
  unfold nearestCount
  dsimp only
  split_ifs <;> omega

/-- Rounding keeps the order of numbers. -/
lemma nearestCount_mono : Monotone nearestCount := by
  intro x y hxy
  rcases (Nat.floor_mono hxy).lt_or_eq with hlt | heq
  · exact (nearestCount_le_floor x).trans (hlt.trans_le (floor_le_nearestCount y))
  · -- with the same integer part, what matters is on which side of the middle they are
    unfold nearestCount
    rw [heq]
    dsimp only
    split_ifs
    any_goals omega
    all_goals linarith

@[simp] lemma nearestCount_natCast (n : ℕ) : nearestCount n = n := by
  unfold nearestCount
  simp

lemma le_nearestCount {n : ℕ} {x : ℝ} (h : (n : ℝ) ≤ x) : n ≤ nearestCount x :=
  (nearestCount_natCast n).symm.trans_le (nearestCount_mono h)

lemma nearestCount_le {n : ℕ} {x : ℝ} (h : x ≤ n) : nearestCount x ≤ n :=
  (nearestCount_mono h).trans_eq (nearestCount_natCast n)

/-! ## The last place -/

/-- The exponent of the last digit that a number of this size has. -/
noncomputable def lastPlace (x : ℝ) : ℤ := max (Int.log 2 x - 52) (-1074)

section

variable {x y : ℝ}

/-- No place is smaller than that of the least number. -/
lemma le_lastPlace (x : ℝ) : -1074 ≤ lastPlace x := le_max_right _ _

lemma zpow_le_iff (hx : 0 < x) {e : ℤ} : (2 : ℝ) ^ e ≤ x ↔ e ≤ Int.log 2 x := by
  exact_mod_cast Int.zpow_le_iff_le_log one_lt_two hx

lemma lt_zpow_iff (hx : 0 < x) {e : ℤ} : x < (2 : ℝ) ^ e ↔ Int.log 2 x < e := by
  exact_mod_cast Int.lt_zpow_iff_log_lt one_lt_two hx

/-- The last place is the one with which a number has 53 digits, or fewer if it is the least one. -/
lemma lastPlace_eq_iff (hx : 0 < x) {e : ℤ} :
    lastPlace x = e ↔ -1074 ≤ e ∧ x < 2 ^ (e + 53) ∧ (e = -1074 ∨ 2 ^ (e + 52) ≤ x) := by
  rw [lt_zpow_iff hx, zpow_le_iff hx, lastPlace]
  omega

/-- There are at most 53 digits. -/
lemma lt_zpow_lastPlace (hx : 0 < x) : x < 2 ^ (lastPlace x + 53) :=
  ((lastPlace_eq_iff hx).mp rfl).2.1

/-- There are 53 digits, except for the least numbers. -/
lemma zpow_lastPlace_le (hx : 0 < x) (h : lastPlace x ≠ -1074) : 2 ^ (lastPlace x + 52) ≤ x :=
  ((lastPlace_eq_iff hx).mp rfl).2.2.resolve_left h

/-- Larger numbers have larger last places. -/
lemma lastPlace_mono (hx : 0 < x) (hxy : x ≤ y) : lastPlace x ≤ lastPlace y :=
  max_le_max_right _ (sub_le_sub_right (Int.log_mono_right hx hxy) 52)

/-! ## Numbers that are not negative -/

/-- The power of two with an exponent. -/
noncomputable def powerOfTwo (e : ℤ) : ℝ := ((2 : ℕ) : ℝ) ^ e

lemma powerOfTwo_eq (e : ℤ) : powerOfTwo e = 2 ^ e := by
  unfold powerOfTwo
  rw [Nat.cast_ofNat]

lemma powerOfTwo_pos (e : ℤ) : 0 < powerOfTwo e := by
  rw [powerOfTwo_eq]
  positivity

/-- How many units of its last place a number is rounded to. -/
noncomputable def nearestDigits (x : ℝ) : ℕ := nearestCount (x / powerOfTwo (lastPlace x))

/-- The multiple of its last place that a number is rounded to. -/
noncomputable def nearest (x : ℝ) : ℝ := nearestDigits x * powerOfTwo (lastPlace x)

/-- The nearest number, as digits and a place. -/
lemma nearest_eq (x : ℝ) : nearest x = nearestDigits x * 2 ^ lastPlace x := by
  rw [nearest, powerOfTwo_eq]

lemma nearest_nonneg (x : ℝ) : 0 ≤ nearest x := by
  rw [nearest_eq]
  positivity

/-- Rounding may carry into a 54th digit. -/
lemma nearestDigits_le (hx : 0 < x) : nearestDigits x ≤ 2 ^ 53 := by
  refine nearestCount_le ?_
  rw [powerOfTwo_eq, div_le_iff₀ (by positivity)]
  have hlt := lt_zpow_lastPlace hx
  rw [add_comm, zpow_add₀ two_ne_zero] at hlt
  exact_mod_cast hlt.le

lemma le_nearestDigits (hx : 0 < x) (h : lastPlace x ≠ -1074) : 2 ^ 52 ≤ nearestDigits x := by
  refine le_nearestCount ?_
  rw [powerOfTwo_eq, le_div_iff₀ (by positivity)]
  have hle := zpow_lastPlace_le hx h
  rw [add_comm, zpow_add₀ two_ne_zero] at hle
  exact_mod_cast hle

/-- Rounding does not turn two numbers around. -/
lemma nearest_mono (hx : 0 < x) (hxy : x ≤ y) : nearest x ≤ nearest y := by
  have hy : 0 < y := hx.trans_le hxy
  rw [nearest_eq, nearest_eq]
  rcases (lastPlace_mono hx hxy).lt_or_eq with hlt | heq
  · -- the power of two that starts the numbers with the last place of `y` is between the results
    have hle := le_lastPlace x
    calc (nearestDigits x : ℝ) * 2 ^ lastPlace x
      _ ≤ 2 ^ 53 * 2 ^ lastPlace x := by
        gcongr
        exact_mod_cast nearestDigits_le hx
      _ = 2 ^ 52 * 2 ^ (lastPlace x + 1) := by
        rw [zpow_add₀ two_ne_zero]
        ring
      _ ≤ nearestDigits y * 2 ^ lastPlace y := by
        gcongr
        · exact_mod_cast le_nearestDigits hy (by omega)
        · exact one_le_two
        · omega
  · have hdigits : nearestDigits x ≤ nearestDigits y := by
      unfold nearestDigits
      rw [heq, powerOfTwo_eq]
      refine nearestCount_mono ?_
      gcongr
    rw [heq]
    gcongr

lemma nearest_zero : nearest 0 = 0 := by
  rw [nearest_eq, nearestDigits, zero_div, ← Nat.cast_zero, nearestCount_natCast,
    Nat.cast_zero, zero_mul]

/-- A number with no more than 53 digits is not rounded. -/
lemma nearest_of_digits {m : ℕ} {e : ℤ} (hm : m < 2 ^ 53) (he : -1074 ≤ e) :
    nearest (m * 2 ^ e) = m * 2 ^ e := by
  rcases Nat.eq_zero_or_pos m with rfl | hpos
  · rw [Nat.cast_zero, zero_mul, nearest_zero]
  · have hx : 0 < (m : ℝ) * 2 ^ e := by positivity
    have hlt : (m : ℝ) * 2 ^ e < 2 ^ (e + 53) := by
      rw [add_comm, zpow_add₀ two_ne_zero]
      gcongr
      exact_mod_cast hm
    have hplace : lastPlace (m * 2 ^ e) ≤ e := by
      rw [lt_zpow_iff hx] at hlt
      exact max_le (by omega) he
    -- the number is a multiple of its last place already
    have hdigits : (m : ℝ) * 2 ^ e / 2 ^ lastPlace (m * 2 ^ e) =
        (m * 2 ^ (e - lastPlace (m * 2 ^ e)).toNat : ℕ) := by
      rw [Nat.cast_mul, Nat.cast_pow, Nat.cast_ofNat,
        mul_div_assoc, ← zpow_sub₀ two_ne_zero, ← zpow_natCast,
        Int.toNat_of_nonneg (sub_nonneg.mpr hplace)]
    rw [nearest_eq, nearestDigits, powerOfTwo_eq, hdigits, nearestCount_natCast, ← hdigits]
    exact div_mul_cancel₀ _ (by positivity)

end

/-! ## All numbers -/

/-- A number rounded away from or towards zero by its size alone. -/
noncomputable def rounded (x : ℝ) : ℝ := if x < 0 then -nearest (-x) else nearest x

/-- Positive numbers are rounded to the nearest. -/
lemma rounded_of_nonneg {x : ℝ} (h : 0 ≤ x) : rounded x = nearest x := if_neg (not_lt.mpr h)

/-- Negative numbers are rounded like positive ones. -/
lemma rounded_neg {x : ℝ} (h : 0 ≤ x) : rounded (-x) = -nearest x := by
  unfold rounded
  split_ifs with hx
  · rw [neg_neg]
  · obtain rfl : x = 0 := by linarith
    rw [neg_zero, nearest_zero, neg_zero]

lemma rounded_mono : Monotone rounded := by
  intro x y hxy
  unfold rounded
  split_ifs with hx hy hy
  · exact neg_le_neg (nearest_mono (neg_pos.mpr hy) (neg_le_neg hxy))
  · exact (neg_nonpos.mpr (nearest_nonneg _)).trans (nearest_nonneg y)
  · linarith
  · rcases (not_lt.mp hx).eq_or_lt with rfl | hpos
    · exact nearest_zero.trans_le (nearest_nonneg y)
    · exact nearest_mono hpos hxy

namespace Exact

/-- A number that is not too large, or the infinity on its side. -/
noncomputable def limited (x : ℝ) : Exact :=
  if powerOfTwo 1024 ≤ x then posInf else if x ≤ -powerOfTwo 1024 then negInf else x

/-- The floating-point number nearest to a number. -/
noncomputable def round (a : Exact) : Exact :=
  a.casesOn (fun x => limited (rounded x)) posInf negInf nan

lemma le_posInf {a : Exact} (h : a ≠ nan) : a ≤ posInf := by
  cases a with
  | nan => exact (h rfl).elim
  | _ => exact trivial

lemma negInf_le {a : Exact} (h : a ≠ nan) : negInf ≤ a := by
  cases a with
  | nan => exact (h rfl).elim
  | _ => exact trivial

lemma limited_ne_nan (x : ℝ) : limited x ≠ nan := by
  unfold limited
  split_ifs <;> exact fun h => nomatch h

lemma limited_of_ge {x : ℝ} (h : powerOfTwo 1024 ≤ x) : limited x = posInf := if_pos h

lemma limited_of_le {x : ℝ} (h : x ≤ -powerOfTwo 1024) : limited x = negInf := by
  have hpos := powerOfTwo_pos 1024
  exact (if_neg (by linarith)).trans (if_pos h)

lemma limited_of_lt {x : ℝ} (hlow : -powerOfTwo 1024 < x) (hhigh : x < powerOfTwo 1024) :
    limited x = x :=
  (if_neg hhigh.not_ge).trans (if_neg hlow.not_ge)

lemma limited_mono {x y : ℝ} (h : x ≤ y) : limited x ≤ limited y := by
  rcases le_or_gt (powerOfTwo 1024) y with hy | hy
  · rw [limited_of_ge hy]
    exact le_posInf (limited_ne_nan x)
  · rcases le_or_gt x (-powerOfTwo 1024) with hx | hx
    · rw [limited_of_le hx]
      exact negInf_le (limited_ne_nan y)
    · rw [limited_of_lt hx (h.trans_lt hy), limited_of_lt (hx.trans_le h) hy]
      exact h

lemma round_mono {a b : Exact} (h : a ≤ b) : round a ≤ round b := by
  cases a with
  | real x =>
    cases b with
    | real y => exact limited_mono (rounded_mono h)
    | posInf => exact le_posInf (limited_ne_nan _)
    | _ => exact h.elim
  | negInf =>
    cases b with
    | real y => exact negInf_le (limited_ne_nan _)
    | _ => exact h
  | posInf =>
    cases b with
    | posInf => exact h
    | _ => exact h.elim
  | nan => cases b <;> exact h.elim

end Exact

end SolidScript
