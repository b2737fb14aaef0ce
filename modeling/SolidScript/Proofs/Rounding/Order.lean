import SolidScript.Proofs.Rounding.Packing

/-!
# The order of floating-point numbers

Floating-point numbers are compared by sign, exponent and digits. As the digits are normalized, this
is the order of the numbers that they stand for.
-/

namespace SolidScript

open Float.Model (UnpackedFloat)
open Float.Model.UnpackedFloat (Sign)

/-- More digits in a higher place are more. -/
lemma Normalized.lt_of_lt {m n : ℕ} {e f : ℤ} (hm : Normalized m e) (hn : Normalized n f)
    (h : e < f) : (m : ℝ) * 2 ^ e < n * 2 ^ f := by
  have hfull : 2 ^ 52 ≤ n := hn.full.resolve_left (by have := hm.least; omega)
  calc (m : ℝ) * 2 ^ e
    _ < 2 ^ 53 * 2 ^ e := by
      gcongr
      exact_mod_cast hm.lt
    _ = 2 ^ 52 * 2 ^ (e + 1) := by
      rw [zpow_add₀ two_ne_zero]
      ring
    _ ≤ n * 2 ^ f := by
      gcongr
      · exact_mod_cast hfull
      · exact one_le_two
      · omega

/-- Numbers with normalized digits are compared by their last places, and then by their digits. -/
lemma Normalized.cmp_eq {m n : ℕ} {e f : ℤ} (hm : Normalized m e) (hn : Normalized n f) :
    cmp ((m : ℝ) * 2 ^ e) (n * 2 ^ f) = (compare e f).then (compare m n) := by
  rcases lt_trichotomy e f with h | rfl | h
  · rw [compare_lt_iff_lt.mpr h, (cmp_eq_lt_iff _ _).mpr (hm.lt_of_lt hn h)]
    rfl
  · rw [compare_eq_iff_eq.mpr rfl, cmp_mul_pos_right (by positivity),
      Nat.strictMono_cast.cmp_map_eq, cmp_eq_compare]
    rfl
  · rw [compare_gt_iff_gt.mpr h, (cmp_eq_gt_iff _ _).mpr (hn.lt_of_lt hm h)]
    rfl

namespace Exact

/-- How two numbers compare, unless one is none. -/
noncomputable def order : Exact → Exact → Option Ordering
  | nan, _ | _, nan => none
  | real x, real y => some (cmp x y)
  | posInf, posInf | negInf, negInf => some .eq
  | negInf, _ | _, posInf => some .lt
  | posInf, _ | _, negInf => some .gt

variable {a b : Exact}

lemma lt_iff_order : a < b ↔ order a b = some .lt := by
  cases a with
  | real x =>
    cases b with
    | real y =>
      show x < y ↔ some (cmp x y) = some .lt
      rw [Option.some_inj, cmp_eq_lt_iff]
    | _ => simp [order, LT.lt, lt]
  | _ => cases b <;> simp [order, LT.lt, lt]

lemma le_iff_order : a ≤ b ↔ (order a b).any Ordering.isLE = true := by
  cases a with
  | real x =>
    cases b with
    | real y =>
      show x ≤ y ↔ (cmp x y).isLE = true
      rw [Ordering.isLE_iff_ne_gt, cmp_eq_gt_iff, not_lt]
    | _ => simp [order, LE.le, le]
  | _ => cases b <;> simp [order, LE.le, le]

lemma eq_iff_order : order a b = some .eq ↔ a = b ∧ a ≠ nan := by
  cases a with
  | real x =>
    cases b with
    | real y =>
      show some (cmp x y) = some .eq ↔ _
      rw [Option.some_inj, cmp_eq_eq_iff, real.injEq]
      exact (and_iff_left nofun).symm
    | _ => simp [order]
  | _ => cases b <;> simp [order]

/-- Numbers are compared as the exact ones that they stand for. -/
lemma order_ofUnpacked {u v : UnpackedFloat} (hu : Canonical u) (hv : Canonical v) :
    order (ofUnpacked u) (ofUnpacked v) = UnpackedFloat.compare u v := by
  have hpos {m : ℕ} (hm : 0 < m) (e : ℤ) : 0 < (m : ℝ) * 2 ^ e := by positivity
  have hpositive (m : ℕ) (e : ℤ) : (Sign.positive.apply m : ℝ) * 2 ^ e = m * 2 ^ e := by
    simp [Sign.apply]
  have hnegative (m : ℕ) (e : ℤ) : (Sign.negative.apply m : ℝ) * 2 ^ e = -(m * 2 ^ e) := by
    simp [Sign.apply]
  cases hu with
  | infinity s => cases s <;> cases hv with
    | infinity t | finite t => cases t <;> rfl
    | _ => rfl
  | notANumber => rfl
  | zero s =>
    cases hv with
    | infinity t => cases t <;> rfl
    | notANumber => rfl
    | zero t => exact congrArg some (cmp_self_eq_eq 0)
    | finite t hn _ =>
      cases t with
      | positive =>
        exact congrArg some ((cmp_eq_lt_iff _ _).mpr (by simpa [Sign.apply] using hpos hn _))
      | negative =>
        exact congrArg some ((cmp_eq_gt_iff _ _).mpr (by simpa [Sign.apply] using hpos hn _))
  | @finite s m e hm h =>
    cases hv with
    | infinity t => cases s <;> cases t <;> rfl
    | notANumber => cases s <;> rfl
    | zero t =>
      cases s with
      | positive =>
        exact congrArg some ((cmp_eq_gt_iff _ _).mpr (by simpa [Sign.apply] using hpos hm _))
      | negative =>
        exact congrArg some ((cmp_eq_lt_iff _ _).mpr (by simpa [Sign.apply] using hpos hm _))
    | @finite t n f hn h' =>
      have hx := hpos hm e
      have hy := hpos hn f
      cases s <;> cases t <;> refine congrArg some ?_
      · rw [hnegative, hnegative, StrictAnti.cmp_map_eq fun _ _ => neg_lt_neg, ← h.cmp_eq h',
          cmp_swap]
      · rw [hnegative, hpositive]
        exact (cmp_eq_lt_iff _ _).mpr (by linarith)
      · rw [hnegative, hpositive]
        exact (cmp_eq_gt_iff _ _).mpr (by linarith)
      · rw [hpositive, hpositive]
        exact h.cmp_eq h'

variable {x y : Float}

/-- Floats are compared by their values. -/
lemma order_ofFloat : order (ofFloat x) (ofFloat y) =
    UnpackedFloat.compare x.toModel.unpack y.toModel.unpack :=
  order_ofUnpacked (canonical_unpack _) (canonical_unpack _)

/-- So their order is kept. -/
lemma ofFloat_lt : ofFloat x < ofFloat y ↔ x < y := by
  rw [lt_iff_order, order_ofFloat, ← beq_iff_eq]
  exact decide_eq_true_iff.symm

/-- The same for at most. -/
lemma ofFloat_le : ofFloat x ≤ ofFloat y ↔ x ≤ y := by
  rw [le_iff_order, order_ofFloat]
  exact decide_eq_true_iff.symm

/-- And for equal. -/
lemma beq_ofFloat : (x == y) = true ↔ ofFloat x = ofFloat y ∧ ofFloat x ≠ nan := by
  rw [← eq_iff_order, order_ofFloat]
  exact beq_iff_eq (α := Option Ordering)

/-! ## Places in the order -/

/-- The place of a number in the order, which means nothing for what is none. -/
noncomputable def toEReal : Exact → EReal
  | real x => x
  | posInf => ⊤
  | negInf => ⊥
  | nan => 0

lemma lt_iff_toEReal : a < b ↔ a ≠ nan ∧ b ≠ nan ∧ a.toEReal < b.toEReal := by
  show lt a b ↔ _
  cases a <;> cases b <;> simp [toEReal, lt]

lemma le_iff_toEReal : a ≤ b ↔ a ≠ nan ∧ b ≠ nan ∧ a.toEReal ≤ b.toEReal := by
  show le a b ↔ _
  cases a <;> cases b <;> simp [toEReal, le]

protected lemma le_trans {c : Exact} (h : a ≤ b) (h' : b ≤ c) : a ≤ c := by
  rw [le_iff_toEReal] at h h' ⊢
  exact ⟨h.1, h'.2.1, h.2.2.trans h'.2.2⟩

protected lemma not_lt_of_le (h : a ≤ b) : ¬b < a := by
  rw [le_iff_toEReal] at h
  rw [lt_iff_toEReal]
  exact fun h' => h.2.2.not_gt h'.2.2

end Exact

end SolidScript
