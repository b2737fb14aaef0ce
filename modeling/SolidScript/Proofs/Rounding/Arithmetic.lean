import SolidScript.Proofs.Rounding.Order

/-!
# Floating-point arithmetic as rounded arithmetic

A sum or a product of floating-point numbers is the exact one, rounded. A count becomes the nearest
floating-point number, and the integer part of a floating-point number is the one of the number that
it stands for.
-/

namespace SolidScript

open Nat

open Float.Model (Format UnpackedFloat)
open Float.Model.UnpackedFloat

namespace Exact

/-! ## Sums -/

lemma rounded_signed (s : Sign) {x : ℝ} (hx : 0 ≤ x) :
    rounded ((s.apply 1 : ℤ) * x) = (s.apply 1 : ℤ) * nearest x := by
  cases s with
  | negative => simpa [Sign.apply] using rounded_neg hx
  | positive => simpa [Sign.apply] using rounded_of_nonneg hx

variable {x : Float} {u : UnpackedFloat} {a : ℝ} {n : ℕ}

/-- A number that is not infinite is a zero, or it has digits. -/
lemma canonical_cases (hu : Canonical u) {x : ℝ} (hx : ofUnpacked u = x) :
    (∃ s, u = .zero s ∧ x = 0) ∨
      ∃ (s : Sign) (m : ℕ) (e : ℤ) (hm : 0 < m), u = .finite s m e hm ∧ Normalized m e ∧
      x = (s.apply m : ℤ) * 2 ^ e := by
  cases hu with
  | infinity s => cases s <;> cases hx
  | notANumber => cases hx
  | zero s => exact .inl ⟨s, rfl, ((coe_inj 0 x).mp hx).symm⟩
  | finite s hm h => exact .inr ⟨s, _, _, hm, rfl, h, ((coe_inj _ x).mp hx).symm⟩

lemma rounded_zero : rounded 0 = 0 := (rounded_of_nonneg le_rfl).trans nearest_zero

/-- A number that can be packed needs no rounding. -/
lemma rounded_of_canonical (hu : Canonical u) {x : ℝ} (hx : ofUnpacked u = x) : rounded x = x := by
  rcases canonical_cases hu hx with ⟨-, -, rfl⟩ | ⟨s, m, e, -, -, h, rfl⟩
  · exact rounded_zero
  · rw [apply_natCast, mul_assoc, rounded_signed s (by positivity), nearest_of_digits h.lt h.least]

/-- The sum of two numbers is the integer sum of their digits, once both end in the same place. -/
lemma add_finite_spec (s₁ s₂ : Sign) {m₁ m₂ : ℕ} {e₁ e₂ : ℤ} (hm₁ : 0 < m₁) (hm₂ : 0 < m₂) :
    Canonical (UnpackedFloat.add .binary64 (.finite s₁ m₁ e₁ hm₁) (.finite s₂ m₂ e₂ hm₂)) ∧
      ofUnpacked (UnpackedFloat.add .binary64 (.finite s₁ m₁ e₁ hm₁) (.finite s₂ m₂ e₂ hm₂)) =
        (rounded ((s₁.apply m₁ : ℤ) * 2 ^ e₁ + (s₂.apply m₂ : ℤ) * 2 ^ e₂) : ℝ) := by
  unfold UnpackedFloat.add decreaseExponent
  dsimp only
  have haligned (s : Sign) (m : ℕ) {e : ℤ} (he : min e₁ e₂ ≤ e) :
      ((s.apply (m <<< (e - min e₁ e₂).toNat : ℕ) : ℤ) : ℝ) * 2 ^ min e₁ e₂ =
      (s.apply m : ℤ) * 2 ^ e := by
    have hvalue := shiftLeft_mul_zpow m (e - min e₁ e₂).toNat e
    rw [Int.toNat_of_nonneg (sub_nonneg.mpr he), sub_sub_cancel] at hvalue
    rw [apply_natCast, apply_natCast s m, mul_assoc, mul_assoc, hvalue]
  rw [← haligned s₁ m₁ (min_le_left e₁ e₂), ← haligned s₂ m₂
    (min_le_right e₁ e₂), ← add_mul, ← Int.cast_add]
  exact normalize_spec _ _ _

/-- Sums of numbers that are not infinite can be packed. -/
lemma add_spec {v : UnpackedFloat} (hu : Canonical u) (hv : Canonical v) {x y : ℝ}
    (hx : ofUnpacked u = x) (hy : ofUnpacked v = y) :
    Canonical (UnpackedFloat.add .binary64 u v) ∧ ofUnpacked (UnpackedFloat.add .binary64 u v) =
      (rounded (x + y) : ℝ) := by
  have hux := rounded_of_canonical hu hx
  have hvy := rounded_of_canonical hv hy
  rcases canonical_cases hu hx with ⟨s, rfl, rfl⟩ | ⟨s, m, e, hm, rfl, -, hxm⟩
  · rw [zero_add, hvy]
    rcases canonical_cases hv hy with ⟨t, rfl, -⟩ | ⟨t, n, f, hn, rfl, -, -⟩
    · cases s <;> cases t <;> exact ⟨.zero _, hy⟩
    · exact ⟨hv, hy⟩
  · rcases canonical_cases hv hy with ⟨t, rfl, rfl⟩ | ⟨t, n, f, hn, rfl, -, hyn⟩
    · rw [add_zero, hux]
      exact ⟨hu, hx⟩
    · rw [hxm, hyn]
      exact add_finite_spec s t hm hn

lemma ofFloat_add (hx : ofFloat x = a) (y : Float) : ofFloat (x + y) = round (a + ofFloat y) := by
  have hu : Canonical x.toModel.unpack := canonical_unpack _
  have hv : Canonical y.toModel.unpack := canonical_unpack _
  show ofFloat (.ofModel (.pack (UnpackedFloat.add .binary64 _ _))) = round (a + ofUnpacked _)
  have hx : ofUnpacked x.toModel.unpack = a := hx
  generalize x.toModel.unpack = u at hu hx ⊢
  generalize y.toModel.unpack = v at hv ⊢
  have hreal {b : ℝ} (hy : ofUnpacked v = b) :
      ofFloat (.ofModel (.pack (UnpackedFloat.add .binary64 u v))) = round (a + ofUnpacked v) := by
    obtain ⟨hcanonical, hsum⟩ := add_spec hu hv hx hy
    rw [ofFloat_pack hcanonical hsum, hy]
    rfl
  cases hu with
  | infinity s => cases s <;> cases hx
  | notANumber => cases hx
  | _ =>
    cases hv with
    | infinity t => exact (ofFloat_pack_infinity t).trans (by cases t <;> rfl)
    | notANumber => exact ofFloat_pack_notANumber
    | _ => exact hreal rfl

/-! ## Products -/

/-- The product of the digits of two numbers has enough of them. -/
lemma add_le_lastPlace {m₁ m₂ : ℕ} {e₁ e₂ : ℤ} (h₁ : Normalized m₁ e₁) (h₂ : Normalized m₂ e₂)
    (hm₁ : 0 < m₁) (hm₂ : 0 < m₂) : e₁ + e₂ ≤ lastPlace ((m₁ * m₂ : ℕ) * 2 ^ (e₁ + e₂)) := by
  have hm : 0 < m₁ * m₂ := Nat.mul_pos hm₁ hm₂
  rw [lastPlace, log_mul_zpow hm]
  have hlog (h : 2 ^ 52 ≤ m₁ * m₂) : 52 ≤ (m₁ * m₂).log2 := (Nat.le_log2 hm.ne').mpr h
  rcases h₁.full with h₁ | h₁
  · rcases h₂.full with h₂ | h₂
    · omega
    · have := hlog (h₂.trans (Nat.le_mul_of_pos_left m₂ hm₁))
      omega
  · have := hlog (h₁.trans (Nat.le_mul_of_pos_right m₁ hm₂))
    omega

lemma apply_mul (s t : Sign) : (s * t).apply 1 = s.apply 1 * t.apply 1 := by
  cases s <;> cases t <;> rfl

/-- Products of numbers that are not infinite can be packed. -/
lemma mul_spec {v : UnpackedFloat} (hu : Canonical u) (hv : Canonical v) {x y : ℝ}
    (hx : ofUnpacked u = x) (hy : ofUnpacked v = y) :
    Canonical (UnpackedFloat.mul .binary64 u v) ∧ ofUnpacked (UnpackedFloat.mul .binary64 u v) =
      (rounded (x * y) : ℝ) := by
  rcases canonical_cases hu hx with ⟨s, rfl, rfl⟩ | ⟨s, m, e, hm, rfl, h, rfl⟩
  · rw [zero_mul, rounded_zero]
    rcases canonical_cases hv hy with ⟨t, rfl, -⟩ | ⟨t, n, f, hn, rfl, -, -⟩ <;>
      exact ⟨.zero _, rfl⟩
  · rcases canonical_cases hv hy with ⟨t, rfl, rfl⟩ | ⟨t, n, f, hn, rfl, h', rfl⟩
    · rw [mul_zero, rounded_zero]
      exact ⟨.zero _, rfl⟩
    · have hproduct : ((s.apply m : ℤ) : ℝ) * 2 ^ e * ((t.apply n : ℤ) * 2 ^ f) =
          ((s * t).apply 1 : ℤ) * ((m * n : ℕ) * 2 ^ (e + f)) := by
        rw [apply_natCast, apply_natCast t, apply_mul, Int.cast_mul, cast_mul,
          zpow_add₀ two_ne_zero]
        ring
      rw [hproduct, rounded_signed (s * t) (by positivity)]
      exact roundWithAccuracy_spec (s * t) (mul_pos hm hn) (add_le_lastPlace h h' hm hn)

/-- A product of numbers that are not infinite is the exact one, rounded. -/
lemma ofFloat_mul {y : Float} {b : ℝ} (hx : ofFloat x = a)
    (hy : ofFloat y = b) : ofFloat (x * y) = round (a * b : ℝ) := by
  obtain ⟨hcanonical, hproduct⟩ := mul_spec (canonical_unpack _) (canonical_unpack _) hx hy
  exact ofFloat_pack hcanonical hproduct

/-! ## Counts -/

lemma zero_le_ofFloat (x : Float) : 0 ≤ ofFloat x ↔ 0 ≤ x := ofFloat_le (x := 0)

lemma ofFloat_toFloat (n : UInt64) : ofFloat n.toFloat = round (n.toNat : ℝ) := by
  obtain ⟨hcanonical, hvalue⟩ := normalize_spec n.toNat 0 .positive
  rw [Int.cast_natCast, zpow_zero, mul_one] at hvalue
  exact ofFloat_pack hcanonical hvalue

lemma rounded_natCast (h : n < 2 ^ 53) : rounded n = n := by
  rw [rounded_of_nonneg n.cast_nonneg]
  simpa using nearest_of_digits h (e := 0) (by decide)

lemma limited_rounded (h : n ≤ maxCount) : limited (rounded n) = (rounded n : ℝ) := by
  have hpower : rounded (2 ^ (64 : ℤ)) = 2 ^ (64 : ℤ) := by
    simpa using (rounded_of_nonneg (by positivity)).trans
      (nearest_of_digits (m := 1) (by decide) (e := 64) (by decide))
  have hn : (n : ℝ) ≤ 2 ^ (64 : ℤ) := by exact_mod_cast h.trans (sub_le (2 ^ 64) 1)
  have hnonneg : 0 ≤ rounded n := by
    rw [rounded_of_nonneg n.cast_nonneg]
    exact nearest_nonneg _
  refine limited_of_lt ((neg_neg_of_pos (powerOfTwo_pos 1024)).trans_le hnonneg) ?_
  calc rounded n
    _ ≤ 2 ^ (64 : ℤ) := (rounded_mono hn).trans_eq hpower
    _ < powerOfTwo 1024 := by
      rw [powerOfTwo_eq]
      exact zpow_lt_zpow_right₀ one_lt_two (by decide)

/-- Large counts are rounded once they have enough digits. -/
lemma ofScientific_spec (hn : 0 < n) :
    Canonical (UnpackedFloat.ofScientific .binary64 n 0) ∧
      ofUnpacked (UnpackedFloat.ofScientific .binary64 n 0) = (rounded n : ℝ) := by
  have hscale : ¬(0 : ℤ) < -((2 : ℤ) ^ 11 + (n.log2 : ℤ)) := by omega
  have hround (k : ℕ) (hk : 52 ≤ k) :
    Canonical (roundWithAccuracy .binary64 .positive (n <<< k) (-k) .exact) ∧
      ofUnpacked (roundWithAccuracy .binary64 .positive (n <<< k) (-k) .exact) =
        (rounded n : ℝ) := by
    have hvalue := shiftLeft_mul_zpow n k 0
    have hlog := log_mul_zpow hn 0
    rw [zpow_zero, mul_one, zero_sub] at hvalue
    rw [zpow_zero, mul_one] at hlog
    have hplace : (-k : ℤ) ≤ lastPlace n := by
      rw [lastPlace, hlog]
      omega
    have hpos : 0 < n <<< k := by
      rw [shiftLeft_eq]
      positivity
    have hspec := roundWithAccuracy_spec .positive hpos (e := -k) (by rw [hvalue]; exact hplace)
    rwa [hvalue, ← rounded_signed .positive n.cast_nonneg, show (Sign.positive.apply 1 : ℤ) =
      1 from rfl, Int.cast_one, one_mul] at hspec
  unfold UnpackedFloat.ofScientific
  rw [dif_neg hn.ne', if_neg (by decide), if_neg hscale, if_pos (by decide)]
  have hproduct := hround 53 (by decide)
  rwa [← mul_one (n <<< 53)] at hproduct

lemma ofFloat_ofNat (n : ℕ) : ofFloat (Float.ofNat n) = round (n : ℝ) := by
  show ofFloat (Float.ofScientific n false 0) = _
  unfold Float.ofScientific
  split
  · -- small counts are converted without rounding, and then multiplied by one
    rename_i hsmall
    have hone : ofFloat Float.exactlyRepresentablePowersOfTen[0] = (1 : ℝ) := by
      show real ((Sign.positive.apply (2 ^ 52 : ℕ) : ℤ) * 2 ^ (-52 : ℤ)) = _
      norm_num [Sign.apply]
    have hcount : ofFloat n.toUInt64.toFloat = (n : ℝ) := by
      have hword : n.toUInt64.toNat = n := mod_eq_of_lt (hsmall.1.trans (by decide))
      rw [ofFloat_toFloat, hword]
      exact (limited_rounded (hsmall.1.le.trans (by decide))).trans
        (congrArg real (rounded_natCast hsmall.1))
    have hproduct := ofFloat_mul hcount hone
    rwa [mul_one] at hproduct
  · rename_i hlarge
    have hn : 0 < n := by
      by_contra h0
      exact hlarge ⟨by omega, by decide⟩
    obtain ⟨hcanonical, hvalue⟩ := ofScientific_spec hn
    exact ofFloat_pack hcanonical hvalue

lemma ofFloat_ofNat_of_le (h : n ≤ maxCount) : ofFloat (Float.ofNat n) = (rounded n : ℝ) :=
  (ofFloat_ofNat n).trans (limited_rounded h)

lemma ofNat_nonneg (n : ℕ) : 0 ≤ Float.ofNat n := by
  have hround : round ((0 : ℕ) : ℝ) ≤ round (n : ℝ) :=
    round_mono ((coe_le_coe _ _).mpr (cast_le.mpr n.zero_le))
  rwa [← ofFloat_ofNat n, ← ofFloat_ofNat, ofFloat_ofNat_of_le (zero_le maxCount),
    rounded_natCast (by decide), cast_zero, ← zero_eq_coe, zero_le_ofFloat] at hround

lemma floorCount_eq (h : ofFloat x = a) : floorCount x = min ⌊a⌋₊ maxCount := by
  have h : ofUnpacked x.toModel.unpack = a := h
  show (UInt64.ofNatClamp (UnpackedFloat.toInt 0 (UInt64.size - 1) x.toModel.unpack).toNat).toNat =
    _
  generalize x.toModel.unpack = u at h
  have hclamp (n : ℕ) : (UInt64.ofNatClamp n).toNat = min n maxCount := by
    have hsize : UInt64.size = maxCount + 1 := rfl
    unfold UInt64.ofNatClamp
    split
    · rw [UInt64.toNat_ofNatLT]
      omega
    · rw [UInt64.toNat_ofNatLT]
      omega
  rw [hclamp]
  congr 1
  rcases u with (_ | _) | _ | _ | ⟨s, m, e, hm⟩
  · cases h
  · cases h
  · cases h
  · obtain rfl : 0 = a := (coe_inj 0 a).mp h
    exact floor_zero.symm
  · obtain rfl := (coe_inj _ a).mp h
    have hshifted := (Tells.exact (m <<< (e - 0).toNat)).shiftRight (0 - (e - (e - 0).toNat)).toNat
    have hvalue : ((m <<< (e - 0).toNat : ℕ) : ℝ) / 2 ^ (0 - (e - (e - 0).toNat)).toNat =
        m * 2 ^ e := by
      rw [← shiftLeft_mul_zpow m (e - 0).toNat e, div_eq_mul_inv, ← zpow_natCast, ← zpow_neg]
      congr 2
      omega
    rw [hvalue] at hshifted
    show (s.apply _).toNat = _
    rw [apply_natCast, mul_assoc]
    cases s with
    | positive => simpa [Sign.apply] using hshifted.floor_eq.symm
    | negative =>
      have hneg : -((m : ℝ) * 2 ^ e) ≤ 0 := neg_nonpos.mpr (by positivity)
      simp [Sign.apply, floor_of_nonpos hneg]

lemma floorCount_posInf (h : ofFloat x = posInf) : floorCount x = maxCount := by
  have h : ofUnpacked x.toModel.unpack = posInf := h
  show (UInt64.ofNatClamp (UnpackedFloat.toInt 0 (UInt64.size - 1) x.toModel.unpack).toNat).toNat =
    _
  generalize x.toModel.unpack = u at h
  rcases u with (_ | _) | _ | _ | _
  · cases h
  · rfl
  · cases h
  · cases h
  · cases h

/-- A count below `2 ^ 53` comes back from the number that it becomes. -/
lemma floorCount_ofNat (h : n < 2 ^ 53) : floorCount (Float.ofNat n) = n := by
  have hmax : n ≤ maxCount := h.le.trans (by decide)
  rw [floorCount_eq (ofFloat_ofNat_of_le hmax), rounded_natCast h, floor_natCast]
  exact min_eq_left hmax

end Exact

end SolidScript
