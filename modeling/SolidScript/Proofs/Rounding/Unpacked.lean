import SolidScript.Proofs.Rounding.Nearest
import SolidScript.Proofs.Geometry.Floats

/-!
# Floating-point numbers as sign, mantissa and exponent

Floating-point arithmetic computes with integers. A mantissa is shifted right until it has few
enough digits, two bits keep what was shifted out as far as it matters for rounding.
-/

namespace SolidScript

open Nat Exact

open Float.Model (Format UnpackedFloat totalExponent)
open Float.Model.UnpackedFloat

/-! ## Shifted mantissas -/

/-- What a mantissa and its two extra bits tell about a number: its integer part, whether the rest
is at least a half, and whether it is neither nothing nor a half. -/
structure Tells (em : ExtendedMantissa) (x : ℝ) : Prop where
  le : (em.mantissa : ℝ) ≤ x
  lt : x < em.mantissa + 1
  round : em.roundBit = true ↔ 1 ≤ (x - em.mantissa) + (x - em.mantissa)
  sticky : em.stickyBit = true ↔ x - em.mantissa ≠ 0 ∧ (x - em.mantissa) + (x - em.mantissa) ≠ 1

namespace Tells

variable {em : ExtendedMantissa} {x : ℝ}

lemma exact (m : ℕ) : Tells (.ofMantissaAndAccuracy m .exact) m := by
  constructor <;> simp [ExtendedMantissa.ofMantissaAndAccuracy]

lemma floor_eq (h : Tells em x) : ⌊x⌋₊ = em.mantissa :=
  (floor_eq_iff (h.le.trans' (cast_nonneg _))).mpr ⟨h.le, h.lt⟩

/-- The bits are enough for rounding. -/
lemma roundedMantissa_eq (h : Tells em x) : em.roundedMantissa = nearestCount x := by
  unfold nearestCount
  rw [h.floor_eq]
  obtain ⟨-, -, hround, hsticky⟩ := h
  obtain ⟨m, round, sticky⟩ := em
  dsimp only at hround hsticky ⊢
  generalize x - (m : ℝ) = r at hround hsticky ⊢
  cases round with
  | false =>
    -- below the middle, or nothing is left
    have hlt : r + r < 1 := not_le.mp fun h => Bool.false_ne_true (hround.mpr h)
    rw [if_pos hlt]
    cases sticky <;> rfl
  | true =>
    have hge : 1 ≤ r + r := hround.mp rfl
    rw [if_neg (not_lt.mpr hge)]
    cases sticky with
    | false =>
      have hmiddle : r + r = 1 := by
        by_contra hne
        exact Bool.false_ne_true (hsticky.mpr ⟨fun h0 => by linarith, hne⟩)
      rw [if_neg hmiddle.not_gt]
      rfl
    | true =>
      rw [if_pos (hge.lt_of_ne' (hsticky.mp rfl).2)]
      rfl

lemma shiftRightOne (h : Tells em x) : Tells em.shiftRightOne (x / 2) := by
  obtain ⟨hle, hlt, hround, hsticky⟩ := h
  obtain ⟨m, round, sticky⟩ := em
  dsimp only at hle hlt hround hsticky
  -- the rest is half of the digit that is shifted out and the rest before
  have hdigits : (m : ℝ) = 2 * (m / 2 : ℕ) + (m % 2 : ℕ) := by
    exact_mod_cast (div_add_mod m 2).symm
  have hrest : x / 2 - (m / 2 : ℕ) = ((m % 2 : ℕ) + (x - m)) / 2 := by linarith
  have hdouble : x / 2 - (m / 2 : ℕ) + (x / 2 - (m / 2 : ℕ)) = (m % 2 : ℕ) + (x - m) := by linarith
  have hbit : (m % 2 = 0 ∧ ((m % 2 : ℕ) : ℝ) = 0) ∨ (m % 2 = 1 ∧ ((m % 2 : ℕ) : ℝ) = 1) := by
    rcases mod_two_eq_zero_or_one m with h | h <;> rw [h] <;> simp
  have hsome : (round || sticky) = true ↔ x - m ≠ 0 := by
    rw [Bool.or_eq_true, hround, hsticky]
    constructor
    · rintro (h | h)
      · intro h0
        linarith
      · exact h.1
    · intro h
      by_cases hge : 1 ≤ (x - m) + (x - m)
      · exact .inl hge
      · exact .inr ⟨h, fun heq => hge heq.ge⟩
  constructor
  · show ((m / 2 : ℕ) : ℝ) ≤ x / 2
    rcases hbit with ⟨-, hbit⟩ | ⟨-, hbit⟩ <;> linarith
  · show x / 2 < ((m / 2 : ℕ) : ℝ) + 1
    rcases hbit with ⟨-, hbit⟩ | ⟨-, hbit⟩ <;> linarith
  · show (m % 2 != 0) = true ↔ 1 ≤ (x / 2 - (m / 2 : ℕ)) + (x / 2 - (m / 2 : ℕ))
    rw [bne_iff_ne, hdouble]
    rcases hbit with ⟨h, hbit⟩ | ⟨h, hbit⟩ <;> rw [h] at hbit ⊢ <;> rw [hbit]
    · exact ⟨fun h => (h rfl).elim, fun h => by linarith⟩
    · exact ⟨fun _ => by linarith, fun _ => one_ne_zero⟩
  · show (round || sticky) = true ↔ x / 2 - (m / 2 : ℕ) ≠ 0 ∧
      (x / 2 - (m / 2 : ℕ)) + (x / 2 - (m / 2 : ℕ)) ≠ 1
    rw [hsome, hdouble, hrest]
    rcases hbit with ⟨-, hbit⟩ | ⟨-, hbit⟩ <;> rw [hbit]
    · exact ⟨fun h => ⟨fun h0 => h (by linarith), fun h1 => by linarith⟩,
        fun h h0 => h.1 (by linarith)⟩
    · exact ⟨fun h => ⟨fun h0 => by linarith, fun h1 => h (by linarith)⟩,
        fun h h0 => h.2 (by linarith)⟩

lemma shiftRight (h : Tells em x) (n : ℕ) : Tells (em >>> n) (x / 2 ^ n) := by
  induction n with
  | zero =>
    rw [pow_zero, div_one]
    exact h
  | succ n ih =>
    rw [pow_succ, ← div_div]
    exact ih.shiftRightOne

end Tells

/-! ## Rounded mantissas -/

lemma log_mul_zpow {m : ℕ} (hm : 0 < m) (e : ℤ) : Int.log 2 ((m : ℝ) * 2 ^ e) = m.log2 + e := by
  have hx : 0 < (m : ℝ) * 2 ^ e := by positivity
  have hpow (k : ℕ) : (2 : ℝ) ^ ((k : ℤ) + e) = (2 ^ k : ℕ) * 2 ^ e := by
    rw [zpow_add₀ two_ne_zero, zpow_natCast, cast_pow, cast_ofNat]
  refine le_antisymm ?_ ?_
  · rw [← Int.lt_add_one_iff, ← lt_zpow_iff hx, show (m.log2 : ℤ) + e + 1 =
      (m.log2 + 1 : ℕ) + e by push_cast; ring, hpow]
    gcongr
    exact lt_log2_self
  · rw [← zpow_le_iff hx, hpow]
    gcongr
    exact log2_self_le hm.ne'

lemma targetExponent_eq (n : ℕ) (e : ℤ) :
    Format.binary64.targetExponent (totalExponent n e) = max (n.log2 + e - 52) (-1074) := by
  show max ((n.log2 : ℤ) + 1 + e - 53) (-1074) = _
  omega

lemma targetExponent_eq_lastPlace {m : ℕ} (hm : 0 < m) (e : ℤ) :
    Format.binary64.targetExponent (totalExponent m e) = lastPlace (m * 2 ^ e) := by
  rw [targetExponent_eq, lastPlace, log_mul_zpow hm]

/-- Digits as floating-point numbers have them: 53 of them, or fewer in the least place. -/
structure Normalized (m : ℕ) (e : ℤ) : Prop where
  lt : m < 2 ^ 53
  least : -1074 ≤ e
  full : e = -1074 ∨ 2 ^ 52 ≤ m

/-- An unpacked number that can be packed. -/
inductive Canonical : UnpackedFloat → Prop
  | infinity (s : Sign) : Canonical (.infinity s)
  | notANumber : Canonical .notANumber
  | zero (s : Sign) : Canonical (.zero s)
  | finite (s : Sign) {m : ℕ} {e : ℤ} (hm : 0 < m) (h : Normalized m e) :
    Canonical (.finite s m e hm)

/-- Digits that are few enough are left as they are. -/
lemma shiftToTargetExponent_of_lt {n : ℕ} {t : ℤ} (hn : n < 2 ^ 53) (ht : -1074 ≤ t) :
    shiftToTargetExponent .binary64 n t .exact = (.ofMantissaAndAccuracy n .exact, t) := by
  have hlog : n.log2 < 53 := by
    rcases Nat.eq_zero_or_pos n with rfl | hpos
    · decide
    · exact (Nat.log2_lt hpos.ne').mpr hn
  have hshift : (Format.binary64.targetExponent (totalExponent n t) - t).toNat = 0 := by
    rw [targetExponent_eq]
    omega
  unfold shiftToTargetExponent shiftToExponent
  dsimp only
  rw [hshift, Nat.cast_zero, add_zero]
  rfl

/-- Rounding up can make one digit too many. -/
lemma shiftToTargetExponent_of_eq {t : ℤ} (ht : -1074 ≤ t) :
    shiftToTargetExponent .binary64 (2 ^ 53) t .exact =
      (.ofMantissaAndAccuracy (2 ^ 52) .exact, t + 1) := by
  have hshift : (Format.binary64.targetExponent (totalExponent (2 ^ 53) t) - t).toNat = 1 := by
    rw [targetExponent_eq, log2_two_pow]
    omega
  unfold shiftToTargetExponent shiftToExponent
  dsimp only
  rw [hshift, cast_one]
  rfl

lemma apply_natCast (s : Sign) (n : ℕ) : ((s.apply n : ℤ) : ℝ) = (s.apply 1 : ℤ) * n := by
  cases s <;> simp [Sign.apply]

/-- The number with a sign and some digits, the last of which is in a place. -/
def signedDigits (s : Sign) (m : ℕ) (e : ℤ) : UnpackedFloat :=
  if h : m = 0 then .zero s else .finite s m e (Nat.pos_of_ne_zero h)

lemma canonical_signedDigits (s : Sign) {m : ℕ} {e : ℤ} (h : Normalized m e) :
    Canonical (signedDigits s m e) := by
  by_cases hm : m = 0
  · rw [signedDigits, dif_pos hm]
    exact .zero s
  · rw [signedDigits, dif_neg hm]
    exact .finite s _ h

lemma ofUnpacked_signedDigits (s : Sign) (m : ℕ) (e : ℤ) :
    ofUnpacked (signedDigits s m e) = ((s.apply 1 : ℤ) * (m * 2 ^ e) : ℝ) := by
  by_cases hm : m = 0
  · rw [signedDigits, dif_pos hm, hm, cast_zero, zero_mul, mul_zero]
    rfl
  · rw [signedDigits, dif_neg hm]
    show real _ = _
    rw [apply_natCast, mul_assoc]

/-- Zeros behind the digits move the last place. -/
lemma shiftLeft_mul_zpow (m k : ℕ) (e : ℤ) : ((m <<< k : ℕ) : ℝ) * 2 ^ (e - k : ℤ) = m * 2 ^ e := by
  rw [shiftLeft_eq, cast_mul, cast_pow, cast_ofNat, mul_assoc, ← zpow_natCast,
    ← zpow_add₀ two_ne_zero, add_sub_cancel]

section

variable (s : Sign) {m : ℕ} (hm : 0 < m) {e : ℤ}

include hm

/-- The first shift leaves the digits down to the last place. -/
lemma roundedMantissa_shift (he : e ≤ lastPlace (m * 2 ^ e)) :
    (shiftToTargetExponent .binary64 m e .exact).2 = lastPlace (m * 2 ^ e) ∧
      (shiftToTargetExponent .binary64 m e .exact).1.roundedMantissa =
      nearestDigits (m * 2 ^ e) := by
  unfold shiftToTargetExponent shiftToExponent
  rw [targetExponent_eq_lastPlace hm]
  dsimp only
  have hshift : ((lastPlace (m * 2 ^ e) - e).toNat : ℤ) = lastPlace (m * 2 ^ e) - e :=
    Int.toNat_of_nonneg (sub_nonneg.mpr he)
  refine ⟨by omega, ?_⟩
  rw [((Tells.exact m).shiftRight _).roundedMantissa_eq, nearestDigits,
    powerOfTwo_eq, ← zpow_natCast, hshift, zpow_sub₀ two_ne_zero, div_div_eq_mul_div]

/-- Rounding a mantissa gives the nearest number. -/
lemma roundWithAccuracy_spec (he : e ≤ lastPlace (m * 2 ^ e)) :
    Canonical (roundWithAccuracy .binary64 s m e .exact) ∧
      ofUnpacked (roundWithAccuracy .binary64 s m e .exact) =
      ((s.apply 1 : ℤ) * nearest (m * 2 ^ e) : ℝ) := by
  have hx : 0 < (m : ℝ) * 2 ^ e := by positivity
  have hleast := le_lastPlace (m * 2 ^ e)
  obtain ⟨hexponent, hdigits⟩ := roundedMantissa_shift hm he
  have hround : roundWithAccuracy .binary64 s m e .exact =
      let (em, t) :=
        shiftToTargetExponent .binary64 (nearestDigits (m * 2 ^ e)) (lastPlace (m * 2 ^ e)) .exact
      signedDigits s em.mantissa t := by
    rw [← hexponent, ← hdigits]
    rfl
  rw [hround, nearest_eq]
  rcases (nearestDigits_le hx).lt_or_eq with hlt | heq
  · rw [shiftToTargetExponent_of_lt hlt hleast]
    exact ⟨canonical_signedDigits s ⟨hlt, hleast, or_iff_not_imp_left.mpr (le_nearestDigits hx)⟩,
      ofUnpacked_signedDigits s _ _⟩
  · rw [heq, shiftToTargetExponent_of_eq hleast]
    refine ⟨canonical_signedDigits s ⟨by decide, by omega, .inr (le_refl (2 ^ 52))⟩, ?_⟩
    show ofUnpacked (signedDigits s (2 ^ 52) _) = _
    rw [ofUnpacked_signedDigits, zpow_add₀ two_ne_zero, coe_inj]
    push_cast
    ring

/-- If there are too few digits, some zeros are added first. -/
lemma round_spec (e : ℤ) :
    Canonical (UnpackedFloat.round .binary64 s m e) ∧
      ofUnpacked (UnpackedFloat.round .binary64 s m e) =
      ((s.apply 1 : ℤ) * nearest (m * 2 ^ e) : ℝ) := by
  unfold UnpackedFloat.round decreaseExponent
  rw [targetExponent_eq_lastPlace hm]
  dsimp only
  generalize hk : (e - lastPlace (m * 2 ^ e)).toNat = k
  have hvalue := shiftLeft_mul_zpow m k e
  have hpos : 0 < m <<< k := by
    rw [shiftLeft_eq]
    positivity
  have hround := roundWithAccuracy_spec s hpos (e := e - k) (by rw [hvalue]; omega)
  rwa [hvalue] at hround

end

/-- Integers with an exponent are rounded by their size. -/
lemma normalize_spec (n e : ℤ) (s : Sign) :
    Canonical (UnpackedFloat.normalize .binary64 n e s) ∧
      ofUnpacked (UnpackedFloat.normalize .binary64 n e s) = (rounded (n * 2 ^ e) : ℝ) := by
  unfold UnpackedFloat.normalize
  rcases lt_trichotomy n 0 with hn | rfl | hn
  · have hnat : (((-n).toNat : ℕ) : ℝ) = -n := by
      exact_mod_cast Int.toNat_of_nonneg (Int.neg_nonneg_of_nonpos hn.le)
    rw [compare_lt_iff_lt.mpr hn]
    have hround := round_spec .negative (m := (-n).toNat) (by omega) e
    rw [hnat] at hround
    refine ⟨hround.1, hround.2.trans ?_⟩
    have hsize : 0 ≤ -(n : ℝ) * 2 ^ e := by
      have : (n : ℝ) ≤ 0 := by exact_mod_cast hn.le
      have := neg_nonneg.mpr this
      positivity
    rw [show (n : ℝ) * 2 ^ e = -(-(n : ℝ) * 2 ^ e) by ring, rounded_neg hsize]
    simp [Sign.apply]
  · rw [compare_eq_iff_eq.mpr rfl, Int.cast_zero, zero_mul, rounded_of_nonneg le_rfl, nearest_zero]
    exact ⟨.zero s, rfl⟩
  · have hnat : ((n.toNat : ℕ) : ℝ) = n := by exact_mod_cast Int.toNat_of_nonneg hn.le
    rw [compare_gt_iff_gt.mpr hn]
    have hround := round_spec .positive (m := n.toNat) (by omega) e
    rw [hnat] at hround
    refine ⟨hround.1, hround.2.trans ?_⟩
    have hsize : 0 ≤ (n : ℝ) * 2 ^ e := by
      have : (0 : ℝ) ≤ n := by exact_mod_cast hn.le
      positivity
    rw [rounded_of_nonneg hsize]
    simp [Sign.apply]

end SolidScript
