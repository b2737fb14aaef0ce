import SolidScript.Proofs.Geometry.Reading

/-!
# Floating-point numbers read without rounding

Every floating-point number stands for an exact one. Results of floating-point arithmetic are
rounded, so they are rarely those of exact arithmetic, but where a factor is zero there is nothing
to round: the product is zero again, or not a number.
-/

namespace SolidScript

open Float.Model (UnpackedFloat)

namespace Exact

/-- The number that an unpacked floating-point number stands for. -/
noncomputable def ofUnpacked : UnpackedFloat → Exact
  | .infinity .positive => posInf
  | .infinity .negative => negInf
  | .notANumber => nan
  | .zero _ => real 0
  | .finite sign mantissa exponent _ => real ((sign.apply mantissa : ℤ) * 2 ^ exponent)

/-- The number that a floating-point number stands for. -/
noncomputable def ofFloat (x : Float) : Exact := ofUnpacked x.toModel.unpack

/-! ## Which numbers are real -/

@[simp] lemma isFinite_towards (x : ℝ) : (towards x).isFinite = false := by
  unfold towards
  split_ifs <;> rfl

@[simp] lemma isFinite_neg (a : Exact) : (-a).isFinite = a.isFinite := by
  cases a <;> rfl

@[simp] lemma isFinite_add (a b : Exact) : (a + b).isFinite = (a.isFinite && b.isFinite) := by
  cases a <;> cases b <;> rfl

@[simp] lemma isFinite_sub (a b : Exact) : (a - b).isFinite = (a.isFinite && b.isFinite) := by
  rw [← isFinite_neg b, ← isFinite_add]
  rfl

@[simp] lemma isFinite_mul (a b : Exact) : (a * b).isFinite = (a.isFinite && b.isFinite) := by
  cases a <;> cases b <;> first | rfl | exact isFinite_towards _

/-- Whether a quotient is real is a matter of the divisor, if it was before. -/
lemma isFinite_div_congr {a b : Exact} (h : a.isFinite = b.isFinite) (c : Exact) :
    (a / c).isFinite = (b / c).isFinite := by
  have hreal (x : ℝ) : (real x / c).isFinite = (real 0 / c).isFinite := by
    cases c with
    | real y =>
      show (if y = 0 then towards x else real (x / y)).isFinite =
        (if y = 0 then towards 0 else real (0 / y)).isFinite
      split_ifs
      · rw [isFinite_towards, isFinite_towards]
      · rfl
    | _ => rfl
  -- no divisor makes an infinite number real again
  have hother {a : Exact} (ha : a.isFinite = false) : (a / c).isFinite = false := by
    cases a with
    | real x => cases ha
    | nan => cases c <;> rfl
    | posInf | negInf =>
      cases c with
      | real y =>
        show (if y < 0 then _ else _ : Exact).isFinite = false
        split_ifs <;> rfl
      | _ => rfl
  cases a with
  | real x =>
    cases b with
    | real y => rw [hreal x, hreal y]
    | _ => cases h
  | _ => rw [hother rfl, hother h.symm]

/-! ## Factors that forget -/

/-- Zero, or no number at all. -/
def IsVoid (a : Exact) : Prop := a = 0 ∨ a = nan

/-- The product with such a factor tells no more than whether the other factor is real. -/
lemma IsVoid.mul_congr {c a b : Exact} (hc : c.IsVoid) (h : a.isFinite = b.isFinite) :
    c * a = c * b := by
  rcases hc with rfl | rfl
  · -- zero times a real number is zero, and zero times anything else is not a number
    have hreal (x : ℝ) : (0 : Exact) * real x = 0 := congrArg real (zero_mul x)
    have htowards : towards 0 = nan := by
      unfold towards
      rw [if_neg (lt_irrefl 0), if_neg (lt_irrefl 0)]
    have hother {a : Exact} (ha : a.isFinite = false) : (0 : Exact) * a = nan := by
      cases a with
      | real x => cases ha
      | posInf => exact htowards
      | negInf => exact (congrArg towards neg_zero).trans htowards
      | nan => rfl
    cases a with
    | real x =>
      cases b with
      | real y => rw [hreal x, hreal y]
      | _ => cases h
    | _ => rw [hother rfl, hother h.symm]
  · cases a <;> cases b <;> rfl

protected lemma mul_comm (a b : Exact) : a * b = b * a := by
  cases a with
  | real x =>
    cases b with
    | real y => exact congrArg real (mul_comm x y)
    | _ => rfl
  | _ => cases b <;> rfl

/-- Of a factor of something void, only finiteness matters. -/
lemma IsVoid.congr_mul {c a b : Exact} (hc : c.IsVoid) (h : a.isFinite = b.isFinite) :
    a * c = b * c := by
  rw [Exact.mul_comm a, Exact.mul_comm b, hc.mul_congr h]

end Exact

/-! ## Floating-point numbers that stand for such factors -/

/-- A zero of either sign, or not a number. -/
def IsNull (x : Float) : Prop :=
  (∃ sign, x.toModel.unpack = .zero sign) ∨ x.toModel.unpack = .notANumber

namespace IsNull

variable {x y : Float}

/-- Read exactly, a null is void. -/
lemma isVoid (h : IsNull x) : (Exact.ofFloat x).IsVoid := by
  unfold Exact.ofFloat
  rcases h with ⟨sign, h⟩ | h <;> rw [h]
  · exact .inl rfl
  · exact .inr rfl

/-- Zeros and what is not a number are packed without loss. -/
lemma of_pack {u : UnpackedFloat} (h : (∃ sign, u = .zero sign) ∨ u = .notANumber) :
    IsNull (.ofModel (.pack u)) := by
  rcases h with ⟨sign, rfl⟩ | rfl
  · cases sign <;> exact .inl ⟨_, rfl⟩
  · exact .inr rfl

/-- Products with nulls are nulls. -/
lemma mul (hx : IsNull x) (y : Float) : IsNull (x * y) := by
  refine of_pack ?_
  rcases hx with ⟨sign, hx⟩ | hx <;> rw [hx]
  · cases y.toModel.unpack with
    | zero | finite => exact .inl ⟨_, rfl⟩
    | infinity | notANumber => exact .inr rfl
  · exact .inr rfl

/-- So are quotients of nulls. -/
lemma div (hx : IsNull x) (y : Float) : IsNull (x / y) := by
  refine of_pack ?_
  rcases hx with ⟨sign, hx⟩ | hx <;> rw [hx]
  · cases y.toModel.unpack with
    | infinity | finite => exact .inl ⟨_, rfl⟩
    | zero | notANumber => exact .inr rfl
  · exact .inr rfl

/-- And sums of nulls. -/
lemma add (hx : IsNull x) (hy : IsNull y) : IsNull (x + y) := by
  refine of_pack ?_
  rcases hx with ⟨sign, hx⟩ | hx <;> rcases hy with ⟨sign', hy⟩ | hy <;> rw [hx, hy]
  · cases sign <;> cases sign' <;> exact .inl ⟨_, rfl⟩
  all_goals exact .inr rfl

lemma sub (hx : IsNull x) (hy : IsNull y) : IsNull (x - y) := by
  refine of_pack ?_
  rcases hx with ⟨sign, hx⟩ | hx <;> rcases hy with ⟨sign', hy⟩ | hy <;> rw [hx, hy]
  · cases sign <;> cases sign' <;> exact .inl ⟨_, rfl⟩
  all_goals exact .inr rfl

lemma zero : IsNull 0 := .inl ⟨_, rfl⟩

end IsNull

/-- A turn about the third axis mixes nothing of the third coordinate into the others. -/
lemma Rotation.isNull_around_third (c s : Float) :
    IsNull (around ⟨0, 0, 1⟩ c s).col1.z ∧ IsNull (around ⟨0, 0, 1⟩ c s).col2.z := by
  have hnull : IsNull 0 := .zero
  exact ⟨((hnull.mul 1).mul (1 - c)).sub (hnull.mul s),
    ((hnull.mul 1).mul (1 - c)).add (hnull.mul s)⟩

lemma Rotation.isNull_ofAxisAngle_third (angle : Float) :
    IsNull (ofAxisAngle ⟨0, 0, 1⟩ angle).col1.z ∧ IsNull (ofAxisAngle ⟨0, 0, 1⟩ angle).col2.z := by
  unfold ofAxisAngle
  split
  · exact ⟨.zero, .zero⟩
  · exact isNull_around_third _ _

end SolidScript
