import Mathlib.Analysis.SpecialFunctions.Sqrt
import Mathlib.Tactic.Common
import Mathlib.Tactic.Linarith
import SolidScript.Geometry.Distance

/-!
# Arithmetic without rounding

The scalar that formulas are read over when rounding is left out: the real numbers, two infinities,
and one value for what has none, with the rules that floating-point arithmetic has for them. Zero
has no sign, and counts as positive where something is divided by it.
-/

namespace SolidScript

/-- The real numbers are a scalar as well, for formulas that never meet an infinity: there is none,
and zero is in its place. -/
noncomputable instance : Scalar ℝ where
  beq x y := decide (x = y)
  decLt _ _ := Classical.propDecidable _
  decLe _ _ := Classical.propDecidable _
  ofCount n := n
  ceilCount x := Nat.min ⌈x⌉₊ maxCount
  sqrt x := √x
  abs x := |x|
  infinity := 0
  isFinite _ := true

/-- A number without rounding. -/
inductive Exact where
  | real (x : ℝ)
  | posInf
  | negInf
  /-- The result of an operation that has none, as a difference of equal infinities. -/
  | nan

namespace Exact

attribute [coe] real

instance : Coe ℝ Exact := ⟨real⟩

/-! ## Operations -/

/-- The infinity on the side of a number; zero is on no side. -/
noncomputable def towards (x : ℝ) : Exact := if 0 < x then posInf else if x < 0 then negInf else nan

def neg : Exact → Exact
  | real x => real (-x)
  | posInf => negInf
  | negInf => posInf
  | nan => nan

noncomputable def add : Exact → Exact → Exact
  | real x, real y => real (x + y)
  | posInf, real _ | real _, posInf | posInf, posInf => posInf
  | negInf, real _ | real _, negInf | negInf, negInf => negInf
  | _, _ => nan

noncomputable def mul : Exact → Exact → Exact
  | real x, real y => real (x * y)
  | real x, posInf | posInf, real x => towards x
  | real x, negInf | negInf, real x => towards (-x)
  | posInf, posInf | negInf, negInf => posInf
  | posInf, negInf | negInf, posInf => negInf
  | _, _ => nan

noncomputable def div : Exact → Exact → Exact
  | real x, real y => if y = 0 then towards x else real (x / y)
  | real _, posInf | real _, negInf => real 0
  | posInf, real y => if y < 0 then negInf else posInf
  | negInf, real y => if y < 0 then posInf else negInf
  | _, _ => nan

def lt : Exact → Exact → Prop
  | real x, real y => x < y
  | real _, posInf | negInf, real _ | negInf, posInf => True
  | _, _ => False

def le : Exact → Exact → Prop
  | real x, real y => x ≤ y
  | real _, posInf | negInf, real _ | negInf, posInf | posInf, posInf | negInf, negInf => True
  | _, _ => False

noncomputable def beq : Exact → Exact → Bool
  | real x, real y => decide (x = y)
  | posInf, posInf | negInf, negInf => true
  | _, _ => false

noncomputable def sqrt : Exact → Exact
  | real x => if x < 0 then nan else real √x
  | posInf => posInf
  | _ => nan

def abs : Exact → Exact
  | real x => real |x|
  | posInf | negInf => posInf
  | nan => nan

def isFinite : Exact → Bool
  | real _ => true
  | _ => false

noncomputable def ceilCount : Exact → Nat
  | real x => Nat.min ⌈x⌉₊ maxCount
  | posInf => maxCount
  | _ => 0

/-- Formulas are read without rounding. -/
noncomputable instance : Scalar Exact where
  zero := real 0
  one := real 1
  add := add
  sub a b := add a (neg b)
  mul := mul
  div := div
  neg := neg
  lt := lt
  le := le
  beq := beq
  ofScientific m s e := real (OfScientific.ofScientific m s e)
  decLt _ _ := Classical.propDecidable _
  decLe _ _ := Classical.propDecidable _
  ofCount n := real n
  ceilCount := ceilCount
  sqrt := sqrt
  abs := abs
  infinity := posInf
  isFinite := isFinite

/-! ## Real numbers -/

variable (x y : ℝ)

/-- Different real numbers stay different. -/
@[simp] lemma coe_inj : (x : Exact) = y ↔ x = y := ⟨fun h => real.inj h, congrArg real⟩

/-- Zero is a real number. -/
lemma zero_eq_coe : (0 : Exact) = (0 : ℝ) := rfl

lemma one_eq_coe : (1 : Exact) = (1 : ℝ) := rfl

/-- Numerals are real numbers. -/
lemma two_eq_coe : (2.0 : Exact) = (2 : ℝ) := by
  show real (OfScientific.ofScientific 20 true 1) = real 2
  norm_num

lemma half_eq_coe : (0.5 : Exact) = (1 / 2 : ℝ) := by
  show real (OfScientific.ofScientific 5 true 1) = real (1 / 2)
  norm_num

/-- On real numbers the operations are those of the reals. -/
@[simp] lemma neg_coe : -(x : Exact) = ((-x : ℝ) : Exact) := rfl

@[simp] lemma add_coe : (x : Exact) + y = ((x + y : ℝ) : Exact) := rfl

@[simp] lemma sub_coe : (x : Exact) - y = ((x - y : ℝ) : Exact) :=
  congrArg real (sub_eq_add_neg x y).symm

@[simp] lemma mul_coe : (x : Exact) * y = ((x * y : ℝ) : Exact) := rfl

/-- Division, but by zero. -/
@[simp] lemma div_coe {y : ℝ} (hy : y ≠ 0) : (x : Exact) / y = ((x / y : ℝ) : Exact) := if_neg hy

/-- Real numbers are in their order. -/
@[simp] lemma coe_lt_coe : (x : Exact) < y ↔ x < y := Iff.rfl

@[simp] lemma coe_le_coe : (x : Exact) ≤ y ↔ x ≤ y := Iff.rfl

/-- The absolute value of a real number. -/
@[simp] lemma abs_coe : Scalar.abs (x : Exact) = (|x| : ℝ) := rfl

/-- The root of a number that is not negative. -/
@[simp] lemma sqrt_coe {x : ℝ} (hx : 0 ≤ x) : Scalar.sqrt (x : Exact) = (√x : ℝ) :=
  if_neg (not_lt.mpr hx)

/-- A real number has a value. -/
lemma isNaN_coe : Scalar.isNaN (x : Exact) = false := by
  show (!decide (x = x)) = false
  simp

/-- The smaller of two real numbers. -/
@[simp] lemma min_coe : Scalar.min (x : Exact) y = (min x y : ℝ) := by
  unfold Scalar.min
  rw [isNaN_coe, if_neg Bool.false_ne_true]
  split <;> rename_i h
  · rw [min_eq_right h.le]
  · rw [min_eq_left (not_lt.mp h)]

/-- The larger of two real numbers. -/
@[simp] lemma max_coe : Scalar.max (x : Exact) y = (max x y : ℝ) := by
  unfold Scalar.max
  rw [isNaN_coe, if_neg Bool.false_ne_true]
  split <;> rename_i h
  · rw [max_eq_right h.le]
  · rw [max_eq_left (not_lt.mp h)]

/-- Of real numbers the lower end is the smaller one. -/
@[simp] lemma lower_coe : Scalar.lower (x : Exact) y = (min x y : ℝ) := by
  unfold Scalar.lower
  split <;> rename_i h
  · rw [min_eq_left h]
  · rw [min_eq_right (not_le.mp h).le]

/-- Of real numbers the upper end is the larger one. -/
@[simp] lemma upper_coe : Scalar.upper (x : Exact) y = (max x y : ℝ) := by
  unfold Scalar.upper
  split <;> rename_i h
  · rw [max_eq_left h]
  · rw [max_eq_right (not_le.mp h).le]

/-- A real number held between two bounds. -/
@[simp] lemma clamp_coe {lo hi : ℝ} (h : lo ≤ hi) :
    Scalar.clamp (x : Exact) lo hi = (max lo (min hi x) : ℝ) := by
  unfold Scalar.clamp
  split <;> rename_i hlo
  · rw [min_eq_right (hlo.le.trans h), max_eq_left hlo.le]
  · split <;> rename_i hhi
    · rw [min_eq_left hhi.le, max_eq_right h]
    · rw [min_eq_right (not_lt.mp hhi), max_eq_right (not_lt.mp hlo)]

/-- The point at a share of the way between two real numbers. -/
@[simp] lemma lerp_coe (t : ℝ) : Scalar.lerp (x : Exact) y t = (x + (y - x) * t : ℝ) := by
  unfold Scalar.lerp
  rw [sub_coe, mul_coe, add_coe]

/-! ## Infinities -/

@[simp] lemma isNaN_posInf : Scalar.isNaN posInf = false := rfl

/-- Every real number is below positive infinity. -/
lemma coe_lt_posInf (x : ℝ) : (x : Exact) < posInf := trivial

/-- Every real number is above negative infinity. -/
lemma negInf_lt_coe (x : ℝ) : negInf < (x : Exact) := trivial

variable (a : Exact)

/-- Nothing is above positive infinity. -/
lemma not_posInf_lt : ¬posInf < a := by cases a <;> exact id

/-- Nothing is below negative infinity. -/
lemma not_lt_negInf : ¬a < negInf := by cases a <;> exact id

/-- Positive infinity does not lower a minimum. -/
@[simp] lemma min_posInf (x : ℝ) : Scalar.min (x : Exact) posInf = x := by
  simp [Scalar.min, isNaN_coe, not_posInf_lt]

@[simp] lemma posInf_min (x : ℝ) : Scalar.min posInf (x : Exact) = x := by
  simp [Scalar.min, coe_lt_posInf]

/-- Positive infinity wins a maximum. -/
@[simp] lemma max_posInf (x : ℝ) : Scalar.max (x : Exact) posInf = posInf := by
  simp [Scalar.max, isNaN_coe, coe_lt_posInf]

@[simp] lemma posInf_max : Scalar.max posInf a = posInf := by
  simp [Scalar.max, not_posInf_lt]

/-- Negative infinity does not raise a maximum. -/
@[simp] lemma max_negInf (x : ℝ) : Scalar.max (x : Exact) negInf = x := by
  simp [Scalar.max, isNaN_coe, not_lt_negInf]

@[simp] lemma negInf_max (x : ℝ) : Scalar.max negInf (x : Exact) = x := by
  simp [Scalar.max, negInf_lt_coe]

/-- A positive factor keeps infinity. -/
lemma posInf_mul {x : ℝ} (hx : 0 < x) : posInf * (x : Exact) = posInf := if_pos hx

/-- The factor one changes nothing, not even what has no value. -/
lemma mul_coe_one : a * ((1 : ℝ) : Exact) = a := by
  cases a with
  | real x => exact congrArg real (mul_one x)
  | posInf => exact posInf_mul one_pos
  | negInf => exact (if_neg (by norm_num)).trans (if_pos (by norm_num))
  | nan => rfl

@[simp] lemma min_idem : Scalar.min a a = a := by
  unfold Scalar.min
  split_ifs <;> rfl

end Exact

end SolidScript
