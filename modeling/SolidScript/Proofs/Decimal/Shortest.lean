import SolidScript.Decimal.Text
import SolidScript.Proofs.Rounding.Order

/-!
# Shortest digits tell numbers apart
-/

namespace SolidScript.Decimal

open Neighbourhood Nat

/-! ## Neighbourhoods -/

lemma cast_pow_toNat (base : ℕ) {e : ℤ} (he : 0 ≤ e) :
    ((Nat.pow base e.toNat : ℕ) : ℝ) = (base : ℝ) ^ e := by
  rw [Nat.pow_eq, Nat.cast_pow, ← zpow_natCast, Int.toNat_of_nonneg he]

namespace Binary

variable (b : Binary)

noncomputable def size : ℝ := b.significand * powerOfTwo b.exponent

/-- A quarter of the last place. -/
noncomputable def quarter : ℝ := powerOfTwo (b.exponent - 2)

/-- Where the numbers begin that are rounded to this one, in quarters of the last place. -/
def below : ℕ := 4 * b.significand - if b.significand = 2 ^ 52 ∧ -1074 < b.exponent then 1 else 2

noncomputable def low : ℝ := b.below * b.quarter

noncomputable def high : ℝ := (4 * b.significand + 2 : ℕ) * b.quarter

/-- A number is rounded to this one: it is not further away than the middle between floating-point
numbers, which belongs to an even one. -/
structure Rounds (x : ℝ) : Prop where
  ge : b.low ≤ x
  le : x ≤ b.high
  odd (hm : b.significand % 2 ≠ 0) : b.low ≠ x ∧ x ≠ b.high

abbrev IsNormalized : Prop := Normalized b.significand b.exponent

lemma quarter_pos : 0 < b.quarter := powerOfTwo_pos _

lemma size_eq : b.size = (4 * b.significand : ℕ) * b.quarter := by
  rw [size, quarter, powerOfTwo_eq, powerOfTwo_eq, zpow_sub₀ two_ne_zero]
  push_cast
  ring

/-- The neighbourhood of a number, all in quarters of its last place. -/
lemma neighbourhood_eq : ∃ up den : ℕ, 0 < den ∧ (up : ℝ) = b.quarter * den ∧
    of b = ⟨4 * b.significand * up, b.below * up, (4 * b.significand + 2) * up, den,
      b.significand % 2 = 0⟩ := by
  refine ⟨_, _, ?_, ?_, rfl⟩
  · split_ifs
    · exact Nat.one_pos
    · exact Nat.two_pow_pos _
  · rw [quarter, powerOfTwo]
    split_ifs with he
    · rw [cast_pow_toNat 2 he, Nat.cast_one, mul_one]
    · rw [cast_pow_toNat 2 (by omega), ← zpow_add₀ (by norm_num), add_neg_cancel, zpow_zero,
        Nat.cast_one]

lemma contains_iff (p : ℕ) {q : ℕ} (hq : 0 < q) :
    (of b).contains p q = true ↔ b.Rounds (p / q) := by
  obtain ⟨up, den, hden, hup, hof⟩ := b.neighbourhood_eq
  have hq : (0 : ℝ) < q := by exact_mod_cast hq
  have hden : (0 : ℝ) < den := by exact_mod_cast hden
  have hle (k : ℕ) : k * up * q ≤ p * den ↔ k * b.quarter ≤ (p : ℝ) / q := by
    rw [le_div_iff₀ hq, ← mul_le_mul_iff_left₀ hden, mul_right_comm _ (q : ℝ),
      mul_assoc (k : ℝ), ← hup]
    norm_cast
  have hge (k : ℕ) : p * den ≤ k * up * q ↔ (p : ℝ) / q ≤ k * b.quarter := by
    rw [div_le_iff₀ hq, ← mul_le_mul_iff_left₀ hden, mul_right_comm _ (q : ℝ),
      mul_assoc (k : ℝ), ← hup]
    norm_cast
  rw [hof, contains]
  dsimp only
  split_ifs with heven
  · rw [decide_eq_true_iff, hle, hge]
    exact ⟨fun h => ⟨h.1, h.2, fun hodd => absurd (of_decide_eq_true heven) hodd⟩,
      fun h => ⟨h.ge, h.le⟩⟩
  · rw [decide_eq_true_iff, ← not_le, ← not_le, hle, hge, not_le, not_le]
    have hodd : b.significand % 2 ≠ 0 := fun h => heven (decide_eq_true h)
    exact ⟨fun h => ⟨h.1.le, h.2.le, fun _ => ⟨h.1.ne, h.2.ne⟩⟩,
      fun h => ⟨h.ge.lt_of_ne (h.odd hodd).1, h.le.lt_of_ne (h.odd hodd).2⟩⟩

variable {b} {c : Binary} {x : ℝ}

/-- What is rounded to a number is below what is rounded to a larger one. -/
lemma Rounds.not_larger (hb : b.IsNormalized) (hc : c.IsNormalized)
    (hlt : b.exponent < c.exponent ∨ b.exponent = c.exponent ∧ b.significand < c.significand)
    (h : b.Rounds x) : ¬c.Rounds x := by
  intro h'
  have hu := b.quarter_pos
  -- the neighbourhoods have at most one number in common, and of the two only one can be even
  have hends : b.high ≤ c.low ∧
      (b.high = c.low → b.significand % 2 ≠ 0 ∨ c.significand % 2 ≠ 0) := by
    rcases hlt with hlt | ⟨heq, hlt⟩
    · have hfull := hc.full.resolve_left (by have := hb.least; omega)
      have hdouble : 2 * b.quarter ≤ c.quarter := by
        rw [quarter, quarter, powerOfTwo_eq, powerOfTwo_eq, ← zpow_one_add₀ two_ne_zero]
        exact zpow_le_zpow_right₀ one_le_two (by omega)
      have hleast : 2 ^ 54 - 1 ≤ c.below := by
        have := hb.least
        unfold below
        split_ifs <;> omega
      have hdigits := hb.lt
      have hmul : ((2 ^ 54 - 1 : ℕ) : ℝ) * (2 * b.quarter) ≤ c.low := by
        unfold low
        gcongr
      have hmost : ((4 * b.significand + 2 : ℕ) : ℝ) ≤ (2 ^ 54 - 1 : ℕ) * 2 := by
        exact_mod_cast (by omega)
      unfold high
      refine ⟨by nlinarith, fun heq => .inl ?_⟩
      have hge : ((2 ^ 54 - 1 : ℕ) : ℝ) * 2 ≤ (4 * b.significand + 2 : ℕ) :=
        le_of_mul_le_mul_right (by linarith) hu
      have : (2 ^ 54 - 1) * 2 ≤ 4 * b.significand + 2 := by exact_mod_cast hge
      omega
    · have hlow : 4 * c.significand ≤ c.below + 2 := by
        unfold below
        split_ifs <;> omega
      have hquarter : c.quarter = b.quarter := by rw [quarter, quarter, heq]
      unfold high low
      rw [hquarter]
      refine ⟨by gcongr; omega, fun heq => ?_⟩
      have : 4 * b.significand + 2 = c.below := by exact_mod_cast mul_right_cancel₀ hu.ne' heq
      unfold below at this
      split_ifs at this <;> omega
  have hx := le_antisymm (h.le.trans hends.1) h'.ge
  rcases hends.2 (le_antisymm hends.1 (h'.ge.trans h.le)) with hodd | hodd
  · exact (h.odd hodd).2 (le_antisymm h.le (hends.1.trans h'.ge))
  · exact (h'.odd hodd).1 hx.symm

lemma Rounds.unique (hb : b.IsNormalized) (hc : c.IsNormalized) (h : b.Rounds x) (h' : c.Rounds x) :
    b.significand = c.significand ∧ b.exponent = c.exponent := by
  by_contra! hne
  rcases lt_trichotomy b.exponent c.exponent with hlt | heq | hgt
  · exact h.not_larger hb hc (.inl hlt) h'
  · rcases lt_or_gt_of_ne fun hm => hne hm heq with hlt | hgt
    · exact h.not_larger hb hc (.inr ⟨heq, hlt⟩) h'
    · exact h'.not_larger hc hb (.inr ⟨heq.symm, hgt⟩) h
  · exact h'.not_larger hc hb (.inl hgt) h

end Binary

variable {b : Binary} {tie : Tie}

/-! ## Grids -/

/-- The power of ten with an exponent. -/
noncomputable def powerOfTen (e : ℤ) : ℝ := ((10 : ℕ) : ℝ) ^ e

lemma powerOfTen_eq (e : ℤ) : powerOfTen e = 10 ^ e := by
  unfold powerOfTen
  rw [cast_ofNat]

/-- The number that a decimal stands for. -/
noncomputable def Scaled.value (d : Scaled) : ℝ := d.digits * powerOfTen d.exponent

/-- A power of ten as a quotient. -/
lemma timesPowerOfTen_spec (e : ℤ) {q : Fraction} (hq : Fraction.timesPowerOfTen ⟨1, 1⟩ e = q) :
    0 < q.num ∧ 0 < q.den ∧ (q.num : ℝ) = powerOfTen e * q.den := by
  unfold Fraction.timesPowerOfTen at hq
  split_ifs at hq with he <;> subst hq <;> dsimp only <;> rw [one_mul, powerOfTen]
  · rw [cast_pow_toNat 10 he, Nat.cast_one, mul_one]
    exact ⟨Nat.pow_pos (Nat.succ_pos 9), Nat.one_pos, rfl⟩
  · rw [cast_pow_toNat 10 (by omega), ← zpow_add₀ (by norm_num), add_neg_cancel, zpow_zero,
      Nat.cast_one]
    exact ⟨Nat.one_pos, Nat.pow_pos (Nat.succ_pos 9), rfl⟩

lemma nearer_cases (tie : Tie) (below rest unit : ℕ) :
    tie.nearer below rest unit = below ∨ tie.nearer below rest unit = below + 1 := by
  unfold Tie.nearer
  cases tie <;> dsimp only <;> split_ifs <;> simp

/-- A grid is looked at in the two points next to the number. -/
lemma onGrid_cases (b : Binary) (tie : Tie) (k : ℤ) : ∃ below : ℕ,
    below * powerOfTen k ≤ b.size ∧ b.size < (below + 1 : ℕ) * powerOfTen k ∧
    (∀ d, (of b).onGrid tie k = some d → b.Rounds d.value) ∧
    ((of b).onGrid tie k = none →
      ¬b.Rounds (below * powerOfTen k) ∧ ¬b.Rounds ((below + 1 : ℕ) * powerOfTen k)) := by
  obtain ⟨up, den, hden, hup, hof⟩ := b.neighbourhood_eq
  unfold onGrid
  generalize hunit : Fraction.timesPowerOfTen ⟨1, 1⟩ k = unit
  obtain ⟨hnum, hden', hnumden⟩ := timesPowerOfTen_spec k hunit
  have hholds (d : ℕ) : (of b).contains (d * unit.num) unit.den = true ↔
      b.Rounds (d * powerOfTen k) := by
    rw [b.contains_iff _ hden', cast_mul, hnumden, ← mul_assoc,
      mul_div_cancel_right₀ _ (by positivity)]
  have hpos : (0 : ℝ) < den * unit.den := by positivity
  have hvalue : (((of b).value * unit.den : ℕ) : ℝ) = b.size * (den * unit.den) := by
    rw [hof, b.size_eq]
    push_cast
    rw [hup]
    ring
  have hstep (d : ℕ) : ((d * ((of b).den * unit.num) : ℕ) : ℝ) =
      d * powerOfTen k * (den * unit.den) := by
    rw [hof]
    push_cast
    rw [hnumden]
    ring
  refine ⟨(of b).value * unit.den / ((of b).den * unit.num), ?_,
    ?_, ?_, ?_⟩
  · refine le_of_mul_le_mul_right ?_ hpos
    rw [← hvalue, ← hstep]
    exact_mod_cast div_mul_le_self _ _
  · refine lt_of_mul_lt_mul_right ?_ hpos.le
    rw [← hvalue, ← hstep]
    have hdiv : 0 < (of b).den * unit.num := by
      rw [hof]
      positivity
    exact_mod_cast (div_lt_iff_lt_mul hdiv).mp (lt_succ_self _)
  · intro d hd
    dsimp only at hd
    split at hd <;> rename_i hbelow habove <;> cases hd
    · exact (hholds _).mp hbelow
    · exact (hholds _).mp habove
    · unfold Scaled.value
      dsimp only
      rcases nearer_cases tie _ _ _ with hnearer | hnearer <;> rw [hnearer]
      · exact (hholds _).mp hbelow
      · exact (hholds _).mp habove
  · intro hnone
    rw [← hholds, ← hholds]
    dsimp only at hnone
    split at hnone <;> rename_i hbelow habove <;> cases hnone
    exact ⟨ne_true_of_eq_false hbelow, ne_true_of_eq_false habove⟩

/-- On a grid that is fine enough, one of the two points is near enough: the neighbourhood is wider
than a step. -/
lemma onGrid_ne_none (hb : b.IsNormalized) (hpos : 0 < b.significand) {k : ℤ}
    (hk : powerOfTen k * 10 ^ 16 ≤ b.size) : (of b).onGrid tie k ≠ none := by
  obtain ⟨below, hbelow, habove, -, hnone⟩ := onGrid_cases b tie k
  intro h
  obtain ⟨hnot, hnot'⟩ := hnone h
  have hunit := b.quarter_pos
  have hlow : b.below < 4 * b.significand := by
    unfold Binary.below
    split_ifs <;> omega
  have hinside : b.low < b.size ∧ b.size < b.high := by
    rw [b.size_eq, Binary.low, Binary.high]
    exact ⟨by gcongr, by gcongr; omega⟩
  have hbelow' : below * powerOfTen k ≤ b.low := by
    by_contra! hlt
    have hhigh := hbelow.trans_lt hinside.2
    exact hnot ⟨hlt.le, hhigh.le, fun _ => ⟨hlt.ne, hhigh.ne⟩⟩
  have habove' : b.high ≤ (below + 1 : ℕ) * powerOfTen k := by
    by_contra! hlt
    have hge := hinside.1.trans habove
    exact hnot' ⟨hge.le, hlt.le, fun _ => ⟨hge.ne, hlt.ne⟩⟩
  -- so a step would be as wide as the neighbourhood
  have hwide : ((4 * b.significand + 2 - b.below : ℕ) : ℝ) * 10 ^ 16 ≤ (4 * b.significand : ℕ) := by
    rw [cast_sub (by omega)]
    refine le_of_mul_le_mul_right ?_ hunit
    rw [b.size_eq] at hk
    unfold Binary.low at hbelow'
    unfold Binary.high at habove'
    push_cast at habove' hk ⊢
    linarith
  have hwide' : (4 * b.significand + 2 - b.below) * 10 ^ 16 ≤ 4 * b.significand := by
    exact_mod_cast hwide
  have hdigits := hb.lt
  unfold Binary.below at hwide'
  split_ifs at hwide' <;> omega

lemma lt_pow_digitCount (n : ℕ) : n < 10 ^ digitCount n :=
  (length_toDigits_le_iff (by decide) length_toDigits_pos).mp le_rfl

lemma pow_digitCount_le {n : ℕ} (hn : 0 < n) : 10 ^ (digitCount n - 1) ≤ n := by
  rcases Nat.eq_zero_or_pos (digitCount n - 1) with h | h
  · rw [h]
    exact hn
  · by_contra! hlt
    have := (Nat.length_toDigits_le_iff (by decide) h).mpr hlt
    unfold digitCount at this h
    omega

/-- The leading digit is in the place that it should be in. -/
lemma powerOfTen_leadingExponent_le {q : Fraction} (hnum : 0 < q.num) (hden : 0 < q.den) :
    powerOfTen q.leadingExponent ≤ q.num / q.den := by
  have hnum' : (0 : ℝ) < q.num := by exact_mod_cast hnum
  have hden' : (0 : ℝ) < q.den := by exact_mod_cast hden
  unfold Fraction.leadingExponent
  have hpow {e : ℤ} {k : ℕ} (h : e = k) : powerOfTen e = (10 ^ k : ℕ) := by
    rw [h, powerOfTen, zpow_natCast, cast_pow]
  have hinv {e : ℤ} {k : ℕ} (h : e = -k) (hk : q.den ≤ q.num * 10 ^ k) :
      powerOfTen e ≤ q.num / q.den := by
    rw [h, powerOfTen, zpow_neg, zpow_natCast, ← cast_pow,
      inv_le_iff_one_le_mul₀' (by positivity), ← mul_div_assoc, one_le_div hden', mul_comm]
    exact_mod_cast hk
  split_ifs with hle
  · have hpos : 0 < digitCount (q.num / q.den) := length_toDigits_pos
    rw [hpow (k := digitCount (q.num / q.den) - 1) (by omega)]
    exact (cast_le.mpr (pow_digitCount_le (div_pos hle hden))).trans cast_div_le
  · have hpos : 0 < digitCount (q.den / q.num) := length_toDigits_pos
    dsimp only
    split_ifs with hexact
    · exact hinv (k := digitCount (q.den / q.num) - 1) (by omega) hexact.ge
    · refine hinv rfl ?_
      rw [mul_comm]
      exact ((div_lt_iff_lt_mul hnum).mp (lt_pow_digitCount _)).le

lemma rounds_of_search {lead : ℤ} {more digits : ℕ} {d : Scaled}
    (h : (of b).search tie lead digits more = some d) : b.Rounds d.value := by
  induction more generalizing digits with
  | zero => cases h
  | succ more ih =>
    rw [search] at h
    split at h
    · rename_i d' hgrid
      obtain rfl := Option.some.inj h
      obtain ⟨below, -, -, hrounds, -⟩ := onGrid_cases b tie (lead + 1 - digits)
      exact hrounds _ hgrid
    · exact ih h

lemma search_ne_none {n : Neighbourhood} {lead : ℤ} {more digits : ℕ}
    (h : n.onGrid tie (lead + 1 - (digits + more : ℕ)) ≠ none) :
    n.search tie lead digits (more + 1) ≠ none := by
  induction more generalizing digits with
  | zero =>
    rw [search]
    split
    · exact Option.some_ne_none _
    · exact absurd ‹_› h
  | succ more ih =>
    rw [search]
    split
    · exact Option.some_ne_none _
    · refine ih ?_
      rwa [succ_add_eq_add_succ]

lemma value_trim (d : Scaled) : d.trim.value = d.value := by
  have hgo (fuel : ℕ) : ∀ d, (Scaled.trim.go fuel d).value = d.value := by
    induction fuel with
    | zero => exact fun d => rfl
    | succ fuel ih =>
      intro d
      rw [Scaled.trim.go]
      split_ifs with hzero
      · rw [ih, Scaled.value, Scaled.value, powerOfTen_eq, powerOfTen_eq,
          zpow_add_one₀ (by norm_num)]
        have hdigits : (d.digits : ℝ) = (d.digits / 10 : ℕ) * 10 := by
          exact_mod_cast (Nat.div_mul_cancel (Nat.dvd_of_mod_eq_zero hzero.2)).symm
        rw [hdigits]
        dsimp only
        ring
      · rfl
  exact hgo _ d

lemma magnitude_spec (hpos : 0 < b.significand) : 0 < b.magnitude.num ∧ 0 < b.magnitude.den ∧
    (b.magnitude.num : ℝ) / b.magnitude.den = b.size := by
  unfold Binary.magnitude Fraction.scaled
  split_ifs with he <;> dsimp only
  · rw [Nat.cast_mul, cast_pow_toNat 2 he, Nat.cast_one, div_one]
    exact ⟨Nat.mul_pos hpos (Nat.two_pow_pos _), Nat.one_pos, rfl⟩
  · rw [cast_pow_toNat 2 (by omega), zpow_neg, div_inv_eq_mul]
    exact ⟨hpos, Nat.two_pow_pos _, rfl⟩

/-- The shortest digits are rounded to the number again. -/
lemma rounds_shortest {x : Float} (hx : Binary.ofFloat x = b) (hb : b.IsNormalized)
    (hpos : 0 < b.significand) (tie : Tie) : b.Rounds (shortest tie x).value := by
  unfold shortest
  dsimp only
  rw [hx]
  have hsearch : (of b).search tie b.magnitude.leadingExponent 1 17 ≠ none := by
    refine search_ne_none (onGrid_ne_none hb hpos ?_)
    obtain ⟨hnum, hden, hvalue⟩ := magnitude_spec hpos
    refine le_trans (le_of_eq ?_) ((powerOfTen_leadingExponent_le hnum hden).trans_eq hvalue)
    rw [powerOfTen_eq, powerOfTen_eq, ← zpow_natCast, ← zpow_add₀ (by norm_num)]
    congr 1
    push_cast
    ring
  split
  · rw [value_trim]
    exact rounds_of_search ‹_›
  · exact absurd ‹_› hsearch

end SolidScript.Decimal
