import Mathlib.Data.List.TakeWhile
import Mathlib.Data.Nat.Cast.Field
import SolidScript.Proofs.Decimal.Shortest
import SolidScript.Value.Text

/-!
# Numbers read back from their text
-/

namespace SolidScript

open Float.Model (UnpackedFloat)
open Float.Model.UnpackedFloat
open List Decimal

namespace Decimal

variable {x : Float}

/-! ## The parts of a number -/

def sign (x : Float) : Sign := if isNegative x then .negative else .positive

lemma ofBitVec_unpackSign_toModel (x : Float) :
    Sign.ofBitVec (@unpackSign .binary64 x.toModel.toBits.toBitVec) = sign x := by
  have hbit : (@unpackSign .binary64 x.toModel.toBits.toBitVec).toNat =
      x.toBits.toNat / 2 ^ 63 % 2 := by
    unfold unpackSign
    simp [Nat.shiftRight_eq_div_pow]
    rfl
  have hzero : @unpackSign .binary64 x.toModel.toBits.toBitVec = 0#1 ↔ ¬isNegative x := by
    have hlt := x.toBits.toNat_lt
    rw [← BitVec.toNat_inj, hbit]
    simp [isNegative, UInt64.le_iff_toNat_le]
    omega
  unfold Sign.ofBitVec sign
  rw [if_congr hzero rfl rfl, ite_not]

/-- The number is finite, and has the parts that are read off its bits. -/
structure IsFinite (x : Float) : Prop where
  normalized : (Binary.ofFloat x).IsNormalized
  unpack : x.toModel.unpack = signedDigits (sign x) (Binary.ofFloat x).significand
    (Binary.ofFloat x).exponent

lemma unpack_toModel (x : Float) :
    x.toModel.unpack = .notANumber ∨ x.toModel.unpack = .infinity (sign x) ∨ IsFinite x := by
  have hmantissa : (@unpackMantissa .binary64 x.toModel.toBits.toBitVec).toNat =
      x.toBits.toNat % 2 ^ 52 := by
    simp [unpackMantissa]
    rfl
  have hexponent : (@unpackExponent .binary64 x.toModel.toBits.toBitVec).toNat =
      x.toBits.toNat / 2 ^ 52 % 2 ^ 11 := by
    simp [unpackExponent, Nat.shiftRight_eq_div_pow]
    rfl
  have hunpack : x.toModel.unpack = UnpackedFloat.unpack .binary64 x.toModel.toBits.toBitVec := rfl
  by_cases he : @unpackExponent .binary64 x.toModel.toBits.toBitVec = -1#11
  · rw [hunpack]
    unfold UnpackedFloat.unpack
    dsimp only
    rw [if_pos he, ofBitVec_unpackSign_toModel]
    split_ifs
    · exact .inr (.inl rfl)
    · exact .inl rfl
  · have hzero : @unpackExponent .binary64 x.toModel.toBits.toBitVec = 0#11 ↔
        x.toBits.toNat / 2 ^ 52 % 2 ^ 11 = 0 := by
      rw [← BitVec.toNat_inj, hexponent]
      rfl
    rw [unpack_eq he, ofBitVec_unpackSign_toModel, hmantissa, hexponent] at hunpack
    simp only [hzero] at hunpack
    refine .inr (.inr ?_)
    split_ifs at hunpack with h
    · have hparts : Binary.ofFloat x = ⟨isNegative x, x.toBits.toNat % 2 ^ 52, -1074⟩ := if_pos h
      exact ⟨hparts ▸ ⟨by dsimp only; omega, le_rfl, .inl rfl⟩, hparts ▸ hunpack⟩
    · have hparts : Binary.ofFloat x =
          ⟨isNegative x, 2 ^ 52 + x.toBits.toNat % 2 ^ 52,
            (x.toBits.toNat / 2 ^ 52 % 2 ^ 11 : ℕ) - 1075⟩ := if_neg h
      exact ⟨hparts ▸ ⟨by dsimp only; omega, by dsimp only; omega, .inr (by dsimp only; omega)⟩,
        hparts ▸ hunpack⟩

/-! ## Digits -/

/-- The number that digits with or without a point are read as. -/
def Scaled.ofText (cs : List Char) : Scaled :=
  ⟨Nat.ofDigitChars 10 (cs.filter (· ≠ '.')) 0, -((cs.dropWhile (· ≠ '.')).length - 1 : ℕ)⟩

/-- Digits, with or without a point behind the first one, which are read as `y`. -/
structure Spells (cs : List Char) (y : ℝ) : Prop where
  first : ∃ c ∈ cs.head?, c.isDigit
  chars : ∀ c ∈ cs, c.isDigit ∨ c = '.'
  value : (Scaled.ofText cs).value = y

lemma ne_point_of_isDigit {c : Char} (hc : c.isDigit) : decide (c ≠ '.') = true := by
  rw [decide_eq_true_eq]
  rintro rfl
  contradiction

section

variable {a b : List Char} (ha : ∀ c ∈ a, c.isDigit)

include ha

lemma ofText_digits : Scaled.ofText a = ⟨Nat.ofDigitChars 10 a 0, 0⟩ := by
  unfold Scaled.ofText
  rw [filter_eq_self.mpr fun c hc => ne_point_of_isDigit (ha c hc),
    dropWhile_eq_nil_iff.mpr fun c hc => ne_point_of_isDigit (ha c hc)]
  rfl

lemma ofText_point (hb : ∀ c ∈ b, c.isDigit) :
    Scaled.ofText (a ++ '.' :: b) = ⟨Nat.ofDigitChars 10 (a ++ b) 0, -b.length⟩ := by
  unfold Scaled.ofText
  rw [filter_append, filter_cons_of_neg (by decide), filter_eq_self.mpr
    fun c hc => ne_point_of_isDigit (ha c hc), filter_eq_self.mpr fun c hc =>
      ne_point_of_isDigit (hb c hc),
    dropWhile_append_of_pos fun c hc => ne_point_of_isDigit (ha c hc),
    dropWhile_cons_of_neg (by decide)]
  rfl

/-- Digits with a point behind the first ones. -/
lemma Spells.point (hne : a ≠ []) (hb : ∀ c ∈ b, c.isDigit) {d : Scaled}
    (hdigits : Nat.ofDigitChars 10 (a ++ b) 0 = d.digits) (hplaces : -(b.length : ℤ) = d.exponent) :
    Spells (a ++ '.' :: b) d.value where
  first := by
    obtain ⟨c, cs, rfl⟩ := exists_cons_of_ne_nil hne
    exact ⟨c, rfl, ha c mem_cons_self⟩
  chars c hc := by
    rw [mem_append, mem_cons] at hc
    rcases hc with hc | hc | hc
    · exact .inl (ha c hc)
    · exact .inr hc
    · exact .inl (hb c hc)
  value := by rw [ofText_point ha hb, hdigits, hplaces]

end

/-- Digits that are laid out are read as what they were laid out for. -/
lemma spells_positional (d : Scaled) : Spells d.positional.toList d.value := by
  have hdigits : Nat.ofDigitChars 10 d.text 0 = d.digits := Nat.ofDigitChars_ten_toDigits
  have htext (c : Char) (hc : c ∈ d.text) : c.isDigit :=
    Nat.isDigit_of_mem_toDigits (by decide) (by decide) hc
  have hzeros {n : ℕ} (c : Char) (hc : c ∈ replicate n '0') : c.isDigit :=
    eq_of_mem_replicate hc ▸ rfl
  have hpos : 0 < d.text.length := Nat.length_toDigits_pos
  have hlead : d.leadingExponent = d.exponent + d.text.length - 1 := rfl
  unfold Scaled.positional
  dsimp only
  split_ifs with hnonneg hpoint
  · have hall : ∀ c ∈ d.text ++ replicate d.exponent.toNat '0', c.isDigit :=
      forall_mem_append.mpr ⟨htext, hzeros⟩
    rw [String.toList_ofList]
    refine ⟨?_, fun c hc => .inl (hall c hc), ?_⟩
    · obtain ⟨c, cs, hcs⟩ := exists_cons_of_length_pos hpos
      rw [hcs]
      exact ⟨c, rfl, htext c (hcs ▸ mem_cons_self)⟩
    · rw [ofText_digits hall, Nat.ofDigitChars_append, hdigits, Nat.ofDigitChars_replicate_zero,
        Scaled.value, Scaled.value, Nat.cast_mul, powerOfTen, powerOfTen, ← Nat.pow_eq,
        cast_pow_toNat 10 hnonneg, zpow_zero, mul_one, mul_comm]
  · simp only [String.toList_append, String.toList_ofList, append_assoc]
    refine Spells.point (fun c hc => htext c (mem_of_mem_take hc)) ?_
      (fun c hc => htext c (mem_of_mem_drop hc)) ?_ ?_
    · rw [← length_pos_iff, length_take]
      omega
    · rw [take_append_drop, hdigits]
    · rw [length_drop]
      omega
  · simp only [String.toList_append, String.toList_ofList]
    refine Spells.point (a := ['0']) (forall_mem_singleton.mpr rfl) (cons_ne_nil _ _)
      (forall_mem_append.mpr ⟨hzeros, htext⟩) ?_ ?_
    · rw [← append_assoc, Nat.ofDigitChars_append, Nat.ofDigitChars_append,
        Nat.ofDigitChars_replicate_zero]
      exact hdigits
    · rw [length_append, length_replicate]
      omega

/-! ## Numbers -/

namespace Binary

variable {b c : Binary} {text : String}

lemma rounds_size (b : Binary) : b.Rounds b.size := by
  have hpos := b.quarter_pos
  have hlow : b.below ≤ 4 * b.significand := Nat.sub_le _ _
  rw [b.size_eq]
  refine ⟨by unfold low; gcongr, by unfold high; gcongr; omega,
    fun hm => ⟨fun heq => ?_, fun heq => ?_⟩⟩
  · have : b.below = 4 * b.significand := by exact_mod_cast mul_right_cancel₀ hpos.ne' heq
    unfold below at this
    split_ifs at this <;> omega
  · have : 4 * b.significand = 4 * b.significand + 2 := by
      exact_mod_cast mul_right_cancel₀ hpos.ne' heq
    omega

/-- A text that shows a number: a sign if it is below zero, and digits that are rounded to it
again. -/
def Shows (b : Binary) (text : String) : Prop :=
  ∃ cs y, text.toList = (if b.negative ∧ b.significand ≠ 0 then ['-'] else []) ++ cs ∧
    Spells cs y ∧ b.Rounds y

/-- Numbers that are shown by one text differ in the sign of zero at most. -/
lemma Shows.unique (hb : b.IsNormalized) (hc : c.IsNormalized) (h : b.Shows text)
    (h' : c.Shows text) :
    b.significand = c.significand ∧ b.exponent = c.exponent ∧
      (b.significand ≠ 0 → b.negative = c.negative) := by
  obtain ⟨cs, y, htext, hcs, hy⟩ := h
  obtain ⟨cs', y', htext', hcs', hy'⟩ := h'
  have hfirst {cs : List Char} {y : ℝ} (h : Spells cs y) : '-' ∉ cs.head? := by
    obtain ⟨c, hc, hdigit⟩ := h.first
    intro hmem
    rw [Option.mem_unique hc hmem] at hdigit
    contradiction
  -- digits do not start with a sign
  have hsame : (b.negative = true ∧ b.significand ≠ 0 ↔ c.negative = true ∧ c.significand ≠ 0) ∧
      cs = cs' := by
    rw [htext] at htext'
    split_ifs at htext' with hs hs' hs'
    · exact ⟨iff_of_true hs hs', (cons.inj htext').2⟩
    · exact absurd (by rw [← show _ = cs' from htext']; rfl) (hfirst hcs')
    · exact absurd (by rw [show cs = _ from htext']; rfl) (hfirst hcs)
    · exact ⟨iff_of_false hs hs', htext'⟩
  obtain ⟨hsign, rfl⟩ := hsame
  obtain rfl := hcs.value.symm.trans hcs'.value
  obtain ⟨hm, he⟩ := hy.unique hb hc hy'
  refine ⟨hm, he, fun hne => ?_⟩
  rw [Bool.eq_iff_iff]
  simpa [hne, hm ▸ hne] using hsign

lemma integer?_zero (h : b.significand = 0) : b.integer? = some 0 := by
  unfold integer?
  simp [h]

lemma integer?_spec {i : ℤ} (h : b.integer? = some i) :
    ∃ n : ℕ, (n : ℝ) = b.size ∧ i = if b.negative then -(n : ℤ) else n := by
  unfold integer? at h
  dsimp only at h
  by_cases he : b.exponent ≥ 0
  · rw [if_pos he] at h
    refine ⟨_, ?_, (Option.some.inj h).symm⟩
    rw [Nat.cast_mul, cast_pow_toNat 2 he, size, powerOfTwo]
  · rw [if_neg he] at h
    by_cases hunit : b.significand % Nat.pow 2 (-b.exponent).toNat = 0
    · rw [if_pos hunit] at h
      refine ⟨_, ?_, (Option.some.inj h).symm⟩
      rw [Nat.cast_div (Nat.dvd_of_mod_eq_zero hunit) (by simp), cast_pow_toNat 2 (by omega),
        zpow_neg, div_inv_eq_mul, size, powerOfTwo]
    · rw [if_neg hunit] at h
      cases h

/-- An integer is shown by its digits. -/
lemma shows_integer {i : ℤ} (h : b.integer? = some i) : b.Shows (toString i) := by
  obtain ⟨n, hn, rfl⟩ := integer?_spec h
  have hvalue : Scaled.value ⟨n, 0⟩ = b.size := by
    rw [← hn, Scaled.value, powerOfTen, zpow_zero, mul_one]
  have hzero : n = 0 ↔ b.significand = 0 := by
    rw [← Nat.cast_eq_zero (R := ℝ), hn, size, mul_eq_zero, or_iff_left (powerOfTwo_pos _).ne',
      Nat.cast_eq_zero]
  have hdigits : (Scaled.positional ⟨n, 0⟩).toList = Nat.toDigits 10 n := by
    simp [Scaled.positional, Scaled.text]
  refine ⟨_, _, ?_, spells_positional ⟨n, 0⟩, hvalue ▸ b.rounds_size⟩
  rw [hdigits, ← Nat.toList_repr]
  cases b.negative with
  | false => rfl
  | true =>
    simp only [if_true, true_and, ne_eq, ← hzero]
    cases n with
    | zero => rfl
    | succ n => exact String.toList_append

end Binary

lemma negative_ofFloat (x : Float) : (Binary.ofFloat x).negative = isNegative x := by
  unfold Binary.ofFloat
  dsimp only
  split_ifs <;> rfl

/-- A finite number is shown by its text. -/
lemma IsFinite.shows (h : IsFinite x) : (Binary.ofFloat x).Shows (numberText x) := by
  have hnan : x.toModel.unpack.isNaN = false ∧ x.toModel.unpack.isInf = false := by
    rw [h.unpack]
    by_cases hm : (Binary.ofFloat x).significand = 0
    · rw [signedDigits, dif_pos hm]
      exact ⟨rfl, rfl⟩
    · rw [signedDigits, dif_neg hm]
      exact ⟨rfl, rfl⟩
  -- numbers other than integers are shown by their shortest digits
  have hshort (hm : (Binary.ofFloat x).significand ≠ 0) :
      (Binary.ofFloat x).Shows (finiteText .up x) := by
    have hzero : (x == 0) = false := by
      show (UnpackedFloat.compare x.toModel.unpack _ == some .eq) = false
      rw [h.unpack, signedDigits, dif_neg hm]
      cases sign x <;> rfl
    refine ⟨_, _, ?_, spells_positional _,
      rounds_shortest rfl h.normalized (Nat.pos_of_ne_zero hm) .up⟩
    unfold finiteText signText
    rw [hzero, negative_ofFloat]
    cases isNegative x <;> simp [hm]
  unfold numberText
  rw [show x.isNaN = false from hnan.1, show x.isInf = false from hnan.2]
  simp only [Bool.false_eq_true, if_false]
  cases hi : (Binary.ofFloat x).integer? with
  | none => exact hshort fun hm => Option.some_ne_none _ ((Binary.integer?_zero hm).symm.trans hi)
  | some i =>
    dsimp only
    split_ifs with hsmall
    · exact Binary.shows_integer hi
    · refine hshort fun hm => hsmall ?_
      obtain rfl := Option.some.inj (hi.symm.trans (Binary.integer?_zero hm))
      decide

/-- The text of a number that is not finite has an `n` in it. -/
lemma numberText_cases (x : Float) : x.isNaN ∧ numberText x = "nan" ∨
    x.toModel.unpack = .infinity (sign x) ∧ numberText x = signText x ++ "inf" ∨ IsFinite x := by
  rcases unpack_toModel x with h | h | h
  · have hnan : x.isNaN = true := congrArg UnpackedFloat.isNaN h
    exact .inl ⟨hnan, if_pos hnan⟩
  · have hnan : ¬x.isNaN = true := by
      rw [show x.isNaN = _ from congrArg UnpackedFloat.isNaN h]
      exact Bool.false_ne_true
    exact .inr (.inl ⟨h, (if_neg hnan).trans (if_pos (congrArg UnpackedFloat.isInf h))⟩)
  · exact .inr (.inr h)

lemma Binary.Shows.chars {b : Binary} {text : String} (h : b.Shows text) {c : Char}
    (hc : c ∈ text.toList) : c = '-' ∨ c.isDigit ∨ c = '.' := by
  obtain ⟨cs, y, htext, hcs, -⟩ := h
  rw [htext, mem_append] at hc
  rcases hc with hc | hc
  · split_ifs at hc
    · exact .inl (mem_singleton.mp hc)
    · cases hc
  · exact .inr (hcs.chars c hc)

/-- Numbers that are equal, or both none. -/
def Same (x y : Float) : Prop := (x == y) = true ∨ x.isNaN = true ∧ y.isNaN = true

lemma IsFinite.same {y : Float} (hx : IsFinite x) (hy : IsFinite y)
    (h : numberText x = numberText y) : Same x y := by
  obtain ⟨hm, he, hsign⟩ := hx.shows.unique hx.normalized hy.normalized (h ▸ hy.shows)
  have hvalue {x : Float} (hx : IsFinite x) : Exact.ofFloat x = _ :=
    (congrArg Exact.ofUnpacked hx.unpack).trans (ofUnpacked_signedDigits _ _ _)
  refine .inl (Exact.beq_ofFloat.mpr ⟨?_, by rw [hvalue hx]; nofun⟩)
  rw [hvalue hx, hvalue hy, ← hm, ← he]
  by_cases hzero : (Binary.ofFloat x).significand = 0
  · rw [hzero]
    simp
  · rw [negative_ofFloat, negative_ofFloat] at hsign
    rw [sign, sign, hsign hzero]

lemma same_of_infinity {y : Float} (hx : x.toModel.unpack = .infinity (sign x))
    (hy : y.toModel.unpack = .infinity (sign y)) (h : signText x ++ "inf" = signText y ++ "inf") :
    Same x y := by
  have hsign : isNegative x = isNegative y := by
    unfold signText at h
    cases hx : isNegative x <;> cases hy : isNegative y <;> simp_all
  refine .inl ?_
  show (UnpackedFloat.compare x.toModel.unpack y.toModel.unpack == some .eq) = true
  rw [hx, hy, sign, sign, hsign]
  cases isNegative y <;> rfl

/-- The text of a number tells which number it is, up to the sign of zero. -/
theorem numberText_inj {y : Float} (h : numberText x = numberText y) : Same x y := by
  have hletter (x : Float) : 'n' ∈ (signText x ++ "inf").toList ∧ "nan" ≠ signText x ++ "inf" := by
    unfold signText
    split_ifs <;> decide
  have hfinite {x : Float} {text : String} (hx : IsFinite x) (h : numberText x = text)
      (ht : 'n' ∈ text.toList) : False :=
    absurd (hx.shows.chars (h ▸ ht)) (by decide)
  rcases numberText_cases x with ⟨hx, htext⟩ | ⟨hx, htext⟩ | hx <;>
    rcases numberText_cases y with ⟨hy, htext'⟩ | ⟨hy, htext'⟩ | hy
  · exact .inr ⟨hx, hy⟩
  · exact absurd (htext.symm.trans (h.trans htext')) (hletter y).2
  · exact (hfinite hy (h.symm.trans htext) (by decide)).elim
  · exact absurd (htext'.symm.trans (h.symm.trans htext)) (hletter x).2
  · exact same_of_infinity hx hy (htext.symm.trans (h.trans htext'))
  · exact (hfinite hy (h.symm.trans htext) (hletter x).1).elim
  · exact (hfinite hx (h.trans htext') (by decide)).elim
  · exact (hfinite hx (h.trans htext') (hletter y).1).elim
  · exact hx.same hy h

end Decimal

end SolidScript
