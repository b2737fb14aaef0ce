import SolidScript.Proofs.Rounding.Unpacked

/-!
# Floating-point numbers as words

A number with normalized digits is packed into a word without loss, unless it is too large: then the
word is that of an infinity. So what an operation rounds to and what its result stands for are the
same, up to this limit.
-/

namespace SolidScript

open Float.Model (Format UnpackedFloat totalExponent)
open Float.Model.UnpackedFloat

/-! ## Unpacked words -/

lemma append_implicit (m : BitVec 52) : (1#1 ++ m).toNat = 2 ^ 52 + m.toNat := by
  rw [BitVec.toNat_append, ← Nat.shiftLeft_add_eq_or_of_lt m.isLt, Nat.shiftLeft_eq]
  rfl

/-- A word without all exponent bits set stands for digits with the leading one in front, or for
digits in the least place. -/
lemma unpack_eq {b : BitVec Format.binary64.numBits} (he : unpackExponent b ≠ -1#11) :
    UnpackedFloat.unpack .binary64 b = if unpackExponent b = 0#11
      then signedDigits (.ofBitVec (unpackSign b)) (unpackMantissa b).toNat (-1074)
      else signedDigits (.ofBitVec (unpackSign b)) (2 ^ 52 + (unpackMantissa b).toNat)
      ((unpackExponent b).toNat - 1075) := by
  unfold UnpackedFloat.unpack
  rw [if_neg he]
  by_cases hzero : unpackExponent b = 0#11
  · rw [if_pos hzero, if_pos hzero]
    by_cases hm : unpackMantissa b = 0#52
    · rw [dif_pos hm, hm]
      rfl
    · have hm' : ¬(unpackMantissa b).toNat = 0 := fun h => hm (BitVec.eq_of_toNat_eq h)
      rw [dif_neg hm, signedDigits, dif_neg hm', hzero]
      rfl
  · rw [if_neg hzero, if_neg hzero, signedDigits, dif_neg (by omega), UnpackedFloat.finite.injEq]
    exact ⟨rfl, append_implicit _, rfl⟩

lemma canonical_unpack (b : BitVec Format.binary64.numBits) :
    Canonical (UnpackedFloat.unpack .binary64 b) := by
  have hm : (unpackMantissa b).toNat < 2 ^ 52 := (unpackMantissa b).isLt
  by_cases hinf : unpackExponent b = -1#11
  · unfold UnpackedFloat.unpack
    rw [if_pos hinf]
    split_ifs
    · exact .infinity _
    · exact .notANumber
  · rw [unpack_eq hinf]
    split_ifs with he
    · exact canonical_signedDigits _ ⟨hm.trans (by decide), le_rfl, .inl rfl⟩
    · have he : (unpackExponent b).toNat ≠ 0 := fun h => he (BitVec.eq_of_toNat_eq h)
      exact canonical_signedDigits _ ⟨by omega, by omega, .inr (Nat.le_add_right _ _)⟩

variable (s : Sign)

lemma ofBitVec_unpackSign {spec : Format} (e : BitVec spec.exponentBits)
    (m : BitVec spec.mantissaBitsWithoutImplicit) :
    Sign.ofBitVec (unpackSign (packComponents spec s e m)) = s := by
  have hsign : unpackSign (packComponents spec s e m) = s.toBitVec := by
    ext i hi
    obtain rfl : i = 0 := by omega
    unfold unpackSign
    simp [packComponents, BitVec.getLsbD_append, BitVec.getElem_append]
  rw [hsign]
  cases s <;> rfl

lemma unpack_packComponents {e : BitVec 11} (he : e ≠ -1#11) (m : BitVec 52) :
    UnpackedFloat.unpack .binary64 (packComponents .binary64 s e m) =
      if e = 0#11 then signedDigits s m.toNat (-1074)
      else signedDigits s (2 ^ 52 + m.toNat) (e.toNat - 1075) := by
  rw [unpack_eq (by rwa [unpackExponent_packComponents]), unpackMantissa_packComponents,
    unpackExponent_packComponents, ofBitVec_unpackSign]

/-- Digits that are not too large are packed without loss. -/
lemma unpack_pack_finite {m : ℕ} {e : ℤ} (hm : 0 < m) (h : Normalized m e) (he : e ≤ 971) :
    UnpackedFloat.unpack .binary64 (UnpackedFloat.pack .binary64 (.finite s m e hm)) =
      .finite s m e hm := by
  obtain ⟨hlt, hleast, hfull⟩ := h
  have hfinite : UnpackedFloat.finite s m e hm = signedDigits s m e := by
    rw [signedDigits, dif_neg hm.ne']
  generalize hbiased :
    (e + Format.binary64.exponentBias + Format.binary64.mantissaBitsWithoutImplicit).toNat = biased
  have hexponent : (biased : ℤ) = e + 1075 := by
    rw [← hbiased]
    show ((e + 1023 + 52).toNat : ℤ) = _
    omega
  have hfits : ¬2 ^ 11 ≤ biased + 1 := by omega
  delta UnpackedFloat.pack
  dsimp only
  rw [hbiased, if_neg hfits, hfinite]
  by_cases hlog : m.log2 + 1 = Format.binary64.mantissaBits
  · -- the leading digit is left out of the word
    have hdigits : 2 ^ 52 ≤ m := (Nat.le_log2 hm.ne').mp (Nat.le_of_eq (Nat.succ.inj hlog).symm)
    have hvec : (BitVec.ofNat 11 biased).toNat = biased := Nat.mod_eq_of_lt (by omega)
    have hzero : BitVec.ofNat 11 biased ≠ 0#11 := fun h => by
      have := congrArg BitVec.toNat h
      simp at this
      omega
    have hones : BitVec.ofNat 11 biased ≠ -1#11 := fun h => by
      have := congrArg BitVec.toNat h
      rw [hvec] at this
      have : biased = 2047 := this
      omega
    have hrest : (BitVec.ofNat 52 m).toNat = m - 2 ^ 52 := by
      show m % 2 ^ 52 = _
      omega
    rw [if_pos hlog, unpack_packComponents s hones, if_neg hzero, hvec, hrest, hexponent,
      Nat.add_sub_cancel' hdigits, add_sub_cancel_right]
  · have hdigits : m < 2 ^ 52 := by
      by_contra! hge
      have hlow := (Nat.le_log2 hm.ne').mpr hge
      have hhigh := (Nat.log2_lt hm.ne').mpr hlt
      have hbits : Format.binary64.mantissaBits = 53 := rfl
      omega
    obtain rfl : e = -1074 := hfull.resolve_right (by omega)
    have hrest : (BitVec.ofNat 52 m).toNat = m := Nat.mod_eq_of_lt hdigits
    rw [if_neg hlog, unpack_packComponents s (by decide), if_pos rfl, hrest]

/-- What is too large is packed as an infinity. -/
lemma unpack_pack_of_large {m : ℕ} {e : ℤ} (hm : 0 < m) (he : 971 < e) :
    UnpackedFloat.unpack .binary64 (UnpackedFloat.pack .binary64 (.finite s m e hm)) =
      .infinity s := by
  have hlarge :
      2 ^ 11 ≤
        (e + Format.binary64.exponentBias + Format.binary64.mantissaBitsWithoutImplicit).toNat +
          1 := by
    show 2 ^ 11 ≤ (e + 1023 + 52).toNat + 1
    omega
  delta UnpackedFloat.pack
  dsimp only
  rw [if_pos hlarge]
  cases s <;> rfl

/-! ## What words stand for -/

namespace Exact

lemma ofFloat_pack_infinity : ofFloat (.ofModel (.pack (.infinity s))) =
    ofUnpacked (.infinity s) := by
  cases s <;> rfl

lemma ofFloat_pack_notANumber : ofFloat (.ofModel (.pack .notANumber)) = nan := rfl

/-- A packed number stands for what was packed, as far as it is not too large. -/
lemma ofFloat_pack {u : UnpackedFloat} (hu : Canonical u) {x : ℝ} (hx : ofUnpacked u = x) :
    ofFloat (.ofModel (.pack u)) = limited x := by
  have hpos := powerOfTwo_pos 1024
  cases hu with
  | infinity s => cases s <;> cases hx
  | notANumber => cases hx
  | zero s =>
    obtain rfl : 0 = x := (coe_inj 0 x).mp hx
    rw [limited_of_lt (neg_neg_of_pos hpos) hpos]
    cases s <;> rfl
  | @finite s m e hm h =>
    obtain rfl : ((s.apply m : ℤ) : ℝ) * 2 ^ e = x := (coe_inj _ x).mp hx
    have hsize : 0 < (m : ℝ) * 2 ^ e := by positivity
    rcases le_or_gt e 971 with he | he
    · have hfloat : ofFloat (.ofModel (.pack (.finite s m e hm))) = ofUnpacked (.finite s m e hm) :=
        congrArg ofUnpacked (unpack_pack_finite s hm h he)
      have hlt : (m : ℝ) * 2 ^ e < powerOfTwo 1024 := by
        calc (m : ℝ) * 2 ^ e
          _ < 2 ^ (53 : ℤ) * 2 ^ e := by
            gcongr
            exact_mod_cast h.lt
          _ = 2 ^ (53 + e) := (zpow_add₀ two_ne_zero 53 e).symm
          _ ≤ powerOfTwo 1024 := by
            exact zpow_le_zpow_right₀ one_le_two (by omega)
      rw [hfloat, hx, limited_of_lt]
      · cases s <;> simp [Sign.apply] <;> linarith only [hsize, hlt, hpos]
      · cases s <;> simp [Sign.apply] <;> linarith only [hsize, hlt, hpos]
    · have hfloat : ofFloat (.ofModel (.pack (.finite s m e hm))) = ofUnpacked (.infinity s) :=
        congrArg ofUnpacked (unpack_pack_of_large s hm he)
      have hge : powerOfTwo 1024 ≤ (m : ℝ) * 2 ^ e := by
        calc powerOfTwo 1024
          _ ≤ 2 ^ (52 + e) := by
            exact zpow_le_zpow_right₀ one_le_two (by omega)
          _ = 2 ^ (52 : ℤ) * 2 ^ e := zpow_add₀ two_ne_zero 52 e
          _ ≤ (m : ℝ) * 2 ^ e := by
            gcongr
            exact_mod_cast h.full.resolve_left (by omega)
      rw [hfloat]
      cases s with
      | positive => exact (limited_of_ge (by simpa [Sign.apply] using hge)).symm
      | negative => exact (limited_of_le (by simpa [Sign.apply] using hge)).symm

end Exact

end SolidScript
