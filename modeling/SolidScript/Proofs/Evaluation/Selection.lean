import SolidScript.Evaluation.Selection
import SolidScript.Proofs.Range.Bisection
import SolidScript.Proofs.Rounding.Arithmetic

/-!
# Children at the values of a range

The walk through a range stops at the first value that has passed the children. As rounding turns no
two numbers around, the values of a range go in one direction only, so no child is missed.
-/

namespace SolidScript

open Selection List

open Exact (ofFloat)

/-! ## Values of a range -/

namespace Exact

lemma add_le_add (x : ℝ) {a b : Exact} (h : a ≤ b) : (x : Exact) + a ≤ x + b := by
  cases a with
  | real y =>
    cases b with
    | real z => exact add_le_add_right (α := ℝ) h x
    | posInf => exact trivial
    | _ => exact h.elim
  | _ => cases b <;> exact h

lemma exists_of_isFinite {x : Float} (h : x.isFinite = true) : ∃ a : ℝ, ofFloat x = a := by
  have h : x.toModel.unpack.isFinite = true := h
  show ∃ a : ℝ, ofUnpacked x.toModel.unpack = a
  generalize x.toModel.unpack = u at h ⊢
  rcases u with _ | _ | _ | _
  · cases h
  · cases h
  · exact ⟨_, rfl⟩
  · exact ⟨_, rfl⟩

lemma floorCount_mono {x y : Float} (hx : 0 ≤ ofFloat x) (h : ofFloat x ≤ ofFloat y) :
    floorCount x ≤ floorCount y := by
  cases ha : ofFloat x with
  | real a =>
    rw [ha] at h
    cases hb : ofFloat y with
    | real b =>
      rw [hb] at h
      rw [floorCount_eq ha, floorCount_eq hb]
      exact min_le_min_right maxCount (Nat.floor_mono h)
    | posInf =>
      rw [floorCount_eq ha, floorCount_posInf hb]
      exact Nat.min_le_right _ _
    | _ =>
      rw [hb] at h
      exact h.elim
  | posInf =>
    rw [ha] at h
    cases hb : ofFloat y with
    | posInf => rw [floorCount_posInf ha, floorCount_posInf hb]
    | _ =>
      rw [hb] at h
      exact h.elim
  | _ =>
    rw [ha] at hx
    exact hx.elim

end Exact

namespace Range

variable {r : Range Float}

/-- A range with values has numbers to start from and to step by. -/
lemma exists_of_length_pos (h : 0 < r.length) :
    ∃ a s : ℝ, ofFloat r.start = a ∧ ofFloat r.step = s := by
  unfold length at h
  dsimp only at h
  split at h
  · exact absurd h (Nat.lt_irrefl 0)
  · rename_i hfinite
    simp only [Bool.or_eq_true, Bool.not_eq_true', Bool.and_eq_false_iff, not_or,
      Bool.not_eq_false] at hfinite
    obtain ⟨a, ha⟩ := Exact.exists_of_isFinite hfinite.1.1.1
    obtain ⟨s, hs⟩ := Exact.exists_of_isFinite hfinite.1.1.2
    exact ⟨a, s, ha, hs⟩

/-- Rounding keeps the order of the values. -/
lemma valueAt_le {a s : ℝ} (hstart : ofFloat r.start = a) (hstep : ofFloat r.step = s) {i j : ℕ}
    (hi : i ≤ maxCount) (hj : j ≤ maxCount) (h : rounded i * s ≤ rounded j * s) :
    ofFloat (r.valueAt i) ≤ ofFloat (r.valueAt j) := by
  have hvalue {k : ℕ} (hk : k ≤ maxCount) : ofFloat (r.valueAt k) =
      Exact.round (a + Exact.round (rounded k * s : ℝ)) := by
    show ofFloat (r.start + Float.ofNat k * r.step) = _
    rw [Exact.ofFloat_add hstart, Exact.ofFloat_mul (Exact.ofFloat_ofNat_of_le hk) hstep]
  rw [hvalue hi, hvalue hj]
  exact Exact.round_mono (Exact.add_le_add a (Exact.round_mono h))

end Range

/-! ## Children -/

namespace Selection

variable {α : Type} (items : List α)

/-- Whether the walk through a range stops at an index: no child is there, nor will be. -/
def stopsAt (r : Range Float) (index : Float) : Bool := (child? items index).isNone &&
    leaves r items.length index

/-- The indices up to the first one at which the walk stops. -/
def walked (r : Range Float) (indices : List Float) : List Float :=
  indices.takeWhile (!stopsAt items r ·) ++ (indices.dropWhile (!stopsAt items r ·)).take 1

lemma walked_cons (r : Range Float) (x : Float) (xs : List Float) :
    walked items r (x :: xs) = x :: if stopsAt items r x then [] else walked items r xs := by
  unfold walked
  cases h : stopsAt items r x <;> simp [h]

/-- Behind an index at which the walk stops there are no children. -/
lemma child?_eq_none_of_stopsAt {r : Range Float} {i j : ℕ} (hij : i ≤ j) (hj : j < r.length)
    (h : stopsAt items r (r.valueAt i) = true) : child? items (r.valueAt j) = none := by
  obtain ⟨a, s, hstart, hstep⟩ := Range.exists_of_length_pos (Nat.zero_lt_of_lt hj)
  have hmax : j ≤ maxCount := hj.le.trans r.length_le
  have hcounts : rounded i ≤ rounded j := rounded_mono (Nat.cast_le.mpr hij)
  obtain ⟨hnone, hleaves⟩ := Bool.and_eq_true_iff.mp h
  have hnone : child? items (r.valueAt i) = none := Option.isNone_iff_eq_none.mp hnone
  rcases Bool.or_eq_true_iff.mp hleaves with hup | hdown
  · -- going up: the index is behind the last child, and so are all that follow
    obtain ⟨hpos, hbehind⟩ := Bool.and_eq_true_iff.mp hup
    have hs : 0 < ofFloat r.step := (Exact.ofFloat_lt (x := 0)).mpr (of_decide_eq_true hpos)
    rw [hstep] at hs
    have hle := Range.valueAt_le hstart hstep (hij.trans hmax) hmax
      (mul_le_mul_of_nonneg_right hcounts (le_of_lt (α := ℝ) hs))
    have hbehind : ofFloat (.ofNat _) ≤ ofFloat (r.valueAt i) :=
      Exact.ofFloat_le.mpr (of_decide_eq_true hbehind)
    have hi : 0 ≤ ofFloat (r.valueAt i) :=
      Exact.le_trans ((Exact.zero_le_ofFloat _).mpr (Exact.ofNat_nonneg _)) hbehind
    have h0 := (Exact.zero_le_ofFloat _).mp hi
    have hlast : items.length ≤ floorCount (r.valueAt i) :=
      getElem?_eq_none_iff.mp ((if_pos h0).symm.trans hnone)
    have hfloor := Exact.floorCount_mono hi hle
    unfold child?
    split
    · exact getElem?_eq_none_iff.mpr (hlast.trans hfloor)
    · rfl
  · -- going down: the index is negative
    obtain ⟨hneg, hbelow⟩ := Bool.and_eq_true_iff.mp hdown
    have hs : ofFloat r.step < 0 := (Exact.ofFloat_lt (y := 0)).mpr (of_decide_eq_true hneg)
    rw [hstep] at hs
    have hle := Range.valueAt_le hstart hstep hmax (hij.trans hmax)
      (mul_le_mul_of_nonpos_right hcounts (le_of_lt (α := ℝ) hs))
    refine if_neg fun h =>
      Exact.not_lt_of_le (Exact.le_trans ((Exact.zero_le_ofFloat _).mpr h) hle) ?_
    exact (Exact.ofFloat_lt (y := 0)).mpr (of_decide_eq_true hbelow)

section

variable (pos : Position) {x : Float} (xs : List Float)

lemma byIndices_cons_some {c : α} (h : child? items x = some c) :
    byIndices items pos (x :: xs) =
      ⟨c :: (byIndices items pos xs).value, (byIndices items pos xs).notes⟩ := by
  rw [byIndices, h]
  exact congrArg (Noted.mk _) Array.append_empty

lemma byIndices_cons_none (h : child? items x = none) :
    byIndices items pos (x :: xs) =
      ⟨(byIndices items pos xs).value, #[outOfRange items.length x pos] ++
      (byIndices items pos xs).notes⟩ := by
  rw [byIndices, h]
  rfl

end

/-- Every index that has a child gives it. -/
lemma byIndices_value (pos : Position) (indices : List Float) :
    (byIndices items pos indices).value = indices.filterMap (child? items) := by
  induction indices with
  | nil => rfl
  | cons x xs ih =>
    cases h : child? items x with
    | none => rw [byIndices_cons_none items pos xs h, filterMap_cons_none h, ih]
    | some c => rw [byIndices_cons_some items pos xs h, filterMap_cons_some h, ih]

/-- The walk through a range is that through the indices up to the one at which it stops. -/
lemma byRange_eq (pos : Position) (r : Range Float) (n i : ℕ) (acc : Array α)
    (notes : Array Entry) :
    byRange items pos r n i acc notes =
      ⟨acc.toList ++ (byIndices items pos (walked items r ((range' i n).map r.valueAt))).value,
        notes ++
        (byIndices items pos (walked items r ((range' i n).map r.valueAt))).notes⟩ := by
  induction n generalizing i acc notes with
  | zero =>
    show _ = (⟨acc.toList ++ [], notes ++ #[]⟩ : Reporting (List α))
    rw [append_nil, Array.append_empty]
    rfl
  | succ n ih =>
    rw [byRange, range'_succ, map_cons, walked_cons, stopsAt]
    cases h : child? items (r.valueAt i) with
    | some item =>
      rw [byIndices_cons_some items pos _ h]
      dsimp only
      rw [ih]
      simp
    | none =>
      rw [byIndices_cons_none items pos _ h]
      cases hleaves : leaves r items.length (r.valueAt i) with
      | true =>
        simp
        exact ⟨rfl, rfl⟩
      | false => simp [ih]

/-- The indices that are not looked at have no children. -/
lemma filterMap_walked (r : Range Float) {indices : List Float}
    (h : indices.Pairwise fun x y => stopsAt items r x = true → child? items y = none) :
    (walked items r indices).filterMap (child? items) = indices.filterMap (child? items) := by
  induction h with
  | nil => rfl
  | cons hx _ ih =>
    rw [walked_cons]
    split
    · rename_i hstops
      rw [filterMap_cons, filterMap_cons, filterMap_eq_nil_iff.mpr
        fun y hy => hx y hy hstops]
      rfl
    · rw [filterMap_cons, filterMap_cons, ih]

/-- A child stands at the integer part of an index. -/
lemma child?_eq_some_iff (hitems : items.length ≤ maxCount) (x : Float) (c : α) :
    child? items x = some c ↔ ∃ a : ℝ, ofFloat x = a ∧ 0 ≤ a ∧ items[⌊a⌋₊]? = some c := by
  have hlt {k : ℕ} (hk : items[k]? = some c) : k < maxCount :=
    (List.getElem?_eq_some_iff.mp hk).1.trans_le hitems
  unfold child?
  constructor
  · intro h
    split at h
    · rename_i h0
      have hx := (Exact.zero_le_ofFloat x).mpr h0
      have hindex := hlt h
      cases ha : ofFloat x with
      | real a =>
        rw [Exact.floorCount_eq ha] at h hindex
        rw [Nat.min_eq_left (by omega)] at h
        exact ⟨a, rfl, by rwa [ha] at hx, h⟩
      | posInf =>
        rw [Exact.floorCount_posInf ha] at hindex
        exact absurd hindex (Nat.lt_irrefl _)
      | _ =>
        rw [ha] at hx
        exact hx.elim
    · cases h
  · rintro ⟨a, ha, h0, hc⟩
    have hx : 0 ≤ x := (Exact.zero_le_ofFloat x).mp (ha ▸ h0)
    rw [if_pos hx, Exact.floorCount_eq ha, Nat.min_eq_left (hlt hc).le, hc]

end Selection

/-- Stopping early loses no child. Whatever range the children are selected by, the walk through its
values stops at the first one that has passed all children in the direction of the step, and yet the
children are those at all values of the range, in order; and those at all numbers of a vector, in
order. A child stands at the integer part of an index. -/
theorem selectChildren_complete {α : Type} (items : List α) (args : Arguments) (pos : Position) :
    (∀ r, args.get? "index" 0 = some (.range r) →
      let values := (range r.length).map r.valueAt
      selectChildren items args pos =
      byIndices items pos (walked items r values) ∧
        (selectChildren items args pos).value = values.filterMap (child? items)) ∧
      (∀ vs, args.get? "index" 0 = some (.vector vs) →
        (selectChildren items args pos).value =
        (vs.filterMap Value.number?).filterMap (child? items)) ∧
      (items.length ≤ maxCount → ∀ (x : Float) (c : α), child? items x = some c ↔
        ∃ a : ℝ, ofFloat x = a ∧ 0 ≤ a ∧ items[⌊a⌋₊]? = some c) := by
  refine ⟨fun r hr => ?_, fun vs hvs => ?_, child?_eq_some_iff items⟩
  · intro values
    have hordered : values.Pairwise fun x y => stopsAt items r x = true →
        child? items y = none := by
      refine pairwise_map.mpr (pairwise_lt_range.imp_of_mem fun _ hj hij => ?_)
      exact child?_eq_none_of_stopsAt items (le_of_lt hij) (mem_range.mp hj)
    have hwalk : selectChildren items args pos =
        byIndices items pos (walked items r values) := by
      rw [selectChildren, hr]
      show byRange items pos r r.length 0 #[] #[] = _
      rw [byRange_eq, ← range_eq_range']
      simp [values]
    rw [hwalk, byIndices_value, filterMap_walked items r hordered]
    exact ⟨rfl, rfl⟩
  · rw [selectChildren, hvs]
    exact byIndices_value items pos _

/-- A range that goes down past all children, and indices out of order, one of which is no
number. -/
theorem selectChildren_complete_down :
    let items := ["a", "b", "c"]
    let r : Range Float := ⟨2.5, -0.5, -9.0e99⟩
    let args (v : Value) : Arguments := { positional := [v] }
    let indices : Value := .vector [.number 2.5, .undefined, .number 0.0, .number 7.0]
    (args (.range r)).get? "index" 0 = some (.range r) ∧ (args indices).get? "index" 0 =
    some indices ∧
      (selectChildren items (args (.range r)) ⟨1, 1⟩).value =
        ((range r.length).map r.valueAt).filterMap (child? items) ∧
      (selectChildren items (args indices) ⟨1, 1⟩).value = ["c", "a"] ∧ items.length ≤ maxCount ∧
      ∃ a : ℝ, ofFloat 2.5 = a ∧ 0 ≤ a ∧ items[⌊a⌋₊]? = some "c" := by
  intro items r args indices
  obtain ⟨hrange, -, hchild⟩ := selectChildren_complete items (args (.range r)) ⟨1, 1⟩
  obtain ⟨-, hvector, -⟩ := selectChildren_complete items (args indices) ⟨1, 1⟩
  refine ⟨rfl, rfl, (hrange r rfl).2, (hvector _ rfl).trans rfl, by decide,
    (hchild (by decide) 2.5 "c").mp rfl⟩

end SolidScript
