import SolidScript.Proofs.Geometry.Exact
import SolidScript.Proofs.Range.Bisection

/-!
# How long a range is

The length of a range is searched for, because the quotient of span and step may be rounded.
Whatever the arithmetic, the search keeps to indices that fit in a machine word, and it stops right
behind a value before `stop`. Walking through the range and looking at single indices give the same
values. Without rounding the length is the quotient, rounded up.
-/

namespace SolidScript

open List Nat

open Relation (ReflTransGen)

namespace Range

variable {α : Type} [Scalar α]

/-! ## Walks -/

/-- A walk yields some values, and then there is none left. -/
inductive Walk.Yields : Walk α → List α → Prop
  | done {w : Walk α} (h : w.next? = none) : Yields w []
  | next {w w' : Walk α} {v : α} {vs : List α} (h : w.next? = some (v, w')) (hvs : Yields w' vs) :
    Yields w (v :: vs)

lemma Walk.yields (r : Range α) (length : Nat) {index n : Nat} (h : index + n = length) :
    Yields ⟨r, index, length⟩ ((range' index n).map r.valueAt) := by
  induction n generalizing index with
  | zero =>
    refine .done ?_
    exact if_neg (not_lt.mpr (le_of_eq h.symm))
  | succ n ih =>
    refine .next ?_ (@ih (index + 1) (by omega))
    exact if_pos (by simp only; omega)

lemma iter_yields (r : Range α) : r.iter.Yields ((range r.length).map r.valueAt) := by
  rw [range_eq_range']
  exact Walk.yields r r.length (zero_add _)

lemma get?_eq (r : Range α) (i : Nat) : r.get? i = ((range r.length).map r.valueAt)[i]? := by
  rw [get?, getElem?_map]
  split
  · rename_i hi
    rw [getElem?_range hi]
    rfl
  · rename_i hi
    rw [getElem?_eq_none (by rw [length_range]; omega)]
    rfl

/-! ## The search -/

/-- What is known of the search for the length of a range. -/
structure Searched (r : Range α) : Prop where
  /-- All indices that a round computes fit in a machine word, and no difference of them is
  negative. -/
  fits (w : Window) (hw : ReflTransGen (Window.Narrows r.before) ⟨0, r.searchBound⟩ w) :
    w.lo ≤ w.hi ∧ w.hi ≤ maxCount ∧ (w.lo < w.hi → w.lo + (w.hi - w.lo) / 2 + 1 ≤ maxCount)
  /-- Every round leaves fewer indices. -/
  shrinks (w v : Window) (hwv : Window.Narrows r.before w v) : v.hi - v.lo < w.hi - w.lo
  /-- If there is a search, it ends at the length. -/
  ends : r.length = 0 ∨ ReflTransGen (Window.Narrows r.before) ⟨0, r.searchBound⟩
    ⟨r.length, r.length⟩
  /-- The last value is before `stop`. -/
  last (hpos : 0 < r.length) : r.beforeStop (r.valueAt (r.length - 1)) = true
  /-- The value behind it is not, unless the search ended where it had to. -/
  behind (hpos : 0 < r.length) (hbound : r.length ≠ r.searchBound) :
    r.beforeStop (r.valueAt r.length) = false

lemma within_length {r : Range α} (hpos : 0 < r.length) :
    Window.Within r.before ⟨0, r.searchBound⟩ ⟨r.length, r.length⟩ := by
  rcases r.length_cases with h | h
  · omega
  · rw [h]
    exact Window.within_bisect _ (zero_le _)

lemma searched (r : Range α) : r.Searched where
  fits w hw := by
    have hwithin := Window.Within.of_reaches (zero_le _) hw
    have hhi := le_trans hwithin.hi_le r.searchBound_le
    exact ⟨hwithin.lo_le_hi, hhi, fun hlt => le_trans (Window.middle_lt hlt) hhi⟩
  shrinks w v hwv := hwv.size_lt
  ends := by
    rcases r.length_cases with h | h
    · exact .inl h
    · refine .inr ?_
      rw [h]
      exact Window.reaches_bisect _ (zero_le _)
  last hpos := (within_length hpos).before.resolve_left (ne_of_gt hpos)
  behind hpos hbound := (within_length hpos).behind.resolve_left hbound

/-! ## The values -/

/-- No value is before `stop` again once one has reached it, among the indices that fit in a machine
word. -/
def Recedes (r : Range α) : Prop :=
  ∀ i j, i ≤ j → j ≤ maxCount → r.beforeStop (r.valueAt j) = true →
    r.beforeStop (r.valueAt i) = true

/-- The values of a range are its start and as many steps as there is room for. -/
structure Listed (r : Range α) (vs : List α) : Prop where
  eq : vs = (range r.length).map fun i => r.start + Scalar.ofCount i * r.step
  yields : r.iter.Yields vs
  get (i : Nat) : r.get? i = vs[i]?
  before (h : r.Recedes) : ∀ v ∈ vs, r.beforeStop v = true

lemma listed (r : Range α) : r.Listed ((range r.length).map r.valueAt) where
  eq := rfl
  yields := r.iter_yields
  get := r.get?_eq
  before h v hv := by
    obtain ⟨i, hi, rfl⟩ := mem_map.mp hv
    have hlt := mem_range.mp hi
    have hle := r.length_le
    -- all indices come before the last one, whose value is before `stop`
    exact h i (r.length - 1) (by omega) (by omega) (r.searched.last (by omega))

end Range

/-! ## Without rounding -/

namespace Range

variable (r : Range ℝ)

lemma valueAt_real (i : Nat) : r.valueAt i = r.start + i * r.step := rfl

variable {r} in
lemma step_ne_zero (hspan : 0 < (r.stop - r.start) / r.step) : r.step ≠ 0 := by
  intro hzero
  rw [hzero, div_zero] at hspan
  exact lt_irrefl 0 hspan

/-- Without rounding, the values before `stop` are those at the indices below the quotient of span
and step. -/
lemma before_iff_lt_ceil (hspan : 0 < (r.stop - r.start) / r.step) (i : Nat) :
    r.before i = true ↔ i < ⌈(r.stop - r.start) / r.step⌉₊ := by
  rw [lt_ceil]
  unfold before beforeStop
  rw [valueAt_real]
  rcases lt_or_gt_of_ne (step_ne_zero hspan) with hneg | hpos
  · rw [if_neg (not_lt.mpr hneg.le), decide_eq_true_iff, lt_div_iff_of_neg hneg]
    constructor <;> intro h <;> linarith
  · rw [if_pos hpos, decide_eq_true_iff, lt_div_iff₀ hpos]
    constructor <;> intro h <;> linarith

/-- Without rounding, the search is bounded behind the quotient. -/
lemma min_ceil_searchBound :
    min ⌈(r.stop - r.start) / r.step⌉₊ r.searchBound =
      min ⌈(r.stop - r.start) / r.step⌉₊ maxCount := by
  have hbound : r.searchBound = min (min ⌈(r.stop - r.start) / r.step⌉₊ maxCount + 1) maxCount :=
    rfl
  omega

/-- Without rounding, the length is the quotient of span and step, rounded up. -/
lemma length_real : r.length = min ⌈(r.stop - r.start) / r.step⌉₊ maxCount := by
  have hlength : r.length =
      if r.step = 0 then 0
      else if 0 < (r.stop - r.start) / r.step then bisect r.before 0 r.searchBound else 0 := by
    show (if (!true || decide (r.step = 0)) = true then 0 else _) = _
    simp only [Bool.not_true, Bool.false_or, decide_eq_true_iff]
    rfl
  rw [hlength]
  by_cases hspan : 0 < (r.stop - r.start) / r.step
  · rw [if_neg (step_ne_zero hspan), if_pos hspan, bisect_eq_min (r.before_iff_lt_ceil hspan),
      min_ceil_searchBound]
  · rw [if_neg hspan, ite_self, ceil_eq_zero.mpr (not_lt.mp hspan), zero_min]

end Range

/-- **Length, indices and walks agree.** Over every scalar, the search for the length of a range
ends without leaving the machine words, and right behind a value before `stop`; the walk through the
range and the look-ups give the start plus `i` steps for all `i` below the length, all of them
before `stop` if that is antitone. Over the real numbers the length is the quotient of span and
step, rounded up and at least zero, as far as a machine word goes. -/
theorem Range.length_agrees :
    (∀ {α : Type} [Scalar α] (r : Range α), r.Searched ∧ ∃ vs, r.Listed vs) ∧
      ∀ r : Range ℝ, r.length = min ⌈(r.stop - r.start) / r.step⌉₊ maxCount :=
  ⟨fun r => ⟨r.searched, _, r.listed⟩, fun r => r.length_real⟩

/-- Down from a number in steps of some length, before zero. -/
def down (start length : ℝ) : Range ℝ := ⟨start, -length, 0⟩

/-- Down from five in steps of two, the values are five, three and one, and the next one has passed
zero. -/
theorem Range.length_agrees_down :
    (down 5 2).Recedes ∧ (down 5 2).length = 3 ∧ (down 5 2).iter.Yields [5, 3, 1] ∧
      (∀ v ∈ [5, 3, 1], (down 5 2).beforeStop v = true) ∧
      (down 5 2).searchBound = 4 ∧ (down 5 2).beforeStop ((down 5 2).valueAt 3) = false := by
  have hbefore (v : ℝ) : (down 5 2).beforeStop v = decide (0 < v) := if_neg (by norm_num [down])
  have hvalue (i : Nat) : (down 5 2).valueAt i = 5 + i * -2 := rfl
  have hrecedes : (down 5 2).Recedes := by
    intro i j hij _ hj
    rw [hbefore, hvalue, decide_eq_true_iff] at hj ⊢
    have : (i : ℝ) ≤ j := cast_le.mpr hij
    linarith
  have hceil : ⌈((down 5 2).stop - (down 5 2).start) / (down 5 2).step⌉₊ = 3 := by
    rw [ceil_eq_iff (by norm_num)]
    norm_num [down]
  have hbound : (down 5 2).searchBound = 4 := by
    show min (min ⌈_⌉₊ maxCount + 1) maxCount = 4
    rw [hceil]
    rfl
  have hlength : (down 5 2).length = 3 := by
    rw [Range.length_agrees.2 (down 5 2), hceil]
    rfl
  obtain ⟨hsearched, vs, hlisted⟩ := Range.length_agrees.1 (down 5 2)
  obtain rfl : vs = [5, 3, 1] := by
    rw [hlisted.eq, hlength]
    show [(down 5 2).valueAt 0, (down 5 2).valueAt 1, (down 5 2).valueAt 2] = _
    norm_num [hvalue]
  have hbehind := hsearched.behind (by omega) (by omega)
  rw [hlength] at hbehind
  exact ⟨hrecedes, hlength, hlisted.yields, hlisted.before hrecedes, hbound, hbehind⟩

end SolidScript
