import Mathlib.Logic.Relation
import Mathlib.Tactic.Common
import SolidScript.Range

/-!
# Bisection

The length of a range is found by bisection: a window of indices is narrowed round by round until it
is empty. What one round does is said once, and what is known of every window that comes up follows
by induction on the rounds.
-/

namespace SolidScript

open Relation (ReflTransGen)

/-- The indices among which a bisection still looks for the first one at which something fails. -/
structure Window where
  lo : Nat
  hi : Nat

namespace Window

/-- The index that is looked at next. -/
def middle (w : Window) : Nat := w.lo + (w.hi - w.lo) / 2

/-- One round of a bisection. -/
inductive Narrows (p : Nat → Bool) : Window → Window → Prop
  | above {w : Window} (hw : w.lo < w.hi) (hp : p w.middle = true) :
    Narrows p w ⟨w.middle + 1, w.hi⟩
  | below {w : Window} (hw : w.lo < w.hi) (hp : p w.middle = false) : Narrows p w ⟨w.lo, w.middle⟩

/-- What is known of a window that comes up in a bisection of `u`: everything up to it was found to
hold, as far as it was looked at, and what comes next was found to fail. -/
structure Within (p : Nat → Bool) (u w : Window) : Prop where
  lo_le : u.lo ≤ w.lo
  lo_le_hi : w.lo ≤ w.hi
  hi_le : w.hi ≤ u.hi
  before : w.lo = u.lo ∨ p (w.lo - 1) = true
  behind : w.hi = u.hi ∨ p w.hi = false

variable {p : Nat → Bool} {u w v : Window}

lemma le_middle (w : Window) : w.lo ≤ w.middle := Nat.le_add_right _ _

lemma middle_lt (hw : w.lo < w.hi) : w.middle < w.hi := by
  unfold middle
  omega

lemma Within.refl (h : u.lo ≤ u.hi) : Within p u u :=
  ⟨Nat.le_refl _, h, Nat.le_refl _, .inl rfl, .inl rfl⟩

/-- A step of the bisection stays within. -/
lemma Within.narrows (hw : Within p u w) (h : Narrows p w v) : Within p u v := by
  have hmiddle := le_middle w
  cases h with
  | above hlt hp =>
    exact ⟨Nat.le_trans hw.lo_le (by simp only; omega), middle_lt hlt, hw.hi_le, .inr hp, hw.behind⟩
  | below hlt hp =>
    exact ⟨hw.lo_le, hmiddle, Nat.le_trans (Nat.le_of_lt (middle_lt hlt)) hw.hi_le,
      hw.before, .inr hp⟩

/-- So do all of them. -/
lemma Within.of_reaches (hu : u.lo ≤ u.hi) (h : ReflTransGen (Narrows p) u w) : Within p u w := by
  induction h with
  | refl => exact .refl hu
  | tail _ hstep ih => exact ih.narrows hstep

/-- Every round leaves fewer indices. -/
lemma Narrows.size_lt (h : Narrows p w v) : v.hi - v.lo < w.hi - w.lo := by
  have hmiddle := le_middle w
  cases h with
  | above hlt _ =>
    show w.hi - (w.middle + 1) < w.hi - w.lo
    omega
  | below hlt _ =>
    have := middle_lt hlt
    show w.middle - w.lo < w.hi - w.lo
    omega

/-- A bisection ends with the empty window at its result. -/
lemma reaches_bisect (p : Nat → Bool) {lo hi : Nat} (h : lo ≤ hi) :
    ReflTransGen (Narrows p) ⟨lo, hi⟩ ⟨bisect p lo hi, bisect p lo hi⟩ := by
  fun_induction bisect p lo hi with
  | case1 lo hi hlt mid hp ih =>
    exact .head (.above (w := ⟨lo, hi⟩) hlt hp) (ih (middle_lt (w := ⟨lo, hi⟩) hlt))
  | case2 lo hi hlt mid hp ih =>
    exact .head (.below (w := ⟨lo, hi⟩) hlt (Bool.eq_false_iff.mpr hp)) (ih (le_middle ⟨lo, hi⟩))
  | case3 lo hi hlt =>
    obtain rfl : lo = hi := by omega
    exact .refl

/-- The result is where both ends meet. -/
lemma within_bisect (p : Nat → Bool) {lo hi : Nat} (h : lo ≤ hi) :
    Within p ⟨lo, hi⟩ ⟨bisect p lo hi, bisect p lo hi⟩ :=
  .of_reaches h (reaches_bisect p h)

end Window

lemma bisect_le (p : Nat → Bool) {lo hi : Nat} (h : lo ≤ hi) : bisect p lo hi ≤ hi :=
  (Window.within_bisect p h).hi_le

/-- If something holds of the first `k` indices only, bisection finds `k`, or the end if that comes
first. -/
lemma bisect_eq_min {p : Nat → Bool} {k hi : Nat} (h : ∀ i, p i = true ↔ i < k) :
    bisect p 0 hi = min k hi := by
  obtain ⟨-, -, hle, hbefore, hbehind⟩ := Window.within_bisect p (Nat.zero_le hi)
  dsimp only at hle hbefore hbehind
  generalize bisect p 0 hi = n at *
  have hk : n ≤ k := by
    rcases hbefore with rfl | hp
    · exact Nat.zero_le k
    · have := (h (n - 1)).mp hp
      omega
  rcases hbehind with rfl | hp
  · exact (Nat.min_eq_right hk).symm
  · have hnot : ¬n < k := fun hlt => Bool.false_ne_true (hp.symm.trans ((h n).mpr hlt))
    omega

namespace Range

variable {α : Type} [Scalar α] (r : Range α)

/-- Whether the value at an index has not reached `stop` yet. -/
def before (i : Nat) : Bool := r.beforeStop (r.valueAt i)

lemma searchBound_le : r.searchBound ≤ maxCount := Nat.min_le_right _ _

/-- There is no length but zero that is not searched for. -/
lemma length_cases : r.length = 0 ∨ r.length = bisect r.before 0 r.searchBound := by
  unfold length
  dsimp only
  split
  · exact .inl rfl
  · split
    · exact .inr rfl
    · exact .inl rfl

lemma length_le_searchBound : r.length ≤ r.searchBound := by
  rcases r.length_cases with h | h
  · rw [h]
    exact Nat.zero_le _
  · rw [h]
    exact bisect_le _ (Nat.zero_le _)

lemma length_le : r.length ≤ maxCount := Nat.le_trans r.length_le_searchBound r.searchBound_le

end Range

end SolidScript
