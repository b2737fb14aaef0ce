import SolidScript.Scalar

/-!
# Ranges

`start, start + step, …` up to, and not including, the first value that reaches `stop` in the
direction of `step`. A range is empty if its step is zero or one of its bounds is not finite.

* `Range.length`: how many values there are, found by bisection
* `Range.get?`: the value at an index
* `Range.Walk`: a walk through the values, one after the other; a range can be walked any number of
  times
-/

namespace SolidScript

structure Range (α : Type) where
  start : α
  step : α
  stop : α
deriving Repr

/-- The first index from `lo` to `hi` at which `p` fails, if `p` holds of no index behind one at
which it fails. -/
def bisect (p : Nat → Bool) (lo hi : Nat) : Nat :=
  if lo < hi then
    let mid := lo + (hi - lo) / 2
    if p mid then bisect p (mid + 1) hi else bisect p lo mid
  else lo
termination_by hi - lo
decreasing_by all_goals omega

namespace Range

variable {α : Type} [Scalar α]

def beq (r s : Range α) : Bool := r.start == s.start && r.step == s.step && r.stop == s.stop

instance : BEq (Range α) := ⟨beq⟩

def valueAt (r : Range α) (i : Nat) : α := r.start + Scalar.ofCount i * r.step

def beforeStop (r : Range α) (v : α) : Bool :=
  if 0 < r.step then v < r.stop else r.stop < v

/-- The index at which the bisection for the length stops looking. -/
def searchBound (r : Range α) : Nat :=
  Nat.min (Scalar.ceilCount ((r.stop - r.start) / r.step) + 1) maxCount

/-- How many values the range has. The quotient of span and step can be off by rounding, so it only
bounds the search for the first value that reaches `stop`. -/
def length (r : Range α) : Nat :=
  let finite := Scalar.isFinite r.start && Scalar.isFinite r.step && Scalar.isFinite r.stop
  if !finite || r.step == 0 then 0
  else if 0 < (r.stop - r.start) / r.step then
    bisect (fun i => r.beforeStop (r.valueAt i)) 0 r.searchBound
  else 0

def isEmpty (r : Range α) : Bool := r.length = 0

def get? (r : Range α) (i : Nat) : Option α := if i < r.length then some (r.valueAt i) else none

/-- A walk through a range: the index of the next value, and the length, which is found once. -/
structure Walk (α : Type) where
  range : Range α
  index : Nat
  length : Nat

def iter (r : Range α) : Walk α := ⟨r, 0, r.length⟩

namespace Walk

def left (w : Walk α) : Nat := w.length - w.index

def next? (w : Walk α) : Option (α × Walk α) :=
  if w.index < w.length then some (w.range.valueAt w.index, { w with index := w.index + 1 })
    else none

/-- The next `n` values, or all that are left if there are fewer, and the walk behind them. -/
def take (w : Walk α) : Nat → List α × Walk α
  | 0 => ([], w)
  | n + 1 =>
    match w.next? with
    | some (v, w) =>
      let (vs, w) := w.take n
      (v :: vs, w)
    | none => ([], w)

end Walk

end Range

end SolidScript
