/-!
# Sets of characters

A set of code points as the sorted list of the points where membership changes: the first point is
in the set, the next one is the first behind it, and so on. A code point is a member iff an odd
number of points is at or below it.
-/

namespace SolidScript.Text

/-- The points at which membership changes, in increasing order. -/
structure CharSet where
  changes : Array Nat

/-- The set given by how far each change is from the one before it. -/
def CharSet.ofGaps (gaps : Array Nat) : CharSet :=
  ⟨gaps.foldl (fun changes gap => changes.push (changes.back?.getD 0 + gap)) #[]⟩

/-- How many entries of a sorted array are at most `c`, given that those before `lo` are and those
from `lo + span` on are not. -/
def countAtMost (xs : Array Nat) (c : Nat) (lo : Nat) (span : Nat) : Nat :=
  if span = 0 then lo
  else
    let mid := lo + span / 2
    if xs.getD mid 0 ≤ c then countAtMost xs c (mid + 1) (span - span / 2 - 1)
    else countAtMost xs c lo (span / 2)
termination_by span
decreasing_by all_goals omega

def CharSet.contains (s : CharSet) (c : Char) : Bool :=
  countAtMost s.changes c.toNat 0 s.changes.size % 2 = 1

end SolidScript.Text
