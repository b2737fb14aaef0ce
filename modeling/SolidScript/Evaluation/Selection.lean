import SolidScript.Arguments
import SolidScript.Geometry.Shape

/-!
# Selecting children

A module picks from what the body of its invocation yielded: everything, or the children at an
index, at the indices in a vector, or at the values of a range. An index that no child has is
reported.
-/

namespace SolidScript

namespace Selection

variable {α : Type}

/-- The child at the integer part of an index. -/
def child? (items : List α) (index : Float) : Option α :=
  if 0 ≤ index then items[floorCount index]? else none

/-- The report on an index that no child has. -/
def outOfRange (count : Nat) (index : Float) (pos : Position) : Entry :=
  ⟨.warning, "children index " ++ Decimal.display index ++ " out of range for " ++ toString count ++
    " children at " ++ pos.text⟩

def byIndices (items : List α) (pos : Position) : List Float → Reporting (List α)
  | [] => pure []
  | index :: rest => do
    match child? items index with
    | some item => return item :: (← byIndices items pos rest)
    | none => do
      Noted.note (outOfRange items.length index pos)
      byIndices items pos rest

/-- Whether a range that reached this index only moves further away from the children. -/
def leaves (r : Range Float) (count : Nat) (index : Float) : Bool :=
  (0 < r.step && Float.ofNat count ≤ index) || (r.step < 0 && index < 0)

/-- The children at the values of a range from number `i` on, `n` of them at most. The walk stops at
the first value that has passed the children. -/
def byRange (items : List α) (pos : Position) (r : Range Float) :
    (n i : Nat) → Array α → Array Entry → Reporting (List α)
  | 0, _, acc, notes => ⟨acc.toList, notes⟩
  | n + 1, i, acc, notes =>
    let index := r.valueAt i
    match child? items index with
    | some item => byRange items pos r n (i + 1) (acc.push item) notes
    | none =>
      let notes := notes.push (outOfRange items.length index pos)
      if leaves r items.length index then ⟨acc.toList, notes⟩
        else byRange items pos r n (i + 1) acc notes

end Selection

def selectChildren {α : Type} (items : List α) (args : Arguments) (pos : Position) :
    Reporting (List α) :=
  match args.get? "index" 0 with
  | none => pure items
  | some (.number index) => Selection.byIndices items pos [index]
  | some (.vector values) => Selection.byIndices items pos (values.filterMap Value.number?)
  | some (.range r) => Selection.byRange items pos r r.length 0 #[] #[]
  | some other => do
    Noted.note ⟨.warning, "children() cannot select with a " ++ other.typeName ++
      " at " ++ pos.text⟩
    pure []

end SolidScript
