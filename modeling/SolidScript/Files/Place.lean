import SolidScript.Path

/-!
# Places

Where a path leads, seen from the working directory: some levels up or to the top of all
directories, and then down by names. The directories above have no names here, so that a place which
goes up never comes back down into the working directory.
-/

namespace SolidScript

/-- Where the names of a place are counted from. -/
inductive Origin where
  /-- A number of levels above the working directory; none is the working directory itself. -/
  | above (levels : Nat)
  | top
deriving DecidableEq, Repr

structure Place where
  origin : Origin := .above 0
  names : List String := []
deriving DecidableEq, Repr

namespace Place

/-- The directory that holds a place. The top holds itself. -/
def parent (place : Place) : Place :=
  match place.names, place.origin with
  | [], .above levels => ⟨.above (levels + 1), []⟩
  | [], .top => place
  | _ :: _, _ => { place with names := place.names.dropLast }

/-- Where one part of a path leads from a directory. -/
def enter (place : Place) (part : String) : Place :=
  if part = "." then place
  else if part = ".." then place.parent
  else { place with names := place.names ++ [part] }

/-- Where a path starts: at the top if it opens with a separator, else in the working directory. -/
def start (p : Path) : Place :=
  if p.isAbsolute then ⟨.top, []⟩ else {}

/-- Where a path leads if every directory on its way is there. -/
def ofPath (p : Path) : Place := p.parts.foldl enter (start p)

/-- The names that lead from a place to another at or below it. -/
def namesTo? (place inner : Place) : Option (List String) :=
  if place.origin = inner.origin ∧ place.names.isPrefixOf inner.names then
    some (inner.names.drop place.names.length)
  else none

def isBelow (inner place : Place) : Bool :=
  match place.namesTo? inner with
  | some (_ :: _) => true
  | _ => false

end Place

end SolidScript
