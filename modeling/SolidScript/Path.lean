/-!
# File paths

A path is kept as it is written, and compared by the steps it takes: doubled separators and a `.`
inside change nothing, and paths are ordered step by step.
-/

namespace SolidScript

structure Path where
  text : String

namespace Path

inductive Step where
  | root
  | here
  | up
  | name (s : String)
deriving DecidableEq, Repr

/-- Steps of different kinds come in the order root, here, up, name. -/
def Step.rank : Step → Nat
  | root => 0
  | here => 1
  | up => 2
  | name _ => 3

def Step.compare : Step → Step → Ordering
  | name a, name b => Ord.compare a b
  | a, b => Ord.compare a.rank b.rank

/-- The steps of a path. Only a `.` at the very front counts. -/
def steps (p : Path) : List Step :=
  let step? (s : String) : Option Step :=
    if s = "" ∨ s = "." then none else if s = ".." then some .up else some (.name s)
  let parts := p.text.splitOn "/"
  match parts with
  | "" :: _ :: _ => .root :: parts.filterMap step?
  | "." :: _ => .here :: parts.filterMap step?
  | _ => parts.filterMap step?

instance : BEq Path := ⟨fun a b => a.steps == b.steps⟩

/-- Compare two lists of steps from the front; a path comes before those that go on from it. -/
def compareSteps : List Step → List Step → Ordering
  | [], [] => .eq
  | [], _ :: _ => .lt
  | _ :: _, [] => .gt
  | a :: as, b :: bs => (a.compare b).then (compareSteps as bs)

def compare (a b : Path) : Ordering := compareSteps a.steps b.steps

def join (p : Path) (name : String) : Path :=
  ⟨if p.text = "" ∨ p.text.endsWith "/" then p.text ++ name else p.text ++ "/" ++ name⟩

/-- What stands between the separators. Every `.` and `..` counts, for each asks for a directory
before it. -/
def parts (p : Path) : List String := (p.text.splitOn "/").filter (· != "")

def isAbsolute (p : Path) : Bool := p.text.startsWith "/"

def endsInSeparator (p : Path) : Bool := p.text.endsWith "/"

end Path

end SolidScript
