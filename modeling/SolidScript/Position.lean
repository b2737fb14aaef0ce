/-!
# Source positions

A line and a column of the source text, both counted from one. Columns count characters; only a line
feed ends a line.
-/

namespace SolidScript

structure Position where
  line : Nat
  column : Nat
deriving DecidableEq, Repr, Inhabited

namespace Position

def start : Position := ⟨1, 1⟩

def step (p : Position) (c : Char) : Position :=
  if c = '\n' then ⟨p.line + 1, 1⟩ else ⟨p.line, p.column + 1⟩

def text (p : Position) : String := s!"line {p.line}, column {p.column}"

end Position

end SolidScript
