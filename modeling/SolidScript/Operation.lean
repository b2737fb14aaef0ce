/-!
# Operations on values

The arithmetic operations and the comparisons that expressions are built with.
-/

namespace SolidScript

inductive Arithmetic where
  | add
  | sub
  | mul
  | div
  | mod
  | pow
deriving DecidableEq, Repr

def Arithmetic.symbol : Arithmetic → String
  | add => "+"
  | sub => "-"
  | mul => "*"
  | div => "/"
  | mod => "%"
  | pow => "^"

inductive Comparison where
  | lt
  | le
  | gt
  | ge
  | eq
  | ne
deriving DecidableEq, Repr

def Comparison.symbol : Comparison → String
  | lt => "<"
  | le => "<="
  | gt => ">"
  | ge => ">="
  | eq => "=="
  | ne => "!="

end SolidScript
