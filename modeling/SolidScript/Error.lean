import SolidScript.Position

/-!
# What can go wrong

One type per stage, each error a cause with the place it concerns, and the wording of each in its
`message`.

* `SyntaxError`: the source text is outside the grammar
* `CompileError`: a syntax tree has no meaning as a program
* `RuntimeError`: an evaluation stops
* `MeshError`: a geometry has no surface to extract
-/

namespace SolidScript

structure SyntaxError where
  pos : Position
  detail : String

def SyntaxError.message (e : SyntaxError) : String :=
  "syntax error at " ++ e.pos.text ++ ": " ++ e.detail

inductive CompileError where
  | unmapped (kind : String) (pos : Position)
  /-- A parameter or a keyword argument is given twice. -/
  | argumentBinding (detail : String) (pos : Position)
  /-- A node of a known kind lacks the children that its rule expects. -/
  | malformed (kind : String) (detail : String) (pos : Position)
deriving DecidableEq, Repr

namespace CompileError

def pos : CompileError → Position
  | unmapped _ pos => pos
  | argumentBinding _ pos => pos
  | malformed _ _ pos => pos

def message : CompileError → String
  | unmapped kind pos => "no compiler rule for parse node `" ++ kind ++ "` at " ++ pos.text
  | argumentBinding detail pos => "argument binding error at " ++ pos.text ++ ": " ++ detail
  | malformed kind detail pos => "malformed `" ++ kind ++ "` node at " ++ pos.text ++ ": " ++ detail

end CompileError

inductive Callable where
  | operator
  | function
deriving DecidableEq, Repr

def Callable.text : Callable → String
  | operator => "operator"
  | function => "function"

inductive RuntimeError.Cause where
  | undefinedVariable (name : String)
  | unknown (kind : Callable) (name : String)
  | argumentBinding (callee : String) (detail : String)
  | dimensionMismatch (operator : String)
  | childrenReused (operator : String)
  | recursionLimit (name : String) (limit : Nat)
  | invalidArgument (callee : String) (detail : String)
  | font (callee : String) (detail : String)
deriving DecidableEq, Repr

/-- A stopped evaluation: the cause and, once it is known, the place in the program. -/
structure RuntimeError where
  cause : RuntimeError.Cause
  pos : Option Position := none
deriving DecidableEq, Repr

namespace RuntimeError

def Cause.message : Cause → String
  | undefinedVariable name => "undefined variable `" ++ name ++ "`"
  | unknown kind name => "unknown " ++ kind.text ++ " `" ++ name ++ "`"
  | argumentBinding callee detail => "cannot bind arguments of `" ++ callee ++ "`: " ++ detail
  | dimensionMismatch operator => "`" ++ operator ++ "` cannot combine 2-D and 3-D geometry"
  | childrenReused operator => "children of `" ++ operator ++ "` consumed more than once"
  | recursionLimit name limit =>
    "`" ++ name ++ "` exceeded the recursion limit of " ++ toString limit
  | invalidArgument callee detail => "invalid argument to `" ++ callee ++ "`: " ++ detail
  | font callee detail => "`" ++ callee ++ "` could not resolve a font: " ++ detail

def message (e : RuntimeError) : String :=
  match e.pos with
  | some pos => e.cause.message ++ " at " ++ pos.text
  | none => e.cause.message

/-- The same error, placed at `pos` unless it already has a place. -/
def orAt (e : RuntimeError) (pos : Position) : RuntimeError :=
  { e with pos := some (e.pos.getD pos) }

end RuntimeError

inductive MeshError where
  | notSolid
  | unbounded
  | resolution (given : Nat)
deriving DecidableEq, Repr

def MeshError.message : MeshError → String
  | notSolid => "cannot mesh 2-D geometry; extrude it first"
  | unbounded => "geometry has unbounded or empty extent"
  | resolution given => "mesh resolution must be at least 2, got " ++ toString given

end SolidScript
