import SolidScript.Value.Text
import SolidScript.Error
import SolidScript.Diagnostics

/-!
# Calls

The evaluated arguments of a call, and the place it is made from.
-/

namespace SolidScript

/-- Arguments in call order, those given by position and those given by name. -/
structure Arguments where
  positional : List Value := []
  named : List (String × Value) := []

namespace Arguments

/-- The value given by name; the first one if the name is repeated. -/
def keyword? (args : Arguments) (name : String) : Option Value :=
  args.named.lookup name

/-- The value given by name, else the one at a position. -/
def get? (args : Arguments) (name : String) (index : Nat) : Option Value :=
  (args.keyword? name).or args.positional[index]?

def number? (args : Arguments) (name : String) (index : Nat) : Option Float :=
  (args.get? name index).bind Value.number?

def size (args : Arguments) : Nat := args.positional.length + args.named.length

def isEmpty (args : Arguments) : Bool := args.size = 0

/-- The line that echoing the arguments reports: positional values first, then `name=value`
pairs. -/
def echoLine (args : Arguments) : String :=
  Log.echoMark ++ ", ".intercalate
    (args.positional.map Value.repr ++
      args.named.map fun (name, value) => name ++ "=" ++ value.repr)

end Arguments

/-- A name that denotes a special variable; it is accepted wherever it is not a parameter. -/
def isSpecial (name : String) : Bool := name.startsWith "$"

structure CallSite where
  name : String
  pos : Position
deriving DecidableEq, Repr

namespace CallSite

def reused (site : CallSite) : RuntimeError := ⟨.childrenReused site.name, some site.pos⟩

def dimensionMismatch (site : CallSite) : RuntimeError :=
  ⟨.dimensionMismatch site.name, some site.pos⟩

def invalid (site : CallSite) (detail : String) : RuntimeError :=
  ⟨.invalidArgument site.name detail, some site.pos⟩

def warning (site : CallSite) (detail : String) : Entry :=
  ⟨.warning, site.name ++ ": " ++ detail ++ " at " ++ site.pos.text⟩

/-- Warn about every keyword that the callee does not know; special variables always pass. -/
def checkKeywords (site : CallSite) (args : Arguments) (known : List String) : Reporting Unit :=
  .noteAll <| (args.named.filter fun (name, _) => !(isSpecial name || known.contains name)).map
    fun (name, _) => site.warning ("ignoring unknown argument `" ++ name ++ "`")

end CallSite

end SolidScript
