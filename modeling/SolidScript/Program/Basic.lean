import SolidScript.Operation
import SolidScript.Position

/-!
# Programs

What a source text means before it is run. A program is a block, an ordered list of statements;
every expression and every statement carries the place it was written at.

* `Expr`: expressions, with the arguments of their calls
* `Statement`: statements, with the blocks and the module definitions they hold
* `hoist`: definitions move to the front of their block
-/

namespace SolidScript

mutual

inductive Expr where
  | number (pos : Position) (value : Float)
  | string (pos : Position) (value : String)
  | bool (pos : Position) (value : Bool)
  | undefined (pos : Position)
  | var (pos : Position) (name : String)
  | vector (pos : Position) (items : List Expr)
  | index (pos : Position) (target index : Expr)
  | binary (pos : Position) (op : Arithmetic) (left right : Expr)
  | negate (pos : Position) (operand : Expr)
  | not (pos : Position) (operand : Expr)
  | compare (pos : Position) (op : Comparison) (left right : Expr)
  | and (pos : Position) (left right : Expr)
  | or (pos : Position) (left right : Expr)
  | cond (pos : Position) (condition yes no : Expr)
  | range (pos : Position) (start stop : Expr)
  | rangeBy (pos : Position) (start step stop : Expr)
  | call (pos : Position) (name : String) (args : List Argument)

/-- An argument of a call, with its keyword if it has one. -/
structure Argument where
  name : Option String
  value : Expr

end

instance : Inhabited Expr := ⟨.undefined .start⟩

namespace Expr

def pos : Expr → Position
  | number pos _ => pos
  | string pos _ => pos
  | bool pos _ => pos
  | undefined pos => pos
  | var pos _ => pos
  | vector pos _ => pos
  | index pos _ _ => pos
  | binary pos _ _ _ => pos
  | negate pos _ => pos
  | not pos _ => pos
  | compare pos _ _ _ => pos
  | and pos _ _ => pos
  | or pos _ _ => pos
  | cond pos _ _ _ => pos
  | range pos _ _ => pos
  | rangeBy pos _ _ _ => pos
  | call pos _ _ => pos

end Expr

/-- A parameter of a definition. One without a default is required. -/
structure Param where
  name : String
  default : Option Expr

/-- A loop variable and what it runs over. -/
structure Binding where
  name : String
  domain : Expr

structure FunctionDef where
  name : String
  params : List Param
  body : Expr

mutual

inductive Statement where
  /-- Bind a variable in the innermost scope. -/
  | assign (pos : Position) (name : String) (value : Expr)
  /-- A call of a value function, for what it reports. -/
  | evaluate (pos : Position) (value : Expr)
  /-- An operator applied to what its body yields. -/
  | invoke (pos : Position) (name : String) (args : List Argument) (body : List Statement)
  | defineModule (pos : Position) (definition : ModuleDef)
  | defineFunction (pos : Position) (definition : FunctionDef)
  | branch (pos : Position) (condition : Expr) (yes no : List Statement)
  /-- All combinations of the loop variables, the first one outermost. -/
  | loop (pos : Position) (bindings : List Binding) (body : List Statement)

/-- A defined module: an operator with a body. -/
structure ModuleDef where
  name : String
  params : List Param
  body : List Statement

end

abbrev Program : Type := List Statement

namespace Statement

def pos : Statement → Position
  | assign pos _ _ => pos
  | evaluate pos _ => pos
  | invoke pos _ _ _ => pos
  | defineModule pos _ => pos
  | defineFunction pos _ => pos
  | branch pos _ _ _ => pos
  | loop pos _ _ => pos

def isDefinition : Statement → Bool
  | defineModule _ _ => true
  | defineFunction _ _ => true
  | _ => false

end Statement

def Program.hoist (block : Program) : Program :=
  block.filter (·.isDefinition) ++ block.filter (!·.isDefinition)

end SolidScript
