import Mathlib.Tactic.Common
import SolidScript.Grammar.Rules
import SolidScript.Program.Basic

/-!
# Programs as texts

The canonical text of a program, and programs without the places that they were written at.
-/

namespace SolidScript

open Argument Statement

open Grammar (Name)

/-! ## Places -/

mutual

/-- The expression with every place forgotten. -/
def Expr.unplaced : Expr → Expr
  | .number _ x => .number .start x
  | .string _ s => .string .start s
  | .bool _ b => .bool .start b
  | .undefined _ => .undefined .start
  | .var _ name => .var .start name
  | .vector _ items => .vector .start (Expr.unplacedAll items)
  | .index _ target i => .index .start target.unplaced i.unplaced
  | .binary _ op left right => .binary .start op left.unplaced right.unplaced
  | .negate _ operand => .negate .start operand.unplaced
  | .not _ operand => .not .start operand.unplaced
  | .compare _ op left right => .compare .start op left.unplaced right.unplaced
  | .and _ left right => .and .start left.unplaced right.unplaced
  | .or _ left right => .or .start left.unplaced right.unplaced
  | .cond _ condition yes no => .cond .start condition.unplaced yes.unplaced no.unplaced
  | .range _ start stop => .range .start start.unplaced stop.unplaced
  | .rangeBy _ start step stop => .rangeBy .start start.unplaced step.unplaced stop.unplaced
  | .call _ name args => .call .start name (Argument.unplacedAll args)

def Expr.unplacedAll : List Expr → List Expr
  | [] => []
  | e :: es => e.unplaced :: Expr.unplacedAll es

def Argument.unplacedAll : List Argument → List Argument
  | [] => []
  | ⟨name, value⟩ :: args => ⟨name, value.unplaced⟩ :: Argument.unplacedAll args

end

def Param.unplaced (p : Param) : Param := ⟨p.name, p.default.map Expr.unplaced⟩

def Binding.unplaced (b : Binding) : Binding := ⟨b.name, b.domain.unplaced⟩

mutual

/-- The statement with every place forgotten. -/
def Statement.unplaced : Statement → Statement
  | .assign _ name value => .assign .start name value.unplaced
  | .evaluate _ value => .evaluate .start value.unplaced
  | .invoke _ name args body =>
    .invoke .start name (Argument.unplacedAll args) (unplacedAll body)
  | .defineModule _ ⟨name, params, body⟩ =>
    .defineModule .start ⟨name, params.map Param.unplaced, unplacedAll body⟩
  | .defineFunction _ f =>
    .defineFunction .start ⟨f.name, f.params.map Param.unplaced, f.body.unplaced⟩
  | .branch _ condition yes no =>
    .branch .start condition.unplaced (unplacedAll yes) (unplacedAll no)
  | .loop _ bindings body =>
    .loop .start (bindings.map Binding.unplaced) (unplacedAll body)

def Statement.unplacedAll : List Statement → List Statement
  | [] => []
  | stmt :: rest => stmt.unplaced :: unplacedAll rest

end

/-- The program with every place forgotten. -/
def Program.unplaced (program : Program) : Program := unplacedAll program

/-! ## Levels -/

/-- The rule that builds an operation. -/
def Arithmetic.level : Arithmetic → Name
  | .add | .sub => .additive
  | .mul | .div | .mod => .multiplicative
  | .pow => .power

def Comparison.level : Comparison → Name
  | .eq | .ne => .equality
  | .lt | .le | .gt | .ge => .comparison

/-- The rule that builds an expression; the higher its rank, the looser the expression. -/
def Expr.level : Expr → Name
  | cond _ _ _ _ => .ternary
  | or _ _ _ => .logicOr
  | and _ _ _ => .logicAnd
  | compare _ op _ _ => op.level
  | binary _ op _ _ => op.level
  | negate _ _ => .unary
  | not _ _ => .unary
  | index _ _ _ => .postfixed
  | _ => .primary

/-- The rules at the places of the two operands. Operations of one level join to the left, except
for powers. -/
def Arithmetic.places : Arithmetic → Name × Name
  | .add | .sub => (.additive, .multiplicative)
  | .mul | .div | .mod => (.multiplicative, .unary)
  | .pow => (.postfixed, .unary)

def Comparison.places : Comparison → Name × Name
  | .eq | .ne => (.equality, .comparison)
  | .lt | .le | .gt | .ge => (.comparison, .additive)

/-! ## Texts -/

/-- A character inside a string. -/
def escapedChar (c : Char) : List Char :=
  if c = '"' then ['\\', '"']
  else if c = '\\' then ['\\', '\\']
  else if c = '\n' then ['\\', 'n']
  else if c = '\t' then ['\\', 't']
  else if c = '\r' then ['\\', 'r']
  else [c]

/-- Texts with commas in between. -/
def separated : List (List Char) → List Char
  | [] => []
  | [s] => s
  | s :: ss => s ++ ',' :: separated ss

/-- The text of an expression at the place of a rule: in parentheses where the expression is
looser. -/
def Expr.placed (e : Expr) (r : Name) (s : List Char) : List Char :=
  if r.rank < e.level.rank then '(' :: (s ++ [')']) else s

mutual

/-- The text of an expression, with numbers written by `numeral`. -/
def Expr.render (numeral : Float → String) : Expr → List Char
  | .number _ x => (numeral x).toList
  | .string _ s => '"' :: (s.toList.flatMap escapedChar ++ ['"'])
  | .bool _ b => if b then "true".toList else "false".toList
  | .undefined _ => "undef".toList
  | .var _ name => name.toList
  | .vector _ items => '[' :: (separated (Expr.renderAll numeral items) ++ [']'])
  | .index _ target i =>
    target.placed .postfixed (target.render numeral) ++ '[' :: (i.render numeral ++ [']'])
  | .binary _ op left right =>
    left.placed op.places.1 (left.render numeral) ++
      (op.symbol.toList ++ right.placed op.places.2 (right.render numeral))
  | .negate _ operand => '-' :: operand.placed .unary (operand.render numeral)
  | .not _ operand => '!' :: operand.placed .unary (operand.render numeral)
  | .compare _ op left right =>
    left.placed op.places.1 (left.render numeral) ++
      (op.symbol.toList ++ right.placed op.places.2 (right.render numeral))
  | .and _ left right =>
    left.placed .logicAnd (left.render numeral) ++
      ("&&".toList ++ right.placed .equality (right.render numeral))
  | .or _ left right =>
    left.placed .logicOr (left.render numeral) ++
      ("||".toList ++ right.placed .logicAnd (right.render numeral))
  | .cond _ condition yes no =>
    condition.placed .logicOr (condition.render numeral) ++
      '?' :: (yes.render numeral ++ ':' :: no.render numeral)
  | .range _ start stop => '[' :: (start.render numeral ++ ':' :: (stop.render numeral ++ [']']))
  | .rangeBy _ start step stop =>
    '[' :: (start.render numeral ++
      ':' :: (step.render numeral ++ ':' :: (stop.render numeral ++ [']'])))
  | .call _ name args =>
    name.toList ++ '(' :: (separated (Argument.renderAll numeral args) ++ [')'])

def Expr.renderAll (numeral : Float → String) : List Expr → List (List Char)
  | [] => []
  | e :: es => e.render numeral :: Expr.renderAll numeral es

def Argument.renderAll (numeral : Float → String) : List Argument → List (List Char)
  | [] => []
  | ⟨none, value⟩ :: args => value.render numeral :: Argument.renderAll numeral args
  | ⟨some name, value⟩ :: args =>
    (name.toList ++ '=' :: value.render numeral) :: Argument.renderAll numeral args

end

def Param.render (numeral : Float → String) : Param → List Char
  | ⟨name, none⟩ => name.toList
  | ⟨name, some default⟩ => name.toList ++ '=' :: default.render numeral

def Binding.render (numeral : Float → String) (b : Binding) : List Char :=
  b.name.toList ++ '=' :: b.domain.render numeral

/-- A text in braces. -/
def braced (s : List Char) : List Char := '{' :: (s ++ ['}'])

mutual

def Statement.render (numeral : Float → String) : Statement → List Char
  | .assign _ name value => name.toList ++ '=' :: (value.render numeral ++ [';'])
  | .evaluate _ value => value.render numeral ++ [';']
  | .invoke _ name args body =>
    name.toList ++ '(' :: (separated (Argument.renderAll numeral args) ++ ')' ::
      braced (renderAll numeral body))
  | .defineModule _ ⟨name, params, body⟩ =>
    "module ".toList ++
      (name.toList ++ '(' :: (separated (params.map (Param.render numeral)) ++ ')' ::
      braced (renderAll numeral body)))
  | .defineFunction _ f =>
    "function ".toList ++
      (f.name.toList ++ '(' :: (separated (f.params.map (Param.render numeral)) ++ ')' :: '=' ::
      (f.body.render numeral ++ [';'])))
  | .branch _ condition yes no =>
    "if(".toList ++ (condition.render numeral ++ ')' :: (braced (renderAll numeral yes) ++
      if no.isEmpty then [] else "else".toList ++ braced (renderAll numeral no)))
  | .loop _ bindings body =>
    "for(".toList ++ (separated (bindings.map (Binding.render numeral)) ++ ')' ::
      braced (renderAll numeral body))

/-- Statements one after the other. -/
def Statement.renderAll (numeral : Float → String) : List Statement → List Char
  | [] => []
  | stmt :: rest => stmt.render numeral ++ renderAll numeral rest

end

/-- The canonical text of a program. -/
def Program.render (numeral : Float → String) (program : Program) : String :=
  String.ofList (renderAll numeral program)

/-! ## Lists -/

/-- Lists lose places item by item. -/
lemma Expr.unplacedAll_eq_map (es : List Expr) : Expr.unplacedAll es = es.map Expr.unplaced := by
  induction es with
  | nil => rfl
  | cons e es ih => rw [Expr.unplacedAll, ih, List.map_cons]

/-- They are written so, too. -/
lemma Expr.renderAll_eq_map (numeral : Float → String) (es : List Expr) :
    Expr.renderAll numeral es = es.map (Expr.render numeral) := by
  induction es with
  | nil => rfl
  | cons e es ih => rw [Expr.renderAll, ih, List.map_cons]

def Argument.unplaced (a : Argument) : Argument := ⟨a.name, a.value.unplaced⟩

lemma Argument.unplacedAll_eq_map (args : List Argument) :
    unplacedAll args = args.map unplaced := by
  induction args with
  | nil => rfl
  | cons a args ih =>
    obtain ⟨name, value⟩ := a
    rw [unplacedAll, ih, List.map_cons, unplaced]

def Argument.render (numeral : Float → String) : Argument → List Char
  | ⟨none, value⟩ => value.render numeral
  | ⟨some name, value⟩ => name.toList ++ '=' :: value.render numeral

lemma Argument.renderAll_eq_map (numeral : Float → String) (args : List Argument) :
    renderAll numeral args = args.map (render numeral) := by
  induction args with
  | nil => rfl
  | cons a args ih =>
    obtain ⟨_ | name, value⟩ := a
    · rw [renderAll, ih, List.map_cons, render]
    · rw [renderAll, ih, List.map_cons, render]

lemma Statement.unplacedAll_eq_map (block : List Statement) :
    unplacedAll block = block.map unplaced := by
  induction block with
  | nil => rfl
  | cons stmt block ih => rw [unplacedAll, ih, List.map_cons]

end SolidScript
