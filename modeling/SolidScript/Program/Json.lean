import SolidScript.JsonValue
import SolidScript.Program.Basic

/-!
# Programs as data

The form in which a program is shown: a list of statements, each node a `kind` with its `pos`.
-/

namespace SolidScript

open JsonValue

namespace JsonValue

def ofPosition (pos : Position) : JsonValue :=
  object [("line", count pos.line), ("column", count pos.column)]

def located (kind : JsonValue) (pos : Position) : JsonValue :=
  object [("kind", kind), ("pos", ofPosition pos)]

def variant (name : String) (content : JsonValue) (pos : Position) : JsonValue :=
  located (object [(name, content)]) pos

def ofName : Option String → JsonValue
  | some name => string name
  | none => null

end JsonValue

def Arithmetic.variantName : Arithmetic → String
  | add => "Add"
  | sub => "Sub"
  | mul => "Mul"
  | div => "Div"
  | mod => "Mod"
  | pow => "Pow"

def Comparison.variantName : Comparison → String
  | lt => "Lt"
  | le => "Le"
  | gt => "Gt"
  | ge => "Ge"
  | eq => "Eq"
  | ne => "Ne"

mutual

def Expr.json : Expr → JsonValue
  | .number pos x => variant "Number" (.number x) pos
  | .string pos s => variant "String" (.string s) pos
  | .bool pos b => variant "Bool" (.bool b) pos
  | .undefined pos => located (.string "Undef") pos
  | .var pos name => variant "Variable" (.string name) pos
  | .vector pos items => variant "Vector" (.array (Expr.jsons items)) pos
  | .index pos target index =>
    variant "Index" (.object [("target", target.json), ("index", index.json)]) pos
  | .binary pos op left right =>
    variant "Binary"
      (.object [("op", .string op.variantName), ("lhs", left.json), ("rhs", right.json)]) pos
  | .negate pos operand => variant "Negate" operand.json pos
  | .not pos operand => variant "Not" operand.json pos
  | .compare pos op left right =>
    variant "Compare"
      (.object [("op", .string op.variantName), ("lhs", left.json), ("rhs", right.json)]) pos
  | .and pos left right => variant "And" (.array [left.json, right.json]) pos
  | .or pos left right => variant "Or" (.array [left.json, right.json]) pos
  | .cond pos condition yes no =>
    variant "Ternary"
      (.object [("condition", condition.json), ("then", yes.json), ("otherwise", no.json)]) pos
  | .range pos start stop =>
    variant "Range" (.object [("start", start.json), ("step", .null), ("stop", stop.json)]) pos
  | .rangeBy pos start step stop =>
    variant "Range" (.object [("start", start.json), ("step", step.json), ("stop", stop.json)]) pos
  | .call pos name args =>
    variant "Call" (.object [("name", .string name), ("args", .array (Argument.jsons args))]) pos

def Expr.jsons : List Expr → List JsonValue
  | [] => []
  | e :: es => e.json :: Expr.jsons es

def Argument.json : Argument → JsonValue
  | ⟨name, value⟩ => .object [("name", ofName name), ("value", value.json)]

def Argument.jsons : List Argument → List JsonValue
  | [] => []
  | a :: rest => a.json :: Argument.jsons rest

end

def Param.json (p : Param) : JsonValue :=
  .object [("name", .string p.name), ("default", (p.default.map Expr.json).getD .null)]

def Binding.json (b : Binding) : JsonValue :=
  .object [("name", .string b.name), ("iterable", b.domain.json)]

def FunctionDef.json (f : FunctionDef) : JsonValue :=
  .object [("name", .string f.name), ("params", .array (f.params.map Param.json)),
    ("body", f.body.json)]

mutual

def Statement.json : Statement → JsonValue
  | .assign pos name value =>
    variant "Assign" (.object [("name", .string name), ("value", value.json)]) pos
  | .evaluate pos value => variant "Expr" value.json pos
  | .invoke pos name args body =>
    variant "Invoke"
      (.object [
        ("name", .string name), ("args", .array (Argument.jsons args)),
        ("body", .array (Statement.jsons body))])
      pos
  | .defineModule pos definition => variant "ModuleDef" definition.json pos
  | .defineFunction pos definition => variant "FunctionDef" definition.json pos
  | .branch pos condition yes no =>
    variant "If"
      (.object [
        ("condition", condition.json), ("then_body", .array (Statement.jsons yes)),
        ("else_body", .array (Statement.jsons no))])
      pos
  | .loop pos bindings body =>
    variant "For"
      (.object [("bindings", .array (bindings.map Binding.json)),
        ("body", .array (Statement.jsons body))]) pos

def ModuleDef.json : ModuleDef → JsonValue
  | ⟨name, params, body⟩ =>
    .object [
      ("name", .string name), ("params", .array (params.map Param.json)),
      ("body", .array (Statement.jsons body))]

def Statement.jsons : List Statement → List JsonValue
  | [] => []
  | s :: ss => s.json :: Statement.jsons ss

end

def Program.json (p : Program) : JsonValue := .array (Statement.jsons p)

end SolidScript
