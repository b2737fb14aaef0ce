import SolidScript.Decimal.Reading
import SolidScript.Grammar.Rules
import SolidScript.Noted
import SolidScript.Program.Basic

/-!
# Programs from syntax trees

`Program.ofTree` gives a syntax tree its meaning. It works on every tree, also one that no source
text has.

* a block moves its definitions to the front
* a call that stands as a statement is an expression if its name is that of a value function, is not
that of a module, and no statements belong to it; every other one applies an operator
* a mistake in a statement fails the block it stands in; a block that fails takes the statement that
owns it away, and the mistake is recorded as an issue
* a node of an unknown kind is recorded as an issue and left out
* signs without an operand behind them end everything: there is neither a program nor a mistake
-/

namespace SolidScript

namespace Grammar.Name

def all : List Name :=
  [program, statement, emptyStatement, block, moduleDef, functionDef, params, param, ifStatement,
    forStatement, forBinding, assignment, operatorCall, modifier, callArgs, argument, namedArg,
    expr, ternary, logicOr, logicAnd, equality, comparison, additive, multiplicative, unary, power,
    postfixed, index, eqOp, cmpOp, addOp, mulOp, unaryOp, primary, functionCall, range, vector,
    reference, number, string, stringInner, boolean, undefined, identifier, wordModule,
    wordFunction, wordIf, wordElse, wordFor, finish]

def ofKind? (kind : String) : Option Name := all.find? (·.kind = kind)

end Grammar.Name

def Tree.rule? (t : Tree) : Option Grammar.Name := Grammar.Name.ofKind? t.kind

/-- Why a tree gives no program. -/
inductive Stop where
  | mistake (e : CompileError)
  /-- A node was taken apart that has too few children for it. No statement is left out on that
  ground and nothing is recorded: there is no answer. -/
  | outOfRange (node : Tree)

def Stop.message : Stop → String
  | mistake e => e.message
  | outOfRange node => "too few children in `" ++ node.kind ++ "` node at " ++ node.pos.text

/-- A computation that records issues and may fail; the issues stay when it fails. -/
abbrev Recording (ε : Type) : Type → Type := ExceptT ε (Noted CompileError)

/-- The names that the definitions around a statement give. -/
structure Known where
  functions : List String := []
  modules : List String := []

namespace Known

def union (a b : Known) : Known := ⟨a.functions ++ b.functions, a.modules ++ b.modules⟩

/-- Whether a call of this name that stands as a statement calls a value function. -/
def callsFunction (known : Known) (name : String) : Bool :=
  known.functions.contains name && !known.modules.contains name

mutual

/-- The names that a statement defines for its block. A bare block belongs to the block around
it. -/
def ofStatement : Tree → Known
  | .node kind _ _ children =>
    match Grammar.Name.ofKind? kind with
    | some .moduleDef => { modules := (children.find? (·.kind = "ident")).toList.map Tree.text }
    | some .functionDef => { functions := (children.find? (·.kind = "ident")).toList.map Tree.text }
    | some .block => ofBlock children
    | _ => {}

def ofBlock : List Tree → Known
  | [] => {}
  | t :: ts => (ofStatement t).union (ofBlock ts)

end

end Known

namespace OfTree

def record {ε : Type} (e : CompileError) : Recording ε Unit :=
  (Noted.note e : Noted CompileError Unit)

def refuse {α : Type} (e : CompileError) : Recording Stop α := throw (.mistake e)

def malformed {α : Type} (t : Tree) (detail : String) : Recording Stop α :=
  refuse (.malformed t.kind detail t.pos)

def missing {α : Type} (t : Tree) (kind : String) : Recording Stop α :=
  malformed t ("missing `" ++ kind ++ "`")

def name (t : Tree) : Recording Stop String :=
  match t.child? "ident" with
  | some child => pure child.text
  | none => missing t "ident"

/-- A string without its escapes: a backslash stands for the character behind it, or for a control
character. -/
def unescape : List Char → List Char
  | '\\' :: 'n' :: s => '\n' :: unescape s
  | '\\' :: 't' :: s => '\t' :: unescape s
  | '\\' :: 'r' :: s => '\r' :: unescape s
  | '\\' :: c :: s => c :: unescape s
  | c :: s => c :: unescape s
  | [] => []

def operation? (symbol : String) : Option (Position → Expr → Expr → Expr) :=
  match symbol with
  | "+" => some (Expr.binary · .add)
  | "-" => some (Expr.binary · .sub)
  | "*" => some (Expr.binary · .mul)
  | "/" => some (Expr.binary · .div)
  | "%" => some (Expr.binary · .mod)
  | "<" => some (Expr.compare · .lt)
  | "<=" => some (Expr.compare · .le)
  | ">" => some (Expr.compare · .gt)
  | ">=" => some (Expr.compare · .ge)
  | "==" => some (Expr.compare · .eq)
  | "!=" => some (Expr.compare · .ne)
  | _ => none

/-- An operation in front of an operand; any other symbol has no effect. -/
def signed (op : Tree) (e : Expr) : Expr :=
  match op.text with
  | "-" => .negate op.pos e
  | "!" => .not op.pos e
  | _ => e

mutual

def expr : Tree → Recording Stop Expr
  | t@(.node kind text pos children) =>
    match Grammar.Name.ofKind? kind with
    | some .number =>
      match Decimal.read? text with
      | some x => pure (.number pos x)
      | none => malformed t "not a number"
    | some .string =>
      let inner := ((t.child? "string_inner").map Tree.text).getD ""
      pure (.string pos (String.ofList (unescape inner.toList)))
    | some .boolean => pure (.bool pos (text == "true"))
    | some .undefined => pure (.undefined pos)
    | some .reference => return .var pos (← name t)
    | some .vector => return .vector pos (← exprs children)
    | some .range => do
      match ← exprs children with
      | [start, stop] => pure (.range pos start stop)
      | start :: step :: stop :: _ => pure (.rangeBy pos start step stop)
      | _ => malformed t "expected two or three bounds"
    | some .functionCall => do
      let callee ← name t
      match ← firstArguments children with
      | some args => pure (.call pos callee args)
      | none => missing t "call_args"
    | some .ternary => conditional t children
    | some .logicOr => joined t (.or pos) children
    | some .logicAnd => joined t (.and pos) children
    | some .equality | some .comparison | some .additive | some .multiplicative =>
      chained t children
    | some .unary => signs t children
    | some .power => power t children
    | some .postfixed => indexed t children
    | _ => wrapped t children
termination_by structural x => x

/-- A node of any other kind stands for its only child. -/
def wrapped (node : Tree) : List Tree → Recording Stop Expr
  | [t] => expr t
  | _ => do
    record (.unmapped node.kind node.pos)
    pure (.undefined node.pos)
termination_by structural x => x

/-- A condition with two branches, or what stands in its place. -/
def conditional (node : Tree) : List Tree → Recording Stop Expr
  | [t] => expr t
  | [c, a, b] => do
    let c ← expr c
    let a ← expr a
    return .cond node.pos c a (← expr b)
  | _ => malformed node "expected condition and two branches"
termination_by structural x => x

/-- A base with an exponent, or what stands in its place. -/
def power (node : Tree) : List Tree → Recording Stop Expr
  | [t] => expr t
  | [a, b] => do
    let a ← expr a
    return .binary node.pos .pow a (← expr b)
  | _ => malformed node "expected base and exponent"
termination_by structural x => x

def joined (node : Tree) (join : Expr → Expr → Expr) : List Tree → Recording Stop Expr
  | [] => malformed node "no operands"
  | t :: ts => do operands join (← expr t) ts
termination_by structural x => x

/-- Operands joined from the left by the operators between them. -/
def chained (node : Tree) : List Tree → Recording Stop Expr
  | [] => malformed node "no operands"
  | t :: ts => do chain node (← expr t) ts
termination_by structural x => x

def indexed (node : Tree) : List Tree → Recording Stop Expr
  | [] => malformed node "no operand"
  | t :: ts => do indices (← expr t) ts
termination_by structural x => x

def exprs : List Tree → Recording Stop (List Expr)
  | [] => pure []
  | t :: ts => do
    let e ← expr t
    return e :: (← exprs ts)
termination_by structural x => x

/-- The expression of the first child of kind `expr`. -/
def firstExpr : List Tree → Recording Stop (Option Expr)
  | [] => pure none
  | t :: ts => if t.kind = "expr" then some <$> expr t else firstExpr ts
termination_by structural x => x

def value : Tree → Recording Stop Expr
  | t@(.node _ _ _ children) => do
    match ← firstExpr children with
    | some e => pure e
    | none => missing t "expr"
termination_by structural x => x

def operands (join : Expr → Expr → Expr) (left : Expr) : List Tree → Recording Stop Expr
  | [] => pure left
  | t :: ts => do operands join (join left (← expr t)) ts
termination_by structural x => x

/-- Join further operands, each behind its operator. -/
def chain (node : Tree) (left : Expr) : List Tree → Recording Stop Expr
  | [] => pure left
  | [_] => malformed node "operator without right operand"
  | op :: t :: ts => do
    let right ← expr t
    match operation? op.text with
    | some join => chain node (join op.pos left right) ts
    | none => malformed op ("unknown operator `" ++ op.text ++ "`")
termination_by structural x => x

def signs (node : Tree) : List Tree → Recording Stop Expr
  | [] => throw (.outOfRange node)
  | [t] => expr t
  | op :: t :: ts => return signed op (← signs node (t :: ts))
termination_by structural x => x

def indices (target : Expr) : List Tree → Recording Stop Expr
  | [] => pure target
  | t :: ts => do indices (.index t.pos target (← value t)) ts
termination_by structural x => x

/-- The arguments in the first child of kind `call_args`. -/
def firstArguments : List Tree → Recording Stop (Option (List Argument))
  | [] => pure none
  | .node kind _ _ children :: ts =>
    if kind = "call_args" then some <$> arguments [] children else firstArguments ts
termination_by structural x => x

/-- Arguments in order; a keyword may not be repeated. -/
def arguments (seen : List String) : List Tree → Recording Stop (List Argument)
  | [] => pure []
  | t@(.node kind _ _ children) :: ts =>
    if kind = "argument" then do
      let arg ← argument t seen children
      return arg :: (← arguments (arg.name.toList ++ seen) ts)
    else arguments seen ts
termination_by structural x => x

/-- The argument that a node holds in its first child. -/
def argument (node : Tree) (seen : List String) : List Tree → Recording Stop Argument
  | [] => malformed node "empty argument"
  | t :: _ =>
    if t.kind = "named_arg" then do
      let keyword ← name t
      if seen.contains keyword then
        refuse (.argumentBinding ("keyword argument `" ++ keyword ++ "` given more than once")
          t.pos)
      return ⟨some keyword, ← value t⟩
    else return ⟨none, ← expr t⟩
termination_by structural x => x

end

/-- The parameters among some nodes, in order; none may be repeated. -/
def paramList (seen : List String) : List Tree → Recording Stop (List Param)
  | [] => pure []
  | t :: ts =>
    if t.kind = "param" then do
      let param ← name t
      if seen.contains param then
        refuse (.argumentBinding ("duplicate parameter `" ++ param ++ "`") t.pos)
      let default ← firstExpr t.children
      return ⟨param, default⟩ :: (← paramList (param :: seen) ts)
    else paramList seen ts

/-- The parameters of a definition, those without a default first. -/
def params (t : Tree) : Recording Stop (List Param) := do
  match t.child? "params" with
  | none => pure []
  | some list =>
    let ps ← paramList [] list.children
    return ps.filter (·.default.isNone) ++ ps.filter (·.default.isSome)

def callArguments (t : Tree) : Recording Stop (List Argument) := do
  match ← firstArguments t.children with
  | some args => pure args
  | none => missing t "call_args"

def bindings : List Tree → Recording Stop (List Binding)
  | [] => pure []
  | t :: ts =>
    if t.kind = "for_binding" then do
      let loopName ← name t
      let domain ← value t
      return ⟨loopName, domain⟩ :: (← bindings ts)
    else bindings ts

inductive Failure where
  /-- In the statement itself: the block around it fails. -/
  | here (e : Stop)
  /-- In a block that the statement owns: only the statement is left out. -/
  | within (e : Stop)

/-- A part of a statement, whose mistakes are the statement's own. -/
def own {α : Type} (x : Recording Stop α) : Recording Failure α := x.adapt .here

def owned {α : Type} (x : Recording Stop α) : Recording Failure α := x.adapt .within

/-- The statements of a node, none if there is a mistake in a block that it owns. -/
def kept (x : Recording Failure (List Statement)) : Recording Stop (List Statement) :=
  match x.run with
  | ⟨.ok ss, issues⟩ => ⟨.ok ss, issues⟩
  | ⟨.error (.within (.mistake e)), issues⟩ => ⟨.ok [], issues.push e⟩
  | ⟨.error (.here e), issues⟩ => ⟨.error e, issues⟩
  | ⟨.error (.within e), issues⟩ => ⟨.error e, issues⟩

/-- The block of a node: the statements in braces, or the node itself as the only one. -/
def body (known : Known) (t : Tree) (braced : Known → Recording Stop (List Statement))
    (alone : Known → Recording Failure (List Statement)) : Recording Failure Program :=
  owned <| Program.hoist <$>
    if t.kind = "block" then braced (known.union (.ofBlock t.children))
    else kept (alone (known.union (.ofStatement t)))

/-- Whether a call is marked as not to be built: switched off, or background only. -/
def isMuted (t : Tree) : Bool :=
  ((t.child? "modifier").map fun m => m.text == "*" || m.text == "%").getD false

mutual

/-- The statements that a node stands for: none or one, or those of a bare block. -/
def statement (known : Known) : Tree → Recording Failure (List Statement)
  | t@(.node kind _ pos children) =>
    match Grammar.Name.ofKind? kind with
    | some .emptyStatement => pure []
    | some .block => own (statements known children)
    | some .assignment => do
      let assigned ← own (name t)
      return [.assign pos assigned (← own (value t))]
    | some .moduleDef => do
      let defined ← own (name t)
      let params ← own (params t)
      return [.defineModule pos ⟨defined, params, ← lastBody known t children⟩]
    | some .functionDef => do
      let defined ← own (name t)
      let params ← own (params t)
      return [.defineFunction pos ⟨defined, params, ← own (value t)⟩]
    | some .ifStatement => do
      let condition ← own (value t)
      let (yes, no) ← branches known t children
      return [.branch pos condition yes no]
    | some .forStatement => do
      let loops ← own (bindings children)
      if loops.isEmpty then own (malformed t "no loop variables")
      return [.loop pos loops (← lastBody known t children)]
    | some .operatorCall =>
      if isMuted t then pure []
      else do
        let callee ← own (name t)
        let args ← own (callArguments t)
        let body ← lastBody known t children
        if body.isEmpty && known.callsFunction callee then
          return [.evaluate pos (.call pos callee args)]
        else
          return [.invoke pos callee args body]
    | _ => do
      record (.unmapped kind pos)
      pure []

def statements (known : Known) : List Tree → Recording Stop (List Statement)
  | [] => pure []
  | t :: ts => do
    let ss ← kept (statement known t)
    return ss ++ (← statements known ts)

def inside (known : Known) : Tree → Recording Stop (List Statement)
  | .node _ _ _ children => statements known children

def lastBody (known : Known) (node : Tree) : List Tree → Recording Failure Program
  | [] => own (malformed node "missing body")
  | [t] => body known t (inside · t) (statement · t)
  | _ :: t :: ts => lastBody known node (t :: ts)

def branches (known : Known) (node : Tree) : List Tree → Recording Failure (Program × Program)
  | _ :: yes :: no :: _ => do
    let yes ← body known yes (inside · yes) (statement · yes)
    return (yes, ← body known no (inside · no) (statement · no))
  | [_, yes] => return (← body known yes (inside · yes) (statement · yes), [])
  | _ => own (malformed node "missing branch")

end

end OfTree

/-- The program that a tree stands for, and the issues on the way. A tree that is not a whole
program is taken for its only statement. -/
def Program.ofTree (functions : List String) (t : Tree) :
    Except Stop Program × Array CompileError :=
  let nodes := if t.kind = "program" then t.children else [t]
  let known : Known := { functions }
  let ⟨result, issues⟩ := (OfTree.statements (known.union (.ofBlock nodes)) nodes).run
  (Program.hoist <$> result, issues)

end SolidScript
