import SolidScript.Evaluation.World
import SolidScript.Parameters

/-!
# The value of an expression

Expressions are evaluated from left to right in a frame. An operation that has no result for its
operands warns and gives `undef`. Calls of functions of the program may nest as deep as the settings
say: `callFunction` recurses on the number of calls that are still allowed.
-/

namespace SolidScript

abbrev CallFunction : Type := FrameId → CallSite → Arguments → Eval Value

def Arguments.cons (name : Option String) (value : Value) (args : Arguments) : Arguments :=
  match name with
  | some name => { args with named := (name, value) :: args.named }
  | none => { args with positional := value :: args.positional }

def orWarned (result : Option Value) (detail : String) (pos : Position) : Eval Value :=
  match result with
  | some v => pure v
  | none => do
    Eval.warn detail pos
    pure .undefined

/-- The value of a variable; a special one that is not set is `undef`. -/
def readVariable (frame : FrameId) (name : String) (pos : Position) : Eval Value := do
  match ← Eval.lookUp frame (·.value? · name) with
  | some v => pure v
  | none => if isSpecial name then pure .undefined else throw ⟨.undefinedVariable name, some pos⟩

/-- The element at an index. Outside of a collection it is `undef` without a warning. -/
def indexValue (target index : Value) (pos : Position) : Eval Value :=
  match target.index? index with
  | some v => pure v
  | none =>
    if target.length?.isNone || index.number?.isNone then do
      Eval.warn ("cannot index " ++ target.typeName ++ " with " ++ index.typeName) pos
      pure .undefined
    else pure .undefined

/-- A range with the given bounds, which have to be numbers. -/
def rangeValue (start step stop : Value) (pos : Position) : Eval Value :=
  orWarned
    (match start.number?, step.number?, stop.number? with
      | some start, some step, some stop => some (.range ⟨start, step, stop⟩)
      | _, _, _ => none)
    "range bounds must be numbers" pos

section

variable (call : CallFunction) (frame : FrameId)

mutual

def Expr.eval : Expr → Eval Value
  | .number _ x => pure (.number x)
  | .string _ s => pure (.string s)
  | .bool _ b => pure (.bool b)
  | .undefined _ => pure .undefined
  | .var pos name => readVariable frame name pos
  | .vector _ items => return .vector (← Expr.evalAll items)
  | .index pos target index => do
    let target ← target.eval
    let index ← index.eval
    indexValue target index pos
  | .binary pos op left right => do
    let a ← left.eval
    let b ← right.eval
    orWarned (Value.binary? op a b)
      ("undefined operation " ++ a.typeName ++ " " ++ op.symbol ++ " " ++ b.typeName) pos
  | .negate pos operand => do
    let a ← operand.eval
    orWarned (Value.negate? a) ("cannot negate " ++ a.typeName) pos
  | .not _ operand => return .bool (!(← operand.eval).isTruthy)
  | .compare pos op left right => do
    let a ← left.eval
    let b ← right.eval
    orWarned (Value.compare? op a b) ("cannot order " ++ a.typeName ++ " against " ++ b.typeName)
      pos
  | .and _ left right => do
    let a ← left.eval
    if a.isTruthy then return .bool (← right.eval).isTruthy else pure (.bool false)
  | .or _ left right => do
    let a ← left.eval
    if a.isTruthy then pure (.bool true) else return .bool (← right.eval).isTruthy
  | .cond _ condition yes no => do
    let c ← condition.eval
    if c.isTruthy then yes.eval else no.eval
  | .range pos start stop => do
    let a ← start.eval
    let b ← stop.eval
    rangeValue a (.number 1.0) b pos
  | .rangeBy pos start step stop => do
    let a ← start.eval
    let s ← step.eval
    let b ← stop.eval
    rangeValue a s b pos
  | .call pos name args => do
    let args ← Argument.evalAll args
    call frame ⟨name, pos⟩ args

def Expr.evalAll : List Expr → Eval (List Value)
  | [] => pure []
  | e :: es => do
    let v ← e.eval
    return v :: (← Expr.evalAll es)

def Argument.evalAll : List Argument → Eval Arguments
  | [] => pure {}
  | ⟨name, e⟩ :: rest => do
    let v ← e.eval
    return (← Argument.evalAll rest).cons name v

end

end

inductive Callee where
  | own (closure : FunctionClosure)
  | builtin (f : Builtin.Function)

/-- What the name of a function denotes in a frame: a function of the program, else a built-in
one. -/
def Environment.callee? (env : Environment) (s : Scopes) (frame : FrameId) (name : String) :
    Option Callee :=
  match s.function? frame name with
  | some closure => some (.own closure)
  | none => (env.registry.functions.lookup name).map .builtin

def callNamed (env : Environment) (own : FunctionClosure → CallSite → Arguments → Eval Value) :
    CallFunction :=
  fun frame site args => do
    match ← Eval.lookUp frame (env.callee? · · site.name) with
    | some (.own closure) => own closure site args
    | some (.builtin f) => Eval.reporting (f site args)
    | none => throw ⟨.unknown .function site.name, some site.pos⟩

def tooDeep (env : Environment) (name : String) (pos : Position) : RuntimeError :=
  ⟨.recursionLimit name env.host.settings.maxDepth, some pos⟩

/-- Run a function of the program: its parameters are bound inside the frame of its definition. -/
def callClosure (call : CallFunction) (closure : FunctionClosure) (site : CallSite)
    (args : Arguments) : Eval Value :=
  let f := closure.definition
  Eval.inCall site.name do
    let bound ← (bindParameters site.name f.params args (Expr.eval call closure.frame)).orAt
      site.pos
    Eval.inBlock closure.frame fun frame => do
      Eval.write frame (.values bound)
      f.body.eval call frame

/-- Call a function while `left` more calls may be in progress. -/
def callFunction (env : Environment) : (left : Nat) → CallFunction
  | 0, frame, site, args =>
    callNamed env (fun _ site _ => throw (tooDeep env site.name site.pos)) frame site args
  | left + 1, frame, site, args =>
    callNamed env (callClosure (callFunction env left)) frame site args

end SolidScript
