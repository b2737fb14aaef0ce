import SolidScript.Arguments
import SolidScript.Program.Basic

/-!
# Binding arguments to parameters

Positional arguments fill parameters from the left, keywords by name, and what is left takes its
default. Keywords of special variables that are not parameters are bound besides.
-/

namespace SolidScript

namespace Parameters

/-- A failed binding, which has no place yet. -/
def failure (callee detail : String) : RuntimeError := ⟨.argumentBinding callee detail, none⟩

abbrev Filled : Type := Param × Option Value

def fill : List Param → List Value → List Filled
  | [], _ => []
  | p :: ps, [] => (p, none) :: fill ps []
  | p :: ps, v :: vs => (p, some v) :: fill ps vs

def assign (name : String) (value : Value) : List Filled → List Filled
  | [] => []
  | (p, v) :: rest =>
    if p.name = name then (p, some value) :: rest else (p, v) :: assign name value rest

/-- Take in keywords in call order: the filled parameters, and the special variables that are
none. -/
def keywords (callee : String) :
    List Filled → List (String × Value) → Except RuntimeError (List Filled × List (String × Value))
  | filled, [] => .ok (filled, [])
  | filled, (name, value) :: rest =>
    match filled.find? (·.1.name = name) with
    | some (_, some _) => .error (failure callee ("`" ++ name ++ "` is already bound by position"))
    | some (_, none) => keywords callee (assign name value filled) rest
    | none =>
      if isSpecial name then do
        let (filled, specials) ← keywords callee filled rest
        return (filled, (name, value) :: specials)
      else .error (failure callee ("unknown keyword argument `" ++ name ++ "`"))

/-- Parameters with the arguments of a call, and the special variables besides, before any default
is evaluated. -/
def prepare (callee : String) (params : List Param) (args : Arguments) :
    Except RuntimeError (List Filled × List (String × Value)) :=
  if params.length < args.positional.length then
    .error (failure callee
      ("expected at most " ++ toString params.length ++ " positional arguments, got "
        ++ toString args.positional.length))
  else keywords callee (fill params args.positional) args.named

def valueOf {m : Type → Type} [Monad m] [MonadExceptOf RuntimeError m] (callee : String)
    (default : Expr → m Value) (p : Param) (given : Option Value) : m Value :=
  match given, p.default with
  | some value, _ => pure value
  | none, some e => default e
  | none, none => throw (failure callee ("missing required argument `" ++ p.name ++ "`"))

/-- Complete parameters in order, evaluating the defaults of those without a value. -/
def complete {m : Type → Type} [Monad m] [MonadExceptOf RuntimeError m] (callee : String)
    (default : Expr → m Value) : List Filled → m (List (String × Value))
  | [] => pure []
  | (p, given) :: rest => do
    let value ← valueOf callee default p given
    return (p.name, value) :: (← complete callee default rest)

end Parameters

def bindParameters {m : Type → Type} [Monad m] [MonadExceptOf RuntimeError m] (callee : String)
    (params : List Param) (args : Arguments) (default : Expr → m Value) :
    m (List (String × Value)) := do
  match Parameters.prepare callee params args with
  | .error e => throw e
  | .ok (filled, specials) => return (← Parameters.complete callee default filled) ++ specials

end SolidScript
