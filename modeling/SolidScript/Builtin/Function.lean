import SolidScript.Arguments
import SolidScript.Value.Arithmetic

/-!
# Functions that come with the language

Each maps arguments to a value. On arguments it has no meaning for, a function reports a warning and
gives `undef`; none of them fails. Angles are in degrees.
-/

namespace SolidScript

abbrev Builtin.Function : Type := CallSite → Arguments → Reporting Value

namespace Builtin

def radiansPerDegree : Float := 3.141592653589793 / 180.0

def degreesPerRadian : Float := 180.0 / 3.141592653589793

def noOverload (site : CallSite) (args : Arguments) : Reporting Value := do
  let kinds := ", ".intercalate (args.positional.map Value.typeName)
  Noted.note (site.warning ("no overload for (" ++ kinds ++ ")"))
  return .undefined

/-- The value of a function where it is defined, else a warning. -/
def orWarn (site : CallSite) (args : Arguments) (v : Option Value) : Reporting Value :=
  match v with
  | some v => return v
  | none => noOverload site args

def unary (f : Float → Float) : Function := fun site args =>
  orWarn site args <|
    match args.positional with
    | [.number x] => some (.number (f x))
    | _ => none

def binary (f : Float → Float → Float) : Function := fun site args =>
  orWarn site args <|
    match args.positional with
    | [.number a, .number b] => some (.number (f a b))
    | _ => none

def sign (x : Float) : Float := if 0 < x then 1.0 else if x < 0 then -1.0 else 0.0

/-- The logarithm to base ten of one number, or of the second to the base of the first. -/
def log : Function := fun site args =>
  orWarn site args <|
    match args.positional with
    | [.number x] => some (.number x.log10)
    | [.number base, .number x] => some (.number (x.log / base.log))
    | _ => none

/-- The least or greatest of the arguments, or of the elements of a single vector. -/
def extremum (pick : Float → Float → Float) : Function := fun site args =>
  let numbers? :=
    match args.positional with
    | [.vector items] => items.mapM Value.number?
    | values => values.mapM Value.number?
  orWarn site args <|
    match numbers? with
    | some (x :: xs) => some (.number (xs.foldl pick x))
    | _ => none

/-- The length of a vector of numbers. The sum of no squares is a negative zero, and so is its
root. -/
def norm : Function := fun site args =>
  orWarn site args <|
    match args.positional with
    | [.vector items] =>
      (items.mapM Value.number?).map fun xs =>
        .number (xs.foldl (fun acc x => acc + x * x) (-0.0)).sqrt
    | _ => none

def len : Function := fun site args =>
  orWarn site args <|
    match args.positional with
    | [v] => v.length?.map fun n => .number (Float.ofNat n)
    | _ => none

/-- The vectors joined, other arguments standing as single elements. -/
def concat : Function := fun _ args =>
  return .vector (args.positional.flatMap fun
    | .vector items => items
    | v => [v])

/-- The character with a code point given as a number. -/
def char? (n : Float) : Option Char :=
  if n.isFinite then do
    let code ← (Decimal.Binary.ofFloat n).integer?
    if 0 ≤ code ∧ code.toNat.isValidChar then some (Char.ofNat code.toNat) else none
  else none

/-- The characters at the next `count` values of a range, put in front of `acc` in reverse; none if
one of the values is no code point. -/
def rangeChars? (r : Range Float) : Nat → Nat → List Char → Option (List Char)
  | 0, _, acc => some acc
  | count + 1, i, acc =>
    match char? (r.valueAt i) with
    | some c => rangeChars? r count (i + 1) (c :: acc)
    | none => none

mutual

/-- The characters that a value stands for, put in front of `acc` in reverse: a code point, or a
vector or range of them. -/
def chars? : Value → List Char → Option (List Char)
  | .number n, acc => (char? n).map (· :: acc)
  | .vector items, acc => allChars? items acc
  | .range r, acc => rangeChars? r r.length 0 acc
  | _, _ => none

def allChars? : List Value → List Char → Option (List Char)
  | [], acc => some acc
  | v :: vs, acc => (chars? v acc).bind (allChars? vs)

end

def chr : Function := fun site args =>
  orWarn site args ((allChars? args.positional []).map fun cs => .string (String.ofList cs.reverse))

def str : Function := fun _ args =>
  return .string (String.join (args.positional.map Value.display))

def languageVersion : Float × Float × Float := (2021.0, 1.0, 0.0)

def version : Function := fun _ _ =>
  let (year, month, patch) := languageVersion
  return .vector [.number year, .number month, .number patch]

def versionNumber : Function := fun _ _ =>
  let (year, month, patch) := languageVersion
  return .number (year * 10000.0 + month * 100.0 + patch)

/-- The range with the given start, stop and step; the step is one unless given. -/
def range : Function := fun site args =>
  let step? :=
    match args.get? "step" 2 with
    | none => some 1.0
    | some .undefined => some 1.0
    | some v => v.number?
  orWarn site args <|
    match args.number? "start" 0, args.number? "stop" 1, step? with
    | some start, some stop, some step => some (.range ⟨start, step, stop⟩)
    | _, _, _ => none

def echo : Function := fun _ args => do
  Noted.note ⟨.info, args.echoLine⟩
  return .undefined

def functions : List (String × Function) := [
  ("sin", unary fun x => (x * radiansPerDegree).sin),
  ("cos", unary fun x => (x * radiansPerDegree).cos),
  ("tan", unary fun x => (x * radiansPerDegree).tan),
  ("asin", unary fun x => x.asin * degreesPerRadian),
  ("acos", unary fun x => x.acos * degreesPerRadian),
  ("atan", unary fun x => x.atan * degreesPerRadian),
  ("atan2", binary fun y x => Float.atan2 y x * degreesPerRadian),
  ("abs", unary Float.abs),
  ("sign", unary sign),
  ("floor", unary Float.floor),
  ("ceil", unary Float.ceil),
  ("round", unary Float.round),
  ("sqrt", unary Float.sqrt),
  ("exp", unary Float.exp),
  ("ln", unary Float.log),
  ("log", log),
  ("pow", binary Float.pow),
  ("min", extremum Scalar.min),
  ("max", extremum Scalar.max),
  ("norm", norm),
  ("len", len),
  ("concat", concat),
  ("chr", chr),
  ("str", str),
  ("version", version),
  ("version_num", versionNumber),
  ("div", binary quotient),
  ("range", range),
  ("echo", echo)]

end Builtin

end SolidScript
