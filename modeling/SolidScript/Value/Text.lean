import SolidScript.Value.Basic
import SolidScript.Decimal.Text
import SolidScript.Text.Quoted

/-!
# Values as text

`display` is what turning a value into a string gives, `repr` what echoing it shows: there, strings
stand in quotes. Inside a vector, elements are always shown by `repr`.
-/

namespace SolidScript

def Decimal.Binary.integer? (b : Decimal.Binary) : Option Int :=
  let whole? : Option Nat :=
    if b.exponent ≥ 0 then some (b.significand * Nat.pow 2 b.exponent.toNat)
    else
      let unit := Nat.pow 2 (-b.exponent).toNat
      if b.significand % unit = 0 then some (b.significand / unit) else none
  whole?.map fun n => if b.negative then -(n : Int) else n

/-- A number as programs show it: integers of fewer than sixteen digits without sign of zero, other
numbers by their shortest digits, never with an exponent. -/
def numberText (x : Float) : String :=
  if x.isNaN then "nan"
  else if x.isInf then Decimal.signText x ++ "inf"
  else
    match (Decimal.Binary.ofFloat x).integer? with
    | some i => if i.natAbs < Nat.pow 10 15 then toString i else Decimal.finiteText .up x
    | none => Decimal.finiteText .up x

def Range.text (r : Range Float) : String :=
  "[" ++ numberText r.start ++ " : " ++ numberText r.step ++ " : " ++ numberText r.stop ++ "]"

namespace Value

mutual

def repr : Value → String
  | undefined => "undef"
  | bool b => if b then "true" else "false"
  | number n => numberText n
  | string s => Text.quote s
  | vector items => "[" ++ ", ".intercalate (reprAll items) ++ "]"
  | range r => r.text

def reprAll : List Value → List String
  | [] => []
  | v :: vs => repr v :: reprAll vs

end

def display : Value → String
  | string s => s
  | v => v.repr

end Value

end SolidScript
