import SolidScript.Decimal.Shortest

/-!
# Numbers as text

One record per way of writing a number: `positional` and `scientific` lay out digits that were
chosen before, and the writers below choose them.

* `display`: shortest digits, never an exponent, `NaN` and `inf` spelled so
* `withPoint`: the same, with `.0` after an integer
* `interchange`: a point too for moderate magnitudes, an exponent with its sign for the others
* `significant`: a fixed number of significant digits with an exponent, rounded half to even

Of two shortest decimals that are equally near, messages and settings have the upper one, and data
files the one with an even last digit.
-/

namespace SolidScript.Decimal

def Scaled.positional (d : Scaled) : String :=
  let ds := d.text
  if d.exponent ≥ 0 then String.ofList (ds ++ List.replicate d.exponent.toNat '0')
  else
    let point := d.leadingExponent + 1
    if point > 0 then
      String.ofList (ds.take point.toNat) ++ "." ++ String.ofList (ds.drop point.toNat)
    else "0." ++ String.ofList (List.replicate (-point).toNat '0' ++ ds)

def signText (x : Float) : String := if isNegative x then "-" else ""

/-- Shortest digits without an exponent; a negative zero keeps its sign. -/
def finiteText (tie : Tie) (x : Float) : String :=
  if x == 0 then signText x ++ "0" else signText x ++ (shortest tie x).positional

def display (x : Float) : String :=
  if x.isNaN then "NaN" else if x.isInf then signText x ++ "inf" else finiteText .up x

/-- A number with a point in it, whether or not it has a fraction. -/
def pointed (text : String) : String := if text.toList.contains '.' then text else text ++ ".0"

/-- A number as settings files show it: an integer keeps a point. -/
def withPoint (x : Float) : String :=
  if x.isNaN then "nan"
  else if x.isInf then signText x ++ "inf"
  else pointed (finiteText .up x)

/-- Lay out digits as a leading digit, the further ones behind a point, and an exponent with its
sign. -/
def Scaled.withExponent (d : Scaled) : String :=
  let ds := d.text
  let fraction := if ds.length > 1 then "." ++ String.ofList (ds.drop 1) else ""
  let exponent := d.leadingExponent
  String.ofList (ds.take 1) ++ fraction ++ "e" ++ (if exponent < 0 then "-" else "+") ++
    toString exponent.natAbs

/-- A finite number in data files: positional with a point from `1e-5` up to `1e16`, else with an
exponent. -/
def interchange (x : Float) : String :=
  let d := shortest .even x
  if x == 0 ∨ (-5 ≤ d.leadingExponent ∧ d.leadingExponent < 16) then pointed (finiteText .even x)
  else signText x ++ d.withExponent

/-- `digits` significant digits of a positive quotient, an exact half going to the even
neighbour. -/
def Fraction.round (q : Fraction) (digits : Nat) : Scaled :=
  let exponent := q.leadingExponent + 1 - digits
  let scaled := q.timesPowerOfTen (-exponent)
  ⟨Tie.even.nearer (scaled.num / scaled.den) (scaled.num % scaled.den) scaled.den, exponent⟩

/-- Lay out digits as a leading digit, `places` further ones and an exponent. -/
def Scaled.scientific (d : Scaled) (places : Nat) : String :=
  let ds := d.text
  String.ofList (ds.take 1) ++ "." ++ String.ofList ((ds.drop 1).take places)
    ++ "e" ++ toString d.leadingExponent

/-- A finite number with one digit before the point, `places` after it, and an exponent. -/
def significant (x : Float) (places : Nat) : String :=
  signText x ++ ((Binary.ofFloat x).magnitude.round (places + 1)).scientific places

end SolidScript.Decimal
