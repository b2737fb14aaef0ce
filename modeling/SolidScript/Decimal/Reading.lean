import SolidScript.Decimal.Binary

/-!
# Reading numbers

`read?` accepts an optional sign and then `inf`, `infinity` or `nan` in any case, or decimal digits
with an optional point and an optional exponent, at least one digit standing before or after the
point. The value is the nearest floating-point number, infinity above the largest. `readCount?`
reads a count within a bound.
-/

namespace SolidScript.Decimal

def spanDigits (cs : List Char) : List Char × List Char :=
  (cs.takeWhile Char.isDigit, cs.dropWhile Char.isDigit)

def ofDigits (cs : List Char) : Nat := cs.foldl (fun n c => n * 10 + (c.toNat - '0'.toNat)) 0

/-- The floating-point number nearest to `digits · 10 ^ exponent`. Exponents so large or so small
that the answer is infinity or zero whatever the digits are not multiplied out. -/
def nearest (digits : Nat) (exponent : Int) : Float :=
  if digits = 0 then 0.0
  else
    let lead := exponent + digitCount digits
    if lead > 400 then 1.0 / 0.0
    else if lead < -400 then 0.0
    else Float.ofScientific digits (exponent < 0) exponent.natAbs

def readSign : List Char → Bool × List Char
  | '-' :: rest => (true, rest)
  | '+' :: rest => (false, rest)
  | rest => (false, rest)

/-- The exponent that ends a number: nothing, or `e` with an optional sign and at least one
digit. -/
def readExponent? : List Char → Option Int
  | [] => some 0
  | c :: rest =>
    if c = 'e' ∨ c = 'E' then
      let (negative, digits) := readSign rest
      if digits.isEmpty ∨ !digits.all Char.isDigit then none
      else
        let n : Int := ofDigits digits
        some (if negative then -n else n)
    else none

def readMagnitude? (cs : List Char) : Option Float :=
  let (whole, rest) := spanDigits cs
  let (fraction, rest) :=
    match rest with
    | '.' :: rest => spanDigits rest
    | rest => ([], rest)
  if whole.isEmpty ∧ fraction.isEmpty then none
  else do
    let exponent ← readExponent? rest
    some (nearest (ofDigits (whole ++ fraction)) (exponent - fraction.length))

def read? (s : String) : Option Float :=
  let (negative, rest) := readSign s.toList
  let magnitude :=
    let word := String.ofList (rest.map Char.toLower)
    if word = "inf" ∨ word = "infinity" then some (1.0 / 0.0)
    else if word = "nan" then some (0.0 / 0.0)
    else readMagnitude? rest
  magnitude.map fun x => if negative then -x else x

/-- A count of at most `bound`, in decimal digits that may follow a plus sign. -/
def readCount? (bound : Nat) (s : String) : Option Nat :=
  let digits :=
    match s.toList with
    | '+' :: rest => rest
    | cs => cs
  if digits.isEmpty ∨ !digits.all Char.isDigit then none
  else
    let n := ofDigits digits
    if n ≤ bound then some n else none

end SolidScript.Decimal
