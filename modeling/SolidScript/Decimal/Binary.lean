/-!
# Binary numbers taken apart

A finite floating-point number is a sign and a significand times a power of two. `Binary.ofFloat`
reads the three off the bits, and `Fraction` holds an exact positive quotient, on which decimal
digits are computed.
-/

namespace SolidScript.Decimal

/-- `± significand · 2 ^ exponent`, the value of a finite floating-point number. -/
structure Binary where
  negative : Bool
  significand : Nat
  exponent : Int

structure Fraction where
  num : Nat
  den : Nat

def isNegative (x : Float) : Bool := 0x8000000000000000 ≤ x.toBits

/-- The parts of a finite number: 52 stored bits, an implicit leading one unless the number is
subnormal. -/
def Binary.ofFloat (x : Float) : Binary :=
  let bits := x.toBits.toNat
  let fraction : Nat := bits % Nat.pow 2 52
  let biased : Nat := bits / Nat.pow 2 52 % Nat.pow 2 11
  if biased = 0 then ⟨isNegative x, fraction, -1074⟩
  else ⟨isNegative x, Nat.pow 2 52 + fraction, (biased : Int) - 1075⟩

def Fraction.scaled (n : Nat) (e : Int) : Fraction :=
  if e ≥ 0 then ⟨n * Nat.pow 2 e.toNat, 1⟩ else ⟨n, Nat.pow 2 (-e).toNat⟩

def Binary.magnitude (b : Binary) : Fraction := Fraction.scaled b.significand b.exponent

def Fraction.timesPowerOfTen (q : Fraction) (e : Int) : Fraction :=
  if e ≥ 0 then ⟨q.num * Nat.pow 10 e.toNat, q.den⟩ else ⟨q.num, q.den * Nat.pow 10 (-e).toNat⟩

def digitCount (n : Nat) : Nat := (Nat.toDigits 10 n).length

/-- The exponent of the leading decimal digit: the greatest `e` with `10 ^ e ≤ q`, for a positive
`q`. -/
def Fraction.leadingExponent (q : Fraction) : Int :=
  if q.den ≤ q.num then (digitCount (q.num / q.den) : Int) - 1
  else
    let places := digitCount (q.den / q.num)
    if q.num * Nat.pow 10 (places - 1) = q.den then 1 - (places : Int) else -(places : Int)

/-- Where a number goes that lies exactly between two neighbours of a grid. -/
inductive Tie where
  | up
  | even
deriving DecidableEq, Repr

/-- The nearer of `below` and `below + 1` to the number `below + rest / unit`, where `rest <
unit`. -/
def Tie.nearer (tie : Tie) (below rest unit : Nat) : Nat :=
  if 2 * rest < unit then below
  else if unit < 2 * rest then below + 1
  else
    match tie with
    | .up => below + 1
    | .even => if below % 2 = 0 then below else below + 1

structure Scaled where
  digits : Nat
  exponent : Int

/-- The digits of a decimal, most significant first. -/
def Scaled.text (d : Scaled) : List Char := Nat.toDigits 10 d.digits

def Scaled.leadingExponent (d : Scaled) : Int := d.exponent + digitCount d.digits - 1

/-- The same value without trailing zeros; each removal shortens the digits, so `fuel` digits need
`fuel` removals. -/
def Scaled.trim (d : Scaled) : Scaled :=
  go (digitCount d.digits) d
where
  go : Nat → Scaled → Scaled
    | 0, d => d
    | fuel + 1, d =>
      if d.digits ≠ 0 ∧ d.digits % 10 = 0 then go fuel ⟨d.digits / 10, d.exponent + 1⟩ else d

end SolidScript.Decimal
