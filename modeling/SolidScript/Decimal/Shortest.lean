import SolidScript.Decimal.Binary

/-!
# Shortest decimal digits

The fewest digits that read back as the same floating-point number, and of those the nearest to it.
The reals that round to a number form an interval around it; for one digit, two digits and so on up
to seventeen, the two points of that decimal grid next to the number are tested against the
interval, and the first grid with a hit gives the digits. Which of two equally near decimals is
taken is up to the caller.
-/

namespace SolidScript.Decimal

/-- The reals that round to one floating-point number, all over one denominator. -/
structure Neighbourhood where
  value : Nat
  low : Nat
  high : Nat
  den : Nat
  /-- The ends round to the number too. -/
  closed : Bool

/-- The neighbourhood of a finite positive number. The gap below a power of two is half the gap
above it. -/
def Neighbourhood.of (b : Binary) : Neighbourhood :=
  let m := b.significand
  let lowGap := if m = Nat.pow 2 52 ∧ b.exponent > -1074 then 1 else 2
  let e := b.exponent - 2
  let up := if e ≥ 0 then Nat.pow 2 e.toNat else 1
  let den := if e ≥ 0 then 1 else Nat.pow 2 (-e).toNat
  { value := 4 * m * up, low := (4 * m - lowGap) * up, high := (4 * m + 2) * up, den,
    closed := m % 2 = 0 }

def Neighbourhood.contains (n : Neighbourhood) (p q : Nat) : Bool :=
  if n.closed then n.low * q ≤ p * n.den ∧ p * n.den ≤ n.high * q
  else n.low * q < p * n.den ∧ p * n.den < n.high * q

/-- The grid `10 ^ exponent · Nat` seen from a number: the point at or below it, and which of that
point and the next one round to the number. Of two such points the nearer is taken. -/
def Neighbourhood.onGrid (n : Neighbourhood) (tie : Tie) (exponent : Int) : Option Scaled :=
  let unit : Fraction := Fraction.timesPowerOfTen ⟨1, 1⟩ exponent
  let below := n.value * unit.den / (n.den * unit.num)
  let above := below + 1
  let holds (d : Nat) : Bool := n.contains (d * unit.num) unit.den
  let rest := n.value * unit.den - below * (n.den * unit.num)
  match holds below, holds above with
  | false, false => none
  | true, false => some ⟨below, exponent⟩
  | false, true => some ⟨above, exponent⟩
  | true, true => some ⟨tie.nearer below rest (n.den * unit.num), exponent⟩

/-- The first of the grids with leading exponent `lead` and `digits`, `digits + 1`, … digits that
has a point in the neighbourhood. -/
def Neighbourhood.search (n : Neighbourhood) (tie : Tie) (lead : Int) : Nat → Nat → Option Scaled
  | _, 0 => none
  | digits, more + 1 =>
    match n.onGrid tie (lead + 1 - digits) with
    | some d => some d
    | none => n.search tie lead (digits + 1) more

/-- The shortest decimal that reads back as `x`, which is finite and not zero; its sign is left
out. -/
def shortest (tie : Tie) (x : Float) : Scaled :=
  let b := Binary.ofFloat x
  let n := Neighbourhood.of b
  let lead := b.magnitude.leadingExponent
  match n.search tie lead 1 17 with
  | some d => d.trim
  | none => ⟨0, 0⟩

end SolidScript.Decimal
