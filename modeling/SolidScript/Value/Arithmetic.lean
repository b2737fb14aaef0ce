import SolidScript.Operation
import SolidScript.Value.Basic
import SolidScript.Decimal.Binary

/-!
# Arithmetic and comparison of values

The operations are partial: on operands they do not apply to they give `none`, which an evaluation
turns into `undef` and a warning.

* numbers combine by every operation
* vectors add and subtract element by element, up to the shorter one
* vectors of numbers of one length multiply to their inner product
* a vector multiplies with, divides by, and divides a number element by element
-/

namespace SolidScript

/-- Division that gives an infinity for a zero divisor, by the sign of the dividend, and a NaN for
zero over zero. -/
def quotient (a b : Float) : Float :=
  if b == 0 then
    if 0 < a then 1.0 / 0.0 else if a < 0 then -1.0 / 0.0 else 0.0 / 0.0
  else a / b

/-- The floating-point number `n · 2 ^ e`, for one that can be represented. -/
def Decimal.Binary.toFloat (b : Decimal.Binary) : Float :=
  if b.significand = 0 then if b.negative then -0.0 else 0.0
  else
    let exponent : Int := max (b.exponent + b.significand.log2 - 52) (-1074)
    let shift := exponent - b.exponent
    let m := if shift ≥ 0 then b.significand / Nat.pow 2 shift.toNat
      else b.significand * Nat.pow 2 (-shift).toNat
    let bits := if m < Nat.pow 2 52 then m
      else (exponent + 1075).toNat * Nat.pow 2 52 + (m - Nat.pow 2 52)
    let x := Float.ofBits bits.toUInt64
    if b.negative then -x else x

/-- The exact remainder of a division that is rounded toward zero; it has the sign of the
dividend. -/
def remainder (a b : Float) : Float :=
  if a.isNaN || b.isNaN || a.isInf || b == 0 then 0.0 / 0.0
  else if b.isInf then a
  else
    let x := Decimal.Binary.ofFloat a
    let y := Decimal.Binary.ofFloat b
    let e := min x.exponent y.exponent
    let n := x.significand * Nat.pow 2 (x.exponent - e).toNat
    let d := y.significand * Nat.pow 2 (y.exponent - e).toNat
    Decimal.Binary.toFloat ⟨x.negative, n % d, e⟩

def Arithmetic.apply : Arithmetic → Float → Float → Float
  | add, a, b => a + b
  | sub, a, b => a - b
  | mul, a, b => a * b
  | div, a, b => quotient a b
  | mod, a, b => remainder a b
  | pow, a, b => Float.pow a b

def Comparison.holds (op : Comparison) (o : Ordering) : Bool :=
  match op with
  | .lt => o = .lt
  | .le => o ≠ .gt
  | .gt => o = .gt
  | .ge => o ≠ .lt
  | .eq => o = .eq
  | .ne => o ≠ .eq

namespace Value

/-- Sum of the products of corresponding numbers, if the vectors hold numbers only and equally
many. -/
def innerProduct? : Float → List Value → List Value → Option Float
  | acc, [], [] => some acc
  | acc, number x :: xs, number y :: ys => innerProduct? (acc + x * y) xs ys
  | _, _, _ => none

mutual

/-- The operation on every element of a vector and a number to its right. -/
def scaleRight? (op : Arithmetic) (b : Float) : Value → Option Value
  | number a => some (number (op.apply a b))
  | vector items => if op = .mul ∨ op = .div then (scaleRightAll? op b items).map vector else none
  | _ => none

def scaleRightAll? (op : Arithmetic) (b : Float) : List Value → Option (List Value)
  | [] => some []
  | v :: vs => do
    let w ← scaleRight? op b v
    let ws ← scaleRightAll? op b vs
    some (w :: ws)

end

mutual

/-- The operation on a number and every element of a vector to its right. -/
def scaleLeft? (op : Arithmetic) (a : Float) : Value → Option Value
  | number b => some (number (op.apply a b))
  | vector items => if op = .mul ∨ op = .div then (scaleLeftAll? op a items).map vector else none
  | _ => none

def scaleLeftAll? (op : Arithmetic) (a : Float) : List Value → Option (List Value)
  | [] => some []
  | v :: vs => do
    let w ← scaleLeft? op a v
    let ws ← scaleLeftAll? op a vs
    some (w :: ws)

end

mutual

def binary? (op : Arithmetic) : Value → Value → Option Value
  | number a, b => scaleLeft? op a b
  | a, number b => scaleRight? op b a
  | vector as, vector bs =>
    match op with
    | .add => (zipAll? op as bs).map vector
    | .sub => (zipAll? op as bs).map vector
    | .mul => (innerProduct? 0 as bs).map number
    | _ => none
  | _, _ => none

/-- An operation on corresponding elements, up to the shorter list. -/
def zipAll? (op : Arithmetic) : List Value → List Value → Option (List Value)
  | a :: as, b :: bs => do
    let c ← binary? op a b
    let cs ← zipAll? op as bs
    some (c :: cs)
  | _, _ => some []

end

mutual

def negate? : Value → Option Value
  | number n => some (number (-n))
  | vector items => (negateAll? items).map vector
  | _ => none

def negateAll? : List Value → Option (List Value)
  | [] => some []
  | v :: vs => do
    let w ← negate? v
    let ws ← negateAll? vs
    some (w :: ws)

end

/-- How two values that have an order compare: numbers, strings and truth values do, a NaN with
nothing. -/
def order? : Value → Value → Option (Option Ordering)
  | number a, number b =>
    some (if a < b then some .lt else if b < a then some .gt else if a == b then some .eq else none)
  | string a, string b => some (some (if a < b then .lt else if b < a then .gt else .eq))
  | bool a, bool b => some (some (compare a.toNat b.toNat))
  | _, _ => none

/-- A comparison, where it is defined: any two values can be equal or not, the others need an
order. -/
def compare? (op : Comparison) (a b : Value) : Option Value :=
  match op with
  | .eq => some (bool (a == b))
  | .ne => some (bool (!(a == b)))
  | op =>
    (order? a b).map fun
      | some o => bool (op.holds o)
      | none => bool false

end Value

end SolidScript
