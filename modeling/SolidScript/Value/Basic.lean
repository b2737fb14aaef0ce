import SolidScript.Range

/-!
# Values

What expressions evaluate to. Geometry is never a value.
-/

namespace SolidScript

inductive Value where
  | undefined
  | bool (b : Bool)
  | number (n : Float)
  | string (s : String)
  | vector (items : List Value)
  | range (r : Range Float)
deriving Inhabited, Repr

namespace Value

def typeName : Value → String
  | undefined => "undef"
  | bool _ => "bool"
  | number _ => "number"
  | string _ => "string"
  | vector _ => "vector"
  | range _ => "range"

/-- Everything is true but `undef`, `false`, zero, and text, vectors and ranges without elements. -/
def isTruthy : Value → Bool
  | undefined => false
  | bool b => b
  | number n => n != 0
  | string s => !s.isEmpty
  | vector items => !items.isEmpty
  | range r => !r.isEmpty

def isUndefined : Value → Bool
  | undefined => true
  | _ => false

def number? : Value → Option Float
  | number n => some n
  | _ => none

/-- The numbers of a vector that holds nothing else. -/
def numbers? : Value → Option (List Float)
  | vector items => items.mapM number?
  | _ => none

/-- How many elements a collection has; text counts characters. -/
def length? : Value → Option Nat
  | vector items => some items.length
  | string s => some s.length
  | range r => some r.length
  | _ => none

def get? (v : Value) (i : Nat) : Option Value :=
  match v with
  | vector items => items[i]?
  | string s => s.toList[i]?.map fun c => string (String.singleton c)
  | range r => (r.get? i).map number
  | _ => none

/-- The element at the integer part of a number; none for an index that is no number or is
negative. -/
def index? (v i : Value) : Option Value :=
  match i with
  | number x => if 0 ≤ x then v.get? (floorCount x) else none
  | _ => none

mutual

/-- Structural equality; a NaN equals nothing. -/
def beq : Value → Value → Bool
  | undefined, undefined => true
  | bool a, bool b => a == b
  | number a, number b => a == b
  | string a, string b => a == b
  | vector as, vector bs => beqAll as bs
  | range a, range b => a == b
  | _, _ => false

def beqAll : List Value → List Value → Bool
  | [], [] => true
  | a :: as, b :: bs => beq a b && beqAll as bs
  | _, _ => false

end

instance : BEq Value := ⟨beq⟩

end Value

end SolidScript
