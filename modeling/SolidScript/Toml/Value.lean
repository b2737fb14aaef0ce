/-!
# TOML values

Values of TOML 1.0 and the rules by which lines build up tables. A table remembers how it came to
be, because that decides what may still be added to it: one under its own header is complete, one
that only lies on the way to a header may still get its own, and one made by dotted keys takes more
dotted keys.
-/

namespace SolidScript.Toml

inductive Origin where
  | header
  | passage
  | dotted
  | inline
deriving DecidableEq, Repr

inductive Value where
  | string (s : String)
  | integer (n : Int)
  | float (x : Float)
  | boolean (b : Bool)
  | moment
  | array (elements : List Value)
  | table (origin : Origin) (entries : List (String × Value))
  /-- An array of tables, each under a header of its own. -/
  | tables (elements : List (List (String × Value)))

abbrev Entries := List (String × Value)

namespace Entries

/-- Give a key a value, in place of the one it has. -/
def set (key : String) (v : Value) : Entries → Entries
  | [] => [(key, v)]
  | (k, w) :: rest => if k = key then (k, v) :: rest else (k, w) :: set key v rest

/-- Add a value under a dotted key. Tables on the way must not be complete, and the last one must be
made of dotted keys. -/
def insert (entries : Entries) (v : Value) : List String → Option Entries
  | [] => none
  | [key] => if (entries.lookup key).isSome then none else some (set key v entries)
  | key :: rest =>
    match entries.lookup key with
    | none => (insert [] v rest).map fun es => set key (.table .dotted es) entries
    | some (.table origin es) =>
      if origin = .header ∨ origin = .inline ∨ (origin = .passage ∧ rest.length = 1) then none
      else (insert es v rest).map fun es => set key (.table origin es) entries
    | some (.tables elements) =>
      if rest.length = 1 then none
      else (insert (elements.getLastD []) v rest).map fun es =>
        set key (.tables (elements.dropLast ++ [es])) entries
    | some _ => none

def insertAll (entries : Entries) (pairs : List (List String × Value)) : Option Entries :=
  pairs.foldlM (fun es (path, v) => es.insert v path) entries

/-- Change what stands at the end of a header's path. The path leads through tables, and through the
last element of an array of tables; those that are missing are made. -/
def modify (entries : Entries) (change : Option Value → Option Value) : List String → Option Entries
  | [] => none
  | [key] => (change (entries.lookup key)).map fun v => set key v entries
  | key :: rest =>
    match entries.lookup key with
    | none => (modify [] change rest).map fun es => set key (.table .passage es) entries
    | some (.table origin es) =>
      if origin = .inline then none else (modify es change rest).map fun es =>
        set key (.table origin es) entries
    | some (.tables elements) =>
      (modify (elements.getLastD []) change rest).map fun es =>
        set key (.tables (elements.dropLast ++ [es])) entries
    | some _ => none

def openTable (pairs : List (List String × Value)) : Option Value → Option Value
  | none => (insertAll [] pairs).map (.table .header)
  | some (.table .passage es) => (insertAll es pairs).map (.table .header)
  | some _ => none

/-- One more element of an array of tables. -/
def openElement (pairs : List (List String × Value)) : Option Value → Option Value
  | none => (insertAll [] pairs).map fun es => .tables [es]
  | some (.tables elements) => (insertAll [] pairs).map fun es => .tables (elements ++ [es])
  | some _ => none

end Entries

namespace Value

/-- A number; an integer counts as one. -/
def number? : Value → Option Float
  | float x => some x
  | integer n => some (if n < 0 then -Float.ofNat n.natAbs else Float.ofNat n.natAbs)
  | _ => none

def count? (bound : Nat) : Value → Option Nat
  | integer n => if 0 ≤ n ∧ n ≤ bound then some n.toNat else none
  | _ => none

def text? : Value → Option String
  | string s => some s
  | _ => none

/-- The fields of a record. An array gives them in order, and a date gives none. -/
def fields? (names : List String) : Value → Option Entries
  | table _ entries => some entries
  | array elements => some (names.zip elements)
  | tables elements => some (names.zip (elements.map (.table .header)))
  | moment => some []
  | _ => none

end Value

/-- A field of a record, or its default if it is not given. -/
def Entries.field (entries : Entries) (name : String) (read : Value → Option α) (default : α) :
    Option α :=
  match entries.lookup name with
  | none => some default
  | some v => read v

end SolidScript.Toml
