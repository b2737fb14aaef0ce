import SolidScript.Run
import SolidScript.Value.Basic

/-!
# What loops run over

A loop variable runs over the elements of a collection, over the one value that is not a collection,
or over nothing. Several variables run over all combinations. A cursor steps through these like an
odometer: the last variable changes fastest.
-/

namespace SolidScript

/-- The values of a loop variable; those of a range are not written out. -/
inductive Domain where
  | values (items : Array Value)
  | range (r : Range Float) (size : Nat)

namespace Domain

def ofValue : Value → Domain
  | .undefined => values #[]
  | .vector items => values items.toArray
  | .range r => range r r.length
  | .string s => values (s.toList.map fun c => .string (String.singleton c)).toArray
  | scalar => values #[scalar]

def size : Domain → Nat
  | values items => items.size
  | range _ size => size

def get : Domain → Nat → Value
  | values items, i => items.getD i .undefined
  | range r size, i => if i < size then .number (r.valueAt i) else .undefined

end Domain

/-- Where a loop stands: the index of each variable. -/
abbrev Cursor : Type := List Nat

namespace Cursor

/-- Go up at the last position. A position that gets to its size starts again, and then the one
before it goes up. `false` when all of them have started again. -/
def advance : List Nat → Cursor → Bool × Cursor
  | n :: sizes, i :: cursor =>
    match advance sizes cursor with
    | (true, cursor) => (true, i :: cursor)
    | (false, cursor) => if i + 1 < n then (true, (i + 1) :: cursor) else (false, 0 :: cursor)
  | _, cursor => (false, cursor)

def first? (sizes : List Nat) : Option Cursor := if 0 ∈ sizes then none
    else some (sizes.map fun _ => 0)

def next? (sizes : List Nat) (cursor : Cursor) : Option Cursor :=
  match advance sizes cursor with
  | (true, cursor) => some cursor
  | (false, _) => none

/-- A bound for the steps ahead of any cursor. -/
def room : List Nat → Nat
  | [] => 1
  | n :: sizes => max n 1 * room sizes

def ahead : List Nat → Cursor → Nat
  | n :: sizes, i :: cursor => (n - 1 - i) * room sizes + ahead sizes cursor
  | _, _ => 0

theorem room_pos (sizes : List Nat) : 0 < room sizes := by
  induction sizes with
  | nil => exact Nat.zero_lt_one
  | cons n sizes ih =>
    exact Nat.mul_pos (Nat.lt_of_lt_of_le Nat.zero_lt_one (Nat.le_max_right n 1)) ih

theorem ahead_lt_room (sizes : List Nat) (cursor : Cursor) : ahead sizes cursor < room sizes := by
  induction sizes generalizing cursor with
  | nil => exact Nat.zero_lt_one
  | cons n sizes ih =>
    cases cursor with
    | nil => exact room_pos _
    | cons i cursor =>
      calc (n - 1 - i) * room sizes + ahead sizes cursor
        _ < (n - 1 - i) * room sizes + room sizes := Nat.add_lt_add_left (ih cursor) _
        _ = (n - 1 - i + 1) * room sizes := (Nat.succ_mul _ _).symm
        _ ≤ max n 1 * room sizes := Nat.mul_le_mul_right _ (by omega)

theorem ahead_advance {sizes : List Nat} {cursor next : Cursor}
    (h : advance sizes cursor = (true, next)) : ahead sizes next < ahead sizes cursor := by
  fun_induction advance sizes cursor generalizing next with
  | case1 n sizes i cursor rest hrest ih =>
    cases h
    exact Nat.add_lt_add_left (ih hrest) _
  | case2 n sizes i cursor rest hrest hi ih =>
    cases h
    -- what starts again behind the position is less than what one step at the position is worth
    calc (n - 1 - (i + 1)) * room sizes + ahead sizes rest
      _ < (n - 1 - (i + 1)) * room sizes + room sizes :=
        Nat.add_lt_add_left (ahead_lt_room sizes rest) _
      _ = (n - 1 - i) * room sizes := by
        rw [← Nat.succ_mul, show (n - 1 - (i + 1)).succ = n - 1 - i by omega]
      _ ≤ (n - 1 - i) * room sizes + ahead sizes cursor := Nat.le_add_right _ _
  | case3 => cases h
  | case4 => cases h

/-- How many combinations there are from one on. -/
def left (sizes : List Nat) : Option Cursor → Nat
  | none => 0
  | some cursor => ahead sizes cursor + 1

theorem left_next? (sizes : List Nat) (cursor : Cursor) :
    left sizes (next? sizes cursor) < left sizes (some cursor) := by
  unfold next?
  split
  · rename_i hnext
    exact Nat.succ_lt_succ (ahead_advance hnext)
  · exact Nat.succ_pos _

end Cursor

/-- Streams for a combination and for all those behind it, in order. -/
@[specialize] def Stream.combinations {σ ε α : Type} (sizes : List Nat)
    (body : Cursor → Stream σ ε α) : Option Cursor → Stream σ ε α
  | none, s => .done s
  | some cursor, s =>
    match body cursor s with
    | .done s => combinations sizes body (Cursor.next? sizes cursor) s
    | .fail e s => .fail e s
    | .yield a s next =>
      .yield a s fun s => (next s).andThen (combinations sizes body (Cursor.next? sizes cursor))
termination_by cursor => Cursor.left sizes cursor
decreasing_by all_goals exact Cursor.left_next? sizes cursor

abbrev LoopRange : Type := List (String × Domain)

namespace LoopRange

def sizes (vars : LoopRange) : List Nat := vars.map (·.2.size)

def valuesAt (vars : LoopRange) (cursor : Cursor) : List (String × Value) :=
  List.zipWith (fun (name, domain) index => (name, domain.get index)) vars cursor

end LoopRange

end SolidScript
