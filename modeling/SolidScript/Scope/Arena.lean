/-!
# Arenas

Storage for frames that come and go. A vacant slot is used again under a new generation, so an id
never leads to a frame other than the one it was given out for.
-/

namespace SolidScript

/-- Where a frame is stored, and in which generation of that slot. The index stands for one of 32
bits, which it is as long as no more than `2 ^ 32` slots are in use at once. -/
structure FrameId where
  index : Nat
  generation : UInt32
deriving DecidableEq, Repr

/-- A place for a frame, with the generation of the last one put there. -/
structure Slot (F : Type) where
  generation : UInt32
  frame : Option F

/-- Slots, the vacant ones in the order in which they are used again, and the number of the
others. -/
structure Arena (F : Type) where
  slots : Array (Slot F) := #[]
  free : List Nat := []
  live : Nat := 0

namespace Arena

variable {F : Type}

/-- Put a frame into the slot that was vacated last, or into a new one. -/
def push (a : Arena F) (frame : F) : FrameId × Arena F :=
  match a.free with
  | index :: free =>
    let generation := ((a.slots[index]?).map (·.generation + 1)).getD 0
    (⟨index, generation⟩, ⟨a.slots.setIfInBounds index ⟨generation, some frame⟩, free, a.live + 1⟩)
  | [] => (⟨a.slots.size, 0⟩, ⟨a.slots.push ⟨0, some frame⟩, [], a.live + 1⟩)

/-- The frame that an id was given out for, while it is alive. -/
def get? (a : Arena F) (id : FrameId) : Option F :=
  match a.slots[id.index]? with
  | some slot => if slot.generation = id.generation then slot.frame else none
  | none => none

/-- Change the frame of an id; nothing happens if it is gone. -/
def modify (a : Arena F) (id : FrameId) (f : F → F) : Arena F :=
  match a.get? id with
  | some frame => { a with slots := a.slots.setIfInBounds id.index ⟨id.generation, some (f frame)⟩ }
  | none => a

/-- Remove the frame of an id; nothing happens if it is gone. -/
def release (a : Arena F) (id : FrameId) : Arena F :=
  match a.get? id with
  | some _ => ⟨a.slots.setIfInBounds id.index ⟨id.generation, none⟩, id.index :: a.free, a.live - 1⟩
  | none => a

/-- Walk outward for at most `fuel` frames. -/
def findWithin (a : Arena F) (parent : F → Option FrameId) {α : Type} (pick : F → Option α) :
    Nat → FrameId → Option α
  | 0, _ => none
  | fuel + 1, id =>
    match a.get? id with
    | none => none
    | some frame =>
      match pick frame with
      | some found => some found
      | none =>
        match parent frame with
        | some outer => a.findWithin parent pick fuel outer
        | none => none

/-- What is picked from the innermost frame that has it, from `id` outward. A walk visits no slot
twice. -/
def find? (a : Arena F) (parent : F → Option FrameId) {α : Type} (pick : F → Option α)
    (id : FrameId) : Option α :=
  a.findWithin parent pick a.slots.size id

end Arena

end SolidScript
