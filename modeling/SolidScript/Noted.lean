/-!
# Results with notes

A result together with what was noted on the way to it. Notes are only ever added: whatever comes
later cannot take one back or look at it.
-/

namespace SolidScript

/-- A result, and what was noted on the way to it, oldest first. -/
structure Noted (ω α : Type) where
  value : α
  notes : Array ω := #[]

namespace Noted

variable {ω α : Type}

instance : Monad (Noted ω) where
  pure a := { value := a }
  bind x f :=
    let y := f x.value
    ⟨y.value, x.notes ++ y.notes⟩

def note (n : ω) : Noted ω Unit := ⟨(), #[n]⟩

def noteAll (notes : List ω) : Noted ω Unit := ⟨(), notes.toArray⟩

end Noted

end SolidScript
