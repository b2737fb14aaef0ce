import SolidScript.Arguments
import SolidScript.Run

/-!
# Children of an operator

What the body of an invocation yields, handed to its operator. It can be taken once; asking for it
again is an error at the place of the invocation.
-/

namespace SolidScript

structure Supply (σ α : Type) where
  site : CallSite
  source : Option (Stream σ RuntimeError α)

namespace Supply

variable {σ α : Type}

def ofStream (site : CallSite) (source : Stream σ RuntimeError α) : Supply σ α :=
  ⟨site, some source⟩

/-- The stream, which nothing has run of yet, and what is left to be taken: nothing. -/
def take (x : Supply σ α) : Except RuntimeError (Stream σ RuntimeError α) × Supply σ α :=
  match x.source with
  | some source => (.ok source, { x with source := none })
  | none => (.error x.site.reused, x)

/-- The stream, which fails if it has been taken already. -/
def stream (x : Supply σ α) : Stream σ RuntimeError α :=
  match x.take.1 with
  | .ok source => source
  | .error e => .fail e

def collect (x : Supply σ α) (s : σ) : Except RuntimeError (List α) × σ := x.stream.drain s

end Supply

end SolidScript
