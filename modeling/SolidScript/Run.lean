/-!
# Runs that yield

A run passes a state along, yields items on the way, and ends or fails. A stream is a run that has
not begun: nothing happens before it is resumed with a state, and at every item it waits to be
resumed again.

* `Stream.andThen`: one stream after the other
* `Run.atEnd`: what is done to the state once a run is over, however it ends
* `Run.drain`: all items of a run at once
* `Stream.pull`: the next item, with the rest as a stream
-/

namespace SolidScript

inductive Run (σ ε α : Type) where
  | done (s : σ)
  | fail (e : ε) (s : σ)
  | yield (a : α) (s : σ) (next : σ → Run σ ε α)

abbrev Stream (σ ε α : Type) : Type := σ → Run σ ε α

namespace Run

variable {σ ε α : Type}

def andThen : Run σ ε α → Stream σ ε α → Run σ ε α
  | done s, rest => rest s
  | fail e s, _ => fail e s
  | yield a s next, rest => yield a s fun s => (next s).andThen rest

def atEnd (f : σ → σ) : Run σ ε α → Run σ ε α
  | done s => done (f s)
  | fail e s => fail e (f s)
  | yield a s next => yield a s fun s => (next s).atEnd f

def mapError (f : ε → ε) : Run σ ε α → Run σ ε α
  | done s => done s
  | fail e s => fail (f e) s
  | yield a s next => yield a s fun s => (next s).mapError f

/-- Run to the end, collecting items behind those in `acc`. -/
def collect (acc : Array α) : Run σ ε α → Except ε (List α) × σ
  | done s => (.ok acc.toList, s)
  | fail e s => (.error e, s)
  | yield a s next => (next s).collect (acc.push a)

def drain (r : Run σ ε α) : Except ε (List α) × σ := r.collect #[]

end Run

namespace Stream

variable {σ ε α : Type}

def empty : Stream σ ε α := .done

def once (a : α) : Stream σ ε α := fun s => .yield a s .done

/-- The items of a list up to the first failure. -/
def ofList : List (Except ε α) → Stream σ ε α
  | [], s => .done s
  | .ok a :: rest, s => .yield a s (ofList rest)
  | .error e :: _, s => .fail e s

def ofItems (items : List α) : Stream σ ε α := ofList (items.map .ok)

/-- The stream that a start gives when it is first resumed. -/
def deferred (start : σ → Except ε (Stream σ ε α) × σ) : Stream σ ε α := fun s =>
  match start s with
  | (.ok stream, s) => stream s
  | (.error e, s) => .fail e s

def mapError (f : ε → ε) (x : Stream σ ε α) : Stream σ ε α := fun s => (x s).mapError f

inductive Pulled (ε α : Type) where
  | item (a : α)
  | failed (e : ε)
  | finished

/-- Resume a stream up to its next item. A stream that ended or failed is empty from then on. -/
def pull (x : Stream σ ε α) (s : σ) : Pulled ε α × σ × Stream σ ε α :=
  match x s with
  | .done s => (.finished, s, empty)
  | .fail e s => (.failed e, s, empty)
  | .yield a s next => (.item a, s, next)

def drain (x : Stream σ ε α) (s : σ) : Except ε (List α) × σ := (x s).drain

end Stream

end SolidScript
