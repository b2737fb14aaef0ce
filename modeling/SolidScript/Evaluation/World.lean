import SolidScript.Builtin.Operator
import SolidScript.Run
import SolidScript.Scope.Frame

/-!
# The state of an evaluation

Scopes, the diagnostics that have not been handed over yet, and what is in progress. Blocks and
calls nest, so what is in progress is a stack: every block on it owns a live frame. How many calls
are in progress is counted besides.

The state also remembers every use that was made of a frame. This is a predicate and not a list: it
is there to be reasoned about, and nothing of it is left when the program runs. A frame is looked up
from by `Eval.lookUp`, bound in by `World.write`, enclosed by `World.openInside` and run in by
`Statement.buildAll`, and by nothing else.
-/

namespace SolidScript

inductive Activation where
  | block (frame : FrameId)
  | call (name : String)
deriving DecidableEq, Repr

inductive Use where
  | lookUp
  | write (c : Change)
  /-- A fresh frame is put inside. -/
  | enclose
  | run (s : Statement)

/-- A use of a frame, with the scopes as they were at that moment. -/
structure Visit where
  scopes : Scopes
  frame : FrameId
  use : Use

structure World where
  scopes : Scopes := {}
  log : Log := {}
  stack : List Activation := []
  depth : Nat := 0
  visits : Visit → Prop := fun _ => False

namespace World

def visit (w : World) (frame : FrameId) (use : Use) : World :=
  { w with visits := fun v => v = ⟨w.scopes, frame, use⟩ ∨ w.visits v }

def write (w : World) (frame : FrameId) (c : Change) : World :=
  { w.visit frame (.write c) with scopes := w.scopes.write frame c }

def openBlock (w : World) (parent : Option FrameId) : FrameId × World :=
  let (id, scopes) := w.scopes.enter parent
  (id, { w with scopes, stack := .block id :: w.stack })

/-- Begin a block in a fresh frame inside another one. -/
def openInside (w : World) (parent : FrameId) : FrameId × World :=
  (w.visit parent .enclose).openBlock (some parent)

/-- End the innermost block, whose frame goes with it. -/
def closeBlock (w : World) (id : FrameId) : World :=
  { w with scopes := Arena.release w.scopes id, stack := w.stack.tail }

def openCall (w : World) (name : String) : World :=
  { w with stack := .call name :: w.stack, depth := w.depth + 1 }

def closeCall (w : World) : World := { w with stack := w.stack.tail, depth := w.depth - 1 }

def withLog (w : World) (log : Log) : World := { w with log }

def emit (w : World) (level : Level) (message : String) : World :=
  { w with log := w.log.emit level message }

def warn (w : World) (detail : String) (pos : Position) : World :=
  w.emit .warning (detail ++ " at " ++ pos.text)

end World

structure Environment where
  registry : Registry
  host : Host

/-- A computation on the state that yields nothing and may fail. -/
abbrev Eval : Type → Type := EStateM RuntimeError World

abbrev Building : Type := Stream World RuntimeError (Geometry Float)

namespace Eval

def warn (detail : String) (pos : Position) : Eval Unit := modify (·.warn detail pos)

def lookUp {α : Type} (frame : FrameId) (find? : Scopes → FrameId → Option α) :
    Eval (Option α) := fun w =>
  .ok (find? w.scopes frame) (w.visit frame .lookUp)

def write (frame : FrameId) (c : Change) : Eval Unit := modify (·.write frame c)

def reporting {α : Type} (x : Reporting α) : Eval α := fun w =>
  let (a, log) := x w.log
  .ok a { w with log }

def checking {α : Type} (x : Check α) : Eval α := fun w =>
  match x.run w.log with
  | (.ok a, log) => .ok a { w with log }
  | (.error e, log) => .error e { w with log }

/-- Errors without a place get this one. -/
def orAt {α : Type} (x : Eval α) (pos : Position) : Eval α := fun w =>
  match x w with
  | .ok a w => .ok a w
  | .error e w => .error (e.orAt pos) w

/-- A computation inside a call, which is over afterwards however it ends. -/
def inCall {α : Type} (name : String) (x : Eval α) : Eval α := fun w =>
  match x (w.openCall name) with
  | .ok a w => .ok a w.closeCall
  | .error e w => .error e w.closeCall

/-- A computation inside a fresh frame, which is gone afterwards however it ends. -/
def inBlock {α : Type} (parent : FrameId) (x : FrameId → Eval α) : Eval α := fun w =>
  let (id, w) := w.openInside parent
  match x id w with
  | .ok a w => .ok a (w.closeBlock id)
  | .error e w => .error e (w.closeBlock id)

def collect (x : Building) : Eval (List (Geometry Float)) := fun w =>
  match x.drain w with
  | (.ok gs, w) => .ok gs w
  | (.error e, w) => .error e w

/-- Compute first, and then build with the result. -/
def build {α : Type} (x : Eval α) (f : α → Building) : Building := fun w =>
  match x w with
  | .ok a w => f a w
  | .error e w => .fail e w

end Eval

end SolidScript
