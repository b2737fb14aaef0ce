import SolidScript.Evaluation.Statement

/-!
# Evaluations

An evaluation is a program on its way: its state, and the geometry that it has yet to yield. Nothing
of the program is run before the first pull, and between pulls it waits.
-/

namespace SolidScript

structure Evaluation where
  world : World
  rest : Building

namespace Evaluation

def start (env : Environment) (program : Program) : Evaluation :=
  let limit := env.host.settings.maxDepth
  let call := callFunction env limit
  let enter := enterModule env limit
  let (root, world) := World.openBlock {} none
  { world
    rest := fun w =>
      (Statement.buildAll env call enter (askChildren env call enter []) [] root program w).atEnd
        (·.closeBlock root) }

/-- Go on to the next geometry. What was reported on the way is handed over. -/
def pull (e : Evaluation) : Stream.Pulled RuntimeError (Geometry Float) × Log × Evaluation :=
  let (pulled, world, rest) := e.rest.pull e.world
  (pulled, world.log, ⟨world.withLog {}, rest⟩)

def after (e : Evaluation) : Nat → Evaluation
  | 0 => e
  | k + 1 => (e.after k).pull.2.2

/-- What pull number `k` finds, and what is reported on the way to it. -/
def answer (e : Evaluation) (k : Nat) : Stream.Pulled RuntimeError (Geometry Float) × Log :=
  let (found, log, _) := (e.after k).pull
  (found, log)

/-- Run to the end: all geometry or the error, and all that was reported. -/
def finish (e : Evaluation) : Except RuntimeError (List (Geometry Float)) × Log :=
  let (result, world) := e.rest.drain e.world
  (result, world.log)

end Evaluation

end SolidScript
