import SolidScript.Evaluation.Basic

/-!
# Sessions

Several programs on their way at once, in one environment. Each of them has scopes of its own and is
pulled when it is asked for, and all of them report to the same sink.
-/

namespace SolidScript

structure Session where
  /-- What has been reported so far, by whichever program. -/
  sink : Log := {}
  streams : Array Evaluation

namespace Session

def start (env : Environment) (programs : List Program) : Session :=
  { streams := (programs.map (Evaluation.start env)).toArray }

/-- Go on to the next geometry of a program. What is reported on the way stands behind what was
reported before, by this program or another. -/
def pull (s : Session) (j : Nat) : Option (Stream.Pulled RuntimeError (Geometry Float)) × Session :=
  match s.streams[j]? with
  | none => (none, s)
  | some e =>
    let (pulled, world, rest) := e.rest.pull (e.world.withLog s.sink)
    (some pulled, ⟨world.log, s.streams.setIfInBounds j ⟨world, rest⟩⟩)

inductive Step where
  | pull (j : Nat)
  | clear
deriving DecidableEq, Repr

def step (s : Session) : Step → Session
  | .pull j => (s.pull j).2
  | .clear => { s with sink := {} }

def after (s : Session) (steps : List Step) : Session := steps.foldl step s

end Session

end SolidScript
