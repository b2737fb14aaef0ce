import SolidScript.Noted

/-!
# Diagnostics

What an evaluation reports beside its geometry: echoed lines and warnings, in the order in which
they arise.
-/

namespace SolidScript

inductive Level where
  | debug
  | info
  | warning
  | error
deriving DecidableEq, Repr

def Level.rank : Level → Nat
  | debug => 0
  | info => 1
  | warning => 2
  | error => 3

instance : LT Level := ⟨fun a b => a.rank < b.rank⟩

instance (a b : Level) : Decidable (a < b) := inferInstanceAs (Decidable (a.rank < b.rank))

def Level.text : Level → String
  | debug => "DEBUG"
  | info => "INFO"
  | warning => "WARNING"
  | error => "ERROR"

structure Entry where
  level : Level
  message : String
deriving DecidableEq, Repr

/-- The lines reported so far, oldest first. -/
structure Log where
  entries : Array Entry := #[]
deriving Inhabited

namespace Log

def empty : Log := {}

def emit (log : Log) (level : Level) (message : String) : Log :=
  ⟨log.entries.push ⟨level, message⟩⟩

def append (a b : Log) : Log := ⟨a.entries ++ b.entries⟩

instance : Append Log := ⟨append⟩

def messages (log : Log) : List String := log.entries.toList.map (·.message)

def echoMark : String := "ECHO: "

def echoes (log : Log) : List String := log.messages.filter (·.startsWith echoMark)

def count (log : Log) (level : Level) : Nat :=
  (log.entries.toList.filter (·.level = level)).length

end Log

abbrev Reporting : Type → Type := Noted Entry

/-- To report to a log is to write behind what it holds. -/
instance {α : Type} : CoeFun (Noted Entry α) fun _ => Log → α × Log :=
  ⟨fun x log => (x.value, log ++ ⟨x.notes⟩)⟩

end SolidScript
