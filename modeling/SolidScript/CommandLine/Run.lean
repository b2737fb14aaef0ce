import SolidScript.CommandLine.Invocation
import SolidScript.Program.Json
import SolidScript.Settings.File
import SolidScript.SourceFile

/-!
# Commands

What each command does with the files, and what it prints.
-/

namespace SolidScript.CommandLine

structure Surroundings (m : Type → Type) where
  files : FileAccess m
  lookup : String → Option String
  /-- Nanoseconds since some moment. -/
  clock : m Nat

/-- What a run leaves behind: its exit code and what it printed. -/
structure Outcome where
  code : Nat := 0
  out : String := ""
  err : String := ""

inductive Failure where
  | settings (e : SettingsError)
  | source (e : SourceFileError)
  | writing (p : Path) (e : FileError)

def Failure.message : Failure → String
  | settings e => e.message
  | source e => e.message
  | writing p e => "Failed to write " ++ p.text ++ ": " ++ e.message

def lines (ls : List String) : String := String.join (ls.map (· ++ "\n"))

def usage : String :=
  lines [
    "Usage: sdfscad [-v] [-c FILE] COMMAND",
    "",
    "Commands:",
    "  render INPUT -o OUTPUT [-r RESOLUTION]  Render a SCAD file to an STL mesh",
    "  ir INPUT [-o OUTPUT]                    Compile a SCAD file and print its IR as JSON",
    "  check INPUT                             Compile and evaluate a SCAD file, reporting diagnostics",
    "  version                                 Show version information"]

/-- A time span with two places, in the largest unit that it fills. -/
def spanText (nanoseconds : Nat) : String :=
  let inUnit (size : Nat) (unit : String) : String :=
    let hundredths := (nanoseconds * 100 + size / 2) / size
    let places := toString (hundredths % 100)
    toString (hundredths / 100) ++ "." ++
      (if places.length < 2 then "0" ++ places else places) ++ unit
  if nanoseconds ≥ 1000000000 then inUnit 1000000000 "s"
  else if nanoseconds ≥ 1000000 then inUnit 1000000 "ms"
  else if nanoseconds ≥ 1000 then inUnit 1000 "µs"
  else inUnit 1 "ns"

def entryLine (e : Entry) : String :=
  match e.level with
  | .warning => "WARNING: " ++ e.message
  | .error => "ERROR: " ++ e.message
  | _ => e.message

def countLine (gs : List (Geometry Float)) : String :=
  let flat := (gs.filter (·.dimension = .flat)).length
  "OK " ++ toString gs.length ++ " top-level geometries (" ++ toString (gs.length - flat) ++
    " 3-D, " ++
    toString flat ++ " 2-D)"

/-- A run that failed after it had printed something. -/
def failed (out : String) (e : Failure) : Outcome := ⟨1, out, "Error: " ++ e.message ++ "\n"⟩

variable {m : Type → Type} [Monad m] (around : Surroundings m)

def render (settings : Settings) (verbose : Bool) (input output : Path) : m Outcome := do
  let start ← around.clock
  match ← SourceFile.mesh around.files settings input with
  | .error e => return failed "" (.source e)
  | .ok mesh =>
    let stop ← around.clock
    let details :=
      if verbose then
        lines [
          "Rendered in " ++ spanText (stop - start), "Vertices: " ++ toString mesh.vertices.size,
          "Triangles: " ++ toString mesh.triangles.size, "Hash: " ++ mesh.digest]
      else ""
    match ← mesh.save around.files output with
    | .error e => return failed details (.source e)
    | .ok () =>
      return { out := details ++ lines ["Rendered " ++ input.text ++ " -> " ++ output.text] }

def ir (settings : Settings) (input : Path) (output? : Option Path) : m Outcome := do
  match ← SourceFile.read around.files input with
  | .error e => return failed "" (.source e)
  | .ok source =>
    match (← SourceFile.environment around.files settings).compile source with
    | .error e => return failed "" (.source (.rendering e))
    | .ok program =>
      let text := program.json.pretty
      match output? with
      | none => return { out := lines [text] }
      | some p =>
        match ← around.files.writeText p text with
        | .error e => return failed "" (.writing p e)
        | .ok () => return {}

def check (settings : Settings) (input : Path) : m Outcome := do
  match ← SourceFile.read around.files input with
  | .error e => return failed "" (.source e)
  | .ok source =>
    let (result, log) := (← SourceFile.environment around.files settings).evaluate source
    let reported := lines (log.entries.toList.map entryLine)
    match result with
    | .error e => return failed reported (.source (.rendering e))
    | .ok gs => return { out := reported ++ lines [countLine gs] }

def withSettings (config? : Option Path) (go : Settings → m Outcome) : m Outcome := do
  match ← Settings.load around.files around.lookup config? with
  | .error e => return failed "" (.settings e)
  | .ok settings => go settings

def Invocation.run (i : Invocation) : m Outcome :=
  match i.command with
  | .version => return { out := lines ["sdfscad v0.1.0"] }
  | .render input output resolution? =>
    withSettings around i.config? fun s =>
      let s := { s with mesh := { s.mesh with resolution := resolution?.getD s.mesh.resolution } }
      render around s i.verbose input output
  | .ir input output? => withSettings around i.config? fun s => ir around s input output?
  | .check input => withSettings around i.config? fun s => check around s input

def run (args : List String) : m Outcome :=
  match Invocation.ofArguments args with
  | .ok i => i.run around
  | .error .help => return { out := usage }
  | .error .misuse => return { code := 2, err := usage }

end SolidScript.CommandLine
