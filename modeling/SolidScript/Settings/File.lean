import SolidScript.Files.Basic
import SolidScript.Settings.Toml
import SolidScript.Text.Quoted

/-!
# Settings files

Where settings come from: a file that is named, or the one in the working directory if there is one,
and then variables of the environment, which win.
-/

namespace SolidScript

inductive SettingsError where
  | reading (p : Path) (e : FileError)
  | parsing (p : Path)
  | writing (p : Path) (e : FileError)
  /-- The depth of calls is beyond what a document can hold. -/
  | tooDeep

def SettingsError.message : SettingsError → String
  | reading p e => "Failed to read config file: " ++ Text.quote p.text ++ ": " ++ e.message
  | parsing p => "Failed to parse config file: " ++ Text.quote p.text
  | writing p e => "Failed to write config file: " ++ Text.quote p.text ++ ": " ++ e.message
  | tooDeep => "Failed to serialize config: out-of-range value for u64 type"

namespace Settings

variable {m : Type → Type} [Monad m]

def defaultFile : Path := ⟨"sdfscad.toml"⟩

def ofFile (files : FileAccess m) (p : Path) : m (Except SettingsError Settings) := do
  match ← files.readText p with
  | .error e => return .error (.reading p e)
  | .ok text =>
    match ofToml? text with
    | some s => return .ok s
    | none => return .error (.parsing p)

/-- Settings with those that the environment gives in their place. A number that cannot be read is
passed over. -/
def override (s : Settings) (lookup : String → Option String) : Settings :=
  let resolution? :=
    (lookup "SDFSCAD_MESH_RESOLUTION").bind (Decimal.readCount? MeshSettings.maxResolution)
  let directory? := lookup "SDFSCAD_FONT_DIR"
  let depth? := (lookup "SDFSCAD_MAX_RECURSION").bind (Decimal.readCount? depthBound)
  { s with
    mesh := { s.mesh with resolution := resolution?.getD s.mesh.resolution }
    fonts := { s.fonts with directory := directory?.getD s.fonts.directory }
    maxDepth := depth?.getD s.maxDepth }

/-- The settings of a run: of the file if one is named, else of the default file if it is there,
then of the environment. -/
def load (files : FileAccess m) (lookup : String → Option String) (named? : Option Path) :
    m (Except SettingsError Settings) := do
  let base ←
    match named? with
    | some p => ofFile files p
    | none => do
      if ← files.isPresent defaultFile then ofFile files defaultFile else pure (.ok {})
  return base.map (·.override lookup)

def save (files : FileAccess m) (p : Path) (s : Settings) : m (Except SettingsError Unit) := do
  if s.maxDepth > writableDepth then return .error .tooDeep
  return (← files.writeText p s.toToml).mapError (.writing p)

end Settings

end SolidScript
