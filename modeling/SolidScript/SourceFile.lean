import SolidScript.Files.Basic
import SolidScript.Mesh.Digest
import SolidScript.Rendering

/-!
# Source files and mesh files

Programs that are read from files, and meshes that are written to them.
-/

namespace SolidScript

inductive SourceFileError where
  | reading (p : Path) (e : FileError)
  | parsing (p : Path) (e : SyntaxError)
  | rendering (e : RenderError)
  | creating (p : Path) (e : FileError)

def SourceFileError.message : SourceFileError → String
  | reading p e => "Failed to read SCAD file: " ++ p.text ++ ": " ++ e.message
  | parsing p e => "Failed to parse SCAD file: " ++ p.text ++ ": " ++ e.message
  | rendering e => e.message
  | creating p e => "Failed to create STL file: " ++ p.text ++ ": " ++ e.message

namespace SourceFile

variable {m : Type → Type} [Monad m] (files : FileAccess m)

def read (p : Path) : m (Except SourceFileError String) := do
  return (← files.readText p).mapError (.reading p)

def tree (p : Path) : m (Except SourceFileError Tree) := do
  return (← read files p).bind fun source => (Grammar.parse source).mapError (.parsing p)

/-- Everything an evaluation needs, with the fonts that the settings point to. -/
def environment (settings : Settings) : m Environment := do
  let directory := settings.fonts.directory
  return ⟨.standard, settings, directory, ← files.filesBelow ⟨directory⟩⟩

def mesh (settings : Settings) (p : Path) : m (Except SourceFileError (Mesh Float)) := do
  match ← read files p with
  | .error e => return .error e
  | .ok source => return ((← environment files settings).mesh source).mapError .rendering

end SourceFile

def Mesh.save {m : Type → Type} [Monad m] (files : FileAccess m) (p : Path) (mesh : Mesh Float) :
    m (Except SourceFileError Unit) := do
  return (← files.write p mesh.stl).mapError (.creating p)

end SolidScript
