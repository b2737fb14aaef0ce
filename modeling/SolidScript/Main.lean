import SolidScript.CommandLine.Run

/-!
# The program

Runs the command line on the files of the disk.
-/

namespace SolidScript

/-- What a failed action on a file is reported as. Codes may come with either sign. -/
def FileError.ofIO : IO.Error → FileError
  | .noFileOrDirectory .. | .noSuchThing .. => .notFound
  | .inappropriateType _ code _ => if code = 21 ∨ 0 - code = 21 then .isDirectory else .notDirectory
  | .invalidArgument _ 36 _ => .nameTooLong
  | .permissionDenied .. => .other "Permission denied (os error 13)"
  | e => .other (toString e)

def FileError.catching (action : IO α) : IO (Except FileError α) := do
  try return .ok (← action) catch e => return .error (.ofIO e)

partial def diskFilesBelow (directory : Path) : IO (List Path) := do
  let entries ← (← IO.FS.realPath directory.text).readDir
  let found ← entries.toList.mapM fun entry => do
    let path := directory.join entry.fileName
    if ← entry.path.isDir then diskFilesBelow path else pure [path]
  return found.flatten

def FileAccess.disk : FileAccess IO where
  read p := FileError.catching (IO.FS.readBinFile p.text)
  write p content := FileError.catching (IO.FS.writeBinFile p.text content)
  isPresent p := do
    match ← FileError.catching (IO.FS.Handle.mk p.text .read) with
    | .error .notFound | .error .notDirectory | .error .nameTooLong => return false
    | _ => return true
  filesBelow p := do
    if p.text = "" then return []
    try diskFilesBelow p catch _ => return []

end SolidScript

open SolidScript in
def main (args : List String) : IO UInt32 := do
  let names := ["SDFSCAD_MESH_RESOLUTION", "SDFSCAD_FONT_DIR", "SDFSCAD_MAX_RECURSION"]
  let values ← names.filterMapM fun name => do return (← IO.getEnv name).map (name, ·)
  let outcome ← CommandLine.run ⟨.disk, (List.lookup · values), IO.monoNanosNow⟩ args
  IO.print outcome.out
  IO.eprint outcome.err
  return outcome.code.toUInt32
