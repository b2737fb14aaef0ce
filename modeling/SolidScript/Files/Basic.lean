import SolidScript.Path

/-!
# Access to files

What the program asks of the files around it, as a record of actions in some monad. Everything above
is written against the record, so that it runs alike on a disk and on a tree kept in memory.
-/

namespace SolidScript

inductive FileError where
  | notFound
  | isDirectory
  | notDirectory
  | nameTooLong
  | zeroInName
  | notText
  | other (reason : String)
deriving DecidableEq, Repr

def FileError.message : FileError → String
  | notFound => "No such file or directory (os error 2)"
  | isDirectory => "Is a directory (os error 21)"
  | notDirectory => "Not a directory (os error 20)"
  | nameTooLong => "File name too long (os error 36)"
  | zeroInName => "file name contained an unexpected NUL byte"
  | notText => "stream did not contain valid UTF-8"
  | other reason => reason

structure FileAccess (m : Type → Type) where
  read : Path → m (Except FileError ByteArray)
  /-- Replace the content of a file, or create it in a directory that is there. -/
  write : Path → ByteArray → m (Except FileError Unit)
  isPresent : Path → m Bool
  /-- All files below a directory, each path starting with the directory's; none if it is not a
  directory. -/
  filesBelow : Path → m (List Path)

namespace FileAccess

def decode (bytes : ByteArray) : Except FileError String :=
  match String.fromUTF8? bytes with
  | some s => .ok s
  | none => .error .notText

def readText {m : Type → Type} [Monad m] (files : FileAccess m) (p : Path) :
    m (Except FileError String) := do
  return (← files.read p).bind decode

def writeText {m : Type → Type} (files : FileAccess m) (p : Path) (s : String) :
    m (Except FileError Unit) :=
  files.write p s.toUTF8

end FileAccess

end SolidScript
