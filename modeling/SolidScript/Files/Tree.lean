import SolidScript.Files.Basic
import SolidScript.Files.Place

/-!
# Files kept in memory

A working directory with the files below it. Each is known by its place. Whatever leads to a file or
to a directory is a directory too, and so are all directories above the working directory, which
hold nothing but what is written there.
-/

namespace SolidScript

structure FileTree where
  files : List (Place × ByteArray) := []
  directories : List Place := []

namespace FileTree

inductive Node where
  | file (content : ByteArray)
  | directory

/-- Whether a place leads to some file or directory. -/
def isDirectory (t : FileTree) (place : Place) : Bool :=
  place.names.isEmpty || t.directories.any (fun inner => inner = place || inner.isBelow place) ||
    t.files.any fun (inner, _) => inner.isBelow place

def nameLimit : Nat := 255

def pathLimit : Nat := 4095

/-- What stands at a place in a directory that is there. -/
def look (t : FileTree) (place : Place) : Except FileError Node :=
  if place.names.getLast?.any (·.utf8ByteSize > nameLimit) then .error .nameTooLong
  else
    match t.files.lookup place with
    | some content => .ok (.file content)
    | none => if t.isDirectory place then .ok .directory else .error .notFound

/-- Where the parts of a path lead from a place. Each is taken from a directory that is there. -/
def walk (t : FileTree) (place : Place) : List String → Except FileError Place
  | [] => .ok place
  | part :: parts => do
    match ← t.look place with
    | .file _ => .error .notDirectory
    | .directory => t.walk (place.enter part) parts

def locate (t : FileTree) (p : Path) : Except FileError Place :=
  if p.text.contains '\x00' then .error .zeroInName
  else if p.text.utf8ByteSize > pathLimit then .error .nameTooLong
  else if p.text = "" then .error .notFound
  else t.walk (.start p) p.parts

/-- What a path leads to. Only a directory may be followed by a separator. -/
def node (t : FileTree) (p : Path) : Except FileError Node := do
  match ← t.look (← t.locate p) with
  | .directory => .ok .directory
  | .file content => if p.endsInSeparator then .error .notDirectory else .ok (.file content)

def read (t : FileTree) (p : Path) : Except FileError ByteArray := do
  match ← t.node p with
  | .directory => .error .isDirectory
  | .file content => .ok content

def put (t : FileTree) (place : Place) (content : ByteArray) : FileTree :=
  { t with files := (place, content) :: t.files.filter (·.1 != place) }

/-- Replace a file or create it. A path that ends in a separator asks for a directory, whatever
stands there. -/
def write (t : FileTree) (p : Path) (content : ByteArray) : Except FileError FileTree := do
  let place ← t.locate p
  if p.endsInSeparator then .error .isDirectory
  else
    match t.look place with
    | .ok .directory => .error .isDirectory
    | .ok (.file _) | .error .notFound => .ok (t.put place content)
    | .error e => .error e

def isPresent (t : FileTree) (p : Path) : Bool := (t.node p).isOk

def filesBelow (t : FileTree) (directory : Path) : List Path :=
  match t.locate directory with
  | .error _ => []
  | .ok place =>
    t.files.filterMap fun (inner, _) =>
      match place.namesTo? inner with
      | some (name :: names) => some ((name :: names).foldl Path.join directory)
      | _ => none

/-- A tree of files given by their paths; a path that ends in a separator gives a directory. -/
def ofList (entries : List (String × ByteArray)) : FileTree :=
  entries.foldl
    (fun t (path, content) =>
      let place := Place.ofPath ⟨path⟩
      if path.endsWith "/" then { t with directories := place :: t.directories }
        else t.put place content)
    {}

/-- Files of the working directory that one tree has and another has not, by their paths. -/
def added (before after : FileTree) : List (String × ByteArray) :=
  after.files.filterMap fun (place, content) =>
    match Place.namesTo? {} place, before.files.lookup place with
    | some names, none => some ("/".intercalate names, content)
    | _, _ => none

/-- Access to the tree that is the state. -/
def access : FileAccess (StateM FileTree) where
  read p := return (← get).read p
  write p content := do
    match (← get).write p content with
    | .ok t => set t; return .ok ()
    | .error e => return .error e
  isPresent p := return (← get).isPresent p
  filesBelow p := return (← get).filesBelow p

end FileTree

end SolidScript
