import SolidScript.Path
import SolidScript.Text.Lowercase

/-!
# Fonts

The font file of a family, chosen among the files of a directory. Names are compared without case,
spaces, dashes and underscores. A file of exactly the wanted name is preferred, then its regular
face, then any face of the family; among equals the first path.
-/

namespace SolidScript

namespace Fonts

/-- A name as it is compared. -/
def normalize (name : String) : String :=
  String.ofList ((name.toList.filter fun c => !(c = ' ' || c = '-' || c = '_')).flatMap
    Text.lowercase)

/-- The stem and the extension of a file name. A dot at the very front does not begin an
extension. -/
def splitName (name : String) : String × Option String :=
  let reversed := name.toList.reverse
  let extension := reversed.takeWhile (· ≠ '.')
  match reversed.dropWhile (· ≠ '.') with
  | _ :: stem@(_ :: _) => (String.ofList stem.reverse, some (String.ofList extension.reverse))
  | _ => (name, none)

/-- Whether an extension is that of a font file; only ASCII letters have case here. -/
def isFontExtension (extension : String) : Bool :=
  let e := extension.map Char.toLower
  e == "ttf" || e == "otf"

/-- How well a file name fits a normalized family name; less is better. -/
def rank? (wanted name : String) : Option Nat :=
  match splitName name with
  | (_, none) => none
  | (stem, some extension) =>
    let stem := normalize stem
    if !isFontExtension extension then none
    else if stem = wanted then some 0
    else if stem = wanted ++ "regular" then some 1
    else if stem.startsWith wanted then some 2
    else none

def better (a b : Nat × Path) : Nat × Path :=
  match (compare a.1 b.1).then (Path.compare a.2 b.2) with
  | .gt => b
  | _ => a

end Fonts

/-- A directory of fonts: the path it was given by, and the files below it; none if it is not a
directory. -/
structure Fonts where
  directory : String
  files : List Path

namespace Fonts

def resolve (fonts : Fonts) (family : String) : Except String Path :=
  let wanted := normalize family
  let candidates := fonts.files.filterMap fun file =>
    match file.steps.getLast? with
    | some (.name name) => (rank? wanted name).map (·, file)
    | _ => none
  match candidates with
  | [] => .error ("no font file for family `" ++ family ++ "` in " ++ fonts.directory)
  | first :: rest => .ok (rest.foldl better first).2

end Fonts

end SolidScript
