import SolidScript.Decimal.Text
import SolidScript.Settings.Basic
import SolidScript.Toml.Reading

/-!
# Settings as TOML

A settings document holds a table for each group of settings. What it leaves out keeps its default,
and what it has beyond the settings is passed over.
-/

namespace SolidScript

open Toml

def Smoothing.ofToml? (v : Value) : Option Smoothing := do
  let fields ← v.fields? ["union", "intersection", "difference", "blend"]
  let d : Smoothing := {}
  return {
    union := ← fields.field "union" Value.number? d.union
    intersection := ← fields.field "intersection" Value.number? d.intersection
    difference := ← fields.field "difference" Value.number? d.difference
    blend := ← fields.field "blend" Value.number? d.blend }

def MeshSettings.maxResolution : Nat := Nat.pow 2 32 - 1

def MeshSettings.ofToml? (v : Value) : Option MeshSettings := do
  let fields ← v.fields? ["resolution", "margin"]
  let d : MeshSettings := {}
  return {
    resolution := ← fields.field "resolution" (Value.count? maxResolution) d.resolution
    margin := ← fields.field "margin" Value.number? d.margin }

def FontSettings.ofToml? (v : Value) : Option FontSettings := do
  let fields ← v.fields? ["cache_dir", "default_family"]
  let d : FontSettings := {}
  return {
    directory := ← fields.field "cache_dir" Value.text? d.directory
    family := ← fields.field "default_family" Value.text? d.family }

namespace Settings

def depthBound : Nat := Nat.pow 2 64 - 1

/-- The greatest depth of calls that a document can hold. -/
def writableDepth : Nat := Nat.pow 2 63 - 1

def ofToml? (s : String) : Option Settings := do
  let fields ← Toml.read? s
  let d : Settings := {}
  return {
    smoothing := ← fields.field "smoothing" Smoothing.ofToml? d.smoothing
    mesh := ← fields.field "mesh" MeshSettings.ofToml? d.mesh
    fonts := ← fields.field "fonts" FontSettings.ofToml? d.fonts
    maxDepth := ← fields.field "max_recursion_depth" (Value.count? depthBound) d.maxDepth }

/-- The document of some settings. Signs of not-a-number are left out. -/
def toToml (s : Settings) : String :=
  let number (x : Float) : String := if x.isNaN then "nan" else Decimal.withPoint x
  let group (name : String) (fields : List (String × String)) : List String :=
    ["", "[" ++ name ++ "]"] ++ fields.map fun (key, value) => key ++ " = " ++ value
  let lines :=
    ["max_recursion_depth = " ++ toString s.maxDepth] ++
    group "smoothing" [
      ("union", number s.smoothing.union), ("intersection", number s.smoothing.intersection),
      ("difference", number s.smoothing.difference), ("blend", number s.smoothing.blend)] ++
    group "mesh" [("resolution", toString s.mesh.resolution), ("margin", number s.mesh.margin)] ++
    group "fonts" [
      ("cache_dir", Toml.writeText s.fonts.directory),
      ("default_family", Toml.writeText s.fonts.family)]
  String.join (lines.map (· ++ "\n"))

end Settings

end SolidScript
