import SolidScript.Geometry.Shape
import SolidScript.Program.Basic
import SolidScript.Scope.Arena
import SolidScript.Value.Basic

/-!
# Scopes

The names that a block binds. A frame refers to the one around it, and a name is looked up from a
frame outward. A definition is kept together with the frame it was made in.
-/

namespace SolidScript

structure ModuleClosure where
  definition : ModuleDef
  frame : FrameId

structure FunctionClosure where
  definition : FunctionDef
  frame : FrameId

/-- How far the body of a module's invocation has been run. -/
inductive Offspring where
  | pending
  /-- It is running, or has failed. -/
  | forcing
  /-- It has yielded these. -/
  | ready (geometries : List (Geometry Float))

/-- The names of one block; a module's block also holds what its invocation's body yields. -/
structure Frame where
  parent : Option FrameId
  values : List (String × Value) := []
  modules : List (String × ModuleClosure) := []
  functions : List (String × FunctionClosure) := []
  children : Option Offspring := none

/-- Bind a name, in place of an earlier binding. -/
def bindName {α : Type} (name : String) (value : α) : List (String × α) → List (String × α)
  | [] => [(name, value)]
  | (other, v) :: rest =>
    if other = name then (name, value) :: rest else (other, v) :: bindName name value rest

inductive Change where
  | values (vs : List (String × Value))
  | module (m : ModuleDef)
  | function (f : FunctionDef)
  | children (state : Offspring)

def Change.apply (id : FrameId) : Change → Frame → Frame
  | values vs, f =>
    { f with values := vs.foldl (fun bound (name, value) => bindName name value bound) f.values }
  | module m, f => { f with modules := bindName m.name ⟨m, id⟩ f.modules }
  | function g, f => { f with functions := bindName g.name ⟨g, id⟩ f.functions }
  | children state, f => { f with children := some state }

abbrev Scopes : Type := Arena Frame

namespace Scopes

def enter (s : Scopes) (parent : Option FrameId) : FrameId × Scopes := Arena.push s { parent }

/-- Bind something in the given frame, never in one around it. -/
def write (s : Scopes) (id : FrameId) (c : Change) : Scopes := Arena.modify s id (c.apply id)

def value? (s : Scopes) (id : FrameId) (name : String) : Option Value :=
  Arena.find? s Frame.parent (·.values.lookup name) id

def module? (s : Scopes) (id : FrameId) (name : String) : Option ModuleClosure :=
  Arena.find? s Frame.parent (·.modules.lookup name) id

def function? (s : Scopes) (id : FrameId) (name : String) : Option FunctionClosure :=
  Arena.find? s Frame.parent (·.functions.lookup name) id

/-- What the nearest module around yields from the body of its invocation. -/
def children? (s : Scopes) (id : FrameId) : Option Offspring :=
  Arena.find? s Frame.parent Frame.children id

end Scopes

end SolidScript
