import SolidScript.Evaluation.Basic
import SolidScript.Mesh.Extraction
import SolidScript.Program.OfTree

/-!
# From source text to geometry and meshes

The whole way: a text is parsed, its tree becomes a program, the program is evaluated, what it
yields is united, and the surface of the union becomes a mesh. Each step reports its failures under
its own heading.
-/

namespace SolidScript

inductive RenderError where
  | parsing (e : SyntaxError)
  | compiling (e : Stop)
  | evaluating (e : RuntimeError)
  | uniting (e : RuntimeError)
  | noGeometry
  | meshing (e : MeshError)

def RenderError.message : RenderError → String
  | parsing e => "Failed to parse source: " ++ e.message
  | compiling e => "Failed to compile source: " ++ e.message
  | evaluating e => "Evaluation failed: " ++ e.message
  | uniting e => "Failed to combine top-level geometry: " ++ e.message
  | noGeometry => "Program produced no geometry"
  | meshing e => "Meshing failed: " ++ e.message

namespace Environment

def compile (env : Environment) (source : String) : Except RenderError Program := do
  let tree ← (Grammar.parse source).mapError .parsing
  (Program.ofTree (env.registry.functions.map (·.1)) tree).1.mapError .compiling

/-- All geometry that a source text yields, and what was reported on the way. -/
def evaluate (env : Environment) (source : String) :
    Except RenderError (List (Geometry Float)) × Log :=
  match env.compile source with
  | .error e => (.error e, {})
  | .ok program =>
    let (result, log) := (Evaluation.start env program).finish
    (result.mapError .evaluating, log)

/-- The place that the union of a whole program is reported at. -/
def root : CallSite := ⟨"<root>", .start⟩

def render (env : Environment) (source : String) :
    Except RenderError (Option (Geometry Float)) × Log :=
  let (result, log) := env.evaluate source
  let unite (gs : List (Geometry Float)) : Except RenderError (Option (Geometry Float)) :=
    (Geometry.reduce root (Geometry.union · · env.host.settings.smoothing.union) gs).mapError
      .uniting
  (result.bind unite, log)

def mesh (env : Environment) (source : String) : Except RenderError (Mesh Float) := do
  match ← (env.render source).1 with
  | none => throw .noGeometry
  | some g =>
    let settings := env.host.settings.mesh
    (g.mesh settings.resolution settings.margin).mapError .meshing

end Environment

end SolidScript
