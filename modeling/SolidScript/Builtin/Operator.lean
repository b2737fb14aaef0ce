import SolidScript.Builtin.Function
import SolidScript.Fonts
import SolidScript.Geometry.Shape
import SolidScript.Settings.Basic

/-!
# Built-in operators

An operator checks its arguments first, and then says what is to be done with the children.

* primitive bodies, which have no use for children
* combinations, which fold their children from the left
* changes, which unite their children and change the result
* `echo`, which reports its arguments and passes its children on
-/

namespace SolidScript

/-- What an operator makes of its children. -/
inductive Plan where
  /-- This geometry; the children are not built. -/
  | shape (g : Geometry Float)
  /-- The children joined from the left and the result changed; nothing without children. -/
  | fold (join : Geometry Float → Geometry Float → Geometry Float)
      (change : Geometry Float → Except RuntimeError (Geometry Float))
  | relay

structure Host where
  settings : Settings
  fonts : Fonts

/-- A check that may report and may fail; what was reported stays when it fails. -/
abbrev Check : Type → Type := ExceptT RuntimeError Reporting

/-- Join geometries of one dimension from the left. -/
def Geometry.reduce (site : CallSite) (join : Geometry Float → Geometry Float → Geometry Float) :
    List (Geometry Float) → Except RuntimeError (Option (Geometry Float))
  | [] => .ok none
  | first :: rest =>
    some <$> rest.foldlM
      (fun joined g => if g.dimension = joined.dimension then .ok (join joined g)
        else .error site.dimensionMismatch)
      first

namespace Builtin

abbrev Operator : Type := Host → CallSite → Arguments → Check Plan

def known (site : CallSite) (args : Arguments) (names : List String) : Check Unit :=
  site.checkKeywords args names

/-- A finite number given by name or at a position; none if it is absent or `undef`. -/
def number? (site : CallSite) (args : Arguments) (name : String) (index : Option Nat) :
    Check (Option Float) :=
  let given :=
    match index with
    | some index => args.get? name index
    | none => args.keyword? name
  match given with
  | none => pure none
  | some .undefined => pure none
  | some value =>
    let refused : Check (Option Float) :=
      throw (site.invalid ("`" ++ name ++ "` must be a finite number, got " ++ value.repr))
    match value with
    | .number x => if x.isFinite then pure (some x) else refused
    | _ => refused

def radius? (site : CallSite) (args : Arguments) (name diameter : String) (index : Option Nat) :
    Check (Option Float) := do
  let radius ←
    match ← number? site args name index with
    | some r => pure (some r)
    | none => pure ((← number? site args diameter none).map (· / 2.0))
  match radius with
  | some r =>
    if r < 0 then throw (site.invalid ("negative radius " ++ Decimal.display r)) else pure radius
  | none => pure radius

def flag (args : Arguments) (name : String) (index : Nat) : Bool :=
  ((args.get? name index).map Value.isTruthy).getD false

/-- Three coordinates, two of them with a third to fill up, or one number for all. -/
def vector? (site : CallSite) (args : Arguments) (name : String) (index : Nat) (fill : Float) :
    Check (Option (Vec3 Float)) :=
  match args.get? name index with
  | none => pure none
  | some .undefined => pure none
  | some (.number x) => pure (some (.splat x))
  | some value =>
    match value.numbers? with
    | some [x, y] => pure (some ⟨x, y, fill⟩)
    | some [x, y, z] => pure (some ⟨x, y, z⟩)
    | _ =>
      throw (site.invalid ("`" ++ name ++ "` must be a number or a 2- or 3-vector, got " ++
        value.repr))

/-! ## Primitive bodies -/

def sides (site : CallSite) (args : Arguments) (fill : Float) : Check (Vec3 Float) := do
  let size := (← vector? site args "size" 0 fill).getD (.splat 1.0)
  if size.toList.any (· < 0) then
    throw (site.invalid
      ("size must not be negative, got [" ++ ", ".intercalate (size.toList.map Decimal.display) ++
        "]"))
  return size

/-- A body around the origin, moved by `offset` unless it is to be centered. -/
def placed (g : Geometry Float) (center : Bool) (offset : Vec3 Float) : Plan :=
  .shape (if center then g else g.translate offset)

def sphere : Operator := fun _ site args => do
  known site args ["r", "d"]
  return .shape (.sphere ((← radius? site args "r" "d" (some 0)).getD 1.0))

def cube : Operator := fun _ site args => do
  known site args ["size", "center"]
  let size ← sides site args 1.0
  return placed (.box size) (flag args "center" 1) (size.shrink 2.0)

def cylinder : Operator := fun _ site args => do
  known site args ["h", "r", "d", "r1", "r2", "d1", "d2", "center"]
  let h := (← number? site args "h" (some 0)).getD 1.0
  if h < 0 then throw (site.invalid ("negative height " ++ Decimal.display h))
  let r ← radius? site args "r" "d" none
  let r1 := ((← radius? site args "r1" "d1" (some 1)).or r).getD 1.0
  let r2 := ((← radius? site args "r2" "d2" (some 2)).or r).getD 1.0
  return placed (.frustum r1 r2 h) (flag args "center" 3) ⟨0, 0, h / 2.0⟩

def circle : Operator := fun _ site args => do
  known site args ["r", "d"]
  return .shape (.circle ((← radius? site args "r" "d" (some 0)).getD 1.0))

def square : Operator := fun _ site args => do
  known site args ["size", "center"]
  let size ← sides site args 0.0
  return placed (.rectangle size.xy) (flag args "center" 1) ⟨size.x / 2.0, size.y / 2.0, 0⟩

/-- How far a character advances, as a share of the size. -/
def glyphAdvance : Float := 0.6

def text : Operator := fun host site args => do
  known site args ["text", "size", "font"]
  let content :=
    match args.get? "text" 0 with
    | none => ""
    | some .undefined => ""
    | some value => value.display
  let size := (← number? site args "size" (some 1)).getD 10.0
  let family ←
    match args.get? "font" 2 with
    | some (.string family) => pure family
    | some .undefined => pure host.settings.fonts.family
    | none => pure host.settings.fonts.family
    | some other => throw (site.invalid ("`font` must be a string, got " ++ other.repr))
  match host.fonts.resolve family with
  | .error detail => throw ⟨.font site.name detail, some site.pos⟩
  | .ok font =>
    return .shape (.text font content size (size * glyphAdvance * Float.ofNat content.length))

/-! ## Combinations -/

def combination (join : Geometry Float → Geometry Float → Float → Geometry Float)
    (width : Smoothing → Float) : Operator := fun host site args => do
  known site args ["k"]
  let k := (← number? site args "k" (some 0)).getD (width host.settings.smoothing)
  return .fold (join · · k) .ok

/-! ## Changes -/

def change (host : Host) (f : Geometry Float → Except RuntimeError (Geometry Float)) : Plan :=
  .fold (Geometry.union · · host.settings.smoothing.union) f

def translate : Operator := fun host site args => do
  known site args ["v"]
  let offset := (← vector? site args "v" 0 0.0).getD (.splat 0)
  return change host fun g => .ok (g.translate offset)

def leastLength : Float := 2.220446049250313e-16

/-- The direction of a vector that is longer than `leastLength`. -/
def direction? (v : Vec3 Float) : Option (Vec3 Float) :=
  if leastLength * leastLength < v.normSq then some (v.shrink v.norm) else none

/-- Angles in degrees about the three axes: given as such, or by an axis and the angle about it. -/
def rotationAngles (site : CallSite) (args : Arguments) : Check (Vec3 Float) := do
  let axis ← vector? site args "v" 1 0.0
  match args.get? "a" 0 with
  | none => pure (.splat 0)
  | some .undefined => pure (.splat 0)
  | some (.number a) =>
    match axis with
    | none => pure ⟨0, 0, a⟩
    | some axis =>
      match direction? axis with
      | none => throw (site.invalid "rotation axis must not be zero")
      | some axis =>
        pure ((Rotation.ofAxisAngle axis (a * radiansPerDegree)).angles.scale degreesPerRadian)
  | some _ => return (← vector? site args "a" 0 0.0).getD (.splat 0)

/-- Turn about the three axes in order; flat geometry turns in its plane. -/
def turn (angles : Vec3 Float) (g : Geometry Float) : Geometry Float :=
  match g.dimension with
  | .flat => g.rotateZ (angles.z * radiansPerDegree)
  | .solid =>
    let g := if angles.x != 0 then g.rotateX (angles.x * radiansPerDegree) else g
    let g := if angles.y != 0 then g.rotateY (angles.y * radiansPerDegree) else g
    if angles.z != 0 then g.rotateZ (angles.z * radiansPerDegree) else g

def rotate : Operator := fun host site args => do
  known site args ["a", "v"]
  let angles ← rotationAngles site args
  return change host fun g => .ok (turn angles g)

def scale : Operator := fun host site args => do
  known site args ["v"]
  let factor := (← vector? site args "v" 0 1.0).getD (.splat 1.0)
  if factor.toList.any (· == 0) then throw (site.invalid "scale factors must be non-zero")
  return change host fun g => .ok (g.scale factor)

def mirror : Operator := fun host site args => do
  known site args ["v"]
  let normal := (← vector? site args "v" 0 0.0).getD ⟨1, 0, 0⟩
  match direction? normal with
  | none => throw (site.invalid "mirror normal must not be zero")
  | some normal => return change host fun g => .ok (g.mirror normal)

def extrude : Operator := fun host site args => do
  known site args ["height", "center"]
  let height := (← number? site args "height" (some 0)).getD 100.0
  if height ≤ 0
    then throw (site.invalid ("height must be positive, got " ++ Decimal.display height))
  let center := flag args "center" 1
  return change host fun g =>
    match g.dimension with
    | .solid => .error (site.invalid "children must be 2-D")
    | .flat =>
      .ok (if center then g.extrude height else (g.extrude height).translate ⟨0, 0, height / 2.0⟩)

def shell : Operator := fun host site args => do
  known site args ["thickness"]
  let thickness := (← number? site args "thickness" (some 0)).getD 1.0
  if thickness ≤ 0
    then throw (site.invalid ("thickness must be positive, got " ++ Decimal.display thickness))
  return change host fun g => .ok (g.shell thickness)

def echoChildren : Operator := fun _ _ args => do
  (Noted.note ⟨.info, args.echoLine⟩ : Reporting Unit)
  return .relay

def operators : List (String × Operator) := [
  ("sphere", sphere),
  ("cube", cube),
  ("cylinder", cylinder),
  ("circle", circle),
  ("square", square),
  ("text", text),
  ("union", combination .union (·.union)),
  ("intersection", combination .intersection (·.intersection)),
  ("difference", combination .difference (·.difference)),
  ("blend", combination .blend (·.blend)),
  ("translate", translate),
  ("rotate", rotate),
  ("scale", scale),
  ("mirror", mirror),
  ("linear_extrude", extrude),
  ("extrude", extrude),
  ("shell", shell),
  ("echo", echoChildren)]

end Builtin

structure Registry where
  operators : List (String × Builtin.Operator) := []
  functions : List (String × Builtin.Function) := []

def Registry.standard : Registry := ⟨Builtin.operators, Builtin.functions⟩

end SolidScript
